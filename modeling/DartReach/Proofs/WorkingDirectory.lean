import DartReach.Proofs.FileWriting
import DartReach.Proofs.RelativePaths

/-!
# Looking up from the current directory

A lookup that starts in a directory and the lookup of the same place from the top end alike, in success
and in failure, as long as nothing above the directory is in the way.
-/

namespace DartReach

set_option autoImplicit false

open Bytes (slash)
open DartReach.Path (Ordinary walk render)

namespace FileSystem

/-- A directory that can be reached from the top along its names. -/
structure Reached (root : Node) (loc : Location) : Prop where
  opens : ∀ dir, dir <+: loc → Opens root dir
  short : ∀ name ∈ loc, name.length ≤ maxName

namespace Reached

variable {root : Node} {loc dir : Location}

theorem mono (h : Reached root loc) (hdir : dir <+: loc) : Reached root dir :=
  ⟨fun d hd => h.opens d (hd.trans hdir), fun name hname => h.short name (hdir.subset hname)⟩

theorem proper (h : Reached root loc) (hroot : root.WellFormed) : ∀ name ∈ loc, properName name = true := by
  obtain ⟨_, _, hget, _⟩ := h.opens loc (List.prefix_refl loc)
  exact (hroot.get? hget).2

/-- The way goes on from a directory to the next one. -/
theorem asks {name : Name} (h : Reached root (dir ++ [name])) (hroot : root.WellFormed) :
    ∃ entries access, Asks root dir name (some (.dir entries access)) := by
  obtain ⟨outer, outerAccess, houter, hmay⟩ := h.opens dir (List.prefix_append dir [name])
  obtain ⟨entries, access, hget, _⟩ := h.opens _ (List.prefix_refl _)
  have hname : Ordinary name := Path.ordinary_of_properName (h.proper hroot name (by simp))
  refine ⟨entries, access, ⟨outer, outerAccess, houter, hmay, ?_⟩, hname.notHere, hname.notUp,
    h.short name (by simp)⟩
  rw [← Node.get?_concat houter, hget]

end Reached

theorem prefix_walk_up (loc : Location) (n : Nat) : walk loc (List.replicate n Path.up) <+: loc := by
  induction n generalizing loc with
  | zero => exact List.prefix_refl loc
  | succ n ih =>
    rw [List.replicate_succ, Path.walk_cons, Path.walk_up]
    exact (ih loc.dropLast).trans (List.dropLast_prefix loc)

section Follow

variable {root : Node} (jump : Location → Route → Except Cause Spot) (last directory : Bool)
  (rest : List Name)

theorem follow_up {here : Location} (h : Opens root here) :
    follow root jump last directory here (Path.up :: rest) =
      follow root jump last directory here.dropLast rest := by
  obtain ⟨entries, access, hget, haccess⟩ := h
  have hne : Path.up ≠ Path.here := by decide
  rw [follow, hget]
  dsimp only
  rw [if_neg haccess, if_neg hne, if_pos rfl]

theorem follow_replicate_up {here : Location} (h : Reached root here) (n : Nat) :
    follow root jump last directory here (List.replicate n Path.up ++ rest) =
      follow root jump last directory (walk here (List.replicate n Path.up)) rest := by
  induction n generalizing here with
  | zero => rfl
  | succ n ih =>
    rw [List.replicate_succ, List.cons_append, follow_up _ _ _ _ (h.opens here (List.prefix_refl here)),
      ih (h.mono (List.dropLast_prefix here)), Path.walk_cons, Path.walk_up]

theorem follow_names (hroot : root.WellFormed) {here : Location} {names : List Name}
    (h : Reached root (here ++ names)) :
    follow root jump last directory here (names ++ rest) =
      follow root jump last directory (here ++ names) rest := by
  induction names generalizing here with
  | nil => rw [List.nil_append, List.append_nil]
  | cons name names ih =>
    have hsplit : here ++ name :: names = here ++ [name] ++ names := by simp
    rw [hsplit] at h ⊢
    obtain ⟨entries, access, hasks⟩ := (h.mono (List.prefix_append _ names)).asks hroot
    rw [List.cons_append, follow_cons_of_asks _ _ _ _ hasks]
    exact ih h

end Follow

/-- Climbing out of a directory and going down ends where going down from the top does. -/
theorem trace_from_top {root : Node} (hroot : root.WellFormed) {loc : Location} (h : Reached root loc)
    (last : Bool) (links n : Nat) (names : List Name) :
    trace root last links loc ⟨List.replicate n Path.up ++ names, false⟩ =
      trace root last links [] ⟨walk loc (List.replicate n Path.up) ++ names, false⟩ := by
  have hfollow : ∀ jump, follow root jump last false loc (List.replicate n Path.up ++ names) =
      follow root jump last false [] (walk loc (List.replicate n Path.up) ++ names) := by
    intro jump
    have hdir := h.mono (prefix_walk_up loc n)
    rw [follow_replicate_up _ _ _ _ h, follow_names _ _ _ _ hroot hdir, List.nil_append]
  cases links with
  | zero => exact hfollow _
  | succ links => exact hfollow _

end FileSystem

/-! ### Paths -/

theorem Bytes.mem_join_iff {sep b : UInt8} (hb : b ≠ sep) {xs : List Bytes} :
    b ∈ Bytes.join [sep] xs ↔ ∃ x ∈ xs, b ∈ x := by
  induction xs with
  | nil => simp
  | cons x xs ih =>
    cases xs with
    | nil => simp
    | cons y ys =>
      rw [Bytes.join_cons_cons, List.append_assoc, List.mem_append, List.mem_append, ih]
      simp [hb]

/-- Names without a zero byte in front do not change whether a path has one. -/
theorem Path.zero_mem_render_iff (rooted : Bool) {front back : List Bytes} (hne : back ≠ [])
    (hfront : ∀ s ∈ front, 0 ∉ s) : (0 : UInt8) ∈ render rooted (front ++ back) ↔ ∃ s ∈ back, 0 ∈ s := by
  have hzero : (0 : UInt8) ≠ slash := by decide
  have hsegs : (0 : UInt8) ∈ render rooted (front ++ back) ↔ ∃ s ∈ front ++ back, 0 ∈ s := by
    cases rooted with
    | true => rw [render, if_pos rfl, List.mem_cons, or_iff_right hzero, Bytes.mem_join_iff hzero]
    | false => rw [render, if_neg (by simp), if_neg (by simp [hne]), Bytes.mem_join_iff hzero]
  rw [hsegs]
  constructor
  · rintro ⟨s, hs, h⟩
    rcases List.mem_append.mp hs with hs | hs
    · exact absurd h (hfront s hs)
    · exact ⟨s, hs, h⟩
  · rintro ⟨s, hs, h⟩
    exact ⟨s, List.mem_append_right front hs, h⟩

theorem Route.ofPath_render (rooted : Bool) {segs : List Bytes} (hne : segs ≠ [])
    (h : ∀ s ∈ segs, s ≠ [] ∧ slash ∉ s) : Route.ofPath (render rooted segs) = ⟨segs, false⟩ := by
  have hnames : (Path.segments (render rooted segs)).filter (· ≠ []) = segs := by
    have hsplit := Bytes.split_join hne (fun s hs => (h s hs).2)
    have hall : segs.filter (· ≠ []) = segs := by
      apply List.filter_eq_self.mpr
      intro s hs
      exact decide_eq_true (h s hs).1
    cases rooted with
    | true =>
      rw [render, if_pos rfl, Path.segments, Bytes.split, if_pos rfl, hsplit,
        List.filter_cons_of_neg (by simp)]
      exact hall
    | false =>
      rw [render, if_neg (by simp), if_neg hne, Path.segments, hsplit]
      exact hall
  have hend : ((render rooted segs).getLast? == some slash) = false := by
    rw [beq_eq_false_iff_ne]
    exact Path.getLast?_render rooted hne h
  rw [Route.ofPath, hnames, hend]

theorem FileSystem.locate_from_top (fs : FileSystem) {loc : Location} (start : Option Location)
    (last : Bool) {p q : Bytes} (hzero : 0 ∈ p ↔ 0 ∈ q) (hrelative : p ≠ [] ∧ Path.isAbsolute p = false)
    (habsolute : Path.isAbsolute q = true) (hshort : p.length ≤ maxPath ∧ q.length ≤ maxPath)
    (htrace : trace fs.root last maxLinks loc (Route.ofPath p) =
      trace fs.root last maxLinks [] (Route.ofPath q)) :
    fs.locate (some loc) last p = fs.locate start last q := by
  have hq : q ≠ [] := by
    rintro rfl
    cases habsolute
  have hzeros : p.contains 0 = q.contains 0 := by
    rw [List.contains_eq_mem, List.contains_eq_mem, decide_eq_decide]
    exact hzero
  unfold locate
  rw [hzeros, if_neg (by simpa using hrelative.1 : ¬ p.isEmpty = true),
    if_neg (by simpa using hq : ¬ q.isEmpty = true),
    if_neg (Nat.not_lt.mpr hshort.1), if_neg (Nat.not_lt.mpr hshort.2), hrelative.2,
    if_neg Bool.false_ne_true, if_pos habsolute, ← htrace]

theorem FileSystem.written_of_properName {name : Name} (h : properName name = true) : Written name := by
  simp only [properName, Bool.and_eq_true, Bool.not_eq_true', List.isEmpty_eq_false_iff, bne_iff_ne,
    List.contains_eq_mem, decide_eq_false_iff_not] at h
  exact ⟨h.1.1.1.1, h.1.1.1.2, h.1.1.2⟩

/-- A way out of the directory and down along names is found from the top as it is from the directory. -/
theorem FileSystem.locate_descent {fs : FileSystem} {loc : Location} (h : Reached fs.root loc) (last : Bool)
    {n : Nat} {names : List Bytes} (hne : names ≠ []) (hnames : ∀ s ∈ names, Ordinary s)
    (hshort : (render false (List.replicate n Path.up ++ names)).length ≤ maxPath ∧
      (render true (walk loc (List.replicate n Path.up) ++ names)).length ≤ maxPath) :
    fs.locate (some loc) last (render false (List.replicate n Path.up ++ names)) =
      fs.locate (some loc) last (render true (walk loc (List.replicate n Path.up) ++ names)) := by
  have hrelative : render false (List.replicate n Path.up ++ names) ≠ [] ∧
      Path.isAbsolute (render false (List.replicate n Path.up ++ names)) = false := by
    have hsettled : Path.Settled (names.reverse ++ List.replicate n Path.up) :=
      ⟨names.reverse, n, rfl, fun s hs => hnames s (List.mem_reverse.mp hs)⟩
    have hreverse : (names.reverse ++ List.replicate n Path.up).reverse =
        List.replicate n Path.up ++ names := by simp
    rw [← hreverse]
    exact ⟨Path.render_relative_ne_nil hsettled, Path.isAbsolute_render_relative hsettled⟩
  have hdown : ∀ s ∈ names, s ≠ [] ∧ slash ∉ s :=
    fun s hs => ⟨(hnames s hs).nonempty, (hnames s hs).slashFree⟩
  have hups : ∀ s ∈ List.replicate n Path.up, Written s := by
    intro s hs
    rw [List.eq_of_mem_replicate hs]
    exact ⟨by decide, by decide, by decide⟩
  have habove : ∀ s ∈ walk loc (List.replicate n Path.up), Written s := fun s hs =>
    written_of_properName ((h.mono (prefix_walk_up loc n)).proper fs.wellFormed s hs)
  apply locate_from_top _ _ _ _ hrelative (Path.isAbsolute_render _) hshort
  · rw [Route.ofPath_render false (by simp [hne]), Route.ofPath_render true (by simp [hne])]
    · exact trace_from_top fs.wellFormed h _ _ _ _
    · exact List.forall_mem_append.mpr ⟨fun s hs => ⟨(habove s hs).1, (habove s hs).2.1⟩, hdown⟩
    · exact List.forall_mem_append.mpr ⟨fun s hs => ⟨(hups s hs).1, (hups s hs).2.1⟩, hdown⟩
  · rw [Path.zero_mem_render_iff false hne fun s hs => (hups s hs).2.2,
      Path.zero_mem_render_iff true hne fun s hs => (habove s hs).2.2]

namespace Host

open FileSystem (Reached)

/-- A relative path that ends in a name leads where its absolute normal form leads. -/
theorem find_from_top {host : Host} {loc : Location} (hwd : host.workingDir = some loc)
    (h : Reached host.files.root loc) {done : List Bytes} (hd : Path.Settled done) {name : Bytes}
    (hname : Ordinary name) (hshort : (render false (name :: done).reverse).length ≤ maxPath ∧
      (render true (walk loc (name :: done).reverse)).length ≤ maxPath) :
    host.find (render false (name :: done).reverse) =
      host.find (render true (walk loc (name :: done).reverse)) := by
  obtain ⟨n, names, hdown, hordinary⟩ := hd.exists_descent hname
  rw [hdown, Path.walk_append, Path.walk_ordinary _ hordinary] at hshort ⊢
  rw [find, find, FileSystem.find, FileSystem.find, hwd,
    FileSystem.locate_descent h true (by simp) hordinary hshort]

end Host

end DartReach
