import Mathlib.Data.List.Basic
import DartReach.Host

/-!
# The normal form of absolute paths

An absolute path in normal form is a slash and a list of ordinary segments with slashes between them.
Everything that is said about such paths is said about the lists: two of them are equal as strings if
and only if their lists are, joining appends, the parent drops the last segment, and the relative
spelling of a path below a root does not mention the root.
-/

namespace DartReach

set_option autoImplicit false

namespace Bytes

theorem split_ne_nil (sep : UInt8) (p : Bytes) : split sep p ≠ [] := by
  cases p with
  | nil => simp [split]
  | cons b p =>
    simp only [split]
    split
    · simp
    · split <;> simp

theorem split_append_cons (sep : UInt8) (p q : Bytes) :
    split sep (p ++ sep :: q) = split sep p ++ split sep q := by
  induction p with
  | nil => simp [split]
  | cons b p ih =>
    simp only [List.cons_append, split, ih]
    by_cases hb : b = sep
    · simp [hb]
    · simp only [if_neg hb]
      cases hs : split sep p with
      | nil => exact absurd hs (split_ne_nil sep p)
      | cons piece pieces => simp

theorem split_of_not_mem {sep : UInt8} {p : Bytes} (h : sep ∉ p) : split sep p = [p] := by
  induction p with
  | nil => rfl
  | cons b p ih =>
    rw [List.mem_cons, not_or] at h
    simp only [split, if_neg (Ne.symm h.1), ih h.2]

theorem not_mem_of_mem_split {sep : UInt8} {p s : Bytes} (h : s ∈ split sep p) : sep ∉ s := by
  induction p generalizing s with
  | nil =>
    have hs : s = [] := by simpa [split] using h
    simp [hs]
  | cons b p ih =>
    simp only [split] at h
    split at h
    · rcases List.mem_cons.mp h with rfl | h
      · simp
      · exact ih h
    · rename_i hb
      cases hs : split sep p with
      | nil => exact absurd hs (split_ne_nil sep p)
      | cons piece pieces =>
        rw [hs] at h
        rcases List.mem_cons.mp h with rfl | h
        · have hp : sep ∉ piece := ih (hs ▸ List.mem_cons_self)
          rw [List.mem_cons, not_or]
          exact ⟨fun he => hb he.symm, hp⟩
        · exact ih (hs ▸ List.mem_cons_of_mem _ h)

theorem join_cons_cons (sep x y : Bytes) (xs : List Bytes) :
    join sep (x :: y :: xs) = x ++ sep ++ join sep (y :: xs) := by
  simp [join, List.intercalate, List.intersperse]

@[simp] theorem join_singleton (sep x : Bytes) : join sep [x] = x := by
  simp [join, List.intercalate]

@[simp] theorem join_nil (sep : Bytes) : join sep [] = [] := rfl

theorem join_append (sep : Bytes) {xs ys : List Bytes} (hx : xs ≠ []) (hy : ys ≠ []) :
    join sep (xs ++ ys) = join sep xs ++ sep ++ join sep ys := by
  induction xs with
  | nil => exact absurd rfl hx
  | cons x xs ih =>
    cases xs with
    | nil =>
      cases ys with
      | nil => exact absurd rfl hy
      | cons y ys => simp [join_cons_cons]
    | cons x' xs =>
      have ht := ih (by simp)
      rw [List.cons_append] at ht
      simp only [List.cons_append, join_cons_cons, ht, List.append_assoc]

theorem exists_join_concat (sep : Bytes) (xs : List Bytes) (x : Bytes) :
    ∃ front, join sep (xs ++ [x]) = front ++ x := by
  by_cases hxs : xs = []
  · exact ⟨[], by simp [hxs]⟩
  · exact ⟨join sep xs ++ sep, by rw [join_append sep hxs (by simp), join_singleton]⟩

theorem split_join {sep : UInt8} {xs : List Bytes} (hne : xs ≠ []) (h : ∀ x ∈ xs, sep ∉ x) :
    split sep (join [sep] xs) = xs := by
  induction xs with
  | nil => exact absurd rfl hne
  | cons x xs ih =>
    have hx := split_of_not_mem (h x List.mem_cons_self)
    cases xs with
    | nil => rw [join_singleton, hx]
    | cons y ys =>
      rw [join_cons_cons, List.append_assoc, List.singleton_append, split_append_cons, hx,
        ih (by simp) (fun z hz => h z (List.mem_cons_of_mem x hz))]
      rfl

theorem join_split (sep : UInt8) (p : Bytes) : join [sep] (split sep p) = p := by
  induction p with
  | nil => rfl
  | cons b p ih =>
    obtain ⟨piece, pieces, hs⟩ := List.exists_cons_of_ne_nil (split_ne_nil sep p)
    rw [hs] at ih
    simp only [split, hs]
    split
    · rename_i hb
      rw [join_cons_cons, ih, hb]
      rfl
    · cases pieces with
      | nil =>
        rw [join_singleton] at ih ⊢
        rw [ih]
      | cons next pieces =>
        rw [join_cons_cons] at ih ⊢
        rw [← ih, List.append_assoc, List.append_assoc, List.cons_append]

end Bytes

namespace Path

open Bytes (slash)

/-- A segment that stands for an entry of a directory. -/
structure Ordinary (s : Bytes) : Prop where
  nonempty : s ≠ []
  notHere : s ≠ here
  notUp : s ≠ up
  slashFree : slash ∉ s

theorem ordinary_of_properName {name : Name} (h : properName name = true) : Ordinary name := by
  simp only [properName, Bool.and_eq_true, Bool.not_eq_true', List.isEmpty_eq_false_iff,
    bne_iff_ne, List.contains_eq_mem, decide_eq_false_iff_not] at h
  obtain ⟨⟨⟨⟨hne, hs⟩, _⟩, hh⟩, hu⟩ := h
  exact ⟨hne, hh, hu, hs⟩

/-! ### Reading segments -/

theorem step_redundant (rooted : Bool) (done : List Bytes) {s : Bytes} (h : s = [] ∨ s = here) :
    step rooted done s = done := by
  simp [step, h]

theorem step_ordinary (rooted : Bool) (done : List Bytes) {s : Bytes} (h : Ordinary s) :
    step rooted done s = s :: done := by
  simp [step, h.nonempty, h.notHere, h.notUp]

theorem foldl_step_ordinary (rooted : Bool) {names : List Bytes} (h : ∀ s ∈ names, Ordinary s)
    (done : List Bytes) : names.foldl (step rooted) done = names.reverse ++ done := by
  induction names generalizing done with
  | nil => rfl
  | cons s names ih =>
    rw [List.foldl_cons, step_ordinary rooted done (h s List.mem_cons_self),
      ih (fun x hx => h x (List.mem_cons_of_mem s hx))]
    simp

theorem reduce_ordinary (rooted : Bool) {names : List Bytes} (h : ∀ s ∈ names, Ordinary s) :
    reduce rooted names = names := by
  simp [reduce, foldl_step_ordinary rooted h]

theorem reduce_append (rooted : Bool) (xs ys : List Bytes) :
    reduce rooted (xs ++ ys) = (ys.foldl (step rooted) (reduce rooted xs).reverse).reverse := by
  simp [reduce]

theorem step_rooted_ordinary {done : List Bytes} (hd : ∀ s ∈ done, Ordinary s) {s : Bytes}
    (hs : slash ∉ s) : ∀ x ∈ step true done s, Ordinary x := by
  intro x hx
  simp only [step] at hx
  split at hx
  · exact hd x hx
  · rename_i hred
    rw [not_or] at hred
    split at hx
    · cases done with
      | nil => simp at hx
      | cons last before =>
        simp only [if_neg (hd last List.mem_cons_self).notUp] at hx
        exact hd x (List.mem_cons_of_mem last hx)
    · rename_i hup
      rcases List.mem_cons.mp hx with rfl | hx
      · exact ⟨hred.1, hred.2, hup, hs⟩
      · exact hd x hx

theorem foldl_step_rooted_ordinary {segs : List Bytes} (hs : ∀ s ∈ segs, slash ∉ s)
    {done : List Bytes} (hd : ∀ s ∈ done, Ordinary s) :
    ∀ x ∈ segs.foldl (step true) done, Ordinary x := by
  induction segs generalizing done with
  | nil => exact hd
  | cons s segs ih =>
    exact ih (fun x hx => hs x (List.mem_cons_of_mem s hx))
      (step_rooted_ordinary hd (hs s List.mem_cons_self))

/-- At the root everything that remains of a path is ordinary. -/
theorem reduce_rooted_ordinary {segs : List Bytes} (hs : ∀ s ∈ segs, slash ∉ s) :
    ∀ x ∈ reduce true segs, Ordinary x := by
  intro x hx
  exact foldl_step_rooted_ordinary hs (by simp) x (List.mem_reverse.mp hx)

theorem slash_not_mem_segments {p s : Bytes} (h : s ∈ segments p) : slash ∉ s :=
  Bytes.not_mem_of_mem_split h

theorem mem_foldl_step {rooted : Bool} {segs done : List Bytes} {x : Bytes}
    (h : x ∈ segs.foldl (step rooted) done) : x ∈ done ∨ x = up ∨ x ∈ segs ∧ x ≠ [] := by
  induction segs generalizing done with
  | nil => exact Or.inl h
  | cons s segs ih =>
    rcases ih h with hx | hx | ⟨hx, hne⟩
    · simp only [step] at hx
      split at hx
      · exact Or.inl hx
      · rename_i hred
        rw [not_or] at hred
        split at hx
        · cases done with
          | nil => cases rooted <;> simp_all
          | cons last before =>
            simp only at hx
            split at hx
            · rw [List.mem_cons] at hx
              tauto
            · exact Or.inl (List.mem_cons_of_mem last hx)
        · rcases List.mem_cons.mp hx with rfl | hx
          · exact Or.inr (Or.inr ⟨List.mem_cons_self, hred.1⟩)
          · exact Or.inl hx
    · exact Or.inr (Or.inl hx)
    · exact Or.inr (Or.inr ⟨List.mem_cons_of_mem s hx, hne⟩)

/-- What is kept of a relative path, last first: ordinary segments behind some `..`. -/
def Settled (done : List Bytes) : Prop :=
  ∃ names n, done = names ++ List.replicate n up ∧ ∀ s ∈ names, Ordinary s

theorem step_settled {done : List Bytes} (hd : Settled done) {s : Bytes} (hs : slash ∉ s) :
    Settled (step false done s) := by
  obtain ⟨names, n, rfl, hn⟩ := hd
  simp only [step]
  split
  · exact ⟨names, n, rfl, hn⟩
  rename_i hred
  rw [not_or] at hred
  split
  · cases names with
    | nil =>
      refine ⟨[], n + 1, ?_, by simp⟩
      cases n <;> simp [List.replicate_succ]
    | cons last before =>
      rw [List.forall_mem_cons] at hn
      refine ⟨before, n, ?_, hn.2⟩
      simp [hn.1.notUp]
  · rename_i hup
    exact ⟨s :: names, n, rfl, List.forall_mem_cons.mpr ⟨⟨hred.1, hred.2, hup, hs⟩, hn⟩⟩

theorem foldl_step_settled {segs : List Bytes} (hs : ∀ s ∈ segs, slash ∉ s) {done : List Bytes}
    (hd : Settled done) : Settled (segs.foldl (step false) done) := by
  induction segs generalizing done with
  | nil => exact hd
  | cons s segs ih =>
    exact ih (fun x hx => hs x (List.mem_cons_of_mem s hx))
      (step_settled hd (hs s List.mem_cons_self))

theorem foldl_step_replicate_up (n k : Nat) :
    (List.replicate n up).foldl (step false) (List.replicate k up) = List.replicate (n + k) up := by
  induction n generalizing k with
  | zero => simp
  | succ n ih =>
    have hstep : step false (List.replicate k up) up = List.replicate (k + 1) up := by
      cases k <;> simp [step, List.replicate_succ, up, here]
    rw [List.replicate_succ, List.foldl_cons, hstep, ih]
    congr 1
    omega

/-- A path that was reduced once stays as it is. -/
theorem reduce_settled {done : List Bytes} (h : Settled done) :
    reduce false done.reverse = done.reverse := by
  obtain ⟨names, n, rfl, hn⟩ := h
  have hups := foldl_step_replicate_up n 0
  rw [List.replicate_zero, Nat.add_zero] at hups
  rw [reduce, List.reverse_append, List.reverse_replicate, List.foldl_append, hups,
    foldl_step_ordinary false (fun s hs => hn s (List.mem_reverse.mp hs)), List.reverse_reverse]
  simp

theorem Settled.slashFree {done : List Bytes} (h : Settled done) : ∀ s ∈ done, slash ∉ s := by
  obtain ⟨names, n, rfl, hn⟩ := h
  intro s hs
  rcases List.mem_append.mp hs with hs | hs
  · exact (hn s hs).slashFree
  · rw [List.eq_of_mem_replicate hs]
    decide

/-! ### Paths that stay below their start -/

/-- The segments lead above the directory they are read from. -/
def Climbs (segs : List Bytes) : Prop := (reduce false segs).head? = some up

instance (segs : List Bytes) : Decidable (Climbs segs) :=
  inferInstanceAs (Decidable ((reduce false segs).head? = some up))

theorem step_bottom_up {done : List Bytes} (h : done.getLast? = some up) (s : Bytes) :
    (step false done s).getLast? = some up := by
  cases done with
  | nil => simp at h
  | cons last before =>
    simp only [step]
    split
    · exact h
    · split
      · split
        · rw [List.getLast?_cons_cons]
          exact h
        · rename_i hlast
          cases before with
          | nil => exact absurd (by simpa using h) hlast
          | cons b before => rwa [List.getLast?_cons_cons] at h
      · rw [List.getLast?_cons_cons]
        exact h

theorem foldl_step_bottom_up {done : List Bytes} (h : done.getLast? = some up)
    (segs : List Bytes) : (segs.foldl (step false) done).getLast? = some up := by
  induction segs generalizing done with
  | nil => exact h
  | cons s segs ih => exact ih (step_bottom_up h s)

theorem step_append_below {done : List Bytes} (hd : up ∉ done) {s : Bytes}
    (h : (step false done s).getLast? ≠ some up) (below : List Bytes) :
    step true (done ++ below) s = step false done s ++ below ∧ up ∉ step false done s := by
  by_cases hred : s = [] ∨ s = here
  · rw [step_redundant _ _ hred, step_redundant _ _ hred]
    exact ⟨rfl, hd⟩
  · simp only [step, if_neg hred] at h ⊢
    split
    · rename_i hup
      cases done with
      | nil => simp [hup] at h
      | cons last before =>
        rw [List.mem_cons, not_or] at hd
        simp only [List.cons_append, if_neg (Ne.symm hd.1), true_and]
        exact hd.2
    · rename_i hup
      rw [List.mem_cons, not_or]
      exact ⟨rfl, Ne.symm hup, hd⟩

theorem foldl_step_append_below {segs done : List Bytes} (hd : up ∉ done)
    (h : (segs.foldl (step false) done).getLast? ≠ some up) (below : List Bytes) :
    segs.foldl (step true) (done ++ below) = segs.foldl (step false) done ++ below := by
  induction segs generalizing done with
  | nil => rfl
  | cons s segs ih =>
    -- A `..` that was kept once stays at the bottom, so none was kept on the way.
    have hs : (step false done s).getLast? ≠ some up :=
      fun hup => h (foldl_step_bottom_up hup segs)
    obtain ⟨heq, hno⟩ := step_append_below hd hs below
    rw [List.foldl_cons, List.foldl_cons, heq]
    exact ih hno h

/-- Segments that do not climb are read below any directory as they are read alone. -/
theorem reduce_append_of_not_climbs {base segs : List Bytes} (hb : ∀ s ∈ base, Ordinary s)
    (h : ¬ Climbs segs) : reduce true (base ++ segs) = base ++ reduce false segs := by
  have hlast : (segs.foldl (step false) []).getLast? ≠ some up := by
    rw [← List.head?_reverse]
    exact h
  have heq := foldl_step_append_below (by simp) hlast base.reverse
  rw [List.nil_append] at heq
  rw [reduce_append, reduce_ordinary true hb, heq]
  simp [reduce]

theorem reduce_relative_ordinary {segs : List Bytes} (hs : ∀ s ∈ segs, slash ∉ s)
    (h : ¬ Climbs segs) : ∀ x ∈ reduce false segs, Ordinary x := by
  have heq := @reduce_append_of_not_climbs [] segs (by simp) h
  rw [List.nil_append, List.nil_append] at heq
  rw [← heq]
  exact reduce_rooted_ordinary hs

/-! ### Canonical paths -/

@[simp] theorem isAbsolute_render (names : List Bytes) : isAbsolute (render true names) = true := by
  simp [render, isAbsolute]

theorem render_ne_nil (names : List Bytes) : render true names ≠ [] := by
  simp [render]

/-- Behind the last segment there is no slash. -/
theorem getLast?_render (rooted : Bool) {segs : List Bytes} (hne : segs ≠ [])
    (h : ∀ s ∈ segs, s ≠ [] ∧ slash ∉ s) : (render rooted segs).getLast? ≠ some slash := by
  obtain ⟨front, last, rfl⟩ := (List.eq_nil_or_concat segs).resolve_left hne
  rw [List.concat_eq_append] at hne h ⊢
  obtain ⟨hlast, hslash⟩ := h last (by simp)
  obtain ⟨before, hbefore⟩ := Bytes.exists_join_concat [slash] front last
  have htext : ∃ before, render rooted (front ++ [last]) = before ++ last := by
    cases rooted with
    | true => exact ⟨slash :: before, by rw [render, if_pos rfl, hbefore, List.cons_append]⟩
    | false => exact ⟨before, by rw [render, if_neg (by simp), if_neg hne, hbefore]⟩
  obtain ⟨text, htext⟩ := htext
  rw [htext, List.getLast?_append_of_ne_nil _ hlast]
  exact fun hend => hslash (List.mem_of_getLast? hend)

theorem segments_append_slash (p q : Bytes) :
    segments (p ++ slash :: q) = segments p ++ segments q :=
  Bytes.split_append_cons slash p q

theorem reduce_segments_render {names : List Bytes} (h : ∀ s ∈ names, Ordinary s) :
    reduce true (segments (render true names)) = names := by
  have hs : segments (render true names) = [] :: segments (Bytes.join [slash] names) := by
    simp [render, segments, Bytes.split]
  by_cases hn : names = []
  · subst hn
    rfl
  · have hj : segments (Bytes.join [slash] names) = names :=
      Bytes.split_join hn (fun x hx => (h x hx).slashFree)
    rw [hs, hj]
    simp [reduce, step_redundant, foldl_step_ordinary true h]

theorem reduce_segments_render_relative {done : List Bytes} (h : Settled done) :
    reduce false (segments (render false done.reverse)) = done.reverse := by
  by_cases hn : done.reverse = []
  · rw [hn]
    rfl
  · have hj : segments (Bytes.join [slash] done.reverse) = done.reverse :=
      Bytes.split_join hn (fun s hs => h.slashFree s (List.mem_reverse.mp hs))
    simp only [render, Bool.false_eq_true, if_false, if_neg hn]
    rw [hj, reduce_settled h]

theorem render_injective {xs ys : List Bytes} (hx : ∀ s ∈ xs, Ordinary s)
    (hy : ∀ s ∈ ys, Ordinary s) (h : render true xs = render true ys) : xs = ys := by
  rw [← reduce_segments_render hx, h, reduce_segments_render hy]

theorem clean_of_absolute {p : Bytes} (h : isAbsolute p = true) :
    clean p = render true (reduce true (segments p)) := by
  rw [clean, h]

/-- What is kept of the segments of a relative path, last first. -/
def kept (p : Bytes) : List Bytes := (segments p).foldl (step false) []

theorem settled_kept (p : Bytes) : Settled (kept p) :=
  foldl_step_settled (fun _ hs => slash_not_mem_segments hs) ⟨[], 0, rfl, by simp⟩

theorem clean_of_relative {p : Bytes} (h : isAbsolute p = false) :
    clean p = render false (kept p).reverse := by
  rw [clean, h, reduce, kept]

theorem clean_render {names : List Bytes} (h : ∀ s ∈ names, Ordinary s) :
    clean (render true names) = render true names := by
  rw [clean_of_absolute (isAbsolute_render names), reduce_segments_render h]

theorem isAbsolute_clean (p : Bytes) : isAbsolute (clean p) = isAbsolute p := by
  cases hp : isAbsolute p with
  | true =>
    rw [clean_of_absolute hp]
    exact isAbsolute_render _
  | false =>
    simp only [clean, hp, render, Bool.false_eq_true, if_false]
    split
    · rfl
    · cases hs : reduce false (segments p) with
      | nil => rename_i hne; exact absurd hs hne
      | cons s rest =>
        have hmem : s ∈ (segments p).foldl (step false) [] := by
          rw [← List.mem_reverse, ← reduce, hs]
          exact List.mem_cons_self
        -- The first segment that remains has a first byte, and that is no slash.
        have hfirst : ∃ b t, s = b :: t ∧ b ≠ slash := by
          rcases mem_foldl_step hmem with h | h | ⟨h, hne⟩
          · simp at h
          · exact ⟨0x2E, [0x2E], h, by decide⟩
          · obtain ⟨b, t, rfl⟩ := List.exists_cons_of_ne_nil hne
            exact ⟨b, t, rfl, fun hb => slash_not_mem_segments h (hb ▸ List.mem_cons_self)⟩
        obtain ⟨b, t, rfl, hb⟩ := hfirst
        cases rest with
        | nil => simp [isAbsolute, hb]
        | cons r rest => simp [Bytes.join_cons_cons, isAbsolute, hb]

/-- An absolute path in normal form. -/
def Canonical (p : Bytes) : Prop := ∃ names, (∀ s ∈ names, Ordinary s) ∧ p = render true names

theorem canonical_render {names : List Bytes} (h : ∀ s ∈ names, Ordinary s) :
    Canonical (render true names) := ⟨names, h, rfl⟩

theorem canonical_clean {p : Bytes} (h : isAbsolute p = true) : Canonical (clean p) := by
  rw [clean_of_absolute h]
  exact canonical_render (reduce_rooted_ordinary (fun _ hs => slash_not_mem_segments hs))

theorem Canonical.isAbsolute {p : Bytes} (h : Canonical p) : isAbsolute p = true := by
  obtain ⟨names, _, rfl⟩ := h
  exact isAbsolute_render names

theorem Canonical.clean_eq {p : Bytes} (h : Canonical p) : clean p = p := by
  obtain ⟨names, hn, rfl⟩ := h
  exact clean_render hn

theorem clean_clean (p : Bytes) : clean (clean p) = clean p := by
  cases hp : isAbsolute p with
  | true => exact (canonical_clean hp).clean_eq
  | false =>
    rw [clean, isAbsolute_clean, hp, clean_of_relative hp, reduce_segments_render_relative (settled_kept p)]

theorem canonical_of_clean_eq {p : Bytes} (ha : Path.isAbsolute p = true) (h : clean p = p) :
    Canonical p := h ▸ canonical_clean ha

/-! ### Joining, parents and relative spellings -/

theorem join_of_ne_nil {p : Bytes} (h : p ≠ []) (q : Bytes) : join p q = clean (p ++ slash :: q) := by
  simp [join, h]

theorem isAbsolute_append {p : Bytes} (h : isAbsolute p = true) (q : Bytes) :
    isAbsolute (p ++ q) = true := by
  cases p with
  | nil => simp [isAbsolute] at h
  | cons b p => exact h

theorem join_render {names : List Bytes} (h : ∀ s ∈ names, Ordinary s) (q : Bytes) :
    join (render true names) q = render true (reduce true (names ++ segments q)) := by
  rw [join_of_ne_nil (render_ne_nil names),
    clean_of_absolute (isAbsolute_append (isAbsolute_render names) _), segments_append_slash,
    reduce_append, reduce_append, reduce_segments_render h, reduce_ordinary true h]

theorem canonical_join {p : Bytes} (h : Path.isAbsolute p = true) (q : Bytes) :
    Canonical (join p q) := by
  have hne : p ≠ [] := by
    rintro rfl
    simp [Path.isAbsolute] at h
  rw [join_of_ne_nil hne]
  exact canonical_clean (isAbsolute_append h _)

theorem ne_slash_of_mem_reverse {s : Bytes} (h : slash ∉ s) : ∀ b ∈ s.reverse, (b != slash) = true := by
  intro b hb
  rw [bne_iff_ne]
  rintro rfl
  exact h (List.mem_reverse.mp hb)

theorem parentText_append {s : Bytes} (h : slash ∉ s) (p : Bytes) :
    parentText (p ++ slash :: s) = p ++ [slash] := by
  simp only [parentText, Bytes.dropEndWhile, List.reverse_append, List.reverse_cons,
    List.append_assoc]
  rw [List.dropWhile_append_of_pos (ne_slash_of_mem_reverse h)]
  simp

theorem render_append_singleton (names : List Bytes) (s : Bytes) :
    ∃ p, render true (names ++ [s]) = p ++ slash :: s ∧ (p = [] ∧ names = [] ∨ p = render true names) := by
  by_cases hn : names = []
  · exact ⟨[], by simp [hn, render], Or.inl ⟨rfl, hn⟩⟩
  · refine ⟨render true names, ?_, Or.inr rfl⟩
    simp [render, Bytes.join_append [slash] hn (by simp : [s] ≠ [])]

theorem parent_render {names : List Bytes} {s : Bytes} (h : ∀ x ∈ names, Ordinary x)
    (hs : Ordinary s) : parent (render true (names ++ [s])) = render true names := by
  obtain ⟨p, hp, hcases⟩ := render_append_singleton names s
  rw [parent, hp, parentText_append hs.slashFree]
  rcases hcases with ⟨rfl, rfl⟩ | rfl
  · rfl
  · have hj := join_render h []
    rw [join_of_ne_nil (render_ne_nil names)] at hj
    rw [hj, reduce_append, reduce_ordinary true h]
    simp [segments, Bytes.split, step_redundant]

theorem dropCommon_append (xs ys : List Bytes) : dropCommon xs (xs ++ ys) = ([], ys) := by
  induction xs with
  | nil => cases ys <;> rfl
  | cons x xs ih => simp [dropCommon, ih]

theorem exists_common (xs ys : List Bytes) : ∃ common rest down,
    dropCommon xs ys = (rest, down) ∧ xs = common ++ rest ∧ ys = common ++ down := by
  fun_induction dropCommon xs ys with
  | case1 as a bs ih =>
    obtain ⟨common, rest, down, hdrop, rfl, rfl⟩ := ih
    exact ⟨a :: common, rest, down, hdrop, rfl, rfl⟩
  | case2 => exact ⟨[], _, _, rfl, rfl, rfl⟩
  | case3 => exact ⟨[], _, _, rfl, rfl, rfl⟩

/-- The segments that lead from one directory to another: up to where the two part, and down from there. -/
def route (xs ys : List Bytes) : List Bytes :=
  (dropCommon xs ys).1.map (fun _ => up) ++ (dropCommon xs ys).2

theorem route_append (xs ys : List Bytes) : route xs (xs ++ ys) = ys := by
  simp [route, dropCommon_append]

theorem route_self (xs : List Bytes) : route xs xs = [] := by
  have h := route_append xs []
  rwa [List.append_nil] at h

theorem eq_of_route_eq_nil {xs ys : List Bytes} (h : route xs ys = []) : xs = ys := by
  obtain ⟨common, rest, down, hdrop, rfl, rfl⟩ := exists_common xs ys
  simp only [route, hdrop, List.append_eq_nil_iff, List.map_eq_nil_iff] at h
  rw [h.1, h.2]

/-- The way along some segments; no segments at all are `.`. -/
def downward (names : List Bytes) : Bytes :=
  if names = [] then here else Bytes.join [slash] names

theorem targetSegments_render {names : List Bytes} (h : ∀ s ∈ names, Ordinary s) :
    targetSegments (render true names) = names := by
  have hb : baseSegments (render true names) = names := by
    rw [baseSegments, isAbsolute_render, reduce_segments_render h]
  rw [targetSegments, hb, isAbsolute_render]
  cases names <;> rfl

/-- Between absolute normal forms there is always a relative spelling. -/
theorem relative?_render {xs ys : List Bytes} (hx : ∀ s ∈ xs, Ordinary s)
    (hy : ∀ s ∈ ys, Ordinary s) :
    relative? (render true xs) (render true ys) = some (downward (route xs ys)) := by
  by_cases heq : xs = ys
  · simp [relative?, heq, route_self, downward]
  · have hne : render true xs ≠ render true ys := fun h => heq (render_injective hx hy h)
    have hroute : route xs ys ≠ [] := fun h => heq (eq_of_route_eq_nil h)
    simp only [relative?, clean_render hx, clean_render hy, if_neg hne, isAbsolute_render,
      bne_self_eq_false, Bool.false_eq_true, if_false, baseSegments, reduce_segments_render hx,
      targetSegments_render hy, downward, if_neg hroute]
    obtain ⟨common, rest, down, hdrop, rfl, rfl⟩ := exists_common xs ys
    rw [List.forall_mem_append] at hx hy
    simp only [route, hdrop]
    cases rest with
    | nil => rfl
    | cons s rest =>
      have hkeep : down.filter (· ≠ here) = down := by
        apply List.filter_eq_self.mpr
        intro x hx
        exact decide_eq_true (hy.2 x hx).notHere
      have hup : ¬ (s = up ∧ down ≠ []) := fun h => (hx.2 s List.mem_cons_self).notUp h.1
      simp only [if_neg hup, hkeep]

theorem relativeOrSame_render {root names : List Bytes} (hr : ∀ s ∈ root, Ordinary s)
    (hn : ∀ s ∈ names, Ordinary s) :
    relativeOrSame (render true root) (render true (root ++ names)) = downward names := by
  rw [relativeOrSame, relative?_render hr (List.forall_mem_append.mpr ⟨hr, hn⟩), route_append,
    Option.getD_some]

end Path

namespace Host

open DartReach.Path

theorem normalize_of_canonical (host : Host) {p : Bytes} (h : Canonical p) :
    host.normalize p = p := by
  rw [normalize, if_pos h.isAbsolute, h.clean_eq]

theorem canonical_normalize (host : Host) {p : Bytes}
    (h : host.workingDir ≠ none ∨ isAbsolute p = true) : Canonical (host.normalize p) := by
  rw [normalize]
  split
  · rename_i ha
    exact canonical_clean ha
  · rename_i ha
    cases hw : host.workingDir with
    | none => simp [hw, ha] at h
    | some loc => exact canonical_join (isAbsolute_render loc) p

theorem normalize_normalize (host : Host) (p : Bytes) :
    host.normalize (host.normalize p) = host.normalize p := by
  by_cases h : host.workingDir ≠ none ∨ isAbsolute p = true
  · exact host.normalize_of_canonical (host.canonical_normalize h)
  · rw [not_or, not_not, Bool.not_eq_true] at h
    have hclean : ∀ q, isAbsolute q = false → host.normalize q = clean q := by
      intro q hq
      simp [normalize, h.1, hq]
    rw [hclean p h.2, hclean _ ((isAbsolute_clean p).trans h.2), clean_clean]

theorem normalize_congr {host host' : Host} (h : host'.workingDir = host.workingDir) :
    host'.normalize = host.normalize := by
  funext p
  simp only [normalize, h]

end Host

end DartReach
