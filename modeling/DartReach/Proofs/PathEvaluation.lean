import Mathlib.Data.List.Induction
import DartReach.Proofs.PathNormalForm

/-!
# Where a path leads

The segments of a path are followed one after the other, from the top directory down. Cleaning an absolute
path, joining and taking the parent are described by that walk alone. The relative spelling of one path as
seen from another climbs to the last common directory and goes down from there, so that walking along it
from the one path arrives at the other. Two paths have the same normal form exactly if they lead to the same
place, which is why the program may compare files by their paths.
-/

namespace DartReach

set_option autoImplicit false

open Bytes (slash)

namespace Path

/-- The directory that is reached from `dir`; above the top directory there is none. -/
def walk (dir : List Bytes) : (segs : List Bytes) → List Bytes
  | [] => dir
  | s :: segs =>
    if s = [] ∨ s = here then walk dir segs
    else if s = up then walk dir.dropLast segs
    else walk (dir ++ [s]) segs

/-- Where a path leads from the top directory. -/
def evaluate (p : Bytes) : List Bytes := walk [] (segments p)

@[simp] theorem walk_nil (dir : List Bytes) : walk dir [] = dir := rfl

theorem walk_cons (dir : List Bytes) (s : Bytes) (segs : List Bytes) :
    walk dir (s :: segs) = walk (walk dir [s]) segs := by
  simp only [walk]
  split
  · rfl
  · split <;> rfl

theorem walk_append (dir xs ys : List Bytes) : walk dir (xs ++ ys) = walk (walk dir xs) ys := by
  induction xs generalizing dir with
  | nil => rfl
  | cons x xs ih => rw [List.cons_append, walk_cons, ih, walk_cons dir x xs]

theorem walk_redundant (dir : List Bytes) {s : Bytes} (h : s = [] ∨ s = here) : walk dir [s] = dir := by
  simp [walk, h]

theorem walk_up (dir : List Bytes) : walk dir [up] = dir.dropLast := by
  simp [walk, up, here]

theorem walk_ordinary (dir : List Bytes) {names : List Bytes} (h : ∀ s ∈ names, Ordinary s) :
    walk dir names = dir ++ names := by
  induction names generalizing dir with
  | nil => simp
  | cons s names ih =>
    rw [List.forall_mem_cons] at h
    have hs : walk dir [s] = dir ++ [s] := by
      simp [walk, h.1.nonempty, h.1.notHere, h.1.notUp]
    rw [walk_cons, hs, ih (dir ++ [s]) h.2]
    simp

/-- Climbing as many times as there are names below a directory leads back to it. -/
theorem walk_climb (dir names : List Bytes) : walk (dir ++ names) (names.map fun _ => up) = dir := by
  induction names using List.reverseRecOn generalizing dir with
  | nil => simp
  | append_singleton names s ih =>
    have hcons : (names ++ [s]).map (fun _ => up) = up :: names.map fun _ => up := by
      rw [List.map_const', List.map_const', List.length_append, ← List.replicate_succ]
      rfl
    rw [hcons, walk_cons, walk_up, ← List.append_assoc, List.dropLast_concat, ih]

/-! ### Absolute paths -/

theorem step_reverse {dir : List Bytes} (h : up ∉ dir) (s : Bytes) :
    step true dir.reverse s = (walk dir [s]).reverse ∧ up ∉ walk dir [s] := by
  simp only [step, walk]
  split
  · exact ⟨rfl, h⟩
  split
  · constructor
    · cases dir using List.reverseRecOn with
      | nil => rfl
      | append_singleton dir last _ =>
        have hlast : last ≠ up := by
          rintro rfl
          simp at h
        simp [hlast]
    · exact fun hup => h (List.dropLast_subset dir hup)
  · rename_i hup
    simp [h, Ne.symm hup]

theorem foldl_step_reverse {dir : List Bytes} (h : up ∉ dir) (segs : List Bytes) :
    segs.foldl (step true) dir.reverse = (walk dir segs).reverse := by
  induction segs generalizing dir with
  | nil => rfl
  | cons s segs ih =>
    obtain ⟨hstep, hup⟩ := step_reverse h s
    rw [List.foldl_cons, hstep, ih hup, walk_cons dir s segs]

theorem reduce_append_eq_walk {dir : List Bytes} (h : ∀ s ∈ dir, Ordinary s) (segs : List Bytes) :
    reduce true (dir ++ segs) = walk dir segs := by
  have hup : up ∉ dir := fun hmem => (h up hmem).notUp rfl
  rw [reduce_append, reduce_ordinary true h, foldl_step_reverse hup, List.reverse_reverse]

theorem evaluate_eq_reduce (p : Bytes) : evaluate p = reduce true (segments p) := by
  have h := reduce_append_eq_walk (by simp : ∀ s ∈ ([] : List Bytes), Ordinary s) (segments p)
  exact h.symm

theorem ordinary_evaluate (p : Bytes) : ∀ s ∈ evaluate p, Ordinary s := by
  rw [evaluate_eq_reduce]
  exact reduce_rooted_ordinary fun _ hs => slash_not_mem_segments hs

theorem evaluate_render {names : List Bytes} (h : ∀ s ∈ names, Ordinary s) :
    evaluate (render true names) = names := by
  rw [evaluate_eq_reduce, reduce_segments_render h]

theorem evaluate_append_slash (p q : Bytes) :
    evaluate (p ++ slash :: q) = walk (evaluate p) (segments q) := by
  rw [evaluate, segments_append_slash, walk_append, evaluate]

theorem clean_eq_render {p : Bytes} (h : isAbsolute p = true) : clean p = render true (evaluate p) := by
  rw [clean_of_absolute h, evaluate_eq_reduce]

theorem join_eq_render {p : Bytes} (h : isAbsolute p = true) (q : Bytes) :
    join p q = render true (evaluate (p ++ slash :: q)) := by
  have hne : p ≠ [] := by
    rintro rfl
    simp [isAbsolute] at h
  rw [join_of_ne_nil hne, clean_eq_render (isAbsolute_append h _)]

theorem join_render_eq {names : List Bytes} (h : ∀ s ∈ names, Ordinary s) (q : Bytes) :
    join (render true names) q = render true (walk names (segments q)) := by
  rw [join_eq_render (isAbsolute_render names), evaluate_append_slash, evaluate_render h]

theorem parent_render_eq {names : List Bytes} (h : ∀ s ∈ names, Ordinary s) :
    parent (render true names) = render true names.dropLast := by
  cases names using List.reverseRecOn with
  | nil => decide
  | append_singleton names s _ =>
    rw [List.forall_mem_append, List.forall_mem_singleton] at h
    rw [parent_render h.1 h.2, List.dropLast_concat]

theorem Canonical.parent {p : Bytes} (h : Canonical p) : Canonical (parent p) := by
  obtain ⟨names, hn, rfl⟩ := h
  rw [parent_render_eq hn]
  exact canonical_render fun s hs => hn s (List.dropLast_subset names hs)

/-- How the text of an absolute path in normal form looks. -/
structure Tidy (p : Bytes) : Prop where
  rooted : [slash] <+: p
  plain : p = [slash] ∨ ∀ s ∈ (segments p).tail, s ≠ [] ∧ s ≠ here ∧ s ≠ up
  unended : p = [slash] ∨ ¬ [slash] <:+ p

theorem Canonical.tidy {p : Bytes} (h : Canonical p) : Tidy p := by
  obtain ⟨names, hn, rfl⟩ := h
  have hplain : render true names = [slash] ∨
      ∀ s ∈ (segments (render true names)).tail, s ≠ [] ∧ s ≠ here ∧ s ≠ up := by
    by_cases he : names = []
    · exact Or.inl (by simp [he, render])
    · right
      have hsegs : (segments (render true names)).tail = segments (Bytes.join [slash] names) := by
        simp [render, segments, Bytes.split]
      have hsplit : segments (Bytes.join [slash] names) = names :=
        Bytes.split_join he fun s hs => (hn s hs).slashFree
      rw [hsegs, hsplit]
      intro s hs
      exact ⟨(hn s hs).nonempty, (hn s hs).notHere, (hn s hs).notUp⟩
  refine ⟨by simp [render], hplain, hplain.imp id fun hsegs hend => ?_⟩
  -- Behind a slash at the end there would be one more segment, and that empty.
  obtain ⟨before, hbefore⟩ := hend
  have hsplit : segments (render true names) = segments before ++ [[]] := by
    rw [← hbefore, segments_append_slash]
    rfl
  obtain ⟨first, rest, hfirst⟩ := List.exists_cons_of_ne_nil (Bytes.split_ne_nil slash before)
  have hempty : [] ∈ (segments (render true names)).tail := by
    rw [hsplit, segments, hfirst]
    simp
  exact (hsegs [] hempty).1 rfl

theorem Tidy.canonical {p : Bytes} (h : Tidy p) : Canonical p := by
  obtain ⟨rest, rfl⟩ := h.rooted
  rw [List.singleton_append] at h ⊢
  rcases h.plain with htop | hplain
  · rw [htop]
    exact ⟨[], by simp, rfl⟩
  · have hsegs : segments (slash :: rest) = [] :: segments rest := by
      simp [segments, Bytes.split]
    rw [hsegs, List.tail_cons] at hplain
    refine ⟨segments rest, fun s hs => ?_, ?_⟩
    · obtain ⟨hne, hhere, hup⟩ := hplain s hs
      exact ⟨hne, hhere, hup, slash_not_mem_segments hs⟩
    · rw [render, if_pos rfl, segments, Bytes.join_split]

/-! ### Relative spellings -/

theorem walk_route (xs : List Bytes) {ys : List Bytes} (h : ∀ s ∈ ys, Ordinary s) :
    walk xs (route xs ys) = ys := by
  obtain ⟨common, rest, down, hdrop, rfl, rfl⟩ := exists_common xs ys
  rw [List.forall_mem_append] at h
  simp only [route, hdrop]
  rw [walk_append, walk_climb, walk_ordinary common h.2]

theorem segment_of_mem_route (xs : List Bytes) {ys : List Bytes} (h : ∀ s ∈ ys, Ordinary s) :
    ∀ s ∈ route xs ys, s ≠ [] ∧ slash ∉ s := by
  obtain ⟨common, rest, down, hdrop, rfl, rfl⟩ := exists_common xs ys
  rw [List.forall_mem_append] at h
  intro s hs
  simp only [route, hdrop] at hs
  rcases List.mem_append.mp hs with hs | hs
  · obtain ⟨_, _, rfl⟩ := List.mem_map.mp hs
    decide
  · exact ⟨(h.2 s hs).nonempty, (h.2 s hs).slashFree⟩

theorem walk_downward (dir : List Bytes) {segs : List Bytes} (h : ∀ s ∈ segs, slash ∉ s) :
    walk dir (segments (downward segs)) = walk dir segs := by
  by_cases he : segs = []
  · rw [he]
    exact walk_redundant dir (Or.inr rfl)
  · rw [downward, if_neg he, segments, Bytes.split_join he h]

theorem isAbsolute_downward {segs : List Bytes} (h : ∀ s ∈ segs, s ≠ [] ∧ slash ∉ s) :
    isAbsolute (downward segs) = false := by
  cases segs with
  | nil => decide
  | cons s segs =>
    obtain ⟨hne, hslash⟩ := h s List.mem_cons_self
    obtain ⟨b, s, rfl⟩ := List.exists_cons_of_ne_nil hne
    have hb : b ≠ slash := by
      rintro rfl
      exact hslash List.mem_cons_self
    cases segs <;> simp [downward, Bytes.join_cons_cons, isAbsolute, hb]

/-- Joining undoes the step to the relative spelling. -/
theorem join_relative? {p q : Bytes} (hp : Canonical p) (hq : Canonical q) :
    ∃ rel, relative? p q = some rel ∧ isAbsolute rel = false ∧ join p rel = q := by
  obtain ⟨xs, hx, rfl⟩ := hp
  obtain ⟨ys, hy, rfl⟩ := hq
  have hsegs := segment_of_mem_route xs hy
  refine ⟨_, relative?_render hx hy, isAbsolute_downward hsegs, ?_⟩
  rw [join_render_eq hx, walk_downward xs fun s hs => (hsegs s hs).2, walk_route xs hy]

theorem join_relativeOrSame {p q : Bytes} (hp : Canonical p) (hq : Canonical q) :
    join p (relativeOrSame p q) = q := by
  obtain ⟨rel, hrel, -, hjoin⟩ := join_relative? hp hq
  rw [relativeOrSame, hrel, Option.getD_some, hjoin]

end Path

namespace Host

open DartReach.Path

/-- A path as it is read from the current directory, if there is one. -/
def absolute (host : Host) (p : Bytes) : Bytes :=
  if isAbsolute p then p
  else
    match host.workingDir with
    | some loc => pathOf loc ++ slash :: p
    | none => p

theorem normalize_eq_render {host : Host} (h : host.workingDir ≠ none) (p : Bytes) :
    host.normalize p = render true (evaluate (host.absolute p)) := by
  obtain ⟨loc, hloc⟩ := Option.ne_none_iff_exists'.mp h
  simp only [normalize, absolute, hloc]
  split
  · rename_i ha
    exact clean_eq_render ha
  · exact join_eq_render (isAbsolute_render loc) p

/-! ### Normal forms as identities -/

/--
The segments that a path ends in. They are read one after the other, from the top for an absolute path and
from where the path of the current directory leads for any other.
-/
def destination (cwd : Location) (p : Bytes) : List Bytes :=
  walk (if isAbsolute p then [] else evaluate (pathOf cwd)) (segments p)

section Identity

variable {host : Host} {cwd : Location}

theorem destination_eq_evaluate (hcwd : host.workingDir = some cwd) (p : Bytes) :
    destination cwd p = evaluate (host.absolute p) := by
  simp only [destination, absolute, hcwd]
  split
  · rfl
  · rw [evaluate_append_slash]

theorem normalize_eq_iff (hcwd : host.workingDir = some cwd) (p q : Bytes) :
    host.normalize p = host.normalize q ↔ destination cwd p = destination cwd q := by
  have hsome : host.workingDir ≠ none := by
    simp [hcwd]
  rw [normalize_eq_render hsome, normalize_eq_render hsome, destination_eq_evaluate hcwd,
    destination_eq_evaluate hcwd]
  constructor
  · exact render_injective (ordinary_evaluate _) (ordinary_evaluate _)
  · intro h
    rw [h]

theorem normalize_eq_self_iff (hcwd : host.workingDir = some cwd) (p : Bytes) :
    host.normalize p = p ↔ Tidy p := by
  constructor
  · intro h
    have hcanonical : Canonical (host.normalize p) := host.canonical_normalize (Or.inl (by simp [hcwd]))
    rw [h] at hcanonical
    exact hcanonical.tidy
  · intro h
    exact host.normalize_of_canonical h.canonical

/--
With a current directory, normal forms are exactly the tidy paths, a second normalization changes nothing, and
two paths have the same normal form if and only if their segments end in the same place.
-/
theorem normalize_identifies (hcwd : host.workingDir = some cwd) (p q : Bytes) :
    Tidy (host.normalize p) ∧
    host.normalize (host.normalize p) = host.normalize p ∧
    (host.normalize p = host.normalize q ↔ destination cwd p = destination cwd q) ∧
    (host.normalize p = p ↔ Tidy p) := by
  have htwice := host.normalize_normalize p
  exact ⟨(normalize_eq_self_iff hcwd _).mp htwice, htwice, normalize_eq_iff hcwd p q,
    normalize_eq_self_iff hcwd p⟩

def atWork : Host where
  files := FileSystem.empty
  workingDir := some [text "work"]
  env := []

theorem normalize_identifies_dotted :
    atWork.normalize (text "..//a/./..b/c/../") = atWork.normalize (text "/../a/..b") ∧
    atWork.normalize (text "./...") ≠ atWork.normalize (text "/work/..") := by
  have hcwd : atWork.workingDir = some [text "work"] := rfl
  have hsame : destination [text "work"] (text "..//a/./..b/c/../") =
      destination [text "work"] (text "/../a/..b") := by
    decide +kernel
  have hother : destination [text "work"] (text "./...") ≠ destination [text "work"] (text "/work/..") := by
    decide +kernel
  constructor
  · exact (normalize_identifies hcwd _ _).2.2.1.mpr hsame
  · intro h
    exact hother ((normalize_identifies hcwd _ _).2.2.1.mp h)

end Identity

end Host

end DartReach
