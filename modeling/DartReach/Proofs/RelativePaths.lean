import Mathlib.Data.List.TakeWhile
import DartReach.Proofs.PathEvaluation

/-!
# Relative paths in normal form

A relative path in normal form climbs some directories and goes down along names from there. As with
absolute paths the parent drops the last segment, but that segment may be `..`, and there may be none.
Only below a name is the parent one directory above the place the path leads to.
-/

namespace DartReach

set_option autoImplicit false

open Bytes (slash)

namespace Path

/-! ### Segments that are kept -/

namespace Settled

variable {done : List Bytes} {s : Bytes}

theorem head (h : Settled (s :: done)) : s = up ∨ Ordinary s := by
  obtain ⟨names, n, heq, hn⟩ := h
  rcases List.mem_append.mp (heq ▸ List.mem_cons_self) with hs | hs
  · exact Or.inr (hn s hs)
  · exact Or.inl (List.eq_of_mem_replicate hs)

theorem tail (h : Settled done) : Settled done.tail := by
  obtain ⟨names, n, rfl, hn⟩ := h
  cases names with
  | nil => exact ⟨[], n - 1, by simp, by simp⟩
  | cons name names =>
    rw [List.forall_mem_cons] at hn
    exact ⟨names, n, rfl, hn.2⟩

theorem cons (h : Settled done) (hs : Ordinary s) : Settled (s :: done) := by
  obtain ⟨names, n, rfl, hn⟩ := h
  exact ⟨s :: names, n, rfl, List.forall_mem_cons.mpr ⟨hs, hn⟩⟩

theorem nonempty (h : Settled done) : ∀ s ∈ done, s ≠ [] := by
  obtain ⟨names, n, rfl, hn⟩ := h
  intro s hs
  rcases List.mem_append.mp hs with hs | hs
  · exact (hn s hs).nonempty
  · rw [List.eq_of_mem_replicate hs]
    decide

/-- A path that ends in a name climbs some directories and goes down from there. -/
theorem exists_descent (h : Settled done) (hs : Ordinary s) :
    ∃ n names, (s :: done).reverse = List.replicate n up ++ (names ++ [s]) ∧
      ∀ x ∈ names ++ [s], Ordinary x := by
  obtain ⟨names, n, rfl, hn⟩ := h
  refine ⟨n, names.reverse, by simp, ?_⟩
  intro x hx
  rcases List.mem_append.mp hx with hx | hx
  · exact hn x (List.mem_reverse.mp hx)
  · rwa [List.mem_singleton.mp hx]

end Settled

theorem walk_step {done : List Bytes} (h : Settled done) (dir : List Bytes) (s : Bytes) :
    walk dir (step false done s).reverse = walk (walk dir done.reverse) [s] := by
  simp only [step]
  split
  · rename_i hred
    rw [walk_redundant _ hred]
  split
  · rename_i hup
    rw [hup]
    cases done with
    | nil => rfl
    | cons last before =>
      simp only
      split
      · rw [List.reverse_cons, walk_append]
      · rename_i hlast
        have hname : Ordinary last := h.head.resolve_left hlast
        rw [List.reverse_cons, walk_append, walk_ordinary _ (List.forall_mem_singleton.mpr hname), walk_up,
          List.dropLast_concat]
  · rw [List.reverse_cons, walk_append]

theorem walk_foldl_step {segs done : List Bytes} (hs : ∀ s ∈ segs, slash ∉ s) (h : Settled done)
    (dir : List Bytes) :
    walk dir (segs.foldl (step false) done).reverse = walk (walk dir done.reverse) segs := by
  induction segs generalizing done with
  | nil => rfl
  | cons s segs ih =>
    rw [List.forall_mem_cons] at hs
    rw [List.foldl_cons, ih hs.2 (step_settled h hs.1), walk_step h, ← walk_cons]

/-- From any directory the kept segments lead where all segments lead. -/
theorem walk_kept (dir : List Bytes) (p : Bytes) : walk dir (kept p).reverse = walk dir (segments p) :=
  walk_foldl_step (fun _ hs => slash_not_mem_segments hs) ⟨[], 0, rfl, by simp⟩ dir

theorem eq_nil_of_eq_dropLast {α : Type} {xs ys : List α} (hys : ys <+: xs) (h : xs = ys.dropLast) :
    xs = [] := by
  have hlength := congrArg List.length h
  have hle := hys.length_le
  rw [List.length_dropLast] at hlength
  apply List.length_eq_zero_iff.mp
  omega

/--
Without the last segment a path leads one directory higher if that segment is a name, and else only at the
top.
-/
theorem walk_tail_iff {done : List Bytes} (h : Settled done) (dir : List Bytes) :
    walk dir done.tail.reverse = (walk dir done.reverse).dropLast ↔
      (done.headD here ≠ here ∧ done.headD here ≠ up) ∨ walk dir done.tail.reverse = [] := by
  cases done with
  | nil =>
    constructor
    · intro h
      exact Or.inr (eq_nil_of_eq_dropLast (List.prefix_refl dir) h)
    · rintro (⟨hhere, _⟩ | htop)
      · exact absurd rfl hhere
      · obtain rfl : dir = [] := htop
        rfl
  | cons s done =>
    rw [List.tail_cons, List.headD_cons, List.reverse_cons, walk_append]
    rcases h.head with rfl | hs
    · rw [walk_up]
      constructor
      · intro h
        exact Or.inr (eq_nil_of_eq_dropLast (List.dropLast_prefix _) h)
      · rintro (⟨_, hup⟩ | htop)
        · exact absurd rfl hup
        · rw [htop]
          rfl
    · rw [walk_ordinary _ (List.forall_mem_singleton.mpr hs), List.dropLast_concat]
      exact iff_of_true rfl (Or.inl ⟨hs.notHere, hs.notUp⟩)

theorem ordinary_walk {dir done : List Bytes} (hd : ∀ s ∈ dir, Ordinary s) (h : Settled done) :
    ∀ s ∈ walk dir done.reverse, Ordinary s := by
  rw [← reduce_append_eq_walk hd]
  apply reduce_rooted_ordinary
  intro s hs
  rcases List.mem_append.mp hs with hs | hs
  · exact (hd s hs).slashFree
  · exact h.slashFree s (List.mem_reverse.mp hs)

/-! ### Texts -/

theorem isAbsolute_render_relative {done : List Bytes} (h : Settled done) :
    isAbsolute (render false done.reverse) = false := by
  have hdown : render false done.reverse = downward done.reverse := by simp [render, downward]
  rw [hdown]
  apply isAbsolute_downward
  intro s hs
  rw [List.mem_reverse] at hs
  exact ⟨h.nonempty s hs, h.slashFree s hs⟩

theorem render_relative_ne_nil {done : List Bytes} (h : Settled done) : render false done.reverse ≠ [] := by
  intro hnil
  have hread := reduce_segments_render_relative h
  rw [hnil] at hread
  have hdone : done.reverse = [] := hread.symm
  rw [hdone] at hnil
  cases hnil

theorem join_render_relative {done : List Bytes} (h : Settled done) (q : Bytes) :
    join (render false done.reverse) q = render false ((segments q).foldl (step false) done).reverse := by
  have hne := render_relative_ne_nil h
  have habsolute : isAbsolute (render false done.reverse ++ slash :: q) = false := by
    obtain ⟨b, t, hbt⟩ := List.exists_cons_of_ne_nil hne
    have hrelative := isAbsolute_render_relative h
    rw [hbt] at hrelative ⊢
    exact hrelative
  rw [join_of_ne_nil hne, clean, habsolute, segments_append_slash, reduce_append,
    reduce_segments_render_relative h, List.reverse_reverse]

theorem join_render_name {done : List Bytes} (h : Settled done) {name : Bytes} (hname : Ordinary name) :
    join (render false done.reverse) name = render false (name :: done).reverse := by
  rw [join_render_relative h, segments, Bytes.split_of_not_mem hname.slashFree, List.foldl_cons,
    List.foldl_nil, step_ordinary false done hname]

theorem render_cons_cons (s t : Bytes) (done : List Bytes) :
    render false (s :: t :: done).reverse = render false (t :: done).reverse ++ slash :: s := by
  have hbefore : (t :: done).reverse ≠ [] := by simp
  have hjoin := Bytes.join_append [slash] hbefore (List.cons_ne_nil s [])
  rw [Bytes.join_singleton, List.append_assoc] at hjoin
  rw [List.reverse_cons]
  simpa [render] using hjoin

theorem render_singleton (s : Bytes) : render false [s].reverse = s := by
  simp [render]

theorem parentText_of_not_mem {s : Bytes} (h : slash ∉ s) : parentText s = [] := by
  have hall := ne_slash_of_mem_reverse h
  rw [parentText, Bytes.dropEndWhile, List.reverse_eq_nil_iff, List.dropWhile_eq_nil_iff]
  exact hall

theorem parent_render_relative {done : List Bytes} (h : Settled done) :
    parent (render false done.reverse) = render false done.tail.reverse := by
  cases done with
  | nil => decide
  | cons s done =>
    have hslash : slash ∉ s := h.slashFree s List.mem_cons_self
    cases done with
    | nil =>
      rw [parent, render_singleton, parentText_of_not_mem hslash]
      rfl
    | cons t done =>
      have htail : Settled (t :: done) := h.tail
      have hjoin := join_render_relative htail []
      rw [join_of_ne_nil (render_relative_ne_nil htail)] at hjoin
      rw [parent, render_cons_cons, parentText_append hslash, hjoin]
      rfl

theorem base_append {s : Bytes} (h : slash ∉ s) (p : Bytes) : base (p ++ slash :: s) = s := by
  rw [base, List.reverse_append, List.reverse_cons, List.append_assoc,
    List.takeWhile_append_of_pos (ne_slash_of_mem_reverse h)]
  simp

theorem base_of_not_mem {s : Bytes} (h : slash ∉ s) : base s = s := by
  rw [base, List.takeWhile_eq_self_iff.mpr (ne_slash_of_mem_reverse h), List.reverse_reverse]

theorem base_render_relative {done : List Bytes} (h : Settled done) :
    base (render false done.reverse) = done.headD here := by
  cases done with
  | nil => decide
  | cons s done =>
    have hslash : slash ∉ s := h.slashFree s List.mem_cons_self
    cases done with
    | nil => rw [render_singleton, base_of_not_mem hslash, List.headD_cons]
    | cons t done => rw [render_cons_cons, base_append hslash, List.headD_cons]

theorem base_render {names : List Bytes} (h : ∀ s ∈ names, Ordinary s) :
    base (render true names) = names.getLastD [] := by
  cases names using List.reverseRecOn with
  | nil => decide
  | append_singleton names s _ =>
    rw [List.forall_mem_append, List.forall_mem_singleton] at h
    obtain ⟨p, hp, -⟩ := render_append_singleton names s
    rw [hp, base_append h.2.slashFree]
    simp

end Path

namespace Host

open DartReach.Path

variable {host : Host} {loc : Location}

theorem normalize_of_relative (hwd : host.workingDir = some loc) (hloc : ∀ s ∈ loc, Ordinary s) {p : Bytes}
    (h : isAbsolute p = false) : host.normalize p = render true (walk loc (segments p)) := by
  rw [normalize, h, if_neg Bool.false_ne_true, hwd]
  exact join_render_eq hloc p

theorem normalize_render_relative (hwd : host.workingDir = some loc) (hloc : ∀ s ∈ loc, Ordinary s)
    {done : List Bytes} (h : Settled done) :
    host.normalize (render false done.reverse) = render true (walk loc done.reverse) := by
  have hkept : (kept (render false done.reverse)).reverse = done.reverse := reduce_segments_render_relative h
  rw [normalize_of_relative hwd hloc (isAbsolute_render_relative h), ← walk_kept, hkept]

end Host

end DartReach
