import Mathlib.Data.List.Basic
import DartReach.Text.Bytes

/-!
# Runs

A run of elements of one kind ends at the first element of another kind, so a text can be cut there in one way
only. Scanners and line formats rest on this.
-/

namespace DartReach

set_option autoImplicit false

section Runs

variable {α : Type} {p : α → Prop} {run run' more more' : List α} {stop stop' : α}

theorem run_unique (hrun : ∀ x ∈ run, p x) (hrun' : ∀ x ∈ run', p x) (hstop : ¬ p stop)
    (hstop' : ¬ p stop') (h : run ++ stop :: more = run' ++ stop' :: more') :
    run = run' ∧ stop = stop' ∧ more = more' := by
  induction run generalizing run' with
  | nil =>
    cases run' with
    | nil => simpa using h
    | cons y ys =>
      rw [List.nil_append, List.cons_append, List.cons.injEq] at h
      exact absurd (h.1 ▸ hrun' y List.mem_cons_self) hstop
  | cons x xs ih =>
    cases run' with
    | nil =>
      rw [List.nil_append, List.cons_append, List.cons.injEq] at h
      exact absurd (h.1 ▸ hrun x List.mem_cons_self) hstop'
    | cons y ys =>
      rw [List.cons_append, List.cons_append, List.cons.injEq] at h
      obtain ⟨hrest, hsame⟩ := ih (fun z hz => hrun z (List.mem_cons_of_mem x hz))
        (fun z hz => hrun' z (List.mem_cons_of_mem y hz)) h.2
      exact ⟨by rw [h.1, hrest], hsame⟩

theorem run_unique_at_end (hrun : ∀ x ∈ run, p x) (hrun' : ∀ x ∈ run', p x) (hstop : ¬ p stop)
    (hstop' : ¬ p stop') (h : more ++ stop :: run = more' ++ stop' :: run') :
    more = more' ∧ stop = stop' ∧ run = run' := by
  have hrev : run.reverse ++ stop :: more.reverse = run'.reverse ++ stop' :: more'.reverse := by
    simpa using congrArg List.reverse h
  obtain ⟨hruns, hstops, hmore⟩ := run_unique (fun x hx => hrun x (List.mem_reverse.mp hx))
    (fun x hx => hrun' x (List.mem_reverse.mp hx)) hstop hstop' hrev
  exact ⟨List.reverse_injective hmore, hstops, List.reverse_injective hruns⟩

theorem takeWhile_run {q : α → Bool} (hrun : ∀ x ∈ run, q x = true) (hstop : q stop = false) :
    (run ++ stop :: more).takeWhile q = run := by
  rw [List.takeWhile_append_of_pos hrun, List.takeWhile_cons_of_neg (by simp [hstop]),
    List.append_nil]

theorem dropWhile_run {q : α → Bool} (hrun : ∀ x ∈ run, q x = true) (hstop : q stop = false) :
    (run ++ stop :: more).dropWhile q = stop :: more := by
  rw [List.dropWhile_append_of_pos hrun, List.dropWhile_cons_of_neg (by simp [hstop])]

end Runs

theorem Bytes.after?_eq_some_iff {start s rest : Bytes} :
    Bytes.after? start s = some rest ↔ s = start ++ rest := by
  induction start generalizing s with
  | nil => simp [Bytes.after?]
  | cons b start ih =>
    cases s with
    | nil => simp [Bytes.after?]
    | cons c s =>
      rw [Bytes.after?, List.cons_append, List.cons.injEq]
      split
      · rename_i hb
        rw [ih]
        exact ⟨fun h => ⟨hb.symm, h⟩, fun h => h.2⟩
      · rename_i hb
        constructor
        · intro h
          cases h
        · rintro ⟨rfl, _⟩
          exact absurd rfl hb

theorem Bytes.after?_eq_none_iff {start s : Bytes} :
    Bytes.after? start s = none ↔ ¬ start <+: s := by
  constructor
  · rintro hnone ⟨rest, rfl⟩
    rw [Bytes.after?_eq_some_iff.mpr rfl] at hnone
    cases hnone
  · intro hno
    by_contra hsome
    obtain ⟨rest, hrest⟩ := Option.ne_none_iff_exists'.mp hsome
    exact hno ⟨rest, (Bytes.after?_eq_some_iff.mp hrest).symm⟩

theorem Bytes.startsWith_iff {start s : Bytes} : s.startsWith start = true ↔ start <+: s :=
  List.isPrefixOf_iff_prefix

end DartReach
