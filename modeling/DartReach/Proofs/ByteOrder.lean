import Mathlib.Data.List.Perm.Subperm
import DartReach.Text.Bytes

/-!
# Ascending lists of byte strings

Lists of paths are compared as lists, although most of them stand for sets. A strictly ascending list
is determined by its members, and sorting reaches such a list from every list without repetitions.
-/

namespace DartReach.Bytes

set_option autoImplicit false

/-- Strictly ascending byte order, so that no string occurs twice. -/
def Ascending (xs : List Bytes) : Prop := xs.Pairwise (· < ·)

theorem le_eq_true_iff {a b : Bytes} : le a b = true ↔ a ≤ b := decide_eq_true_iff

@[simp] theorem mem_sort {x : Bytes} {xs : List Bytes} : x ∈ sort xs ↔ x ∈ xs :=
  List.mem_mergeSort

theorem sort_perm (xs : List Bytes) : (sort xs).Perm xs := List.mergeSort_perm xs le

theorem sort_pairwise_le (xs : List Bytes) : (sort xs).Pairwise (· ≤ ·) := by
  have h := @List.pairwise_mergeSort Bytes le
    (fun a b c hab hbc => by
      rw [le_eq_true_iff] at *
      exact Std.le_trans hab hbc)
    (fun a b => by
      rw [Bool.or_eq_true, le_eq_true_iff, le_eq_true_iff]
      exact Std.le_total) xs
  exact h.imp (fun hab => le_eq_true_iff.mp hab)

namespace Ascending

variable {xs ys : List Bytes}

theorem nodup (h : Ascending xs) : xs.Nodup := by
  apply List.Pairwise.imp _ h
  intro a b hlt heq
  subst heq
  exact Std.lt_irrefl hlt

theorem pairwise_le (h : Ascending xs) : xs.Pairwise (· ≤ ·) := h.imp Std.le_of_lt

theorem filter (p : Bytes → Bool) (h : Ascending xs) : Ascending (xs.filter p) :=
  List.Pairwise.filter p h

theorem ext (hx : Ascending xs) (hy : Ascending ys) (h : ∀ x, x ∈ xs ↔ x ∈ ys) : xs = ys := by
  have hp : xs.Perm ys := (List.perm_ext_iff_of_nodup hx.nodup hy.nodup).mpr h
  exact hp.eq_of_pairwise (fun a b _ _ hab hba => Std.le_antisymm hab hba) hx.pairwise_le
    hy.pairwise_le

theorem eq_filter (hx : Ascending xs) (hy : Ascending ys) (h : ∀ x ∈ xs, x ∈ ys) :
    xs = ys.filter (· ∈ xs) := by
  apply hx.ext (hy.filter _)
  intro x
  rw [List.mem_filter, decide_eq_true_eq]
  exact ⟨fun hmem => ⟨h x hmem, hmem⟩, And.right⟩

end Ascending

theorem ascending_sort {xs : List Bytes} (h : xs.Nodup) : Ascending (sort xs) := by
  have hn : (sort xs).Nodup := (sort_perm xs).nodup_iff.mpr h
  exact ((sort_pairwise_le xs).and hn).imp (fun hab => Std.lt_of_le_of_ne hab.1 hab.2)

theorem mem_squeeze {x : Bytes} {xs : List Bytes} : x ∈ squeeze xs ↔ x ∈ xs := by
  induction xs with
  | nil => simp [squeeze]
  | cons a xs ih =>
    cases xs with
    | nil => simp [squeeze]
    | cons b xs =>
      simp only [squeeze]
      split
      · rename_i heq
        rw [ih, heq]
        simp
      · rw [List.mem_cons, ih, List.mem_cons (a := x) (b := a)]

theorem ascending_squeeze {xs : List Bytes} (h : xs.Pairwise (· ≤ ·)) : Ascending (squeeze xs) := by
  induction xs with
  | nil => exact .nil
  | cons a xs ih =>
    obtain ⟨ha, ht⟩ := List.pairwise_cons.mp h
    cases xs with
    | nil => exact List.pairwise_singleton _ a
    | cons b xs =>
      simp only [squeeze]
      split
      · exact ih ht
      · rename_i hne
        refine List.pairwise_cons.mpr ⟨fun c hc => ?_, ih ht⟩
        have hab : a < b := Std.lt_of_le_of_ne (ha b List.mem_cons_self) hne
        rcases List.mem_cons.mp (mem_squeeze.mp hc) with rfl | hc
        · exact hab
        · exact Std.lt_of_lt_of_le hab ((List.pairwise_cons.mp ht).1 c hc)

@[simp] theorem mem_sortUnique {x : Bytes} {xs : List Bytes} : x ∈ sortUnique xs ↔ x ∈ xs := by
  rw [sortUnique, mem_squeeze, mem_sort]

theorem ascending_sortUnique (xs : List Bytes) : Ascending (sortUnique xs) :=
  ascending_squeeze (sort_pairwise_le xs)

theorem Ascending.sortUnique_eq {xs : List Bytes} (h : Ascending xs) : sortUnique xs = xs :=
  (ascending_sortUnique xs).ext h (fun _ => mem_sortUnique)

theorem Ascending.sort_eq {xs : List Bytes} (h : Ascending xs) : sort xs = xs :=
  (ascending_sort h.nodup).ext h fun _ => mem_sort

/-- A common beginning does not matter for the order. -/
theorem append_lt_append_iff (p a b : Bytes) : p ++ a < p ++ b ↔ a < b := by
  constructor
  · intro h
    rcases Std.le_total (a := a) (b := b) with hab | hba
    · refine Std.lt_of_le_of_ne hab (fun heq => ?_)
      rw [heq] at h
      exact Std.lt_irrefl h
    · exact absurd h (Std.not_lt.mpr (List.append_left_le hba))
  · exact List.append_left_lt

theorem ascending_map_append_iff (p : Bytes) (xs : List Bytes) :
    Ascending (xs.map (p ++ ·)) ↔ Ascending xs := by
  simp only [Ascending, List.pairwise_map, append_lt_append_iff]

end DartReach.Bytes
