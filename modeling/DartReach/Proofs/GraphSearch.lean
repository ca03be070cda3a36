import Mathlib.Data.List.Chain
import Mathlib.Data.List.Induction
import Mathlib.Data.List.Nodup
import Mathlib.Logic.Relation
import DartReach.Proofs.ByteOrder
import DartReach.Reachability

/-!
# What the search finds

The breadth-first search in an import graph is compared with the reflexive and transitive closure of the
edges among the known files. The invariant says that marked files are reachable and that a marked file
either waits in the queue or has all its known targets marked; every round takes one file from the queue
for good, so that a round for every known file is enough to empty it.
-/

namespace DartReach

set_option autoImplicit false

namespace ImportGraph

/-- The edges of a graph between known files. -/
def Leads (known : List Bytes) (g : ImportGraph) (p q : Bytes) : Prop :=
  q ∈ known ∧ q ∈ g.targets p

theorem leads_congr {known known' : List Bytes} (h : ∀ f, f ∈ known ↔ f ∈ known')
    (g : ImportGraph) : Leads known g = Leads known' g := by
  funext p q
  rw [Leads, Leads, h]

end ImportGraph

namespace Search

open ImportGraph (Leads)

variable {known : List Bytes} {g : ImportGraph}

/-! ### Reaching files -/

theorem mem_marked_reach (s : Search) (file x : Bytes) :
    x ∈ (s.reach known file).marked ↔ x ∈ s.marked ∨ x = file ∧ x ∈ known := by
  simp only [reach]
  split
  · rename_i h
    simp only [Bool.and_eq_true, List.contains_eq_mem, decide_eq_true_eq] at h
    rw [List.mem_cons]
    constructor
    · rintro (rfl | hx)
      · exact Or.inr ⟨rfl, h.1⟩
      · exact Or.inl hx
    · rintro (hx | ⟨rfl, _⟩)
      · exact Or.inr hx
      · exact Or.inl rfl
  · rename_i h
    simp only [Bool.and_eq_true, List.contains_eq_mem, decide_eq_true_eq, Bool.not_eq_true',
      decide_eq_false_iff_not, not_and, not_not] at h
    constructor
    · exact Or.inl
    · rintro (hx | ⟨rfl, hk⟩)
      · exact hx
      · exact h hk

theorem mem_queue_reach (s : Search) (file x : Bytes) :
    x ∈ (s.reach known file).queue ↔ x ∈ s.queue ∨ x = file ∧ x ∈ known ∧ x ∉ s.marked := by
  simp only [reach]
  split
  · rename_i h
    simp only [Bool.and_eq_true, List.contains_eq_mem, decide_eq_true_eq, Bool.not_eq_true',
      decide_eq_false_iff_not] at h
    rw [List.mem_append, List.mem_singleton]
    constructor
    · rintro (hx | rfl)
      · exact Or.inl hx
      · exact Or.inr ⟨rfl, h⟩
    · rintro (hx | ⟨rfl, _⟩)
      · exact Or.inl hx
      · exact Or.inr rfl
  · rename_i h
    simp only [Bool.and_eq_true, List.contains_eq_mem, decide_eq_true_eq, Bool.not_eq_true',
      decide_eq_false_iff_not, not_and, not_not] at h
    constructor
    · exact Or.inl
    · rintro (hx | ⟨rfl, hk, hm⟩)
      · exact hx
      · exact absurd (h hk) hm

theorem mem_marked_foldl_reach (ts : List Bytes) (s : Search) (x : Bytes) :
    x ∈ (ts.foldl (reach known) s).marked ↔ x ∈ s.marked ∨ x ∈ ts ∧ x ∈ known := by
  induction ts generalizing s with
  | nil => simp
  | cons t ts ih =>
    rw [List.foldl_cons, ih, mem_marked_reach, List.mem_cons]
    tauto

theorem mem_queue_foldl_reach (ts : List Bytes) (s : Search) (x : Bytes) :
    x ∈ (ts.foldl (reach known) s).queue ↔
      x ∈ s.queue ∨ x ∈ ts ∧ x ∈ known ∧ x ∉ s.marked := by
  induction ts generalizing s with
  | nil => simp
  | cons t ts ih =>
    rw [List.foldl_cons, ih, mem_queue_reach, mem_marked_reach, List.mem_cons]
    tauto

theorem nodup_marked_foldl_reach (ts : List Bytes) {s : Search} (h : s.marked.Nodup) :
    (ts.foldl (reach known) s).marked.Nodup := by
  induction ts generalizing s with
  | nil => exact h
  | cons t ts ih =>
    refine ih ?_
    simp only [reach]
    split
    · rename_i ht
      simp only [Bool.and_eq_true, Bool.not_eq_true', List.contains_eq_mem,
        decide_eq_false_iff_not] at ht
      exact List.nodup_cons.mpr ⟨ht.2, h⟩
    · exact h

/-- A file is marked and queued at once, so marked and queued files grow by the same number. -/
theorem length_foldl_reach (ts : List Bytes) (s : Search) :
    (ts.foldl (reach known) s).marked.length + s.queue.length =
      s.marked.length + (ts.foldl (reach known) s).queue.length := by
  induction ts generalizing s with
  | nil => rfl
  | cons t ts ih =>
    have ht := ih (s.reach known t)
    have hs : (s.reach known t).marked.length + s.queue.length =
        s.marked.length + (s.reach known t).queue.length := by
      simp only [reach]
      split
      · simp only [List.length_cons, List.length_append, List.length_nil]
        omega
      · rfl
    rw [List.foldl_cons]
    omega

/-! ### Rounds -/

/-- What holds between two rounds of a search from `roots`. -/
structure Inv (known : List Bytes) (g : ImportGraph) (roots : List Bytes) (s : Search) : Prop where
  inside : ∀ f ∈ s.marked, f ∈ known
  distinct : s.marked.Nodup
  queued : ∀ f ∈ s.queue, f ∈ s.marked
  rooted : ∀ f ∈ roots, f ∈ s.marked
  sound : ∀ f ∈ s.marked, ∃ e ∈ roots, Relation.ReflTransGen (Leads known g) e f
  closed : ∀ f ∈ s.marked, f ∉ s.queue → ∀ q, Leads known g f q → q ∈ s.marked

theorem inv_step {roots : List Bytes} {s : Search} (h : Inv known g roots s) :
    Inv known g roots (s.step known g) := by
  cases hq : s.queue with
  | nil => simpa [step, hq] using h
  | cons file rest =>
    have hfile : file ∈ s.marked := h.queued file (hq ▸ List.mem_cons_self)
    simp only [step, hq]
    refine ⟨?_, nodup_marked_foldl_reach _ h.distinct, ?_, ?_, ?_, ?_⟩
    · intro f hf
      rcases (mem_marked_foldl_reach _ _ f).mp hf with hf | ⟨_, hf⟩
      · exact h.inside f hf
      · exact hf
    · intro f hf
      rw [mem_marked_foldl_reach]
      rcases (mem_queue_foldl_reach _ _ f).mp hf with hf | ⟨ht, hk, _⟩
      · exact Or.inl (h.queued f (hq ▸ List.mem_cons_of_mem file hf))
      · exact Or.inr ⟨ht, hk⟩
    · intro f hf
      exact (mem_marked_foldl_reach _ _ f).mpr (Or.inl (h.rooted f hf))
    · intro f hf
      rcases (mem_marked_foldl_reach _ _ f).mp hf with hf | ⟨ht, hk⟩
      · exact h.sound f hf
      · obtain ⟨e, he, hpath⟩ := h.sound file hfile
        exact ⟨e, he, hpath.tail ⟨hk, ht⟩⟩
    · intro f hf hwait q hlead
      rw [mem_queue_foldl_reach, not_or] at hwait
      rw [mem_marked_foldl_reach]
      have hm : f ∈ s.marked := by
        by_contra hm
        rcases (mem_marked_foldl_reach _ _ f).mp hf with hf | ⟨ht, hk⟩
        · exact hm hf
        · exact hwait.2 ⟨ht, hk, hm⟩
      by_cases he : f = file
      · subst he
        exact Or.inr ⟨hlead.2, hlead.1⟩
      · have hnot : f ∉ s.queue := by
          rw [hq, List.mem_cons, not_or]
          exact ⟨he, hwait.1⟩
        exact Or.inl (h.closed f hm hnot q hlead)

theorem inv_rounds {roots : List Bytes} (n : Nat) {s : Search} (h : Inv known g roots s) :
    Inv known g roots (rounds known g n s) := by
  induction n generalizing s with
  | zero => exact h
  | succ n ih => exact ih (inv_step h)

theorem rounds_of_queue_nil {s : Search} (h : s.queue = []) (n : Nat) :
    rounds known g n s = s := by
  induction n with
  | zero => rfl
  | succ n ih =>
    have hs : s.step known g = s := by simp [step, h]
    rw [rounds, hs, ih]

/-- Every round takes a file from the queue for good, unless the queue is empty. -/
theorem rounds_progress (n : Nat) (s : Search) :
    (rounds known g n s).queue = [] ∨
      (rounds known g n s).marked.length + s.queue.length =
        s.marked.length + (rounds known g n s).queue.length + n := by
  induction n generalizing s with
  | zero => exact Or.inr rfl
  | succ n ih =>
    cases hq : s.queue with
    | nil =>
      rw [rounds_of_queue_nil hq]
      exact Or.inl hq
    | cons file rest =>
      have hstep : (s.step known g).marked.length + rest.length =
          s.marked.length + (s.step known g).queue.length := by
        simp only [step, hq]
        exact length_foldl_reach (g.targets file) ⟨s.marked, rest⟩
      rcases ih (s.step known g) with hdone | hmore
      · exact Or.inl hdone
      · refine Or.inr ?_
        rw [rounds, List.length_cons]
        omega

theorem rounds_queue_nil {roots : List Bytes} {s : Search} (h : Inv known g roots s)
    (hstart : s.marked.length = s.queue.length) :
    (rounds known g known.length s).queue = [] := by
  rcases rounds_progress known.length s with hdone | hmore
  · exact hdone
  · have hi := inv_rounds known.length h
    have hle := (List.subperm_of_subset hi.distinct hi.inside).length_le
    exact List.length_eq_zero_iff.mp (by omega)

/-- With nothing left in the queue, exactly what the roots lead to is marked. -/
theorem Inv.mem_marked_iff {roots : List Bytes} {s : Search} (h : Inv known g roots s)
    (hempty : s.queue = []) {f : Bytes} :
    f ∈ s.marked ↔ ∃ e ∈ roots, Relation.ReflTransGen (Leads known g) e f := by
  constructor
  · exact h.sound f
  · rintro ⟨e, he, hpath⟩
    induction hpath with
    | refl => exact h.rooted e he
    | tail _ hstep ih => exact h.closed _ ih (by simp [hempty]) _ hstep

end Search

namespace Reachability

open ImportGraph (Leads)

/-! ### The whole search -/

/-- Steps that end inside a set, from a member of it, are a chain of members. -/
theorem reflTransGen_iff_chain (files : List Bytes) (R : Bytes → Bytes → Prop) {e f : Bytes} :
    e ∈ files ∧ Relation.ReflTransGen (fun p q => q ∈ files ∧ R p q) e f ↔
      ∃ chain : List Bytes, (∀ p ∈ chain, p ∈ files) ∧ chain.IsChain R ∧
        chain.head? = some e ∧ chain.getLast? = some f := by
  constructor
  · rintro ⟨he, h⟩
    obtain ⟨rest, hchain, hlast⟩ := List.exists_isChain_cons_of_relationReflTransGen h
    refine ⟨e :: rest, ?_, hchain.imp fun _ _ hs => hs.2, rfl, ?_⟩
    · rw [List.forall_mem_cons]
      exact ⟨he, hchain.cons_induction (· ∈ files) _ (fun _ _ hs _ => hs.1) he⟩
    · rw [List.getLast?_eq_some_getLast (List.cons_ne_nil _ _), hlast]
  · rintro ⟨chain, hmem, hchain, hhead, hlast⟩
    cases chain with
    | nil => simp at hhead
    | cons p rest =>
      rw [List.head?_cons, Option.some.injEq] at hhead
      subst hhead
      rw [List.getLast?_eq_some_getLast (List.cons_ne_nil _ _), Option.some.injEq] at hlast
      have hsteps : (p :: rest).IsChain (fun p q => q ∈ files ∧ R p q) :=
        hchain.imp_of_mem_imp fun _ q _ hq hs => ⟨hmem q hq, hs⟩
      exact ⟨hmem p List.mem_cons_self,
        List.relationReflTransGen_of_exists_isChain_cons rest hsteps hlast⟩

section EraseDups

variable {α β : Type} [BEq α] [LawfulBEq α] [BEq β] [LawfulBEq β]

theorem eraseDups_concat (xs : List α) (x : α) :
    (xs ++ [x]).eraseDups = if x ∈ xs then xs.eraseDups else xs.eraseDups ++ [x] := by
  rw [List.eraseDups_append, List.removeAll]
  by_cases h : x ∈ xs <;> simp [h, List.eraseDups_cons]

theorem eraseDups_map {f : α → β} {xs : List α}
    (hf : ∀ a ∈ xs, ∀ b ∈ xs, f a = f b → a = b) :
    (xs.map f).eraseDups = xs.eraseDups.map f := by
  induction xs using List.reverseRecOn with
  | nil => rfl
  | append_singleton xs x ih =>
    have hmem : f x ∈ xs.map f ↔ x ∈ xs := by
      constructor
      · intro h
        obtain ⟨y, hy, heq⟩ := List.mem_map.mp h
        rwa [← hf y (by simp [hy]) x (by simp) heq]
      · exact List.mem_map_of_mem
    have hxs := ih fun a ha b hb => hf a (by simp [ha]) b (by simp [hb])
    rw [List.map_append, List.map_singleton, eraseDups_concat, eraseDups_concat, hxs]
    by_cases h : x ∈ xs <;> simp [hmem, h]

theorem nodup_eraseDups (xs : List α) : xs.eraseDups.Nodup := by
  induction xs using List.reverseRecOn with
  | nil => exact .nil
  | append_singleton xs x ih =>
    rw [eraseDups_concat]
    split
    · exact ih
    · rename_i hx
      rw [List.nodup_append]
      refine ⟨ih, by simp, ?_⟩
      rintro a ha b hb rfl
      rw [List.mem_singleton] at hb
      exact hx (List.mem_eraseDups.mp (hb ▸ ha))

theorem eraseDups_of_nodup {xs : List α} (h : xs.Nodup) : xs.eraseDups = xs := by
  induction xs using List.reverseRecOn with
  | nil => rfl
  | append_singleton xs x ih =>
    obtain ⟨hxs, -, hdisjoint⟩ := List.nodup_append.mp h
    have hx : x ∉ xs := fun hmem => hdisjoint x hmem x (List.mem_singleton.mpr rfl) rfl
    rw [eraseDups_concat, if_neg hx, ih hxs]

end EraseDups

/-- The entry points that are known files, each once, in the order given. -/
def found (known entryPoints : List Bytes) : List Bytes :=
  (entryPoints.filter (· ∈ known)).eraseDups

/-- The other entry points, each once, in the order given. -/
def absent (known entryPoints : List Bytes) : List Bytes :=
  (entryPoints.filter (· ∉ known)).eraseDups

@[simp] theorem mem_found {known entryPoints : List Bytes} {x : Bytes} :
    x ∈ found known entryPoints ↔ x ∈ entryPoints ∧ x ∈ known := by
  simp [found]

@[simp] theorem mem_absent {known entryPoints : List Bytes} {x : Bytes} :
    x ∈ absent known entryPoints ↔ x ∈ entryPoints ∧ x ∉ known := by
  simp [absent]

theorem found_congr {known known' entryPoints : List Bytes}
    (h : ∀ e ∈ entryPoints, e ∈ known' ↔ e ∈ known) :
    found known' entryPoints = found known entryPoints := by
  rw [found, found]
  congr 1
  exact List.filter_congr fun e he => decide_eq_decide.mpr (h e he)

theorem absent_congr {known known' entryPoints : List Bytes}
    (h : ∀ e ∈ entryPoints, e ∈ known' ↔ e ∈ known) :
    absent known' entryPoints = absent known entryPoints := by
  rw [absent, absent]
  congr 1
  exact List.filter_congr fun e he => decide_eq_decide.mpr (not_congr (h e he))

theorem found_concat (known entryPoints : List Bytes) (e : Bytes) :
    found known (entryPoints ++ [e]) =
      if e ∈ known ∧ e ∉ entryPoints then found known entryPoints ++ [e]
      else found known entryPoints := by
  by_cases hk : e ∈ known
  · by_cases he : e ∈ entryPoints <;> simp [found, List.filter_append, eraseDups_concat, hk, he]
  · simp [found, List.filter_append, hk]

theorem absent_concat (known entryPoints : List Bytes) (e : Bytes) :
    absent known (entryPoints ++ [e]) =
      if e ∉ known ∧ e ∉ entryPoints then absent known entryPoints ++ [e]
      else absent known entryPoints := by
  by_cases hk : e ∈ known
  · simp [absent, List.filter_append, hk]
  · by_cases he : e ∈ entryPoints <;> simp [absent, List.filter_append, eraseDups_concat, hk, he]

/-- All entry points that were found are marked and queued before the first round. -/
theorem seed_eq (known entryPoints : List Bytes) :
    Seed.of known entryPoints =
      ⟨⟨(found known entryPoints).reverse, found known entryPoints⟩,
        found known entryPoints, absent known entryPoints⟩ := by
  induction entryPoints using List.reverseRecOn with
  | nil => rfl
  | append_singleton es e ih =>
    have hadd : Seed.of known (es ++ [e]) = Seed.add known (Seed.of known es) e := by
      simp [Seed.of, List.foldl_append]
    rw [hadd, ih, found_concat, absent_concat]
    by_cases hk : e ∈ known
    · by_cases he : e ∈ es <;> simp [Seed.add, Search.reach, hk, he]
    · by_cases he : e ∈ es <;> simp [Seed.add, hk, he]

theorem inv_seed (known entryPoints : List Bytes) (g : ImportGraph) :
    Search.Inv known g (found known entryPoints) (Seed.of known entryPoints).search := by
  rw [seed_eq]
  refine ⟨?_, ?_, ?_, ?_, ?_, ?_⟩
  · intro f hf
    exact (mem_found.mp (List.mem_reverse.mp hf)).2
  · exact List.nodup_reverse.mpr (nodup_eraseDups _)
  · intro f hf
    exact List.mem_reverse.mpr hf
  · intro f hf
    exact List.mem_reverse.mpr hf
  · intro f hf
    exact ⟨f, List.mem_reverse.mp hf, .refl⟩
  · intro f hf hwait
    exact absurd (List.mem_reverse.mp hf) hwait

section Traverse

variable (files : List Bytes) (g : ImportGraph) (entryPoints : List Bytes)

/-- The files the search ends with. -/
def reached : List Bytes :=
  (Search.rounds (Bytes.sortUnique files) g (Bytes.sortUnique files).length
    (Seed.of (Bytes.sortUnique files) entryPoints).search).marked

theorem traverse_eq :
    traverse files g entryPoints =
      { entries := found files entryPoints
        missing := absent files entryPoints
        visited := Bytes.sort (reached files g entryPoints)
        unused := (Bytes.sortUnique files).filter (· ∉ reached files g entryPoints) } := by
  have hf : found (Bytes.sortUnique files) entryPoints = found files entryPoints :=
    found_congr fun _ _ => Bytes.mem_sortUnique
  have ha : absent (Bytes.sortUnique files) entryPoints = absent files entryPoints :=
    absent_congr fun _ _ => Bytes.mem_sortUnique
  simp only [traverse, reached, seed_eq, hf, ha]
  simp

theorem mem_reached_iff (f : Bytes) :
    f ∈ reached files g entryPoints ↔
      ∃ e ∈ entryPoints, e ∈ files ∧ Relation.ReflTransGen (Leads files g) e f := by
  have hseed := inv_seed (Bytes.sortUnique files) entryPoints g
  have hinv := Search.inv_rounds (Bytes.sortUnique files).length hseed
  have hempty := Search.rounds_queue_nil hseed (by simp [seed_eq])
  rw [reached, hinv.mem_marked_iff hempty, ImportGraph.leads_congr fun _ => Bytes.mem_sortUnique]
  simp only [mem_found, Bytes.mem_sortUnique, and_assoc]

theorem nodup_reached : (reached files g entryPoints).Nodup :=
  (Search.inv_rounds _ (inv_seed (Bytes.sortUnique files) entryPoints g)).distinct

theorem traverse_entries :
    (traverse files g entryPoints).entries = found files entryPoints := by
  rw [traverse_eq]

theorem traverse_missing :
    (traverse files g entryPoints).missing = absent files entryPoints := by
  rw [traverse_eq]

theorem ascending_visited : Bytes.Ascending (traverse files g entryPoints).visited := by
  rw [traverse_eq]
  exact Bytes.ascending_sort (nodup_reached files g entryPoints)

/-- Exactly the files that known files lead to from a known entry point are visited. -/
theorem mem_visited_iff {f : Bytes} :
    f ∈ (traverse files g entryPoints).visited ↔
      ∃ e ∈ entryPoints, e ∈ files ∧ Relation.ReflTransGen (Leads files g) e f := by
  rw [traverse_eq, Bytes.mem_sort, mem_reached_iff]

theorem mem_files_of_mem_visited {f : Bytes} (h : f ∈ (traverse files g entryPoints).visited) :
    f ∈ files := by
  obtain ⟨e, _, he, hpath⟩ := (mem_visited_iff files g entryPoints).mp h
  cases hpath with
  | refl => exact he
  | tail _ hstep => exact hstep.1

theorem visited_eq_filter (h : Bytes.Ascending files) :
    (traverse files g entryPoints).visited =
      files.filter (· ∈ (traverse files g entryPoints).visited) :=
  (ascending_visited files g entryPoints).eq_filter h fun _ hf =>
    mem_files_of_mem_visited files g entryPoints hf

theorem traverse_unused :
    (traverse files g entryPoints).unused =
      (Bytes.sortUnique files).filter (· ∉ (traverse files g entryPoints).visited) := by
  rw [traverse_eq]
  simp

end Traverse

end Reachability

end DartReach
