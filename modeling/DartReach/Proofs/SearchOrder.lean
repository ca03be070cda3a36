import DartReach.Proofs.GraphSearch

/-!
# The search in any order

The targets of a file, the reached files and the known files are sets, and a search may go through each of
them in any order. A round that takes targets in another order is a round in another graph with the same
edges, so that the invariant of the search holds in every order; and what is listed in any order is sorted
at the end. Hence there is one outcome, and it is the division of the files that the search is for.
-/

namespace DartReach

set_option autoImplicit false

namespace Search

open ImportGraph (Leads)

variable {known : List Bytes} {g : ImportGraph}

/-- One round, which goes through the targets of its file in any order. -/
inductive Round (known : List Bytes) (g : ImportGraph) : Search → Search → Prop where
  | take {marked rest : List Bytes} {file : Bytes} (order : List Bytes)
      (lists : ∀ t, t ∈ order ↔ t ∈ g.targets file) :
      Round known g ⟨marked, file :: rest⟩ (order.foldl (reach known) ⟨marked, rest⟩)

theorem Inv.congr {g' : ImportGraph} {roots : List Bytes} {s : Search}
    (hlead : Leads known g' = Leads known g) : Inv known g' roots s ↔ Inv known g roots s := by
  constructor
  · rintro ⟨inside, distinct, queued, rooted, sound, closed⟩
    rw [hlead] at sound closed
    exact ⟨inside, distinct, queued, rooted, sound, closed⟩
  · rintro ⟨inside, distinct, queued, rooted, sound, closed⟩
    rw [← hlead] at sound closed
    exact ⟨inside, distinct, queued, rooted, sound, closed⟩

theorem inv_round {roots : List Bytes} {s t : Search} (h : Inv known g roots s)
    (hround : Round known g s t) : Inv known g roots t := by
  cases hround with
  | @take marked rest file order lists =>
    -- The round is a step in the graph whose row for this file has the given order.
    have htargets : ImportGraph.targets ((file, order) :: g) file = order := by
      simp [ImportGraph.targets]
    have hlead : Leads known ((file, order) :: g) = Leads known g := by
      funext p q
      by_cases hp : p = file
      · rw [hp, Leads, Leads, htargets, lists]
      · simp [Leads, ImportGraph.targets, List.lookup_cons, beq_eq_false_iff_ne.mpr hp]
    have hstep := inv_step ((Inv.congr hlead).mpr h)
    simp only [step, htargets] at hstep
    exact (Inv.congr hlead).mp hstep

theorem inv_of_rounds {roots : List Bytes} {s t : Search} (h : Inv known g roots s)
    (hrounds : Relation.ReflTransGen (Round known g) s t) : Inv known g roots t := by
  induction hrounds with
  | refl => exact h
  | tail _ hround ih => exact inv_round ih hround

/-- Rounds in the order of the graph are among those in any order. -/
theorem rounds_in_order (n : Nat) (s : Search) :
    Relation.ReflTransGen (Round known g) s (rounds known g n s) := by
  induction n generalizing s with
  | zero => exact .refl
  | succ n ih =>
    obtain ⟨marked, queue⟩ := s
    cases queue with
    | nil =>
      rw [rounds_of_queue_nil rfl]
    | cons file rest =>
      exact .head (.take (g.targets file) fun _ => Iff.rfl) (ih _)

end Search

namespace Reachability

/--
What a search comes to if it goes through targets in any order, lists the reached files in any order before
it sorts them, and looks for unused files among the known files in any order.
-/
inductive Comes (files : List Bytes) (g : ImportGraph) (entryPoints : List Bytes) :
    Reachability → Prop where
  | intro (known : List Bytes) (once : known.Nodup) (lists : ∀ f, f ∈ known ↔ f ∈ files)
      (last : Search)
      (runs : Relation.ReflTransGen (Search.Round known g) (Seed.of known entryPoints).search last)
      (ends : last.queue = []) (order : List Bytes) (same : order.Perm last.marked) :
      Comes files g entryPoints
        { entries := (Seed.of known entryPoints).entries
          missing := (Seed.of known entryPoints).missing
          visited := Bytes.sort order
          unused := Bytes.sort (known.filter (!last.marked.contains ·)) }

/-- The division of files that a search is for. -/
structure Divides (files : List Bytes) (g : ImportGraph) (entryPoints : List Bytes)
    (r : Reachability) : Prop where
  entries : r.entries = (entryPoints.filter (· ∈ files)).eraseDups
  missing : r.missing = (entryPoints.filter (· ∉ files)).eraseDups
  ascendingVisited : Bytes.Ascending r.visited
  /-- A chain of files leads there, each among the targets of the one before. -/
  visited : ∀ f, f ∈ r.visited ↔ ∃ chain : List Bytes, (∀ p ∈ chain, p ∈ files) ∧
    chain.IsChain (fun p q => q ∈ g.targets p) ∧ (∃ e ∈ r.entries, chain.head? = some e) ∧
    chain.getLast? = some f
  ascendingUnused : Bytes.Ascending r.unused
  unused : ∀ f, f ∈ r.unused ↔ f ∈ files ∧ f ∉ r.visited
  noEntryPoints : r.noEntryPoints = true ↔ r.visited = []

variable {files : List Bytes} {g : ImportGraph} {entryPoints : List Bytes}

theorem mem_visited_iff_chain {f : Bytes} :
    f ∈ (traverse files g entryPoints).visited ↔
      ∃ chain : List Bytes, (∀ p ∈ chain, p ∈ files) ∧
        chain.IsChain (fun p q => q ∈ g.targets p) ∧
        (∃ e ∈ (traverse files g entryPoints).entries, chain.head? = some e) ∧
        chain.getLast? = some f := by
  rw [mem_visited_iff, traverse_entries]
  constructor
  · rintro ⟨e, he, hpath⟩
    obtain ⟨chain, hmem, hchain, hhead, hlast⟩ := (reflTransGen_iff_chain files _).mp hpath
    exact ⟨chain, hmem, hchain, ⟨e, mem_found.mpr ⟨he, hpath.1⟩, hhead⟩, hlast⟩
  · rintro ⟨chain, hmem, hchain, ⟨e, he, hhead⟩, hlast⟩
    exact ⟨e, (mem_found.mp he).1,
      (reflTransGen_iff_chain files _).mpr ⟨chain, hmem, hchain, hhead, hlast⟩⟩

theorem visited_eq_nil_iff :
    (traverse files g entryPoints).visited = [] ↔ (traverse files g entryPoints).entries = [] := by
  rw [traverse_entries, List.eq_nil_iff_forall_not_mem, List.eq_nil_iff_forall_not_mem]
  constructor
  · intro h e he
    obtain ⟨hentry, hk⟩ := mem_found.mp he
    exact h e ((mem_visited_iff files g entryPoints).mpr ⟨e, hentry, hk, .refl⟩)
  · intro h f hf
    obtain ⟨e, he, hk, _⟩ := (mem_visited_iff files g entryPoints).mp hf
    exact h e (mem_found.mpr ⟨he, hk⟩)

theorem ascending_unused : Bytes.Ascending (traverse files g entryPoints).unused := by
  rw [traverse_unused]
  exact (Bytes.ascending_sortUnique files).filter _

theorem mem_unused_iff {f : Bytes} :
    f ∈ (traverse files g entryPoints).unused ↔
      f ∈ files ∧ f ∉ (traverse files g entryPoints).visited := by
  rw [traverse_unused, List.mem_filter, Bytes.mem_sortUnique, decide_eq_true_eq]

theorem divides_traverse : Divides files g entryPoints (traverse files g entryPoints) where
  entries := traverse_entries files g entryPoints
  missing := traverse_missing files g entryPoints
  ascendingVisited := ascending_visited files g entryPoints
  visited _ := mem_visited_iff_chain
  ascendingUnused := ascending_unused
  unused _ := mem_unused_iff
  noEntryPoints := by
    rw [noEntryPoints, List.isEmpty_iff]
    exact visited_eq_nil_iff.symm

/-- The definition leaves no choice. -/
theorem Divides.unique {r r' : Reachability} (h : Divides files g entryPoints r)
    (h' : Divides files g entryPoints r') : r = r' := by
  have hentries : r.entries = r'.entries := h.entries.trans h'.entries.symm
  have hvisited : r.visited = r'.visited := by
    apply h.ascendingVisited.ext h'.ascendingVisited
    intro f
    rw [h.visited, h'.visited, hentries]
  have hunused : r.unused = r'.unused := by
    apply h.ascendingUnused.ext h'.ascendingUnused
    intro f
    rw [h.unused, h'.unused, hvisited]
  obtain ⟨entries, missing, visited, unused⟩ := r
  cases hentries
  cases hvisited
  cases hunused
  cases h.missing.trans h'.missing.symm
  rfl

/-- In every order the search marks the same files. -/
theorem mem_marked_iff_mem_visited {known : List Bytes} (hknown : ∀ f, f ∈ known ↔ f ∈ files)
    {last : Search}
    (hruns : Relation.ReflTransGen (Search.Round known g) (Seed.of known entryPoints).search last)
    (hends : last.queue = []) {f : Bytes} :
    f ∈ last.marked ↔ f ∈ (traverse files g entryPoints).visited := by
  have hinv := Search.inv_of_rounds (inv_seed known entryPoints g) hruns
  rw [hinv.mem_marked_iff hends, mem_visited_iff, ImportGraph.leads_congr hknown]
  simp only [mem_found, hknown, and_assoc]

theorem Comes.eq_traverse {r : Reachability} (h : Comes files g entryPoints r) :
    r = traverse files g entryPoints := by
  cases h with
  | intro known once lists last runs ends order same =>
    have hfound : found known entryPoints = found files entryPoints :=
      found_congr fun e _ => lists e
    have habsent : absent known entryPoints = absent files entryPoints :=
      absent_congr fun e _ => lists e
    have hmarked := fun f => mem_marked_iff_mem_visited (f := f) lists runs ends
    have hdistinct := (Search.inv_of_rounds (inv_seed known entryPoints g) runs).distinct
    have hvisited : Bytes.sort order = (traverse files g entryPoints).visited := by
      apply (Bytes.ascending_sort (same.nodup_iff.mpr hdistinct)).ext (ascending_visited _ _ _)
      intro f
      rw [Bytes.mem_sort, same.mem_iff, hmarked]
    have hunused : Bytes.sort (known.filter (!last.marked.contains ·)) =
        (traverse files g entryPoints).unused := by
      apply (Bytes.ascending_sort (once.filter _)).ext ascending_unused
      intro f
      rw [Bytes.mem_sort, List.mem_filter, mem_unused_iff, lists, ← hmarked]
      simp
    rw [hvisited, hunused, seed_eq, hfound, habsent, ← traverse_entries files g,
      ← traverse_missing files g]

theorem comes_traverse : Comes files g entryPoints (traverse files g entryPoints) := by
  have hruns : Relation.ReflTransGen (Search.Round (Bytes.sortUnique files) g)
      (Seed.of (Bytes.sortUnique files) entryPoints).search _ :=
    Search.rounds_in_order (Bytes.sortUnique files).length _
  have hends := Search.rounds_queue_nil (inv_seed (Bytes.sortUnique files) entryPoints g)
    (by simp [seed_eq])
  have hcomes : Comes files g entryPoints _ :=
    .intro _ (Bytes.ascending_sortUnique files).nodup (fun _ => Bytes.mem_sortUnique) _ hruns hends _
      (.refl _)
  exact hcomes.eq_traverse ▸ hcomes

/--
A search has one outcome, in whatever order it goes through its sets, and the outcome is the division of the
files that is asked for: entry points in their order, reached files ascending, and the others.
-/
theorem traverse_in_any_order (files : List Bytes) (g : ImportGraph) (entryPoints : List Bytes)
    (r : Reachability) :
    (Comes files g entryPoints r ↔ r = traverse files g entryPoints) ∧
      (Divides files g entryPoints r ↔ r = traverse files g entryPoints) := by
  constructor
  · constructor
    · exact Comes.eq_traverse
    · rintro rfl
      exact comes_traverse
  · constructor
    · intro h
      exact h.unique divides_traverse
    · rintro rfl
      exact divides_traverse

end Reachability

end DartReach
