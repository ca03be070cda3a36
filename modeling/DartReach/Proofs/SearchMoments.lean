import Mathlib.Data.Finset.Card
import Mathlib.Data.Prod.Lex
import Mathlib.Order.WellFounded
import DartReach.Proofs.SearchOrder

/-!
# Every moment of a search

A search looks at one entry point or one target after the other, and takes a file from the queue whenever
it has come to the end of a file's targets. What holds after each of these actions is shown here, in
whatever order the targets of a file are gone through: a file enters the queue once, when it is marked,
and leaves it once. So there are no more rounds than known files. Taking a file lowers the number of files
that are not marked or wait, and looking at one never raises it; hence no search goes on forever, and
where it stops it has the one outcome.
-/

namespace DartReach

set_option autoImplicit false

namespace Search

variable (known : List Bytes) (s : Search)

/-- How many files can still be taken: those that are not marked, and those that wait. -/
def left : Nat := (known.filter (· ∉ s.marked)).length + s.queue.length

/-- What the queue has got at its end. -/
def added (after : Search) : List Bytes := after.queue.drop s.queue.length

theorem reach_cases (file : Bytes) :
    s.reach known file = s ∧ (file ∈ known → file ∈ s.marked) ∨
      s.reach known file = ⟨file :: s.marked, s.queue ++ [file]⟩ ∧ file ∈ known ∧ file ∉ s.marked := by
  unfold reach
  split
  · rename_i h
    right
    simpa using h
  · rename_i h
    left
    simpa using h

/-- A file that is reached moves from those that are not marked to those that wait. -/
theorem left_reach_le (file : Bytes) : (s.reach known file).left known ≤ s.left known := by
  rcases reach_cases known s file with ⟨h, -⟩ | ⟨h, hknown, hnew⟩
  · rw [h]
  · have hfilter : known.filter (· ∉ file :: s.marked) =
        (known.filter (· ∉ s.marked)).filter (· ≠ file) := by
      rw [List.filter_filter]
      apply List.filter_congr
      intro x _
      simp
    have hless : (known.filter (· ∉ file :: s.marked)).length < (known.filter (· ∉ s.marked)).length := by
      rw [hfilter, List.length_filter_lt_length_iff_exists]
      exact ⟨file, by simp [hknown, hnew], by simp⟩
    simp only [h, left, List.length_append, List.length_singleton]
    omega

end Search

namespace Reachability

open ImportGraph (Leads)

/-- A search between two actions, with its past. -/
structure Moment where
  /-- Entry points that were not looked at yet. -/
  ahead : List Bytes
  seed : Seed
  /-- Targets of the file taken last that were not looked at yet. -/
  targets : List Bytes
  /-- All files that were put into the queue, in this order. -/
  queued : List Bytes
  /-- All files that were taken from the queue, in this order: one a round. -/
  taken : List Bytes

/--
One action: an entry point is looked at, or else the next target of the file taken last, or else a file is
taken from the queue, with its targets in any order.
-/
inductive Action (known : List Bytes) (g : ImportGraph) : Moment → Moment → Prop where
  | enter (entry : Bytes) (ahead : List Bytes) (seed : Seed) (targets queued taken : List Bytes) :
      Action known g ⟨entry :: ahead, seed, targets, queued, taken⟩
        ⟨ahead, seed.add known entry, targets,
          queued ++ seed.search.added (seed.add known entry).search, taken⟩
  | look (target : Bytes) (seed : Seed) (targets queued taken : List Bytes) :
      Action known g ⟨[], seed, target :: targets, queued, taken⟩
        ⟨[], { seed with search := seed.search.reach known target }, targets,
          queued ++ seed.search.added (seed.search.reach known target), taken⟩
  | take (file : Bytes) (marked rest entries missing queued taken order : List Bytes)
      (lists : ∀ t, t ∈ order ↔ t ∈ g.targets file) :
      Action known g ⟨[], ⟨⟨marked, file :: rest⟩, entries, missing⟩, [], queued, taken⟩
        ⟨[], ⟨⟨marked, rest⟩, entries, missing⟩, order, queued, taken ++ [file]⟩

namespace Moment

/-- Before the first action. -/
def start (entryPoints : List Bytes) : Moment := ⟨entryPoints, ⟨Search.start, [], []⟩, [], [], []⟩

def search (m : Moment) : Search := m.seed.search

/-- What a search comes to that ends here. -/
def outcome (known : List Bytes) (m : Moment) : Reachability :=
  { entries := m.seed.entries
    missing := m.seed.missing
    visited := Bytes.sort m.search.marked
    unused := Bytes.sort (known.filter (!m.search.marked.contains ·)) }

end Moment

theorem Seed.search_add (known : List Bytes) (seed : Seed) (entry : Bytes) :
    (seed.add known entry).search = seed.search.reach known entry := by
  unfold Seed.add
  by_cases hk : entry ∈ known
  · by_cases hm : entry ∈ seed.search.marked <;> simp [Search.reach, hk, hm]
  · by_cases hm : entry ∈ seed.missing <;> simp [Search.reach, hk, hm]

variable {known : List Bytes} {g : ImportGraph} {m m' : Moment}

/-! ### The queue -/

namespace Moment

/-- What holds after every action. -/
structure Inv (known : List Bytes) (g : ImportGraph) (m : Moment) : Prop where
  inside : ∀ f ∈ m.search.marked, f ∈ known
  once : m.queued.Nodup
  marks : m.search.marked = m.queued.reverse
  passes : m.queued = m.taken ++ m.search.queue
  /-- Of a file that was taken, all known targets are marked that were looked at. -/
  expanded : ∀ f ∈ m.taken, ∀ t, Leads known g f t →
    t ∈ m.search.marked ∨ m.taken.getLast? = some f ∧ t ∈ m.targets

theorem inv_start (entryPoints : List Bytes) : (start entryPoints).Inv known g where
  inside := by simp [start, search, Search.start]
  once := .nil
  marks := rfl
  passes := rfl
  expanded := by simp [start]

/-- Looking at a file, be it an entry point or a target, keeps the invariant. -/
theorem Inv.of_reach (h : m.Inv known g) {file : Bytes}
    (hsearch : m'.search = m.search.reach known file)
    (hqueued : m'.queued = m.queued ++ m.search.added m'.search) (htaken : m'.taken = m.taken)
    (htargets : ∀ t ∈ m.targets, t = file ∨ t ∈ m'.targets) : m'.Inv known g := by
  rcases Search.reach_cases known m.search file with ⟨hreach, hold⟩ | ⟨hreach, hknown, hnew⟩
  · rw [hreach] at hsearch
    have hsame : m'.queued = m.queued := by
      simp [hqueued, hsearch, Search.added]
    refine ⟨?_, ?_, ?_, ?_, ?_⟩
    · rw [hsearch]
      exact h.inside
    · rw [hsame]
      exact h.once
    · rw [hsearch, hsame]
      exact h.marks
    · rw [hsearch, hsame, htaken]
      exact h.passes
    · intro f hf t ht
      rw [htaken] at hf ⊢
      rw [hsearch]
      rcases h.expanded f hf t ht with hmarked | ⟨hlast, hahead⟩
      · exact Or.inl hmarked
      · rcases htargets t hahead with rfl | hahead
        · exact Or.inl (hold ht.1)
        · exact Or.inr ⟨hlast, hahead⟩
  · rw [hreach] at hsearch
    have hone : m'.queued = m.queued ++ [file] := by
      simp [hqueued, hsearch, Search.added]
    refine ⟨?_, ?_, ?_, ?_, ?_⟩
    · rw [hsearch, List.forall_mem_cons]
      exact ⟨hknown, h.inside⟩
    · rw [h.marks, List.mem_reverse] at hnew
      rw [hone, ← List.concat_eq_append, List.nodup_concat]
      exact ⟨hnew, h.once⟩
    · rw [hsearch, hone, List.reverse_concat, h.marks]
    · rw [hsearch, hone, htaken, h.passes, List.append_assoc]
    · intro f hf t ht
      rw [htaken] at hf ⊢
      rw [hsearch, List.mem_cons]
      rcases h.expanded f hf t ht with hmarked | ⟨hlast, hahead⟩
      · exact Or.inl (Or.inr hmarked)
      · rcases htargets t hahead with rfl | hahead
        · exact Or.inl (Or.inl rfl)
        · exact Or.inr ⟨hlast, hahead⟩

theorem Inv.action (h : m.Inv known g) (ha : Action known g m m') : m'.Inv known g := by
  cases ha with
  | enter entry ahead seed targets queued taken =>
    exact h.of_reach (Seed.search_add known seed entry) rfl rfl fun _ => Or.inr
  | look target seed targets queued taken =>
    exact h.of_reach rfl rfl rfl fun _ => List.mem_cons.mp
  | take file marked rest entries missing queued taken order lists =>
    have hpasses : queued = taken ++ file :: rest := h.passes
    refine ⟨h.inside, h.once, h.marks, ?_, ?_⟩
    · rw [hpasses]
      simp [search]
    · intro f hf t ht
      rcases List.mem_append.mp hf with hf | hf
      · -- The targets of an earlier file have all been looked at.
        rcases h.expanded f hf t ht with hmarked | ⟨-, hahead⟩
        · exact Or.inl hmarked
        · cases hahead
      · rw [List.mem_singleton] at hf
        subst hf
        exact Or.inr ⟨List.getLast?_concat, (lists t).mpr ht.2⟩

theorem Inv.actions (h : m.Inv known g) (ha : Relation.ReflTransGen (Action known g) m m') :
    m'.Inv known g := by
  induction ha with
  | refl => exact h
  | tail _ hlast ih => exact ih.action hlast

/-! ### No search goes on forever -/

/-- Entry points come before rounds, and in a round the targets are looked at one after the other. -/
def rank (known : List Bytes) (m : Moment) : ℕ ×ₗ ℕ ×ₗ ℕ :=
  toLex (m.ahead.length, toLex (m.search.left known, m.targets.length))

theorem rank_lt_of_action (ha : Action known g m m') : m'.rank known < m.rank known := by
  cases ha with
  | enter entry ahead seed targets queued taken =>
    exact Prod.Lex.toLex_lt_toLex.mpr (Or.inl (Nat.lt_succ_self ahead.length))
  | look target seed targets queued taken =>
    refine Prod.Lex.toLex_lt_toLex.mpr (Or.inr ⟨rfl, ?_⟩)
    exact Prod.Lex.toLex_lt_toLex'.mpr
      ⟨Search.left_reach_le known seed.search target, fun _ => Nat.lt_succ_self targets.length⟩
  | take file marked rest entries missing queued taken order lists =>
    refine Prod.Lex.toLex_lt_toLex.mpr (Or.inr ⟨rfl, ?_⟩)
    exact Prod.Lex.toLex_lt_toLex.mpr (Or.inl (Nat.add_lt_add_left (Nat.lt_succ_self rest.length) _))

theorem no_endless_run (known : List Bytes) (g : ImportGraph) :
    ¬ ∃ run : ℕ → Moment, ∀ i, Action known g (run i) (run (i + 1)) := by
  rintro ⟨run, hrun⟩
  obtain ⟨i, hi⟩ := WellFounded.not_rel_apply_succ (r := (· < ·)) fun i => (run i).rank known
  exact hi (rank_lt_of_action (hrun i))

theorem action_or_stops (known : List Bytes) (g : ImportGraph) (m : Moment) :
    (∃ m', Action known g m m') ∨ m.ahead = [] ∧ m.targets = [] ∧ m.search.queue = [] := by
  obtain ⟨ahead, ⟨⟨marked, queue⟩, entries, missing⟩, targets, queued, taken⟩ := m
  cases ahead with
  | cons entry ahead => exact Or.inl ⟨_, .enter entry ahead _ targets queued taken⟩
  | nil =>
    cases targets with
    | cons target targets => exact Or.inl ⟨_, .look target _ targets queued taken⟩
    | nil =>
      cases queue with
      | cons file rest =>
        exact Or.inl
          ⟨_, .take file marked rest entries missing queued taken (g.targets file) fun _ => Iff.rfl⟩
      | nil => exact Or.inr ⟨rfl, rfl, rfl⟩

/-! ### Actions make up rounds -/

/-- Where the search stands once everything ahead was looked at, before the next file is taken. -/
def settled (known : List Bytes) (m : Moment) : Seed :=
  let entered := m.ahead.foldl (Seed.add known) m.seed
  { entered with search := m.targets.foldl (Search.reach known) entered.search }

/-- Only taking a file makes a difference to what the search settles in, and that difference is one round. -/
theorem settled_action (ha : Action known g m m') :
    m'.settled known = m.settled known ∨
      Search.Round known g (m.settled known).search (m'.settled known).search ∧
        (m'.settled known).entries = (m.settled known).entries ∧
        (m'.settled known).missing = (m.settled known).missing := by
  cases ha with
  | enter entry ahead seed targets queued taken => exact Or.inl rfl
  | look target seed targets queued taken => exact Or.inl rfl
  | take file marked rest entries missing queued taken order lists =>
    exact Or.inr ⟨.take order lists, rfl, rfl⟩

theorem settled_actions {entryPoints : List Bytes}
    (ha : Relation.ReflTransGen (Action known g) (start entryPoints) m) :
    Relation.ReflTransGen (Search.Round known g) (Seed.of known entryPoints).search (m.settled known).search ∧
      (m.settled known).entries = (Seed.of known entryPoints).entries ∧
      (m.settled known).missing = (Seed.of known entryPoints).missing := by
  induction ha with
  | refl => exact ⟨.refl, rfl, rfl⟩
  | tail _ hlast ih =>
    obtain ⟨hrounds, hentries, hmissing⟩ := ih
    rcases settled_action hlast with hsame | ⟨hround, hentries', hmissing'⟩
    · rw [hsame]
      exact ⟨hrounds, hentries, hmissing⟩
    · exact ⟨hrounds.tail hround, hentries'.trans hentries, hmissing'.trans hmissing⟩

/-- Everything ahead can be looked at before the next file is taken. -/
theorem actions_settled (known : List Bytes) (g : ImportGraph) (m : Moment) :
    ∃ queued, Relation.ReflTransGen (Action known g) m ⟨[], m.settled known, [], queued, m.taken⟩ := by
  obtain ⟨ahead, seed, targets, queued, taken⟩ := m
  induction ahead generalizing seed queued with
  | cons entry ahead ih =>
    obtain ⟨queued', hactions⟩ := ih (seed.add known entry) _
    exact ⟨queued', .head (.enter entry ahead seed targets queued taken) hactions⟩
  | nil =>
    induction targets generalizing seed queued with
    | cons target targets ih =>
      obtain ⟨queued', hactions⟩ := ih { seed with search := seed.search.reach known target } _
      exact ⟨queued', .head (.look target seed targets queued taken) hactions⟩
    | nil => exact ⟨queued, .refl⟩

/-- Rounds in the order of the graph are made up of actions. -/
theorem actions_rounds (known : List Bytes) (g : ImportGraph) (n : Nat) (seed : Seed)
    (queued taken : List Bytes) :
    ∃ m, Relation.ReflTransGen (Action known g) ⟨[], seed, [], queued, taken⟩ m ∧ m.ahead = [] ∧
      m.targets = [] ∧ m.search = Search.rounds known g n seed.search := by
  induction n generalizing seed queued taken with
  | zero => exact ⟨_, .refl, rfl, rfl, rfl⟩
  | succ n ih =>
    obtain ⟨⟨marked, queue⟩, entries, missing⟩ := seed
    cases queue with
    | nil =>
      rw [Search.rounds_of_queue_nil rfl]
      exact ⟨_, .refl, rfl, rfl, rfl⟩
    | cons file rest =>
      obtain ⟨queued', hsettle⟩ := actions_settled known g
        ⟨[], ⟨⟨marked, rest⟩, entries, missing⟩, g.targets file, queued, taken ++ [file]⟩
      obtain ⟨m, hactions, hends⟩ := ih _ queued' (taken ++ [file])
      refine ⟨m, .head ?_ (hsettle.trans hactions), hends⟩
      exact .take file marked rest entries missing queued taken (g.targets file) fun _ => Iff.rfl

end Moment

/-! ### The whole search -/

theorem length_le_card {xs files : List Bytes} (hx : xs.Nodup) (h : ∀ f ∈ xs, f ∈ files) :
    xs.length ≤ files.toFinset.card := by
  rw [← List.toFinset_card_of_nodup hx]
  apply Finset.card_le_card
  intro f hf
  rw [List.mem_toFinset] at hf ⊢
  exact h f hf

section Whole

variable {files : List Bytes} {entryPoints : List Bytes}

theorem length_visited_add_length_unused (files : List Bytes) (g : ImportGraph) (entryPoints : List Bytes) :
    (traverse files g entryPoints).visited.length + (traverse files g entryPoints).unused.length =
      files.toFinset.card := by
  have hdisjoint : (traverse files g entryPoints).visited.Disjoint (traverse files g entryPoints).unused :=
    fun _ hvisited hunused => (mem_unused_iff.mp hunused).2 hvisited
  have hnodup := (ascending_visited files g entryPoints).nodup.append ascending_unused.nodup hdisjoint
  rw [← List.length_append, ← List.toFinset_card_of_nodup hnodup]
  congr 1
  ext f
  rw [List.mem_toFinset, List.mem_toFinset, List.mem_append, mem_unused_iff]
  constructor
  · rintro (hf | hf)
    · exact mem_files_of_mem_visited files g entryPoints hf
    · exact hf.1
  · intro hf
    by_cases hv : f ∈ (traverse files g entryPoints).visited
    · exact Or.inl hv
    · exact Or.inr ⟨hf, hv⟩

/-- A moment that a search from the entry points among the files can come to. -/
def Passes (files : List Bytes) (g : ImportGraph) (entryPoints : List Bytes) (m : Moment) : Prop :=
  Relation.ReflTransGen (Action (Bytes.sortUnique files) g) (Moment.start entryPoints) m

theorem outcome_eq_traverse (h : Passes files g entryPoints m) (hahead : m.ahead = [])
    (htargets : m.targets = []) (hqueue : m.search.queue = []) :
    m.outcome (Bytes.sortUnique files) = traverse files g entryPoints := by
  obtain ⟨hrounds, hentries, hmissing⟩ := Moment.settled_actions h
  have hsettled : m.settled (Bytes.sortUnique files) = m.seed := by
    rw [Moment.settled, hahead, htargets]
    rfl
  rw [hsettled] at hrounds hentries hmissing
  have hcomes : Comes files g entryPoints _ :=
    .intro _ (Bytes.ascending_sortUnique files).nodup (fun _ => Bytes.mem_sortUnique) _ hrounds hqueue _
      (.refl _)
  rw [← hentries, ← hmissing] at hcomes
  exact hcomes.eq_traverse

theorem passes_rounds (files : List Bytes) (g : ImportGraph) (entryPoints : List Bytes) (n : Nat) :
    ∃ m, Passes files g entryPoints m ∧ m.ahead = [] ∧ m.targets = [] ∧
      m.search = Search.rounds (Bytes.sortUnique files) g n
        (Seed.of (Bytes.sortUnique files) entryPoints).search := by
  obtain ⟨queued, hsettle⟩ := Moment.actions_settled (Bytes.sortUnique files) g (Moment.start entryPoints)
  obtain ⟨m, hactions, hends⟩ := Moment.actions_rounds (Bytes.sortUnique files) g n _ queued []
  exact ⟨m, hsettle.trans hactions, hends⟩

/-- The file was taken, and its known targets are marked, except that the last file may have some ahead. -/
def Moment.Expanded (files : List Bytes) (g : ImportGraph) (m : Moment) (file : Bytes) : Prop :=
  file ∈ m.taken ∧ ∀ t ∈ g.targets file, t ∈ files →
    t ∈ m.search.marked ∨ m.taken.getLast? = some file ∧ t ∈ m.targets

/-- What is asked of a moment of a search among `files`. -/
structure Moment.Orderly (files : List Bytes) (g : ImportGraph) (m : Moment) : Prop where
  inside : ∀ f ∈ m.search.marked, f ∈ files
  /-- No file is put into the queue twice. -/
  once : m.queued.Nodup
  /-- Files leave the queue in the order in which they were put into it. -/
  passes : m.queued = m.taken ++ m.search.queue
  marked : ∀ f ∈ m.search.queue, f ∈ m.search.marked
  expanded : ∀ f ∈ m.search.marked, f ∈ m.search.queue ∨ m.Expanded files g f
  rounds : m.taken.length ≤ files.toFinset.card
  room : (0 : Int) ≤ files.length - m.search.marked.length

theorem Moment.Inv.orderly (h : m.Inv (Bytes.sortUnique files) g) : m.Orderly files g := by
  have hinside : ∀ f ∈ m.search.marked, f ∈ files := fun f hf => Bytes.mem_sortUnique.mp (h.inside f hf)
  have hmarked : ∀ f, f ∈ m.search.marked ↔ f ∈ m.taken ∨ f ∈ m.search.queue := by
    intro f
    rw [h.marks, List.mem_reverse, h.passes, List.mem_append]
  refine ⟨hinside, h.once, h.passes, fun f hf => (hmarked f).mpr (Or.inr hf), ?_, ?_, ?_⟩
  · intro f hf
    rcases (hmarked f).mp hf with htaken | hqueue
    · refine Or.inr ⟨htaken, fun t ht hfile => ?_⟩
      exact h.expanded f htaken t ⟨Bytes.mem_sortUnique.mpr hfile, ht⟩
    · exact Or.inl hqueue
  · have htaken : m.taken.Nodup := by
      have honce := h.once
      rw [h.passes] at honce
      exact honce.of_append_left
    exact length_le_card htaken fun f hf => hinside f ((hmarked f).mpr (Or.inl hf))
  · have hnodup : m.search.marked.Nodup := by
      rw [h.marks, List.nodup_reverse]
      exact h.once
    have hcard := length_le_card hnodup hinside
    have hfiles := files.toFinset_card_le
    omega

/--
In whatever order it goes through the targets of a file, a search is orderly at every moment and goes on
until its queue is empty, which no search can put off forever. Then it has the outcome of the search that
is run. After each round the search that is run is at such a moment, it has an empty queue after as many
rounds as there are known files, and beside the visited files there is room for the unused ones.
-/
theorem traverse_ends (files : List Bytes) (g : ImportGraph) (entryPoints : List Bytes) :
    let known := Bytes.sortUnique files
    let rounds := fun n => Search.rounds known g n (Seed.of known entryPoints).search
    let r := traverse files g entryPoints
    (∀ m, Passes files g entryPoints m → m.Orderly files g ∧
      ((∃ m', Action known g m m') ∨ m.search.queue = [] ∧ m.outcome known = r)) ∧
    (¬ ∃ run : ℕ → Moment, ∀ i, Action known g (run i) (run (i + 1))) ∧
    (∀ n, ∃ m, Passes files g entryPoints m ∧ m.ahead = [] ∧ m.targets = [] ∧ m.search = rounds n) ∧
    (rounds known.length).queue = [] ∧
    (r.unused.length : Int) ≤ files.length - r.visited.length := by
  refine ⟨fun m hm => ⟨?_, ?_⟩, Moment.no_endless_run _ g, passes_rounds files g entryPoints, ?_, ?_⟩
  · exact ((Moment.inv_start entryPoints).actions hm).orderly
  · rcases Moment.action_or_stops (Bytes.sortUnique files) g m with hnext | ⟨hahead, htargets, hqueue⟩
    · exact Or.inl hnext
    · exact Or.inr ⟨hqueue, outcome_eq_traverse hm hahead htargets hqueue⟩
  · exact Search.rounds_queue_nil (inv_seed _ entryPoints g) (by simp [seed_eq])
  · have hcount := length_visited_add_length_unused files g entryPoints
    have hfiles := files.toFinset_card_le
    omega

/--
Two files that refer to each other, one of them given twice, with a target and an entry point that are
unknown.
-/
theorem traverse_ends_cyclic :
    let files := [text "b", text "a", text "b"]
    let g : ImportGraph := [(text "a", [text "x", text "b"]), (text "b", [text "a"])]
    ∃ m, Passes files g [text "y", text "a"] m ∧ m.taken = [text "a"] ∧ m.targets = [text "x"] ∧
      m.search.queue = [text "b"] ∧ m.Orderly files g := by
  intro files g
  have hknown : Bytes.sortUnique files = [text "a", text "b"] := by
    apply (Bytes.ascending_sortUnique files).ext (List.pairwise_pair.mpr (by decide))
    intro f
    rw [Bytes.mem_sortUnique]
    simp only [files, List.mem_cons, List.not_mem_nil, or_false]
    tauto
  have hpasses : ∃ m, Passes files g [text "y", text "a"] m ∧ m.taken = [text "a"] ∧ m.targets = [text "x"] ∧
      m.search.queue = [text "b"] := by
    unfold Passes
    rw [hknown]
    have hstart := Relation.ReflTransGen.refl (r := Action [text "a", text "b"] g)
      (a := Moment.start [text "y", text "a"])
    have hfirst := hstart.tail (.enter _ _ _ _ _ _)
    have hsecond := hfirst.tail (.enter _ _ _ _ _ _)
    have hlists : ∀ t, t ∈ [text "b", text "x"] ↔ t ∈ g.targets (text "a") :=
      fun _ => (List.Perm.swap _ _ []).mem_iff
    have htake := hsecond.tail (.take (text "a") [text "a"] [] _ _ _ _ _ hlists)
    exact ⟨_, htake.tail (.look _ _ _ _ _), rfl, rfl, by decide⟩
  obtain ⟨m, hm, htaken, htargets, hqueue⟩ := hpasses
  exact ⟨m, hm, htaken, htargets, hqueue, ((traverse_ends files g _).1 m hm).1⟩

end Whole

end Reachability

end DartReach
