import DartReach.Proofs.Delivery
import DartReach.Proofs.LibraryGraph

/-!
# What a run reaches

Discovery, graph, resolver and entry points meet in the spelling of paths only. All of them write
absolute normal forms, so the rows of the graph are the declarations of the discovered files, and a run
visits the files that declarations lead to from the entry points.
-/

namespace DartReach

set_option autoImplicit false

namespace Resolver

variable (host : Host) (r : Resolver)

/-- A declaration in file `p` refers to the discovered file `q`. -/
def Steps (files : List Bytes) (p q : Bytes) : Prop := q ∈ files ∧ r.Refers host p q

end Resolver

namespace Reachability

open Relation (ReflTransGen)

/-- A path is followed step by step by another relation, from start to end inside an invariant. -/
theorem reflTransGen_of_steps {R S : Bytes → Bytes → Prop} {P : Bytes → Prop}
    (hstep : ∀ p q, P p → R p q → P q ∧ S p q) {e f : Bytes} (he : P e)
    (h : ReflTransGen R e f) : P f ∧ ReflTransGen S e f := by
  induction h with
  | refl => exact ⟨he, .refl⟩
  | tail _ hlast ih =>
    obtain ⟨hp, hs⟩ := hstep _ _ ih.1 hlast
    exact ⟨hp, ih.2.tail hs⟩

theorem mem_visited_iff_steps (host : Host) (r : Resolver) {files : List Bytes}
    (hnormal : ∀ p ∈ files, host.normalize p = p) (entryPoints : List Bytes) {f : Bytes} :
    f ∈ (traverse files (r.buildGraph host files).graph entryPoints).visited ↔
      ∃ e ∈ entryPoints, e ∈ files ∧ ReflTransGen (r.Steps host files) e f := by
  rw [mem_visited_iff]
  refine exists_congr fun e => and_congr_right fun _ => and_congr_right fun he => ?_
  constructor
  · intro h
    refine (reflTransGen_of_steps (P := (· ∈ files)) ?_ he h).2
    intro p q hp hlead
    exact ⟨hlead.1, hlead.1, (r.mem_targets_iff host hnormal hp).mp hlead.2⟩
  · intro h
    refine (reflTransGen_of_steps (P := (· ∈ files)) ?_ he h).2
    intro p q hp hstep
    exact ⟨hstep.1, hstep.1, (r.mem_targets_iff host hnormal hp).mpr hstep.2⟩

theorem steps_iff_chain (host : Host) (r : Resolver) (files : List Bytes) {e f : Bytes} :
    e ∈ files ∧ ReflTransGen (r.Steps host files) e f ↔
      ∃ chain : List Bytes, (∀ p ∈ chain, p ∈ files) ∧ chain.IsChain (r.Refers host) ∧
        chain.head? = some e ∧ chain.getLast? = some f :=
  reflTransGen_iff_chain files (r.Refers host)

end Reachability

namespace Analysis

/-! ### Runs -/

/-- What an analysis looks for. -/
def search (a : Analysis) : Discovery.Options :=
  ⟨a.options.extension, a.options.exclude.items, a.options.ignoreFile⟩

theorem run_ok_iff {host : Host} {patience : Discovery.Patience} {terminal : Terminal} {a : Analysis}
    {res : Result} :
    (a.run host patience terminal).result = .ok res ↔
      a.fault? = none ∧ ∃ files,
        (Discovery.discover host patience (host.normalize a.libRoot) a.search).files = .ok files ∧
          res = (a.resultOf host (host.normalize a.libRoot) files).1 ∧
            (deliver host terminal a.options res).2.2 = .ok () := by
  rw [run]
  cases hfault : a.fault? with
  | some e => simp
  | none =>
    simp only [true_and, analyse, search]
    split
    · rename_i e hfiles
      simp [hfiles]
    · rename_i files hfiles
      simp only [hfiles, Except.ok.injEq, exists_eq_left']
      split
      · rename_i e hdeliver
        constructor
        · intro h
          simp at h
        · rintro ⟨rfl, h⟩
          rw [hdeliver] at h
          simp at h
      · rename_i hdeliver
        constructor
        · intro h
          cases h
          exact ⟨rfl, by rw [hdeliver]⟩
        · rintro ⟨rfl, _⟩
          rfl

theorem mem_entryPaths {root : Bytes} {names : List Bytes} {e : Bytes} :
    e ∈ entryPaths root names ↔
      ∃ name ∈ names, e = if Path.isAbsolute name then Path.clean name else Path.join root name := by
  simp only [entryPaths, List.mem_map, eq_comm]

/-- The resolver of an analysis. -/
def resolver (host : Host) (a : Analysis) : Resolver :=
  Resolver.ofRoot host (host.normalize a.libRoot) a.packageName a.options.builtinPrefixes.items

theorem resultOf_reach (host : Host) (a : Analysis) (files : List Bytes) :
    (a.resultOf host (host.normalize a.libRoot) files).1.reach =
      Reachability.traverse files ((a.resolver host).buildGraph host files).graph
        (entryPaths (host.normalize a.libRoot) a.options.entryPoints.items) := rfl

theorem unused_resultOf (host : Host) (a : Analysis) {files : List Bytes}
    (h : Bytes.Ascending files) :
    (a.resultOf host (host.normalize a.libRoot) files).1.reach.unused =
      files.filter
        (· ∉ (a.resultOf host (host.normalize a.libRoot) files).1.reach.visited) := by
  rw [resultOf_reach, Reachability.traverse_unused, h.sortUnique_eq]

/--
A successful run visits exactly those discovered files which a chain of discovered files leads to: the
chain starts at an entry point, and each of its files is text with a declaration that refers to the
next. The unused files are the others.
-/
theorem run_visits_exactly {host : Host} {patience : Discovery.Patience} {terminal : Terminal}
    {a : Analysis} {res : Result} (h : (a.run host patience terminal).result = .ok res) :
    (∀ f, f ∈ res.reach.visited ↔ ∃ chain : List Bytes,
      (∀ p ∈ chain, p ∈ res.files) ∧
      chain.IsChain (Resolver.Refers host (Resolver.ofRoot host (host.normalize a.libRoot)
        a.packageName a.options.builtinPrefixes.items)) ∧
      (∃ name ∈ a.options.entryPoints.items, chain.head? = some
        (if Path.isAbsolute name then Path.clean name
          else Path.join (host.normalize a.libRoot) name)) ∧
      chain.getLast? = some f) ∧
    res.reach.unused = res.files.filter (· ∉ res.reach.visited) := by
  obtain ⟨_, files, hfiles, rfl, _⟩ := run_ok_iff.mp h
  obtain ⟨patterns, ignore, hs⟩ := Discovery.surveyed_of_discover hfiles
  constructor
  · intro f
    rw [resultOf_reach, Reachability.mem_visited_iff_steps host _ hs.normal]
    constructor
    · rintro ⟨e, he, hpath⟩
      obtain ⟨name, hname, rfl⟩ := mem_entryPaths.mp he
      obtain ⟨chain, hmem, hchain, hhead, hlast⟩ :=
        (Reachability.steps_iff_chain host _ files).mp hpath
      exact ⟨chain, hmem, hchain, ⟨name, hname, hhead⟩, hlast⟩
    · rintro ⟨chain, hmem, hchain, ⟨name, hname, hhead⟩, hlast⟩
      exact ⟨_, mem_entryPaths.mpr ⟨name, hname, rfl⟩,
        (Reachability.steps_iff_chain host _ files).mpr ⟨chain, hmem, hchain, hhead, hlast⟩⟩
  · exact unused_resultOf host a hs.ascending

/-! ### A library as an example -/

section Sample

open Discovery (sampleHost sampleOptions)

def sampleAnalysis : Analysis where
  libRoot := text "lib"
  packageName := text "app"
  options :=
    { AnalysisOptions.standard with
      entryPoints := some [text "main.dart"]
      exclude := some [text "*.g.dart"]
      ignoreFile := text ".ignore"
      output := AnalysisOptions.terminal }

def sampleFiles : List Bytes :=
  [text "/lib/api.dart", text "/lib/dead.dart", text "/lib/main.dart", text "/lib/src/used.dart"]

theorem discover_sample :
    (Discovery.discover sampleHost none (text "/lib") sampleOptions).files = .ok sampleFiles := by
  have hwalks : Discovery.Walks sampleHost (text "/lib") sampleOptions _ :=
    ⟨Discovery.sampleLibrary, _, _, rfl, rfl, Discovery.compileAll_sample, Discovery.loaded_sample, rfl⟩
  apply Discovery.discover_of_ascending (by decide) hwalks
  · decide +kernel
  · decide +kernel
  · unfold Bytes.Ascending
    decide +kernel

theorem run_sample :
    (sampleAnalysis.run sampleHost none (.endless false)).result =
      .ok (sampleAnalysis.resultOf sampleHost (text "/lib") sampleFiles).1 := by
  rw [run_ok_iff]
  exact ⟨by decide, sampleFiles, discover_sample, rfl, deliver_ok_iff.mpr (arrives_of_endless rfl rfl _)⟩

theorem run_visits_exactly_sample :
    ∃ res, (sampleAnalysis.run sampleHost none (.endless false)).result = .ok res ∧
      text "/lib/src/used.dart" ∈ res.reach.visited := by
  refine ⟨_, run_sample, ((run_visits_exactly run_sample).1 _).mpr
    ⟨[text "/lib/main.dart", text "/lib/src/used.dart"], ?_, ?_, ⟨text "main.dart", ?_, rfl⟩, rfl⟩⟩
  · change ∀ p ∈ _, p ∈ sampleFiles
    decide
  · refine .cons_cons ⟨text "import 'src/used.dart';", rfl, by decide +kernel,
      text "src/used.dart", ?_, rfl⟩ (.singleton _)
    decide +kernel
  · exact List.mem_singleton.mpr rfl

end Sample

end Analysis

end DartReach
