import DartReach.Proofs.RunReachability

/-!
# More entry points and fewer exclusions

An exclude pattern can only take files away, and with them the chains that lead through them. So a run
with more entry points and fewer patterns finds all files of the other run, reads the same in them and
visits all that the other run visits. Patterns and entry points count as sets.
-/

namespace DartReach

set_option autoImplicit false

/-! ### Walks with fewer exclusions -/

namespace Discovery

section Keeps

variable {shape : Location → Option Kind} {out out' : Bytes → Bool → Option Bool} {loc : Location}
  (hkeeps : ∀ rel isDir, out rel isDir = some false → out' rel isDir = some false)

include hkeeps

theorem Meets.widen (h : Meets shape out loc) : Meets shape out' loc := by
  refine ⟨h.1, ?_⟩
  intro k hk
  obtain ⟨hopen, hkept⟩ := h.2 k hk
  exact ⟨hopen, hkept.imp id (hkeeps _ _)⟩

theorem Finds.widen {extension : Bytes} (h : Finds shape out extension loc) :
    Finds shape out' extension loc := by
  obtain ⟨hmeets, hleaf, hkept, hname⟩ := h
  exact ⟨hmeets.widen hkeeps, hleaf, hkeeps _ _ hkept, hname⟩

end Keeps

theorem leavesOut_of_fewer {patterns patterns' : List Glob.Matcher} {ignore : Option Ignore.File}
    {root : Bytes} (h : ∀ m ∈ patterns', m ∈ patterns) (rel : Bytes) (isDir : Bool)
    (hkept : leavesOut patterns ignore root rel isDir = some false) :
    leavesOut patterns' ignore root rel isDir = some false := by
  rw [leavesOut_eq_false_iff] at hkept ⊢
  refine ⟨?_, hkept.2⟩
  intro m hm
  exact hkept.1 m (h m hm)

/-- With fewer patterns nothing is lost. -/
theorem Surveyed.subset {host : Host} {root : Bytes} {options options' : Options}
    {patterns patterns' : List Glob.Matcher} {ignore ignore' : Option Ignore.File}
    {files files' : List Bytes} (h : Surveyed host root options patterns ignore files)
    (h' : Surveyed host root options' patterns' ignore' files')
    (hextension : options'.extension = options.extension)
    (hignore : options'.ignoreFile = options.ignoreFile)
    (hexclude : ∀ p ∈ options'.exclude, p ∈ options.exclude) : ∀ p ∈ files, p ∈ files' := by
  intro p hp
  obtain ⟨loc, hfinds, rfl⟩ := (h.members p).mp hp
  -- There is a file, so the root was listed and the ignore file was looked for.
  have hopen := Walk.meets_open hfinds.1
  have hload := h.loaded _ hopen rfl
  have hload' := h'.loaded _ hopen rfl
  rw [hignore, hload, Option.some.injEq] at hload'
  subst hload'
  have hpatterns : ∀ m ∈ patterns', m ∈ patterns := by
    intro m hm
    obtain ⟨pattern, hpattern, hm⟩ := (mem_compileAll_iff h'.compiled).mp hm
    exact (mem_compileAll_iff h.compiled).mpr ⟨pattern, hexclude pattern hpattern, hm⟩
  apply (h'.members _).mpr
  rw [hextension]
  exact ⟨loc, hfinds.widen (leavesOut_of_fewer hpatterns), rfl⟩

end Discovery

/-! ### Searches with more files and entry points -/

namespace Reachability

theorem visited_mono (host : Host) (r : Resolver) {files files' entryPoints entryPoints' : List Bytes}
    (hnormal : ∀ p ∈ files, host.normalize p = p) (hnormal' : ∀ p ∈ files', host.normalize p = p)
    (hfiles : ∀ p ∈ files, p ∈ files') (hentries : ∀ e ∈ entryPoints, e ∈ entryPoints') :
    ∀ f ∈ (traverse files (r.buildGraph host files).graph entryPoints).visited,
      f ∈ (traverse files' (r.buildGraph host files').graph entryPoints').visited := by
  intro f hf
  obtain ⟨e, he, hknown, hpath⟩ := (mem_visited_iff_steps host r hnormal entryPoints).mp hf
  apply (mem_visited_iff_steps host r hnormal' entryPoints').mpr
  refine ⟨e, hentries e he, hfiles e hknown, ?_⟩
  refine Relation.ReflTransGen.mono ?_ _ _ hpath
  intro p q hstep
  exact ⟨hfiles q hstep.1, hstep.2⟩

end Reachability

namespace Analysis

/-- The same analysis with other entry points and other exclude patterns. -/
def rescoped (a : Analysis) (entryPoints exclude : OptionalList) : Analysis :=
  { a with options := { a.options with entryPoints := entryPoints, exclude := exclude } }

theorem entryPaths_mono {names names' : List Bytes} (root : Bytes) (h : ∀ n ∈ names, n ∈ names') :
    ∀ e ∈ entryPaths root names, e ∈ entryPaths root names' := by
  intro e he
  obtain ⟨name, hname, heq⟩ := mem_entryPaths.mp he
  exact mem_entryPaths.mpr ⟨name, h name hname, heq⟩

/-- A file that is found in both runs has the same row in both. -/
theorem graph_of_wider {host : Host} {a : Analysis} {entryPoints exclude : OptionalList}
    {files files' : List Bytes}
    {patterns patterns' : List Glob.Matcher} {ignore ignore' : Option Ignore.File}
    (hs : Discovery.Surveyed host (host.normalize a.libRoot) a.search patterns ignore files)
    (hs' : Discovery.Surveyed host (host.normalize a.libRoot) (a.rescoped entryPoints exclude).search
      patterns' ignore' files') (hfiles : ∀ p ∈ files, p ∈ files') :
    ((a.rescoped entryPoints exclude).resultOf host (host.normalize a.libRoot) files').1.graph.filter
        (fun row => row.1 ∈ files) =
      (a.resultOf host (host.normalize a.libRoot) files).1.graph := by
  have hgraph := (a.resolver host).graph_of_ascending host hs.normal hs.ascending
  have hgraph' := (a.resolver host).graph_of_ascending host hs'.normal hs'.ascending
  have hrows := @ImportGraph.filter_rows (fun k => ((a.resolver host).resolveFile host k).imports)
    files' (fun k => decide (k ∈ files))
  rw [← hgraph', ← hs.ascending.eq_filter hs'.ascending hfiles, ← hgraph] at hrows
  exact hrows

/--
A run with more entry points and fewer exclude patterns loses no live file: it finds all files of the
other run, has the same row for each of them and visits all that the other run visits. With the same
patterns it finds the same files and calls no other file unused, and with the same entry points as well
both runs agree, in whatever order and however often patterns and entry points are given.
-/
theorem run_wider {host : Host} {patience patience' : Discovery.Patience} {terminal terminal' : Terminal}
    {a : Analysis} {entryPoints exclude : OptionalList} {res res' : Result}
    (hrun : (a.run host patience terminal).result = .ok res)
    (hrun' : ((a.rescoped entryPoints exclude).run host patience' terminal').result = .ok res')
    (hentries : ∀ e ∈ a.options.entryPoints.items, e ∈ entryPoints.items)
    (hexclude : ∀ p ∈ exclude.items, p ∈ a.options.exclude.items) :
    res.files.Sublist res'.files ∧
    res'.graph.filter (fun row => row.1 ∈ res.files) = res.graph ∧
    (∀ f ∈ res.reach.visited, f ∈ res'.reach.visited) ∧
    ((∀ p ∈ a.options.exclude.items, p ∈ exclude.items) →
      res'.files = res.files ∧ (∀ f ∈ res'.reach.unused, f ∈ res.reach.unused) ∧
      ((∀ e ∈ entryPoints.items, e ∈ a.options.entryPoints.items) →
        res'.reach.visited = res.reach.visited ∧ res'.reach.unused = res.reach.unused)) := by
  obtain ⟨-, files, hfiles, rfl, -⟩ := run_ok_iff.mp hrun
  obtain ⟨-, files', hfiles', rfl, -⟩ := run_ok_iff.mp hrun'
  obtain ⟨patterns, ignore, hs⟩ := Discovery.surveyed_of_discover hfiles
  obtain ⟨patterns', ignore', hs'⟩ := Discovery.surveyed_of_discover hfiles'
  have hsub : ∀ p ∈ files, p ∈ files' := hs.subset hs' rfl rfl hexclude
  have hvisited : ∀ f ∈ (a.resultOf host (host.normalize a.libRoot) files).1.reach.visited,
      f ∈ ((a.rescoped entryPoints exclude).resultOf host
        (host.normalize a.libRoot) files').1.reach.visited :=
    Reachability.visited_mono host (a.resolver host) hs.normal hs'.normal hsub
      (entryPaths_mono _ hentries)
  refine ⟨?_, graph_of_wider hs hs' hsub, hvisited, ?_⟩
  · have hfilter := hs.ascending.eq_filter hs'.ascending hsub
    change files.Sublist files'
    rw [hfilter]
    exact List.filter_sublist
  · intro hback
    have hsub' : ∀ p ∈ files', p ∈ files := hs'.subset hs rfl rfl hback
    have heq : files' = files := hs'.ascending.ext hs.ascending fun p => ⟨hsub' p, hsub p⟩
    subst heq
    have hunused := unused_resultOf host a hs.ascending
    have hunused' := unused_resultOf host (a.rescoped entryPoints exclude) hs'.ascending
    refine ⟨rfl, ?_, ?_⟩
    · intro f hf
      rw [hunused', List.mem_filter, decide_eq_true_eq] at hf
      rw [hunused, List.mem_filter, decide_eq_true_eq]
      exact ⟨hf.1, fun hmem => hf.2 (hvisited f hmem)⟩
    · intro hsame
      have hvisited' := Reachability.visited_mono host (a.resolver host) hs'.normal hs.normal hsub'
        (entryPaths_mono (host.normalize a.libRoot) hsame)
      have hall : ∀ f, f ∈ ((a.rescoped entryPoints exclude).resultOf host
            (host.normalize a.libRoot) files').1.reach.visited ↔
          f ∈ (a.resultOf host (host.normalize a.libRoot) files').1.reach.visited :=
        fun f => ⟨hvisited' f, hvisited f⟩
      refine ⟨(Reachability.ascending_visited _ _ _).ext (Reachability.ascending_visited _ _ _) hall, ?_⟩
      rw [hunused', hunused]
      exact List.filter_congr fun f _ => decide_eq_decide.mpr (not_congr (hall f))

section Sample

open Discovery (sampleHost)

def widerAnalysis : Analysis :=
  sampleAnalysis.rescoped (some [text "dead.dart", text "main.dart", text "main.dart"]) none

def widerFiles : List Bytes :=
  [text "/lib/api.dart", text "/lib/dead.dart", text "/lib/main.dart", text "/lib/main.g.dart",
    text "/lib/src/used.dart"]

theorem run_widerAnalysis :
    (widerAnalysis.run sampleHost none (.endless false)).result =
      .ok (widerAnalysis.resultOf sampleHost (text "/lib") widerFiles).1 := by
  have hfiles : (Discovery.discover sampleHost none (text "/lib")
      ⟨text ".dart", [], text ".ignore"⟩).files = .ok widerFiles := by
    have hwalks : Discovery.Walks sampleHost (text "/lib") ⟨text ".dart", [], text ".ignore"⟩ _ :=
      ⟨Discovery.sampleLibrary, [], _, rfl, rfl, rfl, Discovery.loaded_sample, rfl⟩
    apply Discovery.discover_of_ascending (by decide) hwalks
    · decide +kernel
    · decide +kernel
    · unfold Bytes.Ascending
      decide +kernel
  rw [run_ok_iff]
  exact ⟨by decide, widerFiles, hfiles, rfl, deliver_ok_iff.mpr (arrives_of_endless rfl rfl _)⟩

theorem run_wider_sample :
    ∃ res res', (sampleAnalysis.run sampleHost none (.endless false)).result = .ok res ∧
      (widerAnalysis.run sampleHost none (.endless false)).result = .ok res' ∧
      res.files.Sublist res'.files ∧ res.files ≠ res'.files ∧
      text "/lib/main.dart" ∈ res'.reach.visited := by
  have hentries : ∀ e ∈ sampleAnalysis.options.entryPoints.items,
      e ∈ [text "dead.dart", text "main.dart", text "main.dart"] := by decide
  have hmain : text "/lib/main.dart" ∈
      (sampleAnalysis.resultOf sampleHost (text "/lib") sampleFiles).1.reach.visited := by
    apply (Reachability.mem_visited_iff _ _ _).mpr
    exact ⟨text "/lib/main.dart", List.mem_singleton.mpr rfl, by decide, .refl⟩
  obtain ⟨hsub, -, hvisited, -⟩ :=
    run_wider run_sample run_widerAnalysis hentries (by simp [OptionalList.items])
  exact ⟨_, _, run_sample, run_widerAnalysis, hsub, by decide, hvisited _ hmain⟩

end Sample

end Analysis

end DartReach
