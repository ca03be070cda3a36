import DartReach.Proofs.RunReachability

/-!
# Dead files do not count

A run depends on the shape of the library, on the text of the ignore file and on what the visited files
say. Unused files can be deleted or rewritten without changing the verdict on any other file.
-/

namespace DartReach

set_option autoImplicit false

open Bytes (slash)

/-! ### The ignore file -/

namespace Discovery

/-- Where the ignore file of a root is looked for. -/
def ignorePath (root file : Bytes) : Bytes :=
  if Path.isAbsolute file then file else Path.join root file

/--
What is read as the ignore file of a root; nothing without a name, if the path leads nowhere, or if the
file cannot be read.
-/
def ignoreText (host : Host) (root file : Bytes) : Option Bytes :=
  if file.isEmpty then none
  else
    match host.find (ignorePath root file) with
    | .error .notFound => none
    | _ => (host.read (host.normalize (ignorePath root file))).toOption

theorem rules?_loadIgnoreFile (host : Host) (root file : Bytes) :
    (loadIgnoreFile host root file).rules? =
      match ignoreText host root file with
      | none => some none
      | some content => (Ignore.parse content).map fun rules =>
          some ⟨Path.parent (host.normalize (ignorePath root file)), rules⟩ := by
  simp only [loadIgnoreFile, ignoreText, ignorePath]
  generalize (if Path.isAbsolute file = true then file else Path.join root file) = path
  split
  · rfl
  by_cases hmissing : host.find path = .error .notFound
  · simp only [hmissing, Loaded.rules?]
  · simp only
    cases host.read (host.normalize path) with
    | error e => rfl
    | ok content =>
      simp only [Except.toOption]
      cases Ignore.parse content <;> rfl

theorem rules?_congr {host host' : Host} (hwd : host'.workingDir = host.workingDir)
    {root file : Bytes} (h : ignoreText host' root file = ignoreText host root file) :
    (loadIgnoreFile host' root file).rules? = (loadIgnoreFile host root file).rules? := by
  rw [rules?_loadIgnoreFile, rules?_loadIgnoreFile, h, Host.normalize_congr hwd]

/-! ### Walks through a tree with fewer entries -/

section Fewer

variable {shape shape' : Location → Option Kind} {out : Bytes → Bool → Option Bool} {loc : Location}

theorem Meets.mono (h : ∀ loc k, shape' loc = some k → shape loc = some k)
    (hmeets : Meets shape' out loc) : Meets shape out loc :=
  ⟨hmeets.1, fun k hk => ⟨h _ _ (hmeets.2 k hk).1, (hmeets.2 k hk).2⟩⟩

theorem Breaks.mono (h : ∀ loc k, shape' loc = some k → shape loc = some k)
    (hbreaks : Breaks shape' out loc) : Breaks shape out loc := by
  obtain ⟨hmeets, k, hk, hnone⟩ := hbreaks
  exact ⟨hmeets.mono h, k, h loc k hk, hnone⟩

theorem Finds.mono (h : ∀ loc k, shape' loc = some k → shape loc = some k) {extension : Bytes}
    (hfinds : Finds shape' out extension loc) : Finds shape out extension loc :=
  ⟨hfinds.1.mono h, h loc _ hfinds.2.1, hfinds.2.2⟩

end Fewer

/-- A survey without some of its files is a survey of the library without them. -/
theorem Surveyed.without {host host' : Host} {root : Bytes} {options : Options}
    {patterns : List Glob.Matcher} {ignore : Option Ignore.File} {files dead : List Bytes}
    (h : Surveyed host root options patterns ignore files) (hdead : ∀ p ∈ dead, p ∈ files)
    (hwd : host'.workingDir = host.workingDir)
    (hshape : ∀ loc, host'.shape (host.normalize root) loc =
      if pathBelow (host.normalize root) loc ∈ dead then none
      else host.shape (host.normalize root) loc)
    (hignore : ignoreText host' (host.normalize root) options.ignoreFile =
      ignoreText host (host.normalize root) options.ignoreFile) :
    Surveyed host' root options patterns ignore (files.filter (· ∉ dead)) := by
  have hfewer : ∀ loc k, host'.shape (host.normalize root) loc = some k →
      pathBelow (host.normalize root) loc ∉ dead ∧ host.shape (host.normalize root) loc = some k := by
    intro loc k hk
    rw [hshape] at hk
    split at hk
    · simp at hk
    · rename_i hnot
      exact ⟨hnot, hk⟩
  -- Only files are deleted, so every directory is still there.
  have hdirs : ∀ loc, host.shape (host.normalize root) loc = some .openDir →
      host'.shape (host.normalize root) loc = some .openDir := by
    intro loc hopen
    rw [hshape, if_neg, hopen]
    intro hmem
    obtain ⟨loc', hfinds, heq⟩ := (h.members _).mp (hdead _ hmem)
    have hloc := pathBelow_injective (ordinary_of_shape hopen)
      (ordinary_of_shape hfinds.2.1) heq
    rw [hloc, hfinds.2.1] at hopen
    simp at hopen
  have hnorm := Host.normalize_congr hwd
  refine ⟨h.named, h.compiled, ?_, ?_, h.ascending.filter _, ?_⟩
  · intro k hk hdir
    rw [hnorm] at hk ⊢
    rw [rules?_congr hwd hignore]
    exact h.loaded k (hfewer _ k hk).2 hdir
  · intro loc hbreaks
    rw [hnorm] at hbreaks
    exact h.unbroken loc (hbreaks.mono fun loc k hk => (hfewer loc k hk).2)
  · intro p
    rw [hnorm, List.mem_filter, decide_eq_true_eq, h.members]
    constructor
    · rintro ⟨⟨loc, ⟨hmeets, hleaf, hrest⟩, rfl⟩, hnot⟩
      refine ⟨loc, ⟨⟨hmeets.1, fun k hk => ?_⟩, ?_, hrest⟩, rfl⟩
      · exact ⟨hdirs _ (hmeets.2 k hk).1, (hmeets.2 k hk).2⟩
      · rw [hshape, if_neg hnot, hleaf]
    · rintro ⟨loc, hfinds, rfl⟩
      exact ⟨⟨loc, hfinds.mono fun loc k hk => (hfewer loc k hk).2, rfl⟩,
        (hfewer loc _ hfinds.2.1).1⟩

end Discovery

/-! ### The same search without dead files -/

namespace Reachability

section Kept

variable {host host' : Host} {r : Resolver} {files files' entryPoints : List Bytes}
  (hnormal : ∀ p ∈ files, host.normalize p = p) (hnormal' : ∀ p ∈ files', host'.normalize p = p)
  (hsub : ∀ p ∈ files', p ∈ files)
  (hkeep : ∀ p ∈ (traverse files (r.buildGraph host files).graph entryPoints).visited, p ∈ files')

include hnormal hsub hkeep

theorem known_iff_of_kept {e : Bytes} (he : e ∈ entryPoints) : e ∈ files' ↔ e ∈ files := by
  constructor
  · exact hsub e
  · intro hk
    exact hkeep e ((mem_visited_iff_steps host r hnormal entryPoints).mpr ⟨e, he, hk, .refl⟩)

include hnormal' in
/-- Fewer files are known, but all visited ones still are and refer to the same files. -/
theorem visited_eq_of_kept
    (hsame : ∀ p ∈ (traverse files (r.buildGraph host files).graph entryPoints).visited,
      ∀ q, r.Refers host' p q ↔ r.Refers host p q) :
    (traverse files' (r.buildGraph host' files').graph entryPoints).visited =
      (traverse files (r.buildGraph host files).graph entryPoints).visited := by
  have hmem := @mem_visited_iff_steps host r files hnormal entryPoints
  have hclosed : ∀ p q, p ∈ (traverse files (r.buildGraph host files).graph entryPoints).visited →
      r.Steps host files p q →
        q ∈ (traverse files (r.buildGraph host files).graph entryPoints).visited := by
    intro p q hp hstep
    obtain ⟨e, he, hk, hpath⟩ := hmem.mp hp
    exact hmem.mpr ⟨e, he, hk, hpath.tail hstep⟩
  have hstart : ∀ e ∈ entryPoints, e ∈ files →
      e ∈ (traverse files (r.buildGraph host files).graph entryPoints).visited :=
    fun e he hk => hmem.mpr ⟨e, he, hk, .refl⟩
  refine (ascending_visited _ _ _).ext (ascending_visited _ _ _) fun f => ?_
  rw [mem_visited_iff_steps host' r hnormal' entryPoints]
  constructor
  · rintro ⟨e, he, hk, hpath⟩
    refine (reflTransGen_of_steps (S := r.Steps host files) ?_ (hstart e he (hsub e hk)) hpath).1
    intro p q hp hstep
    have hstep' : r.Steps host files p q := ⟨hsub q hstep.1, (hsame p hp q).mp hstep.2⟩
    exact ⟨hclosed p q hp hstep', hstep'⟩
  · intro hf
    obtain ⟨e, he, hk, hpath⟩ := hmem.mp hf
    refine ⟨e, he, hkeep e (hstart e he hk), ?_⟩
    refine (reflTransGen_of_steps ?_ (hstart e he hk) hpath).2
    intro p q hp hstep
    have hq := hclosed p q hp hstep
    exact ⟨hq, hkeep q hq, (hsame p hp q).mpr hstep.2⟩

end Kept

end Reachability

theorem Resolver.refers_congr {host host' : Host} (hwd : host'.workingDir = host.workingDir)
    (r : Resolver) {p : Bytes} (h : (host'.read p).toOption = (host.read p).toOption) (q : Bytes) :
    r.Refers host' p q ↔ r.Refers host p q := by
  have hread : ∀ content, host'.read p = .ok content ↔ host.read p = .ok content := by
    intro content
    rw [← Host.toOption_read_eq_some, ← Host.toOption_read_eq_some, h]
  have hresolve : r.resolve host' p = r.resolve host p := by
    funext t
    simp only [resolve, Host.normalize_congr hwd]
  simp only [Refers, hread, hresolve]

namespace Analysis

theorem reach_of_kept {host host' : Host} {a : Analysis} {files files' : List Bytes}
    (hwd : host'.workingDir = host.workingDir) (hnormal : ∀ p ∈ files, host.normalize p = p)
    (hnormal' : ∀ p ∈ files', host'.normalize p = p) (hsub : ∀ p ∈ files', p ∈ files)
    (hkeep : ∀ p ∈ (a.resultOf host (host.normalize a.libRoot) files).1.reach.visited, p ∈ files')
    (hread : ∀ p ∈ (a.resultOf host (host.normalize a.libRoot) files).1.reach.visited,
      (host'.read p).toOption = (host.read p).toOption) :
    (a.resultOf host' (host'.normalize a.libRoot) files').1.reach.entries =
        (a.resultOf host (host.normalize a.libRoot) files).1.reach.entries ∧
      (a.resultOf host' (host'.normalize a.libRoot) files').1.reach.missing =
        (a.resultOf host (host.normalize a.libRoot) files).1.reach.missing ∧
      (a.resultOf host' (host'.normalize a.libRoot) files').1.reach.visited =
        (a.resultOf host (host.normalize a.libRoot) files).1.reach.visited := by
  have hresolver : a.resolver host' = a.resolver host := by
    simp only [resolver, Resolver.ofRoot, Host.normalize_congr hwd]
  have hreach := resultOf_reach host' a files'
  rw [hresolver, Host.normalize_congr hwd] at hreach
  have hknown := fun e => @Reachability.known_iff_of_kept host (a.resolver host) files files' _
    hnormal hsub hkeep e
  rw [Host.normalize_congr hwd, hreach, resultOf_reach]
  refine ⟨?_, ?_, ?_⟩
  · rw [Reachability.traverse_entries, Reachability.traverse_entries]
    exact Reachability.found_congr hknown
  · rw [Reachability.traverse_missing, Reachability.traverse_missing]
    exact Reachability.absent_congr hknown
  · exact Reachability.visited_eq_of_kept hnormal hnormal' hsub hkeep fun p hp q =>
      (a.resolver host).refers_congr hwd (hread p hp) q

/--
Unused files do not count. Some of them may be deleted and others rewritten: as long as the library has
the same shape otherwise, and the visited files and the ignore file read as before, a run finds the
remaining files, starts from the same entry points, visits the same files and calls the rest unused.
Without any unused file left nothing is unused. Nothing but a terminal that is too short for the new report
can make the run fail.
-/
theorem run_without_dead_files {host host' : Host} {terminal : Terminal} {a : Analysis} {res : Result}
    {dead : List Bytes} (hterm : a.options.output = AnalysisOptions.terminal)
    (hrun : (a.run host none terminal).result = .ok res)
    (hdead : ∀ p ∈ dead, p ∈ res.reach.unused)
    (hwd : host'.workingDir = host.workingDir)
    (hshape : ∀ loc, host'.shape res.libRoot loc =
      if Discovery.pathBelow res.libRoot loc ∈ dead then none else host.shape res.libRoot loc)
    (hread : ∀ p ∈ res.reach.visited, (host'.read p).toOption = (host.read p).toOption)
    (hignore : Discovery.ignoreText host' res.libRoot a.options.ignoreFile =
      Discovery.ignoreText host res.libRoot a.options.ignoreFile) :
    (terminal.limit = none → ∃ res', (a.run host' none terminal).result = .ok res') ∧
    ∀ res', (a.run host' none terminal).result = .ok res' →
      res'.files = res.files.filter (· ∉ dead) ∧
      res'.reach.entries = res.reach.entries ∧
      res'.reach.missing = res.reach.missing ∧
      res'.reach.visited = res.reach.visited ∧
      res'.reach.unused = res.reach.unused.filter (· ∉ dead) ∧
      ((∀ p ∈ res.reach.unused, p ∈ dead) → res'.reach.unused = []) := by
  obtain ⟨hfault, files, hfiles, rfl, _⟩ := run_ok_iff.mp hrun
  obtain ⟨patterns, ignore, hs⟩ := Discovery.surveyed_of_discover hfiles
  have hroot := host.normalize_normalize a.libRoot
  have hunused := unused_resultOf host a hs.ascending
  have hlive : ∀ p ∈ dead,
      p ∈ files ∧ p ∉ (a.resultOf host (host.normalize a.libRoot) files).1.reach.visited := by
    intro p hp
    have hmem := hdead p hp
    rw [hunused, List.mem_filter, decide_eq_true_eq] at hmem
    exact hmem
  have hs' := hs.without (fun p hp => (hlive p hp).1) hwd (by rw [hroot]; exact hshape)
    (by rw [hroot]; exact hignore)
  rw [← Host.normalize_congr hwd] at hs'
  have hkeep : ∀ p ∈ (a.resultOf host (host.normalize a.libRoot) files).1.reach.visited,
      p ∈ files.filter (· ∉ dead) := by
    intro p hp
    rw [List.mem_filter, decide_eq_true_eq]
    exact ⟨Reachability.mem_files_of_mem_visited _ _ _ hp, fun hd => (hlive p hd).2 hp⟩
  obtain ⟨hentries, hmissing, hvisited⟩ := reach_of_kept hwd hs.normal hs'.normal
    (fun p hp => (List.mem_filter.mp hp).1) hkeep hread
  have hrest := unused_resultOf host' a hs'.ascending
  rw [hvisited, List.filter_filter, List.filter_congr fun p _ => Bool.and_comm _ _,
    ← List.filter_filter, ← hunused] at hrest
  constructor
  · intro hlimit
    exact ⟨_, run_ok_iff.mpr ⟨hfault, _, Discovery.discover_of_surveyed hs', rfl,
      deliver_ok_iff.mpr (arrives_of_endless hterm hlimit _)⟩⟩
  · intro res' hrun'
    obtain ⟨_, files', hfiles', rfl, _⟩ := run_ok_iff.mp hrun'
    rw [Discovery.discover_of_surveyed hs', Except.ok.injEq] at hfiles'
    subst hfiles'
    refine ⟨rfl, hentries, hmissing, hvisited, hrest, ?_⟩
    intro hall
    rw [hrest, List.filter_eq_nil_iff]
    intro p hp
    simpa using hall p hp

/-! ### A library as an example -/

section Sample

open Discovery

theorem visited_sample {p : Bytes}
    (h : p ∈ (sampleAnalysis.resultOf sampleHost (text "/lib") sampleFiles).1.reach.visited) :
    p = text "/lib/main.dart" ∨ p = text "/lib/src/used.dart" := by
  have hnormal : ∀ p ∈ sampleFiles, sampleHost.normalize p = p := by decide
  have hmain : ∀ t ∈ Declaration.targets (text "import 'src/used.dart';"),
      (sampleAnalysis.resolver sampleHost).resolve sampleHost (text "/lib/main.dart") t =
        some (text "/lib/src/used.dart") := by decide +kernel
  have hused : ∀ t ∈ Declaration.targets (text "import 'package:app/main.dart';"),
      (sampleAnalysis.resolver sampleHost).resolve sampleHost (text "/lib/src/used.dart") t =
        some (text "/lib/main.dart") := by decide +kernel
  obtain ⟨e, he, _, hpath⟩ :=
    (Reachability.mem_visited_iff_steps sampleHost (sampleAnalysis.resolver sampleHost) hnormal _).mp h
  refine (Reachability.reflTransGen_of_steps
    (S := (sampleAnalysis.resolver sampleHost).Steps sampleHost sampleFiles)
    (P := fun p => p = text "/lib/main.dart" ∨ p = text "/lib/src/used.dart") ?_ ?_ hpath).1
  · rintro p q (rfl | rfl) hstep
    · obtain ⟨content, hread, _, t, ht, hq⟩ := hstep.2
      cases hread
      rw [hmain t ht, Option.some.injEq] at hq
      exact ⟨Or.inr hq.symm, hstep⟩
    · obtain ⟨content, hread, _, t, ht, hq⟩ := hstep.2
      cases hread
      rw [hused t ht, Option.some.injEq] at hq
      exact ⟨Or.inl hq.symm, hstep⟩
  · exact Or.inl (List.mem_singleton.mp he)

def prunedHost : Host := sampleHost.remove (text "/lib/dead.dart")

theorem shape_pruned (loc : Location) :
    prunedHost.shape (text "/lib") loc =
      if pathBelow (text "/lib") loc ∈ [text "/lib/dead.dart"] then none
      else sampleHost.shape (text "/lib") loc := by
  by_cases hloc : loc ∈ sampleLibrary.places
  · have hplaces : ∀ loc ∈ sampleLibrary.places, prunedHost.shape (text "/lib") loc =
        if pathBelow (text "/lib") loc ∈ [text "/lib/dead.dart"] then none
        else sampleHost.shape (text "/lib") loc := by
      decide +kernel
    exact hplaces loc hloc
  · have hstat : sampleHost.stat (text "/lib") = .ok sampleLibrary := rfl
    have hstat' : prunedHost.stat (text "/lib") =
        .ok (sampleLibrary.mapEntries (Node.dropEntry (text "dead.dart"))) := rfl
    have hfewer : ∀ loc ∈ (sampleLibrary.mapEntries (Node.dropEntry (text "dead.dart"))).places,
        loc ∈ sampleLibrary.places := by
      decide +kernel
    rw [Host.shape_of_stat hstat, Host.shape_of_stat hstat', Node.shape_of_not_mem_places hloc,
      Node.shape_of_not_mem_places fun h => hloc (hfewer loc h), ite_self]

theorem run_without_dead_files_sample :
    ∃ res res', (sampleAnalysis.run sampleHost none (.endless false)).result = .ok res ∧
      (sampleAnalysis.run prunedHost none (.endless false)).result = .ok res' ∧
      text "/lib/dead.dart" ∈ res.reach.unused ∧ text "/lib/dead.dart" ∉ res'.files ∧
      res'.reach.visited = res.reach.visited := by
  have hasc : Bytes.Ascending sampleFiles := by
    unfold Bytes.Ascending
    decide
  have hunused : text "/lib/dead.dart" ∈
      (sampleAnalysis.resultOf sampleHost (text "/lib") sampleFiles).1.reach.unused := by
    refine (unused_resultOf sampleHost sampleAnalysis hasc).symm ▸ List.mem_filter.mpr ⟨by decide, ?_⟩
    rw [decide_eq_true_eq]
    intro h
    rcases visited_sample h with h | h <;> revert h <;> decide
  have hread : ∀ p ∈ (sampleAnalysis.resultOf sampleHost (text "/lib") sampleFiles).1.reach.visited,
      (prunedHost.read p).toOption =
        (sampleHost.read p).toOption := by
    intro p hp
    rcases visited_sample hp with rfl | rfl <;> decide +kernel
  have hignore : ignoreText prunedHost (text "/lib") (text ".ignore") =
      ignoreText sampleHost (text "/lib") (text ".ignore") := by
    decide +kernel
  have hwd : prunedHost.workingDir = sampleHost.workingDir := by
    decide +kernel
  obtain ⟨hsucceeds, hresult⟩ := run_without_dead_files rfl run_sample
    (List.forall_mem_singleton.mpr hunused) hwd shape_pruned hread hignore
  obtain ⟨res', hrun'⟩ := hsucceeds rfl
  obtain ⟨hfiles', _, _, hvisited', _⟩ := hresult res' hrun'
  refine ⟨_, res', run_sample, hrun', hunused, ?_, hvisited'⟩
  rw [hfiles', List.mem_filter]
  simp

end Sample

end Analysis

end DartReach
