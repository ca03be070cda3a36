import DartReach.Proofs.DeadFiles
import DartReach.Proofs.FileWriting
import DartReach.Proofs.RunFailure
import DartReach.Proofs.SearchOrder

/-!
# Running an analysis again

The report is the only thing a run writes. A result is made from the listings of the library, from what its
files and the ignore file say and from their sizes: if the report changed none of these, a second run comes to
the same result, opens the same file and stores the same bytes in it.
-/

namespace DartReach

set_option autoImplicit false

theorem Resolver.resolveFile_congr {host host' : Host} (r : Resolver) {p : Bytes}
    (hwd : host'.workingDir = host.workingDir) (hnormal : host.normalize p = p)
    (hread : host'.read p = host.read p) : r.resolveFile host' p = r.resolveFile host p := by
  have hresolve : ∀ source, r.resolve host' source = r.resolve host source := by
    intro source
    funext target
    simp only [resolve, Host.normalize_congr hwd]
  simp only [resolveFile, Host.readSource, Host.normalize_congr hwd, hnormal, hread, resolveContent,
    hresolve]

namespace Analysis

variable {host host' : Host} {terminal : Terminal} {options : AnalysisOptions} {a : Analysis} {res : Result}

/-! ### What a run writes -/

theorem deliver_of_terminal (hterm : options.output = AnalysisOptions.terminal)
    (h : (deliver host terminal options res).2.2 = .ok ()) :
    deliver host terminal options res = (host, reportText options.format res, .ok ()) := by
  cases deliver_ok_iff.mp h with
  | shown _ room => exact deliver_terminal hterm room
  | saved isFile => exact absurd hterm isFile

theorem open_of_deliver (hterm : options.output ≠ AnalysisOptions.terminal)
    (h : (deliver host terminal options res).2.2 = .ok ()) :
    ∃ slot, host.files.openForWriting host.workingDir options.output = .ok slot ∧
      (host.medium slot).fault? (reportText options.format res) = none := by
  cases deliver_ok_iff.mp h with
  | shown isTerminal => exact absurd isTerminal hterm
  | saved _ slot opened created sound => exact ⟨slot, (Host.create_eq_ok_iff.mp created).1, sound⟩

theorem deliver_of_open {slot : Slot} (hterm : options.output ≠ AnalysisOptions.terminal)
    (hopen : host.files.openForWriting host.workingDir options.output = .ok slot)
    (hsound : (host.medium slot).fault? (reportText options.format res) = none) :
    deliver host terminal options res =
      ({ host with files := host.files.store slot (reportText options.format res) },
        terminal.shows (summary host terminal.color (figures options.output res)), .ok ()) := by
  have hcreate : host.create options.output = .ok (slot, _) := Host.create_eq_ok_iff.mpr ⟨hopen, rfl⟩
  have hsave := @saveReport_of_create _ _ _ res _ hcreate
  rw [hsound, Host.fill, Medium.kept_of_sound hsound] at hsave
  rw [deliver, if_neg hterm, hsave]
  rfl

/-- The output leads to the report or to a device, and a delivery changes nothing else. -/
theorem sameBut_deliver (hterm : options.output ≠ AnalysisOptions.terminal)
    (h : (deliver host terminal options res).2.2 = .ok ()) :
    ∃ place node, (deliver host terminal options res).1.find options.output = .ok (place, node) ∧
      (node = .file (reportText options.format res) .full ∨ ∃ kind, node = .device kind) ∧
      host.SameBut place (deliver host terminal options res).1 := by
  obtain ⟨slot, hopen, hsound⟩ := open_of_deliver hterm h
  rw [deliver_of_open hterm hopen hsound]
  cases slot with
  | device kind =>
    obtain ⟨place, hfind⟩ := FileSystem.find_of_open_device hopen
    exact ⟨place, .device kind, hfind, .inr ⟨kind, rfl⟩, rfl, rfl, rfl, fun _ _ => rfl⟩
  | file dir name =>
    exact ⟨dir ++ [name], _, FileSystem.find_store hopen _, .inl rfl, rfl, rfl, rfl,
      fun loc hne => FileSystem.own_get?_store hopen _ hne⟩

/-- A report that is delivered once more finds the same slot, and its own text there. -/
theorem deliver_deliver (h : (deliver host terminal options res).2.2 = .ok ()) :
    deliver (deliver host terminal options res).1 terminal options res =
      deliver host terminal options res := by
  by_cases hterm : options.output = AnalysisOptions.terminal
  · have hsame : (deliver host terminal options res).1 = host := by
      rw [deliver_of_terminal hterm h]
    rw [hsame]
  · obtain ⟨slot, hopen, hsound⟩ := open_of_deliver hterm h
    have hagain := @deliver_of_open
      { host with files := host.files.store slot (reportText options.format res) } terminal options res
      slot hterm (FileSystem.openForWriting_store hopen _) hsound
    rw [deliver_of_open hterm hopen hsound, hagain, FileSystem.store_store]
    rfl

theorem run_delivers {patience : Discovery.Patience}
    (h : (a.run host patience terminal).result = .ok res) :
    (a.run host patience terminal).host = (deliver host terminal a.options res).1 ∧
      (a.run host patience terminal).stdout = (deliver host terminal a.options res).2.1 := by
  obtain ⟨_, files, hfiles, hres, _⟩ := run_ok_iff.mp h
  rcases run_cases host patience terminal a with
    ⟨e, _, hrun⟩ | ⟨_, e, _, _, _, hresult⟩ | ⟨_, files', hfiles', made, hmade, hhost, hstdout, _⟩
  · rw [hrun] at h
    cases h
  · rw [h] at hresult
    cases hresult
  · rw [hfiles] at hfiles'
    cases hfiles'
    rw [hres, ← hmade]
    exact ⟨hhost, hstdout⟩

/-! ### What a run reads -/

/-- All that a run reads of its library is the same on two hosts. -/
structure ReadsSame (host host' : Host) (root ignoreFile : Bytes) (files : List Bytes) : Prop where
  listings : ∀ loc, host'.shape root loc = host.shape root loc
  sizes : ∀ p ∈ files, host'.fileSize p = host.fileSize p
  contents : ∀ p ∈ files, host'.read p = host.read p
  ignoring : Discovery.ignoreText host' root ignoreFile = Discovery.ignoreText host root ignoreFile

theorem resultOf_congr {root : Bytes} {files : List Bytes}
    (hwd : host'.workingDir = host.workingDir) (hnormal : ∀ p ∈ files, host.normalize p = p)
    (hsizes : ∀ p ∈ files, host'.fileSize p = host.fileSize p)
    (hcontents : ∀ p ∈ files, host'.read p = host.read p) :
    a.resultOf host' root files = a.resultOf host root files := by
  have hresolver : Resolver.ofRoot host' root = Resolver.ofRoot host root := by
    funext name builtins
    rw [Resolver.ofRoot, Resolver.ofRoot, Host.normalize_congr hwd]
  have hgraph : ∀ r : Resolver, r.buildGraph host' files = r.buildGraph host files := by
    intro r
    have hfiles : files.map (r.resolveFile host') = files.map (r.resolveFile host) :=
      List.map_congr_left fun p hp => r.resolveFile_congr hwd (hnormal p hp) (hcontents p hp)
    rw [Resolver.buildGraph, Resolver.buildGraph, hfiles]
  rw [resultOf, resultOf, hresolver, List.map_congr_left hsizes]
  simp only [hgraph]

theorem ReadsSame.discover {root : Bytes} {search : Discovery.Options} {files : List Bytes}
    (h : ReadsSame host host' (host.normalize root) search.ignoreFile files)
    (hwd : host'.workingDir = host.workingDir)
    (hfiles : (Discovery.discover host none root search).files = .ok files) :
    (Discovery.discover host' none root search).files = .ok files := by
  obtain ⟨patterns, ignore, hs⟩ := Discovery.surveyed_of_discover hfiles
  -- No file is missing on the second host.
  have hsurvey : Discovery.Surveyed host' root search patterns ignore
      (files.filter (· ∉ ([] : List Bytes))) :=
    hs.without (by simp) hwd (fun loc => by simpa using h.listings loc) h.ignoring
  rw [List.filter_eq_self.mpr (by simp)] at hsurvey
  exact Discovery.discover_of_surveyed hsurvey

/-- The result of a run depends on nothing but what the run reads. -/
theorem ReadsSame.run_ok (h : ReadsSame host host' res.libRoot a.options.ignoreFile res.files)
    (hwd : host'.workingDir = host.workingDir)
    (hrun : (a.run host none terminal).result = .ok res)
    (hdelivered : (deliver host' terminal a.options res).2.2 = .ok ()) :
    (a.run host' none terminal).result = .ok res := by
  obtain ⟨hfault, files, hfiles, rfl, _⟩ := run_ok_iff.mp hrun
  obtain ⟨patterns, ignore, hs⟩ := Discovery.surveyed_of_discover hfiles
  have hroot : ReadsSame host host' (host.normalize (host.normalize a.libRoot))
      a.search.ignoreFile files := by
    rw [host.normalize_normalize]
    exact h
  rw [run_ok_iff, Host.normalize_congr hwd]
  refine ⟨hfault, files, hroot.discover hwd hfiles, ?_, hdelivered⟩
  rw [resultOf_congr hwd hs.normal h.sizes h.contents]

/--
A run that succeeds changes no entry but the file its output names, and none if its output is the terminal. If
it can read all of its library as before, a second run comes to the same result, prints the same and leaves
the host as the first run left it. In whatever order the search goes through its sets, the result is the same.
-/
theorem run_repeats (hrun : (a.run host none terminal).result = .ok res) :
    (a.options.output = AnalysisOptions.terminal → (a.run host none terminal).host = host) ∧
    (a.options.output ≠ AnalysisOptions.terminal → ∃ place node,
      (a.run host none terminal).host.find a.options.output = .ok (place, node) ∧
      (node = .file (reportText a.options.format res) .full ∨ ∃ kind, node = .device kind) ∧
      host.SameBut place (a.run host none terminal).host) ∧
    (a.options.output = AnalysisOptions.terminal ∨
        ReadsSame host (a.run host none terminal).host res.libRoot a.options.ignoreFile res.files →
      (a.run (a.run host none terminal).host none terminal).result = .ok res ∧
      (a.run (a.run host none terminal).host none terminal).stdout = (a.run host none terminal).stdout ∧
      (a.run (a.run host none terminal).host none terminal).host = (a.run host none terminal).host) ∧
    ∀ r, Reachability.Comes res.files res.graph
        (entryPaths res.libRoot a.options.entryPoints.items) r ↔ r = res.reach := by
  obtain ⟨_, _, _, hres, hdelivered⟩ := run_ok_iff.mp hrun
  obtain ⟨hhost, hstdout⟩ := run_delivers hrun
  rw [hhost, hstdout]
  refine ⟨fun hterm => by rw [deliver_of_terminal hterm hdelivered],
    fun hterm => sameBut_deliver hterm hdelivered, fun hagain => ?_, fun r => ?_⟩
  · have hrun' : (a.run (deliver host terminal a.options res).1 none terminal).result = .ok res := by
      by_cases hterm : a.options.output = AnalysisOptions.terminal
      · rw [deliver_of_terminal hterm hdelivered]
        exact hrun
      · obtain ⟨_, _, _, _, hbut⟩ := sameBut_deliver hterm hdelivered
        refine (hagain.resolve_left hterm).run_ok hbut.workingDir hrun ?_
        rw [deliver_deliver hdelivered, hdelivered]
    obtain ⟨hhost', hstdout'⟩ := run_delivers hrun'
    rw [deliver_deliver hdelivered] at hhost' hstdout'
    exact ⟨hrun', hstdout', hhost'⟩
  · rw [hres]
    constructor
    · exact Reachability.Comes.eq_traverse
    · rintro rfl
      exact Reachability.comes_traverse

/-! ### A report beside the library -/

section Sample

open Discovery (sampleHost sampleLibrary)

theorem readsSame_sample (content : Bytes) :
    ReadsSame sampleHost
      { sampleHost with files := sampleHost.files.store (.file [] (text "report")) content }
      (text "/lib") (text ".ignore") sampleFiles := by
  constructor
  · intro loc
    have hstat : sampleHost.stat (text "/lib") = .ok sampleLibrary := rfl
    have hstat' : Host.stat
        { sampleHost with files := sampleHost.files.store (.file [] (text "report")) content }
        (text "/lib") = .ok sampleLibrary := rfl
    rw [Host.shape_of_stat hstat, Host.shape_of_stat hstat']
  · simp only [sampleFiles, List.forall_mem_cons]
    exact ⟨rfl, rfl, rfl, rfl, by simp⟩
  · simp only [sampleFiles, List.forall_mem_cons]
    exact ⟨rfl, rfl, rfl, rfl, by simp⟩
  · rfl

theorem run_repeats_saved :
    ∃ res, (savedAnalysis.run sampleHost none (.endless false)).result = .ok res ∧
      ReadsSame sampleHost (savedAnalysis.run sampleHost none (.endless false)).host res.libRoot
        (text ".ignore") res.files ∧
      (savedAnalysis.run (savedAnalysis.run sampleHost none (.endless false)).host none
        (.endless false)).result = .ok res ∧
      (savedAnalysis.run (savedAnalysis.run sampleHost none (.endless false)).host none
        (.endless false)).host =
        (savedAnalysis.run sampleHost none (.endless false)).host := by
  have hterm : savedAnalysis.options.output ≠ AnalysisOptions.terminal := by decide
  have hopen : sampleHost.files.openForWriting sampleHost.workingDir savedAnalysis.options.output =
      .ok (.file [] (text "report")) := rfl
  have hrun : (savedAnalysis.run sampleHost none (.endless false)).result =
      .ok (savedAnalysis.resultOf sampleHost (text "/lib") sampleFiles).1 := by
    rw [run_ok_iff]
    refine ⟨by decide, sampleFiles, discover_sample, rfl, ?_⟩
    rw [deliver_of_open hterm hopen rfl]
  have hsame : ReadsSame sampleHost (savedAnalysis.run sampleHost none (.endless false)).host (text "/lib")
      (text ".ignore") sampleFiles := by
    rw [(run_delivers hrun).1, deliver_of_open hterm hopen rfl]
    exact readsSame_sample _
  obtain ⟨hresult, _, hhost⟩ := (run_repeats hrun).2.2.1 (.inr hsame)
  exact ⟨_, hrun, hsame, hresult, hhost⟩

end Sample

end Analysis

end DartReach
