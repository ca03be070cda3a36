import DartReach.Proofs.PathEvaluation
import DartReach.Proofs.RunReachability

/-!
# The paths of a report

A report shows paths as they are seen from the library root. Joining them to the root gives the paths of
the result back, since all of these are absolute normal forms. Files lie below the root, so that the order
of their paths is the order of what remains without the root, and sorting once more changes nothing.
-/

namespace DartReach

set_option autoImplicit false

open DartReach.Path (Canonical relativeOrSame)

/-! ### Lists of paths -/

section Lists

variable {root : Bytes} {paths : List Bytes}

theorem map_join_relativeOrSame (hroot : Canonical root) (h : ∀ p ∈ paths, Canonical p) :
    (paths.map (relativeOrSame root)).map (Path.join root) = paths := by
  have hback : ∀ p ∈ paths, (Path.join root ∘ relativeOrSame root) p = id p := by
    intro p hp
    exact Path.join_relativeOrSame hroot (h p hp)
  rw [List.map_map, List.map_congr_left hback, List.map_id]

theorem sorted_relativePaths (root : Bytes) (paths : List Bytes) :
    (relativePaths root paths).Pairwise (· ≤ ·) :=
  Bytes.sort_pairwise_le _

theorem map_join_relativePaths_perm (hroot : Canonical root) (h : ∀ p ∈ paths, Canonical p) :
    ((relativePaths root paths).map (Path.join root)).Perm paths := by
  have hperm := (Bytes.sort_perm (paths.map (relativeOrSame root))).map (Path.join root)
  rwa [map_join_relativeOrSame hroot h] at hperm

/-- The paths lie below the root, and only the root is left out when they are seen from there. -/
def Cut (root : Bytes) (paths : List Bytes) : Prop :=
  ∀ p ∈ paths, Discovery.withSlash root ++ relativeOrSame root p = p

theorem Cut.ascending (h : Cut root paths) (hasc : Bytes.Ascending paths) :
    Bytes.Ascending (paths.map (relativeOrSame root)) := by
  rw [← Bytes.ascending_map_append_iff (Discovery.withSlash root), List.map_map]
  have hback : ∀ p ∈ paths,
      ((Discovery.withSlash root ++ ·) ∘ relativeOrSame root) p = id p := h
  rwa [List.map_congr_left hback, List.map_id]

theorem Cut.relativePaths_eq (h : Cut root paths) (hasc : Bytes.Ascending paths) :
    relativePaths root paths = paths.map (relativeOrSame root) :=
  (h.ascending hasc).sort_eq

end Lists

theorem Discovery.Surveyed.cut {host : Host} {root : Bytes} {options : Options}
    {patterns : List Glob.Matcher} {ignore : Option Ignore.File} {files : List Bytes}
    (h : Surveyed host root options patterns ignore files) : Cut (host.normalize root) files := by
  intro p hp
  obtain ⟨loc, hfinds, rfl⟩ := (h.members p).mp hp
  obtain ⟨names, hn, hroot⟩ := canonical_of_shape hfinds.2.1
  have hrel : relativeOrSame (host.normalize root) (pathBelow (host.normalize root) loc) =
      relText loc := by
    rw [hroot, pathBelow_render hn hfinds.1.1,
      Path.relativeOrSame_render hn (ordinary_of_shape hfinds.2.1), Path.downward,
      if_neg hfinds.1.1, relText]
  rw [hrel, pathBelow]

/-! ### The paths of a result -/

/-- What a report rests on: all paths are absolute normal forms, and the files are divided in two. -/
structure Result.Sound (res : Result) (host : Host) : Prop where
  root : Canonical res.libRoot
  files : ∀ p ∈ res.files, Canonical p
  cut : Cut res.libRoot res.files
  ascending : Bytes.Ascending res.files
  visited : res.reach.visited = res.files.filter (· ∈ res.reach.visited)
  unused : res.reach.unused = res.files.filter (· ∉ res.reach.visited)
  entries : ∀ e ∈ res.reach.entries, Canonical e
  entriesOnce : res.reach.entries.Nodup
  missing : ∀ e ∈ res.reach.missing, Canonical e
  missingOnce : res.reach.missing.Nodup
  failures : res.failures.map Failure.path = res.files.filter fun p => !host.isText p

namespace Analysis

theorem canonical_entryPaths {root : Bytes} (hroot : Canonical root) (names : List Bytes) :
    ∀ e ∈ entryPaths root names, Canonical e := by
  intro e he
  obtain ⟨name, -, rfl⟩ := mem_entryPaths.mp he
  split
  · rename_i habs
    exact Path.canonical_clean habs
  · exact Path.canonical_join hroot.isAbsolute name

theorem sound_of_run {host : Host} {patience : Discovery.Patience} {terminal : Terminal} {a : Analysis}
    {res : Result} (hcwd : host.workingDir ≠ none)
    (h : (a.run host patience terminal).result = .ok res) : res.Sound host := by
  obtain ⟨-, files, hfiles, rfl, -⟩ := run_ok_iff.mp h
  obtain ⟨patterns, ignore, hs⟩ := Discovery.surveyed_of_discover hfiles
  have hroot : Canonical (host.normalize a.libRoot) := host.canonical_normalize (Or.inl hcwd)
  have hentries := canonical_entryPaths hroot a.options.entryPoints.items
  have hcut := hs.cut
  rw [host.normalize_normalize] at hcut
  have hreach := resultOf_reach host a files
  refine ⟨hroot, hs.canonical, hcut, hs.ascending, ?_, unused_resultOf host a hs.ascending, ?_, ?_,
    ?_, ?_, ?_⟩
  · rw [hreach]
    exact Reachability.visited_eq_filter _ _ _ hs.ascending
  · intro e he
    rw [hreach, Reachability.traverse_entries, Reachability.mem_found] at he
    exact hentries e he.1
  · rw [hreach, Reachability.traverse_entries]
    exact Reachability.nodup_eraseDups _
  · intro e he
    rw [hreach, Reachability.traverse_missing, Reachability.mem_absent] at he
    exact hentries e he.1
  · rw [hreach, Reachability.traverse_missing]
    exact Reachability.nodup_eraseDups _
  · refine Eq.trans ?_ ((a.resolver host).paths_failures host hs.normal)
    simp only [resultOf, List.map_map]
    rfl

end Analysis

/-! ### The paths of its report -/

/--
A report says what a result found: each list leads back to the list or the set it was made of, the counts are
those of the lists, and the failures are the files that cannot be read or are no text.
-/
structure Report.Faithful (rep : Report) (host : Host) (res : Result) : Prop where
  unusedAscending : Bytes.Ascending rep.unusedFiles
  usedAscending : Bytes.Ascending rep.usedFiles
  disjoint : ∀ f ∈ rep.unusedFiles, f ∉ rep.usedFiles
  unusedCount : rep.unusedFiles.length = rep.unused
  usedCount : rep.usedFiles.length = rep.reachable
  total : rep.total = rep.reachable + rep.unused
  unusedPaths : rep.unusedFiles.map (Path.join res.libRoot) = res.reach.unused
  usedPaths : rep.usedFiles.map (Path.join res.libRoot) = res.reach.visited
  entriesSorted : rep.entryPoints.Pairwise (· ≤ ·)
  entriesPaths : (rep.entryPoints.map (Path.join res.libRoot)).Perm res.reach.entries
  entriesOnce : (rep.entryPoints.map (Path.join res.libRoot)).Nodup
  missingSorted : rep.missingEntryPoints.Pairwise (· ≤ ·)
  missingPaths : (rep.missingEntryPoints.map (Path.join res.libRoot)).Perm res.reach.missing
  missingOnce : (rep.missingEntryPoints.map (Path.join res.libRoot)).Nodup
  failuresNamed : rep.failures.map (fun f => Path.join res.libRoot f.path) =
    res.files.filter fun p => !host.isText p

/-- Some of the files, seen from the root one by one. -/
structure Result.Shown (res : Result) (paths shown : List Bytes) : Prop where
  ascending : Bytes.Ascending shown
  count : shown.length = paths.length
  back : shown.map (Path.join res.libRoot) = paths

namespace Result.Sound

variable {host : Host} {res : Result}

theorem visited_sublist (h : res.Sound host) : res.reach.visited.Sublist res.files := by
  rw [h.visited]
  exact List.filter_sublist

theorem unused_sublist (h : res.Sound host) : res.reach.unused.Sublist res.files := by
  rw [h.unused]
  exact List.filter_sublist

/-- Files are reported in the order they have. -/
theorem shown (h : res.Sound host) {paths : List Bytes} (hsub : paths.Sublist res.files) :
    res.Shown paths (relativePaths res.libRoot paths) := by
  have hcut : Cut res.libRoot paths := fun p hp => h.cut p (hsub.subset hp)
  have hasc : Bytes.Ascending paths := h.ascending.sublist hsub
  have hcanonical : ∀ p ∈ paths, Canonical p := fun p hp => h.files p (hsub.subset hp)
  rw [hcut.relativePaths_eq hasc]
  exact ⟨hcut.ascending hasc, List.length_map _, map_join_relativeOrSame h.root hcanonical⟩

theorem not_mem_usedFiles (h : res.Sound host) :
    ∀ f ∈ res.report.unusedFiles, f ∉ res.report.usedFiles := by
  intro f hf hf'
  have hdead : Path.join res.libRoot f ∈ res.reach.unused :=
    (h.shown h.unused_sublist).back ▸ List.mem_map_of_mem hf
  have hlive : Path.join res.libRoot f ∈ res.reach.visited :=
    (h.shown h.visited_sublist).back ▸ List.mem_map_of_mem hf'
  rw [h.unused] at hdead
  exact of_decide_eq_true (List.mem_filter.mp hdead).2 hlive

theorem length_files (h : res.Sound host) :
    res.files.length = res.reach.visited.length + res.reach.unused.length := by
  have hvisited := congrArg List.length h.visited
  have hunused := congrArg List.length h.unused
  have hsplit := @List.length_eq_length_filter_add _ res.files (· ∈ res.reach.visited)
  simp only [← decide_not] at hsplit
  omega

theorem canonical_failure (h : res.Sound host) :
    ∀ p ∈ res.failures.map Failure.path, Canonical p := by
  intro p hp
  rw [h.failures] at hp
  exact h.files p (List.mem_of_mem_filter hp)

theorem failures_report (h : res.Sound host) :
    res.report.failures.map (fun f => Path.join res.libRoot f.path) =
      res.failures.map Failure.path := by
  refine Eq.trans ?_ (map_join_relativeOrSame h.root h.canonical_failure)
  simp only [Result.report, List.map_map]
  rfl

theorem faithful (h : res.Sound host) : res.report.Faithful host res where
  unusedAscending := (h.shown h.unused_sublist).ascending
  usedAscending := (h.shown h.visited_sublist).ascending
  disjoint := h.not_mem_usedFiles
  unusedCount := (h.shown h.unused_sublist).count
  usedCount := (h.shown h.visited_sublist).count
  total := h.length_files
  unusedPaths := (h.shown h.unused_sublist).back
  usedPaths := (h.shown h.visited_sublist).back
  entriesSorted := sorted_relativePaths _ _
  entriesPaths := map_join_relativePaths_perm h.root h.entries
  entriesOnce := (map_join_relativePaths_perm h.root h.entries).nodup_iff.mpr h.entriesOnce
  missingSorted := sorted_relativePaths _ _
  missingPaths := map_join_relativePaths_perm h.root h.missing
  missingOnce := (map_join_relativePaths_perm h.root h.missing).nodup_iff.mpr h.missingOnce
  failuresNamed := h.failures_report.trans h.failures

theorem relative?_ne_none (h : res.Sound host) :
    ∀ p ∈ res.reach.entries ++ res.reach.missing ++ res.reach.unused ++ res.reach.visited ++
      res.failures.map Failure.path, Path.relative? res.libRoot p ≠ none := by
  intro p hp
  have hcanonical : Canonical p := by
    simp only [List.mem_append] at hp
    rcases hp with (((hp | hp) | hp) | hp) | hp
    · exact h.entries p hp
    · exact h.missing p hp
    · exact h.files p (h.unused_sublist.subset hp)
    · exact h.files p (h.visited_sublist.subset hp)
    · exact h.canonical_failure p hp
  obtain ⟨rel, hrel, -⟩ := Path.join_relative? h.root hcanonical
  rw [hrel]
  exact Option.some_ne_none rel

end Result.Sound

namespace Analysis

/--
The report of a run says what the run found, and for no path it lacks a spelling as seen from the library
root, also not for entry points outside of it.
-/
theorem run_report_faithful {host : Host} {patience : Discovery.Patience} {terminal : Terminal}
    {a : Analysis} {res : Result} (hcwd : host.workingDir ≠ none)
    (h : (a.run host patience terminal).result = .ok res) :
    res.report.Faithful host res ∧
    ∀ p ∈ res.reach.entries ++ res.reach.missing ++ res.reach.unused ++ res.reach.visited ++
      res.failures.map Failure.path, Path.relative? res.libRoot p ≠ none := by
  have hsound := sound_of_run hcwd h
  exact ⟨hsound.faithful, hsound.relative?_ne_none⟩

section Sample

open Discovery (sampleHost)

def outsideAnalysis : Analysis :=
  { sampleAnalysis with
    options :=
      { sampleAnalysis.options with
        entryPoints := some [text "../x.dart", text "main.dart", text "/x.dart"] } }

theorem run_report_faithful_outside :
    ∃ res, (outsideAnalysis.run sampleHost none (.endless false)).result = .ok res ∧
      res.report.Faithful sampleHost res ∧
      res.report.missingEntryPoints = [text "../x.dart"] ∧
      res.report.failures.map Failure.path = [text "api.dart"] := by
  have hrun : (outsideAnalysis.run sampleHost none (.endless false)).result =
      .ok (outsideAnalysis.resultOf sampleHost (text "/lib") sampleFiles).1 := by
    rw [run_ok_iff]
    exact ⟨by decide, sampleFiles, discover_sample, rfl, deliver_ok_iff.mpr (arrives_of_endless rfl rfl _)⟩
  have hcwd : sampleHost.workingDir ≠ none := by
    simp [sampleHost]
  have hmissing : (outsideAnalysis.resultOf sampleHost (text "/lib") sampleFiles).1.reach.missing =
      [text "/x.dart"] := by
    have habsent := Reachability.traverse_missing sampleFiles
      (Resolver.buildGraph sampleHost (outsideAnalysis.resolver sampleHost) sampleFiles).graph
      (entryPaths (text "/lib") outsideAnalysis.options.entryPoints.items)
    refine Eq.trans habsent ?_
    decide +kernel
  have hshown : relativePaths (text "/lib") [text "/x.dart"] = [text "../x.dart"] := by
    rw [relativePaths, List.map_singleton, Bytes.sort, List.mergeSort_singleton]
    decide +kernel
  exact ⟨_, hrun, (run_report_faithful hcwd hrun).1,
    (congrArg (relativePaths (text "/lib")) hmissing).trans hshown, by decide +kernel⟩

end Sample

end Analysis

end DartReach
