import DartReach.Proofs.RunReachability

/-!
# How a run fails

An analysis fails for what is wrong with its set-up, for a walk that is called off, and for a report that
cannot be stored or printed, and for nothing else: whatever is broken in the library itself is passed
over. The report is the last thing a run touches, so that every other failure leaves the host as it was.
-/

namespace DartReach

set_option autoImplicit false

namespace Discovery

/-- The walk is called off as soon as it comes to its visit `k`, counted from zero. -/
def Patience.EndsAt (patience : Patience) (k : Nat) : Prop := ∃ n, patience = some n ∧ n ≤ k

theorem Patience.exhausted_iff {patience : Patience} {count : Nat} :
    patience.any (· < count) = true ↔ ∃ k < count, patience.EndsAt k := by
  cases patience with
  | none => simp [EndsAt]
  | some n =>
    simp only [Option.any_some, decide_eq_true_eq, EndsAt, Option.some.injEq, exists_eq_left']
    constructor
    · intro h
      exact ⟨n, h, Nat.le_refl n⟩
    · rintro ⟨k, hk, hn⟩
      omega

/--
No pattern and no ignore rule breaks down at an entry of the library, and the ignore file can be parsed.
-/
structure Answered (host : Host) (root : Bytes) (options : Options) : Prop where
  loads : (loadIgnoreFile host root options.ignoreFile).rules? ≠ none
  globs : ∀ p ∈ options.exclude, ∀ m, Glob.compile p = .ok m →
    ∀ loc k, loc ≠ [] → host.shape root loc = some k → m.accepts (relText loc) ≠ none
  rules : ∀ f, (loadIgnoreFile host root options.ignoreFile).rules? = some (some f) →
    ∀ loc k, loc ≠ [] → host.shape root loc = some k →
      f.ignores (pathBelow root loc) k.isDir ≠ none

section

variable {host : Host} {patience : Patience} {root : Bytes} {options : Options}
  {visits : List Visit}

theorem Answered.not_broken (h : Answered host root options)
    (hw : Walks host root options visits) : .broken ∉ visits := by
  obtain ⟨node, patterns, ignore, hstat, _, hcomp, hload, rfl⟩ := hw
  rw [Walk.broken_mem_visits_iff _ (Host.stat_wellFormed hstat), not_exists]
  rintro loc ⟨hmeets, k, hk, hnone⟩
  rw [← Host.shape_of_stat hstat] at hk
  refine leavesOut_ne_none ?_ ?_ hnone
  · intro m hm
    obtain ⟨p, hp, hpm⟩ := (mem_compileAll_iff hcomp).mp hm
    exact h.globs p hp m hpm loc k hmeets.1 hk
  · intro f hf
    exact h.rules f (hf ▸ hload) loc k hmeets.1 hk

theorem outcomeOf_error_iff (h : .broken ∉ visits) :
    (∃ e, (outcomeOf patience visits).files = .error e) ↔
      ∃ k < visits.length, patience.EndsAt k := by
  rw [← Patience.exhausted_iff, outcomeOf]
  split
  · rename_i hend
    simp [hend]
  · rename_i hend
    rw [if_neg (by simpa using h)]
    simp [hend]

theorem compile_of_compileAll {ps : List Bytes} {patterns : List Glob.Matcher}
    (h : compileAll ps = .ok patterns) : ∀ p ∈ ps, ∃ m, Glob.compile p = .ok m := by
  induction ps generalizing patterns with
  | nil => simp
  | cons p ps ih =>
    simp only [compileAll] at h
    split at h
    · simp at h
    · rename_i m hm
      split at h
      · simp at h
      · rename_i ms hms
        exact List.forall_mem_cons.mpr ⟨⟨m, hm⟩, ih hms⟩

theorem compileAll_error {ps : List Bytes} {e : Error} (h : compileAll ps = .error e) :
    ∃ p ∈ ps, ∃ e, Glob.compile p = .error e := by
  by_contra hnone
  have hall : ∀ p ∈ ps, ∃ m, Glob.compile p = .ok m := by
    intro p hp
    cases hc : Glob.compile p with
    | error e => exact absurd ⟨p, hp, e, hc⟩ hnone
    | ok m => exact ⟨m, rfl⟩
  obtain ⟨patterns, hok⟩ := compileAll_of_forall hall
  rw [hok] at h
  simp at h

/-- A discovery fails for want of an extension, for a pattern, or because it was called off. -/
theorem discover_error (h : Answered host (host.normalize root) options) {e : Error}
    (he : (discover host patience root options).files = .error e) :
    options.extension = [] ∨ (∃ p ∈ options.exclude, ∃ e, Glob.compile p = .error e) ∨
      ∃ visits, Walks host (host.normalize root) options visits ∧
        ∃ k < visits.length, patience.EndsAt k := by
  by_cases hext : options.extension = []
  · exact .inl hext
  refine .inr ?_
  cases hcomp : compileAll options.exclude with
  | error e' => exact .inl (compileAll_error hcomp)
  | ok patterns =>
    refine .inr ?_
    cases hstat : host.stat (host.normalize root) with
    | error e' => simp [discover, hext, hcomp, hstat] at he
    | ok node =>
      by_cases hdir : node.isDir = true
      · obtain ⟨ignore, hload⟩ := Option.ne_none_iff_exists'.mp h.loads
        have hw : Walks host (host.normalize root) options _ :=
          ⟨node, patterns, ignore, hstat, hdir, hcomp, hload, rfl⟩
        rw [discover_of_walks hext hw] at he
        exact ⟨_, hw, (outcomeOf_error_iff (h.not_broken hw)).mp ⟨e, he⟩⟩
      · simp [discover, hext, hcomp, hstat, hdir] at he

end

end Discovery

/-- A failed write to a report, or its file did not close. -/
def AnalysisError.isLoss : AnalysisError → Bool
  | .write _ => true
  | .close _ => true
  | _ => false

namespace Analysis

variable {host : Host} {patience : Discovery.Patience} {terminal : Terminal} {a : Analysis}

/-- What can be in the way of an analysis. -/
inductive Obstacle (host : Host) (patience : Discovery.Patience) (terminal : Terminal) (a : Analysis) :
    Prop where
  | noLibRoot (h : a.libRoot = [])
  | noPackage (h : a.packageName = [])
  | noOutput (h : a.options.output = [])
  | unknownFormat (notText : a.options.format ≠ AnalysisOptions.textFormat)
      (notJson : a.options.format ≠ AnalysisOptions.jsonFormat)
  | noExtension (h : a.options.extension = [])
  | badPattern (p : Bytes) (mem : p ∈ a.options.exclude.items) (e : Glob.Error)
      (h : Glob.compile p = .error e)
  | calledOff (visits : List Discovery.Visit)
      (walks : Discovery.Walks host (host.normalize a.libRoot) a.search visits)
      (k : Nat) (reached : k < visits.length) (ends : patience.EndsAt k)
  | notCreated (file : a.options.output ≠ AnalysisOptions.terminal) (e : SystemError)
      (h : host.create a.options.output = .error e)
  /-- The file of the report was made, but has not room enough. -/
  | notWritten (file : a.options.output ≠ AnalysisOptions.terminal) (slot : Slot) (opened : Host)
      (created : host.create a.options.output = .ok (slot, opened)) (files : List Bytes)
      (found : (Discovery.discover host patience (host.normalize a.libRoot) a.search).files =
        .ok files)
      (room : Nat) (cause : Cause) (limited : (host.medium slot).limit? = some (room, cause))
      (short : room <
        (reportText a.options.format (a.resultOf host (host.normalize a.libRoot) files).1).length)
  | notClosed (file : a.options.output ≠ AnalysisOptions.terminal) (slot : Slot) (opened : Host)
      (created : host.create a.options.output = .ok (slot, opened)) (cause : Cause)
      (h : (host.medium slot).closing? = some cause)
  /-- The report goes to the terminal, which has not room enough. -/
  | notPrinted (shown : a.options.output = AnalysisOptions.terminal) (files : List Bytes)
      (found : (Discovery.discover host patience (host.normalize a.libRoot) a.search).files =
        .ok files)
      (room : Nat) (limited : terminal.limit = some room)
      (short : room <
        (reportText a.options.format (a.resultOf host (host.normalize a.libRoot) files).1).length)

theorem fault?_eq_none_iff :
    a.fault? = none ↔ a.libRoot ≠ [] ∧ a.packageName ≠ [] ∧ a.options.output ≠ [] ∧
      (a.options.format = AnalysisOptions.textFormat ∨
        a.options.format = AnalysisOptions.jsonFormat) := by
  simp only [fault?, List.isEmpty_iff]
  constructor
  · intro h
    split_ifs at h with h1 h2 h3 h4
    exact ⟨h1, h2, h4, by tauto⟩
  · rintro ⟨h1, h2, h3, h4⟩
    rw [if_neg h1, if_neg h2, if_neg (by tauto), if_neg h3]

theorem fault?_isLoss {e : AnalysisError} (h : a.fault? = some e) : e.isLoss = false := by
  unfold fault? at h
  split_ifs at h <;> cases h <;> rfl

/-- All that a run can come to: a fault, no list of files, or a delivery. -/
theorem run_cases (host : Host) (patience : Discovery.Patience) (terminal : Terminal) (a : Analysis) :
    (∃ e, a.fault? = some e ∧ a.run host patience terminal = ⟨host, [], [], .error e⟩) ∨
    (a.fault? = none ∧ ∃ e,
      (Discovery.discover host patience (host.normalize a.libRoot) a.search).files = .error e ∧
      (a.run host patience terminal).host = host ∧ (a.run host patience terminal).stdout = [] ∧
      (a.run host patience terminal).result = .error (.discovery e)) ∨
    (a.fault? = none ∧ ∃ files,
      (Discovery.discover host patience (host.normalize a.libRoot) a.search).files = .ok files ∧
      ∃ res, res = (a.resultOf host (host.normalize a.libRoot) files).1 ∧
      (a.run host patience terminal).host = (deliver host terminal a.options res).1 ∧
      (a.run host patience terminal).stdout = (deliver host terminal a.options res).2.1 ∧
      (a.run host patience terminal).result =
        (deliver host terminal a.options res).2.2.map (fun _ => res)) := by
  rw [run]
  cases hfault : a.fault? with
  | some e => exact .inl ⟨e, rfl, rfl⟩
  | none =>
    refine .inr ?_
    simp only [analyse, search]
    split
    · rename_i e hfiles
      exact .inl ⟨trivial, e, hfiles, rfl, rfl, rfl⟩
    · rename_i files hfiles
      refine .inr ⟨trivial, files, hfiles, _, rfl, ?_⟩
      split <;> rename_i hdeliver <;> simp [hdeliver, Except.map]

theorem Obstacle.fails (h : a.Obstacle host patience terminal) (res : Result) :
    (a.run host patience terminal).result ≠ .ok res := by
  intro hok
  obtain ⟨hfault, files, hfiles, rfl, hdeliver⟩ := run_ok_iff.mp hok
  obtain ⟨hlib, hpackage, houtput, hformat⟩ := fault?_eq_none_iff.mp hfault
  obtain ⟨patterns, ignore, hs⟩ := Discovery.surveyed_of_discover hfiles
  cases h with
  | noLibRoot h => exact hlib h
  | noPackage h => exact hpackage h
  | noOutput h => exact houtput h
  | unknownFormat notText notJson => exact hformat.elim notText notJson
  | noExtension h => exact hs.named h
  | badPattern p mem e h =>
    obtain ⟨m, hm⟩ := Discovery.compile_of_compileAll hs.compiled p mem
    rw [hm] at h
    simp at h
  | calledOff visits walks k reached ends =>
    rw [← host.normalize_normalize] at walks
    rw [Discovery.discover_of_walks hs.named walks, Discovery.outcomeOf_files_iff] at hfiles
    rw [Discovery.Patience.exhausted_iff.mpr ⟨k, reached, ends⟩] at hfiles
    simp at hfiles
  | notCreated file e h =>
    cases deliver_ok_iff.mp hdeliver with
    | shown isTerminal => exact file isTerminal
    | saved _ slot opened created =>
      rw [h] at created
      cases created
  | notWritten file slot opened created files' found room cause limited short =>
    cases deliver_ok_iff.mp hdeliver with
    | shown isTerminal => exact file isTerminal
    | saved _ slot' opened' created' sound =>
      rw [created] at created'
      cases created'
      rw [hfiles] at found
      cases found
      rw [Medium.fault?, limited] at sound
      dsimp only at sound
      rw [if_pos short] at sound
      cases sound
  | notClosed file slot opened created cause h =>
    cases deliver_ok_iff.mp hdeliver with
    | shown isTerminal => exact file isTerminal
    | saved _ slot' opened' created' sound =>
      rw [created] at created'
      cases created'
      exact Medium.fault?_ne_none h _ sound
  | notPrinted shown files' found room limited short =>
    cases deliver_ok_iff.mp hdeliver with
    | shown _ holds =>
      rw [hfiles] at found
      cases found
      have hle := holds room limited
      omega
    | saved isFile => exact isFile shown

theorem obstacle_of_fault {e : AnalysisError} (h : a.fault? = some e) :
    a.Obstacle host patience terminal := by
  by_contra hnone
  have hfault : a.fault? = none := by
    rw [fault?_eq_none_iff]
    refine ⟨fun h => hnone (.noLibRoot h), fun h => hnone (.noPackage h),
      fun h => hnone (.noOutput h), ?_⟩
    by_contra hformat
    rw [not_or] at hformat
    exact hnone (.unknownFormat hformat.1 hformat.2)
  rw [hfault] at h
  simp at h

theorem obstacle_of_discovery
    (hanswered : Discovery.Answered host (host.normalize a.libRoot) a.search)
    {e : Discovery.Error}
    (h : (Discovery.discover host patience (host.normalize a.libRoot) a.search).files = .error e) :
    a.Obstacle host patience terminal := by
  rw [← host.normalize_normalize] at hanswered
  rcases Discovery.discover_error hanswered h with
    hext | ⟨p, hp, e, hpe⟩ | ⟨visits, hw, k, hk, hend⟩
  · exact .noExtension hext
  · exact .badPattern p hp e hpe
  · rw [host.normalize_normalize] at hw
    exact .calledOff visits hw k hk hend

theorem error_of_map {α β ε : Type} {f : α → β} {r : Except ε α} {e : ε}
    (h : r.map f = .error e) : r = .error e := by
  cases r with
  | error e' => simpa [Except.map] using h
  | ok x => simp [Except.map] at h

theorem isLoss_lost (path : Bytes) (fault : Call × Cause) : (lost path fault).isLoss = true := by
  unfold lost
  split
  · rfl
  · rfl

/-- A report that does not arrive: a terminal is too short for it, or its file was not made, or not filled. -/
theorem deliver_error {options : AnalysisOptions} {res : Result} {e : AnalysisError}
    (h : (deliver host terminal options res).2.2 = .error e) :
    (options.output = AnalysisOptions.terminal ∧ (deliver host terminal options res).1 = host ∧
      ∃ room, terminal.limit = some room ∧ room < (reportText options.format res).length) ∨
    options.output ≠ AnalysisOptions.terminal ∧ (deliver host terminal options res).2.1 = [] ∧
      ((∃ cause, host.create options.output = .error cause ∧ e = .create cause ∧
          (deliver host terminal options res).1 = host) ∨
        ∃ slot opened fault, host.create options.output = .ok (slot, opened) ∧
          (host.medium slot).fault? (reportText options.format res) = some fault ∧
          e = lost options.output fault ∧
          (deliver host terminal options res).1 = host.fill slot (reportText options.format res)) := by
  by_cases hterm : options.output = AnalysisOptions.terminal
  · left
    rcases terminal.sink.holds_or_limited (reportText options.format res).length with hroom | ⟨n, hn, hlt⟩
    · rw [deliver_terminal hterm hroom] at h
      cases h
    · rw [deliver_terminal_cut hterm hn hlt]
      exact ⟨hterm, rfl, n, hn, hlt⟩
  right
  obtain ⟨hhost, hresult, hsilent⟩ := @deliver_file host terminal options res hterm
  rw [hresult] at h
  refine ⟨hterm, hsilent (by simp [h]), ?_⟩
  rw [hhost]
  cases hcreate : host.create options.output with
  | error cause =>
    have hsave : saveReport host options res = (host, .error (.create cause)) := by
      rw [saveReport, hcreate]
    rw [hsave] at h ⊢
    cases h
    exact .inl ⟨cause, rfl, rfl, rfl⟩
  | ok made =>
    obtain ⟨slot, opened⟩ := made
    rw [saveReport_of_create hcreate] at h ⊢
    dsimp only at h
    split at h
    · rename_i fault hfault
      cases h
      exact .inr ⟨slot, opened, fault, rfl, hfault, rfl, rfl⟩
    · cases h

theorem obstacle_of_error
    (hanswered : Discovery.Answered host (host.normalize a.libRoot) a.search) {e : AnalysisError}
    (h : (a.run host patience terminal).result = .error e) : a.Obstacle host patience terminal := by
  rcases run_cases host patience terminal a with
    ⟨e, hfault, _⟩ | ⟨_, e, hfiles, _⟩ | ⟨_, files, hfiles, res, rfl, _, _, hresult⟩
  · exact obstacle_of_fault hfault
  · exact obstacle_of_discovery hanswered hfiles
  · rw [h] at hresult
    rcases deliver_error (error_of_map hresult.symm) with
      ⟨hterm, _, room, hlimit, hlt⟩ |
        ⟨hfile, _, ⟨cause, hcreate, _⟩ | ⟨slot, opened, fault, hcreate, hfault, _⟩⟩
    · exact .notPrinted hterm files hfiles room hlimit hlt
    · exact .notCreated hfile cause hcreate
    · rcases Medium.fault?_cases hfault with ⟨room, cause, hlimit, hlt, _⟩ | ⟨cause, hclosing, _⟩
      · exact .notWritten hfile slot opened hcreate files hfiles room cause hlimit hlt
      · exact .notClosed hfile slot opened hcreate cause hclosing

/-- A failed run leaves the host as it was, or the report behind that it created. -/
theorem run_error {e : AnalysisError} (h : (a.run host patience terminal).result = .error e) :
    (a.options.output ≠ AnalysisOptions.terminal → (a.run host patience terminal).stdout = []) ∧
    ((a.run host patience terminal).host = host ∧
        (e.isLoss = true → a.options.output = AnalysisOptions.terminal) ∨
      a.options.output ≠ AnalysisOptions.terminal ∧ e.isLoss = true ∧ ∃ slot opened files,
        host.create a.options.output = .ok (slot, opened) ∧
        (Discovery.discover host patience (host.normalize a.libRoot) a.search).files = .ok files ∧
        (a.run host patience terminal).host = host.fill slot
          (reportText a.options.format (a.resultOf host (host.normalize a.libRoot) files).1)) := by
  rcases run_cases host patience terminal a with
    ⟨e', hfault, hrun⟩ | ⟨_, e', _, hhost, hstdout, hresult⟩ |
      ⟨_, files, hfiles, res, rfl, hhost, hstdout, hresult⟩
  · rw [hrun] at h ⊢
    cases h
    exact ⟨fun _ => rfl, .inl ⟨rfl, by simp [fault?_isLoss hfault]⟩⟩
  · rw [h] at hresult
    cases hresult
    exact ⟨fun _ => hstdout, .inl ⟨hhost, by simp [AnalysisError.isLoss]⟩⟩
  · rw [h] at hresult
    rw [hhost, hstdout]
    rcases deliver_error (error_of_map hresult.symm) with
      ⟨hterm, hsame, _⟩ |
        ⟨hfile, hsilent, ⟨cause, _, rfl, hsame⟩ | ⟨slot, opened, fault, hcreate, _, rfl, hfilled⟩⟩
    · exact ⟨fun hfile => absurd hterm hfile, .inl ⟨hsame, fun _ => hterm⟩⟩
    · exact ⟨fun _ => hsilent, .inl ⟨hsame, by simp [AnalysisError.isLoss]⟩⟩
    · exact ⟨fun _ => hsilent, .inr ⟨hfile, isLoss_lost _ _, slot, opened, files, hcreate, hfiles, hfilled⟩⟩

/--
Where patterns and ignore rules do not break down, a run fails if and only if there is an obstacle. Unless
the error is a failed write to the file of the report, or that file did not close, the host is as it was; in
that case the file had been created and keeps what there was room for. A failed run prints nothing unless the
report itself goes to the terminal.
-/
theorem run_fails_iff_obstacle
    (hanswered : Discovery.Answered host (host.normalize a.libRoot) a.search) :
    ((∃ e, (a.run host patience terminal).result = .error e) ↔ a.Obstacle host patience terminal) ∧
    ∀ e, (a.run host patience terminal).result = .error e →
      (e.isLoss = false ∨ a.options.output = AnalysisOptions.terminal →
        (a.run host patience terminal).host = host) ∧
      (e.isLoss = true → a.options.output ≠ AnalysisOptions.terminal → ∃ slot opened files,
        host.create a.options.output = .ok (slot, opened) ∧
        (Discovery.discover host patience (host.normalize a.libRoot) a.search).files = .ok files ∧
        (a.run host patience terminal).host = host.fill slot
          (reportText a.options.format (a.resultOf host (host.normalize a.libRoot) files).1)) ∧
      (a.options.output ≠ AnalysisOptions.terminal → (a.run host patience terminal).stdout = []) := by
  constructor
  · constructor
    · rintro ⟨e, he⟩
      exact obstacle_of_error hanswered he
    · intro h
      cases hresult : (a.run host patience terminal).result with
      | error e => exact ⟨e, rfl⟩
      | ok res => exact absurd hresult (h.fails res)
  · intro e he
    obtain ⟨hsilent, hhost⟩ := run_error he
    rcases hhost with ⟨hsame, hloss⟩ | ⟨hfile, hloss, hcreated⟩
    · exact ⟨fun _ => hsame, fun h hfile => absurd (hloss h) hfile, hsilent⟩
    · refine ⟨?_, fun _ _ => hcreated, hsilent⟩
      rintro (hno | hterm)
      · rw [hloss] at hno
        cases hno
      · exact absurd hterm hfile

/-! ### A walk that is called off -/

section Sample

open Discovery (sampleHost sampleRules sampleLibrary compileAll_sample loaded_sample)

/-- The sample analysis, with its report in a file. -/
def savedAnalysis : Analysis :=
  { sampleAnalysis with options := { sampleAnalysis.options with output := text "report" } }

theorem answered_sample :
    Discovery.Answered sampleHost (sampleHost.normalize savedAnalysis.libRoot)
      savedAnalysis.search := by
  have hplace : ∀ {loc : Location} {k : Kind}, sampleHost.shape (text "/lib") loc = some k →
      loc ∈ sampleLibrary.places := by
    intro loc k hk
    obtain ⟨below, hget, _⟩ := Node.shape_eq_some_iff.mp hk
    exact Node.mem_places_of_get? hget
  have hrules : ∀ loc ∈ sampleLibrary.places, loc ≠ [] → ∀ isDir,
      sampleRules.ignores (Discovery.pathBelow (text "/lib") loc) isDir ≠ none := by
    decide +kernel
  constructor
  · exact ne_of_eq_of_ne loaded_sample (by simp)
  · intro p hp m hm loc k _ _
    rw [List.mem_singleton.mp hp, Discovery.compile_sample] at hm
    cases hm
    simp [Glob.Matcher.accepts]
  · intro f hf loc k hne hk
    cases loaded_sample.symm.trans hf
    exact hrules loc (hplace hk) hne k.isDir

theorem run_fails_iff_obstacle_called_off :
    ∃ e, (savedAnalysis.run sampleHost (some 3) (.endless false)).result = .error e ∧
      (savedAnalysis.run sampleHost (some 3) (.endless false)).stdout = [] := by
  have hwalks : Discovery.Walks sampleHost (sampleHost.normalize savedAnalysis.libRoot)
      savedAnalysis.search _ :=
    ⟨sampleLibrary, [.endingName ".g.dart".toList], some sampleRules, rfl, rfl,
      compileAll_sample, loaded_sample, rfl⟩
  have hlong : 3 < (Discovery.Walk.visits ⟨Discovery.withSlash (text "/lib"), text ".dart",
      Discovery.leavesOut [.endingName ".g.dart".toList] (some sampleRules)
        (Discovery.withSlash (text "/lib"))⟩ sampleLibrary).length := by
    decide +kernel
  obtain ⟨hiff, hclean⟩ := @run_fails_iff_obstacle _ (some 3) (.endless false) _ answered_sample
  obtain ⟨e, he⟩ := hiff.mpr (.calledOff _ hwalks 3 hlong ⟨3, rfl, Nat.le_refl 3⟩)
  exact ⟨e, he, (hclean e he).2.2 (by decide)⟩

end Sample

end Analysis

end DartReach
