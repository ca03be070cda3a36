import DartReach.CommandLine.Run
import DartReach.Proofs.SettingsRoundTrip

/-!
# A first settings file destroys nothing

Settings that may not overwrite anything are stored only where nothing is found. A path that finds nothing
can still be opened for writing, but then it leads to a free name in a directory, perhaps through links: a
new file is made there, and everything else is found and read as before. The disk can fail while the new
file is written or closed; then the file is left with a beginning of the document. Whether whole or not,
it is found from then on, so the first call that makes a settings file is the last one that changes
anything.
-/

namespace DartReach

set_option autoImplicit false

namespace Host

variable {host host' : Host} {path content : Bytes} {s : Settings}

/-! ### A new file -/

/-- Nothing but a new file was made, where the links of a path end. -/
structure Adds (host : Host) (path content : Bytes) (place : Location) (host' : Host) : Prop where
  leads : ∃ dir name, place = dir ++ [name] ∧
    host.files.locate host.workingDir true path = .ok (.vacant dir name false)
  free : host.files.get? place = none
  found : host'.find path = .ok (place, .file content .full)
  others : host.SameBut place host'
  readAsBefore : ∀ other old, host.read other = .ok old → host'.read other = .ok old

theorem stat_eq_ok_iff {node : Node} :
    host.stat path = .ok node ↔ ∃ place, host.find path = .ok (place, node) := by
  unfold stat
  split
  · rename_i place found hfind
    simp [hfind]
  · rename_i cause hfind
    simp [hfind]

theorem Adds.get?_file {place : Location} (h : host.Adds path content place host') {loc : Location}
    {old : Bytes} {access : Access} (hold : host.files.get? loc = some (.file old access)) :
    host'.files.get? loc = some (.file old access) := by
  have hne : loc ≠ place := by
    rintro rfl
    rw [h.free] at hold
    cases hold
  have hsame := h.others.entries loc hne
  rw [hold, Option.map_some, Option.map_eq_some_iff] at hsame
  obtain ⟨node, hget, hown⟩ := hsame
  cases node with
  | file content' access' =>
    cases hown
    exact hget
  | dir entries access' => cases hown
  | device kind => cases hown
  | link target => cases hown

theorem read_congr {other : Bytes} {loc : Location} {node node' : Node}
    (hfind : host.find other = .ok (loc, node)) (hfind' : host'.find other = .ok (loc, node'))
    (hown : node'.own = node.own) : host'.read other = host.read other := by
  unfold read
  rw [hfind, hfind']
  cases node <;> cases node' <;> cases hown <;> rfl

theorem Adds.read {place : Location} (h : host.Adds path content place host') :
    host'.read path = .ok content := by
  rw [Host.read, h.found]
  rfl

/-- What is opened for writing where nothing was found is a new file. -/
theorem adds_of_open {slot : Slot} (hnone : ∀ node, host.stat path ≠ .ok node)
    (hopen : host.files.openForWriting host.workingDir path = .ok slot) (content : Bytes) :
    ∃ dir name, slot = .file dir name ∧
      host.Adds path content (dir ++ [name]) { host with files := host.files.store slot content } := by
  have hfind : ∀ place node, host.find path ≠ .ok (place, node) :=
    fun place node hfound => hnone node (stat_eq_ok_iff.mpr ⟨place, hfound⟩)
  cases slot with
  | device kind =>
    -- A device that can be opened is found.
    obtain ⟨place, hfound⟩ := FileSystem.find_of_open_device hopen
    exact absurd hfound (hfind place _)
  | file dir name =>
    have hvacant := FileSystem.vacant_of_open hopen hfind
    have hfree := FileSystem.get?_of_vacant hvacant
    refine ⟨dir, name, rfl, ⟨dir, name, rfl, hvacant⟩, hfree, FileSystem.find_store hopen content,
      ⟨rfl, rfl, rfl, fun loc hne => FileSystem.own_get?_store hopen content hne⟩, ?_⟩
    intro other old hread
    cases hother : host.find other with
    | error cause => simp [Host.read, hother] at hread
    | ok found =>
      obtain ⟨loc, node⟩ := found
      -- The other path found something, and at the new place there was nothing.
      have hne : loc ≠ dir ++ [name] := by
        intro hloc
        subst hloc
        rw [FileSystem.get?_of_find hother] at hfree
        cases hfree
      obtain ⟨node', hown, hafter⟩ := FileSystem.find_store_elsewhere hopen content hother hne
      rw [← hread]
      exact read_congr hother hafter hown

/-! ### Storing settings -/

/-- How a new file can fail to be finished: there is too little room for it, or it does not close. -/
inductive Unfinished (m : Medium) (path document : Bytes) : Bytes → StoreError → Prop where
  | cut {room : Nat} {cause : Cause} : m.limit? = some (room, cause) → room < document.length →
      Unfinished m path document (document.take room) (.write ⟨.write, path, cause⟩)
  | notClosed {cause : Cause} : m.closing? = some cause →
      Unfinished m path document document (.write ⟨.close, path, cause⟩)

theorem Unfinished.isPrefix {m : Medium} {document : Bytes} {e : StoreError}
    (h : Unfinished m path document content e) : content <+: document := by
  cases h with
  | cut _ _ => exact List.take_prefix _ _
  | notClosed _ => exact List.prefix_rfl

theorem storeSettings_of_stat {node : Node} (h : host.stat path = .ok node) (s : Settings) :
    host.storeSettings path s false = (host, .error (.exists path)) := by
  unfold storeSettings
  rw [h]

theorem storeSettings_of_vacant (hnone : ∀ node, host.stat path ≠ .ok node) (s : Settings) :
    host.storeSettings path s false =
      ((host.writeFile path s.document).1, (host.writeFile path s.document).2.mapError .write) := by
  unfold storeSettings
  split
  · rename_i hstat
    exact absurd hstat (hnone _)
  · split
    · rename_i hwrite
      rw [hwrite]
      rfl
    · rename_i hwrite
      rw [hwrite]
      rfl

/-- All that storing settings can come to: nothing changes, or a new file is made, whole or not. -/
theorem storeSettings_cases (host : Host) (path : Bytes) (s : Settings) :
    (∃ e, host.storeSettings path s false = (host, .error e)) ∨
      ∃ place host',
        (host.Adds path s.document place host' ∧ host.storeSettings path s false = (host', .ok ())) ∨
        ∃ content e, host.Adds path content place host' ∧
          Unfinished (host.media place) path s.document content e ∧
          host.storeSettings path s false = (host', .error e) := by
  by_cases hstat : ∃ node, host.stat path = .ok node
  · obtain ⟨node, hstat⟩ := hstat
    exact .inl ⟨_, storeSettings_of_stat hstat s⟩
  have hnone : ∀ node, host.stat path ≠ .ok node := fun node hnode => hstat ⟨node, hnode⟩
  rw [storeSettings_of_vacant hnone]
  rcases host.writeFile_cases path s.document with ⟨cause, _, hwrite⟩ | ⟨slot, hopen, hhost, hresult⟩
  · rw [hwrite]
    exact .inl ⟨_, rfl⟩
  obtain ⟨dir, name, rfl, hadds⟩ :=
    adds_of_open hnone hopen ((host.medium slot).kept s.document)
  have hfilled : host.Adds path ((host.medium (.file dir name)).kept s.document) (dir ++ [name])
      (host.fill (.file dir name) s.document) := hadds
  right
  refine ⟨dir ++ [name], host.fill (.file dir name) s.document, ?_⟩
  rw [hhost, hresult]
  cases hfault : (host.medium (.file dir name)).fault? s.document with
  | none =>
    left
    rw [Medium.kept_of_sound hfault] at hfilled
    exact ⟨hfilled, rfl⟩
  | some fault =>
    right
    rcases Medium.fault?_cases hfault with
      ⟨room, cause, hlimit, hroom, rfl, hkept⟩ | ⟨cause, hclosing, rfl, hkept⟩
    · rw [hkept] at hfilled
      exact ⟨_, _, hfilled, .cut hlimit hroom, rfl⟩
    · rw [hkept] at hfilled
      exact ⟨_, _, hfilled, .notClosed hclosing, rfl⟩

theorem storeSettings_error {e : StoreError} (h : (host.storeSettings path s false).2 = .error e) :
    (host.storeSettings path s false).1 = host ∨
      ∃ place content, host.Adds path content place (host.storeSettings path s false).1 ∧
        Unfinished (host.media place) path s.document content e := by
  rcases host.storeSettings_cases path s with
    ⟨e', hstored⟩ | ⟨place, host', ⟨_, hstored⟩ | ⟨content, e', hadds, hunfinished, hstored⟩⟩
  · left
    rw [hstored]
  · rw [hstored] at h
    cases h
  · right
    rw [hstored] at h ⊢
    cases h
    exact ⟨place, content, hadds, hunfinished⟩

theorem storeSettings_ok (h : (host.storeSettings path s false).2 = .ok ()) :
    ∃ place, host.Adds path s.document place (host.storeSettings path s false).1 := by
  rcases host.storeSettings_cases path s with
    ⟨e, hstored⟩ | ⟨place, host', ⟨hadds, hstored⟩ | ⟨content, e, _, _, hstored⟩⟩
  · rw [hstored] at h
    cases h
  · rw [hstored]
    exact ⟨place, hadds⟩
  · rw [hstored] at h
    cases h

/-- A file that was there before has its content, whatever becomes of the settings. -/
theorem get?_storeSettings {loc : Location} {old : Bytes} {access : Access}
    (hold : host.files.get? loc = some (.file old access)) (path : Bytes) (s : Settings) :
    (host.storeSettings path s false).1.files.get? loc = some (.file old access) := by
  rcases host.storeSettings_cases path s with
    ⟨e, hstored⟩ | ⟨place, host', ⟨hadds, hstored⟩ | ⟨content, e, hadds, _, hstored⟩⟩
  · rw [hstored]
    exact hold
  · rw [hstored]
    exact hadds.get?_file hold
  · rw [hstored]
    exact hadds.get?_file hold

end Host

/-! ### Calls of the program -/

/-- A call of the program. -/
structure Invocation where
  patience : Discovery.Patience
  terminal : Terminal
  arguments : List Bytes

/-- Calls for a first settings file that are not allowed to overwrite one. -/
def Invocation.AsksForFirst (c : Invocation) : Prop :=
  ∃ rest, Command.select c.arguments = (.init, rest) ∧
    ∀ given, Arguments.parse Command.init.allFlags rest = .ok given → given.values.isOn "force" = false

namespace Host

def answer (host : Host) (c : Invocation) : CommandOutcome :=
  host.runProgram c.patience c.terminal c.arguments

/-- The host after one call after the other. -/
def afterCalls (host : Host) (calls : List Invocation) : Host :=
  calls.foldl (fun host c => (host.answer c).host) host

/-- A call makes a first settings file, and says whether it could finish it. -/
structure Starts (host : Host) (c : Invocation) (s : Settings) (content : Bytes) (host' : Host) : Prop where
  settings : ∃ rest given, Command.select c.arguments = (.init, rest) ∧
    Arguments.parse Command.init.allFlags rest = .ok given ∧
    s = Command.starterSettings host (given.values.textOf "package")
  made : ∃ place, host.Adds SettingsFile.starterName content place host' ∧
    ((content = s.document ∧ host.answer c = .printed host' c.terminal
        (text "Config written to " ++ SettingsFile.starterName ++ [Bytes.newline])) ∨
      ∃ e, Unfinished (host.media place) SettingsFile.starterName s.document content e ∧
        host.answer c = .failed host' (.store e))

variable {host host' : Host} {c : Invocation} {calls : List Invocation} {s : Settings} {content : Bytes}

theorem Starts.host_answer (h : host.Starts c s content host') : (host.answer c).host = host' := by
  obtain ⟨place, _, ⟨_, hanswer⟩ | ⟨e, _, hanswer⟩⟩ := h.made
  · rw [hanswer]
    rfl
  · rw [hanswer]
    rfl

/-- A call that was answered without an error has written the whole document. -/
theorem Starts.content_eq (h : host.Starts c s content host') (hok : (host.answer c).result = .ok ()) :
    content = s.document := by
  obtain ⟨place, _, ⟨hwhole, _⟩ | ⟨e, _, hanswer⟩⟩ := h.made
  · exact hwhole
  · rw [hanswer] at hok
    cases hok

theorem answer_cases (h : c.AsksForFirst) (host : Host) :
    (host.answer c).host = host ∨ ∃ s content host', host.Starts c s content host' := by
  obtain ⟨rest, hselect, hforce⟩ := h
  have hanswer : host.answer c = Command.init.run host c.patience c.terminal rest := by
    rw [answer, runProgram, hselect]
  cases hparse : Arguments.parse Command.init.allFlags rest with
  | error e =>
    left
    rw [hanswer, Command.run, hparse]
    rfl
  | ok given =>
    rw [Command.run, hparse] at hanswer
    dsimp only at hanswer
    split at hanswer
    · left
      rw [hanswer]
      rfl
    rw [Command.runInit] at hanswer
    split at hanswer
    · left
      rw [hanswer]
      rfl
    rw [hforce given hparse] at hanswer
    dsimp only at hanswer
    rcases host.storeSettings_cases SettingsFile.starterName
        (Command.starterSettings host (given.values.textOf "package")) with
      ⟨e, hstored⟩ | ⟨place, host', ⟨hadds, hstored⟩ | ⟨content, e, hadds, hunfinished, hstored⟩⟩
    · left
      rw [hanswer, hstored]
      rfl
    · right
      rw [hstored] at hanswer
      exact ⟨_, _, host', ⟨rest, given, hselect, hparse, rfl⟩, place, hadds, .inl ⟨rfl, hanswer⟩⟩
    · right
      rw [hstored] at hanswer
      exact ⟨_, content, host', ⟨rest, given, hselect, hparse, rfl⟩, place, hadds,
        .inr ⟨e, hunfinished, hanswer⟩⟩

theorem answer_of_not_starts (h : c.AsksForFirst)
    (hnot : ∀ s content host', ¬ host.Starts c s content host') : (host.answer c).host = host := by
  rcases answer_cases h host with hsame | ⟨s, content, host', hstarts⟩
  · exact hsame
  · exact absurd hstarts (hnot s content host')

theorem not_starts_of_find {place : Location} {node : Node}
    (h : host.find SettingsFile.starterName = .ok (place, node)) (s : Settings) (content : Bytes)
    (host' : Host) : ¬ host.Starts c s content host' := by
  intro hstarts
  obtain ⟨place', hadds, _⟩ := hstarts.made
  -- What is found is somewhere, and the new place is free.
  obtain ⟨dir, name, rfl, hvacant⟩ := hadds.leads
  rw [find, FileSystem.find, hvacant] at h
  cases h

/-- As long as no call makes a file, the host stays as it is. -/
theorem afterCalls_of_not_starts (hcalls : ∀ c ∈ calls, c.AsksForFirst)
    (hnot : ∀ c ∈ calls, ∀ s content host', ¬ host.Starts c s content host') :
    host.afterCalls calls = host := by
  induction calls with
  | nil => rfl
  | cons c calls ih =>
    rw [List.forall_mem_cons] at hcalls hnot
    rw [afterCalls, List.foldl_cons, answer_of_not_starts hcalls.1 hnot.1]
    exact ih hcalls.2 hnot.2

theorem exists_first_start (host : Host) (calls : List Invocation) :
    (∀ c ∈ calls, ∀ s content host', ¬ host.Starts c s content host') ∨
      ∃ before c later s content host', calls = before ++ c :: later ∧
        (∀ b ∈ before, ∀ s content host', ¬ host.Starts b s content host') ∧
        host.Starts c s content host' := by
  induction calls with
  | nil => simp
  | cons first calls ih =>
    by_cases hfirst : ∃ s content host', host.Starts first s content host'
    · obtain ⟨s, content, host', hstarts⟩ := hfirst
      exact .inr ⟨[], first, calls, s, content, host', rfl, by simp, hstarts⟩
    have hnot : ∀ s content host', ¬ host.Starts first s content host' :=
      fun s content host' hstarts => hfirst ⟨s, content, host', hstarts⟩
    rcases ih with hnone | ⟨before, c, later, s, content, host', rfl, hbefore, hstarts⟩
    · exact .inl (List.forall_mem_cons.mpr ⟨hnot, hnone⟩)
    · exact .inr ⟨first :: before, c, later, s, content, host', rfl,
        List.forall_mem_cons.mpr ⟨hnot, hbefore⟩, hstarts⟩

/-- After the first call that makes a file no call changes anything. -/
theorem afterCalls_of_starts {before later : List Invocation}
    (hcalls : ∀ b ∈ before ++ c :: later, b.AsksForFirst)
    (hbefore : ∀ b ∈ before, ∀ s content host', ¬ host.Starts b s content host')
    (h : host.Starts c s content host') :
    host.afterCalls before = host ∧ host.afterCalls (before ++ c :: later) = host' := by
  rw [List.forall_mem_append, List.forall_mem_cons] at hcalls
  have hsame := afterCalls_of_not_starts hcalls.1 hbefore
  obtain ⟨place, hadds, _⟩ := h.made
  have hlater := afterCalls_of_not_starts hcalls.2.2
    fun _ _ s content host' => not_starts_of_find hadds.found s content host'
  refine ⟨hsame, ?_⟩
  rw [afterCalls] at hsame
  rw [afterCalls, List.foldl_append, hsame, List.foldl_cons, h.host_answer]
  exact hlater

/--
Settings that may not overwrite anything destroy nothing. If their path finds something, everything stays
as it was. If storing them fails, everything stays as it was too, unless the disk failed while a new file
was written or closed: this file is then left, with a beginning of the document. If storing them succeeds,
one file is new, at the free name where the links of the path end, and holds the document, from which
printable settings are read back. In any case all files have their old contents. Calls for a first
settings file, however many, leave what the first of them wrote that could make a file, which is the whole
document if it was answered without an error.
-/
theorem storeSettings_destroys_nothing (host : Host) (path : Bytes) (s : Settings) :
    let stored := host.storeSettings path s false
    (∀ node, host.stat path = .ok node → stored = (host, .error (.exists path))) ∧
    (∀ e, stored.2 = .error e → stored.1 = host ∨
      ∃ place content, host.Adds path content place stored.1 ∧ content <+: s.document ∧
        Unfinished (host.media place) path s.document content e) ∧
    (stored.2 = .ok () → (∃ place, host.Adds path s.document place stored.1) ∧
      ((∀ key, (s.get key).Printable) → Yaml.readEntries s.document = .ok s.fileEntries ∧
        ∀ env : Environment, (∀ key : SettingKey, env.get? (text key.variableName) = none) →
          SettingLayers.settings ⟨[], env, s.fileEntries⟩ = .ok s.filled)) ∧
    (∀ loc old access, host.files.get? loc = some (.file old access) →
      stored.1.files.get? loc = some (.file old access)) ∧
    ∀ calls : List Invocation, (∀ c ∈ calls, c.AsksForFirst) →
      ((∀ c ∈ calls, ∀ s content host', ¬ host.Starts c s content host') ∧ host.afterCalls calls = host) ∨
      ∃ before c later s content host', calls = before ++ c :: later ∧
        (∀ b ∈ before, ∀ s content host', ¬ host.Starts b s content host') ∧ host.afterCalls before = host ∧
        host.Starts c s content host' ∧ host.afterCalls calls = host' ∧
        host'.read SettingsFile.starterName = .ok content ∧
        ((host.answer c).result = .ok () → content = s.document) := by
  intro stored
  refine ⟨?_, ?_, ?_, ?_, ?_⟩
  · intro node hstat
    exact storeSettings_of_stat hstat s
  · intro e he
    rcases storeSettings_error he with hsame | ⟨place, content, hadds, hunfinished⟩
    · exact .inl hsame
    · exact .inr ⟨place, content, hadds, hunfinished.isPrefix, hunfinished⟩
  · intro hok
    refine ⟨storeSettings_ok hok, ?_⟩
    intro hprintable
    exact ⟨Settings.readEntries_document hprintable,
      fun env henv => SettingLayers.settings_fileEntries henv⟩
  · intro loc old access hold
    exact get?_storeSettings hold path s
  · intro calls hcalls
    rcases host.exists_first_start calls with
      hnone | ⟨before, c, later, s, content, host', rfl, hbefore, hstarts⟩
    · exact .inl ⟨hnone, afterCalls_of_not_starts hcalls hnone⟩
    · obtain ⟨hsame, hafter⟩ := afterCalls_of_starts hcalls hbefore hstarts
      obtain ⟨place, hadds, _⟩ := hstarts.made
      exact .inr ⟨before, c, later, s, content, host', rfl, hbefore, hsame, hstarts, hafter, hadds.read,
        hstarts.content_eq⟩

/-! ### Through a link -/

/-- The shortest call for a first settings file. -/
def plainStart : Invocation := ⟨none, .endless false, [text "init"]⟩

theorem select_plainStart : Command.select plainStart.arguments = (.init, []) := by
  decide +kernel

theorem parse_nothing (flags : List Flag) : Arguments.parse flags [] = .ok ⟨[], []⟩ := by
  rw [Arguments.parse, Arguments.parseFrom]

theorem asksForFirst_plainStart : plainStart.AsksForFirst := by
  refine ⟨[], select_plainStart, ?_⟩
  intro given hgiven
  rw [parse_nothing] at hgiven
  cases hgiven
  rfl

theorem answer_plainStart (host : Host) :
    host.answer plainStart = Command.runInit host plainStart.terminal ⟨[], []⟩ := by
  rw [answer, runProgram, select_plainStart]
  dsimp only
  rw [Command.run, parse_nothing]
  dsimp only
  rw [if_neg (by decide)]

theorem answer_dangling : (dangling.answer plainStart).host ≠ dangling ∧
    (dangling.answer plainStart).result = .ok () := by
  have hstat : dangling.stat SettingsFile.starterName =
      .error ⟨.stat, SettingsFile.starterName, .notFound⟩ := rfl
  have hopen : dangling.files.openForWriting dangling.workingDir SettingsFile.starterName =
      .ok (.file [] SettingsFile.starterName) := rfl
  have hforce : FlagValues.isOn [] "force" = false := rfl
  rw [answer_plainStart, Command.runInit]
  dsimp only
  rw [hforce, storeSettings_of_open hstat hopen rfl]
  refine ⟨?_, rfl⟩
  intro hsame
  have hfind := FileSystem.find_store hopen
    (Command.starterSettings dangling (FlagValues.textOf [] "package")).document
  have hfiles := congrArg Host.files hsame
  dsimp only [CommandOutcome.printed] at hfiles
  rw [hfiles] at hfind
  have hmissing : dangling.files.find dangling.workingDir SettingsFile.starterName = .error .notFound := rfl
  rw [hmissing] at hfind
  cases hfind

theorem storeSettings_destroys_nothing_dangling :
    dangling.Adds (text "a") Settings.standard.document [text "b"]
        (dangling.storeSettings (text "a") Settings.standard false).1 ∧
      ∃ s : Settings,
        (dangling.afterCalls [plainStart, plainStart, plainStart]).read SettingsFile.starterName =
        .ok s.document := by
  have hstat : dangling.stat (text "a") = .error ⟨.stat, text "a", .notFound⟩ := rfl
  have hopen : dangling.files.openForWriting dangling.workingDir (text "a") = .ok (.file [] (text "b")) := rfl
  have hlocate : dangling.files.locate dangling.workingDir true (text "a") =
      .ok (.vacant [] (text "b") false) := rfl
  have hok : (dangling.storeSettings (text "a") Settings.standard false).2 = .ok () := by
    rw [storeSettings_of_open hstat hopen rfl]
  obtain ⟨_, _, hadds, _, hcalls⟩ := storeSettings_destroys_nothing dangling (text "a") Settings.standard
  constructor
  · obtain ⟨⟨place, hplace⟩, _⟩ := hadds hok
    obtain ⟨dir, name, rfl, hleads⟩ := hplace.leads
    rw [hlocate] at hleads
    cases hleads
    exact hplace
  · obtain ⟨hchanged, hanswered⟩ := answer_dangling
    rcases hcalls [plainStart, plainStart, plainStart] (by simp [asksForFirst_plainStart]) with
      ⟨hnone, _⟩ | ⟨before, c, later, s, content, host', hsplit, _, _, _, hafter, hread, hwhole⟩
    · exact absurd (answer_of_not_starts asksForFirst_plainStart (hnone plainStart (by simp))) hchanged
    · have hc : c = plainStart := by
        have hmem : c ∈ [plainStart, plainStart, plainStart] := by simp [hsplit]
        simpa using hmem
      subst hc
      exact ⟨s, by rw [hafter, hread, hwhole hanswered]⟩

/-! ### What a file can lose -/

/-- A disk that has room for a few bytes only. -/
def cramped : Host := { dangling with media := fun _ => ⟨some (3, .noSpace), none⟩ }

end Host

/-- The standard settings of a package, with another file for the report. -/
def Settings.withOutput (output : Bytes) : Settings :=
  { Settings.standard with
    packageName := text "app"
    options := { AnalysisOptions.standard with output := output } }

/--
On a full disk the settings are not stored, yet there is a new file, and no settings can be stored there
any more. Even a file that was written whole need not hold the settings: the line break at the beginning
of a text is lost.
-/
theorem Host.storeSettings_leaves_less :
    (∃ host', cramped.storeSettings (text "a") Settings.standard false =
        (host', .error (.write ⟨.write, text "a", .noSpace⟩)) ∧
      cramped.read (text "a") = .error ⟨.open, text "a", .notFound⟩ ∧
      host'.read (text "a") = .ok (text "lib") ∧
      host'.storeSettings (text "a") Settings.standard false = (host', .error (.exists (text "a")))) ∧
    ∃ host', dangling.storeSettings (text "a") (Settings.withOutput (text "\na")) false =
      (host', .ok ()) ∧
      (host'.loadSettings (text "a") []).2 = .ok (Settings.withOutput (text "a")).filled := by
  refine ⟨⟨_, Prod.ext rfl ?_, ?_, ?_, ?_⟩, ⟨_, Prod.ext rfl ?_, ?_⟩⟩
  · decide +kernel
  · decide +kernel
  · decide +kernel
  · exact storeSettings_of_stat rfl _
  · decide +kernel
  · decide +kernel

end DartReach
