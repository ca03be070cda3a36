import DartReach.Proofs.FileWriting
import DartReach.Proofs.SettingPriority
import DartReach.Proofs.YamlDocument
import DartReach.Settings.Store

/-!
# Settings read back

Settings with printable texts are loaded from the file they were stored in. Each of them is one entry of
the file, under a name of its own; only a flag that is off is left out, and then its standard value is
taken.
-/

namespace DartReach

set_option autoImplicit false

namespace SettingValue

/-- Settings whose texts are printable. -/
def Printable : SettingValue → Prop
  | .text value => Yaml.Printable value
  | .list items => ∀ item ∈ items.items, Yaml.Printable item
  | .truth _ => True

/-- What is written for a setting. -/
def entry : SettingValue → Yaml.Writer.Entry
  | .text value => .string value
  | .list items => .strings items.items
  | .truth on => .flag on

theorem Printable.entry {v : SettingValue} (h : v.Printable) : Yaml.Writer.PrintableEntry v.entry := by
  cases v with
  | text value => exact h
  | list items => exact h
  | truth on => trivial

end SettingValue

/-! ### Names -/

namespace SettingKey

theorem isName_name (key : SettingKey) : Yaml.Scalar.IsName key.name.toList := by
  cases key <;> exact Yaml.Scalar.isName_of_all (by decide) (by decide)

theorem length_name_le (key : SettingKey) : key.name.toList.length ≤ 1024 := by
  cases key <;> decide

theorem meaning_name (key : SettingKey) : Yaml.Plain.meaning true key.name.toList = .string := by
  cases key <;> decide

theorem clear_name (key : SettingKey) {e : Yaml.Writer.Entry} (he : Yaml.Writer.PrintableEntry e) :
    Yaml.Writer.Clear (key.name, e) where
  name := key.isName_name
  short := key.length_name_le
  isText := key.meaning_name
  printable := he

theorem foldCase_name (key : SettingKey) : Registry.foldCase (text key.name) = text key.name := by
  rw [Registry.foldCase, text, Utf8.decode_encode]
  cases key <;> rfl

end SettingKey

namespace Settings

/-- The settings that are written. -/
def writtenKeys (s : Settings) : List SettingKey :=
  SettingKey.all.filter (fun key => key ≠ .debug || s.options.debug)

/-- The settings with lists in place of those that were left open. -/
def filled (s : Settings) : Settings :=
  { s with
    options :=
      { s.options with
        entryPoints := some s.options.entryPoints.items
        builtinPrefixes := some s.options.builtinPrefixes.items
        exclude := some s.options.exclude.items } }

variable {s : Settings}

theorem document_eq (s : Settings) :
    s.document = Yaml.Writer.document (s.writtenKeys.map fun key => (key.name, (s.get key).entry)) := by
  unfold document writtenKeys
  cases hdebug : s.options.debug <;> simp [SettingKey.all, SettingKey.name, get, SettingValue.entry, hdebug]

theorem nodup_writtenKeys (s : Settings) : s.writtenKeys.Nodup := by
  have hall : SettingKey.all.Nodup := by decide
  exact hall.filter _

theorem mem_writtenKeys {key : SettingKey} :
    key ∈ s.writtenKeys ↔ (key ≠ .debug ∨ s.options.debug = true) := by
  simp [writtenKeys, key.mem_all]

/-- What the file says about the settings. -/
def fileEntries (s : Settings) : List (Yaml.Value × Yaml.Value) :=
  s.writtenKeys.map fun key => (.string (text key.name), (s.get key).entry.value)

theorem readEntries_document (h : ∀ key, (s.get key).Printable) :
    Yaml.readEntries s.document = .ok s.fileEntries := by
  have hne : s.writtenKeys ≠ [] := by
    have hroot : SettingKey.libRoot ∈ s.writtenKeys := mem_writtenKeys.mpr (Or.inl (by decide))
    exact List.ne_nil_of_mem hroot
  rw [document_eq, Yaml.readEntries_document (by simpa using hne), fileEntries, List.map_map]
  · rfl
  · intro e he
    obtain ⟨key, _, rfl⟩ := List.mem_map.mp he
    exact key.clear_name (h key).entry
  · rw [List.map_map]
    exact s.nodup_writtenKeys.map fun _ _ hname => SettingKey.text_name_injective (congrArg text hname)

end Settings

/-! ### Layers -/

namespace Registry

theorem distinct_names {keys : List SettingKey} (h : keys.Nodup) (v : SettingKey → Yaml.Value) :
    Distinct (keys.map fun key => (.string (text key.name), v key)) := by
  have hfolded : (keys.map fun key => (Yaml.Value.string (text key.name), v key)).filterMap (foldedKey? ·.1)
      = keys.map fun key => text key.name := by
    rw [List.filterMap_map]
    simp [Function.comp_def, foldedKey?, SettingKey.foldCase_name]
  rw [Distinct, hfolded]
  exact h.map fun _ _ htext => SettingKey.text_name_injective htext

theorem entryValue?_names (keys : List SettingKey) (v : SettingKey → Yaml.Value) (key : SettingKey) :
    entryValue? (keys.map fun key => (.string (text key.name), v key)) (text key.name)
      = if key ∈ keys then some (v key) else none := by
  induction keys with
  | nil => rfl
  | cons other keys ih =>
    have hfolded : foldedKey? (.string (text other.name)) = some (text other.name) :=
      congrArg some other.foldCase_name
    rw [List.map_cons, entryValue?, List.find?_cons, hfolded]
    by_cases hkey : key = other
    · subst hkey
      simp
    · have hname : text other.name ≠ text key.name := by
        intro htext
        exact hkey (SettingKey.text_name_injective htext).symm
      rw [entryValue?] at ih
      simp only [Option.some.injEq, hname, decide_false, ih, List.mem_cons, hkey, false_or]

end Registry

/-- Values that say of every setting what is written for it are decoded to the settings. -/
theorem Decode.settings_of_entries {values : List (Bytes × Yaml.Value)} {s : Settings}
    (h : ∀ key : SettingKey, values.lookup (text key.name) = some (s.get key).entry.value) :
    Decode.settings values = .ok s.filled := by
  simp only [settings, textOf, listOf, truthOf, h, Settings.get, SettingValue.entry, Yaml.Writer.Entry.value,
    asText, asTruth, asList, asTexts_strings]
  rfl

namespace SettingLayers

variable {s : Settings} {env : Environment} {key : SettingKey}

/-- Without flags and variables a setting is what the file says about it. -/
theorem given?_fileEntries (henv : env.get? (text key.variableName) = none) :
    given? ⟨[], env, s.fileEntries⟩ key
      = if key ∈ s.writtenKeys then some (s.get key).entry.value else none := by
  have hfile : Registry.fileValue? s.fileEntries (text key.name)
      = if key ∈ s.writtenKeys then some (s.get key).entry.value else none := by
    rw [Settings.fileEntries,
      Registry.fileValue?_eq_entryValue? (Registry.distinct_names s.nodup_writtenKeys _),
      Registry.entryValue?_names]
  have hflag : FlagSet.given? [] key.flagName = none := rfl
  rw [given?, hflag, henv, hfile]
  split
  · cases s.get key <;> rfl
  · rfl

/-- A setting that is not written is at its standard value. -/
theorem given?_getD_fileEntries (henv : env.get? (text key.variableName) = none) :
    (given? ⟨[], env, s.fileEntries⟩ key).getD key.standard = (s.get key).entry.value := by
  rw [given?_fileEntries henv]
  split
  · rfl
  · rename_i hleft
    rw [Settings.mem_writtenKeys, not_or, not_not, Bool.not_eq_true] at hleft
    obtain ⟨rfl, hdebug⟩ := hleft
    rw [Settings.get, hdebug]
    rfl

theorem settings_fileEntries (henv : ∀ key : SettingKey, env.get? (text key.variableName) = none) :
    settings ⟨[], env, s.fileEntries⟩ = .ok s.filled := by
  apply Decode.settings_of_entries
  intro key
  rw [lookup_registryIn _ SettingKey.mem_all, given?_getD_fileEntries (henv key)]

end SettingLayers

/-! ### Storing and loading -/

theorem Settings.named_of_valid {s : Settings} (h : s.fault? = none) (host : Host) :
    s.filled.named host = .ok s.filled := by
  have hpackage : s.packageName ≠ [] := by
    intro hnil
    have hblank : isBlank s.packageName = true := by
      rw [hnil, isBlank, Utf8.decode_nil]
      rfl
    rw [fault?, hblank] at h
    split at h <;> simp at h
  rw [named, if_neg]
  simp [filled, hpackage]

namespace Host

theorem writeFile_of_storeSettings {host host' : Host} {path : Bytes} {s : Settings} {overwrite : Bool}
    (h : host.storeSettings path s overwrite = (host', .ok ())) :
    host.writeFile path s.document = (host', .ok ()) := by
  unfold storeSettings at h
  split at h
  · cases h
  · split at h
    · rename_i hwrite
      cases h
      exact hwrite
    · cases h

/-- Settings that are stored where nothing is yet, on a medium that takes them. -/
theorem storeSettings_of_open {host : Host} {path : Bytes} {e : SystemError} {dir : Location} {name : Name}
    (hstat : host.stat path = .error e)
    (hopen : host.files.openForWriting host.workingDir path = .ok (.file dir name))
    (hmedium : host.medium (.file dir name) = .ample) (s : Settings) :
    host.storeSettings path s false =
      ({ host with files := host.files.store (.file dir name) s.document }, .ok ()) := by
  have hwrite : host.writeFile path s.document =
      ({ host with files := host.files.store (.file dir name) s.document }, .ok ()) := by
    rcases host.writeFile_cases path s.document with ⟨cause, hfailed, _⟩ | ⟨slot, hslot, hhost, hresult⟩
    · rw [hopen] at hfailed
      cases hfailed
    · rw [hopen] at hslot
      cases hslot
      rw [fill, hmedium] at hhost
      rw [hmedium] at hresult
      exact Prod.ext hhost hresult
  unfold storeSettings
  rw [hstat]
  dsimp only
  rw [hwrite]

theorem read_nil (host : Host) (content : Bytes) : host.read [] ≠ .ok content := by
  have hfind : host.find [] = .error .notFound := rfl
  simp [read, hfind]

theorem loadEnvironmentFile_of_unreadable {host : Host}
    (h : ∀ content, host.read EnvironmentFile.fileName ≠ .ok content) : host.loadEnvironmentFile = host := by
  unfold loadEnvironmentFile
  split
  · rfl
  · rename_i content hread
    exact absurd hread (h content)

/--
Usable settings with printable texts that were stored in a file are loaded from it, where neither
variables nor the file `.env` say something else; a list that was left open is loaded as an empty one.
-/
theorem loadSettings_storeSettings {host host' : Host} {path : Bytes} {s : Settings} {overwrite : Bool}
    (hvalid : s.fault? = none) (hprintable : ∀ key, (s.get key).Printable)
    (hstore : host.storeSettings path s overwrite = (host', .ok ()))
    (hfile : ∀ kind, host.stat path ≠ .ok (.device kind))
    (hvariables : ∀ key : SettingKey, host'.env.get? (text key.variableName) = none)
    (hdotenv : ∀ content, host'.read EnvironmentFile.fileName ≠ .ok content) :
    host'.loadSettings path [] = (host', .ok s.filled) := by
  have hread : host'.read path = .ok s.document := read_writeFile (writeFile_of_storeSettings hstore) hfile
  have hpath : path.isEmpty = false := by
    cases path with
    | nil => exact absurd hread (host'.read_nil _)
    | cons b rest => rfl
  have hentries : SettingsFile.entries host' path = .ok s.fileEntries := by
    simp [SettingsFile.entries, SettingsFile.locate, hpath, hread, Settings.readEntries_document hprintable,
      Except.mapError]
  have hchecked : s.filled.checked = .ok s.filled := by
    have hfault : s.filled.fault? = none := hvalid
    rw [Settings.checked, hfault]
  simp only [loadSettings, loadEnvironmentFile_of_unreadable hdotenv, settings, givenSettings, hentries,
    SettingLayers.settings_fileEntries hvariables, Except.mapError, bind, Except.bind,
    Settings.named_of_valid hvalid, hchecked]

/-- A directory with a link to a file that is not there yet. -/
def dangling : Host where
  files :=
    { root := .dir [(text "a", .link (text "b"))] .full
      wellFormed := .dir _ _ (by decide) (by simpa using .link _ (by decide)) (by decide) }
  workingDir := some []
  env := []

end Host

/-- Settings that read as something else unless they are quoted. -/
def Settings.misleading : Settings where
  libRoot := text "- #"
  packageName := text "null"
  options :=
    { entryPoints := some [[], text "'\"", text "<<", text " a: b "]
      extension := text "0x1F"
      builtinPrefixes := none
      exclude := some []
      ignoreFile := text "~"
      output := text "---"
      format := AnalysisOptions.jsonFormat
      debug := false }

theorem Host.loadSettings_storeSettings_misleading :
    ∃ host', dangling.storeSettings (text "a") Settings.misleading false = (host', .ok ()) ∧
      host'.loadSettings (text "a") [] = (host', .ok Settings.misleading.filled) := by
  have hstat : dangling.stat (text "a") = .error ⟨.stat, text "a", .notFound⟩ := rfl
  have hopen : dangling.files.openForWriting dangling.workingDir (text "a") = .ok (.file [] (text "b")) := rfl
  have hdotenv : ∀ document,
      ({ dangling with files := dangling.files.store (.file [] (text "b")) document } : Host).read
        EnvironmentFile.fileName = .error ⟨.open, EnvironmentFile.fileName, .notFound⟩ := by
    intro document
    rfl
  have hvalid : Settings.misleading.fault? = none := by decide +kernel
  have hprintable : ∀ key, (Settings.misleading.get key).Printable := by
    intro key
    cases key <;> simp only [Settings.get, SettingValue.Printable] <;> decide
  have hstored : dangling.storeSettings (text "a") Settings.misleading false
      = ({ dangling with files := dangling.files.store (.file [] (text "b")) Settings.misleading.document },
        .ok ()) := by
    exact storeSettings_of_open hstat hopen rfl Settings.misleading
  refine ⟨_, hstored, loadSettings_storeSettings hvalid hprintable hstored ?_ ?_ ?_⟩
  · simp [hstat]
  · intro key
    rfl
  · simp [hdotenv]

end DartReach
