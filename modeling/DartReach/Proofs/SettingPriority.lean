import Mathlib.Data.List.Nodup
import DartReach.CommandLine.Command
import DartReach.Proofs.ListRendering
import DartReach.Settings.Load

/-!
# Which layer a setting comes from

A setting is resolved from three things alone: its own flag, its own variable and its own entry in the
file. The flag comes first, then a variable that is not empty, then an entry that is not null, and the
standard value last. A variable is that of the process, and that of the file `.env` only if the process
has none. Loading gives every setting what it resolves to; only a package without a name is named
afterwards.

All of this goes through a registry that knows names only. Names of settings differ, and so do the names
of their variables: nothing that is registered for one setting is found under another, and every setting
finds its standard value before the flag that was not set.
-/

namespace DartReach

set_option autoImplicit false

/-! ### Variables -/

namespace Environment

theorem get?_cons (name value : Bytes) (env : Environment) (other : Bytes) :
    Environment.get? ((name, value) :: env) other =
      if other = name then some value else env.get? other := by
  rw [Environment.get?, List.lookup_cons]
  by_cases h : other = name
  · rw [if_pos h, beq_iff_eq.mpr h]
  · rw [if_neg h, beq_eq_false_iff_ne.mpr h, Environment.get?]

theorem get?_filter {env : Environment} {name other : Bytes} (h : other ≠ name) :
    Environment.get? (env.filter (·.1 ≠ name)) other = env.get? other := by
  induction env with
  | nil => rfl
  | cons e env ih =>
    obtain ⟨n, value⟩ := e
    by_cases hn : n = name
    · rw [List.filter_cons_of_neg (by simp [hn]), ih, get?_cons, if_neg (hn ▸ h)]
    · rw [List.filter_cons_of_pos (by simp [hn]), get?_cons, get?_cons, ih]

theorem get?_set (env : Environment) (name value other : Bytes) :
    (env.set name value).get? other = if other = name then some value else env.get? other := by
  rw [Environment.set, get?_cons]
  split
  · rfl
  · rename_i h
    rw [get?_filter h]

/-- The names of the variables. -/
def names (env : Environment) : List Bytes := env.map Prod.fst

theorem get?_eq_none {env : Environment} {name : Bytes} (h : name ∉ env.names) :
    env.get? name = none := by
  induction env with
  | nil => rfl
  | cons e env ih =>
    rw [names, List.map_cons, List.mem_cons, not_or] at h
    rw [get?_cons, if_neg h.1]
    exact ih h.2

theorem nodup_set {env : Environment} (h : env.names.Nodup) (name value : Bytes) :
    (env.set name value).names.Nodup := by
  rw [Environment.set, names, List.map_cons, List.nodup_cons]
  constructor
  · simp
  · exact h.sublist (List.filter_sublist.map Prod.fst)

end Environment

namespace EnvironmentFile

theorem nodup_parseFrom {known defined : Environment} {s : Bytes} (hknown : known.names.Nodup)
    (h : parseFrom known s = some defined) : defined.names.Nodup := by
  induction hn : s.length using Nat.strongRecOn generalizing known s with
  | ind n ih =>
    rw [parseFrom] at h
    split at h
    · cases h
      exact hknown
    · split at h
      · simp at h
      · split at h
        · simp at h
        · split at h
          · rename_i hlt
            exact ih _ (hn ▸ hlt) (Environment.nodup_set hknown _ _) h rfl
          · simp at h

/-- What a file defines fills the gaps of the environment, as far as it can be set. -/
theorem get?_extend (env : Environment) {defined : Environment} (h : defined.names.Nodup)
    (name : Bytes) :
    (extend env defined).get? name =
      (env.get? name).or ((defined.get? name).filter (isSettable name)) := by
  induction defined with
  | nil => simp [extend, Environment.get?]
  | cons e defined ih =>
    obtain ⟨n, value⟩ := e
    rw [Environment.names, List.map_cons, List.nodup_cons] at h
    have ih := ih h.2
    have hstep : extend env ((n, value) :: defined) =
        if ((extend env defined).get? n).isNone && isSettable n value then
          (extend env defined).set n value
        else extend env defined := rfl
    rw [hstep]
    by_cases hname : name = n
    · subst hname
      rw [Environment.get?_eq_none h.1, Option.filter_none, Option.or_none] at ih
      rw [ih, Environment.get?_cons, if_pos rfl]
      cases henv : env.get? name with
      | some old => simp [ih, henv]
      | none =>
        by_cases hset : isSettable name value = true
        · simp [hset, Environment.get?_set, Option.filter]
        · simp [hset, ih, henv, Option.filter]
    · rw [Environment.get?_cons, if_neg hname, ← ih]
      split
      · rw [Environment.get?_set, if_neg hname]
      · rfl

end EnvironmentFile

/-- What the file `.env` defines; nothing if it cannot be read or is malformed. -/
def Host.defined (host : Host) : Environment :=
  match host.read EnvironmentFile.fileName with
  | .ok content => (EnvironmentFile.parse content).getD []
  | .error _ => []

/--
A variable: the one of the process, even an empty one, and else the one that the file `.env` defines, unless
its value has a zero byte, which no variable can have.
-/
def Host.variableValue? (host : Host) (name : Bytes) : Option Bytes :=
  match host.env.get? name with
  | some value => some value
  | none => (host.defined.get? name).filter (·.all (· != 0))

namespace Host

theorem nodup_defined (host : Host) : host.defined.names.Nodup := by
  unfold defined
  split
  · rename_i content _
    cases hparse : EnvironmentFile.parse content with
    | none => simp [Environment.names]
    | some found => exact EnvironmentFile.nodup_parseFrom (by simp [Environment.names]) hparse
  · simp [Environment.names]

theorem loadEnvironmentFile_eq (host : Host) :
    host.loadEnvironmentFile = { host with env := EnvironmentFile.extend host.env host.defined } := by
  unfold loadEnvironmentFile defined
  cases host.read EnvironmentFile.fileName with
  | error e => rfl
  | ok content => cases hparse : EnvironmentFile.parse content <;> simp [hparse, EnvironmentFile.extend]

theorem get?_loadEnvironmentFile (host : Host) (key : SettingKey) :
    host.loadEnvironmentFile.env.get? (text key.variableName) =
      host.variableValue? (text key.variableName) := by
  have hsettable : EnvironmentFile.isSettable (text key.variableName) = (·.all (· != 0)) := by
    cases key <;> rfl
  rw [loadEnvironmentFile_eq, EnvironmentFile.get?_extend host.env host.nodup_defined, hsettable,
    variableValue?]
  cases host.env.get? (text key.variableName) <;> rfl

end Host

/-! ### Entries of the file -/

namespace Registry

/-- No two keys of the file are the same up to case. -/
def Distinct (entries : List (Yaml.Value × Yaml.Value)) : Prop :=
  (entries.filterMap (foldedKey? ·.1)).Nodup

/-- The value of the entry whose key is a name up to case. -/
def entryValue? (entries : List (Yaml.Value × Yaml.Value)) (name : Bytes) : Option Yaml.Value :=
  (entries.find? (foldedKey? ·.1 = some name)).map (·.2)

/-- The entries whose key is a name up to case, with the spelling of the key. -/
def spellings (entries : List (Yaml.Value × Yaml.Value)) (name : Bytes) :
    List (Bytes × Yaml.Value) :=
  entries.filterMap fun (k, v) =>
    match k with
    | .string key => if foldCase key = name then some (key, v) else none
    | _ => none

theorem spellings_eq_nil {entries : List (Yaml.Value × Yaml.Value)} {name : Bytes}
    (h : name ∉ entries.filterMap (foldedKey? ·.1)) : spellings entries name = [] := by
  rw [spellings, List.filterMap_eq_nil_iff]
  rintro ⟨k, v⟩ he
  simp only
  split
  · rename_i key
    rw [if_neg]
    rintro rfl
    exact h (List.mem_filterMap.mpr ⟨_, he, rfl⟩)
  · rfl

theorem spellings_of_distinct {entries : List (Yaml.Value × Yaml.Value)} (h : Distinct entries)
    (name : Bytes) :
    (spellings entries name = [] ∧ entryValue? entries name = none) ∨
      ∃ key v, spellings entries name = [(key, v)] ∧ entryValue? entries name = some v := by
  induction entries with
  | nil => exact .inl ⟨rfl, rfl⟩
  | cons e entries ih =>
    obtain ⟨k, v⟩ := e
    by_cases hk : foldedKey? k = some name
    · cases k with
      | string key =>
        rw [foldedKey?, Option.some.injEq] at hk
        have hfree : foldCase key ∉ entries.filterMap (foldedKey? ·.1) := (List.nodup_cons.mp h).1
        refine .inr ⟨key, v, ?_, by simp [entryValue?, foldedKey?, hk]⟩
        rw [← spellings_eq_nil (hk ▸ hfree)]
        exact List.filterMap_cons_some (if_pos hk)
      | _ => cases hk
    · have hspell : spellings ((k, v) :: entries) name = spellings entries name := by
        cases k with
        | string key =>
          rw [foldedKey?, Option.some.injEq] at hk
          exact List.filterMap_cons_none (if_neg hk)
        | _ => exact List.filterMap_cons_none rfl
      have hentry : entryValue? ((k, v) :: entries) name = entryValue? entries name := by
        simp [entryValue?, hk]
      rw [hspell, hentry]
      exact ih (h.sublist ((List.sublist_cons_self _ _).filterMap _))

theorem fileValue?_eq_entryValue? {entries : List (Yaml.Value × Yaml.Value)} (h : Distinct entries)
    (name : Bytes) : fileValue? entries name = entryValue? entries name := by
  change (((spellings entries name).find? (·.1 ≠ name)).or (spellings entries name).head?).map (·.2) = _
  rcases spellings_of_distinct h name with ⟨hnone, hentry⟩ | ⟨key, v, hone, hentry⟩
  · rw [hnone, hentry]
    rfl
  · rw [hone, hentry]
    by_cases hspelled : key = name <;> simp [hspelled]

end Registry

/-! ### Decoding -/

namespace Decode

theorem and_eq_ok_iff {α β : Type} {a : Outcome α} {f : Outcome (α → β)} {b : β} :
    Decode.and a f = .ok b ↔ ∃ make x, f = .ok make ∧ a = .ok x ∧ make x = b := by
  cases a <;> cases f <;> simp [Decode.and]

end Decode

/-- A setting of any type. -/
inductive SettingValue where
  | text (value : Bytes)
  | list (items : OptionalList)
  | truth (on : Bool)

/-- A setting by its key. -/
def Settings.get (s : Settings) : SettingKey → SettingValue
  | .libRoot => .text s.libRoot
  | .packageName => .text s.packageName
  | .entryPoints => .list s.options.entryPoints
  | .extension => .text s.options.extension
  | .builtinPrefixes => .list s.options.builtinPrefixes
  | .exclude => .list s.options.exclude
  | .ignoreFile => .text s.options.ignoreFile
  | .output => .text s.options.output
  | .format => .text s.options.format
  | .debug => .truth s.options.debug

namespace SettingKey

/-- A value decoded as the type of the setting asks for. -/
def decode (key : SettingKey) (v : Yaml.Value) : Decode.Outcome SettingValue :=
  match key with
  | .entryPoints | .builtinPrefixes | .exclude =>
    ((Decode.asList (text key.name) v).map some).map .list
  | .debug => (Decode.single (Decode.asTruth (text key.name) v)).map .truth
  | _ => (Decode.single (Decode.asText (text key.name) v)).map .text

end SettingKey

/-- What a flag says: its value, where line ends in a list are plain and a single empty item is no item. -/
def FlagValue.said : FlagValue → Yaml.Value
  | .switch on => .bool on
  | .text value => .string value
  | .list items => .list ((if items = [[]] then [] else items.map Bytes.unixLines).map .string)

namespace SettingKey

/--
What a setting comes to, given its flag, its variable and its entry in the file: the first of them counts,
where an empty variable and a null entry are passed over.
-/
def resolve (key : SettingKey) (flag? : Option FlagValue) (value? : Option Bytes)
    (entryValue? : Option Yaml.Value) : Decode.Outcome SettingValue :=
  match flag? with
  | some value => key.decode value.said
  | none =>
    match value? with
    | some (b :: rest) => key.decode (.string (b :: rest))
    | _ =>
      match entryValue? with
      | some v => if v.isNull then .ok (Settings.standard.get key) else key.decode v
      | none => .ok (Settings.standard.get key)

end SettingKey

namespace Decode

theorem asTexts_strings (name : Bytes) (i : Nat) (items : List Bytes) :
    asTexts name i (items.map .string) = .ok items := by
  induction items generalizing i with
  | nil => rfl
  | cons item items ih =>
    rw [List.map_cons, asTexts, ih]
    rfl

theorem settings_congr {values values' : List (Bytes × Yaml.Value)}
    (h : ∀ key : SettingKey, values.lookup (text key.name) = values'.lookup (text key.name)) :
    settings values = settings values' := by
  simp only [settings, textOf, listOf, truthOf, h]

/-- A setting of some type, made a setting of any type. -/
theorem decode_of_typed {α : Type} {key : SettingKey} {found : Option Yaml.Value} {v : Yaml.Value}
    {missing value : α} (make : α → SettingValue) {decode : Yaml.Value → Outcome α}
    (h : (match found with
      | none => Except.ok missing
      | some v => decode v) = .ok value)
    (hfound : found = some v) (hdecode : key.decode v = (decode v).map make) :
    key.decode v = .ok (make value) := by
  subst hfound
  have hvalue : decode v = .ok value := h
  rw [hdecode, hvalue]
  rfl

/-- Settings are what is said about each of them, decoded. -/
theorem decode_of_settings {values : List (Bytes × Yaml.Value)} {s : Settings} (h : settings values = .ok s)
    {key : SettingKey} {v : Yaml.Value} (hv : values.lookup (text key.name) = some v) :
    key.decode v = .ok (s.get key) := by
  simp only [settings, and_eq_ok_iff, start, Except.ok.injEq] at h
  obtain ⟨_, debug, ⟨_, format, ⟨_, output, ⟨_, ignoreFile, ⟨_, exclude, ⟨_, builtinPrefixes,
    ⟨_, extension, ⟨_, entryPoints, ⟨_, packageName, ⟨_, libRoot, rfl, hlibRoot, rfl⟩,
    hpackageName, rfl⟩, hentryPoints, rfl⟩, hextension, rfl⟩, hbuiltinPrefixes, rfl⟩,
    hexclude, rfl⟩, hignoreFile, rfl⟩, houtput, rfl⟩, hformat, rfl⟩, hdebug, rfl⟩ := h
  cases key with
  | libRoot => exact decode_of_typed .text hlibRoot hv rfl
  | packageName => exact decode_of_typed .text hpackageName hv rfl
  | entryPoints => exact decode_of_typed .list hentryPoints hv rfl
  | extension => exact decode_of_typed .text hextension hv rfl
  | builtinPrefixes => exact decode_of_typed .list hbuiltinPrefixes hv rfl
  | exclude => exact decode_of_typed .list hexclude hv rfl
  | ignoreFile => exact decode_of_typed .text hignoreFile hv rfl
  | output => exact decode_of_typed .text houtput hv rfl
  | format => exact decode_of_typed .text hformat hv rfl
  | debug => exact decode_of_typed .truth hdebug hv rfl

end Decode

namespace SettingKey

theorem decode_standard (key : SettingKey) : key.decode key.standard = .ok (Settings.standard.get key) := by
  cases key <;> rfl

/-- Whether a setting is a list. -/
def isList : SettingKey → Bool
  | .entryPoints | .builtinPrefixes | .exclude => true
  | _ => false

theorem decode_listFlag {key : SettingKey} (h : key.isList = true) (items : List Bytes) :
    key.decode (FlagValue.said (.list items))
      = .ok (.list (some (if items = [[]] then [] else items.map Bytes.unixLines))) := by
  have hlist :=
    Decode.asTexts_strings (text key.name) 0 (if items = [[]] then [] else items.map Bytes.unixLines)
  cases key <;> simp_all [isList, decode, FlagValue.said, Decode.asList, Except.map]

/-! ### Names -/

theorem mem_all (key : SettingKey) : key ∈ all := by
  cases key <;> decide

theorem text_name_injective {a b : SettingKey} (h : text a.name = text b.name) : a = b := by
  have hnames : (all.map fun key => text key.name).Nodup := by decide
  exact List.inj_on_of_nodup_map hnames a.mem_all b.mem_all h

end SettingKey

/-! ### The registry -/

namespace Registry

theorem lookup_filterMap (value? : Bytes → Option Yaml.Value) (names : List Bytes) (name : Bytes) :
    (names.filterMap fun n => (value? n).map (n, ·)).lookup name
      = if name ∈ names then value? name else none := by
  induction names with
  | nil => rfl
  | cons first names ih =>
    by_cases hname : name = first
    · subst hname
      cases hvalue : value? name with
      | none => simp [hvalue, ih]
      | some v => simp [hvalue]
    · have hother : (name == first) = false := beq_eq_false_iff_ne.mpr hname
      cases hvalue : value? first with
      | none => simp [hvalue, ih, hname]
      | some v => simp [hvalue, List.lookup_cons, hother, ih, hname]

/-- What has a standard value is among all that is said. -/
theorem lookup_contents {r : Registry} {name : Bytes} {v : Yaml.Value}
    (h : r.fromStandards? name = some v) : r.contents.lookup name = r.find? name := by
  have hname : name ∈ r.names := by
    obtain ⟨before, after, hstandards, _⟩ := List.lookup_eq_some_iff.mp h
    simp [names, hstandards]
  rw [contents, lookup_filterMap r.find? r.names name, if_pos hname]

/-- A store that is filled setting by setting has each value under the name of its setting. -/
theorem lookup_foldl {σ β : Type} {store : σ → List (Bytes × β)} {step : σ → SettingKey → σ}
    {value? : SettingKey → Option β}
    (hstep : ∀ r key, store (step r key) = (value? key).toList.map (text key.name, ·) ++ store r)
    (order : List SettingKey) (r : σ) (key : SettingKey) :
    (store (order.foldl step r)).lookup (text key.name)
      = (if key ∈ order then value? key else none).or ((store r).lookup (text key.name)) := by
  induction order generalizing r with
  | nil => rfl
  | cons first order ih =>
    rw [List.foldl_cons, ih, hstep]
    by_cases hkey : key = first
    · subst hkey
      cases value? key with
      | none => simp
      | some v => by_cases hmem : key ∈ order <;> simp [hmem]
    · have hname : (text key.name == text first.name) = false := by
        rw [beq_eq_false_iff_ne]
        intro hsame
        exact hkey (SettingKey.text_name_injective hsame)
      cases value? first with
      | none => simp [hkey]
      | some v => simp [hkey, List.lookup_cons, hname]

/-- A list flag that is shown as a record in brackets is read back. -/
theorem ofFlag_eq (value : FlagValue) : ofFlag value = value.said := by
  cases value with
  | switch on => cases on <;> rfl
  | text value => rfl
  | list items =>
    rw [ofFlag, FlagValue.shown, Csv.unbracketed_bracketed, Csv.record_render]
    rfl

end Registry

namespace SettingLayers

open Registry (fromSetFlag? fromEnvironment? fromFile? fromStandards? fromFlag?)

variable (layers : SettingLayers)

theorem fromStandards?_withStandards (r : Registry) (key : SettingKey) :
    (withStandards r).fromStandards? (text key.name) = some key.standard := by
  have hstep : ∀ (r : Registry) (k : SettingKey), (r.setStandard (text k.name) k.standard).standards =
      (some k.standard).toList.map (text k.name, ·) ++ r.standards := fun _ _ => rfl
  rw [fromStandards?, withStandards, Registry.lookup_foldl hstep, if_pos key.mem_all]
  rfl

theorem lookup_bindFlags (flags : FlagSet) (order : List SettingKey) (r : Registry) (key : SettingKey) :
    (bindFlags flags order r).flags.lookup (text key.name)
      = (if key ∈ order then flags.lookup key.flagName else none).or (r.flags.lookup (text key.name)) := by
  apply Registry.lookup_foldl
  intro r k
  cases flags.lookup k.flagName <;> rfl

/-- Binding flags changes nothing but flags. -/
theorem bindFlags_eq (flags : FlagSet) (order : List SettingKey) (r : Registry) :
    bindFlags flags order r = { r with flags := (bindFlags flags order r).flags } := by
  induction order generalizing r with
  | nil => rfl
  | cons key order ih =>
    rw [bindFlags, List.foldl_cons, ← bindFlags, ih]
    cases flags.lookup key.flagName <;> rfl

/-- What a setting is given by its own flag, variable and entry, the first of them that says something. -/
def given? (key : SettingKey) : Option Yaml.Value :=
  ((layers.flags.given? key.flagName).map FlagValue.said).or
    ((((layers.env.get? (text key.variableName)).filter (!·.isEmpty)).map .string).or
      ((Registry.fileValue? layers.file (text key.name)).filter (!·.isNull)))

variable {order : List SettingKey} (horder : ∀ key, key ∈ order)

section

include horder

theorem fromSetFlag?_registryIn (key : SettingKey) :
    (layers.registryIn order).fromSetFlag? (text key.name)
      = (layers.flags.given? key.flagName).map FlagValue.said := by
  have hlookup : (layers.registryIn order).flags.lookup (text key.name) =
      layers.flags.lookup key.flagName := by
    rw [registryIn, lookup_bindFlags, if_pos (horder key)]
    exact Option.or_none
  rw [fromSetFlag?, hlookup, FlagSet.given?, Option.map_map]
  congr 1
  funext flag
  exact Registry.ofFlag_eq flag.value

omit horder in
theorem fromEnvironment?_registryIn (key : SettingKey) :
    (layers.registryIn order).fromEnvironment? (text key.name)
      = ((layers.env.get? (text key.variableName)).filter (!·.isEmpty)).map .string := by
  have hname : (layers.registryIn order).variableName (text key.name) = text key.variableName := by
    rw [registryIn, bindFlags_eq]
    cases key <;> rfl
  rw [fromEnvironment?, hname, registryIn, bindFlags_eq]
  rfl

omit horder in
theorem fromFile?_registryIn (key : SettingKey) :
    (layers.registryIn order).fromFile? (text key.name)
      = (Registry.fileValue? layers.file (text key.name)).filter (!·.isNull) := by
  rw [registryIn, bindFlags_eq]
  rfl

omit horder in
theorem fromStandards?_registryIn (key : SettingKey) :
    (layers.registryIn order).fromStandards? (text key.name) = some key.standard := by
  have hkept : (layers.registryIn order).standards =
      (withStandards (.start layers.env (text "DEADFILES") layers.file)).standards := by
    rw [registryIn, bindFlags_eq]
  rw [fromStandards?, hkept, ← fromStandards?, fromStandards?_withStandards]

/-- A registered setting is what it is given, and its standard value if it is given nothing. -/
theorem lookup_registryIn (key : SettingKey) :
    (layers.registryIn order).contents.lookup (text key.name)
      = some ((layers.given? key).getD key.standard) := by
  rw [Registry.lookup_contents (layers.fromStandards?_registryIn key), Registry.find?, Registry.places]
  simp only [List.findSome?_cons, fromSetFlag?_registryIn layers horder, fromEnvironment?_registryIn,
    fromFile?_registryIn, fromStandards?_registryIn, given?]
  cases (layers.flags.given? key.flagName).map FlagValue.said with
  | some v => rfl
  | none =>
    cases ((layers.env.get? (text key.variableName)).filter (!·.isEmpty)).map Yaml.Value.string with
    | some v => rfl
    | none =>
      cases (Registry.fileValue? layers.file (text key.name)).filter (!·.isNull) with
      | some v => rfl
      | none => rfl

/-- The order in which flags are bound does not matter. -/
theorem settingsIn_eq_settings : layers.settingsIn order = layers.settings := by
  apply Decode.settings_congr
  intro key
  rw [lookup_registryIn layers horder, lookup_registryIn layers SettingKey.mem_all]

end

/-- What a setting is given, decoded, is what it resolves to. -/
theorem decode_eq_resolve (hdistinct : Registry.Distinct layers.file) (key : SettingKey) :
    key.decode ((layers.given? key).getD key.standard) =
      key.resolve (layers.flags.given? key.flagName) (layers.env.get? (text key.variableName))
        (Registry.entryValue? layers.file (text key.name)) := by
  rw [given?, Registry.fileValue?_eq_entryValue? hdistinct]
  unfold SettingKey.resolve
  cases layers.flags.given? key.flagName with
  | some value => rfl
  | none =>
    have hentry : key.decode (((Registry.entryValue? layers.file (text key.name)).filter
          (!·.isNull)).getD key.standard) =
        match Registry.entryValue? layers.file (text key.name) with
        | some v => if v.isNull then .ok (Settings.standard.get key) else key.decode v
        | none => .ok (Settings.standard.get key) := by
      cases Registry.entryValue? layers.file (text key.name) with
      | none => exact key.decode_standard
      | some v =>
        cases hnull : v.isNull with
        | true => simp [hnull, Option.filter, key.decode_standard]
        | false => simp [hnull, Option.filter]
    cases layers.env.get? (text key.variableName) with
    | none => exact hentry
    | some bytes =>
      cases bytes with
      | nil => exact hentry
      | cons b rest => rfl

end SettingLayers

/-! ### Loading -/

namespace Host

theorem packageName_loadEnvironmentFile (host : Host) (libRoot : Bytes) :
    host.loadEnvironmentFile.packageName libRoot = host.packageName libRoot := by
  rw [loadEnvironmentFile_eq]
  rfl

theorem loadSettings_ok {host : Host} {path : Bytes} {flags : FlagSet} {s : Settings}
    (h : (host.loadSettings path flags).2 = .ok s) :
    ∃ entries raw, SettingsFile.entries host.loadEnvironmentFile path = .ok entries ∧
      SettingLayers.settings ⟨flags, host.loadEnvironmentFile.env, entries⟩ = .ok raw ∧
      raw.named host.loadEnvironmentFile = .ok s := by
  simp only [loadSettings, settings, givenSettings] at h
  cases hentries : SettingsFile.entries host.loadEnvironmentFile path with
  | error e => simp [hentries, bind, Except.bind] at h
  | ok entries =>
    cases hraw : SettingLayers.settings ⟨flags, host.loadEnvironmentFile.env, entries⟩ with
    | error faults => simp [hentries, hraw, bind, Except.bind, Except.mapError] at h
    | ok raw =>
      cases hnamed : raw.named host.loadEnvironmentFile with
      | error e => simp [hentries, hraw, hnamed, bind, Except.bind, Except.mapError] at h
      | ok named =>
        simp only [hentries, hraw, hnamed, bind, Except.bind, Except.mapError, Settings.checked] at h
        split at h
        · simp at h
        · cases h
          exact ⟨entries, raw, rfl, hraw, hnamed⟩

end Host

/-- Naming the package changes nothing else, and is done only for a package without a name. -/
theorem Settings.named_ok {raw s : Settings} {host : Host} (h : raw.named host = .ok s) :
    (∀ key, key ≠ .packageName → s.get key = raw.get key) ∧
      (raw.packageName = [] ∧ s.libRoot ≠ [] → host.packageName s.libRoot = .ok s.packageName) ∧
      (¬ (raw.packageName = [] ∧ s.libRoot ≠ []) → s.packageName = raw.packageName) := by
  simp only [named, List.isEmpty_iff] at h
  split at h
  · rename_i hunnamed
    split at h
    · rename_i name hname
      cases h
      refine ⟨?_, fun _ => hname, fun hno => absurd hunnamed hno⟩
      intro key hkey
      cases key <;> first | rfl | exact absurd rfl hkey
    · simp at h
  · rename_i hnamed
    cases h
    exact ⟨fun _ _ => rfl, fun hyes => absurd hyes hnamed, fun _ => rfl⟩

/--
Loading gives each setting what it resolves to from its own flag, variable and entry of the file, where the
keys of the file are distinct up to case. Only a package without a name, of a library that has a root, gets
the name in `pubspec.yaml`. A list that was given by a flag is the parsed one, except that a single empty
item is no item and line ends are plain. In whatever order the flags are bound, the settings are the same.
-/
theorem Host.loadSettings_by_priority {host : Host} {path : Bytes} {flags : FlagSet}
    {entries : List (Yaml.Value × Yaml.Value)} {s : Settings}
    (hentries : SettingsFile.entries host.loadEnvironmentFile path = .ok entries)
    (hdistinct : Registry.Distinct entries)
    (h : (host.loadSettings path flags).2 = .ok s) :
    (∀ key : SettingKey, key ≠ .packageName →
      key.resolve (flags.given? key.flagName) (host.variableValue? (text key.variableName))
        (Registry.entryValue? entries (text key.name)) = .ok (s.get key)) ∧
    (∃ given, SettingKey.resolve .packageName (flags.given? "package")
        (host.variableValue? (text "DEADFILES_PACKAGE_NAME"))
        (Registry.entryValue? entries (text "package_name")) = .ok (.text given) ∧
      (given = [] ∧ s.libRoot ≠ [] → host.packageName s.libRoot = .ok s.packageName) ∧
      (¬ (given = [] ∧ s.libRoot ≠ []) → s.packageName = given)) ∧
    (∀ key items, key.isList = true → flags.given? key.flagName = some (.list items) →
      s.get key = .list (some (if items = [[]] then [] else items.map Bytes.unixLines))) ∧
    ∀ order : List SettingKey, (∀ key, key ∈ order) →
      SettingLayers.settingsIn order ⟨flags, host.loadEnvironmentFile.env, entries⟩ =
        SettingLayers.settings ⟨flags, host.loadEnvironmentFile.env, entries⟩ := by
  obtain ⟨entries', raw, hentries', hraw, hnamed⟩ := loadSettings_ok h
  rw [hentries, Except.ok.injEq] at hentries'
  subst hentries'
  obtain ⟨hother, hlookup, hkept⟩ := Settings.named_ok hnamed
  rw [packageName_loadEnvironmentFile] at hlookup
  have hresolve : ∀ key : SettingKey, key.resolve (flags.given? key.flagName)
      (host.variableValue? (text key.variableName)) (Registry.entryValue? entries (text key.name)) =
      .ok (raw.get key) := by
    intro key
    have hfound := SettingLayers.lookup_registryIn ⟨flags, host.loadEnvironmentFile.env, entries⟩
      SettingKey.mem_all key
    have hdecode := Decode.decode_of_settings hraw hfound
    rw [SettingLayers.decode_eq_resolve _ hdistinct, host.get?_loadEnvironmentFile] at hdecode
    exact hdecode
  have hrest : ∀ key : SettingKey, key ≠ .packageName → key.resolve (flags.given? key.flagName)
      (host.variableValue? (text key.variableName)) (Registry.entryValue? entries (text key.name)) =
      .ok (s.get key) := by
    intro key hkey
    rw [hother key hkey, hresolve]
  refine ⟨hrest, ⟨raw.packageName, hresolve .packageName, hlookup, hkept⟩, ?_, ?_⟩
  · intro key items hlist hflag
    have hkey : key ≠ .packageName := by
      rintro rfl
      simp [SettingKey.isList] at hlist
    have hvalue := hrest key hkey
    rw [hflag, SettingKey.resolve, SettingKey.decode_listFlag hlist, Except.ok.injEq] at hvalue
    exact hvalue.symm
  · intro order horder
    exact SettingLayers.settingsIn_eq_settings _ horder

/-! ### A process with an empty variable, and a file that defines it -/

def Host.layered : Host where
  files :=
    { root := .dir [(text ".env",
        .file (text "DEADFILES_FORMAT=json\nDEADFILES_OUTPUT=out\n") .full)] .full
      wellFormed := .dir _ _ (by decide) (by simpa using .file _ _) (by decide) }
  workingDir := some []
  env := [(text "DEADFILES_FORMAT", [])]

/-- The settings of the process when a package and a single empty entry point are given by flags. -/
def Settings.layered : Settings where
  libRoot := text "lib"
  packageName := text "app"
  options :=
    { AnalysisOptions.standard with
      entryPoints := some []
      exclude := some []
      output := text "out" }

/-- A package, and an entry point without a name. -/
def FlagValues.layered : FlagValues := [("entry", .list [[]]), ("package", .text (text "app"))]

def FlagSet.layered : FlagSet := .ofValues Command.analyze.flags FlagValues.layered

theorem Host.loadSettings_layered :
    (layered.loadSettings [] FlagSet.layered).2 = .ok Settings.layered := by
  decide +kernel

theorem Host.loadSettings_by_priority_layered :
    SettingKey.resolve .output none (layered.variableValue? (text "DEADFILES_OUTPUT")) none =
        .ok (Settings.layered.get .output) ∧
      SettingKey.resolve .format none (layered.variableValue? (text "DEADFILES_FORMAT")) none =
        .ok (Settings.layered.get .format) := by
  have hlocate : SettingsFile.locate layered.loadEnvironmentFile [] = .ok none := by decide +kernel
  have hentries : SettingsFile.entries layered.loadEnvironmentFile [] = .ok [] := by
    rw [SettingsFile.entries, hlocate]
  obtain ⟨hresolve, _⟩ := loadSettings_by_priority hentries List.nodup_nil loadSettings_layered
  exact ⟨hresolve .output (by decide), hresolve .format (by decide)⟩

/-- A single empty item of a list flag is parsed, and is lost on the way to the settings. -/
theorem Host.loadSettings_drops_empty_item :
    ∃ args s, Arguments.parse Command.analyze.flags
        [text "--package", text "app", text "--entry", text "\"\""] = .ok args ∧
      args.values.get? SettingKey.entryPoints.flagName = some (.list [[]]) ∧
      (layered.loadSettings [] (.ofValues Command.analyze.flags args.values)).2 = .ok s ∧
      s.get .entryPoints ≠ .list (some [[]]) := by
  refine ⟨⟨FlagValues.layered, []⟩, Settings.layered, by decide +kernel, rfl, loadSettings_layered, ?_⟩
  simp [Settings.get, Settings.layered]

end DartReach
