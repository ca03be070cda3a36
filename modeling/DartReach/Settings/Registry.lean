import DartReach.CommandLine.Flag
import DartReach.Host
import DartReach.Yaml.Value

/-!
# A registry of values

What is said about names in several places: by flags that are bound to names, by environment variables, by the
entries of a file, and by standard values. A name is looked up in one place after the other until something is
said about it. A flag counts first if it was set; if it was not, what it stands at is the last resort.
-/

namespace DartReach

set_option autoImplicit false

structure Registry where
  flags : List (Bytes × FlagState)
  env : Environment
  /-- The first word in the names of variables. -/
  scope : Bytes
  /-- The entries of the file. -/
  entries : List (Yaml.Value × Yaml.Value)
  standards : List (Bytes × Yaml.Value)

namespace Registry

/-- A registry that knows only variables and a file. -/
def start (env : Environment) (scope : Bytes) (entries : List (Yaml.Value × Yaml.Value)) : Registry :=
  ⟨[], env, scope, entries, []⟩

def setStandard (r : Registry) (name : Bytes) (v : Yaml.Value) : Registry :=
  { r with standards := (name, v) :: r.standards }

def bindFlag (r : Registry) (name : Bytes) (flag : FlagState) : Registry :=
  { r with flags := (name, flag) :: r.flags }

/-! ### Flags -/

/-- What a flag says, read from the text that shows its value; a text that cannot be read says no item. -/
def ofFlag (value : FlagValue) : Yaml.Value :=
  match value with
  | .switch _ => .bool ((FlagValue.truth? value.shown).getD false)
  | .text _ => .string value.shown
  | .list _ => .list (((Csv.record (Csv.unbracketed value.shown)).toOption.getD []).map .string)

def fromFlag? (r : Registry) (name : Bytes) : Option Yaml.Value :=
  (r.flags.lookup name).map (ofFlag ·.value)

def fromSetFlag? (r : Registry) (name : Bytes) : Option Yaml.Value :=
  ((r.flags.lookup name).filter (·.changed)).map (ofFlag ·.value)

/-! ### Variables -/

/-- A byte of a name in the name of its variable. -/
def variableByte (b : UInt8) : UInt8 :=
  if b = 0x2E then 0x5F else if 0x61 ≤ b ∧ b ≤ 0x7A then b - 0x20 else b

def variableName (r : Registry) (name : Bytes) : Bytes := (r.scope ++ text "_" ++ name).map variableByte

/-- What the environment says about a name; an empty variable says nothing. -/
def fromEnvironment? (r : Registry) (name : Bytes) : Option Yaml.Value :=
  ((r.env.get? (r.variableName name)).filter (!·.isEmpty)).map .string

/-! ### The file -/

/-- A letter in lower case, as far as it can become an ASCII letter. -/
def lowerLetter (c : Char) : Char :=
  if c = '\u212a' then 'k' else if c = '\u0130' then 'i' else c.toLower

/-- A key without regard to upper and lower case. -/
def foldCase (key : Bytes) : Bytes := encode ((Utf8.decode key).map lowerLetter)

/-- A key of the file without regard to case; a key that is no text is none. -/
def foldedKey? : Yaml.Value → Option Bytes
  | .string key => some (foldCase key)
  | _ => none

/-- The value of a key of the file; spellings with capital letters win over the one without. -/
def fileValue? (entries : List (Yaml.Value × Yaml.Value)) (name : Bytes) : Option Yaml.Value :=
  let spelled := entries.filterMap fun (k, v) =>
    match k with
    | .string key => if foldCase key = name then some (key, v) else none
    | _ => none
  ((spelled.find? (·.1 ≠ name)).or spelled.head?).map (·.2)

/-- What the file says about a name; null says nothing. -/
def fromFile? (r : Registry) (name : Bytes) : Option Yaml.Value :=
  (fileValue? r.entries name).filter (!·.isNull)

/-! ### Looking up -/

def fromStandards? (r : Registry) (name : Bytes) : Option Yaml.Value := r.standards.lookup name

/-- The places where a name is looked up, in turn. -/
def places (r : Registry) : List (Bytes → Option Yaml.Value) :=
  [r.fromSetFlag?, r.fromEnvironment?, r.fromFile?, r.fromStandards?, r.fromFlag?]

def find? (r : Registry) (name : Bytes) : Option Yaml.Value := r.places.findSome? (· name)

/-- The names that something can be said about. A variable alone makes no name known. -/
def names (r : Registry) : List Bytes :=
  r.flags.map (·.1) ++ r.entries.filterMap (foldedKey? ·.1) ++ r.standards.map (·.1)

def contents (r : Registry) : List (Bytes × Yaml.Value) :=
  r.names.filterMap fun name => (r.find? name).map (name, ·)

end Registry

end DartReach
