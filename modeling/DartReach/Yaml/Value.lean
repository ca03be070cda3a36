import DartReach.Text.Base64
import DartReach.Text.Quoted
import DartReach.Yaml.Node.Grammar

/-!
# Values of nodes

What a document says, without the way it is written. A scalar with a tag must be written as the tag demands.
Mappings have every key once; entries of other mappings are merged in by the key `<<`, where they are not
overridden. Wrong types are collected and reported together; other failures end the reading.
-/

namespace DartReach.Yaml

set_option autoImplicit false

inductive Value where
  | null
  | bool (b : Bool)
  | int (n : Int)
  | float (x : FloatValue)
  | timestamp
  | string (s : Bytes)
  | list (items : List Value)
  /-- The entries of a mapping; keys need not be strings. -/
  | map (stringKeys : Bool) (entries : List (Value × Value))

inductive Failure where
  | document (e : Error)
  | mismatch (found : String) (content wanted : List Char)
  | badBase64
  | containsItself (name : List Char)
  | tooManyAliases
  | badMerge
  | badKey (key : Bytes)
  /-- Values of wrong types and keys given twice, in the order they were found. -/
  | types (lines : List Bytes)
deriving DecidableEq, Repr

def Failure.message : Failure → Bytes
  | .document e => e.message
  | .mismatch found content wanted =>
    text "yaml: cannot decode " ++ text found ++ text " `" ++ encode content ++ text "` as a "
      ++ encode wanted
  | .badBase64 => text "yaml: !!binary value contains invalid base64 data"
  | .containsItself name => text "yaml: anchor '" ++ encode name ++ text "' value contains itself"
  | .tooManyAliases => text "yaml: document contains excessive aliasing"
  | .badMerge => text "yaml: map merge requires map or sequence of maps as the value"
  | .badKey key => text "yaml: invalid map key: " ++ key
  | .types lines =>
    text "yaml: unmarshal errors:\n  " ++ Bytes.join (text "\n  ") lines

namespace Value

def isNull : Value → Bool
  | .null => true
  | _ => false

/-- Equality of keys: only scalars are equal to something. -/
def sameKey : Value → Value → Bool
  | .null, .null => true
  | .bool a, .bool b => a = b
  | .int a, .int b => a = b
  | .float a, .float b => a = b && a ≠ .nan
  | .string a, .string b => a = b
  | _, _ => false

mutual

/-- A value in words, for messages about keys. -/
def describe : Value → Bytes
  | .null => text "interface \x7b\x7d(nil)"
  | .bool b => text (if b then "true" else "false")
  | .int n => if n < 0 then text "-" ++ decimal n.natAbs else decimal n.natAbs
  | .float x => x.decimal
  | .timestamp => text "time.Time\x7b\x7d"
  | .string s => Quoted.quote s
  | .list items => text "[]interface \x7b\x7d\x7b" ++ describeItems items ++ text "\x7d"
  | .map stringKeys entries =>
    text (if stringKeys then "map[string]interface \x7b\x7d\x7b"
      else "map[interface \x7b\x7d]interface \x7b\x7d\x7b")
      ++ describeEntries entries ++ text "\x7d"

def describeItems : List Value → Bytes
  | [] => []
  | [v] => v.describe
  | v :: vs => v.describe ++ text ", " ++ describeItems vs

def describeEntries : List (Value × Value) → Bytes
  | [] => []
  | [(k, v)] => k.describe ++ text ":" ++ v.describe
  | (k, v) :: rest => k.describe ++ text ":" ++ v.describe ++ text ", " ++ describeEntries rest

end

def put (key value : Value) : List (Value × Value) → List (Value × Value)
  | [] => [(key, value)]
  | (k, v) :: rest => if k.sameKey key then (k, value) :: rest else (k, v) :: put key value rest

end Value

/-- What was noted while nodes were decoded. -/
structure Tally where
  /-- Nodes decoded. -/
  decoded : Nat
  /-- Nodes decoded inside of aliases. -/
  aliased : Nat
  /-- Number of aliases around the current node. -/
  depth : Nat
  /-- Wrong types and repeated keys, the last first. -/
  wrong : List Bytes
deriving DecidableEq, Repr

namespace Tally

def start : Tally := ⟨0, 0, 0, []⟩

/-- Whether aliases make up more of a document than they may: 99 % of a small one, 10 % of a large one. -/
def isExcessive (t : Tally) : Bool :=
  let low := 400000
  let high := 4000000
  100 < t.aliased && 1000 < t.decoded &&
    (if t.decoded ≤ low then 99 * t.decoded < 100 * t.aliased
      else if high ≤ t.decoded then t.decoded < 10 * t.aliased
      else
        (99 * (high - low) - 89 * (t.decoded - low)) * t.decoded < 100 * (high - low) * t.aliased)

def count (t : Tally) : Except Failure Tally :=
  let t :=
    { t with decoded := t.decoded + 1, aliased := t.aliased + (if t.depth = 0 then 0 else 1) }
  if t.isExcessive then .error .tooManyAliases else .ok t

def enter (t : Tally) : Tally := { t with depth := t.depth + 1 }

def leave (t : Tally) : Tally := { t with depth := t.depth - 1 }

def note (t : Tally) (line : Bytes) : Tally := { t with wrong := line :: t.wrong }

def noteType (t : Tally) (line : Nat) (tag : TagName) (content : List Char) (wanted : String) : Tally :=
  let value := encode content
  let shown :=
    if tag = TagName.sequence ∨ tag = TagName.mapping then []
    else
      text " `" ++ (if 10 < value.length then value.take 7 ++ text "..." else value) ++ text "`"
  t.note (text "line " ++ decimal line ++ text ": cannot unmarshal " ++ encode tag ++ shown
    ++ text " into " ++ text wanted)

end Tally

namespace Node

/-- Whether a tag says what a scalar means; the text under any other tag is a string. -/
def isDemanding (tag : TagName) : Bool :=
  tag ∈ ["!!null", "!!bool", "!!int", "!!float", "!!timestamp"].map String.toList

/-- The meaning of a scalar, as its tag demands. -/
def meaning (tag : TagName) (content : List Char) : Except Failure ScalarValue :=
  if !isDemanding tag then .ok .string
  else
    let v := Plain.meaning (tag = TagName.timestamp) content
    if tag = v.tag.toList then .ok v
    else
      match v with
      | .int n =>
        if tag = TagName.float ∧ n < Nat.pow 2 63 then
          match Binary64.nearest? n.natAbs 1 with
          | some x => .ok (.float (.finite (n < 0) x))
          | none => .ok (.float .nan)
        else .error (.mismatch v.tag content tag)
      | _ => .error (.mismatch v.tag content tag)

/-- The text of a scalar that is not null; binary data are decoded. -/
def bytes (tag : TagName) (content : List Char) : Except Failure Bytes :=
  if tag = TagName.binary then
    match Base64.decode? ((encode content).filter (fun b => b ≠ 0x0A ∧ b ≠ 0x0D)) with
    | some b => .ok b
    | none => .error .badBase64
  else .ok (encode content)

def scalarValue (tag : TagName) (content : List Char) : Except Failure Value := do
  match ← meaning tag content with
  | .null => .ok .null
  | .bool b => .ok (.bool b)
  | .int n => .ok (.int n)
  | .float x => .ok (.float x)
  | .timestamp => .ok .timestamp
  | .string =>
    let b ← bytes tag content
    .ok (.string b)

/-- What tells keys apart: the kind of a node and its text. -/
def keyText : Node → Nat × List Char
  | .scalar _ _ content => (0, content)
  | .sequence .. => (1, [])
  | .mapping .. => (2, [])
  | .alias _ name _ => (3, name)
  | .loop _ name _ => (3, name)

/-- The keys of a mapping that are given again, for a key and those behind it. -/
def repeats (key : Node) (rest : List (Node × Node)) : List Bytes :=
  (rest.filter (fun e => e.1.keyText = key.keyText)).map (fun e =>
    text "line " ++ decimal e.1.line ++ text ": mapping key " ++ Quoted.quote (encode e.1.keyText.2)
      ++ text " already defined at line " ++ decimal key.line)

def allRepeats : List (Node × Node) → List Bytes
  | [] => []
  | (k, _) :: rest => repeats k rest ++ allRepeats rest

/-- Whether all keys of a mapping are strings. -/
def hasStringKeys (entries : List (Node × Node)) : Bool :=
  entries.all (fun e => e.1.tag = TagName.string || e.1.tag = TagName.merge)

/-- Notes repeated keys; `false` if there are some. -/
def checkKeys (t : Tally) (entries : List (Node × Node)) : Bool × Tally :=
  let found := allRepeats entries
  (found.isEmpty, { t with wrong := found.reverse ++ t.wrong })

/-- A string; `none` for null and for what is no string, which is noted. -/
def stringValue (wanted : String) : Node → Tally → Except Failure (Option Bytes × Tally)
  | .scalar _ tag content, t => do
    let t ← t.count
    match ← meaning tag content with
    | .null => .ok (none, t)
    | _ =>
      let b ← bytes tag content
      .ok (some b, t)
  | .sequence line tag _, t => do
    let t ← t.count
    .ok (none, t.noteType line tag [] wanted)
  | .mapping line tag entries, t => do
    let t ← t.count
    let (distinct, t) := checkKeys t entries
    .ok (none, if distinct then t.noteType line tag [] wanted else t)
  | .alias _ _ target, t => do
    let t ← t.count
    let (v, t) ← stringValue wanted target t.enter
    .ok (v, t.leave)
  | .loop _ _ target, t => do
    let t ← t.count
    .ok (none, t.noteType target.line target.tag [] wanted)

/-- A mapping that is filled. -/
structure Filling where
  entries : List (Value × Value)
  /-- Keys that are not merged in any more; `none` before anything was merged in. -/
  settled : Option (List Value)
  tally : Tally

/-- Settles a key that is merged in; `none` if it was settled before. -/
def Filling.settle (f : Filling) (key : Value) : Option Filling :=
  match f.settled with
  | none => some f
  | some keys =>
    if keys.any (·.sameKey key) then none else some { f with settled := some (key :: keys) }

/-- What a collection cannot be: a key. -/
def checkKey : Value → Except Failure Unit
  | .list items => .error (.badKey (Value.list items).describe)
  | .map s entries => .error (.badKey (Value.map s entries).describe)
  | _ => .ok ()

/-- Whether a mapping has a merge key. -/
def hasMerge (entries : List (Node × Node)) : Bool := entries.any (·.1.isMerge)

mutual

/-- The value of a node; `none` if something is wrong with it, which is noted. -/
def value : Node → Tally → Except Failure (Option Value × Tally)
  | .scalar _ tag content, t => do
    let t ← t.count
    let v ← scalarValue tag content
    .ok (some v, t)
  | .sequence _ _ items, t => do
    let t ← t.count
    let (vs, t) ← values items t
    .ok (some (.list vs), t)
  | .mapping _ _ entries, t => do
    let t ← t.count
    let (distinct, t) := checkKeys t entries
    if distinct then
      let stringKeys := hasStringKeys entries
      let f ← fill stringKeys entries ⟨[], none, t⟩
      let f ← settleAll entries f
      let f ← mergeIn stringKeys entries f
      .ok (some (.map stringKeys f.entries), f.tally)
    else .ok (none, t)
  | .alias _ _ target, t => do
    let t ← t.count
    let (v, t) ← value target t.enter
    .ok (v, t.leave)
  | .loop _ name _, _ => .error (.containsItself name)

def values : List Node → Tally → Except Failure (List Value × Tally)
  | [], t => .ok ([], t)
  | n :: rest, t => do
    let (v, t) ← value n t
    let (vs, t) ← values rest t
    .ok (v.toList ++ vs, t)

/-- Settles the keys of a mapping with a merge key, unless keys were settled before. -/
def settleAll : List (Node × Node) → Filling → Except Failure Filling
  | [], f => .ok f
  | (k, v) :: rest, f => do
    if hasMerge ((k, v) :: rest) && f.settled.isNone then
      let (key, t) ← value k f.tally
      let (ks, t) ← keys rest t
      .ok { f with settled := some (key.toList ++ ks), tally := t }
    else .ok f

def keys : List (Node × Node) → Tally → Except Failure (List Value × Tally)
  | [], t => .ok ([], t)
  | (k, _) :: rest, t => do
    let (v, t) ← value k t
    let (vs, t) ← keys rest t
    .ok (v.toList ++ vs, t)

def fill (stringKeys : Bool) : List (Node × Node) → Filling → Except Failure Filling
  | [], f => .ok f
  | (k, v) :: rest, f => do
    if k.isMerge then fill stringKeys rest f
    else
      let (key, t) ←
        if stringKeys then do
          let (s, t) ← stringValue "string" k f.tally
          .ok (s.map Value.string, t)
        else value k f.tally
      let f := { f with tally := t }
      match key with
      | none => fill stringKeys rest f
      | some key =>
        match f.settle key with
        | none => fill stringKeys rest f
        | some f => do
          checkKey key
          let (w, t) ← value v f.tally
          let entries := match w with | some w => Value.put key w f.entries | none => f.entries
          fill stringKeys rest { f with entries := entries, tally := t }

def mergeIn (stringKeys : Bool) : List (Node × Node) → Filling → Except Failure Filling
  | [], f => .ok f
  | (k, v) :: rest, f =>
    if k.isMerge then mergeFrom stringKeys false v f else mergeIn stringKeys rest f

/-- Merges in a mapping, or a list of mappings where it is not in a list itself. -/
def mergeFrom (stringKeys inList : Bool) : Node → Filling → Except Failure Filling
  | .mapping _ _ entries, f => do
    let t ← f.tally.count
    let (distinct, t) := checkKeys t entries
    let f := { f with tally := t }
    if distinct then
      let f ← fill stringKeys entries f
      let f ← settleAll entries f
      mergeIn stringKeys entries f
    else .ok f
  | .alias _ _ target, f => do
    let t ← f.tally.count
    let f ← mergeFrom stringKeys true target { f with tally := t.enter }
    .ok { f with tally := f.tally.leave }
  | .sequence _ _ items, f => if inList then .error .badMerge else mergeItems stringKeys items f
  | .loop _ name target, _ =>
    .error (if target.isMapping then .containsItself name else .badMerge)
  | .scalar .., _ => .error .badMerge

/-- Merges in mappings; what comes first counts. -/
def mergeItems (stringKeys : Bool) : List Node → Filling → Except Failure Filling
  | [], f => .ok f
  | n :: rest, f => do
    let f ← mergeFrom stringKeys true n f
    mergeItems stringKeys rest f

end

/-- The string under one key of a mapping. -/
structure Field where
  found : Option Bytes
  /-- Keys that are not merged in any more; `none` before anything was merged in. -/
  settled : Option (List Value)
  tally : Tally

/-- A key to look for, and how messages call the type it belongs to. -/
structure FieldType where
  key : Bytes
  name : String

/-- Looks for a key among the entries of a mapping; `seen` tells whether it was there already. -/
def findField (type : FieldType) : List (Node × Node) → (seen : Bool) → Field → Except Failure Field
  | [], _, f => .ok f
  | (k, v) :: rest, seen, f => do
    if k.isMerge then findField type rest seen f
    else
      let (key, t) ← stringValue "string" k f.tally
      let f := { f with tally := t }
      match key with
      | none => findField type rest seen f
      | some key =>
        match (Filling.mk [] f.settled t).settle (.string key) with
        | none => findField type rest seen f
        | some fresh =>
          let f := { f with settled := fresh.settled }
          if key ≠ type.key then findField type rest seen f
          else if seen then
            let line := text "line " ++ decimal k.line ++ text ": field " ++ key
              ++ text " already set in type " ++ text type.name
            findField type rest seen { f with tally := f.tally.note line }
          else
            let (s, t) ← stringValue "string" v f.tally
            findField type rest true
              { f with found := if s.isSome then s else f.found, tally := t }

def Field.settleAll (f : Field) (entries : List (Node × Node)) : Except Failure Field :=
  match Node.settleAll entries ⟨[], f.settled, f.tally⟩ with
  | .error e => .error e
  | .ok g => .ok { f with settled := g.settled, tally := g.tally }

mutual

/-- Looks for a key in what the merge key of a mapping names. -/
def findMerged (type : FieldType) : List (Node × Node) → Field → Except Failure Field
  | [], f => .ok f
  | (k, v) :: rest, f =>
    if k.isMerge then findFrom type false v f else findMerged type rest f

/-- Looks for a key in a mapping, or a list of mappings where it is not in a list itself. -/
def findFrom (type : FieldType) (inList : Bool) : Node → Field → Except Failure Field
  | .mapping _ _ entries, f => do
    let t ← f.tally.count
    let (distinct, t) := checkKeys t entries
    let f := { f with tally := t }
    if distinct then
      let f ← findField type entries false f
      let f ← f.settleAll entries
      findMerged type entries f
    else .ok f
  | .alias _ _ target, f => do
    let t ← f.tally.count
    let f ← findFrom type true target { f with tally := t.enter }
    .ok { f with tally := f.tally.leave }
  | .sequence _ _ items, f => if inList then .error .badMerge else findItems type items f
  | .loop _ name target, _ =>
    .error (if target.isMapping then .containsItself name else .badMerge)
  | .scalar .., _ => .error .badMerge

def findItems (type : FieldType) : List Node → Field → Except Failure Field
  | [], f => .ok f
  | n :: rest, f => do
    let f ← findFrom type true n f
    findItems type rest f

end

def finish {α : Type} (a : α) (t : Tally) : Except Failure α :=
  if t.wrong.isEmpty then .ok a else .error (.types t.wrong.reverse)

/-- Notes a root that is no mapping, unless it is null. -/
def noteRoot (wanted : String) (t : Tally) : Node → Except Failure Tally
  | .scalar line tag content => do
    let t ← t.count
    match ← scalarValue tag content with
    | .null => .ok t
    | _ => .ok (t.noteType line tag content wanted)
  | .sequence line tag _ => do
    let t ← t.count
    .ok (t.noteType line tag [] wanted)
  | _ => .ok t

/-- How messages call a mapping with string keys. -/
def mapType : String := "map[string]interface \x7b\x7d"

/-- The entries of a mapping with string keys; null has none. -/
def entriesOf (root : Node) : Except Failure (List (Value × Value)) := do
  let t ← Tally.start.count
  match root with
  | .mapping .. =>
    let f ← mergeFrom true true root ⟨[], none, t⟩
    finish f.entries f.tally
  | _ =>
    let t ← noteRoot mapType t root
    finish [] t

/-- The string under a key of a mapping; null and what has no such key have none. -/
def fieldOf (type : FieldType) (root : Node) : Except Failure (Option Bytes) := do
  let t ← Tally.start.count
  match root with
  | .mapping .. =>
    let f ← findFrom type true root ⟨none, none, t⟩
    finish f.found f.tally
  | _ =>
    let t ← noteRoot type.name t root
    finish none t

end Node

/-- The entries of a document that is a mapping with string keys. -/
def readEntries (document : Bytes) : Except Failure (List (Value × Value)) :=
  match Node.ofBytes document with
  | .error e => .error (.document e)
  | .ok none => .ok []
  | .ok (some root) => root.entriesOf

/-- The string under a key of a document. -/
def readField (type : Node.FieldType) (document : Bytes) : Except Failure (Option Bytes) :=
  match Node.ofBytes document with
  | .error e => .error (.document e)
  | .ok none => .ok none
  | .ok (some root) => root.fieldOf type

end DartReach.Yaml
