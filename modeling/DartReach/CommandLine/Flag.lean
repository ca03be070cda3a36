import DartReach.Text.Csv
import DartReach.Text.Quoted

/-!
# Flags

Flags are given by name (`--name value`, `--name=value`) or by letter (`-n value`, `-nvalue`, `-n=value`);
letters of switches can stand together. Everything else, and everything behind `--`, is positional.
-/

namespace DartReach

set_option autoImplicit false

inductive FlagKind where
  | switch
  | text
  | list
deriving DecidableEq, Repr

structure Flag where
  name : String
  letter? : Option Char
  kind : FlagKind
  /-- What help says about it. -/
  summary : String
deriving DecidableEq, Repr

inductive FlagValue where
  | switch (on : Bool)
  | text (value : Bytes)
  | list (items : List Bytes)
deriving DecidableEq, Repr

inductive FlagValueError where
  | notSwitch (value : Bytes)
  | notList (e : Csv.Error)
deriving DecidableEq, Repr

inductive FlagError where
  /-- Help was asked for, and is no flag of the command. -/
  | helpRequested
  | badSyntax (argument : Bytes)
  | unknown (name : Bytes)
  | unknownLetter (letter : UInt8) (letters : Bytes)
  | needsValue (name : Bytes)
  | letterNeedsValue (letter : UInt8) (letters : Bytes)
  | invalid (flag : Flag) (value : Bytes) (cause : FlagValueError)
deriving DecidableEq, Repr

namespace FlagValue

def truth? (word : Bytes) : Option Bool :=
  if word ∈ ["1", "t", "T", "true", "TRUE", "True"].map DartReach.text then some true
  else if word ∈ ["0", "f", "F", "false", "FALSE", "False"].map DartReach.text then some false
  else none

/-- The value after a flag was set once more: lists grow, anything else is replaced. -/
def update (old : Option FlagValue) (kind : FlagKind) (given : Bytes) : Except FlagValueError FlagValue :=
  match kind with
  | .text => .ok (.text given)
  | .switch =>
    match truth? given with
    | some on => .ok (.switch on)
    | none => .error (.notSwitch given)
  | .list =>
    match Csv.record given, old with
    | .error e, _ => .error (.notList e)
    | .ok items, some (.list before) => .ok (.list (before ++ items))
    | .ok items, _ => .ok (.list items)

/-- The value as a text; a list is a record in brackets. -/
def shown : FlagValue → Bytes
  | .switch on => DartReach.text (if on then "true" else "false")
  | .text value => value
  | .list items => DartReach.text "[" ++ Csv.render items ++ DartReach.text "]"

/-- What a flag stands at before it is set. -/
def unset : FlagKind → FlagValue
  | .switch => .switch false
  | .text => .text []
  | .list => .list []

end FlagValue

namespace Flag

def key (f : Flag) : Bytes := text f.name

def label (f : Flag) : Bytes :=
  (match f.letter? with
    | some c => encode ['-', c, ',', ' ']
    | none => [])
  ++ text "--" ++ f.key

def byName? (flags : List Flag) (name : Bytes) : Option Flag := flags.find? (·.key = name)

def byLetter? (flags : List Flag) (letter : UInt8) : Option Flag :=
  flags.find? (fun f => f.letter?.any (fun c => encode [c] = [letter]))

end Flag

def FlagValueError.message : FlagValueError → Bytes
  | .notSwitch value => text "strconv.ParseBool: parsing " ++ Quoted.quote value ++ text ": invalid syntax"
  | .notList e => e.message

/--
A letter in single quotes; a byte above ASCII shows as the character its own two-byte encoding starts
with.
-/
def FlagError.letterText (letter : UInt8) : Bytes :=
  let c := if letter < 0x80 then Char.ofNat letter.toNat else if letter < 0xC0 then 'Â' else 'Ã'
  let shown := if c = '\'' then ['\\', '\''] else if c = '"' then ['"'] else Quoted.escape c
  encode (['\''] ++ shown ++ ['\''])

def FlagError.message : FlagError → Bytes
  | .helpRequested => text "pflag: help requested"
  | .badSyntax argument => text "bad flag syntax: " ++ argument
  | .unknown name => text "unknown flag: --" ++ name
  | .unknownLetter letter letters =>
    text "unknown shorthand flag: " ++ letterText letter ++ text " in -" ++ letters
  | .needsValue name => text "flag needs an argument: --" ++ name
  | .letterNeedsValue letter letters =>
    text "flag needs an argument: " ++ letterText letter ++ text " in -" ++ letters
  | .invalid flag value cause =>
    text "invalid argument " ++ Quoted.quote value ++ text " for " ++ Quoted.quote flag.label
      ++ text " flag: " ++ cause.message

abbrev FlagValues := List (String × FlagValue)

namespace FlagValues

/-- The value a flag was set to; `none` if it was not set. -/
def get? (values : FlagValues) (name : String) : Option FlagValue := values.lookup name

def put (values : FlagValues) (name : String) (value : FlagValue) : FlagValues :=
  (name, value) :: values.filter (·.1 ≠ name)

/-- Sets a flag from the text of an argument. -/
def set (values : FlagValues) (flag : Flag) (given : Bytes) : Except FlagError FlagValues :=
  match FlagValue.update (values.get? flag.name) flag.kind given with
  | .ok value => .ok (values.put flag.name value)
  | .error cause => .error (.invalid flag given cause)

def isOn (values : FlagValues) (name : String) : Bool := values.get? name = some (.switch true)

/-- The text a flag was set to; empty if it was not set. -/
def textOf (values : FlagValues) (name : String) : Bytes :=
  match values.get? name with
  | some (.text value) => value
  | _ => []

end FlagValues

structure FlagState where
  value : FlagValue
  /-- Whether it was set. -/
  changed : Bool
deriving DecidableEq, Repr

/-- The flags of a command line by name, whether set or not. -/
abbrev FlagSet := List (String × FlagState)

namespace FlagSet

def ofValues (flags : List Flag) (values : FlagValues) : FlagSet :=
  flags.map fun f =>
    (f.name,
      match values.get? f.name with
      | some value => ⟨value, true⟩
      | none => ⟨.unset f.kind, false⟩)

/-- The value a flag was set to; `none` if there is no such flag or it was not set. -/
def given? (flags : FlagSet) (name : String) : Option FlagValue :=
  ((flags.lookup name).filter (·.changed)).map (·.value)

end FlagSet

structure Arguments where
  values : FlagValues
  positional : List Bytes
deriving DecidableEq, Repr

namespace Arguments

def dash : UInt8 := 0x2D

def equals : UInt8 := 0x3D

def terminator : Bytes := [dash, dash]

def helpName : String := "help"

def helpLetter : UInt8 := 0x68

/-- Letters that start so are not read as flags. -/
def reserved : Bytes := text "test."

/-- What an argument turned out to be: the flags now set, and whether the next argument was used up. -/
abbrev Step := Except FlagError (FlagValues × Bool)

/-- Reads a flag given by name, without its dashes; `next?` is the argument behind it. -/
def readName (flags : List Flag) (values : FlagValues) (next? : Option Bytes) (body : Bytes) : Step :=
  let name := body.takeWhile (· ≠ equals)
  match Flag.byName? flags name, body.drop name.length, next? with
  | none, _, _ => .error (if name = text helpName then .helpRequested else .unknown name)
  | some f, _ :: value, _ => (values.set f value).map (·, false)
  | some f, [], next? =>
    match f.kind, next? with
    | .switch, _ => (values.set f (text "true")).map (·, false)
    | _, some value => (values.set f value).map (·, true)
    | _, none => .error (.needsValue name)

/-- Reads flags given by letters, without the dash; `next?` is the argument behind them. -/
def readLetters (flags : List Flag) (next? : Option Bytes) : FlagValues → Bytes → Step
  | values, [] => .ok (values, false)
  | values, letter :: rest =>
    if reserved.isPrefixOf (letter :: rest) then .ok (values, false)
    else
      match Flag.byLetter? flags letter with
      | none => .error
        (if letter = helpLetter then .helpRequested else .unknownLetter letter (letter :: rest))
      | some f =>
        if rest.head? = some equals ∧ rest.length ≠ 1 then (values.set f (rest.drop 1)).map (·, false)
        else
          match f.kind, rest, next? with
          | .switch, rest, _ =>
            match values.set f (text "true") with
            | .ok values => readLetters flags next? values rest
            | .error e => .error e
          | _, _ :: _, _ => (values.set f rest).map (·, false)
          | _, [], some value => (values.set f value).map (·, true)
          | _, [], none => .error (.letterNeedsValue letter [letter])

/-- Whether an argument is neither a flag nor the end of flags. -/
def isPositional (argument : Bytes) : Bool := argument.head? ≠ some dash || argument.length = 1

def readFlag (flags : List Flag) (values : FlagValues) (next? : Option Bytes) (argument : Bytes) : Step :=
  match Bytes.after? terminator argument with
  | some body =>
    if body.isEmpty ∨ body.head? = some dash ∨ body.head? = some equals then .error (.badSyntax argument)
    else readName flags values next? body
  | none => readLetters flags next? values (argument.drop 1)

def parseFrom (flags : List Flag) : Arguments → List Bytes → Except FlagError Arguments
  | done, [] => .ok done
  | done, argument :: rest =>
    if isPositional argument then
      parseFrom flags { done with positional := done.positional ++ [argument] } rest
    else if argument = terminator then .ok { done with positional := done.positional ++ rest }
    else
      match readFlag flags done.values rest.head? argument, rest with
      | .error e, _ => .error e
      | .ok (values, true), _ :: rest => parseFrom flags { done with values } rest
      | .ok (values, _), rest => parseFrom flags { done with values } rest
termination_by _ rest => rest.length

def parse (flags : List Flag) (arguments : List Bytes) : Except FlagError Arguments :=
  parseFrom flags ⟨[], []⟩ arguments

end Arguments

end DartReach
