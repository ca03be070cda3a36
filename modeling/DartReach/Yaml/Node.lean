import DartReach.Yaml.Plain
import DartReach.Yaml.Token

/-!
# Nodes

The tree of a document. An alias carries the node it stands for; one that stands for a collection around it
carries only what is known of the collection, so that the tree stays finite.
-/

namespace DartReach.Yaml

set_option autoImplicit false

abbrev TagName := List Char

namespace TagName

def string : TagName := "!!str".toList

def binary : TagName := "!!binary".toList

def float : TagName := "!!float".toList

def timestamp : TagName := "!!timestamp".toList

def merge : TagName := "!!merge".toList

def sequence : TagName := "!!seq".toList

def mapping : TagName := "!!map".toList

/-- What all tags of the language start with. -/
def longStart : List Char := "tag:yaml.org,2002:".toList

def ofLong (tag : List Char) : TagName :=
  if longStart.isPrefixOf tag then '!' :: '!' :: tag.drop longStart.length else tag

end TagName

/-- What is known of a collection while it is read. -/
structure Header where
  line : Nat
  tag : TagName
  isMapping : Bool
deriving DecidableEq, Repr

/-- A node; lines count from one. -/
inductive Node where
  | scalar (line : Nat) (tag : TagName) (content : List Char)
  | sequence (line : Nat) (tag : TagName) (items : List Node)
  | mapping (line : Nat) (tag : TagName) (entries : List (Node × Node))
  | alias (line : Nat) (name : List Char) (target : Node)
  /-- An alias of a collection that holds it. -/
  | loop (line : Nat) (name : List Char) (target : Header)

namespace Node

def line : Node → Nat
  | .scalar line .. => line
  | .sequence line .. => line
  | .mapping line .. => line
  | .alias line .. => line
  | .loop line .. => line

/-- The tag of a scalar that is written with a tag or none. -/
def scalarTag (tag : List Char) (style : Style) (content : List Char) : TagName :=
  if tag ≠ [] ∧ tag ≠ ['!'] then TagName.ofLong tag
  else
    match style with
    | .plain =>
      if content = ['<', '<'] then TagName.merge
      else (Plain.meaning true content).tag.toList
    | _ => TagName.string

/-- The tag of a collection that is written with a tag or none. -/
def collectionTag (tag : List Char) (isMapping : Bool) : TagName :=
  if tag ≠ [] ∧ tag ≠ ['!'] then TagName.ofLong tag
  else if isMapping then TagName.mapping
  else TagName.sequence

def ofScalar (mark : Mark) (tag : List Char) (style : Style) (content : List Char) : Node :=
  .scalar (mark.line + 1) (scalarTag tag style content) content

/-- The node of what is left out. -/
def empty (mark : Mark) : Node := ofScalar mark [] .plain []

/-- Whether a key means "the entries of these mappings too". -/
def isMerge : Node → Bool
  | .scalar _ tag content => content = ['<', '<'] && tag = TagName.merge
  | _ => false

def tag : Node → TagName
  | .scalar _ tag _ => tag
  | .sequence _ tag _ => tag
  | .mapping _ tag _ => tag
  | .alias _ _ target => target.tag
  | .loop _ _ target => target.tag

end Node

end DartReach.Yaml
