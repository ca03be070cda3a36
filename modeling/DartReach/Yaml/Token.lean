import DartReach.Yaml.Error

/-!
# Tokens

The words of a document. Block collections, which are written by indentation alone, have tokens of their own
where they start and end, and so has a key that is only recognised by the colon behind it.
-/

namespace DartReach.Yaml

set_option autoImplicit false

inductive Style where
  | plain
  | singleQuoted
  | doubleQuoted
  | literal
  | folded
deriving DecidableEq, Repr

inductive Token.Kind where
  | streamStart
  | streamEnd
  | version (major minor : Nat)
  | tagHandle (handle expansion : List Char)
  | documentStart
  | documentEnd
  | blockSequence
  | blockMapping
  | blockEnd
  | openBracket
  | closeBracket
  | openBrace
  | closeBrace
  | dash
  | comma
  | key
  | value
  | alias (name : List Char)
  | anchor (name : List Char)
  | tag (handle suffix : List Char)
  | scalar (content : List Char) (style : Style)
deriving DecidableEq, Repr

structure Token where
  kind : Token.Kind
  start : Mark
deriving DecidableEq, Repr

end DartReach.Yaml
