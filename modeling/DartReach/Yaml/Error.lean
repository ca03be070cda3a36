import DartReach.Yaml.Source

/-!
# What is wrong with a document

Every way in which a text fails to be a document, with the line a reader is told. Problems of single tokens
are reported where the construct began, problems of the structure where the enclosing collection did; the
first line of a document is never named.
-/

namespace DartReach.Yaml

set_option autoImplicit false

/-- A place in a text; everything counts from zero. -/
structure Mark where
  index : Nat
  line : Nat
  column : Nat
deriving DecidableEq, Repr

inductive Problem where
  | source (e : SourceError)
  | noToken
  | entryNotAllowed
  | keyNotAllowed
  | valueNotAllowed
  | noColon
  | tooDeep
  | unknownDirective
  | noDirectiveName
  | badDirectiveName
  | noLineEnd
  | noVersionDot
  | longVersion
  | noVersion
  | noBlank
  | noBlankOrBreak
  | badAnchor
  | noTagClose
  | noTagHandle
  | noTagSuffix
  | noOctet
  | badLeadingOctet
  | badTrailingOctet
  | zeroIndentation
  | tabIndentation
  | tabInScalar
  | documentInScalar
  | endInScalar
  | unknownEscape
  | noHexadecimal
  | badCodePoint
  | noDocumentStart
  | noContent
  | noDash
  | noKey
  | openSequence
  | openMapping
  | unknownHandle
  | twoVersions
  | otherVersion
  | twoHandles
  | unknownAnchor (name : Bytes)
deriving DecidableEq, Repr

def Problem.message : Problem → Bytes
  | .source e => text e.message
  | .noToken => text "found character that cannot start any token"
  | .entryNotAllowed => text "block sequence entries are not allowed in this context"
  | .keyNotAllowed => text "mapping keys are not allowed in this context"
  | .valueNotAllowed => text "mapping values are not allowed in this context"
  | .noColon => text "could not find expected ':'"
  | .tooDeep => text "exceeded max depth of 10000"
  | .unknownDirective => text "found unknown directive name"
  | .noDirectiveName => text "could not find expected directive name"
  | .badDirectiveName => text "found unexpected non-alphabetical character"
  | .noLineEnd => text "did not find expected comment or line break"
  | .noVersionDot => text "did not find expected digit or '.' character"
  | .longVersion => text "found extremely long version number"
  | .noVersion => text "did not find expected version number"
  | .noBlank => text "did not find expected whitespace"
  | .noBlankOrBreak => text "did not find expected whitespace or line break"
  | .badAnchor => text "did not find expected alphabetic or numeric character"
  | .noTagClose => text "did not find the expected '>'"
  | .noTagHandle => text "did not find expected '!'"
  | .noTagSuffix => text "did not find expected tag URI"
  | .noOctet => text "did not find URI escaped octet"
  | .badLeadingOctet => text "found an incorrect leading UTF-8 octet"
  | .badTrailingOctet => text "found an incorrect trailing UTF-8 octet"
  | .zeroIndentation => text "found an indentation indicator equal to 0"
  | .tabIndentation => text "found a tab character where an indentation space is expected"
  | .tabInScalar => text "found a tab character that violates indentation"
  | .documentInScalar => text "found unexpected document indicator"
  | .endInScalar => text "found unexpected end of stream"
  | .unknownEscape => text "found unknown escape character"
  | .noHexadecimal => text "did not find expected hexdecimal number"
  | .badCodePoint => text "found invalid Unicode character escape code"
  | .noDocumentStart => text "did not find expected <document start>"
  | .noContent => text "did not find expected node content"
  | .noDash => text "did not find expected '-' indicator"
  | .noKey => text "did not find expected key"
  | .openSequence => text "did not find expected ',' or ']'"
  | .openMapping => text "did not find expected ',' or '\x7d'"
  | .unknownHandle => text "found undefined tag handle"
  | .twoVersions => text "found duplicate %YAML directive"
  | .otherVersion => text "found incompatible YAML document"
  | .twoHandles => text "found duplicate %TAG directive"
  | .unknownAnchor name => text "unknown anchor '" ++ name ++ text "' referenced"

/-- A problem and the line to tell; no line is told for zero. -/
structure Error where
  line : Nat
  problem : Problem
deriving DecidableEq, Repr

def Error.message (e : Error) : Bytes :=
  text "yaml: "
    ++ (if e.line = 0 then [] else text "line " ++ decimal e.line ++ text ": ")
    ++ e.problem.message

/-- An error inside a token, noticed at `found` in a construct that began at `began`. -/
def Error.inToken (began found : Mark) (problem : Problem) : Error :=
  if began.line ≠ 0 then ⟨began.line + 1, problem⟩
  else if found.line ≠ 0 then ⟨found.line + 1, problem⟩
  else ⟨0, problem⟩

/-- An error of structure, noticed at `found` in a collection that began at `began`. -/
def Error.inNode (began found : Mark) (problem : Problem) : Error :=
  if began.line ≠ 0 then ⟨began.line, problem⟩ else ⟨found.line, problem⟩

end DartReach.Yaml
