import DartReach.Ignore.Token
import DartReach.Ignore.Wildcard
import DartReach.Path

/-!
# Ignore rules

Each line of an ignore file is a rule: a name, a path or a pattern of any depth, which may be anchored by a
leading slash, restricted to directories by a trailing one, and turned around by `!`. The last rule
that matches a path decides. Lines that are no rule are skipped.

A question without answer (`none`) comes from a broken class, see `Wildcard`.
-/

namespace DartReach.Ignore

set_option autoImplicit false

structure Rule where
  /-- Whether matching paths are kept. -/
  negated : Bool
  /-- Whether the rule starts with a slash. -/
  anchored : Bool
  /-- Whether the rule is for directories only. -/
  directory : Bool
  /-- What remains: slashes, double stars and text. -/
  tokens : List Token
deriving DecidableEq, Repr

/-- Whether tokens can follow each other in a rule; a double star stands between slashes only. -/
def wellFormed : List Token → Bool
  | [] => true
  | .anyDepth :: rest =>
    match rest with
    | [] => true
    | [.blank _] => true
    | .separator :: _ => wellFormed rest
    | _ => false
  | .separator :: rest => wellFormed rest
  | .blank _ :: rest => rest.head? != some .anyDepth && wellFormed rest
  | .piece _ :: rest => rest.head? != some .anyDepth && wellFormed rest
  | _ :: _ => false

/-- Tokens without a blank behind a final double star. -/
def trimDepth : List Token → List Token
  | [.anyDepth, .blank _] => [.anyDepth]
  | t :: rest => t :: trimDepth rest
  | [] => []

def Token.isBlank : Token → Bool
  | .blank _ => true
  | _ => false

def trimEnd (ts : List Token) : List Token := (ts.reverse.dropWhile Token.isBlank).reverse

inductive Line where
  | rule (r : Rule)
  /-- No rule: the line is empty or its tokens cannot follow each other. -/
  | skipped
  /-- Nothing but a slash: such a file cannot be used. -/
  | bareSlash

def ruleOf (negated : Bool) (ts : List Token) : Line :=
  match ts with
  | [] => .skipped
  | t :: rest =>
    let anchored := t == .separator
    let body := if anchored then rest else t :: rest
    match body.getLast? with
    | none => .bareSlash
    | some last =>
      let directory := last == .separator
      .rule ⟨negated, anchored, directory, if directory then body.dropLast else body⟩

/-- The rule of a line. Blanks at the end count only behind `!`. -/
def lineOf (ts : List Token) : Line :=
  match ts.dropWhile (· == .comment) with
  | .negation :: rest =>
    if rest.isEmpty || !wellFormed rest then .skipped else ruleOf true (trimDepth rest)
  | rest => if wellFormed rest then ruleOf false (trimEnd rest) else .skipped

def Token.endsLine : Token → Bool
  | .endOfLine => true
  | .endOfFile => true
  | _ => false

/-- The lines of a list of tokens. An end character where a line could begin ends the file. -/
def linesFrom : (line : List Token) → List Token → List (List Token)
  | line, [] => [line.reverse]
  | line, t :: rest =>
    if t == .endOfFile && line.all (· == .comment) then []
    else if t.endsLine then line.reverse :: linesFrom [] rest
    else linesFrom (t :: line) rest

/-- The rules of a list of lines; `none` if one of them is a bare slash. -/
def rulesOf : List (List Token) → Option (List Rule)
  | [] => some []
  | l :: rest =>
    match lineOf l with
    | .bareSlash => none
    | .skipped => rulesOf rest
    | .rule r => (rulesOf rest).map (r :: ·)

def parse (content : Bytes) : Option (List Rule) :=
  let cs := Utf8.decode content
  rulesOf (linesFrom [] (tokens (cs.length + 1) true cs))

/-- Matches tokens with path segments, one each; a double star takes any number of them. -/
def acceptsSegments : (fuel : Nat) → List Token → List (List Char) → Option Bool
  | 0, _, _ => some false
  | _, [], segments => some segments.isEmpty
  | fuel + 1, .anyDepth :: ts, segments =>
    match acceptsSegments fuel ts segments with
    | none => none
    | some true => some true
    | some false =>
      match segments with
      | [] => some false
      | _ :: rest => acceptsSegments fuel (.anyDepth :: ts) rest
  | fuel + 1, t :: ts, segments =>
    match segments with
    | [] => some false
    | s :: rest =>
      match Wildcard.accepts true t.text s with
      | none => none
      | some false => some false
      | some true => acceptsSegments fuel ts rest

/-- Whether a rule matches a path, relative to the ignore file. -/
def Rule.accepts (r : Rule) (path : Bytes) (isDir : Bool) : Option Bool :=
  if r.directory && !isDir then some false
  else
    let pattern := r.tokens.flatMap Token.text
    if r.tokens.contains .anyDepth then
      let ts := r.tokens.filter (· ≠ .separator)
      let segments := (Path.segments path).map Utf8.decode
      acceptsSegments (ts.length + segments.length + 1) ts segments
    else if r.tokens.contains .separator then Wildcard.accepts true pattern (Utf8.decode path)
    else if r.anchored then Wildcard.accepts false pattern (Utf8.decode path)
    else Wildcard.accepts false pattern (Utf8.decode (Path.base path))

def firstMatch (path : Bytes) (isDir : Bool) : List Rule → Option (Option Rule)
  | [] => some none
  | r :: rest =>
    match r.accepts path isDir with
    | none => none
    | some true => some (some r)
    | some false => firstMatch path isDir rest

structure File where
  /-- The directory of the file. -/
  directory : Bytes
  rules : List Rule
deriving DecidableEq, Repr

/--
Whether an absolute path is ignored. Only paths that begin with the text of the file's directory are; the rest
behind it, less one byte, is matched. There is no answer for the directory itself.
-/
def File.ignores (f : File) (path : Bytes) (isDir : Bool) : Option Bool :=
  if !path.startsWith f.directory then some false
  else if path.length ≤ f.directory.length then none
  else
    match firstMatch (path.drop (f.directory.length + 1)) isDir f.rules.reverse with
    | none => none
    | some none => some false
    | some (some r) => some !r.negated

end DartReach.Ignore
