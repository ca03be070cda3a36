import DartReach.Text.Utf8

/-!
# File-name wildcards

`*` stands for any text, `?` for one character and `[…]` for one character of a class, where a leading
`!` or `^` means the characters outside it; a backslash takes the meaning from the character behind it.
For whole paths none of them stands for a slash.

A class that runs out inside a character of several bytes is broken: a question that reaches it has no
answer, which is `none` throughout.
-/

namespace DartReach.Wildcard

set_option autoImplicit false

def hasMore : List Char → Bool
  | [] => false
  | [c] => 0x80 ≤ c.toNat
  | _ => true

/-- The rest of a pattern behind the bracket that closes a class; `none` if there is none. -/
def afterClass : List Char → Option (List Char)
  | [] => none
  | '\\' :: _ :: rest => afterClass rest
  | ']' :: rest => some rest
  | _ :: rest => afterClass rest

/-- One member of a class, unescaped, and what follows it; `none` where the class ends too early. -/
def member : List Char → Option (Char × List Char)
  | [] => none
  | '\\' :: rest =>
    match rest with
    | c :: after => if hasMore rest then some (c, after) else none
    | [] => none
  | c :: rest => some (c, rest)

/-- The upper end of a range, unescaped, and what follows it. -/
def upperEnd : List Char → Option (Char × List Char)
  | '\\' :: c :: rest => some (c, rest)
  | ['\\'] => none
  | c :: rest => some (c, rest)
  | [] => none

/-- What the members of a class say about a character. -/
inductive Verdict where
  /-- It is one of them; the rest of the class still has to be skipped. -/
  | isMember (rest : List Char)
  /-- It is none of them. -/
  | noMember (rest : List Char)
  /-- The class ends too early to say. -/
  | unfinished
  /-- The class is broken. -/
  | broken

def members (c : Char) : (fuel : Nat) → List Char → Verdict
  | 0, p => .noMember p
  | fuel + 1, p =>
    if !hasMore p || p.head? == some ']' then .noMember p
    else
      match member p with
      | none => .unfinished
      | some (lo, rest) =>
        match rest with
        | [] => .broken
        | '-' :: after =>
          if hasMore rest && after.head? != some ']' then
            match upperEnd after with
            | none => .unfinished
            | some (hi, rest) => if lo ≤ c && c ≤ hi then .isMember rest else members c fuel rest
          else if lo = c then .isMember rest
          else members c fuel rest
        | _ => if lo = c then .isMember rest else members c fuel rest

/--
Whether a character is in the class at the front of a pattern, with the pattern behind the class; a class
that is not closed holds nothing.
-/
def inClass (c : Char) (p : List Char) : Option (Option (List Char)) :=
  let (negated, p) :=
    match p with
    | '!' :: rest => (true, rest)
    | '^' :: rest => (true, rest)
    | _ => (false, p)
  let close (found : Bool) (rest : List Char) : Option (Option (List Char)) :=
    match afterClass rest with
    | some after => some (if found != negated then some after else none)
    | none => some none
  match members c (p.length + 1) p with
  | .isMember rest => close true rest
  | .noMember rest => close false rest
  | .unfinished => some none
  | .broken => none

/-- Tries a test on every non-empty end of a text, up to one that begins with a slash if `path`. -/
def anyEnd (path : Bool) (test : List Char → Option Bool) : List Char → Option Bool
  | [] => some false
  | c :: rest =>
    match test (c :: rest) with
    | none => none
    | some true => some true
    | some false => if path && c == '/' then some false else anyEnd path test rest

/-- Whether a pattern matches a whole text; `path` says whether slashes only match themselves. -/
def acceptsFrom (path : Bool) : (fuel : Nat) → (pattern s : List Char) → Option Bool
  | 0, _, _ => some false
  | _, [], s => some s.isEmpty
  | fuel + 1, c :: p, s =>
    match c, s with
    | '*', _ =>
      match p.dropWhile (· == '*') with
      | [] => some (!path || !s.contains '/')
      | d :: p =>
        if path && d == '/' then
          match s.dropWhile (· != '/') with
          | [] => some false
          | _ :: s => acceptsFrom path fuel p s
        else anyEnd path (acceptsFrom path fuel (d :: p)) s
    | _, [] => some false
    | '?', x :: s => if path && x == '/' then some false else acceptsFrom path fuel p s
    | '[', x :: s =>
      if path && x == '/' then some false
      else
        match inClass x p with
        | none => none
        | some none => some false
        | some (some p) => acceptsFrom path fuel p s
    | '\\', x :: s =>
      match p with
      | d :: p => if d = x then acceptsFrom path fuel p s else some false
      | [] => if x = '\\' then acceptsFrom path fuel [] s else some false
    | _, x :: s => if c = x then acceptsFrom path fuel p s else some false

def accepts (path : Bool) (pattern s : List Char) : Option Bool :=
  acceptsFrom path (pattern.length + 1) pattern s

end DartReach.Wildcard
