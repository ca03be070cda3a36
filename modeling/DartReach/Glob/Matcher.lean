import DartReach.Glob.Pattern

/-!
# Matchers

The compiled form of a glob pattern. A matcher answers two questions about a byte string: whether the
whole of it matches, and where it first matches inside, with all lengths such a match can have, ascending.

Most matchers know the number of characters they take. A `row` puts such matchers side by side and cuts
the string by these numbers; the cut falls behind the first byte of the last character, so that a part of
a row which ends in a character of several bytes does not match. A row with a part of no length has
nothing to cut at the end of the string: there the question has no answer.
-/

namespace DartReach.Glob

set_option autoImplicit false

inductive Matcher where
  /-- The empty string. -/
  | nothing
  /-- A fixed text. -/
  | text (cs : List Char)
  /-- Any text without slash. -/
  | any
  /-- Any text. -/
  | deep
  /-- One character other than a slash. -/
  | single
  /-- One character of a list, or outside it. -/
  | oneOf (cs : List Char) (negated : Bool)
  /-- One character between two, or outside them. -/
  | range (lo hi : Char) (negated : Bool)
  /-- A fixed text, then anything. -/
  | starting (cs : List Char)
  /-- Anything, then a fixed text. -/
  | ending (cs : List Char)
  /-- Begins with one text and ends with another; the two may overlap. -/
  | startingEnding (first last : List Char)
  /-- A fixed text, then anything without slash. -/
  | startingName (cs : List Char)
  /-- Anything without slash, then a fixed text. -/
  | endingName (cs : List Char)
  /-- Holds a fixed text somewhere. -/
  | containing (cs : List Char)
  /-- At least so many characters, exactly so many if `exact`, and a text nowhere in them. -/
  | lacking (least : Nat) (exact : Bool) (cs : List Char)
  /-- One of several. -/
  | anyOf (ms : List Matcher)
  /-- Several of known lengths side by side. -/
  | row (length : Nat) (ms : List Matcher)
  /-- `value` somewhere, `left` before and `right` behind it, with the lengths that are known. -/
  | around (value left right : Matcher) (valueLen leftLen rightLen : Option Nat)

/-- A first match: its offset and the lengths it can have, ascending. -/
abbrev Occurrence := Nat × List Nat

namespace Matcher

/-- The length of alternatives: as long as it is unknown the next one decides, later ones have to agree. -/
def commonLength (known : Option Nat) : List (Option Nat) → Option Nat
  | [] => known
  | l :: rest =>
    match known with
    | none => commonLength l rest
    | some n => if l = some n then commonLength known rest else none

mutual

def length : Matcher → Option Nat
  | .nothing => some 0
  | .text cs => some cs.length
  | .single => some 1
  | .oneOf _ _ => some 1
  | .range _ _ _ => some 1
  | .anyOf ms => commonLength none (lengths ms)
  | .row n _ => some n
  | .around _ _ _ (some v) (some l) (some r) => some (l + v + r)
  | _ => none

def lengths : List Matcher → List (Option Nat)
  | [] => []
  | m :: ms => m.length :: lengths ms

end

/-- Whether a string is one character that satisfies `p`; the empty string counts as U+FFFD. -/
def oneChar (p : Char → Bool) (s : Bytes) : Bool :=
  match Utf8.next? s with
  | none => p Utf8.replacement
  | some (sym, rest) => rest.isEmpty && p sym.char

def hasText (cs : List Char) (s : Bytes) : Bool := (Bytes.indexOf? (encode cs) s).isSome

def slashAt? (s : Bytes) : Option Nat := Bytes.indexOf? [Bytes.slash] s

def widthOf (c : Char) : Nat := (String.utf8EncodeChar c).length

/-- Offsets of the characters of a string, each with its character. -/
def offsets (s : Bytes) : List (Nat × Char) :=
  ((Utf8.symbols s).foldl (fun (acc : Nat × List (Nat × Char)) sym =>
    (acc.1 + sym.width, (acc.1, sym.char) :: acc.2)) (0, [])).2.reverse

/-- The first character that satisfies `p`, as an occurrence. -/
def firstChar (p : Char → Bool) (s : Bytes) : Option Occurrence :=
  ((offsets s).find? (fun oc => p oc.2)).map (fun oc => (oc.1, [widthOf oc.2]))

/-- Every beginning of a string as a length, the empty one and the whole included. -/
def beginnings (s : Bytes) : List Nat := (offsets s).map (·.1) ++ [s.length]

/-- The ends of all characters of a string, behind `n` bytes that come first. -/
def ends (n : Nat) (s : Bytes) : List Nat := (offsets s).map (fun oc => n + oc.1 + widthOf oc.2)

/-- The lengths that satisfy two conditions, each given by its lengths. -/
def both (xs ys : List Nat) : List Nat := xs.flatMap (fun x => ys.filter (· == x))

def merge : (fuel : Nat) → List Nat → List Nat → List Nat
  | 0, _, _ => []
  | _, [], ys => ys
  | _, xs, [] => xs
  | fuel + 1, x :: xs, y :: ys =>
    if x = y then x :: merge fuel xs ys
    else if x < y then x :: merge fuel xs (y :: ys)
    else y :: merge fuel (x :: xs) ys

/-- The lengths of `least` characters or more. -/
def longEnough (least : Nat) (s : Bytes) : Option (List Nat) :=
  if s.length + 1 ≤ least then none
  else
    match (ends 0 s).drop (least - 1) with
    | [] => none
    | ls => some ls

/-- Where a string with enough characters and without a text first occurs: at the front or nowhere. -/
def lackingIndex (least : Nat) (exact : Bool) (cs : List Char) (s : Bytes) : Option Occurrence :=
  match longEnough least s with
  | none => none
  | some ls =>
    let ls := if exact then both ls (0 :: (ends 0 s).take least) else ls
    let free := match Bytes.indexOf? (encode cs) s with
      | some i => beginnings (s.take i)
      | none => beginnings s
    if (both ls free).isEmpty then none else some (0, both ls free)

/-- All ends of `last` in a string, ascending, the last one found first and cut off. -/
def lastEnds (last : Bytes) : (fuel : Nat) → Bytes → List Nat
  | 0, _ => []
  | fuel + 1, s =>
    match Bytes.lastIndexOf? last s with
    | none => []
    | some i => lastEnds last fuel (s.take i) ++ [i + last.length]

/-- First occurrence of a text, with the lengths of what follows it. -/
def textIndex (cs : List Char) (lengths : Bytes → List Nat) (s : Bytes) : Option Occurrence :=
  (Bytes.indexOf? (encode cs) s).map (fun i => (i, lengths (s.drop (i + (encode cs).length))))

/-- The first alternative to occur, with the lengths of all that occur at the same place. -/
def earliest : Option Occurrence → List (Option Occurrence) → Option Occurrence
  | best, [] => best
  | best, none :: rest => earliest best rest
  | none, some o :: rest => earliest (some o) rest
  | some b, some o :: rest =>
    if o.1 < b.1 then earliest (some o) rest
    else if b.1 < o.1 then earliest (some b) rest
    else earliest (some (b.1, merge (b.2.length + o.2.length) b.2 o.2)) rest

def allKnown {α : Type} : List (Option α) → Option (List α)
  | [] => some []
  | none :: _ => none
  | some a :: rest => (allKnown rest).map (a :: ·)

/--
How a row cuts off a part of `len` characters: the number of bytes up to and including the first byte of
the last of them, `none` where there are not so many. A part without length reaches to the last character.
-/
def cut (len : Nat) (s : Bytes) : Option Nat :=
  let starts := (offsets s).map (·.1)
  if len = 0 then some (starts.getLast?.getD 0 + 1)
  else starts[len - 1]?.map (· + 1)

/-- Tries a test at each character of a string that leaves `len` bytes or more; the first success counts. -/
def firstSuccess (len : Nat) (test : Bytes → Option Bool) (s : Bytes) :
    List Nat → Option (Option Occurrence)
  | [] => some none
  | i :: rest =>
    if s.length - i < len then some none
    else
      match test (s.drop i) with
      | none => none
      | some true => some (some (i, [len]))
      | some false => firstSuccess len test s rest

/-- Whether what lies behind one of the lengths, longest first, passes a test. -/
def anyRight (right : Bytes → Option Bool) (s : Bytes) : List Nat → Option Bool
  | [] => some false
  | l :: rest =>
    match right (s.drop l) with
    | none => none
    | some true => some true
    | some false => anyRight right s rest

/--
Looks for an occurrence of the middle part from `offset` up to `limit` such that what stands before it and
what stands behind it match too.
-/
def search (find : Bytes → Option (Option Occurrence)) (left right : Bytes → Option Bool)
    (s : Bytes) (limit : Nat) : (fuel offset : Nat) → Option Bool
  | 0, _ => some false
  | fuel + 1, offset =>
    if limit ≤ offset then some false
    else
      match find ((s.take limit).drop offset) with
      | none => none
      | some none => some false
      | some (some (i, lengths)) =>
        let place := offset + i
        let next := place + ((Utf8.next? (s.drop place)).map (·.1.width)).getD 0
        match left (s.take place) with
        | none => none
        | some false => search find left right s limit fuel next
        | some true =>
          match anyRight right (s.drop place) lengths.reverse with
          | none => none
          | some true => some true
          | some false => search find left right s limit fuel next

mutual

/-- Whether the whole string matches; `none` where a row has nothing to cut. -/
def accepts : Matcher → Bytes → Option Bool
  | .nothing, s => some s.isEmpty
  | .text cs, s => some (s == encode cs)
  | .any, s => some (slashAt? s).isNone
  | .deep, _ => some true
  | .single, s => some (oneChar (· != '/') s)
  | .oneOf cs negated, s => some (oneChar (fun c => cs.contains c != negated) s)
  | .range lo hi negated, s => some (oneChar (fun c => (lo ≤ c && c ≤ hi) != negated) s)
  | .starting cs, s => some (s.startsWith (encode cs))
  | .ending cs, s => some (s.endsWith (encode cs))
  | .startingEnding first last, s =>
    some (s.startsWith (encode first) && s.endsWith (encode last))
  | .startingName cs, s =>
    some (((Bytes.after? (encode cs) s).map (fun rest => (slashAt? rest).isNone)).getD false)
  | .endingName cs, s =>
    some (s.endsWith (encode cs) && (slashAt? (s.take (s.length - (encode cs).length))).isNone)
  | .containing cs, s => some (hasText cs s)
  | .lacking least exact cs, s =>
    let n := (Utf8.symbols s).length
    some (least ≤ n && (!exact || n = least) && !hasText cs s)
  | .anyOf ms, s => acceptsSome ms s
  | .row len ms, s => if (Utf8.symbols s).length = len then acceptsRow ms s else some false
  | .around value left right valueLen leftLen rightLen, s =>
    let total := do return (← leftLen) + (← valueLen) + (← rightLen)
    if total.any (s.length < ·) then some false
    else
      search (index value) (accepts left) (accepts right) s (s.length - rightLen.getD 0)
        (s.length + 1) (leftLen.getD 0)

/-- Whether one of several matches; they are asked in order. -/
def acceptsSome : List Matcher → Bytes → Option Bool
  | [], _ => some false
  | m :: ms, s =>
    match accepts m s with
    | none => none
    | some true => some true
    | some false => acceptsSome ms s

/-- Whether the parts of a row match at the front of a string. -/
def acceptsRow : List Matcher → Bytes → Option Bool
  | [], _ => some true
  | m :: ms, s =>
    match cut (m.length.getD 0) s with
    | none => some false
    | some n =>
      if s.length < n then none
      else
        match accepts m (s.take n) with
        | none => none
        | some false => some false
        | some true => acceptsRow ms (s.drop n)

def index : Matcher → Bytes → Option (Option Occurrence)
  | .nothing, _ => some (some (0, [0]))
  | .text cs, s => some (textIndex cs (fun _ => [(encode cs).length]) s)
  | .any, s =>
    match slashAt? s with
    | none => some (some (0, beginnings s))
    | some i => some (some (0, beginnings (s.take i)))
  | .deep, s => some (some (0, beginnings s))
  | .single, s => some (firstChar (· != '/') s)
  | .oneOf cs negated, s => some (firstChar (fun c => cs.contains c != negated) s)
  | .range lo hi negated, s => some (firstChar (fun c => (lo ≤ c && c ≤ hi) != negated) s)
  | .starting cs, s =>
    let n := (encode cs).length
    some (textIndex cs (fun rest => n :: ends n rest) s)
  | .ending cs, s =>
    some ((Bytes.indexOf? (encode cs) s).map (fun i => (0, [i + (encode cs).length])))
  | .startingEnding first last, s =>
    some ((Bytes.indexOf? (encode first) s).bind (fun i =>
      match lastEnds (encode last) (s.length + 1) (s.drop i) with
      | [] => none
      | ls => some (i, ls)))
  | .startingName cs, s =>
    let n := (encode cs).length
    some (textIndex cs (fun rest =>
      n :: ends n (match slashAt? rest with | some i => rest.take i | none => rest)) s)
  | .endingName cs, s =>
    some ((Bytes.indexOf? (encode cs) s).map (fun i =>
      let start := match Bytes.lastIndexOf? [Bytes.slash] (s.take i) with
        | some k => k + 1
        | none => 0
      (start, [i + (encode cs).length - start])))
  | .containing cs, s =>
    some ((Bytes.indexOf? (encode cs) s).map (fun i =>
      let n := i + (encode cs).length
      (0, (beginnings (s.drop n)).map (n + ·))))
  | .lacking least exact cs, s => some (lackingIndex least exact cs s)
  | .anyOf ms, s => (indexEach ms s).map (earliest none)
  | .row len ms, s => firstSuccess len (acceptsRow ms) s ((offsets s).map (·.1))
  | .around _ _ _ _ _ _, _ => some none

def indexEach : List Matcher → Bytes → Option (List (Option Occurrence))
  | [], _ => some []
  | m :: ms, s =>
    match index m s with
    | none => none
    | some o => (indexEach ms s).map (o :: ·)

end

end Matcher

end DartReach.Glob
