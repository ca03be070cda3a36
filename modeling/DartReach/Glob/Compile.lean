import DartReach.Glob.Matcher

/-!
# Compiling glob patterns

Neighbouring parts are glued where one matcher can stand for all of them: parts that take any character
but some become one count of characters, parts of known length become a row. What is left is arranged
around its longest part of known length. Alternatives that begin or end alike have the common parts
taken out first.
-/

namespace DartReach.Glob

set_option autoImplicit false

namespace Matcher

/-- A simpler matcher for the same strings, where one is known. -/
def simplify : Matcher → Matcher
  | .anyOf [m] => m
  | .oneOf [c] false => .text [c]
  | .around value left right valueLen leftLen rightLen =>
    match value, simplify left, simplify right with
    | .text cs, .nothing, .nothing => .text cs
    | .text cs, .deep, .deep => .containing cs
    | .text cs, .deep, .nothing => .ending cs
    | .text cs, .nothing, .deep => .starting cs
    | .text cs, .nothing, .ending last => .startingEnding cs last
    | .text cs, .starting first, .nothing => .startingEnding first cs
    | .text cs, .any, .nothing => .endingName cs
    | .text cs, .nothing, .any => .startingName cs
    | v, l, r => .around v l r valueLen leftLen rightLen
  | m => m

/-- `value` with something before and behind it. -/
def arrange (value left right : Matcher) : Matcher :=
  .around value left right value.length left.length right.length

/-- A part that takes any character but some: those, and what it adds to a count of characters. -/
structure Loose where
  excluded : List Char
  /-- Characters it takes at least. -/
  least : Nat
  /-- Whether it takes any text without slash. -/
  isAny : Bool
  /-- Whether it takes any text at all. -/
  isDeep : Bool

def loose? : Matcher → Option Loose
  | .deep => some ⟨[], 0, false, true⟩
  | .any => some ⟨['/'], 0, true, false⟩
  | .single => some ⟨['/'], 1, false, false⟩
  | .oneOf cs true => some ⟨cs, 1, false, false⟩
  | _ => none

/-- Loose parts that exclude the same characters, as one matcher. -/
def glueLoose (ms : List Matcher) : Option Matcher :=
  match allKnown (ms.map loose?) with
  | none => none
  | some [] => none
  | some (p :: ps) =>
    if ps.all (·.excluded == p.excluded) then
      let parts := p :: ps
      let least := (parts.map (·.least)).foldr (· + ·) 0
      let hasAny := parts.any (·.isAny)
      let hasDeep := parts.any (·.isDeep)
      if hasDeep && !hasAny && least = 0 then some .deep
      else if hasAny && !hasDeep && least = 0 then some .any
      else some (.lacking least (!hasAny && !hasDeep) p.excluded)
    else none

/-- Parts of known length, as a row. -/
def glueRow (ms : List Matcher) : Option Matcher :=
  (allKnown (ms.map length)).map (fun ls => .row (ls.foldr (· + ·) 0) ms)

def glue (ms : List Matcher) : Option Matcher :=
  if ms.length ≤ 1 then none
  else
    match glueLoose ms with
    | some m => some m
    | none => glueRow ms

/-- A run of neighbours and the matcher that can stand for it. -/
structure Glued where
  start : Nat
  count : Nat
  matcher : Matcher

/-- Whether a later run is to be preferred: more neighbours, or a greater known length. -/
def Glued.better (old new : Glued) : Bool :=
  (match old.matcher.length, new.matcher.length with
    | some a, some b => a < b
    | _, _ => false)
  || old.count < new.count

/-- All runs in a list: by start, the longest first. -/
def runs (n : Nat) : List (Nat × Nat) :=
  (List.range n).flatMap (fun l => (List.range (n - l)).reverse.map (fun c => (l, c + 1)))

def bestRun (ms : List Matcher) : Option Glued :=
  (runs ms.length).foldl (fun best (start, count) =>
    match glue ((ms.drop start).take count) with
    | none => best
    | some m =>
      let new : Glued := ⟨start, count, m⟩
      match best with
      | none => some new
      | some old => if old.better new then some new else best) none

/-- Glues runs of neighbours as long as there are any. -/
def glueAll : (fuel : Nat) → List Matcher → List Matcher
  | 0, ms => ms
  | fuel + 1, ms =>
    match bestRun ms with
    | none => ms
    | some g => glueAll fuel (ms.take g.start ++ g.matcher :: ms.drop (g.start + g.count))

/-- Position of the longest matcher of known length, the last of equal ones. -/
def longest (ms : List Matcher) : Option Nat :=
  (ms.foldl (fun (acc : Nat × Option (Nat × Nat)) m =>
    let best :=
      match m.length, acc.2 with
      | some l, some (_, old) => if old ≤ l then some (acc.1, l) else acc.2
      | some l, none => some (acc.1, l)
      | none, b => b
    (acc.1 + 1, best)) (0, none)).2.map (·.1)

def sequence : (fuel : Nat) → List Matcher → Matcher
  | 0, _ => .nothing
  | _, [] => .nothing
  | _, [m] => m
  | fuel + 1, m :: ms =>
    match glue (m :: ms) with
    | some g => g
    | none =>
      match longest (m :: ms) with
      | none => arrange m .nothing (sequence fuel ms)
      | some i =>
        arrange ((m :: ms).getD i .nothing) (sequence fuel ((m :: ms).take i))
          (sequence fuel ((m :: ms).drop (i + 1)))

def ofList (ms : List Matcher) : Matcher :=
  let glued := glueAll ms.length ms
  simplify (sequence (glued.length + 1) glued)

end Matcher

/-- Where the alternatives of a choice were compared. -/
structure Common where
  left : List Part
  right : List Part
  leftEnded : Bool
  rightEnded : Bool

/-- Compares the parts number `i` from either end of `shortest` with those of another alternative. -/
def Common.compare (shortest : List Part) (i : Nat) (c : Common) (other : List Part) : Common :=
  if c.leftEnded && c.rightEnded then c
  else
    let j := shortest.length - 1 - i
    let leftEnded := c.leftEnded || shortest[i]? != other[i]?
    let rightEnded := c.rightEnded || (!leftEnded && j ≤ i)
      || shortest[j]? != other[j + other.length - shortest.length]?
    { c with leftEnded := leftEnded, rightEnded := rightEnded }

/-- Takes the parts number `i` from either end as common where no alternative differs. -/
def Common.extend (shortest : List Part) (others : List (List Part)) (c : Common) (i : Nat) : Common :=
  if shortest.length ≤ c.left.length + c.right.length || (c.leftEnded && c.rightEnded) then c
  else
    let j := shortest.length - 1 - i
    let c := others.foldl (Common.compare shortest i) c
    { c with
      left := if c.leftEnded then c.left else c.left ++ shortest[i]?.toList
      right := if c.rightEnded then c.right else shortest[j]?.toList ++ c.right }

/-- Position of the first of the shortest alternatives. -/
def shortestAt (alternatives : List (List Part)) : Nat :=
  (alternatives.foldl (fun (acc : Nat × Nat × Option Nat) a =>
    match acc.2.2 with
    | some least => if a.length < least then (acc.1 + 1, acc.1, some a.length)
        else (acc.1 + 1, acc.2.1, some least)
    | none => (acc.1 + 1, acc.1, some a.length)) (0, 0, none)).2.1

/-- The parts that all alternatives begin with, and those that all end with. -/
def common (alternatives : List (List Part)) : List Part × List Part :=
  if alternatives.length ≤ 1 then ([], [])
  else
    let k := shortestAt alternatives
    let shortest := alternatives.getD k []
    let others := alternatives.eraseIdx k
    let c := (List.range shortest.length).foldl (Common.extend shortest others)
      ⟨[], [], false, false⟩
    (c.left, c.right)

/-- The list without repetitions, in order of first occurrence. -/
def distinct (alternatives : List (List Part)) : List (List Part) :=
  alternatives.foldl (fun seen a => if seen.contains a then seen else seen ++ [a]) []

mutual

def compilePart : (fuel : Nat) → Part → Matcher
  | 0, _ => .nothing
  | _, .text cs => .text cs
  | _, .any => .any
  | _, .deep => .deep
  | _, .single => .single
  | _, .oneOf cs negated => .oneOf cs negated
  | _, .range lo hi negated => .range lo hi negated
  | fuel + 1, .choice alternatives => compileChoice fuel alternatives

def compileParts : (fuel : Nat) → List Part → Matcher
  | 0, _ => .nothing
  | _, [] => .nothing
  | fuel + 1, parts => .ofList (parts.map (fun p => (compilePart fuel p).simplify))

def compileChoice : (fuel : Nat) → List (List Part) → Matcher
  | 0, _ => .nothing
  | fuel + 1, alternatives =>
    let (left, right) := common alternatives
    if left.isEmpty && right.isEmpty then
      .anyOf (alternatives.map (fun a => (compileParts fuel a).simplify))
    else
      let rest := distinct
        (alternatives.map (fun a => (a.drop left.length).take (a.length - left.length - right.length)))
      let middle :=
        match rest with
        | [] => []
        | [[]] => []
        | [a] => [(compileParts fuel a).simplify]
        | _ => [(compileChoice fuel rest).simplify]
      let side (parts : List Part) :=
        if parts.isEmpty then [] else [(compileParts fuel parts).simplify]
      .ofList (side left ++ middle ++ side right)

end

/-- The matcher of a pattern, or what is wrong with the pattern. -/
def compile (pattern : Bytes) : Except Error Matcher :=
  match parse pattern with
  | .error e => .error e
  | .ok parts => .ok (compileParts (3 * (pattern.length + 1)) parts)

end DartReach.Glob
