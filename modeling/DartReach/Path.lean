import DartReach.Text.Bytes

/-!
# Slash-separated paths

A path is a byte string; its meaning is the list of segments that remains when empty segments and
`.` are dropped and each `..` takes back the segment before it. `clean` writes that meaning in its
one normal form, so that two spellings of a path can be compared as strings. All operations are
lexical: none looks at the file system.
-/

namespace DartReach.Path

set_option autoImplicit false

open Bytes (slash)

def here : Bytes := [0x2E]

def up : Bytes := [0x2E, 0x2E]

def isAbsolute : Bytes → Bool
  | b :: _ => b == slash
  | [] => false

/-- All segments of a path as written, empty ones included. -/
def segments (p : Bytes) : List Bytes := Bytes.split slash p

/--
One segment read after the segments `done`, which are kept last first. At the root `..` does
nothing; above a relative start it is kept.
-/
def step (rooted : Bool) (done : List Bytes) (segment : Bytes) : List Bytes :=
  if segment = [] ∨ segment = here then done
  else if segment = up then
    match done with
    | [] => if rooted then [] else [up]
    | last :: before => if last = up then up :: done else before
  else segment :: done

/-- The segments that a list of segments comes to, read from left to right. -/
def reduce (rooted : Bool) (segs : List Bytes) : List Bytes :=
  (segs.foldl (step rooted) []).reverse

/-- The text of a path given by its reduced segments. -/
def render (rooted : Bool) (segs : List Bytes) : Bytes :=
  let body := Bytes.join [slash] segs
  if rooted then slash :: body
  else if segs = [] then here
  else body

/-- The shortest lexically equivalent path; the empty path is `.`. -/
def clean (p : Bytes) : Bytes :=
  render (isAbsolute p) (reduce (isAbsolute p) (segments p))

/-- `q` read from `p`, cleaned. An empty part contributes nothing. -/
def join (p q : Bytes) : Bytes :=
  if p = [] then (if q = [] then [] else clean q)
  else clean (p ++ slash :: q)

/-- Everything up to and including the last slash. -/
def parentText (p : Bytes) : Bytes := Bytes.dropEndWhile (· != slash) p

def parent (p : Bytes) : Bytes := clean (parentText p)

def base (p : Bytes) : Bytes := (p.reverse.takeWhile (· != slash)).reverse

/-- The segments of a cleaned base path, of which `.` has none. -/
def baseSegments (p : Bytes) : List Bytes := reduce (isAbsolute p) (segments p)

/-- The segments of a cleaned target path, of which `.` is one. -/
def targetSegments (p : Bytes) : List Bytes :=
  match baseSegments p with
  | [] => if isAbsolute p then [] else [here]
  | segs => segs

/-- Two lists without their common beginning. -/
def dropCommon : List Bytes → List Bytes → List Bytes × List Bytes
  | a :: as, b :: bs => if a = b then dropCommon as bs else (a :: as, b :: bs)
  | as, bs => (as, bs)

/--
How to reach `target` from `start` by segments alone. There is no answer between an absolute and a
relative path, nor when the way leads out of an unknown directory (`..` where the paths part).
-/
def relative? (start target : Bytes) : Option Bytes :=
  if clean start = clean target then some here
  else if isAbsolute start != isAbsolute target then none
  else
    match dropCommon (baseSegments start) (targetSegments target) with
    | ([], down) => some (Bytes.join [slash] down)
    | (rest@(seg :: _), down) =>
      if seg = up ∧ down ≠ [] then none
      else some (Bytes.join [slash] (rest.map (fun _ => up) ++ down.filter (· ≠ here)))

/-- `target` as seen from `start`, or unchanged where there is no relative spelling. -/
def relativeOrSame (start target : Bytes) : Bytes := (relative? start target).getD target

end DartReach.Path
