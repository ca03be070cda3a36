import DartReach.Files.SystemError

/-!
# Writing

A sink takes bytes, perhaps only so many: the write that would pass the limit stores what fits and fails. A
buffered sink collects bytes and passes them on in blocks; once a write failed it drops everything.
-/

namespace DartReach

set_option autoImplicit false

/-- Why a sink takes no more. -/
inductive SinkError where
  /-- Its limit is reached. -/
  | full
  | system (e : SystemError)
deriving DecidableEq, Repr

def SinkError.message : SinkError → Bytes
  | .full => text "writer is full"
  | .system e => e.message

structure Sink where
  written : Bytes
  /-- Number of bytes it takes in all; `none` for any number. -/
  limit : Option Nat
  /-- How it refuses more. -/
  refusal : SinkError
deriving DecidableEq, Repr

namespace Sink

def unlimited : Sink := ⟨[], none, .full⟩

/-- Writes bytes; `false` if not all of them were taken. -/
def write (s : Sink) (bytes : Bytes) : Sink × Bool :=
  match s.limit with
  | none => ({ s with written := s.written ++ bytes }, true)
  | some n =>
    if s.written.length + bytes.length ≤ n then ({ s with written := s.written ++ bytes }, true)
    else ({ s with written := s.written ++ bytes.take (n - s.written.length) }, false)

end Sink

structure Terminal where
  /-- Whether it shows colours. -/
  color : Bool
  /-- Number of bytes it takes in all; `none` for any number. -/
  limit : Option Nat
  refusal : SinkError
deriving DecidableEq, Repr

namespace Terminal

def endless (color : Bool) : Terminal := ⟨color, none, .full⟩

def sink (t : Terminal) : Sink := ⟨[], t.limit, t.refusal⟩

/-- What arrives of a text when nobody asks whether all of it does. -/
def shows (t : Terminal) (bytes : Bytes) : Bytes := (t.sink.write bytes).1.written

end Terminal

structure Buffered where
  sink : Sink
  /-- Bytes that were not passed on yet. -/
  pending : Bytes
  /-- Whether a write failed. -/
  failed : Bool
deriving DecidableEq, Repr

namespace Buffered

def blockSize : Nat := 4096

def start (sink : Sink) : Buffered := ⟨sink, [], false⟩

/-- Passes bytes on at once; the buffer is empty afterwards. -/
def pass (b : Buffered) (bytes : Bytes) : Buffered :=
  let (sink, ok) := b.sink.write bytes
  ⟨sink, [], !ok⟩

/-- Puts bytes into an empty buffer, or past it if they do not fit. -/
def refill (b : Buffered) (bytes : Bytes) : Buffered :=
  if b.failed then b
  else if bytes.length ≤ blockSize then { b with pending := bytes }
  else b.pass bytes

/-- Writes bytes. A buffer that overflows is filled up and passed on first. -/
def write (b : Buffered) (bytes : Bytes) : Buffered :=
  if b.failed then b
  else if b.pending.length + bytes.length ≤ blockSize then
    { b with pending := b.pending ++ bytes }
  else if b.pending.isEmpty then b.pass bytes
  else
    let room := blockSize - b.pending.length
    (b.pass (b.pending ++ bytes.take room)).refill (bytes.drop room)

def flush (b : Buffered) : Buffered :=
  if b.failed || b.pending.isEmpty then b else b.pass b.pending

end Buffered

structure WriteError where
  reason : SinkError
deriving DecidableEq, Repr

def WriteError.message (e : WriteError) : Bytes :=
  text "failed to write report: " ++ e.reason.message

end DartReach
