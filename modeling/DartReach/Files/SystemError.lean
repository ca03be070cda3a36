import DartReach.Text.Bytes

/-!
# Errors of file-system calls

A failed call is reported by its name, the path as it was given, and the cause in words.
-/

namespace DartReach

set_option autoImplicit false

inductive Cause where
  | notFound
  | denied
  | isDirectory
  | notDirectory
  | tooManyLinks
  | nameTooLong
  | invalidArgument
  | noSpace
  | quotaExceeded
  | fileTooLarge
  | inputOutput
deriving DecidableEq, Repr

def Cause.message : Cause → String
  | .notFound => "no such file or directory"
  | .denied => "permission denied"
  | .isDirectory => "is a directory"
  | .notDirectory => "not a directory"
  | .tooManyLinks => "too many levels of symbolic links"
  | .nameTooLong => "file name too long"
  | .invalidArgument => "invalid argument"
  | .noSpace => "no space left on device"
  | .quotaExceeded => "disk quota exceeded"
  | .fileTooLarge => "file too large"
  | .inputOutput => "input/output error"

inductive Call where
  | open
  | read
  | stat
  | write
  | close
  | chdir
deriving DecidableEq, Repr

def Call.name : Call → String
  | .open => "open"
  | .read => "read"
  | .stat => "stat"
  | .write => "write"
  | .close => "close"
  | .chdir => "chdir"

structure SystemError where
  call : Call
  /-- The path as it was given. -/
  path : Bytes
  cause : Cause
deriving DecidableEq, Repr

/-- The error in words: call, path and cause. -/
def SystemError.message (e : SystemError) : Bytes :=
  text e.call.name ++ text " " ++ e.path ++ text ": " ++ text e.cause.message

end DartReach
