/-
  ProgramHost.Failure

  Failures of the devices behind input and output. The kind of a failure decides
  whether a transfer is tried again; its text is what people are told.
-/

namespace ProgramHost

/-- The kinds of device failure. -/
inductive Failure.Kind where
  | interrupted
  | brokenPipe
  | wouldBlock
  | timedOut
  | unexpectedEof
  | invalidData
  | permissionDenied
  | notFound
  | writeZero
  | isADirectory
  | storageFull
  | other
  deriving DecidableEq, Repr

/-- The text of a failure that says nothing more than its kind. -/
def Failure.Kind.description : Failure.Kind → String
  | .interrupted => "operation interrupted"
  | .brokenPipe => "broken pipe"
  | .wouldBlock => "operation would block"
  | .timedOut => "timed out"
  | .unexpectedEof => "unexpected end of file"
  | .invalidData => "invalid data"
  | .permissionDenied => "permission denied"
  | .notFound => "entity not found"
  | .writeZero => "write zero"
  | .isADirectory => "is a directory"
  | .storageFull => "no storage space"
  | .other => "other error"

/-- A failure reported by a device. -/
structure Failure where
  kind : Failure.Kind
  text : String
  deriving DecidableEq, Repr

namespace Failure

/-- The failure of a kind with the kind's own text. -/
def ofKind (kind : Kind) : Failure := ⟨kind, kind.description⟩

/-- An interrupted transfer is tried again; every other failure is final. -/
def isInterruption (f : Failure) : Bool := f.kind == .interrupted

/-- The failure of a transfer to a device that accepts nothing more. -/
def stalled : Failure := ⟨.writeZero, "failed to write whole buffer"⟩

/-- The failure of reading from a directory. -/
def directory : Failure := ⟨.isADirectory, "Is a directory (os error 21)"⟩

/-- The failure of a transfer to a device without room. -/
def noRoom : Failure := ⟨.storageFull, "No space left on device (os error 28)"⟩

end Failure

end ProgramHost
