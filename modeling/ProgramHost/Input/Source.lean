/-
  ProgramHost.Input.Source

  Where input comes from.

  A source holds the unread part of its current piece and the events still to
  come: a piece of data, an end of input, or a failure. Each end and each
  failure is reported once; an empty piece of data is an end; after the last
  event the source is at its end for ever.

  `Source.stream` forgets how input is cut into pieces: it is the bytes, ends
  and final failures in the order in which a reader meets them.
-/

import ProgramHost.Bytes
import ProgramHost.Failure

namespace ProgramHost

/-- What a source delivers when it is asked for more. -/
inductive Event where
  | data (bytes : Bytes)
  | endOfInput
  | failure (f : Failure)
  deriving DecidableEq, Repr

/-- A source of input. -/
structure Source where
  /-- The unread part of the current piece. -/
  piece : Bytes := []
  /-- What will be delivered next, in order. -/
  events : List Event := []
  deriving DecidableEq, Repr

namespace Source

/-- The source that delivers a byte string and then ends. -/
def ofBytes (bs : Bytes) : Source := { events := [.data bs] }

/-- The source whose next read fails. -/
def failing (f : Failure) : Source := { events := [.failure f] }

end Source

/-! ## The stream of a source -/

/-- What a reader meets when pieces and interruptions are forgotten. -/
inductive Signal where
  | byte (b : UInt8)
  | endOfInput
  | failure (f : Failure)
  deriving DecidableEq, Repr

/-- What a reader meets in one event. -/
def Event.signals : Event → List Signal
  | .data [] => [.endOfInput]
  | .data (b :: bs) => (b :: bs).map .byte
  | .endOfInput => [.endOfInput]
  | .failure f => if f.isInterruption then [] else [.failure f]

/-- What a reader meets in a source before the end that lasts for ever. -/
def Source.stream (src : Source) : List Signal :=
  src.piece.map .byte ++ src.events.flatMap Event.signals

end ProgramHost
