/-
  ProgramHost.Output

  Where output goes.

  A string is written as its visible part, then, if asked for, the byte that
  ends a line: two transfers, the second only after the first succeeded
  (`emit`). There are two kinds of outlet. A `Sink` follows a script that
  says, call by call, how much it accepts or how it fails. An `Output` is the
  standard output of a process: it holds back what does not complete a line, as
  much as it has room for, and hands the rest to its device, in order. What the
  device does not take is reported; bytes that were held back stay, and those
  that could not be added to them are lost.
-/

import ProgramHost.Block

namespace ProgramHost

/-- Writes a string through a transfer that takes all of a byte string or
    fails. -/
def emit {σ : Type} (transfer : Bytes → σ → Except Failure Unit × σ)
    (s : Block) (endLine : Bool) (out : σ) : Except Failure Unit × σ :=
  match transfer s.visible out with
  | (.ok (), out) => if endLine then transfer [newline] out else (.ok (), out)
  | (.error e, out) => (.error e, out)

/-! ## Scripted sinks -/

/-- How a sink answers one call. -/
inductive Quota where
  /-- It accepts at most this many bytes. -/
  | atMost (n : Nat)
  /-- It fails. -/
  | failure (f : Failure)
  deriving DecidableEq, Repr

/-- A sink that answers by a script, and accepts everything once the script has
    ended. -/
structure Sink where
  script : List Quota := []
  accepted : Bytes := []
  deriving DecidableEq, Repr

namespace Sink

/-- Transfers bytes until all are accepted: no call is made when none are left,
    the remainder of a partly accepted call is offered again, an interrupted
    call is made again, and a sink that accepts none of the bytes has stalled. -/
def transfer : List Quota → Bytes → Bytes → Except Failure Unit × Sink
  | script, accepted, [] => (.ok (), { script, accepted })
  | [], accepted, b :: bs => (.ok (), { accepted := accepted ++ b :: bs })
  | .atMost 0 :: script, accepted, _ :: _ => (.error .stalled, { script, accepted })
  | .atMost (n + 1) :: script, accepted, b :: bs =>
    transfer script (accepted ++ b :: bs.take n) (bs.drop n)
  | .failure f :: script, accepted, b :: bs =>
    if f.isInterruption then transfer script accepted (b :: bs)
    else (.error f, { script, accepted })

/-- Transfers all of a byte string to a sink, or fails. -/
def writeAll (bs : Bytes) (sink : Sink) : Except Failure Unit × Sink :=
  transfer sink.script sink.accepted bs

/-- A sink whose script has ended accepts everything. -/
theorem writeAll_unscripted (accepted bs : Bytes) :
    writeAll bs { accepted } = (.ok (), { accepted := accepted ++ bs }) := by
  cases bs with
  | nil => simp [writeAll, transfer]
  | cons b bs => rfl

end Sink

/-! ## Standard output -/

/-- What stands behind a standard output. -/
inductive Device where
  /-- It takes everything. -/
  | accepting
  /-- It has no room: every transfer to it fails. -/
  | full
  deriving DecidableEq, Repr

/-- A standard output that holds bytes back. -/
structure Output where
  device : Device := .accepting
  /-- What has reached the device. -/
  delivered : Bytes := []
  /-- What is held back. -/
  pending : Bytes := []
  deriving DecidableEq, Repr

namespace Output

/-- The number of bytes that an output has room for. -/
def capacity : Nat := 1024

/-- Goes on behind a transfer that succeeded. -/
def andThen (first next : Output → Except Failure Unit × Output) (out : Output) :
    Except Failure Unit × Output :=
  match first out with
  | (.ok (), after) => next after
  | (.error f, after) => (.error f, after)

/-- Hands bytes to the device. A device without room is not asked to take none. -/
def deliver (bs : Bytes) (out : Output) : Except Failure Unit × Output :=
  match out.device with
  | .accepting => (.ok (), { out with delivered := out.delivered ++ bs })
  | .full => (if bs = [] then .ok () else .error .noRoom, out)

/-- Hands the bytes held back to the device; those that it does not take stay. -/
def flush (out : Output) : Except Failure Unit × Output :=
  andThen (deliver out.pending) (fun after => (.ok (), { after with pending := [] })) out

/-- Flushes an output that has no room for this many bytes more. -/
def makeRoom (count : Nat) (out : Output) : Except Failure Unit × Output :=
  if out.pending.length + count ≤ capacity then (.ok (), out) else out.flush

/-- Adds bytes to those held back. What would fill an output alone goes to the device
    at once. -/
def add (bs : Bytes) (out : Output) : Except Failure Unit × Output :=
  if capacity ≤ bs.length then deliver bs out
  else (.ok (), { out with pending := out.pending ++ bs })

/-- Holds bytes back behind the others. -/
def hold (bs : Bytes) : Output → Except Failure Unit × Output :=
  andThen (makeRoom bs.length) (add bs)

/-- Hands complete lines to the device, behind what is held back. -/
def putLines (lines : Bytes) (out : Output) : Except Failure Unit × Output :=
  if out.pending = [] then deliver lines out else andThen (hold lines) flush out

/-- Flushes a line that was completed before. -/
def flushLine (out : Output) : Except Failure Unit × Output :=
  if out.pending.getLast? = some newline then out.flush else (.ok (), out)

/-- The bytes behind the last end of a line. -/
def openLine (bs : Bytes) : Bytes := (bs.reverse.takeWhile (· ≠ newline)).reverse

/-- The bytes up to the last end of a line. -/
def completeLines (bs : Bytes) : Bytes := (bs.reverse.dropWhile (· ≠ newline)).reverse

/-- Puts bytes into an output: complete lines go to the device, and the rest is held
    back. -/
def put (bs : Bytes) (out : Output) : Except Failure Unit × Output :=
  if newline ∈ bs then andThen (putLines (completeLines bs)) (hold (openLine bs)) out
  else andThen flushLine (hold bs) out

/-- Writes a string to an output, or fails. -/
def print (s : Block) (endLine : Bool) (out : Output) : Except Failure Unit × Output :=
  emit put s endLine out

end Output

end ProgramHost
