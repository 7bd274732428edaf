/-
  ProgramHost.Input.Consumer

  How a reader draws on a source.

  A consumer is fed one piece at a time. It settles inside a piece and leaves the
  rest unread, or uses the whole piece up and asks for more. `Consumer.run`
  drives it: an event is taken only when the piece at hand is used up, and an
  interrupted transfer is simply tried again.
-/

import ProgramHost.Input.Source

namespace ProgramHost

/-- How a consumer leaves a piece. -/
inductive Progress (σ α : Type) where
  /-- The result is settled and this part of the piece stays unread. -/
  | settled (result : α) (unread : Bytes)
  /-- The piece is used up and the result is still open. -/
  | hungry (state : σ)
  deriving DecidableEq, Repr

/-- A reader of pieces with state `σ` and result `α`. -/
structure Consumer (σ α : Type) where
  /-- Takes a piece that is not empty. -/
  feed : σ → Bytes → Progress σ α
  /-- The result when input ends. -/
  atEnd : σ → α
  /-- The result when input fails for good. -/
  atFailure : σ → Failure → α

namespace Consumer

variable {σ α : Type}

/-- Runs a consumer on events, the piece before them being used up. -/
def runEvents (c : Consumer σ α) : σ → List Event → α × Source
  | s, [] => (c.atEnd s, {})
  | s, .endOfInput :: events => (c.atEnd s, { events })
  | s, .data [] :: events => (c.atEnd s, { events })
  | s, .data (b :: bs) :: events =>
    match c.feed s (b :: bs) with
    | .settled result unread => (result, { piece := unread, events })
    | .hungry s' => c.runEvents s' events
  | s, .failure f :: events =>
    if f.isInterruption then c.runEvents s events else (c.atFailure s f, { events })

/-- Events are taken from the front and in order: those left are a suffix. -/
theorem runEvents_events_suffix (c : Consumer σ α) (s : σ) (events : List Event) :
    (c.runEvents s events).2.events <:+ events := by
  fun_induction c.runEvents s events with
  | case1 => exact List.suffix_rfl
  | case2 | case3 => exact List.suffix_cons _ _
  | case4 s b bs events result unread h => exact List.suffix_cons _ _
  | case5 s b bs events s' h ih => exact ih.trans (List.suffix_cons _ _)
  | case6 s f events h ih => exact ih.trans (List.suffix_cons _ _)
  | case7 => exact List.suffix_cons _ _

/-- Runs a consumer on a source: first on the unread part of the current piece,
    then, while the result is open, on the events. -/
def run (c : Consumer σ α) (s : σ) (src : Source) : α × Source :=
  match src.piece with
  | [] => c.runEvents s src.events
  | b :: bs =>
    match c.feed s (b :: bs) with
    | .settled result unread => (result, { src with piece := unread })
    | .hungry s' => c.runEvents s' src.events

end Consumer

/-- Collects everything up to the next end of input; with a failure, what came
    before it. -/
def collector : Consumer Bytes (Except Failure Unit × Bytes) where
  feed collected piece := .hungry (collected ++ piece)
  atEnd collected := (.ok (), collected)
  atFailure collected f := (.error f, collected)

end ProgramHost
