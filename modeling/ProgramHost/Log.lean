/-
  ProgramHost.Log

  What a host tells about its own work.

  A host tells of events as it goes: strings that it made, input that was missing,
  output that was lost. A log is started at most once. One that was started with a
  filter keeps the events that the filter lets through; every other log keeps
  nothing. How a filter is worded, and how its wording is read, is the business of
  the logger and not of the host.

  Two things are not among the events, since both are up to the memory allocator:
  the growth of the buffer for tokens, and an allocation that fails, which ends the
  process at once.
-/

import ProgramHost.Refusal

namespace ProgramHost

namespace Log

/-- How much an event matters, from failures down to single steps. -/
inductive Severity where
  | error
  | warning
  | debug
  | trace
  deriving DecidableEq, Repr

/-- The place of a severity, counted from the greatest. -/
def Severity.rank : Severity → Nat
  | .error => 0
  | .warning => 1
  | .debug => 2
  | .trace => 3

/-- What an event is about. -/
inductive Topic where
  | stringMade
  | bytesCopied
  | inputEnded
  | zeroGiven
  | writeFailed
  | flushFailed
  | boundsFixed
  | programEntered
  | programReturned
  | fatalRefusal
  deriving DecidableEq, Repr

namespace Topic

def all : List Topic :=
  [.stringMade, .bytesCopied, .inputEnded, .zeroGiven, .writeFailed, .flushFailed, .boundsFixed,
    .programEntered, .programReturned, .fatalRefusal]

def severity : Topic → Severity
  | .fatalRefusal => .error
  | .writeFailed | .flushFailed => .warning
  | .inputEnded | .zeroGiven | .boundsFixed | .programEntered | .programReturned => .debug
  | .stringMade | .bytesCopied => .trace

end Topic

/-- An event, with what there is to say about it. -/
inductive Event where
  /-- A block was made for a content of this length. -/
  | stringMade (length size : Nat)
  /-- Bytes were copied into a new string. -/
  | bytesCopied (length : Nat)
  /-- A string was asked for at the end of input. -/
  | inputEnded
  /-- Zero was given in place of an integer. -/
  | zeroGiven (cause : Refusal)
  | writeFailed (f : Failure)
  | flushFailed (f : Failure)
  | boundsFixed (tokenLimit : Nat)
  | programEntered
  | programReturned (status : Int32)
  /-- A request was refused for good. -/
  | fatalRefusal (cause : Refusal)
  deriving DecidableEq, Repr

def Event.topic : Event → Topic
  | .stringMade .. => .stringMade
  | .bytesCopied _ => .bytesCopied
  | .inputEnded => .inputEnded
  | .zeroGiven _ => .zeroGiven
  | .writeFailed _ => .writeFailed
  | .flushFailed _ => .flushFailed
  | .boundsFixed _ => .boundsFixed
  | .programEntered => .programEntered
  | .programReturned _ => .programReturned
  | .fatalRefusal _ => .fatalRefusal

/-- The topics that a logger lets through. -/
structure Filter where
  topics : List Topic
  deriving DecidableEq, Repr

namespace Filter

/-- Lets everything through that matters at least as much as this. -/
def atLeast (s : Severity) : Filter := ⟨Topic.all.filter (·.severity.rank ≤ s.rank)⟩

def passes (filter : Filter) (e : Event) : Bool := filter.topics.contains e.topic

end Filter

end Log

/-- The log of a host. -/
structure Log where
  started : Bool := false
  /-- What is let through, if the log was started with a filter. -/
  filter : Option Log.Filter := none
  /-- The events let through so far. -/
  lines : List Log.Event := []
  deriving DecidableEq, Repr

namespace Log

/-- Starts a log; one that was started before stays as it is. -/
def start (log : Log) (filter : Option Filter) : Log :=
  if log.started then log else { log with started := true, filter }

/-- Keeps those of some events that are let through. -/
def record (log : Log) (events : List Event) : Log :=
  { log with lines := log.lines ++ events.filter fun e => log.filter.any (·.passes e) }

@[simp] theorem record_nil (log : Log) : log.record [] = log := by
  simp [record]

end Log

end ProgramHost
