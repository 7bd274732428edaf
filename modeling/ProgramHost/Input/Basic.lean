/-
  ProgramHost.Input.Basic

  The input of a host: a source, and the buffer in which tokens are staged.

  `token` and `integer` report every refusal. Programs are given the empty content
  at the end of input (`tokenOrEmpty`), and zero there and where no integer stands
  (`orZero`). All requests leave the byte that ends an item unread.
-/

import ProgramHost.Input.Integer
import ProgramHost.Input.Token

namespace ProgramHost

/-- A source with the buffer in which tokens are staged. -/
structure Input where
  source : Source := {}
  /-- The bytes that the last token request staged. -/
  staging : Bytes := []
  deriving DecidableEq, Repr

namespace Input

/-- Reads one token of at most `limit` bytes into the staging buffer. What the
    buffer held before is dropped, also when the request is refused. -/
def token (input : Input) (limit : Nat) : Except Refusal Unit × Input :=
  let ((outcome, staging), source) := (tokenReader limit).run .blank input.source
  (outcome, { source, staging })

/-- Reads one signed decimal integer; the staging buffer plays no part. -/
def integer (input : Input) : Except Refusal Int64 × Input :=
  let (outcome, source) := integerReader.run .blank input.source
  (outcome, { input with source })

/-- Reads everything up to the next end of input. -/
def drain (input : Input) : (Except Failure Unit × Bytes) × Input :=
  let (result, source) := collector.run [] input.source
  (result, { input with source })

/-! ## Requests with fallbacks -/

/-- Reads the content of the next token; at the end of input the empty content
    stands for it. -/
def tokenOrEmpty (input : Input) (limit : Nat) : Except Refusal Bytes × Input :=
  match input.token limit with
  | (.ok (), after) => (.ok after.staging, after)
  | (.error .unexpectedEnd, after) => (.ok [], after)
  | (.error e, after) => (.error e, after)

/-- At the end of input and where no integer stands, zero stands for it. -/
def orZero : Except Refusal Int64 → Except Refusal Int64
  | .error .unexpectedEnd => .ok 0
  | .error .expectedInteger => .ok 0
  | outcome => outcome

end Input

end ProgramHost
