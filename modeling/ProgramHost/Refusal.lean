/-
  ProgramHost.Refusal

  The causes for which the host refuses a request, and how each is worded.
-/

import ProgramHost.Failure

namespace ProgramHost

/-- Why a request is refused. -/
inductive Refusal where
  /-- A byte was asked for outside a string. -/
  | indexOutOfRange (index length : Int64)
  /-- A range was asked for that is empty, reversed or outside a string. -/
  | invalidRange (left right length : Int64)
  /-- An input token does not fit the limit. -/
  | tokenTooLong (limit : Nat)
  /-- Input ended before a token or an integer started. -/
  | unexpectedEnd
  /-- What stands next in the input is no decimal integer. -/
  | expectedInteger
  /-- The bounds of the host had been fixed before. -/
  | alreadyConfigured
  /-- A device failed. -/
  | device (failure : Failure)
  deriving DecidableEq, Repr

/-- The wording of a refusal. -/
def Refusal.message : Refusal → String
  | .indexOutOfRange index length =>
    s!"index {index} out of range for string of length {length}"
  | .invalidRange left right length =>
    s!"substring range [{left}, {right}] out of bounds for string of length {length}"
  | .tokenTooLong limit => s!"input token exceeds the {limit}-byte limit"
  | .unexpectedEnd => "unexpected end of input"
  | .expectedInteger => "expected a decimal integer"
  | .alreadyConfigured => "runtime configuration is already set"
  | .device failure => "I/O error: " ++ failure.text

end ProgramHost
