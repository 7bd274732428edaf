/-
  ProgramHost.Input.Integer

  Reading a signed decimal integer: leading whitespace is skipped, one sign may
  come, then the digits up to the first byte that is none. The value saturates
  at the ends of the word range. The sign is taken from the source even when no
  digit follows it.
-/

import ProgramHost.Decimal
import ProgramHost.Input.Consumer
import ProgramHost.Refusal

namespace ProgramHost

/-- How far the reading of an integer has come. -/
inductive IntegerState where
  /-- Only whitespace so far. -/
  | blank
  /-- Behind the sign: the value of the digits so far, and whether there was
      one. -/
  | inside (negative : Bool) (word : Int64) (started : Bool)
  deriving DecidableEq, Repr

/-- The outcome of reading an integer. -/
abbrev IntegerResult := Except Refusal Int64

namespace IntegerState

/-- The outcome of an integer that nothing can extend. -/
def conclude (word : Int64) (started : Bool) : IntegerResult :=
  if started then .ok word else .error .expectedInteger

/-- Takes a piece that starts behind the sign. -/
def extend (negative : Bool) (word : Int64) (started : Bool) (piece : Bytes) :
    Progress IntegerState IntegerResult :=
  let digits := piece.takeWhile isDigit
  let word := digits.foldl (Decimal.pushDigit negative) word
  let started := started || !digits.isEmpty
  match piece.dropWhile isDigit with
  | [] => .hungry (.inside negative word started)
  | b :: rest => .settled (conclude word started) (b :: rest)

/-- Takes a piece: skips whitespace and takes one sign as long as the integer has
    not started. -/
def feed : IntegerState → Bytes → Progress IntegerState IntegerResult
  | .inside negative word started, piece => extend negative word started piece
  | .blank, piece =>
    match piece.dropWhile isWhitespace with
    | [] => .hungry .blank
    | b :: rest =>
      if b = plus ∨ b = minus then extend (b = minus) 0 false rest
      else extend false 0 false (b :: rest)

/-- At the end of input the digits read so far make the integer. -/
def atEnd : IntegerState → IntegerResult
  | .blank => .error .unexpectedEnd
  | .inside _ word started => conclude word started

end IntegerState

/-- Reads one signed decimal integer. -/
def integerReader : Consumer IntegerState IntegerResult where
  feed := IntegerState.feed
  atEnd := IntegerState.atEnd
  atFailure _ f := .error (.device f)

end ProgramHost
