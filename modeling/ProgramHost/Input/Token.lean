/-
  ProgramHost.Input.Token

  Reading a token: leading whitespace is skipped, and the bytes up to the next
  whitespace or end of input are staged.

  A piece that would carry the token over its limit is refused as a whole: it is
  neither staged nor taken from the source, so that nothing is lost.
-/

import ProgramHost.Input.Consumer
import ProgramHost.Refusal

namespace ProgramHost

/-- How far the reading of a token has come. -/
inductive TokenState where
  /-- Only whitespace so far. -/
  | blank
  /-- The token has started; these bytes of it are staged. -/
  | inside (staged : Bytes)
  deriving DecidableEq, Repr

/-- The outcome of reading a token, and the staged bytes. -/
abbrev TokenResult := Except Refusal Unit × Bytes

namespace TokenState

/-- The bytes staged so far. -/
def staged : TokenState → Bytes
  | .blank => []
  | .inside staged => staged

/-- Takes a piece that starts inside the token. -/
def extend (limit : Nat) (staged piece : Bytes) : Progress TokenState TokenResult :=
  let word := piece.takeWhile (!isWhitespace ·)
  if limit < staged.length + word.length then
    .settled (.error (.tokenTooLong limit), staged) piece
  else
    match piece.dropWhile (!isWhitespace ·) with
    | [] => .hungry (.inside (staged ++ word))
    | b :: rest => .settled (.ok (), staged ++ word) (b :: rest)

/-- Takes a piece: skips whitespace as long as the token has not started. -/
def feed (limit : Nat) : TokenState → Bytes → Progress TokenState TokenResult
  | .inside staged, piece => extend limit staged piece
  | .blank, piece =>
    match piece.dropWhile isWhitespace with
    | [] => .hungry .blank
    | b :: rest => extend limit [] (b :: rest)

/-- At the end of input a token that has started is complete. -/
def atEnd : TokenState → TokenResult
  | .blank => (.error .unexpectedEnd, [])
  | .inside staged => (.ok (), staged)

/-- A failure ends the request; what was staged stays staged. -/
def atFailure (state : TokenState) (f : Failure) : TokenResult :=
  (.error (.device f), state.staged)

end TokenState

/-- Reads one token of at most `limit` bytes. -/
def tokenReader (limit : Nat) : Consumer TokenState TokenResult where
  feed := TokenState.feed limit
  atEnd := TokenState.atEnd
  atFailure := TokenState.atFailure

end ProgramHost
