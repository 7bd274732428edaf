/-
  ProgramHost.Text.Utf8

  Byte strings as text.

  Any byte string can be shown as text: it is cut into segments, each either one
  well-formed UTF-8 sequence or one ill-formed stretch, and every ill-formed
  stretch is shown as the replacement character U+FFFD. An ill-formed stretch is
  as long as it could still have become a well-formed sequence (a maximal
  subpart), and a single byte where nothing could start.

  The first continuation byte is held to the range that its leading byte allows,
  so overlong forms, surrogates and values above U+10FFFF are ill-formed from
  their second byte on.
-/

import ProgramHost.Bytes

namespace ProgramHost
namespace Utf8

/-- A stretch of a byte string. -/
inductive Segment where
  /-- The bytes of one well-formed sequence. -/
  | sequence (bytes : Bytes)
  /-- A stretch that is no sequence. -/
  | illFormed
  deriving DecidableEq, Repr

/-- A sequence that has started and is not complete. -/
structure Opening where
  /-- Its bytes so far, in order. -/
  seen : Bytes
  /-- How many bytes must still come after the next one. -/
  after : Nat
  /-- The least next byte. -/
  low : UInt8
  /-- The greatest next byte. -/
  high : UInt8
  deriving DecidableEq, Repr

/-- What a byte begins when no sequence is open. -/
inductive Lead where
  /-- It is a sequence by itself. -/
  | single
  /-- It opens a longer sequence. -/
  | opens (opening : Opening)
  /-- It cannot start a sequence. -/
  | stray
  deriving DecidableEq, Repr

/-- The role of a byte at the start of a sequence. -/
def lead (b : UInt8) : Lead :=
  if b ≤ 0x7f then .single
  else if b < 0xc2 then .stray
  else if b ≤ 0xdf then .opens ⟨[b], 0, 0x80, 0xbf⟩
  else if b = 0xe0 then .opens ⟨[b], 1, 0xa0, 0xbf⟩
  else if b = 0xed then .opens ⟨[b], 1, 0x80, 0x9f⟩
  else if b ≤ 0xef then .opens ⟨[b], 1, 0x80, 0xbf⟩
  else if b = 0xf0 then .opens ⟨[b], 2, 0x90, 0xbf⟩
  else if b ≤ 0xf3 then .opens ⟨[b], 2, 0x80, 0xbf⟩
  else if b = 0xf4 then .opens ⟨[b], 2, 0x80, 0x8f⟩
  else .stray

/-- A byte string read so far: its segments, last first, and the sequence that is
    open behind them. -/
structure Reading where
  segments : List Segment := []
  opening : Option Opening := none
  deriving DecidableEq, Repr

namespace Reading

/-- Takes a byte that starts a new sequence. -/
def start (segments : List Segment) (b : UInt8) : Reading :=
  match lead b with
  | .single => { segments := .sequence [b] :: segments }
  | .opens opening => { segments, opening := some opening }
  | .stray => { segments := .illFormed :: segments }

/-- Takes the next byte. A byte that does not continue the open sequence ends it
    as ill-formed and starts anew. -/
def push (r : Reading) (b : UInt8) : Reading :=
  match r.opening with
  | none => start r.segments b
  | some o =>
    if o.low ≤ b ∧ b ≤ o.high then
      match o.after with
      | 0 => { segments := .sequence (o.seen ++ [b]) :: r.segments }
      | n + 1 => { r with opening := some ⟨o.seen ++ [b], n, 0x80, 0xbf⟩ }
    else start (.illFormed :: r.segments) b

/-- The segments in order; a sequence still open is ill-formed. -/
def finish (r : Reading) : List Segment :=
  match r.opening with
  | none => r.segments.reverse
  | some _ => (.illFormed :: r.segments).reverse

end Reading

/-- The segments of a byte string. -/
def segments (bs : Bytes) : List Segment := (bs.foldl Reading.push {}).finish

/-! ## Text -/

/-- The replacement character U+FFFD in UTF-8. -/
def replacement : Bytes := [0xef, 0xbf, 0xbd]

/-- The bytes that show a segment. -/
def Segment.shown : Segment → Bytes
  | .sequence bytes => bytes
  | .illFormed => replacement

/-- A byte string with every ill-formed stretch replaced. -/
def repair (bs : Bytes) : Bytes := (segments bs).flatMap Segment.shown

/-- The scalar value of a well-formed sequence. -/
def scalarValue : Bytes → Nat
  | [a] => a.toNat
  | [a, b] => a.toNat % 32 * 64 + b.toNat % 64
  | [a, b, c] => (a.toNat % 16 * 64 + b.toNat % 64) * 64 + c.toNat % 64
  | [a, b, c, d] =>
    ((a.toNat % 8 * 64 + b.toNat % 64) * 64 + c.toNat % 64) * 64 + d.toNat % 64
  | _ => 0

/-- The character that shows a segment. -/
def Segment.char : Segment → Char
  | .sequence bytes => Char.ofNat (scalarValue bytes)
  | .illFormed => Char.ofNat 0xfffd

/-- The characters of a byte string, one for each segment. -/
def decode (bs : Bytes) : List Char := (segments bs).map Segment.char

/-- The UTF-8 bytes of characters. -/
def encode (cs : List Char) : Bytes := cs.flatMap String.utf8EncodeChar

end Utf8
end ProgramHost
