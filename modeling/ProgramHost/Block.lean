/-
  ProgramHost.Block

  Strings as they lie in memory.

  A block is an eight-byte little-endian length, the content, and a zero byte.
  Compiled programs read the length and the content at these fixed places, so a
  block is kept as its raw bytes and every accessor reads them. Lengths and
  indices are machine words; `size` is the length as an unsigned word, and the
  sums that the accessors form are sums of words.

  A checked accessor (`byteAt`, `checkRange`) refuses exactly what breaks the
  contract of the unchecked one (`HasIndex`, `HasRange`).
-/

import ProgramHost.Decimal
import ProgramHost.LittleEndian
import ProgramHost.Refusal

namespace ProgramHost

/-- The raw bytes of a string in memory. -/
structure Block where
  memory : Bytes
  deriving DecidableEq, Repr

namespace Block

/-- The bytes before the content hold the length. -/
def headerSize : Nat := 8

/-- One zero byte stands after the content. -/
def terminatorSize : Nat := 1

/-- The block that spells a content: its length, its bytes, a zero byte. -/
def ofContent (content : Bytes) : Block :=
  ⟨LittleEndian.ofWord (Int64.ofNat content.length) ++ content ++ [0]⟩

/-! ## The parts of a block -/

/-- The stored length. -/
def length (s : Block) : Int64 := LittleEndian.toWord s.memory

/-- The stored length as an unsigned word, as sizes of memory are counted. -/
def size (s : Block) : UInt64 := s.length.toUInt64

/-- A string of length zero. -/
def isEmpty (s : Block) : Bool := s.length == 0

/-- The memory after the length. -/
def body (s : Block) : Bytes := s.memory.drop headerSize

/-- The content, without the terminator. -/
def content (s : Block) : Bytes := s.body.take s.size.toNat

/-- The content and the terminator. -/
def terminated (s : Block) : Bytes := s.body.take (s.size + 1).toNat

/-- The content up to its first zero byte, which is all that output and
    comparison see of a string. -/
def visible (s : Block) : Bytes := beforeZero s.content

/-! ## The block of a content

  Below `2 ^ 63` bytes the parts of a block give back the content that it was
  made from. -/

theorem length_ofContent (content : Bytes) :
    (ofContent content).length = Int64.ofNat content.length := by
  simp only [length, ofContent, List.append_assoc, LittleEndian.toWord_ofWord_append]

theorem body_ofContent (content : Bytes) : (ofContent content).body = content ++ [0] := by
  simp only [body, ofContent, headerSize, List.append_assoc]
  exact List.drop_left' (LittleEndian.length_ofWord _)

theorem size_ofContent {content : Bytes} (h : content.length < 0x8000000000000000) :
    (ofContent content).size.toNat = content.length := by
  rw [size, length_ofContent, Int64.toUInt64_ofNat', UInt64.toNat_ofNat']
  exact Nat.mod_eq_of_lt (by omega)

theorem content_ofContent {content : Bytes} (h : content.length < 0x8000000000000000) :
    (ofContent content).content = content := by
  rw [Block.content, size_ofContent h, body_ofContent]
  exact List.take_left

theorem terminated_ofContent {content : Bytes} (h : content.length < 0x8000000000000000) :
    (ofContent content).terminated = content ++ [0] := by
  -- The sum of words does not wrap around.
  have hsize : ((ofContent content).size + 1).toNat = content.length + 1 := by
    rw [UInt64.toNat_add, size_ofContent h, UInt64.toNat_one]
    exact Nat.mod_eq_of_lt (by omega)
  rw [terminated, hsize, body_ofContent]
  exact List.take_of_length_le (by simp)

/-! ## Access by index -/

/-- The contract of byte access: the index lies in the content. -/
def HasIndex (s : Block) (index : Int64) : Prop := 0 ≤ index ∧ index < s.length

instance (s : Block) (index : Int64) : Decidable (s.HasIndex index) :=
  inferInstanceAs (Decidable (_ ∧ _))

/-- The byte at an index, as a signed byte widened to a word. -/
def byteAtUnchecked (s : Block) (index : Int64) : Int64 :=
  (s.body.getD index.toUInt64.toNat 0).toInt8.toInt64

/-- The byte at an index of the content, and a refusal for every other index. -/
def byteAt (s : Block) (index : Int64) : Except Refusal Int64 :=
  if s.HasIndex index then .ok (s.byteAtUnchecked index)
  else .error (.indexOutOfRange index s.length)

/-- The contract of a range, both ends included: it is not empty and lies in the
    content. -/
def HasRange (s : Block) (left right : Int64) : Prop :=
  0 ≤ left ∧ left ≤ right ∧ right < s.length

instance (s : Block) (left right : Int64) : Decidable (s.HasRange left right) :=
  inferInstanceAs (Decidable (_ ∧ _ ∧ _))

/-- Refuses a range outside the contract. -/
def checkRange (s : Block) (left right : Int64) : Except Refusal Unit :=
  if s.HasRange left right then .ok () else .error (.invalidRange left right s.length)

/-- The number of bytes in a range, both ends included. -/
def rangeSize (left right : Int64) : UInt64 := (right - left + 1).toUInt64

/-- The bytes of a range, both ends included. -/
def range (s : Block) (left right : Int64) : Bytes :=
  (s.body.drop left.toUInt64.toNat).take (rangeSize left right).toNat

/-! ## Comparison and conversion -/

/-- The difference of the first two bytes that differ, as unsigned bytes, and
    zero when a shared zero byte comes first. -/
def compareBytes : Bytes → Bytes → Int64
  | a :: as, b :: bs =>
    if a ≠ b then Int64.ofNat a.toNat - Int64.ofNat b.toNat
    else if a = 0 then 0
    else compareBytes as bs
  | _, _ => 0

/-- The comparison of two strings up to their first zero bytes. -/
def compare (s t : Block) : Int64 := compareBytes s.terminated t.terminated

/-- The integer that the content starts with. -/
def toInt (s : Block) : Int64 := Decimal.ofText s.content

end Block

/-- The length that an array of words in memory stores: its first word. -/
def arrayLength (words : List Int64) : Int64 :=
  LittleEndian.toWord (words.flatMap LittleEndian.ofWord)

end ProgramHost
