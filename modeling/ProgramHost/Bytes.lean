/-
  ProgramHost.Bytes

  Byte strings and the two classes of bytes that the host tells apart.

  A byte string is a plain list, so that ranges are `take` and `drop`, runs are
  `takeWhile` and `dropWhile`, and every law of lists is a law of byte strings.
-/

namespace ProgramHost

/-- A byte string, first byte first. -/
abbrev Bytes := List UInt8

/-- Whitespace: the blank and the five controls from tab to carriage return
    (tab, line feed, vertical tab, form feed, carriage return). -/
def isWhitespace (b : UInt8) : Bool := b == 0x20 || (0x09 ≤ b && b ≤ 0x0d)

/-- The decimal digits `0` to `9`. -/
def isDigit (b : UInt8) : Bool := 0x30 ≤ b && b ≤ 0x39

/-- The byte that ends a line of output. -/
def newline : UInt8 := 0x0a

/-- The byte `+`. -/
def plus : UInt8 := 0x2b

/-- The byte `-`. -/
def minus : UInt8 := 0x2d

/-- The part of a byte string before its first zero byte, and all of it when it
    has none. -/
def beforeZero (bs : Bytes) : Bytes := bs.takeWhile (· ≠ 0)

/-- A digit is never whitespace. -/
theorem isWhitespace_of_isDigit {b : UInt8} (h : isDigit b = true) : isWhitespace b = false := by
  simp only [isDigit, Bool.and_eq_true, decide_eq_true_eq, UInt8.le_iff_toNat_le] at h
  have h30 : (0x30 : UInt8).toNat = 48 := rfl
  simp only [isWhitespace, Bool.or_eq_false_iff, beq_eq_false_iff_ne, Bool.and_eq_false_iff,
    decide_eq_false_iff_not, UInt8.le_iff_toNat_le, ne_eq, ← UInt8.toNat_inj]
  have h20 : (0x20 : UInt8).toNat = 32 := rfl
  have h09 : (0x09 : UInt8).toNat = 9 := rfl
  have h0d : (0x0d : UInt8).toNat = 13 := rfl
  omega

/-- A byte string without zero bytes is all before the first one. -/
theorem beforeZero_eq_self {bs : Bytes} (h : 0 ∉ bs) : beforeZero bs = bs := by
  have hall : ∀ b ∈ bs, decide (b ≠ 0) = true := fun b hb => by
    simpa using fun h0 : b = 0 => h (h0 ▸ hb)
  rw [beforeZero, ← List.append_nil bs, List.takeWhile_append_of_pos hall, List.takeWhile_nil]

end ProgramHost
