/-
  ProgramHost.LittleEndian

  Naturals as a fixed number of bytes, least significant first, and back. The
  eight-byte words at the start of strings and arrays are written this way.

  `decode_encode` says that nothing is lost but the bits above the width.
-/

import ProgramHost.Bytes

namespace ProgramHost
namespace LittleEndian

/-- The `width` lowest bytes of `n`, least significant first. -/
def encode : Nat → Nat → Bytes
  | 0, _ => []
  | width + 1, n => UInt8.ofNat n :: encode width (n / 256)

/-- The natural that a byte string spells, first byte least significant. -/
def decode : Bytes → Nat
  | [] => 0
  | b :: rest => b.toNat + 256 * decode rest

@[simp] theorem length_encode (width n : Nat) : (encode width n).length = width := by
  induction width generalizing n with
  | zero => rfl
  | succ width ih => simp [encode, ih]

theorem decode_encode (width n : Nat) : decode (encode width n) = n % Nat.pow 256 width := by
  induction width generalizing n with
  | zero => simp [encode, decode, Nat.mod_one]
  | succ width ih =>
    have hpow : Nat.pow 256 (width + 1) = 256 * Nat.pow 256 width := Nat.pow_succ'
    rw [encode, decode, ih, UInt8.toNat_ofNat', show 2 ^ 8 = 256 from rfl, hpow, Nat.mod_mul]

/-- A machine word as eight bytes. -/
def ofWord (word : Int64) : Bytes := encode 8 word.toUInt64.toNat

/-- The machine word at the start of a byte string; missing bytes count as
    zero. -/
def toWord (bs : Bytes) : Int64 := (UInt64.ofNat (decode (bs.take 8))).toInt64

@[simp] theorem length_ofWord (word : Int64) : (ofWord word).length = 8 :=
  length_encode 8 _

/-- A word written at the start of a byte string reads back, whatever
    follows. -/
@[simp] theorem toWord_ofWord_append (word : Int64) (rest : Bytes) :
    toWord (ofWord word ++ rest) = word := by
  have htake : (ofWord word ++ rest).take 8 = ofWord word := by
    rw [List.take_append_of_le_length (by simp)]
    exact List.take_of_length_le (by simp)
  have hlt : word.toUInt64.toNat < Nat.pow 256 8 := word.toUInt64.toNat_lt
  rw [toWord, htake, ofWord, decode_encode, Nat.mod_eq_of_lt hlt, UInt64.ofNat_toNat,
    Int64.toInt64_toUInt64]

end LittleEndian
end ProgramHost
