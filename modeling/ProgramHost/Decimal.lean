/-
  ProgramHost.Decimal

  Decimal text of integers, and the integers that decimal text denotes.

  Writing gives the canonical form: no leading zero, `0` for zero, a minus sign
  for negatives. Reading comes in two machine arithmetics. A string already in
  memory is read with wrap-around (`ofText`), so that the text of every word
  reads back as that word. Console input is read digit by digit with saturation
  (`pushDigit`), toward the sign, so that both ends of the range are reachable.
-/

import ProgramHost.Bytes

namespace ProgramHost
namespace Decimal

/-! ## Writing -/

/-- The digit byte of a number below ten. -/
def digit (d : Nat) : UInt8 := UInt8.ofNat (0x30 + d)

/-- Writes the digits of `n` in front of `tail`, at most `places` of them. -/
def digitsBefore : Nat → Nat → Bytes → Bytes
  | 0, _, tail => tail
  | places + 1, n, tail =>
    if n < 10 then digit n :: tail else digitsBefore places (n / 10) (digit (n % 10) :: tail)

/-- The canonical decimal text of a natural. A number below `2 ^ k` has at most
    `k + 1` digits, so `log2` bounds the places. -/
def ofNat (n : Nat) : Bytes := digitsBefore (n.log2 + 1) n []

/-- The canonical decimal text of an integer. -/
def ofInt (n : Int) : Bytes := if n < 0 then minus :: ofNat n.natAbs else ofNat n.natAbs

theorem digitsBefore_append (places n : Nat) (tail : Bytes) :
    digitsBefore places n tail = digitsBefore places n [] ++ tail := by
  induction places generalizing n tail with
  | zero => rfl
  | succ places ih =>
    simp only [digitsBefore]
    split
    · rfl
    · rw [ih, ih (n / 10) [_], List.append_assoc, List.singleton_append]

/-- Without its last digit a number has fewer bits. -/
theorem log2_div_ten_lt {n : Nat} (h : 10 ≤ n) : (n / 10).log2 < n.log2 := by
  have hn := Nat.lt_log2_self (n := n)
  rw [Nat.log2_lt (by omega)]
  rw [Nat.pow_succ] at hn
  omega

/-- Places beyond those that a number needs change nothing. -/
theorem digitsBefore_of_le {places more n : Nat} (h : n.log2 < places) (hle : places ≤ more)
    (tail : Bytes) : digitsBefore more n tail = digitsBefore places n tail := by
  induction places generalizing more n tail with
  | zero => omega
  | succ places ih =>
    obtain ⟨more, rfl⟩ : ∃ k, more = k + 1 := ⟨more - 1, by omega⟩
    simp only [digitsBefore]
    split
    · rfl
    · next hn =>
      have hlog := log2_div_ten_lt (Nat.le_of_not_lt hn)
      exact ih (by omega) (by omega) _

theorem ofNat_of_lt {n : Nat} (h : n < 10) : ofNat n = [digit n] := by
  simp [ofNat, digitsBefore, h]

/-- The text of a number is the text of its tenth and one more digit. -/
theorem ofNat_of_ge {n : Nat} (h : 10 ≤ n) : ofNat n = ofNat (n / 10) ++ [digit (n % 10)] := by
  rw [ofNat, digitsBefore, if_neg (by omega), digitsBefore_append, ofNat,
    digitsBefore_of_le (Nat.lt_succ_self (n / 10).log2) (log2_div_ten_lt h)]

/-! ## Reading -/

/-- The number that a digit byte stands for. -/
def digitValue (b : UInt8) : Nat := b.toNat - 0x30

/-- The exact value of a run of digits. -/
def value (ds : Bytes) : Nat := ds.foldl (fun acc d => acc * 10 + digitValue d) 0

/-- The value of a run of digits in wrap-around word arithmetic. -/
def wrappedValue (ds : Bytes) : Int64 :=
  ds.foldl (fun acc d => acc * 10 + Int64.ofNat (digitValue d)) 0

/-- The word that a text starts with: one optional minus sign and the digits
    after it, zero when there are none, with wrap-around. -/
def ofText (bs : Bytes) : Int64 :=
  match bs with
  | [] => 0
  | b :: rest =>
    if b = minus then -wrappedValue (rest.takeWhile isDigit)
    else wrappedValue (bs.takeWhile isDigit)

/-- Takes one more digit into a word, with saturation at both ends of the range:
    ten times the word first, then the digit added or subtracted. -/
def pushDigit (negative : Bool) (word : Int64) (d : UInt8) : Int64 :=
  let shifted := Int64.ofIntClamp (word.toInt * 10)
  if negative then Int64.ofIntClamp (shifted.toInt - digitValue d)
  else Int64.ofIntClamp (shifted.toInt + digitValue d)

end Decimal
end ProgramHost
