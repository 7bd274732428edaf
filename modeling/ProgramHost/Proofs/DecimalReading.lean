/-
  ProgramHost.Proofs.DecimalReading

  Reading decimal digits with saturation, and reading back what was written.

  Digits are pushed one by one, each time with saturation toward the sign. The
  partial values move in one direction only, so this is one clamp of the exact
  value at the end (`foldl_pushDigit`), for runs of any length. The text of a
  word is a sign and digits of its exact magnitude, so reading gives the word
  back (`foldl_pushDigit_ofNat`).

  A text already in memory is read with wrap-around instead: that is the exact
  value it starts with, as a word (`ofText_eq`). On values that a word can hold
  the two arithmetics agree (`ofIntClamp_of_inRange`).
-/

import Mathlib.Algebra.Group.Int.Defs
import ProgramHost.Decimal

namespace ProgramHost
namespace Decimal

/-! ## Saturation -/

theorem toInt_ofIntClamp (x : Int) :
    (Int64.ofIntClamp x).toInt = max (-2 ^ 63) (min x (2 ^ 63 - 1)) := by
  have hmin : Int64.minValue.toInt = -2 ^ 63 := by decide
  have hmax : Int64.maxValue.toInt = 2 ^ 63 - 1 := by decide
  by_cases hlow : Int64.minValue.toInt ≤ x
  · by_cases hhigh : x ≤ Int64.maxValue.toInt
    · rw [Int64.toInt_ofIntClamp hlow hhigh]
      omega
    · rw [Int64.ofIntClamp, dif_pos hlow, dif_neg hhigh]
      omega
  · rw [Int64.ofIntClamp, dif_neg hlow]
    omega

/-- A magnitude with its sign. -/
def signed (negative : Bool) (n : Nat) : Int := if negative then -n else n

/-- An integer is its magnitude with its sign. -/
theorem signed_natAbs (n : Int) : signed (n < 0) n.natAbs = n := by
  by_cases hneg : n < 0
  · simp only [signed, hneg, decide_true, if_true]
    omega
  · simp only [signed, hneg, decide_false, Bool.false_eq_true, if_false]
    omega

/-- One more digit, pushed onto a clamped value, clamps the exact next value. -/
theorem pushDigit_ofIntClamp (negative : Bool) (n : Nat) (d : UInt8) :
    pushDigit negative (Int64.ofIntClamp (signed negative n)) d =
      Int64.ofIntClamp (signed negative (n * 10 + digitValue d)) := by
  apply Int64.toInt.inj
  cases negative with
  | false =>
    simp only [pushDigit, signed, toInt_ofIntClamp, Bool.false_eq_true, if_false]
    omega
  | true =>
    simp only [pushDigit, signed, toInt_ofIntClamp, if_true]
    omega

theorem foldl_pushDigit_from (negative : Bool) (ds : Bytes) (n : Nat) :
    ds.foldl (pushDigit negative) (Int64.ofIntClamp (signed negative n)) =
      Int64.ofIntClamp
        (signed negative (ds.foldl (fun acc d => acc * 10 + digitValue d) n)) := by
  induction ds generalizing n with
  | nil => rfl
  | cons d ds ih => rw [List.foldl_cons, List.foldl_cons, pushDigit_ofIntClamp, ih]

/-- Digits read with saturation give the exact value, clamped to the range of
    words. -/
theorem foldl_pushDigit (negative : Bool) (ds : Bytes) :
    ds.foldl (pushDigit negative) 0 = Int64.ofIntClamp (signed negative (value ds)) := by
  have hzero : Int64.ofIntClamp (signed negative 0) = 0 := by cases negative <;> decide
  rw [← hzero, foldl_pushDigit_from, value]

/-! ## Wrap-around -/

/-- A word can hold the value. -/
def InRange (x : Int) : Prop := -2 ^ 63 ≤ x ∧ x < 2 ^ 63

instance : DecidablePred InRange := fun x => inferInstanceAs (Decidable (-2 ^ 63 ≤ x ∧ x < 2 ^ 63))

/-- The exact value of the minus sign and the digits that a text starts with; zero
    without digits. -/
def leadingValue : Bytes → Int
  | [] => 0
  | b :: rest =>
    if b = minus then -(value (rest.takeWhile isDigit) : Int)
    else value ((b :: rest).takeWhile isDigit)

theorem wrappedValue_eq (ds : Bytes) : wrappedValue ds = Int64.ofNat (value ds) := by
  have hfrom (n : Nat) :
      ds.foldl (fun acc d => acc * 10 + Int64.ofNat (digitValue d)) (Int64.ofNat n) =
        Int64.ofNat (ds.foldl (fun acc d => acc * 10 + digitValue d) n) := by
    induction ds generalizing n with
    | nil => rfl
    | cons d ds ih =>
      rw [List.foldl_cons, List.foldl_cons, ← ih, Int64.ofNat_add, Int64.ofNat_mul]
      rfl
  exact hfrom 0

/-- A text is read as the exact value that it starts with, wrapped into a word. -/
theorem ofText_eq (bs : Bytes) : ofText bs = Int64.ofInt (leadingValue bs) := by
  cases bs with
  | nil => rfl
  | cons b rest =>
    by_cases hminus : b = minus
    · simp only [ofText, leadingValue, if_pos hminus, wrappedValue_eq, Int64.ofInt_neg,
        Int64.ofInt_eq_ofNat]
    · simp only [ofText, leadingValue, if_neg hminus, wrappedValue_eq, Int64.ofInt_eq_ofNat]

/-- In range, saturation and wrap-around give the same word. -/
theorem ofIntClamp_of_inRange {x : Int} (h : InRange x) : Int64.ofIntClamp x = Int64.ofInt x := by
  obtain ⟨hlow, hhigh⟩ := h
  apply Int64.toInt.inj
  rw [toInt_ofIntClamp, Int64.toInt_ofInt_of_le hlow hhigh]
  omega

/-! ## The digits of a number -/

theorem digitValue_digit {d : Nat} (h : d < 10) : digitValue (digit d) = d := by
  rw [digitValue, digit, UInt8.toNat_ofNat']
  omega

theorem isDigit_digit {d : Nat} (h : d < 10) : isDigit (digit d) = true := by
  have hd : (digit d).toNat = 48 + d := by
    rw [digit, UInt8.toNat_ofNat']
    omega
  simp only [isDigit, Bool.and_eq_true, decide_eq_true_eq, UInt8.le_iff_toNat_le, hd]
  have h30 : (0x30 : UInt8).toNat = 48 := rfl
  have h39 : (0x39 : UInt8).toNat = 57 := rfl
  omega

theorem value_append_digit (ds : Bytes) (d : UInt8) :
    value (ds ++ [d]) = value ds * 10 + digitValue d := by
  simp [value]

/-- The digits of a number spell it. -/
theorem value_ofNat (n : Nat) : value (ofNat n) = n := by
  induction n using Nat.strongRecOn with
  | ind n ih =>
    by_cases hn : n < 10
    · rw [ofNat_of_lt hn]
      simp [value, digitValue_digit hn]
    · rw [ofNat_of_ge (by omega), value_append_digit, ih (n / 10) (by omega),
        digitValue_digit (by omega)]
      omega

theorem isDigit_of_mem_ofNat (n : Nat) : ∀ b ∈ ofNat n, isDigit b = true := by
  induction n using Nat.strongRecOn with
  | ind n ih =>
    by_cases hn : n < 10
    · rw [ofNat_of_lt hn]
      simpa using isDigit_digit hn
    · rw [ofNat_of_ge (by omega)]
      exact List.forall_mem_append.mpr
        ⟨ih (n / 10) (by omega), by simpa using isDigit_digit (Nat.mod_lt n (by omega))⟩

theorem ofNat_ne_nil (n : Nat) : ofNat n ≠ [] := by
  by_cases hn : n < 10
  · simp [ofNat_of_lt hn]
  · simp [ofNat_of_ge (Nat.le_of_not_lt hn)]

theorem length_digitsBefore_le (places n : Nat) (tail : Bytes) :
    (digitsBefore places n tail).length ≤ places + tail.length := by
  induction places generalizing n tail with
  | zero => simp [digitsBefore]
  | succ places ih =>
    rw [digitsBefore]
    split
    · simp only [List.length_cons]
      omega
    · have h := ih (n / 10) (digit (n % 10) :: tail)
      simp only [List.length_cons] at h
      omega

/-- The text of a word is short: a sign and at most 65 digits. -/
theorem length_ofInt_le (n : Int64) : (ofInt n.toInt).length ≤ 66 := by
  have hdigits : (ofNat n.toInt.natAbs).length ≤ 65 := by
    have hlog : n.toInt.natAbs.log2 ≤ 64 := by
      by_cases hzero : n.toInt.natAbs = 0
      · simp [hzero]
      · have hlow := n.le_toInt
        have hhigh := n.toInt_lt
        exact Nat.le_of_lt ((Nat.log2_lt hzero).mpr (by omega))
    have h := length_digitsBefore_le (n.toInt.natAbs.log2 + 1) n.toInt.natAbs []
    simp only [List.length_nil] at h
    exact Nat.le_trans h (by omega)
  rw [ofInt]
  split
  · simp only [List.length_cons]
    omega
  · omega

/-- The digits of the magnitude of a word, read with its sign, give it back, also
    at the lower end of the range. -/
theorem foldl_pushDigit_ofNat (n : Int64) :
    (ofNat n.toInt.natAbs).foldl (pushDigit (n.toInt < 0)) 0 = n := by
  rw [foldl_pushDigit, value_ofNat, signed_natAbs, Int64.ofIntClamp_toInt]

end Decimal
end ProgramHost
