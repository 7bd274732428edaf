/-
  ProgramHost.Proofs.CanonicalDecimal

  Making the text of a word and converting a text are inverse to each other.

  `Decimal.Canonical` says which texts are canonical and what their exact values are, in
  positional notation and without a word of how texts are made. Every integer has
  exactly one canonical text, the one that is written for it (`Decimal.canonical_ofInt`,
  `Decimal.Canonical.ofInt_eq`). Read back with wrap-around, a canonical text gives its
  exact value as a word (`Decimal.Canonical.toInt_ofText`). In range nothing wraps around in
  the end, also for the least word, whose magnitude no word can hold.
-/

import ProgramHost.Proofs.LeadingNumber
import ProgramHost.Proofs.ReadBack

namespace ProgramHost

namespace Decimal

/-! ## Canonical texts -/

/-- The text of a sign: a minus sign, or nothing. -/
def signText (negative : Bool) : Bytes := if negative then [minus] else []

/-- The canonical decimal text of an integer: one zero, or digits that start with no zero,
    behind a minus sign for a negative integer. -/
inductive Canonical : Bytes → Int → Prop where
  | zero : Canonical [digit 0] 0
  | number {negative : Bool} {d : UInt8} {ds : Bytes} (hfirst : d ≠ digit 0)
      (hdigits : ∀ b ∈ d :: ds, isDigit b = true) :
      Canonical (signText negative ++ d :: ds)
        (signed negative (Nat.ofDigits 10 ((d :: ds).reverse.map digitValue)))

theorem digitValue_lt {d : UInt8} (h : isDigit d = true) : digitValue d < 10 := by
  simp only [isDigit, Bool.and_eq_true, decide_eq_true_eq, UInt8.le_iff_toNat_le] at h
  have h39 : (0x39 : UInt8).toNat = 57 := rfl
  rw [digitValue]
  omega

/-- A digit byte is the digit of its value. -/
theorem digit_digitValue {d : UInt8} (h : isDigit d = true) : digit (digitValue d) = d := by
  simp only [isDigit, Bool.and_eq_true, decide_eq_true_eq, UInt8.le_iff_toNat_le] at h
  have h30 : (0x30 : UInt8).toNat = 48 := rfl
  have hvalue : 0x30 + digitValue d = d.toNat := by
    rw [digitValue]
    omega
  rw [digit, hvalue, UInt8.ofNat_toNat]

/-- A number whose digits start with no zero is not zero. -/
theorem ne_zero_of_ofNat_eq_cons {n : Nat} {d : UInt8} {ds : Bytes} (h : ofNat n = d :: ds)
    (hfirst : d ≠ digit 0) : n ≠ 0 := by
  rintro rfl
  rw [ofNat_of_lt (by omega), List.cons.injEq] at h
  exact hfirst h.1.symm

/-- Digits that start with no zero are the digits of their value. -/
theorem ofNat_value {d : UInt8} {ds : Bytes} (hfirst : d ≠ digit 0)
    (hdigits : ∀ b ∈ d :: ds, isDigit b = true) : ofNat (value (d :: ds)) = d :: ds := by
  -- The induction takes the last digit away, as writing does.
  induction ds using List.reverseRecOn with
  | nil =>
    have hd := hdigits d (by simp)
    have hvalue : value [d] = digitValue d := by simp [value]
    rw [hvalue, ofNat_of_lt (digitValue_lt hd), digit_digitValue hd]
  | append_singleton ds e ih =>
    rw [← List.cons_append, List.forall_mem_append] at hdigits
    obtain ⟨hdigits, hlast⟩ := hdigits
    have he : isDigit e = true := hlast e (by simp)
    have helt := digitValue_lt he
    have ih := ih hdigits
    have hpos := ne_zero_of_ofNat_eq_cons ih hfirst
    have hdiv : (value (d :: ds) * 10 + digitValue e) / 10 = value (d :: ds) := by omega
    have hmod : (value (d :: ds) * 10 + digitValue e) % 10 = digitValue e := by omega
    rw [← List.cons_append, value_append_digit, ofNat_of_ge (by omega), hdiv, hmod, ih,
      digit_digitValue he]

/-- The digits of a number other than zero start with no zero. -/
theorem exists_ofNat_eq_cons {n : Nat} (hn : n ≠ 0) : ∃ d ds, ofNat n = d :: ds ∧ d ≠ digit 0 := by
  induction n using Nat.strongRecOn with
  | ind n ih =>
    by_cases hlt : n < 10
    · refine ⟨digit n, [], ofNat_of_lt hlt, fun heq => hn ?_⟩
      rw [← digitValue_digit hlt, heq, digitValue_digit (by omega)]
    · obtain ⟨d, ds, htenth, hd⟩ := ih (n / 10) (by omega) (by omega)
      exact ⟨d, ds ++ [digit (n % 10)], by rw [ofNat_of_ge (by omega), htenth]; rfl, hd⟩

/-- The text of an integer other than zero is a sign and the digits of its magnitude. -/
theorem ofInt_eq_signText_append (negative : Bool) {n : Nat} (hn : n ≠ 0) :
    ofInt (signed negative n) = signText negative ++ ofNat n := by
  cases negative with
  | false =>
    have hsign : ¬ signed false n < 0 := by
      simp only [signed, Bool.false_eq_true, if_false]
      omega
    rw [ofInt, if_neg hsign]
    rfl
  | true =>
    have hsign : signed true n < 0 := by
      simp only [signed, if_true]
      omega
    rw [ofInt, if_pos hsign, signed, if_pos rfl, Int.natAbs_neg, Int.natAbs_natCast]
    rfl

/-- The text that is written for an integer is canonical and has its value. -/
theorem canonical_ofInt (n : Int) : Canonical (ofInt n) n := by
  by_cases hzero : n = 0
  · rw [hzero]
    exact .zero
  · have hne : n.natAbs ≠ 0 := by omega
    obtain ⟨d, ds, htext, hfirst⟩ := exists_ofNat_eq_cons hne
    have hdigits : ∀ b ∈ d :: ds, isDigit b = true := htext ▸ isDigit_of_mem_ofNat n.natAbs
    have hvalue : Nat.ofDigits 10 ((d :: ds).reverse.map digitValue) = n.natAbs := by
      rw [← value_eq_ofDigits, ← htext, value_ofNat]
    have h : Canonical (signText (n < 0) ++ d :: ds) _ := .number hfirst hdigits
    rwa [hvalue, ← htext, ← ofInt_eq_signText_append _ hne, signed_natAbs] at h

namespace Canonical

variable {text : Bytes} {x : Int}

/-- A canonical text is the one that is written for its value. -/
theorem ofInt_eq (h : Canonical text x) : ofInt x = text := by
  cases h with
  | zero => rfl
  | @number negative d ds hfirst hdigits =>
    have hdigit := ofNat_value hfirst hdigits
    rw [value_eq_ofDigits] at hdigit
    rw [ofInt_eq_signText_append negative (ne_zero_of_ofNat_eq_cons hdigit hfirst), hdigit]

/-- A canonical text starts with its sign and all of its digits. -/
theorem leadingValue_eq (h : Canonical text x) : leadingValue text = x := by
  cases h with
  | zero => rfl
  | @number negative d ds hfirst hdigits =>
    have hd : d ≠ minus := by
      rintro rfl
      exact absurd (hdigits minus (by simp)) (by decide)
    have hcut : LeadingCut (signText negative ++ d :: ds) negative (d :: ds) [] := by
      cases negative with
      | false => exact ⟨by simp [signText, hd], by simp [signText, unsigned, hd], hdigits, by simp⟩
      | true => exact ⟨by simp [signText], by simp [signText, unsigned], hdigits, by simp⟩
    exact hcut.leadingValue_eq

/-- A canonical text is read as its value if a word can hold that. -/
theorem toInt_ofText (h : Canonical text x) (hrange : InRange x) : (ofText text).toInt = x := by
  rw [ofText_eq, h.leadingValue_eq, Int64.toInt_ofInt_of_le hrange.1 hrange.2]

end Canonical

/-- The text of a word is read as the word. -/
theorem ofText_ofInt (n : Int64) : ofText (ofInt n.toInt) = n := by
  apply Int64.toInt.inj
  exact (canonical_ofInt n.toInt).toInt_ofText ⟨n.le_toInt, n.toInt_lt⟩

end Decimal

/-! ## Strings in memory -/

namespace Host

/-- The text of a word always finds room in memory. -/
theorem serve_ofInt (host : Host) (n : Int64) :
    ∃ placement after, host.serve (.construct (.ofInt n)) = some (.string placement, after) ∧
      placement.block.content = Decimal.ofInt n.toInt ∧
      after.store.block? placement.handle = some placement.block :=
  serve_copies rfl (Item.fits_integer n)

/-- Making the text of a word and converting a string are inverse to each other on the
    canonical decimals. For every word a string is made whose content is the canonical text
    of the word, and that string converts to the word. Every string whose content is the
    canonical text of an integer that a word can hold converts to that integer, and the
    string made for it has the same content. -/
theorem ofInt_toInt_inverse (host : Host) :
    (∀ n : Int64, ∃ placement after,
      host.serve (.construct (.ofInt n)) = some (.string placement, after) ∧
        Decimal.Canonical placement.block.content n.toInt ∧
        after.serve (.query (.toInt placement.handle)) = some (.int n, after)) ∧
      ∀ (h : Handle) (s : Block) (x : Int), host.store.block? h = some s →
        Decimal.Canonical s.content x → Decimal.InRange x →
          ∃ n placement after, host.serve (.query (.toInt h)) = some (.int n, host) ∧
            n.toInt = x ∧
            host.serve (.construct (.ofInt n)) = some (.string placement, after) ∧
            after.serve (.query (.content placement.handle)) = some (.bytes s.content, after) := by
  constructor
  · intro n
    obtain ⟨placement, after, hserve, hcontent, hblock⟩ := host.serve_ofInt n
    refine ⟨placement, after, hserve, ?_, ?_⟩
    · rw [hcontent]
      exact Decimal.canonical_ofInt n.toInt
    · rw [serve_toInt hblock, hcontent, Decimal.ofText_ofInt]
  · intro h s x hs hcanonical hrange
    have hvalue := hcanonical.toInt_ofText hrange
    obtain ⟨placement, after, hserve, hcontent, hblock⟩ :=
      host.serve_ofInt (Decimal.ofText s.content)
    refine ⟨_, placement, after, serve_toInt hs, hvalue, hserve, ?_⟩
    have hbytes : placement.block.content = s.content := by
      rw [hcontent, hvalue, hcanonical.ofInt_eq]
    simp only [serve, Query.answer, Query.about, hblock, hbytes]

/-- The canonical text of the least word. -/
def leastText : Bytes :=
  [minus, 0x39, 0x32, 0x32, 0x33, 0x33, 0x37, 0x32, 0x30, 0x33, 0x36, 0x38, 0x35, 0x34, 0x37, 0x37,
    0x35, 0x38, 0x30, 0x38]

/-- A host with that text in a string that compiled code laid out. -/
def holdsLeast : Host where
  store.cells := [⟨.ofContent leastText, .foreign⟩]
  store.handles := [0]

theorem ofInt_toInt_inverse_holdsLeast :
    Decimal.Canonical leastText Int64.minValue.toInt ∧
      Decimal.InRange Int64.minValue.toInt ∧
      ∃ placement after,
        holdsLeast.serve (.query (.toInt 0)) = some (.int Int64.minValue, holdsLeast) ∧
          holdsLeast.serve (.construct (.ofInt Int64.minValue)) = some (.string placement, after) ∧
          after.serve (.query (.content placement.handle)) = some (.bytes leastText, after) := by
  have htext : Decimal.ofInt Int64.minValue.toInt = leastText := by decide +kernel
  have hcontent : (Block.ofContent leastText).content = leastText := by decide +kernel
  have hcanonical : Decimal.Canonical (Block.ofContent leastText).content Int64.minValue.toInt := by
    rw [hcontent, ← htext]
    exact Decimal.canonical_ofInt _
  have hrange : Decimal.InRange Int64.minValue.toInt := by decide
  obtain ⟨n, placement, after, hread, hn, hmade, hsame⟩ :=
    (ofInt_toInt_inverse holdsLeast).2 0 _ _ rfl hcanonical hrange
  rw [Int64.toInt.inj hn] at hread hmade
  rw [hcontent] at hsame hcanonical
  exact ⟨hcanonical, hrange, placement, after, hread, hmade, hsame⟩

end Host

end ProgramHost
