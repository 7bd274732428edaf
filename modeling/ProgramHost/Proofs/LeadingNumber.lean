/-
  ProgramHost.Proofs.LeadingNumber

  The conversion of a string depends on the number that it starts with, and on
  nothing else.

  A text is cut into a minus sign or none, the digits behind it and a rest
  (`Decimal.LeadingCut`), the digits as many as there are. Digit by digit, and then in
  the negation, the conversion wraps around; all of that is one reduction of the exact
  value modulo `2 ^ 64` (`Decimal.LeadingCut.eq_ofText_iff`). Text behind the cut
  changes nothing, and neither does text behind digits that it does not go on with
  (`Decimal.LeadingCut.append`), so this holds of strings put together in memory too.
-/

import Mathlib.Data.Int.ModEq
import ProgramHost.Proofs.Constructions
import ProgramHost.Proofs.IntegerOutcome
import ProgramHost.Proofs.ProgramRuns

namespace ProgramHost

/-! ## The cut -/

namespace Decimal

/-- A text without the minus sign that it may start with. -/
def unsigned : Bytes → Bytes
  | [] => []
  | b :: rest => if b = minus then rest else b :: rest

/-- A text is a minus sign or none, digits and a rest, where neither the sign nor a
    digit is left out. -/
structure LeadingCut (text : Bytes) (negative : Bool) (digits rest : Bytes) : Prop where
  negative_iff : negative = true ↔ text.head? = some minus
  unsigned_eq : unsigned text = digits ++ rest
  numeric : ∀ b ∈ digits, isDigit b = true
  numeric_stops : ∀ b, rest.head? = some b → isDigit b = false

/-- Every text has a cut. -/
theorem exists_leadingCut (text : Bytes) :
    ∃ negative digits rest, LeadingCut text negative digits rest := by
  refine ⟨text.head? == some minus, (unsigned text).takeWhile isDigit,
    (unsigned text).dropWhile isDigit, by simp, List.takeWhile_append_dropWhile.symm,
    fun b hb => List.mem_takeWhile_imp hb, fun b hb => ?_⟩
  rcases class_cases isDigit (unsigned text) with ⟨-, -, hdrop⟩ | ⟨run, c, more, -, -, hc, -, hdrop⟩
  · rw [hdrop] at hb
    cases hb
  · rw [hdrop] at hb
    cases hb
    exact hc

/-- The word congruent to an integer modulo `2 ^ 64` is the integer, wrapped around. -/
theorem eq_ofInt_iff (word : Int64) (x : Int) :
    word = Int64.ofInt x ↔ word.toInt ≡ x [ZMOD 2 ^ 64] := by
  have hlow := word.le_toInt
  have hhigh := word.toInt_lt
  rw [eq_comm, Int64.ofInt_eq_iff_bmod_eq_toInt, Int.bmod_eq_iff (by decide), Int.modEq_comm,
    Int.modEq_iff_dvd]
  constructor
  · rintro ⟨-, -, hdvd⟩
    exact hdvd
  · intro hdvd
    exact ⟨by omega, by omega, hdvd⟩

/-- What a text starts with, in terms of the text behind the sign. -/
theorem leadingValue_eq (text : Bytes) :
    leadingValue text =
      signed (text.head? == some minus) (value ((unsigned text).takeWhile isDigit)) := by
  cases text with
  | nil => rfl
  | cons b rest =>
    by_cases hminus : b = minus
    · simp [leadingValue, unsigned, signed, hminus]
    · simp [leadingValue, unsigned, signed, hminus]

namespace LeadingCut

variable {text digits rest : Bytes} {negative : Bool}

/-- The digits of a cut are all that the text starts with behind the sign. -/
theorem takeWhile_eq (h : LeadingCut text negative digits rest) :
    (unsigned text).takeWhile isDigit = digits := by
  have hstop : rest.takeWhile isDigit = [] := by
    cases rest with
    | nil => rfl
    | cons b rest => simp [h.numeric_stops b rfl]
  rw [h.unsigned_eq, List.takeWhile_append_of_pos h.numeric, hstop, List.append_nil]

/-- The exact value of a cut. -/
theorem leadingValue_eq (h : LeadingCut text negative digits rest) :
    leadingValue text = signed negative (Nat.ofDigits 10 (digits.reverse.map digitValue)) := by
  have hnegative : (text.head? == some minus) = negative := by
    rw [Bool.eq_iff_iff, beq_iff_eq]
    exact h.negative_iff.symm
  rw [Decimal.leadingValue_eq, h.takeWhile_eq, hnegative, value_eq_ofDigits]

/-- The word that a text is read as is the one congruent to the exact value of the sign
    and the digits in its cut, however many digits there are. -/
theorem eq_ofText_iff (h : LeadingCut text negative digits rest) (word : Int64) :
    word = ofText text ↔
      word.toInt ≡ signed negative (Nat.ofDigits 10 (digits.reverse.map digitValue))
        [ZMOD 2 ^ 64] := by
  rw [ofText_eq, h.leadingValue_eq, eq_ofInt_iff]

/-- More text behind a cut belongs to its rest, unless the text starts with it or its
    digits go on there. -/
theorem append (h : LeadingCut text negative digits rest) (hne : text ≠ []) {more : Bytes}
    (hends : rest = [] → ∀ b, more.head? = some b → isDigit b = false) :
    LeadingCut (text ++ more) negative digits (rest ++ more) := by
  obtain ⟨c, tail, rfl⟩ := List.exists_cons_of_ne_nil hne
  refine ⟨h.negative_iff, ?_, h.numeric, fun b hb => ?_⟩
  · have hunsigned : unsigned (c :: tail ++ more) = unsigned (c :: tail) ++ more := by
      simp only [List.cons_append, unsigned]
      split <;> rfl
    rw [hunsigned, h.unsigned_eq, List.append_assoc]
  · cases rest with
    | nil => exact hends rfl b hb
    | cons d rest => exact h.numeric_stops b hb

/-- A byte behind the sign that is no digit lies in the rest. -/
theorem rest_ne_nil (h : LeadingCut text negative digits rest)
    (hother : ∃ b ∈ unsigned text, isDigit b = false) : rest ≠ [] := by
  rintro rfl
  obtain ⟨b, hb, hdigit⟩ := hother
  rw [h.unsigned_eq, List.append_nil] at hb
  rw [h.numeric b hb] at hdigit
  cases hdigit

end LeadingCut

/-- A text after which another one cannot change the number that it starts with: the
    number has ended in the first, or the second does not go on with it. -/
def Shields (text more : Bytes) : Prop :=
  (∃ b ∈ unsigned text, isDigit b = false) ∨
    text ≠ [] ∧ ∀ b, more.head? = some b → isDigit b = false

theorem ofText_append {text more : Bytes} (h : Shields text more) :
    ofText (text ++ more) = ofText text := by
  obtain ⟨negative, digits, rest, hcut⟩ := exists_leadingCut text
  have hmore : LeadingCut (text ++ more) negative digits (rest ++ more) := by
    rcases h with hother | ⟨hne, hstops⟩
    · have hne : text ≠ [] := by
        rintro rfl
        simp [unsigned] at hother
      exact hcut.append hne fun hnil => absurd hnil (hcut.rest_ne_nil hother)
    · exact hcut.append hne fun _ => hstops
  rw [ofText_eq, ofText_eq, hmore.leadingValue_eq, hcut.leadingValue_eq]

end Decimal

/-! ## Strings in memory -/

namespace Host

variable {host : Host}

theorem serve_toInt {h : Handle} {s : Block} (hblock : host.store.block? h = some s) :
    host.serve (.query (.toInt h)) = some (.int (Decimal.ofText s.content), host) := by
  simp only [serve, Query.answer, Query.about, hblock]
  rfl

/-- A construction that copies bytes hands out a new string with that content. -/
theorem serve_copies {c : Construction} {bytes : Bytes}
    (hcopies : c.Copies host.store bytes)
    (hfits : bytes.length + 9 ≤ Layout.largest) :
    ∃ placement after, host.serve (.construct c) = some (.string placement, after) ∧
      placement.block.content = bytes ∧
      after.store.block? placement.handle = some placement.block := by
  obtain ⟨placement, after, hserve, hcontent, hgains, -⟩ : host.Makes c bytes :=
    makes_of_copies hcopies hfits fun _ _ _ _ => trivial
  exact ⟨placement, after, hserve, hcontent, hgains.found⟩

/-- The conversion of a string is decided by the number that its content starts with. It
    gives the one word congruent modulo `2 ^ 64` to the exact value of the minus sign, if
    there is one, and of all digits behind it. Another string appended to it, which is
    possible if memory can hold both, changes nothing when the number has ended in the
    first or the second does not go on with it. -/
theorem toInt_reads_leading {a b : Handle} {s t : Block} (ha : host.store.block? a = some s)
    (hb : host.store.block? b = some t) (hs : s.WellFormed) (ht : t.WellFormed) :
    ∃ n, host.serve (.query (.toInt a)) = some (.int n, host) ∧
      (∃ negative digits rest, Decimal.LeadingCut s.content negative digits rest) ∧
      (∀ negative digits rest, Decimal.LeadingCut s.content negative digits rest →
        ∀ word : Int64, word = n ↔
          word.toInt ≡ Decimal.signed negative
            (Nat.ofDigits 10 (digits.reverse.map Decimal.digitValue)) [ZMOD 2 ^ 64]) ∧
      (host.serve (.construct (.append a b)) = none ↔
        ¬ s.content.length + t.content.length + 9 ≤ Layout.largest) ∧
      ∀ answer after, host.serve (.construct (.append a b)) = some (answer, after) →
        ∃ placement, answer = .string placement ∧
          placement.block.content = s.content ++ t.content ∧
          (Decimal.Shields s.content t.content →
            after.serve (.query (.toInt placement.handle)) = some (.int n, after)) := by
  have hdraft : (Construction.append a b).draft? host.store =
      some (.ofBytes (s.content ++ t.content)) := by
    simp only [Construction.draft?, ha, hb, Option.bind_some, Option.map_some,
      Draft.ofAppend_eq hs ht]
  have hnone : host.serve (.construct (.append a b)) = none ↔
      ¬ s.content.length + t.content.length + 9 ≤ Layout.largest := by
    rw [serve, Option.map_eq_none_iff, Construction.run_eq_none, hdraft]
    simp [Draft.ofBytes]
  refine ⟨_, serve_toInt ha, Decimal.exists_leadingCut _, fun _ _ _ hcut => hcut.eq_ofText_iff,
    hnone, fun answer after hserve => ?_⟩
  have hfits : s.content.length + t.content.length + 9 ≤ Layout.largest := by
    by_contra hlarge
    rw [hnone.mpr hlarge] at hserve
    cases hserve
  rw [← List.length_append] at hfits
  obtain ⟨placement, after', hmade, hcontent, hblock⟩ :=
    serve_copies (Construction.copies_append ha hb hs ht) hfits
  obtain ⟨rfl, rfl⟩ : Answer.string placement = answer ∧ after' = after := by
    simpa [hmade] using hserve
  refine ⟨placement, rfl, hcontent, fun hshields => ?_⟩
  rw [serve_toInt hblock, hcontent, Decimal.ofText_append hshields]

/-- A host with two strings: one below the least word with a letter behind it, and a
    digit that compiled code laid out. -/
def wrapsAround : Host where
  store.cells := [⟨.ofContent (minus :: Decimal.beyondLeast ++ [0x78]), .host⟩,
    ⟨.ofContent [0x35], .foreign⟩]
  store.handles := [0, 1]

theorem toInt_reads_leading_wrapsAround :
    Decimal.LeadingCut (minus :: Decimal.beyondLeast ++ [0x78]) true Decimal.beyondLeast [0x78] ∧
      wrapsAround.serve (.query (.toInt 0)) = some (.int Int64.maxValue, wrapsAround) ∧
      Int64.maxValue.toInt ≡ Decimal.signed true
        (Nat.ofDigits 10 (Decimal.beyondLeast.reverse.map Decimal.digitValue)) [ZMOD 2 ^ 64] ∧
      ∃ placement after,
        wrapsAround.serve (.construct (.append 0 1)) = some (.string placement, after) ∧
          placement.block.content = minus :: Decimal.beyondLeast ++ [0x78, 0x35] ∧
          after.serve (.query (.toInt placement.handle)) = some (.int Int64.maxValue, after) := by
  have hcut : Decimal.LeadingCut (minus :: Decimal.beyondLeast ++ [0x78]) true
      Decimal.beyondLeast [0x78] := by
    refine ⟨by decide, rfl, by decide +kernel, ?_⟩
    rintro b ⟨⟩
    rfl
  have hfirst : wrapsAround.store.block? 0 =
      some (.ofContent (minus :: Decimal.beyondLeast ++ [0x78])) := rfl
  have hsecond : wrapsAround.store.block? 1 = some (.ofContent [0x35]) := rfl
  obtain ⟨n, hread, -, hcongruent, -, happend⟩ := toInt_reads_leading hfirst hsecond
    ⟨_, by decide, rfl⟩ ⟨_, by decide, rfl⟩
  have hcontents : (Block.ofContent (minus :: Decimal.beyondLeast ++ [0x78])).content =
        minus :: Decimal.beyondLeast ++ [0x78] ∧ (Block.ofContent [0x35]).content = [0x35] := by
    decide +kernel
  rw [hcontents.1, hcontents.2] at happend
  rw [hcontents.1] at hcongruent
  have hword : wrapsAround.serve (.query (.toInt 0)) = some (.int Int64.maxValue, wrapsAround) := by
    decide +kernel
  obtain rfl : Int64.maxValue = n := by simpa [hword] using hread
  have hshields : Decimal.Shields (minus :: Decimal.beyondLeast ++ [0x78]) [0x35] :=
    .inl ⟨0x78, by decide, by decide⟩
  have hmade : ∃ answer after,
      wrapsAround.serve (.construct (.append 0 1)) = some (answer, after) := ⟨_, _, rfl⟩
  obtain ⟨answer, after, hserve⟩ := hmade
  obtain ⟨placement, rfl, hcontent, hsame⟩ := happend answer after hserve
  exact ⟨hcut, hword, (hcongruent _ _ _ hcut _).mp rfl, placement, after, hserve, hcontent,
    hsame hshields⟩

end Host

end ProgramHost
