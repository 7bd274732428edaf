/-
  ProgramHost.Proofs.IntegerOutcome

  The law of an integer request, case by case.

  A stream is cut into its leading whitespace, one sign if there is one, the digits
  behind that and the rest (`Signals.NumberCut`), every run as long as it can be.
  The sign, the digits and the front of the rest decide the request
  (`Signals.IntegerFate`): what it gives and what it leaves. The value of the digits
  is that of positional notation (`Decimal.value_eq_ofDigits`), clamped once to the
  range of words; the pieces in which the digits arrive play no part.
-/

import Mathlib.Data.List.Induction
import Mathlib.Data.Nat.Digits.Defs
import ProgramHost.Proofs.DecimalReading
import ProgramHost.Proofs.ReadAgreement

namespace ProgramHost

/-! ## The value of digits -/

namespace Decimal

/-- Digits taken one after another spell their value in positional notation; the
    last digit counts ones. -/
theorem value_eq_ofDigits (ds : Bytes) :
    value ds = Nat.ofDigits 10 (ds.reverse.map digitValue) := by
  induction ds using List.reverseRecOn with
  | nil => rfl
  | append_singleton ds d ih =>
    rw [value_append_digit, List.reverse_append, List.reverse_singleton, List.singleton_append,
      List.map_cons, Nat.ofDigits_cons, ih]
    omega

/-- A word is the value of signed digits, clamped to the range of words. -/
def Clamps (negative : Bool) (ds : Bytes) (word : Int64) : Prop :=
  word.toInt =
    max (-2 ^ 63) (min (signed negative (Nat.ofDigits 10 (ds.reverse.map digitValue))) (2 ^ 63 - 1))

theorem clamps_foldl_pushDigit (negative : Bool) (ds : Bytes) :
    Clamps negative ds (ds.foldl (pushDigit negative) 0) := by
  rw [Clamps, foldl_pushDigit, toInt_ofIntClamp, value_eq_ofDigits]

end Decimal

/-! ## The cut -/

namespace Signals

/-- The bytes that can stand before the digits of an integer. -/
def isSign (b : UInt8) : Bool := b == plus || b == minus

theorem isSign_iff {b : UInt8} : isSign b = true ↔ b = plus ∨ b = minus := by
  simp [isSign]

/-- A stream is whitespace, at most one sign, digits and a rest, where no part can
    be longer. -/
structure NumberCut (stream : List Signal) (ws sign : Bytes) (negative : Bool) (digits : Bytes)
    (rest : List Signal) : Prop where
  stream_eq : stream = ws.map .byte ++ (sign.map .byte ++ (digits.map .byte ++ rest))
  blank : ∀ b ∈ ws, isWhitespace b = true
  blank_stops : Stops isWhitespace (sign.map .byte ++ (digits.map .byte ++ rest))
  signed : IntegerState.Sign sign negative
  signed_stops : sign = [] → Stops isSign (digits.map .byte ++ rest)
  numeric : ∀ b ∈ digits, isDigit b = true
  numeric_stops : Stops isDigit rest

/-- A sign stands at the front of a stream, or none does. -/
theorem exists_sign (text : List Signal) :
    ∃ (sign : Bytes) (negative : Bool) (behind : List Signal),
      text = sign.map .byte ++ behind ∧ IntegerState.Sign sign negative ∧
        (sign = [] → Stops isSign behind) := by
  by_cases hsign : ∃ b, front text = .byte b ∧ isSign b = true
  · obtain ⟨b, hfront, hb⟩ := hsign
    have htext := eq_cons_of_front_byte hfront
    rcases isSign_iff.mp hb with rfl | rfl
    · exact ⟨[plus], false, text.tail, htext, .plus, by simp⟩
    · exact ⟨[minus], true, text.tail, htext, .minus, by simp⟩
  · refine ⟨[], false, text, rfl, .none, fun _ b hb => ?_⟩
    exact Bool.eq_false_iff.mpr fun h => hsign ⟨b, hb, h⟩

/-- Every stream has a cut. -/
theorem exists_numberCut (stream : List Signal) :
    ∃ ws sign negative digits rest, NumberCut stream ws sign negative digits rest := by
  obtain ⟨ws, text, rfl, hws, htext⟩ := exists_run isWhitespace stream
  obtain ⟨sign, negative, behind, rfl, hsign, hnone⟩ := exists_sign text
  obtain ⟨digits, rest, rfl, hdigits, hrest⟩ := exists_run isDigit behind
  exact ⟨ws, sign, negative, digits, rest, rfl, hws, htext, hsign, hnone, hdigits, hrest⟩

namespace NumberCut

variable {stream rest : List Signal} {ws sign digits : Bytes} {negative : Bool}

/-- Where neither a sign nor a digit nor another byte follows the whitespace,
    there is no integer to read. -/
theorem integer_nothing (h : NumberCut stream ws [] negative [] rest)
    (hrest : ∀ b, front rest ≠ .byte b) :
    integer stream = conclude (.error .unexpectedEnd) rest := by
  rw [h.stream_eq]
  exact integer_blank h.blank hrest

/-- In all other cases the sign and the digits are read, and the request ends at
    the rest. -/
theorem integer_eq (h : NumberCut stream ws sign negative digits rest)
    (hsome : sign = [] → digits = [] → ∃ b, front rest = .byte b) :
    integer stream = conclude (IntegerState.outcome negative digits) rest := by
  have hstream : stream = (ws ++ sign ++ digits).map .byte ++ rest := by
    rw [h.stream_eq, List.map_append, List.map_append, List.append_assoc, List.append_assoc]
  rw [hstream]
  refine integer_number h.blank h.signed h.numeric h.numeric_stops fun hnone hnil => ?_
  -- Without a sign and digits, the byte at the rest stops both earlier runs.
  obtain ⟨b, hb⟩ := hsome hnone hnil
  subst hnone hnil
  have hsign := h.signed_stops rfl b hb
  refine ⟨b, hb, h.blank_stops b hb, fun hmem => ?_⟩
  rw [isSign_iff.mpr hmem] at hsign
  cases hsign

end NumberCut

/-! ## The law -/

/-- What becomes of an integer request, by the sign and the digits that stand next
    and the rest behind them: the outcome and what is left of the stream. -/
inductive IntegerFate (sign : Bytes) (negative : Bool) :
    Bytes → List Signal → IntegerResult → List Signal → Prop where
  /-- The input ends before a sign or a digit; the end is taken. -/
  | nothing {rest : List Signal} (hsign : sign = []) (hfront : front rest = .endOfInput) :
      IntegerFate sign negative [] rest (.error .unexpectedEnd) rest.tail
  /-- The input fails, whatever was read before; the failure is taken. -/
  | failed {digits : Bytes} {rest : List Signal} {f : Failure} (hfront : front rest = .failure f) :
      IntegerFate sign negative digits rest (.error (.device f)) rest.tail
  /-- The input ends behind a lone sign; the end is taken. -/
  | signOnly {rest : List Signal} (hsign : sign ≠ []) (hfront : front rest = .endOfInput) :
      IntegerFate sign negative [] rest (.error .expectedInteger) rest.tail
  /-- A byte stands where a digit should; it stays. -/
  | noDigit {rest : List Signal} {b : UInt8} (hfront : front rest = .byte b) :
      IntegerFate sign negative [] rest (.error .expectedInteger) rest
  /-- The input ends behind digits; the end is taken. -/
  | ended {digits : Bytes} {rest : List Signal} {word : Int64} (hne : digits ≠ [])
      (hword : Decimal.Clamps negative digits word) (hfront : front rest = .endOfInput) :
      IntegerFate sign negative digits rest (.ok word) rest.tail
  /-- A byte stands behind digits; it stays. -/
  | delimited {digits : Bytes} {rest : List Signal} {word : Int64} {b : UInt8}
      (hne : digits ≠ []) (hword : Decimal.Clamps negative digits word)
      (hfront : front rest = .byte b) :
      IntegerFate sign negative digits rest (.ok word) rest

/-- Digits read to their end give an integer. -/
theorem outcome_of_ne_nil {digits : Bytes} (negative : Bool) (hne : digits ≠ []) :
    IntegerState.outcome negative digits = .ok (digits.foldl (Decimal.pushDigit negative) 0) := by
  have hstarted : (!digits.isEmpty) = true := by simpa using hne
  rw [IntegerState.outcome, hstarted, IntegerState.conclude, if_pos rfl]

/-- The cut of a stream says what becomes of a request on it. -/
theorem NumberCut.fate {stream rest : List Signal} {ws sign digits : Bytes} {negative : Bool}
    (h : NumberCut stream ws sign negative digits rest) :
    IntegerFate sign negative digits rest (integer stream).1 (integer stream).2 := by
  have hword := Decimal.clamps_foldl_pushDigit negative digits
  -- Only an end tells a stream with nothing to read from one with a sign or a digit.
  cases hfront : front rest with
  | byte b =>
    rw [h.integer_eq fun _ _ => ⟨b, hfront⟩, conclude_byte hfront]
    by_cases hne : digits = []
    · subst hne
      exact .noDigit hfront
    · rw [outcome_of_ne_nil negative hne]
      exact .delimited hne hword hfront
  | endOfInput =>
    by_cases hne : digits = []
    · subst hne
      by_cases hsign : sign = []
      · subst hsign
        rw [h.integer_nothing (by simp [hfront]), conclude_end hfront]
        exact .nothing rfl hfront
      · rw [h.integer_eq fun hnone _ => absurd hnone hsign, conclude_end hfront]
        exact .signOnly hsign hfront
    · rw [h.integer_eq fun _ hnil => absurd hnil hne, conclude_end hfront,
        outcome_of_ne_nil negative hne]
      exact .ended hne hword hfront
  | failure f =>
    have hfailed : integer stream = (.error (.device f), rest.tail) := by
      by_cases hnone : sign = [] ∧ digits = []
      · obtain ⟨rfl, rfl⟩ := hnone
        rw [h.integer_nothing (by simp [hfront]), conclude_failure hfront]
      · rw [h.integer_eq fun hs hd => absurd ⟨hs, hd⟩ hnone, conclude_failure hfront]
    rw [hfailed]
    exact .failed hfront

end Signals

/-- The digits of one below the least word, without the sign. -/
def Decimal.beyondLeast : Bytes :=
  [0x39, 0x32, 0x32, 0x33, 0x33, 0x37, 0x32, 0x30, 0x33, 0x36, 0x38, 0x35, 0x34, 0x37, 0x37, 0x35,
    0x38, 0x30, 0x39]

namespace Input

/-- An integer request is decided by the stream. Every stream has a cut into
    whitespace, a sign, digits and a rest, and whichever stream the source of an
    input amounts to, its cut says what the request gives and what it leaves,
    whatever the pieces and the interruptions. -/
theorem integer_decided (input : Input) {stream : List Signal}
    (hstream : Signals.Alike input.source.stream stream) :
    (∃ ws sign negative digits rest, Signals.NumberCut stream ws sign negative digits rest) ∧
      ∀ ws sign negative digits rest, Signals.NumberCut stream ws sign negative digits rest →
        ∃ left, Signals.IntegerFate sign negative digits rest input.integer.1 left ∧
          Signals.Alike input.integer.2.source.stream left := by
  refine ⟨Signals.exists_numberCut stream, fun ws sign negative digits rest hcut => ?_⟩
  obtain ⟨houtcome, hleft⟩ := hstream.integer
  rw [input.integer_stream] at houtcome hleft
  refine ⟨_, ?_, hleft⟩
  rw [show input.integer.1 = (Signals.integer stream).1 from houtcome]
  exact hcut.fate

/-- Before one below the least word and a letter, cut behind the sign and inside the
    digits and interrupted. -/
def beforeBeyondLeast : Input where
  source.piece := [0x20, minus]
  source.events := [.failure (.ofKind .interrupted), .data (Decimal.beyondLeast.take 7),
    .data (Decimal.beyondLeast.drop 7 ++ [0x78]), .failure (.ofKind .brokenPipe)]

theorem numberCut_beforeBeyondLeast :
    Signals.NumberCut beforeBeyondLeast.source.stream [0x20] [minus] true Decimal.beyondLeast
      [.byte 0x78, .failure (.ofKind .brokenPipe)] where
  stream_eq := rfl
  blank := by decide +kernel
  blank_stops := by
    rintro b ⟨⟩
    rfl
  signed := .minus
  signed_stops := by simp
  numeric := by decide +kernel
  numeric_stops := by
    rintro b ⟨⟩
    rfl

theorem integer_decided_beforeBeyondLeast :
    Signals.NumberCut beforeBeyondLeast.source.stream [0x20] [minus] true Decimal.beyondLeast
        [.byte 0x78, .failure (.ofKind .brokenPipe)] ∧
      ∃ left, Signals.IntegerFate [minus] true Decimal.beyondLeast
          [.byte 0x78, .failure (.ofKind .brokenPipe)] (.ok Int64.minValue) left ∧
        Signals.Alike beforeBeyondLeast.integer.2.source.stream left := by
  have hleast : beforeBeyondLeast.integer.1 = .ok Int64.minValue := by decide +kernel
  have hfate := (beforeBeyondLeast.integer_decided fun _ => rfl).2 _ _ _ _ _
    numberCut_beforeBeyondLeast
  rw [hleast] at hfate
  exact ⟨numberCut_beforeBeyondLeast, hfate⟩

end Input

end ProgramHost
