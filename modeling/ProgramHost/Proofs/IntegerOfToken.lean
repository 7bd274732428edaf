/-
  ProgramHost.Proofs.IntegerOfToken

  Reading an integer agrees with reading a string and converting it.

  Two independent readers of decimals meet here: the integer request, which
  saturates over a stream, and the conversion of a string, which wraps around.
  `Signals.integer_of_word` says what the first makes of a stream on which a token
  request would give a word: the clamped value of its sign and digits
  (`Decimal.signedValue`). The second gives the wrapped `Decimal.leadingValue`.
  The two values differ by a leading plus only, so in range the two readers agree
  (`Host.nextInteger_of_nextString`).
-/

import ProgramHost.Proofs.DecimalReading
import ProgramHost.Proofs.ReadAgreement

namespace ProgramHost

/-! ## The value of a word -/

namespace Decimal

/-- The exact value of the sign, a plus or a minus, and the digits that a text
    starts with; zero without digits. -/
def signedValue : Bytes → Int
  | [] => 0
  | b :: rest =>
    if b = plus ∨ b = minus then signed (b = minus) (value (rest.takeWhile isDigit))
    else value ((b :: rest).takeWhile isDigit)

theorem signedValue_of_head_ne_plus {text : Bytes} (h : text.head? ≠ some plus) :
    signedValue text = leadingValue text := by
  cases text with
  | nil => rfl
  | cons b rest =>
    have hplus : b ≠ plus := by simpa using h
    by_cases hminus : b = minus
    · simp [signedValue, leadingValue, hminus, signed]
    · simp [signedValue, leadingValue, hminus, hplus]

theorem signedValue_plus {text : Bytes} (h : text.head? ≠ some minus) :
    signedValue (plus :: text) = leadingValue text := by
  have hsign : signedValue (plus :: text) = value (text.takeWhile isDigit) := by
    simp [signedValue, signed, plus_ne_minus]
  rw [hsign]
  cases text with
  | nil => rfl
  | cons b rest =>
    have hminus : b ≠ minus := by simpa using h
    simp [leadingValue, hminus]

end Decimal

/-! ## The integer at the front of a word -/

/-- An integer without digits is taken for zero, which is the value of no
    digits. -/
theorem Input.orZero_outcome (negative : Bool) (digits : Bytes) :
    orZero (IntegerState.outcome negative digits) =
      .ok (Int64.ofIntClamp (Decimal.signed negative (Decimal.value digits))) := by
  rw [← Decimal.foldl_pushDigit]
  cases digits <;> rfl

namespace Signals

theorem conclude_of_not_failure {α : Type} {outcome : Except Refusal α} {stream : List Signal}
    (h : ∀ f, front stream ≠ .failure f) : (conclude outcome stream).1 = outcome := by
  cases hfront : front stream with
  | byte b => rw [conclude_byte hfront]
  | endOfInput => rw [conclude_end hfront]
  | failure f => exact absurd hfront (h f)

/-- Where a token request gives a word, or the empty word at the end of input, the
    word stands behind whitespace, and what follows it is no failure. -/
theorem word_of_token {limit : Nat} {stream : List Signal} {word : Bytes}
    (h : Input.orEmpty (token limit stream).1 = .ok word) :
    ∃ (ws : Bytes) (rest : List Signal), stream = (ws ++ word).map .byte ++ rest ∧
      (∀ b ∈ ws, isWhitespace b = true) ∧ (∀ b ∈ word, (!isWhitespace b) = true) ∧
      Stops (!isWhitespace ·) rest ∧ (∀ f, front rest ≠ .failure f) ∧
      (word = [] → front rest = .endOfInput) := by
  obtain ⟨ws, found, rest, rfl, hws, hfound, hrest, hcases⟩ := token_cases limit stream
  rcases hcases with ⟨rfl, hbyte, htoken⟩ | ⟨hne, hfits, htoken⟩ | ⟨hlong, htoken⟩
  · cases hfront : front rest with
    | byte b => exact absurd hfront (hbyte b)
    | endOfInput =>
      rw [htoken, conclude_end hfront] at h
      cases h
      exact ⟨ws, rest, rfl, hws, hfound, hrest, by simp [hfront], fun _ => hfront⟩
    | failure f =>
      rw [htoken, conclude_failure hfront] at h
      cases h
  · have hfailure (f : Failure) : front rest ≠ .failure f := by
      intro hfront
      rw [htoken, conclude_failure hfront] at h
      cases h
    rw [htoken, conclude_of_not_failure hfailure] at h
    cases h
    exact ⟨ws, rest, rfl, hws, hfound, hrest, hfailure, fun hnil => absurd hnil hne⟩
  · rw [htoken] at h
    cases h

/-- Digits at the front of a word, with what follows it, as an integer. -/
theorem number_of_word {word : Bytes} {rest : List Signal}
    (hrest : Stops (!isWhitespace ·) rest) (hfailure : ∀ f, front rest ≠ .failure f)
    (negative : Bool) :
    Input.orZero (number negative (word.map .byte ++ rest)).1 =
      .ok (Int64.ofIntClamp
        (Decimal.signed negative (Decimal.value (word.takeWhile isDigit)))) := by
  -- The digits end inside the word, or where the word ends.
  have hstop : Stops isDigit ((word.dropWhile isDigit).map .byte ++ rest) ∧
      ∀ f, front ((word.dropWhile isDigit).map .byte ++ rest) ≠ .failure f := by
    rcases class_cases isDigit word with ⟨-, -, hdrop⟩ | ⟨run, b, more, -, -, hb, -, hdrop⟩
    · rw [hdrop]
      refine ⟨fun b hb => ?_, hfailure⟩
      have hspace : isWhitespace b = true := by simpa using hrest b hb
      exact Bool.eq_false_iff.mpr fun hdigit => by
        rw [isWhitespace_of_isDigit hdigit] at hspace
        cases hspace
    · rw [hdrop]
      exact ⟨stops_of_front_byte rfl hb, by simp⟩
  rw [map_byte_append_eq isDigit,
    number_digits (fun b hb => List.mem_takeWhile_imp hb) hstop.1,
    conclude_of_not_failure hstop.2, Input.orZero_outcome]

/-- Before a word an integer request gives the clamped value of its sign and
    digits. -/
theorem integer_of_word {ws word : Bytes} {rest : List Signal}
    (hws : ∀ b ∈ ws, isWhitespace b = true) (hword : ∀ b ∈ word, (!isWhitespace b) = true)
    (hrest : Stops (!isWhitespace ·) rest) (hfailure : ∀ f, front rest ≠ .failure f)
    (hempty : word = [] → front rest = .endOfInput) :
    Input.orZero (integer ((ws ++ word).map .byte ++ rest)).1 =
      .ok (Int64.ofIntClamp (Decimal.signedValue word)) := by
  rw [List.map_append, List.append_assoc]
  cases word with
  | nil =>
    have hfront := hempty rfl
    rw [List.map_nil, List.nil_append, integer_blank hws (by simp [hfront]), conclude_end hfront]
    rfl
  | cons b word =>
    have hb : isWhitespace b = false := by simpa using hword b (by simp)
    by_cases hsign : b = plus ∨ b = minus
    · rw [List.map_cons, List.cons_append, integer_signed hws hsign,
        number_of_word hrest hfailure, Decimal.signedValue, if_pos hsign]
    · rw [integer_unsigned hws rfl ⟨hb, hsign⟩, number_of_word hrest hfailure,
        Decimal.signedValue, if_neg hsign]
      rfl

end Signals

/-! ## The two reads of a host -/

namespace Host

/-- Reading a string gives the token, or nothing at the end of input, in a block
    of that content. -/
theorem nextString_content {host after : Host} {placement : Placement}
    (h : host.nextString = some (.ok placement, after)) :
    Input.orEmpty (Signals.token host.settings.active.tokenLimit host.input.source.stream).1 =
      .ok placement.block.content := by
  obtain ⟨e, he, -⟩ | ⟨content, hread, hplacement, hchange⟩ := nextString_changes h
  · cases he
  · cases hplacement
    rw [Input.tokenOrEmpty_stream] at hread
    rw [Draft.layOut_ofBytes, Block.content_ofContent (Layout.lt_of_fits hchange.fits)]
    exact hread

/-- Where a host can read a string, it can read an integer, and in range the integer
    is the one that the string converts to. A leading plus, which the conversion of
    strings does not know, is skipped. -/
theorem nextInteger_of_nextString {host after : Host} {placement : Placement}
    (h : host.nextString = some (.ok placement, after)) :
    ∃ n, host.nextInteger.1 = .ok n ∧
      (placement.block.content.head? ≠ some plus →
        Decimal.InRange (Decimal.leadingValue placement.block.content) →
        n = placement.block.toInt) ∧
      ∀ text : Bytes, placement.block.content = plus :: text → text.head? ≠ some minus →
        Decimal.InRange (Decimal.leadingValue text) →
        ∀ s : Block, s.content = text → n = s.toInt := by
  obtain ⟨ws, rest, hstream, hws, hword, hrest, hfailure, hempty⟩ :=
    Signals.word_of_token (nextString_content h)
  have hread : host.nextInteger.1 =
      .ok (Int64.ofIntClamp (Decimal.signedValue placement.block.content)) := by
    have hinteger := Input.integer_stream host.input
    rw [nextInteger, ← Signals.integer_of_word hws hword hrest hfailure hempty, ← hstream, hinteger]
  refine ⟨_, hread, ?_, ?_⟩
  · intro hplus hrange
    rw [Decimal.signedValue_of_head_ne_plus hplus, Decimal.ofIntClamp_of_inRange hrange,
      Block.toInt, Decimal.ofText_eq]
  · intro text hcontent hminus hrange s hs
    rw [hcontent, Decimal.signedValue_plus hminus, Decimal.ofIntClamp_of_inRange hrange,
      Block.toInt, Decimal.ofText_eq, hs]

/-- Before the least word and a letter, cut behind the sign and interrupted. -/
def beforeLeastWord : Host where
  input.source.piece := [newline, minus]
  input.source.events := [.failure (.ofKind .interrupted),
    .data [0x39, 0x32, 0x32, 0x33, 0x33, 0x37, 0x32, 0x30, 0x33, 0x36, 0x38, 0x35],
    .data [0x34, 0x37, 0x37, 0x35, 0x38, 0x30, 0x38, 0x78]]

/-- Before a plus and the digits of seven, with a failure on the next line. -/
def beforePlusSeven : Host where
  input.source.events := [.data [plus], .data [0x30, 0x37, newline], .failure (.ofKind .timedOut)]

theorem nextInteger_of_leastWord_and_plusSeven :
    beforeLeastWord.nextInteger.1 = .ok Int64.minValue ∧ beforePlusSeven.nextInteger.1 = .ok 7 := by
  constructor
  · have hstring : ∃ placement after, beforeLeastWord.nextString = some (.ok placement, after) ∧
        placement.block.content.head? ≠ some plus ∧
        Decimal.InRange (Decimal.leadingValue placement.block.content) ∧
        placement.block.toInt = Int64.minValue := ⟨_, _, rfl, by decide +kernel⟩
    obtain ⟨placement, after, hnext, hplus, hrange, hleast⟩ := hstring
    obtain ⟨n, hn, hagree, -⟩ := nextInteger_of_nextString hnext
    rw [hn, hagree hplus hrange, hleast]
  · have hstring : ∃ placement after, beforePlusSeven.nextString = some (.ok placement, after) ∧
        placement.block.content = plus :: [0x30, 0x37] := ⟨_, _, rfl, by decide +kernel⟩
    obtain ⟨placement, after, hnext, hcontent⟩ := hstring
    obtain ⟨n, hn, -, hagree⟩ := nextInteger_of_nextString hnext
    rw [hn, hagree [0x30, 0x37] hcontent (by decide) (by decide +kernel)
      (Block.ofContent [0x30, 0x37]) (by decide +kernel)]
    decide +kernel

end Host

end ProgramHost
