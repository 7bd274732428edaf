/-
  ProgramHost.Proofs.RequestProgress

  What requests make of a source.

  A request leaves the last of the events and bytes it found, and one that gives a token or
  an integer leaves fewer bytes. The source stays just as it was in three cases only: nothing
  was left, no number starts at the byte at hand, or the word at hand is too long. They all
  come from one fact about a request behind its whitespace (`MovesUnless`): with something
  else than whitespace at hand it is either refused at once, or uses up bytes.
-/

import ProgramHost.Proofs.RequestLoops

namespace ProgramHost

/-! ## Requests behind whitespace -/

section

variable {α : Type} {atEnd refusal : α} {atFailure : Failure → α} {go : Source → α × Source}
  {Idle : Bytes → Prop} {src after : Source}

/-- With something else than whitespace at hand a request is refused at once and changes
    nothing, or it uses up bytes. -/
structure MovesUnless (Idle : Bytes → Prop) (refusal : α) (go : Source → α × Source) : Prop where
  later : ∀ src : Source, src.Later (go src).2
  idle : ∀ {b rest} events, isWhitespace b = false → Idle (b :: rest) →
    go ⟨b :: rest, events⟩ = (refusal, ⟨b :: rest, events⟩)
  moves : ∀ {b rest} events, isWhitespace b = false → ¬ Idle (b :: rest) →
    (go ⟨b :: rest, events⟩).2.unread.length < (Source.unread ⟨b :: rest, events⟩).length

/-- Skipping whitespace leaves a source as it was if it has run out, or if something else is
    at hand already. -/
theorem skipping_unchanged {found : Except Failure Bool}
    (h : skipping.run () src = (found, src)) :
    (src = {} ∧ found = .ok false) ∨ found = .ok true := by
  rcases Loop.run_ask_unchanged rfl h with hdone | ⟨hpiece, hfound⟩
  · exact .inl hdone
  · right
    rw [skipPiece] at hfound
    split at hfound
    · cases hfound
    · exact (Turn.returns.inj (congrArg Prod.fst hfound)).symm

theorem skipping_front {b : UInt8} (rest : Bytes) (events : List Event)
    (hb : isWhitespace b = false) :
    skipping.run () ⟨b :: rest, events⟩ = (.ok true, ⟨b :: rest, events⟩) := by
  apply Loop.run_of_returns
  show ((skipPiece (b :: rest)).1, _) = _
  simp [skipPiece, hb, Source.consume]

theorem afterSkipping_empty : afterSkipping atEnd atFailure go {} = (atEnd, {}) := by
  have hskip : skipping.run () {} = (.ok false, {}) := Loop.run_of_returns rfl
  rw [afterSkipping, hskip]

theorem afterSkipping_front {b : UInt8} (rest : Bytes) (events : List Event)
    (hb : isWhitespace b = false) :
    afterSkipping atEnd atFailure go ⟨b :: rest, events⟩ = go ⟨b :: rest, events⟩ := by
  rw [afterSkipping, skipping_front rest events hb]

namespace MovesUnless

theorem later_afterSkipping (h : MovesUnless Idle refusal go) (src : Source) :
    src.Later (afterSkipping atEnd atFailure go src).2 := by
  have hlater := skipping.later_run () src
  rw [afterSkipping]
  cases hskip : skipping.run () src with
  | mk found mid =>
    rw [hskip] at hlater
    rcases found with f | (_ | _)
    · exact hlater
    · exact hlater
    · exact hlater.trans (h.later mid)

/-- Only a request that finds an end or a failure, or is refused, may leave as many bytes as
    there were. -/
theorem unread_lt (h : MovesUnless Idle refusal go) (src : Source)
    (hend : (afterSkipping atEnd atFailure go src).1 ≠ atEnd)
    (hfailure : ∀ f, (afterSkipping atEnd atFailure go src).1 ≠ atFailure f)
    (hrefusal : (afterSkipping atEnd atFailure go src).1 ≠ refusal) :
    (afterSkipping atEnd atFailure go src).2.unread.length < src.unread.length := by
  have hlater := skipping.later_run () src
  rw [afterSkipping] at hend hfailure hrefusal ⊢
  cases hskip : skipping.run () src with
  | mk found mid =>
    rw [hskip] at hlater hend hfailure hrefusal
    rcases found with f | (_ | _)
    · exact absurd rfl (hfailure f)
    · exact absurd rfl hend
    · obtain ⟨b, rest, events, rfl, hb⟩ := skipping_returns hskip
      have hnot : ¬ Idle (b :: rest) := by
        intro hidle
        dsimp only at hrefusal
        rw [h.idle events hb hidle] at hrefusal
        exact hrefusal rfl
      exact Nat.lt_of_lt_of_le (h.moves events hb hnot) hlater.unread_le

/-- A request leaves the source just as it was if nothing is left, or if it is refused for
    what is at hand. -/
theorem unchanged_iff (h : MovesUnless Idle refusal go) (src : Source) :
    (afterSkipping atEnd atFailure go src).2 = src ↔
      src = {} ∨ ∃ b rest, src.piece = b :: rest ∧ isWhitespace b = false ∧ Idle (b :: rest) := by
  constructor
  · intro hsame
    have hlater := skipping.later_run () src
    rw [afterSkipping] at hsame
    cases hskip : skipping.run () src with
    | mk found mid =>
      rw [hskip] at hlater hsame
      -- The request ends where skipping has ended, or further on, so skipping has not moved.
      have hmid : mid = src := by
        apply hlater.antisymm
        rcases found with f | (_ | _)
        · rw [← hsame]
          exact .refl mid
        · rw [← hsame]
          exact .refl mid
        · rw [← hsame]
          exact h.later mid
      subst hmid
      rcases skipping_unchanged hskip with ⟨hempty, -⟩ | rfl
      · exact .inl hempty
      · right
        obtain ⟨b, rest, events, rfl, hb⟩ := skipping_returns hskip
        refine ⟨b, rest, rfl, hb, ?_⟩
        by_contra hnot
        have hlt := h.moves events hb hnot
        rw [show (go ⟨b :: rest, events⟩).2 = ⟨b :: rest, events⟩ from hsame] at hlt
        exact Nat.lt_irrefl _ hlt
  · rintro (rfl | ⟨b, rest, hpiece, hb, hidle⟩)
    · rw [afterSkipping_empty]
    · obtain ⟨piece, events⟩ := src
      obtain rfl : piece = b :: rest := hpiece
      rw [afterSkipping_front rest events hb, h.idle events hb hidle]

end MovesUnless

end

/-! ## Words and numbers -/

/-- The word at hand is longer than a token may be. -/
def TooLongAtHand (limit : Nat) (piece : Bytes) : Prop :=
  limit < (piece.takeWhile (!isWhitespace ·)).length

/-- Neither a sign nor a digit is at hand. -/
def NoNumberAtHand (piece : Bytes) : Prop :=
  ∀ b ∈ piece.head?, b ≠ plus ∧ b ≠ minus ∧ isDigit b = false

theorem gathering_movesUnless (limit : Nat) :
    MovesUnless (TooLongAtHand limit) (.error (.tokenTooLong limit), [])
      ((gathering limit).run []) := by
  refine ⟨(gathering limit).later_run [], ?_, ?_⟩
  · intro b rest events _ hlong
    have hpiece : stagePiece limit [] (b :: rest) =
        (.returns (.error (.tokenTooLong limit), []), 0) := by
      rw [stagePiece, if_pos (by simpa [TooLongAtHand] using hlong)]
    apply Loop.run_of_returns
    show ((stagePiece limit [] (b :: rest)).1,
      Source.consume _ (stagePiece limit [] (b :: rest)).2) = _
    rw [hpiece]
    rfl
  · intro b rest events hb hfits
    -- The first turn takes the word, and the word is not empty.
    have hused : 0 < (stagePiece limit [] (b :: rest)).2 := by
      rw [stagePiece, if_neg (by simpa [TooLongAtHand] using hfits)]
      split <;> simp [hb]
    have hlater := (gathering limit).later_run_turn [] ⟨b :: rest, events⟩
    apply Nat.lt_of_le_of_lt hlater.unread_le
    exact Source.unread_consume (List.cons_ne_nil b rest) hused

theorem later_readSign (src : Source) : src.Later (readSign src).2 := by
  have hlater := peeking.later_run () src
  rw [readSign]
  cases hpeek : peeking.run () src with
  | mk found after =>
    rw [hpeek] at hlater
    rcases found with f | (_ | b)
    · exact hlater
    · exact hlater
    · dsimp only
      split
      · exact hlater.trans (after.later_consume 1)
      · exact hlater

@[simp] theorem concludeDigits_source (result : Except Failure (Int64 × Nat)) (after : Source) :
    (concludeDigits result after).2 = after := by
  cases result <;> rfl

theorem later_readNumber (src : Source) : src.Later (readNumber src).2 := by
  have hlater := later_readSign src
  rw [readNumber]
  cases hsign : readSign src with
  | mk found after =>
    rw [hsign] at hlater
    cases found with
    | error f => exact hlater
    | ok negative =>
      rw [concludeDigits_source]
      exact hlater.trans ((digits negative).later_run (0, 0) after)

/-- A digit at hand is taken, any other byte ends the digits. -/
theorem digits_turn (negative : Bool) (state : Int64 × Nat) (b : UInt8) (rest : Bytes)
    (events : List Event) :
    (digits negative).turn state ⟨b :: rest, events⟩ =
      if isDigit b then
        (.goesOn (Decimal.pushDigit negative state.1 b, state.2 + 1), ⟨rest, events⟩)
      else (.returns (.ok state), ⟨b :: rest, events⟩) := by
  simp only [digits, takeDigit, peeking_front]
  rfl

theorem readNumber_movesUnless :
    MovesUnless NoNumberAtHand (.error .expectedInteger) readNumber := by
  refine ⟨later_readNumber, ?_, ?_⟩
  · intro b rest events _ hidle
    obtain ⟨hplus, hminus, hdigit⟩ := hidle b rfl
    have hdigits : (digits false).run (0, 0) ⟨b :: rest, events⟩ =
        (.ok (0, 0), ⟨b :: rest, events⟩) := by
      apply Loop.run_of_returns
      rw [digits_turn, if_neg (by simp [hdigit])]
    rw [readNumber, readSign_front, if_neg (by simp [hplus, hminus])]
    dsimp only
    rw [hdigits]
    rfl
  · intro b rest events _ hnumber
    have hrest : (Source.unread ⟨rest, events⟩).length <
        (Source.unread ⟨b :: rest, events⟩).length := by
      simp [Source.unread_mk]
    rw [readNumber, readSign_front]
    by_cases hsign : b = plus ∨ b = minus
    · rw [if_pos hsign]
      dsimp only
      rw [concludeDigits_source]
      exact Nat.lt_of_le_of_lt ((digits (b = minus)).later_run _ _).unread_le hrest
    · have hdigit : isDigit b = true := by
        by_contra hne
        apply hnumber
        rintro x ⟨⟩
        exact ⟨fun h => hsign (.inl h), fun h => hsign (.inr h), Bool.eq_false_iff.mpr hne⟩
      rw [if_neg hsign]
      dsimp only
      rw [concludeDigits_source]
      have hlater := (digits false).later_run_turn (0, 0) ⟨b :: rest, events⟩
      rw [digits_turn, if_pos hdigit] at hlater
      exact Nat.lt_of_le_of_lt hlater.unread_le hrest

/-! ## Requests -/

/-- What a request makes of a source. Refused with the given refusal, it may have found
    something at hand that stays there. -/
structure Source.Moves {β : Type} (src : Source) (outcome : Except Refusal β) (after : Source)
    (refusal : Refusal) (Idle : Bytes → Prop) : Prop where
  leaves : src.Leaves after
  shortens : ∀ value, outcome = .ok value → after.unread.length < src.unread.length
  unchanged : after = src ↔
    (outcome = .error .unexpectedEnd ∧ src.piece = [] ∧ src.events = []) ∨
      (outcome = .error refusal ∧
        ∃ b rest, src.piece = b :: rest ∧ isWhitespace b = false ∧ Idle (b :: rest))

/-- A request moves a source if its outcome tells the refusals from what it gives. -/
theorem MovesUnless.source_moves {α β : Type} {atEnd refused : α} {atFailure : Failure → α}
    {go : Source → α × Source} {Idle : Bytes → Prop} {refusal : Refusal}
    (h : MovesUnless Idle refused go) (outcome : α → Except Refusal β)
    (hend : outcome atEnd = .error .unexpectedEnd)
    (hfailure : ∀ f, outcome (atFailure f) = .error (.device f))
    (hrefused : outcome refused = .error refusal) (src : Source) :
    src.Moves (outcome (afterSkipping atEnd atFailure go src).1)
      (afterSkipping atEnd atFailure go src).2 refusal Idle := by
  refine ⟨(h.later_afterSkipping src).leaves, ?_, ?_⟩
  · intro value hvalue
    apply h.unread_lt src
    · intro heq
      rw [heq, hend] at hvalue
      cases hvalue
    · intro f heq
      rw [heq, hfailure] at hvalue
      cases hvalue
    · intro heq
      rw [heq, hrefused] at hvalue
      cases hvalue
  · rw [h.unchanged_iff]
    constructor
    · rintro (rfl | ⟨b, rest, hpiece, hb, hidle⟩)
      · left
        rw [afterSkipping_empty]
        exact ⟨hend, rfl, rfl⟩
      · right
        refine ⟨?_, b, rest, hpiece, hb, hidle⟩
        obtain ⟨piece, events⟩ := src
        obtain rfl : piece = b :: rest := hpiece
        rw [afterSkipping_front rest events hb, h.idle events hb hidle]
        exact hrefused
    · rintro (⟨-, hpiece, hevents⟩ | ⟨-, hidle⟩)
      · left
        obtain ⟨piece, events⟩ := src
        obtain rfl : piece = [] := hpiece
        obtain rfl : events = [] := hevents
        rfl
      · exact .inr hidle

theorem readToken_moves (limit : Nat) (src : Source) :
    src.Moves (readToken limit src).1.1 (readToken limit src).2 (.tokenTooLong limit)
      (TooLongAtHand limit) :=
  (gathering_movesUnless limit).source_moves Prod.fst rfl (fun _ => rfl) rfl src

theorem readInteger_moves (src : Source) :
    src.Moves (readInteger src).1 (readInteger src).2 .expectedInteger NoNumberAtHand :=
  readNumber_movesUnless.source_moves id rfl (fun _ => rfl) rfl src

namespace Input

/-- Requests end and move on. The loops that skip whitespace, look at the next byte, stage a
    word and take digits end on every source: every turn after which they go on makes the
    unread bytes and the events to come fewer. The two requests are made of these loops. They
    leave the last of the events and of the bytes, fewer bytes than there were if they give a
    token or an integer, and the source just as it was in three cases only: nothing is left,
    the word at hand is longer than a token may be, or neither a sign nor a digit is at hand
    where an integer is asked for. -/
theorem requests_move (input : Input) (limit : Nat) :
    (∀ src, skipping.Finishes () src ∧ peeking.Finishes () src ∧
      (∀ staged, (gathering limit).Finishes staged src) ∧
      ∀ negative state, (digits negative).Finishes state src) ∧
    readToken limit input.source =
      (((input.token limit).1, (input.token limit).2.staging), (input.token limit).2.source) ∧
    readInteger input.source = (input.integer.1, input.integer.2.source) ∧
    input.source.Moves (input.token limit).1 (input.token limit).2.source
      (.tokenTooLong limit) (TooLongAtHand limit) ∧
    input.source.Moves input.integer.1 input.integer.2.source .expectedInteger NoNumberAtHand := by
  have htoken := readToken_eq limit input.source
  have hinteger := readInteger_eq input.source
  have hends : ∀ src, skipping.Finishes () src ∧ peeking.Finishes () src ∧
      (∀ staged, (gathering limit).Finishes staged src) ∧
      ∀ negative state, (digits negative).Finishes state src := fun src =>
    ⟨skipping.finishes () src, peeking.finishes () src, fun _ => (gathering limit).finishes _ src,
      fun negative _ => (digits negative).finishes _ src⟩
  refine ⟨hends, htoken.symm, hinteger.symm, ?_, ?_⟩
  · have hmoves := readToken_moves limit input.source
    rw [← htoken] at hmoves
    exact hmoves
  · have hmoves := readInteger_moves input.source
    rw [← hinteger] at hmoves
    exact hmoves

/-- Before the word `ab`, with an interruption, an end and an empty piece around it. -/
def interruptedWord : Input where
  source.events := [.failure (.ofKind .interrupted), .data [0x20, 0x61],
    .failure (.ofKind .interrupted), .data [0x62], .data [], .endOfInput]

/-- A word is at hand, and more is to come. -/
def wordAtHand : Input where
  source.piece := [0x61, 0x62]
  source.events := [.endOfInput, .failure (.ofKind .interrupted)]

theorem requests_move_interruptedWord_wordAtHand :
    (interruptedWord.token 2).1 = .ok () ∧
      (interruptedWord.token 2).2.source.unread.length < interruptedWord.source.unread.length ∧
      (wordAtHand.token 1).2.source = wordAtHand.source ∧
      wordAtHand.integer.2.source = wordAtHand.source ∧
      (wordAtHand.token 2).2.source ≠ wordAtHand.source ∧
      (({} : Input).token 2).2.source = {} := by
  have hword : (interruptedWord.token 2).1 = .ok () := by decide +kernel
  have hlong : (wordAtHand.token 1).1 = .error (.tokenTooLong 1) := by decide +kernel
  have hnumber : wordAtHand.integer.1 = .error .expectedInteger := by decide +kernel
  have hfits : (wordAtHand.token 2).1 = .ok () := by decide +kernel
  have hnone : (({} : Input).token 2).1 = .error .unexpectedEnd := by decide +kernel
  obtain ⟨-, -, -, hmoves, -⟩ := interruptedWord.requests_move 2
  obtain ⟨-, -, -, hstays, hstaysInteger⟩ := wordAtHand.requests_move 1
  obtain ⟨-, -, -, hleaves, -⟩ := wordAtHand.requests_move 2
  obtain ⟨-, -, -, hempty, -⟩ := ({} : Input).requests_move 2
  refine ⟨hword, hmoves.shortens () hword, ?_, ?_, ?_,
    hempty.unchanged.mpr (.inl ⟨hnone, rfl, rfl⟩)⟩
  · apply hstays.unchanged.mpr
    exact .inr ⟨hlong, 0x61, [0x62], rfl, by decide, by
      show 1 < (List.takeWhile (!isWhitespace ·) [0x61, 0x62]).length
      decide +kernel⟩
  · apply hstaysInteger.unchanged.mpr
    refine .inr ⟨hnumber, 0x61, [0x62], rfl, by decide, ?_⟩
    rintro b ⟨⟩
    decide
  · intro hsame
    rcases hleaves.unchanged.mp hsame with ⟨hend, -⟩ | ⟨hrefused, -⟩
    · rw [hfits] at hend
      cases hend
    · rw [hfits] at hrefused
      cases hrefused

end Input

end ProgramHost
