/-
  ProgramHost.Proofs.RequestLoops

  The loops of the two requests.

  A token request skips whitespace and stages a word; an integer request skips whitespace,
  looks for a sign and takes digits one at a time. `readToken_eq` and `readInteger_eq` say
  that these loops do what the two readers do piece by piece.
-/

import ProgramHost.Proofs.ReadingLoops

namespace ProgramHost

/-! ## The loops of the two requests -/

/-- Skips the whitespace of a piece; any other byte ends the skipping. -/
def skipPiece (piece : Bytes) : Turn Unit (Except Failure Bool) × Nat :=
  match piece.dropWhile isWhitespace with
  | [] => (.goesOn (), piece.length)
  | _ :: _ => (.returns (.ok true), (piece.takeWhile isWhitespace).length)

/-- Looks at the first byte of a piece. -/
def peekPiece (piece : Bytes) : Turn Unit (Except Failure (Option UInt8)) × Nat :=
  (.returns (.ok piece.head?), 0)

/-- Stages the part of a piece that belongs to the token. -/
def stagePiece (limit : Nat) (staged piece : Bytes) : Turn Bytes TokenResult × Nat :=
  let word := piece.takeWhile (!isWhitespace ·)
  if limit < staged.length + word.length then
    (.returns (.error (.tokenTooLong limit), staged), 0)
  else
    match piece.dropWhile (!isWhitespace ·) with
    | [] => (.goesOn (staged ++ word), word.length)
    | _ :: _ => (.returns (.ok (), staged ++ word), word.length)

theorem skipPiece_takes {u : Unit} {piece : Bytes} {count : Nat} (hpiece : piece ≠ [])
    (h : skipPiece piece = (.goesOn u, count)) : 0 < count := by
  rw [skipPiece] at h
  split at h
  · cases h
    exact List.length_pos_iff.mpr hpiece
  · cases h

theorem peekPiece_takes {u : Unit} {piece : Bytes} {count : Nat} (_ : piece ≠ [])
    (h : peekPiece piece = (.goesOn u, count)) : 0 < count := by
  cases h

theorem stagePiece_takes {limit : Nat} {staged staged' piece : Bytes} {count : Nat}
    (hpiece : piece ≠ []) (h : stagePiece limit staged piece = (.goesOn staged', count)) :
    0 < count := by
  simp only [stagePiece] at h
  split at h
  · cases h
  · split at h
    · next hdrop =>
      cases h
      -- Nothing is left of the piece, so all of it was taken.
      have hword : piece.takeWhile (!isWhitespace ·) = piece := by
        have hsplit := List.takeWhile_append_dropWhile (p := (!isWhitespace ·)) (l := piece)
        rwa [hdrop, List.append_nil] at hsplit
      rw [hword]
      exact List.length_pos_iff.mpr hpiece
    · cases h

/-- Skips whitespace; tells whether anything else is there. -/
def skipping : Loop Unit (Except Failure Bool) :=
  .asking (fun _ => .ok false) (fun _ f => .error f) (fun _ => skipPiece) skipPiece_takes

/-- Looks at the next byte and uses none. -/
def peeking : Loop Unit (Except Failure (Option UInt8)) :=
  .asking (fun _ => .ok none) (fun _ f => .error f) (fun _ => peekPiece) peekPiece_takes

/-- Stages the bytes up to the next whitespace or end. -/
def gathering (limit : Nat) : Loop Bytes TokenResult :=
  .asking (fun staged => (.ok (), staged)) (fun staged f => (.error (.device f), staged))
    (stagePiece limit) stagePiece_takes

/-- Behind skipped whitespace another byte is at hand. -/
theorem skipping_returns {src after : Source} (h : skipping.run () src = (.ok true, after)) :
    ∃ b rest events, after = ⟨b :: rest, events⟩ ∧ isWhitespace b = false := by
  obtain ⟨_, hend | ⟨f, hfailed⟩ | ⟨b, bs, events, used, hpiece, rfl⟩⟩ :=
    Loop.run_ask_returns rfl h
  · cases hend
  · cases hfailed
  · simp only [skipPiece] at hpiece
    rcases class_cases isWhitespace (b :: bs) with ⟨-, -, hdrop⟩ |
      ⟨run, x, rest, hsplit, -, hx, htake, hdrop⟩
    · rw [hdrop] at hpiece
      cases hpiece
    · rw [hdrop, htake] at hpiece
      cases hpiece
      exact ⟨x, rest, events, by rw [hsplit, List.drop_left], hx⟩

/-- A byte that was seen is at hand. -/
theorem peeking_returns {src after : Source} {b : UInt8}
    (h : peeking.run () src = (.ok (some b), after)) :
    ∃ rest events, after = ⟨b :: rest, events⟩ := by
  obtain ⟨_, hend | ⟨f, hfailed⟩ | ⟨x, xs, events, used, hpiece, rfl⟩⟩ :=
    Loop.run_ask_returns rfl h
  · cases hend
  · cases hfailed
  · cases hpiece
    exact ⟨xs, events, rfl⟩

/-- Takes one more digit. -/
def takeDigit (negative : Bool) (state : Int64 × Nat) (src : Source) :
    Turn (Int64 × Nat) (Except Failure (Int64 × Nat)) × Source :=
  match peeking.run () src with
  | (.error f, after) => (.returns (.error f), after)
  | (.ok none, after) => (.returns (.ok state), after)
  | (.ok (some b), after) =>
    if isDigit b then
      (.goesOn (Decimal.pushDigit negative state.1 b, state.2 + 1), after.consume 1)
    else (.returns (.ok state), after)

theorem later_takeDigit (negative : Bool) (state : Int64 × Nat) (src : Source) :
    src.Later (takeDigit negative state src).2 := by
  have hlater := peeking.later_run () src
  rw [takeDigit]
  cases hpeek : peeking.run () src with
  | mk found after =>
    rw [hpeek] at hlater
    rcases found with f | (_ | b)
    · exact hlater
    · exact hlater
    · dsimp only
      split
      · exact hlater.trans (after.later_consume 1)
      · exact hlater

theorem weight_takeDigit {negative : Bool} {state state' : Int64 × Nat} {src after : Source}
    (h : takeDigit negative state src = (.goesOn state', after)) : after.weight < src.weight := by
  have hlater := peeking.later_run () src
  rw [takeDigit] at h
  cases hpeek : peeking.run () src with
  | mk found mid =>
    rw [hpeek] at hlater h
    rcases found with f | (_ | b)
    · cases h
    · cases h
    · obtain ⟨rest, events, rfl⟩ := peeking_returns hpeek
      dsimp only at h
      split at h
      · cases h
        apply Nat.lt_of_lt_of_le _ hlater.weight_le
        exact Source.weight_consume (List.cons_ne_nil b rest) Nat.one_pos
      · cases h

/-- Takes digits as long as they come; gives the value and how many there were. -/
def digits (negative : Bool) : Loop (Int64 × Nat) (Except Failure (Int64 × Nat)) where
  turn := takeDigit negative
  later := later_takeDigit negative
  decreases := weight_takeDigit

/-- A request that skips whitespace and then reads on. -/
def afterSkipping {α : Type} (atEnd : α) (atFailure : Failure → α) (go : Source → α × Source)
    (src : Source) : α × Source :=
  match skipping.run () src with
  | (.error f, after) => (atFailure f, after)
  | (.ok false, after) => (atEnd, after)
  | (.ok true, after) => go after

/-- A token request as loops: whitespace is skipped, then the word is staged. -/
def readToken (limit : Nat) : Source → TokenResult × Source :=
  afterSkipping (.error .unexpectedEnd, []) (fun f => (.error (.device f), []))
    ((gathering limit).run [])

/-- The sign of an integer, if one is there, and the source behind it. -/
def readSign (src : Source) : Except Failure Bool × Source :=
  match peeking.run () src with
  | (.error f, after) => (.error f, after)
  | (.ok none, after) => (.ok false, after)
  | (.ok (some b), after) =>
    if b = plus ∨ b = minus then (.ok (b = minus), after.consume 1) else (.ok false, after)

/-- The result of an integer request behind its digits. -/
def concludeDigits : Except Failure (Int64 × Nat) → Source → IntegerResult × Source
  | .error f, after => (.error (.device f), after)
  | .ok (value, count), after =>
    (if count = 0 then .error .expectedInteger else .ok value, after)

/-- A sign, if one is there, and digits one at a time. -/
def readNumber (src : Source) : IntegerResult × Source :=
  match readSign src with
  | (.error f, after) => (.error (.device f), after)
  | (.ok negative, behind) =>
    concludeDigits ((digits negative).run (0, 0) behind).1 ((digits negative).run (0, 0) behind).2

/-- An integer request as loops: whitespace is skipped, then a number is read. -/
def readInteger : Source → IntegerResult × Source :=
  afterSkipping (.error .unexpectedEnd) (fun f => .error (.device f)) readNumber

/-! ## The loops do what the readers do -/

namespace Consumer

variable {σ α : Type}

/-- How a run goes on when it is known whether there is anything to read. -/
def resume (c : Consumer σ α) (s : σ) : Except Failure Bool → Source → α × Source
  | .error f, after => (c.atFailure s f, after)
  | .ok false, after => (c.atEnd s, after)
  | .ok true, after => c.run s after

/-- Looking at the next byte changes nothing about a run. -/
theorem run_eq_peeking (c : Consumer σ α) (s : σ) (src : Source) :
    c.run s src =
      c.resume s (Except.map Option.isSome (peeking.run () src).1) (peeking.run () src).2 :=
  c.run_eq_asking (fun _ => s) (fun found => c.resume s (Except.map Option.isSome found)) rfl
    (fun _ _ => rfl) (fun _ _ _ => rfl) (fun _ _ _ _ => rfl) () src

/-- In this state a consumer skips whitespace. -/
structure Skips (c : Consumer σ α) (s : σ) : Prop where
  blank : ∀ {piece : Bytes}, piece.dropWhile isWhitespace = [] → c.feed s piece = .hungry s
  leading : ∀ {run rest : Bytes} {b : UInt8}, (∀ x ∈ run, isWhitespace x = true) →
    isWhitespace b = false → c.feed s (run ++ b :: rest) = c.feed s (b :: rest)

/-- Skipping whitespace first changes nothing about a run that skips it anyway. -/
theorem Skips.run_eq_skipping {c : Consumer σ α} {s : σ} (h : c.Skips s) (src : Source) :
    c.run s src = c.resume s (skipping.run () src).1 (skipping.run () src).2 := by
  refine c.run_eq_asking (fun _ => s) (c.resume s) rfl (fun _ _ => rfl) (fun _ _ _ => rfl) ?_ () src
  intro _ b bs events
  simp only [skipPiece]
  rcases class_cases isWhitespace (b :: bs) with ⟨-, -, hdrop⟩ |
    ⟨run, x, rest, hsplit, hrun, hx, htake, hdrop⟩
  · rw [run_piece _ _ (List.cons_ne_nil b bs), h.blank hdrop, hdrop]
    dsimp only
    rw [List.drop_length]
    rfl
  · rw [hdrop, htake]
    dsimp only [Turn.followed, resume]
    rw [hsplit, List.drop_left, run_piece _ _ (by simp), h.leading hrun hx,
      run_piece _ _ (List.cons_ne_nil x rest)]

end Consumer

theorem dropWhile_front {rest : Bytes} {b : UInt8} (hb : isWhitespace b = false) :
    (b :: rest).dropWhile isWhitespace = b :: rest :=
  List.dropWhile_cons_of_neg (by simp [hb])

theorem dropWhile_isWhitespace {run rest : Bytes} {b : UInt8}
    (hrun : ∀ x ∈ run, isWhitespace x = true) (hb : isWhitespace b = false) :
    (run ++ b :: rest).dropWhile isWhitespace = b :: rest := by
  rw [List.dropWhile_append_of_pos hrun, dropWhile_front hb]

theorem tokenReader_skips (limit : Nat) : (tokenReader limit).Skips .blank := by
  constructor
  · intro piece hdrop
    simp only [tokenReader, TokenState.feed, hdrop]
  · intro run rest b hrun hb
    simp only [tokenReader, TokenState.feed, dropWhile_isWhitespace hrun hb, dropWhile_front hb]

theorem integerReader_skips : integerReader.Skips .blank := by
  constructor
  · intro piece hdrop
    simp only [integerReader, IntegerState.feed, hdrop]
  · intro run rest b hrun hb
    simp only [integerReader, IntegerState.feed, dropWhile_isWhitespace hrun hb, dropWhile_front hb]

theorem gathering_eq (limit : Nat) (staged : Bytes) (src : Source) :
    (tokenReader limit).run (.inside staged) src = (gathering limit).run staged src := by
  refine (tokenReader limit).run_eq_asking TokenState.inside Prod.mk rfl (fun _ _ => rfl)
    (fun _ _ _ => rfl) ?_ staged src
  intro staged b bs events
  rw [Consumer.run_piece _ _ (List.cons_ne_nil b bs)]
  by_cases hlong : limit < staged.length + ((b :: bs).takeWhile (!isWhitespace ·)).length
  · simp only [tokenReader, TokenState.feed, TokenState.extend, stagePiece, if_pos hlong,
      List.drop_zero, Consumer.proceed, Turn.followed]
  · simp only [tokenReader, TokenState.feed, TokenState.extend, stagePiece, if_neg hlong]
    rcases class_cases (!isWhitespace ·) (b :: bs) with ⟨-, htake, hdrop⟩ |
      ⟨run, x, rest, hsplit, -, -, htake, hdrop⟩
    · rw [hdrop, htake]
      dsimp only
      rw [List.drop_length]
      rfl
    · rw [hdrop, htake]
      dsimp only
      rw [hsplit, List.drop_left]
      rfl

/-- A run that skips whitespace is a request that does so first, if the two agree where
    something else is at hand. -/
theorem Consumer.Skips.run_eq_afterSkipping {σ α : Type} {c : Consumer σ α} {s : σ}
    (h : c.Skips s) {go : Source → α × Source}
    (hgo : ∀ {b rest} events, isWhitespace b = false →
      c.run s ⟨b :: rest, events⟩ = go ⟨b :: rest, events⟩) (src : Source) :
    c.run s src = afterSkipping (c.atEnd s) (c.atFailure s) go src := by
  rw [h.run_eq_skipping, afterSkipping]
  cases hskip : skipping.run () src with
  | mk found after =>
    rcases found with f | (_ | _)
    · rfl
    · rfl
    · obtain ⟨b, rest, events, rfl, hb⟩ := skipping_returns hskip
      exact hgo events hb

/-- A token request is its loops. -/
theorem readToken_eq (limit : Nat) (src : Source) :
    (tokenReader limit).run .blank src = readToken limit src := by
  apply (tokenReader_skips limit).run_eq_afterSkipping
  intro b rest events hb
  -- What is at hand starts the word.
  rw [← gathering_eq, Consumer.run_piece _ _ (List.cons_ne_nil b rest),
    Consumer.run_piece _ _ (List.cons_ne_nil b rest)]
  simp only [tokenReader, TokenState.feed, dropWhile_front hb]

section

variable {negative started : Bool} {word : Int64} {b : UInt8} {rest : Bytes} {events : List Event}

/-- Behind the sign a run goes on with what is left of the piece, be it empty or not. -/
theorem run_extend (negative started : Bool) (word : Int64) (rest : Bytes) (events : List Event) :
    integerReader.proceed events (IntegerState.extend negative word started rest) =
      integerReader.run (.inside negative word started) ⟨rest, events⟩ := by
  cases rest with
  | nil => simp [IntegerState.extend, Consumer.proceed]
  | cons b rest =>
    rw [Consumer.run_piece _ _ (List.cons_ne_nil b rest)]
    rfl

theorem run_digit (h : isDigit b = true) :
    integerReader.run (.inside negative word started) ⟨b :: rest, events⟩ =
      integerReader.run (.inside negative (Decimal.pushDigit negative word b) true)
        ⟨rest, events⟩ := by
  rw [← run_extend, ← run_extend]
  simp [IntegerState.extend, h]

theorem run_other (h : isDigit b = false) :
    integerReader.run (.inside negative word started) ⟨b :: rest, events⟩ =
      (IntegerState.conclude word started, ⟨b :: rest, events⟩) := by
  rw [← run_extend]
  simp [IntegerState.extend, Consumer.proceed, h]

end

theorem conclude_count (value : Int64) (count : Nat) :
    IntegerState.conclude value (count ≠ 0) =
      if count = 0 then .error .expectedInteger else .ok value := by
  by_cases h : count = 0
  · simp [IntegerState.conclude, h]
  · simp [IntegerState.conclude, h]

theorem digits_eq (negative : Bool) (state : Int64 × Nat) (src : Source) :
    integerReader.run (.inside negative state.1 (state.2 ≠ 0)) src =
      concludeDigits ((digits negative).run state src).1 ((digits negative).run state src).2 := by
  -- One turn of the loop looks at the next byte, which tells how the run goes on.
  refine Loop.run_followed
    (f := fun state src => integerReader.run (.inside negative state.1 (state.2 ≠ 0)) src)
    (fun state src => ?_) state src
  obtain ⟨value, count⟩ := state
  rw [Consumer.run_eq_peeking]
  simp only [digits, takeDigit]
  cases hpeek : peeking.run () src with
  | mk found after =>
    rcases found with f | (_ | b)
    · rfl
    · show (IntegerState.conclude value (count ≠ 0), after) = _
      rw [conclude_count]
      rfl
    · obtain ⟨rest, events, rfl⟩ := peeking_returns hpeek
      show integerReader.run (.inside negative value (count ≠ 0)) ⟨b :: rest, events⟩ = _
      by_cases hb : isDigit b = true
      · simp [run_digit hb, hb, Source.consume, Turn.followed]
      · have hother : isDigit b = false := Bool.eq_false_iff.mpr hb
        rw [run_other hother, conclude_count]
        simp only [hother, Bool.false_eq_true, if_false]
        rfl

theorem peeking_front (b : UInt8) (rest : Bytes) (events : List Event) :
    peeking.run () ⟨b :: rest, events⟩ = (.ok (some b), ⟨b :: rest, events⟩) :=
  Loop.run_of_returns rfl

/-- The sign is told by the byte at hand. -/
theorem readSign_front (b : UInt8) (rest : Bytes) (events : List Event) :
    readSign ⟨b :: rest, events⟩ =
      if b = plus ∨ b = minus then (.ok (b = minus), ⟨rest, events⟩)
      else (.ok false, ⟨b :: rest, events⟩) := by
  rw [readSign, peeking_front]
  rfl

/-- An integer request is its loops. -/
theorem readInteger_eq (src : Source) : integerReader.run .blank src = readInteger src := by
  apply integerReader_skips.run_eq_afterSkipping
  intro b rest events hb
  rw [readNumber, readSign_front, Consumer.run_piece _ _ (List.cons_ne_nil b rest)]
  simp only [integerReader, IntegerState.feed, dropWhile_front hb]
  by_cases hsign : b = plus ∨ b = minus
  · rw [if_pos hsign, if_pos hsign]
    dsimp only
    rw [← digits_eq]
    exact run_extend _ _ _ _ _
  · rw [if_neg hsign, if_neg hsign]
    dsimp only
    rw [← digits_eq]
    exact run_extend _ _ _ _ _

end ProgramHost
