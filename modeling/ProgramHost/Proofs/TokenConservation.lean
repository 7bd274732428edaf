/-
  ProgramHost.Proofs.TokenConservation

  No byte is lost by a token request, whatever its outcome.

  At each of the exits of a request (`Consumer.Ends`), what was taken from the stream
  is whitespace, the staged bytes and at most one signal that is no byte
  (`TokenResult.Conserves`). Where a word was refused as too long, the pieces of it
  that fitted are staged and the others are left, so the next request starts inside
  the same word: it stages the rest of it, and succeeds unless the input fails right
  behind (`Input.token_resumes`).
-/

import ProgramHost.Proofs.TokenOutcome

namespace ProgramHost

/-! ## What is taken from the stream -/

namespace TokenResult

/-- How a token request stops, by its outcome: the signal that it takes behind the
    staged bytes, if any, and the stream that it leaves. -/
inductive Stops (limit : Nat) : Except Refusal Unit → List Signal → List Signal → Prop where
  /-- At whitespace behind the word, which stays. -/
  | delimited {left : List Signal} {b : UInt8} (hfront : Signals.front left = .byte b)
      (hb : isWhitespace b = true) : Stops limit (.ok ()) [] left
  /-- At an end of input behind the word. -/
  | ended {left : List Signal} : Stops limit (.ok ()) [.endOfInput] left
  /-- At an end of input before a word. -/
  | noWord {left : List Signal} : Stops limit (.error .unexpectedEnd) [.endOfInput] left
  /-- At a failure. -/
  | failed {left : List Signal} {f : Failure} : Stops limit (.error (.device f)) [.failure f] left
  /-- Inside a word that does not fit; the next byte of it stays. -/
  | tooLong {left : List Signal} {b : UInt8} (hfront : Signals.front left = .byte b)
      (hb : isWhitespace b = false) : Stops limit (.error (.tokenTooLong limit)) [] left

/-- A request takes from a stream whitespace, the bytes that it stages and the signal
    at which it stops, and leaves the rest. -/
def Conserves (limit : Nat) (stream : List Signal) (result : TokenResult) (left : List Signal) :
    Prop :=
  ∃ (ws : Bytes) (met : List Signal),
    Signals.Alike stream (ws.map .byte ++ (result.2.map .byte ++ (met ++ left))) ∧
      (∀ b ∈ ws, isWhitespace b = true) ∧ (∀ b ∈ result.2, isWhitespace b = false) ∧
      result.2.length ≤ limit ∧ Stops limit result.1 met left

end TokenResult

theorem solid_iff {bs : Bytes} :
    (∀ b ∈ bs, (!isWhitespace b) = true) ↔ ∀ b ∈ bs, isWhitespace b = false := by
  simp

namespace TokenState

variable {limit : Nat} {fed : Bytes} {s : TokenState}

/-- The bytes fed to a request are whitespace and the staged ones. -/
theorem Saw.parts (h : Saw limit fed s) :
    ∃ ws, fed = ws ++ s.staged ∧ (∀ b ∈ ws, isWhitespace b = true) ∧
      (∀ b ∈ s.staged, isWhitespace b = false) ∧ s.staged.length ≤ limit := by
  cases h with
  | blank hws => exact ⟨fed, by simp [staged], hws, by simp [staged], by simp [staged]⟩
  | @inside ws word hws hne hword hfits => exact ⟨ws, rfl, hws, solid_iff.mp hword, hfits⟩

/-- A request that stops at a signal behind the bytes fed to it conserves the
    stream. -/
theorem Saw.conserves (h : Saw limit fed s) {outcome : Except Refusal Unit} {rest : List Signal}
    (hstops : TokenResult.Stops limit outcome [Signals.front rest] rest.tail) :
    TokenResult.Conserves limit (fed.map .byte ++ rest) (outcome, s.staged) rest.tail := by
  obtain ⟨ws, rfl, hws, hsolid, hfits⟩ := h.parts
  refine ⟨ws, [Signals.front rest], ?_, hws, hsolid, hfits, hstops⟩
  rw [List.map_append, List.append_assoc]
  exact ((Signals.Alike.front_tail rest).append_left _).append_left _

theorem Settles.conserves {result : TokenResult} {unread : Bytes}
    (h : Settles limit fed result unread) (rest : List Signal) :
    result.Conserves limit (fed.map .byte ++ rest) (unread.map .byte ++ rest) := by
  cases h with
  | @complete ws word more b hws hne hword hfits hb =>
    refine ⟨ws, [], ?_, hws, solid_iff.mp hword, hfits, .delimited rfl hb⟩
    simpa using Signals.Alike.refl _
  | @tooLong ws staged more after hws hstaged hfits hmore hlong =>
    -- The staged bytes fit, so some byte of the word is left.
    obtain ⟨b, more, rfl⟩ : ∃ b rest, more = b :: rest :=
      List.exists_cons_of_length_pos (by omega)
    have hb : isWhitespace b = false := solid_iff.mp hmore b (by simp)
    refine ⟨ws, [], ?_, hws, solid_iff.mp hstaged, hfits, .tooLong rfl hb⟩
    simpa using Signals.Alike.refl _

end TokenState

/-- Every exit of a token request conserves the stream. -/
theorem conserves_of_ends {limit : Nat} {stream left : List Signal} {result : TokenResult}
    (h : (tokenReader limit).Ends .blank stream result left) :
    result.Conserves limit stream left := by
  cases h with
  | @settled t bs piece unread result rest passed hfeed =>
    exact (TokenState.settles_of_passes passed hfeed).conserves rest
  | @ended t bs rest passed hfront =>
    have hsaw := TokenState.saw_of_passes passed
    cases t with
    | blank => exact hsaw.conserves (by rw [hfront]; exact .noWord)
    | inside staged => exact hsaw.conserves (by rw [hfront]; exact .ended)
  | @failed t bs f rest passed hfront =>
    exact (TokenState.saw_of_passes passed).conserves (by rw [hfront]; exact .failed)

/-! ## Inside a word -/

namespace Input

theorem token_conserves (input : Input) (limit : Nat) :
    TokenResult.Conserves limit input.source.stream
      ((input.token limit).1, (input.token limit).2.staging)
      (input.token limit).2.source.stream :=
  conserves_of_ends ((tokenReader limit).run_ends .blank input.source)

/-- What a request makes of a word that fits and has no whitespace before it. -/
theorem token_of_word {input : Input} {word : Bytes} {rest : List Signal} {limit : Nat}
    (hcut : Signals.WordCut input.source.stream [] word rest) (hne : word ≠ [])
    (hfits : word.length ≤ limit) :
    (input.token limit).2.staging = word ∧
      (∀ f, Signals.front rest = .failure f → (input.token limit).1 = .error (.device f)) ∧
      ((∀ f, Signals.front rest ≠ .failure f) → (input.token limit).1 = .ok ()) := by
  have hfate := token_fate limit (Signals.Alike.refl _) hcut
  generalize input.token limit = result at *
  obtain ⟨outcome, after⟩ := result
  cases hfate with
  | noWord => exact absurd rfl hne
  | tooLong hlong => omega
  | failed _ hfront hstaging =>
    refine ⟨hstaging, fun f hf => ?_, fun hnone => absurd hfront (hnone _)⟩
    rw [hfront, Signal.failure.injEq] at hf
    rw [hf]
  | ended _ _ hfront hstaging => exact ⟨hstaging, by simp [hfront], fun _ => rfl⟩
  | delimited _ _ hfront _ hstaging => exact ⟨hstaging, by simp [hfront], fun _ => rfl⟩

/-- Behind a request that was refused as too long stands the rest of the word. -/
theorem token_resumes {input : Input} {limit : Nat}
    (hlong : (input.token limit).1 = .error (.tokenTooLong limit)) :
    ∃ more rest, more ≠ [] ∧
      Signals.WordCut (input.token limit).2.source.stream [] more rest ∧
      Signals.word input.source.stream = (input.token limit).2.staging ++ more := by
  obtain ⟨ws, met, halike, hws, hsolid, -, hstops⟩ := input.token_conserves limit
  generalize input.token limit = result at *
  obtain ⟨outcome, after⟩ := result
  dsimp only at hlong halike hsolid hstops ⊢
  rw [hlong] at hstops
  cases hstops with
  | @tooLong left b hfront hb =>
    obtain ⟨more, rest, hleft, hmore, hrest⟩ :=
      Signals.exists_run (!isWhitespace ·) after.source.stream
    have hblank : Signals.Stops isWhitespace after.source.stream :=
      Signals.stops_of_front_byte hfront hb
    have hne : more ≠ [] := by
      rintro rfl
      have hstop := hrest b (by rw [← hfront, hleft]; rfl)
      simp [hb] at hstop
    refine ⟨more, rest, hne, ⟨by simpa using hleft, by simp, by simpa [← hleft] using hblank,
      hmore, hrest⟩, ?_⟩
    -- With the staged bytes before it, the run is the word of the whole stream.
    have hword : ∀ b ∈ after.staging ++ more, (!isWhitespace b) = true :=
      List.forall_mem_append.mpr ⟨solid_iff.mpr hsolid, hmore⟩
    have hstream : ws.map Signal.byte ++ (after.staging.map .byte ++ ([] ++ after.source.stream)) =
        (ws ++ (after.staging ++ more)).map .byte ++ rest := by simp [hleft]
    rw [halike.word_eq, hstream, Signals.word,
      Signals.dropBytes_whitespace hws (by simp [hne]) hword]
    exact Signals.takeBytes_append_of_stops hword hrest

/-- No byte is lost by a token request. Whatever the pieces, the limit and the bytes
    staged before, the stream is whitespace, the staged bytes, the end or the failure
    that the request met, if any, and the stream that is left. After a word that was
    too long nothing but its staged beginning is taken: a request with room for the
    rest of it stages exactly that, and is refused only if a failure follows. -/
theorem token_loses_nothing (input : Input) (limit : Nat) :
    TokenResult.Conserves limit input.source.stream
        ((input.token limit).1, (input.token limit).2.staging)
        (input.token limit).2.source.stream ∧
      ((input.token limit).1 = .error (.tokenTooLong limit) →
        ∃ more rest, more ≠ [] ∧
          Signals.WordCut (input.token limit).2.source.stream [] more rest ∧
          Signals.word input.source.stream = (input.token limit).2.staging ++ more ∧
          ∀ larger, more.length ≤ larger →
            ((input.token limit).2.token larger).2.staging = more ∧
              (∀ f, Signals.front rest = .failure f →
                ((input.token limit).2.token larger).1 = .error (.device f)) ∧
              ((∀ f, Signals.front rest ≠ .failure f) →
                ((input.token limit).2.token larger).1 = .ok ())) := by
  refine ⟨input.token_conserves limit, fun hlong => ?_⟩
  obtain ⟨more, rest, hne, hcut, hword⟩ := token_resumes hlong
  exact ⟨more, rest, hne, hcut, hword, fun larger hfits => token_of_word hcut hne hfits⟩

/-- The word `abcd` and a blank, cut in the middle of the word and interrupted. -/
def cutInWord : Input where
  source.events := [.data [0x20, 0x61, 0x62], .failure (.ofKind .interrupted),
    .data [0x63, 0x64, 0x20]]

theorem token_loses_nothing_cutInWord :
    (cutInWord.token 3).1 = .error (.tokenTooLong 3) ∧
      (cutInWord.token 3).2.staging = [0x61, 0x62] ∧
      ∃ more rest, Signals.word cutInWord.source.stream = [0x61, 0x62] ++ more ∧
        Signals.WordCut (cutInWord.token 3).2.source.stream [] more rest ∧
        ((cutInWord.token 3).2.token more.length).2.staging = more := by
  have hlong : (cutInWord.token 3).1 = .error (.tokenTooLong 3) := rfl
  obtain ⟨more, rest, -, hcut, hword, hresumed⟩ := (cutInWord.token_loses_nothing 3).2 hlong
  exact ⟨hlong, rfl, more, rest, hword, hcut, (hresumed more.length (Nat.le_refl _)).1⟩

/-- The word `abc`, and a failure right behind it. -/
def failsAfterWord : Input where
  source.events := [.data [0x61, 0x62, 0x63], .failure (.ofKind .brokenPipe)]

/-- Behind a word that was too long, no limit makes a request succeed when the input
    fails at the end of the word. -/
theorem no_limit_returns_rest :
    (failsAfterWord.token 2).1 = .error (.tokenTooLong 2) ∧
      ∀ larger, ((failsAfterWord.token 2).2.token larger).1 ≠ .ok () := by
  refine ⟨rfl, fun larger hok => ?_⟩
  have hcut : Signals.WordCut (failsAfterWord.token 2).2.source.stream [] [0x61, 0x62, 0x63]
      [.failure (.ofKind .brokenPipe)] := by
    refine ⟨rfl, by simp, ?_, by decide +kernel, by rintro b ⟨⟩⟩
    rintro b ⟨⟩
    rfl
  have hfate := token_fate larger (Signals.Alike.refl _) hcut
  rw [hok] at hfate
  cases hfate with
  | ended _ _ hfront => cases hfront
  | delimited _ _ hfront => cases hfront

end Input

end ProgramHost
