/-
  ProgramHost.Proofs.TokenOutcome

  The law of a token request, case by case.

  A stream is cut into its leading whitespace, the word behind that and the rest
  (`Signals.WordCut`), both runs as long as they can be. The word and the front of
  the rest decide the request (`Input.TokenFate`): what it gives, what it stages,
  and, unless the word is too long, what it leaves. Neither the pieces nor what was
  staged before play a part.
-/

import ProgramHost.Proofs.ReadAgreement

namespace ProgramHost

/-! ## The cut -/

namespace Signals

/-- A stream is whitespace, a word and a rest, where neither run can be longer. -/
structure WordCut (stream : List Signal) (ws word : Bytes) (rest : List Signal) : Prop where
  stream_eq : stream = ws.map .byte ++ (word.map .byte ++ rest)
  blank : ∀ b ∈ ws, isWhitespace b = true
  blank_stops : Stops isWhitespace (word.map .byte ++ rest)
  solid : ∀ b ∈ word, (!isWhitespace b) = true
  solid_stops : Stops (!isWhitespace ·) rest

/-- Every stream has a cut. -/
theorem exists_wordCut (stream : List Signal) : ∃ ws word rest, WordCut stream ws word rest := by
  obtain ⟨ws, text, rfl, hws, htext⟩ := exists_run isWhitespace stream
  obtain ⟨word, rest, rfl, hword, hrest⟩ := exists_run (!isWhitespace ·) text
  exact ⟨ws, word, rest, rfl, hws, htext, hword, hrest⟩

/-- The word at the front of a stream. -/
def word (stream : List Signal) : Bytes :=
  takeBytes (!isWhitespace ·) (dropBytes isWhitespace stream)

theorem Alike.word_eq {xs ys : List Signal} (h : Alike xs ys) : word xs = word ys :=
  (h.dropBytes isWhitespace).takeBytes_eq _

namespace WordCut

variable {stream rest : List Signal} {ws word : Bytes} {limit : Nat}

theorem text_eq (h : WordCut stream ws word rest) :
    dropBytes isWhitespace stream = word.map .byte ++ rest := by
  rw [h.stream_eq]
  exact dropBytes_append_of_stops h.blank h.blank_stops

theorem word_eq (h : WordCut stream ws word rest) : Signals.word stream = word := by
  rw [Signals.word, h.text_eq]
  exact takeBytes_append_of_stops h.solid h.solid_stops

/-- Without a word no byte follows the whitespace. -/
theorem front_ne_byte (h : WordCut stream ws [] rest) (b : UInt8) : front rest ≠ .byte b := by
  intro hb
  have hblank : isWhitespace b = false := h.blank_stops b hb
  have hsolid := h.solid_stops b hb
  simp [hblank] at hsolid

theorem token_tooLong (h : WordCut stream ws word rest) (hlong : limit < word.length) :
    (token limit stream).1 = .error (.tokenTooLong limit) := by
  rw [h.stream_eq, ← List.append_assoc, ← List.map_append]
  exact Signals.token_tooLong h.blank h.solid hlong rest

/-- What a request comes to when the word fits. -/
theorem token_fits (h : WordCut stream ws word rest) (hfits : word.length ≤ limit) :
    token limit stream =
      conclude (if word = [] then .error .unexpectedEnd else .ok word) rest := by
  by_cases hnone : word = []
  · subst hnone
    rw [if_pos rfl, h.stream_eq]
    exact token_blank h.blank h.front_ne_byte
  · rw [if_neg hnone, h.stream_eq, ← List.append_assoc, ← List.map_append]
    exact token_word h.blank hnone h.solid hfits h.solid_stops

end WordCut

end Signals

/-! ## What is staged -/

namespace TokenState

variable {limit : Nat} {fed : Bytes} {rest : List Signal}

/-- Where no byte follows, the staged bytes are the word. -/
theorem Saw.word_eq {s : TokenState} (h : Saw limit fed s)
    (hrest : ∀ b, Signals.front rest ≠ .byte b) :
    Signals.word (fed.map .byte ++ rest) = s.staged := by
  have hstop := Signals.stops_of_front_ne (!isWhitespace ·) hrest
  cases h with
  | blank hws =>
    rw [Signals.word, Signals.dropBytes_append_of_stops hws (Signals.stops_of_front_ne _ hrest)]
    exact Signals.takeBytes_of_stops hstop
  | inside hws hne hword hfits =>
    rw [Signals.word, Signals.dropBytes_whitespace hws hne hword]
    exact Signals.takeBytes_append_of_stops hword hstop

/-- A request that settles with a word has staged it. -/
theorem Settles.word_eq {result : TokenResult} {unread : Bytes}
    (h : Settles limit fed result unread) (hfits : result.1 ≠ .error (.tokenTooLong limit))
    (rest : List Signal) : Signals.word (fed.map .byte ++ rest) = result.2 := by
  cases h with
  | @complete ws word more b hws hne hword hlimit hb =>
    have hstop : Signals.Stops (!isWhitespace ·) ((b :: more).map .byte ++ rest) :=
      Signals.stops_of_front_byte rfl (by simp [hb])
    rw [List.map_append, List.append_assoc, Signals.word,
      Signals.dropBytes_whitespace hws hne hword]
    exact Signals.takeBytes_append_of_stops hword hstop
  | tooLong => exact absurd rfl hfits

end TokenState

/-- Unless the word is too long, a request ends with all of it staged. -/
theorem staged_of_ends {limit : Nat} {stream rest : List Signal} {result : TokenResult}
    (h : (tokenReader limit).Ends .blank stream result rest)
    (hfits : result.1 ≠ .error (.tokenTooLong limit)) : result.2 = Signals.word stream := by
  cases h with
  | @settled t bs piece unread result rest passed hfeed =>
    exact ((TokenState.settles_of_passes passed hfeed).word_eq hfits rest).symm
  | @ended t bs rest passed hfront =>
    rw [(TokenState.saw_of_passes passed).word_eq (by simp [hfront])]
    cases t <;> rfl
  | failed passed hfront =>
    rw [(TokenState.saw_of_passes passed).word_eq (by simp [hfront])]
    rfl

/-! ## The law -/

namespace Input

theorem staging_token (input : Input) {limit : Nat}
    (hfits : (input.token limit).1 ≠ .error (.tokenTooLong limit)) :
    (input.token limit).2.staging = Signals.word input.source.stream :=
  staged_of_ends ((tokenReader limit).run_ends .blank input.source) hfits

/-- What becomes of a token request, by the word that stands next and the rest
    behind it: the outcome, what is staged, and what is left of the stream. -/
inductive TokenFate (limit : Nat) : Bytes → List Signal → Except Refusal Unit → Input → Prop where
  /-- The input ends before a word; the end is taken. -/
  | noWord {rest : List Signal} {after : Input} (hfront : Signals.front rest = .endOfInput)
      (hstaging : after.staging = []) (hleft : Signals.Alike after.source.stream rest.tail) :
      TokenFate limit [] rest (.error .unexpectedEnd) after
  /-- The word does not fit, whatever follows it. -/
  | tooLong {word : Bytes} {rest : List Signal} {after : Input} (hlong : limit < word.length) :
      TokenFate limit word rest (.error (.tokenTooLong limit)) after
  /-- The input fails before a word, or behind a word that fits; the failure is
      taken. -/
  | failed {word : Bytes} {rest : List Signal} {after : Input} {f : Failure}
      (hfits : word.length ≤ limit) (hfront : Signals.front rest = .failure f)
      (hstaging : after.staging = word) (hleft : Signals.Alike after.source.stream rest.tail) :
      TokenFate limit word rest (.error (.device f)) after
  /-- The input ends behind a word that fits; the end is taken. -/
  | ended {word : Bytes} {rest : List Signal} {after : Input} (hne : word ≠ [])
      (hfits : word.length ≤ limit) (hfront : Signals.front rest = .endOfInput)
      (hstaging : after.staging = word) (hleft : Signals.Alike after.source.stream rest.tail) :
      TokenFate limit word rest (.ok ()) after
  /-- Whitespace stands behind a word that fits; it stays. -/
  | delimited {word : Bytes} {rest : List Signal} {after : Input} {b : UInt8} (hne : word ≠ [])
      (hfits : word.length ≤ limit) (hfront : Signals.front rest = .byte b)
      (hb : isWhitespace b = true) (hstaging : after.staging = word)
      (hleft : Signals.Alike after.source.stream rest) :
      TokenFate limit word rest (.ok ()) after

/-- A request follows every stream that is alike to that of its source. -/
theorem token_follows {input : Input} {stream : List Signal} (limit : Nat)
    (h : Signals.Alike input.source.stream stream) :
    ((input.token limit).1.map fun _ => (input.token limit).2.staging) =
        (Signals.token limit stream).1 ∧
      ((input.token limit).1 ≠ .error (.tokenTooLong limit) →
        Signals.Alike (input.token limit).2.source.stream (Signals.token limit stream).2) := by
  obtain ⟨houtcome, hrest⟩ := input.token_stream limit
  obtain ⟨hsame, halike⟩ := h.token limit
  refine ⟨houtcome.trans hsame, fun hfits => ?_⟩
  rw [hrest hfits]
  exact halike

theorem outcome_of_error {outcome : Except Refusal Unit} {staging : Bytes} {e : Refusal}
    (h : (outcome.map fun _ => staging) = .error e) : outcome = .error e := by
  cases outcome with
  | ok _ => cases h
  | error e' =>
    cases h
    rfl

theorem outcome_of_ok {outcome : Except Refusal Unit} {staging word : Bytes}
    (h : (outcome.map fun _ => staging) = .ok word) : outcome = .ok () := by
  cases outcome with
  | ok _ => rfl
  | error e => cases h

/-- The cut of a stream that a source amounts to says what becomes of a request. -/
theorem token_fate {input : Input} {stream rest : List Signal} {ws word : Bytes} (limit : Nat)
    (hstream : Signals.Alike input.source.stream stream)
    (hcut : Signals.WordCut stream ws word rest) :
    TokenFate limit word rest (input.token limit).1 (input.token limit).2 := by
  obtain ⟨houtcome, hleft⟩ := token_follows limit hstream
  have hstaging (hfits : (input.token limit).1 ≠ .error (.tokenTooLong limit)) :
      (input.token limit).2.staging = word := by
    rw [input.staging_token hfits, hstream.word_eq, hcut.word_eq]
  generalize input.token limit = result at *
  obtain ⟨outcome, after⟩ := result
  by_cases hlong : limit < word.length
  · rw [hcut.token_tooLong hlong] at houtcome
    obtain rfl := outcome_of_error houtcome
    exact .tooLong hlong
  · have hfits := Nat.le_of_not_lt hlong
    rw [hcut.token_fits hfits] at houtcome hleft
    cases hfront : Signals.front rest with
    | failure f =>
      rw [Signals.conclude_failure hfront] at houtcome hleft
      obtain rfl := outcome_of_error houtcome
      exact .failed hfits hfront (hstaging (by simp)) (hleft (by simp))
    | endOfInput =>
      rw [Signals.conclude_end hfront] at houtcome hleft
      split at houtcome
      · next hnone =>
        subst hnone
        obtain rfl := outcome_of_error houtcome
        exact .noWord hfront (hstaging (by simp)) (hleft (by simp))
      · next hne =>
        obtain rfl := outcome_of_ok houtcome
        exact .ended hne hfits hfront (hstaging (by simp)) (hleft (by simp))
    | byte b =>
      have hne : word ≠ [] := by
        rintro rfl
        exact hcut.front_ne_byte b hfront
      have hb : isWhitespace b = true := by simpa using hcut.solid_stops b hfront
      rw [Signals.conclude_byte hfront] at houtcome hleft
      rw [if_neg hne] at houtcome
      obtain rfl := outcome_of_ok houtcome
      exact .delimited hne hfits hfront hb (hstaging (by simp)) (hleft (by simp))

/-- A token request is decided by the stream. Every stream has a cut into
    whitespace, a word and a rest, and whichever stream the source of an input
    amounts to, its cut says what becomes of the request, whatever the limit, the
    pieces, the interruptions and the bytes that were staged before. -/
theorem token_decided (input : Input) (limit : Nat) {stream : List Signal}
    (hstream : Signals.Alike input.source.stream stream) :
    (∃ ws word rest, Signals.WordCut stream ws word rest) ∧
      ∀ ws word rest, Signals.WordCut stream ws word rest →
        TokenFate limit word rest (input.token limit).1 (input.token limit).2 :=
  ⟨Signals.exists_wordCut stream, fun _ _ _ hcut => token_fate limit hstream hcut⟩

/-- A blank, the word `ab` cut into two pieces with an interruption in between, and
    a failure. -/
def failsBehindWord : Input where
  source.piece := [0x20, 0x61]
  source.events := [.failure (.ofKind .interrupted), .data [0x62], .failure (.ofKind .brokenPipe)]
  staging := [0x78]

theorem wordCut_failsBehindWord :
    Signals.WordCut failsBehindWord.source.stream [0x20] [0x61, 0x62]
      [.failure (.ofKind .brokenPipe)] where
  stream_eq := rfl
  blank := by decide +kernel
  blank_stops := by
    rintro b ⟨⟩
    rfl
  solid := by decide +kernel
  solid_stops := by rintro b ⟨⟩

theorem token_decided_failsBehindWord :
    Signals.WordCut failsBehindWord.source.stream [0x20] [0x61, 0x62]
        [.failure (.ofKind .brokenPipe)] ∧
      TokenFate 1 [0x61, 0x62] [.failure (.ofKind .brokenPipe)] (.error (.tokenTooLong 1))
        (failsBehindWord.token 1).2 ∧
      TokenFate 2 [0x61, 0x62] [.failure (.ofKind .brokenPipe)]
        (.error (.device (.ofKind .brokenPipe))) (failsBehindWord.token 2).2 := by
  have hfate (limit : Nat) :=
    (failsBehindWord.token_decided limit fun _ => rfl).2 _ _ _ wordCut_failsBehindWord
  exact ⟨wordCut_failsBehindWord, hfate 1, hfate 2⟩

end Input

end ProgramHost
