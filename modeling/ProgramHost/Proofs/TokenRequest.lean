/-
  ProgramHost.Proofs.TokenRequest

  What a token request does, on the stream of its source.

  `Signals.token` says it without pieces: the word behind the leading whitespace,
  if it fits. `Input.token_stream` says that every run gives that outcome, and
  leaves that rest of the stream unless the word does not fit. In that one case
  the rest depends on the pieces: those that still fitted have been staged.

  The invariant of a run is `TokenState.Saw`: the bytes fed so far are whitespace
  and then exactly the staged ones. `TokenState.feed_spec` is its step lemma.
-/

import ProgramHost.Input.Basic
import ProgramHost.Proofs.Exits

namespace ProgramHost

/-! ## The states of a run -/

namespace TokenState

/-- What a token request has been fed when it stands in a state: whitespace only,
    or whitespace and then the staged bytes, none of them whitespace, within the
    limit. -/
inductive Saw (limit : Nat) : Bytes → TokenState → Prop where
  | blank {ws : Bytes} (hws : ∀ b ∈ ws, isWhitespace b = true) : Saw limit ws .blank
  | inside {ws word : Bytes} (hws : ∀ b ∈ ws, isWhitespace b = true) (hne : word ≠ [])
      (hword : ∀ b ∈ word, (!isWhitespace b) = true) (hfits : word.length ≤ limit) :
      Saw limit (ws ++ word) (.inside word)

/-- How a token request settles inside a piece, by the bytes fed so far, that
    piece included, and the unread part of it. -/
inductive Settles (limit : Nat) : Bytes → TokenResult → Bytes → Prop where
  /-- The word is complete: whitespace stands behind it. -/
  | complete {ws word rest : Bytes} {b : UInt8} (hws : ∀ b ∈ ws, isWhitespace b = true)
      (hne : word ≠ []) (hword : ∀ b ∈ word, (!isWhitespace b) = true)
      (hfits : word.length ≤ limit) (hb : isWhitespace b = true) :
      Settles limit (ws ++ word ++ b :: rest) (.ok (), word) (b :: rest)
  /-- The word does not fit: with the bytes of it that stay unread it is longer
      than the limit. -/
  | tooLong {ws staged more rest : Bytes} (hws : ∀ b ∈ ws, isWhitespace b = true)
      (hstaged : ∀ b ∈ staged, (!isWhitespace b) = true) (hfits : staged.length ≤ limit)
      (hmore : ∀ b ∈ more, (!isWhitespace b) = true)
      (hlong : limit < staged.length + more.length) :
      Settles limit (ws ++ staged ++ (more ++ rest)) (.error (.tokenTooLong limit), staged)
        (more ++ rest)

/-- A piece inside a token keeps the invariant or settles the request. A token
    with nothing staged starts with the piece. -/
theorem extend_spec {limit : Nat} {ws staged piece : Bytes}
    (hws : ∀ b ∈ ws, isWhitespace b = true) (hstaged : ∀ b ∈ staged, (!isWhitespace b) = true)
    (hfits : staged.length ≤ limit)
    (hstart : staged = [] → ∃ c rest, piece = c :: rest ∧ isWhitespace c = false) :
    match extend limit staged piece with
    | .hungry s' => Saw limit (ws ++ staged ++ piece) s'
    | .settled result unread => Settles limit (ws ++ staged ++ piece) result unread := by
  rcases class_cases (!isWhitespace ·) piece with
    ⟨hall, htake, hdrop⟩ | ⟨run, b, rest, rfl, hrun, hb, htake, hdrop⟩
  · -- The piece lies inside the word.
    by_cases hlong : limit < staged.length + piece.length
    · simp only [extend, htake, if_pos hlong]
      have h : Settles limit (ws ++ staged ++ (piece ++ [])) _ _ :=
        .tooLong hws hstaged hfits hall hlong
      rwa [List.append_nil] at h
    · simp only [extend, htake, if_neg hlong, hdrop]
      rw [List.append_assoc]
      refine .inside hws ?_ (List.forall_mem_append.mpr ⟨hstaged, hall⟩) (by simpa using hlong)
      intro hnil
      obtain ⟨hs, hp⟩ := List.append_eq_nil_iff.mp hnil
      obtain ⟨c, rest, rfl, -⟩ := hstart hs
      cases hp
  · -- The word ends inside the piece.
    by_cases hlong : limit < staged.length + run.length
    · simp only [extend, htake, if_pos hlong]
      exact .tooLong hws hstaged hfits hrun hlong
    · simp only [extend, htake, if_neg hlong, hdrop]
      have hne : staged ++ run ≠ [] := by
        intro hnil
        obtain ⟨hs, rfl⟩ := List.append_eq_nil_iff.mp hnil
        obtain ⟨c, rest', heq, hc⟩ := hstart hs
        rw [List.nil_append, List.cons.injEq] at heq
        simp [heq.1, hc] at hb
      have h : Settles limit (ws ++ (staged ++ run) ++ b :: rest) _ _ :=
        .complete hws hne (List.forall_mem_append.mpr ⟨hstaged, hrun⟩) (by simpa using hlong)
          (by simpa using hb)
      simpa using h

/-- The step lemma: a piece keeps the invariant or settles the request. -/
theorem feed_spec {limit : Nat} {used : Bytes} {s : TokenState} (hs : Saw limit used s)
    (piece : Bytes) :
    match feed limit s piece with
    | .hungry s' => Saw limit (used ++ piece) s'
    | .settled result unread => Settles limit (used ++ piece) result unread := by
  cases hs with
  | inside hws hne hword hfits => exact extend_spec hws hword hfits fun h => absurd h hne
  | blank hws =>
    rcases class_cases isWhitespace piece with
      ⟨hall, -, hdrop⟩ | ⟨run, b, rest, rfl, hrun, hb, -, hdrop⟩
    · simp only [feed, hdrop]
      exact .blank (List.forall_mem_append.mpr ⟨hws, hall⟩)
    · simp only [feed, hdrop]
      have h := extend_spec (List.forall_mem_append.mpr ⟨hws, hrun⟩)
        (List.forall_mem_nil fun b => (!isWhitespace b) = true) (Nat.zero_le limit)
        fun _ => ⟨b, rest, rfl, hb⟩
      simpa using h

/-- The invariant holds of every state that a run passes through. -/
theorem saw_of_passes {limit : Nat} {bs : Bytes} {s : TokenState}
    (h : (tokenReader limit).Passes .blank bs s) : Saw limit bs s := by
  have hblank : Saw limit [] .blank := .blank (by simp)
  refine h.invariant (fun {used s piece s'} hs hfeed => ?_) hblank
  have hspec := feed_spec hs piece
  change feed limit s piece = .hungry s' at hfeed
  rwa [hfeed] at hspec

/-- A run settles in the way that the bytes fed to it say. -/
theorem settles_of_passes {limit : Nat} {bs piece unread : Bytes} {s : TokenState}
    {result : TokenResult} (h : (tokenReader limit).Passes .blank bs s)
    (hfeed : (tokenReader limit).feed s piece = .settled result unread) :
    Settles limit (bs ++ piece) result unread := by
  have hspec := feed_spec (saw_of_passes h) piece
  change feed limit s piece = .settled result unread at hfeed
  rwa [hfeed] at hspec

end TokenState

/-! ## The request on a stream -/

namespace Signals

/-- The outcome of a token request and the stream that it leaves. When the word
    does not fit, what is left depends on the pieces, and the stream given here
    is the one behind the whitespace. -/
def token (limit : Nat) (stream : List Signal) : Except Refusal Bytes × List Signal :=
  let text := dropBytes isWhitespace stream
  let word := takeBytes (!isWhitespace ·) text
  if word = [] then conclude (.error .unexpectedEnd) text
  else if limit < word.length then (.error (.tokenTooLong limit), text)
  else conclude (.ok word) (dropBytes (!isWhitespace ·) text)

section

variable {limit : Nat} {ws word : Bytes} {rest : List Signal}

/-- Behind whitespace stands the word. -/
theorem dropBytes_whitespace (hws : ∀ b ∈ ws, isWhitespace b = true) (hne : word ≠ [])
    (hword : ∀ b ∈ word, (!isWhitespace b) = true) (rest : List Signal) :
    dropBytes isWhitespace ((ws ++ word).map .byte ++ rest) = word.map .byte ++ rest := by
  rw [List.map_append, List.append_assoc]
  obtain ⟨b, word, rfl⟩ := List.exists_cons_of_ne_nil hne
  have hb : isWhitespace b = false := by simpa using hword b (by simp)
  exact dropBytes_append_of_stops hws (stops_of_front_byte rfl hb)

theorem token_blank (hws : ∀ b ∈ ws, isWhitespace b = true)
    (hrest : ∀ b, front rest ≠ .byte b) :
    token limit (ws.map .byte ++ rest) = conclude (.error .unexpectedEnd) rest := by
  have htext : dropBytes isWhitespace (ws.map .byte ++ rest) = rest :=
    dropBytes_append_of_stops hws (stops_of_front_ne _ hrest)
  simp only [token, htext, takeBytes_of_stops (stops_of_front_ne _ hrest), if_pos]

theorem token_word (hws : ∀ b ∈ ws, isWhitespace b = true) (hne : word ≠ [])
    (hword : ∀ b ∈ word, (!isWhitespace b) = true) (hfits : word.length ≤ limit)
    (hrest : Stops (!isWhitespace ·) rest) :
    token limit ((ws ++ word).map .byte ++ rest) = conclude (.ok word) rest := by
  have htext := dropBytes_whitespace hws hne hword rest
  simp only [token, htext, takeBytes_append_of_stops hword hrest,
    dropBytes_append_of_stops hword hrest, if_neg hne, if_neg (Nat.not_lt.mpr hfits)]

/-- A word that starts with more bytes than the limit is refused, whatever
    follows. -/
theorem token_tooLong (hws : ∀ b ∈ ws, isWhitespace b = true)
    (hword : ∀ b ∈ word, (!isWhitespace b) = true) (hlong : limit < word.length)
    (rest : List Signal) :
    (token limit ((ws ++ word).map .byte ++ rest)).1 = .error (.tokenTooLong limit) := by
  have hne : word ≠ [] := fun h => by simp [h] at hlong
  have htext := dropBytes_whitespace hws hne hword rest
  have hlong' : limit < (word ++ takeBytes (!isWhitespace ·) rest).length := by
    rw [List.length_append]
    omega
  have hne' : word ++ takeBytes (!isWhitespace ·) rest ≠ [] :=
    List.append_ne_nil_of_left_ne_nil hne _
  simp only [token, htext, takeBytes_append hword, if_neg hne', if_pos hlong']

/-- How a token request can end: at the end of leading whitespace, behind a word
    that fits, or with a word that does not fit. -/
theorem token_cases (limit : Nat) (stream : List Signal) :
    ∃ (ws word : Bytes) (rest : List Signal), stream = (ws ++ word).map .byte ++ rest ∧
      (∀ b ∈ ws, isWhitespace b = true) ∧ (∀ b ∈ word, (!isWhitespace b) = true) ∧
      Stops (!isWhitespace ·) rest ∧
      (word = [] ∧ (∀ b, front rest ≠ .byte b) ∧
          token limit stream = conclude (.error .unexpectedEnd) rest ∨
        word ≠ [] ∧ word.length ≤ limit ∧ token limit stream = conclude (.ok word) rest ∨
        limit < word.length ∧ (token limit stream).1 = .error (.tokenTooLong limit)) := by
  obtain ⟨ws, text, rfl, hws, htext⟩ := exists_run isWhitespace stream
  obtain ⟨word, rest, rfl, hword, hrest⟩ := exists_run (!isWhitespace ·) text
  have hsplit : ws.map Signal.byte ++ (word.map .byte ++ rest) =
      (ws ++ word).map .byte ++ rest := by
    rw [List.map_append, List.append_assoc]
  rw [hsplit]
  refine ⟨ws, word, rest, rfl, hws, hword, hrest, ?_⟩
  by_cases hne : word = []
  · -- A byte behind the whitespace would belong to the word.
    subst hne
    have hfront (b : UInt8) : front rest ≠ .byte b := by
      intro hb
      have hblank := hrest b hb
      simp [htext b hb] at hblank
    rw [List.append_nil]
    exact .inl ⟨rfl, hfront, token_blank hws hfront⟩
  · by_cases hfits : word.length ≤ limit
    · exact .inr (.inl ⟨hne, hfits, token_word hws hne hword hfits hrest⟩)
    · have hlong := Nat.lt_of_not_le hfits
      exact .inr (.inr ⟨hlong, token_tooLong hws hword hlong rest⟩)

end

end Signals

/-! ## Runs -/

/-- A result of a token request agrees with a stream: the outcome is the one that
    the stream says and, if the word fits, so is the rest. -/
def TokenResult.Agrees (limit : Nat) (stream : List Signal) (result : TokenResult)
    (rest : List Signal) : Prop :=
  (result.1.map fun _ => result.2) = (Signals.token limit stream).1 ∧
    (result.1 ≠ .error (.tokenTooLong limit) → rest = (Signals.token limit stream).2)

namespace TokenState

variable {limit : Nat} {fed : Bytes} {rest : List Signal}

theorem Settles.agrees {result : TokenResult} {unread : Bytes}
    (h : Settles limit fed result unread) (rest : List Signal) :
    result.Agrees limit (fed.map .byte ++ rest) (unread.map .byte ++ rest) := by
  cases h with
  | @complete ws word more b hws hne hword hfits hb =>
    have hstop : Signals.Stops (!isWhitespace ·) ((b :: more).map .byte ++ rest) :=
      Signals.stops_of_front_byte rfl (by simp [hb])
    have htoken := Signals.token_word hws hne hword hfits hstop
    rw [Signals.conclude_byte (b := b) (by simp)] at htoken
    rw [List.map_append, List.append_assoc, TokenResult.Agrees, htoken]
    exact ⟨rfl, fun _ => rfl⟩
  | @tooLong ws staged more after hws hstaged hfits hmore hlong =>
    have hword := List.forall_mem_append.mpr ⟨hstaged, hmore⟩
    have htoken := Signals.token_tooLong hws hword (by rwa [List.length_append])
      (after.map .byte ++ rest)
    have hstream : (ws ++ staged ++ (more ++ after)).map Signal.byte ++ rest =
        (ws ++ (staged ++ more)).map .byte ++ (after.map .byte ++ rest) := by simp
    rw [TokenResult.Agrees, hstream, htoken]
    exact ⟨rfl, fun h => absurd rfl h⟩

/-- At an end of input the bytes fed so far decide. -/
theorem Saw.agrees_atEnd {s : TokenState} (h : Saw limit fed s)
    (hfront : Signals.front rest = .endOfInput) :
    TokenResult.Agrees limit (fed.map .byte ++ rest) (atEnd s) rest.tail := by
  cases h with
  | blank hws =>
    rw [TokenResult.Agrees, Signals.token_blank hws (by simp [hfront]), Signals.conclude_end hfront]
    exact ⟨rfl, fun _ => rfl⟩
  | inside hws hne hword hfits =>
    have hstop : Signals.Stops (!isWhitespace ·) rest :=
      Signals.stops_of_front_ne _ (by simp [hfront])
    rw [TokenResult.Agrees, Signals.token_word hws hne hword hfits hstop,
      Signals.conclude_end hfront]
    exact ⟨rfl, fun _ => rfl⟩

/-- At a failure the request is refused with it. -/
theorem Saw.agrees_atFailure {s : TokenState} (h : Saw limit fed s) {f : Failure}
    (hfront : Signals.front rest = .failure f) :
    TokenResult.Agrees limit (fed.map .byte ++ rest) (atFailure s f) rest.tail := by
  cases h with
  | blank hws =>
    rw [TokenResult.Agrees, Signals.token_blank hws (by simp [hfront]),
      Signals.conclude_failure hfront]
    exact ⟨rfl, fun _ => rfl⟩
  | inside hws hne hword hfits =>
    have hstop : Signals.Stops (!isWhitespace ·) rest :=
      Signals.stops_of_front_ne _ (by simp [hfront])
    rw [TokenResult.Agrees, Signals.token_word hws hne hword hfits hstop,
      Signals.conclude_failure hfront]
    exact ⟨rfl, fun _ => rfl⟩

end TokenState

/-- Every exit of a token request agrees with the stream. -/
theorem token_of_ends {limit : Nat} {stream rest : List Signal} {result : TokenResult}
    (h : (tokenReader limit).Ends .blank stream result rest) :
    result.Agrees limit stream rest := by
  cases h with
  | @settled t bs piece unread result rest passed hfeed =>
    exact (TokenState.settles_of_passes passed hfeed).agrees rest
  | ended passed hfront => exact (TokenState.saw_of_passes passed).agrees_atEnd hfront
  | failed passed hfront => exact (TokenState.saw_of_passes passed).agrees_atFailure hfront

namespace Input

/-- A token request gives what the stream says, whatever the pieces and whatever
    was staged before. -/
theorem token_stream (input : Input) (limit : Nat) :
    TokenResult.Agrees limit input.source.stream
      ((input.token limit).1, (input.token limit).2.staging)
      (input.token limit).2.source.stream :=
  token_of_ends ((tokenReader limit).run_ends .blank input.source)

end Input

end ProgramHost
