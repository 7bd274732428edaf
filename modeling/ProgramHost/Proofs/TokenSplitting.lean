/-
  ProgramHost.Proofs.TokenSplitting

  Reading tokens to the end is splitting at whitespace.

  Input without failures is a sequence of segments with an end between each two
  of them (`Signals.joined`). `words` splits a segment at every whitespace byte,
  and `splitting` lists what token requests give on a sequence of segments: the
  words of each, and an end of input behind a segment whose last word does not
  reach its end. `Signals.token_joined` is the step: one request gives the first
  of these outcomes and leaves segments that give the others.
  `Session.tokens_split_segments` is the induction over any number of requests.
-/

import ProgramHost.Proofs.ReadAgreement
import ProgramHost.Proofs.Segments

namespace ProgramHost

/-! ## Words -/

/-- The words of a byte string: what splitting at every whitespace byte leaves,
    without the empty parts. -/
def words (bs : Bytes) : List Bytes := (bs.splitOnP isWhitespace).filter (· ≠ [])

theorem words_cons_of_isWhitespace {b : UInt8} (hb : isWhitespace b = true) (bs : Bytes) :
    words (b :: bs) = words bs := by
  rw [words, List.splitOnP_cons_eq_if_modifyHead, if_pos hb]
  simp [words]

/-- Leading whitespace adds no word. -/
theorem words_append_of_isWhitespace {ws : Bytes} (hws : ∀ b ∈ ws, isWhitespace b = true)
    (bs : Bytes) : words (ws ++ bs) = words bs := by
  induction ws with
  | nil => rfl
  | cons b ws ih =>
    rw [List.forall_mem_cons] at hws
    rw [List.cons_append, words_cons_of_isWhitespace hws.1, ih hws.2]

theorem words_nil : words [] = [] := rfl

/-- The first word is the first of the words, and those behind it are the
    others. -/
theorem words_of_firstWord {bs : Bytes} (h : firstWord bs ≠ []) :
    words bs = firstWord bs :: words (behindWord bs) := by
  obtain ⟨ws, hws, hbs⟩ := word_cut bs
  have hword : ∀ b ∈ firstWord bs, isWhitespace b = false := fun b hb =>
    not_isWhitespace_of_mem_firstWord hb
  have hcut := words_append_of_isWhitespace hws (firstWord bs ++ behindWord bs)
  rw [← hbs] at hcut
  rw [hcut]
  cases hbehind : behindWord bs with
  | nil =>
    rw [List.append_nil, words, List.splitOnP_eq_singleton hword, words_nil]
    simp [h]
  | cons b rest =>
    have hb := behindWord_eq_cons hbehind
    rw [words, List.splitOnP_append_cons_of_forall_mem hword b hb, words_cons_of_isWhitespace hb]
    simp [words, h]

theorem words_eq_nil {bs : Bytes} (h : firstWord bs = []) : words bs = [] := by
  rw [← List.append_nil bs,
    words_append_of_isWhitespace (forall_isWhitespace_of_firstWord h).1, words_nil]

/-- No word is empty. -/
theorem ne_nil_of_mem_words {bs word : Bytes} (h : word ∈ words bs) : word ≠ [] := by
  simpa using (List.mem_filter.mp h).2

/-- The words hold every byte that is no whitespace, once and in order. -/
theorem flatten_words (bs : Bytes) : (words bs).flatten = bs.filter (!isWhitespace ·) := by
  rw [words, List.flatten_filter_ne_nil]
  induction bs with
  | nil => rfl
  | cons b bs ih =>
    rw [List.splitOnP_cons_eq_if_modifyHead]
    obtain ⟨part, parts, hparts⟩ :=
      List.exists_cons_of_ne_nil (List.splitOnP_ne_nil isWhitespace bs)
    rw [hparts] at ih ⊢
    cases hb : isWhitespace b with
    | true => simpa [hb] using ih
    | false => simpa [hb] using ih

/-! ## What token requests give -/

/-- The last word of a segment does not reach its end: the segment is empty or
    ends in whitespace. -/
def endsBlank (segment : Bytes) : Bool := segment.getLast?.all isWhitespace

/-- What token requests give on one segment: its words, and an end of input if the
    last of them has not taken it. -/
def segmentOutcomes (segment : Bytes) : List (Except Refusal Bytes) :=
  (words segment).map .ok ++ if endsBlank segment then [.error .unexpectedEnd] else []

/-- What token requests give on segments, one after another. -/
def splitting (segments : List Bytes) : List (Except Refusal Bytes) :=
  segments.flatMap segmentOutcomes

theorem endsBlank_of_firstWord {bs : Bytes} (h : firstWord bs = []) : endsBlank bs = true := by
  rw [endsBlank, Option.all_eq_true]
  intro b hb
  exact (forall_isWhitespace_of_firstWord h).1 b (List.mem_of_getLast? hb)

/-- What stands behind the first word decides how a segment ends. -/
theorem endsBlank_of_behindWord {bs : Bytes} (h : firstWord bs ≠ []) :
    endsBlank bs = (!(behindWord bs).isEmpty && endsBlank (behindWord bs)) := by
  obtain ⟨ws, -, hbs⟩ := word_cut bs
  cases hbehind : behindWord bs with
  | nil =>
    rw [hbehind, List.append_nil] at hbs
    obtain ⟨b, hlast⟩ := Option.isSome_iff_exists.mp (List.getLast?_isSome.mpr h)
    have hb := not_isWhitespace_of_mem_firstWord (List.mem_of_getLast? hlast)
    rw [endsBlank, hbs, List.getLast?_append, hlast]
    simp [hb]
  | cons b rest =>
    rw [hbehind, ← List.append_assoc] at hbs
    obtain ⟨c, hlast⟩ := Option.isSome_iff_exists.mp (List.getLast?_isSome.mpr
      (List.cons_ne_nil b rest))
    rw [endsBlank, hbs, List.getLast?_append, hlast]
    simp [endsBlank, hlast]

theorem segmentOutcomes_blank {bs : Bytes} (h : firstWord bs = []) :
    segmentOutcomes bs = [.error .unexpectedEnd] := by
  simp [segmentOutcomes, words_eq_nil h, endsBlank_of_firstWord h]

theorem segmentOutcomes_word {bs : Bytes} (h : firstWord bs ≠ []) :
    segmentOutcomes bs =
      .ok (firstWord bs) ::
        if behindWord bs = [] then [] else segmentOutcomes (behindWord bs) := by
  rw [segmentOutcomes, words_of_firstWord h, endsBlank_of_behindWord h]
  by_cases hbehind : behindWord bs = []
  · simp [hbehind, words_nil]
  · simp [hbehind, segmentOutcomes]

/-- The words of the segments are what succeeds. -/
theorem ok_mem_splitting {segments : List Bytes} {word : Bytes} :
    .ok word ∈ splitting segments ↔ ∃ segment ∈ segments, word ∈ words segment := by
  simp [splitting, segmentOutcomes]

/-- What token requests give on segments is never a refused length. -/
theorem isTooLong_of_mem_splitting {segments : List Bytes} {outcome : Except Refusal Bytes}
    (h : outcome ∈ splitting segments) : (Reading.token outcome).isTooLong = false := by
  obtain ⟨segment, -, hmem⟩ := List.mem_flatMap.mp h
  rw [segmentOutcomes, List.mem_append] at hmem
  rcases hmem with hword | hend
  · obtain ⟨word, -, rfl⟩ := List.mem_map.mp hword
    rfl
  · split at hend
    · rw [List.mem_singleton] at hend
      rw [hend]
      rfl
    · cases hend

/-! ## The step -/

namespace Signals

/-- Segments of bytes with an end of input between each two of them. -/
def joined (segments : List Bytes) : List Signal :=
  [Signal.endOfInput].intercalate (segments.map fun segment => segment.map .byte)

/-- Behind the first segment stands an end, and behind that the other segments. -/
theorem joined_cons (segments : List Bytes) :
    ∃ rest, front rest = .endOfInput ∧ rest.tail = joined segments ∧
      ∀ segment : Bytes, joined (segment :: segments) = segment.map .byte ++ rest := by
  cases segments with
  | nil => exact ⟨[], rfl, rfl, fun segment => by simp [joined]⟩
  | cons next segments =>
    refine ⟨.endOfInput :: joined (next :: segments), rfl, rfl, fun segment => ?_⟩
    simp [joined, List.intercalate_cons_cons]

/-- The step lemma: a token request on segments gives the first outcome of their
    splitting, and leaves segments whose splitting is the rest. -/
theorem token_joined {limit : Nat} {segments : List Bytes}
    (hfits : ∀ word, .ok word ∈ splitting segments → word.length ≤ limit) :
    ∃ left, token limit (joined segments) =
        ((splitting segments).headD (.error .unexpectedEnd), joined left) ∧
      splitting left = (splitting segments).tail := by
  cases segments with
  | nil => exact ⟨[], rfl, rfl⟩
  | cons segment segments =>
    obtain ⟨rest, hfront, htail, hjoined⟩ := joined_cons segments
    have hsplit : splitting (segment :: segments) =
        segmentOutcomes segment ++ splitting segments := rfl
    by_cases hnone : firstWord segment = []
    · -- Nothing but whitespace: the end of the segment is taken.
      have hbehind := (forall_isWhitespace_of_firstWord hnone).2
      rw [hsplit, segmentOutcomes_blank hnone, hjoined, token_segment hfront (by simp [hnone]),
        if_pos hnone, hbehind, afterSegment, if_pos rfl, htail]
      exact ⟨segments, rfl, rfl⟩
    · have hword := segmentOutcomes_word hnone
      have hlen : (firstWord segment).length ≤ limit := hfits _ (by simp [hsplit, hword])
      rw [hjoined, token_segment hfront hlen, if_neg hnone, hsplit, hword, afterSegment]
      by_cases hbehind : behindWord segment = []
      · -- The word reaches the end of the segment and takes it.
        rw [if_pos hbehind, if_pos hbehind, htail]
        exact ⟨segments, rfl, rfl⟩
      · rw [if_neg hbehind, if_neg hbehind, ← hjoined]
        exact ⟨behindWord segment :: segments, rfl, rfl⟩

end Signals

/-! ## Runs -/

namespace Session

/-- A token request in a session before segments. -/
theorem step_token_joined {session : Session} {segments : List Bytes} {limit : Nat}
    (hstream : Signals.Alike session.stream (Signals.joined segments))
    (hfits : ∀ word, .ok word ∈ splitting segments → word.length ≤ limit) :
    ∃ reply after left, session.step (ReadCall.token limit).step = some (reply, after) ∧
      reply.reading? = some (.token ((splitting segments).headD (.error .unexpectedEnd))) ∧
      Signals.Alike after.stream (Signals.joined left) ∧
      splitting left = (splitting segments).tail := by
  obtain ⟨left, htoken, hleft⟩ := Signals.token_joined hfits
  obtain ⟨houtcome, halike⟩ := hstream.token limit
  rw [htoken] at houtcome halike
  have hreading : (session.expected (.token limit)).1 =
      .token ((splitting segments).headD (.error .unexpectedEnd)) := congrArg Reading.token houtcome
  have hfit : (session.expected (.token limit)).1.isTooLong = false := by
    rw [hreading]
    cases hsplit : splitting segments with
    | nil => rfl
    | cons outcome rest =>
      have hmem : outcome ∈ splitting segments := by simp [hsplit]
      exact isTooLong_of_mem_splitting hmem
  obtain ⟨-, hcall, -⟩ | ⟨-, reply, after, hstep, hanswered⟩ := session.step_read (.token limit)
  · cases hcall
  · refine ⟨reply, after, left, hstep, by rw [hanswered.reading, hreading], ?_, hleft⟩
    rw [hanswered.stream hfit]
    exact halike

/-- The run lemma: token requests before segments give the outcomes of their
    splitting one by one, and then ends of input. -/
theorem replies_joined {session : Session} {segments : List Bytes} {limits : List Nat}
    (hstream : Signals.Alike session.stream (Signals.joined segments))
    (hfits : ∀ limit ∈ limits, ∀ word, .ok word ∈ splitting segments → word.length ≤ limit) :
    (session.replies (limits.map .token)).map Reply.reading? =
      (List.range limits.length).map fun n =>
        some (.token ((splitting segments).getD n (.error .unexpectedEnd))) := by
  induction limits generalizing session segments with
  | nil => rfl
  | cons limit limits ih =>
    rw [List.forall_mem_cons] at hfits
    obtain ⟨reply, after, left, hstep, hreading, hafter, hleft⟩ :=
      step_token_joined hstream hfits.1
    have hrest := ih hafter fun limit hlimit word hword =>
      hfits.2 limit hlimit word (List.mem_of_mem_tail (hleft ▸ hword))
    have hhead : (splitting segments).headD (.error .unexpectedEnd) =
        (splitting segments).getD 0 (.error .unexpectedEnd) := by
      cases splitting segments <;> rfl
    -- What is left gives the outcomes behind the first one.
    have hshift (n : Nat) : (splitting left).getD n (.error .unexpectedEnd) =
        (splitting segments).getD (n + 1) (.error .unexpectedEnd) := by
      rw [hleft, List.getD_eq_getElem?_getD, List.getD_eq_getElem?_getD, List.getElem?_tail]
    rw [List.map_cons, replies_of_some hstep, List.map_cons, hreading, hrest, List.length_cons,
      List.range_succ_eq_map, List.map_cons, List.map_map, hhead]
    refine congrArg (List.cons _) (List.map_congr_left ?_)
    intro n _
    rw [hshift n]
    rfl

/-- Token requests on input without failures split it at whitespace. The input is
    any sequence of segments with an end between each two, in any pieces; no word is
    longer than the limit of a request. Then the requests give, segment by segment
    and in order, the words of the segment and, if it is empty or ends in
    whitespace, one end of input; behind the last segment every request gives an end
    of input. The words of a segment are not empty and hold all its bytes but the
    whitespace. -/
theorem tokens_split_segments {session : Session} {segments : List Bytes} {limits : List Nat}
    (hstream : Signals.Alike session.stream (Signals.joined segments))
    (hlimits : ∀ limit ∈ limits, ∀ segment ∈ segments, ∀ word ∈ words segment,
      word.length ≤ limit) :
    ((session.replies (limits.map .token)).map Reply.reading? =
        (List.range limits.length).map fun n =>
          some (.token ((splitting segments).getD n (.error .unexpectedEnd)))) ∧
      ∀ segment ∈ segments, (∀ word ∈ words segment, word ≠ []) ∧
        (words segment).flatten = segment.filter (!isWhitespace ·) := by
  refine ⟨?_, fun segment _ => ⟨fun word hword => ne_nil_of_mem_words hword, flatten_words segment⟩⟩
  refine replies_joined hstream fun limit hlimit word hword => ?_
  obtain ⟨segment, hsegment, hmem⟩ := ok_mem_splitting.mp hword
  exact hlimits limit hlimit segment hsegment word hmem

/-- Three segments: one that ends inside a word, an empty one, and one that ends in
    whitespace. -/
def threeSegments : List Bytes := [[0x20, 0x61, 0x62, newline, 0x63], [], [0x64, 0x0d]]

/-- The three segments, cut inside words and interrupted; the second end is an
    empty piece. -/
def beforeThreeSegments : Session where
  host.input.source.piece := [0x20, 0x61]
  host.input.source.events := [.data [0x62, newline], .failure (.ofKind .interrupted),
    .data [0x63], .endOfInput, .data [], .data [0x64], .data [0x0d]]

theorem tokens_split_threeSegments :
    (beforeThreeSegments.replies ([2, 2, 9, 2, 3, 2, 2].map .token)).map Reply.reading? =
      [.ok [0x61, 0x62], .ok [0x63], .error .unexpectedEnd, .ok [0x64], .error .unexpectedEnd,
        .error .unexpectedEnd, .error .unexpectedEnd].map fun outcome => some (.token outcome) := by
  have hstream : Signals.Alike beforeThreeSegments.stream (Signals.joined threeSegments) :=
    fun _ => rfl
  have hlimits : ∀ limit ∈ [2, 2, 9, 2, 3, 2, 2], ∀ segment ∈ threeSegments,
      ∀ word ∈ words segment, word.length ≤ limit := by decide +kernel
  exact (tokens_split_segments hstream hlimits).1

end Session

end ProgramHost
