/-
  ProgramHost.Proofs.Demand

  Requests ask for no more input than they need.

  What a request returns does not show when it asked for more. `Consumer.Moves`
  therefore tells a run move by move: the piece at hand is fed, or, once it is used
  up, the next event is taken. A move changes nothing about what the run comes to,
  and every event that a run takes is taken in such a move (`Consumer.taken_iff_asks`).
  When a run asks for more, it has passed exactly the bytes given to it, and the
  events before brought bytes or interruptions only (`Consumer.Asks.passed`). Of
  those bytes the invariants of the two readers say that the result is still open.
-/

import Mathlib.Logic.Relation
import ProgramHost.Proofs.IntegerRequest
import ProgramHost.Proofs.TokenRequest

namespace ProgramHost

/-! ## What a source has given -/

/-- The bytes that an event brings. -/
def Event.bytes : Event → Bytes
  | .data bytes => bytes
  | _ => []

/-- Whether a reader goes on after an event: bytes and interruptions decide nothing,
    ends and failures do. -/
def Event.goesOn : Event → Bool
  | .data bytes => !bytes.isEmpty
  | .endOfInput => false
  | .failure f => f.isInterruption

/-- The bytes that a reader has been given once it has taken some events: the unread
    part of the first piece and what the events brought. -/
def Source.given (src : Source) (taken : List Event) : Bytes :=
  src.piece ++ taken.flatMap Event.bytes

theorem Source.given_concat (src : Source) (taken : List Event) (e : Event) :
    src.given (taken ++ [e]) = src.given taken ++ e.bytes := by
  simp [given]

namespace Consumer

variable {σ α : Type} {c : Consumer σ α}

/-! ## Runs, move by move -/

/-- A run between two moves: the state of the consumer, what the source holds, and
    the events taken so far. -/
structure Moment (σ : Type) where
  state : σ
  source : Source
  taken : List Event := []
  deriving DecidableEq, Repr

/-- A move that leaves the result open. -/
inductive Moves (c : Consumer σ α) : Moment σ → Moment σ → Prop where
  /-- The piece at hand is used up. -/
  | feed {s s' : σ} {b : UInt8} {bs : Bytes} {events taken : List Event}
      (hfeed : c.feed s (b :: bs) = .hungry s') :
      Moves c ⟨s, ⟨b :: bs, events⟩, taken⟩ ⟨s', ⟨[], events⟩, taken⟩
  /-- Nothing is at hand, and the next event brings a piece. -/
  | data {s : σ} {b : UInt8} {bs : Bytes} {events taken : List Event} :
      Moves c ⟨s, ⟨[], .data (b :: bs) :: events⟩, taken⟩
        ⟨s, ⟨b :: bs, events⟩, taken ++ [.data (b :: bs)]⟩
  /-- Nothing is at hand, and the next event is an interruption. -/
  | interruption {s : σ} {f : Failure} {events taken : List Event}
      (hf : f.isInterruption = true) :
      Moves c ⟨s, ⟨[], .failure f :: events⟩, taken⟩ ⟨s, ⟨[], events⟩, taken ++ [.failure f]⟩

/-- A run from a state on a source asks for more: it has taken some events, nothing is
    at hand, the result is open, and these events are to come. -/
def Asks (c : Consumer σ α) (s : σ) (src : Source) (taken : List Event) (t : σ)
    (coming : List Event) : Prop :=
  Relation.ReflTransGen c.Moves ⟨s, src, []⟩ ⟨t, ⟨[], coming⟩, taken⟩

/-- A move changes nothing about what the run comes to. -/
theorem Moves.run_eq {m m' : Moment σ} (h : c.Moves m m') :
    c.run m.state m.source = c.run m'.state m'.source := by
  cases h with
  | feed hfeed => simp only [run, hfeed]
  | data => simp only [run, runEvents]
  | interruption hf => simp only [run, runEvents, hf, if_true]

theorem Asks.run_eq {s t : σ} {src : Source} {taken coming : List Event}
    (h : c.Asks s src taken t coming) : c.run s src = c.runEvents t coming := by
  have hrun (m : Moment σ) (hm : Relation.ReflTransGen c.Moves ⟨s, src, []⟩ m) :
      c.run s src = c.run m.state m.source := by
    induction hm with
    | refl => rfl
    | tail _ hmove ih => exact ih.trans hmove.run_eq
  exact hrun _ h

/-- An event that a run stands before is taken. -/
theorem runEvents_cons_suffix (c : Consumer σ α) (s : σ) (e : Event) (events : List Event) :
    (c.runEvents s (e :: events)).2.events <:+ events := by
  cases e with
  | endOfInput => exact List.suffix_rfl
  | failure f =>
    rw [runEvents]
    split
    · exact c.runEvents_events_suffix s events
    · exact List.suffix_rfl
  | data bytes =>
    cases bytes with
    | nil => exact List.suffix_rfl
    | cons b bs =>
      rw [runEvents]
      split
      · exact List.suffix_rfl
      · exact c.runEvents_events_suffix _ events

/-- What stands behind an event does not end with the event and more. -/
theorem not_suffix_of_cons {before after : List Event} {e : Event} :
    ¬ before ++ e :: after <:+ after := by
  intro h
  have hlength := h.length_le
  simp only [List.length_append, List.length_cons] at hlength
  omega

/-- With nothing at hand, a run that takes an event asks for it. -/
theorem moves_of_taken (s : σ) {events before after : List Event} {e : Event}
    (hevents : events = before ++ e :: after)
    (htaken : (c.runEvents s events).2.events <:+ after) (taken : List Event) :
    ∃ t, Relation.ReflTransGen c.Moves ⟨s, ⟨[], events⟩, taken⟩
      ⟨t, ⟨[], e :: after⟩, taken ++ before⟩ := by
  -- The induction follows the run; before the event itself there is nothing to show.
  induction before generalizing s events taken with
  | nil =>
    rw [hevents, List.nil_append, List.append_nil]
    exact ⟨s, .refl⟩
  | cons x before ih =>
    subst hevents
    cases x with
    | endOfInput => exact absurd htaken not_suffix_of_cons
    | failure f =>
      by_cases hf : f.isInterruption = true
      · rw [List.cons_append, runEvents, if_pos hf] at htaken
        obtain ⟨t, hmoves⟩ := ih s rfl htaken (taken ++ [.failure f])
        rw [List.append_assoc, List.singleton_append] at hmoves
        exact ⟨t, .head (.interruption hf) hmoves⟩
      · rw [List.cons_append, runEvents, if_neg hf] at htaken
        exact absurd htaken not_suffix_of_cons
    | data bytes =>
      cases bytes with
      | nil => exact absurd htaken not_suffix_of_cons
      | cons b bs =>
        rw [List.cons_append, runEvents] at htaken
        split at htaken
        · exact absurd htaken not_suffix_of_cons
        · next s' hfeed =>
          obtain ⟨t, hmoves⟩ := ih s' rfl htaken (taken ++ [.data (b :: bs)])
          rw [List.append_assoc, List.singleton_append] at hmoves
          exact ⟨t, .head .data (.head (.feed hfeed) hmoves)⟩

/-- A run takes an event exactly when it asks for it. -/
theorem taken_iff_asks {s : σ} {src : Source} {before after : List Event} {e : Event}
    (hevents : src.events = before ++ e :: after) :
    (c.run s src).2.events <:+ after ↔ ∃ t, c.Asks s src before t (e :: after) := by
  constructor
  · intro htaken
    obtain ⟨piece, events⟩ := src
    cases piece with
    | nil => exact moves_of_taken s hevents htaken []
    | cons b bs =>
      simp only [run] at htaken
      split at htaken
      · obtain rfl : events = before ++ e :: after := hevents
        exact absurd htaken not_suffix_of_cons
      · next s' hfeed =>
        obtain ⟨t, hmoves⟩ := moves_of_taken s' hevents htaken []
        exact ⟨t, .head (.feed hfeed) hmoves⟩
  · rintro ⟨t, hasks⟩
    rw [hasks.run_eq]
    exact c.runEvents_cons_suffix t e after

/-! ## What is known when a run asks -/

/-- One more piece that leaves the result open. -/
theorem Passes.concat {s t t' : σ} {bs piece : Bytes} (h : c.Passes s bs t)
    (hfeed : c.feed t piece = .hungry t') : c.Passes s (bs ++ piece) t' := by
  induction h with
  | refl s => simpa using Passes.feed hfeed (.refl t')
  | feed hfirst _ ih =>
    rw [List.append_assoc]
    exact .feed hfirst (ih hfeed)

/-- What holds between two moves of a run: the consumer has passed all bytes that it was
    given but those at hand, and the events taken have settled nothing. -/
structure Underway (c : Consumer σ α) (s : σ) (src : Source) (m : Moment σ) : Prop where
  passed : ∃ used, src.given m.taken = used ++ m.source.piece ∧ c.Passes s used m.state
  goesOn : ∀ e ∈ m.taken, e.goesOn = true

/-- The step lemma: a move keeps a run underway. -/
theorem Underway.move {s : σ} {src : Source} {m m' : Moment σ} (h : c.Underway s src m)
    (hmove : c.Moves m m') : c.Underway s src m' := by
  obtain ⟨⟨used, hgiven, hpassed⟩, hgoesOn⟩ := h
  cases hmove with
  | feed hfeed => exact ⟨⟨_, by simpa using hgiven, hpassed.concat hfeed⟩, hgoesOn⟩
  | @data t b bs events taken =>
    refine ⟨⟨used, ?_, hpassed⟩, ?_⟩
    · rw [Source.given_concat, hgiven, List.append_nil]
      rfl
    · exact List.forall_mem_append.mpr ⟨hgoesOn, by simp [Event.goesOn]⟩
  | @interruption t f events taken hf =>
    refine ⟨⟨used, ?_, hpassed⟩, ?_⟩
    · rw [Source.given_concat, hgiven]
      exact List.append_nil _
    · exact List.forall_mem_append.mpr ⟨hgoesOn, by simpa [Event.goesOn] using hf⟩

/-- The run lemma: a run that asks for more has passed all bytes that it was given. -/
theorem Asks.passed {s t : σ} {src : Source} {taken coming : List Event}
    (h : c.Asks s src taken t coming) :
    c.Passes s (src.given taken) t ∧ ∀ e ∈ taken, e.goesOn = true := by
  have hunderway (m : Moment σ) (hm : Relation.ReflTransGen c.Moves ⟨s, src, []⟩ m) :
      c.Underway s src m := by
    induction hm with
    | refl => exact ⟨⟨[], by simp [Source.given], .refl s⟩, by simp⟩
    | tail _ hmove ih => exact ih.move hmove
  obtain ⟨⟨used, hgiven, hpassed⟩, hgoesOn⟩ := hunderway _ h
  rw [List.append_nil] at hgiven
  rw [hgiven]
  exact ⟨hpassed, hgoesOn⟩

theorem run_events_suffix (c : Consumer σ α) (s : σ) (src : Source) :
    (c.run s src).2.events <:+ src.events := by
  obtain ⟨piece, events⟩ := src
  cases piece with
  | nil => exact c.runEvents_events_suffix s events
  | cons b bs =>
    simp only [run]
    split
    · exact List.suffix_rfl
    · exact c.runEvents_events_suffix _ events

/-- A run whose first piece does not leave the result open takes no event. -/
theorem events_run_of_not_passes {s : σ} {src : Source}
    (h : ∀ t, ¬ c.Passes s src.piece t) : (c.run s src).2.events = src.events := by
  obtain ⟨taken, htaken⟩ := c.run_events_suffix s src
  cases taken with
  | nil => exact htaken
  | cons e before =>
    -- The first event taken was asked for right behind the first piece.
    have hfirst : src.events = [] ++ e :: (before ++ (c.run s src).2.events) := htaken.symm
    obtain ⟨t, hasks⟩ := (taken_iff_asks hfirst).mp (List.suffix_append _ _)
    have hpassed := hasks.passed.1
    rw [Source.given, List.flatMap_nil, List.append_nil] at hpassed
    exact absurd hpassed (h t)

end Consumer

/-! ## The two readers -/

namespace TokenState

/-- Bytes that leave a token request open do not settle it. -/
theorem Saw.not_settles {limit : Nat} {fed unread : Bytes} {s : TokenState} {result : TokenResult}
    (hsaw : Saw limit fed s) : ¬ Settles limit fed result unread := by
  intro hsettles
  -- With an end behind them, the two would leave different streams.
  obtain ⟨houtcome, hleft⟩ := hsettles.agrees [.endOfInput]
  obtain ⟨hend, hnone⟩ : TokenResult.Agrees limit (fed.map .byte ++ [.endOfInput]) (atEnd s) [] :=
    hsaw.agrees_atEnd rfl
  by_cases hlong : result.1 = .error (.tokenTooLong limit)
  · rw [← hend, hlong] at houtcome
    cases s <;> cases houtcome
  · have hfits : (atEnd s).1 ≠ .error (.tokenTooLong limit) := by
      cases s <;> simp [atEnd]
    have heq := (hleft hlong).trans (hnone hfits).symm
    simp at heq

end TokenState

namespace IntegerState

/-- Bytes that leave an integer request open do not settle it. -/
theorem Saw.not_settles {fed unread : Bytes} {s : IntegerState} {result : IntegerResult}
    (hsaw : Saw fed s) : ¬ Settles fed result unread := by
  intro hsettles
  have heq := (hsettles.integer_eq [.endOfInput]).symm.trans (hsaw.integer_atEnd rfl)
  simp at heq

end IntegerState

namespace Input

/-- Requests ask for no more input than they need. Whenever a token or an integer request
    takes an event, it has used up all bytes given to it before, no end and no final
    failure was among the events taken before, and the bytes leave its result open: they
    are whitespace, or whitespace and the beginning of a word within the limit, or
    whitespace, at most one sign and digits. What settles a request inside the piece at
    hand, such as a delimiter, therefore means that it takes no event. -/
theorem reads_ask_when_open (input : Input) (limit : Nat) :
    (∀ before e after, input.source.events = before ++ e :: after →
      (input.token limit).2.source.events <:+ after →
        (∀ x ∈ before, x.goesOn = true) ∧
          ∃ state, (tokenReader limit).Asks .blank input.source before state (e :: after) ∧
            TokenState.Saw limit (input.source.given before) state) ∧
      (∀ before e after, input.source.events = before ++ e :: after →
        input.integer.2.source.events <:+ after →
          (∀ x ∈ before, x.goesOn = true) ∧
            ∃ state, integerReader.Asks .blank input.source before state (e :: after) ∧
              IntegerState.Saw (input.source.given before) state) ∧
      (∀ result unread, TokenState.Settles limit input.source.piece result unread →
        (input.token limit).2.source.events = input.source.events) ∧
      ∀ result unread, IntegerState.Settles input.source.piece result unread →
        input.integer.2.source.events = input.source.events := by
  refine ⟨fun before e after hevents htaken => ?_, fun before e after hevents htaken => ?_,
    fun result unread hsettles => ?_, fun result unread hsettles => ?_⟩
  · obtain ⟨state, hasks⟩ := (Consumer.taken_iff_asks hevents).mp htaken
    obtain ⟨hpassed, hgoesOn⟩ := hasks.passed
    exact ⟨hgoesOn, state, hasks, TokenState.saw_of_passes hpassed⟩
  · obtain ⟨state, hasks⟩ := (Consumer.taken_iff_asks hevents).mp htaken
    obtain ⟨hpassed, hgoesOn⟩ := hasks.passed
    exact ⟨hgoesOn, state, hasks, IntegerState.saw_of_passes hpassed⟩
  · exact Consumer.events_run_of_not_passes fun state hpassed =>
      (TokenState.saw_of_passes hpassed).not_settles hsettles
  · exact Consumer.events_run_of_not_passes fun state hpassed =>
      (IntegerState.saw_of_passes hpassed).not_settles hsettles

/-- Before `-42` and a blank, cut behind the sign and between the digits and interrupted. -/
def cutBeforeDigits : Input where
  source.piece := [0x20, minus]
  source.events := [.failure (.ofKind .interrupted), .data [0x34], .data [0x32, 0x20], .endOfInput]

/-- Before `7` and a blank, with more to come. -/
def delimitedInPiece : Input where
  source.piece := [0x37, 0x20]
  source.events := [.data [0x38], .failure (.ofKind .brokenPipe)]

theorem reads_ask_cutBeforeDigits_delimitedInPiece :
    (cutBeforeDigits.token 3).2.source.events = [.endOfInput] ∧
      (∃ state, (tokenReader 3).Asks .blank cutBeforeDigits.source
          [.failure (.ofKind .interrupted), .data [0x34]] state [.data [0x32, 0x20], .endOfInput] ∧
        TokenState.Saw 3 [0x20, minus, 0x34] state) ∧
      cutBeforeDigits.integer.2.source.events = [.endOfInput] ∧
      (∃ state, integerReader.Asks .blank cutBeforeDigits.source
          [.failure (.ofKind .interrupted), .data [0x34]] state [.data [0x32, 0x20], .endOfInput] ∧
        IntegerState.Saw [0x20, minus, 0x34] state) ∧
      TokenState.Settles 3 delimitedInPiece.source.piece (.ok (), [0x37]) [0x20] ∧
      (delimitedInPiece.token 3).2.source.events = delimitedInPiece.source.events ∧
      IntegerState.Settles delimitedInPiece.source.piece (.ok 7) [0x20] ∧
      delimitedInPiece.integer.2.source.events = delimitedInPiece.source.events := by
  have hevents : cutBeforeDigits.source.events =
      [.failure (.ofKind .interrupted), .data [0x34]] ++ .data [0x32, 0x20] :: [.endOfInput] := rfl
  have htoken : (cutBeforeDigits.token 3).2.source.events = [.endOfInput] := by decide +kernel
  have hinteger : cutBeforeDigits.integer.2.source.events = [.endOfInput] := by decide +kernel
  have hword : TokenState.Settles 3 ([] ++ [0x37] ++ [0x20]) (.ok (), [0x37]) [0x20] :=
    .complete (by simp) (by simp) (by decide +kernel) (by simp) (by decide +kernel)
  have hnumber : IntegerState.Settles ([] ++ [] ++ [0x37] ++ [0x20]) (.ok 7) [0x20] :=
    .complete (by simp) .none (by decide +kernel) (by decide +kernel) (by simp)
  obtain ⟨htokens, hintegers, -, -⟩ := cutBeforeDigits.reads_ask_when_open 3
  obtain ⟨-, -, hwords, hnumbers⟩ := delimitedInPiece.reads_ask_when_open 3
  exact ⟨htoken, (htokens _ _ _ hevents (htoken ▸ List.suffix_rfl)).2, hinteger,
    (hintegers _ _ _ hevents (hinteger ▸ List.suffix_rfl)).2, hword, hwords _ _ hword, hnumber,
    hnumbers _ _ hnumber⟩

end Input

end ProgramHost
