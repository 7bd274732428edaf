/-
  ProgramHost.Proofs.ReadingLoops

  Requests as loops over a source.

  A reader can be written as a loop that asks for what is at hand (`Source.fill`), looks at
  it, and gives back how many bytes it has used (`Source.consume`). Such a loop goes on after
  an interruption, and after a piece that leaves its result open. What keeps it from going on
  for ever is the weight of a source, its unread bytes and the events to come: no turn makes
  it greater, and every turn that does not return makes it less. A `Loop` carries the proofs
  of this, so `Loop.run` is defined by recursion on the weight.

  Most loops ask once in a turn (`Loop.asking`). `Consumer.run_eq_asking` says when the run of
  a consumer, which takes its input piece by piece, does the same as such a loop.
-/

import ProgramHost.Proofs.Demand

namespace ProgramHost

/-! ## What a source still holds -/

namespace Source

/-- The bytes that are not read yet, at hand or to come. -/
def unread (src : Source) : Bytes := src.given src.events

/-- The unread bytes and the events to come. -/
def weight (src : Source) : Nat := src.unread.length + src.events.length

/-- A source further on: what is at hand is an end of what was at hand, or of what the last
    event taken brought. -/
inductive Later (src : Source) : Source → Prop where
  | within {piece : Bytes} (h : piece <:+ src.piece) : Later src ⟨piece, src.events⟩
  | taken {piece : Bytes} {before events : List Event} {e : Event}
      (hevents : src.events = before ++ e :: events) (h : piece <:+ e.bytes) :
      Later src ⟨piece, events⟩

/-- What a request leaves: the events and the bytes that are left are the last ones. -/
structure Leaves (src after : Source) : Prop where
  events : after.events <:+ src.events
  unread : after.unread <:+ src.unread

theorem unread_mk (piece : Bytes) (events : List Event) :
    unread ⟨piece, events⟩ = piece ++ events.flatMap Event.bytes := rfl

namespace Later

variable {src mid after : Source}

theorem refl (src : Source) : src.Later src := .within List.suffix_rfl

theorem trans (h : src.Later mid) (h' : mid.Later after) : src.Later after := by
  cases h' with
  | within hpiece' =>
    cases h with
    | within hpiece => exact .within (hpiece'.trans hpiece)
    | taken hevents hpiece => exact .taken hevents (hpiece'.trans hpiece)
  | @taken _ before events e hevents' hpiece' =>
    cases h with
    | within hpiece => exact .taken hevents' hpiece'
    | @taken _ first rest x hevents hpiece =>
      have hall : src.events = first ++ x :: before ++ e :: events := by
        rw [hevents, show rest = before ++ e :: events from hevents', List.append_assoc,
          List.cons_append]
      exact .taken hall hpiece'

theorem leaves (h : src.Later after) : src.Leaves after := by
  obtain ⟨piece, events⟩ := src
  cases h with
  | within hpiece =>
    obtain ⟨used, rfl⟩ := hpiece
    refine ⟨List.suffix_rfl, ⟨used, ?_⟩⟩
    rw [unread_mk, unread_mk, List.append_assoc]
  | @taken _ before last e hevents hpiece =>
    obtain ⟨used, hused⟩ := hpiece
    obtain rfl : events = before ++ e :: last := hevents
    refine ⟨⟨before ++ [e], by simp⟩, ⟨piece ++ before.flatMap Event.bytes ++ used, ?_⟩⟩
    rw [unread_mk, unread_mk, List.flatMap_append, List.flatMap_cons, ← hused]
    simp only [List.append_assoc]

/-- Further on nothing is won, and unless nothing has changed at all, something is lost. -/
theorem eq_or_weight_lt (h : src.Later after) : after = src ∨ after.weight < src.weight := by
  have hunread := h.leaves.unread.length_le
  cases h with
  | @within piece hpiece =>
    obtain ⟨whole, events⟩ := src
    rcases Nat.lt_or_ge piece.length whole.length with hlt | hge
    · right
      simp only [weight, unread_mk, List.length_append]
      omega
    · left
      rw [hpiece.eq_of_length (Nat.le_antisymm hpiece.length_le hge)]
  | taken hevents hpiece =>
    right
    simp only [weight, hevents, List.length_append, List.length_cons]
    omega

theorem unread_le (h : src.Later after) : after.unread.length ≤ src.unread.length :=
  h.leaves.unread.length_le

theorem weight_le (h : src.Later after) : after.weight ≤ src.weight := by
  rcases h.eq_or_weight_lt with rfl | hlt
  · exact Nat.le_refl _
  · exact Nat.le_of_lt hlt

theorem antisymm (h : src.Later after) (h' : after.Later src) : after = src := by
  rcases h.eq_or_weight_lt with heq | hlt
  · exact heq
  · exact absurd h'.weight_le (Nat.not_le.mpr hlt)

end Later

/-! ## Asking and using up -/

/-- What is at hand; with nothing at hand, what the next event brings. An end of input brings
    nothing, and a failure is reported. -/
def fill (src : Source) : Except Failure Bytes × Source :=
  match src with
  | ⟨b :: bs, events⟩ => (.ok (b :: bs), ⟨b :: bs, events⟩)
  | ⟨[], []⟩ => (.ok [], ⟨[], []⟩)
  | ⟨[], .endOfInput :: events⟩ => (.ok [], ⟨[], events⟩)
  | ⟨[], .data bs :: events⟩ => (.ok bs, ⟨bs, events⟩)
  | ⟨[], .failure f :: events⟩ => (.error f, ⟨[], events⟩)

/-- Uses up some bytes of what is at hand. -/
def consume (src : Source) (count : Nat) : Source := { src with piece := src.piece.drop count }

/-- Asking gives what is then at hand, or takes an event that brings nothing; only a source
    that has run out stays the same without giving anything. -/
inductive Fills (src : Source) : Except Failure Bytes → Source → Prop where
  | piece {b : UInt8} {bs : Bytes} {events : List Event} (hlater : src.Later ⟨b :: bs, events⟩) :
      Fills src (.ok (b :: bs)) ⟨b :: bs, events⟩
  | done (h : src = {}) : Fills src (.ok []) src
  | ended {after : Source} (hlater : src.Later after) (hlt : after.weight < src.weight) :
      Fills src (.ok []) after
  | failed {after : Source} {f : Failure} (hlater : src.Later after)
      (hlt : after.weight < src.weight) : Fills src (.error f) after

/-- An event that is taken makes a source lighter. -/
theorem weight_taken (e : Event) (events : List Event) :
    weight ⟨e.bytes, events⟩ < weight ⟨[], e :: events⟩ := by
  simp only [weight, unread_mk, List.flatMap_cons, List.nil_append, List.length_cons]
  omega

theorem fills_fill (src : Source) : src.Fills src.fill.1 src.fill.2 := by
  obtain ⟨piece, events⟩ := src
  cases piece with
  | cons b bs => exact .piece (.refl _)
  | nil =>
    cases events with
    | nil => exact .done rfl
    | cons e events =>
      have htaken : Later ⟨[], e :: events⟩ ⟨e.bytes, events⟩ :=
        .taken (List.nil_append _).symm List.suffix_rfl
      have hlt := weight_taken e events
      cases e with
      | endOfInput => exact .ended htaken hlt
      | failure f => exact .failed htaken hlt
      | data bs =>
        cases bs with
        | nil => exact .ended htaken hlt
        | cons b bs => exact .piece htaken

theorem later_consume (src : Source) (count : Nat) : src.Later (src.consume count) :=
  .within (List.drop_suffix count src.piece)

theorem unread_consume {src : Source} {count : Nat} (hpiece : src.piece ≠ []) (hcount : 0 < count) :
    (src.consume count).unread.length < src.unread.length := by
  have hpos := List.length_pos_iff.mpr hpiece
  obtain ⟨piece, events⟩ := src
  simp only [consume, unread_mk, List.length_append, List.length_drop] at hpos ⊢
  omega

theorem weight_consume {src : Source} {count : Nat} (hpiece : src.piece ≠ []) (hcount : 0 < count) :
    (src.consume count).weight < src.weight :=
  Nat.add_lt_add_right (unread_consume hpiece hcount) _

end Source

/-! ## Loops -/

/-- How a turn of a loop ends. -/
inductive Turn (σ α : Type) where
  /-- The loop is left with a result. -/
  | returns (result : α)
  /-- Another turn follows. -/
  | goesOn (state : σ)
  deriving DecidableEq, Repr

/-- What follows a turn: one thing behind a result, another in the next state. -/
def Turn.followed {σ α β : Type} (k : α → Source → β) (f : σ → Source → β) :
    Turn σ α × Source → β
  | (.returns result, after) => k result after
  | (.goesOn s, after) => f s after

/-- A loop over a source with state `σ` and result `α`. -/
structure Loop (σ α : Type) where
  /-- One turn. -/
  turn : σ → Source → Turn σ α × Source
  /-- A turn leaves the source further on. -/
  later : ∀ (s : σ) (src : Source), src.Later (turn s src).2
  /-- A turn that does not return makes the source lighter. -/
  decreases : ∀ {s s' : σ} {src after : Source}, turn s src = (.goesOn s', after) →
    after.weight < src.weight

namespace Loop

variable {σ α β : Type} {l : Loop σ α} {s : σ} {src : Source}

/-- Takes turns until one returns. -/
def run (l : Loop σ α) (s : σ) (src : Source) : α × Source :=
  match _hturn : l.turn s src with
  | (.returns result, after) => (result, after)
  | (.goesOn s', after) => l.run s' after
termination_by src.weight
decreasing_by exact l.decreases _hturn

/-- What is at every turn what follows the turn is what follows the loop. -/
theorem run_followed {f : σ → Source → β} {k : α → Source → β}
    (hstep : ∀ s src, f s src = Turn.followed k f (l.turn s src)) (s : σ) (src : Source) :
    f s src = k (l.run s src).1 (l.run s src).2 := by
  fun_induction l.run s src with
  | case1 s src result after hturn => rw [hstep, hturn, Turn.followed]
  | case2 s src s' after hturn ih =>
    rw [hstep, hturn, Turn.followed]
    exact ih

/-- A loop returns after a number of turns that went on. -/
inductive Returns (l : Loop σ α) : σ → Source → Nat → α → Source → Prop where
  | now {s : σ} {src after : Source} {result : α}
      (hturn : l.turn s src = (.returns result, after)) : Returns l s src 0 result after
  | next {s s' : σ} {src mid after : Source} {count : Nat} {result : α}
      (hturn : l.turn s src = (.goesOn s', mid)) (hrest : Returns l s' mid count result after) :
      Returns l s src (count + 1) result after

/-- A turn that returns ends the loop. -/
theorem run_of_returns {result : α} {after : Source}
    (h : l.turn s src = (.returns result, after)) : l.run s src = (result, after) := by
  rw [run]
  split
  · next hturn => simpa using hturn.symm.trans h
  · next hturn => simp [hturn] at h

/-- A turn that goes on passes the loop to the next state. -/
theorem run_of_goesOn {s' : σ} {after : Source} (h : l.turn s src = (.goesOn s', after)) :
    l.run s src = l.run s' after := by
  rw [run]
  split
  · next hturn => simp [hturn] at h
  · next hturn =>
    obtain ⟨hstate, rfl⟩ := Prod.mk.inj (hturn.symm.trans h)
    cases hstate
    rfl

theorem returns_run (l : Loop σ α) (s : σ) (src : Source) :
    ∃ count, l.Returns s src count (l.run s src).1 (l.run s src).2 := by
  fun_induction l.run s src with
  | case1 s src result after hturn => exact ⟨0, .now hturn⟩
  | case2 s src s' after hturn ih =>
    obtain ⟨count, hcount⟩ := ih
    exact ⟨count + 1, .next hturn hcount⟩

namespace Returns

variable {count : Nat} {result : α} {after : Source}

theorem later (h : l.Returns s src count result after) : src.Later after := by
  induction h with
  | @now s src _ _ hturn =>
    have hlater := l.later s src
    rwa [hturn] at hlater
  | @next s _ src _ _ _ _ hturn _ ih =>
    have hlater := l.later s src
    rw [hturn] at hlater
    exact hlater.trans ih

/-- Every turn that went on has made the source lighter. -/
theorem count_le (h : l.Returns s src count result after) : count + after.weight ≤ src.weight := by
  induction h with
  | now hturn =>
    have hle := (Returns.now hturn).later.weight_le
    omega
  | next hturn _ ih =>
    have hlt := l.decreases hturn
    omega

/-- The result of a loop is that of its last turn. -/
theorem exists_turn (h : l.Returns s src count result after) :
    ∃ s' mid, l.turn s' mid = (.returns result, after) := by
  induction h with
  | @now s src _ _ hturn => exact ⟨s, src, hturn⟩
  | next _ _ ih => exact ih

/-- A loop that leaves the source as it was returns in its first turn. -/
theorem turn_of_unchanged (h : l.Returns s src count result src) :
    l.turn s src = (.returns result, src) := by
  have hcount := h.count_le
  cases h with
  | now hturn => exact hturn
  | next => omega

end Returns

/-- A loop ends: turns that go on make the source lighter, so there are no more of them than
    its weight, and what is left are the last events and bytes. -/
structure Finishes (l : Loop σ α) (s : σ) (src : Source) : Prop where
  decreases : ∀ s' after, l.turn s src = (.goesOn s', after) → after.weight < src.weight
  returns : ∃ count ≤ src.weight, l.Returns s src count (l.run s src).1 (l.run s src).2
  leaves : src.Leaves (l.run s src).2

theorem finishes (l : Loop σ α) (s : σ) (src : Source) : l.Finishes s src := by
  obtain ⟨count, hreturns⟩ := l.returns_run s src
  have hcount := hreturns.count_le
  exact ⟨fun _ _ => l.decreases, ⟨count, by omega, hreturns⟩, hreturns.later.leaves⟩

theorem later_run (l : Loop σ α) (s : σ) (src : Source) : src.Later (l.run s src).2 := by
  obtain ⟨count, hreturns⟩ := l.returns_run s src
  exact hreturns.later

/-- From the first turn on a loop leaves the source further on. -/
theorem later_run_turn (l : Loop σ α) (s : σ) (src : Source) :
    (l.turn s src).2.Later (l.run s src).2 := by
  cases hturn : l.turn s src with
  | mk turn after =>
    cases turn with
    | returns result =>
      rw [run_of_returns hturn]
      exact .refl after
    | goesOn s' =>
      rw [run_of_goesOn hturn]
      exact l.later_run s' after

/-! ## Loops that ask once in a turn -/

/-- A turn that asks for what is at hand. At an end or a failure it returns, an interruption
    makes it go on, and a piece tells how it ends and how many bytes are used. -/
def ask (atEnd : σ → α) (atFailure : σ → Failure → α) (atPiece : σ → Bytes → Turn σ α × Nat)
    (s : σ) (src : Source) : Turn σ α × Source :=
  match src.fill with
  | (.ok [], after) => (.returns (atEnd s), after)
  | (.ok (b :: bs), after) =>
    ((atPiece s (b :: bs)).1, after.consume (atPiece s (b :: bs)).2)
  | (.error f, after) =>
    if f.isInterruption then (.goesOn s, after) else (.returns (atFailure s f), after)

section

variable {atEnd : σ → α} {atFailure : σ → Failure → α} {atPiece : σ → Bytes → Turn σ α × Nat}

/-- What a turn that asks can do. Only with nothing left, or with a piece at hand, may it
    leave the source as heavy as it was. -/
inductive Asked (atEnd : σ → α) (atFailure : σ → Failure → α)
    (atPiece : σ → Bytes → Turn σ α × Nat) (s : σ) (src : Source) : Turn σ α × Source → Prop where
  | piece {b : UInt8} {bs : Bytes} {events : List Event} {turn : Turn σ α} {used : Nat}
      (hlater : src.Later ⟨b :: bs, events⟩) (hpiece : atPiece s (b :: bs) = (turn, used)) :
      Asked atEnd atFailure atPiece s src (turn, Source.consume ⟨b :: bs, events⟩ used)
  | done (h : src = {}) : Asked atEnd atFailure atPiece s src (.returns (atEnd s), src)
  | ended {after : Source} (hlater : src.Later after) (hlt : after.weight < src.weight) :
      Asked atEnd atFailure atPiece s src (.returns (atEnd s), after)
  | interrupted {after : Source} (hlater : src.Later after) (hlt : after.weight < src.weight) :
      Asked atEnd atFailure atPiece s src (.goesOn s, after)
  | failed {after : Source} {f : Failure} (hlater : src.Later after)
      (hlt : after.weight < src.weight) :
      Asked atEnd atFailure atPiece s src (.returns (atFailure s f), after)

theorem asked_ask (s : σ) (src : Source) :
    Asked atEnd atFailure atPiece s src (ask atEnd atFailure atPiece s src) := by
  have hfills := src.fills_fill
  rw [ask]
  cases hfill : src.fill with
  | mk given after =>
    rw [hfill] at hfills
    cases hfills with
    | piece hlater => exact .piece hlater rfl
    | done h => exact .done h
    | ended hlater hlt => exact .ended hlater hlt
    | failed hlater hlt =>
      dsimp only
      split
      · exact .interrupted hlater hlt
      · exact .failed hlater hlt

theorem asked_of_ask {turn : Turn σ α × Source} (h : ask atEnd atFailure atPiece s src = turn) :
    Asked atEnd atFailure atPiece s src turn := by
  rw [← h]
  exact asked_ask s src

theorem Asked.later {turn : Turn σ α × Source} (h : Asked atEnd atFailure atPiece s src turn) :
    src.Later turn.2 := by
  cases h with
  | piece hlater hpiece => exact hlater.trans (Source.later_consume _ _)
  | done h => exact .refl src
  | ended hlater hlt => exact hlater
  | interrupted hlater hlt => exact hlater
  | failed hlater hlt => exact hlater

/-- A turn that goes on has used bytes of a piece or taken an interruption. -/
theorem weight_ask
    (htakes : ∀ {s s' : σ} {piece : Bytes} {count : Nat}, piece ≠ [] →
      atPiece s piece = (.goesOn s', count) → 0 < count)
    {s' : σ} {after : Source} (h : ask atEnd atFailure atPiece s src = (.goesOn s', after)) :
    after.weight < src.weight := by
  cases asked_of_ask h with
  | @piece b bs events _ used hlater hpiece =>
    apply Nat.lt_of_lt_of_le _ hlater.weight_le
    exact Source.weight_consume (List.cons_ne_nil b bs) (htakes (List.cons_ne_nil b bs) hpiece)
  | interrupted hlater hlt => exact hlt

/-- How a turn that asks returns. -/
theorem ask_returns {result : α} {after : Source}
    (h : ask atEnd atFailure atPiece s src = (.returns result, after)) :
    result = atEnd s ∨ (∃ f, result = atFailure s f) ∨ ∃ b bs events count,
      atPiece s (b :: bs) = (.returns result, count) ∧ after = ⟨(b :: bs).drop count, events⟩ := by
  cases asked_of_ask h with
  | @piece b bs events _ used hlater hpiece => exact .inr (.inr ⟨b, bs, events, used, hpiece, rfl⟩)
  | done hempty => exact .inl rfl
  | ended hlater hlt => exact .inl rfl
  | @failed _ f hlater hlt => exact .inr (.inl ⟨f, rfl⟩)

/-- How a loop that asks returns. -/
theorem run_ask_returns (hl : l.turn = ask atEnd atFailure atPiece) {result : α} {after : Source}
    (h : l.run s src = (result, after)) :
    ∃ s', result = atEnd s' ∨ (∃ f, result = atFailure s' f) ∨ ∃ b bs events count,
      atPiece s' (b :: bs) = (.returns result, count) ∧ after = ⟨(b :: bs).drop count, events⟩ := by
  obtain ⟨count, hreturns⟩ := l.returns_run s src
  rw [h] at hreturns
  obtain ⟨s', mid, hturn⟩ := hreturns.exists_turn
  rw [hl] at hturn
  exact ⟨s', ask_returns hturn⟩

/-- A turn that asks and leaves the source as it was: there is nothing left, or no byte is
    used of what is at hand. -/
theorem ask_unchanged {result : α} {after : Source}
    (h : ask atEnd atFailure atPiece s src = (.returns result, after)) (hsame : after = src) :
    (src = {} ∧ result = atEnd s) ∨
      (src.piece ≠ [] ∧ atPiece s src.piece = (.returns result, 0)) := by
  cases asked_of_ask h with
  | @piece b bs events _ used hlater hpiece =>
    -- Bytes used would make the source lighter than it was before.
    have hzero : used = 0 := by
      by_contra hne
      have hlt : (Source.consume ⟨b :: bs, events⟩ used).weight < Source.weight ⟨b :: bs, events⟩ :=
        Source.weight_consume (List.cons_ne_nil b bs) (Nat.pos_of_ne_zero hne)
      have hle := hlater.weight_le
      rw [hsame] at hlt
      omega
    subst hzero
    obtain rfl : (⟨b :: bs, events⟩ : Source) = src := hsame
    exact .inr ⟨List.cons_ne_nil b bs, hpiece⟩
  | done hempty => exact .inl ⟨hempty, rfl⟩
  | ended hlater hlt =>
    rw [hsame] at hlt
    exact absurd hlt (Nat.lt_irrefl _)
  | failed hlater hlt =>
    rw [hsame] at hlt
    exact absurd hlt (Nat.lt_irrefl _)

/-- A loop that asks and leaves the source as it was. -/
theorem run_ask_unchanged (hl : l.turn = ask atEnd atFailure atPiece) {result : α}
    (h : l.run s src = (result, src)) :
    (src = {} ∧ result = atEnd s) ∨
      (src.piece ≠ [] ∧ atPiece s src.piece = (.returns result, 0)) := by
  obtain ⟨count, hreturns⟩ := l.returns_run s src
  rw [h] at hreturns
  have hturn := hreturns.turn_of_unchanged
  rw [hl] at hturn
  exact ask_unchanged hturn rfl

end

/-- The loop that asks once in every turn. A piece after which it goes on is used in part at
    least. -/
def asking (atEnd : σ → α) (atFailure : σ → Failure → α)
    (atPiece : σ → Bytes → Turn σ α × Nat)
    (htakes : ∀ {s s' : σ} {piece : Bytes} {count : Nat}, piece ≠ [] →
      atPiece s piece = (.goesOn s', count) → 0 < count) : Loop σ α where
  turn := ask atEnd atFailure atPiece
  later s src := (asked_ask s src).later
  decreases := weight_ask htakes

end Loop

/-! ## Loops and runs of consumers -/

namespace Consumer

variable {σ α : Type}

/-- How a run goes on behind a piece that was fed. -/
def proceed (c : Consumer σ α) (events : List Event) : Progress σ α → α × Source
  | .settled result unread => (result, ⟨unread, events⟩)
  | .hungry s => c.run s ⟨[], events⟩

theorem run_piece (c : Consumer σ α) (s : σ) {piece : Bytes} (h : piece ≠ [])
    (events : List Event) : c.run s ⟨piece, events⟩ = c.proceed events (c.feed s piece) := by
  cases piece with
  | nil => exact absurd rfl h
  | cons b bs =>
    rw [Consumer.run, proceed.eq_def]
    rfl

/-- A run is told by what it is given first. -/
theorem run_eq_fill (c : Consumer σ α) (s : σ) (src : Source) :
    c.run s src =
      match src.fill with
      | (.ok [], after) => (c.atEnd s, after)
      | (.ok (_ :: _), after) => c.run s after
      | (.error f, after) =>
        if f.isInterruption then c.run s after else (c.atFailure s f, after) := by
  obtain ⟨piece, events⟩ := src
  cases piece with
  | cons b bs => rfl
  | nil =>
    cases events with
    | nil => rfl
    | cons e events =>
      cases e with
      | endOfInput => rfl
      | failure f => rfl
      | data bs =>
        cases bs with
        | nil => rfl
        | cons b bs => rfl

/-- A loop that asks and a run meet ends, failures and interruptions alike, so they agree if
    they do the same with every piece. -/
theorem run_eq_asking {τ β : Type} (c : Consumer σ α) (state : τ → σ) (k : β → Source → α × Source)
    {l : Loop τ β} {atEnd : τ → β} {atFailure : τ → Failure → β}
    {atPiece : τ → Bytes → Turn τ β × Nat} (hl : l.turn = Loop.ask atEnd atFailure atPiece)
    (hend : ∀ t after, k (atEnd t) after = (c.atEnd (state t), after))
    (hfailure : ∀ t f after, k (atFailure t f) after = (c.atFailure (state t) f, after))
    (hpiece : ∀ t b bs events, c.run (state t) ⟨b :: bs, events⟩ =
      Turn.followed k (fun t' after => c.run (state t') after)
        ((atPiece t (b :: bs)).1, ⟨(b :: bs).drop (atPiece t (b :: bs)).2, events⟩))
    (t : τ) (src : Source) : c.run (state t) src = k (l.run t src).1 (l.run t src).2 := by
  -- One turn of the loop is one step of the run.
  refine Loop.run_followed (f := fun t src => c.run (state t) src) (fun t src => ?_) t src
  have hfills := src.fills_fill
  rw [run_eq_fill, hl, Loop.ask]
  cases hfill : src.fill with
  | mk given mid =>
    rw [hfill] at hfills
    cases hfills with
    | @piece b bs events hlater =>
      dsimp only
      rw [hpiece]
      rfl
    | done h => exact (hend t _).symm
    | ended hlater hlt => exact (hend t _).symm
    | @failed _ f hlater hlt =>
      dsimp only
      split
      · rfl
      · exact (hfailure t f _).symm

end Consumer

end ProgramHost
