/-
  ProgramHost.Proofs.Exits

  How a run of a consumer can end.

  A consumer passes through states as long as it asks for more (`Passes`), and a
  run ends in one of three ways: inside a piece, at an end of input, or at a
  failure. `Consumer.Ends` states them on the stream of the source, so that the
  cut into pieces shows only in the pieces that were passed, and `run_ends` says
  that there are no others. What a particular consumer does follows from an
  invariant of its states (`Passes.invariant`) and these three exits.
-/

import ProgramHost.Input.Consumer
import ProgramHost.Proofs.Stream

namespace ProgramHost
namespace Consumer

variable {σ α : Type}

/-! ## Passing through states -/

/-- Fed some bytes, cut into pieces in some way, a consumer moves from one state
    to another and asks for more after every piece. -/
inductive Passes (c : Consumer σ α) : σ → Bytes → σ → Prop where
  | refl (s : σ) : Passes c s [] s
  | feed {s s' t : σ} {piece bs : Bytes} (hfeed : c.feed s piece = .hungry s')
      (rest : Passes c s' bs t) : Passes c s (piece ++ bs) t

/-- What holds of a state and the bytes before it, and is kept by every piece
    that leaves the result open, holds of every state passed. -/
theorem Passes.invariant {c : Consumer σ α} {Inv : Bytes → σ → Prop}
    (hstep : ∀ {used s piece s'}, Inv used s → c.feed s piece = .hungry s' →
      Inv (used ++ piece) s')
    {s t : σ} {bs : Bytes} (h : c.Passes s bs t) {used : Bytes} (hs : Inv used s) :
    Inv (used ++ bs) t := by
  induction h generalizing used with
  | refl s => simpa using hs
  | feed hfeed _ ih =>
    rw [← List.append_assoc]
    exact ih (hstep hs hfeed)

/-! ## The exits -/

/-- A run on a stream ends with a result and leaves the rest of the stream. -/
inductive Ends (c : Consumer σ α) (s : σ) : List Signal → α → List Signal → Prop where
  /-- Inside a piece; the unread part of it stays. -/
  | settled {t : σ} {bs piece unread : Bytes} {result : α} {rest : List Signal}
      (passed : c.Passes s bs t) (hfeed : c.feed t piece = .settled result unread) :
      Ends c s ((bs ++ piece).map .byte ++ rest) result (unread.map .byte ++ rest)
  /-- At an end of input, which is taken. -/
  | ended {t : σ} {bs : Bytes} {rest : List Signal} (passed : c.Passes s bs t)
      (hfront : Signals.front rest = .endOfInput) :
      Ends c s (bs.map .byte ++ rest) (c.atEnd t) rest.tail
  /-- At a failure, which is taken. -/
  | failed {t : σ} {bs : Bytes} {f : Failure} {rest : List Signal} (passed : c.Passes s bs t)
      (hfront : Signals.front rest = .failure f) :
      Ends c s (bs.map .byte ++ rest) (c.atFailure t f) rest.tail

/-- A piece that leaves the result open puts off the end. -/
theorem Ends.of_hungry {c : Consumer σ α} {s s' : σ} {piece : Bytes}
    (hfeed : c.feed s piece = .hungry s') {stream rest : List Signal} {result : α}
    (h : c.Ends s' stream result rest) : c.Ends s (piece.map .byte ++ stream) result rest := by
  cases h with
  | settled passed hsettled =>
    rw [← List.append_assoc, ← List.map_append, ← List.append_assoc]
    exact .settled (.feed hfeed passed) hsettled
  | ended passed hfront =>
    rw [← List.append_assoc, ← List.map_append]
    exact .ended (.feed hfeed passed) hfront
  | failed passed hfront =>
    rw [← List.append_assoc, ← List.map_append]
    exact .failed (.feed hfeed passed) hfront

theorem runEvents_ends (c : Consumer σ α) (s : σ) (events : List Event) :
    c.Ends s (events.flatMap Event.signals) (c.runEvents s events).1
      (c.runEvents s events).2.stream := by
  fun_induction c.runEvents s events with
  | case1 s => exact .ended (.refl s) Signals.front_nil
  | case2 s events => exact .ended (.refl s) (Signals.front_cons .endOfInput _)
  | case3 s events => exact .ended (.refl s) (Signals.front_cons .endOfInput _)
  | case4 s b bs events result unread hfeed => exact .settled (.refl s) hfeed
  | case5 s b bs events s' hfeed ih => exact ih.of_hungry hfeed
  | case6 s f events hint ih => simpa [Event.signals, hint] using ih
  | case7 s f events hint =>
    simp only [List.flatMap_cons, Event.signals, hint]
    exact .failed (.refl s) (Signals.front_cons (.failure f) _)

/-- Every run ends in one of the three ways. -/
theorem run_ends (c : Consumer σ α) (s : σ) (src : Source) :
    c.Ends s src.stream (c.run s src).1 (c.run s src).2.stream := by
  obtain ⟨piece, events⟩ := src
  cases piece with
  | nil => exact c.runEvents_ends s events
  | cons b bs =>
    simp only [run]
    split
    · next result unread hfeed => exact .settled (.refl s) hfeed
    · next s' hfeed => exact (c.runEvents_ends s' events).of_hungry hfeed

end Consumer
end ProgramHost
