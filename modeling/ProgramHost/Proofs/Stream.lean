/-
  ProgramHost.Proofs.Stream

  What stands at the front of a stream.

  A request takes the leading bytes of one class, looks at the signal behind
  them, and takes the next class. `takeBytes` and `dropBytes` cut a stream at the
  end of such a run. A stream that has run out is at its end for ever: `front`
  gives an end there and `List.tail` leaves nothing, so that both are defined on
  every stream, and `Alike` compares two streams as endless sequences.

  `conclude` is the one rule by which every request ends: an end or a failure
  that it meets is taken from the stream, a byte stays.
-/

import Mathlib.Data.List.TakeWhile
import ProgramHost.Input.Source
import ProgramHost.Refusal

namespace ProgramHost

/-- A piece lies in a class of bytes, or its first byte outside the class stands
    behind a run of the class. -/
theorem class_cases (p : UInt8 → Bool) (piece : Bytes) :
    ((∀ b ∈ piece, p b = true) ∧ piece.takeWhile p = piece ∧ piece.dropWhile p = []) ∨
      ∃ run b rest, piece = run ++ b :: rest ∧ (∀ x ∈ run, p x = true) ∧ p b = false ∧
        piece.takeWhile p = run ∧ piece.dropWhile p = b :: rest := by
  cases hdrop : piece.dropWhile p with
  | nil =>
    have hall := List.dropWhile_eq_nil_iff.mp hdrop
    exact .inl ⟨hall, List.takeWhile_eq_self_iff.mpr hall, rfl⟩
  | cons b rest =>
    have hb : p b = false := by
      have h := List.head_dropWhile_not p (l := piece) (by simp [hdrop])
      simpa [hdrop] using h
    refine .inr ⟨piece.takeWhile p, b, rest, ?_, ?_, hb, rfl, rfl⟩
    · rw [← hdrop, List.takeWhile_append_dropWhile]
    · exact fun x hx => List.mem_takeWhile_imp hx

namespace Signals

/-! ## The front -/

/-- The signal that a reader meets first; a stream that has run out is at its
    end. -/
def front (stream : List Signal) : Signal := stream.headD .endOfInput

/-- No byte of a class stands at the front. -/
def Stops (p : UInt8 → Bool) (stream : List Signal) : Prop :=
  ∀ b, front stream = .byte b → p b = false

@[simp] theorem front_nil : front [] = .endOfInput := rfl

@[simp] theorem front_cons (x : Signal) (stream : List Signal) : front (x :: stream) = x := rfl

theorem eq_cons_of_front_byte {stream : List Signal} {b : UInt8}
    (h : front stream = .byte b) : stream = .byte b :: stream.tail := by
  cases stream with
  | nil => cases h
  | cons x rest =>
    rw [front_cons] at h
    rw [h, List.tail_cons]

/-- A front that is no byte stops every class. -/
theorem stops_of_front_ne {stream : List Signal} (p : UInt8 → Bool)
    (h : ∀ b, front stream ≠ .byte b) : Stops p stream :=
  fun b hb => absurd hb (h b)

/-- A byte outside a class at the front stops the class. -/
theorem stops_of_front_byte {p : UInt8 → Bool} {stream : List Signal} {b : UInt8}
    (h : front stream = .byte b) (hb : p b = false) : Stops p stream := by
  intro c hc
  obtain rfl : b = c := by simpa using h.symm.trans hc
  exact hb

theorem stops_nil (p : UInt8 → Bool) : Stops p [] :=
  stops_of_front_ne p (by simp)

theorem byte_or_stops (p : UInt8 → Bool) (x : Signal) (stream : List Signal) :
    (∃ b, x = .byte b ∧ p b = true) ∨ Stops p (x :: stream) := by
  by_cases h : ∃ b, x = .byte b ∧ p b = true
  · exact .inl h
  · refine .inr fun b hb => ?_
    rw [front_cons] at hb
    exact Bool.eq_false_iff.mpr fun hp => h ⟨b, hb, hp⟩

/-! ## Leading bytes -/

/-- The leading bytes of a class. -/
def takeBytes (p : UInt8 → Bool) : List Signal → Bytes
  | .byte b :: rest => if p b then b :: takeBytes p rest else []
  | _ => []

/-- The stream behind the leading bytes of a class. -/
def dropBytes (p : UInt8 → Bool) : List Signal → List Signal
  | .byte b :: rest => if p b then dropBytes p rest else .byte b :: rest
  | stream => stream

section

variable {p : UInt8 → Bool}

theorem takeBytes_of_stops {stream : List Signal} (h : Stops p stream) :
    takeBytes p stream = [] := by
  cases stream with
  | nil => rfl
  | cons x rest =>
    cases x with
    | byte b => simp [takeBytes, h b rfl]
    | endOfInput => rfl
    | failure f => rfl

theorem dropBytes_of_stops {stream : List Signal} (h : Stops p stream) :
    dropBytes p stream = stream := by
  cases stream with
  | nil => rfl
  | cons x rest =>
    cases x with
    | byte b => simp [dropBytes, h b rfl]
    | endOfInput => rfl
    | failure f => rfl

/-- Bytes of the class before a stream are taken with what it starts with. -/
theorem takeBytes_append {bs : Bytes} (hbs : ∀ b ∈ bs, p b = true) (stream : List Signal) :
    takeBytes p (bs.map .byte ++ stream) = bs ++ takeBytes p stream := by
  induction bs with
  | nil => rfl
  | cons b bs ih =>
    rw [List.forall_mem_cons] at hbs
    simp [takeBytes, hbs.1, ih hbs.2]

theorem dropBytes_append {bs : Bytes} (hbs : ∀ b ∈ bs, p b = true) (stream : List Signal) :
    dropBytes p (bs.map .byte ++ stream) = dropBytes p stream := by
  induction bs with
  | nil => rfl
  | cons b bs ih =>
    rw [List.forall_mem_cons] at hbs
    simp [dropBytes, hbs.1, ih hbs.2]

/-- The run of a class is what stands before the first signal outside it. -/
theorem takeBytes_append_of_stops {bs : Bytes} (hbs : ∀ b ∈ bs, p b = true)
    {stream : List Signal} (h : Stops p stream) :
    takeBytes p (bs.map .byte ++ stream) = bs := by
  rw [takeBytes_append hbs, takeBytes_of_stops h, List.append_nil]

theorem dropBytes_append_of_stops {bs : Bytes} (hbs : ∀ b ∈ bs, p b = true)
    {stream : List Signal} (h : Stops p stream) :
    dropBytes p (bs.map .byte ++ stream) = stream := by
  rw [dropBytes_append hbs, dropBytes_of_stops h]

/-- Every stream is a run of a class and a stream that stops it. -/
theorem exists_run (p : UInt8 → Bool) (stream : List Signal) :
    ∃ (bs : Bytes) (rest : List Signal), stream = bs.map .byte ++ rest ∧
      (∀ b ∈ bs, p b = true) ∧ Stops p rest := by
  induction stream with
  | nil => exact ⟨[], [], rfl, by simp, stops_nil p⟩
  | cons x stream ih =>
    rcases byte_or_stops p x stream with ⟨b, rfl, hb⟩ | hstop
    · obtain ⟨bs, rest, rfl, hbs, hrest⟩ := ih
      exact ⟨b :: bs, rest, rfl, List.forall_mem_cons.mpr ⟨hb, hbs⟩, hrest⟩
    · exact ⟨[], x :: stream, rfl, by simp, hstop⟩

/-- Bytes up to the first one outside a class, with any signals behind, stop
    the class. -/
theorem stops_dropWhile (bs : Bytes) {rest : List Signal} (hrest : ∀ b, front rest ≠ .byte b) :
    Stops p ((bs.dropWhile p).map .byte ++ rest) := by
  rcases class_cases p bs with ⟨-, -, hdrop⟩ | ⟨run, b, more, -, -, hb, -, hdrop⟩
  · rw [hdrop]
    exact stops_of_front_ne p hrest
  · rw [hdrop]
    exact stops_of_front_byte rfl hb

theorem map_byte_append_eq (p : UInt8 → Bool) (bs : Bytes) (rest : List Signal) :
    bs.map .byte ++ rest =
      (bs.takeWhile p).map .byte ++ ((bs.dropWhile p).map .byte ++ rest) := by
  rw [← List.append_assoc, ← List.map_append, List.takeWhile_append_dropWhile]

/-- The leading bytes of a class, when no byte follows the bytes at hand. -/
theorem takeBytes_map (bs : Bytes) {rest : List Signal} (hrest : ∀ b, front rest ≠ .byte b) :
    takeBytes p (bs.map .byte ++ rest) = bs.takeWhile p := by
  rw [map_byte_append_eq p]
  exact takeBytes_append_of_stops (fun b hb => List.mem_takeWhile_imp hb) (stops_dropWhile bs hrest)

theorem dropBytes_map (bs : Bytes) {rest : List Signal} (hrest : ∀ b, front rest ≠ .byte b) :
    dropBytes p (bs.map .byte ++ rest) = (bs.dropWhile p).map .byte ++ rest := by
  rw [map_byte_append_eq p]
  exact dropBytes_append_of_stops (fun b hb => List.mem_takeWhile_imp hb) (stops_dropWhile bs hrest)

end

/-! ## The end of a request -/

/-- Ends a request at the front of a stream: a failure there is the outcome, an
    end or a failure is taken, and a byte stays. -/
def conclude {α : Type} (outcome : Except Refusal α) (stream : List Signal) :
    Except Refusal α × List Signal :=
  match front stream with
  | .byte _ => (outcome, stream)
  | .endOfInput => (outcome, stream.tail)
  | .failure f => (.error (.device f), stream.tail)

section

variable {α : Type} {outcome : Except Refusal α} {stream : List Signal}

theorem conclude_byte {b : UInt8} (h : front stream = .byte b) :
    conclude outcome stream = (outcome, stream) := by
  simp only [conclude, h]

theorem conclude_end (h : front stream = .endOfInput) :
    conclude outcome stream = (outcome, stream.tail) := by
  simp only [conclude, h]

theorem conclude_failure {f : Failure} (h : front stream = .failure f) :
    conclude outcome stream = (.error (.device f), stream.tail) := by
  simp only [conclude, h]

end

/-! ## Streams as endless sequences -/

/-- Two streams are alike when, each followed by its end for ever, they are one
    sequence of signals. -/
def Alike (xs ys : List Signal) : Prop :=
  ∀ n, xs.getD n .endOfInput = ys.getD n .endOfInput

theorem front_eq_getD (stream : List Signal) : front stream = stream.getD 0 .endOfInput := by
  cases stream <;> rfl

theorem getD_tail (stream : List Signal) (n : Nat) :
    stream.tail.getD n .endOfInput = stream.getD (n + 1) .endOfInput := by
  cases stream <;> simp

/-- Two requests agree: they have the same outcome and leave streams alike. -/
def SameOutcome {α : Type} (x y : α × List Signal) : Prop := x.1 = y.1 ∧ Alike x.2 y.2

namespace Alike

variable {xs ys : List Signal}

/-- An end behind the last signal is the end that comes there anyway. -/
theorem append_end (xs : List Signal) : Alike xs (xs ++ [.endOfInput]) := by
  intro n
  rcases Nat.lt_trichotomy n xs.length with hn | rfl | hn
  · simp [List.getElem?_append_left hn]
  · simp
  · rw [List.getD_eq_getElem?_getD, List.getD_eq_getElem?_getD, List.getElem?_eq_none (by omega),
      List.getElem?_eq_none (by simp; omega)]

theorem refl (xs : List Signal) : Alike xs xs := fun _ => rfl

/-- A stream is its front and its tail, also when it has run out. -/
theorem front_tail (xs : List Signal) : Alike xs (front xs :: xs.tail) := by
  cases xs with
  | nil => exact append_end []
  | cons x xs => exact refl (x :: xs)

theorem append_left (before : List Signal) (h : Alike xs ys) :
    Alike (before ++ xs) (before ++ ys) := by
  induction before with
  | nil => exact h
  | cons x before ih =>
    intro n
    cases n with
    | zero => rfl
    | succ n => simpa using ih n

theorem front_eq (h : Alike xs ys) : front xs = front ys := by
  rw [front_eq_getD, front_eq_getD]
  exact h 0

theorem tail (h : Alike xs ys) : Alike xs.tail ys.tail := by
  intro n
  rw [getD_tail, getD_tail]
  exact h (n + 1)

theorem stops (h : Alike xs ys) {p : UInt8 → Bool} (hstop : Stops p xs) : Stops p ys :=
  fun b hb => hstop b (h.front_eq.trans hb)

theorem takeBytes_eq (p : UInt8 → Bool) (h : Alike xs ys) : takeBytes p xs = takeBytes p ys := by
  induction xs generalizing ys with
  | nil => rw [takeBytes_of_stops (stops_nil p), takeBytes_of_stops (h.stops (stops_nil p))]
  | cons x xs ih =>
    rcases byte_or_stops p x xs with ⟨b, rfl, hb⟩ | hstop
    · have hys : ys = .byte b :: ys.tail := eq_cons_of_front_byte h.front_eq.symm
      have htail : takeBytes p xs = takeBytes p ys.tail := ih h.tail
      rw [hys]
      simp [takeBytes, hb, htail]
    · rw [takeBytes_of_stops hstop, takeBytes_of_stops (h.stops hstop)]

theorem dropBytes (p : UInt8 → Bool) (h : Alike xs ys) :
    Alike (dropBytes p xs) (Signals.dropBytes p ys) := by
  induction xs generalizing ys with
  | nil => rwa [dropBytes_of_stops (stops_nil p), dropBytes_of_stops (h.stops (stops_nil p))]
  | cons x xs ih =>
    rcases byte_or_stops p x xs with ⟨b, rfl, hb⟩ | hstop
    · have hys : ys = .byte b :: ys.tail := eq_cons_of_front_byte h.front_eq.symm
      have htail : Alike (Signals.dropBytes p xs) (Signals.dropBytes p ys.tail) := ih h.tail
      rw [hys]
      simpa [Signals.dropBytes, hb] using htail
    · rwa [dropBytes_of_stops hstop, dropBytes_of_stops (h.stops hstop)]

/-- Requests that end on streams alike agree. -/
theorem conclude {α : Type} (outcome : Except Refusal α) (h : Alike xs ys) :
    SameOutcome (conclude outcome xs) (Signals.conclude outcome ys) := by
  cases hx : front xs with
  | byte b =>
    rw [conclude_byte hx, conclude_byte (h.front_eq ▸ hx)]
    exact ⟨rfl, h⟩
  | endOfInput =>
    rw [conclude_end hx, conclude_end (h.front_eq ▸ hx)]
    exact ⟨rfl, h.tail⟩
  | failure f =>
    rw [conclude_failure hx, conclude_failure (h.front_eq ▸ hx)]
    exact ⟨rfl, h.tail⟩

end Alike

end Signals
end ProgramHost
