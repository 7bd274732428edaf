/-
  ProgramHost.Proofs.IntegerRequest

  What an integer request does, on the stream of its source.

  `Signals.integer` says it without pieces: behind the leading whitespace one
  sign may stand, then the digits. `Input.integer_stream` says that every run
  gives that outcome and leaves that rest of the stream.

  The invariant of a run is `IntegerState.Saw`: the bytes fed so far are
  whitespace, at most one sign and digits, and the state holds the value of those
  digits. `IntegerState.feed_spec` is its step lemma.
-/

import ProgramHost.Input.Basic
import ProgramHost.Proofs.Exits

namespace ProgramHost

theorem plus_ne_minus : plus ≠ minus := by decide

theorem isWhitespace_plus : isWhitespace plus = false := by decide

theorem isWhitespace_minus : isWhitespace minus = false := by decide

theorem ne_sign_of_isDigit {b : UInt8} (h : isDigit b = true) : ¬(b = plus ∨ b = minus) := by
  rintro (rfl | rfl)
  · revert h
    decide
  · revert h
    decide

/-! ## The states of a run -/

namespace IntegerState

/-- The sign part of an integer: nothing or a plus, or a minus. -/
inductive Sign : Bytes → Bool → Prop where
  | none : Sign [] false
  | plus : Sign [plus] false
  | minus : Sign [minus] true

/-- A byte at which an integer without a sign can stand: no whitespace and no
    sign. -/
def Starts (b : UInt8) : Prop := isWhitespace b = false ∧ ¬(b = plus ∨ b = minus)

/-- The outcome of an integer with these digits. -/
def outcome (negative : Bool) (digits : Bytes) : IntegerResult :=
  conclude (digits.foldl (Decimal.pushDigit negative) 0) (!digits.isEmpty)

/-- What an integer request has been fed when it stands in a state: whitespace
    only, or whitespace, a sign and digits. Without a sign there is a digit. -/
inductive Saw : Bytes → IntegerState → Prop where
  | blank {ws : Bytes} (hws : ∀ b ∈ ws, isWhitespace b = true) : Saw ws .blank
  | inside {ws sign digits : Bytes} {negative : Bool} (hws : ∀ b ∈ ws, isWhitespace b = true)
      (hsign : Sign sign negative) (hdigits : ∀ b ∈ digits, isDigit b = true)
      (hstart : sign = [] → digits ≠ []) :
      Saw (ws ++ sign ++ digits)
        (.inside negative (digits.foldl (Decimal.pushDigit negative) 0) (!digits.isEmpty))

/-- How an integer request settles inside a piece: a byte that is no digit stands
    behind the digits. -/
inductive Settles : Bytes → IntegerResult → Bytes → Prop where
  | complete {ws sign digits rest : Bytes} {negative : Bool} {b : UInt8}
      (hws : ∀ b ∈ ws, isWhitespace b = true) (hsign : Sign sign negative)
      (hdigits : ∀ b ∈ digits, isDigit b = true) (hb : isDigit b = false)
      (hstart : sign = [] → digits = [] → Starts b) :
      Settles (ws ++ sign ++ digits ++ b :: rest) (outcome negative digits) (b :: rest)

theorem started_append (digits more : Bytes) :
    (!digits.isEmpty || !more.isEmpty) = !(digits ++ more).isEmpty := by
  cases digits <;> simp

/-- A piece behind the sign keeps the invariant or settles the request. -/
theorem extend_spec {ws sign digits : Bytes} {negative : Bool}
    (hws : ∀ b ∈ ws, isWhitespace b = true) (hsign : Sign sign negative)
    (hdigits : ∀ b ∈ digits, isDigit b = true) (piece : Bytes)
    (hstart : sign = [] → digits = [] → ∃ b rest, piece = b :: rest ∧ Starts b) :
    match extend negative (digits.foldl (Decimal.pushDigit negative) 0) (!digits.isEmpty) piece with
    | .hungry s' => Saw (ws ++ sign ++ digits ++ piece) s'
    | .settled result unread => Settles (ws ++ sign ++ digits ++ piece) result unread := by
  rcases class_cases isDigit piece with
    ⟨hall, htake, hdrop⟩ | ⟨run, b, rest, rfl, hrun, hb, htake, hdrop⟩
  · -- The piece lies inside the digits.
    simp only [extend, htake, hdrop, started_append]
    rw [List.append_assoc _ digits, ← List.foldl_append]
    refine .inside hws hsign (List.forall_mem_append.mpr ⟨hdigits, hall⟩) fun hnone hnil => ?_
    obtain ⟨hd, rfl⟩ := List.append_eq_nil_iff.mp hnil
    obtain ⟨b, rest, heq, -⟩ := hstart hnone hd
    cases heq
  · -- The digits end inside the piece.
    simp only [extend, htake, hdrop, started_append]
    rw [← List.foldl_append, ← List.append_assoc, List.append_assoc _ digits]
    refine .complete hws hsign (List.forall_mem_append.mpr ⟨hdigits, hrun⟩) hb fun hnone hnil => ?_
    obtain ⟨hd, rfl⟩ := List.append_eq_nil_iff.mp hnil
    obtain ⟨c, rest', heq, hc⟩ := hstart hnone hd
    rw [List.nil_append, List.cons.injEq] at heq
    rwa [heq.1]

/-- The step lemma: a piece keeps the invariant or settles the request. -/
theorem feed_spec {used : Bytes} {s : IntegerState} (hs : Saw used s) (piece : Bytes) :
    match feed s piece with
    | .hungry s' => Saw (used ++ piece) s'
    | .settled result unread => Settles (used ++ piece) result unread := by
  cases hs with
  | inside hws hsign hdigits hstart =>
    exact extend_spec hws hsign hdigits piece fun hnone hnil => absurd hnil (hstart hnone)
  | blank hws =>
    rcases class_cases isWhitespace piece with
      ⟨hall, -, hdrop⟩ | ⟨run, b, rest, rfl, hrun, hb, -, hdrop⟩
    · simp only [feed, hdrop]
      exact .blank (List.forall_mem_append.mpr ⟨hws, hall⟩)
    · have hws' := List.forall_mem_append.mpr ⟨hws, hrun⟩
      have hnil := List.forall_mem_nil fun b => isDigit b = true
      simp only [feed, hdrop]
      -- A sign is taken; any other byte is left for the digits.
      by_cases hsign : b = plus ∨ b = minus
      · rw [if_pos hsign]
        rcases hsign with rfl | rfl
        · simpa [plus_ne_minus] using extend_spec hws' .plus hnil rest (by simp)
        · simpa using extend_spec hws' .minus hnil rest (by simp)
      · rw [if_neg hsign]
        simpa using extend_spec hws' .none hnil (b :: rest) fun _ _ => ⟨b, rest, rfl, hb, hsign⟩

/-- The invariant holds of every state that a run passes through. -/
theorem saw_of_passes {bs : Bytes} {s : IntegerState}
    (h : integerReader.Passes .blank bs s) : Saw bs s := by
  have hblank : Saw [] .blank := .blank (by simp)
  refine h.invariant (fun {used s piece s'} hs hfeed => ?_) hblank
  have hspec := feed_spec hs piece
  change feed s piece = .hungry s' at hfeed
  rwa [hfeed] at hspec

end IntegerState

/-! ## The request on a stream -/

namespace Signals

/-- The outcome of an integer request that stands behind the sign, and the stream
    that it leaves. -/
def number (negative : Bool) (stream : List Signal) : IntegerResult × List Signal :=
  conclude (IntegerState.outcome negative (takeBytes isDigit stream)) (dropBytes isDigit stream)

/-- The outcome of an integer request and the stream that it leaves. -/
def integer (stream : List Signal) : IntegerResult × List Signal :=
  let text := dropBytes isWhitespace stream
  match front text with
  | .byte b => if b = plus ∨ b = minus then number (b = minus) text.tail else number false text
  | _ => conclude (.error .unexpectedEnd) text

section

variable {ws sign digits : Bytes} {negative : Bool} {rest : List Signal}

theorem integer_blank (hws : ∀ b ∈ ws, isWhitespace b = true)
    (hrest : ∀ b, front rest ≠ .byte b) :
    integer (ws.map .byte ++ rest) = conclude (.error .unexpectedEnd) rest := by
  have htext : dropBytes isWhitespace (ws.map .byte ++ rest) = rest :=
    dropBytes_append_of_stops hws (stops_of_front_ne _ hrest)
  simp only [integer, htext]

theorem number_digits (hdigits : ∀ b ∈ digits, isDigit b = true) (hrest : Stops isDigit rest) :
    number negative (digits.map .byte ++ rest) =
      conclude (IntegerState.outcome negative digits) rest := by
  rw [number, takeBytes_append_of_stops hdigits hrest, dropBytes_append_of_stops hdigits hrest]

/-- Behind whitespace and a sign stand the digits. -/
theorem integer_signed {b : UInt8} (hws : ∀ b ∈ ws, isWhitespace b = true)
    (hb : b = plus ∨ b = minus) (stream : List Signal) :
    integer (ws.map .byte ++ .byte b :: stream) = number (b = minus) stream := by
  have hstop : Stops isWhitespace (.byte b :: stream) := by
    rcases hb with rfl | rfl
    · exact stops_of_front_byte rfl isWhitespace_plus
    · exact stops_of_front_byte rfl isWhitespace_minus
  simp only [integer, dropBytes_append_of_stops hws hstop, front_cons, if_pos hb, List.tail_cons]

/-- Without a sign the digits stand right behind whitespace. -/
theorem integer_unsigned {b : UInt8} (hws : ∀ b ∈ ws, isWhitespace b = true)
    {stream : List Signal} (hfront : front stream = .byte b) (hb : IntegerState.Starts b) :
    integer (ws.map .byte ++ stream) = number false stream := by
  have hstop : Stops isWhitespace stream := stops_of_front_byte hfront hb.1
  simp only [integer, dropBytes_append_of_stops hws hstop, hfront, if_neg hb.2]

theorem integer_number (hws : ∀ b ∈ ws, isWhitespace b = true)
    (hsign : IntegerState.Sign sign negative) (hdigits : ∀ b ∈ digits, isDigit b = true)
    (hrest : Stops isDigit rest)
    (hstart : sign = [] → digits = [] → ∃ b, front rest = .byte b ∧ IntegerState.Starts b) :
    integer ((ws ++ sign ++ digits).map .byte ++ rest) =
      conclude (IntegerState.outcome negative digits) rest := by
  rw [← number_digits hdigits hrest, List.map_append, List.map_append, List.append_assoc,
    List.append_assoc]
  cases hsign with
  | plus => simpa [plus_ne_minus] using integer_signed hws (.inl rfl) _
  | minus => simpa using integer_signed hws (.inr rfl) _
  | none =>
    have hfront : ∃ b, front (digits.map .byte ++ rest) = .byte b ∧ IntegerState.Starts b := by
      cases digits with
      | nil => exact hstart rfl rfl
      | cons d digits =>
        have hd := hdigits d (by simp)
        exact ⟨d, rfl, isWhitespace_of_isDigit hd, ne_sign_of_isDigit hd⟩
    obtain ⟨b, hfront, hb⟩ := hfront
    exact integer_unsigned hws hfront hb

end

end Signals

/-! ## Runs -/

namespace IntegerState

variable {fed : Bytes} {rest : List Signal}

theorem Settles.integer_eq {result : IntegerResult} {unread : Bytes}
    (h : Settles fed result unread) (rest : List Signal) :
    Signals.integer (fed.map .byte ++ rest) = (result, unread.map .byte ++ rest) := by
  cases h with
  | @complete ws sign digits more negative b hws hsign hdigits hb hstart =>
    have hstop : Signals.Stops isDigit ((b :: more).map .byte ++ rest) :=
      Signals.stops_of_front_byte rfl hb
    have h := Signals.integer_number hws hsign hdigits hstop
      fun hnone hnil => ⟨b, rfl, hstart hnone hnil⟩
    rw [Signals.conclude_byte (b := b) rfl] at h
    rw [List.map_append, List.append_assoc, h]

/-- At an end of input the bytes fed so far decide. -/
theorem Saw.integer_atEnd {s : IntegerState} (h : Saw fed s)
    (hfront : Signals.front rest = .endOfInput) :
    Signals.integer (fed.map .byte ++ rest) = (atEnd s, rest.tail) := by
  cases h with
  | blank hws =>
    rw [Signals.integer_blank hws (by simp [hfront]), Signals.conclude_end hfront, atEnd]
  | inside hws hsign hdigits hstart =>
    have hstop : Signals.Stops isDigit rest := Signals.stops_of_front_ne _ (by simp [hfront])
    rw [Signals.integer_number hws hsign hdigits hstop fun hnone hnil => absurd hnil (hstart hnone),
      Signals.conclude_end hfront]
    rfl

/-- At a failure the request is refused with it, whatever the digits. -/
theorem Saw.integer_atFailure {s : IntegerState} (h : Saw fed s) {f : Failure}
    (hfront : Signals.front rest = .failure f) :
    Signals.integer (fed.map .byte ++ rest) = (.error (.device f), rest.tail) := by
  cases h with
  | blank hws => rw [Signals.integer_blank hws (by simp [hfront]), Signals.conclude_failure hfront]
  | inside hws hsign hdigits hstart =>
    have hstop : Signals.Stops isDigit rest := Signals.stops_of_front_ne _ (by simp [hfront])
    rw [Signals.integer_number hws hsign hdigits hstop fun hnone hnil => absurd hnil (hstart hnone),
      Signals.conclude_failure hfront]

end IntegerState

/-- Every exit of an integer request is the one that the stream says. -/
theorem integer_of_ends {stream rest : List Signal} {result : IntegerResult}
    (h : integerReader.Ends .blank stream result rest) :
    Signals.integer stream = (result, rest) := by
  cases h with
  | @settled t bs piece unread result rest passed hfeed =>
    have hspec := IntegerState.feed_spec (IntegerState.saw_of_passes passed) piece
    change IntegerState.feed t piece = .settled result unread at hfeed
    rw [hfeed] at hspec
    exact hspec.integer_eq rest
  | ended passed hfront => exact (IntegerState.saw_of_passes passed).integer_atEnd hfront
  | failed passed hfront => exact (IntegerState.saw_of_passes passed).integer_atFailure hfront

namespace Input

/-- An integer request gives what the stream says and leaves the rest of it,
    whatever the pieces. -/
theorem integer_stream (input : Input) :
    Signals.integer input.source.stream =
      (input.integer.1, input.integer.2.source.stream) :=
  integer_of_ends (integerReader.run_ends .blank input.source)

end Input

end ProgramHost
