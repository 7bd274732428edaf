/-
  ProgramHost.Proofs.Segments

  Requests on a segment of input: bytes, and then an end.

  On a segment a request needs no more than the byte string. A token request
  takes `firstWord` and leaves `behindWord`; an integer request leaves
  `behindNumber`. The end of the segment is taken exactly when nothing of the
  segment is left.
-/

import ProgramHost.Proofs.IntegerRequest
import ProgramHost.Proofs.TokenRequest

namespace ProgramHost

/-! ## Words and numbers at the front -/

/-- The bytes up to the next whitespace, behind leading whitespace. -/
def firstWord (bs : Bytes) : Bytes := (bs.dropWhile isWhitespace).takeWhile (!isWhitespace ·)

/-- What stands behind the first word. -/
def behindWord (bs : Bytes) : Bytes := (bs.dropWhile isWhitespace).dropWhile (!isWhitespace ·)

/-- What stands behind one sign, if there is one. -/
def behindSign : Bytes → Bytes
  | [] => []
  | b :: rest => if b = plus ∨ b = minus then rest else b :: rest

/-- What stands behind leading whitespace, one sign and digits, as far as they
    are there. -/
def behindNumber (bs : Bytes) : Bytes :=
  (behindSign (bs.dropWhile isWhitespace)).dropWhile isDigit

/-- Leading whitespace, the first word and what stands behind it make up a byte
    string. -/
theorem word_cut (bs : Bytes) :
    ∃ ws, (∀ b ∈ ws, isWhitespace b = true) ∧ bs = ws ++ (firstWord bs ++ behindWord bs) :=
  ⟨bs.takeWhile isWhitespace, fun _ hb => List.mem_takeWhile_imp hb, by
    rw [firstWord, behindWord, List.takeWhile_append_dropWhile, List.takeWhile_append_dropWhile]⟩

theorem not_isWhitespace_of_mem_firstWord {bs : Bytes} {b : UInt8} (h : b ∈ firstWord bs) :
    isWhitespace b = false := by
  simpa using List.mem_takeWhile_imp h

/-- Without a first word there is nothing behind it: all bytes are whitespace. -/
theorem forall_isWhitespace_of_firstWord {bs : Bytes} (h : firstWord bs = []) :
    (∀ b ∈ bs, isWhitespace b = true) ∧ behindWord bs = [] := by
  rcases class_cases isWhitespace bs with ⟨hall, -, hdrop⟩ | ⟨run, b, rest, -, -, hb, -, hdrop⟩
  · exact ⟨hall, by rw [behindWord, hdrop]; rfl⟩
  · simp [firstWord, hdrop, hb] at h

/-- The first word ends at whitespace, or at the end of the byte string. -/
theorem behindWord_eq_cons {bs rest : Bytes} {b : UInt8} (h : behindWord bs = b :: rest) :
    isWhitespace b = true := by
  rcases class_cases (!isWhitespace ·) (bs.dropWhile isWhitespace) with
    ⟨-, -, hdrop⟩ | ⟨run, c, more, -, -, hc, -, hdrop⟩
  · rw [behindWord, hdrop] at h
    cases h
  · rw [behindWord, hdrop] at h
    cases h
    simpa using hc

/-! ## Requests -/

namespace Signals

variable {rest : List Signal}

theorem ne_byte_of_front_end (h : front rest = .endOfInput) (b : UInt8) :
    front rest ≠ .byte b := by
  simp [h]

/-- The stream behind a segment of which some bytes are left: with none, its end
    is taken too. -/
def afterSegment (left : Bytes) (rest : List Signal) : List Signal :=
  if left = [] then rest.tail else left.map .byte ++ rest

theorem afterSegment_nil (left : Bytes) : afterSegment left [] = left.map .byte := by
  cases left <;> simp [afterSegment]

theorem conclude_segment {α : Type} (outcome : Except Refusal α) (left : Bytes)
    (h : front rest = .endOfInput) :
    conclude outcome (left.map .byte ++ rest) = (outcome, afterSegment left rest) := by
  cases left with
  | nil => exact conclude_end h
  | cons b left => exact conclude_byte rfl

/-- A token request on a segment whose first word fits. -/
theorem token_segment {limit : Nat} {bs : Bytes} (h : front rest = .endOfInput)
    (hfits : (firstWord bs).length ≤ limit) :
    token limit (bs.map .byte ++ rest) =
      (if firstWord bs = [] then .error .unexpectedEnd else .ok (firstWord bs),
        afterSegment (behindWord bs) rest) := by
  have hrest := ne_byte_of_front_end h
  have htext := dropBytes_map (p := isWhitespace) bs hrest
  have hword : takeBytes (!isWhitespace ·) ((bs.dropWhile isWhitespace).map .byte ++ rest) =
      firstWord bs := takeBytes_map _ hrest
  have hleft : dropBytes (!isWhitespace ·) ((bs.dropWhile isWhitespace).map .byte ++ rest) =
      (behindWord bs).map .byte ++ rest := dropBytes_map _ hrest
  simp only [token, htext, hword, hleft, if_neg (Nat.not_lt.mpr hfits), conclude_segment _ _ h]
  by_cases hnone : firstWord bs = []
  · obtain ⟨hblank, hbehind⟩ := forall_isWhitespace_of_firstWord hnone
    rw [if_pos hnone, if_pos hnone, hbehind, List.dropWhile_eq_nil_iff.mpr hblank]
  · rw [if_neg hnone, if_neg hnone]

/-- A token request on a segment whose first word does not fit. -/
theorem token_segment_tooLong {limit : Nat} {bs : Bytes} (hlong : limit < (firstWord bs).length)
    (rest : List Signal) :
    (token limit (bs.map .byte ++ rest)).1 = .error (.tokenTooLong limit) := by
  obtain ⟨ws, hws, hbs⟩ := word_cut bs
  have hword : ∀ b ∈ firstWord bs, (!isWhitespace b) = true := by
    intro b hb
    simp [not_isWhitespace_of_mem_firstWord hb]
  have hstream : bs.map Signal.byte ++ rest =
      (ws ++ firstWord bs).map .byte ++ ((behindWord bs).map .byte ++ rest) := by
    rw [← List.append_assoc, ← List.map_append, List.append_assoc, ← hbs]
  rw [hstream]
  exact token_tooLong hws hword hlong _

/-- An integer request on a segment gives an integer, or finds none, and leaves
    what stands behind the number. -/
theorem integer_segment (bs : Bytes) (h : front rest = .endOfInput) :
    ∃ outcome, integer (bs.map .byte ++ rest) = (outcome, afterSegment (behindNumber bs) rest) ∧
      (outcome = .error .unexpectedEnd ∨
        ∃ negative digits, outcome = IntegerState.outcome negative digits) := by
  have hrest := ne_byte_of_front_end h
  have htext := dropBytes_map (p := isWhitespace) bs hrest
  have hnumber (negative : Bool) (text : Bytes) :
      number negative (text.map .byte ++ rest) =
        (IntegerState.outcome negative (text.takeWhile isDigit),
          afterSegment (text.dropWhile isDigit) rest) := by
    rw [number, takeBytes_map text hrest, dropBytes_map text hrest, conclude_segment _ _ h]
  simp only [integer, htext, behindNumber]
  cases bs.dropWhile isWhitespace with
  | nil =>
    refine ⟨.error .unexpectedEnd, ?_, .inl rfl⟩
    simp only [List.map_nil, List.nil_append, h]
    exact conclude_segment _ [] h
  | cons b text =>
    -- A sign is taken before the digits.
    by_cases hsign : b = plus ∨ b = minus
    · simp only [List.map_cons, List.cons_append, front_cons, if_pos hsign, List.tail_cons,
        hnumber, behindSign]
      exact ⟨_, rfl, .inr ⟨_, _, rfl⟩⟩
    · simp only [List.map_cons, List.cons_append, front_cons, if_neg hsign, behindSign]
      exact ⟨_, hnumber false (b :: text), .inr ⟨_, _, rfl⟩⟩

end Signals
end ProgramHost
