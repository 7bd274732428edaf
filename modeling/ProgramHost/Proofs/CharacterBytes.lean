/-
  ProgramHost.Proofs.CharacterBytes

  The bytes of single characters.

  A number can be spelled with one, two, three or four bytes (`Utf8.spelled`), and UTF-8
  takes the shortest spelling of every scalar value (`Utf8.isSequence_iff`). The reader of
  byte strings knows nothing of numbers: it holds each byte to a range that the leading byte
  gives. `Utf8.isSequence_cons_iff` says that these ranges describe the characters exactly.
  A spelling that is too long, or of a number that is no scalar value, therefore leaves the
  ranges at its second byte (`Utf8.Misspells.split`).
-/

import Mathlib.Data.List.Basic
import Mathlib.Tactic.SplitIfs
import ProgramHost.Text.Utf8

namespace ProgramHost
namespace Utf8

/-! ## Spellings -/

/-- The numbers below this one can be spelled with the given number of continuation
    bytes. -/
def spellable : Nat → Nat
  | 0 => 0x80
  | 1 => 0x800
  | 2 => 0x10000
  | _ => 0x200000

/-- A number spelled with the given number of continuation bytes, be it a scalar value or
    not and be the spelling the shortest or not. -/
def spelled : Nat → Nat → Bytes
  | 0, n => [UInt8.ofNat n]
  | 1, n => [UInt8.ofNat (n / 64 + 0xc0), UInt8.ofNat (n % 64 + 0x80)]
  | 2, n => [UInt8.ofNat (n / 4096 + 0xe0), UInt8.ofNat (n / 64 % 64 + 0x80),
      UInt8.ofNat (n % 64 + 0x80)]
  | _, n => [UInt8.ofNat (n / 262144 + 0xf0), UInt8.ofNat (n / 4096 % 64 + 0x80),
      UInt8.ofNat (n / 64 % 64 + 0x80), UInt8.ofNat (n % 64 + 0x80)]

/-- So many continuation bytes spell a number, and fewer do not. -/
structure Shortest (count n : Nat) : Prop where
  count_le : count ≤ 3
  lt : n < spellable count
  least : count = 0 ∨ spellable (count - 1) ≤ n

/-- The bytes of one character. -/
def IsSequence (bs : Bytes) : Prop := ∃ c : Char, bs = String.utf8EncodeChar c

theorem exists_char {n : Nat} (h : n.isValidChar) : ∃ c : Char, c.val.toNat = n := by
  have hn : (UInt32.ofNat n).toNat = n := by
    apply UInt32.toNat_ofNat_of_lt'
    rcases h with hlow | ⟨-, hhigh⟩
    · exact Nat.lt_trans hlow (by decide)
    · exact Nat.lt_trans hhigh (by decide)
  refine ⟨⟨UInt32.ofNat n, ?_⟩, hn⟩
  show (UInt32.ofNat n).toNat.isValidChar
  rwa [hn]

theorem exists_shortest {n : Nat} (h : n.isValidChar) : ∃ count, Shortest count n := by
  have hlt : n < 0x110000 := by
    simp only [Nat.isValidChar] at h
    omega
  by_cases h1 : n < 0x80
  · exact ⟨0, by omega, h1, .inl rfl⟩
  by_cases h2 : n < 0x800
  · exact ⟨1, by omega, h2, .inr (Nat.le_of_not_lt h1)⟩
  by_cases h3 : n < 0x10000
  · exact ⟨2, by omega, h3, .inr (Nat.le_of_not_lt h2)⟩
  · exact ⟨3, by omega, Nat.lt_trans hlt (by decide), .inr (Nat.le_of_not_lt h3)⟩

theorem utf8EncodeChar_eq_spelled {c : Char} {count : Nat} (h : Shortest count c.val.toNat) :
    String.utf8EncodeChar c = spelled count c.val.toNat := by
  have hvalid : c.val.toNat < 0x110000 := by
    have hscalar := c.valid
    simp only [UInt32.isValidChar, Nat.isValidChar] at hscalar
    omega
  obtain ⟨hcount, hlt, hleast⟩ := h
  rw [String.utf8EncodeChar]
  -- The encoder takes the leading bits modulo their room, which they do not exceed.
  match count, hcount with
  | 0, _ =>
    have hlt : c.val.toNat < 0x80 := hlt
    rw [if_pos (by omega), spelled]
  | 1, _ =>
    have hlt : c.val.toNat < 0x800 := hlt
    have hleast : 0x80 ≤ c.val.toNat := hleast.resolve_left (by decide)
    rw [if_neg (by omega), if_pos (by omega), spelled,
      Nat.mod_eq_of_lt (show c.val.toNat / 64 < 32 by omega)]
  | 2, _ =>
    have hlt : c.val.toNat < 0x10000 := hlt
    have hleast : 0x800 ≤ c.val.toNat := hleast.resolve_left (by decide)
    rw [if_neg (by omega), if_neg (by omega), if_pos (by omega), spelled,
      Nat.mod_eq_of_lt (show c.val.toNat / 4096 < 16 by omega)]
  | 3, _ =>
    have hleast : 0x10000 ≤ c.val.toNat := hleast.resolve_left (by decide)
    rw [if_neg (by omega), if_neg (by omega), if_neg (by omega), spelled,
      Nat.mod_eq_of_lt (show c.val.toNat / 262144 < 8 by omega)]
    all_goals decide

/-- The characters are the shortest spellings of the scalar values. -/
theorem isSequence_iff {bs : Bytes} :
    IsSequence bs ↔ ∃ count n, n.isValidChar ∧ Shortest count n ∧ bs = spelled count n := by
  constructor
  · rintro ⟨c, rfl⟩
    obtain ⟨count, hshortest⟩ := exists_shortest c.valid
    exact ⟨count, _, c.valid, hshortest, utf8EncodeChar_eq_spelled hshortest⟩
  · rintro ⟨count, n, hvalid, hshortest, rfl⟩
    obtain ⟨c, rfl⟩ := exists_char hvalid
    exact ⟨c, (utf8EncodeChar_eq_spelled hshortest).symm⟩

/-! ## Continuation bytes -/

/-- Every byte of a sequence but the first lies in this range. -/
def Continues (x : UInt8) : Prop := 0x80 ≤ x ∧ x ≤ 0xbf

theorem continues_iff {x : UInt8} : Continues x ↔ 0x80 ≤ x.toNat ∧ x.toNat ≤ 0xbf := by
  rw [Continues, UInt8.le_iff_toNat_le, UInt8.le_iff_toNat_le]
  rfl

theorem toNat_ofNat {n : Nat} (h : n < 0x100) : (UInt8.ofNat n).toNat = n :=
  UInt8.toNat_ofNat_of_lt' h

theorem eq_ofNat {b : UInt8} {n : Nat} (h : b.toNat = n) : UInt8.ofNat n = b := by
  rw [← h, UInt8.ofNat_toNat]

theorem continues_ofNat (n : Nat) : Continues (UInt8.ofNat (n % 64 + 0x80)) := by
  rw [continues_iff, toNat_ofNat (by omega)]
  omega

/-! ## Leading bytes -/

/-- The bytes that complete an open sequence: the first lies in the range of the opening,
    the others are continuation bytes. -/
def Opening.Completes (o : Opening) (tail : Bytes) : Prop :=
  ∃ x rest, tail = x :: rest ∧ (o.low ≤ x ∧ x ≤ o.high) ∧ rest.length = o.after ∧
    ∀ y ∈ rest, Continues y

/-- The bytes that may follow a leading byte up to the end of its sequence. -/
def Lead.Allows : Lead → Bytes → Prop
  | .single, tail => tail = []
  | .opens o, tail => o.Completes tail
  | .stray, _ => False

/-- The role of a byte, by its number. -/
theorem lead_eq (b : UInt8) : lead b =
    if b.toNat ≤ 0x7f then .single
    else if b.toNat < 0xc2 then .stray
    else if b.toNat ≤ 0xdf then .opens ⟨[b], 0, 0x80, 0xbf⟩
    else if b.toNat = 0xe0 then .opens ⟨[b], 1, 0xa0, 0xbf⟩
    else if b.toNat = 0xed then .opens ⟨[b], 1, 0x80, 0x9f⟩
    else if b.toNat ≤ 0xef then .opens ⟨[b], 1, 0x80, 0xbf⟩
    else if b.toNat = 0xf0 then .opens ⟨[b], 2, 0x90, 0xbf⟩
    else if b.toNat ≤ 0xf3 then .opens ⟨[b], 2, 0x80, 0xbf⟩
    else if b.toNat = 0xf4 then .opens ⟨[b], 2, 0x80, 0x8f⟩
    else .stray := by
  simp only [lead, UInt8.le_iff_toNat_le, UInt8.lt_iff_toNat_lt, ← UInt8.toNat_inj,
    UInt8.reduceToNat]

section

variable {b : UInt8}

theorem lead_single (h : b.toNat ≤ 0x7f) : lead b = .single := by
  rw [lead_eq, if_pos h]

theorem lead_stray (h : 0x80 ≤ b.toNat) (h' : b.toNat < 0xc2 ∨ 0xf5 ≤ b.toNat) :
    lead b = .stray := by
  rw [lead_eq, if_neg (by omega)]
  rcases h' with hlow | hhigh
  · rw [if_pos hlow]
  · rw [if_neg (by omega), if_neg (by omega), if_neg (by omega), if_neg (by omega),
      if_neg (by omega), if_neg (by omega), if_neg (by omega), if_neg (by omega)]

theorem lead_two (h : 0xc2 ≤ b.toNat) (h' : b.toNat ≤ 0xdf) :
    lead b = .opens ⟨[b], 0, 0x80, 0xbf⟩ := by
  rw [lead_eq, if_neg (by omega), if_neg (by omega), if_pos h']

/-- Three bytes: behind `0xe0` the second byte must rule out spellings that are too long,
    behind `0xed` surrogates. -/
theorem lead_three (h : 0xe0 ≤ b.toNat) (h' : b.toNat ≤ 0xef) :
    ∃ low high, lead b = .opens ⟨[b], 1, low, high⟩ ∧ low ≤ high ∧
      ∀ x : UInt8, low ≤ x ∧ x ≤ high ↔
        (0x80 ≤ x.toNat ∧ x.toNat ≤ 0xbf) ∧ (b.toNat = 0xe0 → 0xa0 ≤ x.toNat) ∧
          (b.toNat = 0xed → x.toNat ≤ 0x9f) := by
  rw [lead_eq, if_neg (by omega), if_neg (by omega), if_neg (by omega)]
  split_ifs
  all_goals
    refine ⟨_, _, rfl, by decide, fun x => ?_⟩
    simp only [UInt8.le_iff_toNat_le, UInt8.reduceToNat]
    omega

/-- Four bytes: behind `0xf0` the second byte must rule out spellings that are too long,
    behind `0xf4` numbers that are too large. -/
theorem lead_four (h : 0xf0 ≤ b.toNat) (h' : b.toNat ≤ 0xf4) :
    ∃ low high, lead b = .opens ⟨[b], 2, low, high⟩ ∧ low ≤ high ∧
      ∀ x : UInt8, low ≤ x ∧ x ≤ high ↔
        (0x80 ≤ x.toNat ∧ x.toNat ≤ 0xbf) ∧ (b.toNat = 0xf0 → 0x90 ≤ x.toNat) ∧
          (b.toNat = 0xf4 → x.toNat ≤ 0x8f) := by
  rw [lead_eq, if_neg (by omega), if_neg (by omega), if_neg (by omega), if_neg (by omega),
    if_neg (by omega), if_neg (by omega)]
  split_ifs
  case neg => omega
  all_goals
    refine ⟨_, _, rfl, by decide, fun x => ?_⟩
    simp only [UInt8.le_iff_toNat_le, UInt8.reduceToNat]
    omega

theorem lead_classes (b : UInt8) :
    b.toNat ≤ 0x7f ∨ (0x80 ≤ b.toNat ∧ (b.toNat < 0xc2 ∨ 0xf5 ≤ b.toNat)) ∨
      (0xc2 ≤ b.toNat ∧ b.toNat ≤ 0xdf) ∨ (0xe0 ≤ b.toNat ∧ b.toNat ≤ 0xef) ∨
      (0xf0 ≤ b.toNat ∧ b.toNat ≤ 0xf4) := by
  omega

/-- What a leading byte opens starts with the byte, and its range is not empty. -/
theorem lead_opens {o : Opening} (h : lead b = .opens o) : o.seen = [b] ∧ o.low ≤ o.high := by
  rcases lead_classes b with h1 | ⟨hb, hstray⟩ | ⟨hb, h2⟩ | ⟨hb, h3⟩ | ⟨hb, h4⟩
  · rw [lead_single h1] at h
    cases h
  · rw [lead_stray hb hstray] at h
    cases h
  · rw [lead_two hb h2] at h
    cases h
    exact ⟨rfl, show (0x80 : UInt8) ≤ 0xbf by decide⟩
  · obtain ⟨low, high, hlead, hle, -⟩ := lead_three hb h3
    rw [hlead] at h
    cases h
    exact ⟨rfl, hle⟩
  · obtain ⟨low, high, hlead, hle, -⟩ := lead_four hb h4
    rw [hlead] at h
    cases h
    exact ⟨rfl, hle⟩

end

/-! ## The ranges describe the characters -/

/-- The bytes of a character lie in the ranges. -/
theorem allows_of_isSequence {b : UInt8} {tail : Bytes} (h : IsSequence (b :: tail)) :
    (lead b).Allows tail := by
  obtain ⟨count, n, hvalid, ⟨hcount, hlt, hleast⟩, hspelled⟩ := isSequence_iff.mp h
  simp only [Nat.isValidChar] at hvalid
  match count, hcount with
  | 0, _ =>
    have hlt : n < 0x80 := hlt
    obtain ⟨rfl, rfl⟩ := List.cons.inj hspelled
    have hb : (UInt8.ofNat n).toNat = n := toNat_ofNat (by omega)
    rw [lead_single (by omega)]
    rfl
  | 1, _ =>
    have hlt : n < 0x800 := hlt
    have hleast : 0x80 ≤ n := hleast.resolve_left (by decide)
    obtain ⟨rfl, rfl⟩ := List.cons.inj hspelled
    have hb : (UInt8.ofNat (n / 64 + 0xc0)).toNat = n / 64 + 0xc0 := toNat_ofNat (by omega)
    rw [lead_two (by omega) (by omega)]
    exact ⟨_, [], rfl, continues_ofNat n, rfl, List.forall_mem_nil _⟩
  | 2, _ =>
    have hlt : n < 0x10000 := hlt
    have hleast : 0x800 ≤ n := hleast.resolve_left (by decide)
    obtain ⟨rfl, rfl⟩ := List.cons.inj hspelled
    have hb : (UInt8.ofNat (n / 4096 + 0xe0)).toNat = n / 4096 + 0xe0 := toNat_ofNat (by omega)
    obtain ⟨low, high, hlead, -, hrange⟩ := lead_three (b := UInt8.ofNat (n / 4096 + 0xe0))
      (by omega) (by omega)
    rw [hlead]
    refine ⟨_, [_], rfl, (hrange _).mpr ?_, rfl, List.forall_mem_singleton.mpr (continues_ofNat n)⟩
    rw [hb, toNat_ofNat (by omega)]
    omega
  | 3, _ =>
    have hleast : 0x10000 ≤ n := hleast.resolve_left (by decide)
    obtain ⟨rfl, rfl⟩ := List.cons.inj hspelled
    have hb : (UInt8.ofNat (n / 262144 + 0xf0)).toNat = n / 262144 + 0xf0 := toNat_ofNat (by omega)
    obtain ⟨low, high, hlead, -, hrange⟩ := lead_four (b := UInt8.ofNat (n / 262144 + 0xf0))
      (by omega) (by omega)
    rw [hlead]
    refine ⟨_, [_, _], rfl, (hrange _).mpr ?_, rfl, List.forall_mem_cons.mpr
      ⟨continues_ofNat (n / 64), List.forall_mem_singleton.mpr (continues_ofNat n)⟩⟩
    rw [hb, toNat_ofNat (by omega)]
    omega

section

variable {b x y z : UInt8}

theorem isSequence_one (hb : b.toNat ≤ 0x7f) : IsSequence [b] := by
  refine isSequence_iff.mpr ⟨0, b.toNat, ?_, ⟨by omega, ?_, .inl rfl⟩, ?_⟩
  · simp only [Nat.isValidChar]
    omega
  · simp only [spellable]
    omega
  · rw [spelled, UInt8.ofNat_toNat]

theorem isSequence_two (hb : 0xc2 ≤ b.toNat ∧ b.toNat ≤ 0xdf) (hx : Continues x) :
    IsSequence [b, x] := by
  rw [continues_iff] at hx
  refine isSequence_iff.mpr ⟨1, (b.toNat - 0xc0) * 64 + (x.toNat - 0x80), ?_,
    ⟨by omega, ?_, .inr ?_⟩, ?_⟩
  · simp only [Nat.isValidChar]
    omega
  · simp only [spellable]
    omega
  · simp only [spellable]
    omega
  · rw [spelled, eq_ofNat (b := b) (by omega), eq_ofNat (b := x) (by omega)]

theorem isSequence_three (hb : 0xe0 ≤ b.toNat ∧ b.toNat ≤ 0xef)
    (hx : (0x80 ≤ x.toNat ∧ x.toNat ≤ 0xbf) ∧ (b.toNat = 0xe0 → 0xa0 ≤ x.toNat) ∧
      (b.toNat = 0xed → x.toNat ≤ 0x9f)) (hy : Continues y) : IsSequence [b, x, y] := by
  rw [continues_iff] at hy
  refine isSequence_iff.mpr ⟨2, (b.toNat - 0xe0) * 4096 + (x.toNat - 0x80) * 64 +
    (y.toNat - 0x80), ?_, ⟨by omega, ?_, .inr ?_⟩, ?_⟩
  · simp only [Nat.isValidChar]
    omega
  · simp only [spellable]
    omega
  · simp only [spellable]
    omega
  · rw [spelled, eq_ofNat (b := b) (by omega), eq_ofNat (b := x) (by omega),
      eq_ofNat (b := y) (by omega)]

theorem isSequence_four (hb : 0xf0 ≤ b.toNat ∧ b.toNat ≤ 0xf4)
    (hx : (0x80 ≤ x.toNat ∧ x.toNat ≤ 0xbf) ∧ (b.toNat = 0xf0 → 0x90 ≤ x.toNat) ∧
      (b.toNat = 0xf4 → x.toNat ≤ 0x8f)) (hy : Continues y) (hz : Continues z) :
    IsSequence [b, x, y, z] := by
  rw [continues_iff] at hy hz
  refine isSequence_iff.mpr ⟨3, (b.toNat - 0xf0) * 262144 + (x.toNat - 0x80) * 4096 +
    (y.toNat - 0x80) * 64 + (z.toNat - 0x80), ?_, ⟨by omega, ?_, .inr ?_⟩, ?_⟩
  · simp only [Nat.isValidChar]
    omega
  · simp only [spellable]
    omega
  · simp only [spellable]
    omega
  · rw [spelled, eq_ofNat (b := b) (by omega), eq_ofNat (b := x) (by omega),
      eq_ofNat (b := y) (by omega), eq_ofNat (b := z) (by omega)]
    all_goals decide

end

/-- Bytes in the ranges are a character. -/
theorem isSequence_of_allows {b : UInt8} {tail : Bytes} (h : (lead b).Allows tail) :
    IsSequence (b :: tail) := by
  -- The leading byte says how many bytes follow.
  rcases lead_classes b with h1 | ⟨hb, hstray⟩ | ⟨hb, h2⟩ | ⟨hb, h3⟩ | ⟨hb, h4⟩
  · rw [lead_single h1] at h
    obtain rfl : tail = [] := h
    exact isSequence_one h1
  · rw [lead_stray hb hstray] at h
    exact h.elim
  · rw [lead_two hb h2] at h
    obtain ⟨x, rest, rfl, hx, hlength, -⟩ := h
    obtain rfl : rest = [] := List.eq_nil_of_length_eq_zero hlength
    exact isSequence_two ⟨hb, h2⟩ hx
  · obtain ⟨low, high, hlead, -, hrange⟩ := lead_three hb h3
    rw [hlead] at h
    obtain ⟨x, rest, rfl, hx, hlength, hrest⟩ := h
    obtain ⟨y, rfl⟩ := List.length_eq_one_iff.mp hlength
    exact isSequence_three ⟨hb, h3⟩ ((hrange x).mp hx) (List.forall_mem_singleton.mp hrest)
  · obtain ⟨low, high, hlead, -, hrange⟩ := lead_four hb h4
    rw [hlead] at h
    obtain ⟨x, rest, rfl, hx, hlength, hrest⟩ := h
    obtain ⟨y, z, rfl⟩ := List.length_eq_two.mp hlength
    obtain ⟨hy, hz⟩ := List.forall_mem_cons.mp hrest
    exact isSequence_four ⟨hb, h4⟩ ((hrange x).mp hx) hy (List.forall_mem_singleton.mp hz)

/-- A leading byte allows exactly what makes a character with it. -/
theorem isSequence_cons_iff {b : UInt8} {tail : Bytes} :
    IsSequence (b :: tail) ↔ (lead b).Allows tail :=
  ⟨allows_of_isSequence, isSequence_of_allows⟩

theorem not_isSequence_one {b : UInt8} (h : 0x80 ≤ b.toNat) : ¬ IsSequence [b] := by
  intro hsequence
  obtain ⟨count, n, -, ⟨hcount, hlt, -⟩, hspelled⟩ := isSequence_iff.mp hsequence
  match count, hcount with
  | 0, _ =>
    have hlt : n < 0x80 := hlt
    obtain ⟨rfl, -⟩ := List.cons.inj hspelled
    rw [toNat_ofNat (by omega)] at h
    omega
  | 1, _ | 2, _ | 3, _ => cases hspelled

/-- Two characters that start with the same byte have the same length. -/
theorem IsSequence.length_eq {b : UInt8} {tail tail' : Bytes} (h : IsSequence (b :: tail))
    (h' : IsSequence (b :: tail')) : tail.length = tail'.length := by
  rw [isSequence_cons_iff] at h h'
  cases hlead : lead b with
  | single =>
    rw [hlead] at h h'
    rw [show tail = [] from h, show tail' = [] from h']
  | opens o =>
    rw [hlead] at h h'
    obtain ⟨x, rest, rfl, -, hlength, -⟩ := h
    obtain ⟨x', rest', rfl, -, hlength', -⟩ := h'
    rw [List.length_cons, List.length_cons, hlength, hlength']
  | stray =>
    rw [hlead] at h
    exact h.elim

/-! ## Misspelled numbers -/

/-- A spelling in more than one byte that is no character: it is too long, or the number is
    a surrogate or too large. -/
structure Misspells (count n : Nat) : Prop where
  longer : 1 ≤ count
  count_le : count ≤ 3
  lt : n < spellable count
  wrong : n < spellable (count - 1) ∨ ¬ n.isValidChar

/-- A misspelled number: its first byte is no character, no character starts with its first
    two bytes, and all but the first are continuation bytes. -/
theorem Misspells.split {count n : Nat} (h : Misspells count n) :
    ∃ b x rest, spelled count n = b :: x :: rest ∧ rest.length + 1 = count ∧
      (∀ y ∈ x :: rest, Continues y) ∧ ¬ IsSequence [b] ∧
        ∀ tail, ¬ IsSequence (b :: x :: tail) := by
  obtain ⟨hlonger, hcount, hlt, hwrong⟩ := h
  simp only [Nat.isValidChar] at hwrong
  match count, hlonger, hcount with
  | 1, _, _ =>
    have hlt : n < 0x800 := hlt
    have hwrong : n < 0x80 := by
      rcases hwrong with hlong | hscalar
      · exact hlong
      · omega
    have hb : (UInt8.ofNat (n / 64 + 0xc0)).toNat = n / 64 + 0xc0 := toNat_ofNat (by omega)
    refine ⟨_, _, [], rfl, rfl, List.forall_mem_singleton.mpr (continues_ofNat n),
      not_isSequence_one (by omega), ?_⟩
    intro tail hsequence
    rw [isSequence_cons_iff, lead_stray (by omega) (by omega)] at hsequence
    exact hsequence
  | 2, _, _ =>
    have hlt : n < 0x10000 := hlt
    have hwrong : n < 0x800 ∨ ¬(n < 0xd800 ∨ 0xdfff < n ∧ n < 0x110000) := hwrong
    have hb : (UInt8.ofNat (n / 4096 + 0xe0)).toNat = n / 4096 + 0xe0 := toNat_ofNat (by omega)
    have hx : (UInt8.ofNat (n / 64 % 64 + 0x80)).toNat = n / 64 % 64 + 0x80 :=
      toNat_ofNat (by omega)
    refine ⟨_, _, [_], rfl, rfl, List.forall_mem_cons.mpr ⟨continues_ofNat (n / 64),
      List.forall_mem_singleton.mpr (continues_ofNat n)⟩, not_isSequence_one (by omega), ?_⟩
    intro tail hsequence
    obtain ⟨low, high, hlead, -, hrange⟩ := lead_three (b := UInt8.ofNat (n / 4096 + 0xe0))
      (by omega) (by omega)
    rw [isSequence_cons_iff, hlead] at hsequence
    obtain ⟨x, rest, heq, hin, -⟩ := hsequence
    obtain ⟨rfl, -⟩ := List.cons.inj heq
    have hin := (hrange _).mp hin
    omega
  | 3, _, _ =>
    have hlt : n < 0x200000 := hlt
    have hwrong : n < 0x10000 ∨ ¬(n < 0xd800 ∨ 0xdfff < n ∧ n < 0x110000) := hwrong
    have hb : (UInt8.ofNat (n / 262144 + 0xf0)).toNat = n / 262144 + 0xf0 := toNat_ofNat (by omega)
    have hx : (UInt8.ofNat (n / 4096 % 64 + 0x80)).toNat = n / 4096 % 64 + 0x80 :=
      toNat_ofNat (by omega)
    refine ⟨_, _, [_, _], rfl, rfl, List.forall_mem_cons.mpr ⟨continues_ofNat (n / 4096),
      List.forall_mem_cons.mpr ⟨continues_ofNat (n / 64),
        List.forall_mem_singleton.mpr (continues_ofNat n)⟩⟩, not_isSequence_one (by omega), ?_⟩
    intro tail hsequence
    by_cases hlarge : 0xf5 ≤ (UInt8.ofNat (n / 262144 + 0xf0)).toNat
    · rw [isSequence_cons_iff, lead_stray (by omega) (.inr hlarge)] at hsequence
      exact hsequence
    · obtain ⟨low, high, hlead, -, hrange⟩ := lead_four (b := UInt8.ofNat (n / 262144 + 0xf0))
        (by omega) (by omega)
      rw [isSequence_cons_iff, hlead] at hsequence
      obtain ⟨x, rest, heq, hin, -⟩ := hsequence
      obtain ⟨rfl, -⟩ := List.cons.inj heq
      have hin := (hrange _).mp hin
      omega

end Utf8
end ProgramHost
