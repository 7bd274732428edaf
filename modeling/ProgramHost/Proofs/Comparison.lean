/-
  ProgramHost.Proofs.Comparison

  The order in which comparison puts strings.

  Comparison sees of a string its visible part and the zero byte behind it. Two
  such byte strings are equal or part at some place (`PartAt`), and there the
  comparison takes the difference of the two bytes (`Block.compare_of_partAt`).
  The same place decides the lexicographic order of the visible parts
  (`PartAt.lt_iff`), also where one of them is a beginning of the other: the zero
  byte behind it is below every byte of a visible part. Everything else follows
  from that order.
-/

import Mathlib.Data.List.TakeWhile
import Mathlib.Order.Defs.Unbundled
import ProgramHost.Proofs.BlockLayout

namespace ProgramHost

/-! ## Where two byte strings part -/

/-- Two byte strings part behind a common beginning: these two bytes stand there,
    and they differ. -/
structure PartAt (as bs common : Bytes) (x y : UInt8) : Prop where
  left : common ++ [x] <+: as
  right : common ++ [y] <+: bs
  ne : x ≠ y

namespace PartAt

variable {as bs common : Bytes} {x y : UInt8}

theorem symm (h : PartAt as bs common x y) : PartAt bs as common y x :=
  ⟨h.right, h.left, h.ne.symm⟩

theorem cons (c : UInt8) (h : PartAt as bs common x y) :
    PartAt (c :: as) (c :: bs) (c :: common) x y := by
  refine ⟨?_, ?_, h.ne⟩
  · rw [List.cons_append, List.cons_prefix_cons]
    exact ⟨rfl, h.left⟩
  · rw [List.cons_append, List.cons_prefix_cons]
    exact ⟨rfl, h.right⟩

theorem mono {as' bs' : Bytes} (h : PartAt as bs common x y) (ha : as <+: as')
    (hb : bs <+: bs') : PartAt as' bs' common x y :=
  ⟨h.left.trans ha, h.right.trans hb, h.ne⟩

/-- A byte string does not part from itself. -/
theorem irrefl : ¬PartAt as as common x y := by
  intro h
  have hsame : common ++ [x] = common ++ [y] := by
    apply (List.prefix_of_prefix_length_le h.left h.right (by simp)).eq_of_length
    simp
  have hxy : x = y := by simpa using hsame
  exact h.ne hxy

end PartAt

/-- Two byte strings without zero bytes are equal, or part when a zero byte is put
    behind each. -/
theorem eq_or_partAt {as bs : Bytes} (ha : 0 ∉ as) (hb : 0 ∉ bs) :
    as = bs ∨ ∃ common x y, PartAt (as ++ [0]) (bs ++ [0]) common x y := by
  induction as generalizing bs with
  | nil =>
    cases bs with
    | nil => exact .inl rfl
    | cons b bs =>
      -- One has run out: the zero byte behind it stands against a byte that is none.
      have hne : 0 ≠ b := List.ne_of_not_mem_cons hb
      exact .inr ⟨[], 0, b, by simp, by simp, hne⟩
  | cons a as ih =>
    cases bs with
    | nil =>
      have hne : 0 ≠ a := List.ne_of_not_mem_cons ha
      exact .inr ⟨[], a, 0, by simp, by simp, hne.symm⟩
    | cons b bs =>
      by_cases hab : a = b
      · subst hab
        obtain rfl | ⟨common, x, y, h⟩ :=
          ih (List.not_mem_of_not_mem_cons ha) (List.not_mem_of_not_mem_cons hb)
        · exact .inl rfl
        · exact .inr ⟨a :: common, x, y, h.cons a⟩
      · exact .inr ⟨[], a, b, by simp, by simp, hab⟩

/-- The bytes at which two byte strings part decide their lexicographic order. The
    zero bytes put behind them let a beginning come before what it begins. -/
theorem PartAt.lt_iff {as bs common : Bytes} {x y : UInt8}
    (h : PartAt (as ++ [0]) (bs ++ [0]) common x y) : as < bs ↔ x < y := by
  -- The bytes of the common beginning decide nothing; behind it stand `x` and `y`, each the
  -- first byte of what is left or the zero byte behind that.
  induction common generalizing as bs with
  | nil =>
    cases as with
    | nil =>
      obtain rfl : x = 0 := by simpa using h.left
      cases bs with
      | nil => exact absurd (by simpa using h.right) h.ne.symm
      | cons b bs =>
        have hpos : 0 < y := UInt8.pos_iff_ne_zero.mpr h.ne.symm
        simp [hpos]
    | cons a as =>
      obtain rfl : x = a := by simpa using h.left
      cases bs with
      | nil =>
        obtain rfl : y = 0 := by simpa using h.right
        simp
      | cons b bs =>
        obtain rfl : y = b := by simpa using h.right
        simp [List.cons_lt_cons_iff, h.ne]
  | cons c common ih =>
    cases as with
    | nil => simpa using h.left.length_le
    | cons a as =>
      cases bs with
      | nil => simpa using h.right.length_le
      | cons b bs =>
        obtain ⟨rfl, hleft⟩ := List.cons_prefix_cons.mp h.left
        obtain ⟨rfl, hright⟩ := List.cons_prefix_cons.mp h.right
        rw [List.cons_lt_cons_iff]
        simp [ih ⟨hleft, hright, h.ne⟩]

/-! ## The part before the first zero byte -/

theorem zero_not_mem_beforeZero (bs : Bytes) : 0 ∉ beforeZero bs := by
  intro hmem
  have h := List.mem_takeWhile_imp hmem
  simp at h

/-- The part before the first zero byte ends at a zero byte, be it one of the byte
    string or the one behind it. -/
theorem beforeZero_begins (bs : Bytes) : beforeZero bs ++ [0] <+: bs ++ [0] := by
  induction bs with
  | nil => exact List.prefix_rfl
  | cons b bs ih =>
    by_cases hb : b = 0
    · subst hb
      simp [beforeZero]
    · have hcons : beforeZero (b :: bs) = b :: beforeZero bs := by simp [beforeZero, hb]
      rw [hcons, List.cons_append, List.cons_append, List.cons_prefix_cons]
      exact ⟨rfl, ih⟩

namespace Block

/-! ## Comparison -/

/-- Bytes that two byte strings start with, none of them zero, play no part. -/
theorem compareBytes_append {common : Bytes} (h : 0 ∉ common) (as bs : Bytes) :
    compareBytes (common ++ as) (common ++ bs) = compareBytes as bs := by
  induction common with
  | nil => rfl
  | cons c common ih =>
    have hc : c ≠ 0 := (List.ne_of_not_mem_cons h).symm
    have hrest := ih (List.not_mem_of_not_mem_cons h)
    simpa [compareBytes, hc] using hrest

/-- Where two byte strings part, comparison takes the difference. -/
theorem compareBytes_of_partAt {as bs common : Bytes} {x y : UInt8} (hzero : 0 ∉ common)
    (h : PartAt as bs common x y) :
    compareBytes as bs = Int64.ofNat x.toNat - Int64.ofNat y.toNat := by
  obtain ⟨more, rfl⟩ := h.left
  obtain ⟨more', rfl⟩ := h.right
  rw [List.append_assoc, List.append_assoc, compareBytes_append hzero]
  simp [compareBytes, h.ne]

/-- Two byte strings that agree up to a zero byte compare as equal. -/
theorem compareBytes_of_shared {shared as bs : Bytes} (hzero : 0 ∉ shared)
    (ha : shared ++ [0] <+: as) (hb : shared ++ [0] <+: bs) : compareBytes as bs = 0 := by
  obtain ⟨more, rfl⟩ := ha
  obtain ⟨more', rfl⟩ := hb
  rw [List.append_assoc, List.append_assoc, compareBytes_append hzero]
  simp [compareBytes]

/-- The difference of two bytes is exact as a word. -/
theorem toInt_byte_sub (x y : UInt8) :
    (Int64.ofNat x.toNat - Int64.ofNat y.toNat).toInt = (x.toNat : Int) - y.toNat := by
  have hx := x.toNat_lt
  have hy := y.toNat_lt
  rw [Int64.toInt_sub, Int64.toInt_ofNat_of_lt (by omega), Int64.toInt_ofNat_of_lt (by omega)]
  apply Int.bmod_eq_of_le
  · omega
  · omega

section

variable {a b c : Block} {common : Bytes} {x y : UInt8}

theorem visible_begins_terminated (h : a.WellFormed) : a.visible ++ [0] <+: a.terminated := by
  rw [h.coherent.terminated]
  exact beforeZero_begins a.content

theorem zero_not_mem_visible (a : Block) : 0 ∉ a.visible := zero_not_mem_beforeZero a.content

theorem compare_of_visible_eq (ha : a.WellFormed) (hb : b.WellFormed)
    (h : a.visible = b.visible) : a.compare b = 0 := by
  apply compareBytes_of_shared a.zero_not_mem_visible (visible_begins_terminated ha)
  rw [h]
  exact visible_begins_terminated hb

/-- Where the visible parts and the zero bytes behind them part, comparison takes
    the difference. -/
theorem compare_of_partAt (ha : a.WellFormed) (hb : b.WellFormed)
    (h : PartAt (a.visible ++ [0]) (b.visible ++ [0]) common x y) :
    (a.compare b).toInt = (x.toNat : Int) - y.toNat := by
  -- What comes before the place is a beginning of the visible part.
  have hcommon : common <+: a.visible := by
    have hlen := h.left.length_le
    rw [List.length_append, List.length_append] at hlen
    apply List.prefix_of_prefix_length_le ((List.prefix_append _ _).trans h.left)
      (List.prefix_append _ _)
    simpa using hlen
  have hzero : 0 ∉ common := fun hmem => a.zero_not_mem_visible (hcommon.subset hmem)
  have hpart := h.mono (visible_begins_terminated ha) (visible_begins_terminated hb)
  rw [Block.compare, compareBytes_of_partAt hzero hpart, toInt_byte_sub]

/-! ## The order -/

/-- What the comparison of two strings says about their visible parts. -/
structure ComparesVisible (a b : Block) : Prop where
  /-- It is zero for equal parts only. -/
  eq_zero : a.compare b = 0 ↔ a.visible = b.visible
  /-- Otherwise it is the difference of the first two bytes, the zero bytes behind
      the parts included, that differ. -/
  difference : a.visible ≠ b.visible →
    ∃ common x y, PartAt (a.visible ++ [0]) (b.visible ++ [0]) common x y ∧
      (a.compare b).toInt = (x.toNat : Int) - y.toNat
  /-- The other way round it is the opposite. -/
  swap : (b.compare a).toInt = -(a.compare b).toInt
  /-- Its sign is the lexicographic order. -/
  neg : a.compare b < 0 ↔ a.visible < b.visible
  pos : 0 < a.compare b ↔ b.visible < a.visible

theorem comparesVisible (ha : a.WellFormed) (hb : b.WellFormed) : a.ComparesVisible b := by
  obtain heq | ⟨common, x, y, hpart⟩ :=
    eq_or_partAt a.zero_not_mem_visible b.zero_not_mem_visible
  · -- Both comparisons are zero, and neither part comes before the other.
    have hab : a.compare b = 0 := compare_of_visible_eq ha hb heq
    have hba : b.compare a = 0 := compare_of_visible_eq hb ha heq.symm
    have hirrefl : ¬b.visible < b.visible := List.lt_irrefl _
    refine ⟨by simp [hab, heq], fun hne => absurd heq hne, by simp [hab, hba], ?_, ?_⟩
    · simp [hab, heq, hirrefl]
    · simp [hab, heq, hirrefl]
  · -- The two bytes at the one place decide everything.
    have hne : a.visible ≠ b.visible := by
      intro heq
      rw [heq] at hpart
      exact hpart.irrefl
    have hxy : x.toNat ≠ y.toNat := fun h => hpart.ne (UInt8.toNat_inj.mp h)
    have hab := compare_of_partAt ha hb hpart
    have hba := compare_of_partAt hb ha hpart.symm
    have hlt := hpart.lt_iff
    have hgt := hpart.symm.lt_iff
    rw [UInt8.lt_iff_toNat_lt] at hlt hgt
    refine ⟨?_, fun _ => ⟨common, x, y, hpart, hab⟩, by omega, ?_, ?_⟩
    · rw [← Int64.toInt_inj, hab, Int64.toInt_zero]
      exact ⟨fun h => absurd (by omega) hxy, fun h => absurd h hne⟩
    · rw [Int64.lt_iff_toInt_lt, hab, hlt, Int64.toInt_zero]
      omega
    · rw [Int64.lt_iff_toInt_lt, hab, hgt, Int64.toInt_zero]
      omega

theorem compare_le_zero_iff (ha : a.WellFormed) (hb : b.WellFormed) :
    a.compare b ≤ 0 ↔ a.visible ≤ b.visible := by
  rw [← Int64.not_lt, (comparesVisible ha hb).pos, List.not_lt]

/-- A string without zero bytes is visible as a whole. -/
theorem visible_eq_content (h : 0 ∉ a.content) : a.visible = a.content := beforeZero_eq_self h

/-- The well-formed strings without zero bytes. -/
abbrev ZeroFree := { s : Block // s.WellFormed ∧ 0 ∉ s.content }

theorem ZeroFree.eq_of_visible_eq {s t : ZeroFree} (h : s.1.visible = t.1.visible) : s = t := by
  have hcontent : s.1.content = t.1.content := by
    rwa [visible_eq_content s.2.2, visible_eq_content t.2.2] at h
  apply Subtype.ext
  rw [s.2.1.eq_ofContent, t.2.1.eq_ofContent, hcontent]

/-- On strings without zero bytes comparison is a strict total order. -/
theorem ZeroFree.isStrictTotalOrder :
    IsStrictTotalOrder ZeroFree fun s t => s.1.compare t.1 < 0 := by
  have hneg (s t : ZeroFree) := (comparesVisible s.2.1 t.2.1).neg
  refine { trichotomous := ?_, irrefl := ?_, trans := ?_ }
  · intro s t hst hts
    rw [hneg] at hst hts
    exact eq_of_visible_eq (List.le_antisymm (List.not_lt.mp hts) (List.not_lt.mp hst))
  · intro s hss
    rw [hneg] at hss
    exact List.lt_irrefl _ hss
  · intro s t u hst htu
    rw [hneg] at hst htu ⊢
    exact List.lt_trans hst htu

/-- Comparison orders strings by their visible parts, as unsigned bytes. For all
    well-formed strings, whatever zero bytes they hold, it tells equal visible parts
    from different ones by the first difference, is antisymmetric and transitive,
    and on strings without zero bytes it is a strict total order in which only equal
    contents compare as equal. -/
theorem compare_orders_visible (ha : a.WellFormed) (hb : b.WellFormed) (hc : c.WellFormed) :
    a.ComparesVisible b ∧
      (a.compare b ≤ 0 → b.compare c ≤ 0 → a.compare c ≤ 0) ∧
      (a.compare b < 0 → b.compare c < 0 → a.compare c < 0) ∧
      (0 ∉ a.content → 0 ∉ b.content → (a.compare b = 0 ↔ a.content = b.content)) ∧
      IsStrictTotalOrder ZeroFree fun s t => s.1.compare t.1 < 0 := by
  refine ⟨comparesVisible ha hb, ?_, ?_, ?_, ZeroFree.isStrictTotalOrder⟩
  · rw [compare_le_zero_iff ha hb, compare_le_zero_iff hb hc, compare_le_zero_iff ha hc]
    exact List.le_trans
  · rw [(comparesVisible ha hb).neg, (comparesVisible hb hc).neg, (comparesVisible ha hc).neg]
    exact List.lt_trans
  · intro hza hzb
    rw [(comparesVisible ha hb).eq_zero, visible_eq_content hza, visible_eq_content hzb]

/-- The text `a` and behind a zero byte a `z`, which comparison does not see. -/
def hidesLetter : Block := .ofContent [0x61, 0, 0x7a]

/-- The text `a` and a byte above the ASCII range. -/
def endsHigh : Block := .ofContent [0x61, 0x80]

theorem compare_orders_hidesLetter_endsHigh :
    (hidesLetter.WellFormed ∧ endsHigh.WellFormed) ∧
      hidesLetter.compare (.ofContent [0x61]) = 0 ∧
      (endsHigh.compare hidesLetter).toInt = 128 ∧ hidesLetter.ComparesVisible endsHigh ∧
      hidesLetter.compare endsHigh < 0 := by
  have hhides : hidesLetter.WellFormed := ⟨[0x61, 0, 0x7a], by decide, rfl⟩
  have hletter : (ofContent [0x61]).WellFormed := ⟨[0x61], by decide, rfl⟩
  have hends : endsHigh.WellFormed := ⟨[0x61, 0x80], by decide, rfl⟩
  obtain ⟨hlaws, -⟩ := compare_orders_visible hhides hends hends
  obtain ⟨hsame, -⟩ := compare_orders_visible hhides hletter hends
  have hdifference : (hidesLetter.compare endsHigh).toInt = -128 := by decide +kernel
  refine ⟨⟨hhides, hends⟩, hsame.eq_zero.mpr (by decide +kernel), ?_, hlaws,
    hlaws.neg.mpr (by decide +kernel)⟩
  rw [hlaws.swap, hdifference]
  rfl

end

end Block

end ProgramHost
