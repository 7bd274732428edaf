/-
  ProgramHost.Proofs.Constructions

  Constructions that copy bytes, and the strings that they make.

  Appending two strings copies both contents, and a range copies the bytes between two
  places, both included (`Block.slice`). Lengths and places are machine words; here they
  become integers (`Block.Encloses`, `Block.ExactRange`), so that all that is said of such a
  string is said of byte strings (`Draft.ofAppend_eq`, `Draft.ofRange_eq`).

  `Host.Makes` is what a user of a host can rely on when a string is made: its content, and
  that the other strings stay. What holds afterwards is an argument, so that one
  construction can follow another on the strings that the first one made.
-/

import Mathlib.Algebra.Group.Int.Defs
import ProgramHost.Proofs.BlockLayout

namespace ProgramHost

/-- The bytes from one place to another, both included. -/
def between (bs : Bytes) (first last : Nat) : Bytes := (bs.drop first).take (last + 1 - first)

theorem length_between {bs : Bytes} {first last : Nat} (h : last < bs.length) :
    (between bs first last).length = last + 1 - first := by
  rw [between, List.length_take, List.length_drop]
  omega

theorem getElem?_between (bs : Bytes) {first last i : Nat} (h : i < last + 1 - first) :
    (between bs first last)[i]? = bs[first + i]? := by
  rw [between, List.getElem?_take_of_lt h, List.getElem?_drop]

/-! ## Words as places -/

section

variable {x y : Int64}

/-- A word that is not negative is the same number as an unsigned word. -/
theorem toNat_toUInt64 (h : 0 ≤ x.toInt) : x.toUInt64.toNat = x.toInt.toNat :=
  Int64.toNat_toUInt64_of_le (Int64.le_iff_toInt_le.mpr h)

theorem toInt_sub_of_le (hy : 0 ≤ y.toInt) (hle : y.toInt ≤ x.toInt) :
    (x - y).toInt = x.toInt - y.toInt := by
  have hx := x.toInt_lt
  rw [Int64.toInt_sub]
  apply Int.bmod_eq_of_le
  · omega
  · omega

theorem toInt_add_of_lt (hx : 0 ≤ x.toInt) (hy : 0 ≤ y.toInt) (hlt : x.toInt + y.toInt < 2 ^ 63) :
    (x + y).toInt = x.toInt + y.toInt := by
  rw [Int64.toInt_add]
  apply Int.bmod_eq_of_le
  · omega
  · omega

end

/-! ## Ranges of a string -/

/-- The size of the block for a content shorter than `2 ^ 63` bytes is exact. -/
theorem Layout.blockSize_of_lt {length : Nat} (h : length < 2 ^ 63) :
    blockSize length = length + 9 := by
  rw [blockSize, Block.headerSize, Block.terminatorSize]
  omega

namespace Block

/-- A range, both ends included, is not empty and lies in the content. -/
def Encloses (s : Block) (left right : Int64) : Prop :=
  0 ≤ left.toInt ∧ left.toInt ≤ right.toInt ∧ right.toInt < s.content.length

/-- The bytes of the content in a range. -/
def slice (s : Block) (left right : Int64) : Bytes :=
  between s.content left.toInt.toNat right.toInt.toNat

/-- The words on the way to the copy of a range are exact. -/
structure ExactRange (s : Block) (left right : Int64) : Prop where
  difference : (right - left).toInt = right.toInt - left.toInt
  count : (right - left + 1).toInt = right.toInt - left.toInt + 1
  /-- The count as a size of memory. -/
  size : (rangeSize left right).toNat = (right.toInt - left.toInt + 1).toNat
  /-- The first place as an offset in memory. -/
  start : left.toUInt64.toNat = left.toInt.toNat
  /-- The bytes to be copied lie in the content. -/
  inside : left.toUInt64.toNat + (rangeSize left right).toNat ≤ s.content.length
  /-- The size of the block for them. -/
  blockSize : Layout.blockSize (rangeSize left right).toNat = (rangeSize left right).toNat + 9

variable {s : Block} {left right : Int64}

theorem WellFormed.length_content_lt (h : s.WellFormed) : s.content.length < 2 ^ 63 := by
  obtain ⟨content, hlt, rfl⟩ := h.exists_content
  rwa [content_ofContent hlt]

theorem WellFormed.body_eq (h : s.WellFormed) : s.body = s.content ++ [0] := by
  obtain ⟨content, hlt, rfl⟩ := h.exists_content
  rw [body_ofContent, content_ofContent hlt]

theorem length_slice (h : s.Encloses left right) :
    (s.slice left right).length = right.toInt.toNat + 1 - left.toInt.toNat := by
  obtain ⟨hleft, hle, hright⟩ := h
  exact length_between (by omega)

theorem length_slice_le (s : Block) (left right : Int64) :
    (s.slice left right).length ≤ s.content.length := by
  rw [slice, between, List.length_take, List.length_drop]
  omega

/-- The contract of a range compares words; it is a matter of integers. -/
theorem WellFormed.hasRange_iff (h : s.WellFormed) :
    s.HasRange left right ↔ s.Encloses left right := by
  rw [HasRange, Encloses, Int64.le_iff_toInt_le, Int64.le_iff_toInt_le, Int64.lt_iff_toInt_lt,
    h.coherent.length, Int64.toInt_zero]

/-- Nothing wraps around in the contract, whatever the ends of the range are. -/
theorem WellFormed.exactRange (h : s.WellFormed) (hrange : s.Encloses left right) :
    s.ExactRange left right := by
  obtain ⟨hleft, hle, hright⟩ := hrange
  have hlt := h.length_content_lt
  have hone : (1 : Int64).toInt = 1 := Int64.toInt_one
  have hdifference := toInt_sub_of_le hleft hle
  -- The count is at most the length of the content, which a word can hold.
  have hcount : (right - left + 1).toInt = right.toInt - left.toInt + 1 := by
    rw [toInt_add_of_lt (by omega) (by omega) (by omega), hdifference, hone]
  have hsize : (rangeSize left right).toNat = (right.toInt - left.toInt + 1).toNat := by
    rw [rangeSize, toNat_toUInt64 (by omega), hcount]
  have hstart : left.toUInt64.toNat = left.toInt.toNat := toNat_toUInt64 hleft
  have hinside : left.toUInt64.toNat + (rangeSize left right).toNat ≤ s.content.length := by
    rw [hstart, hsize]
    omega
  exact ⟨hdifference, hcount, hsize, hstart, hinside, Layout.blockSize_of_lt (by omega)⟩

/-- A range of the memory behind the length is one of the content. -/
theorem WellFormed.range_eq (h : s.WellFormed) (hrange : s.Encloses left right) :
    s.range left right = s.slice left right := by
  have hexact := h.exactRange hrange
  have hinside := hexact.inside
  obtain ⟨hleft, hle, hright⟩ := hrange
  have hsize : (rangeSize left right).toNat = right.toInt.toNat + 1 - left.toInt.toNat := by
    rw [hexact.size]
    omega
  -- The terminator stands behind the content, out of reach.
  rw [range, h.body_eq, hexact.start, hsize, slice, between,
    List.drop_append_of_le_length (by omega), List.take_append_of_le_length]
  rw [List.length_drop]
  omega

end Block

/-- A copy of a range is a copy of its bytes. -/
theorem Draft.ofRange_eq {s : Block} {left right : Int64} (hs : s.WellFormed)
    (hrange : s.Encloses left right) :
    Draft.ofRange s left right = .ofBytes (s.slice left right) := by
  have hsize : (Block.rangeSize left right).toNat = (s.slice left right).length := by
    rw [(hs.exactRange hrange).size, Block.length_slice hrange]
    obtain ⟨hleft, hle, hright⟩ := hrange
    omega
  rw [ofRange, ofBytes, hs.range_eq hrange, hsize]

/-- Two well-formed strings are appended as their contents; the sum of their lengths does
    not wrap around. -/
theorem Draft.ofAppend_eq {s t : Block} (hs : s.WellFormed) (ht : t.WellFormed) :
    Draft.ofAppend s t = .ofBytes (s.content ++ t.content) := by
  obtain ⟨a, ha, rfl⟩ := hs.exists_content
  obtain ⟨b, hb, rfl⟩ := ht.exists_content
  have hsize : ((Block.ofContent a).size + (Block.ofContent b).size).toNat =
      a.length + b.length := by
    rw [UInt64.toNat_add, Block.size_ofContent ha, Block.size_ofContent hb]
    exact Nat.mod_eq_of_lt (by omega)
  rw [ofAppend, ofBytes, hsize, Block.content_ofContent ha, Block.content_ofContent hb,
    List.length_append]

/-! ## Constructions that copy bytes -/

namespace Construction

/-- A construction copies bytes into a new string. -/
def Copies (c : Construction) (st : Store) (content : Bytes) : Prop :=
  c.run st = make st (.ofBytes content)

variable {st : Store} {a b : Handle} {s t : Block}

theorem copies_append (ha : st.block? a = some s) (hb : st.block? b = some t)
    (hs : s.WellFormed) (ht : t.WellFormed) :
    (append a b).Copies st (s.content ++ t.content) := by
  simp only [Copies, run, makeFrom, ha, hb, Draft.ofAppend_eq hs ht]

theorem copies_range {left right : Int64} (ha : st.block? a = some s) (hs : s.WellFormed)
    (hrange : s.Encloses left right) : (range a left right).Copies st (s.slice left right) := by
  have hcheck : s.checkRange left right = .ok () := if_pos (hs.hasRange_iff.mpr hrange)
  simp only [Copies, run, makeFrom, ha, hcheck, Draft.ofRange_eq hs hrange]

end Construction

/-! ## Strings that are made -/

namespace Host

/-- A host has gained a string: it is well-formed and found under its handle, and the
    strings that were there before still are. -/
structure Gains (host : Host) (p : Placement) (after : Host) : Prop where
  wellFormed : p.block.WellFormed
  found : after.store.block? p.handle = some p.block
  kept : ∀ {h : Handle} {s : Block}, host.store.block? h = some s →
    after.store.block? h = some s

/-- A construction makes a string of this content, and what is asked holds of the string
    and of the host after it. -/
def Makes (host : Host) (c : Construction) (content : Bytes)
    (post : Placement → Host → Prop := fun _ _ => True) : Prop :=
  ∃ p after, host.serve (.construct c) = some (.string p, after) ∧ p.block.content = content ∧
    host.Gains p after ∧ post p after

/-- A construction makes a string of this content if memory can hold it, and aborts the
    process if not. -/
def MakesOrAborts (host : Host) (c : Construction) (content : Bytes)
    (post : Placement → Host → Prop := fun _ _ => True) : Prop :=
  if content.length + 9 ≤ Layout.largest then host.Makes c content post
  else host.serve (.construct c) = none

variable {host : Host} {c : Construction} {content : Bytes} {post : Placement → Host → Prop}

/-- A construction that copies bytes makes a string of them, if memory can hold it. -/
theorem makes_of_copies (hcopies : c.Copies host.store content)
    (hfits : content.length + 9 ≤ Layout.largest)
    (hpost : ∀ p after, p.block.content = content → host.Gains p after → post p after) :
    host.Makes c content post := by
  have hdraft : (Draft.ofBytes content).length + 9 ≤ Layout.largest := hfits
  obtain ⟨p, store, hbuild⟩ : ∃ p store, host.store.build (.ofBytes content) = some (p, store) :=
    ⟨_, _, Store.build_of_fits hdraft host.store⟩
  have hserve : host.serve (.construct c) =
      some (.string p, { host with store }.tell (c.events (.string p))) := by
    rw [serve, hcopies, Construction.make, hbuild]
    rfl
  obtain ⟨-, hplaced, hstore⟩ := Store.build_eq_some.mp hbuild
  have hcontent : p.block.content = content := by
    rw [hplaced, Draft.layOut_ofBytes, Block.content_ofContent (Layout.lt_of_fits hfits)]
  have hgains : host.Gains p ({ host with store }.tell (c.events (.string p))) := by
    rw [hplaced, hstore]
    exact ⟨Draft.layOut_wellFormed hdraft, Store.block?_push_new _ _, Store.block?_push _⟩
  exact ⟨p, _, hserve, hcontent, hgains, hpost p _ hcontent hgains⟩

/-- A construction that copies bytes makes a string of them or aborts the process. -/
theorem makesOrAborts_of_copies (hcopies : c.Copies host.store content)
    (hpost : content.length + 9 ≤ Layout.largest →
      ∀ p after, p.block.content = content → host.Gains p after → post p after) :
    host.MakesOrAborts c content post := by
  rw [MakesOrAborts]
  split
  · next hfits => exact makes_of_copies hcopies hfits (hpost hfits)
  · next hlarge =>
    have hbuild : host.store.build (.ofBytes content) = none :=
      Store.build_eq_none.mpr (Layout.size?_eq_none.mpr hlarge)
    rw [serve, hcopies, Construction.make, hbuild]
    rfl

/-- If memory can hold the string, nothing aborts. -/
theorem MakesOrAborts.makes (h : host.MakesOrAborts c content post)
    (hfits : content.length + 9 ≤ Layout.largest) : host.Makes c content post := by
  rwa [MakesOrAborts, if_pos hfits] at h

end Host

end ProgramHost
