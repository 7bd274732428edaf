/-
  ProgramHost.Allocation

  Making blocks, and counting what was made.

  A string about to be made is a `Draft`: the length to store and the bytes to
  copy. `Totals.build` lays a draft out as a block and counts the block and its
  size. Blocks are never given back, so the totals only grow, in wrap-around
  arithmetic. A size that no memory can hold makes the process abort, which
  `build` reports as `none`.
-/

import ProgramHost.Block

namespace ProgramHost

/-! ## Sizes -/

namespace Layout

/-- The largest block that memory can hold at eight-byte alignment: eight bytes
    less than `2 ^ 63`. -/
def largest : Nat := 0x7ffffffffffffff8

/-- The size of the block for a content of the given length; a size above the
    word range counts as the greatest word. -/
def blockSize (length : Nat) : Nat :=
  min (length + (Block.headerSize + Block.terminatorSize)) 0xffffffffffffffff

/-- The size of a block, if memory can hold it. -/
def size? (length : Nat) : Option Nat :=
  if blockSize length ≤ largest then some (blockSize length) else none

theorem size?_eq_some {length size : Nat} :
    size? length = some size ↔ length + 9 ≤ largest ∧ size = length + 9 := by
  have hsize : blockSize length ≤ largest ↔ length + 9 ≤ largest := by
    simp only [blockSize, Block.headerSize, Block.terminatorSize, largest]
    omega
  have hexact (h : length + 9 ≤ largest) : blockSize length = length + 9 := by
    simp only [blockSize, Block.headerSize, Block.terminatorSize, largest] at *
    omega
  rw [size?]
  split
  · next h => simp [hexact (hsize.mp h), hsize.mp h, eq_comm]
  · next h => simp [mt hsize.mpr h]

end Layout

/-! ## Drafts -/

/-- A string about to be made. -/
structure Draft where
  /-- The length to store. -/
  length : Nat
  /-- The bytes to copy behind it. -/
  bytes : Bytes
  deriving DecidableEq, Repr

namespace Draft

/-- A copy of a byte string. -/
def ofBytes (bytes : Bytes) : Draft := ⟨bytes.length, bytes⟩

/-- The decimal text of a word. -/
def ofInt (n : Int64) : Draft := ofBytes (Decimal.ofInt n.toInt)

/-- A copy of a range of a string, both ends included. -/
def ofRange (s : Block) (left right : Int64) : Draft :=
  ⟨(Block.rangeSize left right).toNat, s.range left right⟩

/-- Two strings, one after the other. -/
def ofAppend (s t : Block) : Draft := ⟨(s.size + t.size).toNat, s.content ++ t.content⟩

/-- The content region: as long as the draft says, zero where nothing is
    copied. -/
def region (d : Draft) : Bytes :=
  d.bytes.take d.length ++ List.replicate (d.length - d.bytes.length) 0

/-- The block of a draft. -/
def layOut (d : Draft) : Block :=
  ⟨LittleEndian.ofWord (Int64.ofNat d.length) ++ d.region ++ [0]⟩

@[simp] theorem length_region (d : Draft) : d.region.length = d.length := by
  simp only [region, List.length_append, List.length_take, List.length_replicate]
  omega

theorem region_eq_bytes {d : Draft} (h : d.bytes.length = d.length) : d.region = d.bytes := by
  simp [region, h, List.take_of_length_le]

/-- A draft is laid out as the block of its content region. -/
theorem layOut_eq_ofContent (d : Draft) : d.layOut = Block.ofContent d.region := by
  rw [layOut, Block.ofContent, length_region]

/-- A draft of its own bytes is laid out as their block. -/
@[simp] theorem layOut_ofBytes (bytes : Bytes) :
    (ofBytes bytes).layOut = Block.ofContent bytes := by
  rw [layOut_eq_ofContent, region_eq_bytes rfl]
  rfl

end Draft

/-! ## Totals -/

/-- What the host has handed out so far. -/
structure Totals where
  /-- The number of blocks. -/
  strings : UInt64 := 0
  /-- The sum of their sizes. -/
  bytes : UInt64 := 0
  deriving DecidableEq, Repr

namespace Totals

/-- Counts one more block of the given size. -/
def count (t : Totals) (size : Nat) : Totals :=
  ⟨t.strings + 1, t.bytes + UInt64.ofNat size⟩

/-- Makes the block of a draft; `none` when memory cannot hold it. -/
def build (t : Totals) (d : Draft) : Option (Block × Totals) :=
  (Layout.size? d.length).map fun size => (d.layOut, t.count size)

end Totals

end ProgramHost
