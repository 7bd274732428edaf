/-
  ProgramHost.Store

  The strings of a run, by handle.

  A handle is a place in a table, numbered from zero in the order of creation.
  The table points into a list of cells: every block that was ever made or
  taken over has one cell, and two handles are the same string exactly when
  they point to the same cell. A cell remembers whether the host made its block.
  Nothing is ever removed or changed.
-/

import ProgramHost.Allocation

namespace ProgramHost

/-- A place in the table of strings. -/
abbrev Handle := Nat

/-- Where a block came from. -/
inductive Origin where
  /-- The host made it. -/
  | host
  /-- Compiled code laid it out by itself. -/
  | foreign
  deriving DecidableEq, Repr

/-- A block with its origin. -/
structure Cell where
  block : Block
  origin : Origin
  deriving DecidableEq, Repr

/-- A string as a step hands it out. -/
structure Placement where
  handle : Handle
  block : Block
  deriving DecidableEq, Repr

/-- The cells of a run, the table of handles, and the totals of what the host
    made. -/
structure Store where
  totals : Totals := {}
  cells : List Cell := []
  /-- For each handle the position of its cell. -/
  handles : List Nat := []
  deriving DecidableEq, Repr

namespace Store

/-- The block of a handle. -/
def block? (st : Store) (h : Handle) : Option Block := do
  let position ← st.handles[h]?
  let cell ← st.cells[position]?
  return cell.block

/-- The contents of all handles, in order. -/
def contents (st : Store) : List Bytes :=
  st.handles.filterMap fun position => st.cells[position]?.map (·.block.content)

/-- Whether two handles point to the same cell; `none` if one of them is not in
    the table. -/
def same? (st : Store) (a b : Handle) : Option Bool := do
  let i ← st.handles[a]?
  let j ← st.handles[b]?
  return i == j

/-- Adds a cell and a handle to it. -/
def push (st : Store) (cell : Cell) : Placement × Store :=
  (⟨st.handles.length, cell.block⟩,
    { st with cells := st.cells ++ [cell], handles := st.handles ++ [st.cells.length] })

/-- A new cell has the next free handle. -/
theorem block?_push_new (st : Store) (cell : Cell) :
    (st.push cell).2.block? st.handles.length = some cell.block := by
  simp [push, block?]

/-- A new cell leaves every string as it was. -/
theorem block?_push {st : Store} {h : Handle} {block : Block} (cell : Cell)
    (hb : st.block? h = some block) : (st.push cell).2.block? h = some block := by
  obtain ⟨position, hp, c, hc, rfl⟩ : ∃ p, st.handles[h]? = some p ∧
      ∃ c, st.cells[p]? = some c ∧ c.block = block := by
    simpa [block?, Option.bind_eq_some_iff] using hb
  have hh := (List.getElem?_eq_some_iff.mp hp).1
  have hcl := (List.getElem?_eq_some_iff.mp hc).1
  simp [push, block?, List.getElem?_append_left hh, List.getElem?_append_left hcl, hp, hc]

/-- Makes a string; `none` when memory cannot hold it. -/
def build (st : Store) (d : Draft) : Option (Placement × Store) :=
  (st.totals.build d).map fun (block, totals) => { st with totals }.push ⟨block, .host⟩

/-- Takes over a block that was laid out elsewhere. -/
def adopt (st : Store) (block : Block) : Placement × Store := st.push ⟨block, .foreign⟩

/-- Adds another handle to the cell of a handle; `none` if that is not in the
    table. -/
def share? (st : Store) (h : Handle) : Option (Placement × Store) := do
  let position ← st.handles[h]?
  let cell ← st.cells[position]?
  return (⟨st.handles.length, cell.block⟩, { st with handles := st.handles ++ [position] })

end Store

end ProgramHost
