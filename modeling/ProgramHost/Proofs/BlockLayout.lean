/-
  ProgramHost.Proofs.BlockLayout

  The layout of every string in memory.

  `Block.WellFormed` is the layout that compiled programs rely on, said of the
  raw bytes; the accessors of a well-formed block agree with one another
  (`Block.WellFormed.coherent`). A store whose cells are all well-formed stays so
  under every change that takes over only well-formed blocks, so the strings of
  a session have the layout after every step.
-/

import ProgramHost.Proofs.StoreHistory

namespace ProgramHost

/-! ## Blocks -/

namespace Block

/-- The layout of a string: its length as a little-endian word, that many bytes,
    and a zero byte. A length that a word cannot hold has no layout. -/
def WellFormed (s : Block) : Prop :=
  ∃ content : Bytes, content.length < 2 ^ 63 ∧
    s.memory = LittleEndian.ofWord (Int64.ofNat content.length) ++ content ++ [0]

/-- All accessors of a block tell of the same content. -/
structure Coherent (s : Block) : Prop where
  memory : s.memory = LittleEndian.ofWord s.length ++ s.content ++ [0]
  length : s.length.toInt = s.content.length
  isEmpty : s.isEmpty = true ↔ s.content = []
  terminated : s.terminated = s.content ++ [0]

/-- The raw bytes of a well-formed block are those of the block of a content. -/
theorem WellFormed.exists_content {s : Block} (h : s.WellFormed) :
    ∃ content : Bytes, content.length < 2 ^ 63 ∧ s = Block.ofContent content := by
  obtain ⟨content, hlt, hmemory⟩ := h
  refine ⟨content, hlt, ?_⟩
  cases s
  exact congrArg Block.mk hmemory

/-- A well-formed block is the block of its content. -/
theorem WellFormed.eq_ofContent {s : Block} (h : s.WellFormed) :
    s = Block.ofContent s.content := by
  obtain ⟨content, hlt, rfl⟩ := h.exists_content
  rw [content_ofContent hlt]

theorem WellFormed.coherent {s : Block} (h : s.WellFormed) : s.Coherent := by
  obtain ⟨content, hlt, rfl⟩ := h.exists_content
  have hlength : (Block.ofContent content).length.toInt = content.length := by
    rw [length_ofContent, Int64.toInt_ofNat_of_lt hlt]
  refine ⟨?_, ?_, ?_, ?_⟩
  · rw [length_ofContent, content_ofContent hlt]
    rfl
  · rw [content_ofContent hlt, hlength]
  · rw [content_ofContent hlt, Block.isEmpty, beq_iff_eq, ← Int64.toInt_inj, hlength]
    simp
  · rw [content_ofContent hlt, terminated_ofContent hlt]

end Block

/-- A draft that memory can hold is laid out as a string. -/
theorem Draft.layOut_wellFormed {d : Draft} (h : d.length + 9 ≤ Layout.largest) :
    d.layOut.WellFormed := by
  have hlt : d.region.length < 2 ^ 63 := by
    rw [length_region]
    exact Layout.lt_of_fits h
  rw [layOut_eq_ofContent]
  exact ⟨d.region, hlt, rfl⟩

/-! ## Stores -/

namespace Store

/-- Every cell holds a well-formed block. -/
def WellFormed (st : Store) : Prop := ∀ cell ∈ st.cells, cell.block.WellFormed

variable {st st' : Store}

theorem WellFormed.push (h : st.WellFormed) {cell : Cell} (hcell : cell.block.WellFormed) :
    (st.push cell).2.WellFormed := by
  intro other hmem
  rcases List.mem_append.mp hmem with hold | hnew
  · exact h other hold
  · rw [List.mem_singleton.mp hnew]
    exact hcell

theorem Changes.wellFormed {change : Change} (h : st.Changes change st') (hst : st.WellFormed)
    (hadopted : ∀ block ∈ change.adopted?, block.WellFormed) : st'.WellFormed := by
  cases h with
  | nothing => exact hst
  | @made d hfits =>
    have hcounted : WellFormed { st with totals := st.totals.count (d.length + 9) } := hst
    exact hcounted.push (Draft.layOut_wellFormed hfits)
  | adopted block => exact hst.push (hadopted block rfl)
  | shared hposition hcell => exact hst

theorem History.wellFormed {links : List (Handle × Handle)} {adopted : List Block}
    (h : st.History links adopted st') (hst : st.WellFormed)
    (hadopted : ∀ block ∈ adopted, block.WellFormed) : st'.WellFormed := by
  induction h with
  | nil => exact hst
  | cons hchange hrest ih =>
    rw [List.forall_mem_append] at hadopted
    exact ih (hchange.wellFormed hst (by simpa using hadopted.1)) hadopted.2

end Store

namespace Session

/-- The layout of strings over a whole session. From a start without strings, and
    as long as only well-formed blocks are taken over from elsewhere, every handle
    points to a well-formed block whose accessors agree. No step, refused or not,
    changes the block of a handle, and a string that a step hands out is found
    under the next free one. -/
theorem strings_wellFormed {session after : Session} {steps : List Step}
    {entries : List (Entry Reply)} (hstart : session.host.store = {})
    (hadopted : ∀ s ∈ steps, ∀ block ∈ s.adopted?, block.WellFormed)
    (hrun : session.run steps = (entries, some after)) :
    (∀ a < after.host.store.handles.length, ∃ block, after.host.store.block? a = some block ∧
      block.WellFormed ∧ block.Coherent) ∧
    ∀ s reply next, after.step s = some (reply, next) →
      (∀ a block, after.host.store.block? a = some block →
        next.host.store.block? a = some block) ∧
      ∀ placement, reply.placement? = some placement →
        placement.handle = after.host.store.handles.length ∧
          next.host.store.block? placement.handle = some placement.block := by
  have hhistory := run_history hrun
  rw [hstart] at hhistory
  constructor
  · intro a ha
    have hblocks : ∀ block ∈ steps.filterMap Step.adopted?, block.WellFormed := by
      intro block hmem
      obtain ⟨s, hs, hblock⟩ := List.mem_filterMap.mp hmem
      exact hadopted s hs block hblock
    obtain ⟨cell, hcell, hblock⟩ := (hhistory.placed (by simp [Store.Placed])).exists_cell ha
    have hwell := hhistory.wellFormed (by simp [Store.WellFormed]) hblocks cell hcell
    exact ⟨cell.block, hblock, hwell, hwell.coherent⟩
  · intro s reply next hstep
    obtain ⟨change, hchange, hshown⟩ := step_changes hstep
    refine ⟨fun a block hblock => hchange.block?_eq hblock, ?_⟩
    intro placement hplaced
    exact hchange.block?_new (hshown.placed ▸ hplaced)

/-- Strings made in every way: a content with a zero byte, a foreign block, a
    second handle for it, a string appended to itself, a range, a refused range,
    and the empty string at the end of the input. -/
def everyOrigin : List Step :=
  [.request (.construct (.ofBytes [0x61, 0, 0x62])),
    .request (.construct (.adopt ⟨[1, 0, 0, 0, 0, 0, 0, 0, 0x7a, 0]⟩)),
    .request (.construct (.wrap (some 1))), .request (.construct (.append 0 0)),
    .request (.construct (.range 3 1 4)), .request (.construct (.range 3 1 6)),
    .request (.construct (.ofInt Int64.minValue)), .nextString]

theorem strings_wellFormed_everyOrigin :
    ∃ entries after, ({} : Session).run everyOrigin = (entries, some after) ∧
      after.host.store.contents = [[0x61, 0, 0x62], [0x7a], [0x7a],
        [0x61, 0, 0x62, 0x61, 0, 0x62], [0, 0x62, 0x61, 0],
        Decimal.ofInt Int64.minValue.toInt, []] ∧
      ∀ a < after.host.store.handles.length, ∃ block,
        after.host.store.block? a = some block ∧ block.WellFormed ∧ block.Coherent := by
  have hadopted : ∀ s ∈ everyOrigin, ∀ block ∈ s.adopted?, block.WellFormed := by
    simp only [everyOrigin, List.forall_mem_cons, Step.adopted?, Request.adopted?, Option.mem_def]
    refine ⟨nofun, ?_, nofun, nofun, nofun, nofun, nofun, nofun, nofun⟩
    rintro block ⟨⟩
    exact ⟨[0x7a], by decide, by decide⟩
  have hcontents : (({} : Session).run everyOrigin).2.map (·.host.store.contents) =
      some [[0x61, 0, 0x62], [0x7a], [0x7a], [0x61, 0, 0x62, 0x61, 0, 0x62],
        [0, 0x62, 0x61, 0], Decimal.ofInt Int64.minValue.toInt, []] := by decide +kernel
  obtain ⟨after, hafter, hstrings⟩ := Option.map_eq_some_iff.mp hcontents
  have hrun : ({} : Session).run everyOrigin = (_, some after) := Prod.ext rfl hafter
  exact ⟨_, after, hrun, hstrings, (strings_wellFormed rfl hadopted hrun).1⟩

end Session

end ProgramHost
