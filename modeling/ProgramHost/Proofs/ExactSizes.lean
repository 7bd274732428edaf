/-
  ProgramHost.Proofs.ExactSizes

  Lengths and sizes that never wrap around.

  Three bounds meet in the length of a string: unsigned words, in which sizes of memory are
  counted, signed words, in which lengths are stored, and the largest block that memory can
  hold. The last is the least of them. It holds for every block that the host makes
  (`Store.Bounded`), a block laid out elsewhere stays below the second
  (`Block.WellFormed`), and that is enough for every sum that the accessors form
  (`Host.LengthsExact`).
-/

import ProgramHost.Proofs.Constructions

namespace ProgramHost

/-! ## The sizes of blocks -/

theorem Layout.largest_eq : largest = 2 ^ 63 - 8 := rfl

/-- The size of a block is exact or refused, for every length. -/
theorem Layout.size?_eq (length : Nat) :
    size? length = if length + 9 ≤ 2 ^ 63 - 8 then some (length + 9) else none := by
  rw [← largest_eq]
  split
  · next hfits => exact size?_eq_some.mpr ⟨hfits, rfl⟩
  · next hlarge => exact size?_eq_none.mpr hlarge

namespace Block.WellFormed

variable {s t : Block}

theorem toNat_size (h : s.WellFormed) : s.size.toNat = s.content.length := by
  obtain ⟨content, hlt, rfl⟩ := h.exists_content
  rw [content_ofContent hlt]
  exact size_ofContent hlt

theorem length_memory (h : s.WellFormed) : s.memory.length = s.content.length + 9 := by
  rw [h.coherent.memory, List.length_append, List.length_append, LittleEndian.length_ofWord,
    List.length_singleton]
  omega

/-- The size of the content with its terminator. -/
theorem toNat_size_succ (h : s.WellFormed) : (s.size + 1).toNat = s.content.length + 1 := by
  have hlt := h.length_content_lt
  rw [UInt64.toNat_add, h.toNat_size, UInt64.toNat_one]
  apply Nat.mod_eq_of_lt
  omega

/-- The sum of two lengths stays below twice the bound of a signed word. -/
theorem toNat_size_add (hs : s.WellFormed) (ht : t.WellFormed) :
    (s.size + t.size).toNat = s.content.length + t.content.length := by
  have hslt := hs.length_content_lt
  have htlt := ht.length_content_lt
  rw [UInt64.toNat_add, hs.toNat_size, ht.toNat_size]
  apply Nat.mod_eq_of_lt
  omega

/-- As signed words two lengths add up if a block can hold both contents. -/
theorem toInt_length_add (hs : s.WellFormed) (ht : t.WellFormed)
    (hfits : s.content.length + t.content.length + 9 ≤ Layout.largest) :
    (s.length + t.length).toInt = s.length.toInt + t.length.toInt := by
  have hslength := hs.coherent.length
  have htlength := ht.coherent.length
  have hlt := Layout.lt_of_fits hfits
  apply toInt_add_of_lt
  · omega
  · omega
  · omega

end Block.WellFormed

/-! ## The blocks of a run -/

namespace Store

/-- Memory can hold every block that the host made. -/
def Bounded (st : Store) : Prop :=
  ∀ cell ∈ st.cells, cell.origin = .host → cell.block.content.length + 9 ≤ Layout.largest

variable {st st' : Store}

theorem Bounded.push (h : st.Bounded) {cell : Cell}
    (hcell : cell.origin = .host → cell.block.content.length + 9 ≤ Layout.largest) :
    (st.push cell).2.Bounded := by
  intro other hmem
  rcases List.mem_append.mp hmem with hold | hnew
  · exact h other hold
  · rw [List.mem_singleton.mp hnew]
    exact hcell

theorem Changes.bounded {change : Change} (h : st.Changes change st') (hst : st.Bounded) :
    st'.Bounded := by
  cases h with
  | nothing => exact hst
  | @made d hfits =>
    have hcounted : Bounded { st with totals := st.totals.count (d.length + 9) } := hst
    apply hcounted.push
    intro _
    have hlt : d.region.length < 2 ^ 63 := by
      rw [Draft.length_region]
      exact Layout.lt_of_fits hfits
    show d.layOut.content.length + 9 ≤ Layout.largest
    rw [Draft.layOut_eq_ofContent, Block.content_ofContent hlt, Draft.length_region]
    exact hfits
  | adopted block =>
    apply hst.push
    intro horigin
    cases horigin
  | shared hposition hcell => exact hst

theorem History.bounded {links : List (Handle × Handle)} {adopted : List Block}
    (h : st.History links adopted st') (hst : st.Bounded) : st'.Bounded := by
  induction h with
  | nil => exact hst
  | cons hchange hrest ih => exact ih (hchange.bounded hst)

theorem WellFormed.block? (h : st.WellFormed) {a : Handle} {s : Block}
    (ha : st.block? a = some s) : s.WellFormed := by
  simp only [Store.block?, Option.bind_eq_bind, Option.bind_eq_some_iff, Option.pure_def,
    Option.some.injEq] at ha
  obtain ⟨position, -, cell, hcell, rfl⟩ := ha
  exact h cell (List.mem_of_getElem? hcell)

end Store

/-! ## Lengths of existing strings -/

namespace Host

/-- Nothing wraps around in the lengths of the strings of a host. -/
structure LengthsExact (host : Host) : Prop where
  /-- The stored length is that of the content, and the block has nine bytes more. -/
  stored : ∀ {a s}, host.store.block? a = some s →
    0 ≤ s.length.toInt ∧ s.length.toInt = s.content.length ∧
      s.memory.length = s.content.length + 9
  /-- Memory holds what the host made, and a signed word can hold one more than its length. -/
  made : ∀ cell ∈ host.store.cells, cell.origin = .host →
    cell.block.memory.length ≤ 2 ^ 63 - 8 ∧
      (cell.block.length + 1).toInt = cell.block.length.toInt + 1
  /-- The content with its terminator. -/
  terminated : ∀ {a s}, host.store.block? a = some s →
    (s.size + 1).toNat = s.content.length + 1
  /-- The contents of two strings. -/
  sum : ∀ {a b s t}, host.store.block? a = some s → host.store.block? b = some t →
    (s.size + t.size).toNat = s.content.length + t.content.length
  /-- A range in the contract. -/
  range : ∀ {a s left right}, host.store.block? a = some s → s.HasRange left right →
    s.ExactRange left right
  /-- A string appended to another: the block is as long as both, or there is none. -/
  append : ∀ {a b s t}, host.store.block? a = some s → host.store.block? b = some t →
    host.MakesOrAborts (.append a b) (s.content ++ t.content) fun p _ =>
      p.block.length.toInt = s.length.toInt + t.length.toInt ∧
        (s.length + t.length).toInt = s.length.toInt + t.length.toInt

theorem lengthsExact_of_wellFormed {host : Host} (hwell : host.store.WellFormed)
    (hbounded : host.store.Bounded) : host.LengthsExact where
  stored ha := by
    have hs := hwell.block? ha
    have hlength := hs.coherent.length
    exact ⟨by omega, hlength, hs.length_memory⟩
  made cell hmem horigin := by
    have hs := hwell cell hmem
    have hfits := hbounded cell hmem horigin
    have hlength := hs.coherent.length
    have hone : (1 : Int64).toInt = 1 := Int64.toInt_one
    rw [Layout.largest_eq] at hfits
    refine ⟨by rw [hs.length_memory]; exact hfits, ?_⟩
    rw [toInt_add_of_lt (by omega) (by omega) (by omega), hone]
  terminated ha := (hwell.block? ha).toNat_size_succ
  sum ha hb := (hwell.block? ha).toNat_size_add (hwell.block? hb)
  range ha hrange := (hwell.block? ha).exactRange ((hwell.block? ha).hasRange_iff.mp hrange)
  append {a b s t} ha hb := by
    have hs := hwell.block? ha
    have ht := hwell.block? hb
    refine makesOrAborts_of_copies (Construction.copies_append ha hb hs ht) ?_
    intro hfits p after hcontent hgains
    have hlength := hgains.wellFormed.coherent.length
    have hslength := hs.coherent.length
    have htlength := ht.coherent.length
    rw [List.length_append] at hfits
    rw [hcontent, List.length_append] at hlength
    exact ⟨by omega, hs.toInt_length_add ht hfits⟩

/-- Whatever changes lead to the strings of a host, nothing wraps around in their lengths. -/
theorem lengthsExact_of_history {host : Host} {links : List (Handle × Handle)}
    {adopted : List Block} (h : Store.History {} links adopted host.store)
    (hadopted : ∀ block ∈ adopted, block.WellFormed) : host.LengthsExact := by
  apply lengthsExact_of_wellFormed
  · exact h.wellFormed (by simp [Store.WellFormed]) hadopted
  · exact h.bounded (by simp [Store.Bounded])

/-- Arithmetic on lengths never wraps around. The size of a block is nine more than the
    length of its content, or there is no block, for every unsigned word. So in every run
    of a session or of a process that starts without strings and takes over well-formed
    blocks only, all lengths of strings and the sums formed of them are exact. -/
theorem lengths_never_wrap :
    (∀ length : UInt64, Layout.size? length.toNat =
      if length.toNat + 9 ≤ 2 ^ 63 - 8 then some (length.toNat + 9) else none) ∧
    (∀ (session after : Session) (steps : List Session.Step)
      (entries : List (Entry Session.Reply)), session.host.store = {} →
      (∀ s ∈ steps, ∀ block ∈ s.adopted?, block.WellFormed) →
      session.run steps = (entries, some after) → after.host.LengthsExact) ∧
    ∀ (env : Environment) (steps : List Program.Step) (p q : Process) (outcome : Except Stop Unit),
      p.host.store = {} →
      (∀ s ∈ steps, ∀ block ∈ s.adopted?, block.WellFormed) →
      Process.runSteps env steps p = (outcome, q) → q.host.LengthsExact := by
  refine ⟨fun length => Layout.size?_eq length.toNat, ?_, ?_⟩
  · intro session after steps entries hstart hadopted hrun
    have hhistory := Session.run_history hrun
    rw [hstart] at hhistory
    apply lengthsExact_of_history hhistory
    intro block hmem
    obtain ⟨s, hs, hblock⟩ := List.mem_filterMap.mp hmem
    exact hadopted s hs block hblock
  · intro env steps p q outcome hstart hadopted hrun
    obtain ⟨entries, -, hhistory⟩ := Process.runSteps_history hrun
    rw [hstart] at hhistory
    apply lengthsExact_of_history hhistory
    intro block hmem
    -- The steps of the trace are the first ones of all steps.
    obtain ⟨⟨s, entry⟩, hs, hblock⟩ := List.mem_filterMap.mp hmem
    exact hadopted s (List.of_mem_zip hs).1 block hblock

/-- A foreign string, one of the host, the two in a row, and a range of that. -/
def appendsForeign : List Session.Step :=
  [.request (.construct (.adopt ⟨[1, 0, 0, 0, 0, 0, 0, 0, 0x7a, 0]⟩)),
    .request (.construct (.ofBytes [0x61, 0])), .request (.construct (.append 0 1)),
    .request (.construct (.range 2 1 2))]

theorem lengths_never_wrap_appendsForeign :
    Layout.size? 0x7fffffffffffffef = some 0x7ffffffffffffff8 ∧
      Layout.size? 0x7ffffffffffffff0 = none ∧ Layout.size? 0xffffffffffffffff = none ∧
      ∃ entries after, ({} : Session).run appendsForeign = (entries, some after) ∧
        after.host.store.contents = [[0x7a], [0x61, 0], [0x7a, 0x61, 0], [0x61, 0]] ∧
        after.host.LengthsExact := by
  obtain ⟨hsizes, hsessions, -⟩ := lengths_never_wrap
  have hlargest := hsizes 0x7fffffffffffffef
  have hlarger := hsizes 0x7ffffffffffffff0
  have hgreatest := hsizes 0xffffffffffffffff
  have hadopted : ∀ s ∈ appendsForeign, ∀ block ∈ s.adopted?, block.WellFormed := by
    intro s hs block hblock
    -- Only the first step takes over a block.
    have hadopts : block ∈ appendsForeign.filterMap Session.Step.adopted? :=
      List.mem_filterMap.mpr ⟨s, hs, hblock⟩
    rw [List.mem_singleton.mp hadopts]
    exact ⟨[0x7a], by decide, by decide⟩
  have hcontents : (({} : Session).run appendsForeign).2.map (·.host.store.contents) =
      some [[0x7a], [0x61, 0], [0x7a, 0x61, 0], [0x61, 0]] := by decide +kernel
  obtain ⟨after, hafter, hstrings⟩ := Option.map_eq_some_iff.mp hcontents
  have hrun : ({} : Session).run appendsForeign = (_, some after) := Prod.ext rfl hafter
  refine ⟨hlargest, hlarger, hgreatest, _, after, hrun, hstrings, ?_⟩
  exact hsessions {} after appendsForeign _ rfl hadopted hrun

end Host

end ProgramHost
