/-
  ProgramHost.Proofs.Accounting

  What the totals count, and which handles share a block.

  `Store.tally` counts the distinct blocks of the table that the host made, and
  their sizes. Each change keeps the totals equal to it: a block made is a new
  position, a foreign block is not counted, and another handle for a position
  counts nothing (`Store.Changes.accounted`). The handles that share a position are
  the ones joined by a chain of links (`Sharing.same?_iff`). Both hold after every
  run, of a session as of a process.
-/

import Mathlib.Algebra.BigOperators.Group.Finset.Basic
import Mathlib.Data.Finset.Dedup
import Mathlib.Logic.Relation
import ProgramHost.Proofs.ReadAgreement
import ProgramHost.Proofs.StoreHistory

namespace ProgramHost

open Finset

/-! ## The tally of a table -/

namespace Store

/-- The host made the block at a position. -/
def hostMade (st : Store) (position : Nat) : Bool :=
  st.cells[position]?.any (·.origin == .host)

/-- The size of the block at a position: the length, that many bytes, a zero byte. -/
def sizeAt (st : Store) (position : Nat) : Nat :=
  st.cells[position]?.elim 0 fun cell =>
    Block.headerSize + cell.block.size.toNat + Block.terminatorSize

/-- The positions in the table whose blocks the host made. -/
def hostBlocks (st : Store) : Finset Nat := st.handles.toFinset.filter (st.hostMade ·)

/-- The number and the sizes of these blocks, as wrap-around words. -/
def tally (st : Store) : Totals :=
  ⟨UInt64.ofNat st.hostBlocks.card, UInt64.ofNat (∑ position ∈ st.hostBlocks, st.sizeAt position)⟩

variable {st st' : Store}

theorem hostBlocks_subset (h : st.Placed) {position : Nat} (hmem : position ∈ st.hostBlocks) :
    position < st.cells.length := by
  rw [hostBlocks, mem_filter, List.mem_toFinset] at hmem
  exact h position hmem.1

/-- A new cell adds its own position, if the host made it. -/
theorem Placed.hostBlocks_push (h : st.Placed) (cell : Cell) :
    (st.push cell).2.hostBlocks =
      if cell.origin = .host then insert st.cells.length st.hostBlocks else st.hostBlocks := by
  have hold : st.handles.toFinset.filter ((st.push cell).2.hostMade ·) = st.hostBlocks := by
    -- Positions in the table read the cells that were there before.
    refine filter_congr fun position hmem => ?_
    have hlt := h position (List.mem_toFinset.mp hmem)
    rw [hostMade, hostMade, cells_push, List.getElem?_append_left hlt]
  have hnew : (st.push cell).2.hostMade st.cells.length = (cell.origin == .host) := by
    simp [hostMade]
  have hhandles : (st.push cell).2.handles.toFinset =
      insert st.cells.length st.handles.toFinset := by
    simp
  rw [hostBlocks, hhandles, filter_insert, hold, hnew]
  simp

theorem Placed.sum_sizeAt_push (h : st.Placed) (cell : Cell) :
    ∑ position ∈ st.hostBlocks, (st.push cell).2.sizeAt position =
      ∑ position ∈ st.hostBlocks, st.sizeAt position := by
  refine sum_congr rfl fun position hmem => ?_
  rw [sizeAt, sizeAt, cells_push, List.getElem?_append_left (hostBlocks_subset h hmem)]

theorem Placed.tally_push_foreign (h : st.Placed) (block : Block) :
    (st.push ⟨block, .foreign⟩).2.tally = st.tally := by
  have hblocks : (st.push ⟨block, .foreign⟩).2.hostBlocks = st.hostBlocks := by
    rw [h.hostBlocks_push]
    exact if_neg nofun
  rw [tally, hblocks, h.sum_sizeAt_push, tally]

theorem Placed.tally_push_host (h : st.Placed) (block : Block) :
    (st.push ⟨block, .host⟩).2.tally =
      st.tally.count (Block.headerSize + block.size.toNat + Block.terminatorSize) := by
  have hblocks : (st.push ⟨block, .host⟩).2.hostBlocks =
      insert st.cells.length st.hostBlocks := by
    rw [h.hostBlocks_push]
    exact if_pos rfl
  -- The position of the new cell is not in the table before.
  have hfresh : st.cells.length ∉ st.hostBlocks := fun hmem =>
    Nat.lt_irrefl _ (hostBlocks_subset h hmem)
  have hsize : (st.push ⟨block, .host⟩).2.sizeAt st.cells.length =
      Block.headerSize + block.size.toNat + Block.terminatorSize := by
    simp [sizeAt]
  rw [tally, hblocks, card_insert_of_notMem hfresh, sum_insert hfresh, h.sum_sizeAt_push, hsize,
    Nat.add_comm _ (∑ position ∈ st.hostBlocks, st.sizeAt position), UInt64.ofNat_add,
    UInt64.ofNat_add]
  rfl

theorem tally_share {a : Handle} {position : Nat} (ha : st.handles[a]? = some position) :
    { st with handles := st.handles ++ [position] }.tally = st.tally := by
  have hmem : position ∈ st.handles.toFinset := List.mem_toFinset.mpr (List.mem_of_getElem? ha)
  have hhandles : (st.handles ++ [position]).toFinset = st.handles.toFinset := by
    simpa [union_comm, ← insert_eq] using hmem
  have hblocks : { st with handles := st.handles ++ [position] }.hostBlocks = st.hostBlocks := by
    rw [hostBlocks, hhandles]
    rfl
  rw [tally, hblocks]
  rfl

/-- A laid-out draft takes the bytes that the totals count for it. -/
theorem size_layOut {d : Draft} (h : d.length + 9 ≤ Layout.largest) :
    Block.headerSize + d.layOut.size.toNat + Block.terminatorSize = d.length + 9 := by
  have hlt : d.region.length < 2 ^ 63 := by
    rw [Draft.length_region]
    exact Layout.lt_of_fits h
  rw [Draft.layOut_eq_ofContent, Block.size_ofContent hlt, Draft.length_region, Block.headerSize,
    Block.terminatorSize]
  omega

theorem Changes.accounted {change : Change} (h : st.Changes change st') (hplaced : st.Placed)
    (haccounted : st.totals = st.tally) : st'.totals = st'.tally := by
  cases h with
  | nothing => exact haccounted
  | @made d hfits =>
    have hcounted : Placed { st with totals := st.totals.count (d.length + 9) } := hplaced
    rw [hcounted.tally_push_host, size_layOut hfits]
    show st.totals.count (d.length + 9) = st.tally.count (d.length + 9)
    rw [haccounted]
  | adopted block =>
    rw [hplaced.tally_push_foreign]
    exact haccounted
  | shared hposition hcell =>
    rw [tally_share hposition]
    exact haccounted

end Store

/-! ## Shared blocks -/

/-- Two handles are joined by a chain of links. -/
def Linked (links : List (Handle × Handle)) : Handle → Handle → Prop :=
  Relation.EqvGen fun a b => (a, b) ∈ links

theorem Linked.mono {links more : List (Handle × Handle)} {a b : Handle} (h : Linked links a b) :
    Linked (links ++ more) a b :=
  Relation.EqvGen.mono (fun _ _ hmem => List.mem_append_left more hmem) a b h

/-- The links account for all handles that share a position in a table. -/
structure Sharing (links : List (Handle × Handle)) (handles : List Nat) : Prop where
  linked : ∀ a b, (a, b) ∈ links →
    ∃ position, handles[a]? = some position ∧ handles[b]? = some position
  joined : ∀ a b position, handles[a]? = some position → handles[b]? = some position →
    Linked links a b

namespace Sharing

variable {links : List (Handle × Handle)} {handles : List Nat} {position : Nat}

theorem getElem?_old {a p : Nat} (h : handles[a]? = some p) :
    (handles ++ [position])[a]? = some p := by
  rw [List.getElem?_append_left (List.getElem?_eq_some_iff.mp h).1, h]

theorem getElem?_cases {a p : Nat} (h : (handles ++ [position])[a]? = some p) :
    handles[a]? = some p ∨ a = handles.length ∧ p = position := by
  by_cases hlt : a < handles.length
  · rw [List.getElem?_append_left hlt] at h
    exact .inl h
  · rw [List.getElem?_append_right (Nat.le_of_not_lt hlt), List.getElem?_singleton] at h
    split at h
    · next hzero =>
      cases h
      exact .inr ⟨by omega, rfl⟩
    · cases h

/-- A handle for a new position shares it with none. -/
theorem fresh (h : Sharing links handles) (hfresh : position ∉ handles) :
    Sharing links (handles ++ [position]) where
  linked a b hmem := by
    obtain ⟨p, ha, hb⟩ := h.linked a b hmem
    exact ⟨p, getElem?_old ha, getElem?_old hb⟩
  joined a b p ha hb := by
    -- No old handle stands at the new position.
    rcases getElem?_cases ha with holda | ⟨rfl, rfl⟩
    · rcases getElem?_cases hb with holdb | ⟨-, rfl⟩
      · exact h.joined a b p holda holdb
      · exact absurd (List.mem_of_getElem? holda) hfresh
    · rcases getElem?_cases hb with holdb | ⟨rfl, -⟩
      · exact absurd (List.mem_of_getElem? holdb) hfresh
      · exact .refl _

/-- Another handle for the position of a handle is linked to it, and through it
    to all the others. -/
theorem shared (h : Sharing links handles) {source : Handle}
    (hsource : handles[source]? = some position) :
    Sharing (links ++ [(handles.length, source)]) (handles ++ [position]) where
  linked a b hmem := by
    rw [List.mem_append, List.mem_singleton] at hmem
    rcases hmem with hold | hnew
    · obtain ⟨p, ha, hb⟩ := h.linked a b hold
      exact ⟨p, getElem?_old ha, getElem?_old hb⟩
    · cases hnew
      exact ⟨position, List.getElem?_concat_length, getElem?_old hsource⟩
  joined a b p ha hb := by
    -- The new handle reaches the old ones through its source.
    have hlink : Linked (links ++ [(handles.length, source)]) handles.length source :=
      .rel _ _ (by simp)
    rcases getElem?_cases ha with holda | ⟨rfl, rfl⟩
    · rcases getElem?_cases hb with holdb | ⟨rfl, rfl⟩
      · exact (h.joined a b p holda holdb).mono
      · exact .trans _ _ _ (h.joined a source p holda hsource).mono (.symm _ _ hlink)
    · rcases getElem?_cases hb with holdb | ⟨rfl, -⟩
      · exact .trans _ _ _ hlink (h.joined source b p hsource holdb).mono
      · exact .refl _

/-- A chain of links does not leave a position. -/
theorem getElem?_eq (h : Sharing links handles) {a b : Handle} (hlinked : Linked links a b) :
    handles[a]? = handles[b]? := by
  induction hlinked with
  | rel a b hmem =>
    obtain ⟨p, ha, hb⟩ := h.linked a b hmem
    rw [ha, hb]
  | refl a => rfl
  | symm a b _ ih => exact ih.symm
  | trans a b c _ _ ihab ihbc => exact ihab.trans ihbc

/-- Handles are the same string exactly when a chain of links joins them. -/
theorem same?_iff {st : Store} (h : Sharing links st.handles) (a b : Handle) :
    st.same? a b = some true ↔ a < st.handles.length ∧ Linked links a b := by
  constructor
  · intro hsame
    obtain ⟨p, ha, hsame⟩ := Option.bind_eq_some_iff.mp hsame
    obtain ⟨q, hb, hsame⟩ := Option.bind_eq_some_iff.mp hsame
    obtain rfl : p = q := by simpa using hsame
    exact ⟨(List.getElem?_eq_some_iff.mp ha).1, h.joined a b p ha hb⟩
  · rintro ⟨hlt, hlinked⟩
    have ha := List.getElem?_eq_getElem hlt
    have hb := (h.getElem?_eq hlinked).symm.trans ha
    simp [Store.same?, ha, hb]

end Sharing

namespace Store

variable {st st' : Store} {links : List (Handle × Handle)}

theorem Changes.sharing {change : Change} (h : st.Changes change st') (hplaced : st.Placed)
    (hsharing : Sharing links st.handles) :
    Sharing (links ++ (change.link? st.handles.length).toList) st'.handles := by
  have hfresh : st.cells.length ∉ st.handles := fun hmem => Nat.lt_irrefl _ (hplaced _ hmem)
  cases h with
  | nothing => simpa [Change.link?] using hsharing
  | made hfits => simpa [Change.link?] using hsharing.fresh hfresh
  | adopted block => simpa [Change.link?] using hsharing.fresh hfresh
  | shared hposition hcell => exact hsharing.shared hposition

theorem History.accounted {adopted : List Block} (h : st.History links adopted st')
    (hplaced : st.Placed) (htotals : st.totals = st.tally) : st'.totals = st'.tally := by
  induction h with
  | nil => exact htotals
  | cons hchange hrest ih =>
    exact ih (hchange.placed hplaced) (hchange.accounted hplaced htotals)

theorem History.sharing {before : List (Handle × Handle)} {adopted : List Block}
    (h : st.History links adopted st') (hplaced : st.Placed)
    (hsharing : Sharing before st.handles) : Sharing (before ++ links) st'.handles := by
  induction h generalizing before with
  | nil => simpa using hsharing
  | cons hchange hrest ih =>
    rw [← List.append_assoc]
    exact ih (hchange.placed hplaced) (hchange.sharing hplaced hsharing)

/-- The totals are the tally of the table, and two handles are the same string
    exactly when a chain of links joins them. -/
structure Balanced (links : List (Handle × Handle)) (st : Store) : Prop where
  totals : st.totals = st.tally
  same?_iff : ∀ a b, st.same? a b = some true ↔ a < st.handles.length ∧ Linked links a b

theorem History.balanced {adopted : List Block} (h : History {} links adopted st) :
    st.Balanced links := by
  have hplaced : Placed {} := by simp [Placed]
  have hnone : Sharing [] ({} : Store).handles := ⟨by simp, by simp⟩
  exact ⟨h.accounted hplaced rfl, (h.sharing hplaced hnone).same?_iff⟩

end Store

/-! ## Steps that count nothing, and the string at the end of the input -/

/-- The answer is an error. -/
def Answer.failed : Answer → Bool
  | .refused _ | .unknownHandle | .brokenContract => true
  | _ => false

theorem Answer.placement?_of_failed {a : Answer} (h : a.failed = true) : a.placement? = none := by
  cases a with
  | string placement => cases h
  | _ => rfl

namespace Host

/-- Only whitespace stands before the next end of the input. -/
def AtEnd (host : Host) : Prop :=
  Signals.front (Signals.dropBytes isWhitespace host.input.source.stream) = .endOfInput

/-- A string read at the end of the input is empty, and counts one block of nine
    bytes. -/
theorem nextString_atEnd {host : Host} (h : host.AtEnd) :
    ∃ placement after, host.nextString = some (.ok placement, after) ∧
      after.store.totals = host.store.totals.count 9 := by
  have hstop : Signals.Stops (!isWhitespace ·)
      (Signals.dropBytes isWhitespace host.input.source.stream) :=
    Signals.stops_of_front_ne _ (by simp [show _ = _ from h])
  have htoken : (Signals.token host.settings.active.tokenLimit host.input.source.stream).1 =
      .error .unexpectedEnd := by
    rw [Signals.token, Signals.takeBytes_of_stops hstop, if_pos rfl, Signals.conclude_end h]
  have hread : (host.input.tokenOrEmpty host.settings.active.tokenLimit).1 = .ok [] := by
    rw [Input.tokenOrEmpty_stream, htoken]
    rfl
  obtain ⟨after, hnext, htotals⟩ := nextString_of_read hread (by decide)
  exact ⟨_, after, hnext, htotals⟩

end Host

namespace Session

/-- The step returned an error. -/
def Reply.failed : Reply → Bool
  | .answer a => a.failed
  | .token (.error _) _ _ | .integer (.error _) _ | .string (.error _) _ => true
  | .drained (.error _) _ _ | .written (.error _) _ _ => true
  | _ => false

theorem Reply.placement?_of_failed {reply : Reply} (h : reply.failed = true) :
    reply.placement? = none := by
  cases reply with
  | answer a => exact Answer.placement?_of_failed h
  | string outcome source =>
    cases outcome with
    | ok placement => cases h
    | error e => rfl
  | _ => rfl

/-- The step only looks at strings. -/
def Step.inspects : Step → Bool
  | .request (.query _) | .write .. => true
  | _ => false

/-- The step returned an error, read an integer, possibly as the zero that stands
    for none, or only looked at strings. -/
def Uncounted (s : Step) (reply : Reply) : Prop :=
  reply.failed = true ∨ s = .nextInteger ∨ s.inspects = true

theorem step_uncounted {session after : Session} {s : Step} {reply : Reply}
    (h : session.step s = some (reply, after)) (hs : Uncounted s reply) :
    after.host.store = session.host.store := by
  rcases hs with hfailed | rfl | hinspects
  · obtain ⟨change, hchange, hshown⟩ := step_changes h
    exact hshown.eq_of_none hchange (Reply.placement?_of_failed hfailed)
  · cases h
    rfl
  · cases s with
    | request r =>
      cases r with
      | query q =>
        cases h
        rfl
      | _ => cases hinspects
    | write s endLine script =>
      cases h
      rfl
    | _ => cases hinspects

end Session

namespace Process

/-- The step only looks at strings. -/
def inspects : Program.Step → Bool
  | .request (.query _) | .print .. => true
  | _ => false

/-- The step stopped the process or was answered by an error, read an integer, or
    only looked at strings. -/
def Uncounted (s : Program.Step) (result : Except Stop Answer) : Prop :=
  (∀ answer, result = .ok answer → answer.failed = true) ∨ s = .getInt ∨ inspects s = true

theorem step_uncounted {env : Environment} {host after : Host} {s : Program.Step}
    {result : Except Stop Answer} (h : step env host s = (result, after))
    (hs : Uncounted s result) : after.store = host.store := by
  cases result with
  | error stop => exact step_stopped h
  | ok answer =>
    rcases hs with hfailed | rfl | hinspects
    · obtain ⟨change, hchange, hshown⟩ := step_changes h
      exact hshown.eq_of_none hchange (Answer.placement?_of_failed (hfailed answer rfl))
    · simp only [step] at h
      split at h
      · next n host' hnext =>
        cases h
        exact Host.nextInteger_store hnext
      · cases h
    · cases s with
      | request r =>
        cases r with
        | query q =>
          cases h
          rfl
        | _ => cases hinspects
      | print s endLine =>
        cases h
        exact store_print host s endLine
      | _ => cases hinspects

end Process

/-! ## Whole runs -/

/-- The accounts of every run. After any steps of a session or of a process that
    starts without strings, stopped or not, the totals count the distinct blocks of
    the table that the host made, and two handles are the same string exactly when a
    chain of shared handles joins them. The next step counts nothing if it fails,
    reads an integer or only looks, and counts one block of nine bytes if it reads a
    string at the end of the input. -/
theorem totals_count_host_blocks :
    (∀ (session after : Session) (steps : List Session.Step)
      (entries : List (Entry Session.Reply)), session.host.store = {} →
      session.run steps = (entries, some after) →
        after.host.store.Balanced (Session.links steps entries) ∧
        (∀ s reply next, after.step s = some (reply, next) → Session.Uncounted s reply →
          next.host.store.totals = after.host.store.totals) ∧
        (after.host.AtEnd → ∃ reply next, after.step .nextString = some (reply, next) ∧
          next.host.store.totals = after.host.store.totals.count 9)) ∧
    ∀ (env : Environment) (host : Host) (steps : List Program.Step)
      (outcome : Except Stop Unit) (p : Process), host.store = {} →
      Process.runSteps env steps { host } = (outcome, p) →
        p.host.store.Balanced (Process.links steps p.trace) ∧
        (∀ s result next, Process.step env p.host s = (result, next) →
          Process.Uncounted s result → next.store.totals = p.host.store.totals) ∧
        (p.host.AtEnd → ∃ answer next,
          Process.step env p.host .getString = (.ok answer, next) ∧
          next.store.totals = p.host.store.totals.count 9) := by
  constructor
  · intro session after steps entries hstart hrun
    have hhistory := Session.run_history hrun
    rw [hstart] at hhistory
    refine ⟨hhistory.balanced, ?_, ?_⟩
    · intro s reply next hstep hs
      rw [Session.step_uncounted hstep hs]
    · intro hend
      obtain ⟨placement, host, hnext, htotals⟩ := Host.nextString_atEnd hend
      refine ⟨.string (.ok placement) host.input.source, { after with host }, ?_, htotals⟩
      rw [Session.step, Session.nextString, hnext]
      rfl
  · intro env host steps outcome p hempty hrun
    obtain ⟨entries, htrace, hhistory⟩ := Process.runSteps_history hrun
    obtain rfl : p.trace = entries := htrace
    rw [hempty] at hhistory
    refine ⟨hhistory.balanced, ?_, ?_⟩
    · intro s result next hstep hs
      rw [Process.step_uncounted hstep hs]
    · intro hend
      obtain ⟨placement, host, hnext, htotals⟩ := Host.nextString_atEnd hend
      refine ⟨.string placement, host, ?_, htotals⟩
      rw [Process.step, hnext]

/-- Two strings of the same content, a second handle for the first of them, a
    foreign block with two handles, a refused range, and a string read at the end
    of the input. -/
def sharedAndForeign : List Session.Step :=
  [.request (.construct (.ofBytes [0x61, 0x62])), .request (.construct (.wrap (some 0))),
    .request (.construct (.adopt (Block.ofContent [0x7a]))),
    .request (.construct (.wrap (some 2))), .request (.construct (.ofBytes [0x61, 0x62])),
    .request (.construct (.range 0 1 2)), .nextString]

theorem totals_count_host_blocks_sharedAndForeign :
    ∃ entries after, ({} : Session).run sharedAndForeign = (entries, some after) ∧
      after.host.store.tally = ⟨3, 31⟩ ∧
      Linked (Session.links sharedAndForeign entries) 2 3 ∧
      ¬ Linked (Session.links sharedAndForeign entries) 0 4 := by
  have hseen : (({} : Session).run sharedAndForeign).2.map (fun last =>
      (last.host.store.totals, last.host.store.handles.length, last.host.store.same? 2 3,
        last.host.store.same? 0 4)) = some (⟨3, 31⟩, 6, some true, some false) := by
    decide +kernel
  obtain ⟨after, hafter, hstore⟩ := Option.map_eq_some_iff.mp hseen
  obtain ⟨htotals, hlength, hsame, hother⟩ : _ ∧ _ ∧ _ ∧ _ := by simpa using hstore
  have hrun : ({} : Session).run sharedAndForeign = (_, some after) := Prod.ext rfl hafter
  have hbalanced := (totals_count_host_blocks.1 {} after sharedAndForeign _ rfl hrun).1
  refine ⟨_, after, hrun, hbalanced.totals.symm.trans htotals, ?_, ?_⟩
  · exact ((hbalanced.same?_iff 2 3).mp hsame).2
  · intro hlinked
    have hlt : 0 < after.host.store.handles.length := by omega
    rw [(hbalanced.same?_iff 0 4).mpr ⟨hlt, hlinked⟩] at hother
    cases hother

end ProgramHost
