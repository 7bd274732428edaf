/-
  ProgramHost.Proofs.StoreHistory

  The strings of a whole run.

  `Store.History` is a chain of changes, with the handles they linked and the
  blocks they took over. Every run is one, of a session (`Session.run_history`)
  as of a process (`Process.runSteps_history`), so what a change preserves holds
  after every run of either.
-/

import ProgramHost.Proofs.StoreChanges

namespace ProgramHost

namespace Store

/-- One change after another: the store before them, the handles they linked, the
    blocks they took over, and the store after them. -/
inductive History : Store → List (Handle × Handle) → List Block → Store → Prop where
  | nil {st : Store} : History st [] [] st
  | cons {st mid last : Store} {change : Change} {links : List (Handle × Handle)}
      {adopted : List Block} (hchange : st.Changes change mid)
      (hrest : History mid links adopted last) :
      History st ((change.link? st.handles.length).toList ++ links)
        (change.adopted?.toList ++ adopted) last

@[simp] theorem cells_push (st : Store) (cell : Cell) :
    (st.push cell).2.cells = st.cells ++ [cell] := rfl

@[simp] theorem handles_push (st : Store) (cell : Cell) :
    (st.push cell).2.handles = st.handles ++ [st.cells.length] := rfl

/-! ## What every change preserves -/

/-- Every handle has a cell. -/
def Placed (st : Store) : Prop := ∀ position ∈ st.handles, position < st.cells.length

theorem Placed.lt {st : Store} (h : st.Placed) {a : Handle} {position : Nat}
    (ha : st.handles[a]? = some position) : position < st.cells.length :=
  h position (List.mem_of_getElem? ha)

theorem Placed.exists_cell {st : Store} (h : st.Placed) {a : Handle} (ha : a < st.handles.length) :
    ∃ cell ∈ st.cells, st.block? a = some cell.block := by
  have hposition : st.handles[a]? = some st.handles[a] := List.getElem?_eq_getElem ha
  have hlt := h.lt hposition
  refine ⟨st.cells[st.handles[a]], List.getElem_mem hlt, ?_⟩
  simp [block?, hposition, hlt]

theorem Placed.push {st : Store} (h : st.Placed) (cell : Cell) : (st.push cell).2.Placed := by
  intro position hmem
  simp only [cells_push, handles_push, List.mem_append, List.mem_singleton, List.length_append,
    List.length_cons, List.length_nil] at hmem ⊢
  rcases hmem with hold | rfl
  · have := h position hold
    omega
  · omega

theorem Changes.placed {st st' : Store} {change : Change} (h : st.Changes change st')
    (hplaced : st.Placed) : st'.Placed := by
  cases h with
  | nothing => exact hplaced
  | @made d hfits =>
    have hcounted : Placed { st with totals := st.totals.count (d.length + 9) } := hplaced
    exact hcounted.push _
  | adopted block => exact hplaced.push _
  | shared hposition hcell =>
    intro position hmem
    rw [List.mem_append, List.mem_singleton] at hmem
    rcases hmem with hold | rfl
    · exact hplaced position hold
    · exact hplaced.lt hposition

theorem History.placed {st st' : Store} {links : List (Handle × Handle)} {adopted : List Block}
    (h : st.History links adopted st') (hst : st.Placed) : st'.Placed := by
  induction h with
  | nil => exact hst
  | cons hchange hrest ih => exact ih (hchange.placed hst)

/-- A change leaves the block of every handle as it was. -/
theorem Changes.block?_eq {st st' : Store} {change : Change} (h : st.Changes change st')
    {a : Handle} {block : Block} (hblock : st.block? a = some block) :
    st'.block? a = some block := by
  cases h with
  | nothing => exact hblock
  | @made d hfits =>
    have hcounted : { st with totals := st.totals.count (d.length + 9) }.block? a = some block :=
      hblock
    exact block?_push _ hcounted
  | adopted foreign => exact block?_push _ hblock
  | @shared source position cell hposition hcell =>
    obtain ⟨own, hown, -⟩ := Option.bind_eq_some_iff.mp hblock
    -- The new handle stands behind all the others.
    have hlt : a < st.handles.length := (List.getElem?_eq_some_iff.mp hown).1
    rw [block?] at hblock ⊢
    rwa [List.getElem?_append_left hlt]

/-- The string that a change hands out has the next free handle. -/
theorem Changes.block?_new {st st' : Store} {change : Change} (h : st.Changes change st')
    {placement : Placement} (hplaced : change.placement? st.handles.length = some placement) :
    placement.handle = st.handles.length ∧ st'.block? placement.handle = some placement.block := by
  cases h with
  | nothing => cases hplaced
  | @made d hfits =>
    cases hplaced
    exact ⟨rfl, block?_push_new { st with totals := st.totals.count (d.length + 9) } _⟩
  | adopted foreign =>
    cases hplaced
    exact ⟨rfl, block?_push_new st _⟩
  | shared hposition hcell =>
    cases hplaced
    exact ⟨rfl, by simp [block?, hcell]⟩

end Store

/-! ## Runs of a session -/

namespace Session

/-- The handles that the steps of a run linked. -/
def links (steps : List Step) (entries : List (Entry Reply)) : List (Handle × Handle) :=
  (steps.zip entries).filterMap fun (s, entry) => s.link? entry.reply

theorem links_cons (s : Step) (steps : List Step) (entry : Entry Reply)
    (entries : List (Entry Reply)) :
    links (s :: steps) (entry :: entries) =
      (s.link? entry.reply).toList ++ links steps entries := by
  cases hlink : s.link? entry.reply <;> simp [links, hlink]

/-- A run without an abort is a step and the run after it. -/
theorem run_cons {session last : Session} {s : Step} {steps : List Step}
    {entries : List (Entry Reply)} (h : session.run (s :: steps) = (entries, some last)) :
    ∃ reply after rest, session.step s = some (reply, after) ∧
      after.run steps = (rest, some last) ∧ entries = ⟨reply, after.host.store.totals⟩ :: rest := by
  rw [run] at h
  cases hstep : session.step s with
  | none =>
    rw [hstep] at h
    cases h
  | some result =>
    obtain ⟨reply, after⟩ := result
    rw [hstep] at h
    obtain ⟨hentries, hlast⟩ := Prod.mk.inj h
    exact ⟨reply, after, _, rfl, Prod.ext rfl hlast, hentries.symm⟩

/-- The strings after a run come from those before it by the changes of its
    steps. -/
theorem run_history {session last : Session} {steps : List Step} {entries : List (Entry Reply)}
    (h : session.run steps = (entries, some last)) :
    session.host.store.History (links steps entries) (steps.filterMap Step.adopted?)
      last.host.store := by
  induction steps generalizing session entries with
  | nil =>
    cases h
    exact .nil
  | cons s steps ih =>
    obtain ⟨reply, after, rest, hstep, hrun, rfl⟩ := run_cons h
    obtain ⟨change, hchange, hshown⟩ := step_changes hstep
    have hhistory := Store.History.cons hchange (ih hrun)
    rw [← hshown.link, ← hshown.adopted] at hhistory
    rw [links_cons, List.filterMap_cons]
    cases hadopted : s.adopted? <;> simpa [hadopted] using hhistory

end Session

/-! ## Runs of a process -/

namespace Process

/-- The handles that the completed steps of a process linked. -/
def links (steps : List Program.Step) (trace : List (Entry Answer)) : List (Handle × Handle) :=
  (steps.zip trace).filterMap fun (s, entry) => s.link? entry.reply

/-- The blocks that the completed steps of a process took over. -/
def adopted (steps : List Program.Step) (trace : List (Entry Answer)) : List Block :=
  (steps.zip trace).filterMap fun (s, _) => s.adopted?

/-- The strings of a process come from those at its start by the changes of the
    completed steps, also when a step stopped it: that one changes nothing. -/
theorem runSteps_history {env : Environment} {steps : List Program.Step} {p q : Process}
    {outcome : Except Stop Unit} (h : runSteps env steps p = (outcome, q)) :
    ∃ entries, q.trace = p.trace ++ entries ∧
      p.host.store.History (links steps entries) (adopted steps entries) q.host.store := by
  induction steps generalizing p with
  | nil =>
    cases h
    exact ⟨[], by simp, .nil⟩
  | cons s steps ih =>
    rw [runSteps] at h
    split at h
    · next answer host hstep =>
      obtain ⟨entries, htrace, hrest⟩ := ih h
      obtain ⟨change, hchange, hshown⟩ := step_changes hstep
      refine ⟨⟨answer, host.store.totals⟩ :: entries, by simpa using htrace, ?_⟩
      have hhistory := Store.History.cons hchange hrest
      rw [← hshown.link, ← hshown.adopted] at hhistory
      cases hlink : s.link? answer <;> cases hadopted : s.adopted? <;>
        simpa [links, adopted, hlink, hadopted] using hhistory
    · next stop host hstep =>
      -- The step that stopped the process is not in the trace and changed nothing.
      cases h
      refine ⟨[], by simp, ?_⟩
      rw [show host.store = p.host.store from step_stopped hstep]
      exact .nil

end Process

end ProgramHost
