/-
  ProgramHost.Proofs.ForeignStrings

  Strings that compiled code lays out behave like those that the host makes.

  In the steps of a run, some of those that make a string from bytes are replaced by
  steps that take over a well-formed block with the same content (`replacing`). Such a
  block is the one that the host would have made (`Block.WellFormed.eq_ofContent`), so
  after each step the two runs have the same strings under the same handles, and the
  first has counted the blocks that were taken over in addition
  (`Session.Agrees.step_replaced`, `Host.Agrees.completes_replaced`).
  `foreign_strings_like_own` says it of whole sessions and programs: all answers are
  the same, and the totals differ by just these blocks.
-/

import Mathlib.Algebra.Ring.Nat
import ProgramHost.Proofs.BlockLayout
import ProgramHost.Proofs.HostAgreement
import ProgramHost.Proofs.StandardOutput

namespace ProgramHost

/-! ## Blocks and their totals -/

namespace Totals

/-- The number and the sizes of some blocks, as the host counts them. -/
def ofBlocks (blocks : List Block) : Totals :=
  ⟨UInt64.ofNat blocks.length,
    UInt64.ofNat (blocks.map fun block =>
      Block.headerSize + block.content.length + Block.terminatorSize).sum⟩

theorem ofBlocks_append (xs ys : List Block) : ofBlocks (xs ++ ys) = ofBlocks xs + ofBlocks ys := by
  simp only [ofBlocks, add_def, List.length_append, List.map_append, List.sum_append,
    UInt64.ofNat_add]

theorem add_assoc (t u v : Totals) : t + u + v = t + (u + v) := by
  simp only [add_def, UInt64.add_assoc]

theorem empty_add (t : Totals) : {} + t = t := by
  simp [add_def]

/-- To count a block is to add its totals. -/
theorem count_eq_add (t : Totals) (block : Block) :
    t.count (block.content.length + 9) = t + ofBlocks [block] := by
  have hsize : Block.headerSize + block.content.length + Block.terminatorSize =
      block.content.length + 9 := by
    rw [Block.headerSize, Block.terminatorSize]
    omega
  simp only [count, ofBlocks, add_def, List.map_singleton, List.sum_singleton, hsize]
  rfl

end Totals

/-! ## Replaced steps -/

section

variable {σ : Type} (ofRequest : Request → σ)

/-- A step, replaced by one that takes over a block if there is one. -/
def replaced (block? : Option Block) (s : σ) : σ :=
  block?.elim s fun block => ofRequest (.construct (.adopt block))

/-- Steps, some of which are replaced by ones that take over a block. -/
def replacing (foreign : Nat → Option Block) (steps : List σ) : List σ :=
  steps.mapIdx fun i => replaced ofRequest (foreign i)

/-- A block can stand for the string of a step: it is well-formed, and the step makes a
    string with its content. -/
def StandsFor (block : Block) (s : σ) : Prop :=
  block.WellFormed ∧ s = ofRequest (.construct (.ofBytes block.content))

/-- Every step that is replaced makes the string that is taken over instead. -/
def Replaces (foreign : Nat → Option Block) (steps : List σ) : Prop :=
  ∀ i s block, steps[i]? = some s → foreign i = some block → StandsFor ofRequest block s

variable {ofRequest}

theorem replacing_cons (foreign : Nat → Option Block) (s : σ) (steps : List σ) :
    replacing ofRequest foreign (s :: steps) =
      replaced ofRequest (foreign 0) s :: replacing ofRequest (fun i => foreign (i + 1)) steps :=
  List.mapIdx_cons

theorem replacing_concat (foreign : Nat → Option Block) (steps : List σ) (s : σ) :
    replacing ofRequest foreign (steps ++ [s]) =
      replacing ofRequest foreign steps ++ [replaced ofRequest (foreign steps.length) s] :=
  List.mapIdx_concat

theorem replacing_mono (foreign : Nat → Option Block) {xs ys : List σ} (h : xs <+: ys) :
    replacing ofRequest foreign xs <+: replacing ofRequest foreign ys := by
  obtain ⟨more, rfl⟩ := h
  rw [replacing, replacing, List.mapIdx_append]
  exact List.prefix_append _ _

/-- The next step of a run makes the string of the block that stands for it. -/
theorem Replaces.next {foreign : Nat → Option Block} {steps before : List σ} {s : σ}
    (h : Replaces ofRequest foreign steps) (hnext : before ++ [s] <+: steps) (block : Block)
    (hblock : foreign before.length = some block) : StandsFor ofRequest block s := by
  obtain ⟨later, rfl⟩ := hnext
  exact h before.length s block (by simp) hblock

end

/-- The blocks taken over by the first steps. -/
def takenOver (foreign : Nat → Option Block) (n : Nat) : List Block :=
  (List.range n).filterMap foreign

theorem takenOver_succ (foreign : Nat → Option Block) (n : Nat) :
    takenOver foreign (n + 1) = takenOver foreign n ++ (foreign n).toList := by
  rw [takenOver, takenOver, List.range_succ, List.filterMap_append]
  cases h : foreign n <;> simp [h]

theorem takenOver_succ_eq_append (foreign : Nat → Option Block) (n : Nat) :
    takenOver foreign (n + 1) = (foreign 0).toList ++ takenOver (fun i => foreign (i + 1)) n := by
  rw [takenOver, takenOver, List.range_succ_eq_map, List.filterMap_cons, List.filterMap_map]
  cases h : foreign 0 <;> rfl

/-- The same reply in both entries, with less counted in the second. -/
def Entry.Exceeds {α : Type} (extra : Totals) (x y : Entry α) : Prop :=
  y.reply = x.reply ∧ x.totals = y.totals + extra

/-- The record of a run in which blocks are taken over has the same replies, and its
    totals lack the blocks that were taken over so far. -/
def Saves {α : Type} (foreign : Nat → Option Block) (xs ys : List (Entry α)) : Prop :=
  ∀ i x, xs[i]? = some x →
    ∃ y, ys[i]? = some y ∧ Entry.Exceeds (.ofBlocks (takenOver foreign (i + 1))) x y

theorem Saves.concat {α : Type} {foreign : Nat → Option Block} {xs ys : List (Entry α)}
    {x y : Entry α} (h : Saves foreign xs ys) (hlength : ys.length = xs.length)
    (hlast : x.Exceeds (.ofBlocks (takenOver foreign (xs.length + 1))) y) :
    Saves foreign (xs ++ [x]) (ys ++ [y]) := by
  intro i z hz
  rcases Nat.lt_trichotomy i xs.length with hlt | rfl | hgt
  · rw [List.getElem?_append_left hlt] at hz
    rw [List.getElem?_append_left (hlength ▸ hlt)]
    exact h i z hz
  · obtain rfl : x = z := by simpa using hz
    exact ⟨y, by simp [← hlength], hlast⟩
  · have hnone : (xs ++ [x])[i]? = none := by
      apply List.getElem?_eq_none
      simp only [List.length_append, List.length_singleton]
      omega
    cases hnone.symm.trans hz

/-! ## Hosts -/

/-- Where one store makes a string, the other can take over a block that stands for
    it. Only the first counts the block; then both add a cell that holds it. -/
theorem Store.Mirrors.adopt {extra : Totals} {a b : Store} (h : a.Mirrors extra b) {block : Block}
    (hwell : block.WellFormed) {result : Placement × Store}
    (hbuild : a.build (.ofBytes block.content) = some result) :
    SameAnswer (Mirrors (extra + .ofBlocks [block])) result (b.adopt block) := by
  have hblock : (Draft.ofBytes block.content).layOut = block := by
    rw [Draft.layOut_ofBytes]
    exact hwell.eq_ofContent.symm
  have htotals : a.totals.count (block.content.length + 9) =
      b.totals + (extra + .ofBlocks [block]) := by
    rw [Totals.count_eq_add, h.totals, Totals.add_assoc]
  have hcounted : Mirrors (extra + .ofBlocks [block])
      { a with totals := a.totals.count (block.content.length + 9) } b :=
    ⟨h.handles, h.blocks, htotals⟩
  obtain ⟨placement, store⟩ := result
  obtain ⟨-, rfl, rfl⟩ := build_eq_some.mp hbuild
  exact hcounted.push (x := ⟨_, .host⟩) (y := ⟨block, .foreign⟩) hblock

namespace Host.Agrees

variable {extra : Totals} {a b after : Host}

theorem serve_adopt (h : Agrees extra a b) {block : Block} (hwell : block.WellFormed)
    {answer : Answer}
    (hserve : a.serve (.construct (.ofBytes block.content)) = some (answer, after)) :
    ∃ after', b.serve (.construct (.adopt block)) = some (answer, after') ∧
      Agrees (extra + .ofBlocks [block]) after after' := by
  obtain ⟨⟨answer', store⟩, hrun, heq⟩ := Option.map_eq_some_iff.mp hserve
  cases heq
  obtain ⟨result, hbuild, heq⟩ := Option.map_eq_some_iff.mp hrun
  cases heq
  obtain ⟨hplacement, hstore⟩ := h.store.adopt hwell hbuild
  rw [hplacement]
  exact ⟨_, rfl, hstore, h.settings, h.input⟩

variable {env : Environment} {s : Program.Step} {block? : Option Block}

/-- The step lemma for programs: where a step completes, the step that replaces it
    completes with the same answer. -/
theorem completes_replaced (h : Agrees extra a b)
    (hstands : ∀ block, block? = some block → StandsFor .request block s) {answer : Answer}
    (hstep : Process.Completes env a s answer after) :
    ∃ after', Process.Completes env b (replaced .request block? s) answer after' ∧
      Agrees (extra + .ofBlocks block?.toList) after after' := by
  cases block? with
  | none =>
    obtain ⟨after', hstep', hafter⟩ := h.completes env hstep
    refine ⟨after', hstep', ?_⟩
    rwa [← Totals.add_empty extra] at hafter
  | some block =>
    obtain ⟨hwell, rfl⟩ := hstands block rfl
    obtain ⟨hserve⟩ := hstep
    obtain ⟨after', hserve', hafter⟩ := h.serve_adopt hwell hserve
    exact ⟨after', .request hserve', hafter⟩

/-- A step that stops one process stops the other as well, unless it is replaced and
    memory could not hold its string. -/
theorem stopsIn_replaced (h : Agrees extra a b)
    (hstands : ∀ block, block? = some block → StandsFor .request block s) {stop : Stop}
    (hstop : Process.StopsIn a s stop after) (hkept : stop = .aborted → block? = none) :
    ∃ after', Process.StopsIn b (replaced .request block? s) stop after' := by
  cases block? with
  | none =>
    obtain ⟨after', hstop', -⟩ := h.stopsIn hstop
    exact ⟨after', hstop'⟩
  | some block =>
    obtain ⟨-, rfl⟩ := hstands block rfl
    cases hstop with
    | request hserve => cases hkept rfl

end Host.Agrees

/-! ## Sessions -/

namespace Session

/-- Two sessions with hosts that agree and the same staging buffer. -/
structure Agrees (extra : Totals) (a b : Session) : Prop where
  host : a.host.Agrees extra b.host
  staging : a.staging = b.staging

namespace Agrees

variable {extra : Totals} {a b after : Session}

theorem withSource (h : Agrees extra a b) (source : Source) :
    Agrees extra (a.withSource source) (b.withSource source) := by
  refine ⟨⟨h.host.store, h.host.settings, ?_⟩, h.staging⟩
  simp only [Session.withSource, h.host.input]

/-- Sessions that agree take every step alike. -/
theorem step (h : Agrees extra a b) (s : Step) :
    Option.Rel (SameAnswer (Agrees extra)) (a.step s) (b.step s) := by
  have hinput := h.host.input
  cases s with
  | request r =>
    refine rel_map (h.host.serve r) ?_
    intro x y hsame
    exact ⟨congrArg Reply.answer hsame.1, hsame.2, h.staging⟩
  | takeToken limit =>
    refine .some ?_
    simp only [takeToken, hinput, h.staging]
    exact ⟨rfl, (h.withSource _).host, rfl⟩
  | takeInteger =>
    refine .some ?_
    simp only [takeInteger, hinput]
    exact ⟨rfl, h.withSource _⟩
  | nextString =>
    refine rel_map h.host.nextString ?_
    intro x y hsame
    refine ⟨?_, hsame.2, h.staging⟩
    show Reply.string x.1 x.2.input.source = Reply.string y.1 y.2.input.source
    rw [hsame.1, hsame.2.input]
  | nextInteger =>
    refine .some ?_
    obtain ⟨houtcome, hhost⟩ := h.host.nextInteger
    refine ⟨?_, hhost, h.staging⟩
    simp only [nextInteger, houtcome, hhost.input]
  | drain =>
    refine .some ?_
    simp only [drain, hinput]
    exact ⟨rfl, h.withSource _⟩
  | write s endLine script =>
    refine .some ⟨?_, h⟩
    simp only [write, h.host.store.block?_eq]

theorem step_eq_none (h : Agrees extra a b) {s : Step} (hstep : a.step s = none) :
    b.step s = none := by
  have hboth := h.step s
  rw [hstep] at hboth
  generalize b.step s = y at hboth
  cases hboth
  rfl

/-- The step lemma for sessions: where a step gives a reply, the step that replaces it
    gives the same. -/
theorem step_replaced (h : Agrees extra a b) {s : Step} {block? : Option Block}
    (hstands : ∀ block, block? = some block → StandsFor .request block s) {reply : Reply}
    (hstep : a.step s = some (reply, after)) :
    ∃ after', b.step (replaced .request block? s) = some (reply, after') ∧
      Agrees (extra + .ofBlocks block?.toList) after after' := by
  cases block? with
  | none =>
    have hboth := h.step s
    rw [hstep] at hboth
    obtain ⟨after', hstep', hafter⟩ := exists_of_rel_some hboth
    refine ⟨after', hstep', ?_⟩
    rwa [← Totals.add_empty extra] at hafter
  | some block =>
    obtain ⟨hwell, rfl⟩ := hstands block rfl
    obtain ⟨⟨answer, host⟩, hserve, heq⟩ := Option.map_eq_some_iff.mp hstep
    cases heq
    obtain ⟨host', hserve', hhost⟩ := h.host.serve_adopt hwell hserve
    refine ⟨{ b with host := host' }, ?_, hhost, h.staging⟩
    simp only [replaced, Option.elim_some, Session.step, hserve', Option.map_some]

end Agrees

/-- The run lemma for sessions, from two sessions that agree. The first run may abort
    in a step that is replaced; otherwise both runs take equally many steps. -/
theorem run_replacing {extra : Totals} {a b : Session} {steps : List Step}
    {foreign : Nat → Option Block} (h : Agrees extra a b) (hrep : Replaces .request foreign steps) :
    (∀ i x, (a.run steps).1[i]? = some x →
        ∃ y, (b.run (replacing .request foreign steps)).1[i]? = some y ∧
          Entry.Exceeds (extra + .ofBlocks (takenOver foreign (i + 1))) x y) ∧
      (((a.run steps).2 = none → foreign (a.run steps).1.length = none) →
        (b.run (replacing .request foreign steps)).1.length = (a.run steps).1.length ∧
          (b.run (replacing .request foreign steps)).2.isSome = (a.run steps).2.isSome) := by
  -- The steps behind the first have positions of their own, so `foreign` is shifted, and
  -- what the first step took over becomes part of `extra`.
  induction steps generalizing a b extra foreign with
  | nil => exact ⟨by simp [run], fun _ => ⟨rfl, rfl⟩⟩
  | cons s steps ih =>
    have hhead (block : Block) : foreign 0 = some block → StandsFor .request block s :=
      hrep 0 s block rfl
    have htail : Replaces .request (fun i => foreign (i + 1)) steps :=
      fun i t block => hrep (i + 1) t block
    rw [replacing_cons]
    cases hstep : a.step s with
    | none =>
      have hrun : a.run (s :: steps) = ([], none) := by simp only [run, hstep]
      rw [hrun]
      refine ⟨by simp, fun hkept => ?_⟩
      -- The step is not replaced, so the other run aborts in it as well.
      have hsame : replaced .request (foreign 0) s = s := by
        have hnone : foreign 0 = none := hkept rfl
        rw [hnone]
        rfl
      have hrun' (more : List Step) : b.run (s :: more) = ([], none) := by
        simp only [run, h.step_eq_none hstep]
      rw [hsame, hrun']
      exact ⟨rfl, rfl⟩
    | some result =>
      obtain ⟨reply, after⟩ := result
      obtain ⟨after', hstep', hafter⟩ := h.step_replaced hhead hstep
      obtain ⟨hentries, hend⟩ := ih hafter htail
      simp only [run, hstep, hstep']
      refine ⟨?_, fun hkept => ?_⟩
      · intro i x hx
        cases i with
        | zero =>
          cases hx
          refine ⟨_, rfl, rfl, ?_⟩
          rw [hafter.host.store.totals, takenOver_succ_eq_append]
          simp [takenOver]
        | succ i =>
          obtain ⟨y, hy, hxy⟩ := hentries i x hx
          refine ⟨y, hy, ?_⟩
          rwa [takenOver_succ_eq_append, Totals.ofBlocks_append, ← Totals.add_assoc]
      · obtain ⟨hlength, hsome⟩ := hend hkept
        exact ⟨congrArg (· + 1) hlength, hsome⟩

end Session

/-! ## Programs -/

/-- A replaced step makes the same of the same output. -/
theorem Store.Mirrors.outputAfter_replaced {extra : Totals} {a b : Store} (h : a.Mirrors extra b)
    {s : Program.Step} {block? : Option Block}
    (hstands : ∀ block, block? = some block → StandsFor .request block s) (out : Output) :
    (replaced .request block? s).outputAfter b out = s.outputAfter a out := by
  cases block? with
  | none =>
    simp only [replaced, Option.elim_none, Program.Step.outputAfter, Store.printTo, h.block?_eq]
  | some block =>
    obtain ⟨-, rfl⟩ := hstands block rfl
    rfl

namespace Program

/-- A program in which blocks are taken over instead of made. -/
def replacing (program : Program) (foreign : Nat → Option Block) : Program :=
  { program with steps := ProgramHost.replacing .request foreign program.steps }

variable {program : Program} {env : Environment} {foreign : Nat → Option Block}

/-- A process that took over blocks has the same output as one that made them, and a
    record with the same replies. -/
structure Follows (foreign : Nat → Option Block) (p q : Process) : Prop where
  output : q.host.output = p.host.output
  length : q.trace.length = p.trace.length
  saves : Saves foreign p.trace q.trace

/-- The run lemma for programs: at every point of a run, the other run has reached a
    point with the same strings, and follows. -/
theorem reached_replacing (hrep : Replaces .request foreign program.steps) {before : List Step}
    {p : Process} (hsteps : before <+: program.steps) (h : Process.Reached env before p) :
    ∃ q, Process.Reached env (ProgramHost.replacing .request foreign before) q ∧
      p.host.Agrees (.ofBlocks (takenOver foreign before.length)) q.host ∧
      Follows foreign p q := by
  induction h with
  | start => exact ⟨_, .start, ⟨.refl _, rfl, rfl⟩, rfl, rfl, fun i x hx => by simp at hx⟩
  | @completed before p s answer host hbefore hstep ih =>
    obtain ⟨q, hq, hagrees, hfollows⟩ := ih ((List.prefix_append before [s]).trans hsteps)
    have hstands := hrep.next hsteps
    obtain ⟨host', hstep', hafter⟩ := hagrees.completes_replaced hstands hstep
    rw [← Totals.ofBlocks_append, ← takenOver_succ] at hafter
    rw [replacing_concat, List.length_append, List.length_singleton]
    refine ⟨_, .completed hq hstep', hafter, ?_, ?_, ?_⟩
    · rw [hstep'.output_eq, hstep.output_eq, hfollows.output,
        hagrees.store.outputAfter_replaced hstands]
    · simp only [List.length_append, hfollows.length, List.length_singleton]
    · refine hfollows.saves.concat hfollows.length ⟨rfl, ?_⟩
      rw [hbefore.length_trace]
      exact hafter.store.totals

/-- A run that is stopped in a step is stopped there with blocks taken over, too,
    unless the step is replaced and memory could not hold its string. -/
theorem reaches_replacing (hrep : Replaces .request foreign program.steps) {before : List Step}
    {s : Step} {p : Process} {stop : Stop} {host : Host} (h : program.Reaches env before s p)
    (hstop : Process.StopsIn p.host s stop host)
    (hkept : stop = .aborted → foreign before.length = none) :
    ∃ before' s' q host', (program.replacing foreign).Reaches env before' s' q ∧
      Process.StopsIn q.host s' stop host' ∧
      Follows foreign { p with host } { q with host := host' } := by
  obtain ⟨q, hq, hagrees, hfollows⟩ :=
    reached_replacing hrep h.earlier h.reached
  obtain ⟨host', hstop'⟩ := hagrees.stopsIn_replaced (hrep.next h.next) hstop hkept
  have hnext : ProgramHost.replacing .request foreign (before ++ [s]) <+:
      (program.replacing foreign).steps := replacing_mono foreign h.next
  rw [replacing_concat] at hnext
  have houtput : host'.output = host.output := by
    rw [hstop'.output_eq, hstop.output_eq, hfollows.output]
  exact ⟨_, _, q, host', ⟨hnext, hq⟩, hstop', houtput, hfollows.length, hfollows.saves⟩

/-- What a run records is recorded with blocks taken over. -/
theorem saves_replacing (hrep : Replaces .request foreign program.steps) :
    Saves foreign (program.run env).trace ((program.replacing foreign).run env).trace := by
  obtain ⟨before, p, hsteps, hp, htrace⟩ := exists_reached program env
  obtain ⟨q, hq, -, hfollows⟩ := reached_replacing hrep hsteps hp
  -- The other run may go on from there, if this one aborted in a step that is replaced.
  have hrecorded : q.trace <+: ((program.replacing foreign).run env).trace :=
    prefix_trace_run (replacing_mono foreign hsteps) hq
  intro i x hx
  rw [htrace] at hx
  obtain ⟨y, hy, hxy⟩ := hfollows.saves i x hx
  obtain ⟨hlt, rfl⟩ := List.getElem?_eq_some_iff.mp hy
  exact ⟨_, List.prefix_iff_getElem?.mp hrecorded i hlt, hxy⟩

/-- A program in which blocks are taken over ends as before, unless memory could not
    hold a string that is taken over. -/
theorem run_replacing (hrep : Replaces .request foreign program.steps)
    (hkept : (program.run env).ending = .aborted →
      foreign (program.run env).trace.length = none) :
    ((program.replacing foreign).run env).trace.length = (program.run env).trace.length ∧
      ((program.replacing foreign).run env).ending = (program.run env).ending ∧
      ((program.replacing foreign).run env).stdout = (program.run env).stdout := by
  have hstatus : (program.replacing foreign).status = program.status := rfl
  obtain ⟨p, q, ending, hfollows, hrun, hrun'⟩ : ∃ p q ending, Follows foreign p q ∧
      program.run env = p.finish ending ∧
        (program.replacing foreign).run env = q.finish ending := by
    apply run_simulates hstatus
    · intro p h
      obtain ⟨q, hq, -, hfollows⟩ := reached_replacing hrep List.prefix_rfl h
      exact ⟨q, hq, hfollows⟩
    · intro before s p stop host h hstop
      apply reaches_replacing hrep h hstop
      rintro rfl
      rw [(Ends.aborted h hstop).run_eq] at hkept
      rw [← h.reached.length_trace]
      exact hkept rfl
  rw [hrun, hrun']
  refine ⟨?_, ?_, ?_⟩
  · rw [Process.trace_finish, Process.trace_finish, hfollows.length]
  · rw [Process.ending_finish, Process.ending_finish]
  · rw [Process.stdout_finish, Process.stdout_finish, hfollows.output]

end Program

/-- Strings that compiled code lays out behave like those that the host makes. In a
    session or a program, let any steps that make a string be replaced by ones that
    take over a well-formed block with the same content. All replies stay the same,
    and the totals lack just the blocks that were taken over so far. A session goes on
    as far as before, and a program ends as before, with the same output; except that
    a step which aborts because memory cannot hold its string no longer does so when
    it is replaced. -/
theorem foreign_strings_like_own :
    (∀ (session : Session) (steps : List Session.Step) (foreign : Nat → Option Block),
      Replaces .request foreign steps →
        Saves foreign (session.run steps).1
            (session.run (replacing .request foreign steps)).1 ∧
          (((session.run steps).2 = none → foreign (session.run steps).1.length = none) →
            (session.run (replacing .request foreign steps)).1.length =
                (session.run steps).1.length ∧
              (session.run (replacing .request foreign steps)).2.isSome =
                (session.run steps).2.isSome)) ∧
      ∀ (program : Program) (env : Environment) (foreign : Nat → Option Block),
        Replaces .request foreign program.steps →
          Saves foreign (program.run env).trace ((program.replacing foreign).run env).trace ∧
            (((program.run env).ending = .aborted →
                foreign (program.run env).trace.length = none) →
              ((program.replacing foreign).run env).trace.length =
                  (program.run env).trace.length ∧
                ((program.replacing foreign).run env).ending = (program.run env).ending ∧
                ((program.replacing foreign).run env).stdout = (program.run env).stdout) := by
  refine ⟨?_, fun program env foreign hrep =>
    ⟨Program.saves_replacing hrep, Program.run_replacing hrep⟩⟩
  intro session steps foreign hrep
  have hagrees : session.Agrees {} session := ⟨⟨.refl _, rfl, rfl⟩, rfl⟩
  obtain ⟨hentries, hend⟩ := Session.run_replacing hagrees hrep
  refine ⟨?_, hend⟩
  intro i x hx
  obtain ⟨y, hy, hxy⟩ := hentries i x hx
  rw [Totals.empty_add] at hxy
  exact ⟨y, hy, hxy⟩

/-- Makes two strings, glues them in both orders, makes a third, compares it with the
    first, and cuts a piece out of it. -/
def gluesAndCuts : List Request :=
  [.construct (.ofBytes [0x61, 0x62]), .construct (.ofBytes [0x7a]),
    .construct (.append 0 1), .construct (.append 1 0), .construct (.ofBytes [0x61, 0x62]),
    .query (.compare 0 4), .query (.same 0 4), .construct (.range 4 1 1)]

/-- The first and the third of the strings, laid out elsewhere. -/
def firstAndThird (i : Nat) : Option Block :=
  if i = 0 ∨ i = 4 then some (.ofContent [0x61, 0x62]) else none

theorem replaces_firstAndThird {σ : Type} (ofRequest : Request → σ) (more : List σ) :
    Replaces ofRequest firstAndThird (gluesAndCuts.map ofRequest ++ more) := by
  intro i s block hs hblock
  have hlt : [(0x61 : UInt8), 0x62].length < 2 ^ 63 := by decide
  rw [firstAndThird] at hblock
  split at hblock
  · next hi =>
    cases hblock
    rw [StandsFor, Block.content_ofContent hlt]
    refine ⟨⟨_, hlt, rfl⟩, ?_⟩
    rcases hi with rfl | rfl <;> simpa [gluesAndCuts] using hs.symm
  · cases hblock

/-- Does the same, and writes what it cut to a sink. -/
def gluesAndWrites : List Session.Step := gluesAndCuts.map .request ++ [.write 5 false []]

/-- Does the same, and prints what it glued and cut. -/
def gluesAndPrints : Program where
  steps := gluesAndCuts.map .request ++ [.print 2 false, .print 3 true, .print 5 true]
  status := 5

theorem foreign_strings_like_own_firstAndThird :
    Saves firstAndThird (({} : Session).run gluesAndWrites).1
        (({} : Session).run (replacing .request firstAndThird gluesAndWrites)).1 ∧
      (({} : Session).run (replacing .request firstAndThird gluesAndWrites)).1.length = 9 ∧
      Totals.ofBlocks (takenOver firstAndThird 9) = ⟨2, 22⟩ ∧
      ((gluesAndPrints.replacing firstAndThird).run {}).ending = .returned 5 ∧
      ((gluesAndPrints.replacing firstAndThird).run {}).stdout =
        [0x61, 0x62, 0x7a, 0x7a, 0x61, 0x62, newline, 0x62, newline] := by
  obtain ⟨hsaves, hlength⟩ :=
    foreign_strings_like_own.1 {} gluesAndWrites firstAndThird (replaces_firstAndThird _ _)
  obtain ⟨-, hends⟩ :=
    foreign_strings_like_own.2 gluesAndPrints {} firstAndThird (replaces_firstAndThird _ _)
  obtain ⟨-, hending, hstdout⟩ := hends fun _ => by decide +kernel
  refine ⟨hsaves, ?_, by decide +kernel, hending.trans ?_, hstdout.trans ?_⟩
  · rw [(hlength fun _ => by decide +kernel).1]
    decide +kernel
  · decide +kernel
  · decide +kernel

end ProgramHost
