/-
  ProgramHost.Proofs.ProgramRuns

  How a run of a program goes on, and how it can end.

  `Process.Completes` and `Process.StopsIn` say once what a step can do: complete
  with an answer, or stop the process. A process has reached a point of a program
  when all steps before it completed (`Process.Reached`), and a run ends in one of
  three ways (`Program.Ends`): behind its last step, by a refusal in the next step,
  or by an abort there. `Program.ends_iff` says that these are the outcomes of
  `Program.run` and no others, so what holds at every point that is reached, and
  what the next step can do there, decide what is seen of the run.

  A run aborts exactly when it reaches a step that asks for a string larger than
  memory can hold (`Program.ending_aborted_iff`).
-/

import ProgramHost.Proofs.StoreChanges

namespace ProgramHost

/-! ## What a step can do -/

namespace Process

/-- A step completes with an answer and leaves a host. -/
inductive Completes (env : Environment) (host : Host) : Program.Step → Answer → Host → Prop where
  | request {r : Request} {answer : Answer} {after : Host}
      (hserve : host.serve r = some (answer, after)) :
      Completes env host (.request r) answer after
  | print (s : Handle) (endLine : Bool) :
      Completes env host (.print s endLine) (print host s endLine).1 (print host s endLine).2
  | getString {placement : Placement} {after : Host}
      (hnext : host.nextString = some (.ok placement, after)) :
      Completes env host .getString (.string placement) after
  | getInt {n : Int64} {after : Host} (hnext : host.nextInteger = (.ok n, after)) :
      Completes env host .getInt (.int n) after
  | fixBounds (b : Bounds) :
      Completes env host (.fixBounds b) (fixBounds host b).1 (fixBounds host b).2
  | startLog :
      Completes env host .startLog .done
        { host with log := host.log.start env.filter? }

/-- A step stops the process and leaves a host. -/
inductive StopsIn (host : Host) : Program.Step → Stop → Host → Prop where
  | request {r : Request} (hserve : host.serve r = none) :
      StopsIn host (.request r) .aborted host
  | unbuildable (hnext : host.nextString = none) : StopsIn host .getString .aborted host
  | getString {cause : Refusal} {after : Host}
      (hnext : host.nextString = some (.error cause, after)) :
      StopsIn host .getString (.fatal cause) after
  | getInt {cause : Refusal} {after : Host} (hnext : host.nextInteger = (.error cause, after)) :
      StopsIn host .getInt (.fatal cause) after

variable {env : Environment} {host after : Host} {s : Program.Step}

theorem step_eq_ok {answer : Answer} :
    step env host s = (.ok answer, after) ↔ Completes env host s answer after := by
  constructor
  · intro h
    cases s with
    | request r =>
      simp only [step] at h
      split at h
      · next hserve =>
        cases h
        exact .request hserve
      · cases h
    | print s endLine =>
      cases h
      exact .print s endLine
    | getString =>
      simp only [step] at h
      split at h
      · next hnext =>
        cases h
        exact .getString hnext
      · cases h
      · cases h
    | getInt =>
      simp only [step] at h
      split at h
      · next hnext =>
        cases h
        exact .getInt hnext
      · cases h
    | fixBounds b =>
      cases h
      exact .fixBounds b
    | startLog =>
      cases h
      exact .startLog
  · intro h
    cases h with
    | request hserve => simp only [step, hserve]
    | getString hnext => simp only [step, hnext]
    | getInt hnext => simp only [step, hnext]
    | print s endLine => rfl
    | fixBounds b => rfl
    | startLog => rfl

theorem step_eq_error {stop : Stop} :
    step env host s = (.error stop, after) ↔ StopsIn host s stop after := by
  constructor
  · intro h
    cases s with
    | request r =>
      simp only [step] at h
      split at h
      · cases h
      · next hserve =>
        cases h
        exact .request hserve
    | getString =>
      simp only [step] at h
      split at h
      · cases h
      · next hnext =>
        cases h
        exact .getString hnext
      · next hnext =>
        cases h
        exact .unbuildable hnext
    | getInt =>
      simp only [step] at h
      split at h
      · cases h
      · next hnext =>
        cases h
        exact .getInt hnext
    | print s endLine => cases h
    | fixBounds b => cases h
    | startLog => cases h
  · intro h
    cases h with
    | request hserve => simp only [step, hserve]
    | unbuildable hnext => simp only [step, hnext]
    | getString hnext => simp only [step, hnext]
    | getInt hnext => simp only [step, hnext]

end Process

/-! ## What the parts of a step leave alone -/

/-- The output after a request: an initializer that returns flushes it. -/
def Request.outputAfter (r : Request) (out : Output) : Output :=
  match r with
  | .runInitializer _ => out.flush.2
  | _ => out

namespace Host

variable {host after : Host}

/-- A request touches neither the bounds nor the input, and the output only by a
    flush. -/
theorem serve_frame {r : Request} {answer : Answer} (h : host.serve r = some (answer, after)) :
    after.settings = host.settings ∧ after.input = host.input ∧
      after.output = r.outputAfter host.output := by
  cases r with
  | query q =>
    cases h
    exact ⟨rfl, rfl, rfl⟩
  | construct c =>
    obtain ⟨⟨answer', store⟩, -, heq⟩ := Option.map_eq_some_iff.mp h
    cases heq
    exact ⟨rfl, rfl, rfl⟩
  | runInitializer status =>
    obtain ⟨log, hinner⟩ := host.runInner_eq status
    rw [serve, hinner] at h
    cases h
    exact ⟨rfl, rfl, rfl⟩

/-- Reading a string touches the input, the strings and the log only. -/
theorem nextString_frame {outcome : Except Refusal Placement}
    (h : host.nextString = some (outcome, after)) :
    after.settings = host.settings ∧ after.output = host.output ∧
      after.input = (host.input.tokenOrEmpty host.settings.active.tokenLimit).2 := by
  rw [nextString] at h
  split at h
  · next content input hread =>
    obtain ⟨⟨placement, store⟩, -, heq⟩ := Option.map_eq_some_iff.mp h
    cases heq
    rw [hread]
    exact ⟨rfl, rfl, rfl⟩
  · next e input hread =>
    cases h
    exact ⟨rfl, rfl, by rw [hread]⟩

/-- Reading an integer touches the input and the log only. -/
theorem nextInteger_frame {outcome : Except Refusal Int64}
    (h : host.nextInteger = (outcome, after)) :
    outcome = Input.orZero host.input.integer.1 ∧
      ∃ log, after = { host with input := host.input.integer.2, log } := by
  cases h
  exact ⟨rfl, _, rfl⟩

end Host

namespace Process

variable {env : Environment} {s : Program.Step}

/-! ## Points of a run -/

/-- A process at the start of its initializer. -/
def start (env : Environment) : Process := tell [.programEntered] { host := env.host }

@[simp] theorem trace_start (env : Environment) : (start env).trace = [] := rfl

/-- A process that has completed some steps of a program, one after another from
    the start. -/
inductive Reached (env : Environment) : List Program.Step → Process → Prop where
  | start : Reached env [] (start env)
  | completed {before : List Program.Step} {p : Process} {s : Program.Step} {answer : Answer}
      {host : Host} (hbefore : Reached env before p) (hstep : Completes env p.host s answer host) :
      Reached env (before ++ [s]) { host, trace := p.trace ++ [⟨answer, host.store.totals⟩] }

namespace Reached

variable {before : List Program.Step} {p : Process}

/-- The trace has one entry for each completed step. -/
theorem length_trace (h : Reached env before p) : p.trace.length = before.length := by
  induction h with
  | start => rfl
  | completed _ _ ih => simp [ih]

/-- The run of a program goes on from every point that it reaches. -/
theorem runSteps_eq (h : Reached env before p) (rest : List Program.Step) :
    runSteps env (before ++ rest) (Process.start env) = runSteps env rest p := by
  induction h generalizing rest with
  | start => rfl
  | @completed before p s answer host hbefore hstep ih =>
    rw [List.append_assoc, ih, List.singleton_append, runSteps, step_eq_ok.mpr hstep]

end Reached

/-- A run only adds to the record. -/
theorem prefix_trace_runSteps (env : Environment) (steps : List Program.Step) (p : Process) :
    p.trace <+: (runSteps env steps p).2.trace := by
  induction steps generalizing p with
  | nil => exact List.prefix_rfl
  | cons s steps ih =>
    rw [runSteps]
    split
    · next answer host _ =>
      exact (List.prefix_append p.trace [⟨answer, host.store.totals⟩]).trans (ih ⟨host, _⟩)
    · exact List.prefix_rfl

/-- From every point that is reached, a run completes the remaining steps or is
    stopped in one of them. -/
theorem Reached.completed_or_stopped {before : List Program.Step} {p : Process}
    (h : Reached env before p) (rest : List Program.Step) :
    (∃ q, Reached env (before ++ rest) q) ∨
      ∃ earlier s later q stop host, rest = earlier ++ s :: later ∧
        Reached env (before ++ earlier) q ∧ StopsIn q.host s stop host := by
  induction rest generalizing before p with
  | nil => exact .inl ⟨p, by rwa [List.append_nil]⟩
  | cons s rest ih =>
    cases hstep : step env p.host s with
    | mk result host =>
      cases result with
      | error stop =>
        exact .inr ⟨[], s, rest, p, stop, host, rfl, by rwa [List.append_nil],
          step_eq_error.mp hstep⟩
      | ok answer =>
        have hnext := Reached.completed h (step_eq_ok.mp hstep)
        rcases ih hnext with ⟨q, hq⟩ | ⟨earlier, t, later, q, stop, host', rfl, hq, hstop⟩
        · exact .inl ⟨q, by simpa using hq⟩
        · exact .inr ⟨s :: earlier, t, later, q, stop, host', rfl, by simpa using hq, hstop⟩

end Process

/-! ## The ends of a run -/

namespace Process

/-- What is seen of a process that ends in a given way: its output is flushed, unless it
    aborts. -/
def finish (p : Process) : Ending → Outcome
  | .returned status => (tell [.programReturned status] p.flush).leave (.returned status)
  | .fatal cause => (tell [.fatalRefusal cause] p).flush.leave (.fatal cause)
  | .aborted => p.leave .aborted

@[simp] theorem ending_finish (p : Process) (ending : Ending) :
    (p.finish ending).ending = ending := by
  cases ending <;> rfl

@[simp] theorem trace_finish (p : Process) (ending : Ending) :
    (p.finish ending).trace = p.trace := by
  cases ending <;> rfl

/-- What reached standard output is what the last flush left there, or, after an abort,
    what was there already. -/
theorem stdout_finish (p : Process) (ending : Ending) :
    (p.finish ending).stdout =
      if ending = .aborted then p.host.output.delivered
      else p.host.output.flush.2.delivered := by
  cases ending with
  | returned status =>
    obtain ⟨log, hflush⟩ := p.host.flush_eq
    show p.host.flush.output.delivered = _
    rw [hflush, if_neg (by simp)]
  | fatal cause =>
    obtain ⟨log, hflush⟩ := (p.host.tell [.fatalRefusal cause]).flush_eq
    show (p.host.tell [.fatalRefusal cause]).flush.output.delivered = _
    rw [hflush, if_neg (by simp)]
    rfl
  | aborted => rfl

end Process

namespace Program

variable {program : Program} {env : Environment}

/-- A run reaches a step of the program: those before it completed. -/
structure Reaches (program : Program) (env : Environment) (before : List Step) (s : Step)
    (p : Process) : Prop where
  next : before ++ [s] <+: program.steps
  reached : Process.Reached env before p

theorem Reaches.earlier {before : List Step} {s : Step} {p : Process}
    (h : program.Reaches env before s p) : before <+: program.steps :=
  (List.prefix_append before [s]).trans h.next

theorem Reaches.of_steps {before after : List Step} {s : Step} {p : Process}
    (hsteps : program.steps = before ++ s :: after) (h : Process.Reached env before p) :
    program.Reaches env before s p where
  next := ⟨after, by rw [hsteps, List.append_assoc, List.singleton_append]⟩
  reached := h

/-- How a run of a program ends, and what is seen of it then. -/
inductive Ends (program : Program) (env : Environment) : Outcome → Prop where
  /-- All steps completed; the output is flushed when the initializer returns. -/
  | returned {p : Process} (hall : Process.Reached env program.steps p) :
      Ends program env (p.finish (.returned program.status))
  /-- A refusal in the next step; the output is flushed then. -/
  | fatal {before : List Step} {s : Step} {p : Process} {cause : Refusal} {host : Host}
      (hreaches : program.Reaches env before s p)
      (hstop : Process.StopsIn p.host s (.fatal cause) host) :
      Ends program env (Process.finish { p with host } (.fatal cause))
  /-- An abort in the next step; what is held back is lost. -/
  | aborted {before : List Step} {s : Step} {p : Process} {host : Host}
      (hreaches : program.Reaches env before s p)
      (hstop : Process.StopsIn p.host s .aborted host) :
      Ends program env (Process.finish { p with host } .aborted)

/-- A run that is stopped in the step it reached. -/
theorem Reaches.runSteps_eq {before : List Step} {s : Step} {p : Process} {stop : Stop}
    {host : Host} (h : program.Reaches env before s p)
    (hstop : Process.StopsIn p.host s stop host) :
    Process.runSteps env program.steps (Process.start env) = (.error stop, { p with host }) := by
  obtain ⟨after, hsteps⟩ := h.next
  rw [← hsteps, List.append_assoc, h.reached.runSteps_eq, List.singleton_append,
    Process.runSteps, Process.step_eq_error.mpr hstop]

/-- A run takes the steps of the program from the start, and how they end is how the
    process does. -/
theorem run_eq (program : Program) (env : Environment) :
    program.run env =
      match Process.runSteps env program.steps (Process.start env) with
      | (.ok (), p) => p.finish (.returned program.status)
      | (.error (.fatal cause), p) => p.finish (.fatal cause)
      | (.error .aborted, p) => p.finish .aborted := by
  rw [run, runInitializer, Process.initializer, ← Process.start]
  cases Process.runSteps env program.steps (Process.start env) with
  | mk outcome p =>
    cases outcome with
    | ok _ => rfl
    | error stop => cases stop <;> rfl

theorem Ends.run_eq {outcome : Outcome} (h : program.Ends env outcome) :
    program.run env = outcome := by
  rw [Program.run_eq]
  cases h with
  | returned hall =>
    have hsteps := hall.runSteps_eq []
    rw [List.append_nil] at hsteps
    rw [hsteps, Process.runSteps]
  | fatal hreaches hstop => rw [hreaches.runSteps_eq hstop]
  | aborted hreaches hstop => rw [hreaches.runSteps_eq hstop]

/-- Every run ends in one of the three ways. -/
theorem exists_ends (program : Program) (env : Environment) :
    ∃ outcome, program.Ends env outcome := by
  have hstart : Process.Reached env [] (Process.start env) := .start
  rcases hstart.completed_or_stopped program.steps with
    ⟨q, hq⟩ | ⟨before, s, after, q, stop, host, hsteps, hq, hstop⟩
  · exact ⟨_, .returned hq⟩
  · have hreaches : program.Reaches env before s q := .of_steps hsteps hq
    cases stop with
    | fatal cause => exact ⟨_, .fatal hreaches hstop⟩
    | aborted => exact ⟨_, .aborted hreaches hstop⟩

/-- The outcome of a run is the one in which it ends. -/
theorem ends_iff {outcome : Outcome} : program.Ends env outcome ↔ program.run env = outcome := by
  refine ⟨Ends.run_eq, fun h => ?_⟩
  obtain ⟨outcome', hends⟩ := exists_ends program env
  rwa [← h, hends.run_eq]

/-- What is recorded of a run was recorded at a point that it reached. -/
theorem exists_reached (program : Program) (env : Environment) :
    ∃ before p, before <+: program.steps ∧ Process.Reached env before p ∧
      (program.run env).trace = p.trace := by
  obtain ⟨outcome, hends⟩ := exists_ends program env
  rw [hends.run_eq]
  cases hends with
  | returned hall => exact ⟨_, _, List.prefix_rfl, hall, rfl⟩
  | fatal hreaches hstop =>
    exact ⟨_, _, hreaches.earlier, hreaches.reached, rfl⟩
  | aborted hreaches hstop =>
    exact ⟨_, _, hreaches.earlier, hreaches.reached, rfl⟩

/-- If one run can follow another to the end of its steps, and stops wherever the other
    is stopped, then both end in the same way, in processes that are related. -/
theorem run_simulates {program' : Program} {env' : Environment} {R : Process → Process → Prop}
    (hstatus : program'.status = program.status)
    (hall : ∀ p, Process.Reached env program.steps p →
      ∃ q, Process.Reached env' program'.steps q ∧ R p q)
    (hstops : ∀ before s p stop host, program.Reaches env before s p →
      Process.StopsIn p.host s stop host →
        ∃ before' s' q host', program'.Reaches env' before' s' q ∧
          Process.StopsIn q.host s' stop host' ∧ R { p with host } { q with host := host' }) :
    ∃ p q ending, R p q ∧ program.run env = p.finish ending ∧
      program'.run env' = q.finish ending := by
  obtain ⟨outcome, hends⟩ := exists_ends program env
  cases hends with
  | returned hreached =>
    obtain ⟨q, hq, hrel⟩ := hall _ hreached
    have hrun' := (Ends.returned hq).run_eq
    rw [hstatus] at hrun'
    exact ⟨_, q, .returned program.status, hrel, (Ends.returned hreached).run_eq, hrun'⟩
  | @fatal _ _ _ cause _ hreaches hstop =>
    obtain ⟨_, _, q, host', hreaches', hstop', hrel⟩ := hstops _ _ _ _ _ hreaches hstop
    exact ⟨_, _, .fatal cause, hrel, (Ends.fatal hreaches hstop).run_eq,
      (Ends.fatal hreaches' hstop').run_eq⟩
  | aborted hreaches hstop =>
    obtain ⟨_, _, q, host', hreaches', hstop', hrel⟩ := hstops _ _ _ _ _ hreaches hstop
    exact ⟨_, _, .aborted, hrel, (Ends.aborted hreaches hstop).run_eq,
      (Ends.aborted hreaches' hstop').run_eq⟩

theorem trace_run (program : Program) (env : Environment) :
    (program.run env).trace =
      (Process.runSteps env program.steps (Process.start env)).2.trace := by
  rw [run_eq]
  split
  · next h => rw [Process.trace_finish, h]
  · next h => rw [Process.trace_finish, h]
  · next h => rw [Process.trace_finish, h]

/-- What is recorded at a point of a run stays recorded. -/
theorem prefix_trace_run {before : List Step} {p : Process} (hsteps : before <+: program.steps)
    (h : Process.Reached env before p) : p.trace <+: (program.run env).trace := by
  obtain ⟨rest, hrest⟩ := hsteps
  rw [trace_run, ← hrest, h.runSteps_eq]
  exact Process.prefix_trace_runSteps env rest p

/-- A step that is reached and completes is recorded with its answer. -/
theorem Reaches.recorded {before : List Step} {s : Step} {p : Process} {answer : Answer}
    {host : Host} (h : program.Reaches env before s p)
    (hstep : Process.Completes env p.host s answer host) :
    (program.run env).trace[before.length]? = some ⟨answer, host.store.totals⟩ := by
  obtain ⟨later, hlater⟩ := prefix_trace_run h.next (.completed h.reached hstep)
  rw [← hlater, ← h.reached.length_trace]
  simp

/-- What is seen of a run that is refused in the step it reached. -/
theorem Reaches.run_refused {before : List Step} {s : Step} {p : Process} {cause : Refusal}
    {host : Host} (h : program.Reaches env before s p)
    (hstop : Process.StopsIn p.host s (.fatal cause) host) :
    (program.run env).ending = .fatal cause ∧ (program.run env).trace = p.trace := by
  rw [(Ends.fatal h hstop).run_eq]
  exact ⟨rfl, rfl⟩

/-- A run is fatal exactly when it reaches a step that is refused. -/
theorem ending_fatal_iff {cause : Refusal} :
    (program.run env).ending = .fatal cause ↔
      ∃ before s p host, program.Reaches env before s p ∧
        Process.StopsIn p.host s (.fatal cause) host := by
  constructor
  · intro h
    obtain ⟨outcome, hends⟩ := exists_ends program env
    rw [hends.run_eq] at h
    cases hends with
    | returned hall => cases h
    | fatal hreaches hstop =>
      cases h
      exact ⟨_, _, _, _, hreaches, hstop⟩
    | aborted hreaches hstop => cases h
  · rintro ⟨before, s, p, host, hreaches, hstop⟩
    exact (hreaches.run_refused hstop).1

end Program

/-! ## Strings that memory cannot hold -/

/-- The string that a construction asks memory for. -/
def Construction.draft? (st : Store) : Construction → Option Draft
  | .ofBytes bytes => some (.ofBytes bytes)
  | .ofInt n => some (.ofInt n)
  | .range s left right | .rangeUnchecked s left right =>
    (st.block? s).bind fun b => if b.HasRange left right then some (.ofRange b left right) else none
  | .append s t => (st.block? s).bind fun b => (st.block? t).map (.ofAppend b)
  | .wrap _ | .adopt _ => none

/-- The string that a step asks memory for. -/
def Program.Step.draft? (host : Host) : Program.Step → Option Draft
  | .request (.construct c) => c.draft? host.store
  | .getString =>
    match (host.input.tokenOrEmpty host.settings.active.tokenLimit).1 with
    | .ok content => some (.ofBytes content)
    | .error _ => none
  | _ => none

/-- A step asks for a string that memory cannot hold. -/
def Program.Step.Exceeds (s : Program.Step) (host : Host) : Prop :=
  ∃ d, s.draft? host = some d ∧ Layout.largest < d.length + 9

theorem Store.build_eq_none_iff_exceeds {st : Store} {d : Draft} :
    st.build d = none ↔ Layout.largest < d.length + 9 := by
  rw [build_eq_none, Layout.size?_eq_none, Nat.not_le]

theorem Construction.run_eq_none {st : Store} {c : Construction} :
    c.run st = none ↔ ∃ d, c.draft? st = some d ∧ Layout.largest < d.length + 9 := by
  have hmake (d : Draft) : make st d = none ↔ Layout.largest < d.length + 9 := by
    rw [make, Option.map_eq_none_iff, Store.build_eq_none_iff_exceeds]
  cases c with
  | ofBytes bytes => simp [run, draft?, hmake]
  | ofInt n => simp [run, draft?, hmake]
  | range s left right =>
    cases hblock : st.block? s with
    | none => simp [run, draft?, makeFrom, hblock]
    | some b => by_cases hrange : b.HasRange left right <;>
        simp [run, draft?, makeFrom, hblock, Block.checkRange, hrange, hmake]
  | rangeUnchecked s left right =>
    cases hblock : st.block? s with
    | none => simp [run, draft?, makeFrom, hblock]
    | some b => by_cases hrange : b.HasRange left right <;>
        simp [run, draft?, makeFrom, hblock, hrange, hmake]
  | append s t =>
    cases hblock : st.block? s with
    | none => simp [run, draft?, makeFrom, hblock]
    | some b => cases hother : st.block? t <;>
        simp [run, draft?, makeFrom, hblock, hother, hmake]
  | wrap pointer =>
    cases pointer with
    | none => simp [run, draft?]
    | some h => cases hshare : st.share? h <;> simp [run, draft?, hshare]
  | adopt block => simp [run, draft?]

theorem Host.nextString_eq_none {host : Host} :
    host.nextString = none ↔ Program.Step.getString.Exceeds host := by
  rw [nextString, Program.Step.Exceeds, Program.Step.draft?]
  cases hread : host.input.tokenOrEmpty host.settings.active.tokenLimit with
  | mk outcome input =>
    cases outcome with
    | ok content => simp [Store.build_eq_none_iff_exceeds]
    | error e => simp

namespace Process

variable {host : Host} {s : Program.Step}

/-- A step aborts the process exactly when it asks for a string that memory cannot
    hold. -/
theorem stopsIn_aborted_iff : (∃ after, StopsIn host s .aborted after) ↔ s.Exceeds host := by
  constructor
  · rintro ⟨after, h⟩
    cases h with
    | @request r hserve =>
      cases r with
      | construct c => exact Construction.run_eq_none.mp (by simpa [Host.serve] using hserve)
      | _ => simp [Host.serve] at hserve
    | unbuildable hnext => exact Host.nextString_eq_none.mp hnext
  · intro h
    cases s with
    | request r =>
      cases r with
      | construct c =>
        have hrun := Construction.run_eq_none.mpr h
        exact ⟨host, .request (by simp [Host.serve, hrun])⟩
      | query q => simp [Program.Step.Exceeds, Program.Step.draft?] at h
      | runInitializer status => simp [Program.Step.Exceeds, Program.Step.draft?] at h
    | getString => exact ⟨host, .unbuildable (Host.nextString_eq_none.mpr h)⟩
    | _ => simp [Program.Step.Exceeds, Program.Step.draft?] at h

end Process

namespace Program

variable {program : Program} {env : Environment}

/-- The run of a program reaches a step that asks for a string that memory cannot
    hold. -/
def Exhausts (program : Program) (env : Environment) : Prop :=
  ∃ before s p, program.Reaches env before s p ∧ s.Exceeds p.host

theorem Reaches.exhausts {before : List Step} {s : Step} {p : Process} {host : Host}
    (h : program.Reaches env before s p) (hstop : Process.StopsIn p.host s .aborted host) :
    program.Exhausts env :=
  ⟨before, s, p, h, Process.stopsIn_aborted_iff.mp ⟨host, hstop⟩⟩

/-- A run aborts exactly when memory cannot hold a string that it asks for. -/
theorem ending_aborted_iff : (program.run env).ending = .aborted ↔ program.Exhausts env := by
  constructor
  · intro h
    obtain ⟨outcome, hends⟩ := exists_ends program env
    rw [hends.run_eq] at h
    cases hends with
    | returned hall => cases h
    | fatal hreaches hstop => cases h
    | aborted hreaches hstop => exact hreaches.exhausts hstop
  · rintro ⟨before, s, p, hreaches, hexceeds⟩
    obtain ⟨host, hstop⟩ := Process.stopsIn_aborted_iff.mpr hexceeds
    rw [(Ends.aborted hreaches hstop).run_eq]
    rfl

end Program

end ProgramHost
