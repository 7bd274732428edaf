/-
  ProgramHost.Proofs.SilentSteps

  Looking and printing never influence a program.

  A step is idle at a point of a run if it neither reads nor fixes bounds, and hands
  out no string there (`Process.Idle`). That is so at every point for all steps that
  look, print, start logging or run another initializer (`Process.idle_of_observes`).
  An idle step leaves the strings, the bounds and the input as they were, so the run
  goes on from it as it would have from the point before. Of the output and the log
  no step takes notice: what a device refuses and what a logger lets through shows
  there and nowhere else. A run without some of its idle steps, on another device and
  with another logger, therefore follows the first run point by point
  (`Program.reached_omitting`), and `Program.silent_steps_removable` compares what is
  seen of the two.
-/

import ProgramHost.Proofs.FatalRuns
import ProgramHost.Proofs.HostAgreement

namespace ProgramHost

/-! ## Idle steps -/

/-- A step that only looks, prints, starts logging or runs another initializer, or
    asks for the string of the null pointer. -/
def Program.Step.observes : Program.Step → Bool
  | .request (.query _) | .request (.runInitializer _) | .request (.construct (.wrap none)) => true
  | .print .. | .startLog => true
  | _ => false

namespace Process

/-- A step neither reads nor fixes bounds, and completes without handing out a
    string. -/
structure Idle (env : Environment) (host : Host) (s : Program.Step) : Prop where
  reads : s.reads = false
  bounds : s.bounds? = none
  completes : ∃ answer after, Completes env host s answer after ∧ answer.placement? = none

variable {env : Environment} {host after : Host} {s : Program.Step} {answer : Answer}

theorem idle_of_observes (h : s.observes = true) : Idle env host s := by
  cases s with
  | request r =>
    cases r with
    | query q => exact ⟨rfl, rfl, _, _, .request rfl, Query.placement?_answer _ q⟩
    | runInitializer status => exact ⟨rfl, rfl, _, _, .request rfl, rfl⟩
    | construct c =>
      cases c with
      | wrap pointer =>
        cases pointer with
        | none => exact ⟨rfl, rfl, _, _, .request rfl, rfl⟩
        | some handle => cases h
      | _ => cases h
  | print t endLine => exact ⟨rfl, rfl, _, _, .print t endLine, placement?_print host t endLine⟩
  | startLog => exact ⟨rfl, rfl, _, _, .startLog, rfl⟩
  | _ => cases h

theorem Completes.unique {answer' : Answer} {after' : Host} (h : Completes env host s answer after)
    (h' : Completes env host s answer' after') : answer = answer' ∧ after = after' := by
  have hstep := (step_eq_ok.mpr h).symm.trans (step_eq_ok.mpr h')
  simpa using hstep

/-- What an idle step leaves agrees with whatever agreed before it. -/
theorem Idle.agrees {other : Host} (h : Idle env host s) (hstep : Completes env host s answer after)
    (hagrees : Host.Agrees {} host other) : Host.Agrees {} after other := by
  obtain ⟨answer', after', hstep', hnone⟩ := h.completes
  obtain ⟨rfl, rfl⟩ := hstep.unique hstep'
  obtain ⟨change, hchange, hshown⟩ := step_changes (step_eq_ok.mpr hstep)
  have hstore : after.store = host.store := hshown.eq_of_none hchange hnone
  have hfixed : after.settings.fixed = host.settings.fixed := by
    rw [hstep.fixed_eq, h.bounds, Option.or_none]
  refine ⟨?_, ?_, ?_⟩
  · rw [hstore]
    exact hagrees.store
  · rw [← hagrees.settings]
    exact congrArg Settings.mk hfixed
  · rw [hstep.input_eq h.reads]
    exact hagrees.input

theorem Idle.not_stopsIn {stop : Stop} (h : Idle env host s) : ¬StopsIn host s stop after := by
  obtain ⟨_, _, hstep, -⟩ := h.completes
  exact hstep.not_stopsIn

end Process

/-! ## Runs without some steps -/

section

variable {α : Type} (omitted : Nat → Bool)

/-- A list without the elements at some positions. -/
def omitting (xs : List α) : List α := (xs.zipIdx.filter fun x => !omitted x.2).map (·.1)

theorem omitting_concat (xs : List α) (x : α) :
    omitting omitted (xs ++ [x]) =
      omitting omitted xs ++ if omitted xs.length = true then [] else [x] := by
  cases h : omitted xs.length <;> simp [omitting, List.zipIdx_append, h]

theorem omitting_mono {xs ys : List α} (h : xs <+: ys) :
    omitting omitted xs <+: omitting omitted ys := by
  obtain ⟨more, rfl⟩ := h
  simp only [omitting, List.zipIdx_append, List.filter_append, List.map_append]
  exact List.prefix_append _ _

theorem omitting_nothing (xs : List α) : omitting (fun _ => false) xs = xs := by
  have hall : xs.zipIdx.filter (fun _ => !false) = xs.zipIdx := List.filter_eq_self.mpr (by simp)
  rw [omitting, hall]
  exact List.zipIdx_map_fst 0 xs

end

namespace Program

/-- A program without the steps at some positions. -/
def omitting (program : Program) (omitted : Nat → Bool) : Program :=
  { program with steps := ProgramHost.omitting omitted program.steps }

/-- Where a run reaches a step that is left out, the step is idle. -/
def OmitsIdle (program : Program) (env : Environment) (omitted : Nat → Bool) : Prop :=
  ∀ before s p, program.Reaches env before s p → omitted before.length = true →
    Process.Idle env p.host s

variable {program : Program} {env env' : Environment} {omitted : Nat → Bool}

/-- The run lemma: at every point of a run, the run without some idle steps has
    reached a point that agrees with it, with a record of the other steps. -/
theorem reached_omitting (hstdin : env'.stdin = env.stdin)
    (hidle : program.OmitsIdle env omitted) {before : List Step} {p : Process}
    (hsteps : before <+: program.steps) (h : Process.Reached env before p) :
    ∃ q, Process.Reached env' (ProgramHost.omitting omitted before) q ∧
      Host.Agrees {} p.host q.host ∧ q.trace = ProgramHost.omitting omitted p.trace := by
  induction h with
  | start =>
    have hinput : env.host.input = env'.host.input := by
      simp only [Environment.host, hstdin]
    exact ⟨_, .start, ⟨.refl _, rfl, hinput⟩, rfl⟩
  | @completed before p s answer host hbefore hstep ih =>
    obtain ⟨q, hq, hagrees, htrace⟩ := ih ((List.prefix_append before [s]).trans hsteps)
    rw [omitting_concat, omitting_concat, hbefore.length_trace]
    by_cases homitted : omitted before.length = true
    · -- The other run does not have the step and stays where it is.
      have hhere := hidle before s p ⟨hsteps, hbefore⟩ homitted
      rw [if_pos homitted, if_pos homitted, List.append_nil, List.append_nil]
      exact ⟨q, hq, hhere.agrees hstep hagrees, htrace⟩
    · obtain ⟨host', hstep', hafter⟩ := hagrees.completes env' hstep
      rw [if_neg homitted, if_neg homitted, ← htrace, hafter.totals_eq]
      exact ⟨_, .completed hq hstep', hafter, rfl⟩

/-- A step that stops a run stops the run without some idle steps, too. -/
theorem reaches_omitting (hstdin : env'.stdin = env.stdin)
    (hidle : program.OmitsIdle env omitted) {before : List Step} {s : Step} {p : Process}
    {stop : Stop} {host : Host} (h : program.Reaches env before s p)
    (hstop : Process.StopsIn p.host s stop host) :
    ∃ q host', (program.omitting omitted).Reaches env' (ProgramHost.omitting omitted before) s q ∧
      Process.StopsIn q.host s stop host' ∧ q.trace = ProgramHost.omitting omitted p.trace := by
  have hkept : ¬omitted before.length = true := by
    intro homitted
    exact (hidle before s p h homitted).not_stopsIn hstop
  obtain ⟨q, hq, hagrees, htrace⟩ :=
    reached_omitting hstdin hidle h.earlier h.reached
  obtain ⟨host', hstop', -⟩ := hagrees.stopsIn hstop
  have hnext := omitting_mono omitted h.next
  rw [omitting_concat, if_neg hkept] at hnext
  exact ⟨q, host', ⟨hnext, hq⟩, hstop', htrace⟩

/-- A run without some idle steps, on the same input, records the other steps as
    before and ends as before. -/
theorem run_omitting (hstdin : env'.stdin = env.stdin) (hidle : program.OmitsIdle env omitted) :
    ((program.omitting omitted).run env').trace =
        ProgramHost.omitting omitted (program.run env).trace ∧
      ((program.omitting omitted).run env').ending = (program.run env).ending := by
  have hstatus : (program.omitting omitted).status = program.status := rfl
  obtain ⟨p, q, ending, htrace, hrun, hrun'⟩ : ∃ (p q : Process) (ending : Ending),
      q.trace = ProgramHost.omitting omitted p.trace ∧ program.run env = p.finish ending ∧
        (program.omitting omitted).run env' = q.finish ending := by
    apply run_simulates hstatus
    · intro p h
      obtain ⟨q, hq, -, htrace⟩ := reached_omitting hstdin hidle List.prefix_rfl h
      exact ⟨q, hq, htrace⟩
    · intro before s p stop host h hstop
      have hother := reaches_omitting hstdin hidle h hstop
      exact ⟨_, s, hother⟩
  rw [hrun, hrun']
  refine ⟨?_, ?_⟩
  · rw [Process.trace_finish, Process.trace_finish, htrace]
  · rw [Process.ending_finish, Process.ending_finish]

/-- Looking and printing never influence a program. Steps that look, print, start
    logging or run another initializer are idle wherever they are reached. A program
    from which any set of idle steps is left out records the same entries for all
    other steps and has the same ending, and so the same fatal line and status. So
    does a program that is run on the same input, whether its device takes what is
    written or refuses all of it, whatever filter is asked for, and whatever the
    logger makes of that. -/
theorem silent_steps_removable (program : Program) (env : Environment) :
    (∀ host s, s.observes = true → Process.Idle env host s) ∧
      (∀ omitted, program.OmitsIdle env omitted →
        ((program.omitting omitted).run env).trace =
            ProgramHost.omitting omitted (program.run env).trace ∧
          ((program.omitting omitted).run env).ending = (program.run env).ending) ∧
      ∀ stdout logFilter readFilter,
        (program.run { env with stdout, logFilter, readFilter }).trace =
            (program.run env).trace ∧
          (program.run { env with stdout, logFilter, readFilter }).ending =
            (program.run env).ending := by
  refine ⟨fun host s => Process.idle_of_observes, fun omitted => run_omitting rfl, ?_⟩
  intro stdout logFilter readFilter
  have hidle : program.OmitsIdle env fun _ => false := by
    intro before s p _ homitted
    cases homitted
  have hstdin : { env with stdout, logFilter, readFilter }.stdin = env.stdin := rfl
  have hrun := run_omitting hstdin hidle
  simpa only [omitting, omitting_nothing] using hrun

/-- Makes a string, looks at it, prints it, reads another, runs another initializer,
    glues the two, starts logging, and reads a string of at most two bytes. -/
def looksAround : Program where
  steps := [.request (.construct (.ofBytes [0x61, 0x62])), .request (.query (.debug 0)),
    .print 0 true, .getString, .request (.runInitializer 7), .request (.construct (.append 0 1)),
    .startLog, .fixBounds ⟨2⟩, .request (.query .contents), .getString]
  status := 3

/-- The words `xyz` and `uvw` on standard input. -/
def twoWords : Environment where
  stdin := .ofBytes [0x78, 0x79, 0x7a, 0x20, 0x75, 0x76, 0x77]

/-- The positions of the steps that only look or print. -/
def looking (i : Nat) : Bool := looksAround.steps[i]?.any Step.observes

theorem omitsIdle_looking : looksAround.OmitsIdle twoWords looking := by
  intro before s p h homitted
  obtain ⟨rest, hrest⟩ := h.next
  have hstep : looksAround.steps[before.length]? = some s := by
    rw [← hrest]
    simp
  apply Process.idle_of_observes
  simpa [looking, hstep] using homitted

/-- The same words before a process whose device has no room, and which logs warnings
    and errors. -/
def twoWordsNoRoom : Environment where
  stdin := twoWords.stdin
  stdout := .full
  logFilter := some "warn"
  readFilter := fun _ => .atLeast .warning

/-- The steps that only look or print can be left out. The device takes the line that is
    printed or refuses it: the print, the flush of the other initializer and the last
    flush fail then, and the log tells of each. The record and the ending are the same. -/
theorem silent_steps_removable_looksAround :
    (looksAround.run twoWords).trace.length = 9 ∧
      ((looksAround.omitting looking).run twoWords).trace.length = 4 ∧
      ((looksAround.omitting looking).run twoWords).trace =
        ProgramHost.omitting looking (looksAround.run twoWords).trace ∧
      ((looksAround.omitting looking).run twoWords).ending = .fatal (.tokenTooLong 2) ∧
      (looksAround.run twoWords).stdout = [0x61, 0x62, newline] ∧
      (looksAround.run twoWords).log = [] ∧
      (looksAround.run twoWordsNoRoom).stdout = [] ∧
      (looksAround.run twoWordsNoRoom).log =
        [.writeFailed .noRoom, .flushFailed .noRoom, .fatalRefusal (.tokenTooLong 2),
          .flushFailed .noRoom] ∧
      (looksAround.run twoWordsNoRoom).trace = (looksAround.run twoWords).trace ∧
      (looksAround.run twoWordsNoRoom).ending = .fatal (.tokenTooLong 2) := by
  have hlength : (looksAround.run twoWords).trace.length = 9 := by decide +kernel
  have hending : (looksAround.run twoWords).ending = .fatal (.tokenTooLong 2) := by
    decide +kernel
  obtain ⟨-, hdeleted, hdevice⟩ := silent_steps_removable looksAround twoWords
  obtain ⟨htrace, hsame⟩ := hdeleted looking omitsIdle_looking
  obtain ⟨htrace', hsame'⟩ := hdevice .full (some "warn") fun _ => .atLeast .warning
  refine ⟨hlength, ?_, htrace, hsame.trans hending, by decide +kernel, by decide +kernel,
    by decide +kernel, by decide +kernel, htrace', hsame'.trans hending⟩
  rw [htrace]
  decide +kernel

end Program

end ProgramHost
