/-
  ProgramHost.Proofs.StandardOutput

  What a program prints reaches standard output, all of it and in order.

  The record of a run shows its strings: those that the completed steps handed out,
  by handle. `Program.printed` reads off it what each completed print step shows.
  The bytes that an output has delivered and those that it holds back, taken
  together, are what was printed so far (`Process.Reached.written_eq`): on a device
  that takes everything no transfer fails, and each adds its own bytes behind the
  others (`Output.Took`), whatever was held back before. Both ways out of a run
  flush, so `Program.stdout_eq_printed` follows for whole runs.
-/

import ProgramHost.Proofs.ProgramRuns
import ProgramHost.Proofs.StoreHistory

namespace ProgramHost

/-! ## Outputs -/

/-- What printing a string shows: its content up to the first zero byte, and the end
    of the line if asked for. -/
def Block.line (s : Block) (endLine : Bool) : Bytes :=
  s.visible ++ if endLine then [newline] else []

namespace Output

/-- Everything that was put into an output: what has reached the device, and what is
    held back. -/
def written (out : Output) : Bytes := out.delivered ++ out.pending

theorem completeLines_append_openLine (bs : Bytes) : completeLines bs ++ openLine bs = bs := by
  rw [completeLines, openLine, ← List.reverse_append, List.takeWhile_append_dropWhile,
    List.reverse_reverse]

/-- A transfer went well, on a device that takes everything, and added these bytes to
    what was written. -/
structure Took (out : Output) (bs : Bytes) (result : Except Failure Unit × Output) : Prop where
  done : result.1 = .ok ()
  device : result.2.device = .accepting
  written : result.2.written = out.written ++ bs

variable {out : Output} {bs cs : Bytes}

theorem Took.andThen {first next : Output → Except Failure Unit × Output}
    (hfirst : Took out bs (first out)) (hnext : Took (first out).2 cs (next (first out).2)) :
    Took out (bs ++ cs) (andThen first next out) := by
  have hresult : Output.andThen first next out = next (first out).2 := by
    have hpair : first out = (.ok (), (first out).2) := Prod.ext hfirst.done rfl
    rw [Output.andThen, hpair]
  rw [hresult]
  refine ⟨hnext.done, hnext.device, ?_⟩
  rw [hnext.written, hfirst.written, List.append_assoc]

/-- The end of a line is put behind the visible part. -/
theorem print_eq_andThen (s : Block) (endLine : Bool) :
    print s endLine = andThen (put s.visible)
      fun after => if endLine then put [newline] after else (.ok (), after) := by
  funext out
  rw [print, emit, andThen]
  rcases put s.visible out with ⟨_ | _, after⟩ <;> rfl

theorem flush_accepting (h : out.device = .accepting) :
    out.flush = (.ok (), { out with delivered := out.written, pending := [] }) := by
  simp only [flush, andThen, deliver, h, written]

variable (h : out.device = .accepting)
include h

theorem took_nothing : Took out [] (.ok (), out) := ⟨rfl, h, (List.append_nil _).symm⟩

/-- A flush loses, doubles and reorders nothing. -/
theorem took_flush : Took out [] out.flush := by
  rw [flush_accepting h]
  exact ⟨rfl, h, rfl⟩

/-- What goes to the device at once keeps its place if nothing is held back. -/
theorem took_deliver (bs : Bytes) (hnone : out.pending = []) : Took out bs (deliver bs out) := by
  have hdeliver : deliver bs out = (.ok (), { out with delivered := out.delivered ++ bs }) := by
    simp only [deliver, h]
  rw [hdeliver]
  exact ⟨rfl, h, by simp [written, hnone]⟩

theorem took_makeRoom (count : Nat) : Took out [] (makeRoom count out) := by
  rw [makeRoom]
  split
  · exact took_nothing h
  · exact took_flush h

/-- Bytes that would fill an output alone find it empty. -/
theorem pending_makeRoom {count : Nat} (hcount : capacity ≤ count) :
    (makeRoom count out).2.pending = [] := by
  rw [makeRoom]
  split
  · next hroom =>
    have hlength : out.pending.length = 0 := by omega
    exact List.eq_nil_of_length_eq_zero hlength
  · rw [flush_accepting h]

theorem took_add (bs : Bytes) (hnone : capacity ≤ bs.length → out.pending = []) :
    Took out bs (add bs out) := by
  rw [add]
  split
  · next hlarge => exact took_deliver h bs (hnone hlarge)
  · exact ⟨rfl, h, (List.append_assoc ..).symm⟩

theorem took_hold (bs : Bytes) : Took out bs (hold bs out) := by
  have hroom := took_makeRoom h bs.length
  exact hroom.andThen (took_add hroom.device bs (pending_makeRoom h))

theorem took_putLines (bs : Bytes) : Took out bs (putLines bs out) := by
  rw [putLines]
  split
  · next hnone => exact took_deliver h bs hnone
  · have hheld := took_hold h bs
    have hboth := hheld.andThen (took_flush hheld.device)
    rwa [List.append_nil] at hboth

theorem took_flushLine : Took out [] (flushLine out) := by
  rw [flushLine]
  split
  · exact took_flush h
  · exact took_nothing h

theorem took_put (bs : Bytes) : Took out bs (put bs out) := by
  rw [put]
  split
  · have hlines := took_putLines h (completeLines bs)
    have hboth := hlines.andThen (took_hold hlines.device (openLine bs))
    rwa [completeLines_append_openLine] at hboth
  · have hline := took_flushLine h
    exact hline.andThen (took_hold hline.device bs)

theorem took_print (s : Block) (endLine : Bool) :
    Took out (s.line endLine) (print s endLine out) := by
  have hvisible := took_put h s.visible
  have hend : ∀ after : Output, after.device = .accepting →
      Took after (if endLine then [newline] else [])
        (if endLine then put [newline] after else (.ok (), after)) := by
    intro after hafter
    cases endLine with
    | false => exact took_nothing hafter
    | true => exact took_put hafter [newline]
  rw [print_eq_andThen]
  exact hvisible.andThen (hend _ hvisible.device)

end Output

/-! ## The strings of a run, by handle -/

namespace Store

/-- The table of a store, as the list of its strings. -/
structure Lists (st : Store) (strings : List Block) : Prop where
  length : st.handles.length = strings.length
  block?_eq : ∀ h, st.block? h = strings[h]?

variable {st st' : Store} {change : Change} {strings : List Block}

theorem Changes.length_handles (h : st.Changes change st') :
    st'.handles.length =
      st.handles.length + (change.placement? st.handles.length).toList.length := by
  cases h with
  | nothing => rfl
  | made hfits => simp [Change.placement?]
  | adopted block => simp [Change.placement?]
  | shared hposition hcell => simp [Change.placement?]

theorem block?_eq_none {h : Handle} (hlarge : st.handles.length ≤ h) : st.block? h = none := by
  simp [block?, List.getElem?_eq_none hlarge]

/-- A change adds the string that it hands out at the end of the list. -/
theorem Changes.lists (h : st.Changes change st') (hlists : st.Lists strings) :
    st'.Lists (strings ++ (change.placement? st.handles.length).toList.map (·.block)) := by
  have hlength := h.length_handles
  refine ⟨by simp [hlength, hlists.length], fun a => ?_⟩
  by_cases hold : a < strings.length
  · have hblock := hlists.block?_eq a
    rw [List.getElem?_eq_getElem hold] at hblock
    rw [h.block?_eq hblock, List.getElem?_append_left hold, List.getElem?_eq_getElem hold]
  · have hge := Nat.le_of_not_lt hold
    rw [List.getElem?_append_right hge]
    cases hplaced : change.placement? st.handles.length with
    | none =>
      rw [hplaced] at hlength
      have hnone : st'.handles.length ≤ a := by
        rw [hlength, hlists.length]
        exact hge
      simp [block?_eq_none hnone]
    | some placement =>
      obtain ⟨hhandle, hnew⟩ := h.block?_new hplaced
      rw [hhandle, hlists.length] at hnew
      rw [hplaced] at hlength
      rcases Nat.eq_or_lt_of_le hge with rfl | hgt
      · simpa using hnew
      · have hnone : st'.handles.length ≤ a := by
          rw [hlength, hlists.length]
          exact hgt
        have hindex : 1 ≤ a - strings.length := Nat.sub_pos_of_lt hgt
        rw [block?_eq_none hnone, List.getElem?_eq_none (by simpa using hindex)]

end Store

/-! ## What the record of a run shows -/

/-- The string that a recorded step handed out. -/
def Entry.strings (entry : Entry Answer) : List Block :=
  entry.reply.placement?.toList.map (·.block)

namespace Program

/-- What a step prints, among the strings of the run. -/
def Step.text (strings : List Block) : Step → Bytes
  | .print s endLine => strings[s]?.elim [] fun block => block.line endLine
  | _ => []

/-- What the completed steps of a run printed, in order. The strings handed out
    before them are given; each step adds its own. -/
def printed (strings : List Block) : List (Step × Entry Answer) → Bytes
  | [] => []
  | (s, entry) :: rest => s.text strings ++ printed (strings ++ entry.strings) rest

theorem printed_append (strings : List Block) (xs ys : List (Step × Entry Answer)) :
    printed strings (xs ++ ys) =
      printed strings xs ++ printed (strings ++ xs.flatMap (·.2.strings)) ys := by
  induction xs generalizing strings with
  | nil => simp [printed]
  | cons x xs ih => simp [printed, ih]

end Program

/-! ## Steps and points of a run -/

namespace Program.Step

/-- The output after a step, with the strings that the step can print. -/
def outputAfter (s : Step) (st : Store) (out : Output) : Output :=
  match s with
  | .print t endLine => st.printTo t endLine out
  | .request r => r.outputAfter out
  | _ => out

theorem written_outputAfter (s : Step) {st : Store} {strings : List Block} {out : Output}
    (hlists : st.Lists strings) (hdevice : out.device = .accepting) :
    (s.outputAfter st out).device = .accepting ∧
      (s.outputAfter st out).written = out.written ++ s.text strings := by
  have hsame : out.device = .accepting ∧ out.written = out.written ++ [] :=
    ⟨hdevice, (List.append_nil _).symm⟩
  cases s with
  | print t endLine =>
    rw [outputAfter, Store.printTo, text, ← hlists.block?_eq]
    cases st.block? t with
    | none => exact hsame
    | some block =>
      have htook := Output.took_print hdevice block endLine
      exact ⟨htook.device, htook.written⟩
  | request r =>
    cases r with
    | runInitializer status =>
      have htook := Output.took_flush hdevice
      exact ⟨htook.device, htook.written⟩
    | _ => exact hsame
  | _ => exact hsame

end Program.Step

namespace Process

variable {env : Environment} {host after : Host} {s : Program.Step} {answer : Answer}

theorem Completes.output_eq (h : Completes env host s answer after) :
    after.output = s.outputAfter host.store host.output := by
  cases h with
  | request hserve => exact (Host.serve_frame hserve).2.2
  | print t endLine =>
    obtain ⟨log, hprint⟩ := print_frame host t endLine
    rw [hprint]
    rfl
  | getString hnext => exact (Host.nextString_frame hnext).2.1
  | getInt hnext =>
    obtain ⟨-, log, rfl⟩ := Host.nextInteger_frame hnext
    rfl
  | fixBounds b =>
    rw [Process.fixBounds]
    split <;> rfl
  | startLog => rfl

/-- The step lemma: a completed step adds what it prints, and nothing else. -/
theorem Completes.written_eq {strings : List Block} (h : Completes env host s answer after)
    (hlists : host.store.Lists strings) (hdevice : host.output.device = .accepting) :
    after.output.device = .accepting ∧
      after.output.written = host.output.written ++ s.text strings := by
  rw [h.output_eq]
  exact s.written_outputAfter hlists hdevice

/-- A completed step adds the string that it hands out to those of the run. -/
theorem Completes.lists {strings : List Block} (h : Completes env host s answer after)
    (hlists : host.store.Lists strings) (totals : Totals) :
    after.store.Lists (strings ++ Entry.strings ⟨answer, totals⟩) := by
  obtain ⟨change, hchange, hshown⟩ := step_changes (step_eq_ok.mpr h)
  have hnext := hchange.lists hlists
  rwa [← hshown.placed] at hnext

theorem StopsIn.output_eq {stop : Stop} (h : StopsIn host s stop after) :
    after.output = host.output := by
  cases h with
  | request hserve => rfl
  | unbuildable hnext => rfl
  | getString hnext => exact (Host.nextString_frame hnext).2.1
  | getInt hnext =>
    obtain ⟨-, log, rfl⟩ := Host.nextInteger_frame hnext
    rfl

namespace Reached

variable {before : List Program.Step} {p : Process}

/-- The strings of a run are those that its record shows. -/
theorem lists (h : Reached env before p) :
    p.host.store.Lists (p.trace.flatMap Entry.strings) := by
  induction h with
  | start => exact ⟨rfl, fun _ => rfl⟩
  | completed _ hstep ih => simpa using hstep.lists ih _

/-- The run lemma: what was written so far is what the completed steps printed. -/
theorem written_eq (h : Reached env before p) (haccepting : env.stdout = .accepting) :
    p.host.output.device = .accepting ∧
      p.host.output.written = Program.printed [] (before.zip p.trace) := by
  induction h with
  | start => exact ⟨haccepting, rfl⟩
  | @completed before p s answer host hbefore hstep ih =>
    obtain ⟨hdevice, hwritten⟩ := ih
    obtain ⟨hdevice', hwritten'⟩ := hstep.written_eq hbefore.lists hdevice
    have hlength := hbefore.length_trace.symm
    have hstrings : (before.zip p.trace).flatMap (·.2.strings) = p.trace.flatMap Entry.strings := by
      rw [← List.flatMap_map, List.map_snd_zip (by omega)]
    refine ⟨hdevice', ?_⟩
    rw [hwritten', hwritten, List.zip_append hlength, Program.printed_append, hstrings]
    simp [Program.printed]

end Reached

end Process

/-! ## Whole runs -/

namespace Program

variable {program : Program} {env : Environment}

/-- Everything that a program prints reaches standard output. Unless the run asks
    for a string that memory cannot hold, it returns behind its last step with the
    status of the program modulo 256, or ends by a refusal in one of its steps with
    status 1. Either way, if the device takes what it is given, standard output holds
    exactly what the completed steps printed, in order. -/
theorem stdout_eq_printed {outcome : Outcome} (haccepting : env.stdout = .accepting)
    (hrun : program.run env = outcome) :
    outcome.ending = .aborted ∧ program.Exhausts env ∨
    outcome.stdout = printed [] (program.steps.zip outcome.trace) ∧
      (outcome.ending = .returned program.status ∧
          outcome.trace.length = program.steps.length ∧
          outcome.ending.exitStatus = (program.status.toInt % 256).toNat ∨
        ∃ cause, outcome.ending = .fatal cause ∧
          outcome.trace.length < program.steps.length ∧ outcome.ending.exitStatus = 1) := by
  cases ends_iff.mpr hrun with
  | @returned p hall =>
    obtain ⟨hdevice, hwritten⟩ := hall.written_eq haccepting
    refine .inr ⟨?_, .inl ⟨rfl, hall.length_trace, rfl⟩⟩
    rw [Process.stdout_finish, if_neg (by simp), Output.flush_accepting hdevice]
    exact hwritten
  | @fatal before s p cause host hreaches hstop =>
    obtain ⟨rest, hsteps⟩ := hreaches.next
    have hlength := hreaches.reached.length_trace
    obtain ⟨hdevice, hwritten⟩ := hreaches.reached.written_eq haccepting
    refine .inr ⟨?_, .inr ⟨cause, rfl, ?_, rfl⟩⟩
    · -- The step that was refused, and those behind it, are not in the record.
      have hzip : program.steps.zip p.trace = before.zip p.trace := by
        rw [← hsteps, List.append_assoc, ← List.append_nil p.trace, List.zip_append hlength.symm]
        simp
      have hstdout := Process.stdout_finish { p with host } (.fatal cause)
      rw [if_neg (by simp), hstop.output_eq, Output.flush_accepting hdevice] at hstdout
      exact hstdout.trans (hwritten.trans (by rw [← hzip]; rfl))
    · show p.trace.length < program.steps.length
      rw [hlength, ← hsteps]
      simp only [List.length_append, List.length_singleton]
      omega
  | aborted hreaches hstop => exact .inl ⟨rfl, hreaches.exhausts hstop⟩

/-- Prints a string with a zero byte inside, runs another initializer, prints the
    string on a line, reads a string of at most two bytes, and prints that. -/
def printsAroundRead : Program where
  steps := [.request (.construct (.ofBytes [0x61, 0x62, 0, 0x63])), .print 0 false,
    .request (.runInitializer 3), .startLog, .print 0 true, .fixBounds ⟨2⟩, .getString,
    .print 1 true]

/-- Standard input that holds a word of three bytes. -/
def threeBytes : Environment where
  stdin := .ofBytes [0x78, 0x79, 0x7a]

theorem stdout_eq_printed_before_refusal :
    (printsAroundRead.run threeBytes).stdout = [0x61, 0x62, 0x61, 0x62, newline] ∧
      (printsAroundRead.run threeBytes).ending.exitStatus = 1 := by
  have haccepting : threeBytes.stdout = .accepting := rfl
  have hrun : printsAroundRead.run threeBytes = printsAroundRead.run threeBytes := rfl
  obtain ⟨hending, -⟩ | ⟨hstdout, ⟨hending, -⟩ | ⟨cause, -, -, hstatus⟩⟩ :=
    stdout_eq_printed haccepting hrun
  · exact absurd hending (by decide +kernel)
  · exact absurd hending (by decide +kernel)
  · exact ⟨hstdout.trans (by decide +kernel), hstatus⟩

end Program

end ProgramHost
