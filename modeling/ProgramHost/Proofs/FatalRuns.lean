/-
  ProgramHost.Proofs.FatalRuns

  Which runs of a program are fatal, in which step, and with which line.

  What is unread at a point of a run, and which limit holds there, follow from the
  steps before it: `Program.unread` takes a word for every string and a number for
  every integer, and `Program.limitAfter` is that of the first bounds fixed.
  `Process.Reached.delivers` and `Process.Reached.fixed_eq` say that a process is in
  that state at every point it reaches. On a byte string only a string request can
  be refused, and exactly when the next word is too long. A source that fails
  refuses the first request of either kind. `Program.fatal_runs` says both of whole
  runs.
-/

import ProgramHost.Proofs.IntegerOfToken
import ProgramHost.Proofs.ProgramRuns
import ProgramHost.Proofs.Segments

namespace ProgramHost

/-! ## Sources -/

namespace Source

/-- A source delivers a byte string and then ends, in any pieces and with any
    interruptions. -/
def Delivers (src : Source) (bs : Bytes) : Prop := Signals.Alike src.stream (bs.map .byte)

/-- The first thing that a source delivers is a failure. -/
def FailsWith (src : Source) (f : Failure) : Prop := Signals.front src.stream = .failure f

theorem ofBytes_delivers (bs : Bytes) : (ofBytes bs).Delivers bs := by
  intro n
  cases bs with
  | nil => exact (Signals.Alike.append_end [] n).symm
  | cons b bs => simp [stream, ofBytes, Event.signals]

theorem failing_failsWith {f : Failure} (hf : f.isInterruption = false) :
    (failing f).FailsWith f := by
  simp [FailsWith, stream, failing, Event.signals, hf]

theorem FailsWith.front_ne_byte {src : Source} {f : Failure} (h : src.FailsWith f) (b : UInt8) :
    Signals.front src.stream ≠ .byte b := by
  rw [show Signals.front src.stream = .failure f from h]
  simp

end Source

/-! ## Reads -/

namespace Input

variable {input : Input} {bs : Bytes} {f : Failure} {limit : Nat}

/-- A word that does not fit is refused. -/
theorem tokenOrEmpty_tooLong (h : input.source.Delivers bs)
    (hlong : limit < (firstWord bs).length) :
    (input.tokenOrEmpty limit).1 = .error (.tokenTooLong limit) := by
  have htoken := Signals.token_segment_tooLong hlong []
  rw [List.append_nil] at htoken
  rw [tokenOrEmpty_stream, (h.token limit).1, htoken]
  rfl

/-- A word that fits is given and taken from the source. -/
theorem tokenOrEmpty_fits (h : input.source.Delivers bs)
    (hfits : (firstWord bs).length ≤ limit) :
    (input.tokenOrEmpty limit).1 = .ok (firstWord bs) ∧
      (input.tokenOrEmpty limit).2.source.Delivers (behindWord bs) := by
  have hbytes := Signals.token_segment Signals.front_nil hfits
  rw [List.append_nil, Signals.afterSegment_nil] at hbytes
  obtain ⟨htoken, halike⟩ := h.token limit
  rw [hbytes] at htoken halike
  obtain ⟨houtcome, hrest⟩ := input.token_stream limit
  rw [htoken] at houtcome
  -- The rest of the stream is known, since the word was not refused.
  have hfitted : (input.token limit).1 ≠ .error (.tokenTooLong limit) := by
    intro hrefused
    rw [hrefused] at houtcome
    split at houtcome <;> cases houtcome
  rw [tokenOrEmpty_eq, houtcome]
  constructor
  · by_cases hnone : firstWord bs = []
    · rw [if_pos hnone, hnone]
      rfl
    · rw [if_neg hnone]
      rfl
  · show Signals.Alike _ _
    rw [hrest hfitted]
    exact halike

/-- On a byte string an integer is always given, and the number is taken from the
    source. -/
theorem integer_delivers (h : input.source.Delivers bs) :
    (∃ n, orZero input.integer.1 = .ok n) ∧
      input.integer.2.source.Delivers (behindNumber bs) := by
  obtain ⟨outcome, hbytes, houtcome⟩ := Signals.integer_segment bs Signals.front_nil
  rw [List.append_nil, Signals.afterSegment_nil] at hbytes
  obtain ⟨hinteger, halike⟩ := h.integer
  rw [hbytes, input.integer_stream] at hinteger halike
  refine ⟨?_, halike⟩
  rw [show input.integer.1 = outcome from hinteger]
  rcases houtcome with rfl | ⟨negative, digits, rfl⟩
  · exact ⟨0, rfl⟩
  · exact ⟨_, orZero_outcome negative digits⟩

theorem tokenOrEmpty_failsWith (h : input.source.FailsWith f) :
    (input.tokenOrEmpty limit).1 = .error (.device f) := by
  have htoken : Signals.token limit input.source.stream =
      Signals.conclude (.error .unexpectedEnd) input.source.stream :=
    Signals.token_blank (List.forall_mem_nil _) h.front_ne_byte
  rw [tokenOrEmpty_stream, htoken, Signals.conclude_failure h]
  rfl

theorem integer_failsWith (h : input.source.FailsWith f) :
    orZero input.integer.1 = .error (.device f) := by
  have hinteger : Signals.integer input.source.stream =
      Signals.conclude (.error .unexpectedEnd) input.source.stream :=
    Signals.integer_blank (List.forall_mem_nil _) h.front_ne_byte
  rw [input.integer_stream, Signals.conclude_failure h] at hinteger
  rw [(Prod.mk.inj hinteger).1]
  rfl

end Input

/-! ## What the steps before a point say -/

namespace Program

/-- The bounds that a step fixes if none are fixed yet. -/
def Step.bounds? : Step → Option Bounds
  | .fixBounds b => some b
  | _ => none

/-- A step reads from the input. -/
def Step.reads : Step → Bool
  | .getString | .getInt => true
  | _ => false

/-- What a step leaves of the bytes that were unread before it. -/
def Step.leaves (bs : Bytes) : Step → Bytes
  | .getString => behindWord bs
  | .getInt => behindNumber bs
  | _ => bs

theorem Step.leaves_of_not_reads {s : Step} {bs : Bytes} (hs : s.reads = false) :
    s.leaves bs = bs := by
  cases s with
  | getString => cases hs
  | getInt => cases hs
  | _ => rfl

/-- The token limit behind some completed steps: that of the first bounds fixed. -/
def limitAfter (before : List Step) : Nat :=
  ((before.findSome? Step.bounds?).getD Bounds.standard).tokenLimit

/-- What some completed steps leave of the bytes on standard input. -/
def unread (bs : Bytes) (before : List Step) : Bytes := before.foldl Step.leaves bs

/-- The next word of standard input is longer than the limit allows. -/
def NextTooLong (bs : Bytes) (before : List Step) : Prop :=
  limitAfter before < (firstWord (unread bs before)).length

instance (bs : Bytes) (before : List Step) : Decidable (NextTooLong bs before) :=
  inferInstanceAs (Decidable (_ < _))

end Program

namespace Host

variable {host after : Host}

/-- A string request is refused exactly when the read is. -/
theorem nextString_refused_iff {cause : Refusal} :
    (∃ after, host.nextString = some (.error cause, after)) ↔
      (host.input.tokenOrEmpty host.settings.active.tokenLimit).1 = .error cause := by
  rw [nextString]
  cases host.input.tokenOrEmpty host.settings.active.tokenLimit with
  | mk outcome input =>
    cases outcome with
    | ok content => simp
    | error e => simp

/-- A string that is handed out was read. -/
theorem nextString_read {placement : Placement}
    (h : host.nextString = some (.ok placement, after)) :
    ∃ content, (host.input.tokenOrEmpty host.settings.active.tokenLimit).1 = .ok content := by
  obtain ⟨e, he, -⟩ | ⟨content, hread, -⟩ := nextString_changes h
  · cases he
  · exact ⟨content, hread⟩

end Host

/-! ## Steps -/

namespace Process

variable {env : Environment} {host after : Host} {s : Program.Step} {answer : Answer}
  {bs : Bytes} {f : Failure}

theorem Completes.fixed_eq (h : Completes env host s answer after) :
    after.settings.fixed = host.settings.fixed.or s.bounds? := by
  cases h with
  | request hserve => simp [(Host.serve_frame hserve).1, Program.Step.bounds?]
  | print t endLine =>
    obtain ⟨log, hprint⟩ := print_frame host t endLine
    simp [hprint, Program.Step.bounds?]
  | getString hnext => simp [(Host.nextString_frame hnext).1, Program.Step.bounds?]
  | getInt hnext =>
    obtain ⟨-, log, rfl⟩ := Host.nextInteger_frame hnext
    simp [Program.Step.bounds?]
  | fixBounds b =>
    rw [Process.fixBounds, Settings.fix]
    cases hfixed : host.settings.fixed with
    | none => rfl
    | some fixed => simp [hfixed]
  | startLog => simp [Program.Step.bounds?]

theorem Completes.input_eq (h : Completes env host s answer after) (hs : s.reads = false) :
    after.input = host.input := by
  cases h with
  | request hserve => exact (Host.serve_frame hserve).2.1
  | print t endLine =>
    obtain ⟨log, hprint⟩ := print_frame host t endLine
    rw [hprint]
  | getString hnext => cases hs
  | getInt hnext => cases hs
  | fixBounds b =>
    rw [Process.fixBounds]
    split <;> rfl
  | startLog => rfl

/-- A completed step takes its part from the input. -/
theorem Completes.delivers (h : Completes env host s answer after)
    (hsource : host.input.source.Delivers bs) : after.input.source.Delivers (s.leaves bs) := by
  cases hs : s.reads with
  | false =>
    rw [h.input_eq hs, Program.Step.leaves_of_not_reads hs]
    exact hsource
  | true =>
    cases h with
    | getString hnext =>
      rw [(Host.nextString_frame hnext).2.2]
      -- The step completed, so the word was not too long.
      have hfits : (firstWord bs).length ≤ host.settings.active.tokenLimit := by
        apply Nat.le_of_not_lt
        intro hlong
        obtain ⟨content, hread⟩ := Host.nextString_read hnext
        rw [Input.tokenOrEmpty_tooLong hsource hlong] at hread
        cases hread
      exact (Input.tokenOrEmpty_fits hsource hfits).2
    | getInt hnext =>
      obtain ⟨-, log, rfl⟩ := Host.nextInteger_frame hnext
      exact (Input.integer_delivers hsource).2
    | _ => cases hs

/-- A step that reads from a source that fails is refused. -/
theorem stopsIn_of_failsWith (hsource : host.input.source.FailsWith f) (hs : s.reads = true) :
    ∃ after, StopsIn host s (.fatal (.device f)) after := by
  cases s with
  | getString =>
    obtain ⟨after, hnext⟩ := Host.nextString_refused_iff.mpr (Input.tokenOrEmpty_failsWith hsource)
    exact ⟨after, .getString hnext⟩
  | getInt =>
    have hread := Input.integer_failsWith hsource
    exact ⟨_, .getInt (Prod.ext hread rfl)⟩
  | _ => cases hs

theorem StopsIn.reads {cause : Refusal} (h : StopsIn host s (.fatal cause) after) :
    s.reads = true := by
  cases h with
  | getString hnext => rfl
  | getInt hnext => rfl

/-- A step either completes or stops the process. -/
theorem Completes.not_stopsIn {stop : Stop} {other : Host} (h : Completes env host s answer after) :
    ¬StopsIn host s stop other := by
  intro hstop
  have hstep := (step_eq_ok.mpr h).symm.trans (step_eq_error.mpr hstop)
  cases hstep

namespace Reached

variable {before : List Program.Step} {p : Process} {cause : Refusal}

/-! ## Points of a run -/

/-- The bounds are those that were fixed first. -/
theorem fixed_eq (h : Reached env before p) :
    p.host.settings.fixed = before.findSome? Program.Step.bounds? := by
  induction h with
  | start => rfl
  | completed hbefore hstep ih => simp [hstep.fixed_eq, ih, List.findSome?_append]

theorem tokenLimit_eq (h : Reached env before p) :
    p.host.settings.active.tokenLimit = Program.limitAfter before := by
  rw [Settings.active, h.fixed_eq, Program.limitAfter]

/-- What is unread is what the completed steps leave. -/
theorem delivers (h : Reached env before p) (hstdin : env.stdin.Delivers bs) :
    p.host.input.source.Delivers (Program.unread bs before) := by
  induction h with
  | start => exact hstdin
  | completed hbefore hstep ih =>
    have hnext := hstep.delivers ih
    rwa [Program.unread, List.foldl_append]

/-- On a source that fails no step that reads is completed. -/
theorem not_reads (h : Reached env before p) (hstdin : env.stdin.FailsWith f) :
    (∀ s ∈ before, s.reads = false) ∧ p.host.input.source.FailsWith f := by
  induction h with
  | start => exact ⟨by simp, hstdin⟩
  | @completed before p s answer host hbefore hstep ih =>
    obtain ⟨hearlier, hsource⟩ := ih
    have hs : s.reads = false := by
      apply Bool.eq_false_iff.mpr
      intro hreads
      obtain ⟨after, hstop⟩ := stopsIn_of_failsWith hsource hreads
      exact hstep.not_stopsIn hstop
    constructor
    · intro t ht
      rcases List.mem_append.mp ht with hmem | hmem
      · exact hearlier t hmem
      · rwa [List.mem_singleton.mp hmem]
    · rwa [hstep.input_eq hs]

/-- On a byte string a string request is refused when the next word is too long. -/
theorem stopsIn_of_tooLong (h : Reached env before p) (hstdin : env.stdin.Delivers bs)
    (hlong : Program.NextTooLong bs before) :
    ∃ host,
      StopsIn p.host .getString (.fatal (.tokenTooLong (Program.limitAfter before))) host := by
  have hread := Input.tokenOrEmpty_tooLong (h.delivers hstdin) hlong
  rw [← h.tokenLimit_eq] at hread
  obtain ⟨host, hnext⟩ := Host.nextString_refused_iff.mpr hread
  rw [h.tokenLimit_eq] at hnext
  exact ⟨host, .getString hnext⟩

/-- On a byte string an integer request completes. -/
theorem completes_getInt (h : Reached env before p) (hstdin : env.stdin.Delivers bs) :
    ∃ n host, Completes env p.host .getInt (.int n) host := by
  obtain ⟨⟨n, hread⟩, -⟩ := Input.integer_delivers (h.delivers hstdin)
  exact ⟨n, _, .getInt (Prod.ext hread rfl)⟩

/-- On a byte string nothing else is refused. -/
theorem tooLong_of_stopsIn {host : Host} (h : Reached env before p)
    (hstdin : env.stdin.Delivers bs) (hstop : StopsIn p.host s (.fatal cause) host) :
    s = .getString ∧ Program.NextTooLong bs before := by
  cases hstop with
  | getString hnext =>
    refine ⟨rfl, Nat.lt_of_not_le ?_⟩
    intro hfits
    rw [← h.tokenLimit_eq] at hfits
    have hread := Host.nextString_refused_iff.mp ⟨_, hnext⟩
    rw [(Input.tokenOrEmpty_fits (h.delivers hstdin) hfits).1] at hread
    cases hread
  | getInt hnext =>
    obtain ⟨n, other, hcompletes⟩ := h.completes_getInt hstdin
    exact absurd (.getInt hnext) hcompletes.not_stopsIn

end Reached

end Process

/-! ## Whole runs -/

namespace Program

variable {program : Program} {env : Environment} {bs : Bytes} {f : Failure}

/-- When a run on a byte string is fatal, and what is seen of it then. -/
structure FatalByLength (program : Program) (env : Environment) (bs : Bytes) : Prop where
  /-- It is when it reaches a string request whose word is too long. -/
  fatal_iff : (∃ cause, (program.run env).ending = .fatal cause) ↔
    ∃ before p, program.Reaches env before .getString p ∧ NextTooLong bs before
  /-- The line names the limit, and the record has the steps before. -/
  outcome {before : List Step} {p : Process} : program.Reaches env before .getString p →
    NextTooLong bs before →
      (program.run env).ending.fatalLine =
        some s!"mx runtime error: input token exceeds the {limitAfter before}-byte limit" ∧
      (program.run env).trace = p.trace ∧ p.trace.length = before.length
  /-- An integer request that is reached completes. -/
  getInt {before : List Step} {p : Process} : program.Reaches env before .getInt p →
    ∃ q, Process.Reached env (before ++ [.getInt]) q

/-- When a run on a source that fails is fatal, and what is seen of it then. A run
    that asks for a string larger than memory before it reads is aborted instead. -/
structure FatalByFailure (program : Program) (env : Environment) (f : Failure) : Prop where
  /-- It is when the program reads at all. -/
  fatal_iff : (∃ cause, (program.run env).ending = .fatal cause) ↔
    (∃ s ∈ program.steps, s.reads = true) ∧ ¬program.Exhausts env
  /-- The line has the text of the failure, and the record has the steps before the
      first that reads. -/
  outcome {before after : List Step} {s : Step} : program.steps = before ++ s :: after →
    s.reads = true → (∀ t ∈ before, t.reads = false) → ¬program.Exhausts env →
      (program.run env).ending.fatalLine = some ("mx runtime error: I/O error: " ++ f.text) ∧
      ∃ p, Process.Reached env before p ∧ (program.run env).trace = p.trace ∧
        p.trace.length = before.length

theorem fatalLine_tooLong (limit : Nat) :
    (Ending.fatal (.tokenTooLong limit)).fatalLine =
      some s!"mx runtime error: input token exceeds the {limit}-byte limit" := by
  have htext : "mx runtime error: " ++ "input token exceeds the " =
      "mx runtime error: input token exceeds the " := by simp
  calc (Ending.fatal (.tokenTooLong limit)).fatalLine
    _ = some ("mx runtime error: " ++
          ("input token exceeds the " ++ toString limit ++ "-byte limit")) := rfl
    _ = some ("mx runtime error: " ++ "input token exceeds the " ++ toString limit ++
          "-byte limit") := by
      rw [String.append_assoc, String.append_assoc, String.append_assoc]
    _ = some ("mx runtime error: input token exceeds the " ++ toString limit ++
          "-byte limit") := by rw [htext]

theorem fatalLine_device (f : Failure) :
    (Ending.fatal (.device f)).fatalLine = some ("mx runtime error: I/O error: " ++ f.text) := by
  have htext : "mx runtime error: " ++ "I/O error: " = "mx runtime error: I/O error: " := by simp
  calc (Ending.fatal (.device f)).fatalLine
    _ = some ("mx runtime error: " ++ ("I/O error: " ++ f.text)) := rfl
    _ = some ("mx runtime error: " ++ "I/O error: " ++ f.text) := by rw [String.append_assoc]
    _ = some ("mx runtime error: I/O error: " ++ f.text) := by rw [htext]

theorem fatalByLength_of_delivers (hstdin : env.stdin.Delivers bs) :
    program.FatalByLength env bs where
  fatal_iff := by
    constructor
    · rintro ⟨cause, hending⟩
      obtain ⟨before, s, p, host, hreaches, hstop⟩ := ending_fatal_iff.mp hending
      obtain ⟨rfl, hlong⟩ := hreaches.reached.tooLong_of_stopsIn hstdin hstop
      exact ⟨before, p, hreaches, hlong⟩
    · rintro ⟨before, p, hreaches, hlong⟩
      obtain ⟨host, hstop⟩ := hreaches.reached.stopsIn_of_tooLong hstdin hlong
      exact ⟨_, (hreaches.run_refused hstop).1⟩
  outcome := by
    intro before p hreaches hlong
    obtain ⟨host, hstop⟩ := hreaches.reached.stopsIn_of_tooLong hstdin hlong
    obtain ⟨hending, htrace⟩ := hreaches.run_refused hstop
    exact ⟨by rw [hending, fatalLine_tooLong], htrace, hreaches.reached.length_trace⟩
  getInt := by
    intro before p hreaches
    obtain ⟨n, host, hcompletes⟩ := hreaches.reached.completes_getInt hstdin
    exact ⟨_, .completed hreaches.reached hcompletes⟩

theorem fatalByFailure_of_failsWith (hstdin : env.stdin.FailsWith f) :
    program.FatalByFailure env f where
  fatal_iff := by
    constructor
    · rintro ⟨cause, hending⟩
      obtain ⟨before, s, p, host, hreaches, hstop⟩ := ending_fatal_iff.mp hending
      refine ⟨⟨s, hreaches.next.subset (by simp), hstop.reads⟩, ?_⟩
      intro hexhausts
      rw [ending_aborted_iff.mpr hexhausts] at hending
      cases hending
    · rintro ⟨⟨s, hmem, hreads⟩, hexhausts⟩
      obtain ⟨outcome, hends⟩ := exists_ends program env
      rw [hends.run_eq]
      cases hends with
      | returned hall =>
        -- A program that reads cannot have completed.
        have hnone := (hall.not_reads hstdin).1 s hmem
        rw [hreads] at hnone
        cases hnone
      | fatal hreaches hstop => exact ⟨_, rfl⟩
      | aborted hreaches hstop => exact absurd (hreaches.exhausts hstop) hexhausts
  outcome := by
    intro before after s hsteps hreads hbefore hexhausts
    have hstart : Process.Reached env [] (Process.start env) := .start
    rcases hstart.completed_or_stopped before with
      ⟨p, hp⟩ | ⟨earlier, t, later, q, stop, host, rfl, hq, hstop⟩
    · have hreaches : program.Reaches env before s p := .of_steps hsteps hp
      obtain ⟨host, hstop⟩ := Process.stopsIn_of_failsWith (hp.not_reads hstdin).2 hreads
      obtain ⟨hending, htrace⟩ := hreaches.run_refused hstop
      exact ⟨by rw [hending, fatalLine_device], p, hp, htrace, hp.length_trace⟩
    · -- The run cannot have stopped earlier: no step before reads, and none aborts.
      cases stop with
      | fatal cause =>
        have hnone := hbefore t (by simp)
        rw [hstop.reads] at hnone
        cases hnone
      | aborted =>
        rw [List.append_assoc, List.cons_append] at hsteps
        have hreaches : program.Reaches env earlier t q := .of_steps hsteps hq
        exact absurd (hreaches.exhausts hstop) hexhausts

/-- Which runs are fatal: on a byte string those that reach a word that is too long,
    and on a source that fails those that read. -/
theorem fatal_runs (program : Program) (env : Environment) :
    (∀ bs, env.stdin.Delivers bs → program.FatalByLength env bs) ∧
      ∀ f, env.stdin.FailsWith f → program.FatalByFailure env f :=
  ⟨fun _ => fatalByLength_of_delivers, fun _ => fatalByFailure_of_failsWith⟩

/-- An integer, then strings of at most four bytes. -/
def readsMixed : Program where
  steps := [.getInt, .fixBounds ⟨4⟩, .fixBounds ⟨9⟩, .getString, .getString, .getInt]

/-- The line `12 abc defgh`. -/
def threeWords : Bytes :=
  [0x31, 0x32, 0x20, 0x61, 0x62, 0x63, 0x20, 0x64, 0x65, 0x66, 0x67, 0x68, newline]

theorem fatal_runs_readsMixed :
    ((readsMixed.run { stdin := .ofBytes threeWords }).ending.fatalLine =
        some "mx runtime error: input token exceeds the 4-byte limit" ∧
      (readsMixed.run { stdin := .ofBytes threeWords }).trace.length = 4) ∧
    (readsMixed.run { stdin := .failing .directory }).ending.fatalLine =
        some "mx runtime error: I/O error: Is a directory (os error 21)" ∧
      (readsMixed.run { stdin := .failing .directory }).trace = [] := by
  constructor
  · have hbytes := (fatal_runs readsMixed { stdin := .ofBytes threeWords }).1 threeWords
      (Source.ofBytes_delivers threeWords)
    -- Four steps complete, and the word behind them is `defgh`.
    have hreached : ∃ p, Process.Reached { stdin := .ofBytes threeWords }
        [.getInt, .fixBounds ⟨4⟩, .fixBounds ⟨9⟩, .getString] p :=
      ⟨_, .completed (.completed (.completed (.completed .start (Process.step_eq_ok.mp rfl))
        (.fixBounds _)) (.fixBounds _)) (Process.step_eq_ok.mp rfl)⟩
    obtain ⟨p, hp⟩ := hreached
    obtain ⟨hline, htrace, hlength⟩ := hbytes.outcome ⟨by decide, hp⟩ (by decide +kernel)
    exact ⟨hline, by rw [htrace, hlength]; rfl⟩
  · have hfailure := (fatal_runs readsMixed { stdin := .failing .directory }).2 .directory
      (Source.failing_failsWith (by decide))
    have hexhausts : ¬readsMixed.Exhausts { stdin := .failing .directory } := by
      rw [← ending_aborted_iff]
      decide +kernel
    obtain ⟨hline, p, hp, htrace, hlength⟩ :=
      hfailure.outcome rfl rfl (List.forall_mem_nil _) hexhausts
    exact ⟨hline, by rw [htrace]; exact List.length_eq_zero_iff.mp hlength⟩

end Program

end ProgramHost
