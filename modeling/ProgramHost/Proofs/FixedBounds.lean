/-
  ProgramHost.Proofs.FixedBounds

  The bounds of a process are fixed at most once.

  The bounds in force at a point of a run are those of the first step before it that
  fixed any, and the standard ones as long as none did (`Process.Reached.active_eq`).
  From that follows what a step does that fixes bounds, reads them or is bound by
  them: the first one fixes, every later one is refused and changes nothing, and a
  string request takes the next word exactly when these bounds allow it.
  `Program.bounds_fixed_once` says it of whole runs.
-/

import ProgramHost.Proofs.FatalRuns
import ProgramHost.Proofs.TokenOutcome

namespace ProgramHost

/-! ## Reading under a limit -/

namespace Input

variable {input : Input} {limit : Nat} {ws word : Bytes} {rest : List Signal}

/-- A word that fits is given, unless the input fails behind it. Without a word the
    empty content is given. -/
theorem tokenOrEmpty_of_wordCut (hcut : Signals.WordCut input.source.stream ws word rest)
    (hfits : word.length ≤ limit) (hrest : ∀ f, Signals.front rest ≠ .failure f) :
    (input.tokenOrEmpty limit).1 = .ok word := by
  rw [tokenOrEmpty_stream, hcut.token_fits hfits, Signals.conclude_of_not_failure hrest]
  by_cases hnone : word = []
  · rw [if_pos hnone, hnone]
    rfl
  · rw [if_neg hnone]
    rfl

end Input

/-! ## Points of a run -/

namespace Process

variable {env : Environment} {before : List Program.Step} {p : Process}

/-- The bounds in force are the first that were fixed, and the standard ones if none
    were. -/
theorem Reached.active_eq (h : Reached env before p) :
    p.host.settings.active = (before.findSome? Program.Step.bounds?).getD ⟨1048576⟩ := by
  rw [Settings.active, h.fixed_eq]
  rfl

theorem step_fixBounds_first (env : Environment) {host : Host} (b : Bounds)
    (h : host.settings.fixed = none) :
    step env host (.fixBounds b) =
      (.ok .done, { host with settings := ⟨some b⟩ }.tell [.boundsFixed b.tokenLimit]) := by
  simp only [step, fixBounds, Settings.fix, h]

theorem step_fixBounds_later (env : Environment) {host : Host} (b : Bounds)
    (h : host.settings.fixed ≠ none) :
    step env host (.fixBounds b) = (.ok (.refused .alreadyConfigured), host) := by
  obtain ⟨fixed, hfixed⟩ := Option.ne_none_iff_exists'.mp h
  simp only [step, fixBounds, Settings.fix, hfixed]

end Process

namespace Program

/-- Bounds that were fixed once stay the first ones. -/
theorem firstBounds_mono {xs ys : List Step} {b : Bounds} (h : xs <+: ys)
    (hfixed : xs.findSome? Step.bounds? = some b) : ys.findSome? Step.bounds? = some b := by
  obtain ⟨more, rfl⟩ := h
  rw [List.findSome?_append, hfixed]
  rfl

/-! ## Whole runs -/

/-- The bounds of a run are fixed at most once: what is recorded of the steps that fix
    bounds, ask for them or are bound by them, and what they leave. -/
structure FixesOnce (program : Program) (env : Environment) : Prop where
  /-- The first bounds are fixed, whatever they are, and the log is told of it. -/
  first : ∀ before b p, program.Reaches env before (.fixBounds b) p →
    before.findSome? Step.bounds? = none →
      Process.step env p.host (.fixBounds b) =
        (.ok .done, { p.host with settings := ⟨some b⟩ }.tell [.boundsFixed b.tokenLimit]) ∧
      (program.run env).trace[before.length]? = some ⟨.done, p.host.store.totals⟩
  /-- All later ones are refused, and the host stays as it is. -/
  later : ∀ before b p, program.Reaches env before (.fixBounds b) p →
    before.findSome? Step.bounds? ≠ none →
      Process.step env p.host (.fixBounds b) = (.ok (.refused .alreadyConfigured), p.host) ∧
      (program.run env).trace[before.length]? =
        some ⟨.refused .alreadyConfigured, p.host.store.totals⟩
  /-- At every point the bounds in force are the first that were fixed, or the standard
      ones. -/
  active : ∀ before p, before <+: program.steps → Process.Reached env before p →
    p.host.settings.active = (before.findSome? Step.bounds?).getD ⟨1048576⟩
  /-- A step that asks for the bounds is told these. -/
  told : ∀ before p, program.Reaches env before (.request (.query .activeBounds)) p →
    (program.run env).trace[before.length]? =
      some ⟨.bounds ((before.findSome? Step.bounds?).getD ⟨1048576⟩), p.host.store.totals⟩
  /-- A string request refuses a word that is longer than they allow. -/
  refuses : ∀ before p ws word rest, program.Reaches env before .getString p →
    Signals.WordCut p.host.input.source.stream ws word rest →
    limitAfter before < word.length →
      (program.run env).ending = .fatal (.tokenTooLong (limitAfter before)) ∧
      (program.run env).trace = p.trace
  /-- It accepts every other word, unless the input fails behind it or memory cannot
      hold it. -/
  accepts : ∀ before p ws word rest, program.Reaches env before .getString p →
    Signals.WordCut p.host.input.source.stream ws word rest →
    word.length ≤ limitAfter before → (∀ f, Signals.front rest ≠ .failure f) →
    word.length + 9 ≤ Layout.largest →
      (program.run env).trace[before.length]? =
        some ⟨.string ⟨p.host.store.handles.length, Block.ofContent word⟩,
          p.host.store.totals.count (word.length + 9)⟩
  /-- So what is accepted changes at most once: of three points in a row, two next to
      each other are under the same bounds. -/
  changes : ∀ xs ys zs p q r, xs <+: ys → ys <+: zs → Process.Reached env xs p →
    Process.Reached env ys q → Process.Reached env zs r →
      p.host.settings.active = q.host.settings.active ∨
        q.host.settings.active = r.host.settings.active

variable {program : Program} {env : Environment} {before : List Step} {p : Process}

theorem Reaches.refuses_word {ws word : Bytes} {rest : List Signal}
    (h : program.Reaches env before .getString p)
    (hcut : Signals.WordCut p.host.input.source.stream ws word rest)
    (hlong : limitAfter before < word.length) :
    (program.run env).ending = .fatal (.tokenTooLong (limitAfter before)) ∧
      (program.run env).trace = p.trace := by
  rw [← h.reached.tokenLimit_eq] at hlong
  have hread : (p.host.input.tokenOrEmpty p.host.settings.active.tokenLimit).1 =
      .error (.tokenTooLong p.host.settings.active.tokenLimit) := by
    rw [Input.tokenOrEmpty_stream, hcut.token_tooLong hlong]
    rfl
  obtain ⟨host, hnext⟩ := Host.nextString_refused_iff.mpr hread
  rw [h.reached.tokenLimit_eq] at hnext
  exact h.run_refused (.getString hnext)

theorem Reaches.accepts_word {ws word : Bytes} {rest : List Signal}
    (h : program.Reaches env before .getString p)
    (hcut : Signals.WordCut p.host.input.source.stream ws word rest)
    (hfits : word.length ≤ limitAfter before) (hrest : ∀ f, Signals.front rest ≠ .failure f)
    (hmemory : word.length + 9 ≤ Layout.largest) :
    (program.run env).trace[before.length]? =
      some ⟨.string ⟨p.host.store.handles.length, Block.ofContent word⟩,
        p.host.store.totals.count (word.length + 9)⟩ := by
  rw [← h.reached.tokenLimit_eq] at hfits
  have hread := Input.tokenOrEmpty_of_wordCut hcut hfits hrest
  obtain ⟨host, hnext, htotals⟩ := Host.nextString_of_read hread hmemory
  rw [← htotals]
  exact h.recorded (.getString hnext)

/-- Fixed bounds do not change. -/
theorem active_changes_once {xs ys zs : List Step} {q r : Process} (hxy : xs <+: ys)
    (hyz : ys <+: zs) (hp : Process.Reached env xs p) (hq : Process.Reached env ys q)
    (hr : Process.Reached env zs r) :
    p.host.settings.active = q.host.settings.active ∨
      q.host.settings.active = r.host.settings.active := by
  rw [hp.active_eq, hq.active_eq, hr.active_eq]
  cases hfixed : ys.findSome? Step.bounds? with
  | some b =>
    right
    rw [firstBounds_mono hyz hfixed]
  | none =>
    -- Nothing was fixed before the middle point, so nothing was before the first.
    left
    cases hearlier : xs.findSome? Step.bounds? with
    | none => rfl
    | some b =>
      rw [firstBounds_mono hxy hearlier] at hfixed
      cases hfixed

/-- The bounds of every run are fixed at most once, and hold from then on. -/
theorem bounds_fixed_once (program : Program) (env : Environment) : program.FixesOnce env where
  first := by
    intro before b p h hnone
    rw [← h.reached.fixed_eq] at hnone
    have hstep := Process.step_fixBounds_first env b hnone
    have hrecorded := h.recorded (Process.step_eq_ok.mp hstep)
    exact ⟨hstep, hrecorded⟩
  later := by
    intro before b p h hsome
    rw [← h.reached.fixed_eq] at hsome
    have hstep := Process.step_fixBounds_later env b hsome
    have hrecorded := h.recorded (Process.step_eq_ok.mp hstep)
    exact ⟨hstep, hrecorded⟩
  active := by
    intro before p _ h
    exact h.active_eq
  told := by
    intro before p h
    rw [← h.reached.active_eq]
    exact h.recorded (.request rfl)
  refuses := by
    intro before p ws word rest h
    exact h.refuses_word
  accepts := by
    intro before p ws word rest h
    exact h.accepts_word
  changes := by
    intro xs ys zs p q r
    exact active_changes_once

/-- Fixes bounds twice, asks for them, and reads two strings. -/
def fixesTwice : Program where
  steps := [.fixBounds ⟨3⟩, .fixBounds ⟨9⟩, .request (.query .activeBounds), .getString, .getString]

/-- The words `abc` and `defg`, the first of them in two pieces. -/
def wordsInPieces : Environment where
  stdin.events := [.data [0x61, 0x62], .failure (.ofKind .interrupted),
    .data [0x63, 0x20, 0x64, 0x65, 0x66, 0x67]]

theorem bounds_fixed_once_fixesTwice :
    (fixesTwice.run wordsInPieces).trace[0]? = some ⟨.done, {}⟩ ∧
      (fixesTwice.run wordsInPieces).trace[1]? = some ⟨.refused .alreadyConfigured, {}⟩ ∧
      (fixesTwice.run wordsInPieces).trace[2]? = some ⟨.bounds ⟨3⟩, {}⟩ ∧
      (fixesTwice.run wordsInPieces).trace[3]? =
        some ⟨.string ⟨0, .ofContent [0x61, 0x62, 0x63]⟩, ⟨1, 12⟩⟩ ∧
      (fixesTwice.run wordsInPieces).ending = .fatal (.tokenTooLong 3) := by
  have hfixes := bounds_fixed_once fixesTwice wordsInPieces
  have h0 : Process.Reached wordsInPieces [] _ := .start
  have h1 : Process.Reached wordsInPieces [.fixBounds ⟨3⟩] _ := .completed h0 (.fixBounds _)
  have h2 : Process.Reached wordsInPieces [.fixBounds ⟨3⟩, .fixBounds ⟨9⟩] _ :=
    .completed h1 (.fixBounds _)
  have h3 : Process.Reached wordsInPieces [.fixBounds ⟨3⟩, .fixBounds ⟨9⟩,
      .request (.query .activeBounds)] _ := .completed h2 (.request rfl)
  have h4 : Process.Reached wordsInPieces [.fixBounds ⟨3⟩, .fixBounds ⟨9⟩,
      .request (.query .activeBounds), .getString] _ := .completed h3 (Process.step_eq_ok.mp rfl)
  -- The first word is as long as the bounds allow, the second one byte longer.
  have hshort : Signals.WordCut ([0x61, 0x62, 0x63, 0x20, 0x64, 0x65, 0x66, 0x67].map .byte) []
      [0x61, 0x62, 0x63] ([0x20, 0x64, 0x65, 0x66, 0x67].map .byte) :=
    ⟨rfl, by decide +kernel, by rintro b ⟨⟩; rfl, by decide +kernel, by rintro b ⟨⟩; rfl⟩
  have hlong : Signals.WordCut ([0x20, 0x64, 0x65, 0x66, 0x67].map .byte) [0x20]
      [0x64, 0x65, 0x66, 0x67] [] :=
    ⟨rfl, by decide +kernel, by rintro b ⟨⟩; rfl, by decide +kernel, by rintro b ⟨⟩⟩
  exact ⟨(hfixes.first _ ⟨3⟩ _ ⟨by decide, h0⟩ rfl).2,
    (hfixes.later _ ⟨9⟩ _ ⟨by decide, h1⟩ (by decide)).2, hfixes.told _ _ ⟨by decide, h2⟩,
    hfixes.accepts _ _ _ _ _ ⟨by decide, h3⟩ hshort (by decide) (by simp) (by decide),
    (hfixes.refuses _ _ _ _ _ ⟨by decide, h4⟩ hlong (by decide)).1⟩

end Program

end ProgramHost
