/-
  ProgramHost.Host

  The host of a running program: its strings, its bounds, its input, its output
  and its log.

  The host serves requests, reads strings and integers for programs, and prints.
  `runInitializer` runs an initializer once and flushes the output when it
  returns. A request that needs more memory than there can be aborts the process:
  the result is then `none`. Users of a host record their steps as entries.

  Output that fails to get through is told to the log and otherwise forgotten.
-/

import ProgramHost.Input.Basic
import ProgramHost.Output
import ProgramHost.Request

namespace ProgramHost

/-- The state of a host. -/
structure Host where
  store : Store := {}
  settings : Settings := {}
  /-- The input, with the buffer in which string requests stage their tokens. -/
  input : Input := {}
  output : Output := {}
  log : Log := {}
  deriving DecidableEq, Repr

/-- A step of a run as it is recorded: what it gave, and the totals of the host
    after it. -/
structure Entry (α : Type) where
  reply : α
  totals : Totals
  deriving DecidableEq, Repr

/-! ## Running an initializer -/

/-- Runs an initializer once and flushes the output when it returns. An
    initializer that stops the process does not return. -/
def runInitializer {σ ε : Type} (tell : List Log.Event → σ → σ) (flush : σ → σ)
    (initializer : σ → Except ε Int32 × σ) (state : σ) : Except ε Int32 × σ :=
  match initializer (tell [.programEntered] state) with
  | (.ok status, after) => (.ok status, tell [.programReturned status] (flush after))
  | (.error e, after) => (.error e, after)

namespace Host

/-- Tells the log of some events. -/
def tell (host : Host) (events : List Log.Event) : Host :=
  { host with log := host.log.record events }

@[simp] theorem tell_nil (host : Host) : host.tell [] = host := by
  simp [tell]

/-- Flushes the output. A failure to do so is told and dropped. -/
def flush (host : Host) : Host :=
  match host.output.flush with
  | (.ok (), output) => { host with output }
  | (.error f, output) => { host with output }.tell [.flushFailed f]

/-- A flush leaves everything but the output and the log alone. -/
theorem flush_eq (host : Host) :
    ∃ log, host.flush = { host with output := host.output.flush.2, log } := by
  rw [flush]
  split
  · next h => exact ⟨host.log, by rw [h]⟩
  · next h => exact ⟨_, by rw [h]; rfl⟩

/-- Runs an initializer that counts its calls and returns a status. -/
def runInner (host : Host) (status : Int32) : Answer × Host :=
  let initializer : Nat × Host → Except Empty Int32 × (Nat × Host) :=
    fun (calls, host) => (.ok status, (calls + 1, host))
  match runInitializer (fun events (calls, host) => (calls, host.tell events))
    (fun (calls, host) => (calls, host.flush)) initializer (0, host) with
  | (.ok returned, (calls, host)) => (.ran calls returned, host)

theorem runInner_eq (host : Host) (status : Int32) :
    ∃ log, host.runInner status =
      (.ran 1 status, { host with output := host.output.flush.2, log }) := by
  obtain ⟨log, hflush⟩ := (host.tell [.programEntered]).flush_eq
  refine ⟨log.record [.programReturned status], ?_⟩
  show (Answer.ran 1 status, ((host.tell [.programEntered]).flush.tell _)) = _
  rw [hflush]
  rfl

/-- Serves a request; `none` when the process aborts. -/
def serve (host : Host) : Request → Option (Answer × Host)
  | .query q => some (q.answer host.store host.settings, host)
  | .construct c => (c.run host.store).map fun (answer, store) =>
    (answer, { host with store }.tell (c.events answer))
  | .runInitializer status => some (host.runInner status)

/-! ## The console -/

/-- Reads the next token into a new string; the end of input gives the empty
    string. `none` when the process aborts. -/
def nextString (host : Host) : Option (Except Refusal Placement × Host) :=
  match host.input.tokenOrEmpty host.settings.active.tokenLimit with
  | (.ok content, input) =>
    (host.store.build (.ofBytes content)).map fun (placement, store) =>
      -- No token is empty, so nothing but the end of input gives the empty content.
      let ended : List Log.Event := if content = [] then [.inputEnded] else []
      (.ok placement, { host with store, input }.tell
        (ended ++ Construction.events (.ofBytes content) (.string placement)))
  | (.error e, input) => some (.error e, { host with input })

/-- Reads the next integer; the end of input and anything else give zero. -/
def nextInteger (host : Host) : Except Refusal Int64 × Host :=
  let (found, input) := host.input.integer
  let fallback : List Log.Event :=
    match found, Input.orZero found with
    | .error cause, .ok _ => [.zeroGiven cause]
    | _, _ => []
  (Input.orZero found, { host with input }.tell fallback)

/-- Prints a string. A failure to do so is told and dropped. -/
def print (host : Host) (s : Block) (endLine : Bool) : Host :=
  match Output.print s endLine host.output with
  | (.ok (), output) => { host with output }
  | (.error f, output) => { host with output }.tell [.writeFailed f]

/-- Printing leaves everything but the output and the log alone. -/
theorem print_eq (host : Host) (s : Block) (endLine : Bool) :
    ∃ log, host.print s endLine =
      { host with output := (Output.print s endLine host.output).2, log } := by
  rw [print]
  split
  · next h => exact ⟨host.log, by rw [h]⟩
  · next h => exact ⟨_, by rw [h]; rfl⟩

end Host

end ProgramHost
