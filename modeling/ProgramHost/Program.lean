/-
  ProgramHost.Program

  A process: a compiled program, run once by its host between standard input and
  standard output.

  The program is the body of an initializer: steps, then a status. The host runs
  the initializer, flushes the output when it returns, and leaves with the
  status modulo 256. A string or integer request that the input refuses is
  fatal: the step does not complete, the output is flushed, one line says why,
  and the process leaves with status 1. Whether output gets through, and what is
  logged, is seen of a process but has no part in how it goes on.
-/

import ProgramHost.Host

namespace ProgramHost

/-- What a process is started with. -/
structure Environment where
  stdin : Source := {}
  stdout : Device := .accepting
  /-- The wording of the filter for the log, if a log is wanted. -/
  logFilter : Option String := none
  /-- How the logger reads a wording. One that makes nothing of it lets errors
      through. -/
  readFilter : String → Log.Filter := fun _ => .atLeast .error

namespace Environment

/-- The filter for the log, as the logger reads it. -/
def filter? (env : Environment) : Option Log.Filter := env.logFilter.map env.readFilter

/-- The host at the start of a process. Its log is started before anything else. -/
def host (env : Environment) : Host where
  input := { source := env.stdin }
  output := { device := env.stdout }
  log := Log.start {} env.filter?

end Environment

/-- Why a process stops inside a step. -/
inductive Stop where
  /-- A request was refused for good. -/
  | fatal (cause : Refusal)
  /-- Memory cannot hold a string. -/
  | aborted
  deriving DecidableEq, Repr

namespace Program

/-- What a program can do. -/
inductive Step where
  | request (r : Request)
  | print (s : Handle) (endLine : Bool)
  | getString
  | getInt
  /-- Fixes the bounds of the host. -/
  | fixBounds (b : Bounds)
  /-- Starts logging if the environment asks for it. -/
  | startLog
  deriving DecidableEq, Repr

end Program

/-- A program: what its initializer does, and the status it returns. -/
structure Program where
  steps : List Program.Step
  status : Int32 := 0
  deriving DecidableEq, Repr

/-- A running program: its host, and the record of the completed steps. -/
structure Process where
  host : Host
  trace : List (Entry Answer) := []
  deriving DecidableEq, Repr

namespace Process

/-- Fixes the bounds of the host, once. -/
def fixBounds (host : Host) (b : Bounds) : Answer × Host :=
  match host.settings.fix b with
  | .ok settings => (.done, { host with settings }.tell [.boundsFixed b.tokenLimit])
  | .error e => (.refused e, host)

/-- Prints the string of a handle. -/
def print (host : Host) (s : Handle) (endLine : Bool) : Answer × Host :=
  match host.store.block? s with
  | some block => (.done, host.print block endLine)
  | none => (.unknownHandle, host)

/-- Takes one step on the host. -/
def step (env : Environment) (host : Host) : Program.Step → Except Stop Answer × Host
  | .request r =>
    match host.serve r with
    | some (answer, host) => (.ok answer, host)
    | none => (.error .aborted, host)
  | .print s endLine =>
    let (answer, host) := print host s endLine
    (.ok answer, host)
  | .getString =>
    match host.nextString with
    | some (.ok placement, host) => (.ok (.string placement), host)
    | some (.error e, host) => (.error (.fatal e), host)
    | none => (.error .aborted, host)
  | .getInt =>
    match host.nextInteger with
    | (.ok n, host) => (.ok (.int n), host)
    | (.error e, host) => (.error (.fatal e), host)
  | .fixBounds b =>
    let (answer, host) := fixBounds host b
    (.ok answer, host)
  | .startLog => (.ok .done, { host with log := host.log.start env.filter? })

/-- Takes steps one after another until one stops the process. -/
def runSteps (env : Environment) : List Program.Step → Process → Except Stop Unit × Process
  | [], p => (.ok (), p)
  | s :: rest, p =>
    match step env p.host s with
    | (.ok answer, host) =>
      runSteps env rest { host, trace := p.trace ++ [⟨answer, host.store.totals⟩] }
    | (.error stop, host) => (.error stop, { p with host })

/-- The initializer of a program. -/
def initializer (env : Environment) (program : Program) (p : Process) :
    Except Stop Int32 × Process :=
  match runSteps env program.steps p with
  | (.ok (), p) => (.ok program.status, p)
  | (.error stop, p) => (.error stop, p)

/-- Tells the log of the host of some events. -/
def tell (events : List Log.Event) (p : Process) : Process := { p with host := p.host.tell events }

/-- Flushes the output of the host. -/
def flush (p : Process) : Process := { p with host := p.host.flush }

end Process

/-! ## Whole runs -/

/-- How a process ends. -/
inductive Ending where
  /-- The initializer returned. -/
  | returned (status : Int32)
  | fatal (cause : Refusal)
  | aborted
  deriving DecidableEq, Repr

namespace Ending

/-- The exit status: that of the initializer modulo 256, 1 after a fatal error,
    and after an abort what shells report for it. -/
def exitStatus : Ending → Nat
  | .returned status => (status.toInt % 256).toNat
  | .fatal _ => 1
  | .aborted => 134

/-- The line that a fatal error leaves on standard error. -/
def fatalLine : Ending → Option String
  | .fatal cause => some ("mx runtime error: " ++ cause.message)
  | _ => none

end Ending

/-- What is seen of a process after its end. -/
structure Outcome where
  ending : Ending
  /-- The completed steps. -/
  trace : List (Entry Answer)
  /-- What reached standard output. -/
  stdout : Bytes
  /-- The events that were logged. -/
  log : List Log.Event
  deriving DecidableEq, Repr

/-- The outcome of a process that ends in a given state. -/
def Process.leave (p : Process) (ending : Ending) : Outcome :=
  ⟨ending, p.trace, p.host.output.delivered, p.host.log.lines⟩

/-- Runs a program from start to end. Output that is held back when a process
    aborts is lost. -/
def Program.run (program : Program) (env : Environment) : Outcome :=
  match runInitializer Process.tell Process.flush (Process.initializer env program)
    { host := env.host } with
  | (.ok status, p) => p.leave (.returned status)
  | (.error (.fatal e), p) => (p.tell [.fatalRefusal e]).flush.leave (.fatal e)
  | (.error .aborted, p) => p.leave .aborted

end ProgramHost
