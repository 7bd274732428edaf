/-
  ProgramHost.Session

  A host under the hand of a caller that makes one request after another.

  Beside the requests that every user of a host can make, a session takes tokens
  and integers from the input directly, with a staging buffer of its own, reads
  the input the way programs do, and writes strings to sinks. A refused request
  does not end the session; only an abort does.
-/

import ProgramHost.Host

namespace ProgramHost

/-- A host and the caller's own staging buffer. -/
structure Session where
  host : Host := {}
  staging : Bytes := []
  deriving DecidableEq, Repr

namespace Session

/-- What a caller can do. -/
inductive Step where
  | request (r : Request)
  /-- Takes a token into the caller's staging buffer. -/
  | takeToken (limit : Nat)
  | takeInteger
  /-- Reads a string the way programs do. -/
  | nextString
  /-- Reads an integer the way programs do. -/
  | nextInteger
  /-- Reads the input up to its next end. -/
  | drain
  /-- Writes a string to a new sink. -/
  | write (s : Handle) (endLine : Bool) (script : List Quota)
  deriving DecidableEq, Repr

/-- What a step gives. After a step that reads, the state of the source is part
    of it. -/
inductive Reply where
  | answer (a : Answer)
  | token (outcome : Except Refusal Unit) (staging : Bytes) (source : Source)
  | integer (outcome : Except Refusal Int64) (source : Source)
  | string (outcome : Except Refusal Placement) (source : Source)
  | drained (outcome : Except Failure Unit) (bytes : Bytes) (source : Source)
  | written (outcome : Except Failure Unit) (accepted : Bytes) (unused : Nat)

/-- The session after its input has moved on. -/
def withSource (session : Session) (source : Source) : Session :=
  { session with host.input.source := source }

/-- Takes a token into the caller's staging buffer. -/
def takeToken (session : Session) (limit : Nat) : Reply × Session :=
  let input : Input := ⟨session.host.input.source, session.staging⟩
  let (outcome, after) := input.token limit
  (.token outcome after.staging after.source,
    { session.withSource after.source with staging := after.staging })

/-- Takes an integer. -/
def takeInteger (session : Session) : Reply × Session :=
  let (outcome, after) := session.host.input.integer
  (.integer outcome after.source, session.withSource after.source)

/-- Reads a string the way programs do; `none` when the process aborts. -/
def nextString (session : Session) : Option (Reply × Session) :=
  session.host.nextString.map fun (outcome, host) =>
    (.string outcome host.input.source, { session with host })

/-- Reads an integer the way programs do. -/
def nextInteger (session : Session) : Reply × Session :=
  let (outcome, host) := session.host.nextInteger
  (.integer outcome host.input.source, { session with host })

/-- Reads the input up to its next end. -/
def drain (session : Session) : Reply × Session :=
  let ((outcome, bytes), after) := session.host.input.drain
  (.drained outcome bytes after.source, session.withSource after.source)

/-- Writes a string to a new sink with the given script. -/
def write (session : Session) (s : Handle) (endLine : Bool) (script : List Quota) : Reply :=
  match session.host.store.block? s with
  | none => .answer .unknownHandle
  | some block =>
    let (outcome, sink) := emit Sink.writeAll block endLine { script }
    .written outcome sink.accepted sink.script.length

/-- Takes one step; `none` when the process aborts. -/
def step (session : Session) : Step → Option (Reply × Session)
  | .request r =>
    (session.host.serve r).map fun (answer, host) => (.answer answer, { session with host })
  | .takeToken limit => some (session.takeToken limit)
  | .takeInteger => some session.takeInteger
  | .nextString => session.nextString
  | .nextInteger => some session.nextInteger
  | .drain => some session.drain
  | .write s endLine script => some (session.write s endLine script, session)

/-- Takes steps one after another: the record of the steps taken, and the session
    after them, or `none` when the process aborted in one. -/
def run (session : Session) : List Step → List (Entry Reply) × Option Session
  | [] => ([], some session)
  | s :: rest =>
    match session.step s with
    | none => ([], none)
    | some (reply, after) =>
      let (entries, last) := after.run rest
      (⟨reply, after.host.store.totals⟩ :: entries, last)

end Session

end ProgramHost
