/-
  ProgramHost.Request

  The requests that every user of a host can make, and their effect on the
  strings of the host.

  A `Query` only looks. A `Construction` may add a string; one that would need
  more memory than there can be aborts the process, which is the result `none`.
-/

import ProgramHost.Log
import ProgramHost.Settings
import ProgramHost.Store
import ProgramHost.Text.Display

namespace ProgramHost

/-! ## What can be asked -/

/-- Requests that only look. -/
inductive Query where
  /-- The stored length. -/
  | length (s : Handle)
  | isEmpty (s : Handle)
  /-- The content. -/
  | content (s : Handle)
  /-- The content and the terminator. -/
  | terminated (s : Handle)
  /-- The raw bytes of the block. -/
  | memory (s : Handle)
  /-- The byte at an index, checked. -/
  | byteAt (s : Handle) (index : Int64)
  /-- The byte at an index that the caller vouches for. -/
  | byteAtUnchecked (s : Handle) (index : Int64)
  | compare (s t : Handle)
  /-- The integer that the content starts with. -/
  | toInt (s : Handle)
  | display (s : Handle)
  | debug (s : Handle)
  /-- The contents of all handles. -/
  | contents
  /-- Whether two handles are the same string. -/
  | same (s t : Handle)
  /-- The length of an array that lies in memory as these words. -/
  | arrayLength (words : List Int64)
  /-- Whether a byte is whitespace. -/
  | isWhitespace (b : UInt8)
  /-- The bounds in force. -/
  | activeBounds
  /-- The bounds that a chain of changes to the standard ones gives. -/
  | builtBounds (limits : List Nat)
  deriving DecidableEq, Repr

/-- Requests that may add a string. -/
inductive Construction where
  | ofBytes (bytes : Bytes)
  | ofInt (n : Int64)
  /-- A range, both ends included, checked. -/
  | range (s : Handle) (left right : Int64)
  /-- A range that the caller vouches for. -/
  | rangeUnchecked (s : Handle) (left right : Int64)
  | append (s t : Handle)
  /-- Another handle for a pointer to a string; `none` is the null pointer. -/
  | wrap (pointer : Option Handle)
  /-- A handle for a block that was laid out elsewhere. -/
  | adopt (block : Block)
  deriving DecidableEq, Repr

/-- Requests that every user of a host can make. -/
inductive Request where
  | query (q : Query)
  | construct (c : Construction)
  /-- Runs an initializer that returns this status. -/
  | runInitializer (status : Int32)
  deriving DecidableEq, Repr

/-! ## What is answered -/

/-- What a request gives. -/
inductive Answer where
  | done
  | int (n : Int64)
  | bool (b : Bool)
  | bytes (bytes : Bytes)
  /-- The raw bytes of a block. -/
  | memory (bytes : Bytes)
  | contents (all : List Bytes)
  /-- The bounds in force. -/
  | bounds (b : Bounds)
  /-- The bounds that a chain of changes gave. -/
  | builtBounds (b : Bounds)
  /-- A string was added. -/
  | string (placement : Placement)
  /-- The null pointer is no string. -/
  | null
  /-- An initializer ran this many times and returned a status. -/
  | ran (calls : Nat) (status : Int32)
  | refused (cause : Refusal)
  /-- The request names a handle that is not in the table. -/
  | unknownHandle
  /-- The caller vouched for an index or a range outside the string. -/
  | brokenContract
  deriving DecidableEq, Repr

/-- The answer of a request that may be refused. -/
def Answer.ofExcept {α : Type} (answer : α → Answer) : Except Refusal α → Answer
  | .ok a => answer a
  | .error e => .refused e

/-! ## Queries -/

namespace Query

/-- An answer about the string of a handle. -/
def about (st : Store) (h : Handle) (answer : Block → Answer) : Answer :=
  match st.block? h with
  | some block => answer block
  | none => .unknownHandle

/-- The answer to a query. -/
def answer (st : Store) (settings : Settings) : Query → Answer
  | .length s => about st s fun b => .int b.length
  | .isEmpty s => about st s fun b => .bool b.isEmpty
  | .content s => about st s fun b => .bytes b.content
  | .terminated s => about st s fun b => .bytes b.terminated
  | .memory s => about st s fun b => .memory b.memory
  | .byteAt s index => about st s fun b => .ofExcept .int (b.byteAt index)
  | .byteAtUnchecked s index => about st s fun b =>
    if b.HasIndex index then .int (b.byteAtUnchecked index) else .brokenContract
  | .compare s t => about st s fun b => about st t fun c => .int (b.compare c)
  | .toInt s => about st s fun b => .int b.toInt
  | .display s => about st s fun b => .bytes b.display
  | .debug s => about st s fun b => .bytes b.debug
  | .contents => .contents st.contents
  | .same s t =>
    match st.same? s t with
    | some b => .bool b
    | none => .unknownHandle
  | .arrayLength words => .int (ProgramHost.arrayLength words)
  | .isWhitespace b => .bool (ProgramHost.isWhitespace b)
  | .activeBounds => .bounds settings.active
  | .builtBounds limits => .builtBounds (.build limits)

end Query

/-! ## Constructions -/

namespace Construction

/-- Makes the string of a draft. -/
def make (st : Store) (d : Draft) : Option (Answer × Store) :=
  (st.build d).map fun (placement, st) => (.string placement, st)

/-- Makes a string from the string of a handle. -/
def makeFrom (st : Store) (h : Handle) (next : Block → Option (Answer × Store)) :
    Option (Answer × Store) :=
  match st.block? h with
  | some block => next block
  | none => some (.unknownHandle, st)

/-- The effect of a construction; `none` when the process aborts. -/
def run (st : Store) : Construction → Option (Answer × Store)
  | .ofBytes bytes => make st (.ofBytes bytes)
  | .ofInt n => make st (.ofInt n)
  | .range s left right => makeFrom st s fun b =>
    match b.checkRange left right with
    | .ok () => make st (.ofRange b left right)
    | .error e => some (.refused e, st)
  | .rangeUnchecked s left right => makeFrom st s fun b =>
    if b.HasRange left right then make st (.ofRange b left right)
    else some (.brokenContract, st)
  | .append s t => makeFrom st s fun b => makeFrom st t fun c => make st (.ofAppend b c)
  | .wrap none => some (.null, st)
  | .wrap (some h) =>
    match st.share? h with
    | some (placement, st) => some (.string placement, st)
    | none => some (.unknownHandle, st)
  | .adopt block =>
    let (placement, st) := st.adopt block
    some (.string placement, st)

/-- What a construction tells when it has given its answer. -/
def events : Construction → Answer → List Log.Event
  | .ofBytes _, .string p | .ofInt _, .string p =>
    [.stringMade p.block.size.toNat p.block.memory.length, .bytesCopied p.block.size.toNat]
  | .range .., .string p | .rangeUnchecked .., .string p | .append .., .string p =>
    [.stringMade p.block.size.toNat p.block.memory.length]
  | _, _ => []

@[simp] theorem events_refused (c : Construction) (e : Refusal) : c.events (.refused e) = [] := by
  cases c <;> rfl

theorem events_rangeUnchecked (s : Handle) (left right : Int64) :
    (rangeUnchecked s left right).events = (range s left right).events := by
  funext answer
  cases answer <;> rfl

end Construction

end ProgramHost
