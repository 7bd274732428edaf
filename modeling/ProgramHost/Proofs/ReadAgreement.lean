/-
  ProgramHost.Proofs.ReadAgreement

  Reading depends on the stream alone.

  A session can read in four ways (`ReadCall`): a token or an integer, each with
  every refusal reported or with the fallbacks that programs use.
  `Signals.read` says for each what it gives and what it leaves, on the stream,
  and `Session.step_read` is the step lemma that every read follows it. From it
  `Session.readings_agree` follows for runs: two sessions whose sources deliver
  the same stream, cut into pieces in any two ways, give the same readings, up to
  and including the first token that is refused as too long.
-/

import ProgramHost.Proofs.IntegerRequest
import ProgramHost.Proofs.StoreChanges
import ProgramHost.Proofs.TokenRequest

namespace ProgramHost

/-! ## Fallbacks -/

namespace Input

/-- At the end of input the empty content stands for a token. -/
def orEmpty : Except Refusal Bytes → Except Refusal Bytes
  | .error .unexpectedEnd => .ok []
  | outcome => outcome

theorem tokenOrEmpty_eq (input : Input) (limit : Nat) :
    input.tokenOrEmpty limit =
      (orEmpty ((input.token limit).1.map fun _ => (input.token limit).2.staging),
        (input.token limit).2) := by
  rw [tokenOrEmpty]
  split
  · next h => simp [h, Except.map, orEmpty]
  · next h => simp [h, Except.map, orEmpty]
  · next e after hne h =>
    rw [h]
    cases e with
    | unexpectedEnd => exact absurd rfl hne
    | _ => rfl

/-- What is read is the token of the stream, or its fallback. -/
theorem tokenOrEmpty_stream (input : Input) (limit : Nat) :
    (input.tokenOrEmpty limit).1 = orEmpty (Signals.token limit input.source.stream).1 := by
  rw [tokenOrEmpty_eq, (input.token_stream limit).1]

end Input

/-! ## The ways to read -/

/-- The ways in which a session reads. -/
inductive ReadCall where
  /-- A token of at most this many bytes. -/
  | token (limit : Nat)
  | integer
  /-- A token within the bounds of the host, or nothing. -/
  | tokenOrEmpty
  /-- An integer, or zero. -/
  | integerOrZero
  deriving DecidableEq, Repr

/-- The step that a way to read takes. -/
def ReadCall.step : ReadCall → Session.Step
  | .token limit => .takeToken limit
  | .integer => .takeInteger
  | .tokenOrEmpty => .nextString
  | .integerOrZero => .nextInteger

/-- What reading gives: the bytes of a token, or an integer, or why not. -/
inductive Reading where
  | token (outcome : Except Refusal Bytes)
  | integer (outcome : Except Refusal Int64)

/-- Whether a token was refused as too long. -/
def Reading.isTooLong : Reading → Bool
  | .token (.error (.tokenTooLong _)) => true
  | _ => false

/-- What a way to read gives on a stream, under the token limit of the host, and
    the stream that it leaves. -/
def Signals.read (limit : Nat) (stream : List Signal) : ReadCall → Reading × List Signal
  | .token limit => (.token (token limit stream).1, (token limit stream).2)
  | .integer => (.integer (integer stream).1, (integer stream).2)
  | .tokenOrEmpty => (.token (Input.orEmpty (token limit stream).1), (token limit stream).2)
  | .integerOrZero => (.integer (Input.orZero (integer stream).1), (integer stream).2)

namespace Signals.Alike

variable {xs ys : List Signal}

theorem token (limit : Nat) (h : Alike xs ys) :
    SameOutcome (token limit xs) (Signals.token limit ys) := by
  have htext := h.dropBytes isWhitespace
  have hword := htext.takeBytes_eq (!isWhitespace ·)
  simp only [Signals.token, hword]
  split
  · exact htext.conclude _
  · split
    · exact ⟨rfl, htext⟩
    · exact (htext.dropBytes _).conclude _

theorem number (negative : Bool) (h : Alike xs ys) :
    SameOutcome (number negative xs) (Signals.number negative ys) := by
  rw [Signals.number, Signals.number, h.takeBytes_eq]
  exact (h.dropBytes isDigit).conclude _

theorem integer (h : Alike xs ys) : SameOutcome (integer xs) (Signals.integer ys) := by
  have htext := h.dropBytes isWhitespace
  simp only [Signals.integer, htext.front_eq]
  split
  · split
    · exact htext.tail.number _
    · exact htext.number _
  · exact htext.conclude _

/-- Streams alike give the same readings and leave streams alike. -/
theorem read (limit : Nat) (call : ReadCall) (h : Alike xs ys) :
    SameOutcome (read limit xs call) (Signals.read limit ys call) := by
  cases call with
  | token limit => exact ⟨congrArg Reading.token (h.token limit).1, (h.token limit).2⟩
  | integer => exact ⟨congrArg Reading.integer h.integer.1, h.integer.2⟩
  | tokenOrEmpty =>
    exact ⟨congrArg (Reading.token ∘ Input.orEmpty) (h.token limit).1, (h.token limit).2⟩
  | integerOrZero =>
    exact ⟨congrArg (Reading.integer ∘ Input.orZero) h.integer.1, h.integer.2⟩

end Signals.Alike

/-! ## Reading in a session -/

namespace Session

/-- The stream that a session has still to read. -/
def stream (session : Session) : List Signal := session.host.input.source.stream

/-- What a way to read gives in a session, by its stream and its bounds. -/
def expected (session : Session) (call : ReadCall) : Reading × List Signal :=
  Signals.read session.host.settings.active.tokenLimit session.stream call

/-- What a step told its caller, if it was a step that reads. -/
def Reply.reading? : Reply → Option Reading
  | .token outcome staging _ => some (.token (outcome.map fun _ => staging))
  | .integer outcome _ => some (.integer outcome)
  | .string outcome _ => some (.token (outcome.map fun placement => placement.block.content))
  | _ => none

/-- Whether a step was refused because a token was too long. -/
def Reply.isTooLong (reply : Reply) : Bool := reply.reading?.any Reading.isTooLong

/-- The stream behind a step that reads. -/
def Reply.stream : Reply → List Signal
  | .token _ _ source => source.stream
  | .integer _ source => source.stream
  | .string _ source => source.stream
  | .drained _ _ source => source.stream
  | _ => []

/-- A read has been answered as the stream says. -/
structure Answered (session : Session) (call : ReadCall) (reply : Reply) (after : Session) :
    Prop where
  reading : reply.reading? = some (session.expected call).1
  stream : (session.expected call).1.isTooLong = false → after.stream = (session.expected call).2
  reported : reply.stream = after.stream
  settings : after.host.settings = session.host.settings

/-- The token of a read is one that memory cannot hold. -/
def Unbuildable (session : Session) (call : ReadCall) : Prop :=
  call = .tokenOrEmpty ∧ ∃ content, (session.expected call).1 = .token (.ok content) ∧
    Layout.size? content.length = none

theorem takeToken_answered (session : Session) (limit : Nat) :
    session.Answered (.token limit) (session.takeToken limit).1 (session.takeToken limit).2 := by
  obtain ⟨houtcome, hrest⟩ :=
    Input.token_stream ⟨session.host.input.source, session.staging⟩ limit
  refine ⟨?_, fun hfits => hrest fun hlong => ?_, rfl, rfl⟩
  · simp only [expected, Signals.read, stream, ← houtcome]
    rfl
  · simp only [expected, Signals.read, stream, ← houtcome] at hfits
    rw [hlong] at hfits
    cases hfits

theorem takeInteger_answered (session : Session) :
    session.Answered .integer session.takeInteger.1 session.takeInteger.2 := by
  have hstream := Input.integer_stream session.host.input
  have hexpected : session.expected .integer = (.integer session.host.input.integer.1,
      session.host.input.integer.2.source.stream) := by
    simp only [expected, Signals.read, stream, hstream]
  exact ⟨by rw [hexpected]; rfl, fun _ => by rw [hexpected]; rfl, rfl, rfl⟩

theorem nextInteger_answered (session : Session) :
    session.Answered .integerOrZero session.nextInteger.1 session.nextInteger.2 := by
  have hstream := Input.integer_stream session.host.input
  have hexpected : session.expected .integerOrZero =
      (.integer (Input.orZero session.host.input.integer.1),
        session.host.input.integer.2.source.stream) := by
    simp only [expected, Signals.read, stream, hstream]
  simp only [nextInteger, Host.nextInteger]
  exact ⟨by rw [hexpected]; rfl, fun _ => by rw [hexpected]; rfl, rfl, rfl⟩

/-- Reading a string gives the token or the fallback, unless memory cannot hold
    it. -/
theorem nextString_answered (session : Session) :
    (session.nextString = none ∧ session.Unbuildable .tokenOrEmpty) ∨
      (¬session.Unbuildable .tokenOrEmpty ∧ ∃ reply after,
        session.nextString = some (reply, after) ∧
          session.Answered .tokenOrEmpty reply after) := by
  set limit := session.host.settings.active.tokenLimit with hlimit
  obtain ⟨houtcome, hrest⟩ := Input.token_stream session.host.input limit
  have hreading : (session.expected .tokenOrEmpty).1 =
      .token (session.host.input.tokenOrEmpty limit).1 := by
    simp only [expected, Signals.read, stream, ← hlimit, ← houtcome, Input.tokenOrEmpty_eq]
  have hleft : (session.expected .tokenOrEmpty).1.isTooLong = false →
      (session.host.input.tokenOrEmpty limit).2.source.stream =
        (session.expected .tokenOrEmpty).2 := by
    intro hfits
    rw [Input.tokenOrEmpty_eq]
    refine hrest fun hlong => ?_
    rw [hreading, Input.tokenOrEmpty_eq] at hfits
    simp only at hlong
    rw [hlong] at hfits
    cases hfits
  simp only [nextString, Host.nextString, ← hlimit]
  generalize session.host.input.tokenOrEmpty limit = read at *
  obtain ⟨outcome, after⟩ := read
  cases outcome with
  | error e =>
    refine .inr ⟨?_, _, _, rfl, ⟨?_, hleft, rfl, rfl⟩⟩
    · rintro ⟨-, content, hcontent, -⟩
      rw [hreading] at hcontent
      cases hcontent
    · rw [hreading]
      rfl
  | ok content =>
    dsimp only
    cases hbuild : session.host.store.build (.ofBytes content) with
    | none => exact .inl ⟨rfl, rfl, content, hreading, Store.build_eq_none.mp hbuild⟩
    | some made =>
      obtain ⟨placement, store⟩ := made
      obtain ⟨hfits, rfl, rfl⟩ := Store.build_eq_some.mp hbuild
      have hcontent : (Block.ofContent content).content = content :=
        Block.content_ofContent (Layout.lt_of_fits hfits)
      refine .inr ⟨?_, _, _, rfl, ⟨?_, hleft, rfl, rfl⟩⟩
      · rintro ⟨-, other, hother, hnone⟩
        rw [hreading] at hother
        cases hother
        rw [Store.build_eq_none.mpr hnone] at hbuild
        cases hbuild
      · rw [hreading]
        simp [Reply.reading?, Except.map, hcontent]

/-- The step lemma: every read is answered as the stream says, unless memory
    cannot hold the token. -/
theorem step_read (session : Session) (call : ReadCall) :
    (session.step call.step = none ∧ session.Unbuildable call) ∨
      (¬session.Unbuildable call ∧ ∃ reply after,
        session.step call.step = some (reply, after) ∧ session.Answered call reply after) := by
  cases call with
  | token limit => exact .inr ⟨nofun, _, _, rfl, session.takeToken_answered limit⟩
  | integer => exact .inr ⟨nofun, _, _, rfl, session.takeInteger_answered⟩
  | tokenOrEmpty => exact session.nextString_answered
  | integerOrZero => exact .inr ⟨nofun, _, _, rfl, session.nextInteger_answered⟩

/-! ## Runs that read -/

/-- The replies to reads made one after another. -/
def replies (session : Session) (calls : List ReadCall) : List Reply :=
  (session.run (calls.map ReadCall.step)).1.map Entry.reply

theorem replies_of_none {session : Session} {call : ReadCall}
    (h : session.step call.step = none) (calls : List ReadCall) :
    session.replies (call :: calls) = [] := by
  simp [replies, run, h]

theorem replies_of_some {session after : Session} {call : ReadCall} {reply : Reply}
    (h : session.step call.step = some (reply, after)) (calls : List ReadCall) :
    session.replies (call :: calls) = reply :: after.replies calls := by
  simp [replies, run, h]

/-- Two replies agree: they tell the same reading, and, unless a token was too
    long, the streams behind them are alike. -/
def Reply.AgreesWith (x y : Reply) : Prop :=
  (∃ reading, x.reading? = some reading ∧ y.reading? = some reading) ∧
    (x.isTooLong = false → Signals.Alike x.stream y.stream)

/-- Replies that agree tell the same reading. -/
theorem Reply.reading?_of_rel {x y : Option Reply} (h : Option.Rel AgreesWith x y) :
    y.bind reading? = x.bind reading? := by
  cases h with
  | none => rfl
  | some hagree =>
    obtain ⟨⟨reading, hx, hy⟩, -⟩ := hagree
    exact hy.trans hx.symm

/-- Two sessions stand before the same input under the same bounds. -/
structure SameInput (a b : Session) : Prop where
  stream : Signals.Alike a.stream b.stream
  settings : a.host.settings = b.host.settings

namespace SameInput

variable {a b : Session}

theorem expected (h : SameInput a b) (call : ReadCall) :
    Signals.SameOutcome (a.expected call) (b.expected call) := by
  rw [Session.expected, Session.expected, h.settings]
  exact h.stream.read _ call

theorem unbuildable (h : SameInput a b) (call : ReadCall) :
    a.Unbuildable call ↔ b.Unbuildable call := by
  rw [Unbuildable, Unbuildable, (h.expected call).1]

/-- Both sessions abort in a read, or both answer it and agree; then, unless a
    token was too long, they stand again before the same input. -/
theorem step (h : SameInput a b) (call : ReadCall) :
    (a.step call.step = none ∧ b.step call.step = none) ∨
      ∃ x a' y b', a.step call.step = some (x, a') ∧ b.step call.step = some (y, b') ∧
        x.AgreesWith y ∧ (x.isTooLong = false → SameInput a' b') := by
  obtain ⟨ha, hua⟩ | ⟨hua, x, a', ha, hx⟩ := a.step_read call
  · obtain ⟨hb, -⟩ | ⟨hub, -⟩ := b.step_read call
    · exact .inl ⟨ha, hb⟩
    · exact absurd ((h.unbuildable call).mp hua) hub
  · obtain ⟨-, hub⟩ | ⟨-, y, b', hb, hy⟩ := b.step_read call
    · exact absurd ((h.unbuildable call).mpr hub) hua
    · obtain ⟨hreading, hrest⟩ := h.expected call
      have halike : x.isTooLong = false → Signals.Alike a'.stream b'.stream := by
        intro hfits
        have hfa : (a.expected call).1.isTooLong = false := by
          simpa [Reply.isTooLong, hx.reading] using hfits
        rw [hx.stream hfa, hy.stream (hreading ▸ hfa)]
        exact hrest
      refine .inr ⟨x, a', y, b', ha, hb, ⟨?_, ?_⟩, fun hfits => ⟨halike hfits, ?_⟩⟩
      · exact ⟨_, hx.reading, by rw [hy.reading, hreading]⟩
      · rw [hx.reported, hy.reported]
        exact halike
      · rw [hx.settings, hy.settings, h.settings]

end SameInput

/-- Two sessions before the same input, cut into pieces and interrupted in any
    two ways, read the same: as long as no token was too long, the next replies
    agree, and if one of the runs ends there by an abort, so does the other. -/
theorem readings_agree {a b : Session} (h : SameInput a b) (calls : List ReadCall) (n : Nat)
    (hbefore : ∀ x ∈ (a.replies calls).take n, x.isTooLong = false) :
    Option.Rel Reply.AgreesWith (a.replies calls)[n]? (b.replies calls)[n]? := by
  induction calls generalizing a b n with
  | nil => exact .none
  | cons call calls ih =>
    obtain ⟨ha, hb⟩ | ⟨x, a', y, b', ha, hb, hagree, hnext⟩ := h.step call
    · rw [replies_of_none ha, replies_of_none hb]
      exact .none
    · rw [replies_of_some ha] at hbefore ⊢
      rw [replies_of_some hb]
      cases n with
      | zero => exact .some hagree
      | succ n =>
        rw [List.take_succ_cons, List.forall_mem_cons] at hbefore
        exact ih (hnext hbefore.1) n hbefore.2

/-- The input `12 ab cde`, delivered in one piece. -/
def inOnePiece : Session where
  host.input.source.events := [.data [0x31, 0x32, 0x20, 0x61, 0x62, 0x20, 0x63, 0x64, 0x65]]

/-- The same input, cut inside the integer and inside the tokens and interrupted
    in between. -/
def inPieces : Session where
  host.input.source.piece := [0x31]
  host.input.source.events := [.data [0x32, 0x20, 0x61], .failure (.ofKind .interrupted),
    .data [0x62], .data [0x20, 0x63], .data [0x64, 0x65], .endOfInput]

/-- An integer, a token within the bounds, and one of at most two bytes. -/
def threeReads : List ReadCall := [.integer, .tokenOrEmpty, .token 2]

/-- Both sessions read 12 and `ab`, and refuse the last word. -/
theorem readings_agree_in_pieces :
    SameInput inOnePiece inPieces ∧
      (∀ x ∈ (inOnePiece.replies threeReads).take 2, x.isTooLong = false) ∧
      (inOnePiece.replies threeReads).map Reply.reading? =
        [some (.integer (.ok 12)), some (.token (.ok [0x61, 0x62])),
          some (.token (.error (.tokenTooLong 2)))] ∧
      (inPieces.replies threeReads)[0]?.bind Reply.reading? = some (.integer (.ok 12)) ∧
      (inPieces.replies threeReads)[1]?.bind Reply.reading? = some (.token (.ok [0x61, 0x62])) ∧
      (inPieces.replies threeReads)[2]?.bind Reply.reading? =
        some (.token (.error (.tokenTooLong 2))) ∧
      Option.Rel Reply.AgreesWith (inOnePiece.replies threeReads)[2]?
        (inPieces.replies threeReads)[2]? := by
  have hsame : SameInput inOnePiece inPieces := ⟨Signals.Alike.append_end _, rfl⟩
  have hbefore : ∀ x ∈ (inOnePiece.replies threeReads).take 2, x.isTooLong = false := by decide
  have hagree (n : Nat) (hn : n ≤ 2) : Option.Rel Reply.AgreesWith
      (inOnePiece.replies threeReads)[n]? (inPieces.replies threeReads)[n]? := by
    refine readings_agree hsame _ n fun x hx => hbefore x ?_
    exact (List.take_prefix_take_left hn).subset hx
  exact ⟨hsame, hbefore, rfl, Reply.reading?_of_rel (hagree 0 (by decide)),
    Reply.reading?_of_rel (hagree 1 (by decide)), Reply.reading?_of_rel (hagree 2 (by decide)),
    hagree 2 (by decide)⟩

end Session

end ProgramHost
