/-
  ProgramHost.Proofs.ReadBack

  Reading gives back what was printed.

  An `Item` is an integer or a text without whitespace and zero bytes. Its
  string, written on a line of its own, spells it; behind the line end of the
  item before, a read of the same kind gives it back and leaves its own line end
  (`Item.read_spelling`). `Session.readings_of_printed` is the induction over
  whole lists of items, any cut of the printed bytes into pieces, and any reads
  made afterwards.
-/

import ProgramHost.Proofs.DecimalReading
import ProgramHost.Proofs.ReadAgreement

namespace ProgramHost

/-! ## The text of a word -/

namespace Decimal

/-- The text of a word is a sign and the digits of its magnitude. -/
theorem ofInt_eq_sign_append (n : Int) :
    ∃ sign, IntegerState.Sign sign (n < 0) ∧ ofInt n = sign ++ ofNat n.natAbs := by
  by_cases hneg : n < 0
  · refine ⟨[minus], ?_, by rw [ofInt, if_pos hneg]; rfl⟩
    rw [decide_eq_true hneg]
    exact .minus
  · refine ⟨[], ?_, by rw [ofInt, if_neg hneg]; rfl⟩
    rw [decide_eq_false hneg]
    exact .none

theorem zero_not_mem_ofInt (n : Int) : (0 : UInt8) ∉ ofInt n := by
  have hdigits : (0 : UInt8) ∉ ofNat n.natAbs := fun hmem =>
    absurd (isDigit_of_mem_ofNat _ 0 hmem) (by decide)
  rw [ofInt]
  split
  · simpa using ⟨by decide, hdigits⟩
  · exact hdigits

end Decimal

/-! ## Items -/

/-- Something printed on a line of its own. -/
inductive Item where
  | integer (n : Int64)
  | text (bytes : Bytes)
  deriving DecidableEq, Repr

/-- The kinds of items. -/
inductive Item.Kind where
  | integer
  | text
  deriving DecidableEq, Repr

namespace Item

/-- The read that programs make for a kind of item. -/
def Kind.call : Kind → ReadCall
  | .integer => .integerOrZero
  | .text => .tokenOrEmpty

/-- What such a read gives when there is no more input. -/
def Kind.fallback : Kind → Reading
  | .integer => .integer (.ok 0)
  | .text => .token (.ok [])

/-- The kind of an item. -/
def kind : Item → Kind
  | .integer _ => .integer
  | .text _ => .text

/-- The string that is made for an item. -/
def draft : Item → Draft
  | .integer n => .ofInt n
  | .text bytes => .ofBytes bytes

/-- The reading that gives an item back. -/
def reading : Item → Reading
  | .integer n => .integer (.ok n)
  | .text bytes => .token (.ok bytes)

/-- Items that a line can carry: every integer, and the texts that are not empty,
    hold no whitespace and no zero byte, and are within the token limit. -/
def Printable (limit : Nat) : Item → Prop
  | .integer _ => True
  | .text bytes =>
    bytes ≠ [] ∧ (∀ b ∈ bytes, isWhitespace b = false ∧ b ≠ 0) ∧ bytes.length ≤ limit

/-- The bytes that spell an item. -/
def spelling : Item → Bytes
  | .integer n => Decimal.ofInt n.toInt
  | .text bytes => bytes

/-- Memory can hold the string of an item. -/
def Fits (item : Item) : Prop := item.spelling.length + 9 ≤ Layout.largest

theorem draft_eq (item : Item) : item.draft = .ofBytes item.spelling := by
  cases item <;> rfl

instance (limit : Nat) : DecidablePred (Printable limit)
  | .integer _ => .isTrue trivial
  | .text bytes => inferInstanceAs (Decidable (bytes ≠ [] ∧ _ ∧ _))

instance : DecidablePred Fits := fun item =>
  inferInstanceAs (Decidable (item.spelling.length + 9 ≤ Layout.largest))

/-! ## Spellings -/

variable {limit : Nat} {item : Item}

theorem zero_not_mem_spelling (h : item.Printable limit) : (0 : UInt8) ∉ item.spelling := by
  cases item with
  | integer n => exact Decimal.zero_not_mem_ofInt n.toInt
  | text bytes => exact fun hmem => (h.2.1 0 hmem).2 rfl

/-- Memory always has room for the text of an integer. -/
theorem fits_integer (n : Int64) : (integer n).Fits := by
  have hlen := Decimal.length_ofInt_le n
  simp only [Fits, spelling, Layout.largest]
  omega

/-- Behind whitespace and in front of a line end, a read gives the item back and
    leaves the line end. -/
theorem read_spelling (h : item.Printable limit) {ws : Bytes}
    (hws : ∀ b ∈ ws, isWhitespace b = true) (rest : List Signal) :
    Signals.read limit ((ws ++ item.spelling).map .byte ++ .byte newline :: rest) item.kind.call =
      (item.reading, .byte newline :: rest) := by
  have hfront : Signals.front (.byte newline :: rest) = .byte newline := rfl
  cases item with
  | integer n =>
    obtain ⟨sign, hsign, htext⟩ := Decimal.ofInt_eq_sign_append n.toInt
    have hstop : Signals.Stops isDigit (.byte newline :: rest) :=
      Signals.stops_of_front_byte hfront (by decide)
    have hint := Signals.integer_number hws hsign (Decimal.isDigit_of_mem_ofNat n.toInt.natAbs)
      hstop fun _ hnil => absurd hnil (Decimal.ofNat_ne_nil _)
    rw [Signals.conclude_byte hfront, IntegerState.outcome, Decimal.foldl_pushDigit_ofNat,
      List.append_assoc, ← htext] at hint
    have hne : (!(Decimal.ofNat n.toInt.natAbs).isEmpty) = true := by
      simpa using Decimal.ofNat_ne_nil _
    simp only [kind, Kind.call, Signals.read, spelling, hint, hne, IntegerState.conclude, if_true,
      Input.orZero, reading]
  | text bytes =>
    obtain ⟨hne, hbytes, hlimit⟩ := h
    have hstop : Signals.Stops (!isWhitespace ·) (.byte newline :: rest) :=
      Signals.stops_of_front_byte hfront (by decide)
    have htoken := Signals.token_word hws hne (fun b hb => by simp [(hbytes b hb).1]) hlimit hstop
    rw [Signals.conclude_byte hfront] at htoken
    simp only [kind, Kind.call, Signals.read, spelling, htoken, Input.orEmpty, reading]

end Item

/-! ## Printing -/

/-- What the items look like when each stands on a line of its own. -/
def Item.printed (items : List Item) : Bytes :=
  items.flatMap fun item => item.spelling ++ [newline]

/-- Makes the string of each item and writes it to a sink, on a line of its own;
    `none` when the process aborts. -/
def Store.printItems (st : Store) : List Item → Sink → Option (Except Failure Unit × Sink)
  | [], sink => some (.ok (), sink)
  | item :: items, sink =>
    match st.build item.draft with
    | none => none
    | some (placement, st) =>
      match emit Sink.writeAll placement.block true sink with
      | (.ok (), sink) => st.printItems items sink
      | (.error e, sink) => some (.error e, sink)

/-- The string of an item is written as its spelling and a line end. -/
theorem Item.emit_spelling {limit : Nat} {item : Item} (h : item.Printable limit)
    (hfits : item.Fits) (accepted : Bytes) :
    emit Sink.writeAll item.draft.layOut true { accepted } =
      (.ok (), { accepted := accepted ++ (item.spelling ++ [newline]) }) := by
  have hvisible : item.draft.layOut.visible = item.spelling := by
    rw [draft_eq, Draft.layOut_ofBytes, Block.visible,
      Block.content_ofContent (Layout.lt_of_fits hfits),
      beforeZero_eq_self (zero_not_mem_spelling h)]
  simp only [emit, hvisible, Sink.writeAll_unscripted, if_true, List.append_assoc]

/-- The string of an item is made exactly when it fits. -/
theorem Item.build_draft (item : Item) (st : Store) :
    st.build item.draft = none ↔ ¬ item.Fits := by
  rw [Store.build_eq_none, draft_eq, Layout.size?_eq_none]
  exact Iff.rfl

theorem Store.printItems_eq {limit : Nat} {items : List Item}
    (h : ∀ item ∈ items, item.Printable limit) (hfits : ∀ item ∈ items, item.Fits) (st : Store)
    (accepted : Bytes) :
    st.printItems items { accepted } =
      some (.ok (), { accepted := accepted ++ Item.printed items }) := by
  induction items generalizing st accepted with
  | nil => simp [printItems, Item.printed]
  | cons item items ih =>
    rw [List.forall_mem_cons] at h hfits
    have hdraft : item.draft.length + 9 ≤ Layout.largest := by
      rw [Item.draft_eq]
      exact hfits.1
    simp only [printItems, build_of_fits hdraft st, Item.emit_spelling h.1 hfits.1,
      ih h.2 hfits.2, Item.printed, List.flatMap_cons, List.append_assoc]

/-- One item that does not fit aborts the process, whatever was printed
    before it. -/
theorem Store.printItems_eq_none {limit : Nat} {items : List Item}
    (h : ∀ item ∈ items, item.Printable limit) (hlarge : ∃ item ∈ items, ¬ item.Fits)
    (st : Store) (accepted : Bytes) : st.printItems items { accepted } = none := by
  induction items generalizing st accepted with
  | nil => simp at hlarge
  | cons item items ih =>
    rw [List.forall_mem_cons] at h
    by_cases hfits : item.Fits
    · have hdraft : item.draft.length + 9 ≤ Layout.largest := by
        rw [Item.draft_eq]
        exact hfits
      have hrest : ∃ item ∈ items, ¬ item.Fits := by
        obtain ⟨other, hmem, hother⟩ := hlarge
        refine ⟨other, (List.mem_cons.mp hmem).resolve_left ?_, hother⟩
        rintro rfl
        exact hother hfits
      simp only [printItems, build_of_fits hdraft st, Item.emit_spelling h.1 hfits, ih h.2 hrest]
    · simp only [printItems, (item.build_draft st).mpr hfits]

/-! ## Delivery -/

/-- Events that deliver a byte string: pieces of it that are not empty, in order,
    and interruptions anywhere. -/
inductive Event.Deliver : List Event → Bytes → Prop where
  | nil : Deliver [] []
  | data {piece bs : Bytes} {events : List Event} (hne : piece ≠ []) (rest : Deliver events bs) :
      Deliver (.data piece :: events) (piece ++ bs)
  | interruption {f : Failure} {bs : Bytes} {events : List Event} (hf : f.isInterruption = true)
      (rest : Deliver events bs) : Deliver (.failure f :: events) bs

theorem Event.Deliver.signals {events : List Event} {bs : Bytes} (h : Deliver events bs) :
    events.flatMap Event.signals = bs.map .byte := by
  induction h with
  | nil => rfl
  | @data piece bs events hne _ ih =>
    obtain ⟨b, more, rfl⟩ := List.exists_cons_of_ne_nil hne
    rw [List.flatMap_cons, ih, List.map_append]
    rfl
  | interruption hf _ ih => simp [Event.signals, hf, ih]

/-! ## Reading back -/

/-- Before nothing but whitespace a read falls back and leaves nothing. -/
theorem Item.Kind.read_blank (kind : Kind) (limit : Nat) {ws : Bytes}
    (hws : ∀ b ∈ ws, isWhitespace b = true) :
    Signals.read limit (ws.map .byte) kind.call = (kind.fallback, []) := by
  have hend : Signals.front [] = .endOfInput := rfl
  have hfront (b : UInt8) : Signals.front [] ≠ .byte b := by simp [hend]
  rw [← List.append_nil (ws.map Signal.byte)]
  cases kind with
  | integer =>
    simp only [call, Signals.read, Signals.integer_blank hws hfront, Signals.conclude_end hend]
    rfl
  | text =>
    simp only [call, Signals.read, Signals.token_blank hws hfront, Signals.conclude_end hend]
    rfl

namespace Session

/-- A read whose token, if it gives one, fits memory is answered, and the reads
    after it go on with the stream that it leaves. -/
theorem replies_cons {session : Session} {call : ReadCall} {reading : Reading}
    {rest : List Signal} (hexpected : session.expected call = (reading, rest))
    (hfits : ∀ content, reading = .token (.ok content) → content.length + 9 ≤ Layout.largest)
    (hlong : reading.isTooLong = false) (calls : List ReadCall) :
    ∃ (reply : Reply) (after : Session),
      session.replies (call :: calls) = reply :: after.replies calls ∧
      reply.reading? = some reading ∧ after.stream = rest ∧
      after.host.settings = session.host.settings := by
  obtain ⟨-, -, content, hcontent, hnone⟩ | ⟨-, reply, after, hstep, hanswered⟩ :=
    session.step_read call
  · rw [hexpected] at hcontent
    exact absurd (hfits content hcontent) (Layout.size?_eq_none.mp hnone)
  · have hreading := hanswered.reading
    have hstream := hanswered.stream
    rw [hexpected] at hreading hstream
    exact ⟨reply, after, replies_of_some hstep calls, hreading, hstream hlong, hanswered.settings⟩

/-- Before nothing but whitespace every read falls back. -/
theorem replies_blank {session : Session} {ws : Bytes} (hstream : session.stream = ws.map .byte)
    (hws : ∀ b ∈ ws, isWhitespace b = true) (more : List Item.Kind) :
    (session.replies (more.map Item.Kind.call)).map Reply.reading? =
      (more.map Item.Kind.fallback).map some := by
  induction more generalizing session ws with
  | nil => rfl
  | cons kind more ih =>
    have hexpected : session.expected kind.call = (kind.fallback, []) := by
      rw [expected, hstream, kind.read_blank _ hws]
    have hfits : ∀ content, kind.fallback = .token (.ok content) →
        content.length + 9 ≤ Layout.largest := by
      intro content hcontent
      cases kind with
      | integer => cases hcontent
      | text =>
        cases hcontent
        decide
    obtain ⟨reply, after, hreplies, hreading, hafter, -⟩ :=
      replies_cons hexpected hfits (by cases kind <;> rfl) (more.map Item.Kind.call)
    have hrest := ih (show after.stream = ([] : Bytes).map .byte from hafter) (by simp)
    rw [List.map_cons, hreplies, List.map_cons, hreading, hrest]
    rfl

/-- Printed items are read back behind whitespace, and then every read falls
    back. The induction is over the items; what a read leaves before the next one
    is the line end of its own item. -/
theorem replies_printed {session : Session} {ws : Bytes} {items : List Item}
    (hstream : session.stream = (ws ++ Item.printed items).map .byte)
    (hws : ∀ b ∈ ws, isWhitespace b = true)
    (hitems : ∀ item ∈ items, item.Printable session.host.settings.active.tokenLimit)
    (hfits : ∀ item ∈ items, item.Fits) (more : List Item.Kind) :
    (session.replies (items.map (·.kind.call) ++ more.map Item.Kind.call)).map Reply.reading? =
      (items.map Item.reading ++ more.map Item.Kind.fallback).map some := by
  induction items generalizing session ws with
  | nil => exact replies_blank (by simpa [Item.printed] using hstream) hws more
  | cons item items ih =>
    rw [List.forall_mem_cons] at hitems hfits
    have hexpected : session.expected item.kind.call =
        (item.reading, ([newline] ++ Item.printed items).map .byte) := by
      have hsplit : (ws ++ Item.printed (item :: items)).map Signal.byte =
          (ws ++ item.spelling).map .byte ++ .byte newline :: (Item.printed items).map .byte := by
        simp [Item.printed]
      rw [expected, hstream, hsplit, Item.read_spelling hitems.1 hws]
      rfl
    have hcontent : ∀ content, item.reading = .token (.ok content) →
        content.length + 9 ≤ Layout.largest := by
      intro content hreading
      cases item with
      | integer n => cases hreading
      | text bytes =>
        cases hreading
        exact hfits.1
    obtain ⟨reply, after, hreplies, hreading, hafter, hsettings⟩ :=
      replies_cons hexpected hcontent (by cases item <;> rfl)
        (items.map (·.kind.call) ++ more.map Item.Kind.call)
    have hrest := ih hafter (by simp; decide) (by rw [hsettings]; exact hitems.2) hfits.2
    rw [List.map_cons, List.cons_append, hreplies, List.map_cons, hreading, hrest]
    rfl

/-- Printing loses nothing. A list of printable items either has a text that
    memory cannot hold, and then making its string aborts the process, or a sink
    that accepts everything takes them all; and then a session whose source
    delivers exactly the printed bytes, cut into pieces and interrupted in any
    way, reads every item back by the read of its kind, in order, and finds
    nothing behind them. -/
theorem readings_of_printed (session : Session) (st : Store) {items : List Item}
    (hitems : ∀ item ∈ items, item.Printable session.host.settings.active.tokenLimit) :
    (∃ bytes, .text bytes ∈ items ∧ Layout.largest < bytes.length + 9) ∧
        st.printItems items {} = none ∨
    ∃ sink, st.printItems items {} = some (.ok (), sink) ∧
      ∀ bs, Event.Deliver session.host.input.source.events bs →
        session.host.input.source.piece ++ bs = sink.accepted →
        ∀ more : List Item.Kind,
          (session.replies (items.map (·.kind.call) ++ more.map Item.Kind.call)).map
              Reply.reading? =
            (items.map Item.reading ++ more.map Item.Kind.fallback).map some := by
  by_cases hfits : ∀ item ∈ items, item.Fits
  · refine .inr ⟨_, st.printItems_eq hitems hfits [], ?_⟩
    intro bs hdeliver hbytes more
    have hstream : session.stream = ([] ++ Item.printed items).map .byte := by
      rw [stream, Source.stream, hdeliver.signals, ← List.map_append, hbytes]
    exact replies_printed hstream (by simp) hitems hfits more
  · obtain ⟨item, hmem, hlarge⟩ : ∃ item ∈ items, ¬ item.Fits := by simpa using hfits
    refine .inl ⟨?_, st.printItems_eq_none hitems ⟨item, hmem, hlarge⟩ []⟩
    cases item with
    | integer n => exact absurd (Item.fits_integer n) hlarge
    | text bytes => exact ⟨bytes, hmem, Nat.lt_of_not_le hlarge⟩

/-- The least word, a text that starts like an integer, and a zero. -/
def leastFirst : List Item := [.integer Int64.minValue, .text [minus, 0x78], .integer 0]

/-- The lines of `leastFirst`, cut inside the sign and the digits of the least
    word, and interrupted there. -/
def beforeLeastFirst : Session where
  host.input.source.piece := [minus]
  host.input.source.events := [.failure (.ofKind .interrupted),
    .data [0x39, 0x32, 0x32, 0x33, 0x33, 0x37, 0x32, 0x30, 0x33, 0x36, 0x38],
    .data [0x35, 0x34, 0x37, 0x37, 0x35, 0x38, 0x30, 0x38, newline, minus],
    .data [0x78, newline, 0x30], .failure (.ofKind .interrupted), .data [newline]]

theorem readings_of_leastFirst :
    (beforeLeastFirst.replies (leastFirst.map (·.kind.call) ++ [.tokenOrEmpty, .integerOrZero])).map
        Reply.reading? =
      [some (.integer (.ok Int64.minValue)), some (.token (.ok [minus, 0x78])),
        some (.integer (.ok 0)), some (.token (.ok [])), some (.integer (.ok 0))] := by
  have hitems : ∀ item ∈ leastFirst,
      item.Printable beforeLeastFirst.host.settings.active.tokenLimit := by decide +kernel
  obtain ⟨⟨bytes, hmem, hlarge⟩, -⟩ | ⟨sink, hsink, hread⟩ :=
    readings_of_printed beforeLeastFirst {} hitems
  · have hfits : ∀ item ∈ leastFirst, item.Fits := by decide +kernel
    exact absurd (hfits _ hmem) (Nat.not_le_of_lt hlarge)
  · cases hsink
    refine hread _ (.interruption rfl (.data nofun (.data nofun (.data nofun ?_)))) rfl
      [.text, .integer]
    exact .interruption rfl (.data nofun .nil)

end Session

end ProgramHost
