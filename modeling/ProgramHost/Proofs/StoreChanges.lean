/-
  ProgramHost.Proofs.StoreChanges

  What a step can do to the strings of a run.

  There are four changes (`Change`): none, a block made, a block taken over from
  elsewhere, and one more handle for a block that is there. `Store.Changes` gives
  the store after each, and `Session.step_changes` and `Process.step_changes` say
  that every step makes one of them, and how it shows in the step and its answer.
  Every invariant of the strings of a run is proved change by change.
-/

import Mathlib.Algebra.Group.Nat.Defs
import ProgramHost.Program
import ProgramHost.Session

namespace ProgramHost

/-- What a step does to the strings of a run. -/
inductive Change where
  | nothing
  /-- The host made a block. -/
  | made (d : Draft)
  /-- A block that was laid out elsewhere got a handle. -/
  | adopted (block : Block)
  /-- The block of a handle got another one. -/
  | shared (h : Handle) (block : Block)
  deriving DecidableEq, Repr

namespace Change

/-- The two handles that a change links, if it shares a block: the next free one
    and the one it was made from. -/
def link? (next : Handle) : Change → Option (Handle × Handle)
  | .shared h _ => some (next, h)
  | _ => none

/-- The block that a change takes over. -/
def adopted? : Change → Option Block
  | .adopted block => some block
  | _ => none

/-- The string that a change hands out. -/
def placement? (next : Handle) : Change → Option Placement
  | .nothing => none
  | .made d => some ⟨next, d.layOut⟩
  | .adopted block => some ⟨next, block⟩
  | .shared _ block => some ⟨next, block⟩

end Change

theorem Layout.size?_eq_none {length : Nat} : size? length = none ↔ ¬ length + 9 ≤ largest := by
  simp [Option.eq_none_iff_forall_ne_some, size?_eq_some]

/-- What memory can hold is shorter than any length that would read back as a
    negative word. -/
theorem Layout.lt_of_fits {length : Nat} (h : length + 9 ≤ largest) : length < 2 ^ 63 := by
  rw [largest] at h
  omega

namespace Store

/-- The store after a change. -/
inductive Changes (st : Store) : Change → Store → Prop where
  | nothing : Changes st .nothing st
  | made {d : Draft} (hfits : d.length + 9 ≤ Layout.largest) :
      Changes st (.made d)
        ({ st with totals := st.totals.count (d.length + 9) }.push ⟨d.layOut, .host⟩).2
  | adopted (block : Block) : Changes st (.adopted block) (st.push ⟨block, .foreign⟩).2
  | shared {h : Handle} {position : Nat} {cell : Cell}
      (hposition : st.handles[h]? = some position) (hcell : st.cells[position]? = some cell) :
      Changes st (.shared h cell.block) { st with handles := st.handles ++ [position] }

theorem Changes.of_eq {st st' : Store} (h : st' = st) : st.Changes .nothing st' := by
  rw [h]
  exact .nothing

theorem Changes.fits {st st' : Store} {d : Draft} (h : st.Changes (.made d) st') :
    d.length + 9 ≤ Layout.largest := by
  cases h with
  | made hfits => exact hfits

theorem build_eq_none {st : Store} {d : Draft} :
    st.build d = none ↔ Layout.size? d.length = none := by
  simp [build, Totals.build]

/-- A string that memory can hold is made under the next free handle. -/
theorem build_eq_some {st st' : Store} {d : Draft} {placement : Placement} :
    st.build d = some (placement, st') ↔ d.length + 9 ≤ Layout.largest ∧
      placement = ⟨st.handles.length, d.layOut⟩ ∧
      st' = ({ st with totals := st.totals.count (d.length + 9) }.push ⟨d.layOut, .host⟩).2 := by
  simp only [build, Totals.build, Option.map_map, Option.map_eq_some_iff, Layout.size?_eq_some]
  constructor
  · rintro ⟨size, ⟨hfits, rfl⟩, heq⟩
    cases heq
    exact ⟨hfits, rfl, rfl⟩
  · rintro ⟨hfits, rfl, rfl⟩
    exact ⟨d.length + 9, ⟨hfits, rfl⟩, rfl⟩

theorem build_of_fits {d : Draft} (hfits : d.length + 9 ≤ Layout.largest) (st : Store) :
    st.build d = some (⟨st.handles.length, d.layOut⟩,
      ({ st with totals := st.totals.count (d.length + 9) }.push ⟨d.layOut, .host⟩).2) :=
  build_eq_some.mpr ⟨hfits, rfl, rfl⟩

/-- Another handle for the cell of a handle is the next free one. -/
theorem share?_eq_some {st st' : Store} {h : Handle} {placement : Placement}
    (hshare : st.share? h = some (placement, st')) :
    ∃ position cell, st.handles[h]? = some position ∧ st.cells[position]? = some cell ∧
      placement = ⟨st.handles.length, cell.block⟩ ∧
      st' = { st with handles := st.handles ++ [position] } := by
  obtain ⟨position, hposition, hrest⟩ := Option.bind_eq_some_iff.mp hshare
  obtain ⟨cell, hcell, heq⟩ := Option.bind_eq_some_iff.mp hrest
  cases heq
  exact ⟨position, cell, hposition, hcell, rfl, rfl⟩

end Store

/-! ## Constructions and requests -/

/-- The handles that a request links when it is answered. -/
def Request.link? : Request → Answer → Option (Handle × Handle)
  | .construct (.wrap (some h)), .string placement => some (placement.handle, h)
  | _, _ => none

/-- The block that a request takes over. -/
def Request.adopted? : Request → Option Block
  | .construct (.adopt block) => some block
  | _ => none

/-- The string that an answer hands out. -/
def Answer.placement? : Answer → Option Placement
  | .string placement => some placement
  | _ => none

/-- A change of a store shows in a step: what the step hands out, links and takes
    over is what the change does. -/
structure Change.ShownBy (change : Change) (st : Store) (placed : Option Placement)
    (link : Option (Handle × Handle)) (adopted : Option Block) : Prop where
  placed : placed = change.placement? st.handles.length
  link : link = change.link? st.handles.length
  adopted : adopted = change.adopted?

/-- A step that hands out no string leaves the store as it was. -/
theorem Change.ShownBy.eq_of_none {change : Change} {st st' : Store} {placed : Option Placement}
    {link : Option (Handle × Handle)} {adopted : Option Block}
    (h : change.ShownBy st placed link adopted) (hchange : st.Changes change st')
    (hnone : placed = none) : st' = st := by
  have hplaced := h.placed
  rw [hnone] at hplaced
  cases hchange with
  | nothing => rfl
  | _ => cases hplaced

/-! ### Queries -/

namespace Query

variable {st : Store}

theorem placement?_about {h : Handle} {f : Block → Answer} (hf : ∀ b, (f b).placement? = none) :
    (about st h f).placement? = none := by
  rw [about]
  split
  · exact hf _
  · rfl

/-- A query hands out no string. -/
theorem placement?_answer (settings : Settings) (q : Query) :
    (q.answer st settings).placement? = none := by
  cases q with
  | byteAt s index =>
    refine placement?_about fun b => ?_
    cases b.byteAt index <;> rfl
  | byteAtUnchecked s index =>
    refine placement?_about fun b => ?_
    split <;> rfl
  | compare s t => exact placement?_about fun b => placement?_about fun c => rfl
  | same s t =>
    rw [answer]
    split <;> rfl
  | contents | arrayLength | isWhitespace | activeBounds | builtBounds => rfl
  | _ => exact placement?_about fun b => rfl

end Query

/-! ### Constructions -/

namespace Construction

variable {st st' : Store} {answer : Answer}

theorem make_changes {d : Draft} (h : make st d = some (answer, st')) :
    st.Changes (.made d) st' ∧ answer = .string ⟨st.handles.length, d.layOut⟩ := by
  obtain ⟨⟨placement, st''⟩, hbuild, heq⟩ := Option.map_eq_some_iff.mp h
  cases heq
  obtain ⟨hfits, rfl, rfl⟩ := Store.build_eq_some.mp hbuild
  exact ⟨.made hfits, rfl⟩

/-- A string is made from that of a handle, or the handle is not in the table. -/
theorem makeFrom_cases {h : Handle} {next : Block → Option (Answer × Store)}
    (hrun : makeFrom st h next = some (answer, st')) :
    answer = .unknownHandle ∧ st' = st ∨
      ∃ block, st.block? h = some block ∧ next block = some (answer, st') := by
  rw [makeFrom] at hrun
  cases hblock : st.block? h with
  | none =>
    rw [hblock] at hrun
    cases hrun
    exact .inl ⟨rfl, rfl⟩
  | some block =>
    rw [hblock] at hrun
    exact .inr ⟨block, rfl, hrun⟩

theorem run_changes {c : Construction} (h : c.run st = some (answer, st')) :
    ∃ change, st.Changes change st' ∧ change.ShownBy st answer.placement?
      ((Request.construct c).link? answer) (Request.construct c).adopted? := by
  cases c with
  | ofBytes bytes =>
    obtain ⟨hchange, rfl⟩ := make_changes h
    exact ⟨_, hchange, rfl, rfl, rfl⟩
  | ofInt n =>
    obtain ⟨hchange, rfl⟩ := make_changes h
    exact ⟨_, hchange, rfl, rfl, rfl⟩
  | range s left right =>
    obtain ⟨rfl, rfl⟩ | ⟨block, -, hnext⟩ := makeFrom_cases h
    · exact ⟨_, .nothing, rfl, rfl, rfl⟩
    · cases hcheck : block.checkRange left right with
      | ok _ =>
        rw [hcheck] at hnext
        obtain ⟨hchange, rfl⟩ := make_changes hnext
        exact ⟨_, hchange, rfl, rfl, rfl⟩
      | error e =>
        rw [hcheck] at hnext
        cases hnext
        exact ⟨_, .nothing, rfl, rfl, rfl⟩
  | rangeUnchecked s left right =>
    obtain ⟨rfl, rfl⟩ | ⟨block, -, hnext⟩ := makeFrom_cases h
    · exact ⟨_, .nothing, rfl, rfl, rfl⟩
    · split at hnext
      · obtain ⟨hchange, rfl⟩ := make_changes hnext
        exact ⟨_, hchange, rfl, rfl, rfl⟩
      · cases hnext
        exact ⟨_, .nothing, rfl, rfl, rfl⟩
  | append s t =>
    obtain ⟨rfl, rfl⟩ | ⟨block, -, hnext⟩ := makeFrom_cases h
    · exact ⟨_, .nothing, rfl, rfl, rfl⟩
    · obtain ⟨rfl, rfl⟩ | ⟨other, -, hnext⟩ := makeFrom_cases hnext
      · exact ⟨_, .nothing, rfl, rfl, rfl⟩
      · obtain ⟨hchange, rfl⟩ := make_changes hnext
        exact ⟨_, hchange, rfl, rfl, rfl⟩
  | wrap pointer =>
    cases pointer with
    | none =>
      cases h
      exact ⟨_, .nothing, rfl, rfl, rfl⟩
    | some handle =>
      cases hshare : st.share? handle with
      | none =>
        simp only [run, hshare] at h
        cases h
        exact ⟨_, .nothing, rfl, rfl, rfl⟩
      | some shared =>
        obtain ⟨placement, st''⟩ := shared
        obtain ⟨position, cell, hposition, hcell, rfl, rfl⟩ := Store.share?_eq_some hshare
        simp only [run, hshare] at h
        cases h
        exact ⟨_, .shared hposition hcell, rfl, rfl, rfl⟩
  | adopt block =>
    cases h
    exact ⟨_, .adopted block, rfl, rfl, rfl⟩

end Construction

theorem Host.serve_changes {host host' : Host} {r : Request} {answer : Answer}
    (h : host.serve r = some (answer, host')) :
    ∃ change, host.store.Changes change host'.store ∧
      change.ShownBy host.store answer.placement? (r.link? answer) r.adopted? := by
  cases r with
  | query q =>
    cases h
    exact ⟨_, .nothing, Query.placement?_answer _ q, rfl, rfl⟩
  | construct c =>
    obtain ⟨⟨answer', store⟩, hrun, heq⟩ := Option.map_eq_some_iff.mp h
    cases heq
    exact Construction.run_changes hrun
  | runInitializer status =>
    obtain ⟨log, hinner⟩ := host.runInner_eq status
    rw [serve, hinner] at h
    cases h
    exact ⟨.nothing, .nothing, rfl, rfl, rfl⟩

/-! ## The console -/

/-- Reading a string makes one for the token or the fallback, and nothing when
    the token is refused. -/
theorem Host.nextString_changes {host host' : Host} {outcome : Except Refusal Placement}
    (h : host.nextString = some (outcome, host')) :
    (∃ e, outcome = .error e ∧ host'.store = host.store) ∨
      ∃ content, (host.input.tokenOrEmpty host.settings.active.tokenLimit).1 = .ok content ∧
        outcome = .ok ⟨host.store.handles.length, (Draft.ofBytes content).layOut⟩ ∧
        host.store.Changes (.made (.ofBytes content)) host'.store := by
  rw [nextString] at h
  split at h
  · next content input hread =>
    obtain ⟨⟨placement, store⟩, hbuild, heq⟩ := Option.map_eq_some_iff.mp h
    cases heq
    obtain ⟨hfits, rfl, rfl⟩ := Store.build_eq_some.mp hbuild
    exact .inr ⟨content, by rw [hread], rfl, .made hfits⟩
  · next e input hread =>
    cases h
    exact .inl ⟨e, rfl, rfl⟩

/-- A content that was read becomes the next string, if memory can hold it. -/
theorem Host.nextString_of_read {host : Host} {content : Bytes}
    (hread : (host.input.tokenOrEmpty host.settings.active.tokenLimit).1 = .ok content)
    (hfits : content.length + 9 ≤ Layout.largest) :
    ∃ after, host.nextString =
        some (.ok ⟨host.store.handles.length, Block.ofContent content⟩, after) ∧
      after.store.totals = host.store.totals.count (content.length + 9) := by
  rw [nextString]
  cases hresult : host.input.tokenOrEmpty host.settings.active.tokenLimit with
  | mk outcome input =>
    rw [hresult] at hread
    obtain rfl : outcome = .ok content := hread
    have hdraft : (Draft.ofBytes content).length + 9 ≤ Layout.largest := hfits
    have hbuild := Store.build_of_fits hdraft host.store
    rw [Draft.layOut_ofBytes] at hbuild
    simp only [hbuild, Option.map_some]
    exact ⟨_, rfl, rfl⟩

theorem Host.nextInteger_store {host host' : Host} {outcome : Except Refusal Int64}
    (h : host.nextInteger = (outcome, host')) : host'.store = host.store := by
  have hstore : host.nextInteger.2.store = host.store := rfl
  rwa [h] at hstore

/-! ## Steps -/

namespace Session

/-- The string that a reply hands out. -/
def Reply.placement? : Reply → Option Placement
  | .answer a => a.placement?
  | .string (.ok placement) _ => some placement
  | _ => none

/-- The handles that a step links. -/
def Step.link? : Step → Reply → Option (Handle × Handle)
  | .request r, .answer a => r.link? a
  | _, _ => none

/-- The block that a step takes over. -/
def Step.adopted? : Step → Option Block
  | .request r => r.adopted?
  | _ => none

theorem placement?_write (session : Session) (s : Handle) (endLine : Bool)
    (script : List Quota) : (session.write s endLine script).placement? = none := by
  rw [write]
  split <;> rfl

/-- Every step of a session makes one of the changes. -/
theorem step_changes {session after : Session} {s : Step} {reply : Reply}
    (h : session.step s = some (reply, after)) :
    ∃ change, session.host.store.Changes change after.host.store ∧
      change.ShownBy session.host.store reply.placement? (s.link? reply) s.adopted? := by
  cases s with
  | request r =>
    obtain ⟨⟨answer, host⟩, hserve, heq⟩ := Option.map_eq_some_iff.mp h
    cases heq
    exact Host.serve_changes hserve
  | nextString =>
    obtain ⟨⟨outcome, host⟩, hnext, heq⟩ := Option.map_eq_some_iff.mp h
    cases heq
    obtain ⟨e, rfl, hstore⟩ | ⟨content, -, rfl, hchange⟩ := Host.nextString_changes hnext
    · exact ⟨_, .of_eq hstore, rfl, rfl, rfl⟩
    · exact ⟨_, hchange, rfl, rfl, rfl⟩
  | takeToken limit =>
    cases h
    exact ⟨_, .nothing, rfl, rfl, rfl⟩
  | takeInteger =>
    cases h
    exact ⟨_, .nothing, rfl, rfl, rfl⟩
  | nextInteger =>
    cases h
    exact ⟨_, .nothing, rfl, rfl, rfl⟩
  | drain =>
    cases h
    exact ⟨_, .nothing, rfl, rfl, rfl⟩
  | write s endLine script =>
    cases h
    exact ⟨_, .nothing, placement?_write session s endLine script, rfl, rfl⟩

end Session

namespace Program.Step

/-- The handles that a step links. -/
def link? : Step → Answer → Option (Handle × Handle)
  | .request r, answer => r.link? answer
  | _, _ => none

/-- The block that a step takes over. -/
def adopted? : Step → Option Block
  | .request r => r.adopted?
  | _ => none

end Program.Step

/-- The output after the string of a handle is printed to it. -/
def Store.printTo (st : Store) (s : Handle) (endLine : Bool) (out : Output) : Output :=
  (st.block? s).elim out fun block => (Output.print block endLine out).2

namespace Process

/-- A print leaves everything but the output and the log alone. -/
theorem print_frame (host : Host) (s : Handle) (endLine : Bool) :
    ∃ log, (print host s endLine).2 =
      { host with output := host.store.printTo s endLine host.output, log } := by
  rw [print, Store.printTo]
  cases host.store.block? s with
  | none => exact ⟨host.log, rfl⟩
  | some block => exact host.print_eq block endLine

theorem store_print (host : Host) (s : Handle) (endLine : Bool) :
    (print host s endLine).2.store = host.store := by
  obtain ⟨log, hprint⟩ := print_frame host s endLine
  rw [hprint]

theorem placement?_print (host : Host) (s : Handle) (endLine : Bool) :
    (print host s endLine).1.placement? = none := by
  rw [print]
  split <;> rfl

theorem fixBounds_spec (host : Host) (b : Bounds) :
    (fixBounds host b).1.placement? = none ∧ (fixBounds host b).2.store = host.store := by
  rw [fixBounds]
  split <;> exact ⟨rfl, rfl⟩

variable {env : Environment} {host : Host} {s : Program.Step}

/-- A step that stops the process leaves the strings as they were. -/
theorem step_stopped {stop : Stop} {after : Host} (h : step env host s = (.error stop, after)) :
    after.store = host.store := by
  cases s with
  | request r =>
    simp only [step] at h
    split at h
    · cases h
    · cases h
      rfl
  | getString =>
    simp only [step] at h
    split at h
    · cases h
    · next e host' hnext =>
      cases h
      obtain ⟨e', -, hstore⟩ | ⟨content, -, hok, -⟩ := Host.nextString_changes hnext
      · exact hstore
      · cases hok
    · cases h
      rfl
  | getInt =>
    simp only [step] at h
    split at h
    · cases h
    · next e host' hnext =>
      cases h
      exact Host.nextInteger_store hnext
  | print t endLine => cases h
  | fixBounds b => cases h
  | startLog => cases h

/-- Every completed step of a program makes one of the changes. -/
theorem step_changes {answer : Answer} {after : Host}
    (h : step env host s = (.ok answer, after)) :
    ∃ change, host.store.Changes change after.store ∧
      change.ShownBy host.store answer.placement? (s.link? answer) s.adopted? := by
  cases s with
  | request r =>
    simp only [step] at h
    split at h
    · next served hserve =>
      cases h
      exact Host.serve_changes hserve
    · cases h
  | getString =>
    simp only [step] at h
    split at h
    · next placement host' hnext =>
      cases h
      obtain ⟨e, he, -⟩ | ⟨content, -, hok, hchange⟩ := Host.nextString_changes hnext
      · cases he
      · cases hok
        exact ⟨_, hchange, rfl, rfl, rfl⟩
    · cases h
    · cases h
  | getInt =>
    simp only [step] at h
    split at h
    · next n host' hnext =>
      cases h
      exact ⟨_, .of_eq (Host.nextInteger_store hnext), rfl, rfl, rfl⟩
    · cases h
  | print t endLine =>
    cases h
    have hstore := store_print host t endLine
    exact ⟨_, .of_eq hstore, placement?_print host t endLine, rfl, rfl⟩
  | fixBounds b =>
    cases h
    obtain ⟨hplaced, hstore⟩ := fixBounds_spec host b
    exact ⟨_, .of_eq hstore, hplaced, rfl, rfl⟩
  | startLog =>
    cases h
    exact ⟨_, .nothing, rfl, rfl, rfl⟩

end Process

end ProgramHost
