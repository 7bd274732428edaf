/-
  ProgramHost.Proofs.HostAgreement

  What the answers of a host depend on.

  A step looks at the strings under their handles, at the bounds and at the input. It
  does not look at where a block came from, at the totals, at the output or at whether
  requests are logged. `Store.Mirrors` relates two stores with the same strings, one
  of which has counted a fixed amount more, and `Host.Agrees` two hosts with such
  stores, the same bounds and the same input. Every step gives the same answer on two
  hosts that agree, and leaves them in agreement (`Host.Agrees.step`).
-/

import ProgramHost.Proofs.ProgramRuns

namespace ProgramHost

/-- Two results with the same answer and related states. -/
def SameAnswer {α σ τ : Type} (R : σ → τ → Prop) (x : α × σ) (y : α × τ) : Prop :=
  x.1 = y.1 ∧ R x.2 y.2

/-- Related results are still related after what is done with each of them. -/
theorem rel_map {α β γ δ : Type} {R : α → β → Prop} {S : γ → δ → Prop} {f : α → γ} {g : β → δ}
    {x : Option α} {y : Option β} (h : Option.Rel R x y) (hfg : ∀ a b, R a b → S (f a) (g b)) :
    Option.Rel S (x.map f) (y.map g) := by
  cases h with
  | none => exact .none
  | some hab => exact .some (hfg _ _ hab)

/-- Where one side has a result, the other side has one with the same answer. -/
theorem exists_of_rel_some {α σ τ : Type} {R : σ → τ → Prop} {answer : α} {s : σ}
    {y : Option (α × τ)} (h : Option.Rel (SameAnswer R) (some (answer, s)) y) :
    ∃ t, y = some (answer, t) ∧ R s t := by
  cases h with
  | @some _ y hsame =>
    obtain ⟨answer', t⟩ := y
    obtain ⟨rfl, ht⟩ := hsame
    exact ⟨t, rfl, ht⟩

/-! ## Totals -/

namespace Totals

instance : Add Totals := ⟨fun t u => ⟨t.strings + u.strings, t.bytes + u.bytes⟩⟩

theorem add_def (t u : Totals) : t + u = ⟨t.strings + u.strings, t.bytes + u.bytes⟩ := rfl

theorem add_empty (t : Totals) : t + {} = t := by
  simp [add_def]

/-- What was counted before does not matter for what is counted next. -/
theorem count_add (t extra : Totals) (size : Nat) :
    (t + extra).count size = t.count size + extra := by
  have hcomm (x y z : UInt64) : x + y + z = x + z + y := by
    rw [UInt64.add_assoc, UInt64.add_comm y z, UInt64.add_assoc]
  simp only [add_def, count, Totals.mk.injEq]
  exact ⟨hcomm .., hcomm ..⟩

end Totals

/-! ## Stores -/

namespace Store

/-- Two stores with the same strings under the same handles. Their blocks may come
    from different places, and the first store has counted some more. -/
structure Mirrors (extra : Totals) (a b : Store) : Prop where
  handles : a.handles = b.handles
  blocks : a.cells.map (·.block) = b.cells.map (·.block)
  totals : a.totals = b.totals + extra

/-! The parts of a store that its readers look at. -/

theorem block?_eq_bind (st : Store) (h : Handle) :
    st.block? h = st.handles[h]?.bind fun position => (st.cells.map (·.block))[position]? := by
  rw [block?]
  cases st.handles[h]? with
  | none => rfl
  | some position =>
    simp only [Option.bind_eq_bind, Option.bind_some, List.getElem?_map]
    cases st.cells[position]? <;> rfl

theorem share?_eq_bind (st : Store) (h : Handle) :
    st.share? h = st.handles[h]?.bind fun position =>
      (st.cells.map (·.block))[position]?.map fun block =>
        (⟨st.handles.length, block⟩, { st with handles := st.handles ++ [position] }) := by
  rw [share?]
  cases st.handles[h]? with
  | none => rfl
  | some position =>
    simp only [Option.bind_eq_bind, Option.bind_some, List.getElem?_map]
    cases st.cells[position]? <;> rfl

theorem contents_eq_filterMap (st : Store) :
    st.contents = st.handles.filterMap fun position =>
      (st.cells.map (·.block))[position]?.map (·.content) := by
  simp only [contents, List.getElem?_map, Option.map_map]
  rfl

namespace Mirrors

variable {extra : Totals} {a b : Store}

theorem refl (st : Store) : Mirrors {} st st :=
  ⟨rfl, rfl, (Totals.add_empty _).symm⟩

theorem block?_eq (h : Mirrors extra a b) (handle : Handle) :
    a.block? handle = b.block? handle := by
  rw [block?_eq_bind, block?_eq_bind, h.handles, h.blocks]

theorem contents_eq (h : Mirrors extra a b) : a.contents = b.contents := by
  rw [contents_eq_filterMap, contents_eq_filterMap, h.handles, h.blocks]

theorem same?_eq (h : Mirrors extra a b) (s t : Handle) : a.same? s t = b.same? s t := by
  rw [same?, same?, h.handles]

theorem length_cells (h : Mirrors extra a b) : a.cells.length = b.cells.length := by
  have hlength := congrArg List.length h.blocks
  simpa using hlength

/-- New cells with the same block are handed out as the same string. -/
theorem push (h : Mirrors extra a b) {x y : Cell} (hblock : x.block = y.block) :
    SameAnswer (Mirrors extra) (a.push x) (b.push y) := by
  refine ⟨?_, ?_, ?_, h.totals⟩
  · simp only [Store.push, h.handles, hblock]
  · simp only [Store.push, h.handles, h.length_cells]
  · simp only [Store.push, List.map_append, h.blocks, List.map_singleton, hblock]

theorem build (h : Mirrors extra a b) (d : Draft) :
    Option.Rel (SameAnswer (Mirrors extra)) (a.build d) (b.build d) := by
  rw [Store.build, Store.build, Totals.build, Totals.build]
  cases Layout.size? d.length with
  | none => exact .none
  | some size =>
    have hcounted : Mirrors extra { a with totals := a.totals.count size }
        { b with totals := b.totals.count size } := by
      refine ⟨h.handles, h.blocks, ?_⟩
      rw [h.totals, Totals.count_add]
    exact .some (hcounted.push rfl)

theorem share? (h : Mirrors extra a b) (handle : Handle) :
    Option.Rel (SameAnswer (Mirrors extra)) (a.share? handle) (b.share? handle) := by
  rw [share?_eq_bind, share?_eq_bind, h.handles, h.blocks]
  cases b.handles[handle]? with
  | none => exact .none
  | some position =>
    rw [Option.bind_some, Option.bind_some]
    cases (b.cells.map (·.block))[position]? with
    | none => exact .none
    | some block => exact .some ⟨rfl, rfl, h.blocks, h.totals⟩

end Mirrors

end Store

/-! ## Requests -/

section

variable {extra : Totals} {a b : Store}

/-- A query is answered from the strings and the bounds alone. -/
theorem Query.answer_eq (h : a.Mirrors extra b) (settings : Settings) (q : Query) :
    q.answer a settings = q.answer b settings := by
  have habout (s : Handle) (answer : Block → Answer) : about a s answer = about b s answer := by
    rw [about, about, h.block?_eq]
  cases q with
  | compare s t =>
    have hother (x : Block) : about a t (fun y => .int (x.compare y)) =
        about b t (fun y => .int (x.compare y)) := habout t _
    simp only [answer, hother]
    exact habout s _
  | contents => simp only [answer, h.contents_eq]
  | same s t => simp only [answer, h.same?_eq]
  | arrayLength | isWhitespace | activeBounds | builtBounds => rfl
  | _ => exact habout _ _

namespace Construction

/-- The same answer, and stores that mirror each other, or an abort of both. -/
abbrev Alike (extra : Totals) : Option (Answer × Store) → Option (Answer × Store) → Prop :=
  Option.Rel (SameAnswer (Store.Mirrors extra))

theorem make_alike (h : a.Mirrors extra b) (d : Draft) : Alike extra (make a d) (make b d) := by
  refine rel_map (h.build d) ?_
  intro x y hsame
  exact ⟨congrArg Answer.string hsame.1, hsame.2⟩

theorem makeFrom_alike (h : a.Mirrors extra b) (s : Handle)
    {f g : Block → Option (Answer × Store)} (hnext : ∀ block, Alike extra (f block) (g block)) :
    Alike extra (makeFrom a s f) (makeFrom b s g) := by
  rw [makeFrom, makeFrom, h.block?_eq]
  cases b.block? s with
  | none => exact .some ⟨rfl, h⟩
  | some block => exact hnext block

theorem run_alike (h : a.Mirrors extra b) (c : Construction) :
    Alike extra (c.run a) (c.run b) := by
  cases c with
  | ofBytes bytes => exact make_alike h _
  | ofInt n => exact make_alike h _
  | range s left right =>
    refine makeFrom_alike h s fun block => ?_
    cases block.checkRange left right with
    | ok _ => exact make_alike h _
    | error e => exact .some ⟨rfl, h⟩
  | rangeUnchecked s left right =>
    refine makeFrom_alike h s fun block => ?_
    split
    · exact make_alike h _
    · exact .some ⟨rfl, h⟩
  | append s t =>
    refine makeFrom_alike h s fun block => ?_
    exact makeFrom_alike h t fun other => make_alike h _
  | wrap pointer =>
    cases pointer with
    | none => exact .some ⟨rfl, h⟩
    | some handle =>
      -- Both look-ups find a string, or neither does.
      have hshare := h.share? handle
      simp only [run]
      generalize a.share? handle = x at hshare
      generalize b.share? handle = y at hshare
      cases hshare with
      | none => exact .some ⟨rfl, h⟩
      | some hsame => exact .some ⟨congrArg Answer.string hsame.1, hsame.2⟩
  | adopt block =>
    obtain ⟨hplacement, hstore⟩ := h.push (rfl : (Cell.mk block .foreign).block = _)
    exact .some ⟨congrArg Answer.string hplacement, hstore⟩

end Construction

end

/-! ## Hosts -/

/-- Two hosts with the same strings, the same bounds and the same input. Their outputs
    and their logs may differ, and the first has counted some more. -/
structure Host.Agrees (extra : Totals) (a b : Host) : Prop where
  store : a.store.Mirrors extra b.store
  settings : a.settings = b.settings
  input : a.input = b.input

namespace Host.Agrees

variable {extra : Totals} {a b : Host}

theorem totals_eq (h : Agrees {} a b) : a.store.totals = b.store.totals := by
  rw [h.store.totals, Totals.add_empty]

theorem serve (h : Agrees extra a b) (r : Request) :
    Option.Rel (SameAnswer (Agrees extra)) (a.serve r) (b.serve r) := by
  cases r with
  | query q =>
    have hanswer : q.answer a.store a.settings = q.answer b.store b.settings := by
      rw [h.settings]
      exact Query.answer_eq h.store b.settings q
    exact .some ⟨hanswer, h⟩
  | construct c =>
    refine rel_map (Construction.run_alike h.store c) ?_
    intro x y hsame
    exact ⟨hsame.1, hsame.2, h.settings, h.input⟩
  | runInitializer status =>
    obtain ⟨log, hinner⟩ := a.runInner_eq status
    obtain ⟨log', hinner'⟩ := b.runInner_eq status
    rw [Host.serve, Host.serve, hinner, hinner']
    exact .some ⟨rfl, h.store, h.settings, h.input⟩

theorem nextString (h : Agrees extra a b) :
    Option.Rel (SameAnswer (Agrees extra)) a.nextString b.nextString := by
  rw [Host.nextString, Host.nextString, h.settings, h.input]
  cases b.input.tokenOrEmpty b.settings.active.tokenLimit with
  | mk outcome input =>
    cases outcome with
    | ok content =>
      refine rel_map (h.store.build _) ?_
      intro x y hsame
      exact ⟨congrArg Except.ok hsame.1, hsame.2, rfl, rfl⟩
    | error e => exact .some ⟨rfl, h.store, rfl, rfl⟩

theorem nextInteger (h : Agrees extra a b) :
    SameAnswer (Agrees extra) a.nextInteger b.nextInteger := by
  rw [Host.nextInteger, Host.nextInteger, h.input]
  exact ⟨rfl, h.store, h.settings, rfl⟩

/-- The step lemma: hosts that agree take every step alike, in any two environments. -/
theorem step (h : Agrees extra a b) (env env' : Environment) (s : Program.Step) :
    SameAnswer (Agrees extra) (Process.step env a s) (Process.step env' b s) := by
  cases s with
  | request r =>
    have hserve := h.serve r
    simp only [Process.step]
    generalize a.serve r = x at hserve
    generalize b.serve r = y at hserve
    cases hserve with
    | none => exact ⟨rfl, h⟩
    | some hsame => exact ⟨congrArg Except.ok hsame.1, hsame.2⟩
  | print s endLine =>
    simp only [Process.step, Process.print, h.store.block?_eq]
    cases b.store.block? s with
    | none => exact ⟨rfl, h⟩
    | some block =>
      -- Whatever becomes of the bytes, the answer is the same.
      obtain ⟨log, hprint⟩ := a.print_eq block endLine
      obtain ⟨log', hprint'⟩ := b.print_eq block endLine
      dsimp only
      rw [hprint, hprint']
      exact ⟨rfl, h.store, h.settings, h.input⟩
  | getString =>
    have hnext := h.nextString
    simp only [Process.step]
    generalize a.nextString = x at hnext
    generalize b.nextString = y at hnext
    cases hnext with
    | none => exact ⟨rfl, h⟩
    | @some x y hsame =>
      obtain ⟨outcome, after⟩ := x
      obtain ⟨other, after'⟩ := y
      obtain rfl : outcome = other := hsame.1
      cases outcome with
      | ok placement => exact ⟨rfl, hsame.2⟩
      | error e => exact ⟨rfl, hsame.2⟩
  | getInt =>
    obtain ⟨houtcome, hafter⟩ := h.nextInteger
    simp only [Process.step]
    generalize a.nextInteger = x at houtcome hafter
    generalize b.nextInteger = y at houtcome hafter
    obtain ⟨outcome, after⟩ := x
    obtain ⟨other, after'⟩ := y
    obtain rfl : outcome = other := houtcome
    cases outcome with
    | ok n => exact ⟨rfl, hafter⟩
    | error e => exact ⟨rfl, hafter⟩
  | fixBounds bounds =>
    simp only [Process.step, Process.fixBounds, h.settings]
    cases b.settings.fix bounds with
    | ok settings => exact ⟨rfl, h.store, rfl, h.input⟩
    | error e => exact ⟨rfl, h⟩
  | startLog => exact ⟨rfl, h.store, h.settings, h.input⟩

variable {env : Environment} {s : Program.Step} {after : Host}

/-- A step that completes on one of two hosts that agree completes on the other. -/
theorem completes (h : Agrees extra a b) (env' : Environment) {answer : Answer}
    (hstep : Process.Completes env a s answer after) :
    ∃ after', Process.Completes env' b s answer after' ∧ Agrees extra after after' := by
  obtain ⟨hanswer, hafter⟩ := h.step env env' s
  rw [Process.step_eq_ok.mpr hstep] at hanswer hafter
  have hother : Process.step env' b s = (.ok answer, (Process.step env' b s).2) :=
    Prod.ext hanswer.symm rfl
  exact ⟨_, Process.step_eq_ok.mp hother, hafter⟩

/-- A step that stops a process on one of two hosts that agree stops it on the other. -/
theorem stopsIn (h : Agrees extra a b) {stop : Stop} (hstop : Process.StopsIn a s stop after) :
    ∃ after', Process.StopsIn b s stop after' ∧ Agrees extra after after' := by
  obtain ⟨hanswer, hafter⟩ := h.step {} {} s
  rw [Process.step_eq_error.mpr hstop] at hanswer hafter
  have hother : Process.step {} b s = (.error stop, (Process.step {} b s).2) :=
    Prod.ext hanswer.symm rfl
  exact ⟨_, Process.step_eq_error.mp hother, hafter⟩

end Host.Agrees

end ProgramHost
