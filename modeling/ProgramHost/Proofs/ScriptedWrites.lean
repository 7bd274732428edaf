/-
  ProgramHost.Proofs.ScriptedWrites

  Writing a string to a sink that accepts it in parts, is interrupted or fails.

  An answer of a sink lets a transfer go on (`Quota.GoesOn`) or ends it with a
  failure (`Quota.EndsWith`). `Sink.Delivers` says what a transfer can come to: all
  bytes are accepted and every answer let it go on, or some bytes are left and the
  last answer ended it. Two transfers, one behind the other, come to the same as one
  of all the bytes (`Sink.Delivers.append`), so the line end that is written
  separately needs no law of its own. Interruptions can be left out of a script
  (`Sink.writeAll_uninterrupted`).
-/

import ProgramHost.Proofs.StandardOutput

namespace ProgramHost

/-! ## Answers -/

namespace Quota

/-- Behind this answer a transfer goes on: some bytes were accepted, or the call is
    made again. -/
inductive GoesOn : Quota → Prop where
  | some {n : Nat} (h : 0 < n) : GoesOn (.atMost n)
  | interrupted {f : Failure} (h : f.isInterruption = true) : GoesOn (.failure f)

/-- This answer ends a transfer with a failure: its own, or that of a sink which
    accepts nothing. -/
inductive EndsWith : Quota → Failure → Prop where
  | stalled : EndsWith (.atMost 0) ⟨.writeZero, "failed to write whole buffer"⟩
  | failed {f : Failure} (h : f.isInterruption = false) : EndsWith (.failure f) f

/-- Whether a sink answers that the call was interrupted. -/
def isInterruption : Quota → Bool
  | .atMost _ => false
  | .failure f => f.isInterruption

end Quota

namespace Sink

/-! ## Transfers -/

/-- What a transfer of bytes comes to, by the answers that it takes: the bytes that
    are accepted, and the outcome. -/
inductive Delivers : List Quota → Bytes → Bytes → Except Failure Unit → Prop where
  /-- All bytes are accepted. -/
  | all {taken : List Quota} {bs : Bytes} (hgo : ∀ q ∈ taken, q.GoesOn) :
      Delivers taken bs bs (.ok ())
  /-- Some bytes are left when the last answer ends the transfer. -/
  | part {before : List Quota} {last : Quota} {done left : Bytes} {f : Failure}
      (hgo : ∀ q ∈ before, q.GoesOn) (hlast : last.EndsWith f) (hleft : left ≠ []) :
      Delivers (before ++ [last]) (done ++ left) done (.error f)

namespace Delivers

variable {taken : List Quota} {bs done : Bytes} {outcome : Except Failure Unit}

/-- Behind accepted bytes and answers that let it go on, a transfer of the other
    bytes completes the transfer of all. -/
theorem append {earlier : List Quota} (first : Bytes) (hgo : ∀ q ∈ earlier, q.GoesOn)
    (h : Delivers taken bs done outcome) :
    Delivers (earlier ++ taken) (first ++ bs) (first ++ done) outcome := by
  cases h with
  | all hrest => exact .all (List.forall_mem_append.mpr ⟨hgo, hrest⟩)
  | part hrest hlast hleft =>
    rw [← List.append_assoc, ← List.append_assoc]
    exact .part (List.forall_mem_append.mpr ⟨hgo, hrest⟩) hlast hleft

/-- An answer that ends a transfer at its start leaves all bytes. -/
theorem refused {q : Quota} {f : Failure} (hq : q.EndsWith f) (hne : bs ≠ []) :
    Delivers [q] bs [] (.error f) := by
  have h : Delivers ([] ++ [q]) ([] ++ bs) [] (.error f) := .part (by simp) hq hne
  exact h

theorem begins (h : Delivers taken bs done outcome) : done <+: bs := by
  cases h with
  | all => exact List.prefix_rfl
  | part => exact List.prefix_append _ _

/-- A transfer succeeds exactly when all bytes were accepted. -/
theorem ok_iff (h : Delivers taken bs done outcome) : outcome = .ok () ↔ done = bs := by
  cases h with
  | all => simp
  | part _ _ hleft => simp [hleft]

/-- A failure is that of the last answer. -/
theorem of_error {f : Failure} (h : Delivers taken bs done (.error f)) :
    done ≠ bs ∧ ∃ before last, taken = before ++ [last] ∧ last.EndsWith f ∧
      ∀ q ∈ before, q.GoesOn := by
  cases h with
  | part hgo hlast hleft => exact ⟨by simp [hleft], _, _, rfl, hlast, hgo⟩

end Delivers

/-- A failed transfer is a failed transfer of more bytes. -/
theorem Delivers.of_error_append {taken : List Quota} {bs done : Bytes} {f : Failure}
    (h : Delivers taken bs done (.error f)) (more : Bytes) :
    Delivers taken (bs ++ more) done (.error f) := by
  cases h with
  | part hgo hlast hleft =>
    rw [List.append_assoc]
    exact .part hgo hlast (List.append_ne_nil_of_left_ne_nil hleft more)

/-- A transfer of bytes between two states of a sink: answers are taken from the
    front of the script, none if there is nothing to transfer, and bytes are added
    behind those accepted before. -/
def Transfers (sink : Sink) (bs : Bytes) (outcome : Except Failure Unit) (after : Sink) : Prop :=
  ∃ taken done, sink.script = taken ++ after.script ∧ after.accepted = sink.accepted ++ done ∧
    Delivers taken bs done outcome ∧ (bs = [] → taken = [])

namespace Transfers

theorem refl (sink : Sink) : Transfers sink [] (.ok ()) sink :=
  ⟨[], [], rfl, (List.append_nil _).symm, .all (by simp), fun _ => rfl⟩

/-- An answer that lets a transfer go on, with the bytes that it accepted, comes
    before the transfer of the others. -/
theorem step {script : List Quota} {accepted more : Bytes} {q : Quota}
    {outcome : Except Failure Unit} {after : Sink} (hq : q.GoesOn) (first : Bytes)
    (hne : first ++ more ≠ []) (h : Transfers ⟨script, accepted ++ first⟩ more outcome after) :
    Transfers ⟨q :: script, accepted⟩ (first ++ more) outcome after := by
  obtain ⟨taken, done, hscript, haccepted, hdelivers, -⟩ := h
  have hgo : ∀ p ∈ [q], p.GoesOn := by simpa using hq
  refine ⟨q :: taken, first ++ done, ?_, ?_, hdelivers.append first hgo,
    fun hnil => absurd hnil hne⟩
  · exact congrArg (q :: ·) hscript
  · rw [haccepted, List.append_assoc]

/-- Two transfers, the first one of all its bytes, are a transfer of both. -/
theorem append {sink mid after : Sink} {bs more : Bytes} {outcome : Except Failure Unit}
    (h : Transfers sink bs (.ok ()) mid) (hmore : Transfers mid more outcome after) :
    Transfers sink (bs ++ more) outcome after := by
  obtain ⟨taken, done, hscript, haccepted, hdelivers, hnone⟩ := h
  obtain ⟨taken', done', hscript', haccepted', hdelivers', hnone'⟩ := hmore
  cases hdelivers with
  | all hgo =>
    refine ⟨taken ++ taken', bs ++ done', ?_, ?_, hdelivers'.append bs hgo, ?_⟩
    · rw [hscript, hscript', List.append_assoc]
    · rw [haccepted', haccepted, List.append_assoc]
    · intro hnil
      obtain ⟨hbs, hmore⟩ := List.append_eq_nil_iff.mp hnil
      rw [hnone hbs, hnone' hmore, List.append_nil]

theorem of_error {sink after : Sink} {bs : Bytes} {f : Failure}
    (h : Transfers sink bs (.error f) after) (more : Bytes) :
    Transfers sink (bs ++ more) (.error f) after := by
  obtain ⟨taken, done, hscript, haccepted, hdelivers, hnone⟩ := h
  refine ⟨taken, done, hscript, haccepted, hdelivers.of_error_append more, fun hnil => ?_⟩
  exact hnone (List.append_eq_nil_iff.mp hnil).1

end Transfers

/-- Writing all of a byte string is a transfer of it. -/
theorem writeAll_transfers (bs : Bytes) (sink : Sink) :
    Transfers sink bs (writeAll bs sink).1 (writeAll bs sink).2 := by
  obtain ⟨script, accepted⟩ := sink
  rw [writeAll]
  -- Each case of the recursion is one answer of the sink.
  fun_induction transfer script accepted bs with
  | case1 script accepted => exact .refl ⟨script, accepted⟩
  | case2 accepted b bs => exact ⟨[], b :: bs, rfl, rfl, .all (by simp), fun _ => rfl⟩
  | case3 script accepted b bs =>
    exact ⟨[.atMost 0], [], rfl, by simp, .refused .stalled (List.cons_ne_nil b bs), by simp⟩
  | case4 n script accepted b bs ih =>
    have hsome : (Quota.atMost (n + 1)).GoesOn := .some (Nat.succ_pos n)
    have hbs : (b :: bs.take n) ++ bs.drop n = b :: bs := by simp
    rw [← hbs]
    exact ih.step hsome _ (by simp)
  | case5 f script accepted b bs hint ih =>
    have hnothing : accepted ++ [] = accepted := List.append_nil accepted
    refine Transfers.step (.interrupted hint) [] (List.cons_ne_nil b bs) ?_
    rw [hnothing]
    exact ih
  | case6 f script accepted b bs hint =>
    have hfinal : (Quota.failure f).EndsWith f := .failed (by simpa using hint)
    exact ⟨[.failure f], [], rfl, by simp, .refused hfinal (List.cons_ne_nil b bs), by simp⟩

/-- Writing a string is a transfer of its line, though the line end is written
    separately. -/
theorem emit_transfers (s : Block) (endLine : Bool) (sink : Sink) :
    Transfers sink (s.line endLine) (emit writeAll s endLine sink).1
      (emit writeAll s endLine sink).2 := by
  have hvisible := writeAll_transfers s.visible sink
  rw [emit, Block.line]
  generalize writeAll s.visible sink = result at *
  obtain ⟨outcome, mid⟩ := result
  cases outcome with
  | error f => exact hvisible.of_error _
  | ok _ =>
    -- The second transfer starts in the state that the first one left.
    cases endLine with
    | false => exact hvisible.append (.refl mid)
    | true => exact hvisible.append (writeAll_transfers [newline] mid)

/-! ## Interruptions -/

/-- A script without the interruptions. -/
def uninterrupted (script : List Quota) : List Quota := script.filter (!·.isInterruption)

/-- A sink that is never interrupted and otherwise answers in the same way. -/
def calm (sink : Sink) : Sink := { sink with script := uninterrupted sink.script }

/-- A sink that is not interrupted accepts the same bytes with the same outcome. -/
theorem writeAll_calm (bs : Bytes) (sink : Sink) :
    writeAll bs sink.calm = Prod.map id calm (writeAll bs sink) := by
  obtain ⟨script, accepted⟩ := sink
  rw [writeAll, writeAll, calm]
  -- Only an interruption is missing from the calm script, and it moves no byte.
  fun_induction transfer script accepted bs with
  | case1 script accepted => simp [transfer, calm]
  | case2 accepted b bs => rfl
  | case3 script accepted b bs => rfl
  | case4 n script accepted b bs ih => exact ih
  | case5 f script accepted b bs hint ih =>
    have hskip : uninterrupted (.failure f :: script) = uninterrupted script := by
      simp [uninterrupted, Quota.isInterruption, hint]
    rw [hskip]
    exact ih
  | case6 f script accepted b bs hint =>
    have hkeep : uninterrupted (.failure f :: script) = .failure f :: uninterrupted script := by
      simp [uninterrupted, Quota.isInterruption, hint]
    rw [hkeep, transfer, if_neg hint]
    rfl

end Sink

/-- What commutes with every transfer commutes with writing a string. -/
theorem emit_map {σ : Type} {transfer : Bytes → σ → Except Failure Unit × σ} {g : σ → σ}
    (h : ∀ bs out, transfer bs (g out) = Prod.map id g (transfer bs out))
    (s : Block) (endLine : Bool) (out : σ) :
    emit transfer s endLine (g out) = Prod.map id g (emit transfer s endLine out) := by
  rw [emit, emit, h]
  generalize transfer s.visible out = result
  obtain ⟨outcome, mid⟩ := result
  cases outcome with
  | error f => rfl
  | ok _ =>
    cases endLine with
    | false => rfl
    | true => exact h [newline] mid

namespace Sink

/-- Scripts that differ only in interruptions give the same outcome, and the same
    bytes are accepted. -/
theorem emit_of_uninterrupted_eq (s : Block) (endLine : Bool) {script other : List Quota}
    (h : uninterrupted other = uninterrupted script) :
    (emit writeAll s endLine { script := other }).1 = (emit writeAll s endLine { script }).1 ∧
      (emit writeAll s endLine { script := other }).2.accepted =
        (emit writeAll s endLine { script }).2.accepted := by
  have hcalm : calm { script := other } = calm { script } := by rw [calm, calm, h]
  have hother := emit_map writeAll_calm s endLine { script := other }
  have hscript := emit_map writeAll_calm s endLine { script }
  rw [hcalm, hscript] at hother
  obtain ⟨houtcome, hsink⟩ := Prod.ext_iff.mp hother
  exact ⟨houtcome.symm, (congrArg accepted hsink).symm⟩

/-- Writing a string to a sink, whatever its script. The sink accepts a beginning of
    the line, all of it exactly on success. A failure is that of the last answer
    taken, and all answers before let the transfer go on. Interruptions put in or
    left out anywhere change neither the outcome nor the bytes, and an empty line
    takes no answer. -/
theorem emit_follows_script {s : Block} {endLine : Bool} {script : List Quota}
    {outcome : Except Failure Unit} {sink : Sink}
    (h : emit writeAll s endLine { script } = (outcome, sink)) :
    sink.accepted <+: s.line endLine ∧
      (outcome = .ok () ↔ sink.accepted = s.line endLine) ∧
      (∃ taken, script = taken ++ sink.script ∧
        (∀ f, outcome = .error f → sink.accepted ≠ s.line endLine ∧
          ∃ before last, taken = before ++ [last] ∧ last.EndsWith f ∧ ∀ q ∈ before, q.GoesOn) ∧
        (s.line endLine = [] → taken = [])) ∧
      ∀ other, uninterrupted other = uninterrupted script →
        (emit writeAll s endLine { script := other }).1 = outcome ∧
          (emit writeAll s endLine { script := other }).2.accepted = sink.accepted := by
  have htransfers := emit_transfers s endLine { script }
  have hother (other : List Quota) (heq : uninterrupted other = uninterrupted script) :=
    emit_of_uninterrupted_eq s endLine heq
  rw [h] at htransfers
  simp only [h] at hother
  obtain ⟨taken, done, hscript, haccepted, hdelivers, hnone⟩ := htransfers
  obtain rfl : sink.accepted = done := haccepted
  refine ⟨hdelivers.begins, hdelivers.ok_iff, ⟨taken, hscript, ?_, hnone⟩, hother⟩
  rintro f rfl
  exact hdelivers.of_error

/-- A text whose letter `c` stands behind a zero byte. -/
def letters : Block := .ofContent [0x61, 0x62, 0, 0x63]

/-- One byte, an interruption, more room than the text needs, and a failure at the
    line end. -/
def failsAtLineEnd : List Quota :=
  [.atMost 1, .failure (.ofKind .interrupted), .atMost 5, .failure (.ofKind .brokenPipe)]

theorem emit_follows_failsAtLineEnd :
    emit writeAll letters true { script := failsAtLineEnd } =
        (.error (.ofKind .brokenPipe), ⟨[], [0x61, 0x62]⟩) ∧
      [0x61, 0x62] <+: letters.line true ∧ [0x61, 0x62] ≠ letters.line true ∧
      (emit writeAll letters true
        { script := [.atMost 1, .atMost 5, .failure (.ofKind .brokenPipe)] }).2.accepted =
          [0x61, 0x62] := by
  have hrun : emit writeAll letters true { script := failsAtLineEnd } =
      (.error (.ofKind .brokenPipe), ⟨[], [0x61, 0x62]⟩) := rfl
  obtain ⟨hbegins, -, ⟨taken, -, hfailed, -⟩, hother⟩ := emit_follows_script hrun
  exact ⟨hrun, hbegins, (hfailed _ rfl).1, (hother _ (by decide +kernel)).2⟩

end Sink
end ProgramHost
