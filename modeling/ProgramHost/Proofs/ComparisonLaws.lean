/-
  ProgramHost.Proofs.ComparisonLaws

  Comparison against output, and against appending.

  Comparison and output both stop at the first zero byte of a string, each in its own way.
  They stop at the same place: strings compare as equal exactly when no sink can tell
  them apart (`Session.compare_zero_iff_written_alike`).

  Appending takes away the zero byte behind a string that ended a comparison. What is left
  are three laws (`Host.compare_of_appended`): a common beginning without zero bytes plays
  no part, behind a zero byte nothing plays a part, and where two strings part before they
  end, all that is appended comes too late.
-/

import ProgramHost.Proofs.Comparison
import ProgramHost.Proofs.Constructions

namespace ProgramHost

theorem Host.serve_compare {host : Host} {a b : Handle} {s t : Block}
    (ha : host.store.block? a = some s) (hb : host.store.block? b = some t) :
    host.serve (.query (.compare a b)) = some (.int (s.compare t), host) := by
  simp only [serve, Query.answer, Query.about, ha, hb]

/-! ## Equal strings and equal output -/

/-- Of a string, output uses the visible part only. -/
theorem emit_of_visible_eq {σ : Type} {s t : Block} (h : s.visible = t.visible)
    (transfer : Bytes → σ → Except Failure Unit × σ) (endLine : Bool) (out : σ) :
    emit transfer s endLine out = emit transfer t endLine out := by
  rw [emit, emit, h]

namespace Session

variable {session : Session} {a b : Handle} {s t : Block}

theorem write_eq (ha : session.host.store.block? a = some s) (endLine : Bool)
    (script : List Quota) :
    session.write a endLine script =
      .written (emit Sink.writeAll s endLine { script }).1
        (emit Sink.writeAll s endLine { script }).2.accepted
        (emit Sink.writeAll s endLine { script }).2.script.length := by
  simp only [write, ha]

/-- A sink without a script shows the visible part as it is. -/
theorem write_unscripted (ha : session.host.store.block? a = some s) :
    session.write a false [] = .written (.ok ()) s.visible 0 := by
  have hemit : emit Sink.writeAll s false {} = (.ok (), { accepted := s.visible }) := by
    rw [emit, Sink.writeAll_unscripted]
    rfl
  rw [write_eq ha, hemit]
  rfl

/-- Two strings compare as equal exactly when they are written alike: whatever a sink
    answers, and with or without a line end, it accepts the same bytes, the outcome is the
    same, and as many answers are left. -/
theorem compare_zero_iff_written_alike (ha : session.host.store.block? a = some s)
    (hb : session.host.store.block? b = some t) (hs : s.WellFormed) (ht : t.WellFormed) :
    session.step (.request (.query (.compare a b))) = some (.answer (.int 0), session) ↔
      ∀ endLine script, session.step (.write a endLine script) =
        session.step (.write b endLine script) := by
  have hcompare : session.step (.request (.query (.compare a b))) =
      some (.answer (.int (s.compare t)), session) := by
    simp only [step, Host.serve_compare ha hb, Option.map_some]
  have hzero : session.step (.request (.query (.compare a b))) =
      some (.answer (.int 0), session) ↔ s.compare t = 0 := by
    simp [hcompare]
  rw [hzero, (Block.comparesVisible hs ht).eq_zero]
  constructor
  · intro hvisible endLine script
    simp only [step, write_eq ha, write_eq hb, emit_of_visible_eq hvisible]
  · -- One sink is enough to tell two strings apart: the one that accepts everything.
    intro halike
    have hplain := halike false []
    simpa [step, write_unscripted ha, write_unscripted hb] using hplain

/-- A session with three strings: `a`, the same with a letter hidden behind a zero byte, and
    both letters in the open. -/
def hidden : Session where
  host.store.cells := [⟨.ofContent [0x61], .foreign⟩, ⟨.ofContent [0x61, 0, 0x62], .host⟩,
    ⟨.ofContent [0x61, 0x62], .host⟩]
  host.store.handles := [0, 1, 2]

theorem compare_zero_iff_written_alike_hidden :
    (∀ endLine script, hidden.step (.write 0 endLine script) =
        hidden.step (.write 1 endLine script)) ∧
      ¬ ∀ endLine script, hidden.step (.write 1 endLine script) =
        hidden.step (.write 2 endLine script) := by
  have hfirst : hidden.host.store.block? 0 = some (.ofContent [0x61]) := rfl
  have hsecond : hidden.host.store.block? 1 = some (.ofContent [0x61, 0, 0x62]) := rfl
  have hthird : hidden.host.store.block? 2 = some (.ofContent [0x61, 0x62]) := rfl
  have halike := compare_zero_iff_written_alike hfirst hsecond ⟨_, by decide, rfl⟩
    ⟨_, by decide, rfl⟩
  have hother := compare_zero_iff_written_alike hsecond hthird ⟨_, by decide, rfl⟩
    ⟨_, by decide, rfl⟩
  rw [← halike, ← hother]
  have hequal : hidden.host.serve (.query (.compare 0 1)) = some (.int 0, hidden.host) := by
    decide +kernel
  have hbefore : hidden.host.serve (.query (.compare 1 2)) = some (.int (-98), hidden.host) := by
    decide +kernel
  constructor
  · simp [step, hequal]
  · simp [step, hbefore]

end Session

/-! ## Comparison of appended strings -/

/-- Two byte strings of which neither begins with the other part. -/
theorem exists_partAt {as bs : Bytes} (ha : ¬ as <+: bs) (hb : ¬ bs <+: as) :
    ∃ common x y, PartAt as bs common x y := by
  -- Neither runs out before they part: the empty byte string begins every other.
  induction as generalizing bs with
  | nil => exact absurd List.nil_prefix ha
  | cons a as ih =>
    cases bs with
    | nil => exact absurd List.nil_prefix hb
    | cons b bs =>
      by_cases hab : a = b
      · subst hab
        rw [List.cons_prefix_cons] at ha hb
        obtain ⟨common, x, y, hpart⟩ := ih (fun h => ha ⟨rfl, h⟩) fun h => hb ⟨rfl, h⟩
        exact ⟨a :: common, x, y, hpart.cons a⟩
      · exact ⟨[], a, b, by simp, by simp, hab⟩

/-- A byte string with a zero byte begins with the part before its first one and a zero
    byte. -/
theorem beforeZero_begins_of_mem {bs : Bytes} (h : 0 ∈ bs) : beforeZero bs ++ [0] <+: bs := by
  have hbegins : beforeZero bs <+: bs := List.takeWhile_prefix _
  -- The part before the zero byte is shorter than the whole, so there is a place for it.
  have hne : (beforeZero bs).length ≠ bs.length := by
    intro hlength
    have hall : beforeZero bs = bs := hbegins.eq_of_length hlength
    have hmem : 0 ∈ beforeZero bs := by rwa [hall]
    exact zero_not_mem_beforeZero bs hmem
  have hle := hbegins.length_le
  apply List.prefix_of_prefix_length_le (beforeZero_begins bs) (List.prefix_append bs [0])
  rw [List.length_append, List.length_singleton]
  omega

namespace Block

/-- A string has the content of two others, the one behind the other. -/
structure Joins (p s u : Block) : Prop where
  wellFormed : p.WellFormed
  content_eq : p.content = s.content ++ u.content

variable {s t u v p q : Block}

theorem Joins.terminated_eq (h : p.Joins s u) :
    p.terminated = s.content ++ (u.content ++ [0]) := by
  rw [h.wellFormed.coherent.terminated, h.content_eq, List.append_assoc]

/-- What a content begins with, a string begins with that was made by appending to it. -/
theorem Joins.begins (h : p.Joins s u) {bs : Bytes} (hbs : bs <+: s.content) :
    bs <+: p.terminated := by
  rw [h.terminated_eq]
  exact hbs.trans (List.prefix_append _ _)

/-- A common beginning without zero bytes plays no part. -/
theorem Joins.compare_of_zero_not_mem (hp : p.Joins s u) (hq : q.Joins t v)
    (hu : u.WellFormed) (hv : v.WellFormed) (hsame : s.content = t.content)
    (hzero : 0 ∉ s.content) : p.compare q = u.compare v := by
  rw [compare, compare, hp.terminated_eq, hq.terminated_eq, ← hsame, compareBytes_append hzero,
    hu.coherent.terminated, hv.coherent.terminated]

/-- Behind a zero byte in a common beginning nothing plays a part. -/
theorem Joins.compare_of_zero_mem (hp : p.Joins s u) (hq : q.Joins t v)
    (hsame : s.content = t.content) (hzero : 0 ∈ s.content) : p.compare q = 0 := by
  have hbegins : s.visible ++ [0] <+: s.content := beforeZero_begins_of_mem hzero
  have hother : s.visible ++ [0] <+: t.content := hsame ▸ hbegins
  exact compareBytes_of_shared s.zero_not_mem_visible (hp.begins hbegins) (hq.begins hother)

/-- Strings that begin with visible parts which part compare by the bytes at that place. -/
theorem compare_of_parting {common : Bytes} {x y : UInt8}
    (h : PartAt s.visible t.visible common x y) (hp : s.visible <+: p.terminated)
    (hq : t.visible <+: q.terminated) :
    p.compare q = Int64.ofNat x.toNat - Int64.ofNat y.toNat := by
  have hcommon : common <+: s.visible := (List.prefix_append _ _).trans h.left
  have hzero : 0 ∉ common := fun hmem => s.zero_not_mem_visible (hcommon.subset hmem)
  exact compareBytes_of_partAt hzero (h.mono hp hq)

/-- What is appended to strings that part before they end plays no part. -/
theorem Joins.compare_of_not_begins (hp : p.Joins s u) (hq : q.Joins t v) (hs : s.WellFormed)
    (ht : t.WellFormed) (hst : ¬ s.visible <+: t.visible) (hts : ¬ t.visible <+: s.visible) :
    p.compare q = s.compare t := by
  obtain ⟨common, x, y, hpart⟩ := exists_partAt hst hts
  have hvisible (r : Block) : r.visible <+: r.content := List.takeWhile_prefix _
  have hown {r : Block} (hr : r.WellFormed) : r.visible <+: r.terminated :=
    (List.prefix_append _ _).trans (visible_begins_terminated hr)
  rw [compare_of_parting hpart (hp.begins (hvisible s)) (hq.begins (hvisible t)),
    compare_of_parting hpart (hown hs) (hown ht)]

end Block

namespace Host

variable {host : Host} {a b x y : Handle} {s t u v : Block}

/-- Comparison of strings that were made by appending, if memory can hold both. If the
    first parts have the same content, the second parts decide, except behind a zero byte,
    where all is equal. If neither visible first part begins with the other, the first parts
    decide. In each case the comparison is the same word. -/
theorem compare_of_appended (ha : host.store.block? a = some s)
    (hb : host.store.block? b = some t) (hx : host.store.block? x = some u)
    (hy : host.store.block? y = some v) (hs : s.WellFormed) (ht : t.WellFormed)
    (hu : u.WellFormed) (hv : v.WellFormed) :
    host.MakesOrAborts (.append a x) (s.content ++ u.content) fun p mid =>
      mid.MakesOrAborts (.append b y) (t.content ++ v.content) fun q last =>
        ∃ n, last.serve (.query (.compare p.handle q.handle)) = some (.int n, last) ∧
          (s.content = t.content → 0 ∉ s.content →
            last.serve (.query (.compare x y)) = some (.int n, last)) ∧
          (s.content = t.content → 0 ∈ s.content → n = 0) ∧
          (¬ s.visible <+: t.visible → ¬ t.visible <+: s.visible →
            last.serve (.query (.compare a b)) = some (.int n, last)) := by
  refine makesOrAborts_of_copies (Construction.copies_append ha hx hs hu) fun _ p mid hp hmid => ?_
  refine makesOrAborts_of_copies (Construction.copies_append (hmid.kept hb) (hmid.kept hy) ht hv)
    fun _ q last hq hlast => ?_
  -- All six strings are found on the last host: a construction takes none away.
  have hfirst : p.block.Joins s u := ⟨hmid.wellFormed, hp⟩
  have hsecond : q.block.Joins t v := ⟨hlast.wellFormed, hq⟩
  refine ⟨_, serve_compare (hlast.kept hmid.found) hlast.found, fun hsame hzero => ?_,
    hfirst.compare_of_zero_mem hsecond, fun hst hts => ?_⟩
  · rw [serve_compare (hlast.kept (hmid.kept hx)) (hlast.kept (hmid.kept hy)),
      hfirst.compare_of_zero_not_mem hsecond hu hv hsame hzero]
  · rw [serve_compare (hlast.kept (hmid.kept ha)) (hlast.kept (hmid.kept hb)),
      hfirst.compare_of_not_begins hsecond hs ht hst hts]

/-- A host with the strings `ab`, `ac`, `z` and the empty one. -/
def partsEarly : Host where
  store.cells := [⟨.ofContent [0x61, 0x62], .host⟩, ⟨.ofContent [0x61, 0x63], .foreign⟩,
    ⟨.ofContent [0x7a], .host⟩, ⟨.ofContent [], .foreign⟩]
  store.handles := [0, 1, 2, 3]

/-- Behind `ab` and `ac`, which part at their second bytes, nothing plays a part. Behind
    `ab` and itself, `z` is compared with the byte that ends a string. -/
theorem compare_of_appended_partsEarly :
    (∃ p mid q last, partsEarly.serve (.construct (.append 0 2)) = some (.string p, mid) ∧
      mid.serve (.construct (.append 1 3)) = some (.string q, last) ∧
      last.serve (.query (.compare p.handle q.handle)) = some (.int (-1), last) ∧
      last.serve (.query (.compare 0 1)) = some (.int (-1), last)) ∧
      ∃ p mid q last, partsEarly.serve (.construct (.append 0 2)) = some (.string p, mid) ∧
        mid.serve (.construct (.append 0 3)) = some (.string q, last) ∧
        last.serve (.query (.compare p.handle q.handle)) = some (.int 122, last) ∧
        last.serve (.query (.compare 2 3)) = some (.int 122, last) := by
  have hab : partsEarly.store.block? 0 = some (.ofContent [0x61, 0x62]) := rfl
  have hac : partsEarly.store.block? 1 = some (.ofContent [0x61, 0x63]) := rfl
  have hz : partsEarly.store.block? 2 = some (.ofContent [0x7a]) := rfl
  have hempty : partsEarly.store.block? 3 = some (.ofContent []) := rfl
  have hwellFormed {bs : Bytes} (hbs : bs.length < 2 ^ 63) : (Block.ofContent bs).WellFormed :=
    ⟨bs, hbs, rfl⟩
  constructor
  · obtain ⟨p, mid, hp, -, hmid, hmakes⟩ := (compare_of_appended hab hac hz hempty
      (hwellFormed (by decide)) (hwellFormed (by decide)) (hwellFormed (by decide))
      (hwellFormed (by decide))).makes (by decide +kernel)
    obtain ⟨q, last, hq, -, hlast, n, hn, -, -, hparting⟩ := hmakes.makes (by decide +kernel)
    have hword := hparting (by decide +kernel) (by decide +kernel)
    -- The strings are still found, so the word is the one that they compare with.
    have hfound := serve_compare (hlast.kept (hmid.kept hab)) (hlast.kept (hmid.kept hac))
    have hvalue : (Block.ofContent [0x61, 0x62]).compare (.ofContent [0x61, 0x63]) = -1 := by
      decide +kernel
    obtain rfl : n = -1 := by simpa [hword, hvalue] using hfound
    exact ⟨p, mid, q, last, hp, hq, hn, hword⟩
  · obtain ⟨p, mid, hp, -, hmid, hmakes⟩ := (compare_of_appended hab hab hz hempty
      (hwellFormed (by decide)) (hwellFormed (by decide)) (hwellFormed (by decide))
      (hwellFormed (by decide))).makes (by decide +kernel)
    obtain ⟨q, last, hq, -, hlast, n, hn, hcommon, -⟩ := hmakes.makes (by decide +kernel)
    have hword := hcommon rfl (by decide +kernel)
    have hfound := serve_compare (hlast.kept (hmid.kept hz)) (hlast.kept (hmid.kept hempty))
    have hvalue : (Block.ofContent [0x7a]).compare (.ofContent []) = 122 := by decide +kernel
    obtain rfl : n = 122 := by simpa [hword, hvalue] using hfound
    exact ⟨p, mid, q, last, hp, hq, hn, hword⟩

end Host

end ProgramHost
