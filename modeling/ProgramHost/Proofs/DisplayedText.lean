/-
  ProgramHost.Proofs.DisplayedText

  What is displayed of a string.

  `Utf8.Repairs` says what it is to show a byte string as text without saying how it is
  read: every character is kept, and where none stands, the longest beginning of a
  character, or one byte where nothing begins, becomes one replacement character. There is
  one such text for every byte string (`Repairs.unique`), and the reader finds it
  (`repairs_repair`). The invariant of the reader is `Opening.Sound`: the bytes that complete
  an open sequence are those that make a character with the bytes seen.

  The laws of display follow from the relation: the text is well-formed, well-formed text is
  kept, also in front of anything else, and misspelled numbers are replaced byte by byte.
-/

import ProgramHost.Proofs.CharacterBytes
import ProgramHost.Proofs.Constructions

namespace ProgramHost
namespace Utf8

/-! ## Characters side by side -/

/-- Well-formed text: the bytes of some characters, one after another. -/
def WellFormed (bs : Bytes) : Prop := ∃ cs : List Char, bs = encode cs

/-- Some character begins with these bytes. -/
def Begins (bs : Bytes) : Prop := ∃ tail, IsSequence (bs ++ tail)

section

variable {e e' rest rest' bs : Bytes}

theorem IsSequence.ne_nil (h : IsSequence e) : e ≠ [] := by
  obtain ⟨c, rfl⟩ := h
  apply List.ne_nil_of_length_pos
  rw [String.length_utf8EncodeChar]
  exact c.utf8Size_pos

/-- No character is the beginning of another one. -/
theorem IsSequence.append_inj (h : IsSequence e) (h' : IsSequence e')
    (heq : e ++ rest = e' ++ rest') : e = e' ∧ rest = rest' := by
  obtain ⟨b, tail, rfl⟩ := List.exists_cons_of_ne_nil h.ne_nil
  obtain ⟨b', tail', rfl⟩ := List.exists_cons_of_ne_nil h'.ne_nil
  obtain rfl : b = b' := (List.cons.inj heq).1
  apply List.append_inj heq
  rw [List.length_cons, List.length_cons, h.length_eq h']

theorem IsSequence.begins (h : IsSequence (e ++ rest)) : Begins e := ⟨rest, h⟩

theorem Begins.of_append (h : Begins (e ++ rest)) : Begins e := by
  obtain ⟨tail, htail⟩ := h
  rw [List.append_assoc] at htail
  exact htail.begins

theorem encode_cons (c : Char) (cs : List Char) :
    encode (c :: cs) = String.utf8EncodeChar c ++ encode cs := List.flatMap_cons

theorem wellFormed_nil : WellFormed [] := ⟨[], rfl⟩

theorem WellFormed.cons (h : IsSequence e) (hbs : WellFormed bs) : WellFormed (e ++ bs) := by
  obtain ⟨c, rfl⟩ := h
  obtain ⟨cs, rfl⟩ := hbs
  exact ⟨c :: cs, (encode_cons c cs).symm⟩

end

/-! ## The text of a byte string -/

/-- A stretch of a byte string, and what stands behind it: no character stands there, it is
    the beginning of one or a single byte, and no longer stretch begins a character. -/
structure MaximalSubpart (part rest : Bytes) : Prop where
  ne_nil : part ≠ []
  noCharacter : ∀ {e tail : Bytes}, IsSequence e → part ++ rest ≠ e ++ tail
  shape : Begins part ∨ part.length = 1
  longest : ∀ {longer tail : Bytes}, part ++ rest = longer ++ tail →
    part.length < longer.length → ¬ Begins longer

/-- A byte string and its text: characters are kept, and every maximal subpart becomes one
    replacement character. -/
inductive Repairs : Bytes → Bytes → Prop where
  | nil : Repairs [] []
  | character {e rest out : Bytes} (he : IsSequence e) (h : Repairs rest out) :
      Repairs (e ++ rest) (e ++ out)
  | subpart {part rest out : Bytes} (hpart : MaximalSubpart part rest) (h : Repairs rest out) :
      Repairs (part ++ rest) (replacement ++ out)

/-- A stretch that cannot be made longer is maximal. -/
theorem MaximalSubpart.of_stuck {part rest : Bytes} (hne : part ≠ [])
    (hshape : Begins part ∨ part.length = 1)
    (hopen : ∀ {e tail : Bytes}, IsSequence e → part ≠ e ++ tail)
    (hstuck : ∀ {x : UInt8} {more : Bytes}, rest = x :: more → ¬ Begins (part ++ [x])) :
    MaximalSubpart part rest := by
  -- Whatever goes beyond the stretch goes on with the byte behind it.
  have hbeyond {longer tail : Bytes} (heq : part ++ rest = longer ++ tail)
      (hlength : part.length < longer.length) : ¬ Begins longer := by
    rcases List.append_eq_append_iff.mp heq with ⟨more, rfl, hrest⟩ | ⟨more, rfl, -⟩
    · cases more with
      | nil => simp at hlength
      | cons x more =>
        intro hbegins
        rw [← List.singleton_append, ← List.append_assoc] at hbegins
        exact hstuck hrest hbegins.of_append
    · rw [List.length_append] at hlength
      omega
  refine ⟨hne, ?_, hshape, hbeyond⟩
  intro e tail he heq
  by_cases hlength : part.length < e.length
  · exact hbeyond heq hlength ⟨[], by rwa [List.append_nil]⟩
  · rcases List.append_eq_append_iff.mp heq with ⟨more, rfl, -⟩ | ⟨more, hpart, -⟩
    · rw [List.length_append] at hlength
      obtain rfl : more = [] := List.eq_nil_of_length_eq_zero (by omega)
      exact hopen he (show part = part ++ [] ++ [] by simp)
    · exact hopen he hpart

/-- A single byte that no character starts with, or none together with the byte behind it. -/
theorem MaximalSubpart.of_byte {b : UInt8} {rest : Bytes} (hb : ¬ IsSequence [b])
    (hstuck : ∀ {x : UInt8} {more : Bytes}, rest = x :: more → ¬ Begins [b, x]) :
    MaximalSubpart [b] rest := by
  refine .of_stuck (List.cons_ne_nil _ _) (.inr rfl) ?_ hstuck
  intro e tail he heq
  rcases List.singleton_eq_append_iff.mp heq with ⟨rfl, -⟩ | ⟨rfl, -⟩
  · exact he.ne_nil rfl
  · exact hb he

/-- Where a byte string has a maximal subpart, it has one only. -/
theorem MaximalSubpart.unique {part rest part' rest' : Bytes} (h : MaximalSubpart part rest)
    (h' : MaximalSubpart part' rest') (heq : part ++ rest = part' ++ rest') :
    part = part' ∧ rest = rest' := by
  have hpos := List.length_pos_iff.mpr h.ne_nil
  have hpos' := List.length_pos_iff.mpr h'.ne_nil
  rcases Nat.lt_trichotomy part.length part'.length with hlt | hlength | hlt
  · rcases h'.shape with hbegins | hone
    · exact absurd hbegins (h.longest heq hlt)
    · omega
  · exact List.append_inj heq hlength
  · rcases h.shape with hbegins | hone
    · exact absurd hbegins (h'.longest heq.symm hlt)
    · omega

namespace Repairs

variable {bs out out' : Bytes}

/-- A byte string has one text only. -/
theorem unique (h : Repairs bs out) (h' : Repairs bs out') : out = out' := by
  induction h generalizing out' with
  | nil =>
    generalize hbs : ([] : Bytes) = bs at h'
    cases h' with
    | nil => rfl
    | character he h => exact absurd (List.append_eq_nil_iff.mp hbs.symm).1 he.ne_nil
    | subpart hpart h => exact absurd (List.append_eq_nil_iff.mp hbs.symm).1 hpart.ne_nil
  | @character e rest out he _ ih =>
    generalize hbs : e ++ rest = bs at h'
    cases h' with
    | nil => exact absurd (List.append_eq_nil_iff.mp hbs).1 he.ne_nil
    | character he' h' =>
      obtain ⟨rfl, rfl⟩ := he.append_inj he' hbs
      rw [ih h']
    | subpart hpart h' => exact absurd hbs.symm (hpart.noCharacter he)
  | @subpart part rest out hpart _ ih =>
    generalize hbs : part ++ rest = bs at h'
    cases h' with
    | nil => exact absurd (List.append_eq_nil_iff.mp hbs).1 hpart.ne_nil
    | character he' h' => exact absurd hbs (hpart.noCharacter he')
    | subpart hpart' h' =>
      obtain ⟨rfl, rfl⟩ := hpart.unique hpart' hbs
      rw [ih h']

theorem wellFormed (h : Repairs bs out) : WellFormed out := by
  induction h with
  | nil => exact wellFormed_nil
  | character he _ ih => exact ih.cons he
  | subpart _ _ ih =>
    have hreplacement : IsSequence replacement := ⟨Char.ofNat 0xfffd, by decide⟩
    exact ih.cons hreplacement

/-- Characters in front of a byte string stand in front of its text. -/
theorem encode_append (h : Repairs bs out) (cs : List Char) :
    Repairs (encode cs ++ bs) (encode cs ++ out) := by
  induction cs with
  | nil => exact h
  | cons c cs ih =>
    rw [encode_cons, List.append_assoc, List.append_assoc]
    exact ih.character ⟨c, rfl⟩

end Repairs

/-! ## The reader -/

namespace Opening

variable {o : Opening}

/-- The bytes that complete an open sequence are those that make a character with the bytes
    seen, and there are some. -/
structure Sound (o : Opening) : Prop where
  started : o.seen ≠ []
  range : o.low ≤ o.high
  completes : ∀ tail, IsSequence (o.seen ++ tail) ↔ o.Completes tail

theorem completes_cons {x : UInt8} {rest : Bytes} :
    o.Completes (x :: rest) ↔ (o.low ≤ x ∧ x ≤ o.high) ∧ rest.length = o.after ∧
      ∀ y ∈ rest, Continues y := by
  constructor
  · rintro ⟨_, _, heq, hx, hrest⟩
    obtain ⟨rfl, rfl⟩ := List.cons.inj heq
    exact ⟨hx, hrest⟩
  · rintro ⟨hx, hrest⟩
    exact ⟨x, rest, rfl, hx, hrest⟩

namespace Sound

theorem begins (h : o.Sound) : Begins o.seen := by
  refine ⟨o.low :: List.replicate o.after 0x80, (h.completes _).mpr ?_⟩
  refine completes_cons.mpr ⟨⟨Std.le_refl _, h.range⟩, List.length_replicate, ?_⟩
  intro y hy
  rw [List.eq_of_mem_replicate hy, Continues]
  decide

/-- An open sequence is not complete, nor is any part of it. -/
theorem not_complete (h : o.Sound) {e tail : Bytes} (he : IsSequence e) : o.seen ≠ e ++ tail := by
  intro hseen
  obtain ⟨more, hmore⟩ := h.begins
  have heq : o.seen ++ more = e ++ (tail ++ more) := by
    rw [hseen, List.append_assoc]
  have hend : o.seen ++ more ++ [] = e ++ (tail ++ more) := by rw [List.append_nil, heq]
  obtain ⟨-, hnil⟩ := hmore.append_inj he hend
  obtain rfl : more = [] := (List.append_eq_nil_iff.mp hnil.symm).2
  obtain ⟨x, rest, hcons, -⟩ := (h.completes []).mp hmore
  cases hcons

/-- Only a byte in the range of an open sequence goes on with it. -/
theorem not_begins (h : o.Sound) {x : UInt8} (hx : ¬(o.low ≤ x ∧ x ≤ o.high)) :
    ¬ Begins (o.seen ++ [x]) := by
  rintro ⟨tail, htail⟩
  rw [List.append_assoc, h.completes] at htail
  exact hx (completes_cons.mp htail).1

/-- The last byte makes a character. -/
theorem isSequence (h : o.Sound) {x : UInt8} (hx : o.low ≤ x ∧ x ≤ o.high) (hafter : o.after = 0) :
    IsSequence (o.seen ++ [x]) :=
  (h.completes [x]).mpr (completes_cons.mpr ⟨hx, hafter.symm, List.forall_mem_nil _⟩)

/-- The step lemma: a byte in the range leaves a sequence open as long as more must come. -/
theorem next (h : o.Sound) {x : UInt8} {n : Nat} (hx : o.low ≤ x ∧ x ≤ o.high)
    (hafter : o.after = n + 1) : Sound ⟨o.seen ++ [x], n, 0x80, 0xbf⟩ := by
  have hrange : (0x80 : UInt8) ≤ 0xbf := by decide
  refine ⟨by simp, hrange, fun tail => ?_⟩
  rw [List.append_assoc, h.completes, List.singleton_append, completes_cons, hafter]
  constructor
  · rintro ⟨-, hlength, hrest⟩
    obtain ⟨y, rest, rfl⟩ := List.exists_cons_of_length_eq_add_one hlength
    obtain ⟨hy, hrest⟩ := List.forall_mem_cons.mp hrest
    exact completes_cons.mpr ⟨hy, Nat.succ.inj hlength, hrest⟩
  · rintro ⟨y, rest, rfl, hy, hlength, hrest⟩
    exact ⟨hx, congrArg Nat.succ hlength, List.forall_mem_cons.mpr ⟨hy, hrest⟩⟩

end Sound

end Opening

/-- A leading byte opens a sequence that characters complete. -/
theorem sound_of_lead {b : UInt8} {o : Opening} (h : lead b = .opens o) :
    o.seen = [b] ∧ o.Sound := by
  obtain ⟨hseen, hrange⟩ := lead_opens h
  refine ⟨hseen, by simp [hseen], hrange, fun tail => ?_⟩
  rw [hseen, List.singleton_append, isSequence_cons_iff, h]
  rfl

/-- What is shown of a byte string behind the bytes of an open sequence, if there is one. -/
def shownFrom (o : Option Opening) (bs : Bytes) : Bytes :=
  (bs.foldl Reading.push ⟨[], o⟩).finish.flatMap Segment.shown

namespace Reading

theorem start_eq (segments : List Segment) (b : UInt8) :
    start segments b = ⟨(start [] b).segments ++ segments, (start [] b).opening⟩ := by
  rw [start, start]
  cases lead b <;> rfl

/-- What a byte adds depends on the open sequence only. -/
theorem push_eq (r : Reading) (b : UInt8) :
    r.push b =
      ⟨(push ⟨[], r.opening⟩ b).segments ++ r.segments, (push ⟨[], r.opening⟩ b).opening⟩ := by
  obtain ⟨segments, opening⟩ := r
  cases opening with
  | none => exact start_eq segments b
  | some o =>
    simp only [push]
    split
    · cases o.after <;> rfl
    · rw [start_eq, start_eq [.illFormed], List.append_assoc]
      rfl

end Reading

/-- The segments read before stand in front of what comes. -/
theorem flatMap_shown_finish (r : Reading) (bs : Bytes) :
    (bs.foldl Reading.push r).finish.flatMap Segment.shown =
      r.segments.reverse.flatMap Segment.shown ++ shownFrom r.opening bs := by
  induction bs generalizing r with
  | nil =>
    obtain ⟨segments, opening⟩ := r
    cases opening <;> simp [shownFrom, Reading.finish]
  | cons b bs ih =>
    rw [shownFrom, List.foldl_cons, List.foldl_cons, ih, ih, r.push_eq, List.reverse_append,
      List.flatMap_append, List.append_assoc]

section

variable {b : UInt8} {o : Opening} {n : Nat}

theorem shownFrom_cons (opening : Option Opening) (b : UInt8) (bs : Bytes) :
    shownFrom opening (b :: bs) =
      (Reading.push ⟨[], opening⟩ b).segments.reverse.flatMap Segment.shown ++
        shownFrom (Reading.push ⟨[], opening⟩ b).opening bs := by
  rw [shownFrom, List.foldl_cons, flatMap_shown_finish]

theorem shownFrom_single (h : lead b = .single) (bs : Bytes) :
    shownFrom none (b :: bs) = [b] ++ shownFrom none bs := by
  rw [shownFrom_cons]
  simp only [Reading.push, Reading.start, h]
  rfl

theorem shownFrom_opens (h : lead b = .opens o) (bs : Bytes) :
    shownFrom none (b :: bs) = shownFrom (some o) bs := by
  rw [shownFrom_cons]
  simp only [Reading.push, Reading.start, h]
  rfl

theorem shownFrom_stray (h : lead b = .stray) (bs : Bytes) :
    shownFrom none (b :: bs) = replacement ++ shownFrom none bs := by
  rw [shownFrom_cons]
  simp only [Reading.push, Reading.start, h]
  rfl

theorem shownFrom_last (hb : o.low ≤ b ∧ b ≤ o.high) (hafter : o.after = 0) (bs : Bytes) :
    shownFrom (some o) (b :: bs) = o.seen ++ [b] ++ shownFrom none bs := by
  rw [shownFrom_cons]
  simp only [Reading.push, hb, hafter]
  simp [Segment.shown]

theorem shownFrom_next (hb : o.low ≤ b ∧ b ≤ o.high) (hafter : o.after = n + 1) (bs : Bytes) :
    shownFrom (some o) (b :: bs) = shownFrom (some ⟨o.seen ++ [b], n, 0x80, 0xbf⟩) bs := by
  rw [shownFrom_cons]
  simp only [Reading.push, hb, hafter]
  rfl

/-- A byte that does not go on with the open sequence is read as if none had been open. -/
theorem shownFrom_broken (hb : ¬(o.low ≤ b ∧ b ≤ o.high)) (bs : Bytes) :
    shownFrom (some o) (b :: bs) = replacement ++ shownFrom none (b :: bs) := by
  rw [shownFrom_cons, shownFrom_cons]
  simp only [Reading.push, hb, if_false]
  rw [Reading.start_eq, List.reverse_append, List.flatMap_append, List.append_assoc]
  rfl

end

/-- The run lemma: behind a sound opening the reader finds the text of the bytes seen and
    those to come. -/
theorem repairs_shownFrom (bs : Bytes) :
    Repairs bs (shownFrom none bs) ∧
      ∀ o : Opening, o.Sound → Repairs (o.seen ++ bs) (shownFrom (some o) bs) := by
  induction bs with
  | nil =>
    refine ⟨.nil, fun o ho => ?_⟩
    refine .subpart (.of_stuck ho.started (.inl ho.begins) ho.not_complete ?_) .nil
    intro x more hnil
    cases hnil
  | cons b bs ih =>
    obtain ⟨ihnone, ihsome⟩ := ih
    -- With nothing open the byte leads; an opening that it breaks needs this too.
    have hfresh : Repairs (b :: bs) (shownFrom none (b :: bs)) := by
      cases hlead : lead b with
      | single =>
        rw [shownFrom_single hlead]
        have hb : IsSequence [b] := isSequence_cons_iff.mpr (by rw [hlead]; rfl)
        exact .character hb ihnone
      | opens o =>
        obtain ⟨hseen, ho⟩ := sound_of_lead hlead
        have hrest := ihsome o ho
        rwa [hseen, List.singleton_append, ← shownFrom_opens hlead] at hrest
      | stray =>
        have hnone (tail : Bytes) : ¬ IsSequence (b :: tail) := by
          rw [isSequence_cons_iff, hlead]
          exact id
        have hbyte : MaximalSubpart [b] bs := by
          refine .of_byte (hnone []) ?_
          rintro x more - ⟨tail, htail⟩
          exact hnone (x :: tail) htail
        rw [shownFrom_stray hlead]
        exact .subpart hbyte ihnone
    refine ⟨hfresh, fun o ho => ?_⟩
    by_cases hb : o.low ≤ b ∧ b ≤ o.high
    · cases hafter : o.after with
      | zero =>
        rw [shownFrom_last hb hafter, ← List.singleton_append, ← List.append_assoc]
        exact .character (ho.isSequence hb hafter) ihnone
      | succ n =>
        have hrest := ihsome _ (ho.next hb hafter)
        rw [← shownFrom_next hb hafter] at hrest
        simpa using hrest
    · rw [shownFrom_broken hb]
      refine .subpart (.of_stuck ho.started (.inl ho.begins) ho.not_complete ?_) hfresh
      intro x more heq
      obtain ⟨rfl, -⟩ := List.cons.inj heq
      exact ho.not_begins hb

theorem repairs_repair (bs : Bytes) : Repairs bs (repair bs) := (repairs_shownFrom bs).1

/-! ## The laws of display -/

theorem repairs_iff {bs out : Bytes} : Repairs bs out ↔ out = repair bs := by
  constructor
  · intro h
    exact h.unique (repairs_repair bs)
  · rintro rfl
    exact repairs_repair bs

theorem wellFormed_repair (bs : Bytes) : WellFormed (repair bs) := (repairs_repair bs).wellFormed

/-- Well-formed text is kept in front of whatever follows. -/
theorem repair_append {text : Bytes} (h : WellFormed text) (bs : Bytes) :
    repair (text ++ bs) = text ++ repair bs := by
  obtain ⟨cs, rfl⟩ := h
  exact (repairs_iff.mp ((repairs_repair bs).encode_append cs)).symm

theorem repair_eq_self_iff {bs : Bytes} : repair bs = bs ↔ WellFormed bs := by
  constructor
  · intro h
    rw [← h]
    exact wellFormed_repair bs
  · intro h
    have hkept := repair_append h []
    rwa [List.append_nil, show repair [] = [] from rfl, List.append_nil] at hkept

theorem repair_subpart {part rest : Bytes} (h : MaximalSubpart part rest) :
    repair (part ++ rest) = replacement ++ repair rest :=
  (repairs_iff.mp (.subpart h (repairs_repair rest))).symm

/-- Continuation bytes where none is due are replaced one by one. -/
theorem repair_continues {ys : Bytes} (h : ∀ y ∈ ys, Continues y) (bs : Bytes) :
    repair (ys ++ bs) = (List.replicate ys.length replacement).flatten ++ repair bs := by
  induction ys with
  | nil => rfl
  | cons y ys ih =>
    obtain ⟨hy, hys⟩ := List.forall_mem_cons.mp h
    have hstray : lead y = .stray := by
      rw [continues_iff] at hy
      exact lead_stray hy.1 (.inl (by omega))
    have hfirst : repair (y :: (ys ++ bs)) = replacement ++ repair (ys ++ bs) :=
      shownFrom_stray hstray (ys ++ bs)
    rw [List.cons_append, hfirst, ih hys, List.length_cons, List.replicate_succ,
      List.flatten_cons, List.append_assoc]

/-- Every byte of a misspelled number is replaced. -/
theorem Misspells.repair_eq {count n : Nat} (h : Misspells count n) (bs : Bytes) :
    repair (spelled count n ++ bs) =
      (List.replicate (count + 1) replacement).flatten ++ repair bs := by
  obtain ⟨b, x, rest, hspelled, hlength, hcontinue, hsingle, hnone⟩ := h.split
  have hpart : MaximalSubpart [b] (x :: rest ++ bs) := by
    refine .of_byte hsingle ?_
    intro y more heq
    obtain ⟨rfl, -⟩ := List.cons.inj heq
    rintro ⟨tail, htail⟩
    exact hnone tail htail
  rw [hspelled, ← List.singleton_append, List.append_assoc, repair_subpart hpart,
    repair_continues hcontinue, List.length_cons, hlength, List.replicate_succ, List.flatten_cons,
    List.append_assoc]

end Utf8

namespace Host

variable {host : Host} {a b : Handle} {s t : Block}

/-- A string is displayed as this text. -/
def Displays (host : Host) (h : Handle) (text : Bytes) : Prop :=
  host.serve (.query (.display h)) = some (.bytes text, host)

theorem displays (ha : host.store.block? a = some s) : host.Displays a s.display := by
  simp only [Displays, serve, Query.answer, Query.about, ha]

/-- A string is displayed as its content with every maximal subpart that is no text replaced,
    and as nothing else. The display is well-formed, and it is the content if and only if the
    content is well-formed; so a string made of what was displayed is displayed as it is.
    Well-formed content that another string is appended to stands in front of the display of
    that string. In misspelled numbers, which are those spelled too long, surrogates and those
    that are too large, every byte is replaced. -/
theorem display_repairs (ha : host.store.block? a = some s) (hb : host.store.block? b = some t)
    (hs : s.WellFormed) (ht : t.WellFormed) :
    host.Displays a s.display ∧ (∀ out, Utf8.Repairs s.content out ↔ out = s.display) ∧
      Utf8.WellFormed s.display ∧ (s.display = s.content ↔ Utf8.WellFormed s.content) ∧
      (host.MakesOrAborts (.ofBytes s.display) s.display fun p after =>
        after.Displays p.handle s.display) ∧
      (Utf8.WellFormed s.content →
        host.MakesOrAborts (.append a b) (s.content ++ t.content) fun p after =>
          after.Displays p.handle (s.content ++ t.display)) ∧
      ∀ text count n rest, Utf8.WellFormed text → Utf8.Misspells count n →
        s.content = text ++ (Utf8.spelled count n ++ rest) →
        s.display = text ++
          ((List.replicate (count + 1) Utf8.replacement).flatten ++ Utf8.repair rest) := by
  refine ⟨displays ha, fun out => Utf8.repairs_iff, Utf8.wellFormed_repair _,
    Utf8.repair_eq_self_iff, ?_, ?_, ?_⟩
  · refine makesOrAborts_of_copies rfl fun _ p after hp hgains => ?_
    have hdisplay : p.block.display = s.display := by
      rw [Block.display, hp]
      exact Utf8.repair_eq_self_iff.mpr (Utf8.wellFormed_repair _)
    rw [← hdisplay]
    exact displays hgains.found
  · intro htext
    refine makesOrAborts_of_copies (Construction.copies_append ha hb hs ht)
      fun _ p after hp hgains => ?_
    have hdisplay : p.block.display = s.content ++ t.display := by
      rw [Block.display, hp]
      exact Utf8.repair_append htext _
    rw [← hdisplay]
    exact displays hgains.found
  · intro text count n rest htext hmisspells hcontent
    rw [Block.display, hcontent, Utf8.repair_append htext, hmisspells.repair_eq]

/-- A host with two strings: an accented letter, and a plain one before a surrogate and two
    of the three bytes of a character. -/
def cutsCharacter : Host where
  store.cells := [⟨.ofContent [0xc3, 0xa9], .host⟩,
    ⟨.ofContent [0x41, 0xed, 0xa0, 0x80, 0xe2, 0x82], .foreign⟩]
  store.handles := [0, 1]

theorem display_repairs_cutsCharacter :
    cutsCharacter.Displays 0 [0xc3, 0xa9] ∧
      (∃ p after, cutsCharacter.serve (.construct (.append 0 1)) = some (.string p, after) ∧
        after.Displays p.handle
          ([0xc3, 0xa9] ++ 0x41 :: (List.replicate 4 Utf8.replacement).flatten)) ∧
      (∃ p after, cutsCharacter.serve (.construct (.ofBytes [0xc3, 0xa9])) =
        some (.string p, after) ∧ after.Displays p.handle [0xc3, 0xa9]) ∧
      cutsCharacter.Displays 1 (0x41 :: (List.replicate 4 Utf8.replacement).flatten) := by
  have hfirst : cutsCharacter.store.block? 0 = some (.ofContent [0xc3, 0xa9]) := rfl
  have hsecond : cutsCharacter.store.block? 1 =
      some (.ofContent [0x41, 0xed, 0xa0, 0x80, 0xe2, 0x82]) := rfl
  have haccent : (Block.ofContent [0xc3, 0xa9]).content = [0xc3, 0xa9] := by decide +kernel
  have hcut : (Block.ofContent [0x41, 0xed, 0xa0, 0x80, 0xe2, 0x82]).content =
      [0x41, 0xed, 0xa0, 0x80, 0xe2, 0x82] := by decide +kernel
  have hwell : (Block.ofContent [0xc3, 0xa9]).WellFormed := ⟨_, by decide, rfl⟩
  have hother : (Block.ofContent [0x41, 0xed, 0xa0, 0x80, 0xe2, 0x82]).WellFormed :=
    ⟨_, by decide, rfl⟩
  have htext : Utf8.WellFormed (Block.ofContent [0xc3, 0xa9]).content := by
    rw [haccent]
    exact ⟨[Char.ofNat 0xe9], by decide⟩
  obtain ⟨hshown, -, -, hsame, hagain, happend, -⟩ :=
    display_repairs hfirst hsecond hwell hother
  obtain ⟨hshown', -, -, -, -, -, hmisspelled⟩ := display_repairs hsecond hfirst hother hwell
  have hdisplay := hmisspelled [0x41] 2 0xd800 [0xe2, 0x82] ⟨['A'], by decide⟩
    ⟨by decide, by decide, by decide, .inr (by decide)⟩ (by rw [hcut]; decide)
  rw [hsame.mpr htext, haccent] at hshown hagain
  rw [hdisplay] at hshown'
  obtain ⟨p, after, hserve, -, -, hp⟩ := (happend htext).makes (by decide +kernel)
  obtain ⟨q, after', hserve', -, -, hq⟩ := hagain.makes (by decide)
  rw [hdisplay, haccent] at hp
  exact ⟨hshown, ⟨p, after, hserve, hp⟩, ⟨q, after', hserve', hq⟩, hshown'⟩

end Host

end ProgramHost
