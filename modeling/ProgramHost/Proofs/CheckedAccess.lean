/-
  ProgramHost.Proofs.CheckedAccess

  Checked access to a string accepts exactly what unchecked access asks for.

  The places that a caller gives are any words, also the ends of the word range, where
  differences of words wrap around. The contract keeps all of them away: inside it every
  word on the way is exact (`Block.WellFormed.exactRange`), and the checked request, the
  unchecked one and the call of compiled code are served alike. Outside it the checked
  request is refused with the places that were given, and the host stays as it was.

  `Host.ServesRange` and `Host.ServesByte` say what the requests come to, and
  `Host.access_meets_contract` that they do, for all strings and all words.
-/

import Mathlib.Data.Int.ModEq
import ProgramHost.Linkage
import ProgramHost.Proofs.Constructions

namespace ProgramHost

/-! ## Bytes with a sign -/

/-- A byte as a signed number: the word from -128 to 127 that is congruent to the byte. -/
structure SignedByte (b : UInt8) (word : Int64) : Prop where
  low : -128 ≤ word.toInt
  high : word.toInt ≤ 127
  congruent : word.toInt ≡ b.toNat [ZMOD 256]

theorem signedByte_toInt8 (b : UInt8) : SignedByte b b.toInt8.toInt64 := by
  have hlow := b.toInt8.le_toInt
  have hhigh := b.toInt8.toInt_lt
  have hbyte : b.toInt8 = Int8.ofNat b.toNat := by
    rw [← UInt8.toInt8_ofNat', UInt8.ofNat_toNat]
  refine ⟨?_, ?_, ?_⟩
  · rw [Int8.toInt_toInt64]
    omega
  · rw [Int8.toInt_toInt64]
    omega
  · rw [Int8.toInt_toInt64, hbyte, Int8.toInt_ofNat']
    exact Int.bmod_emod

/-! ## Blocks -/

namespace Block

/-- An index lies in the content. -/
def Contains (s : Block) (index : Int64) : Prop :=
  0 ≤ index.toInt ∧ index.toInt < s.content.length

/-- A content is that of a range of a string, both ends included. -/
structure IsRange (s : Block) (left right : Int64) (content : Bytes) : Prop where
  length : (content.length : Int) = right.toInt - left.toInt + 1
  byte : ∀ i < content.length, content[i]? = s.content[left.toInt.toNat + i]?

variable {s : Block} {left right index : Int64}

/-- The contract of an index compares words; it is a matter of integers. -/
theorem WellFormed.hasIndex_iff (h : s.WellFormed) : s.HasIndex index ↔ s.Contains index := by
  rw [HasIndex, Contains, Int64.le_iff_toInt_le, Int64.lt_iff_toInt_lt, h.coherent.length,
    Int64.toInt_zero]

/-- Inside the contract the byte at an index is a byte of the content. -/
theorem WellFormed.byteAtUnchecked_eq (h : s.WellFormed) (hindex : s.Contains index) :
    ∃ b, s.content[index.toInt.toNat]? = some b ∧
      s.byteAtUnchecked index = b.toInt8.toInt64 := by
  obtain ⟨hlow, hhigh⟩ := hindex
  have hlt : index.toInt.toNat < s.content.length := by omega
  -- The byte is read from the memory behind the length, where the content comes first.
  refine ⟨s.content[index.toInt.toNat], List.getElem?_eq_getElem hlt, ?_⟩
  rw [byteAtUnchecked, toNat_toUInt64 hlow, h.body_eq, List.getD_eq_getElem?_getD,
    List.getElem?_append_left hlt, List.getElem?_eq_getElem hlt, Option.getD_some]

theorem isRange_slice (hrange : s.Encloses left right) :
    s.IsRange left right (s.slice left right) := by
  have hlength := length_slice hrange
  obtain ⟨hleft, hle, hright⟩ := hrange
  refine ⟨by omega, fun i hi => ?_⟩
  rw [hlength] at hi
  exact getElem?_between s.content hi

/-- A range of a string that memory holds finds room in memory. -/
theorem IsRange.fits {content : Bytes} (h : s.IsRange left right content) (hs : s.WellFormed)
    (hrange : s.Encloses left right) (hheld : s.memory.length ≤ Layout.largest) :
    content.length + 9 ≤ Layout.largest := by
  have hlength := h.length
  obtain ⟨hleft, hle, hright⟩ := hrange
  rw [hs.coherent.memory, List.length_append, List.length_append, LittleEndian.length_ofWord,
    List.length_singleton] at hheld
  omega

end Block

/-! ## Requests -/

namespace Host

/-- What the requests for a range of a string come to. -/
structure ServesRange (host : Host) (h : Handle) (s : Block) (left right : Int64) : Prop where
  /-- Inside the contract a string is made of the bytes in the range, if memory can hold
      it. -/
  made : s.Encloses left right →
    ∃ content, s.IsRange left right content ∧ host.MakesOrAborts (.range h left right) content
  /-- No word on the way to it wraps around. -/
  words : s.Encloses left right → s.ExactRange left right
  /-- The unchecked request is served alike. -/
  unchecked : s.Encloses left right →
    host.serve (.construct (.rangeUnchecked h left right)) =
      host.serve (.construct (.range h left right))
  /-- The call of compiled code is served alike. -/
  called : s.Encloses left right →
    host.serve (MemoryCall.substring h left right).request =
      host.serve (.construct (.range h left right))
  /-- Outside the contract the range is refused as it was given, and nothing changes. -/
  refused : ¬ s.Encloses left right →
    host.serve (.construct (.range h left right)) =
      some (.refused (.invalidRange left right s.length), host)
  /-- A string is given for the ranges in the contract only, and for all of them if memory
      holds the string that they are taken from. -/
  accepted_iff : s.memory.length ≤ Layout.largest →
    ((∃ p after, host.serve (.construct (.range h left right)) = some (.string p, after)) ↔
      s.Encloses left right)

/-- What the requests for a byte of a string come to. -/
structure ServesByte (host : Host) (h : Handle) (s : Block) (index : Int64) : Prop where
  /-- Inside the contract all three give the byte of the content with its sign. -/
  given : s.Contains index → ∃ b n, s.content[index.toInt.toNat]? = some b ∧ SignedByte b n ∧
    host.serve (.query (.byteAt h index)) = some (.int n, host) ∧
    host.serve (.query (.byteAtUnchecked h index)) = some (.int n, host) ∧
    host.serve (MemoryCall.ord h index).request = some (.int n, host)
  /-- Outside the contract the index is refused as it was given, and nothing changes. -/
  refused : ¬ s.Contains index →
    host.serve (.query (.byteAt h index)) =
      some (.refused (.indexOutOfRange index s.length), host)
  accepted_iff :
    (∃ n after, host.serve (.query (.byteAt h index)) = some (.int n, after)) ↔ s.Contains index

variable {host : Host} {h : Handle} {s : Block} {left right index : Int64}

theorem serve_range_refused (hblock : host.store.block? h = some s) (hs : s.WellFormed)
    (hrange : ¬ s.Encloses left right) :
    host.serve (.construct (.range h left right)) =
      some (.refused (.invalidRange left right s.length), host) := by
  have hcheck : s.checkRange left right = .error (.invalidRange left right s.length) :=
    if_neg (mt hs.hasRange_iff.mp hrange)
  simp only [serve, Construction.run, Construction.makeFrom, hblock, hcheck, Option.map_some,
    Construction.events_refused, tell_nil]

theorem serve_rangeUnchecked (hblock : host.store.block? h = some s) (hs : s.WellFormed)
    (hrange : s.Encloses left right) :
    host.serve (.construct (.rangeUnchecked h left right)) =
      host.serve (.construct (.range h left right)) := by
  have hcontract := hs.hasRange_iff.mpr hrange
  have hcheck : s.checkRange left right = .ok () := if_pos hcontract
  simp only [serve, Construction.run, Construction.makeFrom, hblock, hcheck, if_pos hcontract,
    Construction.events_rangeUnchecked]

theorem servesRange (hblock : host.store.block? h = some s) (hs : s.WellFormed)
    (left right : Int64) : host.ServesRange h s left right := by
  refine ⟨fun hrange => ?_, hs.exactRange, serve_rangeUnchecked hblock hs,
    serve_rangeUnchecked hblock hs, serve_range_refused hblock hs, fun hheld => ⟨?_, ?_⟩⟩
  · exact ⟨_, Block.isRange_slice hrange,
      makesOrAborts_of_copies (Construction.copies_range hblock hs hrange)
        fun _ _ _ _ _ => trivial⟩
  · rintro ⟨p, after, hserve⟩
    by_contra hrange
    rw [serve_range_refused hblock hs hrange] at hserve
    cases hserve
  · intro hrange
    have hfits := (Block.isRange_slice hrange).fits hs hrange hheld
    obtain ⟨p, after, hserve, -⟩ : host.Makes (.range h left right) _ :=
      makes_of_copies (Construction.copies_range hblock hs hrange) hfits fun _ _ _ _ => trivial
    exact ⟨p, after, hserve⟩

theorem serve_byteAt_refused (hblock : host.store.block? h = some s) (hs : s.WellFormed)
    (hindex : ¬ s.Contains index) :
    host.serve (.query (.byteAt h index)) =
      some (.refused (.indexOutOfRange index s.length), host) := by
  have hcheck : s.byteAt index = .error (.indexOutOfRange index s.length) :=
    if_neg (mt hs.hasIndex_iff.mp hindex)
  simp only [serve, Query.answer, Query.about, hblock, hcheck, Answer.ofExcept]

theorem serve_byteAt_given (hblock : host.store.block? h = some s) (hs : s.WellFormed)
    (hindex : s.Contains index) :
    host.serve (.query (.byteAt h index)) = some (.int (s.byteAtUnchecked index), host) ∧
      host.serve (.query (.byteAtUnchecked h index)) =
        some (.int (s.byteAtUnchecked index), host) := by
  have hcontract := hs.hasIndex_iff.mpr hindex
  have hcheck : s.byteAt index = .ok (s.byteAtUnchecked index) := if_pos hcontract
  constructor
  · simp only [serve, Query.answer, Query.about, hblock, hcheck, Answer.ofExcept]
  · simp only [serve, Query.answer, Query.about, hblock, if_pos hcontract]

theorem servesByte (hblock : host.store.block? h = some s) (hs : s.WellFormed)
    (index : Int64) : host.ServesByte h s index := by
  refine ⟨fun hindex => ?_, serve_byteAt_refused hblock hs, ?_, fun hindex => ?_⟩
  · obtain ⟨b, hb, hbyte⟩ := hs.byteAtUnchecked_eq hindex
    obtain ⟨hchecked, hunchecked⟩ := serve_byteAt_given hblock hs hindex
    rw [hbyte] at hchecked hunchecked
    -- A call of compiled code makes the unchecked request.
    exact ⟨b, b.toInt8.toInt64, hb, signedByte_toInt8 b, hchecked, hunchecked, hunchecked⟩
  · rintro ⟨n, after, hserve⟩
    by_contra hindex
    rw [serve_byteAt_refused hblock hs hindex] at hserve
    cases hserve
  · exact ⟨_, host, (serve_byteAt_given hblock hs hindex).1⟩

/-- Checked access to a string accepts exactly the contract of unchecked access, for all
    words that a caller can give. A range or an index in the content is served like the
    unchecked request and the call of compiled code, without a word that wraps around; any
    other is refused with the words given and the length, and nothing changes. -/
theorem access_meets_contract (hblock : host.store.block? h = some s) (hs : s.WellFormed) :
    s.length.toInt = s.content.length ∧
      (∀ left right, host.ServesRange h s left right) ∧
      ∀ index, host.ServesByte h s index :=
  ⟨hs.coherent.length, servesRange hblock hs, servesByte hblock hs⟩

/-- A string that compiled code laid out: a letter, a byte above the ASCII range, a zero
    byte and a letter. -/
def mixed : Block := .ofContent [0x61, 0xff, 0, 0x62]

/-- A host with that string. -/
def holdsMixed : Host where
  store.cells := [⟨mixed, .foreign⟩]
  store.handles := [0]

theorem access_meets_contract_holdsMixed :
    holdsMixed.store.block? 0 = some mixed ∧
      (∃ p after, holdsMixed.serve (.construct (.range 0 1 2)) = some (.string p, after)) ∧
      holdsMixed.serve (.construct (.range 0 Int64.maxValue Int64.minValue)) =
        some (.refused (.invalidRange Int64.maxValue Int64.minValue 4), holdsMixed) ∧
      holdsMixed.serve (.query (.byteAt 0 4)) =
        some (.refused (.indexOutOfRange 4 4), holdsMixed) ∧
      ∃ n, SignedByte 0xff n ∧ n.toInt = -1 ∧
        holdsMixed.serve (.query (.byteAt 0 1)) = some (.int n, holdsMixed) := by
  have hblock : holdsMixed.store.block? 0 = some mixed := rfl
  have hcontent : mixed.content = [0x61, 0xff, 0, 0x62] := by decide +kernel
  have hlength : mixed.length = 4 := by decide +kernel
  obtain ⟨-, hrange, hbyte⟩ := access_meets_contract hblock ⟨_, by decide, rfl⟩
  have hinside : mixed.Encloses 1 2 := by
    rw [Block.Encloses, hcontent]
    decide
  have hreversed : ¬ mixed.Encloses Int64.maxValue Int64.minValue := by
    rw [Block.Encloses, hcontent]
    decide
  have hbehind : ¬ mixed.Contains 4 := by
    rw [Block.Contains, hcontent]
    decide
  have hsecond : mixed.Contains 1 := by
    rw [Block.Contains, hcontent]
    decide
  refine ⟨hblock, ((hrange 1 2).accepted_iff (by decide +kernel)).mpr hinside, ?_, ?_, ?_⟩
  · rw [(hrange _ _).refused hreversed, hlength]
  · rw [(hbyte 4).refused hbehind, hlength]
  · obtain ⟨b, n, hb, hn, hgiven, -⟩ := (hbyte 1).given hsecond
    obtain rfl : 0xff = b := by simpa [hcontent] using hb
    -- The bounds leave one number that is congruent to the byte.
    have hvalue : n.toInt = -1 := by
      have hmod : n.toInt % 256 = 255 := hn.congruent
      have hlow := hn.low
      have hhigh := hn.high
      omega
    exact ⟨n, hn, hvalue, hgiven⟩

end Host

end ProgramHost
