/-
  ProgramHost.Proofs.Slicing

  Ranges of appended strings, and ranges of ranges.

  A range of two strings put together lies in the first, lies in the second, or reaches
  over the place where they meet; it is then made of the end of the first and the start of
  the second (`between_append_left`, `between_append_right`, `between_append_across`). A
  range of a range is a range of the whole (`between_between`). `Block.Encloses` counts
  both ends in, so the first string ends at its length less one.

  `Host.ranges_fit_together` says this of the requests: every request that it names is
  answered with a string, because the strings that it is about were made before.
-/

import ProgramHost.Proofs.Constructions

namespace ProgramHost

/-! ## Byte strings -/

section

variable {as bs : Bytes} {first last : Nat}

theorem between_append_left (hle : first ≤ last) (hlast : last < as.length) :
    between (as ++ bs) first last = between as first last := by
  rw [between, between, List.drop_append_of_le_length (by omega), List.take_append_of_le_length]
  rw [List.length_drop]
  omega

theorem between_append_right (hfirst : as.length ≤ first) (hle : first ≤ last) :
    between (as ++ bs) first last = between bs (first - as.length) (last - as.length) := by
  have hnone : as.drop first = [] := List.drop_of_length_le hfirst
  have hcount : last + 1 - first = last - as.length + 1 - (first - as.length) := by omega
  rw [between, between, List.drop_append, hnone, List.nil_append, hcount]

/-- Over the place where two byte strings meet, all of the first is taken that is left
    there, and the rest from the start of the second. -/
theorem between_append_across (hfirst : first < as.length) (hlast : as.length ≤ last) :
    between (as ++ bs) first last =
      between as first (as.length - 1) ++ between bs 0 (last - as.length) := by
  have hend : as.length - 1 + 1 - first = (as.drop first).length := by
    rw [List.length_drop]
    omega
  have hall : (as.drop first).length ≤ last + 1 - first := by
    rw [List.length_drop]
    omega
  have hrest : last + 1 - first - (as.drop first).length = last - as.length + 1 - 0 := by
    rw [List.length_drop]
    omega
  rw [between, between, between, List.drop_append_of_le_length (by omega), List.take_append,
    List.take_of_length_le hall, hrest, hend, List.take_length, List.drop_zero]

theorem between_between {first' last' : Nat} (hinside : first + last' ≤ last) :
    between (between bs first last) first' last' = between bs (first + first') (first + last') := by
  have hcount : first + last' + 1 - (first + first') = last' + 1 - first' := by omega
  have hmin : min (last' + 1 - first') (last + 1 - first - first') = last' + 1 - first' := by omega
  rw [between, between, between, List.drop_take, List.take_take, List.drop_drop, hcount, hmin]

end

/-! ## Strings -/

namespace Block

variable {s t c p : Block} {l r l' r' : Int64}

/-- A place behind the end of a string, counted from there. -/
theorem WellFormed.toInt_sub_length (h : s.WellFormed) (hr : s.content.length ≤ r.toInt) :
    (r - s.length).toInt = r.toInt - s.content.length := by
  have hlength := h.coherent.length
  rw [toInt_sub_of_le (by omega) (by omega), hlength]

/-- The last place of a string that is not empty. -/
theorem WellFormed.toInt_length_sub_one (h : s.WellFormed) (hne : 0 < s.content.length) :
    (s.length - 1).toInt = s.content.length - 1 := by
  have hlength := h.coherent.length
  have hone : (1 : Int64).toInt = 1 := Int64.toInt_one
  rw [toInt_sub_of_le (by omega) (by omega), hlength, hone]

section

variable (hs : s.WellFormed) (hc : c.content = s.content ++ t.content) (hrange : c.Encloses l r)

include hc hrange

theorem slice_in_first (hr : r.toInt < s.content.length) :
    s.Encloses l r ∧ c.slice l r = s.slice l r := by
  obtain ⟨hl, hle, -⟩ := hrange
  refine ⟨⟨hl, hle, hr⟩, ?_⟩
  rw [slice, slice, hc]
  exact between_append_left (by omega) (by omega)

include hs

theorem slice_in_second (hl : s.content.length ≤ l.toInt) :
    t.Encloses (l - s.length) (r - s.length) ∧
      c.slice l r = t.slice (l - s.length) (r - s.length) := by
  obtain ⟨hnonneg, hle, hr⟩ := hrange
  rw [hc, List.length_append] at hr
  have hfirst := hs.toInt_sub_length hl
  have hlast := hs.toInt_sub_length (Int.le_trans hl hle)
  refine ⟨⟨by omega, by omega, by omega⟩, ?_⟩
  rw [slice, slice, hc, hfirst, hlast, Int.toNat_sub', Int.toNat_sub']
  exact between_append_right (by omega) (by omega)

theorem slice_across (hl : l.toInt < s.content.length) (hr : s.content.length ≤ r.toInt) :
    s.Encloses l (s.length - 1) ∧ t.Encloses 0 (r - s.length) ∧
      c.slice l r = s.slice l (s.length - 1) ++ t.slice 0 (r - s.length) := by
  obtain ⟨hnonneg, hle, hend⟩ := hrange
  rw [hc, List.length_append] at hend
  have hzero : (0 : Int64).toInt = 0 := Int64.toInt_zero
  -- A place lies in the first string, so that is not empty and has a last one.
  have hlast := hs.toInt_length_sub_one (by omega)
  have hrest := hs.toInt_sub_length hr
  refine ⟨⟨hnonneg, by omega, by omega⟩, ⟨by omega, by omega, by omega⟩, ?_⟩
  have hmeet : ((s.content.length : Int) - 1).toNat = s.content.length - 1 := by omega
  rw [slice, slice, slice, hc, hlast, hrest, hzero, hmeet, Int.toNat_sub', Int.toNat_zero]
  exact between_append_across (by omega) (by omega)

end

/-- A range of a range is a range of the whole, and the places in it are exact. -/
theorem slice_of_slice (hs : s.WellFormed) (hrange : s.Encloses l r)
    (hp : p.content = s.slice l r) (hinner : p.Encloses l' r') :
    (l + l').toInt = l.toInt + l'.toInt ∧ (l + r').toInt = l.toInt + r'.toInt ∧
      s.Encloses (l + l') (l + r') ∧ p.slice l' r' = s.slice (l + l') (l + r') := by
  have hlength := length_slice hrange
  obtain ⟨hl, hle, hr⟩ := hrange
  obtain ⟨hl', hle', hr'⟩ := hinner
  rw [hp, hlength] at hr'
  have hlt := hs.length_content_lt
  have hfirst : (l + l').toInt = l.toInt + l'.toInt := toInt_add_of_lt hl hl' (by omega)
  have hlast : (l + r').toInt = l.toInt + r'.toInt := toInt_add_of_lt hl (by omega) (by omega)
  refine ⟨hfirst, hlast, ⟨by omega, by omega, by omega⟩, ?_⟩
  rw [slice, slice, hp, slice, hfirst, hlast, Int.toNat_add hl hl', Int.toNat_add hl (by omega)]
  exact between_between (by omega)

end Block

/-! ## Requests -/

namespace Host

variable {host : Host} {a b : Handle} {s t : Block}

theorem makes_range {content : Bytes} {l r : Int64} {post : Placement → Host → Prop}
    (ha : host.store.block? a = some s) (hs : s.WellFormed) (hrange : s.Encloses l r)
    (hcontent : content = s.slice l r) (hfits : content.length + 9 ≤ Layout.largest)
    (hpost : ∀ p after, p.block.content = content → host.Gains p after → post p after) :
    host.Makes (.range a l r) content post := by
  subst hcontent
  exact makes_of_copies (Construction.copies_range ha hs hrange) hfits hpost

/-- Ranges and appending fit together. A range of two strings put together, wherever it
    lies, has the content of a range of the first, of a range of the second, or of the end
    of the first and the start of the second put together. A range of a range has the
    content of a range of the whole. The first string is made if memory can hold it, and then
    all the others are. -/
theorem ranges_fit_together (ha : host.store.block? a = some s)
    (hb : host.store.block? b = some t) (hs : s.WellFormed) (ht : t.WellFormed) :
    (host.MakesOrAborts (.append a b) (s.content ++ t.content) fun c mid =>
      ∀ l r : Int64, 0 ≤ l.toInt → l.toInt ≤ r.toInt →
        r.toInt < s.content.length + t.content.length →
        mid.Makes (.range c.handle l r) (c.block.slice l r) ∧
          (r.toInt < s.content.length → mid.Makes (.range a l r) (c.block.slice l r)) ∧
          (s.content.length ≤ l.toInt →
            mid.Makes (.range b (l - s.length) (r - s.length)) (c.block.slice l r)) ∧
          (l.toInt < s.content.length → s.content.length ≤ r.toInt →
            mid.Makes (.range a l (s.length - 1)) (s.slice l (s.length - 1)) fun p left =>
              left.Makes (.range b 0 (r - s.length)) (t.slice 0 (r - s.length)) fun q right =>
                right.Makes (.append p.handle q.handle) (c.block.slice l r))) ∧
      ∀ l r : Int64, s.Encloses l r →
        host.MakesOrAborts (.range a l r) (s.slice l r) fun p mid =>
          ∀ l' r' : Int64, p.block.Encloses l' r' →
            (l + l').toInt = l.toInt + l'.toInt ∧ (l + r').toInt = l.toInt + r'.toInt ∧
              s.Encloses (l + l') (l + r') ∧
              mid.Makes (.range p.handle l' r') (p.block.slice l' r') ∧
              mid.Makes (.range a (l + l') (l + r')) (p.block.slice l' r') := by
  constructor
  · refine makesOrAborts_of_copies (Construction.copies_append ha hb hs ht)
      fun hfits c mid hc hmid l r hl hle hr => ?_
    have hrange : c.block.Encloses l r := by
      refine ⟨hl, hle, ?_⟩
      rw [hc, List.length_append]
      omega
    -- Whatever is taken from the two strings is not longer than both together.
    have hroom : (c.block.slice l r).length + 9 ≤ Layout.largest := by
      have hlength := c.block.length_slice_le l r
      rw [hc] at hlength
      omega
    have ha' := hmid.kept ha
    have hb' := hmid.kept hb
    refine ⟨makes_range hmid.found hmid.wellFormed hrange rfl hroom fun _ _ _ _ => trivial,
      fun hr => ?_, fun hl => ?_, fun hl hr => ?_⟩
    · obtain ⟨hinside, hsame⟩ := Block.slice_in_first hc hrange hr
      exact makes_range ha' hs hinside hsame hroom fun _ _ _ _ => trivial
    · obtain ⟨hinside, hsame⟩ := Block.slice_in_second hs hc hrange hl
      exact makes_range hb' ht hinside hsame hroom fun _ _ _ _ => trivial
    · obtain ⟨hleft, hright, hsame⟩ := Block.slice_across hs hc hrange hl hr
      have hlength := congrArg List.length hsame
      rw [List.length_append] at hlength
      refine makes_range ha' hs hleft rfl (by omega) fun p left hp hpart => ?_
      refine makes_range (hpart.kept hb') ht hright rfl (by omega) fun q right hq hother => ?_
      have hcopies := Construction.copies_append (hother.kept hpart.found) hother.found
        hpart.wellFormed hother.wellFormed
      rw [hp, hq, ← hsame] at hcopies
      exact makes_of_copies hcopies hroom fun _ _ _ _ => trivial
  · intro l r hrange
    refine makesOrAborts_of_copies (Construction.copies_range ha hs hrange)
      fun hfits p mid hp hmid l' r' hinner => ?_
    obtain ⟨hfirst, hlast, hinside, hsame⟩ := Block.slice_of_slice hs hrange hp hinner
    have hroom : (p.block.slice l' r').length + 9 ≤ Layout.largest := by
      have hlength := p.block.length_slice_le l' r'
      rw [hp] at hlength
      omega
    exact ⟨hfirst, hlast, hinside,
      makes_range hmid.found hmid.wellFormed hinner rfl hroom fun _ _ _ _ => trivial,
      makes_range (hmid.kept ha) hs hinside hsame hroom fun _ _ _ _ => trivial⟩

/-- A host with the strings `abc` and `de`. -/
def twoTexts : Host where
  store.cells := [⟨.ofContent [0x61, 0x62, 0x63], .host⟩, ⟨.ofContent [0x64, 0x65], .foreign⟩]
  store.handles := [0, 1]

theorem ranges_fit_together_twoTexts :
    (∃ c mid, twoTexts.serve (.construct (.append 0 1)) = some (.string c, mid) ∧
      mid.Makes (.range c.handle 2 3) [0x63, 0x64] ∧
      mid.Makes (.range 0 2 2) [0x63] fun p left =>
        left.Makes (.range 1 0 0) [0x64] fun q right =>
          right.Makes (.append p.handle q.handle) [0x63, 0x64]) ∧
      ∃ p mid, twoTexts.serve (.construct (.range 0 1 2)) = some (.string p, mid) ∧
        mid.Makes (.range p.handle 1 1) [0x63] ∧ mid.Makes (.range 0 2 2) [0x63] := by
  have hfirst : twoTexts.store.block? 0 = some (.ofContent [0x61, 0x62, 0x63]) := rfl
  have hsecond : twoTexts.store.block? 1 = some (.ofContent [0x64, 0x65]) := rfl
  have habc : (Block.ofContent [0x61, 0x62, 0x63]).content = [0x61, 0x62, 0x63] := by
    decide +kernel
  have hde : (Block.ofContent [0x64, 0x65]).content = [0x64, 0x65] := by decide +kernel
  have hlength : (Block.ofContent [0x61, 0x62, 0x63]).length = 3 := by decide +kernel
  obtain ⟨hjoined, hinner⟩ := ranges_fit_together hfirst hsecond ⟨_, by decide, rfl⟩
    ⟨_, by decide, rfl⟩
  constructor
  · obtain ⟨c, mid, hserve, hc, -, hranges⟩ := hjoined.makes (by decide +kernel)
    have hslice : c.block.slice 2 3 = [0x63, 0x64] := by
      rw [Block.slice, hc, habc, hde]
      decide
    rw [habc, hde, hlength] at hranges
    obtain ⟨hwhole, -, -, hparts⟩ := hranges 2 3 (by decide) (by decide) (by decide)
    have hacross := hparts (by decide) (by decide)
    rw [hslice] at hwhole hacross
    have hend : (Block.ofContent [0x61, 0x62, 0x63]).slice 2 (3 - 1) = [0x63] := by decide +kernel
    have hstart : (Block.ofContent [0x64, 0x65]).slice 0 (3 - 3) = [0x64] := by decide +kernel
    rw [hend, hstart] at hacross
    exact ⟨c, mid, hserve, hwhole, hacross⟩
  · have hrange : (Block.ofContent [0x61, 0x62, 0x63]).Encloses 1 2 := by
      rw [Block.Encloses, habc]
      decide
    obtain ⟨p, mid, hserve, hp, -, hranges⟩ := (hinner 1 2 hrange).makes (by decide +kernel)
    have hcontent : p.block.content = [0x62, 0x63] := by
      rw [hp, Block.slice, habc]
      decide
    have hslice : p.block.slice 1 1 = [0x63] := by
      rw [Block.slice, hcontent]
      decide
    have hlast : p.block.Encloses 1 1 := by
      rw [Block.Encloses, hcontent]
      decide
    obtain ⟨-, -, -, hpart, hwhole⟩ := hranges 1 1 hlast
    rw [hslice] at hpart hwhole
    exact ⟨p, mid, hserve, hpart, hwhole⟩

end Host

end ProgramHost
