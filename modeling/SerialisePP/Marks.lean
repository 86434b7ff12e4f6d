import SerialisePP.Layout
import SerialisePP.Reading

/-!
# What is stored, and what it takes to store it

The marks of a layout against the memory that holds it. If every mark is within the limits of
the format (`SerialisePP.Mark.Fits`), then every mark is there to be read back: the numbers
in the memory are the counts, the indices and the offsets themselves, not truncations of them
(`SerialisePP.layout_tells`).
-/

namespace SerialisePP

open LittleEndian Region TwoSection

variable {P : Platform} {mem : List UInt8} {pos : ℕ}

/-! ### Marks within the limits -/

/-- A mark that the format can represent. -/
def Mark.Fits (k : Mark) : Prop := ¬k.TooBig ∧ k ≠ .valueless

/-- Marks none of which is that of a present optional at the very end of the address space. -/
def Unwrapped (P : Platform) (marks : List Mark) : Prop := ∀ k ∈ marks, ¬k.Wraps P

instance (k : Mark) : Decidable (k.Wraps P) :=
  match k with
  | .elements _ _ _ => inferInstanceAs (Decidable False)
  | .optional _ start => inferInstanceAs (Decidable (P.sizeRange ≤ start + 1))
  | .variant _ _ _ => inferInstanceAs (Decidable False)
  | .valueless => inferInstanceAs (Decidable False)

instance (marks : List Mark) : Decidable (Unwrapped P marks) :=
  inferInstanceAs (Decidable (∀ k ∈ marks, ¬k.Wraps P))

/-- **An accepted mark fits**, unless its offset has wrapped around. -/
theorem Mark.fits_of_failure_eq_none {k : Mark} (h : k.failure P = none) (hw : ¬k.Wraps P) :
    k.Fits := by
  cases k with
  | elements p count start =>
    refine ⟨?_, nofun⟩
    rintro (hbig | hbig)
    · exact absurd (h.symm.trans (if_pos hbig)) nofun
    · rw [failure] at h
      split_ifs at h
  | optional p start =>
    refine ⟨fun hbig => ?_, nofun⟩
    have hlt : maxDataOffset < start + 1 := hbig
    have hwrap : P.wrap (start + 1) = start + 1 := Platform.wrap_of_lt (not_le.mp hw)
    rw [failure, hwrap, if_pos hlt] at h
    contradiction
  | variant p index start =>
    exact ⟨fun hbig => absurd (h.symm.trans (if_pos hbig)) nofun, nofun⟩
  | valueless => exact absurd h nofun

/-- The exceptions of marks: `object_size_error` if the mark is too big, and
`std::bad_variant_access` if there is nothing to store. -/
theorem Mark.of_failure_eq_some {k : Mark} {x : Exn} (h : k.failure P = some x) :
    k.TooBig ∧ x.isObjectSizeError = true ∨ k = .valueless ∧ x = .badVariantAccess := by
  cases k with
  | elements p count start =>
    rw [failure] at h
    split_ifs at h with hcount hstart
    · obtain rfl := Option.some.inj h
      exact .inl ⟨.inl hcount, rfl⟩
    · obtain rfl := Option.some.inj h
      exact .inl ⟨.inr hstart, rfl⟩
  | optional p start =>
    rw [failure] at h
    split_ifs at h with hbig
    obtain rfl := Option.some.inj h
    exact .inl ⟨hbig.trans_le (Nat.mod_le _ _), rfl⟩
  | variant p index start =>
    rw [failure] at h
    split_ifs at h with hbig
    obtain rfl := Option.some.inj h
    exact .inl ⟨hbig, rfl⟩
  | valueless => exact .inr ⟨rfl, (Option.some.inj h).symm⟩

/-! ### Numbers in the memory -/

/-- **A mark that can be read back.** -/
def Mark.Stored (mem : List UInt8) : Mark → Prop
  | .elements pos count start =>
    numberAt mem pos 4 = count ∧ numberAt mem (pos + 4) 4 = if 0 < count then start else 0
  | .optional pos start => numberAt mem pos 4 = start + 1
  | .variant pos index start => numberAt mem pos 2 = index ∧ numberAt mem (pos + 2) 4 = start
  | .valueless => False

theorem numberAt_of_slice {n v : ℕ} (h : slice mem pos n = toBytes n v) (hv : v < 256 ^ n) :
    numberAt mem pos n = v := by
  rw [numberAt, h, ofBytes_toBytes_of_lt hv]

theorem numberAt_optionalHeader {v : ℕ} (h : slice mem pos 4 = optionalHeader v)
    (hv : v ≤ maxDataOffset) : numberAt mem pos 4 = v := by
  refine numberAt_of_slice h ?_
  rw [maxDataOffset] at hv
  omega

theorem numberAt_variantHeader {index start : ℕ} (hle : pos + 6 ≤ mem.length)
    (h : slice mem pos 6 = variantHeader index start) (hi : index < 2 ^ 16)
    (hs : start ≤ maxDataOffset) :
    numberAt mem pos 2 = index ∧ numberAt mem (pos + 2) 4 = start := by
  have hin : pos + 2 ≤ mem.length := by omega
  have h' : slice mem pos (2 + 4) = toBytes 2 index ++ toBytes 4 start := h
  obtain ⟨h₁, h₂⟩ := (slice_eq_append_iff (length_toBytes 2 index) hin).mp h'
  refine ⟨numberAt_of_slice h₁ hi, numberAt_of_slice h₂ ?_⟩
  rw [maxDataOffset] at hs
  omega

theorem numberAt_arrayHeader {count start : ℕ} (hle : pos + 8 ≤ mem.length)
    (h : slice mem pos 8 = arrayHeader count start) (hc : count ≤ maxDynamicArraySize)
    (hs : 0 < count → start ≤ maxDataOffset) :
    numberAt mem pos 4 = count ∧
      numberAt mem (pos + 4) 4 = if 0 < count then start else 0 := by
  have hin : pos + 4 ≤ mem.length := by omega
  have h' : slice mem pos (4 + 4) = toBytes 4 count ++ toBytes 4 (if 0 < count then start else 0) :=
    h
  obtain ⟨h₁, h₂⟩ := (slice_eq_append_iff (length_toBytes 4 count) hin).mp h'
  rw [maxDynamicArraySize] at hc
  refine ⟨numberAt_of_slice h₁ (by omega), numberAt_of_slice h₂ ?_⟩
  split_ifs with hpos
  · have := hs hpos
    rw [maxDataOffset] at this
    omega
  · exact Nat.two_pow_pos 32

/-! ### All types -/

mutual

/-- **Every mark of a layout can be read back**, if they all fit. -/
theorem layout_tells : ∀ (t : Ty) (v : t.Value), t.wellFormed = true →
    (layout t v).Tells Mark.Fits Mark.Stored
  | .scalar s, v, _ => Layout.tells_leaf _
  | .staticArray t n, v, h => by
    refine Layout.Tells.concat fun l hl => ?_
    obtain ⟨x, -, rfl⟩ := List.mem_map.mp hl
    exact layout_tells t x h
  | .dynamicArray t, v, h => by
    refine Layout.Tells.box (Layout.Tells.concat fun l hl => ?_) ?_
    · obtain ⟨x, -, rfl⟩ := List.mem_map.mp hl
      exact layout_tells t x h
    · intro mem pos base hle hheader hfits
      obtain ⟨hcount, hstart⟩ := not_or.mp hfits.1
      exact numberAt_arrayHeader hle hheader (not_lt.mp hcount)
        fun hpos => not_lt.mp fun hbig => hstart ⟨hpos, hbig⟩
  | .pair a b, v, h =>
    have ⟨ha, hb⟩ := Bool.and_eq_true_iff.mp h
    (layout_tells a v.1 ha).append (layout_tells b v.2 hb)
  | .tuple ts, v, h => layoutFields_tells ts v h
  | .optional _, none, _ => Layout.tells_leaf _
  | .optional t, some v, h => by
    refine (layout_tells t v h).box ?_
    intro mem pos base hle hheader hfits
    exact numberAt_optionalHeader hheader (not_lt.mp hfits.1)
  | .variant .nil, _, _ => Layout.tells_leaf _
  | .variant (.cons _ _ _), none, _ => by
    intro mem pos base _ hgood k hk
    obtain rfl := List.mem_singleton.mp hk
    exact absurd rfl (hgood _ hk).2
  | .variant (.cons name t ts), some v, h => by
    obtain ⟨hlen, hts⟩ := Bool.and_eq_true_iff.mp h
    refine (layoutAlternative_tells (.cons name t ts) v hts).box ?_
    intro mem pos base hle hheader hfits
    refine numberAt_variantHeader hle hheader ?_ (not_lt.mp hfits.1)
    have hlt := (TypeList.cons name t ts).alternativeIndex_lt v
    have hmax : (TypeList.cons name t ts).length ≤ 2 ^ 16 - 1 := of_decide_eq_true hlen
    omega
  | .record fs _, v, h => layoutFields_tells fs v (Bool.and_eq_true_iff.mp h).2

/-- The layout of a list of types, likewise. -/
theorem layoutFields_tells : ∀ (ts : TypeList) (v : ts.Data List), ts.wellFormed = true →
    (layoutFields ts v).Tells Mark.Fits Mark.Stored
  | .nil, _, _ => Layout.tells_leaf _
  | .cons _ t ts, v, h =>
    have ⟨ht, hts⟩ := Bool.and_eq_true_iff.mp h
    (layout_tells t v.1 ht).append (layoutFields_tells ts v.2 hts)

/-- The layout of an alternative, likewise. -/
theorem layoutAlternative_tells : ∀ (ts : TypeList) (v : ts.Alternative List),
    ts.wellFormed = true → (layoutAlternative ts v).Tells Mark.Fits Mark.Stored
  | .nil, v, _ => nomatch v
  | .cons _ t _, .inl v, h => layout_tells t v (Bool.and_eq_true_iff.mp h).1
  | .cons _ _ ts, .inr v, h => layoutAlternative_tells ts v (Bool.and_eq_true_iff.mp h).2

end

end SerialisePP
