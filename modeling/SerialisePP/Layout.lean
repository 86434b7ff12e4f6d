import SerialisePP.Lib.TwoSection
import SerialisePP.Value

/-!
# The layout of a value

The pure description of the format: where each byte of an object goes and what it is, by
recursion on the type and with no buffer in sight. It is an instance of the two-section
layouts of `SerialisePP.Lib.TwoSection`; the two sections of a value are
`SerialisePP.fixedData` and `SerialisePP.variableData`, both functions of the base, which is
the size of the buffer when the value starts being serialised.

A layout also marks what the format stores besides the scalars: the offset of every present
optional and every variant, the count and the offset of every dynamic array
(`SerialisePP.Mark`). The limits of the format are limits on these marks, and they come in
two versions: `SerialisePP.Mark.TooBig`, in exact arithmetic, and `SerialisePP.Mark.failure`,
in the arithmetic of the platform.
-/

namespace SerialisePP

open LittleEndian TwoSection

/-- **What a layout stores** at the position `pos` of a fixed section. -/
inductive Mark
  /-- A dynamic array: its number of elements, and where they start. -/
  | elements (pos count start : ℕ)
  /-- A present optional: where its value starts. -/
  | optional (pos start : ℕ)
  /-- A variant with an alternative: its index, and where its value starts. -/
  | variant (pos index start : ℕ)
  /-- A valueless variant, which has no representation. -/
  | valueless
deriving DecidableEq, Repr

/-! ### The fixed data of the types that store offsets -/

/-- The fixed data of an optional, from its value offset. -/
def optionalHeader (valueOffset : ℕ) : List UInt8 := toBytes 4 valueOffset

/-- The fixed data of a variant: the type index, then the offset. -/
def variantHeader (index offset : ℕ) : List UInt8 := toBytes 2 index ++ toBytes 4 offset

/-- The fixed data of a dynamic array: the count, then the offset, which is 0 if there are
no elements. -/
def arrayHeader (count start : ℕ) : List UInt8 :=
  toBytes 4 count ++ toBytes 4 (if 0 < count then start else 0)

/-! ### The layout -/

mutual

/-- **The layout of a value.** -/
def layout : (t : Ty) → t.Value → Layout UInt8 Mark
  | .scalar s, v => .leaf (s.encode v) fun _ _ => []
  | .staticArray t _, v => .concat (v.1.map (layout t))
  | .dynamicArray t, v =>
    let elements := List.map (layout t) v
    .box 8 (fun base => arrayHeader elements.length base)
      (fun pos base => .elements pos elements.length base) (.concat elements)
      fun _ => by simp [arrayHeader]
  | .pair a b, v => (layout a v.1).append (layout b v.2)
  | .tuple ts, v => layoutFields ts v
  | .optional _, none => .leaf (optionalHeader 0) fun _ _ => []
  | .optional t, some v =>
    .box 4 (fun base => optionalHeader (base + 1)) (fun pos base => .optional pos base)
      (layout t v) fun _ => length_toBytes 4 _
  | .variant .nil, _ => .leaf (variantHeader 0 0) fun _ _ => []
  | .variant (.cons _ _ _), none => .leaf (variantHeader 0 0) fun _ _ => [.valueless]
  | .variant (.cons name t ts), some v =>
    let index := (TypeList.cons name t ts).alternativeIndex v
    .box 6 (fun base => variantHeader index base) (fun pos base => .variant pos index base)
      (layoutAlternative (.cons name t ts) v) fun _ => by simp [variantHeader]
  | .record fs _, v => layoutFields fs v

/-- The layout of the elements of a tuple or the fields of a record, side by side. -/
def layoutFields : (ts : TypeList) → ts.Data List → Layout UInt8 Mark
  | .nil, _ => .empty
  | .cons _ t ts, v => (layout t v.1).append (layoutFields ts v.2)

/-- The layout of the alternative of a variant. -/
def layoutAlternative : (ts : TypeList) → ts.Alternative List → Layout UInt8 Mark
  | .nil, v => nomatch v
  | .cons _ t _, .inl v => layout t v
  | .cons _ _ ts, .inr v => layoutAlternative ts v

end

/-- **The fixed section of a value** serialised when the buffer has `base` bytes. -/
def fixedData (t : Ty) (v : t.Value) (base : ℕ) : List UInt8 := (layout t v).fixed base

/-- **The variable section of a value** serialised when the buffer has `base` bytes. -/
def variableData (t : Ty) (v : t.Value) (base : ℕ) : List UInt8 := (layout t v).body base

/-- The size of the variable section of a value. It does not depend on the base. -/
def variableSize (t : Ty) (v : t.Value) : ℕ := (layout t v).variableSize

mutual

/-- **The fixed section of a value has the size of its type.** -/
theorem fixedSize_layout : ∀ (t : Ty) (v : t.Value), (layout t v).fixedSize = t.size
  | .scalar s, v => s.length_encode v
  | .staticArray t n, v => by
    have hk : ∀ l ∈ v.1.map (layout t), l.fixedSize = t.size := by
      intro l hl
      obtain ⟨x, -, rfl⟩ := List.mem_map.mp hl
      exact fixedSize_layout t x
    rw [layout, Layout.fixedSize_concat hk, List.length_map, v.2, Ty.size]
  | .dynamicArray _, _ => rfl
  | .pair a b, v => by
    rw [layout, Layout.fixedSize_append, fixedSize_layout a, fixedSize_layout b, Ty.size]
  | .tuple ts, v => by rw [layout, fixedSize_layoutFields ts v, Ty.size]
  | .optional _, none => rfl
  | .optional _, some _ => rfl
  | .variant .nil, _ => rfl
  | .variant (.cons _ _ _), none => rfl
  | .variant (.cons _ _ _), some _ => rfl
  | .record fs _, v => by rw [layout, fixedSize_layoutFields fs v, Ty.size]

/-- The fixed sections of the elements of a tuple or the fields of a record. -/
theorem fixedSize_layoutFields :
    ∀ (ts : TypeList) (v : ts.Data List), (layoutFields ts v).fixedSize = ts.size
  | .nil, _ => rfl
  | .cons _ t ts, v => by
    rw [layoutFields, Layout.fixedSize_append, fixedSize_layout t, fixedSize_layoutFields ts,
      TypeList.size]

end

/-- The fixed section has its size, wherever the variable section starts. -/
theorem length_fixedData (t : Ty) (v : t.Value) (base : ℕ) :
    (fixedData t v base).length = t.size := by
  rw [fixedData, Layout.length_fixed, fixedSize_layout]

theorem length_variableData (t : Ty) (v : t.Value) (base : ℕ) :
    (variableData t v base).length = variableSize t v := Layout.length_body ..

mutual

/-- **The fixed-size types are those without variable data**: nor do they store anything that
could be too big. -/
theorem layout_flat : ∀ (t : Ty) (v : t.Value), t.isFixedSize = true → (layout t v).Flat
  | .scalar s, v, _ => Layout.flat_leaf _
  | .staticArray t n, v, h => by
    refine Layout.Flat.concat fun l hl => ?_
    obtain ⟨x, hx, rfl⟩ := List.mem_map.mp hl
    rcases Bool.or_eq_true_iff.mp h with ht | hn
    · exact layout_flat t x ht
    · have hnil : v.1 = [] := List.eq_nil_of_length_eq_zero (v.2.trans (beq_iff_eq.mp hn))
      rw [hnil] at hx
      exact absurd hx List.not_mem_nil
  | .pair a b, v, h =>
    have ⟨ha, hb⟩ := Bool.and_eq_true_iff.mp h
    (layout_flat a v.1 ha).append (layout_flat b v.2 hb)
  | .tuple ts, v, h => layoutFields_flat ts v h
  | .variant .nil, _, _ => Layout.flat_leaf _
  | .variant (.cons _ _ _), _, h => absurd (beq_iff_eq.mp h) (Nat.succ_ne_zero _)
  | .record fs _, v, h => layoutFields_flat fs v h

/-- The layout of a list of fixed-size types, likewise. -/
theorem layoutFields_flat : ∀ (ts : TypeList) (v : ts.Data List), ts.isFixedSize = true →
    (layoutFields ts v).Flat
  | .nil, _, _ => Layout.flat_leaf _
  | .cons _ t ts, v, h =>
    have ⟨ht, hts⟩ := Bool.and_eq_true_iff.mp h
    (layout_flat t v.1 ht).append (layoutFields_flat ts v.2 hts)

end

/-! ### The limits of the format -/

/-- **The limits, in exact arithmetic**: the number of elements, or what is stored for the
start of a value, does not fit in 32 bits. -/
def Mark.TooBig : Mark → Prop
  | .elements _ count start => maxDynamicArraySize < count ∨ 0 < count ∧ maxDataOffset < start
  | .optional _ start => maxDataOffset < start + 1
  | .variant _ _ start => maxDataOffset < start
  | .valueless => False

/-- The message of the `object_size_error` for an offset. -/
def dataOffsetMessage (offset : ℕ) : String := s!"Data offset {offset} is too big to be represented"

/-- The message of the `object_size_error` for a number of elements. -/
def dynamicArraySizeMessage (size : ℕ) : String :=
  s!"dynamic_array with {size} elements is too big to be serialised"

/-- **What serialising a mark throws**, if anything, in the arithmetic of the platform: the
start of an optional's value is advanced by one before it is compared. -/
def Mark.failure (P : Platform) : Mark → Option Exn
  | .elements _ count start =>
    if maxDynamicArraySize < count then some (.objectSizeError (dynamicArraySizeMessage count))
    else if 0 < count ∧ maxDataOffset < start then
      some (.objectSizeError (dataOffsetMessage start))
    else none
  | .optional _ start =>
    if maxDataOffset < P.wrap (start + 1) then
      some (.objectSizeError (dataOffsetMessage (P.wrap (start + 1))))
    else none
  | .variant _ _ start =>
    if maxDataOffset < start then some (.objectSizeError (dataOffsetMessage start)) else none
  | .valueless => some .badVariantAccess

/-- **A present optional at the very end of the address space**: the only mark for which the
two versions of the limits differ, since there the offset plus one is not a `std::size_t` and
wraps around to 0. -/
def Mark.Wraps (P : Platform) : Mark → Prop
  | .optional _ start => P.sizeRange ≤ start + 1
  | _ => False

instance (m : Mark) : Decidable m.TooBig := by
  cases m <;> unfold Mark.TooBig <;> infer_instance

end SerialisePP
