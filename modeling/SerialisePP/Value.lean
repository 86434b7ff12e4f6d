import SerialisePP.Scalar

/-!
# Values and serialise sources

The values of a serialisable type, twice: `SerialisePP.Ty.Value` is what an object is, and
`SerialisePP.Ty.Source` is the `serialise_source` it is serialised from. They differ in one
place only. A `dynamic_array` is a list, but its source type-erases a range – or holds
nothing at all, which is the case for a default-constructed one. Both are instances of one
family, `SerialisePP.Ty.Data`, over the way the elements of a `dynamic_array` are held, and
`SerialisePP.Ty.value` forgets it.

A `variant` is an alternative of one of its types. It may also be in a state without an
alternative: that is the valueless state of a `std::variant`, or, for `variant<>`, the only
state of a `std::variant<std::monostate>`.
-/

namespace SerialisePP

/-- **What the source of a `dynamic_array` holds.** The size of a range is a `std::size_t`,
and is the number of elements it yields. -/
inductive ArraySource (P : Platform) (α : Type)
  /-- No range at all. -/
  | nothing
  /-- A range yielding the elements. -/
  | range (elements : List α) (size_lt : elements.length < P.sizeRange)

/-- The elements the source of a `dynamic_array` yields. -/
def ArraySource.elements {P : Platform} {α : Type} : ArraySource P α → List α
  | .nothing => []
  | .range elements _ => elements

mutual

/-- The data of a type, with the elements of its dynamic arrays held in an `A`. -/
def Ty.Data (A : Type → Type) : Ty → Type
  | .scalar s => s.Value
  | .staticArray t n => { elements : List (t.Data A) // elements.length = n }
  | .dynamicArray t => A (t.Data A)
  | .pair a b => a.Data A × b.Data A
  | .tuple ts => ts.Data A
  | .optional t => Option (t.Data A)
  | .variant ts => Option (ts.Alternative A)
  | .record fs _ => fs.Data A

/-- The data of every type of a list: of the elements of a tuple or the fields of a
record. -/
def TypeList.Data (A : Type → Type) : TypeList → Type
  | .nil => Unit
  | .cons _ t ts => t.Data A × ts.Data A

/-- The data of one type of a list: of the alternative a variant holds. -/
def TypeList.Alternative (A : Type → Type) : TypeList → Type
  | .nil => Empty
  | .cons _ t ts => t.Data A ⊕ ts.Alternative A

end

/-- **The values of a type.** -/
abbrev Ty.Value : Ty → Type := Ty.Data List

/-- **The `serialise_source` of a type.** -/
abbrev Ty.Source (P : Platform) : Ty → Type := Ty.Data (ArraySource P)

/-- The index of the alternative a variant holds. -/
def TypeList.alternativeIndex {A : Type → Type} : (ts : TypeList) → ts.Alternative A → ℕ
  | .nil, v => nomatch v
  | .cons _ _ _, .inl _ => 0
  | .cons _ _ ts, .inr v => ts.alternativeIndex v + 1

theorem TypeList.alternativeIndex_lt {A : Type → Type} :
    ∀ (ts : TypeList) (v : ts.Alternative A), ts.alternativeIndex v < ts.length
  | .nil, v => nomatch v
  | .cons _ _ _, .inl _ => Nat.succ_pos _
  | .cons _ _ ts, .inr v => Nat.succ_lt_succ (ts.alternativeIndex_lt v)

mutual

/-- **The value of a source.** -/
def Ty.value {P : Platform} : (t : Ty) → t.Source P → t.Value
  | .scalar _, v => v
  | .staticArray t _, v => ⟨v.1.map t.value, by rw [List.length_map, v.2]⟩
  | .dynamicArray t, v => v.elements.map t.value
  | .pair a b, v => (a.value v.1, b.value v.2)
  | .tuple ts, v => ts.value v
  | .optional t, v => Option.map t.value v
  | .variant ts, v => Option.map ts.alternative v
  | .record fs _, v => fs.value v

/-- The values of the sources of a list of types. -/
def TypeList.value {P : Platform} :
    (ts : TypeList) → ts.Data (ArraySource P) → ts.Data List
  | .nil, _ => ()
  | .cons _ t ts, v => (t.value v.1, ts.value v.2)

/-- The alternative of the source of a variant. -/
def TypeList.alternative {P : Platform} :
    (ts : TypeList) → ts.Alternative (ArraySource P) → ts.Alternative List
  | .nil, v => v
  | .cons _ t _, .inl v => .inl (t.value v)
  | .cons _ _ ts, .inr v => .inr (ts.alternative v)

end

theorem TypeList.alternativeIndex_alternative {P : Platform} :
    ∀ (ts : TypeList) (v : ts.Alternative (ArraySource P)),
      ts.alternativeIndex (ts.alternative v) = ts.alternativeIndex v
  | .nil, v => nomatch v
  | .cons _ _ _, .inl _ => rfl
  | .cons _ _ ts, .inr v => congrArg (· + 1) (ts.alternativeIndex_alternative v)

end SerialisePP
