import SerialisePP.SourceStorage

/-!
# Ranges that change

The source of a `dynamic_array` that is constructed from a range holds what `std::views::all` makes
of it, and that is a view or owns its elements. A view may refer to a container that is changed
before the source is serialised, and so yield other elements than when the source was constructed.

The constructor does not store a range that is empty, unless it is a `borrowed_range`. The comment
on this says that the elements are owned then. But a temporary view that is no `borrowed_range`,
such as a `std::views::transform` of a container, owns no elements either.
`SerialisePP.serialises_view_iff` is exactly when the source is serialised as its view is.
-/

namespace SerialisePP

open Effect SourceStorage

variable {P : Platform} {α E Object : Type}

/-! ### Ranges and their views -/

/-- **A range type**, whose objects may refer to anything in the environment `E`. -/
structure RangeType (P : Platform) (α E Object : Type) where
  /-- What an object yields. -/
  elements : Object → E → Elements P α
  /-- `std::ranges::view`. -/
  isView : Bool
  /-- `std::ranges::enable_borrowed_range`. -/
  enableBorrowed : Bool

/-- The range that the constructor is passed. -/
inductive RangeArgument (E Object : Type)
  /-- An object of the environment, which may be changed later. -/
  | lvalue (object : E → Object)
  /-- An object that is moved from. -/
  | rvalue (object : Object)

/-- The range, at the time of the call. -/
def RangeArgument.object (e : E) : RangeArgument E Object → Object
  | .lvalue object => object e
  | .rvalue object => object

/-- `std::ranges::borrowed_range`, of the type of the argument with its reference. -/
def RangeType.borrowedRange (R : RangeType P α E Object) : RangeArgument E Object → Bool
  | .lvalue _ => true
  | .rvalue _ => R.enableBorrowed

/-- **`std::ranges::views::all_t`**. -/
inductive AllView (E Object : Type)
  /-- A view is copied, or moved. -/
  | view (object : Object)
  /-- `std::ranges::ref_view`. -/
  | refView (object : E → Object)
  /-- `std::ranges::owning_view`. -/
  | owningView (object : Object)

/-- **`std::views::all`**. -/
def RangeType.all (R : RangeType P α E Object) (e : E) (range : RangeArgument E Object) :
    AllView E Object :=
  if R.isView then .view (range.object e)
  else
    match range with
    | .lvalue object => .refView object
    | .rvalue object => .owningView object

/-- What `std::views::all` of a range yields, in an environment. -/
def RangeType.yields (R : RangeType P α E Object) (e : E) : AllView E Object → Elements P α
  | .view object => R.elements object e
  | .refView object => R.elements (object e) e
  | .owningView object => R.elements object e

/-- **The constructor from a range**, in an environment. -/
def constructFromRange (fits : Bool) (R : RangeType P α E Object) (range : RangeArgument E Object)
    (e : E) (i : ℕ) : EStateM Failure (SourceStorage fun _ : Unit => AllView E Object) Unit :=
  constructRange P fits (R.borrowedRange range) (R.elements (range.object e) e).1.length i
    (.ok ⟨(), R.all e range⟩)

/-! ### What the source holds later -/

/-- **A source holds what its view yields now**, if the view has been stored. -/
theorem constructFromRange_sat (fits : Bool) (R : RangeType P α E Object)
    (range : RangeArgument E Object) (e e' : E) (i : ℕ) :
    Sat (constructFromRange fits R range e i) start
      (fun _ s => Holds P (fun _ => R.yields e') s i
        (if 0 < (R.elements (range.object e) e).1.length || R.borrowedRange range
          then (R.yields e' (R.all e range)).1 else []))
      fun _ _ => True := by
  let yields : Unit → AllView E Object → Elements P α := fun _ => R.yields e'
  rcases Bool.eq_false_or_eq_true P.constantEvaluated with hP | hP
  · have hstored := constructRange_sat (K := fun s L => OwnedByPointer P yields s i L)
      (ownedByPointer_constructDefault hP i)
      fun fits r _ hs => ownedByPointer_storeRange hP hs fits r
    exact (hstored fits ..).mono (fun _ s hs => hs.holds) fun _ _ _ => trivial
  · have hstored := constructRange_sat (K := fun s L => Owned P yields s i L)
      (constructDefault_sat hP i) fun fits r _ hs => storeRange_sat hP hs fits r
    refine (hstored fits ..).mono (fun _ s hs => ?_) fun _ _ _ => trivial
    exact holds_of_reads hP hs.sound hs.live hs.reads

/-- **A source is serialised as its view is**, whatever has been changed since it was constructed,
exactly if the range was not empty then, or is a `borrowed_range`, or its view yields nothing
now. -/
theorem serialises_view_iff {t : Ty} (ht : t.wellFormed = true) {fits : Bool}
    {R : RangeType P (t.Source P) E Object} {range : RangeArgument E Object} {e : E} {i : ℕ}
    {s : SourceStorage fun _ : Unit => AllView E Object}
    (hnew : constructFromRange fits R range e i start = .ok () s) (changes : List (E → E)) :
    let e' := changes.foldl (fun e change => change e) e
    let view := (R.yields e' (R.all e range)).1
    SerialisesAs P t (held (fun _ => R.yields e') i s) view ↔
      (R.elements (range.object e) e).1 ≠ [] ∨ R.borrowedRange range = true ∨ view = [] := by
  intro e' view
  have hholds := (constructFromRange_sat fits R range e e' i).ok hnew
  have hstored : (0 < (R.elements (range.object e) e).1.length || R.borrowedRange range) = true ↔
      (R.elements (range.object e) e).1 ≠ [] ∨ R.borrowedRange range = true := by
    rw [Bool.or_eq_true, decide_eq_true_eq, List.length_pos_iff]
  split_ifs at hholds with h
  · refine iff_of_true (serialisesAs_of_elements ht hholds) ?_
    exact (hstored.mp h).imp_right .inl
  · rw [hstored] at h
    rw [← or_assoc, or_iff_right h]
    constructor
    · intro hserialises
      obtain ⟨source, hsource, hview⟩ := hserialises.elements_eq
      obtain ⟨source', hsource', hnil⟩ := hholds
      obtain rfl := Except.ok.inj (hsource.symm.trans hsource')
      exact hview.symm.trans hnil
    · intro hview
      rw [hview]
      exact serialisesAs_of_elements ht hholds

/-- A `std::vector` that was empty when it was passed by reference. -/
theorem serialises_view_later :
    let R : RangeType .x64 (Ty.Source .x64 (.scalar .byte)) (Elements .x64 UInt8)
      (Elements .x64 UInt8) := ⟨fun v _ => v, false, false⟩
    ∃ s, constructFromRange true R (.lvalue id) ⟨[], by decide⟩ 0 start = .ok () s ∧
      SerialisesAs .x64 (.scalar .byte) (held (fun _ => R.yields ⟨[7], by decide⟩) 0 s)
        [(7 : UInt8)] := by
  intro R
  let e : Elements .x64 UInt8 := ⟨[], by decide⟩
  let assign : Elements .x64 UInt8 → Elements .x64 UInt8 := fun _ => ⟨[7], by decide⟩
  have hnew : constructFromRange true R (.lvalue id) e 0 start = .ok () _ := rfl
  refine ⟨_, hnew, ?_⟩
  exact (serialises_view_iff (by decide) hnew [assign]).mpr (.inr (.inl rfl))

/-- **A view that is dropped**: `std::views::transform` of a `std::vector` that is empty when the
source is constructed, and has an element when it is serialised. -/
theorem transform_view_dropped :
    let R : RangeType .x64 (Ty.Source .x64 (.scalar .byte)) (Elements .x64 UInt8) Unit :=
      ⟨fun _ v => v, true, false⟩
    let e : Elements .x64 UInt8 := ⟨[], by decide⟩
    let e' : Elements .x64 UInt8 := ⟨[7], by decide⟩
    (R.yields e' (R.all e (.rvalue ()))).1 = [(7 : UInt8)] ∧
      ∃ s, constructFromRange true R (.rvalue ()) e 0 start = .ok () s ∧
        held (fun _ => R.yields e') 0 s = .ok .nothing ∧
          ¬SerialisesAs .x64 (.scalar .byte) (held (fun _ => R.yields e') 0 s) [(7 : UInt8)] := by
  intro R e e'
  refine ⟨rfl, _, rfl, rfl, ?_⟩
  intro h
  obtain ⟨source, hsource, hseven⟩ := h.elements_eq
  obtain rfl := Except.ok.inj hsource
  cases hseven

end SerialisePP
