import SerialisePP.Visit

/-!
# Reading arbitrary bytes

The bytes may be anything, and so may the offset the first object is read at. What is shown
is that every accessor, on every object that can be reached by accessors, does exactly what
the format says (`SerialisePP.Expects`): it moves to the right place and returns the object
there if its fixed section lies in the buffer, and throws `buffer_bounds_error` if it does
not; a wrong index or an absent value is reported as such. In particular no byte outside of
the buffer is ever read, which in the model would be undefined behaviour.

There is one exception: `visit` is `noexcept` if no call of the visitor can throw, so that a
value out of bounds then terminates the program instead.
-/

namespace SerialisePP

open Deserialiser

variable {P : Platform}

/-! ### Types of moderate size -/

mutual

/-- **Types all of whose component types have less than 2^32 bytes of fixed data.** -/
def Ty.Small : Ty → Prop
  | .scalar s => s.size < 2 ^ 32
  | .staticArray t n => t.size * n < 2 ^ 32 ∧ t.Small
  | .dynamicArray t => t.Small
  | .pair a b => a.size + b.size < 2 ^ 32 ∧ a.Small ∧ b.Small
  | .tuple ts => ts.size < 2 ^ 32 ∧ ts.Small
  | .optional t => t.Small
  | .variant ts => ts.Small
  | .record fs _ => fs.size < 2 ^ 32 ∧ fs.Small

/-- Likewise, for every type of a list. -/
def TypeList.Small : TypeList → Prop
  | .nil => True
  | .cons _ t ts => t.Small ∧ ts.Small

end

theorem Ty.Small.size_lt : ∀ {t : Ty}, t.Small → t.size < 2 ^ 32
  | .scalar _, h => h
  | .staticArray _ _, h => h.1
  | .dynamicArray _, _ => by rw [Ty.size]; decide
  | .pair _ _, h => h.1
  | .tuple _, h => h.1
  | .optional _, _ => by rw [Ty.size]; decide
  | .variant _, _ => by rw [Ty.size]; decide
  | .record _ _, h => h.1

theorem Ty.Small.size_lt_sizeRange {t : Ty} (h : t.Small) : t.size < P.sizeRange :=
  h.size_lt.trans_le Platform.two_pow_32_le_sizeRange

namespace TypeList

theorem Small.element : ∀ {ts : TypeList} {i : ℕ} {t : Ty}, ts.Small → ts.element i = some t →
    t.Small
  | .nil, _, _, _, h => nomatch h
  | .cons _ t _, 0, u, hts, h => by
    obtain rfl : t = u := Option.some.inj h
    exact hts.1
  | .cons _ _ ts, _ + 1, _, hts, h => Small.element hts.2 h

/-! The fields of a base record. -/

theorem Small.take : ∀ {ts : TypeList} (n : ℕ), ts.Small → (ts.take n).Small
  | _, 0, _ => trivial
  | .nil, _ + 1, _ => trivial
  | .cons _ _ _, n + 1, h => ⟨h.1, Small.take n h.2⟩

theorem wellFormed_take : ∀ (ts : TypeList) (n : ℕ), ts.wellFormed = true →
    (ts.take n).wellFormed = true
  | _, 0, _ => rfl
  | .nil, _ + 1, _ => rfl
  | .cons _ _ ts, n + 1, h => by
    obtain ⟨ht, hts⟩ := Bool.and_eq_true_iff.mp h
    exact Bool.and_eq_true_iff.mpr ⟨ht, wellFormed_take ts n hts⟩

theorem containsField_of_take : ∀ (ts : TypeList) (n : ℕ) (name : String),
    (ts.take n).containsField name = true → ts.containsField name = true
  | _, 0, _, h => absurd h Bool.false_ne_true
  | .nil, _ + 1, _, h => h
  | .cons _ _ ts, n + 1, name, h => by
    rcases Bool.or_eq_true_iff.mp h with hname | hrest
    · exact Bool.or_eq_true_iff.mpr (.inl hname)
    · exact Bool.or_eq_true_iff.mpr (.inr (containsField_of_take ts n name hrest))

theorem allFieldsUnique_take : ∀ (ts : TypeList) (n : ℕ), ts.allFieldsUnique = true →
    (ts.take n).allFieldsUnique = true
  | _, 0, _ => rfl
  | .nil, _ + 1, _ => rfl
  | .cons name _ ts, n + 1, h => by
    obtain ⟨hname, hts⟩ := Bool.and_eq_true_iff.mp h
    refine Bool.and_eq_true_iff.mpr ⟨?_, allFieldsUnique_take ts n hts⟩
    rw [Bool.not_eq_true'] at hname ⊢
    by_contra hcontra
    have := containsField_of_take ts n name (Bool.eq_true_of_not_eq_false hcontra)
    exact absurd (this.symm.trans hname) Bool.true_eq_false.mp

end TypeList

/-! ### Accessors and what they return -/

/-- **The accessors.** -/
inductive Accessor
  /-- `record`: `get<Name>()`. -/
  | recordGet (name : String)
  /-- `record`: `get<Index>()`. -/
  | recordGetIndex (index : ℕ)
  /-- `record`: the conversion to itself or a base. -/
  | toBase (index : ℕ)
  /-- `tuple`: `get<Index>()`. -/
  | tupleGet (index : ℕ)
  /-- `pair`: `first()`. -/
  | first
  /-- `pair`: `second()`. -/
  | second
  /-- `pair`: `get<Index>()`. -/
  | pairGet (index : ℕ)
  /-- `static_array`: `operator[]`. -/
  | staticIndex (index : ℕ)
  /-- `static_array`: `at()`. -/
  | staticAt (index : ℕ)
  /-- `static_array`: `get<Index>()`. -/
  | staticGet (index : ℕ)
  /-- `static_array`: an element of `elements()`. -/
  | staticElement (index : ℕ)
  /-- `dynamic_array`: `size()`. -/
  | size
  /-- `dynamic_array`: `empty()`. -/
  | empty
  /-- `dynamic_array`: `operator[]`. -/
  | dynamicIndex (index : ℕ)
  /-- `dynamic_array`: `at()`. -/
  | dynamicAt (index : ℕ)
  /-- `dynamic_array`: an element of `elements()`. -/
  | dynamicElement (index : ℕ)
  /-- `optional`: `has_value()`. -/
  | hasValue
  /-- `optional`: `value()`. -/
  | value
  /-- `optional`: `operator*`. -/
  | deref
  /-- `variant`: `index()`. -/
  | index
  /-- `variant`: `get<Index>()`. -/
  | get (index : ℕ)
  /-- `variant`: `visit`, to get hold of the value; the visitor is declared not to throw for
  some types. -/
  | visit (nothrow : Ty → Bool)

/-- **What an accessor returns.** -/
inductive Response
  /-- An object. -/
  | object (x : Object)
  /-- A size or an index. -/
  | number (n : ℕ)
  /-- The answer to a question. -/
  | flag (b : Bool)

/-- The visitor that returns what it is called on. -/
def visitorOf (nothrow : Ty → Bool) : Visitor Unit Object where
  call x := pure x
  nothrow := nothrow
  nothrow_call _ _ _ := trivial

/-- A response that is an object of a known type. -/
def moved {t : Ty} (m : Except Failure t.Deserialised) : Except Failure Response := do
  let x ← m
  pure (.object ⟨t, x⟩)

/-- A response that is an object. -/
def movedObject (m : Except Failure Object) : Except Failure Response := do
  let x ← m
  pure (.object x)

/-- An element of `elements()`. -/
def movedElement {t : Ty} : Option (Except Failure t.Deserialised) → Except Failure Response
  | some m => moved m
  | none => throw .illFormed

/-- **A call of an accessor.** -/
def access (P : Platform) : Object → Accessor → Except Failure Response
  | ⟨.record _ _, d⟩, .recordGet name => movedObject (Deserialiser.recordGet P d name)
  | ⟨.record _ _, d⟩, .recordGetIndex i => movedObject (Deserialiser.recordGetIndex P d i)
  | ⟨.record _ _, d⟩, .toBase i => movedObject (Deserialiser.toBase P d i)
  | ⟨.tuple _, d⟩, .tupleGet i => movedObject (Deserialiser.tupleGet P d i)
  | ⟨.pair _ _, d⟩, .first => moved (Deserialiser.first P d)
  | ⟨.pair _ _, d⟩, .second => moved (Deserialiser.second P d)
  | ⟨.pair _ _, d⟩, .pairGet i => movedObject (Deserialiser.pairGet P d i)
  | ⟨.staticArray _ _, d⟩, .staticIndex i => moved (Deserialiser.staticIndex P d i)
  | ⟨.staticArray _ _, d⟩, .staticAt i => moved (Deserialiser.staticAt P d i)
  | ⟨.staticArray _ _, d⟩, .staticGet i => moved (Deserialiser.staticGet P d i)
  | ⟨.staticArray _ _, d⟩, .staticElement i => movedElement (Deserialiser.staticElements P d)[i]?
  | ⟨.dynamicArray _, d⟩, .size => do
    let n ← Deserialiser.size P d
    pure (.number n)
  | ⟨.dynamicArray _, d⟩, .empty => do
    let b ← Deserialiser.empty P d
    pure (.flag b)
  | ⟨.dynamicArray _, d⟩, .dynamicIndex i => moved (Deserialiser.dynamicIndex P d i)
  | ⟨.dynamicArray _, d⟩, .dynamicAt i => moved (Deserialiser.dynamicAt P d i)
  | ⟨.dynamicArray _, d⟩, .dynamicElement i => do
    let elements ← Deserialiser.dynamicElements P d
    movedElement elements[i]?
  | ⟨.optional _, d⟩, .hasValue => do
    let b ← Deserialiser.hasValue P d
    pure (.flag b)
  | ⟨.optional _, d⟩, .value => moved (Deserialiser.value P d)
  | ⟨.optional _, d⟩, .deref => moved (Deserialiser.deref P d)
  | ⟨.variant _, d⟩, .index => do
    let i ← Deserialiser.index P d
    pure (.number i)
  | ⟨.variant _, d⟩, .get i => movedObject (Deserialiser.get P d i)
  | ⟨.variant _, d⟩, .visit nothrow =>
    match Visitor.visit P d (visitorOf nothrow) () with
    | .ok x _ => pure (.object x)
    | .error e _ => throw e
  | _, _ => throw .illFormed

/-! ### What the format says -/

/-- **What an accessor should do**, in exact arithmetic. -/
inductive Expected
  /-- Move to the object of a type at an offset, if its fixed section is in the buffer. -/
  | moves (t : Ty) (offset : ℕ)
  /-- Return a number. -/
  | number (n : ℕ)
  /-- Answer a question. -/
  | flag (b : Bool)
  /-- Throw an exception. -/
  | throws (e : Exn)

/-- **What the format says about an accessor on an object**, for the calls whose
preconditions are met: the index of `operator[]` is less than the size, `operator*` is called
on a present optional, the index of `get<Index>()` is one of the type, and `visit` is called
if the stored index names an alternative. -/
inductive Expects : Object → Accessor → Expected → Prop
  | recordGet {fs : TypeList} {bases : List ℕ} {i : ℕ} {name : String} {t : Ty}
      (d : Deserialiser (.record fs bases)) (ht : fs.element i = some t)
      (hname : fs.fieldName i = some name) :
      Expects ⟨.record fs bases, d⟩ (.recordGet name)
        (.moves t (d.fixedOffset + (fs.take i).size))
  | recordGetIndex {fs : TypeList} {bases : List ℕ} {i : ℕ} {t : Ty}
      (d : Deserialiser (.record fs bases)) (ht : fs.element i = some t) :
      Expects ⟨.record fs bases, d⟩ (.recordGetIndex i)
        (.moves t (d.fixedOffset + (fs.take i).size))
  | toBase {fs : TypeList} {bases : List ℕ} {i n : ℕ} {rest : List ℕ}
      (d : Deserialiser (.record fs bases)) (hbase : (fs.length :: bases).drop i = n :: rest) :
      Expects ⟨.record fs bases, d⟩ (.toBase i) (.moves (.record (fs.take n) rest) d.fixedOffset)
  | tupleGet {ts : TypeList} {i : ℕ} {t : Ty} (d : Deserialiser (.tuple ts))
      (ht : ts.element i = some t) :
      Expects ⟨.tuple ts, d⟩ (.tupleGet i) (.moves t (d.fixedOffset + (ts.take i).size))
  | first {a b : Ty} (d : Deserialiser (.pair a b)) :
      Expects ⟨.pair a b, d⟩ .first (.moves a d.fixedOffset)
  | second {a b : Ty} (d : Deserialiser (.pair a b)) :
      Expects ⟨.pair a b, d⟩ .second (.moves b (d.fixedOffset + a.size))
  | pairGet_zero {a b : Ty} (d : Deserialiser (.pair a b)) :
      Expects ⟨.pair a b, d⟩ (.pairGet 0) (.moves a d.fixedOffset)
  | pairGet_one {a b : Ty} (d : Deserialiser (.pair a b)) :
      Expects ⟨.pair a b, d⟩ (.pairGet 1) (.moves b (d.fixedOffset + a.size))
  | staticIndex {t : Ty} {n i : ℕ} (d : Deserialiser (.staticArray t n)) (hi : i < n) :
      Expects ⟨.staticArray t n, d⟩ (.staticIndex i) (.moves t (d.fixedOffset + t.size * i))
  | staticAt {t : Ty} {n i : ℕ} (d : Deserialiser (.staticArray t n)) (hi : i < n) :
      Expects ⟨.staticArray t n, d⟩ (.staticAt i) (.moves t (d.fixedOffset + t.size * i))
  | staticAt_bad {t : Ty} {n i : ℕ} (d : Deserialiser (.staticArray t n)) (hi : n ≤ i) :
      Expects ⟨.staticArray t n, d⟩ (.staticAt i)
        (.throws (.outOfRange (outOfRangeMessage i "static_array" n)))
  | staticGet {t : Ty} {n i : ℕ} (d : Deserialiser (.staticArray t n)) (hi : i < n) :
      Expects ⟨.staticArray t n, d⟩ (.staticGet i) (.moves t (d.fixedOffset + t.size * i))
  | staticElement {t : Ty} {n i : ℕ} (d : Deserialiser (.staticArray t n)) (hi : i < n) :
      Expects ⟨.staticArray t n, d⟩ (.staticElement i) (.moves t (d.fixedOffset + t.size * i))
  | size {t : Ty} (d : Deserialiser (.dynamicArray t)) :
      Expects ⟨.dynamicArray t, d⟩ .size (.number (numberAt d.buffer d.fixedOffset 4))
  | empty {t : Ty} (d : Deserialiser (.dynamicArray t)) :
      Expects ⟨.dynamicArray t, d⟩ .empty (.flag (numberAt d.buffer d.fixedOffset 4 == 0))
  | dynamicIndex {t : Ty} {i : ℕ} (d : Deserialiser (.dynamicArray t))
      (hi : i < numberAt d.buffer d.fixedOffset 4) :
      Expects ⟨.dynamicArray t, d⟩ (.dynamicIndex i)
        (.moves t (numberAt d.buffer (d.fixedOffset + 4) 4 + t.size * i))
  | dynamicAt {t : Ty} {i : ℕ} (d : Deserialiser (.dynamicArray t))
      (hi : i < numberAt d.buffer d.fixedOffset 4) :
      Expects ⟨.dynamicArray t, d⟩ (.dynamicAt i)
        (.moves t (numberAt d.buffer (d.fixedOffset + 4) 4 + t.size * i))
  | dynamicAt_bad {t : Ty} {i : ℕ} (d : Deserialiser (.dynamicArray t))
      (hi : numberAt d.buffer d.fixedOffset 4 ≤ i) :
      Expects ⟨.dynamicArray t, d⟩ (.dynamicAt i) (.throws (.outOfRange
        (outOfRangeMessage i "dynamic_array" (numberAt d.buffer d.fixedOffset 4))))
  | dynamicElement {t : Ty} {i : ℕ} (d : Deserialiser (.dynamicArray t))
      (hi : i < numberAt d.buffer d.fixedOffset 4) :
      Expects ⟨.dynamicArray t, d⟩ (.dynamicElement i)
        (.moves t (numberAt d.buffer (d.fixedOffset + 4) 4 + t.size * i))
  | hasValue {t : Ty} (d : Deserialiser (.optional t)) :
      Expects ⟨.optional t, d⟩ .hasValue
        (.flag (decide (0 < numberAt d.buffer d.fixedOffset 4)))
  | value {t : Ty} (d : Deserialiser (.optional t))
      (hpresent : 0 < numberAt d.buffer d.fixedOffset 4) :
      Expects ⟨.optional t, d⟩ .value (.moves t (numberAt d.buffer d.fixedOffset 4 - 1))
  | value_absent {t : Ty} (d : Deserialiser (.optional t))
      (habsent : numberAt d.buffer d.fixedOffset 4 = 0) :
      Expects ⟨.optional t, d⟩ .value (.throws .badOptionalAccess)
  | deref {t : Ty} (d : Deserialiser (.optional t))
      (hpresent : 0 < numberAt d.buffer d.fixedOffset 4) :
      Expects ⟨.optional t, d⟩ .deref (.moves t (numberAt d.buffer d.fixedOffset 4 - 1))
  | index {ts : TypeList} (d : Deserialiser (.variant ts)) (hts : ts.length ≠ 0) :
      Expects ⟨.variant ts, d⟩ .index (.number (numberAt d.buffer d.fixedOffset 2))
  | get {ts : TypeList} {i : ℕ} {t : Ty} (d : Deserialiser (.variant ts))
      (ht : ts.element i = some t) (hi : i = numberAt d.buffer d.fixedOffset 2) :
      Expects ⟨.variant ts, d⟩ (.get i) (.moves t (numberAt d.buffer (d.fixedOffset + 2) 4))
  | get_bad {ts : TypeList} {i : ℕ} (d : Deserialiser (.variant ts)) (hlt : i < ts.length)
      (hi : i ≠ numberAt d.buffer d.fixedOffset 2) :
      Expects ⟨.variant ts, d⟩ (.get i) (.throws .badVariantAccess)
  | visit {ts : TypeList} {nothrow : Ty → Bool} {t : Ty} (d : Deserialiser (.variant ts))
      (ht : ts.element (numberAt d.buffer d.fixedOffset 2) = some t) :
      Expects ⟨.variant ts, d⟩ (.visit nothrow)
        (.moves t (numberAt d.buffer (d.fixedOffset + 2) 4))

/-- **The outcome that is expected**, in a buffer. -/
def Expected.outcome (P : Platform) (mem : List UInt8) : Expected → Except Failure Response
  | .moves t pos =>
    if h : pos + t.size ≤ mem.length then .ok (.object ⟨t, objectAt P mem pos t h⟩)
    else .error (.thrown (.bufferBoundsError (boundsMessage P t mem.length pos)))
  | .number n => .ok (.number n)
  | .flag b => .ok (.flag b)
  | .throws e => .error (.thrown e)

/-- What is expected to move to an object returns it if it is in the buffer. -/
theorem outcome_of_le {mem : List UInt8} {t : Ty} {pos : ℕ} (h : pos + t.size ≤ mem.length) :
    (Expected.moves t pos).outcome P mem = .ok (.object ⟨t, objectAt P mem pos t h⟩) := dif_pos h

theorem outcome_of_not_le {mem : List UInt8} {t : Ty} {pos : ℕ}
    (h : ¬pos + t.size ≤ mem.length) : (Expected.moves t pos).outcome P mem =
      .error (.thrown (.bufferBoundsError (boundsMessage P t mem.length pos))) := dif_neg h

/-- Only a return or an exception is ever expected. -/
theorem outcome_ne {mem : List UInt8} (e : Expected) {f : Failure} (hf : ∀ x, f ≠ .thrown x) :
    e.outcome P mem ≠ .error f := by
  intro h
  cases e with
  | moves t pos =>
    by_cases hin : pos + t.size ≤ mem.length
    · rw [outcome_of_le hin] at h
      contradiction
    · rw [outcome_of_not_le hin] at h
      exact hf _ (Except.error.inj h).symm
  | number n => exact absurd h nofun
  | flag b => exact absurd h nofun
  | throws x => exact hf x (Except.error.inj h).symm

/-- Whether what an accessor should move to is in the buffer. -/
def Expected.InBounds (mem : List UInt8) : Expected → Prop
  | .moves t pos => pos + t.size ≤ mem.length
  | _ => True

/-- Whether a call is one of a `visit` that is `noexcept`. -/
def IsNoexceptVisit : Object → Accessor → Prop
  | ⟨.variant ts, _⟩, .visit nothrow => (visitorOf nothrow).nothrowAll ts = true
  | _, _ => False

/-! ### Every accessor does what the format says -/

variable {mem : List UInt8}

/-- **An object in the buffer**, of a moderate type. -/
inductive Located (P : Platform) (mem : List UInt8) : Object → Prop
  | intro {t : Ty} {pos : ℕ} (hin : pos + t.size ≤ mem.length) (hwf : t.wellFormed = true)
      (hsmall : t.Small) : Located P mem ⟨t, objectAt P mem pos t hin⟩

theorem moved_eq (hlen : mem.length < P.sizeRange) {t : Ty} (ht : t.Small) (pos : ℕ) :
    moved (deserialise P t mem pos) = (Expected.moves t pos).outcome P mem := by
  rw [moved, deserialise_eq hlen ht.size_lt_sizeRange, Expected.outcome]
  split_ifs <;> rfl

theorem movedObject_eq (hlen : mem.length < P.sizeRange) {t : Ty} (ht : t.Small) (pos : ℕ) :
    movedObject (deserialiseObject P mem pos (some t)) =
      (Expected.moves t pos).outcome P mem := by
  rw [movedObject, deserialiseObject, deserialise_eq hlen ht.size_lt_sizeRange, Expected.outcome]
  split_ifs <;> rfl

/-- **What an accessor moves to** is of a moderate type again. -/
theorem Expects.target {x : Object} {a : Accessor} {t : Ty} {pos : ℕ}
    (h : Expects x a (.moves t pos)) (hwf : x.1.wellFormed = true) (hsmall : x.1.Small) :
    t.wellFormed = true ∧ t.Small := by
  cases h with
  | recordGet d ht _ =>
    exact ⟨TypeList.wellFormed_element _ _ t (Bool.and_eq_true_iff.mp hwf).2 ht,
      hsmall.2.element ht⟩
  | recordGetIndex d ht =>
    exact ⟨TypeList.wellFormed_element _ _ t (Bool.and_eq_true_iff.mp hwf).2 ht,
      hsmall.2.element ht⟩
  | @toBase fs _ _ n _ d _ =>
    obtain ⟨hu, hfs⟩ := Bool.and_eq_true_iff.mp hwf
    refine ⟨Bool.and_eq_true_iff.mpr ⟨fs.allFieldsUnique_take n hu, fs.wellFormed_take n hfs⟩, ?_⟩
    exact ⟨(fs.size_take_le n).trans_lt hsmall.1, hsmall.2.take n⟩
  | tupleGet d ht => exact ⟨TypeList.wellFormed_element _ _ t hwf ht, hsmall.2.element ht⟩
  | first d => exact ⟨(Bool.and_eq_true_iff.mp hwf).1, hsmall.2.1⟩
  | second d => exact ⟨(Bool.and_eq_true_iff.mp hwf).2, hsmall.2.2⟩
  | pairGet_zero d => exact ⟨(Bool.and_eq_true_iff.mp hwf).1, hsmall.2.1⟩
  | pairGet_one d => exact ⟨(Bool.and_eq_true_iff.mp hwf).2, hsmall.2.2⟩
  | staticIndex d _ => exact ⟨hwf, hsmall.2⟩
  | staticAt d _ => exact ⟨hwf, hsmall.2⟩
  | staticGet d _ => exact ⟨hwf, hsmall.2⟩
  | staticElement d _ => exact ⟨hwf, hsmall.2⟩
  | dynamicIndex d _ => exact ⟨hwf, hsmall⟩
  | dynamicAt d _ => exact ⟨hwf, hsmall⟩
  | dynamicElement d _ => exact ⟨hwf, hsmall⟩
  | value d _ => exact ⟨hwf, hsmall⟩
  | deref d _ => exact ⟨hwf, hsmall⟩
  | get d ht _ =>
    exact ⟨TypeList.wellFormed_element _ _ t (Bool.and_eq_true_iff.mp hwf).2 ht,
      TypeList.Small.element hsmall ht⟩
  | visit d ht =>
    exact ⟨TypeList.wellFormed_element _ _ t (Bool.and_eq_true_iff.mp hwf).2 ht,
      TypeList.Small.element hsmall ht⟩

/-- The offset of an element of a dynamic array is exact in 64 bits. -/
theorem dynamicIndex_exact (hP : P.sizeBits = 64) {t : Ty} {d : Deserialiser (.dynamicArray t)}
    (hd : d.Valid P) (ht : t.Small) {i : ℕ} (hi : i < numberAt d.buffer d.fixedOffset 4) :
    d.dynamicIndex P i =
      deserialise P t d.buffer (numberAt d.buffer (d.fixedOffset + 4) 4 + t.size * i) := by
  have hfix : d.fixedOffset + 8 ≤ d.buffer.length := hd.fixed_le
  have hcount : numberAt d.buffer d.fixedOffset 4 < 256 ^ 4 := numberAt_lt (by omega)
  have hstart : numberAt d.buffer (d.fixedOffset + 4) 4 < 256 ^ 4 := numberAt_lt (by omega)
  -- two 32-bit numbers multiplied leave room for a third one in 64 bits
  have hmul : t.size * i ≤ (2 ^ 32 - 1) * (2 ^ 32 - 2) :=
    Nat.mul_le_mul (Nat.le_pred_of_lt ht.size_lt) (by omega)
  rw [dynamicIndex_eq hd hi, Platform.wrap_of_lt]
  rw [Platform.sizeRange, hP]
  omega

/-- **A `visit` is a `get` inside of a function that may be `noexcept`.** -/
theorem access_visit (hlen : mem.length < P.sizeRange) {ts : TypeList}
    {d : Deserialiser (.variant ts)} (hd : d.Valid P) (hbuffer : d.buffer = mem)
    (nothrow : Ty → Bool) {t : Ty} (ht : ts.element (numberAt d.buffer d.fixedOffset 2) = some t)
    (hsmall : t.Small) :
    access P ⟨.variant ts, d⟩ (.visit nothrow) =
      noexceptBoundary ((visitorOf nothrow).nothrowAll ts) (movedObject
        (deserialiseObject P mem (numberAt d.buffer (d.fixedOffset + 2) 4) (some t))) := by
  subst hbuffer
  have hi := ts.lt_length_of_element _ t ht
  have hget := getAlternative_eq hd (numberAt d.buffer d.fixedOffset 2)
  rw [ht] at hget
  have hrun : Visitor.visit P d (visitorOf nothrow) () =
      Visitor.callOn P d (visitorOf nothrow) (numberAt d.buffer d.fixedOffset 2) () :=
    congrFun (Visitor.visit_of_lt hd hi) ()
  show (match Visitor.visit P d (visitorOf nothrow) () with
    | .ok x _ => pure (Response.object x)
    | .error e _ => throw e) = _
  rw [hrun]
  by_cases hin : numberAt d.buffer (d.fixedOffset + 2) 4 + t.size ≤ d.buffer.length
  · have hobject := deserialiseObject_of_le hlen hin
    rw [Visitor.callOn_of_ok ht (hget.trans hobject), hobject]
    rfl
  · have herror := bind_of_error (@deserialise_of_not_le P _ _ _ hsmall.size_lt_sizeRange hin)
      fun x => pure (⟨t, x⟩ : Object)
    rw [Visitor.callOn_of_error (hget.trans herror) (), deserialiseObject, herror]
    rfl

/-- A `noexcept` function changes nothing about what succeeds, or may throw. -/
theorem boundary_outcome {b : Bool} {t : Ty} {pos : ℕ} (hb : b = true → pos + t.size ≤ mem.length) :
    noexceptBoundary b ((Expected.moves t pos).outcome P mem) =
      (Expected.moves t pos).outcome P mem := by
  by_cases h : pos + t.size ≤ mem.length
  · rw [outcome_of_le h]
    rfl
  · rw [outcome_of_not_le h, Bool.eq_false_of_not_eq_true fun htrue => h (hb htrue)]
    rfl

/-- An element of `elements()` is what `operator[]` returns. -/
theorem access_dynamicElement {t : Ty} {d : Deserialiser (.dynamicArray t)} (hd : d.Valid P)
    {i : ℕ} (hi : i < numberAt d.buffer d.fixedOffset 4) :
    access P ⟨.dynamicArray t, d⟩ (.dynamicElement i) = moved (d.dynamicIndex P i) := by
  have helement : ((List.range (numberAt d.buffer d.fixedOffset 4)).map
      (d.dynamicIndex P))[i]? = some (d.dynamicIndex P i) := by
    rw [List.getElem?_map, List.getElem?_range hi]
    rfl
  exact (bind_of_ok (dynamicElements_eq hd) _).trans (congrArg movedElement helement)

/-- **Every accessor does what the format says**, on every object in the buffer: unless it is
a `noexcept` visit of a value that is not in the buffer. -/
theorem access_eq (hP : P.sizeBits = 64) (hlen : mem.length < P.sizeRange) {x : Object}
    (hx : Located P mem x) {a : Accessor} {e : Expected} (h : Expects x a e)
    (hvisit : IsNoexceptVisit x a → e.InBounds mem) : access P x a = e.outcome P mem := by
  obtain @⟨t, pos, hin, hwf, hsmall⟩ := hx
  have htarget : ∀ {u : Ty} {offset : ℕ}, e = .moves u offset → u.Small := by
    rintro u offset rfl
    exact (h.target hwf hsmall).2
  -- each accessor by its equation, and then by what `deserialise` does at the offset
  cases h with
  | recordGet _ ht hname =>
    have hu := (Bool.and_eq_true_iff.mp hwf).1
    exact Eq.trans (congrArg movedObject (recordGet_eq ⟨hlen, hin⟩ hu ht hname))
      (movedObject_eq hlen (htarget rfl) _)
  | recordGetIndex _ ht =>
    have hu := (Bool.and_eq_true_iff.mp hwf).1
    exact Eq.trans (congrArg movedObject (recordGetIndex_eq ⟨hlen, hin⟩ hu ht))
      (movedObject_eq hlen (htarget rfl) _)
  | toBase _ hbase =>
    exact Eq.trans (congrArg movedObject (toBase_eq ⟨hlen, hin⟩ hbase))
      (movedObject_eq hlen (htarget rfl) _)
  | tupleGet _ ht =>
    exact Eq.trans (congrArg movedObject (tupleGet_eq ⟨hlen, hin⟩ ht))
      (movedObject_eq hlen (htarget rfl) _)
  | first => exact moved_eq hlen (htarget rfl) _
  | second =>
    exact Eq.trans (congrArg moved (second_eq ⟨hlen, hin⟩)) (moved_eq hlen (htarget rfl) _)
  | pairGet_zero => exact movedObject_eq hlen (htarget rfl) _
  | pairGet_one =>
    exact Eq.trans (congrArg movedObject (pairGet_one_eq ⟨hlen, hin⟩))
      (movedObject_eq hlen (htarget rfl) _)
  | staticIndex _ hi =>
    exact Eq.trans (congrArg moved (staticIndex_eq ⟨hlen, hin⟩ hi))
      (moved_eq hlen (htarget rfl) _)
  | staticAt _ hi =>
    exact Eq.trans (congrArg moved ((if_pos hi).trans (staticIndex_eq ⟨hlen, hin⟩ hi)))
      (moved_eq hlen (htarget rfl) _)
  | staticAt_bad _ hi => exact congrArg moved (if_neg (not_lt.mpr hi))
  | staticGet _ hi =>
    exact Eq.trans (congrArg moved ((if_pos hi).trans (staticIndex_eq ⟨hlen, hin⟩ hi)))
      (moved_eq hlen (htarget rfl) _)
  | staticElement _ hi =>
    refine Eq.trans (congrArg movedElement (staticElements_getElem? _ hi)) ?_
    exact Eq.trans (congrArg moved (staticIndex_eq ⟨hlen, hin⟩ hi))
      (moved_eq hlen (htarget rfl) _)
  | @size t =>
    have hd : Deserialiser.Valid P (objectAt P mem pos (.dynamicArray t) hin) := ⟨hlen, hin⟩
    exact bind_of_ok (size_eq hd) _
  | @empty t =>
    have hd : Deserialiser.Valid P (objectAt P mem pos (.dynamicArray t) hin) := ⟨hlen, hin⟩
    exact bind_of_ok (empty_eq hd) _
  | @dynamicIndex t i _ hi =>
    have hd : Deserialiser.Valid P (objectAt P mem pos (.dynamicArray t) hin) := ⟨hlen, hin⟩
    exact Eq.trans (congrArg moved (dynamicIndex_exact hP hd hsmall hi))
      (moved_eq hlen (htarget rfl) _)
  | @dynamicAt t i _ hi =>
    have hd : Deserialiser.Valid P (objectAt P mem pos (.dynamicArray t) hin) := ⟨hlen, hin⟩
    refine Eq.trans (congrArg moved ((dynamicAt_eq hd i).trans (if_pos hi))) ?_
    exact Eq.trans (congrArg moved (dynamicIndex_exact hP hd hsmall hi))
      (moved_eq hlen (htarget rfl) _)
  | @dynamicAt_bad t i _ hi =>
    have hd : Deserialiser.Valid P (objectAt P mem pos (.dynamicArray t) hin) := ⟨hlen, hin⟩
    exact congrArg moved ((dynamicAt_eq hd i).trans (if_neg (not_lt.mpr hi)))
  | @dynamicElement t i _ hi =>
    have hd : Deserialiser.Valid P (objectAt P mem pos (.dynamicArray t) hin) := ⟨hlen, hin⟩
    refine Eq.trans (access_dynamicElement hd hi) ?_
    exact Eq.trans (congrArg moved (dynamicIndex_exact hP hd hsmall hi))
      (moved_eq hlen (htarget rfl) _)
  | @hasValue t =>
    have hd : Deserialiser.Valid P (objectAt P mem pos (.optional t) hin) := ⟨hlen, hin⟩
    exact bind_of_ok (hasValue_eq hd) _
  | @value t _ hpresent =>
    have hd : Deserialiser.Valid P (objectAt P mem pos (.optional t) hin) := ⟨hlen, hin⟩
    exact Eq.trans (congrArg moved ((value_eq hd).trans (if_pos hpresent)))
      (moved_eq hlen (htarget rfl) _)
  | @value_absent t _ habsent =>
    have hd : Deserialiser.Valid P (objectAt P mem pos (.optional t) hin) := ⟨hlen, hin⟩
    exact congrArg moved ((value_eq hd).trans (if_neg fun h => h.ne' habsent))
  | @deref t _ hpresent =>
    have hd : Deserialiser.Valid P (objectAt P mem pos (.optional t) hin) := ⟨hlen, hin⟩
    exact Eq.trans (congrArg moved (deref_eq hd hpresent)) (moved_eq hlen (htarget rfl) _)
  | @index ts _ hts =>
    have hd : Deserialiser.Valid P (objectAt P mem pos (.variant ts) hin) := ⟨hlen, hin⟩
    exact bind_of_ok (index_eq hd hts) _
  | @get ts i u _ ht hi =>
    have hd : Deserialiser.Valid P (objectAt P mem pos (.variant ts) hin) := ⟨hlen, hin⟩
    have hlt := ts.lt_length_of_element i u ht
    refine Eq.trans (congrArg movedObject ((get_eq hd hlt).trans (if_pos hi))) ?_
    rw [ht]
    exact movedObject_eq hlen (htarget rfl) _
  | @get_bad ts i _ hlt hi =>
    have hd : Deserialiser.Valid P (objectAt P mem pos (.variant ts) hin) := ⟨hlen, hin⟩
    exact congrArg movedObject ((get_eq hd hlt).trans (if_neg hi))
  | @visit ts nothrow u _ ht =>
    have hd : Deserialiser.Valid P (objectAt P mem pos (.variant ts) hin) := ⟨hlen, hin⟩
    exact Eq.trans (access_visit hlen hd rfl nothrow ht (htarget rfl))
      ((congrArg _ (movedObject_eq hlen (htarget rfl) _)).trans (boundary_outcome hvisit))

/-- The exception: the program is terminated. -/
theorem access_terminates (hlen : mem.length < P.sizeRange) {x : Object}
    (hx : Located P mem x) {a : Accessor} {e : Expected} (h : Expects x a e)
    (hvisit : IsNoexceptVisit x a) (hout : ¬e.InBounds mem) :
    access P x a = .error .terminated := by
  obtain @⟨t, pos, hin, hwf, hsmall⟩ := hx
  cases h with
  | @visit ts nothrow u _ ht =>
    have hd : Deserialiser.Valid P (objectAt P mem pos (.variant ts) hin) := ⟨hlen, hin⟩
    have husmall : u.Small := (Expects.target (@Expects.visit _ nothrow _ _ ht) hwf hsmall).2
    rw [access_visit hlen hd rfl nothrow ht husmall, hvisit, movedObject_eq hlen husmall,
      outcome_of_not_le hout]
    rfl
  -- no other accessor is a visit
  | _ => exact hvisit.elim

/-! ### Every path of accessors -/

/-- **The objects that can be reached** by accessors from the object at an offset. -/
inductive Reachable (P : Platform) (mem : List UInt8) (t : Ty) (offset : ℕ) : Object → Prop
  | start {d : t.Deserialised} (h : deserialise P t mem offset = .ok d) :
      Reachable P mem t offset ⟨t, d⟩
  | step {x y : Object} {a : Accessor} {e : Expected} (hx : Reachable P mem t offset x)
      (he : Expects x a e) (ha : access P x a = .ok (.object y)) : Reachable P mem t offset y

/-- One step: what an accessor returns is in the buffer. -/
theorem Located.access (hP : P.sizeBits = 64) (hlen : mem.length < P.sizeRange) {x y : Object}
    (hx : Located P mem x) {a : Accessor} {e : Expected} (he : Expects x a e)
    (ha : access P x a = .ok (.object y)) : Located P mem y := by
  -- an accessor that returns has not terminated the program
  have hvisit : IsNoexceptVisit x a → e.InBounds mem := by
    intro hvisit
    by_contra hout
    rw [access_terminates hlen hx he hvisit hout] at ha
    contradiction
  have heq := ha.symm.trans (access_eq hP hlen hx he hvisit)
  cases e with
  | moves t pos =>
    obtain @⟨u, _, _, hwf, hsmall⟩ := hx
    obtain ⟨hwf', hsmall'⟩ := he.target hwf hsmall
    by_cases hin : pos + t.size ≤ mem.length
    · rw [outcome_of_le hin] at heq
      obtain rfl := Response.object.inj (Except.ok.inj heq)
      exact ⟨hin, hwf', hsmall'⟩
    · rw [outcome_of_not_le hin] at heq
      contradiction
  | number n => exact absurd (Except.ok.inj heq) nofun
  | flag b => exact absurd (Except.ok.inj heq) nofun
  | throws e => exact absurd heq nofun

/-- **Every object that can be reached is in the buffer.** -/
theorem Reachable.located (hP : P.sizeBits = 64) (hlen : mem.length < P.sizeRange) {t : Ty}
    (hwf : t.wellFormed = true) (hsmall : t.Small) {offset : ℕ} {x : Object}
    (hx : Reachable P mem t offset x) : Located P mem x := by
  induction hx with
  | start h =>
    rw [deserialise_eq hlen hsmall.size_lt_sizeRange] at h
    split_ifs at h with hin
    obtain rfl := Except.ok.inj h
    exact ⟨hin, hwf, hsmall⟩
  | step _ he ha ih => exact ih.access hP hlen he ha

/-- **Reading arbitrary bytes is safe and exact.** Whatever the bytes and the offset:
`deserialise` and every accessor on every object that can be reached do what the format says,
and nothing is ever read from outside of the buffer. For an accessor that is a `noexcept`
visit, this is so if and only if the value is in the buffer. -/
theorem reading_exact (hP : P.sizeBits = 64) (hlen : mem.length < P.sizeRange) {t : Ty}
    (hwf : t.wellFormed = true) (hsmall : t.Small) (offset : ℕ) :
    moved (deserialise P t mem offset) = (Expected.moves t offset).outcome P mem ∧
      ∀ x, Reachable P mem t offset x → ∀ a e, Expects x a e →
        access P x a ≠ .error .undefined ∧
          (access P x a = e.outcome P mem ↔ (IsNoexceptVisit x a → e.InBounds mem)) := by
  refine ⟨moved_eq hlen hsmall offset, fun x hx a e he => ?_⟩
  have hlocated := hx.located hP hlen hwf hsmall
  by_cases hvisit : IsNoexceptVisit x a → e.InBounds mem
  · have heq := access_eq hP hlen hlocated he hvisit
    exact ⟨heq ▸ outcome_ne e nofun, iff_of_true heq hvisit⟩
  · obtain ⟨hnoexcept, hout⟩ := Classical.not_imp.mp hvisit
    have hterm := access_terminates hlen hlocated he hnoexcept hout
    refine ⟨?_, iff_of_false (fun heq => ?_) hvisit⟩
    · rw [hterm]
      nofun
    · have hne : ∀ x, Failure.terminated ≠ .thrown x := nofun
      exact outcome_ne e hne (heq.symm.trans hterm)

/-- A present optional of a 16-bit number. -/
theorem reading_exact_optional :
    let mem : List UInt8 := [5, 0, 0, 0, 7, 1]
    let d : Deserialiser (.optional (.unsigned 2)) := ⟨mem, 0⟩
    access .x64 ⟨.optional (.unsigned 2), d⟩ .value =
      .ok (.object ⟨.unsigned 2, (263 : Fin (256 ^ 2))⟩) := by
  intro mem d
  have hsmall : (Ty.optional (.unsigned 2)).Small := show 2 < 2 ^ 32 by decide
  have hlen : mem.length < Platform.x64.sizeRange := by decide
  have h := reading_exact rfl hlen (by decide) hsmall 0
  have hpresent : 0 < numberAt d.buffer d.fixedOffset 4 := by decide
  exact (h.2 _ (.start rfl) .value _ (.value d hpresent)).2.mpr nofun

/-- **A `noexcept` visit of a value that is out of bounds** terminates the program, where
`buffer_bounds_error` is expected. -/
theorem visit_out_of_bounds_terminates :
    let ts : TypeList := .ofTypes [.unsigned 1]
    let d : Deserialiser (.variant ts) := ⟨[0, 0, 255, 0, 0, 0], 0⟩
    let visit : Accessor := .visit fun _ => true
    deserialise .x64 (.variant ts) d.buffer 0 = .ok d ∧
      Expects ⟨.variant ts, d⟩ visit (.moves (.unsigned 1) 255) ∧
      access .x64 ⟨.variant ts, d⟩ visit ≠
        .error (.thrown (.bufferBoundsError (boundsMessage .x64 (.unsigned 1) 6 255))) := by
  intro ts d visit
  refine ⟨rfl, .visit d rfl, ?_⟩
  have hterm : access .x64 ⟨.variant ts, d⟩ visit = .error .terminated := rfl
  rw [hterm]
  nofun

end SerialisePP
