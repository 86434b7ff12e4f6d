import SerialisePP.Lib.Effect
import SerialisePP.Lib.Region
import SerialisePP.Value

/-!
# The deserialisers

`deserialise<T>` and the member functions of every `deserialiser<T>`, as functions of the
bytes of the buffer, which may be anything. A deserialiser is a buffer and an offset; nothing
has been read yet when it is made, except that its fixed section has been checked to lie in
the buffer. Each accessor computes the offset of the object it moves to, in `std::size_t` or
in the type of the offset it has read, and calls `deserialise` there.

An accessor that takes its type from a template argument returns an `SerialisePP.Object`,
which carries its type along.
-/

namespace SerialisePP

open Region

variable (P : Platform)

/-- **`deserialiser<T>`**: a view of the buffer, and where the fixed section is. -/
structure Deserialiser (t : Ty) where
  /-- The bytes of the buffer. -/
  buffer : List UInt8
  /-- The offset of the fixed section. -/
  fixedOffset : ℕ
deriving DecidableEq

/-- **`deserialise_t<T>`**: a scalar is deserialised at once, anything else lazily. -/
def Ty.Deserialised : Ty → Type
  | .scalar s => s.Value
  | .staticArray t n => Deserialiser (.staticArray t n)
  | .dynamicArray t => Deserialiser (.dynamicArray t)
  | .pair a b => Deserialiser (.pair a b)
  | .tuple ts => Deserialiser (.tuple ts)
  | .optional t => Deserialiser (.optional t)
  | .variant ts => Deserialiser (.variant ts)
  | .record fs bases => Deserialiser (.record fs bases)

/-- The result of a deserialisation, with its type. -/
abbrev Object : Type := (t : Ty) × t.Deserialised

/-! ### Reading -/

/-- The first bytes of the fixed data, as many as a scalar has. The behaviour is undefined if
they do not lie in the buffer. -/
def readFixedData (buffer : List UInt8) (fixedOffset size : ℕ) :
    Except Failure { bytes : List UInt8 // bytes.length = size } :=
  if h : fixedOffset + size ≤ buffer.length then
    pure ⟨slice buffer fixedOffset size, length_slice h⟩
  else
    throw .undefined

/-- The message of the `buffer_bounds_error` for a type at an offset. -/
def boundsMessage (t : Ty) (size offset : ℕ) : String :=
  s!"Data buffer of size {size} is too small to deserialise type {P.typeName t} " ++
    s!"with fixed size {fixedDataSize P t} at offset {offset}"

/-- **`check_buffer_size_for<T>`.** -/
def checkBufferSizeFor (t : Ty) (buffer : List UInt8) (offset : ℕ) : Except Failure Unit :=
  if buffer.length < offset || buffer.length - offset < fixedDataSize P t then
    throw (.thrown (.bufferBoundsError (boundsMessage P t buffer.length offset)))
  else
    pure ()

/-- `deserialiser<U>::value()`, for an unsigned integer of `n` bytes. -/
def unsignedDeserialiserValue (n : ℕ) (buffer : List UInt8) (fixedOffset : ℕ) :
    Except Failure (Fin (256 ^ n)) := do
  let bytes ← readFixedData buffer fixedOffset n
  pure ⟨unsignedValue P bytes.1, unsignedValue_lt P bytes.2⟩

/-- `deserialise<U>`, for an unsigned integer of `n` bytes. -/
def deserialiseUnsigned (n : ℕ) (buffer : List UInt8) (fixedOffset : ℕ) :
    Except Failure (Fin (256 ^ n)) := do
  checkBufferSizeFor P (.unsigned n) buffer fixedOffset
  unsignedDeserialiserValue P n buffer fixedOffset

/-- **`deserialiser<S>::value()`**, for the scalars. -/
def scalarDeserialiserValue (buffer : List UInt8) (fixedOffset : ℕ) :
    (s : Scalar) → Except Failure s.Value
  | .null => pure ()
  | .byte => do
    let bytes ← readFixedData buffer fixedOffset 1
    pure (Scalar.ofFixedBytes P .byte bytes.1 bytes.2)
  | .bool => do
    let bytes ← readFixedData buffer fixedOffset 1
    pure (Scalar.ofFixedBytes P .bool bytes.1 bytes.2)
  | .unsigned n => unsignedDeserialiserValue P n buffer fixedOffset
  | .signed n => do
    let u ← unsignedDeserialiserValue P n buffer fixedOffset
    pure (.ofUnsigned u.1 u.2)
  | .float => do
    let u ← deserialiseUnsigned P 4 buffer fixedOffset
    pure (.ofNat 32 u.1)
  | .double => do
    let u ← deserialiseUnsigned P 8 buffer fixedOffset
    pure (.ofNat 64 u.1)

/-- `auto_deserialise`. -/
def autoDeserialise (buffer : List UInt8) (fixedOffset : ℕ) :
    (t : Ty) → Except Failure t.Deserialised
  | .scalar s => scalarDeserialiserValue P buffer fixedOffset s
  | .staticArray t n => pure (⟨buffer, fixedOffset⟩ : Deserialiser (.staticArray t n))
  | .dynamicArray t => pure (⟨buffer, fixedOffset⟩ : Deserialiser (.dynamicArray t))
  | .pair a b => pure (⟨buffer, fixedOffset⟩ : Deserialiser (.pair a b))
  | .tuple ts => pure (⟨buffer, fixedOffset⟩ : Deserialiser (.tuple ts))
  | .optional t => pure (⟨buffer, fixedOffset⟩ : Deserialiser (.optional t))
  | .variant ts => pure (⟨buffer, fixedOffset⟩ : Deserialiser (.variant ts))
  | .record fs bases => pure (⟨buffer, fixedOffset⟩ : Deserialiser (.record fs bases))

/-- **`deserialise<T>(buffer, fixed_offset)`.** -/
def deserialise (t : Ty) (buffer : List UInt8) (fixedOffset : ℕ) :
    Except Failure t.Deserialised := do
  checkBufferSizeFor P t buffer fixedOffset
  autoDeserialise P buffer fixedOffset t

/-- `deserialise<T>` for a type that comes from a template argument; without one the source is
ill-formed. -/
def deserialiseObject (buffer : List UInt8) (fixedOffset : ℕ) : Option Ty → Except Failure Object
  | some t => do
    let x ← deserialise P t buffer fixedOffset
    pure ⟨t, x⟩
  | none => throw .illFormed

/-- `assert`, in a deserialiser. -/
def check (condition : Bool) : Except Failure Unit :=
  if P.assertions && !condition then throw .assertFailed else pure ()

/-- A function declared `noexcept` terminates the program if an exception would leave it. -/
def noexceptBoundary {α : Type} (nothrow : Bool) : Except Failure α → Except Failure α
  | .error (.thrown e) => .error (if nothrow then .terminated else .thrown e)
  | r => r

/-- The message of the `std::out_of_range` of an array. -/
def outOfRangeMessage (index : ℕ) (array : String) (size : ℕ) : String :=
  s!"index {index} is out of bounds for {array} with size {size}"

namespace Deserialiser

/-! ### `static_array` -/

section StaticArray

variable {t : Ty} {n : ℕ} (d : Deserialiser (.staticArray t n))

/-- `operator[]`. -/
def staticIndex (index : ℕ) : Except Failure t.Deserialised := do
  check P (index < n)
  deserialise P t d.buffer (P.wrap (d.fixedOffset + P.wrap (index * fixedDataSize P t)))

/-- `at()`. -/
def staticAt (index : ℕ) : Except Failure t.Deserialised :=
  if index < n then d.staticIndex P index
  else throw (.thrown (.outOfRange (outOfRangeMessage index "static_array" n)))

/-- `get<Index>()`. -/
def staticGet (index : ℕ) : Except Failure t.Deserialised :=
  if index < n then d.staticIndex P index else throw .illFormed

/-- `elements()`, a lazy view: each element is deserialised when it is asked for. -/
def staticElements : List (Except Failure t.Deserialised) :=
  (List.range n).map (d.staticIndex P)

end StaticArray

/-! ### `dynamic_array` -/

section DynamicArray

variable {t : Ty} (d : Deserialiser (.dynamicArray t))

/-- `size()`. -/
def size : Except Failure ℕ := do
  let n ← deserialiseUnsigned P 4 d.buffer d.fixedOffset
  pure n.1

/-- `empty()`. -/
def empty : Except Failure Bool := do
  let n ← d.size P
  pure (n == 0)

/-- `_offset()`. -/
def elementsOffset : Except Failure ℕ := do
  let offset ← deserialiseUnsigned P 4 d.buffer
    (P.wrap (d.fixedOffset + fixedDataSize P .dynamicArraySize))
  pure offset.1

/-- `operator[]`. -/
def dynamicIndex (index : ℕ) : Except Failure t.Deserialised := do
  -- the argument of `assert`, which reads the size, is not evaluated without assertions
  if P.assertions then
    let n ← d.size P
    check P (index < n)
  let offset ← d.elementsOffset P
  deserialise P t d.buffer (P.wrap (offset + P.wrap (fixedDataSize P t * index)))

/-- `at()`. -/
def dynamicAt (index : ℕ) : Except Failure t.Deserialised := do
  let n ← d.size P
  if index < n then d.dynamicIndex P index
  else throw (.thrown (.outOfRange (outOfRangeMessage index "dynamic_array" n)))

/-- `elements()`, a lazy view: each element is deserialised when it is asked for. -/
def dynamicElements : Except Failure (List (Except Failure t.Deserialised)) := do
  let n ← d.size P
  pure ((List.range n).map (d.dynamicIndex P))

end DynamicArray

/-! ### `pair` -/

section Pair

variable {a b : Ty} (d : Deserialiser (.pair a b))

/-- `first()`. -/
def first : Except Failure a.Deserialised := deserialise P a d.buffer d.fixedOffset

/-- `second()`. -/
def second : Except Failure b.Deserialised :=
  deserialise P b d.buffer (P.wrap (d.fixedOffset + fixedDataSize P a))

/-- `get<Index>()`. -/
def pairGet : (index : ℕ) → Except Failure Object
  | 0 => do
    let x ← d.first P
    pure ⟨a, x⟩
  | 1 => do
    let x ← d.second P
    pure ⟨b, x⟩
  | _ => throw .illFormed

end Pair

/-! ### `tuple` -/

/-- `tuple_element_offset`. -/
def tupleElementOffset : TypeList → (index : ℕ) → ℕ
  | _, 0 => 0
  | .nil, _ + 1 => 0
  | .cons _ t ts, index + 1 => P.wrap (fixedDataSize P t + tupleElementOffset ts index)

/-- `get<Index>()`. -/
def tupleGet {ts : TypeList} (d : Deserialiser (.tuple ts)) (index : ℕ) : Except Failure Object :=
  deserialiseObject P d.buffer (P.wrap (d.fixedOffset + tupleElementOffset P ts index))
    (ts.element index)

/-! ### `record` -/

section Record

/-- `named_field_offset`. -/
def namedFieldOffset : TypeList → (name : String) → ℕ
  | .nil, _ => 0
  | .cons n t ts, name =>
    if n == name then 0 else P.wrap (fixedDataSize P t + namedFieldOffset ts name)

variable {fs : TypeList} {bases : List ℕ} (d : Deserialiser (.record fs bases))

/-- `get<Name>()`, which is ill-formed without such a field. -/
def recordGet (name : String) : Except Failure Object :=
  match fs.fieldType name with
  | some t =>
    -- the constraint of `_get`
    if P.wrap (namedFieldOffset P fs name + fixedDataSize P t) ≤
        fixedDataSize P (.record fs bases) then
      deserialiseObject P d.buffer (P.wrap (d.fixedOffset + namedFieldOffset P fs name)) (some t)
    else throw .illFormed
  | none => throw .illFormed

/-- `get<Index>()`, which goes by the name of the field. -/
def recordGetIndex (index : ℕ) : Except Failure Object :=
  match fs.fieldName index with
  | some name => d.recordGet P name
  | none => throw .illFormed

/-- The conversion to a record the type is derived from: to itself, or to a base. It is
`noexcept`. -/
def toBase (index : ℕ) : Except Failure Object :=
  -- the record itself comes before its bases, from the most to the least derived
  match (fs.length :: bases).drop index with
  | n :: rest =>
    let base : Ty := .record (fs.take n) rest
    -- the `static_assert` that the base is no larger
    if fixedDataSize P base ≤ fixedDataSize P (.record fs bases) then
      noexceptBoundary true (deserialiseObject P d.buffer d.fixedOffset (some base))
    else throw .illFormed
  | [] => throw .illFormed

end Record

/-! ### `optional` -/

section Optional

variable {t : Ty} (d : Deserialiser (.optional t))

/-- `_value_offset()`. -/
def valueOffset : Except Failure ℕ := do
  let offset ← deserialiseUnsigned P 4 d.buffer d.fixedOffset
  pure offset.1

/-- `has_value()`. -/
def hasValue : Except Failure Bool := do
  let offset ← d.valueOffset P
  pure (0 < offset)

/-- `operator*`. The offset is a `std::uint32_t`, and so is the offset minus 1. -/
def deref : Except Failure t.Deserialised := do
  let offset ← d.valueOffset P
  check P (0 < offset)
  -- `offset - 1`
  deserialise P t d.buffer ((offset + (2 ^ 32 - 1)) % 2 ^ 32)

/-- `value()`. -/
def value : Except Failure t.Deserialised := do
  if ← d.hasValue P then d.deref P else throw (.thrown .badOptionalAccess)

end Optional

/-! ### `variant` -/

section Variant

variable {ts : TypeList} (d : Deserialiser (.variant ts))

/-- `index()`. A `variant<>` has none. -/
def index : Except Failure ℕ :=
  if ts.length = 0 then throw .illFormed
  else do
    let i ← deserialiseUnsigned P 2 d.buffer d.fixedOffset
    pure i.1

/-- `_offset()`. -/
def alternativeOffset : Except Failure ℕ := do
  let offset ← deserialiseUnsigned P 4 d.buffer
    (P.wrap (d.fixedOffset + fixedDataSize P .variantIndex))
  pure offset.1

/-- `_get<Index>()`. -/
def getAlternative (i : ℕ) : Except Failure Object := do
  let offset ← d.alternativeOffset P
  deserialiseObject P d.buffer offset (ts.element i)

/-- `get<Index>()`. -/
def get (i : ℕ) : Except Failure Object :=
  if ts.length ≤ i then throw .illFormed
  else do
    if i = (← d.index P) then d.getAlternative P i
    else throw (.thrown .badVariantAccess)

end Variant

end Deserialiser

/-! ### `visit` -/

/-- **A visitor**, which may have a state of its own. The language looks at the type of its
argument only: for which types a call cannot throw is known at compile time. -/
structure Visitor (σ R : Type) where
  /-- The call operator. -/
  call : Object → EStateM Failure σ R
  /-- `std::is_nothrow_invocable_v`. -/
  nothrow : Ty → Bool
  /-- A call that is declared not to throw does not. -/
  nothrow_call : ∀ (x : Object) (s : σ), nothrow x.1 = true →
    Effect.Sat (call x) s (fun _ _ => True) fun e _ => ∀ exn, e ≠ .thrown exn

namespace Visitor

variable {σ R : Type}

/-- Whether no call on an alternative can throw. -/
def nothrowAll (visitor : Visitor σ R) : TypeList → Bool
  | .nil => true
  | .cons _ t ts => visitor.nothrow t && visitor.nothrowAll ts

/-- A computation of the deserialiser, on the way to the visitor. -/
def lift {α : Type} (m : Except Failure α) : EStateM Failure σ α := fun s =>
  match m with
  | .ok a => .ok a s
  | .error e => .error e s

/-- A `noexcept` function, around a run. -/
def boundary (nothrow : Bool) (m : EStateM Failure σ R) : EStateM Failure σ R := fun s =>
  match m s with
  | .error (.thrown e) s' => .error (if nothrow then .terminated else .thrown e) s'
  | r => r

variable {ts : TypeList} (d : Deserialiser (.variant ts)) (visitor : Visitor σ R)

/-- **`_visit<I>`**, for the alternatives from `i` on. -/
def visitFrom : TypeList → (i index : ℕ) → EStateM Failure σ R
  | .nil, _, _ => throw .illFormed
  | .cons _ _ .nil, i, index => boundary (visitor.nothrowAll ts) do
    lift (check P (index < ts.length))
    if i ≠ index then
      -- nothing is left to try, and what follows is the call
      lift (check P false)
    let x ← lift (d.getAlternative P i)
    visitor.call x
  | .cons _ _ (.cons name t rest), i, index => boundary (visitor.nothrowAll ts) do
    lift (check P (index < ts.length))
    if i ≠ index then
      visitFrom (.cons name t rest) (i + 1) index
    else
      let x ← lift (d.getAlternative P i)
      visitor.call x

/-- **`visit`**, for a variant with alternatives. -/
def visit : EStateM Failure σ R :=
  boundary (visitor.nothrowAll ts) do
    let index ← lift (d.index P)
    visitFrom P d visitor ts 0 index

end Visitor

end SerialisePP
