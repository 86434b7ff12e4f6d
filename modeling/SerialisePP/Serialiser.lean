import SerialisePP.Buffer
import SerialisePP.Layout

/-!
# The serialisers

`serialiser<T>::serialise` for every type, and the functions they are written with: offsets
are threaded by hand through the fixed section, the end of the buffer is where variable data
goes, and each value is written by a callback that is told its fixed offset.

The serialisers come in two variants (`SerialisePP.Path`). The library takes the span of the
buffer early, wherever the type at hand never uses variable data, and wraps the buffer while
the elements of a dynamic array are serialised; this is `SerialisePP.Path.spans`. Without
either, that is, with the buffer itself handed on everywhere, it is
`SerialisePP.Path.plain`, to compare with.
-/

namespace SerialisePP

/-- Whether spans and wrappers are used. -/
inductive Path
  /-- The library's own way. -/
  | spans
  /-- Every function is handed the buffer itself. -/
  | plain
deriving DecidableEq, Repr

variable {B : Type} [SerialiseBuffer B] (P : Platform) (path : Path)

/-! ### The building blocks -/

/-- `with_buffer_for<Ts...>`: if all the types are fixed-size, the function is handed a span
in place of the buffer. -/
def withBufferFor (fixedSize : Bool) (buffer : BufferArg) (func : BufferArg → M B Unit) :
    M B Unit :=
  match path, fixedSize with
  | .spans, true => do
    let view ← buffer.getSpan
    func (.span view)
  | _, _ => func buffer

/-- **`push_fixed_subobject<T>`**: calls the function with the offset, and returns the offset
advanced by the size of `T`. -/
def pushFixedSubobject (t : Ty) (fixedOffset : ℕ) (func : ℕ → M B Unit) : M B ℕ := do
  func fixedOffset
  pure (P.wrap (fixedOffset + fixedDataSize P t))

/-- **`push_variable_subobjects<T>`**: makes room for `count` subobjects at the end of the
buffer, and calls the function with the offset of the first. -/
def pushVariableSubobjects (t : Ty) (count : ℕ) (buffer : BufferArg) (func : ℕ → M B Unit) :
    M B Unit := do
  let view ← buffer.getSpan
  -- the product is a `std::size_t`, and is not checked
  buffer.extend (P.wrap (fixedDataSize P t * count))
  func view.size

/-- `to_data_offset`. -/
def toDataOffset (offset : ℕ) : M B ℕ :=
  if offset ≤ maxDataOffset then pure offset
  else throw (.thrown (.objectSizeError (dataOffsetMessage offset)))

/-- `to_dynamic_array_size`. -/
def toDynamicArraySize (size : ℕ) : M B ℕ :=
  if size ≤ maxDynamicArraySize then pure size
  else throw (.thrown (.objectSizeError (dynamicArraySizeMessage size)))

/-- The assertion of `serialise`, about the offset and the size of the span. -/
def assertOffset (buffer : BufferArg) (fixedOffset : ℕ) : M B Unit :=
  if P.assertions then do
    let view ← buffer.getSpan
    assert P (fixedOffset ≤ view.size)
  else
    pure ()

/-- **`serialise<T>` at an offset**, given `serialiser<T>::serialise` for a source. -/
def serialiseWith (t : Ty) (serialiser : BufferArg → ℕ → M B Unit) (buffer : BufferArg)
    (fixedOffset : ℕ) : M B Unit :=
  withBufferFor path t.isFixedSize buffer fun buffer => do
    assertOffset P buffer fixedOffset
    serialiser buffer fixedOffset

/-! ### Scalars -/

/-- `serialiser<std::byte>` and `serialiser<U>`, for the bytes of the value. -/
def serialiseBytes (xs : List UInt8) (buffer : BufferArg) (fixedOffset : ℕ) : M B Unit := do
  let view ← buffer.getSpan
  write view fixedOffset xs

/-- The serialisers of the scalars that are written as another scalar `t`, through
`serialise<T>` on a span. -/
def serialiseAs (t : Ty) (xs : List UInt8) (buffer : BufferArg) (fixedOffset : ℕ) :
    M B Unit := do
  let view ← buffer.getSpan
  serialiseWith P path t (serialiseBytes xs) (.span view) fixedOffset

/-- `serialise` of an unsigned integer of `n` bytes, as the composite types use it. -/
def serialiseUnsigned (n value : ℕ) : BufferArg → ℕ → M B Unit :=
  serialiseWith P path (.unsigned n) (serialiseBytes (unsignedBytes P n value))

/-- **The serialisers of the scalars.** -/
def scalarSerialiser : (s : Scalar) → s.Value → BufferArg → ℕ → M B Unit
  | .null, _, _, _ => pure ()
  | .byte, v, buffer, fixedOffset => serialiseBytes [v] buffer fixedOffset
  | .bool, v, buffer, fixedOffset =>
    serialiseAs P path (.scalar .byte) [bif v then 0x01 else 0x00] buffer fixedOffset
  | .unsigned n, v, buffer, fixedOffset =>
    serialiseBytes (unsignedBytes P n v.val) buffer fixedOffset
  | .signed n, v, buffer, fixedOffset =>
    serialiseAs P path (.unsigned n) (unsignedBytes P n v.toUnsigned) buffer fixedOffset
  | .float, v, buffer, fixedOffset =>
    serialiseAs P path (.unsigned 4) (unsignedBytes P 4 v.toNat) buffer fixedOffset
  | .double, v, buffer, fixedOffset =>
    serialiseAs P path (.unsigned 8) (unsignedBytes P 8 v.toNat) buffer fixedOffset

/-! ### Arrays -/

/-- The loop over consecutive elements of type `t`, given their serialisers; returns the
offset after the last. -/
def serialiseEach (t : Ty) : List (BufferArg → ℕ → M B Unit) → BufferArg → ℕ → M B ℕ
  | [], _, fixedOffset => pure fixedOffset
  | s :: ss, buffer, fixedOffset => do
    let fixedOffset ← pushFixedSubobject P t fixedOffset (serialiseWith P path t s buffer)
    serialiseEach t ss buffer fixedOffset

/-- `_range_visitor`: serialises the elements of a range, and returns their number. -/
def visitRange (t : Ty) (elements : List (BufferArg → ℕ → M B Unit)) (buffer : BufferArg) :
    M B ℕ := do
  pushVariableSubobjects P t elements.length buffer fun elementsFixedOffset =>
    withBufferFor path t.isFixedSize buffer fun buffer => do
      let _ ← serialiseEach P path t elements buffer elementsFixedOffset
  pure elements.length

/-- `_serialise_elements`, on the buffer or on the wrapper. A default-constructed source
holds no range at all at run time, but an empty one at compile time. -/
def visitSource (t : Ty) (source : ArraySource P (BufferArg → ℕ → M B Unit))
    (buffer : BufferArg) : M B ℕ :=
  match source with
  | .nothing => if P.constantEvaluated then visitRange P path t [] buffer else pure 0
  | .range elements _ => visitRange P path t elements buffer

/-- `_serialise_elements`: the wrapper is made here, unless there is one already. -/
def serialiseElements (t : Ty) (source : ArraySource P (BufferArg → ℕ → M B Unit))
    (buffer : BufferArg) : M B ℕ :=
  match path, buffer with
  | .spans, .direct => do
    makeWrapper
    visitSource P path t source .wrapper
  | _, buffer => visitSource P path t source buffer

/-- The offset stored for the elements of a dynamic array: 0, and unchecked, if there are
none. -/
def elementsOffset (elementCount variableOffset : ℕ) : M B ℕ :=
  if 0 < elementCount then toDataOffset variableOffset else pure 0

/-- `serialiser<dynamic_array<T>>`, given the serialisers of the elements. -/
def serialiseDynamicArray (t : Ty) (source : ArraySource P (BufferArg → ℕ → M B Unit))
    (buffer : BufferArg) (fixedOffset : ℕ) : M B Unit := do
  -- the elements come first, so this is where they start
  let variableOffset ← buffer.getSpan
  let elementCount ← serialiseElements P path t source buffer
  let size ← toDynamicArraySize elementCount
  let fixedOffset ← pushFixedSubobject P .dynamicArraySize fixedOffset
    (serialiseUnsigned P path 4 size buffer)
  let offset ← elementsOffset elementCount variableOffset.size
  let _ ← pushFixedSubobject P .dataOffset fixedOffset (serialiseUnsigned P path 4 offset buffer)

/-- The source of a `dynamic_array`, with a function applied to every element. -/
def ArraySource.map {α β : Type} (f : α → β) : ArraySource P α → ArraySource P β
  | .nothing => .nothing
  | .range elements h => .range (elements.map f) (by rwa [List.length_map])

/-! ### Optionals and variants -/

/-- `serialiser<optional<T>>` for an absent value. -/
def serialiseAbsent (buffer : BufferArg) (fixedOffset : ℕ) : M B Unit := do
  let _ ← pushFixedSubobject P .dataOffset fixedOffset (serialiseUnsigned P path 4 0 buffer)

/-- `serialiser<optional<T>>` for a present value, given its serialiser. -/
def serialisePresent (t : Ty) (serialiser : BufferArg → ℕ → M B Unit) (buffer : BufferArg)
    (fixedOffset : ℕ) : M B Unit := do
  let variableOffset ← buffer.getSpan
  -- one more than the offset, as 0 stands for an absent value
  let offset ← toDataOffset (P.wrap (variableOffset.size + 1))
  let _ ← pushFixedSubobject P .dataOffset fixedOffset (serialiseUnsigned P path 4 offset buffer)
  pushVariableSubobjects P t 1 buffer (serialiseWith P path t serialiser buffer)

/-- `serialiser<variant<>>`. -/
def serialiseEmptyVariant (buffer : BufferArg) (fixedOffset : ℕ) : M B Unit := do
  let fixedOffset ← pushFixedSubobject P .variantIndex fixedOffset
    (serialiseUnsigned P path 2 0 buffer)
  let _ ← pushFixedSubobject P .dataOffset fixedOffset (serialiseUnsigned P path 4 0 buffer)

/-- `serialiser<variant<Ts...>>` for an alternative, given its index and what the visitor
does with it. -/
def serialiseVariant (sourceIndex : ℕ) (visit : BufferArg → M B Unit) (buffer : BufferArg)
    (fixedOffset : ℕ) : M B Unit := do
  assert P (sourceIndex ≤ maxVariantTypes)
  -- `static_cast` to the index type
  let index := sourceIndex % 2 ^ 16
  let fixedOffset ← pushFixedSubobject P .variantIndex fixedOffset
    (serialiseUnsigned P path 2 index buffer)
  let variableOffset ← buffer.getSpan
  let offset ← toDataOffset variableOffset.size
  let _ ← pushFixedSubobject P .dataOffset fixedOffset (serialiseUnsigned P path 4 offset buffer)
  visit buffer

/-! ### All types -/

mutual

/-- **`serialiser<T>::serialise`**. -/
def serialiser : (t : Ty) → t.Source P → BufferArg → ℕ → M B Unit
  | .scalar s, v, buffer, fixedOffset => scalarSerialiser P path s v buffer fixedOffset
  | .staticArray t _, v, buffer, fixedOffset => do
    let _ ← serialiseEach P path t (v.1.map (serialiser t)) buffer fixedOffset
  | .dynamicArray t, v, buffer, fixedOffset =>
    serialiseDynamicArray P path t (ArraySource.map P (serialiser t) v) buffer fixedOffset
  | .pair a b, v, buffer, fixedOffset => do
    let fixedOffset ← pushFixedSubobject P a fixedOffset
      (serialiseWith P path a (serialiser a v.1) buffer)
    let _ ← pushFixedSubobject P b fixedOffset (serialiseWith P path b (serialiser b v.2) buffer)
  | .tuple ts, v, buffer, fixedOffset => serialiseFields ts v buffer fixedOffset
  | .optional _, none, buffer, fixedOffset => serialiseAbsent P path buffer fixedOffset
  | .optional t, some v, buffer, fixedOffset =>
    serialisePresent P path t (serialiser t v) buffer fixedOffset
  | .variant .nil, _, buffer, fixedOffset => serialiseEmptyVariant P path buffer fixedOffset
  | .variant (.cons _ _ _), none, _, _ => throw (.thrown .badVariantAccess)
  | .variant (.cons name t ts), some v, buffer, fixedOffset =>
    let sourceIndex := (TypeList.cons name t ts).alternativeIndex v
    serialiseVariant P path sourceIndex (serialiseAlternative (.cons name t ts) v) buffer
      fixedOffset
  | .record fs _, v, buffer, fixedOffset => serialiseFields fs v buffer fixedOffset

/-- The serialisers of the elements of a tuple, or of the fields of a record, one after the
other. -/
def serialiseFields : (ts : TypeList) → ts.Data (ArraySource P) → BufferArg → ℕ → M B Unit
  | .nil, _, _, _ => pure ()
  | .cons _ t ts, v, buffer, fixedOffset => do
    let fixedOffset ← pushFixedSubobject P t fixedOffset
      (serialiseWith P path t (serialiser t v.1) buffer)
    serialiseFields ts v.2 buffer fixedOffset

/-- The visitor of a variant: serialises the alternative into the variable section. -/
def serialiseAlternative : (ts : TypeList) → ts.Alternative (ArraySource P) → BufferArg → M B Unit
  | .nil, v, _ => nomatch v
  | .cons _ t _, .inl v, buffer =>
    pushVariableSubobjects P t 1 buffer (serialiseWith P path t (serialiser t v) buffer)
  | .cons _ _ ts, .inr v, buffer => serialiseAlternative ts v buffer

end

/-- **`serialise(source, buffer, fixed_offset)`**, as a run. -/
def serialiseRun (t : Ty) (v : t.Source P) (fixedOffset : ℕ) : M B Unit :=
  serialiseWith P path t (serialiser P path t v) .direct fixedOffset

/-- **`serialise(source, buffer, fixed_offset)`**. -/
def serialise (t : Ty) (v : t.Source P) (fixedOffset : ℕ) : EStateM Failure B Unit :=
  call (serialiseRun P .spans t v fixedOffset)

/-- **`serialise(source, buffer)`**: initialises the buffer, and serialises from its start. -/
def serialiseObject (t : Ty) (v : t.Source P) : EStateM Failure B Unit := do
  let _ ← SerialiseBuffer.initialise (fixedDataSize P t)
  serialise P t v 0

end SerialisePP
