import SerialisePP.Deserialiser

/-!
# What `deserialise` returns

`deserialise<T>` is total on buffers whose size is a `std::size_t`: it returns the object at
the offset if the fixed section lies in the buffer, and throws `buffer_bounds_error` if it
does not; it never reads a byte outside of the buffer. What follows about accessors rests on
this alone (`SerialisePP.deserialise_eq`).
-/

namespace SerialisePP

open LittleEndian Region

variable {P : Platform} {buffer : List UInt8} {offset : ℕ}

/-- **The object at an offset**: a scalar is the value of its bytes. -/
def objectAt (P : Platform) (buffer : List UInt8) (offset : ℕ) :
    (t : Ty) → offset + t.size ≤ buffer.length → t.Deserialised
  | .scalar s, h => s.ofFixedBytes P (slice buffer offset s.size) (length_slice h)
  | .staticArray t n, _ => (⟨buffer, offset⟩ : Deserialiser (.staticArray t n))
  | .dynamicArray t, _ => (⟨buffer, offset⟩ : Deserialiser (.dynamicArray t))
  | .pair a b, _ => (⟨buffer, offset⟩ : Deserialiser (.pair a b))
  | .tuple ts, _ => (⟨buffer, offset⟩ : Deserialiser (.tuple ts))
  | .optional t, _ => (⟨buffer, offset⟩ : Deserialiser (.optional t))
  | .variant ts, _ => (⟨buffer, offset⟩ : Deserialiser (.variant ts))
  | .record fs bases, _ => (⟨buffer, offset⟩ : Deserialiser (.record fs bases))

/-- The number stored in the `n` bytes at an offset. -/
def numberAt (buffer : List UInt8) (offset n : ℕ) : ℕ := ofBytes (slice buffer offset n)

theorem numberAt_lt (h : offset + n ≤ buffer.length) : numberAt buffer offset n < 256 ^ n := by
  have := ofBytes_lt (slice buffer offset n)
  rwa [length_slice h] at this

/-! ### The bounds check -/

/-- The check compares with the constant that the library has for the size. -/
theorem checkBufferSizeFor_eq_ite (t : Ty) : checkBufferSizeFor P t buffer offset =
    if offset + fixedDataSize P t ≤ buffer.length then .ok ()
    else .error (.thrown (.bufferBoundsError (boundsMessage P t buffer.length offset))) := by
  unfold checkBufferSizeFor
  by_cases h : offset + fixedDataSize P t ≤ buffer.length
  · have hok : (decide (buffer.length < offset) ||
        decide (buffer.length - offset < fixedDataSize P t)) = false := by
      rw [Bool.or_eq_false_iff, decide_eq_false_iff_not, decide_eq_false_iff_not]
      omega
    rw [if_pos h, hok]
    rfl
  · have hbad : (decide (buffer.length < offset) ||
        decide (buffer.length - offset < fixedDataSize P t)) = true := by
      rw [Bool.or_eq_true_iff, decide_eq_true_iff, decide_eq_true_iff]
      omega
    rw [if_neg h, hbad]
    rfl

/-- It is exact, for a type whose size is a `std::size_t`. -/
theorem checkBufferSizeFor_eq {t : Ty} (ht : t.size < P.sizeRange) :
    checkBufferSizeFor P t buffer offset =
      if offset + t.size ≤ buffer.length then .ok ()
      else .error (.thrown (.bufferBoundsError (boundsMessage P t buffer.length offset))) := by
  rw [checkBufferSizeFor_eq_ite, fixedDataSize_of_lt ht]

theorem readFixedData_of_le {n : ℕ} (h : offset + n ≤ buffer.length) :
    readFixedData buffer offset n = .ok ⟨slice buffer offset n, length_slice h⟩ := dif_pos h

/-- The largest scalar has a size that is a `std::size_t`, as any type the check has let
through. -/
theorem size_lt_of_le {n : ℕ} (hlen : buffer.length < P.sizeRange)
    (h : offset + n ≤ buffer.length) : n < P.sizeRange := by omega

/-- The next step after one that has succeeded. -/
theorem bind_of_ok {α β : Type} {m : Except Failure α} {a : α} (h : m = .ok a)
    (f : α → Except Failure β) : (m >>= f) = f a := by
  rw [h]
  rfl

/-- There is none after one that has failed. -/
theorem bind_of_error {α β : Type} {m : Except Failure α} {e : Failure} (h : m = .error e)
    (f : α → Except Failure β) : (m >>= f) = .error e := by
  rw [h]
  rfl

/-- An unsigned integer inside the buffer. -/
theorem unsignedDeserialiserValue_of_le {n : ℕ} (h : offset + n ≤ buffer.length) :
    unsignedDeserialiserValue P n buffer offset =
      .ok ⟨numberAt buffer offset n, numberAt_lt h⟩ := by
  rw [unsignedDeserialiserValue, bind_of_ok (readFixedData_of_le h)]
  exact congrArg Except.ok (Fin.ext (unsignedValue_eq P _))

theorem deserialiseUnsigned_of_le {n : ℕ} (hlen : buffer.length < P.sizeRange)
    (h : offset + n ≤ buffer.length) :
    deserialiseUnsigned P n buffer offset = .ok ⟨numberAt buffer offset n, numberAt_lt h⟩ := by
  have hcheck : checkBufferSizeFor P (.unsigned n) buffer offset = .ok () := by
    rw [checkBufferSizeFor_eq (size_lt_of_le hlen h)]
    exact if_pos h
  rw [deserialiseUnsigned, bind_of_ok hcheck, unsignedDeserialiserValue_of_le h]

/-- A scalar inside the buffer. -/
theorem scalarDeserialiserValue_of_le (hlen : buffer.length < P.sizeRange) :
    ∀ (s : Scalar) (h : offset + s.size ≤ buffer.length),
      scalarDeserialiserValue P buffer offset s =
        .ok (s.ofFixedBytes P (slice buffer offset s.size) (length_slice h))
  | .null, _ => rfl
  | .byte, h => bind_of_ok (readFixedData_of_le h) _
  | .bool, h => bind_of_ok (readFixedData_of_le h) _
  | .unsigned _, h => bind_of_ok (readFixedData_of_le h) _
  | .signed _, h =>
    (bind_of_ok (unsignedDeserialiserValue_of_le h) _).trans
      (congrArg Except.ok (SignedValue.ofUnsigned_congr (unsignedValue_eq P _).symm _
        (unsignedValue_lt P (length_slice h))))
  | .float, h =>
    (bind_of_ok (deserialiseUnsigned_of_le hlen h) _).trans
      (congrArg (fun u => Except.ok (BitVec.ofNat 32 u)) (unsignedValue_eq P _).symm)
  | .double, h =>
    (bind_of_ok (deserialiseUnsigned_of_le hlen h) _).trans
      (congrArg (fun u => Except.ok (BitVec.ofNat 64 u)) (unsignedValue_eq P _).symm)

theorem autoDeserialise_of_le (hlen : buffer.length < P.sizeRange) (t : Ty)
    (h : offset + t.size ≤ buffer.length) :
    autoDeserialise P buffer offset t = .ok (objectAt P buffer offset t h) := by
  cases t with
  | scalar s => exact scalarDeserialiserValue_of_le hlen s h
  | staticArray t n => rfl
  | dynamicArray t => rfl
  | pair a b => rfl
  | tuple ts => rfl
  | optional t => rfl
  | variant ts => rfl
  | record fs bases => rfl

/-! ### `deserialise` -/

/-- **`deserialise` inside of the buffer**: the object at the offset. -/
theorem deserialise_of_le (hlen : buffer.length < P.sizeRange) {t : Ty}
    (h : offset + t.size ≤ buffer.length) :
    deserialise P t buffer offset = .ok (objectAt P buffer offset t h) := by
  rw [deserialise, checkBufferSizeFor_eq (size_lt_of_le hlen h), if_pos h]
  exact autoDeserialise_of_le hlen t h

theorem deserialiseObject_of_le (hlen : buffer.length < P.sizeRange) {t : Ty}
    (h : offset + t.size ≤ buffer.length) :
    deserialiseObject P buffer offset (some t) = .ok ⟨t, objectAt P buffer offset t h⟩ :=
  bind_of_ok (deserialise_of_le hlen h) _

/-- **`deserialise` outside of the buffer**: the exception. -/
theorem deserialise_of_not_le {t : Ty} (ht : t.size < P.sizeRange)
    (h : ¬offset + t.size ≤ buffer.length) : deserialise P t buffer offset =
      .error (.thrown (.bufferBoundsError (boundsMessage P t buffer.length offset))) := by
  rw [deserialise, checkBufferSizeFor_eq ht, if_neg h]
  rfl

/-- **`deserialise` is exact**, on any bytes and at any offset. -/
theorem deserialise_eq (hlen : buffer.length < P.sizeRange) {t : Ty} (ht : t.size < P.sizeRange) :
    deserialise P t buffer offset =
      if h : offset + t.size ≤ buffer.length then .ok (objectAt P buffer offset t h)
      else .error (.thrown (.bufferBoundsError (boundsMessage P t buffer.length offset))) := by
  split_ifs with h
  · exact deserialise_of_le hlen h
  · exact deserialise_of_not_le ht h

/-- **`deserialise` succeeds whenever the check does**: past it, only a scalar is read, and its
size is the constant. -/
theorem deserialise_of_check (hlen : buffer.length < P.sizeRange) {t : Ty}
    (ht : t.wellFormed = true) (h : offset + fixedDataSize P t ≤ buffer.length) :
    ∃ x, deserialise P t buffer offset = .ok x := by
  have hcheck : checkBufferSizeFor P t buffer offset = .ok () :=
    (checkBufferSizeFor_eq_ite t).trans (if_pos h)
  cases t with
  | scalar s =>
    have hsize : s.size < P.sizeRange :=
      (of_decide_eq_true ht).trans_le Platform.two_pow_32_le_sizeRange
    rw [fixedDataSize, Platform.wrap_of_lt hsize] at h
    exact ⟨_, deserialise_of_le hlen h⟩
  | staticArray t n => exact ⟨_, bind_of_ok hcheck _⟩
  | dynamicArray t => exact ⟨_, bind_of_ok hcheck _⟩
  | pair a b => exact ⟨_, bind_of_ok hcheck _⟩
  | tuple ts => exact ⟨_, bind_of_ok hcheck _⟩
  | optional t => exact ⟨_, bind_of_ok hcheck _⟩
  | variant ts => exact ⟨_, bind_of_ok hcheck _⟩
  | record fs bases => exact ⟨_, bind_of_ok hcheck _⟩

/-- `deserialise` throws whenever the check does. -/
theorem deserialise_of_not_check {t : Ty} (h : ¬offset + fixedDataSize P t ≤ buffer.length) :
    deserialise P t buffer offset =
      .error (.thrown (.bufferBoundsError (boundsMessage P t buffer.length offset))) := by
  rw [deserialise, checkBufferSizeFor_eq_ite, if_neg h]
  rfl

/-- **A record is deserialised lazily**: nothing is done besides the check. -/
theorem deserialise_record_iff {fs : TypeList} {bases : List ℕ}
    {d : Deserialiser (.record fs bases)} :
    deserialise P (.record fs bases) buffer offset = .ok d ↔
      offset + fixedDataSize P (.record fs bases) ≤ buffer.length ∧ d = ⟨buffer, offset⟩ := by
  by_cases h : offset + fixedDataSize P (.record fs bases) ≤ buffer.length
  · have hok : deserialise P (.record fs bases) buffer offset =
        .ok (⟨buffer, offset⟩ : Deserialiser (.record fs bases)) :=
      bind_of_ok ((checkBufferSizeFor_eq_ite _).trans (if_pos h)) _
    rw [hok, and_iff_right h]
    exact ⟨fun hd => (Except.ok.inj hd).symm, fun hd => congrArg _ hd.symm⟩
  · rw [deserialise_of_not_check h]
    exact ⟨fun hd => (by cases hd), fun hd => absurd hd.1 h⟩

end SerialisePP
