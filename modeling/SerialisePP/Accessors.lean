import SerialisePP.Reading

/-!
# What the accessors do

Each accessor of a deserialiser whose fixed section lies in the buffer
(`SerialisePP.Deserialiser.Valid`, which is what `deserialise` guarantees), in exact
arithmetic: which numbers it reads from its own fixed section, and where it then calls
`deserialise`. The bytes of the buffer may be anything.

Offsets inside of the fixed section never wrap around. The one computation that could is the
offset of an element of a dynamic array, which is exact as long as it is a `std::size_t`.
-/

namespace SerialisePP

variable {P : Platform}

/-- **A deserialiser as `deserialise` returns it**: the size of the buffer is a
`std::size_t`, and the fixed section lies in the buffer. -/
structure Deserialiser.Valid (P : Platform) {t : Ty} (d : Deserialiser t) : Prop where
  length_lt : d.buffer.length < P.sizeRange
  fixed_le : d.fixedOffset + t.size ≤ d.buffer.length

/-! ### Offsets of subobjects -/

namespace TypeList

theorem size_take_add_le : ∀ (ts : TypeList) (i : ℕ) (t : Ty), ts.element i = some t →
    (ts.take i).size + t.size ≤ ts.size
  | .nil, _, _, h => nomatch h
  | .cons _ t ts, 0, u, h => by
    obtain rfl : t = u := Option.some.inj h
    rw [take, size, size]
    omega
  | .cons _ t ts, i + 1, u, h => by
    have := size_take_add_le ts i u h
    rw [take, size, size]
    omega

theorem size_take_le : ∀ (ts : TypeList) (n : ℕ), (ts.take n).size ≤ ts.size
  | ts, 0 => by rw [take, size]; exact Nat.zero_le _
  | .nil, _ + 1 => le_rfl
  | .cons _ _ ts, n + 1 => by
    rw [take, size, size]
    exact Nat.add_le_add_left (size_take_le ts n) _

/-- An index with a type is in range. -/
theorem lt_length_of_element : ∀ (ts : TypeList) (i : ℕ) (t : Ty), ts.element i = some t →
    i < ts.length
  | .nil, _, _, h => nomatch h
  | .cons _ _ _, 0, _, _ => Nat.succ_pos _
  | .cons _ _ ts, i + 1, t, h => Nat.succ_lt_succ (lt_length_of_element ts i t h)

/-- An index in range has a type. -/
theorem exists_element : ∀ (ts : TypeList) (i : ℕ), i < ts.length → ∃ t, ts.element i = some t
  | .nil, _, h => absurd h (Nat.not_lt_zero _)
  | .cons _ t _, 0, _ => ⟨t, rfl⟩
  | .cons _ _ ts, i + 1, h => exists_element ts i (Nat.lt_of_succ_lt_succ h)

/-- The types of a list of well-formed types. -/
theorem wellFormed_element : ∀ (ts : TypeList) (i : ℕ) (t : Ty), ts.wellFormed = true →
    ts.element i = some t → t.wellFormed = true
  | .nil, _, _, _, h => nomatch h
  | .cons _ t _, 0, u, hts, h => by
    obtain rfl : t = u := Option.some.inj h
    exact (Bool.and_eq_true_iff.mp hts).1
  | .cons _ _ ts, i + 1, u, hts, h =>
    wellFormed_element ts i u (Bool.and_eq_true_iff.mp hts).2 h

/-- A field with a name is one with a type. -/
theorem exists_fieldName : ∀ (ts : TypeList) (i : ℕ) (t : Ty), ts.element i = some t →
    ∃ name, ts.fieldName i = some name
  | .nil, _, _, h => nomatch h
  | .cons name _ _, 0, _, _ => ⟨name, rfl⟩
  | .cons _ _ ts, i + 1, t, h => exists_fieldName ts i t h

theorem containsField_of_fieldName : ∀ (ts : TypeList) (i : ℕ) (name : String),
    ts.fieldName i = some name → ts.containsField name = true
  | .nil, _, _, h => nomatch h
  | .cons n _ ts, 0, name, h => by
    obtain rfl : n = name := Option.some.inj h
    rw [containsField, beq_self_eq_true, Bool.true_or]
  | .cons n _ ts, i + 1, name, h => by
    rw [containsField, containsField_of_fieldName ts i name h, Bool.or_true]

/-- A name that is in the rest of a list is not at its head. -/
theorem beq_eq_false_of_fieldName {ts : TypeList} {n name : String} {i : ℕ}
    (hn : (!ts.containsField n) = true) (h : ts.fieldName i = some name) : (n == name) = false := by
  by_contra hcontra
  obtain rfl := beq_iff_eq.mp (Bool.eq_true_of_not_eq_false hcontra)
  rw [containsField_of_fieldName ts i n h] at hn
  exact absurd hn Bool.false_ne_true

/-- **With unique names, a name leads to its own field.** -/
theorem fieldType_of_fieldName : ∀ (ts : TypeList) (i : ℕ) (name : String),
    ts.allFieldsUnique = true → ts.fieldName i = some name → ts.fieldType name = ts.element i
  | .nil, _, _, _, h => nomatch h
  | .cons n _ _, 0, name, _, h => by
    obtain rfl : n = name := Option.some.inj h
    rw [fieldType, beq_self_eq_true, if_pos rfl, element]
  | .cons n t ts, i + 1, name, hu, h => by
    obtain ⟨hn, hts⟩ := Bool.and_eq_true_iff.mp hu
    rw [fieldType, beq_eq_false_of_fieldName hn h, if_neg Bool.false_ne_true, element]
    exact fieldType_of_fieldName ts i name hts h

end TypeList

/-- The constant offset of an element of a tuple is the size of what comes before it. -/
theorem tupleElementOffset_eq : ∀ (ts : TypeList) (i : ℕ) (t : Ty), ts.element i = some t →
    ts.size < P.sizeRange → Deserialiser.tupleElementOffset P ts i = (ts.take i).size
  | .nil, _, _, h, _ => nomatch h
  | .cons _ _ _, 0, _, _, _ => rfl
  | .cons _ t ts, i + 1, u, h, hlt => by
    have hsum : t.size + ts.size < P.sizeRange := hlt
    have hle := TypeList.size_take_add_le ts i u h
    rw [Deserialiser.tupleElementOffset, tupleElementOffset_eq ts i u h (by omega),
      fixedDataSize_of_lt (by omega), Platform.wrap_of_lt (by omega), TypeList.take,
      TypeList.size]

/-- The constant offset of a field, by its name, likewise. -/
theorem namedFieldOffset_eq : ∀ (ts : TypeList) (i : ℕ) (t : Ty) (name : String),
    ts.allFieldsUnique = true → ts.element i = some t → ts.fieldName i = some name →
      ts.size < P.sizeRange → Deserialiser.namedFieldOffset P ts name = (ts.take i).size
  | .nil, _, _, _, _, h, _, _ => nomatch h
  | .cons n _ _, 0, _, name, _, _, hname, _ => by
    obtain rfl : n = name := Option.some.inj hname
    rw [Deserialiser.namedFieldOffset, beq_self_eq_true, if_pos rfl]
    rfl
  | .cons n t ts, i + 1, u, name, hu, h, hname, hlt => by
    obtain ⟨hn, hts⟩ := Bool.and_eq_true_iff.mp hu
    have hsum : t.size + ts.size < P.sizeRange := hlt
    have hle := TypeList.size_take_add_le ts i u h
    rw [Deserialiser.namedFieldOffset, TypeList.beq_eq_false_of_fieldName hn hname,
      if_neg Bool.false_ne_true,
      namedFieldOffset_eq ts i u name hts h hname (by omega), fixedDataSize_of_lt (by omega),
      Platform.wrap_of_lt (by omega), TypeList.take, TypeList.size]

namespace Deserialiser

theorem check_of_true {c : Bool} (hc : c = true) : check P c = .ok () := by
  rw [check, hc, Bool.not_true, Bool.and_false]
  rfl

/-! ### Arrays -/

theorem staticIndex_eq {t : Ty} {n : ℕ} {d : Deserialiser (.staticArray t n)} (hd : d.Valid P)
    {i : ℕ} (hi : i < n) :
    d.staticIndex P i = deserialise P t d.buffer (d.fixedOffset + t.size * i) := by
  have hfix : d.fixedOffset + t.size * n ≤ d.buffer.length := hd.fixed_le
  have hlen := hd.length_lt
  have hlast : t.size * i + t.size ≤ t.size * n := Nat.mul_le_mul_left t.size hi
  have hinner : P.wrap (t.size * i) = t.size * i := Platform.wrap_of_lt (by omega)
  rw [staticIndex, bind_of_ok (check_of_true (decide_eq_true hi)), fixedDataSize_of_lt (by omega),
    Nat.mul_comm, hinner, Platform.wrap_of_lt (by omega)]

theorem staticElements_getElem? {t : Ty} {n : ℕ} (d : Deserialiser (.staticArray t n)) {i : ℕ}
    (hi : i < n) : (d.staticElements P)[i]? = some (d.staticIndex P i) := by
  rw [staticElements, List.getElem?_map, List.getElem?_range hi]
  rfl

theorem size_eq {t : Ty} {d : Deserialiser (.dynamicArray t)} (hd : d.Valid P) :
    d.size P = .ok (numberAt d.buffer d.fixedOffset 4) := by
  have hfix : d.fixedOffset + 8 ≤ d.buffer.length := hd.fixed_le
  rw [size, bind_of_ok (deserialiseUnsigned_of_le hd.length_lt (by omega))]
  rfl

theorem empty_eq {t : Ty} {d : Deserialiser (.dynamicArray t)} (hd : d.Valid P) :
    d.empty P = .ok (numberAt d.buffer d.fixedOffset 4 == 0) := by
  rw [empty, bind_of_ok (size_eq hd)]
  rfl

theorem elementsOffset_eq {t : Ty} {d : Deserialiser (.dynamicArray t)} (hd : d.Valid P) :
    d.elementsOffset P = .ok (numberAt d.buffer (d.fixedOffset + 4) 4) := by
  have hfix : d.fixedOffset + 8 ≤ d.buffer.length := hd.fixed_le
  have hlen := hd.length_lt
  have hsize : fixedDataSize P .dynamicArraySize = 4 :=
    fixedDataSize_of_lt (show (4 : ℕ) < P.sizeRange by omega)
  rw [elementsOffset, hsize, Platform.wrap_of_lt (by omega),
    bind_of_ok (deserialiseUnsigned_of_le hlen (by omega))]
  rfl

theorem dynamicIndex_eq {t : Ty} {d : Deserialiser (.dynamicArray t)} (hd : d.Valid P) {i : ℕ}
    (hi : i < numberAt d.buffer d.fixedOffset 4) : d.dynamicIndex P i =
      deserialise P t d.buffer (P.wrap (numberAt d.buffer (d.fixedOffset + 4) 4 + t.size * i)) := by
  have hoffset : P.wrap (numberAt d.buffer (d.fixedOffset + 4) 4 +
      P.wrap (fixedDataSize P t * i)) =
        P.wrap (numberAt d.buffer (d.fixedOffset + 4) 4 + t.size * i) := by
    simp only [fixedDataSize_eq, Platform.wrap, Nat.mod_mul_mod, Nat.add_mod_mod]
  have hrest : (d.elementsOffset P >>= fun offset => deserialise P t d.buffer
      (P.wrap (offset + P.wrap (fixedDataSize P t * i)))) = deserialise P t d.buffer
        (P.wrap (numberAt d.buffer (d.fixedOffset + 4) 4 + t.size * i)) := by
    rw [bind_of_ok (elementsOffset_eq hd), hoffset]
  unfold dynamicIndex
  split_ifs
  · rw [bind_of_ok (size_eq hd), bind_of_ok (check_of_true (decide_eq_true hi))]
    exact hrest
  · exact hrest

theorem dynamicAt_eq {t : Ty} {d : Deserialiser (.dynamicArray t)} (hd : d.Valid P) (i : ℕ) :
    d.dynamicAt P i = if i < numberAt d.buffer d.fixedOffset 4 then d.dynamicIndex P i
      else .error (.thrown (.outOfRange
        (outOfRangeMessage i "dynamic_array" (numberAt d.buffer d.fixedOffset 4)))) :=
  bind_of_ok (size_eq hd) _

theorem dynamicElements_eq {t : Ty} {d : Deserialiser (.dynamicArray t)} (hd : d.Valid P) :
    d.dynamicElements P =
      .ok ((List.range (numberAt d.buffer d.fixedOffset 4)).map (d.dynamicIndex P)) :=
  bind_of_ok (size_eq hd) _

/-! ### Pairs, tuples and records -/

theorem second_eq {a b : Ty} {d : Deserialiser (.pair a b)} (hd : d.Valid P) :
    d.second P = deserialise P b d.buffer (d.fixedOffset + a.size) := by
  have hfix : d.fixedOffset + (a.size + b.size) ≤ d.buffer.length := hd.fixed_le
  have hlen := hd.length_lt
  rw [second, fixedDataSize_of_lt (by omega), Platform.wrap_of_lt (by omega)]

theorem pairGet_one_eq {a b : Ty} {d : Deserialiser (.pair a b)} (hd : d.Valid P) :
    d.pairGet P 1 = deserialiseObject P d.buffer (d.fixedOffset + a.size) (some b) := by
  rw [pairGet, second_eq hd]
  rfl

theorem tupleGet_eq {ts : TypeList} {d : Deserialiser (.tuple ts)} (hd : d.Valid P) {i : ℕ} {t : Ty}
    (ht : ts.element i = some t) : d.tupleGet P i =
      deserialiseObject P d.buffer (d.fixedOffset + (ts.take i).size) (some t) := by
  have hfix : d.fixedOffset + ts.size ≤ d.buffer.length := hd.fixed_le
  have hlen := hd.length_lt
  have hle := ts.size_take_add_le i t ht
  rw [tupleGet, tupleElementOffset_eq ts i t ht (by omega), Platform.wrap_of_lt (by omega), ht]

theorem recordGet_eq {fs : TypeList} {bases : List ℕ} {d : Deserialiser (.record fs bases)}
    (hd : d.Valid P) (hu : fs.allFieldsUnique = true) {i : ℕ} {t : Ty} {name : String}
    (ht : fs.element i = some t) (hname : fs.fieldName i = some name) : d.recordGet P name =
      deserialiseObject P d.buffer (d.fixedOffset + (fs.take i).size) (some t) := by
  have hfix : d.fixedOffset + fs.size ≤ d.buffer.length := hd.fixed_le
  have hlen := hd.length_lt
  have hle := fs.size_take_add_le i t ht
  have hoffset : namedFieldOffset P fs name = (fs.take i).size :=
    namedFieldOffset_eq fs i t name hu ht hname (by omega)
  have hconstraint : P.wrap (namedFieldOffset P fs name + fixedDataSize P t) ≤
      fixedDataSize P (.record fs bases) := by
    have hsize : (Ty.record fs bases).size = fs.size := by rw [Ty.size]
    rw [hoffset, fixedDataSize_of_lt (by omega), fixedDataSize_of_lt (by omega),
      Platform.wrap_of_lt (by omega), hsize]
    exact hle
  rw [recordGet, fs.fieldType_of_fieldName i name hu hname, ht]
  dsimp only
  rw [if_pos hconstraint, hoffset, Platform.wrap_of_lt (by omega)]

theorem recordGetIndex_eq {fs : TypeList} {bases : List ℕ} {d : Deserialiser (.record fs bases)}
    (hd : d.Valid P) (hu : fs.allFieldsUnique = true) {i : ℕ} {t : Ty}
    (ht : fs.element i = some t) : d.recordGetIndex P i =
      deserialiseObject P d.buffer (d.fixedOffset + (fs.take i).size) (some t) := by
  obtain ⟨name, hname⟩ := fs.exists_fieldName i t ht
  rw [recordGetIndex, hname]
  exact recordGet_eq hd hu ht hname

/-- The fixed section of a base is the beginning of that of the record, so that the conversion,
although it is `noexcept`, is safe. -/
theorem toBase_eq {fs : TypeList} {bases rest : List ℕ} {d : Deserialiser (.record fs bases)}
    (hd : d.Valid P) {i n : ℕ} (hbase : (fs.length :: bases).drop i = n :: rest) :
    d.toBase P i =
      deserialiseObject P d.buffer d.fixedOffset (some (.record (fs.take n) rest)) := by
  have hlen := hd.length_lt
  have hfix : d.fixedOffset + (Ty.record fs bases).size ≤ d.buffer.length := hd.fixed_le
  have hle : (Ty.record (fs.take n) rest).size ≤ (Ty.record fs bases).size := fs.size_take_le n
  have hin : d.fixedOffset + (Ty.record (fs.take n) rest).size ≤ d.buffer.length := by omega
  have hstatic : fixedDataSize P (.record (fs.take n) rest) ≤
      fixedDataSize P (.record fs bases) := by
    rwa [fixedDataSize_of_lt (by omega), fixedDataSize_of_lt (by omega)]
  rw [toBase, hbase, deserialiseObject_of_le hlen hin]
  show (if _ then noexceptBoundary true (deserialiseObject P _ _ _) else _) = _
  rw [if_pos hstatic, deserialiseObject_of_le hlen hin]
  rfl

/-! ### Optionals -/

section Optional

variable {t : Ty} {d : Deserialiser (.optional t)}

theorem valueOffset_eq (hd : d.Valid P) :
    d.valueOffset P = .ok (numberAt d.buffer d.fixedOffset 4) := by
  have hfix : d.fixedOffset + 4 ≤ d.buffer.length := hd.fixed_le
  rw [valueOffset, bind_of_ok (deserialiseUnsigned_of_le hd.length_lt hfix)]
  rfl

theorem hasValue_eq (hd : d.Valid P) :
    d.hasValue P = .ok (decide (0 < numberAt d.buffer d.fixedOffset 4)) := by
  rw [hasValue, bind_of_ok (valueOffset_eq hd)]
  rfl

theorem deref_eq (hd : d.Valid P) (h : 0 < numberAt d.buffer d.fixedOffset 4) :
    d.deref P = deserialise P t d.buffer (numberAt d.buffer d.fixedOffset 4 - 1) := by
  have hfix : d.fixedOffset + 4 ≤ d.buffer.length := hd.fixed_le
  have hlt : numberAt d.buffer d.fixedOffset 4 < 256 ^ 4 := numberAt_lt hfix
  have hminus : (numberAt d.buffer d.fixedOffset 4 + (2 ^ 32 - 1)) % 2 ^ 32 =
      numberAt d.buffer d.fixedOffset 4 - 1 := by omega
  rw [deref, bind_of_ok (valueOffset_eq hd), bind_of_ok (check_of_true (decide_eq_true h)), hminus]

theorem value_eq (hd : d.Valid P) : d.value P =
    if 0 < numberAt d.buffer d.fixedOffset 4 then
      deserialise P t d.buffer (numberAt d.buffer d.fixedOffset 4 - 1)
    else .error (.thrown .badOptionalAccess) := by
  rw [value, bind_of_ok (hasValue_eq hd)]
  by_cases h : 0 < numberAt d.buffer d.fixedOffset 4
  · rw [decide_eq_true h, if_pos rfl, if_pos h, deref_eq hd h]
  · rw [decide_eq_false h, if_neg Bool.false_ne_true, if_neg h]
    rfl

end Optional

/-! ### Variants -/

section Variant

variable {ts : TypeList} {d : Deserialiser (.variant ts)}

theorem index_eq (hd : d.Valid P) (hts : ts.length ≠ 0) :
    d.index P = .ok (numberAt d.buffer d.fixedOffset 2) := by
  have hfix : d.fixedOffset + 6 ≤ d.buffer.length := hd.fixed_le
  rw [index, if_neg hts, bind_of_ok (deserialiseUnsigned_of_le hd.length_lt (by omega))]
  rfl

theorem alternativeOffset_eq (hd : d.Valid P) :
    d.alternativeOffset P = .ok (numberAt d.buffer (d.fixedOffset + 2) 4) := by
  have hfix : d.fixedOffset + 6 ≤ d.buffer.length := hd.fixed_le
  have hlen := hd.length_lt
  have hsize : fixedDataSize P .variantIndex = 2 :=
    fixedDataSize_of_lt (show (2 : ℕ) < P.sizeRange by omega)
  rw [alternativeOffset, hsize, Platform.wrap_of_lt (by omega),
    bind_of_ok (deserialiseUnsigned_of_le hlen (by omega))]
  rfl

theorem getAlternative_eq (hd : d.Valid P) (i : ℕ) : d.getAlternative P i =
    deserialiseObject P d.buffer (numberAt d.buffer (d.fixedOffset + 2) 4) (ts.element i) := by
  rw [getAlternative, bind_of_ok (alternativeOffset_eq hd)]

theorem get_eq (hd : d.Valid P) {i : ℕ} (hi : i < ts.length) : d.get P i =
    if i = numberAt d.buffer d.fixedOffset 2 then
      deserialiseObject P d.buffer (numberAt d.buffer (d.fixedOffset + 2) 4) (ts.element i)
    else .error (.thrown .badVariantAccess) := by
  rw [get, if_neg (not_le.mpr hi), bind_of_ok (index_eq hd (by omega)), getAlternative_eq hd]
  rfl

end Variant

end Deserialiser

end SerialisePP
