import SerialisePP.Accessors
import SerialisePP.Contract
import SerialisePP.Traversal

/-!
# Record inheritance

A record may be declared with a base, and then has the fields of the base first and its own fields
after them. `SerialisePP.RecordDecl` is such a declaration with all the declarations it is made
from. The names, the bases, the offsets and the types of the fields are computed from it by
different recursions, and the serialiser goes by the index of a field where the deserialiser goes by
its name.

`SerialisePP.inheritance_layout` is that they agree: the fields of a base are the first fields of
the record, at the same offsets, so that the conversion of the deserialiser and every access by name
give the same through the base, and each field is read where it has been written. One thing that
the library does not look at is whether the size of a record is a `std::size_t`. Where it is not,
some conversions do not compile (`SerialisePP.conversion_ill_formed`).
-/

namespace SerialisePP

open Deserialiser Effect Region SerialiseBuffer TwoSection

/-! ### Lists of fields -/

namespace TypeList

/-- **`type_list_concat`**. -/
def concat : TypeList → TypeList → TypeList
  | .nil, us => us
  | .cons name t ts, us => .cons name t (ts.concat us)

/-- The names of the fields. -/
def names : TypeList → List String
  | .nil => []
  | .cons name _ ts => name :: ts.names

/-- **`record_serialise_source_get`**: the source of the field with the name. -/
def sourceGet {A : Type → Type} :
    (ts : TypeList) → ts.Data A → String → Option ((t : Ty) × t.Data A)
  | .nil, _, _ => none
  | .cons name t ts, v, n => if name == n then some ⟨t, v.1⟩ else ts.sourceGet v.2 n

theorem concat_assoc : ∀ ts us vs : TypeList, (ts.concat us).concat vs = ts.concat (us.concat vs)
  | .nil, _, _ => rfl
  | .cons name t ts, us, vs => congrArg (TypeList.cons name t) (concat_assoc ts us vs)

theorem names_concat : ∀ ts us : TypeList, (ts.concat us).names = ts.names ++ us.names
  | .nil, _ => rfl
  | .cons name _ ts, us => congrArg (name :: ·) (names_concat ts us)

theorem take_concat : ∀ ts us : TypeList, (ts.concat us).take ts.length = ts
  | .nil, _ => rfl
  | .cons name t ts, us => congrArg (TypeList.cons name t) (take_concat ts us)

theorem containsField_iff : ∀ (ts : TypeList) (n : String), ts.containsField n = true ↔ n ∈ ts.names
  | .nil, _ => by simp [containsField, names]
  | .cons name _ ts, n => by
    rw [containsField, Bool.or_eq_true, beq_iff_eq, containsField_iff ts n, names, List.mem_cons,
      eq_comm]

/-- **`all_fields_unique` is that the names are pairwise distinct.** -/
theorem allFieldsUnique_iff (ts : TypeList) : ts.allFieldsUnique = true ↔ ts.names.Nodup := by
  cases ts with
  | nil => simp [allFieldsUnique, names]
  | cons name t ts =>
    rw [allFieldsUnique, Bool.and_eq_true, Bool.not_eq_true', ← Bool.not_eq_true,
      containsField_iff, allFieldsUnique_iff ts, names, List.nodup_cons]

/-- A name that is not at the head of a list is in the rest. -/
theorem mem_names_of_cons {ts : TypeList} {name n : String} {t : Ty}
    (h : n ∈ (TypeList.cons name t ts).names) (hname : ¬(name == n) = true) : n ∈ ts.names := by
  refine (List.mem_cons.mp h).resolve_left ?_
  rintro rfl
  exact hname (beq_self_eq_true n)

/-- **The first field with a name** is in the first list that has one. -/
theorem fieldType_concat : ∀ (ts us : TypeList) (n : String), n ∈ ts.names →
    (ts.concat us).fieldType n = ts.fieldType n
  | .nil, _, _, h => nomatch h
  | .cons name t ts, us, n, h => by
    rw [concat, fieldType, fieldType]
    split_ifs with hname
    · rfl
    · exact fieldType_concat ts us n (mem_names_of_cons h hname)

/-- A type that is found by name is that of a field with the name. -/
theorem mem_names_of_fieldType : ∀ (ts : TypeList) (n : String) (t : Ty), ts.fieldType n = some t →
    n ∈ ts.names
  | .nil, _, _, h => nomatch h
  | .cons name u ts, n, t, h => by
    rw [fieldType] at h
    split_ifs at h with hname
    · obtain rfl := beq_iff_eq.mp hname
      exact List.mem_cons_self
    · exact List.mem_cons_of_mem name (mem_names_of_fieldType ts n t h)

/-- A name leads to a type. -/
theorem exists_fieldType : ∀ (ts : TypeList) (n : String), n ∈ ts.names →
    ∃ t, ts.fieldType n = some t
  | .nil, _, h => nomatch h
  | .cons name u ts, n, h => by
    rw [fieldType]
    split_ifs with hname
    · exact ⟨u, rfl⟩
    · exact exists_fieldType ts n (mem_names_of_cons h hname)

theorem size_concat : ∀ ts us : TypeList, (ts.concat us).size = ts.size + us.size
  | .nil, us => by rw [concat, size, Nat.zero_add]
  | .cons _ t ts, us => by rw [concat, size, size, size_concat ts us, Nat.add_assoc]

end TypeList

variable {P : Platform}

namespace Deserialiser

/-- **The offset of a field** is the same in a longer list. -/
theorem namedFieldOffset_concat : ∀ (ts us : TypeList) (n : String), n ∈ ts.names →
    namedFieldOffset P (ts.concat us) n = namedFieldOffset P ts n
  | .nil, _, _, h => nomatch h
  | .cons name t ts, us, n, h => by
    rw [TypeList.concat, namedFieldOffset, namedFieldOffset]
    split_ifs with hname
    · rfl
    · rw [namedFieldOffset_concat ts us n (TypeList.mem_names_of_cons h hname)]

/-- A field lies in its record, if the size of the record is a `std::size_t`. -/
theorem namedFieldOffset_add_le : ∀ (ts : TypeList) (n : String) (t : Ty),
    ts.fieldType n = some t → ts.size < P.sizeRange → namedFieldOffset P ts n + t.size ≤ ts.size
  | .nil, _, _, h, _ => nomatch h
  | .cons name u ts, n, t, h, hlt => by
    have hsum : u.size + ts.size < P.sizeRange := hlt
    rw [TypeList.fieldType] at h
    rw [namedFieldOffset, TypeList.size]
    split_ifs at h ⊢
    · obtain rfl := Option.some.inj h
      omega
    · have hle := namedFieldOffset_add_le ts n t h (by omega)
      rw [fixedDataSize_of_lt (by omega), Platform.wrap_of_lt (by omega)]
      omega

end Deserialiser

/-! ### Declarations -/

/-- **A declaration of a record**, with those of its bases. -/
inductive RecordDecl
  /-- `record<Fs...>`. -/
  | record (ownFields : TypeList)
  /-- `record<base<B>, Fs...>`. -/
  | derived (base : RecordDecl) (ownFields : TypeList)

namespace RecordDecl

/-- `fields`. -/
def fields : RecordDecl → TypeList
  | .record ownFields => ownFields
  | .derived base ownFields => base.fields.concat ownFields

/-- `bases`, from the most to the least derived. -/
def bases : RecordDecl → List RecordDecl
  | .record _ => []
  | .derived base _ => base :: base.bases

/-- The `static_assert`s of the declaration and of those it is made from. -/
def accepted : RecordDecl → Bool
  | .record ownFields => ownFields.allFieldsUnique
  | .derived base ownFields => base.accepted && (base.fields.concat ownFields).allFieldsUnique

/-- The names that are declared, over all of the chain. -/
def names : RecordDecl → List String
  | .record ownFields => ownFields.names
  | .derived base ownFields => base.names ++ ownFields.names

/-- The record type. -/
abbrev type (R : RecordDecl) : Ty := .record R.fields (R.bases.map fun B => B.fields.length)

theorem names_fields : ∀ R : RecordDecl, R.fields.names = R.names
  | .record _ => rfl
  | .derived base ownFields => by
    rw [fields, TypeList.names_concat, names_fields base, names]

/-- **The `static_assert` is exact.** -/
theorem accepted_iff : ∀ R : RecordDecl, R.accepted = true ↔ R.names.Nodup
  | .record ownFields => ownFields.allFieldsUnique_iff
  | .derived base ownFields => by
    rw [accepted, Bool.and_eq_true, accepted_iff base, TypeList.allFieldsUnique_iff,
      TypeList.names_concat, names_fields, names]
    exact and_iff_right_of_imp fun h => (List.nodup_append.mp h).1

theorem allFieldsUnique_of_accepted {R : RecordDecl} (h : R.accepted = true) :
    R.fields.allFieldsUnique = true := by
  rw [TypeList.allFieldsUnique_iff, names_fields]
  exact (accepted_iff R).mp h

/-- **The fields of a base come first**, and its bases are those after it. -/
theorem of_getElem?_bases : ∀ (R : RecordDecl) {i : ℕ} {B : RecordDecl}, R.bases[i]? = some B →
    (∃ own, R.fields = B.fields.concat own) ∧ R.bases.drop i = B :: B.bases
  | .record _, _, _, h => nomatch h
  | .derived base ownFields, 0, B, h => by
    obtain rfl : base = B := Option.some.inj h
    exact ⟨⟨ownFields, rfl⟩, rfl⟩
  | .derived base ownFields, i + 1, B, h => by
    obtain ⟨⟨own, hown⟩, hdrop⟩ := of_getElem?_bases base h
    refine ⟨⟨own.concat ownFields, ?_⟩, hdrop⟩
    rw [fields, hown, TypeList.concat_assoc]

end RecordDecl

/-! ### Reading through a base -/

section Reading

variable {R B : RecordDecl} {i : ℕ}

/-- **The conversion to a base**: the type it deserialises is the base. -/
theorem toBase_of_bases (hB : R.bases[i]? = some B) (d : Deserialiser R.type) :
    d.toBase P (i + 1) = if fixedDataSize P B.type ≤ fixedDataSize P R.type then
      noexceptBoundary true (deserialiseObject P d.buffer d.fixedOffset (some B.type))
    else throw .illFormed := by
  obtain ⟨⟨own, hown⟩, hdrop⟩ := R.of_getElem?_bases hB
  have hbases : (R.fields.length :: R.bases.map fun B => B.fields.length).drop (i + 1) =
      B.fields.length :: B.bases.map fun B => B.fields.length := by
    rw [List.drop_succ_cons, ← List.map_drop, hdrop, List.map_cons]
  have htake : R.fields.take B.fields.length = B.fields := by rw [hown, TypeList.take_concat]
  unfold toBase
  rw [hbases]
  dsimp only
  rw [htake]

/-- **`get<Name>()`**, of a name that a field has. -/
theorem recordGet_of_fieldType {fs : TypeList} {bases : List ℕ}
    (d : Deserialiser (.record fs bases)) {name : String} {t : Ty}
    (ht : fs.fieldType name = some t) : d.recordGet P name =
      if P.wrap (namedFieldOffset P fs name + fixedDataSize P t) ≤
          fixedDataSize P (.record fs bases) then
        deserialiseObject P d.buffer (P.wrap (d.fixedOffset + namedFieldOffset P fs name)) (some t)
      else throw .illFormed := by
  rw [recordGet, ht]

variable {mem : List UInt8} {offset : ℕ} {d : Deserialiser R.type}

/-- The conversion succeeds, if the base is no larger. -/
theorem toBase_eq_ok (hB : R.bases[i]? = some B) (hd : deserialise P R.type mem offset = .ok d)
    (hle : fixedDataSize P B.type ≤ fixedDataSize P R.type) :
    d.toBase P (i + 1) = .ok ⟨B.type, (⟨mem, offset⟩ : Deserialiser B.type)⟩ := by
  obtain ⟨hcheck, rfl⟩ := deserialise_record_iff.mp hd
  have hbase : deserialise P B.type mem offset = .ok (⟨mem, offset⟩ : Deserialiser B.type) :=
    deserialise_record_iff.mpr ⟨(Nat.add_le_add_left hle offset).trans hcheck, rfl⟩
  have hobject : deserialiseObject P mem offset (some B.type) = .ok ⟨B.type, _⟩ :=
    bind_of_ok hbase _
  rw [toBase_of_bases hB, if_pos hle]
  exact congrArg (noexceptBoundary true) hobject

/-- A base is no larger, if the size of the record is a `std::size_t`. -/
theorem fixedDataSize_base_le (hB : R.bases[i]? = some B) (hR : R.fields.size < P.sizeRange) :
    fixedDataSize P B.type ≤ fixedDataSize P R.type := by
  obtain ⟨⟨own, hown⟩, -⟩ := R.of_getElem?_bases hB
  have hsize : R.fields.size = B.fields.size + own.size := by rw [hown, TypeList.size_concat]
  have htype : ∀ D : RecordDecl, D.type.size = D.fields.size := fun D => by rw [Ty.size]
  rw [fixedDataSize_of_lt (by rw [htype]; omega), fixedDataSize_of_lt (by rw [htype]; omega), htype,
    htype]
  omega

/-- **An access by name gives the same through the base**, if it compiles there. -/
theorem recordGet_base (hB : R.bases[i]? = some B)
    (hle : fixedDataSize P B.type ≤ fixedDataSize P R.type) {name : String}
    (hget : (⟨mem, offset⟩ : Deserialiser B.type).recordGet P name ≠ .error .illFormed) :
    (⟨mem, offset⟩ : Deserialiser B.type).recordGet P name =
      (⟨mem, offset⟩ : Deserialiser R.type).recordGet P name := by
  obtain ⟨⟨own, hown⟩, -⟩ := R.of_getElem?_bases hB
  rcases ht : B.fields.fieldType name with _ | t
  · refine absurd ?_ hget
    rw [recordGet, ht]
    rfl
  have hname := B.fields.mem_names_of_fieldType name t ht
  have ht' : R.fields.fieldType name = some t := by
    rw [hown, TypeList.fieldType_concat _ _ _ hname, ht]
  have hoffset : namedFieldOffset P R.fields name = namedFieldOffset P B.fields name := by
    rw [hown, namedFieldOffset_concat _ _ _ hname]
  rw [recordGet_of_fieldType _ ht] at hget ⊢
  rw [recordGet_of_fieldType _ ht', hoffset]
  split_ifs at hget ⊢ with hbase hrecord
  · rfl
  · exact absurd (hbase.trans hle) hrecord
  · exact absurd rfl hget
  · exact absurd rfl hget

/-- **`get<Name>()`** deserialises the field at its offset, if the size of the record is a
`std::size_t`. -/
theorem recordGet_of_size_lt (hlen : mem.length < P.sizeRange) {fs : TypeList} {bases : List ℕ}
    {d : Deserialiser (.record fs bases)} (hfs : fs.size < P.sizeRange)
    (hd : deserialise P (.record fs bases) mem offset = .ok d) {name : String} {t : Ty}
    (ht : fs.fieldType name = some t) :
    offset + namedFieldOffset P fs name + t.size ≤ mem.length ∧ d.recordGet P name =
      deserialiseObject P mem (offset + namedFieldOffset P fs name) (some t) := by
  obtain ⟨hcheck, rfl⟩ := deserialise_record_iff.mp hd
  have hsize : fixedDataSize P (.record fs bases) = fs.size := by
    rw [fixedDataSize_eq, Ty.size, Platform.wrap_of_lt hfs]
  have hle : namedFieldOffset P fs name + t.size ≤ fs.size :=
    namedFieldOffset_add_le fs name t ht hfs
  rw [hsize] at hcheck
  refine ⟨by omega, ?_⟩
  have hoffset : P.wrap (offset + namedFieldOffset P fs name) =
      offset + namedFieldOffset P fs name := Platform.wrap_of_lt (by omega)
  rw [recordGet_of_fieldType _ ht, hsize, fixedDataSize_of_lt (by omega),
    Platform.wrap_of_lt (by omega), if_pos hle, hoffset]

end Reading

/-! ### Writing by index -/

section Writing

variable {Buffer : Type} [SerialiseBuffer Buffer] (P : Platform) (path : Path)

/-- **`_serialise<Index>`**: the field at the index, from the source of the field with its name. -/
def serialiseField (fs : TypeList) (v : fs.Data (ArraySource P)) (index : ℕ) (buffer : BufferArg)
    (fixedOffset : ℕ) : M Buffer ℕ :=
  match fs.element index, fs.fieldName index with
  | some t, some name =>
    match fs.sourceGet v name with
    | some x =>
      pushFixedSubobject P t fixedOffset
        (serialiseWith P path x.1 (serialiser P path x.1 x.2) buffer)
    | none => throw .illFormed
  | _, _ => throw .illFormed

/-- The fields at the indices of an `std::index_sequence`. -/
def serialiseIndices (fs : TypeList) (v : fs.Data (ArraySource P)) :
    List ℕ → BufferArg → ℕ → M Buffer Unit
  | [], _, _ => pure ()
  | index :: indices, buffer, fixedOffset => do
    let fixedOffset ← serialiseField P path fs v index buffer fixedOffset
    serialiseIndices fs v indices buffer fixedOffset

/-- **`serialiser<R>::serialise`**, as it is written. -/
def serialiseRecord (fs : TypeList) (v : fs.Data (ArraySource P)) :
    BufferArg → ℕ → M Buffer Unit :=
  serialiseIndices P path fs v (List.range fs.length)

/-- A later field is found in the rest of the source. -/
theorem serialiseField_succ {name : String} {t : Ty} {ts : TypeList}
    (hname : (!ts.containsField name) = true) (v : (TypeList.cons name t ts).Data (ArraySource P))
    (index : ℕ) (buffer : BufferArg) (fixedOffset : ℕ) :
    (serialiseField P path (.cons name t ts) v (index + 1) buffer fixedOffset : M Buffer ℕ) =
      serialiseField P path ts v.2 index buffer fixedOffset := by
  rw [serialiseField, serialiseField, TypeList.fieldName, TypeList.element]
  rcases hn : ts.fieldName index with _ | n
  · cases ts.element index <;> rfl
  · have hget : (TypeList.cons name t ts).sourceGet v n = ts.sourceGet v.2 n := by
      rw [TypeList.sourceGet, TypeList.beq_eq_false_of_fieldName hname hn,
        if_neg Bool.false_ne_true]
    cases ts.element index
    · rfl
    · simp only [hget]

theorem serialiseIndices_succ {name : String} {t : Ty} {ts : TypeList}
    (hname : (!ts.containsField name) = true) (v : (TypeList.cons name t ts).Data (ArraySource P)) :
    ∀ (indices : List ℕ) (buffer : BufferArg) (fixedOffset : ℕ),
      (serialiseIndices P path (.cons name t ts) v (indices.map Nat.succ) buffer fixedOffset :
        M Buffer Unit) = serialiseIndices P path ts v.2 indices buffer fixedOffset
  | [], _, _ => rfl
  | index :: indices, buffer, fixedOffset => by
    rw [List.map_cons, serialiseIndices, serialiseIndices, serialiseField_succ P path hname]
    refine bind_congr fun fixedOffset => ?_
    exact serialiseIndices_succ hname v indices buffer fixedOffset

/-- **With unique names, the fields are serialised one after the other.** -/
theorem serialiseRecord_eq : ∀ (fs : TypeList) (v : fs.Data (ArraySource P)) (buffer : BufferArg)
    (fixedOffset : ℕ), fs.allFieldsUnique = true →
      (serialiseRecord P path fs v buffer fixedOffset : M Buffer Unit) =
        serialiseFields P path fs v buffer fixedOffset
  | .nil, _, _, _, _ => by
    rw [serialiseFields]
    rfl
  | .cons name t ts, v, buffer, fixedOffset, hunique => by
    obtain ⟨hname, hts⟩ := Bool.and_eq_true_iff.mp hunique
    have hhead : (TypeList.cons name t ts).sourceGet v name = some ⟨t, v.1⟩ := by
      rw [TypeList.sourceGet, beq_self_eq_true, if_pos rfl]
    rw [serialiseRecord, TypeList.length, List.range_succ_eq_map, serialiseIndices, serialiseFields,
      serialiseField]
    simp only [TypeList.element, TypeList.fieldName, hhead]
    refine bind_congr fun fixedOffset => ?_
    rw [serialiseIndices_succ P path hname]
    exact serialiseRecord_eq ts v.2 buffer fixedOffset hts

end Writing

/-! ### Writing and reading by name -/

/-- **Each field is placed where its name leads.** -/
theorem placed_field {mem : List UInt8} : ∀ (ts : TypeList) (v : ts.Data (ArraySource P))
    (pos base : ℕ), ts.size < P.sizeRange → Placed mem (layoutFields ts (ts.value v)) pos base →
      ∀ name ∈ ts.names, ∃ t x b, ts.fieldType name = some t ∧ ts.sourceGet v name = some ⟨t, x⟩ ∧
        Placed mem (layout t (t.value x)) (pos + namedFieldOffset P ts name) b
  | .nil, _, _, _, _, _, _, h => nomatch h
  | .cons n t ts, v, pos, base, hlt, hp, name, h => by
    have hsum : t.size + ts.size < P.sizeRange := hlt
    obtain ⟨hhead, htail⟩ := placed_append_iff.mp hp
    by_cases hname : (n == name) = true
    · refine ⟨t, v.1, base, ?_, ?_, ?_⟩
      · rw [TypeList.fieldType, if_pos hname]
      · rw [TypeList.sourceGet, if_pos hname]
      · rw [namedFieldOffset, if_pos hname]
        exact hhead
    · rw [fixedSize_layout] at htail
      obtain ⟨u, x, b, hu, hx, hb⟩ := placed_field ts v.2 _ _ (by omega) htail name
        (TypeList.mem_names_of_cons h hname)
      have hle : namedFieldOffset P ts name + u.size ≤ ts.size :=
        namedFieldOffset_add_le ts name u hu (by omega)
      refine ⟨u, x, b, ?_, ?_, ?_⟩
      · rw [TypeList.fieldType, if_neg hname, hu]
      · rw [TypeList.sourceGet, if_neg hname, hx]
      · rw [namedFieldOffset, if_neg hname, fixedDataSize_of_lt (by omega),
          Platform.wrap_of_lt (by omega), ← Nat.add_assoc]
        exact hb

/-- **A field is read where it has been written**, by its name. -/
structure WritesFields (P : Platform) (R : RecordDecl) : Prop where
  /-- The serialiser goes by the index, and takes the source of the field from its name. -/
  serialiser_eq : ∀ {Buffer : Type} [SerialiseBuffer Buffer] (path : Path) (v : R.type.Source P)
    (buffer : BufferArg) (fixedOffset : ℕ),
      (serialiser P path R.type v buffer fixedOffset : M Buffer Unit) =
        serialiseRecord P path R.fields v buffer fixedOffset
  /-- The bytes at which `get<Name>()` reads are those of the field in the source. -/
  placed : ∀ {Buffer : Type} [SerialiseBuffer Buffer] {I : Buffer → Prop} {limit : ℕ}
    {throws : Exn → Prop}, LawfulBuffer P Buffer I limit throws → ∀ (v : R.type.Source P)
      (b b' : Buffer) (pos : ℕ), I b → pos + R.fields.size ≤ (bytes b).length →
        (bytes b).length + variableSize R.type (R.type.value v) < limit →
          serialise P R.type v pos b = .ok () b' →
            ∃ d, deserialise P R.type (bytes b') pos = .ok d ∧ ∀ name ∈ R.fields.names,
              ∃ t x base, R.fields.sourceGet v name = some ⟨t, x⟩ ∧
                d.recordGet P name = deserialiseObject P (bytes b')
                  (pos + namedFieldOffset P R.fields name) (some t) ∧
                Placed (bytes b') (layout t (t.value x))
                  (pos + namedFieldOffset P R.fields name) base

theorem writesFields {R : RecordDecl} (hR : R.accepted = true)
    (hfields : R.fields.wellFormed = true) : WritesFields P R where
  serialiser_eq path v buffer fixedOffset := by
    rw [serialiser, serialiseRecord_eq P path R.fields v buffer fixedOffset
      (RecordDecl.allFieldsUnique_of_accepted hR)]
  placed {Buffer _ I limit throws} hB v b b' pos hI hpos hlim hrun := by
    have hwf : R.type.wellFormed = true :=
      Bool.and_eq_true_iff.mpr ⟨RecordDecl.allFieldsUnique_of_accepted hR, hfields⟩
    have hsize : R.type.size = R.fields.size := by rw [Ty.size]
    have hposType : pos + R.type.size ≤ (bytes b).length := by rwa [hsize]
    have hposLayout : pos + (layout R.type (R.type.value v)).fixedSize ≤ (bytes b).length := by
      rwa [fixedSize_layout]
    obtain ⟨-, hb', -⟩ := (serialise_sat hB hwf v hI hposType hlim).ok hrun
    have hplaced : Placed (bytes b') (layout R.type (R.type.value v)) pos (bytes b).length :=
      hb' ▸ placed_install hposLayout
    have hlength : (bytes b').length < P.sizeRange := by
      rw [hb', Layout.length_install hposLayout]
      exact hlim.trans_le hB.limit_le
    have hin : pos + R.fields.size ≤ (bytes b').length := by
      have hfixed := hplaced.fixed_le
      rwa [fixedSize_layout, hsize] at hfixed
    have hlt : R.fields.size < P.sizeRange := by omega
    have hd : deserialise P R.type (bytes b') pos =
        .ok (⟨bytes b', pos⟩ : Deserialiser R.type) := by
      refine deserialise_record_iff.mpr ⟨?_, rfl⟩
      rwa [fixedDataSize_eq, hsize, Platform.wrap_of_lt hlt]
    refine ⟨_, hd, fun name hname => ?_⟩
    obtain ⟨t, x, base, ht, hx, hbase⟩ := placed_field R.fields v pos _ hlt hplaced name hname
    exact ⟨t, x, base, hx, (recordGet_of_size_lt hlength hlt hd ht).2, hbase⟩

/-! ### The whole of it -/

/-- **A base of a record**, and what a deserialiser of the record has in common with one of the
base. -/
structure Inherits (P : Platform) (R B : RecordDecl) (i : ℕ) : Prop where
  /-- The fields of the base come first. -/
  fields_eq : ∃ own, R.fields = B.fields.concat own
  /-- The conversion succeeds, where it compiles. -/
  toBase_eq : ∀ (mem : List UInt8) (offset : ℕ) (d : Deserialiser R.type),
    deserialise P R.type mem offset = .ok d → d.toBase P (i + 1) ≠ .error .illFormed →
      ∃ d' : Deserialiser B.type, d.toBase P (i + 1) = .ok ⟨B.type, d'⟩
  /-- And a field is then the same in both, where it compiles in the base. -/
  recordGet_eq : ∀ (mem : List UInt8) (offset : ℕ) (d : Deserialiser R.type)
    (d' : Deserialiser B.type), deserialise P R.type mem offset = .ok d →
      d.toBase P (i + 1) = .ok ⟨B.type, d'⟩ → ∀ name ∈ B.fields.names,
        d'.recordGet P name ≠ .error .illFormed → d'.recordGet P name = d.recordGet P name
  /-- If the size of the record is a `std::size_t`, then everything compiles. -/
  compiles : R.fields.size < P.sizeRange → ∀ (mem : List UInt8) (offset : ℕ)
    (d : Deserialiser R.type), mem.length < P.sizeRange → deserialise P R.type mem offset = .ok d →
      ∃ d' : Deserialiser B.type, d.toBase P (i + 1) = .ok ⟨B.type, d'⟩ ∧
        ∀ name ∈ B.fields.names, d'.recordGet P name ≠ .error .illFormed

theorem inherits {R B : RecordDecl} {i : ℕ} (hB : R.bases[i]? = some B) : Inherits P R B i := by
  -- the conversion compiles if and only if the base is no larger
  have hle : ∀ d : Deserialiser R.type, d.toBase P (i + 1) ≠ .error .illFormed →
      fixedDataSize P B.type ≤ fixedDataSize P R.type := by
    intro d hcompiles
    by_contra hnot
    rw [toBase_of_bases hB, if_neg hnot] at hcompiles
    exact hcompiles rfl
  refine ⟨(R.of_getElem?_bases hB).1, ?_, ?_, ?_⟩
  · intro mem offset d hd hcompiles
    exact ⟨_, toBase_eq_ok hB hd (hle d hcompiles)⟩
  · intro mem offset d d' hd hd' name _ hget
    have hsize := hle d (by rw [hd']; exact fun h => by cases h)
    obtain rfl := object_inj (toBase_eq_ok hB hd hsize) hd'
    obtain ⟨-, rfl⟩ := deserialise_record_iff.mp hd
    exact recordGet_base hB hsize hget
  · intro hlt mem offset d hlen hd
    have hsize := fixedDataSize_base_le hB hlt
    have hbase : deserialise P B.type mem offset = .ok (⟨mem, offset⟩ : Deserialiser B.type) := by
      obtain ⟨hcheck, -⟩ := deserialise_record_iff.mp hd
      exact deserialise_record_iff.mpr ⟨(Nat.add_le_add_left hsize offset).trans hcheck, rfl⟩
    refine ⟨_, toBase_eq_ok hB hd hsize, fun name hname => ?_⟩
    obtain ⟨t, ht⟩ := B.fields.exists_fieldType name hname
    have hBlt : B.fields.size < P.sizeRange := by
      obtain ⟨⟨own, hown⟩, -⟩ := R.of_getElem?_bases hB
      rw [hown, TypeList.size_concat] at hlt
      omega
    obtain ⟨hin, hget⟩ := recordGet_of_size_lt hlen hBlt hbase ht
    rw [hget, deserialiseObject_of_le hlen hin]
    exact fun h => by cases h

/-- **Record inheritance is compatible with the layout.** A declaration is accepted exactly if the
names over the whole chain are pairwise distinct; every base is one as `SerialisePP.Inherits` has
it; an index stands for the name at the index; and every field is read by its name where it has been
written. -/
theorem inheritance_layout (P : Platform) (R : RecordDecl) :
    (R.accepted = true ↔ R.names.Nodup) ∧
      (∀ (i : ℕ) (B : RecordDecl), R.bases[i]? = some B → Inherits P R B i) ∧
      (∀ (d : Deserialiser R.type) (index : ℕ) (name : String),
        R.fields.fieldName index = some name → d.recordGetIndex P index = d.recordGet P name) ∧
      (R.accepted = true → R.fields.wellFormed = true → WritesFields P R) := by
  refine ⟨R.accepted_iff, fun i B => inherits, fun d index name hname => ?_, writesFields⟩
  rw [recordGetIndex, hname]

/-- A record with a base of two fields, and a field of its own. -/
theorem inheritance_layout_derived :
    let base : RecordDecl := .record (.cons "a" (.unsigned 1) (.cons "b" (.unsigned 2) .nil))
    let R : RecordDecl := .derived base (.cons "c" (.optional (.unsigned 1)) .nil)
    let d : Deserialiser R.type := ⟨[1, 2, 0, 0, 0, 0, 0], 0⟩
    ∃ d' : Deserialiser base.type, d.toBase .x64 1 = .ok ⟨base.type, d'⟩ ∧
      d'.recordGet .x64 "b" = d.recordGet .x64 "b" ∧ WritesFields .x64 R := by
  intro base R d
  obtain ⟨haccepted, hbases, -, hwrites⟩ := inheritance_layout .x64 R
  have hbase := hbases 0 base rfl
  obtain ⟨d', hd', hcompiles⟩ := hbase.compiles (by decide) d.buffer 0 d (by decide) rfl
  have hb : "b" ∈ base.fields.names := by decide
  exact ⟨d', hd', hbase.recordGet_eq d.buffer 0 d d' rfl hd' "b" hb (hcompiles "b" hb),
    hwrites (haccepted.mpr (by decide)) (by decide)⟩

/-- **A record that is larger than the address space**: its size wraps around to 0, and the
conversion to its base does not compile. -/
theorem conversion_ill_formed :
    let half : Ty := .staticArray (.scalar .byte) (2 ^ 63)
    let base : RecordDecl := .record (.cons "a" half .nil)
    let R : RecordDecl := .derived base (.cons "b" half .nil)
    let d : Deserialiser R.type := ⟨[], 0⟩
    R.accepted = true ∧ R.bases[0]? = some base ∧ deserialise .x64 R.type [] 0 = .ok d ∧
      d.toBase .x64 1 = .error .illFormed := by
  intro half base R d
  have haccepted : R.accepted = true := by decide
  have hsize : fixedDataSize .x64 R.type = 0 := by decide
  have hbase : fixedDataSize .x64 base.type = 2 ^ 63 := by decide
  refine ⟨haccepted, rfl, ?_, ?_⟩
  · refine deserialise_record_iff.mpr ⟨?_, rfl⟩
    rw [hsize]
    exact le_rfl
  · have hB : R.bases[0]? = some base := rfl
    rw [toBase_of_bases hB, hsize, hbase, if_neg (by decide)]
    rfl

end SerialisePP
