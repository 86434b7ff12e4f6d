import SerialisePP.Limits

/-!
# A reader of the documented format

The format is documented, so that other languages can read it. `SerialisePP.decode` is a reader
written from the document alone: it knows nothing of the platform, of deserialisers or of
`std::size_t`, and finds every part of an object where the document says that it is.

The document and the code disagree on one number. The index of a variant is documented as one
byte, and the library writes two (`variant_index_t`). So the reader takes the width of that
index as a parameter: with two bytes it reads back everything that `serialise` writes
(`SerialisePP.decode_serialise`), and with one byte it does not
(`SerialisePP.decode_documented_variant`).
-/

namespace SerialisePP

open LittleEndian Region SerialiseBuffer TwoSection

/-! ### The documented sizes -/

mutual

/-- **The size of the fixed data of a type**, as documented, for a width of variant
indices. -/
def documentedSize (indexWidth : ℕ) : Ty → ℕ
  | .scalar s => s.size
  | .staticArray t n => documentedSize indexWidth t * n
  | .dynamicArray _ => 4 + 4
  | .pair a b => documentedSize indexWidth a + documentedSize indexWidth b
  | .tuple ts => documentedFieldsSize indexWidth ts
  | .optional _ => 4
  | .variant _ => indexWidth + 4
  | .record fs _ => documentedFieldsSize indexWidth fs

/-- The size of the fixed data of a list of types. -/
def documentedFieldsSize (indexWidth : ℕ) : TypeList → ℕ
  | .nil => 0
  | .cons _ t ts => documentedSize indexWidth t + documentedFieldsSize indexWidth ts

end

mutual

/-- With an index of two bytes, these are the sizes that the library has. -/
theorem documentedSize_two : ∀ t : Ty, documentedSize 2 t = t.size
  | .scalar _ => rfl
  | .staticArray t n => by rw [documentedSize, documentedSize_two t, Ty.size]
  | .dynamicArray _ => rfl
  | .pair a b => by rw [documentedSize, documentedSize_two a, documentedSize_two b, Ty.size]
  | .tuple ts => by rw [documentedSize, documentedFieldsSize_two ts, Ty.size]
  | .optional _ => rfl
  | .variant _ => rfl
  | .record fs _ => by rw [documentedSize, documentedFieldsSize_two fs, Ty.size]

theorem documentedFieldsSize_two : ∀ ts : TypeList, documentedFieldsSize 2 ts = ts.size
  | .nil => rfl
  | .cons _ t ts => by
    rw [documentedFieldsSize, documentedSize_two t, documentedFieldsSize_two ts, TypeList.size]

end

/-! ### The reader -/

/-- The bytes of a region, if it lies in the buffer. -/
def bytesAt (mem : List UInt8) (pos n : ℕ) : Option { xs : List UInt8 // xs.length = n } :=
  if h : pos + n ≤ mem.length then some ⟨slice mem pos n, length_slice h⟩ else none

/-- A little-endian number of `n` bytes. -/
def uintAt (mem : List UInt8) (pos n : ℕ) : Option ℕ :=
  (bytesAt mem pos n).map fun xs => ofBytes xs.1

/-- **A scalar, as documented**: integers and floating-point numbers are little-endian, signed
integers in two's complement, and a `bool` is true if it is not zero. -/
def Scalar.decode : (s : Scalar) → (bytes : List UInt8) → bytes.length = s.size → s.Value
  | .null, _, _ => ()
  | .byte, [b], _ => b
  | .bool, [b], _ => b != 0
  | .unsigned _, bytes, h => ⟨ofBytes bytes, (ofBytes_lt bytes).trans_eq (congrArg (256 ^ ·) h)⟩
  | .signed _, bytes, h =>
    .ofUnsigned (ofBytes bytes) ((ofBytes_lt bytes).trans_eq (congrArg (256 ^ ·) h))
  | .float, bytes, _ => .ofNat 32 (ofBytes bytes)
  | .double, bytes, _ => .ofNat 64 (ofBytes bytes)

/-- Contiguous elements, given how to read one. -/
def elementsAt {α : Type} (element : ℕ → Option α) (size : ℕ) : (count pos : ℕ) → Option (List α)
  | 0, _ => some []
  | count + 1, pos => do
    let x ← element pos
    let xs ← elementsAt element size count (pos + size)
    pure (x :: xs)

variable (indexWidth : ℕ) (mem : List UInt8)

mutual

/-- **The reader**: the value of a type whose fixed data is at an offset. -/
def decode : (t : Ty) → (pos : ℕ) → Option t.Value
  | .scalar s, pos => do
    let bytes ← bytesAt mem pos s.size
    pure (s.decode bytes.1 bytes.2)
  | .staticArray t n, pos => do
    let elements ← elementsAt (decode t) (documentedSize indexWidth t) n pos
    if h : elements.length = n then pure ⟨elements, h⟩ else none
  | .dynamicArray t, pos => do
    let count ← uintAt mem pos 4
    let offset ← uintAt mem (pos + 4) 4
    elementsAt (decode t) (documentedSize indexWidth t) count offset
  | .pair a b, pos => do
    let first ← decode a pos
    let second ← decode b (pos + documentedSize indexWidth a)
    pure (first, second)
  | .tuple ts, pos => decodeFields ts pos
  | .optional t, pos => do
    -- 0 is no value, and anything else is one more than its offset
    let valueOffset ← uintAt mem pos 4
    if valueOffset = 0 then pure none
    else do
      let value ← decode t (valueOffset - 1)
      pure (some value)
  | .variant .nil, _ => some none
  | .variant (.cons name t ts), pos => do
    -- the index is as wide as the reader is told
    let index ← uintAt mem pos indexWidth
    let offset ← uintAt mem (pos + indexWidth) 4
    let value ← decodeAlternative (.cons name t ts) index offset
    pure (some value)
  | .record fs _, pos => decodeFields fs pos

/-- The elements of a tuple or the fields of a record, those of the base first. -/
def decodeFields : (ts : TypeList) → (pos : ℕ) → Option (ts.Data List)
  | .nil, _ => some ()
  | .cons _ t ts, pos => do
    let first ← decode t pos
    let rest ← decodeFields ts (pos + documentedSize indexWidth t)
    pure (first, rest)

/-- The alternative of a variant with an index. -/
def decodeAlternative : (ts : TypeList) → (index offset : ℕ) → Option (ts.Alternative List)
  | .nil, _, _ => none
  | .cons _ t _, 0, offset => do
    let value ← decode t offset
    pure (.inl value)
  | .cons _ _ ts, index + 1, offset => do
    let value ← decodeAlternative ts index offset
    pure (.inr value)

end

/-! ### The reader reads what is there -/

variable {indexWidth : ℕ} {mem : List UInt8} {P : Platform}

/-- The library's deserialisers read scalars as documented. -/
theorem Scalar.decode_eq (P : Platform) : ∀ (s : Scalar) (bytes : List UInt8)
    (h : bytes.length = s.size), s.decode bytes h = s.ofFixedBytes P bytes h
  | .null, _, _ => rfl
  | .byte, [_], _ => rfl
  | .bool, [_], _ => rfl
  | .unsigned _, bytes, _ => Fin.ext (unsignedValue_eq P bytes).symm
  | .signed _, bytes, h => SignedValue.ofUnsigned_congr (unsignedValue_eq P bytes).symm
    ((ofBytes_lt bytes).trans_eq (congrArg (256 ^ ·) h)) (unsignedValue_lt P h)
  | .float, bytes, _ => congrArg (BitVec.ofNat 32) (unsignedValue_eq P bytes).symm
  | .double, bytes, _ => congrArg (BitVec.ofNat 64) (unsignedValue_eq P bytes).symm

theorem uintAt_of_le {pos n : ℕ} (h : pos + n ≤ mem.length) :
    uintAt mem pos n = some (numberAt mem pos n) := by
  rw [uintAt, bytesAt, dif_pos h]
  rfl

/-- The next step after one that has succeeded. -/
theorem bind_of_some {α β : Type} {m : Option α} {a : α} (h : m = some a) (f : α → Option β) :
    (m >>= f) = f a := by
  rw [h]
  rfl

/-- **A row of objects is read in one go**, if each is read at its place. -/
theorem elementsAt_of_placed {α : Type} {l : α → Layout UInt8 Mark} {k : ℕ}
    (hk : ∀ x, (l x).fixedSize = k) {element : ℕ → Option α}
    (helement : ∀ x pos base, Placed mem (l x) pos base →
      (∀ m ∈ (l x).marks pos base, m.Fits) → element pos = some x) :
    ∀ (xs : List α) (pos base : ℕ), Placed mem (.concat (xs.map l)) pos base →
      (∀ m ∈ (Layout.concat (xs.map l)).marks pos base, m.Fits) →
        elementsAt element k xs.length pos = some xs
  | [], _, _, _, _ => rfl
  | x :: xs, pos, base, hp, hfits => by
    obtain ⟨hx, hxs⟩ := placed_append_iff.mp hp
    obtain ⟨hfx, hfxs⟩ := List.forall_mem_append.mp hfits
    rw [hk x] at hxs hfxs
    rw [List.length_cons, elementsAt, bind_of_some (helement x pos base hx hfx),
      bind_of_some (elementsAt_of_placed hk helement xs _ _ hxs hfxs)]
    rfl

mutual

/-- **A memory that holds the layout of a value is read as that value**, if all marks fit. -/
theorem decode_of_placed : ∀ (t : Ty) (v : t.Value) (pos base : ℕ), t.wellFormed = true →
    Placed mem (layout t v) pos base → (∀ k ∈ (layout t v).marks pos base, k.Fits) →
      decode 2 mem t pos = some v
  | .scalar s, v, pos, base, _, hp, _ => by
    have hle : pos + s.size ≤ mem.length := by
      have := hp.fixed_le
      rwa [fixedSize_layout] at this
    have hslice : slice mem pos s.size = s.encode v := by
      have := hp.fixed_eq
      rwa [fixedSize_layout] at this
    have hvalue : ∀ (xs : List UInt8) (hxs : xs.length = s.size), xs = s.encode v →
        s.decode xs hxs = v := by
      rintro _ _ rfl
      rw [s.decode_eq .x64]
      exact s.ofFixedBytes_encode .x64 v
    rw [decode, bytesAt, dif_pos hle]
    exact congrArg some (hvalue _ _ hslice)
  | .staticArray t n, v, pos, base, ht, hp, hfits => by
    have helements := elementsAt_of_placed (fixedSize_layout t)
      (fun x p b => decode_of_placed t x p b ht) v.1 pos base hp hfits
    rw [v.2, ← documentedSize_two] at helements
    rw [decode, bind_of_some helements]
    exact dif_pos v.2
  | .dynamicArray t, (v : List t.Value), pos, base, ht, hp, hfits => by
    obtain ⟨⟨hle, hheader⟩, helements⟩ := placed_box_iff.mp hp
    obtain ⟨hfit, hfits'⟩ := List.forall_mem_cons.mp hfits
    obtain ⟨hcount, hstart⟩ := not_or.mp hfit.1
    obtain ⟨hn, hs⟩ := numberAt_arrayHeader hle hheader (not_lt.mp hcount)
      fun hpos => not_lt.mp fun hbig => hstart ⟨hpos, hbig⟩
    rw [List.length_map] at hn hs
    rw [decode, uintAt_of_le (by omega), uintAt_of_le (by omega), hn, hs]
    -- without elements the offset is 0, and is not looked at
    cases v with
    | nil => rfl
    | cons x xs =>
      have hrow := elementsAt_of_placed (fixedSize_layout t)
        (fun x p b => decode_of_placed t x p b ht) (x :: xs) base _ helements hfits'
      rw [← documentedSize_two] at hrow
      exact hrow
  | .pair a b, v, pos, base, h, hp, hfits => by
    obtain ⟨ha, hb⟩ := Bool.and_eq_true_iff.mp h
    obtain ⟨hpa, hpb⟩ := placed_append_iff.mp hp
    obtain ⟨hfa, hfb⟩ := List.forall_mem_append.mp hfits
    rw [fixedSize_layout] at hpb hfb
    rw [decode, bind_of_some (decode_of_placed a v.1 pos base ha hpa hfa), documentedSize_two,
      bind_of_some (decode_of_placed b v.2 _ _ hb hpb hfb)]
    rfl
  | .tuple ts, v, pos, base, h, hp, hfits => decodeFields_of_placed ts v pos base h hp hfits
  | .optional t, none, pos, base, _, hp, _ => by
    have hle : pos + 4 ≤ mem.length := hp.fixed_le
    have hzero : numberAt mem pos 4 = 0 := numberAt_of_slice hp.fixed_eq (by decide)
    rw [decode, uintAt_of_le hle, hzero]
    rfl
  | .optional t, some v, pos, base, ht, hp, hfits => by
    obtain ⟨⟨hle, hheader⟩, hinner⟩ := placed_box_iff.mp hp
    obtain ⟨hfit, hfits'⟩ := List.forall_mem_cons.mp hfits
    have hn : numberAt mem pos 4 = base + 1 := numberAt_optionalHeader hheader (not_lt.mp hfit.1)
    rw [decode, uintAt_of_le hle, hn]
    exact bind_of_some (decode_of_placed t v base _ ht hinner hfits') _
  | .variant .nil, none, _, _, _, _, _ => rfl
  | .variant .nil, some v, _, _, _, _, _ => nomatch v
  | .variant (.cons _ _ _), none, _, _, _, _, hfits =>
    absurd rfl (hfits _ (List.mem_singleton_self _)).2
  | .variant (.cons name t ts), some v, pos, base, h, hp, hfits => by
    obtain ⟨hmax, hts⟩ := Bool.and_eq_true_iff.mp h
    have hlt := (TypeList.cons name t ts).alternativeIndex_lt v
    have hmax' : (TypeList.cons name t ts).length ≤ 2 ^ 16 - 1 := of_decide_eq_true hmax
    obtain ⟨⟨hle, hheader⟩, hinner⟩ := placed_box_iff.mp hp
    obtain ⟨hfit, hfits'⟩ := List.forall_mem_cons.mp hfits
    obtain ⟨hi, hs⟩ := numberAt_variantHeader hle hheader (by omega) (not_lt.mp hfit.1)
    rw [decode, uintAt_of_le (by omega), uintAt_of_le (by omega), hi, hs]
    exact bind_of_some (decodeAlternative_of_placed (.cons name t ts) v base hts hinner hfits') _
  | .record fs _, v, pos, base, h, hp, hfits =>
    decodeFields_of_placed fs v pos base (Bool.and_eq_true_iff.mp h).2 hp hfits

theorem decodeFields_of_placed : ∀ (ts : TypeList) (v : ts.Data List) (pos base : ℕ),
    ts.wellFormed = true → Placed mem (layoutFields ts v) pos base →
      (∀ k ∈ (layoutFields ts v).marks pos base, k.Fits) → decodeFields 2 mem ts pos = some v
  | .nil, _, _, _, _, _, _ => rfl
  | .cons name t ts, v, pos, base, h, hp, hfits => by
    obtain ⟨ht, hts⟩ := Bool.and_eq_true_iff.mp h
    obtain ⟨hpt, hps⟩ := placed_append_iff.mp hp
    obtain ⟨hft, hfs⟩ := List.forall_mem_append.mp hfits
    rw [fixedSize_layout] at hps hfs
    rw [decodeFields, bind_of_some (decode_of_placed t v.1 pos base ht hpt hft), documentedSize_two,
      bind_of_some (decodeFields_of_placed ts v.2 _ _ hts hps hfs)]
    rfl

theorem decodeAlternative_of_placed : ∀ (ts : TypeList) (v : ts.Alternative List) (pos : ℕ),
    ts.wellFormed = true →
      Placed mem (layoutAlternative ts v) pos (pos + (layoutAlternative ts v).fixedSize) →
        (∀ k ∈ (layoutAlternative ts v).marks pos (pos + (layoutAlternative ts v).fixedSize),
          k.Fits) →
            decodeAlternative 2 mem ts (ts.alternativeIndex v) pos = some v
  | .nil, v, _, _, _, _ => nomatch v
  | .cons _ t _, .inl v, pos, h, hp, hfits =>
    bind_of_some (decode_of_placed t v pos _ (Bool.and_eq_true_iff.mp h).1 hp hfits) _
  | .cons _ _ ts, .inr v, pos, h, hp, hfits =>
    bind_of_some (decodeAlternative_of_placed ts v pos (Bool.and_eq_true_iff.mp h).2 hp hfits) _

end

/-! ### The reader and the library -/

variable {B : Type} [SerialiseBuffer B] {I : B → Prop} {limit : ℕ} {throws : Exn → Prop}

/-- **The reader reads what `serialise` writes**, with an index of two bytes: for every
well-formed type and every value that is accepted, at any offset of any buffer and at the
root. -/
theorem decode_serialise (hB : LawfulBuffer P B I limit throws) {t : Ty}
    (ht : t.wellFormed = true) (v : t.Source P) {b b' : B} (hI : I b) :
    (∀ pos, pos + t.size ≤ (bytes b).length →
      (bytes b).length + variableSize t (t.value v) < limit →
      Unwrapped P ((layout t (t.value v)).marks pos (bytes b).length) →
      serialise P t v pos b = .ok () b' → decode 2 (bytes b') t pos = some (t.value v)) ∧
    (t.size + variableSize t (t.value v) < limit →
      Unwrapped P ((layout t (t.value v)).marks 0 t.size) →
      serialiseObject P t v b = .ok () b' → decode 2 (bytes b') t 0 = some (t.value v)) := by
  refine ⟨fun pos hpos hlim hw hrun => ?_, fun hlim hw hrun => ?_⟩
  · obtain ⟨hp, hfits, -⟩ := placed_of_serialise hB ht v hI hpos hlim hw hrun
    exact decode_of_placed t (t.value v) pos _ ht hp hfits
  · obtain ⟨hp, hfits, -⟩ := placed_of_serialiseObject hB ht v hI hlim hw hrun
    exact decode_of_placed t (t.value v) 0 _ ht hp hfits

/-- A variant that is the last of a pair, at the root. -/
theorem decode_serialise_variant :
    let t : Ty := .pair (.scalar .bool) (.variant (.ofTypes [.scalar .null, .unsigned 2]))
    let v : t.Source .x64 := (true, some (.inr (.inl (513 : Fin (256 ^ 2)))))
    let b : RelocatingBuffer := ⟨[], id, 0⟩
    ∃ b', serialiseObject .x64 t v b = .ok () b' ∧ decode 2 (bytes b') t 0 = some (t.value v) := by
  intro t v b
  have hB := relocatingBuffer_lawful .x64
  obtain ⟨b', hrun, -⟩ : ∃ b', serialiseObject .x64 t v b = .ok () b' ∧ bytes b' = _ :=
    serialiseObject_ok hB (by decide) v trivial (by decide) (by decide)
  exact ⟨b', hrun, (decode_serialise hB (by decide) v trivial).2 (by decide) (by decide) hrun⟩

/-- **With an index of one byte, as documented, it does not**: the offset is then read from the
wrong place. -/
theorem decode_documented_variant :
    let t : Ty := .variant (.ofTypes [.unsigned 1])
    let v : t.Source .x64 := some (.inl (5 : Fin (256 ^ 1)))
    let b : RelocatingBuffer := ⟨[], id, 0⟩
    ∃ b', serialiseObject .x64 t v b = .ok () b' ∧ decode 1 (bytes b') t 0 ≠ some (t.value v) := by
  intro t v b
  have hB := relocatingBuffer_lawful .x64
  obtain ⟨b', hrun, hb'⟩ : ∃ b', serialiseObject .x64 t v b = .ok () b' ∧ bytes b' = _ :=
    serialiseObject_ok hB (by decide) v trivial (by decide) (by decide)
  have hnone : decode 1 [0, 0, 6, 0, 0, 0, 5] t 0 = none := rfl
  have hbytes : bytes b' = [0, 0, 6, 0, 0, 0, 5] := hb'.trans (by decide)
  refine ⟨b', hrun, ?_⟩
  rw [hbytes, hnone]
  nofun

end SerialisePP
