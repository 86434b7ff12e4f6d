import SerialisePP.BasicBuffer
import SerialisePP.Extending

/-!
# Buffers of a fixed capacity

The benchmarks serialise into memory that is allocated once. A `preallocated_buffer` is like a
`basic_buffer` that never reallocates: what exceeds its capacity is refused with
`std::bad_alloc`.

A serialiser asks for its memory bit by bit, as it walks the value, and nothing is computed in
advance. `SerialisePP.FixedCapacity` is the contract of a buffer that refuses exactly what does
not fit, and it is enough to know where all of this ends: a call returns if and only if the
whole object fits and all of its offsets are accepted, whatever the order in which the memory
is asked for (`SerialisePP.FixedCapacity.serialise_sat`). For a `preallocated_buffer` this is
`SerialisePP.preallocated_returns_iff`.
-/

namespace SerialisePP

open Effect Region SerialiseBuffer TwoSection

/-! ### The contract -/

section Contract

variable {B : Type} [SerialiseBuffer B] {P : Platform} {I : B → Prop} {limit room : ℕ}

/-- **The contract of a buffer with room for so many bytes**, for the buffers that satisfy `I`:
`extend` adds exactly the bytes asked for, and throws `std::bad_alloc` if they do not fit, in
which case the buffer still satisfies `I`. -/
structure FixedCapacity (P : Platform) (B : Type) [SerialiseBuffer B] (I : B → Prop)
    (limit room : ℕ) : Prop extends SpanLaws B where
  limit_le : limit ≤ P.sizeRange
  length_le : ∀ b : B, I b → (bytes b).length ≤ room
  extend_sat : ∀ (b : B) (count : ℕ), I b → (bytes b).length + count < limit →
    Sat (extend count) b
      (fun _ b' => I b' ∧ ∃ more : List UInt8, more.length = count ∧ bytes b' = bytes b ++ more)
      fun e b' => I b' ∧ e = .thrown .badAlloc ∧ room < (bytes b).length + count
  store_eq : ∀ (b : B) (offset : ℕ) (xs : List UInt8), I b →
    offset + xs.length ≤ (bytes b).length →
    I (store offset xs b) ∧ bytes (store offset xs b) = overwrite (bytes b) offset xs

/-- Below a size, it throws only if that is more than there is room for. -/
theorem FixedCapacity.extending (hB : FixedCapacity P B I limit room) {total : ℕ}
    (hlim : total < limit) :
    ExtendingBuffer P B I (total + 1) fun x => x = .badAlloc ∧ room < total where
  toSpanLaws := hB.toSpanLaws
  limit_le := hlim.trans_le hB.limit_le
  extend_sat b count hI hcount := by
    refine (hB.extend_sat b count hI (hcount.trans_le hlim)).mono (fun _ _ h => h) ?_
    rintro e b' ⟨hI', rfl, hroom⟩
    exact ⟨hI', _, rfl, rfl, hroom.trans_le (Nat.le_of_lt_succ hcount)⟩
  store_eq := hB.store_eq

/-- **`serialise(source, buffer, fixed_offset)` with room for so many bytes**: it returns only
if the whole fits, and throws `std::bad_alloc` only if it does not. -/
theorem FixedCapacity.serialise_sat (hB : FixedCapacity P B I limit room) {t : Ty}
    (ht : t.wellFormed = true) (v : t.Source P) {pos : ℕ} {b : B} (hI : I b)
    (hpos : pos + t.size ≤ (bytes b).length)
    (hlim : (bytes b).length + variableSize t (t.value v) < limit) :
    let total := (bytes b).length + variableSize t (t.value v)
    let marks := (layout t (t.value v)).marks pos (bytes b).length
    Sat (serialise P t v pos) b
      (fun _ b' => I b' ∧ bytes b' = (layout t (t.value v)).install (bytes b) pos ∧
        Accepted P marks ∧ total ≤ room)
      fun e b' => I b' ∧ Fails P (fun x => x = .badAlloc ∧ room < total) marks e := by
  intro total marks
  refine ((hB.extending hlim).serialise_sat ht v hI hpos (Nat.lt_succ_self _)).mono ?_
    fun _ _ h => h
  rintro - b' ⟨hI', hb', hm⟩
  have hlen : (bytes b').length = total := by
    rw [← fixedSize_layout t (t.value v)] at hpos
    exact hb' ▸ Layout.length_install hpos
  exact ⟨hI', hb', hm, hlen ▸ hB.length_le b' hI'⟩

/-- **`serialise(source, buffer)` with room for so many bytes**, if `initialise` refuses what
does not fit, too. -/
theorem FixedCapacity.serialiseObject_sat (hB : FixedCapacity P B I limit room) {t : Ty}
    (ht : t.wellFormed = true) (v : t.Source P) {b : B}
    (hinitialise : Sat (initialise t.size) b (fun _ b' => I b' ∧ (bytes b').length = t.size)
      fun e b' => I b' ∧ e = .thrown .badAlloc ∧ room < t.size)
    (hlim : t.size + variableSize t (t.value v) < limit) :
    let total := t.size + variableSize t (t.value v)
    let marks := (layout t (t.value v)).marks 0 t.size
    Sat (serialiseObject P t v) b
      (fun _ b' => I b' ∧
        bytes b' = fixedData t (t.value v) t.size ++ variableData t (t.value v) t.size ∧
        Accepted P marks ∧ total ≤ room)
      fun e b' => I b' ∧ Fails P (fun x => x = .badAlloc ∧ room < total) marks e := by
  intro total marks
  refine ((hB.extending hlim).serialiseObject_sat ht v (hinitialise.mono (fun _ _ h => h) ?_)
    (Nat.lt_succ_self _)).mono ?_ fun _ _ h => h
  · rintro e b' ⟨hI', rfl, hroom⟩
    exact ⟨hI', _, rfl, rfl, hroom.trans_le (Nat.le_add_right ..)⟩
  · rintro - b' ⟨hI', hb', hm⟩
    have hlen : (bytes b').length = total := by
      rw [hb', List.length_append, length_fixedData, length_variableData]
    exact ⟨hI', hb', hm, hlen ▸ hB.length_le b' hI'⟩

/-- **When a call returns**: if what it leaves fits into a capacity, and the offsets are
accepted. It throws `std::bad_alloc` if the former, and the exception of an offset if the latter
is not so. -/
structure ReturnsIfFits (P : Platform) (m : EStateM Failure B Unit) (b : B) (room : ℕ)
    (result : List UInt8) (marks : List Mark) : Prop where
  returns_iff : (∃ b', m b = .ok () b') ↔ result.length ≤ room ∧ Accepted P marks
  returns : ∀ b', m b = .ok () b' → bytes b' = result
  throws : ∀ e b', m b = .error e b' →
    e = .thrown .badAlloc ∧ room < result.length ∨ Fails P (fun _ => False) marks e

theorem returnsIfFits_of_sat {m : EStateM Failure B Unit} {b : B} {result : List UInt8} {n : ℕ}
    {marks : List Mark} (hn : result.length = n)
    (h : Sat m b (fun _ b' => I b' ∧ bytes b' = result ∧ Accepted P marks ∧ n ≤ room)
      fun e b' => I b' ∧ Fails P (fun x => x = .badAlloc ∧ room < n) marks e) :
    ReturnsIfFits P m b room result marks := by
  subst hn
  refine ⟨⟨?_, ?_⟩, fun b' hrun => (h.ok hrun).2.1, fun e b' hrun => ?_⟩
  · rintro ⟨b', hrun⟩
    obtain ⟨-, -, hm, hfits⟩ := h.ok hrun
    exact ⟨hfits, hm⟩
  · rintro ⟨hfits, hm⟩
    obtain ⟨⟨⟩, b', hrun, -⟩ := h.exists_ok (by
      rintro e b' ⟨-, x, -, ⟨-, hroom⟩ | ⟨k, hk, hkx⟩⟩
      · exact absurd hfits (not_le.mpr hroom)
      · exact absurd ((hm k hk).symm.trans hkx) nofun)
    exact ⟨b', hrun⟩
  · obtain ⟨-, x, rfl, ⟨rfl, hroom⟩ | hmark⟩ := h.error hrun
    · exact .inl ⟨rfl, hroom⟩
    · exact .inr ⟨x, rfl, .inr hmark⟩

end Contract

/-! ### The buffer of the benchmarks -/

/-- **A `preallocated_buffer`**, on a platform. -/
structure PreallocatedBuffer (P : Platform) where
  /-- `_data`. -/
  data : ℕ
  /-- The bytes that `_data` points to. -/
  storage : List UInt8
  /-- `_capacity`. -/
  capacity : ℕ
  /-- `_used`. -/
  used : ℕ
  length_storage : storage.length = capacity
  used_le : used ≤ capacity

namespace PreallocatedBuffer

variable {P : Platform}

/-- The constructor: allocates the memory, and clears it. -/
def construct (P : Platform) (capacity : ℕ) : EStateM Failure Heap (PreallocatedBuffer P) := do
  let data ← Heap.allocate capacity
  pure ⟨data.address, List.replicate capacity 0, capacity, 0, List.length_replicate,
    Nat.zero_le _⟩

/-- The bytes that `span()` covers. -/
def bytes (b : PreallocatedBuffer P) : List UInt8 := b.storage.take b.used

/-- `_used` is set, unless it exceeds the capacity, and the span returned. -/
def use (size : ℕ) : EStateM Failure (PreallocatedBuffer P) Span := fun b =>
  if h : b.capacity < size then .error (.thrown .badAlloc) b
  else .ok ⟨b.data, size⟩ { b with used := size, used_le := not_lt.mp h }

/-- `initialise(size)`. -/
def initialise (size : ℕ) : EStateM Failure (PreallocatedBuffer P) Span := use size

/-- `extend(count)`. -/
def extend (count : ℕ) : EStateM Failure (PreallocatedBuffer P) Span := do
  let b ← get
  let newUsed := P.wrap (b.used + count)
  use newUsed

/-- The buffer once bytes have been written within the span. -/
def store (offset : ℕ) (xs : List UInt8) (b : PreallocatedBuffer P) : PreallocatedBuffer P :=
  if h : offset + xs.length ≤ b.used then
    { b with
      storage := overwrite b.storage offset xs
      length_storage := by
        have hin : offset + xs.length ≤ b.storage.length :=
          h.trans (b.used_le.trans b.length_storage.ge)
        exact (length_overwrite hin).trans b.length_storage }
  else b

instance : SerialiseBuffer (PreallocatedBuffer P) where
  data b := b.data
  bytes := bytes
  initialise := initialise
  extend := extend
  store := store

/-! ### What the operations do -/

theorem sat_construct (capacity : ℕ) (heap : Heap) :
    Sat (construct P capacity) heap (fun b _ => b.capacity = capacity) fun _ _ => True := by
  rw [construct, sat_bind]
  exact (sat_true _ _).mono (fun _ _ _ => rfl) fun _ _ h => h

theorem length_bytes (b : PreallocatedBuffer P) : b.bytes.length = b.used := by
  rw [bytes, List.length_take, b.length_storage, Nat.min_eq_left b.used_le]

/-- The memory of the buffer never moves. -/
structure SameMemory (b b' : PreallocatedBuffer P) : Prop where
  data_eq : b'.data = b.data
  capacity_eq : b'.capacity = b.capacity

theorem SameMemory.trans {b b' b'' : PreallocatedBuffer P} (h : SameMemory b b')
    (h' : SameMemory b' b'') : SameMemory b b'' :=
  ⟨h'.data_eq.trans h.data_eq, h'.capacity_eq.trans h.capacity_eq⟩

theorem span_use (n : ℕ) (b : PreallocatedBuffer P) :
    Sat (use n) b (fun span b' => span = ⟨b'.data, b'.used⟩) fun _ _ => True := by
  unfold Sat use
  split_ifs
  · trivial
  · rfl

/-- Using more of the storage adds to the bytes. -/
theorem sat_use {n : ℕ} {b : PreallocatedBuffer P} (hn : b.used ≤ n) :
    Sat (use n) b
      (fun _ b' => SameMemory b b' ∧
        ∃ more : List UInt8, more.length = n - b.used ∧ b'.bytes = b.bytes ++ more)
      fun e b' => b' = b ∧ e = .thrown .badAlloc ∧ b.capacity < n := by
  unfold Sat use
  split_ifs with h
  · exact ⟨rfl, rfl, h⟩
  · have hcap : n ≤ b.storage.length := b.length_storage ▸ not_lt.mp h
    refine ⟨⟨rfl, rfl⟩, slice b.storage b.used (n - b.used), length_slice (by omega), ?_⟩
    show b.storage.take n = b.storage.take b.used ++ _
    rw [slice, ← List.take_add, Nat.add_sub_cancel' hn]

/-- **`extend`** adds the bytes asked for, or throws as they do not fit. -/
theorem sat_extend {count : ℕ} {b : PreallocatedBuffer P} (hlim : b.used + count < P.sizeRange) :
    Sat (extend count) b
      (fun _ b' => SameMemory b b' ∧
        ∃ more : List UInt8, more.length = count ∧ b'.bytes = b.bytes ++ more)
      fun e b' => b' = b ∧ e = .thrown .badAlloc ∧ b.capacity < b.used + count := by
  have huse := sat_use (Nat.le_add_right b.used count)
  rw [Nat.add_sub_cancel_left] at huse
  rw [extend, sat_bind, sat_get, Platform.wrap_of_lt hlim]
  exact huse

/-- **`initialise`** leaves the bytes asked for, or throws as they do not fit. -/
theorem sat_initialise (size : ℕ) (b : PreallocatedBuffer P) :
    Sat (initialise size) b (fun _ b' => SameMemory b b' ∧ b'.used = size)
      fun e b' => b' = b ∧ e = .thrown .badAlloc ∧ b.capacity < size := by
  unfold Sat initialise use
  split_ifs with h
  · exact ⟨rfl, rfl, h⟩
  · exact ⟨⟨rfl, rfl⟩, rfl⟩

theorem store_of_le {offset : ℕ} {xs : List UInt8} {b : PreallocatedBuffer P}
    (h : offset + xs.length ≤ b.used) :
    SameMemory b (b.store offset xs) ∧ (b.store offset xs).used = b.used ∧
      (b.store offset xs).bytes = overwrite b.bytes offset xs := by
  have hin : offset + xs.length ≤ b.bytes.length := b.length_bytes.symm ▸ h
  have hsplit : b.storage = b.bytes ++ b.storage.drop b.used := (List.take_append_drop ..).symm
  rw [store, dif_pos h]
  refine ⟨⟨rfl, rfl⟩, rfl, ?_⟩
  show (overwrite b.storage offset xs).take b.used = _
  rw [hsplit, overwrite_append _ hin]
  exact List.take_left' ((length_overwrite hin).trans b.length_bytes)

end PreallocatedBuffer

/-! ### Serialising into it -/

section Preallocated

variable {P : Platform}

theorem preallocated_spanLaws : SpanLaws (PreallocatedBuffer P) where
  extend_span b count := by
    refine (PreallocatedBuffer.span_use _ b).mono ?_ fun _ _ _ => trivial
    rintro span b' rfl
    exact congrArg (Span.mk b'.data) b'.length_bytes.symm
  store_span b offset xs h := by
    obtain ⟨hsame, hused, -⟩ := PreallocatedBuffer.store_of_le (b.length_bytes ▸ h)
    show Span.mk (b.store offset xs).data (b.store offset xs).bytes.length =
      Span.mk b.data b.bytes.length
    rw [hsame.data_eq, PreallocatedBuffer.length_bytes, b.length_bytes, hused]

/-- **A `preallocated_buffer` has room for its capacity**, and stays where it is. -/
theorem preallocated_fixedCapacity (b₀ : PreallocatedBuffer P) :
    FixedCapacity P (PreallocatedBuffer P) b₀.SameMemory P.sizeRange b₀.capacity where
  toSpanLaws := preallocated_spanLaws
  limit_le := le_rfl
  length_le b hI := hI.capacity_eq ▸ b.length_bytes.le.trans b.used_le
  extend_sat b count hI hlim := by
    have hlen : (bytes b).length = b.used := b.length_bytes
    rw [hlen] at hlim ⊢
    refine (PreallocatedBuffer.sat_extend hlim).mono ?_ ?_
    · rintro - b' ⟨hsame, hmore⟩
      exact ⟨hI.trans hsame, hmore⟩
    · rintro e b' ⟨rfl, rfl, hcap⟩
      exact ⟨hI, rfl, hI.capacity_eq ▸ hcap⟩
  store_eq b offset xs hI h := by
    obtain ⟨hsame, -, hbytes⟩ := PreallocatedBuffer.store_of_le (b.length_bytes ▸ h)
    exact ⟨hI.trans hsame, hbytes⟩

/-- **`serialise(source, buffer)`**, into a `preallocated_buffer`. -/
theorem preallocated_serialiseObject_sat {t : Ty} (ht : t.wellFormed = true) (v : t.Source P)
    (b : PreallocatedBuffer P) (hlim : t.size + variableSize t (t.value v) < P.sizeRange) :
    let total := t.size + variableSize t (t.value v)
    let marks := (layout t (t.value v)).marks 0 t.size
    Sat (serialiseObject P t v) b
      (fun _ b' => b.SameMemory b' ∧
        bytes b' = fixedData t (t.value v) t.size ++ variableData t (t.value v) t.size ∧
        Accepted P marks ∧ total ≤ b.capacity)
      fun e b' => b.SameMemory b' ∧
        Fails P (fun x => x = .badAlloc ∧ b.capacity < total) marks e := by
  refine (preallocated_fixedCapacity b).serialiseObject_sat ht v ?_ hlim
  refine (PreallocatedBuffer.sat_initialise t.size b).mono ?_ ?_
  · rintro - b' ⟨hsame, hused⟩
    exact ⟨hsame, b'.length_bytes.trans hused⟩
  · rintro e b' ⟨rfl, rfl, hcap⟩
    exact ⟨⟨rfl, rfl⟩, rfl, hcap⟩

/-- **A call on a `preallocated_buffer` returns if and only if its result fits into the
capacity**, and all offsets are accepted, whatever the type and the value. It otherwise throws
for one of these two reasons, and the memory stays where it is in any case. -/
theorem preallocated_returns_iff {t : Ty} (ht : t.wellFormed = true) (v : t.Source P)
    (b : PreallocatedBuffer P) :
    (∀ pos, pos + t.size ≤ (bytes b).length →
      (bytes b).length + variableSize t (t.value v) < P.sizeRange →
        ReturnsIfFits P (serialise P t v pos) b b.capacity
            ((layout t (t.value v)).install (bytes b) pos)
            ((layout t (t.value v)).marks pos (bytes b).length) ∧
          ∀ b', Ends (serialise P t v pos) b b' → b.SameMemory b') ∧
    (t.size + variableSize t (t.value v) < P.sizeRange →
      ReturnsIfFits P (serialiseObject P t v) b b.capacity
          (fixedData t (t.value v) t.size ++ variableData t (t.value v) t.size)
          ((layout t (t.value v)).marks 0 t.size) ∧
        ∀ b', Ends (serialiseObject P t v) b b' → b.SameMemory b') := by
  refine ⟨fun pos hpos hlim => ?_, fun hlim => ?_⟩
  · have hsat := (preallocated_fixedCapacity b).serialise_sat ht v ⟨rfl, rfl⟩ hpos hlim
    refine ⟨returnsIfFits_of_sat ?_ hsat, fun b' hends => hends.sat ?_⟩
    · rw [← fixedSize_layout t (t.value v)] at hpos
      exact Layout.length_install hpos
    · exact hsat.mono (fun _ _ h => h.1) fun _ _ h => h.1
  · have hsat := preallocated_serialiseObject_sat ht v b hlim
    refine ⟨returnsIfFits_of_sat ?_ hsat, fun b' hends => hends.sat ?_⟩
    · rw [List.length_append, length_fixedData, length_variableData]
    · exact hsat.mono (fun _ _ h => h.1) fun _ _ h => h.1

/-- An optional of a byte takes five bytes, and a buffer of four refuses it, although it has
room for its fixed section. -/
theorem preallocated_returns_iff_full :
    let t : Ty := .optional (.scalar .byte)
    let v : t.Source .x64 := some (7 : UInt8)
    let b : PreallocatedBuffer .x64 := ⟨4096, List.replicate 4 0, 4, 0, rfl, by decide⟩
    ¬∃ b', serialiseObject .x64 t v b = .ok () b' := by
  intro t v b hreturns
  have hobject := (preallocated_returns_iff (by decide) v b).2 (by decide)
  exact absurd (hobject.1.returns_iff.mp hreturns).1 (by decide)

end Preallocated

end SerialisePP
