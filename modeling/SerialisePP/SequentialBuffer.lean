import SerialisePP.FixedCapacity
import SerialisePP.RoundTrip

/-!
# Many objects in one buffer

To measure deserialisation, the benchmarks first serialise a whole batch of objects into one
`sequential_buffer`, and keep the span of each. The buffer makes every object believe that it has
the buffer for itself: `initialise` starts a new object where the last one ended, `span()` begins
there, and only `clear` gives memory back.

For this to work, no call may touch what was serialised before it, also if it throws half-way.
`SerialisePP.SequentialBuffer.recorded_spans_read` states it for any sequence of calls: all spans
that have been kept since the buffer was last cleared are disjoint, and each is still read back
as the value it was kept for.
-/

namespace SerialisePP

open Effect Region SerialiseBuffer TwoSection

/-! ### The buffer -/

/-- **A `sequential_buffer`**, on a platform. -/
structure SequentialBuffer (P : Platform) where
  /-- `_buffer`. -/
  buffer : PreallocatedBuffer P
  /-- `_current_start`: where the current object starts. -/
  currentStart : ℕ

namespace SequentialBuffer

variable {P : Platform}

/-- The constructor. -/
def construct (P : Platform) (capacity : ℕ) : EStateM Failure Heap (SequentialBuffer P) := do
  let buffer ← PreallocatedBuffer.construct P capacity
  pure ⟨buffer, 0⟩

/-- A call on `_buffer`. -/
def onBuffer {α : Type} (m : EStateM Failure (PreallocatedBuffer P) α) :
    EStateM Failure (SequentialBuffer P) α :=
  zoom SequentialBuffer.buffer (fun buffer b => { b with buffer := buffer }) m

/-- `span()`: the part of the buffer from `_current_start` on, which has to be in it. -/
def span : EStateM Failure (SequentialBuffer P) Span := do
  let b ← get
  if b.currentStart ≤ b.buffer.used then
    pure ⟨b.buffer.data + b.currentStart, b.buffer.used - b.currentStart⟩
  else
    throw .undefined

/-- `initialise(size)`: the new object starts at the end. -/
def initialise (size : ℕ) : EStateM Failure (SequentialBuffer P) Span := do
  modify fun b => { b with currentStart := b.buffer.used }
  let _ ← onBuffer (PreallocatedBuffer.extend size)
  span

/-- `extend(count)`. -/
def extend (count : ℕ) : EStateM Failure (SequentialBuffer P) Span := do
  let _ ← onBuffer (PreallocatedBuffer.extend count)
  span

/-- `clear()`. -/
def clear : EStateM Failure (SequentialBuffer P) Unit := do
  let _ ← onBuffer (PreallocatedBuffer.initialise 0)
  modify fun b => { b with currentStart := 0 }

/-- The bytes of the current object. -/
def bytes (b : SequentialBuffer P) : List UInt8 := b.buffer.bytes.drop b.currentStart

/-- The buffer once bytes of the current object have been written. -/
def store (offset : ℕ) (xs : List UInt8) (b : SequentialBuffer P) : SequentialBuffer P :=
  { b with buffer := b.buffer.store (b.currentStart + offset) xs }

instance : SerialiseBuffer (SequentialBuffer P) where
  data b := b.buffer.data + b.currentStart
  bytes := bytes
  initialise := initialise
  extend := extend
  store := store

/-- **What a span of the storage covers** at present. -/
def view (b : SequentialBuffer P) (s : Span) : List UInt8 :=
  slice b.buffer.storage (s.data - b.buffer.data) s.size

theorem sat_construct (capacity : ℕ) (heap : Heap) :
    Sat (construct P capacity) heap (fun b _ => b.buffer.capacity = capacity)
      fun _ _ => True := by
  rw [construct, sat_bind]
  exact (PreallocatedBuffer.sat_construct capacity heap).mono (fun _ _ h => h) fun _ _ h => h

theorem length_bytes (b : SequentialBuffer P) :
    b.bytes.length = b.buffer.used - b.currentStart := by
  rw [bytes, List.length_drop, b.buffer.length_bytes]

theorem sat_onBuffer {α : Type} {m : EStateM Failure (PreallocatedBuffer P) α}
    {b : SequentialBuffer P} {Q : α → PreallocatedBuffer P → Prop}
    {E : Failure → PreallocatedBuffer P → Prop} (h : Sat m b.buffer Q E) :
    Sat (onBuffer m) b (fun a b' => Q a b'.buffer ∧ b'.currentStart = b.currentStart)
      fun e b' => E e b'.buffer ∧ b'.currentStart = b.currentStart :=
  sat_zoom.mpr (h.mono (fun _ _ hQ => ⟨hQ, rfl⟩) fun _ _ hE => ⟨hE, rfl⟩)

theorem sat_span {b : SequentialBuffer P} (h : b.currentStart ≤ b.buffer.used) :
    Sat span b (fun s b' => b' = b ∧ s = spanOf b) fun _ _ => False := by
  rw [span, sat_bind, sat_get, if_pos h]
  exact ⟨rfl, congrArg (Span.mk _) b.length_bytes.symm⟩

theorem spanLaws : SpanLaws (SequentialBuffer P) where
  extend_span b count := by
    show Sat (extend count) b _ _
    rw [extend, sat_bind]
    refine (sat_onBuffer (sat_true _ _)).mono (fun _ b' _ => ?_) fun _ _ _ => trivial
    rw [span, sat_bind, sat_get]
    split_ifs
    · exact congrArg (Span.mk _) b'.length_bytes.symm
    · trivial
  store_span b offset xs h := by
    show Span.mk ((b.buffer.store (b.currentStart + offset) xs).data + b.currentStart)
      (b.store offset xs).bytes.length = Span.mk (b.buffer.data + b.currentStart) b.bytes.length
    rw [length_bytes, length_bytes]
    show Span.mk ((b.buffer.store (b.currentStart + offset) xs).data + b.currentStart)
      ((b.buffer.store (b.currentStart + offset) xs).used - b.currentStart) = _
    by_cases hin : b.currentStart + offset + xs.length ≤ b.buffer.used
    · obtain ⟨hsame, hused, -⟩ := PreallocatedBuffer.store_of_le hin
      rw [hsame.data_eq, hused]
    · rw [PreallocatedBuffer.store, dif_neg hin]

/-! ### One object after others -/

/-- **A buffer in which an object has been started after some bytes**, which are still
there. -/
structure After (b₀ : SequentialBuffer P) (before : List UInt8) (b : SequentialBuffer P) :
    Prop where
  memory : b₀.buffer.SameMemory b.buffer
  start_eq : b.currentStart = before.length
  isPrefix : before <+: b.buffer.bytes

theorem After.bytes_eq {b₀ b : SequentialBuffer P} {before : List UInt8} (h : After b₀ before b) :
    b.buffer.bytes = before ++ b.bytes := by
  obtain ⟨rest, hrest⟩ := h.isPrefix
  rw [bytes, h.start_eq, ← hrest, List.drop_left]

theorem After.start_le {b₀ b : SequentialBuffer P} {before : List UInt8} (h : After b₀ before b) :
    b.currentStart ≤ b.buffer.used := by
  rw [h.start_eq, ← b.buffer.length_bytes]
  exact h.isPrefix.length_le

/-- The object and what is before it take all of the buffer in use. -/
theorem After.length_add {b₀ b : SequentialBuffer P} {before : List UInt8}
    (h : After b₀ before b) : before.length + b.bytes.length = b.buffer.used := by
  rw [← b.buffer.length_bytes, h.bytes_eq, List.length_append]

/-- **Adding bytes**, to an object that has been started or by starting one. -/
theorem After.sat_extend {b₀ b : SequentialBuffer P} {before : List UInt8} (h : After b₀ before b)
    (count : ℕ) (hlim : b.buffer.used + count < P.sizeRange) :
    Sat (extend count) b
      (fun _ b' => After b₀ before b' ∧
        ∃ more : List UInt8, more.length = count ∧ b'.bytes = b.bytes ++ more)
      fun e b' => After b₀ before b' ∧ e = .thrown .badAlloc ∧
        b₀.buffer.capacity < b.buffer.used + count := by
  rw [extend, sat_bind]
  refine (sat_onBuffer (PreallocatedBuffer.sat_extend hlim)).mono ?_ ?_
  · rintro - b' ⟨⟨hsame, more, hlen, hmore⟩, hstart⟩
    have hafter : After b₀ before b' := by
      refine ⟨h.memory.trans hsame, hstart.trans h.start_eq, ?_⟩
      exact hmore ▸ h.isPrefix.trans (List.prefix_append ..)
    refine (sat_span hafter.start_le).mono ?_ fun _ _ h => h.elim
    rintro - b'' ⟨rfl, -⟩
    refine ⟨hafter, more, hlen, (List.append_right_inj before).mp ?_⟩
    rw [← hafter.bytes_eq, hmore, h.bytes_eq, List.append_assoc]
  · rintro e b' ⟨⟨hb', rfl, hcap⟩, hstart⟩
    refine ⟨⟨hb' ▸ h.memory, hstart.trans h.start_eq, hb' ▸ h.isPrefix⟩, rfl, ?_⟩
    rwa [h.memory.capacity_eq] at hcap

/-- **While an object is serialised after others**, the buffer has room for what remains of the
capacity, and the others are left alone. -/
theorem fixedCapacity (b₀ : SequentialBuffer P) (before : List UInt8) :
    FixedCapacity P (SequentialBuffer P) (After b₀ before) (P.sizeRange - before.length)
      (b₀.buffer.capacity - before.length) where
  toSpanLaws := spanLaws
  limit_le := Nat.sub_le ..
  length_le b h := by
    have hadd := h.length_add
    have hcap := b.buffer.used_le
    rw [h.memory.capacity_eq] at hcap
    show b.bytes.length ≤ _
    omega
  extend_sat b count h hlim := by
    have hadd := h.length_add
    have hused := b.buffer.used_le
    rw [h.memory.capacity_eq] at hused
    have hlim' : b.bytes.length + count < P.sizeRange - before.length := hlim
    refine (h.sat_extend count (by omega)).mono (fun _ _ h => h) ?_
    rintro e b' ⟨hafter, rfl, hcap⟩
    refine ⟨hafter, rfl, ?_⟩
    show _ < b.bytes.length + count
    omega
  store_eq b offset xs h hin := by
    have hadd := h.length_add
    have hin' : offset + xs.length ≤ b.bytes.length := hin
    obtain ⟨hsame, -, hbytes⟩ := @PreallocatedBuffer.store_of_le P (b.currentStart + offset) xs
      b.buffer (by rw [h.start_eq]; omega)
    rw [h.bytes_eq, h.start_eq, overwrite_append_right] at hbytes
    have hstore : (b.store offset xs).buffer.bytes = before ++ overwrite b.bytes offset xs := by
      rw [store, h.start_eq]
      exact hbytes
    have hafter : After b₀ before (b.store offset xs) :=
      ⟨h.memory.trans hsame, h.start_eq, hstore ▸ List.prefix_append ..⟩
    exact ⟨hafter, List.append_cancel_left (hafter.bytes_eq.symm.trans hstore)⟩

end SequentialBuffer

/-! ### An object in the buffer -/

/-- **An object to be serialised.** -/
structure Item (P : Platform) where
  /-- The type. -/
  type : Ty
  wellFormed : type.wellFormed = true
  /-- The value. -/
  source : type.Source P

namespace Item

variable {P : Platform}

/-- The value that is serialised. -/
def value (i : Item P) : i.type.Value := i.type.value i.source

/-- The bytes it is serialised to. -/
def content (i : Item P) : List UInt8 :=
  fixedData i.type i.value i.type.size ++ variableData i.type i.value i.type.size

/-- What is checked on the way. -/
def marks (i : Item P) : List Mark := (layout i.type i.value).marks 0 i.type.size

theorem length_content (i : Item P) :
    i.content.length = i.type.size + variableSize i.type i.value := by
  rw [content, List.length_append, length_fixedData, length_variableData]

/-- The bytes are read back as the value. -/
theorem deserialise_content (i : Item P) (hfits : ∀ k ∈ i.marks, k.Fits) {Q : Platform}
    (hQ : i.content.length < Q.sizeRange) :
    ∃ d, deserialise Q i.type i.content 0 = .ok d ∧ ∀ v, Yields Q i.type d v ↔ v = i.value :=
  deserialise_yields_iff hQ i.wellFormed (placed_object i.type i.value) hfits

end Item

namespace SequentialBuffer

variable {P : Platform}

/-- **Serialising one object** adds its bytes, and leaves what was there alone even if it
throws. -/
theorem sat_serialiseObject (i : Item P) {b : SequentialBuffer P}
    (hlim : b.buffer.used + i.content.length < P.sizeRange) :
    Sat (serialiseObject P i.type i.source) b
      (fun _ b' => After b b.buffer.bytes b' ∧ b'.bytes = i.content ∧ Accepted P i.marks ∧
        b.buffer.used + i.content.length ≤ b.buffer.capacity)
      fun e b' => After b b.buffer.bytes b' ∧
        Fails P (fun x => x = .badAlloc ∧ b.buffer.capacity < b.buffer.used + i.content.length)
          i.marks e := by
  rw [i.length_content] at hlim ⊢
  have hused := b.buffer.used_le
  have hlen := b.buffer.length_bytes
  let b₁ : SequentialBuffer P := { b with currentStart := b.buffer.used }
  have hstart : After b b.buffer.bytes b₁ := ⟨⟨rfl, rfl⟩, hlen.symm, List.prefix_rfl⟩
  have hnil : b₁.bytes = [] := List.drop_eq_nil_of_le hlen.le
  have hinitialise : Sat (initialise i.type.size) b
      (fun _ b' => After b b.buffer.bytes b' ∧ b'.bytes.length = i.type.size)
      fun e b' => After b b.buffer.bytes b' ∧ e = .thrown .badAlloc ∧
        b.buffer.capacity - b.buffer.bytes.length < i.type.size := by
    show Sat (extend i.type.size) b₁ _ _
    refine (hstart.sat_extend i.type.size ?_).mono ?_ ?_
    · show b.buffer.used + i.type.size < _
      omega
    · rintro - b' ⟨hafter, more, hmore, hb'⟩
      exact ⟨hafter, by rw [hb', hnil, List.nil_append, hmore]⟩
    · rintro e b' ⟨hafter, rfl, hcap⟩
      have hcap' : b.buffer.capacity < b.buffer.used + i.type.size := hcap
      exact ⟨hafter, rfl, by omega⟩
  refine ((fixedCapacity b b.buffer.bytes).serialiseObject_sat i.wellFormed i.source hinitialise
    (by show i.type.size + variableSize i.type i.value < _; omega)).mono ?_ ?_
  · rintro - b' ⟨hafter, hb', hm, hroom⟩
    have hroom' : i.type.size + variableSize i.type i.value ≤ _ := hroom
    exact ⟨hafter, hb', hm, by omega⟩
  · rintro e b' ⟨hafter, x, rfl, hx⟩
    refine ⟨hafter, x, rfl, hx.imp_left fun ⟨hbad, hroom⟩ => ⟨hbad, ?_⟩⟩
    have hroom' : _ < i.type.size + variableSize i.type i.value := hroom
    omega

/-- **`clear`** empties the buffer, and cannot fail. -/
theorem sat_clear (b : SequentialBuffer P) :
    Sat clear b (fun _ b' => b.buffer.SameMemory b'.buffer ∧ b'.buffer.used = 0)
      fun _ _ => False := by
  rw [clear, sat_bind]
  refine (sat_onBuffer (PreallocatedBuffer.sat_initialise 0 b.buffer)).mono (fun _ _ h => h.1) ?_
  rintro e b' ⟨⟨-, -, hcap⟩, -⟩
  exact absurd hcap (Nat.not_lt_zero _)

/-! ### The spans that are kept -/

/-- **A span that has been kept**, and the object it was kept for. -/
structure Record (P : Platform) where
  /-- The object. -/
  item : Item P
  /-- The span. -/
  span : Span

/-- **The bytes of an object are where its span says**, with marks that fit. -/
def Record.Held (b : SequentialBuffer P) (r : Record P) : Prop :=
  ∃ start, r.span = ⟨b.buffer.data + start, r.item.content.length⟩ ∧
    start + r.item.content.length ≤ b.buffer.used ∧
    slice b.buffer.bytes start r.item.content.length = r.item.content ∧
    ∀ k ∈ r.item.marks, k.Fits

/-- **Frame**: what is held stays, as long as bytes are only added. -/
theorem Record.Held.after {b b' : SequentialBuffer P} {r : Record P} (h : r.Held b)
    (hafter : After b b.buffer.bytes b') : r.Held b' := by
  obtain ⟨start, hspan, hin, hslice, hfits⟩ := h
  have hlen := b.buffer.length_bytes
  have hadd := hafter.length_add
  refine ⟨start, by rw [hspan, hafter.memory.data_eq], by omega, ?_, hfits⟩
  rwa [hafter.bytes_eq, slice_append_left _ (by omega)]

/-- What a kept span covers. -/
theorem Record.Held.view_eq {b : SequentialBuffer P} {r : Record P} (h : r.Held b) :
    b.view r.span = r.item.content := by
  obtain ⟨start, hspan, hin, hslice, -⟩ := h
  have hsplit : b.buffer.storage = b.buffer.bytes ++ b.buffer.storage.drop b.buffer.used :=
    (List.take_append_drop ..).symm
  rw [view, hspan, Nat.add_sub_cancel_left, hsplit, slice_append_left _ (by
    rwa [b.buffer.length_bytes]), hslice]

/-- One span before the other. -/
def Before (s s' : Span) : Prop := s.data + s.size ≤ s'.data

/-- **The invariant**: all objects are held, one after the other. -/
structure Invariant (b : SequentialBuffer P) (records : List (Record P)) : Prop where
  held : ∀ r ∈ records, r.Held b
  ordered : (records.map Record.span).Pairwise Before

theorem invariant_nil (b : SequentialBuffer P) : Invariant b [] :=
  ⟨fun _ hr => absurd hr List.not_mem_nil, List.Pairwise.nil⟩

/-- **The states that can be reached** from a new buffer, with the spans that have been kept since
it was last cleared. -/
inductive Reachable (P : Platform) : SequentialBuffer P → List (Record P) → Prop
  | construct {heap heap' : Heap} {b : SequentialBuffer P} (capacity : ℕ)
      (hrun : SequentialBuffer.construct P capacity heap = .ok b heap') : Reachable P b []
  | serialise {b b₁ b₂ : SequentialBuffer P} {records : List (Record P)} {s : Span} (i : Item P)
      (h : Reachable P b records) (hlim : b.buffer.used + i.content.length < P.sizeRange)
      (hw : Unwrapped P i.marks) (hrun : serialiseObject P i.type i.source b = .ok () b₁)
      (hspan : span b₁ = .ok s b₂) : Reachable P b₂ (records ++ [⟨i, s⟩])
  | throw {b b' : SequentialBuffer P} {records : List (Record P)} {e : Failure} (i : Item P)
      (h : Reachable P b records) (hlim : b.buffer.used + i.content.length < P.sizeRange)
      (hrun : serialiseObject P i.type i.source b = .error e b') : Reachable P b' records
  | clear {b b' : SequentialBuffer P} {records : List (Record P)} (h : Reachable P b records)
      (hrun : SequentialBuffer.clear b = .ok () b') : Reachable P b' []

/-- **One object keeps the invariant.** -/
theorem Invariant.serialise {b b' : SequentialBuffer P} {records : List (Record P)}
    (h : Invariant b records) (i : Item P) (hafter : After b b.buffer.bytes b')
    (hcontent : b'.bytes = i.content) (hfits : ∀ k ∈ i.marks, k.Fits) :
    Invariant b' (records ++ [⟨i, spanOf b'⟩]) := by
  have hlen := b.buffer.length_bytes
  have hadd := hafter.length_add
  have hspan : spanOf b' = ⟨b'.buffer.data + b.buffer.used, i.content.length⟩ := by
    rw [← hcontent, ← hlen, ← hafter.start_eq]
    rfl
  refine ⟨fun r hr => ?_, ?_⟩
  · rcases List.mem_append.mp hr with hr | hr
    · exact (h.held r hr).after hafter
    · obtain rfl := List.mem_singleton.mp hr
      refine ⟨b.buffer.used, hspan, ?_, ?_, hfits⟩
      · rw [← hcontent]
        omega
      · rw [hafter.bytes_eq, hcontent, ← hlen]
        exact slice_append_right _
  · rw [List.map_append, List.pairwise_append]
    refine ⟨h.ordered, List.pairwise_singleton .., fun s hs s' hs' => ?_⟩
    obtain ⟨r, hr, rfl⟩ := List.mem_map.mp hs
    obtain rfl : s' = spanOf b' := List.mem_singleton.mp hs'
    obtain ⟨start, hstart, hin, -⟩ := h.held r hr
    -- an earlier object ends before what is in use ends, and the new one starts there
    rw [Before, hstart, hspan, hafter.memory.data_eq]
    show b.buffer.data + start + r.item.content.length ≤ b.buffer.data + b.buffer.used
    omega

/-- **The invariant holds over every run.** -/
theorem Reachable.invariant {b : SequentialBuffer P} {records : List (Record P)}
    (h : Reachable P b records) : Invariant b records := by
  induction h with
  | construct => exact invariant_nil _
  | serialise i _ hlim hw hrun hspan ih =>
    obtain ⟨hafter, hcontent, hm, -⟩ := (sat_serialiseObject i hlim).ok hrun
    obtain ⟨rfl, rfl⟩ := (sat_span hafter.start_le).ok hspan
    exact ih.serialise i hafter hcontent fun k hk =>
      Mark.fits_of_failure_eq_none (hm k hk) (hw k hk)
  | throw i _ hlim hrun ih =>
    obtain ⟨hafter, -⟩ := (sat_serialiseObject i hlim).error hrun
    exact ⟨fun r hr => (ih.held r hr).after hafter, ih.ordered⟩
  | clear => exact invariant_nil _

/-- **All spans that have been kept since the buffer was last cleared are read back**, each as the
value it was kept for and as no other, after any number of further objects, and even if some of
them have thrown; and no two of them overlap. -/
theorem recorded_spans_read {b : SequentialBuffer P} {records : List (Record P)}
    (h : Reachable P b records) {Q : Platform} (hQ : b.buffer.capacity < Q.sizeRange) :
    (∀ r ∈ records, ∃ d, deserialise Q r.item.type (b.view r.span) 0 = .ok d ∧
      ∀ v, Yields Q r.item.type d v ↔ v = r.item.value) ∧
      (records.map Record.span).Pairwise Before := by
  refine ⟨fun r hr => ?_, h.invariant.ordered⟩
  have hheld := h.invariant.held r hr
  rw [hheld.view_eq]
  obtain ⟨start, -, hin, -, hfits⟩ := hheld
  exact r.item.deserialise_content hfits (by have := b.buffer.used_le; omega)

/-- A buffer of nine bytes, with an optional of five bytes in it, and then another one for which
there is only enough room at first. -/
theorem recorded_spans_read_full :
    let i : Item .x64 := ⟨.optional (.scalar .byte), rfl, some (7 : UInt8)⟩
    let b : SequentialBuffer .x64 := ⟨⟨4096, List.replicate 9 0, 9, 0, rfl, by decide⟩, 0⟩
    ∃ b₁ b₂, serialiseObject .x64 i.type i.source b = .ok () b₁ ∧
      serialiseObject .x64 i.type i.source b₁ = .error (.thrown .badAlloc) b₂ ∧
        ∃ d, deserialise .x64 i.type (b₂.view ⟨4096, 5⟩) 0 = .ok d ∧
          ∀ v, Yields .x64 i.type d v ↔ v = i.value := by
  intro i b
  let b₁ : SequentialBuffer .x64 :=
    ⟨⟨4096, [5, 0, 0, 0, 7, 0, 0, 0, 0], 9, 5, rfl, by decide⟩, 0⟩
  let b₂ : SequentialBuffer .x64 :=
    ⟨⟨4096, [5, 0, 0, 0, 7, 5, 0, 0, 0], 9, 9, rfl, by decide⟩, 5⟩
  have hrun₁ : serialiseObject .x64 i.type i.source b = .ok () b₁ := by
    subst i b b₁
    rfl
  have hrun₂ : serialiseObject .x64 i.type i.source b₁ = .error (.thrown .badAlloc) b₂ := by
    subst i b₁ b₂
    rfl
  have hconstruct : SequentialBuffer.construct .x64 9 (Heap.filled 0 fun _ => false) =
      .ok b (Heap.filled 0 fun _ => false).next := rfl
  have hreach : Reachable .x64 b₂ [⟨i, ⟨4096, 5⟩⟩] :=
    .throw i (.serialise i (.construct 9 hconstruct) (by decide) (by decide) hrun₁ rfl)
      (by decide) hrun₂
  exact ⟨b₁, b₂, hrun₁, hrun₂,
    (recorded_spans_read hreach (by decide)).1 _ (List.mem_singleton_self _)⟩

end SequentialBuffer

end SerialisePP
