import SerialisePP.Buffer
import SerialisePP.Lib.Rounding

/-!
# `basic_buffer`

The buffer that comes with the library: an array on the heap, of which a part at the beginning
is used. It is initialised and extended without clearing memory, and grows by half more than
is needed, a computation made in `double`.

The heap is a parameter (`SerialisePP.Heap`): every allocation may fail, and one that succeeds
may hold any bytes. What a `basic_buffer` relies on about itself is
`SerialisePP.BasicBuffer.WellFormed`, which every operation keeps whatever its outcome, so that
`SerialisePP.HeapBuffer`, the states in which it holds, are a `serialise_buffer`. It honours the
contract of one below 2^51 bytes (`SerialisePP.heapBuffer_lawful`).
-/

namespace SerialisePP

open Effect Region Rounding

/-! ### The heap -/

/-- What `new std::byte[size]` returns: an array at an address, of any content. -/
structure Allocation (size : ℕ) where
  /-- Where the array is. The null pointer is 0. -/
  address : ℕ
  /-- The bytes of the array. -/
  bytes : List UInt8
  address_ne_zero : address ≠ 0
  length_bytes : bytes.length = size

/-- **The heap**: what each allocation returns, if it succeeds, and how many have been made. -/
structure Heap where
  /-- What the allocation with a number returns; none if it throws. -/
  outcome : (serial size : ℕ) → Option (Allocation size)
  /-- The number of allocations so far. -/
  serial : ℕ

/-- The heap after one more allocation. -/
def Heap.next (h : Heap) : Heap := { h with serial := h.serial + 1 }

/-- **A heap with memory left**: no allocation fails from now on. -/
def Heap.Reliable (h : Heap) : Prop :=
  ∀ serial size, h.serial ≤ serial → h.outcome serial size ≠ none

theorem Heap.Reliable.next {h : Heap} (hr : h.Reliable) : h.next.Reliable := fun serial size hle =>
  hr serial size ((Nat.le_succ _).trans hle)

/-- `new std::byte[size]`. -/
def Heap.allocate (size : ℕ) : EStateM Failure Heap (Allocation size) := fun h =>
  match h.outcome h.serial size with
  | some a => .ok a h.next
  | none => .error (.thrown .badAlloc) h.next

/-- A heap whose memory holds one byte throughout, and of which some allocations fail. -/
def Heap.filled (x : UInt8) (fails : ℕ → Bool) : Heap where
  outcome serial size :=
    if fails serial then none
    else some ⟨4096, List.replicate size x, by decide, List.length_replicate⟩
  serial := 0

theorem Heap.reliable_filled {x : UInt8} {fails : ℕ → Bool} {serial : ℕ}
    (h : ∀ n, serial ≤ n → fails n = false) :
    Heap.Reliable { Heap.filled x fails with serial := serial } := by
  intro n size hn
  show (if fails n then none else some _) ≠ none
  rw [h n hn]
  exact Option.some_ne_none _

/-! ### The buffer -/

/-- **A `basic_buffer`.** -/
structure BasicBuffer where
  /-- `_data`. -/
  data : ℕ
  /-- The bytes that `_data` points to. -/
  storage : List UInt8
  /-- `_capacity`. -/
  capacity : ℕ
  /-- `_used`. -/
  used : ℕ

namespace BasicBuffer

/-- **What a `basic_buffer` relies on**: the storage holds as many bytes as the capacity says,
no more of them are used, and without storage there is no capacity. -/
structure WellFormed (b : BasicBuffer) : Prop where
  length_storage : b.storage.length = b.capacity
  used_le : b.used ≤ b.capacity
  capacity_of_null : b.data = 0 → b.capacity = 0

/-- The constructor: allocates `capacity` bytes, and clears them if they are to be
preloaded. -/
def construct (capacity : ℕ) (preload : Bool) : EStateM Failure Heap BasicBuffer := do
  let data ← Heap.allocate capacity
  pure ⟨data.address, if preload then List.replicate capacity 0 else data.bytes, capacity, 0⟩

/-- What is left of a buffer that has been moved from. -/
def movedFrom : BasicBuffer := ⟨0, [], 0, 0⟩

/-- The bytes that `span()` covers. -/
def bytes (b : BasicBuffer) : List UInt8 := b.storage.take b.used

/-- `span()`. -/
def span (b : BasicBuffer) : Span := ⟨b.data, b.used⟩

/-- The buffer once bytes have been written to its storage. -/
def store (offset : ℕ) (xs : List UInt8) (b : BasicBuffer) : BasicBuffer :=
  { b with storage := overwrite b.storage offset xs }

variable {b : BasicBuffer}

theorem WellFormed.length_bytes (h : b.WellFormed) : b.bytes.length = b.used := by
  rw [bytes, List.length_take, h.length_storage, Nat.min_eq_left h.used_le]

theorem wellFormed_movedFrom : movedFrom.WellFormed := ⟨rfl, le_rfl, fun _ => rfl⟩

theorem wellFormed_construct (capacity : ℕ) (preload : Bool) (h : Heap) :
    Sat (construct capacity preload) h (fun b _ => b.WellFormed) fun _ _ => True := by
  rw [construct, sat_bind]
  unfold Sat Heap.allocate
  cases h.outcome h.serial capacity with
  | none => exact trivial
  | some a =>
    refine ⟨?_, Nat.zero_le _, fun hzero => absurd hzero a.address_ne_zero⟩
    cases preload
    · exact a.length_bytes
    · exact List.length_replicate

theorem WellFormed.store (h : b.WellFormed) {offset : ℕ} {xs : List UInt8}
    (hx : offset + xs.length ≤ b.used) : (b.store offset xs).WellFormed := by
  have hin : offset + xs.length ≤ b.storage.length :=
    hx.trans (h.used_le.trans h.length_storage.ge)
  exact ⟨(length_overwrite hin).trans h.length_storage, h.used_le, h.capacity_of_null⟩

/-- Writing to the storage within the span is writing to the span. -/
theorem WellFormed.bytes_store (h : b.WellFormed) {offset : ℕ} {xs : List UInt8}
    (hx : offset + xs.length ≤ b.used) :
    (b.store offset xs).bytes = overwrite b.bytes offset xs := by
  have hin : offset + xs.length ≤ b.bytes.length := h.length_bytes.symm ▸ hx
  -- the storage is the span and what is unused, and the write stays in the former
  have hsplit : b.storage = b.bytes ++ b.storage.drop b.used := (List.take_append_drop ..).symm
  show (overwrite b.storage offset xs).take b.used = _
  rw [hsplit, overwrite_append _ hin]
  exact List.take_left' ((length_overwrite hin).trans h.length_bytes)

end BasicBuffer

/-- **A buffer and the heap it allocates from.** -/
structure BufferState where
  /-- The buffer. -/
  buffer : BasicBuffer
  /-- The heap. -/
  heap : Heap

/-! ### Growing -/

/-- `new_used * 1.5`, in `double` and then truncated: both the conversion of the number and
the product are rounded to 53 significant bits. -/
def timesOneAndAHalf (n : ℕ) : ℕ := roundTo 53 (3 * roundTo 53 n) / 2

/-- It is exact for small numbers. -/
theorem timesOneAndAHalf_of_lt {n : ℕ} (h : n < 2 ^ 51) : timesOneAndAHalf n = 3 * n / 2 := by
  have hconv : roundTo 53 n = n := roundTo_of_lt (by omega)
  rw [timesOneAndAHalf, hconv, roundTo_of_lt (by omega)]

/-- It never loses what was asked for. -/
theorem le_timesOneAndAHalf (n : ℕ) : n ≤ timesOneAndAHalf n := by
  have hconv := @le_roundTo 53 n (by decide)
  have hprod := @le_roundTo 53 (3 * roundTo 53 n) (by decide)
  rw [timesOneAndAHalf, Nat.le_div_iff_mul_le (by decide)]
  omega

namespace BufferState

/-- An allocation, by the buffer. -/
def allocate (size : ℕ) : EStateM Failure BufferState (Allocation size) := fun s =>
  match Heap.allocate size s.heap with
  | .ok a h => .ok a { s with heap := h }
  | .error e h => .error e { s with heap := h }

variable (P : Platform)

/-- `static_cast<std::size_t>` of a `double`, which is undefined if the number is out of
range. -/
def toSize (n : ℕ) : EStateM Failure BufferState ℕ :=
  if n < P.sizeRange then pure n else throw .undefined

/-- `_used` is set, and the span returned. -/
def use (size : ℕ) : EStateM Failure BufferState Span := do
  modify fun s => { s with buffer := { s.buffer with used := size } }
  let s ← get
  pure s.buffer.span

/-- The allocation in `initialise`. -/
def reset (size : ℕ) : EStateM Failure BufferState Unit := do
  let data ← allocate size
  modify fun s => { s with buffer := ⟨data.address, data.bytes, size, s.buffer.used⟩ }

/-- **`initialise(size)`.** -/
def initialise (size : ℕ) : EStateM Failure BufferState Span := do
  let s ← get
  if s.buffer.capacity < size then do
    reset size
    use size
  else
    use size

/-- `assert(_data || _used == 0)`. -/
def assertData : EStateM Failure BufferState Unit := do
  let s ← get
  if P.assertions && !(s.buffer.data != 0 || s.buffer.used == 0) then throw .assertFailed
  else pure ()

/-- `std::copy_n` of the bytes in use to a new array, which then takes the place of the old
one. The behaviour is undefined if there are more of them than the array has room for. -/
def moveTo {size : ℕ} (newData : Allocation size) : EStateM Failure BufferState Unit := do
  let s ← get
  if size < s.buffer.used then throw .undefined
  else set { s with buffer :=
    ⟨newData.address, overwrite newData.bytes 0 s.buffer.bytes, size, s.buffer.used⟩ }

/-- The reallocation in `extend`. -/
def reallocate (newUsed : ℕ) : EStateM Failure BufferState Unit := do
  let newCapacity ← toSize P (timesOneAndAHalf newUsed)
  let newData ← allocate newCapacity
  assertData P
  moveTo newData

/-- **`extend(count)`.** -/
def extend (count : ℕ) : EStateM Failure BufferState Span := do
  let s ← get
  let newUsed := P.wrap (s.buffer.used + count)
  if s.buffer.capacity < newUsed then do
    reallocate P newUsed
    use newUsed
  else
    use newUsed

/-! ### What the operations do -/

variable {P}

/-- The state once the heap has been asked for memory. -/
def nextHeap (s : BufferState) : BufferState := { s with heap := s.heap.next }

/-- **How an operation fails**: an allocation has, which changes nothing about the buffer. -/
structure OutOfMemory (s : BufferState) (e : Failure) (s' : BufferState) : Prop where
  buffer_eq : s'.buffer = s.buffer
  failure_eq : e = .thrown .badAlloc
  not_reliable : ¬s.heap.Reliable

theorem outOfMemory {s : BufferState} {size : ℕ}
    (h : s.heap.outcome s.heap.serial size = none) :
    OutOfMemory s (.thrown .badAlloc) s.nextHeap where
  buffer_eq := rfl
  failure_eq := rfl
  not_reliable hr := hr _ size le_rfl h

/-- An allocation succeeds or fails, as the heap has it. -/
theorem sat_allocate {size : ℕ} {s : BufferState} {Q : Allocation size → BufferState → Prop}
    {E : Failure → BufferState → Prop} : Sat (allocate size) s Q E ↔
      match s.heap.outcome s.heap.serial size with
      | some a => Q a s.nextHeap
      | none => E (.thrown .badAlloc) s.nextHeap := by
  unfold Sat allocate Heap.allocate
  cases s.heap.outcome s.heap.serial size <;> exact Iff.rfl

/-- **`initialise`**: the span has the size asked for, unless an allocation fails. -/
theorem initialise_sat (size : ℕ) {s : BufferState} (hs : s.buffer.WellFormed) :
    Sat (initialise size) s
      (fun span s' => (s'.buffer.WellFormed ∧ span = s'.buffer.span ∧ s'.buffer.used = size) ∧
        (s.heap.Reliable → s'.heap.Reliable))
      (OutOfMemory s) := by
  rw [initialise, sat_bind, sat_get]
  split_ifs with hcap
  · rw [reset, sat_bind, sat_bind, sat_allocate]
    cases hout : s.heap.outcome s.heap.serial size with
    | none => exact outOfMemory hout
    | some a =>
      have hwf : BasicBuffer.WellFormed ⟨a.address, a.bytes, size, size⟩ :=
        ⟨a.length_bytes, le_rfl, fun hzero => absurd hzero a.address_ne_zero⟩
      exact ⟨⟨hwf, rfl, rfl⟩, Heap.Reliable.next⟩
  · exact ⟨⟨⟨hs.length_storage, not_lt.mp hcap, hs.capacity_of_null⟩, rfl, rfl⟩, id⟩

/-- **Reallocating**: the buffer has the same bytes and the new capacity. -/
theorem sat_reallocate {newUsed : ℕ} {s : BufferState} (hs : s.buffer.WellFormed)
    (hcap : s.buffer.capacity < newUsed) {Q : Unit → BufferState → Prop}
    {E : Failure → BufferState → Prop} : Sat (reallocate P newUsed) s Q E ↔
      if timesOneAndAHalf newUsed < P.sizeRange then
        match s.heap.outcome s.heap.serial (timesOneAndAHalf newUsed) with
        | some a => Q () ⟨⟨a.address, overwrite a.bytes 0 s.buffer.bytes,
            timesOneAndAHalf newUsed, s.buffer.used⟩, s.heap.next⟩
        | none => E (.thrown .badAlloc) s.nextHeap
      else E .undefined s := by
  -- the new array is never too small for what is copied, however the capacity was rounded
  have hused : ¬timesOneAndAHalf newUsed < s.buffer.used :=
    not_lt.mpr (hs.used_le.trans (hcap.le.trans (le_timesOneAndAHalf newUsed)))
  have hassert : (P.assertions && !(s.buffer.data != 0 || s.buffer.used == 0)) = false := by
    -- without storage nothing is in use, which is what is asserted
    by_cases hnull : s.buffer.data = 0
    · have hzero : s.buffer.used = 0 := Nat.le_zero.mp (hs.capacity_of_null hnull ▸ hs.used_le)
      rw [hzero, beq_self_eq_true, Bool.or_true, Bool.not_true, Bool.and_false]
    · rw [bne_iff_ne.mpr hnull, Bool.true_or, Bool.not_true, Bool.and_false]
  have hmove : ∀ (a : Allocation (timesOneAndAHalf newUsed)),
      Sat (assertData P >>= fun _ => moveTo a) s.nextHeap Q E ↔
        Q () ⟨⟨a.address, overwrite a.bytes 0 s.buffer.bytes, timesOneAndAHalf newUsed,
          s.buffer.used⟩, s.heap.next⟩ := by
    intro a
    rw [sat_bind, assertData, sat_bind, sat_get, nextHeap, hassert, if_neg Bool.false_ne_true,
      sat_pure, moveTo, sat_bind, sat_get, if_neg hused]
    exact Iff.rfl
  rw [reallocate, sat_bind, toSize]
  split_ifs with hrange
  · rw [sat_pure, sat_bind, sat_allocate]
    cases s.heap.outcome s.heap.serial (timesOneAndAHalf newUsed) with
    | none => exact Iff.rfl
    | some a => exact hmove a
  · exact Iff.rfl

/-- **`extend`**, whatever the numbers: the new number of bytes in use is computed in
`std::size_t`, and there is a reallocation if the capacity is less than that. -/
theorem sat_extend {count n : ℕ} {s : BufferState} (hs : s.buffer.WellFormed)
    (hn : P.wrap (s.buffer.used + count) = n) {Q : Span → BufferState → Prop}
    {E : Failure → BufferState → Prop} :
    Sat (extend P count) s Q E ↔
      if s.buffer.capacity < n then
        if timesOneAndAHalf n < P.sizeRange then
          match s.heap.outcome s.heap.serial (timesOneAndAHalf n) with
          | some a => Q ⟨a.address, n⟩
              ⟨⟨a.address, overwrite a.bytes 0 s.buffer.bytes, timesOneAndAHalf n, n⟩, s.heap.next⟩
          | none => E (.thrown .badAlloc) s.nextHeap
        else E .undefined s
      else Q ⟨s.buffer.data, n⟩ { s with buffer := { s.buffer with used := n } } := by
  subst hn
  rw [extend, sat_bind, sat_get]
  show Sat (if s.buffer.capacity < P.wrap (s.buffer.used + count) then _ else _) s Q E ↔ _
  split_ifs with hcap hrange
  · rw [sat_bind, sat_reallocate hs hcap, if_pos hrange]
    cases s.heap.outcome s.heap.serial (timesOneAndAHalf (P.wrap (s.buffer.used + count))) <;>
      exact Iff.rfl
  · rw [sat_bind, sat_reallocate hs hcap, if_neg hrange]
  · exact Iff.rfl

/-- What a reallocation leaves is well-formed, and has the same bytes with new ones after
them. -/
theorem reallocated {size newUsed : ℕ} {b : BasicBuffer} (hb : b.WellFormed) (a : Allocation size)
    (hused : b.used ≤ newUsed) (hsize : newUsed ≤ size) :
    let b' : BasicBuffer := ⟨a.address, overwrite a.bytes 0 b.bytes, size, newUsed⟩
    b'.WellFormed ∧ ∃ more : List UInt8, more.length = newUsed - b.used ∧
      b'.bytes = b.bytes ++ more := by
  intro b'
  have hlen := hb.length_bytes
  have hin : 0 + b.bytes.length ≤ a.bytes.length := by
    rw [hlen, a.length_bytes]
    omega
  have hstorage : b'.storage.length = size := (length_overwrite hin).trans a.length_bytes
  refine ⟨⟨hstorage, hsize, fun hzero => absurd hzero a.address_ne_zero⟩,
    (a.bytes.drop b.used).take (newUsed - b.used), ?_, ?_⟩
  · rw [List.length_take, List.length_drop, a.length_bytes]
    omega
  · show (overwrite a.bytes 0 b.bytes).take newUsed = _
    rw [overwrite, List.take_zero, List.nil_append, Nat.zero_add, hlen, List.take_append, hlen,
      List.take_of_length_le (hlen.le.trans hused)]

/-- What a larger use of the storage leaves, likewise. -/
theorem extended {newUsed : ℕ} {b : BasicBuffer} (hb : b.WellFormed) (hused : b.used ≤ newUsed)
    (hcap : newUsed ≤ b.capacity) :
    let b' : BasicBuffer := { b with used := newUsed }
    b'.WellFormed ∧ ∃ more : List UInt8, more.length = newUsed - b.used ∧
      b'.bytes = b.bytes ++ more := by
  intro b'
  refine ⟨⟨hb.length_storage, hcap, hb.capacity_of_null⟩,
    (b.storage.drop b.used).take (newUsed - b.used), ?_, ?_⟩
  · rw [List.length_take, List.length_drop, hb.length_storage]
    omega
  · show b.storage.take newUsed = _
    rw [BasicBuffer.bytes, ← List.take_add, Nat.add_sub_cancel' hused]

/-- **`extend` keeps the buffer well-formed**, whatever the numbers and the outcome. -/
theorem extend_wellFormed (count : ℕ) :
    Invariant (fun s : BufferState => s.buffer.WellFormed) (extend P count) := by
  intro s hs
  rw [sat_extend hs rfl]
  split_ifs with hcap hrange
  · cases s.heap.outcome s.heap.serial (timesOneAndAHalf (P.wrap (s.buffer.used + count))) with
    | none => exact hs
    | some a => exact (reallocated hs a (hs.used_le.trans hcap.le) (le_timesOneAndAHalf _)).1
  · exact hs
  · exact ⟨hs.length_storage, not_lt.mp hcap, hs.capacity_of_null⟩

/-- The span that `extend` returns is that of the buffer. -/
theorem extend_span (count : ℕ) {s : BufferState} (hs : s.buffer.WellFormed) :
    Sat (extend P count) s (fun span s' => span = s'.buffer.span) fun _ _ => True := by
  rw [sat_extend hs rfl]
  split_ifs
  · cases s.heap.outcome s.heap.serial (timesOneAndAHalf (P.wrap (s.buffer.used + count))) <;>
      trivial
  · rfl

/-- **`extend`, as long as the numbers are small**: the span grows by exactly the bytes asked
for, unless an allocation fails. -/
theorem extend_sat {count : ℕ} {s : BufferState} (hs : s.buffer.WellFormed)
    (hlim : s.buffer.used + count < 2 ^ 51)
    (hrange : 3 * (s.buffer.used + count) / 2 < P.sizeRange) :
    Sat (extend P count) s
      (fun _ s' => (∃ more : List UInt8, more.length = count ∧
        s'.buffer.bytes = s.buffer.bytes ++ more) ∧ (s.heap.Reliable → s'.heap.Reliable))
      (OutOfMemory s) := by
  have hgrow : timesOneAndAHalf (s.buffer.used + count) < P.sizeRange := by
    rwa [timesOneAndAHalf_of_lt hlim]
  have hcount : s.buffer.used + count - s.buffer.used = count := Nat.add_sub_cancel_left ..
  rw [sat_extend hs (Platform.wrap_of_lt (by omega)), if_pos hgrow]
  split_ifs with hcap
  · cases hout : s.heap.outcome s.heap.serial (timesOneAndAHalf (s.buffer.used + count)) with
    | none => exact outOfMemory hout
    | some a =>
      obtain ⟨-, more, hlen, hbytes⟩ :=
        reallocated hs a (Nat.le_add_right ..) (le_timesOneAndAHalf _)
      exact ⟨⟨more, hlen.trans hcount, hbytes⟩, Heap.Reliable.next⟩
  · obtain ⟨-, more, hlen, hbytes⟩ := extended hs (Nat.le_add_right ..) (not_lt.mp hcap)
    exact ⟨⟨more, hlen.trans hcount, hbytes⟩, id⟩

theorem initialise_wellFormed (size : ℕ) :
    Invariant (fun s : BufferState => s.buffer.WellFormed) (initialise size) := by
  intro s hs
  refine (initialise_sat size hs).mono (fun _ _ h => h.1.1) fun e s' h => ?_
  show s'.buffer.WellFormed
  rwa [h.buffer_eq]

end BufferState

/-! ### As a `serialise_buffer` -/

/-- **A well-formed `basic_buffer`**, with its heap, on a platform. -/
def HeapBuffer (_P : Platform) : Type := { s : BufferState // s.buffer.WellFormed }

namespace HeapBuffer

variable {P : Platform}

theorem wellFormed (b : HeapBuffer P) : b.1.buffer.WellFormed := b.2

/-- The state once bytes have been written within the span. -/
def store (offset : ℕ) (xs : List UInt8) (b : HeapBuffer P) : HeapBuffer P :=
  if h : offset + xs.length ≤ b.1.buffer.used then
    ⟨{ b.1 with buffer := b.1.buffer.store offset xs }, b.2.store h⟩
  else b

theorem store_eq {offset : ℕ} {xs : List UInt8} {b : HeapBuffer P}
    (h : offset + xs.length ≤ b.1.buffer.bytes.length) :
    (b.store offset xs).1 = { b.1 with buffer := b.1.buffer.store offset xs } :=
  congrArg Subtype.val (dif_pos (b.2.length_bytes ▸ h))

end HeapBuffer

variable {P : Platform}

instance : SerialiseBuffer (HeapBuffer P) where
  data b := b.1.buffer.data
  bytes b := b.1.buffer.bytes
  initialise size := restrict (BufferState.initialise size) (BufferState.initialise_wellFormed size)
  extend count := restrict (BufferState.extend P count) (BufferState.extend_wellFormed count)
  store := HeapBuffer.store

theorem HeapBuffer.sat_extend {count : ℕ} {b : HeapBuffer P} {Q : Span → BufferState → Prop}
    {E : Failure → BufferState → Prop} :
    Sat (SerialiseBuffer.extend count) b (fun span b' => Q span b'.1) (fun e b' => E e b'.1) ↔
      Sat (BufferState.extend P count) b.1 Q E := sat_restrict

theorem HeapBuffer.sat_initialise {size : ℕ} {b : HeapBuffer P} {Q : Span → BufferState → Prop}
    {E : Failure → BufferState → Prop} :
    Sat (SerialiseBuffer.initialise size) b (fun span b' => Q span b'.1) (fun e b' => E e b'.1) ↔
      Sat (BufferState.initialise size) b.1 Q E := sat_restrict

/-- The span of the buffer is `span()`. -/
theorem spanOf_heapBuffer (b : HeapBuffer P) : spanOf b = b.1.buffer.span :=
  congrArg (Span.mk b.1.buffer.data) b.2.length_bytes

theorem heapBuffer_spanLaws : SpanLaws (HeapBuffer P) where
  extend_span b count := by
    refine (HeapBuffer.sat_extend.mpr (BufferState.extend_span count b.2)).mono ?_
      fun _ _ _ => trivial
    rintro span b' rfl
    exact (spanOf_heapBuffer b').symm
  store_span b offset xs h := by
    rw [spanOf_heapBuffer, spanOf_heapBuffer]
    show (HeapBuffer.store offset xs b).1.buffer.span = _
    rw [HeapBuffer.store_eq h]
    rfl

section Lawful

variable {limit : ℕ} (hexact : limit ≤ 2 ^ 51) (hrange : 3 * limit ≤ 2 * P.sizeRange)

include hexact hrange

/-- The contract of a `serialise_buffer`, on any heap or on one with memory left. -/
theorem heapBuffer_lawful_of (reliable : Prop) :
    LawfulBuffer P (HeapBuffer P) (fun b => reliable → b.1.heap.Reliable) limit
      fun x => x = .badAlloc ∧ ¬reliable where
  toSpanLaws := heapBuffer_spanLaws
  limit_le := by omega
  extend_sat b count hb hlim := by
    have hused : b.1.buffer.used + count < limit := b.2.length_bytes ▸ hlim
    refine (HeapBuffer.sat_extend.mpr (BufferState.extend_sat b.2 (by omega) (by omega))).mono ?_ ?_
    · rintro - b' ⟨hmore, hnext⟩
      exact ⟨fun hr => hnext (hb hr), hmore⟩
    · rintro e b' ⟨-, rfl, hfails⟩
      exact ⟨fun hr => absurd (hb hr) hfails, _, rfl, rfl, fun hr => hfails (hb hr)⟩
  initialise_sat b size hb _ := by
    refine (HeapBuffer.sat_initialise.mpr (BufferState.initialise_sat size b.2)).mono ?_ ?_
    · rintro - b' ⟨⟨-, -, hused⟩, hnext⟩
      exact ⟨fun hr => hnext (hb hr), b'.2.length_bytes.trans hused⟩
    · rintro e b' ⟨-, rfl, hfails⟩
      exact ⟨fun hr => absurd (hb hr) hfails, _, rfl, rfl, fun hr => hfails (hb hr)⟩
  store_eq b offset xs hb h := by
    show (reliable → (HeapBuffer.store offset xs b).1.heap.Reliable) ∧
      (HeapBuffer.store offset xs b).1.buffer.bytes = _
    rw [HeapBuffer.store_eq h]
    exact ⟨hb, b.2.bytes_store (b.2.length_bytes ▸ h)⟩

/-- **A `basic_buffer` honours the contract of a `serialise_buffer`** while the computation of
its capacity is exact and in range: below 2^51 bytes if `std::size_t` has 64 bits, and below
2^31 bytes if it has 32. All it throws is `std::bad_alloc`. -/
theorem heapBuffer_lawful :
    LawfulBuffer P (HeapBuffer P) (fun _ => True) limit (· = .badAlloc) := by
  simpa using heapBuffer_lawful_of hexact hrange False

/-- **With memory left, it throws nothing.** -/
theorem heapBuffer_lawful_of_reliable :
    LawfulBuffer P (HeapBuffer P) (fun b => b.1.heap.Reliable) limit fun _ => False := by
  simpa using heapBuffer_lawful_of hexact hrange True

/-- **It has the strong guarantee**: an allocation comes before anything is changed. -/
theorem heapBuffer_strong (I : HeapBuffer P → Prop) : StrongBuffer (HeapBuffer P) I limit where
  extend_error b count _ hlim := by
    have hused : b.1.buffer.used + count < limit := b.2.length_bytes ▸ hlim
    refine (HeapBuffer.sat_extend.mpr (BufferState.extend_sat b.2 (by omega) (by omega))).mono
      (fun _ _ _ => trivial) ?_
    rintro e b' ⟨hbuffer, -, -⟩
    exact congrArg BasicBuffer.bytes hbuffer
  initialise_error b size _ _ := by
    refine (HeapBuffer.sat_initialise.mpr (BufferState.initialise_sat size b.2)).mono
      (fun _ _ _ => trivial) ?_
    rintro e b' ⟨hbuffer, -, -⟩
    exact congrArg BasicBuffer.bytes hbuffer

end Lawful

end SerialisePP
