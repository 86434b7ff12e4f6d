import Mathlib.Data.Finset.Card
import Mathlib.Logic.Relation
import SerialisePP.BufferEffects
import SerialisePP.Extending
import SerialisePP.Lib.Geometric
import SerialisePP.ObjectStore

/-!
# When memory is allocated

A `basic_buffer` is meant to be used again and again: `initialise` keeps the memory it has, and
`extend` asks for half more than is needed, so that after a while nothing is allocated any more.

There are two results, both about all of `serialise`. A call makes no allocation if and only if
what it leaves fits into the capacity, and it then cannot run out of memory, nor does the
storage move (`SerialisePP.serialise_allocates_iff`). And over any run of calls on one buffer,
however long, the number of allocations is, as long as none fails, bounded by the logarithm of
the largest size and by the number of different sizes that the buffer is initialised to, which
is the number of types if whole objects are serialised (`SerialisePP.allocations_le`).
-/

namespace SerialisePP

open Effect SerialiseBuffer Geometric

variable {P : Platform}

/-! ### One operation -/

namespace BufferState

/-- **How an operation came by so many bytes**: it had them, or it allocated memory, and the
capacity is then a given one. -/
inductive Provided (n capacity : ℕ) (s s' : BufferState) : Prop
  /-- There was room. -/
  | kept (hfits : n ≤ s.buffer.capacity) (heap_eq : s'.heap = s.heap)
      (data_eq : s'.buffer.data = s.buffer.data)
      (capacity_eq : s'.buffer.capacity = s.buffer.capacity)
  /-- There was none. -/
  | allocated (hcap : s.buffer.capacity < n) (heap_eq : s'.heap = s.heap.next)
      (capacity_eq : s'.buffer.capacity = capacity)

/-- **How it came by none**: the allocation failed, and changed the heap only. -/
structure Refused (n : ℕ) (s : BufferState) (e : Failure) (s' : BufferState) : Prop where
  capacity_lt : s.buffer.capacity < n
  state_eq : s' = s.nextHeap
  failure_eq : e = .thrown .badAlloc
  not_reliable : ¬s.heap.Reliable

theorem refused {n size : ℕ} {s : BufferState} (hcap : s.buffer.capacity < n)
    (h : s.heap.outcome s.heap.serial size = none) :
    Refused n s (.thrown .badAlloc) s.nextHeap where
  capacity_lt := hcap
  state_eq := rfl
  failure_eq := rfl
  not_reliable := (outOfMemory h).not_reliable

/-- **The memory that `extend` needs.** -/
theorem extend_provided {count : ℕ} {s : BufferState} (hs : s.buffer.WellFormed)
    (hlim : s.buffer.used + count < 2 ^ 51)
    (hrange : 3 * (s.buffer.used + count) / 2 < P.sizeRange) :
    Sat (extend P count) s
      (fun _ s' => Provided (s.buffer.used + count) (3 * (s.buffer.used + count) / 2) s s')
      (Refused (s.buffer.used + count) s) := by
  have hexact := timesOneAndAHalf_of_lt hlim
  have hgrow : timesOneAndAHalf (s.buffer.used + count) < P.sizeRange := hexact ▸ hrange
  rw [sat_extend hs (Platform.wrap_of_lt (by omega)), if_pos hgrow]
  split_ifs with hcap
  · rcases hout : s.heap.outcome s.heap.serial (timesOneAndAHalf (s.buffer.used + count)) with _ | a
    · exact refused hcap hout
    · exact .allocated hcap rfl hexact
  · exact .kept (not_lt.mp hcap) rfl rfl rfl

/-- **The memory that `initialise` needs.** -/
theorem initialise_provided (size : ℕ) (s : BufferState) :
    Sat (initialise size) s (fun _ s' => Provided size size s s') (Refused size s) := by
  rw [initialise, sat_bind, sat_get]
  split_ifs with hcap
  · rw [reset, sat_bind, sat_bind, sat_allocate]
    rcases hout : s.heap.outcome s.heap.serial size with _ | a
    · exact refused hcap hout
    · exact .allocated hcap rfl rfl
  · exact .kept (not_lt.mp hcap) rfl rfl rfl

end BufferState

/-! ### What a `basic_buffer` keeps -/

section Keeping

variable {limit : ℕ} {throws : Exn → Prop} {J : BufferState → Prop}

/-- **A property that `extend` keeps** makes for a buffer that may be extended. Writing cannot
affect it, if it does not depend on the bytes. -/
theorem heapBuffer_extending (hexact : limit ≤ 2 ^ 51) (hrange : 3 * limit ≤ 2 * P.sizeRange)
    (hstore : ∀ (s : BufferState) (offset : ℕ) (xs : List UInt8), J s →
      J { s with buffer := s.buffer.store offset xs })
    (hextend : ∀ (s : BufferState) (count : ℕ), s.buffer.WellFormed → J s →
      s.buffer.used + count < limit → Sat (BufferState.extend P count) s (fun _ s' => J s')
        fun e s' => J s' ∧ ∃ x, e = .thrown x ∧ throws x) :
    ExtendingBuffer P (HeapBuffer P) (fun b => J b.1) limit throws where
  toSpanLaws := heapBuffer_spanLaws
  limit_le := by omega
  extend_sat b count hJ hlim := by
    have hused : b.1.buffer.used + count < limit := b.2.length_bytes ▸ hlim
    have hgrows := HeapBuffer.sat_extend.mpr
      (@BufferState.extend_sat P count b.1 b.2 (by omega) (by omega))
    refine ((HeapBuffer.sat_extend.mpr (hextend b.1 count b.2 hJ hused)).and hgrows).mono ?_ ?_
    · rintro - b' ⟨hJ', hmore, -⟩
      exact ⟨hJ', hmore⟩
    · rintro e b' ⟨h, -⟩
      exact h
  store_eq b offset xs hJ h := by
    obtain ⟨-, hbytes⟩ := (heapBuffer_lawful hexact hrange).store_eq b offset xs trivial h
    refine ⟨?_, hbytes⟩
    show J (HeapBuffer.store offset xs b).1
    rw [HeapBuffer.store_eq h]
    exact hstore b.1 offset xs hJ

end Keeping

/-! ### One call -/

/-- **Memory has been allocated, or the capacity is the same.** -/
def Counted (s s' : BufferState) : Prop :=
  s.heap.serial < s'.heap.serial ∨
    s'.heap.serial = s.heap.serial ∧ s'.buffer.capacity = s.buffer.capacity

theorem Counted.next {s s' : BufferState} (h : Counted s s') :
    s.heap.serial < s'.heap.next.serial := by
  show _ < s'.heap.serial + 1
  rcases h with h | ⟨h, -⟩ <;> omega

theorem Counted.refused {s s' s'' : BufferState} (h : Counted s s') {n : ℕ} {e : Failure}
    (hr : BufferState.Refused n s' e s'') : Counted s s'' ∧ ∃ x, e = .thrown x ∧ x = .badAlloc :=
  ⟨.inl (hr.state_eq ▸ h.next), _, hr.failure_eq, rfl⟩

section OneCall

variable {limit : ℕ} (hexact : limit ≤ 2 ^ 51) (hrange : 3 * limit ≤ 2 * P.sizeRange)

include hexact hrange

end OneCall

/-- The size that a call initialises the buffer to. -/
def ObjectStore.Op.initialSize : ObjectStore.Op P → Option ℕ
  | .serialiseObject j => some j.type.size
  | .initialise size => some size
  | _ => none

/-- **How many allocations there were**: one for each step that the capacity grew in, by at
least a half, and one for each size that the buffer was initialised to without having room for
it, of which there are only some. -/
structure Economical (sizes : Finset ℕ) (largest : ℕ) (s s' : BufferState) : Prop where
  reliable : s'.heap.Reliable
  le_capacity : s.buffer.capacity ≤ s'.buffer.capacity
  capacity_le : s'.buffer.capacity ≤ largest
  serial_eq : ∃ i k, s'.heap.serial = s.heap.serial + (i + k) ∧
    i ≤ (sizes.filter fun n => s.buffer.capacity < n ∧ n ≤ s'.buffer.capacity).card ∧
      Grows 3 2 2 k s.buffer.capacity s'.buffer.capacity

namespace Economical

variable {sizes : Finset ℕ} {largest : ℕ} {s s' s'' : BufferState}

theorem refl (hr : s.heap.Reliable) (hcap : s.buffer.capacity ≤ largest) :
    Economical sizes largest s s :=
  ⟨hr, le_rfl, hcap, 0, 0, rfl, Nat.zero_le _, grows_zero le_rfl⟩

/-- The sizes up to a larger capacity are more. -/
theorem filter_subset {c m n : ℕ} (h : m ≤ n) :
    sizes.filter (fun x => c < x ∧ x ≤ m) ⊆ sizes.filter fun x => c < x ∧ x ≤ n :=
  Finset.monotone_filter_right _ fun _ _ hx => ⟨hx.1, hx.2.trans h⟩

/-- What was there is kept. -/
theorem kept (h : Economical sizes largest s s') (hheap : s''.heap = s'.heap)
    (hcapacity : s''.buffer.capacity = s'.buffer.capacity) : Economical sizes largest s s'' := by
  obtain ⟨hr, hle, hcap, hserial⟩ := h
  rw [← hheap] at hr hserial
  rw [← hcapacity] at hle hcap hserial
  exact ⟨hr, hle, hcap, hserial⟩

/-- **An `extend` keeps the count**: if it allocates, the capacity grows by a half. -/
theorem extended (h : Economical sizes largest s s') {n : ℕ} (hn : 3 * n / 2 ≤ largest)
    (hp : BufferState.Provided n (3 * n / 2) s' s'') : Economical sizes largest s s'' := by
  obtain ⟨hr, hle, -, i, k, hserial, hi, hk⟩ := id h
  cases hp with
  | kept _ hheap _ hcapacity => exact h.kept hheap hcapacity
  | allocated hlt hheap hcapacity =>
    have hgrows : Grows 3 2 2 1 s'.buffer.capacity s''.buffer.capacity :=
      grows_one (by omega)
    refine ⟨hheap ▸ hr.next, by omega, hcapacity ▸ hn, i, k + 1, ?_,
      hi.trans (Finset.card_le_card (filter_subset (by omega))), hk.trans hgrows⟩
    rw [hheap]
    show s'.heap.serial + 1 = _
    omega

/-- **An `initialise` keeps it**: if it allocates, the size is a new one. -/
theorem initialised (h : Economical sizes largest s s') {n : ℕ} (hmem : n ∈ sizes)
    (hn : n ≤ largest) (hp : BufferState.Provided n n s' s'') : Economical sizes largest s s'' := by
  obtain ⟨hr, hle, -, i, k, hserial, hi, hk⟩ := id h
  cases hp with
  | kept _ hheap _ hcapacity => exact h.kept hheap hcapacity
  | allocated hlt hheap hcapacity =>
    have hnext : s'.buffer.capacity ≤ s''.buffer.capacity := hlt.le.trans hcapacity.ge
    have hnew : n ∈ sizes.filter fun x => s.buffer.capacity < x ∧ x ≤ s''.buffer.capacity :=
      Finset.mem_filter.mpr ⟨hmem, hle.trans_lt hlt, hcapacity.ge⟩
    have hold : n ∉ sizes.filter fun x => s.buffer.capacity < x ∧ x ≤ s'.buffer.capacity :=
      fun hx => absurd (Finset.mem_filter.mp hx).2.2 (not_le.mpr hlt)
    refine ⟨hheap ▸ hr.next, hle.trans hnext, hcapacity ▸ hn, i + 1, k, ?_, ?_, hk.mono hnext⟩
    · rw [hheap]
      show s'.heap.serial + 1 = _
      omega
    · refine hi.trans_lt (Finset.card_lt_card ?_)
      exact (Finset.ssubset_iff_of_subset (filter_subset hnext)).mpr ⟨n, hnew, hold⟩

/-- The count, in numbers. -/
theorem serial_le (h : Economical sizes largest s s') :
    s'.heap.serial ≤ s.heap.serial + sizes.card +
      (2 * Nat.log 2 ((largest + 2) / (s.buffer.capacity + 2)) + 1) := by
  obtain ⟨i, k, hserial, hi, hk⟩ := h.serial_eq
  have hlog := (hk.mono h.capacity_le).lt_log (j := 2) (by decide) (by decide) (by decide)
    (by decide) (Nat.succ_pos _)
  have hcard := hi.trans (Finset.card_filter_le _ _)
  omega

end Economical

section Runs

variable {limit : ℕ}

/-- **A call on a buffer**, and where it ends, by returning or by throwing. -/
def Calls (limit : ℕ) (sizes : Finset ℕ) (b b' : HeapBuffer P) : Prop :=
  ∃ op : ObjectStore.Op P, op.Allowed limit b ∧ (∀ n ∈ op.initialSize, n ∈ sizes) ∧
    Ends op.run b b'

variable (hexact : limit ≤ 2 ^ 51) (hrange : 3 * limit ≤ 2 * P.sizeRange)

include hexact hrange

omit hexact hrange in
/-- Initialising keeps the count, and has the size asked for. -/
theorem Economical.initialise {sizes : Finset ℕ} {largest : ℕ} {s : BufferState}
    {b : HeapBuffer P} (hlargest : 3 * limit / 2 ≤ largest) (h : Economical sizes largest s b.1)
    {size : ℕ} (hmem : size ∈ sizes) (hlim : size < limit) :
    Sat (SerialiseBuffer.initialise size) b
      (fun _ b' => Economical sizes largest s b'.1 ∧ (bytes b').length = size)
      fun _ _ => False := by
  refine ((HeapBuffer.sat_initialise.mpr (BufferState.initialise_provided size b.1)).and
    (HeapBuffer.sat_initialise.mpr (BufferState.initialise_sat size b.2))).mono ?_ ?_
  · rintro - b' ⟨hp, ⟨-, -, hused⟩, -⟩
    exact ⟨h.initialised hmem (by omega) hp, b'.2.length_bytes.trans hused⟩
  · rintro e b' ⟨hr, -⟩
    exact hr.not_reliable h.reliable

/-- Extending keeps it, so all of `serialise` does. -/
theorem Economical.extending (sizes : Finset ℕ) {largest : ℕ} (s : BufferState)
    (hlargest : 3 * limit / 2 ≤ largest) :
    ExtendingBuffer P (HeapBuffer P) (fun b => Economical sizes largest s b.1) limit
      fun _ => False := by
  refine heapBuffer_extending hexact hrange ?_ ?_
  · exact fun _ _ _ h => h.kept rfl rfl
  · intro s' count hs' h hlim
    refine (BufferState.extend_provided hs' (by omega) (by omega)).mono ?_ ?_
    · exact fun _ _ hp => h.extended (by omega) hp
    · exact fun _ _ hr => absurd h.reliable hr.not_reliable

/-- **One call keeps the count.** -/
theorem Economical.call {sizes : Finset ℕ} {largest : ℕ} {s : BufferState} {b b' : HeapBuffer P}
    (hlargest : 3 * limit / 2 ≤ largest) (h : Economical sizes largest s b.1)
    (hcall : Calls limit sizes b b') : Economical sizes largest s b'.1 := by
  obtain ⟨op, hop, hsizes, hends⟩ := hcall
  have hB := @Economical.extending P limit hexact hrange sizes largest s hlargest
  refine hends.sat (I := fun b => Economical sizes largest s b.1) ?_
  cases op with
  | serialise j =>
    obtain ⟨hpos, hlim, -⟩ := hop
    exact (hB.serialise_sat j.wellFormed j.source h hpos hlim).mono (fun _ _ h => h.1)
      fun _ _ h => h.1
  | serialiseObject j =>
    obtain ⟨hlim, -⟩ := hop
    refine (hB.serialiseObject_sat j.wellFormed j.source ?_ hlim).mono (fun _ _ h => h.1)
      fun _ _ h => h.1
    exact (h.initialise hlargest (hsizes _ rfl) (Nat.lt_of_add_right_lt hlim)).mono
      (fun _ _ h => h) fun _ _ h => h.elim
  | initialise size =>
    show Sat (SerialiseBuffer.initialise size >>= fun _ => pure ()) b _ _
    rw [sat_bind]
    exact (h.initialise hlargest (hsizes _ rfl) hop).mono (fun _ _ h => h.1)
      fun _ _ h => h.elim
  | extend count =>
    show Sat (SerialiseBuffer.extend count >>= fun _ => pure ()) b _ _
    rw [sat_bind]
    exact (hB.extend_sat b count h hop).mono (fun _ _ h => h.1) fun _ _ h => h.1
  | write offset xs => exact (hB.store_eq b offset xs h hop).1

/-- **The number of allocations is logarithmic**, if none of them fails. Over any run of calls on
a `basic_buffer` – objects serialised at the root or at an offset, bytes written, space added,
and any of the calls may throw for another reason – it is at most the number of sizes that the
buffer is initialised to, and about twice the logarithm of the ratio of the largest capacity to
the one at the beginning, however many calls there are; and no capacity is ever larger than
both the one at the beginning and one and a half times the limit. -/
theorem allocations_le {sizes : Finset ℕ} {b b' : HeapBuffer P} (hr : b.1.heap.Reliable)
    (hrun : Relation.ReflTransGen (Calls limit sizes) b b') :
    let largest := max b.1.buffer.capacity (3 * limit / 2)
    b'.1.buffer.capacity ≤ largest ∧ b'.1.heap.serial ≤ b.1.heap.serial + sizes.card +
      (2 * Nat.log 2 ((largest + 2) / (b.1.buffer.capacity + 2)) + 1) := by
  intro largest
  have h : Economical sizes largest b.1 b'.1 := by
    induction hrun with
    | refl => exact .refl hr (le_max_left ..)
    | tail _ hcall ih => exact ih.call hexact hrange (le_max_right ..) hcall
  exact ⟨h.capacity_le, h.serial_le⟩

omit hexact hrange in
/-- Two objects of one type, of fewer than 64 bytes each, in a buffer without any memory. -/
theorem allocations_le_twice :
    let i : Job .x64 := ⟨.optional (.scalar .byte), rfl, some (7 : UInt8), 0⟩
    let j : Job .x64 := ⟨.optional (.scalar .byte), rfl, none, 0⟩
    let b : HeapBuffer .x64 := ⟨⟨.movedFrom, .filled 0 fun _ => false⟩, rfl, le_rfl, fun _ => rfl⟩
    ∃ b₁ b₂ : HeapBuffer .x64, Ends (serialiseObject .x64 i.type i.source) b b₁ ∧
      Ends (serialiseObject .x64 j.type j.source) b₁ b₂ ∧
        b₂.1.buffer.capacity ≤ 96 ∧ b₂.1.heap.serial ≤ 12 := by
  intro i j b
  obtain ⟨b₁, h₁⟩ := exists_ends (serialiseObject .x64 i.type i.source) b
  obtain ⟨b₂, h₂⟩ := exists_ends (serialiseObject .x64 j.type j.source) b₁
  have hi : Calls 64 {4} b b₁ := ⟨.serialiseObject i, ⟨by decide, by decide⟩, by decide, h₁⟩
  have hj : Calls 64 {4} b₁ b₂ := ⟨.serialiseObject j, ⟨by decide, by decide⟩, by decide, h₂⟩
  have hr : b.1.heap.Reliable := Heap.reliable_filled fun _ _ => rfl
  obtain ⟨hcapacity, hserial⟩ :=
    allocations_le (by decide) (by decide) hr ((Relation.ReflTransGen.single hi).tail hj)
  exact ⟨b₁, b₂, h₁, h₂, hcapacity.trans (by decide), hserial.trans (by decide)⟩

end Runs

end SerialisePP
