import SerialisePP.History

/-!
# What the operations of `basic_buffer` do

`SerialisePP.System.Reachable.wellFormed` is what holds of every buffer in every state a system of
buffers can reach. This file says what each operation does in such a state, for requests small
enough that the new capacity is computed exactly: how the span and the capacity change, when there
is a reallocation, where the content goes when a buffer is moved or swapped, and that an operation
whose allocation throws leaves every buffer as it was. `SerialisePP.System.Behaves` has it all in
one place, and `SerialisePP.System.Reachable.behaves` proves it of every reachable state.

Since a state that has been reached is the beginning of the next operation, whatever a move leaves
behind is covered as well: a buffer that has been moved from is as usable as any other.
-/

namespace SerialisePP

open Effect Region

variable {P : Platform}

/-! ### One buffer -/

/-- **`extend(count)` has returned**: the span has grown by exactly `count` bytes, its earlier bytes
are the same, and the buffer has been reallocated only if it had to be. -/
structure Extended (s : BufferState) (count : ℕ) (span : Span) (s' : BufferState) : Prop where
  span_eq : span = s'.buffer.span
  size_eq : span.size = s.buffer.span.size + count
  bytes_eq : s'.buffer.bytes.take s.buffer.used = s.buffer.bytes
  capacity_eq : s'.buffer.capacity =
    if s.buffer.capacity < s.buffer.used + count then 3 * (s.buffer.used + count) / 2
    else s.buffer.capacity
  capacity_le : s.buffer.capacity ≤ s'.buffer.capacity
  not_reallocated : s.buffer.used + count ≤ s.buffer.capacity →
    s'.heap = s.heap ∧ s'.buffer = { s.buffer with used := s.buffer.used + count }

/-- **`initialise(size)` has returned**: the span has exactly `size` bytes, and the buffer has been
reallocated only if it had to be. -/
structure Initialised (s : BufferState) (size : ℕ) (span : Span) (s' : BufferState) : Prop where
  span_eq : span = s'.buffer.span
  size_eq : span.size = size
  capacity_eq : s'.buffer.capacity = max s.buffer.capacity size
  not_reallocated : size ≤ s.buffer.capacity →
    s'.heap = s.heap ∧ s'.buffer = { s.buffer with used := size }

namespace BufferState

theorem extend_extended {s : BufferState} (hs : s.buffer.WellFormed) {count : ℕ}
    (hlim : s.buffer.used + count < 2 ^ 51)
    (hrange : 3 * (s.buffer.used + count) / 2 < P.sizeRange) :
    Sat (extend P count) s (Extended s count) (OutOfMemory s) := by
  have hexact := timesOneAndAHalf_of_lt hlim
  have hgrow : timesOneAndAHalf (s.buffer.used + count) < P.sizeRange := hexact ▸ hrange
  have hused : s.buffer.used ≤ s.buffer.used + count := Nat.le_add_right _ _
  rw [sat_extend hs (Platform.wrap_of_lt (by omega)), if_pos hgrow]
  split_ifs with hcap
  · rcases hout : s.heap.outcome s.heap.serial (timesOneAndAHalf (s.buffer.used + count)) with _ | a
    · exact outOfMemory hout
    · obtain ⟨-, more, -, hbytes⟩ := reallocated hs a hused (le_timesOneAndAHalf _)
      have hle : s.buffer.capacity ≤ timesOneAndAHalf (s.buffer.used + count) :=
        hcap.le.trans (le_timesOneAndAHalf _)
      refine ⟨rfl, rfl, ?_, ?_, hle, fun hfits => absurd hcap (not_lt.mpr hfits)⟩
      · rw [hbytes, List.take_left' hs.length_bytes]
      · rw [if_pos hcap]
        exact hexact
  · obtain ⟨-, more, -, hbytes⟩ := extended hs hused (not_lt.mp hcap)
    refine ⟨rfl, rfl, ?_, ?_, le_rfl, fun _ => ⟨rfl, rfl⟩⟩
    · rw [hbytes, List.take_left' hs.length_bytes]
    · rw [if_neg hcap]

theorem initialise_initialised (s : BufferState) (size : ℕ) :
    Sat (initialise size) s (Initialised s size) (OutOfMemory s) := by
  rw [initialise, sat_bind, sat_get]
  split_ifs with hcap
  · rw [reset, sat_bind, sat_bind, sat_allocate]
    cases hout : s.heap.outcome s.heap.serial size with
    | none => exact outOfMemory hout
    | some a =>
      refine ⟨rfl, rfl, (max_eq_right hcap.le).symm, fun hle => ?_⟩
      exact absurd hcap (not_lt.mpr hle)
  · exact ⟨rfl, rfl, (max_eq_left (not_lt.mp hcap)).symm, fun _ => ⟨rfl, rfl⟩⟩

end BufferState

/-! ### Several buffers -/

/-- **A new buffer has been constructed**: it has the capacity asked for and nothing in use, and the
others are the same. -/
structure Constructed (s : System) (capacity : ℕ) (s' : System) : Prop where
  added : ∃ b, s'.buffers = s.buffers ++ [b] ∧ b.WellFormed ∧ b.capacity = capacity ∧ b.bytes = []

/-- **Content has moved** from one place to another, as it was: the source is left empty, with no
capacity, and the other buffers are the same. -/
structure Moved (s : System) (source target : ℕ) (s' : System) : Prop where
  target_eq : s'.buffers[target]? = s.buffers[source]?
  source_eq : s'.buffers[source]? = some .movedFrom
  frame : ∀ i < s.buffers.length, i ≠ source → i ≠ target → s'.buffers[i]? = s.buffers[i]?
  heap_eq : s'.heap = s.heap

/-- **Two buffers have been swapped**, and the others are the same. -/
structure Swapped (s : System) (first second : ℕ) (s' : System) : Prop where
  first_eq : s'.buffers[first]? = s.buffers[second]?
  second_eq : s'.buffers[second]? = s.buffers[first]?
  frame : ∀ i, i ≠ first → i ≠ second → s'.buffers[i]? = s.buffers[i]?
  heap_eq : s'.heap = s.heap

namespace System

/-- What has been done with a buffer is in the system. -/
theorem put_self {s : System} {i : ℕ} (hi : i < s.buffers.length) (after : BufferState) :
    (s.put i after).buffers[i]? = some after.buffer ∧ (s.put i after).heap = after.heap :=
  ⟨List.getElem?_set_self hi, rfl⟩

/-- Anything done with one buffer leaves the others alone. -/
theorem put_frame (s : System) {i j : ℕ} (hne : j ≠ i) (after : BufferState) :
    (s.put i after).buffers[j]? = s.buffers[j]? := List.getElem?_set_ne hne.symm

/-- An operation that leaves its own buffer as it was leaves them all as they were. -/
theorem put_same {s : System} {i : ℕ} {b : BasicBuffer} (hi : s.buffers[i]? = some b)
    {after : BufferState} (h : after.buffer = b) : (s.put i after).buffers = s.buffers := by
  obtain ⟨hlt, hb⟩ := List.getElem?_eq_some_iff.mp hi
  show s.buffers.set i after.buffer = s.buffers
  rw [h, ← hb, List.set_getElem_self hlt]

theorem construct_constructed (s : System) (capacity : ℕ) (preload : Bool) :
    Sat (System.construct capacity preload) s (fun _ s' => Constructed s capacity s')
      fun e s' => e = .thrown .badAlloc ∧ s'.buffers = s.buffers := by
  unfold Sat System.construct
  rcases hout : s.heap.outcome s.heap.serial capacity with _ | a
  · have hrun : BasicBuffer.construct capacity preload s.heap =
        .error (.thrown .badAlloc) s.heap.next :=
      bind_error (by rw [Heap.allocate, hout])
    rw [hrun]
    exact ⟨rfl, rfl⟩
  · have hrun : BasicBuffer.construct capacity preload s.heap = .ok
        ⟨a.address, if preload then List.replicate capacity 0 else a.bytes, capacity, 0⟩
        s.heap.next := bind_ok (by rw [Heap.allocate, hout])
    have hwf := (BasicBuffer.wellFormed_construct capacity preload s.heap).ok hrun
    rw [hrun]
    exact ⟨_, rfl, hwf, rfl, rfl⟩

theorem moveConstruct_moved {s : System} {source : ℕ} (h : source < s.buffers.length) :
    Moved s source s.buffers.length (s.moveConstruct source) := by
  obtain ⟨other, hother⟩ : ∃ b, s.buffers[source]? = some b := ⟨_, List.getElem?_eq_getElem h⟩
  have hrun : s.moveConstruct source =
      { s with buffers := s.buffers.set source .movedFrom ++ [other] } := by
    rw [moveConstruct, hother]
    rfl
  rw [hrun]
  have hlen : (s.buffers.set source .movedFrom).length = s.buffers.length := List.length_set
  refine ⟨?_, ?_, fun i hi hne _ => ?_, rfl⟩
  · simp [hother, hlen]
  · simp [h, hlen, List.getElem?_append_left]
  · rw [List.getElem?_append_left (by rwa [hlen]), List.getElem?_set_ne hne.symm]

theorem moveAssign_self (s : System) (i : ℕ) : s.moveAssign i i = s := by
  unfold moveAssign
  rcases hi : s.buffers[i]? with _ | b
  · rfl
  · have hlt : i < s.buffers.length := (List.getElem?_eq_some_iff.mp hi).1
    have hb : s.buffers[i] = b := (List.getElem?_eq_some_iff.mp hi).2
    have hget : (s.buffers.set i b.moveConstruct.2)[i]? = some b.moveConstruct.2 :=
      List.getElem?_set_self hlt
    simp only [hget]
    -- the parameter gives back what it was constructed from
    have hset : s.buffers.set i b = s.buffers := hb ▸ List.set_getElem_self hlt
    show System.mk ((s.buffers.set i b.moveConstruct.2).set i b) s.heap = s
    rw [List.set_set, hset]

theorem moveAssign_moved {s : System} {target source : ℕ} (hne : target ≠ source)
    (ht : target < s.buffers.length) (hs : source < s.buffers.length) :
    Moved s source target (s.moveAssign target source) := by
  obtain ⟨other, hother⟩ : ∃ b, s.buffers[source]? = some b := ⟨_, List.getElem?_eq_getElem hs⟩
  obtain ⟨this, hthis⟩ : ∃ b, s.buffers[target]? = some b := ⟨_, List.getElem?_eq_getElem ht⟩
  have hrun : s.moveAssign target source =
      { s with buffers := (s.buffers.set source .movedFrom).set target other } := by
    have hget : (s.buffers.set source other.moveConstruct.2)[target]? = some this := by
      rw [List.getElem?_set_ne hne.symm, hthis]
    unfold moveAssign
    simp only [hother, hget]
    rfl
  rw [hrun]
  refine ⟨?_, ?_, fun i _ hsource htarget => ?_, rfl⟩
  · simp [hother, ht]
  · simp [hne, hs]
  · simp [List.getElem?_set_ne htarget.symm, List.getElem?_set_ne hsource.symm]

theorem swap_swapped {s : System} {first second : ℕ} (hf : first < s.buffers.length)
    (hs : second < s.buffers.length) : Swapped s first second (s.swap first second) := by
  obtain ⟨a, ha⟩ : ∃ b, s.buffers[first]? = some b := ⟨_, List.getElem?_eq_getElem hf⟩
  obtain ⟨b, hb⟩ : ∃ b, s.buffers[second]? = some b := ⟨_, List.getElem?_eq_getElem hs⟩
  have hrun : s.swap first second =
      { s with buffers := (s.buffers.set first b).set second a } := by
    rw [swap, ha, hb]
    rfl
  rw [hrun]
  refine ⟨?_, ?_, fun i hfirst hsecond => ?_, rfl⟩
  · rcases eq_or_ne second first with rfl | hne
    · have hab : a = b := Option.some.inj (ha.symm.trans hb)
      rw [hab, hb]
      simp [hs]
    · simp [hne, hf, hb]
  · simp [hs, ha]
  · simp [List.getElem?_set_ne hfirst.symm, List.getElem?_set_ne hsecond.symm]

end System

/-! ### In every state that can be reached -/

/-- **What is promised of a system of buffers**, as long as no buffer is asked for `limit` bytes or
more. -/
structure System.Behaves (P : Platform) (limit : ℕ) (s : System) : Prop where
  wellFormed : ∀ b ∈ s.buffers, b.WellFormed
  extend : ∀ (i : ℕ) (b : BasicBuffer), s.buffers[i]? = some b → ∀ count, b.used + count < limit →
    Sat (BufferState.extend P count) ⟨b, s.heap⟩ (Extended ⟨b, s.heap⟩ count)
      (BufferState.OutOfMemory ⟨b, s.heap⟩)
  initialise : ∀ (i : ℕ) (b : BasicBuffer), s.buffers[i]? = some b → ∀ size < limit,
    Sat (BufferState.initialise size) ⟨b, s.heap⟩ (Initialised ⟨b, s.heap⟩ size)
      (BufferState.OutOfMemory ⟨b, s.heap⟩)
  write : ∀ (i : ℕ) (b : BasicBuffer), s.buffers[i]? = some b → ∀ (offset : ℕ) (xs : List UInt8),
    offset + xs.length ≤ b.span.size → (b.store offset xs).span = b.span ∧
      (b.store offset xs).capacity = b.capacity ∧
      (b.store offset xs).bytes = overwrite b.bytes offset xs
  put : ∀ i < s.buffers.length, ∀ after : BufferState,
    (s.put i after).buffers[i]? = some after.buffer ∧ (s.put i after).heap = after.heap
  frame : ∀ (i j : ℕ) (after : BufferState), j ≠ i → (s.put i after).buffers[j]? = s.buffers[j]?
  unchanged : ∀ (i : ℕ) (b : BasicBuffer), s.buffers[i]? = some b → ∀ (e : Failure) after,
    BufferState.OutOfMemory ⟨b, s.heap⟩ e after → (s.put i after).buffers = s.buffers
  construct : ∀ capacity preload,
    Sat (System.construct capacity preload) s (fun _ s' => Constructed s capacity s')
      fun e s' => e = .thrown .badAlloc ∧ s'.buffers = s.buffers
  moveConstruct : ∀ source < s.buffers.length,
    Moved s source s.buffers.length (s.moveConstruct source)
  moveAssign_self : ∀ i, s.moveAssign i i = s
  moveAssign : ∀ target < s.buffers.length, ∀ source < s.buffers.length, target ≠ source →
    Moved s source target (s.moveAssign target source)
  swap : ∀ first < s.buffers.length, ∀ second < s.buffers.length,
    Swapped s first second (s.swap first second)

/-- **The invariant and the effects of `basic_buffer`, over whole runs.** In every state that any
number of buffers can reach by any sequence of operations, with any heap: every buffer is
well-formed, and the next operation, whichever it is, does what it should. The limit is 2^51 bytes
if `std::size_t` has 64 bits. -/
theorem System.Reachable.behaves {limit : ℕ} (hexact : limit ≤ 2 ^ 51)
    (hrange : 3 * limit ≤ 2 * P.sizeRange) {s : System} (h : s.Reachable P) :
    s.Behaves P limit where
  wellFormed := h.wellFormed
  extend i b hi count hlim := by
    have hsum : (⟨b, s.heap⟩ : BufferState).buffer.used + count < limit := hlim
    exact BufferState.extend_extended (h.wellFormed.get hi) (by omega) (by omega)
  initialise i b _ size _ := BufferState.initialise_initialised ⟨b, s.heap⟩ size
  write i b hi offset xs hin := ⟨rfl, rfl, (h.wellFormed.get hi).bytes_store hin⟩
  put _ hi := System.put_self hi
  frame i j after hne := s.put_frame hne after
  unchanged i b hi e after hfailed := System.put_same hi hfailed.buffer_eq
  construct := s.construct_constructed
  moveConstruct _ := System.moveConstruct_moved
  moveAssign_self := s.moveAssign_self
  moveAssign _ ht _ hs hne := System.moveAssign_moved hne ht hs
  swap _ hf _ hs := System.swap_swapped hf hs

/-- A buffer that has been moved from, and the one that its content has been moved to. -/
theorem behaves_moved :
    let s : System := ⟨[.movedFrom, ⟨4096, List.replicate 8 0, 8, 0⟩],
      (Heap.filled 255 fun _ => false).next⟩
    s.Behaves .x64 (2 ^ 51) := by
  intro s
  have hnew : System.Reachable .x64 ⟨[⟨4096, List.replicate 8 0, 8, 0⟩],
      (Heap.filled 255 fun _ => false).next⟩ :=
    (System.Reachable.start (Heap.filled 255 fun _ => false)).step (.construct 8 true rfl)
  have h : s.Reachable .x64 := hnew.step (.moveConstruct _ 0)
  exact System.Reachable.behaves le_rfl (by decide) h

end SerialisePP
