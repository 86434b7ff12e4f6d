import Mathlib.Logic.Relation
import SerialisePP.BasicBuffer
import SerialisePP.Contract

/-!
# The history of a buffer

Any number of `basic_buffer`s that allocate from one heap (`SerialisePP.System`): they are
constructed, initialised, extended and written to, serialised into, moved and swapped, in any
order (`SerialisePP.Step`), and every one of these may end in an exception. The heap decides
which allocations succeed and what the memory they return holds.

Every buffer in every state that can be reached so is well-formed
(`SerialisePP.System.Reachable.wellFormed`), and what `serialise(source, buffer)` leaves in it
depends on the value alone (`SerialisePP.serialiseObject_forgets`): no byte of the result is one
that the buffer, or the memory it was given, held before.
-/

namespace SerialisePP

open Effect SerialiseBuffer

/-! ### Moving -/

namespace BasicBuffer

/-- The move constructor: the new buffer, and what is left of the other one. -/
def moveConstruct (other : BasicBuffer) : BasicBuffer × BasicBuffer :=
  (⟨other.data, other.storage, other.capacity, other.used⟩, movedFrom)

/-- `swap(first, second)`. -/
def swap (first second : BasicBuffer) : BasicBuffer × BasicBuffer := (second, first)

end BasicBuffer

/-- **Buffers that share a heap.** -/
structure System where
  /-- The buffers. -/
  buffers : List BasicBuffer
  /-- The heap. -/
  heap : Heap

namespace System

/-- Before the first buffer. -/
def start (heap : Heap) : System := ⟨[], heap⟩

/-- A new buffer, from the constructor. -/
def construct (capacity : ℕ) (preload : Bool) : EStateM Failure System Unit := fun s =>
  match BasicBuffer.construct capacity preload s.heap with
  | .ok b h => .ok () ⟨s.buffers ++ [b], h⟩
  | .error e h => .error e ⟨s.buffers, h⟩

/-- A new buffer, from the move constructor. -/
def moveConstruct (source : ℕ) (s : System) : System :=
  match s.buffers[source]? with
  | none => s
  | some other =>
    { s with buffers := s.buffers.set source other.moveConstruct.2 ++ [other.moveConstruct.1] }

/-- `operator=`: its parameter is constructed from the source, swapped with the target, and
destroyed. -/
def moveAssign (target source : ℕ) (s : System) : System :=
  match s.buffers[source]? with
  | none => s
  | some other =>
    let buffers := s.buffers.set source other.moveConstruct.2
    match buffers[target]? with
    | none => s
    | some this =>
      -- what the target held goes to the parameter, and is destroyed with it
      { s with buffers := buffers.set target (this.swap other.moveConstruct.1).1 }

/-- `swap` of two buffers. -/
def swap (first second : ℕ) (s : System) : System :=
  match s.buffers[first]?, s.buffers[second]? with
  | some a, some b =>
    { s with buffers := (s.buffers.set first (a.swap b).1).set second (a.swap b).2 }
  | _, _ => s

/-- The system once something has been done with one buffer. -/
def put (s : System) (i : ℕ) (after : BufferState) : System :=
  ⟨s.buffers.set i after.buffer, after.heap⟩

/-- Every buffer is well-formed. -/
def WellFormed (s : System) : Prop := ∀ b ∈ s.buffers, b.WellFormed

end System

/-! ### Steps -/

/-- **What can be done with one buffer**, and where it can end, by returning or by throwing. -/
inductive BufferStep (P : Platform) : BufferState → BufferState → Prop
  | initialise {s s' : BufferState} (size : ℕ) (h : Ends (BufferState.initialise size) s s') :
      BufferStep P s s'
  | extend {s s' : BufferState} (count : ℕ) (h : Ends (BufferState.extend P count) s s') :
      BufferStep P s s'
  /-- The caller writes within the span. -/
  | write {s : BufferState} (offset : ℕ) (xs : List UInt8)
      (h : offset + xs.length ≤ s.buffer.span.size) :
      BufferStep P s { s with buffer := s.buffer.store offset xs }
  /-- Any value of any type is serialised, at an offset. -/
  | serialise {b b' : HeapBuffer P} (t : Ty) (v : t.Source P) (pos : ℕ)
      (h : Ends (serialise P t v pos) b b') : BufferStep P b.1 b'.1
  /-- The same, with the buffer initialised first. -/
  | serialiseObject {b b' : HeapBuffer P} (t : Ty) (v : t.Source P)
      (h : Ends (serialiseObject P t v) b b') : BufferStep P b.1 b'.1

/-- **A step** of a system of buffers. -/
inductive Step (P : Platform) : System → System → Prop
  | construct {s s' : System} (capacity : ℕ) (preload : Bool)
      (h : Ends (System.construct capacity preload) s s') : Step P s s'
  | moveConstruct (s : System) (source : ℕ) : Step P s (s.moveConstruct source)
  | moveAssign (s : System) (target source : ℕ) : Step P s (s.moveAssign target source)
  | swap (s : System) (first second : ℕ) : Step P s (s.swap first second)
  | buffer {s : System} {i : ℕ} {b : BasicBuffer} {after : BufferState}
      (hi : s.buffers[i]? = some b) (h : BufferStep P ⟨b, s.heap⟩ after) :
      Step P s (s.put i after)

/-- **What can be reached**, with any heap. -/
def System.Reachable (P : Platform) (s : System) : Prop :=
  ∃ heap, Relation.ReflTransGen (Step P) (.start heap) s

variable {P : Platform}

theorem System.Reachable.start (heap : Heap) : System.Reachable P (.start heap) := ⟨heap, .refl⟩

theorem System.Reachable.step {s s' : System} (h : s.Reachable P) (hstep : Step P s s') :
    s'.Reachable P := by
  obtain ⟨heap, hrun⟩ := h
  exact ⟨heap, hrun.tail hstep⟩

/-! ### Every buffer is well-formed -/

/-- Whatever is done with a buffer, it stays well-formed. -/
theorem BufferStep.wellFormed {s s' : BufferState} (h : BufferStep P s s')
    (hs : s.buffer.WellFormed) : s'.buffer.WellFormed := by
  cases h with
  | initialise size h => exact h.invariant (BufferState.initialise_wellFormed size) hs
  | extend count h => exact h.invariant (BufferState.extend_wellFormed count) hs
  | write offset xs h => exact hs.store h
  | serialise t v pos h => exact HeapBuffer.wellFormed _
  | serialiseObject t v h => exact HeapBuffer.wellFormed _

namespace System

theorem WellFormed.set {s : System} (hs : s.WellFormed) (i : ℕ) {b : BasicBuffer}
    (hb : b.WellFormed) : ∀ c ∈ s.buffers.set i b, c.WellFormed := by
  intro c hc
  rcases List.mem_or_eq_of_mem_set hc with hmem | rfl
  · exact hs c hmem
  · exact hb

theorem WellFormed.get {s : System} (hs : s.WellFormed) {i : ℕ} {b : BasicBuffer}
    (hi : s.buffers[i]? = some b) : b.WellFormed := hs b (List.mem_of_getElem? hi)

theorem wellFormed_construct (capacity : ℕ) (preload : Bool) :
    Invariant WellFormed (construct capacity preload) := by
  intro s hs
  have hb := BasicBuffer.wellFormed_construct capacity preload s.heap
  unfold Sat construct
  cases hrun : BasicBuffer.construct capacity preload s.heap with
  | ok b h => exact List.forall_mem_append.mpr ⟨hs, List.forall_mem_singleton.mpr (hb.ok hrun)⟩
  | error e h => exact hs

theorem WellFormed.moveConstruct {s : System} (hs : s.WellFormed) (source : ℕ) :
    (s.moveConstruct source).WellFormed := by
  unfold System.moveConstruct
  split
  · exact hs
  · rename_i other hother
    exact List.forall_mem_append.mpr ⟨hs.set source BasicBuffer.wellFormed_movedFrom,
      List.forall_mem_singleton.mpr (hs.get hother)⟩

theorem WellFormed.moveAssign {s : System} (hs : s.WellFormed) (target source : ℕ) :
    (s.moveAssign target source).WellFormed := by
  unfold System.moveAssign
  split
  · exact hs
  · rename_i other hother
    dsimp only
    split
    · exact hs
    · -- the target may be the source, and then gets back what it gave
      have hleft : System.WellFormed ⟨s.buffers.set source other.moveConstruct.2, s.heap⟩ :=
        hs.set source BasicBuffer.wellFormed_movedFrom
      exact hleft.set target (hs.get hother)

theorem WellFormed.swap {s : System} (hs : s.WellFormed) (first second : ℕ) :
    (s.swap first second).WellFormed := by
  unfold System.swap
  split
  · rename_i a b ha hb
    have hfirst : System.WellFormed ⟨s.buffers.set first b, s.heap⟩ := hs.set first (hs.get hb)
    exact hfirst.set second (hs.get ha)
  · exact hs

end System

/-- A step keeps every buffer well-formed. -/
theorem Step.wellFormed {s s' : System} (h : Step P s s') (hs : s.WellFormed) :
    s'.WellFormed := by
  cases h with
  | construct capacity preload h => exact h.invariant (System.wellFormed_construct _ _) hs
  | moveConstruct source => exact hs.moveConstruct source
  | moveAssign target source => exact hs.moveAssign target source
  | swap first second => exact hs.swap first second
  | buffer hi h => exact hs.set _ (h.wellFormed (hs.get hi))

/-- **Every buffer is well-formed**, in every state that can be reached. -/
theorem System.Reachable.wellFormed {s : System} (h : s.Reachable P) : s.WellFormed := by
  obtain ⟨heap, hrun⟩ := h
  induction hrun with
  | refl => exact fun b hb => absurd hb List.not_mem_nil
  | tail _ hstep ih => exact hstep.wellFormed ih

/-- A buffer of a system, as a `serialise_buffer`. -/
def System.Reachable.buffer {s : System} (h : s.Reachable P) {i : ℕ} {b : BasicBuffer}
    (hi : s.buffers[i]? = some b) : HeapBuffer P :=
  ⟨⟨b, s.heap⟩, h.wellFormed.get hi⟩

/-! ### What `serialise` leaves -/

/-- **The output of `serialise` depends on the value alone.** Whatever two buffers have been
through, and whatever is in the memory they hold or are given: if the value is serialised into
both, then both hold the same bytes, each of them a byte of the value's layout. -/
theorem serialiseObject_forgets (hP : P.sizeBits = 64) {s₁ s₂ : System} (h₁ : s₁.Reachable P)
    (h₂ : s₂.Reachable P) {i₁ i₂ : ℕ} {b₁ b₂ : BasicBuffer} (hi₁ : s₁.buffers[i₁]? = some b₁)
    (hi₂ : s₂.buffers[i₂]? = some b₂) {t : Ty} (ht : t.wellFormed = true) (v : t.Source P)
    (hlim : t.size + variableSize t (t.value v) < 2 ^ 51) {b₁' b₂' : HeapBuffer P}
    (hrun₁ : serialiseObject P t v (h₁.buffer hi₁) = .ok () b₁')
    (hrun₂ : serialiseObject P t v (h₂.buffer hi₂) = .ok () b₂') :
    (spanOf b₁').size = (spanOf b₂').size ∧ bytes b₁' = bytes b₂' ∧
      bytes b₁' = fixedData t (t.value v) t.size ++ variableData t (t.value v) t.size := by
  have hrange : 3 * 2 ^ 51 ≤ 2 * P.sizeRange := by
    rw [Platform.sizeRange, hP]
    decide
  have hB := heapBuffer_lawful le_rfl hrange
  obtain ⟨-, hbytes₁, -⟩ := (serialiseObject_sat hB ht v trivial hlim).ok hrun₁
  obtain ⟨-, hbytes₂, -⟩ := (serialiseObject_sat hB ht v trivial hlim).ok hrun₂
  have hsame : bytes b₁' = bytes b₂' := hbytes₁.trans hbytes₂.symm
  exact ⟨congrArg List.length hsame, hsame, hbytes₁⟩

/-- A preloaded buffer, and what is left of one that has been moved from, after a serialisation
into it had failed. -/
theorem serialiseObject_forgets_failure :
    let t : Ty := .optional (.scalar .byte)
    let v : t.Source .x64 := some (7 : UInt8)
    ∃ (s₁ s₂ : System) (h₁ : s₁.Reachable .x64) (h₂ : s₂.Reachable .x64) (b₁ : BasicBuffer)
      (hi₁ : s₁.buffers[0]? = some b₁) (hi₂ : s₂.buffers[0]? = some .movedFrom)
      (b₁' b₂' : HeapBuffer .x64), serialiseObject .x64 t v (h₁.buffer hi₁) = .ok () b₁' ∧
        serialiseObject .x64 t v (h₂.buffer hi₂) = .ok () b₂' ∧ bytes b₁' = bytes b₂' := by
  intro t v
  let heap₁ := Heap.filled 255 fun _ => false
  let heap₂ := Heap.filled 1 (· == 1)
  have h₁ : System.Reachable .x64 ⟨[⟨4096, List.replicate 8 0, 8, 0⟩], heap₁.next⟩ :=
    (System.Reachable.start heap₁).step (.construct 8 true rfl)
  have hnew : System.Reachable .x64 ⟨[⟨4096, [], 0, 0⟩], heap₂.next⟩ :=
    (System.Reachable.start heap₂).step (.construct 0 false rfl)
  let b : HeapBuffer .x64 := hnew.buffer (i := 0) rfl
  have hthrow : BufferStep .x64 b.1 b.1.nextHeap :=
    @BufferStep.serialiseObject _ b ⟨b.1.nextHeap, b.2⟩ (.unsigned 8) (0 : Fin (256 ^ 8)) rfl
  have h₂ : System.Reachable .x64 ⟨[.movedFrom, ⟨4096, [], 0, 0⟩], heap₂.next.next⟩ :=
    (hnew.step (.buffer (i := 0) rfl hthrow)).step (.moveConstruct _ 0)
  have hB := @heapBuffer_lawful_of_reliable .x64 _ (le_refl (2 ^ 51)) (by decide)
  obtain ⟨b₁', hrun₁, -⟩ := serialiseObject_ok hB (by decide : t.wellFormed = true) v
    (b := h₁.buffer (i := 0) rfl) (Heap.reliable_filled fun _ _ => rfl) (by decide) (by decide)
  obtain ⟨b₂', hrun₂, -⟩ := serialiseObject_ok hB (by decide : t.wellFormed = true) v
    (b := h₂.buffer (i := 0) rfl)
    (Heap.reliable_filled fun n (hn : 2 ≤ n) => beq_eq_false_iff_ne.mpr (by omega)) (by decide)
    (by decide)
  refine ⟨_, _, h₁, h₂, _, rfl, rfl, b₁', b₂', hrun₁, hrun₂, ?_⟩
  exact (serialiseObject_forgets (by decide) h₁ h₂ rfl rfl (by decide) v (by decide) hrun₁
    hrun₂).2.1

end SerialisePP
