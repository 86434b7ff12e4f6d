import SerialisePP.BasicBuffer
import SerialisePP.Contract

/-!
# Growing a `basic_buffer`

Before the elements of a dynamic array are written, `push_variable_subobjects` makes room for
them: the size of an element times their number is the argument of `extend`, which adds it to
the number of bytes in use, and then computes a capacity. All three are machine arithmetic,
and none is checked; the number of elements is, but only after they have been written.

`SerialisePP.GrowsExactly` says that there is room for all the elements when the first of them
is written, or that an exception is thrown before it is. It holds if and only if the new size
is a `std::size_t`, and the new capacity, if there has to be one, is too
(`SerialisePP.growsExactly_iff`). Where it does not hold, elements are written outside of the
buffer (`SerialisePP.growth_wraps_around`).
-/

namespace SerialisePP

open Effect LittleEndian SerialiseBuffer

variable {P : Platform}

/-- The exceptions that say that an object is too big: an `object_size_error`, or that of an
allocation that has failed. -/
def TooBigToGrow (e : Failure) : Prop :=
  ∃ x, e = .thrown x ∧ (x.isObjectSizeError = true ∨ x = .badAlloc)

/-- **Room is made for the elements**, as `_serialise_elements` does it: whatever writes them
runs with a span that has grown by exactly their size, or an exception says that they are too
big. -/
def GrowsExactly (t : Ty) (count : ℕ) (b : HeapBuffer P) : Prop :=
  ∀ func : ℕ → M (HeapBuffer P) Unit,
    let run : M (HeapBuffer P) Unit := do
      makeWrapper
      pushVariableSubobjects P t count .wrapper func
    (∃ w, run (World.start b) = func (spanOf b).size w ∧
      (spanOf w.buffer).size = (spanOf b).size + fixedDataSize P t * count) ∨
    ∃ e w, run (World.start b) = .error e w ∧ TooBigToGrow e

/-! ### What is made of the result of `extend` -/

section Push

variable {B : Type} [SerialiseBuffer B] {b b' : B}

theorem extend_wrapper_ok {count : ℕ} {span : Span} {w : World B}
    (h : extend count w.buffer = .ok span b') : BufferArg.wrapper.extend count w =
      .ok () { w.resized b' with kept := ⟨span, w.epoch + 1⟩ } := by
  have hresize : resize (extend count) w = .ok ⟨span, w.epoch + 1⟩ (w.resized b') := by
    rw [resize, h]
  exact bind_ok hresize

theorem extend_wrapper_error {count : ℕ} {e : Failure} {w : World B}
    (h : extend count w.buffer = .error e b') :
    BufferArg.wrapper.extend count w = .error e { w with buffer := b' } := by
  have hresize : resize (extend count) w = .error e { w with buffer := b' } := by
    rw [resize, h]
  exact bind_error hresize

variable {t : Ty} {count : ℕ} {func : ℕ → M B Unit}

/-- What makes room runs what follows on the extended buffer. -/
theorem push_of_ok {span : Span}
    (h : extend (P.wrap (fixedDataSize P t * count)) b = .ok span b') :
    ∃ w, (makeWrapper >>= fun _ => pushVariableSubobjects P t count .wrapper func)
        (World.start b) = func (spanOf b).size w ∧ w.buffer = b' := by
  let w : World B := World.record ⟨b, 0, ⟨spanOf b, 0⟩, []⟩ (.cached ⟨spanOf b, 0⟩ ⟨spanOf b, 0⟩)
  exact ⟨_, (bind_ok rfl).trans ((bind_ok rfl).trans (bind_ok (extend_wrapper_ok (w := w) h))),
    rfl⟩

/-- If the buffer cannot be extended, nothing follows. -/
theorem push_of_error {e : Failure}
    (h : extend (P.wrap (fixedDataSize P t * count)) b = .error e b') :
    ∃ w, (makeWrapper >>= fun _ => pushVariableSubobjects P t count .wrapper func)
        (World.start b) = .error e w := by
  let w : World B := World.record ⟨b, 0, ⟨spanOf b, 0⟩, []⟩ (.cached ⟨spanOf b, 0⟩ ⟨spanOf b, 0⟩)
  exact ⟨_, (bind_ok rfl).trans ((bind_ok rfl).trans
    (bind_error (extend_wrapper_error (w := w) h)))⟩

end Push

/-! ### When it is exact -/

/-- The numbers that `extend` computes can all be represented: the new size, and the new
capacity if there has to be one. -/
def Representable (P : Platform) (b : BasicBuffer) (newUsed : ℕ) : Prop :=
  newUsed < P.sizeRange ∧ (newUsed ≤ b.capacity ∨ timesOneAndAHalf newUsed < P.sizeRange)

instance {b : BasicBuffer} {newUsed : ℕ} : Decidable (Representable P b newUsed) :=
  inferInstanceAs (Decidable (_ ∧ _))

/-- The argument of `extend` has wrapped around, and its sum with the number of bytes in use
wraps around once more: this is the same as doing so once. -/
theorem wrap_add_wrap (m n : ℕ) : P.wrap (m + P.wrap n) = P.wrap (m + n) := Nat.add_mod_mod m n _

/-- `extend` is exact if its numbers can be represented. -/
theorem extend_exact {s : BufferState} (hs : s.buffer.WellFormed) {n : ℕ}
    (h : Representable P s.buffer (s.buffer.used + n)) :
    Sat (BufferState.extend P (P.wrap n)) s
      (fun _ s' => s'.buffer.used = s.buffer.used + n) fun e _ => TooBigToGrow e := by
  rw [BufferState.sat_extend hs ((wrap_add_wrap _ n).trans (Platform.wrap_of_lt h.1))]
  split_ifs with hcap hrange
  · cases s.heap.outcome s.heap.serial (timesOneAndAHalf (s.buffer.used + n)) with
    | none => exact ⟨.badAlloc, rfl, .inr rfl⟩
    | some a => rfl
  · rcases h.2 with hle | hlt
    · exact absurd hle (not_le.mpr hcap)
    · exact absurd hlt hrange
  · rfl

/-- With memory left, it is not exact otherwise. -/
theorem representable_of_exact {s : BufferState} (hs : s.buffer.WellFormed) {n : ℕ}
    (hr : s.heap.Reliable)
    (h : Sat (BufferState.extend P (P.wrap n)) s
      (fun _ s' => s'.buffer.used = s.buffer.used + n) fun e _ => TooBigToGrow e) :
    Representable P s.buffer (s.buffer.used + n) := by
  rw [BufferState.sat_extend hs (wrap_add_wrap _ n)] at h
  have hlt : P.wrap (s.buffer.used + n) = s.buffer.used + n →
      s.buffer.used + n < P.sizeRange := fun heq => heq ▸ Platform.wrap_lt _
  by_cases hcap : s.buffer.capacity < P.wrap (s.buffer.used + n)
  · by_cases hrange : timesOneAndAHalf (P.wrap (s.buffer.used + n)) < P.sizeRange
    · rw [if_pos hcap, if_pos hrange] at h
      cases hout : s.heap.outcome s.heap.serial
          (timesOneAndAHalf (P.wrap (s.buffer.used + n))) with
      | none => exact absurd hout (hr _ _ le_rfl)
      | some a =>
        rw [hout] at h
        -- the span has the size that was computed, which is exact only if nothing wrapped around
        have heq : P.wrap (s.buffer.used + n) = s.buffer.used + n := h
        rw [heq] at hrange
        exact ⟨hlt heq, .inr hrange⟩
    · rw [if_pos hcap, if_neg hrange] at h
      obtain ⟨x, hx, -⟩ := h
      cases hx
  · rw [if_neg hcap] at h
    have heq : P.wrap (s.buffer.used + n) = s.buffer.used + n := h
    rw [heq] at hcap
    exact ⟨hlt heq, .inl (not_lt.mp hcap)⟩

/-- Whether room is made is a matter of `extend` alone. -/
theorem growsExactly_iff_sat {t : Ty} {count : ℕ} {b : HeapBuffer P} : GrowsExactly t count b ↔
    Sat (BufferState.extend P (P.wrap (fixedDataSize P t * count))) b.1
      (fun _ s' => s'.buffer.used = b.1.buffer.used + fixedDataSize P t * count)
      fun e _ => TooBigToGrow e := by
  have hsize : ∀ c : HeapBuffer P, (spanOf c).size = c.1.buffer.used := fun c =>
    congrArg Span.size (spanOf_heapBuffer c)
  refine Iff.trans ?_ HeapBuffer.sat_extend
  constructor
  · intro h
    cases hrun : extend (P.wrap (fixedDataSize P t * count)) b with
    | ok span b' =>
      obtain ⟨w', hw', rfl⟩ := @push_of_ok _ _ _ _ _ _ _ (fun _ => pure ()) _ hrun
      rw [sat_of_ok hrun]
      rcases h fun _ => pure () with ⟨w, hw, hexact⟩ | ⟨_, _, hw, -⟩
      · obtain rfl : w' = w := (EStateM.Result.ok.inj (hw'.symm.trans hw)).2
        rwa [hsize, hsize] at hexact
      · exact absurd (hw'.symm.trans hw) nofun
    | error e b' =>
      obtain ⟨w', hw'⟩ := @push_of_error _ _ _ _ _ _ _ (fun _ => pure ()) _ hrun
      rw [sat_of_error hrun]
      rcases h fun _ => pure () with ⟨w, hw, -⟩ | ⟨e', w, hw, he⟩
      · exact absurd (hw'.symm.trans hw) nofun
      · obtain rfl : e = e' := (EStateM.Result.error.inj (hw'.symm.trans hw)).1
        exact he
  · intro hsat func run
    cases hrun : extend (P.wrap (fixedDataSize P t * count)) b with
    | ok span b' =>
      obtain ⟨w, hw, rfl⟩ := @push_of_ok _ _ _ _ _ _ _ func _ hrun
      refine .inl ⟨w, hw, ?_⟩
      rw [hsize, hsize]
      exact hsat.ok hrun
    | error e b' =>
      obtain ⟨w, hw⟩ := @push_of_error _ _ _ _ _ _ _ func _ hrun
      exact .inr ⟨e, w, hw, hsat.error hrun⟩

/-- **The growth of a `basic_buffer` is exact**, whatever the heap does, if and only if the
new size is a `std::size_t`, and so is the new capacity, if there has to be one. -/
theorem growsExactly_iff (t : Ty) (count : ℕ) {b : BasicBuffer} (hb : b.WellFormed) :
    (∀ heap, @GrowsExactly P t count ⟨⟨b, heap⟩, hb⟩) ↔
      Representable P b (b.used + fixedDataSize P t * count) := by
  constructor
  · intro h
    have hfilled := growsExactly_iff_sat.mp (h (.filled 0 fun _ => false))
    exact representable_of_exact hb (Heap.reliable_filled fun _ _ => rfl) hfilled
  · intro h heap
    exact growsExactly_iff_sat.mpr (extend_exact hb h)

/-- Half as many numbers as those whose total size wraps around. -/
theorem growsExactly_iff_half :
    let b : BasicBuffer := ⟨4096, List.replicate 8 0, 8, 8⟩
    ∀ heap, ∃ hb : b.WellFormed,
      @GrowsExactly .x86 (.unsigned 2) (2 ^ 30) ⟨⟨b, heap⟩, hb⟩ := by
  intro b heap
  have hb : b.WellFormed := ⟨rfl, le_rfl, nofun⟩
  exact ⟨hb, (growsExactly_iff (.unsigned 2) (2 ^ 30) hb).mpr (by decide) heap⟩

/-! ### When it is not -/

/-- The total size of the elements wraps around to 0: the buffer does not grow, and the first
element is already written outside of it. -/
theorem serialise_outside {elements : List ((Ty.unsigned 2).Source P)} (hne : elements ≠ [])
    (h : elements.length < P.sizeRange) (hwrap : P.wrap (2 * elements.length) = 0) {pos : ℕ}
    {b : HeapBuffer P} (hpos : pos ≤ (bytes b).length) (hused : (bytes b).length < P.sizeRange) :
    let t : Ty := .dynamicArray (.unsigned 2)
    let v : t.Source P := .range elements h
    ∃ b', serialise P t v pos b = .error .undefined b' := by
  intro t v
  obtain ⟨x, xs, rfl⟩ := List.exists_cons_of_ne_nil hne
  have hsize : fixedDataSize P (.unsigned 2) = 2 :=
    fixedDataSize_of_lt (lt_of_lt_of_le (by decide : 2 < 2 ^ 32) Platform.two_pow_32_le_sizeRange)
  have hlen : (bytes b).length = b.1.buffer.used := b.2.length_bytes
  -- nothing is asked for, so nothing is reallocated and the span stays as it is
  have hgrow : Sat (extend (P.wrap (fixedDataSize P (.unsigned 2) * (x :: xs).length))) b
      (fun _ b' => (bytes b').length = (bytes b).length) fun _ _ => False := by
    have hsame : P.wrap (b.1.buffer.used + 0) = b.1.buffer.used :=
      Platform.wrap_of_lt (hlen ▸ hused)
    have hextend : Sat (BufferState.extend P 0) b.1
        (fun _ s' => s'.buffer.used = b.1.buffer.used) fun _ _ => False := by
      rw [BufferState.sat_extend b.2 hsame, if_neg (not_lt.mpr b.2.used_le)]
    rw [hsize, hwrap]
    refine (HeapBuffer.sat_extend.mpr hextend).mono (fun _ b' h => ?_) fun _ _ h => h
    exact b'.2.length_bytes.trans (h.trans hlen.symm)
  have hsat : Sat (serialise P t v pos) b (fun _ _ => False) fun e _ => e = .undefined := by
    rw [serialise_eq_plain heapBuffer_spanLaws]
    refine sat_call ?_
    rw [serialiseRun, serialiseWith_plain, sat_bind, sat_assertOffset hpos, serialiser,
      serialiseDynamicArray, sat_bind, sat_getSpan_direct, sat_bind]
    show Sat (visitRange P .plain (.unsigned 2)
      ((x :: xs).map (serialiser P .plain (.unsigned 2))) .direct) _ _ _
    rw [visitRange, sat_bind, pushVariableSubobjects, sat_bind, sat_getSpan_direct, sat_bind,
      sat_extend_direct, List.length_map]
    refine hgrow.mono ?_ fun _ _ h => h.elim
    intro span b' hsame
    -- the first element goes to the end of the span
    let w : World (HeapBuffer P) := (World.start b).resized b'
    have hout : ¬((w.current.data = data w.buffer ∧ w.current.size ≤ (bytes w.buffer).length) ∧
        (bytes b).length + (unsignedBytes P 2 x.val).length ≤ w.current.size) := by
      rintro ⟨-, hle⟩
      change _ ≤ (bytes b').length at hle
      rw [unsignedBytes_eq, length_toBytes, hsame] at hle
      omega
    show Sat (serialiseEach P .plain (.unsigned 2)
      ((x :: xs).map (serialiser P .plain (.unsigned 2))) .direct (bytes b).length >>= _) _ _ _
    rw [sat_bind, List.map_cons, serialiseEach, sat_bind, pushFixedSubobject, sat_bind,
      serialiseWith_plain, sat_bind, sat_assertOffset hsame.ge]
    show Sat (write w.current (bytes b).length (unsignedBytes P 2 x.val)) w _ _
    exact (sat_of_error ((write_run ..).trans (if_neg hout))).mpr rfl
  obtain ⟨e, b', hrun, rfl⟩ := hsat.exists_error fun _ _ h => h
  exact ⟨b', hrun⟩

/-- **Growing wraps around**: with a 32-bit `std::size_t`, 2^31 numbers of two bytes are within
the limit of a dynamic array, and no room is made for any of them. The first is written
outside of the buffer. -/
theorem growth_wraps_around :
    let t : Ty := .dynamicArray (.unsigned 2)
    let elements : List ((Ty.unsigned 2).Source .x86) := List.replicate (2 ^ 31) (0 : Fin (256 ^ 2))
    let b : HeapBuffer .x86 :=
      ⟨⟨⟨4096, List.replicate 8 0, 8, 8⟩, .filled 0 fun _ => false⟩, ⟨rfl, le_rfl, nofun⟩⟩
    elements.length ≤ maxDynamicArraySize ∧ ∃ h : elements.length < Platform.x86.sizeRange,
      (∃ b', serialise .x86 t (.range elements h) 0 b = .error .undefined b') ∧
        ¬GrowsExactly (.unsigned 2) elements.length b := by
  intro t elements b
  have hlen : elements.length = 2 ^ 31 := List.length_replicate
  have hne : elements ≠ [] := List.ne_nil_of_length_pos (hlen ▸ by decide)
  refine ⟨hlen ▸ by decide, hlen ▸ by decide, ?_, fun hgrows => ?_⟩
  · exact serialise_outside hne _ (hlen ▸ by decide) (Nat.zero_le _) (by decide)
  · rw [hlen] at hgrows
    have hrep := representable_of_exact b.2 (Heap.reliable_filled fun _ _ => rfl)
      (growsExactly_iff_sat.mp hgrows)
    exact absurd hrep.1 (by decide)

end SerialisePP
