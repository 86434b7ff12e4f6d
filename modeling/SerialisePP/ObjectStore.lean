import SerialisePP.Aborted
import SerialisePP.BasicBuffer
import SerialisePP.Sharing

/-!
# A buffer as a store of objects

A caller may keep working on one buffer for as long as it likes: make room, serialise an object
wherever the room is, also over others and over what it has serialised before, write bytes of
its own, start again from an empty buffer – and any of these calls may throw. Which objects are
still there to be read is a matter of bookkeeping, and that is what this file is about.

`SerialisePP.ObjectStore.Op` are the calls. The bookkeeping (`Op.returned`, `Op.thrown`) knows
the places of the objects and nothing of bytes: a call that returns adds its object, and
whatever the outcome, the objects that have a byte in the place of its fixed section are
dropped. It is sound over every run: all objects that are left are read back as their values
(`SerialisePP.ObjectStore.live_objects_read`).
-/

namespace SerialisePP

open Effect Region SerialiseBuffer TwoSection

namespace ObjectStore

variable {P : Platform}

/-! ### The bookkeeping -/

/-- Whether two regions have no byte in common. -/
def disjoint (i n j m : ℕ) : Bool :=
  decide (n = 0 ∨ m = 0 ∨ i + n ≤ j ∨ j + m ≤ i)

theorem not_mem_of_disjoint {i n j m : ℕ} (h : disjoint i n j m = true) (k : ℕ) :
    ¬((i ≤ k ∧ k < i + n) ∧ j ≤ k ∧ k < j + m) := by
  have := of_decide_eq_true h
  omega

/-- **An object in a buffer**: what was serialised, and where its variable section starts. -/
structure Stored (P : Platform) where
  /-- What was serialised, and where. -/
  job : Job P
  /-- The size of the buffer at that time. -/
  base : ℕ

/-- Whether a region has no byte of an object. -/
def Stored.apart (pos n : ℕ) (s : Stored P) : Bool :=
  disjoint pos n s.job.offset s.job.type.size &&
    disjoint pos n s.base (variableSize s.job.type s.job.value)

/-- **The calls on a buffer.** -/
inductive Op (P : Platform)
  /-- `serialise(source, buffer, fixed_offset)`. -/
  | serialise (job : Job P)
  /-- `serialise(source, buffer)`. -/
  | serialiseObject (job : Job P)
  /-- `initialise(size)`. -/
  | initialise (size : ℕ)
  /-- `extend(count)`. -/
  | extend (count : ℕ)
  /-- Bytes are written through `span()`. -/
  | write (offset : ℕ) (xs : List UInt8)

namespace Op

variable {B : Type} [SerialiseBuffer B]

/-- **The call itself.** -/
def run : Op P → EStateM Failure B Unit
  | .serialise j => SerialisePP.serialise P j.type j.source j.offset
  | .serialiseObject j => SerialisePP.serialiseObject P j.type j.source
  | .initialise size => do
    let _ ← SerialiseBuffer.initialise size
  | .extend count => do
    let _ ← SerialiseBuffer.extend count
  | .write offset xs => modify (SerialiseBuffer.store offset xs)

/-- **What a caller has to see to**: that a fixed section, and the bytes it writes, are inside
of the buffer, and that the buffer does not grow too large. -/
def Allowed (limit : ℕ) (b : B) : Op P → Prop
  | .serialise j => j.offset + j.type.size ≤ (bytes b).length ∧
    (bytes b).length + variableSize j.type j.value < limit ∧
      Unwrapped P (j.object.marks j.offset (bytes b).length)
  | .serialiseObject j => j.type.size + variableSize j.type j.value < limit ∧
    Unwrapped P (j.object.marks 0 j.type.size)
  | .initialise size => size < limit
  | .extend count => (bytes b).length + count < limit
  | .write offset xs => offset + xs.length ≤ (bytes b).length

/-- **The objects after a call that returns**, on a buffer of a size. -/
def returned (size : ℕ) (live : List (Stored P)) : Op P → List (Stored P)
  | .serialise j => ⟨j, size⟩ :: live.filter (Stored.apart j.offset j.type.size)
  | .serialiseObject j => [⟨{ j with offset := 0 }, j.type.size⟩]
  | .initialise _ => []
  | .extend _ => live
  | .write offset xs => live.filter (Stored.apart offset xs.length)

/-- **The objects after a call that throws.** -/
def thrown (live : List (Stored P)) : Op P → List (Stored P)
  | .serialise j => live.filter (Stored.apart j.offset j.type.size)
  | .serialiseObject _ => []
  | .initialise _ => live
  | .extend _ => live
  | .write _ _ => live

end Op

/-! ### Objects that are still there -/

/-- **An object is in a memory**, with marks that fit. -/
def Stored.Held (mem : List UInt8) (s : Stored P) : Prop :=
  Placed mem s.job.object s.job.offset s.base ∧ ∀ k ∈ s.job.object.marks s.job.offset s.base, k.Fits

/-- **Frame**: an object that is apart from a change is still there. -/
theorem Stored.Held.confined {mem mem' : List UInt8} {s : Stored P} (h : s.Held mem)
    {pos n m : ℕ} (hc : Confined mem mem' pos n m) (hs : s.apart pos n = true) : s.Held mem' := by
  obtain ⟨hf, hb⟩ := Bool.and_eq_true_iff.mp hs
  rw [← s.job.fixedSize_object] at hf
  exact ⟨h.1.confined hc (not_mem_of_disjoint hf) (not_mem_of_disjoint hb), h.2⟩

theorem held_filter {mem mem' : List UInt8} {live : List (Stored P)} {pos n m : ℕ}
    (h : ∀ s ∈ live, s.Held mem) (hc : Confined mem mem' pos n m) :
    ∀ s ∈ live.filter (Stored.apart pos n), s.Held mem' := by
  intro s hs
  obtain ⟨hmem, hapart⟩ := List.mem_filter.mp hs
  exact (h s hmem).confined hc hapart

/-- Growing a buffer leaves all objects alone. -/
theorem held_append {mem more : List UInt8} {live : List (Stored P)}
    (h : ∀ s ∈ live, s.Held mem) : ∀ s ∈ live, s.Held (mem ++ more) := fun s hs =>
  ⟨(h s hs).1.append_mem more, (h s hs).2⟩

section Runs

variable {B : Type} [SerialiseBuffer B] {I : B → Prop} {limit : ℕ} {throws : Exn → Prop}

/-- **The invariant**: every object in the books is in the buffer. -/
structure Invariant (I : B → Prop) (limit : ℕ) (b : B) (live : List (Stored P)) : Prop where
  lawful : I b
  length_lt : (bytes b).length < limit
  held : ∀ s ∈ live, s.Held (bytes b)

/-- **One call keeps the invariant**, whether it returns or throws. -/
theorem Op.run_sat (hB : LawfulBuffer P B I limit throws) (hS : StrongBuffer B I limit) (op : Op P)
    {b : B} {live : List (Stored P)} (h : Invariant I limit b live) (hop : op.Allowed limit b) :
    Sat op.run b (fun _ b' => Invariant I limit b' (op.returned (bytes b).length live))
      fun _ b' => Invariant I limit b' (op.thrown live) := by
  cases op with
  | serialise j =>
    obtain ⟨hpos, hlim, hw⟩ := hop
    have hrun := ((serialise_sat hB j.wellFormed j.source h.lawful hpos hlim).and
      (serialise_confined hB hS j.wellFormed j.source h.lawful hpos hlim))
    have hlt : ∀ {b' : B}, Confined (bytes b) (bytes b') j.offset j.type.size
        (variableSize j.type j.value) → (bytes b').length < limit := fun hc =>
      hc.length_le_add.trans_lt hlim
    refine hrun.mono ?_ ?_
    · rintro - b' ⟨⟨hI', hb', hm⟩, hc⟩
      refine ⟨hI', hlt hc, List.forall_mem_cons.mpr ⟨⟨?_, ?_⟩, held_filter h.held hc⟩⟩
      · rw [hb']
        exact placed_install (j.fixedSize_object.symm ▸ hpos)
      · exact fun k hk => Mark.fits_of_failure_eq_none (hm k hk) (hw k hk)
    · rintro e b' ⟨⟨hI', -⟩, hc⟩
      exact ⟨hI', hlt hc, held_filter h.held hc⟩
  | serialiseObject j =>
    obtain ⟨hlim, hw⟩ := hop
    have hsize : fixedDataSize P j.type = j.type.size :=
      fixedDataSize_of_lt ((Nat.lt_of_add_right_lt hlim).trans_le hB.limit_le)
    have hlim' : j.type.size < limit := Nat.lt_of_add_right_lt hlim
    show Sat (SerialisePP.serialiseObject P j.type j.source) b _ _
    rw [SerialisePP.serialiseObject, sat_bind, hsize]
    refine ((hB.initialise_sat b j.type.size h.lawful hlim').and
      (hS.initialise_error b j.type.size h.lawful hlim')).mono ?_ ?_
    · rintro - b₁ ⟨⟨hI₁, hlen₁⟩, -⟩
      have hpos : 0 + j.type.size ≤ (bytes b₁).length := by rw [hlen₁, Nat.zero_add]
      have hlim₁ : (bytes b₁).length + variableSize j.type j.value < limit := by rwa [hlen₁]
      refine ((serialise_sat hB j.wellFormed j.source hI₁ hpos hlim₁).and
        (serialise_confined hB hS j.wellFormed j.source hI₁ hpos hlim₁)).mono ?_ ?_
      · rintro - b' ⟨⟨hI', hb', hm⟩, hc⟩
        rw [hlen₁] at hm
        refine ⟨hI', hc.length_le_add.trans_lt hlim₁, List.forall_mem_singleton.mpr ⟨?_, ?_⟩⟩
        · have hp := @placed_install _ _ (bytes b₁) j.object 0 (j.fixedSize_object.symm ▸ hpos)
          rw [hlen₁] at hp
          rw [hb']
          exact hp
        · exact fun k hk => Mark.fits_of_failure_eq_none (hm k hk) (hw k hk)
      · rintro e b' ⟨⟨hI', -⟩, hc⟩
        exact ⟨hI', hc.length_le_add.trans_lt hlim₁, fun s hs => absurd hs List.not_mem_nil⟩
    · rintro e b₁ ⟨⟨hI₁, -⟩, hb₁⟩
      exact ⟨hI₁, hb₁ ▸ h.length_lt, fun s hs => absurd hs List.not_mem_nil⟩
  | initialise size =>
    show Sat (SerialiseBuffer.initialise size >>= fun _ => pure ()) b _ _
    rw [sat_bind]
    refine ((hB.initialise_sat b size h.lawful hop).and
      (hS.initialise_error b size h.lawful hop)).mono ?_ ?_
    · rintro - b' ⟨⟨hI', hlen⟩, -⟩
      exact ⟨hI', hlen.trans_lt hop, fun s hs => absurd hs List.not_mem_nil⟩
    · rintro e b' ⟨⟨hI', -⟩, hb'⟩
      exact ⟨hI', hb' ▸ h.length_lt, hb' ▸ h.held⟩
  | extend count =>
    show Sat (SerialiseBuffer.extend count >>= fun _ => pure ()) b _ _
    rw [sat_bind]
    refine ((hB.extend_sat b count h.lawful hop).and
      (hS.extend_error b count h.lawful hop)).mono ?_ ?_
    · rintro - b' ⟨⟨hI', more, hmore, hb'⟩, -⟩
      refine ⟨hI', ?_, hb' ▸ held_append h.held⟩
      rw [hb', List.length_append, hmore]
      exact hop
    · rintro e b' ⟨⟨hI', -⟩, hb'⟩
      exact ⟨hI', hb' ▸ h.length_lt, hb' ▸ h.held⟩
  | write offset xs =>
    obtain ⟨hI', hb'⟩ := hB.store_eq b offset xs h.lawful hop
    have hc : Confined (bytes b) (bytes (store offset xs b)) offset xs.length 0 := by
      rw [hb']
      exact confined_overwrite hop
    exact ⟨hI', hc.length_le_add.trans_lt h.length_lt, held_filter h.held hc⟩

/-- **The states that can be reached**, from any buffer and with empty books. -/
inductive Reachable (P : Platform) (I : B → Prop) (limit : ℕ) : B → List (Stored P) → Prop
  | start {b : B} (hI : I b) (hlen : (bytes b).length < limit) : Reachable P I limit b []
  | returns {b b' : B} {live : List (Stored P)} (op : Op P) (h : Reachable P I limit b live)
      (hop : op.Allowed limit b) (hrun : op.run b = .ok () b') :
      Reachable P I limit b' (op.returned (bytes b).length live)
  | throws {b b' : B} {live : List (Stored P)} {e : Failure} (op : Op P)
      (h : Reachable P I limit b live) (hop : op.Allowed limit b) (hrun : op.run b = .error e b') :
      Reachable P I limit b' (op.thrown live)

/-- **The invariant holds over every run.** -/
theorem Reachable.invariant (hB : LawfulBuffer P B I limit throws) (hS : StrongBuffer B I limit)
    {b : B} {live : List (Stored P)} (h : Reachable P I limit b live) :
    Invariant I limit b live := by
  induction h with
  | start hI hlen => exact ⟨hI, hlen, fun s hs => absurd hs List.not_mem_nil⟩
  | returns op _ hop hrun ih => exact (op.run_sat hB hS ih hop).ok hrun
  | throws op _ hop hrun ih => exact (op.run_sat hB hS ih hop).error hrun

/-- **All objects in the books are read back**, after any sequence of calls of which any may
have thrown, and on any platform: each as the value it was serialised from, and as no other. -/
theorem live_objects_read (hB : LawfulBuffer P B I limit throws) (hS : StrongBuffer B I limit)
    {b : B} {live : List (Stored P)} (h : Reachable P I limit b live) {Q : Platform}
    (hQ : limit ≤ Q.sizeRange) : ∀ s ∈ live, ∃ d,
      deserialise Q s.job.type (bytes b) s.job.offset = .ok d ∧
        ∀ v, Yields Q s.job.type d v ↔ v = s.job.value := by
  intro s hs
  have hinv := h.invariant hB hS
  obtain ⟨hp, hfits⟩ := hinv.held s hs
  exact deserialise_yields_iff (hinv.length_lt.trans_le hQ) s.job.wellFormed hp hfits

/-- An optional in a `basic_buffer` of 16 bytes, and then a dynamic array, for which there is no
memory. -/
theorem live_objects_read_out_of_memory :
    let i : Job .x64 := ⟨.optional (.scalar .byte), rfl, some (7 : UInt8), 0⟩
    let j : Job .x64 :=
      ⟨.dynamicArray (.scalar .byte), rfl, .range (List.replicate 5 (9 : UInt8)) (by decide), 4⟩
    let b : HeapBuffer .x64 :=
      ⟨⟨⟨4096, List.replicate 16 0, 16, 12⟩, Heap.filled 0 fun _ => true⟩, rfl, by decide, nofun⟩
    ∃ b₁ b₂, serialise .x64 i.type i.source i.offset b = .ok () b₁ ∧
      serialise .x64 j.type j.source j.offset b₁ = .error (.thrown .badAlloc) b₂ ∧
        ∃ d, deserialise .x64 i.type (bytes b₂) i.offset = .ok d ∧
          ∀ v, Yields .x64 i.type d v ↔ v = i.value := by
  intro i j b
  have hB : LawfulBuffer .x64 (HeapBuffer .x64) (fun _ => True) (2 ^ 51) (· = .badAlloc) :=
    heapBuffer_lawful (by decide) (by decide)
  have hS : StrongBuffer (HeapBuffer .x64) (fun _ => True) (2 ^ 51) :=
    heapBuffer_strong (by decide) (by decide) _
  let b₁ : HeapBuffer .x64 :=
    ⟨⟨⟨4096, [13, 0, 0, 0, 0, 0, 0, 0, 0, 0, 0, 0, 7, 0, 0, 0], 16, 13⟩,
      Heap.filled 0 fun _ => true⟩, rfl, by decide, nofun⟩
  obtain ⟨b', hrun₁, hb'⟩ : ∃ b', serialise .x64 i.type i.source i.offset b = .ok () b' ∧
      b'.1 = b₁.1 := by
    subst i b b₁
    exact ⟨_, rfl, rfl⟩
  obtain rfl : b' = b₁ := Subtype.ext hb'
  obtain ⟨b₂, hrun₂⟩ : ∃ b₂,
      serialise .x64 j.type j.source j.offset b₁ = .error (.thrown .badAlloc) b₂ := by
    subst j b₁
    exact ⟨_, rfl⟩
  have hi : (Op.serialise i).Allowed (2 ^ 51) b := ⟨by decide, by decide, by decide⟩
  have hj : (Op.serialise j).Allowed (2 ^ 51) b₁ := ⟨by decide, by decide, by decide⟩
  have hreach : Reachable .x64 (fun _ => True) (2 ^ 51) b₂ _ :=
    .throws (.serialise j) (.returns (.serialise i) (.start trivial (by decide)) hi hrun₁) hj hrun₂
  exact ⟨b₁, b₂, hrun₁, hrun₂, live_objects_read hB hS hreach (by decide) ⟨i, 12⟩
    (List.mem_filter.mpr ⟨List.mem_cons_self .., by decide⟩)⟩

end Runs

end ObjectStore

end SerialisePP
