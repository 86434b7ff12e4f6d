import SerialisePP.RoundTrip

/-!
# Many objects in one buffer

A buffer may already have content when `serialise(source, buffer, fixed_offset)` is called,
and the fixed section of the object may go anywhere in it. So many objects can share one
buffer: the caller lays out their fixed sections side by side, and every call appends its
variable data at an end that depends on all the calls before it.

What is stored depends on the order of the calls, what is read does not
(`SerialisePP.deserialise_serialiseAll`). An object stays where it is
(`SerialisePP.Job.Holds`) through every later call, because that one writes to a fixed section
which is apart, and appends.
-/

namespace SerialisePP

open Effect Region SerialiseBuffer TwoSection

/-- **An object to be serialised**, and where its fixed section goes. -/
structure Job (P : Platform) where
  /-- The type. -/
  type : Ty
  wellFormed : type.wellFormed = true
  /-- The value. -/
  source : type.Source P
  /-- `fixed_offset`. -/
  offset : ℕ

variable {P : Platform}

namespace Job

/-- The value that is serialised. -/
def value (j : Job P) : j.type.Value := j.type.value j.source

/-- The layout of the value. -/
def object (j : Job P) : Layout UInt8 Mark := layout j.type j.value

/-- The bytes of the fixed section. -/
def Occupies (j : Job P) (k : ℕ) : Prop := j.offset ≤ k ∧ k < j.offset + j.type.size

/-- Two fixed sections that have no byte in common. -/
def Apart (i j : Job P) : Prop := ∀ k, ¬(i.Occupies k ∧ j.Occupies k)

theorem Apart.symm {i j : Job P} (h : i.Apart j) : j.Apart i := fun k hk => h k hk.symm

theorem fixedSize_object (j : Job P) : j.object.fixedSize = j.type.size := fixedSize_layout ..

end Job

/-! ### A sequence of calls -/

/-- **The calls, one after the other.** -/
def serialiseAll {B : Type} [SerialiseBuffer B] : List (Job P) → EStateM Failure B Unit
  | [] => pure ()
  | j :: js => do
    serialise P j.type j.source j.offset
    serialiseAll js

/-- The bytes that the calls append. -/
def appendedSize : List (Job P) → ℕ
  | [] => 0
  | j :: js => variableSize j.type j.value + appendedSize js

/-- What holds of the marks of every object, given the size of the buffer before the first
call. -/
def Along (p : List Mark → Prop) : List (Job P) → (base : ℕ) → Prop
  | [], _ => True
  | j :: js, base =>
    p (j.object.marks j.offset base) ∧ Along p js (base + variableSize j.type j.value)

/-! ### Objects that stay where they are -/

namespace Job

/-- **The object is in the memory**, with its variable section not among the first `start`
bytes. -/
def Holds (start : ℕ) (mem : List UInt8) (j : Job P) : Prop :=
  ∃ base, start ≤ base ∧ Placed mem j.object j.offset base ∧
    ∀ k ∈ j.object.marks j.offset base, k.Fits

variable {start : ℕ} {mem : List UInt8} {j : Job P}

theorem Holds.append (h : j.Holds start mem) (more : List UInt8) :
    j.Holds start (mem ++ more) := by
  obtain ⟨base, hstart, hp, hfits⟩ := h
  exact ⟨base, hstart, hp.append_mem more, hfits⟩

/-- **Frame**: another object with a fixed section apart leaves it alone. -/
theorem Holds.install (h : j.Holds start mem) {i : Job P} (hi : i.offset + i.type.size ≤ start)
    (hstart : start ≤ mem.length) (hij : i.Apart j) :
    j.Holds start (i.object.install mem i.offset) := by
  obtain ⟨base, hbase, hp, hfits⟩ := h
  have hlen : (i.object.fixed mem.length).length = i.type.size :=
    (i.object.length_fixed _).trans i.fixedSize_object
  refine ⟨base, hbase, (hp.overwrite_mem ?_ ?_ ?_).append_mem _, hfits⟩
  · omega
  · rintro k ⟨hle, hlt, hle', hlt'⟩
    rw [hlen] at hlt
    rw [fixedSize_object] at hlt'
    exact hij k ⟨⟨hle, hlt⟩, hle', hlt'⟩
  · rintro k ⟨-, hlt, hle, -⟩
    omega

/-- An object in the memory is read back as the value that was serialised. -/
theorem Holds.yields (h : j.Holds start mem) (hlen : mem.length < P.sizeRange) :
    ∃ d, deserialise P j.type mem j.offset = .ok d ∧ ∀ v, Yields P j.type d v ↔ v = j.value := by
  obtain ⟨base, -, hp, hfits⟩ := h
  exact deserialise_yields_iff hlen j.wellFormed hp hfits

end Job

variable {B : Type} [SerialiseBuffer B] {I : B → Prop} {limit : ℕ} {throws : Exn → Prop}

/-- **One call**: its object is in the buffer, and so is every object that was, if its fixed
section is apart. -/
theorem holds_serialise (hB : LawfulBuffer P B I limit throws) {j : Job P} {start : ℕ} {b b' : B}
    (hI : I b) (hstart : start ≤ (bytes b).length) (hin : j.offset + j.type.size ≤ start)
    (hlim : (bytes b).length + variableSize j.type j.value < limit)
    (hw : Unwrapped P (j.object.marks j.offset (bytes b).length))
    (hrun : serialise P j.type j.source j.offset b = .ok () b') :
    I b' ∧ (bytes b').length = (bytes b).length + variableSize j.type j.value ∧
      j.Holds start (bytes b') ∧
      ∀ i : Job P, j.Apart i → i.Holds start (bytes b) → i.Holds start (bytes b') := by
  have hpos : j.offset + j.type.size ≤ (bytes b).length := hin.trans hstart
  obtain ⟨hI', hb', -⟩ := (serialise_sat hB j.wellFormed j.source hI hpos hlim).ok hrun
  obtain ⟨hp, hfits, hlen⟩ := placed_of_serialise hB j.wellFormed j.source hI hpos hlim hw hrun
  refine ⟨hI', hlen, ⟨_, hstart, hp, hfits⟩, fun i hij hi => ?_⟩
  rw [hb']
  exact hi.install hin hstart hij

/-- **All calls**, by induction over them: every object is in the buffer in the end, and so is
every object that was before. -/
theorem holds_serialiseAll (hB : LawfulBuffer P B I limit throws) {start : ℕ} :
    ∀ (js : List (Job P)) {b b' : B}, I b → start ≤ (bytes b).length →
      (∀ j ∈ js, j.offset + j.type.size ≤ start) → js.Pairwise Job.Apart →
        (bytes b).length + appendedSize js < limit → Along (Unwrapped P) js (bytes b).length →
          serialiseAll js b = .ok () b' →
            (bytes b').length = (bytes b).length + appendedSize js ∧
              (∀ j ∈ js, j.Holds start (bytes b')) ∧
              ∀ i : Job P, (∀ j ∈ js, j.Apart i) → i.Holds start (bytes b) →
                i.Holds start (bytes b')
  | [], b, b', _, _, _, _, _, _, hrun => by
    obtain rfl : b = b' := (EStateM.Result.ok.inj hrun).2
    exact ⟨rfl, fun j hj => absurd hj List.not_mem_nil, fun i _ hi => hi⟩
  | j :: js, b, b', hI, hstart, hin, hapart, hlim, hw, hrun => by
    obtain ⟨hj, hjs⟩ := List.forall_mem_cons.mp hin
    obtain ⟨hfirst, hrest⟩ := List.pairwise_cons.mp hapart
    obtain ⟨hwj, hwjs⟩ := hw
    rw [appendedSize] at hlim
    cases hrun₁ : serialise P j.type j.source j.offset b with
    | error e b₁ => exact absurd ((bind_error hrun₁).symm.trans hrun) nofun
    | ok a b₁ =>
      have hrun₂ : serialiseAll js b₁ = .ok () b' := (bind_ok hrun₁).symm.trans hrun
      obtain ⟨hI₁, hlen₁, hhere, hframe⟩ :=
        holds_serialise hB hI hstart hj (by omega) hwj hrun₁
      obtain ⟨hlen, hall, hframe'⟩ := holds_serialiseAll hB js hI₁ (by omega) hjs hrest
        (by omega) (hlen₁ ▸ hwjs) hrun₂
      -- the first object is there after the first call, and the others leave it alone
      refine ⟨?_, List.forall_mem_cons.mpr ⟨?_, hall⟩, fun i hi hheld => ?_⟩
      · rw [hlen, hlen₁, appendedSize, Nat.add_assoc]
      · exact hframe' j (fun i hi => (hfirst i hi).symm) hhere
      · obtain ⟨hij, hijs⟩ := List.forall_mem_cons.mp hi
        exact hframe' i hijs (hframe i hij hheld)

/-! ### Reading them all -/

/-- What the calls append does not depend on their order. -/
theorem appendedSize_perm {js js' : List (Job P)} (h : js.Perm js') :
    appendedSize js = appendedSize js' := by
  induction h with
  | nil => rfl
  | cons j _ ih => rw [appendedSize, appendedSize, ih]
  | swap i j js => rw [appendedSize, appendedSize, appendedSize, appendedSize, Nat.add_left_comm]
  | trans _ _ ih ih' => rw [ih, ih']

/-- **Many objects can share one buffer.** If their fixed sections are apart and all within
the initial content, and if every call returns, then each object is read back as its value,
also after more bytes have been appended; and whatever the order of the calls, each object
reads the same. -/
theorem deserialise_serialiseAll (hB : LawfulBuffer P B I limit throws) {js : List (Job P)}
    {b b' : B} (hI : I b) (hin : ∀ j ∈ js, j.offset + j.type.size ≤ (bytes b).length)
    (hapart : js.Pairwise Job.Apart) (hlim : (bytes b).length + appendedSize js < limit)
    (hw : Along (Unwrapped P) js (bytes b).length) (hrun : serialiseAll js b = .ok () b') :
    (∀ more : List UInt8, (bytes b').length + more.length < P.sizeRange → ∀ j ∈ js,
      ∃ d, deserialise P j.type (bytes b' ++ more) j.offset = .ok d ∧
        ∀ v, Yields P j.type d v ↔ v = j.value) ∧
    ∀ js' : List (Job P), js'.Perm js → Along (Unwrapped P) js' (bytes b).length →
      ∀ b'', serialiseAll js' b = .ok () b'' → ∀ j ∈ js,
        ∃ d d', deserialise P j.type (bytes b') j.offset = .ok d ∧
          deserialise P j.type (bytes b'') j.offset = .ok d' ∧
          ∀ v, Yields P j.type d v ↔ Yields P j.type d' v := by
  obtain ⟨hlen, hall, -⟩ := holds_serialiseAll hB js hI le_rfl hin hapart hlim hw hrun
  refine ⟨fun more hmore j hj => ((hall j hj).append more).yields ?_, ?_⟩
  · rwa [List.length_append]
  · intro js' hperm hw' b'' hrun' j hj
    have hlim' : (bytes b).length + appendedSize js' < limit := by
      rwa [appendedSize_perm hperm]
    obtain ⟨hlen', hall', -⟩ := holds_serialiseAll hB js' hI le_rfl
      (fun i hi => hin i (hperm.mem_iff.mp hi))
      (hperm.symm.pairwise hapart fun h => h.symm) hlim' hw' hrun'
    have hle := hB.limit_le
    obtain ⟨d, hd, hv⟩ := (hall j hj).yields (by omega)
    obtain ⟨d', hd', hv'⟩ := (hall' j (hperm.mem_iff.mpr hj)).yields (by omega)
    exact ⟨d, d', hd, hd', fun v => (hv v).trans (hv' v).symm⟩

/-- **On a buffer that never fails, the calls return** if all marks are accepted. -/
theorem serialiseAll_ok (hB : LawfulBuffer P B I limit fun _ => False) {start : ℕ} :
    ∀ (js : List (Job P)) {b : B}, I b → start ≤ (bytes b).length →
      (∀ j ∈ js, j.offset + j.type.size ≤ start) →
        (bytes b).length + appendedSize js < limit → Along (Accepted P) js (bytes b).length →
          ∃ b', serialiseAll js b = .ok () b'
  | [], b, _, _, _, _, _ => ⟨b, rfl⟩
  | j :: js, b, hI, hstart, hin, hlim, hm => by
    obtain ⟨hj, hjs⟩ := List.forall_mem_cons.mp hin
    rw [appendedSize] at hlim
    have hpos : j.offset + j.type.size ≤ (bytes b).length := hj.trans hstart
    have hlim₁ : (bytes b).length + variableSize j.type j.value < limit := by omega
    obtain ⟨b₁, hrun⟩ := serialise_ok hB j.wellFormed j.source hI hpos hlim₁ hm.1
    obtain ⟨hI₁, hb₁, -⟩ := (serialise_sat hB j.wellFormed j.source hI hpos hlim₁).ok hrun
    have hlen : (bytes b₁).length = (bytes b).length + variableSize j.type j.value := by
      rw [hb₁]
      exact Layout.length_install (j.fixedSize_object.symm ▸ hpos)
    obtain ⟨b', hrun'⟩ := serialiseAll_ok hB js hI₁ (by omega) hjs (by omega) (hlen ▸ hm.2)
    exact ⟨b', (bind_ok hrun).trans hrun'⟩

/-- An optional and a dynamic array in a buffer of 16 bytes, in either order. -/
theorem deserialise_serialiseAll_two :
    let i : Job .x64 := ⟨.optional (.scalar .byte), rfl, some (7 : UInt8), 1⟩
    let j : Job .x64 := ⟨.dynamicArray (.scalar .byte), rfl, .range [(9 : UInt8)] (by decide), 8⟩
    let b : RelocatingBuffer := ⟨List.replicate 16 255, id, 0⟩
    ∃ b' b'', serialiseAll [i, j] b = .ok () b' ∧ serialiseAll [j, i] b = .ok () b'' ∧
      ∃ d d', deserialise .x64 j.type (bytes b') j.offset = .ok d ∧
        deserialise .x64 j.type (bytes b'') j.offset = .ok d' ∧
        ∀ v, Yields .x64 j.type d v ↔ Yields .x64 j.type d' v := by
  intro i j b
  have hB := relocatingBuffer_lawful .x64
  have hin : ∀ k ∈ [i, j], k.offset + k.type.size ≤ 16 :=
    List.forall_mem_cons.mpr ⟨by decide, List.forall_mem_singleton.mpr (by decide)⟩
  have hapart : i.Apart j := by
    rintro k ⟨⟨-, hlt⟩, hle, -⟩
    exact absurd (hle.trans_lt hlt) (by decide)
  have hperm : [j, i].Perm [i, j] := .swap i j []
  obtain ⟨b', hrun⟩ : ∃ b', serialiseAll [i, j] b = .ok () b' :=
    serialiseAll_ok hB _ trivial le_rfl hin (by decide) ⟨by decide, by decide, trivial⟩
  obtain ⟨b'', hrun'⟩ : ∃ b'', serialiseAll [j, i] b = .ok () b'' :=
    serialiseAll_ok hB _ trivial le_rfl (fun k hk => hin k (hperm.mem_iff.mp hk)) (by decide)
      ⟨by decide, by decide, trivial⟩
  refine ⟨b', b'', hrun, hrun', ?_⟩
  exact (deserialise_serialiseAll hB trivial hin (List.pairwise_pair.mpr hapart) (by decide)
    ⟨by decide, by decide, trivial⟩ hrun).2 [j, i] hperm ⟨by decide, by decide, trivial⟩ b'' hrun'
    j (by simp)

/-- **One of them is lost at the very end of the address space**: a present optional in a
buffer of 2^64 - 1 bytes is read back as an absent one. -/
theorem deserialise_serialiseAll_at_end :
    let j : Job .x64 := ⟨.optional (.scalar .null), rfl, some (), 0⟩
    let b : RelocatingBuffer := ⟨List.replicate (2 ^ 64 - 1) 0, id, 0⟩
    j.offset + j.type.size ≤ (bytes b).length ∧ (bytes b).length + appendedSize [j] < 2 ^ 64 ∧
      ∃ b', serialiseAll [j] b = .ok () b' ∧
        ¬∃ d, deserialise .x64 j.type (bytes b') j.offset = .ok d ∧
          Yields .x64 j.type d j.value := by
  intro j b
  have hlen : (List.replicate (2 ^ 64 - 1) (0 : UInt8)).length = 2 ^ 64 - 1 :=
    List.length_replicate
  obtain ⟨b', d, hrun, hd, hyields⟩ := @deserialise_serialise_wraps .x64 _
    ((congrArg (· + 1) hlen).trans (by decide)) id 0
  refine ⟨?_, ?_, b', (bind_ok hrun).trans rfl, ?_⟩
  · show 0 + 4 ≤ (List.replicate (2 ^ 64 - 1) (0 : UInt8)).length
    rw [hlen]
    decide
  · show (List.replicate (2 ^ 64 - 1) (0 : UInt8)).length + (0 + 0) < _
    rw [hlen]
    decide
  · rintro ⟨d', hd', hyields'⟩
    obtain rfl := ok_inj hd hd'
    exact absurd ((hyields _).mp hyields') nofun

end SerialisePP
