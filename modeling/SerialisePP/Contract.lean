import SerialisePP.Refinement
import SerialisePP.SpanPath

/-!
# What `serialise` does

The two halves put together: `serialise` behaves as the plain run does
(`SerialisePP.serialise_eq_plain`), and the plain run writes the layout
(`SerialisePP.serialiser_writes`). The contracts of the two overloads of `serialise` are all
that the results about it need.
-/

namespace SerialisePP

open Effect Region SerialiseBuffer TwoSection

variable {B : Type} [SerialiseBuffer B] {P : Platform} {I : B → Prop} {limit : ℕ}
  {throws : Exn → Prop}

omit [SerialiseBuffer B] in
/-- A run, as the caller of `serialise` sees it. -/
theorem sat_call {α : Type} {m : M B α} {b : B} {Q : α → B → Prop} {E : Failure → B → Prop}
    (h : Sat m (World.start b) (fun a w => Q a w.buffer) fun e w => E e w.buffer) :
    Sat (call m) b Q E := by
  unfold Sat at h ⊢
  unfold call
  cases hm : m (World.start b) <;> rw [hm] at h <;> exact h

/-- **The contract of `serialise(source, buffer, fixed_offset)`**: with the fixed section of
the value inside the buffer and the whole below the limit, it writes the layout of the value,
all of whose marks are then accepted; or it throws the exception of a mark or of the
buffer. -/
theorem serialise_sat (hB : LawfulBuffer P B I limit throws) {t : Ty} (ht : t.wellFormed = true)
    (v : t.Source P) {pos : ℕ} {b : B} (hI : I b) (hpos : pos + t.size ≤ (bytes b).length)
    (hlim : (bytes b).length + variableSize t (t.value v) < limit) :
    Sat (serialise P t v pos) b
      (fun _ b' => I b' ∧ bytes b' = (layout t (t.value v)).install (bytes b) pos ∧
        Accepted P ((layout t (t.value v)).marks pos (bytes b).length))
      fun e b' => I b' ∧ Fails P throws ((layout t (t.value v)).marks pos (bytes b).length) e := by
  rw [serialise_eq_plain hB.toSpanLaws]
  refine sat_call ?_
  rw [← fixedSize_layout t (t.value v)] at hpos
  exact (serialiser_writes hB t v pos ht).serialiseWith t (World.start b) hI hpos hlim

/-- **The contract of `serialise(source, buffer)`**: what the buffer held before plays no
part. -/
theorem serialiseObject_sat (hB : LawfulBuffer P B I limit throws) {t : Ty}
    (ht : t.wellFormed = true) (v : t.Source P) {b : B} (hI : I b)
    (hlim : t.size + variableSize t (t.value v) < limit) :
    Sat (serialiseObject P t v) b
      (fun _ b' => I b' ∧
        bytes b' = fixedData t (t.value v) t.size ++ variableData t (t.value v) t.size ∧
        Accepted P ((layout t (t.value v)).marks 0 t.size))
      fun e b' => I b' ∧ Fails P throws ((layout t (t.value v)).marks 0 t.size) e := by
  have hsize : fixedDataSize P t = t.size :=
    fixedDataSize_of_lt ((Nat.lt_of_add_right_lt hlim).trans_le hB.limit_le)
  rw [serialiseObject, sat_bind, hsize]
  refine (hB.initialise_sat b t.size hI (Nat.lt_of_add_right_lt hlim)).mono ?_ ?_
  · rintro - b₁ ⟨hI₁, hlen₁⟩
    have hsat := serialise_sat hB ht v hI₁ (by rw [hlen₁, Nat.zero_add]) (by rwa [hlen₁])
    rw [hlen₁] at hsat
    refine hsat.mono ?_ fun _ _ h => h
    rintro - b₂ ⟨hI₂, hb₂, hm⟩
    refine ⟨hI₂, ?_, hm⟩
    -- the fixed section is as long as the buffer, and leaves none of its old bytes
    have hall : ((layout t (t.value v)).fixed t.size).length = (bytes b₁).length :=
      (length_fixedData t (t.value v) t.size).trans hlen₁.symm
    rw [hb₂, Layout.install, hlen₁, overwrite_all hall]
    rfl
  · rintro e b₁ ⟨hI₁, x, rfl, hx⟩
    exact ⟨hI₁, x, rfl, .inl hx⟩

/-- What `serialise(source, buffer)` leaves is the object, at offset 0. -/
theorem placed_object (t : Ty) (v : t.Value) :
    Placed (fixedData t v t.size ++ variableData t v t.size) (layout t v) 0 t.size := by
  have hzero : (List.replicate t.size (0 : UInt8)).length = (layout t v).fixedSize := by
    rw [List.length_replicate, fixedSize_layout]
  have hp := @placed_install _ _ (List.replicate t.size 0) (layout t v) 0
    (by rw [hzero, Nat.zero_add])
  rw [← List.nil_append (List.replicate t.size 0), ← @List.length_nil UInt8,
    Layout.install_tail hzero, List.nil_append, List.nil_append, List.length_nil, Nat.zero_add,
    hzero, fixedSize_layout] at hp
  exact hp

/-- **On a buffer that never fails, `serialise` returns** if the marks of the layout are all
accepted. -/
theorem serialise_ok (hB : LawfulBuffer P B I limit fun _ => False) {t : Ty}
    (ht : t.wellFormed = true) (v : t.Source P) {pos : ℕ} {b : B} (hI : I b)
    (hpos : pos + t.size ≤ (bytes b).length)
    (hlim : (bytes b).length + variableSize t (t.value v) < limit)
    (hm : Accepted P ((layout t (t.value v)).marks pos (bytes b).length)) :
    ∃ b', serialise P t v pos b = .ok () b' := by
  obtain ⟨⟨⟩, b', hrun, -⟩ := (serialise_sat hB ht v hI hpos hlim).exists_ok (by
    rintro e b' ⟨-, x, -, hx | ⟨k, hk, hkx⟩⟩
    · exact hx
    · exact absurd ((hm k hk).symm.trans hkx) nofun)
  exact ⟨b', hrun⟩

/-- The same for `serialise(source, buffer)`, with what it leaves. -/
theorem serialiseObject_ok (hB : LawfulBuffer P B I limit fun _ => False) {t : Ty}
    (ht : t.wellFormed = true) (v : t.Source P) {b : B} (hI : I b)
    (hlim : t.size + variableSize t (t.value v) < limit)
    (hm : Accepted P ((layout t (t.value v)).marks 0 t.size)) :
    ∃ b', serialiseObject P t v b = .ok () b' ∧
      bytes b' = fixedData t (t.value v) t.size ++ variableData t (t.value v) t.size := by
  obtain ⟨⟨⟩, b', hrun, -, hb', -⟩ := (serialiseObject_sat hB ht v hI hlim).exists_ok (by
    rintro e b' ⟨-, x, -, hx | ⟨k, hk, hkx⟩⟩
    · exact hx
    · exact absurd ((hm k hk).symm.trans hkx) nofun)
  exact ⟨b', hrun, hb'⟩

/-- **The imperative serialiser refines the layout.** If `serialise` returns, the buffer is
the old one with the fixed section of the value in place and its variable section appended,
and nothing else in it has changed; at the root it is the two sections and nothing else. -/
theorem serialise_refines_layout (hB : LawfulBuffer P B I limit throws) {t : Ty}
    (ht : t.wellFormed = true) (v : t.Source P) {b b' : B} (hI : I b) :
    (∀ pos, pos + t.size ≤ (bytes b).length →
      (bytes b).length + variableSize t (t.value v) < limit →
      serialise P t v pos b = .ok () b' →
        let base := (bytes b).length
        bytes b' = (bytes b).take pos ++ fixedData t (t.value v) base ++
            (bytes b).drop (pos + t.size) ++ variableData t (t.value v) base ∧
          (fixedData t (t.value v) base).length = t.size ∧
          (variableData t (t.value v) base).length = variableSize t (t.value v)) ∧
      (t.size + variableSize t (t.value v) < limit → serialiseObject P t v b = .ok () b' →
        bytes b' = fixedData t (t.value v) t.size ++ variableData t (t.value v) t.size) := by
  refine ⟨fun pos hpos hlim hrun => ?_, fun hlim hrun => ?_⟩
  · intro base
    have hlen := length_fixedData t (t.value v) base
    refine ⟨?_, hlen, length_variableData ..⟩
    obtain ⟨-, hb', -⟩ := (serialise_sat hB ht v hI hpos hlim).ok hrun
    rw [hb', ← hlen]
    rfl
  · obtain ⟨-, hb', -⟩ := (serialiseObject_sat hB ht v hI hlim).ok hrun
    exact hb'

/-- An array of optionals next to a variant, at offset 1 of a buffer that has other data in
it. -/
theorem serialise_refines_layout_nested :
    let t : Ty := .pair (.dynamicArray (.optional (.scalar .byte)))
      (.variant (.ofTypes [.scalar .null, .unsigned 2]))
    let v : t.Source .x64 :=
      (.range [some (7 : UInt8), none] (by decide), some (.inr (.inl (513 : Fin (256 ^ 2)))))
    let b : RelocatingBuffer := ⟨List.replicate 16 255, id, 0⟩
    ∃ b', serialise .x64 t v 1 b = .ok () b' ∧ bytes b' =
      [255] ++ [2, 0, 0, 0, 16, 0, 0, 0, 1, 0, 25, 0, 0, 0] ++ [255] ++
        [25, 0, 0, 0, 0, 0, 0, 0, 7, 1, 2] := by
  intro t v b
  have hB := relocatingBuffer_lawful .x64
  obtain ⟨b', hrun⟩ : ∃ b', serialise .x64 t v 1 b = .ok () b' :=
    serialise_ok hB (by decide) v trivial (by decide) (by decide) (by decide)
  refine ⟨b', hrun, ?_⟩
  have h := (serialise_refines_layout hB (by decide) v trivial).1 1 (by decide) (by decide) hrun
  rw [h.1]
  decide

end SerialisePP
