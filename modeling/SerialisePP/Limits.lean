import SerialisePP.Contract
import SerialisePP.Marks

/-!
# When serialising throws

The exact failure condition of `serialise`, on a buffer that does not fail by itself: it
throws `object_size_error` if and only if some count or some offset of the layout does not fit
in 32 bits (`SerialisePP.Mark.TooBig`), and whatever it stores when it returns is the number
itself (`SerialisePP.serialise_limits_exact`). Absent optionals, empty dynamic arrays and
`variant<>` store no offset, and never throw.

The condition has one exception, which is excluded by `SerialisePP.Unwrapped`: the offset of
an optional is advanced by one before it is checked, and at the very end of the address space
this wraps around, so that a limit is exceeded and nothing is thrown
(`SerialisePP.limits_inexact_at_end`).
-/

namespace SerialisePP

open Effect SerialiseBuffer TwoSection

variable {B : Type} [SerialiseBuffer B] {P : Platform} {I : B → Prop} {limit : ℕ}

/-! ### Throwing exactly when a mark is too big -/

/-- A call that throws `object_size_error`. -/
def ThrowsObjectSizeError (m : EStateM Failure B Unit) (b : B) : Prop :=
  ∃ x b', m b = .error (.thrown x) b' ∧ x.isObjectSizeError = true

/-- **The limits are exact for a call**: it throws `object_size_error` if and only if some
mark is too big, it returns otherwise, and then every mark is stored untruncated. -/
structure LimitsExact (m : EStateM Failure B Unit) (b : B) (marks : List Mark) : Prop where
  throws_iff : ThrowsObjectSizeError m b ↔ ∃ k ∈ marks, k.TooBig
  returns_or_throws : (∃ b', m b = .ok () b') ∨ ThrowsObjectSizeError m b
  stored : ∀ b', m b = .ok () b' → ∀ k ∈ marks, k.Stored (bytes b')

/-- The limits are exact for every call that keeps the contract of `serialise`. -/
theorem limitsExact_of_sat {m : EStateM Failure B Unit} {b : B} {marks : List Mark}
    (hm : Sat m b
      (fun _ b' => Accepted P marks ∧
        ((∀ k ∈ marks, k.Fits) → ∀ k ∈ marks, k.Stored (bytes b')))
      fun e _ => Fails P (fun _ => False) marks e)
    (hv : .valueless ∉ marks) (hw : Unwrapped P marks) : LimitsExact m b marks := by
  have hreturns : ∀ b', m b = .ok () b' → ∀ k ∈ marks, k.Fits := fun b' hrun k hk =>
    Mark.fits_of_failure_eq_none ((hm.ok hrun).1 k hk) (hw k hk)
  have hthrows : ∀ e b', m b = .error e b' →
      ThrowsObjectSizeError m b ∧ ∃ k ∈ marks, k.TooBig := by
    intro e b' hrun
    obtain ⟨x, rfl, hx | ⟨k, hk, hkx⟩⟩ := hm.error hrun
    · exact hx.elim
    · rcases Mark.of_failure_eq_some hkx with ⟨hbig, hx⟩ | ⟨rfl, -⟩
      · exact ⟨⟨x, b', hrun, hx⟩, k, hk, hbig⟩
      · exact absurd hk hv
  refine ⟨⟨?_, ?_⟩, ?_, fun b' hrun => (hm.ok hrun).2 (hreturns b' hrun)⟩
  · rintro ⟨x, b', hrun, -⟩
    exact (hthrows _ b' hrun).2
  · rintro ⟨k, hk, hbig⟩
    cases hrun : m b with
    | ok a b' => exact absurd hbig (hreturns b' hrun k hk).1
    | error e b' => exact (hthrows e b' hrun).1
  · cases hrun : m b with
    | ok a b' => exact .inl ⟨b', rfl⟩
    | error e b' => exact .inr (hthrows e b' hrun).1

/-- **The limits are exact for `serialise(source, buffer, fixed_offset)`.** -/
theorem serialise_limitsExact (hB : LawfulBuffer P B I limit fun _ => False) {t : Ty}
    (ht : t.wellFormed = true) (v : t.Source P) {pos : ℕ} {b : B} (hI : I b)
    (hpos : pos + t.size ≤ (bytes b).length)
    (hlim : (bytes b).length + variableSize t (t.value v) < limit)
    (hv : .valueless ∉ (layout t (t.value v)).marks pos (bytes b).length)
    (hw : Unwrapped P ((layout t (t.value v)).marks pos (bytes b).length)) :
    LimitsExact (serialise P t v pos) b
      ((layout t (t.value v)).marks pos (bytes b).length) := by
  refine limitsExact_of_sat ((serialise_sat hB ht v hI hpos hlim).mono ?_ ?_) hv hw
  · rintro - b' ⟨-, hb', hm⟩
    refine ⟨hm, layout_tells t (t.value v) ht _ pos _ ?_⟩
    rw [hb']
    rw [← fixedSize_layout t (t.value v)] at hpos
    exact placed_install hpos
  · rintro e b' ⟨-, he⟩
    exact he

/-- **The limits are exact for `serialise(source, buffer)`.** -/
theorem serialiseObject_limitsExact (hB : LawfulBuffer P B I limit fun _ => False) {t : Ty}
    (ht : t.wellFormed = true) (v : t.Source P) {b : B} (hI : I b)
    (hlim : t.size + variableSize t (t.value v) < limit)
    (hv : .valueless ∉ (layout t (t.value v)).marks 0 t.size)
    (hw : Unwrapped P ((layout t (t.value v)).marks 0 t.size)) :
    LimitsExact (serialiseObject P t v) b ((layout t (t.value v)).marks 0 t.size) := by
  refine limitsExact_of_sat ((serialiseObject_sat hB ht v hI hlim).mono ?_ ?_) hv hw
  · rintro - b' ⟨-, hb', hm⟩
    refine ⟨hm, layout_tells t (t.value v) ht _ 0 _ ?_⟩
    rw [hb']
    exact placed_object t (t.value v)
  · rintro e b' ⟨-, he⟩
    exact he

/-! ### What is left behind -/

section Placed

variable {throws : Exn → Prop}

/-- What `serialise` leaves behind when it returns: the object, in place, with marks that
fit. -/
theorem placed_of_serialise (hB : LawfulBuffer P B I limit throws) {t : Ty}
    (ht : t.wellFormed = true) (v : t.Source P) {pos : ℕ} {b b' : B} (hI : I b)
    (hpos : pos + t.size ≤ (bytes b).length)
    (hlim : (bytes b).length + variableSize t (t.value v) < limit)
    (hw : Unwrapped P ((layout t (t.value v)).marks pos (bytes b).length))
    (hrun : serialise P t v pos b = .ok () b') :
    Placed (bytes b') (layout t (t.value v)) pos (bytes b).length ∧
      (∀ k ∈ (layout t (t.value v)).marks pos (bytes b).length, k.Fits) ∧
      (bytes b').length = (bytes b).length + variableSize t (t.value v) := by
  obtain ⟨-, hb', hmarks⟩ := (serialise_sat hB ht v hI hpos hlim).ok hrun
  rw [← fixedSize_layout t (t.value v)] at hpos
  rw [hb']
  exact ⟨placed_install hpos, fun k hk => Mark.fits_of_failure_eq_none (hmarks k hk) (hw k hk),
    Layout.length_install hpos⟩

/-- The same for `serialise(source, buffer)`. -/
theorem placed_of_serialiseObject (hB : LawfulBuffer P B I limit throws) {t : Ty}
    (ht : t.wellFormed = true) (v : t.Source P) {b b' : B} (hI : I b)
    (hlim : t.size + variableSize t (t.value v) < limit)
    (hw : Unwrapped P ((layout t (t.value v)).marks 0 t.size))
    (hrun : serialiseObject P t v b = .ok () b') :
    Placed (bytes b') (layout t (t.value v)) 0 t.size ∧
      (∀ k ∈ (layout t (t.value v)).marks 0 t.size, k.Fits) ∧
      (bytes b').length = t.size + variableSize t (t.value v) := by
  obtain ⟨-, hb', hmarks⟩ := (serialiseObject_sat hB ht v hI hlim).ok hrun
  rw [hb']
  refine ⟨placed_object t (t.value v), fun k hk => ?_, ?_⟩
  · exact Mark.fits_of_failure_eq_none (hmarks k hk) (hw k hk)
  · rw [List.length_append, length_fixedData, length_variableData]

end Placed

/-! ### What never throws -/

/-- **The values that store no offset**: absent optionals, empty dynamic arrays and
`variant<>`. -/
def Offsetless : (t : Ty) → t.Value → Prop
  | .optional _, none => True
  | .dynamicArray _, v => v = []
  | .variant .nil, _ => True
  | _, _ => False

/-- Their marks are accepted, wherever they are. -/
theorem Offsetless.accepted {t : Ty} {v : t.Value} (h : Offsetless t v) (pos base : ℕ) :
    Accepted P ((layout t v).marks pos base) ∧ variableSize t v = 0 := by
  cases t with
  | optional t =>
    cases v with
    | none => exact ⟨fun k hk => absurd hk List.not_mem_nil, rfl⟩
    | some v => exact h.elim
  | dynamicArray t =>
    obtain rfl : v = [] := h
    refine ⟨fun k hk => ?_, rfl⟩
    obtain rfl := List.mem_singleton.mp hk
    rfl
  | variant ts =>
    cases ts with
    | nil => exact ⟨fun k hk => absurd hk List.not_mem_nil, rfl⟩
    | cons name t ts => cases v <;> exact h.elim
  | scalar s => exact h.elim
  | staticArray t n => exact h.elim
  | pair a b => exact h.elim
  | tuple ts => exact h.elim
  | record fs bases => exact h.elim

/-- **They never throw**, however many bytes the buffer has. -/
theorem Offsetless.serialise_ok (hB : LawfulBuffer P B I limit fun _ => False) {t : Ty}
    (ht : t.wellFormed = true) (v : t.Source P) (h : Offsetless t (t.value v)) {pos : ℕ} {b : B}
    (hI : I b) (hpos : pos + t.size ≤ (bytes b).length) (hlim : (bytes b).length < limit) :
    ∃ b', serialise P t v pos b = .ok () b' := by
  obtain ⟨haccepted, hsize⟩ := h.accepted pos (bytes b).length
  exact SerialisePP.serialise_ok hB ht v hI hpos (by rwa [hsize]) haccepted

/-! ### The exact condition -/

/-- **The exact failure condition of serialisation.** On a buffer that never fails, and as
long as no value is valueless and no optional has its value at the very end of the address
space: a call throws `object_size_error` if and only if some count or offset of the exact
layout is too big; otherwise it returns, and stores every count and offset untruncated. -/
theorem serialise_limits_exact (hB : LawfulBuffer P B I limit fun _ => False) {t : Ty}
    (ht : t.wellFormed = true) (v : t.Source P) {b : B} (hI : I b) :
    (t.size + variableSize t (t.value v) < limit →
      let marks := (layout t (t.value v)).marks 0 t.size
      .valueless ∉ marks → Unwrapped P marks → LimitsExact (serialiseObject P t v) b marks) ∧
    ∀ pos, pos + t.size ≤ (bytes b).length →
      ((bytes b).length + variableSize t (t.value v) < limit →
        let marks := (layout t (t.value v)).marks pos (bytes b).length
        .valueless ∉ marks → Unwrapped P marks → LimitsExact (serialise P t v pos) b marks) ∧
      (Offsetless t (t.value v) → (bytes b).length < limit →
        ∃ b', serialise P t v pos b = .ok () b') :=
  ⟨serialiseObject_limitsExact hB ht v hI, fun _ hpos =>
    ⟨serialise_limitsExact hB ht v hI hpos, fun h => h.serialise_ok hB ht v hI hpos⟩⟩

/-- The limits of an array of optionals next to a variant. -/
theorem serialise_limits_exact_nested :
    let t : Ty := .pair (.dynamicArray (.optional (.scalar .byte)))
      (.variant (.ofTypes [.scalar .null, .unsigned 2]))
    let v : t.Source .x64 :=
      (.range [some (7 : UInt8), none] (by decide), some (.inr (.inl (513 : Fin (256 ^ 2)))))
    let b : RelocatingBuffer := ⟨[], id, 0⟩
    LimitsExact (serialiseObject .x64 t v) b ((layout t (t.value v)).marks 0 t.size) := by
  intro t v b
  have hB := relocatingBuffer_lawful .x64
  exact (serialise_limits_exact hB (by decide) v trivial).1 (by decide) (by decide) (by decide)

/-! ### At the very end of the address space -/

/-- A present optional of nothing, after an object of a fixed-size type. -/
theorem layout_pair_optional {a : Ty} (ha : a.isFixedSize = true) (x : a.Value) (base : ℕ) :
    let l := layout (.pair a (.optional (.scalar .null))) (x, some ())
    l.marks 0 base = [.optional a.size base] ∧ l.variableSize = 0 := by
  obtain ⟨hsize, hmarks⟩ := layout_flat a x ha
  refine ⟨?_, ?_⟩
  · show (layout a x).marks 0 base ++ [Mark.optional (0 + _) (base + _)] = _
    rw [hmarks, hsize, fixedSize_layout, Nat.zero_add, List.nil_append, Nat.add_zero]
  · show (layout a x).variableSize + 0 = 0
    rw [hsize]

/-- **An offset that wraps around is not refused**: if the fixed section ends at the largest
`std::size_t`, the offset of the optional plus one is 0. It is too big, and nothing is
thrown. -/
theorem limits_inexact_of_size {a : Ty} (ha : a.isFixedSize = true) (hwf : a.wellFormed = true)
    (hsize : a.size + 5 = P.sizeRange) (x : a.Source P) (b : RelocatingBuffer) :
    let t : Ty := .pair a (.optional (.scalar .null))
    let v : t.Source P := (x, some ())
    t.size + variableSize t (t.value v) < P.sizeRange ∧
      (layout t (t.value v)).marks 0 t.size = [.optional a.size (a.size + 4)] ∧
      ¬ThrowsObjectSizeError (serialiseObject P t v) b := by
  intro t v
  obtain ⟨hmarks, hvar⟩ := layout_pair_optional ha (a.value x) (a.size + 4)
  have hlt : t.size + variableSize t (t.value v) < P.sizeRange := by
    have hsum : t.size + variableSize t (t.value v) = a.size + 4 :=
      congrArg (a.size + 4 + ·) hvar
    omega
  refine ⟨hlt, hmarks, ?_⟩
  rintro ⟨e, b', hrun, -⟩
  have ht : t.wellFormed = true := Bool.and_eq_true_iff.mpr ⟨hwf, rfl⟩
  have hB := relocatingBuffer_lawful P
  obtain ⟨-, y, -, hy | ⟨k, hk, hky⟩⟩ := (serialiseObject_sat hB ht v trivial hlt).error hrun
  · exact hy
  · obtain rfl := List.mem_singleton.mp (hmarks ▸ hk)
    -- the offset plus one is one more than the largest `std::size_t`
    have hwrap : P.wrap (a.size + 4 + 1) = 0 := by
      rw [Nat.add_assoc, Platform.wrap, hsize, Nat.mod_self]
    rw [Mark.failure, hwrap, if_neg (Nat.not_lt_zero _)] at hky
    cases hky

/-- **The limits are not exact at the very end of the address space**: an object of 2^64 - 1
bytes, the last of which is an optional of nothing. Its offset is too big, and nothing is
thrown. -/
theorem limits_inexact_at_end :
    let t : Ty := .pair (.staticArray (.scalar .byte) (2 ^ 64 - 5)) (.optional (.scalar .null))
    let v : t.Source .x64 :=
      (⟨List.replicate (2 ^ 64 - 5) (0 : UInt8), List.length_replicate⟩, some ())
    let b : RelocatingBuffer := ⟨[], id, 0⟩
    t.wellFormed = true ∧ t.size + variableSize t (t.value v) < 2 ^ 64 ∧
      .valueless ∉ (layout t (t.value v)).marks 0 t.size ∧
      (∃ k ∈ (layout t (t.value v)).marks 0 t.size, k.TooBig) ∧
      ¬ThrowsObjectSizeError (serialiseObject .x64 t v) b := by
  intro t v b
  obtain ⟨hlt, hmarks, hrun⟩ := limits_inexact_of_size rfl rfl (by decide) v.1 b
  refine ⟨rfl, hlt, ?_, ?_, hrun⟩
  · rw [hmarks]
    decide
  · rw [hmarks]
    exact ⟨_, List.mem_singleton_self _, by decide⟩

end SerialisePP
