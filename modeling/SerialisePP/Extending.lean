import SerialisePP.Contract

/-!
# Buffers that are only extended

`serialise(source, buffer, fixed_offset)` resizes the buffer with `extend` alone: whatever the
buffer's `initialise` does, the run is the same (`SerialisePP.serialise_withInitialise`). So a
property of the buffer that `extend` and writing keep is kept by all of `serialise`, also if
`initialise` would not keep it, as is the case for how often a buffer has grown since the
beginning of the call (`SerialisePP.ExtendingBuffer.serialise_sat`).
-/

namespace SerialisePP

open Effect SerialiseBuffer TwoSection

variable {B : Type} [buffer : SerialiseBuffer B] {P : Platform}

/-! ### Another `initialise` -/

/-- **The same buffer with another `initialise`.** -/
abbrev SerialiseBuffer.withInitialise (buffer : SerialiseBuffer B)
    (initialise : ℕ → EStateM Failure B Span) : SerialiseBuffer B :=
  { buffer with initialise := initialise }

section WithInitialise

variable (initialise : ℕ → EStateM Failure B Span) (path : Path)

theorem serialiseEach_withInitialise (t : Ty) (ss : List (BufferArg → ℕ → M B Unit))
    (b : BufferArg) (pos : ℕ) :
    @serialiseEach B (buffer.withInitialise initialise) P path t ss b pos =
      serialiseEach P path t ss b pos := by
  induction ss generalizing pos with
  | nil => rfl
  | cons s ss ih =>
    simp only [serialiseEach, ih]
    rfl

theorem visitRange_withInitialise (t : Ty) (ss : List (BufferArg → ℕ → M B Unit))
    (b : BufferArg) : @visitRange B (buffer.withInitialise initialise) P path t ss b =
      visitRange P path t ss b := by
  simp only [visitRange, serialiseEach_withInitialise]
  rfl

theorem serialiseElements_withInitialise (t : Ty)
    (source : ArraySource P (BufferArg → ℕ → M B Unit)) (b : BufferArg) :
    @serialiseElements B (buffer.withInitialise initialise) P path t source b =
      serialiseElements P path t source b := by
  have hvisit : @visitSource B (buffer.withInitialise initialise) P path t source =
      visitSource P path t source := by
    funext b
    cases source <;> simp only [visitSource, visitRange_withInitialise]
  cases path <;> cases b
  case spans.direct =>
    simp only [serialiseElements, hvisit]
    rfl
  all_goals simp only [serialiseElements, hvisit]

mutual

/-- No serialiser calls `initialise`: by induction over the types. -/
theorem serialiser_withInitialise : ∀ (t : Ty) (v : t.Source P),
    @serialiser B (buffer.withInitialise initialise) P path t v = serialiser P path t v
  | .scalar s, v => by cases s <;> rfl
  | .staticArray t n, v => by
    funext b pos
    simp only [serialiser, funext (serialiser_withInitialise t), serialiseEach_withInitialise]
  | .dynamicArray t, v => by
    funext b pos
    simp only [serialiser, serialiseDynamicArray, funext (serialiser_withInitialise t),
      serialiseElements_withInitialise]
    rfl
  | .pair a c, v => by
    funext b pos
    simp only [serialiser, serialiser_withInitialise a, serialiser_withInitialise c]
    rfl
  | .tuple ts, v => serialiseFields_withInitialise ts v
  | .optional t, none => rfl
  | .optional t, some v => by
    funext b pos
    simp only [serialiser, serialiser_withInitialise t]
    rfl
  | .variant .nil, _ => rfl
  | .variant (.cons _ _ _), none => rfl
  | .variant (.cons name t ts), some v => by
    funext b pos
    simp only [serialiser, serialiseAlternative_withInitialise (.cons name t ts)]
    rfl
  | .record fs _, v => serialiseFields_withInitialise fs v

theorem serialiseFields_withInitialise : ∀ (ts : TypeList) (v : ts.Data (ArraySource P)),
    @serialiseFields B (buffer.withInitialise initialise) P path ts v = serialiseFields P path ts v
  | .nil, _ => rfl
  | .cons _ t ts, v => by
    funext b pos
    simp only [serialiseFields, serialiser_withInitialise t, serialiseFields_withInitialise ts]
    rfl

theorem serialiseAlternative_withInitialise : ∀ (ts : TypeList)
    (v : ts.Alternative (ArraySource P)),
    @serialiseAlternative B (buffer.withInitialise initialise) P path ts v =
      serialiseAlternative P path ts v
  | .nil, v => nomatch v
  | .cons _ t _, .inl v => by
    funext b
    simp only [serialiseAlternative, serialiser_withInitialise t]
    rfl
  | .cons _ _ ts, .inr v => serialiseAlternative_withInitialise ts v

end

/-- **`serialise` at an offset never initialises the buffer.** -/
theorem serialise_withInitialise (t : Ty) (v : t.Source P) (pos : ℕ) :
    @serialise B (buffer.withInitialise initialise) P t v pos = serialise P t v pos := by
  simp only [serialise, serialiseRun, serialiser_withInitialise]
  rfl

end WithInitialise

/-! ### What extending keeps -/

/-- **The contract of a buffer that is only extended**: that of a `serialise_buffer`, without
what `initialise` promises. -/
structure ExtendingBuffer (P : Platform) (B : Type) [SerialiseBuffer B] (I : B → Prop)
    (limit : ℕ) (throws : Exn → Prop) : Prop extends SpanLaws B where
  limit_le : limit ≤ P.sizeRange
  extend_sat : ∀ (b : B) (count : ℕ), I b → (bytes b).length + count < limit →
    Sat (extend count) b
      (fun _ b' => I b' ∧ ∃ more : List UInt8, more.length = count ∧ bytes b' = bytes b ++ more)
      fun e b' => I b' ∧ ∃ x, e = .thrown x ∧ throws x
  store_eq : ∀ (b : B) (offset : ℕ) (xs : List UInt8), I b →
    offset + xs.length ≤ (bytes b).length →
    I (store offset xs b) ∧ bytes (store offset xs b) = Region.overwrite (bytes b) offset xs

variable {I : B → Prop} {limit : ℕ} {throws : Exn → Prop}

/-- With an `initialise` that always throws, it is the contract of a `serialise_buffer`. -/
theorem ExtendingBuffer.lawful (hB : ExtendingBuffer P B I limit throws) (y : Exn) :
    @LawfulBuffer P B (buffer.withInitialise fun _ => throw (.thrown y)) I limit
      fun x => throws x ∨ x = y :=
  @LawfulBuffer.mk P B (buffer.withInitialise _) I limit _
    (@SpanLaws.mk B (buffer.withInitialise _) hB.extend_span hB.store_span) hB.limit_le
    (fun b count hI hlim => (hB.extend_sat b count hI hlim).mono (fun _ _ h => h)
      fun _ _ ⟨hI', x, he, hx⟩ => ⟨hI', x, he, .inl hx⟩)
    (fun _ _ hI _ => ⟨hI, y, rfl, .inr rfl⟩) hB.store_eq

/-- What one `initialise` throws and another does not, is thrown by neither. -/
theorem Fails.of_other {marks : List Mark} {e : Failure} {x y : Exn} (hne : x ≠ y)
    (hx : Fails P (fun z => throws z ∨ z = x) marks e)
    (hy : Fails P (fun z => throws z ∨ z = y) marks e) : Fails P throws marks e := by
  obtain ⟨z, rfl, (hz | rfl) | hz⟩ := hx
  · exact ⟨z, rfl, .inl hz⟩
  · obtain ⟨z', hz', (hthrows | rfl) | hmark⟩ := hy
    · exact ⟨z', hz', .inl hthrows⟩
    · exact absurd (Failure.thrown.inj hz') hne
    · exact ⟨z', hz', .inr hmark⟩
  · exact ⟨z, rfl, .inr hz⟩

/-- **The contract of `serialise(source, buffer, fixed_offset)`** on a buffer that is only
extended: what extending and writing keep is kept, the layout is written if it returns, and it
throws what `extend` throws or the exception of a mark. -/
theorem ExtendingBuffer.serialise_sat (hB : ExtendingBuffer P B I limit throws) {t : Ty}
    (ht : t.wellFormed = true) (v : t.Source P) {pos : ℕ} {b : B} (hI : I b)
    (hpos : pos + t.size ≤ (bytes b).length)
    (hlim : (bytes b).length + variableSize t (t.value v) < limit) :
    Sat (serialise P t v pos) b
      (fun _ b' => I b' ∧ bytes b' = (layout t (t.value v)).install (bytes b) pos ∧
        Accepted P ((layout t (t.value v)).marks pos (bytes b).length))
      fun e b' => I b' ∧ Fails P throws ((layout t (t.value v)).marks pos (bytes b).length) e := by
  have hsat : ∀ y, Sat (serialise P t v pos) b _ _ := fun y => by
    have := @SerialisePP.serialise_sat B (buffer.withInitialise _) P I limit _ (hB.lawful y) t ht v
      pos b hI hpos hlim
    rwa [serialise_withInitialise] at this
  -- whatever `initialise` would throw, it is not thrown, so it is not thrown by `serialise`
  refine ((hsat (.other 0)).and (hsat (.other 1))).mono (fun _ _ h => h.1) ?_
  rintro e b' ⟨⟨hI', h₀⟩, -, h₁⟩
  exact ⟨hI', h₀.of_other (by decide) h₁⟩

/-- **The contract of `serialise(source, buffer)`** on such a buffer, if its `initialise` does its
part this once. -/
theorem ExtendingBuffer.serialiseObject_sat (hB : ExtendingBuffer P B I limit throws) {t : Ty}
    (ht : t.wellFormed = true) (v : t.Source P) {b : B}
    (hinitialise : Sat (initialise t.size) b (fun _ b' => I b' ∧ (bytes b').length = t.size)
      fun e b' => I b' ∧ ∃ x, e = .thrown x ∧ throws x)
    (hlim : t.size + variableSize t (t.value v) < limit) :
    Sat (serialiseObject P t v) b
      (fun _ b' => I b' ∧
        bytes b' = fixedData t (t.value v) t.size ++ variableData t (t.value v) t.size ∧
        Accepted P ((layout t (t.value v)).marks 0 t.size))
      fun e b' => I b' ∧ Fails P throws ((layout t (t.value v)).marks 0 t.size) e := by
  have hsize : fixedDataSize P t = t.size :=
    fixedDataSize_of_lt ((Nat.lt_of_add_right_lt hlim).trans_le hB.limit_le)
  rw [serialiseObject, sat_bind, hsize]
  refine hinitialise.mono ?_ ?_
  · rintro - b₁ ⟨hI₁, hlen₁⟩
    have hsat := hB.serialise_sat ht v hI₁ (by rw [hlen₁, Nat.zero_add]) (by rwa [hlen₁])
    rw [hlen₁] at hsat
    refine hsat.mono ?_ fun _ _ h => h
    rintro - b₂ ⟨hI₂, hb₂, hm⟩
    have hall : ((layout t (t.value v)).fixed t.size).length = (bytes b₁).length :=
      (length_fixedData t (t.value v) t.size).trans hlen₁.symm
    refine ⟨hI₂, ?_, hm⟩
    rw [hb₂, Layout.install, hlen₁, Region.overwrite_all hall]
    rfl
  · rintro e b₁ ⟨hI₁, x, rfl, hx⟩
    exact ⟨hI₁, x, rfl, .inl hx⟩

end SerialisePP
