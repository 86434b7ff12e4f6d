import SerialisePP.Serialiser

/-!
# Spans and wrappers are sound

A span is taken early and used late, and the wrapper hands out a copy of the buffer's span
while the elements of a dynamic array extend the buffer. Neither is ever out of date when it
is used, for any type, any value and any way the buffer moves when it is extended.

There are two inductions over the types. `SerialisePP.serialiser_keeps`: the serialiser of a
fixed-size type, whatever it is handed, leaves the buffer's span and the wrapper's as they
are, since it never extends the buffer. `SerialisePP.serialiser_agrees`: the serialisers on
spans and wrappers run in lock step with the plain ones, on equal buffers, and every use of a
span on the way is recorded as fresh. The results of the two are then equal
(`SerialisePP.serialise_eq_plain`), so that everything else can be proved about the plain
ones.
-/

namespace SerialisePP

open Effect SerialiseBuffer

variable {B : Type} [SerialiseBuffer B] {P : Platform} {path : Path} {α β : Type}

/-! ### Fixed-size serialisers keep the spans -/

/-- A state with given spans of the buffer and of the wrapper. -/
def Still (c k : View) (w : World B) : Prop := w.current = c ∧ w.kept = k

/-- **A program that keeps the spans**: it does not resize the buffer, and makes no
wrapper. -/
def Keeps (m : M B α) : Prop := ∀ c k, Invariant (Still c k) m

theorem keeps_pure (a : α) : Keeps (pure a : M B α) := fun _ _ => invariant_pure a

theorem keeps_throw (e : Failure) : Keeps (throw e : M B α) := fun _ _ => invariant_throw e

theorem Keeps.bind {m : M B β} {f : β → M B α} (hm : Keeps m) (hf : ∀ b, Keeps (f b)) :
    Keeps (m >>= f) := fun c k => (hm c k).bind fun b => hf b c k

theorem keeps_getSpan (buffer : BufferArg) : @Keeps B _ _ buffer.getSpan := by
  intro c k w hw
  cases buffer with
  | direct => exact hw
  | wrapper => exact hw
  | span view => exact hw

theorem keeps_assert (c : Bool) : @Keeps B _ _ (assert P c) := by
  unfold assert
  split_ifs
  · exact keeps_throw _
  · exact keeps_pure _

theorem keeps_write (hB : SpanLaws B) (view : View) (offset : ℕ) (xs : List UInt8) :
    @Keeps B _ _ (write view offset xs) := by
  intro c k w hw
  rw [write, sat_bind, sat_modify, sat_bind, sat_get]
  split_ifs with h
  · rw [sat_modify]
    refine ⟨?_, hw.2⟩
    have hin : offset + xs.length ≤ (bytes w.buffer).length := h.2.trans h.1.2
    have hspan := hB.store_span w.buffer offset xs hin
    exact (congrArg (fun s => (⟨s, w.epoch⟩ : View)) hspan).trans hw.1
  · exact hw

theorem Keeps.pushFixedSubobject {t : Ty} {pos : ℕ} {func : ℕ → M B Unit}
    (h : ∀ pos, Keeps (func pos)) : Keeps (pushFixedSubobject P t pos func) :=
  (h pos).bind fun _ => keeps_pure _

theorem Keeps.withBufferFor {fixedSize : Bool} {buffer : BufferArg} {func : BufferArg → M B Unit}
    (h : ∀ buffer, Keeps (func buffer)) : Keeps (withBufferFor path fixedSize buffer func) := by
  cases path with
  | plain => exact h buffer
  | spans =>
    cases fixedSize with
    | false => exact h buffer
    | true => exact (keeps_getSpan buffer).bind fun view => h (.span view)

theorem Keeps.serialiseWith {t : Ty} {s : BufferArg → ℕ → M B Unit}
    (h : ∀ buffer pos, Keeps (s buffer pos)) (buffer : BufferArg) (pos : ℕ) :
    Keeps (serialiseWith P path t s buffer pos) := by
  refine Keeps.withBufferFor fun buffer => Keeps.bind ?_ fun _ => h buffer pos
  unfold assertOffset
  split_ifs
  · exact (keeps_getSpan buffer).bind fun view => keeps_assert _
  · exact keeps_pure _

theorem keeps_serialiseBytes (hB : SpanLaws B) (xs : List UInt8) (buffer : BufferArg) (pos : ℕ) :
    @Keeps B _ _ (serialiseBytes xs buffer pos) :=
  (keeps_getSpan buffer).bind fun view => keeps_write hB view pos xs

theorem keeps_serialiseUnsigned (hB : SpanLaws B) (n value : ℕ) (buffer : BufferArg) (pos : ℕ) :
    @Keeps B _ _ (serialiseUnsigned P path n value buffer pos) :=
  Keeps.serialiseWith (keeps_serialiseBytes hB _) buffer pos

theorem scalarSerialiser_keeps (hB : SpanLaws B) (s : Scalar) (v : s.Value) (buffer : BufferArg)
    (pos : ℕ) : @Keeps B _ _ (scalarSerialiser P path s v buffer pos) := by
  have has : ∀ (t : Ty) (xs : List UInt8),
      @Keeps B _ _ (serialiseAs P path t xs buffer pos) := fun t xs =>
    (keeps_getSpan buffer).bind fun view =>
      Keeps.serialiseWith (keeps_serialiseBytes hB xs) (.span view) pos
  cases s with
  | null => exact keeps_pure ()
  | byte => exact keeps_serialiseBytes hB _ buffer pos
  | bool => exact has _ _
  | unsigned n => exact keeps_serialiseBytes hB _ buffer pos
  | signed n => exact has _ _
  | float => exact has _ _
  | double => exact has _ _

theorem keeps_serialiseEach {t : Ty} {ss : List (BufferArg → ℕ → M B Unit)}
    (h : ∀ s ∈ ss, ∀ buffer pos, Keeps (s buffer pos)) (buffer : BufferArg) (pos : ℕ) :
    Keeps (serialiseEach P path t ss buffer pos) := by
  induction ss generalizing pos with
  | nil => exact keeps_pure pos
  | cons s ss ih =>
    refine Keeps.bind ?_ fun pos => ih (fun s' hs' => h s' (List.mem_cons_of_mem s hs')) pos
    exact Keeps.pushFixedSubobject (Keeps.serialiseWith (h s (List.mem_cons_self ..)) buffer)

mutual

/-- **The serialiser of a fixed-size type never extends the buffer**, whatever it is
handed. -/
theorem serialiser_keeps (hB : SpanLaws B) : ∀ (t : Ty) (v : t.Source P) (buffer : BufferArg)
    (pos : ℕ), t.isFixedSize = true → @Keeps B _ _ (serialiser P path t v buffer pos)
  | .scalar s, v, buffer, pos, _ => scalarSerialiser_keeps hB s v buffer pos
  | .staticArray t n, v, buffer, pos, h => by
    refine Keeps.bind (keeps_serialiseEach ?_ buffer pos) fun _ => keeps_pure ()
    intro s hs buffer pos
    obtain ⟨x, hx, rfl⟩ := List.mem_map.mp hs
    rcases Bool.or_eq_true_iff.mp h with ht | hn
    · exact serialiser_keeps hB t x buffer pos ht
    · -- there are no elements
      have hnil : v.1 = [] := List.eq_nil_of_length_eq_zero (v.2.trans (beq_iff_eq.mp hn))
      rw [hnil] at hx
      exact absurd hx List.not_mem_nil
  | .dynamicArray _, _, _, _, h => absurd h Bool.false_ne_true
  | .pair a b, v, buffer, pos, h => by
    obtain ⟨ha, hb⟩ := Bool.and_eq_true_iff.mp h
    refine Keeps.bind (Keeps.pushFixedSubobject (Keeps.serialiseWith
      (fun buffer pos => serialiser_keeps hB a v.1 buffer pos ha) buffer)) fun pos => ?_
    exact Keeps.bind (Keeps.pushFixedSubobject (Keeps.serialiseWith
      (fun buffer pos => serialiser_keeps hB b v.2 buffer pos hb) buffer)) fun _ => keeps_pure ()
  | .tuple ts, v, buffer, pos, h => serialiseFields_keeps hB ts v buffer pos h
  | .optional _, _, _, _, h => absurd h Bool.false_ne_true
  | .variant .nil, _, buffer, pos, _ => by
    refine Keeps.bind (Keeps.pushFixedSubobject (keeps_serialiseUnsigned hB 2 0 buffer))
      fun pos => ?_
    exact Keeps.bind (Keeps.pushFixedSubobject (keeps_serialiseUnsigned hB 4 0 buffer))
      fun _ => keeps_pure ()
  | .variant (.cons _ _ _), _, _, _, h => absurd h (by simp [Ty.isFixedSize, TypeList.length])
  | .record fs _, v, buffer, pos, h => serialiseFields_keeps hB fs v buffer pos h

/-- The serialisers of a list of fixed-size types, likewise. -/
theorem serialiseFields_keeps (hB : SpanLaws B) : ∀ (ts : TypeList)
    (v : ts.Data (ArraySource P)) (buffer : BufferArg) (pos : ℕ), ts.isFixedSize = true →
      @Keeps B _ _ (serialiseFields P path ts v buffer pos)
  | .nil, _, _, _, _ => keeps_pure ()
  | .cons _ t ts, v, buffer, pos, h => by
    obtain ⟨ht, hts⟩ := Bool.and_eq_true_iff.mp h
    refine Keeps.bind (Keeps.pushFixedSubobject (Keeps.serialiseWith
      (fun buffer pos => serialiser_keeps hB t v.1 buffer pos ht) buffer)) fun pos => ?_
    exact serialiseFields_keeps hB ts v.2 buffer pos hts

end

/-! ### Two runs in lock step -/

/-- **What a serialiser may be handed** for a type: `buffer_for<B, T>`. A span is only for
fixed-size types. -/
def BufferArg.isFor (fixedSize : Bool) : BufferArg → Prop
  | .direct => True
  | .wrapper => True
  | .span _ => fixedSize = true

/-- A handle that is up to date: the span, or the wrapper's span, is the buffer's. -/
def BufferArg.Current (w : World B) : BufferArg → Prop
  | .direct => True
  | .wrapper => w.kept = w.current
  | .span view => view = w.current

/-- A run with spans next to a plain one: the buffers are equal, and all spans used so far
were fresh. -/
structure Beside (s t : World B) : Prop where
  buffer_eq : s.buffer = t.buffer
  fresh : ∀ a ∈ s.trace, a.Fresh

/-- The two runs between operations: what the one with spans was handed is up to date. -/
structure InStep (buffer : BufferArg) (s t : World B) : Prop extends Beside s t where
  epoch_eq : s.epoch = t.epoch
  current : buffer.Current s

/-- **Lock step**: from states in step, the two programs end in states in step. -/
def Agrees (buffer : BufferArg) (m n : M B α) : Prop :=
  ∀ s t, InStep buffer s t → Sim m n s t (fun _ s' t' => InStep buffer s' t')
    fun _ s' t' => Beside s' t'

theorem InStep.current_eq {buffer : BufferArg} {s t : World B} (h : InStep buffer s t) :
    s.current = t.current := by
  rw [World.current, World.current, h.buffer_eq, h.epoch_eq]

theorem agrees_pure {buffer : BufferArg} (a : α) :
    Agrees buffer (pure a : M B α) (pure a) := fun _ _ h => sim_pure a h

theorem agrees_throw {buffer : BufferArg} (e : Failure) :
    Agrees buffer (throw e : M B α) (throw e) := fun _ _ h => sim_throw e h.toBeside

theorem Agrees.bind {buffer : BufferArg} {m n : M B β} {f g : β → M B α} (h : Agrees buffer m n)
    (hfg : ∀ b, Agrees buffer (f b) (g b)) : Agrees buffer (m >>= f) (n >>= g) := fun s t hst =>
  (h s t hst).bind fun b s' t' => hfg b s' t'

/-! ### The operations on the buffer -/

/-- **Asking for the span**: both runs get the same one, and it is the buffer's. -/
theorem sim_getSpan {buffer : BufferArg} {s t : World B} (h : InStep buffer s t) :
    Sim buffer.getSpan BufferArg.direct.getSpan s t
      (fun view s' t' => view = s'.current ∧ InStep buffer s' t') fun _ s' t' => Beside s' t' := by
  cases buffer with
  | direct => exact ⟨h.current_eq, rfl, h⟩
  | wrapper =>
    -- the wrapper's span is recorded as asked for
    have hkept : s.kept = s.current := h.current
    refine ⟨hkept.trans h.current_eq, hkept, ⟨h.buffer_eq, ?_⟩, h.epoch_eq, hkept⟩
    exact List.forall_mem_cons.mpr ⟨hkept, h.fresh⟩
  | span view =>
    have hview : view = s.current := h.current
    exact ⟨hview.trans h.current_eq, hview, h⟩

/-- A program that asks for the span first. -/
theorem agrees_getSpan {buffer : BufferArg} {f g : View → M B α}
    (h : ∀ s t, InStep buffer s t → Sim (f s.current) (g s.current) s t
      (fun _ s' t' => InStep buffer s' t') fun _ s' t' => Beside s' t') :
    Agrees buffer (buffer.getSpan >>= f) (BufferArg.direct.getSpan >>= g) := by
  intro s t hst
  refine (sim_getSpan hst).bind ?_
  rintro _ s' t' ⟨rfl, hst'⟩
  exact h s' t' hst'

/-- **Writing through the buffer's span** keeps whatever the run was handed up to date. -/
theorem sim_write (hB : SpanLaws B) {buffer : BufferArg} {s t : World B} (h : InStep buffer s t)
    (offset : ℕ) (xs : List UInt8) :
    Sim (write s.current offset xs) (write s.current offset xs) s t
      (fun _ s' t' => InStep buffer s' t') fun _ s' t' => Beside s' t' := by
  have hrun : ∀ w : World B, w.buffer = s.buffer → write s.current offset xs w =
      if offset + xs.length ≤ (bytes s.buffer).length then
        .ok () ((w.record (.write s.current w.current)).store offset xs)
      else .error .undefined (w.record (.write s.current w.current)) := by
    intro w hw
    have hcond : ((s.current.data = data w.buffer ∧ s.current.size ≤ (bytes w.buffer).length) ∧
        offset + xs.length ≤ s.current.size) ↔ offset + xs.length ≤ (bytes s.buffer).length := by
      rw [hw]
      exact and_iff_right ⟨rfl, le_rfl⟩
    rw [write_run, if_congr hcond rfl rfl]
  have hfresh : ∀ a ∈ (s.record (.write s.current s.current)).trace, a.Fresh :=
    List.forall_mem_cons.mpr ⟨rfl, h.fresh⟩
  rw [Sim, hrun s rfl, hrun t h.buffer_eq.symm]
  split_ifs with hin
  · have hspan : ((s.record (.write s.current s.current)).store offset xs).current = s.current :=
      congrArg (fun x => (⟨x, s.epoch⟩ : View)) (hB.store_span s.buffer offset xs hin)
    refine ⟨rfl, ⟨congrArg (store offset xs) h.buffer_eq, hfresh⟩, h.epoch_eq, ?_⟩
    cases buffer with
    | direct => exact trivial
    | wrapper => exact (h.current : s.kept = s.current).trans hspan.symm
    | span view => exact (h.current : view = s.current).trans hspan.symm
  · exact ⟨rfl, h.buffer_eq, hfresh⟩

/-- **Extending the buffer**: the wrapper's span is replaced by the new one. -/
theorem agrees_extend (hB : SpanLaws B) {buffer : BufferArg} (hfor : buffer.isFor false)
    (count : ℕ) : @Agrees B _ _ buffer (buffer.extend count) (BufferArg.direct.extend count) := by
  intro s t h
  have hspan := hB.extend_span s.buffer count
  cases buffer with
  | direct =>
    show Sim (resize _ >>= fun _ => pure ()) (resize _ >>= fun _ => pure ()) s t _ _
    refine Sim.bind (S := fun _ s' t' => InStep .direct s' t') ?_ fun _ s' t' h' => sim_pure () h'
    unfold Sim resize
    rw [← h.buffer_eq]
    cases extend count s.buffer with
    | ok span b =>
      exact ⟨by rw [h.epoch_eq], ⟨rfl, h.fresh⟩, congrArg (· + 1) h.epoch_eq, trivial⟩
    | error e b => exact ⟨rfl, rfl, h.fresh⟩
  | wrapper =>
    show Sim (resize _ >>= fun view => modify _) (resize _ >>= fun _ => pure ()) s t _ _
    refine Sim.bind (S := fun view s' t' => InStep .direct s' t' ∧ view = s'.current) ?_ ?_
    · unfold Sim resize
      unfold Sat at hspan
      rw [← h.buffer_eq]
      cases hext : extend count s.buffer with
      | ok span b =>
        rw [hext] at hspan
        -- what `extend` returns, and the wrapper keeps, is the span of the extended buffer
        obtain rfl : span = spanOf b := hspan
        exact ⟨by rw [h.epoch_eq], ⟨⟨rfl, h.fresh⟩, congrArg (· + 1) h.epoch_eq, trivial⟩, rfl⟩
      | error e b => exact ⟨rfl, rfl, h.fresh⟩
    · rintro view s' t' ⟨h', rfl⟩
      exact ⟨rfl, ⟨h'.buffer_eq, h'.fresh⟩, h'.epoch_eq, rfl⟩
  | span view => exact absurd hfor Bool.false_ne_true

/-! ### The serialisers -/

theorem BufferArg.isFor_true (buffer : BufferArg) : buffer.isFor true := by
  cases buffer with
  | direct => exact trivial
  | wrapper => exact trivial
  | span view => rfl

theorem BufferArg.isFor.mono {buffer : BufferArg} {c d : Bool} (h : buffer.isFor c)
    (hcd : c = true → d = true) : buffer.isFor d := by
  cases buffer with
  | direct => exact trivial
  | wrapper => exact trivial
  | span view => exact hcd h

/-- **A serialiser on spans next to a plain one**: they agree whatever the former may be
handed, and it keeps the spans if the type is fixed-size. -/
structure Sound (fixedSize : Bool) (f g : BufferArg → ℕ → M B Unit) : Prop where
  agrees : ∀ (buffer : BufferArg), buffer.isFor fixedSize → ∀ pos,
    Agrees buffer (f buffer pos) (g .direct pos)
  keeps : fixedSize = true → ∀ (buffer : BufferArg) (pos : ℕ), Keeps (f buffer pos)

theorem Agrees.pushFixedSubobject {buffer : BufferArg} {t : Ty} {f g : ℕ → M B Unit}
    (h : ∀ pos, Agrees buffer (f pos) (g pos)) (pos : ℕ) :
    Agrees buffer (pushFixedSubobject P t pos f) (pushFixedSubobject P t pos g) :=
  (h pos).bind fun _ => agrees_pure _

theorem Agrees.pushVariableSubobjects (hB : SpanLaws B) {buffer : BufferArg}
    (hfor : buffer.isFor false) {t : Ty} {count : ℕ} {f g : ℕ → M B Unit}
    (h : ∀ pos, Agrees buffer (f pos) (g pos)) :
    Agrees buffer (pushVariableSubobjects P t count buffer f)
      (pushVariableSubobjects P t count .direct g) :=
  agrees_getSpan fun s t hst =>
    Agrees.bind (agrees_extend hB hfor _) (fun _ => h s.current.size) s t hst

/-- **`with_buffer_for`**: a span stays up to date while a function that keeps the spans
works on it, and then so does what the span was taken from. -/
theorem Agrees.withBufferFor {fixedSize : Bool} {f g : BufferArg → M B Unit}
    (h : ∀ buffer : BufferArg, buffer.isFor fixedSize → Agrees buffer (f buffer) (g .direct))
    (hk : fixedSize = true → ∀ buffer, Keeps (f buffer)) {buffer : BufferArg}
    (hfor : buffer.isFor fixedSize) :
    Agrees buffer (withBufferFor .spans fixedSize buffer f)
      (withBufferFor .plain fixedSize .direct g) := by
  cases fixedSize with
  | false => exact h buffer hfor
  | true =>
    intro s t hst
    show Sim (buffer.getSpan >>= fun view => f (.span view)) (g .direct) s t _ _
    have hget : Sim buffer.getSpan (BufferArg.direct.getSpan) s t _ _ := sim_getSpan hst
    refine hget.bind (g := fun _ => g .direct) ?_
    rintro _ s₁ t₁ ⟨rfl, hst₁⟩
    have hspan : InStep (.span s₁.current) s₁ t₁ := ⟨hst₁.toBeside, hst₁.epoch_eq, rfl⟩
    -- nothing extends the buffer meanwhile, so the span is still the buffer's when the function
    -- returns, and so is whatever it was taken from
    have hstill := hk rfl (.span s₁.current) s₁.current s₁.kept s₁ ⟨rfl, rfl⟩
    refine ((h (.span s₁.current) rfl s₁ t₁ hspan).and_sat hstill).mono ?_ fun _ _ _ h => h.1
    rintro - s₂ t₂ ⟨hst₂, hcurrent, hkept⟩
    refine ⟨hst₂.toBeside, hst₂.epoch_eq, ?_⟩
    have hprev := hst₁.current
    cases buffer with
    | direct => exact trivial
    | wrapper => exact hkept.trans (Eq.trans hprev hcurrent.symm)
    | span view => exact Eq.trans hprev hcurrent.symm

theorem agrees_assert {buffer : BufferArg} (c : Bool) :
    @Agrees B _ _ buffer (assert P c) (assert P c) := by
  unfold assert
  split_ifs
  · exact agrees_throw _
  · exact agrees_pure ()

theorem agrees_assertOffset {buffer : BufferArg} (pos : ℕ) :
    @Agrees B _ _ buffer (assertOffset P buffer pos) (assertOffset P .direct pos) := by
  unfold assertOffset
  split_ifs
  · exact agrees_getSpan fun s t hst => agrees_assert _ s t hst
  · exact agrees_pure ()

theorem Keeps.assertOffset (buffer : BufferArg) (pos : ℕ) :
    @Keeps B _ _ (assertOffset P buffer pos) := by
  unfold SerialisePP.assertOffset
  split_ifs
  · exact (keeps_getSpan buffer).bind fun view => keeps_assert _
  · exact keeps_pure ()

theorem Sound.serialiseWith {t : Ty} {f g : BufferArg → ℕ → M B Unit}
    (h : Sound t.isFixedSize f g) :
    Sound t.isFixedSize (serialiseWith P .spans t f) (serialiseWith P .plain t g) where
  agrees _ hfor pos := Agrees.withBufferFor
    (fun buffer hfor => (agrees_assertOffset pos).bind fun _ => h.agrees buffer hfor pos)
    (fun hfix buffer => (Keeps.assertOffset buffer pos).bind fun _ => h.keeps hfix buffer pos) hfor
  keeps hfix := Keeps.serialiseWith (h.keeps hfix)

/-! ### Scalars -/

theorem sound_serialiseBytes (hB : SpanLaws B) (xs : List UInt8) :
    @Sound B _ true (serialiseBytes xs) (serialiseBytes xs) where
  agrees _ _ pos := agrees_getSpan fun _ _ hst => sim_write hB hst pos xs
  keeps _ := keeps_serialiseBytes hB xs

theorem sound_serialiseUnsigned (hB : SpanLaws B) (n value : ℕ) :
    @Sound B _ true (serialiseUnsigned P .spans n value) (serialiseUnsigned P .plain n value) :=
  Sound.serialiseWith (t := .unsigned n) (sound_serialiseBytes hB _)

/-- The serialisers that write a scalar as another one take the span themselves. -/
theorem agrees_serialiseAs (hB : SpanLaws B) (s : Scalar) (xs : List UInt8) (buffer : BufferArg)
    (pos : ℕ) : @Agrees B _ _ buffer (serialiseAs P .spans (.scalar s) xs buffer pos)
      (serialiseAs P .plain (.scalar s) xs .direct pos) := by
  refine agrees_getSpan fun s t hst => ?_
  show Sim (assertOffset P (.span s.current) pos >>= fun _ => write s.current pos xs)
    (assertOffset P (.span s.current) pos >>= fun _ => write s.current pos xs) s t _ _
  have hassert : @Agrees B _ _ buffer (assertOffset P (.span s.current) pos)
      (assertOffset P (.span s.current) pos) := by
    unfold assertOffset
    split_ifs
    · exact agrees_assert _
    · exact agrees_pure ()
  have hkeeps : @Keeps B _ _ (assertOffset P (.span s.current) pos) := Keeps.assertOffset _ pos
  have hstill := hkeeps s.current s.kept s ⟨rfl, rfl⟩
  refine (((hassert s t hst).and_sat hstill).mono (fun _ _ _ h => h) fun _ _ _ h => h.1).bind ?_
  rintro - s' t' ⟨hst', hcurrent, -⟩
  rw [← hcurrent]
  exact sim_write hB hst' pos xs

/-- **The serialisers of the scalars.** -/
theorem sound_scalarSerialiser (hB : SpanLaws B) (s : Scalar) (v : s.Value) :
    @Sound B _ true (scalarSerialiser P .spans s v) (scalarSerialiser P .plain s v) where
  agrees buffer hfor pos := by
    cases s with
    | null => exact agrees_pure ()
    | byte => exact (sound_serialiseBytes hB _).agrees buffer hfor pos
    | bool => exact agrees_serialiseAs hB .byte _ buffer pos
    | unsigned n => exact (sound_serialiseBytes hB _).agrees buffer hfor pos
    | signed n => exact agrees_serialiseAs hB (.unsigned n) _ buffer pos
    | float => exact agrees_serialiseAs hB (.unsigned 4) _ buffer pos
    | double => exact agrees_serialiseAs hB (.unsigned 8) _ buffer pos
  keeps _ := scalarSerialiser_keeps hB s v

/-! ### Arrays, optionals and variants -/

/-- A scalar that a composite type stores in its fixed section. -/
theorem agrees_pushUnsigned (hB : SpanLaws B) {buffer : BufferArg} (t : Ty) (n value pos : ℕ) :
    @Agrees B _ _ buffer
      (pushFixedSubobject P t pos (serialiseUnsigned P .spans n value buffer))
      (pushFixedSubobject P t pos (serialiseUnsigned P .plain n value .direct)) :=
  Agrees.pushFixedSubobject
    (fun pos => (sound_serialiseUnsigned hB n value).agrees buffer buffer.isFor_true pos) pos

theorem agrees_serialiseEach {t : Ty} {buffer : BufferArg} (f g : α → BufferArg → ℕ → M B Unit)
    (xs : List α) (h : ∀ x ∈ xs, ∀ pos, Agrees buffer (serialiseWith P .spans t (f x) buffer pos)
      (serialiseWith P .plain t (g x) .direct pos)) (pos : ℕ) :
    Agrees buffer (serialiseEach P .spans t (xs.map f) buffer pos)
      (serialiseEach P .plain t (xs.map g) .direct pos) := by
  induction xs generalizing pos with
  | nil => exact agrees_pure pos
  | cons x xs ih =>
    refine Agrees.bind ?_ fun pos => ih (fun y hy => h y (List.mem_cons_of_mem x hy)) pos
    exact Agrees.pushFixedSubobject (h x (List.mem_cons_self ..)) pos

/-- The elements of a dynamic array: their span is taken after the buffer has been
extended. -/
theorem agrees_visitRange (hB : SpanLaws B) {t : Ty} {f g : α → BufferArg → ℕ → M B Unit}
    (h : ∀ x, Sound t.isFixedSize (f x) (g x)) (xs : List α) {buffer : BufferArg}
    (hfor : buffer.isFor false) :
    Agrees buffer (visitRange P .spans t (xs.map f) buffer)
      (visitRange P .plain t (xs.map g) .direct) := by
  have hlen : (xs.map f).length = (xs.map g).length := by rw [List.length_map, List.length_map]
  unfold visitRange
  rw [hlen]
  refine Agrees.bind ?_ fun _ => agrees_pure _
  refine Agrees.pushVariableSubobjects hB hfor fun pos => ?_
  refine Agrees.withBufferFor ?_ ?_ (hfor.mono fun h => absurd h Bool.false_ne_true)
  · intro buffer hfor
    refine Agrees.bind ?_ fun _ => agrees_pure ()
    exact agrees_serialiseEach f g xs (fun x _ => (h x).serialiseWith.agrees buffer hfor) pos
  · intro hfix buffer
    refine Keeps.bind (keeps_serialiseEach ?_ buffer pos) fun _ => keeps_pure ()
    intro s hs
    obtain ⟨x, -, rfl⟩ := List.mem_map.mp hs
    exact (h x).keeps hfix

theorem agrees_visitSource (hB : SpanLaws B) {t : Ty} {f g : α → BufferArg → ℕ → M B Unit}
    (h : ∀ x, Sound t.isFixedSize (f x) (g x)) (source : ArraySource P α) {buffer : BufferArg}
    (hfor : buffer.isFor false) :
    Agrees buffer (visitSource P .spans t (source.map P f) buffer)
      (visitSource P .plain t (source.map P g) .direct) := by
  cases source with
  | range xs hlt => exact agrees_visitRange hB h xs hfor
  | nothing =>
    show Agrees buffer (if P.constantEvaluated then _ else pure 0)
      (if P.constantEvaluated then _ else pure 0)
    split_ifs
    · exact agrees_visitRange hB h [] hfor
    · exact agrees_pure 0

/-- **The wrapper**: it starts out up to date, and is made only where there is none yet. -/
theorem agrees_serialiseElements (hB : SpanLaws B) {t : Ty}
    {f g : α → BufferArg → ℕ → M B Unit} (h : ∀ x, Sound t.isFixedSize (f x) (g x))
    (source : ArraySource P α) {buffer : BufferArg} (hfor : buffer.isFor false) :
    Agrees buffer (serialiseElements P .spans t (source.map P f) buffer)
      (serialiseElements P .plain t (source.map P g) .direct) := by
  have hvisit := agrees_visitSource hB h source hfor
  cases buffer with
  | direct =>
    intro s u hst
    -- the wrapper is made here, with the span of the moment
    have hwrap : InStep .wrapper { s with kept := s.current } u :=
      ⟨⟨hst.buffer_eq, hst.fresh⟩, hst.epoch_eq, rfl⟩
    have hinner : Agrees .wrapper (visitSource P .spans t (source.map P f) .wrapper)
        (visitSource P .plain t (source.map P g) .direct) := agrees_visitSource hB h source trivial
    exact (hinner _ _ hwrap).mono (fun _ s' t' h' => ⟨h'.toBeside, h'.epoch_eq, trivial⟩)
      fun _ _ _ h => h
  | wrapper => exact hvisit
  | span view => exact absurd hfor Bool.false_ne_true

theorem agrees_toDataOffset {buffer : BufferArg} (offset : ℕ) :
    @Agrees B _ _ buffer (toDataOffset offset) (toDataOffset offset) := by
  unfold toDataOffset
  split_ifs
  · exact agrees_pure _
  · exact agrees_throw _

theorem agrees_serialiseDynamicArray (hB : SpanLaws B) {t : Ty}
    {f g : α → BufferArg → ℕ → M B Unit} (h : ∀ x, Sound t.isFixedSize (f x) (g x))
    (source : ArraySource P α) {buffer : BufferArg} (hfor : buffer.isFor false) (pos : ℕ) :
    Agrees buffer (serialiseDynamicArray P .spans t (source.map P f) buffer pos)
      (serialiseDynamicArray P .plain t (source.map P g) .direct pos) := by
  refine agrees_getSpan fun s u hst => ?_
  refine Agrees.bind (agrees_serialiseElements hB h source hfor) (fun count => ?_) s u hst
  refine Agrees.bind ?_ fun size => Agrees.bind (agrees_pushUnsigned hB _ 4 size pos) fun pos => ?_
  · unfold toDynamicArraySize
    split_ifs
    · exact agrees_pure _
    · exact agrees_throw _
  · refine Agrees.bind ?_ fun offset =>
      Agrees.bind (agrees_pushUnsigned hB _ 4 offset pos) fun _ => agrees_pure ()
    unfold elementsOffset
    split_ifs
    · exact agrees_toDataOffset _
    · exact agrees_pure 0

theorem agrees_serialisePresent (hB : SpanLaws B) {t : Ty} {f g : BufferArg → ℕ → M B Unit}
    (h : Sound t.isFixedSize f g) {buffer : BufferArg} (hfor : buffer.isFor false) (pos : ℕ) :
    Agrees buffer (serialisePresent P .spans t f buffer pos)
      (serialisePresent P .plain t g .direct pos) := by
  refine agrees_getSpan fun s u hst => ?_
  refine Agrees.bind (agrees_toDataOffset _) (fun offset => ?_) s u hst
  refine Agrees.bind (agrees_pushUnsigned hB _ 4 offset pos) fun _ => ?_
  exact Agrees.pushVariableSubobjects hB hfor (h.serialiseWith.agrees buffer
    (hfor.mono fun h => absurd h Bool.false_ne_true))

theorem agrees_serialiseVariant (hB : SpanLaws B) {index : ℕ} {f g : BufferArg → M B Unit}
    {buffer : BufferArg} (h : Agrees buffer (f buffer) (g .direct)) (pos : ℕ) :
    Agrees buffer (serialiseVariant P .spans index f buffer pos)
      (serialiseVariant P .plain index g .direct pos) := by
  refine Agrees.bind (agrees_assert _) fun _ => ?_
  refine Agrees.bind (agrees_pushUnsigned hB _ 2 _ pos) fun pos => ?_
  refine agrees_getSpan fun s u hst => ?_
  refine Agrees.bind (agrees_toDataOffset _) (fun offset => ?_) s u hst
  exact Agrees.bind (agrees_pushUnsigned hB _ 4 offset pos) fun _ => h

/-! ### All types -/

theorem sound_of_agrees (hB : SpanLaws B) {t : Ty} {v : t.Source P}
    (h : ∀ buffer : BufferArg, buffer.isFor t.isFixedSize → ∀ pos, @Agrees B _ _ buffer
      (serialiser P .spans t v buffer pos) (serialiser P .plain t v .direct pos)) :
    @Sound B _ t.isFixedSize (serialiser P .spans t v) (serialiser P .plain t v) :=
  ⟨h, fun hfix buffer pos => serialiser_keeps hB t v buffer pos hfix⟩

mutual

/-- **The serialisers on spans and wrappers run in lock step with the plain ones.** -/
theorem serialiser_agrees (hB : SpanLaws B) : ∀ (t : Ty) (v : t.Source P) (buffer : BufferArg),
    buffer.isFor t.isFixedSize → ∀ pos, @Agrees B _ _ buffer
      (serialiser P .spans t v buffer pos) (serialiser P .plain t v .direct pos)
  | .scalar s, v, buffer, hfor, pos => (sound_scalarSerialiser hB s v).agrees buffer hfor pos
  | .staticArray t n, v, buffer, hfor, pos => by
    refine Agrees.bind ?_ fun _ => agrees_pure ()
    refine agrees_serialiseEach (serialiser P .spans t) (serialiser P .plain t) v.1 ?_ pos
    intro x hx
    have hsound := sound_of_agrees hB (serialiser_agrees hB t x)
    refine hsound.serialiseWith.agrees buffer (hfor.mono fun h => ?_)
    rcases Bool.or_eq_true_iff.mp h with ht | hn
    · exact ht
    · -- there are no elements
      have hnil : v.1 = [] := List.eq_nil_of_length_eq_zero (v.2.trans (beq_iff_eq.mp hn))
      rw [hnil] at hx
      exact absurd hx List.not_mem_nil
  | .dynamicArray t, v, buffer, hfor, pos =>
    agrees_serialiseDynamicArray hB (fun x => sound_of_agrees hB (serialiser_agrees hB t x)) v
      hfor pos
  | .pair a b, v, buffer, hfor, pos => by
    have ha := sound_of_agrees hB (serialiser_agrees hB a v.1)
    have hb := sound_of_agrees hB (serialiser_agrees hB b v.2)
    refine Agrees.bind (Agrees.pushFixedSubobject (ha.serialiseWith.agrees buffer
      (hfor.mono fun h => (Bool.and_eq_true_iff.mp h).1)) pos) fun pos => ?_
    refine Agrees.bind (Agrees.pushFixedSubobject (hb.serialiseWith.agrees buffer
      (hfor.mono fun h => (Bool.and_eq_true_iff.mp h).2)) pos) fun _ => agrees_pure ()
  | .tuple ts, v, buffer, hfor, pos => serialiseFields_agrees hB ts v buffer hfor pos
  | .optional _, none, _, _, pos =>
    Agrees.bind (agrees_pushUnsigned hB _ 4 0 pos) fun _ => agrees_pure ()
  | .optional t, some v, _, hfor, pos =>
    agrees_serialisePresent hB (sound_of_agrees hB (serialiser_agrees hB t v)) hfor pos
  | .variant .nil, _, _, _, pos =>
    Agrees.bind (agrees_pushUnsigned hB _ 2 0 pos) fun pos =>
      Agrees.bind (agrees_pushUnsigned hB _ 4 0 pos) fun _ => agrees_pure ()
  | .variant (.cons _ _ _), none, _, _, _ => agrees_throw _
  | .variant (.cons name t ts), some v, buffer, hfor, pos =>
    agrees_serialiseVariant hB (serialiseAlternative_agrees hB (.cons name t ts) v buffer
      (hfor.mono fun h => absurd h (by simp [Ty.isFixedSize, TypeList.length]))) pos
  | .record fs _, v, buffer, hfor, pos => serialiseFields_agrees hB fs v buffer hfor pos

/-- The serialisers of a list of types, likewise. -/
theorem serialiseFields_agrees (hB : SpanLaws B) : ∀ (ts : TypeList)
    (v : ts.Data (ArraySource P)) (buffer : BufferArg), buffer.isFor ts.isFixedSize → ∀ pos,
      @Agrees B _ _ buffer (serialiseFields P .spans ts v buffer pos)
        (serialiseFields P .plain ts v .direct pos)
  | .nil, _, _, _, _ => agrees_pure ()
  | .cons _ t ts, v, buffer, hfor, pos => by
    have ht := sound_of_agrees hB (serialiser_agrees hB t v.1)
    refine Agrees.bind (Agrees.pushFixedSubobject (ht.serialiseWith.agrees buffer
      (hfor.mono fun h => (Bool.and_eq_true_iff.mp h).1)) pos) fun pos => ?_
    exact serialiseFields_agrees hB ts v.2 buffer
      (hfor.mono fun h => (Bool.and_eq_true_iff.mp h).2) pos

/-- The visitor of a variant, likewise. -/
theorem serialiseAlternative_agrees (hB : SpanLaws B) : ∀ (ts : TypeList)
    (v : ts.Alternative (ArraySource P)) (buffer : BufferArg), buffer.isFor false →
      @Agrees B _ _ buffer (serialiseAlternative P .spans ts v buffer)
        (serialiseAlternative P .plain ts v .direct)
  | .nil, v, _, _ => nomatch v
  | .cons _ t _, .inl v, buffer, hfor => by
    have ht := sound_of_agrees hB (serialiser_agrees hB t v)
    exact Agrees.pushVariableSubobjects hB hfor (ht.serialiseWith.agrees buffer
      (hfor.mono fun h => absurd h Bool.false_ne_true))
  | .cons _ _ ts, .inr v, buffer, hfor => serialiseAlternative_agrees hB ts v buffer hfor

end

/-! ### The library's own way and the plain one -/

theorem serialiseRun_agrees (hB : SpanLaws B) (t : Ty) (v : t.Source P) (pos : ℕ) :
    @Agrees B _ _ .direct (serialiseRun P .spans t v pos) (serialiseRun P .plain t v pos) :=
  (sound_of_agrees hB (serialiser_agrees hB t v)).serialiseWith.agrees .direct trivial pos

theorem inStep_start (b : B) : InStep .direct (World.start b) (World.start b) :=
  ⟨⟨rfl, fun _ ha => absurd ha List.not_mem_nil⟩, rfl, trivial⟩

/-- **Spans and wrappers change nothing**: `serialise` returns or fails as the plain run does,
and leaves the same buffer. -/
theorem serialise_eq_plain (hB : SpanLaws B) (t : Ty) (v : t.Source P) (pos : ℕ) :
    @serialise B _ P t v pos = call (serialiseRun P .plain t v pos) := by
  funext b
  have hsim := serialiseRun_agrees hB t v pos _ _ (inStep_start b)
  unfold Sim at hsim
  unfold serialise call
  cases hs : serialiseRun P .spans t v pos (World.start b) <;>
    cases ht : serialiseRun P .plain t v pos (World.start b) <;> rw [hs, ht] at hsim
  · exact congrArg _ hsim.2.buffer_eq
  · exact hsim.elim
  · exact hsim.elim
  · obtain ⟨rfl, h⟩ := hsim
    exact congrArg _ h.buffer_eq

/-- **No span is ever out of date.** In every run of `serialise`: whenever bytes are written
through a span it is the one the buffer has at that moment, and whenever the wrapper hands out
its span that is the buffer's; the serialisers of fixed-size types never extend the buffer,
whatever they are handed; and the outcome is that of the plain run. -/
theorem spans_never_stale (hB : SpanLaws B) (t : Ty) (v : t.Source P) (pos : ℕ) (b : B) :
    Sat (serialiseRun P .spans t v pos) (World.start b) (fun _ w => ∀ a ∈ w.trace, a.Fresh)
        (fun _ w => ∀ a ∈ w.trace, a.Fresh) ∧
      (t.isFixedSize = true → ∀ (buffer : BufferArg) (pos : ℕ) (w : World B),
        Sat (serialiser P .spans t v buffer pos) w (fun _ w' => w'.current = w.current)
          fun _ w' => w'.current = w.current) ∧
      call (serialiseRun P .spans t v pos) b = call (serialiseRun P .plain t v pos) b := by
  refine ⟨?_, ?_, congrFun (serialise_eq_plain hB t v pos) b⟩
  · have hsim := serialiseRun_agrees hB t v pos _ _ (inStep_start b)
    refine hsim.fst.mono ?_ ?_
    · rintro - w ⟨_, h⟩
      exact h.fresh
    · rintro - w ⟨_, h⟩
      exact h.fresh
  · intro hfix buffer pos w
    have hkeeps : @Keeps B _ _ (serialiser P .spans t v buffer pos) :=
      serialiser_keeps hB t v buffer pos hfix
    exact (hkeeps w.current w.kept w ⟨rfl, rfl⟩).mono (fun _ _ h => h.1) fun _ _ h => h.1

/-- An array of arrays, which share one wrapper, on a buffer that moves with every resize. -/
theorem spans_never_stale_moving :
    let t : Ty := .dynamicArray (.dynamicArray (.scalar .byte))
    let v : t.Source .x64 :=
      .range [.nothing, .range [(1 : UInt8), (2 : UInt8)] (by decide)] (by decide)
    let b : RelocatingBuffer := ⟨List.replicate 8 0, id, 0⟩
    Sat (serialiseRun .x64 .spans t v 0) (World.start b) (fun _ w => ∀ a ∈ w.trace, a.Fresh)
        (fun _ w => ∀ a ∈ w.trace, a.Fresh) :=
  (spans_never_stale relocatingBuffer_spanLaws _ _ 0 _).1

end SerialisePP
