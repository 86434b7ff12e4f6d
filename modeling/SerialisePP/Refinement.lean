import SerialisePP.Serialiser

/-!
# The serialisers write the layout

The plain serialisers refine the layout: run on a lawful buffer with room for the fixed
section, `serialiser<T>` leaves the buffer as `TwoSection.Layout.install` of the layout
does, and every mark of the layout is then within the limits; or it fails, and then with the
exception of one of the marks or of the buffer.

`SerialisePP.Writes` says so of one program. It composes along the two operations layouts
are built from, by `SerialisePP.Writes.push` for objects side by side and by
`SerialisePP.Writes.pushVariable` for objects in the variable section, and
`SerialisePP.serialiser_writes` is the induction over all types.
-/

namespace SerialisePP

open Effect LittleEndian Region SerialiseBuffer TwoSection

variable {B : Type} [SerialiseBuffer B] {P : Platform} {I : B → Prop} {limit : ℕ}
  {throws : Exn → Prop}

/-! ### What it is to write an object -/

/-- **How a run over some marks may fail**: with the exception of a mark or of the buffer. -/
def Fails (P : Platform) (throws : Exn → Prop) (marks : List Mark) (e : Failure) : Prop :=
  ∃ x, e = .thrown x ∧ (throws x ∨ ∃ k ∈ marks, k.failure P = some x)

theorem Fails.mono {ks ks' : List Mark} {e : Failure} (h : Fails P throws ks e) (hs : ks ⊆ ks') :
    Fails P throws ks' e := by
  obtain ⟨x, rfl, hx | ⟨k, hk, hkx⟩⟩ := h
  · exact ⟨x, rfl, .inl hx⟩
  · exact ⟨x, rfl, .inr ⟨k, hs hk, hkx⟩⟩

theorem fails_of_mark {ks : List Mark} {k : Mark} {x : Exn} (hk : k ∈ ks)
    (hx : k.failure P = some x) : Fails P throws ks (.thrown x) := ⟨x, rfl, .inr ⟨k, hk, hx⟩⟩

/-- Marks that are all within the limits. -/
def Accepted (P : Platform) (marks : List Mark) : Prop := ∀ k ∈ marks, k.failure P = none

instance (marks : List Mark) : Decidable (Accepted P marks) :=
  inferInstanceAs (Decidable (∀ k ∈ marks, k.failure P = none))

theorem accepted_append {ks ks' : List Mark} :
    Accepted P (ks ++ ks') ↔ Accepted P ks ∧ Accepted P ks' := List.forall_mem_append

theorem accepted_cons {k : Mark} {ks : List Mark} :
    Accepted P (k :: ks) ↔ k.failure P = none ∧ Accepted P ks := List.forall_mem_cons

/-- **A run that leaves the buffer with the bytes `after`**, given that all the marks are
accepted. -/
def Leaves (P : Platform) (I : B → Prop) (throws : Exn → Prop) {α : Type} (m : M B α)
    (w : World B) (after : List UInt8) (marks : List Mark) : Prop :=
  Sat m w (fun _ w' => I w'.buffer ∧ bytes w'.buffer = after ∧ Accepted P marks)
    fun e w' => I w'.buffer ∧ Fails P throws marks e

/-- **A program that writes an object**, its fixed section at `pos`: from every state with
room for it, in the buffer and below the limit. -/
def Writes (P : Platform) (I : B → Prop) (limit : ℕ) (throws : Exn → Prop) {α : Type}
    (l : Layout UInt8 Mark) (pos : ℕ) (m : M B α) : Prop :=
  ∀ w : World B, I w.buffer → pos + l.fixedSize ≤ (bytes w.buffer).length →
    (bytes w.buffer).length + l.variableSize < limit →
    Leaves P I throws m w (l.install (bytes w.buffer) pos) (l.marks pos (bytes w.buffer).length)

/-- **A program that appends an object**, both its sections, at the end of the buffer. -/
def Appends (P : Platform) (I : B → Prop) (limit : ℕ) (throws : Exn → Prop) {α : Type}
    (l : Layout UInt8 Mark) (m : M B α) : Prop :=
  ∀ w : World B, I w.buffer →
    (bytes w.buffer).length + (l.fixedSize + l.variableSize) < limit →
    let base := (bytes w.buffer).length
    Leaves P I throws m w
      (bytes w.buffer ++ (l.fixed (base + l.fixedSize) ++ l.body (base + l.fixedSize)))
      (l.marks base (base + l.fixedSize))

/-! ### Rules for the operations on the buffer -/

@[simp] theorem sat_getSpan_direct {w : World B} {Q : View → World B → Prop}
    {E : Failure → World B → Prop} : Sat (BufferArg.direct.getSpan) w Q E ↔ Q w.current w :=
  Iff.rfl

@[simp] theorem sat_extend_direct {w : World B} {Q : Unit → World B → Prop}
    {E : Failure → World B → Prop} (count : ℕ) : Sat (BufferArg.direct.extend count) w Q E ↔
      Sat (SerialiseBuffer.extend count) w.buffer (fun _ b => Q () (w.resized b))
        fun e b => E e { w with buffer := b } := by
  show Sat (resize (SerialiseBuffer.extend count) >>= fun _ => pure ()) w Q E ↔ _
  rw [sat_bind]
  unfold Sat resize
  cases SerialiseBuffer.extend count w.buffer <;> exact Iff.rfl

omit [SerialiseBuffer B] in
theorem sat_assert {w : World B} {Q : Unit → World B → Prop} {E : Failure → World B → Prop}
    {c : Bool} (hc : c = true) : Sat (assert P c) w Q E ↔ Q () w := by
  rw [assert, hc, Bool.not_true, Bool.and_false]
  exact Iff.rfl

/-- A write through the span of the buffer. -/
theorem sat_write {w : World B} {Q : Unit → World B → Prop} {E : Failure → World B → Prop}
    {offset : ℕ} {xs : List UInt8} (hx : offset + xs.length ≤ (bytes w.buffer).length) :
    Sat (write w.current offset xs) w Q E ↔
      Q () ((w.record (.write w.current w.current)).store offset xs) := by
  have hcond : (w.current.data = data w.buffer ∧ w.current.size ≤ (bytes w.buffer).length) ∧
      offset + xs.length ≤ w.current.size := ⟨⟨rfl, le_rfl⟩, hx⟩
  exact sat_of_ok ((write_run w.current offset xs w).trans (if_pos hcond))

theorem sat_assertOffset {w : World B} {Q : Unit → World B → Prop}
    {E : Failure → World B → Prop} {offset : ℕ} (h : offset ≤ (bytes w.buffer).length) :
    Sat (assertOffset P .direct offset) w Q E ↔ Q () w := by
  unfold assertOffset
  split_ifs
  · have hsize : offset ≤ w.current.size := h
    rw [sat_bind, sat_getSpan_direct, sat_assert (decide_eq_true hsize)]
  · exact Iff.rfl

/-! ### Rules for writing objects -/

theorem serialiseWith_plain (t : Ty) (s : BufferArg → ℕ → M B Unit) (buffer : BufferArg)
    (pos : ℕ) : serialiseWith P .plain t s buffer pos =
      (do assertOffset P buffer pos; s buffer pos) := rfl

/-- `serialise<T>` writes what its serialiser writes. -/
theorem Writes.serialiseWith {l : Layout UInt8 Mark} {pos : ℕ} {s : BufferArg → ℕ → M B Unit}
    (h : Writes P I limit throws l pos (s .direct pos)) (t : Ty) :
    Writes P I limit throws l pos (serialiseWith P .plain t s .direct pos) := by
  intro w hI hpos hlim
  rw [serialiseWith_plain, Leaves, sat_bind, sat_assertOffset (by omega)]
  exact h w hI hpos hlim

/-- **One object, then the next**: the offset returned is where the second one goes. -/
theorem Writes.push (hB : LawfulBuffer P B I limit throws) {l r : Layout UInt8 Mark} {t : Ty}
    {α : Type} {pos : ℕ} {func : ℕ → M B Unit} {k : ℕ → M B α} (ht : l.fixedSize = t.size)
    (hl : Writes P I limit throws l pos (func pos))
    (hr : Writes P I limit throws r (pos + t.size) (k (pos + t.size))) :
    Writes P I limit throws (l.append r) pos (pushFixedSubobject P t pos func >>= k) := by
  intro w hI hpos hlim
  rw [Layout.fixedSize_append] at hpos
  rw [Layout.variableSize_append] at hlim
  have hlt : pos + t.size < P.sizeRange := by
    have := hB.limit_le
    omega
  have hnext : P.wrap (pos + fixedDataSize P t) = pos + t.size := by
    rw [fixedDataSize_of_lt (by omega), Platform.wrap_of_lt hlt]
  rw [Leaves, pushFixedSubobject, sat_bind, sat_bind]
  refine (hl w hI (by omega) (by omega)).mono ?_ ?_
  · rintro - w₁ ⟨hI₁, hb₁, hm₁⟩
    have hlen : (bytes w₁.buffer).length = (bytes w.buffer).length + l.variableSize := by
      rw [hb₁, Layout.length_install (by omega)]
    rw [sat_pure, hnext]
    refine (hr w₁ hI₁ (by omega) (by omega)).mono ?_ ?_
    · rintro a w₂ ⟨hI₂, hb₂, hm₂⟩
      refine ⟨hI₂, ?_, ?_⟩
      · rw [hb₂, hb₁, ← ht, Layout.install_append (by rw [Layout.fixedSize_append]; omega)]
      · rw [Layout.marks_append, accepted_append, ← hlen, ht]
        exact ⟨hm₁, hm₂⟩
    · rintro e w₂ ⟨hI₂, he⟩
      refine ⟨hI₂, he.mono ?_⟩
      rw [Layout.marks_append, ← hlen, ht]
      exact List.subset_append_right ..
  · rintro e w₁ ⟨hI₁, he⟩
    exact ⟨hI₁, he.mono (List.subset_append_left ..)⟩

/-- A program that does nothing writes the empty object. -/
theorem writes_empty {α : Type} (pos : ℕ) (a : α) :
    Writes P I limit throws .empty pos (pure a : M B α) := by
  intro w hI hpos hlim
  refine ⟨hI, ?_, ?_⟩
  · rw [Layout.empty, Layout.install_leaf, overwrite_nil]
  · intro k hk
    exact absurd hk (List.not_mem_nil)

/-- **Objects in the variable section**: the room made for the fixed section is where the
object is written. -/
theorem Writes.pushVariable (hB : LawfulBuffer P B I limit throws) {l : Layout UInt8 Mark}
    {t : Ty} {count : ℕ} {func : ℕ → M B Unit} (ht : l.fixedSize = t.size * count)
    (hl : ∀ pos, Writes P I limit throws l pos (func pos)) :
    Appends P I limit throws l (pushVariableSubobjects P t count .direct func) := by
  intro w hI hlim base
  have hcount : P.wrap (fixedDataSize P t * count) = l.fixedSize := by
    have hlt : l.fixedSize < P.sizeRange := by
      have := hB.limit_le
      omega
    rw [fixedDataSize_eq, ht, Platform.wrap, Platform.wrap, Nat.mod_mul_mod,
      Nat.mod_eq_of_lt (by rwa [← ht])]
  rw [Leaves, pushVariableSubobjects, sat_bind, sat_getSpan_direct, sat_bind, sat_extend_direct,
    hcount]
  refine (hB.extend_sat w.buffer l.fixedSize hI (by omega)).mono ?_ ?_
  · rintro span b ⟨hI₁, more, hmore, hb₁⟩
    have hlen : (bytes b).length = base + l.fixedSize := by rw [hb₁, List.length_append, hmore]
    have h := hl base (w.resized b) hI₁ hlen.ge (by
      show (bytes b).length + l.variableSize < limit
      omega)
    have hbytes : l.install (bytes (w.resized b).buffer) base =
        bytes w.buffer ++ (l.fixed (base + l.fixedSize) ++ l.body (base + l.fixedSize)) := by
      show l.install (bytes b) base = _
      rw [hb₁, Layout.install_tail hmore]
    have hlen' : (bytes (w.resized b).buffer).length = base + l.fixedSize := hlen
    rw [hbytes, hlen'] at h
    exact h
  · rintro e b ⟨hI₁, x, rfl, hx⟩
    exact ⟨hI₁, x, rfl, .inl hx⟩

/-! ### Scalars -/

/-- A write through the current span of the buffer. -/
theorem sat_serialiseBytes (hB : LawfulBuffer P B I limit throws) {w : World B} {pos : ℕ}
    {xs : List UInt8} (hI : I w.buffer) (hpos : pos + xs.length ≤ (bytes w.buffer).length) :
    Sat (serialiseBytes xs (.span w.current) pos) w
      (fun _ w' => I w'.buffer ∧ bytes w'.buffer = overwrite (bytes w.buffer) pos xs)
      fun _ _ => False := by
  show Sat (write w.current pos xs) w _ _
  rw [sat_write hpos]
  exact hB.store_eq w.buffer pos xs hI hpos

/-- `serialise` of an unsigned integer, and the offset after it. -/
theorem sat_pushUnsigned (hB : LawfulBuffer P B I limit throws) {w : World B} {pos n : ℕ}
    (value : ℕ) (hI : I w.buffer) (hpos : pos + n ≤ (bytes w.buffer).length)
    (hlim : (bytes w.buffer).length < limit) :
    Sat (pushFixedSubobject P (.unsigned n) pos (serialiseUnsigned P .plain n value .direct)) w
      (fun next w' => next = pos + n ∧ I w'.buffer ∧
        bytes w'.buffer = overwrite (bytes w.buffer) pos (toBytes n value))
      fun _ _ => False := by
  have hlt : pos + n < P.sizeRange := by
    have := hB.limit_le
    omega
  have hnext : P.wrap (pos + fixedDataSize P (.unsigned n)) = pos + n := by
    have hn : (Ty.unsigned n).size < P.sizeRange := (Nat.le_add_left n pos).trans_lt hlt
    rw [fixedDataSize_of_lt hn]
    exact Platform.wrap_of_lt hlt
  rw [pushFixedSubobject, hnext, sat_bind, serialiseUnsigned, serialiseWith_plain, sat_bind,
    sat_assertOffset (by omega), unsignedBytes_eq]
  have hwrite := @sat_serialiseBytes B _ P I limit throws hB w pos (toBytes n value) hI (by
    rw [length_toBytes]
    exact hpos)
  exact hwrite.mono (fun _ w' h => ⟨rfl, h⟩) fun _ _ h => h

/-- The serialisers that write a scalar as another one. -/
theorem sat_serialiseAs (hB : LawfulBuffer P B I limit throws) (t : Ty) {w : World B} {pos : ℕ}
    {xs : List UInt8} (hI : I w.buffer) (hpos : pos + xs.length ≤ (bytes w.buffer).length) :
    Sat (serialiseAs P .plain t xs .direct pos) w
      (fun _ w' => I w'.buffer ∧ bytes w'.buffer = overwrite (bytes w.buffer) pos xs)
      fun _ _ => False := by
  have hsize : pos ≤ w.current.size := Nat.le_of_add_right_le hpos
  have hassert : Sat (assertOffset P (.span w.current) pos) w (fun _ w' => w' = w)
      fun _ _ => False := by
    unfold assertOffset
    split_ifs
    · exact (sat_assert (decide_eq_true hsize)).mpr rfl
    · rfl
  rw [serialiseAs, sat_bind, sat_getSpan_direct, serialiseWith_plain, sat_bind]
  refine hassert.mono ?_ fun _ _ h => h
  rintro - w' rfl
  exact sat_serialiseBytes hB hI hpos

/-- **The serialiser of a scalar writes its bytes**, and cannot fail. -/
theorem sat_scalarSerialiser (hB : LawfulBuffer P B I limit throws) {w : World B}
    (hI : I w.buffer) : ∀ (s : Scalar) (v : s.Value) (pos : ℕ),
      pos + s.size ≤ (bytes w.buffer).length → Sat (scalarSerialiser P .plain s v .direct pos) w
        (fun _ w' => I w'.buffer ∧
          bytes w'.buffer = overwrite (bytes w.buffer) pos (s.fixedBytes P v))
        fun _ _ => False
  | .null, _, _, _ => ⟨hI, (overwrite_nil _).symm⟩
  | .byte, _, _, h => sat_serialiseBytes hB hI h
  | .bool, _, _, h => sat_serialiseAs hB _ hI h
  | .unsigned n, v, _, h => sat_serialiseBytes hB hI (by
    rw [unsignedBytes_eq, length_toBytes]
    exact h)
  | .signed n, v, _, h => sat_serialiseAs hB _ hI (by
    rw [unsignedBytes_eq, length_toBytes]
    exact h)
  | .float, _, _, h => sat_serialiseAs hB _ hI (by
    rw [unsignedBytes_eq, length_toBytes]
    exact h)
  | .double, _, _, h => sat_serialiseAs hB _ hI (by
    rw [unsignedBytes_eq, length_toBytes]
    exact h)

/-- **The serialiser of a scalar writes its representation.** -/
theorem scalarSerialiser_writes (hB : LawfulBuffer P B I limit throws) (s : Scalar) (v : s.Value)
    (pos : ℕ) : Writes P I limit throws (.leaf (s.encode v) fun _ _ => []) pos
      (scalarSerialiser P .plain s v .direct pos) := by
  intro w hI hpos hlim
  have hsize : pos + s.size ≤ (bytes w.buffer).length := by
    rw [← s.length_encode v]
    exact hpos
  refine (sat_scalarSerialiser hB hI s v pos hsize).mono ?_ fun _ _ h => h.elim
  rintro - w' ⟨hI', hb⟩
  exact ⟨hI', by rw [hb, Scalar.fixedBytes_eq, Layout.install_leaf],
    fun k hk => absurd hk List.not_mem_nil⟩

/-! ### Arrays, optionals and variants -/

/-- **The loop over consecutive elements** writes them side by side. -/
theorem writes_serialiseEach (hB : LawfulBuffer P B I limit throws) {t : Ty} {α : Type}
    (f : α → BufferArg → ℕ → M B Unit) (g : α → Layout UInt8 Mark)
    (hg : ∀ x, (g x).fixedSize = t.size)
    (hf : ∀ x pos, Writes P I limit throws (g x) pos (f x .direct pos)) (xs : List α) (pos : ℕ) :
    Writes P I limit throws (.concat (xs.map g)) pos
      (serialiseEach P .plain t (xs.map f) .direct pos) := by
  induction xs generalizing pos with
  | nil => exact writes_empty pos pos
  | cons x xs ih =>
    rw [List.map_cons, List.map_cons, Layout.concat_cons, serialiseEach]
    exact Writes.push hB (hg x) ((hf x pos).serialiseWith t) (ih _)

/-- What is left to do once the header of a boxed object has been written. -/
theorem Appends.box {n : ℕ} {header : ℕ → List UInt8} {mark : ℕ → ℕ → Mark}
    {l : Layout UInt8 Mark} {h : ∀ base, (header base).length = n} {α : Type} {m : M B α}
    (hm : Appends P I limit throws l m) {mem : List UInt8} {pos : ℕ} {w : World B}
    (hI : I w.buffer) (hpos : pos + n ≤ mem.length)
    (hlim : mem.length + (l.fixedSize + l.variableSize) < limit)
    (hw : bytes w.buffer = overwrite mem pos (header mem.length))
    (hmark : (mark pos mem.length).failure P = none) :
    Leaves P I throws m w ((Layout.box n header mark l h).install mem pos)
      ((Layout.box n header mark l h).marks pos mem.length) := by
  have hlen : (bytes w.buffer).length = mem.length := by
    rw [hw, length_overwrite (by rw [h]; exact hpos)]
  refine (hm w hI (by omega)).mono ?_ ?_
  · rintro a w' ⟨hI', hb, hk⟩
    rw [hlen] at hb hk
    refine ⟨hI', ?_, accepted_cons.mpr ⟨hmark, hk⟩⟩
    rw [hb, hw]
    rfl
  · rintro e w' ⟨hI', he⟩
    rw [hlen] at he
    exact ⟨hI', he.mono (List.subset_cons_self ..)⟩

omit [SerialiseBuffer B] in
theorem sat_toDataOffset {w : World B} {Q : ℕ → World B → Prop} {E : Failure → World B → Prop}
    {offset : ℕ} (hok : offset ≤ maxDataOffset → Q offset w)
    (hbig : maxDataOffset < offset →
      E (.thrown (.objectSizeError (dataOffsetMessage offset))) w) :
    Sat (toDataOffset offset) w Q E := by
  unfold toDataOffset
  split_ifs with h
  · exact hok h
  · exact hbig (not_le.mp h)

/-- The bytes of an offset do not change if it wraps around. -/
theorem toBytes_wrap (v : ℕ) : toBytes 4 (P.wrap v) = toBytes 4 v := by
  have hrange : ∃ k, 4 ≤ k ∧ P.sizeRange = 256 ^ k := by
    unfold Platform.sizeRange
    rcases P.sizeBits_eq with h | h <;> rw [h]
    · exact ⟨4, le_rfl, rfl⟩
    · exact ⟨8, by decide, rfl⟩
  obtain ⟨k, hk, he⟩ := hrange
  rw [Platform.wrap, he, toBytes_mod 4 k v hk]

/-- The serialiser of an absent optional. -/
theorem writes_serialiseAbsent (hB : LawfulBuffer P B I limit throws) (pos : ℕ) :
    Writes P I limit throws (.leaf (optionalHeader 0) fun _ _ => []) pos
      (serialiseAbsent P .plain .direct pos) := by
  intro w hI hpos hlim
  have hpos' : pos + 4 ≤ (bytes w.buffer).length := hpos
  rw [Leaves, serialiseAbsent, sat_bind]
  refine (sat_pushUnsigned hB 0 hI hpos' hlim).mono ?_ fun _ _ h => h.elim
  rintro - w' ⟨-, hI', hb⟩
  exact ⟨hI', by rw [hb, Layout.install_leaf, optionalHeader],
    fun k hk => absurd hk List.not_mem_nil⟩

/-- The serialiser of `variant<>`. -/
theorem writes_serialiseEmptyVariant (hB : LawfulBuffer P B I limit throws) (pos : ℕ) :
    Writes P I limit throws (.leaf (variantHeader 0 0) fun _ _ => []) pos
      (serialiseEmptyVariant P .plain .direct pos) := by
  intro w hI hpos hlim
  have hpos' : pos + 6 ≤ (bytes w.buffer).length := hpos
  have hlim' : (bytes w.buffer).length < limit := hlim
  rw [Leaves, serialiseEmptyVariant, sat_bind]
  refine (sat_pushUnsigned hB 0 hI (by omega) hlim').mono ?_ fun _ _ h => h.elim
  rintro - w₁ ⟨rfl, hI₁, hb₁⟩
  have hlen₁ : (bytes w₁.buffer).length = (bytes w.buffer).length := by
    rw [hb₁, length_overwrite (by rw [length_toBytes]; omega)]
  rw [sat_bind]
  refine (sat_pushUnsigned hB 0 hI₁ (by omega) (by omega)).mono ?_ fun _ _ h => h.elim
  rintro - w₂ ⟨-, hI₂, hb₂⟩
  have htwo := @overwrite_overwrite _ (bytes w.buffer) pos (toBytes 2 0) (toBytes 4 0)
    (by simp only [length_toBytes]; omega)
  rw [length_toBytes] at htwo
  exact ⟨hI₂, by rw [hb₂, hb₁, htwo, Layout.install_leaf, variantHeader],
    fun k hk => absurd hk List.not_mem_nil⟩

/-- **The serialiser of a present optional.** -/
theorem writes_serialisePresent (hB : LawfulBuffer P B I limit throws) {t : Ty}
    {l : Layout UInt8 Mark} {s : BufferArg → ℕ → M B Unit} (ht : l.fixedSize = t.size)
    (hl : ∀ pos, Writes P I limit throws l pos (s .direct pos))
    {h : ∀ base, (optionalHeader (base + 1)).length = 4} (pos : ℕ) :
    Writes P I limit throws
      (.box 4 (fun base => optionalHeader (base + 1)) (fun pos base => .optional pos base) l h) pos
      (serialisePresent P .plain t s .direct pos) := by
  intro w hI hpos hlim
  have hpos' : pos + 4 ≤ (bytes w.buffer).length := hpos
  rw [Leaves, serialisePresent, sat_bind, sat_getSpan_direct, sat_bind]
  refine sat_toDataOffset (fun hsize => ?_) fun hsize => ?_
  · -- the offset is written, and then the value goes to the end of the buffer
    rw [sat_bind]
    have hlim' : (bytes w.buffer).length < limit := Nat.lt_of_add_right_lt hlim
    refine (sat_pushUnsigned hB _ hI hpos' hlim').mono ?_ fun _ _ h => h.elim
    rintro - w₁ ⟨-, hI₁, hb₁⟩
    have hbytes : bytes w₁.buffer =
        overwrite (bytes w.buffer) pos (optionalHeader ((bytes w.buffer).length + 1)) := by
      rw [hb₁, toBytes_wrap]
      rfl
    have happ : Appends P I limit throws l
        (pushVariableSubobjects P t 1 .direct (serialiseWith P .plain t s .direct)) :=
      Writes.pushVariable hB (by rw [ht, Nat.mul_one]) fun pos => (hl pos).serialiseWith t
    refine happ.box hI₁ hpos hlim hbytes ?_
    exact if_neg (not_lt.mpr hsize)
  · refine ⟨hI, fails_of_mark (List.mem_cons_self ..) ?_⟩
    exact if_pos hsize

/-- **The serialiser of a variant.** -/
theorem writes_serialiseVariant (hB : LawfulBuffer P B I limit throws) {index : ℕ}
    {l : Layout UInt8 Mark} {visit : BufferArg → M B Unit} (hindex : index ≤ maxVariantTypes)
    (hl : Appends P I limit throws l (visit .direct))
    {h : ∀ base, (variantHeader index base).length = 6} (pos : ℕ) :
    Writes P I limit throws
      (.box 6 (fun base => variantHeader index base) (fun pos base => .variant pos index base) l h)
      pos (serialiseVariant P .plain index visit .direct pos) := by
  intro w hI hpos hlim
  have hpos' : pos + 6 ≤ (bytes w.buffer).length := hpos
  have hlim' : (bytes w.buffer).length < limit := Nat.lt_of_add_right_lt hlim
  have hcast : index % 2 ^ 16 = index := by
    refine Nat.mod_eq_of_lt ?_
    rw [maxVariantTypes] at hindex
    omega
  rw [Leaves, serialiseVariant, sat_bind, sat_assert (decide_eq_true hindex), hcast, sat_bind]
  -- the index is written before the offset is checked
  refine (sat_pushUnsigned hB index hI (by omega) hlim').mono ?_ fun _ _ h => h.elim
  rintro - w₁ ⟨rfl, hI₁, hb₁⟩
  have hlen₁ : (bytes w₁.buffer).length = (bytes w.buffer).length := by
    rw [hb₁, length_overwrite (by rw [length_toBytes]; omega)]
  have hcurrent : w₁.current.size = (bytes w.buffer).length := hlen₁
  rw [sat_bind, sat_getSpan_direct, sat_bind, hcurrent]
  refine sat_toDataOffset (fun hsize => ?_) fun hsize => ?_
  · rw [sat_bind]
    refine (sat_pushUnsigned hB _ hI₁ (by omega) (by omega)).mono ?_ fun _ _ h => h.elim
    rintro - w₂ ⟨-, hI₂, hb₂⟩
    have hbytes : bytes w₂.buffer =
        overwrite (bytes w.buffer) pos (variantHeader index (bytes w.buffer).length) := by
      have htwo := @overwrite_overwrite _ (bytes w.buffer) pos (toBytes 2 index)
        (toBytes 4 (bytes w.buffer).length) (by simp only [length_toBytes]; omega)
      rw [length_toBytes] at htwo
      rw [hb₂, hb₁, htwo, variantHeader]
    exact hl.box hI₂ hpos hlim hbytes (if_neg (not_lt.mpr hsize))
  · exact ⟨hI₁, fails_of_mark (List.mem_cons_self ..) (if_pos hsize)⟩

/-- The visitor returns the number of elements. -/
theorem visitRange_count {path : Path} (t : Ty) (elements : List (BufferArg → ℕ → M B Unit))
    (buffer : BufferArg) (w : World B) :
    Sat (visitRange P path t elements buffer) w (fun count _ => count = elements.length)
      fun _ _ => True := by
  rw [visitRange, sat_bind]
  exact (sat_true _ w).mono (fun _ _ _ => rfl) fun _ _ _ => trivial

/-- **The elements of a dynamic array** go to the end of the buffer. -/
theorem appends_visitRange (hB : LawfulBuffer P B I limit throws) {t : Ty} {α : Type}
    (f : α → BufferArg → ℕ → M B Unit) (g : α → Layout UInt8 Mark)
    (hg : ∀ x, (g x).fixedSize = t.size)
    (hf : ∀ x pos, Writes P I limit throws (g x) pos (f x .direct pos)) (xs : List α) :
    Appends P I limit throws (.concat (xs.map g)) (visitRange P .plain t (xs.map f) .direct) := by
  have hfixed : (Layout.concat (xs.map g)).fixedSize = t.size * (xs.map f).length := by
    have hk : ∀ l ∈ xs.map g, l.fixedSize = t.size := by
      intro l hl
      obtain ⟨x, -, rfl⟩ := List.mem_map.mp hl
      exact hg x
    rw [Layout.fixedSize_concat hk, List.length_map, List.length_map]
  have happ : Appends P I limit throws (.concat (xs.map g))
      (pushVariableSubobjects P t (xs.map f).length .direct fun pos => do
        let _ ← serialiseEach P .plain t (xs.map f) .direct pos) := by
    refine Writes.pushVariable hB hfixed fun pos w hI hpos hlim => ?_
    rw [Leaves, sat_bind]
    exact writes_serialiseEach hB f g hg hf xs pos w hI hpos hlim
  intro w hI hlim
  rw [Leaves, visitRange, sat_bind]
  exact happ w hI hlim

/-- The elements of the source of a dynamic array, and their number. -/
theorem sat_serialiseElements (hB : LawfulBuffer P B I limit throws) {t : Ty} {α : Type}
    (f : α → BufferArg → ℕ → M B Unit) (g : α → Layout UInt8 Mark)
    (hg : ∀ x, (g x).fixedSize = t.size)
    (hf : ∀ x pos, Writes P I limit throws (g x) pos (f x .direct pos)) (source : ArraySource P α) :
    Appends P I limit throws (.concat (source.elements.map g))
        (serialiseElements P .plain t (source.map P f) .direct) ∧
      ∀ w : World B, Sat (serialiseElements P .plain t (source.map P f) .direct) w
        (fun count _ => count = source.elements.length) fun _ _ => True := by
  have hvisit := appends_visitRange hB f g hg hf source.elements
  have hcount : ∀ w : World B, Sat (visitRange P .plain t (source.elements.map f) .direct) w
      (fun count _ => count = source.elements.length) fun _ _ => True := by
    intro w
    rw [← List.length_map f]
    exact visitRange_count t _ _ w
  cases source with
  | range xs h => exact ⟨hvisit, hcount⟩
  | nothing =>
    -- a default-constructed source: an empty range at compile time, no range at all at run time
    show Appends P I limit throws .empty (if P.constantEvaluated then _ else pure 0) ∧
      ∀ w, Sat (if P.constantEvaluated then _ else pure 0) w _ _
    split_ifs
    · exact ⟨hvisit, hcount⟩
    · refine ⟨fun w hI hlim => ⟨hI, (List.append_nil _).symm, ?_⟩, fun _ => rfl⟩
      intro k hk
      exact absurd hk List.not_mem_nil

omit [SerialiseBuffer B] in
/-- The count of a dynamic array is checked. -/
theorem sat_toDynamicArraySize {w : World B} {Q : ℕ → World B → Prop}
    {E : Failure → World B → Prop} {count : ℕ} (hok : count ≤ maxDynamicArraySize → Q count w)
    (hbig : maxDynamicArraySize < count →
      E (.thrown (.objectSizeError (dynamicArraySizeMessage count))) w) :
    Sat (toDynamicArraySize count) w Q E := by
  unfold toDynamicArraySize
  split_ifs with h
  · exact hok h
  · exact hbig (not_le.mp h)

omit [SerialiseBuffer B] in
/-- The offset of the elements is checked, if there are any. -/
theorem sat_elementsOffset {w : World B} {Q : ℕ → World B → Prop}
    {E : Failure → World B → Prop} {count offset : ℕ}
    (hok : ¬(0 < count ∧ maxDataOffset < offset) → Q (if 0 < count then offset else 0) w)
    (hbig : 0 < count ∧ maxDataOffset < offset →
      E (.thrown (.objectSizeError (dataOffsetMessage offset))) w) :
    Sat (elementsOffset count offset) w Q E := by
  unfold elementsOffset
  by_cases hc : 0 < count
  · rw [if_pos hc] at hok ⊢
    exact sat_toDataOffset (fun h => hok fun h' => not_lt.mpr h h'.2) fun h => hbig ⟨hc, h⟩
  · rw [if_neg hc] at hok ⊢
    exact hok fun h => hc h.1

/-- **The serialiser of a dynamic array.** -/
theorem writes_serialiseDynamicArray (hB : LawfulBuffer P B I limit throws) {t : Ty} {α : Type}
    (f : α → BufferArg → ℕ → M B Unit) (g : α → Layout UInt8 Mark)
    (hg : ∀ x, (g x).fixedSize = t.size)
    (hf : ∀ x pos, Writes P I limit throws (g x) pos (f x .direct pos)) (source : ArraySource P α)
    {n : ℕ} (hn : n = source.elements.length) {l : Layout UInt8 Mark}
    (hl : l = .concat (source.elements.map g)) {h : ∀ base, (arrayHeader n base).length = 8}
    (pos : ℕ) :
    Writes P I limit throws
      (.box 8 (fun base => arrayHeader n base) (fun pos base => .elements pos n base) l h) pos
      (serialiseDynamicArray P .plain t (source.map P f) .direct pos) := by
  intro w hI hpos hlim
  have hpos' : pos + 8 ≤ (bytes w.buffer).length := hpos
  obtain ⟨happ, hcount⟩ := sat_serialiseElements hB f g hg hf source
  rw [← hl] at happ
  rw [← hn] at hcount
  rw [Leaves, serialiseDynamicArray, sat_bind, sat_getSpan_direct, sat_bind]
  -- the elements come first, at what is the end of the buffer by then
  refine ((happ w hI hlim).and (hcount w)).mono ?_ ?_
  · rintro count w₁ ⟨⟨hI₁, hb₁, hk⟩, hret⟩
    have hlen₁ : (bytes w₁.buffer).length =
        (bytes w.buffer).length + (l.fixedSize + l.variableSize) := by
      simp [hb₁]
    have hlim₁ : (bytes w₁.buffer).length < limit := hlen₁ ▸ hlim
    rw [hret, sat_bind]
    refine sat_toDynamicArraySize (fun hcount => ?_) fun hcount => ?_
    · rw [sat_bind]
      refine (sat_pushUnsigned hB n hI₁ (by omega) hlim₁).mono ?_ fun _ _ h => h.elim
      rintro - w₂ ⟨rfl, hI₂, hb₂⟩
      have hlen₂ : (bytes w₂.buffer).length = (bytes w₁.buffer).length := by
        rw [hb₂, length_overwrite (by rw [length_toBytes]; omega)]
      rw [sat_bind]
      refine sat_elementsOffset (fun hoff => ?_) fun hoff => ?_
      · -- the elements are in place: the header is written in front of them
        rw [sat_bind]
        refine (sat_pushUnsigned hB _ hI₂ (by omega) (by omega)).mono ?_ fun _ _ h => h.elim
        rintro - w₃ ⟨-, hI₃, hb₃⟩
        have hmark : (Mark.elements pos n (bytes w.buffer).length).failure P = none :=
          (if_neg (not_lt.mpr hcount)).trans (if_neg hoff)
        have hheader : bytes w₃.buffer =
            overwrite (bytes w₁.buffer) pos (arrayHeader n (bytes w.buffer).length) := by
          have htwo := @overwrite_overwrite _ (bytes w₁.buffer) pos (toBytes 4 n)
            (toBytes 4 (if 0 < n then w.current.size else 0))
            (by simp only [length_toBytes]; omega)
          rw [length_toBytes] at htwo
          rw [hb₃, hb₂, htwo]
          rfl
        refine ⟨hI₃, ?_, accepted_cons.mpr ⟨hmark, hk⟩⟩
        rw [hheader, hb₁, overwrite_append _ (by rw [h]; exact hpos')]
        rfl
      · refine ⟨hI₂, fails_of_mark (List.mem_cons_self ..) ?_⟩
        exact (if_neg (not_lt.mpr hcount)).trans (if_pos hoff)
    · exact ⟨hI₁, fails_of_mark (List.mem_cons_self ..) (if_pos hcount)⟩
  · rintro e w₁ ⟨⟨hI₁, he⟩, -⟩
    exact ⟨hI₁, he.mono (List.subset_cons_self ..)⟩

/-! ### All types -/

mutual

/-- **The serialisers write the layout.** -/
theorem serialiser_writes (hB : LawfulBuffer P B I limit throws) :
    ∀ (t : Ty) (v : t.Source P) (pos : ℕ), t.wellFormed = true →
      Writes P I limit throws (layout t (t.value v)) pos (serialiser P .plain t v .direct pos)
  | .scalar s, v, pos, _ => scalarSerialiser_writes hB s v pos
  | .staticArray t n, v, pos, h => by
    have heach := writes_serialiseEach hB (serialiser P .plain t)
      (fun x => layout t (t.value x)) (fun x => fixedSize_layout t (t.value x))
      (fun x pos => serialiser_writes hB t x pos h) v.1 pos
    have hlayout : layout (.staticArray t n) (Ty.value (.staticArray t n) v) =
        .concat (v.1.map fun x => layout t (t.value x)) := by
      rw [layout, Ty.value, List.map_map]
      rfl
    intro w hI hpos hlim
    rw [hlayout] at hpos hlim ⊢
    rw [Leaves, serialiser, sat_bind]
    exact heach w hI hpos hlim
  | .dynamicArray t, v, pos, h => by
    refine writes_serialiseDynamicArray hB (serialiser P .plain t) (fun x => layout t (t.value x))
      (fun x => fixedSize_layout t (t.value x)) (fun x pos => serialiser_writes hB t x pos h) v
      ?_ ?_ pos
    · exact (List.length_map _).trans (List.length_map _)
    · exact congrArg Layout.concat List.map_map
  | .pair a b, v, pos, h => by
    obtain ⟨ha, hb⟩ := Bool.and_eq_true_iff.mp h
    have hsecond := (serialiser_writes hB b v.2 (pos + a.size) hb).serialiseWith b
    refine Writes.push hB (fixedSize_layout a (a.value v.1))
      ((serialiser_writes hB a v.1 pos ha).serialiseWith a) ?_
    intro w hI hpos hlim
    rw [Leaves, sat_bind, pushFixedSubobject, sat_bind]
    exact hsecond w hI hpos hlim
  | .tuple ts, v, pos, h => serialiseFields_writes hB ts v pos h
  | .optional _, none, pos, _ => writes_serialiseAbsent hB pos
  | .optional t, some v, pos, h =>
    writes_serialisePresent hB (fixedSize_layout t (t.value v))
      (fun pos => serialiser_writes hB t v pos h) pos
  | .variant .nil, _, pos, _ => writes_serialiseEmptyVariant hB pos
  | .variant (.cons _ _ _), none, pos, _ => by
    -- valueless: it throws before anything is written
    intro w hI hpos hlim
    exact ⟨hI, fails_of_mark (List.mem_singleton_self _) rfl⟩
  | .variant (.cons name t ts), some v, pos, h => by
    obtain ⟨hlen, hts⟩ := Bool.and_eq_true_iff.mp h
    have hindex := (TypeList.cons name t ts).alternativeIndex_alternative v
    have hle : (TypeList.cons name t ts).alternativeIndex v ≤ maxVariantTypes :=
      (TypeList.alternativeIndex_lt _ v).le.trans (of_decide_eq_true hlen)
    have happ := serialiseAlternative_appends hB (.cons name t ts) v hts
    show Writes P I limit throws _ pos (serialiseVariant P .plain
      ((TypeList.cons name t ts).alternativeIndex v) _ .direct pos)
    rw [← hindex] at hle ⊢
    exact writes_serialiseVariant hB hle happ pos
  | .record fs _, v, pos, h =>
    serialiseFields_writes hB fs v pos (Bool.and_eq_true_iff.mp h).2

/-- The serialisers of a list of types, likewise. -/
theorem serialiseFields_writes (hB : LawfulBuffer P B I limit throws) :
    ∀ (ts : TypeList) (v : ts.Data (ArraySource P)) (pos : ℕ), ts.wellFormed = true →
      Writes P I limit throws (layoutFields ts (ts.value v)) pos
        (serialiseFields P .plain ts v .direct pos)
  | .nil, _, pos, _ => writes_empty pos ()
  | .cons _ t ts, v, pos, h =>
    have ⟨ht, hts⟩ := Bool.and_eq_true_iff.mp h
    Writes.push hB (fixedSize_layout t (t.value v.1))
      ((serialiser_writes hB t v.1 pos ht).serialiseWith t)
      (serialiseFields_writes hB ts v.2 (pos + t.size) hts)

/-- The visitor of a variant appends the alternative. -/
theorem serialiseAlternative_appends (hB : LawfulBuffer P B I limit throws) :
    ∀ (ts : TypeList) (v : ts.Alternative (ArraySource P)), ts.wellFormed = true →
      Appends P I limit throws (layoutAlternative ts (ts.alternative v))
        (serialiseAlternative P .plain ts v .direct)
  | .nil, v, _ => nomatch v
  | .cons _ t _, .inl v, h =>
    have ⟨ht, _⟩ := Bool.and_eq_true_iff.mp h
    Writes.pushVariable hB ((fixedSize_layout t (t.value v)).trans (Nat.mul_one _).symm)
      fun pos => (serialiser_writes hB t v pos ht).serialiseWith t
  | .cons _ _ ts, .inr v, h =>
    serialiseAlternative_appends hB ts v (Bool.and_eq_true_iff.mp h).2

end

end SerialisePP
