import SerialisePP.Contract
import SerialisePP.Lib.Confined

/-!
# Calls of `serialise` that throw

Which exception leaves a call, and what is left of the buffer then. The limits of the format
are checked while a value is being written, so both depend on the order in which the parts are
visited: the elements of a dynamic array come before its count and its offset are checked, and
the offset of an optional or of a variant is checked before the value behind it.
`SerialisePP.checks` lists the marks of a value in that order. It is a permutation of the marks of
the layout (`SerialisePP.checks_perm`), and the exception is that of the first of them that is not
accepted.

A call that throws has written parts of the value, but only where the value was going to be:
within its fixed section, and behind everything that was in the buffer before.
-/

namespace SerialisePP

open Effect LittleEndian Region SerialiseBuffer TwoSection

/-! ### The order of the checks -/

/-- The checks of consecutive objects of one size. -/
def checksEach {α : Type} (size : ℕ) (variableSize : α → ℕ)
    (checks : α → (pos base : ℕ) → List Mark) : List α → (pos base : ℕ) → List Mark
  | [], _, _ => []
  | x :: xs, pos, base =>
    checks x pos base ++ checksEach size variableSize checks xs (pos + size) (base + variableSize x)

mutual

/-- **The marks of a value, in the order in which they are checked.** -/
def checks : (t : Ty) → t.Value → (pos base : ℕ) → List Mark
  | .scalar _, _, _, _ => []
  | .staticArray t _, v, pos, base => checksEach t.size (variableSize t) (checks t) v.1 pos base
  | .dynamicArray t, v, pos, base =>
    -- the elements come first
    checksEach t.size (variableSize t) (checks t) v base (base + t.size * List.length v) ++
      [.elements pos (List.length v) base]
  | .pair a b, v, pos, base =>
    checks a v.1 pos base ++ checks b v.2 (pos + a.size) (base + variableSize a v.1)
  | .tuple ts, v, pos, base => checksFields ts v pos base
  | .optional _, none, _, _ => []
  | .optional t, some v, pos, base => .optional pos base :: checks t v base (base + t.size)
  | .variant .nil, _, _, _ => []
  | .variant (.cons _ _ _), none, _, _ => [.valueless]
  | .variant (.cons name t ts), some v, pos, base =>
    .variant pos ((TypeList.cons name t ts).alternativeIndex v) base ::
      checksAlternative (.cons name t ts) v base
  | .record fs _, v, pos, base => checksFields fs v pos base

/-- The checks of the elements of a tuple or the fields of a record. -/
def checksFields : (ts : TypeList) → ts.Data List → (pos base : ℕ) → List Mark
  | .nil, _, _, _ => []
  | .cons _ t ts, v, pos, base =>
    checks t v.1 pos base ++ checksFields ts v.2 (pos + t.size) (base + variableSize t v.1)

/-- The checks of the alternative of a variant. -/
def checksAlternative : (ts : TypeList) → ts.Alternative List → (base : ℕ) → List Mark
  | .nil, v, _ => nomatch v
  | .cons _ t _, .inl v, base => checks t v base (base + t.size)
  | .cons _ _ ts, .inr v, base => checksAlternative ts v base

end

theorem checksEach_map {α β : Type} (f : α → β) {size : ℕ} {variableSize : β → ℕ}
    {c : β → ℕ → ℕ → List Mark} : ∀ (xs : List α) (pos base : ℕ),
      checksEach size variableSize c (xs.map f) pos base =
        checksEach size (fun x => variableSize (f x)) (fun x => c (f x)) xs pos base
  | [], _, _ => rfl
  | x :: xs, pos, base => by
    rw [List.map_cons, checksEach, checksEach, checksEach_map f xs]

/-- The checks of a row of objects are the marks of the row, if those of each object are. -/
theorem checksEach_perm {α : Type} {size : ℕ} {g : α → Layout UInt8 Mark}
    {c : α → ℕ → ℕ → List Mark} (hsize : ∀ x, (g x).fixedSize = size)
    (hc : ∀ x pos base, (c x pos base).Perm ((g x).marks pos base)) :
    ∀ (xs : List α) (pos base : ℕ),
      (checksEach size (fun x => (g x).variableSize) c xs pos base).Perm
        ((Layout.concat (xs.map g)).marks pos base)
  | [], _, _ => .nil
  | x :: xs, pos, base => by
    rw [List.map_cons, Layout.concat_cons, Layout.marks_append, hsize, checksEach]
    exact (hc x pos base).append (checksEach_perm hsize hc xs _ _)

mutual

/-- **Every mark of a value is checked**, once. -/
theorem checks_perm : ∀ (t : Ty) (v : t.Value) (pos base : ℕ),
    (checks t v pos base).Perm ((layout t v).marks pos base)
  | .scalar _, _, _, _ => .nil
  | .staticArray t n, v, pos, base =>
    checksEach_perm (fixedSize_layout t) (fun x pos base => checks_perm t x pos base) v.1 pos base
  | .dynamicArray t, (v : List t.Value), pos, base => by
    have hk : ∀ l ∈ v.map (layout t), l.fixedSize = t.size := by
      intro l hl
      obtain ⟨x, -, rfl⟩ := List.mem_map.mp hl
      exact fixedSize_layout t x
    have helements := checksEach_perm (fixedSize_layout t)
      (fun x pos base => checks_perm t x pos base) v base (base + t.size * v.length)
    have hmarks : (layout (.dynamicArray t) v).marks pos base = .elements pos v.length base ::
        (Layout.concat (v.map (layout t))).marks base (base + t.size * v.length) := by
      have hfixed := Layout.fixedSize_concat hk
      rw [List.length_map] at hfixed
      have hcount : (v.map (layout t)).length = v.length := List.length_map _
      rw [← hfixed]
      exact congrArg (fun n => Mark.elements pos n base :: _) hcount
    rw [hmarks]
    exact (List.perm_append_singleton _ _).trans (helements.cons _)
  | .pair a b, v, pos, base => by
    rw [layout, Layout.marks_append, fixedSize_layout]
    exact (checks_perm a v.1 pos base).append (checks_perm b v.2 _ _)
  | .tuple ts, v, pos, base => checksFields_perm ts v pos base
  | .optional _, none, _, _ => .nil
  | .optional t, some v, pos, base => by
    refine List.Perm.cons _ ?_
    rw [fixedSize_layout]
    exact checks_perm t v base _
  | .variant .nil, _, _, _ => .nil
  | .variant (.cons _ _ _), none, _, _ => .refl _
  | .variant (.cons name t ts), some v, pos, base =>
    .cons _ (checksAlternative_perm (.cons name t ts) v base)
  | .record fs _, v, pos, base => checksFields_perm fs v pos base

theorem checksFields_perm : ∀ (ts : TypeList) (v : ts.Data List) (pos base : ℕ),
    (checksFields ts v pos base).Perm ((layoutFields ts v).marks pos base)
  | .nil, _, _, _ => .nil
  | .cons _ t ts, v, pos, base => by
    rw [layoutFields, Layout.marks_append, fixedSize_layout]
    exact (checks_perm t v.1 pos base).append (checksFields_perm ts v.2 _ _)

theorem checksAlternative_perm : ∀ (ts : TypeList) (v : ts.Alternative List) (base : ℕ),
    (checksAlternative ts v base).Perm ((layoutAlternative ts v).marks base
      (base + (layoutAlternative ts v).fixedSize))
  | .nil, v, _ => nomatch v
  | .cons _ t _, .inl v, base => by
    show (checks t v base (base + t.size)).Perm ((layout t v).marks base _)
    rw [show (layoutAlternative (.cons _ t _) (.inl v)).fixedSize = t.size from
      fixedSize_layout t v]
    exact checks_perm t v base _
  | .cons _ _ ts, .inr v, base => checksAlternative_perm ts v base

end

/-! ### Runs that fail -/

variable {B : Type} [SerialiseBuffer B] {P : Platform} {I : B → Prop} {limit : ℕ}
  {throws : Exn → Prop}

/-- **How a run over some checks fails**: with an exception of the buffer, or with that of the
first check that fails. -/
def Aborts (P : Platform) (throws : Exn → Prop) (ks : List Mark) (e : Failure) : Prop :=
  ∃ x, e = .thrown x ∧ (throws x ∨ ks.findSome? (Mark.failure P) = some x)

theorem findSome?_of_accepted {ks : List Mark} (h : Accepted P ks) :
    ks.findSome? (Mark.failure P) = none := List.findSome?_eq_none_iff.mpr h

/-- The first part of a run fails. -/
theorem Aborts.append_left {ks : List Mark} {e : Failure} (h : Aborts P throws ks e)
    (ks' : List Mark) : Aborts P throws (ks ++ ks') e := by
  obtain ⟨x, rfl, hx | hx⟩ := h
  · exact ⟨x, rfl, .inl hx⟩
  · exact ⟨x, rfl, .inr (by rw [List.findSome?_append, hx, Option.some_or])⟩

/-- The first part of a run succeeds, and the second one fails. -/
theorem Aborts.append_right {ks ks' : List Mark} {e : Failure} (hks : Accepted P ks)
    (h : Aborts P throws ks' e) : Aborts P throws (ks ++ ks') e := by
  obtain ⟨x, rfl, hx | hx⟩ := h
  · exact ⟨x, rfl, .inl hx⟩
  · exact ⟨x, rfl, .inr (by
      rw [List.findSome?_append, findSome?_of_accepted hks, Option.none_or, hx])⟩

theorem Aborts.cons {k : Mark} {ks : List Mark} {e : Failure} (hk : k.failure P = none)
    (h : Aborts P throws ks e) : Aborts P throws (k :: ks) e :=
  Aborts.append_right (List.forall_mem_singleton.mpr hk) h

theorem aborts_of_mark {k : Mark} {ks : List Mark} {x : Exn} (hk : k.failure P = some x) :
    Aborts P throws (k :: ks) (.thrown x) :=
  ⟨x, rfl, .inr (by rw [List.findSome?_cons, hk])⟩

theorem Accepted.perm {ks ks' : List Mark} (h : Accepted P ks') (hp : ks.Perm ks') :
    Accepted P ks := fun k hk => h k (hp.mem_iff.mp hk)

/-- **A program that may fail in the middle of writing an object** with these checks: what it has
written by then is within the fixed section, or has been appended. -/
def Breaks (P : Platform) (I : B → Prop) (limit : ℕ) (throws : Exn → Prop) {α : Type}
    (l : Layout UInt8 Mark) (ks : (pos base : ℕ) → List Mark) (pos : ℕ) (m : M B α) : Prop :=
  ∀ w : World B, I w.buffer → pos + l.fixedSize ≤ (bytes w.buffer).length →
    (bytes w.buffer).length + l.variableSize < limit →
    Sat m w (fun _ _ => True) fun e w' => Aborts P throws (ks pos (bytes w.buffer).length) e ∧
      Confined (bytes w.buffer) (bytes w'.buffer) pos l.fixedSize l.variableSize

/-- **A program that may fail in the middle of appending an object.** -/
def BreaksOff (P : Platform) (I : B → Prop) (limit : ℕ) (throws : Exn → Prop) {α : Type}
    (l : Layout UInt8 Mark) (ks : (base : ℕ) → List Mark) (m : M B α) : Prop :=
  ∀ w : World B, I w.buffer → (bytes w.buffer).length + (l.fixedSize + l.variableSize) < limit →
    Sat m w (fun _ _ => True) fun e w' => Aborts P throws (ks (bytes w.buffer).length) e ∧
      Confined (bytes w.buffer) (bytes w'.buffer) 0 0 (l.fixedSize + l.variableSize)

/-- A program that cannot fail. -/
theorem Breaks.of_never {α : Type} {l : Layout UInt8 Mark} {ks : ℕ → ℕ → List Mark} {pos : ℕ}
    {m : M B α} (h : ∀ w : World B, I w.buffer → pos + l.fixedSize ≤ (bytes w.buffer).length →
      (bytes w.buffer).length + l.variableSize < limit →
        Sat m w (fun _ _ => True) fun _ _ => False) : Breaks P I limit throws l ks pos m :=
  fun w hI hpos hlim => (h w hI hpos hlim).mono (fun _ _ _ => trivial) fun _ _ h => h.elim

theorem Breaks.serialiseWith {l : Layout UInt8 Mark} {ks : ℕ → ℕ → List Mark} {pos : ℕ}
    {s : BufferArg → ℕ → M B Unit} (h : Breaks P I limit throws l ks pos (s .direct pos)) (t : Ty) :
    Breaks P I limit throws l ks pos (serialiseWith P .plain t s .direct pos) := by
  intro w hI hpos hlim
  rw [serialiseWith_plain, sat_bind, sat_assertOffset (by omega)]
  exact h w hI hpos hlim

/-- **One object, then the next.** -/
theorem Breaks.push (hB : LawfulBuffer P B I limit throws) {l r : Layout UInt8 Mark} {t : Ty}
    {α : Type} {pos : ℕ} {func : ℕ → M B Unit} {k : ℕ → M B α} {kl kr : ℕ → ℕ → List Mark}
    (ht : l.fixedSize = t.size) (hperm : ∀ pos base, (kl pos base).Perm (l.marks pos base))
    (hw : Writes P I limit throws l pos (func pos))
    (hl : Breaks P I limit throws l kl pos (func pos))
    (hr : Breaks P I limit throws r kr (pos + t.size) (k (pos + t.size))) :
    Breaks P I limit throws (l.append r)
      (fun pos base => kl pos base ++ kr (pos + t.size) (base + l.variableSize)) pos
      (pushFixedSubobject P t pos func >>= k) := by
  intro w hI hpos hlim
  rw [Layout.fixedSize_append] at hpos
  rw [Layout.variableSize_append] at hlim
  have hlt : pos + t.size < P.sizeRange := by
    have := hB.limit_le
    omega
  have hnext : P.wrap (pos + fixedDataSize P t) = pos + t.size := by
    rw [fixedDataSize_of_lt (by omega), Platform.wrap_of_lt hlt]
  have hin : pos + l.fixedSize ≤ (bytes w.buffer).length := by omega
  rw [pushFixedSubobject, sat_bind, sat_bind]
  refine ((hw w hI hin (by omega)).and (hl w hI hin (by omega))).mono ?_ ?_
  · rintro - w₁ ⟨⟨hI₁, hb₁, hm₁⟩, -⟩
    have hlen : (bytes w₁.buffer).length = (bytes w.buffer).length + l.variableSize := by
      rw [hb₁, Layout.length_install hin]
    rw [sat_pure, hnext]
    refine (hr w₁ hI₁ (by omega) (by omega)).mono (fun _ _ _ => trivial) ?_
    rintro e w₂ ⟨he, hc⟩
    rw [hlen] at he
    refine ⟨he.append_right (hm₁.perm (hperm pos _)), ?_⟩
    -- the first object is in place, and the second one is next to it
    have hfirst := hb₁ ▸ Layout.confined_install hin
    refine (hfirst.mono (fun i hi => ?_) le_rfl).trans hc fun i _ hi => ?_
    · rw [Layout.fixedSize_append]
      omega
    · rw [Layout.fixedSize_append]
      omega
  · rintro e w₁ ⟨-, he, hc⟩
    refine ⟨he.append_left _, hc.mono (fun i hi => ?_) ?_⟩
    · rw [Layout.fixedSize_append]
      omega
    · rw [Layout.variableSize_append]
      omega

/-- **Objects in the variable section**: nothing that was there before is touched. -/
theorem Breaks.pushVariable (hB : LawfulBuffer P B I limit throws) (hS : StrongBuffer B I limit)
    {l : Layout UInt8 Mark} {ks : ℕ → ℕ → List Mark} {t : Ty} {count : ℕ} {func : ℕ → M B Unit}
    (ht : l.fixedSize = t.size * count) (hl : ∀ pos, Breaks P I limit throws l ks pos (func pos)) :
    BreaksOff P I limit throws l (fun base => ks base (base + l.fixedSize))
      (pushVariableSubobjects P t count .direct func) := by
  intro w hI hlim
  have hcount : P.wrap (fixedDataSize P t * count) = l.fixedSize := by
    have hlt : l.fixedSize < P.sizeRange := by
      have := hB.limit_le
      omega
    rw [fixedDataSize_eq, ht, Platform.wrap, Platform.wrap, Nat.mod_mul_mod,
      Nat.mod_eq_of_lt (by rwa [← ht])]
  have hextend := (hB.extend_sat w.buffer l.fixedSize hI (by omega)).and
    (hS.extend_error w.buffer l.fixedSize hI (by omega))
  rw [pushVariableSubobjects, sat_bind, sat_getSpan_direct, sat_bind, sat_extend_direct, hcount]
  refine hextend.mono ?_ ?_
  · rintro span b ⟨⟨hI₁, more, hmore, hb₁⟩, -⟩
    have hlen : (bytes b).length = (bytes w.buffer).length + l.fixedSize := by
      rw [hb₁, List.length_append, hmore]
    have hrun := hl (bytes w.buffer).length (w.resized b) hI₁ hlen.ge (by
      show (bytes b).length + l.variableSize < limit
      omega)
    refine hrun.mono (fun _ _ _ => trivial) ?_
    rintro e w₂ ⟨he, hc⟩
    have hlen' : (bytes (w.resized b).buffer).length = (bytes w.buffer).length + l.fixedSize := hlen
    rw [hlen'] at he
    refine ⟨he, ?_⟩
    have hgrow := confined_append (bytes w.buffer) more 0 0
    rw [← hb₁, hmore] at hgrow
    exact hgrow.trans hc fun i hi hin => by omega
  · rintro e b ⟨⟨-, x, rfl, hx⟩, hb⟩
    refine ⟨⟨x, rfl, .inl hx⟩, ?_⟩
    show Confined (bytes w.buffer) (bytes b) 0 0 _
    rw [hb]
    exact .refl ..

/-! ### Arrays, optionals and variants -/

/-- The loop over consecutive elements. -/
theorem breaks_serialiseEach (hB : LawfulBuffer P B I limit throws) {t : Ty} {α : Type}
    {f : α → BufferArg → ℕ → M B Unit} {g : α → Layout UInt8 Mark} {c : α → ℕ → ℕ → List Mark}
    (hg : ∀ x, (g x).fixedSize = t.size)
    (hperm : ∀ x pos base, (c x pos base).Perm ((g x).marks pos base))
    (hw : ∀ x pos, Writes P I limit throws (g x) pos (f x .direct pos))
    (hb : ∀ x pos, Breaks P I limit throws (g x) (c x) pos (f x .direct pos)) (xs : List α)
    (pos : ℕ) :
    Breaks P I limit throws (.concat (xs.map g))
      (checksEach t.size (fun x => (g x).variableSize) c xs) pos
      (serialiseEach P .plain t (xs.map f) .direct pos) := by
  induction xs generalizing pos with
  | nil => exact .of_never fun w _ _ _ => trivial
  | cons x xs ih =>
    rw [List.map_cons, List.map_cons, Layout.concat_cons, serialiseEach]
    exact Breaks.push hB (hg x) (hperm x) ((hw x pos).serialiseWith t) ((hb x pos).serialiseWith t)
      (ih _)

/-- What is left to do once the header of a boxed object has been written. -/
theorem BreaksOff.box {n : ℕ} {header : List UInt8} {l : Layout UInt8 Mark} {ks : ℕ → List Mark}
    {α : Type} {m : M B α} (hm : BreaksOff P I limit throws l ks m) {mem : List UInt8} {pos : ℕ}
    {w : World B} (hI : I w.buffer) (hn : header.length = n) (hpos : pos + n ≤ mem.length)
    (hlim : mem.length + (l.fixedSize + l.variableSize) < limit)
    (hw : bytes w.buffer = overwrite mem pos header) {k : Mark} (hk : k.failure P = none) :
    Sat m w (fun _ _ => True) fun e w' => Aborts P throws (k :: ks mem.length) e ∧
      Confined mem (bytes w'.buffer) pos n (l.fixedSize + l.variableSize) := by
  subst hn
  have hlen : (bytes w.buffer).length = mem.length := by rw [hw, length_overwrite hpos]
  refine (hm w hI (by omega)).mono (fun _ _ _ => trivial) ?_
  rintro e w' ⟨he, hc⟩
  rw [hlen] at he
  refine ⟨he.cons hk, ?_⟩
  have hheader := confined_overwrite hpos
  rw [← hw] at hheader
  have htrans := hheader.trans hc fun i _ hi => by omega
  rwa [Nat.zero_add] at htrans

/-- A header that is written in two parts, when only the first one has been. -/
theorem confined_partial {mem : List UInt8} {pos n : ℕ} {xs : List UInt8} {m : ℕ}
    (hn : xs.length ≤ n) (hpos : pos + n ≤ mem.length) :
    Confined mem (overwrite mem pos xs) pos n m :=
  (confined_overwrite (by omega)).mono (fun i hi => by omega) (Nat.zero_le _)

/-- The serialiser of a present optional: the offset is checked before anything is written. -/
theorem breaks_serialisePresent (hB : LawfulBuffer P B I limit throws)
    (hS : StrongBuffer B I limit) {t : Ty} {l : Layout UInt8 Mark} {ks : ℕ → ℕ → List Mark}
    {s : BufferArg → ℕ → M B Unit} (ht : l.fixedSize = t.size)
    (hl : ∀ pos, Breaks P I limit throws l ks pos (s .direct pos))
    {h : ∀ base, (optionalHeader (base + 1)).length = 4} (pos : ℕ) :
    Breaks P I limit throws
      (.box 4 (fun base => optionalHeader (base + 1)) (fun pos base => .optional pos base) l h)
      (fun pos base => .optional pos base :: ks base (base + t.size)) pos
      (serialisePresent P .plain t s .direct pos) := by
  intro w hI hpos hlim
  have hpos' : pos + 4 ≤ (bytes w.buffer).length := hpos
  have hlim' : (bytes w.buffer).length < limit := Nat.lt_of_add_right_lt hlim
  rw [serialisePresent, sat_bind, sat_getSpan_direct, sat_bind]
  refine sat_toDataOffset (fun hsize => ?_) fun hsize => ?_
  · rw [sat_bind]
    refine (sat_pushUnsigned hB _ hI hpos' hlim').mono ?_ fun _ _ h => h.elim
    rintro - w₁ ⟨-, hI₁, hb₁⟩
    rw [toBytes_wrap] at hb₁
    have hoff := Breaks.pushVariable hB hS (ht.trans (Nat.mul_one _).symm)
      fun pos => (hl pos).serialiseWith t
    rw [ht] at hoff
    exact hoff.box hI₁ (length_toBytes 4 _) hpos' hlim hb₁ (if_neg (not_lt.mpr hsize))
  · exact ⟨aborts_of_mark (if_pos hsize), .refl ..⟩

/-- The serialiser of a variant: the index is written before the offset is checked. -/
theorem breaks_serialiseVariant (hB : LawfulBuffer P B I limit throws) {index : ℕ}
    {l : Layout UInt8 Mark} {ks : ℕ → List Mark} {visit : BufferArg → M B Unit}
    (hindex : index ≤ maxVariantTypes) (hl : BreaksOff P I limit throws l ks (visit .direct))
    {h : ∀ base, (variantHeader index base).length = 6} (pos : ℕ) :
    Breaks P I limit throws
      (.box 6 (fun base => variantHeader index base) (fun pos base => .variant pos index base) l h)
      (fun pos base => .variant pos index base :: ks base) pos
      (serialiseVariant P .plain index visit .direct pos) := by
  intro w hI hpos hlim
  have hpos' : pos + 6 ≤ (bytes w.buffer).length := hpos
  have hlim' : (bytes w.buffer).length < limit := Nat.lt_of_add_right_lt hlim
  have hcast : index % 2 ^ 16 = index := by
    refine Nat.mod_eq_of_lt ?_
    rw [maxVariantTypes] at hindex
    omega
  rw [serialiseVariant, sat_bind, sat_assert (decide_eq_true hindex), hcast, sat_bind]
  refine (sat_pushUnsigned hB index hI (by omega) hlim').mono ?_ fun _ _ h => h.elim
  rintro - w₁ ⟨rfl, hI₁, hb₁⟩
  have hlen₁ : (bytes w₁.buffer).length = (bytes w.buffer).length := by
    rw [hb₁, length_overwrite (by rw [length_toBytes]; omega)]
  have hcurrent : w₁.current.size = (bytes w.buffer).length := hlen₁
  rw [sat_bind, sat_getSpan_direct, sat_bind, hcurrent]
  refine sat_toDataOffset (fun hsize => ?_) fun hsize => ?_
  · rw [sat_bind]
    refine (sat_pushUnsigned hB _ hI₁ (by omega) (by omega)).mono ?_ fun _ _ h => h.elim
    rintro - w₂ ⟨-, hI₂, hb₂⟩
    have htwo := @overwrite_overwrite _ (bytes w.buffer) pos (toBytes 2 index)
      (toBytes 4 (bytes w.buffer).length) (by simp only [length_toBytes]; omega)
    rw [length_toBytes] at htwo
    rw [hb₁, htwo] at hb₂
    exact hl.box hI₂ (by simp) hpos' hlim hb₂ (if_neg (not_lt.mpr hsize))
  · refine ⟨aborts_of_mark (if_pos hsize), ?_⟩
    have hshort : (toBytes 2 index).length ≤ 6 := by
      rw [length_toBytes]
      decide
    rw [hb₁]
    exact confined_partial hshort hpos'

/-- The elements of the source of a dynamic array. -/
theorem breaksOff_serialiseElements (hB : LawfulBuffer P B I limit throws)
    (hS : StrongBuffer B I limit) {t : Ty} {α : Type} {f : α → BufferArg → ℕ → M B Unit}
    {g : α → Layout UInt8 Mark} {c : α → ℕ → ℕ → List Mark} (hg : ∀ x, (g x).fixedSize = t.size)
    (hperm : ∀ x pos base, (c x pos base).Perm ((g x).marks pos base))
    (hw : ∀ x pos, Writes P I limit throws (g x) pos (f x .direct pos))
    (hb : ∀ x pos, Breaks P I limit throws (g x) (c x) pos (f x .direct pos))
    (source : ArraySource P α) :
    BreaksOff P I limit throws (.concat (source.elements.map g))
      (fun base => checksEach t.size (fun x => (g x).variableSize) c source.elements base
        (base + t.size * source.elements.length))
      (serialiseElements P .plain t (source.map P f) .direct) := by
  have hvisit : ∀ xs : List α, BreaksOff P I limit throws (.concat (xs.map g))
      (fun base => checksEach t.size (fun x => (g x).variableSize) c xs base
        (base + t.size * xs.length)) (visitRange P .plain t (xs.map f) .direct) := by
    intro xs
    have hfixed : (Layout.concat (xs.map g)).fixedSize = t.size * xs.length := by
      have hk : ∀ l ∈ xs.map g, l.fixedSize = t.size := by
        intro l hl
        obtain ⟨x, -, rfl⟩ := List.mem_map.mp hl
        exact hg x
      rw [Layout.fixedSize_concat hk, List.length_map]
    have hpush : BreaksOff P I limit throws (.concat (xs.map g))
        (fun base => checksEach t.size (fun x => (g x).variableSize) c xs base
          (base + (Layout.concat (xs.map g)).fixedSize))
        (pushVariableSubobjects P t (xs.map f).length .direct fun pos => do
          let _ ← serialiseEach P .plain t (xs.map f) .direct pos) := by
      refine Breaks.pushVariable hB hS (by rw [hfixed, List.length_map])
        fun pos w hI hpos hlim => ?_
      rw [sat_bind]
      exact breaks_serialiseEach hB hg hperm hw hb xs pos w hI hpos hlim
    intro w hI hlim
    rw [visitRange, sat_bind, ← hfixed]
    exact hpush w hI hlim
  cases source with
  | range xs h => exact hvisit xs
  | nothing =>
    show BreaksOff P I limit throws .empty _ (if P.constantEvaluated then _ else pure 0)
    split_ifs
    · exact hvisit []
    · exact fun w _ _ => trivial

/-- **The serialiser of a dynamic array**: the elements are in place before anything is
checked. -/
theorem breaks_serialiseDynamicArray (hB : LawfulBuffer P B I limit throws)
    (hS : StrongBuffer B I limit) {t : Ty} {α : Type} {f : α → BufferArg → ℕ → M B Unit}
    {g : α → Layout UInt8 Mark} {c : α → ℕ → ℕ → List Mark} (hg : ∀ x, (g x).fixedSize = t.size)
    (hperm : ∀ x pos base, (c x pos base).Perm ((g x).marks pos base))
    (hw : ∀ x pos, Writes P I limit throws (g x) pos (f x .direct pos))
    (hb : ∀ x pos, Breaks P I limit throws (g x) (c x) pos (f x .direct pos))
    (source : ArraySource P α) {n : ℕ} (hn : n = source.elements.length)
    {l : Layout UInt8 Mark} (hl : l = .concat (source.elements.map g))
    {h : ∀ base, (arrayHeader n base).length = 8} (pos : ℕ) :
    Breaks P I limit throws
      (.box 8 (fun base => arrayHeader n base) (fun pos base => .elements pos n base) l h)
      (fun pos base => checksEach t.size (fun x => (g x).variableSize) c source.elements base
        (base + t.size * source.elements.length) ++ [.elements pos n base]) pos
      (serialiseDynamicArray P .plain t (source.map P f) .direct pos) := by
  intro w hI hpos hlim
  have hpos' : pos + 8 ≤ (bytes w.buffer).length := hpos
  obtain ⟨happ, hcount⟩ := sat_serialiseElements hB f g hg hw source
  have hoff := breaksOff_serialiseElements hB hS hg hperm hw hb source
  have hchecks : ∀ base, (checksEach t.size (fun x => (g x).variableSize) c source.elements base
      (base + t.size * source.elements.length)).Perm (l.marks base (base + l.fixedSize)) := by
    have hk : ∀ l' ∈ source.elements.map g, l'.fixedSize = t.size := by
      intro l' hl'
      obtain ⟨x, -, rfl⟩ := List.mem_map.mp hl'
      exact hg x
    intro base
    rw [hl, Layout.fixedSize_concat hk, List.length_map]
    exact checksEach_perm hg hperm source.elements base _
  rw [← hl] at happ hoff
  rw [← hn] at hcount
  rw [serialiseDynamicArray, sat_bind, sat_getSpan_direct, sat_bind]
  refine (((happ w hI hlim).and (hcount w)).and (hoff w hI hlim)).mono ?_ ?_
  · rintro count w₁ ⟨⟨⟨hI₁, hb₁, hk⟩, hret⟩, -⟩
    have hlen₁ : (bytes w₁.buffer).length =
        (bytes w.buffer).length + (l.fixedSize + l.variableSize) := by
      simp [hb₁]
    have hlim₁ : (bytes w₁.buffer).length < limit := hlen₁ ▸ hlim
    have hgrow : Confined (bytes w.buffer) (bytes w₁.buffer) pos 8
        (l.fixedSize + l.variableSize) := by
      have hall := confined_append (bytes w.buffer) (l.fixed ((bytes w.buffer).length + l.fixedSize)
        ++ l.body ((bytes w.buffer).length + l.fixedSize)) pos 8
      rwa [List.length_append, Layout.length_fixed, Layout.length_body, ← hb₁] at hall
    have haccepted := hk.perm (hchecks _)
    rw [hret, sat_bind]
    refine sat_toDynamicArraySize (fun hcount => ?_) fun hcount => ?_
    · rw [sat_bind]
      refine (sat_pushUnsigned hB n hI₁ (by omega) hlim₁).mono ?_ fun _ _ h => h.elim
      rintro - w₂ ⟨rfl, hI₂, hb₂⟩
      have hlen₂ : (bytes w₂.buffer).length = (bytes w₁.buffer).length := by
        rw [hb₂, length_overwrite (by rw [length_toBytes]; omega)]
      rw [sat_bind]
      refine sat_elementsOffset (fun hoff => ?_) fun hoff => ?_
      · rw [sat_bind]
        exact (sat_pushUnsigned hB _ hI₂ (by omega) (by omega)).mono (fun _ _ _ => trivial)
          fun _ _ h => h.elim
      · -- the count has been written in front of an offset that is too big
        have hshort : (toBytes 4 n).length ≤ 8 := by
          rw [length_toBytes]
          decide
        have hheader : Confined (bytes w₁.buffer) (bytes w₂.buffer) pos 8 0 := by
          rw [hb₂]
          exact confined_partial hshort (by omega)
        refine ⟨.append_right haccepted (aborts_of_mark ?_), hgrow.trans hheader fun i _ hi => hi⟩
        exact (if_neg (not_lt.mpr hcount)).trans (if_pos hoff)
    · exact ⟨.append_right haccepted (aborts_of_mark (if_pos hcount)), hgrow⟩
  · rintro e w₁ ⟨-, he, hc⟩
    exact ⟨he.append_left _, hc.mono (fun i hi => by omega) le_rfl⟩

/-! ### All types -/

mutual

/-- **The serialisers, when they fail**: the exception is that of the first check that fails, or
of the buffer, and the damage is confined. -/
theorem serialiser_breaks (hB : LawfulBuffer P B I limit throws) (hS : StrongBuffer B I limit) :
    ∀ (t : Ty) (v : t.Source P) (pos : ℕ), t.wellFormed = true →
      Breaks P I limit throws (layout t (t.value v)) (checks t (t.value v)) pos
        (serialiser P .plain t v .direct pos)
  | .scalar s, v, pos, _ => by
    refine .of_never fun w hI hpos _ => ?_
    have hsize : pos + s.size ≤ (bytes w.buffer).length := by
      rw [← s.length_encode v]
      exact hpos
    exact (sat_scalarSerialiser hB hI s v pos hsize).mono (fun _ _ _ => trivial) fun _ _ h => h
  | .staticArray t n, v, pos, h => by
    have heach := breaks_serialiseEach hB (fun x => fixedSize_layout t (t.value x))
      (fun x => checks_perm t (t.value x)) (fun x pos => serialiser_writes hB t x pos h)
      (fun x pos => serialiser_breaks hB hS t x pos h) v.1 pos
    have hlayout : layout (.staticArray t n) (Ty.value (.staticArray t n) v) =
        .concat (v.1.map fun x => layout t (t.value x)) := by
      rw [layout, Ty.value, List.map_map]
      rfl
    have hchecks : checks (.staticArray t n) (Ty.value (.staticArray t n) v) =
        checksEach t.size (fun x => variableSize t (t.value x)) (fun x => checks t (t.value x))
          v.1 := by
      funext pos base
      exact checksEach_map t.value v.1 pos base
    intro w hI hpos hlim
    rw [hlayout] at hpos hlim ⊢
    rw [hchecks, serialiser, sat_bind]
    exact heach w hI hpos hlim
  | .dynamicArray t, (v : ArraySource P (t.Source P)), pos, h => by
    have hlength : ((v.elements.map t.value).map (layout t)).length = v.elements.length :=
      (List.length_map _).trans (List.length_map _)
    have hchecks : checks (.dynamicArray t) (Ty.value (.dynamicArray t) v) = fun pos base =>
        checksEach t.size (fun x => variableSize t (t.value x)) (fun x => checks t (t.value x))
          v.elements base (base + t.size * v.elements.length) ++
            [.elements pos ((v.elements.map t.value).map (layout t)).length base] := by
      have hvalue : (v.elements.map t.value).length = v.elements.length := List.length_map _
      funext pos base
      rw [hlength, ← checksEach_map t.value (c := checks t), ← hvalue]
      rfl
    rw [hchecks]
    exact breaks_serialiseDynamicArray hB hS (fun x => fixedSize_layout t (t.value x))
      (fun x => checks_perm t (t.value x)) (fun x pos => serialiser_writes hB t x pos h)
      (fun x pos => serialiser_breaks hB hS t x pos h) v hlength
      (congrArg Layout.concat List.map_map) pos
  | .pair a b, v, pos, h => by
    obtain ⟨ha, hb⟩ := Bool.and_eq_true_iff.mp h
    have hsecond := (serialiser_breaks hB hS b v.2 (pos + a.size) hb).serialiseWith b
    refine Breaks.push hB (fixedSize_layout a (a.value v.1)) (checks_perm a (a.value v.1))
      ((serialiser_writes hB a v.1 pos ha).serialiseWith a)
      ((serialiser_breaks hB hS a v.1 pos ha).serialiseWith a) ?_
    intro w hI hpos hlim
    rw [sat_bind, pushFixedSubobject, sat_bind]
    exact hsecond w hI hpos hlim
  | .tuple ts, v, pos, h => serialiseFields_breaks hB hS ts v pos h
  | .optional _, none, pos, _ => by
    refine .of_never fun w hI hpos hlim => ?_
    rw [serialiser, serialiseAbsent, sat_bind]
    exact (sat_pushUnsigned hB 0 hI hpos hlim).mono (fun _ _ _ => trivial) fun _ _ h => h
  | .optional t, some v, pos, h =>
    breaks_serialisePresent hB hS (fixedSize_layout t (t.value v))
      (fun pos => serialiser_breaks hB hS t v pos h) pos
  | .variant .nil, _, pos, _ => by
    refine .of_never fun w hI hpos hlim => ?_
    have hpos' : pos + 6 ≤ (bytes w.buffer).length := hpos
    have hlim' : (bytes w.buffer).length < limit := hlim
    rw [serialiser, serialiseEmptyVariant, sat_bind]
    refine (sat_pushUnsigned hB 0 hI (by omega) hlim').mono ?_ fun _ _ h => h
    rintro - w₁ ⟨rfl, hI₁, hb₁⟩
    have hlen₁ : (bytes w₁.buffer).length = (bytes w.buffer).length := by
      rw [hb₁, length_overwrite (by rw [length_toBytes]; omega)]
    rw [sat_bind]
    exact (sat_pushUnsigned hB 0 hI₁ (by omega) (by omega)).mono (fun _ _ _ => trivial)
      fun _ _ h => h
  | .variant (.cons _ _ _), none, pos, _ => fun w _ _ _ =>
    ⟨aborts_of_mark rfl, .refl ..⟩
  | .variant (.cons name t ts), some v, pos, h => by
    obtain ⟨hlen, hts⟩ := Bool.and_eq_true_iff.mp h
    have hindex := (TypeList.cons name t ts).alternativeIndex_alternative v
    have hle : (TypeList.cons name t ts).alternativeIndex v ≤ maxVariantTypes :=
      (TypeList.alternativeIndex_lt _ v).le.trans (of_decide_eq_true hlen)
    have hoff := serialiseAlternative_breaks hB hS (.cons name t ts) v hts
    show Breaks P I limit throws _ _ pos (serialiseVariant P .plain
      ((TypeList.cons name t ts).alternativeIndex v) _ .direct pos)
    rw [← hindex] at hle ⊢
    exact breaks_serialiseVariant hB hle hoff pos
  | .record fs _, v, pos, h =>
    serialiseFields_breaks hB hS fs v pos (Bool.and_eq_true_iff.mp h).2

/-- The serialisers of a list of types, likewise. -/
theorem serialiseFields_breaks (hB : LawfulBuffer P B I limit throws)
    (hS : StrongBuffer B I limit) :
    ∀ (ts : TypeList) (v : ts.Data (ArraySource P)) (pos : ℕ), ts.wellFormed = true →
      Breaks P I limit throws (layoutFields ts (ts.value v)) (checksFields ts (ts.value v)) pos
        (serialiseFields P .plain ts v .direct pos)
  | .nil, _, _, _ => .of_never fun _ _ _ _ => trivial
  | .cons _ t ts, v, pos, h =>
    have ⟨ht, hts⟩ := Bool.and_eq_true_iff.mp h
    Breaks.push hB (fixedSize_layout t (t.value v.1)) (checks_perm t (t.value v.1))
      ((serialiser_writes hB t v.1 pos ht).serialiseWith t)
      ((serialiser_breaks hB hS t v.1 pos ht).serialiseWith t)
      (serialiseFields_breaks hB hS ts v.2 (pos + t.size) hts)

/-- The visitor of a variant, likewise. -/
theorem serialiseAlternative_breaks (hB : LawfulBuffer P B I limit throws)
    (hS : StrongBuffer B I limit) :
    ∀ (ts : TypeList) (v : ts.Alternative (ArraySource P)), ts.wellFormed = true →
      BreaksOff P I limit throws (layoutAlternative ts (ts.alternative v))
        (checksAlternative ts (ts.alternative v)) (serialiseAlternative P .plain ts v .direct)
  | .nil, v, _ => nomatch v
  | .cons _ t _, .inl v, h => by
    have hoff := Breaks.pushVariable hB hS
      ((fixedSize_layout t (t.value v)).trans (Nat.mul_one _).symm)
      fun pos => (serialiser_breaks hB hS t v pos (Bool.and_eq_true_iff.mp h).1).serialiseWith t
    rw [fixedSize_layout] at hoff
    exact hoff
  | .cons _ _ ts, .inr v, h =>
    serialiseAlternative_breaks hB hS ts v (Bool.and_eq_true_iff.mp h).2

end

/-! ### `serialise` -/

/-- **What a call of `serialise(source, buffer, fixed_offset)` has done when it throws.** -/
theorem serialise_breaks (hB : LawfulBuffer P B I limit throws) (hS : StrongBuffer B I limit)
    {t : Ty} (ht : t.wellFormed = true) (v : t.Source P) {pos : ℕ} {b : B} (hI : I b)
    (hpos : pos + t.size ≤ (bytes b).length)
    (hlim : (bytes b).length + variableSize t (t.value v) < limit) :
    Sat (serialise P t v pos) b (fun _ _ => True) fun e b' =>
      Aborts P throws (checks t (t.value v) pos (bytes b).length) e ∧
        Confined (bytes b) (bytes b') pos t.size (variableSize t (t.value v)) := by
  rw [serialise_eq_plain hB.toSpanLaws]
  refine sat_call ?_
  rw [← fixedSize_layout t (t.value v)] at hpos ⊢
  exact (serialiser_breaks hB hS t v pos ht).serialiseWith t (World.start b) hI hpos hlim

/-- **Whether a call returns or throws, its effects are confined** to the fixed section of the
value and to what it appends. -/
theorem serialise_confined (hB : LawfulBuffer P B I limit throws) (hS : StrongBuffer B I limit)
    {t : Ty} (ht : t.wellFormed = true) (v : t.Source P) {pos : ℕ} {b : B} (hI : I b)
    (hpos : pos + t.size ≤ (bytes b).length)
    (hlim : (bytes b).length + variableSize t (t.value v) < limit) :
    Sat (serialise P t v pos) b
      (fun _ b' => Confined (bytes b) (bytes b') pos t.size (variableSize t (t.value v)))
      fun _ b' => Confined (bytes b) (bytes b') pos t.size (variableSize t (t.value v)) := by
  refine ((serialise_sat hB ht v hI hpos hlim).and
    (serialise_breaks hB hS ht v hI hpos hlim)).mono ?_ fun _ _ h => h.2.2
  rintro - b' ⟨⟨-, hb', -⟩, -⟩
  rw [← fixedSize_layout t (t.value v)] at hpos ⊢
  exact hb' ▸ Layout.confined_install hpos

/-- **A call throws the exception of the first check that fails**, and returns if there is
none. -/
structure ThrowsFirst (P : Platform) (m : EStateM Failure B Unit) (b : B) (ks : List Mark) :
    Prop where
  returns_iff : (∃ b', m b = .ok () b') ↔ ∀ k ∈ ks, k.failure P = none
  throws_iff : ∀ e, (∃ b', m b = .error e b') ↔
    ∃ x, e = .thrown x ∧ ks.findSome? (Mark.failure P) = some x

omit [SerialiseBuffer B] in
theorem throwsFirst_of_sat {m : EStateM Failure B Unit} {b : B} {ks : List Mark}
    (h : Sat m b (fun _ _ => Accepted P ks) fun e _ => Aborts P (fun _ => False) ks e) :
    ThrowsFirst P m b ks := by
  cases hrun : m b with
  | ok a b' =>
    have hks := h.ok hrun
    refine ⟨iff_of_true ⟨b', hrun⟩ hks, fun e => iff_of_false ?_ ?_⟩
    · rintro ⟨b₁, hb₁⟩
      exact absurd (hrun.symm.trans hb₁) nofun
    · rintro ⟨x, -, hx⟩
      exact absurd ((findSome?_of_accepted hks).symm.trans hx) nofun
  | error e b' =>
    obtain ⟨x, rfl, hx | hx⟩ := h.error hrun
    · exact hx.elim
    · refine ⟨iff_of_false ?_ fun hks => ?_, fun e => ⟨?_, ?_⟩⟩
      · rintro ⟨b₁, hb₁⟩
        exact absurd (hrun.symm.trans hb₁) nofun
      · exact absurd ((findSome?_of_accepted hks).symm.trans hx) nofun
      · rintro ⟨b₁, hb₁⟩
        exact ⟨x, (EStateM.Result.error.inj (hrun.symm.trans hb₁)).1.symm, hx⟩
      · rintro ⟨y, rfl, hy⟩
        obtain rfl := Option.some.inj (hx.symm.trans hy)
        exact ⟨b', hrun⟩

/-- **Both outcomes of a call** on a buffer that never fails: the layout, or the exception of the
first check that fails. -/
theorem serialise_outcome (hB : LawfulBuffer P B I limit fun _ => False) {t : Ty}
    (ht : t.wellFormed = true) (v : t.Source P) {pos : ℕ} {b : B} (hI : I b)
    (hpos : pos + t.size ≤ (bytes b).length)
    (hlim : (bytes b).length + variableSize t (t.value v) < limit) :
    Sat (serialise P t v pos) b
      (fun _ b' => bytes b' = (layout t (t.value v)).install (bytes b) pos ∧
        Accepted P (checks t (t.value v) pos (bytes b).length))
      fun e _ => Aborts P (fun _ => False) (checks t (t.value v) pos (bytes b).length) e := by
  refine ((serialise_sat hB ht v hI hpos hlim).and
    (serialise_breaks hB hB.strong ht v hI hpos hlim)).mono ?_ fun _ _ h => h.2.1
  rintro - b' ⟨⟨-, hb', hm⟩, -⟩
  exact ⟨hb', hm.perm (checks_perm t (t.value v) pos _)⟩

/-- The same for `serialise(source, buffer)`. -/
theorem serialiseObject_outcome (hB : LawfulBuffer P B I limit fun _ => False) {t : Ty}
    (ht : t.wellFormed = true) (v : t.Source P) {b : B} (hI : I b)
    (hlim : t.size + variableSize t (t.value v) < limit) :
    Sat (serialiseObject P t v) b
      (fun _ b' =>
        bytes b' = fixedData t (t.value v) t.size ++ variableData t (t.value v) t.size ∧
          Accepted P (checks t (t.value v) 0 t.size))
      fun e _ => Aborts P (fun _ => False) (checks t (t.value v) 0 t.size) e := by
  have hsize : fixedDataSize P t = t.size :=
    fixedDataSize_of_lt ((Nat.lt_of_add_right_lt hlim).trans_le hB.limit_le)
  have hbreaks : Sat (serialiseObject P t v) b (fun _ _ => True)
      fun e _ => Aborts P (fun _ => False) (checks t (t.value v) 0 t.size) e := by
    rw [serialiseObject, sat_bind, hsize]
    refine (hB.initialise_sat b t.size hI (Nat.lt_of_add_right_lt hlim)).mono ?_ ?_
    · rintro - b₁ ⟨hI₁, hlen₁⟩
      have hrun := serialise_outcome hB ht v hI₁ (by rw [hlen₁, Nat.zero_add]) (by rwa [hlen₁])
      rw [hlen₁] at hrun
      exact hrun.mono (fun _ _ _ => trivial) fun _ _ h => h
    · rintro e b₁ ⟨-, x, -, hx⟩
      exact hx.elim
  refine ((serialiseObject_sat hB ht v hI hlim).and hbreaks).mono ?_ fun _ _ h => h.2
  rintro - b' ⟨⟨-, hb', hm⟩, -⟩
  exact ⟨hb', hm.perm (checks_perm t (t.value v) 0 _)⟩

/-- **Exactly which exception is thrown**, on a buffer that never fails: that of the first mark,
in the order in which they are checked, that is not accepted. Nothing else can go wrong. -/
theorem serialise_throws_first (hB : LawfulBuffer P B I limit fun _ => False) {t : Ty}
    (ht : t.wellFormed = true) (v : t.Source P) {b : B} (hI : I b) :
    (∀ pos, pos + t.size ≤ (bytes b).length →
      (bytes b).length + variableSize t (t.value v) < limit →
        ThrowsFirst P (serialise P t v pos) b (checks t (t.value v) pos (bytes b).length)) ∧
      (t.size + variableSize t (t.value v) < limit →
        ThrowsFirst P (serialiseObject P t v) b (checks t (t.value v) 0 t.size)) := by
  refine ⟨fun pos hpos hlim => throwsFirst_of_sat ?_, fun hlim => throwsFirst_of_sat ?_⟩
  · exact (serialise_outcome hB ht v hI hpos hlim).mono (fun _ _ h => h.2) fun _ _ h => h
  · exact (serialiseObject_outcome hB ht v hI hlim).mono (fun _ _ h => h.2) fun _ _ h => h

/-- A present optional of a valueless variant, with no offset left for it: the offset is checked
first. -/
theorem serialise_throws_first_optional :
    let t : Ty := .optional (.variant (.ofTypes [.unsigned 1]))
    let v : t.Source .x64 := some none
    let b : RelocatingBuffer := ⟨List.replicate (2 ^ 32 - 1) 0, id, 0⟩
    ∃ b', serialise .x64 t v 0 b =
      .error (.thrown (.objectSizeError (dataOffsetMessage (2 ^ 32)))) b' := by
  intro t v b
  have hlen : (bytes b).length = 2 ^ 32 - 1 := List.length_replicate
  have hfirst := (serialise_throws_first (relocatingBuffer_lawful .x64) (by decide) v
    (b := b) trivial).1 0 (by rw [hlen]; decide) (by rw [hlen]; decide)
  rw [hlen] at hfirst
  exact (hfirst.throws_iff _).mpr ⟨_, rfl, rfl⟩

end SerialisePP
