import SerialisePP.Inheritance
import SerialisePP.Parse

/-!
# Reading an object as one of another type

A reader goes by its own type, and nothing in the bytes says what they were written as. So an
object may well be read as one of another type: a record as one of its bases, which is what the
conversion of a deserialiser does, but also a variant as one with fewer alternatives, as long as
it holds one that is known, or either of them inside of an object that refers to it by an offset.

`SerialisePP.Ty.Shows` says which value it is that is read. The rule behind it is that a reader
finds what it looks for if everything before it has the size it expects: so records may be longer
at the end, but the elements of an array must not. It is sound for arbitrary bytes, wherever they
come from (`SerialisePP.read_as`).
-/

namespace SerialisePP

open Deserialiser

/-! ### What an object looks like as another type -/

/-- The elements of an array as those of another one, which may be shorter. -/
def ShowsEach {α β : Type} (R : α → β → Prop) (xs : List α) (ys : List β) : Prop :=
  ∀ (i : ℕ) (y : β), ys[i]? = some y → ∃ x, xs[i]? = some x ∧ R x y

theorem ShowsEach.length_le {α β : Type} {R : α → β → Prop} {xs : List α} {ys : List β}
    (h : ShowsEach R xs ys) : ys.length ≤ xs.length := by
  by_contra hlt
  obtain ⟨x, hx, -⟩ := h xs.length _ (List.getElem?_eq_getElem (not_le.mp hlt))
  exact absurd (List.getElem?_eq_some_iff.mp hx).1 (Nat.lt_irrefl _)

mutual

/-- **An object that is `v'` as a `t'` is `v` as a `t`.** -/
def Ty.Shows : (t' t : Ty) → t'.Value → t.Value → Prop
  | .scalar s', .scalar s, v', v => ∃ h : s' = s, h ▸ v' = v
  | .staticArray t' _, .staticArray t _, v', v =>
    t'.size = t.size ∧ ShowsEach (t'.Shows t) v'.1 v.1
  | .dynamicArray t', .dynamicArray t, v', v =>
    t'.size = t.size ∧ List.length v' = List.length v ∧ ShowsEach (t'.Shows t) v' v
  | .pair a' b', .pair a b, v', v => a'.size = a.size ∧ a'.Shows a v'.1 v.1 ∧ b'.Shows b v'.2 v.2
  | .tuple ts', .tuple ts, v', v => ts'.Shows ts v' v
  | .optional _, .optional _, none, none => True
  | .optional t', .optional t, some v', some v => t'.Shows t v' v
  | .variant _, .variant .nil, _, _ => True
  | .variant (.cons _ _ _), .variant (.cons _ _ _), none, none => True
  | .variant (.cons name' t' ts'), .variant (.cons name t ts), some v', some v =>
    TypeList.ShowsAlternative (.cons name' t' ts') (.cons name t ts) v' v
  | .record fs' _, .record fs _, v', v => fs'.Shows fs v' v
  | _, _, _, _ => False

/-- Fields side by side, of which the last one may be longer; those that follow are not looked
at. -/
def TypeList.Shows : (ts' ts : TypeList) → ts'.Data List → ts.Data List → Prop
  | _, .nil, _, _ => True
  | .cons _ t' ts', .cons _ t ts, v', v =>
    t'.Shows t v'.1 v.1 ∧ (ts = .nil ∨ t'.size = t.size) ∧ ts'.Shows ts v'.2 v.2
  | .nil, .cons _ _ _, _, _ => False

/-- The same alternative. -/
def TypeList.ShowsAlternative : (ts' ts : TypeList) → ts'.Alternative List → ts.Alternative List →
    Prop
  | .cons _ t' _, .cons _ t _, .inl v', .inl v => t'.Shows t v' v
  | .cons _ _ ts', .cons _ _ ts, .inr v', .inr v => ts'.ShowsAlternative ts v' v
  | _, _, _, _ => False

end

/-! ### Sizes -/

mutual

/-- **What is shown is no larger.** -/
theorem Ty.Shows.size_le : ∀ (t' t : Ty) (v' : t'.Value) (v : t.Value), t'.Shows t v' v →
    t.size ≤ t'.size
  | .scalar s', t, v', v, h => by
    cases t with
    | scalar s =>
      obtain ⟨rfl, -⟩ := h
      exact le_rfl
    | _ => exact h.elim
  | .staticArray t' n', t, v', v, h => by
    cases t with
    | staticArray t n =>
      obtain ⟨hsize, helements⟩ := h
      have hle := helements.length_le
      rw [v.2, v'.2] at hle
      exact Nat.mul_le_mul hsize.ge hle
    | _ => exact h.elim
  | .dynamicArray t', t, v', v, h => by
    cases t with
    | dynamicArray t => exact le_rfl
    | _ => exact h.elim
  | .pair a' b', t, v', v, h => by
    cases t with
    | pair a b =>
      obtain ⟨hsize, -, hb⟩ := h
      exact Nat.add_le_add hsize.ge (Ty.Shows.size_le b' b v'.2 v.2 hb)
    | _ => exact h.elim
  | .tuple ts', t, v', v, h => by
    cases t with
    | tuple ts => exact TypeList.Shows.size_le ts' ts v' v h
    | _ => exact h.elim
  | .optional t', t, v', v, h => by
    cases t with
    | optional t => exact le_rfl
    | _ => exact (by cases v' <;> exact h.elim)
  | .variant ts', t, v', v, h => by
    cases t with
    | variant ts => exact le_rfl
    | _ => exact (by cases ts' <;> cases v' <;> exact h.elim)
  | .record fs' _, t, v', v, h => by
    cases t with
    | record fs _ => exact TypeList.Shows.size_le fs' fs v' v h
    | _ => exact h.elim

theorem TypeList.Shows.size_le : ∀ (ts' ts : TypeList) (v' : ts'.Data List) (v : ts.Data List),
    ts'.Shows ts v' v → ts.size ≤ ts'.size
  | _, .nil, _, _, _ => Nat.zero_le _
  | .nil, .cons _ _ _, _, _, h => h.elim
  | .cons _ t' ts', .cons _ t ts, v', v, h => by
    obtain ⟨ht, hsize, hts⟩ := h
    have hrest := TypeList.Shows.size_le ts' ts v'.2 v.2 hts
    exact Nat.add_le_add (Ty.Shows.size_le t' t v'.1 v.1 ht) hrest

end

/-! ### Reading it -/

section Parse

variable {mem : List UInt8}

/-- The elements of an array, read as those of another type. -/
theorem elementsAt_shows {α β : Type} {f : ℕ → Option α} {g : ℕ → Option β} {R : α → β → Prop}
    (hfg : ∀ pos x y, R x y → f pos = some x → g pos = some y) {k pos : ℕ} {xs : List α}
    {ys : List β} (h : ShowsEach R xs ys) {n : ℕ} (hxs : elementsAt f k n pos = some xs) :
    elementsAt g k ys.length pos = some ys := by
  obtain ⟨-, hat⟩ := elementsAt_eq_some_iff.mp hxs
  refine elementsAt_eq_some_iff.mpr ⟨rfl, fun i y hy => ?_⟩
  obtain ⟨x, hx, hxy⟩ := h i y hy
  exact hfg _ x y hxy (hat i x hx)

/-- What is inside of the buffer as one type is inside of it as the other. -/
theorem within_shows {t' t : Ty} {v' : t'.Value} {v : t.Value} (h : t'.Shows t v' v) {pos : ℕ}
    {next' : Option t'.Value} {next : Option t.Value} (hp : within mem t' pos next' = some v')
    (hnext : next' = some v' → next = some v) : within mem t pos next = some v := by
  obtain ⟨hle, hnext'⟩ := within_eq_some.mp hp
  have hsize := Ty.Shows.size_le t' t v' v h
  exact within_eq_some.mpr ⟨by omega, hnext hnext'⟩

mutual

/-- **Bytes that are parsed as one type are parsed as the other**, whatever they are: by induction
over the types. -/
theorem parse_shows : ∀ (t' t : Ty) (v' : t'.Value) (v : t.Value) (pos : ℕ), t'.Shows t v' v →
    parse mem t' pos = some v' → parse mem t pos = some v
  | .scalar s', t, v', v, pos, h, hp => by
    cases t with
    | scalar s =>
      obtain ⟨rfl, rfl⟩ := h
      exact hp
    | _ => exact h.elim
  | .staticArray t' n', t, v', v, pos, h, hp => by
    cases t with
    | staticArray t n =>
      refine within_shows h hp fun hnext => (subtype_eq_some_iff v.2).mpr ?_
      obtain ⟨hsize, helements⟩ := h
      have helements' := elementsAt_shows (fun pos x y => parse_shows t' t x y pos) helements
        ((subtype_eq_some_iff v'.2).mp hnext)
      rwa [v.2, hsize] at helements'
    | _ => exact h.elim
  | .dynamicArray t', t, v', v, pos, h, hp => by
    cases t with
    | dynamicArray t =>
      refine within_shows h hp fun hnext => ?_
      obtain ⟨hsize, hlen, helements⟩ := h
      have helements' := elementsAt_shows (fun pos x y => parse_shows t' t x y pos) helements hnext
      rwa [← hlen, (elementsAt_eq_some_iff.mp hnext).1, hsize] at helements'
    | _ => exact h.elim
  | .pair a' b', t, v', v, pos, h, hp => by
    cases t with
    | pair a b =>
      refine within_shows h hp fun hnext => ?_
      obtain ⟨hsize, ha, hb⟩ := h
      obtain ⟨hpa, hpb⟩ := pair_eq_some_iff.mp hnext
      rw [hsize] at hpb
      exact pair_eq_some_iff.mpr ⟨parse_shows a' a v'.1 v.1 pos ha hpa,
        parse_shows b' b v'.2 v.2 _ hb hpb⟩
    | _ => exact h.elim
  | .tuple ts', t, v', v, pos, h, hp => by
    cases t with
    | tuple ts => exact within_shows h hp fun hnext => parseFields_shows ts' ts v' v pos h hnext
    | _ => exact h.elim
  | .optional t', t, v', v, pos, h, hp => by
    cases t with
    | optional t =>
      refine within_shows h hp fun hnext => ?_
      split_ifs at hnext ⊢ with hzero
      · obtain rfl := Option.some.inj hnext
        cases v with
        | none => rfl
        | some x => exact h.elim
      · obtain ⟨x', hx', rfl⟩ := bind_pure_eq_some_iff.mp hnext
        cases v with
        | none => exact h.elim
        | some x => exact bind_of_some (parse_shows t' t x' x _ h hx') _
    | _ => exact (by cases v' <;> exact h.elim)
  | .variant .nil, t, v', v, pos, h, hp => by
    cases t with
    | variant ts =>
      cases ts with
      | nil =>
        refine within_shows h hp fun _ => ?_
        cases v with
        | none => rfl
        | some x => cases x
      | cons name t ts => cases v' <;> exact h.elim
    | _ => exact h.elim
  | .variant (.cons name' t' ts'), t, v', v, pos, h, hp => by
    cases t with
    | variant ts =>
      cases ts with
      | nil =>
        refine within_shows h hp fun _ => ?_
        cases v with
        | none => rfl
        | some x => cases x
      | cons name t ts =>
        refine within_shows h hp fun hnext => ?_
        obtain ⟨x', hx', rfl⟩ := bind_pure_eq_some_iff.mp hnext
        cases v with
        | none => exact h.elim
        | some x =>
          exact bind_of_some (parseAlternative_shows (.cons name' t' ts') (.cons name t ts) x' x _ _
            h hx') _
    | _ => exact (by cases v' <;> exact h.elim)
  | .record fs' _, t, v', v, pos, h, hp => by
    cases t with
    | record fs _ => exact within_shows h hp fun hnext => parseFields_shows fs' fs v' v pos h hnext
    | _ => exact h.elim

theorem parseFields_shows : ∀ (ts' ts : TypeList) (v' : ts'.Data List) (v : ts.Data List)
    (pos : ℕ), ts'.Shows ts v' v → parseFields mem ts' pos = some v' →
      parseFields mem ts pos = some v
  | _, .nil, _, _, _, _, _ => rfl
  | .nil, .cons _ _ _, _, _, _, h, _ => h.elim
  | .cons _ t' ts', .cons _ t ts, v', v, pos, h, hp => by
    obtain ⟨ht, hsize, hts⟩ := h
    obtain ⟨hpt, hpts⟩ := pair_eq_some_iff.mp hp
    refine pair_eq_some_iff.mpr ⟨parse_shows t' t v'.1 v.1 pos ht hpt, ?_⟩
    have hrest := parseFields_shows ts' ts v'.2 v.2 _ hts hpts
    rcases hsize with rfl | hsize
    · rfl
    · rwa [hsize] at hrest

theorem parseAlternative_shows : ∀ (ts' ts : TypeList) (v' : ts'.Alternative List)
    (v : ts.Alternative List) (index pos : ℕ), ts'.ShowsAlternative ts v' v →
      parseAlternative mem ts' index pos = some v' → parseAlternative mem ts index pos = some v
  | .nil, _, v', _, _, _, _, _ => nomatch v'
  | .cons _ _ _, .nil, _, v, _, _, _, _ => nomatch v
  | .cons _ t' ts', .cons _ t ts, v', v, 0, pos, h, hp => by
    obtain ⟨x', hx', rfl⟩ := bind_pure_eq_some_iff.mp hp
    cases v with
    | inl x => exact bind_of_some (parse_shows t' t x' x pos h hx') _
    | inr x => exact h.elim
  | .cons _ t' ts', .cons _ t ts, v', v, index + 1, pos, h, hp => by
    obtain ⟨x', hx', rfl⟩ := bind_pure_eq_some_iff.mp hp
    cases v with
    | inl x => exact h.elim
    | inr x => exact bind_of_some (parseAlternative_shows ts' ts x' x index pos h hx') _

end

end Parse

/-! ### The ways to show an object -/

mutual

/-- Every object shows what it is. -/
theorem Ty.shows_refl : ∀ (t : Ty) (v : t.Value), t.Shows t v v
  | .scalar _, _ => ⟨rfl, rfl⟩
  | .staticArray t _, _ => ⟨rfl, fun _ x hx => ⟨x, hx, t.shows_refl x⟩⟩
  | .dynamicArray t, _ => ⟨rfl, rfl, fun _ x hx => ⟨x, hx, t.shows_refl x⟩⟩
  | .pair a b, v => ⟨rfl, a.shows_refl v.1, b.shows_refl v.2⟩
  | .tuple ts, v => ts.shows_refl v
  | .optional _, none => trivial
  | .optional t, some v => t.shows_refl v
  | .variant .nil, _ => trivial
  | .variant (.cons _ _ _), none => trivial
  | .variant (.cons name t ts), some v => TypeList.showsAlternative_refl (.cons name t ts) v
  | .record fs _, v => fs.shows_refl v

theorem TypeList.shows_refl : ∀ (ts : TypeList) (v : ts.Data List), ts.Shows ts v v
  | .nil, _ => trivial
  | .cons _ t ts, v => ⟨t.shows_refl v.1, .inr rfl, ts.shows_refl v.2⟩

theorem TypeList.showsAlternative_refl : ∀ (ts : TypeList) (v : ts.Alternative List),
    ts.ShowsAlternative ts v v
  | .nil, v => nomatch v
  | .cons _ t _, .inl v => t.shows_refl v
  | .cons _ _ ts, .inr v => ts.showsAlternative_refl v

end

/-- The first fields of a record: those of a base. -/
def TypeList.takeData {A : Type → Type} : (ts : TypeList) → (n : ℕ) → ts.Data A → (ts.take n).Data A
  | _, 0, _ => ()
  | .nil, _ + 1, _ => ()
  | .cons _ _ ts, n + 1, v => (v.1, ts.takeData n v.2)

/-- **A record shows the fields of its bases.** -/
theorem TypeList.shows_take : ∀ (ts : TypeList) (n : ℕ) (v : ts.Data List),
    ts.Shows (ts.take n) v (ts.takeData n v)
  | .nil, 0, _ => trivial
  | .cons _ _ _, 0, _ => trivial
  | .nil, _ + 1, _ => trivial
  | .cons _ t ts, n + 1, v => ⟨t.shows_refl v.1, .inr rfl, ts.shows_take n v.2⟩

/-- An alternative, among more of them. -/
def TypeList.widen {A : Type → Type} (us : TypeList) :
    (ts : TypeList) → ts.Alternative A → (ts.concat us).Alternative A
  | .nil, v => nomatch v
  | .cons _ _ _, .inl v => .inl v
  | .cons _ _ ts, .inr v => .inr (widen us ts v)

/-- **A variant shows the alternatives that are known.** -/
theorem TypeList.showsAlternative_widen (us : TypeList) : ∀ (ts : TypeList)
    (v : ts.Alternative List), (ts.concat us).ShowsAlternative ts (us.widen ts v) v
  | .nil, v => nomatch v
  | .cons _ t _, .inl v => t.shows_refl v
  | .cons _ _ ts, .inr v => showsAlternative_widen us ts v

theorem TypeList.length_le_concat (us ts : TypeList) : ts.length ≤ (ts.concat us).length := by
  cases ts with
  | nil => exact Nat.zero_le _
  | cons name t ts => exact Nat.succ_le_succ (length_le_concat us ts)

/-- What is known is parsed among more alternatives. -/
theorem parseAlternative_widen {mem : List UInt8} (us ts : TypeList) (v : ts.Alternative List)
    (index pos : ℕ) (h : parseAlternative mem ts index pos = some v) :
    parseAlternative mem (ts.concat us) index pos = some (us.widen ts v) := by
  cases ts with
  | nil => exact v.elim
  | cons name t ts =>
    cases index with
    | zero =>
      obtain ⟨x, hx, rfl⟩ := bind_pure_eq_some_iff.mp h
      exact bind_of_some hx _
    | succ index =>
      obtain ⟨x, hx, rfl⟩ := bind_pure_eq_some_iff.mp h
      exact bind_of_some (parseAlternative_widen us ts x index pos hx) _

/-! ### Reading another type -/

section Reading

variable {P : Platform} {mem : List UInt8} {offset : ℕ}

/-- A value that is read is the only one. -/
theorem readsAs_iff_eq (hlen : mem.length < P.sizeRange) {t : Ty}
    (ht : t.wellFormed = true) (hs : t.Small) {v : t.Value} (h : parse mem t offset = some v)
    (u : t.Value) : ReadsAs P mem t offset u ↔ u = v := by
  rw [readsAs_iff_parse hlen t offset u ht hs, h]
  exact Option.some_inj.trans eq_comm

/-- **Reading an object as one of another type** yields what it shows, whatever the bytes. -/
theorem read_as (hlen : mem.length < P.sizeRange) {t' t : Ty}
    (ht' : t'.wellFormed = true) (hs' : t'.Small) (ht : t.wellFormed = true) (hs : t.Small)
    {v' : t'.Value} (h : ReadsAs P mem t' offset v') {v : t.Value} (hshows : t'.Shows t v' v)
    (u : t.Value) : ReadsAs P mem t offset u ↔ u = v := by
  have hparse := (readsAs_iff_parse hlen t' offset v' ht' hs').mp h
  exact readsAs_iff_eq hlen ht hs (parse_shows t' t v' v offset hshows hparse) u

/-- A record that has got a field more, in an optional. -/
theorem read_as_longer :
    let t' : Ty := .optional (.record (.cons "a" (.unsigned 1) (.cons "b" (.unsigned 2) .nil)) [])
    let t : Ty := .optional (.record (.cons "a" (.unsigned 1) .nil) [])
    let v' : t'.Value := some ((7 : Fin (256 ^ 1)), (513 : Fin (256 ^ 2)), ())
    let v : t.Value := some ((7 : Fin (256 ^ 1)), ())
    let mem : List UInt8 := [5, 0, 0, 0, 7, 1, 2]
    ReadsAs .x64 mem t' 0 v' ∧ ∀ u, ReadsAs .x64 mem t 0 u ↔ u = v := by
  intro t' t v' v mem
  have hs' : t'.Small := ⟨by decide, show 1 < 2 ^ 32 by decide, show 2 < 2 ^ 32 by decide, trivial⟩
  have hs : t.Small := ⟨by decide, show 1 < 2 ^ 32 by decide, trivial⟩
  have h : ReadsAs .x64 mem t' 0 v' :=
    (readsAs_iff_parse (by decide) t' 0 v' (by decide) hs').mpr rfl
  have hshows : t'.Shows t v' v := ⟨⟨rfl, rfl⟩, .inl rfl, trivial⟩
  exact ⟨h, read_as (by decide) (by decide) hs' (by decide) hs h hshows⟩

/-- **A record is read as any of its bases** from the same place: either way, by `deserialise` or
by converting the deserialiser, this yields the fields of the base. -/
theorem read_as_base (hlen : mem.length < P.sizeRange) {fs : TypeList}
    {bases rest : List ℕ} (ht : (Ty.record fs bases).wellFormed = true)
    (hs : (Ty.record fs bases).Small) {i n : ℕ}
    (hbase : (fs.length :: bases).drop i = n :: rest) {v : (Ty.record fs bases).Value}
    (h : ReadsAs P mem (.record fs bases) offset v) :
    let base : Ty := .record (fs.take n) rest
    (∀ u, ReadsAs P mem base offset u ↔ u = fs.takeData n v) ∧
      ∃ d, deserialise P (.record fs bases) mem offset = .ok d ∧
        ∃ e : base.Deserialised, toBase P d i = .ok ⟨base, e⟩ ∧
          ∀ u, Yields P base e u ↔ u = fs.takeData n v := by
  intro base
  obtain ⟨hu, hfs⟩ := Bool.and_eq_true_iff.mp ht
  have hsbase : base.Small := ⟨(fs.size_take_le n).trans_lt hs.1, hs.2.take n⟩
  have hparse := (readsAs_iff_parse hlen _ offset v ht hs).mp h
  have hreads : ∀ u, ReadsAs P mem base offset u ↔ u = fs.takeData n v := by
    refine readsAs_iff_eq hlen ?_ hsbase (parse_shows _ base v _ offset ?_ hparse)
    · exact Bool.and_eq_true_iff.mpr ⟨fs.allFieldsUnique_take n hu, fs.wellFormed_take n hfs⟩
    · exact fs.shows_take n v
  refine ⟨hreads, ?_⟩
  have hle := parse_le hparse
  have hlebase : offset + base.size ≤ mem.length :=
    (Nat.add_le_add_left (fs.size_take_le n) offset).trans hle
  refine ⟨_, deserialise_of_le hlen hle, objectAt P mem offset base hlebase, ?_, fun u => ?_⟩
  · exact (toBase_eq ⟨hlen, hle⟩ hbase).trans (deserialiseObject_of_le hlen hlebase)
  · refine Iff.trans ?_ (hreads u)
    rw [readsAs_iff hlen hsbase]
    exact ⟨fun hyields => ⟨hlebase, hyields⟩, fun ⟨_, hyields⟩ => hyields⟩

/-- A record of two fields, derived from one of the first of them. -/
theorem read_as_base_first :
    let fs : TypeList := .cons "a" (.unsigned 1) (.cons "b" (.unsigned 2) .nil)
    let mem : List UInt8 := [7, 1, 2]
    ∀ u, ReadsAs .x64 mem (.record (fs.take 1) []) 0 u ↔ u = ((7 : Fin (256 ^ 1)), ()) := by
  intro fs mem
  let v : (Ty.record fs [1]).Value := ((7 : Fin (256 ^ 1)), (513 : Fin (256 ^ 2)), ())
  have hs : (Ty.record fs [1]).Small :=
    ⟨by decide, show 1 < 2 ^ 32 by decide, show 2 < 2 ^ 32 by decide, trivial⟩
  have h : ReadsAs .x64 mem (.record fs [1]) 0 v :=
    (readsAs_iff_parse (by decide) _ 0 v (by decide) hs).mpr rfl
  exact (read_as_base (i := 1) (by decide) (by decide) hs rfl h).1

/-- **A variant is read as one with fewer alternatives** if and only if it holds one of those,
and then as the same. -/
theorem read_as_variant (hlen : mem.length < P.sizeRange)
    {ts us : TypeList} (hts : ts ≠ .nil) (ht : (Ty.variant (ts.concat us)).wellFormed = true)
    (hs : (Ty.variant (ts.concat us)).Small) {v' : (ts.concat us).Alternative List}
    (h : ReadsAs P mem (.variant (ts.concat us)) offset (some v'))
    (u : Option (ts.Alternative List)) :
    ReadsAs P mem (.variant ts) offset u ↔ ∃ v, u = some v ∧ us.widen ts v = v' := by
  have htake := ts.take_concat us
  obtain ⟨hlength, hwf⟩ := Bool.and_eq_true_iff.mp ht
  have ht' : (Ty.variant ts).wellFormed = true := Bool.and_eq_true_iff.mpr
    ⟨decide_eq_true ((us.length_le_concat ts).trans (of_decide_eq_true hlength)),
      htake ▸ (ts.concat us).wellFormed_take ts.length hwf⟩
  have hs' : (Ty.variant ts).Small := htake ▸ TypeList.Small.take ts.length hs
  have hparse := (readsAs_iff_parse hlen _ offset _ ht hs).mp h
  have hle : offset + 6 ≤ mem.length := parse_le hparse
  refine (readsAs_iff_parse hlen (.variant ts) offset u ht' hs').trans ?_
  cases ts with
  | nil => exact absurd rfl hts
  | cons name t ts =>
    have halternative : parseAlternative mem ((TypeList.cons name t ts).concat us)
        (numberAt mem offset 2) (numberAt mem (offset + 2) 4) = some v' :=
      (bind_pure_eq_some_apply_iff (Option.some_injective _)).mp (within_eq_some.mp hparse).2
    constructor
    · intro hu
      obtain ⟨w, hw, rfl⟩ := bind_pure_eq_some_iff.mp (within_eq_some.mp hu).2
      refine ⟨w, rfl, ?_⟩
      have hwide := parseAlternative_widen us (.cons name t ts) w _ _ hw
      exact Option.some.inj (hwide.symm.trans halternative)
    · rintro ⟨v, rfl, rfl⟩
      exact parse_shows (.variant ((TypeList.cons name t ts).concat us))
        (.variant (.cons name t ts)) (some _) (some v) offset
        (TypeList.showsAlternative_widen us (.cons name t ts) v) hparse

/-- A variant that has got an alternative more, and holds an old one. -/
theorem read_as_variant_known :
    let ts : TypeList := .ofTypes [.unsigned 2, .unsigned 1]
    let us : TypeList := .ofTypes [.scalar .bool]
    let v' : (ts.concat us).Alternative List := .inr (.inl (7 : Fin (256 ^ 1)))
    let mem : List UInt8 := [1, 0, 6, 0, 0, 0, 7]
    ReadsAs .x64 mem (.variant (ts.concat us)) 0 (some v') ∧
      ReadsAs .x64 mem (.variant ts) 0 (some (.inr (.inl (7 : Fin (256 ^ 1))))) := by
  intro ts us v' mem
  have hs : (Ty.variant (ts.concat us)).Small :=
    ⟨show 2 < 2 ^ 32 by decide, show 1 < 2 ^ 32 by decide, show 1 < 2 ^ 32 by decide, trivial⟩
  have h : ReadsAs .x64 mem (.variant (ts.concat us)) 0 (some v') :=
    (readsAs_iff_parse (by decide) _ 0 _ (by decide) hs).mpr rfl
  have hne : ts ≠ .nil := by simp [ts, TypeList.ofTypes]
  exact ⟨h, (read_as_variant (by decide) hne (by decide) hs h _).mpr ⟨_, rfl, rfl⟩⟩

end Reading

end SerialisePP
