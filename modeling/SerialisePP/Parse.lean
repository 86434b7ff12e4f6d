import SerialisePP.Format
import SerialisePP.RoundTrip
import SerialisePP.Safety

/-!
# What arbitrary bytes are read as

The bytes may be anything: nothing says that `serialise` wrote them. `SerialisePP.parse` is the
value that they hold at an offset, if they hold one. It reads what the documented reader reads
(`SerialisePP.decode`), and checks at each object that it moves to that the fixed section lies
in the buffer, as `deserialise` does; the document leaves that check open where nothing is read,
for arrays without elements and for `variant<>`.

The deserialisers are shown to be this parser, taken apart: a full traversal of the object at an
offset goes through, and yields a value, if and only if the parser returns that value
(`SerialisePP.traversal_exact`).
-/

namespace SerialisePP

open Deserialiser Region

/-! ### The parser -/

/-- The number of bytes is checked before an object is looked at. -/
def within {α : Type} (mem : List UInt8) (t : Ty) (pos : ℕ) (next : Option α) : Option α :=
  if pos + t.size ≤ mem.length then next else none

variable (mem : List UInt8)

mutual

/-- **The value of a type that the bytes hold at an offset.** -/
def parse : (t : Ty) → (pos : ℕ) → Option t.Value
  | .scalar s, pos => do
    let bytes ← bytesAt mem pos s.size
    pure (s.decode bytes.1 bytes.2)
  | .staticArray t n, pos => within mem (.staticArray t n) pos do
    let elements ← elementsAt (parse t) t.size n pos
    if h : elements.length = n then pure ⟨elements, h⟩ else none
  | .dynamicArray t, pos => within mem (.dynamicArray t) pos
    (elementsAt (parse t) t.size (numberAt mem pos 4) (numberAt mem (pos + 4) 4))
  | .pair a b, pos => within mem (.pair a b) pos do
    let first ← parse a pos
    let second ← parse b (pos + a.size)
    pure (first, second)
  | .tuple ts, pos => within mem (.tuple ts) pos (parseFields ts pos)
  | .optional t, pos => within mem (.optional t) pos
    (if numberAt mem pos 4 = 0 then some none
    else do
      let value ← parse t (numberAt mem pos 4 - 1)
      pure (some value))
  | .variant .nil, pos => within mem (.variant .nil) pos (some none)
  | .variant (.cons name t ts), pos => within mem (.variant (.cons name t ts)) pos do
    let value ← parseAlternative (.cons name t ts) (numberAt mem pos 2) (numberAt mem (pos + 2) 4)
    pure (some value)
  | .record fs bases, pos => within mem (.record fs bases) pos (parseFields fs pos)

/-- The elements of a tuple or the fields of a record, those of the base first. -/
def parseFields : (ts : TypeList) → (pos : ℕ) → Option (ts.Data List)
  | .nil, _ => some ()
  | .cons _ t ts, pos => do
    let first ← parse t pos
    let rest ← parseFields ts (pos + t.size)
    pure (first, rest)

/-- The alternative of a variant with an index. -/
def parseAlternative : (ts : TypeList) → (index offset : ℕ) → Option (ts.Alternative List)
  | .nil, _, _ => none
  | .cons _ t _, 0, offset => do
    let value ← parse t offset
    pure (.inl value)
  | .cons _ _ ts, index + 1, offset => do
    let value ← parseAlternative ts index offset
    pure (.inr value)

end

variable {mem} {P : Platform}

/-! ### What a parse consists of -/

theorem within_eq_some {α : Type} {t : Ty} {pos : ℕ} {next : Option α} {a : α} :
    within mem t pos next = some a ↔ pos + t.size ≤ mem.length ∧ next = some a := by
  rw [within]
  split_ifs with h
  · exact (and_iff_right h).symm
  · exact iff_of_false nofun fun ha => h ha.1

/-- **A row of objects, one by one.** -/
theorem elementsAt_eq_some_iff {α : Type} {element : ℕ → Option α} {k : ℕ} {n pos : ℕ}
    {xs : List α} : elementsAt element k n pos = some xs ↔
      xs.length = n ∧ ∀ (i : ℕ) (x : α), xs[i]? = some x → element (pos + k * i) = some x := by
  induction n generalizing pos xs with
  | zero =>
    rw [elementsAt, Option.some_inj, List.length_eq_zero_iff, eq_comm]
    refine ⟨fun h => ⟨h, fun i x hx => ?_⟩, And.left⟩
    rw [h] at hx
    contradiction
  | succ n ih =>
    have hplace : ∀ i, pos + k * (i + 1) = pos + k + k * i := fun i => by
      rw [Nat.mul_succ, Nat.add_assoc, Nat.add_comm k]
    constructor
    · intro h
      obtain ⟨x, hx, h⟩ := Option.bind_eq_some_iff.mp h
      obtain ⟨ys, hys, h⟩ := Option.bind_eq_some_iff.mp h
      obtain rfl := Option.some.inj h
      obtain ⟨hlen, hat⟩ := ih.mp hys
      refine ⟨by rw [List.length_cons, hlen], fun i y hy => ?_⟩
      cases i with
      | zero =>
        obtain rfl := Option.some.inj hy
        exact hx
      | succ i =>
        rw [hplace]
        exact hat i y hy
    · rintro ⟨hlen, hat⟩
      cases xs with
      | nil => contradiction
      | cons x xs =>
        have hx : element pos = some x := hat 0 x rfl
        have hxs : elementsAt element k n (pos + k) = some xs :=
          ih.mpr ⟨Nat.succ.inj hlen, fun i y hy => hplace i ▸ hat (i + 1) y hy⟩
        rw [elementsAt, bind_of_some hx, bind_of_some hxs]
        rfl

/-- **Whatever is parsed lies in the buffer.** -/
theorem parse_le {t : Ty} {pos : ℕ} {v : t.Value} (h : parse mem t pos = some v) :
    pos + t.size ≤ mem.length := by
  cases t with
  | scalar s =>
    obtain ⟨bytes, hbytes, -⟩ := Option.bind_eq_some_iff.mp h
    by_contra hcontra
    exact absurd ((dif_neg hcontra).symm.trans hbytes) nofun
  | variant ts =>
    cases ts with
    | nil => exact (within_eq_some.mp h).1
    | cons name t ts => exact (within_eq_some.mp h).1
  | _ => exact (within_eq_some.mp h).1

/-! ### What a traversal consists of -/

/-- **A full traversal of the object at an offset goes through, and yields a value.** -/
def ReadsAs (P : Platform) (mem : List UInt8) (t : Ty) (pos : ℕ) (v : t.Value) : Prop :=
  ∃ d, deserialise P t mem pos = .ok d ∧ Yields P t d v

theorem deserialise_eq_ok_iff (hlen : mem.length < P.sizeRange) {t : Ty} (ht : t.Small) {pos : ℕ}
    {d : t.Deserialised} : deserialise P t mem pos = .ok d ↔
      ∃ h : pos + t.size ≤ mem.length, d = objectAt P mem pos t h := by
  rw [deserialise_eq hlen ht.size_lt_sizeRange]
  split_ifs with h
  · constructor
    · intro hd
      exact ⟨h, (Except.ok.inj hd).symm⟩
    · rintro ⟨-, rfl⟩
      rfl
  · exact iff_of_false nofun fun hd => h hd.1

theorem readsAs_iff (hlen : mem.length < P.sizeRange) {t : Ty} (ht : t.Small) {pos : ℕ}
    {v : t.Value} : ReadsAs P mem t pos v ↔
      ∃ h : pos + t.size ≤ mem.length, Yields P t (objectAt P mem pos t h) v := by
  constructor
  · rintro ⟨d, hd, hv⟩
    obtain ⟨h, rfl⟩ := (deserialise_eq_ok_iff hlen ht).mp hd
    exact ⟨h, hv⟩
  · rintro ⟨h, hv⟩
    exact ⟨_, deserialise_of_le hlen h, hv⟩

/-! ### Elements that are read in turn -/

/-- **Addresses that are checked in turn do not wrap around**: as there is room for an element at
one, the next one is still a `std::size_t`. -/
theorem lt_sizeRange_of_checked {pos k n : ℕ} (hpos : pos < P.sizeRange)
    (hchecked : ∀ i < n, P.wrap (pos + k * i) + k < P.sizeRange) :
    ∀ i ≤ n, pos + k * i < P.sizeRange
  | 0, _ => hpos
  | i + 1, hi => by
    have hlt := lt_sizeRange_of_checked hpos hchecked i (Nat.le_of_succ_le hi)
    have hnext := hchecked i hi
    rw [Platform.wrap_of_lt hlt, Nat.add_assoc, ← Nat.mul_succ] at hnext
    exact hnext

/-- **An element is read where it is** if all elements before it have been read, however large
`std::size_t` is. -/
theorem dynamicIndex_of_forall_lt {t : Ty} (ht : t.Small) {d : Deserialiser (.dynamicArray t)}
    (hd : d.Valid P) {i : ℕ} (hi : i < numberAt d.buffer d.fixedOffset 4)
    (hread : ∀ j < i, ∃ e, d.dynamicIndex P j = .ok e) : d.dynamicIndex P i =
      deserialise P t d.buffer (numberAt d.buffer (d.fixedOffset + 4) 4 + t.size * i) := by
  have hfix : d.fixedOffset + 8 ≤ d.buffer.length := hd.fixed_le
  have hlen := hd.length_lt
  have hstart : numberAt d.buffer (d.fixedOffset + 4) 4 < 256 ^ 4 := numberAt_lt (by omega)
  rw [dynamicIndex_eq hd hi, Platform.wrap_of_lt]
  refine lt_sizeRange_of_checked (hstart.trans_le Platform.two_pow_32_le_sizeRange)
    (fun j hj => ?_) i le_rfl
  obtain ⟨e, he⟩ := hread j hj
  rw [dynamicIndex_eq hd (hj.trans hi)] at he
  exact ((deserialise_eq_ok_iff hlen ht).mp he).1.trans_lt hlen

section Parts

variable {pos : ℕ}

theorem deserialiseObject_eq_ok_iff {t : Ty} {x : Object} :
    deserialiseObject P mem pos (some t) = .ok x ↔
      ∃ e, deserialise P t mem pos = .ok e ∧ x = ⟨t, e⟩ := by
  rw [deserialiseObject]
  cases hrun : deserialise P t mem pos with
  | ok e =>
    constructor
    · intro hx
      exact ⟨e, rfl, (Except.ok.inj hx).symm⟩
    · rintro ⟨e', he', rfl⟩
      obtain rfl := Except.ok.inj he'
      rfl
  | error f =>
    refine iff_of_false (fun hx => ?_) ?_
    · cases hx
    · rintro ⟨e, he, -⟩
      contradiction

/-- Objects that all accessors in question agree on. -/
theorem exists_ok_iff {α : Type} {m : Except Failure α} {Q : α → Prop} {R : α → Prop}
    (hR : ∀ e, m = .ok e → R e) : (∃ e, m = .ok e ∧ R e ∧ Q e) ↔ ∃ e, m = .ok e ∧ Q e := by
  constructor
  · rintro ⟨e, he, -, hQ⟩
    exact ⟨e, he, hQ⟩
  · rintro ⟨e, he, hQ⟩
    exact ⟨e, he, hR e he, hQ⟩

theorem yields_staticArray_iff (hlen : mem.length < P.sizeRange) {t : Ty} {n : ℕ}
    (h : pos + (Ty.staticArray t n).size ≤ mem.length) {v : (Ty.staticArray t n).Value} :
    Yields P (.staticArray t n) (objectAt P mem pos (.staticArray t n) h) v ↔
      ∀ (i : ℕ) (x : t.Value), v.1[i]? = some x → ReadsAs P mem t (pos + t.size * i) x := by
  have hd : Deserialiser.Valid P (objectAt P mem pos (.staticArray t n) h) := ⟨hlen, h⟩
  have hindex : ∀ {i : ℕ}, i < n → Deserialiser.staticIndex P
      (objectAt P mem pos (.staticArray t n) h) i = deserialise P t mem (pos + t.size * i) :=
    fun hi => staticIndex_eq hd hi
  have hlt : ∀ {i : ℕ} {x : t.Value}, v.1[i]? = some x → i < n := fun hx =>
    v.2 ▸ (List.getElem?_eq_some_iff.mp hx).1
  constructor
  · rintro ⟨-, hall⟩ i x hx
    obtain ⟨e, he, -, -, -, hex⟩ := hall i x hx
    exact ⟨e, (hindex (hlt hx)).symm.trans he, hex⟩
  · refine fun hall => ⟨by simp [Deserialiser.staticElements], fun i x hx => ?_⟩
    obtain ⟨e, he, hex⟩ := hall i x hx
    have he' := (hindex (hlt hx)).trans he
    refine ⟨e, he', (if_pos (hlt hx)).trans he', (if_pos (hlt hx)).trans he', ?_, hex⟩
    exact (staticElements_getElem? _ (hlt hx)).trans (congrArg some he')

theorem yields_dynamicArray_iff (hlen : mem.length < P.sizeRange) {t : Ty} (ht : t.Small)
    (h : pos + (Ty.dynamicArray t).size ≤ mem.length) {v : List t.Value} :
    Yields P (.dynamicArray t) (objectAt P mem pos (.dynamicArray t) h) v ↔
      v.length = numberAt mem pos 4 ∧ ∀ (i : ℕ) (x : t.Value), v[i]? = some x →
        ReadsAs P mem t (numberAt mem (pos + 4) 4 + t.size * i) x := by
  have hd : Deserialiser.Valid P (objectAt P mem pos (.dynamicArray t) h) := ⟨hlen, h⟩
  have hsize : Deserialiser.size P (objectAt P mem pos (.dynamicArray t) h) =
      .ok (numberAt mem pos 4) := size_eq hd
  constructor
  · rintro ⟨hcount, -, _, -, -, hall⟩
    have hn : v.length = numberAt mem pos 4 := ok_inj hcount hsize
    refine ⟨hn, fun i x hx => ?_⟩
    obtain ⟨e, he, -, -, hex⟩ := hall i x hx
    have hi : i < v.length := (List.getElem?_eq_some_iff.mp hx).1
    refine ⟨e, (dynamicIndex_of_forall_lt ht hd (hn ▸ hi) fun j hj => ?_).symm.trans he, hex⟩
    obtain ⟨e', he', -⟩ := hall j _ (List.getElem?_eq_getElem (hj.trans hi))
    exact ⟨e', he'⟩
  · rintro ⟨hn, hall⟩
    rw [← hn] at hsize
    refine ⟨hsize, ?_, _, bind_of_ok hsize _, by simp, fun i x hx => ?_⟩
    · rw [list_isEmpty_eq]
      exact bind_of_ok hsize _
    · have hi : i < v.length := (List.getElem?_eq_some_iff.mp hx).1
      obtain ⟨e, he, hex⟩ := hall i x hx
      -- the element is in the buffer, which a `std::size_t` can address
      have hle := ((deserialise_eq_ok_iff hlen ht).mp he).1
      have hindex : Deserialiser.dynamicIndex P (objectAt P mem pos (.dynamicArray t) h) i =
          deserialise P t mem (P.wrap (numberAt mem (pos + 4) 4 + t.size * i)) :=
        dynamicIndex_eq hd (hn ▸ hi)
      rw [Platform.wrap_of_lt ((Nat.le_of_add_right_le hle).trans_lt hlen)] at hindex
      have he' := hindex.trans he
      refine ⟨e, he', (bind_of_ok hsize _).trans ((if_pos hi).trans he'), ?_, hex⟩
      rw [List.getElem?_map, List.getElem?_range hi]
      exact congrArg some he'

theorem yields_pair_iff (hlen : mem.length < P.sizeRange) {a b : Ty}
    (h : pos + (Ty.pair a b).size ≤ mem.length) {v : (Ty.pair a b).Value} :
    Yields P (.pair a b) (objectAt P mem pos (.pair a b) h) v ↔
      ReadsAs P mem a pos v.1 ∧ ReadsAs P mem b (pos + a.size) v.2 := by
  have hd : Deserialiser.Valid P (objectAt P mem pos (.pair a b) h) := ⟨hlen, h⟩
  have hsecond : Deserialiser.second P (objectAt P mem pos (.pair a b) h) =
      deserialise P b mem (pos + a.size) := second_eq hd
  refine and_congr (exists_ok_iff fun e he => bind_of_ok he _) ?_
  refine (exists_ok_iff fun e he => bind_of_ok he _).trans ?_
  rw [hsecond]
  exact Iff.rfl

theorem yields_optional_none_iff (hlen : mem.length < P.sizeRange) {t : Ty}
    (h : pos + (Ty.optional t).size ≤ mem.length) :
    Yields P (.optional t) (objectAt P mem pos (.optional t) h) none ↔ numberAt mem pos 4 = 0 := by
  have hd : Deserialiser.Valid P (objectAt P mem pos (.optional t) h) := ⟨hlen, h⟩
  have hhas : Deserialiser.hasValue P (objectAt P mem pos (.optional t) h) =
      .ok (decide (0 < numberAt mem pos 4)) := hasValue_eq hd
  constructor
  · rintro ⟨hfalse, -⟩
    exact Nat.eq_zero_of_not_pos (of_decide_eq_false (ok_inj hhas hfalse))
  · intro hzero
    refine ⟨hhas.trans (congrArg Except.ok (decide_eq_false hzero.not_gt)), ?_⟩
    exact (value_eq hd).trans (if_neg hzero.not_gt)

theorem yields_optional_some_iff (hlen : mem.length < P.sizeRange) {t : Ty}
    (h : pos + (Ty.optional t).size ≤ mem.length) {v : t.Value} :
    Yields P (.optional t) (objectAt P mem pos (.optional t) h) (some v) ↔
      0 < numberAt mem pos 4 ∧ ReadsAs P mem t (numberAt mem pos 4 - 1) v := by
  have hd : Deserialiser.Valid P (objectAt P mem pos (.optional t) h) := ⟨hlen, h⟩
  have hhas : Deserialiser.hasValue P (objectAt P mem pos (.optional t) h) =
      .ok (decide (0 < numberAt mem pos 4)) := hasValue_eq hd
  have hderef : 0 < numberAt mem pos 4 → Deserialiser.deref P
      (objectAt P mem pos (.optional t) h) = deserialise P t mem (numberAt mem pos 4 - 1) :=
    fun hpos => deref_eq hd hpos
  constructor
  · rintro ⟨htrue, e, he, -, hev⟩
    have hpos := of_decide_eq_true (ok_inj hhas htrue)
    exact ⟨hpos, e, (hderef hpos).symm.trans he, hev⟩
  · rintro ⟨hpos, e, he, hev⟩
    have he' := (hderef hpos).trans he
    refine ⟨hhas.trans (congrArg Except.ok (decide_eq_true hpos)), e, he', ?_, hev⟩
    exact (value_eq hd).trans ((if_pos hpos).trans he)

/-- The alternative of a variant, at an offset. -/
def ReadsAlternativeAs (P : Platform) (mem : List UInt8) (ts : TypeList) (pos : ℕ)
    (v : ts.Alternative List) : Prop :=
  ∃ x, deserialiseObject P mem pos (ts.element (ts.alternativeIndex v)) = .ok x ∧
    YieldsAlternative P ts x v

theorem yields_variant_iff (hlen : mem.length < P.sizeRange) {name : String} {t : Ty}
    {ts : TypeList} (h : pos + (Ty.variant (.cons name t ts)).size ≤ mem.length)
    {v : (TypeList.cons name t ts).Alternative List} :
    Yields P (.variant (.cons name t ts)) (objectAt P mem pos (.variant (.cons name t ts)) h)
        (some v) ↔
      numberAt mem pos 2 = (TypeList.cons name t ts).alternativeIndex v ∧
        ReadsAlternativeAs P mem (.cons name t ts) (numberAt mem (pos + 2) 4) v := by
  have hd : Deserialiser.Valid P (objectAt P mem pos (.variant (.cons name t ts)) h) := ⟨hlen, h⟩
  have hindex : Deserialiser.index P (objectAt P mem pos (.variant (.cons name t ts)) h) =
      .ok (numberAt mem pos 2) := index_eq hd (Nat.succ_ne_zero _)
  have hlt := (TypeList.cons name t ts).alternativeIndex_lt v
  constructor
  · rintro ⟨hi, -, x, hx, -, hxv⟩
    have hn := ok_inj hindex hi
    refine ⟨hn, x, ?_, hxv⟩
    exact (((get_eq hd hlt).trans (if_pos hn.symm)).symm.trans hx)
  · rintro ⟨hn, x, hx, hxv⟩
    have hget := (getAlternative_eq hd _).trans hx
    obtain ⟨u, hu⟩ := TypeList.exists_element _ _ hlt
    refine ⟨hindex.trans (congrArg Except.ok hn), fun i hi hne => ?_, x, ?_, fun σ R visitor => ?_,
      hxv⟩
    · exact (get_eq hd hi).trans (if_neg fun he => hne (he.trans hn))
    · exact (get_eq hd hlt).trans ((if_pos hn.symm).trans hx)
    · rw [hu] at hx
      obtain ⟨e, -, rfl⟩ := deserialiseObject_eq_ok_iff.mp hx
      rw [Visitor.visit_of_lt hd (hn.trans_lt hlt)]
      show Visitor.callOn P _ visitor (numberAt mem pos 2) = _
      rw [hn, Visitor.callOn_of_ok hu hget]

end Parts

/-! ### The traversal and the parser -/

/-- Two values that are read one after the other. -/
theorem pair_eq_some_iff {α β : Type} {m : Option α} {n : Option β} {a : α} {b : β} :
    (do let x ← m; let y ← n; pure (x, y)) = some (a, b) ↔ m = some a ∧ n = some b := by
  cases m with
  | none => exact iff_of_false nofun fun h => nomatch h.1
  | some x =>
    cases n with
    | none => exact iff_of_false nofun fun h => nomatch h.2
    | some y => simp

/-- Two steps, the second of which is certain. -/
theorem bind_pure_eq_some_iff {α β : Type} {m : Option α} {f : α → β} {b : β} :
    (do let a ← m; pure (f a)) = some b ↔ ∃ a, m = some a ∧ f a = b := by
  refine Option.bind_eq_some_iff.trans (exists_congr fun a => and_congr_right fun _ => ?_)
  exact Option.some_inj

theorem bind_pure_eq_some_apply_iff {α β : Type} {m : Option α} {f : α → β}
    (hf : Function.Injective f) {a : α} :
    (do let x ← m; pure (f x)) = some (f a) ↔ m = some a := by
  refine bind_pure_eq_some_iff.trans ⟨?_, fun h => ⟨a, h, rfl⟩⟩
  rintro ⟨x, hx, he⟩
  rwa [← hf he]

/-- A list whose length is checked. -/
theorem subtype_eq_some_iff {α : Type} {m : Option (List α)} {n : ℕ} {xs : List α}
    (hxs : xs.length = n) :
    (do let ys ← m; if h : ys.length = n then pure (⟨ys, h⟩ : { l : List α // l.length = n })
        else none) = some ⟨xs, hxs⟩ ↔ m = some xs := by
  constructor
  · intro h
    obtain ⟨ys, hys, h⟩ := Option.bind_eq_some_iff.mp h
    split_ifs at h
    obtain rfl := congrArg Subtype.val (Option.some.inj h)
    exact hys
  · intro h
    rw [bind_of_some h, dif_pos hxs]
    rfl

/-- An object is read as a value if its parts are, given that its fixed section is in the
buffer. -/
theorem readsAs_iff_within (hlen : mem.length < P.sizeRange) {t : Ty} (ht : t.Small) {pos : ℕ}
    {v : t.Value} {next : Option t.Value} (hparse : parse mem t pos = within mem t pos next)
    (h : ∀ h : pos + t.size ≤ mem.length, Yields P t (objectAt P mem pos t h) v ↔
      next = some v) : ReadsAs P mem t pos v ↔ parse mem t pos = some v := by
  rw [readsAs_iff hlen ht, hparse, within_eq_some, ← exists_prop]
  exact exists_congr h

theorem parseAlternative_index : ∀ {ts : TypeList} {index offset : ℕ} {v : ts.Alternative List},
    parseAlternative mem ts index offset = some v → ts.alternativeIndex v = index
  | .nil, _, _, v, _ => nomatch v
  | .cons _ _ _, 0, _, v, h => by
    obtain ⟨x, -, rfl⟩ := bind_pure_eq_some_iff.mp h
    rfl
  | .cons _ _ ts, index + 1, _, v, h => by
    obtain ⟨x, hx, rfl⟩ := bind_pure_eq_some_iff.mp h
    exact congrArg (· + 1) (parseAlternative_index hx)

mutual

/-- **A full traversal goes through, and yields a value, if and only if the bytes are parsed as
that value**: by induction over the types. -/
theorem readsAs_iff_parse (hlen : mem.length < P.sizeRange) :
    ∀ (t : Ty) (pos : ℕ) (v : t.Value), t.wellFormed = true → t.Small →
      (ReadsAs P mem t pos v ↔ parse mem t pos = some v)
  | .scalar s, pos, v, _, hs => by
    rw [readsAs_iff hlen hs]
    refine Iff.symm (bind_pure_eq_some_iff.trans ?_)
    by_cases h : pos + s.size ≤ mem.length
    · rw [bytesAt, dif_pos h]
      constructor
      · rintro ⟨bytes, hbytes, rfl⟩
        obtain rfl := Option.some.inj hbytes
        exact ⟨h, (Scalar.decode_eq P s _ _).symm⟩
      · rintro ⟨_, hv⟩
        exact ⟨_, rfl, (Scalar.decode_eq P s _ _).trans hv⟩
    · rw [bytesAt, dif_neg h]
      refine iff_of_false ?_ fun hv => h hv.1
      rintro ⟨bytes, hbytes, -⟩
      contradiction
  | .staticArray t n, pos, v, ht, hs => by
    refine readsAs_iff_within hlen hs rfl fun h => (yields_staticArray_iff hlen h).trans ?_
    refine Iff.trans ?_ (subtype_eq_some_iff v.2).symm
    refine Iff.trans ?_ elementsAt_eq_some_iff.symm
    refine Iff.trans ?_ (and_iff_right v.2).symm
    exact forall_congr' fun i => forall_congr' fun x => imp_congr_right fun _ =>
      readsAs_iff_parse hlen t _ x ht hs.2
  | .dynamicArray t, pos, v, ht, hs => by
    have hsmall : t.Small := hs
    refine readsAs_iff_within hlen hs rfl fun h =>
      (yields_dynamicArray_iff hlen hsmall h).trans ?_
    refine Iff.trans ?_ elementsAt_eq_some_iff.symm
    exact and_congr_right fun _ => forall_congr' fun i => forall_congr' fun x =>
      imp_congr_right fun _ => readsAs_iff_parse hlen t _ x ht hs
  | .pair a b, pos, v, ht, hs => by
    obtain ⟨ha, hb⟩ := Bool.and_eq_true_iff.mp ht
    refine readsAs_iff_within hlen hs rfl fun h => (yields_pair_iff hlen h).trans ?_
    exact (and_congr (readsAs_iff_parse hlen a pos v.1 ha hs.2.1)
      (readsAs_iff_parse hlen b (pos + a.size) v.2 hb hs.2.2)).trans pair_eq_some_iff.symm
  | .tuple ts, pos, v, ht, hs => by
    refine readsAs_iff_within hlen hs rfl fun h => ?_
    have hd : Deserialiser.Valid P (objectAt P mem pos (.tuple ts) h) := ⟨hlen, h⟩
    exact yieldsFields_iff_parse hlen ts pos v _ ht hs.2 fun i name t hi _ => tupleGet_eq hd hi
  | .optional t, pos, none, ht, hs => by
    refine readsAs_iff_within hlen hs rfl fun h => (yields_optional_none_iff hlen h).trans ?_
    split_ifs with hzero
    · exact iff_of_true hzero rfl
    · refine iff_of_false hzero fun hv => ?_
      obtain ⟨x, -, hx⟩ := bind_pure_eq_some_iff.mp hv
      contradiction
  | .optional t, pos, some v, ht, hs => by
    refine readsAs_iff_within hlen hs rfl fun h => (yields_optional_some_iff hlen h).trans ?_
    split_ifs with hzero
    · exact iff_of_false (fun hv => hv.1.ne' hzero) fun hv => nomatch Option.some.inj hv
    · refine (and_iff_right (Nat.pos_of_ne_zero hzero)).trans ?_
      exact (readsAs_iff_parse hlen t _ v ht hs).trans
        (bind_pure_eq_some_apply_iff (Option.some_injective _)).symm
  | .variant .nil, pos, none, _, hs =>
    readsAs_iff_within hlen hs rfl fun h => iff_of_true trivial rfl
  | .variant .nil, _, some v, _, _ => nomatch v
  | .variant (.cons name t ts), pos, none, _, hs => by
    refine readsAs_iff_within hlen hs rfl fun h => iff_of_false (fun hv => hv) fun hv => ?_
    obtain ⟨x, -, hx⟩ := bind_pure_eq_some_iff.mp hv
    contradiction
  | .variant (.cons name t ts), pos, some v, ht, hs => by
    refine readsAs_iff_within hlen hs rfl fun h => (yields_variant_iff hlen h).trans ?_
    have hts := (Bool.and_eq_true_iff.mp ht).2
    refine (and_congr_right fun _ => readsAlternativeAs_iff_parse hlen (.cons name t ts) _ v
      hts hs).trans (Iff.trans ?_ (bind_pure_eq_some_apply_iff (Option.some_injective _)).symm)
    constructor
    · rintro ⟨hn, hv⟩
      exact hn ▸ hv
    · intro hv
      have hn := parseAlternative_index hv
      exact ⟨hn.symm, hn ▸ hv⟩
  | .record fs bases, pos, v, ht, hs => by
    obtain ⟨hu, hfs⟩ := Bool.and_eq_true_iff.mp ht
    refine readsAs_iff_within hlen hs rfl fun h => ?_
    have hd : Deserialiser.Valid P (objectAt P mem pos (.record fs bases) h) := ⟨hlen, h⟩
    have hindex := yieldsFields_iff_parse hlen fs pos v
      (fun i _ => Deserialiser.recordGetIndex P (objectAt P mem pos (.record fs bases) h) i) hfs
      hs.2 fun i name t hi _ => recordGetIndex_eq hd hu hi
    have hname := yieldsFields_iff_parse hlen fs pos v
      (fun _ name => Deserialiser.recordGet P (objectAt P mem pos (.record fs bases) h) name) hfs
      hs.2 fun i name t hi hn => recordGet_eq hd hu hi hn
    exact (and_congr hindex hname).trans (and_self_iff)

/-- The elements of a tuple or the fields of a record, by any accessor that deserialises each
at its place. -/
theorem yieldsFields_iff_parse (hlen : mem.length < P.sizeRange) :
    ∀ (ts : TypeList) (pos : ℕ) (v : ts.Data List) (accessor : ℕ → String → Except Failure Object),
      ts.wellFormed = true → ts.Small →
        (∀ i name t, ts.element i = some t → ts.fieldName i = some name →
          accessor i name = deserialiseObject P mem (pos + (ts.take i).size) (some t)) →
            (YieldsFields P ts accessor v ↔ parseFields mem ts pos = some v)
  | .nil, _, _, _, _, _, _ => iff_of_true trivial rfl
  | .cons name t ts, pos, v, accessor, hts, hs, haccessor => by
    obtain ⟨ht, hts'⟩ := Bool.and_eq_true_iff.mp hts
    have hfirst : (∃ e, accessor 0 name = .ok ⟨t, e⟩ ∧ Yields P t e v.1) ↔
        ReadsAs P mem t pos v.1 := by
      rw [haccessor 0 name t rfl rfl]
      refine exists_congr fun e => and_congr_left fun _ => deserialiseObject_eq_ok_iff.trans ?_
      constructor
      · rintro ⟨e', he', hx⟩
        obtain rfl := eq_of_heq (Sigma.mk.inj hx).2
        exact he'
      · exact fun he => ⟨e, he, rfl⟩
    refine (and_congr (hfirst.trans (readsAs_iff_parse hlen t pos v.1 ht hs.1))
      (yieldsFields_iff_parse hlen ts (pos + t.size) v.2 _ hts' hs.2
        fun i n u hu hn => ?_)).trans pair_eq_some_iff.symm
    rw [haccessor (i + 1) n u hu hn, TypeList.take, TypeList.size, ← Nat.add_assoc]

/-- The alternative of a variant. -/
theorem readsAlternativeAs_iff_parse (hlen : mem.length < P.sizeRange) :
    ∀ (ts : TypeList) (pos : ℕ) (v : ts.Alternative List), ts.wellFormed = true → ts.Small →
      (ReadsAlternativeAs P mem ts pos v ↔
        parseAlternative mem ts (ts.alternativeIndex v) pos = some v)
  | .nil, _, v, _, _ => nomatch v
  | .cons name t ts, pos, .inl v, hts, hs => by
    have hparse : parseAlternative mem (.cons name t ts) 0 pos = some (.inl v) ↔
        parse mem t pos = some v :=
      bind_pure_eq_some_apply_iff Sum.inl_injective
    refine Iff.trans ?_ ((readsAs_iff_parse hlen t pos v (Bool.and_eq_true_iff.mp hts).1
      hs.1).trans hparse.symm)
    constructor
    · rintro ⟨_, hx, e, rfl, hev⟩
      obtain ⟨e', he', hx'⟩ := deserialiseObject_eq_ok_iff.mp hx
      obtain rfl := eq_of_heq (Sigma.mk.inj hx').2
      exact ⟨e, he', hev⟩
    · rintro ⟨e, he, hev⟩
      exact ⟨⟨t, e⟩, deserialiseObject_eq_ok_iff.mpr ⟨e, he, rfl⟩, e, rfl, hev⟩
  | .cons name t ts, pos, .inr v, hts, hs => by
    have hparse : parseAlternative mem (.cons name t ts) (ts.alternativeIndex v + 1) pos =
        some (.inr v) ↔ parseAlternative mem ts (ts.alternativeIndex v) pos = some v :=
      bind_pure_eq_some_apply_iff Sum.inr_injective
    exact (readsAlternativeAs_iff_parse hlen ts pos v (Bool.and_eq_true_iff.mp hts).2
      hs.2).trans hparse.symm

end

/-! ### The parser and the documented reader -/

/-- Contiguous elements, read in another way. -/
theorem elementsAt_mono {α : Type} {f g : ℕ → Option α} {k n pos : ℕ} {xs : List α}
    (hfg : ∀ pos x, f pos = some x → g pos = some x) (h : elementsAt f k n pos = some xs) :
    elementsAt g k n pos = some xs := by
  obtain ⟨hlen, hat⟩ := elementsAt_eq_some_iff.mp h
  exact elementsAt_eq_some_iff.mpr ⟨hlen, fun i x hx => hfg _ x (hat i x hx)⟩

mutual

/-- **Whatever is parsed is read by the documented reader** as the same value. -/
theorem decode_of_parse : ∀ (t : Ty) (pos : ℕ) (v : t.Value), parse mem t pos = some v →
    decode 2 mem t pos = some v
  | .scalar _, _, _, h => h
  | .staticArray t n, pos, v, h => by
    have helements := (subtype_eq_some_iff v.2).mp (within_eq_some.mp h).2
    refine (subtype_eq_some_iff v.2).mpr ?_
    rw [documentedSize_two]
    exact elementsAt_mono (fun pos x => decode_of_parse t pos x) helements
  | .dynamicArray t, pos, v, h => by
    obtain ⟨hle, helements⟩ := within_eq_some.mp h
    have hle' : pos + 8 ≤ mem.length := hle
    rw [decode, uintAt_of_le (by omega), uintAt_of_le (by omega), documentedSize_two]
    exact elementsAt_mono (fun pos x => decode_of_parse t pos x) helements
  | .pair a b, pos, v, h => by
    obtain ⟨ha, hb⟩ := pair_eq_some_iff.mp (within_eq_some.mp h).2
    refine pair_eq_some_iff.mpr ⟨decode_of_parse a pos v.1 ha, ?_⟩
    rw [documentedSize_two]
    exact decode_of_parse b _ v.2 hb
  | .tuple ts, pos, v, h => decodeFields_of_parse ts pos v (within_eq_some.mp h).2
  | .optional t, pos, v, h => by
    obtain ⟨hle, hnext⟩ := within_eq_some.mp h
    have hle' : pos + 4 ≤ mem.length := hle
    rw [decode, uintAt_of_le hle']
    show (if numberAt mem pos 4 = 0 then _ else _) = _
    split_ifs at hnext ⊢ with hzero
    · exact hnext
    · obtain ⟨x, hx, rfl⟩ := bind_pure_eq_some_iff.mp hnext
      exact bind_of_some (decode_of_parse t _ x hx) _
  | .variant .nil, _, _, h => (within_eq_some.mp h).2
  | .variant (.cons name t ts), pos, v, h => by
    obtain ⟨hle, hnext⟩ := within_eq_some.mp h
    have hle' : pos + 6 ≤ mem.length := hle
    obtain ⟨x, hx, rfl⟩ := bind_pure_eq_some_iff.mp hnext
    rw [decode, uintAt_of_le (by omega), uintAt_of_le (by omega)]
    exact bind_of_some (decodeAlternative_of_parse (.cons name t ts) _ _ x hx) _
  | .record fs _, pos, v, h => decodeFields_of_parse fs pos v (within_eq_some.mp h).2

theorem decodeFields_of_parse : ∀ (ts : TypeList) (pos : ℕ) (v : ts.Data List),
    parseFields mem ts pos = some v → decodeFields 2 mem ts pos = some v
  | .nil, _, _, h => h
  | .cons _ t ts, pos, v, h => by
    obtain ⟨ht, hts⟩ := pair_eq_some_iff.mp h
    refine pair_eq_some_iff.mpr ⟨decode_of_parse t pos v.1 ht, ?_⟩
    rw [documentedSize_two]
    exact decodeFields_of_parse ts _ v.2 hts

theorem decodeAlternative_of_parse : ∀ (ts : TypeList) (index pos : ℕ)
    (v : ts.Alternative List), parseAlternative mem ts index pos = some v →
      decodeAlternative 2 mem ts index pos = some v
  | .nil, _, _, v, _ => nomatch v
  | .cons _ t _, 0, pos, v, h => by
    obtain ⟨x, hx, rfl⟩ := bind_pure_eq_some_iff.mp h
    exact bind_of_some (decode_of_parse t pos x hx) _
  | .cons _ _ ts, index + 1, pos, v, h => by
    obtain ⟨x, hx, rfl⟩ := bind_pure_eq_some_iff.mp h
    exact bind_of_some (decodeAlternative_of_parse ts index pos x hx) _

end

/-- **The traversals of arbitrary bytes are exactly the parses of them**, at any offset: a full
traversal of the object there goes through and yields a value if and only if the bytes are
parsed as that value. Whatever can be traversed is then read by the documented reader, as the
same value. -/
theorem traversal_exact (hlen : mem.length < P.sizeRange) {t : Ty}
    (ht : t.wellFormed = true) (hs : t.Small) (offset : ℕ) (v : t.Value) :
    (ReadsAs P mem t offset v ↔ parse mem t offset = some v) ∧
      (ReadsAs P mem t offset v → decode 2 mem t offset = some v) := by
  have hiff := readsAs_iff_parse hlen t offset v ht hs
  exact ⟨hiff, fun h => decode_of_parse t offset v (hiff.mp h)⟩

/-- A dynamic array that claims to be made of its own header. -/
theorem traversal_exact_overlapping :
    let mem : List UInt8 := [2, 0, 0, 0, 0, 0, 0, 0]
    let t : Ty := .dynamicArray (.unsigned 2)
    ReadsAs .x64 mem t 0 ([2, 0] : List (Fin (256 ^ 2))) := by
  intro mem t
  have hsmall : t.Small := show 2 < 2 ^ 32 by decide
  exact (traversal_exact (by decide) (by decide) hsmall 0 _).1.mpr rfl

end SerialisePP
