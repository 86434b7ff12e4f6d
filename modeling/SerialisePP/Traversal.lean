import SerialisePP.Reading

/-!
# Traversing an object

What it means for a deserialised object to be a given value: every accessor, on the object
itself and on whatever the accessors return, to any depth, returns normally and returns what
the value has there. `SerialisePP.Yields` says so by recursion on the type. A value is
determined by the traversal (`SerialisePP.yields_unique`).
-/

namespace SerialisePP

variable {P : Platform}

/-! ### The accessors yield a value -/

mutual

/-- **A full traversal of an object yields a value.** -/
def Yields (P : Platform) : (t : Ty) → t.Deserialised → t.Value → Prop
  | .scalar _, d, v => d = v
  | .staticArray t n, d, v =>
    (Deserialiser.staticElements P d).length = n ∧
      ∀ (i : ℕ) (x : t.Value), v.1[i]? = some x → ∃ e, Deserialiser.staticIndex P d i = .ok e ∧
        Deserialiser.staticAt P d i = .ok e ∧ Deserialiser.staticGet P d i = .ok e ∧
        (Deserialiser.staticElements P d)[i]? = some (.ok e) ∧ Yields P t e x
  | .dynamicArray t, d, (v : List t.Value) =>
    Deserialiser.size P d = .ok v.length ∧ Deserialiser.empty P d = .ok v.isEmpty ∧
      ∃ elements, Deserialiser.dynamicElements P d = .ok elements ∧ elements.length = v.length ∧
        ∀ (i : ℕ) (x : t.Value), v[i]? = some x →
          ∃ e, Deserialiser.dynamicIndex P d i = .ok e ∧ Deserialiser.dynamicAt P d i = .ok e ∧
            elements[i]? = some (.ok e) ∧ Yields P t e x
  | .pair a b, d, v =>
    (∃ e, Deserialiser.first P d = .ok e ∧ Deserialiser.pairGet P d 0 = .ok ⟨a, e⟩ ∧
        Yields P a e v.1) ∧
      ∃ e, Deserialiser.second P d = .ok e ∧ Deserialiser.pairGet P d 1 = .ok ⟨b, e⟩ ∧
        Yields P b e v.2
  | .tuple ts, d, v => YieldsFields P ts (fun i _ => Deserialiser.tupleGet P d i) v
  | .optional _, d, none =>
    Deserialiser.hasValue P d = .ok false ∧
      Deserialiser.value P d = .error (.thrown .badOptionalAccess)
  | .optional t, d, some v =>
    Deserialiser.hasValue P d = .ok true ∧ ∃ e, Deserialiser.deref P d = .ok e ∧
      Deserialiser.value P d = .ok e ∧ Yields P t e v
  | .variant .nil, _, _ => True
  | .variant (.cons _ _ _), _, none => False
  | .variant (.cons name t ts), d, some v =>
    let index := (TypeList.cons name t ts).alternativeIndex v
    Deserialiser.index P d = .ok index ∧
      (∀ i < (TypeList.cons name t ts).length, i ≠ index →
        Deserialiser.get P d i = .error (.thrown .badVariantAccess)) ∧
      ∃ x, Deserialiser.get P d index = .ok x ∧
        (∀ (σ R : Type) (visitor : Visitor σ R), Visitor.visit P d visitor = visitor.call x) ∧
        YieldsAlternative P (.cons name t ts) x v
  | .record fs _, d, v =>
    YieldsFields P fs (fun i _ => Deserialiser.recordGetIndex P d i) v ∧
      YieldsFields P fs (fun _ name => Deserialiser.recordGet P d name) v

/-- The elements of a tuple or the fields of a record, by an accessor that goes by index or by
name. -/
def YieldsFields (P : Platform) :
    (ts : TypeList) → (ℕ → String → Except Failure Object) → ts.Data List → Prop
  | .nil, _, _ => True
  | .cons name t ts, get, v =>
    (∃ e, get 0 name = .ok ⟨t, e⟩ ∧ Yields P t e v.1) ∧
      YieldsFields P ts (fun i => get (i + 1)) v.2

/-- The alternative of a variant. -/
def YieldsAlternative (P : Platform) : (ts : TypeList) → Object → ts.Alternative List → Prop
  | .nil, _, v => nomatch v
  | .cons _ t _, x, .inl v => ∃ e, x = ⟨t, e⟩ ∧ Yields P t e v
  | .cons _ _ ts, x, .inr v => YieldsAlternative P ts x v

end

/-! ### The value is determined -/

/-- Two lists of one length that agree wherever the first has an element. -/
theorem list_eq_of_getElem? {α : Type} {xs ys : List α} (hlen : xs.length = ys.length)
    (h : ∀ (i : ℕ) (x y : α), xs[i]? = some x → ys[i]? = some y → x = y) : xs = ys := by
  refine List.ext_getElem hlen fun i hx hy => ?_
  exact h i _ _ (List.getElem?_eq_getElem hx) (List.getElem?_eq_getElem hy)

theorem ok_inj {α : Type} {m : Except Failure α} {a b : α} (ha : m = .ok a) (hb : m = .ok b) :
    a = b := Except.ok.inj (ha.symm.trans hb)

theorem object_inj {m : Except Failure Object} {t : Ty} {a b : t.Deserialised}
    (ha : m = .ok ⟨t, a⟩) (hb : m = .ok ⟨t, b⟩) : a = b := eq_of_heq (Sigma.mk.inj (ok_inj ha hb)).2

mutual

/-- **An object yields one value only.** -/
theorem yields_unique : ∀ (t : Ty) (d : t.Deserialised) (v v' : t.Value),
    Yields P t d v → Yields P t d v' → v = v'
  | .scalar _, _, _, _, h, h' => h.symm.trans h'
  | .staticArray t n, d, v, v', ⟨_, h⟩, ⟨_, h'⟩ => by
    refine Subtype.ext (list_eq_of_getElem? (v.2.trans v'.2.symm) fun i x y hx hy => ?_)
    obtain ⟨e, he, -, -, -, hex⟩ := h i x hx
    obtain ⟨e', he', -, -, -, hey⟩ := h' i y hy
    obtain rfl := ok_inj he he'
    exact yields_unique t e x y hex hey
  | .dynamicArray t, d, v, v', ⟨hsize, _, _, _, _, h⟩, ⟨hsize', _, _, _, _, h'⟩ => by
    refine list_eq_of_getElem? (ok_inj hsize hsize') fun i x y hx hy => ?_
    obtain ⟨e, he, -, -, hex⟩ := h i x hx
    obtain ⟨e', he', -, -, hey⟩ := h' i y hy
    obtain rfl := ok_inj he he'
    exact yields_unique t e x y hex hey
  | .pair a b, d, v, v', ⟨⟨e, he, _, ha⟩, ⟨f, hf, _, hb⟩⟩,
      ⟨⟨e', he', _, ha'⟩, ⟨f', hf', _, hb'⟩⟩ => by
    obtain rfl := ok_inj he he'
    obtain rfl := ok_inj hf hf'
    exact Prod.ext (yields_unique a e v.1 v'.1 ha ha') (yields_unique b f v.2 v'.2 hb hb')
  | .tuple ts, _, v, v', h, h' => yieldsFields_unique ts _ v v' h h'
  | .optional t, d, none, none, _, _ => rfl
  | .optional t, d, none, some _, ⟨h, _⟩, ⟨h', _⟩ => absurd (ok_inj h h') Bool.false_ne_true
  | .optional t, d, some _, none, ⟨h, _⟩, ⟨h', _⟩ => absurd (ok_inj h' h) Bool.false_ne_true
  | .optional t, d, some v, some v', ⟨_, e, he, _, h⟩, ⟨_, e', he', _, h'⟩ => by
    obtain rfl := ok_inj he he'
    exact congrArg some (yields_unique t e v v' h h')
  | .variant .nil, _, none, none, _, _ => rfl
  | .variant .nil, _, some v, _, _, _ => nomatch v
  | .variant .nil, _, _, some v, _, _ => nomatch v
  | .variant (.cons name t ts), d, some v, some v', ⟨hi, _, x, hx, _, h⟩,
      ⟨hi', _, x', hx', _, h'⟩ => by
    have hindex := ok_inj hi hi'
    rw [← hindex] at hx'
    obtain rfl := ok_inj hx hx'
    exact congrArg some (yieldsAlternative_unique (.cons name t ts) x v v' hindex h h')
  | .record fs _, _, v, v', ⟨h, _⟩, ⟨h', _⟩ => yieldsFields_unique fs _ v v' h h'

theorem yieldsFields_unique : ∀ (ts : TypeList) (get : ℕ → String → Except Failure Object)
    (v v' : ts.Data List), YieldsFields P ts get v → YieldsFields P ts get v' → v = v'
  | .nil, _, _, _, _, _ => rfl
  | .cons _ t ts, _, v, v', ⟨⟨e, he, h⟩, hs⟩, ⟨⟨e', he', h'⟩, hs'⟩ => by
    obtain rfl := object_inj he he'
    exact Prod.ext (yields_unique t e v.1 v'.1 h h') (yieldsFields_unique ts _ v.2 v'.2 hs hs')

theorem yieldsAlternative_unique : ∀ (ts : TypeList) (x : Object) (v v' : ts.Alternative List),
    ts.alternativeIndex v = ts.alternativeIndex v' → YieldsAlternative P ts x v →
      YieldsAlternative P ts x v' → v = v'
  | .nil, _, v, _, _, _, _ => nomatch v
  | .cons _ t _, _, .inl v, .inl v', _, ⟨e, he, h⟩, ⟨e', he', h'⟩ => by
    obtain rfl := eq_of_heq (Sigma.mk.inj (he.symm.trans he')).2
    exact congrArg Sum.inl (yields_unique t e v v' h h')
  | .cons _ _ _, _, .inl _, .inr _, hi, _, _ => absurd hi (Nat.succ_ne_zero _).symm
  | .cons _ _ _, _, .inr _, .inl _, hi, _, _ => absurd hi (Nat.succ_ne_zero _)
  | .cons _ _ ts, x, .inr v, .inr v', hi, h, h' =>
    congrArg Sum.inr (yieldsAlternative_unique ts x v v' (Nat.succ.inj hi) h h')

end

end SerialisePP
