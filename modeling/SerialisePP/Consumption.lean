import SerialisePP.Consumer
import SerialisePP.Parse

/-!
# What the consumer accepts

The consumer checks nothing itself: it relies on the deserialisers to throw at whatever is wrong
with an object. On arbitrary bytes it is thus a validator of the whole object, or so one should
think. In a build with assertions it is: it returns if and only if the bytes are parsed
(`SerialisePP.parse`), and then stores the sum over the value that they are parsed as
(`SerialisePP.consume_exact`). Without assertions, a variant with an unknown index is visited as
its last alternative, and may be consumed although it is not parsed.
-/

namespace SerialisePP

open Effect

variable {P : Platform} {mem : List UInt8}

/-! ### Runs that return -/

/-- **The object at an offset is reduced**, without an exception. -/
def Reduces (P : Platform) (mem : List UInt8) (t : Ty) (pos : ℕ) : Prop :=
  ∃ d s c s', deserialise P t mem pos = .ok d ∧ reduce P t d s = .ok c s'

/-- The parts of a run that begins with an accessor. -/
theorem exists_of_lift_bind {σ α β : Type} {m : Except Failure α} {f : α → EStateM Failure σ β}
    {s s' : σ} {b : β} (h : (Visitor.lift m >>= f) s = .ok b s') :
    ∃ a, m = .ok a ∧ f a s = .ok b s' := by
  cases m with
  | ok a => exact ⟨a, rfl, h⟩
  | error e =>
    have hthrow : (Visitor.lift (.error e) >>= f) s = .error e s := bind_error rfl
    exact absurd (hthrow.symm.trans h) nofun

/-- **A loop that returns has reduced all elements.** -/
theorem reduces_of_reduceElements {α : Type} {f : α → Sink UInt64} {s s' c : UInt64}
    {elements : List (Except Failure α)} {result : UInt64}
    (h : reduceElements f elements result s = .ok c s') {i : ℕ} {element : Except Failure α}
    (hi : elements[i]? = some element) :
    ∃ e s₁ c₁ s₂, element = .ok e ∧ f e s₁ = .ok c₁ s₂ := by
  induction elements generalizing i result s with
  | nil => contradiction
  | cons x xs ih =>
    rw [reduceElements] at h
    obtain ⟨e, rfl, hbody⟩ := exists_of_lift_bind h
    obtain ⟨r, s₁, hr, hrest⟩ := exists_of_bind_ok hbody
    cases i with
    | zero =>
      obtain rfl := Option.some.inj hi
      exact ⟨e, s, r, s₁, rfl, hr⟩
    | succ i => exact ih hrest hi

/-- A row of objects, each of which is parsed. -/
theorem exists_elementsAt {α : Type} {element : ℕ → Option α} {k n pos : ℕ}
    (h : ∀ i < n, ∃ x, element (pos + k * i) = some x) :
    ∃ xs, elementsAt element k n pos = some xs := by
  induction n generalizing pos with
  | zero => exact ⟨[], rfl⟩
  | succ n ih =>
    obtain ⟨x, hx⟩ : ∃ x, element pos = some x := h 0 n.succ_pos
    have hrest : ∀ i < n, ∃ x, element (pos + k + k * i) = some x := fun i hi => by
      obtain ⟨y, hy⟩ := h (i + 1) (Nat.succ_lt_succ hi)
      exact ⟨y, by rwa [Nat.add_assoc, Nat.add_comm k, ← Nat.mul_succ]⟩
    obtain ⟨xs, hxs⟩ := ih hrest
    refine ⟨x :: xs, ?_⟩
    rw [elementsAt, bind_of_some hx, bind_of_some hxs]
    rfl

/-- **The overload for an alternative is that of its type**, whichever comes first. -/
theorem reduceAlternative_eq : ∀ (ts : TypeList) (i : ℕ) (t : Ty) (e : t.Deserialised),
    ts.element i = some t → reduceAlternative P ts ⟨t, e⟩ = reduce P t e
  | .nil, _, _, _, h => nomatch h
  | .cons _ u ts, i, t, e, h => by
    rw [reduceAlternative]
    cases hx : Object.as ⟨t, e⟩ u with
    | ok e' =>
      obtain ⟨rfl, he⟩ := Sigma.mk.inj (Object.as_eq_ok hx)
      rw [eq_of_heq he]
    | error f =>
      cases i with
      | zero =>
        obtain rfl : u = t := Option.some.inj h
        exact absurd (hx.symm.trans (Object.as_mk e)) nofun
      | succ i => exact reduceAlternative_eq ts i t e h

/-- **A look into an optional that returns** has gone on with its value, if there is one. -/
theorem parse_optional_of_ok (hlen : mem.length < P.sizeRange) {t : Ty} {pos : ℕ}
    (h : pos + (Ty.optional t).size ≤ mem.length) {R : Type} {call : t.Deserialised → Sink R}
    {absent : Sink R} {s s' : UInt64} {r : R}
    (hrun : (do
      if ← Visitor.lift (Deserialiser.hasValue P (objectAt P mem pos (.optional t) h)) then
        let x ← Visitor.lift (Deserialiser.deref P (objectAt P mem pos (.optional t) h))
        call x
      else absent) s = .ok r s')
    (hcall : ∀ e, deserialise P t mem (numberAt mem pos 4 - 1) = .ok e → call e s = .ok r s' →
      ∃ v, parse mem t (numberAt mem pos 4 - 1) = some v) :
    ∃ v, parse mem (.optional t) pos = some v := by
  have hvalid : Deserialiser.Valid P (objectAt P mem pos (.optional t) h) := ⟨hlen, h⟩
  by_cases hzero : numberAt mem pos 4 = 0
  · exact ⟨none, within_eq_some.mpr ⟨h, if_pos hzero⟩⟩
  · have hpos := Nat.pos_of_ne_zero hzero
    have hhas : Deserialiser.hasValue P (objectAt P mem pos (.optional t) h) = .ok true :=
      (Deserialiser.hasValue_eq hvalid).trans (congrArg Except.ok (decide_eq_true hpos))
    rw [lift_bind hhas, if_pos rfl] at hrun
    obtain ⟨e, he, hvalue⟩ := exists_of_lift_bind hrun
    obtain ⟨x, hx⟩ := hcall e ((Deserialiser.deref_eq hvalid hpos).symm.trans he) hvalue
    refine ⟨some x, within_eq_some.mpr ⟨h, (if_neg hzero).trans ?_⟩⟩
    exact (bind_pure_eq_some_apply_iff (Option.some_injective _)).mpr hx

/-- **A visit that returns** has been one of the alternative that the index names, in a build with
assertions. -/
theorem exists_of_visit_ok {ts : TypeList} {name : String} {t : Ty} {σ R : Type}
    {d : Deserialiser (.variant (.cons name t ts))} {call : Object → EStateM Failure σ R}
    {s s' : σ} {r : R} (hassert : P.assertions = true) (hd : d.Valid P)
    (hrun : Visitor.visit P d (lambda call) s = .ok r s') :
    ∃ u e, (TypeList.cons name t ts).element (numberAt d.buffer d.fixedOffset 2) = some u ∧
      deserialise P u d.buffer (numberAt d.buffer (d.fixedOffset + 2) 4) = .ok e ∧
        call ⟨u, e⟩ s = .ok r s' := by
  rcases Nat.lt_or_ge (numberAt d.buffer d.fixedOffset 2) (TypeList.cons name t ts).length with
    hlt | hge
  · obtain ⟨u, hu⟩ := TypeList.exists_element _ _ hlt
    rw [Visitor.visit_of_lt hd hlt, Visitor.callOn] at hrun
    have hnothrow : (lambda call).nothrowAll (.cons name t ts) = false := rfl
    rw [hnothrow, Visitor.boundary_false] at hrun
    obtain ⟨x, hx, hcall⟩ := exists_of_lift_bind hrun
    rw [Deserialiser.getAlternative_eq hd, hu] at hx
    obtain ⟨e, he, rfl⟩ := deserialiseObject_eq_ok_iff.mp hx
    exact ⟨u, e, hu, he, hcall⟩
  · rw [Visitor.visit_of_le hd (Nat.succ_ne_zero _) hge, if_pos hassert] at hrun
    contradiction

mutual

/-- **What is reduced is parsed**: no check is left out on the way, by induction over the
types. -/
theorem parse_of_reduces (hassert : P.assertions = true)
    (hlen : mem.length < P.sizeRange) : ∀ (t : Ty) (pos : ℕ), t.wellFormed = true → t.Small →
      Reduces P mem t pos → ∃ v, parse mem t pos = some v
  | .scalar s, pos, ht, hs, ⟨d, _, _, _, hd, _⟩ =>
    ⟨d, (readsAs_iff_parse hlen (.scalar s) pos d ht hs).mp ⟨d, hd, rfl⟩⟩
  | .staticArray t n, pos, ht, hs, ⟨d, s, c, s', hd, hrun⟩ => by
    obtain ⟨h, rfl⟩ := (deserialise_eq_ok_iff hlen hs).mp hd
    have hvalid : Deserialiser.Valid P (objectAt P mem pos (.staticArray t n) h) := ⟨hlen, h⟩
    obtain ⟨xs, hxs⟩ := @exists_elementsAt _ (parse mem t) t.size n pos fun i hi => by
      obtain ⟨e, s₁, c₁, s₂, he, hrun⟩ :=
        reduces_of_reduceElements hrun (Deserialiser.staticElements_getElem? _ hi)
      exact parse_of_reduces hassert hlen t _ ht hs.2
        ⟨e, s₁, c₁, s₂, (Deserialiser.staticIndex_eq hvalid hi).symm.trans he, hrun⟩
    exact ⟨⟨xs, (elementsAt_eq_some_iff.mp hxs).1⟩,
      within_eq_some.mpr ⟨h, (subtype_eq_some_iff _).mpr hxs⟩⟩
  | .dynamicArray t, pos, ht, hs, ⟨d, s, c, s', hd, hrun⟩ => by
    have hsmall : t.Small := hs
    obtain ⟨h, rfl⟩ := (deserialise_eq_ok_iff hlen hs).mp hd
    have hvalid : Deserialiser.Valid P (objectAt P mem pos (.dynamicArray t) h) := ⟨hlen, h⟩
    obtain ⟨elements, helements, hloop⟩ := exists_of_lift_bind hrun
    obtain rfl := ok_inj helements (bind_of_ok (Deserialiser.size_eq hvalid) _)
    -- each turn of the loop has read an element
    have hread : ∀ i < numberAt mem pos 4, ∃ e s₁ c₁ s₂, Deserialiser.dynamicIndex P
        (objectAt P mem pos (.dynamicArray t) h) i = .ok e ∧ reduce P t e s₁ = .ok c₁ s₂ := by
      intro i hi
      have hget := List.getElem?_map (f := Deserialiser.dynamicIndex P
        (objectAt P mem pos (.dynamicArray t) h)) (l := List.range (numberAt mem pos 4)) (i := i)
      rw [List.getElem?_range hi] at hget
      exact reduces_of_reduceElements hloop hget
    obtain ⟨xs, hxs⟩ := @exists_elementsAt _ (parse mem t) t.size (numberAt mem pos 4)
        (numberAt mem (pos + 4) 4) fun i hi => by
      obtain ⟨e, s₁, c₁, s₂, he, hrun⟩ := hread i hi
      have hindex := dynamicIndex_of_forall_lt hsmall hvalid hi fun j hj => by
        obtain ⟨e', _, _, _, he', -⟩ := hread j (hj.trans hi)
        exact ⟨e', he'⟩
      exact parse_of_reduces hassert hlen t _ ht hsmall ⟨e, s₁, c₁, s₂, hindex.symm.trans he, hrun⟩
    exact ⟨xs, within_eq_some.mpr ⟨h, hxs⟩⟩
  | .pair a b, pos, ht, hs, ⟨d, s, c, s', hd, hrun⟩ => by
    obtain ⟨h, rfl⟩ := (deserialise_eq_ok_iff hlen hs).mp hd
    have hvalid : Deserialiser.Valid P (objectAt P mem pos (.pair a b) h) := ⟨hlen, h⟩
    obtain ⟨ha, hb⟩ := Bool.and_eq_true_iff.mp ht
    rw [reduce] at hrun
    obtain ⟨e, he, hrun₁⟩ := exists_of_lift_bind hrun
    obtain ⟨r, s₁, hr, hrun₂⟩ := exists_of_bind_ok hrun₁
    obtain ⟨f, hf, hrun₃⟩ := exists_of_lift_bind hrun₂
    obtain ⟨r', s₂, hr', -⟩ := exists_of_bind_ok hrun₃
    obtain ⟨x, hx⟩ := parse_of_reduces hassert hlen a pos ha hs.2.1 ⟨e, s, r, s₁, he, hr⟩
    obtain ⟨y, hy⟩ := parse_of_reduces hassert hlen b (pos + a.size) hb hs.2.2
      ⟨f, s₁, r', s₂, (Deserialiser.second_eq hvalid).symm.trans hf, hr'⟩
    exact ⟨(x, y), within_eq_some.mpr ⟨h, pair_eq_some_iff.mpr ⟨hx, hy⟩⟩⟩
  | .tuple ts, pos, ht, hs, ⟨d, s, c, s', hd, hrun⟩ => by
    obtain ⟨h, rfl⟩ := (deserialise_eq_ok_iff hlen hs).mp hd
    have hvalid : Deserialiser.Valid P (objectAt P mem pos (.tuple ts) h) := ⟨hlen, h⟩
    obtain ⟨v, hv⟩ := parseFields_of_reduces hassert hlen ts pos _ s c s' ht hs.2
      (fun i t hi => Deserialiser.tupleGet_eq hvalid hi) hrun
    exact ⟨v, within_eq_some.mpr ⟨h, hv⟩⟩
  | .optional t, pos, ht, hs, ⟨d, s, c, s', hd, hrun⟩ => by
    obtain ⟨h, rfl⟩ := (deserialise_eq_ok_iff hlen hs).mp hd
    exact parse_optional_of_ok hlen h hrun fun e he hvalue =>
      parse_of_reduces hassert hlen t _ ht hs ⟨e, s, c, s', he, hvalue⟩
  | .variant .nil, pos, _, hs, ⟨d, _, _, _, hd, _⟩ => by
    obtain ⟨h, -⟩ := (deserialise_eq_ok_iff hlen hs).mp hd
    exact ⟨none, within_eq_some.mpr ⟨h, rfl⟩⟩
  | .variant (.cons name t ts), pos, ht, hs, ⟨d, s, c, s', hd, hrun⟩ => by
    obtain ⟨h, rfl⟩ := (deserialise_eq_ok_iff hlen hs).mp hd
    obtain ⟨u, e, hu, he, hcall⟩ := exists_of_visit_ok hassert ⟨hlen, h⟩ hrun
    rw [reduceAlternative_eq _ _ u e hu] at hcall
    obtain ⟨v, hv⟩ := parseAlternative_of_reduces hassert hlen (.cons name t ts) _ _ u
      (Bool.and_eq_true_iff.mp ht).2 hs hu ⟨e, s, c, s', he, hcall⟩
    refine ⟨some v, within_eq_some.mpr ⟨h, ?_⟩⟩
    exact (bind_pure_eq_some_apply_iff (Option.some_injective _)).mpr hv
  | .record fs bases, pos, ht, hs, ⟨d, s, c, s', hd, hrun⟩ => by
    obtain ⟨h, rfl⟩ := (deserialise_eq_ok_iff hlen hs).mp hd
    have hvalid : Deserialiser.Valid P (objectAt P mem pos (.record fs bases) h) := ⟨hlen, h⟩
    obtain ⟨hu, hfs⟩ := Bool.and_eq_true_iff.mp ht
    obtain ⟨v, hv⟩ := parseFields_of_reduces hassert hlen fs pos _ s c s' hfs hs.2
      (fun i t hi => Deserialiser.recordGetIndex_eq hvalid hu hi) hrun
    exact ⟨v, within_eq_some.mpr ⟨h, hv⟩⟩

/-- The elements of a tuple or the fields of a record. -/
theorem parseFields_of_reduces (hassert : P.assertions = true)
    (hlen : mem.length < P.sizeRange) : ∀ (ts : TypeList) (pos : ℕ)
      (accessor : ℕ → Except Failure Object) (s c s' : UInt64), ts.wellFormed = true → ts.Small →
        (∀ i t, ts.element i = some t →
          accessor i = deserialiseObject P mem (pos + (ts.take i).size) (some t)) →
            reduceFields P ts accessor s = .ok c s' → ∃ v, parseFields mem ts pos = some v
  | .nil, _, _, _, _, _, _, _, _, _ => ⟨(), rfl⟩
  | .cons name t ts, pos, accessor, s, c, s', hts, hs, haccessor, hrun => by
    obtain ⟨ht, hts'⟩ := Bool.and_eq_true_iff.mp hts
    rw [reduceFields] at hrun
    obtain ⟨x, hx, hrun₁⟩ := exists_of_lift_bind hrun
    obtain ⟨e, he, hrun₂⟩ := exists_of_lift_bind hrun₁
    obtain ⟨r, s₁, hr, hrun₃⟩ := exists_of_bind_ok hrun₂
    obtain ⟨r', s₂, hr', -⟩ := exists_of_bind_ok hrun₃
    obtain ⟨e', he', rfl⟩ :=
      deserialiseObject_eq_ok_iff.mp ((haccessor 0 t rfl).symm.trans hx)
    obtain rfl := ok_inj he (Object.as_mk e')
    obtain ⟨v, hv⟩ := parse_of_reduces hassert hlen t pos ht hs.1 ⟨e, s, r, s₁, he', hr⟩
    obtain ⟨vs, hvs⟩ := parseFields_of_reduces hassert hlen ts (pos + t.size) _ s₁ r' s₂ hts'
      hs.2 (fun i u hu => by
        rw [haccessor (i + 1) u hu, TypeList.take, TypeList.size, ← Nat.add_assoc]) hr'
    exact ⟨(v, vs), pair_eq_some_iff.mpr ⟨hv, hvs⟩⟩

/-- The alternative of a variant. -/
theorem parseAlternative_of_reduces (hassert : P.assertions = true)
    (hlen : mem.length < P.sizeRange) : ∀ (ts : TypeList) (i pos : ℕ) (t : Ty),
      ts.wellFormed = true → ts.Small → ts.element i = some t → Reduces P mem t pos →
        ∃ v, parseAlternative mem ts i pos = some v
  | .nil, _, _, _, _, _, hi, _ => nomatch hi
  | .cons _ u ts, 0, pos, t, hts, hs, hi, h => by
    obtain rfl : u = t := Option.some.inj hi
    obtain ⟨v, hv⟩ := parse_of_reduces hassert hlen u pos (Bool.and_eq_true_iff.mp hts).1 hs.1 h
    exact ⟨.inl v, bind_of_some hv _⟩
  | .cons _ _ ts, i + 1, pos, t, hts, hs, hi, h => by
    obtain ⟨v, hv⟩ := parseAlternative_of_reduces hassert hlen ts i pos t
      (Bool.and_eq_true_iff.mp hts).2 hs.2 hi h
    exact ⟨.inr v, bind_of_some hv _⟩

end

/-- **The object at an offset is consumed**, without an exception. -/
def Consumes (P : Platform) (mem : List UInt8) (t : Ty) (pos : ℕ) : Prop :=
  ∃ d s s', deserialise P t mem pos = .ok d ∧ consume P t d s = .ok () s'

/-- What is stored has been reduced. -/
theorem reduces_of_store {t : Ty} {pos : ℕ} {d : t.Deserialised} {s s' : UInt64}
    (hd : deserialise P t mem pos = .ok d)
    (hrun : (do let r ← reduce P t d; set r : Sink Unit) s = .ok () s') : Reduces P mem t pos := by
  obtain ⟨r, s₁, hr, -⟩ := exists_of_bind_ok hrun
  exact ⟨d, s, r, s₁, hd, hr⟩

/-- The overload for an alternative is that of its type, again. -/
theorem consumeAlternative_eq : ∀ (ts : TypeList) (i : ℕ) (t : Ty) (e : t.Deserialised),
    ts.element i = some t → consumeAlternative P ts ⟨t, e⟩ = consume P t e
  | .nil, _, _, _, h => nomatch h
  | .cons _ u ts, i, t, e, h => by
    rw [consumeAlternative]
    cases hx : Object.as ⟨t, e⟩ u with
    | ok e' =>
      obtain ⟨rfl, he⟩ := Sigma.mk.inj (Object.as_eq_ok hx)
      rw [eq_of_heq he]
    | error f =>
      cases i with
      | zero =>
        obtain rfl : u = t := Option.some.inj h
        exact absurd (hx.symm.trans (Object.as_mk e)) nofun
      | succ i => exact consumeAlternative_eq ts i t e h

mutual

/-- **What is consumed is parsed**: optionals and variants on the way to what is read have been
looked into. -/
theorem parse_of_consumes (hassert : P.assertions = true)
    (hlen : mem.length < P.sizeRange) : ∀ (t : Ty) (pos : ℕ), t.wellFormed = true → t.Small →
      Consumes P mem t pos → ∃ v, parse mem t pos = some v
  | .scalar s, pos, ht, hs, ⟨d, sink, _, hd, _⟩ =>
    parse_of_reduces hassert hlen (.scalar s) pos ht hs ⟨d, sink, _, _, hd, rfl⟩
  | .staticArray t n, pos, ht, hs, ⟨d, s, s', hd, hrun⟩ => by
    refine parse_of_reduces hassert hlen (.staticArray t n) pos ht hs ?_
    cases n with
    | zero => exact ⟨d, s, _, _, hd, rfl⟩
    | succ n => exact reduces_of_store hd hrun
  | .dynamicArray t, pos, ht, hs, ⟨d, s, s', hd, hrun⟩ =>
    parse_of_reduces hassert hlen (.dynamicArray t) pos ht hs (reduces_of_store hd hrun)
  | .pair a b, pos, ht, hs, ⟨d, s, s', hd, hrun⟩ =>
    parse_of_reduces hassert hlen (.pair a b) pos ht hs (reduces_of_store hd hrun)
  | .tuple ts, pos, ht, hs, ⟨d, s, s', hd, hrun⟩ => by
    refine parse_of_reduces hassert hlen (.tuple ts) pos ht hs ?_
    cases ts with
    | nil => exact ⟨d, s, _, _, hd, rfl⟩
    | cons name t ts => exact reduces_of_store hd hrun
  | .optional t, pos, ht, hs, ⟨d, s, s', hd, hrun⟩ => by
    obtain ⟨h, rfl⟩ := (deserialise_eq_ok_iff hlen hs).mp hd
    exact parse_optional_of_ok hlen h hrun fun e he hvalue =>
      parse_of_consumes hassert hlen t _ ht hs ⟨e, s, s', he, hvalue⟩
  | .variant .nil, pos, _, hs, ⟨d, _, _, hd, _⟩ => by
    obtain ⟨h, -⟩ := (deserialise_eq_ok_iff hlen hs).mp hd
    exact ⟨none, within_eq_some.mpr ⟨h, rfl⟩⟩
  | .variant (.cons name t ts), pos, ht, hs, ⟨d, s, s', hd, hrun⟩ => by
    obtain ⟨h, rfl⟩ := (deserialise_eq_ok_iff hlen hs).mp hd
    obtain ⟨u, e, hu, he, hcall⟩ := exists_of_visit_ok hassert ⟨hlen, h⟩ hrun
    rw [consumeAlternative_eq _ _ u e hu] at hcall
    obtain ⟨v, hv⟩ := parseAlternative_of_consumes hassert hlen (.cons name t ts) _ _ u
      (Bool.and_eq_true_iff.mp ht).2 hs hu ⟨e, s, s', he, hcall⟩
    refine ⟨some v, within_eq_some.mpr ⟨h, ?_⟩⟩
    exact (bind_pure_eq_some_apply_iff (Option.some_injective _)).mpr hv
  | .record fs bases, pos, ht, hs, ⟨d, s, s', hd, hrun⟩ =>
    parse_of_reduces hassert hlen (.record fs bases) pos ht hs (reduces_of_store hd hrun)

/-- The alternative of a variant. -/
theorem parseAlternative_of_consumes (hassert : P.assertions = true)
    (hlen : mem.length < P.sizeRange) : ∀ (ts : TypeList) (i pos : ℕ) (t : Ty),
      ts.wellFormed = true → ts.Small → ts.element i = some t → Consumes P mem t pos →
        ∃ v, parseAlternative mem ts i pos = some v
  | .nil, _, _, _, _, _, hi, _ => nomatch hi
  | .cons _ u ts, 0, pos, t, hts, hs, hi, h => by
    obtain rfl : u = t := Option.some.inj hi
    obtain ⟨v, hv⟩ := parse_of_consumes hassert hlen u pos (Bool.and_eq_true_iff.mp hts).1 hs.1 h
    exact ⟨.inl v, bind_of_some hv _⟩
  | .cons _ _ ts, i + 1, pos, t, hts, hs, hi, h => by
    obtain ⟨v, hv⟩ := parseAlternative_of_consumes hassert hlen ts i pos t
      (Bool.and_eq_true_iff.mp hts).2 hs.2 hi h
    exact ⟨.inr v, bind_of_some hv _⟩

end

/-- **Consuming arbitrary bytes is parsing them**, in a build with assertions: the consumer returns
if and only if the bytes are parsed, and stores the sum over the value. Whatever is wrong with an
object, anywhere in it, is not overlooked. -/
theorem consume_exact (hassert : P.assertions = true)
    (hlen : mem.length < P.sizeRange) {t : Ty} (ht : t.wellFormed = true) (hs : t.Small) (pos : ℕ)
    (sink sink' : UInt64) : consumeAt P mem t pos sink = .ok () sink' ↔
      ∃ v, parse mem t pos = some v ∧ sink' = stored t sink v := by
  have hreads : ∀ v, parse mem t pos = some v →
      consumeAt P mem t pos sink = .ok () (stored t sink v) := by
    intro v hv
    obtain ⟨d, hd, hyields⟩ := (readsAs_iff_parse hlen t pos v ht hs).mpr hv
    rw [consumeAt, lift_bind hd]
    exact consume_of_yields t d v sink hyields
  constructor
  · intro hrun
    obtain ⟨d, hd, hconsume⟩ := exists_of_lift_bind hrun
    obtain ⟨v, hv⟩ := parse_of_consumes hassert hlen t pos ht hs ⟨d, sink, sink', hd, hconsume⟩
    rw [hreads v hv] at hrun
    exact ⟨v, hv, (EStateM.Result.ok.inj hrun).2.symm⟩
  · rintro ⟨v, hv, rfl⟩
    exact hreads v hv

/-- An optional array that claims to be made of its own header, and then one that claims to be
longer than it is. -/
theorem consume_exact_overlapping :
    let mem : List UInt8 := [5, 0, 0, 0, 2, 0, 0, 0, 4, 0, 0, 0]
    let t : Ty := .optional (.dynamicArray (.unsigned 2))
    consumeAt .x64 mem t 0 7 = .ok () 2 ∧
      ∀ sink', consumeAt .x64 (mem.set 4 5) t 0 7 ≠ .ok () sink' := by
  intro mem t
  have hsmall : t.Small := show 2 < 2 ^ 32 by decide
  constructor
  · exact (consume_exact rfl (by decide) (by decide) hsmall 0 7 2).mpr
      ⟨some ([2, 0] : List (Fin (256 ^ 2))), rfl, rfl⟩
  · intro sink' hrun
    obtain ⟨v, hv, -⟩ :=
      (consume_exact rfl (by decide) (by decide) hsmall 0 7 sink').mp hrun
    have hnone : parse (mem.set 4 5) t 0 = none := by
      subst mem t
      rfl
    exact absurd (hnone.symm.trans hv) nofun

end SerialisePP
