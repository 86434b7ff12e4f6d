import Mathlib.Data.UInt
import SerialisePP.Traversal

/-!
# Consuming an object

What a benchmark of deserialisation does with the objects: `deserialise_consumer<T>` reads all
of an object, through the accessors and to any depth, and adds everything up in a
`std::uint64_t`, which it stores in a variable, so that no compiler can do without. Here the
variable is the state of the run.

It is a client of all deserialisers at once, with loops over views, an overloaded visitor and
accessors that take their type from a template argument. An object that yields a value is
consumed without an exception, and what is stored is a sum over the value
(`SerialisePP.consume_of_yields`).
-/

namespace SerialisePP

open Effect

deriving instance DecidableEq for Ty, TypeList

variable {P : Platform}

/-! ### The consumer -/

/-- A run with `deserialise_consume_sink` as its state. -/
abbrev Sink := EStateM Failure UInt64

/-- An object, given to a function that takes a `deserialise_t<T>`. For any other type, the source
is ill-formed. -/
def Object.as (x : Object) (t : Ty) : Except Failure t.Deserialised :=
  if h : x.1 = t then pure (h ▸ x.2) else throw .illFormed

@[simp] theorem Object.as_mk {t : Ty} (e : t.Deserialised) : Object.as ⟨t, e⟩ t = .ok e := by
  rw [Object.as, dif_pos rfl]
  rfl

/-- `reduce` of a scalar: the bits of a floating-point number, and the conversion of all
others, which is modular. -/
def reduceScalar : (s : Scalar) → s.Value → UInt64
  | .null, _ => 0
  | .byte, v => UInt8.toUInt64 v
  | .bool, v => Bool.toUInt64 v
  | .unsigned _, v => UInt64.ofNat (Fin.val v)
  | .signed _, v => UInt64.ofInt (Subtype.val v)
  | .float, (v : BitVec 32) => UInt64.ofBitVec (v.setWidth 64)
  | .double, v => UInt64.ofBitVec v

/-- A visitor that is not declared `noexcept`, as are all lambda expressions here. -/
def lambda {σ R : Type} (call : Object → EStateM Failure σ R) : Visitor σ R where
  call := call
  nothrow _ := false
  nothrow_call _ _ h := absurd h Bool.false_ne_true

/-- The loop over the elements of a view: `result += element_consumer::reduce(element)`. -/
def reduceElements {α : Type} (reduce : α → Sink UInt64) :
    List (Except Failure α) → (result : UInt64) → Sink UInt64
  | [], result => pure result
  | element :: elements, result => do
    let x ← Visitor.lift element
    let r ← reduce x
    reduceElements reduce elements (result + r)

mutual

/-- **`deserialise_consumer<T>::reduce`.** The language does not say which side of a `+` comes
first. -/
def reduce (P : Platform) : (t : Ty) → t.Deserialised → Sink UInt64
  | .scalar s, d => pure (reduceScalar s d)
  | .staticArray t _, d => reduceElements (reduce P t) (Deserialiser.staticElements P d) 0
  | .dynamicArray t, d => do
    let elements ← Visitor.lift (Deserialiser.dynamicElements P d)
    reduceElements (reduce P t) elements 0
  | .pair a b, d => do
    let x ← Visitor.lift (Deserialiser.first P d)
    let r ← reduce P a x
    let y ← Visitor.lift (Deserialiser.second P d)
    let s ← reduce P b y
    pure (r + s)
  | .tuple ts, d => reduceFields P ts (Deserialiser.tupleGet P d)
  | .optional t, d => do
    if ← Visitor.lift (Deserialiser.hasValue P d) then
      let x ← Visitor.lift (Deserialiser.deref P d)
      reduce P t x
    else
      pure 0
  | .variant .nil, _ => pure 0
  | .variant (.cons name t ts), d =>
    Visitor.visit P d (lambda (reduceAlternative P (.cons name t ts)))
  | .record fs _, d => reduceFields P fs (Deserialiser.recordGetIndex P d)

/-- The sum over the elements of a tuple or the fields of a record, by index. -/
def reduceFields (P : Platform) : TypeList → (ℕ → Except Failure Object) → Sink UInt64
  | .nil, _ => pure 0
  | .cons _ t ts, get => do
    let x ← Visitor.lift (get 0)
    let e ← Visitor.lift (x.as t)
    let r ← reduce P t e
    let s ← reduceFields P ts fun i => get (i + 1)
    pure (r + s)

/-- `variant_deserialise_consumer<Ts...>::reduce`, a set of overloads. -/
def reduceAlternative (P : Platform) : TypeList → Object → Sink UInt64
  | .nil, _ => throw .illFormed
  | .cons _ t ts, x =>
    match x.as t with
    | .ok e => reduce P t e
    | .error _ => reduceAlternative P ts x

end

mutual

/-- **`deserialise_consumer<T>::consume`.** Nothing is stored if there is nothing to read. -/
def consume (P : Platform) : (t : Ty) → t.Deserialised → Sink Unit
  | .scalar s, d => if s = .null then pure () else set (reduceScalar s d)
  | .staticArray t n, d => do
    if 0 < n then
      let r ← reduce P (.staticArray t n) d
      set r
  | .dynamicArray t, d => do
    let r ← reduce P (.dynamicArray t) d
    set r
  | .pair a b, d => do
    let r ← reduce P (.pair a b) d
    set r
  | .tuple ts, d => do
    if 0 < ts.length then
      let r ← reduce P (.tuple ts) d
      set r
  | .optional t, d => do
    if ← Visitor.lift (Deserialiser.hasValue P d) then
      let x ← Visitor.lift (Deserialiser.deref P d)
      consume P t x
  | .variant .nil, _ => pure ()
  | .variant (.cons name t ts), d =>
    Visitor.visit P d (lambda (consumeAlternative P (.cons name t ts)))
  | .record fs bases, d => do
    let r ← reduce P (.record fs bases) d
    set r

/-- `variant_deserialise_consumer<Ts...>::consume`, a set of overloads. -/
def consumeAlternative (P : Platform) : TypeList → Object → Sink Unit
  | .nil, _ => throw .illFormed
  | .cons _ t ts, x =>
    match x.as t with
    | .ok e => consume P t e
    | .error _ => consumeAlternative P ts x

end

/-- `deserialise_consumer<T>::consume(deserialise<T>(buffer, fixed_offset))`. -/
def consumeAt (P : Platform) (mem : List UInt8) (t : Ty) (pos : ℕ) : Sink Unit := do
  let d ← Visitor.lift (deserialise P t mem pos)
  consume P t d

/-! ### The sum over a value -/

mutual

/-- **The sum over a value.** -/
def checksum : (t : Ty) → t.Value → UInt64
  | .scalar s, v => reduceScalar s v
  | .staticArray t _, v => (v.1.map (checksum t)).sum
  | .dynamicArray t, (v : List t.Value) => (v.map (checksum t)).sum
  | .pair a b, v => checksum a v.1 + checksum b v.2
  | .tuple ts, v => checksumFields ts v
  | .optional _, none => 0
  | .optional t, some v => checksum t v
  | .variant _, none => 0
  | .variant ts, some v => checksumAlternative ts v
  | .record fs _, v => checksumFields fs v

/-- The sum over all values of a list. -/
def checksumFields : (ts : TypeList) → ts.Data List → UInt64
  | .nil, _ => 0
  | .cons _ t ts, v => checksum t v.1 + checksumFields ts v.2

/-- The sum over an alternative. -/
def checksumAlternative : (ts : TypeList) → ts.Alternative List → UInt64
  | .nil, v => nomatch v
  | .cons _ t _, .inl v => checksum t v
  | .cons _ _ ts, .inr v => checksumAlternative ts v

end

mutual

/-- Whether there is anything to read in a value, as far as the types tell, or an optional or a
variant on the way to it. -/
def hasData : (t : Ty) → t.Value → Bool
  | .scalar s, _ => s != .null
  | .staticArray _ n, _ => 0 < n
  | .dynamicArray _, _ => true
  | .pair _ _, _ => true
  | .tuple ts, _ => 0 < ts.length
  | .optional _, none => false
  | .optional t, some v => hasData t v
  | .variant _, none => false
  | .variant ts, some v => hasDataAlternative ts v
  | .record _ _, _ => true

/-- The same for an alternative. -/
def hasDataAlternative : (ts : TypeList) → ts.Alternative List → Bool
  | .nil, v => nomatch v
  | .cons _ t _, .inl v => hasData t v
  | .cons _ _ ts, .inr v => hasDataAlternative ts v

end

/-- What is stored once an object of a value has been consumed. -/
def stored (t : Ty) (sink : UInt64) (v : t.Value) : UInt64 :=
  if hasData t v then checksum t v else sink

/-! ### What the consumer does -/

theorem lift_bind {σ α β : Type} {m : Except Failure α} {a : α} (h : m = .ok a)
    (f : α → EStateM Failure σ β) : (Visitor.lift m >>= f) = f a := by
  rw [h]
  rfl

/-- **The loop adds up the elements** of a view that yields them. -/
theorem reduceElements_ok {α β : Type} {f : α → Sink UInt64} {c : β → UInt64} {s : UInt64}
    {xs : List β} {elements : List (Except Failure α)} (hlen : elements.length = xs.length)
    (h : ∀ (i : ℕ) (x : β), xs[i]? = some x →
      ∃ e, elements[i]? = some (.ok e) ∧ f e s = .ok (c x) s) (result : UInt64) :
    reduceElements f elements result s = .ok (result + (xs.map c).sum) s := by
  induction xs generalizing elements result with
  | nil =>
    obtain rfl := List.eq_nil_of_length_eq_zero hlen
    rw [List.map_nil, List.sum_nil, UInt64.add_zero]
    rfl
  | cons x xs ih =>
    cases elements with
    | nil => exact absurd hlen.symm (Nat.succ_ne_zero _)
    | cons element elements =>
      obtain ⟨e, he, hx⟩ := h 0 x rfl
      have hrest := ih (Nat.succ.inj hlen) (fun i => h (i + 1)) (result + c x)
      rw [reduceElements, lift_bind (Option.some.inj he), bind_ok hx, hrest, List.map_cons,
        List.sum_cons, UInt64.add_assoc]

/-- What an object yields as an alternative, it yields as the type it has. -/
theorem exists_of_yieldsAlternative : ∀ (ts : TypeList) (x : Object) (v : ts.Alternative List),
    YieldsAlternative P ts x v → ∃ w : x.1.Value, Yields P x.1 x.2 w ∧
      checksum x.1 w = checksumAlternative ts v ∧ hasData x.1 w = hasDataAlternative ts v
  | .nil, _, v, _ => nomatch v
  | .cons _ _ _, _, .inl v, ⟨_, rfl, h⟩ => ⟨v, h, rfl, rfl⟩
  | .cons _ _ ts, x, .inr v, h => exists_of_yieldsAlternative ts x v h

theorem Object.as_eq_ok {x : Object} {t : Ty} {e : t.Deserialised} (h : x.as t = .ok e) :
    x = ⟨t, e⟩ := by
  obtain ⟨u, d⟩ := x
  unfold Object.as at h
  split_ifs at h with hu
  obtain rfl : u = t := hu
  exact congrArg (Sigma.mk u) (Except.ok.inj h)

mutual

/-- **An object is reduced to the sum over its value.** -/
theorem reduce_of_yields : ∀ (t : Ty) (d : t.Deserialised) (v : t.Value) (s : UInt64),
    Yields P t d v → reduce P t d s = .ok (checksum t v) s
  | .scalar s, _, _, _, h => congrArg (fun x => EStateM.Result.ok (reduceScalar s x) _) h
  | .staticArray t n, d, v, s, ⟨hlen, h⟩ => by
    have hsum := @reduceElements_ok _ _ (reduce P t) (checksum t) s v.1 _ (hlen.trans v.2.symm)
      (fun i x hx => by
        obtain ⟨e, -, -, -, he, hex⟩ := h i x hx
        exact ⟨e, he, reduce_of_yields t e x s hex⟩) 0
    rwa [UInt64.zero_add] at hsum
  | .dynamicArray t, d, v, s, ⟨_, _, elements, helements, hlen, h⟩ => by
    have hsum := @reduceElements_ok _ _ (reduce P t) (checksum t) s v _ hlen
      (fun i x hx => by
        obtain ⟨e, -, -, he, hex⟩ := h i x hx
        exact ⟨e, he, reduce_of_yields t e x s hex⟩) 0
    rw [UInt64.zero_add] at hsum
    rw [reduce, lift_bind helements]
    exact hsum
  | .pair a b, d, v, s, ⟨⟨e, he, _, ha⟩, ⟨f, hf, _, hb⟩⟩ => by
    rw [reduce, lift_bind he, bind_ok (reduce_of_yields a e v.1 s ha), lift_bind hf,
      bind_ok (reduce_of_yields b f v.2 s hb)]
    rfl
  | .tuple ts, _, v, s, h => reduceFields_of_yields ts _ _ v s h (fun _ _ => rfl)
  | .optional _, d, none, _, ⟨hvalue, _⟩ => by
    rw [reduce, lift_bind hvalue]
    rfl
  | .optional t, d, some v, s, ⟨hvalue, e, he, _, h⟩ => by
    rw [reduce, lift_bind hvalue, if_pos rfl, lift_bind he]
    exact reduce_of_yields t e v s h
  | .variant .nil, _, none, _, _ => rfl
  | .variant .nil, _, some v, _, _ => nomatch v
  | .variant (.cons name t ts), _, some v, s, ⟨_, _, x, _, hvisit, h⟩ => by
    rw [reduce, hvisit]
    exact reduceAlternative_of_yields (.cons name t ts) x v s h
  | .record fs _, _, v, s, ⟨h, _⟩ => reduceFields_of_yields fs _ _ v s h (fun _ _ => rfl)

theorem reduceFields_of_yields : ∀ (ts : TypeList) (get : ℕ → String → Except Failure Object)
    (get' : ℕ → Except Failure Object) (v : ts.Data List) (s : UInt64), YieldsFields P ts get v →
      (∀ i name, get i name = get' i) → reduceFields P ts get' s = .ok (checksumFields ts v) s
  | .nil, _, _, _, _, _, _ => rfl
  | .cons name t ts, get, get', v, s, ⟨⟨e, he, h⟩, hs⟩, hget => by
    rw [reduceFields, lift_bind ((hget 0 name).symm.trans he), lift_bind (Object.as_mk e),
      bind_ok (reduce_of_yields t e v.1 s h),
      bind_ok (reduceFields_of_yields ts _ _ v.2 s hs fun i => hget (i + 1))]
    rfl

theorem reduceAlternative_of_yields : ∀ (ts : TypeList) (x : Object) (v : ts.Alternative List)
    (s : UInt64), YieldsAlternative P ts x v →
      reduceAlternative P ts x s = .ok (checksumAlternative ts v) s
  | .nil, _, v, _, _ => nomatch v
  | .cons _ t _, _, .inl v, s, ⟨e, he, h⟩ => by
    rw [reduceAlternative, he, Object.as_mk]
    exact reduce_of_yields t e v s h
  | .cons _ t ts, x, .inr v, s, h => by
    rw [reduceAlternative]
    cases hx : x.as t with
    | error _ => exact reduceAlternative_of_yields ts x v s h
    | ok e =>
      -- an alternative of the same type comes first, and has the same overload
      obtain rfl := Object.as_eq_ok hx
      obtain ⟨w, hw, hsum, -⟩ := exists_of_yieldsAlternative ts _ v h
      exact (reduce_of_yields t e w s hw).trans (congrArg (EStateM.Result.ok · s) hsum)

end

/-- Storing the result of a reduction. -/
theorem store_of_reduces {m : Sink UInt64} {c s : UInt64} (h : m s = .ok c s) :
    (m >>= fun r => set r) s = .ok () c := by
  rw [bind_ok h]
  rfl

mutual

/-- **An object that yields a value is consumed** without an exception: the sum over the value is
stored, if there is anything to read. -/
theorem consume_of_yields : ∀ (t : Ty) (d : t.Deserialised) (v : t.Value) (s : UInt64),
    Yields P t d v → consume P t d s = .ok () (if hasData t v then checksum t v else s)
  | .scalar s, d, v, sink, h => by
    cases s with
    | null => rfl
    | _ => exact congrArg (EStateM.Result.ok () ∘ reduceScalar _) h
  | .staticArray t n, d, v, s, h => by
    rw [consume]
    by_cases hn : 0 < n
    · rw [if_pos hn, store_of_reduces (reduce_of_yields _ _ _ s h), hasData,
        if_pos (decide_eq_true hn)]
    · rw [if_neg hn, hasData, if_neg (by simpa using hn)]
      rfl
  | .dynamicArray t, d, v, s, h => store_of_reduces (reduce_of_yields _ _ _ s h)
  | .pair a b, d, v, s, h => store_of_reduces (reduce_of_yields _ _ _ s h)
  | .tuple ts, d, v, s, h => by
    rw [consume]
    by_cases hn : 0 < ts.length
    · rw [if_pos hn, store_of_reduces (reduce_of_yields _ _ _ s h), hasData,
        if_pos (decide_eq_true hn)]
    · rw [if_neg hn, hasData, if_neg (by simpa using hn)]
      rfl
  | .optional _, d, none, _, ⟨hvalue, _⟩ => by
    rw [consume, lift_bind hvalue]
    rfl
  | .optional t, d, some v, s, ⟨hvalue, e, he, _, h⟩ => by
    rw [consume, lift_bind hvalue, if_pos rfl, lift_bind he]
    exact consume_of_yields t e v s h
  | .variant .nil, _, none, _, _ => rfl
  | .variant .nil, _, some v, _, _ => nomatch v
  | .variant (.cons name t ts), _, some v, s, ⟨_, _, x, _, hvisit, h⟩ => by
    rw [consume, hvisit]
    exact consumeAlternative_of_yields (.cons name t ts) x v s h
  | .record fs bases, d, v, s, h => store_of_reduces (reduce_of_yields _ _ _ s h)

theorem consumeAlternative_of_yields : ∀ (ts : TypeList) (x : Object) (v : ts.Alternative List)
    (s : UInt64), YieldsAlternative P ts x v → consumeAlternative P ts x s =
      .ok () (if hasDataAlternative ts v then checksumAlternative ts v else s)
  | .nil, _, v, _, _ => nomatch v
  | .cons _ t _, _, .inl v, s, ⟨e, he, h⟩ => by
    rw [consumeAlternative, he, Object.as_mk]
    exact consume_of_yields t e v s h
  | .cons _ t ts, x, .inr v, s, h => by
    rw [consumeAlternative]
    cases hx : x.as t with
    | error _ => exact consumeAlternative_of_yields ts x v s h
    | ok e =>
      obtain rfl := Object.as_eq_ok hx
      obtain ⟨w, hw, hsum, hdata⟩ := exists_of_yieldsAlternative ts _ v h
      rw [hasDataAlternative, checksumAlternative, ← hsum, ← hdata]
      exact consume_of_yields t e w s hw

end

end SerialisePP
