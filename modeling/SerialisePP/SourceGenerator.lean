import Mathlib.Algebra.Order.Field.Rat
import SerialisePP.Layout
import SerialisePP.Lib.Effect

/-!
# Random sources, and how large they get

The benchmarks make up their own data: `random_source_generator<T>` has a generator for every
part of a type, and the parameters to go with them – the sizes of the dynamic arrays, and how
likely an optional or an alternative is. It also has to say in advance how much memory its
sources may take once they are serialised, as the buffers of the benchmarks never grow.

`SerialisePP.generate_fits` is that `max_serialised_size()` is enough: whatever the parameters
and whatever the random numbers, no source that is generated is serialised to more.

The distributions of the standard library are a parameter, as is the floating-point arithmetic.
A probability is a rational number here, and a difference of two may be rounded.
-/

namespace SerialisePP

open Effect TwoSection

/-! ### Random numbers -/

/-- **`xorshift_engine::operator()`**, on the state of the engine. -/
def xorshift (state : UInt64) : UInt64 :=
  let s := state ^^^ (state <<< 13)
  let s := s ^^^ (s >>> 7)
  s ^^^ (s <<< 17)

/-- A run with an engine as its state. -/
abbrev Gen := EStateM Failure UInt64

/-- `random_engine()`. -/
def nextNumber : Gen UInt64 := modifyGet fun s => (xorshift s, xorshift s)

/-- **The distributions, and floating-point arithmetic.** -/
structure Distributions where
  /-- `std::uniform_int_distribution`. -/
  uniformInt : (min max : ℕ) → UInt64 → ℕ × UInt64
  uniformInt_le : ∀ min max s, min ≤ max → (uniformInt min max s).1 ≤ max
  /-- `std::uniform_real_distribution`, from 0 to 1. -/
  uniformReal : UInt64 → ℚ × UInt64
  uniformReal_nonneg : ∀ s, 0 ≤ (uniformReal s).1
  /-- The difference of two numbers. -/
  sub : ℚ → ℚ → ℚ
  sub_nonneg : ∀ r p, p ≤ r → 0 ≤ sub r p
  /-- The `float` that is made of a random number. -/
  toFloat : UInt64 → BitVec 32
  /-- The `double` that is made of a random number. -/
  toDouble : UInt64 → BitVec 64

/-- A random number, from a distribution. -/
def sample {α : Type} (distribution : UInt64 → α × UInt64) : Gen α := modifyGet distribution

theorem Distributions.sat_uniformReal (D : Distributions) (s : UInt64)
    {E : Failure → UInt64 → Prop} : Sat (sample D.uniformReal) s (fun r _ => 0 ≤ r) E :=
  D.uniformReal_nonneg s

/-! ### The generators -/

/-- The parameters for a `dynamic_array`. -/
structure DynamicArrayGenerator (P : Platform) (G : Type) where
  /-- The smallest size. -/
  minSize : ℕ
  /-- The largest size. -/
  maxSize : ℕ
  maxSize_lt : maxSize < P.sizeRange
  /-- The generator of the elements. -/
  elementGenerator : G

/-- The parameters for an `optional`, or for an alternative of a `variant`. -/
structure ValueGenerator (G : Type) where
  /-- How likely the value is. -/
  prob : ℚ
  /-- The generator of the value. -/
  generator : G

section Generators

variable (P : Platform) (D : Distributions)

mutual

/-- **`random_source_generator<T>`.** -/
def Generator : Ty → Type
  | .scalar _ => Unit
  | .staticArray t _ => Generator t
  | .dynamicArray t => DynamicArrayGenerator P (Generator t)
  | .pair a b => Generator a × Generator b
  | .tuple ts => FieldGenerators ts
  | .optional t => ValueGenerator (Generator t)
  | .variant ts => AlternativeGenerators ts
  | .record fs _ => FieldGenerators fs

/-- The generators of the elements of a tuple or the fields of a record. -/
def FieldGenerators : TypeList → Type
  | .nil => Unit
  | .cons _ t ts => Generator t × FieldGenerators ts

/-- The generators of the alternatives of a variant, each with its probability. -/
def AlternativeGenerators : TypeList → Type
  | .nil => Unit
  | .cons _ t ts => ValueGenerator (Generator t) × AlternativeGenerators ts

end

mutual

/-- **`max_serialised_size()`**, in `std::size_t`. -/
def maxSerialisedSize : (t : Ty) → Generator P t → ℕ
  | .scalar s, _ => fixedDataSize P (.scalar s)
  | .staticArray t n, g => P.wrap (maxSerialisedSize t g * n)
  | .dynamicArray t, g => P.wrap (fixedDataSize P (.dynamicArray t) +
      P.wrap (g.maxSize * maxSerialisedSize t g.elementGenerator))
  | .pair a b, g => P.wrap (maxSerialisedSize a g.1 + maxSerialisedSize b g.2)
  | .tuple ts, g => maxFieldsSize ts g
  | .optional t, g => P.wrap (fixedDataSize P (.optional t) +
      P.wrap ((0 < g.prob : Bool).toNat * maxSerialisedSize t g.generator))
  | .variant ts, g => P.wrap (fixedDataSize P (.variant ts) + maxAlternativeSize ts g)
  | .record fs _, g => maxFieldsSize fs g

/-- The sum over the elements of a tuple or the fields of a record. -/
def maxFieldsSize : (ts : TypeList) → FieldGenerators P ts → ℕ
  | .nil, _ => 0
  | .cons _ t ts, g => P.wrap (maxSerialisedSize t g.1 + maxFieldsSize ts g.2)

/-- The largest of the alternatives that are possible, or 0. -/
def maxAlternativeSize : (ts : TypeList) → AlternativeGenerators P ts → ℕ
  | .nil, _ => 0
  | .cons _ t ts, g => max (P.wrap ((0 < g.1.prob : Bool).toNat *
      maxSerialisedSize t g.1.generator)) (maxAlternativeSize ts g.2)

end

/-- The generators of the scalars. -/
def generateScalar : (s : Scalar) → Gen s.Value
  | .null => pure ()
  | .byte => do
    let x ← nextNumber
    pure x.toUInt8
  | .bool => do
    let x ← nextNumber
    pure (x != 0)
  | .unsigned n => do
    let x ← nextNumber
    pure ⟨x.toNat % 256 ^ n, Nat.mod_lt _ (Nat.pow_pos (by decide))⟩
  | .signed n => do
    let x ← nextNumber
    pure (.ofUnsigned (x.toNat % 256 ^ n) (Nat.mod_lt _ (Nat.pow_pos (by decide))))
  | .float => do
    let x ← nextNumber
    pure (D.toFloat x)
  | .double => do
    let x ← nextNumber
    pure (D.toDouble x)

/-- So many sources, one after the other. -/
def generateEach {α : Type} (generator : Gen α) :
    (n : ℕ) → Gen { xs : List α // xs.length = n }
  | 0 => pure ⟨[], rfl⟩
  | n + 1 => do
    let x ← generator
    let xs ← generateEach generator n
    pure ⟨x :: xs.1, congrArg (· + 1) xs.2⟩

/-- The size of a dynamic array. A distribution from a larger number to a smaller one has no
meaning, which is what is asserted. -/
def generateSize {G : Type} (g : DynamicArrayGenerator P G) : Gen { n : ℕ // n ≤ g.maxSize } :=
  if h : g.minSize ≤ g.maxSize then do
    let s ← get
    let r := D.uniformInt g.minSize g.maxSize s
    set r.2
    pure ⟨r.1, D.uniformInt_le g.minSize g.maxSize s h⟩
  else
    throw (if P.assertions then .assertFailed else .undefined)

/-- The loop over the probabilities of the alternatives, which takes each from what is left of
the random number. -/
def chooseAlternative : (probs : List ℚ) → (r : ℚ) → Option ℕ
  | [], _ => none
  | p :: probs, r => if r < p then some 0
    else (chooseAlternative probs (D.sub r p)).map (· + 1)

/-- The probabilities of the alternatives. -/
def probs : (ts : TypeList) → AlternativeGenerators P ts → List ℚ
  | .nil, _ => []
  | .cons _ _ ts, g => g.1.prob :: probs ts g.2

mutual

/-- **`random_source_generator<T>::operator()`.** -/
def generate : (t : Ty) → Generator P t → Gen (t.Source P)
  | .scalar s, _ => generateScalar D s
  | .staticArray t n, g => generateEach (generate t g) n
  | .dynamicArray t, g => do
    let size ← generateSize P D g
    let elements ← generateEach (generate t g.elementGenerator) size.1
    pure (.range elements.1 (elements.2.trans_lt (size.2.trans_lt g.maxSize_lt)))
  | .pair a b, g => do
    let x ← generate a g.1
    let y ← generate b g.2
    pure (x, y)
  | .tuple ts, g => generateFields ts g
  | .optional t, g => do
    let r ← sample D.uniformReal
    if r < g.prob then
      let x ← generate t g.generator
      pure (some x)
    else
      pure none
  | .variant .nil, _ => pure none
  | .variant (.cons name t ts), g => do
    let r ← sample D.uniformReal
    match chooseAlternative D (probs P (.cons name t ts) g) r with
    | some index =>
      let x ← generateAlternative (.cons name t ts) g index
      pure (some x)
    | none =>
      -- the end of the function is reached, after `assert(false)`
      throw (if P.assertions then .assertFailed else .undefined)
  | .record fs _, g => generateFields fs g

/-- The elements of a tuple or the fields of a record. -/
def generateFields : (ts : TypeList) → FieldGenerators P ts → Gen (ts.Data (ArraySource P))
  | .nil, _ => pure ()
  | .cons _ t ts, g => do
    let x ← generate t g.1
    let xs ← generateFields ts g.2
    pure (x, xs)

/-- `_generate`: the alternative with an index. -/
def generateAlternative :
    (ts : TypeList) → AlternativeGenerators P ts → ℕ → Gen (ts.Alternative (ArraySource P))
  | .nil, _, _ => throw .undefined
  | .cons _ t _, g, 0 => do
    let x ← generate t g.1.generator
    pure (.inl x)
  | .cons _ _ ts, g, index + 1 => do
    let x ← generateAlternative ts g.2 index
    pure (.inr x)

end

end Generators

/-! ### What a source may take -/

section Bound

variable {P : Platform} {D : Distributions}

mutual

/-- **The most that a source may take**, as an integer. -/
def sizeBound : (t : Ty) → Generator P t → ℕ
  | .scalar s, _ => s.size
  | .staticArray t n, g => sizeBound t g * n
  | .dynamicArray t, g => 8 + g.maxSize * sizeBound t g.elementGenerator
  | .pair a b, g => sizeBound a g.1 + sizeBound b g.2
  | .tuple ts, g => fieldsBound ts g
  | .optional t, g => 4 + (0 < g.prob : Bool).toNat * sizeBound t g.generator
  | .variant ts, g => 6 + alternativeBound ts g
  | .record fs _, g => fieldsBound fs g

/-- The same for the elements of a tuple or the fields of a record. -/
def fieldsBound : (ts : TypeList) → FieldGenerators P ts → ℕ
  | .nil, _ => 0
  | .cons _ t ts, g => sizeBound t g.1 + fieldsBound ts g.2

/-- The same for the alternatives of a variant. -/
def alternativeBound : (ts : TypeList) → AlternativeGenerators P ts → ℕ
  | .nil, _ => 0
  | .cons _ t ts, g =>
    max ((0 < g.1.prob : Bool).toNat * sizeBound t g.1.generator) (alternativeBound ts g.2)

end

/-- A product with a factor that does not matter if the other one is 0. -/
theorem wrap_mul_of_lt {a b b' : ℕ} (h : a * b < P.sizeRange) (hb : 0 < a → b' = b) :
    P.wrap (a * b') = a * b := by
  rcases Nat.eq_zero_or_pos a with rfl | ha
  · rw [Nat.zero_mul, Nat.zero_mul]
    exact Platform.wrap_of_lt (by omega)
  · rw [hb ha, Platform.wrap_of_lt h]

theorem lt_of_mul_lt {a b n : ℕ} (h : a * b < n) (ha : 0 < a) : b < n :=
  (Nat.le_mul_of_pos_left b ha).trans_lt h

mutual

/-- **`max_serialised_size()` is this bound**, if it is in the range of `std::size_t`. -/
theorem maxSerialisedSize_eq : ∀ (t : Ty) (g : Generator P t), sizeBound t g < P.sizeRange →
    maxSerialisedSize P t g = sizeBound t g
  | .scalar s, _, h => fixedDataSize_of_lt (t := .scalar s) h
  | .staticArray t n, g, h => by
    have hmul : n * sizeBound t g < P.sizeRange := Nat.mul_comm .. ▸ h
    rw [maxSerialisedSize, sizeBound, Nat.mul_comm, Nat.mul_comm (sizeBound t g)]
    exact wrap_mul_of_lt hmul fun hn => maxSerialisedSize_eq t g (lt_of_mul_lt hmul hn)
  | .dynamicArray t, g, h => by
    have hsize : fixedDataSize P (.dynamicArray t) = 8 :=
      fixedDataSize_of_lt (t := .dynamicArray t) (Nat.lt_of_add_right_lt h)
    have hmul := Nat.lt_of_add_left_lt h
    rw [maxSerialisedSize, wrap_mul_of_lt hmul fun hn =>
      maxSerialisedSize_eq t g.elementGenerator (lt_of_mul_lt hmul hn), hsize]
    exact Platform.wrap_of_lt h
  | .pair a b, g, h => by
    rw [maxSerialisedSize, maxSerialisedSize_eq a g.1 (Nat.lt_of_add_right_lt h),
      maxSerialisedSize_eq b g.2 (Nat.lt_of_add_left_lt h)]
    exact Platform.wrap_of_lt h
  | .tuple ts, g, h => maxFieldsSize_eq ts g h
  | .optional t, g, h => by
    have hsize : fixedDataSize P (.optional t) = 4 :=
      fixedDataSize_of_lt (t := .optional t) (Nat.lt_of_add_right_lt h)
    have hmul := Nat.lt_of_add_left_lt h
    rw [maxSerialisedSize, wrap_mul_of_lt hmul fun hn =>
      maxSerialisedSize_eq t g.generator (lt_of_mul_lt hmul hn), hsize]
    exact Platform.wrap_of_lt h
  | .variant ts, g, h => by
    have hsize : fixedDataSize P (.variant ts) = 6 :=
      fixedDataSize_of_lt (t := .variant ts) (Nat.lt_of_add_right_lt h)
    rw [maxSerialisedSize, maxAlternativeSize_eq ts g (Nat.lt_of_add_left_lt h), hsize]
    exact Platform.wrap_of_lt h
  | .record fs _, g, h => maxFieldsSize_eq fs g h

theorem maxFieldsSize_eq : ∀ (ts : TypeList) (g : FieldGenerators P ts),
    fieldsBound ts g < P.sizeRange → maxFieldsSize P ts g = fieldsBound ts g
  | .nil, _, _ => rfl
  | .cons _ t ts, g, h => by
    rw [maxFieldsSize, maxSerialisedSize_eq t g.1 (Nat.lt_of_add_right_lt h),
      maxFieldsSize_eq ts g.2 (Nat.lt_of_add_left_lt h)]
    exact Platform.wrap_of_lt h

theorem maxAlternativeSize_eq : ∀ (ts : TypeList) (g : AlternativeGenerators P ts),
    alternativeBound ts g < P.sizeRange → maxAlternativeSize P ts g = alternativeBound ts g
  | .nil, _, _ => rfl
  | .cons _ t ts, g, h => by
    obtain ⟨hmul, hrest⟩ := max_lt_iff.mp h
    rw [maxAlternativeSize, maxAlternativeSize_eq ts g.2 hrest, wrap_mul_of_lt hmul fun hn =>
      maxSerialisedSize_eq t g.1.generator (lt_of_mul_lt hmul hn)]
    rfl

end

/-! ### It is enough -/

/-- A mark of something that starts by a position, and has a representation. -/
def Mark.StartsBy (n : ℕ) : Mark → Prop
  | .elements _ _ start => start ≤ n
  | .optional _ start => start ≤ n
  | .variant _ _ start => start ≤ n
  | .valueless => False

theorem Mark.StartsBy.mono (m n : ℕ) (k : Mark) (hle : m ≤ n) (h : k.StartsBy m) :
    k.StartsBy n := by
  cases k with
  | valueless => exact h
  | _ => exact Nat.le_trans h hle

/-- **An object that takes no more than a bound**, with nothing in it that starts beyond its end
or has no representation. -/
structure BoundedBy (l : Layout UInt8 Mark) (bound : ℕ) : Prop where
  total_le : l.total ≤ bound
  within : l.Within Mark.StartsBy

namespace BoundedBy

variable {l r : Layout UInt8 Mark} {m n : ℕ}

theorem leaf {cells : List UInt8} (h : cells.length ≤ n) :
    BoundedBy (.leaf cells fun _ _ => []) n := ⟨h, Layout.within_leaf cells⟩

theorem mono (h : BoundedBy l m) (hle : m ≤ n) : BoundedBy l n := ⟨h.total_le.trans hle, h.within⟩

theorem append (hl : BoundedBy l m) (hr : BoundedBy r n) : BoundedBy (l.append r) (m + n) where
  total_le := Layout.total_append.trans_le (Nat.add_le_add hl.total_le hr.total_le)
  within := hl.within.append Mark.StartsBy.mono hr.within

theorem box {k : ℕ} {header : ℕ → List UInt8} {mark : ℕ → ℕ → Mark}
    {h : ∀ base, (header base).length = k} (hl : BoundedBy l n)
    (hmark : ∀ pos base, (mark pos base).StartsBy (base + l.total)) :
    BoundedBy (.box k header mark l h) (k + n) where
  total_le := Nat.add_le_add_left hl.total_le k
  within := hl.within.box hmark

/-- The elements of an array, side by side. -/
theorem elements {P : Platform} {t : Ty} {xs : List (t.Source P)}
    (h : ∀ x ∈ xs, BoundedBy (layout t (t.value x)) n) :
    BoundedBy (.concat ((xs.map t.value).map (layout t))) (n * xs.length) := by
  have hlayouts : ∀ l ∈ (xs.map t.value).map (layout t), BoundedBy l n := by
    intro l hl
    obtain ⟨y, hy, rfl⟩ := List.mem_map.mp hl
    obtain ⟨x, hx, rfl⟩ := List.mem_map.mp hy
    exact h x hx
  have htotal := Layout.total_concat_le fun l hl => (hlayouts l hl).total_le
  rw [List.length_map, List.length_map] at htotal
  exact ⟨htotal, .concat Mark.StartsBy.mono fun l hl => (hlayouts l hl).within⟩

end BoundedBy

theorem sat_generateScalar (D : Distributions) (s : Scalar) (state : UInt64) :
    Sat (generateScalar D s) state (fun _ _ => True) fun _ _ => False := by
  cases s <;> trivial

/-- A failure that is not an exception. -/
def Failure.NotThrown (e : Failure) : Prop := ∀ x, e ≠ .thrown x

theorem notThrown_of_assertion (P : Platform) :
    (if P.assertions then Failure.assertFailed else .undefined).NotThrown := by
  intro x hx
  cases hassert : P.assertions <;> rw [hassert] at hx <;> cases hx

theorem sat_generateSize {G : Type} (g : DynamicArrayGenerator P G) (s : UInt64) :
    Sat (generateSize P D g) s (fun _ _ => True) fun e _ => e.NotThrown := by
  unfold generateSize
  by_cases h : g.minSize ≤ g.maxSize
  · rw [dif_pos h]
    trivial
  · rw [dif_neg h]
    exact notThrown_of_assertion P

theorem sat_generateEach {α : Type} {generator : Gen α} {Q : α → Prop}
    (h : ∀ s, Sat generator s (fun x _ => Q x) fun e _ => e.NotThrown) (n : ℕ) (s : UInt64) :
    Sat (generateEach generator n) s (fun xs _ => ∀ x ∈ xs.1, Q x) fun e _ => e.NotThrown := by
  induction n generalizing s with
  | zero => exact fun _ hx => absurd hx List.not_mem_nil
  | succ n ih =>
    rw [generateEach, sat_bind]
    refine (h s).mono (fun x s₁ hx => ?_) fun _ _ h => h
    rw [sat_bind]
    refine (ih s₁).mono (fun xs _ hxs => ?_) fun _ _ h => h
    exact List.forall_mem_cons.mpr ⟨hx, hxs⟩

/-- **An alternative that is chosen is a possible one**: what is left of the random number is never
negative. -/
theorem prob_pos_of_chosen {ps : List ℚ} {r : ℚ} {index : ℕ} (hr : 0 ≤ r)
    (h : chooseAlternative D ps r = some index) : ∃ p, ps[index]? = some p ∧ 0 < p := by
  induction ps generalizing r index with
  | nil => cases h
  | cons p ps ih =>
    unfold chooseAlternative at h
    split_ifs at h with hlt
    · obtain rfl := Option.some.inj h
      exact ⟨p, rfl, hr.trans_lt hlt⟩
    · obtain ⟨i, hi, rfl⟩ := Option.map_eq_some_iff.mp h
      exact ih (D.sub_nonneg r p (not_lt.mp hlt)) hi

theorem toNat_mul_of_pos {p : ℚ} (hp : 0 < p) (n : ℕ) : (0 < p : Bool).toNat * n = n := by
  rw [decide_eq_true hp, Bool.toNat_true, Nat.one_mul]

mutual

/-- **No source takes more than the bound**, by induction over the types. -/
theorem generate_boundedBy : ∀ (t : Ty) (g : Generator P t) (s : UInt64), Sat (generate P D t g) s
    (fun source _ => BoundedBy (layout t (t.value source)) (sizeBound t g)) fun e _ => e.NotThrown
  | .scalar s, g, _ => by
    refine (sat_generateScalar D s _).mono (fun v _ _ => ?_) fun _ _ h => h.elim
    exact .leaf (s.length_encode v).le
  | .staticArray t n, g, s => by
    refine (sat_generateEach (generate_boundedBy t g) n s).mono (fun xs _ hxs => ?_) fun _ _ h => h
    exact (BoundedBy.elements hxs).mono (congrArg (sizeBound t g * ·) xs.2).le
  | .dynamicArray t, g, s => by
    rw [generate, sat_bind]
    refine (sat_generateSize g s).mono (fun size s₁ _ => ?_) fun _ _ h => h
    rw [sat_bind]
    refine (sat_generateEach (generate_boundedBy t g.elementGenerator) size.1 s₁).mono
      (fun xs _ hxs => ?_) fun _ _ h => h
    have helements := BoundedBy.elements hxs
    rw [xs.2, Nat.mul_comm] at helements
    exact (helements.mono (Nat.mul_le_mul_right _ size.2)).box fun _ _ => Nat.le_add_right ..
  | .pair a b, g, s => by
    rw [generate, sat_bind]
    refine (generate_boundedBy a g.1 s).mono (fun x s₁ hx => ?_) fun _ _ h => h
    rw [sat_bind]
    exact (generate_boundedBy b g.2 s₁).mono (fun y _ hy => hx.append hy) fun _ _ h => h
  | .tuple ts, g, s => generateFields_boundedBy ts g s
  | .optional t, g, s => by
    rw [generate, sat_bind]
    refine (D.sat_uniformReal s).mono (fun r s₁ hr => ?_) fun _ _ h => h
    split_ifs with hprob
    · rw [sat_bind]
      refine (generate_boundedBy t g.generator s₁).mono (fun x _ hx => ?_) fun _ _ h => h
      rw [← toNat_mul_of_pos (hr.trans_lt hprob) (sizeBound t g.generator)] at hx
      exact hx.box fun _ _ => Nat.le_add_right ..
    · exact .leaf (Nat.le_add_right 4 _)
  | .variant .nil, _, _ => .leaf (Nat.le_add_right 6 _)
  | .variant (.cons name t ts), g, s => by
    rw [generate, sat_bind]
    refine (D.sat_uniformReal s).mono (fun r s₁ hr => ?_) fun _ _ h => h
    cases hchoose : chooseAlternative D (probs P (.cons name t ts) g) r with
    | none => exact notThrown_of_assertion P
    | some index =>
      rw [sat_bind]
      exact (generateAlternative_boundedBy (.cons name t ts) g index s₁
        (prob_pos_of_chosen hr hchoose)).mono
        (fun x _ hx => hx.box fun _ _ => Nat.le_add_right ..) fun _ _ h => h
  | .record fs _, g, s => generateFields_boundedBy fs g s

theorem generateFields_boundedBy : ∀ (ts : TypeList) (g : FieldGenerators P ts) (s : UInt64),
    Sat (generateFields P D ts g) s
      (fun source _ => BoundedBy (layoutFields ts (ts.value source)) (fieldsBound ts g))
      fun e _ => e.NotThrown
  | .nil, _, _ => .leaf (Nat.le_refl 0)
  | .cons _ t ts, g, s => by
    rw [generateFields, sat_bind]
    refine (generate_boundedBy t g.1 s).mono (fun x s₁ hx => ?_) fun _ _ h => h
    rw [sat_bind]
    exact (generateFields_boundedBy ts g.2 s₁).mono (fun xs _ hxs => hx.append hxs)
      fun _ _ h => h

theorem generateAlternative_boundedBy : ∀ (ts : TypeList) (g : AlternativeGenerators P ts)
    (index : ℕ) (s : UInt64), (∃ p, (probs P ts g)[index]? = some p ∧ 0 < p) →
      Sat (generateAlternative P D ts g index) s
        (fun source _ => BoundedBy (layoutAlternative ts (ts.alternative source))
          (alternativeBound ts g)) fun e _ => e.NotThrown
  | .nil, _, _, _, _ => fun _ hx => by cases hx
  | .cons _ t _, g, 0, s, hp => by
    obtain ⟨p, hget, hp⟩ := hp
    obtain rfl : g.1.prob = p := Option.some.inj hget
    rw [generateAlternative, sat_bind]
    refine (generate_boundedBy t g.1.generator s).mono (fun x _ hx => ?_) fun _ _ h => h
    rw [← toNat_mul_of_pos hp (sizeBound t g.1.generator)] at hx
    exact hx.mono (le_max_left ..)
  | .cons _ _ ts, g, index + 1, s, hp => by
    rw [generateAlternative, sat_bind]
    exact (generateAlternative_boundedBy ts g.2 index s hp).mono
      (fun x _ hx => hx.mono (le_max_right ..)) fun _ _ h => h

end

/-- **`max_serialised_size()` is enough**: whatever the type, the parameters and the random
numbers, no source that is generated takes more once it is serialised, if the bound is in the
range of `std::size_t`. -/
theorem generate_fits {t : Ty} (g : Generator P t) (hbound : sizeBound t g < P.sizeRange)
    {s s' : UInt64} {source : t.Source P} (hrun : generate P D t g s = .ok source s') :
    t.size + variableSize t (t.value source) ≤ maxSerialisedSize P t g := by
  rw [maxSerialisedSize_eq t g hbound, ← fixedSize_layout t (t.value source)]
  exact ((generate_boundedBy t g s).ok hrun).total_le

/-- Distributions that are exact, and no floating-point sources. -/
def Distributions.exact : Distributions where
  uniformInt min max s := (min + (xorshift s).toNat % (max - min + 1), xorshift s)
  uniformInt_le min max s h := by
    have : (xorshift s).toNat % (max - min + 1) < max - min + 1 := Nat.mod_lt _ (Nat.succ_pos _)
    show min + (xorshift s).toNat % (max - min + 1) ≤ max
    omega
  uniformReal s := (mkRat (xorshift s).toNat (2 ^ 64), xorshift s)
  uniformReal_nonneg s := Rat.mkRat_nonneg (Int.natCast_nonneg _) _
  sub r p := r - p
  sub_nonneg _ _ := sub_nonneg_of_le
  toFloat _ := 0
  toDouble _ := 0

/-- At most three optionals, each of which is as likely as not. -/
theorem generate_fits_optionals :
    let t : Ty := .dynamicArray (.optional (.unsigned 2))
    let g : Generator .x64 t := ⟨1, 3, by decide, ⟨1, 2, by decide, by decide⟩, ()⟩
    ∃ source s', generate .x64 .exact t g 1 = .ok source s' ∧
      t.size + variableSize t (t.value source) ≤ 26 := by
  intro t g
  obtain ⟨source, s', hrun⟩ : ∃ source s', generate .x64 .exact t g 1 = .ok source s' := by
    subst t g
    exact ⟨_, _, rfl⟩
  exact ⟨source, s', hrun, (generate_fits g (by decide) hrun).trans (by decide)⟩

end Bound

end SerialisePP
