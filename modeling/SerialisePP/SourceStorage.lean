import SerialisePP.Contract
import SerialisePP.SmallAny
import SerialisePP.UniquePointer

/-!
# How the source of a dynamic array holds its range

The source of a `dynamic_array` holds a range of any type, and there are five ways for it to do so:
it may hold none at all, or the range itself may be in the `small_any` of the source, or a pointer
to a wrapper on the heap may be, or the program is evaluated at compile time, and then there is a
wrapper and a pointer to it in any case. The range may have been made from a braced list or be a
view. A list that is not too long can be held in any of them
(`SerialisePP.SourceStorage.Way.exists_construct`).

None of this can be seen from outside (`SerialisePP.storage_invisible`): however the list is held,
and however often the source is moved, its owner is serialised as the list is, even if some of the
moves throw, and every source that has been moved from is serialised as an empty array.
-/

namespace SerialisePP

open Effect SerialiseBuffer

variable {ι : Type} {ρ : ι → Type} {α : Type}

/-! ### The storage -/

/-- The types a `small_any` of a source may contain something of. -/
inductive HeldType (ι : Type)
  /-- A range type. -/
  | range (R : ι)
  /-- `_alloc_range_wrapper_base_ptr`. -/
  | wrapper
deriving DecidableEq

/-- Their values. -/
def Held (ρ : ι → Type) : HeldType ι → Type
  | .range R => ρ R
  | .wrapper => UniquePointer

/-- **`_alloc_range_wrapper<R>`**, for any range type. -/
inductive RangeWrapper (ρ : ι → Type)
  /-- For `std::ranges::empty_view`. -/
  | emptyView
  | range (r : (R : ι) × ρ R)

/-- What a range yields. The size of a range is a `std::size_t`. -/
abbrev Elements (P : Platform) (α : Type) : Type :=
  { elements : List α // elements.length < P.sizeRange }

/-- **The sources of a program**: the `small_any` objects they have at run time and the pointers
they have at compile time, both by the address of the source, and the wrappers on the heap. -/
structure SourceStorage (ρ : ι → Type) where
  /-- The `_inline_buffer` of each source. -/
  buffers : Anys (Held ρ)
  /-- The `_constexpr_wrapper` of each source, and how many wrappers there have been. -/
  pointers : Pointers
  /-- The wrappers. -/
  wrappers : ℕ → Option (RangeWrapper ρ)

namespace SourceStorage

/-- Before the first source. -/
def start : SourceStorage ρ := ⟨.start, .start, fun _ => none⟩

/-- An operation on a `small_any`. -/
def onBuffers (m : EStateM Failure (Anys (Held ρ)) Unit) :
    EStateM Failure (SourceStorage ρ) Unit := fun s =>
  match m s.buffers with
  | .ok _ buffers => .ok () { s with buffers := buffers }
  | .error e buffers => .error e { s with buffers := buffers }

/-- An operation on a pointer that hands it a new wrapper. -/
def onPointers (f : Pointers → Option Pointers) (w : RangeWrapper ρ) :
    EStateM Failure (SourceStorage ρ) Unit := fun s =>
  match f s.pointers with
  | none => .error .undefined s
  | some pointers => .ok () { s with
      pointers := pointers
      wrappers := Function.update s.wrappers s.pointers.allocations (some w) }

/-! ### The constructors -/

section Constructors

variable [DecidableEq ι] (P : Platform)

/-- The default constructor. -/
def constructDefault (i : ℕ) : EStateM Failure (SourceStorage ρ) Unit :=
  if P.constantEvaluated then onPointers (Pointers.constructFresh i) .emptyView
  else onBuffers (Anys.construct i)

/-- `set_constexpr_wrapper`, on a new wrapper. -/
def setConstexprWrapper (i : ℕ) (r : (R : ι) × ρ R) : EStateM Failure (SourceStorage ρ) Unit :=
  onPointers (Pointers.resetFresh i) (.range r)

/-- `emplace<_alloc_range_wrapper_base_ptr>`, on a new wrapper. -/
def emplaceWrapper (i : ℕ) (r : (R : ι) × ρ R) : EStateM Failure (SourceStorage ρ) Unit := do
  let s ← get
  set { s with
    pointers := s.pointers.allocate
    wrappers := Function.update s.wrappers s.pointers.allocations (some (.range r)) }
  onBuffers (Anys.emplace i (.ok ⟨.wrapper, UniquePointer.construct s.pointers.allocations⟩))

/-- **What the constructors do with the range** they hold: `fits` is whether the `small_any` can
contain an object of its type. The constructor of the range may throw, and so may `new`. -/
def storeRange (fits : Bool) (i : ℕ) (stored : Except Exn ((R : ι) × ρ R)) :
    EStateM Failure (SourceStorage ρ) Unit :=
  if P.constantEvaluated then
    match stored with
    | .error e => throw (.thrown e)
    | .ok r => setConstexprWrapper i r
  else if fits then
    onBuffers (Anys.emplace i (stored.map fun r => ⟨.range r.1, r.2⟩))
  else
    match stored with
    | .error e => throw (.thrown e)
    | .ok r => emplaceWrapper i r

/-- The constructor from a braced list of `count` elements, which are moved to an array. -/
def constructBraced (fits : Bool) (count : ℕ) (i : ℕ) (array : Except Exn ((R : ι) × ρ R)) :
    EStateM Failure (SourceStorage ρ) Unit := do
  if maxDynamicArraySize < count then throw .illFormed
  constructDefault P i
  if 0 < count then storeRange P fits i array

/-- The constructor from a range of `count` elements, which holds what `views::all` returns. The
range is not stored if it is empty and not a `borrowed_range`. -/
def constructRange (fits borrowed : Bool) (count : ℕ) (i : ℕ)
    (all : Except Exn ((R : ι) × ρ R)) : EStateM Failure (SourceStorage ρ) Unit := do
  constructDefault P i
  if P.assertions && decide (maxDynamicArraySize < count) then throw .assertFailed
  if 0 < count || borrowed then storeRange P fits i all

/-- The move constructor. That of `small_any` cannot be evaluated at compile time. -/
def moveConstruct (target source : ℕ)
    (move : (v : (T : HeldType ι) × Held ρ T) → Except Exn (Held ρ v.1 × Held ρ v.1)) :
    EStateM Failure (SourceStorage ρ) Unit :=
  if P.constantEvaluated then throw .illFormed
  else onBuffers (Anys.moveConstruct target source move)

end Constructors

/-! ### What is serialised -/

section Visit

variable {P : Platform} (yields : (R : ι) → ρ R → Elements P α)

/-- The range of a wrapper. -/
def wrapped : RangeWrapper ρ → Elements P α
  | .emptyView => ⟨[], Platform.sizeRange_pos⟩
  | .range r => yields r.1 r.2

/-- The visitor, on a wrapper: the pointer to it must not be null. -/
def visitWrapper (s : SourceStorage ρ) (wrapper : UniquePointer) : Except Failure (Elements P α) :=
  match wrapper.get with
  | none => throw (if P.assertions then .assertFailed else .undefined)
  | some a =>
    match s.wrappers a with
    | none => throw .undefined
    | some w => pure (wrapped yields w)

/-- `_range_wrapper_visitor`: one of its overloads is for a range, and one for a wrapper. -/
def visitHeld (s : SourceStorage ρ) : (T : HeldType ι) × Held ρ T → Except Failure (Elements P α)
  | ⟨.range R, r⟩ => pure (yields R r)
  | ⟨.wrapper, p⟩ => visitWrapper yields s p

variable [DecidableEq ι]

/-- **What `_serialise_elements` finds in a source.** -/
def held (i : ℕ) (s : SourceStorage ρ) : Except Failure (ArraySource P α) :=
  if P.constantEvaluated then
    match s.pointers.live i with
    | none => throw .undefined
    | some p => do
      let elements ← visitWrapper yields s p
      pure (.range elements.1 elements.2)
  else
    match Anys.visit i s.buffers with
    | .error e _ => throw e
    | .ok none _ => pure .nothing
    | .ok (some v) _ => do
      let elements ← visitHeld yields s v
      pure (.range elements.1 elements.2)

end Visit

/-! ### Ways to construct a source -/

/-- **The ways to construct a source.** -/
inductive Way (ρ : ι → Type)
  /-- By default. -/
  | nothing
  /-- From a braced list, which is moved to an array. -/
  | braced (fits : Bool) (count : ℕ) (array : (R : ι) × ρ R)
  /-- From a range. -/
  | range (fits borrowed : Bool) (count : ℕ) (all : (R : ι) × ρ R)

/-- Constructing a source in one of these ways. -/
def Way.construct [DecidableEq ι] (P : Platform) (i : ℕ) :
    Way ρ → EStateM Failure (SourceStorage ρ) Unit
  | .nothing => constructDefault P i
  | .braced fits count array => constructBraced P fits count i (.ok array)
  | .range fits borrowed count all => constructRange P fits borrowed count i (.ok all)

/-- The list that a source is constructed from. -/
def Way.Lists {P : Platform} (yields : (R : ι) → ρ R → Elements P α) (L : List α) : Way ρ → Prop
  | .nothing => L = []
  | .braced _ count array => (yields array.1 array.2).1 = L ∧ count = L.length
  | .range _ _ count all => (yields all.1 all.2).1 = L ∧ count = L.length

section Construct

variable [DecidableEq ι] {P : Platform} {yields : (R : ι) → ρ R → Elements P α}
  {K : SourceStorage ρ → List α → Prop} {i : ℕ}

/-- Storing a range, or dropping it. -/
theorem storeRange_if_sat (hstore : ∀ fits r s, K s [] → Sat (storeRange P fits i (.ok r)) s
      (fun _ s' => K s' (yields r.1 r.2).1) fun _ _ => False)
    {s : SourceStorage ρ} (hs : K s []) (fits : Bool) (r : (R : ι) × ρ R) (stored : Prop)
    [Decidable stored] :
    Sat (if stored then storeRange P fits i (.ok r) else pure ()) s
      (fun _ s' => K s' (if stored then (yields r.1 r.2).1 else [])) fun _ _ => False := by
  by_cases h : stored
  · simp only [if_pos h]
    exact hstore fits r s hs
  · simp only [if_neg h]
    exact hs

/-- **What the constructor from a range leaves in a source**: what the range yields that is stored,
or nothing if none is. It only fails if there are too many elements. -/
theorem constructRange_sat
    (hdefault : Sat (constructDefault P i) start (fun _ s => K s []) fun _ _ => False)
    (hstore : ∀ fits r s, K s [] → Sat (storeRange P fits i (.ok r)) s
      (fun _ s' => K s' (yields r.1 r.2).1) fun _ _ => False)
    (fits borrowed : Bool) (count : ℕ) (all : (R : ι) × ρ R) :
    Sat (constructRange P fits borrowed count i (.ok all)) start
      (fun _ s => K s (if 0 < count || borrowed then (yields all.1 all.2).1 else []))
      fun _ _ => maxDynamicArraySize < count := by
  rw [constructRange, sat_bind]
  refine hdefault.mono (fun _ s hs => ?_) fun _ _ h => h.elim
  dsimp only
  by_cases hmax : (P.assertions && decide (maxDynamicArraySize < count)) = true
  · have hlong : maxDynamicArraySize < count :=
      of_decide_eq_true (Bool.and_eq_true_iff.mp hmax).2
    rw [if_pos hmax]
    exact hlong
  · rw [if_neg hmax]
    exact (storeRange_if_sat hstore hs fits all _).mono (fun _ _ h => h) fun _ _ h => h.elim

/-- **However a source is constructed**, it holds its list, if one that is constructed by default
holds an empty list and one that a range is stored in holds what that yields. It only fails if the
list is too long. -/
theorem Way.construct_sat
    (hdefault : Sat (constructDefault P i) start (fun _ s => K s []) fun _ _ => False)
    (hstore : ∀ fits r s, K s [] → Sat (storeRange P fits i (.ok r)) s
      (fun _ s' => K s' (yields r.1 r.2).1) fun _ _ => False)
    {way : Way ρ} {L : List α} (hway : way.Lists yields L) :
    Sat (way.construct P i) start (fun _ s => K s L)
      fun _ _ => maxDynamicArraySize < L.length := by
  -- a list that is dropped is empty
  have hdropped : ∀ (r : (R : ι) × ρ R) (stored : Prop) [Decidable stored],
      (¬stored → (yields r.1 r.2).1.length = 0) →
      (if stored then (yields r.1 r.2).1 else []) = (yields r.1 r.2).1 := by
    intro r stored _ hzero
    split_ifs with h
    · rfl
    · exact (List.eq_nil_of_length_eq_zero (hzero h)).symm
  cases way with
  | nothing =>
    obtain rfl : L = [] := hway
    exact hdefault.mono (fun _ _ h => h) fun _ _ h => h.elim
  | braced fits count array =>
    obtain ⟨rfl, hcount⟩ := hway
    show Sat (constructBraced P fits count i (.ok array)) _ _ _
    rw [constructBraced]
    by_cases hmax : maxDynamicArraySize < count
    · rw [if_pos hmax]
      exact hcount ▸ hmax
    · rw [if_neg hmax, sat_bind]
      refine hdefault.mono (fun _ s hs => ?_) fun _ _ h => h.elim
      have hstored := storeRange_if_sat hstore hs fits array (0 < count)
      rw [hdropped array (0 < count) fun hnot => by omega] at hstored
      exact hstored.mono (fun _ _ h => h) fun _ _ h => h.elim
  | range fits borrowed count all =>
    obtain ⟨rfl, hcount⟩ := hway
    have hstored := constructRange_sat hdefault hstore fits borrowed count all
    rw [hdropped all _ fun hnot => ?_] at hstored
    · exact hcount ▸ hstored
    · rw [Bool.or_eq_true, decide_eq_true_eq, not_or] at hnot
      omega

end Construct

/-! ### Construction at run time -/

section Owned

variable {P : Platform} {yields : (R : ι) → ρ R → Elements P α}

/-- An operation on a `small_any`, among the sources. -/
theorem sat_onBuffers {m : EStateM Failure (Anys (Held ρ)) Unit} {s : SourceStorage ρ}
    {Q : Unit → SourceStorage ρ → Prop} {E : Failure → SourceStorage ρ → Prop} :
    Sat (onBuffers m) s Q E ↔ Sat m s.buffers (fun _ b => Q () { s with buffers := b })
      fun e b => E e { s with buffers := b } := by
  unfold Sat onBuffers
  cases m s.buffers <;> exact Iff.rfl

/-- What a `small_any` contains yields a list. -/
def Reads (P : Platform) (yields : (R : ι) → ρ R → Elements P α) (s : SourceStorage ρ)
    (v : Option ((T : HeldType ι) × Held ρ T)) (L : List α) : Prop :=
  match v with
  | none => L = []
  | some v => ∃ elements, visitHeld yields s v = .ok elements ∧ elements.1 = L

/-- **One source holds a list**, at run time, and the others hold nothing. -/
structure Owned (P : Platform) (yields : (R : ι) → ρ R → Elements P α) (s : SourceStorage ρ)
    (owner : ℕ) (L : List α) : Prop where
  sound : s.buffers.Sound
  live : s.buffers.live owner ≠ none
  reads : Reads P yields s (s.buffers.content owner) L
  others : ∀ j, j ≠ owner → s.buffers.content j = none

theorem constructDefault_sat (hP : P.constantEvaluated = false) (i : ℕ) :
    Sat (constructDefault P i) (start : SourceStorage ρ) (fun _ s => Owned P yields s i [])
      fun _ _ => False := by
  rw [constructDefault, hP, if_neg Bool.false_ne_true, sat_onBuffers]
  refine (Anys.construct_sat Anys.sound_start rfl).mono ?_ fun _ _ h => h
  rintro - b ⟨h, hlive⟩
  have hnone : ∀ j, b.content j = none := by
    intro j
    rw [h.content_eq, Function.update_apply]
    split_ifs <;> rfl
  refine ⟨h.sound, hlive, ?_, fun j _ => hnone j⟩
  show Reads P yields _ (b.content i) []
  rw [hnone]
  rfl

/-- Once something has been put into the source that holds the list. -/
theorem owned_of_sets {s : SourceStorage ρ} {i : ℕ} {L L' : List α} (hs : Owned P yields s i L)
    {v : (T : HeldType ι) × Held ρ T} {s' : SourceStorage ρ}
    (h : Anys.Sets s.buffers i (some v) s'.buffers) (hv : Reads P yields s' (some v) L') :
    Owned P yields s' i L' := by
  have hcontent : s'.buffers.content i = some v := by
    rw [h.content_eq, Function.update_self]
  refine ⟨h.sound, fun hnone => ?_, hcontent ▸ hv, fun j hne => ?_⟩
  · cases (Anys.content_of_not_live hnone).symm.trans hcontent
  · rw [h.content_eq, Function.update_of_ne hne]
    exact hs.others j hne

variable [DecidableEq ι]

/-- **Storing a range**, in place or in a wrapper. -/
theorem storeRange_sat (hP : P.constantEvaluated = false) {s : SourceStorage ρ} {i : ℕ}
    {L : List α} (hs : Owned P yields s i L) (fits : Bool) (r : (R : ι) × ρ R) :
    Sat (storeRange P fits i (.ok r)) s
      (fun _ s' => Owned P yields s' i (yields r.1 r.2).1) fun _ _ => False := by
  rw [storeRange, hP, if_neg Bool.false_ne_true]
  cases fits with
  | true =>
    rw [if_pos rfl, sat_onBuffers]
    refine (Anys.emplace_sat hs.sound hs.live _).mono ?_ ?_
    · rintro - b ⟨v, hv, h⟩
      obtain rfl := Except.ok.inj hv
      exact owned_of_sets hs h ⟨_, rfl, rfl⟩
    · rintro e b ⟨x, hx, -, -⟩
      cases hx
  | false =>
    rw [if_neg Bool.false_ne_true]
    show Sat (emplaceWrapper i r) s _ _
    rw [emplaceWrapper, sat_bind, sat_get, sat_bind]
    show Sat (onBuffers _) { s with pointers := _, wrappers := _ } _ _
    rw [sat_onBuffers]
    refine (Anys.emplace_sat hs.sound hs.live _).mono ?_ ?_
    · rintro - b ⟨v, hv, h⟩
      obtain rfl := Except.ok.inj hv
      refine owned_of_sets hs h ⟨yields r.1 r.2, ?_, rfl⟩
      show visitWrapper yields _ ⟨some s.pointers.allocations⟩ = _
      unfold visitWrapper
      simp only [UniquePointer.get, Function.update_self]
      rfl
    · rintro e b ⟨x, hx, -, -⟩
      cases hx

/-- **However it is constructed, a source holds its list**, at run time. -/
theorem owned_construct (hP : P.constantEvaluated = false) {way : Way ρ} {L : List α}
    (hway : way.Lists yields L) (i : ℕ) :
    Sat (way.construct P i) start (fun _ s => Owned P yields s i L)
      fun _ _ => maxDynamicArraySize < L.length :=
  Way.construct_sat (constructDefault_sat hP i)
    (fun fits r _ hs => storeRange_sat hP hs fits r) hway

end Owned

/-! ### What a source holds -/

section Holds

variable [DecidableEq ι] {P : Platform} {yields : (R : ι) → ρ R → Elements P α}

/-- **A source holds a list**: the visitor is called on a range that yields the list, or on none,
and then the list is empty. -/
def Holds (P : Platform) (yields : (R : ι) → ρ R → Elements P α) (s : SourceStorage ρ) (i : ℕ)
    (L : List α) : Prop :=
  ∃ a, held yields i s = .ok a ∧ a.elements = L

/-- **At run time, a source holds what its `small_any` contains.** -/
theorem holds_of_reads (hP : P.constantEvaluated = false) {s : SourceStorage ρ}
    (hs : s.buffers.Sound) {i : ℕ} (hi : s.buffers.live i ≠ none) {L : List α}
    (h : Reads P yields s (s.buffers.content i) L) : Holds P yields s i L := by
  obtain ⟨v, b, hrun, rfl, rfl⟩ := (Anys.visit_sat hs hi).exists_ok fun _ _ h => h
  unfold Holds held
  rw [hP, if_neg Bool.false_ne_true, hrun]
  rcases hcontent : s.buffers.content i with _ | v
  · rw [hcontent] at h
    exact ⟨.nothing, rfl, h.symm⟩
  · rw [hcontent] at h
    obtain ⟨elements, hvisit, rfl⟩ := h
    refine ⟨.range elements.1 elements.2, ?_, rfl⟩
    show (visitHeld yields s v >>= _) = _
    rw [hvisit]
    rfl

/-- **At compile time, a source holds what its wrapper yields.** -/
theorem holds_of_wrapper (hP : P.constantEvaluated = true) {s : SourceStorage ρ} {i a : ℕ}
    {w : RangeWrapper ρ} (hi : s.pointers.live i = some ⟨some a⟩) (ha : s.wrappers a = some w) :
    Holds P yields s i (wrapped yields w).1 := by
  refine ⟨.range (wrapped yields w).1 (wrapped yields w).2, ?_, rfl⟩
  unfold held
  rw [hP, if_pos rfl, hi]
  show (visitWrapper yields s ⟨some a⟩ >>= _) = _
  have hvisit : visitWrapper yields s ⟨some a⟩ = .ok (wrapped yields w) := by
    unfold visitWrapper
    simp only [UniquePointer.get, ha]
    rfl
  rw [hvisit]
  rfl

/-- **One source holds a list**, at compile time: it has had a wrapper from the beginning. -/
structure OwnedByPointer (P : Platform) (yields : (R : ι) → ρ R → Elements P α)
    (s : SourceStorage ρ) (owner : ℕ) (L : List α) : Prop where
  holds : Holds P yields s owner L
  live : s.pointers.live owner ≠ none
  buffers_eq : s.buffers = .start

theorem ownedByPointer_constructDefault (hP : P.constantEvaluated = true) (i : ℕ) :
    Sat (constructDefault P i) (start : SourceStorage ρ)
      (fun _ s => OwnedByPointer P yields s i []) fun _ _ => False := by
  rw [constructDefault, hP, if_pos rfl]
  have hlive : Function.update (fun _ => none) i (some (UniquePointer.construct 0)) i = _ :=
    Function.update_self ..
  have hwrapper : Function.update (fun _ => none) 0 (some (RangeWrapper.emptyView (ρ := ρ))) 0 =
      some .emptyView := Function.update_self ..
  refine ⟨holds_of_wrapper hP (w := .emptyView) hlive hwrapper, fun hnone => ?_, rfl⟩
  cases hlive.symm.trans hnone

theorem ownedByPointer_storeRange (hP : P.constantEvaluated = true) {s : SourceStorage ρ} {i : ℕ}
    (hs : OwnedByPointer P yields s i []) (fits : Bool) (r : (R : ι) × ρ R) :
    Sat (storeRange P fits i (.ok r)) s
      (fun _ s' => OwnedByPointer P yields s' i (yields r.1 r.2).1) fun _ _ => False := by
  obtain ⟨p, hp⟩ := Option.ne_none_iff_exists'.mp hs.live
  have hreset : s.pointers.resetFresh i = some ((s.pointers.allocate.delete p).put i
      (some ⟨some s.pointers.allocations⟩)) := by
    rw [Pointers.resetFresh, hp]
  have hlive : ((s.pointers.allocate.delete p).put i (some ⟨some s.pointers.allocations⟩)).live i =
      some ⟨some s.pointers.allocations⟩ := Function.update_self ..
  rw [storeRange, hP, if_pos rfl]
  show Sat (setConstexprWrapper i r) s _ _
  unfold Sat setConstexprWrapper onPointers
  rw [hreset]
  refine ⟨holds_of_wrapper hP (w := .range r) hlive (Function.update_self ..), fun hnone => ?_,
    hs.buffers_eq⟩
  cases hlive.symm.trans hnone

/-- **However it is constructed, a source holds its list**, at compile time. -/
theorem ownedByPointer_construct (hP : P.constantEvaluated = true) {way : Way ρ} {L : List α}
    (hway : way.Lists yields L) (i : ℕ) :
    Sat (way.construct P i) start (fun _ s => OwnedByPointer P yields s i L)
      fun _ _ => maxDynamicArraySize < L.length :=
  Way.construct_sat (ownedByPointer_constructDefault hP i)
    (fun fits r _ hs => ownedByPointer_storeRange hP hs fits r) hway

/-- **A constructor returns** if the list is not too long and the range can be constructed. -/
theorem Way.exists_construct {way : Way ρ} {L : List α} (hway : way.Lists yields L)
    (hL : L.length ≤ maxDynamicArraySize) (i : ℕ) : ∃ s, way.construct P i start = .ok () s := by
  have hlong : ∀ (_ : Failure) (_ : SourceStorage ρ), ¬maxDynamicArraySize < L.length :=
    fun _ _ => not_lt.mpr hL
  rcases Bool.eq_false_or_eq_true P.constantEvaluated with hP | hP
  · obtain ⟨⟨⟩, s, hs, -⟩ := (ownedByPointer_construct hP hway i).exists_ok hlong
    exact ⟨s, hs⟩
  · obtain ⟨⟨⟩, s, hs, -⟩ := (owned_construct hP hway i).exists_ok hlong
    exact ⟨s, hs⟩

end Holds

/-! ### Moves -/

section Moves

variable {P : Platform} {yields : (R : ι) → ρ R → Elements P α}

/-- **What the move constructors of the contained objects do**: a range that has been moved yields
what it has yielded before, and a pointer is moved as it should be. -/
structure MovesRanges (yields : (R : ι) → ρ R → Elements P α)
    (move : (v : (T : HeldType ι) × Held ρ T) → Except Exn (Held ρ v.1 × Held ρ v.1)) : Prop where
  range : ∀ (R : ι) (r new left : ρ R), move ⟨.range R, r⟩ = .ok (new, left) →
    yields R new = yields R r
  wrapper : ∀ p : UniquePointer, move ⟨.wrapper, p⟩ = .ok p.moveConstruct

/-- A wrapper is where it was. -/
theorem visitWrapper_congr {s s' : SourceStorage ρ} (hw : s'.wrappers = s.wrappers)
    (p : UniquePointer) : visitWrapper yields s' p = visitWrapper yields s p := by
  unfold visitWrapper
  rw [hw]

/-- What is read does not depend on which `small_any` it is in. -/
theorem reads_moved {s s' : SourceStorage ρ} (hw : s'.wrappers = s.wrappers)
    {move : (v : (T : HeldType ι) × Held ρ T) → Except Exn (Held ρ v.1 × Held ρ v.1)}
    (hmove : MovesRanges yields move) {v : (T : HeldType ι) × Held ρ T}
    {m : Held ρ v.1 × Held ρ v.1} (hm : move v = .ok m) {L : List α}
    (h : Reads P yields s (some v) L) : Reads P yields s' (some ⟨v.1, m.1⟩) L := by
  obtain ⟨elements, hvisit, rfl⟩ := h
  refine ⟨elements, ?_, rfl⟩
  rcases v with ⟨R | -, r⟩
  · have hyields := hmove.range R r m.1 m.2 hm
    show pure (yields R m.1) = _
    rw [hyields]
    exact hvisit
  · obtain rfl := Except.ok.inj ((hmove.wrapper r).symm.trans hm)
    show visitWrapper yields s' r = _
    exact (visitWrapper_congr hw r).trans hvisit

/-- What is read does not depend on the other sources. -/
theorem reads_congr {s s' : SourceStorage ρ} (hw : s'.wrappers = s.wrappers)
    {v : Option ((T : HeldType ι) × Held ρ T)} {L : List α} (h : Reads P yields s v L) :
    Reads P yields s' v L := by
  rcases v with _ | ⟨R | -, r⟩
  · exact h
  · exact h
  · obtain ⟨elements, hvisit, rfl⟩ := h
    refine ⟨elements, ?_, rfl⟩
    show visitWrapper yields s' r = _
    exact (visitWrapper_congr hw r).trans hvisit

variable [DecidableEq ι]

/-- **A sequence of moves**, with the source that owns the list: a move of the owner that returns
makes the new source the owner, and one that throws changes nothing. -/
inductive MoveRun (P : Platform) (yields : (R : ι) → ρ R → Elements P α) (s : SourceStorage ρ)
    (first : ℕ) : SourceStorage ρ → (owner : ℕ) → Prop
  | start : MoveRun P yields s first s first
  | returns {s' s'' : SourceStorage ρ} {owner target source : ℕ}
      {move : (v : (T : HeldType ι) × Held ρ T) → Except Exn (Held ρ v.1 × Held ρ v.1)}
      (h : MoveRun P yields s first s' owner) (hmove : MovesRanges yields move)
      (htarget : s'.buffers.live target = none) (hsource : s'.buffers.live source ≠ none)
      (hrun : moveConstruct P target source move s' = .ok () s'') :
      MoveRun P yields s first s'' (if source = owner then target else owner)
  | throws {s' s'' : SourceStorage ρ} {owner target source : ℕ} {e : Failure}
      {move : (v : (T : HeldType ι) × Held ρ T) → Except Exn (Held ρ v.1 × Held ρ v.1)}
      (h : MoveRun P yields s first s' owner) (hmove : MovesRanges yields move)
      (htarget : s'.buffers.live target = none) (hsource : s'.buffers.live source ≠ none)
      (hrun : moveConstruct P target source move s' = .error e s'') :
      MoveRun P yields s first s'' owner

/-- **A move keeps the list with its owner.** -/
theorem moveConstruct_sat {s : SourceStorage ρ} {owner target source : ℕ} {L : List α}
    (hP : P.constantEvaluated = false) (hs : Owned P yields s owner L)
    {move : (v : (T : HeldType ι) × Held ρ T) → Except Exn (Held ρ v.1 × Held ρ v.1)}
    (hmove : MovesRanges yields move) (htarget : s.buffers.live target = none)
    (hsource : s.buffers.live source ≠ none) :
    Sat (moveConstruct P target source move) s
      (fun _ s' => Owned P yields s' (if source = owner then target else owner) L)
      fun _ s' => s' = s := by
  rw [moveConstruct, hP, if_neg Bool.false_ne_true, sat_onBuffers]
  refine (Anys.moveConstruct_sat hs.sound htarget hsource move).mono ?_ ?_
  · rintro - b ⟨w, h, hw⟩
    show Owned P yields { s with buffers := b } _ L
    have hcontent : ∀ j, b.content j =
        if j = target then w else if j = source then none else s.buffers.content j := by
      intro j
      rw [h.content_eq, Function.update_apply, Function.update_apply]
    have hread := hs.reads
    split_ifs with howner
    · subst howner
      refine ⟨h.sound, h.target_live, ?_, fun j hne => ?_⟩
      · show Reads P yields _ (b.content target) L
        rw [hcontent, if_pos rfl]
        rcases hw with ⟨hnone, rfl⟩ | ⟨v, m, hv, hm, rfl⟩
        · rw [hnone] at hread
          exact hread
        · rw [hv] at hread
          exact reads_moved rfl hmove hm hread
      · show b.content j = none
        rw [hcontent, if_neg hne]
        split_ifs with hj
        · rfl
        · exact hs.others j hj
    · -- the source holds nothing, and neither does the target then
      have hnone := hs.others source howner
      obtain rfl : w = none := by
        rcases hw with ⟨-, rfl⟩ | ⟨v, m, hv, -⟩
        · rfl
        · cases hnone.symm.trans hv
      have htarget_ne : owner ≠ target := by
        rintro rfl
        exact hs.live htarget
      refine ⟨h.sound, ?_, ?_, fun j hne => ?_⟩
      · show b.live owner ≠ none
        rw [h.live_of_ne owner htarget_ne (Ne.symm howner)]
        exact hs.live
      · show Reads P yields _ (b.content owner) L
        rw [hcontent, if_neg htarget_ne, if_neg (Ne.symm howner)]
        exact reads_congr rfl hread
      · show b.content j = none
        rw [hcontent]
        split_ifs
        · rfl
        · rfl
        · exact hs.others j hne
  · rintro e b ⟨rfl, -⟩
    rfl

/-- **The list stays with its owner** over any sequence of moves. -/
theorem MoveRun.stays_owned {s s' : SourceStorage ρ} {i owner : ℕ} {L : List α}
    (hP : P.constantEvaluated = false) (hs : Owned P yields s i L)
    (h : MoveRun P yields s i s' owner) : Owned P yields s' owner L := by
  induction h with
  | start => exact hs
  | returns _ hmove htarget hsource hrun ih =>
    exact (moveConstruct_sat hP ih hmove htarget hsource).ok hrun
  | throws _ hmove htarget hsource hrun ih =>
    obtain rfl := (moveConstruct_sat hP ih hmove htarget hsource).error hrun
    exact ih

/-- At compile time nothing can be moved. -/
theorem MoveRun.eq_start {s s' : SourceStorage ρ} {i owner : ℕ} (hs : s.buffers = .start)
    (h : MoveRun P yields s i s' owner) : s' = s ∧ owner = i := by
  induction h with
  | start => exact ⟨rfl, rfl⟩
  | returns _ _ _ hsource _ ih =>
    rw [ih.1, hs] at hsource
    exact absurd rfl hsource
  | throws _ _ _ hsource _ ih =>
    rw [ih.1, hs] at hsource
    exact absurd rfl hsource

end Moves

end SourceStorage

/-! ### Serialising what a source holds -/

section Serialise

variable {P : Platform} {B : Type} [SerialiseBuffer B] {I : B → Prop} {limit : ℕ}
  {throws : Exn → Prop}

/-- **Two sources of one value** leave the same bytes. -/
theorem serialise_same_bytes (hB : LawfulBuffer P B I limit throws) {t : Ty}
    (ht : t.wellFormed = true) {v₁ v₂ : t.Source P} (hv : t.value v₁ = t.value v₂) {b b₁ b₂ : B}
    {pos : ℕ} (hI : I b) (hpos : pos + t.size ≤ (bytes b).length)
    (hlim : (bytes b).length + variableSize t (t.value v₂) < limit)
    (h₁ : serialise P t v₁ pos b = .ok () b₁) (h₂ : serialise P t v₂ pos b = .ok () b₂) :
    bytes b₁ = bytes b₂ := by
  obtain ⟨-, hb₁, -⟩ := (serialise_sat hB ht v₁ hI hpos (by rwa [hv])).ok h₁
  obtain ⟨-, hb₂, -⟩ := (serialise_sat hB ht v₂ hI hpos hlim).ok h₂
  rw [hb₁, hb₂, hv]

/-- And on a buffer that never fails, both are serialised or neither is. -/
theorem serialise_returns_of_returns (hB : LawfulBuffer P B I limit fun _ => False) {t : Ty}
    (ht : t.wellFormed = true) {v₁ v₂ : t.Source P} (hv : t.value v₁ = t.value v₂) {b : B}
    {pos : ℕ} (hI : I b) (hpos : pos + t.size ≤ (bytes b).length)
    (hlim : (bytes b).length + variableSize t (t.value v₂) < limit)
    (h : ∃ b₁, serialise P t v₁ pos b = .ok () b₁) :
    ∃ b₂, serialise P t v₂ pos b = .ok () b₂ := by
  obtain ⟨b₁, hrun⟩ := h
  obtain ⟨-, -, hmarks⟩ := (serialise_sat hB ht v₁ hI hpos (by rwa [hv])).ok hrun
  exact serialise_ok hB ht v₂ hI hpos hlim (hv ▸ hmarks)

/-- `serialise`, of a source of a dynamic array that holds what it holds. -/
def serialiseHeld (P : Platform) (t : Ty) (held : Except Failure (ArraySource P (t.Source P)))
    (pos : ℕ) : EStateM Failure B Unit := fun b =>
  match held with
  | .ok source => serialise P (.dynamicArray t) source pos b
  | .error e => .error e b

/-- **A source is serialised as a list is**: on every buffer that honours the contract, either both
return and leave the same bytes, or – if the buffer itself never fails – neither returns. -/
structure SerialisesAs (P : Platform) (t : Ty) (held : Except Failure (ArraySource P (t.Source P)))
    (L : List (t.Source P)) : Prop where
  elements_eq : ∃ source, held = .ok source ∧ source.elements = L
  bytes_eq : ∀ {B : Type} [SerialiseBuffer B] {I : B → Prop} {limit : ℕ} {throws : Exn → Prop},
    LawfulBuffer P B I limit throws → ∀ (h : L.length < P.sizeRange) (b b₁ b₂ : B) (pos : ℕ),
      I b → pos + 8 ≤ (bytes b).length →
        (bytes b).length + variableSize (.dynamicArray t) (L.map t.value) < limit →
          serialiseHeld P t held pos b = .ok () b₁ →
            serialise P (.dynamicArray t) (ArraySource.range L h) pos b = .ok () b₂ →
              bytes b₁ = bytes b₂
  returns_iff : ∀ {B : Type} [SerialiseBuffer B] {I : B → Prop} {limit : ℕ},
    LawfulBuffer P B I limit (fun _ => False) → ∀ (h : L.length < P.sizeRange) (b : B) (pos : ℕ),
      I b → pos + 8 ≤ (bytes b).length →
        (bytes b).length + variableSize (.dynamicArray t) (L.map t.value) < limit →
          ((∃ b₁, serialiseHeld P t held pos b = .ok () b₁) ↔
            ∃ b₂, serialise P (.dynamicArray t) (ArraySource.range L h) pos b = .ok () b₂)

/-- **A source that holds a list is serialised as the list is.** -/
theorem serialisesAs_of_elements {t : Ty} (ht : t.wellFormed = true)
    {held : Except Failure (ArraySource P (t.Source P))} {L : List (t.Source P)}
    (h : ∃ source, held = .ok source ∧ source.elements = L) : SerialisesAs P t held L := by
  obtain ⟨source, rfl, rfl⟩ := h
  have hwf : (Ty.dynamicArray t).wellFormed = true := ht
  have hvalue : ∀ hlen, (Ty.dynamicArray t).value source =
      (Ty.dynamicArray t).value (ArraySource.range source.elements hlen) := fun _ => rfl
  refine ⟨⟨source, rfl, rfl⟩, ?_, ?_⟩
  · intro B _ I limit throws hB hlen b b₁ b₂ pos hI hpos hlim h₁ h₂
    exact serialise_same_bytes hB hwf (hvalue hlen) hI hpos hlim h₁ h₂
  · intro B _ I limit hB hlen b pos hI hpos hlim
    constructor
    · exact serialise_returns_of_returns hB hwf (hvalue hlen) hI hpos hlim
    · exact serialise_returns_of_returns hB hwf (hvalue hlen).symm hI hpos hlim

end Serialise

/-! ### The storage is invisible -/

section Invisible

open SourceStorage

variable [DecidableEq ι] {P : Platform} {t : Ty} {yields : (R : ι) → ρ R → Elements P (t.Source P)}

/-- **How a source holds its list cannot be seen.** A source is constructed from a list, in any of
the ways there are, and then moved any number of times, where any of the moves may throw: its owner
is serialised as the list is, and every other source as an empty array. -/
theorem storage_invisible (ht : t.wellFormed = true) {way : Way ρ} {L : List (t.Source P)}
    (hway : way.Lists yields L) {i : ℕ} {s : SourceStorage ρ}
    (hnew : way.construct P i start = .ok () s) {s' : SourceStorage ρ} {owner : ℕ}
    (hmoves : MoveRun P yields s i s' owner) :
    SerialisesAs P t (held yields owner s') L ∧
      ∀ j, j ≠ owner → s'.buffers.live j ≠ none → SerialisesAs P t (held yields j s') [] := by
  rcases Bool.eq_false_or_eq_true P.constantEvaluated with hP | hP
  · have hs := (ownedByPointer_construct hP hway i).ok hnew
    obtain ⟨rfl, rfl⟩ := hmoves.eq_start hs.buffers_eq
    refine ⟨serialisesAs_of_elements ht hs.holds, fun j _ hj => ?_⟩
    rw [hs.buffers_eq] at hj
    exact absurd rfl hj
  · have hs := hmoves.stays_owned hP ((owned_construct hP hway i).ok hnew)
    refine ⟨serialisesAs_of_elements ht (holds_of_reads hP hs.sound hs.live hs.reads),
      fun j hne hj => ?_⟩
    refine serialisesAs_of_elements ht (holds_of_reads hP hs.sound hj ?_)
    rw [hs.others j hne]
    rfl

/-- A move that copies a range, or throws. -/
def copyOrThrow (throws : Bool) :
    (v : (T : HeldType ι) × Held ρ T) → Except Exn (Held ρ v.1 × Held ρ v.1)
  | ⟨.range _, r⟩ => if throws then .error .badAlloc else .ok (r, r)
  | ⟨.wrapper, p⟩ => .ok (UniquePointer.moveConstruct p)

omit [DecidableEq ι] in
theorem movesRanges_copyOrThrow (throws : Bool) : MovesRanges yields (copyOrThrow throws) where
  range R r new left h := by
    cases throws with
    | true => cases h
    | false =>
      obtain ⟨rfl, -⟩ := Prod.mk.inj (Except.ok.inj h)
      rfl
  wrapper _ := rfl

/-- An array in place is moved after a move that has thrown. -/
theorem storage_invisible_moved :
    let t : Ty := .unsigned 1
    let L : Elements .x64 (t.Source .x64) := ⟨[(7 : Fin (256 ^ 1))], by decide⟩
    let yields : Unit → Elements .x64 (t.Source .x64) → Elements .x64 (t.Source .x64) :=
      fun _ r => r
    ∃ s : SourceStorage fun _ : Unit => Elements .x64 (t.Source .x64),
      s.buffers.live 0 ≠ none ∧ SerialisesAs .x64 t (held yields 1 s) L.1 ∧
        SerialisesAs .x64 t (held yields 0 s) [] := by
  intro t L yields
  let way : Way fun _ : Unit => Elements .x64 (t.Source .x64) := .braced true 1 ⟨(), L⟩
  let s₁ : SourceStorage fun _ : Unit => Elements .x64 (t.Source .x64) := { start with
    buffers := (Anys.create ⟨.range (), L⟩ (Anys.put 0 (some ⟨none, none⟩) .start)).put 0
      (some ⟨some 0, some (.range ())⟩) }
  have hway : way.Lists yields L.1 := ⟨rfl, rfl⟩
  have hnew : way.construct .x64 0 start = .ok () s₁ := rfl
  have hthrows : moveConstruct .x64 1 0 (copyOrThrow true) s₁ = .error (.thrown .badAlloc) s₁ := rfl
  have hreturns : moveConstruct .x64 1 0 (copyOrThrow false) s₁ = .ok () _ := rfl
  have hlive : s₁.buffers.live 0 ≠ none := Option.some_ne_none _
  have hstart : MoveRun .x64 yields s₁ 0 s₁ 0 := .start
  have hmoves := (hstart.throws (movesRanges_copyOrThrow true) rfl hlive hthrows).returns
    (movesRanges_copyOrThrow false) rfl hlive hreturns
  obtain ⟨howner, hothers⟩ := storage_invisible (by decide) hway hnew hmoves
  refine ⟨_, ?_, howner, hothers 0 (by decide) ?_⟩
  · exact Option.some_ne_none _
  · exact Option.some_ne_none _

end Invisible

end SerialisePP
