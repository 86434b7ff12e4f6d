import Mathlib.Logic.Relation
import SerialisePP.Lib.Effect
import SerialisePP.Lib.Ownership
import SerialisePP.Platform

/-!
# `small_any`

A value of any type in place, with nothing but a function pointer to tell what it is: the pointer is
null if there is no value, and otherwise points to the instance of `_generic_visitor_func` for the
type of the value, which destroys it, moves it or shows it to a visitor.

The objects that are constructed in the storage of the `small_any` objects of a program are
numbered, and every use of one is checked: it has to be alive and to have the type that the pointer
stands for, or else the behaviour is undefined. In every state that can be reached it is
(`SerialisePP.Anys.Reachable.lifetimes`), and no object is destroyed twice. Each is destroyed in the
end, once, with one exception: what is left of an object that has been moved from is not.
-/

namespace SerialisePP

open Effect Ownership

/-- **`small_any`.** -/
structure SmallAny (κ : Type) where
  /-- The object that has been constructed in `_data` last. -/
  data : Option ℕ
  /-- `_visitor_func`: null, or the instance of `_generic_visitor_func` for a type. -/
  visitorFunc : Option κ

/-- The object that a `small_any` contains. -/
def SmallAny.content {κ : Type} (x : SmallAny κ) : Option ℕ :=
  match x.visitorFunc with
  | none => none
  | some _ => x.data

/-- **The `small_any` objects of a program**, and the objects constructed in them. The objects of a
type `T` have values in `V T`. -/
structure Anys {κ : Type} (V : κ → Type) where
  /-- The `small_any` at an address, while it is alive. -/
  live : ℕ → Option (SmallAny κ)
  /-- How many objects have been constructed. -/
  constructed : ℕ
  /-- The type and the value of an object. -/
  value : ℕ → Option ((T : κ) × V T)
  /-- How often an object has been destroyed. -/
  destroyed : ℕ → ℕ
  /-- Whether an object has been moved from. -/
  movedFrom : ℕ → Bool

namespace Anys

variable {κ : Type} {V : κ → Type}

/-- Before the first `small_any`. -/
def start : Anys V := ⟨fun _ => none, 0, fun _ => none, fun _ => 0, fun _ => false⟩

/-- The `small_any` at an address begins, changes or ends its life. -/
def put (i : ℕ) (x : Option (SmallAny κ)) (s : Anys V) : Anys V :=
  { s with live := Function.update s.live i x }

/-- An object is constructed. -/
def create (v : (T : κ) × V T) (s : Anys V) : Anys V :=
  { s with
    constructed := s.constructed + 1
    value := Function.update s.value s.constructed (some v) }

/-- An object is destroyed. -/
def countDestroyed (o : ℕ) (s : Anys V) : Anys V :=
  { s with destroyed := Function.update s.destroyed o (s.destroyed o + 1) }

/-- An object is moved from, which leaves another value in it. -/
def leave (o : ℕ) (left : (T : κ) × V T) (s : Anys V) : Anys V :=
  { s with
    value := Function.update s.value o (some left)
    movedFrom := Function.update s.movedFrom o true }

section Members

variable [DecidableEq κ]

/-- What `_generic_visitor_func<T>` works on: a live object of type `T`. -/
def objectIn (data : Option ℕ) (T : κ) (s : Anys V) : Option (ℕ × (T : κ) × V T) :=
  match data with
  | none => none
  | some o =>
    match s.value o with
    | none => none
    | some v => if v.1 = T ∧ s.destroyed o = 0 then some (o, v) else none

/-! ### The member functions -/

/-- The default constructor. -/
def construct (i : ℕ) : EStateM Failure (Anys V) Unit := fun s =>
  match s.live i with
  | none => .ok () (s.put i (some ⟨none, none⟩))
  | some _ => .error .undefined s

/-- `_destruct()`. -/
def destruct (i : ℕ) : EStateM Failure (Anys V) Unit := fun s =>
  match s.live i with
  | none => .error .undefined s
  | some this =>
    match this.visitorFunc with
    | none => .ok () s
    | some T =>
      match s.objectIn this.data T with
      | none => .error .undefined s
      | some (o, _) => .ok () ((s.countDestroyed o).put i (some { this with visitorFunc := none }))

/-- `emplace`, with arguments or with a function: the constructor of the object may throw. -/
def emplace (i : ℕ) (constructor : Except Exn ((T : κ) × V T)) :
    EStateM Failure (Anys V) Unit := do
  destruct i
  match constructor with
  | .error e => throw (.thrown e)
  | .ok v => modify fun s => (s.create v).put i (some ⟨some s.constructed, some v.1⟩)

/-- The move constructor. That of the contained object may throw; otherwise it returns the value of
the new object and what it has left in the old one. -/
def moveConstruct (target source : ℕ)
    (move : (v : (T : κ) × V T) → Except Exn (V v.1 × V v.1)) : EStateM Failure (Anys V) Unit :=
  fun s =>
    match s.live target, s.live source with
    | none, some other =>
      match other.visitorFunc with
      | none => .ok () (s.put target (some ⟨none, none⟩))
      | some T =>
        match s.objectIn other.data T with
        | none => .error .undefined s
        | some (o, v) =>
          match move v with
          | .error e => .error (.thrown e) s
          | .ok (new, left) =>
            .ok () ((((s.create ⟨v.1, new⟩).leave o ⟨v.1, left⟩).put target
              (some ⟨some s.constructed, some T⟩)).put source
                (some { other with visitorFunc := none }))
    | _, _ => .error .undefined s

/-- `visit`: what the visitor is called on, if it is called. -/
def visit (i : ℕ) : EStateM Failure (Anys V) (Option ((T : κ) × V T)) := fun s =>
  match s.live i with
  | none => .error .undefined s
  | some this =>
    match this.visitorFunc with
    | none => .ok none s
    | some T =>
      match s.objectIn this.data T with
      | none => .error .undefined s
      | some (_, v) => .ok (some v) s

/-- The destructor. -/
def destroy (i : ℕ) : EStateM Failure (Anys V) Unit := do
  destruct i
  modify (put i none)

/-- **What can be done** with the `small_any` objects of a program. -/
inductive Op (V : κ → Type)
  | construct (i : ℕ)
  | emplace (i : ℕ) (constructor : Except Exn ((T : κ) × V T))
  | moveConstruct (target source : ℕ) (move : (v : (T : κ) × V T) → Except Exn (V v.1 × V v.1))
  | visit (i : ℕ)
  | destroy (i : ℕ)

/-- An operation. -/
def run : Op V → EStateM Failure (Anys V) Unit
  | .construct i => construct i
  | .emplace i constructor => emplace i constructor
  | .moveConstruct target source move => moveConstruct target source move
  | .visit i => do let _ ← visit i
  | .destroy i => destroy i

/-- **The operation can be called**: the `small_any` it is about is alive, and there is none yet
where it constructs one. -/
def Possible (s : Anys V) : Op V → Prop
  | .construct i => s.live i = none
  | .emplace i _ => s.live i ≠ none
  | .moveConstruct target source _ => s.live target = none ∧ s.live source ≠ none
  | .visit i => s.live i ≠ none
  | .destroy i => s.live i ≠ none

/-- **What can be reached**: every operation may return or throw. -/
def Reachable (s : Anys V) : Prop :=
  Relation.ReflTransGen (fun s s' => ∃ op, s.Possible op ∧ Ends (run op) s s') start s

theorem Reachable.next {s s' : Anys V} (h : s.Reachable) (op : Op V) (hop : s.Possible op)
    (hends : Ends (run op) s s') : s'.Reachable := h.tail ⟨op, hop, hends⟩

end Members

/-! ### The ledger -/

/-- **Which `small_any` contains which object.** An object that has been moved from is not contained
in any. -/
def ledger (s : Anys V) : Ledger ℕ where
  held i := (s.live i).bind SmallAny.content
  created := s.constructed
  released := s.destroyed
  abandoned := s.movedFrom

theorem held_of_live {s : Anys V} {i : ℕ} {x : SmallAny κ} (h : s.live i = some x) :
    s.ledger.held i = x.content := by
  show (s.live i).bind _ = _
  rw [h]
  rfl

theorem held_of_not_live {s : Anys V} {i : ℕ} (h : s.live i = none) :
    s.ledger.held i = none := by
  show (s.live i).bind _ = _
  rw [h]
  rfl

theorem held_of_null {s : Anys V} {i : ℕ} {x : SmallAny κ} (hi : s.live i = some x)
    (hT : x.visitorFunc = none) : s.ledger.held i = none := by
  rw [held_of_live hi, SmallAny.content, hT]

theorem held_of_visitorFunc {s : Anys V} {i o : ℕ} {x : SmallAny κ} {T : κ}
    (hi : s.live i = some x) (hT : x.visitorFunc = some T) (hdata : x.data = some o) :
    s.ledger.held i = some o := by
  rw [held_of_live hi, SmallAny.content, hT, hdata]

@[simp] theorem held_put (s : Anys V) (i j : ℕ) (x : Option (SmallAny κ)) :
    (s.put i x).ledger.held j = if j = i then x.bind SmallAny.content else s.ledger.held j := by
  show (Function.update s.live i x j).bind _ = _
  rw [Function.update_apply]
  split_ifs <;> rfl

/-- What a `small_any` contains, by its value. -/
def content (s : Anys V) (i : ℕ) : Option ((T : κ) × V T) := (s.ledger.held i).bind s.value

/-- A null function pointer: nothing is contained. -/
theorem content_of_null {x : Option (SmallAny κ)} (h : x.bind SmallAny.visitorFunc = none) :
    x.bind SmallAny.content = none := by
  rcases x with _ | ⟨data, _ | T⟩
  · rfl
  · rfl
  · cases h

theorem content_of_held_none {s : Anys V} {i : ℕ} (h : s.ledger.held i = none) :
    s.content i = none := by
  rw [content, h]
  rfl

theorem content_of_held_some {s : Anys V} {i o : ℕ} (h : s.ledger.held i = some o) :
    s.content i = s.value o := by
  rw [content, h]
  rfl

theorem content_of_not_live {s : Anys V} {i : ℕ} (h : s.live i = none) : s.content i = none :=
  content_of_held_none (held_of_not_live h)

/-- A `small_any` that has not been touched contains what it did, if that has not either. -/
theorem content_congr {s s' : Anys V} {i : ℕ} (hheld : s'.ledger.held i = s.ledger.held i)
    (hvalue : ∀ o, s.ledger.held i = some o → s'.value o = s.value o) :
    s'.content i = s.content i := by
  rw [content, content, hheld]
  rcases hi : s.ledger.held i with _ | o
  · rfl
  · exact hvalue o hi

/-- **Every function pointer is right**: it stands for the type of the object in the storage. And
the books are balanced. -/
structure Sound (s : Anys V) : Prop where
  balanced : s.ledger.Balanced
  typed : ∀ (i : ℕ) (x : SmallAny κ) (T : κ), s.live i = some x → x.visitorFunc = some T →
    ∃ o v, x.data = some o ∧ s.value o = some ⟨T, v⟩

theorem sound_start : (start : Anys V).Sound where
  balanced := Ledger.balanced_start
  typed _ _ _ h _ := by cases h

/-- The function pointer of a `small_any` that has not been touched is still right. -/
theorem Sound.typed_congr {s s' : Anys V} (hs : s.Sound) {i : ℕ} (hlive : s'.live i = s.live i)
    (hvalue : ∀ o, s.ledger.held i = some o → s'.value o = s.value o) {x : SmallAny κ} {T : κ}
    (hi : s'.live i = some x) (hT : x.visitorFunc = some T) :
    ∃ o v, x.data = some o ∧ s'.value o = some ⟨T, v⟩ := by
  have hold : s.live i = some x := hlive.symm.trans hi
  obtain ⟨o, v, hdata, hv⟩ := hs.typed i x T hold hT
  exact ⟨o, v, hdata, (hvalue o (held_of_visitorFunc hold hT hdata)).trans hv⟩

/-- **The function pointer works on a live object** of its type. -/
theorem Sound.objectIn_eq [DecidableEq κ] {s : Anys V} (hs : s.Sound) {i : ℕ} {x : SmallAny κ}
    {T : κ} (hi : s.live i = some x) (hT : x.visitorFunc = some T) :
    ∃ o v, s.ledger.held i = some o ∧ s.value o = some ⟨T, v⟩ ∧
      s.objectIn x.data T = some (o, ⟨T, v⟩) := by
  obtain ⟨o, v, hdata, hv⟩ := hs.typed i x T hi hT
  have hheld : s.ledger.held i = some o := held_of_visitorFunc hi hT hdata
  refine ⟨o, v, hheld, hv, ?_⟩
  have hzero : s.destroyed o = 0 := (hs.balanced.held_open hheld).1
  unfold objectIn
  simp only [hdata, hv, hzero, and_self, if_true]

/-! ### What the operations do -/

/-- **What one `small_any` contains has changed**, and nothing else. -/
structure Sets (s : Anys V) (i : ℕ) (v : Option ((T : κ) × V T)) (s' : Anys V) : Prop where
  sound : s'.Sound
  content_eq : s'.content = Function.update s.content i v
  live_of_ne : ∀ j, j ≠ i → s'.live j = s.live j

theorem put_create (s : Anys V) (i : ℕ) (x : Option (SmallAny κ)) (v : (T : κ) × V T) :
    (s.put i x).create v = (s.create v).put i x := rfl

theorem put_comm {i j : ℕ} (hne : i ≠ j) (x y : Option (SmallAny κ)) (s : Anys V) :
    (s.put j y).put i x = (s.put i x).put j y :=
  congrArg (fun live => { s with live := live }) (Function.update_comm hne x y s.live).symm

theorem create_leave {s : Anys V} {o : ℕ} (hne : o ≠ s.constructed) (v w : (T : κ) × V T) :
    (s.create v).leave o w = (s.leave o w).create v :=
  congrArg (fun value => { (s.leave o w).create v with value := value })
    (Function.update_comm hne.symm (some v) (some w) s.value)

/-- A `small_any` is left with nothing, whatever becomes of what it contained. -/
theorem sets_none {s s' : Anys V} {i : ℕ} (hs : s.Sound) {x : Option (SmallAny κ)}
    (hx : x.bind SmallAny.visitorFunc = none) (hlive : s'.live = Function.update s.live i x)
    (hbalanced : s'.ledger.Balanced)
    (hvalue : ∀ o, s.ledger.held i ≠ some o → s'.value o = s.value o) : Sets s i none s' := by
  have hheld : s'.ledger.held = Function.update s.ledger.held i none := by
    funext j
    show (s'.live j).bind SmallAny.content = _
    rw [hlive, Function.update_apply, Function.update_apply]
    split_ifs
    · exact content_of_null hx
    · rfl
  -- what the others contain is not what this one did
  have hother : ∀ j, j ≠ i → ∀ o, s.ledger.held j = some o → s'.value o = s.value o :=
    fun j hne o hj => hvalue o fun hi => hne (hs.balanced.unique hj hi)
  have hlive_of_ne : ∀ j, j ≠ i → s'.live j = s.live j := by
    intro j hne
    rw [hlive]
    exact Function.update_of_ne hne ..
  refine ⟨⟨hbalanced, fun j y T hj hT => ?_⟩, funext fun j => ?_, hlive_of_ne⟩
  · rcases eq_or_ne j i with rfl | hne
    · rw [hlive] at hj
      have hxy : x = some y := (Function.update_self j x s.live).symm.trans hj
      rw [hxy] at hx
      cases hT.symm.trans hx
    · exact hs.typed_congr (hlive_of_ne j hne) (hother j hne) hj hT
  · rcases eq_or_ne j i with rfl | hne
    · rw [Function.update_self]
      refine content_of_held_none ?_
      rw [hheld, Function.update_self]
    · rw [Function.update_of_ne hne]
      refine content_congr ?_ (hother j hne)
      rw [hheld, Function.update_of_ne hne]

section Operations

variable {s : Anys V} {i : ℕ} {x : SmallAny κ}

/-- A `small_any` that contains nothing comes or goes. -/
theorem sets_put (hs : s.Sound) (hi : s.ledger.held i = none) {x : Option (SmallAny κ)}
    (hx : x.bind SmallAny.visitorFunc = none) : Sets s i none (s.put i x) := by
  refine sets_none hs hx rfl ?_ fun _ _ => rfl
  have hledger : (s.put i x).ledger = s.ledger := by
    refine Ledger.ext (funext fun j => ?_) rfl rfl rfl
    rw [held_put, content_of_null hx]
    split_ifs with hj
    · rw [hj, hi]
    · rfl
  exact hledger ▸ hs.balanced

/-- What a `small_any` contains is destroyed. -/
theorem sets_destroyed (hs : s.Sound) {o : ℕ} (hheld : s.ledger.held i = some o) (data : Option ℕ) :
    Sets s i none ((s.countDestroyed o).put i (some ⟨data, none⟩)) := by
  refine sets_none hs rfl rfl ?_ fun _ _ => rfl
  have hledger : ((s.countDestroyed o).put i (some ⟨data, none⟩)).ledger = s.ledger.release i := by
    rw [Ledger.release_of_some hheld]
    refine Ledger.ext (funext fun j => ?_) rfl rfl rfl
    simp only [held_put, Function.update_apply]
    rfl
  exact hledger ▸ hs.balanced.release i

/-- What a `small_any` contains is moved from. -/
theorem sets_left (hs : s.Sound) {o : ℕ} (hheld : s.ledger.held i = some o)
    (left : (T : κ) × V T) (data : Option ℕ) :
    Sets s i none ((s.leave o left).put i (some ⟨data, none⟩)) := by
  refine sets_none hs rfl rfl ?_ fun q hq => ?_
  · have hledger : ((s.leave o left).put i (some ⟨data, none⟩)).ledger = s.ledger.abandon i := by
      rw [Ledger.abandon_of_some hheld]
      refine Ledger.ext (funext fun j => ?_) rfl rfl rfl
      simp only [held_put, Function.update_apply]
      rfl
    exact hledger ▸ hs.balanced.abandon i
  · have hne : q ≠ o := by
      rintro rfl
      exact hq hheld
    exact Function.update_of_ne hne ..

/-- An object is constructed in a `small_any` that contains nothing. -/
theorem sets_created (hs : s.Sound) (hi : s.ledger.held i = none) (v : (T : κ) × V T) :
    Sets s i (some v) ((s.create v).put i (some ⟨some s.constructed, some v.1⟩)) := by
  have hledger : ((s.create v).put i (some ⟨some s.constructed, some v.1⟩)).ledger =
      s.ledger.acquire i := by
    refine Ledger.ext (funext fun j => ?_) rfl rfl rfl
    simp only [held_put, Ledger.acquire, Function.update_apply]
    rfl
  -- the objects there were before are still what they were
  have hold : ∀ j o, s.ledger.held j = some o →
      ((s.create v).put i (some ⟨some s.constructed, some v.1⟩)).value o = s.value o :=
    fun j o hj => Function.update_of_ne (hs.balanced.held_lt hj).ne ..
  refine ⟨⟨hledger ▸ hs.balanced.acquire hi, fun j y T hj hT => ?_⟩, funext fun j => ?_,
    fun j hne => Function.update_of_ne hne ..⟩
  · rcases eq_or_ne j i with rfl | hne
    · obtain rfl := Option.some.inj ((Function.update_self j _ s.live).symm.trans hj)
      obtain rfl := Option.some.inj hT
      exact ⟨_, v.2, rfl, Function.update_self ..⟩
    · exact hs.typed_congr (Function.update_of_ne hne ..) (hold j) hj hT
  · rcases eq_or_ne j i with rfl | hne
    · have hheld : ((s.create v).put j (some ⟨some s.constructed, some v.1⟩)).ledger.held j =
          some s.constructed := by
        rw [hledger]
        exact Function.update_self ..
      rw [content_of_held_some hheld, Function.update_self]
      exact Function.update_self ..
    · rw [Function.update_of_ne hne]
      refine content_congr ?_ (hold j)
      rw [hledger]
      exact Function.update_of_ne hne ..

/-- One change of a `small_any` after another. -/
theorem Sets.trans {s' s'' : Anys V} {v w : Option ((T : κ) × V T)} (h : Sets s i v s')
    (h' : Sets s' i w s'') : Sets s i w s'' where
  sound := h'.sound
  content_eq := by rw [h'.content_eq, h.content_eq, Function.update_idem]
  live_of_ne j hne := (h'.live_of_ne j hne).trans (h.live_of_ne j hne)

/-- **The default constructor.** -/
theorem construct_sat (hs : s.Sound) (hi : s.live i = none) :
    Sat (construct i) s (fun _ s' => Sets s i none s' ∧ s'.live i ≠ none) fun _ _ => False := by
  have hlive : (s.put i (some ⟨none, none⟩)).live i ≠ none := by
    show Function.update s.live i _ i ≠ none
    rw [Function.update_self]
    exact Option.some_ne_none _
  unfold Sat construct
  simp only [hi]
  exact ⟨sets_put hs (held_of_not_live hi) rfl, hlive⟩

variable [DecidableEq κ]

/-- **`_destruct`** leaves nothing. -/
theorem destruct_sat (hs : s.Sound) (hi : s.live i ≠ none) :
    Sat (destruct i) s
      (fun _ s' => Sets s i none s' ∧ s'.ledger.held i = none ∧ s'.live i ≠ none)
      fun _ _ => False := by
  obtain ⟨x, hx⟩ := Option.ne_none_iff_exists'.mp hi
  unfold Sat destruct
  rcases hT : x.visitorFunc with _ | T
  · have hheld : s.ledger.held i = none := held_of_null hx hT
    have hput : s.put i (some x) = s := by
      show { s with live := Function.update s.live i (some x) } = s
      rw [← hx, Function.update_eq_self]
    have h : Sets s i none (s.put i (some x)) := sets_put hs hheld hT
    rw [hput] at h
    simp only [hx, hT]
    exact ⟨h, hheld, Option.some_ne_none x⟩
  · obtain ⟨o, v, hheld, -, hobject⟩ := hs.objectIn_eq hx hT
    simp only [hx, hT, hobject]
    refine ⟨sets_destroyed hs hheld x.data, ?_, ?_⟩
    · rw [held_put, if_pos rfl]
      rfl
    · show Function.update s.live i _ i ≠ none
      rw [Function.update_self]
      exact Option.some_ne_none _

/-- **`emplace`**: the new object is contained, or nothing is. -/
theorem emplace_sat (hs : s.Sound) (hi : s.live i ≠ none)
    (constructor : Except Exn ((T : κ) × V T)) :
    Sat (emplace i constructor) s
      (fun _ s' => ∃ v, constructor = .ok v ∧ Sets s i (some v) s')
      fun e s' => ∃ x, constructor = .error x ∧ e = .thrown x ∧ Sets s i none s' := by
  unfold emplace
  rw [sat_bind]
  refine (destruct_sat hs hi).mono ?_ fun _ _ h => h.elim
  rintro - s₁ ⟨hempty, hheld, -⟩
  rcases constructor with x | v
  · exact ⟨x, rfl, rfl, hempty⟩
  · exact ⟨v, rfl, hempty.trans (sets_created hempty.sound hheld v)⟩

/-- **The destructor.** -/
theorem destroy_sat (hs : s.Sound) (hi : s.live i ≠ none) :
    Sat (destroy i) s (fun _ s' => Sets s i none s' ∧ s'.live i = none) fun _ _ => False := by
  rw [destroy, sat_bind]
  refine (destruct_sat hs hi).mono ?_ fun _ _ h => h
  rintro - s₁ ⟨hempty, hheld, -⟩
  exact ⟨hempty.trans (sets_put hempty.sound hheld rfl), Function.update_self ..⟩

/-- **`visit`** shows the visitor what is contained, if anything is. -/
theorem visit_sat (hs : s.Sound) (hi : s.live i ≠ none) :
    Sat (visit i) s (fun v s' => v = s.content i ∧ s' = s) fun _ _ => False := by
  obtain ⟨x, hx⟩ := Option.ne_none_iff_exists'.mp hi
  unfold Sat visit
  rcases hT : x.visitorFunc with _ | T
  · have hheld : s.ledger.held i = none := held_of_null hx hT
    have hcontent : s.content i = none := content_of_held_none hheld
    simp only [hx, hT]
    exact ⟨hcontent.symm, trivial⟩
  · obtain ⟨o, v, hheld, hv, hobject⟩ := hs.objectIn_eq hx hT
    have hcontent : s.content i = some ⟨T, v⟩ := (content_of_held_some hheld).trans hv
    simp only [hx, hT, hobject]
    exact ⟨hcontent.symm, trivial⟩

/-- **The move constructor has returned**: the source contains nothing, and the target what the
source has been moved to. -/
structure MovesTo (s : Anys V) (target source : ℕ) (w : Option ((T : κ) × V T)) (s' : Anys V) :
    Prop where
  sound : s'.Sound
  content_eq : s'.content = Function.update (Function.update s.content source none) target w
  target_live : s'.live target ≠ none
  source_live : s'.live source ≠ none
  live_of_ne : ∀ j, j ≠ target → j ≠ source → s'.live j = s.live j

/-- **The move constructor**: it moves what is contained, if anything is, or else the move
constructor of that has thrown and nothing has changed. -/
theorem moveConstruct_sat {target source : ℕ} (hs : s.Sound) (htarget : s.live target = none)
    (hsource : s.live source ≠ none) (move : (v : (T : κ) × V T) → Except Exn (V v.1 × V v.1)) :
    Sat (moveConstruct target source move) s
      (fun _ s' => ∃ w, MovesTo s target source w s' ∧ (s.content source = none ∧ w = none ∨
        ∃ v m, s.content source = some v ∧ move v = .ok m ∧ w = some ⟨v.1, m.1⟩))
      fun e s' => s' = s ∧ ∃ v x, s.content source = some v ∧ move v = .error x ∧
        e = .thrown x := by
  obtain ⟨other, hother⟩ := Option.ne_none_iff_exists'.mp hsource
  have hne : target ≠ source := by
    rintro rfl
    exact hsource htarget
  unfold Sat moveConstruct
  rcases hT : other.visitorFunc with _ | T
  · have hcontent : s.content source = none := content_of_held_none (held_of_null hother hT)
    have h : Sets s target none (s.put target (some ⟨none, none⟩)) :=
      sets_put hs (held_of_not_live htarget) rfl
    simp only [htarget, hother, hT]
    refine ⟨none, ⟨h.sound, ?_, ?_, ?_, fun j ht _ => h.live_of_ne j ht⟩, .inl ⟨hcontent, rfl⟩⟩
    · rw [h.content_eq, ← hcontent, Function.update_eq_self]
    · exact fun hnone => nomatch (Function.update_self ..).symm.trans hnone
    · rw [h.live_of_ne source hne.symm, hother]
      exact Option.some_ne_none _
  · obtain ⟨o, v, hheld, hv, hobject⟩ := hs.objectIn_eq hother hT
    have hcontent : s.content source = some ⟨T, v⟩ := (content_of_held_some hheld).trans hv
    simp only [htarget, hother, hT, hobject]
    rcases hmove : move ⟨T, v⟩ with x | ⟨new, left⟩
    · exact ⟨rfl, _, x, hcontent, hmove, rfl⟩
    · -- as if the source were left with nothing before the new object is constructed
      let left₁ : Anys V := (s.leave o ⟨T, left⟩).put source (some ⟨other.data, none⟩)
      have hleft : Sets s source none left₁ := sets_left hs hheld ⟨T, left⟩ other.data
      have hlive : left₁.live target = none := (hleft.live_of_ne target hne).trans htarget
      have hnew : Sets left₁ target (some ⟨T, new⟩)
          ((((s.create ⟨T, new⟩).leave o ⟨T, left⟩).put target
            (some ⟨some s.constructed, some T⟩)).put source (some ⟨other.data, none⟩)) := by
        have h := sets_created hleft.sound (held_of_not_live hlive) ⟨T, new⟩
        rwa [put_create, ← create_leave (hs.balanced.held_lt hheld).ne, put_comm hne] at h
      refine ⟨_, ⟨hnew.sound, ?_, ?_, ?_, fun j ht hj => ?_⟩, .inr ⟨_, _, hcontent, hmove, rfl⟩⟩
      · rw [hnew.content_eq, hleft.content_eq]
      · show Function.update (Function.update s.live target _) source _ target ≠ none
        rw [Function.update_of_ne hne, Function.update_self]
        exact Option.some_ne_none _
      · show Function.update (Function.update s.live target _) source _ source ≠ none
        rw [Function.update_self]
        exact Option.some_ne_none _
      · exact (hnew.live_of_ne j ht).trans (hleft.live_of_ne j hj)

/-- **A step keeps everything sound**, and its behaviour is defined. -/
theorem run_sat (hs : s.Sound) {op : Op V} (hop : s.Possible op) :
    Sat (run op) s (fun _ s' => s'.Sound) fun e s' => s'.Sound ∧ ∃ x, e = .thrown x := by
  cases op with
  | construct i =>
    exact (construct_sat hs hop).mono (fun _ _ h => h.1.sound) fun _ _ h => h.elim
  | emplace i constructor =>
    refine (emplace_sat hs hop constructor).mono ?_ ?_
    · rintro - s' ⟨v, -, h⟩
      exact h.sound
    · rintro e s' ⟨x, -, rfl, h⟩
      exact ⟨h.sound, x, rfl⟩
  | moveConstruct target source move =>
    refine (moveConstruct_sat hs hop.1 hop.2 move).mono ?_ ?_
    · rintro - s' ⟨w, h, -⟩
      exact h.sound
    · rintro e s' ⟨rfl, v, x, -, -, rfl⟩
      exact ⟨hs, x, rfl⟩
  | visit i =>
    show Sat (visit i >>= fun _ => pure ()) s _ _
    rw [sat_bind]
    refine (visit_sat hs hop).mono ?_ fun _ _ h => h.elim
    rintro v s' ⟨-, rfl⟩
    exact hs
  | destroy i =>
    exact (destroy_sat hs hop).mono (fun _ _ h => h.1.sound) fun _ _ h => h.elim

/-- Everything is sound in every state that can be reached. -/
theorem Reachable.sound (h : s.Reachable) : s.Sound := by
  induction h with
  | refl => exact sound_start
  | @tail s s' _ hstep ih =>
    obtain ⟨op, hop, hends⟩ := hstep
    have hsat := run_sat ih hop
    rcases hrun : run op s with ⟨u, t⟩ | ⟨e, t⟩
    · obtain rfl := hends.ok hrun
      exact hsat.ok hrun
    · obtain rfl := hends.error hrun
      exact (hsat.error hrun).1

end Operations

/-! ### Lifetimes -/

/-- The `small_any` at an address contains an object. -/
def Contains (s : Anys V) (i o : ℕ) : Prop := s.ledger.held i = some o

/-- **The lifetimes of the objects are in order**: no object is destroyed twice, one that is alive
is contained in exactly one `small_any` or is what is left of an object that has been moved from, a
visitor is only called on a live object, no operation does anything undefined, and once all the
`small_any` objects are destroyed so is every object, exactly once, unless it has been moved from.
What is left of those is never destroyed. -/
structure Lifetimes [DecidableEq κ] (s : Anys V) : Prop where
  once : ∀ o, s.destroyed o ≤ 1
  alive : ∀ o < s.constructed, s.destroyed o = 0 →
    (∃ i, s.Contains i o ∧ ∀ j, s.Contains j o → j = i) ∨ s.movedFrom o = true
  left : ∀ o, s.movedFrom o = true → s.destroyed o = 0 ∧ ∀ i, ¬s.Contains i o
  visits : ∀ i, s.live i ≠ none → Sat (visit i) s
    (fun v s' => s' = s ∧ ∀ w, v = some w → ∃ o < s.constructed, s.Contains i o ∧
      s.value o = some w ∧ s.destroyed o = 0 ∧ s.movedFrom o = false) fun _ _ => False
  defined : ∀ op, s.Possible op → Sat (run op) s (fun _ _ => True) fun e _ => ∃ x, e = .thrown x
  settled : (∀ i, s.live i = none) → ∀ o < s.constructed,
    s.destroyed o = if s.movedFrom o then 0 else 1

/-- **`small_any` balances lifetimes**, but for what is left of the objects that have been moved
from: in every state that any sequence of operations can reach. -/
theorem Reachable.lifetimes [DecidableEq κ] {s : Anys V} (h : s.Reachable) : s.Lifetimes := by
  have hs := h.sound
  have hopen : ∀ {i o : ℕ}, s.Contains i o → s.destroyed o = 0 ∧ s.movedFrom o = false :=
    fun hi => hs.balanced.held_open hi
  refine ⟨hs.balanced.released_le_one, fun o ho hzero => ?_, fun o hleft => ?_, fun i hi => ?_,
    fun op hop => ?_, fun hnone o ho => ?_⟩
  · rcases hs.balanced.settled o ho with ⟨i, hi⟩ | hsettled
    · exact .inl ⟨i, hi, fun j hj => hs.balanced.unique hj hi⟩
    · refine .inr ?_
      by_contra hkept
      have hone : s.destroyed o = if s.movedFrom o then 0 else 1 := hsettled
      rw [if_neg hkept, hzero] at hone
      cases hone
  · have hnot : ∀ i, ¬s.Contains i o := fun i hi =>
      absurd (hleft.symm.trans (hopen hi).2) Bool.false_ne_true.symm
    refine ⟨?_, hnot⟩
    rcases Nat.lt_or_ge o s.constructed with ho | ho
    · rcases hs.balanced.settled o ho with ⟨i, hi⟩ | hsettled
      · exact absurd hi (hnot i)
      · exact hsettled.trans (if_pos hleft)
    · exact (hs.balanced.fresh o ho).1
  · refine (visit_sat hs hi).mono ?_ fun _ _ h => h
    rintro v s' ⟨hv, rfl⟩
    refine ⟨rfl, ?_⟩
    rintro w rfl
    obtain ⟨o, hheld, hw⟩ := Option.bind_eq_some_iff.mp hv.symm
    obtain ⟨hzero, hkept⟩ := hopen hheld
    exact ⟨o, hs.balanced.held_lt hheld, hheld, hw, hzero, hkept⟩
  · exact (run_sat hs hop).mono (fun _ _ _ => trivial) fun _ _ h => h.2
  · exact hs.balanced.released_eq (fun i => held_of_not_live (hnone i)) ho

/-- Of two moves the first throws, and then both `small_any` objects are destroyed. -/
theorem lifetimes_throwing_move :
    ∃ s : Anys fun _ : Unit => Bool, s.constructed = 2 ∧ (∀ i, s.live i = none) ∧ s.Lifetimes := by
  have h₀ : (start : Anys fun _ : Unit => Bool).Reachable := .refl
  have h₁ := h₀.next (.construct 0) rfl rfl
  have h₂ := h₁.next (.emplace 0 (.ok ⟨(), true⟩)) (Option.some_ne_none _) rfl
  have h₃ := h₂.next (.moveConstruct 1 0 fun _ => .error .badAlloc)
    ⟨rfl, Option.some_ne_none _⟩ rfl
  have h₄ := h₃.next (.moveConstruct 1 0 fun v => .ok (v.2, false))
    ⟨rfl, Option.some_ne_none _⟩ rfl
  have h₅ := h₄.next (.destroy 0) (Option.some_ne_none _) rfl
  have h₆ := h₅.next (.destroy 1) (Option.some_ne_none _) rfl
  refine ⟨_, rfl, fun i => ?_, Reachable.lifetimes h₆⟩
  rcases i with _ | _ | i <;> rfl

/-- **What is left of an object is never destroyed**: an object is constructed and moved, and both
`small_any` objects are destroyed. -/
theorem moved_from_not_destroyed :
    ∃ s : Anys fun _ : Unit => Bool, s.Reachable ∧ (∀ i, s.live i = none) ∧ s.constructed = 2 ∧
      s.destroyed 0 = 0 ∧ s.destroyed 1 = 1 := by
  have h₀ : (start : Anys fun _ : Unit => Bool).Reachable := .refl
  have h₁ := h₀.next (.construct 0) rfl rfl
  have h₂ := h₁.next (.emplace 0 (.ok ⟨(), true⟩)) (Option.some_ne_none _) rfl
  have h₃ := h₂.next (.moveConstruct 1 0 fun v => .ok (v.2, false))
    ⟨rfl, Option.some_ne_none _⟩ rfl
  have h₄ := h₃.next (.destroy 0) (Option.some_ne_none _) rfl
  have h₅ := h₄.next (.destroy 1) (Option.some_ne_none _) rfl
  refine ⟨_, h₅, fun i => ?_, rfl, rfl, rfl⟩
  rcases i with _ | _ | i <;> rfl

end Anys

end SerialisePP
