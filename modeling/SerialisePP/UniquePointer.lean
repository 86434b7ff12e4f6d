import Mathlib.Logic.Relation
import SerialisePP.Lib.Ownership

/-!
# `constexpr_unique_ptr`

The owning pointer that the buffers and the sources of dynamic arrays rest on. Any number of them
are constructed, moved, assigned to, reset, swapped and destroyed, in any order
(`SerialisePP.Pointers.step`), over a heap that counts how often each allocation has been deleted.

All that is said about them follows from a ledger (`SerialisePP.Pointers.ledger`) that each
operation changes in one of a few ways – with one exception. The assignment of `nullptr` deletes the
allocation, but leaves the pointer as it is, so that it dangles and deletes the allocation again
later on. As long as `nullptr` is only assigned to pointers that are null, ownership is unique and
every allocation is deleted exactly once (`SerialisePP.Pointers.Reachable.owned`).
-/

namespace SerialisePP

open Ownership

/-- **`constexpr_unique_ptr`**: null, or an allocation, by its number. -/
structure UniquePointer where
  /-- `_pointer`. -/
  pointer : Option ℕ
deriving DecidableEq

namespace UniquePointer

/-- The default constructor. -/
def default : UniquePointer := ⟨none⟩

/-- The constructor from a pointer. -/
def construct (ptr : ℕ) : UniquePointer := ⟨some ptr⟩

/-- The move constructor: the new pointer, and what is left of the other one. -/
def moveConstruct (other : UniquePointer) : UniquePointer × UniquePointer :=
  (⟨other.pointer⟩, ⟨none⟩)

/-- `swap(first, second)`. -/
def swap (first second : UniquePointer) : UniquePointer × UniquePointer := (second, first)

/-- `get()`. -/
def get (p : UniquePointer) : Option ℕ := p.pointer

end UniquePointer

/-- **The pointers of a program, and the heap.** -/
structure Pointers where
  /-- The pointer at an address, while it is alive. -/
  live : ℕ → Option UniquePointer
  /-- The number of allocations so far. -/
  allocations : ℕ
  /-- How often each allocation has been deleted. -/
  deletes : ℕ → ℕ

namespace Pointers

/-- Before the first pointer. -/
def start : Pointers := ⟨fun _ => none, 0, fun _ => 0⟩

/-- The pointer at an address begins, changes or ends its life. -/
def put (i : ℕ) (p : Option UniquePointer) (s : Pointers) : Pointers :=
  { s with live := Function.update s.live i p }

/-- A new allocation, whose number is that of the allocations before it. -/
def allocate (s : Pointers) : Pointers := { s with allocations := s.allocations + 1 }

/-- `_delete()`. -/
def delete (p : UniquePointer) (s : Pointers) : Pointers :=
  match p.pointer with
  | none => s
  | some a => { s with deletes := Function.update s.deletes a (s.deletes a + 1) }

/-! ### The member functions

None of them can be called on a pointer that is not alive, and none can construct one where there is
one already. -/

/-- The default constructor. -/
def constructDefault (i : ℕ) (s : Pointers) : Option Pointers :=
  match s.live i with
  | none => some (s.put i (some .default))
  | some _ => none

/-- The constructor from a pointer, on a new allocation. -/
def constructFresh (i : ℕ) (s : Pointers) : Option Pointers :=
  match s.live i with
  | none => some (s.allocate.put i (some (.construct s.allocations)))
  | some _ => none

/-- The move constructor. -/
def moveConstruct (target source : ℕ) (s : Pointers) : Option Pointers :=
  match s.live target, s.live source with
  | none, some other =>
    some ((s.put source (some other.moveConstruct.2)).put target (some other.moveConstruct.1))
  | _, _ => none

/-- `operator=(constexpr_unique_ptr)`: its parameter is constructed from the source, swapped with
the target, and destroyed. -/
def moveAssign (target source : ℕ) (s : Pointers) : Option Pointers :=
  match s.live source with
  | none => none
  | some other =>
    let s := s.put source (some other.moveConstruct.2)
    match s.live target with
    | none => none
    | some this =>
      let (this, parameter) := this.swap other.moveConstruct.1
      some ((s.put target (some this)).delete parameter)

/-- `operator=(std::nullptr_t)`. -/
def assignNull (i : ℕ) (s : Pointers) : Option Pointers :=
  match s.live i with
  | none => none
  -- the pointer stays what it is
  | some this => some (s.delete this)

/-- `reset()`. -/
def reset (i : ℕ) (s : Pointers) : Option Pointers :=
  match s.live i with
  | none => none
  | some this => some ((s.delete this).put i (some ⟨none⟩))

/-- `reset(ptr)`, on a new allocation. -/
def resetFresh (i : ℕ) (s : Pointers) : Option Pointers :=
  match s.live i with
  | none => none
  | some this => some ((s.allocate.delete this).put i (some ⟨some s.allocations⟩))

/-- `swap(first, second)`. -/
def swap (first second : ℕ) (s : Pointers) : Option Pointers :=
  match s.live first, s.live second with
  | some a, some b => some ((s.put first (some (a.swap b).1)).put second (some (a.swap b).2))
  | _, _ => none

/-- The destructor. -/
def destroy (i : ℕ) (s : Pointers) : Option Pointers :=
  match s.live i with
  | none => none
  | some this => some ((s.delete this).put i none)

/-- **What can be done** with the pointers of a program. -/
inductive Op
  | constructDefault (i : ℕ)
  | constructFresh (i : ℕ)
  | moveConstruct (target source : ℕ)
  | moveAssign (target source : ℕ)
  | assignNull (i : ℕ)
  | reset (i : ℕ)
  | resetFresh (i : ℕ)
  | swap (first second : ℕ)
  | destroy (i : ℕ)

/-- **A step**; none if the operation is not possible. -/
def step : Op → Pointers → Option Pointers
  | .constructDefault i => constructDefault i
  | .constructFresh i => constructFresh i
  | .moveConstruct target source => moveConstruct target source
  | .moveAssign target source => moveAssign target source
  | .assignNull i => assignNull i
  | .reset i => reset i
  | .resetFresh i => resetFresh i
  | .swap first second => swap first second
  | .destroy i => destroy i

/-- **A careful step**: `nullptr` is not assigned to a pointer that holds an allocation. -/
def Careful (s : Pointers) : Op → Prop
  | .assignNull i => ∀ p, s.live i = some p → p.get = none
  | _ => True

/-- **What can be reached** by careful steps. -/
def Reachable (s : Pointers) : Prop :=
  Relation.ReflTransGen (fun s s' => ∃ op, s.Careful op ∧ step op s = some s') start s

theorem Reachable.next {s s' : Pointers} (h : s.Reachable) (op : Op) (hop : s.Careful op)
    (hstep : step op s = some s') : s'.Reachable := h.tail ⟨op, hop, hstep⟩

/-! ### The ledger -/

/-- **Who owns which allocation.** -/
def ledger (s : Pointers) : Ledger ℕ where
  held i := (s.live i).bind UniquePointer.get
  created := s.allocations
  released := s.deletes
  abandoned _ := false

theorem held_of_live {s : Pointers} {i : ℕ} {p : UniquePointer} (h : s.live i = some p) :
    s.ledger.held i = p.get := by
  show (s.live i).bind _ = _
  rw [h]
  rfl

theorem held_of_not_live {s : Pointers} {i : ℕ} (h : s.live i = none) :
    s.ledger.held i = none := by
  show (s.live i).bind _ = _
  rw [h]
  rfl

@[simp] theorem held_put (s : Pointers) (i j : ℕ) (p : Option UniquePointer) :
    (s.put i p).ledger.held j = if j = i then p.bind UniquePointer.get else s.ledger.held j := by
  show (Function.update s.live i p j).bind _ = _
  rw [Function.update_apply]
  split_ifs <;> rfl

theorem delete_of_none {p : UniquePointer} (h : p.get = none) (s : Pointers) :
    s.delete p = s := by
  unfold UniquePointer.get at h
  rw [delete, h]

theorem delete_of_some {p : UniquePointer} {a : ℕ} (h : p.get = some a) (s : Pointers) :
    s.delete p = { s with deletes := Function.update s.deletes a (s.deletes a + 1) } := by
  unfold UniquePointer.get at h
  rw [delete, h]

/-- Deleting what a pointer holds has no part in which pointers there are. -/
theorem live_delete (p : UniquePointer) (s : Pointers) : (s.delete p).live = s.live := by
  rcases h : p.get with _ | a
  · rw [delete_of_none h]
  · rw [delete_of_some h]

theorem held_delete (p : UniquePointer) (s : Pointers) :
    (s.delete p).ledger.held = s.ledger.held := by
  show (fun i => ((s.delete p).live i).bind _) = _
  rw [live_delete]
  rfl

theorem put_delete (s : Pointers) (i : ℕ) (p : Option UniquePointer) (q : UniquePointer) :
    (s.put i p).delete q = (s.delete q).put i p := by
  rcases h : q.get with _ | a
  · rw [delete_of_none h, delete_of_none h]
  · rw [delete_of_some h, delete_of_some h]
    rfl

theorem put_put (s : Pointers) (i : ℕ) (p q : Option UniquePointer) :
    (s.put i p).put i q = s.put i q := by
  show { s with live := Function.update (Function.update s.live i p) i q } = _
  rw [Function.update_idem]
  rfl

theorem put_comm {i j : ℕ} (hne : i ≠ j) (p q : Option UniquePointer) (s : Pointers) :
    (s.put j q).put i p = (s.put i p).put j q :=
  congrArg (fun live => { s with live := live }) (Function.update_comm hne p q s.live).symm

/-- What a pointer holds can be deleted before the new allocation it is to hold is made. -/
theorem allocate_delete_put (s : Pointers) (i : ℕ) (p : UniquePointer) :
    (s.allocate.delete p).put i (some ⟨some s.allocations⟩) =
      (s.delete p).allocate.put i (some ⟨some (s.delete p).allocations⟩) := by
  rcases h : p.get with _ | a
  · rw [delete_of_none h, delete_of_none h]
  · rw [delete_of_some h, delete_of_some h]
    rfl

/-- **Each of two pointers gets what the other held**: an exchange. -/
theorem ledger_put_put {s : Pointers} {i j : ℕ} {p q : Option UniquePointer}
    (hp : p.bind UniquePointer.get = s.ledger.held j)
    (hq : q.bind UniquePointer.get = s.ledger.held i) :
    ((s.put i p).put j q).ledger = s.ledger.exchange i j := by
  refine Ledger.ext (funext fun k => ?_) rfl rfl rfl
  simp only [held_put, hp, hq, Ledger.exchange, Function.update_apply]

/-- **A new allocation, and a pointer that holds it**: an acquisition. -/
theorem ledger_allocate_put (s : Pointers) (i : ℕ) :
    (s.allocate.put i (some ⟨some s.allocations⟩)).ledger = s.ledger.acquire i := by
  refine Ledger.ext (funext fun j => ?_) rfl rfl rfl
  simp only [held_put, Ledger.acquire, Function.update_apply]
  rfl

/-- **Deleting what a pointer holds, and forgetting it**: a release. -/
theorem ledger_delete_put {s : Pointers} {i : ℕ} {this : UniquePointer} (h : s.live i = some this)
    {p : Option UniquePointer} (hp : p.bind UniquePointer.get = none) :
    ((s.delete this).put i p).ledger = s.ledger.release i := by
  have hheld := held_of_live h
  rcases ha : this.get with _ | a
  · rw [delete_of_none ha, Ledger.release_of_none (hheld.trans ha)]
    refine Ledger.ext (funext fun j => ?_) rfl rfl rfl
    rw [held_put, hp]
    split_ifs with hj
    · rw [hj, hheld, ha]
    · rfl
  · rw [delete_of_some ha, Ledger.release_of_some (hheld.trans ha)]
    refine Ledger.ext (funext fun j => ?_) rfl rfl rfl
    simp only [held_put, hp, Function.update_apply]
    rfl

/-! ### The operations, in the ledger -/

section Operations

variable {s s' : Pointers} {i target source first second : ℕ}

theorem constructDefault_ledger (h : s.constructDefault i = some s') : s'.ledger = s.ledger := by
  unfold constructDefault at h
  split at h
  · rename_i hi
    obtain rfl := Option.some.inj h
    refine Ledger.ext (funext fun j => ?_) rfl rfl rfl
    rw [held_put]
    split_ifs with hj
    · rw [hj, held_of_not_live hi]
      rfl
    · rfl
  · cases h

theorem constructFresh_ledger (h : s.constructFresh i = some s') :
    s.ledger.held i = none ∧ s'.ledger = s.ledger.acquire i := by
  unfold constructFresh at h
  split at h
  · rename_i hi
    obtain rfl := Option.some.inj h
    exact ⟨held_of_not_live hi, ledger_allocate_put s i⟩
  · cases h

theorem moveConstruct_ledger (h : s.moveConstruct target source = some s') :
    s'.ledger = s.ledger.exchange source target := by
  unfold moveConstruct at h
  split at h
  · rename_i other htarget hsource
    obtain rfl := Option.some.inj h
    exact ledger_put_put (held_of_not_live htarget).symm (held_of_live hsource).symm
  · cases h

/-- A pointer that is assigned to itself gets back what it gave. -/
theorem moveAssign_self_ledger (h : s.moveAssign i i = some s') : s'.ledger = s.ledger := by
  unfold moveAssign at h
  split at h
  · cases h
  · rename_i other hother
    simp only [put, Function.update_self] at h
    obtain rfl := Option.some.inj h
    refine Ledger.ext (funext fun j => ?_) rfl rfl rfl
    show (Function.update (Function.update s.live i _) i (some ⟨other.pointer⟩) j).bind _ = _
    rw [Function.update_idem, Function.update_apply]
    split_ifs with hj
    · rw [hj, held_of_live hother]
      rfl
    · rfl

theorem moveAssign_ledger (hne : target ≠ source) (h : s.moveAssign target source = some s') :
    s'.ledger = (s.ledger.release target).exchange source target := by
  unfold moveAssign at h
  split at h
  · cases h
  · rename_i other hother
    dsimp only at h
    split at h
    · cases h
    · rename_i this hthis
      obtain rfl := Option.some.inj h
      have hlive : s.live target = some this := (Function.update_of_ne hne ..).symm.trans hthis
      -- as if the target were null before it gets what the source held
      let empty : Pointers := (s.delete this).put target (some ⟨none⟩)
      have hempty : ((s.put source (some ⟨none⟩)).put target (some ⟨other.pointer⟩)).delete this =
          (empty.put source (some ⟨none⟩)).put target (some ⟨other.pointer⟩) := by
        rw [put_delete, put_delete, put_comm hne.symm, put_put]
      have htarget : empty.ledger.held target = none := by
        rw [held_put, if_pos rfl]
        rfl
      have hsource : empty.ledger.held source = other.get := by
        rw [held_put, if_neg hne.symm, held_delete, held_of_live hother]
      refine (congrArg ledger hempty).trans ?_
      rw [← ledger_delete_put hlive (p := some ⟨none⟩) rfl]
      exact ledger_put_put htarget.symm hsource.symm

theorem reset_ledger (h : s.reset i = some s') : s'.ledger = s.ledger.release i := by
  unfold reset at h
  split at h
  · cases h
  · rename_i this hthis
    obtain rfl := Option.some.inj h
    exact ledger_delete_put hthis rfl

theorem resetFresh_ledger (h : s.resetFresh i = some s') :
    s'.ledger = (s.ledger.release i).acquire i := by
  unfold resetFresh at h
  split at h
  · cases h
  · rename_i this hthis
    obtain rfl := Option.some.inj h
    have hempty : (((s.delete this).put i none).allocate.put i
        (some ⟨some (s.delete this).allocations⟩)) =
          (s.delete this).allocate.put i (some ⟨some (s.delete this).allocations⟩) :=
      put_put (s.delete this).allocate i none _
    rw [← ledger_delete_put hthis (p := none) rfl, allocate_delete_put, ← hempty]
    exact ledger_allocate_put _ i

theorem swap_ledger (h : s.swap first second = some s') :
    s'.ledger = s.ledger.exchange first second := by
  unfold swap at h
  split at h
  · rename_i a b ha hb
    obtain rfl := Option.some.inj h
    exact ledger_put_put (held_of_live hb).symm (held_of_live ha).symm
  · cases h

theorem destroy_ledger (h : s.destroy i = some s') :
    s'.ledger = s.ledger.release i ∧ s'.live i = none := by
  unfold destroy at h
  split at h
  · cases h
  · rename_i this hthis
    obtain rfl := Option.some.inj h
    exact ⟨ledger_delete_put hthis rfl, Function.update_self ..⟩

/-- Assigning `nullptr` to a pointer that is null does nothing. -/
theorem assignNull_of_none {p : UniquePointer} (hi : s.live i = some p) (hp : p.get = none)
    (h : s.assignNull i = some s') : s' = s := by
  rw [assignNull, hi] at h
  exact (Option.some.inj h).symm.trans (delete_of_none hp s)

end Operations

/-- **A careful step keeps the books balanced.** -/
theorem step_balanced {s s' : Pointers} {op : Op} (hs : s.ledger.Balanced) (hop : s.Careful op)
    (h : step op s = some s') : s'.ledger.Balanced := by
  cases op with
  | constructDefault i => exact constructDefault_ledger h ▸ hs
  | constructFresh i =>
    obtain ⟨hi, hledger⟩ := constructFresh_ledger h
    exact hledger ▸ hs.acquire hi
  | moveConstruct target source => exact moveConstruct_ledger h ▸ hs.exchange source target
  | moveAssign target source =>
    rcases eq_or_ne target source with rfl | hne
    · exact moveAssign_self_ledger h ▸ hs
    · exact moveAssign_ledger hne h ▸ (hs.release target).exchange source target
  | assignNull i =>
    rcases hi : s.live i with _ | p
    · have hnone : s.assignNull i = none := by rw [assignNull, hi]
      cases hnone.symm.trans h
    · exact assignNull_of_none hi (hop p hi) h ▸ hs
  | reset i => exact reset_ledger h ▸ hs.release i
  | resetFresh i =>
    exact resetFresh_ledger h ▸ (hs.release i).acquire (Ledger.held_release_self s.ledger i)
  | swap first second => exact swap_ledger h ▸ hs.exchange first second
  | destroy i => exact (destroy_ledger h).1 ▸ hs.release i

/-- The books are balanced in every state that careful steps can reach. -/
theorem Reachable.balanced {s : Pointers} (h : s.Reachable) : s.ledger.Balanced := by
  induction h with
  | refl => exact Ledger.balanced_start
  | tail _ hstep ih =>
    obtain ⟨op, hop, hstep⟩ := hstep
    exact step_balanced ih hop hstep

/-! ### Unique ownership -/

/-- **Ownership is unique**, and nothing is deleted twice or forgotten. -/
structure Owned (s : Pointers) : Prop where
  unique : ∀ (i j : ℕ) (p q : UniquePointer) (a : ℕ), s.live i = some p → s.live j = some q →
    p.get = some a → q.get = some a → i = j
  alive : ∀ (i : ℕ) (p : UniquePointer) (a : ℕ), s.live i = some p → p.get = some a →
    a < s.allocations ∧ s.deletes a = 0
  once : ∀ a, s.deletes a ≤ 1
  settled : (∀ i, s.live i = none) → ∀ a < s.allocations, s.deletes a = 1

theorem owned_of_balanced {s : Pointers} (h : s.ledger.Balanced) : s.Owned where
  unique _ _ _ _ _ hi hj hp hq :=
    h.unique ((held_of_live hi).trans hp) ((held_of_live hj).trans hq)
  alive i p a hi hp := by
    have hheld : s.ledger.held i = some a := (held_of_live hi).trans hp
    exact ⟨h.held_lt hheld, (h.held_open hheld).1⟩
  once := h.released_le_one
  settled hnone _ ha := h.released_eq (fun i => held_of_not_live (hnone i)) ha

/-- **Assigning `nullptr` to a pointer that holds an allocation** leaves it dangling. -/
theorem not_owned_assignNull {s s' : Pointers} {i a : ℕ} {p : UniquePointer}
    (hi : s.live i = some p) (hp : p.get = some a) (h : s.assignNull i = some s') :
    ¬s'.Owned := by
  rw [assignNull, hi] at h
  obtain rfl := Option.some.inj h
  intro howned
  have hlive : (s.delete p).live i = some p := by rw [live_delete, hi]
  have hzero := (howned.alive i p a hlive hp).2
  rw [delete_of_some hp] at hzero
  exact Nat.succ_ne_zero _ ((Function.update_self a _ s.deletes).symm.trans hzero)

/-- **When ownership is unique.** In every run whose steps are all careful, in every state: no
allocation is owned by two pointers, no pointer dangles, nothing is deleted twice, and once all the
pointers are destroyed every allocation has been deleted exactly once. A step that is not careful
breaks this at once. -/
theorem Reachable.owned {s : Pointers} (h : s.Reachable) :
    s.Owned ∧ ∀ op s', step op s = some s' → (s'.Owned ↔ s.Careful op) := by
  refine ⟨owned_of_balanced h.balanced, fun op s' hstep => ⟨fun howned => ?_, fun hop => ?_⟩⟩
  · cases op with
    | assignNull i =>
      intro p hi
      rcases hp : p.get with _ | a
      · rfl
      · exact absurd howned (not_owned_assignNull hi hp hstep)
    | _ => trivial
  · exact owned_of_balanced (step_balanced h.balanced hop hstep)

/-- A pointer is reset to another allocation, moved from, assigned `nullptr` and destroyed, and so
is the pointer it was moved to. -/
theorem owned_moved :
    ∃ s : Pointers, (∀ i, s.live i = none) ∧ s.allocations = 2 ∧ s.Owned := by
  have h₁ := Reachable.next .refl (.constructFresh 0) trivial rfl
  have h₂ := h₁.next (.resetFresh 0) trivial rfl
  have h₃ := h₂.next (.moveConstruct 1 0) trivial rfl
  have h₄ := h₃.next (.assignNull 0) (fun p hp => by cases hp; rfl) rfl
  have h₅ := h₄.next (.destroy 0) trivial rfl
  have h₆ := h₅.next (.destroy 1) trivial rfl
  refine ⟨_, fun i => ?_, rfl, (Reachable.owned h₆).1⟩
  rcases i with _ | _ | i <;> rfl

/-- **The assignment of `nullptr`**: the pointer dangles, and its destructor deletes the allocation
again. -/
theorem assignNull_dangles :
    ∃ s₁ s₂ s₃ : Pointers, step (.constructFresh 0) start = some s₁ ∧
      step (.assignNull 0) s₁ = some s₂ ∧ step (.destroy 0) s₂ = some s₃ ∧
      s₂.live 0 = some ⟨some 0⟩ ∧ s₂.deletes 0 = 1 ∧ s₃.deletes 0 = 2 ∧ ¬s₂.Owned ∧ ¬s₃.Owned := by
  refine ⟨_, _, _, rfl, rfl, rfl, rfl, rfl, rfl, fun h => ?_, fun h => ?_⟩
  · exact absurd (h.alive 0 _ 0 rfl rfl).2 (by decide)
  · exact absurd (h.once 0) (by decide)

end Pointers

end SerialisePP
