import Mathlib.Logic.Equiv.Basic
import Mathlib.Order.Defs.LinearOrder

/-!
# Resources and their owners

Any number of owners, each of which holds at most one resource. A resource is created in the hands
of an owner, may change hands, and is finally released – or abandoned, after which no owner is
responsible for it. A ledger (`Ownership.Ledger`) records who holds what, and counts how often each
resource has been released.

The books balance (`Ownership.Ledger.Balanced`) if every resource is in one place: held by one owner
and not released, released once, or abandoned. Each operation keeps them so, as long as a resource
is only ever created in empty hands, and once nobody holds anything every resource that has not been
abandoned has been released exactly once (`Ownership.Ledger.Balanced.released_eq`).
-/

namespace Ownership

/-- **A ledger.** The resources are numbered in the order they have been created in. -/
@[ext] structure Ledger (ι : Type*) where
  /-- What each owner holds. -/
  held : ι → Option ℕ
  /-- How many resources have been created. -/
  created : ℕ
  /-- How often each resource has been released. -/
  released : ℕ → ℕ
  /-- Whether a resource has been abandoned. -/
  abandoned : ℕ → Bool

namespace Ledger

variable {ι : Type*} [DecidableEq ι]

/-! ### Operations -/

/-- Before the first resource. -/
def start : Ledger ι := ⟨fun _ => none, 0, fun _ => 0, fun _ => false⟩

/-- A resource is created. -/
def acquire (l : Ledger ι) (i : ι) : Ledger ι :=
  { l with held := Function.update l.held i (some l.created), created := l.created + 1 }

/-- An owner releases what it holds. -/
def release (l : Ledger ι) (i : ι) : Ledger ι :=
  match l.held i with
  | none => l
  | some r => { l with
      held := Function.update l.held i none
      released := Function.update l.released r (l.released r + 1) }

/-- An owner abandons what it holds. -/
def abandon (l : Ledger ι) (i : ι) : Ledger ι :=
  match l.held i with
  | none => l
  | some r => { l with
      held := Function.update l.held i none
      abandoned := Function.update l.abandoned r true }

/-- Two owners exchange what they hold. -/
def exchange (l : Ledger ι) (i j : ι) : Ledger ι :=
  { l with held := Function.update (Function.update l.held i (l.held j)) j (l.held i) }

theorem release_of_none {l : Ledger ι} {i : ι} (h : l.held i = none) : l.release i = l := by
  rw [release, h]

theorem release_of_some {l : Ledger ι} {i : ι} {r : ℕ} (h : l.held i = some r) :
    l.release i = { l with
      held := Function.update l.held i none
      released := Function.update l.released r (l.released r + 1) } := by
  rw [release, h]

theorem abandon_of_some {l : Ledger ι} {i : ι} {r : ℕ} (h : l.held i = some r) :
    l.abandon i = { l with
      held := Function.update l.held i none
      abandoned := Function.update l.abandoned r true } := by
  rw [abandon, h]

@[simp] theorem held_release_self (l : Ledger ι) (i : ι) : (l.release i).held i = none := by
  rcases h : l.held i with _ | r
  · rw [release_of_none h, h]
  · rw [release_of_some h]
    exact Function.update_self ..

/-! ### Balance -/

omit [DecidableEq ι] in
/-- **The books balance**: every resource is in one place. -/
structure Balanced (l : Ledger ι) : Prop where
  held_lt : ∀ {i : ι} {r : ℕ}, l.held i = some r → r < l.created
  unique : ∀ {i j : ι} {r : ℕ}, l.held i = some r → l.held j = some r → i = j
  held_open : ∀ {i : ι} {r : ℕ}, l.held i = some r → l.released r = 0 ∧ l.abandoned r = false
  settled : ∀ r < l.created, (∃ i, l.held i = some r) ∨
    l.released r = (if l.abandoned r then 0 else 1)
  fresh : ∀ r, l.created ≤ r → l.released r = 0 ∧ l.abandoned r = false

omit [DecidableEq ι] in
theorem balanced_start : (start : Ledger ι).Balanced where
  held_lt h := by cases h
  unique h := by cases h
  held_open h := by cases h
  settled r h := absurd h (Nat.not_lt_zero r)
  fresh _ _ := ⟨rfl, rfl⟩

namespace Balanced

variable {l : Ledger ι}

omit [DecidableEq ι] in
/-- No resource is released twice. -/
theorem released_le_one (h : l.Balanced) (r : ℕ) : l.released r ≤ 1 := by
  rcases Nat.lt_or_ge r l.created with hr | hr
  · rcases h.settled r hr with ⟨i, hi⟩ | hsettled
    · rw [(h.held_open hi).1]
      exact Nat.zero_le _
    · rw [hsettled]
      split <;> omega
  · rw [(h.fresh r hr).1]
    exact Nat.zero_le _

omit [DecidableEq ι] in
/-- **Once nobody holds anything**, every resource has been released exactly once, unless it has
been abandoned. -/
theorem released_eq (h : l.Balanced) (hnone : ∀ i, l.held i = none) {r : ℕ} (hr : r < l.created) :
    l.released r = if l.abandoned r then 0 else 1 := by
  rcases h.settled r hr with ⟨i, hi⟩ | hsettled
  · exact absurd (hi.symm.trans (hnone i)) (Option.some_ne_none r)
  · exact hsettled

/-- Creating a resource in empty hands. -/
theorem acquire (h : l.Balanced) {i : ι} (hi : l.held i = none) : (l.acquire i).Balanced := by
  have hheld : ∀ {j : ι} {r : ℕ}, (l.acquire i).held j = some r →
      j = i ∧ r = l.created ∨ j ≠ i ∧ l.held j = some r := by
    intro j r hj
    rcases eq_or_ne j i with rfl | hne
    · have hnew : some l.created = some r := (Function.update_self j _ l.held).symm.trans hj
      exact .inl ⟨rfl, (Option.some.inj hnew).symm⟩
    · exact .inr ⟨hne, (Function.update_of_ne hne ..).symm.trans hj⟩
  constructor
  · intro j r hj
    show r < l.created + 1
    rcases hheld hj with ⟨-, rfl⟩ | ⟨-, hj⟩
    · exact Nat.lt_succ_self _
    · exact Nat.lt_succ_of_lt (h.held_lt hj)
  · intro j k r hj hk
    rcases hheld hj with ⟨rfl, rfl⟩ | ⟨-, hold⟩
    · rcases hheld hk with ⟨rfl, -⟩ | ⟨-, hold⟩
      · rfl
      · exact absurd (h.held_lt hold) (Nat.lt_irrefl _)
    · rcases hheld hk with ⟨-, rfl⟩ | ⟨-, hold'⟩
      · exact absurd (h.held_lt hold) (Nat.lt_irrefl _)
      · exact h.unique hold hold'
  · intro j r hj
    rcases hheld hj with ⟨-, rfl⟩ | ⟨-, hj⟩
    · exact h.fresh _ (Nat.le_refl _)
    · exact h.held_open hj
  · intro r hr
    rcases Nat.lt_succ_iff_lt_or_eq.mp hr with hr | rfl
    · rcases h.settled r hr with ⟨j, hj⟩ | hsettled
      · have hne : j ≠ i := by
          rintro rfl
          cases hj.symm.trans hi
        exact .inl ⟨j, (Function.update_of_ne hne ..).trans hj⟩
      · exact .inr hsettled
    · exact .inl ⟨i, Function.update_self ..⟩
  · exact fun r hr => h.fresh r (Nat.le_of_succ_le hr)

/-- Who holds what after an owner has let go of a resource. -/
theorem held_of_update {i j : ι} {r : ℕ} (hj : Function.update l.held i none j = some r) :
    j ≠ i ∧ l.held j = some r := by
  rcases eq_or_ne j i with rfl | hne
  · rw [Function.update_self] at hj
    cases hj
  · exact ⟨hne, (Function.update_of_ne hne ..).symm.trans hj⟩

/-- **Letting go of a resource**, by releasing it once or by abandoning it. -/
theorem let_go (h : l.Balanced) {i : ι} {r : ℕ} (hi : l.held i = some r) {released : ℕ → ℕ}
    {abandoned : ℕ → Bool} (hreleased : ∀ q, q ≠ r → released q = l.released q)
    (habandoned : ∀ q, q ≠ r → abandoned q = l.abandoned q)
    (hr : released r = if abandoned r then 0 else 1) :
    Balanced { l with
      held := Function.update l.held i none
      released := released
      abandoned := abandoned } := by
  have hother : ∀ {j : ι} {q : ℕ}, Function.update l.held i none j = some q → q ≠ r := by
    rintro j q hj rfl
    obtain ⟨hne, hj⟩ := held_of_update hj
    exact hne (h.unique hj hi)
  constructor
  · exact fun hj => h.held_lt (held_of_update hj).2
  · exact fun hj hk => h.unique (held_of_update hj).2 (held_of_update hk).2
  · intro j q hj
    show released q = 0 ∧ abandoned q = false
    rw [hreleased q (hother hj), habandoned q (hother hj)]
    exact h.held_open (held_of_update hj).2
  · intro q hq
    rcases eq_or_ne q r with rfl | hne
    · exact .inr hr
    · rcases h.settled q hq with ⟨j, hj⟩ | hsettled
      · have hji : j ≠ i := by
          rintro rfl
          exact hne (Option.some.inj (hj.symm.trans hi))
        exact .inl ⟨j, (Function.update_of_ne hji ..).trans hj⟩
      · refine .inr ?_
        show released q = if abandoned q then 0 else 1
        rw [hreleased q hne, habandoned q hne, hsettled]
  · intro q hq
    have hne : q ≠ r := by
      rintro rfl
      exact absurd (h.held_lt hi) (Nat.not_lt.mpr hq)
    show released q = 0 ∧ abandoned q = false
    rw [hreleased q hne, habandoned q hne]
    exact h.fresh q hq

theorem release (h : l.Balanced) (i : ι) : (l.release i).Balanced := by
  rcases hi : l.held i with _ | r
  · rwa [release_of_none hi]
  · rw [release_of_some hi]
    obtain ⟨hreleased, habandoned⟩ := h.held_open hi
    refine h.let_go hi (fun q hq => Function.update_of_ne hq ..) (fun _ _ => rfl) ?_
    rw [Function.update_self, hreleased, habandoned]
    rfl

theorem abandon (h : l.Balanced) (i : ι) : (l.abandon i).Balanced := by
  rcases hi : l.held i with _ | r
  · rwa [Ledger.abandon, hi]
  · rw [abandon_of_some hi]
    refine h.let_go hi (fun _ _ => rfl) (fun q hq => Function.update_of_ne hq ..) ?_
    rw [Function.update_self, (h.held_open hi).1, if_pos rfl]

theorem exchange (h : l.Balanced) (i j : ι) : (l.exchange i j).Balanced := by
  have hswap : ∀ k, (l.exchange i j).held k = l.held (Equiv.swap i j k) := by
    intro k
    show Function.update (Function.update l.held i (l.held j)) j (l.held i) k = _
    rw [Function.update_apply, Function.update_apply, Equiv.swap_apply_def]
    split_ifs <;> simp_all
  constructor
  · intro k r hk
    rw [hswap] at hk
    exact h.held_lt hk
  · intro k m r hk hm
    rw [hswap] at hk hm
    exact (Equiv.swap i j).injective (h.unique hk hm)
  · intro k r hk
    rw [hswap] at hk
    exact h.held_open hk
  · intro r hr
    rcases h.settled r hr with ⟨k, hk⟩ | hsettled
    · refine .inl ⟨Equiv.swap i j k, ?_⟩
      rw [hswap, Equiv.swap_apply_self, hk]
    · exact .inr hsettled
  · exact h.fresh

end Balanced

end Ledger

end Ownership
