import Mathlib.Logic.Basic

/-!
# Programs with state and exceptions

A program over a state `σ` that may fail with an `ε` is an `EStateM ε σ α`; unlike a
state transformer over `Except`, it keeps the state in which it failed. This file is the
program logic the rest of the development reasons with:

* `Effect.Sat` – what holds of the outcome of a run, one condition for a normal return
  and one for a failure, with a rule for each way a program is built;
* `Effect.Sim` – two runs in lock step: they return the same value or fail in the same
  way, and their final states are related;
* `Effect.Invariant` – a property of the state that a program keeps whatever its outcome.

The rules are equivalences wherever they can be, so that a proof can rewrite with them
and stay inside the run.
-/

namespace Effect

variable {ε σ τ α β : Type}

/-! ### What a run satisfies -/

/-- **The outcome of a run**: `Q` of the value and the state if it returns, `E` of the
failure and the state if it fails. -/
def Sat (m : EStateM ε σ α) (s : σ) (Q : α → σ → Prop) (E : ε → σ → Prop) : Prop :=
  match m s with
  | .ok a s' => Q a s'
  | .error e s' => E e s'

variable {s : σ} {Q : α → σ → Prop} {E : ε → σ → Prop}

theorem sat_of_ok {m : EStateM ε σ α} {a : α} {s' : σ} (h : m s = .ok a s') :
    Sat m s Q E ↔ Q a s' := by
  rw [Sat, h]

theorem sat_of_error {m : EStateM ε σ α} {e : ε} {s' : σ} (h : m s = .error e s') :
    Sat m s Q E ↔ E e s' := by
  rw [Sat, h]

@[simp] theorem sat_pure (a : α) : Sat (pure a : EStateM ε σ α) s Q E ↔ Q a s := Iff.rfl

@[simp] theorem sat_get {Q : σ → σ → Prop} : Sat (get : EStateM ε σ σ) s Q E ↔ Q s s := Iff.rfl

@[simp] theorem sat_modify {Q : PUnit → σ → Prop} (f : σ → σ) :
    Sat (modify f : EStateM ε σ PUnit) s Q E ↔ Q ⟨⟩ (f s) := Iff.rfl

/-- **Sequencing**: the first part has to reach a state from which the rest satisfies the
conditions; a failure of the first part is a failure of the whole. -/
@[simp] theorem sat_bind (m : EStateM ε σ β) (f : β → EStateM ε σ α) :
    Sat (m >>= f) s Q E ↔ Sat m s (fun b s' => Sat (f b) s' Q E) E := by
  show (match EStateM.bind m f s with | .ok a s' => Q a s' | .error e s' => E e s') ↔ _
  unfold EStateM.bind Sat
  cases m s <;> exact Iff.rfl

/-- A sequence whose first part returns goes on with the rest. -/
theorem bind_ok {m : EStateM ε σ β} {f : β → EStateM ε σ α} {b : β} {s' : σ}
    (h : m s = .ok b s') : (m >>= f) s = f b s' := by
  show EStateM.bind m f s = _
  rw [EStateM.bind, h]

/-- A sequence whose first part fails goes no further. -/
theorem bind_error {m : EStateM ε σ β} {f : β → EStateM ε σ α} {e : ε} {s' : σ}
    (h : m s = .error e s') : (m >>= f) s = .error e s' := by
  show EStateM.bind m f s = _
  rw [EStateM.bind, h]

/-- The parts of a sequence that returns. -/
theorem exists_of_bind_ok {m : EStateM ε σ β} {f : β → EStateM ε σ α} {a : α} {s' : σ}
    (h : (m >>= f) s = .ok a s') : ∃ b s₁, m s = .ok b s₁ ∧ f b s₁ = .ok a s' := by
  cases hm : m s with
  | ok b s₁ => exact ⟨b, s₁, rfl, (bind_ok hm).symm.trans h⟩
  | error e s₁ => exact absurd ((bind_error hm).symm.trans h) nofun

/-- **Consequence.** -/
theorem Sat.mono {m : EStateM ε σ α} {Q' : α → σ → Prop} {E' : ε → σ → Prop}
    (h : Sat m s Q E) (hQ : ∀ a s', Q a s' → Q' a s') (hE : ∀ e s', E e s' → E' e s') :
    Sat m s Q' E' := by
  unfold Sat at h ⊢
  cases hm : m s with
  | ok a s' =>
    rw [hm] at h
    exact hQ a s' h
  | error e s' =>
    rw [hm] at h
    exact hE e s' h

/-- **Conjunction.** -/
theorem Sat.and {m : EStateM ε σ α} {Q' : α → σ → Prop} {E' : ε → σ → Prop} (h : Sat m s Q E)
    (h' : Sat m s Q' E') :
    Sat m s (fun a s' => Q a s' ∧ Q' a s') fun e s' => E e s' ∧ E' e s' := by
  unfold Sat at h h' ⊢
  cases hm : m s <;> rw [hm] at h h' <;> exact ⟨h, h'⟩

/-- Every run ends somehow. -/
theorem sat_true (m : EStateM ε σ α) (s : σ) :
    Sat m s (fun _ _ => True) fun _ _ => True := by
  unfold Sat
  cases m s <;> exact trivial

/-- A run that returned satisfies the condition on returns. -/
theorem Sat.ok {m : EStateM ε σ α} {a : α} {s' : σ} (h : Sat m s Q E) (hm : m s = .ok a s') :
    Q a s' := (sat_of_ok hm).mp h

/-- A run that failed satisfies the condition on failures. -/
theorem Sat.error {m : EStateM ε σ α} {e : ε} {s' : σ} (h : Sat m s Q E)
    (hm : m s = .error e s') : E e s' := (sat_of_error hm).mp h

/-- A run that cannot fail returns. -/
theorem Sat.exists_ok {m : EStateM ε σ α} (h : Sat m s Q E) (hE : ∀ e s', ¬E e s') :
    ∃ a s', m s = .ok a s' ∧ Q a s' := by
  unfold Sat at h
  cases hm : m s with
  | ok a s' =>
    rw [hm] at h
    exact ⟨a, s', rfl, h⟩
  | error e s' =>
    rw [hm] at h
    exact absurd h (hE e s')

/-- A run that cannot return fails. -/
theorem Sat.exists_error {m : EStateM ε σ α} (h : Sat m s Q E) (hQ : ∀ a s', ¬Q a s') :
    ∃ e s', m s = .error e s' ∧ E e s' := by
  unfold Sat at h
  cases hm : m s with
  | ok a s' =>
    rw [hm] at h
    exact absurd h (hQ a s')
  | error e s' =>
    rw [hm] at h
    exact ⟨e, s', rfl, h⟩

/-! ### Invariants of the state -/

/-- **A property every run keeps**, whether it returns or fails. -/
def Invariant (I : σ → Prop) (m : EStateM ε σ α) : Prop :=
  ∀ s, I s → Sat m s (fun _ s' => I s') (fun _ s' => I s')

variable {I : σ → Prop}

theorem invariant_pure (a : α) : Invariant I (pure a : EStateM ε σ α) := fun _ h => h

theorem invariant_throw (e : ε) : Invariant I (throw e : EStateM ε σ α) := fun _ h => h

theorem Invariant.bind {m : EStateM ε σ β} {f : β → EStateM ε σ α} (hm : Invariant I m)
    (hf : ∀ b, Invariant I (f b)) : Invariant I (m >>= f) := fun s hs =>
  (sat_bind m f).mpr ((hm s hs).mono (fun b s' h => hf b s' h) fun _ _ h => h)

/-- A run that ends in a state, whether it returns or fails. -/
def Ends (m : EStateM ε σ α) (s s' : σ) : Prop :=
  Sat m s (fun _ t => t = s') fun _ t => t = s'

/-- Every run ends in a state. -/
theorem exists_ends (m : EStateM ε σ α) (s : σ) : ∃ s', Ends m s s' := by
  unfold Ends Sat
  cases m s with
  | ok a s' => exact ⟨s', rfl⟩
  | error e s' => exact ⟨s', rfl⟩

/-- What holds of every outcome holds where the run ends. -/
theorem Ends.sat {m : EStateM ε σ α} {s s' : σ} (h : Ends m s s')
    (hm : Sat m s (fun _ t => I t) fun _ t => I t) : I s' := by
  cases hrun : m s with
  | ok a t =>
    obtain rfl := h.ok hrun
    exact hm.ok hrun
  | error e t =>
    obtain rfl := h.error hrun
    exact hm.error hrun

/-- An invariant holds wherever a run ends. -/
theorem Ends.invariant {m : EStateM ε σ α} {s s' : σ} (h : Ends m s s') (hm : Invariant I m)
    (hs : I s) : I s' := h.sat (hm s hs)

/-- **A program on the states that satisfy an invariant it keeps.** -/
def restrict (m : EStateM ε σ α) (h : Invariant I m) : EStateM ε { s // I s } α := fun s =>
  match hm : m s.1 with
  | .ok a s' => .ok a ⟨s', (h s.1 s.2).ok hm⟩
  | .error e s' => .error e ⟨s', (h s.1 s.2).error hm⟩

/-- It does what the program does. -/
theorem sat_restrict {m : EStateM ε σ α} {h : Invariant I m} {s : { s // I s }}
    {Q : α → σ → Prop} {E : ε → σ → Prop} :
    Sat (restrict m h) s (fun a s' => Q a s'.1) (fun e s' => E e s'.1) ↔ Sat m s.1 Q E := by
  unfold Sat restrict
  split <;> rename_i heq <;> split at heq <;> rename_i hm
  · obtain ⟨rfl, rfl⟩ := EStateM.Result.ok.inj heq
    exact (sat_of_ok hm).symm
  · contradiction
  · contradiction
  · obtain ⟨rfl, rfl⟩ := EStateM.Result.error.inj heq
    exact (sat_of_error hm).symm

/-! ### Runs on a part of the state -/

/-- A run satisfies that it is the run it is. -/
theorem sat_self (m : EStateM ε σ α) (s : σ) :
    Sat m s (fun a s' => m s = .ok a s') fun e s' => m s = .error e s' := by
  unfold Sat
  cases m s <;> rfl

/-- **A program on a part of the state**, which is got from the state and set in it. -/
def zoom (get : σ → τ) (set : τ → σ → σ) (m : EStateM ε τ α) : EStateM ε σ α := fun s =>
  match m (get s) with
  | .ok a t => .ok a (set t s)
  | .error e t => .error e (set t s)

/-- It leaves the rest of the state alone. -/
theorem sat_zoom {get : σ → τ} {set : τ → σ → σ} {m : EStateM ε τ α} :
    Sat (zoom get set m) s Q E ↔
      Sat m (get s) (fun a t => Q a (set t s)) fun e t => E e (set t s) := by
  unfold Sat zoom
  cases m (get s) <;> exact Iff.rfl

/-! ### Loops -/

/-- **A loop** whose body is run with 0, 1, and so on. -/
def loop (body : Nat → EStateM ε σ Unit) : Nat → EStateM ε σ Unit
  | 0 => pure ()
  | n + 1 => do
    loop body n
    body n

/-- **The rule for loops**, with an invariant that may depend on how often the body has been
run. -/
theorem sat_loop {body : Nat → EStateM ε σ Unit} {I : Nat → σ → Prop} {n : Nat}
    (hbody : ∀ i s, i < n → I i s → Sat (body i) s (fun _ => I (i + 1)) E) (h : I 0 s) :
    Sat (loop body n) s (fun _ => I n) E := by
  induction n with
  | zero => exact h
  | succ n ih =>
    rw [loop, sat_bind]
    refine (ih fun i s hi => hbody i s (Nat.lt_succ_of_lt hi)).mono ?_ fun _ _ h => h
    exact fun _ s hs => hbody n s (Nat.lt_succ_self n) hs

/-! ### Two runs in lock step -/

/-- **Lock step**: both runs return the same value and their states are related by `Q`, or
both fail in the same way and their states are related by `E`. -/
def Sim (m : EStateM ε σ α) (n : EStateM ε τ α) (s : σ) (t : τ) (Q : α → σ → τ → Prop)
    (E : ε → σ → τ → Prop) : Prop :=
  match m s, n t with
  | .ok a s', .ok b t' => a = b ∧ Q a s' t'
  | .error e s', .error f t' => e = f ∧ E e s' t'
  | _, _ => False

variable {t : τ} {R : α → σ → τ → Prop} {F : ε → σ → τ → Prop}

theorem sim_pure (a : α) (h : R a s t) :
    Sim (pure a : EStateM ε σ α) (pure a : EStateM ε τ α) s t R F := ⟨rfl, h⟩

theorem sim_throw (e : ε) (h : F e s t) :
    Sim (throw e : EStateM ε σ α) (throw e : EStateM ε τ α) s t R F := ⟨rfl, h⟩

/-- **Sequencing two runs in lock step.** -/
theorem Sim.bind {m : EStateM ε σ β} {n : EStateM ε τ β} {f : β → EStateM ε σ α}
    {g : β → EStateM ε τ α} {S : β → σ → τ → Prop} (h : Sim m n s t S F)
    (hfg : ∀ b s' t', S b s' t' → Sim (f b) (g b) s' t' R F) :
    Sim (m >>= f) (n >>= g) s t R F := by
  show match EStateM.bind m f s, EStateM.bind n g t with
    | .ok a s', .ok b t' => a = b ∧ R a s' t'
    | .error e s', .error f t' => e = f ∧ F e s' t'
    | _, _ => False
  unfold EStateM.bind
  unfold Sim at h
  cases hm : m s <;> cases hn : n t <;> rw [hm, hn] at h
  · obtain ⟨rfl, h⟩ := h
    exact hfg _ _ _ h
  · exact h.elim
  · exact h.elim
  · exact h

/-- **Two runs that are each known by their outcomes** are in lock step, if no two outcomes
disagree. -/
theorem sim_of_sat {m : EStateM ε σ α} {n : EStateM ε τ α} {Q' : α → τ → Prop}
    {E' : ε → τ → Prop} (hm : Sat m s Q E) (hn : Sat n t Q' E')
    (hok : ∀ a s' b t', Q a s' → Q' b t' → a = b ∧ R a s' t')
    (herror : ∀ e s' f t', E e s' → E' f t' → e = f ∧ F e s' t')
    (hleft : ∀ a s' f t', Q a s' → ¬E' f t') (hright : ∀ e s' b t', E e s' → ¬Q' b t') :
    Sim m n s t R F := by
  unfold Sat at hm hn
  unfold Sim
  cases hms : m s <;> cases hnt : n t <;> rw [hms] at hm <;> rw [hnt] at hn
  · exact hok _ _ _ _ hm hn
  · exact hleft _ _ _ _ hm hn
  · exact hright _ _ _ _ hm hn
  · exact herror _ _ _ _ hm hn

/-- What lock step says about the first run. -/
theorem Sim.fst {m : EStateM ε σ α} {n : EStateM ε τ α} (h : Sim m n s t R F) :
    Sat m s (fun a s' => ∃ t', R a s' t') fun e s' => ∃ t', F e s' t' := by
  unfold Sim at h
  unfold Sat
  cases hm : m s <;> cases hn : n t <;> rw [hm, hn] at h
  · exact ⟨_, h.2⟩
  · exact h.elim
  · exact h.elim
  · exact ⟨_, h.2⟩

/-- Lock step, and what the first run satisfies by itself. -/
theorem Sim.and_sat {m : EStateM ε σ α} {n : EStateM ε τ α} (h : Sim m n s t R F)
    (hm : Sat m s Q E) :
    Sim m n s t (fun a s' t' => R a s' t' ∧ Q a s') fun e s' t' => F e s' t' ∧ E e s' := by
  unfold Sim Sat at *
  cases hms : m s <;> cases hnt : n t <;> rw [hms, hnt] at h <;> rw [hms] at hm
  · exact ⟨h.1, h.2, hm⟩
  · exact h.elim
  · exact h.elim
  · exact ⟨h.1, h.2, hm⟩

theorem Sim.mono {m : EStateM ε σ α} {n : EStateM ε τ α} {R' : α → σ → τ → Prop}
    {F' : ε → σ → τ → Prop} (h : Sim m n s t R F) (hR : ∀ a s' t', R a s' t' → R' a s' t')
    (hF : ∀ e s' t', F e s' t' → F' e s' t') : Sim m n s t R' F' := by
  unfold Sim at h ⊢
  cases hm : m s <;> cases hn : n t <;> rw [hm, hn] at h
  · exact ⟨h.1, hR _ _ _ h.2⟩
  · exact h.elim
  · exact h.elim
  · exact ⟨h.1, hF _ _ _ h.2⟩

end Effect
