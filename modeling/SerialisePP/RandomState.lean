import SerialisePP.SourceGenerator

/-!
# Filling a vector with random sources

A `random_state` has four engines, so that no call has to wait for the number before. Its
`generate` calls a function a number of times, on one engine after the other, and saves the
counter: the loop makes four calls in each turn, and a `switch` jumps into the middle of the
first one for what is not a multiple of four.

`random_vector_generate` gives it one of two functions. One appends to a vector that has been
cleared; the other assigns to the elements of a vector that has been resized before, and of
which there have to be enough. Both leave the same in the vector, one result for each call
(`SerialisePP.Filling.randomVectorGenerate_eq`).
-/

namespace SerialisePP

open Effect

/-! ### Four engines in turn -/

/-- **`random_state`**: the states of its engines. -/
structure RandomState where
  /-- `_engines`. -/
  engines : Fin 4 → UInt64

namespace RandomState

section Loop

variable {σ : Type} (call : Fin 4 → EStateM Failure σ Unit)

/-- The `while` loop of `generate`, with four calls in each turn. -/
def turns (count i : ℕ) : EStateM Failure σ Unit :=
  if i < count then do
    forM [0, 1, 2, 3] call
    turns count (i + 4)
  else
    pure ()
termination_by count - i

/-- **`generate(count, generator)`**: a jump into the loop, where all labels fall through to the
next one. -/
def generate (count : ℕ) : EStateM Failure σ Unit :=
  match count % 4 with
  | 0 => turns call count 0
  | 3 => do
    forM [1, 2, 3] call
    turns call count 3
  | 2 => do
    forM [2, 3] call
    turns call count 2
  | _ => do
    forM [3] call
    turns call count 1

/-- **The engines in turn**, so that the last one comes last. -/
def order (count : ℕ) : List (Fin 4) :=
  (List.range count).map fun i => Fin.ofNat 4 (i + 3 * count)

theorem length_order (count : ℕ) : (order count).length = count := by
  rw [order, List.length_map, List.length_range]

/-- Four more calls go round once. -/
theorem order_add_four (count : ℕ) : order (count + 4) = order count ++ [0, 1, 2, 3] := by
  rw [order, List.range_add, List.map_append]
  congr 1
  · refine List.map_congr_left fun i _ => Fin.ext ?_
    show (i + 3 * (count + 4)) % 4 = (i + 3 * count) % 4
    omega
  · rw [List.map_map]
    refine List.map_congr_left (g := Fin.ofNat 4) fun i _ => Fin.ext ?_
    show (count + i + 3 * (count + 4)) % 4 = i % 4
    omega

/-- The turns of the loop, if it has been entered with a multiple of four to go. -/
theorem turns_eq (k i : ℕ) :
    turns call (i + 4 * k) i = forM (List.replicate k [0, 1, 2, 3]).flatten call := by
  induction k generalizing i with
  | zero =>
    rw [turns, if_neg (by omega)]
    rfl
  | succ k ih =>
    have hcount : i + 4 * (k + 1) = i + 4 + 4 * k := by omega
    rw [turns, if_pos (by omega), hcount, ih, List.replicate_succ, List.flatten_cons,
      List.forM_append]

theorem order_eq (k r : ℕ) :
    order (r + 4 * k) = order r ++ (List.replicate k [0, 1, 2, 3]).flatten := by
  induction k with
  | zero => exact (List.append_nil _).symm
  | succ k ih =>
    rw [Nat.mul_succ, ← Nat.add_assoc, order_add_four, ih, List.replicate_succ',
      List.flatten_append, List.flatten_singleton, List.append_assoc]

/-- **The loop is a plain one**: wherever it is entered, it makes as many calls as were asked
for, on the engines in turn. -/
theorem generate_eq (count : ℕ) : generate call count = forM (order count) call := by
  have henter : ∀ r, count % 4 = r →
      (do forM (order r) call; turns call count r) = forM (order count) call := by
    rintro r rfl
    have hcount : count = count % 4 + 4 * (count / 4) := (Nat.mod_add_div count 4).symm
    have hturns := turns_eq call (count / 4) (count % 4)
    rw [← hcount] at hturns
    have horder := order_eq (count / 4) (count % 4)
    rw [← hcount] at horder
    rw [horder, List.forM_append, hturns]
  have hlt : count % 4 < 4 := Nat.mod_lt _ (by decide)
  unfold generate
  rcases hmod : count % 4 with _ | _ | _ | _ | n
  · exact henter 0 hmod
  · exact henter 1 hmod
  · exact henter 2 hmod
  · exact henter 3 hmod
  · omega

end Loop

/-! ### The results of the calls -/

section Draws

variable {σ α : Type} (generator : Fin 4 → EStateM Failure σ α)

/-- **The results of calls** on some engines, one after the other. The generator is a program for
each engine that it is called on; all that it reads and changes besides is in the state as well. -/
def draws : List (Fin 4) → EStateM Failure σ (List α)
  | [] => pure []
  | k :: ks => do
    let x ← generator k
    let xs ← draws ks
    pure (x :: xs)

theorem draws_append (ks ks' : List (Fin 4)) : draws generator (ks ++ ks') = (do
    let xs ← draws generator ks
    let ys ← draws generator ks'
    pure (xs ++ ys)) := by
  induction ks with
  | nil => simp [draws]
  | cons k ks ih => simp [draws, ih]

variable {generator} {Q : α → Prop} {E : Failure → Prop}

/-- There is one result for each call. -/
theorem sat_draws (h : ∀ k s, Sat (generator k) s (fun x _ => Q x) fun e _ => E e)
    (ks : List (Fin 4)) (s : σ) :
    Sat (draws generator ks) s (fun xs _ => xs.length = ks.length ∧ ∀ x ∈ xs, Q x)
      fun e _ => E e := by
  induction ks generalizing s with
  | nil => exact ⟨rfl, fun _ hx => absurd hx List.not_mem_nil⟩
  | cons k ks ih =>
    rw [draws, sat_bind]
    refine (h k s).mono (fun x s₁ hx => ?_) fun _ _ h => h
    rw [sat_bind]
    refine (ih s₁).mono (fun xs _ hxs => ?_) fun _ _ h => h
    exact ⟨congrArg (· + 1) hxs.1, List.forall_mem_cons.mpr ⟨hx, hxs.2⟩⟩

end Draws

/-- A call of a generator that works on an engine and on nothing else. -/
def draw {α : Type} (generator : Gen α) (k : Fin 4) : EStateM Failure RandomState α :=
  zoom (fun s => s.engines k) (fun engine s => ⟨Function.update s.engines k engine⟩) generator

theorem sat_draw {α : Type} {generator : Gen α} {Q : α → Prop} {E : Failure → Prop}
    (h : ∀ s, Sat generator s (fun x _ => Q x) fun e _ => E e) (k : Fin 4) (s : RandomState) :
    Sat (draw generator k) s (fun x _ => Q x) fun e _ => E e := sat_zoom.mpr (h (s.engines k))

end RandomState

/-! ### Filling a vector -/

/-- **What `random_vector_generate` works on.** -/
structure Filling (σ α : Type) where
  /-- `random`, and whatever else the generator refers to. -/
  state : σ
  /-- `vec`. -/
  vec : List α
  /-- `i`, which counts the assignments. -/
  i : ℕ

namespace Filling

open RandomState

variable {σ α : Type} (generator : Fin 4 → EStateM Failure σ α)

/-- A call of the generator on an engine. -/
def onEngine (k : Fin 4) : EStateM Failure (Filling σ α) α :=
  zoom Filling.state (fun state s => { s with state := state }) (generator k)

/-- `vec.push_back(generator(random_engine))`. -/
def pushBack (k : Fin 4) : EStateM Failure (Filling σ α) Unit := do
  let x ← onEngine generator k
  modify fun s => { s with vec := s.vec ++ [x] }

/-- `vec[i] = generator(random_engine); ++i`. -/
def assign (k : Fin 4) : EStateM Failure (Filling σ α) Unit := do
  let x ← onEngine generator k
  let s ← get
  if s.i < s.vec.length then
    set { s with vec := s.vec.set s.i x, i := s.i + 1 }
  else
    throw .undefined

/-- **`random_vector_generate(random, vec, count, generator)`**, with assignments if there is a
value for the elements that `resize` adds. -/
def randomVectorGenerate (resized : Option α) (count : ℕ) : EStateM Failure (Filling σ α) Unit :=
  match resized with
  | some x => do
    modify fun s => { s with vec := s.vec.takeD count x, i := 0 }
    RandomState.generate (assign generator) count
  | none => do
    modify fun s => { s with vec := [] }
    RandomState.generate (pushBack generator) count

variable {generator}

theorem sat_onEngine (k : Fin 4) (s : Filling σ α) :
    Sat (onEngine generator k) s
      (fun x s' => generator k s.state = .ok x s'.state ∧ s'.vec = s.vec ∧ s'.i = s.i)
      fun e s' => generator k s.state = .error e s'.state :=
  sat_zoom.mpr ((sat_self _ _).mono (fun _ _ h => ⟨h, rfl, rfl⟩) fun _ _ h => h)

/-- **A loop whose steps each keep one result** keeps all of them. In `R`, there are so many to
come. -/
theorem sat_forM {call : Fin 4 → EStateM Failure (Filling σ α) Unit}
    {R : List α → ℕ → Filling σ α → Prop}
    (hcall : ∀ k kept n s, R kept (n + 1) s → Sat (call k) s
      (fun _ s' => ∃ x, generator k s.state = .ok x s'.state ∧ R (kept ++ [x]) n s')
      fun e s' => generator k s.state = .error e s'.state)
    (ks : List (Fin 4)) (kept : List α) {s : Filling σ α} (hs : R kept ks.length s) :
    Sat (forM ks call) s
      (fun _ s' => ∃ xs, draws generator ks s.state = .ok xs s'.state ∧ R (kept ++ xs) 0 s')
      fun e s' => draws generator ks s.state = .error e s'.state := by
  induction ks generalizing kept s with
  | nil => exact ⟨[], rfl, (List.append_nil kept).symm ▸ hs⟩
  | cons k ks ih =>
    rw [List.forM_cons, sat_bind]
    refine (hcall k kept _ s hs).mono ?_ ?_
    · rintro - s₁ ⟨x, hx, hs₁⟩
      refine (ih _ hs₁).mono ?_ ?_
      · rintro - s' ⟨xs, hxs, hs'⟩
        refine ⟨x :: xs, ?_, ?_⟩
        · rw [draws, bind_ok hx, bind_ok hxs]
          rfl
        · rwa [List.append_assoc] at hs'
      · intro e s' he
        rw [draws, bind_ok hx, bind_error he]
    · intro e s' he
      rw [draws, bind_error he]

/-- **Both ways of filling a vector** leave the results of the calls in it. -/
theorem sat_randomVectorGenerate (resized : Option α) (count : ℕ) (s : Filling σ α) :
    Sat (randomVectorGenerate generator resized count) s
      (fun _ s' => draws generator (order count) s.state = .ok s'.vec s'.state)
      fun e s' => draws generator (order count) s.state = .error e s'.state := by
  cases resized with
  | none =>
    rw [randomVectorGenerate, sat_bind, sat_modify, generate_eq]
    refine (sat_forM (R := fun kept _ s => s.vec = kept) ?_ (order count) [] rfl).mono ?_
      fun _ _ h => h
    · rintro k kept - s rfl
      rw [pushBack, sat_bind]
      refine (sat_onEngine k s).mono ?_ fun _ _ h => h
      rintro x s' ⟨hx, hvec, -⟩
      exact ⟨x, hx, congrArg (· ++ [x]) hvec⟩
    · rintro - s' ⟨xs, hxs, hvec⟩
      rwa [hvec]
  | some y =>
    rw [randomVectorGenerate, sat_bind, sat_modify, generate_eq]
    -- the elements that are kept are in front, and there are enough after them
    refine (sat_forM (R := fun kept n s => s.i = kept.length ∧
      ∃ rest : List α, rest.length = n ∧ s.vec = kept ++ rest) ?_ (order count) []
        ⟨rfl, _, ?_, rfl⟩).mono ?_ fun _ _ h => h
    · rintro k kept n s ⟨hi, rest, hrest, hvec⟩
      rw [assign, sat_bind]
      refine (sat_onEngine k s).mono ?_ fun _ _ h => h
      rintro x s' ⟨hx, hvec', hi'⟩
      cases rest with
      | nil => contradiction
      | cons y rest =>
        rw [sat_bind, sat_get, hvec', hvec, hi', hi, if_pos (by simp)]
        refine ⟨x, hx, by simp, rest, Nat.succ.inj hrest, ?_⟩
        simp
    · rw [length_order]
      exact List.takeD_length ..
    · rintro - s' ⟨xs, hxs, -, rest, hrest, hvec⟩
      obtain rfl := List.eq_nil_of_length_eq_zero hrest
      rw [List.append_nil] at hvec
      rwa [hvec]

/-- What is left of a run, other than `i` and what is in the vector after a failure. -/
def results : EStateM.Result Failure (Filling σ α) Unit →
    EStateM.Result Failure σ (List α)
  | .ok _ s => .ok s.vec s.state
  | .error e s => .error e s.state

/-- **Both branches of `random_vector_generate` do the same**, for any generator, whatever was in
the vector and wherever the loop is entered: they leave exactly one result for each call that was
asked for, from the engines in turn, and no assignment is out of bounds unless the generator
does that. -/
theorem randomVectorGenerate_eq (resized : Option α) (count : ℕ) (s : Filling σ α) :
    results (randomVectorGenerate generator resized count s) =
        draws generator (order count) s.state ∧
      ∀ xs state, draws generator (order count) s.state = .ok xs state →
        xs.length = count := by
  constructor
  · have h := @sat_randomVectorGenerate _ _ generator resized count s
    unfold Sat at h
    cases hrun : randomVectorGenerate generator resized count s with
    | ok _ s' =>
      rw [hrun] at h
      exact h.symm
    | error e s' =>
      rw [hrun] at h
      exact h.symm
  · intro xs state hdraws
    have h := (sat_draws (fun k s => sat_true (generator k) s) (order count) s.state).ok hdraws
    exact h.1.trans (length_order count)

end Filling

end SerialisePP
