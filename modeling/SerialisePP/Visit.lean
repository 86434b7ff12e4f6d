import SerialisePP.Accessors

/-!
# Visiting a variant

`visit` is a recursion over the alternatives that compares the index it has read with each in
turn, calls the visitor at the first that matches – and, if none does, at the last. This file
computes what it does for every index and every visitor, and compares it with `get`.

If the index names an alternative, `visit` is a call of the visitor on what `get` returns for
that index (`SerialisePP.Visitor.visit_of_lt`). Otherwise it depends on the build:
`SerialisePP.Visitor.visit_of_le`. Either way an exception on the way to the visitor leaves
`visit` only if `visit` is not `noexcept`, which is the case if and only if some call of the
visitor may throw.
-/

namespace SerialisePP

open Deserialiser

variable {P : Platform} {σ R : Type}

namespace Visitor

/-! ### `noexcept` functions -/

theorem boundary_boundary (b : Bool) (m : EStateM Failure σ R) :
    boundary b (boundary b m) = boundary b m := by
  funext s
  unfold boundary
  cases m s with
  | ok a s' => rfl
  | error e s' =>
    cases e with
    | thrown x => cases b <;> rfl
    | assertFailed => rfl
    | terminated => rfl
    | undefined => rfl
    | illFormed => rfl

@[simp] theorem boundary_false (m : EStateM Failure σ R) : boundary false m = m := by
  funext s
  unfold boundary
  cases m s with
  | ok a s' => rfl
  | error e s' => cases e <;> rfl

/-- An exception at a boundary. -/
theorem boundary_thrown {b : Bool} {m : EStateM Failure σ R} {s s' : σ} {x : Exn}
    (h : m s = .error (.thrown x) s') :
    boundary b m s = .error (if b then .terminated else .thrown x) s' := by
  unfold boundary
  rw [h]

/-- What is not an exception passes. -/
theorem boundary_of_not_thrown {b : Bool} {m : EStateM Failure σ R} {s : σ}
    (h : Effect.Sat m s (fun _ _ => True) fun e _ => ∀ x, e ≠ .thrown x) :
    boundary b m s = m s := by
  unfold Effect.Sat at h
  unfold boundary
  cases hm : m s with
  | ok a s' => rfl
  | error e s' =>
    rw [hm] at h
    cases e with
    | thrown x => exact absurd rfl (h x)
    | assertFailed => rfl
    | terminated => rfl
    | undefined => rfl
    | illFormed => rfl

theorem nothrow_of_nothrowAll (visitor : Visitor σ R) : ∀ (ts : TypeList) (i : ℕ) (t : Ty),
    visitor.nothrowAll ts = true → ts.element i = some t → visitor.nothrow t = true
  | .nil, _, _, _, h => nomatch h
  | .cons _ t ts, 0, u, hall, h => by
    obtain rfl : t = u := Option.some.inj h
    exact (Bool.and_eq_true_iff.mp hall).1
  | .cons _ t ts, i + 1, u, hall, h =>
    nothrow_of_nothrowAll visitor ts i u (Bool.and_eq_true_iff.mp hall).2 h

/-! ### The dispatch -/

variable {ts : TypeList} {d : Deserialiser (.variant ts)} {visitor : Visitor σ R}

/-- A call of the visitor on an alternative. -/
def callOn (P : Platform) (d : Deserialiser (.variant ts)) (visitor : Visitor σ R) (i : ℕ) :
    EStateM Failure σ R := boundary (visitor.nothrowAll ts) do
  let x ← lift (d.getAlternative P i)
  visitor.call x

theorem lift_ok {α β : Type} (a : α) (f : α → EStateM Failure σ β) :
    (lift (.ok a) >>= f) = f a := rfl

/-- **The dispatch finds the alternative** the index names, among those not yet passed. -/
theorem visitFrom_of_lt {index : ℕ} (hindex : index < ts.length) :
    ∀ (rest : TypeList) (i : ℕ), i + rest.length = ts.length → i ≤ index →
      visitFrom P d visitor rest i index = callOn P d visitor index
  | .nil, i, hlen, hi => absurd (hlen.symm.trans_le hi) (not_le.mpr hindex)
  | .cons _ _ .nil, i, hlen, hi => by
    -- the last one left has to be it
    obtain rfl : i = index := by
      have : i + 1 = ts.length := hlen
      omega
    rw [visitFrom, check_of_true (decide_eq_true hindex), lift_ok, if_neg (not_not.mpr rfl)]
    rfl
  | .cons _ _ (.cons name t rest), i, hlen, hi => by
    rw [visitFrom, check_of_true (decide_eq_true hindex), lift_ok]
    by_cases he : i = index
    · obtain rfl := he
      rw [if_neg (not_not.mpr rfl)]
      rfl
    · have hlen' : i + 1 + (TypeList.cons name t rest).length = ts.length :=
        (Nat.add_right_comm i 1 _).trans hlen
      rw [if_pos he, visitFrom_of_lt hindex (.cons name t rest) (i + 1) hlen' (by omega), callOn,
        boundary_boundary]

/-- **The dispatch falls through** to the last alternative if the index names none. -/
theorem visitFrom_of_le {index : ℕ} (hindex : ts.length ≤ index) (hP : P.assertions = false) :
    ∀ (rest : TypeList) (i : ℕ), rest.length ≠ 0 → i + rest.length = ts.length →
      visitFrom P d visitor rest i index = callOn P d visitor (ts.length - 1)
  | .nil, i, hne, _ => absurd rfl hne
  | .cons _ _ .nil, i, _, hlen => by
    have hi : i = ts.length - 1 := by
      have : i + 1 = ts.length := hlen
      omega
    have hcheck : ∀ c, check P c = .ok () := by
      intro c
      rw [check, hP, Bool.false_and]
      rfl
    rw [visitFrom, hcheck, lift_ok, if_pos (by omega), hcheck, hi]
    rfl
  | .cons _ _ (.cons name t rest), i, _, hlen => by
    have hcheck : check P (index < ts.length) = .ok () := by
      rw [check, hP, Bool.false_and]
      rfl
    have hlen' : i + 1 + (TypeList.cons name t rest).length = ts.length :=
      (Nat.add_right_comm i 1 _).trans hlen
    -- the index is beyond this one, and beyond the last as well
    have hne : i ≠ index := by omega
    rw [visitFrom, hcheck, lift_ok, if_pos hne,
      visitFrom_of_le hindex hP (.cons name t rest) (i + 1) (Nat.succ_ne_zero _) hlen', callOn,
      boundary_boundary]

/-- **`visit`, if the index names an alternative**: a call on that alternative. -/
theorem visit_of_lt (hd : d.Valid P) (h : numberAt d.buffer d.fixedOffset 2 < ts.length) :
    visit P d visitor = callOn P d visitor (numberAt d.buffer d.fixedOffset 2) := by
  rw [visit, index_eq hd (by omega), lift_ok,
    visitFrom_of_lt h ts 0 (Nat.zero_add _) (Nat.zero_le _), callOn, boundary_boundary]

/-- **`visit`, if the index names no alternative**: with assertions one fails, and without them
it is a call on the last alternative. -/
theorem visit_of_le (hd : d.Valid P) (hts : ts.length ≠ 0)
    (h : ts.length ≤ numberAt d.buffer d.fixedOffset 2) :
    visit P d visitor = if P.assertions then throw .assertFailed
      else callOn P d visitor (ts.length - 1) := by
  rw [visit, index_eq hd hts, lift_ok]
  split_ifs with hP
  · have hcheck : check P (numberAt d.buffer d.fixedOffset 2 < ts.length) =
        .error .assertFailed := by
      rw [check, hP, decide_eq_false (not_lt.mpr h)]
      rfl
    cases ts with
    | nil => exact absurd rfl hts
    | cons name t rest =>
      cases rest with
      | nil =>
        rw [visitFrom, hcheck]
        rfl
      | cons name' t' rest =>
        rw [visitFrom, hcheck]
        rfl
  · rw [visitFrom_of_le h (Bool.eq_false_of_not_eq_true hP) ts 0 hts (Nat.zero_add _), callOn,
      boundary_boundary]

/-- A call on an alternative that can be deserialised: a call of the visitor. -/
theorem callOn_of_ok {i : ℕ} {t : Ty} {x : t.Deserialised} (ht : ts.element i = some t)
    (hx : d.getAlternative P i = .ok ⟨t, x⟩) : callOn P d visitor i = visitor.call ⟨t, x⟩ := by
  funext s
  rw [callOn, hx, lift_ok]
  by_cases hnothrow : visitor.nothrowAll ts = true
  · refine boundary_of_not_thrown (visitor.nothrow_call ⟨t, x⟩ s ?_)
    exact nothrow_of_nothrowAll visitor ts i t hnothrow ht
  · rw [Bool.eq_false_of_not_eq_true hnothrow, boundary_false]

/-- A call on an alternative that cannot be deserialised: the visitor is not called. -/
theorem callOn_of_error {i : ℕ} {x : Exn} (hx : d.getAlternative P i = .error (.thrown x))
    (s : σ) : callOn P d visitor i s =
      .error (if visitor.nothrowAll ts then .terminated else .thrown x) s := by
  rw [callOn, hx]
  exact boundary_thrown rfl

/-! ### What `visit` should do -/

/-- A call that is recorded. -/
def callRecorded (visitor : Visitor σ R) (x : Object) : EStateM Failure (List Object × σ) R :=
  fun c =>
    match visitor.call x c.2 with
    | .ok r s => .ok r (c.1 ++ [x], s)
    | .error e s => .error e (c.1 ++ [x], s)

/-- A recorded call fails as the call does. -/
theorem sat_callRecorded {visitor : Visitor σ R} {x : Object} {c : List Object × σ}
    {E : Failure → Prop}
    (h : Effect.Sat (visitor.call x) c.2 (fun _ _ => True) fun e _ => E e) :
    Effect.Sat (visitor.callRecorded x) c (fun _ _ => True) fun e _ => E e := by
  unfold Effect.Sat at h ⊢
  unfold callRecorded
  cases hrun : visitor.call x c.2 with
  | ok r s => exact trivial
  | error e s =>
    rw [hrun] at h
    exact h

/-- **A visitor that keeps a record of its calls**, and does what the visitor does. -/
def recorded (visitor : Visitor σ R) : Visitor (List Object × σ) R where
  call := visitor.callRecorded
  nothrow := visitor.nothrow
  nothrow_call x c hx := sat_callRecorded (visitor.nothrow_call x c.2 hx)

theorem nothrowAll_recorded (visitor : Visitor σ R) (ts : TypeList) :
    visitor.recorded.nothrowAll ts = visitor.nothrowAll ts := by
  cases ts with
  | nil => rfl
  | cons name t ts => exact congrArg (visitor.nothrow t && ·) (nothrowAll_recorded visitor ts)

/-- The index that a variant stores. -/
def storedIndex (d : Deserialiser (.variant ts)) : ℕ := numberAt d.buffer d.fixedOffset 2

/-- The offset that a variant stores. -/
def storedOffset (d : Deserialiser (.variant ts)) : ℕ := numberAt d.buffer (d.fixedOffset + 2) 4

/-- **A variant whose value is there**: the index names an alternative, and the fixed data of
that alternative is in bounds. -/
def Contained (P : Platform) (d : Deserialiser (.variant ts)) : Prop :=
  ∃ t, ts.element (storedIndex d) = some t ∧
    storedOffset d + fixedDataSize P t ≤ d.buffer.length

/-- **A visit never confuses alternatives**: if the value is there, the visitor is called once,
on what `get` returns for the index; otherwise an exception is thrown, the visitor is not
called, and `get` throws for every index. -/
structure VisitSafe (P : Platform) (d : Deserialiser (.variant ts)) (visitor : Visitor σ R)
    (s : σ) : Prop where
  visits : Contained P d → ∃ x, d.get P (storedIndex d) = .ok x ∧
    visit P d visitor.recorded ([], s) = visitor.recorded.call x ([], s)
  throws : ¬Contained P d →
    (∃ e, visit P d visitor.recorded ([], s) = .error (.thrown e) ([], s)) ∧
      ∀ i < ts.length, ∃ e, d.get P i = .error (.thrown e)

/-- What `get` and `visit` go by, if the value is there. -/
theorem getAlternative_of_contained (hd : d.Valid P) (hts : ts.wellFormed = true)
    (h : Contained P d) :
    ∃ t x, ts.element (storedIndex d) = some t ∧
      d.getAlternative P (storedIndex d) = .ok ⟨t, x⟩ := by
  obtain ⟨t, ht, hin⟩ := h
  obtain ⟨x, hx⟩ := deserialise_of_check hd.length_lt (ts.wellFormed_element _ t hts ht) hin
  refine ⟨t, x, ht, (getAlternative_eq hd _).trans ?_⟩
  rw [ht]
  exact bind_of_ok hx _

/-- And if it is not, although the index names an alternative. -/
theorem getAlternative_of_not_contained (hd : d.Valid P) (hi : storedIndex d < ts.length)
    (h : ¬Contained P d) : ∃ e, d.getAlternative P (storedIndex d) = .error (.thrown e) := by
  obtain ⟨t, ht⟩ := ts.exists_element _ hi
  have hout : ¬storedOffset d + fixedDataSize P t ≤ d.buffer.length := fun hin => h ⟨t, ht, hin⟩
  rw [getAlternative_eq hd, ht]
  exact ⟨_, bind_of_error (deserialise_of_not_check hout) _⟩

theorem visitSafe_of_contained (hd : d.Valid P) (hts : ts.wellFormed = true)
    (h : Contained P d) (s : σ) : VisitSafe P d visitor s := by
  refine ⟨fun _ => ?_, fun hnot => absurd h hnot⟩
  obtain ⟨t, x, ht, hx⟩ := getAlternative_of_contained hd hts h
  have hi : storedIndex d < ts.length := ts.lt_length_of_element _ t ht
  refine ⟨⟨t, x⟩, ?_, ?_⟩
  · exact (get_eq hd hi).trans ((if_pos rfl).trans ((getAlternative_eq hd _).symm.trans hx))
  · rw [visit_of_lt hd hi]
    exact congrFun (callOn_of_ok ht hx) _

theorem visitSafe_of_throws (hd : d.Valid P) (hi : storedIndex d < ts.length)
    (h : ¬Contained P d) (hvisitor : visitor.nothrowAll ts = false) (s : σ) :
    VisitSafe P d visitor s := by
  refine ⟨fun hc => absurd hc h, fun _ => ⟨?_, fun i hin => ?_⟩⟩
  · obtain ⟨e, he⟩ := getAlternative_of_not_contained hd hi h
    refine ⟨e, ?_⟩
    have hcall := @callOn_of_error P _ _ ts d visitor.recorded _ e he ([], s)
    rw [nothrowAll_recorded, hvisitor] at hcall
    rw [visit_of_lt hd hi]
    exact hcall
  · by_cases he : i = storedIndex d
    · subst he
      obtain ⟨e, he⟩ := getAlternative_of_not_contained hd hi h
      refine ⟨e, (get_eq hd hin).trans ((if_pos rfl).trans ?_)⟩
      exact (getAlternative_eq hd _).symm.trans he
    · exact ⟨_, (get_eq hd hin).trans (if_neg he)⟩

/-- A variant that has been deserialised. -/
theorem variant_valid {mem : List UInt8} {offset : ℕ} (hlen : mem.length < P.sizeRange)
    (hd : deserialise P (.variant ts) mem offset = .ok d) : d.Valid P := by
  have hsize : (Ty.variant ts).size < P.sizeRange :=
    (by decide : 6 < 2 ^ 32).trans_le Platform.two_pow_32_le_sizeRange
  rw [deserialise_eq hlen hsize] at hd
  split_ifs at hd with hin
  obtain rfl := Except.ok.inj hd
  exact ⟨hlen, hin⟩

/-- **When visiting is safe**, in both builds: if and only if the index names an alternative,
and either its fixed data is in bounds or `visit` is not `noexcept`. -/
theorem visit_safe_iff {mem : List UInt8} {offset : ℕ} (hlen : mem.length < P.sizeRange)
    (hts : (Ty.variant ts).wellFormed = true) (hne : ts.length ≠ 0)
    (hd : deserialise P (.variant ts) mem offset = .ok d) (visitor : Visitor σ R) (s : σ) :
    (∀ assertions, VisitSafe (P.withAssertions assertions) d visitor s) ↔
      storedIndex d < ts.length ∧ (visitor.nothrowAll ts = true → Contained P d) := by
  have hvalid : ∀ assertions, d.Valid (P.withAssertions assertions) := by
    intro assertions
    obtain ⟨hlen, hin⟩ := variant_valid hlen hd
    exact ⟨hlen, hin⟩
  have hcontained : ∀ assertions, Contained (P.withAssertions assertions) d ↔ Contained P d := by
    intro assertions
    simp only [Contained, fixedDataSize_withAssertions]
  have hwf : ts.wellFormed = true := (Bool.and_eq_true_iff.mp hts).2
  constructor
  · intro h
    have hi : storedIndex d < ts.length := by
      by_contra hi
      have hnot : ¬Contained (P.withAssertions true) d := by
        rintro ⟨t, ht, -⟩
        exact hi (ts.lt_length_of_element _ t ht)
      -- in the build with assertions, one fails instead of the exception
      obtain ⟨⟨e, he⟩, -⟩ := (h true).throws hnot
      rw [visit_of_le (hvalid true) hne (not_lt.mp hi)] at he
      cases he
    refine ⟨hi, fun hvisitor => ?_⟩
    by_contra hnot
    obtain ⟨⟨e, he⟩, -⟩ := (h true).throws ((hcontained true).not.mpr hnot)
    -- the exception would leave a function declared not to throw
    obtain ⟨x, hx⟩ := getAlternative_of_not_contained (hvalid true) hi
      ((hcontained true).not.mpr hnot)
    rw [visit_of_lt (hvalid true) hi] at he
    have hcall := @callOn_of_error _ _ _ ts d visitor.recorded _ x hx ([], s)
    rw [nothrowAll_recorded, hvisitor] at hcall
    cases he.symm.trans hcall
  · rintro ⟨hi, h⟩ assertions
    by_cases hc : Contained P d
    · exact visitSafe_of_contained (hvalid assertions) hwf ((hcontained assertions).mpr hc) s
    · refine visitSafe_of_throws (hvalid assertions) hi ((hcontained assertions).not.mpr hc) ?_ s
      exact Bool.eq_false_of_not_eq_true fun hvisitor => hc (h hvisitor)

/-- A visitor that has nothing to do, and is declared not to throw or not. -/
def idle (nothrow : Bool) : Visitor Unit Unit where
  call _ := pure ()
  nothrow _ := nothrow
  nothrow_call _ _ _ := trivial

/-- A variant that holds its second alternative. -/
theorem visit_safe_second :
    let ts : TypeList := .ofTypes [.unsigned 1, .unsigned 2]
    let d : Deserialiser (.variant ts) := ⟨[1, 0, 6, 0, 0, 0, 5, 1], 0⟩
    ∀ assertions, VisitSafe (Platform.x64.withAssertions assertions) d (idle true) () := by
  intro ts d
  have hd : deserialise .x64 (.variant ts) d.buffer 0 = .ok d := rfl
  refine (visit_safe_iff (by decide) (by decide) (by decide) hd (idle true) ()).mpr ⟨by decide, ?_⟩
  exact fun _ => ⟨.unsigned 2, rfl, by decide⟩

/-- **An index that names no alternative**: with assertions one fails, and without them the
last alternative is visited. -/
theorem visit_confuses_alternatives :
    let ts : TypeList := .ofTypes [.unsigned 1, .unsigned 2]
    let d : Deserialiser (.variant ts) := ⟨[2, 0, 0, 0, 0, 0], 0⟩
    deserialise .x64 (.variant ts) d.buffer 0 = .ok d ∧
      ∀ assertions, ¬VisitSafe (Platform.x64.withAssertions assertions) d (idle false) () := by
  intro ts d
  have hd : deserialise .x64 (.variant ts) d.buffer 0 = .ok d := rfl
  refine ⟨hd, fun assertions h => ?_⟩
  have hnot : ¬Contained (Platform.x64.withAssertions assertions) d := by
    rintro ⟨t, ht, -⟩
    exact absurd ht nofun
  obtain ⟨⟨e, he⟩, -⟩ := h.throws hnot
  cases assertions with
  | true => exact absurd he nofun
  | false => exact absurd he nofun

end Visitor

end SerialisePP
