import SerialisePP.Safety

/-!
# Exceptions at `noexcept` functions

Bytes are decoded inside of two functions that are, or may be, `noexcept`: the conversion of a
record to one of its bases, and `visit`. An exception that would leave such a function terminates
the program.

The conversion never throws (`SerialisePP.Deserialiser.toBase_ok`): the fixed section of a base is
no larger than that of the record, which has been checked, even if both sizes have wrapped around.
`visit` does throw, if the alternative it visits is out of bounds, and it is `noexcept` whenever no
call of the visitor can throw. `SerialisePP.boundaries_iff` says when the exception is reported.
-/

namespace SerialisePP

open Deserialiser

variable {P : Platform} {σ R : Type}

/-! ### The conversion to a base -/

namespace Deserialiser

/-- **The conversion to a base never throws**, if the source is well-formed. -/
theorem toBase_ok {mem : List UInt8} {offset : ℕ} (hlen : mem.length < P.sizeRange)
    {fs : TypeList} {bases : List ℕ} (ht : (Ty.record fs bases).wellFormed = true)
    {d : Deserialiser (.record fs bases)} (hd : deserialise P (.record fs bases) mem offset = .ok d)
    {i : ℕ} (h : d.toBase P i ≠ .error .illFormed) : ∃ x, d.toBase P i = .ok x := by
  obtain ⟨hcheck, rfl⟩ := deserialise_record_iff.mp hd
  unfold toBase at h ⊢
  split at h
  · rename_i n rest hbase
    dsimp only at h ⊢
    by_cases hstatic : fixedDataSize P (.record (fs.take n) rest) ≤
        fixedDataSize P (.record fs bases)
    · have hwf : (Ty.record (fs.take n) rest).wellFormed = true := by
        obtain ⟨hunique, hfs⟩ := Bool.and_eq_true_iff.mp ht
        exact Bool.and_eq_true_iff.mpr
          ⟨fs.allFieldsUnique_take n hunique, fs.wellFormed_take n hfs⟩
      obtain ⟨x, hx⟩ := deserialise_of_check hlen hwf
        ((Nat.add_le_add_left hstatic offset).trans hcheck)
      have hobject : deserialiseObject P mem offset (some (.record (fs.take n) rest)) =
          .ok ⟨_, x⟩ := bind_of_ok hx _
      exact ⟨⟨_, x⟩, by rw [if_pos hstatic, hobject]; rfl⟩
    · exact absurd (if_neg hstatic) h
  · exact absurd rfl h

end Deserialiser

/-! ### `visit` -/

namespace Visitor

variable {ts : TypeList} {d : Deserialiser (.variant ts)} {visitor : Visitor σ R}

/-- **`visit`**, for any variant: there is nothing to do for a `variant<>`. -/
def visitAny (P : Platform) (d : Deserialiser (.variant ts)) (visitor : Visitor σ R) :
    EStateM Failure σ (Option R) :=
  if ts.length = 0 then pure none else some <$> visit P d visitor

/-- The same visitor, with none of its calls declared not to throw. -/
def throwing (visitor : Visitor σ R) : Visitor σ R where
  call := visitor.call
  nothrow _ := false
  nothrow_call _ _ h := absurd h Bool.false_ne_true

theorem nothrowAll_throwing (visitor : Visitor σ R) {ts : TypeList} (hts : ts.length ≠ 0) :
    visitor.throwing.nothrowAll ts = false := by
  cases ts with
  | nil => exact absurd rfl hts
  | cons name t ts => rfl

/-- **The alternative that is visited**: the one that the index names, or else, without
assertions, the last. -/
def visitedIndex (P : Platform) (d : Deserialiser (.variant ts)) : Option ℕ :=
  if storedIndex d < ts.length then some (storedIndex d)
  else if P.assertions then none
  else some (ts.length - 1)

/-- **The value is out of bounds**: an alternative is visited whose fixed data does not lie in the
buffer. -/
def OutOfBounds (P : Platform) (d : Deserialiser (.variant ts)) : Prop :=
  ∃ i t, visitedIndex P d = some i ∧ ts.element i = some t ∧
    ¬storedOffset d + fixedDataSize P t ≤ d.buffer.length

theorem visitedIndex_lt (hts : ts.length ≠ 0) {i : ℕ} (h : visitedIndex P d = some i) :
    i < ts.length := by
  unfold visitedIndex at h
  split_ifs at h with hi
  · obtain rfl := Option.some.inj h
    exact hi
  · obtain rfl := Option.some.inj h
    omega

/-- **`visit` is a call on the alternative that is visited.** -/
theorem visit_of_visited (hd : d.Valid P) (hts : ts.length ≠ 0) {i : ℕ}
    (h : visitedIndex P d = some i) (visitor : Visitor σ R) :
    visit P d visitor = callOn P d visitor i := by
  unfold visitedIndex at h
  split_ifs at h with hi hassert
  · obtain rfl := Option.some.inj h
    exact visit_of_lt hd hi
  · obtain rfl := Option.some.inj h
    rw [visit_of_le hd hts (not_lt.mp hi), if_neg hassert]

/-- If none is, an assertion fails. -/
theorem visit_of_not_visited (hd : d.Valid P) (hts : ts.length ≠ 0)
    (h : visitedIndex P d = none) (visitor : Visitor σ R) :
    visit P d visitor = throw .assertFailed := by
  unfold visitedIndex at h
  split_ifs at h with hi hassert
  rw [visit_of_le hd hts (not_lt.mp hi), if_pos hassert]

/-- **What should happen at a `noexcept` boundary**: nothing. The visit goes as if `visit` were
never `noexcept`, and a value that is out of bounds is reported to the caller. -/
structure ReportsBounds (P : Platform) (d : Deserialiser (.variant ts)) (visitor : Visitor σ R)
    (s : σ) : Prop where
  not_stopped : visitAny P d visitor s = visitAny P d visitor.throwing s
  reports : OutOfBounds P d → ∃ what,
    visitAny P d visitor s = .error (.thrown (.bufferBoundsError what)) s

/-- A call on an alternative in bounds goes as the visitor does. -/
theorem callOn_throwing (hd : d.Valid P) (hwf : ts.wellFormed = true) {i : ℕ} {t : Ty}
    (ht : ts.element i = some t) (hin : storedOffset d + fixedDataSize P t ≤ d.buffer.length) :
    callOn P d visitor i = callOn P d visitor.throwing i := by
  obtain ⟨x, hx⟩ := deserialise_of_check hd.length_lt (ts.wellFormed_element i t hwf ht) hin
  have hget : d.getAlternative P i = .ok ⟨t, x⟩ := by
    rw [getAlternative_eq hd, ht]
    exact bind_of_ok hx _
  rw [callOn_of_ok ht hget, callOn_of_ok ht hget]
  rfl

/-- A call on an alternative out of bounds. -/
theorem callOn_of_out (hd : d.Valid P) {i : ℕ} {t : Ty} (ht : ts.element i = some t)
    (hout : ¬storedOffset d + fixedDataSize P t ≤ d.buffer.length) (visitor : Visitor σ R)
    (s : σ) : callOn P d visitor i s =
      .error (if visitor.nothrowAll ts then .terminated else .thrown (.bufferBoundsError
        (boundsMessage P t d.buffer.length (storedOffset d)))) s := by
  refine callOn_of_error ?_ s
  rw [getAlternative_eq hd, ht]
  exact bind_of_error (deserialise_of_not_check hout) _

theorem visitAny_of_ne (hts : ts.length ≠ 0) :
    visitAny P d visitor = some <$> visit P d visitor := if_neg hts

/-- If an alternative is visited that is in bounds, then `noexcept` makes no difference. -/
theorem reportsBounds_of_in (hd : d.Valid P) (hwf : ts.wellFormed = true) (hts : ts.length ≠ 0)
    {i : ℕ} {t : Ty} (hvisited : visitedIndex P d = some i) (ht : ts.element i = some t)
    (hin : storedOffset d + fixedDataSize P t ≤ d.buffer.length) (s : σ) :
    ReportsBounds P d visitor s := by
  constructor
  · rw [visitAny_of_ne hts, visitAny_of_ne hts, visit_of_visited hd hts hvisited,
      visit_of_visited hd hts hvisited, callOn_throwing hd hwf ht hin]
  · rintro ⟨j, u, hj, hu, hout⟩
    obtain rfl := Option.some.inj (hvisited.symm.trans hj)
    obtain rfl := Option.some.inj (ht.symm.trans hu)
    exact absurd hin hout

/-- If the alternative is out of bounds, then the exception has to get past `visit`. -/
theorem reportsBounds_of_out (hd : d.Valid P) (hts : ts.length ≠ 0) {i : ℕ} {t : Ty}
    (hvisited : visitedIndex P d = some i) (ht : ts.element i = some t)
    (hout : ¬storedOffset d + fixedDataSize P t ≤ d.buffer.length) (s : σ) :
    ReportsBounds P d visitor s ↔ visitor.nothrowAll ts = false := by
  have hvisit : ∀ v : Visitor σ R, visitAny P d v s =
      .error (if v.nothrowAll ts then .terminated else .thrown (.bufferBoundsError
        (boundsMessage P t d.buffer.length (storedOffset d)))) s := by
    intro v
    rw [visitAny_of_ne hts, visit_of_visited hd hts hvisited]
    exact Effect.bind_error (callOn_of_out hd ht hout v s)
  constructor
  · rintro ⟨-, hreports⟩
    obtain ⟨what, hwhat⟩ := hreports ⟨i, t, hvisited, ht, hout⟩
    by_contra hnothrow
    have hstopped := hvisit visitor
    rw [if_pos (Bool.eq_true_of_not_eq_false hnothrow)] at hstopped
    cases hstopped.symm.trans hwhat
  · intro hnothrow
    constructor
    · rw [hvisit, hvisit, hnothrow, nothrowAll_throwing visitor hts]
    · intro _
      have hreported := hvisit visitor
      rw [hnothrow, if_neg Bool.false_ne_true] at hreported
      exact ⟨_, hreported⟩

/-- **When an out-of-bounds value is reported**: whenever `visit` is not `noexcept`. -/
theorem reportsBounds_iff (hd : d.Valid P) (hwf : ts.wellFormed = true) (s : σ) :
    ReportsBounds P d visitor s ↔ (OutOfBounds P d → visitor.nothrowAll ts = false) := by
  -- without an alternative to visit, nothing is out of bounds
  have hnone : (∀ i t, visitedIndex P d = some i → ts.element i ≠ some t) →
      ¬OutOfBounds P d := by
    rintro h ⟨i, t, hi, ht, -⟩
    exact h i t hi ht
  by_cases hts : ts.length = 0
  · have hout : ¬OutOfBounds P d := hnone fun i t _ ht =>
      absurd (ts.lt_length_of_element i t ht) (by omega)
    refine ⟨fun _ h => absurd h hout, fun _ => ⟨?_, fun h => absurd h hout⟩⟩
    rw [visitAny, visitAny, if_pos hts, if_pos hts]
  rcases hvisited : visitedIndex P d with _ | i
  · have hout : ¬OutOfBounds P d := hnone fun i t hi _ => by cases hvisited.symm.trans hi
    refine ⟨fun _ h => absurd h hout, fun _ => ⟨?_, fun h => absurd h hout⟩⟩
    rw [visitAny_of_ne hts, visitAny_of_ne hts, visit_of_not_visited hd hts hvisited,
      visit_of_not_visited hd hts hvisited]
  · obtain ⟨t, ht⟩ := ts.exists_element i (visitedIndex_lt hts hvisited)
    by_cases hin : storedOffset d + fixedDataSize P t ≤ d.buffer.length
    · have h : ReportsBounds P d visitor s := reportsBounds_of_in hd hwf hts hvisited ht hin s
      refine ⟨fun _ => ?_, fun _ => h⟩
      rintro ⟨j, u, hj, hu, hout⟩
      obtain rfl := Option.some.inj (hvisited.symm.trans hj)
      obtain rfl := Option.some.inj (ht.symm.trans hu)
      exact absurd hin hout
    · rw [reportsBounds_of_out hd hts hvisited ht hin s]
      exact ⟨fun h _ => h, fun h => h ⟨i, t, hvisited, ht, hin⟩⟩

end Visitor

/-! ### Both of them -/

open Visitor

/-- **Where exceptions are stopped.** Whatever the bytes: the conversion of a record to a base never
throws, and a value that is out of bounds is reported by `visit` if and only if `visit` is not
`noexcept`, that is, some call of the visitor may throw. -/
theorem boundaries_iff {mem : List UInt8} (hlen : mem.length < P.sizeRange) (offset : ℕ) :
    (∀ (fs : TypeList) (bases : List ℕ) (d : Deserialiser (.record fs bases)),
      (Ty.record fs bases).wellFormed = true →
        deserialise P (.record fs bases) mem offset = .ok d →
          ∀ i, d.toBase P i ≠ .error .illFormed → ∃ x, d.toBase P i = .ok x) ∧
    ∀ (ts : TypeList) (d : Deserialiser (.variant ts)), (Ty.variant ts).wellFormed = true →
      deserialise P (.variant ts) mem offset = .ok d →
        ∀ {σ R : Type} (visitor : Visitor σ R) (s : σ), ReportsBounds P d visitor s ↔
          (OutOfBounds P d → visitor.nothrowAll ts = false) := by
  constructor
  · exact fun fs bases d ht hd i h => toBase_ok hlen ht hd h
  · intro ts d ht hd σ R visitor s
    exact reportsBounds_iff (variant_valid hlen hd) (Bool.and_eq_true_iff.mp ht).2 s

/-- A visitor that may throw, on a variant whose offset points beyond the buffer. -/
theorem boundaries_may_throw :
    let ts : TypeList := .ofTypes [.unsigned 1, .unsigned 2]
    let d : Deserialiser (.variant ts) := ⟨[0, 0, 255, 0, 0, 0], 0⟩
    OutOfBounds .x64 d ∧ ReportsBounds .x64 d (idle false) () := by
  intro ts d
  have hd : deserialise .x64 (.variant ts) d.buffer 0 = .ok d := rfl
  have hout : OutOfBounds .x64 d := ⟨0, .unsigned 1, rfl, rfl, by decide⟩
  refine ⟨hout, ?_⟩
  exact ((boundaries_iff (by decide) 0).2 ts d (by decide) hd (idle false) ()).mpr fun _ => rfl

/-- **A `noexcept` visitor**, on the same variant: the program is terminated. -/
theorem boundaries_terminates :
    let ts : TypeList := .ofTypes [.unsigned 1, .unsigned 2]
    let d : Deserialiser (.variant ts) := ⟨[0, 0, 255, 0, 0, 0], 0⟩
    deserialise .x64 (.variant ts) d.buffer 0 = .ok d ∧ OutOfBounds .x64 d ∧
      visitAny .x64 d (idle true) () = .error .terminated () ∧
        ¬ReportsBounds .x64 d (idle true) () := by
  intro ts d
  have hout : OutOfBounds .x64 d := ⟨0, .unsigned 1, rfl, rfl, by decide⟩
  refine ⟨rfl, hout, rfl, fun h => ?_⟩
  obtain ⟨what, hwhat⟩ := h.reports hout
  cases hwhat

end SerialisePP
