import SerialisePP.Safety

/-!
# Memory safety

`SerialisePP.reading_exact` says what accessors return, for types of moderate size on a 64-bit
machine and for calls whose preconditions are met. This file says what is left if none of that
is given: on any machine, for types of any size, for any bytes, and also for calls that break
their preconditions – an index past the end, the value of an absent optional, a visit of a
variant whose index names no alternative. Offsets may then wrap around, and what is read may be
nonsense; but it is read from inside of the buffer. Every address is checked just before it is
used, with the very numbers it is computed from, and that is enough.

So whatever a caller does with bytes it does not trust, a call returns, or throws one of the
exceptions, or fails an assertion if there are any (`SerialisePP.accesses_defined`).
-/

namespace SerialisePP

open Deserialiser Effect

variable {P : Platform} {mem : List UInt8}

/-! ### Outcomes -/

/-- **A defined way to end**: nothing has been read from outside of the buffer, and no assertion
has failed if there are none. -/
def Failure.Defined (P : Platform) : Failure → Prop
  | .thrown _ => True
  | .assertFailed => P.assertions = true
  | .terminated => True
  | .undefined => False
  | .illFormed => True

/-- **A computation that is defined**, with a condition on what it returns. -/
def Guarded (P : Platform) {α : Type} (m : Except Failure α) (Q : α → Prop) : Prop :=
  match m with
  | .ok a => Q a
  | .error e => e.Defined P

variable {α β : Type}

theorem Guarded.bind {m : Except Failure α} {f : α → Except Failure β} {Q : α → Prop}
    {R : β → Prop} (h : Guarded P m Q) (hf : ∀ a, Q a → Guarded P (f a) R) :
    Guarded P (m >>= f) R := by
  cases m with
  | ok a => exact hf a h
  | error e => exact h

/-- A computation whose value is not used further. -/
theorem Guarded.value {m : Except Failure α} {Q : α → Prop} (h : Guarded P m Q) (f : α → β) :
    Guarded P (m >>= fun a => pure (f a)) fun _ => True := h.bind fun _ _ => trivial

theorem guarded_check (c : Bool) : Guarded P (check P c) fun _ => True := by
  unfold check
  split_ifs with h
  · exact (Bool.and_eq_true_iff.mp h).1
  · trivial

/-- A computation that is made under a condition only. -/
theorem Guarded.ite {c : Prop} [Decidable c] {m : Except Failure α} {Q : α → Prop}
    (h : Guarded P m Q) {e : Failure} (he : e.Defined P) :
    Guarded P (if c then m else throw e) Q := by
  split_ifs
  · exact h
  · exact he

theorem guarded_noexceptBoundary {m : Except Failure α} {Q : α → Prop} (nothrow : Bool)
    (h : Guarded P m Q) : Guarded P (noexceptBoundary nothrow m) Q := by
  cases m with
  | ok a => exact h
  | error e =>
    cases e with
    | thrown x => cases nothrow <;> trivial
    | _ => exact h

/-! ### What is returned -/

/-- **A deserialiser of an object inside of the buffer**, as large as `fixed_data_size_v` says. -/
structure Deserialiser.Inside (P : Platform) (mem : List UInt8) {t : Ty} (d : Deserialiser t) :
    Prop where
  buffer_eq : d.buffer = mem
  fixed_le : d.fixedOffset + fixedDataSize P t ≤ mem.length

/-- What has been deserialised is inside of the buffer; a scalar has nothing to do with it any
more. -/
def Views (P : Platform) (mem : List UInt8) : (t : Ty) → t.Deserialised → Prop
  | .scalar _, _ => True
  | .staticArray _ _, (d : Deserialiser _) => d.Inside P mem
  | .dynamicArray _, (d : Deserialiser _) => d.Inside P mem
  | .pair _ _, (d : Deserialiser _) => d.Inside P mem
  | .tuple _, (d : Deserialiser _) => d.Inside P mem
  | .optional _, (d : Deserialiser _) => d.Inside P mem
  | .variant _, (d : Deserialiser _) => d.Inside P mem
  | .record _ _, (d : Deserialiser _) => d.Inside P mem

/-- An object of a well-formed type inside of the buffer. -/
def Object.Inside (P : Platform) (mem : List UInt8) (x : Object) : Prop :=
  x.1.wellFormed = true ∧ Views P mem x.1 x.2

/-- A response that is an object, is one inside of the buffer. -/
def Response.Inside (P : Platform) (mem : List UInt8) : Response → Prop
  | .object x => x.Inside P mem
  | .number _ => True
  | .flag _ => True

section Deserialise

variable (hlen : mem.length < P.sizeRange)

include hlen

/-- **`deserialise` is defined** at every offset. -/
theorem guarded_deserialise {t : Ty} (ht : t.wellFormed = true) (offset : ℕ) :
    Guarded P (deserialise P t mem offset) (Views P mem t) := by
  by_cases h : offset + fixedDataSize P t ≤ mem.length
  · obtain ⟨x, hx⟩ := deserialise_of_check hlen ht h
    have hcheck : checkBufferSizeFor P t mem offset = .ok () :=
      (checkBufferSizeFor_eq_ite t).trans (if_pos h)
    rw [deserialise, bind_of_ok hcheck] at hx
    rw [deserialise, bind_of_ok hcheck, hx]
    cases t with
    | scalar s => trivial
    | _ =>
      obtain rfl := Except.ok.inj hx
      exact ⟨rfl, h⟩
  · rw [deserialise_of_not_check h]
    trivial

theorem guarded_deserialiseObject {t? : Option Ty} (ht : ∀ t, t? = some t → t.wellFormed = true)
    (offset : ℕ) : Guarded P (deserialiseObject P mem offset t?) (Object.Inside P mem) := by
  cases t? with
  | none => trivial
  | some t =>
    exact (guarded_deserialise hlen (ht t rfl) offset).bind fun _ hx => ⟨ht t rfl, hx⟩

/-- So are the numbers in headers. -/
theorem guarded_deserialiseUnsigned {n : ℕ} (hn : n < 2 ^ 32) (offset : ℕ) :
    Guarded P (deserialiseUnsigned P n mem offset) fun _ => True := by
  by_cases h : offset + n ≤ mem.length
  · rw [deserialiseUnsigned_of_le hlen h]
    trivial
  · have hsize : (Ty.unsigned n).size < P.sizeRange :=
      hn.trans_le Platform.two_pow_32_le_sizeRange
    rw [deserialiseUnsigned, bind_of_error ((checkBufferSizeFor_eq hsize).trans (if_neg h))]
    trivial

end Deserialise

/-! ### Accessors -/

section Accessors

variable (hlen : mem.length < P.sizeRange)

include hlen

/-- `operator[]` of a dynamic array, whatever the index. -/
theorem guarded_dynamicIndex {t : Ty} (ht : t.wellFormed = true)
    {d : Deserialiser (.dynamicArray t)} (hd : d.buffer = mem) (i : ℕ) :
    Guarded P (d.dynamicIndex P i) (Views P mem t) := by
  subst hd
  have hnumber : ∀ offset, Guarded P (deserialiseUnsigned P 4 d.buffer offset) fun _ => True :=
    guarded_deserialiseUnsigned hlen (by decide)
  have hrest : Guarded P (do
      let offset ← d.elementsOffset P
      deserialise P t d.buffer (P.wrap (offset + P.wrap (fixedDataSize P t * i)))) (Views P _ t) :=
    (hnumber _).value _ |>.bind fun _ _ => guarded_deserialise hlen ht _
  unfold dynamicIndex
  split_ifs
  · exact ((hnumber _).value _).bind fun _ _ => (guarded_check _).bind fun _ _ => hrest
  · exact hrest

/-- `operator*`, of an absent value as well. -/
theorem guarded_deref {t : Ty} (ht : t.wellFormed = true) {d : Deserialiser (.optional t)}
    (hd : d.buffer = mem) : Guarded P (d.deref P) (Views P mem t) := by
  subst hd
  have hnumber := @guarded_deserialiseUnsigned P d.buffer hlen 4 (by decide) d.fixedOffset
  rw [deref]
  refine (hnumber.value _).bind fun offset _ => ?_
  -- 0 - 1 is just another offset
  generalize (offset + (2 ^ 32 - 1)) % 2 ^ 32 = previous
  exact (guarded_check _).bind fun _ _ => guarded_deserialise hlen ht _

/-- An alternative, whichever is asked for. -/
theorem guarded_getAlternative {ts : TypeList} (hts : ts.wellFormed = true)
    {d : Deserialiser (.variant ts)} (hd : d.buffer = mem) (i : ℕ) :
    Guarded P (d.getAlternative P i) (Object.Inside P mem) := by
  subst hd
  have hnumber := @guarded_deserialiseUnsigned P d.buffer hlen 4 (by decide)
  exact ((hnumber _).value _).bind fun _ _ =>
    guarded_deserialiseObject hlen (fun t ht => ts.wellFormed_element i t hts ht) _

omit hlen in
/-- What is guarded, on the way to a visitor. -/
theorem Guarded.sat_lift {σ : Type} {m : Except Failure α} {f : α → EStateM Failure σ β}
    {Q : α → Prop} {R : β → Prop} {s : σ} (h : Guarded P m Q)
    (hf : ∀ a, Q a → Sat (f a) s (fun b _ => R b) fun e _ => e.Defined P) :
    Sat (Visitor.lift m >>= f) s (fun b _ => R b) fun e _ => e.Defined P := by
  rw [sat_bind]
  cases m with
  | ok a => exact hf a h
  | error e => exact h

omit hlen in
theorem sat_boundary {σ : Type} {m : EStateM Failure σ α} {R : α → Prop} {s : σ} (nothrow : Bool)
    (h : Sat m s (fun a _ => R a) fun e _ => e.Defined P) :
    Sat (Visitor.boundary nothrow m) s (fun a _ => R a) fun e _ => e.Defined P := by
  unfold Sat Visitor.boundary at *
  cases hm : m s with
  | ok a s' => rwa [hm] at h
  | error e s' =>
    rw [hm] at h
    cases e with
    | thrown x => cases nothrow <;> trivial
    | _ => exact h

/-- **`visit`**, whatever the index: by induction over the alternatives. -/
theorem sat_visitFrom {ts : TypeList} (hts : ts.wellFormed = true) {d : Deserialiser (.variant ts)}
    (hd : d.buffer = mem) (nothrow : Ty → Bool) (index : ℕ) : ∀ (rest : TypeList) (i : ℕ),
      Sat (Visitor.visitFrom P d (visitorOf nothrow) rest i index) ()
        (fun x _ => x.Inside P mem) fun e _ => e.Defined P
  | .nil, _ => trivial
  | .cons _ _ .nil, i => by
    have hcall : ∀ i, Sat (Visitor.lift (d.getAlternative P i) >>= (visitorOf nothrow).call) ()
        (fun x _ => x.Inside P mem) fun e _ => e.Defined P := fun i =>
      (guarded_getAlternative hlen hts hd i).sat_lift fun x hx => hx
    refine sat_boundary _ ((guarded_check _).sat_lift fun _ _ => ?_)
    split_ifs
    · exact (guarded_check _).sat_lift fun _ _ => hcall i
    · exact hcall i
  | .cons _ _ (.cons name t rest), i => by
    refine sat_boundary _ ((guarded_check _).sat_lift fun _ _ => ?_)
    split_ifs
    · exact sat_visitFrom hts hd nothrow index (.cons name t rest) (i + 1)
    · exact (guarded_getAlternative hlen hts hd i).sat_lift fun x hx => hx

theorem guarded_index {ts : TypeList} {d : Deserialiser (.variant ts)} (hd : d.buffer = mem) :
    Guarded P (d.index P) fun _ => True := by
  subst hd
  unfold Deserialiser.index
  split_ifs
  · trivial
  · exact (@guarded_deserialiseUnsigned P d.buffer hlen 2 (by decide) _).value _

theorem sat_visit {ts : TypeList} (hts : ts.wellFormed = true) {d : Deserialiser (.variant ts)}
    (hd : d.buffer = mem) (nothrow : Ty → Bool) :
    Sat (Visitor.visit P d (visitorOf nothrow)) () (fun x _ => x.Inside P mem)
      fun e _ => e.Defined P := by
  exact sat_boundary _ ((guarded_index hlen hd).sat_lift fun index _ =>
    sat_visitFrom hlen hts hd nothrow index ts 0)

omit hlen in
/-- What moves to an object of a known type. -/
theorem Guarded.moved {t : Ty} {m : Except Failure t.Deserialised} (ht : t.wellFormed = true)
    (h : Guarded P m (Views P mem t)) : Guarded P (moved m) (Response.Inside P mem) :=
  h.bind fun _ hx => ⟨ht, hx⟩

omit hlen in
theorem Guarded.movedObject {m : Except Failure Object} (h : Guarded P m (Object.Inside P mem)) :
    Guarded P (movedObject m) (Response.Inside P mem) := h.bind fun _ hx => hx

omit hlen in
/-- What does not move. -/
theorem Guarded.answers {m : Except Failure α} {Q : α → Prop} {f : α → Response}
    (h : Guarded P m Q) (hf : ∀ a, (f a).Inside P mem) :
    Guarded P (m >>= fun a => pure (f a)) (Response.Inside P mem) := h.bind fun a _ => hf a

/-- `operator[]` of a static array, whatever the index. -/
theorem guarded_staticIndex {t : Ty} (ht : t.wellFormed = true) {n : ℕ}
    {d : Deserialiser (.staticArray t n)} (hd : d.buffer = mem) (i : ℕ) :
    Guarded P (d.staticIndex P i) (Views P mem t) := by
  subst hd
  exact (guarded_check _).bind fun _ _ => guarded_deserialise hlen ht _

omit hlen in
/-- An element of a list of guarded ones. -/
theorem guarded_movedElement {t : Ty} (ht : t.wellFormed = true)
    {f : ℕ → Except Failure t.Deserialised} (hf : ∀ i, Guarded P (f i) (Views P mem t)) (n i : ℕ) :
    Guarded P (movedElement ((List.range n).map f)[i]?) (Response.Inside P mem) := by
  rcases hi : ((List.range n).map f)[i]? with _ | m
  · trivial
  · obtain ⟨j, -, rfl⟩ := List.mem_map.mp (List.mem_of_getElem? hi)
    exact (hf j).moved ht

omit hlen in
theorem TypeList.wellFormed_fieldType : ∀ (ts : TypeList) (name : String) (t : Ty),
    ts.wellFormed = true → ts.fieldType name = some t → t.wellFormed = true
  | .nil, _, _, _, h => nomatch h
  | .cons n u ts, name, t, hts, h => by
    obtain ⟨hu, hts'⟩ := Bool.and_eq_true_iff.mp hts
    rw [TypeList.fieldType] at h
    split_ifs at h
    · obtain rfl := Option.some.inj h
      exact hu
    · exact wellFormed_fieldType ts name t hts' h

/-- A field of a record, whatever the name. -/
theorem guarded_recordGet {fs : TypeList} {bases : List ℕ} (hfs : fs.wellFormed = true)
    {d : Deserialiser (.record fs bases)} (hd : d.buffer = mem) (name : String) :
    Guarded P (d.recordGet P name) (Object.Inside P mem) := by
  subst hd
  unfold recordGet
  rcases hname : fs.fieldType name with _ | t
  · trivial
  · refine Guarded.ite (guarded_deserialiseObject hlen (fun u hu => ?_) _) trivial
    exact fs.wellFormed_fieldType name u hfs (hname.trans hu)

/-- A conversion of a record. -/
theorem guarded_toBase {fs : TypeList} {bases : List ℕ}
    (ht : (Ty.record fs bases).wellFormed = true) {d : Deserialiser (.record fs bases)}
    (hd : d.buffer = mem) (i : ℕ) : Guarded P (d.toBase P i) (Object.Inside P mem) := by
  subst hd
  obtain ⟨hu, hfs⟩ := Bool.and_eq_true_iff.mp ht
  unfold toBase
  rcases (fs.length :: bases).drop i with _ | ⟨n, rest⟩
  · trivial
  · refine Guarded.ite (guarded_noexceptBoundary true
      (guarded_deserialiseObject hlen (fun u hu' => ?_) _)) trivial
    obtain rfl := Option.some.inj hu'
    exact Bool.and_eq_true_iff.mpr ⟨fs.allFieldsUnique_take n hu, fs.wellFormed_take n hfs⟩

/-! The accessors of each type, and that the other ones are ill-formed. -/

theorem guarded_access_record {fs : TypeList} {bases : List ℕ}
    (ht : (Ty.record fs bases).wellFormed = true) {d : Deserialiser (.record fs bases)}
    (hd : d.buffer = mem) (a : Accessor) :
    Guarded P (access P ⟨.record fs bases, d⟩ a) (Response.Inside P mem) := by
  have hget := guarded_recordGet hlen (Bool.and_eq_true_iff.mp ht).2 hd
  cases a with
  | recordGet name => exact (hget name).movedObject
  | recordGetIndex i =>
    refine Guarded.movedObject ?_
    unfold recordGetIndex
    rcases fs.fieldName i with _ | name
    · trivial
    · exact hget name
  | toBase i => exact (guarded_toBase hlen ht hd i).movedObject
  | _ => trivial

theorem guarded_access_pair {a b : Ty} (ht : (Ty.pair a b).wellFormed = true)
    {d : Deserialiser (.pair a b)} (hd : d.buffer = mem) (accessor : Accessor) :
    Guarded P (access P ⟨.pair a b, d⟩ accessor) (Response.Inside P mem) := by
  subst hd
  obtain ⟨ha, hb⟩ := Bool.and_eq_true_iff.mp ht
  have hfirst : Guarded P (d.first P) (Views P d.buffer a) := guarded_deserialise hlen ha _
  have hsecond : Guarded P (d.second P) (Views P d.buffer b) := guarded_deserialise hlen hb _
  cases accessor with
  | first => exact hfirst.moved ha
  | second => exact hsecond.moved hb
  | pairGet i =>
    refine Guarded.movedObject ?_
    rcases i with _ | _ | i
    · exact hfirst.bind fun _ hx => ⟨ha, hx⟩
    · exact hsecond.bind fun _ hx => ⟨hb, hx⟩
    · trivial
  | _ => trivial

theorem guarded_access_staticArray {t : Ty} {n : ℕ} (ht : t.wellFormed = true)
    {d : Deserialiser (.staticArray t n)} (hd : d.buffer = mem) (a : Accessor) :
    Guarded P (access P ⟨.staticArray t n, d⟩ a) (Response.Inside P mem) := by
  have hindex := guarded_staticIndex hlen ht hd
  cases a with
  | staticIndex i => exact (hindex i).moved ht
  | staticAt i => exact Guarded.moved ht (.ite (hindex i) trivial)
  | staticGet i => exact Guarded.moved ht (.ite (hindex i) trivial)
  | staticElement i => exact guarded_movedElement ht hindex n i
  | _ => trivial

theorem guarded_access_dynamicArray {t : Ty} (ht : t.wellFormed = true)
    {d : Deserialiser (.dynamicArray t)} (hd : d.buffer = mem) (a : Accessor) :
    Guarded P (access P ⟨.dynamicArray t, d⟩ a) (Response.Inside P mem) := by
  have hindex := guarded_dynamicIndex hlen ht hd
  have hsize : Guarded P (d.size P) fun _ => True := by
    subst hd
    exact (@guarded_deserialiseUnsigned P d.buffer hlen 4 (by decide) _).value _
  cases a with
  | size => exact hsize.answers fun _ => trivial
  | empty => exact (hsize.value _).answers fun _ => trivial
  | dynamicIndex i => exact (hindex i).moved ht
  | dynamicAt i => exact Guarded.moved ht (hsize.bind fun _ _ => .ite (hindex i) trivial)
  | dynamicElement i =>
    have helements : Guarded P (d.dynamicElements P) fun elements =>
        Guarded P (movedElement elements[i]?) (Response.Inside P mem) :=
      hsize.bind fun n _ => guarded_movedElement ht hindex n i
    exact helements.bind fun _ h => h
  | _ => trivial

theorem guarded_access_optional {t : Ty} (ht : t.wellFormed = true)
    {d : Deserialiser (.optional t)} (hd : d.buffer = mem) (a : Accessor) :
    Guarded P (access P ⟨.optional t, d⟩ a) (Response.Inside P mem) := by
  have hderef := guarded_deref hlen ht hd
  have hvalue : Guarded P (d.hasValue P) fun _ => True := by
    subst hd
    exact ((@guarded_deserialiseUnsigned P d.buffer hlen 4 (by decide) _).value _).value _
  cases a with
  | hasValue => exact hvalue.answers fun _ => trivial
  | value => exact Guarded.moved ht (hvalue.bind fun _ _ => .ite hderef trivial)
  | deref => exact hderef.moved ht
  | _ => trivial

theorem guarded_access_variant {ts : TypeList} (hts : ts.wellFormed = true)
    {d : Deserialiser (.variant ts)} (hd : d.buffer = mem) (a : Accessor) :
    Guarded P (access P ⟨.variant ts, d⟩ a) (Response.Inside P mem) := by
  cases a with
  | index => exact (guarded_index hlen hd).answers fun _ => trivial
  | get i =>
    refine Guarded.movedObject ?_
    unfold Deserialiser.get
    split_ifs
    · trivial
    · exact (guarded_index hlen hd).bind fun _ _ =>
        .ite (guarded_getAlternative hlen hts hd i) trivial
  | visit nothrow =>
    have hvisit := sat_visit hlen hts hd nothrow
    cases hrun : Visitor.visit P d (visitorOf nothrow) () with
    | ok x s =>
      have haccess : access P ⟨.variant ts, d⟩ (.visit nothrow) = pure (Response.object x) := by
        simp only [access, hrun]
      exact haccess ▸ hvisit.ok hrun
    | error e s =>
      have haccess : access P ⟨.variant ts, d⟩ (.visit nothrow) = throw e := by
        simp only [access, hrun]
      exact haccess ▸ hvisit.error hrun
  | _ => trivial

/-- **Every call of an accessor is defined**, whichever the accessor and whatever its argument,
and an object it returns is in the buffer. -/
theorem guarded_access {x : Object} (hx : x.Inside P mem) (a : Accessor) :
    Guarded P (access P x a) (Response.Inside P mem) := by
  obtain ⟨t, d⟩ := x
  obtain ⟨ht, hd⟩ := hx
  cases t with
  | scalar s => cases a <;> trivial
  | staticArray t n => exact @guarded_access_staticArray P mem hlen t n ht d hd.1 a
  | dynamicArray t => exact @guarded_access_dynamicArray P mem hlen t ht d hd.1 a
  | pair a b => exact guarded_access_pair hlen ht hd.1 _
  | tuple ts =>
    obtain ⟨rfl, -⟩ := hd
    cases a with
    | tupleGet i =>
      exact (guarded_deserialiseObject hlen (ts.wellFormed_element i · ht) _).movedObject
    | _ => trivial
  | optional t => exact @guarded_access_optional P mem hlen t ht d hd.1 a
  | variant ts => exact guarded_access_variant hlen (Bool.and_eq_true_iff.mp ht).2 hd.1 a
  | record fs bases => exact guarded_access_record hlen ht hd.1 a

end Accessors

/-! ### Any sequence of calls -/

/-- **The objects that can be got hold of** by any calls of any accessors, whether their
preconditions are met or not. -/
inductive Obtained (P : Platform) (mem : List UInt8) (t : Ty) (offset : ℕ) : Object → Prop
  | start {d : t.Deserialised} (h : deserialise P t mem offset = .ok d) :
      Obtained P mem t offset ⟨t, d⟩
  | step {x y : Object} {a : Accessor} (hx : Obtained P mem t offset x)
      (ha : access P x a = .ok (.object y)) : Obtained P mem t offset y

/-- All of them are in the buffer. -/
theorem Obtained.inside (hlen : mem.length < P.sizeRange) {t : Ty} (ht : t.wellFormed = true)
    {offset : ℕ} {x : Object} (hx : Obtained P mem t offset x) : x.Inside P mem := by
  induction hx with
  | start h =>
    have hd := guarded_deserialise hlen ht offset
    rw [h] at hd
    exact ⟨ht, hd⟩
  | @step _ _ a _ ha ih =>
    have hy := guarded_access hlen ih a
    rw [ha] at hy
    exact hy

/-- **No call ever leaves the buffer.** On any platform, for any type and any bytes, at any
offset and after any sequence of calls, of which any number may have broken their
preconditions: if `deserialise` or an accessor does not return, it ends in a defined way, and
the fixed section of every object it returns is inside of the same buffer. -/
theorem accesses_defined (hlen : mem.length < P.sizeRange) {t : Ty} (ht : t.wellFormed = true)
    (offset : ℕ) :
    (∀ e, deserialise P t mem offset = .error e → e.Defined P) ∧
      ∀ x, Obtained P mem t offset x → x.Inside P mem ∧
        ∀ a e, access P x a = .error e → e.Defined P := by
  refine ⟨fun e he => ?_, fun x hx => ⟨hx.inside hlen ht, fun a e he => ?_⟩⟩
  · have h := guarded_deserialise hlen ht offset
    rwa [he] at h
  · have h := guarded_access hlen (hx.inside hlen ht) a
    rwa [he] at h

/-- On a 32-bit machine without assertions, the second of two arrays, which is at the very end of
the buffer, and an element of it although it is empty. -/
theorem accesses_defined_past_end :
    let P : Platform := Platform.x86.withAssertions false
    let t : Ty := .dynamicArray (.unsigned 2)
    let mem : List UInt8 := List.replicate 16 0
    let d : Deserialiser t := ⟨mem, 8⟩
    access P ⟨.pair t t, (⟨mem, 0⟩ : Deserialiser (.pair t t))⟩ .second = .ok (.object ⟨t, d⟩) ∧
      d.fixedOffset + fixedDataSize P t ≤ mem.length ∧
        ∃ e, access P ⟨t, d⟩ (.dynamicIndex 8) = .error e ∧ e.Defined P := by
  intro P t mem d
  have hlen : mem.length < P.sizeRange := by decide
  have hsecond : access P ⟨.pair t t, (⟨mem, 0⟩ : Deserialiser (.pair t t))⟩ .second =
      .ok (.object ⟨t, d⟩) := rfl
  have hobtained : Obtained P mem (.pair t t) 0 ⟨t, d⟩ := .step (.start rfl) hsecond
  obtain ⟨⟨-, hinside⟩, haccess⟩ := (accesses_defined hlen (by decide) 0).2 ⟨t, d⟩ hobtained
  obtain ⟨e, he⟩ : ∃ e, access P ⟨t, d⟩ (.dynamicIndex 8) = .error e := ⟨_, rfl⟩
  exact ⟨hsecond, hinside.fixed_le, e, he, haccess _ e he⟩

end SerialisePP
