import SerialisePP.Aborted
import SerialisePP.RoundTrip

/-!
# Different machines

The format is the same on every machine: nothing of what is written depends on the endianness or
the word size of the machine, on whether it is done at compile time, or on whether assertions are
compiled in. Nor does what is thrown. Two machines that serialise the same value, each on a buffer
of its own that never fails, run in lock step as far as one can tell from outside
(`SerialisePP.serialise_portable`), and a third one reads the value.

Only at the very end of an address space can one tell them apart, because that is where the
offset of an optional wraps around.
-/

namespace SerialisePP

open Effect SerialiseBuffer TwoSection

variable {P Q : Platform}

/-- **A mark fails in the same way** on every machine on which it does not wrap around. -/
theorem Mark.failure_congr {k : Mark} (hP : ¬k.Wraps P) (hQ : ¬k.Wraps Q) :
    k.failure P = k.failure Q := by
  cases k with
  | optional p start =>
    have hp : P.wrap (start + 1) = start + 1 := Platform.wrap_of_lt (not_le.mp hP)
    have hq : Q.wrap (start + 1) = start + 1 := Platform.wrap_of_lt (not_le.mp hQ)
    rw [failure, failure, hp, hq]
  | _ => rfl

/-- So do all of them. -/
theorem findSome?_failure_congr {ks : List Mark} (hP : Unwrapped P ks) (hQ : Unwrapped Q ks) :
    ks.findSome? (Mark.failure P) = ks.findSome? (Mark.failure Q) := by
  induction ks with
  | nil => rfl
  | cons k ks ih =>
    obtain ⟨hPk, hPks⟩ := List.forall_mem_cons.mp hP
    obtain ⟨hQk, hQks⟩ := List.forall_mem_cons.mp hQ
    rw [List.findSome?_cons, List.findSome?_cons, Mark.failure_congr hPk hQk, ih hPks hQks]

theorem Unwrapped.perm {ks ks' : List Mark} (h : Unwrapped P ks) (hp : ks.Perm ks') :
    Unwrapped P ks' := fun k hk => h k (hp.mem_iff.mpr hk)

section Buffers

variable {B C : Type} [SerialiseBuffer B] [SerialiseBuffer C] {I : B → Prop} {J : C → Prop}
  {limit limit' : ℕ}

omit [SerialiseBuffer B] [SerialiseBuffer C] in
/-- **Two runs over the same checks** end in the same way. -/
theorem sim_of_checks {m : EStateM Failure B Unit} {n : EStateM Failure C Unit} {b : B} {c : C}
    {ks : List Mark} {X : B → Prop} {Y : C → Prop} {R : B → C → Prop}
    (hm : Sat m b (fun _ b' => X b' ∧ Accepted P ks)
      fun e _ => Aborts P (fun _ => False) ks e)
    (hn : Sat n c (fun _ c' => Y c' ∧ Accepted Q ks)
      fun e _ => Aborts Q (fun _ => False) ks e)
    (hP : Unwrapped P ks) (hQ : Unwrapped Q ks)
    (hR : ∀ b' c', X b' → Y c' → Accepted P ks → R b' c') :
    Sim m n b c (fun _ => R) fun _ _ _ => True := by
  have hfind := findSome?_failure_congr hP hQ
  refine sim_of_sat hm hn ?_ ?_ ?_ ?_
  · exact fun _ b' _ c' hb hc => ⟨rfl, hR b' c' hb.1 hc.1 hb.2⟩
  · rintro e b' f c' ⟨x, rfl, hx | hx⟩ ⟨y, rfl, hy | hy⟩
    · exact hx.elim
    · exact hx.elim
    · exact hy.elim
    · obtain rfl := Option.some.inj (hx.symm.trans (hfind.trans hy))
      exact ⟨rfl, trivial⟩
  · rintro - b' f c' ⟨-, hks⟩ ⟨y, -, hy | hy⟩
    · exact hy
    · exact absurd ((findSome?_of_accepted hks).symm.trans (hfind.trans hy)) nofun
  · rintro e b' - c' ⟨x, -, hx | hx⟩ ⟨-, hks⟩
    · exact hx
    · exact absurd ((findSome?_of_accepted hks).symm.trans (hfind.symm.trans hx)) nofun

/-- **A message that is the same for everyone**: two machines have the same bytes, and what any
machine reads from them is the value. -/
structure SameMessage (t : Ty) (v : t.Value) (pos : ℕ) (mem mem' : List UInt8) : Prop where
  bytes_eq : mem = mem'
  read : ∀ R : Platform, mem.length < R.sizeRange → ∃ d, deserialise R t mem pos = .ok d ∧
    ∀ u, Yields R t d u ↔ u = v

theorem sameMessage {t : Ty} (ht : t.wellFormed = true) {v : t.Value} {pos base : ℕ}
    {mem mem' : List UInt8} (heq : mem = mem') (hp : Placed mem (layout t v) pos base)
    (hks : Accepted P (checks t v pos base)) (hw : Unwrapped P ((layout t v).marks pos base)) :
    SameMessage t v pos mem mem' := by
  refine ⟨heq, fun R hlen => deserialise_yields_iff hlen ht hp fun k hk => ?_⟩
  exact Mark.fits_of_failure_eq_none (hks k ((checks_perm t v pos base).mem_iff.mpr hk)) (hw k hk)

/-- **Machines agree.** Take the same value on two machines, each with a buffer that never fails,
and with the same bytes in it if there are any. Then `serialise` either returns on both, and
leaves the same bytes, which any third machine reads as the value; or it throws the same
exception on both. -/
theorem serialise_portable (hB : LawfulBuffer P B I limit fun _ => False)
    (hC : LawfulBuffer Q C J limit' fun _ => False) {t : Ty} (ht : t.wellFormed = true)
    (v : t.Source P) (w : t.Source Q) (hvw : t.value w = t.value v) {b : B} {c : C} (hI : I b)
    (hJ : J c) :
    (∀ pos, bytes c = bytes b → pos + t.size ≤ (bytes b).length →
      (bytes b).length + variableSize t (t.value v) < min limit limit' →
      Unwrapped P ((layout t (t.value v)).marks pos (bytes b).length) →
      Unwrapped Q ((layout t (t.value v)).marks pos (bytes b).length) →
        Sim (serialise P t v pos) (serialise Q t w pos) b c
          (fun _ b' c' => SameMessage t (t.value v) pos (bytes b') (bytes c')) fun _ _ _ => True) ∧
    (t.size + variableSize t (t.value v) < min limit limit' →
      Unwrapped P ((layout t (t.value v)).marks 0 t.size) →
      Unwrapped Q ((layout t (t.value v)).marks 0 t.size) →
        Sim (serialiseObject P t v) (serialiseObject Q t w) b c
          (fun _ b' c' => SameMessage t (t.value v) 0 (bytes b') (bytes c'))
          fun _ _ _ => True) := by
  have hperm := fun pos base => (checks_perm t (t.value v) pos base).symm
  refine ⟨fun pos hbytes hpos hlim hP hQ => ?_, fun hlim hP hQ => ?_⟩
  · have hb := serialise_outcome hB ht v hI hpos (hlim.trans_le (min_le_left ..))
    have hc := serialise_outcome hC ht w hJ (hbytes ▸ hpos)
      (hvw ▸ hbytes ▸ hlim.trans_le (min_le_right ..))
    rw [hvw, hbytes] at hc
    rw [← fixedSize_layout t (t.value v)] at hpos
    refine sim_of_checks hb hc (hP.perm (hperm _ _)) (hQ.perm (hperm _ _)) ?_
    intro b' c' hb' hc' hks
    exact sameMessage ht (hb'.trans hc'.symm) (hb' ▸ placed_install hpos) hks hP
  · have hb := serialiseObject_outcome hB ht v hI (hlim.trans_le (min_le_left ..))
    have hc := serialiseObject_outcome hC ht w hJ (hvw ▸ hlim.trans_le (min_le_right ..))
    rw [hvw] at hc
    refine sim_of_checks hb hc (hP.perm (hperm _ _)) (hQ.perm (hperm _ _)) ?_
    intro b' c' hb' hc' hks
    exact sameMessage ht (hb'.trans hc'.symm) (hb' ▸ placed_object t _) hks hP

/-- A number of two bytes in an optional, on machines of different word size and endianness. -/
theorem serialise_portable_optional :
    let t : Ty := .optional (.unsigned 2)
    let Q : Platform := { Platform.x86 with endian := .big }
    let v : t.Source .x64 := some (513 : Fin (256 ^ 2))
    let w : t.Source Q := some (513 : Fin (256 ^ 2))
    let b : RelocatingBuffer := ⟨[], id, 0⟩
    Sim (serialiseObject .x64 t v) (serialiseObject Q t w) b b
      (fun _ b' c' => SameMessage t (t.value v) 0 (bytes b') (bytes c')) fun _ _ _ => True := by
  intro t Q v w b
  exact (serialise_portable (relocatingBuffer_lawful .x64) (relocatingBuffer_lawful Q)
    (by decide) v w rfl trivial trivial).2 (by decide) (by decide) (by decide)

end Buffers

end SerialisePP
