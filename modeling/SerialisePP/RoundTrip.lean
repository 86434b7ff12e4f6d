import SerialisePP.Limits
import SerialisePP.Traversal
import SerialisePP.Visit

/-!
# The round trip

A memory that holds the layout of a value, all of whose marks fit, is read back as that value:
`SerialisePP.yields_of_placed`, by induction over the types, one accessor after the other.
Together with what `serialise` leaves behind this is the round trip over the whole format.

There is one hole in it. The offset of a present optional is advanced by one before it is
checked, in `std::size_t`; if the buffer has as many bytes as the largest `std::size_t`, the
sum wraps around to 0, the check passes, and the optional reads as absent
(`SerialisePP.Mark.Wraps`). The round trip holds of all values without such an optional.
-/

namespace SerialisePP

open Effect LittleEndian Region SerialiseBuffer TwoSection

variable {P : Platform} {mem : List UInt8}

/-! ### Objects in memory -/

/-- An object that is placed lies in the memory. -/
theorem fixed_le_of_placed {t : Ty} {v : t.Value} {pos base : ℕ}
    (h : Placed mem (layout t v) pos base) : pos + t.size ≤ mem.length := by
  have := h.fixed_le
  rwa [fixedSize_layout] at this

theorem list_isEmpty_eq {α : Type} (xs : List α) : xs.isEmpty = (xs.length == 0) := by
  cases xs <;> rfl

/-- The elements of a placed row of objects, one by one. -/
theorem placed_element {t : Ty} {xs : List t.Value} {pos base i : ℕ} {x : t.Value}
    (hp : Placed mem (.concat (xs.map (layout t))) pos base) (hx : xs[i]? = some x) :
    ∃ b, Placed mem (layout t x) (pos + t.size * i) b ∧
      (layout t x).marks (pos + t.size * i) b ⊆
        (Layout.concat (xs.map (layout t))).marks pos base := by
  have hk : ∀ l ∈ xs.map (layout t), l.fixedSize = t.size := by
    intro l hl
    obtain ⟨y, -, rfl⟩ := List.mem_map.mp hl
    exact fixedSize_layout t y
  exact hp.concat_get hk (by rw [List.getElem?_map, hx]; rfl)

mutual

/-- **A memory that holds the layout of a value yields the value**, if all marks fit. -/
theorem yields_of_placed (hlen : mem.length < P.sizeRange) : ∀ (t : Ty) (v : t.Value)
    (pos base : ℕ) (h : pos + t.size ≤ mem.length), t.wellFormed = true →
      Placed mem (layout t v) pos base → (∀ k ∈ (layout t v).marks pos base, k.Fits) →
        Yields P t (objectAt P mem pos t h) v
  | .scalar s, v, pos, base, h, _, hp, _ => by
    have hslice : slice mem pos s.size = s.encode v := by
      have := hp.fixed_eq
      rwa [fixedSize_layout] at this
    have hvalue : ∀ (xs : List UInt8) (hxs : xs.length = s.size), xs = s.encode v →
        s.ofFixedBytes P xs hxs = v := by
      rintro _ _ rfl
      exact s.ofFixedBytes_encode P v
    exact hvalue _ _ hslice
  | .staticArray t n, v, pos, base, h, ht, hp, hfits => by
    have hd : Deserialiser.Valid P (objectAt P mem pos (.staticArray t n) h) := ⟨hlen, h⟩
    refine ⟨by simp [Deserialiser.staticElements], fun i x hx => ?_⟩
    have hi : i < n := v.2 ▸ (List.getElem?_eq_some_iff.mp hx).1
    obtain ⟨b, hb, hmarks⟩ := placed_element hp hx
    have hindex : Deserialiser.staticIndex P (objectAt P mem pos (.staticArray t n) h) i =
        .ok (objectAt P mem (pos + t.size * i) t (fixed_le_of_placed hb)) :=
      (Deserialiser.staticIndex_eq hd hi).trans (deserialise_of_le hlen _)
    refine ⟨_, hindex, (if_pos hi).trans hindex, (if_pos hi).trans hindex, ?_, ?_⟩
    · show ((List.range n).map (Deserialiser.staticIndex P _))[i]? = _
      rw [List.getElem?_map, List.getElem?_range hi]
      exact congrArg some hindex
    · exact yields_of_placed hlen t x _ b _ ht hb fun k hk => hfits k (hmarks hk)
  | .dynamicArray t, (v : List t.Value), pos, base, h, ht, hp, hfits => by
    have hd : Deserialiser.Valid P (objectAt P mem pos (.dynamicArray t) h) := ⟨hlen, h⟩
    obtain ⟨⟨hle, hheader⟩, helements⟩ := placed_box_iff.mp hp
    obtain ⟨hfit, hfits'⟩ := List.forall_mem_cons.mp hfits
    obtain ⟨hcount, hstart⟩ := not_or.mp hfit.1
    obtain ⟨hn, hs⟩ := numberAt_arrayHeader hle hheader (not_lt.mp hcount)
      fun hpos => not_lt.mp fun hbig => hstart ⟨hpos, hbig⟩
    rw [List.length_map] at hn hs
    have hsize : Deserialiser.size P (objectAt P mem pos (.dynamicArray t) h) = .ok v.length :=
      (Deserialiser.size_eq hd).trans (congrArg Except.ok hn)
    refine ⟨hsize, ?_, _, bind_of_ok hsize _, by simp, fun i x hx => ?_⟩
    · rw [list_isEmpty_eq]
      exact bind_of_ok hsize _
    · have hi : i < v.length := (List.getElem?_eq_some_iff.mp hx).1
      obtain ⟨b, hb, hmarks⟩ := placed_element helements hx
      have hin := fixed_le_of_placed hb
      have hindex : Deserialiser.dynamicIndex P (objectAt P mem pos (.dynamicArray t) h) i =
          .ok (objectAt P mem (base + t.size * i) t hin) := by
        rw [if_pos (Nat.zero_lt_of_lt hi)] at hs
        refine (Deserialiser.dynamicIndex_eq hd (hn.symm ▸ hi)).trans ?_
        show deserialise P t mem (P.wrap (numberAt mem (pos + 4) 4 + t.size * i)) = _
        rw [hs, Platform.wrap_of_lt (by omega)]
        exact deserialise_of_le hlen hin
      refine ⟨_, hindex, ?_, ?_, ?_⟩
      · exact (bind_of_ok hsize _).trans ((if_pos hi).trans hindex)
      · rw [List.getElem?_map, List.getElem?_range hi]
        exact congrArg some hindex
      · exact yields_of_placed hlen t x _ b _ ht hb fun k hk => hfits' k (hmarks hk)
  | .pair a b, v, pos, base, h, ht, hp, hfits => by
    obtain ⟨ha, hb⟩ := Bool.and_eq_true_iff.mp ht
    have hd : Deserialiser.Valid P (objectAt P mem pos (.pair a b) h) := ⟨hlen, h⟩
    obtain ⟨hpa, hpb⟩ := placed_append_iff.mp hp
    obtain ⟨hfa, hfb⟩ := List.forall_mem_append.mp hfits
    have hfirst : Deserialiser.first P (objectAt P mem pos (.pair a b) h) =
        .ok (objectAt P mem pos a (fixed_le_of_placed hpa)) := deserialise_of_le hlen _
    rw [fixedSize_layout] at hpb hfb
    have hsecond : Deserialiser.second P (objectAt P mem pos (.pair a b) h) =
        .ok (objectAt P mem (pos + a.size) b (fixed_le_of_placed hpb)) :=
      (Deserialiser.second_eq hd).trans (deserialise_of_le hlen _)
    exact ⟨⟨_, hfirst, bind_of_ok hfirst _, yields_of_placed hlen a v.1 pos base _ ha hpa hfa⟩,
      ⟨_, hsecond, bind_of_ok hsecond _, yields_of_placed hlen b v.2 _ _ _ hb hpb hfb⟩⟩
  | .tuple ts, v, pos, base, h, ht, hp, hfits => by
    have hd : Deserialiser.Valid P (objectAt P mem pos (.tuple ts) h) := ⟨hlen, h⟩
    exact yieldsFields_of_placed hlen ts v pos base _ ht hp hfits fun i name t hi _ =>
      Deserialiser.tupleGet_eq hd hi
  | .optional t, none, pos, base, h, _, hp, _ => by
    have hd : Deserialiser.Valid P (objectAt P mem pos (.optional t) h) := ⟨hlen, h⟩
    have hzero : numberAt mem pos 4 = 0 := numberAt_of_slice hp.fixed_eq (by decide)
    refine ⟨(Deserialiser.hasValue_eq hd).trans ?_, (Deserialiser.value_eq hd).trans (if_neg ?_)⟩
    · exact congrArg Except.ok (decide_eq_false fun hpos => hpos.ne' hzero)
    · exact fun hpos => hpos.ne' hzero
  | .optional t, some v, pos, base, h, ht, hp, hfits => by
    have hd : Deserialiser.Valid P (objectAt P mem pos (.optional t) h) := ⟨hlen, h⟩
    obtain ⟨⟨hle, hheader⟩, hinner⟩ := placed_box_iff.mp hp
    obtain ⟨hfit, hfits'⟩ := List.forall_mem_cons.mp hfits
    have hn : numberAt mem pos 4 = base + 1 := numberAt_optionalHeader hheader (not_lt.mp hfit.1)
    -- the stored offset is never 0, as it has not wrapped around
    have hpos : 0 < numberAt mem pos 4 := hn.symm ▸ Nat.succ_pos base
    have hderef : Deserialiser.deref P (objectAt P mem pos (.optional t) h) =
        .ok (objectAt P mem base t (fixed_le_of_placed hinner)) := by
      refine (Deserialiser.deref_eq hd hpos).trans ?_
      show deserialise P t mem (numberAt mem pos 4 - 1) = _
      rw [hn]
      exact deserialise_of_le hlen _
    have hhas : Deserialiser.hasValue P (objectAt P mem pos (.optional t) h) = .ok true :=
      (Deserialiser.hasValue_eq hd).trans (congrArg Except.ok (decide_eq_true hpos))
    exact ⟨hhas, _, hderef, (bind_of_ok hhas _).trans hderef,
      yields_of_placed hlen t v base _ _ ht hinner hfits'⟩
  | .variant .nil, _, _, _, _, _, _, _ => trivial
  | .variant (.cons _ _ _), none, _, _, _, _, _, hfits =>
    absurd rfl (hfits _ (List.mem_singleton_self _)).2
  | .variant (.cons name t ts), some v, pos, base, h, ht, hp, hfits => by
    have hd : Deserialiser.Valid P (objectAt P mem pos (.variant (.cons name t ts)) h) := ⟨hlen, h⟩
    obtain ⟨hmax, hts⟩ := Bool.and_eq_true_iff.mp ht
    have hlt := (TypeList.cons name t ts).alternativeIndex_lt v
    have hmax' : (TypeList.cons name t ts).length ≤ 2 ^ 16 - 1 := of_decide_eq_true hmax
    obtain ⟨⟨hle, hheader⟩, hinner⟩ := placed_box_iff.mp hp
    obtain ⟨hfit, hfits'⟩ := List.forall_mem_cons.mp hfits
    obtain ⟨hi, hs⟩ := numberAt_variantHeader hle hheader (by omega) (not_lt.mp hfit.1)
    obtain ⟨u, x, hu, hin, hx, hyields⟩ := yieldsAlternative_of_placed hlen (.cons name t ts) v base
      hts hinner hfits'
    have hget : Deserialiser.getAlternative P (objectAt P mem pos (.variant (.cons name t ts)) h)
        ((TypeList.cons name t ts).alternativeIndex v) = .ok ⟨u, x⟩ := by
      refine (Deserialiser.getAlternative_eq hd _).trans ?_
      rw [hu, hx]
      exact (congrArg (fun o => deserialiseObject P mem o (some u)) hs).trans
        (deserialiseObject_of_le hlen hin)
    refine ⟨?_, fun i hi' hne => ?_, ⟨u, x⟩, ?_, fun σ R visitor => ?_, hyields⟩
    · exact (Deserialiser.index_eq hd (Nat.succ_ne_zero _)).trans (congrArg Except.ok hi)
    · exact (Deserialiser.get_eq hd hi').trans (if_neg fun he => hne (he.trans hi))
    · refine (Deserialiser.get_eq hd hlt).trans ((if_pos hi.symm).trans ?_)
      exact (Deserialiser.getAlternative_eq hd _).symm.trans hget
    · rw [Visitor.visit_of_lt hd (hi.trans_lt hlt)]
      show Visitor.callOn P _ visitor (numberAt mem pos 2) = _
      rw [hi, Visitor.callOn_of_ok hu hget]
  | .record fs bases, v, pos, base, h, ht, hp, hfits => by
    obtain ⟨hu, hfs⟩ := Bool.and_eq_true_iff.mp ht
    have hd : Deserialiser.Valid P (objectAt P mem pos (.record fs bases) h) := ⟨hlen, h⟩
    exact ⟨yieldsFields_of_placed hlen fs v pos base _ hfs hp hfits fun i name t hi _ =>
        Deserialiser.recordGetIndex_eq hd hu hi,
      yieldsFields_of_placed hlen fs v pos base _ hfs hp hfits fun i name t hi hname =>
        Deserialiser.recordGet_eq hd hu hi hname⟩

/-- The elements of a tuple or the fields of a record, by any accessor that deserialises each
at its place. -/
theorem yieldsFields_of_placed (hlen : mem.length < P.sizeRange) : ∀ (ts : TypeList)
    (v : ts.Data List) (pos base : ℕ) (get : ℕ → String → Except Failure Object),
      ts.wellFormed = true → Placed mem (layoutFields ts v) pos base →
        (∀ k ∈ (layoutFields ts v).marks pos base, k.Fits) →
          (∀ i name t, ts.element i = some t → ts.fieldName i = some name →
            get i name = deserialiseObject P mem (pos + (ts.take i).size) (some t)) →
              YieldsFields P ts get v
  | .nil, _, _, _, _, _, _, _, _ => trivial
  | .cons name t ts, v, pos, base, get, hts, hp, hfits, hget => by
    obtain ⟨ht, hts'⟩ := Bool.and_eq_true_iff.mp hts
    obtain ⟨hpt, hps⟩ := placed_append_iff.mp hp
    obtain ⟨hft, hfs⟩ := List.forall_mem_append.mp hfits
    rw [fixedSize_layout] at hps hfs
    refine ⟨⟨_, ?_, yields_of_placed hlen t v.1 pos base (fixed_le_of_placed hpt) ht hpt hft⟩, ?_⟩
    · exact (hget 0 name t rfl rfl).trans (deserialiseObject_of_le hlen _)
    · refine yieldsFields_of_placed hlen ts v.2 _ _ _ hts' hps hfs fun i n u hu hn => ?_
      rw [hget (i + 1) n u hu hn, TypeList.take, TypeList.size, ← Nat.add_assoc]

/-- The alternative of a variant. -/
theorem yieldsAlternative_of_placed (hlen : mem.length < P.sizeRange) : ∀ (ts : TypeList)
    (v : ts.Alternative List) (pos : ℕ), ts.wellFormed = true →
      Placed mem (layoutAlternative ts v) pos (pos + (layoutAlternative ts v).fixedSize) →
        (∀ k ∈ (layoutAlternative ts v).marks pos (pos + (layoutAlternative ts v).fixedSize),
          k.Fits) →
            ∃ (u : Ty) (x : u.Deserialised), ts.element (ts.alternativeIndex v) = some u ∧
              ∃ h : pos + u.size ≤ mem.length, x = objectAt P mem pos u h ∧
                YieldsAlternative P ts ⟨u, x⟩ v
  | .nil, v, _, _, _, _ => nomatch v
  | .cons _ t _, .inl v, pos, hts, hp, hfits =>
    ⟨t, _, rfl, fixed_le_of_placed hp, rfl, _, rfl,
      yields_of_placed hlen t v pos _ _ (Bool.and_eq_true_iff.mp hts).1 hp hfits⟩
  | .cons _ _ ts, .inr v, pos, hts, hp, hfits =>
    yieldsAlternative_of_placed hlen ts v pos (Bool.and_eq_true_iff.mp hts).2 hp hfits

end

/-! ### Over the whole format -/

variable {B : Type} [SerialiseBuffer B] {I : B → Prop} {limit : ℕ} {throws : Exn → Prop}

/-- A memory that holds a value yields that value and no other. -/
theorem deserialise_yields_iff (hlen : mem.length < P.sizeRange) {t : Ty} {v : t.Value}
    {pos base : ℕ} (ht : t.wellFormed = true) (hp : Placed mem (layout t v) pos base)
    (hfits : ∀ k ∈ (layout t v).marks pos base, k.Fits) :
    ∃ d, deserialise P t mem pos = .ok d ∧ ∀ v', Yields P t d v' ↔ v' = v := by
  have hyields := yields_of_placed hlen t v pos base (fixed_le_of_placed hp) ht hp hfits
  refine ⟨_, deserialise_of_le hlen (fixed_le_of_placed hp), fun v' => ⟨fun h => ?_, ?_⟩⟩
  · exact yields_unique t _ v' v h hyields
  · rintro rfl
    exact hyields

/-- **Round trip over the whole format.** Whatever the buffer held before, and wherever in it
the fixed section goes or at the root: if `serialise` returns, then `deserialise` returns an
object that yields the value serialised, and yields no other. -/
theorem deserialise_serialise (hB : LawfulBuffer P B I limit throws) {t : Ty}
    (ht : t.wellFormed = true) (v : t.Source P) {b b' : B} (hI : I b) :
    (∀ pos, pos + t.size ≤ (bytes b).length →
      (bytes b).length + variableSize t (t.value v) < limit →
      Unwrapped P ((layout t (t.value v)).marks pos (bytes b).length) →
      serialise P t v pos b = .ok () b' →
        ∃ d, deserialise P t (bytes b') pos = .ok d ∧
          ∀ v', Yields P t d v' ↔ v' = t.value v) ∧
      (t.size + variableSize t (t.value v) < limit →
        Unwrapped P ((layout t (t.value v)).marks 0 t.size) →
        serialiseObject P t v b = .ok () b' →
          ∃ d, deserialise P t (bytes b') 0 = .ok d ∧
            ∀ v', Yields P t d v' ↔ v' = t.value v) := by
  refine ⟨fun pos hpos hlim hw hrun => ?_, fun hlim hw hrun => ?_⟩
  · obtain ⟨hp, hfits, hlen⟩ := placed_of_serialise hB ht v hI hpos hlim hw hrun
    exact deserialise_yields_iff (hlen ▸ hlim.trans_le hB.limit_le) ht hp hfits
  · obtain ⟨hp, hfits, hlen⟩ := placed_of_serialiseObject hB ht v hI hlim hw hrun
    exact deserialise_yields_iff (hlen ▸ hlim.trans_le hB.limit_le) ht hp hfits

/-- An array of optionals next to a variant, at offset 1 of a buffer that has other data in
it. -/
theorem deserialise_serialise_nested :
    let t : Ty := .pair (.dynamicArray (.optional (.scalar .byte)))
      (.variant (.ofTypes [.scalar .null, .unsigned 2]))
    let v : t.Source .x64 :=
      (.range [some (7 : UInt8), none] (by decide), some (.inr (.inl (513 : Fin (256 ^ 2)))))
    let b : RelocatingBuffer := ⟨List.replicate 16 255, id, 0⟩
    ∃ b' d, serialise .x64 t v 1 b = .ok () b' ∧ deserialise .x64 t (bytes b') 1 = .ok d ∧
      ∀ v', Yields .x64 t d v' ↔ v' = t.value v := by
  intro t v b
  have hB := relocatingBuffer_lawful .x64
  obtain ⟨b', hrun⟩ : ∃ b', serialise .x64 t v 1 b = .ok () b' :=
    serialise_ok hB (by decide) v trivial (by decide) (by decide) (by decide)
  obtain ⟨d, hd⟩ := (deserialise_serialise hB (by decide) v trivial).1 1 (by decide)
    (by decide) (by decide) hrun
  exact ⟨b', d, hrun, hd⟩

/-! ### At the very end of the address space -/

/-- An offset that wraps around is stored as 0, like that of an absent optional. -/
theorem install_optional_wraps {mem : List UInt8} (hlen : mem.length + 1 = P.sizeRange) :
    (layout (.optional (.scalar .null)) (some ())).install mem 0 =
      (layout (.optional (.scalar .null)) none).install mem 0 := by
  have hwrap : P.wrap (mem.length + 1) = 0 := by rw [Platform.wrap, hlen, Nat.mod_self]
  have hheader : optionalHeader (mem.length + 1) = optionalHeader 0 := by
    rw [optionalHeader, ← @toBytes_wrap P, hwrap, optionalHeader]
  exact congrArg (fun xs => overwrite mem 0 xs ++ []) hheader

/-- **An optional of nothing that reads as absent**: in a buffer with as many bytes as the
largest `std::size_t`, `serialise` returns, and what it has written yields the absent
optional. -/
theorem deserialise_serialise_wraps {mem : List UInt8} (hlen : mem.length + 1 = P.sizeRange)
    (schedule : ℕ → ℕ) (resizes : ℕ) :
    let t : Ty := .optional (.scalar .null)
    let v : t.Source P := some ()
    let b : RelocatingBuffer := ⟨mem, schedule, resizes⟩
    ∃ b' d, serialise P t v 0 b = .ok () b' ∧ deserialise P t (bytes b') 0 = .ok d ∧
      ∀ v' : t.Value, Yields P t d v' ↔ v' = none := by
  intro t v b
  have hrange : 2 ^ 32 ≤ P.sizeRange := Platform.two_pow_32_le_sizeRange
  have hB := relocatingBuffer_lawful P
  have hpos : 0 + t.size ≤ (bytes b).length := by
    show 0 + 4 ≤ mem.length
    omega
  have hlim : (bytes b).length + variableSize t (t.value v) < P.sizeRange := by
    show mem.length + 0 < P.sizeRange
    omega
  have haccepted : Mark.failure P (.optional 0 mem.length) = none := by
    have hwrap : P.wrap (mem.length + 1) = 0 := by rw [Platform.wrap, hlen, Nat.mod_self]
    rw [Mark.failure, hwrap, if_neg (Nat.not_lt_zero _)]
  obtain ⟨b', hrun⟩ : ∃ b', serialise P t v 0 b = .ok () b' :=
    serialise_ok hB rfl v trivial hpos hlim fun k hk => List.mem_singleton.mp hk ▸ haccepted
  obtain ⟨-, hb', -⟩ := (serialise_sat hB rfl v trivial hpos hlim).ok hrun
  have hplaced : Placed (bytes b') (layout t none) 0 mem.length := by
    rw [hb']
    exact (install_optional_wraps hlen).symm ▸ placed_install hpos
  have hlen' : (bytes b').length < P.sizeRange := by
    rw [hb']
    exact (Layout.length_install hpos).trans_lt hlim
  obtain ⟨d, hd⟩ := deserialise_yields_iff hlen' rfl hplaced fun k hk => absurd hk List.not_mem_nil
  exact ⟨b', d, hrun, hd⟩

/-- **The round trip fails at the very end of the address space**: in a buffer of 2^64 - 1
bytes, a present optional is serialised, and read back as an absent one. -/
theorem deserialise_serialise_at_end :
    let t : Ty := .optional (.scalar .null)
    let v : t.Source .x64 := some ()
    let b : RelocatingBuffer := ⟨List.replicate (2 ^ 64 - 1) 0, id, 0⟩
    (bytes b).length + variableSize t (t.value v) < 2 ^ 64 ∧
      ∃ b', serialise .x64 t v 0 b = .ok () b' ∧
        ¬∃ d, deserialise .x64 t (bytes b') 0 = .ok d ∧ Yields .x64 t d (t.value v) := by
  intro t v b
  have hlen : (List.replicate (2 ^ 64 - 1) (0 : UInt8)).length = 2 ^ 64 - 1 :=
    List.length_replicate
  obtain ⟨b', d, hrun, hd, hyields⟩ := @deserialise_serialise_wraps .x64 _
    ((congrArg (· + 1) hlen).trans (by decide)) id 0
  refine ⟨?_, b', hrun, ?_⟩
  · show (List.replicate (2 ^ 64 - 1) (0 : UInt8)).length + 0 < _
    rw [hlen]
    decide
  · rintro ⟨d', hd', hyields'⟩
    obtain rfl := ok_inj hd hd'
    exact absurd ((hyields _).mp hyields') nofun

end SerialisePP
