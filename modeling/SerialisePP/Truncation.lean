import SerialisePP.Parse

/-!
# Messages that are cut short or continued

What a reader makes of a buffer of which it has only the beginning, or which goes on after what
was written. Bytes that follow play no part, for arbitrary bytes just as for serialised ones
(`SerialisePP.parse_append`). Bytes that are missing are always noticed: an object of which any
variable data has been cut off cannot be traversed (`SerialisePP.covers_of_parse`), because each
part of the variable section, up to its very last byte, belongs to some object that the
traversal moves to.

So the bytes that `serialise` writes at the root delimit themselves
(`SerialisePP.truncation_detected`).
-/

namespace SerialisePP

open Effect Region SerialiseBuffer TwoSection

variable {mem more : List UInt8} {P : Platform}

/-! ### Bytes that follow -/

theorem length_le_append {n : ℕ} (h : n ≤ mem.length) : n ≤ (mem ++ more).length := by
  rw [List.length_append]
  exact Nat.le_add_right_of_le h

theorem numberAt_append {pos n : ℕ} (h : pos + n ≤ mem.length) :
    numberAt (mem ++ more) pos n = numberAt mem pos n := by
  rw [numberAt, slice_append_left more h, numberAt]

mutual

/-- **What bytes are parsed as does not depend on what follows.** -/
theorem parse_append : ∀ (t : Ty) (pos : ℕ) (v : t.Value), parse mem t pos = some v →
    parse (mem ++ more) t pos = some v
  | .scalar s, pos, v, h => by
    have hle : pos + s.size ≤ mem.length := parse_le h
    obtain ⟨bytes, hbytes, rfl⟩ := bind_pure_eq_some_iff.mp h
    refine bind_pure_eq_some_iff.mpr ⟨bytes, ?_, rfl⟩
    rw [bytesAt, dif_pos hle] at hbytes
    rw [bytesAt, dif_pos (length_le_append hle), ← hbytes]
    exact congrArg some (Subtype.ext (slice_append_left more hle))
  | .staticArray t n, pos, v, h => by
    obtain ⟨hle, hnext⟩ := within_eq_some.mp h
    refine within_eq_some.mpr ⟨length_le_append hle, (subtype_eq_some_iff v.2).mpr ?_⟩
    exact elementsAt_mono (fun pos x => parse_append t pos x) ((subtype_eq_some_iff v.2).mp hnext)
  | .dynamicArray t, pos, v, h => by
    obtain ⟨hle, hnext⟩ := within_eq_some.mp h
    have hle' : pos + 8 ≤ mem.length := hle
    refine within_eq_some.mpr ⟨length_le_append hle, ?_⟩
    rw [numberAt_append (by omega), numberAt_append (by omega)]
    exact elementsAt_mono (fun pos x => parse_append t pos x) hnext
  | .pair a b, pos, v, h => by
    obtain ⟨hle, hnext⟩ := within_eq_some.mp h
    obtain ⟨ha, hb⟩ := pair_eq_some_iff.mp hnext
    exact within_eq_some.mpr ⟨length_le_append hle,
      pair_eq_some_iff.mpr ⟨parse_append a pos v.1 ha, parse_append b _ v.2 hb⟩⟩
  | .tuple ts, pos, v, h => by
    obtain ⟨hle, hnext⟩ := within_eq_some.mp h
    exact within_eq_some.mpr ⟨length_le_append hle, parseFields_append ts pos v hnext⟩
  | .optional t, pos, v, h => by
    obtain ⟨hle, hnext⟩ := within_eq_some.mp h
    have hle' : pos + 4 ≤ mem.length := hle
    refine within_eq_some.mpr ⟨length_le_append hle, ?_⟩
    rw [numberAt_append hle']
    split_ifs at hnext ⊢ with hzero
    · exact hnext
    · obtain ⟨x, hx, rfl⟩ := bind_pure_eq_some_iff.mp hnext
      exact bind_of_some (parse_append t _ x hx) _
  | .variant .nil, pos, v, h => by
    obtain ⟨hle, hnext⟩ := within_eq_some.mp h
    exact within_eq_some.mpr ⟨length_le_append hle, hnext⟩
  | .variant (.cons name t ts), pos, v, h => by
    obtain ⟨hle, hnext⟩ := within_eq_some.mp h
    have hle' : pos + 6 ≤ mem.length := hle
    obtain ⟨x, hx, rfl⟩ := bind_pure_eq_some_iff.mp hnext
    refine within_eq_some.mpr ⟨length_le_append hle, ?_⟩
    rw [numberAt_append (by omega), numberAt_append (by omega)]
    exact bind_of_some (parseAlternative_append (.cons name t ts) _ _ x hx) _
  | .record fs bases, pos, v, h => by
    obtain ⟨hle, hnext⟩ := within_eq_some.mp h
    exact within_eq_some.mpr ⟨length_le_append hle, parseFields_append fs pos v hnext⟩

theorem parseFields_append : ∀ (ts : TypeList) (pos : ℕ) (v : ts.Data List),
    parseFields mem ts pos = some v → parseFields (mem ++ more) ts pos = some v
  | .nil, _, _, h => h
  | .cons _ t ts, pos, v, h => by
    obtain ⟨ht, hts⟩ := pair_eq_some_iff.mp h
    exact pair_eq_some_iff.mpr ⟨parse_append t pos v.1 ht, parseFields_append ts _ v.2 hts⟩

theorem parseAlternative_append : ∀ (ts : TypeList) (index pos : ℕ) (v : ts.Alternative List),
    parseAlternative mem ts index pos = some v →
      parseAlternative (mem ++ more) ts index pos = some v
  | .nil, _, _, v, _ => nomatch v
  | .cons _ t _, 0, pos, v, h => by
    obtain ⟨x, hx, rfl⟩ := bind_pure_eq_some_iff.mp h
    exact bind_of_some (parse_append t pos x hx) _
  | .cons _ _ ts, index + 1, pos, v, h => by
    obtain ⟨x, hx, rfl⟩ := bind_pure_eq_some_iff.mp h
    exact bind_of_some (parseAlternative_append ts index pos x hx) _

end

/-- **Bytes read once are read the same ever after**, however many are appended, and bytes that
are still to come can only turn an object that could not be traversed into one that can. -/
theorem reading_stable (hlen : (mem ++ more).length < P.sizeRange) {t : Ty}
    (ht : t.wellFormed = true) (hs : t.Small) {offset : ℕ} {v : t.Value}
    (h : ReadsAs P mem t offset v) (v' : t.Value) :
    ReadsAs P (mem ++ more) t offset v' ↔ v' = v := by
  have hlen' : mem.length < P.sizeRange := by
    rw [List.length_append] at hlen
    omega
  have hparse := (readsAs_iff_parse hlen' t offset v ht hs).mp h
  rw [readsAs_iff_parse hlen t offset v' ht hs, parse_append t offset v hparse]
  exact Option.some_inj.trans eq_comm

/-- A dynamic array that claims to be made of its own header, and a byte after it. -/
theorem reading_stable_overlapping :
    let t : Ty := .dynamicArray (.unsigned 2)
    ∀ v : t.Value, ReadsAs .x64 ([2, 0, 0, 0, 0, 0, 0, 0] ++ [9]) t 0 v ↔
      v = ([2, 0] : List (Fin (256 ^ 2))) := by
  intro t v
  have hsmall : t.Small := show 2 < 2 ^ 32 by decide
  refine reading_stable (by decide) (by decide) hsmall ?_ v
  exact (readsAs_iff_parse (by decide) t 0 _ (by decide) hsmall).mpr rfl

/-! ### Bytes that are missing -/

/-- **So many bytes cover the variable section** of an object at a base, if it has any. -/
def Covers {μ : Type} (n : ℕ) (l : Layout UInt8 μ) (base : ℕ) : Prop :=
  l.variableSize = 0 ∨ base + l.variableSize ≤ n

theorem Covers.append {μ : Type} {n base : ℕ} {l r : Layout UInt8 μ} (hl : Covers n l base)
    (hr : Covers n r (base + l.variableSize)) : Covers n (l.append r) base := by
  unfold Covers at *
  rw [Layout.variableSize_append]
  omega

/-- The fixed section of the inner object is covered as well, having been read. -/
theorem Covers.box {μ : Type} {n base size : ℕ} {header : ℕ → List UInt8} {mark : ℕ → ℕ → μ}
    {l : Layout UInt8 μ} {h : ∀ base, (header base).length = size}
    (hfixed : l.fixedSize = 0 ∨ base + l.fixedSize ≤ n) (hl : Covers n l (base + l.fixedSize)) :
    Covers n (.box size header mark l h) base := by
  unfold Covers at *
  have hsize : (Layout.box size header mark l h).variableSize = l.fixedSize + l.variableSize := rfl
  omega

/-- A row of objects, each of which is parsed, and covered if it is. -/
theorem covers_concat {t : Ty} {rest : List UInt8}
    (helement : ∀ (x : t.Value) (pos base : ℕ), Placed (mem ++ rest) (layout t x) pos base →
      (∀ k ∈ (layout t x).marks pos base, k.Fits) → parse mem t pos = some x →
        Covers mem.length (layout t x) base) :
    ∀ (xs : List t.Value) (pos base : ℕ),
      Placed (mem ++ rest) (.concat (xs.map (layout t))) pos base →
        (∀ k ∈ (Layout.concat (xs.map (layout t))).marks pos base, k.Fits) →
          elementsAt (parse mem t) t.size xs.length pos = some xs →
            Covers mem.length (.concat (xs.map (layout t))) base
  | [], _, _, _, _, _ => .inl rfl
  | x :: xs, pos, base, hp, hfits, h => by
    obtain ⟨hx, hxs⟩ := placed_append_iff.mp hp
    obtain ⟨hfx, hfxs⟩ := List.forall_mem_append.mp hfits
    rw [fixedSize_layout] at hxs hfxs
    obtain ⟨y, hy, h⟩ := Option.bind_eq_some_iff.mp h
    obtain ⟨ys, hys, h⟩ := Option.bind_eq_some_iff.mp h
    obtain ⟨rfl, rfl⟩ := List.cons.inj (Option.some.inj h)
    exact (helement y pos base hx hfx hy).append (covers_concat helement ys _ _ hxs hfxs hys)

/-- The last element of a row is inside of the buffer. -/
theorem elements_le {t : Ty} {n pos : ℕ} {xs : List t.Value}
    (h : elementsAt (parse mem t) t.size n pos = some xs) :
    t.size * n = 0 ∨ pos + t.size * n ≤ mem.length := by
  obtain ⟨hlen, hat⟩ := elementsAt_eq_some_iff.mp h
  cases n with
  | zero => exact .inl rfl
  | succ n =>
    have hlast : xs[n]? = some (xs.get ⟨n, by omega⟩) := List.getElem?_eq_getElem _
    have := parse_le (hat n _ hlast)
    rw [Nat.mul_succ]
    omega

mutual

/-- **An object that is parsed from the beginning of the memory it was placed in** has all of
its variable section there: by induction over the types. -/
theorem covers_of_parse {rest : List UInt8} : ∀ (t : Ty) (v : t.Value) (pos base : ℕ),
    t.wellFormed = true → Placed (mem ++ rest) (layout t v) pos base →
      (∀ k ∈ (layout t v).marks pos base, k.Fits) → parse mem t pos = some v →
        Covers mem.length (layout t v) base
  | .scalar _, _, _, _, _, _, _, _ => .inl rfl
  | .staticArray t n, v, pos, base, ht, hp, hfits, h => by
    obtain ⟨xs, rfl⟩ := v
    exact covers_concat (fun x pos base hp hf => covers_of_parse t x pos base ht hp hf) xs pos
      base hp hfits ((subtype_eq_some_iff rfl).mp (within_eq_some.mp h).2)
  | .dynamicArray t, (v : List t.Value), pos, base, ht, hp, hfits, h => by
    obtain ⟨hle, hnext⟩ := within_eq_some.mp h
    have hle' : pos + 8 ≤ mem.length := hle
    obtain ⟨⟨hfixed, hheader⟩, helements⟩ := placed_box_iff.mp hp
    obtain ⟨hfit, hfits'⟩ := List.forall_mem_cons.mp hfits
    obtain ⟨hcount, hstart⟩ := not_or.mp hfit.1
    obtain ⟨hn, hs⟩ := numberAt_arrayHeader hfixed hheader (not_lt.mp hcount)
      fun hpos => not_lt.mp fun hbig => hstart ⟨hpos, hbig⟩
    rw [numberAt_append (by omega), List.length_map] at hn
    rw [numberAt_append (by omega), List.length_map] at hs
    rw [hn, hs] at hnext
    have hk : ∀ l ∈ v.map (layout t), l.fixedSize = t.size := by
      intro l hl
      obtain ⟨x, -, rfl⟩ := List.mem_map.mp hl
      exact fixedSize_layout t x
    rcases Nat.eq_zero_or_pos v.length with hzero | hpos
    · obtain rfl := List.eq_nil_of_length_eq_zero hzero
      exact .inl rfl
    · rw [if_pos hpos] at hnext
      refine Covers.box ?_ (covers_concat
        (fun x pos base hp hf => covers_of_parse t x pos base ht hp hf) v base _ helements hfits'
          hnext)
      rw [Layout.fixedSize_concat hk, List.length_map]
      exact elements_le hnext
  | .pair a b, v, pos, base, ht, hp, hfits, h => by
    obtain ⟨ha, hb⟩ := Bool.and_eq_true_iff.mp ht
    obtain ⟨hpa, hpb⟩ := placed_append_iff.mp hp
    obtain ⟨hfa, hfb⟩ := List.forall_mem_append.mp hfits
    obtain ⟨hva, hvb⟩ := pair_eq_some_iff.mp (within_eq_some.mp h).2
    rw [fixedSize_layout] at hpb hfb
    exact (covers_of_parse a v.1 pos base ha hpa hfa hva).append
      (covers_of_parse b v.2 _ _ hb hpb hfb hvb)
  | .tuple ts, v, pos, base, ht, hp, hfits, h =>
    coversFields_of_parse ts v pos base ht hp hfits (within_eq_some.mp h).2
  | .optional _, none, _, _, _, _, _, _ => .inl rfl
  | .optional t, some v, pos, base, ht, hp, hfits, h => by
    obtain ⟨hle, hnext⟩ := within_eq_some.mp h
    have hle' : pos + 4 ≤ mem.length := hle
    obtain ⟨⟨-, hheader⟩, hinner⟩ := placed_box_iff.mp hp
    obtain ⟨hfit, hfits'⟩ := List.forall_mem_cons.mp hfits
    have hn : numberAt (mem ++ rest) pos 4 = base + 1 :=
      numberAt_optionalHeader hheader (not_lt.mp hfit.1)
    rw [numberAt_append hle'] at hn
    rw [if_neg (hn ▸ Nat.succ_ne_zero base), hn] at hnext
    have hv : parse mem t base = some v :=
      (bind_pure_eq_some_apply_iff (Option.some_injective _)).mp hnext
    refine Covers.box (.inr ?_) (covers_of_parse t v base _ ht hinner hfits' hv)
    rw [fixedSize_layout]
    exact parse_le hv
  | .variant .nil, _, _, _, _, _, _, _ => .inl rfl
  | .variant (.cons _ _ _), none, _, _, _, _, _, _ => .inl rfl
  | .variant (.cons name t ts), some v, pos, base, ht, hp, hfits, h => by
    obtain ⟨hmax, hts⟩ := Bool.and_eq_true_iff.mp ht
    have hlt := (TypeList.cons name t ts).alternativeIndex_lt v
    have hmax' : (TypeList.cons name t ts).length ≤ 2 ^ 16 - 1 := of_decide_eq_true hmax
    obtain ⟨hle, hnext⟩ := within_eq_some.mp h
    have hle' : pos + 6 ≤ mem.length := hle
    obtain ⟨⟨hfixed, hheader⟩, hinner⟩ := placed_box_iff.mp hp
    obtain ⟨hfit, hfits'⟩ := List.forall_mem_cons.mp hfits
    obtain ⟨hi, hs⟩ := numberAt_variantHeader hfixed hheader (by omega) (not_lt.mp hfit.1)
    rw [numberAt_append (by omega)] at hi hs
    rw [hi, hs] at hnext
    have hv := (bind_pure_eq_some_apply_iff (Option.some_injective _)).mp hnext
    obtain ⟨hin, hcovers⟩ :=
      coversAlternative_of_parse (.cons name t ts) v base hts hinner hfits' hv
    exact Covers.box (.inr hin) hcovers
  | .record fs _, v, pos, base, ht, hp, hfits, h =>
    coversFields_of_parse fs v pos base (Bool.and_eq_true_iff.mp ht).2 hp hfits
      (within_eq_some.mp h).2

theorem coversFields_of_parse {rest : List UInt8} : ∀ (ts : TypeList) (v : ts.Data List)
    (pos base : ℕ), ts.wellFormed = true → Placed (mem ++ rest) (layoutFields ts v) pos base →
      (∀ k ∈ (layoutFields ts v).marks pos base, k.Fits) → parseFields mem ts pos = some v →
        Covers mem.length (layoutFields ts v) base
  | .nil, _, _, _, _, _, _, _ => .inl rfl
  | .cons _ t ts, v, pos, base, hts, hp, hfits, h => by
    obtain ⟨ht, hts'⟩ := Bool.and_eq_true_iff.mp hts
    obtain ⟨hpt, hps⟩ := placed_append_iff.mp hp
    obtain ⟨hft, hfs⟩ := List.forall_mem_append.mp hfits
    obtain ⟨hvt, hvs⟩ := pair_eq_some_iff.mp h
    rw [fixedSize_layout] at hps hfs
    exact (covers_of_parse t v.1 pos base ht hpt hft hvt).append
      (coversFields_of_parse ts v.2 _ _ hts' hps hfs hvs)

theorem coversAlternative_of_parse {rest : List UInt8} : ∀ (ts : TypeList)
    (v : ts.Alternative List) (pos : ℕ), ts.wellFormed = true →
      Placed (mem ++ rest) (layoutAlternative ts v) pos (pos + (layoutAlternative ts v).fixedSize) →
        (∀ k ∈ (layoutAlternative ts v).marks pos (pos + (layoutAlternative ts v).fixedSize),
          k.Fits) → parseAlternative mem ts (ts.alternativeIndex v) pos = some v →
            pos + (layoutAlternative ts v).fixedSize ≤ mem.length ∧
              Covers mem.length (layoutAlternative ts v)
                (pos + (layoutAlternative ts v).fixedSize)
  | .nil, v, _, _, _, _, _ => nomatch v
  | .cons _ t _, .inl v, pos, hts, hp, hfits, h => by
    have hv : parse mem t pos = some v := (bind_pure_eq_some_apply_iff Sum.inl_injective).mp h
    refine ⟨?_, covers_of_parse t v pos _ (Bool.and_eq_true_iff.mp hts).1 hp hfits hv⟩
    exact (fixedSize_layout t v).symm ▸ parse_le hv
  | .cons _ _ ts, .inr v, pos, hts, hp, hfits, h =>
    coversAlternative_of_parse ts v pos (Bool.and_eq_true_iff.mp hts).2 hp hfits
      ((bind_pure_eq_some_apply_iff Sum.inr_injective).mp h)

end

/-! ### Serialised objects -/

section Reader

/-- **What is read from the beginning of a memory that holds an object** is that object, and all
of it is there. The reader only has to address what it has got. -/
theorem covers_of_readsAs {Q : Platform} {n : ℕ} (hlen : mem.length < P.sizeRange)
    (hcut : (mem.take n).length < Q.sizeRange) {t : Ty} (ht : t.wellFormed = true) (hs : t.Small)
    {v v' : t.Value} {pos base : ℕ} (hp : Placed mem (layout t v) pos base)
    (hfits : ∀ k ∈ (layout t v).marks pos base, k.Fits)
    (h : ReadsAs Q (mem.take n) t pos v') :
    v' = v ∧ pos + t.size ≤ n ∧ Covers n (layout t v) base := by
  have hsplit : mem.take n ++ mem.drop n = mem := List.take_append_drop n mem
  have hle : (mem.take n).length ≤ n := List.length_take_le n mem
  have hparse := (readsAs_iff_parse hcut t pos v' ht hs).mp h
  -- the whole memory is read as what its beginning is read as, and as what was placed
  obtain ⟨d, hd, hyields⟩ := deserialise_yields_iff hlen ht hp hfits
  have hv : v' = v := by
    have hplaced : parse mem t pos = some v :=
      (readsAs_iff_parse hlen t pos v ht hs).mp ⟨d, hd, (hyields v).mpr rfl⟩
    have hwhole := @parse_append _ (mem.drop n) t pos v' hparse
    rw [hsplit, hplaced] at hwhole
    exact (Option.some.inj hwhole).symm
  subst hv
  rw [← hsplit] at hp
  have hin : pos + t.size ≤ n := (parse_le hparse).trans hle
  refine ⟨rfl, hin, (covers_of_parse t v' pos base ht hp hfits hparse).imp_right ?_⟩
  exact fun hcovers => hcovers.trans hle

variable {B : Type} [SerialiseBuffer B] {I : B → Prop} {limit : ℕ} {throws : Exn → Prop}

/-- **Missing bytes are always noticed.** If only the first bytes of a buffer are left, an
object that was serialised into it is not read unless its fixed section and every byte of its
variable section are there, and is then read as what it is. So nothing can be read from a
message of which the end is missing, and no message is the beginning of another one of its type.
The reader may be any machine that can address the bytes that are left. -/
theorem truncation_detected (hB : LawfulBuffer P B I limit throws) {t : Ty}
    (ht : t.wellFormed = true) (hs : t.Small) (v : t.Source P) {b b' : B} (hI : I b) :
    (∀ pos, pos + t.size ≤ (bytes b).length →
      (bytes b).length + variableSize t (t.value v) < limit →
      Unwrapped P ((layout t (t.value v)).marks pos (bytes b).length) →
      serialise P t v pos b = .ok () b' →
        ∀ (n : ℕ) (Q : Platform), ((bytes b').take n).length < Q.sizeRange →
          ∀ v', ReadsAs Q ((bytes b').take n) t pos v' →
            v' = t.value v ∧ pos + t.size ≤ n ∧
              (variableSize t (t.value v) = 0 ∨ (bytes b').length ≤ n)) ∧
    (t.size + variableSize t (t.value v) < limit →
      Unwrapped P ((layout t (t.value v)).marks 0 t.size) →
      serialiseObject P t v b = .ok () b' →
        (∀ n < (bytes b').length, ∀ Q : Platform, n < Q.sizeRange →
          ∀ v', ¬ReadsAs Q ((bytes b').take n) t 0 v') ∧
          ∀ (w : t.Source P) (c c' : B), I c → t.size + variableSize t (t.value w) < limit →
            Unwrapped P ((layout t (t.value w)).marks 0 t.size) →
            serialiseObject P t w c = .ok () c' → bytes c' <+: bytes b' →
              bytes c' = bytes b' ∧ t.value w = t.value v) := by
  refine ⟨fun pos hpos hlim hw hrun n Q hcut v' h => ?_, fun hlim hw hrun => ?_⟩
  · obtain ⟨hp, hfits, hlen⟩ := placed_of_serialise hB ht v hI hpos hlim hw hrun
    obtain ⟨hv, hin, hcovers⟩ :=
      covers_of_readsAs (hlen ▸ hlim.trans_le hB.limit_le) hcut ht hs hp hfits h
    exact ⟨hv, hin, hcovers.imp_right fun h => hlen ▸ h⟩
  · obtain ⟨hp, hfits, hlen⟩ := placed_of_serialiseObject hB ht v hI hlim hw hrun
    have hread : ∀ n (Q : Platform), ((bytes b').take n).length < Q.sizeRange →
        ∀ v', ReadsAs Q ((bytes b').take n) t 0 v' →
          v' = t.value v ∧ (bytes b').length ≤ n := by
      intro n Q hcut v' h
      obtain ⟨hv, hin, hcovers⟩ :=
        covers_of_readsAs (hlen ▸ hlim.trans_le hB.limit_le) hcut ht hs hp hfits h
      refine ⟨hv, ?_⟩
      rcases hcovers with hzero | hcovers
      · have hnone : variableSize t (t.value v) = 0 := hzero
        omega
      · exact hlen ▸ hcovers
    constructor
    · intro n hn Q hcut v' h
      have htake : ((bytes b').take n).length < Q.sizeRange :=
        (List.length_take_le n _).trans_lt hcut
      exact absurd (hread n Q htake v' h).2 (not_le.mpr hn)
    · -- another message is the beginning of this one: read it on the machine that wrote both
      rintro w c c' hIc hlimc hwc hrunc hprefix
      obtain ⟨hpc, hfitsc, hlenc⟩ := placed_of_serialiseObject hB ht w hIc hlimc hwc hrunc
      have hrange : (bytes c').length < P.sizeRange := hlenc ▸ hlimc.trans_le hB.limit_le
      obtain ⟨d, hd, hyields⟩ := deserialise_yields_iff hrange ht hpc hfitsc
      have hc : bytes c' = (bytes b').take (bytes c').length :=
        List.prefix_iff_eq_take.mp hprefix
      obtain ⟨hvalue, hge⟩ := hread (bytes c').length P (hc ▸ hrange) (t.value w)
        ⟨d, hc ▸ hd, (hyields _).mpr rfl⟩
      exact ⟨hc.trans (List.take_of_length_le hge), hvalue⟩

/-- A present optional, of six bytes, and a reader of 32 bits. -/
theorem truncation_detected_optional :
    let t : Ty := .optional (.unsigned 2)
    let v : t.Source .x64 := some (513 : Fin (256 ^ 2))
    let b : RelocatingBuffer := ⟨[], id, 0⟩
    ∃ b', serialiseObject .x64 t v b = .ok () b' ∧ bytes b' = [5, 0, 0, 0, 1, 2] ∧
      ∀ n < 6, ∀ v', ¬ReadsAs .x86 ((bytes b').take n) t 0 v' := by
  intro t v b
  have hB := relocatingBuffer_lawful .x64
  have hsmall : t.Small := show 2 < 2 ^ 32 by decide
  obtain ⟨b', hrun, hb'⟩ : ∃ b', serialiseObject .x64 t v b = .ok () b' ∧ bytes b' = _ :=
    serialiseObject_ok hB (by decide) v trivial (by decide) (by decide)
  have hbytes : bytes b' = [5, 0, 0, 0, 1, 2] := hb'.trans (by decide)
  have hcut := ((truncation_detected hB (by decide) hsmall v trivial).2 (by decide) (by decide)
    hrun).1
  rw [hbytes] at hcut
  refine ⟨b', hrun, hbytes, fun n hn => ?_⟩
  have hrange : n < Platform.x86.sizeRange := hn.trans (by decide)
  exact hbytes ▸ hcut n hn .x86 hrange

end Reader

end SerialisePP
