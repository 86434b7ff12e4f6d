import SerialisePP.Accessors

/-!
# The elements of a hostile dynamic array

The header of a `dynamic_array` is two numbers of 32 bits that may be anything, and the offset of
an element is computed from one of them and an index below the other: `offset + size * index`, in
`std::size_t`. The bounds check comes after that, and sees only what is left of the sum.

The computation is exact if the sum is a `std::size_t`, which it always is for a type of less than
2^32 bytes if `std::size_t` has 64 bits. Otherwise the element is looked for where the sum has
wrapped around to, and is found there whenever the check lets it
(`SerialisePP.Deserialiser.addressing_exact_iff`): with 32 bits, an index whose element is out of
bounds can be the alias of one whose element is not
(`SerialisePP.Deserialiser.addressing_wraps_around`).
-/

namespace SerialisePP

namespace Deserialiser

variable {P : Platform} {t : Ty}

/-- **The offset of an element**, as a mathematical integer. -/
def elementOffset (d : Deserialiser (.dynamicArray t)) (i : ℕ) : ℕ :=
  numberAt d.buffer (d.fixedOffset + 4) 4 + t.size * i

/-- **A read is exact**: it returns the object at an offset if the fixed data of that object is in
the buffer, and throws `buffer_bounds_error` if it is not. -/
def ReadsAt (P : Platform) (mem : List UInt8) (t : Ty) (pos : ℕ)
    (read : Except Failure t.Deserialised) : Prop :=
  if h : pos + t.size ≤ mem.length then read = .ok (objectAt P mem pos t h)
  else ∃ what, read = .error (.thrown (.bufferBoundsError what))

/-- Both accessors read an element where it is. -/
def AddressesExactly (P : Platform) (d : Deserialiser (.dynamicArray t)) (i : ℕ) : Prop :=
  ReadsAt P d.buffer t (d.elementOffset i) (d.dynamicIndex P i) ∧
    ReadsAt P d.buffer t (d.elementOffset i) (d.dynamicAt P i)

/-- What the accessors do look at: the same offset, as a `std::size_t`. -/
theorem dynamicIndex_eq_wrap {d : Deserialiser (.dynamicArray t)} (hd : d.Valid P) {i : ℕ}
    (hi : i < numberAt d.buffer d.fixedOffset 4) :
    d.dynamicIndex P i = deserialise P t d.buffer (P.wrap (d.elementOffset i)) ∧
      d.dynamicAt P i = deserialise P t d.buffer (P.wrap (d.elementOffset i)) := by
  have hindex := dynamicIndex_eq hd hi
  refine ⟨hindex, ?_⟩
  rw [dynamicAt_eq hd i, if_pos hi]
  exact hindex

/-- A read at the residue of an offset is a read at the offset if the offset is a `std::size_t`,
or if both are refused. -/
theorem readsAt_wrap_iff {mem : List UInt8} (hlen : mem.length < P.sizeRange)
    (ht : t.size < P.sizeRange) (pos : ℕ) :
    ReadsAt P mem t pos (deserialise P t mem (P.wrap pos)) ↔
      pos < P.sizeRange ∨ mem.length < P.wrap pos + t.size := by
  rw [ReadsAt, deserialise_eq hlen ht]
  rcases Nat.lt_or_ge pos P.sizeRange with hpos | hpos
  · have hwrap : P.wrap pos = pos := Platform.wrap_of_lt hpos
    simp only [hwrap, hpos, true_or, iff_true]
    split_ifs with hin
    · rfl
    · exact ⟨_, rfl⟩
  · -- the buffer ends before the offset does
    have hout : ¬pos + t.size ≤ mem.length := by omega
    simp only [hout, dite_false, not_lt.mpr hpos, false_or]
    split_ifs with hin
    · refine iff_of_false ?_ (not_lt.mpr hin)
      rintro ⟨-, h⟩
      cases h
    · exact iff_of_true ⟨_, rfl⟩ (not_le.mp hin)

/-- **Two elements have no byte in common**, where they are. -/
theorem elements_apart {d : Deserialiser (.dynamicArray t)} {i j : ℕ} (hne : i ≠ j) :
    d.elementOffset i + t.size ≤ d.elementOffset j ∨
      d.elementOffset j + t.size ≤ d.elementOffset i := by
  unfold elementOffset
  rcases Nat.lt_or_gt_of_ne hne with h | h
  · have := Nat.mul_le_mul_left t.size (Nat.succ_le_of_lt h)
    rw [Nat.mul_succ] at this
    omega
  · have := Nat.mul_le_mul_left t.size (Nat.succ_le_of_lt h)
    rw [Nat.mul_succ] at this
    omega

/-- **When element addressing is exact**, for either width of `std::size_t` and any header: if and
only if the offset of the element is a `std::size_t`, or there is no room for the element at what
the offset has wrapped around to either. Two elements that are both read where they are have no
byte in common. -/
theorem addressing_exact_iff {mem : List UInt8} {offset : ℕ} {d : Deserialiser (.dynamicArray t)}
    (hlen : mem.length < P.sizeRange) (ht : t.size < P.sizeRange)
    (hd : deserialise P (.dynamicArray t) mem offset = .ok d) :
    (∀ i < numberAt d.buffer d.fixedOffset 4, AddressesExactly P d i ↔
      d.elementOffset i < P.sizeRange ∨ mem.length < P.wrap (d.elementOffset i) + t.size) ∧
      ∀ i < numberAt d.buffer d.fixedOffset 4, ∀ j < numberAt d.buffer d.fixedOffset 4,
        i ≠ j → AddressesExactly P d i → AddressesExactly P d j →
          ∀ x y, d.dynamicIndex P i = .ok x → d.dynamicIndex P j = .ok y →
            P.wrap (d.elementOffset i) + t.size ≤ P.wrap (d.elementOffset j) ∨
              P.wrap (d.elementOffset j) + t.size ≤ P.wrap (d.elementOffset i) := by
  have hvalid : d.Valid P ∧ d.buffer = mem := by
    have hsize : (Ty.dynamicArray t).size < P.sizeRange :=
      (by decide : 8 < 2 ^ 32).trans_le Platform.two_pow_32_le_sizeRange
    rw [deserialise_eq hlen hsize] at hd
    split_ifs at hd with hin
    obtain rfl := Except.ok.inj hd
    exact ⟨⟨hlen, hin⟩, rfl⟩
  obtain ⟨hvalid, rfl⟩ := hvalid
  have hiff : ∀ i < numberAt d.buffer d.fixedOffset 4, AddressesExactly P d i ↔
      d.elementOffset i < P.sizeRange ∨
        d.buffer.length < P.wrap (d.elementOffset i) + t.size := by
    intro i hi
    obtain ⟨hindex, hat⟩ := dynamicIndex_eq_wrap hvalid hi
    rw [AddressesExactly, hindex, hat, and_self, readsAt_wrap_iff hlen ht]
  -- an element that is returned is in the buffer, at the residue of its offset
  have hexact : ∀ i < numberAt d.buffer d.fixedOffset 4, AddressesExactly P d i →
      ∀ x, d.dynamicIndex P i = .ok x → P.wrap (d.elementOffset i) = d.elementOffset i := by
    intro i hi h x hx
    rcases (hiff i hi).mp h with hlt | hout
    · exact Platform.wrap_of_lt hlt
    · rw [(dynamicIndex_eq_wrap hvalid hi).1, deserialise_of_not_le ht (not_le.mpr hout)] at hx
      cases hx
  refine ⟨hiff, fun i hi j hj hne hai haj x y hx hy => ?_⟩
  rw [hexact i hi hai x hx, hexact j hj haj y hy]
  exact elements_apart hne

/-- Two numbers of two bytes are returned and have no byte in common, and the third one that the
header claims there to be is refused. -/
theorem addressing_exact_last :
    let mem : List UInt8 := [3, 0, 0, 0, 8, 0, 0, 0, 7, 0, 1, 2]
    let d : Deserialiser (.dynamicArray (.unsigned 2)) := ⟨mem, 0⟩
    d.dynamicIndex .x86 0 = .ok (7 : Fin (256 ^ 2)) ∧
      d.dynamicIndex .x86 1 = .ok (513 : Fin (256 ^ 2)) ∧
      (∀ i < 3, AddressesExactly .x86 d i) ∧
      (Platform.x86.wrap (d.elementOffset 0) + 2 ≤ Platform.x86.wrap (d.elementOffset 1) ∨
        Platform.x86.wrap (d.elementOffset 1) + 2 ≤ Platform.x86.wrap (d.elementOffset 0)) := by
  intro mem d
  have hd : deserialise .x86 (.dynamicArray (.unsigned 2)) mem 0 = .ok d := rfl
  obtain ⟨hiff, hapart⟩ := addressing_exact_iff (by decide) (by decide) hd
  have hexact : ∀ i < 3, AddressesExactly .x86 d i := fun i hi => by
    refine (hiff i (hi.trans_le (by decide))).mpr (.inl ?_)
    show 8 + 2 * i < Platform.x86.sizeRange
    exact Nat.lt_of_lt_of_le (by omega : 8 + 2 * i < 16) (by decide)
  have hlt : ∀ i < 3, i < numberAt d.buffer d.fixedOffset 4 := fun i hi => hi.trans_le (by decide)
  exact ⟨rfl, rfl, hexact, hapart 0 (hlt 0 (by decide)) 1 (hlt 1 (by decide)) (by decide)
    (hexact 0 (by decide)) (hexact 1 (by decide)) _ _ rfl rfl⟩

/-- **The offset of an element wraps around**: with a 32-bit `std::size_t`, the element with index
2^31 of an array of numbers of two bytes is read at the offset of the first one. -/
theorem addressing_wraps_around :
    let mem : List UInt8 := [255, 255, 255, 255, 0, 0, 0, 0]
    let d : Deserialiser (.dynamicArray (.unsigned 2)) := ⟨mem, 0⟩
    deserialise .x86 (.dynamicArray (.unsigned 2)) mem 0 = .ok d ∧
      2 ^ 31 < numberAt d.buffer d.fixedOffset 4 ∧
      mem.length < d.elementOffset (2 ^ 31) + 2 ∧
      d.dynamicIndex .x86 (2 ^ 31) = .ok (65535 : Fin (256 ^ 2)) ∧
      d.dynamicIndex .x86 0 = d.dynamicIndex .x86 (2 ^ 31) ∧
      ¬AddressesExactly .x86 d (2 ^ 31) := by
  intro mem d
  have hd : deserialise .x86 (.dynamicArray (.unsigned 2)) mem 0 = .ok d := rfl
  have hvalid : d.Valid .x86 := ⟨by decide, by decide⟩
  have hwrap : Platform.x86.wrap (d.elementOffset (2 ^ 31)) = 0 := by decide
  have hlast : d.dynamicIndex .x86 (2 ^ 31) = .ok (65535 : Fin (256 ^ 2)) := by
    rw [(dynamicIndex_eq_wrap hvalid (by decide)).1, hwrap]
    rfl
  refine ⟨hd, by decide, by decide, hlast, hlast.symm, fun h => ?_⟩
  have hout : ¬d.elementOffset (2 ^ 31) + (Ty.unsigned 2).size ≤ d.buffer.length := by decide
  have hread := h.1
  rw [ReadsAt, dif_neg hout, hlast] at hread
  obtain ⟨what, hwhat⟩ := hread
  cases hwhat

end Deserialiser

end SerialisePP
