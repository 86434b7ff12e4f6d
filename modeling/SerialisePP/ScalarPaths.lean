import SerialisePP.Contract
import SerialisePP.Reading

/-!
# The ways to write and to read an integer

Integers are written and read in three ways each, one for every kind of machine and one for
constant evaluation, of which a program only ever sees one. `SerialisePP.scalar_paths_agree` is that
all of them agree, for integers of any width, and that writing and reading are inverse in both
directions.

In `SerialisePP.Scalar` the loops that shift the value are written with natural numbers. The program
computes in the type that the integer is promoted to, which is `int` for the narrow ones, and then
converts the result back. Here the loops are in that arithmetic, with the shifts undefined
that the language does not define.
-/

namespace SerialisePP

open Effect LittleEndian Region SerialiseBuffer

/-! ### Integral promotion -/

/-- **The width of `int`**, which the language wants to be 16 bits at least. -/
structure IntWidth where
  /-- The number of bits. -/
  bits : ℕ
  le_bits : 16 ≤ bits

namespace IntWidth

variable (W : IntWidth) {n : ℕ}

/-- The width of what an unsigned integer of `n` bytes is promoted to: an `int` if that is wider,
or else an unsigned integer of the same width. -/
def promotedBits (n : ℕ) : ℕ := max W.bits (8 * n)

/-- **Integral promotion**, which keeps the value. -/
def promote (value : BitVec (8 * n)) : BitVec (W.promotedBits n) := value.setWidth _

/-- `>>`, after promotion. It is arithmetic on an `int`, and undefined from the width on. -/
def shiftRight (value : BitVec (8 * n)) (count : ℕ) :
    Except Failure (BitVec (W.promotedBits n)) :=
  if W.promotedBits n ≤ count then throw .undefined
  else if 8 * n < W.bits then pure ((W.promote value).sshiftRight count)
  else pure (W.promote value >>> count)

/-- `<<`, after promotion. It is undefined from the width on. -/
def shiftLeft (value : BitVec (8 * n)) (count : ℕ) :
    Except Failure (BitVec (W.promotedBits n)) :=
  if W.promotedBits n ≤ count then throw .undefined else pure (W.promote value <<< count)

/-! ### The loops -/

/-- **The loop of `serialiser<U>`**, for so many bytes. -/
def encodeLoop : ℕ → BitVec (8 * n) → Except Failure (List UInt8)
  | 0, _ => pure []
  | k + 1, value => do
    -- `static_cast<std::byte>(value & 0xFFu)`
    let byte : UInt8 := ⟨(W.promote value &&& 0xFF).setWidth 8⟩
    -- `value >>= 8`
    let shifted ← W.shiftRight value 8
    let bytes ← encodeLoop k (shifted.setWidth (8 * n))
    pure (byte :: bytes)

/-- **The loop of `deserialiser<U>`**, from the `i`th byte on. -/
def decodeLoop : (i : ℕ) → BitVec (8 * n) → List UInt8 → Except Failure (BitVec (8 * n))
  | _, value, [] => pure value
  | i, value, b :: bs => do
    -- `value |= std::to_integer<U>(b) << (i * 8)`
    let shifted ← W.shiftLeft (b.toBitVec.setWidth (8 * n)) (i * 8)
    decodeLoop (i + 1) ((W.promote value ||| shifted).setWidth (8 * n)) bs

theorem le_promotedBits : 8 * n ≤ W.promotedBits n := Nat.le_max_right ..

theorem toNat_promote (value : BitVec (8 * n)) : (W.promote value).toNat = value.toNat :=
  BitVec.toNat_setWidth_of_le W.le_promotedBits

/-- An `int` that an unsigned integer has been promoted to is not negative. -/
theorem msb_promote (h : 8 * n < W.bits) (value : BitVec (8 * n)) :
    (W.promote value).msb = false := by
  rw [BitVec.msb_eq_false_iff_two_mul_lt, toNat_promote]
  have hlt : 8 * n + 1 ≤ W.promotedBits n := h.trans_le (Nat.le_max_left ..)
  calc 2 * value.toNat < 2 * 2 ^ (8 * n) := by have := value.isLt; omega
    _ = 2 ^ (8 * n + 1) := by ring
    _ ≤ 2 ^ W.promotedBits n := Nat.pow_le_pow_right (by norm_num) hlt

/-- **The loop goes from one value to the next** as the loop over natural numbers does. -/
theorem shiftRight_eq (value : BitVec (8 * n)) : ∃ shifted, W.shiftRight value 8 = .ok shifted ∧
    (shifted.setWidth (8 * n)).toNat = value.toNat >>> 8 := by
  have hdefined : ¬W.promotedBits n ≤ 8 := by
    have hle : W.bits ≤ W.promotedBits n := Nat.le_max_left ..
    have := W.le_bits
    omega
  have hnext : ((W.promote value >>> 8).setWidth (8 * n)).toNat = value.toNat >>> 8 := by
    rw [BitVec.toNat_setWidth, BitVec.toNat_ushiftRight, toNat_promote]
    refine Nat.mod_eq_of_lt (lt_of_le_of_lt ?_ value.isLt)
    rw [Nat.shiftRight_eq_div_pow]
    exact Nat.div_le_self ..
  refine ⟨W.promote value >>> 8, ?_, hnext⟩
  rw [shiftRight, if_neg hdefined]
  split_ifs with h
  · rw [BitVec.sshiftRight_eq_of_msb_false (W.msb_promote h value)]
    rfl
  · rfl

/-- The byte is that of the loop over natural numbers. -/
theorem lowByte_eq (hn : 0 < n) (value : BitVec (8 * n)) :
    (⟨(W.promote value &&& 0xFF).setWidth 8⟩ : UInt8) = UInt8.ofNat (value.toNat &&& 0xFF) := by
  refine UInt8.toNat_inj.mp ?_
  have hwide : 2 ^ 8 ≤ 2 ^ W.promotedBits n := by
    have hle := W.le_promotedBits (n := n)
    exact Nat.pow_le_pow_right (by norm_num) (by omega)
  have hmask : (0xFF : BitVec (W.promotedBits n)).toNat = 0xFF :=
    (BitVec.toNat_ofNat ..).trans (Nat.mod_eq_of_lt (lt_of_lt_of_le (by norm_num) hwide))
  show ((W.promote value &&& 0xFF).setWidth 8).toNat = _
  rw [BitVec.toNat_setWidth, BitVec.toNat_and, toNat_promote, hmask,
    UInt8.toNat_ofNat']

/-- **The loop of the serialiser**, in natural numbers. -/
theorem encodeLoop_eq : ∀ (k : ℕ) (value : BitVec (8 * n)), k ≤ n →
    W.encodeLoop k value = .ok (shiftBytes k value.toNat)
  | 0, _, _ => rfl
  | k + 1, value, h => by
    obtain ⟨shifted, hshift, hnext⟩ := W.shiftRight_eq value
    have hrest := encodeLoop_eq k (shifted.setWidth (8 * n)) (by omega)
    rw [encodeLoop, hshift]
    show (W.encodeLoop k (shifted.setWidth (8 * n)) >>= _) = _
    rw [hrest, hnext, W.lowByte_eq (by omega) value]
    rfl

/-- **The loop of the deserialiser**, in natural numbers. -/
theorem decodeLoop_eq : ∀ (bytes : List UInt8) (i : ℕ) (value : BitVec (8 * n)),
    i + bytes.length ≤ n → ∃ result, W.decodeLoop i value bytes = .ok result ∧
      result.toNat = shiftValue i value.toNat bytes
  | [], _, value, _ => ⟨value, rfl, rfl⟩
  | b :: bs, i, value, h => by
    rw [List.length_cons] at h
    have hdefined : ¬W.promotedBits n ≤ i * 8 := by
      have hle := W.le_promotedBits (n := n)
      omega
    have hshift : W.shiftLeft (b.toBitVec.setWidth (8 * n)) (i * 8) =
        .ok (W.promote (b.toBitVec.setWidth (8 * n)) <<< (i * 8)) := if_neg hdefined
    -- neither the shift nor the conversion back loses a bit
    have hb : b.toNat <<< (i * 8) < 2 ^ (8 * n) := by
      have hlt : b.toNat < 2 ^ 8 := b.toNat_lt
      rw [Nat.shiftLeft_eq]
      calc b.toNat * 2 ^ (i * 8) < 2 ^ 8 * 2 ^ (i * 8) := by
            exact Nat.mul_lt_mul_of_pos_right hlt (Nat.two_pow_pos _)
        _ = 2 ^ (8 + i * 8) := (pow_add 2 8 (i * 8)).symm
        _ ≤ 2 ^ (8 * n) := Nat.pow_le_pow_right (by norm_num) (by omega)
    have hbyte : (b.toBitVec.setWidth (8 * n)).toNat = b.toNat :=
      BitVec.toNat_setWidth_of_le (by omega)
    have hwide : 2 ^ (8 * n) ≤ 2 ^ W.promotedBits n :=
      Nat.pow_le_pow_right (by norm_num) W.le_promotedBits
    have hnext : ((W.promote value ||| W.promote (b.toBitVec.setWidth (8 * n)) <<< (i * 8)).setWidth
        (8 * n)).toNat = value.toNat ||| b.toNat <<< (i * 8) := by
      rw [BitVec.toNat_setWidth, BitVec.toNat_or, BitVec.toNat_shiftLeft, toNat_promote,
        toNat_promote, hbyte, Nat.mod_eq_of_lt (hb.trans_le hwide)]
      exact Nat.mod_eq_of_lt (Nat.or_lt_two_pow value.isLt hb)
    obtain ⟨result, hresult, hvalue⟩ := decodeLoop_eq bs (i + 1) _ (by omega)
    refine ⟨result, ?_, hvalue.trans ?_⟩
    · rw [decodeLoop, hshift]
      exact hresult
    · rw [hnext, shiftValue]

end IntWidth

/-! ### In a buffer -/

/-- **A scalar is written to its own bytes only**, and without fail. -/
theorem serialise_scalar {B : Type} [SerialiseBuffer B] {P : Platform} {I : B → Prop} {limit : ℕ}
    {throws : Exn → Prop} (hB : LawfulBuffer P B I limit throws) (s : Scalar)
    (v : (Ty.scalar s).Source P) {pos : ℕ} {b : B} (hI : I b)
    (hpos : pos + s.size ≤ (bytes b).length) :
    ∃ b', serialise P (.scalar s) v pos b = .ok () b' ∧ I b' ∧
      bytes b' = overwrite (bytes b) pos (s.fixedBytes P v) := by
  have hrun : Sat (serialiseRun P .plain (.scalar s) v pos) (World.start b)
      (fun _ w => I w.buffer ∧ bytes w.buffer = overwrite (bytes b) pos (s.fixedBytes P v))
      fun _ _ => False := by
    show Sat (serialiseWith P .plain (.scalar s) _ .direct pos) _ _ _
    rw [serialiseWith_plain, sat_bind, sat_assertOffset (Nat.le_of_add_right_le hpos), serialiser]
    exact sat_scalarSerialiser hB hI s v pos hpos
  have hsat : Sat (serialise P (.scalar s) v pos) b
      (fun _ b' => I b' ∧ bytes b' = overwrite (bytes b) pos (s.fixedBytes P v))
      fun _ _ => False := by
    rw [serialise_eq_plain hB.toSpanLaws]
    exact sat_call hrun
  obtain ⟨⟨⟩, b', h⟩ := hsat.exists_ok fun _ _ h => h
  exact ⟨b', h⟩

/-! ### Both directions -/

/-- **The ways to write and to read a scalar agree**: platforms differ in nothing. The number of a
value is what its bytes are the digits of. -/
structure Scalar.PathsAgree (s : Scalar) (number : s.Value → ℕ) : Prop where
  length_eq : ∀ P v, (s.fixedBytes P v).length = s.size
  byte_eq : ∀ P v, ∀ i < s.size,
    (s.fixedBytes P v)[i]? = some (UInt8.ofNat (number v / 256 ^ i % 256))
  value_eq : ∀ P P' bytes h, s.ofFixedBytes P bytes h = s.ofFixedBytes P' bytes h
  decode_encode : ∀ P P' v, s.ofFixedBytes P' (s.fixedBytes P v) (length_eq P v) = v
  encode_decode : ∀ P P' bytes h, s.fixedBytes P (s.ofFixedBytes P' bytes h) = bytes
  /-- It is written to its own bytes only. -/
  written : ∀ {B : Type} [SerialiseBuffer B] {P : Platform} {I : B → Prop} {limit : ℕ}
    {throws : Exn → Prop}, LawfulBuffer P B I limit throws → ∀ (v : s.Value) (b : B) (pos : ℕ),
      I b → pos + s.size ≤ (bytes b).length → ∃ b', serialise P (.scalar s) v pos b = .ok () b' ∧
        bytes b' = (bytes b).take pos ++ s.fixedBytes P v ++ (bytes b).drop (pos + s.size)
  /-- And read from them only. -/
  read : ∀ (P : Platform) (mem : List UInt8) (pos : ℕ), mem.length < P.sizeRange →
    ∀ h : pos + s.size ≤ mem.length, deserialise P (.scalar s) mem pos =
      .ok (s.ofFixedBytes P (slice mem pos s.size) (length_slice h))

/-- What is left to show of a scalar that is represented by its number. -/
theorem Scalar.pathsAgree_of_encode {s : Scalar} {number : s.Value → ℕ}
    (hencode : ∀ v, s.encode v = toBytes s.size (number v))
    (hvalue : ∀ P P' bytes h, s.ofFixedBytes P bytes h = s.ofFixedBytes P' bytes h)
    (hnumber : ∀ P bytes h, number (s.ofFixedBytes P bytes h) = ofBytes bytes) :
    s.PathsAgree number := by
  have hlength : ∀ P v, (s.fixedBytes P v).length = s.size := by
    intro P v
    rw [s.fixedBytes_eq, s.length_encode]
  refine ⟨hlength, ?_, hvalue, ?_, ?_, ?_, ?_⟩
  · intro P v i hi
    rw [s.fixedBytes_eq, hencode, getElem?_toBytes _ hi]
  · intro P P' v
    have hdecode := s.ofFixedBytes_encode P' v
    simp only [s.fixedBytes_eq]
    exact hdecode
  · intro P P' bytes h
    rw [s.fixedBytes_eq, hencode, hnumber, ← h, toBytes_ofBytes]
  · intro B _ P I limit throws hB v b pos hI hpos
    obtain ⟨b', hrun, -, hb'⟩ := serialise_scalar hB s v hI hpos
    refine ⟨b', hrun, ?_⟩
    rw [hb', overwrite, hlength]
  · intro P mem pos hlen h
    exact deserialise_of_le hlen h

/-- **The ways to write and to read an integer agree**, of any number of bytes. An unsigned integer
is the number that its bytes spell, and a signed one is in two's complement. The loops are right in
machine arithmetic, whatever the width of `int`. -/
theorem scalar_paths_agree (n : ℕ) :
    (Scalar.unsigned n).PathsAgree (fun v : Fin (256 ^ n) => v.val) ∧
      (Scalar.signed n).PathsAgree (fun v : SignedValue n => (BitVec.ofInt (8 * n) v.1).toNat) ∧
      ∀ (W : IntWidth) (P : Platform),
        (∀ v : Fin (256 ^ n), W.encodeLoop n (BitVec.ofNat (8 * n) v.val) =
          .ok ((Scalar.unsigned n).fixedBytes P v)) ∧
        ∀ (bytes : List UInt8) (h : bytes.length = n), W.decodeLoop 0 (0 : BitVec (8 * n)) bytes =
          .ok (BitVec.ofNat (8 * n) ((Scalar.unsigned n).ofFixedBytes P bytes h).val) := by
  have hpow : 256 ^ n = 2 ^ (8 * n) := by
    rw [pow_mul]
    norm_num
  have hunsigned : ∀ v : SignedValue n, (BitVec.ofInt (8 * n) v.1).toNat = v.toUnsigned := by
    intro v
    rw [BitVec.toNat_ofInt, SignedValue.toUnsigned, ← hpow]
    push_cast
    rfl
  refine ⟨Scalar.pathsAgree_of_encode (fun _ => rfl) ?_ ?_,
    Scalar.pathsAgree_of_encode ?_ ?_ ?_, fun W P => ⟨?_, ?_⟩⟩
  · intro P P' bytes h
    refine Fin.ext ?_
    show unsignedValue P bytes = unsignedValue P' bytes
    rw [unsignedValue_eq, unsignedValue_eq]
  · intro P bytes h
    exact unsignedValue_eq P bytes
  · intro v
    exact congrArg (toBytes n) (hunsigned v).symm
  · intro P P' bytes h
    have hvalue : unsignedValue P bytes = unsignedValue P' bytes := by
      rw [unsignedValue_eq, unsignedValue_eq]
    exact SignedValue.ofUnsigned_congr hvalue (unsignedValue_lt P h) (unsignedValue_lt P' h)
  · intro P bytes h
    have hcast := SignedValue.toUnsigned_ofUnsigned (unsignedValue_lt P h)
    exact (hunsigned _).trans (hcast.trans (unsignedValue_eq P bytes))
  · intro v
    have hv : v.val % 2 ^ (8 * n) = v.val := Nat.mod_eq_of_lt (hpow ▸ v.2)
    rw [W.encodeLoop_eq n _ le_rfl, BitVec.toNat_ofNat, hv, shiftBytes_eq]
    show _ = Except.ok (unsignedBytes P n v.val)
    rw [unsignedBytes_eq]
  · intro bytes h
    obtain ⟨result, hresult, hvalue⟩ := W.decodeLoop_eq bytes 0 (0 : BitVec (8 * n)) (by omega)
    have hnumber : result.toNat = unsignedValue P bytes := by
      rw [hvalue, unsignedValue_eq, shiftValue_eq _ _ _ (by simp)]
      simp
    rw [hresult]
    show _ = Except.ok (BitVec.ofNat (8 * n) (unsignedValue P bytes))
    rw [← hnumber, BitVec.ofNat_toNat, BitVec.setWidth_eq]

end SerialisePP
