import Mathlib.Data.Nat.Bitwise
import Mathlib.Tactic.Positivity
import Mathlib.Tactic.Zify
import SerialisePP.Lib.LittleEndian
import SerialisePP.Platform

/-!
# Scalars

The values of the scalar types and the bytes they are represented by, on both sides:

* `SerialisePP.Scalar.encode` is the specification, the little-endian bytes of a value;
* `SerialisePP.Scalar.fixedBytes` and `SerialisePP.Scalar.ofFixedBytes` are what the
  serialisers write and what the deserialisers compute. For an unsigned integer there are
  three ways each, chosen by the platform: a loop that shifts the value, a copy of its object
  representation, and a reversed copy of it.

All three ways agree with the specification (`SerialisePP.Scalar.fixedBytes_eq`), and
decoding undoes encoding (`SerialisePP.Scalar.ofFixedBytes_encode`). The other scalars go
through the unsigned integers and `std::byte`: a signed integer by the modular casts between
the two, a floating-point number by its bit pattern.
-/

namespace SerialisePP

open LittleEndian

/-! ### Values -/

/-- The values of a signed integer type of `n` bytes. -/
def SignedValue (n : ℕ) : Type := { i : ℤ // -(256 ^ n : ℤ) ≤ 2 * i ∧ 2 * i < 256 ^ n }

/-- **The values of a scalar type.** A floating-point number is its bit pattern. -/
def Scalar.Value : Scalar → Type
  | .null => Unit
  | .byte => UInt8
  | .bool => Bool
  | .unsigned n => Fin (256 ^ n)
  | .signed n => SignedValue n
  | .float => BitVec 32
  | .double => BitVec 64

/-- `static_cast` to the unsigned type of the same size, which is modular. -/
def SignedValue.toUnsigned {n : ℕ} (v : SignedValue n) : ℕ := (v.1 % 256 ^ n).toNat

/-- `static_cast` from the unsigned type of the same size, which is modular. -/
def SignedValue.ofUnsigned {n : ℕ} (u : ℕ) (h : u < 256 ^ n) : SignedValue n :=
  ⟨if 2 * u < 256 ^ n then u else u - 256 ^ n, by
    zify at h
    split_ifs with hu <;> zify at hu <;> omega⟩

theorem SignedValue.ofUnsigned_congr {n u u' : ℕ} (he : u = u') (h : u < 256 ^ n)
    (h' : u' < 256 ^ n) : (ofUnsigned u h : SignedValue n) = ofUnsigned u' h' := by
  subst he
  rfl

theorem SignedValue.toUnsigned_lt {n : ℕ} (v : SignedValue n) : v.toUnsigned < 256 ^ n := by
  have hpos : (0 : ℤ) < 256 ^ n := by positivity
  have h := Int.emod_lt_of_pos v.1 hpos
  have h0 := Int.emod_nonneg v.1 hpos.ne'
  rw [toUnsigned]
  zify
  rwa [Int.toNat_of_nonneg h0]

/-- **The two casts are inverse**, the most negative value included. -/
theorem SignedValue.ofUnsigned_toUnsigned {n : ℕ} (v : SignedValue n) :
    ofUnsigned v.toUnsigned v.toUnsigned_lt = v := by
  have hlo := v.2.1
  have hhi := v.2.2
  have hpos : (0 : ℤ) < 256 ^ n := by positivity
  have hval : (v.toUnsigned : ℤ) = if 0 ≤ v.1 then v.1 else v.1 + 256 ^ n := by
    rw [toUnsigned, Int.toNat_of_nonneg (Int.emod_nonneg v.1 hpos.ne')]
    split_ifs with hi
    · exact Int.emod_eq_of_lt hi (by omega)
    · rw [← Int.add_emod_right, Int.emod_eq_of_lt (by omega) (by omega)]
  refine Subtype.ext ?_
  show (if 2 * v.toUnsigned < 256 ^ n then (v.toUnsigned : ℤ) else v.toUnsigned - 256 ^ n) = v.1
  split_ifs with hu <;> zify at hu <;> split_ifs at hval <;> omega

/-- The other way round. -/
theorem SignedValue.toUnsigned_ofUnsigned {n u : ℕ} (h : u < 256 ^ n) :
    (ofUnsigned u h : SignedValue n).toUnsigned = u := by
  have hmod : ((ofUnsigned u h : SignedValue n).1 % 256 ^ n) = (u : ℤ) := by
    show (if 2 * u < 256 ^ n then (u : ℤ) else u - 256 ^ n) % 256 ^ n = u
    zify at h
    split_ifs
    · exact Int.emod_eq_of_lt (by omega) h
    · rw [Int.sub_emod_right]
      exact Int.emod_eq_of_lt (by omega) h
  rw [toUnsigned, hmod, Int.toNat_natCast]

/-! ### The bytes of a value -/

/-- **The representation of a scalar**: integers and floating-point numbers are little-endian,
signed integers in two's complement. -/
def Scalar.encode : (s : Scalar) → s.Value → List UInt8
  | .null, _ => []
  | .byte, v => [v]
  | .bool, v => [bif v then 1 else 0]
  | .unsigned n, v => toBytes n v.val
  | .signed n, v => toBytes n v.toUnsigned
  | .float, v => toBytes 4 v.toNat
  | .double, v => toBytes 8 v.toNat

@[simp] theorem Scalar.length_encode : ∀ (s : Scalar) (v : s.Value), (s.encode v).length = s.size
  | .null, _ => rfl
  | .byte, _ => rfl
  | .bool, _ => rfl
  | .unsigned n, v => length_toBytes n v.val
  | .signed n, v => length_toBytes n v.toUnsigned
  | .float, v => length_toBytes 4 v.toNat
  | .double, v => length_toBytes 8 v.toNat

/-! ### What the serialisers write -/

/-- The loop that shifts the value, a byte at a time. -/
def shiftBytes : ℕ → ℕ → List UInt8
  | 0, _ => []
  | n + 1, value => UInt8.ofNat (value &&& 0xFF) :: shiftBytes n (value >>> 8)

/-- The object representation of an unsigned integer on a machine that stores the most
significant byte first. -/
def bigEndianBytes (n value : ℕ) : List UInt8 := (toBytes n value).reverse

/-- **What `serialiser<U>` writes** for an unsigned integer of `n` bytes. -/
def unsignedBytes (P : Platform) (n value : ℕ) : List UInt8 :=
  if P.constantEvaluated || P.endian == .mixed then
    shiftBytes n value
  else if P.endian == .little then
    -- `std::copy_n` of the object representation
    toBytes n value
  else
    -- `std::reverse_copy` of the object representation
    (bigEndianBytes n value).reverse

theorem shiftBytes_eq (n value : ℕ) : shiftBytes n value = toBytes n value := by
  induction n generalizing value with
  | zero => rfl
  | succ n ih =>
    have hbyte : UInt8.ofNat (value &&& 0xFF) = UInt8.ofNat value := by
      refine UInt8.toNat_inj.mp ?_
      have : value &&& 0xFF = value % 2 ^ 8 := Nat.and_two_pow_sub_one_eq_mod value 8
      rw [this, UInt8.toNat_ofNat', UInt8.toNat_ofNat', Nat.mod_mod]
    rw [shiftBytes, toBytes, hbyte, ih, Nat.shiftRight_eq_div_pow]

/-- **The three ways of writing an unsigned integer agree.** -/
theorem unsignedBytes_eq (P : Platform) (n value : ℕ) :
    unsignedBytes P n value = toBytes n value := by
  unfold unsignedBytes bigEndianBytes
  split_ifs
  · exact shiftBytes_eq n value
  · rfl
  · exact List.reverse_reverse _

/-- **What the serialiser of a scalar writes.** -/
def Scalar.fixedBytes (P : Platform) : (s : Scalar) → s.Value → List UInt8
  | .null, _ => []
  | .byte, v => [v]
  | .bool, v => [bif v then 0x01 else 0x00]
  | .unsigned n, v => unsignedBytes P n v.val
  | .signed n, v => unsignedBytes P n v.toUnsigned
  | .float, v => unsignedBytes P 4 v.toNat
  | .double, v => unsignedBytes P 8 v.toNat

/-- **The serialisers write the representation.** -/
theorem Scalar.fixedBytes_eq (P : Platform) :
    ∀ (s : Scalar) (v : s.Value), s.fixedBytes P v = s.encode v
  | .null, _ => rfl
  | .byte, _ => rfl
  | .bool, _ => rfl
  | .unsigned n, v => unsignedBytes_eq P n v.val
  | .signed n, v => unsignedBytes_eq P n v.toUnsigned
  | .float, v => unsignedBytes_eq P 4 v.toNat
  | .double, v => unsignedBytes_eq P 8 v.toNat

/-! ### What the deserialisers compute -/

/-- The loop that shifts each byte into its place; `i` counts the bytes already read. -/
def shiftValue : (i value : ℕ) → List UInt8 → ℕ
  | _, value, [] => value
  | i, value, b :: bs => shiftValue (i + 1) (value ||| (b.toNat <<< (i * 8))) bs

/-- **What `deserialiser<U>` computes** from the bytes of an unsigned integer. -/
def unsignedValue (P : Platform) (bytes : List UInt8) : ℕ :=
  if P.constantEvaluated || P.endian == .mixed then
    shiftValue 0 0 bytes
  else if P.endian == .little then
    -- `std::copy_n` into the object representation
    ofBytes bytes
  else
    -- `std::reverse_copy` into an object representation with the most significant byte first
    ofBytes bytes.reverse.reverse

theorem shiftValue_eq (i value : ℕ) (bytes : List UInt8) (h : value < 256 ^ i) :
    shiftValue i value bytes = value + 256 ^ i * ofBytes bytes := by
  induction bytes generalizing i value with
  | nil => simp [shiftValue, ofBytes]
  | cons b bs ih =>
    have hpow : 256 ^ i = 2 ^ (i * 8) := by rw [Nat.mul_comm, pow_mul]; norm_num
    have hb : b.toNat < 256 := b.toNat_lt
    have hor : value ||| (b.toNat <<< (i * 8)) = value + 256 ^ i * b.toNat := by
      rw [Nat.or_comm, ← Nat.shiftLeft_add_eq_or_of_lt (by rwa [← hpow]), Nat.shiftLeft_eq, hpow]
      ring
    have hlt : value + 256 ^ i * b.toNat < 256 ^ (i + 1) := by
      rw [pow_succ]
      calc value + 256 ^ i * b.toNat < 256 ^ i + 256 ^ i * b.toNat := by omega
        _ = 256 ^ i * (b.toNat + 1) := by ring
        _ ≤ 256 ^ i * 256 := Nat.mul_le_mul_left _ (by omega)
    rw [shiftValue, hor, ih (i + 1) _ hlt, ofBytes, pow_succ]
    ring

/-- **The three ways of reading an unsigned integer agree.** -/
theorem unsignedValue_eq (P : Platform) (bytes : List UInt8) :
    unsignedValue P bytes = ofBytes bytes := by
  unfold unsignedValue
  split_ifs
  · rw [shiftValue_eq 0 0 bytes (by simp)]
    simp
  · rfl
  · rw [List.reverse_reverse]

theorem unsignedValue_lt (P : Platform) {bytes : List UInt8} {n : ℕ} (h : bytes.length = n) :
    unsignedValue P bytes < 256 ^ n := by
  rw [unsignedValue_eq, ← h]
  exact ofBytes_lt bytes

/-- **What the deserialiser of a scalar computes** from the bytes of its fixed data. -/
def Scalar.ofFixedBytes (P : Platform) :
    (s : Scalar) → (bytes : List UInt8) → bytes.length = s.size → s.Value
  | .null, _, _ => ()
  | .byte, [b], _ => b
  | .bool, [b], _ => b != 0
  | .unsigned _, bytes, h => ⟨unsignedValue P bytes, unsignedValue_lt P h⟩
  | .signed _, bytes, h => .ofUnsigned (unsignedValue P bytes) (unsignedValue_lt P h)
  | .float, bytes, _ => .ofNat 32 (unsignedValue P bytes)
  | .double, bytes, _ => .ofNat 64 (unsignedValue P bytes)

/-- **Decoding undoes encoding.** -/
theorem Scalar.ofFixedBytes_encode (P : Platform) : ∀ (s : Scalar) (v : s.Value),
    s.ofFixedBytes P (s.encode v) (s.length_encode v) = v
  | .null, _ => rfl
  | .byte, _ => rfl
  | .bool, v => by cases v <;> rfl
  | .unsigned n, v => by
    refine Fin.ext ?_
    show unsignedValue P (toBytes n v.val) = v.val
    rw [unsignedValue_eq, ofBytes_toBytes_of_lt v.isLt]
  | .signed n, v => by
    have hv : unsignedValue P (toBytes n v.toUnsigned) = v.toUnsigned := by
      rw [unsignedValue_eq, ofBytes_toBytes_of_lt v.toUnsigned_lt]
    refine Eq.trans ?_ v.ofUnsigned_toUnsigned
    exact SignedValue.ofUnsigned_congr hv (unsignedValue_lt P (length_toBytes n _)) _
  | .float, (v : BitVec 32) => by
    show BitVec.ofNat 32 (unsignedValue P (toBytes 4 v.toNat)) = v
    rw [unsignedValue_eq, ofBytes_toBytes_of_lt v.isLt]
    exact BitVec.eq_of_toNat_eq (by simp)
  | .double, (v : BitVec 64) => by
    show BitVec.ofNat 64 (unsignedValue P (toBytes 8 v.toNat)) = v
    rw [unsignedValue_eq, ofBytes_toBytes_of_lt v.isLt]
    exact BitVec.eq_of_toNat_eq (by simp)

end SerialisePP
