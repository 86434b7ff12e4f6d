import Mathlib.Algebra.Order.Ring.Nat
import SerialisePP.Types

/-!
# The platform, and the ways a call can end

What the library's behaviour depends on besides its arguments: the width of `std::size_t`,
the byte order of the machine, whether a call is evaluated at compile time, and whether
assertions are compiled in. Arithmetic in `std::size_t` is arithmetic of naturals followed
by `SerialisePP.Platform.wrap`.

A call ends by returning, by an exception (`SerialisePP.Exn`), or in one of the ways a C++
program stops without an exception, which `SerialisePP.Failure` keeps apart.
-/

namespace SerialisePP

/-- The byte order of a machine. -/
inductive Endian
  | little
  | big
  /-- Neither: `is_mixed_endian`. -/
  | mixed
deriving DecidableEq, Repr

/-- **The platform** a program is compiled for. -/
structure Platform where
  /-- The number of bits of `std::size_t`. -/
  sizeBits : ℕ
  sizeBits_eq : sizeBits = 32 ∨ sizeBits = 64
  /-- The byte order of integers in memory. -/
  endian : Endian
  /-- `std::is_constant_evaluated()`. -/
  constantEvaluated : Bool
  /-- Whether `assert` is active, that is, `NDEBUG` is not defined. -/
  assertions : Bool
  /-- `typeid(T).name()`, which is implementation-defined. -/
  typeName : Ty → String

namespace Platform

variable (P : Platform)

/-- One more than the largest `std::size_t`. -/
def sizeRange : ℕ := 2 ^ P.sizeBits

/-- A number as a `std::size_t`: arithmetic in that type wraps around. -/
def wrap (n : ℕ) : ℕ := n % P.sizeRange

variable {P}

theorem wrap_of_lt {n : ℕ} (h : n < P.sizeRange) : P.wrap n = n := Nat.mod_eq_of_lt h

theorem sizeRange_pos : 0 < P.sizeRange := Nat.two_pow_pos _

theorem wrap_lt (n : ℕ) : P.wrap n < P.sizeRange := Nat.mod_lt _ sizeRange_pos

/-- A 32-bit number is a `std::size_t` on both platforms. -/
theorem two_pow_32_le_sizeRange : 2 ^ 32 ≤ P.sizeRange := by
  unfold sizeRange
  rcases P.sizeBits_eq with h | h <;> rw [h]
  exact Nat.pow_le_pow_right (by decide) (by decide)

end Platform

/-- A 64-bit little-endian machine at run time, in a build with assertions. -/
def Platform.x64 : Platform := ⟨64, .inr rfl, .little, false, true, fun _ => "T"⟩

/-- A 32-bit one. -/
def Platform.x86 : Platform := ⟨32, .inl rfl, .little, false, true, fun _ => "T"⟩

/-- The same platform, in a build with or without assertions. -/
def Platform.withAssertions (P : Platform) (assertions : Bool) : Platform :=
  { P with assertions := assertions }

/-! ### `fixed_data_size_v` -/

mutual

/-- **`fixed_data_size_v`**: the size of the fixed section, computed in `std::size_t`. -/
def fixedDataSize (P : Platform) : Ty → ℕ
  | .scalar s => P.wrap s.size
  | .staticArray t n => P.wrap (fixedDataSize P t * n)
  | .dynamicArray _ => P.wrap (4 + 4)
  | .pair a b => P.wrap (fixedDataSize P a + fixedDataSize P b)
  | .tuple ts => fieldsFixedDataSize P ts
  | .optional _ => P.wrap 4
  | .variant _ => P.wrap (2 + 4)
  | .record fs _ => fieldsFixedDataSize P fs

/-- `fields_fixed_data_size`, and the fold over the types of a tuple. -/
def fieldsFixedDataSize (P : Platform) : TypeList → ℕ
  | .nil => 0
  | .cons _ t ts => P.wrap (fixedDataSize P t + fieldsFixedDataSize P ts)

end

mutual

/-- **The constant is the exact size, modulo the range of `std::size_t`.** -/
theorem fixedDataSize_eq (P : Platform) : ∀ t : Ty, fixedDataSize P t = P.wrap t.size
  | .scalar _ => rfl
  | .staticArray t n => by
    rw [fixedDataSize, fixedDataSize_eq P t, Ty.size]
    exact Nat.mod_mul_mod _ _ _
  | .dynamicArray _ => rfl
  | .pair a b => by
    rw [fixedDataSize, fixedDataSize_eq P a, fixedDataSize_eq P b, Ty.size]
    exact (Nat.add_mod _ _ _).symm
  | .tuple ts => by rw [fixedDataSize, fieldsFixedDataSize_eq P ts, Ty.size]
  | .optional _ => rfl
  | .variant _ => rfl
  | .record fs _ => by rw [fixedDataSize, fieldsFixedDataSize_eq P fs, Ty.size]

/-- The size of a list of types, likewise. -/
theorem fieldsFixedDataSize_eq (P : Platform) :
    ∀ ts : TypeList, fieldsFixedDataSize P ts = P.wrap ts.size
  | .nil => (Nat.zero_mod _).symm
  | .cons _ t ts => by
    rw [fieldsFixedDataSize, fixedDataSize_eq P t, fieldsFixedDataSize_eq P ts, TypeList.size]
    exact (Nat.add_mod _ _ _).symm

end

/-- A representable size is the constant. -/
theorem fixedDataSize_of_lt {P : Platform} {t : Ty} (h : t.size < P.sizeRange) :
    fixedDataSize P t = t.size := by
  rw [fixedDataSize_eq, Platform.wrap_of_lt h]

/-- Assertions have no part in it. -/
theorem fixedDataSize_withAssertions (P : Platform) (assertions : Bool) (t : Ty) :
    fixedDataSize (P.withAssertions assertions) t = fixedDataSize P t := by
  rw [fixedDataSize_eq, fixedDataSize_eq]
  rfl

/-! ### Exceptions and failures -/

/-- The exceptions that can leave a call into the library. -/
inductive Exn
  /-- `object_size_error`, a `serialise_error`. -/
  | objectSizeError (what : String)
  /-- `buffer_bounds_error`, a `deserialise_error`. -/
  | bufferBoundsError (what : String)
  /-- `std::bad_variant_access`. -/
  | badVariantAccess
  /-- `std::bad_optional_access`. -/
  | badOptionalAccess
  /-- `std::out_of_range`. -/
  | outOfRange (what : String)
  /-- `std::bad_alloc`. -/
  | badAlloc
  /-- An exception of the caller's own code, such as a visitor. -/
  | other (code : ℕ)
deriving DecidableEq, Repr

/-- Whether an exception is an `object_size_error`. -/
def Exn.isObjectSizeError : Exn → Bool
  | .objectSizeError _ => true
  | _ => false

/-- **How a call can end without returning.** -/
inductive Failure
  /-- By an exception. -/
  | thrown (e : Exn)
  /-- By a failed assertion. -/
  | assertFailed
  /-- By `std::terminate`. -/
  | terminated
  /-- The behaviour is undefined: an access outside of a span or through a dead one, or a
  conversion of a number that the target type cannot represent. -/
  | undefined
  /-- The source does not compile. -/
  | illFormed
deriving DecidableEq, Repr

end SerialisePP
