import Mathlib.Algebra.Order.Ring.Nat
import Mathlib.Tactic.Ring

/-!
# Little-endian numbers

The `n` bytes of a number, least significant first (`LittleEndian.toBytes`), and the number
a string of bytes spells (`LittleEndian.ofBytes`). The two are inverse to each other
between the numbers below `256 ^ n` and the strings of `n` bytes.
-/

namespace LittleEndian

/-- The `n` bytes of `v`, least significant first; what does not fit is dropped. -/
def toBytes : ℕ → ℕ → List UInt8
  | 0, _ => []
  | n + 1, v => UInt8.ofNat v :: toBytes n (v / 256)

/-- The number spelt by a string of bytes, least significant first. -/
def ofBytes : List UInt8 → ℕ
  | [] => 0
  | b :: bs => b.toNat + 256 * ofBytes bs

@[simp] theorem length_toBytes (n v : ℕ) : (toBytes n v).length = n := by
  induction n generalizing v with
  | zero => rfl
  | succ n ih => simp [toBytes, ih]

/-- Reading back the bytes of a number gives what fitted in them. -/
theorem ofBytes_toBytes (n v : ℕ) : ofBytes (toBytes n v) = v % 256 ^ n := by
  induction n generalizing v with
  | zero => simp [toBytes, ofBytes, Nat.mod_one]
  | succ n ih =>
    rw [toBytes, ofBytes, ih, pow_succ', Nat.mod_mul]
    rfl

/-- **Round trip** of a number that fits. -/
theorem ofBytes_toBytes_of_lt {n v : ℕ} (h : v < 256 ^ n) : ofBytes (toBytes n v) = v := by
  rw [ofBytes_toBytes, Nat.mod_eq_of_lt h]

/-- **The other way round**: the bytes of the number they spell. -/
theorem toBytes_ofBytes (bs : List UInt8) : toBytes bs.length (ofBytes bs) = bs := by
  induction bs with
  | nil => rfl
  | cons b bs ih =>
    have hb : b.toNat < 256 := b.toNat_lt
    have hhead : UInt8.ofNat (b.toNat + 256 * ofBytes bs) = b := by
      refine UInt8.toNat_inj.mp ?_
      rw [UInt8.toNat_ofNat']
      omega
    have htail : (b.toNat + 256 * ofBytes bs) / 256 = ofBytes bs := by omega
    rw [List.length_cons, ofBytes, toBytes, hhead, htail, ih]

/-- **The byte at an index** is the digit of the number to the base 256. -/
theorem getElem?_toBytes {n i : ℕ} (v : ℕ) (h : i < n) :
    (toBytes n v)[i]? = some (UInt8.ofNat (v / 256 ^ i % 256)) := by
  induction n generalizing v i with
  | zero => exact absurd h (Nat.not_lt_zero i)
  | succ n ih =>
    cases i with
    | zero =>
      have hbyte : UInt8.ofNat (v % 256) = UInt8.ofNat v := by
        refine UInt8.toNat_inj.mp ?_
        rw [UInt8.toNat_ofNat', UInt8.toNat_ofNat']
        omega
      rw [pow_zero, Nat.div_one, hbyte]
      rfl
    | succ i =>
      have hdigit : v / 256 / 256 ^ i = v / 256 ^ (i + 1) := by
        rw [Nat.div_div_eq_div_mul, pow_succ']
      rw [toBytes, List.getElem?_cons_succ, ih (v / 256) (Nat.lt_of_succ_lt_succ h), hdigit]

theorem ofBytes_lt (bs : List UInt8) : ofBytes bs < 256 ^ bs.length := by
  induction bs with
  | nil => simp [ofBytes]
  | cons b bs ih =>
    have hb : b.toNat < 256 := b.toNat_lt
    rw [ofBytes, List.length_cons, pow_succ']
    omega

/-- A number and what it is congruent to have the same bytes. -/
theorem toBytes_mod (n k v : ℕ) (h : n ≤ k) : toBytes n (v % 256 ^ k) = toBytes n v := by
  induction n generalizing k v with
  | zero => rfl
  | succ n ih =>
    obtain ⟨k, rfl⟩ : ∃ j, k = j + 1 := ⟨k - 1, by omega⟩
    have hb : UInt8.ofNat (v % 256 ^ (k + 1)) = UInt8.ofNat v := by
      refine UInt8.toNat_inj.mp ?_
      rw [UInt8.toNat_ofNat', UInt8.toNat_ofNat', pow_succ']
      exact Nat.mod_mod_of_dvd v (Dvd.intro _ rfl)
    have hd : v % 256 ^ (k + 1) / 256 = v / 256 % 256 ^ k := by
      rw [pow_succ', Nat.mod_mul_right_div_self]
    rw [toBytes, toBytes, hb, hd, ih k (v / 256) (by omega)]

end LittleEndian
