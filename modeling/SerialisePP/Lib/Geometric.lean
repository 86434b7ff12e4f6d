import Mathlib.Data.Nat.Log
import Mathlib.Tactic.Ring

/-!
# Geometric growth

A number that is multiplied by a fraction `p / q` greater than 1, over and over, to within a
rounding: `Geometric.Grows p q s k m n` says that `n` is reached from `m` in `k` such steps,
each of which may have lost so much that adding `s` makes up for it. A number that never
decreases grows in no step at all.

Growth composes (`Geometric.Grows.trans`), and the number of steps it takes is logarithmic in
the ratio of the numbers (`Geometric.Grows.lt_log`).
-/

namespace Geometric

/-- **Growing from `m` to `n` in `k` steps** by a factor of `p / q`, to within `s`. -/
def Grows (p q s k m n : ℕ) : Prop := p ^ k * (m + s) ≤ q ^ k * (n + s)

variable {p q s k l m n o : ℕ}

theorem grows_zero (h : m ≤ n) : Grows p q s 0 m n := by
  rw [Grows, pow_zero, pow_zero, Nat.one_mul, Nat.one_mul]
  exact Nat.add_le_add_right h s

/-- One step. -/
theorem grows_one (h : p * (m + s) ≤ q * (n + s)) : Grows p q s 1 m n := by
  rwa [Grows, pow_one, pow_one]

/-- **Growing step after step.** -/
theorem Grows.trans (hmn : Grows p q s k m n) (hno : Grows p q s l n o) :
    Grows p q s (k + l) m o := by
  unfold Grows at *
  calc p ^ (k + l) * (m + s) = p ^ l * (p ^ k * (m + s)) := by ring
    _ ≤ p ^ l * (q ^ k * (n + s)) := Nat.mul_le_mul_left _ hmn
    _ = q ^ k * (p ^ l * (n + s)) := by ring
    _ ≤ q ^ k * (q ^ l * (o + s)) := Nat.mul_le_mul_left _ hno
    _ = q ^ (k + l) * (o + s) := by ring

/-- Growing further in no step. -/
theorem Grows.mono (h : Grows p q s k m n) (hno : n ≤ o) : Grows p q s k m o :=
  h.trans (grows_zero hno)

/-- **The number of steps is logarithmic**: if `j` steps double a number, then it takes fewer
than `j` times one more than the logarithm of the ratio. -/
theorem Grows.lt_log {j : ℕ} (h : Grows p q s k m n) (hq : 0 < q) (hqp : q ≤ p) (hj : 0 < j)
    (hdouble : 2 * q ^ j ≤ p ^ j) (hm : 0 < m + s) :
    k < j * (Nat.log 2 ((n + s) / (m + s)) + 1) := by
  have hsplit : j * (k / j) + k % j = k := Nat.div_add_mod k j
  -- the steps in groups of `j`, and those that are left
  have hpow : 2 ^ (k / j) * q ^ k ≤ p ^ k := by
    calc 2 ^ (k / j) * q ^ k = (2 * q ^ j) ^ (k / j) * q ^ (k % j) := by
          nth_rewrite 2 [← hsplit]
          rw [pow_add, pow_mul, mul_pow, Nat.mul_assoc]
      _ ≤ (p ^ j) ^ (k / j) * p ^ (k % j) :=
          Nat.mul_le_mul (Nat.pow_le_pow_left hdouble _) (Nat.pow_le_pow_left hqp _)
      _ = p ^ k := by rw [← pow_mul, ← pow_add, hsplit]
  have hmul : q ^ k * (2 ^ (k / j) * (m + s)) ≤ q ^ k * (n + s) := by
    calc q ^ k * (2 ^ (k / j) * (m + s)) = 2 ^ (k / j) * q ^ k * (m + s) := by ring
      _ ≤ p ^ k * (m + s) := Nat.mul_le_mul_right _ hpow
      _ ≤ q ^ k * (n + s) := h
  have hratio : 2 ^ (k / j) ≤ (n + s) / (m + s) :=
    (Nat.le_div_iff_mul_le hm).mpr (Nat.le_of_mul_le_mul_left hmul (Nat.pow_pos hq))
  have hlog : k / j ≤ Nat.log 2 ((n + s) / (m + s)) := Nat.le_log_of_pow_le (by decide) hratio
  have hrest : k % j < j := Nat.mod_lt k hj
  calc k = j * (k / j) + k % j := hsplit.symm
    _ < j * (k / j) + j := Nat.add_lt_add_left hrest _
    _ = j * (k / j + 1) := (Nat.mul_succ ..).symm
    _ ≤ j * (Nat.log 2 ((n + s) / (m + s)) + 1) :=
        Nat.mul_le_mul_left _ (Nat.add_le_add_right hlog 1)

end Geometric
