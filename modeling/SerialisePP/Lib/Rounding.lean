import Mathlib.Algebra.Order.Ring.Nat

/-!
# Rounding to a number of significant bits

A floating-point format with `p` bits of precision represents a natural number exactly if it
has at most `p` significant bits, and rounds it to the nearest number that has otherwise, to
the one with an even significand if there are two. `Rounding.roundTo` is that rounding. It is
the identity on small numbers (`Rounding.roundTo_of_lt`), and loses little on large ones
(`Rounding.le_roundTo`).

A number of halves, quarters and so on is rounded in the same way as the same number of
ones.
-/

namespace Rounding

/-- The weight of the last significant bit that is kept. -/
def unit (p n : ℕ) : ℕ := 2 ^ (n.log2 + 1 - p)

/-- **Rounding to nearest, ties to even**, with `p` significant bits. -/
def roundTo (p n : ℕ) : ℕ :=
  if 2 * (n % unit p n) < unit p n ∨ 2 * (n % unit p n) = unit p n ∧ n / unit p n % 2 = 0 then
    n / unit p n * unit p n
  else
    (n / unit p n + 1) * unit p n

variable {p n : ℕ}

theorem unit_pos : 0 < unit p n := Nat.two_pow_pos _

/-- **Numbers with few bits are not rounded.** -/
theorem roundTo_of_lt (h : n < 2 ^ p) : roundTo p n = n := by
  have hunit : n.log2 + 1 - p = 0 ∨ n = 0 := by
    by_cases hn : n = 0
    · exact .inr hn
    · have := (Nat.log2_lt hn).mpr h
      exact .inl (by omega)
  rcases hunit with hunit | rfl
  · have hone : unit p n = 1 := by rw [unit, hunit, pow_zero]
    rw [roundTo, hone, Nat.mod_one, Nat.div_one, if_pos (.inl (by decide)), Nat.mul_one]
  · rw [roundTo, Nat.zero_mod, Nat.zero_div, if_pos (.inl unit_pos), Nat.zero_mul]

/-- Rounding goes down at most to the last bit that is kept. -/
theorem div_mul_le_roundTo : n / unit p n * unit p n ≤ roundTo p n := by
  rw [roundTo]
  split_ifs
  · exact le_rfl
  · exact Nat.mul_le_mul_right _ (Nat.le_succ _)

/-- **Rounding loses less than an eighth**, if four bits are kept. -/
theorem le_roundTo (hp : 4 ≤ p) : 7 * n ≤ 8 * roundTo p n := by
  by_cases h : n < 2 ^ p
  · rw [roundTo_of_lt h]
    omega
  · have hn : n ≠ 0 := by
      rintro rfl
      exact h (Nat.two_pow_pos p)
    have hp' : p ≤ n.log2 := not_lt.mp fun hlt => h ((Nat.log2_lt hn).mp hlt)
    -- what is kept is at least `2 ^ (p - 1)` units, and what is cut off is less than one
    have hkept : 7 ≤ n / unit p n := by
      have hpow : 2 ^ 3 * unit p n ≤ 2 ^ n.log2 := by
        rw [unit, ← pow_add]
        exact Nat.pow_le_pow_right (by decide) (by omega)
      have hle : 7 * unit p n ≤ n := by
        have := Nat.log2_self_le hn
        omega
      exact (Nat.le_div_iff_mul_le unit_pos).mpr hle
    have hsplit : unit p n * (n / unit p n) + n % unit p n = n := Nat.div_add_mod _ _
    have hcut : n % unit p n < unit p n := Nat.mod_lt _ unit_pos
    have hseven : 7 * unit p n ≤ n / unit p n * unit p n := Nat.mul_le_mul_right _ hkept
    have hround := @div_mul_le_roundTo p n
    rw [Nat.mul_comm] at hsplit
    omega

end Rounding
