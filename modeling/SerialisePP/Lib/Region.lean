import Mathlib.Data.List.Basic
import Mathlib.Tactic.Ring

/-!
# Regions of a sequence

A memory is a list of cells, and everything a program does to it goes through two
operations: reading the `n` cells from position `i` (`Region.slice`) and replacing the
cells from position `i` by given ones (`Region.overwrite`). Memory also grows at its end,
by `++`.

The lemmas are the algebra of the two: what a write leaves in its own region, that it
leaves every disjoint region alone, that growing the memory disturbs neither, and that two
adjacent writes are one write of the concatenation.
-/

namespace Region

variable {α : Type} {mem : List α}

/-- The `n` cells from position `i` on. -/
def slice (mem : List α) (i n : ℕ) : List α := (mem.drop i).take n

/-- The memory with the cells from position `i` on replaced by `xs`. -/
def overwrite (mem : List α) (i : ℕ) (xs : List α) : List α :=
  mem.take i ++ xs ++ mem.drop (i + xs.length)

/-! ### Reading -/

theorem length_slice {i n : ℕ} (h : i + n ≤ mem.length) : (slice mem i n).length = n := by
  simp only [slice, List.length_take, List.length_drop]
  omega

/-- A region read in two parts. -/
theorem slice_add (i m n : ℕ) : slice mem i (m + n) = slice mem i m ++ slice mem (i + m) n := by
  simp only [slice, List.take_add, List.drop_drop]

/-- A region holds a concatenation exactly when its two parts hold the two pieces. -/
theorem slice_eq_append_iff {i m n : ℕ} {xs ys : List α} (hx : xs.length = m)
    (h : i + m ≤ mem.length) :
    slice mem i (m + n) = xs ++ ys ↔ slice mem i m = xs ∧ slice mem (i + m) n = ys := by
  rw [slice_add]
  constructor
  · intro he
    exact List.append_inj he (by rw [length_slice h, hx])
  · rintro ⟨rfl, rfl⟩
    rfl

/-- A cell of a region. -/
theorem getElem?_slice {i n j : ℕ} (h : j < n) : (slice mem i n)[j]? = mem[i + j]? := by
  rw [slice, List.getElem?_take_of_lt h, List.getElem?_drop]

theorem slice_append_left {i n : ℕ} (more : List α) (h : i + n ≤ mem.length) :
    slice (mem ++ more) i n = slice mem i n := by
  rw [slice, slice, List.drop_append_of_le_length (by omega),
    List.take_append_of_le_length (by rw [List.length_drop]; omega)]

theorem slice_append_right (more : List α) : slice (mem ++ more) mem.length more.length = more := by
  simp [slice]

/-! ### Writing -/

theorem length_overwrite {i : ℕ} {xs : List α} (h : i + xs.length ≤ mem.length) :
    (overwrite mem i xs).length = mem.length := by
  simp only [overwrite, List.length_append, List.length_take, List.length_drop]
  omega

@[simp] theorem overwrite_nil (i : ℕ) : overwrite mem i [] = mem := by simp [overwrite]

/-- **A write commutes with growing the memory.** -/
theorem overwrite_append {i : ℕ} {xs : List α} (more : List α) (h : i + xs.length ≤ mem.length) :
    overwrite (mem ++ more) i xs = overwrite mem i xs ++ more := by
  simp only [overwrite]
  rw [List.take_append_of_le_length (by omega), List.drop_append_of_le_length h]
  simp only [List.append_assoc]

/-- **A write to what was appended** leaves the rest alone. -/
theorem overwrite_append_right (i : ℕ) (xs more : List α) :
    overwrite (mem ++ more) (mem.length + i) xs = mem ++ overwrite more i xs := by
  simp only [overwrite, List.take_length_add_append, List.append_assoc, Nat.add_assoc,
    List.drop_length_add_append]

/-- Writing over the whole of what was appended. -/
theorem overwrite_tail {xs more : List α} (h : xs.length = more.length) :
    overwrite (mem ++ more) mem.length xs = mem ++ xs := by
  rw [overwrite, List.take_left, List.drop_eq_nil_of_le (by simp [h]), List.append_nil]

/-- **Two adjacent writes are one.** -/
theorem overwrite_overwrite {i : ℕ} {xs ys : List α}
    (h : i + xs.length + ys.length ≤ mem.length) :
    overwrite (overwrite mem i xs) (i + xs.length) ys = overwrite mem i (xs ++ ys) := by
  have hi : (mem.take i).length = i := by rw [List.length_take]; omega
  have hpre : (mem.take i ++ xs).length = i + xs.length := by rw [List.length_append, hi]
  simp only [overwrite, List.length_append]
  rw [List.take_append_of_le_length (by omega), List.take_of_length_le (by omega),
    List.drop_append, List.drop_eq_nil_of_le (by omega), List.nil_append, hpre,
    List.drop_drop]
  simp only [List.append_assoc]
  congr 4
  omega

/-- A memory written over in full. -/
theorem overwrite_all {xs : List α} (h : xs.length = mem.length) : overwrite mem 0 xs = xs := by
  simp [overwrite, h]

/-- **What a write leaves in its region.** -/
theorem slice_overwrite_self {i : ℕ} {xs : List α} (h : i + xs.length ≤ mem.length) :
    slice (overwrite mem i xs) i xs.length = xs := by
  have hi : (mem.take i).length = i := by rw [List.length_take]; omega
  rw [slice, overwrite, List.append_assoc, List.drop_left' hi, List.take_left]

/-- A cell outside the region of a write. -/
theorem getElem?_overwrite_of_disjoint {i j : ℕ} {xs : List α} (h : i + xs.length ≤ mem.length)
    (hd : j < i ∨ i + xs.length ≤ j) : (overwrite mem i xs)[j]? = mem[j]? := by
  have hi : (mem.take i).length = i := by rw [List.length_take]; omega
  rcases hd with hlt | hge
  · rw [overwrite, List.append_assoc, List.getElem?_append_left (by omega),
      List.getElem?_take_of_lt hlt]
  · have hpre : (mem.take i ++ xs).length = i + xs.length := by rw [List.length_append, hi]
    rw [overwrite, List.getElem?_append_right (by omega), hpre, List.getElem?_drop]
    congr 1
    omega

/-- **A write leaves every region it does not meet alone**, an empty one in particular. -/
theorem slice_overwrite_of_disjoint {i j n : ℕ} {xs : List α} (h : i + xs.length ≤ mem.length)
    (hd : ∀ k, ¬(i ≤ k ∧ k < i + xs.length ∧ j ≤ k ∧ k < j + n)) :
    slice (overwrite mem i xs) j n = slice mem j n := by
  refine List.ext_getElem? fun k => ?_
  rcases Nat.lt_or_ge k n with hk | hk
  · rw [getElem?_slice hk, getElem?_slice hk]
    refine getElem?_overwrite_of_disjoint h ?_
    have := hd (j + k)
    omega
  · rw [List.getElem?_eq_none (by simp only [slice, List.length_take]; omega),
      List.getElem?_eq_none (by simp only [slice, List.length_take]; omega)]

end Region
