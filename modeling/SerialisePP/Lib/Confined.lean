import SerialisePP.Lib.TwoSection

/-!
# Confined changes

What has happened to a memory while a program ran, whether it finished or not: cells of one
region have been written, in any way and any number of times, and cells have been appended.
`Region.Confined` says that nothing else has, and how many cells have been appended at most. It
composes (`Region.Confined.trans`), and an object that is apart from the region has not noticed
(`TwoSection.Placed.confined`).
-/

namespace Region

variable {α : Type} {mem mem₁ mem₂ : List α} {i n m : ℕ}

/-- **All that has changed in a memory** are the `n` cells from position `i` on, and that up to
`m` cells have been appended. -/
structure Confined (mem mem₁ : List α) (i n m : ℕ) : Prop where
  length_le : mem.length ≤ mem₁.length
  length_le_add : mem₁.length ≤ mem.length + m
  getElem?_eq : ∀ k < mem.length, ¬(i ≤ k ∧ k < i + n) → mem₁[k]? = mem[k]?

theorem Confined.refl (mem : List α) (i n m : ℕ) : Confined mem mem i n m :=
  ⟨le_rfl, Nat.le_add_right .., fun _ _ _ => rfl⟩

/-- A larger region, and more cells. -/
theorem Confined.mono {j l p : ℕ} (h : Confined mem mem₁ i n m)
    (hregion : ∀ k, i ≤ k ∧ k < i + n → j ≤ k ∧ k < j + l) (hm : m ≤ p) :
    Confined mem mem₁ j l p :=
  ⟨h.length_le, h.length_le_add.trans (Nat.add_le_add_left hm _), fun k hk hout =>
    h.getElem?_eq k hk fun hin => hout (hregion k hin)⟩

/-- **One change after another**: what the second one does to cells that were not there before
the first is no concern. -/
theorem Confined.trans {j l p : ℕ} (h : Confined mem mem₁ i n m) (h' : Confined mem₁ mem₂ j l p)
    (hregion : ∀ k < mem.length, j ≤ k ∧ k < j + l → i ≤ k ∧ k < i + n) :
    Confined mem mem₂ i n (m + p) := by
  have h₁ := h.length_le
  have h₂ := h.length_le_add
  have h₁' := h'.length_le
  have h₂' := h'.length_le_add
  refine ⟨by omega, by omega, fun k hk hout => ?_⟩
  rw [h'.getElem?_eq k (by omega) fun hin => hout (hregion k hk hin), h.getElem?_eq k hk hout]

/-- A write changes its region. -/
theorem confined_overwrite {xs : List α} (h : i + xs.length ≤ mem.length) :
    Confined mem (overwrite mem i xs) i xs.length 0 := by
  refine ⟨(length_overwrite h).ge, (length_overwrite h).le, fun k _ hout => ?_⟩
  exact getElem?_overwrite_of_disjoint h (by omega)

/-- Growing a memory changes no cell of it. -/
theorem confined_append (mem more : List α) (i n : ℕ) :
    Confined mem (mem ++ more) i n more.length := by
  refine ⟨?_, ?_, fun k hk _ => List.getElem?_append_left hk⟩
  · rw [List.length_append]
    exact Nat.le_add_right ..
  · rw [List.length_append]

/-- **A region that is apart is read as before.** -/
theorem Confined.slice_eq {j l : ℕ} (h : Confined mem mem₁ i n m) (hj : j + l ≤ mem.length)
    (hd : ∀ k, ¬((i ≤ k ∧ k < i + n) ∧ j ≤ k ∧ k < j + l)) : slice mem₁ j l = slice mem j l := by
  refine List.ext_getElem? fun k => ?_
  have hlen := h.length_le
  rcases Nat.lt_or_ge k l with hk | hk
  · rw [getElem?_slice hk, getElem?_slice hk]
    refine h.getElem?_eq _ (by omega) fun hin => hd (j + k) ⟨hin, by omega, by omega⟩
  · rw [List.getElem?_eq_none (by rw [length_slice (by omega)]; exact hk),
      List.getElem?_eq_none (by rw [length_slice hj]; exact hk)]

end Region

namespace TwoSection

open Region

variable {α μ : Type} {mem mem₁ : List α} {l : Layout α μ} {pos base i n m : ℕ}

/-- **Writing an object changes the place of its fixed section**, and appends its variable
section. -/
theorem Layout.confined_install (h : pos + l.fixedSize ≤ mem.length) :
    Confined mem (l.install mem pos) pos l.fixedSize l.variableSize := by
  have hlen : (l.fixed mem.length).length = l.fixedSize := l.length_fixed _
  have hwrite : Confined mem (overwrite mem pos (l.fixed mem.length)) pos l.fixedSize 0 :=
    hlen ▸ confined_overwrite (hlen.symm ▸ h)
  have hgrow := confined_append (overwrite mem pos (l.fixed mem.length)) (l.body mem.length) 0 0
  rw [Layout.length_body] at hgrow
  have htrans := hwrite.trans hgrow fun k _ hk => by omega
  rwa [Nat.zero_add] at htrans

/-- **An object that is apart from the changes is still there.** -/
theorem Placed.confined (h : Placed mem l pos base) (hc : Confined mem mem₁ i n m)
    (hf : ∀ k, ¬((i ≤ k ∧ k < i + n) ∧ pos ≤ k ∧ k < pos + l.fixedSize))
    (hb : ∀ k, ¬((i ≤ k ∧ k < i + n) ∧ base ≤ k ∧ k < base + l.variableSize)) :
    Placed mem₁ l pos base where
  fixed_le := h.fixed_le.trans hc.length_le
  body_le := h.body_le.trans hc.length_le
  fixed_eq := (hc.slice_eq h.fixed_le hf).trans h.fixed_eq
  body_eq := (hc.slice_eq h.body_le hb).trans h.body_eq

end TwoSection
