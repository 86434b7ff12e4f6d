import SerialisePP.Lib.Region

/-!
# Two-section layouts

An object of a two-section format occupies a *fixed* section, whose place is given to it,
and a *variable* section, appended at the end of the memory when it is written. The
contents of both depend on one number only, the **base**: where the variable section
starts, since what an object stores about its variable data is the position of it.

`TwoSection.Layout` is such an object: the two sections as functions of the base, and the
*marks* it makes – annotations that say what is stored where, given the position of the
fixed section and the base. Layouts are built from two operations:

* `TwoSection.Layout.append` – side by side: the fixed sections are adjacent and so are the
  variable ones, so the second base is the first advanced by the variable data already
  there;
* `TwoSection.Layout.box` – behind a header: the fixed section is a header that may name
  the base, and the whole inner object goes to the variable section.

`TwoSection.Layout.install` writes an object. `TwoSection.Placed` says that a memory holds
one: its fixed section at a position and its variable section at a base. That splits along
both operations, which is what a reader needs, it is what writing leaves behind, and it is
stable under growing the memory and under writing elsewhere, which is what lets many objects
share a memory.
-/

namespace TwoSection

open Region

/-- **A two-section object**: what it puts in its fixed and in its variable section when
the latter starts at `base`, and what it marks when the former starts at `pos`. -/
structure Layout (α μ : Type) where
  /-- The number of cells of the fixed section. -/
  fixedSize : ℕ
  /-- The number of cells of the variable section. -/
  variableSize : ℕ
  /-- The cells of the fixed section. -/
  fixed : (base : ℕ) → List α
  /-- The cells of the variable section. -/
  body : (base : ℕ) → List α
  /-- The marks of the object and of everything in it. -/
  marks : (pos base : ℕ) → List μ
  length_fixed : ∀ base, (fixed base).length = fixedSize
  length_body : ∀ base, (body base).length = variableSize

namespace Layout

attribute [simp] length_fixed length_body

variable {α μ : Type}

/-- An object of constant content, without variable data. -/
def leaf (cells : List α) (marks : (pos base : ℕ) → List μ) : Layout α μ where
  fixedSize := cells.length
  variableSize := 0
  fixed _ := cells
  body _ := []
  marks := marks
  length_fixed _ := rfl
  length_body _ := rfl

/-- The object that occupies nothing. -/
def empty : Layout α μ := leaf [] fun _ _ => []

/-- **Side by side**: the second object's base is the first one's advanced by the variable
data already emitted. -/
def append (l r : Layout α μ) : Layout α μ where
  fixedSize := l.fixedSize + r.fixedSize
  variableSize := l.variableSize + r.variableSize
  fixed base := l.fixed base ++ r.fixed (base + l.variableSize)
  body base := l.body base ++ r.body (base + l.variableSize)
  marks pos base := l.marks pos base ++ r.marks (pos + l.fixedSize) (base + l.variableSize)
  length_fixed _ := by simp
  length_body _ := by simp

/-- Any number of objects side by side. -/
def concat : List (Layout α μ) → Layout α μ
  | [] => empty
  | l :: ls => l.append (concat ls)

/-- **Behind a header**: the fixed section is a header of `n` cells, and the inner object
goes to the variable section, its own fixed section first. -/
def box (n : ℕ) (header : (base : ℕ) → List α) (mark : (pos base : ℕ) → μ)
    (inner : Layout α μ) (h : ∀ base, (header base).length = n) : Layout α μ where
  fixedSize := n
  variableSize := inner.fixedSize + inner.variableSize
  fixed := header
  body base := inner.fixed (base + inner.fixedSize) ++ inner.body (base + inner.fixedSize)
  marks pos base := mark pos base :: inner.marks base (base + inner.fixedSize)
  length_fixed := h
  length_body _ := by simp

/-! ### The sizes and marks of the combinations -/

variable {l r : Layout α μ}

@[simp] theorem fixedSize_append : (l.append r).fixedSize = l.fixedSize + r.fixedSize := rfl

@[simp] theorem variableSize_append :
    (l.append r).variableSize = l.variableSize + r.variableSize := rfl

theorem marks_append (pos base : ℕ) : (l.append r).marks pos base =
    l.marks pos base ++ r.marks (pos + l.fixedSize) (base + l.variableSize) := rfl

@[simp] theorem concat_cons (ls : List (Layout α μ)) : concat (l :: ls) = l.append (concat ls) :=
  rfl

/-- Objects of one fixed size, side by side. -/
theorem fixedSize_concat {ls : List (Layout α μ)} {k : ℕ} (h : ∀ l ∈ ls, l.fixedSize = k) :
    (concat ls).fixedSize = k * ls.length := by
  induction ls with
  | nil => rfl
  | cons l ls ih =>
    rw [concat_cons, fixedSize_append, h l (List.mem_cons_self ..),
      ih fun l' hl' => h l' (List.mem_cons_of_mem l hl'), List.length_cons, Nat.mul_succ,
      Nat.add_comm]

/-- **How much an object takes**, in both sections. -/
def total (l : Layout α μ) : ℕ := l.fixedSize + l.variableSize

theorem total_append : (l.append r).total = l.total + r.total := Nat.add_add_add_comm ..

/-- Objects of at most one size, side by side. -/
theorem total_concat_le {ls : List (Layout α μ)} {k : ℕ} (h : ∀ l ∈ ls, l.total ≤ k) :
    (concat ls).total ≤ k * ls.length := by
  induction ls with
  | nil => exact Nat.zero_le _
  | cons l ls ih =>
    rw [concat_cons, total_append, List.length_cons, Nat.mul_succ, Nat.add_comm]
    exact Nat.add_le_add (ih fun l' hl' => h l' (List.mem_cons_of_mem l hl'))
      (h l (List.mem_cons_self ..))

/-- **Marks within the object**: a property of every mark and of the end of the variable
section. -/
def Within (Q : ℕ → μ → Prop) (l : Layout α μ) : Prop :=
  ∀ pos base, ∀ k ∈ l.marks pos base, Q (base + l.variableSize) k

theorem within_leaf {Q : ℕ → μ → Prop} (cells : List α) :
    (leaf cells fun _ _ => [] : Layout α μ).Within Q := fun _ _ _ hk => absurd hk List.not_mem_nil

/-- A property that is not lost if the end is further away holds of objects side by side. -/
theorem Within.append {Q : ℕ → μ → Prop} (hQ : ∀ m n k, m ≤ n → Q m k → Q n k)
    (hl : l.Within Q) (hr : r.Within Q) : (l.append r).Within Q := by
  intro pos base k hk
  rw [variableSize_append, ← Nat.add_assoc]
  rcases List.mem_append.mp hk with hk | hk
  · exact hQ _ _ k (Nat.le_add_right ..) (hl pos base k hk)
  · exact hr _ _ k hk

theorem Within.concat {Q : ℕ → μ → Prop} (hQ : ∀ m n k, m ≤ n → Q m k → Q n k)
    {ls : List (Layout α μ)} (h : ∀ l ∈ ls, l.Within Q) : (concat ls).Within Q := by
  induction ls with
  | nil => exact within_leaf []
  | cons l ls ih =>
    exact .append hQ (h l (List.mem_cons_self ..))
      (ih fun l' hl' => h l' (List.mem_cons_of_mem l hl'))

theorem Within.box {Q : ℕ → μ → Prop} {n : ℕ} {header : ℕ → List α} {mark : ℕ → ℕ → μ}
    {h : ∀ base, (header base).length = n} (hmark : ∀ pos base, Q (base + l.total) (mark pos base))
    (hl : l.Within Q) : (Layout.box n header mark l h).Within Q := by
  intro pos base k hk
  rcases List.mem_cons.mp hk with rfl | hk
  · exact hmark pos base
  · have hin := hl base (base + l.fixedSize) k hk
    rwa [Nat.add_assoc] at hin

/-- **An object that is all fixed section**: it has no variable data, and marks nothing. -/
def Flat (l : Layout α μ) : Prop := l.variableSize = 0 ∧ ∀ pos base, l.marks pos base = []

theorem flat_leaf (cells : List α) : (leaf cells fun _ _ => [] : Layout α μ).Flat :=
  ⟨rfl, fun _ _ => rfl⟩

theorem Flat.append (hl : l.Flat) (hr : r.Flat) : (l.append r).Flat := by
  refine ⟨?_, fun pos base => ?_⟩
  · rw [variableSize_append, hl.1, hr.1]
  · rw [marks_append, hl.2, hr.2, List.append_nil]

theorem Flat.concat {ls : List (Layout α μ)} (h : ∀ l ∈ ls, l.Flat) : (concat ls).Flat := by
  induction ls with
  | nil => exact flat_leaf []
  | cons l ls ih =>
    exact (h l (List.mem_cons_self ..)).append (ih fun l' hl' => h l' (List.mem_cons_of_mem l hl'))

end Layout

/-! ### Objects in memory -/

variable {α μ : Type} {mem : List α} {l r : Layout α μ} {pos base : ℕ}

/-- **A memory holds an object**: its fixed section from `pos` on and its variable section
from `base` on. -/
structure Placed (mem : List α) (l : Layout α μ) (pos base : ℕ) : Prop where
  fixed_le : pos + l.fixedSize ≤ mem.length
  body_le : base + l.variableSize ≤ mem.length
  fixed_eq : slice mem pos l.fixedSize = l.fixed base
  body_eq : slice mem base l.variableSize = l.body base

/-- **Placing side by side** is placing each. -/
theorem placed_append_iff : Placed mem (l.append r) pos base ↔
    Placed mem l pos base ∧ Placed mem r (pos + l.fixedSize) (base + l.variableSize) := by
  constructor
  · rintro ⟨hf, hb, hfe, hbe⟩
    rw [Layout.fixedSize_append] at hf hfe
    rw [Layout.variableSize_append] at hb hbe
    obtain ⟨hf₁, hf₂⟩ := (slice_eq_append_iff (l.length_fixed base) (by omega)).mp hfe
    obtain ⟨hb₁, hb₂⟩ := (slice_eq_append_iff (l.length_body base) (by omega)).mp hbe
    exact ⟨⟨by omega, by omega, hf₁, hb₁⟩, ⟨by omega, by omega, hf₂, hb₂⟩⟩
  · rintro ⟨⟨hf₁, hb₁, hfe₁, hbe₁⟩, ⟨hf₂, hb₂, hfe₂, hbe₂⟩⟩
    refine ⟨?_, ?_, ?_, ?_⟩
    · rw [Layout.fixedSize_append]
      omega
    · rw [Layout.variableSize_append]
      omega
    · exact (slice_eq_append_iff (l.length_fixed base) hf₁).mpr ⟨hfe₁, hfe₂⟩
    · exact (slice_eq_append_iff (l.length_body base) hb₁).mpr ⟨hbe₁, hbe₂⟩

/-- **Placing behind a header**: the header is at the position, the inner object at the
base, its variable data right after its fixed section. -/
theorem placed_box_iff {n : ℕ} {header : ℕ → List α} {mark : ℕ → ℕ → μ}
    {h : ∀ base, (header base).length = n} :
    Placed mem (Layout.box n header mark r h) pos base ↔
      (pos + n ≤ mem.length ∧ slice mem pos n = header base) ∧
        Placed mem r base (base + r.fixedSize) := by
  constructor
  · rintro ⟨hf, hb, hfe, hbe⟩
    have hb' : base + (r.fixedSize + r.variableSize) ≤ mem.length := hb
    obtain ⟨h₁, h₂⟩ := (slice_eq_append_iff (r.length_fixed _) (by omega)).mp hbe
    exact ⟨⟨hf, hfe⟩, ⟨by omega, by omega, h₁, h₂⟩⟩
  · rintro ⟨⟨hf, hfe⟩, ⟨hf', hb', hfe', hbe'⟩⟩
    refine ⟨hf, ?_, hfe, ?_⟩
    · show base + (r.fixedSize + r.variableSize) ≤ mem.length
      omega
    · exact (slice_eq_append_iff (r.length_fixed _) hf').mpr ⟨hfe', hbe'⟩

/-- **Every object of a row is placed**, the fixed sections at a constant stride, and marks
nothing that the row does not. -/
theorem Placed.concat_get {ls : List (Layout α μ)} {k : ℕ} (hk : ∀ l ∈ ls, l.fixedSize = k)
    (h : Placed mem (Layout.concat ls) pos base) {i : ℕ} {l : Layout α μ} (hi : ls[i]? = some l) :
    ∃ b, Placed mem l (pos + k * i) b ∧
      l.marks (pos + k * i) b ⊆ (Layout.concat ls).marks pos base := by
  induction ls generalizing pos base i with
  | nil => simp at hi
  | cons a ls ih =>
    have ha : a.fixedSize = k := hk a (List.mem_cons_self ..)
    obtain ⟨h₁, h₂⟩ := placed_append_iff.mp h
    rw [Layout.concat_cons, Layout.marks_append]
    cases i with
    | zero =>
      obtain rfl : a = l := by simpa using hi
      exact ⟨base, h₁, List.subset_append_left ..⟩
    | succ i =>
      obtain ⟨b, hb, hm⟩ := ih (fun l hl => hk l (List.mem_cons_of_mem a hl)) h₂ (by simpa using hi)
      have hpos : pos + a.fixedSize + k * i = pos + k * (i + 1) := by rw [ha]; ring
      rw [hpos] at hb hm
      exact ⟨b, hb, List.subset_append_of_subset_right _ hm⟩

/-! ### What the marks say -/

/-- **A layout whose marks are right**: in a memory that holds the object, every mark is
`Stored`, provided that all its marks are `Good`. -/
def Layout.Tells (Good : μ → Prop) (Stored : List α → μ → Prop) (l : Layout α μ) : Prop :=
  ∀ (mem : List α) (pos base : ℕ), Placed mem l pos base →
    (∀ k ∈ l.marks pos base, Good k) → ∀ k ∈ l.marks pos base, Stored mem k

section Tells

variable {Good : μ → Prop} {Stored : List α → μ → Prop}

theorem Layout.tells_leaf (cells : List α) : (leaf cells fun _ _ => []).Tells Good Stored := by
  intro mem pos base _ _ k hk
  exact absurd hk List.not_mem_nil

theorem Layout.Tells.append (hl : l.Tells Good Stored) (hr : r.Tells Good Stored) :
    (l.append r).Tells Good Stored := by
  intro mem pos base hp hgood k hk
  obtain ⟨hp₁, hp₂⟩ := placed_append_iff.mp hp
  obtain ⟨hg₁, hg₂⟩ := List.forall_mem_append.mp hgood
  rcases List.mem_append.mp hk with hk | hk
  · exact hl mem _ _ hp₁ hg₁ k hk
  · exact hr mem _ _ hp₂ hg₂ k hk

theorem Layout.Tells.concat {ls : List (Layout α μ)} (h : ∀ l ∈ ls, l.Tells Good Stored) :
    (Layout.concat ls).Tells Good Stored := by
  induction ls with
  | nil => exact tells_leaf []
  | cons l ls ih =>
    exact (h l (List.mem_cons_self ..)).append (ih fun l' hl' => h l' (List.mem_cons_of_mem l hl'))

/-- Behind a header, it is enough that the header is right about its own mark. -/
theorem Layout.Tells.box {n : ℕ} {header : ℕ → List α} {mark : ℕ → ℕ → μ}
    {h : ∀ base, (header base).length = n} (hr : r.Tells Good Stored)
    (hmark : ∀ (mem : List α) (pos base : ℕ), pos + n ≤ mem.length →
      slice mem pos n = header base → Good (mark pos base) → Stored mem (mark pos base)) :
    (Layout.box n header mark r h).Tells Good Stored := by
  intro mem pos base hp hgood k hk
  obtain ⟨⟨hle, hheader⟩, hinner⟩ := placed_box_iff.mp hp
  obtain ⟨hg, hgs⟩ := List.forall_mem_cons.mp hgood
  rcases List.mem_cons.mp hk with rfl | hk
  · exact hmark mem pos base hle hheader hg
  · exact hr mem _ _ hinner hgs k hk

end Tells

/-! ### Writing an object -/

namespace Layout

/-- **The memory once an object has been written**: its fixed section in place and its
variable section at the end. -/
def install (l : Layout α μ) (mem : List α) (pos : ℕ) : List α :=
  overwrite mem pos (l.fixed mem.length) ++ l.body mem.length

@[simp] theorem install_leaf (cells : List α) (marks : ℕ → ℕ → List μ) :
    (leaf cells marks).install mem pos = overwrite mem pos cells := List.append_nil _

theorem length_install (h : pos + l.fixedSize ≤ mem.length) :
    (l.install mem pos).length = mem.length + l.variableSize := by
  have hfix : (l.fixed mem.length).length = l.fixedSize := l.length_fixed _
  rw [install, List.length_append, length_overwrite (by omega), length_body]

/-- **Writing side by side** is writing one after the other. -/
theorem install_append (h : pos + (l.append r).fixedSize ≤ mem.length) :
    r.install (l.install mem pos) (pos + l.fixedSize) = (l.append r).install mem pos := by
  have hfix : (l.fixed mem.length).length = l.fixedSize := l.length_fixed _
  have hfix' := r.length_fixed (mem.length + l.variableSize)
  rw [fixedSize_append] at h
  have hlen : (l.install mem pos).length = mem.length + l.variableSize := length_install (by omega)
  have hin : pos + l.fixedSize + (r.fixed (mem.length + l.variableSize)).length ≤
      (overwrite mem pos (l.fixed mem.length)).length := by
    rw [length_overwrite (by omega)]
    omega
  rw [install, hlen, install, overwrite_append _ hin, ← hfix, overwrite_overwrite (by omega),
    List.append_assoc]
  rfl

/-- **Writing at the end**: an object whose fixed section has just been added to the memory
fills it. -/
theorem install_tail {more : List α} (h : more.length = l.fixedSize) :
    l.install (mem ++ more) mem.length =
      mem ++ (l.fixed (mem.length + l.fixedSize) ++ l.body (mem.length + l.fixedSize)) := by
  rw [install, List.length_append, h, overwrite_tail (by rw [length_fixed, h]), List.append_assoc]

end Layout

/-- **What writing an object leaves behind.** -/
theorem placed_install (h : pos + l.fixedSize ≤ mem.length) :
    Placed (l.install mem pos) l pos mem.length := by
  have hfix : (l.fixed mem.length).length = l.fixedSize := l.length_fixed _
  have hbody : (l.body mem.length).length = l.variableSize := l.length_body _
  have hlen : (overwrite mem pos (l.fixed mem.length)).length = mem.length :=
    length_overwrite (by omega)
  refine ⟨?_, ?_, ?_, ?_⟩
  · rw [Layout.length_install h]
    omega
  · rw [Layout.length_install h]
  · rw [Layout.install, slice_append_left _ (by omega), ← hfix, slice_overwrite_self (by omega)]
  · have := @slice_append_right α (overwrite mem pos (l.fixed mem.length)) (l.body mem.length)
    rwa [hlen, hbody] at this

/-! ### What leaves an object alone -/

/-- **Growing the memory leaves an object in place.** -/
theorem Placed.append_mem (h : Placed mem l pos base) (more : List α) :
    Placed (mem ++ more) l pos base := by
  refine ⟨?_, ?_, ?_, ?_⟩
  · rw [List.length_append]
    exact Nat.le_add_right_of_le h.fixed_le
  · rw [List.length_append]
    exact Nat.le_add_right_of_le h.body_le
  · rw [slice_append_left _ h.fixed_le, h.fixed_eq]
  · rw [slice_append_left _ h.body_le, h.body_eq]

/-- **A write that meets neither section leaves an object in place.** -/
theorem Placed.overwrite_mem (h : Placed mem l pos base) {i : ℕ} {xs : List α}
    (hi : i + xs.length ≤ mem.length)
    (hf : ∀ k, ¬(i ≤ k ∧ k < i + xs.length ∧ pos ≤ k ∧ k < pos + l.fixedSize))
    (hb : ∀ k, ¬(i ≤ k ∧ k < i + xs.length ∧ base ≤ k ∧ k < base + l.variableSize)) :
    Placed (overwrite mem i xs) l pos base := by
  refine ⟨?_, ?_, ?_, ?_⟩
  · rw [length_overwrite hi]
    exact h.fixed_le
  · rw [length_overwrite hi]
    exact h.body_le
  · rw [slice_overwrite_of_disjoint hi hf, h.fixed_eq]
  · rw [slice_overwrite_of_disjoint hi hb, h.body_eq]

end TwoSection
