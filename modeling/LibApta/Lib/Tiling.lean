import Mathlib.Algebra.GroupWithZero.Nat
import Mathlib.Data.List.Basic
import Mathlib.Order.Interval.Finset.Nat
import Mathlib.Order.Nat

/-!
# Tilings of an interval

A list of cells tiles an interval when the first cell starts where the interval does, each other
cell starts where the one before it ends, and the last cell ends where the interval does. The cells
of a tiling lie in the interval in the order of the list and share no point, and any part of a
tiling may be replaced by another tiling of the same part.
-/

namespace LibApta.Tiling

variable {α : Type}

/-- The cells cover `[start, stop)` one after the other. -/
def Tiles (first past : α → ℕ) : ℕ → ℕ → List α → Prop
  | start, stop, [] => start = stop
  | start, stop, cell :: rest =>
      first cell = start ∧ start < past cell ∧ Tiles first past (past cell) stop rest

variable {first past : α → ℕ} {start middle stop : ℕ} {cells before after : List α} {cell : α}

@[simp] theorem tiles_nil : Tiles first past start stop [] ↔ start = stop := Iff.rfl

theorem tiles_cons :
    Tiles first past start stop (cell :: cells) ↔
      first cell = start ∧ start < past cell ∧ Tiles first past (past cell) stop cells := Iff.rfl

/-- A tiling of one cell is the interval of the cell. -/
theorem tiles_singleton :
    Tiles first past start stop [cell] ↔ first cell = start ∧ start < stop ∧ past cell = stop := by
  rw [tiles_cons, tiles_nil]
  constructor
  · rintro ⟨hfirst, hlt, rfl⟩
    exact ⟨hfirst, hlt, rfl⟩
  · rintro ⟨hfirst, hlt, rfl⟩
    exact ⟨hfirst, hlt, rfl⟩

/-- A tiling by a concatenation is two tilings that meet. -/
theorem tiles_append :
    Tiles first past start stop (before ++ after) ↔
      ∃ middle, Tiles first past start middle before ∧ Tiles first past middle stop after := by
  induction before generalizing start with
  | nil => simp
  | cons cell rest ih =>
      simp only [List.cons_append, tiles_cons, ih]
      constructor
      · rintro ⟨hfirst, hlt, middle, hbefore, hafter⟩
        exact ⟨middle, ⟨hfirst, hlt, hbefore⟩, hafter⟩
      · rintro ⟨middle, ⟨hfirst, hlt, hbefore⟩, hafter⟩
        exact ⟨hfirst, hlt, middle, hbefore, hafter⟩

theorem Tiles.append (hbefore : Tiles first past start middle before)
    (hafter : Tiles first past middle stop after) :
    Tiles first past start stop (before ++ after) :=
  tiles_append.mpr ⟨middle, hbefore, hafter⟩

theorem Tiles.le (h : Tiles first past start stop cells) : start ≤ stop := by
  induction cells generalizing start with
  | nil => exact le_of_eq h
  | cons cell rest ih => exact h.2.1.le.trans (ih h.2.2)

/-- Every cell of a tiling is a non-empty part of the interval. -/
theorem Tiles.bounds (h : Tiles first past start stop cells) (hcell : cell ∈ cells) :
    start ≤ first cell ∧ first cell < past cell ∧ past cell ≤ stop := by
  induction cells generalizing start with
  | nil => exact absurd hcell List.not_mem_nil
  | cons head rest ih =>
      obtain ⟨hfirst, hlt, hrest⟩ := h
      rcases List.mem_cons.mp hcell with rfl | hmem
      · exact ⟨hfirst.ge, hfirst ▸ hlt, hrest.le⟩
      · obtain ⟨hstart, hnonempty, hstop⟩ := ih hrest hmem
        exact ⟨hlt.le.trans hstart, hnonempty, hstop⟩

/-- The points of the interval are those of the cells. -/
theorem Tiles.mem_iff (h : Tiles first past start stop cells) (point : ℕ) :
    (∃ cell ∈ cells, first cell ≤ point ∧ point < past cell) ↔ start ≤ point ∧ point < stop := by
  induction cells generalizing start with
  | nil =>
      obtain rfl : start = stop := h
      simp only [List.not_mem_nil, false_and, exists_false, false_iff, not_and, not_lt, imp_self]
  | cons head rest ih =>
      obtain ⟨hfirst, hlt, hrest⟩ := h
      have hle := hrest.le
      rw [List.exists_mem_cons_iff, ih hrest, hfirst]
      omega

/-- The cells of a tiling are in order and share no point. -/
theorem Tiles.pairwise (h : Tiles first past start stop cells) :
    cells.Pairwise fun earlier later => past earlier ≤ first later := by
  induction cells generalizing start with
  | nil => exact List.Pairwise.nil
  | cons head rest ih =>
      refine List.pairwise_cons.mpr ⟨fun later hlater => ?_, ih h.2.2⟩
      exact (h.2.2.bounds hlater).1

/-- The other cells of a tiling start elsewhere than a cell of it. -/
theorem Tiles.first_ne (h : Tiles first past start stop (before ++ cell :: after)) {other : α}
    (hother : other ∈ before ∨ other ∈ after) : first other ≠ first cell := by
  obtain ⟨middle, hbefore, hfirst, hlt, hafter⟩ := tiles_append.mp h
  rcases hother with hother | hother
  · obtain ⟨-, hnonempty, hle⟩ := hbefore.bounds hother
    exact (hnonempty.trans_le (hle.trans_eq hfirst.symm)).ne
  · obtain ⟨hle, -, -⟩ := hafter.bounds hother
    exact (hfirst.trans_lt (hlt.trans_le hle)).ne'

/-- A part of a tiling may be tiled in another way. -/
theorem Tiles.replace {part other : List α}
    (h : Tiles first past start stop (before ++ part ++ after))
    (hpart : ∀ a b, Tiles first past a b part → Tiles first past a b other) :
    Tiles first past start stop (before ++ other ++ after) := by
  obtain ⟨b, hbefore, hafter⟩ := tiles_append.mp h
  obtain ⟨a, hbefore, hmiddle⟩ := tiles_append.mp hbefore
  exact (hbefore.append (hpart a b hmiddle)).append hafter

/-! ## Cells apart -/

/-- Two cells share no point. -/
def Apart (first past : α → ℕ) (a b : α) : Prop := past a ≤ first b ∨ past b ≤ first a

theorem Apart.symm {a b : α} (h : Apart first past a b) : Apart first past b a := Or.symm h

/-- Of cells that are pairwise apart, two that have a point in common are one. -/
theorem eq_of_apart (h : cells.Pairwise (Apart first past)) {other : α} (hcell : cell ∈ cells)
    (hother : other ∈ cells) {point : ℕ} (hin : first cell ≤ point ∧ point < past cell)
    (hin' : first other ≤ point ∧ point < past other) : cell = other := by
  have hsymm : Std.Symm (Apart first past) := ⟨fun _ _ => Apart.symm⟩
  by_contra hne
  rcases h.forall hcell hother hne with hle | hle <;> omega

/-- Two cells of a tiling that start at the same point are the same. -/
theorem Tiles.eq_of_first_eq (h : Tiles first past start stop cells) {other : α}
    (hcell : cell ∈ cells) (hother : other ∈ cells) (heq : first cell = first other) :
    cell = other := by
  obtain ⟨-, hlt, -⟩ := h.bounds hcell
  obtain ⟨-, hlt', -⟩ := h.bounds hother
  exact eq_of_apart (h.pairwise.imp Or.inl) hcell hother ⟨le_rfl, hlt⟩ ⟨heq.ge, heq ▸ hlt'⟩

/-- Cells that are pairwise apart cover as many points as they are long together. -/
theorem exists_cover (h : cells.Pairwise (Apart first past)) :
    ∃ points : Finset ℕ, points.card = (cells.map fun cell => past cell - first cell).sum ∧
      ∀ point ∈ points, ∃ cell ∈ cells, first cell ≤ point ∧ point < past cell := by
  induction cells with
  | nil => exact ⟨∅, rfl, by simp⟩
  | cons head rest ih =>
      obtain ⟨hhead, hrest⟩ := List.pairwise_cons.mp h
      obtain ⟨points, hcard, hpoints⟩ := ih hrest
      have hdisjoint : Disjoint (Finset.Ico (first head) (past head)) points := by
        rw [Finset.disjoint_left]
        intro point hmem hpoint
        obtain ⟨cell, hcell, hle, hlt⟩ := hpoints point hpoint
        rw [Finset.mem_Ico] at hmem
        have hapart := hhead cell hcell
        unfold Apart at hapart
        omega
      refine ⟨Finset.Ico (first head) (past head) ∪ points, ?_, fun point hpoint => ?_⟩
      · rw [Finset.card_union_of_disjoint hdisjoint, Nat.card_Ico, hcard, List.map_cons,
          List.sum_cons]
      · rcases Finset.mem_union.mp hpoint with hmem | hmem
        · exact ⟨head, List.mem_cons_self, Finset.mem_Ico.mp hmem⟩
        · obtain ⟨cell, hcell, hin⟩ := hpoints point hmem
          exact ⟨cell, List.mem_cons_of_mem _ hcell, hin⟩

/-- Cells of an interval that are pairwise apart are together no longer than the interval. -/
theorem sum_le_of_apart (h : cells.Pairwise (Apart first past))
    (hbounds : ∀ cell ∈ cells, start ≤ first cell ∧ past cell ≤ stop) :
    (cells.map fun cell => past cell - first cell).sum ≤ stop - start := by
  obtain ⟨points, hcard, hpoints⟩ := exists_cover h
  rw [← hcard, ← Nat.card_Ico]
  apply Finset.card_le_card
  intro point hpoint
  obtain ⟨cell, hcell, hle, hlt⟩ := hpoints point hpoint
  exact Finset.mem_Ico.mpr ⟨(hbounds cell hcell).1.trans hle, hlt.trans_le (hbounds cell hcell).2⟩

end LibApta.Tiling
