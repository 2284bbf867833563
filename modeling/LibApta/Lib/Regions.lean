import Mathlib.Algebra.Order.Ring.Nat
import Mathlib.Data.List.Pairwise
import Mathlib.Order.CompletePartialOrder
import Mathlib.Order.Interval.Set.Disjoint

/-!
# Arrays in a block of memory

A region is the place of an array: an offset, a number of elements and the size of one. Regions laid
out behind each other share no byte, and in a region at a multiple of an alignment that divides the
size of an element every element is aligned.
-/

namespace LibApta

/-- The place of an array. -/
structure Region where
  offset : ℕ
  count : ℕ
  size : ℕ
deriving DecidableEq

namespace Region

/-- The offset behind the array. -/
def past (region : Region) : ℕ := region.offset + region.count * region.size

/-- The bytes of the array. -/
def bytes (region : Region) : Set ℕ := Set.Ico region.offset region.past

/-- The place of an element. -/
def element (region : Region) (index : ℕ) : Region :=
  ⟨region.offset + index * region.size, 1, region.size⟩

variable {region other : Region}

theorem offset_le_past : region.offset ≤ region.past := Nat.le_add_right _ _

/-- The elements of an aligned array are aligned. -/
theorem dvd_element {alignment : ℕ} (hoffset : alignment ∣ region.offset)
    (hsize : alignment ∣ region.size) (index : ℕ) : alignment ∣ (region.element index).offset :=
  (Nat.dvd_add_right hoffset).mpr (hsize.mul_left index)

theorem disjoint_of_le (h : region.past ≤ other.offset) : Disjoint region.bytes other.bytes := by
  rw [bytes, bytes, Set.Ico_disjoint_Ico]
  exact (min_le_left _ _).trans (h.trans (le_max_right _ _))

/-! ## Regions behind each other -/

/-- The regions follow each other between two offsets. -/
def Follow : ℕ → ℕ → List Region → Prop
  | start, stop, [] => start ≤ stop
  | start, stop, region :: rest => start ≤ region.offset ∧ Follow region.past stop rest

variable {start middle stop : ℕ} {regions : List Region}

theorem Follow.le (h : Follow start stop regions) : start ≤ stop := by
  induction regions generalizing start with
  | nil => exact h
  | cons region rest ih => exact h.1.trans (offset_le_past.trans (ih h.2))

/-- A region behind the others. -/
theorem Follow.concat (h : Follow start middle regions) (hregion : middle ≤ region.offset) :
    Follow start region.past (regions ++ [region]) := by
  induction regions generalizing start with
  | nil => exact ⟨h.trans hregion, le_rfl⟩
  | cons first rest ih => exact ⟨h.1, ih h.2⟩

theorem Follow.mem (h : Follow start stop regions) (hmem : region ∈ regions) :
    start ≤ region.offset ∧ region.past ≤ stop := by
  induction regions generalizing start with
  | nil => cases hmem
  | cons first rest ih =>
      rcases List.mem_cons.mp hmem with rfl | hmem
      · exact ⟨h.1, h.2.le⟩
      · obtain ⟨hstart, hpast⟩ := ih h.2 hmem
        exact ⟨h.1.trans (offset_le_past.trans hstart), hpast⟩

/-- Regions that follow each other share no byte. -/
theorem Follow.disjoint (h : Follow start stop regions) :
    regions.Pairwise fun region other => Disjoint region.bytes other.bytes := by
  induction regions generalizing start with
  | nil => exact List.Pairwise.nil
  | cons first rest ih =>
      refine List.Pairwise.cons (fun other hmem => ?_) (ih h.2)
      exact disjoint_of_le (h.2.mem hmem).1

end Region

end LibApta
