import Mathlib.Data.Int.Interval
import Mathlib.Data.List.Sort
import Mathlib.Data.Set.Card
import Mathlib.Data.Int.ConditionallyCompleteOrder
import Mathlib.Order.Interval.Finset.Defs

/-!
# Arithmetic progressions

The terms `start + n * step` of an arithmetic progression of positive step, for every integer `n` or
from the start on. The first term at or after a bound has the index `index`; the integers between two
indices number the terms of a half-open interval (`ncard_terms`). From the start on, `before` counts
the terms before a bound, and `within` lists those of an interval in order.
-/

namespace LibApta.Progression

variable {start step first past bound : ℕ} {n : ℤ}

/-! ## All terms -/

/-- The index of the first term at or after a bound. -/
def index (start step bound : ℕ) : ℤ := -(((start : ℤ) - bound) / step)

theorem index_le_iff (hstep : 0 < step) :
    index start step bound ≤ n ↔ (bound : ℤ) ≤ start + n * step := by
  have hpos : (0 : ℤ) < step := Int.natCast_pos.mpr hstep
  unfold index
  rw [neg_le, Int.le_ediv_iff_mul_le hpos, neg_mul]
  omega

theorem lt_index_iff (hstep : 0 < step) :
    n < index start step bound ↔ (start + n * step : ℤ) < bound := by
  rw [← not_le, index_le_iff hstep, not_le]

/-- The term at the index of a bound is at or after it. -/
theorem le_index_term (hstep : 0 < step) (start bound : ℕ) :
    (bound : ℤ) ≤ start + index start step bound * step := (index_le_iff hstep).mp le_rfl

theorem index_mono (hstep : 0 < step) (start : ℕ) (h : first ≤ past) :
    index start step first ≤ index start step past := by
  rw [index_le_iff hstep]
  have hpast := le_index_term hstep start past
  omega

/-- The numbers of the terms in a half-open interval, numbered from any origin. -/
theorem terms_eq_Ico (hstep : 0 < step) (origin : ℤ) :
    {k : ℤ | (first : ℤ) ≤ start + (k - origin) * step ∧ (start + (k - origin) * step : ℤ) < past} =
      Finset.Ico (origin + index start step first) (origin + index start step past) := by
  ext k
  simp only [Set.mem_ofPred_eq, Finset.coe_Ico, Set.mem_Ico]
  rw [← index_le_iff hstep, ← lt_index_iff hstep]
  omega

theorem ncard_terms (hstep : 0 < step) (origin : ℤ) :
    {k : ℤ | (first : ℤ) ≤ start + (k - origin) * step ∧
      (start + (k - origin) * step : ℤ) < past}.ncard =
      (index start step past - index start step first).toNat := by
  rw [terms_eq_Ico hstep, Set.ncard_coe_finset, Int.card_Ico]
  congr 1
  omega

/-! ## Terms from the start on -/

/-- How many terms from the start on come before a bound. -/
def before (start step bound : ℕ) : ℕ := (bound - start + step - 1) / step

theorem lt_before_iff (hstep : 0 < step) {n : ℕ} :
    n < before start step bound ↔ start + n * step < bound := by
  unfold before
  rw [Nat.lt_iff_add_one_le, Nat.le_div_iff_mul_le hstep, Nat.add_mul, Nat.one_mul]
  omega

theorem before_le_iff (hstep : 0 < step) {n : ℕ} :
    before start step bound ≤ n ↔ bound ≤ start + n * step := by
  rw [← not_lt, lt_before_iff hstep, not_lt]

theorem before_eq_zero (hstep : 0 < step) (h : bound ≤ start) : before start step bound = 0 :=
  Nat.le_zero.mp ((before_le_iff hstep).mpr (by omega))

/-- As many terms on as come before a bound is the first term at or after it. -/
theorem le_before_term (hstep : 0 < step) (start bound : ℕ) :
    bound ≤ start + before start step bound * step := (before_le_iff hstep).mp le_rfl

theorem before_mono (hstep : 0 < step) (start : ℕ) (h : first ≤ past) :
    before start step first ≤ before start step past := by
  rw [before_le_iff hstep]
  exact h.trans (le_before_term hstep start past)

/-- The index of the first term at or after a bound is the number of terms before it, where that term
is not before the start. -/
theorem toNat_index (hstep : 0 < step) :
    (index start step bound).toNat = before start step bound := by
  refine le_antisymm ?_ ?_
  · rw [Int.toNat_le, index_le_iff hstep]
    exact_mod_cast le_before_term hstep start bound
  · rw [before_le_iff hstep]
    have h : (bound : ℤ) ≤ start + (index start step bound).toNat * step :=
      (index_le_iff hstep).mp (Int.self_le_toNat _)
    exact_mod_cast h

/-- Of a slower progression as many terms, or fewer, come before a bound. -/
theorem before_le_before {start' step' bound' : ℕ} (hstep : 0 < step) (hstep' : 0 < step')
    (h : ∀ n : ℕ, start + n * step < bound → start' + n * step' < bound') :
    before start step bound ≤ before start' step' bound' := by
  by_contra hlt
  exact lt_irrefl _ ((lt_before_iff hstep').mpr (h _ ((lt_before_iff hstep).mp (not_le.mp hlt))))

/-- Skipping terms skips them in the count. -/
theorem before_add_mul (hstep : 0 < step) (start bound skipped : ℕ) :
    before (start + skipped * step) step bound = before start step bound - skipped := by
  refine le_antisymm ?_ ?_
  · rw [before_le_iff hstep, Nat.add_assoc, ← Nat.add_mul]
    exact (before_le_iff hstep).mp (by omega)
  · rw [Nat.sub_le_iff_le_add, before_le_iff hstep, Nat.add_mul, Nat.add_comm (_ * step),
      ← Nat.add_assoc]
    exact le_before_term hstep _ bound

/-! ## The terms of an interval -/

/-- The terms from the start on that lie in a half-open interval, in order. -/
def within (start step first past : ℕ) : List ℕ :=
  (List.range' (before start step first)
    (before start step past - before start step first)).map fun n => start + n * step

theorem length_within : (within start step first past).length =
    before start step past - before start step first := by
  simp [within]

theorem mem_within (hstep : 0 < step) {x : ℕ} :
    x ∈ within start step first past ↔ (∃ n : ℕ, x = start + n * step) ∧ first ≤ x ∧ x < past := by
  simp only [within, List.mem_map, List.mem_range'_1]
  constructor
  · rintro ⟨n, ⟨hfirst, hpast⟩, rfl⟩
    exact ⟨⟨n, rfl⟩, (before_le_iff hstep).mp hfirst, (lt_before_iff hstep).mp (by omega)⟩
  · rintro ⟨⟨n, rfl⟩, hfirst, hpast⟩
    have hfirst := (before_le_iff hstep).mpr hfirst
    have hpast := (lt_before_iff hstep).mpr hpast
    exact ⟨n, ⟨hfirst, by omega⟩, rfl⟩

theorem within_pairwise (hstep : 0 < step) :
    (within start step first past).Pairwise (· < ·) := by
  refine List.Pairwise.map _ (fun i j hij => ?_) List.pairwise_lt_range'
  have := Nat.mul_lt_mul_of_pos_right hij hstep
  omega

end LibApta.Progression
