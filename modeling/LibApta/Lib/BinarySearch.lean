import Mathlib.Data.List.Sort
import Mathlib.Data.List.GetD

/-!
# Binary search for a lower bound

`lowerBound before low high` halves an index interval until it finds the first index where a
downward-closed test `before` fails. `lowerBound_spec` says the result separates the indices that
pass from those that do not; `lowerBound_sorted` reads that on a strictly sorted list of keys.
-/

namespace LibApta

/-- Binary search with explicit fuel; `high - low` halvings are enough. -/
def lowerBoundAux (before : ℕ → Bool) : ℕ → ℕ → ℕ → ℕ
  | 0, low, _ => low
  | fuel + 1, low, high =>
      if low < high then
        if before (low + (high - low) / 2) then
          lowerBoundAux before fuel (low + (high - low) / 2 + 1) high
        else lowerBoundAux before fuel low (low + (high - low) / 2)
      else low

/-- The first index in `[low, high]` at which `before` fails. -/
def lowerBound (before : ℕ → Bool) (low high : ℕ) : ℕ :=
  lowerBoundAux before (high - low) low high

private theorem lowerBoundAux_spec {before : ℕ → Bool} {bound : ℕ}
    (hdown : ∀ i j, i ≤ j → j < bound → before j → before i)
    (fuel low high : ℕ) (hfuel : high - low ≤ fuel) (hle : low ≤ high) (hbound : high ≤ bound)
    (hlow : ∀ i < low, before i) (hhigh : ∀ i, high ≤ i → i < bound → ¬ before i) :
    (∀ i < lowerBoundAux before fuel low high, before i) ∧
      (∀ i, lowerBoundAux before fuel low high ≤ i → i < bound → ¬ before i) ∧
        lowerBoundAux before fuel low high ≤ bound := by
  induction fuel generalizing low high with
  | zero =>
      have heq : low = high := by omega
      subst heq
      exact ⟨hlow, hhigh, hbound⟩
  | succ fuel ih =>
      unfold lowerBoundAux
      split_ifs with hlt hmid
      · -- The middle passes, so everything up to it does.
        exact ih _ _ (by omega) (by omega) hbound
          (fun i hi => hdown i _ (by omega) (by omega) hmid) hhigh
      · -- The middle fails, so everything from it on does.
        exact ih _ _ (by omega) (by omega) (by omega) hlow
          (fun i hi hib h => hmid (hdown _ i hi hib h))
      · exact ⟨hlow, fun i hi => hhigh i (by omega), by omega⟩

/-- Binary search over a downward-closed test finds the boundary. -/
theorem lowerBound_spec {before : ℕ → Bool} {bound : ℕ}
    (hdown : ∀ i j, i ≤ j → j < bound → before j → before i) :
    (∀ i < lowerBound before 0 bound, before i) ∧
      (∀ i, lowerBound before 0 bound ≤ i → i < bound → ¬ before i) ∧
        lowerBound before 0 bound ≤ bound :=
  lowerBoundAux_spec hdown (bound - 0) 0 bound le_rfl (Nat.zero_le _) le_rfl
    (fun i hi => absurd hi (Nat.not_lt_zero i)) (fun i h₁ h₂ => absurd h₂ (by omega))

theorem lowerBound_le (before : ℕ → Bool) (high : ℕ) : lowerBound before 0 high ≤ high := by
  have haux : ∀ fuel low limit, low ≤ limit → lowerBoundAux before fuel low limit ≤ limit := by
    intro fuel
    induction fuel with
    | zero => exact fun _ _ hle => hle
    | succ fuel ih =>
        intro low limit hle
        unfold lowerBoundAux
        split_ifs
        · exact ih _ _ (by omega)
        · exact (ih _ _ (by omega)).trans (by omega)
        · exact hle
  exact haux _ _ _ (Nat.zero_le _)

/-- The search tests indices below its upper end only. -/
theorem lowerBound_congr {before before' : ℕ → Bool} {high : ℕ}
    (h : ∀ i < high, before i = before' i) : lowerBound before 0 high = lowerBound before' 0 high := by
  have haux : ∀ fuel low limit, limit ≤ high →
      lowerBoundAux before fuel low limit = lowerBoundAux before' fuel low limit := by
    intro fuel
    induction fuel with
    | zero => exact fun _ _ _ => rfl
    | succ fuel ih =>
        intro low limit hlimit
        unfold lowerBoundAux
        split_ifs with hlt hmid hmid' hmid'
        · exact ih _ _ hlimit
        · rw [h _ (by omega)] at hmid
          exact absurd hmid hmid'
        · rw [← h _ (by omega)] at hmid'
          exact absurd hmid' hmid
        · exact ih _ _ (by omega)
        · rfl
  exact haux _ _ _ le_rfl

/-- The lower bound of a key in a strictly sorted list. -/
theorem lowerBound_sorted {keys : List ℕ} (hsorted : keys.Pairwise (· < ·)) (key : ℕ) :
    lowerBound (fun i => decide (keys.getD i 0 < key)) 0 keys.length ≤ keys.length ∧
      ∀ i (h : i < keys.length),
        i < lowerBound (fun i => decide (keys.getD i 0 < key)) 0 keys.length ↔ keys[i] < key := by
  have hdown : ∀ i j, i ≤ j → j < keys.length →
      decide (keys.getD j 0 < key) → decide (keys.getD i 0 < key) := by
    intro i j hij hj h
    simp only [decide_eq_true_eq, List.getD_eq_getElem _ _ hj,
      List.getD_eq_getElem _ _ (lt_of_le_of_lt hij hj)] at h ⊢
    rcases hij.lt_or_eq with hlt | rfl
    · exact (List.pairwise_iff_getElem.mp hsorted i j _ hj hlt).trans h
    · exact h
  obtain ⟨hbelow, habove, hle⟩ := lowerBound_spec hdown
  refine ⟨hle, fun i hi => ?_⟩
  have hget : keys.getD i 0 = keys[i] := List.getD_eq_getElem _ _ hi
  rw [← hget, ← decide_eq_true_iff (p := keys.getD i 0 < key)]
  refine ⟨hbelow i, fun h => ?_⟩
  by_contra hge
  exact habove i (by omega) hi h

end LibApta
