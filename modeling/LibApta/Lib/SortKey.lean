import Mathlib.Data.List.Sort
import Mathlib.Data.List.Chain

/-!
# Sorting by a key

A list sorted by a key of a linear order shows a repeated key as two neighbours with one key. With
distinct keys the sorted list depends on the elements alone, not on their order.
-/

namespace LibApta.SortKey

variable {α κ : Type} [LinearOrder κ]

/-- The list in the order of its keys. -/
def sortKey (key : α → κ) (l : List α) : List α :=
  l.mergeSort fun a b => decide (key a ≤ key b)

/-- Two neighbours have one key. -/
def repeats (key : α → κ) : List α → Bool
  | a :: b :: rest => decide (key a = key b) || repeats key (b :: rest)
  | _ => false

variable {key : α → κ} {l l' : List α}

theorem sortKey_perm (key : α → κ) (l : List α) : (sortKey key l).Perm l := List.mergeSort_perm _ _

theorem sortKey_pairwise (key : α → κ) (l : List α) :
    (sortKey key l).Pairwise fun a b => key a ≤ key b := by
  have hsorted : (sortKey key l).Pairwise fun a b => decide (key a ≤ key b) = true := by
    apply List.pairwise_mergeSort
    · intro a b c hab hbc
      rw [decide_eq_true_eq] at *
      exact hab.trans hbc
    · intro a b
      rw [Bool.or_eq_true, decide_eq_true_eq, decide_eq_true_eq]
      exact le_total _ _
  exact hsorted.imp fun h => of_decide_eq_true h

theorem repeats_eq_false_iff (h : l.Pairwise fun a b => key a ≤ key b) :
    repeats key l = false ↔ l.Pairwise fun a b => key a < key b := by
  induction l with
  | nil => simp [repeats]
  | cons a rest ih =>
      cases rest with
      | nil => simp [repeats]
      | cons b rest =>
          obtain ⟨hle, hrest⟩ := List.pairwise_cons.mp h
          have hab := hle b List.mem_cons_self
          rw [repeats, Bool.or_eq_false_iff, decide_eq_false_iff_not, ih hrest,
            List.pairwise_cons (a := a)]
          constructor
          · rintro ⟨hne, hlt⟩
            refine ⟨fun c hc => ?_, hlt⟩
            have hfirst : key a < key b := lt_of_le_of_ne hab hne
            rcases List.mem_cons.mp hc with rfl | hc
            · exact hfirst
            · exact hfirst.trans ((List.pairwise_cons.mp hlt).1 c hc)
          · rintro ⟨hlt, hrest⟩
            exact ⟨(hlt b List.mem_cons_self).ne, hrest⟩

/-- After sorting, no two neighbours have one key exactly when the keys are distinct. -/
theorem repeats_sortKey : repeats key (sortKey key l) = false ↔ (l.map key).Nodup := by
  rw [repeats_eq_false_iff (sortKey_pairwise key l),
    ← ((sortKey_perm key l).map key).nodup_iff, List.Nodup, List.pairwise_map]
  constructor
  · intro h
    exact h.imp fun hlt => hlt.ne
  · intro h
    exact h.imp₂ (fun _ _ hne hle => lt_of_le_of_ne hle hne) (sortKey_pairwise key l)

/-- A list in strictly increasing order is its own sort. -/
theorem eq_of_perm_of_pairwise (hperm : l.Perm l') (h : l.Pairwise fun a b => key a < key b)
    (h' : l'.Pairwise fun a b => key a < key b) : l = l' :=
  hperm.eq_of_pairwise (fun _ _ _ _ hab hba => absurd hab hba.asymm) h h'

theorem sortKey_pairwise_lt (h : (l.map key).Nodup) :
    (sortKey key l).Pairwise fun a b => key a < key b :=
  (repeats_eq_false_iff (sortKey_pairwise key l)).mp (repeats_sortKey.mpr h)

/-- The order of the elements does not matter. -/
theorem sortKey_congr (hperm : l.Perm l') (h : (l.map key).Nodup) :
    sortKey key l = sortKey key l' := by
  have hsort : (sortKey key l).Perm (sortKey key l') :=
    (sortKey_perm key l).trans (hperm.trans (sortKey_perm key l').symm)
  refine eq_of_perm_of_pairwise hsort (sortKey_pairwise_lt h) ?_
  exact sortKey_pairwise_lt ((hperm.map key).nodup_iff.mp h)

theorem sortKey_of_pairwise (h : l.Pairwise fun a b => key a < key b) : sortKey key l = l := by
  apply eq_of_perm_of_pairwise (sortKey_perm key l) (sortKey_pairwise_lt _) h
  rw [List.Nodup, List.pairwise_map]
  exact h.imp fun hlt => hlt.ne

end LibApta.SortKey
