import LibApta.Lib.Intervals
import Mathlib.Data.List.Chain
import Mathlib.Data.List.Sort

/-!
# Disjointness by sorting

Non-empty intervals are pairwise disjoint exactly when, sorted by their bounds, no interval starts
before its predecessor ends (`sweep_iff`).
-/

namespace LibApta.Interval

variable {α : Type} [LinearOrder α]

/-- The order of the sort: by lower bound, then by upper bound. -/
def before (a b : Interval α) : Bool :=
  decide (a.lo < b.lo) || (decide (a.lo = b.lo) && decide (a.hi ≤ b.hi))

/-- The intervals in increasing order. -/
def sorted (ranges : List (Interval α)) : List (Interval α) := ranges.mergeSort before

/-- Some interval starts before its predecessor ends. -/
def collides : List (Interval α) → Bool
  | a :: b :: rest => decide (b.lo < a.hi) || collides (b :: rest)
  | _ => false

/-- Two intervals share no point (for non-empty intervals). -/
def Apart (a b : Interval α) : Prop := a.hi ≤ b.lo ∨ b.hi ≤ a.lo

theorem Apart.symm {a b : Interval α} (h : Apart a b) : Apart b a := Or.symm h

theorem before_lo {a b : Interval α} (h : before a b = true) : a.lo ≤ b.lo := by
  simp only [before, Bool.or_eq_true, Bool.and_eq_true, decide_eq_true_eq] at h
  rcases h with h | ⟨h, -⟩
  · exact h.le
  · exact h.le

theorem before_trans (a b c : Interval α) (hab : before a b = true) (hbc : before b c = true) :
    before a c = true := by
  simp only [before, Bool.or_eq_true, Bool.and_eq_true, decide_eq_true_eq] at *
  rcases hab with hab | ⟨hab, hab'⟩
  · rcases hbc with hbc | ⟨hbc, -⟩
    · exact .inl (hab.trans hbc)
    · exact .inl (hbc ▸ hab)
  · rcases hbc with hbc | ⟨hbc, hbc'⟩
    · exact .inl (hab ▸ hbc)
    · exact .inr ⟨hab.trans hbc, hab'.trans hbc'⟩

theorem before_total (a b : Interval α) : (before a b || before b a) = true := by
  simp only [before, Bool.or_eq_true, Bool.and_eq_true, decide_eq_true_eq]
  rcases lt_trichotomy a.lo b.lo with h | h | h
  · exact .inl (.inl h)
  · rcases le_total a.hi b.hi with h' | h'
    · exact .inl (.inr ⟨h, h'⟩)
    · exact .inr (.inr ⟨h.symm, h'⟩)
  · exact .inr (.inl h)

theorem sorted_perm (ranges : List (Interval α)) : (sorted ranges).Perm ranges :=
  List.mergeSort_perm _ _

theorem sorted_pairwise (ranges : List (Interval α)) :
    (sorted ranges).Pairwise fun a b => before a b = true :=
  List.pairwise_mergeSort before_trans before_total _

theorem collides_eq_false_iff (ranges : List (Interval α)) :
    collides ranges = false ↔ ranges.IsChain fun a b => a.hi ≤ b.lo := by
  induction ranges with
  | nil => simp [collides]
  | cons a rest ih =>
      cases rest with
      | nil => simp [collides]
      | cons b rest =>
          rw [collides, Bool.or_eq_false_iff, decide_eq_false_iff_not, not_lt, ih,
            List.isChain_cons_cons]

/-- On non-empty intervals in a chain the order is that of the positions. -/
theorem pairwise_of_isChain {ranges : List (Interval α)} (hne : ∀ r ∈ ranges, r.lo < r.hi)
    (h : ranges.IsChain fun a b => a.hi ≤ b.lo) :
    ranges.Pairwise fun a b => a.hi ≤ b.lo := by
  induction ranges with
  | nil => exact List.Pairwise.nil
  | cons a rest ih =>
      have hrest := ih (fun r hr => hne r (List.mem_cons_of_mem _ hr)) h.tail
      refine List.pairwise_cons.mpr ⟨?_, hrest⟩
      intro c hc
      cases rest with
      | nil => cases hc
      | cons b rest =>
          have hab : a.hi ≤ b.lo := (List.isChain_cons_cons.mp h).1
          rcases List.mem_cons.mp hc with rfl | hc
          · exact hab
          · have hb := hne b (by simp)
            have hbc := (List.pairwise_cons.mp hrest).1 c hc
            exact hab.trans (hb.le.trans hbc)

/-- The sorted intervals collide nowhere exactly when the intervals are pairwise disjoint. -/
theorem sweep_iff {ranges : List (Interval α)} (hne : ∀ r ∈ ranges, r.lo < r.hi) :
    collides (sorted ranges) = false ↔ ranges.Pairwise Apart := by
  have hmem : ∀ r ∈ sorted ranges, r.lo < r.hi := fun r hr =>
    hne r ((sorted_perm ranges).subset hr)
  rw [collides_eq_false_iff]
  constructor
  · intro h
    have hpair := (pairwise_of_isChain hmem h).imp (S := Apart) fun hab => Or.inl hab
    exact ((sorted_perm ranges).pairwise_iff fun h => h.symm).mp hpair
  · intro h
    have hpair := ((sorted_perm ranges).pairwise_iff fun h => Apart.symm h).mpr h
    have hboth := hpair.and (sorted_pairwise ranges)
    apply List.Pairwise.isChain
    apply hboth.imp_of_mem
    intro a b ha hb hab
    rcases hab.1 with hdone | hback
    · exact hdone
    · have hlo := before_lo hab.2
      exact absurd (hback.trans hlo) (not_le.mpr (hmem b hb))

end LibApta.Interval
