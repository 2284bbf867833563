import Mathlib.Algebra.BigOperators.Group.List.Basic
import Mathlib.Data.List.Basic
import Mathlib.Data.List.TakeWhile
import Mathlib.Data.List.Pairwise
import Mathlib.Data.Set.Lattice
import Mathlib.Order.MinMax
import Mathlib.Tactic.Abel

/-!
# Sorted lists of separated intervals

A finite union of half-open intervals of a linear order, kept as a sorted list in which no two
intervals touch. `insertMerge` inserts an interval at its place and merges it with a neighbour it
touches exactly; on an interval disjoint from the list it keeps the representation and adds exactly
its points (`insertMerge_spec`). `firstGap` scans for the first point at or after a cursor that is
not covered.
-/

namespace LibApta

/-- A half-open interval `[lo, hi)`. -/
structure Interval (α : Type*) where
  lo : α
  hi : α
deriving DecidableEq

namespace Interval

variable {α : Type*} [LinearOrder α]

/-- The points of a list of intervals. -/
def support (ranges : List (Interval α)) : Set α := {x | ∃ r ∈ ranges, r.lo ≤ x ∧ x < r.hi}

/-- Non-empty intervals in increasing order, no two of which touch. -/
def Separated (ranges : List (Interval α)) : Prop :=
  (∀ r ∈ ranges, r.lo < r.hi) ∧ ranges.Pairwise (fun a b => a.hi < b.lo)

/-- Intervals in the order of their starts, which may be empty and may overlap. -/
def Ordered (ranges : List (Interval α)) : Prop := ranges.Pairwise fun a b => a.lo ≤ b.lo

/-- Every interval runs forward. -/
def Forward (ranges : List (Interval α)) : Prop := ∀ r ∈ ranges, r.lo ≤ r.hi

theorem Separated.forward {ranges : List (Interval α)} (h : Separated ranges) : Forward ranges :=
  fun r hr => (h.1 r hr).le

theorem Separated.ordered {ranges : List (Interval α)} (h : Separated ranges) : Ordered ranges :=
  List.Pairwise.imp_of_mem (fun ha _ hlt => ((h.1 _ ha).trans hlt).le) h.2

/-! ## Support and separation of concatenations -/

theorem mem_support {ranges : List (Interval α)} {x : α} :
    x ∈ support ranges ↔ ∃ r ∈ ranges, r.lo ≤ x ∧ x < r.hi := Iff.rfl

@[simp] theorem support_nil : support ([] : List (Interval α)) = ∅ := by
  ext x
  simp [support]

theorem mem_support_cons {r : Interval α} {ranges : List (Interval α)} {x : α} :
    x ∈ support (r :: ranges) ↔ (r.lo ≤ x ∧ x < r.hi) ∨ x ∈ support ranges := by
  simp [support]

theorem mem_support_append {left right : List (Interval α)} {x : α} :
    x ∈ support (left ++ right) ↔ x ∈ support left ∨ x ∈ support right := by
  simp only [support, List.mem_append, Set.mem_ofPred_eq]
  constructor
  · rintro ⟨r, hr | hr, h⟩
    · exact .inl ⟨r, hr, h⟩
    · exact .inr ⟨r, hr, h⟩
  · rintro (⟨r, hr, h⟩ | ⟨r, hr, h⟩)
    · exact ⟨r, .inl hr, h⟩
    · exact ⟨r, .inr hr, h⟩

theorem separated_nil : Separated ([] : List (Interval α)) :=
  ⟨by simp, List.Pairwise.nil⟩

/-- Separation of a list around one of its intervals. -/
theorem separated_append_cons {left right : List (Interval α)} {r : Interval α} :
    Separated (left ++ r :: right) ↔
      Separated left ∧ r.lo < r.hi ∧ Separated right ∧
        (∀ a ∈ left, a.hi < r.lo) ∧ ∀ b ∈ right, r.hi < b.lo := by
  simp only [Separated, List.pairwise_append, List.pairwise_cons, List.mem_append, List.mem_cons]
  constructor
  · rintro ⟨hne, hl, ⟨hr, hright⟩, hcross⟩
    exact ⟨⟨fun a ha => hne a (.inl ha), hl⟩, hne r (.inr (.inl rfl)),
      ⟨fun b hb => hne b (.inr (.inr hb)), hright⟩, fun a ha => hcross a ha r (.inl rfl), hr⟩
  · rintro ⟨⟨hnl, hl⟩, hr, ⟨hnr, hright⟩, hbefore, hafter⟩
    refine ⟨?_, hl, ⟨hafter, hright⟩, ?_⟩
    · rintro s (hs | rfl | hs)
      exacts [hnl s hs, hr, hnr s hs]
    · rintro a ha s (rfl | hs)
      exacts [hbefore a ha, (hbefore a ha).trans (hr.trans (hafter s hs))]

theorem separated_cons {r : Interval α} {ranges : List (Interval α)} :
    Separated (r :: ranges) ↔ r.lo < r.hi ∧ Separated ranges ∧ ∀ b ∈ ranges, r.hi < b.lo := by
  have h := @separated_append_cons α _ [] ranges r
  simpa [separated_nil] using h

/-! ## Insertion -/

/-- Replace the last interval of `left` and the new one by their union when they touch. -/
def mergeLeft (left : List (Interval α)) (r : Interval α) : List (Interval α) × Interval α :=
  match left.getLast? with
  | some previous => if previous.hi = r.lo then (left.dropLast, ⟨previous.lo, r.hi⟩) else (left, r)
  | none => (left, r)

/-- Replace the new interval and the first of `right` by their union when they touch. -/
def mergeRight (r : Interval α) (right : List (Interval α)) : List (Interval α) :=
  match right with
  | next :: rest => if r.hi = next.lo then ⟨r.lo, next.hi⟩ :: rest else r :: next :: rest
  | [] => [r]

/-- Insert `[lo, hi)` before the first interval that does not start below it, and merge it with the
neighbours it touches. -/
def insertMerge (lo hi : α) (ranges : List (Interval α)) : List (Interval α) :=
  let merged := mergeLeft (ranges.takeWhile fun r => decide (r.lo < lo)) ⟨lo, hi⟩
  merged.1 ++ mergeRight merged.2 (ranges.dropWhile fun r => decide (r.lo < lo))

/-- Merging to the left adds the points of the new interval. -/
private theorem mergeLeft_points {left : List (Interval α)} {r : Interval α}
    (hleft : ∀ a ∈ left, a.lo ≤ r.lo) (hr : r.lo ≤ r.hi) :
    (mergeLeft left r).2.hi = r.hi ∧ (mergeLeft left r).2.lo ≤ r.lo ∧
      (∀ a ∈ (mergeLeft left r).1, a ∈ left) ∧
        ∀ x, (x ∈ support (mergeLeft left r).1 ∨ (mergeLeft left r).2.lo ≤ x ∧ x < r.hi) ↔
          (x ∈ support left ∨ r.lo ≤ x ∧ x < r.hi) := by
  rcases List.eq_nil_or_concat left with rfl | ⟨init, previous, rfl⟩
  · exact ⟨rfl, le_rfl, fun a ha => ha, fun x => Iff.rfl⟩
  rw [List.concat_eq_append] at hleft ⊢
  have hprevious : previous.lo ≤ r.lo := hleft previous (by simp)
  by_cases htouch : previous.hi = r.lo
  · have hm : mergeLeft (init ++ [previous]) r = (init, ⟨previous.lo, r.hi⟩) := by
      simp [mergeLeft, htouch]
    rw [hm]
    refine ⟨rfl, hprevious, fun a ha => List.mem_append_left _ ha, fun x => ?_⟩
    simp only [mem_support_append, mem_support_cons, support_nil, Set.mem_empty_iff_false,
      or_false]
    constructor
    · rintro (h | ⟨h₁, h₂⟩)
      · exact .inl (.inl h)
      · rcases lt_or_ge x previous.hi with hx | hx
        · exact .inl (.inr ⟨h₁, hx⟩)
        · exact .inr ⟨htouch ▸ hx, h₂⟩
    · rintro ((h | ⟨h₁, h₂⟩) | ⟨h₁, h₂⟩)
      · exact .inl h
      · exact .inr ⟨h₁, h₂.trans_le (htouch.le.trans hr)⟩
      · exact .inr ⟨hprevious.trans h₁, h₂⟩
  · have hm : mergeLeft (init ++ [previous]) r = (init ++ [previous], r) := by
      simp [mergeLeft, htouch]
    rw [hm]
    exact ⟨rfl, le_rfl, fun a ha => ha, fun x => Iff.rfl⟩

/-- Merging to the right adds the points of the new interval. -/
private theorem mergeRight_points {right : List (Interval α)} {r : Interval α} (hr : r.lo ≤ r.hi)
    (hright : Forward right) : Forward (mergeRight r right) ∧
      ∀ x, x ∈ support (mergeRight r right) ↔ (r.lo ≤ x ∧ x < r.hi) ∨ x ∈ support right := by
  cases right with
  | nil =>
      refine ⟨fun b hb => ?_, fun x => mem_support_cons⟩
      rw [List.mem_singleton.mp hb]
      exact hr
  | cons next rest =>
      have hnext : next.lo ≤ next.hi := hright next List.mem_cons_self
      by_cases htouch : r.hi = next.lo
      · have hm : mergeRight r (next :: rest) = ⟨r.lo, next.hi⟩ :: rest := by
          simp [mergeRight, htouch]
        rw [hm]
        refine ⟨fun b hb => ?_, fun x => ?_⟩
        · rcases List.mem_cons.mp hb with rfl | hb
          · exact (hr.trans htouch.le).trans hnext
          · exact hright b (List.mem_cons_of_mem _ hb)
        simp only [mem_support_cons]
        constructor
        · rintro (⟨h₁, h₂⟩ | h)
          · rcases lt_or_ge x r.hi with hx | hx
            · exact .inl ⟨h₁, hx⟩
            · exact .inr (.inl ⟨htouch ▸ hx, h₂⟩)
          · exact .inr (.inr h)
        · rintro (⟨h₁, h₂⟩ | ⟨h₁, h₂⟩ | h)
          · exact .inl ⟨h₁, h₂.trans_le (htouch.le.trans hnext)⟩
          · exact .inl ⟨(hr.trans htouch.le).trans h₁, h₂⟩
          · exact .inr h
      · have hm : mergeRight r (next :: rest) = r :: next :: rest := by
          simp [mergeRight, htouch]
        rw [hm]
        exact ⟨List.forall_mem_cons.mpr ⟨hr, hright⟩, fun x => mem_support_cons⟩

/-- Inserting an interval into a list of intervals that run forward adds its points. -/
theorem insertMerge_points {ranges : List (Interval α)} {lo hi : α} (hforward : Forward ranges)
    (hle : lo ≤ hi) : Forward (insertMerge lo hi ranges) ∧
      ∀ x, x ∈ support (insertMerge lo hi ranges) ↔ x ∈ support ranges ∨ lo ≤ x ∧ x < hi := by
  set left := ranges.takeWhile fun r => decide (r.lo < lo) with hleftdef
  set right := ranges.dropWhile fun r => decide (r.lo < lo) with hrightdef
  have hsplit : left ++ right = ranges := List.takeWhile_append_dropWhile
  have hbefore : ∀ a ∈ left, a.lo ≤ lo := fun a ha =>
    le_of_lt (by simpa using List.mem_takeWhile_imp ha)
  obtain ⟨hhi, hlo, hkept, hleft⟩ := mergeLeft_points (r := ⟨lo, hi⟩) hbefore hle
  obtain ⟨htail, hright⟩ := @mergeRight_points _ _ right (mergeLeft left ⟨lo, hi⟩).2
    (hlo.trans (hhi ▸ hle)) fun b hb => hforward b (hsplit ▸ List.mem_append_right _ hb)
  constructor
  · intro r hr
    rcases List.mem_append.mp hr with hr | hr
    · exact hforward r (hsplit ▸ List.mem_append_left _ (hkept r hr))
    · exact htail r hr
  · intro x
    have hpoints := hleft x
    simp only at hpoints
    show x ∈ support ((mergeLeft left ⟨lo, hi⟩).1 ++
      mergeRight (mergeLeft left ⟨lo, hi⟩).2 right) ↔ _
    rw [mem_support_append, hright, hhi, ← or_assoc, hpoints, ← hsplit, mem_support_append]
    tauto

/-- Merging to the left keeps separation. -/
private theorem mergeLeft_separated {left right : List (Interval α)} {r : Interval α}
    (hleft : Separated left) (hr : r.lo < r.hi) (hbefore : ∀ a ∈ left, a.hi ≤ r.lo)
    (hcross : ∀ a ∈ left, ∀ b ∈ right, a.hi < b.lo) :
    (mergeLeft left r).2.hi = r.hi ∧ (mergeLeft left r).2.lo < r.hi ∧
      Separated (mergeLeft left r).1 ∧ (∀ a ∈ (mergeLeft left r).1, a.hi < (mergeLeft left r).2.lo) ∧
        ∀ a ∈ (mergeLeft left r).1, ∀ b ∈ right, a.hi < b.lo := by
  rcases List.eq_nil_or_concat left with rfl | ⟨init, previous, rfl⟩
  · exact ⟨rfl, hr, hleft, by simp [mergeLeft], by simp [mergeLeft]⟩
  · rw [List.concat_eq_append] at hleft hbefore hcross ⊢
    obtain ⟨hinit, hprev, -, hlast, -⟩ := separated_append_cons.mp hleft
    have hple : previous.hi ≤ r.lo := hbefore previous (by simp)
    by_cases htouch : previous.hi = r.lo
    · have hm : mergeLeft (init ++ [previous]) r = (init, ⟨previous.lo, r.hi⟩) := by
        simp [mergeLeft, htouch]
      rw [hm]
      exact ⟨rfl, hprev.trans (htouch ▸ hr), hinit, hlast,
        fun a ha => hcross a (List.mem_append_left _ ha)⟩
    · have hm : mergeLeft (init ++ [previous]) r = (init ++ [previous], r) := by
        simp [mergeLeft, htouch]
      rw [hm]
      refine ⟨rfl, hr, hleft, ?_, hcross⟩
      intro a ha
      rcases List.mem_append.mp ha with ha | ha
      · exact (hlast a ha).trans (hprev.trans_le hple)
      · rw [List.mem_singleton.mp ha]
        exact lt_of_le_of_ne hple htouch

/-- Merging to the right keeps separation. -/
private theorem mergeRight_separated {left right : List (Interval α)} {r : Interval α}
    (hleft : Separated left) (hr : r.lo < r.hi) (hright : Separated right)
    (hbefore : ∀ a ∈ left, a.hi < r.lo) (hafter : ∀ b ∈ right, r.hi ≤ b.lo) :
    Separated (left ++ mergeRight r right) := by
  cases right with
  | nil => exact separated_append_cons.mpr ⟨hleft, hr, separated_nil, hbefore, by simp⟩
  | cons next rest =>
      obtain ⟨hnext, hrest, hlast⟩ := separated_cons.mp hright
      have hle : r.hi ≤ next.lo := hafter next (by simp)
      by_cases htouch : r.hi = next.lo
      · have hm : mergeRight r (next :: rest) = ⟨r.lo, next.hi⟩ :: rest := by
          simp [mergeRight, htouch]
        rw [hm]
        exact separated_append_cons.mpr ⟨hleft, hr.trans (htouch ▸ hnext), hrest, hbefore, hlast⟩
      · have hm : mergeRight r (next :: rest) = r :: next :: rest := by
          simp [mergeRight, htouch]
        rw [hm]
        refine separated_append_cons.mpr ⟨hleft, hr, hright, hbefore, ?_⟩
        rintro b hb
        rcases List.mem_cons.mp hb with rfl | hb
        · exact lt_of_le_of_ne hle htouch
        · exact (lt_of_le_of_ne hle htouch).trans (hnext.trans (hlast b hb))

/-- A sublist of a separated list is separated. -/
theorem Separated.sublist {left right : List (Interval α)} (h : left.Sublist right)
    (hs : Separated right) : Separated left :=
  ⟨fun r hr => hs.1 r (h.subset hr), hs.2.sublist h⟩

/-- Inserting an interval disjoint from a separated list keeps it separated and adds exactly the
points of the interval. -/
theorem insertMerge_spec {ranges : List (Interval α)} {lo hi : α} (hs : Separated ranges)
    (hlt : lo < hi) (hdisj : ∀ r ∈ ranges, r.hi ≤ lo ∨ hi ≤ r.lo) :
    Separated (insertMerge lo hi ranges) ∧
      ∀ x, x ∈ support (insertMerge lo hi ranges) ↔ x ∈ support ranges ∨ lo ≤ x ∧ x < hi := by
  set left := ranges.takeWhile fun r => decide (r.lo < lo) with hleftdef
  set right := ranges.dropWhile fun r => decide (r.lo < lo) with hrightdef
  have hsplit : left ++ right = ranges := List.takeWhile_append_dropWhile
  have hleft : Separated left := hs.sublist (List.takeWhile_sublist _)
  have hright : Separated right := hs.sublist (List.dropWhile_sublist _)
  have hcross : ∀ a ∈ left, ∀ b ∈ right, a.hi < b.lo :=
    (List.pairwise_append.mp (hsplit ▸ hs.2)).2.2
  have hbefore : ∀ a ∈ left, a.hi ≤ lo := by
    intro a ha
    have halo : a.lo < lo := by simpa using List.mem_takeWhile_imp ha
    rcases hdisj a (hsplit ▸ List.mem_append_left _ ha) with h | h
    · exact h
    · exact absurd (halo.trans (hlt.trans_le h)) (lt_irrefl _)
  have hafter : ∀ b ∈ right, hi ≤ b.lo := by
    intro b hb
    have hlob : lo ≤ b.lo := by
      cases hcase : right with
      | nil => simp [hcase] at hb
      | cons first rest =>
          have hfirst : lo ≤ first.lo := by
            have h := List.head?_dropWhile_not (fun r : Interval α => decide (r.lo < lo)) ranges
            rw [← hrightdef, hcase] at h
            simpa using h
          rw [hcase] at hb hright
          obtain ⟨hne, -, hrest⟩ := separated_cons.mp hright
          rcases List.mem_cons.mp hb with rfl | hb
          · exact hfirst
          · exact hfirst.trans (hne.le.trans (hrest b hb).le)
    rcases hdisj b (hsplit ▸ List.mem_append_right _ hb) with h | h
    · exact absurd ((hright.1 b hb).trans_le (h.trans hlob)) (lt_irrefl _)
    · exact h
  obtain ⟨hhi, hmlt, hms, hmb, -⟩ :=
    mergeLeft_separated (r := ⟨lo, hi⟩) hleft hlt hbefore hcross
  exact ⟨mergeRight_separated (r := (mergeLeft left ⟨lo, hi⟩).2) hms (by rw [hhi]; exact hmlt) hright
    hmb (by rw [hhi]; exact hafter), (insertMerge_points hs.forward hlt.le).2⟩

/-- What a merge to the left leaves is in order and starts at or before the new interval. -/
private theorem mergeLeft_ordered {left : List (Interval α)} {r : Interval α}
    (hleft : Ordered left) (hbefore : ∀ a ∈ left, a.lo ≤ r.lo) :
    Ordered (mergeLeft left r).1 ∧ (mergeLeft left r).2.lo ≤ r.lo ∧
      ∀ a ∈ (mergeLeft left r).1, a.lo ≤ (mergeLeft left r).2.lo := by
  rcases List.eq_nil_or_concat left with rfl | ⟨init, previous, rfl⟩
  · exact ⟨hleft, le_rfl, hbefore⟩
  rw [List.concat_eq_append] at hleft hbefore ⊢
  obtain ⟨hinit, -, hlast⟩ := List.pairwise_append.mp hleft
  unfold mergeLeft
  simp only [List.getLast?_append, List.getLast?_singleton, Option.some_or, List.dropLast_concat]
  split_ifs
  · exact ⟨hinit, hbefore previous (by simp), fun a ha => hlast a ha previous (by simp)⟩
  · exact ⟨hleft, le_rfl, hbefore⟩

/-- What a merge to the right leaves is in order and starts where the new interval does. -/
private theorem mergeRight_ordered {right : List (Interval α)} {r : Interval α}
    (hright : Ordered right) (hafter : ∀ b ∈ right, r.lo ≤ b.lo) :
    Ordered (mergeRight r right) ∧ ∀ b ∈ mergeRight r right, r.lo ≤ b.lo := by
  cases right with
  | nil =>
      refine ⟨List.pairwise_singleton _ _, fun b hb => ?_⟩
      rw [List.mem_singleton.mp hb]
  | cons next rest =>
      obtain ⟨hnext, hrest⟩ := List.pairwise_cons.mp hright
      have hnext' := hafter next List.mem_cons_self
      unfold mergeRight
      simp only
      split_ifs
      · refine ⟨List.pairwise_cons.mpr ⟨fun b hb => hnext'.trans (hnext b hb), hrest⟩,
          fun b hb => ?_⟩
        rcases List.mem_cons.mp hb with rfl | hb
        · exact le_rfl
        · exact hnext'.trans (hnext b hb)
      · refine ⟨List.pairwise_cons.mpr ⟨hafter, hright⟩, fun b hb => ?_⟩
        rcases List.mem_cons.mp hb with rfl | hb
        · exact le_rfl
        · exact hafter b hb

/-- Inserting any interval keeps a list in order. -/
theorem insertMerge_ordered {ranges : List (Interval α)} (hs : Ordered ranges) (lo hi : α) :
    Ordered (insertMerge lo hi ranges) := by
  set left := ranges.takeWhile fun r => decide (r.lo < lo) with hleftdef
  set right := ranges.dropWhile fun r => decide (r.lo < lo) with hrightdef
  have hsplit : left ++ right = ranges := List.takeWhile_append_dropWhile
  obtain ⟨hleft, hright, -⟩ := List.pairwise_append.mp (hsplit ▸ hs)
  have hbefore : ∀ a ∈ left, a.lo ≤ lo := fun a ha =>
    le_of_lt (by simpa using List.mem_takeWhile_imp ha)
  have hafter : ∀ b ∈ right, lo ≤ b.lo := by
    intro b hb
    cases hcase : right with
    | nil => simp [hcase] at hb
    | cons first rest =>
        have hfirst : lo ≤ first.lo := by
          have h := List.head?_dropWhile_not (fun r : Interval α => decide (r.lo < lo)) ranges
          rw [← hrightdef, hcase] at h
          simpa using h
        rw [hcase] at hb hright
        rcases List.mem_cons.mp hb with rfl | hb
        · exact hfirst
        · exact hfirst.trans ((List.pairwise_cons.mp hright).1 b hb)
  obtain ⟨hinit, hstart, hlast⟩ := mergeLeft_ordered (r := ⟨lo, hi⟩) hleft hbefore
  obtain ⟨htail, hrest⟩ := mergeRight_ordered (r := (mergeLeft left ⟨lo, hi⟩).2) hright
    fun b hb => hstart.trans (hafter b hb)
  exact List.pairwise_append.mpr ⟨hinit, htail, fun a ha b hb => (hlast a ha).trans (hrest b hb)⟩

/-! ## Extents -/

section Extent

variable {M : Type*} [AddCommGroup M]

/-- The sum of the lengths of the intervals, measured by a function of their ends. -/
def extent (f : α → M) (ranges : List (Interval α)) : M :=
  (ranges.map fun r => f r.hi - f r.lo).sum

omit [LinearOrder α] in
@[simp] theorem extent_nil (f : α → M) : extent f [] = 0 := rfl

omit [LinearOrder α] in
theorem extent_append (f : α → M) (left right : List (Interval α)) :
    extent f (left ++ right) = extent f left + extent f right := by
  rw [extent, List.map_append, List.sum_append]
  rfl

omit [LinearOrder α] in
theorem extent_cons (f : α → M) (r : Interval α) (ranges : List (Interval α)) :
    extent f (r :: ranges) = f r.hi - f r.lo + extent f ranges := by
  rw [extent, List.map_cons, List.sum_cons]
  rfl

private theorem extent_mergeLeft (f : α → M) (left : List (Interval α)) (r : Interval α) :
    extent f (mergeLeft left r).1 + (f (mergeLeft left r).2.hi - f (mergeLeft left r).2.lo) =
      extent f left + (f r.hi - f r.lo) := by
  rcases List.eq_nil_or_concat left with rfl | ⟨init, previous, rfl⟩
  · rfl
  rw [List.concat_eq_append]
  by_cases htouch : previous.hi = r.lo
  · have hm : mergeLeft (init ++ [previous]) r = (init, ⟨previous.lo, r.hi⟩) := by
      simp [mergeLeft, htouch]
    rw [hm, extent_append, extent_cons, extent_nil, ← htouch]
    abel
  · have hm : mergeLeft (init ++ [previous]) r = (init ++ [previous], r) := by
      simp [mergeLeft, htouch]
    rw [hm]

private theorem extent_mergeRight (f : α → M) (r : Interval α) (right : List (Interval α)) :
    extent f (mergeRight r right) = f r.hi - f r.lo + extent f right := by
  cases right with
  | nil => exact extent_cons f r []
  | cons next rest =>
      rw [mergeRight]
      by_cases htouch : r.hi = next.lo
      · rw [if_pos htouch, extent_cons, extent_cons, htouch]
        abel
      · rw [if_neg htouch]
        exact extent_cons f r _

/-- Merging loses no length: the inserted interval adds its own. -/
theorem extent_insertMerge (f : α → M) (lo hi : α) (ranges : List (Interval α)) :
    extent f (insertMerge lo hi ranges) = extent f ranges + (f hi - f lo) := by
  have hsplit := List.takeWhile_append_dropWhile (p := fun r : Interval α => decide (r.lo < lo))
    (l := ranges)
  conv_rhs => rw [← hsplit]
  unfold insertMerge
  rw [extent_append, extent_mergeRight, ← add_assoc, extent_mergeLeft, extent_append]
  abel

end Extent

/-! ## Ends -/

/-- The upper end of the last interval, or `bottom` for an empty list. -/
def lastEnd (bottom : α) (ranges : List (Interval α)) : α :=
  match ranges.getLast? with
  | some r => r.hi
  | none => bottom

/-- Every point of a separated list lies below its last end. -/
theorem lt_lastEnd {bottom : α} {ranges : List (Interval α)} (hs : Separated ranges) {x : α}
    (hx : x ∈ support ranges) : x < lastEnd bottom ranges := by
  rcases List.eq_nil_or_concat ranges with rfl | ⟨init, last, rfl⟩
  · simp at hx
  · rw [List.concat_eq_append] at hs hx ⊢
    obtain ⟨-, hne, -, hbefore, -⟩ := separated_append_cons.mp hs
    have hend : lastEnd bottom (init ++ [last]) = last.hi := by simp [lastEnd]
    rw [hend]
    obtain ⟨r, hr, -, hxr⟩ := hx
    rcases List.mem_append.mp hr with hr | hr
    · exact hxr.trans ((hbefore r hr).trans hne)
    · rw [List.mem_singleton.mp hr] at hxr
      exact hxr

/-- The end of the interval run that covers every point from `cursor` on, found by one scan. -/
def contiguousEnd (cursor : α) : List (Interval α) → α
  | [] => cursor
  | r :: rest =>
      if cursor < r.lo then cursor
      else contiguousEnd (if cursor < r.hi then r.hi else cursor) rest

/-- Everything from the cursor to the contiguous end is covered, and the end is not. -/
theorem contiguousEnd_spec {ranges : List (Interval α)} (hs : Separated ranges) (cursor : α) :
    cursor ≤ contiguousEnd cursor ranges ∧
      (∀ x, cursor ≤ x → x < contiguousEnd cursor ranges → x ∈ support ranges) ∧
        contiguousEnd cursor ranges ∉ support ranges := by
  induction ranges generalizing cursor with
  | nil =>
      refine ⟨le_rfl, fun x h₁ h₂ => absurd (h₁.trans_lt h₂) (lt_irrefl _), ?_⟩
      simp
  | cons r rest ih =>
      obtain ⟨hne, hrest, hafter⟩ := separated_cons.mp hs
      unfold contiguousEnd
      split_ifs with hlo hhi
      · -- A gap before the first interval.
        refine ⟨le_rfl, fun x h₁ h₂ => absurd (h₁.trans_lt h₂) (lt_irrefl _), ?_⟩
        rintro ⟨s, hmem, h₁, -⟩
        rcases List.mem_cons.mp hmem with rfl | hmem
        · exact absurd (hlo.trans_le h₁) (lt_irrefl _)
        · exact absurd (hlo.trans (hne.trans ((hafter s hmem).trans_le h₁))) (lt_irrefl _)
      · -- The cursor is inside the first interval: continue from its end.
        obtain ⟨hle, hcov, hout⟩ := ih hrest r.hi
        refine ⟨hhi.le.trans hle, fun x h₁ h₂ => ?_, fun hmem => ?_⟩
        · rw [mem_support_cons]
          rcases lt_or_ge x r.hi with hx | hx
          · exact .inl ⟨(not_lt.mp hlo).trans h₁, hx⟩
          · exact .inr (hcov x hx h₂)
        · rcases mem_support_cons.mp hmem with ⟨-, h⟩ | h
          · exact absurd (hle.trans_lt h) (lt_irrefl _)
          · exact hout h
      · -- The first interval ends before the cursor.
        obtain ⟨hle, hcov, hout⟩ := ih hrest cursor
        refine ⟨hle, fun x h₁ h₂ => mem_support_cons.mpr (.inr (hcov x h₁ h₂)), fun hmem => ?_⟩
        rcases mem_support_cons.mp hmem with ⟨-, h⟩ | h
        · exact hhi (hle.trans_lt h)
        · exact hout h

/-! ## Gaps -/

/-- The first maximal uncovered piece of `[cursor, stop)`, found by one scan. -/
def firstGap (cursor stop : α) : List (Interval α) → Option (α × α)
  | [] => if cursor < stop then some (cursor, stop) else none
  | r :: rest =>
      if r.hi ≤ cursor then firstGap cursor stop rest
      else if cursor < r.lo then
        if cursor < min r.lo stop then some (cursor, min r.lo stop) else none
      else if stop ≤ r.hi then none
      else firstGap r.hi stop rest

/-- The gap found starts at the first uncovered point and holds no covered one. -/
theorem firstGap_some {ranges : List (Interval α)} (hs : Ordered ranges) {cursor stop first past : α}
    (h : firstGap cursor stop ranges = some (first, past)) :
    cursor ≤ first ∧ first < past ∧ past ≤ stop ∧
      (∀ x, cursor ≤ x → x < first → x ∈ support ranges) ∧
        ∀ x, first ≤ x → x < past → x ∉ support ranges := by
  induction ranges generalizing cursor with
  | nil =>
      simp only [firstGap] at h
      split_ifs at h with hlt
      obtain ⟨rfl, rfl⟩ := Prod.mk.injEq _ _ _ _ ▸ Option.some.inj h
      exact ⟨le_rfl, hlt, le_rfl, fun x h₁ h₂ => absurd (h₁.trans_lt h₂) (lt_irrefl _), by simp⟩
  | cons r rest ih =>
      obtain ⟨hafter, hrest⟩ := List.pairwise_cons.mp hs
      simp only [firstGap] at h
      split_ifs at h with hpast hgap hlt hstop
      · -- The interval ends before the cursor.
        obtain ⟨h₁, h₂, h₃, hcov, hout⟩ := ih hrest h
        refine ⟨h₁, h₂, h₃, fun x hx hx' => mem_support_cons.mpr (.inr (hcov x hx hx')),
          fun x hx hx' hmem => ?_⟩
        rcases mem_support_cons.mp hmem with ⟨-, hr⟩ | hmem
        · exact absurd (hpast.trans (h₁.trans hx)) (not_le.mpr hr)
        · exact hout x hx hx' hmem
      · -- The cursor itself is uncovered.
        obtain ⟨rfl, rfl⟩ := Prod.mk.injEq _ _ _ _ ▸ Option.some.inj h
        refine ⟨le_rfl, hlt, min_le_right _ _,
          fun x h₁ h₂ => absurd (h₁.trans_lt h₂) (lt_irrefl _), fun x hx hx' hmem => ?_⟩
        have hxlo : x < r.lo := hx'.trans_le (min_le_left _ _)
        rcases mem_support_cons.mp hmem with ⟨hr, -⟩ | ⟨s, hs', hr, -⟩
        · exact absurd hxlo (not_lt.mpr hr)
        · exact absurd hxlo (not_lt.mpr ((hafter s hs').trans hr))
      · -- The interval covers the cursor: continue from its end.
        obtain ⟨h₁, h₂, h₃, hcov, hout⟩ := ih hrest h
        refine ⟨(not_le.mp hpast).le.trans h₁, h₂, h₃, fun x hx hx' => ?_, fun x hx hx' hmem => ?_⟩
        · rcases lt_or_ge x r.hi with hlt | hge
          · exact mem_support_cons.mpr (.inl ⟨(not_lt.mp hgap).trans hx, hlt⟩)
          · exact mem_support_cons.mpr (.inr (hcov x hge hx'))
        · rcases mem_support_cons.mp hmem with ⟨-, hr⟩ | hmem
          · exact absurd (h₁.trans hx) (not_le.mpr hr)
          · exact hout x hx hx' hmem

/-- No gap is found exactly when everything asked for is covered. -/
theorem firstGap_eq_none {ranges : List (Interval α)} (hs : Ordered ranges) {cursor stop : α} :
    firstGap cursor stop ranges = none ↔ ∀ x, cursor ≤ x → x < stop → x ∈ support ranges := by
  constructor
  · intro h
    induction ranges generalizing cursor with
    | nil =>
        simp only [firstGap, ite_eq_right_iff, reduceCtorEq, imp_false, not_lt] at h
        exact fun x h₁ h₂ => absurd (h₁.trans_lt h₂) (not_lt.mpr h)
    | cons r rest ih =>
        obtain ⟨-, hrest⟩ := List.pairwise_cons.mp hs
        simp only [firstGap] at h
        intro x hx hx'
        split_ifs at h with hpast hgap hlt hstop
        · exact mem_support_cons.mpr (.inr (ih hrest h x hx hx'))
        · have hmin := not_lt.mp hlt
          rcases min_le_iff.mp hmin with hlo | hstop
          · exact absurd hgap (not_lt.mpr hlo)
          · exact absurd (hx.trans_lt hx') (not_lt.mpr hstop)
        · exact mem_support_cons.mpr (.inl ⟨(not_lt.mp hgap).trans hx, hx'.trans_le hstop⟩)
        · rcases lt_or_ge x r.hi with hlt | hge
          · exact mem_support_cons.mpr (.inl ⟨(not_lt.mp hgap).trans hx, hlt⟩)
          · exact mem_support_cons.mpr (.inr (ih hrest h x hge hx'))
  · intro hall
    cases hgap : firstGap cursor stop ranges with
    | none => rfl
    | some gap =>
        obtain ⟨h₁, h₂, h₃, -, hout⟩ := @firstGap_some α _ ranges hs cursor stop gap.1 gap.2 hgap
        exact absurd (hall gap.1 h₁ (h₂.trans_le h₃)) (hout gap.1 le_rfl h₂)

end Interval

end LibApta
