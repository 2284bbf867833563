import LibApta.Waveform.Ledger
import LibApta.Waveform.Snapshot

/-!
# Completion of columns

A column is full when it holds as many frames as it expects. A column the ledger covers is full
exactly when each of its own frames is processed, so the completion test that compares counts marks
the right columns. Refreshing the marks changes nothing else.
-/

namespace LibApta

/-! ## Full columns -/

/-- The frames a column is made of: those of its range, below the end of input once it is known. -/
def ownFrames (framesPerColumn : ℕ) (endOfInput : Option ℕ) (columnIndex : ℕ) : Finset ℕ :=
  Finset.Ico (columnIndex * framesPerColumn)
    (clipToEnd endOfInput (columnIndex * framesPerColumn + framesPerColumn))

theorem mem_ownFrames {framesPerColumn columnIndex frame : ℕ} {endOfInput : Option ℕ}
    (hpos : 0 < framesPerColumn) :
    frame ∈ ownFrames framesPerColumn endOfInput columnIndex ↔
      frame / framesPerColumn = columnIndex ∧ ∀ finalEnd ∈ endOfInput, frame < finalEnd := by
  have hdiv : (columnIndex * framesPerColumn ≤ frame ∧
      frame < columnIndex * framesPerColumn + framesPerColumn) ↔
        frame / framesPerColumn = columnIndex := by
    rw [← Nat.succ_mul, ← Nat.le_div_iff_mul_le hpos, ← Nat.div_lt_iff_lt_mul hpos]
    omega
  rw [ownFrames, Finset.mem_Ico, ← hdiv]
  cases endOfInput with
  | none => simp [clipToEnd]
  | some finalEnd => simp [clipToEnd, and_assoc]

/-- A column expects exactly its own frames. -/
theorem card_ownFrames (framesPerColumn : ℕ) (endOfInput : Option ℕ) (columnIndex : ℕ) :
    (ownFrames framesPerColumn endOfInput columnIndex).card =
      expectedColumnFrames framesPerColumn endOfInput columnIndex := by
  rw [ownFrames, Nat.card_Ico]
  cases endOfInput with
  | none => simp [clipToEnd, expectedColumnFrames]
  | some finalEnd =>
      simp only [clipToEnd, expectedColumnFrames]
      split_ifs
      · omega
      · rfl

/-- The accumulator holds as many frames as its column expects, and that is at least one. -/
def Accumulator.IsFull (framesPerColumn : ℕ) (endOfInput : Option ℕ) (acc : Accumulator) : Prop :=
  expectedColumnFrames framesPerColumn endOfInput acc.columnIndex ≠ 0 ∧
    acc.sampleCount = expectedColumnFrames framesPerColumn endOfInput acc.columnIndex

namespace Ledger

variable {framesPerColumn : ℕ} {signal : ℕ → ℚ} {seeded processed : Set ℕ} {overview : Overview}
  {endOfInput : Option ℕ}

/-- A column that was not seeded is full exactly when each of its own frames is processed. -/
theorem full_iff (hpos : 0 < framesPerColumn)
    (h : Ledger framesPerColumn signal seeded processed overview)
    (hend : ∀ frame ∈ processed, ∀ finalEnd ∈ endOfInput, frame < finalEnd) {columnIndex : ℕ}
    (hseed : columnIndex ∉ seeded) :
    (∃ acc, overview.column columnIndex = some acc ∧ acc.IsFull framesPerColumn endOfInput) ↔
      (ownFrames framesPerColumn endOfInput columnIndex).Nonempty ∧
        ∀ frame ∈ ownFrames framesPerColumn endOfInput columnIndex, frame ∈ processed := by
  have hsub : columnFrames framesPerColumn columnIndex processed ⊆
      ownFrames framesPerColumn endOfInput columnIndex := fun frame hframe => by
    obtain ⟨hdiv, hmem⟩ := (mem_columnFrames hpos).mp hframe
    exact (mem_ownFrames hpos).mpr ⟨hdiv, hend frame hmem⟩
  constructor
  · rintro ⟨acc, hcol, hne, hcount⟩
    rw [(KeyedList.lookup_some hcol).2, ← card_ownFrames] at hne hcount
    rw [(h.present _ hseed acc hcol).1.sampleCount] at hcount
    refine ⟨Finset.card_ne_zero.mp hne, fun frame hframe => ?_⟩
    rw [← Finset.eq_of_subset_of_card_le hsub hcount.ge, mem_columnFrames hpos] at hframe
    exact hframe.2
  · rintro ⟨hne, hall⟩
    have heq : columnFrames framesPerColumn columnIndex processed =
        ownFrames framesPerColumn endOfInput columnIndex := by
      refine hsub.antisymm fun frame hframe => (mem_columnFrames hpos).mpr ⟨?_, hall frame hframe⟩
      exact ((mem_ownFrames hpos).mp hframe).1
    cases hcol : overview.column columnIndex with
    | none =>
        have hempty := h.absent _ hseed hcol
        rw [heq] at hempty
        exact absurd hempty hne.ne_empty
    | some acc =>
        refine ⟨acc, rfl, ?_⟩
        rw [Accumulator.IsFull, (KeyedList.lookup_some hcol).2, ← card_ownFrames,
          (h.present _ hseed acc hcol).1.sampleCount, heq]
        exact ⟨Finset.card_ne_zero.mpr hne, rfl⟩

end Ledger

/-! ## Refreshing the marks -/

/-- Every mark stands on a full column. -/
def MarksSound (framesPerColumn : ℕ) (endOfInput : Option ℕ) (overview : Overview) : Prop :=
  ∀ columnIndex acc, overview.column columnIndex = some acc → acc.complete = true →
    acc.IsFull framesPerColumn endOfInput

/-- Every full column is marked. -/
def MarksCurrent (framesPerColumn : ℕ) (endOfInput : Option ℕ) (overview : Overview) : Prop :=
  ∀ columnIndex acc, overview.column columnIndex = some acc →
    acc.IsFull framesPerColumn endOfInput → acc.complete = true

/-- The accumulator of a column, whatever its mark. -/
def Overview.unmarkedColumn (overview : Overview) (columnIndex : ℕ) : Option Accumulator :=
  (overview.column columnIndex).map fun acc => { acc with complete := false }

namespace Overview

variable {framesPerColumn : ℕ} {endOfInput : Option ℕ} {overview : Overview}

theorem becomesComplete_iff {acc : Accumulator} :
    becomesComplete framesPerColumn endOfInput acc = true ↔
      acc.complete = false ∧ acc.IsFull framesPerColumn endOfInput := by
  simp [becomesComplete, Accumulator.IsFull, and_assoc]

/-- The refreshed accumulator of a column. -/
theorem column_refresh (hs : overview.Sorted) (columnIndex : ℕ) :
    (refreshCompletedColumns framesPerColumn endOfInput overview).column columnIndex =
      (overview.column columnIndex).map fun acc =>
        if becomesComplete framesPerColumn endOfInput acc then { acc with complete := true }
        else acc :=
  (KeyedList.map_spec hs (f := fun acc =>
    if becomesComplete framesPerColumn endOfInput acc then { acc with complete := true } else acc)
    fun acc => by split_ifs <;> rfl).2 columnIndex

theorem sorted_refresh (hs : overview.Sorted) :
    (refreshCompletedColumns framesPerColumn endOfInput overview).Sorted :=
  (KeyedList.map_spec hs (f := fun acc =>
    if becomesComplete framesPerColumn endOfInput acc then { acc with complete := true } else acc)
    fun acc => by split_ifs <;> rfl).1

/-- Refreshing changes marks only. -/
theorem unmarkedColumn_refresh (hs : overview.Sorted) (columnIndex : ℕ) :
    (refreshCompletedColumns framesPerColumn endOfInput overview).unmarkedColumn columnIndex =
      overview.unmarkedColumn columnIndex := by
  unfold unmarkedColumn
  rw [column_refresh hs, Option.map_map]
  congr 1
  funext acc
  simp only [Function.comp_apply]
  split_ifs <;> rfl

/-- Refreshing keeps every mark. -/
theorem marked_refresh (hs : overview.Sorted) {columnIndex : ℕ}
    (h : overview.marked columnIndex = true) :
    (refreshCompletedColumns framesPerColumn endOfInput overview).marked columnIndex = true := by
  unfold marked at h ⊢
  rw [column_refresh hs]
  cases hcol : overview.column columnIndex with
  | none => simp [hcol] at h
  | some acc =>
      rw [hcol] at h
      simp only [Option.map_some, Option.getD_some] at h ⊢
      split_ifs
      · rfl
      · exact h

/-- The counter follows the marks. -/
theorem counted_refresh
    (h : overview.completeCount = overview.accumulators.countP Accumulator.complete) :
    (refreshCompletedColumns framesPerColumn endOfInput overview).completeCount =
      (refreshCompletedColumns framesPerColumn endOfInput overview).accumulators.countP
        Accumulator.complete := by
  simp only [refreshCompletedColumns, h]
  induction overview.accumulators with
  | nil => rfl
  | cons acc rest ih =>
      simp only [List.countP_cons, List.map_cons]
      rw [← ih]
      by_cases hfull : becomesComplete framesPerColumn endOfInput acc = true
      · have := (becomesComplete_iff.mp hfull).1
        simp only [hfull, this, if_true]
        simp
        omega
      · simp only [hfull, Bool.false_eq_true, if_false]
        omega

end Overview

section Refresh

variable {framesPerColumn : ℕ} {endOfInput : Option ℕ} {overview : Overview}

/-- After refreshing every full column is marked. -/
theorem marksCurrent_refresh (hs : overview.Sorted) :
    MarksCurrent framesPerColumn endOfInput
      (refreshCompletedColumns framesPerColumn endOfInput overview) := by
  intro columnIndex acc hcol hfull
  rw [Overview.column_refresh hs, Option.map_eq_some_iff] at hcol
  obtain ⟨old, -, rfl⟩ := hcol
  split_ifs at hfull ⊢ with hbecomes
  · rfl
  · by_contra hmark
    exact hbecomes (Overview.becomesComplete_iff.mpr ⟨by simpa using hmark, hfull⟩)

/-- Refreshing marks full columns only. -/
theorem MarksSound.refresh (hs : overview.Sorted)
    (h : MarksSound framesPerColumn endOfInput overview) :
    MarksSound framesPerColumn endOfInput
      (refreshCompletedColumns framesPerColumn endOfInput overview) := by
  intro columnIndex acc hcol hmark
  rw [Overview.column_refresh hs, Option.map_eq_some_iff] at hcol
  obtain ⟨old, hold, rfl⟩ := hcol
  split_ifs at hmark ⊢ with hbecomes
  · exact (Overview.becomesComplete_iff.mp hbecomes).2
  · exact h columnIndex old hold hmark

/-- Refreshing keeps the ledger. -/
theorem Ledger.refresh {signal : ℕ → ℚ} {seeded processed : Set ℕ}
    (h : Ledger framesPerColumn signal seeded processed overview) :
    Ledger framesPerColumn signal seeded processed
      (refreshCompletedColumns framesPerColumn endOfInput overview) where
  sorted := Overview.sorted_refresh h.sorted
  present := by
    intro columnIndex hseed acc hcol
    rw [Overview.column_refresh h.sorted, Option.map_eq_some_iff] at hcol
    obtain ⟨old, hold, rfl⟩ := hcol
    obtain ⟨hsum, hne⟩ := h.present columnIndex hseed old hold
    split_ifs
    · exact ⟨hsum.congr old.bandSums true, hne⟩
    · exact ⟨hsum, hne⟩
  absent := by
    intro columnIndex hseed hcol
    rw [Overview.column_refresh h.sorted, Option.map_eq_none_iff] at hcol
    exact h.absent columnIndex hseed hcol
  counted := Overview.counted_refresh h.counted

end Refresh

end LibApta
