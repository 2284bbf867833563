import Mathlib.Algebra.BigOperators.Group.Finset.Basic
import Mathlib.Algebra.Order.Ring.Rat
import Mathlib.Order.Interval.Finset.Nat
import LibApta.Waveform.Store

/-!
# What the columns have accounted for

An accumulator summarises a finite set of frames of a signal when its count, its sum of squares, its
peaks and its clipping flag are those of the set. `Ledger` says that every column that was not
seeded summarises exactly the processed frames that map to it. Feeding new frames to the store moves
them to the processed side, each once; it does not touch the other columns or any completion mark.
-/

namespace LibApta

/-! ## Summaries -/

/-- An accumulator summarises a set of frames of a signal. -/
structure Summarizes (signal : ℕ → ℚ) (frames : Finset ℕ) (acc : Accumulator) : Prop where
  sampleCount : acc.sampleCount = frames.card
  sumSquares : acc.sumSquares = ∑ frame ∈ frames, scaledMagnitude 8388608 (signal frame) ^ 2
  minimum_le : ∀ frame ∈ frames, acc.minimum ≤ signal frame
  minimum_le_one : acc.minimum ≤ 1
  minimum_attained : acc.minimum = 1 ∨ ∃ frame ∈ frames, signal frame = acc.minimum
  le_maximum : ∀ frame ∈ frames, signal frame ≤ acc.maximum
  neg_one_le_maximum : -1 ≤ acc.maximum
  maximum_attained : acc.maximum = -1 ∨ ∃ frame ∈ frames, signal frame = acc.maximum
  clipped : acc.clipped = true ↔ ∃ frame ∈ frames, signal frame ≤ -1 ∨ 1 ≤ signal frame

namespace Summarizes

variable {signal : ℕ → ℚ} {frames : Finset ℕ} {acc acc' : Accumulator}

/-- A new column summarises no frame. -/
theorem new (columnIndex : ℕ) : Summarizes signal ∅ (.new columnIndex) :=
  ⟨rfl, rfl, by simp, by simp [Accumulator.new], .inl rfl, by simp, by simp [Accumulator.new],
    .inl rfl, by simp [Accumulator.new]⟩

/-- Adding the sample of a new frame summarises the set with that frame. -/
theorem addSample (h : Summarizes signal frames acc) {frame : ℕ} (hnew : frame ∉ frames) :
    Summarizes signal (insert frame frames) (acc.addSample (signal frame)) where
  sampleCount := by
    rw [Finset.card_insert_of_notMem hnew, ← h.sampleCount]
    rfl
  sumSquares := by
    rw [Finset.sum_insert hnew, ← h.sumSquares, pow_two]
    exact Nat.add_comm _ _
  minimum_le := by
    intro other hother
    show (if signal frame < acc.minimum then signal frame else acc.minimum) ≤ signal other
    rcases Finset.mem_insert.mp hother with rfl | hother
    · split_ifs with hlt
      · exact le_rfl
      · exact not_lt.mp hlt
    · have hle := h.minimum_le other hother
      split_ifs with hlt
      · exact hlt.le.trans hle
      · exact hle
  minimum_le_one := by
    show (if signal frame < acc.minimum then signal frame else acc.minimum) ≤ 1
    split_ifs with hlt
    · exact hlt.le.trans h.minimum_le_one
    · exact h.minimum_le_one
  minimum_attained := by
    show (if signal frame < acc.minimum then signal frame else acc.minimum) = 1 ∨
      ∃ other ∈ insert frame frames,
        signal other = if signal frame < acc.minimum then signal frame else acc.minimum
    split_ifs
    · exact .inr ⟨frame, Finset.mem_insert_self _ _, rfl⟩
    · exact h.minimum_attained.imp_right fun ⟨other, hother, heq⟩ =>
        ⟨other, Finset.mem_insert_of_mem hother, heq⟩
  le_maximum := by
    intro other hother
    show signal other ≤ if acc.maximum < signal frame then signal frame else acc.maximum
    rcases Finset.mem_insert.mp hother with rfl | hother
    · split_ifs with hlt
      · exact le_rfl
      · exact not_lt.mp hlt
    · have hle := h.le_maximum other hother
      split_ifs with hlt
      · exact hle.trans hlt.le
      · exact hle
  neg_one_le_maximum := by
    show -1 ≤ if acc.maximum < signal frame then signal frame else acc.maximum
    split_ifs with hlt
    · exact h.neg_one_le_maximum.trans hlt.le
    · exact h.neg_one_le_maximum
  maximum_attained := by
    show (if acc.maximum < signal frame then signal frame else acc.maximum) = -1 ∨
      ∃ other ∈ insert frame frames,
        signal other = if acc.maximum < signal frame then signal frame else acc.maximum
    split_ifs
    · exact .inr ⟨frame, Finset.mem_insert_self _ _, rfl⟩
    · exact h.maximum_attained.imp_right fun ⟨other, hother, heq⟩ =>
        ⟨other, Finset.mem_insert_of_mem hother, heq⟩
  clipped := by
    simp only [Accumulator.addSample, Bool.or_eq_true, decide_eq_true_eq, h.clipped,
      Finset.mem_insert, exists_eq_or_imp]
    rw [or_assoc]
    exact or_comm

/-- A summary does not depend on the bands or the completion mark. -/
theorem congr (h : Summarizes signal frames acc) (bandSums : Bands ℕ) (complete : Bool) :
    Summarizes signal frames { acc with bandSums := bandSums, complete := complete } :=
  ⟨h.sampleCount, h.sumSquares, h.minimum_le, h.minimum_le_one, h.minimum_attained, h.le_maximum,
    h.neg_one_le_maximum, h.maximum_attained, h.clipped⟩

/-- Two summaries of one set agree. -/
theorem unique (h : Summarizes signal frames acc) (h' : Summarizes signal frames acc') :
    acc.sampleCount = acc'.sampleCount ∧ acc.sumSquares = acc'.sumSquares ∧
      acc.minimum = acc'.minimum ∧ acc.maximum = acc'.maximum ∧ acc.clipped = acc'.clipped := by
  refine ⟨h.sampleCount.trans h'.sampleCount.symm, h.sumSquares.trans h'.sumSquares.symm,
    le_antisymm ?_ ?_, le_antisymm ?_ ?_, Bool.eq_iff_iff.mpr (h.clipped.trans h'.clipped.symm)⟩
  · rcases h'.minimum_attained with heq | ⟨frame, hf, heq⟩
    · exact heq ▸ h.minimum_le_one
    · exact heq ▸ h.minimum_le frame hf
  · rcases h.minimum_attained with heq | ⟨frame, hf, heq⟩
    · exact heq ▸ h'.minimum_le_one
    · exact heq ▸ h'.minimum_le frame hf
  · rcases h.maximum_attained with heq | ⟨frame, hf, heq⟩
    · exact heq ▸ h'.neg_one_le_maximum
    · exact heq ▸ h'.le_maximum frame hf
  · rcases h'.maximum_attained with heq | ⟨frame, hf, heq⟩
    · exact heq ▸ h.neg_one_le_maximum
    · exact heq ▸ h.le_maximum frame hf

end Summarizes

/-! ## The ledger -/

open scoped Classical in
/-- The frames of a set that map to a column. -/
noncomputable def columnFrames (framesPerColumn columnIndex : ℕ) (frames : Set ℕ) : Finset ℕ :=
  (Finset.Ico (columnIndex * framesPerColumn) (columnIndex * framesPerColumn + framesPerColumn)).filter
    (· ∈ frames)

theorem mem_columnFrames {framesPerColumn columnIndex frame : ℕ} {frames : Set ℕ}
    (hpos : 0 < framesPerColumn) :
    frame ∈ columnFrames framesPerColumn columnIndex frames ↔
      frame / framesPerColumn = columnIndex ∧ frame ∈ frames := by
  classical
  have hdiv : (columnIndex * framesPerColumn ≤ frame ∧
      frame < columnIndex * framesPerColumn + framesPerColumn) ↔
        frame / framesPerColumn = columnIndex := by
    rw [← Nat.succ_mul, ← Nat.le_div_iff_mul_le hpos, ← Nat.div_lt_iff_lt_mul hpos]
    omega
  rw [columnFrames, Finset.mem_filter, Finset.mem_Ico, hdiv]

/-- Every column that was not seeded summarises the processed frames that map to it, and a column is
in the store only if it has such a frame. The number of complete columns is what the counter says. -/
structure Ledger (framesPerColumn : ℕ) (signal : ℕ → ℚ) (seeded processed : Set ℕ)
    (overview : Overview) : Prop where
  sorted : overview.Sorted
  present : ∀ columnIndex ∉ seeded, ∀ acc, overview.column columnIndex = some acc →
    Summarizes signal (columnFrames framesPerColumn columnIndex processed) acc ∧
      (columnFrames framesPerColumn columnIndex processed).Nonempty
  absent : ∀ columnIndex ∉ seeded, overview.column columnIndex = none →
    columnFrames framesPerColumn columnIndex processed = ∅
  counted : overview.completeCount = overview.accumulators.countP Accumulator.complete

/-- What feeding frames leaves of the columns: those it does not touch are as before, and no
completion mark changes. -/
structure FeedFrame (framesPerColumn first past : ℕ) (before after : Overview) : Prop where
  untouched : ∀ columnIndex, (∀ frame, first ≤ frame → frame < past →
    frame / framesPerColumn ≠ columnIndex) → after.column columnIndex = before.column columnIndex
  marks : ∀ columnIndex, after.marked columnIndex = before.marked columnIndex

namespace Ledger

variable {framesPerColumn : ℕ} {signal : ℕ → ℚ} {seeded processed : Set ℕ}
  {overview overview' : Overview} {hasBands : Bool} {env env' : Environment}

/-- Feeding one new frame. -/
theorem feedOne (hpos : 0 < framesPerColumn)
    (h : Ledger framesPerColumn signal seeded processed overview) {frame position : ℕ}
    (hnew : frame ∉ processed) (hseed : frame / framesPerColumn ∉ seeded)
    (hfind : overview.findOrInsert hasBands (frame / framesPerColumn) env =
      (.ok position, overview', env')) :
    Ledger framesPerColumn signal seeded (insert frame processed)
        (overview'.addSampleAt hasBands position (signal frame)) ∧
      FeedFrame framesPerColumn frame (frame + 1) overview
        (overview'.addSampleAt hasBands position (signal frame)) := by
  obtain ⟨hsort, hget, hcol, hcc, hcount⟩ := Overview.findOrInsert_ok h.sorted hfind
  obtain ⟨hsort', ⟨bandSums, hcol'⟩, hcc', hcount'⟩ :=
    Overview.addSampleAt_spec hasBands hsort (signal frame) hget
  have hkey : (overview.columnOrNew (frame / framesPerColumn)).columnIndex =
      frame / framesPerColumn := by
    unfold Overview.columnOrNew
    cases hc : overview.column (frame / framesPerColumn) with
    | none => rfl
    | some acc => exact (KeyedList.lookup_some hc).2
  rw [hkey] at hcol'
  have hother : ∀ k, frame / framesPerColumn ≠ k →
      (overview'.addSampleAt hasBands position (signal frame)).column k = overview.column k :=
    fun k hk => by rw [hcol', if_neg hk, hcol, if_neg hk]
  have hframes : ∀ k, frame / framesPerColumn ≠ k →
      columnFrames framesPerColumn k (insert frame processed) =
        columnFrames framesPerColumn k processed := fun k hk => by
    ext other
    rw [mem_columnFrames hpos, mem_columnFrames hpos, Set.mem_insert_iff]
    refine and_congr_right fun hother => ?_
    have : other ≠ frame := fun heq => hk (heq ▸ hother)
    simp [this]
  have hhere : columnFrames framesPerColumn (frame / framesPerColumn) (insert frame processed) =
      insert frame (columnFrames framesPerColumn (frame / framesPerColumn) processed) := by
    ext other
    simp only [mem_columnFrames hpos, Finset.mem_insert, Set.mem_insert_iff]
    constructor
    · rintro ⟨hdiv, rfl | hmem⟩
      · exact .inl rfl
      · exact .inr ⟨hdiv, hmem⟩
    · rintro (rfl | ⟨hdiv, hmem⟩)
      · exact ⟨rfl, .inl rfl⟩
      · exact ⟨hdiv, .inr hmem⟩
  have hold : Summarizes signal (columnFrames framesPerColumn (frame / framesPerColumn) processed)
      (overview.columnOrNew (frame / framesPerColumn)) := by
    unfold Overview.columnOrNew
    cases hc : overview.column (frame / framesPerColumn) with
    | none =>
        rw [h.absent _ hseed hc]
        exact .new _
    | some acc => exact (h.present _ hseed acc hc).1
  have hfresh : frame ∉ columnFrames framesPerColumn (frame / framesPerColumn) processed :=
    fun hmem => hnew ((mem_columnFrames hpos).mp hmem).2
  refine ⟨⟨hsort', fun k hk acc hacc => ?_, fun k hk hnone => ?_, ?_⟩, ⟨fun k hk => ?_, ?_⟩⟩
  · by_cases hkf : frame / framesPerColumn = k
    · subst hkf
      rw [hcol', if_pos rfl] at hacc
      obtain rfl := Option.some.inj hacc
      rw [hhere]
      exact ⟨(hold.addSample hfresh).congr _ _, Finset.insert_nonempty _ _⟩
    · rw [hother k hkf] at hacc
      rw [hframes k hkf]
      exact h.present k hk acc hacc
  · by_cases hkf : frame / framesPerColumn = k
    · subst hkf
      rw [hcol', if_pos rfl] at hnone
      exact absurd hnone (by simp)
    · rw [hother k hkf] at hnone
      rw [hframes k hkf]
      exact h.absent k hk hnone
  · rw [hcc', hcount', hcc, hcount]
    exact h.counted
  · exact hother k (hk frame le_rfl (Nat.lt_succ_self _))
  · intro k
    unfold Overview.marked
    by_cases hkf : frame / framesPerColumn = k
    · subst hkf
      rw [hcol', if_pos rfl]
      show (overview.columnOrNew (frame / framesPerColumn)).complete = _
      unfold Overview.columnOrNew
      cases overview.column (frame / framesPerColumn) <;> rfl
    · rw [hother k hkf]

/-- Feeding a list of new frames. -/
theorem feed (hpos : 0 < framesPerColumn)
    (h : Ledger framesPerColumn signal seeded processed overview) (samples : List ℚ) (first : ℕ)
    (hnew : ∀ frame, first ≤ frame → frame < first + samples.length → frame ∉ processed)
    (hseed : ∀ frame, first ≤ frame → frame < first + samples.length →
      frame / framesPerColumn ∉ seeded)
    (hsignal : ∀ i (hi : i < samples.length), samples[i] = signal (first + i))
    (hok : processSamples framesPerColumn hasBands samples first overview env =
      (.ok, overview', env')) :
    Ledger framesPerColumn signal seeded
        (processed ∪ {frame | first ≤ frame ∧ frame < first + samples.length}) overview' ∧
      FeedFrame framesPerColumn first (first + samples.length) overview overview' := by
  induction samples generalizing first processed overview env with
  | nil =>
      simp only [processSamples, Prod.mk.injEq, true_and] at hok
      obtain ⟨rfl, -⟩ := hok
      have hempty : {frame | first ≤ frame ∧ frame < first + ([] : List ℚ).length} = ∅ := by
        ext frame
        simp only [List.length_nil, Set.mem_ofPred_eq, Set.mem_empty_iff_false, iff_false]
        omega
      rw [hempty, Set.union_empty]
      exact ⟨h, fun _ _ => rfl, fun _ => rfl⟩
  | cons sample rest ih =>
      unfold processSamples at hok
      split_ifs at hok
      · exact absurd hok (by simp)
      split at hok
      · next status _ _ hfind =>
          obtain ⟨⟨code, rfl⟩, -⟩ := Overview.findOrInsert_error hfind
          exact absurd hok (by simp)
      · next position found fenv hfind =>
          have hsample : sample = signal first := hsignal 0 (Nat.succ_pos _)
          subst hsample
          rw [List.length_cons] at hnew hseed
          obtain ⟨hone, hframe⟩ := h.feedOne hpos (hnew first le_rfl (by omega))
            (hseed first le_rfl (by omega)) hfind
          have hnext : ∀ frame, first + 1 ≤ frame → frame < first + 1 + rest.length →
              frame ∉ insert first processed := fun frame hlo hhi hmem => by
            rcases Set.mem_insert_iff.mp hmem with rfl | hmem
            · omega
            · exact hnew frame (by omega) (by omega) hmem
          have hagree : ∀ i (hi : i < rest.length), rest[i] = signal (first + 1 + i) :=
            fun i hi => by
              have := hsignal (i + 1) (by simpa using hi)
              simpa [Nat.add_assoc, Nat.add_comm 1 i] using this
          obtain ⟨hrest, hframe'⟩ := ih hone (first + 1) hnext
            (fun frame hlo hhi => hseed frame (by omega) (by omega)) hagree hok
          have hset : insert first processed ∪
              {frame | first + 1 ≤ frame ∧ frame < first + 1 + rest.length} =
              processed ∪ {frame | first ≤ frame ∧ frame < first + (rest.length + 1)} := by
            ext frame
            simp only [Set.mem_union, Set.mem_insert_iff, Set.mem_ofPred_eq]
            constructor
            · rintro ((rfl | hmem) | ⟨hlo, hhi⟩)
              · exact .inr ⟨le_rfl, by omega⟩
              · exact .inl hmem
              · exact .inr ⟨by omega, by omega⟩
            · rintro (hmem | ⟨hlo, hhi⟩)
              · exact .inl (.inr hmem)
              · rcases hlo.eq_or_lt with rfl | hlt
                · exact .inl (.inl rfl)
                · exact .inr ⟨hlt, by omega⟩
          rw [hset] at hrest
          rw [List.length_cons]
          refine ⟨hrest, fun k hk => ?_, fun k => (hframe'.marks k).trans (hframe.marks k)⟩
          rw [hframe'.untouched k fun frame hlo hhi => hk frame (by omega) (by omega),
            hframe.untouched k fun frame hlo hhi => hk frame (by omega) (by omega)]

end Ledger

end LibApta
