import Mathlib.Order.Bounds.Basic
import LibApta.Lib.LongestRun
import LibApta.Tempo.Commit

/-!
# Tracking the evidence

While samples arrive, the estimator keeps the evidence run without scanning the ring: it puts a bin that
completes next to the run to it, takes its first bin away when that is overwritten, and asks for a full
scan after anything else that touches the run. What the run is kept to be is what a full scan finds, the
first longest run of complete bins below the largest (`scanEvidence_eq_some_iff`), as long as no sample
joins the run to another one, uncovers another one or leaves the run shorter than another one
(`evidence_tracks`).
-/

namespace LibApta

open LongestRun

/-! ## What a full scan finds -/

/-- What a scan up to an index knows: the best of the runs that are closed, and the run it is in. -/
def ScanState (P : ℕ → Prop) (lo index : ℕ) (scan : (ℕ × ℕ) × Option ℕ) : Prop :=
  match scan.2 with
  | none => Scanned P lo index scan.1 ∧ (index = lo ∨ ¬ P (index - 1))
  | some first => Scanned P lo first scan.1 ∧ lo ≤ first ∧ first < index ∧ Run P first index ∧
      (first = lo ∨ ¬ P (first - 1))

theorem ScanState.step {complete : ℕ → Bool} {lo index : ℕ} {scan : (ℕ × ℕ) × Option ℕ}
    (h : ScanState (fun i => complete i = true) lo index scan) (hlo : lo ≤ index) :
    ScanState (fun i => complete i = true) lo (index + 1)
      (scanRun (complete index) index scan) := by
  obtain ⟨best, inside⟩ := scan
  cases inside with
  | none =>
      obtain ⟨hbest, hstart⟩ := h
      cases hcomplete : complete index with
      | true =>
          refine ⟨hbest, hlo, Nat.lt_succ_self index, fun i hfirst hlast => ?_, hstart⟩
          obtain rfl : i = index := by omega
          exact hcomplete
      | false =>
          have hstop : ¬ complete index = true := by rw [hcomplete]; exact Bool.false_ne_true
          exact ⟨hbest.skip hstop, .inr hstop⟩
  | some first =>
      obtain ⟨hbest, hfirst, hlt, hrun, hstart⟩ := h
      cases hcomplete : complete index with
      | true =>
          refine ⟨hbest, hfirst, hlt.trans (Nat.lt_succ_self index), fun i hi hlast => ?_, hstart⟩
          rcases Nat.lt_succ_iff_lt_or_eq.mp hlast with hbelow | rfl
          · exact hrun i hi hbelow
          · exact hcomplete
      | false =>
          have hstop : ¬ complete index = true := by rw [hcomplete]; exact Bool.false_ne_true
          exact ⟨hbest.close hfirst hlt hrun hstart hstop, .inr hstop⟩

theorem ScanState.steps {complete : ℕ → Bool} {lo : ℕ} (count index : ℕ)
    {scan : (ℕ × ℕ) × Option ℕ} (h : ScanState (fun i => complete i = true) lo index scan)
    (hlo : lo ≤ index) :
    ScanState (fun i => complete i = true) lo (index + count)
      ((List.range' index count).foldl (fun scan i => scanRun (complete i) i scan) scan) := by
  induction count generalizing index scan with
  | zero => exact h
  | succ count ih =>
      rw [List.range'_succ, List.foldl_cons, show index + (count + 1) = index + 1 + count by omega]
      exact ih (index + 1) (h.step hlo) (hlo.trans (Nat.le_succ index))

/-- A scan up to the largest complete bin finds the first longest run. -/
theorem longestRun_spec {complete : ℕ → Bool} {minimum maximum : ℕ} (hmin : minimum ≤ maximum)
    (hmax : IsGreatest {i | complete i = true} maximum) :
    FirstLongest (fun i => complete i = true) minimum (longestRun complete minimum maximum).1
      (longestRun complete minimum maximum).2 := by
  have hpast : complete (maximum + 1) = false := by
    by_contra htrue
    have hle := hmax.2 (Bool.not_eq_false _ ▸ htrue : complete (maximum + 1) = true)
    omega
  have hstart : ScanState (fun i => complete i = true) minimum minimum ((0, 0), none) :=
    ⟨.inl ⟨rfl, fun i hlo hhi => absurd hlo (not_le.mpr hhi)⟩, .inl rfl⟩
  have hscan := hstart.steps (maximum + 1 - minimum) minimum le_rfl
  rw [show minimum + (maximum + 1 - minimum) = maximum + 1 by omega] at hscan
  have hlast := hscan.step (hmin.trans (Nat.le_succ maximum))
  rw [hpast] at hlast
  have hclosed (scan : (ℕ × ℕ) × Option ℕ) : (scanRun false (maximum + 1) scan).2 = none := by
    unfold scanRun
    obtain ⟨best, inside⟩ := scan
    cases inside <;> rfl
  unfold ScanState at hlast
  rw [hclosed] at hlast
  rcases hlast.1 with ⟨-, hnone⟩ | hbest
  · exact absurd hmax.1 (hnone maximum hmin (by omega))
  · refine hbest.congr fun i => ⟨fun hi => ⟨hi, ?_⟩, fun hi => hi.1⟩
    have hle := hmax.2 hi
    omega

section Scan

variable {ring : OnsetRing} {capacity framesPerBin : ℕ} {endOfInput : Option ℕ}

/-- The complete bins of some slots of a ring. -/
def completeBins (ring : OnsetRing) (capacity framesPerBin : ℕ) (endOfInput : Option ℕ)
    (slots : List ℕ) : Set ℕ :=
  {index | ring.binComplete capacity framesPerBin endOfInput index = true ∧
    ∃ slot ∈ slots, ∃ bin ∈ ring slot, bin.binIndex = index}

/-- The largest number of a set, if it has one. -/
structure IsMaximum (indices : Set ℕ) (best : Option ℕ) : Prop where
  empty : best = none → indices = ∅
  greatest : ∀ maximum ∈ best, IsGreatest indices maximum

theorem completeBins_cons (slot : ℕ) (slots : List ℕ) :
    completeBins ring capacity framesPerBin endOfInput (slot :: slots) =
      completeBins ring capacity framesPerBin endOfInput [slot] ∪
        completeBins ring capacity framesPerBin endOfInput slots := by
  ext index
  simp only [completeBins, List.mem_cons, List.not_mem_nil, or_false, Set.mem_ofPred_eq,
    Set.mem_union]
  constructor
  · rintro ⟨hcomplete, other, rfl | hother, hbin⟩
    · exact .inl ⟨hcomplete, other, rfl, hbin⟩
    · exact .inr ⟨hcomplete, other, hother, hbin⟩
  · rintro (⟨hcomplete, other, rfl, hbin⟩ | ⟨hcomplete, other, hother, hbin⟩)
    · exact ⟨hcomplete, other, .inl rfl, hbin⟩
    · exact ⟨hcomplete, other, .inr hother, hbin⟩

/-- A number of a set that no other is better than, if the set is not empty. -/
structure IsBest (better : ℕ → ℕ → Prop) (indices : Set ℕ) (best : Option ℕ) : Prop where
  empty : best = none → indices = ∅
  member : ∀ index ∈ best, index ∈ indices ∧ ∀ other ∈ indices, ¬ better index other

section Best

variable {better : ℕ → ℕ → Prop} [DecidableRel better]

/-- The better of a number and the best so far. -/
def preferred (better : ℕ → ℕ → Prop) [DecidableRel better] (best : Option ℕ) (index : ℕ) :
    Option ℕ :=
  match best with
  | none => some index
  | some old => if better old index then some index else best

theorem IsBest.preferred [IsStrictOrder ℕ better] {indices : Set ℕ} {best : Option ℕ}
    (h : IsBest better indices best) (index : ℕ) :
    IsBest better (indices ∪ {index}) (preferred better best index) := by
  cases best with
  | none =>
      rw [h.empty rfl, Set.empty_union]
      refine ⟨(nomatch ·), fun found hfound => ?_⟩
      obtain rfl := Option.some.inj hfound
      refine ⟨rfl, ?_⟩
      rintro other rfl
      exact irrefl other
  | some old =>
      obtain ⟨hold, hbest⟩ := h.member old rfl
      simp only [LibApta.preferred]
      split_ifs with hbetter
      · refine ⟨(nomatch ·), fun found hfound => ?_⟩
        obtain rfl := Option.some.inj hfound
        refine ⟨.inr rfl, ?_⟩
        rintro other (hother | rfl) hlater
        · exact hbest other hother (trans_of better hbetter hlater)
        · exact irrefl other hlater
      · refine ⟨(nomatch ·), fun found hfound => ?_⟩
        obtain rfl := Option.some.inj hfound
        refine ⟨.inl hold, ?_⟩
        rintro other (hother | rfl)
        · exact hbest other hother
        · exact hbetter

/-- The best complete bin so far and that of one slot more. -/
def preferredSlot (better : ℕ → ℕ → Prop) [DecidableRel better] (ring : OnsetRing)
    (capacity framesPerBin : ℕ) (endOfInput : Option ℕ) (best : Option ℕ) (slot : ℕ) : Option ℕ :=
  match ring slot with
  | some bin =>
      if ring.binComplete capacity framesPerBin endOfInput bin.binIndex then
        preferred better best bin.binIndex
      else best
  | none => best

theorem IsBest.slot [IsStrictOrder ℕ better] {best : Option ℕ} {seen : Set ℕ}
    (h : IsBest better seen best) (slot : ℕ) :
    IsBest better (seen ∪ completeBins ring capacity framesPerBin endOfInput [slot])
      (preferredSlot better ring capacity framesPerBin endOfInput best slot) := by
  unfold preferredSlot
  cases hslot : ring slot with
  | none =>
      have hempty : completeBins ring capacity framesPerBin endOfInput [slot] = ∅ := by
        simp [completeBins, hslot]
      rw [hempty, Set.union_empty]
      exact h
  | some bin =>
      simp only
      split_ifs with hcomplete
      · have hone : completeBins ring capacity framesPerBin endOfInput [slot] = {bin.binIndex} := by
          ext index
          simp only [completeBins, List.mem_singleton, exists_eq_left, hslot, Option.mem_some_iff,
            Set.mem_ofPred_eq, Set.mem_singleton_iff]
          constructor
          · rintro ⟨-, _, rfl, rfl⟩
            rfl
          · rintro rfl
            exact ⟨hcomplete, bin, rfl, rfl⟩
        rw [hone]
        exact h.preferred bin.binIndex
      · have hempty : completeBins ring capacity framesPerBin endOfInput [slot] = ∅ := by
          ext index
          simp only [completeBins, List.mem_singleton, exists_eq_left, hslot, Option.mem_some_iff,
            Set.mem_ofPred_eq, Set.mem_empty_iff_false, iff_false]
          rintro ⟨htrue, _, rfl, rfl⟩
          exact hcomplete htrue
        rw [hempty, Set.union_empty]
        exact h

/-- Going over all slots finds the best complete bin. -/
theorem foldl_preferredSlot [IsStrictOrder ℕ better] (hcapacity : 0 < capacity) :
    IsBest better {index | ring.binComplete capacity framesPerBin endOfInput index = true}
      ((List.range capacity).foldl
        (preferredSlot better ring capacity framesPerBin endOfInput) none) := by
  have hfold : ∀ (slots : List ℕ) (seen : Set ℕ) (best : Option ℕ), IsBest better seen best →
      IsBest better (seen ∪ completeBins ring capacity framesPerBin endOfInput slots)
        (slots.foldl (preferredSlot better ring capacity framesPerBin endOfInput) best) := by
    intro slots
    induction slots with
    | nil =>
        intro seen best h
        have hempty : completeBins ring capacity framesPerBin endOfInput [] = ∅ := by
          simp [completeBins]
        rw [hempty, Set.union_empty]
        exact h
    | cons slot rest ih =>
        intro seen best h
        rw [completeBins_cons, ← Set.union_assoc]
        exact ih _ _ (h.slot slot)
  have hall : {index | ring.binComplete capacity framesPerBin endOfInput index = true} =
      ∅ ∪ completeBins ring capacity framesPerBin endOfInput (List.range capacity) := by
    ext index
    rw [Set.empty_union]
    refine ⟨fun hcomplete => ⟨hcomplete, index % capacity,
      List.mem_range.mpr (Nat.mod_lt index hcapacity), ?_⟩, fun h => h.1⟩
    have hheld := hcomplete
    simp only [Set.mem_ofPred_eq, OnsetRing.binComplete, OnsetRing.bin] at hheld
    cases hslot : ring (index % capacity) with
    | none => simp [hslot] at hheld
    | some bin =>
        by_cases hindex : bin.binIndex = index
        · exact ⟨bin, rfl, hindex⟩
        · simp [hslot, hindex] at hheld
  rw [hall]
  exact hfold (List.range capacity) ∅ none ⟨fun _ => rfl, (nomatch ·, ·)⟩

end Best

theorem maximumCompleteBin_spec (hcapacity : 0 < capacity) :
    IsMaximum {index | ring.binComplete capacity framesPerBin endOfInput index = true}
      (maximumCompleteBin ring capacity framesPerBin endOfInput) := by
  have hbest : IsBest (· < ·) {index | ring.binComplete capacity framesPerBin endOfInput index = true}
      (maximumCompleteBin ring capacity framesPerBin endOfInput) := foldl_preferredSlot hcapacity
  refine ⟨hbest.empty, fun maximum hfound => ?_⟩
  obtain ⟨hmem, hnone⟩ := hbest.member maximum hfound
  exact ⟨hmem, fun other hother => not_lt.mp (hnone other hother)⟩

/-- The full scan finds the first longest run of complete bins in the window that ends at the largest
complete bin, and finds nothing when no bin is complete. -/
theorem scanEvidence_eq_some_iff (hcapacity : 0 < capacity) {first past : ℕ} :
    scanEvidence ring capacity framesPerBin endOfInput = some (first, past) ↔
      ∃ maximum,
        IsGreatest {index | ring.binComplete capacity framesPerBin endOfInput index = true} maximum ∧
        FirstLongest (fun index => ring.binComplete capacity framesPerBin endOfInput index = true)
          (maximum - (capacity - 1)) first past := by
  have hmax : IsMaximum {index | ring.binComplete capacity framesPerBin endOfInput index = true}
      (maximumCompleteBin ring capacity framesPerBin endOfInput) := maximumCompleteBin_spec hcapacity
  unfold scanEvidence
  cases hfound : maximumCompleteBin ring capacity framesPerBin endOfInput with
  | none =>
      refine ⟨(nomatch ·), ?_⟩
      rintro ⟨maximum, hgreatest, -⟩
      rw [hmax.empty hfound] at hgreatest
      exact absurd hgreatest.1 (Set.notMem_empty maximum)
  | some maximum =>
      replace hmax := hmax.greatest maximum hfound
      have hwindow : (if capacity - 1 ≤ maximum then maximum - (capacity - 1) else 0) =
          maximum - (capacity - 1) := by
        split_ifs <;> omega
      have hspec := longestRun_spec (Nat.sub_le maximum (capacity - 1)) hmax
      simp only [hwindow]
      rw [if_neg (not_le.mpr hspec.nonempty)]
      refine ⟨fun h => ?_, ?_⟩
      · rw [Option.some.inj h] at hspec
        exact ⟨maximum, hmax, hspec⟩
      · rintro ⟨other, hgreatest, hrun⟩
        obtain rfl := hmax.unique hgreatest
        obtain ⟨hfirst, hpast⟩ := hspec.unique hrun
        exact congrArg some (Prod.ext hfirst.symm hpast.symm)

end Scan

/-! ## What a sample does -/

namespace OnsetRing

/-- The ring of the local estimator holds a bin with all its samples, before the end of input. -/
def Complete (ring : OnsetRing) (index : ℕ) : Prop :=
  ring.binComplete onsetBinCapacity onsetFramesPerBin none index = true

/-- The ring holds a bin that lacks a single sample. -/
def Completing (ring : OnsetRing) (index : ℕ) : Prop :=
  ∃ bin ∈ ring (index % onsetBinCapacity),
    bin.binIndex = index ∧ bin.sampleCount + 1 = onsetFramesPerBin

variable {ring : OnsetRing} {index other : ℕ}

theorem expectedBinSamples_none (h : index ≤ uint64Max / onsetFramesPerBin) :
    expectedBinSamples onsetFramesPerBin none index = onsetFramesPerBin :=
  if_neg (not_lt.mpr h)

theorem complete_iff : ring.Complete index ↔
    index ≤ uint64Max / onsetFramesPerBin ∧ ∃ bin ∈ ring (index % onsetBinCapacity),
      bin.binIndex = index ∧ bin.sampleCount = onsetFramesPerBin := by
  unfold Complete binComplete bin
  by_cases hindex : index ≤ uint64Max / onsetFramesPerBin
  · rw [expectedBinSamples_none hindex]
    cases ring (index % onsetBinCapacity) with
    | none => simp
    | some held =>
        by_cases hheld : held.binIndex = index
        · simp [hindex, hheld]
        · simp [hheld]
  · have hzero : expectedBinSamples onsetFramesPerBin none index = 0 := if_pos (not_le.mp hindex)
    rw [hzero]
    cases ring (index % onsetBinCapacity) with
    | none => simp
    | some held => by_cases hheld : held.binIndex = index <;> simp [hindex, hheld]

/-- A bin that lacks a sample leaves no room in its slot for a complete one. -/
theorem Completing.not_complete (h : ring.Completing index) (h' : ring.Complete other)
    (hslot : other % onsetBinCapacity = index % onsetBinCapacity) : False := by
  obtain ⟨bin, hbin, rfl, hcount⟩ := h
  obtain ⟨-, bin', hbin', rfl, hcount'⟩ := complete_iff.mp h'
  rw [hslot] at hbin'
  rw [Option.mem_unique hbin hbin'] at hcount
  omega

/-- Only the slot of a bin that is written changes. -/
theorem complete_set_iff {slot : ℕ} {bin : OnsetBin} : (ring.set slot bin).Complete index ↔
    if index % onsetBinCapacity = slot then
      index ≤ uint64Max / onsetFramesPerBin ∧ bin.binIndex = index ∧
        bin.sampleCount = onsetFramesPerBin
    else ring.Complete index := by
  rw [complete_iff]
  unfold OnsetRing.set
  split_ifs with hslot
  · simp
  · rw [complete_iff]

end OnsetRing

/-- What a sample of a bin does to the complete bins and to the evidence that is kept: nothing, or it
completes the bin, or a bin in its slot stops being complete. -/
inductive SampleEffect (ring : OnsetRing) (cache : EvidenceCache) (index : ℕ) (ring' : OnsetRing)
    (cache' : EvidenceCache) : Prop where
  | same (bins : ∀ i, ring'.Complete i ↔ ring.Complete i)
      (kept : cache' = cache ∨ ∃ replaced, ¬ ring.Complete replaced ∧
        cache' = cache.noteReplaced replaced)
  | completes (completing : ring.Completing index)
      (bins : ∀ i, ring'.Complete i ↔ ring.Complete i ∨ i = index)
      (kept : cache' = cache.noteComplete index)
  | loses (lost : ℕ) (slot : lost % onsetBinCapacity = index % onsetBinCapacity)
      (held : ring.Complete lost) (bins : ∀ i, ring'.Complete i ↔ ring.Complete i ∧ i ≠ lost)
      (kept : (lost = index ∧ cache' = cache) ∨
        (lost ≠ index ∧ cache' = cache.noteReplaced lost))

/-- Every bin of the ring is in its slot. -/
def OnsetRing.Placed (ring : OnsetRing) : Prop :=
  ∀ slot, ∀ bin ∈ ring slot, bin.binIndex % onsetBinCapacity = slot

section Sample

variable {ring : OnsetRing} {cache : EvidenceCache} {frame : ℕ} {sample : ℚ}

/-- The complete bins after a bin with a single sample is written. -/
theorem complete_set_single {index : ℕ} {bin : OnsetBin} (hbin : bin.sampleCount = 1) (i : ℕ) :
    (ring.set (index % onsetBinCapacity) bin).Complete i ↔
      ring.Complete i ∧ i % onsetBinCapacity ≠ index % onsetBinCapacity := by
  rw [OnsetRing.complete_set_iff]
  split_ifs with hslot
  · simp [hslot, hbin]
  · simp [hslot]

/-- A bin with a single sample takes the place of another. -/
theorem SampleEffect.replace (hplaced : ring.Placed) {index : ℕ} {old bin : OnsetBin}
    (hold : ring (index % onsetBinCapacity) = some old) (hne : old.binIndex ≠ index)
    (hbin : bin.sampleCount = 1) :
    SampleEffect ring cache index (ring.set (index % onsetBinCapacity) bin)
      (cache.noteReplaced old.binIndex) := by
  have hslot := hplaced _ old hold
  have honly (i : ℕ) (hi : ring.Complete i) :
      i % onsetBinCapacity ≠ index % onsetBinCapacity ↔ i ≠ old.binIndex := by
    refine not_congr ⟨fun heq => ?_, fun heq => heq ▸ hslot⟩
    obtain ⟨-, held, hheld, rfl, -⟩ := OnsetRing.complete_iff.mp hi
    rw [heq, hold] at hheld
    rw [Option.some.inj hheld]
  by_cases hcomplete : ring.Complete old.binIndex
  · refine .loses old.binIndex hslot hcomplete (fun i => ?_) (.inr ⟨hne, rfl⟩)
    rw [complete_set_single hbin]
    exact and_congr_right (honly i)
  · refine .same (fun i => ?_) (.inr ⟨old.binIndex, hcomplete, rfl⟩)
    rw [complete_set_single hbin]
    refine ⟨And.left, fun hi => ⟨hi, (honly i hi).mpr ?_⟩⟩
    rintro rfl
    exact hcomplete hi

/-- One sample more in a bin. -/
theorem SampleEffect.extend {index : ℕ} {old bin : OnsetBin}
    (hindex : index ≤ uint64Max / onsetFramesPerBin)
    (hold : ring (index % onsetBinCapacity) = some old) (hheld : old.binIndex = index)
    (hbin : bin.binIndex = index) (hcount : bin.sampleCount = old.sampleCount + 1) :
    SampleEffect ring cache index (ring.set (index % onsetBinCapacity) bin)
      (if bin.sampleCount = onsetFramesPerBin then cache.noteComplete index else cache) := by
  have hcomplete (i : ℕ) (hslot : i % onsetBinCapacity = index % onsetBinCapacity) :
      ring.Complete i ↔ i = index ∧ old.sampleCount = onsetFramesPerBin := by
    rw [OnsetRing.complete_iff, hslot]
    constructor
    · rintro ⟨-, held, hmem, rfl, hfull⟩
      obtain rfl := Option.some.inj (hold.symm.trans hmem)
      exact ⟨hheld, hfull⟩
    · rintro ⟨rfl, hfull⟩
      exact ⟨hindex, old, hold, hheld, hfull⟩
  have hset (i : ℕ) : (ring.set (index % onsetBinCapacity) bin).Complete i ↔
      if i % onsetBinCapacity = index % onsetBinCapacity then
        i = index ∧ bin.sampleCount = onsetFramesPerBin
      else ring.Complete i := by
    rw [OnsetRing.complete_set_iff, hbin]
    split_ifs
    · constructor
      · rintro ⟨-, rfl, hfull⟩
        exact ⟨rfl, hfull⟩
      · rintro ⟨rfl, hfull⟩
        exact ⟨hindex, rfl, hfull⟩
    · rfl
  split_ifs with hfull
  · refine .completes ⟨old, hold, hheld, by omega⟩ (fun i => ?_) rfl
    rw [hset]
    split_ifs with hslot
    · rw [hcomplete i hslot]
      omega
    · refine ⟨.inl, fun hi => hi.resolve_right ?_⟩
      rintro rfl
      exact hslot rfl
  by_cases hover : old.sampleCount = onsetFramesPerBin
  · refine .loses index rfl ((hcomplete index rfl).mpr ⟨rfl, hover⟩) (fun i => ?_)
      (.inl ⟨rfl, rfl⟩)
    rw [hset]
    split_ifs with hslot
    · rw [hcomplete i hslot]
      omega
    · refine ⟨fun hi => ⟨hi, ?_⟩, And.left⟩
      rintro rfl
      exact hslot rfl
  · refine .same (fun i => ?_) (.inl rfl)
    rw [hset]
    split_ifs with hslot
    · rw [hcomplete i hslot]
      omega
    · rfl

/-- A sample does nothing to the complete bins, completes its bin, or takes a complete bin away. -/
theorem addOnsetSample_effect (hplaced : ring.Placed)
    (hindex : frame / onsetFramesPerBin ≤ uint32Max) :
    SampleEffect ring cache (frame / onsetFramesPerBin)
      (addOnsetSample onsetBinCapacity onsetFramesPerBin none ring cache frame sample).2.1
      (addOnsetSample onsetBinCapacity onsetFramesPerBin none ring cache frame sample).2.2 := by
  have hrepresentable : frame / onsetFramesPerBin ≤ uint64Max / onsetFramesPerBin :=
    hindex.trans (by decide)
  unfold addOnsetSample
  simp only [if_neg (not_lt.mpr hindex), OnsetRing.expectedBinSamples_none hrepresentable]
  generalize frame / onsetFramesPerBin = index at hindex hrepresentable ⊢
  have hfirst : ¬ (0 : ℕ) = uint32Max := by decide
  have hone : ¬ (1 : ℕ) = onsetFramesPerBin := by decide
  cases hold : ring (index % onsetBinCapacity) with
  | none =>
      simp only [zero_add, if_neg hfirst, if_neg hone]
      refine .same (fun i => ?_) (.inl rfl)
      rw [complete_set_single rfl]
      refine ⟨And.left, fun hi => ⟨hi, fun hslot => ?_⟩⟩
      obtain ⟨-, held, hheld, -⟩ := OnsetRing.complete_iff.mp hi
      rw [hslot, hold] at hheld
      cases hheld
  | some old =>
      by_cases hheld : old.binIndex = index
      · simp only [if_pos hheld]
        by_cases hsaturated : old.sampleCount = uint32Max
        · have hset : ring.set (index % onsetBinCapacity) old = ring := by
            funext slot
            unfold OnsetRing.set
            split_ifs with hslot
            · rw [hslot, hold]
            · rfl
          simp only [if_pos hsaturated, hset]
          exact .same (fun i => Iff.rfl) (.inl rfl)
        · simp only [if_neg hsaturated]
          exact .extend hrepresentable hold hheld hheld rfl
      · simp only [if_neg hheld, zero_add, if_neg hfirst, if_neg hone]
        exact .replace hplaced hold hheld rfl

theorem OnsetRing.Placed.set (hplaced : ring.Placed) {bin : OnsetBin} {slot : ℕ}
    (hslot : bin.binIndex % onsetBinCapacity = slot) : (ring.set slot bin).Placed := by
  intro other held hheld
  unfold OnsetRing.set at hheld
  split_ifs at hheld with hother
  · rw [← Option.some.inj hheld, hother]
    exact hslot
  · exact hplaced other held hheld

/-- A sample leaves every bin in its slot. -/
theorem addOnsetSample_placed (hplaced : ring.Placed) (endOfInput : Option ℕ) :
    (addOnsetSample onsetBinCapacity onsetFramesPerBin endOfInput ring cache frame
      sample).2.1.Placed := by
  unfold addOnsetSample
  simp only
  generalize frame / onsetFramesPerBin = index
  by_cases hlimit : uint32Max < index
  · rw [if_pos hlimit]
    exact hplaced
  rw [if_neg hlimit]
  cases hold : ring (index % onsetBinCapacity) with
  | none =>
      simp only
      split_ifs <;> exact hplaced.set rfl
  | some old =>
      by_cases hheld : old.binIndex = index
      · simp only [if_pos hheld]
        split_ifs <;> exact hplaced.set (congrArg (· % onsetBinCapacity) hheld)
      · simp only [if_neg hheld]
        split_ifs <;> exact hplaced.set rfl

end Sample

/-! ## Agreement -/

/-- The kept evidence is what a full scan of the ring finds before the end of input, while it is
trusted. -/
def EvidenceCache.Agrees (cache : EvidenceCache) (ring : OnsetRing) : Prop :=
  cache.valid = true → cache.dirty = false →
    scanEvidence ring onsetBinCapacity onsetFramesPerBin none = some (cache.first, cache.past)

/-- A full scan looks at the index: no number of the predicate is a ring or more above it. -/
def InWindow (P : ℕ → Prop) (index : ℕ) : Prop := ∀ i, P i → i ≤ index + (onsetBinCapacity - 1)

/-- A sample of a bin does nothing to the longest run that the kept evidence does not follow. While the
evidence is trusted, a bin that completes next to the run does not touch another complete bin, and
while none is kept, it is the first complete bin in the window and no two are neighbours. When the
first bin of the run is overwritten, no run before it is as long as the rest and none after it is
longer; when a bin outside it is, the window uncovers no run as long as it. A complete bin of the run
gets no sample. -/
structure Trackable (ring : OnsetRing) (cache : EvidenceCache) (index : ℕ) : Prop where
  appended : ring.Completing index → cache.valid = true → index = cache.past →
    ¬ ring.Complete (index + 1)
  prepended : ring.Completing index → cache.valid = true → index + 1 = cache.first →
    ∀ i, i + 1 = index → ¬ ring.Complete i
  alone : ring.Completing index → cache.valid = false →
    InWindow ring.Complete index ∧
      (∀ i, i < index → InWindow (fun i => ring.Complete i ∨ i = index) i → ¬ ring.Complete i) ∧
      ∀ i, InWindow (fun i => ring.Complete i ∨ i = index) i → ring.Complete i ∨ i = index →
        ¬ (ring.Complete (i + 1) ∨ i + 1 = index)
  beheaded : cache.valid = true → ring.Complete cache.first → cache.first ≠ index →
    cache.first % onsetBinCapacity = index % onsetBinCapacity → cache.first + 1 ≠ cache.past →
    (∀ f p, InWindow ring.Complete f → p ≤ cache.first → Run ring.Complete f p →
      p - f < cache.past - (cache.first + 1)) ∧
    ∀ f p, cache.past ≤ f → Run ring.Complete f p → p - f ≤ cache.past - (cache.first + 1)
  uncovered : cache.valid = true → ∀ lost, lost % onsetBinCapacity = index % onsetBinCapacity →
    ring.Complete lost → lost < cache.first ∨ cache.past ≤ lost →
    ∀ f p, ¬ InWindow ring.Complete f → InWindow (fun i => ring.Complete i ∧ i ≠ lost) f →
      Run (fun i => ring.Complete i ∧ i ≠ lost) f p → p - f < cache.past - cache.first
  untouched : cache.valid = true → ring.Complete index →
    index < cache.first ∨ cache.past ≤ index

section Agreement

variable {ring ring' : OnsetRing} {cache : EvidenceCache} {index : ℕ}

theorem inWindow_iff {P : ℕ → Prop} {maximum : ℕ} (hmax : IsGreatest {i | P i} maximum) (f : ℕ) :
    InWindow P f ↔ maximum - (onsetBinCapacity - 1) ≤ f := by
  constructor
  · intro h
    have hle := h maximum hmax.1
    omega
  · intro h i hi
    have hle := hmax.2 hi
    omega

theorem exists_maximum (h : ring.Complete index) :
    ∃ maximum, IsGreatest {i | ring.Complete i} maximum := by
  have hmax : IsMaximum {i | ring.Complete i}
      (maximumCompleteBin ring onsetBinCapacity onsetFramesPerBin none) :=
    maximumCompleteBin_spec (by decide)
  cases hfound : maximumCompleteBin ring onsetBinCapacity onsetFramesPerBin none with
  | none => exact absurd (hmax.empty hfound ▸ h : index ∈ (∅ : Set ℕ)) (Set.notMem_empty index)
  | some maximum => exact ⟨maximum, hmax.greatest maximum hfound⟩

theorem agrees_iff : cache.Agrees ring ↔ (cache.valid = true → cache.dirty = false →
    ∃ maximum, IsGreatest {i | ring.Complete i} maximum ∧
      FirstLongest ring.Complete (maximum - (onsetBinCapacity - 1)) cache.first cache.past) := by
  unfold EvidenceCache.Agrees
  rw [scanEvidence_eq_some_iff (by decide)]
  rfl

theorem EvidenceCache.Agrees.congr (h : cache.Agrees ring)
    (hbins : ∀ i, ring'.Complete i ↔ ring.Complete i) : cache.Agrees ring' := by
  rw [agrees_iff] at h ⊢
  intro hvalid hclean
  obtain ⟨maximum, hmax, hrun⟩ := h hvalid hclean
  have hset : {i | ring'.Complete i} = {i | ring.Complete i} := Set.ext hbins
  exact ⟨maximum, hset ▸ hmax, hrun.congr hbins⟩

/-- A bin that is not complete may be overwritten. -/
theorem EvidenceCache.Agrees.noteReplaced_eq (h : cache.Agrees ring)
    (hincomplete : ¬ ring.Complete index) : cache.noteReplaced index = cache := by
  unfold EvidenceCache.noteReplaced
  split_ifs with hkept hfirst
  · rfl
  all_goals
    simp only [Bool.or_eq_true, Bool.not_eq_true', decide_eq_true_eq, not_or, Bool.not_eq_false,
      Bool.not_eq_true, not_lt, not_le] at hkept
    obtain ⟨maximum, -, hrun⟩ := agrees_iff.mp h hkept.1.1.1 hkept.1.1.2
    exact absurd (hrun.run index hkept.1.2 hkept.2) hincomplete

section Complete

variable {maximum maximum' first past : ℕ}

/-- The largest complete bin after one more is the same or that one. -/
theorem maximum_complete (hmax : IsGreatest {i | ring.Complete i} maximum)
    (hmax' : IsGreatest {i | ring'.Complete i} maximum')
    (hbins : ∀ i, ring'.Complete i ↔ ring.Complete i ∨ i = index) :
    maximum ≤ maximum' ∧ (maximum' = maximum ∨ maximum' = index) := by
  have hle : maximum ≤ maximum' := hmax'.2 ((hbins maximum).mpr (.inl hmax.1))
  refine ⟨hle, ?_⟩
  rcases (hbins maximum').mp hmax'.1 with hold | hnew
  · exact .inl (le_antisymm (hmax.2 hold) hle)
  · exact .inr hnew

/-- The bin after the run completes. -/
theorem firstLongest_append (hcompleting : ring.Completing index)
    (hbins : ∀ i, ring'.Complete i ↔ ring.Complete i ∨ i = index)
    (hmax : IsGreatest {i | ring.Complete i} maximum)
    (hmax' : IsGreatest {i | ring'.Complete i} maximum')
    (hrun : FirstLongest ring.Complete (maximum - (onsetBinCapacity - 1)) first index)
    (hnext : ¬ ring.Complete (index + 1)) :
    FirstLongest ring'.Complete (maximum' - (onsetBinCapacity - 1)) first (index + 1) := by
  obtain ⟨hle, hor⟩ := maximum_complete hmax hmax' hbins
  have hpos := hrun.nonempty
  have hinside := hrun.inside
  -- The run is shorter than the ring, whose slot for the bin is free.
  have hshort : index - (onsetBinCapacity - 1) ≤ first := by
    by_contra hlong
    have hfull : onsetBinCapacity ≤ index ∧ first ≤ index - onsetBinCapacity := by
      simp only [onsetBinCapacity] at hlong ⊢
      omega
    have hmod : index % onsetBinCapacity = (index - onsetBinCapacity) % onsetBinCapacity :=
      Nat.mod_eq_sub_mod hfull.1
    have hfirst := hrun.run (index - onsetBinCapacity) hfull.2
      (Nat.sub_lt (Nat.zero_lt_of_lt hpos) (by decide))
    exact hcompleting.not_complete hfirst hmod.symm
  have hlower : maximum' - (onsetBinCapacity - 1) ≤ first := by
    rcases hor with rfl | rfl
    · exact hinside
    · exact hshort
  refine hrun.append (Nat.sub_le_sub_right hle _) hlower hbins fun hcomplete => ?_
  rcases (hbins (index + 1)).mp hcomplete with hold | hnew
  · exact hnext hold
  · omega

/-- The bin before the run completes. -/
theorem firstLongest_prepend (hcompleting : ring.Completing index)
    (hbins : ∀ i, ring'.Complete i ↔ ring.Complete i ∨ i = index)
    (hmax : IsGreatest {i | ring.Complete i} maximum)
    (hmax' : IsGreatest {i | ring'.Complete i} maximum')
    (hrun : FirstLongest ring.Complete (maximum - (onsetBinCapacity - 1)) (index + 1) past)
    (hprevious : ∀ i, i + 1 = index → ¬ ring.Complete i) :
    FirstLongest ring'.Complete (maximum' - (onsetBinCapacity - 1)) index past := by
  obtain ⟨hle, hor⟩ := maximum_complete hmax hmax' hbins
  have hpos := hrun.nonempty
  have hinside := hrun.inside
  have hfirst : index + 1 ≤ maximum := hmax.2 (hrun.run (index + 1) le_rfl hpos)
  obtain rfl : maximum' = maximum := by omega
  have hlower : maximum' - (onsetBinCapacity - 1) ≤ index := by
    by_contra hlt
    refine hcompleting.not_complete hmax.1 ?_
    have heq : maximum' = index + onsetBinCapacity := by
      simp only [onsetBinCapacity] at hinside hlt ⊢
      omega
    rw [heq, Nat.add_mod_right]
  refine hrun.prepend hlower hbins fun i hi hcomplete => ?_
  rcases (hbins i).mp hcomplete with hold | hnew
  · exact hprevious i hi hold
  · omega

/-- A bin completes while no run is kept. -/
theorem firstLongest_alone (hbins : ∀ i, ring'.Complete i ↔ ring.Complete i ∨ i = index)
    (hmax' : IsGreatest {i | ring'.Complete i} maximum') (hwindow : InWindow ring.Complete index)
    (hbefore : ∀ i, i < index → InWindow (fun i => ring.Complete i ∨ i = index) i →
      ¬ ring.Complete i)
    (hapart : ∀ i, InWindow (fun i => ring.Complete i ∨ i = index) i →
      ring.Complete i ∨ i = index → ¬ (ring.Complete (i + 1) ∨ i + 1 = index)) :
    FirstLongest ring'.Complete (maximum' - (onsetBinCapacity - 1)) index (index + 1) := by
  have hwindow' (f : ℕ) : InWindow (fun i => ring.Complete i ∨ i = index) f ↔
      maximum' - (onsetBinCapacity - 1) ≤ f := by
    rw [← inWindow_iff hmax']
    simp only [InWindow, hbins]
  refine .single ((hwindow' index).mp ?_) ((hbins index).mpr (.inr rfl)) ?_ ?_
  · rintro i (hi | rfl)
    · exact hwindow i hi
    · exact Nat.le_add_right i _
  · intro i hlo hlt hi
    exact hbefore i hlt ((hwindow' i).mpr hlo) (((hbins i).mp hi).resolve_right hlt.ne)
  · intro i hlo hi hnext
    exact hapart i ((hwindow' i).mpr hlo) ((hbins i).mp hi) ((hbins (i + 1)).mp hnext)

end Complete

/-- A bin completes. -/
theorem EvidenceCache.Agrees.complete (h : cache.Agrees ring) (hcompleting : ring.Completing index)
    (htrack : cache.dirty = false → Trackable ring cache index)
    (hbins : ∀ i, ring'.Complete i ↔ ring.Complete i ∨ i = index) :
    (cache.noteComplete index).Agrees ring' := by
  rw [agrees_iff] at h ⊢
  obtain ⟨maximum', hmax'⟩ := exists_maximum ((hbins index).mpr (.inr rfl))
  cases hdirty : cache.dirty with
  | true =>
      intro _ hclean
      simp [EvidenceCache.noteComplete, hdirty] at hclean
  | false =>
      have htrackable := htrack hdirty
      cases hvalid : cache.valid with
      | false =>
          obtain ⟨hwindow, hbefore, hapart⟩ := htrackable.alone hcompleting hvalid
          intro _ _
          refine ⟨maximum', hmax', ?_⟩
          simp only [EvidenceCache.noteComplete, hdirty, hvalid]
          exact firstLongest_alone hbins hmax' hwindow hbefore hapart
      | true =>
          obtain ⟨maximum, hmax, hrun⟩ := h hvalid hdirty
          unfold EvidenceCache.noteComplete
          rw [hdirty, hvalid]
          simp only [Bool.false_eq_true, if_false, Bool.not_true]
          split_ifs with hnext hprevious houtside
          · subst hnext
            exact fun _ _ => ⟨maximum', hmax', firstLongest_append hcompleting hbins hmax hmax' hrun
              (htrackable.appended hcompleting hvalid rfl)⟩
          · have hprepend := htrackable.prepended hcompleting hvalid hprevious
            rw [← hprevious] at hrun
            exact fun _ _ => ⟨maximum', hmax',
              firstLongest_prepend hcompleting hbins hmax hmax' hrun hprepend⟩
          · exact fun _ hclean => (nomatch hclean)
          · exact absurd (hrun.run index (by omega) (by omega))
              fun hcomplete => hcompleting.not_complete hcomplete rfl

/-- A complete bin outside the run is lost. -/
theorem firstLongest_shrink {lost maximum maximum' first past : ℕ}
    (hbins : ∀ i, ring'.Complete i ↔ ring.Complete i ∧ i ≠ lost)
    (hmax : IsGreatest {i | ring.Complete i} maximum)
    (hmax' : IsGreatest {i | ring'.Complete i} maximum')
    (hrun : FirstLongest ring.Complete (maximum - (onsetBinCapacity - 1)) first past)
    (houtside : lost < first ∨ past ≤ lost)
    (huncovered : ∀ f p, ¬ InWindow ring.Complete f →
      InWindow (fun i => ring.Complete i ∧ i ≠ lost) f →
      Run (fun i => ring.Complete i ∧ i ≠ lost) f p → p - f < past - first) :
    FirstLongest ring'.Complete (maximum' - (onsetBinCapacity - 1)) first past := by
  have hle : maximum' ≤ maximum := hmax.2 ((hbins maximum').mp hmax'.1).1
  refine hrun.shrink (by omega) (fun i hi => ((hbins i).mp hi).1) (fun i hfirst hpast => ?_) ?_
  · exact (hbins i).mpr ⟨hrun.run i hfirst hpast, by omega⟩
  · intro f p hlo hlt hother
    refine huncovered f p ?_ ?_ fun i hfi hip => (hbins i).mp (hother i hfi hip)
    · rw [inWindow_iff hmax]
      exact not_le.mpr hlt
    · have hwindow := (inWindow_iff hmax' f).mpr hlo
      simpa only [InWindow, hbins] using hwindow

/-- A complete bin is lost. -/
theorem EvidenceCache.Agrees.lose (h : cache.Agrees ring) {lost : ℕ}
    (hslot : lost % onsetBinCapacity = index % onsetBinCapacity) (hlost : ring.Complete lost)
    (htrack : cache.dirty = false → Trackable ring cache index)
    (hbins : ∀ i, ring'.Complete i ↔ ring.Complete i ∧ i ≠ lost) {cache' : EvidenceCache}
    (hkept : (lost = index ∧ cache' = cache) ∨
      (lost ≠ index ∧ cache' = cache.noteReplaced lost)) : cache'.Agrees ring' := by
  rw [agrees_iff] at h ⊢
  by_cases htrusted : cache.valid = true ∧ cache.dirty = false
  · obtain ⟨hvalid, hclean⟩ := htrusted
    obtain ⟨maximum, hmax, hrun⟩ := h hvalid hclean
    have htrackable := htrack hclean
    have hoff (houtside : lost < cache.first ∨ cache.past ≤ lost) : ∃ maximum',
        IsGreatest {i | ring'.Complete i} maximum' ∧
        FirstLongest ring'.Complete (maximum' - (onsetBinCapacity - 1)) cache.first cache.past := by
      have hpos := hrun.nonempty
      have hfirst : ring'.Complete cache.first :=
        (hbins cache.first).mpr ⟨hrun.run cache.first le_rfl hpos, by omega⟩
      obtain ⟨maximum', hmax'⟩ := exists_maximum hfirst
      exact ⟨maximum', hmax', firstLongest_shrink hbins hmax hmax' hrun houtside
        (htrackable.uncovered hvalid lost hslot hlost houtside)⟩
    rcases hkept with ⟨rfl, rfl⟩ | ⟨hne, rfl⟩
    · exact fun _ _ => hoff (htrackable.untouched hvalid hlost)
    unfold EvidenceCache.noteReplaced
    split_ifs with hstays hfirst hempty
    · rw [hvalid, hclean] at hstays
      refine fun _ _ => hoff ?_
      simpa using hstays
    · exact fun hinvalid => (nomatch hinvalid)
    · subst hfirst
      intro _ _
      obtain ⟨hearlier, hlater⟩ := htrackable.beheaded hvalid hlost hne hslot hempty
      have hpos := hrun.nonempty
      have hlast : cache.past - 1 ≤ maximum := hmax.2 (hrun.run (cache.past - 1) (by omega) (by omega))
      have hmax' : IsGreatest {i | ring'.Complete i} maximum := by
        refine ⟨(hbins maximum).mpr ⟨hmax.1, by omega⟩, fun i hi => ?_⟩
        exact hmax.2 ((hbins i).mp hi).1
      refine ⟨maximum, hmax', hrun.behead (by omega) hbins (fun f p hlo hp hother => ?_) hlater⟩
      exact hearlier f p ((inWindow_iff hmax f).mpr hlo) hp hother
    · exact fun _ hclean => (nomatch hclean)
  · -- What is not trusted is not touched.
    have hsame : cache' = cache := by
      rcases hkept with ⟨-, rfl⟩ | ⟨-, rfl⟩
      · rfl
      · unfold EvidenceCache.noteReplaced
        rw [if_pos]
        cases hvalid : cache.valid with
        | false => rfl
        | true =>
            have hdirty : cache.dirty = true :=
              Bool.of_not_eq_false fun hclean => htrusted ⟨hvalid, hclean⟩
            simp [hdirty]
    rw [hsame]
    exact fun hvalid hclean => absurd ⟨hvalid, hclean⟩ htrusted

/-- A sample that the kept evidence follows. -/
theorem addOnsetSample_agrees {frame : ℕ} {sample : ℚ} (hplaced : ring.Placed)
    (h : cache.Agrees ring) (htrack : frame / onsetFramesPerBin ≤ uint32Max →
      cache.dirty = false → Trackable ring cache (frame / onsetFramesPerBin)) :
    (addOnsetSample onsetBinCapacity onsetFramesPerBin none ring cache frame sample).2.2.Agrees
      (addOnsetSample onsetBinCapacity onsetFramesPerBin none ring cache frame sample).2.1 := by
  by_cases hindex : frame / onsetFramesPerBin ≤ uint32Max
  · have heffect := @addOnsetSample_effect ring cache frame sample hplaced hindex
    generalize addOnsetSample onsetBinCapacity onsetFramesPerBin none ring cache frame sample =
      after at heffect ⊢
    cases heffect with
    | same hbins hkept =>
        have hsame : after.2.2 = cache := by
          rcases hkept with heq | ⟨replaced, hincomplete, heq⟩
          · exact heq
          · rw [heq, h.noteReplaced_eq hincomplete]
        rw [hsame]
        exact h.congr hbins
    | completes hcompleting hbins hkept =>
        rw [hkept]
        exact h.complete hcompleting (htrack hindex) hbins
    | loses lost hslot hlost hbins hkept => exact h.lose hslot hlost (htrack hindex) hbins hkept
  · have hrejected : addOnsetSample onsetBinCapacity onsetFramesPerBin none ring cache frame sample =
        (.error .limitExceeded, ring, cache) := if_pos (not_le.mp hindex)
    rw [hrejected]
    exact h

end Agreement

namespace S4State

/-! ## Runs -/

/-- Two estimators hold the same bins and keep the same evidence. -/
structure SameEvidence (s s' : S4State) : Prop where
  ring : s'.ring = s.ring
  evidence : s'.evidence = s.evidence

theorem cacheDerived_sameEvidence (ctx : AnalysisContext) (bounds : ℕ × ℕ) (s : S4State) :
    SameEvidence s (cacheDerived ctx bounds s) := by
  unfold cacheDerived
  split <;> exact ⟨rfl, rfl⟩

theorem commitEstimate_sameEvidence (ctx : AnalysisContext) (input : EstimateInput) (s : S4State) :
    SameEvidence s (commitEstimate ctx input s).2 := by
  unfold commitEstimate
  split
  · exact ⟨rfl, rfl⟩
  · simp only
    split_ifs <;> exact ⟨rfl, rfl⟩

theorem estimateReady_sameEvidence (ctx : AnalysisContext) (run : ℕ × ℕ)
    (bounds : Option (ℕ × ℕ)) (s : S4State) :
    SameEvidence s (estimateReady ctx run bounds s).2.2 := by
  rw [(estimateReady_eq ctx run bounds s).2]
  split_ifs
  · exact ⟨rfl, rfl⟩
  · obtain ⟨hring, hevidence⟩ := commitEstimate_sameEvidence ctx
      ((s.withFigures ctx bounds).cachedInput run) (s.withFigures ctx bounds)
    have hfigures : SameEvidence s (s.withFigures ctx bounds) := by
      unfold withFigures
      split
      · exact cacheDerived_sameEvidence ctx _ s
      · exact ⟨rfl, rfl⟩
    exact ⟨hring.trans hfigures.ring, hevidence.trans hfigures.evidence⟩

/-- The bins are in their slots, and the kept evidence agrees with a full scan. -/
structure Tracks (s : S4State) : Prop where
  placed : s.ring.Placed
  agrees : s.evidence.Agrees s.ring

variable {setting : EstimatorSetting} {s s' : S4State} {action : S4Action}

theorem Tracks.congr (h : Tracks s) (hsame : SameEvidence s s') : Tracks s' where
  placed := hsame.ring ▸ h.placed
  agrees := hsame.ring ▸ hsame.evidence ▸ h.agrees

/-- A full scan agrees with itself. -/
theorem Tracks.findEvidence (h : Tracks s) : Tracks (s.findEvidence none).2 := by
  refine ⟨h.placed, ?_⟩
  show (LibApta.findEvidence onsetBinCapacity onsetFramesPerBin none s.ring s.evidence).2.Agrees
    s.ring
  unfold LibApta.findEvidence
  split_ifs with htrusted
  · exact h.agrees
  · split
    · exact fun hvalid _ => (nomatch hvalid)
    · next run hscan => exact fun _ _ => hscan

theorem Tracks.of_findEvidence {found : Option (ℕ × ℕ)}
    (heq : s.findEvidence none = (found, s')) (h : Tracks s) : Tracks s' := by
  have hfound := h.findEvidence
  rwa [heq] at hfound

theorem Tracks.finishSweep (h : Tracks s) {ctx : AnalysisContext} (hopen : ctx.endOfInput = none)
    (sweep : LagSweep) : Tracks (S4State.finishSweep ctx sweep s) := by
  unfold S4State.finishSweep
  simp only [hopen]
  split
  · next current t heq =>
      have ht : Tracks t := by
        refine Tracks.of_findEvidence heq ?_
        exact h.congr ⟨rfl, rfl⟩
      split_ifs
      · exact ht.congr ⟨rfl, rfl⟩
      · exact ht
  · next t heq =>
      refine Tracks.of_findEvidence heq ?_
      exact h.congr ⟨rfl, rfl⟩

/-- Before the end of input, the samples are trackable. -/
def Follows : S4Action → S4State → Prop
  | .sample endOfInput frame _, s => endOfInput = none ∧
      (s.binsAllocated = true → frame / onsetFramesPerBin ≤ uint32Max → s.evidence.dirty = false →
        Trackable s.ring s.evidence (frame / onsetFramesPerBin))
  | .scan endOfInput, _ => endOfInput = none
  | .finish view, _ => view.endOfInput = none
  | _, _ => True

/-- One action. -/
theorem act_tracks (h : Tracks s) (hfollows : Follows action s)
    (hact : act setting action s = some s') : Tracks s' := by
  cases action with
  | sample endOfInput frame sample =>
      obtain ⟨rfl, htrack⟩ := hfollows
      rw [← Option.some.inj hact]
      unfold processSample
      split_ifs with hallocated
      · exact h
      · refine ⟨addOnsetSample_placed h.placed none, addOnsetSample_agrees h.placed h.agrees ?_⟩
        exact htrack (by simpa using hallocated)
  | scan endOfInput =>
      obtain rfl : endOfInput = none := hfollows
      rw [← Option.some.inj hact]
      exact h.findEvidence
  | finish view =>
      simp only [act] at hact
      split at hact
      · cases hact
      · split_ifs at hact
        have hopen : (setting.context view).endOfInput = none := hfollows
        rw [← Option.some.inj hact]
        exact (h.finishSweep hopen _).congr (estimateReady_sameEvidence _ _ _ _)
  | reuse view run =>
      rw [act] at hact
      split_ifs at hact
      rw [← Option.some.inj hact]
      exact h.congr (estimateReady_sameEvidence _ _ _ _)
  | start run =>
      rw [act] at hact
      split_ifs at hact
      obtain ⟨bounds, -, rfl⟩ := Option.map_eq_some_iff.mp hact
      exact h.congr ⟨rfl, rfl⟩
  | batch view =>
      simp only [act] at hact
      split at hact
      · cases hact
      · split_ifs at hact
        rw [← Option.some.inj hact]
        exact h.congr ⟨rfl, rfl⟩
  | drop view =>
      rw [act] at hact
      split_ifs at hact
      rw [← Option.some.inj hact]
      unfold refreshLocked
      simp only
      split
      · split_ifs <;> exact h.congr ⟨rfl, rfl⟩
      · exact h.congr ⟨rfl, rfl⟩
  | rerange | lock | revise =>
      rw [act] at hact
      split_ifs at hact
      rw [← Option.some.inj hact]
      exact h.congr ⟨rfl, rfl⟩
  | _ =>
      rw [← Option.some.inj hact]
      exact h.congr ⟨rfl, rfl⟩

/-- In every run whose samples are trackable, the kept evidence is what a full scan finds, as long as it
is trusted. -/
theorem evidence_tracks {actions : List S4Action}
    (hfollows : Runs.Guarded (act setting) Follows actions .initial)
    (hacts : acts setting actions .initial = some s) (hvalid : s.evidence.valid = true)
    (hclean : s.evidence.dirty = false) :
    scanEvidence s.ring onsetBinCapacity onsetFramesPerBin none =
      some (s.evidence.first, s.evidence.past) := by
  have hinitial : Tracks .initial :=
    ⟨fun _ _ hbin => (nomatch hbin), fun hvalid => (nomatch hvalid)⟩
  have htracks : Tracks s := Runs.invariant (fun _ _ _ h hguard hact => act_tracks h hguard hact)
    hinitial hfollows hacts
  exact htracks.agrees hvalid hclean

/-! ### Whole bins -/

/-- An estimator after the first samples of a bin that was not there, all of them silent. -/
def filling (index count : ℕ) (s : S4State) : S4State :=
  { s with
    ring :=
      if count = 0 then s.ring
      else s.ring.set (index % onsetBinCapacity) ⟨index, count * scaledMagnitude 32768 0, count⟩
    evidence :=
      if count = onsetFramesPerBin then s.evidence.noteComplete index else s.evidence }

/-- The samples of a bin from one on, all of them silent. -/
def binSamples (index first count : ℕ) : List S4Action :=
  (List.range' first count).map fun i => .sample none (index * onsetFramesPerBin + i) 0

section Filling

variable {index count : ℕ}

theorem act_filling (hallocated : s.binsAllocated = true) (hindex : index ≤ uint32Max)
    (hslot : s.ring (index % onsetBinCapacity) = none) (hcount : count < onsetFramesPerBin) :
    act setting (.sample none (index * onsetFramesPerBin + count) 0) (filling index count s) =
      some (filling index (count + 1) s) := by
  have hframe : (index * onsetFramesPerBin + count) / onsetFramesPerBin = index := by
    rw [Nat.mul_comm, Nat.mul_add_div (by decide), Nat.div_eq_of_lt hcount, Nat.add_zero]
  have hexpected : expectedBinSamples onsetFramesPerBin none index = onsetFramesPerBin :=
    OnsetRing.expectedBinSamples_none (hindex.trans (by decide))
  have hopen : count ≠ uint32Max := (hcount.trans (by decide)).ne
  simp only [act, processSample, filling, hallocated, Bool.not_true, Bool.false_eq_true, if_false,
    addOnsetSample, hframe, if_neg (not_lt.mpr hindex), hexpected, if_neg hcount.ne]
  rcases Nat.eq_zero_or_pos count with rfl | hpos
  · simp [hslot]
  · have hset (bin bin' : OnsetBin) : (s.ring.set (index % onsetBinCapacity) bin).set
        (index % onsetBinCapacity) bin' = s.ring.set (index % onsetBinCapacity) bin' := by
      funext slot
      unfold OnsetRing.set
      split_ifs <;> rfl
    have hheld (bin : OnsetBin) : s.ring.set (index % onsetBinCapacity) bin
        (index % onsetBinCapacity) = some bin := if_pos rfl
    simp [hpos.ne', hheld, hopen, hset, Nat.succ_mul]

theorem acts_filling (hallocated : s.binsAllocated = true) (hindex : index ≤ uint32Max)
    (hslot : s.ring (index % onsetBinCapacity) = none) (more : ℕ)
    (hmore : count + more ≤ onsetFramesPerBin) :
    acts setting (binSamples index count more) (filling index count s) =
      some (filling index (count + more) s) := by
  induction more generalizing count with
  | zero => rfl
  | succ more ih =>
      have hnext := ih (by omega : count + 1 + more ≤ onsetFramesPerBin)
      unfold binSamples at hnext ⊢
      rw [List.range'_succ, List.map_cons, acts, Runs.run_cons,
        act_filling hallocated hindex hslot (by omega)]
      rw [show count + (more + 1) = count + 1 + more by omega]
      exact hnext

/-- All samples of a bin complete it. -/
theorem acts_binSamples (hallocated : s.binsAllocated = true) (hindex : index ≤ uint32Max)
    (hslot : s.ring (index % onsetBinCapacity) = none) :
    acts setting (binSamples index 0 onsetFramesPerBin) s =
      some { s with
        ring := s.ring.set (index % onsetBinCapacity)
          ⟨index, onsetFramesPerBin * scaledMagnitude 32768 0, onsetFramesPerBin⟩
        evidence := s.evidence.noteComplete index } := by
  have hfilled := @acts_filling setting s index 0 hallocated hindex hslot onsetFramesPerBin (by omega)
  have hstart : filling index 0 s = s := by simp [filling]
  rw [hstart] at hfilled
  rw [hfilled]
  simp [filling]

/-- The first bin of all is trackable. -/
theorem guarded_filling (hallocated : s.binsAllocated = true) (hindex : index ≤ uint32Max)
    (hempty : ∀ slot, s.ring slot = none) (hnone : s.evidence.valid = false) (more : ℕ)
    (hmore : count + more ≤ onsetFramesPerBin) :
    Runs.Guarded (act setting) Follows (binSamples index count more) (filling index count s) := by
  induction more generalizing count with
  | zero => trivial
  | succ more ih =>
      have hcount : count < onsetFramesPerBin := by omega
      have hincomplete (i : ℕ) : ¬ (filling index count s).ring.Complete i := by
        intro hcomplete
        obtain ⟨-, bin, hbin, -, hfull⟩ := OnsetRing.complete_iff.mp hcomplete
        by_cases hzero : count = 0
        · simp [filling, hzero, hempty] at hbin
        · simp only [filling, if_neg hzero, OnsetRing.set] at hbin
          split_ifs at hbin
          · rw [← Option.some.inj hbin] at hfull
            exact hcount.ne hfull
          · simp [hempty] at hbin
      have hinvalid : (filling index count s).evidence.valid = false := by
        simp [filling, hcount.ne, hnone]
      have hframe : (index * onsetFramesPerBin + count) / onsetFramesPerBin = index := by
        rw [Nat.mul_comm, Nat.mul_add_div (by decide), Nat.div_eq_of_lt hcount, Nat.add_zero]
      have hnext := ih (by omega : count + 1 + more ≤ onsetFramesPerBin)
      unfold binSamples at hnext ⊢
      rw [List.range'_succ, List.map_cons]
      refine ⟨⟨rfl, fun _ _ _ => ?_⟩, fun s' hact => ?_⟩
      · rw [hframe]
        refine ⟨?_, ?_, fun _ _ => ⟨?_, ?_, ?_⟩, ?_, ?_, ?_⟩
        · exact fun _ hvalid => absurd hvalid (by simp [hinvalid])
        · exact fun _ hvalid => absurd hvalid (by simp [hinvalid])
        · exact fun i hi => absurd hi (hincomplete i)
        · exact fun i _ _ => hincomplete i
        · rintro i - (hi | rfl) (hi' | hsame)
          · exact hincomplete i hi
          · exact hincomplete i hi
          · exact hincomplete _ hi'
          · omega
        · exact fun hvalid => absurd hvalid (by simp [hinvalid])
        · exact fun hvalid => absurd hvalid (by simp [hinvalid])
        · exact fun hvalid => absurd hvalid (by simp [hinvalid])
      · rw [act_filling hallocated hindex (hempty _) hcount] at hact
        rw [← Option.some.inj hact]
        exact hnext

end Filling

/-! ### Bins in and out of order -/

/-- A setting of which no sample reads anything. -/
def plainSetting : EstimatorSetting := ⟨⟨id, id⟩, 44100, ∅⟩

/-- An estimator that has its arrays and nothing in them. -/
def allocated : S4State := { S4State.initial with binsAllocated := true, fluxAllocated := true }

theorem acts_cons {rest : List S4Action} (h : act setting action s = some s') :
    acts setting (action :: rest) s = acts setting rest s' := by
  rw [acts, Runs.run_cons, h]
  rfl

theorem acts_append {first second : List S4Action} (h : acts setting first s = some s') :
    acts setting (first ++ second) s = acts setting second s' := by
  rw [acts, Runs.run_append, show Runs.run (act setting) first s = some s' from h]
  rfl

/-- The first bin, delivered whole. -/
theorem evidence_tracks_one : ∃ s, acts plainSetting
      (.allocate true true :: binSamples 0 0 onsetFramesPerBin) .initial = some s ∧
    s.evidence = ⟨0, 1, true, false⟩ ∧
    scanEvidence s.ring onsetBinCapacity onsetFramesPerBin none = some (0, 1) := by
  have hacts : acts plainSetting (.allocate true true :: binSamples 0 0 onsetFramesPerBin) .initial =
      some { allocated with
        ring := allocated.ring.set (0 % onsetBinCapacity)
          ⟨0, onsetFramesPerBin * scaledMagnitude 32768 0, onsetFramesPerBin⟩
        evidence := allocated.evidence.noteComplete 0 } := by
    rw [acts_cons (show act plainSetting (.allocate true true) .initial = some allocated from rfl)]
    exact acts_binSamples rfl (Nat.zero_le _) rfl
  have hfilling : filling 0 0 allocated = allocated := by simp [filling]
  have hguarded : Runs.Guarded (act plainSetting) Follows
      (.allocate true true :: binSamples 0 0 onsetFramesPerBin) .initial := by
    refine ⟨trivial, fun s' hact => ?_⟩
    rw [← show allocated = s' from Option.some.inj hact, ← hfilling]
    exact guarded_filling (s := allocated) rfl (Nat.zero_le _) (fun _ => rfl) rfl onsetFramesPerBin
      (by omega)
  exact ⟨_, hacts, rfl, evidence_tracks hguarded hacts rfl rfl⟩

/-- A bin in an empty slot, with all its samples. -/
theorem complete_set_filled {ring : OnsetRing} {index sum : ℕ} (hindex : index ≤ uint32Max)
    (hslot : ring (index % onsetBinCapacity) = none) (i : ℕ) :
    (ring.set (index % onsetBinCapacity) ⟨index, sum, onsetFramesPerBin⟩).Complete i ↔
      ring.Complete i ∨ i = index := by
  rw [OnsetRing.complete_set_iff]
  split_ifs with hsame
  · have hnone : ¬ ring.Complete i := by
      intro hcomplete
      obtain ⟨-, bin, hbin, -⟩ := OnsetRing.complete_iff.mp hcomplete
      rw [hsame, hslot] at hbin
      cases hbin
    constructor
    · rintro ⟨-, rfl, -⟩
      exact .inr rfl
    · rintro (hcomplete | rfl)
      · exact absurd hcomplete hnone
      · exact ⟨hindex.trans (by decide), rfl, rfl⟩
  · refine ⟨.inl, fun hi => hi.resolve_right ?_⟩
    rintro rfl
    exact hsame rfl

/-- The samples of four bins, the third of them after a scan of the others. -/
def gapActions : List S4Action :=
  .allocate true true :: (binSamples 0 0 onsetFramesPerBin ++ binSamples 1 0 onsetFramesPerBin ++
    binSamples 3 0 onsetFramesPerBin ++ [.scan none] ++ binSamples 2 0 onsetFramesPerBin)

/-- A ring that was filled bin by bin, the last one first. -/
def filled : List ℕ → OnsetRing
  | [] => fun _ => none
  | index :: rest => (filled rest).set (index % onsetBinCapacity)
      ⟨index, onsetFramesPerBin * scaledMagnitude 32768 0, onsetFramesPerBin⟩

theorem filled_eq_none {indices : List ℕ} {slot : ℕ}
    (h : ∀ index ∈ indices, slot ≠ index % onsetBinCapacity) : filled indices slot = none := by
  induction indices with
  | nil => rfl
  | cons index rest ih =>
      obtain ⟨hne, hrest⟩ := List.forall_mem_cons.mp h
      rw [filled, OnsetRing.set, if_neg hne]
      exact ih hrest

theorem complete_filled {indices : List ℕ} (hindices : ∀ index ∈ indices, index ≤ uint32Max)
    (hslots : indices.Pairwise fun a b => a % onsetBinCapacity ≠ b % onsetBinCapacity) (i : ℕ) :
    (filled indices).Complete i ↔ i ∈ indices := by
  induction indices with
  | nil =>
      refine ⟨fun hcomplete => ?_, (nomatch ·)⟩
      obtain ⟨-, bin, hbin, -⟩ := OnsetRing.complete_iff.mp hcomplete
      cases hbin
  | cons index rest ih =>
      obtain ⟨hindex, hrest⟩ := List.forall_mem_cons.mp hindices
      obtain ⟨hslot, hpairwise⟩ := List.pairwise_cons.mp hslots
      rw [filled, complete_set_filled hindex (filled_eq_none hslot), ih hrest hpairwise,
        List.mem_cons, or_comm]

/-- Before the gap is filled the first two bins are the longest run. -/
theorem scanEvidence_gap :
    scanEvidence (filled [3, 1, 0]) onsetBinCapacity onsetFramesPerBin none = some (0, 2) := by
  have hbins (i : ℕ) : (filled [3, 1, 0]).Complete i ↔ i = 3 ∨ i = 1 ∨ i = 0 := by
    rw [complete_filled (by decide) (by decide)]
    simp
  refine (scanEvidence_eq_some_iff (by decide)).mpr
    ⟨3, ⟨(hbins 3).mpr (.inl rfl), fun i hi => ?_⟩, ?_⟩
  · have hmem := (hbins i).mp hi
    omega
  · refine FirstLongest.congr (P := fun i => i = 3 ∨ i = 1 ∨ i = 0) ?_ hbins
    refine ⟨by omega, by decide, fun i _ hi => by omega, fun f p _ hrun => ?_⟩
    have hmember (i : ℕ) (hfi : f ≤ i) (hip : i < p) : i = 3 ∨ i = 1 ∨ i = 0 := hrun i hfi hip
    by_cases hlong : f + 1 < p
    · have hfirst := hmember f le_rfl (by omega)
      have hsecond := hmember (f + 1) (by omega) hlong
      by_cases hlonger : f + 2 < p
      · have hthird := hmember (f + 2) (by omega) hlonger
        omega
      · omega
    · omega

/-- The bin that fills the gap makes it one run of four. -/
theorem scanEvidence_gap_filled :
    scanEvidence (filled [2, 3, 1, 0]) onsetBinCapacity onsetFramesPerBin none = some (0, 4) := by
  have hbins (i : ℕ) : (filled [2, 3, 1, 0]).Complete i ↔ i < 4 := by
    rw [complete_filled (by decide) (by decide)]
    simp only [List.mem_cons, List.not_mem_nil, or_false]
    omega
  refine (scanEvidence_eq_some_iff (by decide)).mpr
    ⟨3, ⟨(hbins 3).mpr (by decide), fun i hi => ?_⟩, ?_⟩
  · have hmem := (hbins i).mp hi
    omega
  · refine FirstLongest.congr (P := fun i => i < 4) ?_ hbins
    refine ⟨by omega, by decide, fun i _ hi => hi, fun f p _ hrun => ?_⟩
    by_cases hempty : p ≤ f
    · omega
    · have hlast : p - 1 < 4 := hrun (p - 1) (by omega) (by omega)
      omega

/-- The bin that fills a gap joins the run to the one behind it, which the kept evidence leaves out. -/
theorem evidence_gap_filled : ∃ s, acts plainSetting gapActions .initial = some s ∧
    s.evidence = ⟨0, 3, true, false⟩ ∧
    scanEvidence s.ring onsetBinCapacity onsetFramesPerBin none = some (0, 4) := by
  let kept (indices : List ℕ) (evidence : EvidenceCache) : S4State :=
    { allocated with ring := filled indices, evidence := evidence }
  have hbin (indices : List ℕ) (index : ℕ) (before after : EvidenceCache)
      (hindex : index ≤ uint32Max)
      (hslot : ∀ other ∈ indices, index % onsetBinCapacity ≠ other % onsetBinCapacity)
      (hafter : before.noteComplete index = after) :
      acts plainSetting (binSamples index 0 onsetFramesPerBin) (kept indices before) =
        some (kept (index :: indices) after) := by
    rw [← hafter]
    exact acts_binSamples rfl hindex (filled_eq_none hslot)
  have hscan : acts plainSetting [.scan none] (kept [3, 1, 0] ⟨0, 2, true, true⟩) =
      some (kept [3, 1, 0] ⟨0, 2, true, false⟩) := by
    simp [kept, acts, Runs.run_cons, act, S4State.findEvidence, LibApta.findEvidence,
      scanEvidence_gap]
  refine ⟨kept [2, 3, 1, 0] ⟨0, 3, true, false⟩, ?_, rfl, scanEvidence_gap_filled⟩
  unfold gapActions
  have hstart : act plainSetting (.allocate true true) .initial =
      some (kept [] ⟨0, 0, false, false⟩) := rfl
  rw [acts_cons hstart, List.append_assoc, List.append_assoc, List.append_assoc,
    acts_append (hbin [] 0 _ ⟨0, 1, true, false⟩ (by decide) (by decide) rfl),
    acts_append (hbin [0] 1 _ ⟨0, 2, true, false⟩ (by decide) (by decide) rfl),
    acts_append (hbin [1, 0] 3 _ ⟨0, 2, true, true⟩ (by decide) (by decide) rfl),
    acts_append hscan]
  exact hbin [3, 1, 0] 2 _ _ (by decide) (by decide) rfl

end S4State

end LibApta
