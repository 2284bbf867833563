import Mathlib.Data.Set.Basic
import LibApta.Tempo.Generation

/-!
# What a pass commits

A pass selects from the lags of the last search, its own or an earlier one, and commits the selection
over the evidence as it is now. The tempo, the candidates and the flags come from the lags alone. The
confidence also counts the evidence, and the anchor of the grid is placed from where the evidence
starts.
-/

namespace LibApta

namespace S4State

/-- The input of a commit over a run of evidence, from the figures of the last search. -/
def cachedInput (s : S4State) (run : ℕ × ℕ) : EstimateInput :=
  ⟨run, s.cachedPeaks, s.cachedPhase, s.cachedAmbiguity, s.cachedGridFit⟩

variable {setting : EstimatorSetting} {view : SessionView} {selected : TempoCandidate}
  {others : List TempoCandidate} {endorsedFlag : ℕ} {s s' : S4State} {run : ℕ × ℕ}

/-- The figures of a search that has just ended, or those of the last one. -/
def withFigures (ctx : AnalysisContext) (bounds : Option (ℕ × ℕ)) (s : S4State) : S4State :=
  match bounds with
  | some bounds => cacheDerived ctx bounds s
  | none => s

/-- A pass has nothing to publish without candidates, and else commits its lags. -/
theorem estimateReady_eq (ctx : AnalysisContext) (run : ℕ × ℕ) (bounds : Option (ℕ × ℕ))
    (s : S4State) :
    (estimateReady ctx run bounds s).1 =
        (if buildCandidates ctx s.cachedPeaks = [] then .ok
        else (commitEstimate ctx ((s.withFigures ctx bounds).cachedInput run)
          (s.withFigures ctx bounds)).1) ∧
      (estimateReady ctx run bounds s).2.2 =
        if buildCandidates ctx s.cachedPeaks = [] then s
        else (commitEstimate ctx ((s.withFigures ctx bounds).cachedInput run)
          (s.withFigures ctx bounds)).2 := by
  unfold estimateReady
  split_ifs
  · exact ⟨rfl, rfl⟩
  · simp only
    split
    · next heq => exact ⟨(congrArg Prod.fst heq).symm, (congrArg Prod.snd heq).symm⟩
    · next heq => exact ⟨(congrArg Prod.fst heq).symm, (congrArg Prod.snd heq).symm⟩

end S4State

end LibApta
