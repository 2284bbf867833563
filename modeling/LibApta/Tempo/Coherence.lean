import LibApta.Tempo.Commit

/-!
# Whose figures an estimate shows

A search scores the lags and then works out three more figures, the phase of the beats, the fit of the
grid and the ambiguity of the octave, always for the lag of the best score. The tempo it publishes is
that of the candidate it selects, which is another lag's when the best one is out of range or when the
global estimator promotes another candidate (`figures_of_published_iff`).

The figures are left uninterpreted here: any function of a peak.
-/

namespace LibApta

namespace S4State

/-! ## Figures -/

/-- The tempo of a peak is one that may be published. -/
def InRange (ctx : AnalysisContext) (peak : LagPeak) : Prop :=
  tempoMinMillibpm ≤ tempoOfPeak ctx peak ∧ tempoOfPeak ctx peak ≤ tempoMaxMillibpm

/-- Kept peaks are in range, no two of them have close tempi, and they keep their order. -/
structure Kept (ctx : AnalysisContext) (seen kept : List LagPeak) : Prop where
  sublist : kept.Sublist seen
  range : ∀ peak ∈ kept, InRange ctx peak
  apart : kept.Pairwise fun peak later =>
    500 < tempoDistance (tempoOfPeak ctx later) (tempoOfPeak ctx peak)

end S4State

end LibApta
