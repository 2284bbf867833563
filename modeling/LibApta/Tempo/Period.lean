import LibApta.Core.Environment

/-!
# Periodicity of a novelty curve

The arithmetic both estimators share: normalised autocorrelation of a slice of onset flux at an
integer lag, refinement of a lag below one bin by correlating across several beats, the log-normal
tempo prior, and the table of metrical relations between two tempi. Every intermediate value is a
`float`.
-/

namespace LibApta

/-! ## Correlation -/

/-- The three running sums of a correlation: the products and the two energies. -/
structure CorrelationSums where
  numerator : ℚ
  leftSquare : ℚ
  rightSquare : ℚ

/-- Account for one pair of flux values. -/
def CorrelationSums.add (sums : CorrelationSums) (pair : ℚ × ℚ) : CorrelationSums where
  numerator := fadd sums.numerator (fmul pair.1 pair.2)
  leftSquare := fadd sums.leftSquare (fmul pair.1 pair.1)
  rightSquare := fadd sums.rightSquare (fmul pair.2 pair.2)

/-- The smallest energy a correlation is normalised by. -/
def minimumEnergy : ℚ := f32 (1 / 1000000000000)

/-- Normalised autocorrelation of a flux slice at a lag. -/
def correlationAtLag (flux : List ℚ) (lag : ℕ) : ℚ :=
  if lag = 0 ∨ flux.length ≤ lag then 0
  else
    let sums := ((flux.drop lag).zip flux).foldl CorrelationSums.add ⟨0, 0, 0⟩
    if sums.leftSquare ≤ minimumEnergy ∨ sums.rightSquare ≤ minimumEnergy then 0
    else fdiv sums.numerator (fsqrt (fmul sums.leftSquare sums.rightSquare))

/-! ## Sub-bin refinement -/

/-- The number of beats to measure across: as many as half the evidence can spare. -/
def refineMultiple (span lag : ℕ) : ℕ → ℕ
  | 0 => 0
  | multiple + 1 =>
      if 1 < multiple + 1 ∧ span / 2 < (multiple + 1) * lag then refineMultiple span lag multiple
      else multiple + 1

/-- The lag near `multiple * lag` of the best positive correlation, with its score. -/
def bestExtendedLag (flux : List ℚ) (lag multiple : ℕ) : ℚ × ℕ :=
  (List.range (2 * (multiple / 2) + 1)).foldl (fun best step =>
    let extended := multiple * lag - multiple / 2 + step
    if extended = 0 ∨ flux.length ≤ extended then best
    else if best.1 < correlationAtLag flux extended then (correlationAtLag flux extended, extended)
    else best) (0, multiple * lag)

/-- Offset of the beat period from an integer lag, in bins, within half a bin. -/
def refineLag (flux : List ℚ) (lag maxBeats : ℕ) : ℚ :=
  if lag = 0 ∨ flux.length = 0 then 0
  else
    let multiple := refineMultiple flux.length lag maxBeats
    if multiple < 2 then 0
    else
      let best := bestExtendedLag flux lag multiple
      if best.1 ≤ 0 then 0
      else
        let offset := fsub (fdiv (f32 best.2) (f32 multiple)) (f32 lag)
        if 1 / 2 < offset then 1 / 2 else if offset < -(1 / 2) then -(1 / 2) else offset

/-- Tempo at a fractional lag, from the tempo at the integer lag. -/
def tempoWithOffset (tempo lag : ℕ) (offset : ℚ) : ℕ :=
  if tempo = 0 ∨ lag = 0 ∨ offset = 0 then tempo
  else
    let refined := fdiv (fmul (f32 tempo) (f32 lag)) (fadd (f32 lag) offset)
    if refined ≤ 0 then tempo else truncate (fadd refined (1 / 2))

/-! ## Tempo prior and metrical relations -/

/-- Log-normal weight of a tempo, centred on 125 BPM. -/
def tempoPrior (libm : Libm) (tempoMillibpm : ℕ) : ℚ :=
  if tempoMillibpm = 0 then 0
  else
    let ratio := fdiv (f32 tempoMillibpm) (f32 125000)
    let logarithm := fdiv (libm.logf ratio) (f32 (55 / 100))
    libm.expf (fmul (fmul (-(1 / 2)) logarithm) logarithm)

/-- Relation of a candidate tempo to the selected one. -/
inductive TempoRelation where
  | independent
  | half
  | double
  | threeHalf
  | twoThirds
  | third
  | triple
  | quarter
  | quadruple
deriving DecidableEq

/-- The serialised value of a relation. -/
def TempoRelation.code : TempoRelation → ℕ
  | .independent => 0
  | .half => 1
  | .double => 2
  | .threeHalf => 3
  | .twoThirds => 4
  | .third => 5
  | .triple => 6
  | .quarter => 7
  | .quadruple => 8

/-- A metrical ratio and its name. -/
structure TempoRatio where
  numerator : ℕ
  denominator : ℕ
  relation : TempoRelation

/-- The metrical ratios, reciprocal pairs adjacent. -/
def tempoRatios : List TempoRatio :=
  [⟨3, 2, .threeHalf⟩, ⟨2, 3, .twoThirds⟩, ⟨2, 1, .double⟩, ⟨1, 2, .half⟩,
    ⟨3, 1, .triple⟩, ⟨1, 3, .third⟩, ⟨4, 1, .quadruple⟩, ⟨1, 4, .quarter⟩]

/-- The distance of two tempi. -/
def tempoDistance (left right : ℕ) : ℕ := if right < left then left - right else right - left

/-- The relation of a candidate to the selected tempo: the first ratio it meets within two per
cent. -/
def tempoRelation (selected candidate : ℕ) : TempoRelation :=
  if selected = 0 ∨ candidate = 0 ∨ selected = candidate then .independent
  else
    match tempoRatios.find? fun ratio =>
      let expected := selected * ratio.numerator / ratio.denominator
      decide (tempoDistance candidate expected ≤ expected / 50 + 1) with
    | some ratio => ratio.relation
    | none => .independent

end LibApta
