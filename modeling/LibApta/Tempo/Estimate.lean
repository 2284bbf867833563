import LibApta.Tempo.Evidence

/-!
# From scored lags to a published estimate

The last step of a refresh: turn at most three scored lags into candidate tempi, let the global
estimator promote one of them, classify the others, and commit the selected tempo with its
one-segment grid. A gated refresh runs the same step on the lags, the phase and the ambiguity of the
last estimate.
-/

namespace LibApta

namespace S4State

/-! ## Candidates -/

/-- Tempo of an integer lag. -/
def tempoFromLag (sampleRate lag : ℕ) : ℕ :=
  if lag = 0 then 0
  else
    (sampleRate * 60000 + lag * onsetFramesPerBin / 2) / (lag * onsetFramesPerBin) % 4294967296

/-- Score of a lag: its correlation, when positive, weighted by the tempo prior. -/
def scoreLag (ctx : AnalysisContext) (flux : List ℚ) (lag : ℕ) : ℚ :=
  fmul (max (correlationAtLag flux lag) 0) (tempoPrior ctx.libm (tempoFromLag ctx.sampleRate lag))

/-- Insert a scored lag before the first one it beats, keeping three. -/
def insertPeak (peak : LagPeak) : List LagPeak → List LagPeak
  | [] => [peak]
  | best :: rest =>
      if best.score < peak.score then peak :: best :: rest else best :: insertPeak peak rest

/-- Account for one lag in the ordered argmax. -/
def considerLag (ctx : AnalysisContext) (flux : List ℚ) (best : List LagPeak) (lag : ℕ) :
    List LagPeak :=
  let score := scoreLag ctx flux lag
  if score ≤ 0 then best else (insertPeak ⟨score, lag, 0⟩ best).take maxTempoCandidates

/-- Tempo of a refined lag. -/
def tempoOfPeak (ctx : AnalysisContext) (peak : LagPeak) : ℕ :=
  tempoWithOffset (tempoFromLag ctx.sampleRate peak.lag) peak.lag peak.offset

/-- The candidate of a scored lag; its score is relative to the best one. -/
def candidateOf (tempo : ℕ) (score topScore : ℚ) : TempoCandidate :=
  let score := min (truncate (fadd (fmul (fdiv score topScore) 65535) (1 / 2))) 65535
  ⟨tempo, score, 25 + score * 70 / 65535, .independent, 0⟩

/-- Add the candidate of a peak unless its tempo is out of range or already present. -/
def addCandidate (ctx : AnalysisContext) (topScore : ℚ) (candidates : List TempoCandidate)
    (peak : LagPeak) : List TempoCandidate :=
  let tempo := tempoOfPeak ctx peak
  if tempo < tempoMinMillibpm ∨ tempoMaxMillibpm < tempo then candidates
  else if candidates.any fun existing =>
      decide (tempoDistance tempo existing.tempoMillibpm ≤ 500) then candidates
  else candidates ++ [candidateOf tempo peak.score topScore]

/-- The candidates of the scored lags, the best first; none when the best score is too low. -/
def buildCandidates (ctx : AnalysisContext) (peaks : List LagPeak) : List TempoCandidate :=
  match peaks with
  | [] => []
  | top :: _ =>
      if top.score < f32 (5 / 100) then []
      else peaks.foldl (addCandidate ctx top.score) []

/-! ## Endorsement by the global estimator -/

/-- The candidate scored well and the global tempo is within one per cent of it. -/
def endorsable (nominal : ℕ) (candidate : TempoCandidate) : Bool :=
  decide (tempoEndorseMinScore ≤ candidate.score) &&
    decide (fdiv |fsub (f32 candidate.tempoMillibpm) (f32 nominal)| (f32 nominal) ≤ f32 (1 / 100))

/-- The first of the best endorsable candidates behind the winner, by index. -/
def endorsedFrom (nominal : ℕ) : List TempoCandidate → ℕ → Option (ℕ × ℕ) → Option (ℕ × ℕ)
  | [], _, best => best
  | candidate :: rest, index, best =>
      endorsedFrom nominal rest (index + 1)
        (if endorsable nominal candidate then
          match best with
          | none => some (index, candidate.score)
          | some (entry, score) =>
              if score < candidate.score then some (index, candidate.score) else some (entry, score)
        else best)

/-- The candidate the global estimator promotes. -/
def endorsedEntry (nominal : ℕ) (candidates : List TempoCandidate) : Option ℕ :=
  if nominal = 0 then none
  else (endorsedFrom nominal candidates.tail 1 none).map Prod.fst

/-- Move an entry to the front. -/
def promote (entry : ℕ) (candidates : List TempoCandidate) : List TempoCandidate :=
  match candidates[entry]? with
  | some promoted => promoted :: candidates.eraseIdx entry
  | none => candidates

/-- Candidates after endorsement, and the flag that records it. -/
def endorse (nominal : ℕ) (candidates : List TempoCandidate) : List TempoCandidate × ℕ :=
  match endorsedEntry nominal candidates with
  | some entry => (promote entry candidates, tempoFlagOctaveAmbiguity)
  | none => (candidates, 0)

/-- Relate every candidate to the selected one. -/
def relateCandidates (candidates : List TempoCandidate) : List TempoCandidate :=
  match candidates with
  | [] => []
  | selected :: _ =>
      candidates.map fun candidate =>
        { candidate with
          relation := tempoRelation selected.tempoMillibpm candidate.tempoMillibpm }

/-- Flags raised by the comparable candidates behind the selected one. -/
def relationFlags (candidates : List TempoCandidate) : ℕ :=
  match candidates with
  | [] => 0
  | selected :: others =>
      others.foldl (fun flags candidate =>
        if selected.score * 7 / 10 % 65536 ≤ candidate.score then
          flags |||
            (if candidate.relation = .independent then 0 else tempoFlagOctaveAmbiguity) |||
            (if candidate.relation = .half then tempoFlagHalfTimeAmbiguity else 0) |||
            (if candidate.relation = .double then tempoFlagDoubleTimeAmbiguity else 0)
        else flags) 0

/-! ## Ambiguity, phase and confidence -/

/-- The best score among the metrical siblings of a lag. -/
def familyBest (ctx : AnalysisContext) (flux : List ℚ) (lag minimumLag maximumLag : ℕ) : ℚ :=
  tempoRatios.foldl (fun best ratio =>
    let scaled :=
      fadd (fdiv (fmul (f32 lag) (f32 ratio.denominator)) (f32 ratio.numerator)) (1 / 2)
    if scaled < 1 then best
    else
      let sibling := truncate scaled
      if sibling < minimumLag ∨ maximumLag < sibling ∨ sibling = lag then best
      else if best < scoreLag ctx flux sibling then scoreLag ctx flux sibling else best) 0

/-- How close the best sibling came to the winner, from zero to one. -/
def familyAmbiguity (winner siblingBest : ℚ) : ℚ :=
  if 0 < winner ∧ 0 < siblingBest then
    let ratio := fdiv siblingBest winner
    let knee := f32 (85 / 100)
    if ratio ≤ knee then 0 else min (fdiv (fsub ratio knee) (fsub 1 knee)) 1
  else 0

/-- Sum of the flux at a phase and every lag after it. -/
def phaseScore (flux : List ℚ) (lag phase : ℕ) : ℚ :=
  (List.range ((flux.length - phase + lag - 1) / lag)).foldl
    (fun score beat => fadd score (flux.getD (phase + beat * lag) 0)) 0

/-- The first phase of the highest score. -/
def bestPhase (flux : List ℚ) (lag : ℕ) : ℕ :=
  ((List.range lag).foldl (fun best phase =>
    if best.1 < phaseScore flux lag phase then (phaseScore flux lag phase, phase) else best)
    ((-1 : ℚ), 0)).2

/-- Contrast of the flux on the predicted beats, one bin either side, against the rest. -/
def gridFit (flux : List ℚ) (lag phase : ℕ) : ℚ :=
  if lag = 0 ∨ flux.length = 0 then 0
  else
    let sums := (flux.zipIdx).foldl (fun (sums : (ℚ × ℕ) × (ℚ × ℕ)) entry =>
      let fromPhase := (entry.2 + lag - phase % lag) % lag
      if min fromPhase (lag - fromPhase) ≤ 1 then
        ((fadd sums.1.1 entry.1, sums.1.2 + 1), sums.2)
      else (sums.1, (fadd sums.2.1 entry.1, sums.2.2 + 1))) ((0, 0), (0, 0))
    if sums.1.2 = 0 ∨ sums.2.2 = 0 then 0
    else
      let onMean := fdiv sums.1.1 (f32 sums.1.2)
      let offMean := fdiv sums.2.1 (f32 sums.2.2)
      if fadd onMean offMean ≤ minimumEnergy then 0
      else fdiv (fsub onMean offMean) (fadd onMean offMean)

/-- Confidence of an estimate. -/
def estimateConfidence (gridFit ambiguity : ℚ) (peaks : List LagPeak) (candidateCount runCount : ℕ) :
    ℕ :=
  let fit := if 0 < gridFit then fmul gridFit 2 else 0
  let base := 35 + truncate (fmul (if 1 < fit then 1 else fit) 50)
  let separated := match peaks with
    | top :: second =>
        if 1 < candidateCount ∧ 0 < top.score then
          let runnerUp := match second with
            | peak :: _ => peak.score
            | [] => 0
          let separation := fsub 1 (fdiv runnerUp top.score)
          if 0 < separation then base + truncate (fmul separation 15) else base
        else base
    | [] => base
  let bonus := if stableTempoBins ≤ runCount then separated + 5 else separated
  truncate (fmul (f32 (min bonus confidenceMax)) (fsub 1 ambiguity))

/-! ## Ranges and periods -/

/-- Frames of an evidence run; its end is clamped to the end of input. -/
def evidenceFrames (endOfInput : Option ℕ) (run : ℕ × ℕ) : FrameRange where
  firstFrame := run.1 * onsetFramesPerBin
  endFrame := match endOfInput with
    | some finalEnd => min (run.2 * onsetFramesPerBin) finalEnd
    | none => run.2 * onsetFramesPerBin

/-- The range an estimate was asked for: the focus when it names a feature of the local estimator,
else the evidence. -/
def requestedFrames (ctx : AnalysisContext) (evidence : FrameRange) : FrameRange :=
  match ctx.focus with
  | some focus => if s4Features ∩ focus.featureMask ≠ ∅ then focus.window else evidence
  | none => evidence

/-- The requested part of the evidence, or all of it when they do not meet. -/
def applicableFrames (requested evidence : FrameRange) : FrameRange :=
  let first := max requested.firstFrame evidence.firstFrame
  let past := min requested.endFrame evidence.endFrame
  if past ≤ first then evidence else ⟨first, past⟩

/-- Beats of a segment inside its applicability range, from the anchor on and by the period rounded up
to whole frames, in 64-bit arithmetic. -/
def segmentBeatCount (segment : GridSegment) : ℕ :=
  let range := segment.applicabilityRange
  if range.endFrame ≤ range.firstFrame ∨ segment.periodFrames = 0 then 0
  else
    -- A period that wraps to zero would be a division by zero.
    let period :=
      (segment.periodFrames + (if segment.periodFraction ≠ 0 then 1 else 0)) % 18446744073709551616
    let steps :=
      (range.firstFrame - segment.anchorFrame + period - 1) % 18446744073709551616 / period
    if segment.anchorFrame < range.firstFrame ∧ (uint64Max - segment.anchorFrame) / period < steps
    then 0
    else
      let anchor :=
        if segment.anchorFrame < range.firstFrame then segment.anchorFrame + steps * period
        else segment.anchorFrame
      if range.endFrame ≤ anchor then 0
      else min (1 + (range.endFrame - 1 - anchor) / period) uint32Max

/-- Whole frames and fraction of a beat at a tempo. -/
def periodOfTempo (sampleRate tempo : ℕ) : ℕ × ℕ :=
  if tempo = 0 then (0, 0)
  else
    (sampleRate * 60000 / tempo,
      sampleRate * 60000 % tempo * 4294967296 / tempo % 4294967296)

/-- The estimate with its ranges recomputed for the current focus. -/
def LocalEstimate.withRanges (ctx : AnalysisContext) (estimate : LocalEstimate) : LocalEstimate :=
  let evidence := estimate.tempo.evidenceRange
  let requested := requestedFrames ctx evidence
  let applicable := applicableFrames requested evidence
  let segment := { estimate.segment with applicabilityRange := applicable }
  { tempo := { estimate.tempo with applicabilityRange := applicable }
    segment := { segment with beatCount := segmentBeatCount segment }
    requestedRange := requested
    evidenceRange := evidence
    applicabilityRange := applicable
    coverageRange := applicable }

/-- Recompute the ranges of the committed estimate. -/
def updateCachedRanges (ctx : AnalysisContext) (s : S4State) : S4State :=
  { s with estimate := s.estimate.map (LocalEstimate.withRanges ctx) }

/-! ## Committing an estimate -/

/-- What an estimate is committed from: the evidence run, the scored lags, the phase, the ambiguity
and the grid fit. -/
structure EstimateInput where
  run : ℕ × ℕ
  peaks : List LagPeak
  phase : ℕ
  ambiguity : ℚ
  gridFit : ℚ

/-- State of an estimate: stable with enough evidence and confidence, final when the evidence also
is the whole drained source. -/
def estimateState (ctx : AnalysisContext) (run : ℕ × ℕ) (confidence : ℕ) : FeatureState :=
  if stableTempoBins ≤ run.2 - run.1 ∧ 50 ≤ confidence then
    if ctx.drains ∧ ctx.endOfInput = some (evidenceFrames ctx.endOfInput run).endFrame ∧
        (evidenceFrames ctx.endOfInput run).firstFrame = 0 then .final
    else .stable
  else .provisional

/-- The estimate that the surviving candidates, in their final order, describe. -/
def makeEstimate (ctx : AnalysisContext) (input : EstimateInput) (selectedTempo flags confidence : ℕ)
    (candidateSetId segmentId : ℕ) : LocalEstimate :=
  let evidence := evidenceFrames ctx.endOfInput input.run
  let requested := requestedFrames ctx evidence
  let applicable := applicableFrames requested evidence
  let state := estimateState ctx input.run confidence
  let segment : GridSegment := {
    applicabilityRange := applicable
    anchorFrame := (input.run.1 + input.phase) * onsetFramesPerBin
    anchorFraction := 0
    anchorOrdinal := 0
    periodFrames := (periodOfTempo ctx.sampleRate selectedTempo).1
    periodFraction := (periodOfTempo ctx.sampleRate selectedTempo).2
    beatCount := 0
    nominalTempoMillibpm := selectedTempo
    confidence := confidence
    state := state
    flags := flags
    segmentId := segmentId
    revision := candidateSetId }
  { tempo := {
      evidenceRange := evidence
      applicabilityRange := applicable
      tempoMillibpm := selectedTempo
      confidence := confidence
      state := state
      flags := flags
      candidateSetId := candidateSetId }
    segment := { segment with beatCount := segmentBeatCount segment }
    requestedRange := requested
    evidenceRange := evidence
    applicabilityRange := applicable
    coverageRange := applicable }

/-- The identifier of the candidate set after a tempo is selected: a new one when the tempo
changed. -/
def nextCandidateSetId (s : S4State) (selectedTempo : ℕ) : ℕ :=
  if s.candidateSetId = 0 then 1
  else
    match s.estimate with
    | some old =>
        if old.tempo.tempoMillibpm ≠ 0 ∧ old.tempo.tempoMillibpm ≠ selectedTempo then
          (s.candidateSetId + 1) % 4294967296
        else s.candidateSetId
    | none => s.candidateSetId

/-- The committed estimate changed in tempo, state or evidence. -/
def estimateChanged (old : Option LocalEstimate) (new : LocalEstimate) : Bool :=
  match old with
  | none => true
  | some old =>
      decide (old.tempo.tempoMillibpm ≠ new.tempo.tempoMillibpm) ||
        decide (old.tempo.state ≠ new.tempo.state) ||
        decide (old.tempo.evidenceRange ≠ new.tempo.evidenceRange)

/-- Commit an estimate. The candidate array takes the new candidates before the identifier of the
set is known to be good. -/
def commitEstimate (ctx : AnalysisContext) (input : EstimateInput) (s : S4State) :
    Status × S4State :=
  match endorse s.s6NominalTempo (buildCandidates ctx input.peaks) with
  | ([], _) => (.ok, s)
  | (selected :: others, endorsedFlag) =>
      let candidates := relateCandidates (selected :: others)
      let flags := endorsedFlag ||| relationFlags candidates |||
        (if 0 < input.ambiguity then tempoFlagOctaveAmbiguity else 0)
      let confidence := estimateConfidence input.gridFit input.ambiguity input.peaks
        candidates.length (input.run.2 - input.run.1)
      let setId := nextCandidateSetId s selected.tempoMillibpm
      let s := { s with
        candidates := candidates ++ s.candidates.drop candidates.length
        candidateSetId := setId }
      if setId = 0 then (.error .limitExceeded, s)
      else
        let segmentId := if s.segmentId = 0 then 1 else s.segmentId
        let estimate := makeEstimate ctx input selected.tempoMillibpm flags confidence setId segmentId
        (.ok,
          { s with
            segmentId := segmentId
            candidateCount := candidates.length
            estimate := some estimate
            mutationSerial :=
              if estimateChanged s.estimate estimate then s.mutationSerial + 1
              else s.mutationSerial })

end S4State

end LibApta
