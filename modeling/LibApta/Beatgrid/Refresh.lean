import LibApta.Lib.TailCall
import LibApta.Beatgrid.State

/-!
# Refreshing the global grid

A generation fills the flux of the evidence run in one scheduler step, estimates one window of 128
bins in each following step, and commits in a last one: the windows are merged into segments of
similar tempo, beats are generated when the grid is dynamic, and a revision record is made. A locked
local grid that contradicts the new segments leaves the revision pending.
-/

namespace LibApta

namespace S6State

/-! ## Windows -/

/-- Tempo of an integer lag. -/
def tempoFromLag (sampleRate lag : ℕ) : ℕ :=
  if lag = 0 then 0
  else
    (sampleRate * 60000 + lag * globalFramesPerBin / 2) / (lag * globalFramesPerBin) % 4294967296

/-- The lags of the slowest and the fastest tempo, cut to half of the window. -/
def lagBounds (sampleRate binCount : ℕ) : Option (ℕ × ℕ) :=
  let minimum := max
    ((sampleRate * 60 + 300 * globalFramesPerBin - 1) / (300 * globalFramesPerBin) % 4294967296) 1
  let maximum := sampleRate * 60 / (40 * globalFramesPerBin) % 4294967296
  let maximum := if binCount ≤ maximum * 2 then binCount / 2 else maximum
  if maximum < minimum then none else some (minimum, maximum)

/-- The first lag of the best prior-weighted score: its score, its bare correlation and the lag. -/
def bestWindowLag (ctx : AnalysisContext) (flux : List ℚ) (bounds : ℕ × ℕ) : ℚ × ℚ × ℕ :=
  (List.range' bounds.1 (bounds.2 + 1 - bounds.1)).foldl (fun best lag =>
    let correlation := correlationAtLag flux lag
    let score := fmul correlation (tempoPrior ctx.libm (tempoFromLag ctx.sampleRate lag))
    if best.1 < score then (score, correlation, lag) else best) (0, 0, 0)

/-- Estimate the tempo and the phase of one window from its flux. -/
def estimateWindow (ctx : AnalysisContext) (flux : List ℚ) (first past : ℕ) : Option GridWindow :=
  if past ≤ first ∨ past - first < globalMinBins then none
  else
    match lagBounds ctx.sampleRate (past - first) with
    | none => none
    | some bounds =>
        let (score, correlation, lag) := bestWindowLag ctx flux bounds
        if lag = 0 ∨ correlation < f32 (4 / 100) then none
        else
          let tempo := tempoWithOffset (tempoFromLag ctx.sampleRate lag) lag
            (refineLag flux lag tempoRefineMaxBeats)
          if tempo < tempoMinMillibpm ∨ tempoMaxMillibpm < tempo then none
          else some ⟨first, past, tempo, S4State.bestPhase flux lag,
            min (40 + if 1 ≤ score then 50 else truncate (score * 50)) confidenceMax⟩

/-- The segment a window starts. -/
def segmentOfWindow (window : GridWindow) (segmentId : ℕ) : GridSegment where
  applicabilityRange := ⟨window.firstBin * globalFramesPerBin, window.endBin * globalFramesPerBin⟩
  anchorFrame := (window.firstBin + window.phaseBins) * globalFramesPerBin
  anchorFraction := 0
  anchorOrdinal := 0
  periodFrames := 0
  periodFraction := 0
  beatCount := 0
  nominalTempoMillibpm := window.tempoMillibpm
  confidence := window.confidence
  state := .provisional
  flags := 0
  segmentId := segmentId
  revision := 0

/-- The segment extended to the end of a window. -/
def extendSegment (segment : GridSegment) (endBin : ℕ) : GridSegment :=
  { segment with
    applicabilityRange := ⟨segment.applicabilityRange.firstFrame, endBin * globalFramesPerBin⟩ }

/-- Merge a window into the last segment when its tempo is close, else start a segment; past eight
segments the last one absorbs the window and the generation is degraded. -/
def addWindow (sweep : WindowSweep) (window : GridWindow) : WindowSweep :=
  let counted := { sweep with
    totalConfidence := sweep.totalConfidence + window.confidence
    validConfidenceCount := sweep.validConfidenceCount + 1
    windowCount := sweep.windowCount + 1 }
  match sweep.segments.getLast? with
  | none => { counted with segments := [(segmentOfWindow window 1, 1)] }
  | some (last, count) =>
      if 1500 < tempoDistance last.nominalTempoMillibpm window.tempoMillibpm then
        if globalMaxSegments ≤ sweep.segments.length then
          let degraded := extendSegment last window.endBin
          { sweep with
            segments := sweep.segments.dropLast ++
              [({ degraded with flags := degraded.flags ||| gridFlagDegraded }, count)]
            degraded := true }
        else
          { counted with
            segments := sweep.segments ++
              [(segmentOfWindow window (sweep.segments.length + 1), 1)] }
      else
        { counted with
          segments := sweep.segments.dropLast ++
            [({ extendSegment last window.endBin with
                nominalTempoMillibpm :=
                  (last.nominalTempoMillibpm * count + window.tempoMillibpm) / (count + 1)
                confidence := (last.confidence * count + window.confidence) / (count + 1) },
              count + 1)] }

/-- Estimate the next window. Its first bin rises from zero, and the flux array keeps that. -/
def sweepWindow (ctx : AnalysisContext) (sweep : WindowSweep) (s : S6State) :
    WindowSweep × S6State :=
  let first := sweep.nextWindow
  let past := min (first + globalWindowBins) sweep.evidenceEnd
  let flux := s.flux.set (first - s.fluxBaseBin) (s.ring.flux globalBinCapacity first first)
  let window := estimateWindow ctx ((flux.drop (first - s.fluxBaseBin)).take (past - first))
    first past
  ({ (match window with
      | some window => addWindow sweep window
      | none => sweep) with nextWindow := past },
    { s with flux := flux })

/-- Estimate windows until the run is done, the steps are used up or the deadline has passed. -/
def sweepLoop (ctx : AnalysisContext) (limit : ℕ) :
    ℕ → WindowSweep → S6State → ℕ → Environment → WindowSweep × S6State × ℕ × Environment
  | 0, sweep, s, steps, env => (sweep, s, steps, env)
  | fuel + 1, sweep, s, steps, env =>
      if sweep.nextWindow < sweep.evidenceEnd ∧ steps < limit then
        let (sweep, s) := sweepWindow ctx sweep s
        match env.deadlinePassed with
        | (true, env) => (sweep, s, steps + 1, env)
        | (false, env) => sweepLoop ctx limit fuel sweep s (steps + 1) env
      else (sweep, s, steps, env)

/-! ## Beats -/

/-- Beats from a position, in units of `2 ^ -32` frames, to the end of a segment. -/
def beatsFrom (segment : GridSegment) (period past : ℕ) : ℕ → ℕ → ℤ → List Beat
  | 0, _, _ => []
  | fuel + 1, position, ordinal =>
      if position < past then
        ⟨position / 4294967296, position % 4294967296, ordinal, segment.confidence, segment.flags,
            segment.revision⟩ ::
          (if uint64Max - period < position then []
            else beatsFrom segment period past fuel (position + period) (ordinal + 1))
      else []

/-- The position of the first beat at or after the start of a segment; `none` when it overflows. -/
def firstBeatPosition (segment : GridSegment) (period : ℕ) : Option ℕ :=
  let position := segment.anchorFrame * 4294967296 + segment.anchorFraction
  let first := segment.applicabilityRange.firstFrame * 4294967296
  if position < first then
    let steps := (first - position + period - 1) % 18446744073709551616 / period
    if (uint64Max - position) / period < steps then none else some (position + steps * period)
  else some position

/-- The generated beats and the segments they were generated for. -/
structure GeneratedBeats where
  segments : List GridSegment
  beats : List Beat
  flags : ℕ

/-- Generate the beats of the segments in order, as far as the beat array goes. -/
def generateBeats : List GridSegment → GeneratedBeats → Status × GeneratedBeats
  | [], done => (.ok, done)
  | segment :: rest, done =>
      if segment.periodFrames = 0 ∨ uint32Max < segment.periodFrames ∨
          uint32Max < segment.anchorFrame ∨ uint32Max < segment.applicabilityRange.firstFrame ∨
          uint32Max < segment.applicabilityRange.endFrame then
        generateBeats rest { done with
          segments := done.segments ++ [segment], flags := done.flags ||| gridFlagDegraded }
      else
        let period := segment.periodFrames * 4294967296 + segment.periodFraction
        let past := segment.applicabilityRange.endFrame * 4294967296
        match firstBeatPosition segment period with
        | none => (.error .limitExceeded, { done with segments := done.segments ++ segment :: rest })
        | some position =>
            let room := globalMaxBeats - done.beats.length
            let wanted := beatsFrom segment period past (room + 1) position done.beats.length
            let beats := wanted.take room
            generateBeats rest {
              segments := done.segments ++
                [{ segment with
                    anchorOrdinal := done.beats.length
                    beatCount := beats.length }]
              beats := done.beats ++ beats
              flags := if room < wanted.length then done.flags ||| gridFlagDegraded
                else done.flags }

/-! ## Commit -/

/-- Hash the eight bytes of a value, low byte first. -/
def hashValue (hash value : ℕ) : ℕ :=
  (List.range 8).foldl (fun hash index =>
    (hash ^^^ (value / 256 ^ index % 256)) * 1099511628211 % 18446744073709551616) hash

/-- The signature of a grid: two grids of one signature are taken to be equal. -/
def gridSignature (segments : List GridSegment) (beatCount : ℕ)
    (representation : GridRepresentation) : ℕ :=
  segments.foldl (fun hash segment =>
    [segment.applicabilityRange.firstFrame, segment.applicabilityRange.endFrame,
      segment.anchorFrame, segment.anchorFraction, segment.periodFrames, segment.periodFraction,
      segment.nominalTempoMillibpm].foldl hashValue hash)
    ([segments.length, beatCount, representation.code].foldl hashValue 1469598103934665603)

/-- The nominal tempo of the first widest segment. -/
def widestTempo (segments : List GridSegment) : ℕ :=
  match segments with
  | [] => 0
  | first :: _ =>
      (segments.foldl (fun (best : ℕ × ℕ) segment =>
        let span := segment.applicabilityRange.endFrame - segment.applicabilityRange.firstFrame
        if best.1 < span then (span, segment.nominalTempoMillibpm) else best)
        (0, first.nominalTempoMillibpm)).2

/-- A committed segment contradicts the locked local grid. -/
def lockedConflict (ctx : GlobalContext) (segments : List GridSegment) : Bool :=
  match ctx.localEstimate with
  | some estimate =>
      ctx.locallyLocked && segments.any fun segment =>
        let lock := estimate.segment
        rangesOverlap segment.applicabilityRange.firstFrame segment.applicabilityRange.endFrame
            lock.applicabilityRange.firstFrame lock.applicabilityRange.endFrame &&
          (decide (500 < tempoDistance segment.nominalTempoMillibpm lock.nominalTempoMillibpm) ||
            decide (lock.anchorFrame + globalFramesPerBin < segment.anchorFrame) ||
            decide (segment.anchorFrame + globalFramesPerBin < lock.anchorFrame))
  | none => false

/-- Clamp the end of the last segment to the end of input. -/
def clampLast (endOfInput : Option ℕ) (segments : List GridSegment) : List GridSegment :=
  match endOfInput, segments.getLast? with
  | some finalEnd, some last =>
      segments.dropLast ++
        [{ last with
            applicabilityRange :=
              ⟨last.applicabilityRange.firstFrame, min last.applicabilityRange.endFrame finalEnd⟩ }]
  | _, _ => segments

/-- State of a committed grid. -/
def committedState (ctx : AnalysisContext) (run : ℕ × ℕ) (confidence : ℕ) : FeatureState :=
  let reachesEnd : Bool := match ctx.endOfInput with
    | some finalEnd => decide (run.1 = 0) && decide (finalEnd ≤ run.2 * globalFramesPerBin)
    | none => false
  if reachesEnd ∧ ctx.drains then .final
  else if globalStableBins ≤ run.2 - run.1 ∧ 50 ≤ confidence then .stable
  else .provisional

/-- A segment as it is committed. -/
def commitSegment (ctx : AnalysisContext) (state : FeatureState) (dynamic degraded : Bool)
    (segment : GridSegment) : GridSegment :=
  let segment := { segment with
    state := state
    flags := segment.flags ||| (if dynamic then gridFlagDynamicTempo else 0) |||
      (if degraded then gridFlagDegraded else 0)
    periodFrames := (S4State.periodOfTempo ctx.sampleRate segment.nominalTempoMillibpm).1
    periodFraction := (S4State.periodOfTempo ctx.sampleRate segment.nominalTempoMillibpm).2 }
  { segment with beatCount := S4State.segmentBeatCount segment }

/-- Frames of a run of global bins; its end is clamped to the end of input. -/
def evidenceFrames (endOfInput : Option ℕ) (run : ℕ × ℕ) : FrameRange where
  firstFrame := run.1 * globalFramesPerBin
  endFrame := match endOfInput with
    | some finalEnd => min (run.2 * globalFramesPerBin) finalEnd
    | none => run.2 * globalFramesPerBin

/-- Commit the segments of a finished generation. Returns the status, the committed state and the
nominal tempo handed to the local estimator. -/
def commitGrid (ctx : GlobalContext) (sweep : WindowSweep) (s : S6State) : Status × S6State × ℕ :=
  let run := (sweep.evidenceFirst, sweep.evidenceEnd)
  let eoi := ctx.analysis.endOfInput
  let raw := sweep.segments.map Prod.fst
  let confidence :=
    if sweep.validConfidenceCount = 0 then confidenceUnknown
    else sweep.totalConfidence / sweep.validConfidenceCount
  let state := committedState ctx.analysis run confidence
  let dynamic := decide (1 < raw.length)
  let segments := (clampLast eoi raw).map (commitSegment ctx.analysis state dynamic sweep.degraded)
  let representation : GridRepresentation :=
    if Feature.dynamicTempo ∈ ctx.analysis.requestedFeatures ∨ dynamic then .hybrid else .segments
  let evidence := evidenceFrames eoi run
  let flags := (if dynamic then gridFlagDynamicTempo else 0) |||
    (if sweep.degraded then gridFlagDegraded else 0)
  let (status, generated) :=
    if representation = .segments then (Status.ok, ⟨segments, [], flags⟩)
    else generateBeats segments ⟨[], [], flags⟩
  let drafted := { s with
    segments := generated.segments
    beats := if status.failed then [] else generated.beats
    flags := generated.flags
    confidence := confidence
    state := state
    hasDynamicTempo := dynamic
    representation := representation
    requestedRange := ⟨0, match ctx.totalFrames with
      | some total => total
      | none => run.2 * globalFramesPerBin⟩
    evidenceRange := evidence
    applicabilityRange := evidence
    coverageRange := evidence }
  if status.failed then (status, drafted, widestTempo raw)
  else
    let signature := gridSignature drafted.segments drafted.beats.length representation
    let revisionId :=
      if s.revisionId = 0 then 1
      else if signature ≠ s.signature then (s.revisionId + 1) % 4294967296 else s.revisionId
    let previousRevisionId :=
      if s.revisionId = 0 then 0
      else if signature ≠ s.signature then s.revisionId else s.previousRevisionId
    let drafted := { drafted with
      revisionId := revisionId
      previousRevisionId := previousRevisionId }
    if revisionId = 0 then (.error .limitExceeded, drafted, widestTempo raw)
    else
      let segments := drafted.segments.map fun segment => { segment with revision := revisionId }
      let beats := drafted.beats.map fun beat => { beat with revision := revisionId }
      let conflict := lockedConflict ctx segments
      let revision : GridRevision := {
        revisionId := revisionId
        previousRevisionId := previousRevisionId
        state := if conflict then .pending else .applied
        confidence := confidence
        affectedRange := match conflict, ctx.localEstimate with
          | true, some estimate => estimate.segment.applicabilityRange
          | _, _ => evidence
        proposedRepresentation := representation
        proposedSegmentCount := segments.length
        proposedBeatCount := beats.length
        flags := (if dynamic then revisionFlagDynamicTempo else 0) |||
          (if sweep.degraded then revisionFlagDegraded else 0) |||
          (if conflict then revisionFlagConflictsLockedRange else 0) }
      (.ok,
        { drafted with
          segments := segments
          beats := beats
          revision := revision
          revisionPending := conflict
          signature := signature
          hasGlobalGrid := true
          mutationSerial :=
            if signature ≠ s.signature ∨ s.state ≠ state ∨ s.revision.state ≠ revision.state ∨
                s.mutationSerial = 0 then s.mutationSerial + 1
            else s.mutationSerial },
        widestTempo raw)

/-! ## The function -/

/-- The arguments of a refresh call: the steps it may use, the steps its callers have used, the
estimator, the nominal tempo the local estimator reads, and the environment. -/
structure RefreshCall where
  limit : ℕ
  used : ℕ
  state : S6State
  nominalTempo : ℕ
  env : Environment

/-- The result of a refresh. -/
structure RefreshResult where
  status : Status
  steps : ℕ
  state : S6State
  nominalTempo : ℕ
  env : Environment

/-- The local tempo stands in for a generation in which no window gave one. -/
def addFallback (ctx : GlobalContext) (sweep : WindowSweep) : WindowSweep :=
  match ctx.localEstimate with
  | some estimate =>
      if sweep.windowCount = 0 then
        addWindow { sweep with degraded := true }
          ⟨sweep.evidenceFirst, sweep.evidenceEnd, estimate.tempo.tempoMillibpm, 0,
            estimate.tempo.confidence⟩
      else sweep
  | none => sweep

/-- Close a finished generation, and note whether the evidence moved meanwhile. -/
def closeSweep (ctx : GlobalContext) (sweep : WindowSweep) (s : S6State) : S6State :=
  { s with
    refreshedEvidenceEnd := sweep.evidenceEnd
    sweep := none
    pending := match findEvidence ctx.analysis.endOfInput s.ring with
      | some current => evidenceMoved ctx.analysis.endOfInput
          (sweep.evidenceFirst, sweep.evidenceEnd) current
      | none => false }

/-- Start a generation when there is enough new evidence. -/
def startSweep (ctx : GlobalContext) (limit : ℕ) (s : S6State) :
    Except (Status × S6State) (WindowSweep × S6State) :=
  let idle (s : S6State) : Except (Status × S6State) (WindowSweep × S6State) :=
    .error (.ok, { s with pending := false })
  match findEvidence ctx.analysis.endOfInput s.ring with
  | none => idle s
  | some run =>
      if run.2 - run.1 < globalMinBins then idle s
      else if ¬run.2 < s.refreshedEvidenceEnd ∧
          ¬(ctx.analysis.endOfInput.isSome ∧ s.state ≠ .final) ∧
          run.2 < s.refreshedEvidenceEnd + s6RefreshMinNewBins then idle s
      else
        let s := if run.2 < s.refreshedEvidenceEnd then { s with refreshedEvidenceEnd := 0 } else s
        if globalBinCapacity < run.2 - run.1 then idle s
        else if limit = 0 then .error (.moreWork, { s with pending := true })
        else
          .ok (⟨run.1, run.2, run.1, [], 0, 0, 0, false⟩,
            { s with
              flux := (List.range' run.1 (run.2 - run.1)).map fun index =>
                s.ring.flux globalBinCapacity index run.1
              fluxBaseBin := run.1
              pending := false })

/-- Run the windows of a generation after `steps` steps of this pass, and commit it when they are
done. -/
def resumeSweep (ctx : GlobalContext) (call : RefreshCall) (steps : ℕ) (sweep : WindowSweep)
    (s : S6State) : RefreshCall ⊕ RefreshResult :=
  match sweepLoop ctx.analysis call.limit (sweep.evidenceEnd - sweep.nextWindow) sweep s steps
      call.env with
  | (sweep, s, steps, env) =>
      if sweep.nextWindow < sweep.evidenceEnd ∨ call.limit ≤ steps then
        .inr ⟨.moreWork, call.used + steps, { s with sweep := some sweep }, call.nominalTempo, env⟩
      else
        let sweep := addFallback ctx sweep
        let s := closeSweep ctx sweep s
        if sweep.segments = [] then
          .inr ⟨.ok, call.used + (steps + 1), s, call.nominalTempo, env⟩
        else
          match commitGrid ctx sweep s with
          | (.ok, s, nominal) =>
              if s.pending then
                if steps + 1 < call.limit then
                  .inl ⟨call.limit - (steps + 1), call.used + (steps + 1), s, nominal, env⟩
                else .inr ⟨.moreWork, call.used + (steps + 1), s, nominal, env⟩
              else .inr ⟨.ok, call.used + (steps + 1), s, nominal, env⟩
          | (status, s, nominal) => .inr ⟨status, call.used + (steps + 1), s, nominal, env⟩

/-- The body of `apta_internal_s6_refresh` up to its tail call. -/
def refreshPass (ctx : GlobalContext) (call : RefreshCall) : RefreshCall ⊕ RefreshResult :=
  match call.state.sweep with
  | some sweep => resumeSweep ctx call 0 sweep call.state
  | none =>
      match startSweep ctx call.limit call.state with
      | .error (status, s) => .inr ⟨status, call.used, s, call.nominalTempo, call.env⟩
      | .ok (sweep, s) => resumeSweep ctx call 1 sweep s

/-- `apta_internal_s6_refresh` on an allocated estimator. -/
def refresh (ctx : GlobalContext) (limit : ℕ) (s : S6State) (nominalTempo : ℕ)
    (env : Environment) : Option RefreshResult :=
  TailCall.run (refreshPass ctx) (limit + 1) ⟨limit, 0, s, nominalTempo, env⟩

/-- A generation is active or a new one is due. -/
def refreshPending (s : S6State) : Bool := s.sweep.isSome || s.pending

end S6State

end LibApta
