import LibApta.Session.Demand

/-!
# Host operations

Creation, input, requests, metadata, grid locking and revisions: the calls of the public interface
besides processing. Pointer and structure-version checks are left out; every other check stands in
the order of the source.
-/

namespace LibApta

namespace Session

/-! ## Creation -/

/-- Every feature comes with the features it depends on. -/
def maskIsCoherent (mask : FeatureMask) : Bool :=
  let waveformDependency : FeatureMask :=
    {.waveformDetail, .waveform3Band, .confidence} ∪ s4Features ∪ s6Features
  (decide (waveformDependency ∩ mask = ∅) || decide (Feature.waveformOverview ∈ mask)) &&
    (decide (Feature.localBeatgrid ∉ mask) || decide (Feature.bpm ∈ mask)) &&
    (decide (Feature.globalBeatgrid ∉ mask) || decide (Feature.bpm ∈ mask)) &&
    (decide (Feature.dynamicTempo ∉ mask) || decide (Feature.globalBeatgrid ∈ mask)) &&
    (decide (Feature.gridLocking ∉ mask) || decide (Feature.localBeatgrid ∈ mask))

/-- The part of that rule that holds for sessions in a host workspace too. -/
def s6MaskIsCoherent (mask : FeatureMask) : Bool :=
  (decide (s6Features ∩ mask = ∅) || decide (Feature.waveformOverview ∈ mask)) &&
    (decide (Feature.globalBeatgrid ∉ mask) || decide (Feature.bpm ∈ mask)) &&
    (decide (Feature.dynamicTempo ∉ mask) || decide (Feature.globalBeatgrid ∈ mask))

/-- The overview resolution is the default or a power of two from 64 to 65536. -/
def resolutionIsValid (framesPerColumn : ℕ) : Bool :=
  framesPerColumn == 0 ||
    [64, 128, 256, 512, 1024, 2048, 4096, 8192, 16384, 32768, 65536].contains framesPerColumn

/-- Layout `1` is mono, layout `2` stereo, layout `0` unspecified. -/
def configIsValid (config : Config) : Bool :=
  decide (config.sourceSampleRate ≠ 0) && decide (config.channelCount ≠ 0) &&
    decide (config.channelCount ≤ 8) &&
    (decide (config.channelLayout ≠ 1) || decide (config.channelCount = 1)) &&
    (decide (config.channelLayout ≠ 2) || decide (config.channelCount = 2)) &&
    resolutionIsValid config.overviewFramesPerColumn &&
    (!config.requests .waveformOverview || decide (config.channelCount ≤ 2))

/-- A session before its first publication. -/
def new (config : Config) (libm : Libm) (usesWorkspace : Bool) (env : Environment) : Session where
  config := config
  libm := libm
  usesWorkspace := usesWorkspace
  env := env
  state := .created
  cancelRequested := false
  hasPullSource := false
  endOfInput := none
  focus := none
  requests := List.replicate maxRegionRequests .empty
  nextRequestId := 1
  nextEnqueueSerial := 0
  queue := []
  accepted := .empty
  overview := ⟨[], 0, 0, .init libm config.sourceSampleRate⟩
  detail := .empty
  s4 := .initial
  s6 := none
  metadata := none
  generation := 0
  results := []

/-- The configuration of a bounded session fits a result pool. -/
def poolConfigStatus (s : Session) : Status :=
  if s.config.requireSourceIdentityForSeeding || !s.config.requests .waveformOverview ||
      s.config.totalFrames.isNone then .error .invalidArgument
  else if uint32Max < s.poolOverviewCapacity then .error .limitExceeded
  else .ok

/-- What creation says of a configuration. A workspace session is not checked for the dependencies of
the local features, only for that of the detail tiles. -/
def createStatus (config : Config) (usesWorkspace : Bool) : Status :=
  let coherent :=
    if usesWorkspace then !config.requests .waveformDetail || config.requests .waveformOverview
    else maskIsCoherent config.requestedFeatures
  if !s6MaskIsCoherent config.requestedFeatures || (!usesWorkspace && !coherent) ||
      (config.boundedResultSlots && !usesWorkspace) then .error .invalidArgument
  else if ¬config.requestedFeatures ⊆ config.capabilities then .error .unsupported
  else if !coherent || !configIsValid config then .error .invalidArgument
  else .ok

/-- Publish the first, empty result of a session. A bounded session takes it from the pool it has just
allocated. -/
def firstPublication (s : Session) : Status × Option Session :=
  if s.config.boundedResultSlots then
    match s.poolConfigStatus with
    | .error code => (.error code, none)
    | _ => (.ok, some (s.published ∅))
  else
    match s.publish ∅ with
    | (.error code, _) => (.error code, none)
    | (status, s) => (status, some s)

/-- Create a session. -/
def create (config : Config) (libm : Libm) (usesWorkspace : Bool) (env : Environment) :
    Status × Option Session :=
  match createStatus config usesWorkspace with
  | .error code => (.error code, none)
  | _ =>
      match env.allocate with
      | (false, _) => (.error .outOfMemory, none)
      | (true, env) => (new config libm usesWorkspace env).firstPublication

/-! ## Input -/

/-- Attach a pull source that knows the length of its track or does not. -/
def setSource (sourceTotal : Option ℕ) (s : Session) : Status × Session :=
  if s.config.inputMode ≠ .pull then (.error .invalidState, s)
  else if s.state ≠ .created then (.error .invalidState, s)
  else
    match sourceTotal with
    | none => (.ok, { s with hasPullSource := true })
    | some total =>
        if s.config.totalFrames.isSome ∧ s.config.totalFrames ≠ some total then
          (.error .conflict, s)
        else
          (.ok,
            { s with
              config := { s.config with totalFrames := some total }
              hasPullSource := true })

/-- Push a block; returns how many of its frames were accepted. -/
def pushPcm (block : PcmBlock) (s : Session) : Status × ℕ × Session :=
  if s.config.inputMode ≠ .push then (.error .invalidState, 0, s)
  else
    match s.state with
    | .cancelled => (.error .cancelled, 0, s)
    | .draining | .completed | .failed => (.error .invalidState, 0, s)
    | _ =>
        match s.validatePcmBlock block with
        | .error code => (.error code, 0, s)
        | _ =>
            match s.activate with
            | (.error code, s) => (.error code, 0, s)
            | (_, s) =>
                if s.config.requests .waveformOverview then s.acceptPcm block
                else (.ok, block.frameCount, s)

/-- Announce the length of the pushed track. -/
def signalEndOfInput (finalEnd : ℕ) (s : Session) : Status × Session :=
  if finalEnd = uint64Max then (.error .invalidArgument, s)
  else if s.config.inputMode ≠ .push then (.error .invalidState, s)
  else s.endInput finalEnd

/-- Ask for the session to be cancelled at its next process call. -/
def requestCancel (s : Session) : Session := { s with cancelRequested := true }

/-- Ask for the storage of metadata; empty metadata needs none. -/
def reserveMetadata (metadata : Option Metadata) (env : Environment) : Bool × Environment :=
  match metadata with
  | some metadata => if metadata.storageSize = 0 then (true, env) else env.allocate
  | none => (true, env)

/-- Attach metadata to the results of a fresh session, or detach it, and publish. -/
def setMetadata (metadata : Option Metadata) (s : Session) : Status × Session :=
  if s.state ≠ .created then (.error .invalidState, s)
  else if metadata.any (fun metadata => !metadata.isValid) then (.error .invalidArgument, s)
  else
    match reserveMetadata metadata s.env with
    | (false, env) => (.error .outOfMemory, { s with env := env })
    | (true, env) =>
        match publish ∅ { s with env := env, metadata := metadata } with
        | (.error code, after) => (.error code, { after with metadata := s.metadata })
        | result => result

/-! ## Focus and region requests -/

/-- Set the playback focus. -/
def setFocus (focus : Focus) (s : Session) : Status × Session :=
  if ¬focus.featureMask ⊆ s.config.requestedFeatures then (.error .invalidState, s)
  else if focus.playheadFrame = uint64Max then (.error .invalidArgument, s)
  else if ¬focus.featureMask ⊆ s.config.capabilities then (.error .unsupported, s)
  else if s.config.totalFrames.any (fun total => decide (total < focus.playheadFrame)) then
    (.error .invalidArgument, s)
  else (.ok, { s with focus := some focus })

/-- A request of the table has this identifier. -/
def requestIdExists (requests : List Request) (requestId : ℕ) : Bool :=
  decide (requestId ≠ 0) && requests.any fun request => request.requestId == requestId

/-- The first unused identifier from a counter on, and the counter after it. The fuel is one more
than the number of slots and zeros that can be in the way. -/
def allocateRequestId (requests : List Request) : ℕ → ℕ → Option ℕ × ℕ
  | 0, next => (none, next)
  | fuel + 1, next =>
      if next = 0 ∨ requestIdExists requests next then
        allocateRequestId requests fuel ((next + 1) % 4294967296)
      else (some next, (next + 1) % 4294967296)

/-- Enter a region request into the table; returns its identifier. -/
def requestRegion (request : RegionRequest) (s : Session) : Status × ℕ × Session :=
  if ¬request.featureMask ⊆ s.config.requestedFeatures then (.error .invalidState, 0, s)
  else if request.range.endFrame ≤ request.range.firstFrame ∨ request.featureMask = ∅ then
    (.error .invalidArgument, 0, s)
  else if ¬request.featureMask ⊆ s.config.capabilities then (.error .unsupported, 0, s)
  else if requestIdExists s.requests request.requestId then (.error .conflict, 0, s)
  else
    match s.requests.findIdx? fun slot => slot.requestId == 0 with
    | none => (.error .limitExceeded, 0, s)
    | some slot =>
        let (requestId, next) :=
          if request.requestId ≠ 0 then (some request.requestId, s.nextRequestId)
          else allocateRequestId s.requests (maxRegionRequests + 2) s.nextRequestId
        let s := { s with nextRequestId := next }
        match requestId with
        | none => (.error .limitExceeded, 0, s)
        | some requestId =>
            if s.nextEnqueueSerial = uint64Max then
              (.error .limitExceeded, 0, { s with requests := s.requests.set slot .empty })
            else
              (.ok, requestId,
                { s with
                  nextEnqueueSerial := s.nextEnqueueSerial + 1
                  requests := s.requests.set slot
                    ⟨requestId, { request with requestId := requestId }, .queued, 0,
                      s.nextEnqueueSerial + 1⟩ })

/-- Cancel a region request. -/
def cancelRegionRequest (requestId : ℕ) (s : Session) : Status × Session :=
  if requestId = 0 then (.error .invalidArgument, s)
  else
    match s.requests.findIdx? fun slot => slot.requestId == requestId with
    | none => (.notAvailable, s)
    | some slot =>
        (.ok, { s with
          requests := s.requests.modify slot fun request => { request with state := .cancelled } })

/-! ## Grid locking -/

/-- The local estimate locked over a range. -/
def lockEstimate (range : FrameRange) (estimate : LocalEstimate) : LocalEstimate :=
  let segment := { estimate.segment with
    applicabilityRange := range
    flags := estimate.segment.flags ||| gridFlagLocked }
  { estimate with
    segment := { segment with beatCount := S4State.segmentBeatCount segment }
    applicabilityRange := range
    coverageRange := range }

/-- The session with its local grid locked. -/
def withLock (range : FrameRange) (estimate : LocalEstimate) (s : Session) : Session :=
  { s with
    s4 := { s.s4 with
      locked := true
      estimate := some (lockEstimate range estimate)
      mutationSerial := s.s4.mutationSerial + 1 } }

/-- Lock the local grid over part of its applicability range. -/
def lockGridRange (range : FrameRange) (s : Session) : Status × Session :=
  if range.endFrame ≤ range.firstFrame then (.error .invalidArgument, s)
  else if !s.config.requests .localBeatgrid || !s.config.requests .gridLocking then
    (.error .unsupported, s)
  else
    match s.s4.estimate with
    | none => (.error .invalidState, s)
    | some estimate =>
        if estimate.segment.state ≠ .stable ∧ estimate.segment.state ≠ .final then
          (.error .invalidState, s)
        else if range.firstFrame < estimate.applicabilityRange.firstFrame ∨
            estimate.applicabilityRange.endFrame < range.endFrame then (.error .conflict, s)
        else if s.s4.locked then
          (if estimate.applicabilityRange = range then .ok else .error .conflict, s)
        else
          match (s.withLock range estimate).publish {.localBeatgrid, .gridLocking} with
          | (.error code, after) => (.error code, { after with s4 := s.s4 })
          | (status, after) => (status, after.s4MarkPublished)

/-- The local estimate with a segment of the global grid written over it. -/
def applySegment (revisionId : ℕ) (dynamic : Bool) (selected : GridSegment)
    (estimate : LocalEstimate) : LocalEstimate :=
  let segment := { estimate.segment with
    anchorFrame := selected.anchorFrame
    anchorFraction := selected.anchorFraction
    anchorOrdinal := selected.anchorOrdinal
    periodFrames := selected.periodFrames
    periodFraction := selected.periodFraction
    nominalTempoMillibpm := selected.nominalTempoMillibpm
    confidence := selected.confidence
    revision := revisionId
    flags := selected.flags ||| gridFlagLocked }
  { estimate with
    segment := { segment with beatCount := S4State.segmentBeatCount segment }
    tempo := { estimate.tempo with
      tempoMillibpm := selected.nominalTempoMillibpm
      confidence := selected.confidence
      flags := estimate.tempo.flags ||| (if dynamic then tempoFlagDynamic else 0) } }

/-- The session with the pending revision applied to its local grid. -/
def withRevision (revisionId : ℕ) (s6 : S6State) (selected : GridSegment) (estimate : LocalEstimate)
    (s : Session) : Session :=
  { s with
    s4 := { s.s4 with
      estimate := some (applySegment revisionId s6.hasDynamicTempo selected estimate)
      mutationSerial := s.s4.mutationSerial + 1 }
    s6 := some { s6 with
      revision := { s6.revision with state := .applied }
      revisionPending := false
      mutationSerial := s6.mutationSerial + 1 } }

/-- Apply the pending revision of the global grid to the locked local grid. A failed publication
does not take the revision back. -/
def applyGridRevision (revisionId : ℕ) (s : Session) : Status × Session :=
  if revisionId = 0 then (.error .invalidArgument, s)
  else
    match s.s6 with
    | none => (.error .invalidState, s)
    | some s6 =>
        if !s6.revisionPending || s6.revision.state ≠ .pending then (.error .invalidState, s)
        else if revisionId ≠ s6.revisionId then (.error .conflict, s)
        else
          match s.s4.estimate with
          | none => (.error .conflict, s)
          | some estimate =>
              match s6.segments.find? fun candidate =>
                  rangesOverlap candidate.applicabilityRange.firstFrame
                    candidate.applicabilityRange.endFrame
                    estimate.segment.applicabilityRange.firstFrame
                    estimate.segment.applicabilityRange.endFrame with
              | none => (.error .conflict, s)
              | some selected =>
                  match (s.withRevision revisionId s6 selected estimate).publish
                      ({.localBeatgrid, .globalBeatgrid, .gridLocking} ∪
                        s.ifRequested .dynamicTempo) with
                  | (.error code, s) => (.error code, s)
                  | (status, s) => (status, s.s4MarkPublished.s6MarkPublished)

end Session

end LibApta
