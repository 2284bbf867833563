import LibApta.Beatgrid.Refresh
import LibApta.Session.Input
import LibApta.Tempo.Refresh

/-!
# The layers of a process call

A process call runs four layers, each wrapped around the one before: the overview consumes queued
PCM, the detail layer orders the queue and publishes tiles, the local and the global estimator spend
the steps that are left. Each layer publishes what it has changed itself. After the layers, a
draining session with nothing left to do completes.
-/

namespace LibApta

/-- What a process call reports to the host. -/
structure Progress where
  consumedInputFrames : ℕ
  completedSteps : ℕ
  changedFeatures : FeatureMask
  publishedGeneration : ℕ
deriving DecidableEq

/-- The outcome of a layer. -/
structure Work where
  status : Status
  didWork : Bool
  published : Bool
  progress : Progress
deriving DecidableEq

namespace Work

/-- A layer that stops with a status and leaves the rest to its caller. -/
def stop (work : Work) (status : Status) : Work := { work with status := status }

/-- Work was done, so the call does not block. -/
def unblock (work : Work) : Work :=
  if work.status = .wouldBlock then { work with status := .ok } else work

/-- Account for a publication of `features` as a generation. -/
def announce (work : Work) (features : FeatureMask) (generation : ℕ) : Work :=
  { work with
    published := true
    progress := { work.progress with
      changedFeatures := work.progress.changedFeatures ∪ features
      publishedGeneration := generation } }

end Work

namespace Session

/-! ## Overview layer -/

/-- The columns from one index to another are all present and complete. -/
def columnsComplete : List Accumulator → ℕ → ℕ → Bool
  | [], _, _ => false
  | acc :: rest, column, last =>
      if acc.columnIndex < column then columnsComplete rest column last
      else if acc.columnIndex ≠ column ∨ !acc.complete then false
      else if column = last then true
      else columnsComplete rest (column + 1) last

/-- Every overview column that meets a range is complete. -/
def rangeComplete (s : Session) (range : FrameRange) : Bool :=
  if range.endFrame ≤ range.firstFrame then false
  else if uint32Max < (range.endFrame - 1) / s.framesPerColumn then false
  else
    columnsComplete s.overview.accumulators (range.firstFrame / s.framesPerColumn)
      ((range.endFrame - 1) / s.framesPerColumn)

/-- Some complete overview column meets a range. -/
def rangeHasOutput (s : Session) (range : FrameRange) : Bool :=
  s.overview.accumulators.any fun acc =>
    acc.complete &&
      rangesOverlap (acc.columnIndex * s.framesPerColumn)
        (acc.columnIndex * s.framesPerColumn + s.framesPerColumn) range.firstFrame range.endFrame

/-- The state of a request after the overview has advanced. -/
def updateRequestState (s : Session) (request : Request) : Request :=
  if request.wantsFeature .waveformOverview then
    { request with
      state :=
        if s.rangeComplete request.request.range then .satisfied
        else if s.rangeHasOutput request.request.range then .partiallySatisfied
        else .waitingForPcm }
  else request

/-- Update the states of the active requests that name the overview. -/
def updateRequestStates (s : Session) : Session :=
  { s with requests := s.requests.map s.updateRequestState }

/-- The session after the chunk loop. -/
def setChunkState (s : Session) (state : ChunkState) : Session :=
  { s with queue := state.queue, overview := state.overview, env := state.env }

/-- The chunk loop of a process call, on columns whose completion has been refreshed. -/
def runChunks (budget : WorkBudget) (s : Session) : Status × ChunkState :=
  processChunks s.processContext budget.frameLimit budget.stepLimit (queuedFrames s.queue)
    { queue := s.queue
      overview := refreshCompletedColumns s.framesPerColumn s.endOfInput s.overview
      env := s.env
      consumed := 0
      steps := 0 }

/-- The overview layer: consume queued PCM and publish when a column has become complete. -/
def processBase (budget : WorkBudget) (progress : Progress) (s : Session) : Work × Session :=
  match s.runChunks budget with
  | (.error code, state) => (⟨.error code, false, false, progress⟩, s.setChunkState state)
  | (_, state) =>
      let after := (s.setChunkState state).updateRequestStates
      let status : Status :=
        if state.steps = 0 then .wouldBlock else if state.queue = [] then .ok else .moreWork
      let progress : Progress := ⟨state.consumed, state.steps, ∅, s.generation⟩
      if after.overview.completeCount ≠ s.overview.completeCount then
        match after.publish {.waveformOverview} with
        | (.error code, after) => (⟨.error code, false, false, progress⟩, after)
        | (_, after) =>
            ((Work.mk status (state.steps ≠ 0) false progress).announce {.waveformOverview}
              after.generation, after)
      else (⟨status, state.steps ≠ 0, false, progress⟩, after)

/-! ## Detail layer -/

/-- The score of a queued node: the priority of the focus if it overlaps, or the best overlapping
request. -/
def scoreNode (s : Session) (node : PcmNode) : ScheduleScore :=
  let focusScore : ScheduleScore := match s.focus with
    | some focus =>
        if decide (Feature.waveformOverview ∈ focus.featureMask) &&
            decide (focus.window.firstFrame < focus.window.endFrame) &&
            rangesOverlap node.nextFrame node.endFrame focus.window.firstFrame
              focus.window.endFrame
        then { ScheduleScore.none with effectivePriority := focus.priority }
        else .none
    | none => .none
  s.requests.foldl (fun score request =>
    if decide (Feature.waveformOverview ∈ request.request.featureMask) &&
        rangesOverlap node.nextFrame node.endFrame request.request.range.firstFrame
          request.request.range.endFrame &&
        decide ((scoreRequest request).requestId ≠ 0) &&
        scoreBetter (scoreRequest request) score
    then scoreRequest request else score) focusScore

/-- Insert a node before the first queued one it is better than. -/
def insertNode (better : PcmNode → PcmNode → Bool) (node : PcmNode) : List PcmNode → List PcmNode
  | [] => [node]
  | head :: rest =>
      if better node head then node :: head :: rest else head :: insertNode better node rest

/-- Sort the queue by node score, stably. -/
def sortPcmQueue (s : Session) : List PcmNode :=
  s.queue.foldl (fun sorted node =>
    insertNode (fun candidate current =>
      scoreBetter (s.scoreNode candidate) (s.scoreNode current)) node sorted) []

/-- The request the head of the queue serves; `0` for none. -/
def headRequestId (s : Session) : ℕ :=
  match s.queue with
  | [] => 0
  | head :: _ => (s.scoreNode head).requestId

/-- The overview columns that the unconsumed frames of a node touch. -/
def nodeColumns (framesPerColumn : ℕ) (node : PcmNode) : List ℕ :=
  if node.frameCount ≤ node.processedFrames then []
  else List.range' (node.nextFrame / framesPerColumn)
    ((node.endFrame - 1) / framesPerColumn + 1 - node.nextFrame / framesPerColumn)

/-- Columns the queue will need that the store does not hold, each counted at its first node. -/
def additionalColumns (framesPerColumn : ℕ) (overview : Overview) :
    List PcmNode → List ℕ → ℕ
  | [], _ => 0
  | node :: rest, seen =>
      ((nodeColumns framesPerColumn node).filter fun column =>
          decide (column ∉ overview.accumulators.map Accumulator.columnIndex) &&
            decide (column ∉ seen)).length +
        additionalColumns framesPerColumn overview rest (seen ++ nodeColumns framesPerColumn node)

/-- In a workspace session, make room for every column of the queue before consuming any of it. -/
def reserveAccumulators (s : Session) : Status × Session :=
  if !s.usesWorkspace || s.queue = [] then (.ok, s)
  else if s.queue.any fun node =>
      decide (node.processedFrames < node.frameCount) &&
        decide (uint32Max < (node.endFrame - 1) / s.framesPerColumn) then (.error .limitExceeded, s)
  else
    let additional := additionalColumns s.framesPerColumn s.overview s.queue []
    if additional = 0 then (.ok, s)
    else if uint32Max - additional < s.overview.accumulators.length then (.error .limitExceeded, s)
    else
      match s.overview.ensureCapacity (s.config.requests .waveform3Band)
          (s.overview.accumulators.length + additional) s.env with
      | (status, overview, env) => (status, { s with overview := overview, env := env })

/-- Let the focus and the requests that name one of `features` also name the overview. -/
def demandOverview (features : FeatureMask) (s : Session) : Session :=
  { s with
    focus := s.focus.map (Focus.mapMask (withOverview features))
    requests := s.requests.map (Request.mapMask (withOverview features)) }

/-- Show the active requests with their effective priorities. -/
def raisePriorities (s : Session) : Session :=
  { s with
    requests := s.requests.map fun request =>
      if request.isActive then
        { request with
          request := { request.request with
            priority := (scoreRequest request).effectivePriority % 256 } }
      else request }

/-- Put the focus and the masks and priorities of the requests back, slot by slot. -/
def restoreDemand (saved : Session) (s : Session) : Session :=
  { s with
    focus := saved.focus
    requests := List.zipWith (fun (before after : Request) =>
      { after with
        request := { after.request with
          featureMask := before.request.featureMask
          priority := before.request.priority } }) saved.requests s.requests }

/-- The state of a request that names the detail tiles, after a process call. -/
def updateDetailRequestState (s : Session) (request : Request) : Request :=
  if request.requestId = 0 ∨ request.state = .cancelled ∨ request.state = .failed ∨
      Feature.waveformDetail ∉ request.request.featureMask then request
  else
    let range := request.request.range
    let overviewRequired := decide (Feature.waveformOverview ∈ request.request.featureMask)
    let overviewSatisfied := !overviewRequired || decide (request.state = .satisfied)
    let overviewHasOutput := overviewRequired &&
      (decide (request.state = .partiallySatisfied) || decide (request.state = .satisfied))
    { request with
      state :=
        if overviewSatisfied && s.detail.rangeComplete range.firstFrame range.endFrame then
          .satisfied
        else if overviewHasOutput ||
            s.detail.rangeHasOutput s.endOfInput range.firstFrame range.endFrame then
          .partiallySatisfied
        else .waitingForPcm }

/-- Update the states of the requests that name the detail tiles. -/
def updateDetailRequestStates (s : Session) : Session :=
  { s with requests := s.requests.map s.updateDetailRequestState }

/-- Refresh the detail tiles, when they were requested. -/
def refreshDetail (s : Session) : Session :=
  if s.config.requests .waveformDetail then
    { s with detail := Detail.refreshCompleted s.endOfInput s.detail }
  else s

/-- The queue in order of priority. -/
def orderQueue (s : Session) : Session := { s with queue := s.sortPcmQueue }

/-- Publish the detail tiles unless the overview layer has just published. -/
def publishDetail (work : Work) (s : Session) : Work × Session :=
  let published : Status × Session :=
    if work.published then (.ok, s) else s.publish {.waveformDetail}
  match published with
  | (.error code, s) => (work.stop (.error code), s)
  | (_, s) =>
      ((work.announce {.waveformDetail} s.generation).unblock,
        { s with detail := { s.detail with publishedSerial := s.detail.mutationSerial } })

/-- The queue and the demand as the overview layer sees them. -/
def stageDemand (s : Session) : Session := (s.demandOverview {.waveformDetail}).orderQueue

/-- What the detail layer does after the overview layer: account for the request it served, update
the detail requests, and publish the tiles that have changed. -/
def finishDetail (detailChanged : Bool) (selected : ℕ) (work : Work) (s : Session) :
    Work × Session :=
  let s := if work.didWork then { s with requests := noteChoice selected s.requests } else s
  let s := s.updateDetailRequestStates
  if s.config.requests .waveformDetail &&
      (detailChanged || decide (s.detail.mutationSerial ≠ s.detail.publishedSerial)) then
    s.publishDetail work
  else (work, s)

/-- The detail layer around the overview layer. -/
def processDetail (budget : WorkBudget) (progress : Progress) (s : Session) : Work × Session :=
  let s := s.refreshDetail
  let detailChanged := decide (s.detail.mutationSerial ≠ s.detail.publishedSerial)
  match s.stageDemand.reserveAccumulators with
  | (.error code, staged) => (⟨.error code, false, false, progress⟩, s.restoreDemand staged)
  | (_, staged) =>
      match staged.raisePriorities.processBase budget progress with
      | (work, after) =>
          let after := s.restoreDemand after
          if work.status.failed then (work, after)
          else after.finishDetail detailChanged s.stageDemand.headRequestId work

/-! ## Estimator layers -/

/-- Steps of a budget that are left. -/
def remainingSteps (budget : WorkBudget) (completed : ℕ) : ℕ :=
  if budget.maximumSteps = 0 then uint32Max else budget.maximumSteps - completed

/-- Account for the steps and the status of a refresh. -/
def noteRefresh (work : Work) (status : Status) (steps : ℕ) : Work :=
  let work := { work with
    progress := { work.progress with completedSteps := work.progress.completedSteps + steps } }
  let work := if steps ≠ 0 then { work with didWork := true }.unblock else work
  if status = .moreWork then { work with status := .moreWork } else work

/-- The features of the local estimate that are not published yet. -/
def s4PendingFeatures (s : Session) : FeatureMask :=
  if s.s4.mutationSerial = s.s4.publishedSerial then ∅
  else if s.s4.estimate.isSome then
    {.bpm} ∪ s.ifRequested .confidence ∪ ({.localBeatgrid} ∪ s.ifRequested .gridLocking)
  else ∅

/-- Note that the local estimate is published. -/
def s4MarkPublished (s : Session) : Session :=
  { s with s4 := { s.s4 with publishedSerial := s.s4.mutationSerial } }

/-- The features of the global grid that are not published yet. -/
def s6PendingFeatures (s : Session) : FeatureMask :=
  match s.s6 with
  | none => ∅
  | some s6 =>
      if s6.mutationSerial = s6.publishedSerial ∨ !s6.hasGlobalGrid then ∅
      else
        {.globalBeatgrid} ∪ s.ifRequested .dynamicTempo ∪ s.ifRequested .confidence ∪
          (if s6.revisionPending then s.ifRequested .gridLocking else ∅)

/-- Note that the global grid is published. -/
def s6MarkPublished (s : Session) : Session :=
  { s with s6 := s.s6.map fun s6 => { s6 with publishedSerial := s6.mutationSerial } }

/-- Publish what an estimator has pending. -/
def publishPending (pending : FeatureMask) (markPublished : Session → Session) (work : Work)
    (s : Session) : Work × Session :=
  if pending = ∅ then (work, s)
  else
    match s.publish pending with
    | (.error code, s) => (work.stop (.error code), s)
    | (_, s) => ((work.announce pending s.generation).unblock, markPublished s)

/-- Requested and applicability range of the local grid. -/
def localRanges (s : Session) : FrameRange × FrameRange :=
  match s.s4.estimate with
  | some estimate => (estimate.requestedRange, estimate.applicabilityRange)
  | none => (⟨0, 0⟩, ⟨0, 0⟩)

/-- Steps the local estimator may use: half of what is left when the global one was requested too,
none when the deadline has passed. -/
def s4StepLimit (budget : WorkBudget) (work : Work) (s : Session) : ℕ × Session :=
  let remaining := remainingSteps budget work.progress.completedSteps
  let remaining :=
    if remaining ≠ uint32Max ∧ 1 < remaining ∧ S6State.enabled s.config.requestedFeatures then
      remaining / 2
    else remaining
  (if s.env.deadlinePassed.1 then 0 else remaining, { s with env := s.env.deadlinePassed.2 })

/-- Steps the global estimator may use. -/
def s6StepLimit (budget : WorkBudget) (work : Work) (s : Session) : ℕ × Session :=
  (if s.env.deadlinePassed.1 then 0 else remainingSteps budget work.progress.completedSteps,
    { s with env := s.env.deadlinePassed.2 })

/-- Refresh the local estimate within a step limit. -/
def refreshS4 (limit : ℕ) (s : Session) : Option (Status × ℕ × Session) :=
  (S4State.refresh s.analysisContext limit s.s4 s.env).map fun result =>
    (result.status, result.steps, { s with s4 := result.state, env := result.env })

/-- Refresh the global grid within a step limit; nothing to do while it is not allocated. -/
def refreshS6 (limit : ℕ) (s : Session) : Option (Status × ℕ × Session) :=
  match s.s6 with
  | none => some (.ok, 0, s)
  | some s6 =>
      (S6State.refresh s.globalContext limit s6 s.s4.s6NominalTempo s.env).map fun result =>
        (result.status, result.steps,
          { s with
            s6 := some result.state
            s4 := { s.s4 with s6NominalTempo := result.nominalTempo }
            env := result.env })

/-- A committed estimate whose ranges moved with the focus is a change to publish. -/
def noteRangesMoved (serial : ℕ) (ranges : FrameRange × FrameRange) (s : Session) : Session :=
  if s.s4.estimate.isSome ∧ s.s4.mutationSerial = serial ∧ s.localRanges ≠ ranges then
    { s with s4 := { s.s4 with mutationSerial := s.s4.mutationSerial + 1 } }
  else s

/-- The local estimator around the detail layer; `none` when its refresh does not end. -/
def processS4 (budget : WorkBudget) (progress : Progress) (s : Session) : Option (Work × Session) :=
  match (s.demandOverview s4Features).processDetail budget progress with
  | (work, after) =>
      let after := s.restoreDemand after
      if work.status.failed then some (work, after)
      else
        match after.s4StepLimit budget work with
        | (limit, after) =>
            (after.refreshS4 limit).map fun (status, steps, after) =>
              if status.failed then (work.stop status, after)
              else
                let after := after.noteRangesMoved s.s4.mutationSerial s.localRanges
                after.publishPending after.s4PendingFeatures s4MarkPublished
                  (noteRefresh work status steps)

/-- The global estimator around the local one. -/
def processS6 (budget : WorkBudget) (progress : Progress) (s : Session) : Option (Work × Session) :=
  (s.processS4 budget progress).bind fun (work, after) =>
    if work.status.failed then some (work, after)
    else
      match after.s6StepLimit budget work with
      | (limit, after) =>
          (after.refreshS6 limit).map fun (status, steps, after) =>
            if status.failed then (work.stop status, after)
            else
              after.publishPending after.s6PendingFeatures s6MarkPublished
                (noteRefresh work status steps)

/-- An estimator has a search active or due. -/
def analysisPending (s : Session) : Bool :=
  s.s4.refreshPending ||
    match s.s6 with
    | some s6 => s6.refreshPending
    | none => false

/-! ## The process call -/

/-- The layers of a call; a session without an overview has none. -/
def runLayers (budget : WorkBudget) (progress : Progress) (s : Session) : Option (Work × Session) :=
  if s.config.requests .waveformOverview then s.processS6 budget progress
  else some (⟨.wouldBlock, false, false, progress⟩, s)

/-- The end of a call: a draining session with nothing left to do completes. -/
def concludeCall (work : Work) (s : Session) : Status × Progress × Session :=
  if work.status.failed then (work.status, work.progress, s)
  else if s.state = .draining ∧ s.queue = [] ∧ !s.analysisPending then
    match s.transition .completed with
    | (.error code, s) => (.error code, work.progress, s)
    | (_, s) => (.endOfInput, { work.progress with publishedGeneration := s.generation }, s)
  else
    (if work.didWork || work.published then work.status
      else if work.status = .moreWork then .moreWork else .wouldBlock, work.progress, s)

/-- A process call between setting and clearing its deadline. -/
def processStarted (budget : WorkBudget) (s : Session) : Option (Status × Progress × Session) :=
  let progress : Progress := ⟨0, 0, ∅, s.generation⟩
  if s.cancelRequested then
    match s.transition .cancelled with
    | (.error code, s) => some (.error code, progress, s)
    | (_, s) => some (.error .cancelled, progress, s)
  else
    match s.state with
    | .completed => some (.endOfInput, progress, s)
    | .cancelled => some (.error .cancelled, progress, s)
    | .failed => some (.error .internal, progress, s)
    | _ => (s.runLayers budget progress).map fun (work, s) => s.concludeCall work

/-- A process call without the pull adapter. -/
def processImpl (budget : WorkBudget) (s : Session) : Option (Status × Progress × Session) :=
  (processStarted budget { s with env := s.env.startDeadline budget.softTimeBudgetUs }).map
    fun (status, progress, s) => (status, progress, { s with env := s.env.clearDeadline })

end Session

end LibApta
