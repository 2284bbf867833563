import LibApta.Session.Process

/-!
# Asking for PCM

Which frames the session wants next. The overview selector serves the strongest active request, else
the focus, else the track from its start, and names the first missing piece of that target. A pull
session asks its source for that piece before every process call; a push host asks the session for
it, and is offered detail demands first.
-/

namespace LibApta

namespace Session

/-! ## Overview demand -/

/-- A range of frames the session wants, with the priority and the request it serves. -/
structure DemandTarget where
  range : FrameRange
  priority : ℕ
  token : ℕ

/-- The strongest active request that names the overview, the first of equals. -/
def selectOverviewRequest (requests : List Request) : Option Request :=
  requests.foldl (fun best candidate =>
    if candidate.wantsFeature .waveformOverview then
      match best with
      | none => some candidate
      | some current =>
          if current.request.priority < candidate.request.priority then some candidate else best
    else best) none

/-- The target of the strongest request, else of the focus, else none. -/
def demandedTarget (s : Session) : DemandTarget :=
  match selectOverviewRequest s.requests with
  | some request => ⟨request.request.range, request.request.priority, request.requestId⟩
  | none =>
      match s.focus with
      | some focus =>
          if Feature.waveformOverview ∈ focus.featureMask then ⟨focus.window, focus.priority, 0⟩
          else ⟨⟨0, 0⟩, 0, 0⟩
      | none => ⟨⟨0, 0⟩, 0, 0⟩

/-- The target once an empty one has been replaced by the track, and cut to the known total. -/
def overviewTarget (s : Session) : DemandTarget :=
  let target := s.demandedTarget
  let range : FrameRange :=
    if target.range.endFrame ≤ target.range.firstFrame then
      match s.config.totalFrames with
      | none =>
          ⟨s.accepted.greatestEnd, min (s.accepted.greatestEnd + maxPushFrames) uint64Max⟩
      | some total => ⟨0, total⟩
    else target.range
  { target with
    range := ⟨range.firstFrame,
      match s.config.totalFrames with
      | some total => min range.endFrame total
      | none => range.endFrame⟩ }

/-- The first missing piece of the overview target, at most one push long. -/
def nextOverviewRequestBase (s : Session) : Except Status PcmRequest :=
  let target := s.overviewTarget
  match s.accepted.findMissingRange target.range.firstFrame target.range.endFrame with
  | none => .error .notAvailable
  | some (first, past) =>
      .ok ⟨⟨first, min past (first + maxPushFrames)⟩, {.waveformOverview}, target.priority,
        target.token⟩

/-- The overview demand on staged requests; a demand that is served ages the others. -/
def nextOverviewRequest (s : Session) : Except Status PcmRequest × Session :=
  match nextOverviewRequestBase
      { s with requests := stageRequests .waveformOverview s.requests } with
  | .ok request => (.ok request, { s with requests := noteChoice request.requestToken s.requests })
  | .error status => (.error status, s)

/-- The next range of frames a push host should deliver. -/
def nextPcmRequest (s : Session) : Except Status PcmRequest × Session :=
  match Detail.nextPcmRequest (s.config.requests .waveformDetail) s.detailContext s.detail with
  | (.ok request, requests) => (.ok request, { s with requests := requests })
  | (.error (.error code), requests) => (.error (.error code), { s with requests := requests })
  | (.error _, requests) =>
      let s := { s with requests := requests }
      if s.config.requests .waveformOverview then
        match (s.demandOverview (s4Features ∪ s6Features)).nextOverviewRequest with
        | (request, after) => (request, s.restoreDemand after)
      else (.error .notAvailable, s)

/-! ## End of input -/

/-- The session with the length of its input fixed. -/
def ended (finalEnd : ℕ) (s : Session) : Session :=
  { s with
    config := { s.config with totalFrames := some finalEnd }
    endOfInput := some finalEnd }

/-- Fix the length of the track and start draining; a failed transition takes the length back. -/
def drainAt (finalEnd : ℕ) (s : Session) : Status × Session :=
  match (s.ended finalEnd).transition .draining with
  | (.error code, after) =>
      (.error code,
        { after with
          config := { after.config with totalFrames := s.config.totalFrames }
          endOfInput := none })
  | result => result

/-- End the input of a session that is not draining yet. -/
def endInput (finalEnd : ℕ) (s : Session) : Status × Session :=
  match s.endOfInput with
  | some old => (if old = finalEnd then .ok else .error .conflict, s)
  | none =>
      if s.config.totalFrames.isSome ∧ s.config.totalFrames ≠ some finalEnd then
        (.error .conflict, s)
      else if finalEnd < s.accepted.maximumEnd then (.error .conflict, s)
      else
        match s.state with
        | .completed | .cancelled | .failed | .draining => (.error .invalidState, s)
        | _ =>
            match s.activate with
            | (.error code, s) => (.error code, s)
            | (_, s) => s.drainAt finalEnd

/-! ## The pull adapter -/

/-- The answer of a pull source to a read. -/
inductive PullRead where
  | block (block : PcmBlock)
  | wouldBlock
  | endOfInput
  | failure
deriving DecidableEq

/-- A pull source: the answer to a read of at most `frames` frames at a frame. -/
abbrev PullSource := ℕ → ℕ → PullRead

/-- A failing source fails the session. -/
def sourceFailure (s : Session) : Status × Session :=
  match s.transition .failed with
  | (.error code, s) => (.error code, s)
  | (_, s) => (.error .source, s)

/-- Validate a block against 64-bit arithmetic, the end of input and the known total. -/
def validatePcmBlock (s : Session) (block : PcmBlock) : Status :=
  if block.frameCount = 0 ∨ block.firstFrame = uint64Max ∨
      uint64Max - block.frameCount < block.firstFrame then .error .invalidArgument
  else
    let past := block.firstFrame + block.frameCount
    if s.endOfInput.any (fun finalEnd => decide (finalEnd < past)) then .error .conflict
    else if s.config.totalFrames.any (fun total => decide (total < past)) then .error .conflict
    else .ok

/-- Settle the status of a delivery: lack of memory is reported, any other error is the fault of the
source and fails the session. -/
def settleDelivery (s : Session) (status : Status) : Status × Session :=
  match status with
  | .error .resultSlotsExhausted | .error .outOfMemory | .error .limitExceeded => (status, s)
  | .error _ => s.sourceFailure
  | _ => (.ok, s)

/-- Take a block that a read of `request` has delivered. -/
def acceptPulled (request : FrameRange) (requestFrames : ℕ) (block : PcmBlock) (s : Session) :
    Status × Session :=
  match s.validatePcmBlock block with
  | .error code => s.settleDelivery (.error code)
  | _ =>
      if block.firstFrame ≠ request.firstFrame ∨ requestFrames < block.frameCount ∨
          request.endFrame < block.firstFrame + block.frameCount then
        s.settleDelivery (.error .source)
      else
        match s.activate with
        | (.error code, s) => s.settleDelivery (.error code)
        | (_, s) =>
            if s.config.requests .waveformOverview then
              match s.acceptPcm block with
              | (status, _, s) => s.settleDelivery status
            else (.ok, s)

/-- Pull one block, unless queued PCM is still to be processed. Nothing left to ask for ends an input
of known length. -/
def pullNext (source : PullSource) (budget : WorkBudget) (s : Session) : Status × Session :=
  if s.queue ≠ [] then (.ok, s)
  else
    match s.nextOverviewRequest with
    | (.error (.error code), s) => (.error code, s)
    | (.error _, s) =>
        match s.config.totalFrames with
        | some total => s.endInput total
        | none => (.wouldBlock, s)
    | (.ok request, s) =>
        let requested := request.range.endFrame - request.range.firstFrame
        let frames :=
          if budget.maximumInputFrames = 0 then requested
          else min requested budget.maximumInputFrames
        match source request.range.firstFrame frames with
        | .wouldBlock => (.wouldBlock, s)
        | .endOfInput =>
            if s.config.totalFrames.isSome ∧
                s.config.totalFrames ≠ some request.range.firstFrame then s.sourceFailure
            else s.endInput request.range.firstFrame
        | .failure => s.sourceFailure
        | .block block => s.acceptPulled request.range frames block

/-- Pull before a process call. -/
def pullPcm (source : PullSource) (budget : WorkBudget) (s : Session) : Status × Session :=
  if !s.hasPullSource then (.error .invalidState, s)
  else
    match s.state with
    | .draining | .completed => (.ok, s)
    | .cancelled => (.error .cancelled, s)
    | .failed => (.error .source, s)
    | _ => s.pullNext source budget

/-- A process call. A pull session that is not being cancelled pulls first. -/
def process (source : PullSource) (budget : WorkBudget) (s : Session) :
    Option (Status × Progress × Session) :=
  if s.config.inputMode = .pull ∧ !s.cancelRequested then
    match s.pullPcm source budget with
    | (.error code, s) => some (.error code, ⟨0, 0, ∅, s.generation⟩, s)
    | (_, s) => s.processImpl budget
  else s.processImpl budget

end Session

end LibApta
