import LibApta.Waveform.Accumulators

/-!
# Processing queued PCM into overview columns

The base layer of a process call: pick the queued node of the highest priority, feed a chunk of at
most 256 of its frames to the overview columns, mark the columns that are now complete, and repeat
until the queue, the frame budget or the step budget is exhausted or the soft deadline has passed.
A chunk that fails half way keeps the frames it has already added but does not advance the node.
-/

namespace LibApta

/-! ## The PCM queue -/

/-- A queued run of accepted samples, of which the first `processedFrames` are consumed. -/
structure PcmNode where
  firstFrame : ℕ
  samples : List ℚ
  processedFrames : ℕ
deriving DecidableEq

namespace PcmNode

/-- Frames of the node. -/
def frameCount (node : PcmNode) : ℕ := node.samples.length

/-- The first frame not yet consumed. -/
def nextFrame (node : PcmNode) : ℕ := node.firstFrame + node.processedFrames

/-- The frame after the last one. -/
def endFrame (node : PcmNode) : ℕ := node.firstFrame + node.frameCount

/-- Frames not yet consumed. -/
def remaining (node : PcmNode) : ℕ := node.frameCount - node.processedFrames

end PcmNode

/-- What the waveform layer reads of the session while it consumes PCM. -/
structure ProcessContext where
  framesPerColumn : ℕ
  hasBands : Bool
  endOfInput : Option ℕ
  focus : Option Focus
  requests : List Request

/-- The overview wants this request served. -/
def Request.wantsFeature (request : Request) (feature : Feature) : Bool :=
  request.isActive && decide (feature ∈ request.request.featureMask)

/-- Priority of a node: that of the focus if it overlaps, raised by every overlapping request. -/
def nodePriority (ctx : ProcessContext) (node : PcmNode) : ℕ :=
  let focusPriority := match ctx.focus with
    | some focus =>
        if decide (Feature.waveformOverview ∈ focus.featureMask) &&
            decide (focus.window.firstFrame < focus.window.endFrame) &&
            rangesOverlap node.nextFrame node.endFrame focus.window.firstFrame
              focus.window.endFrame
        then focus.priority else 0
    | none => 0
  ctx.requests.foldl (fun priority request =>
    if request.wantsFeature .waveformOverview &&
        rangesOverlap node.nextFrame node.endFrame request.request.range.firstFrame
          request.request.range.endFrame &&
        decide (priority < request.request.priority)
    then request.request.priority else priority) focusPriority

/-- The position of the first queued node of the highest priority. -/
def selectPcmNodeFrom (ctx : ProcessContext) : List PcmNode → ℕ → Option (ℕ × ℕ) → Option (ℕ × ℕ)
  | [], _, best => best
  | node :: rest, index, none =>
      selectPcmNodeFrom ctx rest (index + 1) (some (index, nodePriority ctx node))
  | node :: rest, index, some (position, priority) =>
      selectPcmNodeFrom ctx rest (index + 1)
        (if priority < nodePriority ctx node then some (index, nodePriority ctx node)
          else some (position, priority))

/-- The node the next chunk is taken from. -/
def selectPcmNode (ctx : ProcessContext) (queue : List PcmNode) : Option ℕ :=
  (selectPcmNodeFrom ctx queue 0 none).map Prod.fst

/-! ## Columns -/

/-- Frames a column must hold to be complete; after the end of input the last column may be short
and the columns past it expect none. -/
def expectedColumnFrames (framesPerColumn : ℕ) (endOfInput : Option ℕ) (columnIndex : ℕ) : ℕ :=
  match endOfInput with
  | none => framesPerColumn
  | some finalEnd =>
      if finalEnd ≤ columnIndex * framesPerColumn then 0
      else min (columnIndex * framesPerColumn + framesPerColumn) finalEnd -
        columnIndex * framesPerColumn

/-- A column that has just received all its frames. -/
def becomesComplete (framesPerColumn : ℕ) (endOfInput : Option ℕ) (acc : Accumulator) : Bool :=
  !acc.complete &&
    decide (expectedColumnFrames framesPerColumn endOfInput acc.columnIndex ≠ 0) &&
    decide (acc.sampleCount = expectedColumnFrames framesPerColumn endOfInput acc.columnIndex)

/-- Mark the columns that have all their frames. -/
def refreshCompletedColumns (framesPerColumn : ℕ) (endOfInput : Option ℕ) (overview : Overview) :
    Overview :=
  { overview with
    accumulators := overview.accumulators.map fun acc =>
      if becomesComplete framesPerColumn endOfInput acc then { acc with complete := true } else acc
    completeCount := overview.completeCount +
      overview.accumulators.countP (becomesComplete framesPerColumn endOfInput) }

/-- Add one sample to the accumulator at a position, and its bands when they were requested. -/
def Overview.addSampleAt (hasBands : Bool) (overview : Overview) (position : ℕ) (sample : ℚ) :
    Overview :=
  if hasBands then
    let (bands, filter) := overview.bandFilter.split sample
    { overview with
      accumulators := overview.accumulators.modify position fun acc =>
        (acc.addSample sample).addBands bands
      bandFilter := filter }
  else
    { overview with
      accumulators := overview.accumulators.modify position fun acc => acc.addSample sample }

/-- Feed consecutive samples, the first of them at `frame`, to their columns. A failure leaves the
samples before it accounted for. -/
def processSamples (framesPerColumn : ℕ) (hasBands : Bool) :
    List ℚ → ℕ → Overview → Environment → Status × Overview × Environment
  | [], _, overview, env => (.ok, overview, env)
  | sample :: rest, frame, overview, env =>
      if uint32Max < frame / framesPerColumn then (.error .limitExceeded, overview, env)
      else
        match overview.findOrInsert hasBands (frame / framesPerColumn) env with
        | (.error status, overview, env) => (status, overview, env)
        | (.ok position, overview, env) =>
            processSamples framesPerColumn hasBands rest (frame + 1)
              (overview.addSampleAt hasBands position sample) env

/-! ## The chunk loop -/

/-- The part of a session the chunk loop works on, and what it has done so far. -/
structure ChunkState where
  queue : List PcmNode
  overview : Overview
  env : Environment
  consumed : ℕ
  steps : ℕ
deriving DecidableEq

/-- Consume the chunk `[processedFrames, processedFrames + chunk)` of the node at a position, and
drop the node when that was its last. -/
def advanceNode (queue : List PcmNode) (position chunk : ℕ) : List PcmNode :=
  match queue[position]? with
  | none => queue
  | some node =>
      if node.processedFrames + chunk = node.frameCount then queue.eraseIdx position
      else queue.set position { node with processedFrames := node.processedFrames + chunk }

/-- The chunk loop. The fuel is the number of queued frames: every round consumes at least one. -/
def processChunks (ctx : ProcessContext) (frameLimit stepLimit : ℕ) :
    ℕ → ChunkState → Status × ChunkState
  | 0, state => (.ok, state)
  | fuel + 1, state =>
      if state.queue = [] ∨ frameLimit ≤ state.consumed ∨ stepLimit ≤ state.steps then (.ok, state)
      else
        match selectPcmNode ctx state.queue with
        | none => (.ok, state)
        | some position =>
            match state.queue[position]? with
            | none => (.ok, state)
            | some node =>
                let chunk :=
                  min (min node.remaining processChunkFrames) (frameLimit - state.consumed)
                if chunk = 0 then (.ok, state)
                else
                  match processSamples ctx.framesPerColumn ctx.hasBands
                      ((node.samples.drop node.processedFrames).take chunk) node.nextFrame
                      state.overview state.env with
                  | (.ok, overview, env) =>
                      let state := {
                        queue := advanceNode state.queue position chunk
                        overview :=
                          refreshCompletedColumns ctx.framesPerColumn ctx.endOfInput overview
                        env := env.deadlinePassed.2
                        consumed := state.consumed + chunk
                        steps := state.steps + 1 }
                      if env.deadlinePassed.1 then (.ok, state)
                      else processChunks ctx frameLimit stepLimit fuel state
                  | (status, overview, env) =>
                      (status, { state with overview := overview, env := env })

/-- Queued frames that are not consumed yet. -/
def queuedFrames (queue : List PcmNode) : ℕ := (queue.map PcmNode.remaining).sum

end LibApta
