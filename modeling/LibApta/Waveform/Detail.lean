import LibApta.Core.Scheduler
import LibApta.Waveform.Process

/-!
# Detail tiles

A cache of four tiles of 64 detail columns each. A sample goes to its column as it is accepted; a
tile that is not resident takes an empty slot, or the least recently used slot that neither the
focus nor an active request protects. Each tile publishes one run of consecutive complete columns,
which only grows while the tile stays resident.

A host may deliver accepted frames again to rebuild tiles the cache has lost: such a replay must be
the first empty column run of the detail target, and feeds the detail columns only. The demand names
the target of the staged requests; a replay is checked against the target of the requests as they
stand in their slots, with their stored priorities.
-/

namespace LibApta

/-- Frames of one detail column. -/
abbrev detailFramesPerColumn : ℕ := 256

/-- Columns of one detail tile. -/
abbrev detailColumnsPerTile : ℕ := 64

/-- Frames of one detail tile. -/
abbrev detailTileFrames : ℕ := 16384

/-- Slots of the tile cache. -/
abbrev maxDetailTiles : ℕ := 4

/-- A resident tile; `run` is the published run of columns, its first column and its length. -/
structure DetailTile where
  tileIndex : ℕ
  accessSerial : ℕ
  accumulators : List Accumulator
  run : Option (ℕ × ℕ)
deriving DecidableEq

/-- The tile cache and its serials. -/
structure Detail where
  tiles : List (Option DetailTile)
  accessSerial : ℕ
  mutationSerial : ℕ
  publishedSerial : ℕ
deriving DecidableEq

/-- What the detail layer reads of the session. -/
structure DetailContext where
  focus : Option Focus
  requests : List Request
  endOfInput : Option ℕ
  totalFrames : Option ℕ

namespace Detail

/-- An empty cache. -/
def empty : Detail := ⟨List.replicate maxDetailTiles none, 0, 0, 0⟩

/-! ## The tile cache -/

/-- The focus or an active request wants the frames of a tile. -/
def tileIsProtected (ctx : DetailContext) (tileIndex : ℕ) : Bool :=
  let first := tileIndex * detailTileFrames
  let past := first + detailTileFrames
  (match ctx.focus with
    | some focus =>
        decide (Feature.waveformDetail ∈ focus.featureMask) &&
          rangesOverlap first past focus.window.firstFrame focus.window.endFrame
    | none => false) ||
  ctx.requests.any fun request =>
    request.wantsFeature .waveformDetail &&
      rangesOverlap first past request.request.range.firstFrame request.request.range.endFrame

/-- The slot of a resident tile. -/
def findTileSlot (detail : Detail) (tileIndex : ℕ) : Option ℕ :=
  detail.tiles.findIdx? fun slot => match slot with
    | some tile => tile.tileIndex == tileIndex
    | none => false

/-- The resident tile of an index. -/
def findTile (detail : Detail) (tileIndex : ℕ) : Option DetailTile :=
  (detail.findTileSlot tileIndex).bind fun slot => (detail.tiles[slot]?).join

/-- The first slot of the lowest access serial among the resident tiles that pass a test. -/
def oldestSlotFrom (candidate : DetailTile → Bool) :
    List (Option DetailTile) → ℕ → Option (ℕ × ℕ) → Option (ℕ × ℕ)
  | [], _, best => best
  | none :: rest, index, best => oldestSlotFrom candidate rest (index + 1) best
  | some tile :: rest, index, best =>
      oldestSlotFrom candidate rest (index + 1)
        (if candidate tile then
          match best with
          | none => some (index, tile.accessSerial)
          | some (slot, serial) =>
              if tile.accessSerial < serial then some (index, tile.accessSerial)
              else some (slot, serial)
        else best)

/-- The slot a new tile takes: an empty one, else the oldest unprotected one, else the oldest one
when the new tile is itself protected. -/
def replacementSlot (ctx : DetailContext) (detail : Detail) (tileIndex : ℕ) : Option ℕ :=
  match detail.tiles.findIdx? Option.isNone with
  | some slot => some slot
  | none =>
      match oldestSlotFrom (fun tile => !tileIsProtected ctx tile.tileIndex) detail.tiles 0 none with
      | some (slot, _) => some slot
      | none =>
          if tileIsProtected ctx tileIndex then
            (oldestSlotFrom (fun _ => true) detail.tiles 0 none).map Prod.fst
          else none

/-- A fresh tile. -/
def newTile (tileIndex accessSerial : ℕ) : DetailTile :=
  ⟨tileIndex, accessSerial, (List.range detailColumnsPerTile).map Accumulator.new, none⟩

/-- The slot of a tile, made resident if it is not; `none` when the cache has no room for it. -/
def findOrCreateTile (ctx : DetailContext) (detail : Detail) (tileIndex : ℕ) :
    Option ℕ × Detail :=
  match detail.findTileSlot tileIndex with
  | some slot =>
      (some slot,
        { detail with
          accessSerial := detail.accessSerial + 1
          tiles := detail.tiles.modify slot
            (Option.map fun tile => { tile with accessSerial := detail.accessSerial + 1 }) })
  | none =>
      match replacementSlot ctx detail tileIndex with
      | none => (none, detail)
      | some slot =>
          let dropsRun := match (detail.tiles[slot]?).join with
            | some tile => tile.run.isSome
            | none => false
          (some slot,
            { detail with
              mutationSerial := detail.mutationSerial + (if dropsRun then 1 else 0)
              accessSerial := detail.accessSerial + 1
              tiles := detail.tiles.set slot (some (newTile tileIndex (detail.accessSerial + 1))) })

/-- Add one sample to its detail column. -/
def processSample (ctx : DetailContext) (detail : Detail) (sourceFrame : ℕ) (sample : ℚ) :
    Status × Detail :=
  if uint32Max / detailColumnsPerTile < sourceFrame / detailTileFrames then
    (.error .limitExceeded, detail)
  else
    match findOrCreateTile ctx detail (sourceFrame / detailTileFrames) with
    | (none, detail) => (.notAvailable, detail)
    | (some slot, detail) =>
        (.ok,
          { detail with
            tiles := detail.tiles.modify slot (Option.map fun tile =>
              { tile with
                accumulators := tile.accumulators.modify
                  (sourceFrame % detailTileFrames / detailFramesPerColumn)
                  fun acc => acc.addSample sample }) })

/-! ## Completion and published runs -/

/-- Frames a detail column must hold to be complete. -/
def expectedColumnFrames (endOfInput : Option ℕ) (tileIndex columnIndex : ℕ) : ℕ :=
  let first := tileIndex * detailTileFrames + columnIndex * detailFramesPerColumn
  match endOfInput with
  | none => detailFramesPerColumn
  | some finalEnd => min (first + detailFramesPerColumn) finalEnd - first

/-- Columns a tile has once the end of input is known. -/
def expectedTileColumns (endOfInput : Option ℕ) (tileIndex : ℕ) : ℕ :=
  let first := tileIndex * detailTileFrames
  match endOfInput with
  | none => detailColumnsPerTile
  | some finalEnd =>
      if first + detailTileFrames ≤ finalEnd then detailColumnsPerTile
      else if finalEnd ≤ first then 0
      else (finalEnd - first + detailFramesPerColumn - 1) / detailFramesPerColumn

/-- The column is complete. -/
def columnComplete (accumulators : List Accumulator) (column : ℕ) : Bool :=
  match accumulators[column]? with
  | some acc => acc.complete
  | none => false

/-- Move the first column of a run down over complete columns. -/
def extendRunDown (accumulators : List Accumulator) : ℕ → ℕ
  | 0 => 0
  | first + 1 =>
      if columnComplete accumulators first then extendRunDown accumulators first else first + 1

/-- Move the end of a run up over complete columns. -/
def extendRunUp (accumulators : List Accumulator) : ℕ → ℕ → ℕ
  | 0, past => past
  | fuel + 1, past =>
      if columnComplete accumulators past then extendRunUp accumulators fuel (past + 1) else past

/-- The first longest run of complete columns: the best run so far and the one being scanned. -/
def longestRunFrom : List Accumulator → ℕ → ℕ × ℕ → ℕ × ℕ → ℕ × ℕ
  | [], _, best, _ => best
  | acc :: rest, column, best, current =>
      if acc.complete then
        let current := (if current.2 = 0 then column else current.1, current.2 + 1)
        longestRunFrom rest (column + 1) (if best.2 < current.2 then current else best) current
      else longestRunFrom rest (column + 1) best (current.1, 0)

/-- Extend the published run of a tile, or choose it once a column is complete. -/
def selectOrExtendRun (tile : DetailTile) : DetailTile :=
  match tile.run with
  | some (first, count) =>
      let newFirst := extendRunDown tile.accumulators first
      let newEnd :=
        extendRunUp tile.accumulators (detailColumnsPerTile - (first + count)) (first + count)
      { tile with run := some (newFirst, newEnd - newFirst) }
  | none =>
      let best := longestRunFrom tile.accumulators 0 (0, 0) (0, 0)
      if best.2 = 0 then tile else { tile with run := some best }

/-- Mark the complete columns of a tile and update its run. -/
def refreshTile (endOfInput : Option ℕ) (tile : DetailTile) : DetailTile :=
  selectOrExtendRun
    { tile with
      accumulators := tile.accumulators.map fun acc =>
        let expected := expectedColumnFrames endOfInput tile.tileIndex acc.columnIndex
        if !acc.complete && decide (expected ≠ 0) && decide (acc.sampleCount = expected) then
          { acc with complete := true }
        else acc }

/-- Refresh every resident tile; each run that changed is a mutation. -/
def refreshCompleted (endOfInput : Option ℕ) (detail : Detail) : Detail :=
  { detail with
    tiles := detail.tiles.map (Option.map (refreshTile endOfInput))
    mutationSerial := detail.mutationSerial + detail.tiles.countP fun slot => match slot with
      | some tile => (refreshTile endOfInput tile).run != tile.run
      | none => false }

/-! ## Request satisfaction -/

/-- Every detail column that meets a range is resident and complete. -/
def rangeComplete (detail : Detail) (firstFrame endFrame : ℕ) : Bool :=
  decide (firstFrame < endFrame) &&
    (List.range' (firstFrame / detailFramesPerColumn)
      ((endFrame - 1) / detailFramesPerColumn + 1 - firstFrame / detailFramesPerColumn)).all
      fun column =>
        decide (column / detailColumnsPerTile ≤ uint32Max) &&
          match detail.findTile (column / detailColumnsPerTile) with
          | some tile => columnComplete tile.accumulators (column % detailColumnsPerTile)
          | none => false

/-- The frames of the published run of a tile. -/
def runRange (endOfInput : Option ℕ) (tile : DetailTile) (first count : ℕ) : FrameRange :=
  let runFirst := tile.tileIndex * detailTileFrames + first * detailFramesPerColumn
  let runEnd := runFirst + count * detailFramesPerColumn
  ⟨runFirst, match endOfInput with
    | some finalEnd => if finalEnd < runEnd then finalEnd else runEnd
    | none => runEnd⟩

/-- A published run meets a range. -/
def rangeHasOutput (endOfInput : Option ℕ) (detail : Detail) (firstFrame endFrame : ℕ) : Bool :=
  detail.tiles.any fun slot => match slot with
    | some tile => match tile.run with
      | some (first, count) =>
          let range := runRange endOfInput tile first count
          rangesOverlap range.firstFrame range.endFrame firstFrame endFrame
      | none => false
    | none => false

/-! ## Demand and replay -/

/-- The detail column is not resident or has received no sample. -/
def columnIsEmpty (detail : Detail) (column : ℕ) : Bool :=
  if uint32Max < column / detailColumnsPerTile then false
  else match detail.findTile (column / detailColumnsPerTile) with
    | none => true
    | some tile => match tile.accumulators[column % detailColumnsPerTile]? with
      | some acc => acc.sampleCount == 0
      | none => true

/-- The strongest active detail request, the first of equals. -/
def selectRequest (requests : List Request) : Option Request :=
  requests.foldl (fun best candidate =>
    if candidate.wantsFeature .waveformDetail then
      match best with
      | none => some candidate
      | some current =>
          if current.request.priority < candidate.request.priority then some candidate else best
    else best) none

/-- The frames the detail layer wants: those of the strongest request, else of the focus. -/
def selectTarget (ctx : DetailContext) : Option PcmRequest :=
  let target : Option (FrameRange × ℕ × ℕ) :=
    match selectRequest ctx.requests with
    | some request => some (request.request.range, request.request.priority, request.requestId)
    | none => match ctx.focus with
      | some focus =>
          if Feature.waveformDetail ∈ focus.featureMask then some (focus.window, focus.priority, 0)
          else none
      | none => none
  match target with
  | none => none
  | some (range, priority, token) =>
      let past := match ctx.totalFrames with
        | some total => if total < range.endFrame then total else range.endFrame
        | none => range.endFrame
      if past ≤ range.firstFrame then none
      else some ⟨⟨range.firstFrame, past⟩, {.waveformDetail}, priority, token⟩

/-- The first run of empty columns of the current target, at most one push long. The end of the
target is rounded up to a column in 64 bits, so that an end above the safe one wraps to zero. -/
def nextPcmRequestBase (ctx : DetailContext) (detail : Detail) : Except Status PcmRequest :=
  match selectTarget ctx with
  | none => .error .notAvailable
  | some target =>
      let firstColumn := target.range.firstFrame / detailFramesPerColumn
      let endColumn :=
        (target.range.endFrame + detailFramesPerColumn - 1) % (uint64Max + 1) /
          detailFramesPerColumn
      match (List.range' firstColumn (endColumn - firstColumn)).find? detail.columnIsEmpty with
      | none => .error .notAvailable
      | some column =>
          let count := ((List.range' column
            (min (endColumn - column) (maxPushFrames / detailFramesPerColumn))).takeWhile
              detail.columnIsEmpty).length
          let first := column * detailFramesPerColumn
          let past := match ctx.totalFrames with
            | some total => min ((column + count) * detailFramesPerColumn) total
            | none => (column + count) * detailFramesPerColumn
          if uint64Max / detailFramesPerColumn < column ∨
              uint64Max / detailFramesPerColumn < column + count then
            .error (.error .limitExceeded)
          else if past ≤ first then .error .notAvailable
          else .ok { target with range := ⟨first, past⟩ }

/-- The largest frame at which a detail range may end. -/
abbrev maximumSafeEnd : ℕ := uint64Max - (detailFramesPerColumn - 1)

/-- The focus and the requests as the detail demand selector sees them: ends clamped below the
64-bit limit, slots staged for the detail feature. -/
def stagedContext (ctx : DetailContext) : DetailContext :=
  { ctx with
    focus := ctx.focus.map fun focus =>
      if focus.playheadFrame < maximumSafeEnd ∧
          maximumSafeEnd - focus.playheadFrame < focus.lookaheadFrames then
        { focus with lookaheadFrames := maximumSafeEnd - focus.playheadFrame }
      else focus
    requests := stageRequests .waveformDetail (ctx.requests.map fun request =>
      if maximumSafeEnd < request.request.range.endFrame then
        { request with
          request := { request.request with
            range := { request.request.range with endFrame := maximumSafeEnd } } }
      else request) }

/-- The next detail demand, and the request slots aged by the choice. -/
def nextPcmRequest (detailRequested : Bool) (ctx : DetailContext) (detail : Detail) :
    Except Status PcmRequest × List Request :=
  if detailRequested then
    match nextPcmRequestBase (stagedContext ctx) detail with
    | .ok request => (.ok request, noteChoice request.requestToken ctx.requests)
    | .error status => (.error status, ctx.requests)
  else (.error .notAvailable, ctx.requests)

/-- Feed a replayed block; a failing sample stops it. -/
def replaySamples (ctx : DetailContext) : List ℚ → ℕ → Detail → Status × Detail
  | [], _, detail => (.ok, detail)
  | sample :: rest, frame, detail =>
      match processSample ctx detail frame sample with
      | (.error code, detail) => (.error code, detail)
      | (_, detail) => replaySamples ctx rest (frame + 1) detail

/-- Accept a block of frames that were accepted before. Not available unless the block is aligned to
detail columns and starts the first empty run of the target of the unstaged requests. -/
def acceptReplay (detailRequested : Bool) (ctx : DetailContext) (detail : Detail)
    (block : PcmBlock) : Status × ℕ × Detail :=
  let past := block.firstFrame + block.frameCount
  if block.firstFrame % detailFramesPerColumn ≠ 0 ∨
      past % detailFramesPerColumn ≠ 0 ∧ ctx.totalFrames ≠ some past ∨ !detailRequested then
    (.notAvailable, 0, detail)
  else
    match nextPcmRequestBase ctx detail with
    | .error _ => (.notAvailable, 0, detail)
    | .ok request =>
        if block.firstFrame ≠ request.range.firstFrame ∨ block.frameCount = 0 ∨
            request.range.endFrame - request.range.firstFrame < block.frameCount then
          (.notAvailable, 0, detail)
        else
          let accepted := min block.frameCount maxPushFrames
          match replaySamples ctx (block.samples.take accepted) block.firstFrame detail with
          | (.ok, detail) =>
              (if accepted = block.frameCount then .ok else .moreWork, accepted,
                refreshCompleted ctx.endOfInput detail)
          | (status, detail) => (status, 0, detail)

end Detail

end LibApta
