import LibApta.Core.Result
import LibApta.Serialization.Format

/-!
# Feature queries

`apta_result_get_feature_state` is four layers deep. The outermost answers for the global grid, the
next for the local estimate, the next for the detail tiles and the innermost for the overview; each
passes the features of the others on. Published and parsed results are queried alike, through the
part of them that the layers read. States are the numbers of the public header.
-/

namespace LibApta

/-! ## What a query reads -/

/-- A view that applies to one range. -/
structure ScopedView where
  scope : FrameRange
  state : ℕ
  confidence : ℕ
deriving DecidableEq

/-- A grid: its scope and the ranges of its segments. -/
structure GridScope extends ScopedView where
  segments : List FrameRange
deriving DecidableEq

/-- The overview: its state as a whole and the ranges of its spans. -/
structure OverviewScope where
  state : ℕ
  confidence : ℕ
  spans : List FrameRange
deriving DecidableEq

/-- A detail tile. -/
structure TileScope where
  range : FrameRange
  state : ℕ
deriving DecidableEq

/-- The part of a result that the queries read. -/
structure Queryable where
  available : FeatureMask
  overview : OverviewScope
  tiles : List TileScope
  tempo : ScopedView
  localGrid : GridScope
  globalGrid : Option GridScope
deriving DecidableEq

/-- A view of a result that was cleared and never written. -/
def ScopedView.cleared : ScopedView := ⟨⟨0, 0⟩, FeatureState.absent.rank, 0⟩

@[inherit_doc ScopedView.cleared]
def GridScope.cleared : GridScope := ⟨.cleared, []⟩

@[inherit_doc ScopedView.cleared]
def OverviewScope.cleared : OverviewScope := ⟨FeatureState.absent.rank, 0, []⟩

/-- What the queries read of a published grid. -/
def GridView.scope (view : GridView) : GridScope where
  scope := view.applicabilityRange
  state := view.state.rank
  confidence := view.confidence
  segments := view.segments.map GridSegment.applicabilityRange

/-- What the queries read of a published result. -/
def Result.queryable (result : Result) : Queryable where
  available := result.availableFeatures
  overview := (result.overview.map fun view =>
    ⟨view.state.rank, view.confidence, view.spans.map WaveformSpan.sourceRange⟩).getD .cleared
  tiles := result.detailTiles.map fun tile => ⟨tile.sourceRange, tile.state.rank⟩
  tempo := (result.tempo.map fun view =>
    ⟨view.selected.applicabilityRange, view.selected.state.rank, view.selected.confidence⟩).getD
      .cleared
  localGrid := (result.localGrid.map GridView.scope).getD .cleared
  globalGrid := result.globalGrid.map fun grid => grid.1.scope

namespace Container

/-- What the queries read of a parsed grid. -/
def Grid.scope (grid : Grid) : GridScope where
  scope := grid.applicabilityRange
  state := grid.state
  confidence := grid.confidence
  segments := grid.segments.map Segment.applicabilityRange

/-- What the queries read of a parsed result. -/
def ResultData.queryable (data : ResultData) : Queryable where
  available := data.availableFeatures
  overview := (data.overview.map fun view =>
    ⟨view.state, view.confidence, view.spans.map Span.sourceRange⟩).getD .cleared
  tiles := data.detailTiles.map fun tile => ⟨tile.sourceRange, tile.state⟩
  tempo := (data.tempo.map fun tempo =>
    ⟨tempo.selected.applicabilityRange, tempo.selected.state, tempo.selected.confidence⟩).getD
      .cleared
  localGrid := (data.localGrid.map Grid.scope).getD .cleared
  globalGrid := data.globalGrid.map fun grid => grid.1.scope

end Container

/-! ## The layers -/

/-- The answer to a query: the status, and the state and the confidence it writes. -/
structure Answer where
  status : Status
  state : ℕ
  confidence : ℕ
deriving DecidableEq

/-- Two ranges share a frame. -/
def FrameRange.overlaps (left right : FrameRange) : Bool :=
  rangesOverlap left.firstFrame left.endFrame right.firstFrame right.endFrame

/-- One range contains another. -/
def FrameRange.contains (outer inner : FrameRange) : Bool :=
  decide (outer.firstFrame ≤ inner.firstFrame) && decide (inner.endFrame ≤ outer.endFrame)

namespace Queryable

/-- The states of a query. -/
abbrev stateAbsent : ℕ := FeatureState.absent.rank
@[inherit_doc stateAbsent] abbrev statePart : ℕ := FeatureState.part.rank
@[inherit_doc stateAbsent] abbrev stateStable : ℕ := FeatureState.stable.rank
@[inherit_doc stateAbsent] abbrev stateFinal : ℕ := FeatureState.final.rank

/-- The confidence of a view that has none. -/
abbrev confidenceUnset : ℕ := 255

/-- Walk the spans with a cursor up to the end of a range; a gap in front of the cursor ends it. -/
def overviewRangeFullyCovered : List FrameRange → ℕ → ℕ → Bool
  | [], _, _ => false
  | span :: rest, cursor, endFrame =>
      if span.endFrame ≤ cursor then overviewRangeFullyCovered rest cursor endFrame
      else if cursor < span.firstFrame then false
      else if endFrame ≤ span.endFrame then true
      else overviewRangeFullyCovered rest span.endFrame endFrame

/-- Some span overlaps a range. -/
def overviewRangeHasCoverage (spans : List FrameRange) (range : FrameRange) : Bool :=
  spans.any fun span => span.overlaps range

/-- The innermost layer, for the overview. -/
def getFeatureStateBase (result : Queryable) (feature : Feature) (range : Option FrameRange) :
    Answer :=
  if feature ≠ .waveformOverview ∨ feature ∉ result.available then
    ⟨.notAvailable, stateAbsent, confidenceUnset⟩
  else
    let confidence := result.overview.confidence
    match range with
    | none => ⟨.ok, result.overview.state, confidence⟩
    | some range =>
        if range.endFrame ≤ range.firstFrame then
          ⟨.error .invalidArgument, stateAbsent, confidence⟩
        else if overviewRangeFullyCovered result.overview.spans range.firstFrame range.endFrame then
          ⟨.ok, if result.overview.state = stateFinal then stateFinal else stateStable, confidence⟩
        else if overviewRangeHasCoverage result.overview.spans range then
          ⟨.ok, statePart, confidence⟩
        else ⟨.notAvailable, stateAbsent, confidence⟩

/-- Walk the tiles with a cursor up to the end of a range, keeping the weakest state seen. A tile that
starts behind the cursor ends the walk. -/
def detailSweep (endFrame : ℕ) : List TileScope → ℕ → ℕ → Bool → Answer
  | [], _, _, haveOutput =>
      if haveOutput then ⟨.ok, statePart, confidenceUnset⟩
      else ⟨.notAvailable, stateAbsent, confidenceUnset⟩
  | tile :: rest, cursor, weakest, haveOutput =>
      if tile.range.endFrame ≤ cursor then detailSweep endFrame rest cursor weakest haveOutput
      else if cursor < tile.range.firstFrame then
        if haveOutput then ⟨.ok, statePart, confidenceUnset⟩
        else ⟨.notAvailable, stateAbsent, confidenceUnset⟩
      else
        let weakest := if tile.state < weakest then tile.state else weakest
        if endFrame ≤ tile.range.endFrame then ⟨.ok, weakest, confidenceUnset⟩
        else detailSweep endFrame rest tile.range.endFrame weakest true

/-- The state of the detail tiles. -/
def detailGetState (result : Queryable) (range : Option FrameRange) : Answer :=
  if Feature.waveformDetail ∉ result.available ∨ result.tiles = [] then
    ⟨.notAvailable, stateAbsent, confidenceUnset⟩
  else
    match range with
    | none => ⟨.ok, statePart, confidenceUnset⟩
    | some range =>
        if range.endFrame ≤ range.firstFrame then
          ⟨.error .invalidArgument, stateAbsent, confidenceUnset⟩
        else detailSweep range.endFrame result.tiles range.firstFrame stateFinal false

/-- The layer of the detail tiles. -/
def getFeatureStateDetail (result : Queryable) (feature : Feature) (range : Option FrameRange) :
    Answer :=
  if feature ≠ .waveformDetail then result.getFeatureStateBase feature range
  else result.detailGetState range

/-- The state of a view over a range, by its scope alone. -/
def scopedState (view : ScopedView) (range : Option FrameRange) : Answer :=
  match range with
  | none => ⟨.ok, view.state, view.confidence⟩
  | some range =>
      if view.scope.contains range then ⟨.ok, view.state, view.confidence⟩
      else if view.scope.overlaps range then ⟨.ok, statePart, view.confidence⟩
      else ⟨.notAvailable, stateAbsent, view.confidence⟩

/-- A range that was given is not empty. -/
def validateRange (range : Option FrameRange) : Bool :=
  range.all fun range => decide (range.firstFrame < range.endFrame)

/-- The state of a feature of the local estimate. -/
def s4FeatureState (result : Queryable) (feature : Feature) (range : Option FrameRange) : Answer :=
  if feature ∉ result.available then ⟨.notAvailable, stateAbsent, confidenceUnset⟩
  else if feature = .bpm ∨ feature = .confidence then scopedState result.tempo range
  else scopedState result.localGrid.toScopedView range

/-- The layer of the local estimate. It answers for the confidence when there is a tempo. A refused
range leaves the outputs as they were; here they are absent. -/
def getFeatureStateS4 (result : Queryable) (feature : Feature) (range : Option FrameRange) :
    Answer :=
  if feature = .bpm ∨ feature = .localBeatgrid ∨ feature = .gridLocking ∨
      (feature = .confidence ∧ Feature.bpm ∈ result.available) then
    if !validateRange range then ⟨.error .invalidArgument, stateAbsent, confidenceUnset⟩
    else result.s4FeatureState feature range
  else result.getFeatureStateDetail feature range

/-- The outermost layer, for the global grid: `apta_result_get_feature_state`. -/
def getFeatureState (result : Queryable) (feature : Feature) (range : Option FrameRange) : Answer :=
  if feature ≠ .globalBeatgrid ∧ feature ≠ .dynamicTempo then
    result.getFeatureStateS4 feature range
  else if !validateRange range then ⟨.error .invalidArgument, stateAbsent, confidenceUnset⟩
  else
    match result.globalGrid with
    | none => ⟨.notAvailable, stateAbsent, confidenceUnset⟩
    | some grid =>
        if feature ∉ result.available then ⟨.notAvailable, stateAbsent, confidenceUnset⟩
        else scopedState grid.toScopedView range

end Queryable

end LibApta
