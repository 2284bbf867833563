import LibApta.Lib.Cover
import LibApta.Query.Accessors

/-!
# What range queries say of coverage

A range query tells the truth when it reports a complete state only for a range that the published
coverage of the feature contains, a partial state exactly for a range that meets the coverage without
being contained in it, and nothing exactly for a range that misses it. Each layer of
`getFeatureState` looks at the coverage in its own way, so each has its own condition for the truth;
`tellsTruth_iff` says that the conditions are exact.
-/

namespace LibApta

/-! ## Coverage -/

namespace FrameRange

/-- The frame lies in one of the ranges. -/
abbrev Holds (pieces : List FrameRange) (frame : ℕ) : Prop :=
  Cover.Holds FrameRange.firstFrame FrameRange.endFrame pieces frame

/-- The ranges contain every frame of a range. -/
abbrev Covers (pieces : List FrameRange) (range : FrameRange) : Prop :=
  Cover.Covers FrameRange.firstFrame FrameRange.endFrame pieces range.firstFrame range.endFrame

/-- The ranges contain some frame of a range. -/
abbrev Meets (pieces : List FrameRange) (range : FrameRange) : Prop :=
  Cover.Meets FrameRange.firstFrame FrameRange.endFrame pieces range.firstFrame range.endFrame

/-- The ranges are in order, each ending before the next starts. -/
abbrev Ascending (pieces : List FrameRange) : Prop :=
  Cover.Ascending FrameRange.firstFrame FrameRange.endFrame pieces

variable {outer inner left right : FrameRange} {pieces : List FrameRange}

theorem contains_iff : outer.contains inner = true ↔
    outer.firstFrame ≤ inner.firstFrame ∧ inner.endFrame ≤ outer.endFrame := by
  simp [contains]

theorem overlaps_iff : left.overlaps right = true ↔
    left.firstFrame < right.endFrame ∧ right.firstFrame < left.endFrame := by
  simp [overlaps, rangesOverlap]

/-- Containing a range that is not empty is overlapping it. -/
theorem overlaps_of_contains (h : outer.contains inner = true)
    (hinner : inner.firstFrame < inner.endFrame) : outer.overlaps inner = true := by
  obtain ⟨hfirst, hend⟩ := contains_iff.mp h
  exact overlaps_iff.mpr ⟨hfirst.trans_lt hinner, hinner.trans_le hend⟩

end FrameRange

namespace Queryable

open FrameRange (Holds Covers Meets Ascending)

/-- The published coverage of a feature. The bands are those of the overview columns, and the
confidence belongs to the tempo or, without one, to the overview. -/
def coverage (result : Queryable) (feature : Feature) : List FrameRange :=
  if feature ∉ result.available then []
  else
    match feature with
    | .waveformOverview | .waveform3Band => result.overview.spans
    | .waveformDetail => result.tiles.map TileScope.range
    | .bpm => [result.tempo.scope]
    | .confidence =>
        if Feature.bpm ∈ result.available then [result.tempo.scope] else result.overview.spans
    | .localBeatgrid | .gridLocking => result.localGrid.segments
    | .globalBeatgrid | .dynamicTempo => (result.globalGrid.map GridScope.segments).getD []

/-- The states of a payload that is there: provisional, stable and final. -/
def Complete (state : ℕ) : Prop := FeatureState.provisional.rank ≤ state ∧ state ≤ stateFinal

/-- The answer to a query over a range tells the truth about the coverage. -/
structure TellsTruth (answer : Answer) (pieces : List FrameRange) (range : FrameRange) : Prop where
  complete : Complete answer.state → Covers pieces range
  part : answer.state = statePart ↔ Meets pieces range ∧ ¬ Covers pieces range
  absent : answer.status = .notAvailable ∧ answer.state = stateAbsent ↔ ¬ Meets pieces range

/-- A scope stands for the pieces as far as a range can tell. -/
def Encloses (scope : FrameRange) (pieces : List FrameRange) (range : FrameRange) : Prop :=
  (scope.contains range = true ↔ Covers pieces range) ∧
    (scope.overlaps range = true ↔ Meets pieces range)

/-- The condition for the truth about the overview: an empty span inside the range does not count. -/
def OverviewTruthful (result : Queryable) (range : FrameRange) : Prop :=
  (∃ span ∈ result.overview.spans, span.overlaps range = true) → Meets result.overview.spans range

/-- The condition for the truth about the detail tiles: a range that meets a tile starts in one, and a
range that the tiles contain meets no partial tile. -/
def DetailTruthful (result : Queryable) (range : FrameRange) : Prop :=
  (Meets (result.tiles.map TileScope.range) range →
      Holds (result.tiles.map TileScope.range) range.firstFrame) ∧
    (Covers (result.tiles.map TileScope.range) range →
      ∀ tile ∈ result.tiles, Meets [tile.range] range → tile.state ≠ statePart)

/-- The condition for the truth about a feature of a result over a range. -/
def Truthful (result : Queryable) (feature : Feature) (range : FrameRange) : Prop :=
  feature ∈ result.available →
    match feature with
    | .waveformOverview => result.OverviewTruthful range
    | .waveform3Band => ¬ Meets result.overview.spans range
    | .waveformDetail => result.DetailTruthful range
    | .bpm => Encloses result.tempo.scope [result.tempo.scope] range
    | .confidence =>
        if Feature.bpm ∈ result.available then
          Encloses result.tempo.scope [result.tempo.scope] range
        else ¬ Meets result.overview.spans range
    | .localBeatgrid | .gridLocking =>
        Encloses result.localGrid.scope result.localGrid.segments range
    | .globalBeatgrid | .dynamicTempo =>
        ∀ grid ∈ result.globalGrid, Encloses grid.scope grid.segments range

/-- What every published and every parsed result keeps: spans and tiles in order, tiles with a
payload, and no partial estimate. -/
structure WellFormed (result : Queryable) : Prop where
  spans : Ascending result.overview.spans
  tiles : Ascending (result.tiles.map TileScope.range)
  tileStates : ∀ tile ∈ result.tiles, statePart ≤ tile.state
  tempo : result.tempo.state ≠ statePart
  localGrid : result.localGrid.state ≠ statePart
  globalGrid : ∀ grid ∈ result.globalGrid, grid.state ≠ statePart

theorem cleared_state : ScopedView.cleared.state ≠ statePart := by decide

/-! ## The shapes of an answer -/

section Answers

variable {answer : Answer} {pieces : List FrameRange} {range : FrameRange}

/-- An answer that there is nothing is true where the range misses the coverage. -/
theorem tellsTruth_of_absent (hstatus : answer.status = .notAvailable)
    (hstate : answer.state = stateAbsent) : TellsTruth answer pieces range ↔ ¬ Meets pieces range := by
  constructor
  · exact fun h => h.absent.mp ⟨hstatus, hstate⟩
  · intro hmiss
    refine ⟨fun hcomplete => ?_, iff_of_false (fun hpart => ?_) (fun h => hmiss h.1),
      iff_of_true ⟨hstatus, hstate⟩ hmiss⟩
    · exact absurd hcomplete.1 (by rw [hstate]; decide)
    · exact absurd (hpart.symm.trans hstate) (by decide)

/-- An answer that there is a part is true where the range meets the coverage and reaches beyond. -/
theorem tellsTruth_of_part (hstate : answer.state = statePart) :
    TellsTruth answer pieces range ↔ Meets pieces range ∧ ¬ Covers pieces range := by
  constructor
  · exact fun h => h.part.mp hstate
  · intro hpart
    refine ⟨fun hcomplete => ?_, iff_of_true hstate hpart, iff_of_false (fun h => ?_) ?_⟩
    · exact absurd hcomplete.1 (by rw [hstate]; decide)
    · exact absurd (hstate.symm.trans h.2) (by decide)
    · exact not_not.mpr hpart.1

/-- An answer with a state that is not partial is true where the coverage contains the range. -/
theorem tellsTruth_of_ok (hstatus : answer.status = .ok) (hstate : answer.state ≠ statePart)
    (hrange : range.firstFrame < range.endFrame) :
    TellsTruth answer pieces range ↔ Covers pieces range := by
  have hpresent : ¬ (answer.status = .notAvailable ∧ answer.state = stateAbsent) := by
    rintro ⟨h, -⟩
    rw [hstatus] at h
    cases h
  constructor
  · intro h
    by_contra hcovers
    have hmeets : Meets pieces range := not_not.mp (mt h.absent.mpr hpresent)
    exact hstate (h.part.mpr ⟨hmeets, hcovers⟩)
  · intro hcovers
    exact ⟨fun _ => hcovers, iff_of_false hstate fun h => h.2 hcovers,
      iff_of_false hpresent (not_not.mpr (hcovers.meets hrange))⟩

end Answers

/-! ## The layers -/

variable {result : Queryable} {range : FrameRange}

/-- The walk over the spans is a sweep. -/
theorem overviewRangeFullyCovered_eq (spans : List FrameRange) (cursor endFrame : ℕ) :
    overviewRangeFullyCovered spans cursor endFrame =
      Cover.reaches FrameRange.firstFrame FrameRange.endFrame spans cursor endFrame := by
  induction spans generalizing cursor with
  | nil => rfl
  | cons span rest ih => simp only [overviewRangeFullyCovered, Cover.reaches, ih]

theorem hasCoverage_of_meets {spans : List FrameRange} (h : Meets spans range) :
    overviewRangeHasCoverage spans range = true := by
  obtain ⟨frame, hfirst, hend, span, hmem, hin⟩ := h
  refine List.any_eq_true.mpr ⟨span, hmem, FrameRange.overlaps_iff.mpr ⟨?_, ?_⟩⟩
  · exact hin.1.trans_lt hend
  · exact hfirst.trans_lt hin.2

/-- The innermost layer tells the truth about the overview unless it counts an empty span. -/
theorem overview_tellsTruth_iff (hspans : Ascending result.overview.spans)
    (havailable : Feature.waveformOverview ∈ result.available)
    (hrange : range.firstFrame < range.endFrame) :
    TellsTruth (result.getFeatureStateBase .waveformOverview (some range)) result.overview.spans
      range ↔ result.OverviewTruthful range := by
  have hcovered := Cover.reaches_iff hspans hrange
  rw [← overviewRangeFullyCovered_eq] at hcovered
  unfold getFeatureStateBase OverviewTruthful
  rw [if_neg (by simp [havailable]), ← List.any_eq_true, ← overviewRangeHasCoverage]
  simp only [if_neg (not_le.mpr hrange)]
  split_ifs with hfull hfinal hsome
  · rw [tellsTruth_of_ok rfl (show stateFinal ≠ statePart by decide) hrange]
    exact iff_of_true (hcovered.mp hfull) fun _ => (hcovered.mp hfull).meets hrange
  · rw [tellsTruth_of_ok rfl (show stateStable ≠ statePart by decide) hrange]
    exact iff_of_true (hcovered.mp hfull) fun _ => (hcovered.mp hfull).meets hrange
  · rw [tellsTruth_of_part rfl]
    exact ⟨fun h _ => h.1, fun h => ⟨h hsome, mt hcovered.mpr hfull⟩⟩
  · rw [tellsTruth_of_absent rfl rfl]
    exact iff_of_true (mt hasCoverage_of_meets hsome) fun h => absurd h hsome

/-- A view that is answered for by its scope tells the truth where the scope stands for its pieces. -/
theorem scoped_tellsTruth_iff {view : ScopedView} (hstate : view.state ≠ statePart)
    (pieces : List FrameRange) (hrange : range.firstFrame < range.endFrame) :
    TellsTruth (scopedState view (some range)) pieces range ↔
      Encloses view.scope pieces range := by
  have hmeets : Covers pieces range → Meets pieces range := fun h => h.meets hrange
  simp only [scopedState, Encloses]
  split_ifs with hcontains hoverlaps
  · rw [tellsTruth_of_ok rfl hstate hrange]
    have hoverlaps := FrameRange.overlaps_of_contains hcontains hrange
    exact ⟨fun h => ⟨iff_of_true hcontains h, iff_of_true hoverlaps (hmeets h)⟩,
      fun h => h.1.mp hcontains⟩
  · rw [tellsTruth_of_part rfl]
    exact ⟨fun h => ⟨iff_of_false hcontains h.2, iff_of_true hoverlaps h.1⟩,
      fun h => ⟨h.2.mp hoverlaps, mt h.1.mpr hcontains⟩⟩
  · rw [tellsTruth_of_absent rfl rfl]
    exact ⟨fun h => ⟨iff_of_false hcontains (mt hmeets h), iff_of_false hoverlaps h⟩,
      fun h => mt h.2.mpr hoverlaps⟩

/-! ## The walk over the tiles -/

section Tiles

variable {tiles : List TileScope} {cursor endFrame weakest : ℕ} {haveOutput : Bool}

/-- One round of the walk. -/
theorem detailSweep_cons (tile : TileScope) (rest : List TileScope) :
    detailSweep endFrame (tile :: rest) cursor weakest haveOutput =
      if tile.range.endFrame ≤ cursor then detailSweep endFrame rest cursor weakest haveOutput
      else if cursor < tile.range.firstFrame then
        if haveOutput then ⟨.ok, statePart, confidenceUnset⟩
        else ⟨.notAvailable, stateAbsent, confidenceUnset⟩
      else if endFrame ≤ tile.range.endFrame then ⟨.ok, min tile.state weakest, confidenceUnset⟩
      else detailSweep endFrame rest tile.range.endFrame (min tile.state weakest) true := by
  have hmin : (if tile.state < weakest then tile.state else weakest) = min tile.state weakest := by
    split_ifs <;> omega
  simp only [detailSweep, hmin]

/-- A walk that starts outside the tiles finds nothing. -/
theorem detailSweep_of_not_holds (htiles : Ascending (tiles.map TileScope.range))
    (hmiss : ¬ Holds (tiles.map TileScope.range) cursor) :
    detailSweep endFrame tiles cursor weakest false =
      ⟨.notAvailable, stateAbsent, confidenceUnset⟩ := by
  induction tiles with
  | nil => rfl
  | cons tile rest ih =>
      rw [detailSweep_cons]
      by_cases hskip : tile.range.endFrame ≤ cursor
      · rw [if_pos hskip]
        exact ih (List.pairwise_cons.mp htiles).2 (mt (Cover.holds_cons_of_le hskip).mpr hmiss)
      · have hgap : cursor < tile.range.firstFrame :=
          not_le.mp (mt (Cover.holds_cons_of_lt htiles (not_le.mp hskip)).mpr hmiss)
        rw [if_neg hskip, if_pos hgap]
        rfl

/-- A walk that does not reach its goal reports a part, once it stands in a tile. -/
theorem detailSweep_of_not_reaches (htiles : Ascending (tiles.map TileScope.range))
    (hfound : haveOutput = true ∨ Holds (tiles.map TileScope.range) cursor)
    (hmiss : ¬ Cover.reaches FrameRange.firstFrame FrameRange.endFrame (tiles.map TileScope.range)
      cursor endFrame = true) :
    detailSweep endFrame tiles cursor weakest haveOutput =
      ⟨.ok, statePart, confidenceUnset⟩ := by
  induction tiles generalizing cursor weakest haveOutput with
  | nil =>
      rw [hfound.resolve_right (Cover.not_holds_nil cursor)]
      rfl
  | cons tile rest ih =>
      obtain ⟨-, hrest⟩ := List.pairwise_cons.mp htiles
      rw [List.map_cons, Cover.reaches] at hmiss
      rw [detailSweep_cons]
      split_ifs at hmiss ⊢ with hskip hgap houtput hdone
      · exact ih hrest (hfound.imp_right (Cover.holds_cons_of_le hskip).mp) hmiss
      · rfl
      · have hin := (Cover.holds_cons_of_lt htiles (not_le.mp hskip)).mp
          (hfound.resolve_left houtput)
        exact absurd hin (not_le.mpr hgap)
      · exact absurd rfl hmiss
      · exact ih hrest (.inl rfl) hmiss

/-- A walk that reaches its goal reports a state, which is partial only if that of a tile on the way
is. -/
theorem detailSweep_of_reaches (htiles : Ascending (tiles.map TileScope.range))
    (hstates : ∀ tile ∈ tiles, statePart ≤ tile.state) (hweakest : statePart ≤ weakest)
    (hgoal : cursor < endFrame)
    (hreaches : Cover.reaches FrameRange.firstFrame FrameRange.endFrame
      (tiles.map TileScope.range) cursor endFrame = true) :
    ∃ state, detailSweep endFrame tiles cursor weakest haveOutput =
        ⟨.ok, state, confidenceUnset⟩ ∧
      (state = statePart ↔ weakest = statePart ∨
        ∃ tile ∈ tiles, Meets [tile.range] ⟨cursor, endFrame⟩ ∧ tile.state = statePart) := by
  induction tiles generalizing cursor weakest haveOutput with
  | nil => cases hreaches
  | cons tile rest ih =>
      obtain ⟨hbehind, hrest⟩ := List.pairwise_cons.mp htiles
      obtain ⟨hstate, hstates⟩ := List.forall_mem_cons.mp hstates
      have hafter : ∀ other ∈ rest, tile.range.endFrame ≤ other.range.firstFrame :=
        fun other hmem => hbehind other.range (List.mem_map_of_mem hmem)
      have hmin : min tile.state weakest = statePart ↔
          weakest = statePart ∨ tile.state = statePart := by
        rw [min_def]
        split_ifs <;> omega
      rw [List.map_cons, Cover.reaches] at hreaches
      simp only [detailSweep_cons, List.mem_cons, exists_eq_or_imp, Cover.meets_singleton]
      simp only [Cover.meets_singleton] at ih
      split_ifs at hreaches ⊢ with hskip hgap hdone
      · -- The tile lies behind the cursor.
        obtain ⟨state, heq, hpart⟩ := ih hrest hstates hweakest hgoal hreaches
        refine ⟨state, heq, hpart.trans (or_congr_right ?_)⟩
        exact (or_iff_right fun h => absurd h.1 (by omega)).symm
      · -- The tile contains what is left of the range.
        refine ⟨_, rfl, hmin.trans (or_congr_right ?_)⟩
        have htile : max cursor tile.range.firstFrame < min endFrame tile.range.endFrame := by omega
        refine (and_iff_right htile).symm.trans (or_iff_left ?_).symm
        rintro ⟨other, hmem, hmeets, -⟩
        have := hafter other hmem
        omega
      · obtain ⟨state, heq, hpart⟩ := ih hrest hstates (le_min hstate hweakest)
          (not_le.mp hdone) hreaches
        refine ⟨state, heq, hpart.trans ?_⟩
        rw [hmin, or_assoc]
        refine or_congr_right (or_congr ?_ ?_)
        · exact (and_iff_right (by omega)).symm
        · refine exists_congr fun other => and_congr_right fun hmem => and_congr_left fun _ => ?_
          have := hafter other hmem
          omega

end Tiles

/-- The detail layer tells the truth for a range that starts in a tile and is not contained in the
tiles through a partial one. -/
theorem detail_tellsTruth_iff (htiles : Ascending (result.tiles.map TileScope.range))
    (hstates : ∀ tile ∈ result.tiles, statePart ≤ tile.state)
    (havailable : Feature.waveformDetail ∈ result.available)
    (hrange : range.firstFrame < range.endFrame) :
    TellsTruth (result.detailGetState (some range)) (result.tiles.map TileScope.range) range ↔
      result.DetailTruthful range := by
  have hreaches := Cover.reaches_iff htiles hrange
  unfold detailGetState DetailTruthful
  by_cases hnone : result.tiles = []
  · rw [if_pos (.inr hnone), tellsTruth_of_absent rfl rfl, hnone]
    have hmiss : ¬ Meets [] range := Cover.not_meets_nil _ _
    exact iff_of_true hmiss ⟨fun h => absurd h hmiss, fun _ _ hmem => by cases hmem⟩
  rw [if_neg (by simp [havailable, hnone])]
  simp only [if_neg (not_le.mpr hrange)]
  by_cases hin : Holds (result.tiles.map TileScope.range) range.firstFrame
  · have hmeets : Meets (result.tiles.map TileScope.range) range := ⟨_, le_rfl, hrange, hin⟩
    by_cases hcovers : Covers (result.tiles.map TileScope.range) range
    · obtain ⟨state, heq, hpart⟩ := @detailSweep_of_reaches _ _ _ stateFinal false htiles hstates
        (by decide) hrange (hreaches.mpr hcovers)
      have hpart : state = statePart ↔ ∃ tile ∈ result.tiles, Meets [tile.range] range ∧
          tile.state = statePart := hpart.trans (or_iff_right (by decide))
      rw [heq]
      by_cases hstate : state = statePart
      · rw [tellsTruth_of_part hstate]
        obtain ⟨tile, hmem, htouch, htile⟩ := hpart.mp hstate
        exact iff_of_false (fun h => h.2 hcovers) fun h => h.2 hcovers tile hmem htouch htile
      · rw [tellsTruth_of_ok rfl hstate hrange]
        refine iff_of_true hcovers ⟨fun _ => hin, fun _ tile hmem htouch htile => ?_⟩
        exact hstate (hpart.mpr ⟨tile, hmem, htouch, htile⟩)
    · rw [detailSweep_of_not_reaches htiles (.inr hin) (mt hreaches.mp hcovers),
        tellsTruth_of_part rfl]
      exact iff_of_true ⟨hmeets, hcovers⟩ ⟨fun _ => hin, fun h => absurd h hcovers⟩
  · rw [detailSweep_of_not_holds htiles hin, tellsTruth_of_absent rfl rfl]
    have hcovers : ¬ Covers (result.tiles.map TileScope.range) range :=
      fun h => hin (h _ le_rfl hrange)
    exact ⟨fun h => ⟨fun hmeets => absurd hmeets h, fun h => absurd h hcovers⟩,
      fun h hmeets => hin (h.1 hmeets)⟩

/-! ## Every feature -/

theorem validateRange_eq (hrange : range.firstFrame < range.endFrame) :
    validateRange (some range) = true := by
  simp [validateRange, hrange]

/-- The answer to a query for a feature that is not there. -/
theorem getFeatureState_of_unavailable {feature : Feature} (h : feature ∉ result.available)
    (hrange : range.firstFrame < range.endFrame) :
    result.getFeatureState feature (some range) =
      ⟨.notAvailable, stateAbsent, confidenceUnset⟩ := by
  have hvalid := validateRange_eq hrange
  cases hgrid : result.globalGrid <;> cases feature <;>
    simp [getFeatureState, getFeatureStateS4, s4FeatureState, getFeatureStateDetail,
      detailGetState, getFeatureStateBase, h, hvalid, hgrid]

/-- The layer of the local estimate answers by the scope of the tempo or of the local grid. -/
theorem getFeatureState_of_local {feature : Feature} (havailable : feature ∈ result.available)
    (hlayer : feature = .bpm ∨ feature = .localBeatgrid ∨ feature = .gridLocking ∨
      (feature = .confidence ∧ Feature.bpm ∈ result.available))
    (hrange : range.firstFrame < range.endFrame) :
    result.getFeatureState feature (some range) =
      if feature = .bpm ∨ feature = .confidence then scopedState result.tempo (some range)
      else scopedState result.localGrid.toScopedView (some range) := by
  have houter : feature ≠ .globalBeatgrid ∧ feature ≠ .dynamicTempo := by
    rcases hlayer with rfl | rfl | rfl | ⟨rfl, -⟩ <;> exact ⟨by decide, by decide⟩
  rw [getFeatureState, if_pos houter, getFeatureStateS4, if_pos hlayer, validateRange_eq hrange,
    if_neg (by decide), s4FeatureState, if_neg (not_not.mpr havailable)]

/-- The layer of the global grid tells the truth where the scope of the grid stands for its
segments. -/
theorem global_tellsTruth_iff {feature : Feature} (hfeature : feature ∈ s6Features)
    (hstates : ∀ grid ∈ result.globalGrid, grid.state ≠ statePart)
    (havailable : feature ∈ result.available) (hrange : range.firstFrame < range.endFrame) :
    TellsTruth (result.getFeatureState feature (some range))
        ((result.globalGrid.map GridScope.segments).getD []) range ↔
      ∀ grid ∈ result.globalGrid, Encloses grid.scope grid.segments range := by
  have hlayer : feature = .globalBeatgrid ∨ feature = .dynamicTempo := by
    simpa [s6Features] using hfeature
  rw [getFeatureState, if_neg (by tauto), validateRange_eq hrange, if_neg (by decide)]
  cases hgrid : result.globalGrid with
  | none =>
      rw [tellsTruth_of_absent rfl rfl]
      exact iff_of_true (Cover.not_meets_nil _ _) fun _ hmem => by cases hmem
  | some grid =>
      simp only [if_neg (not_not.mpr havailable)]
      refine (scoped_tellsTruth_iff (hstates grid hgrid) grid.segments hrange).trans ?_
      exact ⟨fun henc _ hmem => Option.some.inj hmem ▸ henc, fun henc => henc grid rfl⟩

/-- A query over a range tells the truth exactly under the condition of its layer. -/
theorem tellsTruth_iff (h : result.WellFormed) (feature : Feature)
    (hrange : range.firstFrame < range.endFrame) :
    TellsTruth (result.getFeatureState feature (some range)) (result.coverage feature) range ↔
      result.Truthful feature range := by
  by_cases havailable : feature ∈ result.available
  swap
  · rw [getFeatureState_of_unavailable havailable hrange, tellsTruth_of_absent rfl rfl]
    unfold coverage Truthful
    rw [if_pos havailable]
    exact iff_of_true (Cover.not_meets_nil _ _) fun hmem => absurd hmem havailable
  unfold coverage Truthful
  rw [if_neg (not_not.mpr havailable), imp_iff_right havailable]
  cases feature with
  | waveformOverview => exact overview_tellsTruth_iff h.spans havailable hrange
  | waveformDetail => exact detail_tellsTruth_iff h.tiles h.tileStates havailable hrange
  | waveform3Band => exact tellsTruth_of_absent rfl rfl
  | bpm =>
      rw [getFeatureState_of_local havailable (.inl rfl) hrange, if_pos (.inl rfl)]
      exact scoped_tellsTruth_iff h.tempo _ hrange
  | localBeatgrid =>
      rw [getFeatureState_of_local havailable (.inr (.inl rfl)) hrange, if_neg (by decide)]
      exact scoped_tellsTruth_iff h.localGrid _ hrange
  | gridLocking =>
      rw [getFeatureState_of_local havailable (.inr (.inr (.inl rfl))) hrange, if_neg (by decide)]
      exact scoped_tellsTruth_iff h.localGrid _ hrange
  | globalBeatgrid => exact global_tellsTruth_iff (by decide) h.globalGrid havailable hrange
  | dynamicTempo => exact global_tellsTruth_iff (by decide) h.globalGrid havailable hrange
  | confidence =>
      by_cases hbpm : Feature.bpm ∈ result.available
      · simp only [if_pos hbpm]
        rw [getFeatureState_of_local havailable (.inr (.inr (.inr ⟨rfl, hbpm⟩))) hrange,
          if_pos (.inr rfl)]
        exact scoped_tellsTruth_iff h.tempo _ hrange
      · -- The walk falls through to the overview layer, which knows no confidence.
        simp only [if_neg hbpm]
        refine tellsTruth_of_absent ?_ ?_ <;>
          simp [getFeatureState, getFeatureStateS4, getFeatureStateDetail, getFeatureStateBase, hbpm]

end Queryable

end LibApta
