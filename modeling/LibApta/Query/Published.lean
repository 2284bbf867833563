import LibApta.Query.Coverage
import LibApta.Session.CommittedStates
import LibApta.Session.Selection
import LibApta.Waveform.DetailCache
import LibApta.Waveform.Spans

/-!
# Published results are well formed

The invariant that the store is sorted, the tile cache in shape and the committed estimates whole
holds along every run, and a snapshot of such a session is a well-formed result.
-/

namespace LibApta

/-! ## Tiles of a snapshot -/

namespace Detail

/-- The view of the tile in a slot, if it has a published run. -/
def slotView (endOfInput : Option ℕ) : Option DetailTile → Option DetailTileView
  | some tile =>
      match tile.run with
      | some (first, count) =>
          if count = 0 then none else some (detailTileView endOfInput tile first count)
      | none => none
  | none => none

theorem slotView_some {endOfInput : Option ℕ} {slot : Option DetailTile} {view : DetailTileView}
    (h : slotView endOfInput slot = some view) :
    ∃ tile first count, slot = some tile ∧ tile.run = some (first, count) ∧
      view = detailTileView endOfInput tile first count := by
  unfold slotView at h
  split at h
  · next tile =>
      split at h
      · next first count hrun =>
          split_ifs at h
          exact ⟨tile, first, count, rfl, hrun, (Option.some.inj h).symm⟩
      · cases h
  · cases h

theorem detailSnapshot_eq (config : Config) (endOfInput : Option ℕ) (detail : Detail) :
    detailSnapshot config endOfInput detail =
      if !config.requests .waveformDetail then []
      else stageSort (fun view other => decide (view.tileIndex < other.tileIndex))
        (detail.tiles.filterMap (slotView endOfInput)) := rfl

/-- The range of a view lies in the frames of its tile. -/
theorem detailTileView_range {tile : DetailTile} (htile : tile.Tidy) {first count : ℕ}
    (hrun : tile.run = some (first, count)) (endOfInput : Option ℕ) :
    tile.tileIndex * detailTileFrames ≤
        (detailTileView endOfInput tile first count).sourceRange.firstFrame ∧
      (detailTileView endOfInput tile first count).sourceRange.endFrame ≤
        (tile.tileIndex + 1) * detailTileFrames := by
  have hbound := htile.run first count hrun
  have hrunEnd : tile.tileIndex * detailTileFrames + first * detailFramesPerColumn +
      count * detailFramesPerColumn ≤ (tile.tileIndex + 1) * detailTileFrames := by
    simp only [detailTileFrames, detailFramesPerColumn, detailColumnsPerTile] at *
    omega
  refine ⟨Nat.le_add_right _ _, ?_⟩
  simp only [detailTileView, runRange]
  split
  · split_ifs
    · omega
    · exact hrunEnd
  · exact hrunEnd

/-- What is said of the views of a tidy cache: their order and the frames of their tiles. -/
theorem Tidy.snapshot {detail : Detail} (h : detail.Tidy) (config : Config)
    (endOfInput : Option ℕ) :
    (detailSnapshot config endOfInput detail).Pairwise
        (fun view later => view.tileIndex < later.tileIndex) ∧
      ∀ view ∈ detailSnapshot config endOfInput detail,
        view.tileIndex * detailTileFrames ≤ view.sourceRange.firstFrame ∧
          view.sourceRange.endFrame ≤ (view.tileIndex + 1) * detailTileFrames := by
  rw [detailSnapshot_eq]
  split_ifs
  · exact ⟨List.Pairwise.nil, fun _ hmem => by cases hmem⟩
  have hperm := stageSort_perm (fun view other : DetailTileView =>
    decide (view.tileIndex < other.tileIndex)) (detail.tiles.filterMap (slotView endOfInput))
  have hdistinct : (detail.tiles.filterMap (slotView endOfInput)).Pairwise
      fun view other => view.tileIndex ≠ other.tileIndex := by
    rw [List.pairwise_filterMap, List.pairwise_iff_getElem]
    intro i j hi hj hlt view hview other hother hsame
    obtain ⟨tile, first, count, htile, -, rfl⟩ := slotView_some hview
    obtain ⟨tile', first', count', htile', -, rfl⟩ := slotView_some hother
    refine absurd (h.distinct i j tile tile' ?_ ?_ hsame) hlt.ne
    · rw [List.getElem?_eq_getElem hi, htile]
    · rw [List.getElem?_eq_getElem hj, htile']
  constructor
  · have hsorted := stageSort_sorted (fun view other : DetailTileView =>
        decide (view.tileIndex < other.tileIndex))
      (fun a b hab => by
        have := of_decide_eq_true hab
        exact decide_eq_false (by omega))
      (fun a b c hab hbc => by
        have := of_decide_eq_false hab
        have := of_decide_eq_false hbc
        exact decide_eq_false (by omega))
      (detail.tiles.filterMap (slotView endOfInput))
    have hapart := (hperm.pairwise_iff (fun {a b} (hab : a.tileIndex ≠ b.tileIndex) =>
      hab.symm)).mpr hdistinct
    refine hsorted.imp₂ (fun view later hle hne => ?_) hapart
    have := of_decide_eq_false hle
    omega
  · intro view hmem
    obtain ⟨slot, hslot, hview⟩ := List.mem_filterMap.mp (hperm.mem_iff.mp hmem)
    obtain ⟨tile, first, count, rfl, hrun, rfl⟩ := slotView_some hview
    exact detailTileView_range (h.tiles tile hslot) hrun endOfInput

theorem tidy_ascending {detail : Detail} (h : detail.Tidy) (config : Config)
    (endOfInput : Option ℕ) :
    FrameRange.Ascending ((detailSnapshot config endOfInput detail).map
      DetailTileView.sourceRange) := by
  obtain ⟨hsorted, hrange⟩ := h.snapshot config endOfInput
  refine List.pairwise_map.mpr (hsorted.imp_of_mem fun {view later} hview hlater hlt => ?_)
  calc view.sourceRange.endFrame ≤ (view.tileIndex + 1) * detailTileFrames := (hrange view hview).2
    _ ≤ later.tileIndex * detailTileFrames := Nat.mul_le_mul_right _ hlt
    _ ≤ later.sourceRange.firstFrame := (hrange later hlater).1

/-- A published tile is partial, stable or final. -/
theorem snapshot_state {detail : Detail} {config : Config} {endOfInput : Option ℕ}
    {view : DetailTileView} (hmem : view ∈ detailSnapshot config endOfInput detail) :
    FeatureState.part.rank ≤ view.state.rank := by
  rw [detailSnapshot_eq] at hmem
  split_ifs at hmem
  · cases hmem
  · obtain ⟨slot, -, hview⟩ := List.mem_filterMap.mp ((stageSort_perm _ _).mem_iff.mp hmem)
    obtain ⟨tile, first, count, -, -, rfl⟩ := slotView_some hview
    simp only [detailTileView]
    split_ifs <;> decide

end Detail

/-! ## Snapshots -/

theorem FeatureState.rank_ne_part {state : FeatureState} (h : state ≠ .part) :
    state.rank ≠ FeatureState.part.rank := by
  cases state <;> first | exact absurd rfl h | decide

namespace Session

theorem finalized_ne_part (s : Session) {state : FeatureState} (h : state ≠ .part) :
    s.finalized state ≠ .part := by
  unfold finalized
  split_ifs
  · decide
  · exact h

/-- What a session must keep for its snapshots to be well formed. -/
structure Presentable (s : Session) : Prop where
  sorted : s.overview.Sorted
  detail : s.detail.Tidy
  estimate : s.s4.Whole
  grid : ∀ s6 ∈ s.s6, s6.Whole

theorem Presentable.snapshot {s : Session} (h : s.Presentable) (mask : FeatureMask) :
    (s.snapshot mask).queryable.WellFormed where
  spans := by
    simp only [Result.queryable, Session.snapshot, overviewSnapshot, LibApta.overviewSnapshot]
    split
    · exact List.Pairwise.nil
    · exact overviewSpans_ascending h.sorted _ _ _
  tiles := by
    change FrameRange.Ascending ((s.detailSnapshot.map _).map TileScope.range)
    rw [List.map_map]
    exact Detail.tidy_ascending h.detail s.config s.endOfInput
  tileStates := by
    intro tile hmem
    obtain ⟨view, hview, rfl⟩ := List.mem_map.mp hmem
    exact Detail.snapshot_state hview
  tempo := by
    change ((s.tempoSnapshot.map _).getD ScopedView.cleared).state ≠ _
    unfold tempoSnapshot
    split_ifs
    · exact Queryable.cleared_state
    · cases hestimate : s.s4.estimate with
      | none => exact Queryable.cleared_state
      | some estimate =>
          exact FeatureState.rank_ne_part
            (s.finalized_ne_part (h.estimate estimate hestimate).tempo)
  localGrid := by
    change ((s.localGridSnapshot.map GridView.scope).getD GridScope.cleared).state ≠ _
    unfold localGridSnapshot
    split_ifs
    · exact Queryable.cleared_state
    · cases hestimate : s.s4.estimate with
      | none => exact Queryable.cleared_state
      | some estimate =>
          exact FeatureState.rank_ne_part
            (s.finalized_ne_part (h.estimate estimate hestimate).segment)
  globalGrid := by
    intro grid hgrid
    obtain ⟨view, hview, rfl⟩ := Option.map_eq_some_iff.mp hgrid
    change s.globalGridSnapshot = some view at hview
    unfold globalGridSnapshot at hview
    cases hs6 : s.s6 with
    | none =>
        rw [hs6] at hview
        cases hview
    | some s6 =>
        rw [hs6] at hview
        simp only at hview
        split_ifs at hview
        obtain rfl := Option.some.inj hview
        exact FeatureState.rank_ne_part (s.finalized_ne_part (h.grid s6 hs6))

/-! ## Runs -/

/-- A presentable session that has published nothing ill formed. -/
structure Presents (s : Session) : Prop where
  presentable : s.Presentable
  results : ∀ result ∈ s.results, result.queryable.WellFormed

namespace Presents

variable {s : Session}

/-- A step that publishes nothing need only keep the session presentable. -/
theorem congr {s' : Session} (h : s.Presents) (hkeeps : s'.Presentable)
    (hresults : s'.results = s.results) : s'.Presents :=
  ⟨hkeeps, hresults ▸ h.results⟩

theorem of_same {s' : Session} (h : s.Presents) (hoverview : s'.overview = s.overview)
    (hderived : s'.derived = s.derived) (hresults : s'.results = s.results) : s'.Presents := by
  obtain ⟨hdetail, hs4, hs6⟩ := Derived.mk.inj hderived
  refine h.congr ⟨?_, ?_, ?_, ?_⟩ hresults
  · exact hoverview ▸ h.presentable.sorted
  · exact hdetail ▸ h.presentable.detail
  · exact hs4 ▸ h.presentable.estimate
  · exact hs6 ▸ h.presentable.grid

theorem of_overview (h : s.Presents) {overview : Overview} (hsorted : overview.Sorted)
    (env : Environment) : { s with overview := overview, env := env }.Presents :=
  h.congr ⟨hsorted, h.presentable.detail, h.presentable.estimate, h.presentable.grid⟩ rfl

theorem of_detail (h : s.Presents) {detail : Detail} (htidy : detail.Tidy) :
    { s with detail := detail }.Presents :=
  h.congr ⟨h.presentable.sorted, htidy, h.presentable.estimate, h.presentable.grid⟩ rfl

theorem published (h : s.Presents) (mask : FeatureMask) : (s.published mask).Presents :=
  ⟨⟨h.presentable.sorted, h.presentable.detail, h.presentable.estimate, h.presentable.grid⟩,
    List.forall_mem_cons.mpr ⟨h.presentable.snapshot mask, h.results⟩⟩

theorem refreshS4 {limit steps : ℕ} {status : Status} {s' : Session}
    (hrefresh : s.refreshS4 limit = some (status, steps, s')) (h : s.Presents) : s'.Presents := by
  obtain ⟨result, hresult, heq⟩ := Option.map_eq_some_iff.mp hrefresh
  rw [← (Prod.mk.inj (Prod.mk.inj heq).2).2]
  exact h.congr ⟨h.presentable.sorted, h.presentable.detail, h.presentable.estimate.refresh hresult,
    h.presentable.grid⟩ rfl

theorem refreshS6 {limit steps : ℕ} {status : Status} {s' : Session}
    (hrefresh : s.refreshS6 limit = some (status, steps, s')) (h : s.Presents) : s'.Presents := by
  unfold Session.refreshS6 at hrefresh
  cases hs6 : s.s6 with
  | none =>
      rw [hs6] at hrefresh
      rwa [← (Prod.mk.inj (Prod.mk.inj (Option.some.inj hrefresh)).2).2]
  | some s6 =>
      rw [hs6] at hrefresh
      obtain ⟨result, hresult, heq⟩ := Option.map_eq_some_iff.mp hrefresh
      rw [← (Prod.mk.inj (Prod.mk.inj heq).2).2]
      refine h.congr ⟨h.presentable.sorted, h.presentable.detail,
        h.presentable.estimate.congr rfl, ?_⟩ rfl
      intro after hafter
      rw [← Option.some.inj hafter]
      exact (h.presentable.grid s6 hs6).refresh hresult

theorem refreshDetail (h : s.Presents) : s.refreshDetail.Presents := by
  unfold Session.refreshDetail
  split_ifs
  · exact h.of_detail (h.presentable.detail.refreshCompleted _)
  · exact h

theorem chunks (budget : WorkBudget) (h : s.Presents) :
    (s.setChunkState (s.runChunks budget).2).Presents := by
  have hrefreshed : (refreshCompletedColumns s.framesPerColumn s.endOfInput s.overview).Sorted :=
    Overview.sorted_refresh h.presentable.sorted
  refine h.congr ⟨?_, h.presentable.detail, h.presentable.estimate, h.presentable.grid⟩ rfl
  exact processChunks_sorted hrefreshed (Prod.mk.eta ..).symm

theorem reserveAccumulators (h : s.Presents) : s.reserveAccumulators.2.Presents := by
  unfold Session.reserveAccumulators
  simp only
  split
  · exact h
  split
  · exact h
  split
  · exact h
  split
  · exact h
  · refine h.of_overview ?_ _
    cases hgrow : s.overview.ensureCapacity (s.config.requests .waveform3Band)
        (s.overview.accumulators.length + additionalColumns s.framesPerColumn s.overview s.queue [])
        s.env with
    | mk status rest =>
        obtain ⟨overview, env⟩ := rest
        obtain ⟨-, capacity, rfl⟩ | ⟨-, -, rfl⟩ := Overview.ensureCapacity_cases hgrow
        · exact h.presentable.sorted
        · exact h.presentable.sorted

theorem seedColumn (columnIndex sampleCount : ℕ) (column : WaveformColumn) (h : s.Presents) :
    (s.seedColumn columnIndex sampleCount column).2.Presents := by
  unfold Session.seedColumn
  simp only
  split
  · next heq => exact h.of_overview (findOrInsert_sorted h.presentable.sorted heq) _
  · next position overview env heq =>
      obtain ⟨hsorted, hget, -⟩ := Overview.findOrInsert_ok h.presentable.sorted heq
      refine h.of_overview ?_ _
      refine (KeyedList.modify_spec hsorted ?_ hget).1
      exact fun _ => rfl

theorem prepareEstimators (h : s.Presents) : s.prepareEstimators.2.Presents := by
  have hlocal := h.presentable.estimate.prepare s.config.requestedFeatures s.env
  have hglobal : ∀ env, ∀ s6 ∈ (S6State.prepare s.config.requestedFeatures s.s6 env).2.1,
      s6.Whole := by
    intro env s6 hs6
    unfold S6State.prepare at hs6
    split_ifs at hs6
    · exact h.presentable.grid s6 hs6
    · split at hs6
      · cases hs6
      · simp only at hs6
        split_ifs at hs6
        · rw [← Option.some.inj hs6]
          exact (by decide : S6State.initial.state ≠ .part)
        · cases hs6
  unfold Session.prepareEstimators
  split
  · next s4 env heq =>
      rw [heq] at hlocal
      refine h.congr ⟨h.presentable.sorted, h.presentable.detail, hlocal, ?_⟩ rfl
      exact hglobal env
  · next status s4 env _ heq =>
      rw [heq] at hlocal
      exact h.congr ⟨h.presentable.sorted, h.presentable.detail, hlocal, h.presentable.grid⟩ rfl

end Presents

/-- The derived layers are fit for a snapshot. -/
structure Derived.Presentable (d : Derived) : Prop where
  detail : d.detail.Tidy
  estimate : d.s4.Whole
  grid : ∀ s6 ∈ d.s6, s6.Whole

theorem feedSample_presentable (features : FeatureMask) (ctx : DetailContext) (frame : ℕ)
    (sample : ℚ) {d : Derived} (h : d.Presentable) :
    (feedSample features ctx frame sample d).2.Presentable := by
  have htiled : (if Feature.waveformDetail ∈ features then
      Detail.processSample ctx d.detail frame sample else (.ok, d.detail)).2.Tidy := by
    split_ifs
    · exact h.detail.processSample frame sample
    · exact h.detail
  have hfed : (if S4State.enabled features then
      S4State.processSample ctx.endOfInput d.s4 frame sample else (.ok, d.s4)).2.Whole := by
    split_ifs
    · exact h.estimate.processSample ctx.endOfInput frame sample
    · exact h.estimate
  unfold feedSample
  simp only
  generalize (if Feature.waveformDetail ∈ features then
    Detail.processSample ctx d.detail frame sample else (.ok, d.detail)) = tiled at htiled ⊢
  generalize (if S4State.enabled features then
    S4State.processSample ctx.endOfInput d.s4 frame sample else (.ok, d.s4)) = fed at hfed ⊢
  split
  · exact ⟨htiled, h.estimate, h.grid⟩
  split
  · exact ⟨htiled, hfed, h.grid⟩
  split
  · exact ⟨htiled, hfed, h.grid⟩
  · next s6 hs6 =>
      refine ⟨htiled, hfed, fun after hafter => ?_⟩
      rw [← Option.some.inj hafter]
      split_ifs <;> exact h.grid s6 hs6

theorem feedSamples_presentable (features : FeatureMask) (ctx : DetailContext) (samples : List ℚ)
    (frame : ℕ) {d : Derived} (h : d.Presentable) :
    (feedSamples features ctx samples frame d).Presentable := by
  induction samples generalizing frame d with
  | nil => exact h
  | cons sample rest ih =>
      have hfed := feedSample_presentable features ctx frame sample h
      unfold feedSamples
      split
      · next heq => exact ih _ (by rwa [heq] at hfed)
      · next heq => rwa [heq] at hfed

namespace Presents

variable {s : Session}

theorem feedAccepted (block : PcmBlock) (n : ℕ) (h : s.Presents) :
    (s.feedAccepted block n).Presents := by
  have hfed := feedSamples_presentable s.config.requestedFeatures s.detailContext
    (block.samples.take n) block.firstFrame (d := s.derived)
    ⟨h.presentable.detail, h.presentable.estimate, h.presentable.grid⟩
  have hset : (s.setDerived (feedSamples s.config.requestedFeatures s.detailContext
      (block.samples.take n) block.firstFrame s.derived)).Presents :=
    h.congr ⟨h.presentable.sorted, hfed.detail, hfed.estimate, hfed.grid⟩ rfl
  unfold Session.feedAccepted
  simp only
  split_ifs
  · exact hset.of_detail (hset.presentable.detail.refreshCompleted _)
  · exact hset

theorem forgotten (h : s.Presents) : s.markPublicationPending.Presents := by
  refine h.of_overview ?_ s.env
  refine (KeyedList.map_spec h.presentable.sorted ?_).1
  exact fun _ => rfl

/-- Calls keep what has been published, and the session, presentable. -/
theorem invariant : RunInvariant Presents where
  env _ h := h.of_overview h.presentable.sorted _
  forgotten h := h.forgotten
  moved _ h := h.of_same rfl rfl rfl
  published mask h := h.published mask
  chunks budget h := h.chunks budget
  reserveAccumulators h := h.reserveAccumulators
  queue _ h := h.of_same rfl rfl rfl
  demand _ _ h := h.of_same rfl rfl rfl
  refreshDetail h := h.refreshDetail
  detailPublished h := h.of_detail (h.presentable.detail.congr rfl)
  refreshS4 hrefresh h := h.refreshS4 hrefresh
  refreshS6 hrefresh h := h.refreshS6 hrefresh
  s4Serials _ _ h := h.congr ⟨h.presentable.sorted, h.presentable.detail,
    h.presentable.estimate.congr rfl, h.presentable.grid⟩ rfl
  s6Published {s} h := by
    refine h.congr ⟨h.presentable.sorted, h.presentable.detail, h.presentable.estimate, ?_⟩ rfl
    intro after hafter
    obtain ⟨s6, hs6, rfl⟩ := Option.map_eq_some_iff.mp hafter
    exact h.presentable.grid s6 hs6
  length _ _ h := h.of_same rfl rfl rfl
  flags _ _ _ h := h.of_same rfl rfl rfl
  recorded _ h := h.of_same rfl rfl rfl
  seedColumn columnIndex sampleCount column h := h.seedColumn columnIndex sampleCount column
  accepted _ _ h := h.of_same rfl rfl rfl
  acceptReplay block h := h.of_detail (h.presentable.detail.acceptReplay _ block)
  prepareEstimators h := h.prepareEstimators
  feedAccepted block n h := h.feedAccepted block n
  noted _ h := h.of_same rfl rfl rfl
  counters _ _ h := h.of_same rfl rfl rfl

theorem marked (h : s.Presents) : s.s4MarkPublished.Presents :=
  h.congr ⟨h.presentable.sorted, h.presentable.detail, h.presentable.estimate.congr rfl,
    h.presentable.grid⟩ rfl

theorem lockGridRange (range : FrameRange) (h : s.Presents) : (s.lockGridRange range).2.Presents := by
  refine invariant.toAnnounceInvariant.lockGridRange _ (fun estimate hestimate => ?_) marked h
  obtain ⟨htempo, hsegment⟩ := h.presentable.estimate estimate hestimate
  refine h.congr ⟨h.presentable.sorted, h.presentable.detail, ?_, h.presentable.grid⟩ rfl
  intro locked hlocked
  rw [← Option.some.inj hlocked]
  exact ⟨htempo, hsegment⟩

theorem applyGridRevision (revisionId : ℕ) (h : s.Presents) :
    (s.applyGridRevision revisionId).2.Presents := by
  refine invariant.toAnnounceInvariant.applyGridRevision _
    (fun s6 hs6 estimate hestimate selected _ => ?_) (fun ht => invariant.s6Published ht.marked) h
  obtain ⟨htempo, hsegment⟩ := h.presentable.estimate estimate hestimate
  refine h.congr ⟨h.presentable.sorted, h.presentable.detail, ?_, ?_⟩ rfl
  · intro applied happlied
    rw [← Option.some.inj happlied]
    exact ⟨htempo, hsegment⟩
  · intro after hafter
    rw [← Option.some.inj hafter]
    exact h.presentable.grid s6 hs6

/-- A created session has published a well-formed, empty result. -/
theorem of_created (h : Created s) : s.Presents := by
  obtain ⟨config, libm, usesWorkspace, env, -, rfl⟩ := created_eq h
  have hnew : (new config libm usesWorkspace env).Presents :=
    { presentable :=
        { sorted := KeyedList.sorted_nil
          detail := Detail.tidy_empty
          estimate := fun _ hmem => absurd hmem (by simp [new, S4State.initial])
          grid := fun _ hmem => absurd hmem (by simp [new]) }
      results := fun _ hmem => absurd hmem (by simp [new]) }
  exact hnew.published ∅

/-- Calls keep it along a whole run. -/
theorem run {calls : List Call} {s' : Session} (hcreated : Created s)
    (hrun : Session.run calls s = some s') : s'.Presents :=
  invariant.run (fun _ _ ht => ht.lockGridRange _) (fun _ _ ht => ht.applyGridRevision _)
    (Runs.guarded_true step calls s) hrun (of_created hcreated)

end Presents

end Session

end LibApta
