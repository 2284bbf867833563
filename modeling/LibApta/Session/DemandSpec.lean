import LibApta.Session.Intake
import LibApta.Session.Selection
import LibApta.Waveform.DetailDemand

/-!
# What a demand is

A demand names frames of the detail target, and only when the detail layer wants nothing frames of
the overview target. Each layer rewrites the focus and the requests before it selects and puts them
back afterwards: what remains of a demand is the counters of the active requests.
-/

namespace LibApta

namespace Session

/-! ## The two layers -/

/-- The demand of the detail layer. -/
def detailDemand (s : Session) : Except Status PcmRequest :=
  if s.config.requests .waveformDetail then
    Detail.nextPcmRequestBase (Detail.stagedContext s.detailContext) s.detail
  else .error .notAvailable

/-- The session as the overview selector sees it: the masks with the features that stand for the
overview, the slots staged. -/
def overviewStaged (features : FeatureMask) (s : Session) : Session :=
  { s.demandOverview features with
    requests := stageRequests .waveformOverview (s.demandOverview features).requests }

/-- The demand of the overview selector. -/
def overviewDemand (features : FeatureMask) (s : Session) : Except Status PcmRequest :=
  nextOverviewRequestBase (s.overviewStaged features)

/-- The session with a choice noted. -/
def noting (token : ℕ) (s : Session) : Session :=
  { s with requests := noteChoice token s.requests }

/-- The features that the public demand lets stand for the overview. -/
abbrev tempoFeatures : FeatureMask := s4Features ∪ s6Features

/-- Noting a choice commutes with showing other masks. -/
theorem restore_noteChoice (f : FeatureMask → FeatureMask) (token : ℕ) (requests : List Request) :
    List.zipWith (fun (before after : Request) =>
      { after with
        request := { after.request with
          featureMask := before.request.featureMask
          priority := before.request.priority } })
      requests (noteChoice token (requests.map (Request.mapMask f))) = noteChoice token requests := by
  unfold noteChoice
  rw [List.map_map, List.zipWith_map_right, List.zipWith_self]
  refine List.map_congr_left fun request _ => ?_
  simp only [Function.comp_apply]
  rw [show (request.mapMask f).isActive = request.isActive from rfl]
  split_ifs <;> first | rfl | contradiction

/-- The overview selector on rewritten masks, with the masks put back. -/
theorem nextOverviewRequest_restored (features : FeatureMask) (s : Session) :
    ((s.demandOverview features).nextOverviewRequest.1,
      s.restoreDemand (s.demandOverview features).nextOverviewRequest.2) =
      (s.overviewDemand features, match s.overviewDemand features with
        | .ok request => s.noting request.requestToken
        | .error _ => s) := by
  unfold nextOverviewRequest
  rw [show nextOverviewRequestBase { s.demandOverview features with
    requests := stageRequests .waveformOverview (s.demandOverview features).requests } =
      s.overviewDemand features from rfl]
  cases s.overviewDemand features with
  | ok request =>
      have hback := restore_noteChoice (withOverview features) request.requestToken s.requests
      refine congrArg (Prod.mk _) ?_
      exact congrArg (fun requests => { s with requests := requests }) hback
  | error status =>
      have hback : List.zipWith (fun (before after : Request) =>
          ({ after with
            request := { after.request with
              featureMask := before.request.featureMask
              priority := before.request.priority } } : Request)) s.requests
          (s.requests.map (Request.mapMask (withOverview features))) = s.requests := by
        rw [List.zipWith_map_right, List.zipWith_self]
        exact (List.map_congr_left fun request _ => rfl).trans (List.map_id _)
      refine congrArg (Prod.mk _) ?_
      exact congrArg (fun requests => { s with requests := requests }) hback

/-- The answer to the host: the demand of the detail layer, and where that wants nothing the demand
of the overview selector. -/
theorem nextPcmRequest_eq (s : Session) :
    s.nextPcmRequest =
      match s.detailDemand with
      | .ok request => (.ok request, s.noting request.requestToken)
      | .error (.error code) => (.error (.error code), s)
      | .error _ =>
          if s.config.requests .waveformOverview then
            (s.overviewDemand tempoFeatures, match s.overviewDemand tempoFeatures with
              | .ok request => s.noting request.requestToken
              | .error _ => s)
          else (.error .notAvailable, s) := by
  have hoverview := nextOverviewRequest_restored tempoFeatures s
  unfold nextPcmRequest Detail.nextPcmRequest detailDemand
  by_cases hdetail : s.config.requests .waveformDetail = true
  · rw [if_pos hdetail, if_pos hdetail]
    cases Detail.nextPcmRequestBase (Detail.stagedContext s.detailContext) s.detail with
    | ok request => rfl
    | error status =>
        cases status
        case error code => rfl
        all_goals
          simp only
          split_ifs
          · exact hoverview
          · rfl
  · rw [if_neg hdetail, if_neg hdetail]
    simp only
    split_ifs
    · exact hoverview
    · rfl

/-- A demand changes the counters of the table, and nothing when there is none. -/
theorem nextPcmRequest_session (s : Session) :
    s.nextPcmRequest.2 = match s.nextPcmRequest.1 with
      | .ok request => s.noting request.requestToken
      | .error _ => s := by
  rw [nextPcmRequest_eq]
  cases s.detailDemand with
  | ok request => rfl
  | error status =>
      cases status
      case error code => rfl
      all_goals
        simp only
        split_ifs <;> rfl

/-- What the pull adapter asks its source for. -/
theorem nextOverviewRequest_eq (s : Session) :
    s.nextOverviewRequest =
      match nextOverviewRequestBase
        { s with requests := stageRequests .waveformOverview s.requests } with
      | .ok request => (.ok request, s.noting request.requestToken)
      | .error status => (.error status, s) := rfl

/-! ## Whom a demand serves -/

/-- The request is active and names a feature once the features that stand for the overview have
been rewritten. -/
def wantsUnder (features : FeatureMask) (feature : Feature) (request : Request) : Bool :=
  (request.mapMask (withOverview features)).wantsFeature feature

theorem withOverview_empty (mask : FeatureMask) : withOverview ∅ mask = mask := by
  rw [withOverview, Finset.empty_inter, if_pos rfl]

theorem wantsUnder_empty (feature : Feature) :
    wantsUnder ∅ feature = fun request => request.wantsFeature feature := by
  funext request
  unfold wantsUnder Request.mapMask
  rw [withOverview_empty]

/-- A mask that names the overview names it with other features standing for it. -/
theorem mem_withOverview {features mask : FeatureMask} (h : Feature.waveformOverview ∈ mask) :
    Feature.waveformOverview ∈ withOverview features mask := by
  unfold withOverview
  split_ifs
  · exact h
  · exact Finset.mem_insert_self _ _

theorem isActive_of_wantsUnder {features : FeatureMask} {feature : Feature} (request : Request)
    (h : wantsUnder features feature request = true) : request.isActive = true :=
  (Bool.and_eq_true_iff.mp h).1

/-- The range a selector serves, with its priority and its token: that of the request that leads,
else that of the focus. -/
inductive Serves (features : FeatureMask) (feature : Feature) (s : Session) :
    FrameRange → ℕ → ℕ → Prop
  | request {request : Request} (h : Leads (wantsUnder features feature) s.requests request) :
      Serves features feature s request.request.range (scoreRequest request).effectivePriority
        request.requestId
  | focus {focus : Focus} (hidle : ∀ request ∈ s.requests, wantsUnder features feature request = false)
      (hfocus : s.focus = some focus) (hnames : feature ∈ withOverview features focus.featureMask) :
      Serves features feature s focus.window focus.priority 0

/-- No request and no focus names the feature. -/
def Unserved (features : FeatureMask) (feature : Feature) (s : Session) : Prop :=
  (∀ request ∈ s.requests, wantsUnder features feature request = false) ∧
    ∀ focus ∈ s.focus, feature ∉ withOverview features focus.featureMask

/-- A selector serves one range. -/
theorem Serves.unique {features : FeatureMask} {feature : Feature} {s : Session}
    {range range' : FrameRange} {priority priority' token token' : ℕ} (hids : UniqueIds s.requests)
    (h : Serves features feature s range priority token)
    (h' : Serves features feature s range' priority' token') :
    range = range' ∧ priority = priority' ∧ token = token' := by
  cases h with
  | request hleads =>
      cases h' with
      | request hleads' =>
          rw [hleads.unique isActive_of_wantsUnder hids hleads']
          exact ⟨rfl, rfl, rfl⟩
      | focus hidle =>
          have hwants := hleads.passes
          rw [hidle _ hleads.mem] at hwants
          cases hwants
  | focus hidle hfocus =>
      cases h' with
      | request hleads' =>
          have hwants := hleads'.passes
          rw [hidle _ hleads'.mem] at hwants
          cases hwants
      | focus _ hfocus' =>
          rw [Option.some.inj (hfocus.symm.trans hfocus')]
          exact ⟨rfl, rfl, rfl⟩

/-- A target that is served is not unserved. -/
theorem Unserved.not_serves {features : FeatureMask} {feature : Feature} {s : Session}
    {range : FrameRange} {priority token : ℕ} (h : Unserved features feature s)
    (hserves : Serves features feature s range priority token) : False := by
  cases hserves with
  | request hleads =>
      have hwants := hleads.passes
      rw [h.1 _ hleads.mem] at hwants
      cases hwants
  | focus _ hfocus hnames => exact h.2 _ hfocus hnames

theorem bytePriorities_mapMask {requests : List Request} (h : BytePriorities requests)
    (f : FeatureMask → FeatureMask) : BytePriorities (requests.map (Request.mapMask f)) := by
  intro shown hmem
  obtain ⟨request, hrequest, rfl⟩ := List.mem_map.mp hmem
  exact h request hrequest

/-- The scan of a table shown with rewritten masks and staged finds the request that leads. -/
theorem selectByPriority_shown (features : FeatureMask) (feature : Feature)
    {requests : List Request} (hbytes : BytePriorities requests) :
    (selectByPriority feature (stageRequests feature
          (requests.map (Request.mapMask (withOverview features)))) = none ∧
        ∀ request ∈ requests, wantsUnder features feature request = false) ∨
      ∃ request, selectByPriority feature (stageRequests feature
          (requests.map (Request.mapMask (withOverview features)))) =
            some (request.mapMask (withOverview features)).raised ∧
        Leads (wantsUnder features feature) requests request := by
  rcases selectByPriority_staged feature (bytePriorities_mapMask hbytes (withOverview features)) with
    ⟨hnone, hidle⟩ | ⟨shown, hfound, hleads⟩
  · exact .inl ⟨hnone, fun request hmem => hidle _ (List.mem_map_of_mem hmem)⟩
  · have hscore : ∀ request : Request, scoreRequest (request.mapMask (withOverview features)) =
        scoreRequest request := fun _ => rfl
    obtain ⟨request, rfl, hrequest⟩ := Leads.of_map hscore hleads
    exact .inr ⟨request, hfound, hrequest⟩

/-- The raised priority of a byte is the effective one. -/
theorem raised_priority {request : Request} (h : request.request.priority ≤ 255) :
    request.raised.request.priority = (scoreRequest request).effectivePriority := by
  have hbyte := effectivePriority_le h
  exact Nat.mod_eq_of_lt (by omega)

/-! ## The overview demand -/

/-- A frame cut to the known length of the track. -/
def cutEnd (s : Session) (frame : ℕ) : ℕ := Detail.cutTo s.config.totalFrames frame

/-- The range the overview selector looks through for a target: the track for an empty one. -/
def orTrack (s : Session) (range : FrameRange) : FrameRange :=
  if range.endFrame ≤ range.firstFrame then
    match s.config.totalFrames with
    | none => ⟨s.accepted.greatestEnd, min (s.accepted.greatestEnd + maxPushFrames) uint64Max⟩
    | some total => ⟨0, total⟩
  else range

/-- The overview selector serves the request that leads, else the focus, else the track. -/
theorem demandedTarget_cases (features : FeatureMask) {s : Session}
    (hbytes : BytePriorities s.requests) :
    (∃ range priority token, Serves features .waveformOverview s range priority token ∧
        (s.overviewStaged features).demandedTarget = ⟨range, priority, token⟩) ∨
      Unserved features .waveformOverview s ∧
        (s.overviewStaged features).demandedTarget = ⟨⟨0, 0⟩, 0, 0⟩ := by
  unfold demandedTarget
  rw [selectOverviewRequest_eq]
  rcases selectByPriority_shown features .waveformOverview hbytes with
    ⟨hnone, hidle⟩ | ⟨request, hfound, hleads⟩
  · rw [show selectByPriority .waveformOverview (s.overviewStaged features).requests = none from hnone]
    simp only
    cases hfocus : s.focus with
    | none =>
        rw [show (s.overviewStaged features).focus = none from by
          show s.focus.map _ = none
          rw [hfocus]
          rfl]
        exact .inr ⟨⟨hidle, by rw [hfocus]; simp⟩, rfl⟩
    | some focus =>
        rw [show (s.overviewStaged features).focus =
          some (focus.mapMask (withOverview features)) from by
            show s.focus.map _ = _
            rw [hfocus]
            rfl]
        simp only
        by_cases hnames : Feature.waveformOverview ∈ withOverview features focus.featureMask
        · exact .inl ⟨_, _, _, .focus hidle hfocus hnames, if_pos hnames⟩
        · refine .inr ⟨⟨hidle, fun other hother => ?_⟩, if_neg hnames⟩
          rw [hfocus] at hother
          rwa [← Option.some.inj hother]
  · rw [show selectByPriority .waveformOverview (s.overviewStaged features).requests = _ from hfound]
    refine .inl ⟨_, _, _, .request hleads, ?_⟩
    have hpriority := @raised_priority (request.mapMask (withOverview features))
      (hbytes request hleads.mem)
    exact congrArg (fun priority => DemandTarget.mk request.request.range priority
      request.requestId) hpriority

/-- The overview demand on one target. -/
theorem overviewDemand_eq (features : FeatureMask) (s : Session) {target : DemandTarget}
    (h : (s.overviewStaged features).demandedTarget = target) :
    s.overviewDemand features =
      match s.accepted.findMissingRange (s.orTrack target.range).firstFrame
          (s.cutEnd (s.orTrack target.range).endFrame) with
      | none => .error .notAvailable
      | some (first, past) =>
          .ok ⟨⟨first, min past (first + maxPushFrames)⟩, {.waveformOverview}, target.priority,
            target.token⟩ := by
  subst h
  rfl

/-- Two overview selectors that serve the same target make the same demand. -/
theorem overviewDemand_congr {features features' : FeatureMask} {s : Session}
    (h : (s.overviewStaged features).demandedTarget = (s.overviewStaged features').demandedTarget) :
    s.overviewDemand features = s.overviewDemand features' := by
  rw [overviewDemand_eq features s h, overviewDemand_eq features' s rfl]

/-- The range the overview selector looks through: that of the request that leads, else of the focus,
else the track, which also stands for an empty range. -/
inductive LooksThrough (features : FeatureMask) (s : Session) : FrameRange → ℕ → ℕ → Prop
  | served {range : FrameRange} {priority token : ℕ}
      (h : Serves features .waveformOverview s range priority token) :
      LooksThrough features s (s.orTrack range) priority token
  | track (h : Unserved features .waveformOverview s) :
      LooksThrough features s (s.orTrack ⟨0, 0⟩) 0 0

/-- The first missing piece of a range: every frame of the range before it is accepted, none in it. -/
structure FirstPiece (s : Session) (range : FrameRange) (first past : ℕ) : Prop where
  start_le : range.firstFrame ≤ first
  nonempty : first < past
  past_le : past ≤ s.cutEnd range.endFrame
  short : past ≤ first + maxPushFrames
  before : ∀ frame, range.firstFrame ≤ frame → frame < first → frame ∈ s.accepted.frames
  missing : ∀ frame, first ≤ frame → frame < past → frame ∉ s.accepted.frames

/-- The overview selector wants the first missing piece of the range it looks through, and nothing
when the range has none. -/
theorem overviewDemand_cases (features : FeatureMask) {s : Session}
    (hbytes : BytePriorities s.requests) (hordered : Interval.Ordered s.accepted.ranges) :
    ∃ range priority token, LooksThrough features s range priority token ∧
      ((s.overviewDemand features = .error .notAvailable ∧
          ∀ frame, range.firstFrame ≤ frame → frame < s.cutEnd range.endFrame →
            frame ∈ s.accepted.frames) ∨
        ∃ first past, FirstPiece s range first past ∧
          s.overviewDemand features = .ok ⟨⟨first, past⟩, {.waveformOverview}, priority, token⟩) := by
  obtain ⟨target, hlooks, htarget⟩ : ∃ target : DemandTarget,
      LooksThrough features s (s.orTrack target.range) target.priority target.token ∧
        (s.overviewStaged features).demandedTarget = target := by
    rcases demandedTarget_cases features hbytes with ⟨range, priority, token, hserves, htarget⟩ |
      ⟨hunserved, htarget⟩
    · exact ⟨_, .served hserves, htarget⟩
    · exact ⟨_, .track hunserved, htarget⟩
  refine ⟨_, _, _, hlooks, ?_⟩
  rw [overviewDemand_eq features s htarget]
  generalize s.orTrack target.range = range
  cases hgap : s.accepted.findMissingRange range.firstFrame (s.cutEnd range.endFrame) with
  | none => exact .inl ⟨rfl, (Interval.firstGap_eq_none hordered).mp hgap⟩
  | some gap =>
      obtain ⟨first, past⟩ := gap
      obtain ⟨hstart, hlt, hpast, hbefore, hmissing⟩ := Interval.firstGap_some hordered hgap
      refine .inr ⟨first, min past (first + maxPushFrames), ⟨hstart, ?_, ?_, ?_, hbefore, ?_⟩, rfl⟩
      · exact lt_min hlt (Nat.lt_add_of_pos_right (by norm_num))
      · exact (Nat.min_le_left _ _).trans hpast
      · exact Nat.min_le_right _ _
      · exact fun frame hfirst hframe =>
          hmissing frame hfirst (hframe.trans_le (Nat.min_le_left _ _))

/-- What the pull adapter asks is the demand of the overview selector on the masks as they are. -/
theorem nextOverviewRequest_plain (s : Session) :
    s.nextOverviewRequest = match s.overviewDemand ∅ with
      | .ok request => (.ok request, s.noting request.requestToken)
      | .error status => (.error status, s) := by
  have hfocus : s.focus.map (Focus.mapMask (withOverview ∅)) = s.focus := by
    cases s.focus with
    | none => rfl
    | some focus =>
        show some (focus.mapMask (withOverview ∅)) = some focus
        unfold Focus.mapMask
        rw [withOverview_empty]
  have hrequests : s.requests.map (Request.mapMask (withOverview ∅)) = s.requests := by
    refine (List.map_congr_left fun request _ => ?_).trans (List.map_id _)
    unfold Request.mapMask
    rw [withOverview_empty]
    rfl
  have hplain : s.demandOverview ∅ = s := by
    unfold demandOverview
    rw [hfocus, hrequests]
  rw [nextOverviewRequest_eq, overviewDemand, overviewStaged, hplain]

/-! ## The detail demand -/

/-- Some detail column of a range, cut to the known length, is empty. -/
def LacksDetail (s : Session) (range : FrameRange) : Prop :=
  ∃ column, range.firstFrame < s.cutEnd range.endFrame ∧
    range.firstFrame / detailFramesPerColumn ≤ column ∧
    column * detailFramesPerColumn < s.cutEnd range.endFrame ∧ s.detail.columnIsEmpty column = true

/-- Where the focus is served its playhead is below the last column of 64-bit frames, or the known
length is. -/
def SafeFocus (s : Session) : Prop :=
  (∀ request ∈ s.requests, wantsUnder ∅ .waveformDetail request = false) →
    ∀ focus ∈ s.focus, focus.playheadFrame < Detail.maximumSafeEnd ∨
      s.cutEnd focus.window.endFrame ≤ Detail.maximumSafeEnd

/-- Empty columns of a range, at most one push of them, with none before them in it. -/
structure EmptyRun (s : Session) (range : FrameRange) (column count : ℕ) : Prop where
  starts : range.firstFrame < s.cutEnd range.endFrame
  first_le : range.firstFrame / detailFramesPerColumn ≤ column
  pos : 0 < count
  short : count * detailFramesPerColumn ≤ maxPushFrames
  inside : ∀ i < column + count, i * detailFramesPerColumn < s.cutEnd range.endFrame
  before : ∀ i, range.firstFrame / detailFramesPerColumn ≤ i → i < column →
    s.detail.columnIsEmpty i = false
  empty : ∀ i, column ≤ i → i < column + count → s.detail.columnIsEmpty i = true

theorem cutEnd_mono (s : Session) {a b : ℕ} (h : a ≤ b) : s.cutEnd a ≤ s.cutEnd b := by
  unfold cutEnd Detail.cutTo
  cases s.config.totalFrames with
  | none => exact h
  | some total => exact min_le_min_right total h

theorem cutEnd_le_total (s : Session) (frame : ℕ) : ∀ total ∈ s.config.totalFrames,
    s.cutEnd frame ≤ total := by
  intro total htotal
  unfold cutEnd
  rw [Option.mem_def.mp htotal]
  exact Nat.min_le_right _ _

/-- A frame that the known length cuts below the safe end may be clamped first. -/
theorem cutEnd_min_of_le {s : Session} {frame bound : ℕ} (h : s.cutEnd frame ≤ bound) :
    s.cutEnd (min frame bound) = s.cutEnd frame := by
  unfold cutEnd Detail.cutTo at *
  cases htotal : s.config.totalFrames with
  | none =>
      rw [htotal] at h
      exact min_eq_left h
  | some total =>
      rw [htotal] at h
      show min (min frame bound) total = min frame total
      rw [min_right_comm]
      exact min_eq_left h

/-- An empty column is below the last tile, so it ends below the safe end. -/
theorem emptyColumn_lt {detail : Detail} {column : ℕ} (h : detail.columnIsEmpty column = true) :
    column * detailFramesPerColumn < Detail.maximumSafeEnd := by
  have hbound := Detail.columnIsEmpty_bound h
  simp only [uint32Max, detailColumnsPerTile, Detail.maximumSafeEnd, detailFramesPerColumn,
    uint64Max] at *
  omega

/-- The detail selector serves the request that leads, else the focus, with its end clamped. -/
theorem selectTarget_staged {s : Session} (hbytes : BytePriorities s.requests) :
    (Unserved ∅ .waveformDetail s ∧
        Detail.selectTarget (Detail.stagedContext s.detailContext) = none) ∨
      ∃ range priority token stop, Serves ∅ .waveformDetail s range priority token ∧
        stop ≤ range.endFrame ∧
        (s.SafeFocus → s.cutEnd stop = s.cutEnd (min range.endFrame Detail.maximumSafeEnd)) ∧
        (s.SafeFocus ∨ stop = range.endFrame) ∧
        Detail.selectTarget (Detail.stagedContext s.detailContext) =
          Detail.cutTarget s.detailContext ⟨range.firstFrame, stop⟩ priority token := by
  have hclamped : BytePriorities (s.requests.map Detail.clampRequest) := by
    intro shown hmem
    obtain ⟨request, hrequest, rfl⟩ := List.mem_map.mp hmem
    rw [Detail.clampRequest_priority]
    exact hbytes request hrequest
  have hstaged : (Detail.stagedContext s.detailContext).requests =
      stageRequests .waveformDetail (s.requests.map Detail.clampRequest) := rfl
  rcases selectByPriority_staged .waveformDetail hclamped with
    ⟨hnone, hidle⟩ | ⟨shown, hfound, hleads⟩
  · rw [← detailSelectRequest_eq, ← hstaged] at hnone
    have hidle' : ∀ request ∈ s.requests, wantsUnder ∅ .waveformDetail request = false := by
      intro request hmem
      rw [wantsUnder_empty]
      exact (Detail.clampRequest_wants _ request).symm.trans (hidle _ (List.mem_map_of_mem hmem))
    have hclampedFocus : (Detail.stagedContext s.detailContext).focus =
        s.focus.map Detail.clampFocus := rfl
    by_cases hnames : ∃ focus ∈ s.focus, Feature.waveformDetail ∈ focus.featureMask
    · obtain ⟨focus, hfocus, hnames⟩ := hnames
      rw [Option.mem_def.mp hfocus] at hclampedFocus
      refine .inr ⟨focus.window, focus.priority, 0, (Detail.clampFocus focus).window.endFrame,
        .focus hidle' hfocus (by rwa [withOverview_empty]),
        Detail.clampFocus_endFrame_le focus, fun hsafe => ?_, ?_, ?_⟩
      · by_cases hplayhead : focus.playheadFrame < Detail.maximumSafeEnd
        · rw [Detail.clampFocus_endFrame hplayhead]
        · have hend := (hsafe hidle' focus hfocus).resolve_left hplayhead
          rw [Detail.clampFocus, if_neg fun h => hplayhead h.1]
          exact (cutEnd_min_of_le hend).symm
      · by_cases hplayhead : focus.playheadFrame < Detail.maximumSafeEnd
        · refine .inl fun _ other hother => .inl ?_
          rwa [Option.some.inj (hother.symm.trans hfocus)]
        · rw [Detail.clampFocus, if_neg fun h => hplayhead h.1]
          exact .inr rfl
      · rw [Detail.selectTarget_focus hnone hclampedFocus
          (by rwa [Detail.clampFocus_featureMask]), Detail.clampFocus_priority,
          ← Detail.clampFocus_firstFrame]
        rfl
    · have hunnamed : ∀ focus ∈ s.focus, Feature.waveformDetail ∉ focus.featureMask :=
        fun focus hfocus hmask => hnames ⟨focus, hfocus, hmask⟩
      refine .inl ⟨⟨hidle', fun focus hfocus => ?_⟩,
        Detail.selectTarget_none hnone fun shown hshown => ?_⟩
      · rw [withOverview_empty]
        exact hunnamed focus hfocus
      · rw [hclampedFocus] at hshown
        obtain ⟨focus, hfocus, rfl⟩ := Option.map_eq_some_iff.mp hshown
        rw [Detail.clampFocus_featureMask]
        exact hunnamed focus hfocus
  · obtain ⟨request, rfl, hrequest⟩ := Leads.of_map Detail.clampRequest_score hleads
    have hleads' : Leads (wantsUnder ∅ .waveformDetail) s.requests request := by
      rw [wantsUnder_empty]
      simpa only [Detail.clampRequest_wants] using hrequest
    rw [← detailSelectRequest_eq, ← hstaged] at hfound
    have hpriority := @raised_priority (Detail.clampRequest request)
      (hclamped _ (List.mem_map_of_mem hleads'.mem))
    rw [Detail.clampRequest_score] at hpriority
    refine .inr ⟨_, _, _, min request.request.range.endFrame Detail.maximumSafeEnd,
      .request hleads', Nat.min_le_left _ _, fun _ => rfl, .inl fun hidle => ?_, ?_⟩
    · have hwants := hleads'.passes
      rw [hidle request hleads'.mem] at hwants
      cases hwants
    rw [Detail.selectTarget_request hfound, hpriority]
    show Detail.cutTarget _ (Detail.clampRequest request).request.range _
      (Detail.clampRequest request).requestId = _
    rw [Detail.clampRequest_range, Detail.clampRequest_requestId]
    rfl

/-- What a clamp of the end hides is no empty column. -/
theorem lt_stopColumn_clamped {s : Session} {range : FrameRange} {stop column : ℕ}
    (hstop : s.cutEnd stop = s.cutEnd (min range.endFrame Detail.maximumSafeEnd))
    (hrange : range.firstFrame < s.cutEnd range.endFrame)
    (hfirst : range.firstFrame / detailFramesPerColumn ≤ column)
    (hlast : column * detailFramesPerColumn < s.cutEnd range.endFrame)
    (hempty : s.detail.columnIsEmpty column = true) :
    range.firstFrame < s.cutEnd stop ∧ column < Detail.stopColumn (s.cutEnd stop) := by
  have hbelow := emptyColumn_lt hempty
  have hcut : s.cutEnd stop = min (s.cutEnd range.endFrame) Detail.maximumSafeEnd := by
    rw [hstop]
    unfold cutEnd Detail.cutTo
    cases s.config.totalFrames with
    | none => rfl
    | some total => exact min_right_comm _ _ _
  rw [hcut]
  refine ⟨lt_min hrange ?_, (Detail.lt_stopColumn_iff (Nat.min_le_right _ _)).mpr
    (lt_min hlast hbelow)⟩
  -- A range that starts past the safe end starts past every empty column.
  simp only [Detail.maximumSafeEnd, detailFramesPerColumn, uint64Max] at *
  omega

namespace EmptyRun

variable {s : Session} {range : FrameRange} {column count : ℕ}

theorem lacksDetail (h : EmptyRun s range column count) : s.LacksDetail range :=
  have hlt : column < column + count := Nat.lt_add_of_pos_right h.pos
  ⟨column, h.starts, h.first_le, h.inside column hlt, h.empty column le_rfl hlt⟩

/-- The first run starts at one column. -/
theorem column_unique {column' count' : ℕ} (h : EmptyRun s range column count)
    (h' : EmptyRun s range column' count') : column = column' := by
  by_contra hne
  rcases Nat.lt_or_gt_of_ne hne with hlt | hlt
  · have hempty := h.empty column le_rfl (Nat.lt_add_of_pos_right h.pos)
    rw [h'.before column h.first_le hlt] at hempty
    cases hempty
  · have hempty := h'.empty column' le_rfl (Nat.lt_add_of_pos_right h'.pos)
    rw [h.before column' h'.first_le hlt] at hempty
    cases hempty

/-- The run that a search up to a column finds is one of the range. -/
theorem of_firstRun {cut : ℕ} (hcut : cut ≤ s.cutEnd range.endFrame) (hstart : range.firstFrame < cut)
    (h : Detail.FirstRun s.detail (range.firstFrame / detailFramesPerColumn) (Detail.stopColumn cut)
      column count) : EmptyRun s range column count where
  starts := hstart.trans_le hcut
  first_le := h.first_le
  pos := h.pos
  short := h.short
  inside _ hi := (Detail.lt_of_lt_stopColumn (hi.trans_le h.inside)).trans_le hcut
  before := h.before
  empty := h.empty

/-- No run of the range is longer when the search sees all its empty columns. -/
theorem le_firstRun {stop count' : ℕ} (h : EmptyRun s range column count')
    (hsees : ∀ i, range.firstFrame / detailFramesPerColumn ≤ i →
      i * detailFramesPerColumn < s.cutEnd range.endFrame → s.detail.columnIsEmpty i = true →
      i < stop)
    (hrun : Detail.FirstRun s.detail (range.firstFrame / detailFramesPerColumn) stop column count) :
    count' ≤ count := by
  by_contra hlonger
  have hempty := h.empty (column + count) (Nat.le_add_right _ _) (by omega)
  have hlt := hsees (column + count) (h.first_le.trans (Nat.le_add_right _ _))
    (h.inside _ (by omega)) hempty
  rcases hrun.longest with hstop | hfull | hfilled
  · omega
  · have hshort := h.short
    simp only [detailFramesPerColumn] at hfull hshort
    omega
  · rw [hempty] at hfilled
    cases hfilled

end EmptyRun

/-- The frames of a run of detail columns, at most one push of them, cut to the known length. -/
structure DetailPiece (s : Session) (column count : ℕ) (range : FrameRange) : Prop where
  pos : 0 < count
  short : count * detailFramesPerColumn ≤ maxPushFrames
  indexed : (column + count - 1) / detailColumnsPerTile ≤ uint32Max
  first : range.firstFrame = column * detailFramesPerColumn
  past : range.endFrame = s.cutEnd ((column + count) * detailFramesPerColumn)
  nonempty : range.firstFrame < range.endFrame

theorem EmptyRun.piece {s : Session} {range : FrameRange} {column count : ℕ}
    (h : EmptyRun s range column count) : DetailPiece s column count
      ⟨column * detailFramesPerColumn, s.cutEnd ((column + count) * detailFramesPerColumn)⟩ where
  pos := h.pos
  short := h.short
  indexed := by
    have hpos := h.pos
    exact Detail.columnIsEmpty_bound (h.empty (column + count - 1) (by omega) (by omega))
  first := rfl
  past := rfl
  nonempty := by
    have hlt : column < column + count := Nat.lt_add_of_pos_right h.pos
    have hgrows : column * detailFramesPerColumn < (column + count) * detailFramesPerColumn :=
      Nat.mul_lt_mul_of_pos_right hlt (by norm_num)
    have hinside := h.inside column hlt
    unfold cutEnd Detail.cutTo at *
    cases htotal : s.config.totalFrames with
    | none => exact hgrows
    | some total =>
        rw [htotal] at hinside
        exact lt_min hgrows (lt_min_iff.mp hinside).2

namespace DetailPiece

variable {s : Session} {column count : ℕ} {range : FrameRange}

theorem le_columns (h : DetailPiece s column count range) :
    range.endFrame ≤ (column + count) * detailFramesPerColumn := by
  rw [h.past]
  exact Detail.cutTo_le _ _

theorem le_push (h : DetailPiece s column count range) :
    range.endFrame ≤ range.firstFrame + maxPushFrames := by
  refine h.le_columns.trans ?_
  rw [h.first, Nat.add_mul]
  exact Nat.add_le_add_left h.short _

/-- The columns of an indexed tile are far below the largest frame. -/
theorem lt_uint64 (h : DetailPiece s column count range) : range.endFrame < uint64Max := by
  have hpast : column + count - 1 < (uint32Max + 1) * detailColumnsPerTile :=
    (Nat.div_lt_iff_lt_mul (by norm_num)).mp (Nat.lt_succ_of_le h.indexed)
  have hlimit : (uint32Max + 1) * detailColumnsPerTile * detailFramesPerColumn < uint64Max := by
    norm_num
  refine (h.le_columns.trans (Nat.mul_le_mul_right _ ?_)).trans_lt hlimit
  omega

theorem le_total (h : DetailPiece s column count range) :
    ∀ total ∈ s.config.totalFrames, range.endFrame ≤ total := by
  rw [h.past]
  exact s.cutEnd_le_total _

/-- The piece is made of whole columns but for the last of the track. -/
theorem aligned (h : DetailPiece s column count range) :
    range.firstFrame % detailFramesPerColumn = 0 ∧
      (range.endFrame % detailFramesPerColumn = 0 ∨
        s.config.totalFrames = some range.endFrame) := by
  refine ⟨by rw [h.first, Nat.mul_mod_left], ?_⟩
  rw [h.past]
  unfold cutEnd Detail.cutTo
  cases s.config.totalFrames with
  | none => exact .inl (Nat.mul_mod_left _ _)
  | some total =>
      rcases Nat.le_total ((column + count) * detailFramesPerColumn) total with hle | hle
      · refine .inl ?_
        show min _ total % _ = 0
        rw [min_eq_left hle, Nat.mul_mod_left]
      · exact .inr (congrArg some (min_eq_right hle).symm)

end DetailPiece

/-- The detail layer wants the first run of empty columns of the range it serves, as long as one push,
and nothing when the range has none. -/
theorem detailDemand_cases {s : Session} (hbytes : BytePriorities s.requests)
    (hids : UniqueIds s.requests) :
    (s.detailDemand = .error .notAvailable ∧
        (s.config.requests .waveformDetail = true → s.SafeFocus → ∀ range priority token,
          Serves ∅ .waveformDetail s range priority token → ¬s.LacksDetail range)) ∨
      ∃ range priority token column count, s.config.requests .waveformDetail = true ∧
        Serves ∅ .waveformDetail s range priority token ∧ EmptyRun s range column count ∧
        (s.SafeFocus → ∀ count', EmptyRun s range column count' → count' ≤ count) ∧
        s.detailDemand = .ok ⟨⟨column * detailFramesPerColumn,
          s.cutEnd ((column + count) * detailFramesPerColumn)⟩, {.waveformDetail}, priority,
          token⟩ := by
  unfold detailDemand
  by_cases hrequested : s.config.requests .waveformDetail = true
  swap
  · rw [if_neg hrequested]
    exact .inl ⟨rfl, fun h => absurd h hrequested⟩
  rw [if_pos hrequested]
  rcases selectTarget_staged hbytes with ⟨hunserved, htarget⟩ | ⟨range, priority, token, stop,
    hserves, hstop, hsafe, -, htarget⟩
  · exact .inl ⟨Detail.nextPcmRequestBase_none _ htarget, fun _ _ range priority token h =>
      (hunserved.not_serves h).elim⟩
  by_cases hnothing : s.cutEnd stop ≤ range.firstFrame
  · refine .inl ⟨Detail.nextPcmRequestBase_none _ (htarget.trans (if_pos hnothing)),
      fun _ hfocus range' priority' token' hserves' hlacks => ?_⟩
    obtain ⟨rfl, -, -⟩ := hserves.unique hids hserves'
    obtain ⟨column, hrange, hfirst, hlast, hempty⟩ := hlacks
    exact absurd (lt_stopColumn_clamped (hsafe hfocus) hrange hfirst hlast hempty).1
      (not_lt.mpr hnothing)
  have htarget' := htarget.trans (if_neg hnothing)
  rcases Detail.nextPcmRequestBase_cases s.detail htarget' (s.cutEnd_le_total stop) with
    ⟨hnone, hfull⟩ | ⟨column, count, hrun, hdemand⟩
  · refine .inl ⟨hnone, fun _ hfocus range' priority' token' hserves' hlacks => ?_⟩
    obtain ⟨rfl, -, -⟩ := hserves.unique hids hserves'
    obtain ⟨column, hrange, hfirst, hlast, hempty⟩ := hlacks
    have hcolumn := hfull column hfirst
      (lt_stopColumn_clamped (hsafe hfocus) hrange hfirst hlast hempty).2
    rw [hempty] at hcolumn
    cases hcolumn
  · have hempties : EmptyRun s range column count :=
      .of_firstRun (s.cutEnd_mono hstop) (not_le.mp hnothing) hrun
    refine .inr ⟨range, priority, token, column, count, hrequested, hserves, hempties,
      fun hfocus count' hother => hother.le_firstRun (fun i hfirst hlast hempty => ?_) hrun, hdemand⟩
    exact (lt_stopColumn_clamped (hsafe hfocus) hempties.starts hfirst hlast hempty).2

/-- A search that wraps around sees no column. -/
theorem safe_of_lt_stopColumn {endFrame column : ℕ} (hend : endFrame ≤ uint64Max)
    (h : column < Detail.stopColumn endFrame) : endFrame ≤ Detail.maximumSafeEnd := by
  unfold Detail.stopColumn at h
  simp only [Detail.maximumSafeEnd, detailFramesPerColumn, uint64Max] at *
  omega

/-- The window of a focus ends at a frame of 64 bits. -/
theorem window_endFrame_le {focus : Focus} (h : focus.playheadFrame ≤ uint64Max) :
    focus.window.endFrame ≤ uint64Max := by
  unfold Focus.window
  dsimp only
  split_ifs
  · exact le_rfl
  · omega

/-- The detail layer wants columns of a focus only where its search does not wrap around. -/
theorem detailDemand_safeFocus {s : Session} {request : PcmRequest}
    (hbytes : BytePriorities s.requests)
    (hplayhead : ∀ focus ∈ s.focus, focus.playheadFrame ≤ uint64Max)
    (h : s.detailDemand = .ok request) : s.SafeFocus := by
  unfold detailDemand at h
  split_ifs at h
  rcases selectTarget_staged hbytes with ⟨-, htarget⟩ | ⟨range, priority, token, stop, hserves, -, -,
    hsafe | rfl, htarget⟩
  · rw [Detail.nextPcmRequestBase_none _ htarget] at h
    cases h
  · exact hsafe
  intro hidle focus hfocus
  refine .inr ?_
  cases hserves with
  | request hleads =>
      have hwants := hleads.passes
      rw [hidle _ hleads.mem] at hwants
      cases hwants
  | @focus served _ hserved _ =>
      obtain rfl := Option.some.inj (hserved.symm.trans hfocus)
      by_cases hnothing : s.cutEnd served.window.endFrame ≤ served.window.firstFrame
      · rw [Detail.nextPcmRequestBase_none _ (htarget.trans (if_pos hnothing))] at h
        cases h
      rcases Detail.nextPcmRequestBase_cases s.detail (htarget.trans (if_neg hnothing))
          (s.cutEnd_le_total served.window.endFrame) with ⟨hnone, -⟩ | ⟨column, count, hrun, -⟩
      · rw [hnone] at h
        cases h
      · exact safe_of_lt_stopColumn
          ((Detail.cutTo_le _ _).trans (window_endFrame_le (hplayhead served hfocus)))
          ((Nat.lt_add_of_pos_right hrun.pos).trans_le hrun.inside)

/-! ## The public demand -/

/-- What the host is asked for: the demand of the detail layer, else that of the overview selector, else
nothing. -/
theorem nextPcmRequest_cases {s : Session} (hbytes : BytePriorities s.requests)
    (hids : UniqueIds s.requests) (hordered : Interval.Ordered s.accepted.ranges) :
    (∃ request, s.detailDemand = .ok request ∧
        s.nextPcmRequest = (.ok request, s.noting request.requestToken)) ∨
      s.detailDemand = .error .notAvailable ∧
        ((∃ request, s.config.requests .waveformOverview = true ∧
            s.overviewDemand tempoFeatures = .ok request ∧
            s.nextPcmRequest = (.ok request, s.noting request.requestToken)) ∨
          (s.config.requests .waveformOverview = true →
            s.overviewDemand tempoFeatures = .error .notAvailable) ∧
          s.nextPcmRequest = (.error .notAvailable, s)) := by
  rw [nextPcmRequest_eq]
  rcases detailDemand_cases hbytes hids with ⟨hnone, -⟩ | ⟨_, _, _, _, _, -, -, -, -, hdemand⟩
  swap
  · rw [hdemand]
    exact .inl ⟨_, rfl, rfl⟩
  refine .inr ⟨hnone, ?_⟩
  rw [hnone]
  simp only
  by_cases hoverview : s.config.requests .waveformOverview = true
  · rw [if_pos hoverview]
    obtain ⟨_, _, _, -, ⟨hnone, -⟩ | ⟨_, _, -, hdemand⟩⟩ :=
      overviewDemand_cases tempoFeatures hbytes hordered
    · rw [hnone]
      exact .inr ⟨fun _ => rfl, rfl⟩
    · rw [hdemand]
      exact .inl ⟨_, hoverview, rfl, rfl⟩
  · rw [if_neg hoverview]
    exact .inr ⟨fun h => absurd h hoverview, rfl⟩

/-- The overview selector asks for the overview. -/
theorem overviewDemand_mask {features : FeatureMask} {s : Session} {request : PcmRequest}
    (h : s.overviewDemand features = .ok request) : request.featureMask = {.waveformOverview} := by
  rw [overviewDemand_eq features s rfl] at h
  split at h
  · cases h
  · rw [← Except.ok.inj h]

end Session

end LibApta
