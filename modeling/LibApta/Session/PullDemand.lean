import LibApta.Session.PullCompleteness
import LibApta.Session.PushSpec
import LibApta.Session.Table

/-!
# The demand of the pull adapter

The adapter asks the overview selector on the masks as they are. The public demand asks the detail
layer first, and then the overview selector with the tempo and grid features standing for the
overview. They agree where the detail layer wants nothing and the leading request, or the focus,
names the overview itself; what the adapter then reads is taken as a push takes it.
-/

namespace LibApta

namespace Session

/-! ## One demand -/

/-- The adapter sees the whole demand: the detail layer wants nothing of the range it serves, and the
request that leads for the overview, tempo and grid features names the overview, or, when there is
none, the focus does if it names one of them. -/
structure SeesDemand (s : Session) : Prop where
  overview : s.config.requests .waveformOverview = true
  detail : s.config.requests .waveformDetail = true →
    ∀ range priority token, Serves ∅ .waveformDetail s range priority token → ¬s.LacksDetail range
  request : ∀ request, Leads (wantsUnder tempoFeatures .waveformOverview) s.requests request →
    Feature.waveformOverview ∈ request.request.featureMask
  focus : (∀ request ∈ s.requests, wantsUnder tempoFeatures .waveformOverview request = false) →
    ∀ focus ∈ s.focus, Feature.waveformOverview ∈ withOverview tempoFeatures focus.featureMask →
      Feature.waveformOverview ∈ focus.featureMask

/-- A request that wants the overview wants it with other features standing for it. -/
theorem wantsUnder_of_empty (features : FeatureMask) {request : Request}
    (h : wantsUnder ∅ .waveformOverview request = true) :
    wantsUnder features .waveformOverview request = true := by
  rw [wantsUnder_empty] at h
  obtain ⟨hactive, hnames⟩ := Bool.and_eq_true_iff.mp h
  exact Bool.and_eq_true_iff.mpr
    ⟨hactive, decide_eq_true (mem_withOverview (of_decide_eq_true hnames))⟩

/-- The detail layer makes no demand when it lacks nothing of what it serves. -/
theorem detailDemand_none {s : Session} (hbytes : BytePriorities s.requests)
    (hids : UniqueIds s.requests)
    (h : s.config.requests .waveformDetail = true → ∀ range priority token,
      Serves ∅ .waveformDetail s range priority token → ¬s.LacksDetail range) :
    s.detailDemand = .error .notAvailable := by
  rcases detailDemand_cases hbytes hids with ⟨hnone, -⟩ |
    ⟨range, priority, token, column, count, hdetail, hserves, hrun, -⟩
  · exact hnone
  · exact absurd hrun.lacksDetail (h hdetail range priority token hserves)

namespace SeesDemand

variable {s : Session}

/-- Both selectors serve the same target. -/
theorem demandedTarget (h : SeesDemand s) (hbytes : BytePriorities s.requests)
    (hids : UniqueIds s.requests) :
    (s.overviewStaged tempoFeatures).demandedTarget = (s.overviewStaged ∅).demandedTarget := by
  rcases demandedTarget_cases tempoFeatures hbytes with ⟨range, priority, token, hserves, htarget⟩ |
    ⟨hunserved, htarget⟩
  · have hserves' : Serves ∅ .waveformOverview s range priority token := by
      cases hserves with
      | @request request hleads =>
          -- The request that leads the larger set is in the smaller one.
          refine .request ⟨hleads.mem, ?_, fun other hother hwants =>
            hleads.first other hother (wantsUnder_of_empty _ hwants)⟩
          rw [wantsUnder_empty]
          exact Bool.and_eq_true_iff.mpr
            ⟨isActive_of_wantsUnder _ hleads.passes, decide_eq_true (h.request request hleads)⟩
      | @focus focus hidle hfocus hnames =>
          refine .focus (fun request hmem => ?_) hfocus ?_
          · by_contra hwants
            have hwants' := wantsUnder_of_empty tempoFeatures (Bool.not_eq_false _ ▸ hwants)
            rw [hidle request hmem] at hwants'
            cases hwants'
          · rw [withOverview_empty]
            exact h.focus hidle focus hfocus hnames
    rcases demandedTarget_cases ∅ hbytes with ⟨range', priority', token', hother, htarget'⟩ |
      ⟨hunserved, -⟩
    · obtain ⟨rfl, rfl, rfl⟩ := hserves'.unique hids hother
      rw [htarget, htarget']
    · exact (hunserved.not_serves hserves').elim
  · rcases demandedTarget_cases ∅ hbytes with ⟨range', priority', token', hother, -⟩ |
      ⟨-, htarget'⟩
    · cases hother with
      | request hleads =>
          have hwants := wantsUnder_of_empty tempoFeatures hleads.passes
          rw [hunserved.1 _ hleads.mem] at hwants
          cases hwants
      | focus _ hfocus hnames =>
          rw [withOverview_empty] at hnames
          exact absurd (mem_withOverview hnames) (hunserved.2 _ hfocus)
    · rw [htarget, htarget']

/-- The adapter asks for what the public demand names. -/
theorem nextPcmRequest (h : SeesDemand s) (hbytes : BytePriorities s.requests)
    (hids : UniqueIds s.requests) : s.nextPcmRequest = s.nextOverviewRequest := by
  rw [nextPcmRequest_eq, detailDemand_none hbytes hids h.detail, nextOverviewRequest_plain]
  simp only
  rw [if_pos h.overview, overviewDemand_congr (h.demandedTarget hbytes hids)]
  cases s.overviewDemand ∅ <;> rfl

end SeesDemand

/-! ## One read -/

/-- Frames the adapter may read for a demand. -/
def readLimit (budget : WorkBudget) (range : FrameRange) : ℕ :=
  if budget.maximumInputFrames = 0 then range.endFrame - range.firstFrame
  else min (range.endFrame - range.firstFrame) budget.maximumInputFrames

/-- What the adapter makes of the answer of its source. -/
def answerRead (range : FrameRange) (frames : ℕ) (answer : PullRead) (s : Session) :
    Status × Session :=
  match answer with
  | .wouldBlock => (.wouldBlock, s)
  | .endOfInput =>
      if s.config.totalFrames.isSome ∧ s.config.totalFrames ≠ some range.firstFrame then
        s.sourceFailure
      else s.endInput range.firstFrame
  | .failure => s.sourceFailure
  | .block block => s.acceptPulled range frames block

/-- The adapter reads where the selector asks, at most as many frames. -/
theorem pullNext_reads {s t : Session} {request : PcmRequest} (source : PullSource)
    (budget : WorkBudget) (hqueue : s.queue = []) (h : s.nextOverviewRequest = (.ok request, t)) :
    s.pullNext source budget =
      t.answerRead request.range (readLimit budget request.range)
        (source request.range.firstFrame (readLimit budget request.range)) := by
  unfold pullNext
  rw [if_neg (not_not.mpr hqueue), h]
  show (match source request.range.firstFrame (readLimit budget request.range) with
    | .wouldBlock => _
    | .endOfInput => _
    | .failure => _
    | .block block => _) = _
  cases source request.range.firstFrame (readLimit budget request.range) <;> rfl

/-- The adapter asks for missing frames, and notes the choice. -/
theorem nextOverviewRequest_missing {s t : Session} {request : PcmRequest}
    (hbytes : BytePriorities s.requests) (hordered : Interval.Ordered s.accepted.ranges)
    (h : s.nextOverviewRequest = (.ok request, t)) :
    t = s.noting request.requestToken ∧ request.range.firstFrame ∉ s.accepted.frames := by
  rw [nextOverviewRequest_plain] at h
  obtain ⟨range, priority, token, -, ⟨hnone, -⟩ | ⟨first, past, hpiece, hdemand⟩⟩ :=
    overviewDemand_cases ∅ hbytes hordered
  · rw [hnone] at h
    exact absurd (congrArg Prod.fst h) (by simp)
  · rw [hdemand] at h
    obtain ⟨hrequest, rfl⟩ := Prod.mk.inj h
    obtain rfl := Except.ok.inj hrequest
    exact ⟨rfl, hpiece.missing first le_rfl hpiece.nonempty⟩

/-! ## One block -/

/-- A block that the adapter has read is taken as a push takes it. -/
theorem acceptPulled_eq_deliver {range : FrameRange} {frames : ℕ} {block : PcmBlock} {s : Session}
    (hordered : Interval.Ordered s.accepted.ranges) (hfresh : range.firstFrame ∉ s.accepted.frames)
    (hvalid : ∀ code, s.validatePcmBlock block ≠ .error code)
    (hfirst : block.firstFrame = range.firstFrame) (hframes : block.frameCount ≤ frames)
    (hend : block.firstFrame + block.frameCount ≤ range.endFrame) :
    (s.acceptPulled range frames block).2 = (s.deliver block).2.2 := by
  obtain ⟨hpos, -, -⟩ := validatePcmBlock_ok hvalid
  have hinside : ¬(block.firstFrame ≠ range.firstFrame ∨ frames < block.frameCount ∨
      range.endFrame < block.firstFrame + block.frameCount) := by omega
  rw [acceptPulled, deliver, validatePcmBlock_eq_ok hvalid]
  simp only
  rw [if_neg hinside]
  cases hactive : s.activate with
  | mk answer t =>
      rcases activate_cases hactive with ⟨rfl, ht⟩ | ⟨⟨code, hcode, rfl⟩, -, -⟩
      · simp only
        by_cases hoverview : t.config.requests .waveformOverview = true
        · rw [if_pos hoverview, if_pos hoverview]
          have hspares : Spares (t.acceptPcm block).1 := by
            have haccepted : t.accepted = s.accepted := by cases ht <;> rfl
            refine acceptPcm_fresh (haccepted ▸ hordered) hpos ?_
            rw [hfirst, haccepted]
            exact hfresh
          exact settleDelivery_spares hspares _
        · rw [if_neg hoverview, if_neg hoverview]
      · simp only
        rw [settleDelivery_lacksRoom hcode]

/-! ## The pull loop -/

/-- In every state that a run reaches and that lets the adapter see the whole demand, the adapter asks
for what the public demand names, reads there and no further, and takes a block of it as a push
does. -/
theorem pull_follows_demand (s : Session) (hcreated : Created s) (calls : List Call)
    (htyped : TypedRun calls) (s' : Session) (hrun : run calls s = some s') (hsees : SeesDemand s') :
    s'.nextOverviewRequest = s'.nextPcmRequest ∧
      ∀ request t, s'.nextPcmRequest = (.ok request, t) → s'.queue = [] →
        ∀ source budget,
          s'.pullNext source budget =
            t.answerRead request.range (readLimit budget request.range)
              (source request.range.firstFrame (readLimit budget request.range)) ∧
          ∀ block, source request.range.firstFrame (readLimit budget request.range) =
              .block block →
            (∀ code, t.validatePcmBlock block ≠ .error code) →
            block.firstFrame = request.range.firstFrame →
            block.frameCount ≤ readLimit budget request.range →
            (s'.pullNext source budget).2 = (t.deliver block).2.2 := by
  have htable := run_runTable hcreated htyped hrun
  have hordered : Interval.Ordered s'.accepted.ranges := run_inOrder hcreated hrun
  have hsame := hsees.nextPcmRequest htable.bytes htable.ids
  refine ⟨hsame.symm, fun request t hnext hqueue source budget => ?_⟩
  rw [hsame] at hnext
  have hread := pullNext_reads source budget hqueue hnext
  refine ⟨hread, fun block hblock hvalid hfirst hframes => ?_⟩
  obtain ⟨hsession, hmissing⟩ := nextOverviewRequest_missing htable.bytes hordered hnext
  rw [hread, hblock]
  have hlimit : readLimit budget request.range ≤
      request.range.endFrame - request.range.firstFrame := by
    unfold readLimit
    split_ifs
    · exact le_rfl
    · exact Nat.min_le_left _ _
  obtain ⟨hpos, -, -⟩ := validatePcmBlock_ok hvalid
  subst hsession
  exact acceptPulled_eq_deliver hordered hmissing hvalid hfirst hframes (by omega)

/-! ## A tempo request -/

/-- A pull session for the overview and the tempo, with the track of a source of 128 frames. -/
def tempoPullConfig : Config :=
  { smallConfig {.waveformOverview, .bpm} none with inputMode := .pull }

/-- A request for the second half of the track. -/
def secondHalf (features : FeatureMask) : RegionRequest := ⟨0, ⟨64, 128⟩, features, 0, 0⟩

theorem pull_follows_overview_request : ∃ s s' : Session, Created s ∧
    run [plainCall (.setSource (some 128)),
      plainCall (.requestRegion (secondHalf {.waveformOverview, .bpm}))] s = some s' ∧
    s'.nextOverviewRequest = s'.nextPcmRequest := by
  obtain ⟨s, hs⟩ : ∃ s, create tempoPullConfig seriesLibm false plainPlatform = (.ok, some s) :=
    ⟨_, rfl⟩
  have hafter : ((create tempoPullConfig seriesLibm false plainPlatform).2.bind
      (run [plainCall (.setSource (some 128)),
        plainCall (.requestRegion (secondHalf {.waveformOverview, .bpm}))])).map
        (fun s => (s.config.requests .waveformOverview, s.config.requests .waveformDetail, s.focus,
          s.requests)) =
      some (true, false, none, ⟨1, ⟨1, ⟨64, 128⟩, {.waveformOverview, .bpm}, 0, 0⟩, .queued, 0, 1⟩ ::
        List.replicate 15 .empty) := by decide +kernel
  rw [hs] at hafter
  obtain ⟨s', hrun, hfacts⟩ := Option.map_eq_some_iff.mp hafter
  simp only [Prod.mk.injEq] at hfacts
  obtain ⟨hoverview, hdetail, hfocus, hrequests⟩ := hfacts
  have hsees : SeesDemand s' := by
    refine ⟨hoverview, fun h => ?_, fun request hleads => ?_, fun _ focus hmem => ?_⟩
    · rw [hdetail] at h
      cases h
    · have hmem := hleads.mem
      rw [hrequests] at hmem
      rcases List.mem_cons.mp hmem with rfl | hempty
      · exact Finset.mem_insert_self _ _
      · have hactive := isActive_of_wantsUnder _ hleads.passes
        rw [List.eq_of_mem_replicate hempty] at hactive
        cases hactive
    · rw [hfocus] at hmem
      cases hmem
  have htyped : TypedRun [plainCall (.setSource (some 128)),
      plainCall (.requestRegion (secondHalf {.waveformOverview, .bpm}))] := by
    simp [TypedRun, plainCall, Op.Typed, secondHalf, uint64Max]
  exact ⟨s, s', ⟨_, _, _, _, hs⟩, hrun,
    (pull_follows_demand s ⟨_, _, _, _, hs⟩ _ htyped s' hrun hsees).1⟩

/-- A request that names only the tempo is in the public demand, and the adapter asks for the track
from its start. -/
theorem pull_misses_tempo_request : ∃ s s' : Session, Created s ∧
    run [plainCall (.setSource (some 128)), plainCall (.requestRegion (secondHalf {.bpm}))] s =
      some s' ∧
    s'.nextPcmRequest.1.toOption.map PcmRequest.range = some ⟨64, 128⟩ ∧
    s'.nextOverviewRequest.1.toOption.map PcmRequest.range = some ⟨0, 128⟩ := by
  obtain ⟨s, hs⟩ : ∃ s, create tempoPullConfig seriesLibm false plainPlatform = (.ok, some s) :=
    ⟨_, rfl⟩
  have hasked : ((create tempoPullConfig seriesLibm false plainPlatform).2.bind
      (run [plainCall (.setSource (some 128)), plainCall (.requestRegion (secondHalf {.bpm}))])).map
        (fun s => (s.nextPcmRequest.1.toOption.map PcmRequest.range,
          s.nextOverviewRequest.1.toOption.map PcmRequest.range)) =
      some (some ⟨64, 128⟩, some ⟨0, 128⟩) := by decide +kernel
  rw [hs] at hasked
  obtain ⟨s', hrun, hfacts⟩ := Option.map_eq_some_iff.mp hasked
  obtain ⟨hpublic, hpull⟩ := Prod.mk.inj hfacts
  exact ⟨s, s', ⟨_, _, _, _, hs⟩, hrun, hpublic, hpull⟩

end Session

end LibApta
