import LibApta.Session.AcceptedSet
import LibApta.Session.PushSpec
import LibApta.Session.Settings

/-!
# Replays of a demand

A replay is admitted when it starts the first run of empty columns of a target that is selected anew,
by the priorities as they are stored and the slots as they stand. The demand has staged the requests
by their effective priorities, deadlines and ages. A demanded replay is admitted, and no other, where
both selections have the same first run of empty columns.
-/

namespace LibApta

namespace Session

/-! ## The target of a replay -/

/-- The range that a replay is checked against: that of the first slot of the highest stored priority,
else that of the focus. -/
inductive Admits (s : Session) : FrameRange → Prop
  | request {request : Request} (h : Foremost .waveformDetail s.requests request) :
      Admits s request.request.range
  | focus {focus : Focus}
      (hidle : ∀ request ∈ s.requests, request.wantsFeature .waveformDetail = false)
      (hfocus : s.focus = some focus) (hnames : Feature.waveformDetail ∈ focus.featureMask) :
      Admits s focus.window

/-- The detail columns that a replay may fill. -/
def replayDemand (s : Session) : Except Status PcmRequest :=
  Detail.nextPcmRequestBase s.detailContext s.detail

/-- The slot that the search for a target finds, after a choice has been noted. -/
theorem selectRequest_noteChoice (token : ℕ) (requests : List Request) :
    (Detail.selectRequest requests = none ∧
        Detail.selectRequest (noteChoice token requests) = none) ∨
      ∃ request noted, Detail.selectRequest requests = some request ∧
        Detail.selectRequest (noteChoice token requests) = some noted ∧
        noted.request = request.request ∧ noted.requestId = request.requestId := by
  rw [detailSelectRequest_eq]
  unfold noteChoice
  generalize hf : (fun request : Request =>
    if request.isActive then
      if request.requestId = token then { request with skipCount := 0 }
      else if request.skipCount < schedulerMaxSkips then
        { request with skipCount := request.skipCount + 1 }
      else request
    else request) = f
  have hkeeps : ∀ request, (f request).request = request.request ∧
      (f request).requestId = request.requestId ∧ (f request).isActive = request.isActive := by
    intro request
    rw [← hf]
    dsimp only
    split_ifs <;> exact ⟨rfl, rfl, rfl⟩
  have hmap := @selectByPriority_map .waveformDetail f
    (fun request => by
      obtain ⟨hrequest, -, hactive⟩ := hkeeps request
      rw [Request.wantsFeature, Request.wantsFeature, hrequest, hactive])
    (fun request => by rw [(hkeeps request).1]) requests
  rw [hmap]
  cases selectByPriority .waveformDetail requests with
  | none => exact .inl ⟨rfl, rfl⟩
  | some request => exact .inr ⟨request, f request, rfl, rfl, (hkeeps request).1, (hkeeps request).2.1⟩

/-- The target of a replay does not depend on the counters. -/
theorem replayDemand_noting (token : ℕ) (s : Session) :
    (s.noting token).replayDemand = s.replayDemand := by
  have htarget : Detail.selectTarget (s.noting token).detailContext =
      Detail.selectTarget s.detailContext := by
    rcases selectRequest_noteChoice token s.requests with ⟨hnone, hnoted⟩ |
      ⟨request, noted, hsome, hnoted, hrequest, hid⟩
    · unfold Detail.selectTarget
      rw [show Detail.selectRequest (s.noting token).detailContext.requests = none from hnoted,
        show Detail.selectRequest s.detailContext.requests = none from hnone]
      rfl
    · rw [@Detail.selectTarget_request (s.noting token).detailContext _ hnoted,
        @Detail.selectTarget_request s.detailContext _ hsome, hrequest, hid]
      rfl
  unfold replayDemand Detail.nextPcmRequestBase
  rw [htarget]
  rfl

/-- A served range is in the way of no replay: there is one that replays are checked against. -/
theorem Serves.admits {s : Session} {range : FrameRange} {priority token : ℕ}
    (h : Serves ∅ .waveformDetail s range priority token) : ∃ range', Admits s range' := by
  rcases selectByPriority_spec .waveformDetail s.requests with ⟨-, hidle⟩ | ⟨request, -, hforemost⟩
  · cases h with
    | request hleads =>
        have hwants := hleads.passes
        rw [wantsUnder_empty] at hwants
        exact absurd hwants (by simp [hidle _ hleads.mem])
    | focus _ hfocus hnames =>
        rw [withOverview_empty] at hnames
        exact ⟨_, .focus hidle hfocus hnames⟩
  · exact ⟨_, .request hforemost⟩

/-- A range that replays are checked against comes with a served range. -/
theorem Admits.serves {s : Session} {range : FrameRange} (hbytes : BytePriorities s.requests)
    (h : Admits s range) : ∃ range' priority token,
      Serves ∅ .waveformDetail s range' priority token := by
  rcases selectByPriority_staged .waveformDetail hbytes with ⟨-, hidle⟩ | ⟨request, -, hleads⟩
  · cases h with
    | request hforemost =>
        obtain ⟨before, after, hsplit, hwants, -⟩ := hforemost
        rw [hidle _ (by rw [hsplit]; simp)] at hwants
        cases hwants
    | focus _ hfocus hnames =>
        refine ⟨_, _, _, .focus (fun request hmem => ?_) hfocus ?_⟩
        · rw [wantsUnder_empty]
          exact hidle request hmem
        · rwa [withOverview_empty]
  · rw [LeadsFor, ← wantsUnder_empty] at hleads
    exact ⟨_, _, _, .request hleads⟩

/-- The target of a replay is a range that replays are checked against. -/
theorem replayTarget_cases (s : Session) :
    ((∀ range, ¬Admits s range) ∧ Detail.selectTarget s.detailContext = none) ∨
      ∃ range priority token, Admits s range ∧ Detail.selectTarget s.detailContext =
        Detail.cutTarget s.detailContext range priority token := by
  rcases selectByPriority_spec .waveformDetail s.requests with
    ⟨hnone, hidle⟩ | ⟨request, hfound, hforemost⟩
  · rw [← detailSelectRequest_eq] at hnone
    by_cases hnames : ∃ focus ∈ s.focus, Feature.waveformDetail ∈ focus.featureMask
    · obtain ⟨focus, hfocus, hnames⟩ := hnames
      exact .inr ⟨_, _, _, .focus hidle hfocus hnames,
        @Detail.selectTarget_focus s.detailContext _ hnone hfocus hnames⟩
    · refine .inl ⟨fun range h => ?_, @Detail.selectTarget_none s.detailContext hnone
        fun focus hfocus hmask => hnames ⟨focus, hfocus, hmask⟩⟩
      cases h with
      | request hforemost =>
          obtain ⟨before, after, hsplit, hwants, -⟩ := hforemost
          rw [hidle _ (by rw [hsplit]; simp)] at hwants
          cases hwants
      | focus _ hfocus hmask => exact hnames ⟨_, hfocus, hmask⟩
  · rw [← detailSelectRequest_eq] at hfound
    exact .inr ⟨_, _, _, .request hforemost,
      @Detail.selectTarget_request s.detailContext _ hfound⟩

/-- A replay may fill the first run of empty columns of the range it is checked against. -/
theorem replayDemand_cases {s : Session}
    (hends : ∀ range, Admits s range → range.endFrame ≤ uint64Max) :
    (s.replayDemand = .error .notAvailable ∧ ((∀ range, ¬Admits s range) ∨
        ∃ range, Admits s range ∧ (s.cutEnd range.endFrame ≤ Detail.maximumSafeEnd →
          ¬s.LacksDetail range))) ∨
      ∃ range priority token column count, Admits s range ∧ EmptyRun s range column count ∧
        s.cutEnd range.endFrame ≤ Detail.maximumSafeEnd ∧
        (∀ count', EmptyRun s range column count' → count' ≤ count) ∧
        s.replayDemand = .ok ⟨⟨column * detailFramesPerColumn,
          s.cutEnd ((column + count) * detailFramesPerColumn)⟩, {.waveformDetail}, priority,
          token⟩ := by
  rcases replayTarget_cases s with ⟨hnone, htarget⟩ | ⟨range, priority, token, hadmits, htarget⟩
  · exact .inl ⟨Detail.nextPcmRequestBase_none _ htarget, .inl hnone⟩
  by_cases hnothing : s.cutEnd range.endFrame ≤ range.firstFrame
  · refine .inl ⟨Detail.nextPcmRequestBase_none _ (htarget.trans (if_pos hnothing)),
      .inr ⟨range, hadmits, fun _ hlacks => ?_⟩⟩
    obtain ⟨column, hrange, -⟩ := hlacks
    exact absurd hrange (not_lt.mpr hnothing)
  have htarget' := htarget.trans (if_neg hnothing)
  rcases Detail.nextPcmRequestBase_cases s.detail htarget' (s.cutEnd_le_total range.endFrame) with
    ⟨hnone, hfull⟩ | ⟨column, count, hrun, hdemand⟩
  · refine .inl ⟨hnone, .inr ⟨range, hadmits, fun hsafe hlacks => ?_⟩⟩
    obtain ⟨column, -, hfirst, hlast, hempty⟩ := hlacks
    have hcolumn := hfull column hfirst ((Detail.lt_stopColumn_iff hsafe).mpr hlast)
    rw [hempty] at hcolumn
    cases hcolumn
  · have hend : s.cutEnd range.endFrame ≤ uint64Max :=
      (Detail.cutTo_le _ _).trans (hends range hadmits)
    have hsafe := safe_of_lt_stopColumn hend
      ((Nat.lt_add_of_pos_right hrun.pos).trans_le hrun.inside)
    refine .inr ⟨range, priority, token, column, count, hadmits,
      .of_firstRun le_rfl (not_le.mp hnothing) hrun, hsafe, fun count' hother => ?_, hdemand⟩
    exact hother.le_firstRun (fun i _ hlast _ => (Detail.lt_stopColumn_iff hsafe).mpr hlast) hrun

/-- Where every range that replays are checked against starts with the same empty columns, a replay
may fill them. -/
theorem replayDemand_covers {s : Session} {column count : ℕ}
    (hends : ∀ range, Admits s range → range.endFrame ≤ uint64Max)
    (hadmits : ∃ range, Admits s range)
    (hcovers : ∀ range, Admits s range →
      EmptyRun s range column count ∧ s.cutEnd range.endFrame ≤ Detail.maximumSafeEnd) :
    ∃ replay, s.replayDemand = .ok replay ∧
      replay.range.firstFrame = column * detailFramesPerColumn ∧
      s.cutEnd ((column + count) * detailFramesPerColumn) ≤ replay.range.endFrame := by
  rcases replayDemand_cases hends with ⟨-, hnone | ⟨range, hadmits', hfull⟩⟩ |
    ⟨range, priority, token, column', count', hadmits', hrun, -, hlongest, hreplay⟩
  · obtain ⟨range, hadmits⟩ := hadmits
    exact absurd hadmits (hnone range)
  · obtain ⟨hrun, hsafe⟩ := hcovers range hadmits'
    exact absurd hrun.lacksDetail (hfull hsafe)
  · obtain ⟨hsame, -⟩ := hcovers range hadmits'
    obtain rfl := hrun.column_unique hsame
    exact ⟨_, hreplay, rfl,
      s.cutEnd_mono (Nat.mul_le_mul_right _ (Nat.add_le_add_left (hlongest count hsame) _))⟩

/-! ## Agreement -/

/-- The first run of empty columns is the same in the range the demand serves and in the range a
replay is checked against, and the latter ends where the search for it does not wrap around. -/
structure ReplayAgrees (s : Session) : Prop where
  same : ∀ range priority token range', Serves ∅ .waveformDetail s range priority token →
    Admits s range' → ∀ column count, EmptyRun s range column count ↔ EmptyRun s range' column count
  safe : ∀ range column count, Admits s range → EmptyRun s range column count →
    s.cutEnd range.endFrame ≤ Detail.maximumSafeEnd

theorem detailDemand_requested {s : Session} {request : PcmRequest}
    (h : s.detailDemand = .ok request) : s.config.requests .waveformDetail = true := by
  by_contra hnot
  rw [detailDemand, if_neg hnot] at h
  cases h

/-- A demand for detail columns is the demand of the detail layer. -/
theorem nextPcmRequest_detail {s t : Session} {request : PcmRequest}
    (hbytes : BytePriorities s.requests) (hids : UniqueIds s.requests)
    (hordered : Interval.Ordered s.accepted.ranges) (h : s.nextPcmRequest = (.ok request, t))
    (hdetail : Feature.waveformDetail ∈ request.featureMask) : s.detailDemand = .ok request := by
  rcases nextPcmRequest_cases hbytes hids hordered with ⟨demand, hdemand, heq⟩ |
    ⟨-, ⟨demand, -, hdemand, heq⟩ | ⟨-, heq⟩⟩
  · rw [heq] at h
    rw [hdemand, Except.ok.inj (Prod.mk.inj h).1]
  · rw [heq] at h
    rw [← Except.ok.inj (Prod.mk.inj h).1, overviewDemand_mask hdemand] at hdetail
    cases Finset.mem_singleton.mp hdetail
  · rw [heq] at h
    cases (Prod.mk.inj h).1

namespace ReplayAgrees

variable {s : Session}

/-- A replay may fill what the detail layer wants. -/
theorem replay_of_demand (h : ReplayAgrees s) (hbytes : BytePriorities s.requests)
    (hids : UniqueIds s.requests) (hends : ∀ range, Admits s range → range.endFrame ≤ uint64Max)
    {request : PcmRequest} (hdemand : s.detailDemand = .ok request) :
    ∃ column count replay, DetailPiece s column count request.range ∧
      s.replayDemand = .ok replay ∧ replay.range.firstFrame = request.range.firstFrame ∧
      request.range.endFrame ≤ replay.range.endFrame := by
  rcases detailDemand_cases hbytes hids with ⟨hnone, -⟩ |
    ⟨range, priority, token, column, count, -, hserves, hrun, -, hok⟩
  · rw [hnone] at hdemand
    cases hdemand
  rw [hok] at hdemand
  obtain rfl := Except.ok.inj hdemand
  obtain ⟨replay, hreplay, hfirst, hend⟩ := replayDemand_covers hends hserves.admits
    fun range' hadmits =>
      have hsame := (h.same range priority token range' hserves hadmits column count).mp hrun
      ⟨hsame, h.safe range' column count hadmits hsame⟩
  exact ⟨column, count, replay, hrun.piece, hreplay, hfirst, hend⟩

/-- The detail layer wants what a replay may fill. -/
theorem demand_of_replay (h : ReplayAgrees s) (hbytes : BytePriorities s.requests)
    (hids : UniqueIds s.requests) (hends : ∀ range, Admits s range → range.endFrame ≤ uint64Max)
    (hrequested : s.config.requests .waveformDetail = true) {replay : PcmRequest}
    (hreplay : s.replayDemand = .ok replay) :
    ∃ request, s.detailDemand = .ok request ∧ Feature.waveformDetail ∈ request.featureMask ∧
      request.range.firstFrame = replay.range.firstFrame ∧
      replay.range.endFrame ≤ request.range.endFrame := by
  rcases replayDemand_cases hends with ⟨hnone, -⟩ |
    ⟨range', priority', token', column, count, hadmits, hrun, hsafe, -, hok⟩
  · rw [hnone] at hreplay
    cases hreplay
  rw [hok] at hreplay
  obtain rfl := Except.ok.inj hreplay
  obtain ⟨range, priority, token, hserves⟩ := hadmits.serves hbytes
  have hserved := (h.same range priority token range' hserves hadmits column count).mpr hrun
  have hfocus : s.SafeFocus := by
    intro hidle focus hmem
    cases hadmits with
    | request hforemost =>
        obtain ⟨before, after, hsplit, hwants, -⟩ := hforemost
        have hnot := hidle _ (by rw [hsplit]; exact List.mem_append_right _ List.mem_cons_self)
        rw [wantsUnder_empty] at hnot
        exact absurd hwants (by simp [hnot])
    | focus _ hset _ =>
        obtain rfl := Option.some.inj (hset.symm.trans hmem)
        exact .inr hsafe
  rcases detailDemand_cases hbytes hids with ⟨-, hfull⟩ |
    ⟨range'', priority'', token'', column'', count'', -, hserves'', hrun'', hlongest, hok''⟩
  · exact absurd hserved.lacksDetail (hfull hrequested hfocus range priority token hserves)
  · obtain ⟨rfl, -, -⟩ := hserves.unique hids hserves''
    obtain rfl := hserved.column_unique hrun''
    refine ⟨_, hok'', Finset.mem_singleton_self _, rfl, ?_⟩
    exact s.cutEnd_mono
      (Nat.mul_le_mul_right _ (Nat.add_le_add_left (hlongest hfocus count hserved) _))

end ReplayAgrees

/-! ## The push after a demand -/

/-- The ranges of a run end at frames of 64 bits. -/
theorem admits_ends {s : Session} (hends : ∀ request ∈ s.requests,
    request.request.range.endFrame ≤ uint64Max) (hplayhead : ∀ focus ∈ s.focus,
    focus.playheadFrame ≤ uint64Max) : ∀ range, Admits s range → range.endFrame ≤ uint64Max := by
  intro range h
  cases h with
  | request hforemost =>
      obtain ⟨before, after, hsplit, -⟩ := hforemost
      exact hends _ (by rw [hsplit]; simp)
  | focus _ hfocus _ => exact window_endFrame_le (hplayhead _ hfocus)

/-- The session that a demand leaves differs in the counters. -/
theorem nextPcmRequest_noted (s : Session) :
    s.nextPcmRequest.2 = s ∨ ∃ token, s.nextPcmRequest.2 = s.noting token := by
  rw [nextPcmRequest_session]
  cases s.nextPcmRequest.1 with
  | ok request => exact .inr ⟨_, rfl⟩
  | error status => exact .inl rfl

/-- A push after a demand is taken by a session that sees what the demand saw. -/
theorem pushPcm_afterDemand {s t : Session} {push : Call}
    (ht : t = s.nextPcmRequest.2.withPlatform push) (htakes : TakesPush t) :
    ∃ u : Session, u.env.Granting ∧ (u.accepted = s.accepted ∧ u.queue = s.queue ∧
        u.detail = s.detail ∧
        u.config = s.config ∧ t.config = s.config ∧ u.endOfInput = t.endOfInput) ∧
      u.replayDemand = s.replayDemand ∧ u.detailContext = t.detailContext ∧
      ∀ block, (∀ code, t.validatePcmBlock block ≠ .error code) →
        t.pushPcm block = u.acceptPcm block := by
  obtain ⟨u, hactivate, hactivated, hgranting⟩ := htakes.activate
  obtain ⟨hinput, hreplay, hcontext⟩ : (u.accepted = s.accepted ∧ u.queue = s.queue ∧
      u.detail = s.detail ∧ u.config = s.config ∧ t.config = s.config ∧
      u.endOfInput = t.endOfInput) ∧ u.replayDemand = s.replayDemand ∧
      u.detailContext = t.detailContext := by
    subst ht
    rcases nextPcmRequest_noted s with hnext | ⟨token, hnext⟩
    · rw [hnext] at hactivated ⊢
      cases hactivated <;> exact ⟨⟨rfl, rfl, rfl, rfl, rfl, rfl⟩, rfl, rfl⟩
    · rw [hnext] at hactivated ⊢
      rw [← replayDemand_noting token s]
      cases hactivated <;> exact ⟨⟨rfl, rfl, rfl, rfl, rfl, rfl⟩, rfl, rfl⟩
  refine ⟨u, hgranting, hinput, hreplay, hcontext, fun block hvalid => ?_⟩
  obtain ⟨-, -, -, hconfig, hconfig', -⟩ := hinput
  rw [pushPcm_eq_deliver htakes.mode htakes.state hvalid, deliver, hactivate]
  simp only
  rw [if_pos]
  rw [hconfig, ← hconfig']
  exact htakes.overview

/-- A push of a piece that a replay may fill is a replay of it when its first frame is accepted. -/
theorem pushPcm_replays {s t : Session} {push : Call} {range : FrameRange} {column count : ℕ}
    {replay : PcmRequest} {block : PcmBlock} (ht : t = s.nextPcmRequest.2.withPlatform push)
    (htakes : TakesPush t) (hordered : Interval.Ordered s.accepted.ranges)
    (hrequested : s.config.requests .waveformDetail = true)
    (hpiece : DetailPiece s column count range) (hreplay : s.replayDemand = .ok replay)
    (hfirst' : replay.range.firstFrame = range.firstFrame)
    (hend' : range.endFrame ≤ replay.range.endFrame) (hindexed : beyondDetail block = false)
    (hfirst : block.firstFrame = range.firstFrame)
    (hend : block.firstFrame + block.frameCount = range.endFrame)
    (htaken : block.firstFrame ∈ s.accepted.frames) :
    ∃ after, t.pushPcm block = (.ok, block.frameCount, after) ∧
      after.accepted = s.accepted ∧ after.queue = s.queue ∧
      after.detail = Detail.refreshCompleted t.endOfInput
        (Detail.replaySamples t.detailContext block.samples block.firstFrame s.detail).2 := by
  obtain ⟨u, hgranting, ⟨haccepted, hqueue, hdetail, hconfig, hconfig', heoi⟩, hsame, hcontext,
    hpush⟩ := pushPcm_afterDemand ht htakes
  have hpos : 0 < block.frameCount := by
    have := hpiece.nonempty
    omega
  have hvalid := validatePcmBlock_inside hpos (hend.trans_le hpiece.lt_uint64.le) htakes.opened
    (by rw [hconfig', hend]; exact hpiece.le_total)
  have htotal : u.detailContext.totalFrames = s.config.totalFrames :=
    congrArg Config.totalFrames hconfig
  have hreplayed := @Detail.acceptReplay_of_demand u.detailContext _ _ _ (hsame.trans hreplay)
    (hfirst.trans hfirst'.symm) hpos (by have := hpiece.le_push; omega) (hend.trans_le hend')
    (hfirst ▸ hpiece.aligned.1) (by rw [htotal, hend]; exact hpiece.aligned.2)
    (indexed_of_not_beyondDetail hindexed)
  rw [← haccepted] at hordered htaken
  obtain ⟨s4, s6, env, hdone, -⟩ := acceptPcm_taken hordered hpos htaken hgranting hindexed
  rw [hpush block hvalid]
  refine ⟨_, hdone _ (by rw [hconfig, hrequested]; exact hreplayed), haccepted, hqueue, ?_⟩
  rw [hcontext, hdetail]
  rfl

/-- In every state that a run reaches and in which the selections agree, a push of a demanded detail
range whose frames are accepted is a replay of it, and a push of other accepted frames conflicts and
leaves the detail columns alone. -/
theorem replay_honours_demand (s : Session) (hcreated : Created s) (calls : List Call)
    (htyped : TypedRun calls) (s' : Session) (hrun : run calls s = some s')
    (hagrees : ReplayAgrees s') (push : Call) (t : Session)
    (ht : t = s'.nextPcmRequest.2.withPlatform push) (htakes : TakesPush t) (block : PcmBlock)
    (hindexed : beyondDetail block = false) :
    (∀ request, s'.nextPcmRequest.1 = .ok request →
        Feature.waveformDetail ∈ request.featureMask →
        (∀ frame ∈ request.range.frames, frame ∈ s'.accepted.frames) →
        block.firstFrame = request.range.firstFrame →
        block.firstFrame + block.frameCount = request.range.endFrame →
        ∃ after, t.pushPcm block = (.ok, block.frameCount, after) ∧
          after.accepted = s'.accepted ∧ after.queue = s'.queue ∧
          after.detail = Detail.refreshCompleted t.endOfInput
            (Detail.replaySamples t.detailContext block.samples block.firstFrame s'.detail).2) ∧
      (block.firstFrame ∈ s'.accepted.frames →
        (∀ code, t.validatePcmBlock block ≠ .error code) →
        (∀ request, s'.nextPcmRequest.1 = .ok request →
          Feature.waveformDetail ∈ request.featureMask →
          block.firstFrame = request.range.firstFrame →
          request.range.endFrame < block.firstFrame + block.frameCount) →
        ∃ after, t.pushPcm block = (.error .conflict, 0, after) ∧ after.detail = s'.detail) := by
  have htable := run_runTable hcreated htyped hrun
  have hordered : Interval.Ordered s'.accepted.ranges := run_inOrder hcreated hrun
  have hends := admits_ends htable.ends (run_playhead hcreated htyped hrun)
  refine ⟨fun request hnext hmask hall hfirst hend => ?_, fun htaken hvalid hother => ?_⟩
  · have hdemand := nextPcmRequest_detail htable.bytes htable.ids hordered
      (Prod.ext hnext rfl : s'.nextPcmRequest = (.ok request, s'.nextPcmRequest.2)) hmask
    obtain ⟨column, count, replay, hpiece, hreplay, hfirst', hend'⟩ :=
      hagrees.replay_of_demand htable.bytes htable.ids hends hdemand
    have htaken := hall block.firstFrame ⟨hfirst.ge, hfirst.trans_lt hpiece.nonempty⟩
    exact pushPcm_replays ht htakes hordered (detailDemand_requested hdemand) hpiece hreplay hfirst'
      hend' hindexed hfirst hend htaken
  · obtain ⟨u, hgranting, ⟨haccepted, -, hdetail, hconfig, -, -⟩, hsame, -, hpush⟩ :=
      pushPcm_afterDemand ht htakes
    obtain ⟨hpos, -, -⟩ := validatePcmBlock_ok hvalid
    rw [← haccepted] at hordered htaken
    obtain ⟨s4, s6, env, -, hconflict⟩ := acceptPcm_taken hordered hpos htaken hgranting hindexed
    rw [hpush block hvalid]
    refine ⟨_, hconflict (Detail.acceptReplay_refused fun replay hrequested hok hfirst _ => ?_),
      hdetail⟩
    rw [hconfig] at hrequested
    obtain ⟨request, hdemand, hmask, hfirst', hend⟩ :=
      hagrees.demand_of_replay htable.bytes htable.ids hends hrequested (hsame.symm.trans hok)
    have hnext : s'.nextPcmRequest.1 = .ok request := by
      rw [nextPcmRequest_eq, hdemand]
    exact hend.trans_lt (hother request hnext hmask (hfirst.trans hfirst'.symm))

/-! ## Two requests of one priority -/

/-- A track of two detail columns. -/
def detailConfig : Config := smallConfig {.waveformOverview, .waveformDetail} (some 512)

/-- A result whose overview is the whole of that track. -/
def seededTrack : Result :=
  { oneColumnResult with
    overview := some ⟨64, confidenceUnknown, .part,
      [⟨0, ⟨0, 512⟩, List.replicate 8 ⟨0, 0, 0, 0, 0, 0, false, false⟩⟩]⟩ }

/-- A request for the second detail column. -/
def secondColumn (softDeadline : ℕ) : RegionRequest :=
  ⟨0, ⟨256, 512⟩, {.waveformDetail}, 0, softDeadline⟩

/-- The frames of the second detail column, silent. -/
def secondColumnBlock : PcmBlock := ⟨256, List.replicate 256 0⟩

/-- With one request both selections are of it. -/
theorem replay_honours_single_request : ∃ s s' : Session, Created s ∧
    run [plainCall (.seedFromResult seededTrack), plainCall (.requestRegion (secondColumn 0))] s =
      some s' ∧
    ∃ after, (s'.nextPcmRequest.2.withPlatform (plainCall (.pushPcm secondColumnBlock))).pushPcm
      secondColumnBlock = (.ok, 256, after) ∧ after.accepted = s'.accepted := by
  obtain ⟨s, hs⟩ : ∃ s, create detailConfig seriesLibm false plainPlatform = (.ok, some s) :=
    ⟨_, rfl⟩
  have hafter : ((create detailConfig seriesLibm false plainPlatform).2.bind
      (run [plainCall (.seedFromResult seededTrack),
        plainCall (.requestRegion (secondColumn 0))])).map
        (fun s => (s.requests, s.nextPcmRequest.2.generation, s.accepted.ranges,
          s.nextPcmRequest.1.toOption)) =
      some (⟨1, ⟨1, ⟨256, 512⟩, {.waveformDetail}, 0, 0⟩, .queued, 0, 1⟩ ::
          List.replicate 15 .empty, 1, [⟨0, 512⟩],
        some ⟨⟨256, 512⟩, {.waveformDetail}, 0, 1⟩) := by decide +kernel
  have hopen : ((create detailConfig seriesLibm false plainPlatform).2.bind
      (run [plainCall (.seedFromResult seededTrack),
        plainCall (.requestRegion (secondColumn 0))])).map
        (fun s => (s.nextPcmRequest.2.config.inputMode,
          s.nextPcmRequest.2.config.requests .waveformOverview,
          s.nextPcmRequest.2.config.boundedResultSlots, s.nextPcmRequest.2.state,
          s.nextPcmRequest.2.endOfInput)) =
      some (.push, true, false, .created, none) := by decide +kernel
  rw [hs] at hafter hopen
  obtain ⟨s', hrun, hfacts⟩ := Option.map_eq_some_iff.mp hafter
  obtain ⟨s'', hrun', hfacts'⟩ := Option.map_eq_some_iff.mp hopen
  obtain rfl := Option.some.inj (hrun'.symm.trans hrun)
  simp only [Prod.mk.injEq] at hfacts hfacts'
  obtain ⟨hrequests, hgeneration, hranges, hdemand⟩ := hfacts
  obtain ⟨hmode, hoverview, hbounded, hstate, hopened⟩ := hfacts'
  obtain ⟨request, hnext, rfl⟩ : ∃ request, s''.nextPcmRequest.1 = .ok request ∧
      request = ⟨⟨256, 512⟩, {.waveformDetail}, 0, 1⟩ := by
    cases hcase : s''.nextPcmRequest.1 with
    | error status =>
        rw [hcase] at hdemand
        cases hdemand
    | ok request =>
        rw [hcase] at hdemand
        exact ⟨request, rfl, Option.some.inj hdemand⟩
  have honly : ∀ request ∈ s''.requests, request.wantsFeature .waveformDetail = true →
      request.request.range = ⟨256, 512⟩ := by
    intro request hmem hwants
    rw [hrequests] at hmem
    rcases List.mem_cons.mp hmem with rfl | hempty
    · rfl
    · rw [List.eq_of_mem_replicate hempty] at hwants
      cases hwants
  have hwanted : ∃ request ∈ s''.requests, request.wantsFeature .waveformDetail = true := by
    rw [hrequests]
    exact ⟨_, List.mem_cons_self, rfl⟩
  have hadmits : ∀ range, Admits s'' range → range = ⟨256, 512⟩ := by
    intro range h
    cases h with
    | request hforemost =>
        obtain ⟨before, after, hsplit, hwants, -⟩ := hforemost
        exact honly _ (by rw [hsplit]; simp) hwants
    | focus hidle =>
        obtain ⟨request, hmem, hwants⟩ := hwanted
        rw [hidle request hmem] at hwants
        cases hwants
  have hserves : ∀ range priority token, Serves ∅ .waveformDetail s'' range priority token →
      range = ⟨256, 512⟩ := by
    intro range priority token h
    cases h with
    | request hleads =>
        have hwants := hleads.passes
        rw [wantsUnder_empty] at hwants
        exact honly _ hleads.mem hwants
    | focus hidle =>
        obtain ⟨request, hmem, hwants⟩ := hwanted
        have hnot := hidle request hmem
        rw [wantsUnder_empty] at hnot
        simp [hwants] at hnot
  have hagrees : ReplayAgrees s'' := by
    refine ⟨fun range priority token range' h h' column count => ?_, fun range _ _ h _ => ?_⟩
    · rw [hserves range priority token h, hadmits range' h']
    · rw [hadmits range h]
      exact (Detail.cutTo_le _ _).trans (by norm_num)
  have htakes : TakesPush (s''.nextPcmRequest.2.withPlatform
      (plainCall (.pushPcm secondColumnBlock))) := by
    refine ⟨hmode, hoverview, .inl hstate, hopened, by simp [withPlatform, plainCall,
      Environment.Granting], fun _ => ⟨?_, ?_⟩⟩
    · show s''.nextPcmRequest.2.generation ≠ uint64Max
      rw [hgeneration]
      norm_num
    · show (s''.nextPcmRequest.2.config.boundedResultSlots && _) = false
      rw [hbounded, Bool.false_and]
  have htyped : TypedRun [plainCall (.seedFromResult seededTrack),
      plainCall (.requestRegion (secondColumn 0))] := by
    simp [TypedRun, plainCall, Op.Typed, secondColumn, uint64Max]
  have haccepted : ∀ frame ∈ (FrameRange.mk 256 512).frames, frame ∈ s''.accepted.frames := by
    intro frame hframe
    show frame ∈ Interval.support s''.accepted.ranges
    rw [hranges, Interval.mem_support_cons]
    exact .inl ⟨Nat.zero_le _, hframe.2⟩
  have hcount : secondColumnBlock.frameCount = 256 := List.length_replicate
  have hindexed : beyondDetail secondColumnBlock = false := by
    rw [beyondDetail, hcount]
    norm_num [secondColumnBlock]
  have hend : secondColumnBlock.firstFrame + secondColumnBlock.frameCount = 512 := by rw [hcount]; rfl
  obtain ⟨after, hpush, hkept, -⟩ := (replay_honours_demand s ⟨_, _, _, _, hs⟩ _ htyped s'' hrun
    hagrees _ _ rfl htakes secondColumnBlock hindexed).1 _ hnext (Finset.mem_singleton_self _)
    haccepted rfl hend
  rw [hcount] at hpush
  exact ⟨s, s'', ⟨_, _, _, _, hs⟩, hrun, after, hpush, hkept⟩

/-- Of two requests of one priority the demand serves the one with a deadline, and the replay is checked
against the one that was entered first. -/
theorem replay_of_demand_conflicts : ∃ s s' : Session, Created s ∧
    run [plainCall (.seedFromResult seededTrack),
      plainCall (.requestRegion ⟨0, ⟨0, 256⟩, {.waveformDetail}, 0, 0⟩),
      plainCall (.requestRegion (secondColumn 1))] s = some s' ∧
    s'.accepted.ranges = [⟨0, 512⟩] ∧
    s'.nextPcmRequest.1.toOption = some ⟨⟨256, 512⟩, {.waveformDetail}, 0, 2⟩ ∧
    (s'.nextPcmRequest.2.pushPcm secondColumnBlock).1 = .error .conflict := by
  obtain ⟨s, hs⟩ : ∃ s, create detailConfig seriesLibm false plainPlatform = (.ok, some s) :=
    ⟨_, rfl⟩
  have hpushed : ((create detailConfig seriesLibm false plainPlatform).2.bind
      (run [plainCall (.seedFromResult seededTrack),
        plainCall (.requestRegion ⟨0, ⟨0, 256⟩, {.waveformDetail}, 0, 0⟩),
        plainCall (.requestRegion (secondColumn 1))])).map
        (fun s => (s.accepted.ranges, s.nextPcmRequest.1.toOption,
          (s.nextPcmRequest.2.pushPcm secondColumnBlock).1)) =
      some ([⟨0, 512⟩], some ⟨⟨256, 512⟩, {.waveformDetail}, 0, 2⟩, .error .conflict) := by
    decide +kernel
  rw [hs] at hpushed
  obtain ⟨s', hrun, hfacts⟩ := Option.map_eq_some_iff.mp hpushed
  simp only [Prod.mk.injEq] at hfacts
  obtain ⟨hranges, hdemand, hpush⟩ := hfacts
  exact ⟨s, s', ⟨_, _, _, _, hs⟩, hrun, hranges, hdemand, hpush⟩

end Session

end LibApta
