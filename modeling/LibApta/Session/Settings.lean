import LibApta.Session.Table

/-!
# What a run leaves alone

A part of the session that no layer writes is, after any run, what it was at creation. The settings
are such a part: the configuration but for the length of the track. The focus changes only when the
host sets it: the layers show it otherwise to each other and put it back.
-/

namespace LibApta

namespace Session

/-! ## Calls that do not process -/

/-- A property that the host operations, the intake and the demands keep, but for those that write the
local grid. -/
structure InputInvariant (P : Session → Prop) : Prop
    extends HostInvariant P, IntakeInvariant P where
  noted : ∀ {s : Session} requests, P s → P { s with requests := requests }
  counters : ∀ {s : Session} nextRequestId nextEnqueueSerial, P s →
    P { s with nextRequestId := nextRequestId, nextEnqueueSerial := nextEnqueueSerial }

namespace InputInvariant

variable {P : Session → Prop}

theorem nextPcmRequest (hP : InputInvariant P) {s : Session} (hs : P s) :
    P s.nextPcmRequest.2 := by
  rw [nextPcmRequest_session]
  cases s.nextPcmRequest.1 with
  | ok request => exact hP.noted _ hs
  | error status => exact hs

theorem pullNext (hP : InputInvariant P) (source : PullSource) (budget : WorkBudget) {s : Session}
    (hs : P s) : P (s.pullNext source budget).2 := by
  unfold Session.pullNext
  by_cases hqueued : s.queue ≠ []
  · rwa [if_pos hqueued]
  rw [if_neg hqueued, nextOverviewRequest_eq]
  cases nextOverviewRequestBase
      { s with requests := stageRequests .waveformOverview s.requests } with
  | error status =>
      cases status
      case error code => exact hs
      all_goals
        simp only
        split
        · exact hP.endInput rfl hs
        · exact hs
  | ok request =>
      have hnoted : P (s.noting request.requestToken) := hP.noted _ hs
      simp only
      split
      · exact hnoted
      · split_ifs
        · exact hP.sourceFailure hnoted
        · exact hP.endInput rfl hnoted
      · exact hP.sourceFailure hnoted
      · exact hP.acceptPulled _ _ _ hnoted

theorem pullPcm (hP : InputInvariant P) (source : PullSource) (budget : WorkBudget) {s : Session}
    (hs : P s) : P (s.pullPcm source budget).2 := by
  unfold Session.pullPcm
  split_ifs
  · exact hs
  split
  · exact hs
  · exact hs
  · exact hs
  · exact hs
  · exact hP.pullNext source budget hs

/-- A process call keeps the property where the layers do. -/
theorem process (hP : InputInvariant P) {source : PullSource} {budget : WorkBudget}
    {s s' : Session} {status : Status} {progress : Progress}
    (himpl : ∀ {t t' : Session}, t.processImpl budget = some (status, progress, t') → P t → P t')
    (h : s.process source budget = some (status, progress, s')) (hs : P s) : P s' := by
  obtain ⟨t, ht, hs'⟩ := process_cases h
  have hpulled : P t := by
    rcases ht with rfl | rfl
    · exact hs
    · exact hP.pullPcm source budget hs
  rcases hs' with rfl | hdone
  · exact hpulled
  · exact himpl hdone hpulled

theorem requestRegion (hP : InputInvariant P) (request : RegionRequest) {s : Session} (hs : P s) :
    P (s.requestRegion request).2.2 := by
  have hmade : ∀ requests next serial, P { s with
      requests := requests, nextRequestId := next, nextEnqueueSerial := serial } :=
    fun requests next serial => hP.counters next serial (hP.noted requests hs)
  unfold Session.requestRegion
  simp only
  repeat' split
  all_goals first | exact hs | exact hmade _ _ _

theorem cancelRegionRequest (hP : InputInvariant P) (requestId : ℕ) {s : Session} (hs : P s) :
    P (s.cancelRegionRequest requestId).2 := by
  unfold Session.cancelRegionRequest
  split_ifs
  · exact hs
  split
  · exact hs
  · exact hP.noted _ hs

/-- Setting the focus, processing and writing the local grid are the calls that may break the
property. -/
theorem perform (hP : InputInvariant P) {op : Op} {s s' : Session} {status : Status}
    (hfocus : ∀ focus, op = .setFocus focus → P (s.setFocus focus).2)
    (hprocess : ∀ source budget progress, op = .process source budget →
      s.process source budget = some (status, progress, s') → P s')
    (hlock : ∀ range, op = .lockGridRange range → P (s.lockGridRange range).2)
    (happly : ∀ revisionId, op = .applyGridRevision revisionId →
      P (s.applyGridRevision revisionId).2)
    (h : perform op s = some (status, s')) (hs : P s) : P s' := by
  have hof : ∀ {answer : Status × Session}, some answer = some (status, s') → P answer.2 → P s' :=
    fun heq hkept => by rwa [Option.some.inj heq] at hkept
  cases op with
  | setSource sourceTotal => exact hof h (hP.setSource sourceTotal hs)
  | seedFromResult result => exact hof h (hP.seedFromResult result hs)
  | setMetadata metadata => exact hP.setMetadata (Option.some.inj h) hs
  | setFocus focus => exact hof h (hfocus focus rfl)
  | requestRegion request => exact hof h (hP.requestRegion request hs)
  | cancelRegionRequest requestId => exact hof h (hP.cancelRegionRequest requestId hs)
  | nextPcmRequest =>
      rw [perform_nextPcmRequest h]
      exact hP.nextPcmRequest hs
  | pushPcm block => exact hof h (hP.pushPcm block hs)
  | signalEndOfInput finalEnd => exact hP.signalEndOfInput (Option.some.inj h) hs
  | process source budget =>
      obtain ⟨⟨answer, progress, after⟩, hdone, heq⟩ := Option.map_eq_some_iff.mp h
      obtain ⟨rfl, rfl⟩ := Prod.mk.inj heq
      exact hprocess source budget progress rfl hdone
  | lockGridRange range => exact hof h (hlock range rfl)
  | applyGridRevision revisionId => exact hof h (happly revisionId rfl)
  | requestCancel => exact hof h (hP.requestCancel hs)

end InputInvariant

/-- A part of the session that the host operations, the intake and the demands leave alone. -/
structure InputFrame {α : Type} (π : Session → α) : Prop extends HostFrame π, IntakeFrame π where
  noted : ∀ (s : Session) requests, π { s with requests := requests } = π s
  counters : ∀ (s : Session) nextRequestId nextEnqueueSerial,
    π { s with nextRequestId := nextRequestId, nextEnqueueSerial := nextEnqueueSerial } = π s

namespace InputFrame

variable {α : Type} {π : Session → α}

theorem invariant (hπ : InputFrame π) (a : α) : InputInvariant (fun s => π s = a) where
  toHostInvariant := hπ.toHostFrame.invariant a
  accepted := (hπ.toIntakeFrame.invariant a).accepted
  acceptReplay := (hπ.toIntakeFrame.invariant a).acceptReplay
  prepareEstimators := (hπ.toIntakeFrame.invariant a).prepareEstimators
  feedAccepted := (hπ.toIntakeFrame.invariant a).feedAccepted
  noted {s} requests hs := (hπ.noted s requests).trans hs
  counters {s} nextRequestId nextEnqueueSerial hs :=
    (hπ.counters s nextRequestId nextEnqueueSerial).trans hs

/-- A process call leaves the part alone where the layers do. -/
theorem process (hπ : InputFrame π) {source : PullSource} {budget : WorkBudget} {s s' : Session}
    {status : Status} {progress : Progress}
    (himpl : ∀ {t t' : Session}, t.processImpl budget = some (status, progress, t') → π t' = π t)
    (h : s.process source budget = some (status, progress, s')) : π s' = π s :=
  (hπ.invariant (π s)).process (fun hdone ht => (himpl hdone).trans ht) h rfl

/-- Every call but setting the focus and processing leaves the part alone. -/
theorem perform (hπ : InputFrame π) {op : Op} {s s' : Session} {status : Status}
    (hfocus : ∀ focus, op ≠ .setFocus focus) (hprocess : ∀ source budget, op ≠ .process source budget)
    (h : perform op s = some (status, s')) : π s' = π s :=
  (hπ.invariant (π s)).perform (fun focus heq => absurd heq (hfocus focus))
    (fun source budget _ heq _ => absurd heq (hprocess source budget))
    (fun _ _ => hπ.lockGridRange rfl) (fun _ _ => hπ.applyGridRevision rfl) h rfl

end InputFrame

/-! ## Every call -/

theorem setFocus_cases (focus : Focus) (s : Session) :
    (s.setFocus focus).2 = s ∨ (s.setFocus focus).2 = { s with focus := some focus } := by
  unfold setFocus
  split_ifs <;> first | exact .inl rfl | exact .inr rfl

/-- A property that processing keeps too. -/
structure RunInvariant (P : Session → Prop) : Prop extends ProcessInvariant P, InputInvariant P

namespace RunInvariant

variable {P : Session → Prop}

/-- Only the calls that write the local grid may break the property. -/
theorem perform (hP : RunInvariant P) {op : Op} {s s' : Session} {status : Status}
    (hlock : ∀ range, op = .lockGridRange range → P (s.lockGridRange range).2)
    (happly : ∀ revisionId, op = .applyGridRevision revisionId →
      P (s.applyGridRevision revisionId).2)
    (h : perform op s = some (status, s')) (hs : P s) : P s' := by
  refine hP.toInputInvariant.perform (fun focus _ => ?_) (fun source budget progress _ hdone => ?_)
    hlock happly h hs
  · rcases setFocus_cases focus s with hkept | hset
    · rwa [hkept]
    · rw [hset]
      exact hP.demand (some focus) s.requests hs
  · exact hP.toInputInvariant.process (fun himpl ht => hP.processImpl himpl ht) hdone hs

/-- The property holds along a run whose calls that write the local grid keep it. -/
theorem run (hP : RunInvariant P) {guard : Call → Session → Prop}
    (hlock : ∀ {call : Call} {s : Session} {range : FrameRange}, guard call s →
      call.op = .lockGridRange range → P (s.withPlatform call) →
        P ((s.withPlatform call).lockGridRange range).2)
    (happly : ∀ {call : Call} {s : Session} {revisionId : ℕ}, guard call s →
      call.op = .applyGridRevision revisionId → P (s.withPlatform call) →
        P ((s.withPlatform call).applyGridRevision revisionId).2)
    {calls : List Call} {s s' : Session} (hguarded : Guarded guard calls s)
    (hrun : Session.run calls s = some s') (hs : P s) : P s' := by
  refine Runs.invariant (P := P) ?_ hs hguarded hrun
  intro call t t' ht hguard hstep
  obtain ⟨⟨status, after⟩, hperform, rfl⟩ := Option.map_eq_some_iff.mp hstep
  have hplatform : P (t.withPlatform call) := hP.env _ ht
  exact hP.perform (fun range hop => hlock hguard hop hplatform)
    (fun revisionId hop => happly hguard hop hplatform) hperform hplatform

end RunInvariant

/-- A part of the session that processing leaves alone too. -/
structure RunFrame {α : Type} (π : Session → α) : Prop extends ProcessFrame π, InputFrame π

namespace RunFrame

variable {α : Type} {π : Session → α}

theorem invariant (hπ : RunFrame π) (a : α) : RunInvariant (fun s => π s = a) where
  toProcessInvariant := hπ.toProcessFrame.invariant a
  length := (hπ.toInputFrame.invariant a).length
  flags := (hπ.toInputFrame.invariant a).flags
  recorded := (hπ.toInputFrame.invariant a).recorded
  seedColumn := (hπ.toInputFrame.invariant a).seedColumn
  accepted := (hπ.toInputFrame.invariant a).accepted
  acceptReplay := (hπ.toInputFrame.invariant a).acceptReplay
  prepareEstimators := (hπ.toInputFrame.invariant a).prepareEstimators
  feedAccepted := (hπ.toInputFrame.invariant a).feedAccepted
  noted := (hπ.toInputFrame.invariant a).noted
  counters := (hπ.toInputFrame.invariant a).counters

/-- Every call leaves the part alone. -/
theorem perform (hπ : RunFrame π) {op : Op} {s s' : Session} {status : Status}
    (h : perform op s = some (status, s')) : π s' = π s :=
  (hπ.invariant (π s)).perform (fun _ _ => hπ.lockGridRange rfl)
    (fun _ _ => hπ.applyGridRevision rfl) h rfl

theorem run (hπ : RunFrame π) {calls : List Call} {s s' : Session} (hrun : run calls s = some s') :
    π s' = π s :=
  (hπ.invariant (π s)).run (fun _ _ ht => (hπ.lockGridRange rfl).trans ht)
    (fun _ _ ht => (hπ.applyGridRevision rfl).trans ht) (Runs.guarded_true step calls s) hrun rfl

end RunFrame

/-! ## The settings -/

/-- The configuration but for the length of the track. -/
def settings (s : Session) : Config := { s.config with totalFrames := none }

theorem settings_frame : RunFrame settings where
  toLayerFrame := .of_unseen fun _ _ _ _ _ _ _ _ _ => rfl
  queue _ _ := rfl
  demand _ _ _ := rfl
  length _ _ _ := rfl
  flags _ _ _ _ := rfl
  recorded _ _ := rfl
  estimate _ _ _ _ _ := rfl
  revision _ _ _ _ _ _ := rfl
  accepted _ _ _ := rfl
  derived _ _ := rfl
  noted _ _ := rfl
  counters _ _ _ := rfl

/-- The settings of a run are those of creation. -/
theorem run_settings {calls : List Call} {s s' : Session} (hrun : run calls s = some s') :
    s'.settings = s.settings :=
  settings_frame.run hrun

theorem requests_of_settings {s s' : Session} (h : s'.settings = s.settings) (feature : Feature) :
    s'.config.requests feature = s.config.requests feature := by
  have hfeatures : s'.settings.requestedFeatures = s.settings.requestedFeatures := by rw [h]
  exact congrArg (fun features => decide (feature ∈ features)) hfeatures

/-- A run asks for the features that creation asked for. -/
theorem run_requests {calls : List Call} {s s' : Session} (hrun : run calls s = some s')
    (feature : Feature) : s'.config.requests feature = s.config.requests feature :=
  requests_of_settings (run_settings hrun) feature

/-! ## The focus -/

theorem focus_layer : LayerFrame Session.focus := .of_unseen fun _ _ _ _ _ _ _ _ _ => rfl

theorem focus_input : InputFrame Session.focus where
  platform _ _ _ := rfl
  announced _ _ _ _ := rfl
  length _ _ _ := rfl
  flags _ _ _ _ := rfl
  recorded _ _ := rfl
  estimate _ _ _ _ _ := rfl
  revision _ _ _ _ _ _ := rfl
  s6Published _ := rfl
  accepted _ _ _ := rfl
  derived _ _ := rfl
  noted _ _ := rfl
  counters _ _ _ := rfl

theorem processS4_focus {budget : WorkBudget} {progress : Progress} {s s' : Session}
    {work : Work} (h : s.processS4 budget progress = some (work, s')) : s'.focus = s.focus := by
  unfold processS4 at h
  cases hdetail : (s.demandOverview s4Features).processDetail budget progress with
  | mk base after =>
      rw [hdetail] at h
      simp only at h
      split_ifs at h
      · obtain ⟨-, rfl⟩ := Prod.mk.inj (Option.some.inj h)
        rfl
      · obtain ⟨⟨status, steps, refreshed⟩, hrefresh, h⟩ := Option.map_eq_some_iff.mp h
        have hrefreshed := focus_layer.refreshS4 hrefresh
        change refreshed.focus = (s.restoreDemand after).focus at hrefreshed
        simp only at h
        split_ifs at h
        · obtain ⟨-, rfl⟩ := Prod.mk.inj h
          exact hrefreshed
        · have hmark : ∀ t : Session, t.s4MarkPublished.focus = t.focus := fun _ => rfl
          rw [focus_layer.publishPending hmark h, focus_layer.noteRangesMoved]
          exact hrefreshed

theorem processS6_focus {budget : WorkBudget} {progress : Progress} {s s' : Session}
    {work : Work} (h : s.processS6 budget progress = some (work, s')) : s'.focus = s.focus := by
  unfold processS6 at h
  obtain ⟨⟨base, after⟩, hbase, h⟩ := Option.bind_eq_some_iff.mp h
  have hafter := processS4_focus hbase
  simp only at h
  split_ifs at h
  · obtain ⟨-, rfl⟩ := Prod.mk.inj (Option.some.inj h)
    exact hafter
  · obtain ⟨⟨status, steps, refreshed⟩, hrefresh, h⟩ := Option.map_eq_some_iff.mp h
    have hrefreshed := focus_layer.refreshS6 hrefresh
    change refreshed.focus = after.focus at hrefreshed
    rw [hafter] at hrefreshed
    simp only at h
    split_ifs at h
    · obtain ⟨-, rfl⟩ := Prod.mk.inj h
      exact hrefreshed
    · rw [focus_layer.publishPending focus_layer.s6Published h]
      exact hrefreshed

/-- A process call puts the focus back. -/
theorem processImpl_focus {budget : WorkBudget} {s s' : Session} {status : Status}
    {progress : Progress} (h : s.processImpl budget = some (status, progress, s')) :
    s'.focus = s.focus := by
  obtain ⟨u, rfl, hu⟩ := processImpl_cases h
  show u.focus = (s.started budget).focus
  have hlayers : ∀ {before : Progress} {work : Work} {after : Session},
      (s.started budget).runLayers budget before = some (work, after) →
        after.focus = (s.started budget).focus := by
    intro before work after hrun
    unfold runLayers at hrun
    split_ifs at hrun
    · exact processS6_focus hrun
    · rw [(Prod.mk.inj (Option.some.inj hrun)).2]
  cases hu with
  | idle => rfl
  | cancelled _ h => exact focus_layer.transition h
  | worked _ _ hrun => exact hlayers hrun
  | completed _ _ hrun _ _ _ hdone => exact (focus_layer.transition hdone).trans (hlayers hrun)

/-- Only setting the focus changes it. -/
theorem perform_focus {op : Op} {s s' : Session} {status : Status}
    (hop : ∀ focus, op ≠ .setFocus focus) (h : perform op s = some (status, s')) :
    s'.focus = s.focus := by
  cases op
  case setFocus focus => exact absurd rfl (hop focus)
  case process source budget =>
    obtain ⟨⟨answer, progress, after⟩, hprocess, heq⟩ := Option.map_eq_some_iff.mp h
    rw [← (Prod.mk.inj heq).2]
    exact focus_input.process processImpl_focus hprocess
  all_goals exact focus_input.perform (by simp) (by simp) h

/-- The playhead of a run is a frame of 64 bits. -/
theorem run_playhead {calls : List Call} {s s' : Session} (hcreated : Created s)
    (htyped : TypedRun calls) (hrun : run calls s = some s') :
    ∀ focus ∈ s'.focus, focus.playheadFrame ≤ uint64Max := by
  have hstart : ∀ focus ∈ s.focus, focus.playheadFrame ≤ uint64Max := by
    obtain ⟨config, libm, usesWorkspace, env, -, rfl⟩ := created_eq hcreated
    simp [published, new]
  refine Runs.invariant (P := fun t : Session => ∀ focus ∈ t.focus, focus.playheadFrame ≤ uint64Max)
    ?_ hstart (htyped.guarded s) hrun
  intro call t t' ht hcall hstep
  obtain ⟨⟨status, after⟩, hperform, rfl⟩ := Option.map_eq_some_iff.mp hstep
  by_cases hop : ∃ focus, call.op = .setFocus focus
  · obtain ⟨focus, hop⟩ := hop
    rw [hop] at hcall hperform
    have heq : ((t.withPlatform call).setFocus focus).2 = after :=
      congrArg Prod.snd (Option.some.inj hperform)
    show ∀ focus ∈ after.focus, focus.playheadFrame ≤ uint64Max
    rw [← heq]
    rcases setFocus_cases focus (t.withPlatform call) with hkept | hset
    · rw [hkept]
      exact ht
    · rw [hset]
      intro other hother
      rw [← Option.some.inj hother]
      exact hcall.2
  · intro focus hfocus
    rw [perform_focus (fun other heq => hop ⟨other, heq⟩) hperform] at hfocus
    exact ht focus hfocus

end Session

end LibApta
