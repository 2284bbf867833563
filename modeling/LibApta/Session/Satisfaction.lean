import LibApta.Session.Slots

/-!
# Satisfied requests

A slot becomes satisfied by the verdicts of a process call. The overview layer looks at the overview
columns of the range, also for a request that names only detail tiles or the local estimate, and the
detail layer then at the detail columns. For a request that names nothing but waveform features the
verdict says what it should; a request that names an estimate is judged by the overview alone.
-/

namespace LibApta

namespace Session

/-! ## What a request asks for -/

/-- The frames of a range that the track has. -/
def trackFrames (s : Session) (range : FrameRange) : Set ℕ :=
  {frame | frame ∈ range.frames ∧ ∀ total ∈ s.config.totalFrames, frame < total}

/-- The overview column of a frame is complete. -/
def HasOverview (s : Session) (frame : ℕ) : Prop :=
  ∃ acc ∈ s.overview.accumulators, acc.columnIndex = frame / s.framesPerColumn ∧
    acc.complete = true

/-- The detail column of a frame is resident and complete. -/
def HasDetail (s : Session) (frame : ℕ) : Prop :=
  ∃ tile, s.detail.findTile (frame / detailFramesPerColumn / detailColumnsPerTile) = some tile ∧
    Detail.columnComplete tile.accumulators (frame / detailFramesPerColumn % detailColumnsPerTile) = true

/-- Every feature of a request is there for the frames of its range. -/
structure Available (s : Session) (request : RegionRequest) : Prop where
  overview : (∃ feature ∈ request.featureMask,
    feature ∈ ({.waveformOverview, .waveform3Band, .confidence} : FeatureMask)) →
      ∀ frame ∈ s.trackFrames request.range, s.HasOverview frame
  detail : Feature.waveformDetail ∈ request.featureMask →
    ∀ frame ∈ s.trackFrames request.range, s.HasDetail frame
  localGrid : (∃ feature ∈ request.featureMask, feature ∈ s4Features) →
    ∃ view ∈ s.localGridSnapshot, s.trackFrames request.range ⊆ view.applicabilityRange.frames
  globalGrid : (∃ feature ∈ request.featureMask, feature ∈ s6Features) →
    ∃ view ∈ s.globalGridSnapshot, s.trackFrames request.range ⊆ view.1.applicabilityRange.frames

/-! ## Complete columns -/

theorem columnsComplete_mem {accs : List Accumulator} {column last : ℕ}
    (h : columnsComplete accs column last = true) {i : ℕ} (hfirst : column ≤ i) (hlast : i ≤ last) :
    ∃ acc ∈ accs, acc.columnIndex = i ∧ acc.complete = true := by
  induction accs generalizing column with
  | nil => cases h
  | cons head rest ih =>
      have hrest : ∀ {column}, columnsComplete rest column last = true → column ≤ i →
          ∃ acc ∈ head :: rest, acc.columnIndex = i ∧ acc.complete = true := by
        intro column hcomplete hle
        obtain ⟨acc, hmem, hacc⟩ := ih hcomplete hle
        exact ⟨acc, List.mem_cons_of_mem _ hmem, hacc⟩
      unfold columnsComplete at h
      split_ifs at h with hbefore hother hend
      · exact hrest h hfirst
      all_goals
        obtain ⟨hindex, hcomplete⟩ : head.columnIndex = column ∧ head.complete = true := by
          simpa using hother
        rcases Nat.eq_or_lt_of_le hfirst with rfl | hlt
        · exact ⟨head, List.mem_cons_self, hindex, hcomplete⟩
      · omega
      · exact hrest h hlt

theorem hasOverview_of_rangeComplete {s : Session} {range : FrameRange}
    (h : s.rangeComplete range = true) : ∀ frame ∈ range.frames, s.HasOverview frame := by
  intro frame hframe
  unfold rangeComplete at h
  split_ifs at h
  exact columnsComplete_mem h (Nat.div_le_div_right hframe.1)
    (Nat.div_le_div_right (Nat.le_sub_one_of_lt hframe.2))

theorem hasDetail_of_rangeComplete {s : Session} {range : FrameRange}
    (h : s.detail.rangeComplete range.firstFrame range.endFrame = true) :
    ∀ frame ∈ range.frames, s.HasDetail frame := by
  intro frame hframe
  have hall := List.all_eq_true.mp (Bool.and_eq_true_iff.mp h).2
    (frame / detailFramesPerColumn) ?_
  · cases htile : s.detail.findTile (frame / detailFramesPerColumn / detailColumnsPerTile) with
    | none =>
        rw [htile] at hall
        simp at hall
    | some tile =>
        rw [htile] at hall
        exact ⟨tile, htile, (Bool.and_eq_true_iff.mp hall).2⟩
  · have hfirst : range.firstFrame / detailFramesPerColumn ≤ frame / detailFramesPerColumn :=
      Nat.div_le_div_right hframe.1
    have hlast : frame / detailFramesPerColumn ≤ (range.endFrame - 1) / detailFramesPerColumn :=
      Nat.div_le_div_right (Nat.le_sub_one_of_lt hframe.2)
    exact List.mem_range'_1.mpr ⟨hfirst, by omega⟩

/-! ## The verdicts -/

/-- The verdicts on a request say what it asks for: the layers judge no such request, or it names
nothing but features of the waveform, and the overview unless it names the detail tiles alone. -/
def Judgeable (mask : FeatureMask) : Prop :=
  Feature.waveformOverview ∉ stagedMask mask ∨
    mask ⊆ {.waveformOverview, .waveformDetail, .waveform3Band, .confidence} ∧
      (Feature.waveformOverview ∈ mask ∨ mask = {.waveformDetail})

theorem updateRequestState_satisfied {s : Session} {request : Request}
    (h : (s.updateRequestState request).state = .satisfied) (hnot : request.state ≠ .satisfied) :
    Feature.waveformOverview ∈ request.request.featureMask ∧
      s.rangeComplete request.request.range = true := by
  unfold updateRequestState at h
  split_ifs at h with hwants hcomplete
  · exact ⟨of_decide_eq_true (Bool.and_eq_true_iff.mp hwants).2, hcomplete⟩
  · exact absurd h hnot

theorem baseVerdict_satisfied {s : Session} {request : Request}
    (h : (s.baseVerdict request).state = .satisfied) (hnot : request.state ≠ .satisfied) :
    Feature.waveformOverview ∈ stagedMask request.request.featureMask ∧
      s.rangeComplete request.request.range = true :=
  updateRequestState_satisfied h hnot

theorem updateDetailRequestState_satisfied {s : Session} {request : Request}
    (h : (s.updateDetailRequestState request).state = .satisfied) :
    ((request.requestId = 0 ∨ Feature.waveformDetail ∉ request.request.featureMask) ∧
        request.state = .satisfied) ∨
      Feature.waveformDetail ∈ request.request.featureMask ∧
        s.detail.rangeComplete request.request.range.firstFrame
          request.request.range.endFrame = true ∧
        (Feature.waveformOverview ∈ request.request.featureMask → request.state = .satisfied) := by
  unfold updateDetailRequestState at h
  by_cases hkept : request.requestId = 0 ∨ request.state = .cancelled ∨
      request.state = .failed ∨ Feature.waveformDetail ∉ request.request.featureMask
  · rw [if_pos hkept] at h
    refine .inl ⟨?_, h⟩
    rw [h] at hkept
    simpa using hkept
  rw [if_neg hkept] at h
  simp only [not_or, not_not] at h hkept
  split_ifs at h with hboth
  obtain ⟨hsatisfied, hcomplete⟩ := Bool.and_eq_true_iff.mp hboth
  exact .inr ⟨hkept.2.2.2, hcomplete, fun hmem => by simpa [hmem] using hsatisfied⟩

theorem detail_mem_withOverview {mask : FeatureMask} :
    Feature.waveformDetail ∈ withOverview s4Features mask ↔ Feature.waveformDetail ∈ mask := by
  unfold withOverview
  split_ifs
  · exact Iff.rfl
  · simp

/-- The overview layer also judges requests that name the detail tiles. -/
theorem mem_stagedMask_of_detail {mask : FeatureMask} (h : Feature.waveformDetail ∈ mask) :
    Feature.waveformOverview ∈ stagedMask mask := by
  unfold stagedMask
  rw [withOverview, if_neg]
  · exact Finset.mem_insert_self _ _
  · refine Finset.nonempty_iff_ne_empty.mp ⟨.waveformDetail, Finset.mem_inter.mpr ⟨?_, ?_⟩⟩
    · exact Finset.mem_singleton_self _
    · exact detail_mem_withOverview.mpr h

/-- A request that both verdicts satisfy has its detail columns, and its overview columns when it names
the overview or no detail tiles. -/
theorem bothVerdicts_satisfied {s : Session} {request : Request}
    (h : (s.bothVerdicts request).state = .satisfied) (hnot : request.state ≠ .satisfied) :
    (Feature.waveformDetail ∉ request.request.featureMask ∧
        (s.baseVerdict request).state = .satisfied) ∨
      Feature.waveformDetail ∈ request.request.featureMask ∧
        s.detail.rangeComplete request.request.range.firstFrame
          request.request.range.endFrame = true ∧
        (Feature.waveformOverview ∈ request.request.featureMask →
          s.rangeComplete request.request.range = true) := by
  rcases @updateDetailRequestState_satisfied _
      ((s.baseVerdict request).mapMask (withOverview s4Features)) h with
    ⟨hid | hdetail, hbase⟩ | ⟨hdetail, hcomplete, hoverview⟩
  · -- A free slot is not judged.
    have hfree : request.requestId = 0 := hid
    have hidle : (s.baseVerdict request).state = request.state := by
      unfold baseVerdict updateRequestState
      rw [if_neg]
      · rfl
      · simp [Request.wantsFeature, Request.isActive, Request.mapMask, hfree]
    exact absurd (hidle.symm.trans hbase) hnot
  · exact .inl ⟨fun hmem => hdetail (detail_mem_withOverview.mpr hmem), hbase⟩
  · exact .inr ⟨detail_mem_withOverview.mp hdetail, hcomplete, fun hmem =>
      (baseVerdict_satisfied (hoverview (mem_withOverview hmem)) hnot).2⟩

/-- A request for features of the waveform asks for no estimate. -/
theorem not_estimate {mask features : FeatureMask}
    (hmask : mask ⊆ {.waveformOverview, .waveformDetail, .waveform3Band, .confidence})
    (hfeatures : features = s4Features ∨ features = s6Features) :
    ¬∃ feature ∈ mask, feature ∈ features := by
  rintro ⟨feature, hmem, hestimate⟩
  have hwaveform := hmask hmem
  revert hestimate hwaveform
  rcases hfeatures with rfl | rfl <;> cases feature <;> decide

/-- The verdict of the overview layer says what a request without detail tiles asks for. -/
theorem available_of_base {s : Session} {request : Request}
    (hjudgeable : Judgeable request.request.featureMask)
    (hdetail : Feature.waveformDetail ∉ request.request.featureMask)
    (h : (s.baseVerdict request).state = .satisfied) (hnot : request.state ≠ .satisfied) :
    s.Available request.request := by
  obtain ⟨hstaged, hcomplete⟩ := baseVerdict_satisfied h hnot
  obtain ⟨hwaveform, -⟩ := hjudgeable.resolve_left (not_not.mpr hstaged)
  exact ⟨fun _ frame hframe => hasOverview_of_rangeComplete hcomplete frame hframe.1,
    fun hmem => absurd hmem hdetail, fun h => absurd h (not_estimate hwaveform (.inl rfl)),
    fun h => absurd h (not_estimate hwaveform (.inr rfl))⟩

/-- The verdicts of both layers say what a request asks for. -/
theorem available_of_both {s : Session} {request : Request}
    (hjudgeable : Judgeable request.request.featureMask)
    (h : (s.bothVerdicts request).state = .satisfied) (hnot : request.state ≠ .satisfied) :
    s.Available request.request := by
  rcases bothVerdicts_satisfied h hnot with ⟨hdetail, hbase⟩ | ⟨hdetail, hcomplete, hoverview⟩
  · exact available_of_base hjudgeable hdetail hbase hnot
  obtain ⟨hwaveform, hnames⟩ := hjudgeable.resolve_left (not_not.mpr (mem_stagedMask_of_detail hdetail))
  refine ⟨fun hsome frame hframe => ?_,
    fun _ frame hframe => hasDetail_of_rangeComplete hcomplete frame hframe.1,
    fun h => absurd h (not_estimate hwaveform (.inl rfl)),
    fun h => absurd h (not_estimate hwaveform (.inr rfl))⟩
  rcases hnames with hmem | honly
  · exact hasOverview_of_rangeComplete (hoverview hmem) frame hframe.1
  · -- A request for the detail tiles alone asks for no overview.
    obtain ⟨feature, hfeature, hoverview⟩ := hsome
    rw [honly, Finset.mem_singleton] at hfeature
    subst hfeature
    exact absurd hoverview (by decide)

/-! ## Every run -/

/-- The call enters a request whose verdicts say what it asks for, and a process call whose publication
is refused finds no request for detail tiles. -/
def JudgesFairly (call : Call) (s : Session) : Prop :=
  (∀ request, call.op = .requestRegion request → Judgeable request.featureMask) ∧
    ∀ judged, JudgesIn call s judged → judged.PublishRefused →
      ∀ slot ∈ s.requests, Feature.waveformDetail ∉ slot.request.featureMask

/-- At some call of the run the request was satisfied in a session that had what it asks for. -/
def WasAvailable (s : Session) (calls : List Call) (request : RegionRequest) : Prop :=
  ∃ before call after t judged, calls = before ++ call :: after ∧ run before s = some t ∧
    JudgesIn call t judged ∧ judged.Available request

theorem WasAvailable.snoc {s : Session} {calls : List Call} {request : RegionRequest} (call : Call)
    (h : WasAvailable s calls request) : WasAvailable s (calls ++ [call]) request := by
  obtain ⟨before, judging, after, t, judged, rfl, h⟩ := h
  exact ⟨before, judging, after ++ [call], t, judged, by simp, h⟩

/-- The slots of a run in which every request says what its verdicts look at. -/
structure SatisfactionInv (s : Session) (calls : List Call) (t : Session) : Prop where
  judgeable : ∀ slot ∈ t.requests, Judgeable slot.request.featureMask
  available : ∀ slot ∈ t.requests, slot.state = .satisfied → WasAvailable s calls slot.request

theorem SatisfactionInv.step {s t t' : Session} {calls : List Call} {call : Call}
    (hrun : run calls s = some t) (h : SatisfactionInv s calls t) (hfair : JudgesFairly call t)
    (hstep : step call t = some t') : SatisfactionInv s (calls ++ [call]) t' := by
  have hslots := step_slots hstep
  refine ⟨fun slot hmem => ?_, fun slot hmem hstate => ?_⟩
  · obtain ⟨old, hold, hchange⟩ := Pointwise.exists_left hslots hmem
    have hsame : slot.entry = old.entry → Judgeable slot.request.featureMask := by
      intro hentry
      have hrequest := (request_of_entry hentry).2
      exact (request_of_entry hentry).2 ▸ h.judgeable old hold
    cases hchange with
    | cleared _ hnew =>
        subst hnew
        exact .inl (by decide)
    | @entered request _ _ _ hop hnew =>
        subst hnew
        exact hfair.1 request hop
    | kept hentry => exact hsame hentry
    | cancelled hentry => exact hsame hentry
    | base hentry => exact hsame hentry
    | both hentry => exact hsame hentry
  obtain ⟨old, hold, hchange⟩ := Pointwise.exists_left hslots hmem
  have hkept : slot.entry = old.entry → old.state = .satisfied →
      WasAvailable s (calls ++ [call]) slot.request := by
    intro hentry hbefore
    have hrequest := (request_of_entry hentry).2
    exact hrequest ▸ (h.available old hold hbefore).snoc call
  have hgiven : ∀ {judged : Session}, slot.entry = old.entry → JudgesIn call t judged →
      judged.Available old.request → WasAvailable s (calls ++ [call]) slot.request := by
    intro judged hentry hjudges havailable
    have hrequest := (request_of_entry hentry).2
    exact ⟨calls, call, [], t, judged, rfl, hrun, hjudges, hrequest ▸ havailable⟩
  have hjudgeable := h.judgeable old hold
  cases hchange with
  | kept hentry hsame => exact hkept hentry (hsame ▸ hstate)
  | cleared _ hnew =>
      subst hnew
      cases hstate
  | entered _ _ hnew =>
      subst hnew
      cases hstate
  | cancelled _ _ hcancelled => cases hcancelled.symm.trans hstate
  | base hentry hjudges hrefused hverdict =>
      by_cases hbefore : old.state = .satisfied
      · exact hkept hentry hbefore
      · exact hgiven hentry hjudges (available_of_base hjudgeable
          (hfair.2 _ hjudges hrefused old hold) (hverdict ▸ hstate) hbefore)
  | both hentry hjudges hverdict =>
      by_cases hbefore : old.state = .satisfied
      · exact hkept hentry hbefore
      · exact hgiven hentry hjudges (available_of_both hjudgeable (hverdict ▸ hstate) hbefore)

/-- In every run of calls that judge fairly, a satisfied request was satisfied in a session that had
every feature of its mask for the frames of its range that the track has. -/
theorem satisfied_was_available (s : Session) (hcreated : Created s) (calls : List Call)
    (hfair : Guarded JudgesFairly calls s) (s' : Session) (hrun : run calls s = some s') :
    ∀ slot ∈ s'.requests, slot.state = .satisfied → WasAvailable s calls slot.request := by
  have hempty : ∀ slot ∈ s.requests, slot = .empty := by
    rw [created_requests hcreated]
    exact fun slot hmem => List.eq_of_mem_replicate hmem
  have hstart : SatisfactionInv s [] s := by
    refine ⟨fun slot hmem => ?_, fun slot hmem hstate => ?_⟩
    · rw [hempty slot hmem]
      exact .inl (by decide)
    · rw [hempty slot hmem] at hstate
      cases hstate
  exact (Runs.history (P := SatisfactionInv s) hstart
    (fun _ _ _ _ hbefore h hcall hstep => h.step hbefore hcall hstep) hfair hrun).available

/-! ## An overview request and a tempo request -/

/-- A run that asks for nothing but the overview judges fairly. -/
theorem guarded_of_overview {calls : List Call} (hcalls : ∀ call ∈ calls, ∀ request,
    call.op = .requestRegion request → request.featureMask = {.waveformOverview}) {s : Session}
    (hs : ∀ slot ∈ s.requests, Feature.waveformDetail ∉ slot.request.featureMask) :
    Guarded JudgesFairly calls s := by
  induction calls generalizing s with
  | nil => trivial
  | cons call rest ih =>
      obtain ⟨hcall, hrest⟩ := List.forall_mem_cons.mp hcalls
      refine ⟨⟨fun request hop => ?_, fun _ _ _ => hs⟩, fun next hstep => ih hrest ?_⟩
      · rw [hcall request hop]
        exact .inr ⟨by decide, .inl (Finset.mem_singleton_self _)⟩
      obtain ⟨⟨status, after⟩, hperform, rfl⟩ := Option.map_eq_some_iff.mp hstep
      by_cases hop : ∃ request, call.op = .requestRegion request
      · obtain ⟨request, hop⟩ := hop
        rw [hop] at hperform
        have heq : ((s.withPlatform call).requestRegion request).2.2 = after :=
          congrArg Prod.snd (Option.some.inj hperform)
        show ∀ slot ∈ after.requests, _
        rw [← heq]
        refine (requestRegion_enters request (s.withPlatform call)).forall hs (by decide)
          fun _ _ => ?_
        show Feature.waveformDetail ∉ request.featureMask
        rw [hcall request hop]
        decide
      · have hentries := perform_entries (fun request heq => hop ⟨request, heq⟩) hperform
        exact forall_of_entries (P := fun slot => Feature.waveformDetail ∉ slot.request.featureMask)
          (fun _ => Iff.rfl) hs hentries

/-- The calls that satisfy a request for the first column of a track. -/
def firstColumnCalls (features : FeatureMask) : List Call :=
  [plainCall (.requestRegion ⟨0, ⟨0, 64⟩, features, 0, 0⟩),
    plainCall (.pushPcm ⟨0, List.replicate 64 0⟩), plainCall (.process (fun _ _ => .wouldBlock) ⟨0, 0, 0⟩)]

theorem overview_request_was_available : ∃ s s' : Session, Created s ∧
    run (firstColumnCalls {.waveformOverview}) s = some s' ∧
    ∃ slot ∈ s'.requests, slot.state = .satisfied ∧
      WasAvailable s (firstColumnCalls {.waveformOverview}) slot.request := by
  obtain ⟨s, hs⟩ : ∃ s, create (smallConfig {.waveformOverview} none) seriesLibm false
    plainPlatform = (.ok, some s) := ⟨_, rfl⟩
  have hafter : ((create (smallConfig {.waveformOverview} none) seriesLibm false
      plainPlatform).2.bind (run (firstColumnCalls {.waveformOverview}))).map
        (fun s => (s.requests[0]?).map Request.state) = some (some .satisfied) := by decide +kernel
  rw [hs] at hafter
  obtain ⟨s', hrun, hfirst⟩ := Option.map_eq_some_iff.mp hafter
  obtain ⟨slot, hslot, hstate⟩ := Option.map_eq_some_iff.mp hfirst
  have hmem := List.mem_of_getElem? hslot
  have hcalls : ∀ call ∈ firstColumnCalls {.waveformOverview}, ∀ request,
      call.op = .requestRegion request → request.featureMask = {.waveformOverview} := by
    simp [firstColumnCalls, plainCall]
  have hempty : ∀ slot ∈ s.requests, Feature.waveformDetail ∉ slot.request.featureMask := by
    rw [created_requests ⟨_, _, _, _, hs⟩]
    intro slot hmem
    rw [List.eq_of_mem_replicate hmem]
    decide
  exact ⟨s, s', ⟨_, _, _, _, hs⟩, hrun, slot, hmem, hstate,
    satisfied_was_available s ⟨_, _, _, _, hs⟩ _ (guarded_of_overview hcalls hempty) s' hrun slot
      hmem hstate⟩

/-- The verdicts are given before the local estimator has run. -/
theorem JudgesIn.s4 {call : Call} {s judged : Session} (hmode : s.config.inputMode = .push)
    (h : JudgesIn call s judged) : judged.s4 = s.s4 := by
  obtain ⟨source, budget, state, -, -, rfl⟩ := h
  have hframe : OverviewFrame Session.s4 :=
    ⟨⟨fun _ _ _ => rfl, fun _ _ _ _ => rfl⟩, fun _ _ => rfl, fun _ _ _ => rfl⟩
  have hentry : (s.withPlatform call).layersEntry source budget = s.withPlatform call := by
    unfold layersEntry
    rw [if_neg]
    rintro ⟨hpull, -⟩
    have hpush : (s.withPlatform call).config.inputMode = .push := hmode
    rw [hpush] at hpull
    cases hpull
  rw [hentry]
  refine (hframe.chunkState _ _).trans ((hframe.reserveAccumulators _).trans
    ((hframe.stageDemand _).trans ?_))
  unfold refreshDetail
  split_ifs <;> rfl

/-- A request for the tempo alone is satisfied by the overview, before there is an estimate. -/
theorem tempo_request_without_estimate : ∃ s s' : Session, Created s ∧
    run (firstColumnCalls {.bpm}) s = some s' ∧
    ∃ slot ∈ s'.requests, slot.state = .satisfied ∧
      ¬WasAvailable s (firstColumnCalls {.bpm}) slot.request := by
  obtain ⟨s, hs⟩ : ∃ s, create (smallConfig {.waveformOverview, .bpm} none) seriesLibm false
    plainPlatform = (.ok, some s) := ⟨_, rfl⟩
  have hafter : ((create (smallConfig {.waveformOverview, .bpm} none) seriesLibm false
      plainPlatform).2.bind (run (firstColumnCalls {.bpm}))).map
        (fun s => (s.requests[0]?).map fun slot => (slot.state, slot.request.featureMask)) =
      some (some (.satisfied, {.bpm})) := by decide +kernel
  have hjudged : ((create (smallConfig {.waveformOverview, .bpm} none) seriesLibm false
      plainPlatform).2.bind (run ((firstColumnCalls {.bpm}).take 2))).map
        (fun s => (s.config.inputMode, s.s4.estimate.isSome)) = some (.push, false) := by
    decide +kernel
  rw [hs] at hafter hjudged
  obtain ⟨s', hrun, hfirst⟩ := Option.map_eq_some_iff.mp hafter
  obtain ⟨slot, hslot, hfacts⟩ := Option.map_eq_some_iff.mp hfirst
  obtain ⟨hstate, hmask⟩ := Prod.mk.inj hfacts
  obtain ⟨t, ht, htfacts⟩ := Option.map_eq_some_iff.mp hjudged
  obtain ⟨hmode, hestimate⟩ := Prod.mk.inj htfacts
  refine ⟨s, s', ⟨_, _, _, _, hs⟩, hrun, slot, List.mem_of_getElem? hslot, hstate, ?_⟩
  rintro ⟨before, call, after, u, judged, hsplit, hu, hjudges, havailable⟩
  -- The last of the three calls is the one that gives verdicts.
  have hbefore : before = (firstColumnCalls {.bpm}).take 2 := by
    obtain ⟨source, budget, -, hop, -, -⟩ := hjudges
    rcases before with - | ⟨first, - | ⟨second, - | ⟨third, rest⟩⟩⟩
    · rw [← (List.cons.inj hsplit).1] at hop
      cases hop
    · rw [← (List.cons.inj (List.cons.inj hsplit).2).1] at hop
      cases hop
    · rw [hsplit]
      rfl
    · have hlength := congrArg List.length hsplit
      simp [firstColumnCalls] at hlength
  rw [hbefore] at hu
  obtain rfl := Option.some.inj (hu.symm.trans ht)
  have hnone : judged.localGridSnapshot = none := by
    have hs4 : judged.s4.estimate = none := by
      rw [hjudges.s4 hmode]
      simpa using hestimate
    unfold localGridSnapshot
    rw [hs4]
    split_ifs <;> rfl
  obtain ⟨view, hview, -⟩ := havailable.localGrid ⟨.bpm, by rw [hmask]; decide, by decide⟩
  rw [hnone] at hview
  cases hview

end Session

end LibApta
