import LibApta.Session.Settings

/-!
# The locked local grid

A lock fixes the local estimate. Of the calls only the application of a grid revision writes a locked
estimate again; the others leave it alone, but for its states, which become final when the session
drains. Whatever a locked session publishes shows this estimate.
-/

namespace LibApta

/-! ## Locked estimates -/

namespace LocalEstimate

/-- The estimate with its states final. -/
def finalized (estimate : LocalEstimate) : LocalEstimate :=
  { estimate with
    tempo := { estimate.tempo with state := .final }
    segment := { estimate.segment with state := .final } }

/-- The grid that shows an estimate in a state. -/
def gridView (estimate : LocalEstimate) (state : FeatureState) : GridView where
  requestedRange := estimate.requestedRange
  evidenceRange := estimate.evidenceRange
  applicabilityRange := estimate.applicabilityRange
  coverageRange := estimate.coverageRange
  representation := .segments
  state := state
  confidence := estimate.segment.confidence
  flags := estimate.segment.flags
  segments := [{ estimate.segment with state := state }]
  beats := []

end LocalEstimate

namespace S4State

/-- The estimator is locked to an estimate, which may have become final. -/
structure LockedTo (estimate : LocalEstimate) (s : S4State) : Prop where
  locked : s.locked = true
  kept : s.estimate = some estimate ∨ s.estimate = some estimate.finalized

/-- Only the flag and the estimate matter. -/
theorem LockedTo.congr {estimate : LocalEstimate} {s s' : S4State} (h : s.LockedTo estimate)
    (hlocked : s'.locked = s.locked) (hestimate : s'.estimate = s.estimate) :
    s'.LockedTo estimate :=
  ⟨hlocked.trans h.locked, hestimate ▸ h.kept⟩

theorem LockedTo.refreshLocked {estimate : LocalEstimate} {s : S4State} (h : s.LockedTo estimate)
    (ctx : AnalysisContext) : (s.refreshLocked ctx).LockedTo estimate := by
  obtain ⟨hlocked, hkept | hkept⟩ := h <;> unfold S4State.refreshLocked <;> simp only [hkept] <;>
    split_ifs
  · exact ⟨hlocked, .inr rfl⟩
  · exact ⟨hlocked, .inl rfl⟩
  · exact ⟨hlocked, .inr rfl⟩
  · exact ⟨hlocked, .inr rfl⟩

/-- A refresh of a locked estimator is one pass and no search. -/
theorem refreshPass_of_locked (ctx : AnalysisContext) {call : RefreshCall}
    (hlocked : call.state.locked = true) :
    ∃ s, (s = call.state ∨ s = refreshLocked ctx call.state) ∧
      refreshPass ctx call = .inr ⟨.ok, call.used, s, call.env⟩ := by
  unfold refreshPass
  simp only [hlocked, if_true]
  split_ifs
  · exact ⟨_, .inl rfl, rfl⟩
  · exact ⟨_, .inr rfl, rfl⟩

theorem LockedTo.refresh {estimate : LocalEstimate} {s : S4State} (h : s.LockedTo estimate)
    {ctx : AnalysisContext} {limit : ℕ} {env : Environment} {result : RefreshResult}
    (hrefresh : refresh ctx limit s env = some result) : result.state.LockedTo estimate := by
  have hlocked : (RefreshCall.mk limit 0 s env).state.locked = true := h.locked
  obtain ⟨after, hafter, hpass⟩ := refreshPass_of_locked ctx hlocked
  unfold S4State.refresh at hrefresh
  rw [TailCall.run_succ_of_inr hpass] at hrefresh
  rw [← Option.some.inj hrefresh]
  rcases hafter with rfl | rfl
  · exact h
  · exact h.refreshLocked ctx

theorem LockedTo.prepare {estimate : LocalEstimate} {s : S4State} (h : s.LockedTo estimate)
    (features : FeatureMask) (env : Environment) :
    (S4State.prepare features s env).2.1.LockedTo estimate := by
  unfold S4State.prepare
  split_ifs
  · exact h
  split
  · exact h
  · split <;> exact h.congr rfl rfl

theorem LockedTo.processSample {estimate : LocalEstimate} {s : S4State} (h : s.LockedTo estimate)
    (endOfInput : Option ℕ) (frame : ℕ) (sample : ℚ) :
    (S4State.processSample endOfInput s frame sample).2.LockedTo estimate := by
  unfold S4State.processSample
  split_ifs
  · exact h
  · exact h.congr rfl rfl

end S4State

namespace Session

/-! ## Feeding a locked estimator -/

theorem feedSample_lockedTo {estimate : LocalEstimate} {d : Derived} (h : d.s4.LockedTo estimate)
    (features : FeatureMask) (ctx : DetailContext) (frame : ℕ) (sample : ℚ) :
    (feedSample features ctx frame sample d).2.s4.LockedTo estimate := by
  have hfed : (if S4State.enabled features then
      S4State.processSample ctx.endOfInput d.s4 frame sample else (.ok, d.s4)).2.LockedTo
        estimate := by
    split_ifs
    · exact h.processSample ctx.endOfInput frame sample
    · exact h
  unfold feedSample
  simp only
  generalize (if S4State.enabled features then
    S4State.processSample ctx.endOfInput d.s4 frame sample else (.ok, d.s4)) = fed at hfed ⊢
  generalize (if Feature.waveformDetail ∈ features then
    Detail.processSample ctx d.detail frame sample else (.ok, d.detail)) = tiled
  by_cases htiled : tiled.1 ≠ .ok
  · rwa [if_pos htiled]
  rw [if_neg htiled]
  by_cases hstopped : fed.1 ≠ .ok
  · rwa [if_pos hstopped]
  rw [if_neg hstopped]
  split <;> exact hfed

theorem feedSamples_lockedTo {estimate : LocalEstimate} (features : FeatureMask)
    (ctx : DetailContext) (samples : List ℚ) (frame : ℕ) {d : Derived}
    (h : d.s4.LockedTo estimate) :
    (feedSamples features ctx samples frame d).s4.LockedTo estimate := by
  induction samples generalizing frame d with
  | nil => exact h
  | cons sample rest ih =>
      have hfed := feedSample_lockedTo h features ctx frame sample
      unfold feedSamples
      split
      · next heq => exact ih _ (by rwa [heq] at hfed)
      · next heq => rwa [heq] at hfed

/-! ## What a locked session publishes -/

/-- A result shows an estimate, which may have become final. -/
structure ShowsEstimate (estimate : LocalEstimate) (result : Result) : Prop where
  tempo : ∀ view ∈ result.tempo,
    view.selected = estimate.tempo ∨ view.selected = estimate.finalized.tempo
  grid : ∀ view ∈ result.localGrid,
    view = estimate.gridView estimate.segment.state ∨ view = estimate.gridView .final

theorem snapshot_showsEstimate {estimate : LocalEstimate} {s : Session}
    (h : s.s4.LockedTo estimate) (mask : FeatureMask) : ShowsEstimate estimate (s.snapshot mask) := by
  constructor
  · intro view hview
    change view ∈ s.tempoSnapshot at hview
    unfold tempoSnapshot finalized at hview
    rcases h.kept with hkept | hkept <;> split_ifs at hview <;>
      simp only [hkept, Option.map_some, Option.mem_def, Option.some.injEq, reduceCtorEq] at hview <;>
      subst hview
    · exact .inr rfl
    · exact .inl rfl
    · exact .inr rfl
    · exact .inr rfl
  · intro view hview
    change view ∈ s.localGridSnapshot at hview
    unfold localGridSnapshot finalized at hview
    rcases h.kept with hkept | hkept <;> split_ifs at hview <;>
      simp only [hkept, Option.map_some, Option.mem_def, Option.some.injEq, reduceCtorEq] at hview <;>
      subst hview
    · exact .inr rfl
    · exact .inl rfl
    · exact .inr rfl
    · exact .inr rfl

/-! ## Runs of a locked session -/

/-- The session is locked to an estimate, and what it has published since shows this estimate. -/
structure KeepsLock (estimate : LocalEstimate) (earlier : List Result) (s : Session) : Prop where
  lockedTo : s.s4.LockedTo estimate
  shown : ∃ later, s.results = later ++ earlier ∧ ∀ result ∈ later, ShowsEstimate estimate result

namespace KeepsLock

variable {estimate : LocalEstimate} {earlier : List Result} {s : Session}

theorem of_lockedTo (h : s.s4.LockedTo estimate) : KeepsLock estimate s.results s :=
  ⟨h, [], rfl, by simp⟩

theorem congr {s' : Session} (h : KeepsLock estimate earlier s) (hs4 : s'.s4.LockedTo estimate)
    (hresults : s'.results = s.results) : KeepsLock estimate earlier s' :=
  ⟨hs4, hresults ▸ h.shown⟩

theorem published (h : KeepsLock estimate earlier s) (mask : FeatureMask) :
    KeepsLock estimate earlier (s.published mask) := by
  obtain ⟨later, hresults, hshown⟩ := h.shown
  refine ⟨h.lockedTo, s.snapshot mask :: later, congrArg _ hresults, ?_⟩
  exact List.forall_mem_cons.mpr ⟨snapshot_showsEstimate h.lockedTo mask, hshown⟩

theorem refreshS4 {limit steps : ℕ} {status : Status} {s' : Session}
    (hrefresh : s.refreshS4 limit = some (status, steps, s')) (h : KeepsLock estimate earlier s) :
    KeepsLock estimate earlier s' := by
  obtain ⟨result, hresult, heq⟩ := Option.map_eq_some_iff.mp hrefresh
  rw [← (Prod.mk.inj (Prod.mk.inj heq).2).2]
  exact h.congr (h.lockedTo.refresh hresult) rfl

theorem refreshS6 {limit steps : ℕ} {status : Status} {s' : Session}
    (hrefresh : s.refreshS6 limit = some (status, steps, s')) (h : KeepsLock estimate earlier s) :
    KeepsLock estimate earlier s' := by
  unfold Session.refreshS6 at hrefresh
  cases hs6 : s.s6 with
  | none =>
      rw [hs6] at hrefresh
      rwa [← (Prod.mk.inj (Prod.mk.inj (Option.some.inj hrefresh)).2).2]
  | some s6 =>
      rw [hs6] at hrefresh
      obtain ⟨result, -, heq⟩ := Option.map_eq_some_iff.mp hrefresh
      rw [← (Prod.mk.inj (Prod.mk.inj heq).2).2]
      exact h.congr (h.lockedTo.congr rfl rfl) rfl

theorem refreshDetail (h : KeepsLock estimate earlier s) :
    KeepsLock estimate earlier s.refreshDetail := by
  unfold Session.refreshDetail
  split_ifs
  · exact h.congr h.lockedTo rfl
  · exact h

theorem prepareEstimators (h : KeepsLock estimate earlier s) :
    KeepsLock estimate earlier s.prepareEstimators.2 := by
  have hprepared := h.lockedTo.prepare s.config.requestedFeatures s.env
  unfold Session.prepareEstimators
  split
  · next heq => exact h.congr (by rwa [heq] at hprepared) rfl
  · next heq => exact h.congr (by rwa [heq] at hprepared) rfl

theorem feedAccepted (block : PcmBlock) (n : ℕ) (h : KeepsLock estimate earlier s) :
    KeepsLock estimate earlier (s.feedAccepted block n) := by
  have hfed := feedSamples_lockedTo s.config.requestedFeatures s.detailContext
    (block.samples.take n) block.firstFrame (d := s.derived) h.lockedTo
  unfold Session.feedAccepted
  simp only
  split_ifs
  · exact h.congr hfed rfl
  · exact h.congr hfed rfl

/-- No call but the application of a revision breaks the lock. -/
theorem invariant (estimate : LocalEstimate) (earlier : List Result) :
    RunInvariant (KeepsLock estimate earlier) where
  env _ h := h.congr h.lockedTo rfl
  forgotten h := h.congr h.lockedTo rfl
  moved _ h := h.congr h.lockedTo rfl
  published mask h := h.published mask
  chunks _ h := h.congr h.lockedTo rfl
  reserveAccumulators {s} h := by
    obtain ⟨_, _, heq⟩ := reserveAccumulators_columns s
    rw [heq]
    exact h.congr h.lockedTo rfl
  queue _ h := h.congr h.lockedTo rfl
  demand _ _ h := h.congr h.lockedTo rfl
  refreshDetail h := h.refreshDetail
  detailPublished h := h.congr h.lockedTo rfl
  refreshS4 hrefresh h := h.refreshS4 hrefresh
  refreshS6 hrefresh h := h.refreshS6 hrefresh
  s4Serials _ _ h := h.congr (h.lockedTo.congr rfl rfl) rfl
  s6Published h := h.congr h.lockedTo rfl
  length _ _ h := h.congr h.lockedTo rfl
  flags _ _ _ h := h.congr h.lockedTo rfl
  recorded _ h := h.congr h.lockedTo rfl
  seedColumn {s} columnIndex sampleCount column h := by
    obtain ⟨_, _, heq⟩ := seedColumn_columns columnIndex sampleCount column s
    rw [heq]
    exact h.congr h.lockedTo rfl
  accepted _ _ h := h.congr h.lockedTo rfl
  acceptReplay _ h := h.congr h.lockedTo rfl
  prepareEstimators h := h.prepareEstimators
  feedAccepted block n h := h.feedAccepted block n
  noted _ h := h.congr h.lockedTo rfl
  counters _ _ h := h.congr h.lockedTo rfl

end KeepsLock

/-- A lock of a locked session changes nothing. -/
theorem lockGridRange_of_locked (range : FrameRange) {s : Session} (h : s.s4.locked = true) :
    (s.lockGridRange range).2 = s := by
  rcases lockGridRange_cases range s with ⟨_, heq, -⟩ | ⟨_, _, _, -, hunlocked, -⟩
  · rw [heq]
  · exact absurd (h.symm.trans hunlocked) (by decide)

/-- A lock that succeeds leaves the session locked, over the range it was given. -/
theorem lockGridRange_ok {range : FrameRange} {s s' : Session}
    (h : s.lockGridRange range = (.ok, s')) :
    ∃ estimate, s'.s4.LockedTo estimate ∧ s'.s4.estimate = some estimate ∧
      estimate.applicabilityRange = range := by
  rcases lockGridRange_cases range s with
    ⟨status, heq, hlocked⟩ | ⟨estimate, answer, after, -, -, hpub, heq⟩ <;> rw [heq] at h
  · obtain ⟨rfl, rfl⟩ := Prod.mk.inj h
    obtain ⟨hlocked, estimate, hestimate, hsame⟩ := hlocked rfl
    exact ⟨estimate, ⟨hlocked, .inl hestimate⟩, hestimate, hsame⟩
  · have hs4 : after.s4 = (s.withLock range estimate).s4 := by
      rcases publish_cases hpub with ⟨-, env, rfl⟩ | ⟨-, env, rfl | rfl⟩ <;> rfl
    have hlocked : after.s4.LockedTo (lockEstimate range estimate) := by
      rw [hs4]
      exact ⟨rfl, .inl rfl⟩
    split_ifs at h with hfailed
    · rw [(Prod.mk.inj h).1] at hfailed
      cases hfailed
    · rw [← (Prod.mk.inj h).2]
      refine ⟨_, hlocked.congr rfl rfl, ?_, rfl⟩
      show after.s4.estimate = some (lockEstimate range estimate)
      rw [hs4]
      rfl

/-- **A locked grid does not move.** After a lock has succeeded, and until a grid revision is applied,
the local estimate stays what it was at the lock, but for its states, which may become final; and so
does every local grid and tempo that the session publishes. -/
theorem locked_grid_immutable (s : Session) (range : FrameRange) (locked : Session)
    (hlock : s.lockGridRange range = (.ok, locked)) (calls : List Call)
    (hcalls : ∀ call ∈ calls, ∀ revisionId, call.op ≠ .applyGridRevision revisionId)
    (after : Session) (hrun : run calls locked = some after) :
    ∃ estimate, locked.s4.estimate = some estimate ∧ estimate.applicabilityRange = range ∧
      after.s4.locked = true ∧
      (after.s4.estimate = some estimate ∨ after.s4.estimate = some estimate.finalized) ∧
      ∃ later, after.results = later ++ locked.results ∧
        ∀ result ∈ later, ShowsEstimate estimate result := by
  obtain ⟨estimate, hlockedTo, hestimate, hrange⟩ := lockGridRange_ok hlock
  have hkeeps : KeepsLock estimate locked.results after := by
    refine (KeepsLock.invariant estimate locked.results).run ?_ ?_
      (Runs.guarded_of_forall hcalls locked) hrun (.of_lockedTo hlockedTo)
    · intro call t range _ _ ht
      rwa [lockGridRange_of_locked range ht.lockedTo.locked]
    · intro call t revisionId hop heq
      exact absurd heq (hop revisionId)
  exact ⟨estimate, hestimate, hrange, hkeeps.lockedTo.locked, hkeeps.lockedTo.kept, hkeeps.shown⟩

/-! ## A session with a stable estimate -/

/-- A tempo of 120 beats a minute at 44.1 kHz, over the first million frames. -/
def steadyEstimate : LocalEstimate where
  tempo := ⟨⟨0, 1000000⟩, ⟨0, 1000000⟩, 120000, 90, .stable, 0, 1⟩
  segment := ⟨⟨0, 1000000⟩, 128, 0, 0, 22050, 0, 46, 120000, 90, .stable, 0, 1, 0⟩
  requestedRange := ⟨0, 1000000⟩
  evidenceRange := ⟨0, 1000000⟩
  applicabilityRange := ⟨0, 1000000⟩
  coverageRange := ⟨0, 1000000⟩

/-- An active session with this estimate. -/
def steadySession : Session :=
  { new (smallConfig {.waveformOverview, .bpm, .localBeatgrid, .gridLocking} none) seriesLibm false
      plainPlatform with
    state := .active
    s4 := { S4State.initial with
      binsAllocated := true, fluxAllocated := true, estimate := some steadyEstimate } }

/-- Calls that would move an estimate that is not locked, up to the end of the input. -/
def drainingCalls : List Call :=
  [plainCall (.setFocus ⟨5000, 1000, 1000, {.localBeatgrid}, 0⟩),
    plainCall (.pushPcm ⟨0, List.replicate 64 0⟩),
    plainCall (.process (fun _ _ => .wouldBlock) ⟨0, 0, 0⟩),
    plainCall (.signalEndOfInput 64),
    plainCall (.process (fun _ _ => .wouldBlock) ⟨0, 0, 0⟩)]

theorem locked_grid_immutable_drained : ∃ locked after : Session,
    steadySession.lockGridRange ⟨2000, 90000⟩ = (.ok, locked) ∧
    run drainingCalls locked = some after ∧ after.state = .completed ∧
    (after.s4.estimate = some (lockEstimate ⟨2000, 90000⟩ steadyEstimate) ∨
      after.s4.estimate = some (lockEstimate ⟨2000, 90000⟩ steadyEstimate).finalized) := by
  obtain ⟨locked, hlock⟩ : ∃ locked, steadySession.lockGridRange ⟨2000, 90000⟩ = (.ok, locked) :=
    ⟨_, rfl⟩
  have hstate : (run drainingCalls (steadySession.lockGridRange ⟨2000, 90000⟩).2).map Session.state =
      some .completed := by decide +kernel
  have hestimate : (steadySession.lockGridRange ⟨2000, 90000⟩).2.s4.estimate =
      some (lockEstimate ⟨2000, 90000⟩ steadyEstimate) := by decide +kernel
  rw [hlock] at hstate hestimate
  obtain ⟨after, hrun, hcompleted⟩ := Option.map_eq_some_iff.mp hstate
  obtain ⟨estimate, hlocked, -, -, hkept, -⟩ := locked_grid_immutable steadySession ⟨2000, 90000⟩
    locked hlock drainingCalls (by simp [drainingCalls, plainCall]) after hrun
  rw [hlocked] at hestimate
  obtain rfl := Option.some.inj hestimate
  exact ⟨locked, after, hlock, hrun, hcompleted, hkept⟩

end Session

end LibApta
