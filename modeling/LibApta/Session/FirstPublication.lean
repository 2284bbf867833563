import LibApta.Session.Settings

/-!
# A session up to its first publication

A session that has been created, and perhaps seeded, has an overview but no input. Until its next
publication the calls leave this overview as it is, unless a publication is refused and the marks of
the columns are forgotten; and the next publication shows it.
-/

namespace LibApta

namespace Session

/-! ## What grows -/

/-- Publications are only ever added. -/
theorem suffix_invariant (earlier : List Result) :
    RunInvariant fun s => earlier <:+ s.results where
  env _ h := h
  forgotten h := h
  moved _ h := h
  published _ h := h.trans (List.suffix_cons _ _)
  chunks _ h := h
  reserveAccumulators {s} h := by
    obtain ⟨_, _, heq⟩ := reserveAccumulators_columns s
    rwa [heq]
  queue _ h := h
  demand _ _ h := h
  refreshDetail {s} h := by
    unfold Session.refreshDetail
    split_ifs <;> exact h
  detailPublished h := h
  refreshS4 hrefresh h := (refreshS4_sameTrack hrefresh).results ▸ h
  refreshS6 hrefresh h := (refreshS6_sameTrack hrefresh).results ▸ h
  s4Serials _ _ h := h
  s6Published h := h
  length _ _ h := h
  flags _ _ _ h := h
  recorded _ h := h
  seedColumn {s} columnIndex sampleCount column h := by
    obtain ⟨_, _, heq⟩ := seedColumn_columns columnIndex sampleCount column s
    rwa [heq]
  accepted _ _ h := h
  acceptReplay _ h := h
  prepareEstimators {s} h := by
    obtain ⟨_, _, _, heq⟩ := prepareEstimators_cases (Prod.eta s.prepareEstimators).symm
    rwa [heq]
  feedAccepted {s} block n h := (feedAccepted_sameTrack block n s).results ▸ h
  noted _ h := h
  counters _ _ h := h

/-- No call takes a publication back. -/
theorem results_suffix {calls : List Call} {s s' : Session} (hrun : run calls s = some s') :
    s.results <:+ s'.results := by
  have hgrown := suffix_invariant s.results
  refine hgrown.run ?_ ?_ (Runs.guarded_true step calls s) hrun (List.suffix_refl _)
  · intro _ _ range _ _ hsuffix
    exact hgrown.lockGridRange range (fun _ _ => hsuffix) id hsuffix
  · intro _ _ revisionId _ _ hsuffix
    exact hgrown.applyGridRevision revisionId (fun _ _ _ _ _ _ => hsuffix) id hsuffix

theorem Announces.results_suffix {s s' : Session} (h : Announces s s') :
    s.results <:+ s'.results := by
  induction h with
  | rest h => exact h.results ▸ List.suffix_refl _
  | publish mask h _ ih =>
      rw [← h.results]
      exact (List.suffix_cons _ _).trans ih

theorem Unannounced.results {s s' : Session} (h : Unannounced s s') : s'.results = s.results := by
  cases h with
  | kept h => exact h.results
  | forgotten h => exact h.results

theorem Delivered.results {block : PcmBlock} {n : ℕ} {s s' : Session} (h : Delivered block s n s') :
    s'.results = s.results := by
  cases h with
  | ignored => rfl
  | accepted _ h =>
      cases h with
      | replay _ _ h => exact h.results
      | base h =>
          cases h with
          | none h => exact h.results
          | some _ _ h => exact h.results

/-- Columns that are all complete are left alone. -/
theorem refreshCompletedColumns_of_complete (framesPerColumn : ℕ) (endOfInput : Option ℕ)
    {overview : Overview} (h : ∀ acc ∈ overview.accumulators, acc.complete = true) :
    refreshCompletedColumns framesPerColumn endOfInput overview = overview := by
  have hdone : ∀ acc ∈ overview.accumulators,
      ¬ becomesComplete framesPerColumn endOfInput acc = true := by
    intro acc hmem
    simp [becomesComplete, h acc hmem]
  unfold refreshCompletedColumns
  rw [List.countP_eq_zero.mpr hdone, Nat.add_zero,
    List.map_congr_left fun acc hmem => if_neg (hdone acc hmem), List.map_id']

/-! ## Before the first publication -/

/-- The session has taken no input since another one, and has published nothing. Its columns are those
of the other one, all complete. -/
structure Waiting (start s : Session) : Prop where
  state : s.state = .created
  endOfInput : s.endOfInput = none
  queue : s.queue = []
  settings : s.settings = start.settings
  accumulators : s.overview.accumulators = start.overview.accumulators
  completeCount : s.overview.completeCount = start.overview.completeCount
  complete : ∀ acc ∈ start.overview.accumulators, acc.complete = true
  results : s.results = start.results

/-- A result whose overview, if it has one, shows the columns of a session. -/
def ShowsColumns (start : Session) (result : Result) : Prop :=
  ∀ view ∈ result.overview, view.framesPerColumn = start.framesPerColumn ∧
    view.spans = overviewSpans (start.config.requests .waveform3Band) start.framesPerColumn none
      start.overview.accumulators

/-- The first result since a session shows its columns. -/
def Shown (start s : Session) : Prop :=
  ∃ first, ShowsColumns start first ∧ first :: start.results <:+ s.results

/-- Nothing has been published, and the marks of the columns are forgotten. -/
def Refused (start s : Session) : Prop :=
  s.overview.completeCount = 0 ∧ s.results = start.results

/-- What a call, or a part of one that has failed or not, makes of a waiting session. -/
inductive Fate (start : Session) : Bool → Session → Prop
  | waiting {failed : Bool} {s : Session} (h : Waiting start s) : Fate start failed s
  | shown {failed : Bool} {s : Session} (h : Shown start s) : Fate start failed s
  | refused {s : Session} (h : Refused start s) : Fate start true s

variable {start s s' t : Session}

theorem Fate.failed {failed : Bool} (h : Fate start failed s) : Fate start true s := by
  cases h with
  | waiting h => exact .waiting h
  | shown h => exact .shown h
  | refused h => exact .refused h

theorem framesPerColumn_of_settings (h : s.settings = start.settings) :
    s.framesPerColumn = start.framesPerColumn := by
  have hcolumns : s.settings.overviewFramesPerColumn = start.settings.overviewFramesPerColumn := by
    rw [h]
  unfold framesPerColumn
  exact congrArg (fun n => if n = 0 then defaultOverviewFramesPerColumn else n) hcolumns

namespace Waiting

theorem same (h : Waiting start s) (h' : SameTrack s s') : Waiting start s' where
  state := h'.state.trans h.state
  endOfInput := h'.endOfInput.trans h.endOfInput
  queue := List.Perm.eq_nil (h.queue ▸ h'.queue)
  settings := by
    rw [← h.settings, Session.settings, h'.config]
    rfl
  accumulators := h'.accumulators.trans h.accumulators
  completeCount := h'.completeCount.trans h.completeCount
  complete := h.complete
  results := h'.results.trans h.results

/-- The snapshot of a waiting session, in whatever state, shows its columns. -/
theorem snapshot (h : Waiting start s) (state : SessionState) (mask : FeatureMask) :
    ShowsColumns start (Session.snapshot { s with state := state } mask) := by
  intro view hview
  change LibApta.overviewSnapshot s.config s.framesPerColumn s.endOfInput state s.overview =
    some view at hview
  unfold LibApta.overviewSnapshot at hview
  split at hview
  · exact absurd hview (by simp)
  · rw [← Option.some.inj hview, h.endOfInput, h.accumulators,
      framesPerColumn_of_settings h.settings, requests_of_settings h.settings]
    exact ⟨rfl, rfl⟩

theorem published (h : Waiting start s) (state : SessionState) (mask : FeatureMask) :
    Shown start (Session.published mask { s with state := state }) :=
  ⟨_, h.snapshot state mask, by rw [← h.results]; exact List.suffix_refl _⟩

theorem unannounced (h : Waiting start s) (hun : Unannounced s s') : Fate start true s' := by
  cases hun with
  | kept h' => exact .waiting (h.same h')
  | forgotten h' => exact .refused ⟨h'.completeCount, h'.results.trans h.results⟩

theorem transition (h : Waiting start s) {new : SessionState} {status : Status}
    (hmove : s.transition new = (status, s')) : Fate start status.failed s' := by
  rcases transition_cases hmove with ⟨-, -, rfl⟩ | ⟨rfl, -, env, rfl⟩ | ⟨⟨code, -, rfl⟩, hun⟩
  · exact .waiting h
  · exact .shown (h.published new ∅)
  · exact h.unannounced hun.unannounced

end Waiting

namespace Shown

/-- What keeps the published results keeps the first of them. -/
theorem mono (h : Shown start s) (hgrown : ∀ earlier : List Result,
    earlier <:+ s.results → earlier <:+ s'.results) : Shown start s' := by
  obtain ⟨first, hfirst, hsuffix⟩ := h
  exact ⟨first, hfirst, hgrown _ hsuffix⟩

theorem same (h : Shown start s) (hresults : s'.results = s.results) : Shown start s' :=
  h.mono fun _ hsuffix => hresults ▸ hsuffix

theorem transition (h : Shown start s) {new : SessionState} {status : Status}
    (hmove : s.transition new = (status, s')) : Shown start s' :=
  h.mono fun earlier => (suffix_invariant earlier).transition hmove

end Shown

theorem Fate.same {failed : Bool} (h : Fate start failed s) (h' : SameTrack s s') :
    Fate start failed s' := by
  cases h with
  | waiting h => exact .waiting (h.same h')
  | shown h => exact .shown (h.same h'.results)
  | refused h => exact .refused ⟨h'.completeCount.trans h.1, h'.results.trans h.2⟩

/-! ## The pull adapter -/

namespace Waiting

theorem activate (h : Waiting start s) {status : Status} (hactive : s.activate = (status, s')) :
    (status = .ok ∧ Shown start s') ∨
      (∃ code, lacksRoom code ∧ status = .error code) ∧ Fate start true s' := by
  rcases activate_cases hactive with ⟨rfl, hactivated⟩ | ⟨hcode, -, hun⟩
  · cases hactivated with
    | already hne => exact absurd h.state hne
    | first env => exact .inl ⟨rfl, h.published .active ∅⟩
  · exact .inr ⟨hcode, h.unannounced hun⟩

/-- A source that fails reports an error, whether or not the session can be moved. -/
theorem sourceFailure (h : Waiting start s) {status : Status}
    (hfail : s.sourceFailure = (status, s')) : Fate start status.failed s' := by
  unfold Session.sourceFailure at hfail
  cases hmove : s.transition .failed with
  | mk answer t =>
      have hfate := (h.transition hmove).failed
      rw [hmove] at hfail
      cases answer <;> obtain ⟨rfl, rfl⟩ := Prod.mk.inj hfail <;> exact hfate

/-- A delivery that took no block is settled. -/
theorem settleDelivery (h : Waiting start s) {status answer : Status}
    (hsettle : s.settleDelivery status = (answer, s')) : Fate start answer.failed s' := by
  unfold Session.settleDelivery at hsettle
  split at hsettle
  · exact (Prod.mk.inj hsettle).2 ▸ .waiting h
  · exact (Prod.mk.inj hsettle).2 ▸ .waiting h
  · exact (Prod.mk.inj hsettle).2 ▸ .waiting h
  · exact h.sourceFailure hsettle
  · exact (Prod.mk.inj hsettle).2 ▸ .waiting h

theorem acceptPulled (h : Waiting start s) {request : FrameRange} {frames : ℕ} {block : PcmBlock}
    {status : Status} (htake : s.acceptPulled request frames block = (status, s')) :
    Fate start status.failed s' := by
  unfold Session.acceptPulled at htake
  by_cases hvalid : ∃ code, s.validatePcmBlock block = .error code
  · obtain ⟨code, hcode⟩ := hvalid
    rw [hcode] at htake
    exact h.settleDelivery htake
  rw [validatePcmBlock_eq_ok (not_exists.mp hvalid)] at htake
  simp only at htake
  by_cases hfit : block.firstFrame ≠ request.firstFrame ∨ frames < block.frameCount ∨
      request.endFrame < block.firstFrame + block.frameCount
  · rw [if_pos hfit] at htake
    exact h.settleDelivery htake
  rw [if_neg hfit] at htake
  cases hactivate : s.activate with
  | mk answer t =>
      rw [hactivate] at htake
      rcases h.activate hactivate with ⟨rfl, hshown⟩ | ⟨⟨code, hcode, rfl⟩, hfate⟩
      · -- The activation has published; nothing after it takes that back.
        refine .shown (hshown.mono fun earlier hsuffix => ?_)
        have hgrown := suffix_invariant earlier
        simp only at htake
        split_ifs at htake
        · have hafter := hgrown.settleDelivery (t.acceptPcm block).1 (hgrown.acceptPcm block hsuffix)
          rwa [htake] at hafter
        · exact (Prod.mk.inj htake).2 ▸ hsuffix
      · simp only [settleDelivery_lacksRoom hcode] at htake
        obtain ⟨rfl, rfl⟩ := Prod.mk.inj htake
        exact hfate

/-- Ending the input activates the session first, so what follows is no longer the first publication. -/
theorem endInput (h : Waiting start s) {finalEnd : ℕ} {status : Status}
    (hend : s.endInput finalEnd = (status, s')) : Fate start status.failed s' := by
  have hkept : ∀ answer : Status, (answer, s) = (status, s') → Fate start status.failed s' :=
    fun _ heq => (Prod.mk.inj heq).2 ▸ .waiting h
  unfold Session.endInput at hend
  rw [h.endOfInput, h.state] at hend
  simp only at hend
  split at hend
  · exact hkept _ hend
  split at hend
  · exact hkept _ hend
  cases hactivate : s.activate with
  | mk answer t =>
      rw [hactivate] at hend
      rcases h.activate hactivate with ⟨rfl, hshown⟩ | ⟨⟨code, -, rfl⟩, hfate⟩
      · exact .shown (hshown.mono fun earlier hsuffix =>
          (suffix_invariant earlier).drainAt hend hsuffix)
      · obtain ⟨rfl, rfl⟩ := Prod.mk.inj hend
        exact hfate

theorem pullPcm (h : Waiting start s) {source : PullSource} {budget : WorkBudget} {status : Status}
    (hpull : s.pullPcm source budget = (status, s')) : Fate start status.failed s' := by
  unfold Session.pullPcm at hpull
  split_ifs at hpull
  · exact (Prod.mk.inj hpull).2 ▸ .waiting h
  rw [h.state] at hpull
  simp only at hpull
  unfold pullNext at hpull
  rw [if_neg (not_not.mpr h.queue)] at hpull
  cases hnext : s.nextOverviewRequest with
  | mk answer t =>
      have ht := h.same (nextOverviewRequest_cases hnext).1
      rw [hnext] at hpull
      split at hpull
      · next heq =>
          obtain ⟨-, rfl⟩ := Prod.mk.inj heq
          exact (Prod.mk.inj hpull).2 ▸ .waiting ht
      · next heq =>
          obtain ⟨-, rfl⟩ := Prod.mk.inj heq
          split at hpull
          · exact ht.endInput hpull
          · exact (Prod.mk.inj hpull).2 ▸ .waiting ht
      · next heq =>
          obtain ⟨-, rfl⟩ := Prod.mk.inj heq
          simp only at hpull
          split at hpull
          · exact (Prod.mk.inj hpull).2 ▸ .waiting ht
          · split at hpull
            · exact ht.sourceFailure hpull
            · exact ht.endInput hpull
          · exact ht.sourceFailure hpull
          · exact ht.acceptPulled hpull

/-! ## Process calls -/

/-- Without queued frames the chunk loop finds nothing to complete. -/
theorem chunks (h : Waiting start s) {budget : WorkBudget} {status : Status} {state : ChunkState}
    (hrun : s.runChunks budget = (status, state)) : Waiting start (s.setChunkState state) := by
  have hkept : refreshCompletedColumns s.framesPerColumn s.endOfInput s.overview = s.overview :=
    refreshCompletedColumns_of_complete _ _ (h.accumulators ▸ h.complete)
  unfold Session.runChunks at hrun
  rw [h.queue, hkept] at hrun
  obtain ⟨-, rfl⟩ := Prod.mk.inj hrun
  exact ⟨h.state, h.endOfInput, rfl, h.settings, h.accumulators, h.completeCount, h.complete,
    h.results⟩

/-- The first of some publications shows the columns. -/
theorem announces (h : Waiting start s) (hpub : Announces s s') :
    Waiting start s' ∨ Shown start s' := by
  cases hpub with
  | rest h' => exact .inl (h.same h')
  | publish mask h' next =>
      exact .inr (((h.same h').published _ mask).mono fun _ hsuffix =>
        hsuffix.trans next.results_suffix)

theorem layers (h : Waiting start s) {budget : WorkBudget} {failed : Bool}
    (hlayers : Layers budget s s.chunkEntry failed s') : Fate start failed s' := by
  have hentry := h.same s.chunkEntry_sameTrack
  cases hlayers with
  | refused h' => exact .waiting (h.same h')
  | interrupted hrun h' => exact .waiting ((hentry.chunks hrun).same h')
  | announced hrun _ hpub =>
      rcases (hentry.chunks hrun).announces hpub with hafter | hafter
      · exact .waiting hafter
      · exact .shown hafter
  | unannounced hrun _ hpub hun =>
      rcases (hentry.chunks hrun).announces hpub with hafter | hafter
      · exact hafter.unannounced hun
      · exact .shown (hafter.same hun.results)

theorem worked (h : Waiting start s) {budget : WorkBudget} {failed : Bool}
    (hworked : Worked budget s failed s') : Fate start failed s' := by
  cases hworked with
  | layers _ hlayers => exact h.layers hlayers
  | nothing => exact .waiting h

theorem processImpl (h : Waiting start s) {budget : WorkBudget} {status : Status}
    {progress : Progress} (hprocess : s.processImpl budget = some (status, progress, s')) :
    Fate start true s' := by
  have hstarted := h.same (started_sameTrack budget s)
  cases processImpl_processed hprocess with
  | idle h' => exact .waiting (hstarted.same h')
  | cancelled _ hmove h' => exact (hstarted.transition hmove).failed.same h'
  | worked _ hworked h' => exact (hstarted.worked hworked).failed.same h'
  | completed _ hworked hdrains _ hmove h' =>
      cases hstarted.worked hworked with
      | waiting hafter => exact absurd (hafter.state.symm.trans hdrains) (by simp)
      | shown hafter => exact (Fate.shown (hafter.transition hmove)).same h'

theorem process (h : Waiting start s) {source : PullSource} {budget : WorkBudget} {status : Status}
    {progress : Progress} (hprocess : s.process source budget = some (status, progress, s')) :
    Fate start true s' := by
  unfold Session.process at hprocess
  by_cases hmode : s.config.inputMode = .pull ∧ (!s.cancelRequested) = true
  · rw [if_pos hmode] at hprocess
    cases hpull : s.pullPcm source budget with
    | mk answer t =>
        have hfate := h.pullPcm hpull
        rw [hpull] at hprocess
        cases answer with
        | error code =>
            rw [← (Prod.mk.inj (Prod.mk.inj (Option.some.inj hprocess)).2).2]
            exact hfate
        | _ =>
            cases hfate with
            | waiting ht => exact ht.processImpl hprocess
            | shown ht =>
                exact .shown (ht.mono fun earlier hsuffix =>
                  (suffix_invariant earlier).processImpl hprocess hsuffix)
  · rw [if_neg hmode] at hprocess
    exact h.processImpl hprocess

/-! ## Other calls -/

theorem activated (h : Waiting start s) (hactive : Activated s s') : Shown start s' := by
  cases hactive with
  | already hne => exact absurd h.state hne
  | first env => exact h.published .active ∅

theorem pushed (h : Waiting start s) {block : PcmBlock} {n : ℕ} (hpush : Pushed block s n s') :
    Fate start true s' := by
  cases hpush with
  | kept h' => exact .waiting (h.same h')
  | unactivated _ hun => exact h.unannounced hun
  | delivered _ _ _ hactive hdelivered =>
      exact .shown ((h.activated hactive).same hdelivered.results)

theorem ended (h : Waiting start s) {finalEnd : ℕ}
    (hended : Ended finalEnd s s') : Fate start true s' := by
  cases hended with
  | kept h' => exact .waiting (h.same h')
  | unactivated _ hun => exact h.unannounced hun
  | unended hactive hun => exact .shown ((h.activated hactive).same hun.results)
  | drained _ _ _ hactive h' =>
      refine .shown ((h.activated hactive).mono fun earlier hsuffix => ?_)
      rw [h'.results]
      exact hsuffix.trans (List.suffix_cons _ _)

theorem outcome (h : Waiting start s) {op : Op} (hseed : ∀ result, op ≠ .seedFromResult result)
    (hprocess : ∀ source budget, op ≠ .process source budget) (ho : Outcome op s s') :
    Fate start true s' := by
  cases ho with
  | kept _ h' => exact .waiting (h.same h')
  | announced _ mask h' h'' => exact .shown (((h.same h').published _ mask).same h''.results)
  | unannounced _ h' hun => exact (h.same h').unannounced hun
  | fixed =>
      exact .waiting ⟨h.state, h.endOfInput, h.queue, h.settings, h.accumulators, h.completeCount,
        h.complete, h.results⟩
  | @seeded result => exact absurd rfl (hseed result)
  | pushed hpush => exact h.pushed hpush
  | ended _ hended => exact h.ended hended
  | @processed source budget => exact absurd rfl (hprocess source budget)
  | @pulled source budget => exact absurd rfl (hprocess source budget)
  | @pulledProcessed source budget => exact absurd rfl (hprocess source budget)

/-- **One call.** A call that does not seed leaves the session waiting, or publishes its columns first,
or is refused a publication. -/
theorem step (h : Waiting start s) {call : Call}
    (hcall : ∀ result, call.op ≠ .seedFromResult result) (hstep : Session.step call s = some s') :
    Fate start true s' := by
  have hplatform := h.same (withPlatform_sameTrack call s)
  obtain ⟨⟨status, after⟩, hperform, rfl⟩ := Option.map_eq_some_iff.mp hstep
  by_cases hprocess : ∃ source budget, call.op = .process source budget
  · obtain ⟨source, budget, hop⟩ := hprocess
    rw [hop] at hperform
    obtain ⟨⟨answer, progress, t⟩, hprocess, heq⟩ := Option.map_eq_some_iff.mp hperform
    exact (Prod.mk.inj heq).2 ▸ hplatform.process hprocess
  · exact hplatform.outcome hcall (fun source budget hop => hprocess ⟨source, budget, hop⟩)
      (perform_outcome hperform)

end Waiting

/-- The call is made on a session whose columns are still marked, unless something has been published
since `start`; and it does not seed. -/
def Undisturbed (start : Session) (call : Call) (s : Session) : Prop :=
  s.results = start.results →
    s.overview.completeCount ≠ 0 ∧ ∀ result, call.op ≠ .seedFromResult result

/-- **Every run.** Along a run whose first publication is not refused, the session waits until its first
publication, which shows the columns. -/
theorem Waiting.run (h : Waiting start s) {calls : List Call}
    (hguard : Guarded (Undisturbed start) calls s) (hrun : Session.run calls s = some s') :
    Fate start true s' := by
  induction calls generalizing s with
  | nil => exact Option.some.inj hrun ▸ .waiting h
  | cons call rest ih =>
      obtain ⟨t, hstep, hrest⟩ := Option.bind_eq_some_iff.mp hrun
      have hlater := hguard.2 t hstep
      cases h.step (hguard.1 h.results).2 hstep with
      | waiting ht => exact ih ht hlater hrest
      | shown ht =>
          exact .shown (ht.mono fun _ hsuffix => hsuffix.trans (results_suffix hrest))
      | refused ht =>
          -- The marks are gone, so the run ends here.
          cases rest with
          | nil => exact Option.some.inj hrest ▸ .refused ht
          | cons next _ => exact absurd ht.1 (hlater.1 ht.2).1

end Session

end LibApta
