import LibApta.Lib.Runs
import LibApta.Tempo.Refresh

/-!
# The actions of the local estimator

Between two calls of the session the search for a tempo stands still, and samples may arrive. This
module takes the estimator apart into the actions it is made of: samples, the passes of a refresh down
to the single batch of lags, and what the session writes into it. A run of actions is what any
interleaving of calls does to the estimator; `refresh_acts` says that a refresh is such a run.
-/

namespace LibApta

/-! ## The setting -/

/-- What the estimators read of a session and no call changes. -/
structure EstimatorSetting where
  libm : Libm
  sampleRate : ℕ
  requestedFeatures : FeatureMask

/-- What the estimators read of a session and calls change. -/
structure SessionView where
  sessionState : SessionState
  endOfInput : Option ℕ
  focus : Option Focus

namespace AnalysisContext

/-- The part of an analysis context that no call changes. -/
def setting (ctx : AnalysisContext) : EstimatorSetting :=
  ⟨ctx.libm, ctx.sampleRate, ctx.requestedFeatures⟩

/-- The part of an analysis context that calls change. -/
def view (ctx : AnalysisContext) : SessionView := ⟨ctx.sessionState, ctx.endOfInput, ctx.focus⟩

end AnalysisContext

/-- The analysis context of a setting and a view. -/
def EstimatorSetting.context (setting : EstimatorSetting) (view : SessionView) : AnalysisContext where
  libm := setting.libm
  sampleRate := setting.sampleRate
  requestedFeatures := setting.requestedFeatures
  sessionState := view.sessionState
  endOfInput := view.endOfInput
  focus := view.focus

/-! ## Actions -/

/-- An action of the local estimator, or of the session on it, with what it reads of the session. -/
inductive S4Action where
  | allocate (bins flux : Bool)
  | sample (endOfInput : Option ℕ) (sourceFrame : ℕ) (sample : ℚ)
  | rerange (view : SessionView)
  | scan (endOfInput : Option ℕ)
  | forget
  | postpone
  | start (run : ℕ × ℕ)
  | batch (view : SessionView)
  | finish (view : SessionView)
  | reuse (view : SessionView) (run : ℕ × ℕ)
  | drop (view : SessionView)
  | nominal (tempoMillibpm : ℕ)
  | serials (mutationSerial publishedSerial : ℕ)
  | lock (estimate : LocalEstimate)
  | revise (estimate : LocalEstimate)

/-- The actions that a refresh is made of. -/
def S4Action.searches : S4Action → Bool
  | .allocate _ _ | .sample _ _ _ | .nominal _ | .serials _ _ | .lock _ | .revise _ => false
  | _ => true

namespace S4State

/-- Close a finished search and publish its lags. -/
def commitSweep (ctx : AnalysisContext) (sweep : LagSweep) (s : S4State) : S4State :=
  (estimateReady ctx (sweep.evidenceFirst, sweep.evidenceEnd)
    (some (sweep.minimumLag, sweep.maximumLag)) (finishSweep ctx sweep s)).2.2

/-- Carry out an action; `none` where the estimator does not take it. A locked estimator does not
search, and a search is not started while one is active. -/
def act (setting : EstimatorSetting) : S4Action → S4State → Option S4State
  | .allocate bins flux, s => some { s with binsAllocated := bins, fluxAllocated := flux }
  | .sample endOfInput frame sample, s => some (processSample endOfInput s frame sample).2
  | .rerange view, s =>
      if s.locked then none else some (updateCachedRanges (setting.context view) s)
  | .scan endOfInput, s => some (s.findEvidence endOfInput).2
  | .forget, s => some { s with refreshedEvidenceEnd := 0 }
  | .postpone, s => some { s with pending := true }
  | .start run, s =>
      if s.locked || s.sweep.isSome then none
      else (lagBounds setting.sampleRate (run.2 - run.1)).map (startSweep s run)
  | .batch view, s =>
      match s.sweep with
      | none => none
      | some sweep =>
          if s.locked || decide (sweep.maximumLag < sweep.nextLag) then none
          else some { s with sweep := some (sweepBatch (setting.context view) s.flux sweep) }
  | .finish view, s =>
      match s.sweep with
      | none => none
      | some sweep =>
          if s.locked || decide (sweep.nextLag ≤ sweep.maximumLag) then none
          else some (commitSweep (setting.context view) sweep s)
  | .reuse view run, s =>
      if s.locked || s.sweep.isSome then none
      else some (estimateReady (setting.context view) run none s).2.2
  | .drop view, s => if s.locked then some (refreshLocked (setting.context view) s) else none
  | .nominal tempo, s => some { s with s6NominalTempo := tempo }
  | .serials mutationSerial publishedSerial, s =>
      some { s with mutationSerial := mutationSerial, publishedSerial := publishedSerial }
  | .lock estimate, s =>
      if s.locked then none else some { s with locked := true, estimate := some estimate }
  | .revise estimate, s => if s.locked then some { s with estimate := some estimate } else none

/-- Take the estimator through a list of actions. -/
def acts (setting : EstimatorSetting) (actions : List S4Action) (s : S4State) : Option S4State :=
  Runs.run (act setting) actions s

/-- Some list of actions leads from one state to the other. -/
def Acts (setting : EstimatorSetting) (s s' : S4State) : Prop :=
  ∃ actions, acts setting actions s = some s'

namespace Acts

variable {setting : EstimatorSetting} {s s' s'' : S4State}

theorem refl (s : S4State) : Acts setting s s := ⟨[], rfl⟩

theorem trans (h : Acts setting s s') (h' : Acts setting s' s'') : Acts setting s s'' := by
  obtain ⟨first, hfirst⟩ := h
  obtain ⟨second, hsecond⟩ := h'
  refine ⟨first ++ second, ?_⟩
  rw [acts, Runs.run_append, show Runs.run (act setting) first s = some s' from hfirst]
  exact hsecond

theorem one (action : S4Action) (h : act setting action s = some s') : Acts setting s s' :=
  ⟨[action], by rw [acts, Runs.run_cons, h]; rfl⟩

end Acts

/-- Some list of the actions that a refresh is made of leads from one state to the other. -/
def Searches (setting : EstimatorSetting) (s s' : S4State) : Prop :=
  ∃ actions, (∀ action ∈ actions, action.searches = true) ∧ acts setting actions s = some s'

namespace Searches

variable {setting : EstimatorSetting} {s s' s'' : S4State}

theorem acts (h : Searches setting s s') : Acts setting s s' := by
  obtain ⟨actions, -, hacts⟩ := h
  exact ⟨actions, hacts⟩

theorem refl (s : S4State) : Searches setting s s := ⟨[], by simp, rfl⟩

theorem trans (h : Searches setting s s') (h' : Searches setting s' s'') :
    Searches setting s s'' := by
  obtain ⟨first, hfirst, hacts⟩ := h
  obtain ⟨second, hsecond, hacts'⟩ := h'
  refine ⟨first ++ second, fun action hmem => ?_, ?_⟩
  · exact (List.mem_append.mp hmem).elim (hfirst action) (hsecond action)
  · rw [S4State.acts, Runs.run_append, show Runs.run (act setting) first s = some s' from hacts]
    exact hacts'

theorem one (action : S4Action) (hsearches : action.searches = true)
    (h : act setting action s = some s') : Searches setting s s' :=
  ⟨[action], fun other hmem => List.mem_singleton.mp hmem ▸ hsearches,
    by rw [S4State.acts, Runs.run_cons, h]; rfl⟩

end Searches

/-! ## A refresh is a run of actions -/

variable {ctx : AnalysisContext} {s : S4State}

/-- The batches of a search, on the state that holds it. -/
theorem sweepLoop_searches {limit : ℕ} (fuel : ℕ) (sweep : LagSweep) (steps : ℕ) (env : Environment)
    (hunlocked : s.locked = false) :
    Searches ctx.setting { s with sweep := some sweep }
      { s with sweep := some (sweepLoop ctx s.flux limit fuel sweep steps env).1 } := by
  induction fuel generalizing sweep steps env with
  | zero => exact .refl _
  | succ fuel ih =>
      have hbatch (hlag : sweep.nextLag ≤ sweep.maximumLag) :
          Searches ctx.setting { s with sweep := some sweep }
            { s with sweep := some (sweepBatch ctx s.flux sweep) } := by
        refine .one (.batch ctx.view) rfl (if_neg ?_)
        simp [hunlocked, hlag]
      unfold sweepLoop
      split_ifs with hmore
      · simp only
        split
        · exact hbatch hmore.1
        · exact (hbatch hmore.1).trans (ih _ _ _)
      · exact .refl _

/-- The state a pass hands on, to the next pass or to its result. -/
def passState (outcome : RefreshCall ⊕ RefreshResult) : S4State :=
  outcome.elim RefreshCall.state RefreshResult.state

theorem finishPass_state (call : RefreshCall) (steps : ℕ) (outcome : Status × Bool × S4State)
    (env : Environment) : passState (finishPass call steps outcome env) = outcome.2.2 := by
  unfold finishPass
  simp only
  split_ifs <;> rfl

theorem resumeSweep_searches (call : RefreshCall) (steps : ℕ) (sweep : LagSweep) (env : Environment)
    (hunlocked : s.locked = false) :
    Searches ctx.setting { s with sweep := some sweep }
      (passState (resumeSweep ctx call steps sweep s env)) := by
  have hloop := @sweepLoop_searches ctx s call.limit (sweep.maximumLag + 1 - sweep.nextLag) sweep steps
    env hunlocked
  unfold resumeSweep
  generalize sweepLoop ctx s.flux call.limit (sweep.maximumLag + 1 - sweep.nextLag) sweep steps env
    = done at hloop ⊢
  obtain ⟨after, taken, clock⟩ := done
  simp only at hloop ⊢
  split_ifs with hmore
  · exact hloop
  · rw [finishPass_state]
    refine hloop.trans (.one (.finish ctx.view) rfl (if_neg ?_))
    simp only [hunlocked, Bool.false_or, decide_eq_true_eq]
    exact fun hle => hmore (.inl hle)

theorem refreshRun_searches (call : RefreshCall) (run : ℕ × ℕ) (hunlocked : s.locked = false)
    (hidle : s.sweep = none) :
    Searches ctx.setting s (passState (refreshRun ctx call run s)) := by
  have hforget : Searches ctx.setting s (forgetRefreshed s run.2) := by
    unfold forgetRefreshed
    split_ifs
    · exact .one .forget rfl rfl
    · exact .refl s
  have hforgotten : (forgetRefreshed s run.2).locked = false ∧
      (forgetRefreshed s run.2).sweep = none := by
    unfold forgetRefreshed
    split_ifs <;> exact ⟨hunlocked, hidle⟩
  unfold refreshRun
  simp only
  split
  · exact .refl s
  split
  · exact .refl s
  split
  · exact hforget
  split
  · exact hforget
  split
  · rw [finishPass_state]
    refine hforget.trans (.one (.reuse ctx.view run) rfl (if_neg ?_))
    simp [hforgotten]
  split
  · exact hforget.trans (.one .postpone rfl rfl)
  · next bounds hbounds _ _ _ =>
      have hstart : Searches ctx.setting (forgetRefreshed s run.2)
          (startSweep (forgetRefreshed s run.2) run bounds) := by
        refine .one (.start run) rfl ((if_neg ?_).trans (congrArg (Option.map _) hbounds))
        simp [hforgotten]
      refine hforget.trans (hstart.trans ?_)
      exact resumeSweep_searches (s := startSweep (forgetRefreshed s run.2) run bounds) call 1 _ _
        hforgotten.1

theorem refreshPass_searches (call : RefreshCall) :
    Searches ctx.setting call.state (passState (refreshPass ctx call)) := by
  unfold refreshPass
  simp only
  split
  · exact .refl _
  split
  · next hlocked => exact .one (.drop ctx.view) rfl (if_pos hlocked)
  next hunlocked =>
  have hrange : Searches ctx.setting call.state (updateCachedRanges ctx call.state) :=
    .one (.rerange ctx.view) rfl (if_neg hunlocked)
  rw [Bool.not_eq_true] at hunlocked
  refine hrange.trans ?_
  split
  · next sweep hsweep =>
      have hresume : Searches ctx.setting
          { updateCachedRanges ctx call.state with sweep := some sweep } _ :=
        resumeSweep_searches call 0 sweep call.env hunlocked
      rwa [← hsweep] at hresume
  · next hidle =>
      have hscan : Searches ctx.setting (updateCachedRanges ctx call.state)
          ((updateCachedRanges ctx call.state).findEvidence ctx.endOfInput).2 :=
        .one (.scan ctx.endOfInput) rfl rfl
      refine hscan.trans ?_
      split
      · next heq =>
          rw [heq]
          exact .refl _
      · next run t heq =>
          rw [heq]
          have ht : t = ((updateCachedRanges ctx call.state).findEvidence ctx.endOfInput).2 := by
            rw [heq]
          refine refreshRun_searches call run ?_ ?_
          · rw [ht]
            exact hunlocked
          · rw [ht]
            exact hidle

/-- A refresh is a run of the actions it is made of. -/
theorem refresh_searches {limit : ℕ} {env : Environment} {result : RefreshResult}
    (h : refresh ctx limit s env = some result) : Searches ctx.setting s result.state := by
  refine TailCall.run_elim (P := fun call => Searches ctx.setting s call.state)
    (Q := fun result => Searches ctx.setting s result.state) (fun call hcall => ?_) h (.refl s)
  have hpass : Searches ctx.setting s (passState (refreshPass ctx call)) :=
    hcall.trans (refreshPass_searches call)
  cases hout : refreshPass ctx call <;> rwa [hout] at hpass

/-- A refresh is a run of actions. -/
theorem refresh_acts {limit : ℕ} {env : Environment} {result : RefreshResult}
    (h : refresh ctx limit s env = some result) : Acts ctx.setting s result.state :=
  (refresh_searches h).acts

end S4State

end LibApta
