import LibApta.Beatgrid.Commit
import LibApta.Session.Settings

/-!
# Committed estimates are whole

The estimators commit estimates as provisional, stable or final. No refresh, lock or revision makes
one of them partial, so a grid or a tempo is either absent or there as a whole.
-/

namespace LibApta

/-! ## The local estimate -/

/-- Neither state of the estimate is partial. -/
structure LocalEstimate.Whole (estimate : LocalEstimate) : Prop where
  tempo : estimate.tempo.state ≠ .part
  segment : estimate.segment.state ≠ .part

namespace S4State

/-- The committed estimate, if there is one, is whole. -/
def Whole (s : S4State) : Prop := ∀ estimate ∈ s.estimate, estimate.Whole

variable {s : S4State} {ctx : AnalysisContext}

/-- Only the estimate matters. -/
theorem Whole.congr {s' : S4State} (h : s.Whole) (heq : s'.estimate = s.estimate) : s'.Whole := by
  unfold Whole
  rw [heq]
  exact h

theorem Whole.refreshLocked (h : s.Whole) (ctx : AnalysisContext) : (s.refreshLocked ctx).Whole := by
  unfold S4State.refreshLocked
  simp only
  split
  · split_ifs
    · intro estimate hestimate
      rw [← Option.some.inj hestimate]
      exact ⟨by simp, by simp⟩
    · exact h.congr rfl
  · exact h.congr rfl

theorem Whole.updateCachedRanges (h : s.Whole) (ctx : AnalysisContext) :
    (s.updateCachedRanges ctx).Whole := by
  intro estimate hestimate
  obtain ⟨old, hold, rfl⟩ := Option.map_eq_some_iff.mp hestimate
  exact ⟨(h old hold).tempo, (h old hold).segment⟩

theorem finishSweep_estimate (ctx : AnalysisContext) (sweep : LagSweep) (s : S4State) :
    (finishSweep ctx sweep s).estimate = s.estimate := by
  unfold finishSweep
  simp only
  split
  · next current t heq =>
      have hfound : t.estimate = s.estimate := congrArg (S4State.estimate ∘ Prod.snd) heq.symm
      split_ifs <;> exact hfound
  · next t heq => exact congrArg (S4State.estimate ∘ Prod.snd) heq.symm

theorem cacheDerived_estimate (ctx : AnalysisContext) (bounds : ℕ × ℕ) (s : S4State) :
    (cacheDerived ctx bounds s).estimate = s.estimate := by
  unfold cacheDerived
  split <;> rfl

theorem estimateState_whole (ctx : AnalysisContext) (run : ℕ × ℕ) (confidence : ℕ) :
    estimateState ctx run confidence ≠ .part := by
  unfold estimateState
  split_ifs <;> decide

theorem Whole.commitEstimate (h : s.Whole) (ctx : AnalysisContext) (input : EstimateInput) :
    (S4State.commitEstimate ctx input s).2.Whole := by
  unfold S4State.commitEstimate
  split
  · exact h
  · simp only
    split_ifs
    · exact h.congr rfl
    all_goals
      intro estimate hestimate
      rw [← Option.some.inj hestimate]
      exact ⟨estimateState_whole ctx _ _, estimateState_whole ctx _ _⟩

theorem Whole.estimateReady (h : s.Whole) (ctx : AnalysisContext) (run : ℕ × ℕ)
    (bounds : Option (ℕ × ℕ)) : (S4State.estimateReady ctx run bounds s).2.2.Whole := by
  unfold S4State.estimateReady
  split_ifs
  · exact h
  cases bounds with
  | none =>
      simp only
      split
      · next t heq => exact (congrArg Prod.snd heq : _ = t) ▸ h.commitEstimate ctx _
      · next t _ heq => exact (congrArg Prod.snd heq : _ = t) ▸ h.commitEstimate ctx _
  | some bounds =>
      have hcached := h.congr (cacheDerived_estimate ctx bounds s)
      simp only
      split
      · next t heq => exact (congrArg Prod.snd heq : _ = t) ▸ hcached.commitEstimate ctx _
      · next t _ heq => exact (congrArg Prod.snd heq : _ = t) ▸ hcached.commitEstimate ctx _

/-- A pass hands a whole estimate on, to the next pass or to its result. -/
abbrev PassWhole (outcome : RefreshCall ⊕ RefreshResult) : Prop :=
  Sum.elim (fun call => call.state.Whole) (fun result => result.state.Whole) outcome

theorem finishPass_whole {call : RefreshCall} {steps : ℕ} {outcome : Status × Bool × S4State}
    {env : Environment} (h : outcome.2.2.Whole) : PassWhole (finishPass call steps outcome env) := by
  unfold finishPass
  simp only
  split_ifs <;> exact h

theorem resumeSweep_whole {call : RefreshCall} {steps : ℕ} {sweep : LagSweep} {env : Environment}
    (h : s.Whole) : PassWhole (resumeSweep ctx call steps sweep s env) := by
  unfold resumeSweep
  simp only
  split_ifs
  · exact h.congr rfl
  · exact finishPass_whole ((h.congr (finishSweep_estimate ctx _ s)).estimateReady ctx _ _)

theorem refreshRun_whole {call : RefreshCall} {run : ℕ × ℕ} (h : s.Whole) :
    PassWhole (refreshRun ctx call run s) := by
  have hforget : (forgetRefreshed s run.2).Whole := by
    unfold forgetRefreshed
    split_ifs <;> exact h.congr rfl
  unfold refreshRun
  simp only
  split
  · exact h
  split
  · exact h
  split
  · exact hforget
  split
  · exact hforget
  split
  · exact finishPass_whole (hforget.estimateReady ctx _ _)
  split
  · exact hforget.congr rfl
  · exact resumeSweep_whole (hforget.congr rfl)

theorem refreshPass_whole {call : RefreshCall} (h : call.state.Whole) :
    PassWhole (refreshPass ctx call) := by
  unfold refreshPass
  simp only
  split_ifs
  · exact h
  · exact h.refreshLocked ctx
  have hranges := h.updateCachedRanges ctx
  split
  · exact resumeSweep_whole hranges
  split
  · next t heq => exact hranges.congr (congrArg (S4State.estimate ∘ Prod.snd) heq.symm)
  · next run t heq =>
      exact refreshRun_whole (hranges.congr (congrArg (S4State.estimate ∘ Prod.snd) heq.symm))

theorem Whole.refresh (h : s.Whole) {limit : ℕ} {env : Environment} {result : RefreshResult}
    (hrefresh : S4State.refresh ctx limit s env = some result) : result.state.Whole :=
  TailCall.run_elim (fun _ hcall => refreshPass_whole hcall) hrefresh h

theorem Whole.prepare (h : s.Whole) (features : FeatureMask) (env : Environment) :
    (S4State.prepare features s env).2.1.Whole := by
  unfold S4State.prepare
  split_ifs
  · exact h
  split
  · exact h
  · split <;> exact h.congr rfl

theorem Whole.processSample (h : s.Whole) (endOfInput : Option ℕ) (frame : ℕ) (sample : ℚ) :
    (S4State.processSample endOfInput s frame sample).2.Whole := by
  unfold S4State.processSample
  split_ifs
  · exact h
  · exact h.congr rfl

end S4State

/-! ## The global grid -/

namespace S6State

/-- The state of the committed grid, if there is one, is not partial. -/
def Whole (s : S6State) : Prop := s.state ≠ .part

variable {s : S6State} {ctx : GlobalContext}

theorem committedState_whole (ctx : AnalysisContext) (run : ℕ × ℕ) (confidence : ℕ) :
    committedState ctx run confidence ≠ .part := by
  unfold committedState
  simp only
  split_ifs <;> decide

/-- What a commit leaves has the state of its draft. -/
theorem commitGrid_whole (ctx : GlobalContext) (sweep : WindowSweep) (s : S6State) :
    (commitGrid ctx sweep s).2.1.Whole := by
  have hstate : draftState ctx sweep ≠ .part := committedState_whole ctx.analysis _ _
  rw [commitGrid_eq]
  split_ifs <;> exact hstate

theorem Whole.refresh (h : s.Whole) {limit nominalTempo : ℕ} {env : Environment}
    {result : RefreshResult}
    (hrefresh : S6State.refresh ctx limit s nominalTempo env = some result) :
    result.state.Whole := by
  refine refresh_invariant ?_ (fun sweep _ => commitGrid_whole ctx sweep _) hrefresh h
  rintro _ _ ⟨_, _, _, _, _, rfl⟩ hwhole
  exact hwhole

end S6State

end LibApta
