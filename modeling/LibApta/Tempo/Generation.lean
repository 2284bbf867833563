import LibApta.Lib.Ranking
import LibApta.Tempo.Actions

/-!
# A generation is one search

A search over the lags is spread over many process calls, and samples arrive between them. Whatever
the interleaving, the search reads only the flux it captured when it started, it passes over every lag
once and in order, and what is published stays as it was, but for its ranges, until the search commits
(`generation_one_shot`).
-/

namespace LibApta

open Ranking

/-! ## The one-shot search -/

/-- A lag with its score. -/
def LagPeak.of (score : ℕ → ℚ) (lag : ℕ) : LagPeak := ⟨score lag, lag, 0⟩

/-- The lags from the first to the last whose score is positive, in order. -/
def positivePeaks (score : ℕ → ℚ) (first last : ℕ) : List LagPeak :=
  ((List.range' first (last + 1 - first)).map (LagPeak.of score)).filter fun peak => 0 < peak.score

namespace S4State

theorem insertPeak_eq (peak : LagPeak) (best : List LagPeak) :
    insertPeak peak best = insertBest LagPeak.score peak best := by
  induction best with
  | nil => rfl
  | cons head rest ih =>
      unfold insertPeak
      rw [insertBest_cons, ih]

/-- Going over a list of lags keeps the best of those with a positive score. -/
theorem foldl_considerLag (ctx : AnalysisContext) (flux : List ℚ) (lags : List ℕ)
    (best : List LagPeak) :
    lags.foldl (considerLag ctx flux) best =
      ((lags.map (LagPeak.of (scoreLag ctx flux))).filter fun peak => 0 < peak.score).foldl
        (keepBest LagPeak.score maxTempoCandidates) best := by
  induction lags generalizing best with
  | nil => rfl
  | cons lag rest ih =>
      have hone : considerLag ctx flux best lag =
          if scoreLag ctx flux lag ≤ 0 then best
          else keepBest LagPeak.score maxTempoCandidates best (.of (scoreLag ctx flux) lag) := by
        unfold considerLag keepBest
        rw [← insertPeak_eq]
        rfl
      rw [List.foldl_cons, List.map_cons, ih, hone]
      by_cases hpositive : scoreLag ctx flux lag ≤ 0
      · rw [if_pos hpositive, List.filter_cons_of_neg]
        exact fun hlt => absurd (of_decide_eq_true hlt) (not_lt.mpr hpositive)
      · rw [if_neg hpositive, List.filter_cons_of_pos, List.foldl_cons]
        exact decide_eq_true (not_le.mp hpositive)

/-- A lag refined over a flux. -/
def refinePeak (flux : List ℚ) (peak : LagPeak) : LagPeak :=
  { peak with offset := refineLag flux peak.lag tempoRefineMaxBeats }

/-- The peaks are those of one search over the flux: of all lags within the bounds, the three with the
best positive scores, of equal scores the smaller lag first, and then refined. -/
def OneShot (ctx : AnalysisContext) (flux : List ℚ) (bounds : ℕ × ℕ) (peaks : List LagPeak) : Prop :=
  ∃ ranked, Ranks LagPeak.score (positivePeaks (scoreLag ctx flux) bounds.1 bounds.2) ranked ∧
    peaks = (ranked.take maxTempoCandidates).map (refinePeak flux)

end S4State

/-! ## What stays published -/

/-- An estimate without its ranges, and without the count of the beats in them. -/
def LocalEstimate.withoutRanges (estimate : LocalEstimate) : LocalEstimate where
  tempo := { estimate.tempo with applicabilityRange := ⟨0, 0⟩ }
  segment := { estimate.segment with applicabilityRange := ⟨0, 0⟩, beatCount := 0 }
  requestedRange := ⟨0, 0⟩
  evidenceRange := ⟨0, 0⟩
  applicabilityRange := ⟨0, 0⟩
  coverageRange := ⟨0, 0⟩

namespace S4State

/-- Two estimators publish the same estimate, but for its ranges, and the same candidates. -/
structure SamePublished (s s' : S4State) : Prop where
  estimate : s'.estimate.map LocalEstimate.withoutRanges =
    s.estimate.map LocalEstimate.withoutRanges
  candidates : s'.candidates = s.candidates
  candidateCount : s'.candidateCount = s.candidateCount

theorem SamePublished.of_eq {s s' : S4State} (hestimate : s'.estimate = s.estimate)
    (hcandidates : s'.candidates = s.candidates) (hcount : s'.candidateCount = s.candidateCount) :
    SamePublished s s' := ⟨by rw [hestimate], hcandidates, hcount⟩

theorem SamePublished.trans {s s' s'' : S4State} (h : SamePublished s s')
    (h' : SamePublished s' s'') : SamePublished s s'' :=
  ⟨h'.estimate.trans h.estimate, h'.candidates.trans h.candidates,
    h'.candidateCount.trans h.candidateCount⟩

theorem updateCachedRanges_samePublished (ctx : AnalysisContext) (s : S4State) :
    SamePublished s (updateCachedRanges ctx s) := by
  refine ⟨?_, rfl, rfl⟩
  show (s.estimate.map _).map _ = _
  rw [Option.map_map]
  rfl

/-! ## Searching -/

/-- A search has passed, in order, over the lags of a run of evidence from the first to the next one,
on a flux. -/
structure Searching (ctx : AnalysisContext) (flux : List ℚ) (run bounds : ℕ × ℕ)
    (sweep : LagSweep) : Prop where
  evidence : (sweep.evidenceFirst, sweep.evidenceEnd) = run
  bounded : (sweep.minimumLag, sweep.maximumLag) = bounds
  reached : bounds.1 ≤ sweep.nextLag
  within : sweep.nextLag - bounds.1 ≤ bounds.2 + 1 - bounds.1
  best : sweep.best =
    (List.range' bounds.1 (sweep.nextLag - bounds.1)).foldl (considerLag ctx flux) []

theorem Searching.start (ctx : AnalysisContext) (flux : List ℚ) (run bounds : ℕ × ℕ) :
    Searching ctx flux run bounds (newSweep run bounds) where
  evidence := rfl
  bounded := rfl
  reached := le_rfl
  within := by simp [newSweep]
  best := by simp [newSweep]

/-- A batch takes the search over the next lags. -/
theorem Searching.batch {ctx : AnalysisContext} {flux : List ℚ} {run bounds : ℕ × ℕ}
    {sweep : LagSweep} (h : Searching ctx flux run bounds sweep)
    (hlag : sweep.nextLag ≤ sweep.maximumLag) :
    Searching ctx flux run bounds (sweepBatch ctx flux sweep) := by
  obtain ⟨hevidence, rfl, hreached, hwithin, hbest⟩ := h
  simp only at hreached hwithin hbest
  have hnext : (sweepBatch ctx flux sweep).nextLag =
      min (sweep.nextLag + s4LagsPerStep - 1) sweep.maximumLag + 1 := rfl
  have hlast : sweep.nextLag ≤ min (sweep.nextLag + s4LagsPerStep - 1) sweep.maximumLag := by
    simp only [s4LagsPerStep]
    omega
  refine ⟨hevidence, rfl, ?_, ?_, ?_⟩
  · show sweep.minimumLag ≤ _
    omega
  · show _ - sweep.minimumLag ≤ sweep.maximumLag + 1 - sweep.minimumLag
    omega
  · show (List.range' sweep.nextLag _).foldl (considerLag ctx flux) sweep.best =
      (List.range' sweep.minimumLag _).foldl (considerLag ctx flux) []
    have hsplit : (sweepBatch ctx flux sweep).nextLag - sweep.minimumLag =
        (sweep.nextLag - sweep.minimumLag) +
          (min (sweep.nextLag + s4LagsPerStep - 1) sweep.maximumLag + 1 - sweep.nextLag) := by
      omega
    rw [hsplit, ← List.range'_append_1, List.foldl_append, ← hbest,
      Nat.add_sub_cancel' hreached]

/-- A search that has no lag left has the lags of a single search. -/
theorem Searching.oneShot {ctx : AnalysisContext} {flux : List ℚ} {run bounds : ℕ × ℕ}
    {sweep : LagSweep} (h : Searching ctx flux run bounds sweep)
    (hdone : sweep.maximumLag < sweep.nextLag) :
    OneShot ctx flux bounds (sweep.best.map (refinePeak flux)) := by
  obtain ⟨-, rfl, hreached, hwithin, hbest⟩ := h
  simp only at hreached hwithin hbest
  have hall : sweep.nextLag - sweep.minimumLag = sweep.maximumLag + 1 - sweep.minimumLag := by
    omega
  rw [hall, foldl_considerLag] at hbest
  obtain ⟨ranked, hranked, hkept⟩ := @keepBest_foldl _ _ _ LagPeak.score maxTempoCandidates
    (positivePeaks (scoreLag ctx flux) sweep.minimumLag sweep.maximumLag)
  exact ⟨ranked, hranked, congrArg _ (hbest.trans hkept)⟩

/-! ## Actions during a generation -/

variable {setting : EstimatorSetting} {s s' : S4State} {action : S4Action}

theorem processSample_rest (endOfInput : Option ℕ) (s : S4State) (frame : ℕ) (sample : ℚ) :
    ∃ ring evidence, (processSample endOfInput s frame sample).2 =
      { s with ring := ring, evidence := evidence } := by
  unfold processSample
  split_ifs
  · exact ⟨_, _, rfl⟩
  · exact ⟨_, _, rfl⟩

/-- A locked estimator stays locked. -/
theorem act_locked (h : act setting action s = some s') (hlocked : s.locked = true) :
    s'.locked = true := by
  cases action with
  | sample endOfInput frame sample =>
      obtain ⟨ring, evidence, heq⟩ := processSample_rest endOfInput s frame sample
      rw [← Option.some.inj h, heq]
      exact hlocked
  | rerange | start | reuse | lock => simp [act, hlocked] at h
  | batch | finish =>
      simp only [act] at h
      split at h
      · cases h
      · simp [hlocked] at h
  | drop view =>
      rw [act, if_pos hlocked] at h
      rw [← Option.some.inj h]
      unfold refreshLocked
      simp only
      split
      · split_ifs <;> exact hlocked
      · exact hlocked
  | revise estimate =>
      rw [act, if_pos hlocked] at h
      rw [← Option.some.inj h]
      exact hlocked
  | _ =>
      rw [← Option.some.inj h]
      exact hlocked

theorem acts_locked {actions : List S4Action} (h : acts setting actions s = some s')
    (hlocked : s.locked = true) : s'.locked = true :=
  Runs.invariant (P := fun t : S4State => t.locked = true)
    (fun _ _ _ ht _ hact => act_locked hact ht) hlocked (Runs.guarded_true _ actions s) h

/-- What every action keeps, as long as the estimator is not locked, a list of actions keeps. -/
theorem acts_keep {P : S4State → Prop} {actions : List S4Action}
    (hkeep : ∀ action ∈ actions, ∀ {t t' : S4State}, act setting action t = some t' →
      t'.locked = false → P t → P t')
    (hacts : acts setting actions s = some s') (hunlocked : s'.locked = false) (hs : P s) : P s' := by
  induction actions generalizing s with
  | nil => exact Option.some.inj hacts ▸ hs
  | cons action rest ih =>
      obtain ⟨next, hnext, hrest⟩ := Option.bind_eq_some_iff.mp hacts
      obtain ⟨hfirst, hlater⟩ := List.forall_mem_cons.mp hkeep
      refine ih hlater hrest (hfirst hnext ?_ hs)
      by_contra hlocked
      rw [acts_locked hrest (Bool.not_eq_false _ ▸ hlocked)] at hunlocked
      cases hunlocked

/-- A generation that started from a state: its search is active on the flux it captured, and what was
published then is published still. -/
structure Generating (setting : EstimatorSetting) (run bounds : ℕ × ℕ) (before s : S4State) :
    Prop where
  search : ∃ sweep, s.sweep = some sweep ∧
    ∀ view, Searching (setting.context view) s.flux run bounds sweep
  captured : s.flux = (startSweep before run bounds).flux
  published : SamePublished before s

variable {run bounds : ℕ × ℕ} {before : S4State}

theorem Generating.start (setting : EstimatorSetting) (run bounds : ℕ × ℕ) (before : S4State) :
    Generating setting run bounds before (startSweep before run bounds) where
  search := ⟨_, rfl, fun view => .start (setting.context view) _ run bounds⟩
  captured := rfl
  published := .of_eq rfl rfl rfl

/-- What leaves the search, the flux and the published estimate alone leaves the generation going. -/
theorem Generating.congr (h : Generating setting run bounds before s) (hsweep : s'.sweep = s.sweep)
    (hflux : s'.flux = s.flux) (hpublished : SamePublished s s') :
    Generating setting run bounds before s' where
  search := by
    obtain ⟨sweep, hactive, hsearch⟩ := h.search
    exact ⟨sweep, hsweep.trans hactive, hflux ▸ hsearch⟩
  captured := hflux.trans h.captured
  published := h.published.trans hpublished

theorem Generating.batch (h : Generating setting run bounds before s) {view : SessionView}
    (hact : act setting (.batch view) s = some s') : Generating setting run bounds before s' := by
  obtain ⟨sweep, hactive, hsearch⟩ := h.search
  simp only [act, hactive] at hact
  split_ifs at hact with hrefused
  obtain rfl := Option.some.inj hact
  have hlag : sweep.nextLag ≤ sweep.maximumLag := by
    simp only [Bool.or_eq_true, decide_eq_true_eq, not_or, not_lt] at hrefused
    exact hrefused.2
  exact ⟨⟨_, rfl, fun other => (hsearch other).batch hlag⟩, h.captured,
    h.published.trans (.of_eq rfl rfl rfl)⟩

/-- While the estimator is not locked, every action but the last of a generation leaves it going. -/
theorem Generating.act (h : Generating setting run bounds before s)
    (hact : act setting action s = some s') (hunlocked : s'.locked = false)
    (hfinish : ∀ view, action ≠ .finish view) : Generating setting run bounds before s' := by
  obtain ⟨sweep, hactive, -⟩ := h.search
  have hopen : s.locked = false := by
    by_contra hlocked
    rw [act_locked hact (Bool.not_eq_false _ ▸ hlocked)] at hunlocked
    cases hunlocked
  cases action with
  | sample endOfInput frame sample =>
      obtain ⟨ring, evidence, heq⟩ := processSample_rest endOfInput s frame sample
      rw [← Option.some.inj hact, heq]
      exact h.congr rfl rfl (.of_eq rfl rfl rfl)
  | rerange view =>
      rw [S4State.act, hopen, if_neg Bool.false_ne_true] at hact
      rw [← Option.some.inj hact]
      exact h.congr rfl rfl (updateCachedRanges_samePublished _ s)
  | batch view => exact h.batch hact
  | finish view => exact absurd rfl (hfinish view)
  | start | reuse => simp [S4State.act, hactive] at hact
  | drop | revise => simp [S4State.act, hopen] at hact
  | lock estimate =>
      rw [S4State.act, hopen, if_neg Bool.false_ne_true] at hact
      rw [← Option.some.inj hact] at hunlocked
      cases hunlocked
  | _ =>
      rw [← Option.some.inj hact]
      exact h.congr rfl rfl (.of_eq rfl rfl rfl)

/-- A generation goes on through every list of actions that does not end it, while the estimator is
not locked. -/
theorem Generating.acts (h : Generating setting run bounds before s) {actions : List S4Action}
    (hacts : acts setting actions s = some s') (hunlocked : s'.locked = false)
    (hfinish : ∀ action ∈ actions, ∀ view, action ≠ .finish view) :
    Generating setting run bounds before s' :=
  acts_keep (fun action hmem _ _ hact hopen ht => ht.act hact hopen (hfinish action hmem))
    hacts hunlocked h

/-! ## Ending a generation -/

theorem finishSweep_cachedPeaks (ctx : AnalysisContext) (sweep : LagSweep) (s : S4State) :
    (finishSweep ctx sweep s).cachedPeaks = sweep.best.map (refinePeak s.flux) := by
  unfold finishSweep
  simp only
  split
  · next current t heq =>
      have hfound := congrArg (S4State.cachedPeaks ∘ Prod.snd) heq.symm
      split_ifs <;> exact hfound
  · next t heq => exact congrArg (S4State.cachedPeaks ∘ Prod.snd) heq.symm

theorem cacheDerived_cachedPeaks (ctx : AnalysisContext) (bounds : ℕ × ℕ) (s : S4State) :
    (cacheDerived ctx bounds s).cachedPeaks = s.cachedPeaks := by
  unfold cacheDerived
  split <;> rfl

theorem commitEstimate_cachedPeaks (ctx : AnalysisContext) (input : EstimateInput) (s : S4State) :
    (commitEstimate ctx input s).2.cachedPeaks = s.cachedPeaks := by
  unfold commitEstimate
  split
  · rfl
  · simp only
    split_ifs <;> rfl

theorem estimateReady_cachedPeaks (ctx : AnalysisContext) (run : ℕ × ℕ) (bounds : Option (ℕ × ℕ))
    (s : S4State) : (estimateReady ctx run bounds s).2.2.cachedPeaks = s.cachedPeaks := by
  unfold estimateReady
  split_ifs
  · rfl
  cases bounds with
  | none =>
      simp only
      split
      all_goals
        next heq =>
          exact (congrArg (S4State.cachedPeaks ∘ Prod.snd) heq.symm).trans
            (commitEstimate_cachedPeaks ctx _ _)
  | some bounds =>
      have hcached := cacheDerived_cachedPeaks ctx bounds s
      simp only
      split
      all_goals
        next heq =>
          exact (congrArg (S4State.cachedPeaks ∘ Prod.snd) heq.symm).trans
            ((commitEstimate_cachedPeaks ctx _ _).trans hcached)

theorem commitSweep_cachedPeaks (ctx : AnalysisContext) (sweep : LagSweep) (s : S4State) :
    (commitSweep ctx sweep s).cachedPeaks = sweep.best.map (refinePeak s.flux) :=
  (estimateReady_cachedPeaks ctx _ _ _).trans (finishSweep_cachedPeaks ctx sweep s)

/-- In a list of actions every generation commits the lags of one search over the flux it captured, and
publishes nothing new before. -/
def OneShotGenerations (setting : EstimatorSetting) (actions : List S4Action) (s : S4State) : Prop :=
  ∀ (earlier during later : List S4Action) (run : ℕ × ℕ) (view : SessionView),
    actions = earlier ++ .start run :: (during ++ .finish view :: later) →
    (∀ action ∈ during, ∀ view, action ≠ .finish view) →
    ∀ before opened closing closed : S4State, acts setting earlier s = some before →
    act setting (.start run) before = some opened → acts setting during opened = some closing →
    act setting (.finish view) closing = some closed →
    (∃ bounds, lagBounds setting.sampleRate (run.2 - run.1) = some bounds ∧
      OneShot (setting.context view) opened.flux bounds closed.cachedPeaks) ∧
    ∀ first second : List S4Action, during = first ++ second → ∀ t, acts setting first opened = some t →
      SamePublished before t

/-- Every list of actions is made of such generations. -/
theorem generation_one_shot (setting : EstimatorSetting) (actions : List S4Action) (s : S4State) :
    OneShotGenerations setting actions s := by
  intro earlier during later run view _ hduring before opened closing closed _ hstart hacts hfinish
  rw [act] at hstart
  split_ifs at hstart
  obtain ⟨bounds, hbounds, rfl⟩ := Option.map_eq_some_iff.mp hstart
  have hopened := Generating.start setting run bounds before
  cases hactive : closing.sweep with
  | none => simp [act, hactive] at hfinish
  | some sweep =>
      simp only [act, hactive] at hfinish
      split_ifs at hfinish with hrefused
      obtain rfl := Option.some.inj hfinish
      simp only [Bool.or_eq_true, decide_eq_true_eq, not_or, not_le, Bool.not_eq_true] at hrefused
      obtain ⟨hunlocked, hdone⟩ := hrefused
      refine ⟨⟨bounds, hbounds, ?_⟩, ?_⟩
      · have hclosing := hopened.acts hacts hunlocked hduring
        obtain ⟨found, hfound, hsearch⟩ := hclosing.search
        obtain rfl := Option.some.inj (hactive.symm.trans hfound)
        rw [commitSweep_cachedPeaks, ← hclosing.captured]
        exact (hsearch view).oneShot hdone
      · rintro first second rfl t hfirst
        rw [S4State.acts, Runs.run_append, show Runs.run _ first _ = some t from hfirst] at hacts
        refine (hopened.acts hfirst ?_ fun action hmem =>
          hduring action (List.mem_append_left second hmem)).published
        by_contra hlocked
        rw [acts_locked hacts (Bool.not_eq_false _ ▸ hlocked)] at hunlocked
        cases hunlocked

end S4State

end LibApta
