import LibApta.Session.Revisions
import LibApta.Tempo.Commit

/-!
# Runs of a session as actions of its estimators

Whatever calls a session receives, its local estimator goes through a list of actions. What holds of
every list of actions then holds of every run.
-/

namespace LibApta

namespace Session

/-- The local estimator has come from a base by actions, and a revision is pending only while it is
locked. -/
structure ActsFrom (base : EstimatorSetting × S4State) (setting : EstimatorSetting) (s4 : S4State)
    (s6 : Option S6State) : Prop where
  setting : setting = base.1
  pending : PendingLocked s4 s6
  acts : S4State.Acts base.1 base.2 s4

namespace ActsFrom

variable {base : EstimatorSetting × S4State} {setting : EstimatorSetting} {s4 s4' : S4State}
  {s6 s6' : Option S6State}

theorem after (h : ActsFrom base setting s4 s6) (hacts : S4State.Acts setting s4 s4')
    (hpending : PendingLocked s4' s6') : ActsFrom base setting s4' s6' :=
  ⟨h.setting, hpending, h.acts.trans (h.setting ▸ hacts)⟩

theorem one (h : ActsFrom base setting s4 s6) (action : S4Action)
    (hact : S4State.act setting action s4 = some s4') (hpending : PendingLocked s4' s6') :
    ActsFrom base setting s4' s6' := h.after (.one action hact) hpending

/-- The operations of the estimators are actions of the local one. -/
theorem estimators (base : EstimatorSetting × S4State) : EstimatorInvariant (ActsFrom base) where
  prepareLocal {setting s4 s6} features env h := by
    have hpending := @EstimatorInvariant.prepareLocal _ pendingLocked_estimators setting _ _
      features env h.pending
    have hallocate : ∃ bins flux, (S4State.prepare features s4 env).2.1 =
        { s4 with binsAllocated := bins, fluxAllocated := flux } := by
      unfold S4State.prepare
      split_ifs
      · exact ⟨_, _, rfl⟩
      split
      · exact ⟨_, _, rfl⟩
      · split <;> exact ⟨_, _, rfl⟩
    obtain ⟨bins, flux, heq⟩ := hallocate
    rw [heq] at hpending ⊢
    exact h.one (.allocate bins flux) rfl hpending
  prepareGlobal {setting _} h :=
    h.after (.refl _) (@EstimatorInvariant.prepareGlobal _ pendingLocked_estimators setting _ h.pending)
  sampleLocal {setting _ _} endOfInput frame sample h :=
    h.one (.sample endOfInput frame sample) rfl
      (@EstimatorInvariant.sampleLocal _ pendingLocked_estimators setting _ _ endOfInput frame
        sample h.pending)
  sampleGlobal {setting _ _} endOfInput frame sample h :=
    h.after (.refl _)
      (@EstimatorInvariant.sampleGlobal _ pendingLocked_estimators setting _ _ endOfInput frame
        sample h.pending)
  refreshLocal hrefresh h :=
    h.after (S4State.refresh_acts hrefresh)
      (pendingLocked_estimators.refreshLocal hrefresh h.pending)
  refreshGlobal {_ _ _ _ _ result} hestimate hlocked hrefresh h :=
    h.one (.nominal result.nominalTempo) rfl
      (pendingLocked_estimators.refreshGlobal hestimate hlocked hrefresh h.pending)
  serialsLocal {setting _ _} mutationSerial publishedSerial h :=
    h.one (.serials mutationSerial publishedSerial) rfl
      (@EstimatorInvariant.serialsLocal _ pendingLocked_estimators setting _ _ mutationSerial
        publishedSerial h.pending)
  serialsGlobal {setting _ _} publishedSerial h :=
    h.after (.refl _)
      (@EstimatorInvariant.serialsGlobal _ pendingLocked_estimators setting _ _ publishedSerial
        h.pending)

variable {s : Session}

theorem marked (h : ActsFrom base s.estimatorSetting s.s4 s.s6) :
    ActsFrom base s.s4MarkPublished.estimatorSetting s.s4MarkPublished.s4 s.s4MarkPublished.s6 :=
  (estimators base).invariant.toProcessInvariant.toLayerInvariant.s4MarkPublished h

theorem lockGridRange (range : FrameRange) (h : ActsFrom base s.estimatorSetting s.s4 s.s6) :
    ActsFrom base (s.lockGridRange range).2.estimatorSetting (s.lockGridRange range).2.s4
      (s.lockGridRange range).2.s6 := by
  cases hlocked : s.s4.locked with
  | true => rwa [lockGridRange_of_locked range hlocked]
  | false =>
      refine (estimators base).invariant.toAnnounceInvariant.lockGridRange range
        (fun estimate _ => ?_) (fun ht => marked ht) h
      have hpending : PendingLocked (s.withLock range estimate).s4 s.s6 := fun _ _ _ =>
        ⟨lockEstimate range estimate, rfl, .inl rfl⟩
      refine h.after ?_ hpending
      exact (S4State.Acts.one (.lock (lockEstimate range estimate))
        (if_neg (by simp [hlocked]))).trans (.one (.serials (s.s4.mutationSerial + 1) _) rfl)

theorem applyGridRevision (revisionId : ℕ) (h : ActsFrom base s.estimatorSetting s.s4 s.s6) :
    ActsFrom base (s.applyGridRevision revisionId).2.estimatorSetting
      (s.applyGridRevision revisionId).2.s4 (s.applyGridRevision revisionId).2.s6 := by
  cases htarget : s.revisionTarget revisionId with
  | none =>
      obtain ⟨code, heq⟩ := applyGridRevision_refused htarget
      rwa [heq]
  | some target =>
      obtain ⟨s6, estimate, selected⟩ := target
      obtain ⟨hs6, -, hpending, -⟩ := revisionTarget_some htarget
      obtain ⟨_, hlocked⟩ := h.pending s6 hs6 hpending
      refine (estimators base).invariant.toAnnounceInvariant.applyGridRevision revisionId
        (fun s6 _ estimate _ selected _ => ?_)
        (fun ht => (estimators base).invariant.s6Published (marked ht)) h
      refine h.after ?_ ?_
      · exact (S4State.Acts.one (.revise (applySegment revisionId s6.hasDynamicTempo selected
          estimate)) (if_pos hlocked.locked)).trans
            (.one (.serials (s.s4.mutationSerial + 1) _) rfl)
      · intro global hglobal hstill
        rw [← Option.some.inj hglobal] at hstill
        cases hstill

end ActsFrom

/-- A run of a session takes its local estimator through a list of actions. -/
theorem run_acts {start s s' : Session} {before calls : List Call} (hcreated : Created start)
    (hbefore : run before start = some s) (hrun : run calls s = some s') :
    s'.estimatorSetting = s.estimatorSetting ∧
      S4State.Acts s.estimatorSetting s.s4 s'.s4 := by
  have hfrom : ActsFrom (s.estimatorSetting, s.s4) s'.estimatorSetting s'.s4 s'.s6 := by
    refine (ActsFrom.estimators _).invariant.run (fun _ _ ht => ht.lockGridRange _)
      (fun _ _ ht => ht.applyGridRevision _) (Runs.guarded_true step calls s) hrun ?_
    exact ⟨rfl, run_pendingLocked hcreated hbefore, .refl _⟩
  exact ⟨hfrom.setting, hfrom.acts⟩

/-- **A cooperative search is one search.** The calls that take a session from one state to another act
on the local estimator as a list of actions, and in this list every generation, however it is spread
over the calls and whatever arrives meanwhile, commits the lags and scores of a single search, over all
lags in order, of the flux it captured when it started; until then the estimate and the candidates
that are published stay as they were, but for the ranges. -/
theorem cooperative_search_one_shot (start s s' : Session) (before calls : List Call)
    (hcreated : Created start) (hbefore : run before start = some s)
    (hrun : run calls s = some s') :
    ∃ actions, S4State.acts s.estimatorSetting actions s.s4 = some s'.s4 ∧
      S4State.OneShotGenerations s.estimatorSetting actions s.s4 := by
  obtain ⟨-, actions, hacts⟩ := run_acts hcreated hbefore hrun
  exact ⟨actions, hacts, S4State.generation_one_shot _ actions s.s4⟩

/-- The calls that feed two bins to a session and process them. -/
def twoBinCalls : List Call :=
  [plainCall (.pushPcm ⟨0, List.replicate 512 1⟩),
    plainCall (.process (fun _ _ => .wouldBlock) ⟨0, 0, 0⟩)]

/-- A session that these calls go through. -/
theorem twoBin_session : ∃ s s' : Session, Created s ∧ run twoBinCalls s = some s' := by
  obtain ⟨s, hs⟩ : ∃ s, create (smallConfig {.waveformOverview, .bpm} none) seriesLibm false
    plainPlatform = (.ok, some s) := ⟨_, rfl⟩
  have hafter : ((create (smallConfig {.waveformOverview, .bpm} none) seriesLibm false
      plainPlatform).2.bind (run twoBinCalls)).isSome := by decide +kernel
  rw [hs] at hafter
  obtain ⟨s', hrun⟩ := Option.isSome_iff_exists.mp hafter
  exact ⟨s, s', ⟨_, _, _, _, hs⟩, hrun⟩

theorem cooperative_search_two_bins : ∃ s s' : Session, Created s ∧
    run twoBinCalls s = some s' ∧
    ∃ actions, S4State.acts s.estimatorSetting actions s.s4 = some s'.s4 ∧
      S4State.OneShotGenerations s.estimatorSetting actions s.s4 := by
  obtain ⟨s, s', hcreated, hrun⟩ := twoBin_session
  exact ⟨s, s', hcreated, hrun,
    cooperative_search_one_shot s s s' [] twoBinCalls hcreated rfl hrun⟩

end Session

end LibApta
