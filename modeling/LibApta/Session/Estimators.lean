import LibApta.Session.Locking
import LibApta.Tempo.Actions

/-!
# The estimators of a session

Every call that touches the estimators does so through their own operations: they are allocated, fed
accepted samples one by one, refreshed, and marked published. What these operations keep, every run
keeps, but for the calls that write the local grid.
-/

namespace LibApta

namespace Session

/-- The part of the session that its estimators read and no call changes. -/
def estimatorSetting (s : Session) : EstimatorSetting := s.analysisContext.setting

/-- A property of the two estimators, under a setting, that their operations keep. -/
structure EstimatorInvariant (Q : EstimatorSetting → S4State → Option S6State → Prop) : Prop where
  prepareLocal : ∀ {setting : EstimatorSetting} {s4 : S4State} {s6 : Option S6State} features env,
    Q setting s4 s6 → Q setting (S4State.prepare features s4 env).2.1 s6
  prepareGlobal : ∀ {setting : EstimatorSetting} {s4 : S4State},
    Q setting s4 none → Q setting s4 (some .initial)
  sampleLocal : ∀ {setting : EstimatorSetting} {s4 : S4State} {s6 : Option S6State}
    endOfInput frame sample, Q setting s4 s6 →
      Q setting (S4State.processSample endOfInput s4 frame sample).2 s6
  sampleGlobal : ∀ {setting : EstimatorSetting} {s4 : S4State} {s6 : S6State}
    endOfInput frame sample, Q setting s4 (some s6) →
      Q setting s4 (some (S6State.processSample endOfInput s6 frame sample).2)
  refreshLocal : ∀ {ctx : AnalysisContext} {limit : ℕ} {env : Environment} {s4 : S4State}
    {s6 : Option S6State} {result : S4State.RefreshResult},
    S4State.refresh ctx limit s4 env = some result → Q ctx.setting s4 s6 →
      Q ctx.setting result.state s6
  refreshGlobal : ∀ {ctx : GlobalContext} {limit : ℕ} {env : Environment} {s4 : S4State}
    {s6 : S6State} {result : S6State.RefreshResult},
    ctx.localEstimate = s4.estimate → ctx.locallyLocked = s4.locked →
    S6State.refresh ctx limit s6 s4.s6NominalTempo env = some result →
    Q ctx.analysis.setting s4 (some s6) →
      Q ctx.analysis.setting { s4 with s6NominalTempo := result.nominalTempo } (some result.state)
  serialsLocal : ∀ {setting : EstimatorSetting} {s4 : S4State} {s6 : Option S6State}
    mutationSerial publishedSerial, Q setting s4 s6 →
      Q setting { s4 with mutationSerial := mutationSerial, publishedSerial := publishedSerial } s6
  serialsGlobal : ∀ {setting : EstimatorSetting} {s4 : S4State} {s6 : S6State} publishedSerial,
    Q setting s4 (some s6) → Q setting s4 (some { s6 with publishedSerial := publishedSerial })

namespace EstimatorInvariant

variable {Q : EstimatorSetting → S4State → Option S6State → Prop}

/-- One accepted sample goes through the two estimators in turn, or stops before one of them. -/
theorem feedSample (hQ : EstimatorInvariant Q) {setting : EstimatorSetting}
    (features : FeatureMask) (ctx : DetailContext) (frame : ℕ) (sample : ℚ) {d : Derived}
    (hd : Q setting d.s4 d.s6) :
    Q setting (Session.feedSample features ctx frame sample d).2.s4
      (Session.feedSample features ctx frame sample d).2.s6 := by
  have hfed : Q setting (if S4State.enabled features then
      S4State.processSample ctx.endOfInput d.s4 frame sample else (.ok, d.s4)).2 d.s6 := by
    split_ifs
    · exact hQ.sampleLocal ctx.endOfInput frame sample hd
    · exact hd
  unfold Session.feedSample
  simp only
  generalize (if Feature.waveformDetail ∈ features then
    Detail.processSample ctx d.detail frame sample else (.ok, d.detail)) = tiled
  generalize (if S4State.enabled features then
    S4State.processSample ctx.endOfInput d.s4 frame sample else (.ok, d.s4)) = fed at hfed ⊢
  split
  · exact hd
  split
  · exact hfed
  split
  · exact hfed
  · next s6 hs6 =>
      rw [hs6] at hfed
      show Q setting fed.2 (some _)
      split_ifs
      · exact hQ.sampleGlobal ctx.endOfInput frame sample hfed
      · exact hfed

theorem feedSamples (hQ : EstimatorInvariant Q) {setting : EstimatorSetting}
    (features : FeatureMask) (ctx : DetailContext) (samples : List ℚ) (frame : ℕ) {d : Derived}
    (hd : Q setting d.s4 d.s6) :
    Q setting (Session.feedSamples features ctx samples frame d).s4
      (Session.feedSamples features ctx samples frame d).s6 := by
  induction samples generalizing frame d with
  | nil => exact hd
  | cons sample rest ih =>
      have hfed := hQ.feedSample features ctx frame sample hd
      unfold Session.feedSamples
      split
      · next heq => exact ih _ (by rwa [heq] at hfed)
      · next heq => rwa [heq] at hfed

theorem feedAccepted (hQ : EstimatorInvariant Q) (block : PcmBlock) (n : ℕ) {s : Session}
    (hs : Q s.estimatorSetting s.s4 s.s6) :
    Q (s.feedAccepted block n).estimatorSetting (s.feedAccepted block n).s4
      (s.feedAccepted block n).s6 := by
  have hfed := hQ.feedSamples s.config.requestedFeatures s.detailContext (block.samples.take n)
    block.firstFrame (d := s.derived) hs
  unfold Session.feedAccepted
  simp only
  split_ifs <;> exact hfed

theorem prepareEstimators (hQ : EstimatorInvariant Q) {s : Session}
    (hs : Q s.estimatorSetting s.s4 s.s6) :
    Q s.prepareEstimators.2.estimatorSetting s.prepareEstimators.2.s4
      s.prepareEstimators.2.s6 := by
  have hlocal := hQ.prepareLocal s.config.requestedFeatures s.env hs
  have hglobal : ∀ s4 env, Q s.estimatorSetting s4 s.s6 →
      Q s.estimatorSetting s4 (S6State.prepare s.config.requestedFeatures s.s6 env).2.1 := by
    intro s4 env hs4
    unfold S6State.prepare
    split_ifs with hthere
    · exact hs4
    have hnone : s.s6 = none := by
      simp only [Bool.or_eq_true, not_or, Bool.not_eq_true, Option.isSome_eq_false_iff,
        Option.isNone_iff_eq_none] at hthere
      exact hthere.2
    rw [hnone] at hs4
    split
    · exact hs4
    · simp only
      split_ifs
      · exact hQ.prepareGlobal hs4
      · exact hs4
  unfold Session.prepareEstimators
  split
  · next s4 env heq =>
      rw [heq] at hlocal
      exact hglobal s4 env hlocal
  · next heq => rwa [heq] at hlocal

/-- What the operations of the estimators keep is kept by every call that does not write the local
grid. -/
theorem invariant (hQ : EstimatorInvariant Q) :
    RunInvariant fun s => Q s.estimatorSetting s.s4 s.s6 where
  env _ h := h
  forgotten h := h
  moved _ h := h
  published _ h := h
  chunks _ h := h
  reserveAccumulators {s} h := by
    obtain ⟨_, _, heq⟩ := reserveAccumulators_columns s
    rw [heq]
    exact h
  queue _ h := h
  demand _ _ h := h
  refreshDetail {s} h := by
    unfold Session.refreshDetail
    split_ifs <;> exact h
  detailPublished h := h
  refreshS4 hrefresh h := by
    obtain ⟨result, hresult, heq⟩ := Option.map_eq_some_iff.mp hrefresh
    rw [← (Prod.mk.inj (Prod.mk.inj heq).2).2]
    exact hQ.refreshLocal hresult h
  refreshS6 {_ _ _ s _} hrefresh h := by
    unfold Session.refreshS6 at hrefresh
    split at hrefresh
    · rwa [← (Prod.mk.inj (Prod.mk.inj (Option.some.inj hrefresh)).2).2]
    · next s6 hs6 =>
        obtain ⟨result, hresult, heq⟩ := Option.map_eq_some_iff.mp hrefresh
        rw [← (Prod.mk.inj (Prod.mk.inj heq).2).2]
        rw [hs6] at h
        exact @EstimatorInvariant.refreshGlobal _ hQ s.globalContext _ _ _ _ _ rfl rfl hresult h
  s4Serials mutationSerial publishedSerial h := hQ.serialsLocal mutationSerial publishedSerial h
  s6Published {s} h := by
    unfold Session.s6MarkPublished
    cases hs6 : s.s6 with
    | none => rwa [hs6] at h
    | some s6 =>
        rw [hs6] at h
        exact hQ.serialsGlobal _ h
  length _ _ h := h
  flags _ _ _ h := h
  recorded _ h := h
  seedColumn {s} columnIndex sampleCount column h := by
    obtain ⟨_, _, heq⟩ := seedColumn_columns columnIndex sampleCount column s
    rw [heq]
    exact h
  accepted _ _ h := h
  acceptReplay _ h := h
  prepareEstimators h := hQ.prepareEstimators h
  feedAccepted block n h := hQ.feedAccepted block n h
  noted _ h := h
  counters _ _ h := h

end EstimatorInvariant

end Session

end LibApta
