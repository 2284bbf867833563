import LibApta.Session.Invariant

/-!
# What a publication and a process call leave alone

A projection of the session that does not see the marks of the overview, the platform and the
published results is kept by every publication and lifecycle transition. One that does not see the
queue, the demand and the work of the estimators either is kept by every process call.
-/

namespace LibApta

namespace Session

/-! ## Publications and transitions -/

/-- A projection that publications and lifecycle transitions leave alone. -/
structure AnnounceFrame {α : Type} (π : Session → α) : Prop where
  platform : ∀ (s : Session) overview env, π { s with overview := overview, env := env } = π s
  announced : ∀ (s : Session) state results generation,
    π { s with state := state, results := results, generation := generation } = π s

namespace AnnounceFrame

variable {α : Type} {π : Session → α}

theorem published (hπ : AnnounceFrame π) (mask : FeatureMask) (s : Session) :
    π (s.published mask) = π s := hπ.announced s s.state _ _

theorem invariant (hπ : AnnounceFrame π) (a : α) : AnnounceInvariant (fun s => π s = a) where
  env {s} env hs := (hπ.platform s s.overview env).trans hs
  forgotten {s} hs := (hπ.platform s _ s.env).trans hs
  moved {s} state hs := (hπ.announced s state s.results s.generation).trans hs
  published {s} mask hs := (hπ.published mask s).trans hs

theorem publish (hπ : AnnounceFrame π) {mask : FeatureMask} {s s' : Session} {status : Status}
    (h : s.publish mask = (status, s')) : π s' = π s := (hπ.invariant (π s)).publish h rfl

theorem transition (hπ : AnnounceFrame π) {new : SessionState} {s s' : Session} {status : Status}
    (h : s.transition new = (status, s')) : π s' = π s := (hπ.invariant (π s)).transition h rfl

end AnnounceFrame

/-! ## Process calls -/

/-- A projection that the overview layer leaves alone. -/
structure OverviewFrame {α : Type} (π : Session → α) : Prop extends AnnounceFrame π where
  queue : ∀ (s : Session) queue, π { s with queue := queue } = π s
  demand : ∀ (s : Session) focus requests, π { s with focus := focus, requests := requests } = π s

namespace OverviewFrame

variable {α : Type} {π : Session → α}

theorem chunkState (hπ : OverviewFrame π) (state : ChunkState) (s : Session) :
    π (s.setChunkState state) = π s :=
  (hπ.platform { s with queue := state.queue } state.overview state.env).trans (hπ.queue s _)

theorem reserveAccumulators (hπ : OverviewFrame π) (s : Session) :
    π s.reserveAccumulators.2 = π s := by
  obtain ⟨overview, env, heq⟩ := reserveAccumulators_columns s
  rw [heq]
  exact hπ.platform s overview env

theorem invariant (hπ : OverviewFrame π) (a : α) : OverviewInvariant (fun s => π s = a) where
  toAnnounceInvariant := hπ.toAnnounceFrame.invariant a
  chunks {s} _ hs := (hπ.chunkState _ s).trans hs
  reserveAccumulators {s} hs := (hπ.reserveAccumulators s).trans hs
  queue {s} queue hs := (hπ.queue s queue).trans hs
  demand {s} focus requests hs := (hπ.demand s focus requests).trans hs

theorem stageDemand (hπ : OverviewFrame π) (s : Session) : π s.stageDemand = π s :=
  (hπ.invariant (π s)).stageDemand rfl

theorem processBase (hπ : OverviewFrame π) {budget : WorkBudget} {progress : Progress}
    {s s' : Session} {work : Work} (h : s.processBase budget progress = (work, s')) :
    π s' = π s := (hπ.invariant (π s)).processBase h rfl

end OverviewFrame

/-- A projection that the layers of a process call leave alone, but for the demand they stage. -/
structure LayerFrame {α : Type} (π : Session → α) : Prop extends AnnounceFrame π where
  refreshDetail : ∀ s : Session, π s.refreshDetail = π s
  detailPublished : ∀ s : Session,
    π { s with detail := { s.detail with publishedSerial := s.detail.mutationSerial } } = π s
  refreshS4 : ∀ {limit steps : ℕ} {status : Status} {s s' : Session},
    s.refreshS4 limit = some (status, steps, s') → π s' = π s
  refreshS6 : ∀ {limit steps : ℕ} {status : Status} {s s' : Session},
    s.refreshS6 limit = some (status, steps, s') → π s' = π s
  s4Serials : ∀ (s : Session) mutationSerial publishedSerial,
    π { s with s4 := { s.s4 with
      mutationSerial := mutationSerial, publishedSerial := publishedSerial } } = π s
  s6Published : ∀ s : Session, π s.s6MarkPublished = π s

namespace LayerFrame

variable {α : Type} {π : Session → α}

/-- What sees neither the layers nor the publications is left alone. -/
theorem of_unseen (h : ∀ (s : Session) env state results generation overview detail s4 s6,
    π { s with
      env := env, state := state, results := results, generation := generation
      overview := overview, detail := detail, s4 := s4, s6 := s6 } = π s) : LayerFrame π where
  platform s overview env := h s env s.state s.results s.generation overview s.detail s.s4 s.s6
  announced s state results generation :=
    h s s.env state results generation s.overview s.detail s.s4 s.s6
  refreshDetail s := by
    unfold Session.refreshDetail
    split_ifs
    · exact h s s.env s.state s.results s.generation s.overview _ s.s4 s.s6
    · rfl
  detailPublished s := h s s.env s.state s.results s.generation s.overview _ s.s4 s.s6
  refreshS4 {_ _ _ s _} hrefresh := by
    obtain ⟨result, -, hresult⟩ := Option.map_eq_some_iff.mp hrefresh
    rw [← (Prod.mk.inj (Prod.mk.inj hresult).2).2]
    exact h s _ s.state s.results s.generation s.overview s.detail _ s.s6
  refreshS6 {_ _ _ s _} hrefresh := by
    unfold Session.refreshS6 at hrefresh
    cases hs6 : s.s6 with
    | none =>
        rw [hs6] at hrefresh
        rw [(Prod.mk.inj (Prod.mk.inj (Option.some.inj hrefresh)).2).2]
    | some s6 =>
        rw [hs6] at hrefresh
        obtain ⟨result, -, hresult⟩ := Option.map_eq_some_iff.mp hrefresh
        rw [← (Prod.mk.inj (Prod.mk.inj hresult).2).2]
        exact h s _ s.state s.results s.generation s.overview s.detail _ _
  s4Serials s _ _ := h s s.env s.state s.results s.generation s.overview s.detail _ s.s6
  s6Published s := h s s.env s.state s.results s.generation s.overview s.detail s.s4 _

theorem invariant (hπ : LayerFrame π) (a : α) : LayerInvariant (fun s => π s = a) where
  toAnnounceInvariant := hπ.toAnnounceFrame.invariant a
  refreshDetail {s} hs := (hπ.refreshDetail s).trans hs
  detailPublished {s} hs := (hπ.detailPublished s).trans hs
  refreshS4 h hs := (hπ.refreshS4 h).trans hs
  refreshS6 h hs := (hπ.refreshS6 h).trans hs
  s4Serials {s} mutationSerial publishedSerial hs :=
    (hπ.s4Serials s mutationSerial publishedSerial).trans hs
  s6Published {s} hs := (hπ.s6Published s).trans hs

theorem publishDetail (hπ : LayerFrame π) {work work' : Work} {s s' : Session}
    (h : s.publishDetail work = (work', s')) : π s' = π s :=
  (hπ.invariant (π s)).publishDetail h rfl

theorem publishPending (hπ : LayerFrame π) {pending : FeatureMask}
    {markPublished : Session → Session} (hmark : ∀ s, π (markPublished s) = π s)
    {work work' : Work} {s s' : Session}
    (h : s.publishPending pending markPublished work = (work', s')) : π s' = π s :=
  (hπ.invariant (π s)).publishPending (fun ht => (hmark _).trans ht) h rfl

theorem noteRangesMoved (hπ : LayerFrame π) (serial : ℕ) (ranges : FrameRange × FrameRange)
    (s : Session) : π (s.noteRangesMoved serial ranges) = π s :=
  (hπ.invariant (π s)).noteRangesMoved serial ranges rfl

end LayerFrame

/-- A projection that process calls leave alone. -/
structure ProcessFrame {α : Type} (π : Session → α) : Prop
    extends OverviewFrame π, LayerFrame π

namespace ProcessFrame

variable {α : Type} {π : Session → α}

theorem invariant (hπ : ProcessFrame π) (a : α) : ProcessInvariant (fun s => π s = a) where
  toOverviewInvariant := hπ.toOverviewFrame.invariant a
  refreshDetail := (hπ.toLayerFrame.invariant a).refreshDetail
  detailPublished := (hπ.toLayerFrame.invariant a).detailPublished
  refreshS4 := (hπ.toLayerFrame.invariant a).refreshS4
  refreshS6 := (hπ.toLayerFrame.invariant a).refreshS6
  s4Serials := (hπ.toLayerFrame.invariant a).s4Serials
  s6Published := (hπ.toLayerFrame.invariant a).s6Published

/-- A process call keeps what the frame does not see. -/
theorem processImpl (hπ : ProcessFrame π) {budget : WorkBudget} {s s' : Session} {status : Status}
    {progress : Progress} (h : s.processImpl budget = some (status, progress, s')) :
    π s' = π s := (hπ.invariant (π s)).processImpl h rfl

end ProcessFrame

/-! ## Seeding -/

/-- A projection that sees neither the columns nor the accepted frames. -/
structure SeedFrame {α : Type} (π : Session → α) : Prop where
  platform : ∀ (s : Session) overview env, π { s with overview := overview, env := env } = π s
  recorded : ∀ (s : Session) accepted, π { s with accepted := accepted } = π s

namespace SeedFrame

variable {α : Type} {π : Session → α}

theorem seedColumn (hπ : SeedFrame π) (columnIndex sampleCount : ℕ) (column : WaveformColumn)
    (s : Session) : π (s.seedColumn columnIndex sampleCount column).2 = π s := by
  obtain ⟨overview, env, heq⟩ := seedColumn_columns columnIndex sampleCount column s
  rw [heq]
  exact hπ.platform s overview env

theorem invariant (hπ : SeedFrame π) (a : α) : SeedInvariant (fun s => π s = a) where
  env {s} env hs := (hπ.platform s s.overview env).trans hs
  seedColumn {s} columnIndex sampleCount column hs :=
    (hπ.seedColumn columnIndex sampleCount column s).trans hs
  recorded {s} accepted hs := (hπ.recorded s accepted).trans hs

theorem seedFromResult (hπ : SeedFrame π) (result : Result) (s : Session) :
    π (s.seedFromResult result).2 = π s := (hπ.invariant (π s)).seedFromResult result rfl

end SeedFrame

/-! ## Host operations -/

/-- A projection that the host operations besides input, demand and processing leave alone. -/
structure HostFrame {α : Type} (π : Session → α) : Prop extends AnnounceFrame π where
  length : ∀ (s : Session) totalFrames endOfInput,
    π { s with config := { s.config with totalFrames := totalFrames }, endOfInput := endOfInput } =
      π s
  flags : ∀ (s : Session) hasPullSource cancelRequested metadata,
    π { s with
      hasPullSource := hasPullSource, cancelRequested := cancelRequested, metadata := metadata } =
      π s
  recorded : ∀ (s : Session) accepted, π { s with accepted := accepted } = π s
  estimate : ∀ (s : Session) locked estimate mutationSerial publishedSerial,
    π { s with s4 := { s.s4 with
      locked := locked, estimate := estimate
      mutationSerial := mutationSerial, publishedSerial := publishedSerial } } = π s
  revision : ∀ (s : Session) (s6 : S6State) revision revisionPending mutationSerial,
    s.s6 = some s6 → π { s with s6 := some { s6 with
      revision := revision, revisionPending := revisionPending
      mutationSerial := mutationSerial } } = π s
  s6Published : ∀ s : Session, π s.s6MarkPublished = π s

namespace HostFrame

variable {α : Type} {π : Session → α}

theorem invariant (hπ : HostFrame π) (a : α) : HostInvariant (fun s => π s = a) where
  toAnnounceInvariant := hπ.toAnnounceFrame.invariant a
  length {s} totalFrames endOfInput hs := (hπ.length s totalFrames endOfInput).trans hs
  flags {s} hasPullSource cancelRequested metadata hs :=
    (hπ.flags s hasPullSource cancelRequested metadata).trans hs
  recorded {s} accepted hs := (hπ.recorded s accepted).trans hs
  seedColumn := (SeedFrame.invariant ⟨hπ.platform, hπ.recorded⟩ a).seedColumn

theorem setSource (hπ : HostFrame π) (sourceTotal : Option ℕ) (s : Session) :
    π (s.setSource sourceTotal).2 = π s := (hπ.invariant (π s)).setSource sourceTotal rfl

theorem requestCancel (hπ : HostFrame π) (s : Session) : π s.requestCancel = π s :=
  (hπ.invariant (π s)).requestCancel rfl

theorem seedFromResult (hπ : HostFrame π) (result : Result) (s : Session) :
    π (s.seedFromResult result).2 = π s := (hπ.invariant (π s)).seedFromResult result rfl

theorem setMetadata (hπ : HostFrame π) {metadata : Option Metadata} {s s' : Session}
    {status : Status} (h : s.setMetadata metadata = (status, s')) : π s' = π s :=
  (hπ.invariant (π s)).setMetadata h rfl

theorem endInput (hπ : HostFrame π) {finalEnd : ℕ} {s s' : Session} {status : Status}
    (h : s.endInput finalEnd = (status, s')) : π s' = π s := (hπ.invariant (π s)).endInput h rfl

theorem signalEndOfInput (hπ : HostFrame π) {finalEnd : ℕ} {s s' : Session} {status : Status}
    (h : s.signalEndOfInput finalEnd = (status, s')) : π s' = π s :=
  (hπ.invariant (π s)).signalEndOfInput h rfl

theorem s4MarkPublished (hπ : HostFrame π) (s : Session) : π s.s4MarkPublished = π s :=
  hπ.estimate s s.s4.locked s.s4.estimate s.s4.mutationSerial s.s4.mutationSerial

theorem lockGridRange (hπ : HostFrame π) {range : FrameRange} {s s' : Session} {status : Status}
    (h : s.lockGridRange range = (status, s')) : π s' = π s := by
  have hlocked := (hπ.toAnnounceFrame.invariant (π s)).lockGridRange range
    (fun estimate _ => hπ.estimate s true (some (lockEstimate range estimate))
      (s.s4.mutationSerial + 1) s.s4.publishedSerial)
    (fun {t} ht => (hπ.s4MarkPublished t).trans ht) rfl
  rwa [h] at hlocked

theorem applyGridRevision (hπ : HostFrame π) {revisionId : ℕ} {s s' : Session} {status : Status}
    (h : s.applyGridRevision revisionId = (status, s')) : π s' = π s := by
  have happlied := (hπ.toAnnounceFrame.invariant (π s)).applyGridRevision revisionId
    (fun s6 hs6 estimate _ selected _ =>
      (hπ.revision { s with s4 := { s.s4 with
          estimate := some (applySegment revisionId s6.hasDynamicTempo selected estimate)
          mutationSerial := s.s4.mutationSerial + 1 } } s6 _ _ _ hs6).trans
        (hπ.estimate s s.s4.locked _ _ s.s4.publishedSerial))
    (fun {t} ht => ((hπ.s6Published _).trans (hπ.s4MarkPublished t)).trans ht) rfl
  rwa [h] at happlied

end HostFrame

/-! ## Input -/

/-- A projection that input leaves alone. -/
structure IntakeFrame {α : Type} (π : Session → α) : Prop extends AnnounceFrame π where
  accepted : ∀ (s : Session) accepted queue, π { s with accepted := accepted, queue := queue } = π s
  derived : ∀ (s : Session) derived, π (s.setDerived derived) = π s

namespace IntakeFrame

variable {α : Type} {π : Session → α}

theorem env (hπ : IntakeFrame π) (s : Session) (env : Environment) :
    π { s with env := env } = π s := hπ.platform s s.overview env

theorem prepareEstimators (hπ : IntakeFrame π) (s : Session) :
    π s.prepareEstimators.2 = π s := by
  have hmade : ∀ s4 s6 env, π { s with s4 := s4, s6 := s6, env := env } = π s :=
    fun s4 s6 env =>
      (hπ.derived { s with env := env } ⟨s.detail, s4, s6⟩).trans (hπ.env s env)
  unfold Session.prepareEstimators
  split
  · exact hmade _ _ _
  · exact hmade _ s.s6 _

theorem detail (hπ : IntakeFrame π) (s : Session) (detail : Detail) :
    π { s with detail := detail } = π s := hπ.derived s ⟨detail, s.s4, s.s6⟩

theorem feedAccepted (hπ : IntakeFrame π) (block : PcmBlock) (n : ℕ) (s : Session) :
    π (s.feedAccepted block n) = π s := by
  unfold Session.feedAccepted
  simp only
  split_ifs
  · exact (hπ.detail _ _).trans (hπ.derived s _)
  · exact hπ.derived s _

theorem invariant (hπ : IntakeFrame π) (a : α) : IntakeInvariant (fun s => π s = a) where
  toAnnounceInvariant := hπ.toAnnounceFrame.invariant a
  accepted {s} accepted queue hs := (hπ.accepted s accepted queue).trans hs
  acceptReplay {s} _ hs := (hπ.detail s _).trans hs
  prepareEstimators {s} hs := (hπ.prepareEstimators s).trans hs
  feedAccepted {s} block n hs := (hπ.feedAccepted block n s).trans hs

theorem pushPcm (hπ : IntakeFrame π) (block : PcmBlock) (s : Session) :
    π (s.pushPcm block).2.2 = π s := (hπ.invariant (π s)).pushPcm block rfl

theorem sourceFailure (hπ : IntakeFrame π) (s : Session) : π s.sourceFailure.2 = π s :=
  (hπ.invariant (π s)).sourceFailure rfl

theorem acceptPulled (hπ : IntakeFrame π) (request : FrameRange) (frames : ℕ) (block : PcmBlock)
    (s : Session) : π (s.acceptPulled request frames block).2 = π s :=
  (hπ.invariant (π s)).acceptPulled request frames block rfl

end IntakeFrame

end Session

end LibApta
