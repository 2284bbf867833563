import LibApta.Session.Effects

/-!
# Properties that the calls keep

A property of the session that survives what a publication writes survives every publication and
every lifecycle transition; one that survives the elementary steps of the layers survives every
process call, and so on for the other calls of the public interface.
-/

namespace LibApta

namespace Session

/-! ## Publications and transitions -/

/-- A property that publications and lifecycle transitions keep. -/
structure AnnounceInvariant (P : Session → Prop) : Prop where
  env : ∀ {s : Session} env, P s → P { s with env := env }
  forgotten : ∀ {s : Session}, P s → P s.markPublicationPending
  moved : ∀ {s : Session} state, P s → P { s with state := state }
  published : ∀ {s : Session} mask, P s → P (s.published mask)

namespace AnnounceInvariant

variable {P : Session → Prop}

theorem unpublished (hP : AnnounceInvariant P) {s s' : Session} (h : s.Unpublished s')
    (hs : P s) : P s' := by
  obtain ⟨env, rfl | rfl⟩ := h
  · exact hP.env env hs
  · exact hP.env env (hP.forgotten hs)

theorem publish (hP : AnnounceInvariant P) {mask : FeatureMask} {s s' : Session} {status : Status}
    (h : s.publish mask = (status, s')) (hs : P s) : P s' := by
  rcases publish_cases h with ⟨-, env, rfl⟩ | ⟨-, hun⟩
  · exact hP.env env (hP.published mask hs)
  · exact hP.unpublished hun hs

theorem transition (hP : AnnounceInvariant P) {new : SessionState} {s s' : Session}
    {status : Status} (h : s.transition new = (status, s')) (hs : P s) : P s' := by
  rcases transition_cases h with ⟨-, -, rfl⟩ | ⟨-, -, env, rfl⟩ | ⟨-, hun⟩
  · exact hs
  · exact hP.env env (hP.published ∅ (hP.moved new hs))
  · exact hP.unpublished hun hs

theorem activate (hP : AnnounceInvariant P) {s s' : Session} {status : Status}
    (h : s.activate = (status, s')) (hs : P s) : P s' := by
  unfold Session.activate at h
  split_ifs at h
  · exact hP.transition h hs
  · rwa [← (Prod.mk.inj h).2]

/-- A lock that is taken back leaves the session as it was, up to its marks. -/
theorem lockGridRange (hP : AnnounceInvariant P) (range : FrameRange) {s : Session}
    (hlock : ∀ estimate ∈ s.s4.estimate, P (s.withLock range estimate))
    (hmark : ∀ {t : Session}, P t → P t.s4MarkPublished) (hs : P s) :
    P (s.lockGridRange range).2 := by
  rcases lockGridRange_cases range s with
    ⟨_, heq, -⟩ | ⟨estimate, answer, after, hestimate, -, hpub, heq⟩ <;> rw [heq]
  · exact hs
  · split_ifs with hfailed
    · rcases publish_cases hpub with ⟨rfl, -⟩ | ⟨-, env, rfl | rfl⟩
      · cases hfailed
      · exact hP.env env hs
      · exact hP.env env (hP.forgotten hs)
    · exact hmark (hP.publish hpub (hlock estimate hestimate))

theorem applyGridRevision (hP : AnnounceInvariant P) (revisionId : ℕ) {s : Session}
    (happly : ∀ s6 ∈ s.s6, ∀ estimate ∈ s.s4.estimate, ∀ selected ∈ s6.segments,
      P (s.withRevision revisionId s6 selected estimate))
    (hmark : ∀ {t : Session}, P t → P t.s4MarkPublished.s6MarkPublished) (hs : P s) :
    P (s.applyGridRevision revisionId).2 := by
  rcases applyGridRevision_cases revisionId s with
    ⟨_, heq⟩ | ⟨s6, estimate, selected, answer, after, hs6, hestimate, hselected, -, -, hpub, heq⟩ <;>
    rw [heq]
  · exact hs
  · have hafter := hP.publish hpub (happly s6 hs6 estimate hestimate selected hselected)
    split_ifs
    · exact hafter
    · exact hmark hafter

end AnnounceInvariant

/-! ## Process calls -/

theorem reserveAccumulators_columns (s : Session) :
    ∃ overview env, s.reserveAccumulators.2 = { s with overview := overview, env := env } := by
  unfold reserveAccumulators
  simp only
  split_ifs
  all_goals exact ⟨_, _, rfl⟩

/-- A property that the overview layer keeps. -/
structure OverviewInvariant (P : Session → Prop) : Prop extends AnnounceInvariant P where
  chunks : ∀ {s : Session} budget, P s → P (s.setChunkState (s.runChunks budget).2)
  reserveAccumulators : ∀ {s : Session}, P s → P s.reserveAccumulators.2
  queue : ∀ {s : Session} queue, P s → P { s with queue := queue }
  demand : ∀ {s : Session} focus requests, P s → P { s with focus := focus, requests := requests }

namespace OverviewInvariant

variable {P : Session → Prop}

theorem requests (hP : OverviewInvariant P) {s : Session} (requests : List Request) (hs : P s) :
    P { s with requests := requests } := hP.demand s.focus requests hs

theorem stageDemand (hP : OverviewInvariant P) {s : Session} (hs : P s) : P s.stageDemand :=
  hP.queue _ (hP.demand _ _ hs)

theorem processBase (hP : OverviewInvariant P) {budget : WorkBudget} {progress : Progress}
    {s s' : Session} {work : Work} (h : s.processBase budget progress = (work, s')) (hs : P s) :
    P s' := by
  cases hrun : s.runChunks budget with
  | mk status state =>
      have hchunk : P (s.setChunkState state) := by
        have hchunks := hP.chunks budget hs
        rwa [hrun] at hchunks
      have hupdated : P (s.setChunkState state).updateRequestStates := hP.requests _ hchunk
      cases hfail : status.failed
      · obtain ⟨base, progress', -, heq⟩ := processBase_eq progress hrun hfail
        rw [heq] at h
        split_ifs at h
        · cases hpub : (s.setChunkState state).updateRequestStates.publish {.waveformOverview} with
          | mk answer after =>
              rw [hpub] at h
              have hafter := hP.publish hpub hupdated
              cases answer <;> obtain ⟨-, rfl⟩ := Prod.mk.inj h <;> exact hafter
        · obtain ⟨-, rfl⟩ := Prod.mk.inj h
          exact hupdated
      · unfold Session.processBase at h
        rw [hrun] at h
        cases status with
        | error code =>
            obtain ⟨-, rfl⟩ := Prod.mk.inj h
            exact hchunk
        | _ => exact absurd hfail (by simp [Status.failed])

end OverviewInvariant

/-- A property that the layers of a process call keep, but for the demand they stage. -/
structure LayerInvariant (P : Session → Prop) : Prop extends AnnounceInvariant P where
  refreshDetail : ∀ {s : Session}, P s → P s.refreshDetail
  detailPublished : ∀ {s : Session}, P s →
    P { s with detail := { s.detail with publishedSerial := s.detail.mutationSerial } }
  refreshS4 : ∀ {limit steps : ℕ} {status : Status} {s s' : Session},
    s.refreshS4 limit = some (status, steps, s') → P s → P s'
  refreshS6 : ∀ {limit steps : ℕ} {status : Status} {s s' : Session},
    s.refreshS6 limit = some (status, steps, s') → P s → P s'
  s4Serials : ∀ {s : Session} mutationSerial publishedSerial, P s →
    P { s with s4 := { s.s4 with
      mutationSerial := mutationSerial, publishedSerial := publishedSerial } }
  s6Published : ∀ {s : Session}, P s → P s.s6MarkPublished

namespace LayerInvariant

variable {P : Session → Prop}

theorem s4MarkPublished (hP : LayerInvariant P) {s : Session} (hs : P s) : P s.s4MarkPublished :=
  hP.s4Serials s.s4.mutationSerial s.s4.mutationSerial hs

theorem publishDetail (hP : LayerInvariant P) {work work' : Work} {s s' : Session}
    (h : s.publishDetail work = (work', s')) (hs : P s) : P s' := by
  unfold Session.publishDetail at h
  simp only at h
  split_ifs at h
  · obtain ⟨-, rfl⟩ := Prod.mk.inj h
    exact hP.detailPublished hs
  · cases hpub : s.publish {.waveformDetail} with
    | mk answer after =>
        rw [hpub] at h
        have hafter := hP.publish hpub hs
        cases answer <;> obtain ⟨-, rfl⟩ := Prod.mk.inj h
        case error => exact hafter
        all_goals exact hP.detailPublished hafter

theorem publishPending (hP : LayerInvariant P) {pending : FeatureMask}
    {markPublished : Session → Session} (hmark : ∀ {s}, P s → P (markPublished s))
    {work work' : Work} {s s' : Session}
    (h : s.publishPending pending markPublished work = (work', s')) (hs : P s) : P s' := by
  unfold Session.publishPending at h
  split_ifs at h
  · rwa [← (Prod.mk.inj h).2]
  · cases hpub : s.publish pending with
    | mk answer after =>
        rw [hpub] at h
        have hafter := hP.publish hpub hs
        cases answer <;> obtain ⟨-, rfl⟩ := Prod.mk.inj h
        case error => exact hafter
        all_goals exact hmark hafter

theorem noteRangesMoved (hP : LayerInvariant P) (serial : ℕ) (ranges : FrameRange × FrameRange)
    {s : Session} (hs : P s) : P (s.noteRangesMoved serial ranges) := by
  unfold Session.noteRangesMoved
  split_ifs
  · exact hP.s4Serials _ s.s4.publishedSerial hs
  · exact hs

end LayerInvariant

/-- A property that process calls keep. -/
structure ProcessInvariant (P : Session → Prop) : Prop
    extends OverviewInvariant P, LayerInvariant P

namespace ProcessInvariant

variable {P : Session → Prop}

theorem finishDetail (hP : ProcessInvariant P) {changed : Bool} {selected : ℕ} {work work' : Work}
    {s s' : Session} (h : s.finishDetail changed selected work = (work', s')) (hs : P s) :
    P s' := by
  unfold Session.finishDetail at h
  simp only at h
  have hnoted : P (if work.didWork then { s with requests := noteChoice selected s.requests }
      else s).updateDetailRequestStates := by
    refine hP.requests _ ?_
    split_ifs
    · exact hP.requests _ hs
    · exact hs
  split_ifs at h hnoted
  all_goals first
    | exact hP.publishDetail h hnoted
    | (obtain ⟨-, rfl⟩ := Prod.mk.inj h
       exact hnoted)

theorem processDetail (hP : ProcessInvariant P) {budget : WorkBudget} {progress : Progress}
    {s s' : Session} {work : Work} (h : s.processDetail budget progress = (work, s')) (hs : P s) :
    P s' := by
  unfold Session.processDetail at h
  simp only at h
  have hstaged : P s.refreshDetail.stageDemand.reserveAccumulators.2 :=
    hP.reserveAccumulators (hP.stageDemand (hP.refreshDetail hs))
  have hrestored : ∀ {staged : Session}, P staged → P (s.refreshDetail.restoreDemand staged) :=
    fun hstaged => hP.demand _ _ hstaged
  cases hreserve : s.refreshDetail.stageDemand.reserveAccumulators with
  | mk status staged =>
      rw [hreserve] at h hstaged
      cases hbase : staged.raisePriorities.processBase budget progress with
      | mk base after =>
          have hafter : P (s.refreshDetail.restoreDemand after) :=
            hrestored (hP.processBase hbase (hP.requests _ hstaged))
          cases status with
          | error code =>
              obtain ⟨-, rfl⟩ := Prod.mk.inj h
              exact hrestored hstaged
          | _ =>
              simp only [hbase] at h
              split_ifs at h
              · obtain ⟨-, rfl⟩ := Prod.mk.inj h
                exact hafter
              · exact hP.finishDetail h hafter

theorem processS4 (hP : ProcessInvariant P) {budget : WorkBudget} {progress : Progress}
    {s s' : Session} {work : Work} (h : s.processS4 budget progress = some (work, s')) (hs : P s) :
    P s' := by
  unfold Session.processS4 at h
  cases hdetail : (s.demandOverview s4Features).processDetail budget progress with
  | mk base after =>
      rw [hdetail] at h
      have hafter : P (s.restoreDemand after) :=
        hP.demand _ _ (hP.processDetail hdetail (hP.demand _ _ hs))
      simp only at h
      split_ifs at h
      · obtain ⟨-, rfl⟩ := Prod.mk.inj (Option.some.inj h)
        exact hafter
      · obtain ⟨⟨status, steps, refreshed⟩, hrefresh, h⟩ := Option.map_eq_some_iff.mp h
        have hrefreshed : P refreshed := hP.refreshS4 hrefresh (hP.env _ hafter)
        simp only at h
        split_ifs at h
        · obtain ⟨-, rfl⟩ := Prod.mk.inj h
          exact hrefreshed
        · exact hP.publishPending hP.s4MarkPublished h (hP.noteRangesMoved _ _ hrefreshed)

theorem processS6 (hP : ProcessInvariant P) {budget : WorkBudget} {progress : Progress}
    {s s' : Session} {work : Work} (h : s.processS6 budget progress = some (work, s')) (hs : P s) :
    P s' := by
  unfold Session.processS6 at h
  obtain ⟨⟨base, after⟩, hbase, h⟩ := Option.bind_eq_some_iff.mp h
  have hafter := hP.processS4 hbase hs
  simp only at h
  split_ifs at h
  · obtain ⟨-, rfl⟩ := Prod.mk.inj (Option.some.inj h)
    exact hafter
  · obtain ⟨⟨status, steps, refreshed⟩, hrefresh, h⟩ := Option.map_eq_some_iff.mp h
    have hrefreshed : P refreshed := hP.refreshS6 hrefresh (hP.env _ hafter)
    simp only at h
    split_ifs at h
    · obtain ⟨-, rfl⟩ := Prod.mk.inj h
      exact hrefreshed
    · exact hP.publishPending hP.s6Published h hrefreshed

theorem runLayers (hP : ProcessInvariant P) {budget : WorkBudget} {progress : Progress}
    {s s' : Session} {work : Work} (h : s.runLayers budget progress = some (work, s')) (hs : P s) :
    P s' := by
  unfold Session.runLayers at h
  split_ifs at h
  · exact hP.processS6 h hs
  · rwa [← (Prod.mk.inj (Option.some.inj h)).2]

/-- A process call keeps what its layers keep. -/
theorem processImpl (hP : ProcessInvariant P) {budget : WorkBudget} {s s' : Session}
    {status : Status} {progress : Progress}
    (h : s.processImpl budget = some (status, progress, s')) (hs : P s) : P s' := by
  obtain ⟨u, rfl, hu⟩ := processImpl_cases h
  have hstarted : P (s.started budget) := hP.env _ hs
  refine hP.env _ ?_
  cases hu with
  | idle => exact hstarted
  | cancelled _ h => exact hP.transition h hstarted
  | worked _ _ hrun => exact hP.runLayers hrun hstarted
  | completed _ _ hrun _ _ _ hdone => exact hP.transition hdone (hP.runLayers hrun hstarted)

end ProcessInvariant

/-! ## Seeding -/

theorem seedColumn_columns (columnIndex sampleCount : ℕ) (column : WaveformColumn) (s : Session) :
    ∃ overview env, (s.seedColumn columnIndex sampleCount column).2 =
      { s with overview := overview, env := env } := by
  unfold seedColumn
  simp only
  split
  · exact ⟨_, _, rfl⟩
  · exact ⟨_, _, rfl⟩

/-- A property that seeding keeps. -/
structure SeedInvariant (P : Session → Prop) : Prop where
  env : ∀ {s : Session} env, P s → P { s with env := env }
  seedColumn : ∀ {s : Session} columnIndex sampleCount column, P s →
    P (s.seedColumn columnIndex sampleCount column).2
  recorded : ∀ {s : Session} accepted, P s → P { s with accepted := accepted }

namespace SeedInvariant

variable {P : Session → Prop}

theorem seedColumns (hP : SeedInvariant P) (columns : List WaveformColumn) (columnIndex : ℕ)
    {s : Session} (hs : P s) : P (Session.seedColumns columns columnIndex s).2 := by
  induction columns generalizing columnIndex s with
  | nil => exact hs
  | cons column rest ih =>
      unfold Session.seedColumns
      split_ifs
      · exact ih _ hs
      have hone := hP.seedColumn columnIndex (s.seededColumnFrames columnIndex) column hs
      split
      · next t heq => exact ih _ (by rwa [heq] at hone)
      · next status t _ heq => rwa [heq] at hone

theorem seedSpans (hP : SeedInvariant P) (spans : List WaveformSpan) {s : Session} (hs : P s) :
    P (Session.seedSpans spans s).2 := by
  induction spans generalizing s with
  | nil => exact hs
  | cons span rest ih =>
      have hone : P (s.seedSpan span).2 := by
        have hcolumns := hP.seedColumns span.columns span.firstColumnIndex hs
        unfold Session.seedSpan
        cases hseed : Session.seedColumns span.columns span.firstColumnIndex s with
        | mk status t =>
            rw [hseed] at hcolumns
            have hrecorded : ∀ accepted env, P { t with accepted := accepted, env := env } :=
              fun accepted env => hP.recorded accepted (hP.env env hcolumns)
            cases status with
            | ok =>
                simp only
                split
                · exact hrecorded _ _
                · exact hrecorded _ _
            | _ => exact hcolumns
      unfold Session.seedSpans
      split
      · next t heq => exact ih (by rwa [heq] at hone)
      · next status t _ heq => rwa [heq] at hone

theorem seedFromResult (hP : SeedInvariant P) (result : Result) {s : Session} (hs : P s) :
    P (s.seedFromResult result).2 := by
  unfold Session.seedFromResult
  split
  · exact hs
  · exact hP.seedSpans _ hs

end SeedInvariant

/-! ## Host operations -/

/-- A property that the host operations besides input, demand, processing and the two that write the
local grid keep. -/
structure HostInvariant (P : Session → Prop) : Prop extends AnnounceInvariant P where
  length : ∀ {s : Session} totalFrames endOfInput, P s →
    P { s with config := { s.config with totalFrames := totalFrames }, endOfInput := endOfInput }
  flags : ∀ {s : Session} hasPullSource cancelRequested metadata, P s →
    P { s with
      hasPullSource := hasPullSource, cancelRequested := cancelRequested, metadata := metadata }
  recorded : ∀ {s : Session} accepted, P s → P { s with accepted := accepted }
  seedColumn : ∀ {s : Session} columnIndex sampleCount column, P s →
    P (s.seedColumn columnIndex sampleCount column).2

namespace HostInvariant

variable {P : Session → Prop}

theorem setSource (hP : HostInvariant P) (sourceTotal : Option ℕ) {s : Session} (hs : P s) :
    P (s.setSource sourceTotal).2 := by
  have hattach : P { s with hasPullSource := true } := hP.flags true s.cancelRequested s.metadata hs
  unfold Session.setSource
  split_ifs
  · exact hs
  · exact hs
  cases sourceTotal with
  | none => exact hattach
  | some total =>
      simp only
      split_ifs
      · exact hs
      · exact hP.length (some total) s.endOfInput hattach

theorem requestCancel (hP : HostInvariant P) {s : Session} (hs : P s) : P s.requestCancel :=
  hP.flags s.hasPullSource true s.metadata hs

theorem seedFromResult (hP : HostInvariant P) (result : Result) {s : Session} (hs : P s) :
    P (s.seedFromResult result).2 :=
  SeedInvariant.seedFromResult ⟨hP.env, hP.seedColumn, hP.recorded⟩ result hs

theorem setMetadata (hP : HostInvariant P) {metadata : Option Metadata} {s s' : Session}
    {status : Status} (h : s.setMetadata metadata = (status, s')) (hs : P s) : P s' := by
  have hset : ∀ {t : Session} metadata, P t → P { t with metadata := metadata } :=
    fun metadata ht => hP.flags _ _ metadata ht
  unfold Session.setMetadata at h
  split_ifs at h
  · rwa [← (Prod.mk.inj h).2]
  · rwa [← (Prod.mk.inj h).2]
  cases hreserve : reserveMetadata metadata s.env with
  | mk granted env =>
      have henv : P { s with env := env } := hP.env env hs
      rw [hreserve] at h
      cases granted
      · rwa [← (Prod.mk.inj h).2]
      cases hpub : publish ∅ { s with env := env, metadata := metadata } with
      | mk answer after =>
          have hafter : P after := hP.publish hpub (hset metadata henv)
          simp only [hpub] at h
          cases answer <;> rw [← (Prod.mk.inj h).2]
          case error => exact hset s.metadata hafter
          all_goals exact hafter

theorem ended (hP : HostInvariant P) (finalEnd : ℕ) {s : Session} (hs : P s) :
    P (s.ended finalEnd) :=
  hP.length (some finalEnd) (some finalEnd) hs

theorem drainAt (hP : HostInvariant P) {finalEnd : ℕ} {s s' : Session} {status : Status}
    (h : s.drainAt finalEnd = (status, s')) (hs : P s) : P s' := by
  unfold Session.drainAt at h
  cases hmove : (s.ended finalEnd).transition .draining with
  | mk answer after =>
      have hafter : P after := hP.transition hmove (hP.ended finalEnd hs)
      rw [hmove] at h
      cases answer <;> rw [← (Prod.mk.inj h).2]
      case error => exact hP.length s.config.totalFrames none hafter
      all_goals exact hafter

theorem endInput (hP : HostInvariant P) {finalEnd : ℕ} {s s' : Session} {status : Status}
    (h : s.endInput finalEnd = (status, s')) (hs : P s) : P s' := by
  have hkept : ∀ {answer : Status} {t : Session}, (answer, t) = (status, s') → P t → P s' :=
    fun heq ht => by rwa [← (Prod.mk.inj heq).2]
  unfold Session.endInput at h
  cases hend : s.endOfInput with
  | some old =>
      rw [hend] at h
      exact hkept h hs
  | none =>
      rw [hend] at h
      simp only at h
      split_ifs at h
      · exact hkept h hs
      · exact hkept h hs
      cases hstate : s.state <;> rw [hstate] at h
      case created | active =>
        cases hactivate : s.activate with
        | mk answer t =>
            have ht := hP.activate hactivate hs
            simp only [hactivate] at h
            cases answer
            case error => exact hkept h ht
            all_goals exact hP.drainAt h ht
      all_goals exact hkept h hs

theorem signalEndOfInput (hP : HostInvariant P) {finalEnd : ℕ} {s s' : Session} {status : Status}
    (h : s.signalEndOfInput finalEnd = (status, s')) (hs : P s) : P s' := by
  unfold Session.signalEndOfInput at h
  split_ifs at h
  · rwa [← (Prod.mk.inj h).2]
  · rwa [← (Prod.mk.inj h).2]
  · exact hP.endInput h hs

end HostInvariant

/-! ## Input -/

/-- A property that input keeps. -/
structure IntakeInvariant (P : Session → Prop) : Prop extends AnnounceInvariant P where
  accepted : ∀ {s : Session} accepted queue, P s →
    P { s with accepted := accepted, queue := queue }
  acceptReplay : ∀ {s : Session} block, P s → P (s.acceptReplay block).2.2
  prepareEstimators : ∀ {s : Session}, P s → P s.prepareEstimators.2
  feedAccepted : ∀ {s : Session} block n, P s → P (s.feedAccepted block n)

namespace IntakeInvariant

variable {P : Session → Prop}

theorem acceptPcmBase (hP : IntakeInvariant P) (block : PcmBlock) {s : Session} (hs : P s) :
    P (s.acceptPcmBase block).2.2 := by
  have hmade : ∀ accepted queue env, P { s with accepted := accepted, queue := queue, env := env } :=
    fun accepted queue env => hP.accepted accepted queue (hP.env env hs)
  unfold Session.acceptPcmBase
  simp only
  split_ifs
  · exact hs
  · exact hs
  cases s.accepted.ensureCapacity (s.accepted.ranges.length + 1) s.env with
  | mk status rest =>
      obtain ⟨table, env⟩ := rest
      cases status with
      | ok =>
          simp only
          split
          · exact hmade _ s.queue _
          · exact hmade _ _ _
      | _ => exact hmade _ s.queue _

theorem acceptPcm (hP : IntakeInvariant P) (block : PcmBlock) {s : Session} (hs : P s) :
    P (s.acceptPcm block).2.2 := by
  unfold Session.acceptPcm
  split_ifs
  · exact hs
  have hprepared := hP.prepareEstimators hs
  cases hprepare : s.prepareEstimators with
  | mk status t =>
      rw [hprepare] at hprepared
      cases status with
      | ok =>
          have hbase := hP.acceptPcmBase block hprepared
          cases haccept : t.acceptPcmBase block with
          | mk answer rest =>
              obtain ⟨n, u⟩ := rest
              rw [haccept] at hbase
              simp only [haccept]
              split
              · next heq =>
                  obtain rfl := (Prod.mk.inj (Prod.mk.inj heq).2).2
                  split_ifs
                  · have hreplay : P (u.acceptReplay block).2.2 := hP.acceptReplay block hbase
                    split
                    · next heq' => rwa [heq'] at hreplay
                    · next heq' => exact hreplay
                  · exact hbase
              · next heq =>
                  obtain rfl := (Prod.mk.inj (Prod.mk.inj heq).2).2
                  split_ifs
                  · exact hbase
                  · exact hP.feedAccepted block _ hbase
      | _ => exact hprepared

theorem pushPcm (hP : IntakeInvariant P) (block : PcmBlock) {s : Session} (hs : P s) :
    P (s.pushPcm block).2.2 := by
  unfold Session.pushPcm
  split_ifs
  · exact hs
  cases s.state
  case created | active =>
    cases s.validatePcmBlock block with
    | error code => exact hs
    | _ =>
        cases hactivate : s.activate with
        | mk answer t =>
            have ht := hP.activate hactivate hs
            cases answer
            case error => exact ht
            all_goals
              simp only
              split_ifs
              · exact hP.acceptPcm block ht
              · exact ht
  all_goals exact hs

theorem sourceFailure (hP : IntakeInvariant P) {s : Session} (hs : P s) : P s.sourceFailure.2 := by
  unfold Session.sourceFailure
  cases hmove : s.transition .failed with
  | mk answer t =>
      have ht := hP.transition hmove hs
      cases answer <;> exact ht

theorem settleDelivery (hP : IntakeInvariant P) (status : Status) {s : Session} (hs : P s) :
    P (s.settleDelivery status).2 := by
  unfold Session.settleDelivery
  split
  · exact hs
  · exact hs
  · exact hs
  · exact hP.sourceFailure hs
  · exact hs

theorem acceptPulled (hP : IntakeInvariant P) (request : FrameRange) (frames : ℕ)
    (block : PcmBlock) {s : Session} (hs : P s) : P (s.acceptPulled request frames block).2 := by
  unfold Session.acceptPulled
  cases s.validatePcmBlock block with
  | error code => exact hP.settleDelivery _ hs
  | _ =>
      simp only
      split_ifs
      · exact hP.settleDelivery _ hs
      cases hactivate : s.activate with
      | mk answer t =>
          have ht := hP.activate hactivate hs
          cases answer
          case error => exact hP.settleDelivery _ ht
          all_goals
            simp only
            split_ifs
            · exact hP.settleDelivery _ (hP.acceptPcm block ht)
            · exact ht

end IntakeInvariant

end Session

end LibApta
