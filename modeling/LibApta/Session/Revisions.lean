import LibApta.Beatgrid.Commit
import LibApta.Session.Estimators

/-!
# Applying a grid revision

A call that applies a revision is refused before it writes, or it writes the local grid and the
revision record and then publishes. A refused call changes nothing. A publication that fails comes
after the write, and the write stays.

The segment that is written into the local grid is the first committed one that meets it. The lock
conflict looks at every committed segment that meets it, so that it is resolved exactly when those
agree with the first.
-/

namespace LibApta

namespace Session

/-! ## What a call writes -/

/-- The committed segment reaches into the local grid. -/
def meetsLocal (estimate : LocalEstimate) (candidate : GridSegment) : Bool :=
  rangesOverlap candidate.applicabilityRange.firstFrame candidate.applicabilityRange.endFrame
    estimate.segment.applicabilityRange.firstFrame estimate.segment.applicabilityRange.endFrame

/-- The global grid, the local estimate and the committed segment that the application of a revision
would write; `none` when the call is refused. -/
def revisionTarget (revisionId : ℕ) (s : Session) : Option (S6State × LocalEstimate × GridSegment) :=
  match s.s6, s.s4.estimate with
  | some s6, some estimate =>
      if revisionId ≠ 0 ∧ s6.revisionPending = true ∧ s6.revision.state = .pending ∧
          revisionId = s6.revisionId then
        (s6.segments.find? (meetsLocal estimate)).map fun selected => (s6, estimate, selected)
      else none
  | _, _ => none

/-- What the application of a revision publishes. -/
def revisionFeatures (s : Session) : FeatureMask :=
  {.localBeatgrid, .globalBeatgrid, .gridLocking} ∪ s.ifRequested .dynamicTempo

theorem revisionTarget_some {revisionId : ℕ} {s : Session} {s6 : S6State}
    {estimate : LocalEstimate} {selected : GridSegment}
    (h : s.revisionTarget revisionId = some (s6, estimate, selected)) :
    s.s6 = some s6 ∧ s.s4.estimate = some estimate ∧ s6.revisionPending = true ∧
      s6.segments.find? (meetsLocal estimate) = some selected := by
  unfold revisionTarget at h
  split at h
  · next hs6 hestimate =>
      split_ifs at h with hadmitted
      obtain ⟨found, hfound, heq⟩ := Option.map_eq_some_iff.mp h
      simp only [Prod.mk.injEq] at heq
      obtain ⟨rfl, rfl, rfl⟩ := heq
      exact ⟨hs6, hestimate, hadmitted.2.1, hfound⟩
  · cases h

/-- A call without a target is refused, and nothing is written. -/
theorem applyGridRevision_refused {revisionId : ℕ} {s : Session}
    (h : s.revisionTarget revisionId = none) :
    ∃ code, s.applyGridRevision revisionId = (.error code, s) := by
  unfold applyGridRevision
  by_cases hzero : revisionId = 0
  · exact ⟨_, if_pos hzero⟩
  rw [if_neg hzero]
  unfold revisionTarget at h
  cases hs6 : s.s6 with
  | none => exact ⟨_, rfl⟩
  | some s6 =>
      simp only
      split
      · exact ⟨_, rfl⟩
      next hpending =>
      split
      · exact ⟨_, rfl⟩
      next hid =>
      cases hestimate : s.s4.estimate with
      | none => exact ⟨_, rfl⟩
      | some estimate =>
          simp only [hs6, hestimate] at h ⊢
          have hadmitted : revisionId ≠ 0 ∧ s6.revisionPending = true ∧
              s6.revision.state = .pending ∧ revisionId = s6.revisionId := by
            simp at hpending
            exact ⟨hzero, hpending.1, hpending.2, not_not.mp hid⟩
          rw [if_pos hadmitted, Option.map_eq_none_iff] at h
          change s6.segments.find? _ = none at h
          unfold meetsLocal at h
          rw [h]
          exact ⟨_, rfl⟩

/-- A call with a target writes it, and then publishes. -/
theorem applyGridRevision_written {revisionId : ℕ} {s : Session} {s6 : S6State}
    {estimate : LocalEstimate} {selected : GridSegment}
    (h : s.revisionTarget revisionId = some (s6, estimate, selected)) :
    s.applyGridRevision revisionId =
      match (s.withRevision revisionId s6 selected estimate).publish s.revisionFeatures with
      | (.error code, s) => (.error code, s)
      | (status, s) => (status, s.s4MarkPublished.s6MarkPublished) := by
  unfold revisionTarget at h
  split at h
  case h_2 => cases h
  next hs6 hestimate =>
  split_ifs at h with hadmitted
  obtain ⟨hzero, hpending, hstate, hid⟩ := hadmitted
  obtain ⟨found, hfound, heq⟩ := Option.map_eq_some_iff.mp h
  simp only [Prod.mk.injEq] at heq
  obtain ⟨rfl, rfl, rfl⟩ := heq
  unfold meetsLocal at hfound
  unfold applyGridRevision revisionFeatures
  simp only [if_neg hzero, hs6, hpending, hstate, Bool.not_true, ne_eq, not_true_eq_false,
    decide_false, Bool.or_self, Bool.false_eq_true, if_false, ← hid, hestimate, hfound]
  all_goals rfl

/-! ### A session with a pending revision -/

/-- A segment from one frame to another. -/
def steadySegment (first last tempoMillibpm : ℕ) : GridSegment :=
  ⟨⟨first, last⟩, first, 0, 0, 22050, 0, 1, tempoMillibpm, 80, .stable, 0, 1, 5⟩

/-- A session with a locked local grid and a pending revision. -/
def withPending (s : Session) : Session :=
  { s with
    s4 := { s.s4 with
      locked := true
      estimate := some
        { tempo := ⟨⟨0, 4096⟩, ⟨0, 4096⟩, 120000, 80, .stable, 0, 1⟩
          segment := steadySegment 0 4096 120000
          requestedRange := ⟨0, 4096⟩
          evidenceRange := ⟨0, 4096⟩
          applicabilityRange := ⟨0, 4096⟩
          coverageRange := ⟨0, 4096⟩ } }
    s6 := some { S6State.initial with
      segments := [steadySegment 0 8192 140000]
      revision := ⟨5, 4, .pending, 80, ⟨0, 8192⟩, .segments, 1, 0, 0⟩
      representation := .segments
      hasGlobalGrid := true
      revisionPending := true
      revisionId := 5 } }

/-- A session without a revision, and what it answers with a pending one. -/
theorem applyGridRevision_answers : ∃ t : Session,
    (t.withPending.applyGridRevision 5).1 = .ok ∧
      (t.applyGridRevision 5).1 = .error .invalidState := by
  obtain ⟨t, ht⟩ : ∃ t, create (smallConfig {.waveformOverview, .bpm} none) seriesLibm false
    plainPlatform = (.ok, some t) := ⟨_, rfl⟩
  have hanswers : ((create (smallConfig {.waveformOverview, .bpm} none) seriesLibm false
      plainPlatform).2.map fun u : Session =>
        ((u.withPending.applyGridRevision 5).1, (u.applyGridRevision 5).1)) =
      some (.ok, .error .invalidState) := by decide +kernel
  rw [ht, Option.map_some, Option.some.injEq, Prod.mk.injEq] at hanswers
  exact ⟨t, hanswers⟩

/-! ## Calls that fail -/

/-- A revision is pending only while the local estimate is locked. -/
def PendingLocked (s4 : S4State) (s6 : Option S6State) : Prop :=
  ∀ global ∈ s6, global.revisionPending = true → ∃ estimate, s4.LockedTo estimate

theorem PendingLocked.local {s4 s4' : S4State} {s6 : Option S6State} (h : PendingLocked s4 s6)
    (hkept : ∀ {estimate : LocalEstimate}, s4.LockedTo estimate → s4'.LockedTo estimate) :
    PendingLocked s4' s6 := by
  intro global hglobal hpending
  obtain ⟨estimate, hlocked⟩ := h global hglobal hpending
  exact ⟨estimate, hkept hlocked⟩

theorem PendingLocked.global {s4 : S4State} {s6 s6' : S6State} (h : PendingLocked s4 (some s6))
    (hkept : s6'.revisionPending = s6.revisionPending) : PendingLocked s4 (some s6') := by
  intro global hglobal hpending
  rw [← Option.some.inj hglobal, hkept] at hpending
  exact h s6 rfl hpending

/-- A commit that finds a conflict finds it with a locked estimate. -/
theorem commitGrid_pending {ctx : GlobalContext} {sweep : WindowSweep} {s6 : S6State} {s4 : S4State}
    (hestimate : ctx.localEstimate = s4.estimate) (hlocked : ctx.locallyLocked = s4.locked)
    (h : PendingLocked s4 (some s6)) :
    PendingLocked s4 (some (S6State.commitGrid ctx sweep s6).2.1) := by
  rw [S6State.commitGrid_eq]
  split_ifs
  · exact h.global rfl
  · exact h.global rfl
  · intro global hglobal hpending
    rw [← Option.some.inj hglobal] at hpending
    change S6State.lockedConflict ctx _ = true at hpending
    unfold S6State.lockedConflict at hpending
    split at hpending
    · next estimate hsome =>
        rw [Bool.and_eq_true, hlocked] at hpending
        exact ⟨estimate, hpending.1, .inl (hestimate ▸ hsome)⟩
    · cases hpending

theorem pendingLocked_estimators : EstimatorInvariant fun _ => PendingLocked where
  prepareLocal features env h := h.local fun hlocked => hlocked.prepare features env
  prepareGlobal _ := by
    intro global hglobal hpending
    rw [← Option.some.inj hglobal] at hpending
    cases hpending
  sampleLocal endOfInput frame sample h :=
    h.local fun hlocked => hlocked.processSample endOfInput frame sample
  sampleGlobal _ _ _ h := h.global rfl
  refreshLocal hrefresh h := h.local fun hlocked => hlocked.refresh hrefresh
  refreshGlobal {ctx _ _ s4 s6 result} hestimate hlocked hrefresh h := by
    have hsearch : ∀ {t t' : S6State}, S6State.Searches t t' → PendingLocked s4 (some t) →
        PendingLocked s4 (some t') := by
      rintro _ _ ⟨_, _, _, _, _, rfl⟩ ht
      exact ht.global rfl
    have hkept : PendingLocked s4 (some result.state) :=
      S6State.refresh_invariant (P := fun t => PendingLocked s4 (some t)) hsearch
        (fun _ ht => commitGrid_pending hestimate hlocked ht) hrefresh h
    exact hkept.local fun hlocked => hlocked.congr rfl rfl
  serialsLocal _ _ h := h.local fun hlocked => hlocked.congr rfl rfl
  serialsGlobal _ h := h.global rfl

/-- In a run from a created session a revision is pending only while the local estimate is locked. -/
theorem run_pendingLocked {s s' : Session} {calls : List Call} (hcreated : Created s)
    (hrun : run calls s = some s') : PendingLocked s'.s4 s'.s6 := by
  have hinvariant := pendingLocked_estimators.invariant
  refine hinvariant.run (fun {call t range} _ _ ht => ?_) (fun {call t revisionId} _ _ ht => ?_)
    (Runs.guarded_true step calls s) hrun ?_
  · refine hinvariant.toAnnounceInvariant.lockGridRange range
      (fun estimate _ => ?_) (fun {u} hu => ?_) ht
    · intro global hglobal _
      exact ⟨lockEstimate range estimate, rfl, .inl rfl⟩
    · exact PendingLocked.local hu fun hlocked => hlocked.congr rfl rfl
  · refine hinvariant.toAnnounceInvariant.applyGridRevision revisionId
      (fun s6 _ estimate _ selected _ => ?_) (fun {u} hu => ?_) ht
    · intro global hglobal hpending
      rw [← Option.some.inj hglobal] at hpending
      cases hpending
    · exact hinvariant.s6Published
        (PendingLocked.local hu fun hlocked => hlocked.congr rfl rfl)
  · obtain ⟨config, libm, usesWorkspace, env, -, rfl⟩ := created_eq hcreated
    intro global hglobal
    cases hglobal

/-! ## The lock conflict -/

/-- Where a segment lies, where its beats are anchored and how fast they come: what the lock conflict
compares. -/
structure Placement where
  range : FrameRange
  anchorFrame : ℕ
  tempoMillibpm : ℕ

/-- The placement of a segment. -/
def placement (segment : GridSegment) : Placement :=
  ⟨segment.applicabilityRange, segment.anchorFrame, segment.nominalTempoMillibpm⟩

namespace Placement

/-- Two placements share a frame. -/
def meets (lock place : Placement) : Bool :=
  rangesOverlap place.range.firstFrame place.range.endFrame lock.range.firstFrame
    lock.range.endFrame

/-- A placement is no further from the locked one than half a beat a minute and one global bin. -/
def Agrees (lock place : Placement) : Prop :=
  tempoDistance place.tempoMillibpm lock.tempoMillibpm ≤ 500 ∧
    place.anchorFrame ≤ lock.anchorFrame + globalFramesPerBin ∧
    lock.anchorFrame ≤ place.anchorFrame + globalFramesPerBin

/-- A placement meets the locked one and does not agree with it. -/
def contradicts (lock place : Placement) : Bool :=
  meets lock place &&
    (decide (500 < tempoDistance place.tempoMillibpm lock.tempoMillibpm) ||
      decide (lock.anchorFrame + globalFramesPerBin < place.anchorFrame) ||
      decide (place.anchorFrame + globalFramesPerBin < lock.anchorFrame))

theorem contradicts_eq_false {lock place : Placement} :
    contradicts lock place = false ↔ (meets lock place = true → Agrees lock place) := by
  unfold contradicts Agrees
  cases meets lock place
  · simp
  · simp only [Bool.true_and, Bool.or_eq_false_iff, decide_eq_false_iff_not, not_lt, and_assoc,
      forall_const]

end Placement

/-- Under a locked estimate the lock conflict is a contradiction between placements. -/
theorem lockedConflict_of_locked {ctx : GlobalContext} {estimate : LocalEstimate}
    (hestimate : ctx.localEstimate = some estimate) (hlocked : ctx.locallyLocked = true)
    (segments : List GridSegment) :
    S6State.lockedConflict ctx segments =
      (segments.map placement).any (Placement.contradicts (placement estimate.segment)) := by
  unfold S6State.lockedConflict
  rw [List.any_map]
  simp only [hestimate, hlocked, Bool.true_and]
  rfl

/-! ## Calls that succeed -/

/-- A call that succeeds leaves its revision written, and marks it published. -/
theorem applyGridRevision_ok {revisionId : ℕ} {s s' : Session}
    (h : s.applyGridRevision revisionId = (.ok, s')) :
    ∃ s6 estimate selected serial publishedLocal publishedGlobal,
      s.revisionTarget revisionId = some (s6, estimate, selected) ∧
      s'.s4 = { s.s4 with
        estimate := some (applySegment revisionId s6.hasDynamicTempo selected estimate)
        mutationSerial := serial
        publishedSerial := publishedLocal } ∧
      s'.s6 = some { s6 with
        revision := { s6.revision with state := .applied }
        revisionPending := false
        mutationSerial := s6.mutationSerial + 1
        publishedSerial := publishedGlobal } := by
  cases htarget : s.revisionTarget revisionId with
  | none =>
      obtain ⟨code, heq⟩ := applyGridRevision_refused htarget
      rw [h] at heq
      cases heq
  | some target =>
      obtain ⟨s6, estimate, selected⟩ := target
      rw [applyGridRevision_written htarget] at h
      cases hpublish : (s.withRevision revisionId s6 selected estimate).publish
          s.revisionFeatures with
      | mk status after =>
          rw [hpublish] at h
          rcases publish_cases hpublish with ⟨rfl, env, rfl⟩ | ⟨⟨_, -, rfl⟩, -⟩
          · obtain ⟨-, rfl⟩ := Prod.mk.inj h
            exact ⟨s6, estimate, selected, _, _, _, rfl, rfl, rfl⟩
          · cases h

/-- The committed segments that meet the local grid agree with the first of them, which the
application of the revision would write. -/
def Coherent (revisionId : ℕ) (s : Session) : Prop :=
  ∀ s6 estimate selected, s.revisionTarget revisionId = some (s6, estimate, selected) →
    ∀ candidate ∈ s6.segments, meetsLocal estimate candidate = true →
      Placement.Agrees (placement selected) (placement candidate)

/-- The committed grid does not contradict the locked one; nor does any later commit of segments in
the same places, until another revision is applied. -/
structure Resolved (s : Session) : Prop where
  now : ∀ s6 ∈ s.s6, S6State.lockedConflict s.globalContext s6.segments = false
  later : ∀ (calls : List Call) (t : Session),
    (∀ call ∈ calls, ∀ revisionId, call.op ≠ .applyGridRevision revisionId) →
    run calls s = some t → ∀ (sweep : WindowSweep) (before after : S6State) (nominal : ℕ),
    S6State.commitGrid t.globalContext sweep before = (.ok, after, nominal) →
    (∀ s6 ∈ s.s6, after.segments.map placement = s6.segments.map placement) →
    after.revisionPending = false ∧ after.revision.state ≠ .pending

/-- Under a locked estimate the committed grid is resolved when no segment contradicts the estimate. -/
theorem resolved_iff {s : Session} {s6 : S6State} {estimate : LocalEstimate} (hs6 : s.s6 = some s6)
    (hlocked : s.s4.LockedTo estimate) (hestimate : s.s4.estimate = some estimate) :
    s.Resolved ↔
      (s6.segments.map placement).any (Placement.contradicts (placement estimate.segment)) =
        false := by
  have hconflict : S6State.lockedConflict s.globalContext s6.segments =
      (s6.segments.map placement).any (Placement.contradicts (placement estimate.segment)) :=
    lockedConflict_of_locked hestimate hlocked.locked _
  refine ⟨fun h => hconflict ▸ h.now s6 hs6, fun h => ⟨fun t ht => ?_, ?_⟩⟩
  · rw [← Option.some.inj (hs6.symm.trans ht), hconflict]
    exact h
  intro calls t hcalls hrun sweep before after nominal hcommit hplaced
  have hkept : t.s4.LockedTo estimate := by
    refine ((KeepsLock.invariant estimate s.results).run ?_ ?_
      (Runs.guarded_of_forall hcalls s) hrun (.of_lockedTo hlocked)).lockedTo
    · intro call u range _ _ hu
      rwa [lockGridRange_of_locked range hu.lockedTo.locked]
    · intro call u revisionId hop heq
      exact absurd heq (hop revisionId)
  have hlater : S6State.lockedConflict t.globalContext after.segments = false := by
    rcases hkept.kept with hsame | hfinal
    · rw [lockedConflict_of_locked hsame hkept.locked, hplaced s6 hs6]
      exact h
    · rw [lockedConflict_of_locked hfinal hkept.locked, hplaced s6 hs6]
      exact h
  rw [S6State.commitGrid_eq] at hcommit
  split_ifs at hcommit with hfailed
  · rw [(Prod.mk.inj hcommit).1] at hfailed
    cases hfailed
  · cases (Prod.mk.inj hcommit).1
  · obtain ⟨-, hafter⟩ := Prod.mk.inj hcommit
    obtain ⟨rfl, -⟩ := Prod.mk.inj hafter
    change S6State.lockedConflict t.globalContext (S6State.stampedSegments _ _ _) = false at hlater
    refine ⟨hlater, ?_⟩
    show (if S6State.lockedConflict t.globalContext (S6State.stampedSegments _ _ _) = true then
      RevisionState.pending else .applied) ≠ .pending
    rw [hlater]
    decide

/-- **A revision resolves the conflict of a coherent grid.** In a session in which a revision is
pending only while the local estimate is locked, as in every run (`run_pendingLocked`): after a
revision has been applied the committed grid no longer contradicts the locked one, now and at every
later commit of the same segments, exactly when the committed segments that meet the locked range
agree with the first of them. -/
theorem applyGridRevision_resolves_iff (s s' : Session) (revisionId : ℕ)
    (hpendingLocked : PendingLocked s.s4 s.s6)
    (h : s.applyGridRevision revisionId = (.ok, s')) : s'.Resolved ↔ s.Coherent revisionId := by
  obtain ⟨s6, estimate, selected, serial, marked, shown, htarget, hs4, hs6⟩ :=
    applyGridRevision_ok h
  obtain ⟨hglobal, hlocal, hpending, hfirst⟩ := revisionTarget_some htarget
  obtain ⟨old, hold⟩ := hpendingLocked s6 hglobal hpending
  have hlocked : s'.s4.locked = true := by
    rw [hs4]
    exact hold.locked
  have hestimate : s'.s4.estimate =
      some (applySegment revisionId s6.hasDynamicTempo selected estimate) := by
    rw [hs4]
  rw [resolved_iff hs6 ⟨hlocked, .inl hestimate⟩ hestimate, List.any_map, List.any_eq_false]
  have hplace : placement (applySegment revisionId s6.hasDynamicTempo selected estimate).segment =
      { placement selected with range := estimate.segment.applicabilityRange } := rfl
  constructor
  · intro hnone t e first ht candidate hcandidate hmeets
    rw [htarget] at ht
    simp only [Option.some.injEq, Prod.mk.injEq] at ht
    obtain ⟨rfl, rfl, rfl⟩ := ht
    have hagrees := Placement.contradicts_eq_false.mp
      (Bool.eq_false_iff.mpr (hnone candidate hcandidate))
    rw [hplace] at hagrees
    exact hagrees hmeets
  · intro hcoherent candidate hcandidate
    rw [Function.comp_apply, hplace, Bool.not_eq_true, Placement.contradicts_eq_false]
    exact hcoherent s6 estimate selected htarget candidate hcandidate

/-- A session whose revision was applied. -/
theorem applyGridRevision_resolves_iff_applied : ∃ s s' : Session, PendingLocked s.s4 s.s6 ∧
    s.applyGridRevision 5 = (.ok, s') ∧ (s'.Resolved ↔ s.Coherent 5) := by
  obtain ⟨t, hok, -⟩ := applyGridRevision_answers
  have hlocked : PendingLocked t.withPending.s4 t.withPending.s6 := fun _ _ _ => ⟨_, rfl, .inl rfl⟩
  exact ⟨t.withPending, _, hlocked, Prod.ext hok rfl,
    applyGridRevision_resolves_iff _ _ 5 hlocked (Prod.ext hok rfl)⟩

end Session

end LibApta
