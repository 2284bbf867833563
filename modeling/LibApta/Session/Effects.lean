import LibApta.Session.Run
import LibApta.Waveform.Consume

/-!
# What a process call does to the track

The track of a session is what its overview is made of: the accepted frames, the queue, the columns,
the length of the input, and the published results. A process call runs the chunk loop once, from
`chunkEntry`, and then publishes some number of times; everything else it does leaves the track as
it is. A publication that fails ends the call.
-/

namespace LibApta

namespace Session

/-! ## The track -/

/-- The two sessions have the same track, up to the order of the queue. -/
structure SameTrack (s s' : Session) : Prop where
  config : s'.config = s.config
  state : s'.state = s.state
  endOfInput : s'.endOfInput = s.endOfInput
  ranges : s'.accepted.ranges = s.accepted.ranges
  greatestEnd : s'.accepted.greatestEnd = s.accepted.greatestEnd
  maximumEnd : s'.accepted.maximumEnd = s.accepted.maximumEnd
  queue : s'.queue.Perm s.queue
  accumulators : s'.overview.accumulators = s.overview.accumulators
  completeCount : s'.overview.completeCount = s.overview.completeCount
  results : s'.results = s.results
  generation : s'.generation = s.generation

namespace SameTrack

theorem refl (s : Session) : SameTrack s s :=
  ⟨rfl, rfl, rfl, rfl, rfl, rfl, .refl _, rfl, rfl, rfl, rfl⟩

theorem trans {a b c : Session} (h : SameTrack a b) (h' : SameTrack b c) : SameTrack a c :=
  ⟨h'.config.trans h.config, h'.state.trans h.state, h'.endOfInput.trans h.endOfInput,
    h'.ranges.trans h.ranges, h'.greatestEnd.trans h.greatestEnd, h'.maximumEnd.trans h.maximumEnd,
    h'.queue.trans h.queue, h'.accumulators.trans h.accumulators,
    h'.completeCount.trans h.completeCount, h'.results.trans h.results,
    h'.generation.trans h.generation⟩

end SameTrack

/-! ## Publications and transitions -/

/-- The session up to what the platform has answered, with its marks perhaps forgotten. -/
def Unpublished (s s' : Session) : Prop :=
  ∃ env, s' = { s with env := env } ∨ s' = { s.markPublicationPending with env := env }

/-- The errors of a publication. -/
def lacksRoom (code : ErrorCode) : Prop :=
  code = .limitExceeded ∨ code = .resultSlotsExhausted ∨ code = .outOfMemory

/-- A publication succeeds, or leaves the session but for its marks. -/
theorem publish_cases {mask : FeatureMask} {s s' : Session} {status : Status}
    (h : s.publish mask = (status, s')) :
    (status = .ok ∧ ∃ env, s' = { s.published mask with env := env }) ∨
      (∃ code, lacksRoom code ∧ status = .error code) ∧ s.Unpublished s' := by
  unfold publish at h
  by_cases hlast : s.generation = uint64Max
  · rw [if_pos hlast] at h
    obtain ⟨rfl, rfl⟩ := Prod.mk.inj h
    exact .inr ⟨⟨_, .inl rfl, rfl⟩, s.env, .inl rfl⟩
  rw [if_neg hlast] at h
  cases hask : s.env.allocate with
  | mk granted env =>
      rw [hask] at h
      cases granted
      · simp only at h
        split_ifs at h <;> obtain ⟨rfl, rfl⟩ := Prod.mk.inj h
        · exact .inr ⟨⟨_, .inr (.inl rfl), rfl⟩, env, .inr rfl⟩
        · exact .inr ⟨⟨_, .inr (.inl rfl), rfl⟩, env, .inl rfl⟩
        · exact .inr ⟨⟨_, .inr (.inr rfl), rfl⟩, env, .inr rfl⟩
      · simp only at h
        split_ifs at h <;> obtain ⟨rfl, rfl⟩ := Prod.mk.inj h
        · exact .inr ⟨⟨_, .inl rfl, rfl⟩, env, .inl rfl⟩
        · exact .inl ⟨rfl, env, rfl⟩

/-- A transition changes nothing, or changes the state and publishes, or leaves the session but for
its marks. -/
theorem transition_cases {new : SessionState} {s s' : Session} {status : Status}
    (h : s.transition new = (status, s')) :
    (status = .ok ∧ s.state = new ∧ s' = s) ∨
      (status = .ok ∧ s.state ≠ new ∧
        ∃ env, s' = { published ∅ { s with state := new } with env := env }) ∨
      (∃ code, (lacksRoom code ∨ transitionAllowed s.state new = false) ∧ status = .error code) ∧
        s.Unpublished s' := by
  unfold transition at h
  split_ifs at h with hedge hsame
  · obtain ⟨rfl, rfl⟩ := Prod.mk.inj h
    exact .inr (.inr ⟨⟨_, .inr (by simpa using hedge), rfl⟩, s.env, .inl rfl⟩)
  · obtain ⟨rfl, rfl⟩ := Prod.mk.inj h
    exact .inl ⟨rfl, hsame, rfl⟩
  cases hpub : publish ∅ { s with state := new } with
  | mk answer moved =>
      rw [hpub] at h
      rcases publish_cases hpub with ⟨rfl, env, rfl⟩ | ⟨⟨code, hcode, rfl⟩, env, hmoved⟩
      · obtain ⟨rfl, rfl⟩ := Prod.mk.inj h
        exact .inr (.inl ⟨rfl, hsame, env, rfl⟩)
      · obtain ⟨rfl, rfl⟩ := Prod.mk.inj h
        refine .inr (.inr ⟨⟨code, .inl hcode, rfl⟩, env, ?_⟩)
        rcases hmoved with rfl | rfl
        · exact .inl rfl
        · exact .inr rfl

/-- A lock is refused at once, or it is written and published; a publication that fails takes it
back. -/
theorem lockGridRange_cases (range : FrameRange) (s : Session) :
    (∃ status, s.lockGridRange range = (status, s) ∧
      (status = .ok → s.s4.locked = true ∧
        ∃ estimate, s.s4.estimate = some estimate ∧ estimate.applicabilityRange = range)) ∨
      ∃ estimate answer after, s.s4.estimate = some estimate ∧ s.s4.locked = false ∧
        (s.withLock range estimate).publish {.localBeatgrid, .gridLocking} = (answer, after) ∧
        s.lockGridRange range =
          if answer.failed then (answer, { after with s4 := s.s4 })
          else (answer, after.s4MarkPublished) := by
  have hrefused : ∀ code : ErrorCode, (Status.error code = .ok → s.s4.locked = true ∧
      ∃ estimate, s.s4.estimate = some estimate ∧ estimate.applicabilityRange = range) :=
    fun code heq => Status.noConfusion heq
  unfold lockGridRange
  split
  · exact .inl ⟨_, rfl, hrefused _⟩
  split
  · exact .inl ⟨_, rfl, hrefused _⟩
  cases hestimate : s.s4.estimate with
  | none => exact .inl ⟨_, rfl, fun heq => Status.noConfusion heq⟩
  | some estimate =>
      simp only
      split
      · exact .inl ⟨_, rfl, fun heq => Status.noConfusion heq⟩
      split
      · exact .inl ⟨_, rfl, fun heq => Status.noConfusion heq⟩
      split
      · next hlocked =>
          refine .inl ⟨_, rfl, fun hok => ⟨hlocked, estimate, rfl, ?_⟩⟩
          by_contra hne
          rw [if_neg hne] at hok
          exact Status.noConfusion hok
      · next hlocked =>
          cases hpub : (s.withLock range estimate).publish {.localBeatgrid, .gridLocking} with
          | mk answer after =>
              refine .inr ⟨estimate, answer, after, rfl, by simpa using hlocked, hpub, ?_⟩
              cases answer <;> rfl

/-- The application of a revision is refused at once, or it is written and published. -/
theorem applyGridRevision_cases (revisionId : ℕ) (s : Session) :
    (∃ status, s.applyGridRevision revisionId = (status, s)) ∨
      ∃ s6 estimate selected answer after, s.s6 = some s6 ∧ s.s4.estimate = some estimate ∧
        selected ∈ s6.segments ∧ s6.revisionPending = true ∧ revisionId = s6.revisionId ∧
        (s.withRevision revisionId s6 selected estimate).publish
            ({.localBeatgrid, .globalBeatgrid, .gridLocking} ∪ s.ifRequested .dynamicTempo) =
          (answer, after) ∧
        s.applyGridRevision revisionId =
          if answer.failed then (answer, after)
          else (answer, after.s4MarkPublished.s6MarkPublished) := by
  unfold applyGridRevision
  split
  · exact .inl ⟨_, rfl⟩
  cases hs6 : s.s6 with
  | none => exact .inl ⟨_, rfl⟩
  | some s6 =>
      simp only
      split
      · exact .inl ⟨_, rfl⟩
      next hpending =>
      split
      · exact .inl ⟨_, rfl⟩
      next hid =>
      cases hestimate : s.s4.estimate with
      | none => exact .inl ⟨_, rfl⟩
      | some estimate =>
          simp only
          split
          · exact .inl ⟨_, rfl⟩
          next selected hselected =>
          cases hpub : (s.withRevision revisionId s6 selected estimate).publish
              ({.localBeatgrid, .globalBeatgrid, .gridLocking} ∪ s.ifRequested .dynamicTempo) with
          | mk answer after =>
              refine .inr ⟨s6, estimate, selected, answer, after, rfl, rfl,
                List.mem_of_find?_eq_some hselected, ?_, not_not.mp hid, hpub, ?_⟩
              · simp at hpending
                exact hpending.1
              · cases answer <;> rfl

/-- Some number of publications, with the track unchanged in between. -/
inductive Announces : Session → Session → Prop
  | rest {s s' : Session} (h : SameTrack s s') : Announces s s'
  | publish {s t s' : Session} (mask : FeatureMask) (h : SameTrack s t)
      (next : Announces (t.published mask) s') : Announces s s'

theorem Announces.trans {a b c : Session} (h : Announces a b) (h' : Announces b c) :
    Announces a c := by
  induction h with
  | rest hsame =>
      cases h' with
      | rest hsame' => exact .rest (hsame.trans hsame')
      | publish mask hsame' next => exact .publish mask (hsame.trans hsame') next
  | publish mask hsame _ ih => exact .publish mask hsame (ih h')

/-- A session left by a publication that failed. -/
inductive Unannounced : Session → Session → Prop
  | kept {s s' : Session} (h : SameTrack s s') : Unannounced s s'
  | forgotten {s s' : Session} (h : SameTrack s.markPublicationPending s') : Unannounced s s'

theorem Unpublished.unannounced {s s' : Session} (h : s.Unpublished s') : Unannounced s s' := by
  obtain ⟨env, rfl | rfl⟩ := h
  · exact .kept ⟨rfl, rfl, rfl, rfl, rfl, rfl, .refl _, rfl, rfl, rfl, rfl⟩
  · exact .forgotten ⟨rfl, rfl, rfl, rfl, rfl, rfl, .refl _, rfl, rfl, rfl, rfl⟩

theorem Unannounced.rest {s t s' : Session} (h : Unannounced s t) (h' : SameTrack t s') :
    Unannounced s s' := by
  cases h with
  | kept h => exact .kept (h.trans h')
  | forgotten h => exact .forgotten (h.trans h')

/-! ## The layers -/

/-- The session as the chunk loop of a process call finds it. -/
def chunkEntry (s : Session) : Session :=
  ((s.demandOverview s4Features).refreshDetail.stageDemand.reserveAccumulators.2).raisePriorities

/-- What the layers of a process call leave of the session they find, from the entry of its chunk
loop; the flag says that a layer has failed. -/
inductive Layers (budget : WorkBudget) (s entry : Session) : Bool → Session → Prop
  | refused {s' : Session} (h : SameTrack s s') : Layers budget s entry true s'
  | interrupted {status : Status} {state : ChunkState} {s' : Session}
      (hrun : entry.runChunks budget = (status, state))
      (h : SameTrack (entry.setChunkState state) s') : Layers budget s entry true s'
  | announced {status : Status} {state : ChunkState} {s' : Session}
      (hrun : entry.runChunks budget = (status, state)) (hok : status.failed = false)
      (h : Announces (entry.setChunkState state) s') : Layers budget s entry false s'
  | unannounced {status : Status} {state : ChunkState} {t s' : Session}
      (hrun : entry.runChunks budget = (status, state)) (hok : status.failed = false)
      (h : Announces (entry.setChunkState state) t) (h' : Unannounced t s') :
      Layers budget s entry true s'

namespace Layers

variable {budget : WorkBudget} {s entry t s' : Session} {failed : Bool}

/-- The track may be left alone after the layers. -/
theorem rest (h : Layers budget s entry failed t) (h' : SameTrack t s') :
    Layers budget s entry failed s' := by
  cases h with
  | refused h => exact .refused (h.trans h')
  | interrupted hrun h => exact .interrupted hrun (h.trans h')
  | announced hrun hok h => exact .announced hrun hok (h.trans (.rest h'))
  | unannounced hrun hok h hun => exact .unannounced hrun hok h (hun.rest h')

/-- A layer that has not failed may fail later. -/
theorem fail (h : Layers budget s entry false t) (h' : SameTrack t s') :
    Layers budget s entry true s' := by
  cases h with
  | announced hrun hok h => exact .unannounced hrun hok h (.kept h')

/-- A publication after layers that have not failed. -/
theorem publish (h : Layers budget s entry false t) {mask : FeatureMask} {status : Status}
    (hpub : t.publish mask = (status, s')) : Layers budget s entry status.failed s' := by
  cases h with
  | announced hrun hok h =>
      rcases publish_cases hpub with ⟨rfl, env, rfl⟩ | ⟨⟨code, -, rfl⟩, hun⟩
      · refine .announced hrun hok (h.trans (.publish mask (.refl t) (.rest ?_)))
        exact ⟨rfl, rfl, rfl, rfl, rfl, rfl, .refl _, rfl, rfl, rfl, rfl⟩
      · exact .unannounced hrun hok h hun.unannounced

end Layers

/-! ## Parts of a process call that leave the track alone -/

theorem demandOverview_sameTrack (features : FeatureMask) (s : Session) :
    SameTrack s (s.demandOverview features) :=
  ⟨rfl, rfl, rfl, rfl, rfl, rfl, .refl _, rfl, rfl, rfl, rfl⟩

theorem refreshDetail_sameTrack (s : Session) : SameTrack s s.refreshDetail := by
  unfold refreshDetail
  split_ifs
  · exact ⟨rfl, rfl, rfl, rfl, rfl, rfl, .refl _, rfl, rfl, rfl, rfl⟩
  · exact .refl s

theorem raisePriorities_sameTrack (s : Session) : SameTrack s s.raisePriorities :=
  ⟨rfl, rfl, rfl, rfl, rfl, rfl, .refl _, rfl, rfl, rfl, rfl⟩

theorem restoreDemand_sameTrack (saved s : Session) : SameTrack s (saved.restoreDemand s) :=
  ⟨rfl, rfl, rfl, rfl, rfl, rfl, .refl _, rfl, rfl, rfl, rfl⟩

theorem updateRequestStates_sameTrack (s : Session) : SameTrack s s.updateRequestStates :=
  ⟨rfl, rfl, rfl, rfl, rfl, rfl, .refl _, rfl, rfl, rfl, rfl⟩

theorem updateDetailRequestStates_sameTrack (s : Session) :
    SameTrack s s.updateDetailRequestStates :=
  ⟨rfl, rfl, rfl, rfl, rfl, rfl, .refl _, rfl, rfl, rfl, rfl⟩

/-- Inserting a node into the sorted queue adds it and nothing else. -/
theorem insertNode_perm (better : PcmNode → PcmNode → Bool) (node : PcmNode)
    (queue : List PcmNode) : (insertNode better node queue).Perm (node :: queue) := by
  induction queue with
  | nil => exact .refl _
  | cons head rest ih =>
      unfold insertNode
      split_ifs
      · exact .refl _
      · exact (ih.cons head).trans (.swap node head rest)

/-- Sorting the queue permutes it. -/
theorem sortPcmQueue_perm (s : Session) : s.sortPcmQueue.Perm s.queue := by
  have hfold : ∀ (todo sorted : List PcmNode),
      (todo.foldl (fun sorted node => insertNode (fun candidate current =>
        scoreBetter (s.scoreNode candidate) (s.scoreNode current)) node sorted) sorted).Perm
        (todo ++ sorted) := by
    intro todo
    induction todo with
    | nil => exact fun sorted => .refl _
    | cons node rest ih =>
        intro sorted
        refine (ih _).trans ?_
        exact ((insertNode_perm _ node sorted).append_left rest).trans List.perm_middle
  simpa [sortPcmQueue] using hfold s.queue []

theorem orderQueue_sameTrack (s : Session) : SameTrack s s.orderQueue :=
  ⟨rfl, rfl, rfl, rfl, rfl, rfl, s.sortPcmQueue_perm, rfl, rfl, rfl, rfl⟩

theorem reserveAccumulators_sameTrack (s : Session) : SameTrack s s.reserveAccumulators.2 := by
  unfold reserveAccumulators
  split_ifs
  · exact .refl s
  · exact .refl s
  simp only
  split_ifs
  · exact .refl s
  · exact .refl s
  cases hgrow : s.overview.ensureCapacity (s.config.requests .waveform3Band)
      (s.overview.accumulators.length +
        additionalColumns s.framesPerColumn s.overview s.queue []) s.env with
  | mk status rest =>
      obtain ⟨overview, env⟩ := rest
      obtain ⟨-, capacity, rfl⟩ | ⟨-, -, rfl⟩ := Overview.ensureCapacity_cases hgrow
      · exact ⟨rfl, rfl, rfl, rfl, rfl, rfl, .refl _, rfl, rfl, rfl, rfl⟩
      · exact ⟨rfl, rfl, rfl, rfl, rfl, rfl, .refl _, rfl, rfl, rfl, rfl⟩

theorem stageDemand_sameTrack (s : Session) : SameTrack s s.stageDemand :=
  (demandOverview_sameTrack _ s).trans (orderQueue_sameTrack _)

/-- The chunk loop finds the track as the process call found it. -/
theorem chunkEntry_sameTrack (s : Session) : SameTrack s s.chunkEntry :=
  ((((demandOverview_sameTrack _ s).trans (refreshDetail_sameTrack _)).trans
    (stageDemand_sameTrack _)).trans (reserveAccumulators_sameTrack _)).trans
    (raisePriorities_sameTrack _)

theorem s4MarkPublished_sameTrack (s : Session) : SameTrack s s.s4MarkPublished :=
  ⟨rfl, rfl, rfl, rfl, rfl, rfl, .refl _, rfl, rfl, rfl, rfl⟩

theorem s6MarkPublished_sameTrack (s : Session) : SameTrack s s.s6MarkPublished :=
  ⟨rfl, rfl, rfl, rfl, rfl, rfl, .refl _, rfl, rfl, rfl, rfl⟩

theorem s4StepLimit_sameTrack (budget : WorkBudget) (work : Work) (s : Session) :
    SameTrack s (s.s4StepLimit budget work).2 :=
  ⟨rfl, rfl, rfl, rfl, rfl, rfl, .refl _, rfl, rfl, rfl, rfl⟩

theorem s6StepLimit_sameTrack (budget : WorkBudget) (work : Work) (s : Session) :
    SameTrack s (s.s6StepLimit budget work).2 :=
  ⟨rfl, rfl, rfl, rfl, rfl, rfl, .refl _, rfl, rfl, rfl, rfl⟩

theorem noteRangesMoved_sameTrack (serial : ℕ) (ranges : FrameRange × FrameRange) (s : Session) :
    SameTrack s (s.noteRangesMoved serial ranges) := by
  unfold noteRangesMoved
  split_ifs
  · exact ⟨rfl, rfl, rfl, rfl, rfl, rfl, .refl _, rfl, rfl, rfl, rfl⟩
  · exact .refl s

theorem refreshS4_sameTrack {limit steps : ℕ} {status : Status} {s s' : Session}
    (h : s.refreshS4 limit = some (status, steps, s')) : SameTrack s s' := by
  obtain ⟨result, -, h⟩ := Option.map_eq_some_iff.mp h
  simp only [Prod.mk.injEq] at h
  obtain ⟨-, -, rfl⟩ := h
  exact ⟨rfl, rfl, rfl, rfl, rfl, rfl, .refl _, rfl, rfl, rfl, rfl⟩

theorem refreshS6_sameTrack {limit steps : ℕ} {status : Status} {s s' : Session}
    (h : s.refreshS6 limit = some (status, steps, s')) : SameTrack s s' := by
  unfold refreshS6 at h
  cases hs6 : s.s6 with
  | none =>
      rw [hs6] at h
      simp only [Option.some.injEq, Prod.mk.injEq] at h
      obtain ⟨-, -, rfl⟩ := h
      exact .refl s
  | some s6 =>
      rw [hs6] at h
      obtain ⟨result, -, h⟩ := Option.map_eq_some_iff.mp h
      simp only [Prod.mk.injEq] at h
      obtain ⟨-, -, rfl⟩ := h
      exact ⟨rfl, rfl, rfl, rfl, rfl, rfl, .refl _, rfl, rfl, rfl, rfl⟩

/-! ## The layers of a process call -/

section Layered

/-- Unblocking a layer does not fail it. -/
@[simp] theorem unblock_failed (work : Work) :
    work.unblock.status.failed = work.status.failed := by
  unfold Work.unblock
  split_ifs with h
  · simp [h, Status.failed]
  · rfl

/-- Accounting for a refresh does not fail a layer. -/
theorem noteRefresh_failed {work : Work} (h : work.status.failed = false) (status : Status)
    (steps : ℕ) : (noteRefresh work status steps).status.failed = false := by
  unfold noteRefresh
  simp only
  split_ifs
  · rfl
  · rfl
  · rw [unblock_failed]
    exact h
  · exact h

variable {budget : WorkBudget} {progress : Progress} {s t entry s' : Session} {work work' : Work}

/-- What the overview layer does after a chunk loop that has not failed. -/
theorem processBase_eq (progress : Progress) {status : Status} {state : ChunkState}
    (hrun : entry.runChunks budget = (status, state)) (hok : status.failed = false) :
    ∃ base progress', base.failed = false ∧ entry.processBase budget progress =
      (if (entry.setChunkState state).updateRequestStates.overview.completeCount ≠
          entry.overview.completeCount then
        match (entry.setChunkState state).updateRequestStates.publish {.waveformOverview} with
        | (.error code, after) => (⟨.error code, false, false, progress'⟩, after)
        | (_, after) =>
            ((Work.mk base (state.steps ≠ 0) false progress').announce {.waveformOverview}
              after.generation, after)
      else
        (⟨base, state.steps ≠ 0, false, progress'⟩,
          (entry.setChunkState state).updateRequestStates)) := by
  refine ⟨if state.steps = 0 then .wouldBlock else if state.queue = [] then .ok else .moreWork,
    ⟨state.consumed, state.steps, ∅, entry.generation⟩, by split_ifs <;> rfl, ?_⟩
  unfold processBase
  rw [hrun]
  cases status with
  | error code => exact absurd hok (by simp [Status.failed])
  | _ => rfl

/-- The overview layer, from the entry of the chunk loop. -/
theorem processBase_layers (h : entry.processBase budget progress = (work, s')) :
    Layers budget s entry work.status.failed s' := by
  cases hrun : entry.runChunks budget with
  | mk status state =>
      cases hfail : status.failed
      · obtain ⟨base, progress', hbase, heq⟩ := processBase_eq progress hrun hfail
        have hloop : Layers budget s entry false (entry.setChunkState state).updateRequestStates :=
          .announced hrun hfail (.rest (updateRequestStates_sameTrack _))
        rw [heq] at h
        split_ifs at h
        · cases hpub : (entry.setChunkState state).updateRequestStates.publish
              {.waveformOverview} with
          | mk answer after =>
              have hafter := hloop.publish hpub
              rw [hpub] at h
              cases answer with
              | error code =>
                  obtain ⟨rfl, rfl⟩ := Prod.mk.inj h
                  exact hafter
              | _ =>
                  obtain ⟨rfl, rfl⟩ := Prod.mk.inj h
                  show Layers budget s entry base.failed after
                  rw [hbase]
                  exact hafter
        · obtain ⟨rfl, rfl⟩ := Prod.mk.inj h
          show Layers budget s entry base.failed _
          rw [hbase]
          exact hloop
      · unfold processBase at h
        rw [hrun] at h
        cases status with
        | error code =>
            obtain ⟨rfl, rfl⟩ := Prod.mk.inj h
            exact .interrupted hrun (.refl _)
        | _ => exact absurd hfail (by simp [Status.failed])

/-- Publishing what is pending, after layers that have not failed. -/
theorem publishPending_layers {pending : FeatureMask} {markPublished : Session → Session}
    (hmark : ∀ s, SameTrack s (markPublished s)) (hwork : work.status.failed = false)
    (ht : Layers budget s entry false t)
    (h : t.publishPending pending markPublished work = (work', s')) :
    Layers budget s entry work'.status.failed s' := by
  unfold publishPending at h
  split_ifs at h
  · obtain ⟨rfl, rfl⟩ := Prod.mk.inj h
    rw [hwork]
    exact ht
  cases hpub : t.publish pending with
  | mk answer after =>
      have hafter := ht.publish hpub
      rw [hpub] at h
      cases answer with
      | error code =>
          obtain ⟨rfl, rfl⟩ := Prod.mk.inj h
          exact hafter
      | _ =>
          obtain ⟨rfl, rfl⟩ := Prod.mk.inj h
          rw [unblock_failed]
          show Layers budget s entry work.status.failed _
          rw [hwork]
          exact hafter.rest (hmark _)

/-- Publishing the detail tiles, after layers that have not failed. -/
theorem publishDetail_layers (hwork : work.status.failed = false)
    (ht : Layers budget s entry false t) (h : t.publishDetail work = (work', s')) :
    Layers budget s entry work'.status.failed s' := by
  have hdone : ∀ (after : Session) (work' : Work) (s' : Session),
      Layers budget s entry false after →
      (((work.announce {.waveformDetail} after.generation).unblock,
        { after with detail := { after.detail with
          publishedSerial := after.detail.mutationSerial } }) : Work × Session) = (work', s') →
        Layers budget s entry work'.status.failed s' := by
    intro after work' s' hafter heq
    obtain ⟨rfl, rfl⟩ := Prod.mk.inj heq
    rw [unblock_failed]
    show Layers budget s entry work.status.failed _
    rw [hwork]
    exact hafter.rest ⟨rfl, rfl, rfl, rfl, rfl, rfl, .refl _, rfl, rfl, rfl, rfl⟩
  unfold publishDetail at h
  cases hpublished : work.published
  · rw [hpublished] at h
    cases hpub : t.publish {.waveformDetail} with
    | mk answer after =>
        have hafter := ht.publish hpub
        simp only [Bool.false_eq_true, if_false, hpub] at h
        cases answer with
        | error code =>
            obtain ⟨rfl, rfl⟩ := Prod.mk.inj h
            exact hafter
        | _ => exact hdone after work' s' hafter h
  · rw [hpublished] at h
    simp only [if_true] at h
    exact hdone t work' s' ht h

/-- The end of the detail layer, after an overview layer that has not failed. -/
theorem finishDetail_layers {detailChanged : Bool} {selected : ℕ} (hwork : work.status.failed = false)
    (ht : Layers budget s entry false t)
    (h : t.finishDetail detailChanged selected work = (work', s')) :
    Layers budget s entry work'.status.failed s' := by
  unfold finishDetail at h
  simp only at h
  set chosen := if work.didWork then { t with requests := noteChoice selected t.requests } else t
    with hchosen
  have hchosenTrack : SameTrack t chosen := by
    rw [hchosen]
    split_ifs
    · exact ⟨rfl, rfl, rfl, rfl, rfl, rfl, .refl _, rfl, rfl, rfl, rfl⟩
    · exact .refl t
  have hupdated := (ht.rest hchosenTrack).rest (updateDetailRequestStates_sameTrack _)
  split_ifs at h
  · exact publishDetail_layers hwork hupdated h
  · obtain ⟨rfl, rfl⟩ := Prod.mk.inj h
    rw [hwork]
    exact hupdated

/-- The detail layer, as the local estimator calls it. -/
theorem processDetail_layers
    (h : (s.demandOverview s4Features).processDetail budget progress = (work, s')) :
    Layers budget s s.chunkEntry work.status.failed s' := by
  unfold processDetail at h
  simp only at h
  set refreshed := (s.demandOverview s4Features).refreshDetail with hrefreshed
  have hstaged : SameTrack s refreshed.stageDemand :=
    ((demandOverview_sameTrack _ s).trans (refreshDetail_sameTrack _)).trans
      (stageDemand_sameTrack _)
  cases hreserve : refreshed.stageDemand.reserveAccumulators with
  | mk answer reserved =>
      have hentry : s.chunkEntry = reserved.raisePriorities := by
        rw [chunkEntry, ← hrefreshed, hreserve]
      have hreserved : SameTrack refreshed.stageDemand reserved := by
        have := reserveAccumulators_sameTrack refreshed.stageDemand
        rwa [hreserve] at this
      rw [hreserve] at h
      by_cases hrefused : ∃ code, answer = .error code
      · -- The reservation fails before anything is consumed.
        obtain ⟨code, rfl⟩ := hrefused
        obtain ⟨rfl, rfl⟩ := Prod.mk.inj h
        exact .refused ((hstaged.trans hreserved).trans (restoreDemand_sameTrack _ _))
      cases hbase : reserved.raisePriorities.processBase budget progress with
      | mk base after =>
          have hlayers : Layers budget s s.chunkEntry base.status.failed
              (refreshed.restoreDemand after) :=
            (processBase_layers (hentry ▸ hbase)).rest (restoreDemand_sameTrack _ _)
          have hmatch : (if base.status.failed = true then (base, refreshed.restoreDemand after)
              else (refreshed.restoreDemand after).finishDetail
                (decide (refreshed.detail.mutationSerial ≠ refreshed.detail.publishedSerial))
                refreshed.stageDemand.headRequestId base) = (work, s') := by
            cases answer with
            | error code => exact absurd ⟨code, rfl⟩ hrefused
            | _ => simpa only [hbase] using h
          cases hfail : base.status.failed
          · rw [hfail, if_neg Bool.false_ne_true] at hmatch
            exact finishDetail_layers hfail (hfail ▸ hlayers) hmatch
          · rw [hfail, if_pos rfl] at hmatch
            obtain ⟨rfl, rfl⟩ := Prod.mk.inj hmatch
            exact hlayers

/-- An estimator layer after layers that have not failed: its refresh, and what it publishes. -/
private theorem estimator_layers (pending : Session → FeatureMask)
    {markPublished : Session → Session} (hmark : ∀ s, SameTrack s (markPublished s))
    (hwork : work.status.failed = false) (ht : Layers budget s entry false t)
    {status : Status} {steps : ℕ} {after noted : Session} (hafter : SameTrack t after)
    (hnoted : SameTrack after noted)
    (h : (if status.failed = true then (work.stop status, after)
      else noted.publishPending (pending noted) markPublished (noteRefresh work status steps)) =
        (work', s')) : Layers budget s entry work'.status.failed s' := by
  cases hfail : status.failed
  · rw [hfail, if_neg Bool.false_ne_true] at h
    exact publishPending_layers hmark (noteRefresh_failed hwork status steps)
      ((ht.rest hafter).rest hnoted) h
  · rw [hfail, if_pos rfl] at h
    obtain ⟨rfl, rfl⟩ := Prod.mk.inj h
    show Layers budget s entry status.failed after
    rw [hfail]
    exact ht.fail hafter

/-- The local estimator around the detail layer. -/
theorem processS4_layers (h : s.processS4 budget progress = some (work, s')) :
    Layers budget s s.chunkEntry work.status.failed s' := by
  unfold processS4 at h
  cases hdetail : (s.demandOverview s4Features).processDetail budget progress with
  | mk base after =>
      have hlayers : Layers budget s s.chunkEntry base.status.failed (s.restoreDemand after) :=
        (processDetail_layers hdetail).rest (restoreDemand_sameTrack _ _)
      rw [hdetail] at h
      simp only at h
      cases hfail : base.status.failed
      · rw [hfail, if_neg Bool.false_ne_true] at h
        rw [hfail] at hlayers
        obtain ⟨⟨status, steps, refreshed⟩, hrefresh, h⟩ := Option.map_eq_some_iff.mp h
        exact estimator_layers s4PendingFeatures s4MarkPublished_sameTrack hfail hlayers
          ((s4StepLimit_sameTrack budget base _).trans (refreshS4_sameTrack hrefresh))
          (noteRangesMoved_sameTrack _ _ _) h
      · rw [hfail, if_pos rfl] at h
        obtain ⟨rfl, rfl⟩ := Prod.mk.inj (Option.some.inj h)
        exact hlayers

/-- The global estimator around the local one. -/
theorem processS6_layers (h : s.processS6 budget progress = some (work, s')) :
    Layers budget s s.chunkEntry work.status.failed s' := by
  unfold processS6 at h
  obtain ⟨⟨base, after⟩, hbase, h⟩ := Option.bind_eq_some_iff.mp h
  have hlayers := processS4_layers hbase
  cases hfail : base.status.failed
  · simp only [hfail, if_neg Bool.false_ne_true] at h
    rw [hfail] at hlayers
    obtain ⟨⟨status, steps, refreshed⟩, hrefresh, h⟩ := Option.map_eq_some_iff.mp h
    exact estimator_layers s6PendingFeatures s6MarkPublished_sameTrack hfail hlayers
      ((s6StepLimit_sameTrack budget base _).trans (refreshS6_sameTrack hrefresh)) (.refl _) h
  · simp only [hfail, if_true] at h
    obtain ⟨rfl, rfl⟩ := Prod.mk.inj (Option.some.inj h)
    exact hlayers

end Layered

/-! ## The process call -/

/-- The session once the deadline of a process call is set. -/
def started (budget : WorkBudget) (s : Session) : Session :=
  { s with env := s.env.startDeadline budget.softTimeBudgetUs }

theorem started_sameTrack (budget : WorkBudget) (s : Session) : SameTrack s (s.started budget) :=
  ⟨rfl, rfl, rfl, rfl, rfl, rfl, .refl _, rfl, rfl, rfl, rfl⟩

/-- The session as the layers leave it. A session without an overview runs none. -/
inductive Worked (budget : WorkBudget) (s : Session) : Bool → Session → Prop
  | layers {failed : Bool} {t : Session} (hoverview : s.config.requests .waveformOverview = true)
      (h : Layers budget s s.chunkEntry failed t) : Worked budget s failed t
  | nothing (hoverview : s.config.requests .waveformOverview = false) : Worked budget s false s

/-- The session as a process call leaves it, from the session once its deadline is set. -/
inductive Processed (budget : WorkBudget) (s : Session) : Session → Prop
  | idle {s' : Session} (h : SameTrack s s') : Processed budget s s'
  | cancelled {status : Status} {t s' : Session} (hcancel : s.cancelRequested = true)
      (h : s.transition .cancelled = (status, t)) (h' : SameTrack t s') : Processed budget s s'
  | worked {failed : Bool} {t s' : Session} (hcancel : s.cancelRequested = false)
      (h : Worked budget s failed t) (h' : SameTrack t s') : Processed budget s s'
  | completed {status : Status} {t u s' : Session} (hcancel : s.cancelRequested = false)
      (h : Worked budget s false t) (hdrains : t.state = .draining) (hdrained : t.queue = [])
      (hdone : t.transition .completed = (status, u)) (h' : SameTrack u s') : Processed budget s s'

private theorem clearDeadline_sameTrack (s : Session) :
    SameTrack s { s with env := s.env.clearDeadline } :=
  ⟨rfl, rfl, rfl, rfl, rfl, rfl, .refl _, rfl, rfl, rfl, rfl⟩

/-- The layers of a call. -/
theorem runLayers_worked {budget : WorkBudget} {progress : Progress} {s t : Session} {work : Work}
    (h : s.runLayers budget progress = some (work, t)) : Worked budget s work.status.failed t := by
  unfold runLayers at h
  cases hoverview : s.config.requests .waveformOverview
  · rw [hoverview, if_neg Bool.false_ne_true] at h
    obtain ⟨rfl, rfl⟩ := Prod.mk.inj (Option.some.inj h)
    exact .nothing hoverview
  · rw [hoverview, if_pos rfl] at h
    exact .layers hoverview (processS6_layers h)

/-- The session at the end of a process call, before its deadline is cleared: a call on a session that
is over does nothing, one that finds a cancellation only cancels, and any other runs the layers and
perhaps completes the session. -/
inductive CallEnd (budget : WorkBudget) (s : Session) : Session → Prop
  | idle (hcancel : s.cancelRequested = false)
      (hover : s.state = .completed ∨ s.state = .cancelled ∨ s.state = .failed) :
      CallEnd budget s s
  | cancelled {status : Status} {u : Session} (hcancel : s.cancelRequested = true)
      (h : s.transition .cancelled = (status, u)) : CallEnd budget s u
  | worked {before : Progress} {work : Work} {u : Session} (hcancel : s.cancelRequested = false)
      (hlive : s.state = .created ∨ s.state = .active ∨ s.state = .draining)
      (hrun : s.runLayers budget before = some (work, u)) : CallEnd budget s u
  | completed {before : Progress} {work : Work} {status : Status} {t u : Session}
      (hcancel : s.cancelRequested = false)
      (hlive : s.state = .created ∨ s.state = .active ∨ s.state = .draining)
      (hrun : s.runLayers budget before = some (work, t)) (hok : work.status.failed = false)
      (hdrains : t.state = .draining) (hdrained : t.queue = [])
      (hdone : t.transition .completed = (status, u)) : CallEnd budget s u

/-- The end of a call leaves the session, or tries to complete it when it has drained. -/
theorem concludeCall_cases {work : Work} {s s' : Session} {status : Status} {progress : Progress}
    (h : s.concludeCall work = (status, progress, s')) :
    s' = s ∨ work.status.failed = false ∧ s.state = .draining ∧ s.queue = [] ∧
      ∃ answer, s.transition .completed = (answer, s') := by
  have hsame : ∀ {status' : Status} {progress' : Progress} {t : Session},
      (status', progress', t) = (status, progress, s') → t = s' :=
    fun heq => (Prod.mk.inj (Prod.mk.inj heq).2).2
  unfold concludeCall at h
  by_cases hfail : work.status.failed = true
  · rw [if_pos hfail] at h
    exact .inl (hsame h).symm
  rw [if_neg hfail] at h
  by_cases hdrained : s.state = .draining ∧ s.queue = [] ∧ (!s.analysisPending) = true
  · rw [if_pos hdrained] at h
    refine .inr ⟨Bool.eq_false_iff.mpr hfail, hdrained.1, hdrained.2.1, ?_⟩
    cases hdone : s.transition .completed with
    | mk answer after =>
        rw [hdone] at h
        have heq : after = s' := by cases answer <;> exact hsame h
        exact ⟨answer, by rw [heq]⟩
  · rw [if_neg hdrained] at h
    exact .inl (hsame h).symm

/-- Every process call ends so. -/
theorem processImpl_cases {budget : WorkBudget} {s s' : Session} {status : Status}
    {progress : Progress} (h : s.processImpl budget = some (status, progress, s')) :
    ∃ u, s' = { u with env := u.env.clearDeadline } ∧ CallEnd budget (s.started budget) u := by
  obtain ⟨⟨status', progress', u⟩, hstarted, h⟩ := Option.map_eq_some_iff.mp h
  refine ⟨u, (Prod.mk.inj (Prod.mk.inj h).2).2.symm, ?_⟩
  change processStarted budget (s.started budget) = _ at hstarted
  generalize s.started budget = t at hstarted ⊢
  unfold processStarted at hstarted
  simp only at hstarted
  by_cases hcancel : t.cancelRequested = true
  · rw [if_pos hcancel] at hstarted
    cases htrans : t.transition .cancelled with
    | mk answer after =>
        rw [htrans] at hstarted
        have heq : after = u := by
          cases answer <;> exact (Prod.mk.inj (Prod.mk.inj (Option.some.inj hstarted)).2).2
        exact .cancelled hcancel (heq ▸ htrans)
  rw [if_neg hcancel] at hstarted
  rw [Bool.not_eq_true] at hcancel
  cases hstate : t.state <;> rw [hstate] at hstarted
  case created | active | draining =>
    have hlive : t.state = .created ∨ t.state = .active ∨ t.state = .draining := by simp [hstate]
    obtain ⟨⟨work, after⟩, hrun, heq⟩ := Option.map_eq_some_iff.mp hstarted
    rcases concludeCall_cases heq with rfl | ⟨hok, hdrains, hdrained, answer, hdone⟩
    · exact .worked hcancel hlive hrun
    · exact .completed hcancel hlive hrun hok hdrains hdrained hdone
  all_goals
    simp only [Option.some.injEq, Prod.mk.injEq] at hstarted
    obtain ⟨-, -, rfl⟩ := hstarted
    exact .idle hcancel (by simp [hstate])

/-- Every process call is one of these. -/
theorem processImpl_processed {budget : WorkBudget} {s s' : Session} {status : Status}
    {progress : Progress} (h : s.processImpl budget = some (status, progress, s')) :
    Processed budget (s.started budget) s' := by
  obtain ⟨u, rfl, hu⟩ := processImpl_cases h
  have hclear := clearDeadline_sameTrack u
  cases hu with
  | idle => exact .idle hclear
  | cancelled hcancel h => exact .cancelled hcancel h hclear
  | worked hcancel _ hrun => exact .worked hcancel (runLayers_worked hrun) hclear
  | completed hcancel _ hrun hok hdrains hdrained hdone =>
      exact .completed hcancel (hok ▸ runLayers_worked hrun) hdrains hdrained hdone hclear

/-! ## What a process call leaves of the input -/

/-- The two sessions have accepted the same frames of an input of the same length, and the second one
has not started to drain. -/
structure SameInput (s s' : Session) : Prop where
  config : s'.config = s.config
  draining : s'.state = .draining → s.state = .draining
  endOfInput : s'.endOfInput = s.endOfInput
  ranges : s'.accepted.ranges = s.accepted.ranges
  greatestEnd : s'.accepted.greatestEnd = s.accepted.greatestEnd
  maximumEnd : s'.accepted.maximumEnd = s.accepted.maximumEnd

theorem SameInput.refl (s : Session) : SameInput s s := ⟨rfl, id, rfl, rfl, rfl, rfl⟩

theorem SameInput.trans {a b c : Session} (h : SameInput a b) (h' : SameInput b c) :
    SameInput a c :=
  ⟨h'.config.trans h.config, h.draining ∘ h'.draining, h'.endOfInput.trans h.endOfInput,
    h'.ranges.trans h.ranges, h'.greatestEnd.trans h.greatestEnd, h'.maximumEnd.trans h.maximumEnd⟩

theorem SameTrack.sameInput {s s' : Session} (h : SameTrack s s') : SameInput s s' :=
  ⟨h.config, h.state.symm.trans, h.endOfInput, h.ranges, h.greatestEnd, h.maximumEnd⟩

theorem published_sameInput (mask : FeatureMask) (s : Session) : SameInput s (s.published mask) :=
  ⟨rfl, id, rfl, rfl, rfl, rfl⟩

theorem markPublicationPending_sameInput (s : Session) : SameInput s s.markPublicationPending :=
  ⟨rfl, id, rfl, rfl, rfl, rfl⟩

theorem setChunkState_sameInput (state : ChunkState) (s : Session) :
    SameInput s (s.setChunkState state) := ⟨rfl, id, rfl, rfl, rfl, rfl⟩

theorem Announces.sameInput {s s' : Session} (h : Announces s s') : SameInput s s' := by
  induction h with
  | rest h => exact h.sameInput
  | publish mask h _ ih => exact (h.sameInput.trans (published_sameInput mask _)).trans ih

theorem Unannounced.sameInput {s s' : Session} (h : Unannounced s s') : SameInput s s' := by
  cases h with
  | kept h => exact h.sameInput
  | forgotten h => exact (markPublicationPending_sameInput s).trans h.sameInput

theorem Layers.sameInput {budget : WorkBudget} {s entry s' : Session} {failed : Bool}
    (h : Layers budget s entry failed s') (hentry : SameInput s entry) : SameInput s s' := by
  have hchunk : ∀ state, SameInput s (entry.setChunkState state) := fun state =>
    hentry.trans (setChunkState_sameInput state entry)
  cases h with
  | refused h => exact h.sameInput
  | interrupted _ h => exact (hchunk _).trans h.sameInput
  | announced _ _ h => exact (hchunk _).trans h.sameInput
  | unannounced _ _ h h' => exact ((hchunk _).trans h.sameInput).trans h'.sameInput

theorem transition_sameInput {new : SessionState} {s s' : Session} {status : Status}
    (hnew : new ≠ .draining) (h : s.transition new = (status, s')) : SameInput s s' := by
  rcases transition_cases h with ⟨-, -, rfl⟩ | ⟨-, -, env, rfl⟩ | ⟨-, hun⟩
  · exact .refl _
  · exact ⟨rfl, fun hstate => absurd hstate hnew, rfl, rfl, rfl, rfl⟩
  · exact hun.unannounced.sameInput

theorem Worked.sameInput {budget : WorkBudget} {s s' : Session} {failed : Bool}
    (h : Worked budget s failed s') : SameInput s s' := by
  cases h with
  | layers _ h => exact h.sameInput s.chunkEntry_sameTrack.sameInput
  | nothing => exact .refl _

/-- A process call accepts nothing. -/
theorem Processed.sameInput {budget : WorkBudget} {s s' : Session} (h : Processed budget s s') :
    SameInput s s' := by
  cases h with
  | idle h => exact h.sameInput
  | cancelled _ h h' => exact (transition_sameInput (by decide) h).trans h'.sameInput
  | worked _ h h' => exact h.sameInput.trans h'.sameInput
  | completed _ h _ _ hdone h' =>
      exact (h.sameInput.trans (transition_sameInput (by decide) hdone)).trans h'.sameInput

end Session

end LibApta
