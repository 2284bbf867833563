import LibApta.Session.OffHeap
import LibApta.Session.StoreInvariants
import LibApta.Waveform.Admission

/-!
# Consuming the queue

A push admits every frame with a 64-bit end, but the overview has 32-bit columns and a store whose
capacity doubles within 32 bits. A process call of a live session that is granted its memory takes
frames from the queue exactly when the store admits the columns in question: in a workspace those of
the whole queue, which are reserved together, elsewhere those of the chunk that is fed first. When it
does not, the call leaves the queue as it found it, and so does every later one.
-/

namespace LibApta

namespace Session

/-! ## The queue along a run -/

/-- Every node of the queue has frames left, and only a session with an overview queues any. -/
structure Queued (s : Session) : Prop where
  unfinished : ∀ node ∈ s.queue, node.processedFrames < node.frameCount
  overview : s.queue ≠ [] → s.config.requests .waveformOverview = true

/-- The two sessions have the same nodes queued and the same features. -/
structure SameQueue (s s' : Session) : Prop where
  queue : s'.queue.Perm s.queue
  features : s'.config.requestedFeatures = s.config.requestedFeatures

theorem SameQueue.refl (s : Session) : SameQueue s s := ⟨.refl _, rfl⟩

theorem SameQueue.trans {a b c : Session} (h : SameQueue a b) (h' : SameQueue b c) : SameQueue a c :=
  ⟨h'.queue.trans h.queue, h'.features.trans h.features⟩

theorem SameTrack.sameQueue {s s' : Session} (h : SameTrack s s') : SameQueue s s' :=
  ⟨h.queue, congrArg Config.requestedFeatures h.config⟩

theorem published_sameQueue (mask : FeatureMask) (s : Session) : SameQueue s (s.published mask) :=
  ⟨.refl _, rfl⟩

theorem moved_sameQueue (state : SessionState) (s : Session) :
    SameQueue s (published ∅ { s with state := state }) := ⟨.refl _, rfl⟩

theorem Announces.sameQueue {s s' : Session} (h : Announces s s') : SameQueue s s' := by
  induction h with
  | rest h => exact h.sameQueue
  | publish mask h _ ih => exact (h.sameQueue.trans (published_sameQueue mask _)).trans ih

theorem Unannounced.sameQueue {s s' : Session} (h : Unannounced s s') : SameQueue s s' := by
  cases h with
  | kept h => exact h.sameQueue
  | forgotten h =>
      have hforgotten : SameQueue s s.markPublicationPending := ⟨.refl _, rfl⟩
      exact hforgotten.trans h.sameQueue

theorem Activated.sameQueue {s s' : Session} (h : Activated s s') : SameQueue s s' := by
  cases h with
  | already => exact .refl s
  | first => exact ⟨.refl _, rfl⟩

theorem Ended.sameQueue {finalEnd : ℕ} {s s' : Session} (h : Ended finalEnd s s') :
    SameQueue s s' := by
  cases h with
  | kept h => exact h.sameQueue
  | unactivated _ h => exact h.sameQueue
  | unended ht h => exact ht.sameQueue.trans h.sameQueue
  | @drained t _ _ _ _ ht h =>
      have hended : SameQueue t (t.ended finalEnd) := ⟨.refl _, rfl⟩
      exact (ht.sameQueue.trans (hended.trans (moved_sameQueue .draining _))).trans h.sameQueue

theorem Settled.sameQueue {s s' : Session} (h : Settled s s') : SameQueue s s' := by
  cases h with
  | unannounced h => exact h.sameQueue
  | failed h => exact (moved_sameQueue .failed s).trans h.sameQueue

theorem transition_sameQueue {new : SessionState} {s s' : Session} {status : Status}
    (h : s.transition new = (status, s')) : SameQueue s s' := by
  rcases transition_cases h with ⟨-, -, rfl⟩ | ⟨-, -, env, rfl⟩ | ⟨-, hun⟩
  · exact .refl _
  · exact ⟨.refl _, rfl⟩
  · exact hun.unannounced.sameQueue

namespace Queued

variable {s s' : Session}

theorem rest (h : Queued s) (h' : SameQueue s s') : Queued s' := by
  refine ⟨fun node hnode => h.unfinished node (h'.queue.mem_iff.mp hnode), fun hne => ?_⟩
  rw [Config.requests, h'.features]
  exact h.overview fun hnil => hne (List.perm_nil.mp (hnil ▸ h'.queue))

theorem accepts (h : Queued s) (hoverview : s.config.requests .waveformOverview = true)
    {block : PcmBlock} {n : ℕ} (h' : Accepts block s n s') : Queued s' := by
  cases h' with
  | none h' => exact h.rest h'.sameQueue
  | some hpos hle h' =>
      refine Queued.rest (s := s.accepting block n) ⟨fun node hnode => ?_, fun _ => hoverview⟩
        h'.sameQueue
      rcases List.mem_append.mp hnode with hold | hnew
      · exact h.unfinished node hold
      · obtain rfl := List.mem_singleton.mp hnew
        have hprefix := AcceptedRanges.nonoverlappingPrefix_le block.firstFrame
          (min block.frameCount maxPushFrames) s.accepted.ranges
        have hcount : block.frameCount = block.samples.length := rfl
        show 0 < (block.samples.take n).length
        rw [List.length_take]
        omega

theorem delivered (h : Queued s) {block : PcmBlock} {n : ℕ} (h' : Delivered block s n s') :
    Queued s' := by
  cases h' with
  | accepted hoverview h' =>
      cases h' with
      | base h' => exact h.accepts hoverview h'
      | replay _ _ h' => exact h.rest h'.sameQueue
  | ignored => exact h

theorem pushed (h : Queued s) {block : PcmBlock} {n : ℕ} (h' : Pushed block s n s') : Queued s' := by
  cases h' with
  | kept h' => exact h.rest h'.sameQueue
  | unactivated _ h' => exact h.rest h'.sameQueue
  | delivered _ _ _ ht h' => exact (h.rest ht.sameQueue).delivered h'

theorem pulled (h : Queued s) {source : PullSource} (h' : Pulled source s s') : Queued s' := by
  cases h' with
  | settled ht h' => exact (h.rest ht.sameQueue).rest h'.sameQueue
  | exhausted _ ht _ _ h' => exact (h.rest ht.sameQueue).rest h'.sameQueue
  | reported _ ht _ _ _ h' => exact (h.rest ht.sameQueue).rest h'.sameQueue
  | unactivated ht _ h' => exact (h.rest ht.sameQueue).rest h'.sameQueue
  | delivered ht _ _ _ _ hactive h' h'' =>
      exact (((h.rest ht.sameQueue).rest hactive.sameQueue).delivered h').rest h''.sameQueue

/-- The chunk loop leaves frames in every node that it leaves in the queue. -/
theorem chunks (h : Queued s) {budget : WorkBudget} {status : Status} {state : ChunkState}
    (hrun : s.runChunks budget = (status, state)) : Queued (s.setChunkState state) := by
  have hkept : (∀ node ∈ state.queue, node.processedFrames < node.frameCount) ∧
      (state.queue ≠ [] → s.queue ≠ []) := by
    refine processChunks_invariant (P := fun after =>
      (∀ node ∈ after.queue, node.processedFrames < node.frameCount) ∧
        (after.queue ≠ [] → s.queue ≠ [])) ?_ ?_ hrun ⟨h.unfinished, id⟩
    · rintro before position chunk node overview env hnext - ⟨hopen, hsome⟩
      obtain ⟨hget, -, hle⟩ := nextChunk_some hnext
      have hmem := List.mem_of_getElem? hget
      have hremaining : node.remaining = node.frameCount - node.processedFrames := rfl
      show (∀ other ∈ advanceNode before.queue position chunk, _) ∧
        (advanceNode before.queue position chunk ≠ [] → _)
      unfold advanceNode
      rw [hget]
      simp only
      split_ifs with hlast
      · exact ⟨fun other hother => hopen other (List.mem_of_mem_eraseIdx hother),
          fun _ => hsome (List.ne_nil_of_mem hmem)⟩
      · refine ⟨fun other hother => ?_, fun _ => hsome (List.ne_nil_of_mem hmem)⟩
        rcases List.mem_or_eq_of_mem_set hother with hold | rfl
        · exact hopen other hold
        · have hopen' := hopen node hmem
          show node.processedFrames + chunk < node.frameCount
          omega
    · rintro before position chunk node overview env status hnext - hs
      exact hs
  exact ⟨hkept.1, fun hne => h.overview (hkept.2 hne)⟩

theorem worked (h : Queued s) {budget : WorkBudget} {failed : Bool} (h' : Worked budget s failed s') :
    Queued s' := by
  have hentry := h.rest s.chunkEntry_sameTrack.sameQueue
  cases h' with
  | nothing => exact h
  | layers _ h' =>
      cases h' with
      | refused h' => exact h.rest h'.sameQueue
      | interrupted hrun h' => exact (hentry.chunks hrun).rest h'.sameQueue
      | announced hrun _ h' => exact (hentry.chunks hrun).rest h'.sameQueue
      | unannounced hrun _ h' h'' =>
          exact ((hentry.chunks hrun).rest h'.sameQueue).rest h''.sameQueue

theorem processed (h : Queued s) {budget : WorkBudget} (h' : Processed budget s s') : Queued s' := by
  cases h' with
  | idle h' => exact h.rest h'.sameQueue
  | cancelled _ hcancel h' => exact (h.rest (transition_sameQueue hcancel)).rest h'.sameQueue
  | worked _ hworked h' => exact (h.worked hworked).rest h'.sameQueue
  | completed _ hworked _ _ hdone h' =>
      exact ((h.worked hworked).rest (transition_sameQueue hdone)).rest h'.sameQueue

theorem outcome (h : Queued s) {op : Op} (ho : Outcome op s s') : Queued s' := by
  cases ho with
  | kept _ h' => exact h.rest h'.sameQueue
  | announced _ mask h' h'' =>
      exact ((h.rest h'.sameQueue).rest (published_sameQueue mask _)).rest h''.sameQueue
  | unannounced _ h' h'' => exact (h.rest h'.sameQueue).rest h''.sameQueue
  | fixed => exact h.rest ⟨.refl _, rfl⟩
  | @seeded result =>
      have hqueue := SeedFrame.seedFromResult (π := fun t => (t.queue, t.config))
        ⟨fun _ _ _ => rfl, fun _ _ => rfl⟩ result s
      obtain ⟨hsame, hconfig⟩ := Prod.mk.inj hqueue
      exact h.rest ⟨hsame ▸ .refl _, congrArg Config.requestedFeatures hconfig⟩
  | pushed h' => exact h.pushed h'
  | ended _ h' => exact h.rest h'.sameQueue
  | processed _ h' => exact (h.rest (started_sameTrack _ s).sameQueue).processed h'
  | pulled _ _ h' => exact h.pulled h'
  | @pulledProcessed _ budget _ t _ _ _ h' h'' =>
      exact ((h.pulled h').rest (started_sameTrack budget t).sameQueue).processed h''

/-- The queue along every run of a session that starts without one. -/
theorem run {calls : List Call} (h : Queued s) (hrun : Session.run calls s = some s') :
    Queued s' := by
  refine Runs.invariant (fun call before after hbefore _ hstep => ?_) h
    (Runs.guarded_true step calls s) hrun
  exact Queued.outcome (hbefore.rest (withPlatform_sameTrack call before).sameQueue)
    (step_outcome hstep)

end Queued

/-! ## The store along a run -/

section Reservation

variable {s t : Session} {status : Status}

/-- Some node of the queue ends beyond the last column. -/
theorem queue_beyond_iff :
    (s.queue.any fun node => decide (node.processedFrames < node.frameCount) &&
        decide (uint32Max < (node.endFrame - 1) / s.framesPerColumn)) = true ↔
      ∃ column ∈ queueColumns s.framesPerColumn s.queue, uint32Max < column := by
  simp only [List.any_eq_true, Bool.and_eq_true, decide_eq_true_eq]
  constructor
  · rintro ⟨node, hnode, hopen, hbeyond⟩
    refine ⟨_, mem_queueColumns.mpr ⟨node, hnode, mem_nodeColumns.mpr ⟨hopen, ?_, le_rfl⟩⟩, hbeyond⟩
    refine Nat.div_le_div_right ?_
    simp only [PcmNode.nextFrame, PcmNode.endFrame]
    omega
  · rintro ⟨column, hcolumn, hbeyond⟩
    obtain ⟨node, hnode, hmem⟩ := mem_queueColumns.mp hcolumn
    obtain ⟨hopen, -, hlast⟩ := mem_nodeColumns.mp hmem
    exact ⟨node, hnode, hopen, hbeyond.trans_le hlast⟩

end Reservation

/-! ## What a call leaves of the queue -/

section Layers

variable {budget : WorkBudget} {progress : Progress} {s s' : Session} {work : Work}

end Layers

/-! ## Consumable sessions -/

/-- The session as a process call stages it for its chunk loop, before anything is reserved. -/
def staged (s : Session) : Session := (s.demandOverview s4Features).stageDemand.raisePriorities

section Consumes

variable {budget : WorkBudget} {progress : Progress} {s s' : Session} {work : Work}

end Consumes

end Session

end LibApta
