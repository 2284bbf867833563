import LibApta.Session.AcceptedSet
import LibApta.Session.Consumption
import LibApta.Session.Slots

/-!
# The accounts of a session

Each accepted frame of a session that is not seeded is in the queue or in its column, never in both:
the columns summarise the accepted frames that the queue does not hold. A process call keeps these
accounts when it feeds no chunk half way; every other call keeps them.
-/

namespace LibApta

/-! ## The accounts of a queue and a store -/

namespace Accounts

variable {framesPerColumn : ℕ} {endOfInput : Option ℕ} {signal : ℕ → ℚ} {seeded accepted : Set ℕ}
  {queue queue' : List PcmNode} {overview overview' : Overview}

/-- The accounts depend on the queue up to its order, and on the columns and their counter. -/
theorem congr (h : Accounts framesPerColumn endOfInput signal seeded accepted queue overview)
    (hqueue : queue'.Perm queue) (haccumulators : overview'.accumulators = overview.accumulators)
    (hcount : overview'.completeCount = overview.completeCount) :
    Accounts framesPerColumn endOfInput signal seeded accepted queue' overview' := by
  have hcolumn : overview'.column = overview.column := by
    funext columnIndex
    rw [Overview.column, Overview.column, haccumulators]
  have hpending := pendingFrames_perm hqueue
  refine ⟨h.queued.perm hqueue, hpending ▸ h.pending, hpending ▸ h.fresh, h.bounded,
    hpending ▸ ⟨?_, ?_, ?_, ?_⟩, ?_⟩
  · rw [Overview.Sorted, haccumulators]
    exact h.ledger.sorted
  · rw [hcolumn]
    exact h.ledger.present
  · rw [hcolumn]
    exact h.ledger.absent
  · rw [hcount, haccumulators]
    exact h.ledger.counted
  · rw [MarksSound, hcolumn]
    exact h.sound

/-- The column of a store whose marks are forgotten. -/
theorem column_forgetMarks (hs : overview.Sorted) (columnIndex : ℕ) :
    overview.forgetMarks.column columnIndex = overview.unmarkedColumn columnIndex :=
  (KeyedList.map_spec hs (f := fun acc : Accumulator => { acc with complete := false })
    fun _ => rfl).2 columnIndex

/-- Forgetting the marks keeps the accounts. -/
theorem forget (h : Accounts framesPerColumn endOfInput signal seeded accepted queue overview) :
    Accounts framesPerColumn endOfInput signal seeded accepted queue overview.forgetMarks := by
  have hcolumn := column_forgetMarks h.ledger.sorted
  refine ⟨h.queued, h.pending, h.fresh, h.bounded, ⟨?_, ?_, ?_, ?_⟩, ?_⟩
  · exact (KeyedList.map_spec h.ledger.sorted
      (f := fun acc : Accumulator => { acc with complete := false }) fun _ => rfl).1
  · intro columnIndex hseed acc hacc
    rw [hcolumn, Overview.unmarkedColumn, Option.map_eq_some_iff] at hacc
    obtain ⟨old, hold, rfl⟩ := hacc
    obtain ⟨hsum, hne⟩ := h.ledger.present columnIndex hseed old hold
    exact ⟨hsum.congr old.bandSums false, hne⟩
  · intro columnIndex hseed hnone
    rw [hcolumn, Overview.unmarkedColumn, Option.map_eq_none_iff] at hnone
    exact h.ledger.absent columnIndex hseed hnone
  · show 0 = (overview.accumulators.map fun acc => { acc with complete := false }).countP
      Accumulator.complete
    rw [List.countP_map, eq_comm, List.countP_eq_zero]
    exact fun _ _ => Bool.false_ne_true
  · intro columnIndex acc hacc hmark
    rw [hcolumn, Overview.unmarkedColumn, Option.map_eq_some_iff] at hacc
    obtain ⟨old, -, rfl⟩ := hacc
    exact absurd hmark Bool.false_ne_true

/-- Frames that are accepted now go to the queue. -/
theorem accept (h : Accounts framesPerColumn endOfInput signal seeded accepted queue overview)
    {first : ℕ} {samples : List ℚ} (hne : 0 < samples.length)
    (hnew : ∀ frame, first ≤ frame → frame < first + samples.length → frame ∉ accepted)
    (hseed : ∀ frame, first ≤ frame → frame < first + samples.length →
      frame / framesPerColumn ∉ seeded)
    (hend : ∀ finalEnd ∈ endOfInput, first + samples.length ≤ finalEnd)
    (hsignal : ∀ i (hi : i < samples.length), samples[i] = signal (first + i)) :
    Accounts framesPerColumn endOfInput signal seeded
      (accepted ∪ {frame | first ≤ frame ∧ frame < first + samples.length})
      (queue ++ [⟨first, samples, 0⟩]) overview := by
  have hpending : pendingFrames (queue ++ [⟨first, samples, 0⟩]) =
      pendingFrames queue ∪ {frame | first ≤ frame ∧ frame < first + samples.length} := by
    ext frame
    rw [mem_pendingFrames_append, Set.mem_union]
    simp [pendingFrames, PcmNode.nextFrame, PcmNode.endFrame, PcmNode.frameCount]
  have hprocessed : (accepted ∪ {frame | first ≤ frame ∧ frame < first + samples.length}) \
      (pendingFrames queue ∪ {frame | first ≤ frame ∧ frame < first + samples.length}) =
        accepted \ pendingFrames queue := by
    ext frame
    simp only [Set.mem_sdiff, Set.mem_union, Set.mem_ofPred_eq, not_or]
    constructor
    · rintro ⟨hacc | hin, hnot, hout⟩
      · exact ⟨hacc, hnot⟩
      · exact absurd hin hout
    · rintro ⟨hacc, hnot⟩
      exact ⟨.inl hacc, hnot, fun hin => hnew frame hin.1 hin.2 hacc⟩
  refine ⟨⟨?_, ?_, ?_⟩, ?_, ?_, ?_, ?_, h.sound⟩
  · intro node hnode
    rcases List.mem_append.mp hnode with hold | hlast
    · exact h.queued.unfinished node hold
    · obtain rfl := List.mem_singleton.mp hlast
      exact hne
  · refine List.pairwise_append.mpr ⟨h.queued.disjoint, List.pairwise_singleton _ _, ?_⟩
    intro node hnode last hlast
    obtain rfl := List.mem_singleton.mp hlast
    -- The unconsumed part of an older node is accepted already.
    have hopen := h.queued.unfinished node hnode
    have hold : ∀ frame, node.nextFrame ≤ frame → frame < node.endFrame → frame ∈ accepted :=
      fun frame hlo hhi => h.pending ⟨node, hnode, hlo, hhi⟩
    show node.endFrame ≤ first + 0 ∨ first + samples.length ≤ node.nextFrame
    by_contra hmeet
    rw [not_or, not_le, not_le] at hmeet
    have hlt : node.nextFrame < node.endFrame := Nat.add_lt_add_left hopen _
    exact hnew (max node.nextFrame first) (le_max_right _ _)
      (max_lt hmeet.2 (by omega)) (hold _ (le_max_left _ _) (max_lt hlt (by omega)))
  · intro node hnode i hi hle
    rcases List.mem_append.mp hnode with hold | hlast
    · exact h.queued.carried node hold i hi hle
    · obtain rfl := List.mem_singleton.mp hlast
      exact hsignal i hi
  · rw [hpending]
    exact Set.union_subset_union_left _ h.pending
  · rw [hpending]
    rintro frame (hold | hin)
    · exact h.fresh frame hold
    · exact hseed frame hin.1 hin.2
  · rintro frame (hold | hin) finalEnd hmem
    · exact h.bounded frame hold finalEnd hmem
    · exact hin.2.trans_le (hend finalEnd hmem)
  · rw [hpending, hprocessed]
    exact h.ledger

/-- The end of the input is fixed beyond the accepted frames. -/
theorem ended (hpos : 0 < framesPerColumn)
    (h : Accounts framesPerColumn none signal ∅ accepted queue overview) {finalEnd : ℕ}
    (hend : ∀ frame ∈ accepted, frame < finalEnd) :
    Accounts framesPerColumn (some finalEnd) signal ∅ accepted queue overview := by
  have hbounded : ∀ frame ∈ accepted, ∀ last ∈ some finalEnd, frame < last := by
    intro frame hframe last hlast
    obtain rfl := Option.some.inj (Option.mem_def.mp hlast)
    exact hend frame hframe
  refine { h with bounded := hbounded, sound := fun columnIndex acc hacc hmark => ?_ }
  -- A full column has all its frames processed, so the end of the input cuts none of them off.
  have hfull := h.sound columnIndex acc hacc hmark
  obtain ⟨⟨frame, hframe⟩, hall⟩ := (h.ledger.full_iff hpos (fun f _ last hlast => by cases hlast)
    (Set.notMem_empty columnIndex)).mp ⟨acc, hacc, hfull⟩
  have hcut : ∀ frame ∈ ownFrames framesPerColumn none columnIndex,
      frame ∈ ownFrames framesPerColumn (some finalEnd) columnIndex := fun frame hown =>
    (mem_ownFrames hpos).mpr ⟨((mem_ownFrames hpos).mp hown).1, hbounded frame (hall frame hown).1⟩
  obtain ⟨acc', hacc', hfull'⟩ := (h.ledger.full_iff hpos (fun f hf => hbounded f hf.1)
    (Set.notMem_empty columnIndex)).mpr ⟨⟨frame, hcut frame hframe⟩, fun other hother => hall other
      ((mem_ownFrames hpos).mpr ⟨((mem_ownFrames hpos).mp hother).1, fun last hlast => by
        cases hlast⟩)⟩
  rw [hacc] at hacc'
  exact Option.some.inj hacc' ▸ hfull'

end Accounts

namespace Session

/-! ## What the calls must not do -/

/-- The first samples of a block are those of a signal. -/
def carries (signal : ℕ → ℚ) (block : PcmBlock) (count : ℕ) : Prop :=
  ∀ i (hi : i < block.samples.length), i < count → block.samples[i] = signal (block.firstFrame + i)

/-- An operation takes its frames from a signal, and seeds nothing. -/
def Hears (signal : ℕ → ℚ) : Op → Session → Prop
  | .seedFromResult result, s => ∀ view, s.seedableView result ≠ .ok view
  | .pushPcm block, s => carries signal block (s.pushPcm block).2.1
  | .process source _, _ => ∀ first frames block, source first frames = .block block →
      carries signal block block.frameCount
  | _, _ => True

/-- The chunk loop from a session feeds no chunk half way. -/
def loopWhole (budget : WorkBudget) (s : Session) : Bool :=
  chunksWhole s.processContext budget.frameLimit budget.stepLimit (queuedFrames s.queue)
    { queue := s.queue
      overview := refreshCompletedColumns s.framesPerColumn s.endOfInput s.overview
      env := s.env
      consumed := 0
      steps := 0 }

/-- The session as a process call finds it when it reserves the columns of the queue. -/
def reservationEntry (s : Session) : Session :=
  (s.demandOverview s4Features).refreshDetail.stageDemand

/-- The chunk loop of a process call that finds a session feeds no chunk half way, if it is run: a
reservation that fails ends the call before it. -/
def CallWhole (budget : WorkBudget) (s : Session) : Prop :=
  s.reservationEntry.reserveAccumulators.1.failed = true ∨ s.chunkEntry.loopWhole budget = true

/-- An operation feeds no chunk half way. -/
def FeedsWhole : Op → Session → Prop
  | .process source budget, s => CallWhole budget ((s.layersEntry source budget).started budget)
  | _, _ => True

/-! ## A reservation that fails -/

section Refused

variable {budget : WorkBudget} {progress : Progress} {s s' : Session} {work : Work}

/-- A reservation that fails ends the detail layer before anything is consumed. -/
theorem processDetail_refused
    (hrefused : s.reservationEntry.reserveAccumulators.1.failed = true)
    (h : (s.demandOverview s4Features).processDetail budget progress = (work, s')) :
    work.status.failed = true ∧ SameTrack s s' := by
  unfold processDetail at h
  simp only at h
  change s.reservationEntry.reserveAccumulators.1.failed = true at hrefused
  have hentry : SameTrack s s.reservationEntry :=
    ((demandOverview_sameTrack _ s).trans (refreshDetail_sameTrack _)).trans
      (stageDemand_sameTrack _)
  have hreserved := reserveAccumulators_sameTrack s.reservationEntry
  unfold reservationEntry at hrefused hentry hreserved
  cases hreserve : (s.demandOverview s4Features).refreshDetail.stageDemand.reserveAccumulators with
  | mk answer staged =>
      rw [hreserve] at h hrefused hreserved
      cases answer with
      | error code =>
          obtain ⟨rfl, rfl⟩ := Prod.mk.inj h
          exact ⟨rfl, (hentry.trans hreserved).trans (restoreDemand_sameTrack _ _)⟩
      | _ => exact absurd hrefused Bool.false_ne_true

/-- A reservation that fails ends the layers before anything is consumed. -/
theorem runLayers_refused (hoverview : s.config.requests .waveformOverview = true)
    (hrefused : s.reservationEntry.reserveAccumulators.1.failed = true)
    (h : s.runLayers budget progress = some (work, s')) :
    work.status.failed = true ∧ SameTrack s s' := by
  rw [runLayers, if_pos hoverview] at h
  obtain ⟨⟨base, after⟩, hbase, h⟩ := Option.bind_eq_some_iff.mp h
  have hstopped : base.status.failed = true ∧ SameTrack s after := by
    unfold processS4 at hbase
    cases hdetail : (s.demandOverview s4Features).processDetail budget progress with
    | mk detail after' =>
        obtain ⟨hfailed, hsame⟩ := processDetail_refused hrefused hdetail
        rw [hdetail] at hbase
        simp only [hfailed, if_true, Option.some.injEq, Prod.mk.injEq] at hbase
        obtain ⟨rfl, rfl⟩ := hbase
        exact ⟨hfailed, hsame.trans (restoreDemand_sameTrack _ _)⟩
  simp only [hstopped.1, if_true, Option.some.injEq, Prod.mk.injEq] at h
  obtain ⟨rfl, rfl⟩ := h
  exact hstopped

/-- The layers of a call that feeds no chunk half way: there are none, a reservation fails before them,
or the chunk loop is whole. -/
theorem runLayers_cases (hwhole : CallWhole budget s)
    (h : s.runLayers budget progress = some (work, s')) :
    s.config.requests .waveformOverview = false ∧ s' = s ∨
      work.status.failed = true ∧ SameTrack s s' ∨
      s.chunkEntry.loopWhole budget = true ∧
        Layers budget s s.chunkEntry work.status.failed s' := by
  cases hoverview : s.config.requests .waveformOverview
  · rw [runLayers, hoverview, if_neg Bool.false_ne_true] at h
    obtain ⟨-, rfl⟩ := Prod.mk.inj (Option.some.inj h)
    exact .inl ⟨rfl, rfl⟩
  rcases hwhole with hrefused | hloop
  · exact .inr (.inl (runLayers_refused hoverview hrefused h))
  · rw [runLayers, if_pos hoverview] at h
    exact .inr (.inr ⟨hloop, processS6_layers h⟩)

end Refused

/-! ## Invariants of the track -/

/-- A property that the elementary changes of the track keep, as long as the accepted frames are those
of a signal and no chunk is fed half way. -/
structure TrackInvariant (signal : ℕ → ℚ) (P : Session → Prop) : Prop where
  same : ∀ {s s' : Session}, P s → SameTrack s s' → P s'
  published : ∀ {s : Session} (mask : FeatureMask), P s → P (s.published mask)
  moved : ∀ {s : Session} {state : SessionState}, state ≠ .created → P s → P { s with state := state }
  forgotten : ∀ {s : Session}, P s → P s.markPublicationPending
  fixed : ∀ {s : Session} {total : ℕ}, P s → s.state = .created →
    (∀ known ∈ s.config.totalFrames, known = total) →
    P { s with config := { s.config with totalFrames := some total }, hasPullSource := true }
  ended : ∀ {s : Session} {finalEnd : ℕ}, P s → s.state ≠ .created → s.endOfInput = none →
    (∀ total ∈ s.config.totalFrames, total = finalEnd) → s.accepted.maximumEnd ≤ finalEnd →
    P (s.ended finalEnd)
  accepting : ∀ {s : Session} {block : PcmBlock} {n : ℕ}, P s → s.state ≠ .created → 0 < n →
    n ≤ (AcceptedRanges.nonoverlappingPrefix block.firstFrame (min block.frameCount maxPushFrames)
      s.accepted.ranges).1 →
    (∀ finalEnd ∈ s.endOfInput, block.firstFrame + block.frameCount ≤ finalEnd) →
    (∀ total ∈ s.config.totalFrames, block.firstFrame + block.frameCount ≤ total) →
    carries signal block n → P (s.accepting block n)
  chunks : ∀ {s : Session} {budget : WorkBudget} {status : Status} {state : ChunkState}, P s →
    s.loopWhole budget = true → s.runChunks budget = (status, state) → P (s.setChunkState state)

theorem Activated.config {s s' : Session} (h : Activated s s') : s'.config = s.config := by
  cases h <;> rfl

theorem Activated.state_ne {s s' : Session} (h : Activated s s') : s'.state ≠ .created := by
  cases h with
  | already hne => exact hne
  | first => exact SessionState.noConfusion

namespace TrackInvariant

variable {signal : ℕ → ℚ} {P : Session → Prop} {s s' : Session} {status : Status}
  {budget : WorkBudget}

theorem announces (hP : TrackInvariant signal P) (h : P s) (h' : Announces s s') : P s' := by
  induction h' with
  | rest h' => exact hP.same h h'
  | publish mask h' _ ih => exact ih (hP.published mask (hP.same h h'))

theorem unannounced (hP : TrackInvariant signal P) (h : P s) (h' : Unannounced s s') : P s' := by
  cases h' with
  | kept h' => exact hP.same h h'
  | forgotten h' => exact hP.same (hP.forgotten h) h'

theorem publishedState (hP : TrackInvariant signal P) (h : P s) {state : SessionState}
    (hstate : state ≠ .created) (env : Environment) :
    P { Session.published ∅ { s with state := state } with env := env } :=
  hP.same (hP.published ∅ (hP.moved hstate h)) ⟨rfl, rfl, rfl, rfl, rfl, rfl, .refl _, rfl, rfl, rfl, rfl⟩

theorem transition (hP : TrackInvariant signal P) (h : P s) {new : SessionState}
    (hnew : new ≠ .created) (h' : s.transition new = (status, s')) : P s' := by
  rcases transition_cases h' with ⟨-, -, rfl⟩ | ⟨-, -, env, rfl⟩ | ⟨-, hun⟩
  · exact h
  · exact hP.publishedState h hnew env
  · exact hP.unannounced h hun.unannounced

theorem activated (hP : TrackInvariant signal P) (h : P s) (h' : Activated s s') : P s' := by
  cases h' with
  | already => exact h
  | first env => exact hP.publishedState h (by decide) env

theorem settled (hP : TrackInvariant signal P) (h : P s) (h' : Settled s s') : P s' := by
  cases h' with
  | unannounced h' => exact hP.unannounced h h'
  | failed h' => exact hP.same (hP.published ∅ (hP.moved (by decide) h)) h'

theorem inputEnded (hP : TrackInvariant signal P) (h : P s) {finalEnd : ℕ}
    (h' : Ended finalEnd s s') : P s' := by
  cases h' with
  | kept h' => exact hP.same h h'
  | unactivated _ h' => exact hP.unannounced h h'
  | unended ht h' => exact hP.unannounced (hP.activated h ht) h'
  | @drained t _ hnone htotal hend ht h' =>
      have hopen : t.endOfInput = none := ht.endOfInput.trans hnone
      have hmaximum : t.accepted.maximumEnd = s.accepted.maximumEnd := by cases ht <;> rfl
      have hfixed := hP.ended (hP.activated h ht) ht.state_ne hopen (ht.config ▸ htotal)
        (hmaximum.le.trans hend)
      exact hP.same (hP.published ∅ (hP.moved (by decide) hfixed)) h'

theorem delivered (hP : TrackInvariant signal P) (h : P s) (hstate : s.state ≠ .created)
    {block : PcmBlock} {n : ℕ}
    (hend : ∀ finalEnd ∈ s.endOfInput, block.firstFrame + block.frameCount ≤ finalEnd)
    (htotal : ∀ total ∈ s.config.totalFrames, block.firstFrame + block.frameCount ≤ total)
    (hsignal : carries signal block n) (h' : Delivered block s n s') : P s' := by
  cases h' with
  | ignored => exact h
  | accepted _ h' =>
      cases h' with
      | base h' =>
          cases h' with
          | none h' => exact hP.same h h'
          | some hpos hle h' =>
              exact hP.same (hP.accepting h hstate hpos hle hend htotal hsignal) h'
      | replay _ _ h' => exact hP.same h h'

theorem pushed (hP : TrackInvariant signal P) (h : P s) {block : PcmBlock} {n : ℕ}
    (hsignal : carries signal block n) (h' : Pushed block s n s') : P s' := by
  cases h' with
  | kept h' => exact hP.same h h'
  | unactivated _ h' => exact hP.unannounced h h'
  | delivered _ hvalid _ ht h' =>
      obtain ⟨-, hend, htotal⟩ := validatePcmBlock_ok hvalid
      exact hP.delivered (hP.activated h ht) ht.state_ne (ht.endOfInput ▸ hend) (ht.config ▸ htotal)
        hsignal h'

theorem pulled (hP : TrackInvariant signal P) (h : P s) {source : PullSource}
    (hsignal : ∀ first frames block, source first frames = .block block →
      carries signal block block.frameCount) (h' : Pulled source s s') : P s' := by
  cases h' with
  | settled ht h' => exact hP.settled (hP.same h ht) h'
  | exhausted _ ht _ _ h' => exact hP.inputEnded (hP.same h ht) h'
  | reported _ ht _ _ _ h' => exact hP.inputEnded (hP.same h ht) h'
  | unactivated ht _ h' => exact hP.unannounced (hP.same h ht) h'
  | @delivered t u v _ block n _ _ ht _ hread hvalid _ hactive h' hsettled =>
      obtain ⟨-, hend, htotal⟩ := validatePcmBlock_ok hvalid
      have hcarries : carries signal block n := fun i hi _ => hsignal _ _ block hread i hi hi
      exact hP.settled (hP.delivered (hP.activated (hP.same h ht) hactive) hactive.state_ne
        (hactive.endOfInput ▸ hend) (hactive.config ▸ htotal) hcarries h') hsettled

/-- The pull adapter before the layers. -/
theorem layersEntry (hP : TrackInvariant signal P) (h : P s) {source : PullSource}
    (hsignal : ∀ first frames block, source first frames = .block block →
      carries signal block block.frameCount) : P (s.layersEntry source budget) := by
  unfold Session.layersEntry
  split_ifs
  · exact hP.pulled h hsignal (pullPcm_pulled rfl)
  · exact h

/-- The layers of a process call, from the entry of a chunk loop that feeds no chunk half way. -/
theorem layers (hP : TrackInvariant signal P) (h : P s) {failed : Bool}
    (hwhole : s.chunkEntry.loopWhole budget = true)
    (h' : Layers budget s s.chunkEntry failed s') : P s' := by
  have hentry := hP.same h s.chunkEntry_sameTrack
  cases h' with
  | refused h' => exact hP.same h h'
  | interrupted hrun h' => exact hP.same (hP.chunks hentry hwhole hrun) h'
  | announced hrun _ h' => exact hP.announces (hP.chunks hentry hwhole hrun) h'
  | unannounced hrun _ h' h'' =>
      exact hP.unannounced (hP.announces (hP.chunks hentry hwhole hrun) h') h''

/-- The layers of a process call that feeds no chunk half way. -/
theorem runLayers (hP : TrackInvariant signal P) (h : P s) (hwhole : CallWhole budget s)
    {progress : Progress} {work : Work} (hrun : s.runLayers budget progress = some (work, s')) :
    P s' := by
  rcases runLayers_cases hwhole hrun with ⟨-, rfl⟩ | ⟨-, hsame⟩ | ⟨hloop, hlayers⟩
  · exact h
  · exact hP.same h hsame
  · exact hP.layers h hloop hlayers

/-- A process call that feeds no chunk half way. -/
theorem processImpl (hP : TrackInvariant signal P) (h : P s)
    (hwhole : CallWhole budget (s.started budget)) {progress : Progress}
    (hrun : s.processImpl budget = some (status, progress, s')) : P s' := by
  obtain ⟨u, rfl, hend⟩ := processImpl_cases hrun
  have hstarted := hP.same h (started_sameTrack budget s)
  have hu : P u := by
    cases hend with
    | idle => exact hstarted
    | cancelled _ hcancel => exact hP.transition hstarted (by decide) hcancel
    | worked _ _ hlayers => exact hP.runLayers hstarted hwhole hlayers
    | completed _ _ hlayers _ _ _ hdone =>
        exact hP.transition (hP.runLayers hstarted hwhole hlayers) (by decide) hdone
  exact hP.same hu ⟨rfl, rfl, rfl, rfl, rfl, rfl, .refl _, rfl, rfl, rfl, rfl⟩

/-- Every call that takes its frames from the signal and feeds no chunk half way. -/
theorem step (hP : TrackInvariant signal P) (h : P s) {call : Call}
    (hhears : Hears signal call.op (s.withPlatform call))
    (hwhole : FeedsWhole call.op (s.withPlatform call)) (hstep : step call s = some s') : P s' := by
  have hstart := hP.same h (withPlatform_sameTrack call s)
  have houtcome := step_outcome hstep
  by_cases hop : ∃ source budget, call.op = .process source budget
  · obtain ⟨source, budget, hop⟩ := hop
    obtain ⟨⟨status, after⟩, hperform, rfl⟩ := Option.map_eq_some_iff.mp hstep
    rw [hop] at hperform hhears hwhole
    obtain ⟨⟨answer, progress, t⟩, hprocess, heq⟩ := Option.map_eq_some_iff.mp hperform
    obtain ⟨-, rfl⟩ := Prod.mk.inj heq
    have hentry : P ((s.withPlatform call).layersEntry source budget) :=
      hP.layersEntry hstart hhears
    rcases process_entry hprocess with rfl | himpl
    · exact hentry
    · exact hP.processImpl hentry hwhole himpl
  generalize call.op = op at *
  cases houtcome with
  | kept _ h' => exact hP.same hstart h'
  | announced _ mask h' h'' => exact hP.same (hP.published mask (hP.same hstart h')) h''
  | unannounced _ h' h'' => exact hP.unannounced (hP.same hstart h') h''
  | fixed hfresh htotal => exact hP.fixed hstart hfresh htotal
  | @seeded result =>
      have hrefused : (s.withPlatform call).seedFromResult result =
          (((s.withPlatform call).seedFromResult result).1, s.withPlatform call) := by
        unfold Session.seedFromResult
        cases hview : (s.withPlatform call).seedableView result with
        | error status => rfl
        | ok view => exact absurd hview (hhears view)
      rw [hrefused]
      exact hstart
  | pushed h' => exact hP.pushed hstart hhears h'
  | ended _ h' => exact hP.inputEnded hstart h'
  | processed => exact absurd ⟨_, _, rfl⟩ hop
  | pulled => exact absurd ⟨_, _, rfl⟩ hop
  | pulledProcessed => exact absurd ⟨_, _, rfl⟩ hop

/-- Every run that takes its frames from the signal and feeds no chunk half way. -/
theorem run (hP : TrackInvariant signal P) (h : P s) {calls : List Call}
    (hhears : Guarded (fun call s => Hears signal call.op (s.withPlatform call)) calls s)
    (hwhole : Guarded (fun call s => FeedsWhole call.op (s.withPlatform call)) calls s)
    (hrun : Session.run calls s = some s') : P s' :=
  Runs.invariant (fun _ _ _ hbefore hguard hstep => hP.step hbefore hguard.1 hguard.2 hstep) h
    (hhears.and hwhole) hrun

end TrackInvariant

/-! ## The accounts -/

/-- The table of accepted frames is well formed, and the queue and the columns share out what it
holds. -/
structure Accounted (signal : ℕ → ℚ) (s : Session) : Prop where
  table : s.accepted.WellFormed
  accounts : Accounts s.framesPerColumn s.endOfInput signal ∅ s.accepted.frames s.queue s.overview

theorem framesPerColumn_pos (s : Session) : 0 < s.framesPerColumn := by
  unfold framesPerColumn
  split_ifs with hzero
  · decide
  · exact Nat.pos_of_ne_zero hzero

namespace Accounted

variable {signal : ℕ → ℚ} {s s' : Session} {status : Status} {budget : WorkBudget}

/-- The accounts depend on the track only. -/
theorem same (h : Accounted signal s) (h' : SameTrack s s') : Accounted signal s' where
  table := by
    refine ⟨h'.ranges ▸ h.table.separated, ?_, ?_⟩
    · rw [h'.greatestEnd, h'.ranges]
      exact h.table.greatestEnd_eq
    · rw [h'.maximumEnd, h'.ranges]
      exact h.table.maximumEnd_eq
  accounts := by
    have hcolumns : s'.framesPerColumn = s.framesPerColumn := by
      rw [framesPerColumn, framesPerColumn, h'.config]
    rw [hcolumns, h'.endOfInput, AcceptedRanges.frames, h'.ranges]
    exact h.accounts.congr h'.queue h'.accumulators h'.completeCount

/-- Ending the input keeps the accounts: no accepted frame is beyond the end. -/
theorem ended (h : Accounted signal s) {finalEnd : ℕ} (hopen : s.endOfInput = none)
    (hend : s.accepted.maximumEnd ≤ finalEnd) : Accounted signal (s.ended finalEnd) := by
  refine ⟨h.table, ?_⟩
  have haccounts := h.accounts
  rw [hopen] at haccounts
  exact haccounts.ended s.framesPerColumn_pos fun frame hframe =>
    (h.table.lt_maximumEnd hframe).trans_le hend

/-- Accepting a part of the non-overlapping prefix of a block adds its frames, which are new. -/
theorem accepting_table (h : Accounted signal s) {block : PcmBlock} {n : ℕ} (hpos : 0 < n)
    (hle : n ≤ (AcceptedRanges.nonoverlappingPrefix block.firstFrame
      (min block.frameCount maxPushFrames) s.accepted.ranges).1) :
    n ≤ block.frameCount ∧
      (∀ frame, block.firstFrame ≤ frame → frame < block.firstFrame + n →
        frame ∉ s.accepted.frames) ∧
      (s.accepting block n).accepted.WellFormed ∧ (s.accepting block n).accepted.frames =
        s.accepted.frames ∪ {frame | block.firstFrame ≤ frame ∧ frame < block.firstFrame + n} := by
  have hprefix := AcceptedRanges.nonoverlappingPrefix_le block.firstFrame
    (min block.frameCount maxPushFrames) s.accepted.ranges
  have hcandidate : 0 < min block.frameCount maxPushFrames := by omega
  rcases AcceptedRanges.nonoverlappingPrefix_spec h.table.separated.ordered block.firstFrame
    hcandidate with ⟨heq, -⟩ | ⟨-, -, hbound, hfree⟩
  · rw [heq] at hle
    omega
  have hnew : ∀ frame, block.firstFrame ≤ frame → frame < block.firstFrame + n →
      frame ∉ s.accepted.frames := fun frame hlo hhi => hfree frame hlo (by omega)
  obtain ⟨hwell, hmem⟩ := AcceptedRanges.insertRange_spec h.table
    (show block.firstFrame < block.firstFrame + n by omega) hnew
  exact ⟨by omega, hnew, hwell, Set.ext hmem⟩

/-- The non-overlapping prefix of a block is new. -/
theorem accepting (h : Accounted signal s) {block : PcmBlock} {n : ℕ} (hpos : 0 < n)
    (hle : n ≤ (AcceptedRanges.nonoverlappingPrefix block.firstFrame
      (min block.frameCount maxPushFrames) s.accepted.ranges).1)
    (hend : ∀ finalEnd ∈ s.endOfInput, block.firstFrame + block.frameCount ≤ finalEnd)
    (hsignal : carries signal block n) : Accounted signal (s.accepting block n) := by
  obtain ⟨hcount, hnew, hwell, hframes⟩ := h.accepting_table hpos hle
  have hlength : (block.samples.take n).length = n := List.length_take_of_le hcount
  have hcarried : ∀ i (hi : i < (block.samples.take n).length),
      (block.samples.take n)[i] = signal (block.firstFrame + i) := fun i hi => by
    rw [List.getElem_take]
    exact hsignal i _ (by omega)
  have haccepted := h.accounts.accept (by omega) (by rwa [hlength]) (fun _ _ _ => Set.notMem_empty _)
    (fun finalEnd hmem => by
      have := hend finalEnd hmem
      omega) hcarried
  rw [hlength, ← hframes] at haccepted
  exact ⟨hwell, haccepted⟩

/-- A chunk loop that feeds no chunk half way keeps the accounts, and leaves every full column
marked. -/
theorem chunks (h : Accounted signal s) (hwhole : s.loopWhole budget = true) {state : ChunkState}
    (hrun : s.runChunks budget = (status, state)) :
    Accounted signal (s.setChunkState state) ∧
      MarksCurrent s.framesPerColumn s.endOfInput state.overview ∧
      LoopFrame s.framesPerColumn (pendingFrames s.queue) s.overview state.overview := by
  obtain ⟨hrefreshed, hframe⟩ := h.accounts.refresh
  set start : ChunkState :=
    { queue := s.queue
      overview := refreshCompletedColumns s.framesPerColumn s.endOfInput s.overview
      env := s.env
      consumed := 0
      steps := 0 } with hstart
  have hentered : Accounts s.processContext.framesPerColumn s.processContext.endOfInput signal ∅
      s.accepted.frames start.queue start.overview := hrefreshed
  obtain ⟨haccounts, hcurrent, hloop, -⟩ := hentered.processChunks s.framesPerColumn_pos
    (marksCurrent_refresh h.accounts.ledger.sorted) hwhole hrun
  exact ⟨⟨h.table, haccounts⟩, hcurrent, hframe.trans hloop (subset_refl _)⟩

/-- Every elementary change of the track keeps the accounts. -/
theorem invariant (signal : ℕ → ℚ) : TrackInvariant signal (Accounted signal) where
  same h h' := h.same h'
  published _ h := ⟨h.table, h.accounts⟩
  moved _ h := ⟨h.table, h.accounts⟩
  forgotten h := ⟨h.table, h.accounts.forget⟩
  fixed h _ _ := ⟨h.table, h.accounts⟩
  ended h _ hopen _ hend := h.ended hopen hend
  accepting h _ hpos hle hend _ hsignal := h.accepting hpos hle hend hsignal
  chunks h hwhole hrun := (h.chunks hwhole hrun).1

/-- A created session has accepted nothing. -/
theorem created (signal : ℕ → ℚ) (h : Created s) : Accounted signal s := by
  obtain ⟨config, libm, usesWorkspace, env, -, rfl⟩ := created_eq h
  have hnone : AcceptedRanges.empty.frames = ∅ := Interval.support_nil
  refine ⟨.empty, ⟨.nil, ?_, fun _ _ => Set.notMem_empty _, ?_,
    ⟨KeyedList.sorted_nil, ?_, fun columnIndex _ _ => ?_, rfl⟩, ?_⟩⟩
  · rintro frame ⟨node, hnode, -⟩
    cases hnode
  · rintro frame hframe
    exact absurd (hnone ▸ hframe : frame ∈ (∅ : Set ℕ)) (Set.notMem_empty frame)
  · intro _ _ acc hacc
    cases hacc
  · refine Finset.eq_empty_of_forall_notMem fun frame hframe => ?_
    have hin := ((mem_columnFrames (framesPerColumn_pos _)).mp hframe).2.1
    exact absurd (hnone ▸ hin : frame ∈ (∅ : Set ℕ)) (Set.notMem_empty frame)
  · intro _ acc hacc
    cases hacc

end Accounted

end Session

end LibApta
