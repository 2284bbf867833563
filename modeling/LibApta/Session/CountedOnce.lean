import LibApta.Session.Accounting

/-!
# Each frame is counted once

In a workspace no chunk is fed half way, since the columns of the whole queue are reserved before the
first one. So the accounts hold along every run there, and elsewhere along every run in which no chunk
is fed half way.
-/

namespace LibApta

namespace Session

/-! ## Sessions with a workspace -/

section Workspace

variable {framesPerColumn : ℕ} {hasBands : Bool} {columns : Finset ℕ} {overview : Overview}
  {env : Environment}

/-- A column that there is room for is found. -/
theorem findOrInsert_of_room (h : overview.HasRoom columns) (hs : overview.Sorted) {columnIndex : ℕ}
    (hmem : columnIndex ∈ columns) (hasBands : Bool) (env : Environment) :
    ∃ position, (overview.findOrInsert hasBands columnIndex env).1 = .ok position := by
  unfold Overview.findOrInsert
  simp only
  split_ifs with hfound
  · exact ⟨_, rfl⟩
  · have hnew := mt (Overview.position_found hs columnIndex).mpr hfound
    rw [Overview.ensureCapacity, if_pos (h.fits hs hmem hnew)]
    exact ⟨_, rfl⟩

/-- Columns with an index that there is room for are granted. -/
theorem columnsGranted_of_room {list : List ℕ} (hlist : ∀ column ∈ list, column ∈ columns)
    (hindexed : ∀ column ∈ columns, column ≤ uint32Max) (hs : overview.Sorted)
    (hroom : overview.HasRoom columns) : columnsGranted hasBands list overview env = true := by
  induction list generalizing overview env with
  | nil => rfl
  | cons column rest ih =>
      obtain ⟨hmem, hrest⟩ := List.forall_mem_cons.mp hlist
      obtain ⟨position, hok⟩ := findOrInsert_of_room hroom hs hmem hasBands env
      rw [columnsGranted, decide_eq_true (hindexed column hmem), Bool.true_and]
      cases hfind : overview.findOrInsert hasBands column env with
      | mk found after =>
          obtain ⟨after, fenv⟩ := after
          rw [hfind] at hok
          obtain rfl : found = .ok position := hok
          exact ih hrest (findOrInsert_sorted hs hfind) (hroom.findOrInsert hs hmem hfind)

/-- The columns of a chunk are columns of the queue. -/
theorem chunkColumns_subset {queue : List PcmNode} {position chunk : ℕ} {node : PcmNode}
    (hget : queue[position]? = some node) (hle : chunk ≤ node.remaining) :
    ∀ column ∈ chunkColumns framesPerColumn node.nextFrame chunk,
      column ∈ queueColumns framesPerColumn queue := by
  intro column hcolumn
  obtain ⟨frame, hframe, rfl⟩ := List.mem_map.mp hcolumn
  rw [List.mem_range'_1] at hframe
  refine mem_queueColumns.mpr ⟨node, List.mem_of_getElem? hget, mem_nodeColumns.mpr ?_⟩
  simp only [PcmNode.remaining] at hle
  simp only [PcmNode.nextFrame, PcmNode.endFrame] at hframe ⊢
  exact ⟨by omega, Nat.div_le_div_right hframe.1, Nat.div_le_div_right (by omega)⟩

/-- A loop feeds no chunk half way while there is room for the columns of its queue. -/
theorem chunksWhole_of_room {ctx : ProcessContext} {frameLimit stepLimit fuel : ℕ}
    {state : ChunkState} (hs : state.overview.Sorted)
    (hroom : state.overview.HasRoom (queueColumns ctx.framesPerColumn state.queue))
    (hindexed : ∀ column ∈ queueColumns ctx.framesPerColumn state.queue, column ≤ uint32Max) :
    chunksWhole ctx frameLimit stepLimit fuel state = true := by
  induction fuel generalizing state with
  | zero => rfl
  | succ fuel ih =>
      rw [chunksWhole]
      cases hnext : nextChunk ctx frameLimit stepLimit state with
      | none => rfl
      | some round =>
          obtain ⟨position, node, chunk⟩ := round
          obtain ⟨hget, -, hle⟩ := nextChunk_some hnext
          have hcolumns : ∀ column ∈ chunkColumns ctx.framesPerColumn node.nextFrame chunk,
              column ∈ queueColumns ctx.framesPerColumn state.queue := chunkColumns_subset hget hle
          have hgranted : columnsGranted ctx.hasBands
              (chunkColumns ctx.framesPerColumn node.nextFrame chunk) state.overview state.env =
                true := columnsGranted_of_room hcolumns hindexed hs hroom
          simp only [chunkIsWhole, hgranted, Bool.true_or, Bool.true_and]
          cases hrun : processSamples ctx.framesPerColumn ctx.hasBands (node.chunkSamples chunk)
              node.nextFrame state.overview state.env with
          | mk status rest =>
              obtain ⟨overview, env⟩ := rest
              have hlength : (node.chunkSamples chunk).length ≤ chunk := List.length_take_le _ _
              have hsub : ∀ i < (node.chunkSamples chunk).length,
                  (node.nextFrame + i) / ctx.framesPerColumn ∈
                    queueColumns ctx.framesPerColumn state.queue := fun i hi =>
                hcolumns _ (List.mem_map.mpr ⟨_, List.mem_range'_1.mpr ⟨by omega, by omega⟩, rfl⟩)
              have hafter := (sampleRequests_of_room .context ctx.hasBands state.env hsub hs hroom).2
              rw [hrun] at hafter
              cases status with
              | ok =>
                  rw [Bool.or_eq_true]
                  refine .inr (ih (Overview.sorted_refresh (processSamples_sorted hs hrun)) ?_ ?_)
                  · exact (hafter.refresh _ _).mono queueColumns_advance
                  · exact fun column hcolumn => hindexed column (queueColumns_advance hcolumn)
              | _ => rfl

/-- In a workspace no process call feeds a chunk half way. -/
theorem callWhole_of_workspace {s : Session} (hworkspace : s.usesWorkspace = true)
    (hs : s.overview.Sorted) (budget : WorkBudget) : CallWhole budget s := by
  have hentry : SameTrack s s.reservationEntry :=
    ((demandOverview_sameTrack _ s).trans (refreshDetail_sameTrack _)).trans
      (stageDemand_sameTrack _)
  have hspace : s.reservationEntry.usesWorkspace = true := by
    have hdetail : (s.demandOverview s4Features).refreshDetail.usesWorkspace = s.usesWorkspace := by
      unfold refreshDetail
      split_ifs <;> rfl
    exact hdetail.trans hworkspace
  have hsorted : s.reservationEntry.overview.Sorted := by
    rw [Overview.Sorted, hentry.accumulators]
    exact hs
  unfold CallWhole
  cases hreserve : s.reservationEntry.reserveAccumulators with
  | mk status t =>
      cases hfail : status.failed
      swap
      · exact .inl rfl
      obtain ⟨hs', hroom⟩ := reserveAccumulators_room hspace hsorted hreserve hfail
      have hindexed : ∀ column ∈ queueColumns s.reservationEntry.framesPerColumn
          s.reservationEntry.queue, column ≤ uint32Max := by
        intro column hmem
        by_contra hlarge
        have hbeyond := queue_beyond_iff.mpr ⟨column, hmem, not_le.mp hlarge⟩
        obtain ⟨node, hnode, -⟩ := mem_queueColumns.mp hmem
        have hrefused : s.reservationEntry.reserveAccumulators =
            (.error .limitExceeded, s.reservationEntry) := by
          unfold reserveAccumulators
          rw [if_neg (by simp [hspace, List.ne_nil_of_mem hnode]), if_pos hbeyond]
        rw [hrefused] at hreserve
        obtain ⟨rfl, -⟩ := Prod.mk.inj hreserve
        cases hfail
      have hsame := reserveAccumulators_sameTrack s.reservationEntry
      rw [hreserve] at hsame
      have hchunk : s.chunkEntry = t.raisePriorities := by
        rw [chunkEntry]
        change (s.reservationEntry.reserveAccumulators.2).raisePriorities = _
        rw [hreserve]
      have hcolumns : t.framesPerColumn = s.reservationEntry.framesPerColumn := by
        rw [framesPerColumn, framesPerColumn, hsame.config]
      have hqueue : queueColumns t.framesPerColumn t.queue =
          queueColumns s.reservationEntry.framesPerColumn s.reservationEntry.queue := by
        rw [hcolumns]
        exact Finset.ext fun column => by
          simp only [mem_queueColumns, hsame.queue.mem_iff]
      rw [hchunk]
      refine .inr (chunksWhole_of_room (Overview.sorted_refresh hs') (.refresh ?_ _ _) ?_)
      · exact hqueue ▸ hroom
      · exact hqueue ▸ hindexed

end Workspace

/-! ## Each frame is counted once -/

/-- Each accepted frame is counted once: it is in one node of the queue or in its column. The columns
summarise what the queue does not hold, and a mark stands on a column only when each frame it is made
of is processed. -/
structure CountedOnce (signal : ℕ → ℚ) (s : Session) : Prop where
  pending : pendingFrames s.queue ⊆ s.accepted.frames
  apart : s.queue.Pairwise fun a b => a.endFrame ≤ b.nextFrame ∨ b.endFrame ≤ a.nextFrame
  summarised : ∀ columnIndex acc, s.overview.column columnIndex = some acc →
    Summarizes signal
      (columnFrames s.framesPerColumn columnIndex (s.accepted.frames \ pendingFrames s.queue)) acc
  absent : ∀ columnIndex, s.overview.column columnIndex = none →
    columnFrames s.framesPerColumn columnIndex (s.accepted.frames \ pendingFrames s.queue) = ∅
  full : ∀ columnIndex acc, s.overview.column columnIndex = some acc →
    (acc.IsFull s.framesPerColumn s.endOfInput ↔
      (ownFrames s.framesPerColumn s.endOfInput columnIndex).Nonempty ∧
        ∀ frame ∈ ownFrames s.framesPerColumn s.endOfInput columnIndex,
          frame ∈ s.accepted.frames \ pendingFrames s.queue)
  marked : ∀ columnIndex acc, s.overview.column columnIndex = some acc → acc.complete = true →
    acc.IsFull s.framesPerColumn s.endOfInput

/-- Samples that a column holds. -/
def sampleCount (s : Session) (columnIndex : ℕ) : ℕ :=
  ((s.overview.column columnIndex).map Accumulator.sampleCount).getD 0

theorem Accounted.countedOnce {signal : ℕ → ℚ} {s : Session} (h : Accounted signal s) :
    CountedOnce signal s where
  pending := h.accounts.pending
  apart := h.accounts.queued.disjoint
  summarised columnIndex acc hacc :=
    (h.accounts.ledger.present columnIndex (Set.notMem_empty _) acc hacc).1
  absent columnIndex := h.accounts.ledger.absent columnIndex (Set.notMem_empty _)
  full columnIndex acc hacc := by
    have hfull := h.accounts.ledger.full_iff s.framesPerColumn_pos
      (fun frame hframe => h.accounts.bounded frame hframe.1) (Set.notMem_empty columnIndex)
    refine ⟨fun hacc' => hfull.mp ⟨acc, hacc, hacc'⟩, fun hall => ?_⟩
    obtain ⟨found, hfound, hfull'⟩ := hfull.mpr hall
    rw [hacc] at hfound
    exact Option.some.inj hfound ▸ hfull'
  marked := h.accounts.sound

/-- A drained session holds as many samples of a column as accepted frames map to it. -/
theorem CountedOnce.drained {signal : ℕ → ℚ} {s : Session} (h : CountedOnce signal s)
    (hdrained : s.queue = []) (columnIndex : ℕ) :
    s.sampleCount columnIndex =
      (columnFrames s.framesPerColumn columnIndex s.accepted.frames).card := by
  have hnone : s.accepted.frames \ pendingFrames s.queue = s.accepted.frames := by
    rw [hdrained, sdiff_eq_left, Set.disjoint_right]
    rintro frame ⟨node, hnode, -⟩
    cases hnode
  unfold sampleCount
  cases hcolumn : s.overview.column columnIndex with
  | none =>
      rw [← hnone, h.absent columnIndex hcolumn]
      rfl
  | some acc =>
      rw [← hnone]
      exact (h.summarised columnIndex acc hcolumn).sampleCount

/-- In every run of a session that is not seeded, takes its frames from a signal and feeds no chunk
half way, each accepted frame is counted once. -/
theorem frames_counted_once (signal : ℕ → ℚ) (s : Session) (hcreated : Created s)
    (calls : List Call)
    (hhears : Guarded (fun call s => Hears signal call.op (s.withPlatform call)) calls s)
    (hwhole : Guarded (fun call s => FeedsWhole call.op (s.withPlatform call)) calls s)
    (s' : Session) (hrun : run calls s = some s') :
    CountedOnce signal s' ∧ (s'.queue = [] → ∀ columnIndex, s'.sampleCount columnIndex =
      (columnFrames s'.framesPerColumn columnIndex s'.accepted.frames).card) := by
  have haccounted := (Accounted.invariant signal).run (.created signal hcreated) hhears hwhole hrun
  exact ⟨haccounted.countedOnce, haccounted.countedOnce.drained⟩

/-- A silent block of 32 frames. -/
def silentHalf (firstFrame : ℕ) : Call := plainCall (.pushPcm ⟨firstFrame, List.replicate 32 0⟩)

/-- A push of silence takes its frames from silence. -/
theorem hears_silentHalf (firstFrame : ℕ) (s : Session) :
    Hears (fun _ => 0) (silentHalf firstFrame).op s := by
  intro i hi _
  exact List.getElem_replicate ..

theorem hears_idle (s : Session) : Hears (fun _ => 0) idleProcessCall.op s := by
  intro first frames block hread
  cases hread

/-- The two halves of a column, the second one first, and a process call. -/
def twoHalves : List Call := [silentHalf 32, silentHalf 0, idleProcessCall]

theorem hears_twoHalves : ∀ call ∈ twoHalves, ∀ s, Hears (fun _ => 0) call.op s := by
  simp only [twoHalves, List.forall_mem_cons]
  exact ⟨hears_silentHalf 32, hears_silentHalf 0, hears_idle, by simp⟩

/-- The two halves of a column come in the wrong order and are counted once each. -/
theorem frames_counted_once_two_halves : ∃ created s : Session, Created created ∧
    run twoHalves created = some s ∧ CountedOnce (fun _ => 0) s ∧ s.sampleCount 0 = 64 := by
  obtain ⟨created, hcreate⟩ : ∃ created, create (smallConfig {.waveformOverview} none) seriesLibm false
      plainPlatform = (.ok, some created) := ⟨_, rfl⟩
  have hwhole : ((create (smallConfig {.waveformOverview} none) seriesLibm false plainPlatform).2.bind
      fun created => (step (silentHalf 32) created).bind fun s => (step (silentHalf 0) s).bind fun t =>
        (step idleProcessCall t).map fun u =>
          (((((t.withPlatform idleProcessCall).layersEntry (fun _ _ => .wouldBlock) ⟨0, 0, 0⟩).started
            ⟨0, 0, 0⟩).chunkEntry.loopWhole ⟨0, 0, 0⟩), u.sampleCount 0)) = some (true, 64) := by
    decide +kernel
  rw [hcreate] at hwhole
  obtain ⟨_, hsame, hwhole⟩ := Option.bind_eq_some_iff.mp hwhole
  obtain rfl := Option.some.inj hsame
  obtain ⟨s, hfirst, hwhole⟩ := Option.bind_eq_some_iff.mp hwhole
  obtain ⟨t, hsecond, hwhole⟩ := Option.bind_eq_some_iff.mp hwhole
  obtain ⟨u, hlast, hwhole⟩ := Option.map_eq_some_iff.mp hwhole
  obtain ⟨hloop, hcount⟩ := Prod.mk.inj hwhole
  have hrun : run twoHalves created = some u := by
    simp only [run, twoHalves, Runs.run_cons, Runs.run_nil, hfirst, hsecond, hlast, Option.bind_some]
  have hcreated : Created created := ⟨_, _, _, _, hcreate⟩
  refine ⟨created, u, hcreated, hrun, ?_, hcount⟩
  refine (frames_counted_once _ created hcreated _ ?_ ?_ u hrun).1
  · exact Runs.Guarded.mono (fun call s h => h (s.withPlatform call))
      (Runs.guarded_of_forall hears_twoHalves created)
  · refine ⟨trivial, fun s' hs' => ⟨trivial, fun t' ht' => ⟨?_, fun _ _ => trivial⟩⟩⟩
    obtain rfl := Option.some.inj (hfirst.symm.trans hs')
    obtain rfl := Option.some.inj (hsecond.symm.trans ht')
    exact .inr hloop

/-- A call leaves a session its workspace. -/
theorem usesWorkspace_of_provisions {s s' : Session} (h : s'.provisions = s.provisions) :
    s'.usesWorkspace = s.usesWorkspace := (Prod.mk.inj h).1

/-- Accounts of a session with a workspace. -/
def AccountedInWorkspace (signal : ℕ → ℚ) (s : Session) : Prop :=
  Accounted signal s ∧ s.usesWorkspace = true

namespace AccountedInWorkspace

variable {signal : ℕ → ℚ} {s s' : Session} {call : Call}

/-- No call of a session with a workspace feeds a chunk half way. -/
theorem feedsWhole (h : AccountedInWorkspace signal s)
    (hhears : Hears signal call.op (s.withPlatform call)) :
    FeedsWhole call.op (s.withPlatform call) := by
  obtain ⟨haccounted, hworkspace⟩ := h
  have hstart := haccounted.same (withPlatform_sameTrack call s)
  revert hhears
  cases call.op with
  | process source budget =>
      intro hhears
      have hentry : ((s.withPlatform call).layersEntry source budget).provisions =
          (s.withPlatform call).provisions := by
        unfold layersEntry
        split_ifs
        · exact (provisions_frame.invariant (s.withPlatform call).provisions).toInputInvariant.pullPcm
            source budget rfl
        · rfl
      have hsorted : ((s.withPlatform call).layersEntry source budget).overview.Sorted :=
        ((Accounted.invariant signal).layersEntry hstart hhears).accounts.ledger.sorted
      exact callWhole_of_workspace
        (s := ((s.withPlatform call).layersEntry source budget).started budget)
        ((usesWorkspace_of_provisions hentry).trans hworkspace) hsorted budget
  | _ => exact fun _ => trivial

/-- A call of a session with a workspace. -/
theorem step (h : AccountedInWorkspace signal s)
    (hhears : Hears signal call.op (s.withPlatform call)) (hstep : Session.step call s = some s') :
    AccountedInWorkspace signal s' := by
  refine ⟨(Accounted.invariant signal).step h.1 hhears (h.feedsWhole hhears) hstep, ?_⟩
  obtain ⟨⟨status, after⟩, hperform, rfl⟩ := Option.map_eq_some_iff.mp hstep
  exact (usesWorkspace_of_provisions (provisions_frame.perform hperform)).trans h.2

/-- No run of a session with a workspace feeds a chunk half way. -/
theorem guarded (h : AccountedInWorkspace signal s) {calls : List Call}
    (hhears : Guarded (fun call s => Hears signal call.op (s.withPlatform call)) calls s) :
    Guarded (fun call s => FeedsWhole call.op (s.withPlatform call)) calls s :=
  Runs.Guarded.of_invariant (fun _ _ _ hbefore hguard hstep => hbefore.step hguard hstep)
    (fun _ _ hbefore hguard => hbefore.feedsWhole hguard) h hhears

end AccountedInWorkspace

/-- In a session with a workspace that is not seeded and takes its frames from a signal, each accepted
frame is counted once, whatever memory is refused. -/
theorem frames_counted_once_in_workspace (signal : ℕ → ℚ) (s : Session) (hcreated : Created s)
    (hworkspace : s.usesWorkspace = true) (calls : List Call)
    (hhears : Guarded (fun call s => Hears signal call.op (s.withPlatform call)) calls s)
    (s' : Session) (hrun : run calls s = some s') :
    CountedOnce signal s' ∧ (s'.queue = [] → ∀ columnIndex, s'.sampleCount columnIndex =
      (columnFrames s'.framesPerColumn columnIndex s'.accepted.frames).card) := by
  have hstart : AccountedInWorkspace signal s := ⟨.created signal hcreated, hworkspace⟩
  have haccounted := (Accounted.invariant signal).run hstart.1 hhears (hstart.guarded hhears) hrun
  exact ⟨haccounted.countedOnce, haccounted.countedOnce.drained⟩

/-- The same calls in a workspace. -/
theorem frames_counted_once_in_workspace_two_halves : ∃ created s : Session, Created created ∧
    created.usesWorkspace = true ∧ run twoHalves created = some s ∧ CountedOnce (fun _ => 0) s ∧
    s.sampleCount 0 = 64 := by
  obtain ⟨created, hcreate⟩ : ∃ created, create (smallConfig {.waveformOverview} none) seriesLibm true
      plainPlatform = (.ok, some created) := ⟨_, rfl⟩
  have hdone : ((create (smallConfig {.waveformOverview} none) seriesLibm true plainPlatform).2.bind
      fun created => (run twoHalves created).map fun s =>
        (created.usesWorkspace, s.sampleCount 0)) = some (true, 64) := by
    decide +kernel
  rw [hcreate] at hdone
  obtain ⟨_, hsame, hdone⟩ := Option.bind_eq_some_iff.mp hdone
  obtain rfl := Option.some.inj hsame
  obtain ⟨s, hrun, hdone⟩ := Option.map_eq_some_iff.mp hdone
  obtain ⟨hworkspace, hcount⟩ := Prod.mk.inj hdone
  have hcreated : Created created := ⟨_, _, _, _, hcreate⟩
  refine ⟨created, s, hcreated, hworkspace, hrun, ?_, hcount⟩
  refine (frames_counted_once_in_workspace _ created hcreated hworkspace _ ?_ s hrun).1
  exact Runs.Guarded.mono (fun call s h => h (s.withPlatform call))
    (Runs.guarded_of_forall hears_twoHalves created)

end Session

end LibApta
