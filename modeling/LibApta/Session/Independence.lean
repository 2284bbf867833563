import LibApta.Session.CountedOnce
import LibApta.Session.Lifecycle

/-!
# One track, one overview

The bands carry the state of a filter, so they depend on the order in which frames are processed. The
rest of the overview does not: two runs that accept the same frames of a signal, each of which is
completed, end on the same columns and publish the same overview but for its bands. The runs may cut
the track into other blocks, push them in another order, and have other budgets, focus and requests.
-/

namespace LibApta

/-! ## Without bands -/

/-- A column without its bands. -/
def WaveformColumn.unbanded (column : WaveformColumn) : WaveformColumn :=
  { column with low := 0, mid := 0, high := 0, has3Band := false }

/-- A span without the bands of its columns. -/
def WaveformSpan.unbanded (span : WaveformSpan) : WaveformSpan :=
  { span with columns := span.columns.map WaveformColumn.unbanded }

/-- An overview without the bands of its columns. -/
def OverviewView.unbanded (view : OverviewView) : OverviewView :=
  { view with spans := view.spans.map WaveformSpan.unbanded }

/-- An accumulator without its band sums. -/
def Accumulator.unbanded (acc : Accumulator) : Accumulator := { acc with bandSums := Bands.zero }

/-- The runs of columns depend on the indices only. -/
theorem columnRuns_map {f : Accumulator → Accumulator}
    (hf : ∀ acc, (f acc).columnIndex = acc.columnIndex) (accumulators : List Accumulator) :
    columnRuns (accumulators.map f) = (columnRuns accumulators).map (List.map f) := by
  induction accumulators with
  | nil => rfl
  | cons acc rest ih =>
      rw [List.map_cons, columnRuns, columnRuns, ih]
      cases hruns : columnRuns rest with
      | nil => rfl
      | cons run runs =>
          cases run with
          | nil => rfl
          | cons next run =>
              simp only [List.map_cons, hf]
              split_ifs <;> rfl

/-- The spans of accumulators without their bands. -/
theorem overviewSpans_unbanded (hasBands : Bool) (framesPerColumn : ℕ) (endOfInput : Option ℕ)
    (accumulators : List Accumulator) :
    (overviewSpans hasBands framesPerColumn endOfInput accumulators).map WaveformSpan.unbanded =
      overviewSpans false framesPerColumn endOfInput (accumulators.map Accumulator.unbanded) := by
  have hkept : (accumulators.map Accumulator.unbanded).filter Accumulator.complete =
      (accumulators.filter Accumulator.complete).map Accumulator.unbanded := by
    rw [List.filter_map]
    rfl
  unfold overviewSpans
  rw [hkept, columnRuns_map (f := Accumulator.unbanded) fun _ => rfl, List.map_map, List.map_map]
  refine List.map_congr_left fun run _ => ?_
  simp only [Function.comp_apply, waveformSpan, WaveformSpan.unbanded, List.map_map, List.length_map]
  rfl

/-- Coverage depends on the frames of the spans only. -/
theorem fullCoverage_unbanded (endOfInput : Option ℕ) (spans : List WaveformSpan) :
    fullCoverage endOfInput (spans.map WaveformSpan.unbanded) = fullCoverage endOfInput spans := by
  cases endOfInput with
  | none => rfl
  | some finalEnd =>
      cases spans with
      | nil => rfl
      | cons span rest =>
          cases rest with
          | nil => rfl
          | cons other rest => rfl

/-- Two stores that agree but for their band sums are shown alike but for the bands. -/
theorem overviewSnapshot_unbanded {config config' : Config} {overview overview' : Overview}
    (hoverview : config.requests .waveformOverview = config'.requests .waveformOverview)
    (hconfidence : config.requests .confidence = config'.requests .confidence)
    (haccumulators : overview.accumulators.map Accumulator.unbanded =
      overview'.accumulators.map Accumulator.unbanded)
    (hcount : overview.completeCount = overview'.completeCount) (framesPerColumn finalEnd : ℕ)
    (state : SessionState) :
    (overviewSnapshot config framesPerColumn (some finalEnd) state overview).map
        OverviewView.unbanded =
      (overviewSnapshot config' framesPerColumn (some finalEnd) state overview').map
        OverviewView.unbanded := by
  have hcomplete : overview.accumulators.countP Accumulator.complete =
      overview'.accumulators.countP Accumulator.complete := by
    have := congrArg (List.countP Accumulator.complete) haccumulators
    rwa [List.countP_map, List.countP_map] at this
  have hspans : (overviewSpans (config.requests .waveform3Band) framesPerColumn (some finalEnd)
        overview.accumulators).map WaveformSpan.unbanded =
      (overviewSpans (config'.requests .waveform3Band) framesPerColumn (some finalEnd)
        overview'.accumulators).map WaveformSpan.unbanded := by
    rw [overviewSpans_unbanded, overviewSpans_unbanded, haccumulators]
  have hcoverage := congrArg (fullCoverage (some finalEnd)) hspans
  rw [fullCoverage_unbanded, fullCoverage_unbanded] at hcoverage
  have hexpected : ∀ complete, overviewConfidence config framesPerColumn (some finalEnd) complete =
      overviewConfidence config' framesPerColumn (some finalEnd) complete := fun complete => by
    unfold overviewConfidence
    rw [hconfidence]
    rfl
  unfold overviewSnapshot
  rw [hoverview, hcount]
  cases !config'.requests .waveformOverview || decide (overview'.completeCount = 0)
  · simp only [Bool.false_eq_true, if_false, Option.map_some, OverviewView.unbanded, hspans,
      hcoverage, hcomplete, hexpected]
  · rfl

namespace Session

/-! ## Completed sessions -/

section Completion

variable {s t s' : Session} {call : Call}

/-- Publications leave the columns, their resolution and the end of the input alone. -/
theorem Announces.columns (h : Announces s s') :
    s'.overview.accumulators = s.overview.accumulators ∧ s'.framesPerColumn = s.framesPerColumn ∧
      s'.endOfInput = s.endOfInput := by
  induction h with
  | rest h => exact ⟨h.accumulators, h.framesPerColumn, h.endOfInput⟩
  | publish mask h _ ih =>
      exact ⟨ih.1.trans h.accumulators, ih.2.1.trans h.framesPerColumn, ih.2.2.trans h.endOfInput⟩

/-- Whether full columns are marked depends on the columns. -/
theorem marksCurrent_congr {framesPerColumn framesPerColumn' : ℕ} {endOfInput endOfInput' : Option ℕ}
    {overview overview' : Overview}
    (h : MarksCurrent framesPerColumn endOfInput overview)
    (haccumulators : overview'.accumulators = overview.accumulators)
    (hcolumns : framesPerColumn' = framesPerColumn) (hend : endOfInput' = endOfInput) :
    MarksCurrent framesPerColumn' endOfInput' overview' := by
  subst hcolumns hend
  intro columnIndex acc hacc
  rw [Overview.column, haccumulators] at hacc
  exact h columnIndex acc hacc

/-- What a call that completes a session has done: its layers have not failed, nothing is queued, and
the completed session is published. -/
structure Completes (source : PullSource) (budget : WorkBudget) (call : Call) (s t s' : Session) :
    Prop where
  op : call.op = .process source budget
  layers : ∃ progress work, (((s.withPlatform call).layersEntry source budget).started
    budget).runLayers budget progress = some (work, t) ∧ work.status.failed = false
  drained : t.queue = []
  ended : SameTrack (published ∅ { t with state := .completed }) s'

/-- Only a process call on a draining session completes it. -/
theorem completes_of_state (hstep : step call s = some s') (hbefore : s.state ≠ .completed)
    (hafter : s'.state = .completed) : ∃ source budget t, Completes source budget call s t s' := by
  have hplatform := Wanes.same (withPlatform_sameTrack call s)
  by_cases hop : ∃ source budget, call.op = .process source budget
  swap
  · have hwanes := hplatform.trans (.outcome (fun source budget heq => hop ⟨source, budget, heq⟩)
      (step_outcome hstep))
    exact absurd (hwanes hafter).1 hbefore
  obtain ⟨source, budget, hop⟩ := hop
  obtain ⟨⟨status, after⟩, hperform, rfl⟩ := Option.map_eq_some_iff.mp hstep
  rw [hop] at hperform
  obtain ⟨⟨answer, progress, done⟩, hprocess, heq⟩ := Option.map_eq_some_iff.mp hperform
  obtain ⟨-, rfl⟩ := Prod.mk.inj heq
  have hentry : ((s.withPlatform call).layersEntry source budget).state ≠ .completed := by
    have hwanes : Wanes (s.withPlatform call)
        ((s.withPlatform call).layersEntry source budget) := by
      unfold layersEntry
      split_ifs
      · exact .pulled (pullPcm_pulled rfl)
      · exact .refl _
    exact fun hdone => hbefore ((hplatform.trans hwanes) hdone).1
  rcases process_entry hprocess with rfl | himpl
  · exact absurd hafter hentry
  obtain ⟨u, rfl, hu⟩ := processImpl_cases himpl
  refine ⟨source, budget, ?_⟩
  cases hu with
  | idle => exact absurd hafter hentry
  | cancelled _ hcancel =>
      rcases transition_cases hcancel with ⟨-, hsame, rfl⟩ | ⟨-, -, env, rfl⟩ | ⟨-, hun⟩
      · exact absurd hafter hentry
      · cases hafter
      · exact absurd (hun.unannounced.state.symm.trans hafter) hentry
  | worked _ _ hrun =>
      exact absurd ((runLayers_worked hrun).state.symm.trans hafter) hentry
  | @completed before work _ t _ _ _ hrun hok hdrains hdrained hdone =>
      rcases transition_cases hdone with ⟨-, hsame, -⟩ | ⟨-, -, env, rfl⟩ | ⟨-, hun⟩
      · cases hdrains.symm.trans hsame
      · exact ⟨t, hop, ⟨before, work, hrun, hok⟩, hdrained,
          ⟨rfl, rfl, rfl, rfl, rfl, rfl, .refl _, rfl, rfl, rfl, rfl⟩⟩
      · cases hdrains.symm.trans (hun.unannounced.state.symm.trans hafter)

end Completion

/-! ## The overview of a completed session -/

/-- A completed session whose queue is drained and whose full columns are marked, with the result it
has just published. -/
structure Finished (signal : ℕ → ℚ) (s : Session) : Prop where
  accounted : Accounted signal s
  drained : s.queue = []
  current : MarksCurrent s.framesPerColumn s.endOfInput s.overview
  shown : ∀ result ∈ s.results.head?, result.overview = s.overviewSnapshot

/-- Layers that do not fail leave every full column marked. -/
theorem Layers.marksCurrent {signal : ℕ → ℚ} {s t : Session} {budget : WorkBudget}
    (h : Layers budget s s.chunkEntry false t) (haccounted : Accounted signal s)
    (hwhole : s.chunkEntry.loopWhole budget = true) :
    MarksCurrent t.framesPerColumn t.endOfInput t.overview := by
  cases h with
  | announced hrun _ h =>
      obtain ⟨-, hmarks, -⟩ := (haccounted.same s.chunkEntry_sameTrack).chunks hwhole hrun
      obtain ⟨haccumulators, hcolumns, hend⟩ := h.columns
      exact marksCurrent_congr hmarks haccumulators hcolumns hend

/-- A call that feeds no chunk half way and completes a session finishes it. -/
theorem Completes.finished {signal : ℕ → ℚ} {s t s' : Session} {call : Call} {source : PullSource}
    {budget : WorkBudget} (hdone : Completes source budget call s t s') (h : Accounted signal s)
    (hhears : Hears signal call.op (s.withPlatform call))
    (hwhole : FeedsWhole call.op (s.withPlatform call))
    (hoverview : s'.config.requests .waveformOverview = true) (hs' : Accounted signal s') :
    Finished signal s' := by
  obtain ⟨hop, ⟨progress, work, hrun, hok⟩, hdrained, hended⟩ := hdone
  rw [hop] at hhears hwhole
  set entry := ((s.withPlatform call).layersEntry source budget).started budget with hentry
  have haccounted : Accounted signal entry :=
    ((Accounted.invariant signal).layersEntry (h.same (withPlatform_sameTrack call s)) hhears).same
      (started_sameTrack budget _)
  have hconfig : t.config = entry.config := (runLayers_worked hrun).sameInput.config
  have hrequested : entry.config.requests .waveformOverview = true := by
    rw [← hconfig, ← hoverview, hended.config]
    rfl
  have hcurrent : MarksCurrent t.framesPerColumn t.endOfInput t.overview := by
    rcases runLayers_cases hwhole hrun with ⟨hnone, -⟩ | ⟨hfailed, -⟩ | ⟨hloop, hlayers⟩
    · cases hrequested.symm.trans hnone
    · cases hok.symm.trans hfailed
    · exact (hok ▸ hlayers).marksCurrent haccounted hloop
  refine ⟨hs', List.perm_nil.mp (hdrained ▸ hended.queue), ?_, ?_⟩
  · exact marksCurrent_congr hcurrent hended.accumulators hended.framesPerColumn hended.endOfInput
  · intro result hresult
    rw [hended.results] at hresult
    obtain rfl := Option.some.inj (Option.mem_def.mp hresult)
    unfold overviewSnapshot LibApta.overviewSnapshot
    rw [hended.config, hended.state, hended.endOfInput, hended.framesPerColumn,
      hended.accumulators, hended.completeCount]
    rfl

variable {signal : ℕ → ℚ} {s t : Session}

/-- Finished sessions that have accepted the same frames of a signal have the same columns. -/
theorem Finished.columns_eq (h : Finished signal s) (h' : Finished signal t)
    (hcolumns : s.framesPerColumn = t.framesPerColumn) (hend : s.endOfInput = t.endOfInput)
    (hframes : s.accepted.frames = t.accepted.frames) :
    s.overview.accumulators.map Accumulator.unbanded =
      t.overview.accumulators.map Accumulator.unbanded := by
  have hledger : Ledger t.framesPerColumn signal ∅ t.accepted.frames s.overview ∧
      Ledger t.framesPerColumn signal ∅ t.accepted.frames t.overview := by
    have hnone : ∀ frames : Set ℕ, frames \ pendingFrames [] = frames := fun frames => by
      rw [sdiff_eq_left, Set.disjoint_right]
      rintro frame ⟨node, hnode, -⟩
      cases hnode
    have hleft := h.accounted.accounts.ledger
    have hright := h'.accounted.accounts.ledger
    rw [h.drained, hnone, hcolumns, hframes] at hleft
    rw [h'.drained, hnone] at hright
    exact ⟨hleft, hright⟩
  obtain ⟨hleft, hright⟩ := hledger
  have hpos := t.framesPerColumn_pos
  have hbounded : ∀ frame ∈ t.accepted.frames, ∀ finalEnd ∈ t.endOfInput, frame < finalEnd :=
    h'.accounted.accounts.bounded
  have hsound := h.accounted.accounts.sound
  have hsound' := h'.accounted.accounts.sound
  have hcurrent := h.current
  rw [hcolumns, hend] at hsound hcurrent
  have hmap := KeyedList.map_spec hleft.sorted (f := Accumulator.unbanded) fun _ => rfl
  have hmap' := KeyedList.map_spec hright.sorted (f := Accumulator.unbanded) fun _ => rfl
  refine KeyedList.ext_lookup hmap.1 hmap'.1 fun columnIndex => ?_
  rw [hmap.2, hmap'.2]
  change (s.overview.column columnIndex).map _ = (t.overview.column columnIndex).map _
  have hkey := Set.notMem_empty columnIndex
  cases hacc : s.overview.column columnIndex with
  | none =>
      cases hacc' : t.overview.column columnIndex with
      | none => rfl
      | some acc' =>
          have hempty := hleft.absent columnIndex hkey hacc
          exact absurd hempty (hright.present columnIndex hkey acc' hacc').2.ne_empty
  | some acc =>
      cases hacc' : t.overview.column columnIndex with
      | none =>
          have hempty := hright.absent columnIndex hkey hacc'
          exact absurd hempty (hleft.present columnIndex hkey acc hacc).2.ne_empty
      | some acc' =>
          obtain ⟨hcount, hsquares, hminimum, hmaximum, hclipped⟩ :=
            (hleft.present columnIndex hkey acc hacc).1.unique
              (hright.present columnIndex hkey acc' hacc').1
          have hindex : acc.columnIndex = acc'.columnIndex :=
            (KeyedList.lookup_some hacc).2.trans (KeyedList.lookup_some hacc').2.symm
          -- A mark stands exactly on a full column, and fullness is a matter of the count.
          have hfull : acc.IsFull t.framesPerColumn t.endOfInput ↔
              acc'.IsFull t.framesPerColumn t.endOfInput := by
            unfold Accumulator.IsFull
            rw [hcount, hindex]
          have hcomplete : acc.complete = acc'.complete :=
            Bool.eq_iff_iff.mpr
              ⟨fun hmark => h'.current columnIndex acc' hacc'
                  (hfull.mp (hsound columnIndex acc hacc hmark)),
                fun hmark => hcurrent columnIndex acc hacc
                  (hfull.mpr (hsound' columnIndex acc' hacc' hmark))⟩
          simp only [Option.map_some, Accumulator.unbanded, hindex, hcount, hsquares, hminimum,
            hmaximum, hclipped, hcomplete]

/-- Finished sessions that have accepted the same frames of a signal show the same overview but for
its bands. -/
theorem Finished.overview_eq (h : Finished signal s) (h' : Finished signal t)
    (hstate : s.state = .completed) (hstate' : t.state = .completed)
    (hcolumns : s.framesPerColumn = t.framesPerColumn) {finalEnd : ℕ}
    (hend : s.endOfInput = some finalEnd) (hend' : t.endOfInput = some finalEnd)
    (hframes : s.accepted.frames = t.accepted.frames)
    (hoverview : s.config.requests .waveformOverview = t.config.requests .waveformOverview)
    (hconfidence : s.config.requests .confidence = t.config.requests .confidence) :
    s.overviewSnapshot.map OverviewView.unbanded = t.overviewSnapshot.map OverviewView.unbanded := by
  have haccumulators := h.columns_eq h' hcolumns (hend.trans hend'.symm) hframes
  have hcount : s.overview.completeCount = t.overview.completeCount := by
    rw [h.accounted.accounts.ledger.counted, h'.accounted.accounts.ledger.counted]
    have := congrArg (List.countP Accumulator.complete) haccumulators
    rwa [List.countP_map, List.countP_map] at this
  unfold overviewSnapshot
  rw [hend, hend', hcolumns, hstate, hstate']
  exact overviewSnapshot_unbanded hoverview hconfidence haccumulators hcount _ _ _

/-- A run of a created session that takes its frames from a signal, feeds no chunk half way, and whose
last call completes the session. -/
structure CompletedRun (signal : ℕ → ℚ) (created s : Session) (calls : List Call) (last : Call) :
    Prop where
  fresh : Created created
  hears : Guarded (fun call s => Hears signal call.op (s.withPlatform call)) (calls ++ [last]) created
  whole : Guarded (fun call s => FeedsWhole call.op (s.withPlatform call)) (calls ++ [last]) created
  completes : ∃ before, run calls created = some before ∧ step last before = some s ∧
    before.state ≠ .completed ∧ s.state = .completed
  overview : s.config.requests .waveformOverview = true

theorem CompletedRun.finished {created : Session} {calls : List Call} {last : Call}
    (h : CompletedRun signal created s calls last) : Finished signal s ∧ s.state = .completed := by
  obtain ⟨hcreated, hhears, hwhole, ⟨before, hrun, hstep, hopen, hdone⟩, hoverview⟩ := h
  have hbefore : Accounted signal before :=
    (Accounted.invariant signal).run (.created signal hcreated) hhears.of_append hwhole.of_append hrun
  have hlast := (hhears.after hrun).1
  have hfed := (hwhole.after hrun).1
  obtain ⟨source, budget, t, hcompletes⟩ := completes_of_state hstep hopen hdone
  have hafter := (Accounted.invariant signal).step hbefore hlast hfed hstep
  exact ⟨hcompletes.finished hbefore hlast hfed hoverview hafter, hdone⟩

/-- Two completed runs that have accepted the same frames of one signal up to the same end publish the
same overview but for its bands, and hold the same count, peaks and sum of squares for each column. -/
theorem overview_of_signal (signal : ℕ → ℚ) {created created' s t : Session}
    {calls calls' : List Call} {last last' : Call}
    (h : CompletedRun signal created s calls last)
    (h' : CompletedRun signal created' t calls' last')
    (hcolumns : s.framesPerColumn = t.framesPerColumn)
    (hconfidence : s.config.requests .confidence = t.config.requests .confidence) {finalEnd : ℕ}
    (hend : s.endOfInput = some finalEnd) (hend' : t.endOfInput = some finalEnd)
    (hframes : s.accepted.frames = t.accepted.frames) :
    (∀ result ∈ s.results.head?, ∀ result' ∈ t.results.head?,
      result.overview.map OverviewView.unbanded = result'.overview.map OverviewView.unbanded) ∧
    s.overview.accumulators.map Accumulator.unbanded =
      t.overview.accumulators.map Accumulator.unbanded := by
  obtain ⟨hs, hstate⟩ := h.finished
  obtain ⟨ht, hstate'⟩ := h'.finished
  refine ⟨fun result hresult result' hresult' => ?_,
    hs.columns_eq ht hcolumns (hend.trans hend'.symm) hframes⟩
  rw [hs.shown result hresult, ht.shown result' hresult']
  exact hs.overview_eq ht hstate hstate' hcolumns hend hend' hframes
    (h.overview.trans h'.overview.symm) hconfidence

/-- Silence ends after 64 frames. -/
def silenceEnds : Call := plainCall (.signalEndOfInput 64)

/-- A run of silent pushes that an idle process call completes. -/
theorem completedRun_silent {created before s : Session} {calls : List Call}
    (hcreated : Created created)
    (hquiet : ∀ call ∈ calls, ∀ s, Hears (fun _ => 0) call.op s ∧ FeedsWhole call.op s)
    (hrun : run calls created = some before)
    (hloop : ((((before.withPlatform idleProcessCall).layersEntry (fun _ _ => .wouldBlock)
      ⟨0, 0, 0⟩).started ⟨0, 0, 0⟩).chunkEntry.loopWhole ⟨0, 0, 0⟩) = true)
    (hstep : step idleProcessCall before = some s) (hopen : before.state = .draining)
    (hdone : s.state = .completed) (hoverview : s.config.requests .waveformOverview = true) :
    CompletedRun (fun _ => 0) created s calls idleProcessCall := by
  have hguarded : Guarded (fun call _ => ∀ s, Hears (fun _ => 0) call.op s ∧ FeedsWhole call.op s)
      calls created := Runs.guarded_of_forall hquiet created
  refine ⟨hcreated, ?_, ?_, ⟨before, hrun, hstep, by simp [hopen], hdone⟩, hoverview⟩
  · refine (hguarded.mono fun call t h => (h (t.withPlatform call)).1).append fun t ht => ?_
    exact ⟨hears_idle _, fun _ _ => trivial⟩
  · refine (hguarded.mono fun call t h => (h (t.withPlatform call)).2).append fun t ht => ?_
    obtain rfl := Option.some.inj (hrun.symm.trans ht)
    exact ⟨.inr hloop, fun _ _ => trivial⟩

/-- The silent track in one block. -/
def oneBlock : List Call := [plainCall (.pushPcm ⟨0, List.replicate 64 0⟩), silenceEnds]

/-- The silent track in two blocks, the second half first. -/
def twoBlocks : List Call := [silentHalf 32, silentHalf 0, silenceEnds]

theorem quiet_silenceEnds (s : Session) :
    Hears (fun _ => 0) silenceEnds.op s ∧ FeedsWhole silenceEnds.op s := ⟨trivial, trivial⟩

theorem quiet_oneBlock : ∀ call ∈ oneBlock, ∀ s,
    Hears (fun _ => 0) call.op s ∧ FeedsWhole call.op s := by
  simp only [oneBlock, List.forall_mem_cons]
  exact ⟨fun s => ⟨fun i hi _ => List.getElem_replicate .., trivial⟩, quiet_silenceEnds, by simp⟩

theorem quiet_twoBlocks : ∀ call ∈ twoBlocks, ∀ s,
    Hears (fun _ => 0) call.op s ∧ FeedsWhole call.op s := by
  simp only [twoBlocks, List.forall_mem_cons]
  exact ⟨fun s => ⟨hears_silentHalf 32 s, trivial⟩, fun s => ⟨hears_silentHalf 0 s, trivial⟩,
    quiet_silenceEnds, by simp⟩

/-- What a silent run has come to before and after its last call. -/
structure Rehearsal where
  loopWhole : Bool
  before : SessionState
  after : SessionState
  overview : Bool
  framesPerColumn : ℕ
  results : ℕ
  endOfInput : Option ℕ
  ranges : List (Interval ℕ)
deriving DecidableEq

/-- Rehearse a silent run. -/
def rehearseSilence (calls : List Call) (created : Session) : Option Rehearsal :=
  (run calls created).bind fun before => (step idleProcessCall before).map fun s =>
    { loopWhole := (((before.withPlatform idleProcessCall).layersEntry (fun _ _ => .wouldBlock)
        ⟨0, 0, 0⟩).started ⟨0, 0, 0⟩).chunkEntry.loopWhole ⟨0, 0, 0⟩
      before := before.state
      after := s.state
      overview := s.config.requests .waveformOverview
      framesPerColumn := s.framesPerColumn
      results := s.results.length
      endOfInput := s.endOfInput
      ranges := s.accepted.ranges }

/-- The rehearsal of a track of one column. -/
def columnRehearsal : Rehearsal where
  loopWhole := true
  before := .draining
  after := .completed
  overview := true
  framesPerColumn := 64
  results := 5
  endOfInput := some 64
  ranges := [⟨0, 64⟩]

theorem completedRun_of_rehearsal {created : Session} {calls : List Call}
    (hcreated : Created created)
    (hquiet : ∀ call ∈ calls, ∀ s, Hears (fun _ => 0) call.op s ∧ FeedsWhole call.op s)
    (h : rehearseSilence calls created = some columnRehearsal) :
    ∃ s, CompletedRun (fun _ => 0) created s calls idleProcessCall ∧ s.framesPerColumn = 64 ∧
      s.results.length = 5 ∧ s.endOfInput = some 64 ∧ s.accepted.ranges = [⟨0, 64⟩] ∧
      s.config.requests .confidence = created.config.requests .confidence := by
  obtain ⟨before, hrun, h⟩ := Option.bind_eq_some_iff.mp h
  obtain ⟨s, hstep, h⟩ := Option.map_eq_some_iff.mp h
  simp only [columnRehearsal, Rehearsal.mk.injEq] at h
  obtain ⟨hloop, hopen, hdone, hoverview, hcolumns, hresults, hend, hranges⟩ := h
  have hwhole : run (calls ++ [idleProcessCall]) created = some s := by
    simp only [run, Runs.run_append, Runs.run_cons, Runs.run_nil, show Runs.run step calls created =
      some before from hrun, hstep, Option.bind_some]
  exact ⟨s, completedRun_silent hcreated hquiet hrun hloop hstep hopen hdone hoverview, hcolumns,
    hresults, hend, hranges, run_requests hwhole .confidence⟩

/-- A silent track gives one overview, in one block or in two that come in the wrong order. -/
theorem overview_of_signal_blocks : ∃ created s t : Session,
    CompletedRun (fun _ => 0) created s oneBlock idleProcessCall ∧
    CompletedRun (fun _ => 0) created t twoBlocks idleProcessCall ∧
    s.results.length = 5 ∧ t.results.length = 5 ∧
    ∀ result ∈ s.results.head?, ∀ result' ∈ t.results.head?,
      result.overview.map OverviewView.unbanded = result'.overview.map OverviewView.unbanded := by
  obtain ⟨created, hcreate⟩ : ∃ created, create (smallConfig {.waveformOverview} none) seriesLibm false
      plainPlatform = (.ok, some created) := ⟨_, rfl⟩
  have hrehearsed : ((create (smallConfig {.waveformOverview} none) seriesLibm false
      plainPlatform).2.map fun created =>
        (rehearseSilence oneBlock created, rehearseSilence twoBlocks created)) =
        some (some columnRehearsal, some columnRehearsal) := by
    decide +kernel
  rw [hcreate] at hrehearsed
  obtain ⟨_, hsame, hrehearsed⟩ := Option.map_eq_some_iff.mp hrehearsed
  obtain rfl := Option.some.inj hsame
  obtain ⟨hfirst, hsecond⟩ := Prod.mk.inj hrehearsed
  have hcreated : Created created := ⟨_, _, _, _, hcreate⟩
  obtain ⟨s, hs, hcolumns, hresults, hend, hranges, hconfidence⟩ :=
    completedRun_of_rehearsal hcreated quiet_oneBlock hfirst
  obtain ⟨t, ht, hcolumns', hresults', hend', hranges', hconfidence'⟩ :=
    completedRun_of_rehearsal hcreated quiet_twoBlocks hsecond
  refine ⟨created, s, t, hs, ht, hresults, hresults', ?_⟩
  have hframes : s.accepted.frames = t.accepted.frames := by
    rw [AcceptedRanges.frames, AcceptedRanges.frames, hranges, hranges']
  exact (overview_of_signal (fun _ => 0) hs ht (hcolumns.trans hcolumns'.symm)
    (hconfidence.trans hconfidence'.symm) hend hend' hframes).1

end Session

end LibApta
