import LibApta.Session.FirstPublication
import LibApta.Session.Independence

/-!
# Published columns are published again

A publication that is refused takes back the marks of all columns, and until the next process call a
publication may show fewer columns than the one before. A process call sets the marks again: each of its
results shows exactly the columns whose frames are all processed, and so every column that a result
before it has shown, at the same frames and with the same values.
-/

namespace LibApta

/-- The overview of a result shows a column. -/
def Result.ShowsColumn (result : Result) (range : FrameRange) (column : WaveformColumn) : Prop :=
  ∃ view ∈ result.overview, view.Shows range column

/-- A column that ends before the end of the input expects all its frames. -/
theorem expectedColumnFrames_of_le {framesPerColumn finalEnd columnIndex : ℕ}
    (hpos : 0 < framesPerColumn) (h : (columnIndex + 1) * framesPerColumn ≤ finalEnd) :
    expectedColumnFrames framesPerColumn (some finalEnd) columnIndex =
      expectedColumnFrames framesPerColumn none columnIndex := by
  rw [Nat.succ_mul] at h
  unfold expectedColumnFrames
  simp only
  rw [if_neg (by omega), min_eq_left h, Nat.add_sub_cancel_left]

namespace Session

/-- The session has a column with all its frames processed. -/
def Holds (s : Session) (range : FrameRange) (column : WaveformColumn) : Prop :=
  s.config.requests .waveformOverview = true ∧ ∃ columnIndex acc,
    s.overview.column columnIndex = some acc ∧ acc.IsFull s.framesPerColumn s.endOfInput ∧
    waveformColumn (s.config.requests .waveform3Band) acc = column ∧
    range = ⟨columnIndex * s.framesPerColumn,
      clipToEnd s.endOfInput ((columnIndex + 1) * s.framesPerColumn)⟩

variable {signal : ℕ → ℚ} {s s' t t' : Session} {range : FrameRange} {column : WaveformColumn}

/-! ## What a snapshot shows -/

/-- A snapshot shows the marked columns. -/
theorem snapshot_showsColumn (h : Accounted signal s) (mask : FeatureMask) :
    (s.snapshot mask).ShowsColumn range column ↔
      s.config.requests .waveformOverview = true ∧ ∃ columnIndex acc,
        s.overview.column columnIndex = some acc ∧ acc.complete = true ∧
        waveformColumn (s.config.requests .waveform3Band) acc = column ∧
        range = ⟨columnIndex * s.framesPerColumn,
          clipToEnd s.endOfInput ((columnIndex + 1) * s.framesPerColumn)⟩ := by
  have hshows := overviewSpans_shows_clipped (s.config.requests .waveform3Band) s.framesPerColumn
    s.endOfInput s.overview.accumulators range column
  have hmarked : (∃ acc ∈ s.overview.accumulators, acc.complete = true ∧
      waveformColumn (s.config.requests .waveform3Band) acc = column ∧
      range = ⟨acc.columnIndex * s.framesPerColumn,
        clipToEnd s.endOfInput ((acc.columnIndex + 1) * s.framesPerColumn)⟩) ↔
      ∃ columnIndex acc, s.overview.column columnIndex = some acc ∧ acc.complete = true ∧
        waveformColumn (s.config.requests .waveform3Band) acc = column ∧
        range = ⟨columnIndex * s.framesPerColumn,
          clipToEnd s.endOfInput ((columnIndex + 1) * s.framesPerColumn)⟩ := by
    constructor
    · rintro ⟨acc, hmem, hrest⟩
      exact ⟨acc.columnIndex, acc, KeyedList.lookup_of_mem h.accounts.ledger.sorted hmem, hrest⟩
    · rintro ⟨columnIndex, acc, hacc, hrest⟩
      obtain ⟨hmem, rfl⟩ := KeyedList.lookup_some hacc
      exact ⟨acc, hmem, hrest⟩
  rw [← hmarked, ← hshows]
  change (∃ view ∈ s.overviewSnapshot, view.Shows range column) ↔ _
  unfold overviewSnapshot LibApta.overviewSnapshot
  by_cases hrequested : s.config.requests .waveformOverview = true
  swap
  · rw [if_pos (by simp [hrequested])]
    simp [hrequested]
  by_cases hcount : s.overview.completeCount = 0
  · rw [if_pos (by simp [hcount])]
    refine ⟨fun ⟨_, hview, _⟩ => absurd hview (Option.not_mem_none _), fun ⟨_, hshown⟩ => ?_⟩
    obtain ⟨acc, hmem, hmark, -⟩ := hshows.mp hshown
    rw [h.accounts.ledger.counted, List.countP_eq_zero] at hcount
    exact absurd hmark (hcount acc hmem)
  · rw [if_neg (by simp [hrequested, hcount])]
    refine ⟨?_, fun ⟨_, hshown⟩ => ⟨_, rfl, hshown⟩⟩
    rintro ⟨view, hview, hshown⟩
    obtain rfl := Option.some.inj (Option.mem_def.mp hview)
    exact ⟨hrequested, hshown⟩

/-- What a snapshot shows is held. -/
theorem Accounted.holds_of_shown (h : Accounted signal s) {mask : FeatureMask}
    (hshown : (s.snapshot mask).ShowsColumn range column) : s.Holds range column := by
  obtain ⟨hrequested, columnIndex, acc, hacc, hmark, hrest⟩ := (snapshot_showsColumn h mask).mp hshown
  exact ⟨hrequested, columnIndex, acc, hacc, h.accounts.sound columnIndex acc hacc hmark, hrest⟩

/-- While full columns are marked, a snapshot shows what is held. -/
theorem Accounted.shown_iff (h : Accounted signal s)
    (hcurrent : s.config.requests .waveformOverview = true →
      MarksCurrent s.framesPerColumn s.endOfInput s.overview) (mask : FeatureMask) :
    (s.snapshot mask).ShowsColumn range column ↔ s.Holds range column := by
  refine ⟨h.holds_of_shown, fun hheld => ?_⟩
  obtain ⟨hrequested, columnIndex, acc, hacc, hfull, hrest⟩ := hheld
  exact (snapshot_showsColumn h mask).mpr
    ⟨hrequested, columnIndex, acc, hacc, hcurrent hrequested columnIndex acc hacc hfull, hrest⟩

/-! ## What is held stays held -/

/-- A full column that is kept but for its mark is full, and is shown alike. -/
theorem full_of_unmarked {framesPerColumn columnIndex : ℕ} {endOfInput : Option ℕ}
    {overview overview' : Overview} {acc : Accumulator} (hasBands : Bool)
    (hacc : overview.column columnIndex = some acc) (hfull : acc.IsFull framesPerColumn endOfInput)
    (hkept : overview'.unmarkedColumn columnIndex = overview.unmarkedColumn columnIndex) :
    ∃ acc', overview'.column columnIndex = some acc' ∧ acc'.IsFull framesPerColumn endOfInput ∧
      waveformColumn hasBands acc' = waveformColumn hasBands acc := by
  rw [Overview.unmarkedColumn, Overview.unmarkedColumn, hacc, Option.map_some,
    Option.map_eq_some_iff] at hkept
  obtain ⟨acc', hacc', hsame⟩ := hkept
  have hfull' : ({ acc' with complete := false } : Accumulator).IsFull framesPerColumn endOfInput :=
    hsame ▸ hfull
  have hshown : waveformColumn hasBands { acc' with complete := false } =
      waveformColumn hasBands { acc with complete := false } := by
    rw [hsame]
  exact ⟨acc', hacc', hfull', hshown⟩

/-- What is held depends on the columns, their resolution and the end of the input, not on the marks. -/
theorem Holds.of_unmarked (h : s.Holds range column) (hconfig : s'.config = s.config)
    (hend : s'.endOfInput = s.endOfInput) (hunmarked : ∀ columnIndex,
      s'.overview.unmarkedColumn columnIndex = s.overview.unmarkedColumn columnIndex) :
    s'.Holds range column := by
  obtain ⟨hrequested, columnIndex, acc, hacc, hfull, rfl, hrange⟩ := h
  obtain ⟨acc', hacc', hfull', hshown⟩ := full_of_unmarked (s.config.requests .waveform3Band) hacc
    hfull (hunmarked columnIndex)
  have hcolumns : s'.framesPerColumn = s.framesPerColumn := by
    rw [framesPerColumn, framesPerColumn, hconfig]
  refine ⟨hconfig ▸ hrequested, columnIndex, acc', hacc', ?_, hconfig ▸ hshown, ?_⟩
  · rwa [hcolumns, hend]
  · rwa [hcolumns, hend]

theorem SameTrack.holds (h : SameTrack s s') : s'.Holds range column ↔ s.Holds range column := by
  have hunmarked : ∀ columnIndex,
      s'.overview.unmarkedColumn columnIndex = s.overview.unmarkedColumn columnIndex :=
    fun columnIndex => by
      rw [Overview.unmarkedColumn, Overview.unmarkedColumn, Overview.column, Overview.column,
        h.accumulators]
  exact ⟨fun hheld => hheld.of_unmarked h.config.symm h.endOfInput.symm
      fun columnIndex => (hunmarked columnIndex).symm,
    fun hheld => hheld.of_unmarked h.config h.endOfInput hunmarked⟩

theorem holds_markPublicationPending (hs : s.overview.Sorted) :
    s.markPublicationPending.Holds range column ↔ s.Holds range column := by
  have hunmarked : ∀ columnIndex, s.markPublicationPending.overview.unmarkedColumn columnIndex =
      s.overview.unmarkedColumn columnIndex := fun columnIndex => by
    change (s.overview.forgetMarks.column columnIndex).map _ = _
    rw [Accounts.column_forgetMarks hs, Overview.unmarkedColumn, Option.map_map]
    rfl
  exact ⟨fun hheld => hheld.of_unmarked rfl rfl fun columnIndex => (hunmarked columnIndex).symm,
    fun hheld => hheld.of_unmarked rfl rfl hunmarked⟩

/-- The end of the input cuts no column that is held before it. -/
theorem Accounted.holds_ended (h : Accounted signal s) {finalEnd : ℕ} (hopen : s.endOfInput = none)
    (hend : s.accepted.maximumEnd ≤ finalEnd) (hheld : s.Holds range column) :
    (s.ended finalEnd).Holds range column := by
  obtain ⟨hrequested, columnIndex, acc, hacc, hfull, hcolumn, hrange⟩ := hheld
  have hpos := s.framesPerColumn_pos
  obtain ⟨-, hall⟩ := (h.countedOnce.full columnIndex acc hacc).mp hfull
  -- The last frame of the column is accepted, so it is not beyond the end.
  have hlast : (columnIndex + 1) * s.framesPerColumn - 1 ∈
      ownFrames s.framesPerColumn s.endOfInput columnIndex := by
    rw [hopen, ownFrames, Finset.mem_Ico, clipToEnd, Nat.succ_mul]
    omega
  have hbound : (columnIndex + 1) * s.framesPerColumn ≤ finalEnd := by
    have := (h.table.lt_maximumEnd (hall _ hlast).1).trans_le hend
    omega
  have hindex : acc.columnIndex = columnIndex := (KeyedList.lookup_some hacc).2
  refine ⟨hrequested, columnIndex, acc, hacc, ?_, hcolumn, ?_⟩
  · change acc.IsFull s.framesPerColumn (some finalEnd)
    rw [Accumulator.IsFull, hindex, expectedColumnFrames_of_le hpos hbound, ← hindex, ← hopen]
    exact hfull
  · rw [hrange, hopen]
    exact congrArg (FrameRange.mk _) (min_eq_left hbound).symm

/-- A chunk loop leaves what is held alone: no frame of it is in the queue. -/
theorem Accounted.holds_chunks (h : Accounted signal s) {budget : WorkBudget} {status : Status}
    {state : ChunkState} (hwhole : s.loopWhole budget = true)
    (hrun : s.runChunks budget = (status, state)) (hheld : s.Holds range column) :
    (s.setChunkState state).Holds range column := by
  obtain ⟨hrequested, columnIndex, acc, hacc, hfull, rfl, hrange⟩ := hheld
  obtain ⟨-, -, hloop⟩ := h.chunks hwhole hrun
  obtain ⟨-, hall⟩ := (h.countedOnce.full columnIndex acc hacc).mp hfull
  have hkept := hloop.untouched columnIndex fun frame hpending hcolumn => by
    have hown : frame ∈ ownFrames s.framesPerColumn s.endOfInput columnIndex :=
      (mem_ownFrames s.framesPerColumn_pos).mpr
        ⟨hcolumn, h.accounts.bounded frame (h.accounts.pending hpending)⟩
    exact (hall frame hown).2 hpending
  obtain ⟨acc', hacc', hfull', hshown⟩ := full_of_unmarked (s.config.requests .waveform3Band) hacc
    hfull hkept
  exact ⟨hrequested, columnIndex, acc', hacc', hfull', hshown, hrange⟩

/-! ## What has been shown is held -/

/-- The accounts of a session, whose results have shown only what it holds. -/
structure Archived (signal : ℕ → ℚ) (s : Session) : Prop where
  accounted : Accounted signal s
  held : ∀ result ∈ s.results, ∀ range column, result.ShowsColumn range column → s.Holds range column

namespace Archived

/-- Every elementary change of the track keeps what has been shown. -/
theorem invariant (signal : ℕ → ℚ) : TrackInvariant signal (Archived signal) where
  same h h' := ⟨h.accounted.same h', fun result hresult range column hshown =>
    h'.holds.mpr (h.held result (h'.results ▸ hresult) range column hshown)⟩
  published mask h := by
    refine ⟨⟨h.accounted.table, h.accounted.accounts⟩, fun result hresult range column hshown => ?_⟩
    rcases List.mem_cons.mp hresult with rfl | hold
    · exact h.accounted.holds_of_shown hshown
    · exact h.held result hold range column hshown
  moved _ h := ⟨⟨h.accounted.table, h.accounted.accounts⟩, h.held⟩
  forgotten h := ⟨⟨h.accounted.table, h.accounted.accounts.forget⟩,
    fun result hresult range column hshown =>
      (holds_markPublicationPending h.accounted.accounts.ledger.sorted).mpr
        (h.held result hresult range column hshown)⟩
  fixed h _ _ := ⟨⟨h.accounted.table, h.accounted.accounts⟩, h.held⟩
  ended h _ hopen _ hend := ⟨h.accounted.ended hopen hend, fun result hresult range column hshown =>
    h.accounted.holds_ended hopen hend (h.held result hresult range column hshown)⟩
  accepting h _ hpos hle hend _ hsignal := ⟨h.accounted.accepting hpos hle hend hsignal, h.held⟩
  chunks h hwhole hrun := ⟨(h.accounted.chunks hwhole hrun).1, fun result hresult range column hshown =>
    h.accounted.holds_chunks hwhole hrun (h.held result hresult range column hshown)⟩

theorem created (signal : ℕ → ℚ) (h : Created s) : Archived signal s := by
  have haccounted := Accounted.created signal h
  refine ⟨haccounted, fun result hresult range column hshown => ?_⟩
  obtain ⟨config, libm, usesWorkspace, env, -, rfl⟩ := created_eq h
  obtain rfl := List.mem_singleton.mp hresult
  have hnew : Accounted signal (new config libm usesWorkspace env) :=
    ⟨haccounted.table, haccounted.accounts⟩
  exact hnew.holds_of_shown hshown

end Archived

/-! ## What a process call publishes -/

/-- The session has the results of another one, and after them results that show exactly what it
holds. -/
def Completely (s s' : Session) : Prop :=
  ∃ later, s'.results = later ++ s.results ∧
    ∀ result ∈ later, ∀ range column, result.ShowsColumn range column ↔ s'.Holds range column

theorem Announces.holds (h : Announces s s') : s'.Holds range column ↔ s.Holds range column := by
  induction h with
  | rest h => exact h.holds
  | publish mask h _ ih => exact ih.trans h.holds

theorem Unannounced.holds (h : Unannounced s s') (hs : s.overview.Sorted) :
    s'.Holds range column ↔ s.Holds range column := by
  cases h with
  | kept h => exact h.holds
  | forgotten h => exact h.holds.trans (holds_markPublicationPending hs)

/-- Publications of a session whose full columns are marked show exactly what it holds. -/
theorem Announces.completely (h : Announces s s') (haccounted : Accounted signal s)
    (hcurrent : MarksCurrent s.framesPerColumn s.endOfInput s.overview) : Completely s s' := by
  induction h with
  | rest h => exact ⟨[], h.results, by simp⟩
  | @publish s t s' mask h hnext ih =>
      have ht := haccounted.same h
      have hcurrent' := marksCurrent_congr hcurrent h.accumulators h.framesPerColumn h.endOfInput
      obtain ⟨later, hresults, hshows⟩ := ih ⟨ht.table, ht.accounts⟩ hcurrent'
      refine ⟨later ++ [t.snapshot mask], ?_, fun result hresult range column => ?_⟩
      · rw [hresults, List.append_assoc]
        exact congrArg (fun rest => later ++ t.snapshot mask :: rest) h.results
      rcases List.mem_append.mp hresult with hlater | hfirst
      · exact hshows result hlater range column
      · obtain rfl := List.mem_singleton.mp hfirst
        exact (ht.shown_iff (fun _ => hcurrent') mask).trans hnext.holds.symm

/-- The layers of a process call publish exactly what the session holds after them. -/
theorem Layers.completely {budget : WorkBudget} {failed : Bool}
    (h : Layers budget s s.chunkEntry failed s') (haccounted : Accounted signal s)
    (hwhole : s.chunkEntry.loopWhole budget = true) : Completely s s' := by
  have hentry := haccounted.same s.chunkEntry_sameTrack
  have hkept : ∀ {t : Session}, Completely s.chunkEntry t → Completely s t :=
    fun ⟨later, hresults, hshows⟩ =>
      ⟨later, hresults.trans (congrArg _ s.chunkEntry_sameTrack.results), hshows⟩
  cases h with
  | refused h => exact ⟨[], h.results, by simp⟩
  | interrupted hrun h => exact hkept ⟨[], h.results, by simp⟩
  | announced hrun _ h =>
      obtain ⟨hchunks, hcurrent, -⟩ := hentry.chunks hwhole hrun
      exact hkept (h.completely hchunks hcurrent)
  | @unannounced _ state t _ hrun _ h h' =>
      obtain ⟨hchunks, hcurrent, -⟩ := hentry.chunks hwhole hrun
      have ht := (Accounted.invariant signal).announces hchunks h
      obtain ⟨later, hresults, hshows⟩ := h.completely hchunks hcurrent
      exact hkept ⟨later, h'.results.trans hresults, fun result hresult range column =>
        (hshows result hresult range column).trans (h'.holds ht.accounts.ledger.sorted).symm⟩

/-- A session that is left alone publishes nothing. -/
theorem SameTrack.completely (h : SameTrack s s') : Completely s s' := ⟨[], h.results, by simp⟩

theorem Completely.congr (h : Completely s t) (hresults : s.results = s'.results)
    (ht : SameTrack t t') : Completely s' t' := by
  obtain ⟨later, hlater, hshows⟩ := h
  exact ⟨later, by rw [ht.results, hlater, hresults], fun result hresult range column =>
    (hshows result hresult range column).trans ht.holds.symm⟩

/-- The layers of a process call, and what they leave of the marks. -/
theorem runLayers_completely {budget : WorkBudget} {progress : Progress} {work : Work}
    (haccounted : Accounted signal s) (hwhole : CallWhole budget s)
    (hrun : s.runLayers budget progress = some (work, s')) :
    Completely s s' ∧ (work.status.failed = false → s'.config.requests .waveformOverview = true →
      MarksCurrent s'.framesPerColumn s'.endOfInput s'.overview) := by
  rcases runLayers_cases hwhole hrun with ⟨hnone, rfl⟩ | ⟨hfailed, hsame⟩ | ⟨hloop, hlayers⟩
  · exact ⟨(SameTrack.refl s').completely, fun _ hrequested => by cases hnone.symm.trans hrequested⟩
  · exact ⟨hsame.completely, fun hok => by cases hfailed.symm.trans hok⟩
  · exact ⟨hlayers.completely haccounted hloop, fun hok _ =>
      (hok ▸ hlayers).marksCurrent haccounted hloop⟩

/-- A process call that is not cancelled publishes exactly what the session holds after it. -/
theorem processImpl_completely {budget : WorkBudget} {status : Status} {progress : Progress}
    (haccounted : Accounted signal s) (hwhole : CallWhole budget (s.started budget))
    (hlive : s.cancelRequested = false) (hrun : s.processImpl budget = some (status, progress, s')) :
    Completely s s' := by
  obtain ⟨u, rfl, hend⟩ := processImpl_cases hrun
  have hstarted := haccounted.same (started_sameTrack budget s)
  have hu : Completely (s.started budget) u := by
    cases hend with
    | idle => exact (SameTrack.refl _).completely
    | cancelled hcancel => cases hlive.symm.trans hcancel
    | worked _ _ hlayers => exact (runLayers_completely hstarted hwhole hlayers).1
    | @completed _ _ _ t _ _ _ hlayers hok _ _ hdone =>
        obtain ⟨hpublished, hcurrent⟩ := runLayers_completely hstarted hwhole hlayers
        have ht := (Accounted.invariant signal).runLayers hstarted hwhole hlayers
        rcases transition_cases hdone with ⟨-, -, rfl⟩ | ⟨-, -, env, rfl⟩ | ⟨-, hun⟩
        · exact hpublished
        · obtain ⟨later, hresults, hshows⟩ := hpublished
          have hmoved : Accounted signal { t with state := .completed } := ⟨ht.table, ht.accounts⟩
          refine ⟨Session.snapshot { t with state := .completed } ∅ :: later,
            congrArg (List.cons _) hresults, fun result hresult range column => ?_⟩
          rcases List.mem_cons.mp hresult with rfl | hlater
          · exact hmoved.shown_iff (hcurrent hok) ∅
          · exact hshows result hlater range column
        · obtain ⟨later, hresults, hshows⟩ := hpublished
          have hun := hun.unannounced
          exact ⟨later, hun.results.trans hresults, fun result hresult range column =>
            (hshows result hresult range column).trans (hun.holds ht.accounts.ledger.sorted).symm⟩
  exact hu.congr rfl ⟨rfl, rfl, rfl, rfl, rfl, rfl, .refl _, rfl, rfl, rfl, rfl⟩

/-- In every run of a session that is not seeded, takes its frames from a signal and feeds no chunk half
way, the results of a process call that finds a push session without a request to cancel show exactly
what the session holds, and so whatever a result up to them has shown. -/
theorem process_shows_all_held (signal : ℕ → ℚ) (s : Session) (hcreated : Created s)
    (calls : List Call) (last : Call) (source : PullSource) (budget : WorkBudget)
    (hlast : last.op = .process source budget)
    (hhears : Guarded (fun call s => Hears signal call.op (s.withPlatform call)) (calls ++ [last]) s)
    (hwhole : Guarded (fun call s => FeedsWhole call.op (s.withPlatform call)) (calls ++ [last]) s)
    (before s' : Session) (hrun : run calls s = some before) (hpush : before.config.inputMode = .push)
    (hlive : before.cancelRequested = false) (hstep : step last before = some s') :
    ∃ later, s'.results = later ++ before.results ∧ ∀ result ∈ later, ∀ range column,
      (result.ShowsColumn range column ↔ s'.Holds range column) ∧
      ∀ earlier ∈ s'.results, earlier.ShowsColumn range column → result.ShowsColumn range column := by
  have hbefore : Archived signal before :=
    (Archived.invariant signal).run (.created signal hcreated) hhears.of_append hwhole.of_append hrun
  have hheard := (hhears.after hrun).1
  have hfed : FeedsWhole last.op (before.withPlatform last) := (hwhole.after hrun).1
  have hafter := (Archived.invariant signal).step hbefore hheard hfed hstep
  have hcompletely : Completely before s' := by
    obtain ⟨⟨status, after⟩, hperform, rfl⟩ := Option.map_eq_some_iff.mp hstep
    rw [hlast] at hperform hfed
    obtain ⟨⟨answer, progress, t⟩, hprocess, heq⟩ := Option.map_eq_some_iff.mp hperform
    obtain ⟨-, rfl⟩ := Prod.mk.inj heq
    have hplatform := withPlatform_sameTrack last before
    have hentry : (before.withPlatform last).layersEntry source budget = before.withPlatform last := by
      refine if_neg fun hpull => ?_
      cases hpush.symm.trans hpull.1
    have hwhole' : CallWhole budget ((before.withPlatform last).started budget) := by
      change CallWhole budget (((before.withPlatform last).layersEntry source budget).started budget)
        at hfed
      rwa [hentry] at hfed
    rcases process_entry hprocess with rfl | himpl
    · rw [hentry]
      exact hplatform.completely
    · rw [hentry] at himpl
      exact (processImpl_completely (hbefore.accounted.same hplatform) hwhole' hlive himpl).congr
        hplatform.results (.refl _)
  obtain ⟨later, hresults, hshows⟩ := hcompletely
  refine ⟨later, hresults, fun result hresult range column =>
    ⟨hshows result hresult range column, fun earlier hearlier hshown => ?_⟩⟩
  exact (hshows result hresult range column).mpr (hafter.held earlier hearlier range column hshown)

/-- Two columns of silence; the publication of the second is refused, and the end of the input is
published without columns. -/
def refusedSilence : List Call :=
  twoHalves ++ [silentHalf 64, silentHalf 96, ⟨idleProcessCall.op, [false], []⟩,
    plainCall (.signalEndOfInput 128)]

theorem hears_refusedSilence : ∀ call ∈ refusedSilence ++ [idleProcessCall], ∀ s,
    Hears (fun _ => 0) call.op s := by
  simp only [refusedSilence, twoHalves, List.cons_append, List.nil_append, List.forall_mem_cons]
  exact ⟨hears_silentHalf 32, hears_silentHalf 0, hears_idle, hears_silentHalf 64,
    hears_silentHalf 96, hears_idle, fun _ => trivial, hears_idle, by simp⟩

/-- Columns that a result shows. -/
def columnsShown (result : Result) : ℕ :=
  (result.overview.map fun view => (view.spans.map fun span => span.columns.length).sum).getD 0

/-- The process call after the end of the input shows both columns again. -/
theorem process_shows_all_held_refused : ∃ created before s' : Session, Created created ∧
    run refusedSilence created = some before ∧ step idleProcessCall before = some s' ∧
    before.results.map columnsShown = [0, 1, 0, 0] ∧
    s'.results.map columnsShown = [2, 2, 0, 1, 0, 0] ∧
    ∃ later, s'.results = later ++ before.results ∧ ∀ result ∈ later, ∀ range column,
      (result.ShowsColumn range column ↔ s'.Holds range column) ∧
      ∀ earlier ∈ s'.results, earlier.ShowsColumn range column →
        result.ShowsColumn range column := by
  obtain ⟨created, hcreate⟩ : ∃ created, create (smallConfig {.waveformOverview} none) seriesLibm true
      plainPlatform = (.ok, some created) := ⟨_, rfl⟩
  have hdone : ((create (smallConfig {.waveformOverview} none) seriesLibm true plainPlatform).2.bind
      fun created => (run refusedSilence created).bind fun before =>
        (step idleProcessCall before).map fun s' =>
          (created.usesWorkspace, before.config.inputMode, before.cancelRequested,
            before.results.map columnsShown, s'.results.map columnsShown)) =
        some (true, .push, false, [0, 1, 0, 0], [2, 2, 0, 1, 0, 0]) := by
    decide +kernel
  rw [hcreate] at hdone
  obtain ⟨_, hsame, hdone⟩ := Option.bind_eq_some_iff.mp hdone
  obtain rfl := Option.some.inj hsame
  obtain ⟨before, hrun, hdone⟩ := Option.bind_eq_some_iff.mp hdone
  obtain ⟨s', hstep, hdone⟩ := Option.map_eq_some_iff.mp hdone
  simp only [Prod.mk.injEq] at hdone
  obtain ⟨hworkspace, hpush, hlive, hbefore, hafter⟩ := hdone
  have hcreated : Created created := ⟨_, _, _, _, hcreate⟩
  have hhears : Guarded (fun call s => Hears (fun _ => 0) call.op (s.withPlatform call))
      (refusedSilence ++ [idleProcessCall]) created :=
    Runs.Guarded.mono (fun call s h => h (s.withPlatform call))
      (Runs.guarded_of_forall hears_refusedSilence created)
  have hstart : AccountedInWorkspace (fun _ => 0) created := ⟨.created _ hcreated, hworkspace⟩
  exact ⟨created, before, s', hcreated, hrun, hstep, hbefore, hafter,
    process_shows_all_held _ created hcreated refusedSilence idleProcessCall _ _ rfl hhears
      (hstart.guarded hhears) before s' hrun hpush hlive hstep⟩

end Session

end LibApta
