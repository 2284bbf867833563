import LibApta.Session.PooledSnapshot

/-!
# The builders stay inside the arrays of a slot

What a builder counts before it writes is what it writes. For the overview the builder relies on the
counter of complete columns, which is right in every state that a run reaches, and for the detail tiles
on runs that lie in their tiles.
-/

namespace LibApta

open Check Memory

variable {p : Platform} {types : PoolTypes p} {layout : ResultPoolLayout}

/-- The regions of a sound layout pass the check of the builders. -/
theorem regionIsValid_eq_ok (h : layout.Sound types) (array : SlotArray) :
    regionIsValid p layout array = .ok () := by
  obtain ⟨region, hregion, hcount, hpast⟩ := h.lookup array
  have hfits := h.slotBytes_le
  rw [Region.past, hcount] at hpast
  unfold regionIsValid
  simp only [hregion, Option.getD_some]
  rw [within_of_le (by omega), ok_bind, rejectIf_eq_ok]
  omega

/-! ## The overview -/

namespace SnapshotFill

variable {hasBands : Bool} {framesPerColumn : ℕ} {endOfInput : Option ℕ} {fill : SnapshotFill}

/-- A span is open once a column is written. -/
def Begun (fill : SnapshotFill) : Prop := fill.previous.isSome → 0 < fill.spans.length

theorem Begun.closeWithin_eq (h : fill.Begun) :
    fill.closeWithin framesPerColumn endOfInput = .ok (fill.close framesPerColumn endOfInput) := by
  unfold closeWithin
  split_ifs with hprevious
  · rw [minus_eq_ok.mpr ⟨h hprevious, rfl⟩, ok_bind]
  · rw [Bool.not_eq_true, Option.isSome_eq_false_iff, Option.isNone_iff_eq_none] at hprevious
    rw [close, hprevious]

@[simp] theorem close_previous :
    (fill.close framesPerColumn endOfInput).previous = fill.previous := by
  unfold close
  split <;> rfl

/-- A step that does not outgrow the arrays is the step of the snapshot. -/
theorem Begun.stepWithin_eq (h : fill.Begun) {acc : Accumulator}
    (hcolumns : (fill.step hasBands framesPerColumn endOfInput acc).columns.length ≤
      layout.capacity .overviewColumns)
    (hspans : (fill.step hasBands framesPerColumn endOfInput acc).spans.length ≤
      layout.capacity .overviewSpans) :
    fill.stepWithin layout hasBands framesPerColumn endOfInput acc =
        .ok (fill.step hasBands framesPerColumn endOfInput acc) ∧
      (fill.step hasBands framesPerColumn endOfInput acc).Begun := by
  unfold step at hcolumns hspans ⊢
  unfold stepWithin openWithin
  split_ifs at hcolumns hspans ⊢ with hcomplete hstart
  · exact ⟨rfl, h⟩
  · simp only [openSpan, List.length_append, List.length_singleton] at hcolumns hspans ⊢
    rw [h.closeWithin_eq, ok_bind, push_of_lt hspans, ok_bind, ok_bind, push_of_lt hcolumns, ok_bind]
    exact ⟨rfl, fun _ => by simp⟩
  · simp only [List.length_append, List.length_singleton] at hcolumns
    rw [ok_bind, push_of_lt (by omega), ok_bind]
    refine ⟨rfl, fun _ => h ?_⟩
    cases hprevious : fill.previous with
    | none => simp [hprevious, startsSpan] at hstart
    | some before => rfl

/-- A step writes a column if the column is complete, and at most one span. -/
theorem step_length (acc : Accumulator) :
    (fill.step hasBands framesPerColumn endOfInput acc).columns.length =
        fill.columns.length + (if acc.complete then 1 else 0) ∧
      fill.spans.length ≤ (fill.step hasBands framesPerColumn endOfInput acc).spans.length := by
  unfold step
  cases acc.complete
  · exact ⟨rfl, le_rfl⟩
  · by_cases hstart : startsSpan fill.previous acc.columnIndex = true
    · simp [hstart, openSpan, close_columns, close_spans_length]
    · simp [hstart]

theorem foldl_length (accumulators : List Accumulator) :
    (accumulators.foldl (step hasBands framesPerColumn endOfInput) fill).columns.length =
        fill.columns.length + accumulators.countP Accumulator.complete ∧
      fill.spans.length ≤
        (accumulators.foldl (step hasBands framesPerColumn endOfInput) fill).spans.length := by
  induction accumulators generalizing fill with
  | nil => exact ⟨rfl, le_rfl⟩
  | cons acc rest ih =>
      obtain ⟨hcolumns, hspans⟩ := @step_length hasBands framesPerColumn endOfInput fill acc
      obtain ⟨hrest, hmore⟩ := @ih (fill.step hasBands framesPerColumn endOfInput acc)
      rw [List.foldl_cons, hrest, hcolumns, List.countP_cons]
      exact ⟨by omega, hspans.trans hmore⟩

/-- The second pass of the builder is that of the snapshot where the arrays have room for it. -/
theorem Begun.walk_eq (h : fill.Begun) {accumulators : List Accumulator} (index : ℕ)
    (hcolumns : (accumulators.foldl (step hasBands framesPerColumn endOfInput) fill).columns.length ≤
      layout.capacity .overviewColumns)
    (hspans : (accumulators.foldl (step hasBands framesPerColumn endOfInput) fill).spans.length ≤
      layout.capacity .overviewSpans) :
    walk (fun _ => stepWithin layout hasBands framesPerColumn endOfInput) index accumulators fill =
        .ok (accumulators.foldl (step hasBands framesPerColumn endOfInput) fill) ∧
      (accumulators.foldl (step hasBands framesPerColumn endOfInput) fill).Begun := by
  induction accumulators generalizing fill index with
  | nil => exact ⟨rfl, h⟩
  | cons acc rest ih =>
      rw [List.foldl_cons] at hcolumns hspans
      obtain ⟨hgrown, hmore⟩ := @foldl_length hasBands framesPerColumn endOfInput
        (fill.step hasBands framesPerColumn endOfInput acc) rest
      obtain ⟨hstep, hbegun⟩ := @Begun.stepWithin_eq layout hasBands framesPerColumn endOfInput fill
        h acc (by omega) (by omega)
      rw [walk_cons, hstep, ok_bind]
      exact ih hbegun (index + 1) hcolumns hspans

end SnapshotFill

/-! ## The detail tiles -/

section Detail

variable {endOfInput : Option ℕ}

/-- The columns of published runs. -/
def runColumns (runs : List (DetailTile × ℕ × ℕ)) : ℕ := (runs.map fun run => run.2.2).sum

/-- The run lies in its tile. -/
def RunInTile (run : DetailTile × ℕ × ℕ) : Prop :=
  ∀ column < run.2.2, run.2.1 + column < run.1.accumulators.length

/-- The first pass notes runs of the tiles, and counts their columns. -/
theorem countRuns_spec {tiles : List (Option DetailTile)} {index : ℕ}
    {state after : List (DetailTile × ℕ × ℕ) × ℕ}
    (htidy : ∀ tile, some tile ∈ tiles → tile.Tidy)
    (h : walk (fun _ => countRun) index tiles state = .ok after)
    (hstate : state.2 = runColumns state.1 ∧ ∀ run ∈ state.1, RunInTile run) :
    after.2 = runColumns after.1 ∧ ∀ run ∈ after.1, RunInTile run := by
  refine walk_invariant (P := fun _ state => state.2 = runColumns state.1 ∧
    ∀ run ∈ state.1, RunInTile run) h hstate ?_
  intro index state next slot hslot hstate hstep
  unfold countRun at hstep
  split at hstep
  · next tile =>
      split at hstep
      · next first count hrun =>
          split_ifs at hstep with hempty
          · exact Except.ok.inj hstep ▸ hstate
          · obtain ⟨-, -, hstep⟩ := bind_eq_ok.mp hstep
            obtain rfl := Except.ok.inj hstep
            refine ⟨by simp [hstate.1, runColumns], fun run hmem => ?_⟩
            rcases List.mem_append.mp hmem with hmem | hmem
            · exact hstate.2 run hmem
            · obtain rfl := List.mem_singleton.mp hmem
              intro column hcolumn
              have hbound := (htidy tile hslot).run first count hrun
              rw [(htidy tile hslot).columns]
              simp only at hcolumn ⊢
              omega
      · exact Except.ok.inj hstep ▸ hstate
  · exact Except.ok.inj hstep ▸ hstate

theorem safe_countRuns {tiles : List (Option DetailTile)} {index : ℕ}
    {state : List (DetailTile × ℕ × ℕ) × ℕ} : Safe (walk (fun _ => countRun) index tiles state) := by
  refine safe_walk (P := fun _ _ => True) tiles index state trivial fun _ state slot _ _ => ?_
  refine ⟨?_, fun _ _ => trivial⟩
  unfold countRun
  split
  · split
    · split_ifs
      · exact safe_ok _
      · exact safe_bind (safe_rejectIf _ _) fun _ _ => safe_ok _
    · exact safe_ok _
  · exact safe_ok _

/-- The columns of a run are written where the array has room for them. -/
theorem writeColumns_spec {capacity first offset count : ℕ} {tile : DetailTile}
    {written : List WaveformColumn}
    (htile : ∀ column < offset + count, first + column < tile.accumulators.length)
    (hroom : written.length + count ≤ capacity) :
    ∃ columns, loop (writeColumn capacity first tile) offset count written = .ok columns ∧
      columns.length = written.length + count := by
  induction count generalizing offset written with
  | zero => exact ⟨written, rfl, rfl⟩
  | succ count ih =>
      have hlt := htile offset (by omega)
      obtain ⟨columns, hloop, hlength⟩ := @ih (offset + 1)
        (written ++ [waveformColumn false tile.accumulators[first + offset]])
        (fun column hcolumn => htile column (by omega))
        (by rw [List.length_append, List.length_singleton]; omega)
      refine ⟨columns, ?_, ?_⟩
      · rw [loop, writeColumn, List.getElem?_eq_getElem hlt]
        simp only
        rw [push_of_lt (by omega), ok_bind, hloop]
      · rw [hlength, List.length_append, List.length_singleton]
        omega

/-- The runs are written where the arrays have room for them. -/
theorem safe_writeRuns {runs : List (DetailTile × ℕ × ℕ)} {index : ℕ}
    {written : List DetailTileView × List WaveformColumn} (hruns : ∀ run ∈ runs, RunInTile run)
    (htiles : written.1.length + runs.length ≤ layout.capacity .detailTiles)
    (hcolumns : written.2.length + runColumns runs ≤ layout.capacity .detailColumns) :
    Safe (walk (fun _ => writeRun layout endOfInput) index runs written) := by
  induction runs generalizing index written with
  | nil => exact safe_ok _
  | cons run rest ih =>
      obtain ⟨hrun, hrest⟩ := List.forall_mem_cons.mp hruns
      rw [List.length_cons] at htiles
      rw [runColumns, List.map_cons, List.sum_cons] at hcolumns
      obtain ⟨columns, hloop, hlength⟩ := @writeColumns_spec (layout.capacity .detailColumns)
        run.2.1 0 run.2.2 run.1 written.2 (fun column hcolumn => hrun column (by omega)) (by omega)
      rw [walk_cons, writeRun, push_of_lt (by omega), ok_bind, hloop, ok_bind, ok_bind]
      refine ih hrest ?_ ?_
      · rw [List.length_append, List.length_singleton]
        omega
      · rw [hlength]
        unfold runColumns
        omega

end Detail

namespace Session

section Builders

variable {s : Session} {arrays : PooledArrays}

/-- The texts of valid metadata fill the storage they are measured for. -/
theorem safe_poolBuildMetadata (h : layout.Sound types) :
    Safe (s.poolBuildMetadata p layout arrays) := by
  unfold poolBuildMetadata
  split
  · exact safe_ok _
  · next metadata _ =>
      refine safe_bind (safe_rejectIf _ _) fun _ hfits => ?_
      have hsize := not_lt.mp (rejectIf_eq_ok.mp hfits)
      rw [regionIsValid_eq_ok h, ok_bind]
      refine safe_bind ?_ fun _ _ => safe_bind (safe_rejectIf _ _) fun _ _ => safe_ok _
      have hcopy : ∀ (texts : List (List UInt8)) (index : ℕ) (written : List UInt8),
          written.length + (texts.map List.length).sum ≤ layout.capacity .metadata →
          Safe (walk (fun _ text written => (copy (layout.capacity .metadata) written text :
            Check ErrorCode _)) index texts written) := by
        intro texts
        induction texts with
        | nil => exact fun _ _ _ => safe_ok _
        | cons text rest ih =>
            intro index written hroom
            rw [List.map_cons, List.sum_cons] at hroom
            rw [walk_cons, copy_eq_ok.mpr ⟨by omega, rfl⟩, ok_bind]
            refine ih _ _ ?_
            rw [List.length_append]
            omega
      refine hcopy metadata.texts 0 [] ?_
      have htexts : (metadata.texts.map List.length).sum = metadata.storageSize := by
        simp only [Metadata.texts, Metadata.storageSize, List.map_cons, List.map_nil, List.sum_cons,
          List.sum_nil]
        omega
      rw [htexts, List.length_nil, Nat.zero_add]
      exact hsize

theorem safe_poolBuildOverview (h : layout.Sound types) (htallied : s.overview.Tallied) :
    Safe (s.poolBuildOverview p layout arrays) := by
  unfold poolBuildOverview
  split
  · exact safe_ok _
  refine safe_bind (safe_rejectIf _ _) fun _ hfits => ?_
  obtain ⟨hcolumns, hspans⟩ := not_or.mp (rejectIf_eq_ok.mp hfits)
  rw [regionIsValid_eq_ok h, regionIsValid_eq_ok h, ok_bind, ok_bind]
  have hbegun : SnapshotFill.empty.Begun := fun hsome => by cases hsome
  obtain ⟨hgrown, -⟩ := @SnapshotFill.foldl_length (s.config.requests .waveform3Band)
    s.framesPerColumn s.endOfInput .empty s.overview.accumulators
  have hroom : (s.overview.accumulators.foldl (SnapshotFill.step (s.config.requests .waveform3Band)
      s.framesPerColumn s.endOfInput) .empty).columns.length ≤ layout.capacity .overviewColumns := by
    rw [hgrown, ← htallied.counted, SnapshotFill.empty, List.length_nil, Nat.zero_add]
    exact not_lt.mp hcolumns
  rw [spanCount_eq (s.config.requests .waveform3Band) s.framesPerColumn s.endOfInput,
    SnapshotFill.run, close_spans_length] at hspans
  obtain ⟨hwalk, hend⟩ := hbegun.walk_eq 0 hroom (not_lt.mp hspans)
  rw [hwalk, ok_bind, hend.closeWithin_eq, ok_bind]
  exact safe_ok _

theorem safe_poolBuildDetail (h : layout.Sound types) (htidy : s.detail.Tidy) :
    Safe (s.poolBuildDetail p layout arrays) := by
  unfold poolBuildDetail
  split
  · exact safe_ok _
  refine safe_bind safe_countRuns fun counted hcounted => ?_
  obtain ⟨htotal, hruns⟩ := countRuns_spec htidy.tiles hcounted ⟨rfl, fun _ hmem => by cases hmem⟩
  split
  · exact safe_ok _
  refine safe_bind (safe_rejectIf _ _) fun _ hfits => ?_
  obtain ⟨htiles, hcolumns⟩ := not_or.mp (rejectIf_eq_ok.mp hfits)
  rw [regionIsValid_eq_ok h, regionIsValid_eq_ok h, ok_bind, ok_bind]
  refine safe_bind ?_ fun _ _ => safe_ok _
  have hperm := stageSort_perm (fun run other : DetailTile × ℕ × ℕ =>
    decide (run.1.tileIndex < other.1.tileIndex)) counted.1
  refine safe_writeRuns (fun run hmem => hruns run (hperm.mem_iff.mp hmem)) ?_ ?_
  · rw [hperm.length_eq, List.length_nil]
    omega
  · have hsum : runColumns (stageSort (fun run other =>
        decide (run.1.tileIndex < other.1.tileIndex)) counted.1) = runColumns counted.1 :=
      (hperm.map _).sum_eq
    rw [hsum, ← htotal, List.length_nil]
    omega

theorem safe_poolBuildTempo : Safe (s.poolBuildTempo layout arrays) := by
  unfold poolBuildTempo
  split
  · refine safe_bind (safe_rejectIf _ _) fun _ hfits => safe_bind ?_ fun _ _ => safe_ok _
    have hcount := not_lt.mp (rejectIf_eq_ok.mp hfits)
    rw [safe_copy, List.length_nil, Nat.zero_add]
    exact (List.length_take_le _ _).trans hcount
  · exact safe_ok _

theorem safe_poolBuildLocalGrid : Safe (s.poolBuildLocalGrid layout arrays) := by
  unfold poolBuildLocalGrid
  split
  · exact safe_ok _
  split
  · refine safe_bind (safe_rejectIf _ _) fun _ hfits => ?_
    obtain ⟨hcoverage, hsegments⟩ := not_or.mp (rejectIf_eq_ok.mp hfits)
    refine safe_bind (safe_push.mpr ?_) fun _ _ =>
      safe_bind (safe_push.mpr ?_) fun _ _ => safe_ok _
    · exact not_lt.mp hcoverage
    · exact not_lt.mp hsegments
  · exact safe_ok _

theorem safe_poolBuildGlobalGrid
    (hstate : layout.capacity .globalGridState = layout.capacity .globalGridCoverage) :
    Safe (s.poolBuildGlobalGrid layout arrays) := by
  unfold poolBuildGlobalGrid
  split
  · exact safe_ok _
  split
  · exact safe_ok _
  refine safe_bind (safe_rejectIf _ _) fun _ hfits => ?_
  obtain ⟨hcoverage, hfits⟩ := not_or.mp (rejectIf_eq_ok.mp hfits)
  obtain ⟨hsegments, hbeats⟩ := not_or.mp hfits
  have hroom : 0 < layout.capacity .globalGridCoverage := not_lt.mp hcoverage
  refine safe_bind (safe_push.mpr (hstate ▸ hroom)) fun _ _ =>
    safe_bind (safe_push.mpr hroom) fun _ _ =>
    safe_bind (safe_copy.mpr ?_) fun _ _ => safe_bind (safe_copy.mpr ?_) fun _ _ => safe_ok _
  · rw [List.length_nil, Nat.zero_add, List.length_map]
    exact not_lt.mp hsegments
  · rw [List.length_nil, Nat.zero_add]
    exact not_lt.mp hbeats

/-- A snapshot of a session with a right counter and tidy tiles stays inside the arrays. -/
theorem safe_createPooledResult (h : layout.Sound types)
    (hstate : layout.capacity .globalGridState = layout.capacity .globalGridCoverage)
    (htallied : s.overview.Tallied) (htidy : s.detail.Tidy) :
    Safe (s.createPooledResult p layout) := by
  unfold createPooledResult
  rw [regionIsValid_eq_ok h, ok_bind]
  exact safe_bind (safe_poolBuildMetadata h) fun _ _ =>
    safe_bind (safe_poolBuildOverview h htallied) fun _ _ =>
    safe_bind (safe_poolBuildDetail h htidy) fun _ _ =>
    safe_bind safe_poolBuildTempo fun _ _ => safe_bind safe_poolBuildLocalGrid fun _ _ =>
    safe_poolBuildGlobalGrid hstate

end Builders

/-- The layout of a result pool commits no fault, the layout it accepts is sound, and in every state
that a run of a session of the configuration reaches the builders stay inside the arrays. -/
theorem resultPool_sound (types : PoolTypes p) (config : Config) (memoryBudgetBytes : ℕ)
    (htotal : ∀ total ∈ config.totalFrames, total ≤ uint64Max) :
    Safe (calculateLayout types config memoryBudgetBytes) ∧
      ∀ layout, calculateLayout types config memoryBudgetBytes = .ok layout →
        layout.Sound types ∧
          ∀ libm usesWorkspace env calls created s,
            create config libm usesWorkspace env = (.ok, some created) →
            Session.run calls created = some s → Safe (s.createPooledResult p layout) := by
  refine ⟨safe_calculateLayout htotal, fun layout hlayout => ?_⟩
  have hsound := calculateLayout_sound hlayout
  refine ⟨hsound, fun libm usesWorkspace env calls created s hcreate hrun => ?_⟩
  have hcreated : Created created := ⟨config, libm, usesWorkspace, env, hcreate⟩
  exact safe_createPooledResult hsound (calculateLayout_globalGridState hlayout)
    (tallied_run hcreated hrun) (Presents.run hcreated hrun).presentable.detail

/-- A bounded session for a track of a million frames. -/
def pooledConfig : Config :=
  { smallConfig {.waveformOverview, .waveformDetail, .bpm, .localBeatgrid, .globalBeatgrid}
      (some 1000000) with boundedResultSlots := true }

theorem resultPool_sound_bounded :
    (calculateLayout lp64PoolTypes pooledConfig 0).toOption.map ResultPoolLayout.totalBytes =
        some 1834960 ∧
      Safe (calculateLayout lp64PoolTypes pooledConfig 0) ∧
      ∀ layout, calculateLayout lp64PoolTypes pooledConfig 0 = .ok layout →
        layout.Sound lp64PoolTypes := by
  have htotal : ∀ total ∈ pooledConfig.totalFrames, total ≤ uint64Max := by
    rintro total htotal
    obtain rfl := Option.some.inj htotal
    decide
  obtain ⟨hsafe, hsound⟩ := resultPool_sound lp64PoolTypes pooledConfig 0 htotal
  exact ⟨by decide +kernel, hsafe, fun layout hlayout => (hsound layout hlayout).1⟩

end Session

end LibApta
