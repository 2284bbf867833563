import LibApta.Lib.Cover
import LibApta.Waveform.Consume
import LibApta.Waveform.Snapshot

/-!
# The spans of an overview are in order

The chunk loop keeps the store sorted whatever it meets, and the spans cut from a sorted store ascend.
-/

namespace LibApta

/-! ## The store stays sorted -/

section Loop

variable {overview overview' : Overview} {env env' : Environment} {status : Status}

theorem findOrInsert_sorted {hasBands : Bool} {columnIndex : ℕ} {found : Except Status ℕ}
    (hs : overview.Sorted)
    (h : overview.findOrInsert hasBands columnIndex env = (found, overview', env')) :
    overview'.Sorted := by
  cases found with
  | ok position => exact (Overview.findOrInsert_ok hs h).1
  | error status =>
      rw [(Overview.findOrInsert_error h).2]
      exact hs

theorem processSamples_sorted {framesPerColumn : ℕ} {hasBands : Bool} {samples : List ℚ}
    {frame : ℕ} (hs : overview.Sorted)
    (h : processSamples framesPerColumn hasBands samples frame overview env =
      (status, overview', env')) : overview'.Sorted := by
  induction samples generalizing frame overview env with
  | nil =>
      obtain ⟨-, rfl, -⟩ := Prod.mk.inj h |>.imp_right Prod.mk.inj
      exact hs
  | cons sample rest ih =>
      unfold processSamples at h
      split_ifs at h
      · obtain ⟨-, rfl, -⟩ := Prod.mk.inj h |>.imp_right Prod.mk.inj
        exact hs
      · split at h
        · next heq =>
            obtain ⟨-, rfl, -⟩ := Prod.mk.inj h |>.imp_right Prod.mk.inj
            exact findOrInsert_sorted hs heq
        · next position found fenv heq =>
            obtain ⟨hsorted, hget, -⟩ := Overview.findOrInsert_ok hs heq
            exact ih (Overview.addSampleAt_spec hasBands hsorted sample hget).1 h

theorem processChunks_sorted {ctx : ProcessContext} {frameLimit stepLimit fuel : ℕ}
    {state state' : ChunkState} (hs : state.overview.Sorted)
    (h : processChunks ctx frameLimit stepLimit fuel state = (status, state')) :
    state'.overview.Sorted :=
  processChunks_invariant (P := fun state => state.overview.Sorted)
    (fun _ hfed hs => Overview.sorted_refresh (processSamples_sorted hs hfed))
    (fun _ hfed hs => processSamples_sorted hs hfed) h hs

end Loop

/-! ## Runs of columns -/

/-- The first column of a run. -/
def runFirst (run : List Accumulator) : ℕ := (run.map Accumulator.columnIndex).headD 0

/-- The column after a run. -/
def runEnd (run : List Accumulator) : ℕ := runFirst run + run.length

theorem columnRuns_ne_nil (accumulators : List Accumulator) :
    ∀ run ∈ columnRuns accumulators, run ≠ [] := by
  induction accumulators with
  | nil => intro run hmem; cases hmem
  | cons acc rest ih =>
      unfold columnRuns
      split
      · next next run runs heq =>
          rw [heq] at ih
          obtain ⟨-, hruns⟩ := List.forall_mem_cons.mp ih
          split_ifs
          · exact List.forall_mem_cons.mpr ⟨List.cons_ne_nil _ _, hruns⟩
          · exact List.forall_mem_cons.mpr ⟨List.cons_ne_nil _ _, ih⟩
      · exact List.forall_mem_cons.mpr ⟨List.cons_ne_nil _ _, fun _ h => by cases h⟩

/-- The runs are a partition of the columns, in order. -/
theorem columnRuns_flatten (accumulators : List Accumulator) :
    (columnRuns accumulators).flatten = accumulators := by
  induction accumulators with
  | nil => rfl
  | cons acc rest ih =>
      unfold columnRuns
      split
      · next next run runs heq =>
          rw [heq] at ih
          split_ifs
          · rw [← ih]
            rfl
          · rw [← ih]
            rfl
      · next hother =>
          -- Only an empty list has no run, since no run is empty.
          cases hruns : columnRuns rest with
          | nil =>
              rw [hruns] at ih
              rw [← ih]
              rfl
          | cons run runs =>
              cases run with
              | nil =>
                  exact absurd rfl (columnRuns_ne_nil rest [] (hruns ▸ List.mem_cons_self))
              | cons next run => exact absurd hruns (hother next run runs)

/-- The columns of a run are consecutive. -/
theorem columnRuns_consecutive (accumulators : List Accumulator) :
    ∀ run ∈ columnRuns accumulators, ∀ k acc, run[k]? = some acc →
      acc.columnIndex = runFirst run + k := by
  have hsingle : ∀ (acc : Accumulator) (k : ℕ) (found : Accumulator),
      [acc][k]? = some found → found.columnIndex = runFirst [acc] + k := by
    intro acc k found hget
    obtain ⟨hlt, rfl⟩ := List.getElem?_eq_some_iff.mp hget
    obtain rfl : k = 0 := Nat.lt_one_iff.mp hlt
    rfl
  induction accumulators with
  | nil => exact fun _ hmem => absurd hmem List.not_mem_nil
  | cons acc rest ih =>
      unfold columnRuns
      split
      · next next run runs heq =>
          rw [heq] at ih
          obtain ⟨hfirst, hruns⟩ := List.forall_mem_cons.mp ih
          split_ifs with hnext
          · refine List.forall_mem_cons.mpr ⟨fun k found hget => ?_, hruns⟩
            cases k with
            | zero =>
                obtain rfl := Option.some.inj hget
                rfl
            | succ k =>
                have hfound := hfirst k found hget
                simp only [runFirst, List.map_cons, List.headD_cons] at hfound ⊢
                omega
          · exact List.forall_mem_cons.mpr ⟨hsingle acc, ih⟩
      · exact List.forall_mem_cons.mpr ⟨hsingle acc, fun _ hmem => absurd hmem List.not_mem_nil⟩

/-- The runs of a sorted store are apart, and start at a column of the store or behind it. -/
theorem columnRuns_apart {accumulators : List Accumulator}
    (hs : KeyedList.Sorted Accumulator.columnIndex accumulators) :
    (columnRuns accumulators).Pairwise (fun run other => runEnd run < runFirst other) ∧
      ∀ lower, (∀ acc ∈ accumulators, lower ≤ acc.columnIndex) →
        ∀ run ∈ columnRuns accumulators, lower ≤ runFirst run := by
  induction accumulators with
  | nil => exact ⟨List.Pairwise.nil, fun _ _ _ hmem => absurd hmem List.not_mem_nil⟩
  | cons acc rest ih =>
      obtain ⟨hfirst, hrest⟩ := KeyedList.sorted_cons.mp hs
      obtain ⟨hruns, hlower⟩ := ih hrest
      have hbehind := hlower (acc.columnIndex + 1) fun b hb => hfirst b hb
      have hhead : ∀ lower, (∀ b ∈ acc :: rest, lower ≤ b.columnIndex) → lower ≤ acc.columnIndex :=
        fun lower h => h acc List.mem_cons_self
      have hne := columnRuns_ne_nil rest
      unfold columnRuns
      split
      · next next run runs heq =>
          rw [heq] at hruns hbehind hlower
          obtain ⟨happart, hlater⟩ := List.pairwise_cons.mp hruns
          split_ifs with hnext
          · -- The column lengthens the first run downwards.
            refine ⟨List.pairwise_cons.mpr ⟨fun other hmem => ?_, hlater⟩, fun lower h => ?_⟩
            · have := happart other hmem
              simp only [runEnd, runFirst, List.map_cons, List.headD_cons, List.length_cons] at *
              omega
            · refine List.forall_mem_cons.mpr ⟨hhead lower h, ?_⟩
              exact fun other hmem => hlower lower (fun b hb => h b (List.mem_cons_of_mem _ hb))
                other (List.mem_cons_of_mem _ hmem)
          · -- The column is a run, and the first run starts behind the column after it.
            have hafter : acc.columnIndex + 1 < next.columnIndex :=
              lt_of_le_of_ne (hbehind _ List.mem_cons_self) (Ne.symm hnext)
            refine ⟨List.pairwise_cons.mpr ⟨List.forall_mem_cons.mpr ⟨hafter, fun other hmem => ?_⟩,
              hruns⟩, fun lower h => ?_⟩
            · have := happart other hmem
              simp only [runEnd, runFirst, List.map_cons, List.headD_cons, List.map_nil,
                List.length_cons, List.length_nil] at *
              omega
            · exact List.forall_mem_cons.mpr ⟨hhead lower h,
                hlower lower fun b hb => h b (List.mem_cons_of_mem _ hb)⟩
      · exact ⟨List.pairwise_singleton _ _, fun lower h =>
          List.forall_mem_cons.mpr ⟨hhead lower h, fun _ hmem => absurd hmem List.not_mem_nil⟩⟩

/-- The spans of a sorted store ascend. -/
theorem overviewSpans_ascending {accumulators : List Accumulator}
    (hs : KeyedList.Sorted Accumulator.columnIndex accumulators) (hasBands : Bool)
    (framesPerColumn : ℕ) (endOfInput : Option ℕ) :
    Cover.Ascending FrameRange.firstFrame FrameRange.endFrame
      ((overviewSpans hasBands framesPerColumn endOfInput accumulators).map
        WaveformSpan.sourceRange) := by
  have hkept : KeyedList.Sorted Accumulator.columnIndex (accumulators.filter Accumulator.complete) :=
    List.Pairwise.sublist (List.filter_sublist.map _) hs
  unfold overviewSpans Cover.Ascending
  rw [List.map_map, List.pairwise_map]
  refine (columnRuns_apart hkept).1.imp fun {run other} hapart => ?_
  have hclip : clipToEnd endOfInput (runEnd run * framesPerColumn) ≤ runEnd run * framesPerColumn := by
    cases endOfInput with
    | none => exact le_rfl
    | some finalEnd => exact min_le_left _ _
  exact hclip.trans (Nat.mul_le_mul_right framesPerColumn hapart.le)

/-! ## Columns of an overview -/

/-- The frames of a column of a span, cut to the end of the span. -/
def FrameRange.columnFrames (range : FrameRange) (framesPerColumn k : ℕ) : FrameRange where
  firstFrame := range.firstFrame + k * framesPerColumn
  endFrame := min (range.firstFrame + (k + 1) * framesPerColumn) range.endFrame

/-- The overview shows a column at a range of frames. -/
def OverviewView.Shows (view : OverviewView) (range : FrameRange) (column : WaveformColumn) : Prop :=
  ∃ span ∈ view.spans, ∃ k, span.columns[k]? = some column ∧
    range = span.sourceRange.columnFrames view.framesPerColumn k

/-- The spans show the complete columns at the frames of their indices, cut at the end of the input. -/
theorem overviewSpans_shows_clipped (hasBands : Bool) (framesPerColumn : ℕ) (endOfInput : Option ℕ)
    (accumulators : List Accumulator) (range : FrameRange) (column : WaveformColumn) :
    (∃ span ∈ overviewSpans hasBands framesPerColumn endOfInput accumulators, ∃ k,
        span.columns[k]? = some column ∧
          range = span.sourceRange.columnFrames framesPerColumn k) ↔
      ∃ acc ∈ accumulators, acc.complete = true ∧ waveformColumn hasBands acc = column ∧
        range = ⟨acc.columnIndex * framesPerColumn,
          clipToEnd endOfInput ((acc.columnIndex + 1) * framesPerColumn)⟩ := by
  have hconsecutive := columnRuns_consecutive (accumulators.filter Accumulator.complete)
  -- A column of a run lies inside the run, so the end of the run does not cut it.
  have hframes : ∀ run ∈ columnRuns (accumulators.filter Accumulator.complete), ∀ k acc,
      run[k]? = some acc →
        (waveformSpan hasBands framesPerColumn endOfInput run).sourceRange.columnFrames
            framesPerColumn k =
          ⟨acc.columnIndex * framesPerColumn,
            clipToEnd endOfInput ((acc.columnIndex + 1) * framesPerColumn)⟩ := by
    intro run hrun k acc hget
    have hlt : k < run.length := (List.getElem?_eq_some_iff.mp hget).1
    have hend : runFirst run * framesPerColumn + (k + 1) * framesPerColumn ≤
        (runFirst run + run.length) * framesPerColumn := by
      rw [← Nat.add_mul]
      exact Nat.mul_le_mul_right _ (by omega)
    rw [hconsecutive run hrun k acc hget]
    unfold FrameRange.columnFrames
    refine congrArg₂ FrameRange.mk (Nat.add_mul _ _ _).symm ?_
    rw [Nat.add_assoc, Nat.add_mul (runFirst run)]
    cases endOfInput with
    | none => exact min_eq_left hend
    | some finalEnd =>
        show min (runFirst run * framesPerColumn + (k + 1) * framesPerColumn)
            (min ((runFirst run + run.length) * framesPerColumn) finalEnd) = _
        rw [← min_assoc, min_eq_left hend]
        rfl
  unfold overviewSpans
  constructor
  · rintro ⟨_, hspan, k, hget, rfl⟩
    obtain ⟨run, hrun, rfl⟩ := List.mem_map.mp hspan
    change (run.map _)[k]? = _ at hget
    rw [List.getElem?_map] at hget
    obtain ⟨acc, hacc, rfl⟩ := Option.map_eq_some_iff.mp hget
    have hmem : acc ∈ accumulators.filter Accumulator.complete := by
      rw [← columnRuns_flatten (accumulators.filter Accumulator.complete)]
      exact List.mem_flatten.mpr ⟨run, hrun, List.mem_of_getElem? hacc⟩
    obtain ⟨hmem, hcomplete⟩ := List.mem_filter.mp hmem
    exact ⟨acc, hmem, hcomplete, rfl, hframes run hrun k acc hacc⟩
  · rintro ⟨acc, hmem, hcomplete, rfl, rfl⟩
    have hkept : acc ∈ (columnRuns (accumulators.filter Accumulator.complete)).flatten := by
      rw [columnRuns_flatten]
      exact List.mem_filter.mpr ⟨hmem, hcomplete⟩
    obtain ⟨run, hrun, hacc⟩ := List.mem_flatten.mp hkept
    obtain ⟨k, hget⟩ := List.mem_iff_getElem?.mp hacc
    refine ⟨_, List.mem_map_of_mem hrun, k, ?_, (hframes run hrun k acc hget).symm⟩
    change (run.map _)[k]? = _
    rw [List.getElem?_map, hget, Option.map_some]

/-- While the input has no end, the spans show the complete columns at the frames of their indices. -/
theorem overviewSpans_shows (hasBands : Bool) (framesPerColumn : ℕ) (accumulators : List Accumulator)
    (range : FrameRange) (column : WaveformColumn) :
    (∃ span ∈ overviewSpans hasBands framesPerColumn none accumulators, ∃ k,
        span.columns[k]? = some column ∧
          range = span.sourceRange.columnFrames framesPerColumn k) ↔
      ∃ acc ∈ accumulators, acc.complete = true ∧ waveformColumn hasBands acc = column ∧
        range = ⟨acc.columnIndex * framesPerColumn, (acc.columnIndex + 1) * framesPerColumn⟩ :=
  overviewSpans_shows_clipped hasBands framesPerColumn none accumulators range column

end LibApta
