import LibApta.Lib.LongestRun
import LibApta.Waveform.Spans

/-!
# The two passes of the overview snapshot

The first pass counts the spans of the complete columns, so that their array can be allocated, and the
second one writes the columns and the spans. Both walk along the store and start a span where a column
does not follow the one before it. On a store that is sorted by columns of 32 bits, the second pass
writes a span for each maximal run of complete columns, as many as the first one has counted, and a
column for each complete one.
-/

namespace LibApta

/-- The complete column does not follow the complete column before it. The sum wraps. -/
def startsSpan (previous : Option ℕ) (columnIndex : ℕ) : Bool :=
  match previous with
  | none => true
  | some before => decide (columnIndex ≠ (before + 1) % 4294967296)

/-! ## The first pass -/

/-- One entry of the first pass, on the spans so far and the complete column before. -/
def countSpan (state : ℕ × Option ℕ) (acc : Accumulator) : ℕ × Option ℕ :=
  if !acc.complete then state
  else
    (if startsSpan state.2 acc.columnIndex then state.1 + 1 else state.1, some acc.columnIndex)

/-- The spans that the first pass counts. -/
def spanCount (accumulators : List Accumulator) : ℕ := (accumulators.foldl countSpan (0, none)).1

/-! ## The second pass -/

/-- A span of the array: its first column, where its columns start in the array of columns, and, once
it is closed, their number and the frame after it. -/
structure SpanRecord where
  firstColumnIndex : ℕ
  firstFrame : ℕ
  endFrame : ℕ
  output : ℕ
  columnCount : ℕ
deriving DecidableEq

/-- What the second pass has written, the complete column before, and where the columns of the open
span start. -/
structure SnapshotFill where
  columns : List WaveformColumn
  spans : List SpanRecord
  previous : Option ℕ
  spanStart : ℕ
deriving DecidableEq

namespace SnapshotFill

/-- Nothing is written. -/
def empty : SnapshotFill := ⟨[], [], none, 0⟩

/-- Close the last span behind the complete column before. -/
def close (framesPerColumn : ℕ) (endOfInput : Option ℕ) (fill : SnapshotFill) : SnapshotFill :=
  match fill.previous with
  | none => fill
  | some before =>
      { fill with
        spans := fill.spans.modify (fill.spans.length - 1) fun span =>
          { span with
            endFrame := clipToEnd endOfInput ((before + 1) * framesPerColumn)
            columnCount := fill.columns.length - fill.spanStart } }

/-- Open a span at a column. -/
def openSpan (framesPerColumn columnIndex : ℕ) (fill : SnapshotFill) : SnapshotFill :=
  { fill with
    spanStart := fill.columns.length
    spans := fill.spans ++
      [⟨columnIndex, columnIndex * framesPerColumn, 0, fill.columns.length, 0⟩] }

/-- One entry of the second pass. -/
def step (hasBands : Bool) (framesPerColumn : ℕ) (endOfInput : Option ℕ) (fill : SnapshotFill)
    (acc : Accumulator) : SnapshotFill :=
  if !acc.complete then fill
  else
    let opened :=
      if startsSpan fill.previous acc.columnIndex then
        (fill.close framesPerColumn endOfInput).openSpan framesPerColumn acc.columnIndex
      else fill
    { opened with
      columns := opened.columns ++ [waveformColumn hasBands acc]
      previous := some acc.columnIndex }

/-- The second pass. -/
def run (hasBands : Bool) (framesPerColumn : ℕ) (endOfInput : Option ℕ)
    (accumulators : List Accumulator) : SnapshotFill :=
  (accumulators.foldl (step hasBands framesPerColumn endOfInput) empty).close framesPerColumn
    endOfInput

/-- The span that a record of the array points at. -/
def view (columns : List WaveformColumn) (span : SpanRecord) : WaveformSpan where
  firstColumnIndex := span.firstColumnIndex
  sourceRange := ⟨span.firstFrame, span.endFrame⟩
  columns := (columns.drop span.output).take span.columnCount

end SnapshotFill

/-! ## The passes agree -/

theorem close_spans_length (framesPerColumn : ℕ) (endOfInput : Option ℕ) (fill : SnapshotFill) :
    (fill.close framesPerColumn endOfInput).spans.length = fill.spans.length := by
  unfold SnapshotFill.close
  split
  · rfl
  · exact List.length_modify ..

/-- Both passes see the same starts of spans. -/
theorem spanCount_eq (hasBands : Bool) (framesPerColumn : ℕ) (endOfInput : Option ℕ)
    (accumulators : List Accumulator) :
    spanCount accumulators =
      (SnapshotFill.run hasBands framesPerColumn endOfInput accumulators).spans.length := by
  have hpasses : ∀ (todo : List Accumulator) (state : ℕ × Option ℕ) (fill : SnapshotFill),
      state = (fill.spans.length, fill.previous) →
      todo.foldl countSpan state =
        ((todo.foldl (SnapshotFill.step hasBands framesPerColumn endOfInput) fill).spans.length,
          (todo.foldl (SnapshotFill.step hasBands framesPerColumn endOfInput) fill).previous) := by
    intro todo
    induction todo with
    | nil => exact fun _ _ hstate => hstate
    | cons acc rest ih =>
        intro state fill hstate
        refine ih _ _ ?_
        subst hstate
        unfold countSpan SnapshotFill.step
        split_ifs with hcomplete hstart
        · rfl
        · simp [SnapshotFill.openSpan, close_spans_length]
        · rfl
  rw [SnapshotFill.run, close_spans_length, spanCount,
    hpasses accumulators (0, none) .empty rfl]

/-! ## Runs of a store and one column more -/

/-- A column before the others lengthens the first run or starts a run. -/
theorem columnRuns_cons {acc next : Accumulator} {rest run : List Accumulator}
    {runs : List (List Accumulator)} (hrest : columnRuns rest = (next :: run) :: runs) :
    columnRuns (acc :: rest) =
      if next.columnIndex = acc.columnIndex + 1 then (acc :: next :: run) :: runs
      else [acc] :: (next :: run) :: runs := by
  rw [columnRuns, hrest]

/-- A column behind the others lengthens the last run or starts a run. -/
theorem columnRuns_concat {accumulators : List Accumulator} {last : Accumulator}
    (hlast : accumulators.getLast? = some last) (acc : Accumulator) :
    ∃ runs run, columnRuns accumulators = runs ++ [run] ∧
      columnRuns (accumulators ++ [acc]) =
        if acc.columnIndex = last.columnIndex + 1 then runs ++ [run ++ [acc]]
        else runs ++ [run, [acc]] := by
  induction accumulators with
  | nil => cases hlast
  | cons first rest ih =>
      cases rest with
      | nil =>
          obtain rfl := Option.some.inj hlast
          exact ⟨[], [first], rfl, columnRuns_cons rfl⟩
      | cons second rest =>
          rw [List.getLast?_cons_cons] at hlast
          obtain ⟨runs, run, hruns, hmore⟩ := ih hlast
          -- The run that the first column may lengthen is the last run, or it stays as it is.
          obtain ⟨next, head, tail, hhead⟩ : ∃ next head tail,
              columnRuns (second :: rest) = (next :: head) :: tail := by
            have hnonempty := columnRuns_ne_nil (second :: rest)
            cases hparts : columnRuns (second :: rest) with
            | nil => simp [hparts] at hruns
            | cons part tail =>
                obtain ⟨next, head, rfl⟩ :=
                  List.exists_cons_of_ne_nil (hnonempty part (hparts ▸ List.mem_cons_self))
                exact ⟨next, head, tail, rfl⟩
          have hbefore := @columnRuns_cons first _ _ _ _ hhead
          cases runs with
          | nil =>
              obtain ⟨rfl, rfl⟩ : run = next :: head ∧ tail = [] := by
                simpa [hhead, eq_comm] using hruns
              by_cases hfollows : next.columnIndex = first.columnIndex + 1
              · refine ⟨[], first :: next :: head, by rw [hbefore, if_pos hfollows]; rfl, ?_⟩
                split_ifs at hmore ⊢ <;> rw [List.cons_append, columnRuns_cons hmore, if_pos hfollows] <;> rfl
              · refine ⟨[[first]], next :: head, by rw [hbefore, if_neg hfollows]; rfl, ?_⟩
                split_ifs at hmore ⊢ <;> rw [List.cons_append, columnRuns_cons hmore, if_neg hfollows] <;> rfl
          | cons part runs =>
              obtain ⟨rfl, rfl⟩ : part = next :: head ∧ tail = runs ++ [run] := by
                simpa [hhead, eq_comm] using hruns
              by_cases hfollows : next.columnIndex = first.columnIndex + 1
              · refine ⟨(first :: next :: head) :: runs, run, by rw [hbefore, if_pos hfollows]; rfl, ?_⟩
                split_ifs at hmore ⊢ <;> rw [List.cons_append, columnRuns_cons hmore, if_pos hfollows] <;> rfl
              · refine ⟨[first] :: (next :: head) :: runs, run, by rw [hbefore, if_neg hfollows]; rfl, ?_⟩
                split_ifs at hmore ⊢ <;> rw [List.cons_append, columnRuns_cons hmore, if_neg hfollows] <;> rfl

/-! ## Records -/

namespace SpanRecord

/-- The record of a run whose columns start at a place of the array. -/
def ofRun (framesPerColumn : ℕ) (endOfInput : Option ℕ) (output : ℕ) (run : List Accumulator) :
    SpanRecord where
  firstColumnIndex := runFirst run
  firstFrame := runFirst run * framesPerColumn
  endFrame := clipToEnd endOfInput (runEnd run * framesPerColumn)
  output := output
  columnCount := run.length

/-- The records of runs whose columns stand behind each other in the array. -/
def ofRuns (framesPerColumn : ℕ) (endOfInput : Option ℕ) : ℕ → List (List Accumulator) →
    List SpanRecord
  | _, [] => []
  | output, run :: runs =>
      ofRun framesPerColumn endOfInput output run ::
        ofRuns framesPerColumn endOfInput (output + run.length) runs

variable {framesPerColumn : ℕ} {endOfInput : Option ℕ}

theorem ofRuns_append (output : ℕ) (runs more : List (List Accumulator)) :
    ofRuns framesPerColumn endOfInput output (runs ++ more) =
      ofRuns framesPerColumn endOfInput output runs ++
        ofRuns framesPerColumn endOfInput (output + runs.flatten.length) more := by
  induction runs generalizing output with
  | nil => rfl
  | cons run runs ih =>
      rw [List.cons_append, ofRuns, ih, ofRuns, List.flatten_cons, List.length_append, Nat.add_assoc]
      rfl

/-- What is read of the records without their places. -/
theorem ofRuns_map {β : Type} {f : SpanRecord → β} {g : List Accumulator → β}
    (hfg : ∀ output run, f (ofRun framesPerColumn endOfInput output run) = g run) (output : ℕ)
    (runs : List (List Accumulator)) :
    (ofRuns framesPerColumn endOfInput output runs).map f = runs.map g := by
  induction runs generalizing output with
  | nil => rfl
  | cons run runs ih => rw [ofRuns, List.map_cons, ih, hfg, List.map_cons]

/-- The records of runs point at the spans of the runs. -/
theorem ofRuns_view (hasBands : Bool) (before : List WaveformColumn)
    (runs : List (List Accumulator)) :
    (ofRuns framesPerColumn endOfInput before.length runs).map
        (SnapshotFill.view (before ++ runs.flatten.map (waveformColumn hasBands))) =
      runs.map (waveformSpan hasBands framesPerColumn endOfInput) := by
  induction runs generalizing before with
  | nil => rfl
  | cons run runs ih =>
      have hrest := ih (before ++ run.map (waveformColumn hasBands))
      rw [List.length_append, List.length_map, List.append_assoc, ← List.map_append,
        ← List.flatten_cons] at hrest
      rw [ofRuns, List.map_cons, List.map_cons, hrest]
      congr 1
      unfold SnapshotFill.view ofRun waveformSpan
      simp only [List.drop_left, List.flatten_cons, List.map_append]
      rw [List.take_left' (List.length_map _)]
      rfl

end SpanRecord

/-! ## The second pass writes the runs -/

section Fill

variable {hasBands : Bool} {framesPerColumn : ℕ} {endOfInput : Option ℕ}

/-- The second pass has written complete columns: their quantised columns and, once the open span is
closed, the records of their runs. -/
structure SnapshotFill.Written (hasBands : Bool) (framesPerColumn : ℕ) (endOfInput : Option ℕ)
    (done : List Accumulator) (fill : SnapshotFill) : Prop where
  columns : fill.columns = done.map (waveformColumn hasBands)
  previous : fill.previous = done.getLast?.map Accumulator.columnIndex
  spanStart : fill.spanStart ≤ fill.columns.length
  spans : (fill.close framesPerColumn endOfInput).spans =
    SpanRecord.ofRuns framesPerColumn endOfInput 0 (columnRuns done)

open SnapshotFill

theorem close_columns (fill : SnapshotFill) :
    (fill.close framesPerColumn endOfInput).columns = fill.columns := by
  unfold close
  split <;> rfl

theorem written_empty : empty.Written hasBands framesPerColumn endOfInput [] where
  columns := rfl
  previous := rfl
  spanStart := le_rfl
  spans := rfl

/-- A span opened at a column behind the complete ones is the record of a new run. -/
theorem SnapshotFill.Written.start {done : List Accumulator} {fill : SnapshotFill}
    (h : fill.Written hasBands framesPerColumn endOfInput done) (acc : Accumulator)
    (hruns : columnRuns (done ++ [acc]) = columnRuns done ++ [[acc]]) :
    Written hasBands framesPerColumn endOfInput (done ++ [acc])
      { (fill.close framesPerColumn endOfInput).openSpan framesPerColumn acc.columnIndex with
        columns := fill.columns ++ [waveformColumn hasBands acc]
        previous := some acc.columnIndex } where
  columns := by simp [h.columns]
  previous := by simp
  spanStart := by
    simp [openSpan, close_columns]
  spans := by
    have hlength : fill.columns.length = (columnRuns done).flatten.length := by
      rw [columnRuns_flatten, h.columns, List.length_map]
    rw [hruns, SpanRecord.ofRuns_append, ← h.spans]
    unfold openSpan
    rw [close_columns, close]
    simp only [List.length_append, List.length_singleton, Nat.add_sub_cancel,
      KeyedList.modify_append]
    rw [SpanRecord.ofRuns, SpanRecord.ofRuns, SpanRecord.ofRun, Nat.zero_add, hlength,
      Nat.add_sub_cancel_left]
    rfl

/-- A column that follows the last complete one lengthens the record of the open span. -/
theorem SnapshotFill.Written.lengthen {done : List Accumulator} {fill : SnapshotFill}
    (h : fill.Written hasBands framesPerColumn endOfInput done) {last acc : Accumulator}
    (hlast : done.getLast? = some last) (hnext : acc.columnIndex = last.columnIndex + 1) :
    Written hasBands framesPerColumn endOfInput (done ++ [acc])
      { fill with
        columns := fill.columns ++ [waveformColumn hasBands acc]
        previous := some acc.columnIndex } := by
  obtain ⟨runs, run, hruns, hmore⟩ := columnRuns_concat hlast acc
  rw [if_pos hnext] at hmore
  have hprevious : fill.previous = some last.columnIndex := by rw [h.previous, hlast]; rfl
  have hfirst : runFirst (run ++ [acc]) = runFirst run := by
    have hne : run ≠ [] := columnRuns_ne_nil done run (by simp [hruns])
    obtain ⟨first, rest, rfl⟩ := List.exists_cons_of_ne_nil hne
    rfl
  have hend : runEnd (run ++ [acc]) = acc.columnIndex + 1 := by
    have hacc := columnRuns_consecutive (done ++ [acc]) (run ++ [acc]) (by simp [hmore]) run.length
      acc (by simp)
    rw [runEnd, hacc, List.length_append, List.length_singleton, Nat.add_assoc]
  -- The open span is the last one of the array, and closing it gives the record of the last run.
  have hspans := h.spans
  rw [hruns, SpanRecord.ofRuns_append] at hspans
  have hlength := congrArg List.length hspans
  rw [close_spans_length] at hlength
  unfold close at hspans
  rw [hprevious] at hspans
  obtain ⟨records, record, hrecords⟩ : ∃ records record, fill.spans = records ++ [record] := by
    cases List.eq_nil_or_concat' fill.spans with
    | inl hnil => simp [hnil, SpanRecord.ofRuns] at hlength
    | inr hsome => exact hsome
  simp only [hrecords, List.length_append, List.length_singleton, Nat.add_sub_cancel,
    KeyedList.modify_append, SpanRecord.ofRuns] at hspans
  obtain ⟨hclosed, hrecord⟩ := List.append_inj' hspans rfl
  have hfields := List.head_eq_of_cons_eq hrecord
  simp only [SpanRecord.ofRun, SpanRecord.mk.injEq] at hfields
  obtain ⟨hindex, hframe, -, houtput, hcount⟩ := hfields
  refine ⟨by simp [h.columns], by simp, by simpa using h.spanStart.trans (Nat.le_succ _), ?_⟩
  rw [hmore, SpanRecord.ofRuns_append, ← hclosed]
  unfold close
  simp only [hrecords, List.length_append, List.length_singleton, Nat.add_sub_cancel,
    KeyedList.modify_append, SpanRecord.ofRuns, SpanRecord.ofRun, hfirst, hend, hindex, hframe,
    houtput, ← hcount, Nat.sub_add_comm h.spanStart]

/-- One complete column behind the others. -/
theorem SnapshotFill.Written.step {done : List Accumulator} {fill : SnapshotFill}
    (h : fill.Written hasBands framesPerColumn endOfInput done) {acc : Accumulator}
    (hcomplete : acc.complete = true) (hcolumn : acc.columnIndex ≤ uint32Max)
    (hbehind : ∀ other ∈ done, other.columnIndex < acc.columnIndex) :
    (fill.step hasBands framesPerColumn endOfInput acc).Written hasBands framesPerColumn endOfInput
      (done ++ [acc]) := by
  unfold SnapshotFill.step
  rw [hcomplete, if_neg (by decide), h.previous]
  cases hlast : done.getLast? with
  | none =>
      obtain rfl := List.getLast?_eq_none_iff.mp hlast
      have hstart := h.start acc rfl
      simpa [startsSpan, openSpan, close_columns] using hstart
  | some last =>
      have hlt := hbehind last (List.mem_of_getLast? hlast)
      have hwrap : (last.columnIndex + 1) % 4294967296 = last.columnIndex + 1 :=
        Nat.mod_eq_of_lt (by unfold uint32Max at hcolumn; omega)
      simp only [startsSpan, Option.map_some, hwrap, decide_eq_true_iff]
      by_cases hnext : acc.columnIndex = last.columnIndex + 1
      · rw [if_neg (not_not.mpr hnext)]
        exact h.lengthen hlast hnext
      · obtain ⟨runs, run, hruns, hmore⟩ := columnRuns_concat hlast acc
        rw [if_neg hnext] at hmore
        have hstart := h.start acc (by rw [hmore, hruns]; simp)
        rw [if_pos hnext]
        simpa [openSpan, close_columns] using hstart

/-- The second pass writes the quantised columns and the records of the runs of a sorted store. -/
theorem written_foldl {done todo : List Accumulator} {fill : SnapshotFill}
    (hs : KeyedList.Sorted Accumulator.columnIndex (done ++ todo))
    (hcolumns : ∀ acc ∈ todo, acc.columnIndex ≤ uint32Max)
    (h : fill.Written hasBands framesPerColumn endOfInput (done.filter Accumulator.complete)) :
    (todo.foldl (SnapshotFill.step hasBands framesPerColumn endOfInput) fill).Written hasBands
      framesPerColumn endOfInput ((done ++ todo).filter Accumulator.complete) := by
  induction todo generalizing done fill with
  | nil => rwa [List.append_nil]
  | cons acc rest ih =>
      obtain ⟨hacc, hrest⟩ := List.forall_mem_cons.mp hcolumns
      obtain ⟨-, -, hbefore, -, -⟩ := KeyedList.sorted_append_cons.mp hs
      rw [List.append_cons] at hs ⊢
      refine ih hs hrest ?_
      rw [List.filter_append]
      by_cases hcomplete : acc.complete = true
      · rw [List.filter_singleton, hcomplete, cond_true]
        exact h.step hcomplete hacc fun other hother => hbefore other (List.mem_of_mem_filter hother)
      · rw [Bool.not_eq_true] at hcomplete
        rw [List.filter_singleton, hcomplete, cond_false, List.append_nil]
        unfold SnapshotFill.step
        rwa [hcomplete, if_pos (by decide)]

/-- On a sorted store the second pass writes the columns that are complete and the records of their
runs. -/
theorem run_eq {accumulators : List Accumulator}
    (hs : KeyedList.Sorted Accumulator.columnIndex accumulators)
    (hcolumns : ∀ acc ∈ accumulators, acc.columnIndex ≤ uint32Max) :
    (run hasBands framesPerColumn endOfInput accumulators).columns =
        (accumulators.filter Accumulator.complete).map (waveformColumn hasBands) ∧
      (run hasBands framesPerColumn endOfInput accumulators).spans =
        SpanRecord.ofRuns framesPerColumn endOfInput 0
          (columnRuns (accumulators.filter Accumulator.complete)) := by
  have hwritten : (accumulators.foldl (SnapshotFill.step hasBands framesPerColumn endOfInput)
      empty).Written hasBands framesPerColumn endOfInput
        (accumulators.filter Accumulator.complete) :=
    written_foldl (List.nil_append accumulators ▸ hs) hcolumns written_empty
  exact ⟨by rw [← hwritten.columns, run, close_columns], hwritten.spans⟩

/-- The spans of the second pass are those of the snapshot. -/
theorem run_view {accumulators : List Accumulator}
    (hs : KeyedList.Sorted Accumulator.columnIndex accumulators)
    (hcolumns : ∀ acc ∈ accumulators, acc.columnIndex ≤ uint32Max) :
    (run hasBands framesPerColumn endOfInput accumulators).spans.map
        (view (run hasBands framesPerColumn endOfInput accumulators).columns) =
      overviewSpans hasBands framesPerColumn endOfInput accumulators := by
  obtain ⟨hwritten, hspans⟩ := @run_eq hasBands framesPerColumn endOfInput accumulators hs hcolumns
  rw [hwritten, hspans, overviewSpans, ← SpanRecord.ofRuns_view hasBands [], columnRuns_flatten]
  rfl

end Fill

/-! ## The runs are maximal -/

/-- A store has an entry for a column. -/
def HasColumn (accumulators : List Accumulator) (columnIndex : ℕ) : Prop :=
  ∃ acc ∈ accumulators, acc.columnIndex = columnIndex

/-- The columns of a store are those of its runs. -/
theorem hasColumn_iff (accumulators : List Accumulator) (columnIndex : ℕ) :
    HasColumn accumulators columnIndex ↔
      ∃ run ∈ columnRuns accumulators, runFirst run ≤ columnIndex ∧ columnIndex < runEnd run := by
  have hconsecutive := columnRuns_consecutive accumulators
  constructor
  · rintro ⟨acc, hmem, rfl⟩
    rw [← columnRuns_flatten accumulators] at hmem
    obtain ⟨run, hrun, hacc⟩ := List.mem_flatten.mp hmem
    obtain ⟨k, hget⟩ := List.mem_iff_getElem?.mp hacc
    have hlt : k < run.length := (List.getElem?_eq_some_iff.mp hget).1
    rw [hconsecutive run hrun k acc hget]
    exact ⟨run, hrun, Nat.le_add_right _ _, Nat.add_lt_add_left hlt _⟩
  · rintro ⟨run, hrun, hfirst, hend⟩
    obtain ⟨k, rfl⟩ := Nat.exists_eq_add_of_le hfirst
    have hlt : k < run.length := Nat.lt_of_add_lt_add_left hend
    have hget := List.getElem?_eq_getElem hlt
    refine ⟨run[k], ?_, hconsecutive run hrun k _ hget⟩
    rw [← columnRuns_flatten accumulators]
    exact List.mem_flatten.mpr ⟨run, hrun, List.mem_of_getElem? hget⟩

/-- The runs of a sorted store are the maximal runs of its columns. -/
theorem columnRuns_maximal {accumulators : List Accumulator}
    (hs : KeyedList.Sorted Accumulator.columnIndex accumulators) (first past : ℕ) :
    (∃ run ∈ columnRuns accumulators, runFirst run = first ∧ runEnd run = past) ↔
      LongestRun.Maximal (HasColumn accumulators) first past := by
  have hne := columnRuns_ne_nil accumulators
  -- Two runs are the same, or one of them lies before the other with a gap between them.
  have happart : ∀ run ∈ columnRuns accumulators, ∀ other ∈ columnRuns accumulators,
      run = other ∨ runEnd run < runFirst other ∨ runEnd other < runFirst run := by
    intro run hrun other hother
    have hbefore := (columnRuns_apart hs).1
    exact List.Pairwise.forall_of_forall_of_flip
      (R := fun run other => run = other ∨ runEnd run < runFirst other ∨
        runEnd other < runFirst run)
      (fun _ _ => .inl rfl) (hbefore.imp fun hlt => .inr (.inl hlt))
      (hbefore.imp fun hlt => .inr (.inr hlt)) hrun hother
  have hmaximal : ∀ run ∈ columnRuns accumulators,
      LongestRun.Maximal (HasColumn accumulators) (runFirst run) (runEnd run) := by
    intro run hrun
    have hpos : 0 < run.length := List.length_pos_iff.mpr (hne run hrun)
    refine ⟨Nat.lt_add_of_pos_right hpos, fun i hi hlt => ?_, fun i hi hcolumn => ?_,
      fun hcolumn => ?_⟩
    · exact (hasColumn_iff _ _).mpr ⟨run, hrun, hi, hlt⟩
    · obtain ⟨other, hother, hfirst, hend⟩ := (hasColumn_iff _ _).mp hcolumn
      obtain rfl | hlt | hlt := happart run hrun other hother
      · omega
      · unfold runEnd at hlt
        omega
      · omega
    · obtain ⟨other, hother, hfirst, hend⟩ := (hasColumn_iff _ _).mp hcolumn
      obtain rfl | hlt | hlt := happart run hrun other hother
      · omega
      · omega
      · unfold runEnd at hend hlt
        omega
  constructor
  · rintro ⟨run, hrun, rfl, rfl⟩
    exact hmaximal run hrun
  · intro h
    obtain ⟨run, hrun, hfirst, hend⟩ :=
      (hasColumn_iff _ _).mp (h.run first le_rfl h.nonempty)
    have hrunMaximal := hmaximal run hrun
    refine ⟨run, hrun, ?_, ?_⟩
    · by_contra hne
      exact h.before (first - 1) (by omega) (hrunMaximal.run _ (by omega) (by omega))
    · by_contra hne
      cases lt_or_gt_of_ne hne with
      | inl hlt => exact hrunMaximal.after (h.run _ hend.le hlt)
      | inr hgt => exact h.after (hrunMaximal.run _ (hfirst.trans h.nonempty.le) hgt)

end LibApta
