import LibApta.Waveform.ParallelStore
import LibApta.Waveform.SnapshotPasses

/-!
# Runs of the accumulator store

Whatever is done to the store, in any order of columns and with any growth refused at either of its
allocations, the entries are sorted by column and are those of the columns that were found or inserted,
the band sums of an entry are those of the samples of its column, and the counter is the number of
complete entries. The two passes of the snapshot rest on it.
-/

namespace LibApta

/-- What is done to the store. A growth leaves the cell it is given behind the entries of its new
block. -/
inductive StoreOp where
  | sample (junk : AccumulatorCell) (columnIndex : UInt32) (value : ℚ)
  | seed (junk : AccumulatorCell) (columnIndex : UInt32) (sampleCount : ℕ) (column : WaveformColumn)
  | refresh (framesPerColumn : ℕ) (endOfInput : Option ℕ)
  | reserve (junk : AccumulatorCell) (additional : ℕ)
  | publicationPending

/-- A store with the allocations that are left, the columns that were found or inserted in it, and the
band sums of the samples of each column. -/
structure StoreRun where
  store : ParallelStore
  env : Environment
  inserted : Finset ℕ
  sums : ℕ → Bands ℕ

namespace StoreRun

/-- The store of a new session. -/
def start (filter : BandFilter) (env : Environment) : StoreRun := ⟨.empty filter, env, ∅, fun _ => .zero⟩

/-- Find the entry of a column or insert it. -/
def find (hasBands : Bool) (junk : AccumulatorCell) (columnIndex : ℕ) (run : StoreRun) :
    Option ℕ × StoreRun :=
  match run.store.findOrInsert junk hasBands columnIndex run.env with
  | (.ok position, store, env) =>
      (some position, ⟨store, env, insert columnIndex run.inserted, run.sums⟩)
  | (.error _, store, env) => (none, { run with store := store, env := env })

/-- Add a sample to the entry at a position and to the band sums of its column. -/
def addSample (hasBands : Bool) (position columnIndex : ℕ) (value : ℚ) (run : StoreRun) : StoreRun :=
  { run with
    store := run.store.addSampleAt position value
    sums :=
      if hasBands then
        Function.update run.sums columnIndex
          ((run.store.bandFilter.split value).1.addScaled (run.sums columnIndex))
      else run.sums }

/-- Find the entry of a column or insert it, and update it when there is room. -/
def update (hasBands : Bool) (junk : AccumulatorCell) (columnIndex : ℕ)
    (f : ℕ → StoreRun → StoreRun) (run : StoreRun) : StoreRun :=
  match run.find hasBands junk columnIndex with
  | (some position, found) => f position found
  | (none, found) => found

/-- Make room for more columns. -/
def reserve (hasBands : Bool) (junk : AccumulatorCell) (additional : ℕ) (run : StoreRun) : StoreRun :=
  match run.store.reserveAccumulators junk hasBands additional run.env with
  | (_, store, env) => { run with store := store, env := env }

/-- One operation. -/
def step (hasBands : Bool) (run : StoreRun) : StoreOp → StoreRun
  | .sample junk columnIndex value =>
      run.update hasBands junk columnIndex.toNat fun position =>
        addSample hasBands position columnIndex.toNat value
  | .seed junk columnIndex sampleCount column =>
      run.update hasBands junk columnIndex.toNat fun position found =>
        { found with store := found.store.seedAt position sampleCount column }
  | .refresh framesPerColumn endOfInput =>
      { run with store := run.store.refreshCompletedColumns framesPerColumn endOfInput }
  | .reserve junk additional => run.reserve hasBands junk additional
  | .publicationPending => { run with store := run.store.markWaveformPublicationPending }

/-- The store after a sequence of operations. -/
def after (hasBands : Bool) (filter : BandFilter) (env : Environment) (ops : List StoreOp) :
    StoreRun :=
  ops.foldl (step hasBands) (start filter env)

/-! ## The invariant -/

/-- The blocks hold a sorted store, whose entries are the columns of the run with their band sums, and
whose counter is right. -/
structure Sound (hasBands : Bool) (run : StoreRun) : Prop where
  laid : run.store.Laid hasBands
  doubled : Doubled run.store.capacity
  sorted : run.store.overview.Sorted
  inserted : ∀ k, (run.store.overview.column k).isSome ↔ k ∈ run.inserted
  bounded : ∀ k ∈ run.inserted, k ≤ uint32Max
  sums : ∀ k acc, run.store.overview.column k = some acc → acc.bandSums = run.sums k
  absent : ∀ k ∉ run.inserted, run.sums k = .zero
  counted : run.store.overview.completeCount =
    run.store.overview.accumulators.countP Accumulator.complete

variable {hasBands : Bool} {run : StoreRun}

theorem sound_start (hasBands : Bool) (filter : BandFilter) (env : Environment) :
    (start filter env).Sound hasBands where
  laid := ParallelStore.laid_empty hasBands filter
  doubled := .inl rfl
  sorted := KeyedList.sorted_nil
  inserted k := by simp [start, ParallelStore.empty, ParallelStore.overview, Overview.column,
    KeyedList.lookup]
  bounded k hk := absurd hk (Finset.notMem_empty k)
  sums k acc hacc := by simp [start, ParallelStore.empty, ParallelStore.overview, Overview.column,
    KeyedList.lookup] at hacc
  absent _ _ := rfl
  counted := rfl

/-- Blocks of another capacity with the same entries. -/
theorem Sound.grown (h : run.Sound hasBands) {store : ParallelStore} (env : Environment)
    (hlaid : store.Laid hasBands) (hdoubled : Doubled store.capacity)
    (hentries : store.overview.accumulators = run.store.overview.accumulators)
    (hcount : store.overview.completeCount = run.store.overview.completeCount) :
    { run with store := store, env := env }.Sound hasBands := by
  have hcolumn : store.overview.column = run.store.overview.column := by
    funext k
    rw [Overview.column, hentries, Overview.column]
  refine ⟨hlaid, hdoubled, ?_, fun k => ?_, h.bounded, fun k acc hacc => ?_, h.absent, ?_⟩
  · rw [Overview.Sorted, hentries]
    exact h.sorted
  · rw [hcolumn]
    exact h.inserted k
  · rw [hcolumn] at hacc
    exact h.sums k acc hacc
  · rw [hcount, hentries]
    exact h.counted

/-- Finding a column keeps the invariant, and the entry is at the position that is returned. -/
theorem Sound.find (h : run.Sound hasBands) {junk : AccumulatorCell} {columnIndex : ℕ}
    (hbound : columnIndex ≤ uint32Max) {found : Option ℕ} {after : StoreRun}
    (hfind : run.find hasBands junk columnIndex = (found, after)) :
    after.Sound hasBands ∧ ∀ position ∈ found, ∃ acc,
      after.store.overview.accumulators[position]? = some acc ∧ acc.columnIndex = columnIndex := by
  unfold StoreRun.find at hfind
  cases hresult : run.store.findOrInsert junk hasBands columnIndex run.env with
  | mk result rest =>
      obtain ⟨store, env⟩ := rest
      obtain ⟨hlaid, hoverview⟩ := h.laid.findOrInsert hresult
      have hdoubled : Doubled store.capacity := Overview.findOrInsert_doubled h.doubled hoverview
      rw [hresult] at hfind
      cases result with
      | error status =>
          simp only [Prod.mk.injEq] at hfind
          obtain ⟨rfl, rfl⟩ := hfind
          have hsame := (Overview.findOrInsert_error hoverview).2
          exact ⟨h.grown env hlaid hdoubled (congrArg Overview.accumulators hsame)
            (congrArg Overview.completeCount hsame), fun _ hnone => by cases hnone⟩
      | ok position =>
          simp only [Prod.mk.injEq] at hfind
          obtain ⟨rfl, rfl⟩ := hfind
          obtain ⟨hsorted, hget, hcolumn, hcount, hmarks⟩ := Overview.findOrInsert_ok h.sorted hoverview
          -- The entry that was found or inserted has the band sums of its column.
          have hentry : (run.store.overview.columnOrNew columnIndex).columnIndex = columnIndex ∧
              (run.store.overview.columnOrNew columnIndex).bandSums = run.sums columnIndex := by
            unfold Overview.columnOrNew
            cases hold : run.store.overview.column columnIndex with
            | none =>
                refine ⟨rfl, (h.absent columnIndex fun hmem => ?_).symm⟩
                rw [← h.inserted, hold] at hmem
                cases hmem
            | some acc => exact ⟨(KeyedList.lookup_some hold).2, h.sums columnIndex acc hold⟩
          refine ⟨⟨hlaid, hdoubled, hsorted, fun k => ?_, fun k hk => ?_, fun k acc hacc => ?_,
            fun k hk => ?_, ?_⟩, fun at_ hat => ?_⟩
          · rw [hcolumn, Finset.mem_insert, ← h.inserted]
            split_ifs with hk
            · exact iff_of_true rfl (.inl hk.symm)
            · exact (or_iff_right (Ne.symm hk)).symm
          · obtain rfl | hk := Finset.mem_insert.mp hk
            · exact hbound
            · exact h.bounded k hk
          · rw [hcolumn] at hacc
            split_ifs at hacc with hk
            · rw [← Option.some.inj hacc, hentry.2, hk]
            · exact h.sums k acc hacc
          · exact h.absent k fun hmem => hk (Finset.mem_insert_of_mem hmem)
          · rw [hcount, hmarks]
            exact h.counted
          · obtain rfl := Option.some.inj hat
            exact ⟨_, hget, hentry.1⟩

/-- An update of the entry of one column keeps the invariant. -/
theorem Sound.modify (h : run.Sound hasBands) {position : ℕ} {acc : Accumulator}
    (hget : run.store.overview.accumulators[position]? = some acc) {f : Accumulator → Accumulator}
    (hf : ∀ a, (f a).columnIndex = a.columnIndex) {after : StoreRun}
    (hlaid : after.store.Laid hasBands) (hcapacity : after.store.capacity = run.store.capacity)
    (hentries : after.store.overview.accumulators = run.store.overview.accumulators.modify position f)
    (hinserted : after.inserted = run.inserted)
    (hsums : ∀ k, after.sums k = if acc.columnIndex = k then (f acc).bandSums else run.sums k)
    (hcount : after.store.completeCount + (if acc.complete then 1 else 0) =
      run.store.completeCount + if (f acc).complete then 1 else 0) : after.Sound hasBands := by
  obtain ⟨hsorted, hcolumn⟩ := KeyedList.modify_spec h.sorted hf hget
  rw [← hentries] at hsorted hcolumn
  have hacc : run.store.overview.column acc.columnIndex = some acc :=
    KeyedList.lookup_of_mem h.sorted (List.mem_of_getElem? hget)
  have hmem : acc.columnIndex ∈ run.inserted := (h.inserted _).mp (by rw [hacc]; rfl)
  refine ⟨hlaid, hcapacity ▸ h.doubled, hsorted, fun k => ?_, fun k hk => ?_, fun k a ha => ?_,
    fun k hk => ?_, ?_⟩
  · unfold Overview.column
    rw [hcolumn, hinserted]
    split_ifs with hk
    · exact iff_of_true rfl (hk ▸ hmem)
    · exact h.inserted k
  · exact h.bounded k (hinserted ▸ hk)
  · unfold Overview.column at ha
    rw [hcolumn] at ha
    rw [hsums]
    split_ifs at ha ⊢
    · rw [← Option.some.inj ha]
    · exact h.sums k a ha
  · rw [hinserted] at hk
    rw [hsums, if_neg fun heq : acc.columnIndex = k => hk (heq ▸ hmem)]
    exact h.absent k hk
  · have hmodify := KeyedList.countP_modify (p := Accumulator.complete) (f := f) hget
    have hcounted : run.store.completeCount =
      run.store.overview.accumulators.countP Accumulator.complete := h.counted
    rw [← hentries, ← hcounted, ← hcount] at hmodify
    exact (Nat.add_right_cancel hmodify).symm

/-- The store has room where it has an entry. -/
theorem Sound.capacity_pos (h : run.Sound hasBands) {position : ℕ} {acc : Accumulator}
    (hget : run.store.overview.accumulators[position]? = some acc) : position < run.store.count ∧
      0 < run.store.capacity := by
  have hlt : position < run.store.count := h.laid.length ▸ (List.getElem?_eq_some_iff.mp hget).1
  exact ⟨hlt, (Nat.zero_lt_of_lt hlt).trans_le h.laid.fits⟩

theorem Sound.addSample (h : run.Sound hasBands) {position : ℕ} {acc : Accumulator}
    (hget : run.store.overview.accumulators[position]? = some acc) (value : ℚ) :
    (run.addSample hasBands position acc.columnIndex value).Sound hasBands := by
  have hupdate := h.laid.addSampleAt_overview (h.capacity_pos hget).2 position value
  have hcount : (run.store.addSampleAt position value).completeCount = run.store.completeCount ∧
      (run.store.addSampleAt position value).capacity = run.store.capacity := by
    unfold ParallelStore.addSampleAt
    split <;> exact ⟨rfl, rfl⟩
  have hbands := h.sums _ _ (KeyedList.lookup_of_mem h.sorted (List.mem_of_getElem? hget))
  cases hasBands with
  | false =>
      refine h.modify hget (f := (·.addSample value)) (fun _ => rfl) (h.laid.addSampleAt _ _) hcount.2
        (congrArg Overview.accumulators hupdate) rfl (fun k => ?_) ?_
      · split_ifs with hk
        · exact hk ▸ hbands.symm
        · rfl
      · unfold StoreRun.addSample
        rw [hcount.1]
        rfl
  | true =>
      refine h.modify hget
        (f := fun acc => (acc.addSample value).addBands (run.store.bandFilter.split value).1)
        (fun _ => rfl) (h.laid.addSampleAt _ _) hcount.2 (congrArg Overview.accumulators hupdate) rfl
        (fun k => ?_) ?_
      · unfold StoreRun.addSample
        simp only [if_true]
        rw [Function.update_apply, ← hbands]
        split_ifs with hk hk' hk'
        · rfl
        · exact absurd hk.symm hk'
        · exact absurd hk'.symm hk
        · rfl
      · unfold StoreRun.addSample
        rw [hcount.1]
        rfl

theorem Sound.seed (h : run.Sound hasBands) {position : ℕ} {acc : Accumulator}
    (hget : run.store.overview.accumulators[position]? = some acc) (sampleCount : ℕ)
    (column : WaveformColumn) :
    { run with store := run.store.seedAt position sampleCount column }.Sound hasBands := by
  have hlt := (h.capacity_pos hget).1
  have hupdate := h.laid.seedAt_overview hlt sampleCount column
  refine h.modify hget (f := (·.seed column sampleCount)) (fun _ => rfl) (h.laid.seedAt _ _ _) rfl
    (congrArg Overview.accumulators hupdate) rfl (fun k => ?_) ?_
  · split_ifs with hk
    · exact hk ▸ (h.sums _ _ (KeyedList.lookup_of_mem h.sorted (List.mem_of_getElem? hget))).symm
    · rfl
  · have hmark : ((run.store.overview.accumulators.map Accumulator.complete)[position]?).getD false =
        acc.complete := by
      rw [List.getElem?_map, hget]
      rfl
    have hcount := congrArg Overview.completeCount hupdate
    rw [show (run.store.seedAt position sampleCount column).completeCount = _ from hcount]
    unfold Overview.seedAt Accumulator.seed
    simp only [hmark]
    cases acc.complete with
    | false => rfl
    | true => rfl

/-- An update of all entries that keeps their columns and band sums keeps the invariant, when the
counter follows the marks. -/
theorem Sound.map (h : run.Sound hasBands) {f : Accumulator → Accumulator}
    (hf : ∀ acc, (f acc).columnIndex = acc.columnIndex ∧ (f acc).bandSums = acc.bandSums)
    {store : ParallelStore} (hlaid : store.Laid hasBands) (hcapacity : store.capacity = run.store.capacity)
    (hentries : store.overview.accumulators = run.store.overview.accumulators.map f)
    (hcounted : store.overview.completeCount =
      store.overview.accumulators.countP Accumulator.complete) :
    { run with store := store }.Sound hasBands := by
  obtain ⟨hsorted, hcolumn⟩ := KeyedList.map_spec h.sorted fun acc => (hf acc).1
  rw [← hentries] at hsorted hcolumn
  refine ⟨hlaid, hcapacity ▸ h.doubled, hsorted, fun k => ?_, h.bounded, fun k acc hacc => ?_,
    h.absent, hcounted⟩
  · unfold Overview.column
    rw [hcolumn, Option.isSome_map]
    exact h.inserted k
  · unfold Overview.column at hacc
    rw [hcolumn] at hacc
    obtain ⟨old, hold, rfl⟩ := Option.map_eq_some_iff.mp hacc
    rw [(hf old).2]
    exact h.sums k old hold

theorem Sound.update (h : run.Sound hasBands) {junk : AccumulatorCell} {columnIndex : ℕ}
    (hbound : columnIndex ≤ uint32Max) {f : ℕ → StoreRun → StoreRun}
    (hf : ∀ position acc (found : StoreRun), found.Sound hasBands →
      found.store.overview.accumulators[position]? = some acc → acc.columnIndex = columnIndex →
        (f position found).Sound hasBands) : (run.update hasBands junk columnIndex f).Sound hasBands := by
  unfold StoreRun.update
  cases hfind : run.find hasBands junk columnIndex with
  | mk found after =>
      obtain ⟨hafter, hentry⟩ := h.find hbound hfind
      cases found with
      | none => exact hafter
      | some position =>
          obtain ⟨acc, hget, hcolumn⟩ := hentry position rfl
          exact hf position acc after hafter hget hcolumn

theorem Sound.reserve (h : run.Sound hasBands) (junk : AccumulatorCell) (additional : ℕ) :
    (run.reserve hasBands junk additional).Sound hasBands := by
  unfold StoreRun.reserve
  cases hreserve : run.store.reserveAccumulators junk hasBands additional run.env with
  | mk status rest =>
      obtain ⟨store, env⟩ := rest
      obtain ⟨hlaid, ⟨capacity, hoverview⟩, hdoubled⟩ := h.laid.reserveAccumulators hreserve
      have hentries := congrArg Overview.accumulators hoverview
      have hcount := congrArg Overview.completeCount hoverview
      exact h.grown env hlaid (hdoubled h.doubled) hentries hcount

/-- Every operation keeps the invariant. -/
theorem Sound.step (h : run.Sound hasBands) (op : StoreOp) : (run.step hasBands op).Sound hasBands := by
  cases op with
  | sample junk columnIndex value =>
      refine h.update (Nat.le_of_lt_succ columnIndex.toNat_lt) fun position acc found hfound hget hcolumn => ?_
      exact hcolumn ▸ hfound.addSample hget value
  | seed junk columnIndex sampleCount column =>
      exact h.update (Nat.le_of_lt_succ columnIndex.toNat_lt) fun position acc found hfound hget _ =>
        hfound.seed hget sampleCount column
  | refresh framesPerColumn endOfInput =>
      obtain ⟨hlaid, hoverview⟩ := h.laid.refreshCompletedColumns framesPerColumn endOfInput
      refine h.map (fun acc => ?_) hlaid rfl (congrArg Overview.accumulators hoverview) ?_
      · split_ifs <;> exact ⟨rfl, rfl⟩
      · rw [hoverview]
        exact Overview.counted_refresh h.counted
  | reserve junk additional => exact h.reserve junk additional
  | publicationPending =>
      obtain ⟨hlaid, hoverview⟩ := h.laid.markWaveformPublicationPending
      refine h.map (fun acc => ?_) hlaid rfl (congrArg Overview.accumulators hoverview) ?_
      · exact ⟨rfl, rfl⟩
      · rw [hoverview]
        unfold Overview.forgetMarks
        simp [List.countP_map, Function.comp_def]

/-- Every run keeps the invariant. -/
theorem sound_after (hasBands : Bool) (filter : BandFilter) (env : Environment) (ops : List StoreOp) :
    (after hasBands filter env ops).Sound hasBands := by
  have hrun : ∀ (ops : List StoreOp) (run : StoreRun), run.Sound hasBands →
      (ops.foldl (StoreRun.step hasBands) run).Sound hasBands := by
    intro ops
    induction ops with
    | nil => exact fun _ h => h
    | cons op rest ih => exact fun run h => ih _ (h.step op)
  exact hrun ops _ (sound_start hasBands filter env)

/-! ## What holds in every run -/

/-- The entries of the accumulator block that are in use. -/
def entries (run : StoreRun) : List AccumulatorCell := run.store.cells.take run.store.count

/-- The second pass of the snapshot over the store. -/
def snapshot (framesPerColumn : ℕ) (endOfInput : Option ℕ) (run : StoreRun) : SnapshotFill :=
  SnapshotFill.run run.store.bandSums.isSome framesPerColumn endOfInput
    run.store.overview.accumulators

/-- The snapshot has a complete entry for a column. -/
def CompleteColumn (run : StoreRun) (columnIndex : ℕ) : Prop :=
  ∃ cell ∈ run.entries, cell.columnIndex = columnIndex ∧ cell.complete = true

/-- What the snapshot of a store writes: a column for each complete entry and a span for each maximal
run of them, as many of each as were counted before. -/
structure SnapshotExact (run : StoreRun) (fill : SnapshotFill) : Prop where
  columns : fill.columns.length = run.store.completeCount
  spans : fill.spans.length = spanCount run.store.overview.accumulators
  ascending : (fill.spans.map SpanRecord.firstColumnIndex).Pairwise (· < ·)
  maximal : ∀ first past,
    (∃ span ∈ fill.spans, span.firstColumnIndex = first ∧
        span.firstColumnIndex + span.columnCount = past) ↔
      LongestRun.Maximal run.CompleteColumn first past

/-- The entries are sorted and those of the columns of the run, both blocks have room for the capacity
and it for the entries, the band sums of an entry are those of its column, and the counter is right. -/
structure Consistent (hasBands : Bool) (run : StoreRun) : Prop where
  sorted : (run.entries.map AccumulatorCell.columnIndex).Pairwise (· < ·)
  found : ∀ columnIndex, run.store.accumulatorExists columnIndex = true ↔ columnIndex ∈ run.inserted
  limit : run.store.capacity ≤ 2147483648
  fits : run.store.count ≤ run.store.capacity
  room : run.store.capacity ≤ run.store.cells.length
  bandRoom : ∀ block ∈ run.store.bandSums, run.store.capacity ≤ block.length
  banded : 0 < run.store.capacity → run.store.bandSums.isSome = hasBands
  attached : ∀ block ∈ run.store.bandSums, ∀ (position : ℕ) (cell : AccumulatorCell),
    run.entries[position]? = some cell → block[position]? = some (run.sums cell.columnIndex)
  counted : run.store.completeCount = run.entries.countP AccumulatorCell.complete
  snapshot : ∀ framesPerColumn endOfInput,
    run.SnapshotExact (run.snapshot framesPerColumn endOfInput)
  view : ∀ framesPerColumn endOfInput,
    (run.snapshot framesPerColumn endOfInput).spans.map
        (SnapshotFill.view (run.snapshot framesPerColumn endOfInput).columns) =
      overviewSpans run.store.bandSums.isSome framesPerColumn endOfInput
        run.store.overview.accumulators

/-- What is read of the entries without their bands. -/
theorem Sound.entries_map (h : run.Sound hasBands) {β : Type} {f : Accumulator → β}
    {g : AccumulatorCell → β} (hfg : ∀ cell bands, f (cell.withBands bands) = g cell) :
    run.store.overview.accumulators.map f = run.entries.map g := by
  rw [h.laid.map_eq hfg, entries, List.map_take]

theorem Sound.columns_le (h : run.Sound hasBands) :
    ∀ acc ∈ run.store.overview.accumulators, acc.columnIndex ≤ uint32Max := by
  intro acc hacc
  refine h.bounded _ ((h.inserted _).mp ?_)
  unfold Overview.column
  rw [KeyedList.lookup_of_mem h.sorted hacc]
  rfl

theorem Sound.completeColumn_eq (h : run.Sound hasBands) :
    run.CompleteColumn =
      HasColumn (run.store.overview.accumulators.filter Accumulator.complete) := by
  have hmap := h.entries_map (f := fun acc => (acc.columnIndex, acc.complete))
    (g := fun cell => (cell.columnIndex, cell.complete)) fun _ _ => rfl
  funext columnIndex
  have hmem : (columnIndex, true) ∈ run.entries.map (fun cell => (cell.columnIndex, cell.complete)) ↔
      (columnIndex, true) ∈
        run.store.overview.accumulators.map (fun acc => (acc.columnIndex, acc.complete)) := by
    rw [hmap]
  simp only [List.mem_map, Prod.mk.injEq] at hmem
  unfold CompleteColumn HasColumn
  simp only [List.mem_filter, and_assoc]
  rw [hmem]
  exact propext (exists_congr fun acc => and_congr_right fun _ => and_comm)

theorem Sound.snapshotExact (h : run.Sound hasBands) (framesPerColumn : ℕ) (endOfInput : Option ℕ) :
    run.SnapshotExact (run.snapshot framesPerColumn endOfInput) := by
  have hkept : KeyedList.Sorted Accumulator.columnIndex
      (run.store.overview.accumulators.filter Accumulator.complete) :=
    List.Pairwise.sublist (List.filter_sublist.map _) h.sorted
  obtain ⟨hcolumns, hspans⟩ :=
    @run_eq run.store.bandSums.isSome framesPerColumn endOfInput _ h.sorted h.columns_le
  have hplaces := @SpanRecord.ofRuns_map framesPerColumn endOfInput _
    (fun span => (span.firstColumnIndex, span.firstColumnIndex + span.columnCount))
    (fun run => (runFirst run, runEnd run)) (fun _ _ => rfl) 0
    (columnRuns (run.store.overview.accumulators.filter Accumulator.complete))
  refine ⟨?_, (spanCount_eq ..).symm, ?_, fun first past => ?_⟩
  · rw [snapshot, hcolumns, List.length_map, ← List.countP_eq_length_filter]
    exact h.counted.symm
  · rw [snapshot, hspans, SpanRecord.ofRuns_map (g := runFirst) (fun _ _ => rfl), List.pairwise_map]
    exact (columnRuns_apart hkept).1.imp fun hlt => (Nat.le_add_right _ _).trans_lt hlt
  · rw [h.completeColumn_eq, ← columnRuns_maximal hkept, snapshot, hspans]
    have hmem := congrArg ((first, past) ∈ ·) hplaces
    simpa only [List.mem_map, Prod.mk.injEq, eq_iff_iff, and_congr_right_iff] using hmem

theorem Sound.attached (h : run.Sound hasBands) {block : List (Bands ℕ)}
    (hblock : run.store.bandSums = some block) {position : ℕ} {cell : AccumulatorCell}
    (hcell : run.entries[position]? = some cell) :
    block[position]? = some (run.sums cell.columnIndex) := by
  have hlt : position < run.store.count :=
    h.laid.take_length ▸ (List.getElem?_eq_some_iff.mp hcell).1
  have hroom : position < block.length :=
    hlt.trans_le (h.laid.fits.trans (h.laid.bandRoom block hblock))
  have hget : run.store.overview.accumulators[position]? = some (cell.withBands block[position]) := by
    unfold ParallelStore.overview ParallelStore.bands
    rw [hblock]
    simp only [List.getElem?_zipWith]
    rw [show (run.store.cells.take run.store.count)[position]? = some cell from hcell,
      List.getElem?_take_of_lt hlt, List.getElem?_eq_getElem hroom]
  have hsums := h.sums _ _ (KeyedList.lookup_of_mem h.sorted (List.mem_of_getElem? hget))
  rw [List.getElem?_eq_getElem hroom]
  exact congrArg some hsums

theorem Sound.consistent (h : run.Sound hasBands) : run.Consistent hasBands where
  sorted := by
    rw [← h.entries_map (f := Accumulator.columnIndex) fun _ _ => rfl]
    exact h.sorted
  found columnIndex := by
    rw [h.laid.accumulatorExists_iff, ← h.inserted]
    exact KeyedList.getElem?_map_position h.sorted columnIndex
  limit := h.doubled.le
  fits := h.laid.fits
  room := h.laid.room
  bandRoom := h.laid.bandRoom
  banded := h.laid.isSome_iff
  attached _ hblock _ _ hcell := h.attached hblock hcell
  counted := by
    have hmarks := congrArg (List.countP id) (h.entries_map (f := Accumulator.complete) fun _ _ => rfl)
    rw [List.countP_map, List.countP_map] at hmarks
    exact h.counted.trans hmarks
  snapshot := h.snapshotExact
  view _ _ := run_view h.sorted h.columns_le

/-- In every run of the store, in any order of columns and whatever growth is refused, the blocks are
consistent and the passes of a snapshot write what they have counted. -/
theorem after_consistent (hasBands : Bool) (filter : BandFilter) (env : Environment)
    (ops : List StoreOp) : (after hasBands filter env ops).Consistent hasBands :=
  (sound_after hasBands filter env ops).consistent

end StoreRun

end LibApta
