import LibApta.Serialization.Roundtrip
import LibApta.Session.Lengths

/-!
# Published results are stored

What the writer sees of a published result that carries no tiles, tempo or grids, and the proof that
its overview keeps the rules of the format: so whatever such a result the writer takes, the parser
takes back.
-/

namespace LibApta

open Container

/-! ## What the writer sees -/

/-- The flags of a column. -/
def columnFlags (clipped has3Band : Bool) : ℕ :=
  2 ^ columnFlagValid + (if clipped then 2 ^ columnFlagClipped else 0) +
    (if has3Band then 2 ^ columnFlagHas3Band else 0)

theorem columnFlags_bits (clipped has3Band : Bool) :
    (columnFlags clipped has3Band).testBit columnFlagValid = true ∧
      (columnFlags clipped has3Band).testBit columnFlagHas3Band = has3Band ∧
      columnFlags clipped has3Band < 32 := by
  cases clipped <;> cases has3Band <;> decide

/-- The column as the writer sees it. -/
def WaveformColumn.stored (column : WaveformColumn) : Column where
  minimum := column.minimum
  maximum := column.maximum
  rms := column.rms
  low := column.low
  mid := column.mid
  high := column.high
  flags := columnFlags column.clipped column.has3Band

/-- The span as the writer sees it. -/
def WaveformSpan.stored (span : WaveformSpan) : Span where
  sourceRange := span.sourceRange
  firstColumnIndex := span.firstColumnIndex
  columns := span.columns.map WaveformColumn.stored

/-- The overview as the writer sees it. The overview is level 0 and starts at frame 0. -/
def OverviewView.stored (view : OverviewView) : Container.Overview where
  levelId := 0
  framesPerColumn := view.framesPerColumn
  originFrame := 0
  state := view.state.rank
  confidence := view.confidence
  spans := view.spans.map WaveformSpan.stored

/-- A result without tiles, tempo and grids. -/
structure Result.Bare (result : Result) : Prop where
  tiles : result.detailTiles = []
  tempo : result.tempo = none
  localGrid : result.localGrid = none
  globalGrid : result.globalGrid = none

/-- A bare result as the writer sees it. -/
def Result.stored (result : Result) : ResultData where
  specificationMajor := 1
  specificationMinor := 0
  producerApiVersion := 4194304
  containerVersion := 0
  generation := result.generation
  availableFeatures := result.availableFeatures
  changedFeatures := result.changedFeatures
  sessionState := result.sessionState
  totalSourceFrames := result.source.totalFrames.getD totalFramesUnknown
  sourceSampleRate := result.source.sampleRate
  sourceChannelCount := result.source.channelCount
  sourceChannelLayout := result.source.channelLayout
  fingerprintKind := (result.source.fingerprint.map Prod.fst).getD 0
  fingerprint := (result.source.fingerprint.map fun fingerprint =>
    fingerprint.2.map UInt8.ofNat).getD (List.replicate 32 0)
  overview := result.overview.map OverviewView.stored
  detailTiles := []
  metadata := result.metadata
  tempo := none
  localGrid := none
  globalGrid := none

/-- The fields of a result are in the ranges of their types, and its metadata is valid. -/
structure Result.Typed (result : Result) : Prop where
  total : ∀ total ∈ result.source.totalFrames, total < totalFramesUnknown
  rate : result.source.sampleRate ≤ uint32Max
  fingerprint : ∀ fingerprint ∈ result.source.fingerprint, fingerprint.2.length = 32
  metadata : ∀ metadata ∈ result.metadata, metadata.isValid = true ∧
    ∀ time ∈ metadata.creationUnixTime, time < 18446744073709551616

/-! ## Columns -/

theorem quantizePeak_bounds (value : ℚ) : -32768 ≤ quantizePeak value ∧ quantizePeak value ≤ 32767 := by
  unfold quantizePeak
  split_ifs
  · decide
  · decide
  · exact ⟨le_min (le_max_right _ _) (by decide), min_le_right _ _⟩

/-- Quantisation keeps the order of peaks. -/
theorem quantizePeak_mono {value other : ℚ} (h : value ≤ other) :
    quantizePeak value ≤ quantizePeak other := by
  have hlow := (quantizePeak_bounds other).1
  have hhigh := (quantizePeak_bounds value).2
  by_cases hbottom : value ≤ -1
  · rw [quantizePeak, if_pos hbottom]
    exact hlow
  by_cases htop : 1 ≤ other
  · have hother : ¬ other ≤ -1 := by linarith
    rw [quantizePeak.eq_1 other, if_neg hother, if_pos htop]
    exact hhigh
  have hother : ¬ other ≤ -1 := fun hle => hbottom (h.trans hle)
  have hvalue : ¬ 1 ≤ value := fun hle => htop (hle.trans h)
  rw [quantizePeak, quantizePeak, if_neg hbottom, if_neg hvalue, if_neg hother, if_neg htop]
  refine min_le_min_right _ (max_le_max_right _ (Rounding.roundEven_mono ?_))
  exact Rounding.binary64.round_mono (mul_le_mul_of_nonneg_right h (by norm_num))

theorem quantizeRms_le (sumSquares sampleCount : ℕ) : quantizeRms sumSquares sampleCount ≤ 65535 := by
  unfold quantizeRms
  split_ifs
  · exact Nat.zero_le _
  · exact Int.toNat_le.mpr (min_le_right _ _)

theorem quantizeBand_le (sum sampleCount : ℕ) : quantizeBand sum sampleCount ≤ 255 := by
  unfold quantizeBand
  split_ifs
  · exact Nat.zero_le _
  · exact min_le_right _ _

/-- A column whose peaks are in order is a column of the format. -/
theorem waveformColumn_stored (hasBands : Bool) {acc : Accumulator} (h : acc.minimum ≤ acc.maximum) :
    (waveformColumn hasBands acc).stored.Stored := by
  have hpeak : ∀ value, FitsSigned 65536 (quantizePeak value) := fun value => by
    obtain ⟨hlow, hhigh⟩ := quantizePeak_bounds value
    unfold FitsSigned
    omega
  have hband : ∀ sum, (if hasBands then quantizeBand sum acc.sampleCount else 0) < 256 ^ 1 :=
    fun sum => by
      split_ifs
      · exact Nat.lt_succ_of_le (quantizeBand_le _ _)
      · exact Nat.zero_lt_succ _
  obtain ⟨hvalid, hbands, hsmall⟩ := columnFlags_bits acc.clipped hasBands
  refine ⟨⟨hpeak _, hpeak _, Nat.lt_succ_of_le (quantizeRms_le _ _), hband _, hband _, hband _,
    hsmall.trans (by decide)⟩, ⟨hvalid, quantizePeak_mono h, fun _ => hsmall, fun _ hnone => ?_⟩⟩
  obtain rfl : hasBands = false := hbands.symm.trans hnone
  exact ⟨rfl, rfl, rfl⟩

/-! ## Spans -/

/-- The columns that a duration takes are the least number that hold it. -/
theorem requiredColumns_le_iff {framesPerColumn frames columns : ℕ} (hpos : 0 < framesPerColumn) :
    requiredColumns framesPerColumn frames ≤ columns ↔ frames ≤ columns * framesPerColumn := by
  have hdiv := Nat.div_add_mod frames framesPerColumn
  have hmod := Nat.mod_lt frames hpos
  rw [Nat.mul_comm] at hdiv
  unfold requiredColumns
  split_ifs with hrem
  · rw [Nat.add_zero, ← Nat.mul_le_mul_right_iff hpos]
    omega
  · constructor
    · intro hle
      have := Nat.mul_le_mul_right framesPerColumn hle
      rw [Nat.add_mul, Nat.one_mul] at this
      omega
    · intro hle
      have hlt : frames / framesPerColumn * framesPerColumn < columns * framesPerColumn := by omega
      exact Nat.succ_le_of_lt (lt_of_mul_lt_mul_right hlt (Nat.zero_le _))

namespace Session

/-- The runs of the marked columns. -/
def markedRuns (s : Session) : List (List Accumulator) :=
  columnRuns (s.overview.accumulators.filter Accumulator.complete)

/-- The span of a run, as the writer sees it. -/
def storedSpan (s : Session) (run : List Accumulator) : Span :=
  (waveformSpan (s.config.requests .waveform3Band) s.framesPerColumn s.endOfInput run).stored

/-- The known length of a session as the writer sees it. -/
def storedTotal (s : Session) : ℕ := s.config.totalFrames.getD totalFramesUnknown

theorem storedSpan_spec (s : Session) (run : List Accumulator) :
    (s.storedSpan run).firstColumnIndex = runFirst run ∧
      (s.storedSpan run).endColumn = runEnd run ∧
      (s.storedSpan run).sourceRange = ⟨runFirst run * s.framesPerColumn,
        clipToEnd s.endOfInput (runEnd run * s.framesPerColumn)⟩ := by
  refine ⟨rfl, ?_, rfl⟩
  simp only [Span.endColumn, storedSpan, WaveformSpan.stored, waveformSpan, List.length_map, runEnd,
    runFirst]

namespace Measured

variable {signal : ℕ → ℚ} {s : Session} {run : List Accumulator}

/-- The columns of a run are marked. -/
theorem column_of_run (h : Measured signal s) (hrun : run ∈ s.markedRuns) {acc : Accumulator}
    (hacc : acc ∈ run) : s.overview.column acc.columnIndex = some acc ∧ acc.complete = true := by
  have hkept : acc ∈ s.overview.accumulators.filter Accumulator.complete := by
    rw [← columnRuns_flatten (s.overview.accumulators.filter Accumulator.complete)]
    exact List.mem_flatten.mpr ⟨run, hrun, hacc⟩
  obtain ⟨hmem, hmark⟩ := List.mem_filter.mp hkept
  exact ⟨KeyedList.lookup_of_mem h.accounted.accounts.ledger.sorted hmem, hmark⟩

/-- The frames of the last column of a run, cut at the end of the input. -/
theorem run_frames (h : Measured signal s) (hrun : run ∈ s.markedRuns) :
    runFirst run < runEnd run ∧
      (runEnd run - 1) * s.framesPerColumn <
        clipToEnd s.endOfInput (runEnd run * s.framesPerColumn) ∧
      ∀ total ∈ s.config.totalFrames,
        clipToEnd s.endOfInput (runEnd run * s.framesPerColumn) ≤ total := by
  have hlength := List.length_pos_iff.mpr (columnRuns_ne_nil _ run hrun)
  obtain ⟨last, hlast⟩ : ∃ last, run[run.length - 1]? = some last :=
    ⟨_, List.getElem?_eq_getElem (by omega)⟩
  have hindex := columnRuns_consecutive _ run hrun _ last hlast
  have hend : last.columnIndex + 1 = runEnd run := by
    rw [hindex, runEnd]
    omega
  obtain ⟨hcolumn, hmark⟩ := h.column_of_run hrun (List.mem_of_getElem? hlast)
  obtain ⟨hframes, hbound⟩ := h.marked_frames hcolumn hmark
  rw [hend] at hframes hbound
  refine ⟨by rw [runEnd]; omega, ?_, hbound⟩
  rw [← hend, Nat.add_sub_cancel, hend]
  exact hframes

/-- The resolution of a valid configuration. -/
theorem framesPerColumn_le (h : Measured signal s) : s.framesPerColumn ≤ 65536 := by
  have hvalid := h.config
  simp only [configIsValid, Bool.and_eq_true] at hvalid
  have hresolution : ∀ n, resolutionIsValid n = true → n ≤ 65536 := by
    intro n hn
    simp [resolutionIsValid] at hn
    omega
  unfold framesPerColumn
  split_ifs
  · decide
  · exact hresolution _ hvalid.1.2

end Measured

/-- An overview that has the spans of the runs of a session. -/
structure Lays (s : Session) (overview : Container.Overview) : Prop where
  framesPerColumn : overview.framesPerColumn = s.framesPerColumn
  origin : overview.originFrame = 0
  spans : overview.spans = s.markedRuns.map s.storedSpan

section Lays

variable {signal : ℕ → ℚ} {s : Session} {run : List Accumulator} {overview : Container.Overview}

/-- When the length is known, the columns of the overview are those it takes. -/
theorem Lays.logicalColumns (h : Lays s overview) {total : ℕ} (htotal : s.config.totalFrames = some total)
    (htyped : total < totalFramesUnknown) :
    overview.logicalColumns s.storedTotal = requiredColumns s.framesPerColumn total := by
  have hknown : s.storedTotal = total := by rw [storedTotal, htotal, Option.getD_some]
  rw [Container.Overview.logicalColumns, hknown, if_neg htyped.ne, h.framesPerColumn, h.origin,
    Nat.sub_zero]

/-- The runs end within the columns of the overview. -/
theorem Lays.runEnd_le (h : Lays s overview) (hmeasured : Measured signal s)
    (htyped : ∀ total ∈ s.config.totalFrames, total < totalFramesUnknown)
    (hrun : run ∈ s.markedRuns) : runEnd run ≤ overview.logicalColumns s.storedTotal := by
  obtain ⟨hne, hlast, hbound⟩ := hmeasured.run_frames hrun
  cases htotal : s.config.totalFrames with
  | none =>
      have hunknown : s.storedTotal = totalFramesUnknown := by
        rw [storedTotal, htotal, Option.getD_none]
      rw [Container.Overview.logicalColumns, if_pos hunknown, ← (s.storedSpan_spec run).2.1]
      exact Container.Overview.endColumn_le (h.spans ▸ List.mem_map_of_mem hrun)
  | some total =>
      rw [h.logicalColumns htotal (htyped total htotal)]
      by_contra hshort
      have hle := (requiredColumns_le_iff s.framesPerColumn_pos).mp
        (show requiredColumns s.framesPerColumn total ≤ runEnd run - 1 by omega)
      have := hbound total htotal
      omega

/-- The span of a run keeps the rules of the format. -/
theorem Lays.span_ok (h : Lays s overview) (hmeasured : Measured signal s)
    (htyped : ∀ total ∈ s.config.totalFrames, total < totalFramesUnknown)
    (hsmall : overview.logicalColumns s.storedTotal ≤ uint32Max) (hrun : run ∈ s.markedRuns) :
    (s.storedSpan run).Ok s.storedTotal overview.originFrame overview.framesPerColumn
      (overview.logicalColumns s.storedTotal) := by
  obtain ⟨hfirst, hend, hrange⟩ := s.storedSpan_spec run
  obtain ⟨hne, hlast, hbound⟩ := hmeasured.run_frames hrun
  have hlogical := h.runEnd_le hmeasured htyped hrun
  have hresolution := hmeasured.framesPerColumn_le
  have hstart : runFirst run * s.framesPerColumn ≤ (runEnd run - 1) * s.framesPerColumn :=
    Nat.mul_le_mul_right _ (by omega)
  refine ⟨?_, ?_, ?_, ?_, ?_, ?_, ?_⟩
  · rw [hrange]
    exact hstart.trans_lt hlast
  · intro hnil
    have : (s.storedSpan run).endColumn = (s.storedSpan run).firstColumnIndex := by
      rw [Span.endColumn, hnil, List.length_nil, Nat.add_zero]
    omega
  · rw [hend]
    exact hlogical
  · rw [h.origin, hend, h.framesPerColumn, Nat.zero_add]
    calc runEnd run * s.framesPerColumn ≤ uint32Max * 65536 :=
          Nat.mul_le_mul (hlogical.trans hsmall) hresolution
      _ ≤ uint64Max := by decide
  · rw [hrange, h.origin, hfirst, h.framesPerColumn, Nat.zero_add]
  · rw [hrange, h.origin, hend, h.framesPerColumn, Nat.zero_add]
    cases heoi : s.endOfInput with
    | none => exact .inl rfl
    | some finalEnd =>
        rw [heoi] at hlast
        have hknown := hmeasured.known finalEnd heoi
        by_cases hle : runEnd run * s.framesPerColumn ≤ finalEnd
        · exact .inl (min_eq_left hle)
        refine .inr ⟨?_, ?_, ?_, ?_⟩
        · rw [storedTotal, hknown, Option.getD_some]
          exact (htyped finalEnd hknown).ne
        · rw [storedTotal, hknown, Option.getD_some]
          exact min_eq_right (by omega)
        · refine le_antisymm hlogical ?_
          rw [h.logicalColumns hknown (htyped finalEnd hknown),
            requiredColumns_le_iff s.framesPerColumn_pos]
          omega
        · rw [storedTotal, hknown, Option.getD_some]
          omega
  · intro hknown
    rw [hrange]
    cases htotal : s.config.totalFrames with
    | none => exact absurd (by rw [storedTotal, htotal, Option.getD_none]) hknown
    | some total =>
        rw [storedTotal, htotal, Option.getD_some]
        exact hbound total htotal

/-- The spans of the runs follow each other. -/
theorem Lays.ordered (h : Lays s overview) (hmeasured : Measured signal s) :
    overview.spans.IsChain Span.Follows := by
  have hkept : KeyedList.Sorted Accumulator.columnIndex
      (s.overview.accumulators.filter Accumulator.complete) :=
    List.Pairwise.sublist (List.filter_sublist.map _) hmeasured.accounted.accounts.ledger.sorted
  rw [h.spans]
  refine List.Pairwise.isChain (List.pairwise_map.mpr ((columnRuns_apart hkept).1.imp ?_))
  intro run other hapart
  obtain ⟨-, hend, hrange⟩ := s.storedSpan_spec run
  obtain ⟨hfirst, -, hrange'⟩ := s.storedSpan_spec other
  refine ⟨?_, ?_⟩
  · rw [hrange, hrange']
    have hclip : clipToEnd s.endOfInput (runEnd run * s.framesPerColumn) ≤
        runEnd run * s.framesPerColumn := by
      cases s.endOfInput with
      | none => exact le_rfl
      | some finalEnd => exact min_le_left _ _
    exact hclip.trans (Nat.mul_le_mul_right _ hapart.le)
  · rw [hend, hfirst]
    exact hapart.le

/-- The columns of the runs are columns of the format. -/
theorem Lays.columns (h : Lays s overview) (hmeasured : Measured signal s) :
    ∀ column ∈ overview.columns, column.Stored := by
  intro column hcolumn
  obtain ⟨span, hspan, hcolumn⟩ := List.mem_flatMap.mp hcolumn
  rw [h.spans] at hspan
  obtain ⟨run, hrun, rfl⟩ := List.mem_map.mp hspan
  obtain ⟨shown, hshown, rfl⟩ := List.mem_map.mp hcolumn
  obtain ⟨acc, hacc, rfl⟩ := List.mem_map.mp hshown
  obtain ⟨hfound, hmark⟩ := hmeasured.column_of_run hrun hacc
  exact waveformColumn_stored _ (hmeasured.marked_peaks hfound hmark)

/-- Spans with columns are no more than their columns. -/
theorem length_spans_le (h : ∀ span ∈ overview.spans, span.columns ≠ []) :
    overview.spans.length ≤ overview.columns.length := by
  have hlengths := List.length_le_sum_of_one_le (overview.spans.map fun span => span.columns.length)
    fun length hlength => by
      obtain ⟨span, hspan, rfl⟩ := List.mem_map.mp hlength
      exact List.length_pos_iff.mpr (h span hspan)
  rw [List.length_map] at hlengths
  rw [Container.Overview.columns, List.length_flatMap]
  exact hlengths

/-- An overview is the span of all frames of the ended input. -/
def Covers (s : Session) (overview : Container.Overview) : Prop :=
  ∃ span finalEnd, s.endOfInput = some finalEnd ∧ overview.spans = [span] ∧
    span.sourceRange = ⟨0, finalEnd⟩

/-- What a snapshot shows as its overview. -/
theorem overviewSnapshot_stored {view : OverviewView} (h : s.overviewSnapshot = some view) :
    Lays s view.stored ∧ (statePartial ≤ view.stored.state ∧ view.stored.state ≤ stateFinal) ∧
      (view.stored.state = stateFinal → Covers s view.stored) := by
  unfold overviewSnapshot LibApta.overviewSnapshot at h
  by_cases hnone : (!s.config.requests .waveformOverview ||
      decide (s.overview.completeCount = 0)) = true
  · rw [if_pos hnone] at h
    cases h
  rw [if_neg hnone] at h
  obtain rfl := Option.some.inj h
  refine ⟨⟨rfl, rfl, ?_⟩, ?_, fun hfinal => ?_⟩
  · simp only [OverviewView.stored, overviewSpans, List.map_map]
    rfl
  · simp only [OverviewView.stored]
    split_ifs <;> decide
  · simp only [OverviewView.stored] at hfinal
    by_cases hcovered : fullCoverage s.endOfInput (overviewSpans (s.config.requests .waveform3Band)
        s.framesPerColumn s.endOfInput s.overview.accumulators) = true
    swap
    · rw [if_neg hcovered] at hfinal
      exact absurd hfinal (by decide)
    unfold fullCoverage at hcovered
    split at hcovered
    case h_2 => cases hcovered
    next finalEnd span heoi hspans =>
      refine ⟨span.stored, finalEnd, heoi, ?_, of_decide_eq_true hcovered⟩
      simp only [OverviewView.stored, hspans]
      rfl

/-- The overview of a snapshot that the writer measures keeps the rules of the format. -/
theorem Measured.overview_stored (h : Measured signal s)
    (htyped : ∀ total ∈ s.config.totalFrames, total < totalFramesUnknown) {view : OverviewView}
    (hview : s.overviewSnapshot = some view) (hspans : view.stored.spans ≠ [])
    (hpacked : view.stored.columns.length ≤ uint32Max)
    (hsmall : view.stored.logicalColumns s.storedTotal ≤ uint32Max) :
    view.stored.Stored s.storedTotal := by
  obtain ⟨hlays, hstate, hfinal⟩ := overviewSnapshot_stored hview
  have hok : ∀ span ∈ view.stored.spans, span.Ok s.storedTotal view.stored.originFrame
      view.stored.framesPerColumn (view.stored.logicalColumns s.storedTotal) := by
    intro span hspan
    rw [hlays.spans] at hspan
    obtain ⟨run, hrun, rfl⟩ := List.mem_map.mp hspan
    exact hlays.span_ok h htyped hsmall hrun
  have hresolution := h.framesPerColumn_le
  have hpos := s.framesPerColumn_pos
  refine ⟨Nat.zero_le _, ?_, hstate, ⟨hspans, ?_⟩, ?_, hsmall, hok, hlays.columns h, hpacked,
    hlays.ordered h, fun hdone => ?_, fun hdone => ?_, fun hdone => ?_⟩
  · rw [hlays.framesPerColumn]
    exact ⟨hpos.ne', hresolution.trans (by decide)⟩
  · exact (length_spans_le fun span hspan => (hok span hspan).columns).trans hpacked
  · rw [hlays.origin]
    exact fun _ => Nat.zero_le _
  all_goals
    obtain ⟨span, finalEnd, heoi, hone, hrange⟩ := hfinal hdone
    have hknown := h.known finalEnd heoi
    have hbelow := htyped finalEnd hknown
    have htotal : s.storedTotal = finalEnd := by rw [storedTotal, hknown, Option.getD_some]
  · rw [htotal]
    exact hbelow.ne
  · have hspan := hok span (hone ▸ List.mem_singleton_self span)
    have hfirst := hspan.first
    rw [hrange, hlays.origin, hlays.framesPerColumn, Nat.zero_add] at hfirst
    rw [hone, hlays.origin]
    refine ⟨by rw [hrange], ?_, trivial⟩
    exact (Nat.mul_eq_zero.mp hfirst.symm).resolve_right hpos.ne'
  · have hspan := hok span (hone ▸ List.mem_singleton_self span)
    intro last hlast
    rw [hone, List.getLast?_singleton] at hlast
    obtain rfl := Option.some.inj (Option.mem_def.mp hlast)
    have hend : span.sourceRange.endFrame = s.storedTotal := by rw [hrange, htotal]
    refine ⟨?_, hend⟩
    rcases hspan.last with hwhole | ⟨-, -, hlogical, -⟩
    swap
    · exact hlogical
    refine le_antisymm hspan.logical ?_
    rw [hrange, hlays.origin, hlays.framesPerColumn, Nat.zero_add] at hwhole
    rw [hlays.logicalColumns hknown hbelow, requiredColumns_le_iff hpos]
    exact hwhole.le

end Lays

/-! ## Results -/

section Results

variable {signal : ℕ → ℚ} {s : Session} {mask : FeatureMask} {view : OverviewView}
  {options : Option SerializeOptions} {size : ℕ}

/-- A bare snapshot does not make a global grid available. -/
theorem globalBeatgrid_notMem (h : (s.snapshot mask).Bare) :
    Feature.globalBeatgrid ∉ (s.snapshot mask).availableFeatures := by
  have hglobal : s.globalGridSnapshot = none := h.globalGrid
  have hlocal : s.localGridSnapshot = none := h.localGrid
  have htempo : s.tempoSnapshot = none := h.tempo
  have htiles : s.detailSnapshot = [] := h.tiles
  change Feature.globalBeatgrid ∉ s.availableFeatures
  simp only [availableFeatures, hglobal, hlocal, htempo, htiles, overviewAvailable]
  cases s.overviewSnapshot with
  | none => simp
  | some view =>
      simp
      split_ifs <;> simp

/-- A bare snapshot of a measured session that the writer takes is storable. -/
theorem Measured.storable (h : Measured signal s) (hbare : (s.snapshot mask).Bare)
    (htyped : (s.snapshot mask).Typed) (hview : (s.snapshot mask).overview = some view)
    (hquery : resultQuerySerializedSize (s.snapshot mask).stored options = .ok size) :
    Storable (s.snapshot mask).stored view.stored := by
  obtain ⟨_, -, hsixth⟩ := Check.bind_eq_ok.mp hquery
  obtain ⟨layout, hlayout, -⟩ := Check.bind_eq_ok.mp hsixth
  obtain ⟨overview, hwritable, -⟩ := waveform_of_querySerializedSizeS4 (laysOut_s6 layout hlayout).1
  have hpresent : (s.snapshot mask).stored.overview = some view.stored := by
    rw [Result.stored, hview, Option.map_some]
  obtain rfl : overview = view.stored := Option.some.inj (hwritable.present.symm.trans hpresent)
  have hlength : (s.snapshot mask).stored.fingerprint.length = 32 := by
    simp only [Result.stored]
    cases hfingerprint : (s.snapshot mask).source.fingerprint with
    | none => rfl
    | some fingerprint =>
        rw [Option.map_some, Option.getD_some, List.length_map]
        exact htyped.fingerprint fingerprint hfingerprint
  have htotal : (s.snapshot mask).stored.totalSourceFrames ≤ uint64Max := by
    simp only [Result.stored]
    cases hknown : (s.snapshot mask).source.totalFrames with
    | none => exact le_rfl
    | some total => exact (htyped.total total hknown).le
  have hkind := hwritable.fingerprint
  rw [sourceFingerprintIsValid] at hkind
  have hoverview := h.overview_stored htyped.total hview hwritable.spans hwritable.packed
    hwritable.logical.2
  refine ⟨⟨htotal, ⟨hwritable.rate, htyped.rate⟩,
    ⟨hwritable.channels.1, Nat.lt_succ_of_le hwritable.channels.2⟩,
    Nat.lt_succ_of_le hwritable.layout, hlength, ?_, fun hnone => ?_⟩, hwritable.feature, hpresent,
    hoverview, fun hne => ?_, htyped.metadata, fun _ tempo hnone => ?_, fun hvalid => ?_,
    fun hfeature => ?_⟩
  · split_ifs at hkind with hnone
    · omega
    · simp only [Bool.or_eq_true, decide_eq_true_eq] at hkind
      omega
  · rw [if_pos hnone] at hkind
    exact fun byte hbyte => of_decide_eq_true (List.all_eq_true.mp hkind byte hbyte)
  · exact absurd (if_pos (.inr rfl)) hne
  · cases hnone
  · simp [s4GridIsValid, Result.stored] at hvalid
  · exact absurd hfeature (globalBeatgrid_notMem hbare)

end Results

/-- In every run of a session that is not seeded, takes its frames from a signal and feeds no chunk half
way, each published result with an overview and without tiles, tempo and grids is stored: whatever the
writer makes of it, the parser takes within its limits, and reads back the same content, which is written
to the same bytes. -/
theorem published_roundtrip (signal : ℕ → ℚ) (s : Session) (hcreated : Created s)
    (calls : List Call)
    (hhears : Guarded (fun call s => Hears signal call.op (s.withPlatform call)) calls s)
    (hwhole : Guarded (fun call s => FeedsWhole call.op (s.withPlatform call)) calls s)
    (s' : Session) (hrun : run calls s = some s') (result : Result) (hresult : result ∈ s'.results)
    (view : OverviewView) (hview : result.overview = some view) (hbare : result.Bare)
    (htyped : result.Typed) (sizes : Sizes) (writeOptions : Option SerializeOptions)
    (readOptions : Option ParseOptions) (buffer : Bytes) (context : Context) (size : ℕ)
    (hquery : resultQuerySerializedSize result.stored writeOptions = .ok size)
    (hroom : size ≤ buffer.length) (hlimits : WithinLimits sizes readOptions result.stored view.stored)
    (hgenerous : context.heap.Generous) :
    ∃ written parsed next, resultSerialize result.stored writeOptions buffer = .ok written ∧
      resultParse sizes readOptions (written.buffer.take written.size) context =
        ⟨.ok (), some parsed, next⟩ ∧
      SameContent result.stored parsed.data ∧
      resultSerialize parsed.data writeOptions buffer = .ok written := by
  have hpictured : Pictured signal s' :=
    (Pictured.invariant signal).run (.created hcreated) hhears hwhole hrun
  obtain ⟨t, mask, hmeasured, rfl⟩ := hpictured.pictures result hresult
  exact (hmeasured.storable hbare htyped hview hquery).roundtrip hquery hroom hlimits hgenerous

/-- The last result of the silent track in two blocks. -/
def silentResult : Result where
  generation := 5
  changedFeatures := ∅
  availableFeatures := {.waveformOverview}
  sessionState := .completed
  source := ⟨some 64, 44100, 1, 1, none⟩
  metadata := none
  overview := some ⟨64, 255, .final, [⟨0, ⟨0, 64⟩, [⟨0, 0, 0, 0, 0, 0, false, false⟩]⟩]⟩
  detailTiles := []
  tempo := none
  localGrid := none
  globalGrid := none

/-- It survives the round trip through a buffer of 300 bytes. -/
theorem published_roundtrip_silent : ∃ created s' : Session, Created created ∧
    run (twoBlocks ++ [idleProcessCall]) created = some s' ∧ silentResult ∈ s'.results ∧
    ∃ written parsed next,
      resultSerialize silentResult.stored none (List.replicate 300 7) = .ok written ∧
      resultParse sampleSizes (strictOptions 0 0) (written.buffer.take written.size) ⟨freshHeap, 0⟩ =
        ⟨.ok (), some parsed, next⟩ ∧
      SameContent silentResult.stored parsed.data ∧
      resultSerialize parsed.data none (List.replicate 300 7) = .ok written := by
  obtain ⟨created, hcreate⟩ : ∃ created, create (smallConfig {.waveformOverview} none) seriesLibm true
      plainPlatform = (.ok, some created) := ⟨_, rfl⟩
  have hdone : ((create (smallConfig {.waveformOverview} none) seriesLibm true plainPlatform).2.bind
      fun created => (run (twoBlocks ++ [idleProcessCall]) created).map fun s =>
        (created.usesWorkspace, s.results.head?)) = some (true, some silentResult) := by
    decide +kernel
  rw [hcreate] at hdone
  obtain ⟨_, hsame, hdone⟩ := Option.bind_eq_some_iff.mp hdone
  obtain rfl := Option.some.inj hsame
  obtain ⟨s', hrun, hdone⟩ := Option.map_eq_some_iff.mp hdone
  obtain ⟨hworkspace, hhead⟩ := Prod.mk.inj hdone
  have hcreated : Created created := ⟨_, _, _, _, hcreate⟩
  have hquiet : ∀ call ∈ twoBlocks ++ [idleProcessCall], ∀ s, Hears (fun _ => 0) call.op s :=
    List.forall_mem_append.mpr ⟨fun call hcall s => (quiet_twoBlocks call hcall s).1,
      List.forall_mem_singleton.mpr hears_idle⟩
  have hhears : Guarded (fun call s => Hears (fun _ => 0) call.op (s.withPlatform call))
      (twoBlocks ++ [idleProcessCall]) created :=
    Runs.Guarded.mono (fun call s h => h (s.withPlatform call)) (Runs.guarded_of_forall hquiet created)
  have hstart : AccountedInWorkspace (fun _ => 0) created := ⟨.created _ hcreated, hworkspace⟩
  have hresult : silentResult ∈ s'.results := List.mem_of_head? hhead
  refine ⟨created, s', hcreated, hrun, hresult, ?_⟩
  have hsize : containerSize (writtenParts silentResult.stored) = 226 := by decide +kernel
  have hmax : uint64Max = 18446744073709551615 := rfl
  refine published_roundtrip _ created hcreated _ hhears (hstart.guarded hhears) s' hrun silentResult
    hresult _ rfl ⟨rfl, rfl, rfl, rfl⟩ ⟨?_, by decide, ?_, ?_⟩ sampleSizes none (strictOptions 0 0) _
    ⟨freshHeap, 0⟩ 226 rfl ?_ ?_ freshHeap_generous
  · intro total htotal
    obtain rfl := Option.some.inj (Option.mem_def.mp htotal)
    decide
  · exact fun _ hnone => absurd hnone (Option.not_mem_none _)
  · exact fun _ hnone => absurd hnone (Option.not_mem_none _)
  · rw [List.length_replicate]
    decide
  · refine ⟨rfl, ?_, by decide +kernel, by decide, by decide, by decide, fun _ => by decide, ?_⟩
    · rw [hsize]
      decide
    · exact ⟨by decide +kernel, by decide +kernel⟩

end Session

end LibApta
