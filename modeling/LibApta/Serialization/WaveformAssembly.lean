import LibApta.Serialization.ContainerAppend
import LibApta.Serialization.DetailReadBack

/-!
# The waveform layers write assembled containers

What the two inner layers of the writer ask of an overview and of detail tiles, in closed form, and
that what they write is the container assembled from the overview section and, if there are tiles, the
detail section.
-/

namespace LibApta.Container

open LittleEndian Packing

/-! ## The sections of a waveform -/

/-- The section of an overview. -/
def overviewPart (data : ResultData) (overview : Overview) : Part :=
  (.overview, wovrPayload overview (overview.logicalColumns data.totalSourceFrames)
    (overview.state % 8))

/-- The detail section, if tiles are available. -/
def detailParts (data : ResultData) : List Part :=
  if Feature.waveformDetail ∉ data.availableFeatures ∨ data.detailTiles = [] then []
  else [(.detail, wdtlPayload data.detailTiles)]

/-- A tile that is not final. -/
def Tile.unfinished (tile : Tile) : Bool := decide (tile.state ≠ stateFinal)

/-- The container flags the tiles add. -/
def tileFlags (tiles : List Tile) : ℕ :=
  if tiles.any Tile.unfinished then 2 ^ flagPartialResult else 0

@[inherit_doc tileFlags]
def detailFlags (data : ResultData) : ℕ :=
  if detailParts data = [] then 0 else tileFlags data.detailTiles

/-! ## Overview -/

/-- What the writer asks of a span by itself. -/
structure Span.Measurable (span : Span) : Prop where
  frames : span.sourceRange.firstFrame < span.sourceRange.endFrame
  columns : span.columns ≠ []
  logical : span.endColumn ≤ uint32Max
  ordered : ∀ column ∈ span.columns, column.flags.testBit columnFlagValid = true →
    column.minimum ≤ column.maximum

/-- A span starts where another ends or later. -/
def Span.StartsAfter (previous span : Span) : Prop :=
  previous.sourceRange.endFrame ≤ span.sourceRange.firstFrame

section Spans

variable {index : ℕ} {span : Span} {spans : List Span} {totals totals' : SpanTotals}

theorem measureSpan_eq_ok : measureSpan index span totals = .ok totals' ↔
    (span.Measurable ∧ (index ≠ 0 → totals.previousEnd ≤ span.sourceRange.firstFrame) ∧
      totals.packedColumns + span.columns.length ≤ uint32Max) ∧
      totals' = ⟨totals.packedColumns + span.columns.length,
        max totals.logicalColumns span.endColumn, span.sourceRange.endFrame⟩ := by
  have hvalues : ¬ span.columns.any (fun column => column.flags.testBit columnFlagValid &&
      decide (column.maximum < column.minimum)) = true ↔ ∀ column ∈ span.columns,
        column.flags.testBit columnFlagValid = true → column.minimum ≤ column.maximum := by
    simp only [List.any_eq_true, Bool.and_eq_true, decide_eq_true_eq, not_exists, not_and, not_lt]
  rw [measureSpan]
  simp only [Check.bind_eq_ok, Check.rejectIf_eq_ok, Check.pure_eq_ok, Except.ok.injEq, hvalues,
    not_or, not_and, not_le, not_lt, exists_and_left, exists_const]
  constructor
  · rintro ⟨⟨hframes, hcolumns, hordered, hlogical⟩, hpacked, hvalid, rfl⟩
    have hpos := List.length_pos_iff.mpr hcolumns
    exact ⟨⟨⟨hframes, hcolumns, by rw [Span.endColumn]; omega, hvalid⟩, hordered, by omega⟩, rfl⟩
  · rintro ⟨⟨h, hordered, hpacked⟩, rfl⟩
    have hlogical := h.logical
    rw [Span.endColumn] at hlogical
    exact ⟨⟨h.frames, h.columns, hordered, by omega⟩, by omega, h.ordered, rfl⟩

/-- The totals of some spans. -/
def addSpans (totals : SpanTotals) (spans : List Span) : SpanTotals :=
  spans.foldl (fun totals span => ⟨totals.packedColumns + span.columns.length,
    max totals.logicalColumns span.endColumn, span.sourceRange.endFrame⟩) totals

theorem packedColumns_addSpans (totals : SpanTotals) (spans : List Span) :
    (addSpans totals spans).packedColumns =
      totals.packedColumns + (spans.flatMap Span.columns).length := by
  induction spans generalizing totals with
  | nil => rfl
  | cons span rest ih =>
      rw [List.flatMap_cons, List.length_append, ← Nat.add_assoc]
      exact ih _

theorem logicalColumns_addSpans (totals : SpanTotals) (spans : List Span) :
    (addSpans totals spans).logicalColumns =
      spans.foldl (fun columns span => max columns span.endColumn) totals.logicalColumns := by
  induction spans generalizing totals with
  | nil => rfl
  | cons span rest ih => exact ih _

/-- Behind a span the writer measures spans that start after each other. -/
private theorem walk_measureSpan_eq_ok (hpacked : totals.packedColumns ≤ uint32Max)
    (hindex : index ≠ 0) :
    Check.walk measureSpan index spans totals = .ok totals' ↔
      ((∀ span ∈ spans, span.Measurable) ∧
        (∀ first ∈ spans.head?, totals.previousEnd ≤ first.sourceRange.firstFrame) ∧
        spans.IsChain Span.StartsAfter ∧
        totals.packedColumns + (spans.flatMap Span.columns).length ≤ uint32Max) ∧
      totals' = addSpans totals spans := by
  induction spans generalizing index totals with
  | nil =>
      rw [Check.walk_nil, Except.ok.injEq]
      exact ⟨fun h => ⟨⟨List.forall_mem_nil _, fun _ hnone => absurd hnone (Option.not_mem_none _),
        List.IsChain.nil, hpacked⟩, h.symm⟩, fun h => h.2.symm⟩
  | cons span rest ih =>
      rw [Check.walk_cons_eq_ok]
      simp only [measureSpan_eq_ok, List.flatMap_cons, List.length_append, List.forall_mem_cons,
        List.isChain_cons, List.head?_cons, Option.mem_some_iff, forall_eq']
      constructor
      · rintro ⟨next, ⟨⟨hspan, hordered, hroom⟩, rfl⟩, hrest⟩
        obtain ⟨⟨hall, hfirst, hchain, hsum⟩, rfl⟩ := (ih hroom (Nat.succ_ne_zero _)).mp hrest
        exact ⟨⟨⟨hspan, hall⟩, hordered hindex, ⟨hfirst, hchain⟩,
          (Nat.add_assoc _ _ _).symm.trans_le hsum⟩, rfl⟩
      · rintro ⟨⟨⟨hspan, hall⟩, hordered, ⟨hfirst, hchain⟩, hsum⟩, rfl⟩
        have hroom : totals.packedColumns + span.columns.length ≤ uint32Max := by omega
        exact ⟨_, ⟨⟨hspan, fun _ => hordered, hroom⟩, rfl⟩,
          (ih hroom (Nat.succ_ne_zero _)).mpr ⟨⟨hall, hfirst, hchain,
            (Nat.add_assoc _ _ _).trans_le hsum⟩, rfl⟩⟩

/-- The writer measures spans that start after each other. -/
theorem measureSpans_eq_ok : Check.walk measureSpan 0 spans ⟨0, 0, 0⟩ = .ok totals' ↔
    ((∀ span ∈ spans, span.Measurable) ∧ spans.IsChain Span.StartsAfter ∧
      (spans.flatMap Span.columns).length ≤ uint32Max) ∧ totals' = addSpans ⟨0, 0, 0⟩ spans := by
  cases spans with
  | nil =>
      rw [Check.walk_nil, Except.ok.injEq]
      exact ⟨fun h => ⟨⟨List.forall_mem_nil _, List.IsChain.nil, Nat.zero_le _⟩, h.symm⟩,
        fun h => h.2.symm⟩
  | cons span rest =>
      rw [Check.walk_cons_eq_ok]
      simp only [measureSpan_eq_ok, List.flatMap_cons, List.length_append, List.forall_mem_cons,
        List.isChain_cons, ne_eq, not_true, false_implies, true_and, Nat.zero_add]
      constructor
      · rintro ⟨next, ⟨⟨hspan, hroom⟩, rfl⟩, hrest⟩
        obtain ⟨⟨hall, hfirst, hchain, hsum⟩, rfl⟩ :=
          (walk_measureSpan_eq_ok hroom Nat.one_ne_zero).mp hrest
        refine ⟨⟨⟨hspan, hall⟩, ⟨hfirst, hchain⟩, hsum⟩, ?_⟩
        rw [addSpans, addSpans, List.foldl_cons, Nat.zero_add]
      · rintro ⟨⟨⟨hspan, hall⟩, ⟨hfirst, hchain⟩, hsum⟩, rfl⟩
        have hroom : span.columns.length ≤ uint32Max := by omega
        refine ⟨_, ⟨⟨hspan, hroom⟩, rfl⟩,
          (walk_measureSpan_eq_ok hroom Nat.one_ne_zero).mpr ⟨⟨hall, hfirst, hchain, hsum⟩, ?_⟩⟩
        rw [addSpans, addSpans, List.foldl_cons, Nat.zero_add]

end Spans

/-- What the writer asks of an overview. -/
structure OverviewWritable (data : ResultData) (options : Option SerializeOptions)
    (overview : Overview) : Prop where
  optionsOk : serializationOptionsAreValid options = true
  feature : Feature.waveformOverview ∈ data.availableFeatures
  present : data.overview = some overview
  framesPerColumn : overview.framesPerColumn ≠ 0
  spans : overview.spans ≠ []
  state : statePartial ≤ overview.state ∧ overview.state ≤ stateFinal
  rate : data.sourceSampleRate ≠ 0
  channels : data.sourceChannelCount ≠ 0 ∧ data.sourceChannelCount ≤ 65535
  layout : data.sourceChannelLayout ≤ 65535
  fingerprint : sourceFingerprintIsValid data.fingerprintKind data.fingerprint = true
  measurable : ∀ span ∈ overview.spans, span.Measurable
  ordered : overview.spans.IsChain Span.StartsAfter
  packed : overview.columns.length ≤ uint32Max
  origin : data.totalSourceFrames ≠ totalFramesUnknown →
    overview.originFrame ≤ data.totalSourceFrames
  within : overview.spanColumns ≤ overview.logicalColumns data.totalSourceFrames
  logical : overview.logicalColumns data.totalSourceFrames ≠ 0 ∧
    overview.logicalColumns data.totalSourceFrames ≤ uint32Max
  size : containerSize [overviewPart data overview] ≤ uint64Max
  allowed : outputAllowed options (containerSize [overviewPart data overview]) = true

/-- The layout of the overview layer. -/
def overviewLayout (data : ResultData) (overview : Overview) : WovrLayout where
  totalSize := containerSize [overviewPart data overview]
  payloadSize := (overviewPart data overview).size
  packedColumnCount := overview.columns.length
  logicalColumnCount := overview.logicalColumns data.totalSourceFrames
  containerFlags := overviewContainerFlags data overview
  wovrFlags := overview.state % 8

section Overview

variable {data : ResultData} {options : Option SerializeOptions} {overview : Overview}

theorem requireOverview_eq_ok : requireOverview data = .ok overview ↔
    data.overview = some overview := by
  rw [requireOverview]
  cases data.overview with
  | none =>
      constructor <;> intro h <;> cases h
  | some other => exact ⟨fun h => congrArg some (Except.ok.inj h),
      fun h => congrArg Except.ok (Option.some.inj h)⟩

/-- The logical columns the writer finds. -/
theorem measureLogicalColumns_eq_ok {logical : ℕ} :
    measureLogicalColumns data overview overview.spanColumns = .ok logical ↔
      logical = overview.logicalColumns data.totalSourceFrames ∧
        (data.totalSourceFrames ≠ totalFramesUnknown →
          overview.originFrame ≤ data.totalSourceFrames ∧
            overview.logicalColumns data.totalSourceFrames ≤ uint32Max) ∧
        overview.spanColumns ≤ overview.logicalColumns data.totalSourceFrames := by
  rw [measureLogicalColumns, Overview.logicalColumns]
  split
  case isTrue hunknown =>
    rw [Except.ok.injEq]
    exact ⟨fun h => ⟨h.symm, fun hknown => absurd hunknown hknown, le_rfl⟩, fun h => h.1.symm⟩
  case isFalse hknown =>
    simp only [Check.bind_eq_ok, Check.rejectIf_eq_ok, Check.pure_eq_ok, Except.ok.injEq, not_lt,
      not_or, exists_and_left, exists_const]
    constructor
    · rintro ⟨horigin, ⟨hsmall, hspans⟩, rfl⟩
      exact ⟨rfl, fun _ => ⟨horigin, hsmall⟩, hspans⟩
    · rintro ⟨rfl, hrules, hspans⟩
      obtain ⟨horigin, hsmall⟩ := hrules hknown
      exact ⟨horigin, ⟨hsmall, hspans⟩, rfl⟩

/-- The size of a container with an overview. -/
theorem containerSize_overview (data : ResultData) (overview : Overview) :
    containerSize [overviewPart data overview] = payloadStart 1 + (wovrHeaderSize +
      overview.spans.length * wovrSpanSize + overview.columns.length * packedColumnSize) := by
  have hlength := length_wovrPayload overview (overview.logicalColumns data.totalSourceFrames)
    (overview.state % 8)
  rw [containerSize, List.length_singleton, finish, finish,
    alignUp_of_dvd (by decide) (dvd_payloadStart 1)]
  exact congrArg _ hlength

/-- The overview layer lays out a container exactly when the overview is writable. -/
theorem serializationCalculateLayout_eq_ok {layout : WovrLayout} :
    serializationCalculateLayout data options = .ok layout ↔
      ∃ overview, OverviewWritable data options overview ∧
        layout = overviewLayout data overview := by
  have hlogical : ∀ overview : Overview, (addSpans ⟨0, 0, 0⟩ overview.spans).logicalColumns =
      overview.spanColumns := fun overview => logicalColumns_addSpans _ _
  have hpacked : ∀ overview : Overview, (addSpans ⟨0, 0, 0⟩ overview.spans).packedColumns =
      overview.columns.length := fun overview =>
    (packedColumns_addSpans _ _).trans (Nat.zero_add _)
  rw [serializationCalculateLayout]
  simp only [Check.bind_eq_ok, Check.rejectIf_eq_ok, Check.pure_eq_ok, Except.ok.injEq,
    requireOverview_eq_ok, measureSpans_eq_ok, exists_and_left, exists_const, not_or, not_not,
    Bool.not_eq_false, not_lt]
  constructor
  · rintro ⟨hoptions, hfeature, overview, hpresent, ⟨hframes, hspans, hpart, hfinal, hrate,
      hchannels, hfew, hlayout, hfingerprint⟩, totals, ⟨⟨hmeasurable, hordered, hcolumns⟩, rfl⟩,
      logical, hmeasure, hsmall, ⟨hspanBytes, hcolumnBytes⟩, hpayload, hallowed, rfl⟩
    rw [hlogical, measureLogicalColumns_eq_ok] at hmeasure
    obtain ⟨rfl, horigin, hwithin⟩ := hmeasure
    have hsize := containerSize_overview data overview
    rw [hpacked, ← hsize] at hallowed
    rw [hpacked] at hcolumnBytes hpayload
    have hfits : containerSize [overviewPart data overview] ≤ uint64Max := by
      have hroom : payloadStart 1 ≤ uint64Max := by decide
      omega
    refine ⟨overview, ⟨hoptions, hfeature, hpresent, hframes, hspans, ⟨hpart, hfinal⟩, hrate,
      ⟨hchannels, hfew⟩, hlayout, hfingerprint, hmeasurable, hordered, hcolumns,
      fun hknown => (horigin hknown).1, hwithin, hsmall, hfits, hallowed⟩, ?_⟩
    rw [hpacked, ← hsize, overviewLayout, overviewPart, Part.size, length_wovrPayload]
  · rintro ⟨overview, h, rfl⟩
    have hsize := containerSize_overview data overview
    have hfits := h.size
    have hallowed := h.allowed
    have hpayload : (overviewLayout data overview).payloadSize = wovrHeaderSize +
        overview.spans.length * wovrSpanSize + overview.columns.length * packedColumnSize :=
      length_wovrPayload _ _ _
    refine ⟨h.optionsOk, h.feature, overview, h.present, ⟨h.framesPerColumn, h.spans, h.state.1,
      h.state.2, h.rate, h.channels.1, h.channels.2, h.layout, h.fingerprint⟩, _,
      ⟨⟨h.measurable, h.ordered, h.packed⟩, rfl⟩,
      overview.logicalColumns data.totalSourceFrames, ?_, h.logical, ?_, ?_, ?_, ?_⟩
    · rw [hlogical, measureLogicalColumns_eq_ok]
      exact ⟨rfl, fun hknown => ⟨h.origin hknown, h.logical.2⟩, h.within⟩
    · rw [hpacked]
      omega
    · rw [hpacked]
      omega
    · rw [hpacked, ← hsize]
      exact hallowed
    · rw [hpacked, ← hsize, ← hpayload]
      rfl

/-- The size query of the overview layer. -/
theorem resultQuerySerializedSizeWovr_eq_ok {size : ℕ} :
    resultQuerySerializedSizeWovr data options = .ok size ↔
      ∃ overview, OverviewWritable data options overview ∧
        size = containerSize [overviewPart data overview] := by
  rw [resultQuerySerializedSizeWovr, Check.bind_eq_ok]
  simp only [serializationCalculateLayout_eq_ok, Check.pure_eq_ok, Except.ok.injEq]
  constructor
  · rintro ⟨_, ⟨overview, h, rfl⟩, rfl⟩
    exact ⟨overview, h, rfl⟩
  · rintro ⟨overview, h, rfl⟩
    exact ⟨_, ⟨overview, h, rfl⟩, rfl⟩

/-- A container with one section. -/
theorem containerOf_overview (data : ResultData) (flags : ℕ) (overview : Overview) :
    containerOf data flags [overviewPart data overview] =
      sealHeader (headerBytes data flags 1 (containerSize [overviewPart data overview])) ++
        (recordOf SectionTag.overview.bytes (overviewPart data overview).2 (2 ^ flagRequired)
          (payloadStart 1) ++ (overviewPart data overview).2) := by
  rw [containerOf, placeParts, packParts, List.length_singleton, place, place, pack, pack,
    alignUp_of_dvd (by decide) (dvd_payloadStart 1), Nat.sub_self, List.map_singleton,
    List.flatten_singleton, List.replicate_zero, List.nil_append, List.append_nil]
  rfl

/-- The overview layer writes the assembled container. -/
theorem resultSerializeWovr_eq (data : ResultData) (options : Option SerializeOptions)
    (capacity : ℕ) :
    resultSerializeWovr data options capacity = do
      let layout ← serializationCalculateLayout data options
      requireRoom capacity layout.totalSize
      let overview ← requireOverview data
      return containerOf data (overviewContainerFlags data overview)
        [overviewPart data overview] := by
  refine Check.bind_congr_ok fun layout hlayout => ?_
  refine Check.bind_congr_ok fun _ _ => ?_
  refine Check.bind_congr_ok fun overview hpresent => ?_
  obtain ⟨other, h, rfl⟩ := serializationCalculateLayout_eq_ok.mp hlayout
  obtain rfl := Option.some.inj ((requireOverview_eq_ok.mp hpresent).symm.trans h.present)
  rw [containerOf_overview]
  rfl

end Overview

/-! ## Detail tiles -/

/-- What the writer asks of tiles. -/
structure TilesWritable (total : ℕ) (tiles : List Tile) : Prop where
  readable : ∀ tile ∈ tiles, tile.Readable total
  finalKnown : ∀ tile ∈ tiles, tile.FinalKnown total
  sorted : (tiles.map Tile.key).IsChain (· < ·)
  packed : (tiles.flatMap Tile.columns).length ≤ uint32Max

section Tiles

variable {total index : ℕ} {previous : Option Tile} {tile : Tile} {tiles : List Tile}
  {totals totals' : WdtlTotals}

/-- A tile is in order when its key is larger than the key before it. -/
theorem outOfOrder_iff (previous tile : Tile) :
    previous.outOfOrder tile = true ↔ ¬ previous.key < tile.key := by
  rw [Tile.outOfOrder, Tile.key, Tile.key, Prod.Lex.toLex_lt_toLex]
  simp only [Bool.or_eq_true, Bool.and_eq_true, decide_eq_true_eq]
  omega

theorem wdtlValidateTile_eq_ok {u : Unit} : wdtlValidateTile total previous tile = .ok u ↔
    (∀ before ∈ previous, before.key < tile.key) ∧ tile.Readable total ∧ tile.FinalKnown total := by
  have horder : ¬ previous.any (fun previous => previous.outOfOrder tile) = true ↔
      ∀ before ∈ previous, before.key < tile.key := by
    simp only [Option.any_eq_true, outOfOrder_iff, not_exists, not_and, not_not, Option.mem_def]
  have hcolumns : ¬ tile.columns.any (columnRejected true) = true ↔
      ∀ column ∈ tile.columns, ColumnOk true column := by
    simp only [List.any_eq_true, not_exists, not_and, columnRejected_iff]
  rw [wdtlValidateTile]
  simp only [Check.bind_eq_ok, Check.rejectIf_eq_ok, exists_const, horder, hcolumns, not_or,
    not_and, not_lt, not_le, not_not, Bool.not_eq_false, ne_eq]
  constructor
  · rintro ⟨hlevel, hbefore, ⟨hframes, hcolumns, hpart, hfinal, hflags, hconfidence⟩, hindex,
      hinTile, hfirst, hlast, htotal, hknown, hok⟩
    exact ⟨hbefore, ⟨hlevel, hindex, hframes, hcolumns, ⟨hpart, hfinal⟩, hflags, hconfidence,
      hinTile, hfirst, or_iff_not_imp_left.mpr hlast, htotal, hok⟩, hknown⟩
  · rintro ⟨hbefore, h, hknown⟩
    exact ⟨h.level, hbefore, ⟨h.frames, h.columns, h.state.1, h.state.2, h.flags, h.confidence⟩,
      h.index, h.inTile, h.first, or_iff_not_imp_left.mp h.last, h.total, hknown, h.columnsOk⟩

theorem wdtlMeasureTile_eq_ok : wdtlMeasureTile total index tile totals = .ok totals' ↔
    ((∀ before ∈ totals.previous, before.key < tile.key) ∧ tile.Readable total ∧
      tile.FinalKnown total ∧ totals.packedColumns + tile.columns.length ≤ uint32Max) ∧
      totals' = ⟨totals.packedColumns + tile.columns.length,
        totals.containerFlagsOr ||| tileFlags [tile], some tile⟩ := by
  have hflags : (if tile.state = stateFinal then totals.containerFlagsOr
      else totals.containerFlagsOr ||| 2 ^ flagPartialResult) =
      totals.containerFlagsOr ||| tileFlags [tile] := by
    rw [tileFlags, List.any_cons, List.any_nil, Bool.or_false, Tile.unfinished]
    by_cases hfinal : tile.state = stateFinal
    · simp only [hfinal, if_true, ne_eq, not_true, decide_false, Bool.false_eq_true, if_false,
        Nat.or_zero]
    · simp only [hfinal, if_false, ne_eq, not_false_iff, decide_true, if_true]
  rw [wdtlMeasureTile, hflags]
  simp only [Check.bind_eq_ok, Check.rejectIf_eq_ok, Check.pure_eq_ok, Except.ok.injEq,
    wdtlValidateTile_eq_ok, exists_const, not_lt]
  constructor
  · rintro ⟨⟨hbefore, hreadable, hknown⟩, hpacked, rfl⟩
    have hfew := hreadable.columns_le.2
    exact ⟨⟨hbefore, hreadable, hknown, by omega⟩, rfl⟩
  · rintro ⟨⟨hbefore, hreadable, hknown, hpacked⟩, rfl⟩
    exact ⟨⟨hbefore, hreadable, hknown⟩, by omega, rfl⟩

/-- The flags of tiles collect those of each. -/
theorem tileFlags_cons (tile : Tile) (tiles : List Tile) :
    tileFlags [tile] ||| tileFlags tiles = tileFlags (tile :: tiles) := by
  rw [tileFlags, tileFlags, tileFlags, List.any_cons, List.any_cons, List.any_nil, Bool.or_false]
  cases tile.unfinished <;> cases tiles.any Tile.unfinished <;> rfl

/-- The totals of some tiles. -/
def addTiles (totals : WdtlTotals) (tiles : List Tile) : WdtlTotals :=
  tiles.foldl (fun totals tile => ⟨totals.packedColumns + tile.columns.length,
    totals.containerFlagsOr ||| tileFlags [tile], some tile⟩) totals

theorem packedColumns_addTiles (totals : WdtlTotals) (tiles : List Tile) :
    (addTiles totals tiles).packedColumns =
      totals.packedColumns + (tiles.flatMap Tile.columns).length := by
  induction tiles generalizing totals with
  | nil => rfl
  | cons tile rest ih =>
      rw [List.flatMap_cons, List.length_append, ← Nat.add_assoc]
      exact ih _

theorem containerFlagsOr_addTiles (totals : WdtlTotals) (tiles : List Tile) :
    (addTiles totals tiles).containerFlagsOr = totals.containerFlagsOr ||| tileFlags tiles := by
  induction tiles generalizing totals with
  | nil => rw [tileFlags, List.any_nil, if_neg Bool.false_ne_true, Nat.or_zero]; rfl
  | cons tile rest ih =>
      rw [← tileFlags_cons, ← Nat.or_assoc]
      exact ih _

/-- The writer measures tiles whose keys grow, from a last tile on. -/
private theorem walk_measureTile_eq_ok (hpacked : totals.packedColumns ≤ uint32Max) :
    Check.walk (wdtlMeasureTile total) index tiles totals = .ok totals' ↔
      ((∀ tile ∈ tiles, tile.Readable total) ∧ (∀ tile ∈ tiles, tile.FinalKnown total) ∧
        (∀ before ∈ totals.previous, ∀ first ∈ tiles.head?, before.key < first.key) ∧
        (tiles.map Tile.key).IsChain (· < ·) ∧
        totals.packedColumns + (tiles.flatMap Tile.columns).length ≤ uint32Max) ∧
      totals' = addTiles totals tiles := by
  induction tiles generalizing index totals with
  | nil =>
      rw [Check.walk_nil, Except.ok.injEq]
      exact ⟨fun h => ⟨⟨List.forall_mem_nil _, List.forall_mem_nil _,
        fun _ _ _ hnone => absurd hnone (Option.not_mem_none _), List.IsChain.nil, hpacked⟩,
        h.symm⟩, fun h => h.2.symm⟩
  | cons tile rest ih =>
      rw [Check.walk_cons_eq_ok]
      simp only [wdtlMeasureTile_eq_ok, List.flatMap_cons, List.length_append,
        List.forall_mem_cons, List.map_cons, List.isChain_cons, List.head?_cons, List.head?_map,
        Option.mem_some_iff, Option.mem_map, forall_eq', forall_exists_index, and_imp,
        forall_apply_eq_imp_iff₂]
      constructor
      · rintro ⟨next, ⟨⟨hbefore, hreadable, hknown, hroom⟩, rfl⟩, hrest⟩
        obtain ⟨⟨hall, hallKnown, hfirst, hchain, hsum⟩, rfl⟩ := (ih hroom).mp hrest
        exact ⟨⟨⟨hreadable, hall⟩, ⟨hknown, hallKnown⟩, hbefore, ⟨hfirst tile rfl, hchain⟩,
          (Nat.add_assoc _ _ _).symm.trans_le hsum⟩, rfl⟩
      · rintro ⟨⟨⟨hreadable, hall⟩, ⟨hknown, hallKnown⟩, hbefore, ⟨hfirst, hchain⟩, hsum⟩, rfl⟩
        have hroom : totals.packedColumns + tile.columns.length ≤ uint32Max := by omega
        refine ⟨_, ⟨⟨hbefore, hreadable, hknown, hroom⟩, rfl⟩,
          (ih hroom).mpr ⟨⟨hall, hallKnown, ?_, hchain,
            (Nat.add_assoc _ _ _).trans_le hsum⟩, rfl⟩⟩
        rintro before ⟨⟩
        exact hfirst

/-- The writer measures writable tiles. -/
theorem wdtlMeasureTiles_eq_ok :
    Check.walk (wdtlMeasureTile total) 0 tiles ⟨0, 0, none⟩ = .ok totals' ↔
    TilesWritable total tiles ∧ totals' = addTiles ⟨0, 0, none⟩ tiles := by
  rw [walk_measureTile_eq_ok (Nat.zero_le _)]
  refine and_congr_left fun _ => ⟨fun h => ⟨h.1, h.2.1, h.2.2.2.1, ?_⟩, fun h => ⟨h.readable,
    h.finalKnown, fun _ hnone => absurd hnone (Option.not_mem_none _), h.sorted, ?_⟩⟩
  · exact (Nat.zero_add _).symm.trans_le h.2.2.2.2
  · exact (Nat.zero_add _).trans_le h.packed

/-- The size of a detail payload. -/
theorem length_wdtlPayload (tiles : List Tile) : (wdtlPayload tiles).length =
    wdtlHeaderSize + tiles.length * wdtlTileSize +
      (tiles.flatMap Tile.columns).length * packedColumnSize := by
  have htable : (((tileEntries (wdtlColumnsOffset tiles) 0 tiles).map packTileEntry).flatten).length =
      tiles.length * wdtlTileSize := by
    rw [length_flatten_of_width fun record hrecord => ?_, List.length_map, length_tileEntries]
    obtain ⟨entry, -, rfl⟩ := List.mem_map.mp hrecord
    exact length_packTileEntry entry
  have hheader : wdtlHeaderSize = 16 := rfl
  simp only [wdtlPayload, List.length_append, length_encode, htable, length_packColumns]
  omega

end Tiles

/-! ### The detail layer -/

/-- The sections of a waveform. -/
def waveformParts (data : ResultData) (overview : Overview) : List Part :=
  overviewPart data overview :: detailParts data

/-- What the writer asks of the detail tiles of a result. -/
structure DetailWritable (data : ResultData) (options : Option SerializeOptions)
    (overview : Overview) : Prop where
  tiles : TilesWritable data.totalSourceFrames data.detailTiles
  size : containerSize (waveformParts data overview) ≤ uint64Max
  allowed : outputAllowed options (containerSize (waveformParts data overview)) = true

/-- The layout of the detail layer. -/
def waveformLayout (data : ResultData) (overview : Overview) : WdtlLayout :=
  if detailParts data = [] then
    ⟨containerSize [overviewPart data overview], 0, 0, 0,
      containerSize [overviewPart data overview], 0, false⟩
  else
    { baseSize := containerSize [overviewPart data overview]
      wovrPayloadSize := (overviewPart data overview).size
      wdtlPayloadSize := (wdtlPayload data.detailTiles).length
      wdtlPayloadOffset :=
        alignUp sectionAlignment (payloadStart 2 + (overviewPart data overview).size)
      totalSize := containerSize (waveformParts data overview)
      containerFlagsOr := tileFlags data.detailTiles
      hasWdtl := true }

section Detail

variable {data : ResultData} {options : Option SerializeOptions} {overview : Overview}

/-- There are no detail sections unless tiles are available. -/
theorem detailParts_eq_nil : detailParts data = [] ↔
    Feature.waveformDetail ∉ data.availableFeatures ∨ data.detailTiles = [] := by
  rw [detailParts]
  split
  case isTrue h => exact ⟨fun _ => h, fun _ => rfl⟩
  case isFalse h => exact ⟨fun hnil => absurd hnil (List.cons_ne_nil _ _), fun h' => absurd h' h⟩

theorem detailParts_of_ne_nil (h : detailParts data ≠ []) :
    detailParts data = [(.detail, wdtlPayload data.detailTiles)] :=
  if_neg fun hnone => h (detailParts_eq_nil.mpr hnone)

theorem containerSize_one (data : ResultData) (overview : Overview) :
    containerSize [overviewPart data overview] =
      payloadStart 1 + (overviewPart data overview).size := by
  rw [containerSize, List.length_singleton, finish, finish,
    alignUp_of_dvd (by decide) (dvd_payloadStart 1)]

theorem containerSize_two (h : detailParts data ≠ []) :
    containerSize (waveformParts data overview) =
      alignUp sectionAlignment (payloadStart 2 + (overviewPart data overview).size) +
        (wdtlPayload data.detailTiles).length := by
  rw [waveformParts, detailParts_of_ne_nil h, containerSize, List.length_cons, List.length_singleton,
    finish, finish, finish, alignUp_of_dvd (by decide) (dvd_payloadStart 2)]
  rfl

/-- The detail layer lays out a container exactly when the overview and the tiles are writable. -/
theorem wdtlCalculateLayout_eq_ok {layout : WdtlLayout} :
    wdtlCalculateLayout data options = .ok layout ↔
      ∃ overview, OverviewWritable data options overview ∧
        (detailParts data ≠ [] → DetailWritable data options overview) ∧
        layout = waveformLayout data overview := by
  rw [wdtlCalculateLayout]
  have hpacked : (addTiles ⟨0, 0, none⟩ data.detailTiles).packedColumns =
      (data.detailTiles.flatMap Tile.columns).length :=
    (packedColumns_addTiles _ _).trans (Nat.zero_add _)
  have hflags : (addTiles ⟨0, 0, none⟩ data.detailTiles).containerFlagsOr =
      tileFlags data.detailTiles := (containerFlagsOr_addTiles _ _).trans (Nat.zero_or _)
  constructor
  · intro h
    obtain ⟨base, hbase, h⟩ := Check.bind_eq_ok.mp h
    obtain ⟨overview, hwritable, rfl⟩ := resultQuerySerializedSizeWovr_eq_ok.mp hbase
    obtain ⟨_, -, h⟩ := Check.bind_eq_ok.mp h
    refine ⟨overview, hwritable, ?_⟩
    split at h
    case isTrue hnone =>
      have hnil := detailParts_eq_nil.mpr hnone
      obtain rfl := Except.ok.inj h
      exact ⟨fun hne => absurd hnil hne, by rw [waveformLayout, if_pos hnil]⟩
    case isFalse hsome =>
      have hne : detailParts data ≠ [] := fun hnil => hsome (detailParts_eq_nil.mp hnil)
      have hone := containerSize_one data overview
      have htwo := @containerSize_two data overview hne
      have hlength := length_wdtlPayload data.detailTiles
      simp only [Check.bind_eq_ok, wdtlMeasureTiles_eq_ok, Check.rejectIf_eq_ok, exists_const,
        align8_eq_ok, Check.pure_eq_ok, Except.ok.injEq, not_or, not_lt, Bool.not_eq_false] at h
      obtain ⟨totals, ⟨htiles, rfl⟩, ⟨htileBytes, hcolumnBytes⟩, hwovr, offset, ⟨haligned, rfl⟩,
        hfits, hallowed, rfl⟩ := h
      rw [hpacked] at hcolumnBytes hfits hallowed
      have hsub : containerSize [overviewPart data overview] - payloadStart 1 =
          (overviewPart data overview).size := by omega
      rw [hpacked, hflags, hsub, ← hlength, ← htwo]
      rw [hsub] at haligned
      rw [hsub, ← hlength] at hfits
      rw [hsub, ← hlength, ← htwo] at hallowed
      refine ⟨fun _ => ⟨htiles, by omega, hallowed⟩, ?_⟩
      rw [waveformLayout, if_neg hne]
  · rintro ⟨overview, hwritable, hdetail, rfl⟩
    have hone := containerSize_one data overview
    refine Check.bind_eq_ok.mpr ⟨_, resultQuerySerializedSizeWovr_eq_ok.mpr
      ⟨overview, hwritable, rfl⟩, Check.bind_eq_ok.mpr ⟨(), Check.rejectIf_eq_ok.mpr (by omega),
      ?_⟩⟩
    split
    case isTrue hnone =>
      rw [waveformLayout, if_pos (detailParts_eq_nil.mpr hnone)]
      rfl
    case isFalse hsome =>
      have hne : detailParts data ≠ [] := fun hnil => hsome (detailParts_eq_nil.mp hnil)
      obtain ⟨htiles, hsize, hallowed⟩ := hdetail hne
      have htwo := @containerSize_two data overview hne
      have hlength := length_wdtlPayload data.detailTiles
      have hsub : containerSize [overviewPart data overview] - payloadStart 1 =
          (overviewPart data overview).size := by omega
      have hstart := @le_alignUp sectionAlignment (by decide)
        (payloadStart 2 + (overviewPart data overview).size)
      rw [waveformLayout, if_neg hne]
      simp only [Check.bind_eq_ok, wdtlMeasureTiles_eq_ok, Check.rejectIf_eq_ok, exists_const,
        align8_eq_ok, Check.pure_eq_ok, Except.ok.injEq, not_or, not_lt, Bool.not_eq_false]
      refine ⟨_, ⟨htiles, rfl⟩, ⟨by omega, by rw [hpacked]; omega⟩, by omega, _, ⟨?_, rfl⟩,
        ?_, ?_, ?_⟩
      · rw [hsub]
        omega
      · rw [hpacked, hsub, ← hlength]
        omega
      · rw [hpacked, hsub, ← hlength, ← htwo]
        exact hallowed
      · rw [hpacked, hflags, hsub, ← hlength, ← htwo]

/-- The size query of the detail layer. -/
theorem resultQuerySerializedSizeWaveform_eq_ok {size : ℕ} :
    resultQuerySerializedSizeWaveform data options = .ok size ↔
      ∃ overview, OverviewWritable data options overview ∧
        (detailParts data ≠ [] → DetailWritable data options overview) ∧
        size = containerSize (waveformParts data overview) := by
  have hsize : ∀ overview, (waveformLayout data overview).totalSize =
      containerSize (waveformParts data overview) := by
    intro overview
    rw [waveformLayout]
    split
    case isTrue hnil => rw [waveformParts, hnil]
    case isFalse => rfl
  rw [resultQuerySerializedSizeWaveform, Check.bind_eq_ok]
  simp only [wdtlCalculateLayout_eq_ok, Check.pure_eq_ok, Except.ok.injEq]
  constructor
  · rintro ⟨_, ⟨overview, hwritable, hdetail, rfl⟩, rfl⟩
    exact ⟨overview, hwritable, hdetail, hsize overview⟩
  · rintro ⟨overview, hwritable, hdetail, rfl⟩
    exact ⟨_, ⟨overview, hwritable, hdetail, rfl⟩, hsize overview⟩

/-- The flags of an overview fit the header. -/
theorem overviewContainerFlags_lt (data : ResultData) (overview : Overview) :
    overviewContainerFlags data overview < 256 ^ 4 := by
  rw [overviewContainerFlags]
  split <;> split <;> decide

/-- The flags of tiles fit the header. -/
theorem tileFlags_lt (tiles : List Tile) : tileFlags tiles < 256 ^ 4 := by
  rw [tileFlags]
  split <;> decide

/-- Patching the flags, the count and the size of a header. -/
theorem patch_headerBytes (hfingerprint : data.fingerprint.length = 32)
    (flags flags' count count' total total' : ℕ) :
    patch (patch (patch (headerBytes data flags count total) 16 (encode 4 flags')) 20
      (encode 4 count')) 32 (encode 8 total') = headerBytes data flags' count' total' := by
  rw [headerBytes, headerBytes, magic_eq, encode_fingerprint hfingerprint]
  simp (disch := decide) only [List.append_assoc, patch_skip, patch_number, Nat.reduceSub]

/-- The back of some bytes. -/
theorem slice_back {front back : Bytes} {start : ℕ} (h : start = front.length) :
    slice (front ++ back) start back.length = back := by
  rw [slice, h, List.drop_left, List.take_length]

theorem forall_mem_overviewPart (data : ResultData) (overview : Overview) :
    ∀ part ∈ [overviewPart data overview], part.1.isStandard = true := by
  rintro part hpart
  rw [List.mem_singleton.mp hpart]
  rfl

/-- A container with an overview and detail tiles. -/
theorem containerOf_detail (data : ResultData) (flags : ℕ) (overview : Overview)
    (hne : detailParts data ≠ []) :
    containerOf data flags (waveformParts data overview) =
      sealHeader (headerBytes data flags 2 (containerSize (waveformParts data overview))) ++
        (recordOf SectionTag.overview.bytes (overviewPart data overview).2 (2 ^ flagRequired)
            (payloadStart 2) ++
          (recordOf SectionTag.detail.bytes (wdtlPayload data.detailTiles) 0
              (alignUp sectionAlignment (payloadStart 2 + (overviewPart data overview).size)) ++
            ((overviewPart data overview).2 ++ (List.replicate
              (alignUp sectionAlignment (payloadStart 2 + (overviewPart data overview).size) -
                (payloadStart 2 + (overviewPart data overview).size)) 0 ++
              wdtlPayload data.detailTiles)))) := by
  have htwo : (waveformParts data overview).length = 2 := by
    rw [waveformParts, detailParts_of_ne_nil hne]
    rfl
  rw [containerOf, placeParts, packParts, htwo, waveformParts, detailParts_of_ne_nil hne]
  simp only [place, pack, alignUp_of_dvd (by decide : 0 < sectionAlignment) (dvd_payloadStart 2),
    Nat.sub_self, List.map_cons, List.map_nil, List.flatten_cons, List.flatten_nil,
    List.replicate_zero, List.nil_append, List.append_nil, List.append_assoc]
  rfl

/-- The detail layer writes the assembled container. -/
theorem resultSerializeWaveform_eq (hfingerprint : data.fingerprint.length = 32)
    (capacity : ℕ) :
    resultSerializeWaveform data options capacity = do
      let layout ← wdtlCalculateLayout data options
      requireRoom capacity layout.totalSize
      let overview ← requireOverview data
      return containerOf data (overviewContainerFlags data overview ||| detailFlags data)
        (waveformParts data overview) := by
  refine Check.bind_congr_ok fun layout hlayout => ?_
  refine Check.bind_congr_ok fun _ hroom => ?_
  obtain ⟨overview, hwritable, hdetail, rfl⟩ := wdtlCalculateLayout_eq_ok.mp hlayout
  obtain ⟨hsmall, hcapacity⟩ := requireRoom_eq_ok.mp hroom
  have hpresent : requireOverview data = .ok overview :=
    requireOverview_eq_ok.mpr hwritable.present
  have hbaseLe : containerSize [overviewPart data overview] ≤
      (waveformLayout data overview).totalSize := by
    rw [waveformLayout]
    split
    case isTrue => exact le_rfl
    case isFalse =>
      have hgrow := containerSize_add_le [overviewPart data overview] (detailParts data)
      exact (Nat.le_add_right _ _).trans hgrow
  have hbase : resultSerializeWovr data options capacity = .ok (containerOf data
      (overviewContainerFlags data overview) [overviewPart data overview]) := by
    rw [resultSerializeWovr_eq]
    refine Check.bind_eq_ok.mpr ⟨_, serializationCalculateLayout_eq_ok.mpr
      ⟨overview, hwritable, rfl⟩, Check.bind_eq_ok.mpr ⟨(), ?_, ?_⟩⟩
    · exact requireRoom_eq_ok.mpr ⟨hwritable.size, hbaseLe.trans hcapacity⟩
    · rw [hpresent]
      rfl
  rw [hbase, hpresent, Check.ok_bind, Check.ok_bind]
  by_cases hnil : detailParts data = []
  · rw [waveformLayout, if_pos hnil, if_pos rfl, detailFlags, if_pos hnil, Nat.or_zero,
      waveformParts, hnil]
  · have hlength : (containerOf data (overviewContainerFlags data overview)
        [overviewPart data overview]).length = containerSize [overviewPart data overview] :=
      size_containerOf hfingerprint (forall_mem_overviewPart data overview) _
    obtain ⟨hflags, -, -⟩ := @header_fields data hfingerprint _ _
      (containerSize [overviewPart data overview]) (overviewContainerFlags_lt data overview)
      (by decide : 1 < 256 ^ 4)
      (recordOf SectionTag.overview.bytes (overviewPart data overview).2 (2 ^ flagRequired)
        (payloadStart 1) ++ (overviewPart data overview).2)
    have htake : (containerOf data (overviewContainerFlags data overview)
        [overviewPart data overview]).take 92 = headerBytes data
          (overviewContainerFlags data overview) 1 (containerSize [overviewPart data overview]) := by
      rw [containerOf_overview, sealHeader, List.append_assoc,
        ← length_headerBytes hfingerprint (overviewContainerFlags data overview) 1
          (containerSize [overviewPart data overview]), List.take_left]
    have hpayload : slice (containerOf data (overviewContainerFlags data overview)
        [overviewPart data overview]) (payloadStart 1) (overviewPart data overview).size =
        (overviewPart data overview).2 := by
      have hfront : payloadStart 1 = (sealHeader (headerBytes data
          (overviewContainerFlags data overview) 1 (containerSize [overviewPart data overview])) ++
          recordOf SectionTag.overview.bytes (overviewPart data overview).2 (2 ^ flagRequired)
            (payloadStart 1)).length := by
        rw [List.length_append, length_sealHeader (length_headerBytes hfingerprint _ _ _),
          length_recordOf rfl, payloadStart, Nat.one_mul]
      rw [containerOf_overview, ← List.append_assoc]
      exact slice_back hfront
    rw [← containerOf_overview] at hflags
    rw [waveformLayout, if_neg hnil, if_neg Bool.false_ne_true.symm, detailFlags, if_neg hnil]
    refine Check.bind_eq_ok.mpr ⟨(), Check.rejectIf_eq_ok.mpr (not_not.mpr hlength), ?_⟩
    rw [htake, hflags, hpayload]
    dsimp only
    rw [patch_headerBytes hfingerprint]
    exact congrArg Except.ok (containerOf_detail data _ overview hnil).symm

end Detail

end LibApta.Container
