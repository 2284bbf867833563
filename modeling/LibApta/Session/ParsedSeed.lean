import LibApta.Serialization.Guarantees
import LibApta.Serialization.WaveformWriter
import LibApta.Session.AcceptedSet

/-!
# A parsed result as the seed of a session

What seeding reads of a parsed result, and how the parser has placed its columns: every span starts
at the frame of its first column, counted from the origin of the level, and ends in or at the end of
its last. Seeding reads neither the origin nor the state of the overview.
-/

namespace LibApta.Container

/-! ## What seeding reads -/

/-- The column as seeding reads it. -/
def Column.view (column : Column) : WaveformColumn where
  minimum := column.minimum
  maximum := column.maximum
  rms := column.rms
  low := column.low
  mid := column.mid
  high := column.high
  clipped := column.flags.testBit columnFlagClipped
  has3Band := column.has3Band

/-- The span as seeding reads it. -/
def Span.view (span : Span) : WaveformSpan where
  firstColumnIndex := span.firstColumnIndex
  sourceRange := span.sourceRange
  columns := span.columns.map Column.view

/-- The overview as seeding reads it. -/
def Overview.view (overview : Overview) : OverviewView where
  framesPerColumn := overview.framesPerColumn
  confidence := overview.confidence
  state := .part
  spans := overview.spans.map Span.view

/-- The result as seeding reads it: the features, the source and the overview. -/
def ResultData.view (data : ResultData) : Result where
  generation := data.generation
  changedFeatures := data.changedFeatures
  availableFeatures := data.availableFeatures
  sessionState := data.sessionState
  source := {
    totalFrames :=
      if data.totalSourceFrames = totalFramesUnknown then none else some data.totalSourceFrames
    sampleRate := data.sourceSampleRate
    channelCount := data.sourceChannelCount
    channelLayout := data.sourceChannelLayout
    fingerprint :=
      if data.fingerprintKind = 0 then none
      else some (data.fingerprintKind, data.fingerprint.map UInt8.toNat) }
  metadata := data.metadata
  overview := data.overview.map Overview.view
  detailTiles := []
  tempo := none
  localGrid := none
  globalGrid := none

/-! ## Where the parser places columns -/

/-- The values of a parsed column. -/
structure Column.Parsed (column : Column) : Prop where
  valid : column.flags.testBit columnFlagValid = true
  minimum : FitsSigned 65536 column.minimum
  maximum : FitsSigned 65536 column.maximum
  rms : column.rms < 65536

/-- A span lies where its columns do, counted from the origin. Only the last column may be cut. -/
structure Span.Placed (framesPerColumn originFrame : ℕ) (span : Span) : Prop where
  columns : ∀ column ∈ span.columns, column.Parsed
  nonempty : span.columns ≠ []
  first : span.sourceRange.firstFrame = originFrame + span.firstColumnIndex * framesPerColumn
  reaches : originFrame + span.endColumn * framesPerColumn <
    span.sourceRange.endFrame + framesPerColumn
  ends : span.sourceRange.endFrame ≤ originFrame + span.endColumn * framesPerColumn

/-- The spans of an overview are placed, in order. -/
structure Overview.Placed (overview : Overview) : Prop where
  framesPerColumn : 0 < overview.framesPerColumn
  nonempty : overview.spans ≠ []
  spans : ∀ span ∈ overview.spans, span.Placed overview.framesPerColumn overview.originFrame
  frames : overview.spans.Pairwise fun span later =>
    span.sourceRange.endFrame ≤ later.sourceRange.firstFrame

/-- Spans that are in order by their frames are so by their columns. -/
theorem Span.Placed.follows {framesPerColumn originFrame : ℕ} {span later : Span}
    (h : span.Placed framesPerColumn originFrame)
    (hlater : later.Placed framesPerColumn originFrame)
    (hframes : span.sourceRange.endFrame ≤ later.sourceRange.firstFrame) :
    span.endColumn ≤ later.firstColumnIndex := by
  have hreaches := h.reaches
  have hfirst := hlater.first
  have hlt : span.endColumn * framesPerColumn < (later.firstColumnIndex + 1) * framesPerColumn := by
    rw [Nat.add_mul, Nat.one_mul]
    omega
  exact Nat.le_of_lt_succ (lt_of_mul_lt_mul_right hlt (Nat.zero_le _))

/-- A placed span has frames. -/
theorem Span.Placed.range_nonempty {framesPerColumn originFrame : ℕ} {span : Span}
    (h : span.Placed framesPerColumn originFrame) :
    span.sourceRange.firstFrame < span.sourceRange.endFrame := by
  have hreaches := h.reaches
  have hlast : (span.firstColumnIndex + 1) * framesPerColumn ≤ span.endColumn * framesPerColumn :=
    Nat.mul_le_mul_right _ (Nat.add_le_add_left (List.length_pos_iff.mpr h.nonempty) _)
  rw [Nat.add_mul, Nat.one_mul] at hlast
  rw [h.first]
  omega

/-- The columns of a stretch of frames, but for the last, are full. -/
theorem requiredColumns_reaches {framesPerColumn frames : ℕ} (hpos : 0 < framesPerColumn) :
    requiredColumns framesPerColumn frames * framesPerColumn < frames + framesPerColumn := by
  have hdiv := Nat.div_add_mod frames framesPerColumn
  have hmod := Nat.mod_lt frames hpos
  unfold requiredColumns
  rw [Nat.add_mul, Nat.mul_comm (frames / framesPerColumn)]
  split_ifs with hrest
  · omega
  · rw [Nat.one_mul]
    omega

theorem columnTable_parsed {strict : Bool} {bytes : Bytes} {offset count : ℕ}
    (hok : ∀ column ∈ columnTable bytes offset count, ColumnOk strict column) :
    ∀ column ∈ columnTable bytes offset count, column.Parsed := by
  intro column hmem
  have hvalid := (hok column hmem).valid
  obtain ⟨record, -, rfl⟩ := List.mem_map.mp hmem
  exact ⟨hvalid, fitsSigned_signed LittleEndian.field_lt, fitsSigned_signed LittleEndian.field_lt,
    LittleEndian.field_lt⟩

/-- The spans that the geometry check accepts are placed. -/
theorem GeometryOk.placed {strict : Bool} {input : WovrInput} {header : WovrHeader}
    {spans : List SpanEntry} (h : GeometryOk strict input header spans) {entry : SpanEntry}
    (hmem : entry ∈ spans) :
    (spanOf input.payload header entry).Placed header.framesPerColumn header.originFrame := by
  have hframes := h.frames entry hmem
  have hlength : (spanOf input.payload header entry).columns.length = entry.columnCount := by
    show (columnTable _ _ _).length = _
    rw [columnTable, List.length_map, LittleEndian.length_records]
  have hend : (spanOf input.payload header entry).endColumn = entry.endColumn := by
    rw [Span.endColumn, hlength]
    rfl
  have hpos := Nat.pos_of_ne_zero h.headerOk.framesPerColumn
  have hfirst := hframes.first
  have hne := hframes.frames
  refine ⟨columnTable_parsed (h.data entry hmem).columns, ?_, hframes.first, ?_, ?_⟩
  · exact List.ne_nil_of_length_pos (hlength ▸ Nat.pos_of_ne_zero hframes.columns)
  · rw [hend]
    show _ < entry.endFrame + _
    rcases hframes.last with hwhole | ⟨hknown, htotal, hlogical, -⟩
    · omega
    · obtain ⟨horigin, hcount⟩ := h.columnCount hknown
      have hreaches : requiredColumns header.framesPerColumn
          (input.header.totalSourceFrames - header.originFrame) * header.framesPerColumn < _ :=
        requiredColumns_reaches hpos
      rw [hcount, ← hlogical] at hreaches
      omega
  · rw [hend]
    show entry.endFrame ≤ _
    rcases hframes.last with hwhole | ⟨-, htotal, -, hcut⟩
    · exact hwhole.le
    · exact htotal ▸ hcut.le

section Stages

variable {options : Option ParseOptions} {bytes : Bytes} {data data' : ResultData}

theorem DetailStep.overview (h : DetailStep options bytes data data') :
    data'.overview = data.overview := by
  rw [DetailStep] at h
  split_ifs at h
  · rw [h]
  · rw [h.2, withDetail]

theorem MetadataStep.overview (h : MetadataStep bytes data data') :
    data'.overview = data.overview := by
  obtain ⟨-, rfl⟩ | ⟨_, _, -, -, -, rfl⟩ := h <;> rfl

theorem LocalGridStep.overview (h : LocalGridStep options bytes data data') :
    data'.overview = data.overview := by
  obtain ⟨-, rfl⟩ | ⟨_, -, -, -, rfl⟩ := h <;> rfl

theorem TempoStep.overview (h : TempoStep options bytes data data') :
    data'.overview = data.overview := by
  obtain ⟨-, -, rfl⟩ | ⟨_, -, -, hlocal⟩ := h
  · rfl
  · exact hlocal.overview.trans rfl

theorem GridStep.overview (h : GridStep options bytes data data') :
    data'.overview = data.overview := by
  obtain ⟨-, -, rfl⟩ | ⟨_, _, -, -, -, -, -, -, rfl⟩ := h <;> rfl

/-- A parsed result has an overview whose spans are placed. -/
theorem Accepts.placed {input : WovrInput} {header : WovrHeader} {spans : List SpanEntry}
    (h : Accepts options bytes input header spans data) :
    ∃ overview, data.overview = some overview ∧ overview.Placed := by
  obtain ⟨_, _, _, hdetail, hmeta, htempo, hgrid⟩ := h.steps
  have hoverview := hgrid.overview.trans (htempo.overview.trans (hmeta.overview.trans
    hdetail.overview))
  have hgeometry := h.base.geometry
  refine ⟨_, hoverview, Nat.pos_of_ne_zero hgeometry.headerOk.framesPerColumn, ?_, ?_, ?_⟩
  · intro hnil
    have hlength : spans.length = header.spanCount := by
      rw [hgeometry.spans_eq, length_spanTable]
    rw [List.map_eq_nil_iff.mp hnil] at hlength
    exact hgeometry.headerOk.spans hlength.symm
  · exact List.forall_mem_map.mpr fun entry hmem => hgeometry.placed hmem
  · exact List.pairwise_map.mpr (wellFormedOverview hgeometry h.hardening).sorted

end Stages

end LibApta.Container
