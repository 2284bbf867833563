import LibApta.Session.FirstPublication
import LibApta.Session.ParsedSeed
import LibApta.Session.SeedStore
import LibApta.Waveform.Spans
import Mathlib.Data.Finset.Max

/-!
# Fidelity of seeding

What the first overview after a seed shows of the parsed one. The columns come back at the frames of
their indices, whole and without bands, so the overview is reproduced exactly when its level has no
origin, its last columns are whole and its columns carry nothing that seeding leaves behind.
-/

namespace LibApta

namespace Container

/-- A parsed overview has a valid column at a range of frames. -/
def Overview.Holds (overview : Overview) (range : FrameRange) (column : Column) : Prop :=
  ∃ span ∈ overview.spans, ∃ k, span.columns[k]? = some column ∧
    column.flags.testBit columnFlagValid = true ∧
    range = span.sourceRange.columnFrames overview.framesPerColumn k

/-- The frames of the spans of a parsed overview. -/
def Overview.frames (overview : Overview) : Set ℕ :=
  {frame | ∃ span ∈ overview.spans, frame ∈ span.sourceRange.frames}

/-- The flags of a published column. -/
def publishedFlags (clipped has3Band : Bool) : ℕ :=
  2 ^ columnFlagValid + (if clipped then 2 ^ columnFlagClipped else 0) +
    (if has3Band then 2 ^ columnFlagHas3Band else 0)

/-- A published column is the parsed one: the peaks and the root mean square to within one count, the
bands and the flags exactly. -/
structure Column.Agrees (column : Column) (shown : WaveformColumn) : Prop where
  minimum : |shown.minimum - column.minimum| ≤ 1
  maximum : |shown.maximum - column.maximum| ≤ 1
  rms : |(shown.rms : ℤ) - column.rms| ≤ 1
  low : shown.low = column.low
  mid : shown.mid = column.mid
  high : shown.high = column.high
  flags : publishedFlags shown.clipped shown.has3Band = column.flags

/-- A session with these accepted frames has been seeded faithfully if it then publishes this view. -/
structure Overview.Reproduced (overview : Overview) (accepted : Set ℕ) (view : OverviewView) :
    Prop where
  accepted : ∀ frame, frame ∈ accepted ↔ frame ∈ overview.frames
  contained : ∀ range column, overview.Holds range column →
    ∃ shown, view.Shows range shown ∧ column.Agrees shown
  only : ∀ range shown, view.Shows range shown →
    ∃ column, overview.Holds range column ∧ column.Agrees shown
  covered : ∀ frame ∈ overview.frames, ∃ range shown, view.Shows range shown ∧ frame ∈ range.frames

/-- What seeding can bring back: a level without an origin, whole columns, and no values of bands. The
flags are those of a session that computes the bands or does not. -/
structure Overview.Seedable (overview : Overview) (hasBands : Bool) : Prop where
  origin : overview.originFrame = 0
  whole : ∀ span ∈ overview.spans,
    span.sourceRange.endFrame = span.endColumn * overview.framesPerColumn
  bands : ∀ span ∈ overview.spans, ∀ column ∈ span.columns,
    column.low = 0 ∧ column.mid = 0 ∧ column.high = 0
  flags : ∀ span ∈ overview.spans, ∀ column ∈ span.columns,
    column.flags = publishedFlags (column.flags.testBit columnFlagClipped) hasBands

/-! ## One column -/

theorem testBit_publishedFlags (clipped has3Band : Bool) :
    (publishedFlags clipped has3Band).testBit columnFlagClipped = clipped := by
  cases clipped <;> cases has3Band <;> decide

/-- The column that is shown for a seeded one. -/
theorem waveformColumn_seeded (hasBands : Bool) (columnIndex sampleCount : ℕ)
    (column : WaveformColumn) :
    waveformColumn hasBands (seededAccumulator columnIndex sampleCount column) =
      { minimum := quantizePeak (fdiv column.minimum 32767)
        maximum := quantizePeak (fdiv column.maximum 32767)
        rms := quantizeRms (seededMagnitude column.rms * seededMagnitude column.rms * sampleCount)
          sampleCount
        low := 0
        mid := 0
        high := 0
        clipped := column.clipped
        has3Band := hasBands } := by
  have hband : (if hasBands then quantizeBand 0 sampleCount else 0) = 0 := by
    simp [quantizeBand]
  simp only [waveformColumn, seededAccumulator, hband]

/-- A seeded column is reproduced exactly when it carries no bands and no other flags. -/
theorem Column.Parsed.agrees_iff {column : Column} (h : column.Parsed) (hasBands : Bool)
    (columnIndex : ℕ) {sampleCount : ℕ} (hpos : 0 < sampleCount) (hcount : sampleCount ≤ 65536) :
    column.Agrees (waveformColumn hasBands
        (seededAccumulator columnIndex sampleCount column.view)) ↔
      (column.low = 0 ∧ column.mid = 0 ∧ column.high = 0) ∧
        column.flags = publishedFlags (column.flags.testBit columnFlagClipped) hasBands := by
  have hminimum := h.minimum
  have hmaximum := h.maximum
  have hrms := h.rms
  simp only [FitsSigned] at hminimum hmaximum
  rw [waveformColumn_seeded]
  constructor
  · intro hagrees
    exact ⟨⟨hagrees.low.symm, hagrees.mid.symm, hagrees.high.symm⟩, hagrees.flags.symm⟩
  · rintro ⟨⟨hlow, hmid, hhigh⟩, hflags⟩
    refine ⟨abs_quantizePeak_sub_le ?_ ?_, abs_quantizePeak_sub_le ?_ ?_, ?_, hlow.symm,
      hmid.symm, hhigh.symm, hflags.symm⟩
    all_goals try (simp only [Column.view]; omega)
    show |(quantizeRms (seededMagnitude column.rms * seededMagnitude column.rms * sampleCount)
      sampleCount : ℤ) - column.rms| ≤ 1
    rw [quantizeRms_seeded (by omega) hpos hcount, sub_self, abs_zero]
    exact zero_le_one

/-! ## All columns -/

/-- The frames of an overview column. -/
def columnRange (framesPerColumn columnIndex : ℕ) : FrameRange :=
  ⟨columnIndex * framesPerColumn, (columnIndex + 1) * framesPerColumn⟩

/-- What a session that computes bands or does not shows for the columns of a seeded overview. Each
column stands for a number of frames that depends on its index. -/
def Overview.Seeded (overview : Overview) (hasBands : Bool) (count : ℕ → ℕ) (range : FrameRange)
    (shown : WaveformColumn) : Prop :=
  ∃ span ∈ overview.spans, ∃ k column, span.columns[k]? = some column ∧
    shown = waveformColumn hasBands (seededAccumulator (span.firstColumnIndex + k)
      (count (span.firstColumnIndex + k)) column.view) ∧
    range = columnRange overview.framesPerColumn (span.firstColumnIndex + k)

/-- A view, with the accepted frames, is that of a session seeded from a parsed overview. -/
structure Overview.Seeds (overview : Overview) (hasBands : Bool) (count : ℕ → ℕ) (accepted : Set ℕ)
    (view : OverviewView) : Prop where
  placed : overview.Placed
  accepted : ∀ frame, frame ∈ accepted ↔ frame ∈ overview.frames
  counts : ∀ span ∈ overview.spans, ∀ k < span.endColumn, 0 < count k ∧ count k ≤ 65536
  shows : ∀ range shown, view.Shows range shown ↔ overview.Seeded hasBands count range shown

variable {overview : Overview} {hasBands : Bool} {count : ℕ → ℕ} {view : OverviewView}
  {accepted : Set ℕ}

/-- The spans that seeding reads of a placed overview have their columns in order. -/
theorem Overview.Placed.columns_ordered (h : overview.Placed) :
    overview.view.spans.Pairwise fun span later => span.endColumn ≤ later.firstColumnIndex := by
  refine List.pairwise_map.mpr (h.frames.imp_of_mem fun {span later} hspan hlater hle => ?_)
  show span.firstColumnIndex + (span.columns.map Column.view).length ≤ _
  rw [List.length_map]
  exact (h.spans span hspan).follows (h.spans later hlater) hle

/-- A column of a span lies before its end. -/
theorem Span.lt_endColumn {span : Span} {k : ℕ} {column : Column}
    (h : span.columns[k]? = some column) : span.firstColumnIndex + k < span.endColumn :=
  Nat.add_lt_add_left (List.getElem?_eq_some_iff.mp h).1 _

/-- The last column of a placed span ends with the span. -/
theorem Span.Placed.columnFrames_last {framesPerColumn originFrame : ℕ} {span : Span}
    (h : span.Placed framesPerColumn originFrame) :
    ∃ column ∈ span.columns, span.columns[span.columns.length - 1]? = some column ∧
      span.sourceRange.columnFrames framesPerColumn (span.columns.length - 1) =
        ⟨originFrame + (span.endColumn - 1) * framesPerColumn, span.sourceRange.endFrame⟩ := by
  have hpos := List.length_pos_iff.mpr h.nonempty
  have hlt : span.columns.length - 1 < span.columns.length := by omega
  refine ⟨_, List.getElem_mem hlt, List.getElem?_eq_getElem hlt, ?_⟩
  have hends := h.ends
  unfold FrameRange.columnFrames
  rw [h.first, Nat.sub_add_cancel hpos, Nat.add_assoc, Nat.add_assoc, ← Nat.add_mul, ← Nat.add_mul]
  refine congrArg₂ FrameRange.mk ?_ (min_eq_right hends)
  rw [Span.endColumn, Nat.add_sub_assoc hpos]

/-- Without an origin and with whole columns, a column has the frames of its index. -/
theorem Span.Placed.columnFrames_whole {framesPerColumn : ℕ} {span : Span}
    (h : span.Placed framesPerColumn 0)
    (hwhole : span.sourceRange.endFrame = span.endColumn * framesPerColumn) {k : ℕ}
    {column : Column} (hget : span.columns[k]? = some column) :
    span.sourceRange.columnFrames framesPerColumn k =
      columnRange framesPerColumn (span.firstColumnIndex + k) := by
  have hle : (span.firstColumnIndex + k + 1) * framesPerColumn ≤ span.endColumn * framesPerColumn :=
    Nat.mul_le_mul_right _ (Span.lt_endColumn hget)
  unfold FrameRange.columnFrames columnRange
  rw [h.first, hwhole, Nat.zero_add, ← Nat.add_mul, ← Nat.add_mul, ← Nat.add_assoc, min_eq_left hle]

/-- Faithful seeding leaves no room for an origin: the last column would lie behind all shown ones. -/
theorem Overview.Reproduced.origin (h : overview.Reproduced accepted view)
    (hseeds : overview.Seeds hasBands count accepted view) : overview.originFrame = 0 := by
  have hplaced := hseeds.placed
  obtain ⟨last, hlast, hmax⟩ := Finset.exists_max_image overview.spans.toFinset Span.endColumn
    (List.toFinset_nonempty_iff _ |>.mpr hplaced.nonempty)
  have hspan := hplaced.spans last (List.mem_toFinset.mp hlast)
  obtain ⟨column, hmem, hget, hframes⟩ := hspan.columnFrames_last
  obtain ⟨shown, hshown, -⟩ := h.contained _ column
    ⟨last, List.mem_toFinset.mp hlast, _, hget, (hspan.columns column hmem).valid, rfl⟩
  obtain ⟨span, hother, k, found, hfound, -, hrange⟩ := (hseeds.shows _ _).mp hshown
  rw [hframes] at hrange
  have hfirst : overview.originFrame + (last.endColumn - 1) * overview.framesPerColumn =
      (span.firstColumnIndex + k) * overview.framesPerColumn :=
    congrArg FrameRange.firstFrame hrange
  have hbefore : span.firstColumnIndex + k ≤ last.endColumn - 1 :=
    Nat.le_sub_one_of_lt ((Span.lt_endColumn hfound).trans_le
      (hmax span (List.mem_toFinset.mpr hother)))
  have hle := Nat.mul_le_mul_right overview.framesPerColumn hbefore
  omega

/-- Faithful seeding leaves no room for a cut column, nor for bands or other flags. -/
theorem Overview.Reproduced.seedable (h : overview.Reproduced accepted view)
    (hseeds : overview.Seeds hasBands count accepted view) : overview.Seedable hasBands := by
  have hplaced := hseeds.placed
  have horigin := h.origin hseeds
  have hcarries : ∀ span ∈ overview.spans, ∀ column ∈ span.columns,
      (column.low = 0 ∧ column.mid = 0 ∧ column.high = 0) ∧
        column.flags = publishedFlags (column.flags.testBit columnFlagClipped) hasBands := by
    intro span hspan column hcolumn
    obtain ⟨k, hget⟩ := List.mem_iff_getElem?.mp hcolumn
    obtain ⟨shown, hshown, hagrees⟩ := h.contained _ column
      ⟨span, hspan, k, hget, ((hplaced.spans span hspan).columns column hcolumn).valid, rfl⟩
    obtain ⟨_, -, _, found, -, rfl, -⟩ := (hseeds.shows _ _).mp hshown
    rw [waveformColumn_seeded] at hagrees
    have hflags : publishedFlags found.view.clipped hasBands = column.flags := hagrees.flags
    refine ⟨⟨hagrees.low.symm, hagrees.mid.symm, hagrees.high.symm⟩, ?_⟩
    rw [← hflags, testBit_publishedFlags]
  refine ⟨horigin, fun span hspan => ?_, fun span hspan column hcolumn =>
    (hcarries span hspan column hcolumn).1, fun span hspan column hcolumn =>
    (hcarries span hspan column hcolumn).2⟩
  have hspan' := hplaced.spans span hspan
  obtain ⟨column, hmem, hget, hframes⟩ := hspan'.columnFrames_last
  obtain ⟨shown, hshown, -⟩ := h.contained _ column
    ⟨span, hspan, _, hget, (hspan'.columns column hmem).valid, rfl⟩
  obtain ⟨other, -, k, _, -, -, hrange⟩ := (hseeds.shows _ _).mp hshown
  rw [hframes, horigin, Nat.zero_add] at hrange
  have hfirst : (span.endColumn - 1) * overview.framesPerColumn =
      (other.firstColumnIndex + k) * overview.framesPerColumn :=
    congrArg FrameRange.firstFrame hrange
  have hend : span.sourceRange.endFrame =
      (other.firstColumnIndex + k + 1) * overview.framesPerColumn :=
    congrArg FrameRange.endFrame hrange
  have hpos : 0 < span.endColumn :=
    Nat.add_pos_right _ (List.length_pos_iff.mpr hspan'.nonempty)
  rw [hend, ← Nat.eq_of_mul_eq_mul_right hplaced.framesPerColumn hfirst, Nat.sub_add_cancel hpos]

/-- What can be brought back is. -/
theorem Overview.Seedable.reproduced (h : overview.Seedable hasBands)
    (hseeds : overview.Seeds hasBands count accepted view) : overview.Reproduced accepted view := by
  have hplaced := hseeds.placed
  have hshows := hseeds.shows
  have hspan : ∀ span ∈ overview.spans, span.Placed overview.framesPerColumn 0 :=
    fun span hmem => h.origin ▸ hplaced.spans span hmem
  have hagrees : ∀ span ∈ overview.spans, ∀ (k : ℕ) (column : Column), span.columns[k]? = some column →
      column.Agrees (waveformColumn hasBands (seededAccumulator (span.firstColumnIndex + k)
        (count (span.firstColumnIndex + k)) column.view)) := by
    intro span hmem k column hget
    have hcolumn := List.mem_of_getElem? hget
    obtain ⟨hpos, hsmall⟩ := hseeds.counts span hmem _ (Span.lt_endColumn hget)
    exact (((hspan span hmem).columns column hcolumn).agrees_iff hasBands _ hpos hsmall).mpr
      ⟨h.bands span hmem column hcolumn, h.flags span hmem column hcolumn⟩
  refine ⟨hseeds.accepted, ?_, ?_, ?_⟩
  · rintro _ column ⟨span, hmem, k, hget, -, rfl⟩
    exact ⟨_, (hshows _ _).mpr ⟨span, hmem, k, column, hget, rfl,
      (hspan span hmem).columnFrames_whole (h.whole span hmem) hget⟩, hagrees span hmem k column hget⟩
  · intro range shown hshown
    obtain ⟨span, hmem, k, column, hget, rfl, rfl⟩ := (hshows _ _).mp hshown
    exact ⟨column, ⟨span, hmem, k, hget,
      ((hspan span hmem).columns column (List.mem_of_getElem? hget)).valid,
      ((hspan span hmem).columnFrames_whole (h.whole span hmem) hget).symm⟩,
      hagrees span hmem k column hget⟩
  · rintro frame ⟨span, hmem, hlow, hhigh⟩
    have hpos := hplaced.framesPerColumn
    rw [(hspan span hmem).first, Nat.zero_add] at hlow
    rw [h.whole span hmem] at hhigh
    -- The column whose frames hold the frame lies in the span.
    have hfirst : span.firstColumnIndex ≤ frame / overview.framesPerColumn :=
      (Nat.le_div_iff_mul_le hpos).mpr hlow
    have hend : frame / overview.framesPerColumn < span.endColumn :=
      (Nat.div_lt_iff_lt_mul hpos).mpr hhigh
    obtain ⟨k, hk⟩ := Nat.exists_eq_add_of_le hfirst
    have hlt : k < span.columns.length := by
      rw [hk] at hend
      exact Nat.lt_of_add_lt_add_left hend
    refine ⟨_, _, (hshows _ _).mpr ⟨span, hmem, k, _, List.getElem?_eq_getElem hlt, rfl, rfl⟩, ?_⟩
    rw [← hk]
    exact ⟨Nat.div_mul_le_self _ _, (Nat.div_lt_iff_lt_mul hpos).mp (Nat.lt_succ_self _)⟩

end Container

namespace Session

/-! ## A new session -/

/-- The calls that prepare a session for its input. -/
def prepares : Op → Bool
  | .seedFromResult _ | .pushPcm _ | .signalEndOfInput _ | .process _ _ => false
  | _ => true

/-- The session has neither columns nor accepted frames. -/
structure Fresh (s : Session) : Prop where
  state : s.state = .created
  endOfInput : s.endOfInput = none
  queue : s.queue = []
  accumulators : s.overview.accumulators = []
  completeCount : s.overview.completeCount = 0
  ranges : s.accepted.ranges = []
  greatestEnd : s.accepted.greatestEnd = 0
  maximumEnd : s.accepted.maximumEnd = 0

namespace Fresh

variable {s s' t : Session}

theorem created (h : Created s) : Fresh s := by
  obtain ⟨config, libm, usesWorkspace, env, -, rfl⟩ := created_eq h
  exact ⟨rfl, rfl, rfl, rfl, rfl, rfl, rfl, rfl⟩

theorem same (h : Fresh s) (h' : SameTrack s s') : Fresh s' where
  state := h'.state.trans h.state
  endOfInput := h'.endOfInput.trans h.endOfInput
  queue := List.Perm.eq_nil (h.queue ▸ h'.queue)
  accumulators := h'.accumulators.trans h.accumulators
  completeCount := h'.completeCount.trans h.completeCount
  ranges := h'.ranges.trans h.ranges
  greatestEnd := h'.greatestEnd.trans h.greatestEnd
  maximumEnd := h'.maximumEnd.trans h.maximumEnd

theorem unannounced (h : Fresh s) (hun : Unannounced s s') : Fresh s' := by
  cases hun with
  | kept h' => exact h.same h'
  | forgotten h' =>
      have hforgotten : Fresh s.markPublicationPending :=
        { h with
          accumulators := by
            show s.overview.accumulators.map _ = []
            rw [h.accumulators, List.map_nil]
          completeCount := rfl }
      exact hforgotten.same h'

theorem prepared (h : Fresh s) {op : Op} (hop : prepares op = true) (ho : Outcome op s s') :
    Fresh s' := by
  cases ho with
  | kept _ h' => exact h.same h'
  | announced _ mask h' h'' =>
      have hpublished : Fresh (published mask _) := { h.same h' with }
      exact hpublished.same h''
  | unannounced _ h' hun => exact (h.same h').unannounced hun
  | fixed => exact { h with }
  | seeded | pushed | ended | processed | pulled | pulledProcessed => cases hop

/-- Preparing a session leaves it fresh. -/
theorem run (h : Fresh s) {setup : List Call} (hsetup : ∀ call ∈ setup, prepares call.op = true)
    (hrun : Session.run setup s = some s') : Fresh s' := by
  refine Runs.invariant (P := Fresh) ?_ h (Runs.guarded_of_forall hsetup s) hrun
  intro call t t' ht hop hstep
  exact (ht.same (withPlatform_sameTrack call t)).prepared hop (step_outcome hstep)

theorem tabled (h : Fresh s) : Tabled ∅ s where
  wellFormed := by
    refine ⟨?_, ?_, ?_⟩
    · rw [h.ranges]
      exact AcceptedRanges.WellFormed.empty.separated
    · rw [h.greatestEnd, h.ranges]
      exact AcceptedRanges.WellFormed.empty.greatestEnd_eq
    · rw [h.maximumEnd, h.ranges]
      exact AcceptedRanges.WellFormed.empty.maximumEnd_eq
  union := by
    show Interval.support s.accepted.ranges = ∅
    rw [h.ranges, Interval.support_nil]
  withinTotal _ _ := h.maximumEnd.le.trans (Nat.zero_le _)

end Fresh

/-! ## A seeded session -/

/-- Seeding that succeeds records all spans. -/
theorem recordedSpans_of_ok {spans : List WaveformSpan} {s t : Session}
    (h : seedSpans spans s = (.ok, t)) : recordedSpans spans s = spans := by
  induction spans generalizing s with
  | nil => rfl
  | cons span rest ih =>
      unfold seedSpans at h
      unfold recordedSpans
      cases hone : s.seedSpan span with
      | mk status u =>
          rw [hone] at h
          cases status with
          | ok => exact congrArg (span :: ·) (ih h)
          | _ => exact absurd (Prod.mk.inj h).1 (by simp)

/-- What may not be seeded is refused. -/
theorem seedableView_ne_ok (result : Result) (s : Session) :
    s.seedableView result ≠ .error .ok := by
  unfold seedableView
  split
  · simp
  split
  · simp
  split
  · simp
  · split_ifs <;> simp

/-- A seed that succeeds had a view that may be seeded. -/
theorem seedFromResult_ok {result : Result} {s t : Session}
    (h : s.seedFromResult result = (.ok, t)) :
    ∃ view, s.seedableView result = .ok view ∧ seedSpans view.spans s = (.ok, t) := by
  unfold seedFromResult at h
  cases hview : s.seedableView result with
  | error status =>
      rw [hview] at h
      obtain rfl := (Prod.mk.inj h).1
      exact absurd hview (seedableView_ne_ok result s)
  | ok view =>
      rw [hview] at h
      exact ⟨view, rfl, h⟩

/-- A valid resolution keeps the frames of a column within the range of the quantisation. -/
theorem framesPerColumn_le {s : Session} (h : Created s) : s.framesPerColumn ≤ 65536 := by
  obtain ⟨config, libm, usesWorkspace, env, hvalid, rfl⟩ := created_eq h
  unfold configIsValid at hvalid
  simp only [Bool.and_eq_true] at hvalid
  have hresolution := hvalid.1.2
  show (if config.overviewFramesPerColumn = 0 then defaultOverviewFramesPerColumn
    else config.overviewFramesPerColumn) ≤ 65536
  unfold resolutionIsValid at hresolution
  simp only [Bool.or_eq_true, beq_iff_eq, List.contains_iff_mem, List.mem_cons,
    List.not_mem_nil, or_false] at hresolution
  split_ifs
  · decide
  · omega

section Seeding

variable {s seeded : Session} {data : Container.ResultData} {overview : Container.Overview}

/-- A column of a placed overview stands for some frames, since its span ends within the total. -/
theorem seededColumnFrames_pos (hplaced : overview.Placed)
    (hcolumns : overview.framesPerColumn = s.framesPerColumn)
    (htotal : ∀ total ∈ s.config.totalFrames, ∀ span ∈ overview.spans,
      span.sourceRange.endFrame ≤ total) {span : Container.Span} (hspan : span ∈ overview.spans)
    {k : ℕ} (hk : k < span.endColumn) : 0 < s.seededColumnFrames k := by
  have hpos : 0 < s.framesPerColumn := hcolumns ▸ hplaced.framesPerColumn
  have hreaches := (hplaced.spans span hspan).reaches
  have hlast : (k + 1) * s.framesPerColumn ≤ span.endColumn * s.framesPerColumn :=
    Nat.mul_le_mul_right _ hk
  rw [Nat.add_mul, Nat.one_mul] at hlast
  rw [hcolumns] at hreaches
  unfold seededColumnFrames
  cases hframes : s.config.totalFrames with
  | none => exact hpos
  | some total =>
      have hend := htotal total hframes span hspan
      simp only
      omega

theorem seededColumnFrames_le (k : ℕ) : s.seededColumnFrames k ≤ s.framesPerColumn := by
  unfold seededColumnFrames
  cases s.config.totalFrames with
  | none => exact le_rfl
  | some total =>
      simp only
      omega

/-- A placed overview that may be seeded has the resolution of the session and lies within the total,
and each of its columns stands for some frames. -/
theorem seedableView_placed {view : OverviewView} (hdata : data.overview = some overview)
    (hplaced : overview.Placed) (hview : s.seedableView data.view = .ok view) :
    overview.view = view ∧ overview.framesPerColumn = s.framesPerColumn ∧
      (∀ total ∈ s.config.totalFrames, ∀ span ∈ overview.spans,
        span.sourceRange.endFrame ≤ total) ∧
      ∀ span ∈ overview.spans, ∀ k < span.endColumn, 0 < s.seededColumnFrames k := by
  obtain ⟨hoverview, hcolumns, -⟩ := seedableView_ok hview
  obtain rfl : overview.view = view := by
    refine Option.some.inj (Eq.trans ?_ hoverview)
    show _ = data.overview.map _
    rw [hdata, Option.map_some]
  have hcolumns : overview.framesPerColumn = s.framesPerColumn := hcolumns
  have htotal : ∀ total ∈ s.config.totalFrames, ∀ span ∈ overview.spans,
      span.sourceRange.endFrame ≤ total := fun total hmem span hspan =>
    seedableView_withinTotal hview total hmem span.view (List.mem_map_of_mem hspan)
  exact ⟨rfl, hcolumns, htotal, fun span hspan k hk =>
    seededColumnFrames_pos hplaced hcolumns htotal hspan hk⟩

/-- What a seed makes of a fresh session. -/
structure SeededWith (overview : Container.Overview) (s seeded : Session) : Prop where
  framesPerColumn : overview.framesPerColumn = s.framesPerColumn
  accumulators : seeded.overview.accumulators = (placedColumns overview.view.spans).map s.install
  accepted : seeded.accepted.frames = overview.frames
  counts : ∀ span ∈ overview.spans, ∀ k < span.endColumn, 0 < s.seededColumnFrames k

/-- A successful seed installs every column and accepts every span. -/
theorem Fresh.seededWith (h : Fresh s) (hdata : data.overview = some overview)
    (hplaced : overview.Placed) (hseed : s.seedFromResult data.view = (.ok, seeded)) :
    SeededWith overview s seeded := by
  obtain ⟨view, hview, hspans⟩ := seedFromResult_ok hseed
  obtain ⟨rfl, hcolumns, htotal, hcounts⟩ := seedableView_placed hdata hplaced hview
  have hsorted : s.overview.Sorted := by
    unfold Overview.Sorted
    rw [h.accumulators]
    exact KeyedList.sorted_nil
  have happended := seedSpans_appends hsorted hplaced.columns_ordered
    (by rw [h.accumulators]; exact fun _ hmem => absurd hmem List.not_mem_nil)
    (List.forall_mem_map.mpr fun span hspan k hk => (hcounts span hspan k (by
      change k < span.firstColumnIndex + (span.columns.map Container.Column.view).length at hk
      rwa [List.length_map] at hk)).ne') hspans
  have haccepted := @Tabled.seedSpans overview.view.spans _ _ h.tabled ?_
    (fun total hmem => List.forall_mem_map.mpr (htotal total hmem))
  · rw [hspans, recordedSpans_of_ok hspans, Set.empty_union] at haccepted
    refine ⟨hcolumns, ?_, ?_, hcounts⟩
    · rw [happended.1, h.accumulators, List.nil_append]
    · rw [haccepted.union]
      ext frame
      show (∃ span ∈ overview.spans.map Container.Span.view, _) ↔ _
      simp only [List.mem_map, exists_exists_and_eq_and]
      rfl
  · -- The spans are not empty, lie in order, and nothing has been accepted before them.
    refine ⟨List.forall_mem_map.mpr fun span hspan => ?_,
      List.pairwise_map.mpr (hplaced.frames.imp .inl), fun _ _ frame _ hmem => ?_⟩
    · exact (hplaced.spans span hspan).range_nonempty
    · rw [h.tabled.union] at hmem
      exact hmem

/-- The columns that seeding reads, with their indices. -/
theorem mem_placedColumns_view {placed : WaveformColumn × ℕ} :
    placed ∈ placedColumns overview.view.spans ↔
      ∃ span ∈ overview.spans, ∃ (k : ℕ) (column : Container.Column),
        span.columns[k]? = some column ∧ placed = (column.view, span.firstColumnIndex + k) := by
  obtain ⟨found, index⟩ := placed
  constructor
  · intro hmem
    obtain ⟨_, hview, hcolumn⟩ := List.mem_flatMap.mp hmem
    obtain ⟨span, hspan, rfl⟩ := List.mem_map.mp hview
    obtain ⟨hle, hfound⟩ := List.mk_mem_zipIdx_iff_le_and_getElem?_sub.mp hcolumn
    obtain ⟨k, rfl⟩ := Nat.exists_eq_add_of_le hle
    rw [Nat.add_sub_cancel_left] at hfound
    change (span.columns.map _)[k]? = _ at hfound
    rw [List.getElem?_map] at hfound
    obtain ⟨column, hget, rfl⟩ := Option.map_eq_some_iff.mp hfound
    exact ⟨span, hspan, k, column, hget, rfl⟩
  · rintro ⟨span, hspan, k, column, hget, heq⟩
    rw [heq]
    refine List.mem_flatMap.mpr ⟨span.view, List.mem_map_of_mem hspan,
      List.mk_add_mem_zipIdx_iff_getElem?.mpr ?_⟩
    change (span.columns.map _)[k]? = _
    rw [List.getElem?_map, hget, Option.map_some]

/-- What the columns of a seed show. -/
theorem SeededWith.shows (h : SeededWith overview s seeded) {view : OverviewView} {hasBands : Bool}
    (hcolumns : view.framesPerColumn = s.framesPerColumn)
    (hview : view.spans =
      overviewSpans hasBands s.framesPerColumn none seeded.overview.accumulators)
    (range : FrameRange) (shown : WaveformColumn) :
    view.Shows range shown ↔ overview.Seeded hasBands s.seededColumnFrames range shown := by
  unfold OverviewView.Shows
  rw [hcolumns, hview, overviewSpans_shows, h.accumulators]
  unfold Container.Overview.Seeded
  rw [h.framesPerColumn]
  constructor
  · rintro ⟨_, hmem, -, rfl, rfl⟩
    obtain ⟨placed, hplaced, rfl⟩ := List.mem_map.mp hmem
    obtain ⟨span, hspan, k, column, hget, rfl⟩ := mem_placedColumns_view.mp hplaced
    exact ⟨span, hspan, k, column, hget, rfl, rfl⟩
  · rintro ⟨span, hspan, k, column, hget, rfl, rfl⟩
    exact ⟨_, List.mem_map_of_mem (mem_placedColumns_view.mpr ⟨span, hspan, k, column, hget, rfl⟩),
      rfl, rfl, rfl⟩

/-- Seeding leaves alone what it does not install. -/
theorem seedFromResult_frame {result : Result} {status : Status}
    (h : s.seedFromResult result = (status, seeded)) :
    seeded.state = s.state ∧ seeded.endOfInput = s.endOfInput ∧ seeded.queue = s.queue ∧
      seeded.settings = s.settings := by
  have hkept : SeedFrame fun s : Session => (s.state, s.endOfInput, s.queue, s.settings) :=
    ⟨fun _ _ _ => rfl, fun _ _ => rfl⟩
  have heq := hkept.seedFromResult result s
  rw [h] at heq
  simpa only [Prod.mk.injEq] using heq

/-- A seeded session waits for its next publication. -/
theorem SeededWith.waiting (h : SeededWith overview s seeded) (hs : Fresh s) {result : Result}
    {status : Status} (hseed : s.seedFromResult result = (status, seeded)) :
    Waiting seeded seeded := by
  obtain ⟨hstate, hend, hqueue, -⟩ := seedFromResult_frame hseed
  refine ⟨hstate.trans hs.state, hend.trans hs.endOfInput, hqueue.trans hs.queue, rfl, rfl, rfl,
    ?_, rfl⟩
  rw [h.accumulators]
  exact List.forall_mem_map.mpr fun _ _ => rfl

end Seeding

/-- A new session is prepared, seeded from a parsed result, and run; its first publication since shows
an overview. No publication before that one is refused, and there is no second seed. -/
structure SeedRun (overview : Container.Overview) (s seeded : Session) (view : OverviewView) :
    Prop where
  prepared : ∃ created setup, Created created ∧ (∀ call ∈ setup, prepares call.op = true) ∧
    run setup created = some s
  seed : ∃ sizes options context next call, ∃ buffer : Container.Buffer,
    ∃ parsed : Container.Parsed,
      Container.resultParse sizes options buffer.bytes context = ⟨.ok (), some parsed, next⟩ ∧
        parsed.data.overview = some overview ∧
        (s.withPlatform call).seedFromResult parsed.data.view = (.ok, seeded)
  published : ∃ calls s' first, Guarded (Undisturbed seeded) calls seeded ∧
    run calls seeded = some s' ∧ first :: seeded.results <:+ s'.results ∧
    first.overview = some view

/-- The first publication since a seed is of the seeded columns. -/
theorem SeedRun.seeds {overview : Container.Overview} {s seeded : Session} {view : OverviewView}
    (h : SeedRun overview s seeded view) :
    overview.Seeds (s.config.requests .waveform3Band) s.seededColumnFrames seeded.accepted.frames
      view := by
  obtain ⟨created, setup, hcreated, hsetup, hprepared⟩ := h.prepared
  obtain ⟨_, _, _, _, call, buffer, parsed, hparse, hoverview, hseed⟩ := h.seed
  obtain ⟨calls, s', first, hguard, hrun, hfirst, hview⟩ := h.published
  obtain ⟨found, _, _, _, _, heq, haccepts, -⟩ :=
    Container.resultParse_ok (congrArg Container.Reply.status hparse)
  obtain rfl : parsed = found :=
    Option.some.inj (congrArg Container.Reply.resultOut (hparse.symm.trans heq))
  obtain ⟨placedOverview, hdata, hplaced⟩ := haccepts.placed
  obtain rfl : overview = placedOverview := Option.some.inj (hoverview.symm.trans hdata)
  have hfresh := ((Fresh.created hcreated).run hsetup hprepared).same (withPlatform_sameTrack call s)
  have hwith := hfresh.seededWith hoverview hplaced hseed
  have hsettings : seeded.settings = s.settings := (seedFromResult_frame hseed).2.2.2
  -- The next publication is the first of the run, and shows the seeded columns.
  have hshown : ShowsColumns seeded first := by
    cases (hwith.waiting hfresh hseed).run hguard hrun with
    | waiting h =>
        rw [h.results] at hfirst
        exact absurd hfirst.length_le (by simp)
    | refused h =>
        rw [h.2] at hfirst
        exact absurd hfirst.length_le (by simp)
    | shown h =>
        obtain ⟨shown, hshown, hsuffix⟩ := h
        have hlists := List.IsSuffix.eq_of_length_le
          (List.suffix_of_suffix_length_le hfirst hsuffix le_rfl) (by simp)
        rwa [(List.cons.inj hlists).1]
  obtain ⟨hcolumns, hspans⟩ := hshown view hview
  rw [requests_of_settings hsettings, framesPerColumn_of_settings hsettings] at hspans
  rw [framesPerColumn_of_settings hsettings] at hcolumns
  have hbound : s.framesPerColumn ≤ 65536 :=
    framesPerColumn_of_settings (run_settings hprepared) ▸ framesPerColumn_le hcreated
  exact ⟨hplaced, fun frame => by rw [hwith.accepted], fun span hspan k hk =>
    ⟨hwith.counts span hspan k hk, (seededColumnFrames_le k).trans hbound⟩,
    hwith.shows hcolumns hspans⟩

/-- **Fidelity of seeding.** The first overview that a session publishes after it was seeded from a
parsed result reproduces the parsed overview exactly when its level has no origin, its spans end with
whole columns, and its columns have no band values and the flags of the session. -/
theorem seeding_faithful_iff (overview : Container.Overview) (s seeded : Session)
    (view : OverviewView) (h : SeedRun overview s seeded view) :
    overview.Reproduced seeded.accepted.frames view ↔
      overview.Seedable (s.config.requests .waveform3Band) :=
  ⟨fun hreproduced => hreproduced.seedable h.seeds, fun hseedable => hseedable.reproduced h.seeds⟩

/-! ### Two containers -/

/-- Seed the small session from a result, and publish. -/
def rehearse (data : Container.ResultData) : Option (Session × Session × Session) :=
  (create (smallConfig {.waveformOverview} none) seriesLibm false plainPlatform).2.bind fun s =>
    match (s.withPlatform (plainCall (.seedFromResult data.view))).seedFromResult data.view with
    | (.ok, seeded) =>
        (step (plainCall (.setMetadata none)) seeded).map fun after => (s, seeded, after)
    | _ => none

/-- What a rehearsal of a seed from a container has to show: the overview of the container, marked
columns, and a publication with an overview. -/
def rehearsal (bytes : Container.Bytes) : Option (Option Container.Overview × Bool × ℕ × Bool) :=
  (Container.resultParse Container.sampleSizes none bytes ⟨Container.freshHeap, 0⟩).resultOut.bind
    fun parsed => (rehearse parsed.data).map fun (_, seeded, after) =>
      (parsed.data.overview, decide (seeded.overview.completeCount ≠ 0),
        after.results.length - seeded.results.length,
        (after.results.head?.bind Result.overview).isSome)

/-- A rehearsal that goes well is a run. -/
theorem seedRun_of_rehearsal (buffer : Container.Buffer) (overview : Container.Overview)
    (hparse : (Container.resultParse Container.sampleSizes none buffer.bytes
      ⟨Container.freshHeap, 0⟩).status = .ok ())
    (hfacts : rehearsal buffer.bytes = some (some overview, true, 1, true)) :
    ∃ s seeded view, SeedRun overview s seeded view ∧
      s.config.requests .waveform3Band = false := by
  obtain ⟨parsed, next, _, _, _, heq, -, -⟩ := Container.resultParse_ok hparse
  unfold rehearsal at hfacts
  rw [heq] at hfacts
  obtain ⟨⟨s, seeded, after⟩, hrehearse, hfacts⟩ := Option.map_eq_some_iff.mp hfacts
  simp only [Prod.mk.injEq] at hfacts
  obtain ⟨hoverview, hmarked, hlength, hview⟩ := hfacts
  obtain ⟨created, hcreate, hrehearse⟩ := Option.bind_eq_some_iff.mp hrehearse
  have hcreated : Created created := ⟨_, _, _, _, Prod.ext rfl hcreate⟩
  cases hseed : (created.withPlatform
      (plainCall (.seedFromResult parsed.data.view))).seedFromResult parsed.data.view with
  | mk status answered =>
      rw [hseed] at hrehearse
      cases status with
      | ok =>
          obtain ⟨t, hstep, hpair⟩ := Option.map_eq_some_iff.mp hrehearse
          simp only [Prod.mk.injEq] at hpair
          obtain ⟨rfl, rfl, rfl⟩ := hpair
          have hrun : run [plainCall (.setMetadata none)] answered = some t := by
            rw [run, Runs.run_cons, hstep]
            rfl
          obtain ⟨earlier, happended⟩ := results_suffix hrun
          obtain ⟨first, rfl⟩ : ∃ first, earlier = [first] := by
            refine List.length_eq_one_iff.mp ?_
            rw [← happended, List.length_append, Nat.add_sub_cancel] at hlength
            exact hlength
          rw [← happended] at hview
          obtain ⟨view, hview⟩ := Option.isSome_iff_exists.mp hview
          refine ⟨created, answered, view, ⟨⟨created, [], hcreated, by simp, rfl⟩,
            ⟨_, _, _, next, _, buffer, parsed, heq, hoverview, hseed⟩,
            ⟨[plainCall (.setMetadata none)], t, first, ⟨fun _ => ⟨of_decide_eq_true hmarked, by simp [plainCall]⟩,
              fun _ _ => trivial⟩, hrun, ⟨[], happended⟩, hview⟩⟩, ?_⟩
          have hbands : (create (smallConfig {.waveformOverview} none) seriesLibm false
              plainPlatform).2.map (fun s => s.config.requests .waveform3Band) = some false := rfl
          rw [hcreate] at hbands
          exact Option.some.inj hbands
      | _ => exact absurd hrehearse (by simp)

/-- The container of a track of 64 frames: one section, an overview with one silent column. -/
def wholeContainer : Container.Bytes :=
  let overview := Container.smallOverview.set 56 64
  let header := (Container.smallHeader overview).set 40 64
  header ++ LittleEndian.encode 4 (Container.crc32c header) ++ (Container.containerWith overview).drop 96

/-- The overview of a track of this many frames with one silent column. -/
def silentColumn (total : ℕ) : Container.Overview :=
  ⟨0, 64, 0, Container.stateFinal, confidenceUnknown, [⟨⟨0, total⟩, 0, [⟨0, 0, 0, 0, 0, 0, 1⟩]⟩]⟩

/-- A column that is whole comes back. -/
theorem seeding_faithful_whole : ∃ (overview : Container.Overview) (s seeded : Session)
    (view : OverviewView), SeedRun overview s seeded view ∧
      overview.Reproduced seeded.accepted.frames view := by
  obtain ⟨s, seeded, view, hrun, hbands⟩ := seedRun_of_rehearsal
    ⟨wholeContainer, by decide +kernel⟩ (silentColumn 64) (by decide +kernel) (by decide +kernel)
  refine ⟨silentColumn 64, s, seeded, view, hrun,
    (seeding_faithful_iff (silentColumn 64) s seeded view hrun).mpr ?_⟩
  rw [hbands]
  exact ⟨rfl, by decide, by decide, by decide⟩

/-- The only column of a track of one frame comes back with the frames of a whole column. -/
theorem seeding_unfaithful_partial : ∃ (overview : Container.Overview) (s seeded : Session)
    (view : OverviewView), SeedRun overview s seeded view ∧
      ¬ overview.Reproduced seeded.accepted.frames view := by
  obtain ⟨s, seeded, view, hrun, -⟩ := seedRun_of_rehearsal
    ⟨Container.smallContainer, by decide +kernel⟩ (silentColumn 1) (by decide +kernel) (by decide +kernel)
  refine ⟨silentColumn 1, s, seeded, view, hrun, fun hreproduced => ?_⟩
  have hwhole := (hreproduced.seedable hrun.seeds).whole
  exact absurd (hwhole _ List.mem_cons_self) (by decide)

end Session

end LibApta
