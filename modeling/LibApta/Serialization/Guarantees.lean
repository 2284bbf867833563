import LibApta.Serialization.ParseResult
import Mathlib.Order.CompletePartialOrder
import Mathlib.Order.Interval.Set.Disjoint

/-!
# Guarantees of a parse

What a caller of the parser may rely on: a parse of any buffer ends without a fault, a parse that
fails leaves nothing behind, and a container that was accepted has disjoint sections and an
overview whose spans tile it.
-/

namespace LibApta.Container

open LittleEndian

/-- A buffer: bytes whose count is a machine size. -/
structure Buffer where
  bytes : Bytes
  size_le : bytes.length ≤ uint64Max

section Parse

variable (sizes : Sizes) (options : Option ParseOptions) (buffer : Buffer) (context : Context)

/-- A parse gives out what it should, or nothing. -/
theorem resultParse_outcome :
    Reply.Answers ⟨context, none, False⟩ context.resultCount
      (Parses sizes options buffer.bytes ⟨context, none, False⟩ context.resultCount)
      (resultParse sizes options buffer.bytes context) := by
  refine @resultParse_answers sizes options buffer.bytes ⟨context, none, False⟩ _
    ⟨buffer.size_le, ⟨?_, False.elim, rfl⟩, ?_, ?_, False.elim⟩
  · exact fun _ hcap => absurd hcap (Option.not_mem_none _)
  · exact fun _ hcap => absurd hcap (Option.not_mem_none _)
  · exact fun _ hcap => absurd hcap (Option.not_mem_none _)

/-- A parse commits no fault. -/
theorem resultParse_safe :
    (resultParse sizes options buffer.bytes context).status ≠ Check.fault := by
  have houtcome := resultParse_outcome sizes options buffer context
  generalize resultParse sizes options buffer.bytes context = reply at houtcome ⊢
  cases houtcome with
  | given =>
      rintro ⟨⟩
  | refused =>
      rintro ⟨⟩

/-- No layer of the parser reads outside the buffer, writes outside an array it allocated, or
computes an offset, a size or a count that leaves 64 bits, apart from one sum: the place of the
packed columns of a span. Where that sum leaves 64 bits, the container is rejected as corrupt. -/
theorem resultParse_inBounds :
    (resultParse sizes options buffer.bytes context).status ≠ Check.fault ∧
      (validateContainer (effectiveOptions options) buffer.bytes >>=
        validateWovrGeometry (effectiveOptions options)) =
      (validateContainer (effectiveOptions options) buffer.bytes >>=
        validateWovrGeometryWith exactAdd (effectiveOptions options)).onFault .corruptData := by
  refine ⟨resultParse_safe sizes options buffer context, ?_⟩
  rw [Check.onFault_bind, Check.onFault_of_safe (validateContainer_safe buffer.size_le)]
  refine Check.bind_congr_ok fun input hinput => ?_
  have hcontainer := (validateContainer_eq_ok.mp hinput).1
  have htotal : input.header.totalSourceFrames ≤ uint64Max := by
    rw [hcontainer.header_eq]
    exact Nat.le_of_lt_succ field_lt
  exact (validateWovrGeometry_onFault htotal hcontainer.payload_le).symm

/-- An overview whose packed columns start at the last 64-bit number; its span starts at the second
column. -/
def wrappingOverview : Bytes :=
  encode 4 0 ++ encode 4 64 ++ encode 8 0 ++ encode 4 1 ++ encode 4 1 ++ encode 8 48 ++
    encode 8 uint64Max ++ encode 4 stateFinal ++ encode 4 0 ++
  encode 8 0 ++ encode 8 1 ++ encode 4 0 ++ encode 4 1 ++ encode 4 1 ++ encode 4 0

/-- There is a container for which the sum leaves 64 bits. -/
theorem columnOffset_wraps :
    (validateContainer (effectiveOptions none) (containerWith wrappingOverview) >>=
      validateWovrGeometryWith exactAdd (effectiveOptions none)) = Check.fault := by
  decide +kernel

/-! ## Failure -/

/-- A call gave out nothing and left its context as it was: the same blocks are live, the same bytes
are given out, the same results are counted, and every block given out since was taken back exactly
once. -/
structure LeavesNothing (before : Context) (reply : Reply) : Prop where
  resultOut : reply.resultOut = none
  allocatedBytes : reply.context.heap.allocatedBytes = before.heap.allocatedBytes
  resultCount : reply.context.resultCount = before.resultCount
  live : reply.context.heap.live.Perm before.heap.live
  freedOnce : ∃ freed, reply.context.heap.released = before.heap.released ++ freed ∧
    freed.Perm
      (List.range' before.heap.nextId (reply.context.heap.nextId - before.heap.nextId))

/-- A parse that fails leaves nothing behind. -/
theorem resultParse_leaves_nothing
    (h : (resultParse sizes options buffer.bytes context).status ≠ .ok ()) :
    LeavesNothing context (resultParse sizes options buffer.bytes context) := by
  have houtcome := resultParse_outcome sizes options buffer context
  generalize resultParse sizes options buffer.bytes context = reply at h houtcome ⊢
  cases houtcome with
  | given => exact absurd rfl h
  | refused _ hcleared =>
      obtain ⟨hlive, hbytes, hfreed⟩ := hcleared.holds.nothing
      exact ⟨rfl, hbytes, hcleared.count, hlive, hfreed⟩

/-- The second request of a parse of the small container is refused. -/
theorem resultParse_leaves_nothing_refused :
    LeavesNothing ⟨{ freshHeap with grants := [true, false] }, 0⟩
      (resultParse sampleSizes none smallContainer
        ⟨{ freshHeap with grants := [true, false] }, 0⟩) :=
  resultParse_leaves_nothing sampleSizes none ⟨smallContainer, by decide +kernel⟩ _
    (by decide +kernel)

/-- An accepted buffer, and the result of its parse. -/
theorem resultParse_ok {sizes : Sizes} {options : Option ParseOptions} {buffer : Buffer}
    {context : Context} (h : (resultParse sizes options buffer.bytes context).status = .ok ()) :
    ∃ parsed next input header spans,
      resultParse sizes options buffer.bytes context = ⟨.ok (), some parsed, next⟩ ∧
        Accepts options buffer.bytes input header spans parsed.data ∧
        BaseLimits sizes options buffer.bytes header spans := by
  have houtcome := resultParse_outcome sizes options buffer context
  generalize resultParse sizes options buffer.bytes context = reply at h houtcome ⊢
  cases houtcome with
  | given hparses =>
      obtain ⟨input, header, spans, haccepts, hlimits, -⟩ := hparses
      exact ⟨_, _, input, header, spans, rfl, haccepts, hlimits⟩
  | refused => cases h

end Parse

/-! ## Structure of accepted containers -/

/-- The bytes of the file a section takes. -/
def Entry.extent (entry : Entry) : Set ℕ := Set.Ico entry.offset (entry.offset + entry.storedSize)

/-- The frames of a span. -/
def SpanEntry.frames (span : SpanEntry) : Set ℕ := Set.Ico span.firstFrame span.endFrame

/-- The packed columns of a span, as positions in the packed column array. -/
def SpanEntry.packed (span : SpanEntry) : Set ℕ :=
  Set.Ico span.dataColumnOffset (span.dataColumnOffset + span.columnCount)

/-- The span table of an overview is well formed. -/
structure WellFormedOverview (totalSourceFrames : ℕ) (payload : Bytes) (header : WovrHeader)
    (spans : List SpanEntry) : Prop where
  nonempty : ∀ span ∈ spans, span.firstFrame < span.endFrame ∧ span.columnCount ≠ 0
  sorted : spans.Pairwise fun span later => span.endFrame ≤ later.firstFrame
  packedApart : spans.Pairwise fun span later => Disjoint span.packed later.packed
  packedInside : ∀ span ∈ spans, header.columnDataOffset +
    (span.dataColumnOffset + span.columnCount) * packedColumnSize ≤ payload.length
  covered : header.state = stateFinal → ∀ frame,
    (∃ span ∈ spans, frame ∈ span.frames) ↔ frame ∈ Set.Ico header.originFrame totalSourceFrames

/-- A container is well formed: its sections, and its one overview. -/
structure WellFormed (bytes : Bytes) : Prop where
  apart : ((headerOf bytes).directory bytes).Pairwise fun entry other =>
    Disjoint entry.extent other.extent
  aligned : ∀ entry ∈ (headerOf bytes).directory bytes, entry.offset % 8 = 0
  offHeader : ∀ entry ∈ (headerOf bytes).directory bytes,
    Disjoint entry.extent (Set.Ico 0 (headerOf bytes).headerSize)
  offDirectory : ∀ entry ∈ (headerOf bytes).directory bytes, Disjoint entry.extent
    (Set.Ico (headerOf bytes).directoryOffset
      ((headerOf bytes).directoryOffset + (headerOf bytes).sectionCount * directoryEntrySize))
  inside : ∀ entry ∈ (headerOf bytes).directory bytes,
    entry.extent ⊆ Set.Ico 0 (headerOf bytes).totalFileSize
  crc : ∀ entry ∈ (headerOf bytes).directory bytes, crc32c (entry.payload bytes) = entry.crc
  overview : ∃ payload, overviewPayloads bytes ((headerOf bytes).directory bytes) = [payload] ∧
    WellFormedOverview (headerOf bytes).totalSourceFrames payload (wovrHeaderOf payload)
      (spanTable payload (wovrHeaderOf payload))

theorem disjoint_of_not_overlap {first firstSize second secondSize : ℕ}
    (h : ¬ Overlap first firstSize second secondSize) :
    Disjoint (Set.Ico first (first + firstSize)) (Set.Ico second (second + secondSize)) := by
  rw [Set.disjoint_left]
  intro position hfirst hsecond
  rw [Set.mem_Ico] at hfirst hsecond
  apply h
  refine ⟨?_, ?_, ?_, ?_⟩ <;> omega

/-- Spans that follow each other cover what lies between their ends. -/
theorem Contiguous.covers {spans : List SpanEntry} {frame column stop : ℕ}
    (h : Contiguous frame column spans) (hne : spans ≠ [])
    (hlast : ∀ span ∈ spans.getLast?, span.endFrame = stop)
    (hframes : ∀ span ∈ spans, span.firstFrame < span.endFrame) (position : ℕ) :
    frame < stop ∧
      ((∃ span ∈ spans, position ∈ span.frames) ↔ position ∈ Set.Ico frame stop) := by
  induction spans generalizing frame column with
  | nil => exact absurd rfl hne
  | cons span rest ih =>
      obtain ⟨rfl, -, hrest⟩ := h
      have hspan := hframes span List.mem_cons_self
      cases rest with
      | nil =>
          obtain rfl := hlast span rfl
          refine ⟨hspan, ?_⟩
          simp only [List.mem_singleton, exists_eq_left, SpanEntry.frames]
      | cons next rest =>
          have hlast' : ∀ last ∈ (next :: rest).getLast?, last.endFrame = stop := by
            rwa [List.getLast?_cons_cons] at hlast
          obtain ⟨hstop, hcovers⟩ := ih hrest (List.cons_ne_nil _ _) hlast'
            fun other hmem => hframes other (List.mem_cons_of_mem _ hmem)
          refine ⟨hspan.trans hstop, ?_⟩
          simp only [List.mem_cons, exists_eq_or_imp] at hcovers ⊢
          rw [hcovers, SpanEntry.frames, Set.mem_Ico, Set.mem_Ico, Set.mem_Ico]
          omega

/-- What the two overview passes accept is well formed. -/
theorem wellFormedOverview {strict : Bool} {input : WovrInput} {header : WovrHeader}
    {spans : List SpanEntry} {totalSourceFrames : ℕ}
    (hgeometry : GeometryOk strict input header spans)
    (hhardening : HardeningOk totalSourceFrames header spans) :
    WellFormedOverview totalSourceFrames input.payload header spans := by
  have hnonempty : ∀ span ∈ spans, span.firstFrame < span.endFrame ∧ span.columnCount ≠ 0 :=
    fun span hmem => ⟨(hgeometry.frames span hmem).frames, (hgeometry.frames span hmem).columns⟩
  refine ⟨hnonempty, ?_, ?_, ?_, ?_⟩
  · have hchain : (spans.map fun span => (⟨span.firstFrame, span.endFrame⟩ : Interval ℕ)).IsChain
        fun a b => a.hi ≤ b.lo :=
      (List.isChain_map _).mpr (hgeometry.ordered.imp fun _ _ hfollows => hfollows.1)
    have hranges : ∀ range ∈ spans.map fun span =>
        (⟨span.firstFrame, span.endFrame⟩ : Interval ℕ), range.lo < range.hi := by
      rw [List.forall_mem_map]
      exact fun span hmem => (hnonempty span hmem).1
    exact List.pairwise_map.mp (Interval.pairwise_of_isChain hranges hchain)
  · refine (List.pairwise_map.mp hhardening.apart).imp fun {span later} hapart => ?_
    rw [SpanEntry.packed, SpanEntry.packed, Set.disjoint_left]
    intro position hspan hlater
    rw [Set.mem_Ico] at hspan hlater
    have hcase : span.dataColumnOffset + span.columnCount ≤ later.dataColumnOffset ∨
        later.dataColumnOffset + later.columnCount ≤ span.dataColumnOffset := hapart
    omega
  · intro span hmem
    have hfits := (hgeometry.data span hmem).fits
    rw [SpanEntry.dataFirst] at hfits
    show _ + _ * 10 ≤ _
    have : header.columnDataOffset + span.dataColumnOffset * 10 + span.columnCount * 10 ≤
      input.payload.length := hfits
    omega
  · intro hfinal frame
    have hne : spans ≠ [] := by
      intro hnil
      have hlength : spans.length = header.spanCount := by
        rw [hgeometry.spans_eq, length_spanTable]
      rw [hnil] at hlength
      exact hgeometry.headerOk.spans hlength.symm
    exact ((hhardening.contiguous hfinal).covers hne
      (fun span hmem => (hhardening.last hfinal span hmem).2)
      (fun span hmem => (hnonempty span hmem).1) frame).2

/-- A container that was accepted is well formed. -/
theorem Accepts.wellFormed {options : Option ParseOptions} {bytes : Bytes} {input : WovrInput}
    {header : WovrHeader} {spans : List SpanEntry} {data : ResultData}
    (h : Accepts options bytes input header spans data) : WellFormed bytes := by
  have hcontainer := h.base.container
  have hdirectory := hcontainer.directoryOk
  have htotal := hcontainer.headerOk.total
  have hgeometry := h.base.geometry
  refine ⟨?_, ?_, ?_, ?_, ?_, ?_, ?_⟩
  · exact hdirectory.apart.imp fun hapart => disjoint_of_not_overlap hapart
  · exact fun entry hmem => (hdirectory.entries entry hmem).aligned
  · intro entry hmem
    have hoff := disjoint_of_not_overlap (hdirectory.entries entry hmem).offHeader
    rwa [Nat.zero_add] at hoff
  · exact fun entry hmem => disjoint_of_not_overlap (hdirectory.entries entry hmem).offDirectory
  · intro entry hmem position hposition
    have hfits := (hdirectory.entries entry hmem).fits
    rw [Entry.extent, Set.mem_Ico] at hposition
    rw [Set.mem_Ico, htotal]
    omega
  · exact fun entry hmem => (hdirectory.entries entry hmem).crc
  · have hoverview := wellFormedOverview hgeometry h.hardening
    rw [hgeometry.spans_eq, hgeometry.header_eq] at hoverview
    exact ⟨input.payload, hdirectory.overview, hoverview⟩

/-- Every buffer the parser accepts is a well-formed container. -/
theorem resultParse_wellFormed (sizes : Sizes) (options : Option ParseOptions) (buffer : Buffer)
    (context : Context)
    (h : (resultParse sizes options buffer.bytes context).status = .ok ()) :
    WellFormed buffer.bytes := by
  obtain ⟨_, _, _, _, _, -, haccepts, -⟩ := resultParse_ok h
  exact haccepts.wellFormed

/-- The parser accepts the small container, whatever the limit on sections. -/
theorem smallContainer_accepted (sections : ℕ) :
    (resultParse sampleSizes (strictOptions sections 0) smallContainer ⟨freshHeap, 0⟩).status =
      .ok () := by
  have hlimit : allocationLimit (strictOptions sections 0) = defaultMaxAllocationBytes := rfl
  obtain ⟨_, _, hparse, -⟩ := @resultParse_of_accepts sampleSizes _ _ ⟨freshHeap, 0⟩ _ _ _ _
    freshHeap_generous (smallContainer_accepts sections 0)
    (smallContainer_fits (hlimit ▸ by decide) (hlimit ▸ by decide))
  rw [hparse]

theorem smallContainer_wellFormed : WellFormed smallContainer :=
  resultParse_wellFormed sampleSizes (strictOptions 0 0) ⟨smallContainer, by decide +kernel⟩
    ⟨freshHeap, 0⟩ (smallContainer_accepted 0)

end LibApta.Container
