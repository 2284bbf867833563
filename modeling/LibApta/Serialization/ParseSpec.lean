import LibApta.Serialization.Parse
import Mathlib.Algebra.BigOperators.Ring.List

/-!
# Triples for the parser

Each stage of the parser keeps the account of what the parse owns. A stage that ends without error
charges the result exactly what `resultAllocationFits` counts for its data; a stage that is rejected
found something that was not fine.
-/

namespace LibApta.Container

open LittleEndian

/-! ## Charges -/

/-- The bytes the arrays of a result take. -/
def charge (sizes : Sizes) (data : ResultData) : ℕ :=
  sizes.result + ((allocationTerms sizes data).map fun term => term.1 * term.2).sum

private theorem foldlM_allocationAdd {terms : List (ℕ × ℕ)} {total result : ℕ}
    (h : terms.foldlM allocationAdd total = some result) :
    result = total + (terms.map fun term => term.1 * term.2).sum := by
  induction terms generalizing total with
  | nil =>
      rw [List.foldlM_nil] at h
      exact (Option.some.inj h).symm
  | cons term rest ih =>
      rw [List.foldlM_cons, allocationAdd] at h
      split at h
      case isTrue => cases h
      case isFalse =>
        have hrest := ih h
        rw [List.map_cons, List.sum_cons]
        omega

private theorem foldlM_allocationAdd_eq {terms : List (ℕ × ℕ)} {total : ℕ}
    (h : total + (terms.map fun term => term.1 * term.2).sum ≤ uint64Max) :
    terms.foldlM allocationAdd total =
      some (total + (terms.map fun term => term.1 * term.2).sum) := by
  induction terms generalizing total with
  | nil => rfl
  | cons term rest ih =>
      rw [List.map_cons, List.sum_cons, ← Nat.add_assoc] at h ⊢
      have hfits : ¬ (term.1 ≠ 0 ∧ (uint64Max - total) / term.1 < term.2) := by
        rintro ⟨hne, hlt⟩
        rw [Nat.div_lt_iff_lt_mul (Nat.pos_of_ne_zero hne), Nat.mul_comm] at hlt
        omega
      rw [List.foldlM_cons, allocationAdd, if_neg hfits]
      exact ih h

/-- What fits leaves room for the bytes of the result and for more. -/
theorem charge_add_le {sizes : Sizes} {data : ResultData} {additional limit : ℕ}
    (h : resultAllocationFits sizes data additional limit = true) :
    charge sizes data + additional ≤ limit := by
  rw [resultAllocationFits] at h
  cases hbytes : resultAllocationBytes sizes data with
  | none =>
      rw [hbytes] at h
      cases h
  | some existing =>
      have hcharge : existing = charge sizes data := foldlM_allocationAdd hbytes
      rw [hbytes] at h
      simp only [Bool.and_eq_true, decide_eq_true_eq] at h
      omega

theorem fits_of_le {sizes : Sizes} {data : ResultData} {additional limit : ℕ}
    (h : charge sizes data + additional ≤ limit) (hcharge : charge sizes data ≤ uint64Max) :
    resultAllocationFits sizes data additional limit = true := by
  have hbytes : resultAllocationBytes sizes data = some (charge sizes data) :=
    foldlM_allocationAdd_eq hcharge
  rw [resultAllocationFits, hbytes]
  simp only [Bool.and_eq_true, decide_eq_true_eq]
  omega

/-- The bytes of an overview. -/
def overviewCharge (sizes : Sizes) (overview : Option Overview) : ℕ :=
  let spans := (overview.map Overview.spans).getD []
  spans.length * sizes.span + (spans.map fun span => span.columns.length).sum * sizes.column

/-- The bytes of detail tiles. -/
def detailCharge (sizes : Sizes) (tiles : List Tile) : ℕ :=
  tiles.length * sizes.tile + (tiles.map fun tile => tile.columns.length).sum * sizes.column

/-- The bytes of metadata. -/
def metadataCharge (metadata : Option Metadata) : ℕ := (metadata.map Metadata.storageSize).getD 0

/-- The bytes of a tempo. -/
def tempoCharge (sizes : Sizes) (tempo : Option Tempo) : ℕ :=
  ((tempo.map fun tempo => tempo.candidates.length).getD 0) * sizes.candidate

/-- The bytes of a local grid. -/
def localGridCharge (sizes : Sizes) (grid : Option Grid) : ℕ :=
  grid.toList.length * sizes.range +
    ((grid.map fun grid => grid.segments.length).getD 0) * sizes.segment

/-- The bytes of a global grid. -/
def globalGridCharge (sizes : Sizes) : Option (Grid × Revision) → ℕ
  | none => 0
  | some (grid, _) => sizes.gridState + sizes.range + grid.segments.length * sizes.segment +
      grid.beats.length * sizes.beat

/-- The charge by parts of the result. -/
theorem charge_eq (sizes : Sizes) (data : ResultData) :
    charge sizes data = sizes.result + overviewCharge sizes data.overview +
      detailCharge sizes data.detailTiles + metadataCharge data.metadata +
      tempoCharge sizes data.tempo + localGridCharge sizes data.localGrid +
      globalGridCharge sizes data.globalGrid := by
  have hspans : ∀ spans : List Span,
      ((spans.map fun span => (span.columns.length, sizes.column)).map
        fun term : ℕ × ℕ => term.1 * term.2).sum =
          (spans.map fun span => span.columns.length).sum * sizes.column := by
    intro spans
    rw [List.map_map, ← List.sum_map_mul_right]
    rfl
  have htiles : ∀ tiles : List Tile,
      ((tiles.map fun tile => (tile.columns.length, sizes.column)).map
        fun term : ℕ × ℕ => term.1 * term.2).sum =
          (tiles.map fun tile => tile.columns.length).sum * sizes.column := by
    intro tiles
    rw [List.map_map, ← List.sum_map_mul_right]
    rfl
  rw [charge, allocationTerms]
  simp only [List.map_append, List.map_cons, List.map_nil, List.sum_append, List.sum_cons,
    List.sum_nil, hspans, htiles, overviewCharge, detailCharge, metadataCharge, tempoCharge,
    localGridCharge, globalGridCharge]
  rcases data.globalGrid with _ | ⟨grid, revision⟩
  · simp only [List.map_nil, List.sum_nil]
    omega
  · simp only [List.map_cons, List.map_nil, List.sum_cons, List.sum_nil]
    omega

/-! ## Layers of slots -/

/-- The layer that fills a slot. -/
def Slot.layer : Slot → ℕ
  | .result | .overviewSpans | .overviewColumns => 0
  | .detailTiles | .detailColumns => 1
  | .metadataStorage => 2
  | .tempoCandidates => 3
  | .localCoverage | .localSegments => 4
  | .gridState | .gridCoverage | .gridSegments | .gridBeats => 5

/-- The slots the layers up to one may fill. -/
def slotsUpTo (layer : ℕ) : List Slot := allSlots.filter fun slot => slot.layer ≤ layer

theorem mem_slotsUpTo {layer : ℕ} {slot : Slot} : slot ∈ slotsUpTo layer ↔ slot.layer ≤ layer := by
  rw [slotsUpTo, List.mem_filter, decide_eq_true_eq]
  exact and_iff_right (mem_allSlots slot)

theorem Holding.mono {account : Account} {extra : List Block} {used used' : List Slot}
    {total count : ℕ} {data : ResultData} {work : Work}
    (h : Holding account extra used total count data work)
    (hsub : ∀ slot ∈ used, slot ∈ used') : Holding account extra used' total count data work :=
  ⟨⟨h.owned.holds, fun slot hslot => h.owned.unused slot fun hmem => hslot (hsub slot hmem),
    h.owned.total, h.owned.bound, h.owned.generous⟩, h.count, h.data⟩

/-- The parse holds a result with `data`, charged in full, in the slots of the layers up to one. -/
def Built (sizes : Sizes) (account : Account) (layer count : ℕ) (data : ResultData)
    (work : Work) : Prop :=
  Holding account [] (slotsUpTo layer) (charge sizes data) count data work

/-! ## Base layer -/

/-- What the base layer accepts of a container, apart from the limits. -/
structure BaseOk (options : Option ParseOptions) (bytes : Bytes) (input : WovrInput)
    (header : WovrHeader) (spans : List SpanEntry) : Prop where
  valid : optionsValid options = true
  container : ContainerOk (isStrict options) bytes input
  geometry : GeometryOk (isStrict options) input header spans

/-- The limits of the base layer. -/
structure BaseLimits (sizes : Sizes) (options : Option ParseOptions) (bytes : Bytes)
    (header : WovrHeader) (spans : List SpanEntry) : Prop where
  container : HeaderLimits (effectiveOptions options) bytes
  overview : WovrLimits (effectiveOptions options) header
  columns : packedColumns spans ≤ columnLimit options
  allocation : sizes.result + header.spanCount * sizes.span + packedColumns spans * sizes.column ≤
    allocationLimit options

/-- The data the base layer gives. -/
def overviewData (input : WovrInput) (header : WovrHeader) (spans : List SpanEntry) :
    ResultData :=
  baseData input.header header (spans.map (spanOf input.payload header))
    (spans.flatMap fun span => span.columns input.payload header)

section Base

variable {sizes : Sizes} {options : Option ParseOptions} {bytes : Bytes} {input : WovrInput}
  {header : WovrHeader} {spans : List SpanEntry} {account : Account} {count : ℕ}

theorem Sizes.pos (sizes : Sizes) : 1 ≤ sizes.result ∧ 1 ≤ sizes.span ∧ 1 ≤ sizes.column ∧
    1 ≤ sizes.tile ∧ 1 ≤ sizes.candidate ∧ 1 ≤ sizes.range ∧ 1 ≤ sizes.segment ∧
    1 ≤ sizes.gridState ∧ 1 ≤ sizes.beat := by
  have h := sizes.bounded
  simp only [List.mem_cons, List.not_mem_nil, or_false, forall_eq_or_imp, forall_eq] at h
  obtain ⟨h1, h2, h3, h4, h5, h6, h7, h8, h9⟩ := h
  exact ⟨h1.1, h2.1, h3.1, h4.1, h5.1, h6.1, h7.1, h8.1, h9.1⟩

theorem Sizes.le (sizes : Sizes) : sizes.result ≤ 65536 ∧ sizes.span ≤ 65536 ∧
    sizes.column ≤ 65536 ∧ sizes.tile ≤ 65536 ∧ sizes.candidate ≤ 65536 ∧ sizes.range ≤ 65536 ∧
    sizes.segment ≤ 65536 ∧ sizes.gridState ≤ 65536 ∧ sizes.beat ≤ 65536 := by
  have h := sizes.bounded
  simp only [List.mem_cons, List.not_mem_nil, or_false, forall_eq_or_imp, forall_eq] at h
  obtain ⟨h1, h2, h3, h4, h5, h6, h7, h8, h9⟩ := h
  exact ⟨h1.2, h2.2, h3.2, h4.2, h5.2, h6.2, h7.2, h8.2, h9.2⟩

/-- Each span of an overview takes its record and its columns. -/
theorem charge_overviewData (sizes : Sizes) (hcount : spans.length = header.spanCount) :
    charge sizes (overviewData input header spans) =
      sizes.result + header.spanCount * sizes.span + packedColumns spans * sizes.column := by
  have hcolumns : ((spans.map (spanOf input.payload header)).map fun span => span.columns.length) =
      spans.map SpanEntry.columnCount := by
    rw [List.map_map]
    apply List.map_congr_left
    intro span _
    show (span.columns input.payload header).length = _
    rw [SpanEntry.columns, columnTable, List.length_map, length_records]
  rw [charge_eq]
  simp only [overviewData, baseData, overviewCharge, Option.map_some, Option.getD_some, hcolumns,
    List.length_map, hcount, detailCharge, metadataCharge, tempoCharge, localGridCharge,
    globalGridCharge, Option.map_none, Option.getD_none, List.map_nil, List.sum_nil,
    List.length_nil, Option.toList_none, packedColumns]
  omega

/-- What the base layer needs to succeed. -/
def BaseFine (sizes : Sizes) (options : Option ParseOptions) (bytes : Bytes) : Prop :=
  ∃ input header spans, BaseOk options bytes input header spans ∧
    BaseLimits sizes options bytes header spans

/-- Nothing is left of a parse that was rejected. -/
def Nothing (account : Account) (count : ℕ) (_code : ErrorCode) (work : Work) : Prop :=
  ¬ account.fine ∧ ∃ data, Holding account [] [] 0 count data work

/-- Freeing the slots in use leaves nothing. -/
theorem freeAll_spec {slots used : List Slot} {total : ℕ} {data : ResultData} {code : ErrorCode}
    (hslots : ∀ slot ∈ used, slot ∈ slots) {E : ErrorCode → Work → Prop} :
    Attempt.Spec
      (fun work => ¬ account.fine ∧ Holding account [] used total count data work)
      (freeSlots slots) (fun _ => Nothing account count code) E := by
  rintro work ⟨hfine, h⟩
  refine (freeSlots_spec slots work ⟨total, h⟩).mono ?_ fun _ _ h => h
  rintro _ next ⟨total', h'⟩
  have hempty : used.filter (fun other => other ∉ slots) = [] := by
    rw [List.filter_eq_nil_iff]
    intro slot hmem
    simpa using hslots slot hmem
  rw [hempty] at h'
  have hblocks : next.blocks = [] := by
    rw [Work.blocks, List.filterMap_eq_nil_iff]
    exact fun slot _ => h'.owned.unused slot List.not_mem_nil
  have htotal := h'.owned.total
  rw [hblocks, Heap.bytes_nil] at htotal
  subst htotal
  exact ⟨hfine, data, h'⟩

/-- The base layer builds the result of the overview, or leaves nothing. -/
theorem buildParsedResult_spec (hok : BaseOk options bytes input header spans)
    (hbound : ∀ cap ∈ account.bound, allocationLimit options ≤ cap)
    (hfine : account.fine → sizes.result + header.spanCount * sizes.span +
      packedColumns spans * sizes.column ≤ allocationLimit options) :
    Attempt.Spec (Holding account [] [] 0 count emptyData)
      (buildParsedResult sizes (effectiveOptions options) input (packedColumns spans))
      (fun _ work => sizes.result + header.spanCount * sizes.span +
          packedColumns spans * sizes.column ≤ allocationLimit options ∧
        Built sizes account 0 (count + 1) (overviewData input header spans) work)
      (Nothing account count) := by
  have hg := hok.geometry
  have hlen : input.payload.length ≤ uint64Max := hok.container.payload_le
  have hheader : readWovrHeader input.payload = .ok header := by
    rw [readWovrHeader_eq hg.headerOk.size, ← hg.header_eq]
  have hspans : spans.length = header.spanCount := by rw [hg.spans_eq, length_spanTable]
  have hspanCount : header.spanCount ≤ uint32Max := by
    rw [hg.header_eq]
    exact Nat.le_of_lt_succ field_lt
  have hpacked := hg.packed
  have hcolumnCount : 1 ≤ packedColumns spans := hg.one_le_packedColumns
  have hspanPos : 1 ≤ header.spanCount := Nat.pos_of_ne_zero hg.headerOk.spans
  obtain ⟨hresult, hspan, hcolumn, -⟩ := sizes.pos
  obtain ⟨hresultLe, hspanLe, hcolumnLe, -⟩ := sizes.le
  have hspanBytes : header.spanCount * sizes.span ≤ uint32Max * 65536 :=
    Nat.mul_le_mul hspanCount hspanLe
  have hcolumnBytes : packedColumns spans * sizes.column ≤ uint32Max * 65536 :=
    Nat.mul_le_mul hpacked hcolumnLe
  have hneeded : sizes.result + header.spanCount * sizes.span +
      packedColumns spans * sizes.column ≤ uint64Max := by
    have hmax : 65536 + uint32Max * 65536 + uint32Max * 65536 ≤ uint64Max := by decide
    omega
  have hspanBytesPos : 1 ≤ header.spanCount * sizes.span := Nat.mul_pos hspanPos hspan
  have hcolumnBytesPos : 1 ≤ packedColumns spans * sizes.column := Nat.mul_pos hcolumnCount hcolumn
  refine Attempt.Spec.bind_ok hheader ?_
  refine Attempt.Spec.bind_ok (Check.within_of_le hneeded) ?_
  refine Attempt.Spec.bind_rejectIf ?_ fun hfits => ?_
  · intro hover work h
    rw [effectiveOptions_maximumAllocationBytes] at hover
    exact ⟨fun hf => absurd (hfine hf) (not_le.mpr hover), emptyData, h⟩
  rw [effectiveOptions_maximumAllocationBytes, not_lt] at hfits
  have hroom : ∀ cap ∈ account.bound, sizes.result + header.spanCount * sizes.span +
      packedColumns spans * sizes.column ≤ cap := fun cap hcap => hfits.trans (hbound cap hcap)
  have hroomResult : ∀ cap ∈ account.bound, 0 + sizes.result ≤ cap := by
    intro cap hcap
    have := hroom cap hcap
    omega
  have hroomSpans : ∀ cap ∈ account.bound,
      0 + sizes.result + header.spanCount * sizes.span ≤ cap := by
    intro cap hcap
    have := hroom cap hcap
    omega
  have hroomColumns : ∀ cap ∈ account.bound, 0 + sizes.result + header.spanCount * sizes.span +
      packedColumns spans * sizes.column ≤ cap := by
    intro cap hcap
    have := hroom cap hcap
    omega
  refine Attempt.Spec.bind ((allocateInto_spec List.not_mem_nil hresult hroomResult).mono
    (fun _ h => h) (fun _ _ h => h) ?_) fun _ => ?_
  · rintro _ work ⟨hnot, h⟩
    exact ⟨hnot, _, h⟩
  refine Attempt.Spec.bind (Attempt.Spec.onReject
    (allocateInto_spec (by decide) hspanBytesPos hroomSpans) fun code => ?_) fun _ => ?_
  · exact freeAll_spec (by decide)
  refine Attempt.Spec.bind (Attempt.Spec.onReject
    (allocateInto_spec (by decide) hcolumnBytesPos hroomColumns) fun code => ?_) fun _ => ?_
  · exact freeAll_spec (by decide)
  refine Attempt.Spec.bind_ok (copyOverview_eq hlen hg le_rfl) ?_
  refine Attempt.Spec.bind setData_spec fun _ => countResult_spec.post fun _ work h => ?_
  have hdata : charge sizes (overviewData input header spans) = 0 + sizes.result +
      header.spanCount * sizes.span + packedColumns spans * sizes.column := by
    rw [charge_overviewData sizes hspans, Nat.zero_add]
  refine ⟨hfits, ?_⟩
  rw [Built, hdata]
  exact h.mono (by decide)

theorem ContainerOk.unique {strict : Bool} {input' : WovrInput} (h : ContainerOk strict bytes input)
    (h' : ContainerOk strict bytes input') : input' = input := by
  have hpayload : [input.payload] = [input'.payload] := by
    rw [← h.overview_eq, ← h'.overview_eq]
  have hheader : input.header = input'.header := by
    rw [h.header_eq, h'.header_eq]
  obtain ⟨header, payload⟩ := input
  obtain ⟨header', payload'⟩ := input'
  obtain ⟨rfl, -⟩ := List.cons.inj hpayload
  obtain rfl : header = header' := hheader
  rfl

/-- What the base layer accepts is determined. -/
theorem BaseOk.unique {input' : WovrInput} {header' : WovrHeader} {spans' : List SpanEntry}
    (h : BaseOk options bytes input header spans) (h' : BaseOk options bytes input' header' spans') :
    input' = input ∧ header' = header ∧ spans' = spans := by
  have hinput : input' = input := h.container.unique h'.container
  subst hinput
  have hheader : header' = header := h'.geometry.header_eq.trans h.geometry.header_eq.symm
  subst hheader
  exact ⟨rfl, rfl, h'.geometry.spans_eq.trans h.geometry.spans_eq.symm⟩

/-- The base layer accepts what `BaseOk` says, or leaves nothing. -/
theorem parseBase_spec (hbuffer : bytes.length ≤ uint64Max)
    (hbound : ∀ cap ∈ account.bound, allocationLimit options ≤ cap)
    (hfine : account.fine → BaseFine sizes options bytes) :
    Attempt.Spec (Holding account [] [] 0 count emptyData) (parseBase sizes options bytes)
      (fun _ work => ∃ input header spans, BaseOk options bytes input header spans ∧
        BaseLimits sizes options bytes header spans ∧
        Built sizes account 0 (count + 1) (overviewData input header spans) work)
      (Nothing account count) := by
  have hnothing : ∀ code work, ¬ account.fine → Holding account [] [] 0 count emptyData work →
      Nothing account count code work := fun _ _ hnot h => ⟨hnot, emptyData, h⟩
  have hresolve : Check.Safe (resolveParseOptions options) :=
    Check.safe_bind (Check.safe_rejectIf _ _) fun _ _ => Check.safe_ok _
  refine Attempt.Spec.bind_check hresolve ?_ fun effective heffective => ?_
  · intro code work hrejected
    refine hnothing code work fun hf => ?_
    obtain ⟨_, _, _, hok, -⟩ := hfine hf
    simp [resolveParseOptions, hok.valid, Check.rejectIf] at hrejected
    cases hrejected
  simp only [resolveParseOptions, Check.bind_eq_ok, Check.rejectIf_eq_ok, Bool.not_eq_false,
    exists_const, Check.pure_eq_ok, Except.ok.injEq] at heffective
  obtain ⟨hvalid, rfl⟩ := heffective
  refine Attempt.Spec.bind_check (validateContainer_safe hbuffer) ?_ fun input hinput => ?_
  · intro code work hrejected
    refine hnothing code work fun hf => ?_
    obtain ⟨input, _, _, hok, hlimits⟩ := hfine hf
    have haccepted : validateContainer (effectiveOptions options) bytes = .ok input :=
      validateContainer_eq_ok.mpr ⟨by rw [effectiveOptions_strict]; exact hok.container,
        hlimits.container⟩
    rw [haccepted] at hrejected
    cases hrejected
  obtain ⟨hcontainer, hheaderLimits⟩ := validateContainer_eq_ok.mp hinput
  rw [effectiveOptions_strict] at hcontainer
  have htotal : input.header.totalSourceFrames ≤ uint64Max := by
    rw [hcontainer.header_eq]
    exact Nat.le_of_lt_succ field_lt
  have hlen := hcontainer.payload_le
  refine Attempt.Spec.bind_check (validateWovrGeometry_safe htotal hlen) ?_ fun packed hpacked => ?_
  · intro code work hrejected
    refine hnothing code work fun hf => ?_
    obtain ⟨input', header, spans, hok, hlimits⟩ := hfine hf
    have hsame : input' = input := by
      have haccepted : validateContainer (effectiveOptions options) bytes = .ok input' :=
        validateContainer_eq_ok.mpr ⟨by rw [effectiveOptions_strict]; exact hok.container,
          hlimits.container⟩
      exact Except.ok.inj (haccepted.symm.trans hinput)
    subst hsame
    have haccepted : validateWovrGeometry (effectiveOptions options) input' =
        .ok (packedColumns spans) :=
      (validateWovrGeometry_eq_ok htotal hlen).mpr ⟨header, spans,
        by rw [effectiveOptions_strict]; exact hok.geometry, hlimits.overview,
        by rw [effectiveOptions_maximumWaveformColumns]; exact hlimits.columns, rfl⟩
    rw [haccepted] at hrejected
    cases hrejected
  obtain ⟨header, spans, hgeometry, hoverview, hcolumns, rfl⟩ :=
    (validateWovrGeometry_eq_ok htotal hlen).mp hpacked
  rw [effectiveOptions_strict] at hgeometry
  rw [effectiveOptions_maximumWaveformColumns] at hcolumns
  have hok : BaseOk options bytes input header spans := ⟨hvalid, hcontainer, hgeometry⟩
  have hneeded : account.fine → sizes.result + header.spanCount * sizes.span +
      packedColumns spans * sizes.column ≤ allocationLimit options := by
    intro hf
    obtain ⟨input', header', spans', hok', hlimits⟩ := hfine hf
    obtain ⟨rfl, rfl, rfl⟩ := hok.unique hok'
    exact hlimits.allocation
  refine (buildParsedResult_spec hok hbound hneeded).post ?_
  rintro _ work ⟨hallocation, hbuilt⟩
  exact ⟨input, header, spans, hok, ⟨hheaderLimits, hoverview, hcolumns, hallocation⟩, hbuilt⟩

end Base

end LibApta.Container
