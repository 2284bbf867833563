import LibApta.Serialization.Relaxation

/-!
# The limit on allocated bytes

Every array of a result is charged against the limit before it is requested, and so is the interval
array of the detail pass. The interval array of the overview hardening is not: a parse stays within
its limit exactly when that array fits besides the result the base layer built.
-/

namespace LibApta.Container

open LittleEndian

/-! ## The peak never falls -/

/-- The largest number of bytes the allocator of a work has given out. -/
def Work.peak (work : Work) : ℕ := work.context.heap.peakBytes

section Grows

theorem peak_allocate (size : ℕ) (heap : Heap) : heap.peakBytes ≤ (heap.allocate size).2.peakBytes := by
  rcases Heap.allocate_cases size heap with ⟨grants, hrefused⟩ | hgranted
  · rw [hrefused]
  · rw [hgranted]
    exact le_max_left _ _

theorem peak_deallocate {pointer : Option Block} {heap heap' : Heap}
    (h : (heap.deallocate pointer : Check ErrorCode Heap) = .ok heap') :
    heap'.peakBytes = heap.peakBytes := by
  cases pointer with
  | none =>
      obtain rfl := Except.ok.inj h
      rfl
  | some block =>
      rw [Heap.deallocate] at h
      split at h
      case isTrue =>
        obtain rfl := Except.ok.inj h
        rfl
      case isFalse => cases h

theorem allocateInto_grows (slot : Slot) (size : ℕ) :
    Attempt.Grows Work.peak (allocateInto slot size) := by
  intro work
  have hpeak := peak_allocate size work.context.heap
  rw [allocateInto]
  rcases hrun : work.context.heap.allocate size with ⟨_ | block, heap⟩ <;> rw [hrun] at hpeak <;>
    exact hpeak

theorem tryAllocateInto_grows (slot : Slot) (size : ℕ) :
    Attempt.Grows Work.peak (tryAllocateInto slot size) :=
  fun work => peak_allocate size work.context.heap

theorem allocateTemporary_grows (size : ℕ) :
    Attempt.Grows Work.peak (allocateTemporary size) := by
  intro work
  have hpeak := peak_allocate size work.context.heap
  rw [allocateTemporary]
  rcases hrun : work.context.heap.allocate size with ⟨_ | block, heap⟩ <;> rw [hrun] at hpeak <;>
    exact hpeak

theorem deallocateTemporary_grows (block : Block) :
    Attempt.Grows Work.peak (deallocateTemporary block) := by
  intro work
  rw [deallocateTemporary, Attempt.update]
  rcases hrun : (work.context.heap.deallocate (some block) : Check ErrorCode Heap) with _ | heap
  · exact le_rfl
  · exact (peak_deallocate hrun).ge

theorem freeSlot_grows (slot : Slot) : Attempt.Grows Work.peak (freeSlot slot) := by
  intro work
  rw [freeSlot, Attempt.update]
  rcases hrun : (work.context.heap.deallocate (work.parsed.pointers slot) : Check ErrorCode Heap)
    with _ | heap
  · exact le_rfl
  · exact (peak_deallocate hrun).ge

theorem freeSlots_grows (slots : List Slot) : Attempt.Grows Work.peak (freeSlots slots) := by
  induction slots with
  | nil => exact Attempt.Grows.pure _
  | cons slot rest ih => exact (freeSlot_grows slot).bind fun _ => ih

theorem setData_grows (change : ResultData → ResultData) :
    Attempt.Grows Work.peak (setData change) := fun _ => le_rfl

theorem releaseResult_grows : Attempt.Grows Work.peak releaseResult :=
  (freeSlots_grows arraySlots).bind fun _ =>
    Attempt.Grows.bind (fun _ => le_rfl) fun _ => freeSlot_grows .result

theorem rejectIf_grows (bad : Prop) [Decidable bad] (code : ErrorCode) :
    Attempt.Grows Work.peak (Attempt.rejectIf bad code) := Attempt.Grows.check _

variable (sizes : Sizes) (options : Option ParseOptions) (bytes : Bytes)

theorem attachDetail_grows : Attempt.Grows Work.peak (attachDetail sizes options bytes) := by
  refine (Attempt.Grows.check _).bind fun layout => ?_
  split
  case isTrue => exact Attempt.Grows.pure _
  refine (Attempt.Grows.check _).bind fun _ => Attempt.Grows.get.bind fun _ =>
    (rejectIf_grows _ _).bind fun _ => (allocateTemporary_grows _).bind fun block => ?_
  refine ((Attempt.Grows.check _).ensuring (deallocateTemporary_grows block)).bind fun _ => ?_
  exact (allocateInto_grows _ _).bind fun _ => (allocateInto_grows _ _).bind fun _ =>
    (Attempt.Grows.check _).bind fun _ => (Attempt.Grows.check _).bind fun _ => setData_grows _

theorem attachMetadata_grows : Attempt.Grows Work.peak (attachMetadata sizes options bytes) := by
  refine (Attempt.Grows.check _).bind fun found => ?_
  rcases found with _ | payload
  · exact Attempt.Grows.pure _
  refine (Attempt.Grows.check _).bind fun metadata => (Attempt.Grows.check _).bind fun _ =>
    Attempt.Grows.get.bind fun _ => (rejectIf_grows _ _).bind fun _ =>
      (rejectIf_grows _ _).bind fun _ => ?_
  dsimp only
  split
  case isTrue => exact (Attempt.Grows.check _).bind fun _ => setData_grows _
  case isFalse =>
    exact (allocateInto_grows _ _).bind fun _ => (Attempt.Grows.check _).bind fun _ =>
      setData_grows _

theorem attachTempo_grows : Attempt.Grows Work.peak (attachTempo sizes options bytes) := by
  refine (Attempt.Grows.check _).bind fun flags => (Attempt.Grows.check _).bind fun found => ?_
  rcases found with ⟨_ | temp, grid⟩
  · exact Attempt.Grows.pure _
  have htemp : Attempt.Grows Work.peak
      (parseTemp sizes options (payloadContext options flags) temp.payload) :=
    (Attempt.Grows.check _).bind fun _ => (Attempt.Grows.check _).bind fun _ =>
      Attempt.Grows.get.bind fun _ => (rejectIf_grows _ _).bind fun _ =>
        (allocateInto_grows _ _).bind fun _ => (Attempt.Grows.check _).bind fun _ =>
          setData_grows _
  refine htemp.bind fun _ => ?_
  rcases grid with _ | grid
  · exact Attempt.Grows.pure _
  · exact (Attempt.Grows.check _).bind fun _ => Attempt.Grows.get.bind fun _ =>
      (rejectIf_grows _ _).bind fun _ => (rejectIf_grows _ _).bind fun _ =>
        (tryAllocateInto_grows _ _).bind fun _ => (tryAllocateInto_grows _ _).bind fun _ =>
          Attempt.Grows.get.bind fun _ => (rejectIf_grows _ _).bind fun _ => setData_grows _

theorem attachGrid_grows : Attempt.Grows Work.peak (attachGrid sizes options bytes) := by
  refine (Attempt.Grows.check _).bind fun flags => (Attempt.Grows.check _).bind fun found => ?_
  rcases found with _ | ⟨ggrd, revn⟩
  · exact Attempt.Grows.pure _
  have hlast : ∀ header : GgrdHeader, Attempt.Grows Work.peak
      (do
        let work ← Attempt.get
        Attempt.rejectIf (work.parsed.pointers .gridCoverage = none ∨
          work.parsed.pointers .gridSegments = none ∨
          (header.beatCount ≠ 0 ∧ work.parsed.pointers .gridBeats = none)) .outOfMemory
        let segments ← Attempt.check (copySegments header.segmentCount
          (payloadContext options flags) ggrd.payload header)
        let beats ← Attempt.check (copyBeats header.beatCount (payloadContext options flags)
          ggrd.payload header)
        return header.grid segments beats) := fun header =>
    Attempt.Grows.get.bind fun _ => (rejectIf_grows _ _).bind fun _ =>
      (Attempt.Grows.check _).bind fun _ => (Attempt.Grows.check _).bind fun _ =>
        Attempt.Grows.pure _
  have hgrid : Attempt.Grows Work.peak
      (parseGlobalGrid sizes options (payloadContext options flags) ggrd.payload) := by
    refine (Attempt.Grows.check _).bind fun header => (Attempt.Grows.check _).bind fun _ =>
      Attempt.Grows.get.bind fun _ => (rejectIf_grows _ _).bind fun _ =>
        (allocateInto_grows _ _).bind fun _ => (tryAllocateInto_grows _ _).bind fun _ =>
          (tryAllocateInto_grows _ _).bind fun _ => ?_
    dsimp only
    split
    case isTrue => exact hlast header
    case isFalse => exact (tryAllocateInto_grows _ _).bind fun _ => hlast header
  exact Attempt.Grows.get.bind fun _ => (rejectIf_grows _ _).bind fun _ => hgrid.bind fun _ =>
    (Attempt.Grows.check _).bind fun _ => setData_grows _

theorem context_ofRun (outcome : Except (Stop ErrorCode) Unit × Work) :
    (Reply.ofRun outcome).context = outcome.2.context := by
  rcases outcome with ⟨_ | _, work⟩ <;> rfl

/-- A layer makes the peak of the layer below no smaller. -/
theorem peak_extend {inner : Context → Reply} {stage : Attempt Work ErrorCode Unit}
    (hstage : Attempt.Grows Work.peak stage) (context : Context) :
    (inner context).context.heap.peakBytes ≤
      (extend inner stage context).context.heap.peakBytes := by
  rw [extend]
  obtain ⟨status, resultOut, next⟩ := inner context
  rcases status with _ | _
  · exact le_rfl
  rcases resultOut with _ | parsed
  · exact le_rfl
  dsimp only
  rw [context_ofRun]
  exact (hstage.onReject releaseResult_grows) ⟨next, parsed⟩

theorem peak_hardenMeta {options : Option ParseOptions} {inner : Context → Reply}
    (hvalid : optionsValid options = true) (context : Context) :
    (hardenMeta options inner context).context = (inner context).context := by
  rw [hardenMeta, if_neg (by simp [hvalid])]
  dsimp only
  split <;> rfl

end Grows

/-! ## Measuring a parse -/

/-- The context with the peak set back to the bytes given out. -/
def Context.remeasured (context : Context) : Context :=
  { context with heap := { context.heap with peakBytes := context.heap.allocatedBytes } }

/-- The largest number of bytes that were live at once on behalf of a parse. -/
def liveBytes (sizes : Sizes) (options : Option ParseOptions) (bytes : Bytes) (context : Context) :
    ℕ :=
  (resultParse sizes options bytes context.remeasured).context.heap.peakBytes -
    context.heap.allocatedBytes

/-- The options with the limit on allocated bytes out of the way. -/
def unlimited : Option ParseOptions → Option ParseOptions
  | none => some ⟨1, 0, 0, 0, 0, uint64Max, []⟩
  | some options => some { options with maximumAllocationBytes := uint64Max }

/-- A parse stays within the limit on allocated bytes: what is live on its behalf never exceeds it,
and a container that would need more is rejected for the limit. -/
structure LimitKept (sizes : Sizes) (options : Option ParseOptions) (bytes : Bytes) : Prop where
  within : ∀ context, liveBytes sizes options bytes context ≤ allocationLimit options
  rejected : ∀ context : Context,
    (resultParse sizes (unlimited options) bytes context.remeasured).status = .ok () →
    allocationLimit options < liveBytes sizes (unlimited options) bytes context →
    (resultParse sizes options bytes context.remeasured).status = Check.reject .limitExceeded

/-- The interval array of the overview hardening fits the limit besides the result of the base
layer, if the base layer accepts the container at all. -/
def HardeningFits (sizes : Sizes) (options : Option ParseOptions) (bytes : Bytes) : Prop :=
  ∀ input header spans, BaseOk options bytes input header spans →
    BaseLimits sizes options bytes header spans →
    sizes.result + header.spanCount * sizes.span + packedColumns spans * sizes.column +
      header.spanCount * intervalSize ≤ allocationLimit options

section Limit

variable {sizes : Sizes} {options : Option ParseOptions} {bytes : Bytes} {input : WovrInput}
  {header : WovrHeader} {spans : List SpanEntry}

theorem charge_base (hok : BaseOk options bytes input header spans) (sizes : Sizes) :
    charge sizes (overviewData input header spans) = sizes.result +
      header.spanCount * sizes.span + packedColumns spans * sizes.column :=
  charge_overviewData sizes (by rw [hok.geometry.spans_eq, length_spanTable])

theorem isStrict_unlimited (options : Option ParseOptions) :
    isStrict (unlimited options) = isStrict options := by
  cases options <;> rfl

theorem optionsValid_unlimited (options : Option ParseOptions) :
    optionsValid (unlimited options) = optionsValid options := by
  cases options <;> rfl

/-- Within the limit nothing else changes. -/
theorem within_of_fits (buffer : Buffer) (h : HardeningFits sizes options buffer.bytes)
    (context : Context) :
    liveBytes sizes options buffer.bytes context ≤ allocationLimit options := by
  have houtcome := @resultParse_answers sizes options buffer.bytes
    ⟨context.remeasured, some (allocationLimit options), False⟩ context.resultCount
    ⟨buffer.size_le, ⟨fun _ _ => Nat.le_add_right _ _, False.elim, rfl⟩, ?_, ?_, False.elim⟩
  · rw [liveBytes]
    have hallocated : context.remeasured.heap.allocatedBytes = context.heap.allocatedBytes := rfl
    generalize resultParse sizes options buffer.bytes context.remeasured = reply at houtcome ⊢
    cases houtcome with
    | given hparses =>
        obtain ⟨_, _, _, -, -, hbuilt⟩ := hparses
        have hpeak := hbuilt.owned.bound _ rfl
        dsimp only at hpeak ⊢
        omega
    | refused _ hcleared =>
        have hpeak := hcleared.bound _ rfl
        dsimp only at hpeak ⊢
        omega
  · rintro cap ⟨⟩
    exact le_rfl
  · rintro cap ⟨⟩ input header spans hok hlimits
    rw [charge_base hok]
    exact h input header spans hok hlimits

/-- On a heap that refuses nothing the overview hardening requests its interval array. -/
theorem peak_hardenWovr (hok : BaseOk options bytes input header spans) {work : Work}
    (hgenerous : work.context.heap.Generous) :
    work.context.heap.allocatedBytes + header.spanCount * intervalSize ≤
      (hardenWovr bytes work).2.peak := by
  have hg := hok.geometry
  have hsize := hok.container.size
  have hheader : readWovrHeader input.payload = .ok header := by
    rw [readWovrHeader_eq hg.headerOk.size, ← hg.header_eq]
  have htotal : (Check.read 8 bytes 40 : Check ErrorCode ℕ) =
      .ok (headerOf bytes).totalSourceFrames := Check.read_of_le (by omega)
  have hspanCount : header.spanCount ≤ uint32Max := by
    rw [hg.header_eq]
    exact Nat.le_of_lt_succ field_lt
  have hproduct : ¬ uint64Max < header.spanCount * intervalSize := by
    have hle : header.spanCount ≤ 4294967295 := hspanCount
    show ¬ 18446744073709551615 < _ * 16
    omega
  have hpos : 1 ≤ header.spanCount * intervalSize :=
    Nat.mul_pos (Nat.pos_of_ne_zero hg.headerOk.spans) (by decide)
  have hgranted := hgenerous.allocate (header.spanCount * intervalSize)
  rw [max_eq_left hpos] at hgranted
  have hpass : (Attempt.rejectIf (uint64Max < header.spanCount * intervalSize) .limitExceeded :
      Attempt Work ErrorCode Unit) work = (.ok (), work) :=
    Attempt.check_eq_ok.mpr ⟨Check.rejectIf_eq_ok.mpr hproduct, rfl⟩
  have hrun : hardenWovr bytes work =
      (Attempt.check (hardenIntervals header.spanCount (headerOf bytes).totalSourceFrames
        input.payload header)).ensuring
          (deallocateTemporary ⟨work.context.heap.nextId, header.spanCount * intervalSize⟩)
        (work.withHeap (work.context.heap.grant (header.spanCount * intervalSize))) := by
    rw [hardenWovr, Attempt.bind_of_ok (Attempt.check_eq_ok.mpr ⟨findWovrPayload_eq hok.container,
      rfl⟩), Attempt.bind_of_ok (Attempt.check_eq_ok.mpr ⟨htotal, rfl⟩)]
    dsimp only
    rw [Attempt.bind_of_ok (Attempt.check_eq_ok.mpr ⟨hheader, rfl⟩), Attempt.bind_of_ok hpass]
    have hallocate : allocateTemporary (header.spanCount * intervalSize) work =
        (.ok ⟨work.context.heap.nextId, header.spanCount * intervalSize⟩,
          work.withHeap (work.context.heap.grant (header.spanCount * intervalSize))) := by
      rw [allocateTemporary, hgranted]
    rw [Attempt.bind_of_ok hallocate]
  rw [hrun]
  refine le_trans ?_ (((Attempt.Grows.check _).ensuring (deallocateTemporary_grows _)) _)
  exact le_max_right _ _

/-- A parse on a fresh heap reaches the bytes of the base result and of the interval array. -/
theorem liveBytes_ge (buffer : Buffer) (hok : BaseOk options buffer.bytes input header spans)
    (hlimits : BaseLimits sizes options buffer.bytes header spans) :
    sizes.result + header.spanCount * sizes.span + packedColumns spans * sizes.column +
      header.spanCount * intervalSize ≤ liveBytes sizes options buffer.bytes ⟨freshHeap, 0⟩ := by
  have hvalid := hok.valid
  have hstart : Starts ⟨⟨freshHeap, 0⟩, none, True⟩ 0 :=
    ⟨fun _ hcap => absurd hcap (Option.not_mem_none _), fun _ => ⟨rfl, rfl⟩, rfl⟩
  have hbase := Reply.answers_ofRun (parseBase_spec buffer.size_le
    (fun _ hcap => absurd hcap (Option.not_mem_none _))
    (fun _ => ⟨input, header, spans, hok, hlimits⟩) _ hstart.holding)
  have hpeakHardened : sizes.result + header.spanCount * sizes.span +
      packedColumns spans * sizes.column + header.spanCount * intervalSize ≤
        (resultParseWovrHardened sizes options buffer.bytes
          ⟨freshHeap, 0⟩).context.heap.peakBytes := by
    have hbase' : Reply.Answers ⟨⟨freshHeap, 0⟩, none, True⟩ 0 _
        (resultParseBase sizes options buffer.bytes ⟨freshHeap, 0⟩) := hbase
    rw [resultParseWovrHardened, extend]
    generalize resultParseBase sizes options buffer.bytes ⟨freshHeap, 0⟩ = reply at hbase' ⊢
    cases hbase' with
    | refused hfine => exact absurd trivial hfine
    | given h =>
        rename_i parsed next
        obtain ⟨input', header', spans', hok', -, hbuilt⟩ := h
        obtain ⟨rfl, rfl, rfl⟩ := hok.unique hok'
        have hallocated := hbuilt.owned.allocated
        rw [charge_base hok, Heap.bytes_nil, Nat.zero_add] at hallocated
        have hallocated' : next.heap.allocatedBytes = sizes.result +
            header'.spanCount * sizes.span + packedColumns spans' * sizes.column := by
          rw [hallocated]
          exact Nat.zero_add _
        have hpeak := peak_hardenWovr hok (hbuilt.owned.generous trivial)
        rw [← hallocated']
        refine hpeak.trans ?_
        rw [context_ofRun]
        exact releaseResult_grows.after_onReject (hardenWovr buffer.bytes) ⟨next, parsed⟩
  have hwaveform := @peak_extend (resultParseWovrHardened sizes options buffer.bytes) _
    (attachDetail_grows sizes options buffer.bytes) ⟨freshHeap, 0⟩
  have hmetadata := @peak_extend (resultParseWaveform sizes options buffer.bytes) _
    (attachMetadata_grows sizes options buffer.bytes) ⟨freshHeap, 0⟩
  have hhardenMeta := @peak_hardenMeta options (extend (resultParseWaveform sizes options
    buffer.bytes) (attachMetadata sizes options buffer.bytes)) hvalid ⟨freshHeap, 0⟩
  have htempo := @peak_extend (resultParseMetaHardened sizes options buffer.bytes) _
    (attachTempo_grows sizes options buffer.bytes) ⟨freshHeap, 0⟩
  have hgrid := @peak_extend (resultParseS4 sizes options buffer.bytes) _
    (attachGrid_grows sizes options buffer.bytes) ⟨freshHeap, 0⟩
  have hmeta : (resultParseMetaHardened sizes options buffer.bytes
      ⟨freshHeap, 0⟩).context.heap.peakBytes = (extend (resultParseWaveform sizes options
        buffer.bytes) (attachMetadata sizes options buffer.bytes)
          ⟨freshHeap, 0⟩).context.heap.peakBytes := congrArg (·.heap.peakBytes) hhardenMeta
  show _ ≤ (resultParse sizes options buffer.bytes ⟨freshHeap, 0⟩).context.heap.peakBytes - 0
  rw [Nat.sub_zero]
  calc _ ≤ _ := hpeakHardened
    _ ≤ _ := hwaveform
    _ ≤ _ := hmetadata
    _ = _ := hmeta.symm
    _ ≤ _ := htempo
    _ ≤ _ := hgrid

theorem readsMore_unlimited (options : Option ParseOptions) :
    ReadsMore (unlimited options) options := by
  refine ⟨?_, ?_, ?_, ?_, ?_, ?_⟩
  · rw [optionsValid_unlimited]
    exact id
  · rw [isStrict_unlimited]
    exact id
  all_goals cases options <;> exact le_rfl

/-- A container that would need more than the limit is rejected for the limit. -/
theorem rejected_of_fits (buffer : Buffer) (h : HardeningFits sizes options buffer.bytes)
    (context : Context)
    (haccepted : (resultParse sizes (unlimited options) buffer.bytes
      context.remeasured).status = .ok ())
    (hover : allocationLimit options < liveBytes sizes (unlimited options) buffer.bytes context) :
    (resultParse sizes options buffer.bytes context.remeasured).status =
      Check.reject .limitExceeded := by
  obtain ⟨_, _, input, header, spans, -, haccepts, hlimits⟩ := resultParse_ok haccepted
  have hresembles : Resembles (fun code => code = .limitExceeded) (unlimited options) options
      buffer.bytes buffer.bytes input input :=
    (readsMore_unlimited options).resembles (.inr rfl) haccepts hlimits
  have hcode : ¬ (fun code => code = ErrorCode.limitExceeded) .invalidArgument := by
    rintro ⟨⟩
  obtain hsame | ⟨code, rfl, hrejected⟩ :=
    resultParse_below hcode hresembles haccepts.base.valid haccepted
  · have hwithin := within_of_fits buffer h context
    rw [liveBytes, hsame] at hwithin
    exact absurd hwithin (not_le.mpr hover)
  · exact hrejected

/-- A parse stays within its limit exactly when the interval array of the overview hardening fits
besides the result of the base layer. -/
theorem limitKept_iff (sizes : Sizes) (options : Option ParseOptions) (buffer : Buffer) :
    LimitKept sizes options buffer.bytes ↔ HardeningFits sizes options buffer.bytes := by
  constructor
  · intro hkept input header spans hok hlimits
    exact (liveBytes_ge buffer hok hlimits).trans (hkept.within _)
  · intro hfits
    exact ⟨within_of_fits buffer hfits, rejected_of_fits buffer hfits⟩

/-- The limit leaves room for the result of the small container, but the interval array goes beyond
it. -/
theorem smallContainer_exceeds : ¬ LimitKept sampleSizes (strictOptions 0 564) smallContainer := by
  intro hkept
  have hlimits := (@smallContainer_fits sampleSizes 0 564 (by decide) (by decide)).base
  have hlive := liveBytes_ge ⟨smallContainer, by decide +kernel⟩ (smallContainer_base 0 564) hlimits
  have hbound : 580 ≤ 564 := hlive.trans (hkept.within _)
  exact absurd hbound (by decide)

end Limit

end LibApta.Container
