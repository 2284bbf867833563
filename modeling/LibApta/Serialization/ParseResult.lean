import LibApta.Serialization.GridStages

/-!
# What a parse gives

The layers of the parser put together. A reply either gives out a result that took all steps and is
charged in full, or gives out nothing and leaves the context as it found it.
-/

namespace LibApta.Container

open LittleEndian

/-! ## Steps are functions -/

section Steps

variable {options : Option ParseOptions} {bytes : Bytes} {data first second : ResultData}

theorem DetailStep.unique (h : DetailStep options bytes data first)
    (h' : DetailStep options bytes data second) : first = second := by
  rw [DetailStep] at h h'
  split at h
  case isTrue hnone =>
    rw [if_pos hnone] at h'
    exact h.trans h'.symm
  case isFalse hsome =>
    rw [if_neg hsome] at h'
    exact h.2.trans h'.2.symm

theorem MetadataStep.unique (h : MetadataStep bytes data first)
    (h' : MetadataStep bytes data second) : first = second := by
  obtain ⟨hnone, rfl⟩ | ⟨payload, metadata, hpayload, hparse, -, rfl⟩ := h
  · obtain ⟨-, rfl⟩ | ⟨_, _, hpayload, -⟩ := h'
    · rfl
    · rw [hnone] at hpayload
      cases hpayload
  · obtain ⟨hnone, -⟩ | ⟨payload', metadata', hpayload', hparse', -, rfl⟩ := h'
    · rw [hnone] at hpayload
      cases hpayload
    · obtain ⟨rfl, -⟩ := List.cons.inj (hpayload.symm.trans hpayload')
      obtain rfl := Except.ok.inj (hparse.symm.trans hparse')
      rfl

theorem LocalGridStep.unique (h : LocalGridStep options bytes data first)
    (h' : LocalGridStep options bytes data second) : first = second := by
  obtain ⟨hnone, rfl⟩ | ⟨grid, hgrid, -, -, rfl⟩ := h
  · obtain ⟨-, rfl⟩ | ⟨_, hgrid, -⟩ := h'
    · rfl
    · rw [hnone] at hgrid
      cases hgrid
  · obtain ⟨hnone, -⟩ | ⟨grid', hgrid', -, -, rfl⟩ := h'
    · rw [hnone] at hgrid
      cases hgrid
    · obtain ⟨rfl, -⟩ := List.cons.inj (hgrid.symm.trans hgrid')
      rfl

theorem TempoStep.unique (h : TempoStep options bytes data first)
    (h' : TempoStep options bytes data second) : first = second := by
  obtain ⟨hnone, -, rfl⟩ | ⟨temp, htemp, -, hlocal⟩ := h
  · obtain ⟨-, -, rfl⟩ | ⟨_, htemp, -⟩ := h'
    · rfl
    · rw [hnone] at htemp
      cases htemp
  · obtain ⟨hnone, -⟩ | ⟨temp', htemp', -, hlocal'⟩ := h'
    · rw [hnone] at htemp
      cases htemp
    · obtain ⟨rfl, -⟩ := List.cons.inj (htemp.symm.trans htemp')
      exact hlocal.unique hlocal'

theorem GridStep.unique (h : GridStep options bytes data first)
    (h' : GridStep options bytes data second) : first = second := by
  obtain ⟨hnone, -, rfl⟩ | ⟨ggrd, revn, hggrd, hrevn, -, -, -, -, rfl⟩ := h
  · obtain ⟨-, -, rfl⟩ | ⟨_, _, hggrd, -⟩ := h'
    · rfl
    · rw [hnone] at hggrd
      cases hggrd
  · obtain ⟨hnone, -⟩ | ⟨ggrd', revn', hggrd', hrevn', -, -, -, -, rfl⟩ := h'
    · rw [hnone] at hggrd
      cases hggrd
    · obtain ⟨rfl, -⟩ := List.cons.inj (hggrd.symm.trans hggrd')
      obtain ⟨rfl, -⟩ := List.cons.inj (hrevn.symm.trans hrevn')
      rfl

/-- What the later stages attach is not attached yet. -/
structure Unattached (data : ResultData) : Prop where
  tempo : data.tempo = none
  localGrid : data.localGrid = none
  globalGrid : data.globalGrid = none

theorem DetailStep.unattached (h : DetailStep options bytes data first) (hdata : Unattached data)
    (hmetadata : data.metadata = none) : Unattached first ∧ first.metadata = none := by
  rw [DetailStep] at h
  split at h
  case isTrue =>
    subst h
    exact ⟨hdata, hmetadata⟩
  case isFalse =>
    obtain ⟨-, rfl⟩ := h
    exact ⟨⟨hdata.tempo, hdata.localGrid, hdata.globalGrid⟩, hmetadata⟩

theorem MetadataStep.unattached (h : MetadataStep bytes data first) (hdata : Unattached data) :
    Unattached first := by
  obtain ⟨-, rfl⟩ | ⟨_, _, -, -, -, rfl⟩ := h
  · exact hdata
  · exact ⟨hdata.tempo, hdata.localGrid, hdata.globalGrid⟩

theorem TempoStep.globalGrid (h : TempoStep options bytes data first) (hdata : Unattached data) :
    first.globalGrid = none := by
  obtain ⟨-, -, rfl⟩ | ⟨_, -, -, ⟨-, rfl⟩ | ⟨_, -, -, -, rfl⟩⟩ := h
  · exact hdata.globalGrid
  · exact hdata.globalGrid
  · exact hdata.globalGrid

/-! ## Charges grow -/

theorem TempoStep.charge_le (h : TempoStep options bytes data first) (hdata : Unattached data)
    (sizes : Sizes) : charge sizes data ≤ charge sizes first := by
  obtain ⟨-, -, rfl⟩ | ⟨temp, -, -, hlocal⟩ := h
  · exact le_rfl
  · have hgrid : (withTempo temp.payload data).localGrid = none := hdata.localGrid
    have hle := hlocal.charge_le hgrid sizes
    rw [charge_withTempo sizes hdata.tempo] at hle
    omega

theorem GridStep.charge_le (h : GridStep options bytes data first) (hempty : data.globalGrid = none)
    (sizes : Sizes) : charge sizes data ≤ charge sizes first := by
  obtain ⟨-, -, rfl⟩ | ⟨ggrd, revn, -, -, -, -, -, -, rfl⟩ := h
  · exact le_rfl
  · rw [charge_withGlobalGrid sizes hempty]
    exact Nat.le_add_right _ _

end Steps

/-! ## Replies -/

/-- What is left of a parse that gave no result. -/
structure Cleared (account : Account) (count : ℕ) (context : Context) : Prop where
  holds : Heap.Holds account.base.heap context.heap []
  bound : ∀ cap ∈ account.bound,
    context.heap.peakBytes ≤ account.base.heap.allocatedBytes + cap
  count : context.resultCount = count

/-- A reply gives out a result with `Q`; or it gives out nothing, nothing is left, and not
everything was fine. -/
inductive Reply.Answers (account : Account) (count : ℕ) (Q : Work → Prop) : Reply → Prop
  | given {parsed : Parsed} {context : Context} (h : Q ⟨context, parsed⟩) :
      Answers account count Q ⟨.ok (), some parsed, context⟩
  | refused {code : ErrorCode} {context : Context} (hfine : ¬ account.fine)
      (h : Cleared account count context) :
      Answers account count Q ⟨Check.reject code, none, context⟩

section Replies

variable {account : Account} {count : ℕ} {Q R : Work → Prop}

theorem Nothing.cleared {code : ErrorCode} {work : Work} (h : Nothing account count code work) :
    Cleared account count work.context := by
  obtain ⟨-, data, howned, hcount, -⟩ := h
  have hblocks : work.blocks = [] := by
    rw [Work.blocks, List.filterMap_eq_nil_iff]
    exact fun slot _ => howned.unused slot List.not_mem_nil
  have hholds := howned.holds
  rw [hblocks] at hholds
  exact ⟨hholds, howned.bound, hcount⟩

theorem Reply.answers_ofRun {outcome : Except (Stop ErrorCode) Unit × Work}
    (h : Attempt.Ends (fun _ => Q) (Nothing account count) outcome) :
    Reply.Answers account count Q (Reply.ofRun outcome) := by
  rcases outcome with ⟨(_ | code) | _, work⟩
  · exact h.elim
  · exact .refused h.1 (@Nothing.cleared account count code work h)
  · exact .given h

/-- A layer extends the results of the layer below. -/
theorem Reply.Answers.extend {inner : Context → Reply} {stage : Attempt Work ErrorCode Unit}
    {context : Context} (hinner : Reply.Answers account count Q (inner context))
    (hstage : Attempt.Spec Q stage (fun _ => R) (Failed account (count + 1))) :
    Reply.Answers account count R (Container.extend inner stage context) := by
  rw [Container.extend]
  generalize inner context = reply at hinner ⊢
  cases hinner with
  | refused hfine h => exact .refused hfine h
  | given h =>
      refine answers_ofRun ?_
      refine Attempt.Spec.onReject hstage (fun code => ?_) _ h
      rintro work ⟨hfine, used, total, data, hwork⟩
      refine (releaseResult_spec work ⟨total, hwork⟩).mono (fun _ _ h => ⟨hfine, data, ?_⟩)
        fun _ _ h => h
      exact h

/-- The layer that answers for the options changes no answer but its code. -/
theorem Reply.Answers.hardenMeta {options : Option ParseOptions} {inner : Context → Reply}
    {context : Context} (hstart : Cleared account count context)
    (hvalid : account.fine → optionsValid options = true)
    (hinner : Reply.Answers account count Q (inner context)) :
    Reply.Answers account count Q (Container.hardenMeta options inner context) := by
  rw [Container.hardenMeta]
  split
  case isTrue hinvalid =>
    exact .refused (fun hf => Bool.noConfusion ((hvalid hf).symm.trans hinvalid)) hstart
  case isFalse =>
    generalize inner context = reply at hinner ⊢
    cases hinner with
    | given h => exact .given h
    | refused hfine h =>
        dsimp only
        split
        case isTrue => exact .refused hfine h
        case isFalse => exact .refused hfine h

end Replies

/-! ## The whole parser -/

/-- What the parser accepts of a container, apart from memory, and the result it makes of it. -/
structure Accepts (options : Option ParseOptions) (bytes : Bytes) (input : WovrInput)
    (header : WovrHeader) (spans : List SpanEntry) (data : ResultData) : Prop where
  base : BaseOk options bytes input header spans
  hardening : HardeningOk (headerOf bytes).totalSourceFrames header spans
  steps : ∃ detailed described timed,
    DetailStep options bytes (overviewData input header spans) detailed ∧
      MetadataStep bytes detailed described ∧ TempoStep options bytes described timed ∧
      GridStep options bytes timed data

/-- What the parser needs besides to succeed: the limits leave room. -/
structure Fits (sizes : Sizes) (options : Option ParseOptions) (bytes : Bytes) (input : WovrInput)
    (header : WovrHeader) (spans : List SpanEntry) (data : ResultData) : Prop where
  base : BaseLimits sizes options bytes header spans
  detail : sections bytes .detail ≠ [] → Affordable options
    (charge sizes (overviewData input header spans) + detailNeeded sizes bytes)
  result : Affordable options (charge sizes data)

/-- A container has one acceptable reading. -/
theorem Accepts.unique {options : Option ParseOptions} {bytes : Bytes} {input input' : WovrInput}
    {header header' : WovrHeader} {spans spans' : List SpanEntry} {data data' : ResultData}
    (h : Accepts options bytes input header spans data)
    (h' : Accepts options bytes input' header' spans' data') : data = data' := by
  obtain ⟨rfl, rfl, rfl⟩ := h.base.unique h'.base
  obtain ⟨_, _, _, hdetail, hmeta, htempo, hgrid⟩ := h.steps
  obtain ⟨_, _, _, hdetail', hmeta', htempo', hgrid'⟩ := h'.steps
  obtain rfl := hdetail.unique hdetail'
  obtain rfl := hmeta.unique hmeta'
  obtain rfl := htempo.unique htempo'
  exact hgrid.unique hgrid'

/-- What a parse gives out. -/
def Parses (sizes : Sizes) (options : Option ParseOptions) (bytes : Bytes) (account : Account)
    (count : ℕ) (work : Work) : Prop :=
  ∃ input header spans, Accepts options bytes input header spans work.parsed.data ∧
    BaseLimits sizes options bytes header spans ∧
    Built sizes account 5 (count + 1) work.parsed.data work

/-- What a parse starts from. -/
structure Starts (account : Account) (count : ℕ) : Prop where
  bound : ∀ cap ∈ account.bound,
    account.base.heap.peakBytes ≤ account.base.heap.allocatedBytes + cap
  generous : account.fine → account.base.heap.Generous
  count : account.base.resultCount = count

section Parser

variable {sizes : Sizes} {options : Option ParseOptions} {bytes : Bytes} {account : Account}
  {count : ℕ}

theorem Starts.cleared (h : Starts account count) : Cleared account count account.base :=
  ⟨Heap.Holds.refl _, h.bound, h.count⟩

theorem Starts.holding (h : Starts account count) :
    Holding account [] [] 0 count emptyData ⟨account.base, Parsed.empty⟩ where
  owned := ⟨Heap.Holds.refl _, fun _ _ => rfl, rfl, h.bound, h.generous⟩
  count := h.count
  data := rfl

/-- What the account calls fine lets the parser succeed. -/
def Suffices (sizes : Sizes) (options : Option ParseOptions) (bytes : Bytes) (account : Account) :
    Prop :=
  account.fine → ∃ input header spans data, Accepts options bytes input header spans data ∧
    Fits sizes options bytes input header spans data

/-- With the base layer done, the steps that make the parser succeed start from its result. -/
theorem Suffices.steps (h : Suffices sizes options bytes account) {input : WovrInput}
    {header : WovrHeader} {spans : List SpanEntry} (hok : BaseOk options bytes input header spans)
    (hf : account.fine) : ∃ data, Accepts options bytes input header spans data ∧
      Fits sizes options bytes input header spans data := by
  obtain ⟨input', header', spans', data, haccepts, hfits⟩ := h hf
  obtain ⟨rfl, rfl, rfl⟩ := hok.unique haccepts.base
  exact ⟨data, haccepts, hfits⟩

/-- What is known of the result of an overview that later stages extend. -/
theorem unattached_overviewData (input : WovrInput) (header : WovrHeader)
    (spans : List SpanEntry) : Unattached (overviewData input header spans) := ⟨rfl, rfl, rfl⟩

/-- The base layer and the overview hardening were passed. -/
structure Hardened (sizes : Sizes) (options : Option ParseOptions) (bytes : Bytes)
    (input : WovrInput) (header : WovrHeader) (spans : List SpanEntry) : Prop where
  base : BaseOk options bytes input header spans
  limits : BaseLimits sizes options bytes header spans
  hardening : HardeningOk (headerOf bytes).totalSourceFrames header spans

/-- What a parse is run with: a buffer, a start, a bound that covers the limit and the interval
array of the overview hardening, and enough to succeed if all is fine. -/
structure Prepared (sizes : Sizes) (options : Option ParseOptions) (bytes : Bytes)
    (account : Account) (count : ℕ) : Prop where
  buffer : bytes.length ≤ uint64Max
  start : Starts account count
  bound : ∀ cap ∈ account.bound, allocationLimit options ≤ cap
  room : ∀ cap ∈ account.bound, ∀ input header spans,
    BaseOk options bytes input header spans → BaseLimits sizes options bytes header spans →
    charge sizes (overviewData input header spans) + header.spanCount * intervalSize ≤ cap
  enough : Suffices sizes options bytes account

/-- The overview layers. -/
theorem resultParseWovrHardened_answers (h : Prepared sizes options bytes account count) :
    Reply.Answers account count
      (fun work => ∃ input header spans, Hardened sizes options bytes input header spans ∧
        Built sizes account 0 (count + 1) (overviewData input header spans) work)
      (resultParseWovrHardened sizes options bytes account.base) := by
  have hbase : account.fine → BaseFine sizes options bytes := by
    intro hf
    obtain ⟨input, header, spans, data, haccepts, hfits⟩ := h.enough hf
    exact ⟨input, header, spans, haccepts.base, hfits.base⟩
  have hparsed := Reply.answers_ofRun (parseBase_spec h.buffer h.bound hbase _ h.start.holding)
  refine Reply.Answers.extend hparsed ?_
  rintro work ⟨input, header, spans, hok, hlimits, hbuilt⟩
  have hharden : account.fine → HardeningOk (headerOf bytes).totalSourceFrames header spans := by
    intro hf
    obtain ⟨_, haccepts, -⟩ := h.enough.steps hok hf
    exact haccepts.hardening
  have hcapRoom := fun cap hcap => h.room cap hcap input header spans hok hlimits
  refine (hardenWovr_spec hok hcapRoom hharden work hbuilt).mono ?_ fun _ _ h => h
  rintro _ next ⟨hhardening, hbuilt⟩
  exact ⟨input, header, spans, ⟨hok, hlimits, hhardening⟩, hbuilt⟩

/-- The waveform layers. -/
theorem resultParseWaveform_answers (h : Prepared sizes options bytes account count) :
    Reply.Answers account count
      (fun work => ∃ input header spans data, Hardened sizes options bytes input header spans ∧
        DetailStep options bytes (overviewData input header spans) data ∧
        Built sizes account 1 (count + 1) data work)
      (resultParseWaveform sizes options bytes account.base) := by
  refine (resultParseWovrHardened_answers h).extend ?_
  rintro work ⟨input, header, spans, hok, hbuilt⟩
  have hdetail : account.fine → sections bytes .detail ≠ [] → DetailAccepted options bytes ∧
      Affordable options (charge sizes (overviewData input header spans) +
        detailNeeded sizes bytes) := by
    intro hf hsome
    obtain ⟨_, haccepts, hfits⟩ := h.enough.steps hok.base hf
    obtain ⟨_, _, _, hstep, -⟩ := haccepts.steps
    rw [DetailStep, if_neg hsome] at hstep
    exact ⟨hstep.1, hfits.detail hsome⟩
  refine (attachDetail_spec hok.base.container rfl h.bound hdetail work hbuilt).mono ?_
    fun _ _ h => h
  rintro _ next ⟨data, hstep, hbuilt⟩
  exact ⟨input, header, spans, data, hok, hstep, hbuilt⟩

/-- The layers up to the metadata. -/
theorem resultParseMetaHardened_answers (h : Prepared sizes options bytes account count) :
    Reply.Answers account count
      (fun work => ∃ input header spans detailed data,
        Hardened sizes options bytes input header spans ∧
        DetailStep options bytes (overviewData input header spans) detailed ∧
        MetadataStep bytes detailed data ∧ Built sizes account 2 (count + 1) data work)
      (resultParseMetaHardened sizes options bytes account.base) := by
  have hvalid : account.fine → optionsValid options = true := by
    intro hf
    obtain ⟨_, _, _, _, haccepts, -⟩ := h.enough hf
    exact haccepts.base.valid
  refine Reply.Answers.hardenMeta h.start.cleared hvalid ?_
  refine (resultParseWaveform_answers h).extend ?_
  rintro work ⟨input, header, spans, detailed, hok, hdetail, hbuilt⟩
  obtain ⟨hunattached, hempty⟩ :=
    hdetail.unattached (unattached_overviewData input header spans) rfl
  have hmetadata : account.fine → ∃ data, MetadataStep bytes detailed data ∧
      Affordable options (charge sizes data) := by
    intro hf
    obtain ⟨_, haccepts, hfits⟩ := h.enough.steps hok.base hf
    obtain ⟨_, described, timed, hdetail', hmeta, htempo, hgrid⟩ := haccepts.steps
    obtain rfl := hdetail'.unique hdetail
    have hdescribed := hmeta.unattached hunattached
    have htempoLe := htempo.charge_le hdescribed sizes
    have hgridLe := hgrid.charge_le (htempo.globalGrid hdescribed) sizes
    exact ⟨described, hmeta, hfits.result.mono (htempoLe.trans hgridLe)⟩
  refine (attachMetadata_spec hok.base.container hempty h.bound hmetadata work hbuilt).mono ?_
    fun _ _ h => h
  rintro _ next ⟨data, hstep, hbuilt⟩
  exact ⟨input, header, spans, detailed, data, hok, hdetail, hstep, hbuilt⟩

/-- The layers up to the local grid. -/
theorem resultParseS4_answers (h : Prepared sizes options bytes account count) :
    Reply.Answers account count
      (fun work => ∃ input header spans detailed described data,
        Hardened sizes options bytes input header spans ∧
        DetailStep options bytes (overviewData input header spans) detailed ∧
        MetadataStep bytes detailed described ∧ TempoStep options bytes described data ∧
        Built sizes account 4 (count + 1) data work)
      (resultParseS4 sizes options bytes account.base) := by
  refine (resultParseMetaHardened_answers h).extend ?_
  rintro work ⟨input, header, spans, detailed, described, hok, hdetail, hmeta, hbuilt⟩
  have hunattached := hmeta.unattached
    (hdetail.unattached (unattached_overviewData input header spans) rfl).1
  have htempo : account.fine → ∃ data, TempoStep options bytes described data ∧
      Affordable options (charge sizes data) := by
    intro hf
    obtain ⟨_, haccepts, hfits⟩ := h.enough.steps hok.base hf
    obtain ⟨_, _, timed, hdetail', hmeta', htempo, hgrid⟩ := haccepts.steps
    obtain rfl := hdetail'.unique hdetail
    obtain rfl := hmeta'.unique hmeta
    have hgridLe := hgrid.charge_le (htempo.globalGrid hunattached) sizes
    exact ⟨timed, htempo, hfits.result.mono hgridLe⟩
  refine (attachTempo_spec hok.base.container hunattached.tempo hunattached.localGrid h.bound htempo
    work hbuilt).mono ?_ fun _ _ h => h
  rintro _ next ⟨data, hstep, hbuilt⟩
  exact ⟨input, header, spans, detailed, described, data, hok, hdetail, hmeta, hstep, hbuilt⟩

/-- A parse gives out what `Parses` says, or nothing. -/
theorem resultParse_answers (h : Prepared sizes options bytes account count) :
    Reply.Answers account count (Parses sizes options bytes account count)
      (resultParse sizes options bytes account.base) := by
  refine (resultParseS4_answers h).extend ?_
  rintro work ⟨input, header, spans, detailed, described, timed, hok, hdetail, hmeta, htempo,
    hbuilt⟩
  have hempty := htempo.globalGrid (hmeta.unattached
    (hdetail.unattached (unattached_overviewData input header spans) rfl).1)
  have hgrid : account.fine → ∃ data, GridStep options bytes timed data ∧
      Affordable options (charge sizes data) := by
    intro hf
    obtain ⟨data, haccepts, hfits⟩ := h.enough.steps hok.base hf
    obtain ⟨_, _, _, hdetail', hmeta', htempo', hgrid⟩ := haccepts.steps
    obtain rfl := hdetail'.unique hdetail
    obtain rfl := hmeta'.unique hmeta
    obtain rfl := htempo'.unique htempo
    exact ⟨data, hgrid, hfits.result⟩
  refine (attachGrid_spec hok.base.container hempty h.bound hgrid work hbuilt).mono ?_
    fun _ _ h => h
  rintro _ next ⟨data, hstep, hbuilt⟩
  obtain rfl := hbuilt.data
  exact ⟨input, header, spans, ⟨hok.base, hok.hardening, detailed, described, timed, hdetail, hmeta,
    htempo, hstep⟩, hok.limits, hbuilt⟩

end Parser

/-! ## Accepted containers -/

/-- With memory enough, a container with an acceptable reading gives exactly the result of it. -/
theorem resultParse_of_accepts {sizes : Sizes} {options : Option ParseOptions} {bytes : Bytes}
    {context : Context} {input : WovrInput} {header : WovrHeader} {spans : List SpanEntry}
    {data : ResultData} (hgenerous : context.heap.Generous)
    (haccepts : Accepts options bytes input header spans data)
    (hfits : Fits sizes options bytes input header spans data) :
    ∃ parsed next, resultParse sizes options bytes context = ⟨.ok (), some parsed, next⟩ ∧
      parsed.data = data := by
  have hanswers := @resultParse_answers sizes options bytes ⟨context, none, True⟩
    context.resultCount ⟨haccepts.base.container.length_le,
      ⟨fun _ hcap => absurd hcap (Option.not_mem_none _), fun _ => hgenerous, rfl⟩,
      fun _ hcap => absurd hcap (Option.not_mem_none _),
      fun _ hcap => absurd hcap (Option.not_mem_none _),
      fun _ => ⟨input, header, spans, data, haccepts, hfits⟩⟩
  generalize resultParse sizes options bytes context = reply at hanswers ⊢
  cases hanswers with
  | refused hfine => exact absurd trivial hfine
  | given h =>
      obtain ⟨input', header', spans', haccepts', -, -⟩ := h
      exact ⟨_, _, rfl, haccepts'.unique haccepts⟩

/-- A heap nothing was requested of. -/
def freshHeap : Heap := ⟨[], 0, 0, 0, [], [], 0⟩

theorem freshHeap_generous : freshHeap.Generous := ⟨rfl, rfl⟩

/-! ### A small container

The container of a track of one frame: one section, an overview with one silent column. -/

/-- The overview section of the small container. -/
def smallOverview : Bytes :=
  encode 4 0 ++ encode 4 64 ++ encode 8 0 ++ encode 4 1 ++ encode 4 1 ++ encode 8 48 ++
    encode 8 80 ++ encode 4 stateFinal ++ encode 4 0 ++
  encode 8 0 ++ encode 8 1 ++ encode 4 0 ++ encode 4 1 ++ encode 4 0 ++ encode 4 0 ++
  encode 2 0 ++ encode 2 0 ++ encode 2 0 ++ encode 1 0 ++ encode 1 0 ++ encode 1 0 ++ encode 1 1

/-- The header of the small container with a section payload, up to the checksum. -/
def smallHeader (payload : Bytes) : Bytes :=
  magic ++ encode 2 96 ++ encode 2 1 ++ encode 2 1 ++ encode 2 0 ++ encode 4 1 ++ encode 4 0 ++
    encode 4 1 ++ encode 8 96 ++ encode 8 (136 + payload.length) ++ encode 8 1 ++
    encode 4 44100 ++ encode 2 1 ++ encode 2 1 ++ List.replicate 32 0 ++ encode 4 0

/-- A container whose only section is an overview section with this payload. -/
def containerWith (payload : Bytes) : Bytes :=
  smallHeader payload ++ encode 4 (crc32c (smallHeader payload)) ++
    SectionTag.overview.bytes ++ encode 2 1 ++ encode 2 1 ++ encode 8 136 ++
    encode 8 payload.length ++ encode 8 payload.length ++ encode 4 (crc32c payload) ++ encode 4 0 ++
    payload

/-- The small container. -/
def smallContainer : Bytes := containerWith smallOverview

/-- What the readers find in the small container. -/
def smallInput : WovrInput := ⟨headerOf smallContainer, smallOverview⟩

/-- The header and the span of its overview. -/
def smallWovrHeader : WovrHeader := ⟨0, 64, 0, 1, 1, 48, 80, stateFinal, 0⟩
@[inherit_doc smallWovrHeader] def smallSpan : SpanEntry := ⟨0, 1, 0, 1, 0, 0⟩

/-- Strict options with limits on sections and allocated bytes, and defaults for the others. -/
def strictOptions (maximumSectionCount maximumAllocationBytes : ℕ) : Option ParseOptions :=
  some ⟨1, maximumSectionCount, 0, 0, 0, maximumAllocationBytes, []⟩

/-- Sizes of the records of a result on a 64-bit machine. -/
def sampleSizes : Sizes where
  result := 512
  span := 40
  column := 12
  tile := 64
  candidate := 12
  range := 16
  segment := 88
  gridState := 256
  beat := 40
  bounded := by decide

section Small

theorem isStrict_strictOptions (sections limit : ℕ) :
    isStrict (strictOptions sections limit) = true := by
  simp [isStrict, strictOptions]

theorem smallContainer_valid : ContainerOk true smallContainer smallInput ∧
    HeaderLimits (effectiveOptions none) smallContainer := by
  have hvalid : validateContainer (effectiveOptions none) smallContainer = .ok smallInput := by
    decide +kernel
  exact validateContainer_eq_ok.mp hvalid

theorem smallInput_valid : GeometryOk true smallInput smallWovrHeader [smallSpan] := by
  have hvalid : validateWovrGeometry (effectiveOptions none) smallInput = .ok 1 := by
    decide +kernel
  obtain ⟨header, spans, hgeometry, -⟩ :=
    (validateWovrGeometry_eq_ok (by decide +kernel) (by decide +kernel)).mp hvalid
  have hheader : header = smallWovrHeader := by
    rw [hgeometry.header_eq]
    decide +kernel
  have hspans : spans = [smallSpan] := by
    rw [hgeometry.spans_eq, hheader]
    decide +kernel
  rw [hheader, hspans] at hgeometry
  exact hgeometry

theorem smallContainer_base (sections limit : ℕ) :
    BaseOk (strictOptions sections limit) smallContainer smallInput smallWovrHeader [smallSpan] := by
  refine ⟨rfl, ?_, ?_⟩
  · rw [isStrict_strictOptions]
    exact smallContainer_valid.1
  · rw [isStrict_strictOptions]
    exact smallInput_valid

/-- The small container is acceptable. -/
theorem smallContainer_accepts (sections limit : ℕ) :
    Accepts (strictOptions sections limit) smallContainer smallInput smallWovrHeader [smallSpan]
      (overviewData smallInput smallWovrHeader [smallSpan]) := by
  refine ⟨smallContainer_base sections limit, ?_, _, _, _, ?_, .inl ⟨?_, rfl⟩, .inl ⟨?_, ?_, rfl⟩,
    .inl ⟨?_, ?_, rfl⟩⟩
  · refine ⟨fun _ => ⟨rfl, rfl, trivial⟩, fun _ span hspan => ?_, List.pairwise_singleton _ _⟩
    obtain rfl := Option.some.inj hspan
    decide +kernel
  · rw [DetailStep, if_pos (by decide +kernel)]
  all_goals decide +kernel

theorem smallContainer_fits {sizes : Sizes} {sections limit : ℕ}
    (h : sizes.result + sizes.span + sizes.column ≤ allocationLimit (strictOptions sections limit))
    (hmax : allocationLimit (strictOptions sections limit) ≤ uint64Max) :
    Fits sizes (strictOptions sections limit) smallContainer smallInput smallWovrHeader [smallSpan]
      (overviewData smallInput smallWovrHeader [smallSpan]) := by
  have hbase : sizes.result + 1 * sizes.span + 1 * sizes.column ≤
      allocationLimit (strictOptions sections limit) := by omega
  have hlimits := smallContainer_valid.2
  have hcount : (headerOf smallContainer).sectionCount = 1 := by decide +kernel
  refine ⟨⟨⟨hlimits.fileBytes, ?_⟩, ⟨?_, ?_⟩, ?_, hbase⟩, ?_, ?_⟩
  · rw [hcount]
    show 1 ≤ orDefault sections defaultMaxSectionCount
    by_cases hzero : sections = 0
    · rw [orDefault, if_pos hzero]
      decide
    · rw [orDefault, if_neg hzero]
      exact Nat.pos_of_ne_zero hzero
  · show 1 ≤ 65536
    decide
  · show 1 ≤ 16777216
    decide
  · show 1 ≤ 16777216
    decide
  · exact fun hsome => absurd (by decide +kernel) hsome
  · have hcharge : charge sizes (overviewData smallInput smallWovrHeader [smallSpan]) =
        sizes.result + 1 * sizes.span + 1 * sizes.column := charge_overviewData sizes rfl
    rw [hcharge]
    exact ⟨hbase, hbase.trans hmax⟩

end Small

end LibApta.Container
