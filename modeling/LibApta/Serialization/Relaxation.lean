import LibApta.Serialization.Comparison

/-!
# Relaxed options

With strictness removed and limits raised the parser gives out what it gave out before.
-/

namespace LibApta.Container

open LittleEndian

/-- The second options are no stricter, and no limit on what is read is lower. -/
structure ReadsMore (options options' : Option ParseOptions) : Prop where
  valid : optionsValid options = true → optionsValid options' = true
  strict : isStrict options' = true → isStrict options = true
  sectionCount : (effectiveOptions options).maximumSectionCount ≤
    (effectiveOptions options').maximumSectionCount
  overviewSpans : (effectiveOptions options).maximumOverviewSpans ≤
    (effectiveOptions options').maximumOverviewSpans
  waveformColumns : (effectiveOptions options).maximumWaveformColumns ≤
    (effectiveOptions options').maximumWaveformColumns
  fileBytes : (effectiveOptions options).maximumFileBytes ≤
    (effectiveOptions options').maximumFileBytes

/-- The second options are no stricter, and no limit is lower. -/
structure Relaxes (options options' : Option ParseOptions) : Prop
    extends ReadsMore options options' where
  allocationBytes : (effectiveOptions options).maximumAllocationBytes ≤
    (effectiveOptions options').maximumAllocationBytes

section Weaken

variable {strict strict' : Bool} {bytes : Bytes} {input : WovrInput} {header : WovrHeader}
  {spans : List SpanEntry}

theorem ColumnOk.weaken {column : Column} (hstrict : strict' = true → strict = true)
    (h : ColumnOk strict column) : ColumnOk strict' column :=
  { h with
    knownFlags := fun hs => h.knownFlags (hstrict hs)
    bands := fun hs => h.bands (hstrict hs) }

theorem ContainerOk.weaken (hstrict : strict' = true → strict = true)
    (h : ContainerOk strict bytes input) : ContainerOk strict' bytes input where
  header_eq := h.header_eq
  header := h.header
  directory :=
    { entries := fun entry hmem =>
        { h.directory.entries entry hmem with
          reserved := fun hs => (h.directory.entries entry hmem).reserved (hstrict hs) }
      apart := h.directory.apart
      overview := h.directory.overview }

theorem GeometryOk.weaken (hstrict : strict' = true → strict = true)
    (h : GeometryOk strict input header spans) : GeometryOk strict' input header spans :=
  { h with
    headerOk := { h.headerOk with reserved := fun hs => h.headerOk.reserved (hstrict hs) }
    frames := fun span hmem =>
      { h.frames span hmem with
        reserved := fun hs => (h.frames span hmem).reserved (hstrict hs) }
    data := fun span hmem =>
      { h.data span hmem with
        columns := fun column hcolumn =>
          ((h.data span hmem).columns column hcolumn).weaken hstrict } }

theorem DetailSectionOk.weaken {context context' : TileContext} {entry : Entry}
    (hstrict : context'.strict = true → context.strict = true)
    (htotal : context'.totalSourceFrames = context.totalSourceFrames)
    (hunfinished : context'.isPartial = context.isPartial)
    (h : DetailSectionOk context bytes entry) : DetailSectionOk context' bytes entry :=
  { h with
    reserved := fun hs => h.reserved (hstrict hs)
    frames := fun tile hmem =>
      { h.frames tile hmem with
        reserved := fun hs => (h.frames tile hmem).reserved (hstrict hs)
        unfinished := fun hstate => hunfinished ▸ (h.frames tile hmem).unfinished hstate
        last := htotal ▸ (h.frames tile hmem).last
        total := htotal ▸ (h.frames tile hmem).total }
    data := fun tile hmem =>
      { h.data tile hmem with
        columns := fun column hcolumn =>
          ((h.data tile hmem).columns column hcolumn).weaken hstrict } }

theorem Countable.mono {limit limit' count : ℕ} (h : Countable limit count)
    (hle : limit ≤ limit') : Countable limit' count := ⟨h.1, h.2.trans hle⟩

end Weaken

section Relax

variable {options options' : Option ParseOptions} {bytes : Bytes} {input : WovrInput}
  {header : WovrHeader} {spans : List SpanEntry} {data : ResultData} {sizes : Sizes}

/-- A container resembles itself under options that let more be read. -/
theorem ReadsMore.resembles {C : ErrorCode → Prop} (hrelaxes : ReadsMore options options')
    (hlimit : LimitPasses C (allocationLimit options) (allocationLimit options'))
    (haccepts : Accepts options bytes input header spans data)
    (hlimits : BaseLimits sizes options bytes header spans) :
    Resembles C options options' bytes bytes input input := by
  have hstrict := hrelaxes.strict
  have hcontainer := haccepts.base.container
  have hcontainer' := hcontainer.weaken hstrict
  have hcolumns := hrelaxes.waveformColumns
  rw [effectiveOptions_maximumWaveformColumns, effectiveOptions_maximumWaveformColumns] at hcolumns
  have htotal : input.header.totalSourceFrames ≤ uint64Max := by
    rw [hcontainer.header_eq]
    exact Nat.le_of_lt_succ field_lt
  have hlen := hcontainer.payload_le
  refine ⟨hrelaxes.valid, hlimit, hcontainer, hcontainer', ?_, ⟨rfl, rfl, ?_⟩, rfl,
    ⟨?_, rfl, rfl, rfl, id, List.Perm.refl _⟩, rfl, ⟨hstrict, rfl⟩, rfl, rfl, rfl, rfl, ?_⟩
  · refine validateContainer_eq_ok.mpr ⟨by rwa [effectiveOptions_strict], ?_⟩
    exact ⟨hlimits.container.fileBytes.trans hrelaxes.fileBytes,
      hlimits.container.sectionCount.trans hrelaxes.sectionCount⟩
  · intro packed hpacked
    obtain ⟨header', spans', hgeometry, hoverview, hcount, rfl⟩ :=
      (validateWovrGeometry_eq_ok htotal hlen).mp hpacked
    rw [effectiveOptions_strict] at hgeometry
    refine (validateWovrGeometry_eq_ok htotal hlen).mpr ⟨header', spans', ?_, ?_, ?_, rfl⟩
    · rw [effectiveOptions_strict]
      exact hgeometry.weaken hstrict
    · exact ⟨hoverview.spans.trans hrelaxes.overviewSpans,
        hoverview.logicalColumns.trans hrelaxes.waveformColumns⟩
    · exact hcount.trans hrelaxes.waveformColumns
  · intro hok
    refine ⟨fun entry hmem => ?_, hok.tiles.mono hcolumns, hok.columns.mono hcolumns⟩
    exact @DetailSectionOk.weaken bytes (tileContext options bytes) (tileContext options' bytes) entry hstrict rfl rfl
      (hok.sections entry hmem)
  · intro ggrd revn ggrd' revn' hggrd hrevn hggrd' hrevn' hnext
    obtain ⟨rfl, -⟩ := List.cons.inj (hggrd.symm.trans hggrd')
    obtain ⟨rfl, -⟩ := List.cons.inj (hrevn.symm.trans hrevn')
    exact hnext

/-- A buffer that is accepted under some options is accepted under relaxed options, with the same
result in the same context; a buffer that is rejected under relaxed options is rejected before. -/
theorem resultParse_relaxed (sizes : Sizes) {options options' : Option ParseOptions}
    (hrelaxes : Relaxes options options') (buffer : Buffer) (context : Context) :
    ((resultParse sizes options buffer.bytes context).status = .ok () →
        resultParse sizes options' buffer.bytes context =
          resultParse sizes options buffer.bytes context) ∧
      ((∃ code, (resultParse sizes options' buffer.bytes context).status = Check.reject code) →
        ∃ code, (resultParse sizes options buffer.bytes context).status = Check.reject code) := by
  have hsame : (resultParse sizes options buffer.bytes context).status = .ok () →
      resultParse sizes options' buffer.bytes context =
        resultParse sizes options buffer.bytes context := by
    intro haccepted
    obtain ⟨_, _, input, header, spans, -, haccepts, hlimits⟩ := resultParse_ok haccepted
    have hallocation := hrelaxes.allocationBytes
    rw [effectiveOptions_maximumAllocationBytes, effectiveOptions_maximumAllocationBytes]
      at hallocation
    have hresembles : Resembles (fun _ => False) options options' buffer.bytes buffer.bytes input
        input := hrelaxes.toReadsMore.resembles (.inl hallocation) haccepts hlimits
    obtain heq | ⟨_, hfalse, -⟩ :=
      resultParse_below not_false hresembles haccepts.base.valid haccepted
    · exact heq
    · exact hfalse.elim
  refine ⟨hsame, ?_⟩
  rintro ⟨code, hrejected⟩
  have hsafe := resultParse_safe sizes options buffer context
  rcases hstatus : (resultParse sizes options buffer.bytes context).status with (_ | code') | _
  · exact absurd hstatus hsafe
  · exact ⟨code', rfl⟩
  · rw [hsame hstatus, hstatus] at hrejected
    cases hrejected

/-- Options that are not strict, with limits twice the defaults. -/
def relaxedOptions : Option ParseOptions :=
  some ⟨0, 2 * defaultMaxSectionCount, 2 * defaultMaxOverviewSpans, 2 * defaultMaxWaveformColumns,
    2 * defaultMaxFileBytes, 2 * defaultMaxAllocationBytes, []⟩

theorem smallContainer_relaxed :
    resultParse sampleSizes relaxedOptions smallContainer ⟨freshHeap, 0⟩ =
      resultParse sampleSizes (strictOptions 0 0) smallContainer ⟨freshHeap, 0⟩ := by
  have hrelaxes : Relaxes (strictOptions 0 0) relaxedOptions := by
    refine ⟨⟨fun _ => rfl, fun _ => isStrict_strictOptions 0 0, ?_, ?_, ?_, ?_⟩, ?_⟩ <;> decide
  exact (resultParse_relaxed sampleSizes hrelaxes ⟨smallContainer, by decide +kernel⟩
    ⟨freshHeap, 0⟩).1 (smallContainer_accepted 0)

end Relax

end LibApta.Container
