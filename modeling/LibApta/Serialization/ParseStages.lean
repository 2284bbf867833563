import LibApta.Serialization.ParseSpec
import Mathlib.Algebra.Order.BigOperators.Group.List

/-!
# Triples for the stages of the parser

A `Step` predicate says what a stage accepts and what it makes of the result, apart from memory. A
stage that was not rejected took its step; a stage that was rejected could not take it, or the limit
or the allocator left no room for it.
-/

namespace LibApta.Container

open LittleEndian

/-- The limit of the options and 64 bits leave room for a number of bytes. -/
def Affordable (options : Option ParseOptions) (bytes : ℕ) : Prop :=
  bytes ≤ allocationLimit options ∧ bytes ≤ uint64Max

section Stages

variable {sizes : Sizes} {options : Option ParseOptions} {strict : Bool} {bytes : Bytes}
  {input : WovrInput} {account : Account} {count : ℕ} {data : ResultData}

/-! ## Overview hardening -/

/-- A temporary array is freed after a check on it. -/
theorem ensuring_deallocate_spec {α : Type} {c : Check ErrorCode α} (hsafe : Check.Safe c)
    {used : List Slot} {total : ℕ} {block : Block} (hfine : account.fine → ∃ a, c = .ok a) :
    Attempt.Spec (Holding account [block] used total count data)
      ((Attempt.check c).ensuring (deallocateTemporary block))
      (fun a work => c = .ok a ∧ Holding account [] used total count data work)
      (Failed account count) := by
  have hrejected : ∀ code work, c = Check.reject code →
      Holding account [block] used total count data work →
      ¬ account.fine ∧ Holding account [block] used total count data work := by
    intro code work hreject h
    refine ⟨fun hf => ?_, h⟩
    obtain ⟨_, hok⟩ := hfine hf
    rw [hok] at hreject
    cases hreject
  refine Attempt.Spec.ensuring (Attempt.spec_check hsafe hrejected) ?_ ?_
  · intro a work ⟨hok, h⟩
    exact (deallocateTemporary_spec work h).mono (fun _ _ h => ⟨hok, h⟩) fun _ _ h => h
  · intro code work ⟨hnot, h⟩
    exact (deallocateTemporary_spec work h).mono (fun _ _ h => h.failed code hnot) fun _ _ h => h

/-- The overview hardening accepts what `HardeningOk` says. -/
theorem hardenWovr_spec {header : WovrHeader} {spans : List SpanEntry}
    (hok : BaseOk options bytes input header spans) {used : List Slot} {total : ℕ}
    (hroom : ∀ cap ∈ account.bound, total + header.spanCount * intervalSize ≤ cap)
    (hfine : account.fine → HardeningOk (headerOf bytes).totalSourceFrames header spans) :
    Attempt.Spec (Holding account [] used total count data) (hardenWovr bytes)
      (fun _ work => HardeningOk (headerOf bytes).totalSourceFrames header spans ∧
        Holding account [] used total count data work)
      (Failed account count) := by
  have hg := hok.geometry
  have hsize := hok.container.size
  have hheader : readWovrHeader input.payload = .ok header := by
    rw [readWovrHeader_eq hg.headerOk.size, ← hg.header_eq]
  have htotal : (Check.read 8 bytes 40 : Check ErrorCode ℕ) =
      .ok (headerOf bytes).totalSourceFrames := Check.read_of_le (by omega)
  have hspanCount : header.spanCount ≤ uint32Max := by
    rw [hg.header_eq]
    exact Nat.le_of_lt_succ field_lt
  have hproduct : header.spanCount * intervalSize ≤ uint64Max := by
    have hle : header.spanCount ≤ 4294967295 := hspanCount
    show _ * 16 ≤ 18446744073709551615
    omega
  have hpos : 1 ≤ header.spanCount * intervalSize :=
    Nat.mul_pos (Nat.pos_of_ne_zero hg.headerOk.spans) (by decide)
  have hfits := hg.headerOk.directoryFits
  have hcolumns : ∀ span ∈ spans, span.columnCount ≠ 0 := fun span hmem =>
    (hg.frames span hmem).columns
  have hiff : ∀ u, hardenIntervals header.spanCount (headerOf bytes).totalSourceFrames
      input.payload header = .ok u ↔
        HardeningOk (headerOf bytes).totalSourceFrames header spans := fun _ =>
    hardenIntervals_eq_ok hg.spans_eq.symm le_rfl hfits hg.headerOk.spans hcolumns
  refine Attempt.Spec.bind_ok (findWovrPayload_eq hok.container) ?_
  refine Attempt.Spec.bind_ok htotal ?_
  refine Attempt.Spec.bind_ok hheader ?_
  refine Attempt.Spec.bind_rejectIf (fun hover => absurd hproduct (not_le.mpr hover)) fun _ => ?_
  refine Attempt.Spec.bind ((allocateTemporary_spec hpos hroom).mono (fun _ h => h)
    (fun _ _ h => h) ?_) fun block => ?_
  · rintro code work ⟨hnot, h⟩
    exact h.failed code hnot
  refine (ensuring_deallocate_spec (hardenIntervals_safe le_rfl hfits)
    fun hf => ⟨(), (hiff ()).mpr (hfine hf)⟩).post ?_
  rintro u work ⟨haccepted, h⟩
  exact ⟨(hiff u).mp haccepted, h⟩

/-! ## Detail -/

/-- The result with the detail tiles of a container. -/
def withDetail (bytes : Bytes) (data : ResultData) : ResultData :=
  { data with
    detailTiles := SortKey.sortKey Tile.key (decodedTiles bytes (sections bytes .detail))
    availableFeatures := insert .waveformDetail data.availableFeatures
    changedFeatures := insert .waveformDetail data.changedFeatures }

/-- What the detail stage accepts of a container with detail sections. -/
structure DetailAccepted (options : Option ParseOptions) (bytes : Bytes) : Prop where
  ok : DetailOk (tileContext options bytes) (columnLimit options) bytes
  apart : Interval.collides (Interval.sorted (intervalsOf bytes (sections bytes .detail))) = false
  keys : ((decodedTiles bytes (sections bytes .detail)).map Tile.key).Nodup

/-- The step of the detail stage. -/
def DetailStep (options : Option ParseOptions) (bytes : Bytes) (data data' : ResultData) : Prop :=
  if sections bytes .detail = [] then data' = data
  else DetailAccepted options bytes ∧ data' = withDetail bytes data

/-- The bytes the detail stage asks for, its interval array included. -/
def detailNeeded (sizes : Sizes) (bytes : Bytes) : ℕ :=
  (tilesOf bytes (sections bytes .detail)).length * (sizes.tile + intervalSize) +
    tileColumns (tilesOf bytes (sections bytes .detail)) * sizes.column

theorem length_decodedTiles (bytes : Bytes) (entries : List Entry) :
    (decodedTiles bytes entries).length = (tilesOf bytes entries).length := by
  simp [decodedTiles, tilesOf, List.length_flatMap]

/-- The columns of the decoded tiles. -/
theorem columns_decodedTiles (bytes : Bytes) (entries : List Entry) :
    ((decodedTiles bytes entries).map fun tile => tile.columns.length).sum =
      tileColumns (tilesOf bytes entries) := by
  have hsame : (decodedTiles bytes entries).map (fun tile => tile.columns.length) =
      (tilesOf bytes entries).map TileEntry.columnCount := by
    rw [decodedTiles, tilesOf, List.map_flatMap, List.map_flatMap]
    apply List.flatMap_congr
    intro entry _
    rw [List.map_map]
    apply List.map_congr_left
    intro tile _
    exact length_columns (entry.payload bytes) tile
  rw [hsame, tileColumns]

theorem charge_withDetail (sizes : Sizes) (hempty : data.detailTiles = []) :
    charge sizes (withDetail bytes data) = charge sizes data +
      (tilesOf bytes (sections bytes .detail)).length * sizes.tile +
      tileColumns (tilesOf bytes (sections bytes .detail)) * sizes.column := by
  have hperm := SortKey.sortKey_perm Tile.key (decodedTiles bytes (sections bytes .detail))
  have hlength := hperm.length_eq
  have hcolumns := (hperm.map fun tile : Tile => tile.columns.length).sum_nat
  rw [length_decodedTiles] at hlength
  rw [columns_decodedTiles] at hcolumns
  rw [charge_eq, charge_eq, hempty]
  simp only [withDetail, detailCharge, hlength, hcolumns, List.length_nil, List.map_nil,
    List.sum_nil]
  omega

/-- With room for its intervals the measure gives the same layout again. -/
private theorem measureDetail_again (h : ContainerOk strict bytes input)
    (hok : DetailOk (tileContext options bytes) (columnLimit options) bytes) :
    measureDetail options (some (tilesOf bytes (sections bytes .detail)).length) bytes =
      .ok (detailLayout (some (tilesOf bytes (sections bytes .detail)).length) bytes) := by
  refine (measureDetail_eq_ok h ?_).mpr ⟨hok, rfl⟩
  rintro count ⟨⟩
  exact le_rfl

/-- The second detail pass tests the intervals. -/
theorem validateDetail_eq_ok (h : ContainerOk strict bytes input)
    (hok : DetailOk (tileContext options bytes) (columnLimit options) bytes)
    {layout : DetailLayout} :
    validateDetail options (tilesOf bytes (sections bytes .detail)).length bytes = .ok layout ↔
      Interval.collides (Interval.sorted (intervalsOf bytes (sections bytes .detail))) = false ∧
        layout = detailLayout (some (tilesOf bytes (sections bytes .detail)).length) bytes := by
  rw [validateDetail, measureDetail_again h hok, Check.ok_bind, Check.bind_eq_ok]
  simp only [Check.rejectIf_eq_ok, Check.pure_eq_ok, Except.ok.injEq, exists_and_left, exists_const,
    Bool.not_eq_true]
  exact and_congr_right fun _ => eq_comm

theorem validateDetail_safe (h : ContainerOk strict bytes input)
    (hok : DetailOk (tileContext options bytes) (columnLimit options) bytes) :
    Check.Safe
      (validateDetail options (tilesOf bytes (sections bytes .detail)).length bytes) := by
  rw [validateDetail, measureDetail_again h hok, Check.ok_bind]
  exact Check.safe_bind (Check.safe_rejectIf _ _) fun _ _ => Check.safe_ok _

theorem detailOk_of_nil {context : TileContext} {limit : ℕ} (hnone : sections bytes .detail = []) :
    DetailOk context limit bytes := by
  refine ⟨?_, ?_, ?_⟩ <;> rw [hnone]
  · exact List.forall_mem_nil _
  · exact ⟨Nat.zero_le _, Nat.zero_le _⟩
  · exact ⟨Nat.zero_le _, Nat.zero_le _⟩

/-- Detail sections have tiles, and tiles have columns. -/
theorem detail_pos {context : TileContext} {limit : ℕ} (hok : DetailOk context limit bytes)
    (hsome : sections bytes .detail ≠ []) :
    1 ≤ (tilesOf bytes (sections bytes .detail)).length ∧
      1 ≤ tileColumns (tilesOf bytes (sections bytes .detail)) := by
  obtain ⟨entry, hentry⟩ := List.exists_mem_of_ne_nil _ hsome
  have hsection := hok.sections entry hentry
  have htiles : entry.tiles bytes ≠ [] := by
    rw [← List.length_pos_iff, length_tiles]
    exact Nat.pos_of_ne_zero hsection.tiles
  obtain ⟨tile, htile⟩ := List.exists_mem_of_ne_nil _ htiles
  have hmem : tile ∈ tilesOf bytes (sections bytes .detail) :=
    List.mem_flatMap.mpr ⟨entry, hentry, htile⟩
  refine ⟨List.length_pos_of_mem hmem, ?_⟩
  have hcolumns := (hsection.frames tile htile).columns
  have hle : tile.columnCount ≤ tileColumns (tilesOf bytes (sections bytes .detail)) :=
    List.le_sum_of_mem (List.mem_map_of_mem hmem)
  omega

theorem Built.mono {layer layer' : ℕ} {work : Work} (h : Built sizes account layer count data work)
    (hle : layer ≤ layer') : Built sizes account layer' count data work :=
  Holding.mono h fun _ hmem => mem_slotsUpTo.mpr ((mem_slotsUpTo.mp hmem).trans hle)

/-- The detail stage takes its step. -/
theorem attachDetail_spec (h : ContainerOk strict bytes input) (hempty : data.detailTiles = [])
    (hbound : ∀ cap ∈ account.bound, allocationLimit options ≤ cap)
    (hfine : account.fine → sections bytes .detail ≠ [] → DetailAccepted options bytes ∧
      Affordable options (charge sizes data + detailNeeded sizes bytes)) :
    Attempt.Spec (Built sizes account 0 count data) (attachDetail sizes options bytes)
      (fun _ work => ∃ data', DetailStep options bytes data data' ∧
        Built sizes account 1 count data' work)
      (Failed account count) := by
  have hmeasure : ∀ layout, measureDetail options none bytes = .ok layout ↔
      DetailOk (tileContext options bytes) (columnLimit options) bytes ∧
        layout = detailLayout none bytes := fun _ =>
    measureDetail_eq_ok h fun _ hmem => absurd hmem (Option.not_mem_none _)
  refine Attempt.Spec.bind_check (measureDetail_safe h) ?_ fun layout hlayout => ?_
  · intro code work hrejected hbuilt
    refine Holding.failed code hbuilt fun hf => ?_
    have hok : DetailOk (tileContext options bytes) (columnLimit options) bytes := by
      by_cases hnone : sections bytes .detail = []
      · exact detailOk_of_nil hnone
      · exact (hfine hf hnone).1.ok
    rw [(hmeasure _).mpr ⟨hok, rfl⟩] at hrejected
    cases hrejected
  obtain ⟨hok, rfl⟩ := (hmeasure _).mp hlayout
  by_cases hnone : sections bytes .detail = []
  · have hcount : (detailLayout none bytes).sectionCount = 0 := by
      rw [detailLayout, hnone]
      rfl
    rw [if_pos hcount]
    intro work hbuilt
    exact ⟨data, by rw [DetailStep, if_pos hnone], hbuilt.mono (Nat.zero_le _)⟩
  have hcount : (detailLayout none bytes).sectionCount ≠ 0 :=
    fun hzero => hnone (List.length_eq_zero_iff.mp hzero)
  rw [if_neg hcount]
  obtain ⟨htilesPos, hcolumnsPos⟩ := detail_pos hok hnone
  have htilesLe : (tilesOf bytes (sections bytes .detail)).length ≤ 4294967295 := hok.tiles.1
  have hcolumnsLe : tileColumns (tilesOf bytes (sections bytes .detail)) ≤ 4294967295 :=
    hok.columns.1
  obtain ⟨-, -, hcolumn, htile, -⟩ := sizes.pos
  obtain ⟨-, -, hcolumnLe, htileLe, -⟩ := sizes.le
  have htileBytes : (tilesOf bytes (sections bytes .detail)).length * (sizes.tile + intervalSize) ≤
      4294967295 * 65552 :=
    Nat.mul_le_mul htilesLe (Nat.add_le_add htileLe (le_refl 16))
  have hcolumnBytes : tileColumns (tilesOf bytes (sections bytes .detail)) * sizes.column ≤
      4294967295 * 65536 := Nat.mul_le_mul hcolumnsLe hcolumnLe
  have hneeded : detailNeeded sizes bytes ≤ uint64Max := by
    show _ + _ ≤ 18446744073709551615
    omega
  refine Attempt.Spec.bind_ok (Check.within_of_le hneeded) ?_
  refine Attempt.Spec.bind_get fun seen hseen => ?_
  rw [hseen.data]
  refine Attempt.Spec.bind_rejectIf ?_ fun hfits => ?_
  · rintro hover work hbuilt
    refine Holding.failed _ hbuilt fun hf => ?_
    obtain ⟨hlimit, hmax⟩ := (hfine hf hnone).2
    rcases hover with hover | hover
    · have hroom := fits_of_le hlimit (by omega)
      exact Bool.noConfusion (hroom.symm.trans hover)
    · have hlt : 18446744073709551615 <
          (tilesOf bytes (sections bytes .detail)).length * 16 := hover
      omega
  rw [not_or, Bool.not_eq_false] at hfits
  have hroom : charge sizes data + detailNeeded sizes bytes ≤ allocationLimit options :=
    charge_add_le hfits.1
  have hsplit : detailNeeded sizes bytes =
      (tilesOf bytes (sections bytes .detail)).length * sizes.tile +
        (tilesOf bytes (sections bytes .detail)).length * intervalSize +
          tileColumns (tilesOf bytes (sections bytes .detail)) * sizes.column := by
    rw [detailNeeded, Nat.mul_add]
  rw [hsplit] at hroom
  have hintervalPos : 1 ≤ (tilesOf bytes (sections bytes .detail)).length * intervalSize :=
    Nat.mul_pos htilesPos (by decide)
  have htilePos : 1 ≤ (tilesOf bytes (sections bytes .detail)).length * sizes.tile :=
    Nat.mul_pos htilesPos htile
  have hcolumnPos : 1 ≤ tileColumns (tilesOf bytes (sections bytes .detail)) * sizes.column :=
    Nat.mul_pos hcolumnsPos hcolumn
  have hintervalRoom : ∀ cap ∈ account.bound, charge sizes data +
      (tilesOf bytes (sections bytes .detail)).length * intervalSize ≤ cap := by
    intro cap hcap
    have := hbound cap hcap
    omega
  have htileRoom : ∀ cap ∈ account.bound, charge sizes data +
      (tilesOf bytes (sections bytes .detail)).length * sizes.tile ≤ cap := by
    intro cap hcap
    have := hbound cap hcap
    omega
  have hcolumnRoom : ∀ cap ∈ account.bound, charge sizes data +
      (tilesOf bytes (sections bytes .detail)).length * sizes.tile +
        tileColumns (tilesOf bytes (sections bytes .detail)) * sizes.column ≤ cap := by
    intro cap hcap
    have := hbound cap hcap
    omega
  have haccepted : account.fine → ∃ layout, validateDetail options
      (tilesOf bytes (sections bytes .detail)).length bytes = .ok layout := by
    intro hf
    exact ⟨_, (validateDetail_eq_ok h hok).mpr ⟨(hfine hf hnone).1.apart, rfl⟩⟩
  refine Attempt.Spec.bind ((allocateTemporary_spec hintervalPos hintervalRoom).mono
    (fun _ hbuilt => hbuilt) (fun _ _ hbuilt => hbuilt) ?_) fun block => ?_
  · rintro code work ⟨hnot, hbuilt⟩
    exact hbuilt.failed code hnot
  refine Attempt.Spec.bind (ensuring_deallocate_spec (validateDetail_safe h hok) haccepted)
    fun layout => Attempt.Spec.known fun hvalid => ?_
  obtain ⟨hapart, rfl⟩ := (validateDetail_eq_ok h hok).mp hvalid
  refine Attempt.Spec.bind ((allocateInto_spec (by decide) htilePos htileRoom).mono
    (fun _ hbuilt => hbuilt) (fun _ _ hbuilt => hbuilt) ?_) fun _ => ?_
  · rintro code work ⟨hnot, hbuilt⟩
    exact hbuilt.failed code hnot
  refine Attempt.Spec.bind ((allocateInto_spec (by decide) hcolumnPos hcolumnRoom).mono
    (fun _ hbuilt => hbuilt) (fun _ _ h => h) ?_) fun _ => ?_
  · rintro code work ⟨hnot, hbuilt⟩
    exact hbuilt.failed code hnot
  refine Attempt.Spec.bind_ok (copyDetail_eq h hok) ?_
  refine Attempt.Spec.bind_check (sortTiles_safe _) ?_ fun tiles htiles => ?_
  · intro code work hrejected hbuilt
    refine hbuilt.failed code fun hf => ?_
    rw [sortTiles_eq_ok.mpr ⟨(hfine hf hnone).1.keys, rfl⟩] at hrejected
    cases hrejected
  obtain ⟨hkeys, rfl⟩ := sortTiles_eq_ok.mp htiles
  refine setData_spec.post fun _ work hbuilt => ⟨withDetail bytes data, ?_, ?_⟩
  · rw [DetailStep, if_neg hnone]
    exact ⟨⟨hok, hapart, hkeys⟩, rfl⟩
  · rw [Built, charge_withDetail sizes hempty]
    exact hbuilt.mono (by decide)

/-! ## Metadata -/

/-- The step of the metadata stage. -/
def MetadataStep (bytes : Bytes) (data data' : ResultData) : Prop :=
  (sections bytes .metadata = [] ∧ data' = data) ∨
    ∃ payload metadata, (sections bytes .metadata).map (fun entry => entry.payload bytes) =
        [payload] ∧ metaParsePayload payload = .ok metadata ∧ metadata.isValid = true ∧
      data' = { data with metadata := some metadata }

theorem walk_storeText {capacity : ℕ} {texts : List Bytes} {index : ℕ} {written : Bytes}
    (hroom : written.length + (texts.map List.length).sum ≤ capacity) :
    Check.walk (storeText capacity) index texts written = .ok (written ++ texts.flatten) := by
  induction texts generalizing index written with
  | nil => rw [Check.walk_nil, List.flatten_nil, List.append_nil]
  | cons text rest ih =>
      rw [List.map_cons, List.sum_cons] at hroom
      have hfits : written.length + text.length ≤ capacity := by omega
      rw [Check.walk_cons, storeText, if_pos hfits, Check.ok_bind, ih, List.flatten_cons,
        List.append_assoc]
      rw [List.length_append]
      omega

/-- The texts fill their storage. -/
theorem storeMetadata_eq (metadata : Metadata) :
    storeMetadata metadata.storageSize metadata = .ok (metadataTexts metadata).flatten := by
  refine walk_storeText ?_
  simp only [metadataTexts, Metadata.storageSize, List.map_cons, List.map_nil, List.sum_cons,
    List.sum_nil, List.length_nil]
  omega

theorem charge_withMetadata (sizes : Sizes) (hempty : data.metadata = none) (metadata : Metadata) :
    charge sizes { data with metadata := some metadata } =
      charge sizes data + metadata.storageSize := by
  rw [charge_eq, charge_eq, hempty]
  simp only [metadataCharge, Option.map_some, Option.map_none, Option.getD_some, Option.getD_none]
  omega

/-- The metadata stage takes its step. -/
theorem attachMetadata_spec (h : ContainerOk strict bytes input) (hempty : data.metadata = none)
    (hbound : ∀ cap ∈ account.bound, allocationLimit options ≤ cap)
    (hfine : account.fine → ∃ data', MetadataStep bytes data data' ∧
      Affordable options (charge sizes data')) :
    Attempt.Spec (Built sizes account 1 count data) (attachMetadata sizes options bytes)
      (fun _ work => ∃ data', MetadataStep bytes data data' ∧
        Built sizes account 2 count data' work)
      (Failed account count) := by
  refine Attempt.Spec.bind_check (findMetaSection_safe h) ?_ fun found hfound => ?_
  · intro code work hrejected hbuilt
    refine Holding.failed code hbuilt fun hf => ?_
    obtain ⟨_, ⟨hnone, -⟩ | ⟨payload, _, hpayload, -⟩, -⟩ := hfine hf
    · have hfind : findMetaSection bytes = .ok none :=
        (findMetaSection_eq_ok h).mpr (by rw [hnone]; rfl)
      rw [hfind] at hrejected
      cases hrejected
    · have hfind : findMetaSection bytes = .ok (some payload) :=
        (findMetaSection_eq_ok h).mpr hpayload
      rw [hfind] at hrejected
      cases hrejected
  have hsections := (findMetaSection_eq_ok h).mp hfound
  rcases found with _ | payload
  · intro work hbuilt
    have hnone : sections bytes .metadata = [] := List.map_eq_nil_iff.mp hsections
    exact ⟨data, .inl ⟨hnone, rfl⟩, hbuilt.mono (by decide)⟩
  have hstep : account.fine → ∃ metadata, metaParsePayload payload = .ok metadata ∧
      metadata.isValid = true ∧ Affordable options (charge sizes data + metadata.storageSize) := by
    intro hf
    obtain ⟨data', ⟨hnone, -⟩ | ⟨payload', metadata, hpayload, hparse, hvalid, rfl⟩, hroom⟩ :=
      hfine hf
    · rw [hnone] at hsections
      cases hsections
    · obtain ⟨rfl, -⟩ := List.cons.inj (hpayload.symm.trans hsections)
      rw [charge_withMetadata sizes hempty] at hroom
      exact ⟨metadata, hparse, hvalid, hroom⟩
  refine Attempt.Spec.bind_check (metaParsePayload_safe payload) ?_ fun metadata hparse => ?_
  · intro code work hrejected hbuilt
    refine Holding.failed code hbuilt fun hf => ?_
    obtain ⟨_, hparse, -⟩ := hstep hf
    rw [hparse] at hrejected
    cases hrejected
  have hstep' : account.fine → metadata.isValid = true ∧
      Affordable options (charge sizes data + metadata.storageSize) := by
    intro hf
    obtain ⟨_, hparse', hrest⟩ := hstep hf
    obtain rfl := Except.ok.inj (hparse'.symm.trans hparse)
    exact hrest
  have hsize : metadata.storageSize ≤ uint64Max :=
    (metaParsePayload_short hparse).storageSize_le.trans (by decide)
  refine Attempt.Spec.bind_ok (Check.within_of_le hsize) ?_
  refine Attempt.Spec.bind_get fun seen hseen => ?_
  rw [hseen.data]
  refine Attempt.Spec.bind_rejectIf ?_ fun hfits => ?_
  · intro hover work hbuilt
    refine Holding.failed _ hbuilt fun hf => ?_
    obtain ⟨-, hlimit, hmax⟩ := hstep' hf
    have hroom := fits_of_le hlimit (by omega)
    exact Bool.noConfusion (hroom.symm.trans hover)
  refine Attempt.Spec.bind_rejectIf ?_ fun hvalid => ?_
  · intro hinvalid work hbuilt
    refine Holding.failed _ hbuilt fun hf => ?_
    exact Bool.noConfusion ((hstep' hf).1.symm.trans hinvalid)
  rw [Bool.not_eq_false] at hfits hvalid
  have hroom := charge_add_le hfits
  have htaken : MetadataStep bytes data { data with metadata := some metadata } :=
    .inr ⟨payload, metadata, hsections, hparse, hvalid, rfl⟩
  have hcharge := charge_withMetadata sizes hempty metadata
  by_cases hzero : metadata.storageSize = 0
  · dsimp only
    rw [if_pos hzero]
    refine Attempt.Spec.bind_ok (storeMetadata_eq metadata) ?_
    refine setData_spec.post fun _ work hbuilt => ⟨_, htaken, ?_⟩
    rw [Built, hcharge, hzero, Nat.add_zero]
    exact hbuilt.mono fun _ hmem => mem_slotsUpTo.mpr ((mem_slotsUpTo.mp hmem).trans (by decide))
  have hcapRoom : ∀ cap ∈ account.bound, charge sizes data + metadata.storageSize ≤ cap :=
    fun cap hcap => hroom.trans (hbound cap hcap)
  dsimp only
  rw [if_neg hzero]
  refine Attempt.Spec.bind ((allocateInto_spec (by decide) (Nat.pos_of_ne_zero hzero)
    hcapRoom).mono (fun _ hbuilt => hbuilt) (fun _ _ hbuilt => hbuilt) ?_) fun _ => ?_
  · rintro code work ⟨hnot, hbuilt⟩
    exact hbuilt.failed code hnot
  refine Attempt.Spec.bind_ok (storeMetadata_eq metadata) ?_
  refine setData_spec.post fun _ work hbuilt => ⟨_, htaken, ?_⟩
  rw [Built, hcharge]
  exact hbuilt.mono (by decide)

end Stages

end LibApta.Container
