import LibApta.Serialization.GridReadBack
import LibApta.Serialization.WaveformAssembly

/-!
# The writer writes assembled containers

Each layer over the waveform leaves the container assembled from the sections so far, and the
outermost one marks the container as partial exactly when a section is not final. So the size query
and the writer agree on every result, and none of the consistency checks of the writer fails.
-/

namespace LibApta.Container

open LittleEndian Packing InPlace

/-! ## The sections of a result -/

/-- The sections of the waveform of a result. -/
def waveformSections (data : ResultData) : List Part :=
  data.overview.toList.flatMap (waveformParts data)

/-- The section of the metadata of a result. -/
def metadataParts (data : ResultData) : List Part :=
  data.metadata.toList.map fun metadata => (.metadata, metaWritePayload metadata.toRecord)

/-- The sections of a result. -/
def writtenParts (data : ResultData) : List Part :=
  waveformSections data ++ metadataParts data ++ s4Parts data ++ s6Parts data

/-- The container flags of the waveform of a result. -/
def waveformFlags (data : ResultData) : ℕ :=
  (data.overview.map fun overview => overviewContainerFlags data overview ||| detailFlags data).getD 0

/-- The waveform layers, writing into a buffer. -/
def serializeWaveform (data : ResultData) (options : Option SerializeOptions) (buffer : Bytes) :
    Check Status Written := do
  let waveform ← resultSerializeWaveform data options buffer.length
  return ⟨patch buffer 0 waveform, waveform.length⟩

section Parts

variable {data : ResultData}

theorem waveformSections_eq {overview : Overview} (h : data.overview = some overview) :
    waveformSections data = waveformParts data overview := by
  rw [waveformSections, h]
  exact List.append_nil _

theorem standard_waveformSections : ∀ part ∈ waveformSections data, part.1.isStandard = true := by
  intro part hpart
  obtain ⟨overview, -, hmem⟩ := List.mem_flatMap.mp hpart
  rw [waveformParts, List.mem_cons, detailParts] at hmem
  obtain rfl | hmem := hmem
  · rfl
  · split at hmem
    · cases hmem
    · rw [List.mem_singleton.mp hmem]
      rfl

theorem standard_metadataParts : ∀ part ∈ metadataParts data, part.1.isStandard = true := by
  intro part hpart
  obtain ⟨metadata, -, rfl⟩ := List.mem_map.mp hpart
  rfl

theorem standard_s4Parts : ∀ part ∈ s4Parts data, part.1.isStandard = true := by
  intro part hpart
  rw [s4Parts, List.mem_append] at hpart
  obtain hpart | hpart := hpart <;> split at hpart
  · obtain ⟨tempo, -, rfl⟩ := List.mem_map.mp hpart
    rfl
  · cases hpart
  · obtain ⟨grid, -, hmem⟩ := List.mem_flatMap.mp hpart
    obtain ⟨segment, -, rfl⟩ := List.mem_map.mp hmem
    rfl
  · cases hpart

theorem standard_s6Parts : ∀ part ∈ s6Parts data, part.1.isStandard = true := by
  intro part hpart
  rw [s6Parts] at hpart
  split at hpart
  · obtain ⟨pair, -, hmem⟩ := List.mem_flatMap.mp hpart
    rw [List.mem_cons, List.mem_singleton] at hmem
    obtain rfl | rfl := hmem <;> rfl
  · cases hpart

/-- A result has at most seven sections. -/
theorem length_parts_le : (waveformSections data).length ≤ 2 ∧ (metadataParts data).length ≤ 1 ∧
    (s4Parts data).length ≤ 2 ∧ (s6Parts data).length ≤ 2 := by
  refine ⟨?_, ?_, ?_, ?_⟩
  · rw [waveformSections]
    cases data.overview with
    | none => exact Nat.zero_le _
    | some overview =>
        rw [Option.toList_some, List.flatMap_singleton, waveformParts, detailParts]
        split <;> simp
  · rw [metadataParts]
    cases data.metadata <;> simp
  · rw [s4Parts, List.length_append]
    refine @Nat.add_le_add _ 1 _ 1 ?_ ?_ <;> split
    · cases data.tempo <;> simp
    · exact Nat.zero_le _
    · cases data.localGrid with
      | none => exact Nat.zero_le _
      | some grid =>
          rw [Option.toList_some, List.flatMap_singleton, List.length_map]
          cases grid.segments.head? <;> simp
    · exact Nat.zero_le _
  · rw [s6Parts]
    split
    · cases data.globalGrid <;> simp
    · exact Nat.zero_le _

theorem waveformFlags_lt (data : ResultData) : waveformFlags data < 256 ^ 4 := by
  rw [waveformFlags]
  cases data.overview with
  | none => exact (by decide : 0 < 256 ^ 4)
  | some overview =>
      rw [Option.map_some, Option.getD_some]
      refine @Nat.or_lt_two_pow _ _ 32 (overviewContainerFlags_lt data overview) ?_
      rw [detailFlags]
      split
      · decide
      · exact tileFlags_lt _

end Parts

/-! ## Layers -/

section Layers

variable {data : ResultData} {options : Option SerializeOptions}

/-- The waveform layers write assembled containers. -/
theorem writes_waveform (hfingerprint : data.fingerprint.length = 32) :
    Writes data (waveformFlags data) (waveformSections data)
      (resultQuerySerializedSizeWaveform data options) (serializeWaveform data options) where
  size := by
    intro size hsize
    obtain ⟨overview, hwritable, hdetail, rfl⟩ := resultQuerySerializedSizeWaveform_eq_ok.mp hsize
    rw [waveformSections_eq hwritable.present]
    refine ⟨rfl, ?_, List.cons_ne_nil _ _⟩
    by_cases hnil : detailParts data = []
    · rw [waveformParts, hnil]
      exact hwritable.size
    · exact (hdetail hnil).size
  written := by
    intro buffer
    have hquery : resultQuerySerializedSizeWaveform data options = do
        let layout ← wdtlCalculateLayout data options
        return layout.totalSize := rfl
    rw [serializeWaveform, resultSerializeWaveform_eq hfingerprint, hquery, bind_assoc, bind_assoc]
    refine Check.bind_congr_ok fun layout hlayout => ?_
    rw [bind_assoc]
    refine Check.bind_congr_ok fun _ hroom => ?_
    obtain ⟨overview, hwritable, -, -⟩ := wdtlCalculateLayout_eq_ok.mp hlayout
    have hsize : layout.totalSize = containerSize (waveformParts data overview) := by
      have hok : resultQuerySerializedSizeWaveform data options = .ok layout.totalSize :=
        Check.bind_eq_ok.mpr ⟨layout, hlayout, rfl⟩
      obtain ⟨other, hother, -, hsize⟩ := resultQuerySerializedSizeWaveform_eq_ok.mp hok
      obtain rfl := Option.some.inj (hother.present.symm.trans hwritable.present)
      exact hsize
    have hflags : waveformFlags data =
        overviewContainerFlags data overview ||| detailFlags data := by
      rw [waveformFlags, hwritable.present]
      rfl
    have hparts := waveformSections_eq hwritable.present
    have hlength : (containerOf data (waveformFlags data) (waveformSections data)).length =
        layout.totalSize := by
      rw [size_containerOf hfingerprint standard_waveformSections, hparts, hsize]
    rw [requireOverview_eq_ok.mpr hwritable.present, Check.ok_bind, ← hflags, ← hparts]
    refine congrArg Except.ok (congrArg₂ Written.mk ?_ hlength)
    rw [patch, List.take_zero, List.nil_append, Nat.zero_add, hlength]

/-- The writer measures the payload of metadata. -/
theorem length_metadataPayload (metadata : Metadata) :
    metaMeasurePayload metadata.toRecord = (metaWritePayload metadata.toRecord).length := by
  refine metaMeasurePayload_eq ?_
  simp only [Metadata.toRecord, TextFields.toList, List.forall_mem_cons]
  exact ⟨ByteView.backed_ofBytes _, ByteView.backed_ofBytes _, ByteView.backed_ofBytes _,
    ByteView.backed_ofBytes _, ByteView.backed_ofBytes _, ByteView.backed_ofBytes _,
    List.forall_mem_nil _⟩

/-- The layout of the metadata layer. -/
theorem laysOut_meta : LaysOut (resultQuerySerializedSizeWaveform data options) options
    (metadataParts data) (metaCalculateLayout data options) := by
  intro layout hlayout
  obtain ⟨baseSize, hbase, hlayout⟩ := Check.bind_eq_ok.mp hlayout
  obtain ⟨totalSize, htotal, hlayout⟩ := Check.bind_eq_ok.mp hlayout
  obtain rfl := Except.ok.inj hlayout
  refine ⟨hbase, ?_⟩
  rw [metadataParts, List.map_map]
  simp only [length_metadataPayload] at htotal
  exact htotal

/-- The metadata layer appends its section like the layers above it. -/
theorem resultSerializeMeta_eq (hfingerprint : data.fingerprint.length = 32) (buffer : Bytes) :
    resultSerializeMeta data options buffer = (do
      let layout ← metaCalculateLayout data options
      requireRoom buffer.length layout.totalSize
      let base ← serializeWaveform data options buffer
      appendLayer layout (metadataParts data) base) := by
  rw [resultSerializeMeta]
  refine Check.bind_congr_ok fun layout hlayout => ?_
  refine Check.bind_congr_ok fun _ hroom => ?_
  rw [serializeWaveform, bind_assoc]
  refine Check.bind_congr_ok fun waveform hwaveform => ?_
  rw [metadataParts, Check.pure_eq_ok, Check.ok_bind]
  cases hmetadata : data.metadata with
  | none => rfl
  | some metadata =>
      rw [Option.toList_some, List.map_singleton, appendLayer, if_neg (List.cons_ne_nil _ _)]
      refine Check.bind_congr_ok fun _ _ => ?_
      refine Check.bind_congr_ok fun located hlocated => ?_
      -- the payloads lie behind the directory, and the payload has the measured size
      have hwrite : serializeWaveform data options buffer =
          .ok ⟨patch buffer 0 waveform, waveform.length⟩ :=
        Check.bind_eq_ok.mpr ⟨waveform, hwaveform, rfl⟩
      obtain ⟨hbase, hquery, hsmall, hne⟩ := (writes_waveform hfingerprint).eq_of_ok hwrite
      obtain ⟨hcount, -, -, -⟩ := @length_parts_le data
      have hbaseSize := (laysOut_meta layout hlayout).1
      rw [hquery] at hbaseSize
      rw [(Written.mk.inj hbase).1, ← Except.ok.inj hbaseSize,
        locateSections_containerOf hfingerprint standard_waveformSections hsmall hne
          (waveformFlags_lt data) ((Nat.add_le_add_right hcount 1).trans (by decide))] at hlocated
      obtain rfl := Except.ok.inj hlocated
      exact Check.bind_eq_ok.mpr ⟨(), Check.rejectIf_eq_ok.mpr (lt_irrefl _),
        Check.bind_eq_ok.mpr ⟨(), Check.rejectIf_eq_ok.mpr
          (not_not.mpr (length_metadataPayload metadata).symm), rfl⟩⟩

/-- The metadata layer writes assembled containers. -/
theorem writes_meta (hfingerprint : data.fingerprint.length = 32) :
    Writes data (waveformFlags data) (waveformSections data ++ metadataParts data)
      (resultQuerySerializedSizeMeta data options) (resultSerializeMeta data options) := by
  obtain ⟨hwaveform, hmetadata, -, -⟩ := @length_parts_le data
  have hlayer := (writes_waveform hfingerprint).layer hfingerprint (waveformFlags_lt data)
    standard_waveformSections standard_metadataParts
    ((Nat.add_le_add hwaveform hmetadata).trans (by decide)) (@laysOut_meta data options)
  refine ⟨hlayer.size, fun buffer => ?_⟩
  rw [resultSerializeMeta_eq hfingerprint]
  exact hlayer.written buffer

/-- The layout of the tempo layer. -/
theorem laysOut_s4 : LaysOut (resultQuerySerializedSizeMeta data options) options (s4Parts data)
    (s4CalculateLayout data options) := by
  intro layout hlayout
  obtain ⟨baseSize, hbase, hlayout⟩ := Check.bind_eq_ok.mp hlayout
  obtain ⟨_, -, hlayout⟩ := Check.bind_eq_ok.mp hlayout
  obtain ⟨totalSize, htotal, hlayout⟩ := Check.bind_eq_ok.mp hlayout
  obtain rfl := Except.ok.inj hlayout
  exact ⟨hbase, htotal⟩

/-- The tempo layer writes assembled containers. -/
theorem writes_s4 (hfingerprint : data.fingerprint.length = 32) :
    Writes data (waveformFlags data) (waveformSections data ++ metadataParts data ++ s4Parts data)
      (resultQuerySerializedSizeS4 data options) (resultSerializeS4 data options) := by
  obtain ⟨hwaveform, hmetadata, htempo, -⟩ := @length_parts_le data
  refine (writes_meta hfingerprint).layer hfingerprint (waveformFlags_lt data) ?_ standard_s4Parts
    ?_ laysOut_s4
  · exact List.forall_mem_append.mpr ⟨standard_waveformSections, standard_metadataParts⟩
  · rw [List.length_append]
    exact (Nat.add_le_add (Nat.add_le_add hwaveform hmetadata) htempo).trans (by decide)

/-- The layout of the grid layer. -/
theorem laysOut_s6 : LaysOut (resultQuerySerializedSizeS4 data options) options (s6Parts data)
    (s6CalculateLayout data options) := by
  intro layout hlayout
  obtain ⟨baseSize, hbase, hlayout⟩ := Check.bind_eq_ok.mp hlayout
  obtain ⟨_, -, hlayout⟩ := Check.bind_eq_ok.mp hlayout
  obtain ⟨totalSize, htotal, hlayout⟩ := Check.bind_eq_ok.mp hlayout
  obtain rfl := Except.ok.inj hlayout
  exact ⟨hbase, htotal⟩

theorem standard_writtenParts : ∀ part ∈ writtenParts data, part.1.isStandard = true :=
  List.forall_mem_append.mpr ⟨List.forall_mem_append.mpr ⟨List.forall_mem_append.mpr
    ⟨standard_waveformSections, standard_metadataParts⟩, standard_s4Parts⟩, standard_s6Parts⟩

theorem length_writtenParts_le : (writtenParts data).length ≤ 7 := by
  obtain ⟨hwaveform, hmetadata, htempo, hgrid⟩ := @length_parts_le data
  rw [writtenParts, List.length_append, List.length_append, List.length_append]
  omega

/-- The grid layer writes assembled containers. -/
theorem writes_s6 (hfingerprint : data.fingerprint.length = 32) :
    Writes data (waveformFlags data) (writtenParts data)
      (resultQuerySerializedSizeS6 data options) (resultSerializeS6 data options) := by
  refine (writes_s4 hfingerprint).layer hfingerprint (waveformFlags_lt data) ?_ standard_s6Parts
    ?_ laysOut_s6
  · exact List.forall_mem_append.mpr ⟨List.forall_mem_append.mpr
      ⟨standard_waveformSections, standard_metadataParts⟩, standard_s4Parts⟩
  · rw [← List.length_append]
    exact length_writtenParts_le.trans (by decide)

end Layers

end LibApta.Container
