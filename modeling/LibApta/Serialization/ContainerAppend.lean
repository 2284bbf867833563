import LibApta.Serialization.ContainerWriter

/-!
# Appending keeps containers assembled

A layer that appends its sections to an assembled container leaves the container assembled from the
old sections and the new ones, at the start of the buffer it was in, and does not touch what the
buffer holds behind it.
-/

namespace LibApta.Container

open LittleEndian Packing InPlace

/-! ## The header in place -/

section Header

variable {data : ResultData} (hfingerprint : data.fingerprint.length = 32)

include hfingerprint

/-- Sealing a container replaces its section count and its size. -/
theorem sealContainer_eq (flags count count' total total' : ℕ) (back : Bytes) :
    sealContainer count' total' (sealHeader (headerBytes data flags count total) ++ back) =
      sealHeader (headerBytes data flags count' total') ++ back := by
  have hlength := length_headerBytes hfingerprint flags count' total'
  have hcounted : patch (patch (sealHeader (headerBytes data flags count total) ++ back) 20
      (encode 4 count')) 32 (encode 8 total') =
      headerBytes data flags count' total' ++
        (encode 4 (crc32c (headerBytes data flags count total)) ++ back) := by
    rw [sealHeader]
    generalize crc32c (headerBytes data flags count total) = crc
    rw [headerBytes, headerBytes, magic_eq, encode_fingerprint hfingerprint]
    simp (disch := decide) only [List.append_assoc, patch_skip, patch_number, Nat.reduceSub]
  rw [sealContainer, hcounted, ← hlength, List.take_left, patch_middle _ (by simp), sealHeader,
    List.append_assoc]

/-- Marking a container as partial sets a flag of its header. -/
theorem patch_flags_eq (flags flags' count total : ℕ) (back : Bytes) :
    patch (patch (sealHeader (headerBytes data flags count total) ++ back) 16 (encode 4 flags')) 92
        (encode 4 (crc32c ((patch (sealHeader (headerBytes data flags count total) ++ back) 16
          (encode 4 flags')).take 92))) =
      sealHeader (headerBytes data flags' count total) ++ back := by
  have hlength := length_headerBytes hfingerprint flags' count total
  have hflagged : patch (sealHeader (headerBytes data flags count total) ++ back) 16
      (encode 4 flags') = headerBytes data flags' count total ++
        (encode 4 (crc32c (headerBytes data flags count total)) ++ back) := by
    rw [sealHeader]
    generalize crc32c (headerBytes data flags count total) = crc
    rw [headerBytes, headerBytes, magic_eq, encode_fingerprint hfingerprint]
    simp (disch := decide) only [List.append_assoc, patch_skip, patch_number, Nat.reduceSub]
  rw [hflagged, ← hlength, List.take_left, patch_middle _ (by simp), sealHeader,
    List.append_assoc]

/-- The fields of the header that the writer looks at. -/
theorem header_fields {flags count total : ℕ} (hflags : flags < 256 ^ 4) (hcount : count < 256 ^ 4)
    (back : Bytes) :
    field 4 (sealHeader (headerBytes data flags count total) ++ back) 16 = flags ∧
      field 4 (sealHeader (headerBytes data flags count total) ++ back) 20 = count ∧
      field 8 (sealHeader (headerBytes data flags count total) ++ back) 24 = headerSize := by
  rw [sealHeader]
  generalize crc32c (headerBytes data flags count total) = crc
  rw [headerBytes, magic_eq, encode_fingerprint hfingerprint]
  refine ⟨?_, ?_, ?_⟩ <;>
    simp (disch := first | assumption | decide) only [List.append_assoc, field_skip, field_head,
      Nat.reduceSub]

end Header

/-! ## The directory in place -/

section Directory

variable {parts added : List Part}

/-- The room for directory records is a multiple of the alignment. -/
theorem dvd_entryBytes (count : ℕ) : sectionAlignment ∣ count * directoryEntrySize :=
  Dvd.dvd.mul_left (by decide) count

theorem payloadStart_add (count added : ℕ) :
    payloadStart (count + added) = payloadStart count + added * directoryEntrySize := by
  rw [payloadStart, payloadStart, Nat.add_mul, Nat.add_assoc]

/-- The payloads start on a multiple of the alignment. -/
theorem dvd_payloadStart (count : ℕ) : sectionAlignment ∣ payloadStart count :=
  Nat.dvd_add (by decide) (dvd_entryBytes count)

/-- With more sections the old ones lie behind their records, the new ones behind the old. -/
theorem placeParts_append (parts added : List Part) :
    placeParts (parts ++ added) =
      ((placeParts parts).map fun p => (p.1 + added.length * directoryEntrySize, p.2)) ++
        place sectionAlignment Part.size
          (containerSize parts + added.length * directoryEntrySize) added := by
  rw [placeParts, List.length_append, payloadStart_add, place_append,
    place_add (by decide) (dvd_entryBytes _), finish_add (by decide) (dvd_entryBytes _), placeParts,
    containerSize]

theorem containerSize_append (parts added : List Part) :
    containerSize (parts ++ added) = finish sectionAlignment Part.size
      (containerSize parts + added.length * directoryEntrySize) added := by
  rw [containerSize, List.length_append, payloadStart_add, finish_append,
    finish_add (by decide) (dvd_entryBytes _), containerSize]

theorem packParts_append (parts added : List Part) :
    packParts (parts ++ added) = packParts parts ++ pack sectionAlignment 0 Prod.snd
      (containerSize parts + added.length * directoryEntrySize) added := by
  have hfinish : finish sectionAlignment (fun part : Part => part.2.length)
      (payloadStart parts.length + added.length * directoryEntrySize) parts =
      containerSize parts + added.length * directoryEntrySize :=
    finish_add (by decide) (dvd_entryBytes _) _ _
  rw [packParts, List.length_append, payloadStart_add, pack_append, hfinish,
    pack_add (by decide) (dvd_entryBytes _), packParts]

/-- A container with more sections is larger by at least their records. -/
theorem containerSize_add_le (parts added : List Part) :
    containerSize parts + added.length * directoryEntrySize ≤ containerSize (parts ++ added) := by
  rw [containerSize_append]
  exact le_finish (by decide) _ _

theorem bytes_eq_encode {tag : SectionTag} (h : tag.isStandard = true) :
    tag.bytes = encode 4 (number tag.bytes) := by
  rw [← SectionTag.length_bytes h, encode_number]

/-- A directory record names the place of its section. -/
theorem offset_partRecord {placed : ℕ × Part} (htag : placed.2.1.isStandard = true)
    (hoffset : placed.1 < 256 ^ 8) : field 8 (partRecord placed) 8 = placed.1 := by
  rw [partRecord, recordOf, bytes_eq_encode htag]
  simp (disch := first | assumption | decide) only [List.append_assoc, field_skip, field_head,
    Nat.reduceSub]

/-- Correcting the offset of a record moves its section. -/
theorem shiftOffset_partRecord {placed : ℕ × Part} (htag : placed.2.1.isStandard = true)
    (hoffset : placed.1 < 256 ^ 8) (shift : ℕ) :
    shiftOffset shift (partRecord placed) = partRecord (placed.1 + shift, placed.2) := by
  rw [shiftOffset, offset_partRecord htag hoffset, partRecord, partRecord, recordOf, recordOf,
    bytes_eq_encode htag]
  simp (disch := decide) only [List.append_assoc, patch_skip, patch_number, Nat.reduceSub]

/-- The least of some numbers, the first of which bounds the others from below. -/
private theorem foldl_min_eq {α : Type} {f : α → ℕ} {least : ℕ} {items : List α}
    (h : ∀ item ∈ items, least ≤ f item) :
    items.foldl (fun first item => min first (f item)) least = least := by
  induction items with
  | nil => rfl
  | cons item rest ih =>
      rw [List.foldl_cons, min_eq_left (h item List.mem_cons_self)]
      exact ih fun other hother => h other (List.mem_cons_of_mem item hother)

section InBuffer

variable {data : ResultData} {flags : ℕ} (hfingerprint : data.fingerprint.length = 32)
  (hparts : ∀ part ∈ parts, part.1.isStandard = true) (hsize : containerSize parts ≤ uint64Max)

include hparts hsize in
/-- The places of sections are 64-bit offsets behind the directory. -/
theorem offset_of_mem_placeParts {placed : ℕ × Part} (h : placed ∈ placeParts parts) :
    placed.2.1.isStandard = true ∧ placed.1 < 256 ^ 8 := by
  obtain ⟨hmem, -, -, hlast⟩ := mem_placeParts h
  exact ⟨hparts _ hmem, lt_of_le_uint64Max (((Nat.le_add_right _ _).trans hlast).trans hsize)⟩

include hfingerprint hparts

/-- The directory records of a container in a buffer. -/
theorem records_containerOf (back : Bytes) :
    records directoryEntrySize (containerOf data flags parts ++ back) headerSize parts.length =
      (placeParts parts).map partRecord := by
  have hrecords := @records_flatten directoryEntrySize ((placeParts parts).map partRecord)
    (sealHeader (headerBytes data flags parts.length (containerSize parts)))
    (packParts parts ++ back) fun record => length_partRecord hparts
  rw [length_sealHeader (length_headerBytes hfingerprint _ _ _), List.length_map, placeParts,
    length_place, ← placeParts] at hrecords
  rw [containerOf, List.append_assoc, List.append_assoc]
  exact hrecords

/-- The size of a container. -/
theorem size_containerOf (flags : ℕ) :
    (containerOf data flags parts).length = containerSize parts := by
  rw [← length_packParts, payloadStart, containerOf, List.length_append, List.length_append,
    length_directory hparts, length_sealHeader (length_headerBytes hfingerprint _ _ _),
    Nat.add_assoc]

include hsize

/-- The first payload of a container starts behind the directory. -/
theorem firstPayloadOffset_containerOf (hne : parts ≠ []) (back : Bytes) :
    firstPayloadOffset (containerOf data flags parts ++ back) parts.length =
      payloadStart parts.length := by
  rw [firstPayloadOffset, records_containerOf hfingerprint hparts, List.foldl_map]
  obtain ⟨part, rest, hcons⟩ := List.exists_cons_of_ne_nil hne
  have hplace : placeParts parts = (payloadStart parts.length, part) ::
      place sectionAlignment Part.size (payloadStart parts.length + part.size) rest := by
    conv_lhs => rw [placeParts, hcons, place, ← hcons]
    rw [alignUp_of_dvd (by decide) (dvd_payloadStart _)]
  have hfirst : (payloadStart parts.length, part) ∈ placeParts parts :=
    hplace ▸ List.mem_cons_self
  obtain ⟨htag, hoffset⟩ := offset_of_mem_placeParts hparts hsize hfirst
  rw [hplace, List.foldl_cons, offset_partRecord htag hoffset,
    min_eq_right ((payloadStart_le parts).trans hsize)]
  refine foldl_min_eq fun placed hplaced => ?_
  have hmem : placed ∈ placeParts parts := hplace ▸ List.mem_cons_of_mem _ hplaced
  obtain ⟨htag, hoffset⟩ := offset_of_mem_placeParts hparts hsize hmem
  rw [offset_partRecord htag hoffset]
  exact (mem_placeParts hmem).2.1

/-- A layer finds the sections of the container below. -/
theorem locateSections_containerOf (hne : parts ≠ []) (hflags : flags < 256 ^ 4) {count : ℕ}
    (hcount : parts.length + count ≤ uint32Max) (back : Bytes) :
    locateSections (containerSize parts) count (containerOf data flags parts ++ back) =
      .ok (parts.length, payloadStart parts.length) := by
  have hsmall : parts.length < 256 ^ 4 :=
    lt_of_le_uint32Max ((Nat.le_add_right _ _).trans hcount)
  obtain ⟨-, hold, hdirectory⟩ := header_fields hfingerprint hflags hsmall
    (((placeParts parts).map partRecord).flatten ++ packParts parts ++ back)
  have hpos := List.length_pos_iff.mpr hne
  have hstart := payloadStart_le parts
  have hodd : payloadStart parts.length ≠ uint64Max := by
    show 96 + parts.length * 40 ≠ 18446744073709551615
    omega
  rw [← List.append_assoc, ← containerOf] at hold hdirectory
  have hfirst : firstPayloadOffset (containerOf data flags parts ++ back) parts.length =
      payloadStart parts.length := firstPayloadOffset_containerOf hfingerprint hparts hsize hne back
  refine Check.bind_eq_ok.mpr ⟨(), Check.rejectIf_eq_ok.mpr ?_,
    Check.bind_eq_ok.mpr ⟨(), Check.rejectIf_eq_ok.mpr ?_, ?_⟩⟩
  · rw [hold, hdirectory]
    simp only [ne_eq, not_true, false_or, not_or, not_lt]
    omega
  · rw [hold, hfirst, not_or, not_lt]
    exact ⟨hodd, hstart⟩
  · rw [hold, hfirst]
    rfl

end InBuffer

/-! ## Appending -/

section Appending

variable {data : ResultData} {flags : ℕ} (hfingerprint : data.fingerprint.length = 32)
  (hparts : ∀ part ∈ parts, part.1.isStandard = true)
  (hadded : ∀ part ∈ added, part.1.isStandard = true)
  (hsize : containerSize (parts ++ added) ≤ uint64Max)

include hparts hsize

/-- The records of the old sections, corrected, are theirs in the larger container. -/
theorem map_shiftOffset :
    ((placeParts parts).map partRecord).map (shiftOffset (added.length * directoryEntrySize)) ++
        (place sectionAlignment Part.size
          (containerSize parts + added.length * directoryEntrySize) added).map partRecord =
      (placeParts (parts ++ added)).map partRecord := by
  have hold : containerSize parts ≤ uint64Max :=
    ((Nat.le_add_right _ _).trans (containerSize_add_le parts added)).trans hsize
  rw [placeParts_append, List.map_append, List.map_map, List.map_map]
  congr 1
  refine List.map_congr_left fun placed hplaced => ?_
  obtain ⟨htag, hoffset⟩ := offset_of_mem_placeParts hparts hold hplaced
  exact shiftOffset_partRecord htag hoffset _

include hfingerprint hadded

/-- Sections appended to an assembled container leave an assembled container, and the bytes of the
buffer behind it as they were. -/
theorem appendSections_containerOf {layout : AppendLayout} {back : Bytes}
    (hbase : layout.baseSize = containerSize parts)
    (htotal : layout.totalSize = containerSize (parts ++ added))
    (hroom : containerSize (parts ++ added) - containerSize parts ≤ back.length) :
    appendSections layout parts.length (payloadStart parts.length) added
        (containerOf data flags parts ++ back) =
      ⟨containerOf data flags (parts ++ added) ++
          back.drop (containerSize (parts ++ added) - containerSize parts),
        containerSize (parts ++ added)⟩ := by
  set shift := added.length * directoryEntrySize with hshift
  set header := sealHeader (headerBytes data flags parts.length (containerSize parts)) with hheader
  set table := (placeParts parts).map partRecord with htable
  set table' := (place sectionAlignment Part.size (containerSize parts + shift) added).map
    partRecord with htable'
  set tail := pack sectionAlignment (0 : UInt8) Prod.snd (containerSize parts + shift) added
    with htail
  have hheaderLength : header.length = headerSize :=
    length_sealHeader (length_headerBytes hfingerprint _ _ _)
  have htableLength : table.length = parts.length := by
    rw [htable, List.length_map, placeParts, length_place]
  have htableWidth : ∀ record ∈ table, record.length = directoryEntrySize := fun record =>
    length_partRecord hparts
  have hflatLength : table.flatten.length = parts.length * directoryEntrySize :=
    length_directory hparts
  have hgrow := containerSize_add_le parts added
  have hpackLength := length_packParts parts
  have htailLength : containerSize parts + shift + tail.length = containerSize (parts ++ added) := by
    rw [containerSize_append]
    exact length_pack (by decide) 0 Prod.snd _ added
  rw [← hshift] at hgrow
  have hstart : payloadStart parts.length = (header ++ table.flatten).length := by
    rw [List.length_append, hheaderLength, hflatLength, payloadStart]
  have htable'Width : ∀ record ∈ table', record.length = directoryEntrySize := by
    intro record hrecord
    obtain ⟨placed, hplaced, rfl⟩ := List.mem_map.mp hrecord
    have hmem := List.mem_map_of_mem hplaced (f := Prod.snd)
    rw [map_snd_place] at hmem
    exact length_recordOf (SectionTag.length_bytes (hadded _ hmem)) _ _
  have hflat'Length : table'.flatten.length = shift := by
    rw [length_flatten_of_width htable'Width, htable', List.length_map, length_place]
  have hshiftWidth : ∀ record ∈ table, record.length = directoryEntrySize ∧
      (shiftOffset shift record).length = directoryEntrySize := by
    intro record hrecord
    have hwidth := htableWidth record hrecord
    refine ⟨hwidth, ?_⟩
    rw [shiftOffset, length_patch, hwidth]
    rw [length_encode, hwidth]
    decide
  -- the payloads move behind the new records
  set gap := (packParts parts ++ back).take shift with hgap
  have hgapLength : gap.length = shift := by
    rw [hgap, List.length_take, List.length_append]
    omega
  have hmoved : move (containerOf data flags parts ++ back) (payloadStart parts.length + shift)
      (payloadStart parts.length) (layout.baseSize - payloadStart parts.length) =
      header ++ (table.flatten ++ (gap ++ (packParts parts ++ back.drop shift))) := by
    have hpiece : layout.baseSize - payloadStart parts.length = (packParts parts).length := by
      omega
    have hsplit : containerOf data flags parts ++ back =
        (header ++ table.flatten) ++ (packParts parts ++ back) := by
      rw [containerOf, List.append_assoc, List.append_assoc, List.append_assoc]
    rw [hpiece, hsplit, hstart, move_back, ← hgap, List.append_assoc]
  -- the old records name the new places
  set shifted := (table.map (shiftOffset shift)).flatten with hshifted
  have hshiftedLength : shifted.length = table.flatten.length := by
    rw [hshifted, length_flatten_of_width fun record hrecord => ?_, List.length_map, htableLength,
      hflatLength]
    obtain ⟨old, hold, rfl⟩ := List.mem_map.mp hrecord
    exact (hshiftWidth old hold).2
  have hmapped : mapRecords directoryEntrySize (shiftOffset shift) headerSize parts.length
      (header ++ (table.flatten ++ (gap ++ (packParts parts ++ back.drop shift)))) =
      header ++ (shifted ++ (gap ++ (packParts parts ++ back.drop shift))) := by
    rw [← hheaderLength, ← htableLength]
    exact mapRecords_eq hshiftWidth header _
  -- the new payloads are packed behind the old ones
  have hfilled : writePacked sectionAlignment 0 Prod.snd (layout.baseSize + shift) added
      (header ++ (shifted ++ (gap ++ (packParts parts ++ back.drop shift)))) =
      header ++ (shifted ++ (gap ++ (packParts parts ++ (tail ++
        back.drop (containerSize (parts ++ added) - containerSize parts))))) := by
    have hcursor : layout.baseSize + shift =
        (header ++ (shifted ++ (gap ++ packParts parts))).length := by
      simp only [List.length_append]
      rw [List.length_append] at hstart
      omega
    have hold : (pack sectionAlignment (0 : UInt8) Prod.snd
        (header ++ (shifted ++ (gap ++ packParts parts))).length added).length =
        ((back.drop shift).take tail.length).length := by
      rw [← hcursor, hbase, ← htail, List.length_take, List.length_drop]
      omega
    have hsum : containerSize (parts ++ added) - containerSize parts = shift + tail.length := by
      omega
    have hback : back.drop (containerSize (parts ++ added) - containerSize parts) =
        (back.drop shift).drop tail.length := by
      rw [List.drop_drop, hsum]
    have hsplit : header ++ (shifted ++ (gap ++ (packParts parts ++ back.drop shift))) =
        header ++ (shifted ++ (gap ++ packParts parts)) ++
          ((back.drop shift).take tail.length ++ (back.drop shift).drop tail.length) := by
      rw [List.take_append_drop]
      simp only [List.append_assoc]
    rw [hsplit, hcursor, writePacked_eq (by decide) 0 Prod.snd _ hold, ← hcursor, hbase, ← htail,
      hback]
    simp only [List.append_assoc]
  -- the new records take the room the payloads left
  have hlisted : ∀ rest, writeRecords (headerSize + parts.length * directoryEntrySize) table'
      (header ++ (shifted ++ (gap ++ rest))) =
      header ++ (shifted ++ (table'.flatten ++ rest)) := by
    intro rest
    have hfront : headerSize + parts.length * directoryEntrySize = (header ++ shifted).length := by
      rw [List.length_append, hheaderLength, hshiftedLength, hflatLength]
    have hwritten := @writeRecords_eq _ table' (header ++ shifted) gap rest
      (hflat'Length.trans hgapLength.symm)
    rwa [← hfront, List.append_assoc, List.append_assoc] at hwritten
  have hdirectory : shifted ++ table'.flatten =
      ((placeParts (parts ++ added)).map partRecord).flatten := by
    rw [hshifted, ← List.flatten_append]
    exact congrArg List.flatten (map_shiftOffset hparts hsize)
  rw [appendSections, hmoved, hmapped, hfilled, hbase, hlisted, hheader,
    sealContainer_eq hfingerprint, htotal, containerOf, ← hdirectory, packParts_append,
    List.length_append]
  simp only [List.append_assoc, htail, hshift]

/-- A layer that appends its sections to an assembled container leaves an assembled container. -/
theorem appendLayer_containerOf {layout : AppendLayout} {buffer : Bytes} (hne : parts ≠ [])
    (hflags : flags < 256 ^ 4) (hcount : parts.length + added.length ≤ uint32Max)
    (hbase : layout.baseSize = containerSize parts)
    (htotal : layout.totalSize = containerSize (parts ++ added))
    (hroom : containerSize (parts ++ added) ≤ buffer.length) :
    appendLayer layout added
        ⟨containerOf data flags parts ++ buffer.drop (containerSize parts), containerSize parts⟩ =
      .ok ⟨containerOf data flags (parts ++ added) ++ buffer.drop (containerSize (parts ++ added)),
        containerSize (parts ++ added)⟩ := by
  have hgrow := containerSize_add_le parts added
  have hold : containerSize parts ≤ uint64Max :=
    ((Nat.le_add_right _ _).trans hgrow).trans hsize
  rw [appendLayer]
  split
  case isTrue hnone =>
    rw [hnone, List.append_nil]
    rfl
  case isFalse =>
    have hlocate : locateSections layout.baseSize added.length
        (containerOf data flags parts ++ buffer.drop (containerSize parts)) =
        .ok (parts.length, payloadStart parts.length) := by
      rw [hbase]
      exact locateSections_containerOf hfingerprint hparts hold hne hflags hcount _
    have hdrop : (buffer.drop (containerSize parts)).drop
        (containerSize (parts ++ added) - containerSize parts) =
        buffer.drop (containerSize (parts ++ added)) := by
      rw [List.drop_drop, Nat.add_sub_cancel' ((Nat.le_add_right _ _).trans hgrow)]
    refine Check.bind_eq_ok.mpr ⟨(), Check.rejectIf_eq_ok.mpr ?_,
      Check.bind_eq_ok.mpr ⟨_, hlocate, ?_⟩⟩
    · rw [hbase]
      exact not_not.mpr rfl
    · have happend : appendSections layout parts.length (payloadStart parts.length) added
          (containerOf data flags parts ++ buffer.drop (containerSize parts)) = _ :=
        appendSections_containerOf hfingerprint hparts hadded hsize hbase htotal
          (by rw [List.length_drop]; omega)
      rw [hdrop] at happend
      exact congrArg Except.ok happend

end Appending

end Directory

/-! ## Sizes -/

theorem align8_eq_ok {value result : ℕ} :
    align8 value = .ok result ↔ alignUp sectionAlignment value ≤ uint64Max ∧
      result = alignUp sectionAlignment value := by
  have hiff : ¬ uint64Max - 7 < value ↔ alignUp sectionAlignment value ≤ uint64Max := by
    have hle := @le_alignUp sectionAlignment (by decide) value
    show ¬ 18446744073709551615 - 7 < value ↔ (value + (8 - 1)) / 8 * 8 ≤ 18446744073709551615
    omega
  rw [align8, Check.bind_eq_ok]
  simp only [Check.rejectIf_eq_ok, Check.pure_eq_ok, Except.ok.injEq, exists_and_left, exists_const,
    hiff]
  exact and_congr_right fun _ => eq_comm

/-- Sections can be placed unless the last of them ends beyond 64 bits. -/
theorem placeSections_eq_ok {cursor total : ℕ} {sizes : List ℕ} (hpos : 1 ≤ cursor)
    (hcursor : cursor ≤ uint64Max) :
    placeSections cursor sizes = .ok total ↔
      finish sectionAlignment id cursor sizes ≤ uint64Max ∧
        total = finish sectionAlignment id cursor sizes := by
  induction sizes generalizing cursor with
  | nil =>
      rw [placeSections, Check.pure_eq_ok, Except.ok.injEq, finish]
      exact ⟨fun h => ⟨hcursor, h.symm⟩, fun h => h.2.symm⟩
  | cons size rest ih =>
      have hle := @le_alignUp sectionAlignment (by decide) cursor
      have hlast := @le_finish _ sectionAlignment id (by decide)
        (alignUp sectionAlignment cursor + size) rest
      rw [placeSections, Check.bind_eq_ok, finish, id]
      simp only [align8_eq_ok, Check.bind_eq_ok, Check.rejectIf_eq_ok, not_lt, exists_and_left,
        exists_const]
      constructor
      · rintro ⟨offset, ⟨haligned, rfl⟩, hroom, hrest⟩
        exact (ih (by omega) (by omega)).mp hrest
      · rintro ⟨hfits, rfl⟩
        exact ⟨_, ⟨by omega, rfl⟩, by omega, (ih (by omega) (by omega)).mpr ⟨hfits, rfl⟩⟩

/-- The sections of a layer leave the size of the larger container, if that fits 64 bits and the
limit of the caller. -/
theorem layoutSections_eq_ok {options : Option SerializeOptions} {parts added : List Part}
    {total : ℕ} (hsize : containerSize parts ≤ uint64Max) :
    layoutSections options (containerSize parts) (added.map Part.size) = .ok total ↔
      total = containerSize (parts ++ added) ∧ total ≤ uint64Max ∧
        (added ≠ [] → outputAllowed options total = true) := by
  rw [layoutSections]
  by_cases hnone : added = []
  · rw [hnone, List.map_nil, if_pos rfl, Check.pure_eq_ok, Except.ok.injEq, List.append_nil]
    exact ⟨fun h => ⟨h.symm, h ▸ hsize, fun hne => absurd rfl hne⟩, fun h => h.1.symm⟩
  · have hsome : added.map Part.size ≠ [] := fun h => hnone (List.map_eq_nil_iff.mp h)
    have hfinish : ∀ cursor, finish sectionAlignment id cursor (added.map Part.size) =
        finish sectionAlignment Part.size cursor added := fun cursor => finish_map _ _ _
    have hgrow := containerSize_add_le parts added
    rw [if_neg hsome, List.length_map]
    simp only [Check.bind_eq_ok, Check.rejectIf_eq_ok, Check.pure_eq_ok, Except.ok.injEq, not_lt,
      exists_and_left, exists_const, Bool.not_eq_false]
    have hpos : 1 ≤ containerSize parts := by
      have hstart := payloadStart_le parts
      have hheader : 96 ≤ payloadStart parts.length := Nat.le_add_right _ _
      omega
    constructor
    · rintro ⟨hroom, size, hplace, hallowed, rfl⟩
      obtain ⟨hle, rfl⟩ := (placeSections_eq_ok (by omega) (by omega)).mp hplace
      rw [hfinish, ← containerSize_append] at hle hallowed ⊢
      exact ⟨rfl, hle, fun _ => hallowed⟩
    · rintro ⟨rfl, hle, hallowed⟩
      refine ⟨by omega, _, (placeSections_eq_ok (by omega) (by omega)).mpr ⟨?_, rfl⟩, ?_, ?_⟩ <;>
        rw [hfinish, ← containerSize_append]
      exacts [hle, hallowed hnone]

/-! ## Layers -/

theorem requireRoom_eq_ok {capacity total : ℕ} {u : Unit} :
    requireRoom capacity total = .ok u ↔ total ≤ uint64Max ∧ total ≤ capacity := by
  simp only [requireRoom, Check.bind_eq_ok, Check.rejectIf_eq_ok, not_lt, exists_and_left,
    exists_const]

/-- A size query and a writer agree on a container: the writer puts it at the start of a buffer that
has room for the size, and leaves the rest of the buffer as it was. -/
structure Writes (data : ResultData) (flags : ℕ) (parts : List Part) (query : Check Status ℕ)
    (write : Bytes → Check Status Written) : Prop where
  size : ∀ size, query = .ok size → size = containerSize parts ∧ size ≤ uint64Max ∧ parts ≠ []
  written : ∀ buffer, write buffer = do
    let size ← query
    requireRoom buffer.length size
    return ⟨containerOf data flags parts ++ buffer.drop size, size⟩

section Layers

variable {data : ResultData} {flags : ℕ} {parts added : List Part} {query : Check Status ℕ}
  {write : Bytes → Check Status Written} {calculate : Check Status AppendLayout}

/-- What a writer leaves. -/
theorem Writes.eq_of_ok (h : Writes data flags parts query write) {buffer : Bytes}
    {base : Written} (hwrite : write buffer = .ok base) :
    base = ⟨containerOf data flags parts ++ buffer.drop (containerSize parts),
        containerSize parts⟩ ∧ query = .ok (containerSize parts) ∧
      containerSize parts ≤ uint64Max ∧ parts ≠ [] := by
  rw [h.written] at hwrite
  obtain ⟨size, hquery, hwrite⟩ := Check.bind_eq_ok.mp hwrite
  obtain ⟨_, -, hwrite⟩ := Check.bind_eq_ok.mp hwrite
  obtain ⟨rfl, hsmall, hne⟩ := h.size size hquery
  exact ⟨(Except.ok.inj hwrite).symm, hquery, hsmall, hne⟩

/-- The layout of a layer: the size below comes from the size query below, the size above from the
sections of the layer. -/
def LaysOut (query : Check Status ℕ) (options : Option SerializeOptions) (added : List Part)
    (calculate : Check Status AppendLayout) : Prop :=
  ∀ layout, calculate = .ok layout → query = .ok layout.baseSize ∧
    layoutSections options layout.baseSize (added.map Part.size) = .ok layout.totalSize

/-- A layer over a writer writes the container with its sections appended. -/
theorem Writes.layer (h : Writes data flags parts query write)
    (hfingerprint : data.fingerprint.length = 32) (hflags : flags < 256 ^ 4)
    (hparts : ∀ part ∈ parts, part.1.isStandard = true)
    (hadded : ∀ part ∈ added, part.1.isStandard = true)
    (hcount : parts.length + added.length ≤ uint32Max) {options : Option SerializeOptions}
    (hlayout : LaysOut query options added calculate) :
    Writes data flags (parts ++ added) (do let layout ← calculate; return layout.totalSize)
      fun buffer => do
        let layout ← calculate
        requireRoom buffer.length layout.totalSize
        let base ← write buffer
        appendLayer layout added base where
  size := by
    intro size hsize
    obtain ⟨layout, hcalculate, htotal⟩ := Check.bind_eq_ok.mp hsize
    obtain ⟨hquery, hsections⟩ := hlayout layout hcalculate
    obtain ⟨hbase, hsmall, hne⟩ := h.size _ hquery
    rw [hbase, layoutSections_eq_ok (hbase ▸ hsmall)] at hsections
    obtain rfl := Except.ok.inj htotal
    exact ⟨hsections.1, hsections.2.1, fun hnil => hne (List.append_eq_nil_iff.mp hnil).1⟩
  written := by
    intro buffer
    rw [bind_assoc]
    refine Check.bind_congr_ok fun layout hcalculate => ?_
    refine Check.bind_congr_ok fun _ hroom => ?_
    obtain ⟨hsmall, hcapacity⟩ := requireRoom_eq_ok.mp hroom
    obtain ⟨hquery, hsections⟩ := hlayout layout hcalculate
    obtain ⟨hbase, hbaseSmall, hne⟩ := h.size _ hquery
    rw [hbase, layoutSections_eq_ok (hbase ▸ hbaseSmall)] at hsections
    obtain ⟨htotal, -, -⟩ := hsections
    have hgrow := containerSize_add_le parts added
    have hbelow : write buffer = .ok ⟨containerOf data flags parts ++
        buffer.drop (containerSize parts), containerSize parts⟩ := by
      have hlower : requireRoom buffer.length layout.baseSize = .ok () :=
        requireRoom_eq_ok.mpr ⟨hbaseSmall, by omega⟩
      rw [h.written, hquery, Check.ok_bind, hlower, Check.ok_bind, hbase]
      rfl
    rw [hbelow, Check.ok_bind, appendLayer_containerOf hfingerprint hparts hadded
      (htotal ▸ hsmall) hne hflags hcount hbase htotal (htotal ▸ hcapacity), htotal]
    rfl

end Layers

end LibApta.Container
