import LibApta.Lib.Packing
import LibApta.Serialization.Sections

/-!
# Assembled containers

A container as the writer leaves it: the header, a directory record for each section, and the
payloads packed behind the directory on multiples of eight bytes. The validator accepts such a
container, and its lookups find the payloads it was assembled from.
-/

namespace LibApta.Container

open LittleEndian Packing

/-! ## Containers from sections -/

/-- The version number of the public interface. -/
abbrev apiVersion : ℕ := 4194304

/-- The sections of a container are aligned to this many bytes. -/
abbrev sectionAlignment : ℕ := 8

/-- A section before it has a place: its tag and its payload. -/
abbrev Part := SectionTag × Bytes

/-- The size of the payload. -/
def Part.size (part : Part) : ℕ := part.2.length

/-- The flags of a directory record. -/
def sectionFlags : SectionTag → ℕ
  | .overview => 2 ^ flagRequired
  | _ => 0

/-- The header, up to its checksum. -/
def headerBytes (data : ResultData) (flags count total : ℕ) : Bytes :=
  magic ++ encode 2 headerSize ++ encode 2 1 ++ encode 2 specVersionMajor ++
    encode 2 specVersionMinor ++ encode 4 apiVersion ++ encode 4 flags ++ encode 4 count ++
    encode 8 headerSize ++ encode 8 total ++ encode 8 data.totalSourceFrames ++
    encode 4 data.sourceSampleRate ++ encode 2 data.sourceChannelCount ++
    encode 2 data.sourceChannelLayout ++ data.fingerprint ++ encode 4 data.fingerprintKind

/-- The header with its checksum. -/
def sealHeader (header : Bytes) : Bytes := header ++ encode 4 (crc32c header)

/-- Where the payloads start. -/
def payloadStart (count : ℕ) : ℕ := headerSize + count * directoryEntrySize

/-- The sections with their places. -/
def placeParts (parts : List Part) : List (ℕ × Part) :=
  place sectionAlignment Part.size (payloadStart parts.length) parts

/-- The size of the file. -/
def containerSize (parts : List Part) : ℕ :=
  finish sectionAlignment Part.size (payloadStart parts.length) parts

/-- The directory record of a section at a place. -/
def partRecord (placed : ℕ × Part) : Bytes :=
  recordOf placed.2.1.bytes placed.2.2 (sectionFlags placed.2.1) placed.1

/-- The packed payloads. -/
def packParts (parts : List Part) : Bytes :=
  pack sectionAlignment 0 Prod.snd (payloadStart parts.length) parts

/-- The container of some sections. -/
def containerOf (data : ResultData) (flags : ℕ) (parts : List Part) : Bytes :=
  sealHeader (headerBytes data flags parts.length (containerSize parts)) ++
    (((placeParts parts).map partRecord).flatten ++ packParts parts)

/-- The entry of a section at a place. -/
def partEntry (placed : ℕ × Part) : Entry where
  tag := placed.2.1
  version := 1
  flags := sectionFlags placed.2.1
  offset := placed.1
  storedSize := placed.2.2.length
  logicalSize := placed.2.2.length
  crc := crc32c placed.2.2
  reserved := 0

/-- The source fields of a result fit the header. -/
structure SourceOk (data : ResultData) : Prop where
  total : data.totalSourceFrames ≤ uint64Max
  rate : data.sourceSampleRate ≠ 0 ∧ data.sourceSampleRate ≤ uint32Max
  channels : data.sourceChannelCount ≠ 0 ∧ data.sourceChannelCount < 65536
  layout : data.sourceChannelLayout < 65536
  fingerprint : data.fingerprint.length = 32
  kind : data.fingerprintKind ≤ 2
  noFingerprint : data.fingerprintKind = 0 → ∀ byte ∈ data.fingerprint, byte = 0

/-- The flags of a container agree with the duration of the source. -/
structure FlagsOk (data : ResultData) (flags : ℕ) : Prop where
  small : flags < 8
  unknown : data.totalSourceFrames = totalFramesUnknown →
    flags.testBit flagDurationUnknown = true ∧ flags.testBit flagPartialResult = true
  known : data.totalSourceFrames ≠ totalFramesUnknown → flags.testBit flagDurationUnknown = false

/-- The sections of a container: standard ones, and exactly one overview. -/
structure PartsOk (parts : List Part) (overview : Bytes) : Prop where
  standard : ∀ part ∈ parts, part.1.isStandard = true
  overview : (parts.filter fun part => part.1 = .overview).map Prod.snd = [overview]
  length : parts.length ≤ uint32Max
  size : containerSize parts ≤ uint64Max

/-! ## Sizes -/

theorem magic_eq : magic = encode 4 1096044609 := by decide

theorem encode_fingerprint {fingerprint : Bytes} (h : fingerprint.length = 32) :
    fingerprint = encode 32 (number fingerprint) := by
  rw [← h, encode_number]

theorem length_headerBytes {data : ResultData} (h : data.fingerprint.length = 32)
    (flags count total : ℕ) : (headerBytes data flags count total).length = 92 := by
  simp only [headerBytes, List.length_append, length_encode, h, magic_eq]

theorem length_sealHeader {header : Bytes} (h : header.length = 92) :
    (sealHeader header).length = 96 := by
  rw [sealHeader, List.length_append, length_encode, h]

theorem length_recordOf {tag payload : Bytes} (h : tag.length = 4) (flags offset : ℕ) :
    (recordOf tag payload flags offset).length = directoryEntrySize := by
  simp only [recordOf, List.length_append, length_encode, h]

section Sizes

variable {data : ResultData} {parts : List Part} (flags : ℕ)

theorem length_partRecord (hstandard : ∀ part ∈ parts, part.1.isStandard = true) {record : Bytes}
    (h : record ∈ (placeParts parts).map partRecord) : record.length = directoryEntrySize := by
  obtain ⟨placed, hplaced, rfl⟩ := List.mem_map.mp h
  have hmem : placed.2 ∈ parts := by
    rw [← @map_snd_place _ sectionAlignment Part.size (payloadStart parts.length) parts]
    exact List.mem_map_of_mem hplaced
  exact length_recordOf (SectionTag.length_bytes (hstandard _ hmem)) _ _

theorem length_directory (hstandard : ∀ part ∈ parts, part.1.isStandard = true) :
    ((placeParts parts).map partRecord).flatten.length = parts.length * directoryEntrySize := by
  rw [length_flatten_of_width fun record => length_partRecord hstandard, List.length_map,
    placeParts, length_place]

theorem length_packParts (parts : List Part) :
    payloadStart parts.length + (packParts parts).length = containerSize parts :=
  length_pack (by decide) 0 Prod.snd _ parts

theorem length_containerOf (hsource : SourceOk data)
    (hstandard : ∀ part ∈ parts, part.1.isStandard = true) :
    (containerOf data flags parts).length = containerSize parts := by
  rw [← length_packParts, payloadStart, containerOf, List.length_append, List.length_append,
    length_directory hstandard,
    length_sealHeader (length_headerBytes hsource.fingerprint _ _ _), Nat.add_assoc]

end Sizes

/-! ## Reading back -/

/-- A 64-bit number takes eight bytes. -/
theorem lt_of_le_uint64Max {value : ℕ} (h : value ≤ uint64Max) : value < 256 ^ 8 :=
  lt_of_le_of_lt h (by decide)

/-- A 32-bit number takes four bytes. -/
theorem lt_of_le_uint32Max {value : ℕ} (h : value ≤ uint32Max) : value < 256 ^ 4 :=
  lt_of_le_of_lt h (by decide)

theorem sectionFlags_lt (tag : SectionTag) : sectionFlags tag < 8 := by
  unfold sectionFlags
  split <;> decide

section Reading

variable {data : ResultData} {flags : ℕ} {parts : List Part}

/-- The record of a section holds its entry. -/
theorem entryOf_partRecord {placed : ℕ × Part} (htag : placed.2.1.isStandard = true)
    (hfits : placed.1 + placed.2.2.length ≤ uint64Max) :
    entryOf (partRecord placed) = partEntry placed := by
  have hbytes : placed.2.1.bytes = encode 4 (number placed.2.1.bytes) := by
    rw [← SectionTag.length_bytes htag, encode_number]
  have hflags : sectionFlags placed.2.1 < 256 ^ 2 :=
    lt_trans (sectionFlags_lt placed.2.1) (by decide)
  have hoffset := lt_of_le_uint64Max ((Nat.le_add_right _ _).trans hfits)
  have hsize := lt_of_le_uint64Max ((Nat.le_add_left _ _).trans hfits)
  have hcrc : crc32c placed.2.2 < 256 ^ 4 := crc32c_lt placed.2.2
  have hslice : slice (partRecord placed) 0 4 = placed.2.1.bytes := by
    rw [partRecord, recordOf, hbytes]
    simp only [List.append_assoc, slice_head]
  rw [entryOf, hslice, sectionTag_bytes htag, partRecord, recordOf, hbytes]
  simp (disch := first | assumption | decide) only [List.append_assoc, field_skip, field_head,
    field_last, Nat.reduceSub, partEntry]

/-- The header of a container reads back. -/
theorem headerOf_containerOf (hsource : SourceOk data) (hflags : flags < 8)
    (hcount : parts.length ≤ uint32Max) (hsize : containerSize parts ≤ uint64Max) :
    headerOf (containerOf data flags parts) =
      { headerSize := 96
        containerVersion := 1
        specificationMajor := specVersionMajor
        specificationMinor := specVersionMinor
        producerApiVersion := apiVersion
        containerFlags := flags
        sectionCount := parts.length
        directoryOffset := 96
        totalFileSize := containerSize parts
        totalSourceFrames := data.totalSourceFrames
        sourceSampleRate := data.sourceSampleRate
        sourceChannelCount := data.sourceChannelCount
        sourceChannelLayout := data.sourceChannelLayout
        fingerprint := data.fingerprint
        fingerprintKind := data.fingerprintKind
        crc := crc32c (headerBytes data flags parts.length (containerSize parts)) } := by
  have hflags' : flags < 256 ^ 4 := by omega
  have hcount' := lt_of_le_uint32Max hcount
  have hsize' := lt_of_le_uint64Max hsize
  have htotal := lt_of_le_uint64Max hsource.total
  have hrate := lt_of_le_uint32Max hsource.rate.2
  have hchannels : data.sourceChannelCount < 256 ^ 2 := hsource.channels.2
  have hlayout : data.sourceChannelLayout < 256 ^ 2 := hsource.layout
  have hkind : data.fingerprintKind < 256 ^ 4 := lt_of_le_of_lt hsource.kind (by decide)
  have hcrc : crc32c (headerBytes data flags parts.length (containerSize parts)) < 256 ^ 4 :=
    crc32c_lt _
  generalize hchecksum : crc32c (headerBytes data flags parts.length (containerSize parts)) = crc
    at hcrc ⊢
  rw [containerOf, sealHeader, hchecksum, headerBytes, magic_eq,
    encode_fingerprint hsource.fingerprint]
  simp (disch := first | assumption | decide) only [headerOf, List.append_assoc, field_skip,
    field_head, slice_skip, slice_head, Nat.reduceSub]

/-- The places of the sections lie behind the directory, on multiples of eight bytes, and the
sections end within the file. -/
theorem mem_placeParts {placed : ℕ × Part} (h : placed ∈ placeParts parts) :
    placed.2 ∈ parts ∧ payloadStart parts.length ≤ placed.1 ∧ placed.1 % 8 = 0 ∧
      placed.1 + placed.2.2.length ≤ containerSize parts := by
  obtain ⟨hfirst, hdvd, hlast⟩ := mem_place (by decide) h
  refine ⟨?_, hfirst, Nat.mod_eq_zero_of_dvd hdvd, hlast⟩
  rw [← @map_snd_place _ sectionAlignment Part.size (payloadStart parts.length) parts]
  exact List.mem_map_of_mem h

/-- The directory of a container holds the entries of its sections. -/
theorem directory_containerOf (hsource : SourceOk data)
    (hstandard : ∀ part ∈ parts, part.1.isStandard = true)
    (hsize : containerSize parts ≤ uint64Max) :
    directory (containerOf data flags parts) 96 parts.length =
      (placeParts parts).map partEntry := by
  have hrecords := @records_flatten directoryEntrySize ((placeParts parts).map partRecord)
    (sealHeader (headerBytes data flags parts.length (containerSize parts))) (packParts parts)
    fun record => length_partRecord hstandard
  rw [length_sealHeader (length_headerBytes hsource.fingerprint _ _ _), List.length_map, placeParts,
    length_place, ← placeParts] at hrecords
  rw [directory, containerOf, hrecords, List.map_map]
  refine List.map_congr_left fun placed hplaced => ?_
  obtain ⟨hmem, -, -, hlast⟩ := mem_placeParts hplaced
  exact entryOf_partRecord (hstandard _ hmem) (hlast.trans hsize)

/-- An entry points to the payload of its section. -/
theorem payload_partEntry (hsource : SourceOk data)
    (hstandard : ∀ part ∈ parts, part.1.isStandard = true) {placed : ℕ × Part}
    (h : placed ∈ placeParts parts) :
    (partEntry placed).payload (containerOf data flags parts) = placed.2.2 := by
  have hfront : (sealHeader (headerBytes data flags parts.length (containerSize parts)) ++
      ((placeParts parts).map partRecord).flatten).length = payloadStart parts.length := by
    rw [List.length_append, length_directory hstandard,
      length_sealHeader (length_headerBytes hsource.fingerprint _ _ _), payloadStart]
  have hslice := @slice_pack _ Part sectionAlignment (by decide) 0 Prod.snd
    (sealHeader (headerBytes data flags parts.length (containerSize parts)) ++
      ((placeParts parts).map partRecord).flatten) parts placed (by rwa [hfront])
  rw [hfront] at hslice
  rw [Entry.payload, containerOf, ← List.append_assoc]
  exact hslice

end Reading

/-! ## The validator accepts -/

section Valid

variable {data : ResultData} {flags : ℕ} {parts : List Part} {overview : Bytes}

theorem PartsOk.one_le_length (h : PartsOk parts overview) : 1 ≤ parts.length := by
  rw [Nat.one_le_iff_ne_zero]
  intro hzero
  have hoverview := h.overview
  rw [List.length_eq_zero_iff.mp hzero] at hoverview
  cases hoverview

/-- The directory lies within the file. -/
theorem payloadStart_le (parts : List Part) : payloadStart parts.length ≤ containerSize parts :=
  le_finish (by decide) _ parts

variable (hsource : SourceOk data) (hflags : FlagsOk data flags) (hparts : PartsOk parts overview)

include hsource hflags hparts

/-- The directory as the lookups see it. -/
theorem directory_eq :
    (headerOf (containerOf data flags parts)).directory (containerOf data flags parts) =
      (placeParts parts).map partEntry := by
  rw [Header.directory, headerOf_containerOf hsource hflags.small hparts.length hparts.size]
  exact directory_containerOf hsource hparts.standard hparts.size

/-- The payloads of the sections with a tag. -/
theorem payloads_containerOf (tag : SectionTag) :
    ((sections (containerOf data flags parts) tag).map fun entry =>
        entry.payload (containerOf data flags parts)) =
      (parts.filter fun part => part.1 = tag).map Prod.snd := by
  have hmap : ((placeParts parts).map Prod.snd) = parts := map_snd_place _ parts
  conv_rhs => rw [← hmap]
  rw [sections, directory_eq hsource hflags hparts, List.filter_map, List.filter_map, List.map_map,
    List.map_map]
  refine List.map_congr_left fun placed hplaced => ?_
  exact payload_partEntry hsource hparts.standard (List.mem_of_mem_filter hplaced)

theorem headerOk_containerOf :
    HeaderOk (containerOf data flags parts) (headerOf (containerOf data flags parts)) := by
  have hlength := length_containerOf flags hsource hparts.standard
  have hstart := payloadStart_le parts
  have hone := hparts.one_le_length
  have hbytes := length_headerBytes hsource.fingerprint flags parts.length (containerSize parts)
  have hslice : slice (containerOf data flags parts) 0 92 =
      headerBytes data flags parts.length (containerSize parts) := by
    rw [containerOf, sealHeader, List.append_assoc, ← hbytes, slice, List.drop_zero,
      List.take_left]
  have hmagic : slice (containerOf data flags parts) 0 4 = magic := by
    rw [← @slice_slice _ _ 0 92 0 4 (by decide), hslice, headerBytes, magic_eq]
    simp only [List.append_assoc, slice_head]
  have hsmall : 96 ≤ containerSize parts := (Nat.le_add_right _ _).trans hstart
  rw [headerOf_containerOf hsource hflags.small hparts.length hparts.size]
  exact
    { size := hlength ▸ hsmall
      start := hmagic
      headerSize := le_rfl
      headerFits := hlength ▸ hsmall
      version := rfl
      major := rfl
      minor := le_rfl
      flags := hflags.small
      sections := Nat.one_le_iff_ne_zero.mp hone
      afterHeader := le_rfl
      aligned := (by decide : 96 % 8 = 0)
      directoryFits := hlength ▸ hstart
      total := hlength.symm
      rate := hsource.rate.1
      channels := hsource.channels.1
      crc := congrArg crc32c hslice
      kind := hsource.kind
      noFingerprint := hsource.noFingerprint
      duration := by
        unfold DurationOk
        split
        · exact hflags.unknown ‹_›
        · exact hflags.known ‹_› }

/-- The entry of a section is acceptable. -/
theorem entryOk_containerOf (strict : Bool) {placed : ℕ × Part} (h : placed ∈ placeParts parts) :
    EntryOk strict (containerOf data flags parts) (headerOf (containerOf data flags parts))
      (partEntry placed) := by
  obtain ⟨hmem, hfirst, haligned, hlast⟩ := mem_placeParts h
  have hlength := length_containerOf flags hsource hparts.standard
  have hpayload := @payload_partEntry data flags parts hsource hparts.standard placed h
  have hstart : payloadStart parts.length = 96 + parts.length * directoryEntrySize := rfl
  have hrequired : (partEntry placed).tag = .overview → (partEntry placed).flags = 1 := by
    intro htag
    show sectionFlags placed.2.1 = 1
    rw [show placed.2.1 = .overview from htag]
    rfl
  have hoptional : (partEntry placed).tag ≠ .overview → (partEntry placed).flags = 0 := by
    intro htag
    show sectionFlags placed.2.1 = 0
    unfold sectionFlags
    split
    · exact absurd ‹_› htag
    · rfl
  have hplain : (partEntry placed).flags.testBit flagCompressed = false ∧
      (partEntry placed).flags.testBit flagEncrypted = false := by
    by_cases htag : (partEntry placed).tag = .overview
    · rw [hrequired htag]
      decide
    · rw [hoptional htag]
      decide
  rw [headerOf_containerOf hsource hflags.small hparts.length hparts.size]
  exact
    { plain := hplain
      flags := sectionFlags_lt _
      reserved := fun _ => rfl
      version := fun _ => rfl
      required := fun htag => by rw [hrequired htag]; rfl
      optional := fun htag => by rw [hoptional htag]; rfl
      aligned := haligned
      sizes := rfl
      fits := hlength ▸ hlast
      offHeader := by
        rintro ⟨-, -, hbefore, -⟩
        have hbefore' : placed.1 < 0 + 96 := hbefore
        omega
      offDirectory := by
        rintro ⟨-, -, hbefore, -⟩
        have hbefore' : placed.1 < 96 + parts.length * directoryEntrySize := hbefore
        omega
      crc := congrArg crc32c hpayload }

/-- The container of some sections is valid. -/
theorem containerOk_containerOf (strict : Bool) :
    ContainerOk strict (containerOf data flags parts)
      ⟨headerOf (containerOf data flags parts), overview⟩ := by
  have hdirectory := directory_eq hsource hflags hparts
  refine ⟨rfl, headerOk_containerOf hsource hflags hparts, ?_, ?_, ?_⟩
  · rw [hdirectory]
    intro entry hentry
    obtain ⟨placed, hplaced, rfl⟩ := List.mem_map.mp hentry
    exact entryOk_containerOf hsource hflags hparts strict hplaced
  · rw [hdirectory, List.pairwise_map]
    refine (pairwise_place (by decide) _ parts).imp fun {placed other} hbefore => ?_
    rintro ⟨-, -, -, hafter⟩
    exact absurd hafter (Nat.not_lt.mpr hbefore)
  · have hoverview := payloads_containerOf hsource hflags hparts .overview
    rwa [hparts.overview] at hoverview

end Valid

/-! ## Lookups -/

/-- The sections with a tag, with their places in a list of sections. -/
def foundIn (tag : SectionTag) (start : ℕ) (parts : List Part) : List Found :=
  ((parts.zipIdx start).filter fun part => part.1.1 = tag).map fun part => ⟨part.2, part.1.2⟩

section Lookup

variable {tag : SectionTag} {start : ℕ} {part : Part} {parts : List Part}

theorem foundIn_cons_of_pos (h : part.1 = tag) :
    foundIn tag start (part :: parts) = ⟨start, part.2⟩ :: foundIn tag (start + 1) parts := by
  rw [foundIn, List.zipIdx_cons, List.filter_cons_of_pos (by simpa using h), List.map_cons, foundIn]

theorem foundIn_cons_of_neg (h : part.1 ≠ tag) :
    foundIn tag start (part :: parts) = foundIn tag (start + 1) parts := by
  rw [foundIn, List.zipIdx_cons, List.filter_cons_of_neg (by simpa using h), foundIn]

theorem foundIn_append (tag : SectionTag) (start : ℕ) (front back : List Part) :
    foundIn tag start (front ++ back) =
      foundIn tag start front ++ foundIn tag (start + front.length) back := by
  rw [foundIn, List.zipIdx_append, List.filter_append, List.map_append, foundIn, foundIn]

theorem foundIn_eq_nil (h : ∀ part ∈ parts, part.1 ≠ tag) : foundIn tag start parts = [] := by
  induction parts generalizing start with
  | nil => rfl
  | cons part rest ih =>
      rw [foundIn_cons_of_neg (h part List.mem_cons_self)]
      exact ih fun other hother => h other (List.mem_cons_of_mem part hother)

/-- A walk finds the sections a container was assembled from. -/
theorem foundAt_containerOf {data : ResultData} {flags : ℕ} {overview : Bytes}
    (hsource : SourceOk data) (hflags : FlagsOk data flags) (hparts : PartsOk parts overview)
    (tag : SectionTag) : foundAt (containerOf data flags parts) tag = foundIn tag 0 parts := by
  have hfrom : ∀ (placed : List (ℕ × Part)) (start : ℕ),
      (∀ p ∈ placed, (partEntry p).payload (containerOf data flags parts) = p.2.2) →
        foundFrom (containerOf data flags parts) tag start (placed.map partEntry) =
          foundIn tag start (placed.map Prod.snd) := by
    intro placed
    induction placed with
    | nil => exact fun _ _ => rfl
    | cons p rest ih =>
        intro start hpayload
        have hrest := ih (start + 1) fun q hq => hpayload q (List.mem_cons_of_mem p hq)
        rw [List.map_cons, List.map_cons]
        by_cases htag : p.2.1 = tag
        · rw [foundFrom_cons_of_pos htag, foundIn_cons_of_pos htag, hrest,
            hpayload p List.mem_cons_self]
        · rw [foundFrom_cons_of_neg htag, foundIn_cons_of_neg htag, hrest]
  rw [foundAt, directory_eq hsource hflags hparts, hfrom (placeParts parts) 0
    fun p hp => payload_partEntry hsource hparts.standard hp]
  exact congrArg (foundIn tag 0) (map_snd_place _ parts)

end Lookup

end LibApta.Container
