import LibApta.Core.Metadata
import LibApta.Core.Types
import LibApta.Lib.Checked
import Mathlib.Data.Nat.Bitwise

/-!
# The container format

The data a serialized result carries, in the types the container stores it in, and what the writer
and the reader share: section tags, directory entries, the checksum, packed waveform columns.
Feature states, representations and relations are the numbers of the public header. An unknown
total length is the largest 64-bit number.
-/

namespace LibApta.Container

open LittleEndian

/-! ## Constants -/

/-- A byte string. -/
abbrev Bytes := List UInt8

/-- Sizes of the records of a container. -/
abbrev headerSize : ℕ := 96
@[inherit_doc headerSize] abbrev directoryEntrySize : ℕ := 40
@[inherit_doc headerSize] abbrev wovrHeaderSize : ℕ := 48
@[inherit_doc headerSize] abbrev wovrSpanSize : ℕ := 32
@[inherit_doc headerSize] abbrev packedColumnSize : ℕ := 10
@[inherit_doc headerSize] abbrev wdtlHeaderSize : ℕ := 16
@[inherit_doc headerSize] abbrev wdtlTileSize : ℕ := 48
@[inherit_doc headerSize] abbrev tempHeaderSize : ℕ := 56
@[inherit_doc headerSize] abbrev tempCandidateSize : ℕ := 16
@[inherit_doc headerSize] abbrev lgrdPayloadSize : ℕ := 144
@[inherit_doc headerSize] abbrev ggrdHeaderSize : ℕ := 96
@[inherit_doc headerSize] abbrev ggrdSegmentSize : ℕ := 80
@[inherit_doc headerSize] abbrev ggrdBeatSize : ℕ := 40
@[inherit_doc headerSize] abbrev revnPayloadSize : ℕ := 80

/-- The detail level: its id, its frames per column and its columns per tile. -/
abbrev wdtlLevelId : ℕ := 1
@[inherit_doc wdtlLevelId] abbrev wdtlFramesPerColumn : ℕ := 256
@[inherit_doc wdtlLevelId] abbrev wdtlColumnsPerTile : ℕ := 64

/-- The total length of a source of unknown duration. -/
abbrev totalFramesUnknown : ℕ := uint64Max

/-- Feature states. -/
abbrev statePartial : ℕ := 1
@[inherit_doc statePartial] abbrev stateProvisional : ℕ := 2
@[inherit_doc statePartial] abbrev stateFinal : ℕ := 4

/-- The bounds of a confidence, and the confidence of an unknown measure. -/
abbrev maxConfidence : ℕ := 100
@[inherit_doc maxConfidence] abbrev unknownConfidence : ℕ := 255

/-- Tempo bounds in thousandths of a beat per minute, and the candidates of a tempo. -/
abbrev minMillibpm : ℕ := 40000
@[inherit_doc minMillibpm] abbrev maxMillibpm : ℕ := 300000
@[inherit_doc minMillibpm] abbrev maxCandidates : ℕ := 3

/-- The largest tempo relation, `APTA_TEMPO_RELATION_QUADRUPLE`. -/
abbrev maxRelation : ℕ := 8

/-- Grid representations. -/
abbrev representationSegments : ℕ := 1
@[inherit_doc representationSegments] abbrev representationHybrid : ℕ := 3

/-- Bounds of a global grid. -/
abbrev maxSegments : ℕ := 8
@[inherit_doc maxSegments] abbrev maxBeats : ℕ := 3072

/-- Revision states. -/
abbrev revisionPending : ℕ := 1
@[inherit_doc revisionPending] abbrev revisionApplied : ℕ := 2

/-- The flags of a revision are below this bound. -/
abbrev revisionFlagBound : ℕ := 8

/-- Flag bits of a container. -/
abbrev flagPartialResult : ℕ := 0
@[inherit_doc flagPartialResult] abbrev flagDurationUnknown : ℕ := 1

/-- Flag bits of a section. -/
abbrev flagRequired : ℕ := 0
@[inherit_doc flagRequired] abbrev flagCompressed : ℕ := 1
@[inherit_doc flagRequired] abbrev flagEncrypted : ℕ := 2

/-- Flag bits of a waveform column. -/
abbrev columnFlagValid : ℕ := 0
@[inherit_doc columnFlagValid] abbrev columnFlagClipped : ℕ := 2
@[inherit_doc columnFlagValid] abbrev columnFlagHas3Band : ℕ := 3

/-- Flag bits of a grid. -/
abbrev gridFlagBitDynamicTempo : ℕ := 1
@[inherit_doc gridFlagBitDynamicTempo] abbrev gridFlagBitLocked : ℕ := 8

/-- Versions. -/
abbrev specVersionMajor : ℕ := 1
@[inherit_doc specVersionMajor] abbrev specVersionMinor : ℕ := 0

/-! ## The data of a result -/

/-- A packed waveform column. -/
structure Column where
  minimum : ℤ
  maximum : ℤ
  rms : ℕ
  low : ℕ
  mid : ℕ
  high : ℕ
  flags : ℕ
deriving DecidableEq

/-- The column carries band magnitudes. -/
def Column.has3Band (column : Column) : Bool := column.flags.testBit columnFlagHas3Band

/-- A span of the overview. -/
structure Span where
  sourceRange : FrameRange
  firstColumnIndex : ℕ
  columns : List Column
deriving DecidableEq

/-- The overview. -/
structure Overview where
  levelId : ℕ
  framesPerColumn : ℕ
  originFrame : ℕ
  state : ℕ
  confidence : ℕ
  spans : List Span
deriving DecidableEq

/-- A detail tile. -/
structure Tile where
  levelId : ℕ
  tileIndex : ℕ
  sourceRange : FrameRange
  firstColumnIndex : ℕ
  state : ℕ
  confidence : ℕ
  flags : ℕ
  columns : List Column
deriving DecidableEq

/-- The selected tempo. -/
structure SelectedTempo where
  state : ℕ
  confidence : ℕ
  flags : ℕ
  tempoMillibpm : ℕ
  candidateSetId : ℕ
  evidenceRange : FrameRange
  applicabilityRange : FrameRange
deriving DecidableEq

/-- A tempo candidate. -/
structure Candidate where
  tempoMillibpm : ℕ
  score : ℕ
  confidence : ℕ
  relationToSelected : ℕ
  flags : ℕ
deriving DecidableEq

/-- The tempo with its candidates. -/
structure Tempo where
  selected : SelectedTempo
  candidates : List Candidate
deriving DecidableEq

/-- A grid segment. -/
structure Segment where
  applicabilityRange : FrameRange
  anchorWholeFrame : ℕ
  anchorFraction : ℕ
  anchorOrdinal : ℤ
  framesPerBeatWhole : ℕ
  framesPerBeatFraction : ℕ
  beatCount : ℕ
  nominalTempoMillibpm : ℕ
  segmentId : ℕ
  revision : ℕ
  flags : ℕ
  state : ℕ
  confidence : ℕ
deriving DecidableEq

/-- An explicit beat. -/
structure GridBeat where
  wholeFrame : ℕ
  fraction : ℕ
  ordinal : ℤ
  revision : ℕ
  flags : ℕ
  confidence : ℕ
deriving DecidableEq

/-- A beat grid. -/
structure Grid where
  requestedRange : FrameRange
  evidenceRange : FrameRange
  applicabilityRange : FrameRange
  coverageRange : FrameRange
  representation : ℕ
  state : ℕ
  confidence : ℕ
  flags : ℕ
  segments : List Segment
  beats : List GridBeat
deriving DecidableEq

/-- A revision record. -/
structure Revision where
  state : ℕ
  confidence : ℕ
  flags : ℕ
  revisionId : ℕ
  previousRevisionId : ℕ
  proposedRepresentation : ℕ
  proposedSegmentCount : ℕ
  proposedBeatCount : ℕ
  affectedRange : FrameRange
deriving DecidableEq

/-- The data of a result, as far as the container code reads or sets it. -/
structure ResultData where
  specificationMajor : ℕ
  specificationMinor : ℕ
  producerApiVersion : ℕ
  containerVersion : ℕ
  generation : ℕ
  availableFeatures : FeatureMask
  changedFeatures : FeatureMask
  sessionState : SessionState
  totalSourceFrames : ℕ
  sourceSampleRate : ℕ
  sourceChannelCount : ℕ
  sourceChannelLayout : ℕ
  fingerprintKind : ℕ
  fingerprint : Bytes
  overview : Option Overview
  detailTiles : List Tile
  metadata : Option Metadata
  tempo : Option Tempo
  localGrid : Option Grid
  globalGrid : Option (Grid × Revision)
deriving DecidableEq

/-! ## Signed fields -/

/-- The signed number a field of this many values denotes in two's complement. -/
def signed (modulus value : ℕ) : ℤ :=
  if 2 * value < modulus then (value : ℤ) else (value : ℤ) - modulus

/-- The field of a signed number. -/
def unsigned (modulus : ℕ) (value : ℤ) : ℕ := (value % modulus).toNat

theorem unsigned_lt {modulus : ℕ} (h : 0 < modulus) (value : ℤ) :
    unsigned modulus value < modulus := by
  have hpos : (0 : ℤ) < modulus := by exact_mod_cast h
  have hlt := Int.emod_lt_of_pos value hpos
  have hnonneg := Int.emod_nonneg value hpos.ne'
  rw [unsigned]
  omega

/-- A number fits a signed field of this many values. -/
def FitsSigned (modulus : ℕ) (value : ℤ) : Prop :=
  -(modulus : ℤ) ≤ 2 * value ∧ 2 * value < modulus

instance (modulus : ℕ) (value : ℤ) : Decidable (FitsSigned modulus value) := by
  unfold FitsSigned
  infer_instance

theorem signed_unsigned {modulus : ℕ} {value : ℤ} (h : FitsSigned modulus value) :
    signed modulus (unsigned modulus value) = value := by
  obtain ⟨hlow, hhigh⟩ := h
  by_cases hneg : 0 ≤ value
  · have hmod : value % modulus = value := Int.emod_eq_of_lt hneg (by omega)
    rw [unsigned, hmod, signed, if_pos (by omega)]
    omega
  · have hmod : value % modulus = value + modulus := by
      rw [← Int.add_emod_right, Int.emod_eq_of_lt (by omega) (by omega)]
    rw [unsigned, hmod, signed, if_neg (by omega)]
    omega

theorem fitsSigned_signed {modulus value : ℕ} (h : value < modulus) :
    FitsSigned modulus (signed modulus value) := by
  by_cases hsmall : 2 * value < modulus
  · rw [FitsSigned, signed, if_pos hsmall]
    omega
  · rw [FitsSigned, signed, if_neg hsmall]
    omega

/-! ## Checksum -/

/-- One bit of the checksum. -/
def crcBit (crc : ℕ) : ℕ :=
  if crc % 2 = 1 then (crc >>> 1) ^^^ 0x82F63B78 else crc >>> 1

/-- One byte of the checksum. -/
def crcByte (crc : ℕ) (byte : UInt8) : ℕ :=
  crcBit (crcBit (crcBit (crcBit (crcBit (crcBit (crcBit (crcBit (crc ^^^ byte.toNat))))))))

/-- The CRC-32C of a byte string. -/
def crc32c (data : Bytes) : ℕ := data.foldl crcByte 0xFFFFFFFF ^^^ 0xFFFFFFFF

private theorem crcBit_lt {crc : ℕ} (h : crc < 2 ^ 32) : crcBit crc < 2 ^ 32 := by
  have hshift : crc >>> 1 < 2 ^ 32 := by
    rw [Nat.shiftRight_eq_div_pow]
    omega
  unfold crcBit
  split
  · exact Nat.xor_lt_two_pow hshift (by decide)
  · exact hshift

private theorem crcByte_lt {crc : ℕ} (byte : UInt8) (h : crc < 2 ^ 32) :
    crcByte crc byte < 2 ^ 32 := by
  have hbyte : byte.toNat < 2 ^ 32 := byte.toNat_lt.trans (by decide)
  have hxor : crc ^^^ byte.toNat < 2 ^ 32 := Nat.xor_lt_two_pow h hbyte
  iterate 8 apply crcBit_lt
  exact hxor

theorem crc32c_lt (data : Bytes) : crc32c data < 2 ^ 32 := by
  have hfold : ∀ crc, crc < 2 ^ 32 → data.foldl crcByte crc < 2 ^ 32 := by
    induction data with
    | nil =>
        intro crc h
        exact h
    | cons byte rest ih =>
        intro crc h
        exact ih _ (crcByte_lt byte h)
  exact Nat.xor_lt_two_pow (hfold _ (by decide)) (by decide)

-- The check value of the polynomial, for the digits 1 to 9.
example : crc32c [49, 50, 51, 52, 53, 54, 55, 56, 57] = 0xE3069283 := by decide +kernel

/-! ## Sections -/

/-- The tag of a section: `WOVR`, `WDTL`, `META`, `TEMP`, `LGRD`, `GGRD`, `REVN`, or four bytes
that are none of these. -/
inductive SectionTag where
  | overview
  | detail
  | metadata
  | tempo
  | localGrid
  | globalGrid
  | revision
  | other (bytes : Bytes)
deriving DecidableEq

/-- The four bytes of a tag. -/
def SectionTag.bytes : SectionTag → Bytes
  | .overview => [0x57, 0x4F, 0x56, 0x52]
  | .detail => [0x57, 0x44, 0x54, 0x4C]
  | .metadata => [0x4D, 0x45, 0x54, 0x41]
  | .tempo => [0x54, 0x45, 0x4D, 0x50]
  | .localGrid => [0x4C, 0x47, 0x52, 0x44]
  | .globalGrid => [0x47, 0x47, 0x52, 0x44]
  | .revision => [0x52, 0x45, 0x56, 0x4E]
  | .other bytes => bytes

/-- The tags of the standard sections. -/
def standardTags : List SectionTag :=
  [.overview, .detail, .metadata, .tempo, .localGrid, .globalGrid, .revision]

/-- The tag four bytes spell. -/
def sectionTag (bytes : Bytes) : SectionTag :=
  (standardTags.find? fun tag => tag.bytes = bytes).getD (.other bytes)

/-- The section is one the format defines. -/
def SectionTag.isStandard : SectionTag → Bool
  | .other _ => false
  | _ => true

theorem SectionTag.length_bytes {tag : SectionTag} (h : tag.isStandard) :
    tag.bytes.length = 4 := by
  cases tag <;> first | rfl | cases h

theorem sectionTag_bytes {tag : SectionTag} (h : tag.isStandard) : sectionTag tag.bytes = tag := by
  cases tag <;> first | rfl | cases h

/-- A directory entry. -/
structure Entry where
  tag : SectionTag
  version : ℕ
  flags : ℕ
  offset : ℕ
  storedSize : ℕ
  logicalSize : ℕ
  crc : ℕ
  reserved : ℕ
deriving DecidableEq

/-- The entry a directory record holds. -/
def entryOf (record : Bytes) : Entry where
  tag := sectionTag (slice record 0 4)
  version := field 2 record 4
  flags := field 2 record 6
  offset := field 8 record 8
  storedSize := field 8 record 16
  logicalSize := field 8 record 24
  crc := field 4 record 32
  reserved := field 4 record 36

/-- A directory record of a section, with the bytes it points to at an offset. -/
def recordOf (tag payload : Bytes) (flags offset : ℕ) : Bytes :=
  tag ++ encode 2 1 ++ encode 2 flags ++ encode 8 offset ++ encode 8 payload.length ++
    encode 8 payload.length ++ encode 4 (crc32c payload) ++ encode 4 0

/-- Read a directory record. -/
def readEntry (record : Bytes) : Check ErrorCode Entry := do
  let tag ← Check.view record 0 4
  let version ← Check.read 2 record 4
  let flags ← Check.read 2 record 6
  let offset ← Check.read 8 record 8
  let storedSize ← Check.read 8 record 16
  let logicalSize ← Check.read 8 record 24
  let crc ← Check.read 4 record 32
  let reserved ← Check.read 4 record 36
  return ⟨sectionTag tag, version, flags, offset, storedSize, logicalSize, crc, reserved⟩

theorem readEntry_eq {record : Bytes} (h : record.length = directoryEntrySize) :
    readEntry record = .ok (entryOf record) := by
  have hlen : record.length = 40 := h
  simp (disch := omega) only [readEntry, entryOf, Check.read_of_le, Check.view_of_le,
    Check.ok_bind, Check.pure_eq_ok]

/-- The entries of a directory. -/
def directory (bytes : Bytes) (offset count : ℕ) : List Entry :=
  (records directoryEntrySize bytes offset count).map entryOf

/-- The payload an entry points to. -/
def Entry.payload (entry : Entry) (bytes : Bytes) : Bytes :=
  slice bytes entry.offset entry.storedSize

/-- Walk over the directory of a container. -/
def forEntries {σ : Type} (bytes : Bytes) (offset count : ℕ)
    (step : ℕ → Entry → σ → Check ErrorCode σ) : σ → Check ErrorCode σ :=
  Check.forRecords directoryEntrySize bytes offset count fun index record s => do
    let entry ← readEntry record
    step index entry s

theorem forEntries_eq {σ : Type} {bytes : Bytes} {offset count : ℕ}
    {step : ℕ → Entry → σ → Check ErrorCode σ} (s : σ)
    (h : offset + count * directoryEntrySize ≤ bytes.length) :
    forEntries bytes offset count step s =
      Check.walk step 0 (directory bytes offset count) s := by
  rw [forEntries, Check.forRecords_eq s h, directory, Check.walk_map]
  apply Check.walk_congr
  intro _ record hmem _
  rw [readEntry_eq (length_of_mem_records h hmem), Check.ok_bind]

/-! ## Ranges of a file -/

/-- A range lies below a total size. -/
def rangeFits (offset size total : ℕ) : Bool :=
  decide (offset ≤ total) && decide (size ≤ total - offset)

theorem rangeFits_iff {offset size total : ℕ} : rangeFits offset size total ↔
    offset + size ≤ total := by
  simp only [rangeFits, Bool.and_eq_true, decide_eq_true_eq]
  omega

/-- Two byte ranges share a byte. -/
def Overlap (firstOffset firstSize secondOffset secondSize : ℕ) : Prop :=
  firstSize ≠ 0 ∧ secondSize ≠ 0 ∧ firstOffset < secondOffset + secondSize ∧
    secondOffset < firstOffset + firstSize

instance (a b c d : ℕ) : Decidable (Overlap a b c d) := by
  unfold Overlap
  infer_instance

/-- The overlap test of the readers. The ends are computed in 64 bits. -/
def rangesOverlap (firstOffset firstSize secondOffset secondSize : ℕ) : Check ErrorCode Bool :=
  if firstSize = 0 ∨ secondSize = 0 then .ok false
  else do
    let firstEnd ← Check.within uint64Max (firstOffset + firstSize)
    let secondEnd ← Check.within uint64Max (secondOffset + secondSize)
    return decide (firstOffset < secondEnd) && decide (secondOffset < firstEnd)

theorem rangesOverlap_eq {a m b n : ℕ} (ha : a + m ≤ uint64Max) (hb : b + n ≤ uint64Max) :
    rangesOverlap a m b n = .ok (decide (Overlap a m b n)) := by
  by_cases h : m = 0 ∨ n = 0
  · rw [rangesOverlap, if_pos h]
    congr 1
    symm
    apply decide_eq_false
    rintro ⟨hm, hn, -⟩
    exact h.elim hm hn
  · rw [not_or] at h
    rw [rangesOverlap, if_neg (by rw [not_or]; exact h)]
    simp [Check.within_of_le ha, Check.within_of_le hb, Overlap, h]

theorem Overlap.symm {a m b n : ℕ} (h : Overlap a m b n) : Overlap b n a m :=
  ⟨h.2.1, h.1, h.2.2.2, h.2.2.1⟩

/-! ## Packed columns -/

/-- The column a packed record holds. -/
def columnOf (record : Bytes) : Column where
  minimum := signed 65536 (field 2 record 0)
  maximum := signed 65536 (field 2 record 2)
  rms := field 2 record 4
  low := field 1 record 6
  mid := field 1 record 7
  high := field 1 record 8
  flags := field 1 record 9

/-- Read a packed column. -/
def readColumn (record : Bytes) : Check ErrorCode Column := do
  let minimum ← Check.read 2 record 0
  let maximum ← Check.read 2 record 2
  let rms ← Check.read 2 record 4
  let low ← Check.read 1 record 6
  let mid ← Check.read 1 record 7
  let high ← Check.read 1 record 8
  let flags ← Check.read 1 record 9
  return ⟨signed 65536 minimum, signed 65536 maximum, rms, low, mid, high, flags⟩

theorem readColumn_eq {record : Bytes} (h : record.length = packedColumnSize) :
    readColumn record = .ok (columnOf record) := by
  have hlen : record.length = 10 := h
  simp (disch := omega) only [readColumn, columnOf, Check.read_of_le, Check.ok_bind,
    Check.pure_eq_ok]

/-- A packed column is acceptable. -/
structure ColumnOk (strict : Bool) (column : Column) : Prop where
  valid : column.flags.testBit columnFlagValid = true
  ordered : column.minimum ≤ column.maximum
  knownFlags : strict = true → column.flags < 32
  bands : strict = true → column.has3Band = false →
    column.low = 0 ∧ column.mid = 0 ∧ column.high = 0

/-- The column test of the readers. -/
def columnRejected (strict : Bool) (column : Column) : Bool :=
  !column.flags.testBit columnFlagValid || decide (column.maximum < column.minimum) ||
    (strict && decide (32 ≤ column.flags)) ||
    (strict && !column.has3Band &&
      (column.low != 0 || column.mid != 0 || column.high != 0))

theorem columnRejected_iff {strict : Bool} {column : Column} :
    ¬ columnRejected strict column = true ↔ ColumnOk strict column := by
  constructor
  · intro h
    simp only [columnRejected, Bool.or_eq_true, Bool.and_eq_true, Bool.not_eq_true',
      decide_eq_true_eq, bne_iff_ne, ne_eq, not_or, not_and, not_lt, not_le,
      Bool.not_eq_false, Decidable.not_not] at h
    obtain ⟨⟨⟨hvalid, hordered⟩, hflags⟩, hbands⟩ := h
    exact ⟨hvalid, hordered, hflags, fun hs hb => by
      obtain ⟨⟨hl, hm⟩, hh⟩ := hbands ⟨hs, hb⟩
      exact ⟨hl, hm, hh⟩⟩
  · rintro ⟨hvalid, hordered, hflags, hbands⟩ h
    simp only [columnRejected, Bool.or_eq_true, Bool.and_eq_true, Bool.not_eq_true',
      decide_eq_true_eq, bne_iff_ne, ne_eq] at h
    rcases h with ((h | h) | ⟨hs, h⟩) | ⟨⟨hs, hb⟩, h⟩
    · rw [hvalid] at h
      cases h
    · omega
    · have := hflags hs
      omega
    · obtain ⟨hl, hm, hh⟩ := hbands hs hb
      rcases h with (h | h) | h
      · exact h hl
      · exact h hm
      · exact h hh

/-- The columns of a table of packed records. -/
def columnTable (bytes : Bytes) (offset count : ℕ) : List Column :=
  (records packedColumnSize bytes offset count).map columnOf

/-- Check the columns of a table. -/
def validateColumns (strict : Bool) (bytes : Bytes) (offset count : ℕ) : Check ErrorCode Unit :=
  Check.forRecords packedColumnSize bytes offset count (fun _ record _ => do
    let column ← readColumn record
    Check.rejectIf (columnRejected strict column) .corruptData) ()

theorem validateColumns_eq_ok {strict : Bool} {bytes : Bytes} {offset count : ℕ} {u : Unit}
    (h : offset + count * packedColumnSize ≤ bytes.length) :
    validateColumns strict bytes offset count = .ok u ↔
      ∀ column ∈ columnTable bytes offset count, ColumnOk strict column := by
  rw [validateColumns, Check.forRecords_eq () h, Check.walk_unit_eq_ok, columnTable]
  · exact List.forall_mem_map.symm
  · intro _ record hmem _ _
    rw [readColumn_eq (length_of_mem_records h hmem), Check.ok_bind, Check.rejectIf_eq_ok,
      columnRejected_iff]

theorem validateColumns_safe {strict : Bool} {bytes : Bytes} {offset count : ℕ}
    (h : offset + count * packedColumnSize ≤ bytes.length) :
    Check.Safe (validateColumns strict bytes offset count) := by
  rw [validateColumns, Check.forRecords_eq () h]
  apply Check.safe_walk (P := fun _ _ => True) _ _ _ trivial
  intro _ _ record hmem _
  rw [readColumn_eq (length_of_mem_records h hmem), Check.ok_bind]
  exact ⟨Check.safe_rejectIf _ _, fun _ _ => trivial⟩

/-- Copy the columns of a table into an array that has `capacity` elements. -/
def copyColumns (capacity : ℕ) (bytes : Bytes) (offset count : ℕ) (written : List Column) :
    Check ErrorCode (List Column) :=
  Check.forRecords packedColumnSize bytes offset count (fun _ record written => do
    let column ← readColumn record
    Check.push capacity written column) written

theorem copyColumns_eq {capacity : ℕ} {bytes : Bytes} {offset count : ℕ} {written : List Column}
    (h : offset + count * packedColumnSize ≤ bytes.length)
    (hroom : written.length + count ≤ capacity) :
    copyColumns capacity bytes offset count written =
      .ok (written ++ columnTable bytes offset count) := by
  have hfit : written.length + (records packedColumnSize bytes offset count).length ≤ capacity := by
    rwa [length_records]
  rw [copyColumns, Check.forRecords_eq written h]
  refine (Check.walk_push_eq_ok hfit ?_).mpr ⟨fun _ _ => trivial, rfl⟩
  intro _ record hmem written result
  rw [readColumn_eq (length_of_mem_records h hmem), Check.ok_bind, Check.push_eq_ok, true_and]

end LibApta.Container
