import LibApta.Serialization.Format
import Mathlib.Data.FinEnum

/-!
# Container validation

The parse options, the header and the directory of a container. `HeaderOk` and `DirectoryOk` say
what the validator accepts: `validateContainer_eq_ok` is the equivalence, `validateContainer_safe`
the absence of faults.
-/

namespace LibApta.Container

open LittleEndian

/-! ## Options -/

/-- Parse options. A zero limit selects the default. -/
structure ParseOptions where
  flags : ℕ
  maximumSectionCount : ℕ
  maximumOverviewSpans : ℕ
  maximumWaveformColumns : ℕ
  maximumFileBytes : ℕ
  maximumAllocationBytes : ℕ
  reserved64 : List ℕ
deriving DecidableEq

/-- The options a parse works with. -/
structure EffectiveOptions where
  strict : Bool
  maximumSectionCount : ℕ
  maximumOverviewSpans : ℕ
  maximumWaveformColumns : ℕ
  maximumFileBytes : ℕ
  maximumAllocationBytes : ℕ
deriving DecidableEq

/-- The default limits. -/
abbrev defaultMaxFileBytes : ℕ := 268435456
@[inherit_doc defaultMaxFileBytes] abbrev defaultMaxSectionCount : ℕ := 64
@[inherit_doc defaultMaxFileBytes] abbrev defaultMaxOverviewSpans : ℕ := 65536
@[inherit_doc defaultMaxFileBytes] abbrev defaultMaxWaveformColumns : ℕ := 16777216
@[inherit_doc defaultMaxFileBytes] abbrev defaultMaxAllocationBytes : ℕ := 268435456

/-- A limit, or its default when it is zero. -/
def orDefault (limit default : ℕ) : ℕ := if limit = 0 then default else limit

/-- The parse is strict: without options, or when the flag is set. -/
def isStrict : Option ParseOptions → Bool
  | none => true
  | some options => options.flags.testBit 0

/-- The limit on waveform columns. -/
def columnLimit : Option ParseOptions → ℕ
  | none => defaultMaxWaveformColumns
  | some options => orDefault options.maximumWaveformColumns defaultMaxWaveformColumns

/-- The limit on allocated bytes. -/
def allocationLimit : Option ParseOptions → ℕ
  | none => defaultMaxAllocationBytes
  | some options => orDefault options.maximumAllocationBytes defaultMaxAllocationBytes

/-- The options a caller may pass: no unknown flag, no reserved field in use. -/
def optionsValid : Option ParseOptions → Bool
  | none => true
  | some options => decide (options.flags < 2) && options.reserved64.all (· == 0)

/-- The effective options. -/
def effectiveOptions : Option ParseOptions → EffectiveOptions
  | none =>
      ⟨true, defaultMaxSectionCount, defaultMaxOverviewSpans, defaultMaxWaveformColumns,
        defaultMaxFileBytes, defaultMaxAllocationBytes⟩
  | some options =>
      { strict := options.flags.testBit 0
        maximumSectionCount := orDefault options.maximumSectionCount defaultMaxSectionCount
        maximumOverviewSpans := orDefault options.maximumOverviewSpans defaultMaxOverviewSpans
        maximumWaveformColumns := orDefault options.maximumWaveformColumns defaultMaxWaveformColumns
        maximumFileBytes := orDefault options.maximumFileBytes defaultMaxFileBytes
        maximumAllocationBytes :=
          orDefault options.maximumAllocationBytes defaultMaxAllocationBytes }

/-- Resolve the options of a call. -/
def resolveParseOptions (options : Option ParseOptions) : Check ErrorCode EffectiveOptions := do
  Check.rejectIf (optionsValid options = false) .invalidArgument
  return effectiveOptions options

@[simp] theorem effectiveOptions_strict (options : Option ParseOptions) :
    (effectiveOptions options).strict = isStrict options := by
  cases options <;> rfl

@[simp] theorem effectiveOptions_maximumWaveformColumns (options : Option ParseOptions) :
    (effectiveOptions options).maximumWaveformColumns = columnLimit options := by
  cases options <;> rfl

@[simp] theorem effectiveOptions_maximumAllocationBytes (options : Option ParseOptions) :
    (effectiveOptions options).maximumAllocationBytes = allocationLimit options := by
  cases options <;> rfl

/-! ## Header -/

/-- The header of a container. -/
structure Header where
  headerSize : ℕ
  containerVersion : ℕ
  specificationMajor : ℕ
  specificationMinor : ℕ
  producerApiVersion : ℕ
  containerFlags : ℕ
  sectionCount : ℕ
  directoryOffset : ℕ
  totalFileSize : ℕ
  totalSourceFrames : ℕ
  sourceSampleRate : ℕ
  sourceChannelCount : ℕ
  sourceChannelLayout : ℕ
  fingerprint : Bytes
  fingerprintKind : ℕ
  crc : ℕ
deriving DecidableEq

namespace Header

/-- The partial-result flag. -/
def isPartial (header : Header) : Bool := header.containerFlags.testBit flagPartialResult

/-- The unknown-duration flag. -/
def durationUnknown (header : Header) : Bool := header.containerFlags.testBit flagDurationUnknown

end Header

/-- The header a container starts with. -/
def headerOf (bytes : Bytes) : Header where
  headerSize := field 2 bytes 4
  containerVersion := field 2 bytes 6
  specificationMajor := field 2 bytes 8
  specificationMinor := field 2 bytes 10
  producerApiVersion := field 4 bytes 12
  containerFlags := field 4 bytes 16
  sectionCount := field 4 bytes 20
  directoryOffset := field 8 bytes 24
  totalFileSize := field 8 bytes 32
  totalSourceFrames := field 8 bytes 40
  sourceSampleRate := field 4 bytes 48
  sourceChannelCount := field 2 bytes 52
  sourceChannelLayout := field 2 bytes 54
  fingerprint := slice bytes 56 32
  fingerprintKind := field 4 bytes 88
  crc := field 4 bytes 92

/-- Read the header. -/
def readHeader (bytes : Bytes) : Check ErrorCode Header := do
  let headerSize ← Check.read 2 bytes 4
  let containerVersion ← Check.read 2 bytes 6
  let specificationMajor ← Check.read 2 bytes 8
  let specificationMinor ← Check.read 2 bytes 10
  let producerApiVersion ← Check.read 4 bytes 12
  let containerFlags ← Check.read 4 bytes 16
  let sectionCount ← Check.read 4 bytes 20
  let directoryOffset ← Check.read 8 bytes 24
  let totalFileSize ← Check.read 8 bytes 32
  let totalSourceFrames ← Check.read 8 bytes 40
  let sourceSampleRate ← Check.read 4 bytes 48
  let sourceChannelCount ← Check.read 2 bytes 52
  let sourceChannelLayout ← Check.read 2 bytes 54
  let fingerprint ← Check.view bytes 56 32
  let fingerprintKind ← Check.read 4 bytes 88
  let crc ← Check.read 4 bytes 92
  return {
    headerSize, containerVersion, specificationMajor, specificationMinor, producerApiVersion,
    containerFlags, sectionCount, directoryOffset, totalFileSize, totalSourceFrames,
    sourceSampleRate, sourceChannelCount, sourceChannelLayout, fingerprint, fingerprintKind, crc }

theorem readHeader_eq {bytes : Bytes} (h : headerSize ≤ bytes.length) :
    readHeader bytes = .ok (headerOf bytes) := by
  have hlen : 96 ≤ bytes.length := h
  simp (disch := omega) only [readHeader, headerOf, Check.read_of_le, Check.view_of_le,
    Check.ok_bind, Check.pure_eq_ok]

/-- The bytes `APTA`. -/
def magic : Bytes := [0x41, 0x50, 0x54, 0x41]

/-- Check that the duration and the duration flags agree. -/
def validateDuration (header : Header) : Check ErrorCode Unit :=
  if header.totalSourceFrames = totalFramesUnknown then
    Check.rejectIf (header.durationUnknown = false ∨ header.isPartial = false) .corruptData
  else Check.rejectIf (header.durationUnknown = true) .corruptData

/-- Check the header of a container. -/
def validateHeader (options : EffectiveOptions) (bytes : Bytes) : Check ErrorCode Header := do
  Check.rejectIf (bytes.length < headerSize) .corruptData
  Check.rejectIf (options.maximumFileBytes < bytes.length) .limitExceeded
  let start ← Check.view bytes 0 4
  Check.rejectIf (start ≠ magic) .corruptData
  let header ← readHeader bytes
  Check.rejectIf (header.headerSize < headerSize ∨ bytes.length < header.headerSize ∨
    header.containerVersion ≠ 1 ∨ header.specificationMajor ≠ specVersionMajor ∨
    specVersionMinor < header.specificationMinor) .unsupported
  Check.rejectIf (8 ≤ header.containerFlags) .corruptData
  Check.rejectIf (header.sectionCount = 0) .corruptData
  Check.rejectIf (options.maximumSectionCount < header.sectionCount) .limitExceeded
  Check.rejectIf (header.directoryOffset < header.headerSize ∨ header.directoryOffset % 8 ≠ 0)
    .corruptData
  let directorySize ← Check.within uint64Max (header.sectionCount * directoryEntrySize)
  Check.rejectIf (rangeFits header.directoryOffset directorySize bytes.length = false) .corruptData
  let _directoryEnd ← Check.within uint64Max (header.directoryOffset + directorySize)
  Check.rejectIf (header.totalFileSize ≠ bytes.length ∨ header.sourceSampleRate = 0 ∨
    header.sourceChannelCount = 0) .corruptData
  let covered ← Check.view bytes 0 92
  Check.rejectIf (crc32c covered ≠ header.crc) .corruptData
  Check.rejectIf (2 < header.fingerprintKind) .unsupported
  Check.rejectIf (header.fingerprintKind = 0 ∧ ¬ ∀ byte ∈ header.fingerprint, byte = 0) .corruptData
  validateDuration header
  return header

/-- The duration and the duration flags agree. -/
def DurationOk (header : Header) : Prop :=
  if header.totalSourceFrames = totalFramesUnknown then
    header.durationUnknown = true ∧ header.isPartial = true
  else header.durationUnknown = false

instance (header : Header) : Decidable (DurationOk header) := by
  unfold DurationOk
  infer_instance

theorem validateDuration_eq_ok {header : Header} {u : Unit} :
    validateDuration header = .ok u ↔ DurationOk header := by
  by_cases h : header.totalSourceFrames = totalFramesUnknown
  · rw [validateDuration, if_pos h, DurationOk, if_pos h, Check.rejectIf_eq_ok]
    simp
  · rw [validateDuration, if_neg h, DurationOk, if_neg h, Check.rejectIf_eq_ok]
    simp

/-- What the validator asks of a header, apart from the limits. -/
structure HeaderOk (bytes : Bytes) (header : Header) : Prop where
  size : headerSize ≤ bytes.length
  start : slice bytes 0 4 = magic
  headerSize : Container.headerSize ≤ header.headerSize
  headerFits : header.headerSize ≤ bytes.length
  version : header.containerVersion = 1
  major : header.specificationMajor = specVersionMajor
  minor : header.specificationMinor ≤ specVersionMinor
  flags : header.containerFlags < 8
  sections : header.sectionCount ≠ 0
  afterHeader : header.headerSize ≤ header.directoryOffset
  aligned : header.directoryOffset % 8 = 0
  directoryFits :
    header.directoryOffset + header.sectionCount * directoryEntrySize ≤ bytes.length
  total : header.totalFileSize = bytes.length
  rate : header.sourceSampleRate ≠ 0
  channels : header.sourceChannelCount ≠ 0
  crc : crc32c (slice bytes 0 92) = header.crc
  kind : header.fingerprintKind ≤ 2
  noFingerprint : header.fingerprintKind = 0 → ∀ byte ∈ header.fingerprint, byte = 0
  duration : DurationOk header

/-- The container is within the limits of the options. -/
structure HeaderLimits (options : EffectiveOptions) (bytes : Bytes) : Prop where
  fileBytes : bytes.length ≤ options.maximumFileBytes
  sectionCount : (headerOf bytes).sectionCount ≤ options.maximumSectionCount

theorem HeaderOk.length_le {bytes : Bytes} (h : HeaderOk bytes (headerOf bytes)) :
    bytes.length ≤ uint64Max := by
  have hlt : (headerOf bytes).totalFileSize < 256 ^ 8 := field_lt
  rw [h.total] at hlt
  exact Nat.le_of_lt_succ hlt

theorem headerOf_sectionCount_lt (bytes : Bytes) : (headerOf bytes).sectionCount < 4294967296 :=
  field_lt

theorem validateHeader_eq_ok {options : EffectiveOptions} {bytes : Bytes} {header : Header} :
    validateHeader options bytes = .ok header ↔
      header = headerOf bytes ∧ HeaderOk bytes header ∧ HeaderLimits options bytes := by
  by_cases hsize : bytes.length < Container.headerSize
  · constructor
    · intro h
      rw [validateHeader, Check.bind_eq_ok] at h
      obtain ⟨_, hrej, -⟩ := h
      exact absurd hsize (Check.rejectIf_eq_ok.mp hrej)
    · rintro ⟨rfl, hok, -⟩
      exact absurd hok.size (not_le.mpr hsize)
  simp only [validateHeader, Check.bind_eq_ok, Check.rejectIf_eq_ok, Check.view_eq_ok,
    Check.within_eq_ok, readHeader_eq (not_lt.mp hsize), Check.pure_eq_ok, Except.ok.injEq,
    validateDuration_eq_ok, exists_and_left, exists_const, exists_eq_left',
    Bool.not_eq_false, rangeFits_iff]
  constructor
  · rintro ⟨-, hfile, start, ⟨-, rfl⟩, hmagic, hhead, hflags, hzero, hmax, hdir, size,
      ⟨-, rfl⟩, hfits, endd, -, htotal, covered, ⟨-, rfl⟩, hcrc, hkind, hprint, hduration, rfl⟩
    push Not at hmagic hhead hdir htotal hcrc hprint
    exact ⟨rfl, ⟨not_lt.mp hsize, hmagic, hhead.1, hhead.2.1, hhead.2.2.1, hhead.2.2.2.1,
      hhead.2.2.2.2, by omega, hzero, hdir.1, hdir.2, hfits, htotal.1, htotal.2.1, htotal.2.2,
      hcrc, by omega, hprint, hduration⟩, ⟨not_lt.mp hfile, not_lt.mp hmax⟩⟩
  · rintro ⟨rfl, hok, hlimits⟩
    have hfits := hok.directoryFits
    have hdirectory := hfits.trans hok.length_le
    have hlen : 96 ≤ bytes.length := hok.size
    refine ⟨hsize, not_lt.mpr hlimits.fileBytes, _, ⟨by omega, rfl⟩, not_not.mpr hok.start,
      ?_, not_le.mpr hok.flags, hok.sections, not_lt.mpr hlimits.sectionCount, ?_, _,
      ⟨(Nat.le_add_left _ _).trans hdirectory, rfl⟩, hfits, _, ⟨hdirectory, rfl⟩, ?_, _,
      ⟨by omega, rfl⟩, not_not.mpr hok.crc, not_lt.mpr hok.kind, ?_, hok.duration, rfl⟩
    · push Not
      exact ⟨hok.headerSize, hok.headerFits, hok.version, hok.major, hok.minor⟩
    · push Not
      exact ⟨hok.afterHeader, hok.aligned⟩
    · push Not
      exact ⟨hok.total, hok.rate, hok.channels⟩
    · push Not
      exact hok.noFingerprint

theorem validateDuration_safe (header : Header) : Check.Safe (validateDuration header) := by
  unfold validateDuration
  split <;> exact Check.safe_rejectIf _ _

theorem validateHeader_safe {options : EffectiveOptions} {bytes : Bytes}
    (hbuffer : bytes.length ≤ uint64Max) : Check.Safe (validateHeader options bytes) := by
  by_cases hsize : bytes.length < Container.headerSize
  · rw [validateHeader, Check.safe_bind_iff]
    exact ⟨Check.safe_rejectIf _ _, fun _ hrej => absurd hsize (Check.rejectIf_eq_ok.mp hrej)⟩
  have hlen : 96 ≤ bytes.length := not_lt.mp hsize
  simp only [validateHeader, Check.safe_bind_iff, Check.safe_rejectIf, Check.rejectIf_eq_ok,
    Check.safe_view, Check.safe_within, readHeader_eq (not_lt.mp hsize), Check.safe_ok,
    validateDuration_safe, Except.ok.injEq, Check.view_eq_ok, Check.within_eq_ok,
    Check.pure_eq_ok, true_and, and_true, implies_true, forall_const, forall_eq', and_imp,
    Bool.not_eq_false, rangeFits_iff]
  intro _ _
  refine ⟨by omega, ?_⟩
  intro _ _ _ _ _ _ _ _ _
  have hcount := headerOf_sectionCount_lt bytes
  refine ⟨?_, ?_⟩
  · show _ * 40 ≤ 18446744073709551615
    omega
  · intro size _ _ hfits
    refine ⟨hfits.trans hbuffer, ?_⟩
    intro _ _ _ _
    omega

/-! ## Directory -/

/-- Check that the payload of an entry does not overlap the payloads of the entries before it. -/
def validatePrior (bytes : Bytes) (header : Header) (index : ℕ) (entry : Entry) :
    Check ErrorCode Unit :=
  forEntries bytes header.directoryOffset index (fun _ prior _ => do
    let overlap ← rangesOverlap entry.offset entry.storedSize prior.offset prior.storedSize
    Check.rejectIf (overlap = true) .corruptData) ()

/-- Check the fields of a directory entry by themselves. -/
def validateEntryFields (strict : Bool) (bytes : Bytes) (entry : Entry) : Check ErrorCode Unit := do
  Check.rejectIf (entry.flags.testBit flagCompressed = true ∨
    entry.flags.testBit flagEncrypted = true) .unsupported
  Check.rejectIf (8 ≤ entry.flags ∨ (strict = true ∧ entry.reserved ≠ 0)) .corruptData
  Check.rejectIf (entry.tag.isStandard = true ∧ entry.version ≠ 1) .unsupported
  Check.rejectIf ((entry.tag = .overview ∧ entry.flags.testBit flagRequired = false) ∨
    (entry.tag ≠ .overview ∧ entry.tag.isStandard = true ∧
      entry.flags.testBit flagRequired = true)) .corruptData
  Check.rejectIf (entry.offset % 8 ≠ 0 ∨ entry.storedSize ≠ entry.logicalSize ∨
    rangeFits entry.offset entry.storedSize bytes.length = false) .corruptData

/-- Note the overview payload; a second one, or an unknown required section, is an error. -/
def noteSection (entry : Entry) (payload : Bytes) (found : Option Bytes) :
    Check ErrorCode (Option Bytes) :=
  if entry.tag = .overview then do
    Check.rejectIf (found.isSome = true) .corruptData
    return some payload
  else do
    Check.rejectIf (entry.tag.isStandard = false ∧ entry.flags.testBit flagRequired = true)
      .unsupported
    return found

/-- Check one directory entry. The overview payload found so far is the state of the walk. -/
def validateEntry (options : EffectiveOptions) (bytes : Bytes) (header : Header) (index : ℕ)
    (entry : Entry) (found : Option Bytes) : Check ErrorCode (Option Bytes) := do
  validateEntryFields options.strict bytes entry
  let onHeader ← rangesOverlap entry.offset entry.storedSize 0 header.headerSize
  Check.rejectIf (onHeader = true) .corruptData
  let onDirectory ← rangesOverlap entry.offset entry.storedSize header.directoryOffset
    (header.sectionCount * directoryEntrySize)
  Check.rejectIf (onDirectory = true) .corruptData
  validatePrior bytes header index entry
  let payload ← Check.view bytes entry.offset entry.storedSize
  Check.rejectIf (crc32c payload ≠ entry.crc) .corruptData
  noteSection entry payload found

/-- The overview payload of a container with its header. -/
structure WovrInput where
  header : Header
  payload : Bytes
deriving DecidableEq

/-- Check the container and find its overview section. -/
def validateContainer (options : EffectiveOptions) (bytes : Bytes) : Check ErrorCode WovrInput := do
  let header ← validateHeader options bytes
  let found ← forEntries bytes header.directoryOffset header.sectionCount
    (validateEntry options bytes header) none
  match found with
  | none => Check.reject .corruptData
  | some payload =>
      Check.rejectIf (bytes.length < header.directoryOffset +
        header.sectionCount * directoryEntrySize) .corruptData
      return ⟨header, payload⟩

/-! ## What the directory check accepts -/

/-- What the validator asks of a directory entry by itself. -/
structure EntryOk (strict : Bool) (bytes : Bytes) (header : Header) (entry : Entry) : Prop where
  plain : entry.flags.testBit flagCompressed = false ∧ entry.flags.testBit flagEncrypted = false
  flags : entry.flags < 8
  reserved : strict = true → entry.reserved = 0
  version : entry.tag.isStandard = true → entry.version = 1
  required : entry.tag = .overview → entry.flags.testBit flagRequired = true
  optional : entry.tag ≠ .overview → entry.flags.testBit flagRequired = false
  aligned : entry.offset % 8 = 0
  sizes : entry.storedSize = entry.logicalSize
  fits : entry.offset + entry.storedSize ≤ bytes.length
  offHeader : ¬ Overlap entry.offset entry.storedSize 0 header.headerSize
  offDirectory : ¬ Overlap entry.offset entry.storedSize header.directoryOffset
    (header.sectionCount * directoryEntrySize)
  crc : crc32c (entry.payload bytes) = entry.crc

/-- The payloads of two entries share no byte. -/
def Apart (entry other : Entry) : Prop :=
  ¬ Overlap entry.offset entry.storedSize other.offset other.storedSize

theorem Apart.symm {entry other : Entry} (h : Apart entry other) : Apart other entry :=
  fun hover => h hover.symm

/-- The directory of a container whose header was accepted. -/
def Header.directory (header : Header) (bytes : Bytes) : List Entry :=
  Container.directory bytes header.directoryOffset header.sectionCount

/-- The payloads of the overview entries of a directory. -/
def overviewPayloads (bytes : Bytes) (entries : List Entry) : List Bytes :=
  (entries.filter fun entry => entry.tag = .overview).map fun entry => entry.payload bytes

/-- What the validator asks of a directory. -/
structure DirectoryOk (strict : Bool) (bytes : Bytes) (header : Header) (payload : Bytes) :
    Prop where
  entries : ∀ entry ∈ header.directory bytes, EntryOk strict bytes header entry
  apart : (header.directory bytes).Pairwise Apart
  overview : overviewPayloads bytes (header.directory bytes) = [payload]

section Entries

variable {options : EffectiveOptions} {bytes : Bytes} {header : Header}

/-- The entries before an index are a prefix of the directory. -/
theorem directory_prefix {pre rest : List Entry} (hsplit : header.directory bytes = pre ++ rest) :
    directory bytes header.directoryOffset pre.length = pre := by
  have hlen : header.sectionCount = pre.length + rest.length := by
    rw [← List.length_append, ← hsplit, Header.directory, directory, List.length_map,
      length_records]
  rw [Header.directory, directory, hlen, records_add, List.map_append] at hsplit
  refine (List.append_inj hsplit ?_).1
  rw [List.length_map, length_records]

theorem validatePrior_eq (hok : HeaderOk bytes header) (hlen : bytes.length ≤ uint64Max)
    {pre rest : List Entry} (hsplit : header.directory bytes = pre ++ rest)
    (hpre : ∀ prior ∈ pre, prior.offset + prior.storedSize ≤ bytes.length) {entry : Entry}
    (hentry : entry.offset + entry.storedSize ≤ bytes.length) :
    Check.Safe (validatePrior bytes header pre.length entry) ∧
      ∀ u, validatePrior bytes header pre.length entry = .ok u ↔
        ∀ prior ∈ pre, Apart entry prior := by
  have hcount : pre.length ≤ header.sectionCount := by
    have hdir : (header.directory bytes).length = header.sectionCount := by
      rw [Header.directory, directory, List.length_map, length_records]
    rw [hsplit, List.length_append] at hdir
    omega
  have hfits : header.directoryOffset + pre.length * directoryEntrySize ≤ bytes.length :=
    (Nat.add_le_add_left (Nat.mul_le_mul_right _ hcount) _).trans hok.directoryFits
  rw [validatePrior, forEntries_eq () hfits, directory_prefix hsplit]
  have hover : ∀ prior ∈ pre, rangesOverlap entry.offset entry.storedSize prior.offset
      prior.storedSize = .ok (decide (Overlap entry.offset entry.storedSize prior.offset
        prior.storedSize)) := fun prior hprior =>
    rangesOverlap_eq (hentry.trans hlen) ((hpre prior hprior).trans hlen)
  constructor
  · apply Check.safe_walk (P := fun _ _ => True) _ _ _ trivial
    intro _ _ prior hprior _
    rw [hover prior hprior, Check.ok_bind]
    exact ⟨Check.safe_rejectIf _ _, fun _ _ => trivial⟩
  · intro u
    apply Check.walk_unit_eq_ok
    intro _ prior hprior _ _
    rw [hover prior hprior, Check.ok_bind, Check.rejectIf_eq_ok, decide_eq_true_eq, Apart]

/-- The fields of an entry are acceptable. -/
structure EntryFieldsOk (strict : Bool) (bytes : Bytes) (entry : Entry) : Prop where
  plain : entry.flags.testBit flagCompressed = false ∧ entry.flags.testBit flagEncrypted = false
  flags : entry.flags < 8
  reserved : strict = true → entry.reserved = 0
  version : entry.tag.isStandard = true → entry.version = 1
  required : entry.tag = .overview → entry.flags.testBit flagRequired = true
  standard : entry.tag ≠ .overview → entry.tag.isStandard = true →
    entry.flags.testBit flagRequired = false
  aligned : entry.offset % 8 = 0
  sizes : entry.storedSize = entry.logicalSize
  fits : entry.offset + entry.storedSize ≤ bytes.length

theorem validateEntryFields_eq_ok {strict : Bool} {entry : Entry} {u : Unit} :
    validateEntryFields strict bytes entry = .ok u ↔ EntryFieldsOk strict bytes entry := by
  simp only [validateEntryFields, Check.bind_eq_ok, Check.rejectIf_eq_ok, exists_and_left,
    exists_const, not_or, not_and, Bool.not_eq_true, Bool.not_eq_false, ne_eq, not_not, not_le,
    rangeFits_iff]
  constructor
  · rintro ⟨hplain, ⟨hflags, hreserved⟩, hversion, ⟨hrequired, hstandard⟩, haligned, hsizes, hfits⟩
    exact ⟨hplain, hflags, hreserved, hversion, hrequired, hstandard, haligned, hsizes, hfits⟩
  · intro h
    exact ⟨h.plain, ⟨h.flags, h.reserved⟩, h.version, ⟨h.required, h.standard⟩, h.aligned, h.sizes,
      h.fits⟩

theorem validateEntryFields_safe {strict : Bool} {entry : Entry} :
    Check.Safe (validateEntryFields strict bytes entry) := by
  simp [validateEntryFields, Check.safe_bind_iff]

theorem noteSection_eq_ok {entry : Entry} {payload : Bytes} {found found' : Option Bytes} :
    noteSection entry payload found = .ok found' ↔
      (entry.tag.isStandard = false → entry.flags.testBit flagRequired = false) ∧
        found.toList ++ (if entry.tag = .overview then [payload] else []) = found'.toList := by
  by_cases htag : entry.tag = .overview
  · have hstandard : entry.tag.isStandard = true := by rw [htag]; rfl
    simp only [noteSection, htag, if_true, Check.bind_eq_ok, Check.rejectIf_eq_ok,
      exists_and_left, exists_const]
    rcases found with _ | earlier <;> rcases found' with _ | later <;>
      simp [SectionTag.isStandard]
  · simp only [noteSection, htag, if_false, Check.bind_eq_ok, Check.rejectIf_eq_ok,
      exists_and_left, exists_const, not_and, Bool.not_eq_true, Check.pure_eq_ok,
      Except.ok.injEq, List.append_nil]
    rcases found with _ | earlier <;> rcases found' with _ | later <;> simp

theorem noteSection_safe {entry : Entry} {payload : Bytes} {found : Option Bytes} :
    Check.Safe (noteSection entry payload found) := by
  unfold noteSection
  split <;> simp [Check.safe_bind_iff]

section Step

variable (hok : HeaderOk bytes header) (hlen : bytes.length ≤ uint64Max)
  {pre rest : List Entry} (hsplit : header.directory bytes = pre ++ rest)
  (hpre : ∀ prior ∈ pre, prior.offset + prior.storedSize ≤ bytes.length) {entry : Entry}
  {found found' : Option Bytes}

include hok hlen

private theorem onHeader_eq (hfits : entry.offset + entry.storedSize ≤ bytes.length) :
    rangesOverlap entry.offset entry.storedSize 0 header.headerSize =
      .ok (decide (Overlap entry.offset entry.storedSize 0 header.headerSize)) := by
  apply rangesOverlap_eq (hfits.trans hlen)
  rw [Nat.zero_add]
  exact hok.headerFits.trans hlen

private theorem onDirectory_eq (hfits : entry.offset + entry.storedSize ≤ bytes.length) :
    rangesOverlap entry.offset entry.storedSize header.directoryOffset
        (header.sectionCount * directoryEntrySize) =
      .ok (decide (Overlap entry.offset entry.storedSize header.directoryOffset
        (header.sectionCount * directoryEntrySize))) :=
  rangesOverlap_eq (hfits.trans hlen) (hok.directoryFits.trans hlen)

include hsplit hpre

/-- What one step of the directory walk accepts, and the overview payload after it. -/
theorem validateEntry_eq_ok :
    validateEntry options bytes header pre.length entry found = .ok found' ↔
      EntryOk options.strict bytes header entry ∧ (∀ prior ∈ pre, Apart entry prior) ∧
        found.toList ++ overviewPayloads bytes [entry] = found'.toList := by
  have hpayload : overviewPayloads bytes [entry] =
      if entry.tag = .overview then [entry.payload bytes] else [] := by
    by_cases htag : entry.tag = .overview <;> simp [overviewPayloads, htag]
  rw [validateEntry, Check.bind_eq_ok, hpayload]
  constructor
  · rintro ⟨_, hfields, hrest⟩
    have hf := validateEntryFields_eq_ok.mp hfields
    have hprior := validatePrior_eq hok hlen hsplit hpre hf.fits
    simp only [onHeader_eq hok hlen hf.fits, onDirectory_eq hok hlen hf.fits, Check.ok_bind,
      Check.bind_eq_ok, Check.rejectIf_eq_ok, Check.view_eq_ok, hprior.2, decide_eq_true_eq,
      exists_and_left, exists_const, ne_eq, not_not, noteSection_eq_ok] at hrest
    obtain ⟨hheader, hdirectory, hapart, payload, ⟨-, rfl⟩, hcrc, hknown, hfound⟩ := hrest
    refine ⟨⟨hf.plain, hf.flags, hf.reserved, hf.version, hf.required, ?_, hf.aligned, hf.sizes,
      hf.fits, hheader, hdirectory, hcrc⟩, hapart, hfound⟩
    intro htag
    by_cases hstandard : entry.tag.isStandard = true
    · exact hf.standard htag hstandard
    · exact hknown (Bool.not_eq_true _ ▸ hstandard)
  · rintro ⟨he, hapart, hfound⟩
    have hf : EntryFieldsOk options.strict bytes entry :=
      ⟨he.plain, he.flags, he.reserved, he.version, he.required, fun h _ => he.optional h,
        he.aligned, he.sizes, he.fits⟩
    have hprior := validatePrior_eq hok hlen hsplit hpre he.fits
    refine ⟨(), validateEntryFields_eq_ok.mpr hf, ?_⟩
    simp only [onHeader_eq hok hlen he.fits, onDirectory_eq hok hlen he.fits, Check.ok_bind,
      Check.bind_eq_ok, Check.rejectIf_eq_ok, Check.view_eq_ok, hprior.2, decide_eq_true_eq,
      exists_and_left, exists_const, ne_eq, not_not, noteSection_eq_ok]
    refine ⟨he.offHeader, he.offDirectory, hapart, _, ⟨he.fits, rfl⟩, he.crc, ?_, hfound⟩
    intro hstandard
    apply he.optional
    intro htag
    rw [htag] at hstandard
    cases hstandard

theorem validateEntry_safe :
    Check.Safe (validateEntry options bytes header pre.length entry found) := by
  rw [validateEntry, Check.safe_bind_iff]
  refine ⟨validateEntryFields_safe, fun _ hfields => ?_⟩
  have hfits := (validateEntryFields_eq_ok.mp hfields).fits
  have hprior := validatePrior_eq hok hlen hsplit hpre hfits
  simp only [onHeader_eq hok hlen hfits, onDirectory_eq hok hlen hfits, Check.ok_bind,
    Check.safe_bind_iff, Check.safe_rejectIf, Check.safe_view, hprior.1, noteSection_safe, hfits,
    true_and, implies_true]

end Step

/-- An option is a list of at most one element. -/
private theorem exists_toList_eq_of_append {α : Type} {front back : List α} {whole : Option α}
    (h : front ++ back = whole.toList) : ∃ o : Option α, o.toList = front := by
  refine ⟨front.head?, ?_⟩
  rcases front with _ | ⟨a, _ | ⟨b, rest⟩⟩
  · rfl
  · rfl
  · rcases whole with _ | a <;> simp at h

/-- The directory walk accepts a directory that ends the list of entries already checked. -/
theorem validateEntries_eq_ok (hok : HeaderOk bytes header) (hlen : bytes.length ≤ uint64Max)
    (rest : List Entry) {pre : List Entry} (hsplit : header.directory bytes = pre ++ rest)
    (hpre : ∀ prior ∈ pre, prior.offset + prior.storedSize ≤ bytes.length)
    {found found' : Option Bytes} :
    Check.walk (validateEntry options bytes header) pre.length rest found = .ok found' ↔
      (∀ entry ∈ rest, EntryOk options.strict bytes header entry) ∧
        (∀ entry ∈ rest, ∀ prior ∈ pre, Apart entry prior) ∧ rest.Pairwise Apart ∧
        found.toList ++ overviewPayloads bytes rest = found'.toList := by
  induction rest generalizing pre found with
  | nil =>
      rcases found with _ | earlier <;> rcases found' with _ | later <;>
        simp [overviewPayloads]
  | cons entry rest ih =>
      have hsplit' : header.directory bytes = (pre ++ [entry]) ++ rest := by
        rw [List.append_assoc]
        exact hsplit
      have hcons : overviewPayloads bytes (entry :: rest) =
          overviewPayloads bytes [entry] ++ overviewPayloads bytes rest := by
        rw [← List.singleton_append, overviewPayloads, List.filter_append, List.map_append]
        rfl
      have hstep := @ih (pre ++ [entry])
      rw [List.length_append, List.length_singleton] at hstep
      rw [Check.walk_cons_eq_ok, hcons]
      constructor
      · rintro ⟨next, hnext, hwalk⟩
        obtain ⟨he, hapart, hfound⟩ := (validateEntry_eq_ok hok hlen hsplit hpre).mp hnext
        obtain ⟨hentries, hprior, hpair, hrest⟩ := (hstep hsplit' (by
          intro prior hmem
          rcases List.mem_append.mp hmem with h | h
          · exact hpre prior h
          · rw [List.mem_singleton.mp h]
            exact he.fits)).mp hwalk
        refine ⟨List.forall_mem_cons.mpr ⟨he, hentries⟩, List.forall_mem_cons.mpr ⟨hapart, ?_⟩,
          List.pairwise_cons.mpr ⟨?_, hpair⟩, ?_⟩
        · intro other hother prior hp
          exact hprior other hother prior (List.mem_append_left _ hp)
        · intro other hother
          exact (hprior other hother entry (by simp)).symm
        · rw [← List.append_assoc, hfound]
          exact hrest
      · rintro ⟨hentries, hprior, hpair, hfound⟩
        obtain ⟨he, hentries⟩ := List.forall_mem_cons.mp hentries
        obtain ⟨hapart, hprior⟩ := List.forall_mem_cons.mp hprior
        obtain ⟨hfirst, hpair⟩ := List.pairwise_cons.mp hpair
        rw [← List.append_assoc] at hfound
        obtain ⟨next, hnext⟩ := exists_toList_eq_of_append hfound
        refine ⟨next, (validateEntry_eq_ok hok hlen hsplit hpre).mpr ⟨he, hapart, hnext.symm⟩, ?_⟩
        refine (hstep hsplit' ?_).mpr ⟨hentries, ?_, hpair, hnext ▸ hfound⟩
        · intro prior hmem
          rcases List.mem_append.mp hmem with h | h
          · exact hpre prior h
          · rw [List.mem_singleton.mp h]
            exact he.fits
        · intro other hother prior hmem
          rcases List.mem_append.mp hmem with h | h
          · exact hprior other hother prior h
          · rw [List.mem_singleton.mp h]
            exact (hfirst other hother).symm

theorem validateEntries_safe (hok : HeaderOk bytes header) (hlen : bytes.length ≤ uint64Max)
    (rest : List Entry) {pre : List Entry} (hsplit : header.directory bytes = pre ++ rest)
    (hpre : ∀ prior ∈ pre, prior.offset + prior.storedSize ≤ bytes.length)
    {found : Option Bytes} :
    Check.Safe (Check.walk (validateEntry options bytes header) pre.length rest found) := by
  induction rest generalizing pre found with
  | nil => exact Check.safe_ok _
  | cons entry rest ih =>
      rw [Check.walk_cons, Check.safe_bind_iff]
      refine ⟨validateEntry_safe hok hlen hsplit hpre, fun next hnext => ?_⟩
      have he := ((validateEntry_eq_ok hok hlen hsplit hpre).mp hnext).1
      have hstep := @ih (pre ++ [entry])
      rw [List.length_append, List.length_singleton] at hstep
      apply hstep
      · rw [List.append_assoc]
        exact hsplit
      · intro prior hmem
        rcases List.mem_append.mp hmem with h | h
        · exact hpre prior h
        · rw [List.mem_singleton.mp h]
          exact he.fits

end Entries

/-! ## What the validator accepts -/

/-- What the validator asks of a container. -/
structure ContainerOk (strict : Bool) (bytes : Bytes) (input : WovrInput) : Prop where
  header_eq : input.header = headerOf bytes
  header : HeaderOk bytes input.header
  directory : DirectoryOk strict bytes input.header input.payload

theorem validateContainer_eq_ok {options : EffectiveOptions} {bytes : Bytes} {input : WovrInput} :
    validateContainer options bytes = .ok input ↔
      ContainerOk options.strict bytes input ∧ HeaderLimits options bytes := by
  rw [validateContainer, Check.bind_eq_ok]
  constructor
  · rintro ⟨header, hheader, hrest⟩
    obtain ⟨rfl, hok, hlimits⟩ := validateHeader_eq_ok.mp hheader
    rw [forEntries_eq none hok.directoryFits, Check.bind_eq_ok] at hrest
    obtain ⟨found, hwalk, hrest⟩ := hrest
    obtain ⟨hentries, -, hapart, hfound⟩ := (validateEntries_eq_ok hok hok.length_le
      _ (List.nil_append _).symm (List.forall_mem_nil _)).mp hwalk
    rcases found with _ | payload
    · cases hrest
    · simp only [Check.bind_eq_ok, Check.rejectIf_eq_ok, Check.pure_eq_ok, Except.ok.injEq] at hrest
      obtain ⟨-, -, rfl⟩ := hrest
      exact ⟨⟨rfl, hok, ⟨hentries, hapart, hfound⟩⟩, hlimits⟩
  · rintro ⟨hc, hlimits⟩
    have hok := hc.header
    rw [hc.header_eq] at hok
    refine ⟨headerOf bytes, validateHeader_eq_ok.mpr ⟨rfl, hok, hlimits⟩, ?_⟩
    have hdir := hc.directory
    rw [hc.header_eq] at hdir
    have hfound : (none : Option Bytes).toList ++
        overviewPayloads bytes ((headerOf bytes).directory bytes) =
          (some input.payload).toList := hdir.overview
    have hwalk := (validateEntries_eq_ok hok hok.length_le _ (List.nil_append _).symm
      (List.forall_mem_nil _)).mpr ⟨hdir.entries, fun _ _ _ h => absurd h List.not_mem_nil,
        hdir.apart, hfound⟩
    rw [forEntries_eq none hok.directoryFits, Check.bind_eq_ok]
    refine ⟨some input.payload, hwalk, ?_⟩
    simp only [Check.bind_eq_ok, Check.rejectIf_eq_ok, Check.pure_eq_ok, Except.ok.injEq]
    refine ⟨(), not_lt.mpr hok.directoryFits, ?_⟩
    rw [← hc.header_eq]

theorem validateContainer_safe {options : EffectiveOptions} {bytes : Bytes}
    (hbuffer : bytes.length ≤ uint64Max) : Check.Safe (validateContainer options bytes) := by
  rw [validateContainer, Check.safe_bind_iff]
  refine ⟨validateHeader_safe hbuffer, fun header hheader => ?_⟩
  obtain ⟨rfl, hok, -⟩ := validateHeader_eq_ok.mp hheader
  rw [forEntries_eq none hok.directoryFits, Check.safe_bind_iff]
  refine ⟨validateEntries_safe hok hbuffer _ (List.nil_append _).symm (List.forall_mem_nil _),
    fun found _ => ?_⟩
  rcases found with _ | payload
  · exact Check.safe_reject _
  · exact Check.safe_bind (Check.safe_rejectIf _ _) fun _ _ => Check.safe_ok _

/-! ## Later passes

The passes after the container validator read the header and the directory again. -/

/-- The entries of a container with a tag. -/
def sections (bytes : Bytes) (tag : SectionTag) : List Entry :=
  ((headerOf bytes).directory bytes).filter fun entry => entry.tag = tag

namespace ContainerOk

variable {strict : Bool} {bytes : Bytes} {input : WovrInput}

theorem headerOk (h : ContainerOk strict bytes input) : HeaderOk bytes (headerOf bytes) :=
  h.header_eq ▸ h.header

theorem directoryOk (h : ContainerOk strict bytes input) :
    DirectoryOk strict bytes (headerOf bytes) input.payload :=
  h.header_eq ▸ h.directory

theorem size (h : ContainerOk strict bytes input) : 96 ≤ bytes.length := h.headerOk.size

theorem length_le (h : ContainerOk strict bytes input) : bytes.length ≤ uint64Max :=
  h.headerOk.length_le

theorem entry (h : ContainerOk strict bytes input) {entry : Entry}
    (hmem : entry ∈ (headerOf bytes).directory bytes) :
    EntryOk strict bytes (headerOf bytes) entry :=
  h.directoryOk.entries entry hmem

theorem sectionEntry (h : ContainerOk strict bytes input) {tag : SectionTag} {entry : Entry}
    (hmem : entry ∈ sections bytes tag) :
    EntryOk strict bytes (headerOf bytes) entry ∧ entry.tag = tag := by
  obtain ⟨hdir, htag⟩ := List.mem_filter.mp hmem
  exact ⟨h.entry hdir, of_decide_eq_true htag⟩

theorem forEntries_eq (h : ContainerOk strict bytes input) {σ : Type}
    {step : ℕ → Entry → σ → Check ErrorCode σ} (s : σ) :
    forEntries bytes (headerOf bytes).directoryOffset (headerOf bytes).sectionCount step s =
      Check.walk step 0 ((headerOf bytes).directory bytes) s :=
  Container.forEntries_eq s h.headerOk.directoryFits

/-- A pass over the entries with a tag. -/
theorem forSections_eq (h : ContainerOk strict bytes input) {σ : Type} {tag : SectionTag}
    {step : Entry → σ → Check ErrorCode σ} (s : σ) :
    forEntries bytes (headerOf bytes).directoryOffset (headerOf bytes).sectionCount
        (fun _ entry s => if entry.tag = tag then step entry s else .ok s) s =
      Check.walk (fun _ entry s => step entry s) 0 (sections bytes tag) s := by
  rw [h.forEntries_eq, Check.walk_filter _ 0 0, sections]

/-- The payload of an entry is part of the container. -/
theorem length_payload (h : ContainerOk strict bytes input) {entry : Entry}
    (hmem : entry ∈ (headerOf bytes).directory bytes) :
    (entry.payload bytes).length = entry.storedSize := length_slice (h.entry hmem).fits

/-- The overview section. -/
theorem overview_eq (h : ContainerOk strict bytes input) :
    (sections bytes .overview).map (fun entry => entry.payload bytes) = [input.payload] :=
  h.directoryOk.overview

theorem payload_le (h : ContainerOk strict bytes input) : input.payload.length ≤ uint64Max := by
  obtain ⟨entry, hsections, hpayload⟩ := List.map_eq_singleton_iff.mp h.overview_eq
  have hmem : entry ∈ (headerOf bytes).directory bytes :=
    List.mem_of_mem_filter (hsections ▸ List.mem_singleton_self entry)
  have hfits := (h.entry hmem).fits
  rw [← hpayload, h.length_payload hmem]
  have hlen := h.length_le
  omega

end ContainerOk

end LibApta.Container
