import LibApta.Core.MetadataView
import LibApta.Serialization.MetaRead

/-!
# Writing the metadata payload

The writer measures the payload of a record and writes it in two walks over the fields of the record.
What it writes is the encoding of the map the reader takes it for, so that reading gives the record
back, and writing what was read of a payload without unknown keys gives the payload back.
-/

namespace LibApta.Container

open LittleEndian Cbor

/-! ## The writer -/

/-- `apta_cbor_head_size`. -/
def cborHeadSize (value : ℕ) : ℕ :=
  if value < 24 then 1
  else if value ≤ 255 then 2
  else if value ≤ 65535 then 3
  else if value ≤ uint32Max then 5
  else 9

/-- `apta_cbor_write_head`. -/
def cborWriteHead (major value : ℕ) : Bytes :=
  if value < 24 then [UInt8.ofNat (32 * major + value)]
  else if value ≤ 255 then [UInt8.ofNat (32 * major + 24), UInt8.ofNat value]
  else if value ≤ 65535 then
    [UInt8.ofNat (32 * major + 25), UInt8.ofNat (value >>> 8), UInt8.ofNat value]
  else if value ≤ uint32Max then
    [UInt8.ofNat (32 * major + 26), UInt8.ofNat (value >>> 24), UInt8.ofNat (value >>> 16),
      UInt8.ofNat (value >>> 8), UInt8.ofNat value]
  else
    [UInt8.ofNat (32 * major + 27), UInt8.ofNat (value >>> 56), UInt8.ofNat (value >>> 48),
      UInt8.ofNat (value >>> 40), UInt8.ofNat (value >>> 32), UInt8.ofNat (value >>> 24),
      UInt8.ofNat (value >>> 16), UInt8.ofNat (value >>> 8), UInt8.ofNat value]

/-- `apta_meta_flag`. -/
def metaFlag (record : MetadataRecord ByteView) (flag : ℕ) : Bool := record.flags.testBit flag

/-- `apta_meta_item_count`. -/
def metaItemCount (record : MetadataRecord ByteView) : ℕ :=
  (metaFlag record metadataProducerNamePresent).toNat +
    (metaFlag record metadataProducerVersionPresent).toNat +
    (metaFlag record metadataBackendNamePresent).toNat +
    (metaFlag record metadataBackendVersionPresent).toNat +
    (metaFlag record metadataCreationTimePresent).toNat +
    (decide (record.applicationSourceIdKind ≠ metadataSourceIdNone)).toNat +
    (metaFlag record metadataCommentsPresent).toNat

/-- `apta_meta_text_item_size`. -/
def metaTextItemSize (size : ℕ) : ℕ := 1 + cborHeadSize size + size

/-- `apta_meta_measure_payload`. -/
def metaMeasurePayload (record : MetadataRecord ByteView) : ℕ :=
  cborHeadSize (metaItemCount record) +
    (if metaFlag record metadataProducerNamePresent then
      metaTextItemSize record.texts.producerName.size else 0) +
    (if metaFlag record metadataProducerVersionPresent then
      metaTextItemSize record.texts.producerVersionString.size else 0) +
    (if metaFlag record metadataBackendNamePresent then
      metaTextItemSize record.texts.backendName.size else 0) +
    (if metaFlag record metadataBackendVersionPresent then
      metaTextItemSize record.texts.backendVersion.size else 0) +
    (if metaFlag record metadataCreationTimePresent then
      1 + cborHeadSize record.creationUnixTime else 0) +
    (if record.applicationSourceIdKind ≠ metadataSourceIdNone then
      1 + cborHeadSize record.texts.applicationSourceId.size + record.texts.applicationSourceId.size
      else 0) +
    (if metaFlag record metadataCommentsPresent then
      metaTextItemSize record.texts.comments.size else 0)

/-- A head and the bytes a view designates, behind a key. -/
def metaWriteString (key major : ℕ) (view : ByteView) : Bytes :=
  UInt8.ofNat key :: (cborWriteHead major view.size ++
    if view.size ≠ 0 then view.content else [])

/-- `apta_meta_write_text`. -/
def metaWriteText (key : ℕ) (text : ByteView) : Bytes := metaWriteString key 3 text

/-- `apta_meta_write_payload`. -/
def metaWritePayload (record : MetadataRecord ByteView) : Bytes :=
  cborWriteHead 5 (metaItemCount record) ++
    ((if metaFlag record metadataProducerNamePresent then
      metaWriteText 1 record.texts.producerName else []) ++
    ((if metaFlag record metadataProducerVersionPresent then
      metaWriteText 2 record.texts.producerVersionString else []) ++
    ((if metaFlag record metadataBackendNamePresent then
      metaWriteText 3 record.texts.backendName else []) ++
    ((if metaFlag record metadataBackendVersionPresent then
      metaWriteText 4 record.texts.backendVersion else []) ++
    ((if metaFlag record metadataCreationTimePresent then
      UInt8.ofNat 5 :: cborWriteHead 0 record.creationUnixTime else []) ++
    ((if record.applicationSourceIdKind ≠ metadataSourceIdNone then
      metaWriteString 6 (if record.applicationSourceIdKind = metadataSourceIdText then 3 else 2)
        record.texts.applicationSourceId else []) ++
    (if metaFlag record metadataCommentsPresent then
      metaWriteText 7 record.texts.comments else [])))))))

/-! ## Heads -/

theorem cborWriteHead_eq (major value : ℕ) : cborWriteHead major value = head major value := by
  unfold cborWriteHead head argument bigEndianBytes
  simp only [encode, Nat.shiftRight_eq_div_pow, Nat.div_div_eq_div_mul, uint32Max]
  split_ifs
  all_goals first
    | omega
    | rfl

theorem length_head (major value : ℕ) : (head major value).length = cborHeadSize value := by
  rw [← cborWriteHead_eq, cborWriteHead, cborHeadSize]
  split_ifs <;> rfl

theorem length_metaWriteString {key major : ℕ} {view : ByteView} (h : Backed view) :
    (metaWriteString key major view).length = metaTextItemSize view.size := by
  have hlength := ByteView.length_content h
  rw [metaWriteString, List.length_cons, List.length_append, cborWriteHead_eq, length_head,
    metaTextItemSize]
  split_ifs with hsize
  · omega
  · rw [not_not] at hsize
    simp only [List.length_nil]
    omega

/-- The measured size is the number of the bytes written. -/
theorem metaMeasurePayload_eq {record : MetadataRecord ByteView}
    (hbacked : ∀ view ∈ record.texts.toList, Backed view) :
    metaMeasurePayload record = (metaWritePayload record).length := by
  simp only [TextFields.toList, List.forall_mem_cons] at hbacked
  obtain ⟨hname, hversion, hbackend, hbackendVersion, hid, hcomments, -⟩ := hbacked
  have hpiece (present : Prop) [Decidable present] (piece : Bytes) :
      (if present then piece else []).length = if present then piece.length else 0 := by
    split_ifs <;> rfl
  unfold metaMeasurePayload metaWritePayload metaWriteText
  simp only [List.length_append, hpiece, length_metaWriteString hname,
    length_metaWriteString hversion, length_metaWriteString hbackend,
    length_metaWriteString hbackendVersion, length_metaWriteString hid,
    length_metaWriteString hcomments, List.length_cons, cborWriteHead_eq, length_head,
    metaTextItemSize, Nat.add_assoc, Nat.add_comm 1 (cborHeadSize record.creationUnixTime)]

/-! ## What is written -/

/-- The entry of metadata under a key, if it has one. -/
def metaEntry (metadata : Metadata) (key : ℕ) : List (ℕ × Item) :=
  ((metaGet metadata key).map (Prod.mk key)).toList

theorem metaEntries_eq (metadata : Metadata) :
    metaEntries metadata = recognizedKeys.flatMap (metaEntry metadata) := by
  rw [metaEntries]
  induction recognizedKeys with
  | nil => rfl
  | cons key rest ih =>
      rw [List.filterMap_cons, List.flatMap_cons, ← ih, metaEntry]
      cases (metaGet metadata key).map (Prod.mk key) <;> rfl

theorem length_metaEntry {α : Type} {metadata : Metadata} (key : ℕ) {present : Bool} {value : α}
    {item : α → Item} (hget : metaGet metadata key = (if present then some value else none).map item) :
    (metaEntry metadata key).length = present.toNat := by
  rw [metaEntry, hget]
  cases present <;> rfl

/-- The writer counts the entries of what a record says. -/
theorem length_metaEntries (record : MetadataRecord ByteView) :
    (metaEntries record.toMetadata).length = metaItemCount record := by
  have hkeys : recognizedKeys = [1, 2, 3, 4, 5, 6, 7] := by decide
  have hid : (metaEntry record.toMetadata 6).length =
      (decide (record.applicationSourceIdKind ≠ metadataSourceIdNone)).toNat := by
    simp only [metaEntry, metaGet, MetadataRecord.toMetadata]
    split_ifs with hnone htext <;> simp [hnone]
  rw [metaEntries_eq, hkeys]
  simp only [List.flatMap_cons, List.flatMap_nil, List.length_append, List.length_nil]
  have hname : (metaEntry record.toMetadata 1).length =
      (metaFlag record metadataProducerNamePresent).toNat := length_metaEntry 1 rfl
  have hversion : (metaEntry record.toMetadata 2).length =
      (metaFlag record metadataProducerVersionPresent).toNat := length_metaEntry 2 rfl
  have hbackend : (metaEntry record.toMetadata 3).length =
      (metaFlag record metadataBackendNamePresent).toNat := length_metaEntry 3 rfl
  have hbackendVersion : (metaEntry record.toMetadata 4).length =
      (metaFlag record metadataBackendVersionPresent).toNat := length_metaEntry 4 rfl
  have htime : (metaEntry record.toMetadata 5).length =
      (metaFlag record metadataCreationTimePresent).toNat := length_metaEntry 5 rfl
  have hcomments : (metaEntry record.toMetadata 7).length =
      (metaFlag record metadataCommentsPresent).toNat := length_metaEntry 7 rfl
  rw [hname, hversion, hbackend, hbackendVersion, htime, hid, hcomments, metaItemCount]
  omega

/-- A string under a key is written where metadata has it. -/
theorem metaWriteString_eq {key major : ℕ} {view : ByteView} {item : Item} (hkey : key < 24)
    (hbacked : Backed view) (hitem : item.encode = head major view.content.length ++ view.content) :
    metaWriteString key major view = encodeEntry (key, item) := by
  have hlength := ByteView.length_content hbacked
  have hhead : head 0 key = [UInt8.ofNat key] := by
    rw [← cborWriteHead_eq, cborWriteHead, if_pos hkey, Nat.mul_zero, Nat.zero_add]
  have hunsigned : (Item.unsigned key).encode = head 0 key := rfl
  have hcontent : (if view.size ≠ 0 then view.content else []) = view.content := by
    split_ifs with hsize
    · rfl
    · rw [not_not] at hsize
      exact (List.eq_nil_of_length_eq_zero (hlength.trans hsize)).symm
  rw [metaWriteString, cborWriteHead_eq, hcontent, encodeEntry, hitem, hunsigned, hhead, hlength]
  rfl

theorem piece_eq {present : Bool} (key : ℕ) {metadata : Metadata} {view : ByteView}
    (hkey : key < 24) (hbacked : Backed view)
    (hget : metaGet metadata key = (if present then some view.content else none).map Item.text) :
    (if present then metaWriteText key view else []) =
      (metaEntry metadata key).flatMap encodeEntry := by
  rw [metaEntry, hget]
  cases present with
  | false => rfl
  | true =>
      have hwrite : metaWriteText key view = encodeEntry (key, .text view.content) :=
        metaWriteString_eq hkey hbacked rfl
      simp [hwrite]

/-- What is written of a record is the encoding of the map of what the record says. -/
theorem metaWritePayload_eq {record : MetadataRecord ByteView}
    (hbacked : ∀ view ∈ record.texts.toList, Backed view) :
    metaWritePayload record = (payloadItem (metaEntries record.toMetadata)).encode := by
  simp only [TextFields.toList, List.forall_mem_cons] at hbacked
  obtain ⟨hname, hversion, hbackend, hbackendVersion, hid, hcomments, -⟩ := hbacked
  have hkeys : recognizedKeys = [1, 2, 3, 4, 5, 6, 7] := by decide
  have htime : (if metaFlag record metadataCreationTimePresent then
      UInt8.ofNat 5 :: cborWriteHead 0 record.creationUnixTime else []) =
      (metaEntry record.toMetadata 5).flatMap encodeEntry := by
    simp only [metaEntry, metaGet, MetadataRecord.toMetadata, metaFlag, cborWriteHead_eq]
    cases record.flags.testBit metadataCreationTimePresent with
    | false => rfl
    | true => exact (List.append_nil _).symm
  have hsourceId : (if record.applicationSourceIdKind ≠ metadataSourceIdNone then
      metaWriteString 6 (if record.applicationSourceIdKind = metadataSourceIdText then 3 else 2)
        record.texts.applicationSourceId else []) =
      (metaEntry record.toMetadata 6).flatMap encodeEntry := by
    simp only [metaEntry, metaGet, MetadataRecord.toMetadata]
    by_cases hnone : record.applicationSourceIdKind = metadataSourceIdNone
    · rw [if_neg (not_not.mpr hnone), if_pos hnone]
      rfl
    rw [if_pos hnone, if_neg hnone]
    split_ifs
    · rw [metaWriteString_eq (by omega) hid
        (rfl : (Item.text record.texts.applicationSourceId.content).encode = _)]
      exact (List.append_nil _).symm
    · rw [metaWriteString_eq (by omega) hid
        (rfl : (Item.bytes record.texts.applicationSourceId.content).encode = _)]
      exact (List.append_nil _).symm
  rw [encode_payloadItem, length_metaEntries, metaEntries_eq, List.flatMap_assoc, hkeys,
    metaWritePayload, cborWriteHead_eq]
  simp only [List.flatMap_cons, List.flatMap_nil, List.append_nil]
  rw [htime, hsourceId, ← piece_eq 1 (by omega) hname rfl, ← piece_eq 2 (by omega) hversion rfl,
    ← piece_eq 3 (by omega) hbackend rfl, ← piece_eq 4 (by omega) hbackendVersion rfl,
    ← piece_eq 7 (by omega) hcomments rfl]
  rfl

/-! ## Round trips -/

/-- Metadata is what it says under the known keys. -/
theorem metaGet_ext {metadata metadata' : Metadata}
    (h : ∀ key, Recognized key → metaGet metadata key = metaGet metadata' key) :
    metadata = metadata' := by
  have htext : Function.Injective (Option.map Item.text) :=
    Option.map_injective fun _ _ heq => Item.text.inj heq
  have htime : Function.Injective (Option.map Item.unsigned) :=
    Option.map_injective fun _ _ heq => Item.unsigned.inj heq
  have hid : Function.Injective (Option.map sourceIdItem) := by
    refine Option.map_injective fun a b heq => ?_
    cases a <;> cases b <;> cases heq <;> rfl
  obtain ⟨name, version, backend, backendVersion, time, sourceId, comments⟩ := metadata
  obtain rfl := htext (h 1 (by decide))
  obtain rfl := htext (h 2 (by decide))
  obtain rfl := htext (h 3 (by decide))
  obtain rfl := htext (h 4 (by decide))
  obtain rfl := htime (h 5 (by decide))
  obtain rfl := hid (h 6 (by decide))
  obtain rfl := htext (h 7 (by decide))
  rfl

/-- The entries of valid metadata may stand in a payload. -/
theorem metaEntries_rules {metadata : Metadata} (hvalid : metadata.isValid = true)
    (htime : ∀ time ∈ metadata.creationUnixTime, time < 18446744073709551616)
    {entry : ℕ × Item} (hentry : entry ∈ metaEntries metadata) : EntryRule entry := by
  obtain ⟨hkey, hget⟩ := mem_metaEntries.mp hentry
  obtain ⟨key, item⟩ := entry
  simp only at hkey hget
  simp only [Metadata.isValid, Bool.and_eq_true] at hvalid
  obtain ⟨⟨⟨⟨⟨⟨hname, hversion⟩, hbackend⟩, hbackendVersion⟩, hcomments⟩, hid⟩, -⟩ := hvalid
  have htext {maximumSize : ℕ} {field : Option Bytes}
      (hfield : textFieldValid maximumSize field = true) (hget : field.map Item.text = some item) :
      TextItem maximumSize item := by
    obtain ⟨content, rfl, rfl⟩ := Option.map_eq_some_iff.mp hget
    rw [textFieldValid, Bool.and_eq_true, decide_eq_true_iff] at hfield
    exact ⟨content, rfl, hfield.1⟩
  refine ⟨by have hle := hkey.2; simp only; omega, ?_⟩
  rw [recognized_iff] at hkey
  rcases hkey with rfl | rfl | rfl | rfl | rfl | rfl | rfl
  · exact htext hname hget
  · exact htext hversion hget
  · exact htext hbackend hget
  · exact htext hbackendVersion hget
  · obtain ⟨value, hsome, rfl⟩ := Option.map_eq_some_iff.mp hget
    exact ⟨value, rfl, htime value hsome⟩
  · obtain ⟨sourceId, hsome, rfl⟩ := Option.map_eq_some_iff.mp hget
    rw [hsome] at hid
    cases sourceId with
    | text content =>
        rw [Bool.and_eq_true, decide_eq_true_iff] at hid
        exact ⟨content, .inl rfl, hid.1⟩
    | bytes content => exact ⟨content, .inr rfl, of_decide_eq_true hid⟩
  · exact htext hcomments hget

/-- The entries of valid metadata are those of a payload the reader accepts. -/
theorem metaEntries_acceptable {metadata : Metadata} (hvalid : metadata.isValid = true)
    (htime : ∀ time ∈ metadata.creationUnixTime, time < 18446744073709551616) :
    Acceptable (metaEntries metadata) := by
  refine ⟨?_, fun entry => metaEntries_rules hvalid htime, ?_, ?_⟩
  · have hlength : (metaEntries metadata).length ≤ recognizedKeys.length :=
      List.length_filterMap_le _ _
    exact hlength.trans (by decide)
  · exact List.isChain_iff_pairwise.mpr (List.pairwise_map.mpr (metaEntries_sorted metadata))
  · have hnone : ∀ count ∈ (metaEntries metadata).map visitedFor, count = 0 := by
      intro count hcount
      obtain ⟨entry, hentry, rfl⟩ := List.mem_map.mp hcount
      exact if_pos (mem_metaEntries.mp hentry).1
    rw [List.sum_eq_zero hnone]
    exact Nat.zero_le _

/-- The reader takes the entries of metadata for the metadata. -/
theorem foldl_metaEntries {metadata : Metadata} (haccept : Acceptable (metaEntries metadata)) :
    (metaEntries metadata).foldl metaAssign emptyMetadata = metadata := by
  refine metaGet_ext fun key hkey => Option.ext fun item => ?_
  have hnone : metaGet emptyMetadata key = none := by
    unfold metaGet emptyMetadata
    split <;> rfl
  rw [metaGet_foldl haccept.rules (metaEntries_sorted metadata) emptyMetadata hkey, hnone,
    mem_metaEntries, and_iff_right hkey]
  simp

/-- Every reading of the payload has only keys with a meaning. -/
def OnlyRecognizedKeys (payload : Bytes) : Prop :=
  ∀ entries, Acceptable entries → payload = (payloadItem entries).encode →
    ∀ entry ∈ entries, Recognized entry.1

/-- Of a record the session takes, as many bytes are written as were measured, and reading them gives
what the record says. A payload without unknown keys that the reader and the validation accept is
what is written of the record the reader makes of it. -/
theorem metaPayload_roundtrip :
    (∀ record : MetadataRecord ByteView, record.Acceptable →
      record.creationUnixTime < 18446744073709551616 →
      metaMeasurePayload record = (metaWritePayload record).length ∧
        metaParsePayload (metaWritePayload record) = .ok record.toMetadata) ∧
    ∀ (payload : Bytes) (metadata : Metadata), metaParsePayload payload = .ok metadata →
      metadata.isValid = true → OnlyRecognizedKeys payload →
      metaWritePayload metadata.toRecord = payload := by
  refine ⟨fun record haccept htime => ⟨metaMeasurePayload_eq haccept.backed, ?_⟩,
    fun payload metadata hparse _ hknown => ?_⟩
  · have htimes : ∀ time ∈ record.toMetadata.creationUnixTime, time < 18446744073709551616 := by
      intro time hmem
      simp only [MetadataRecord.toMetadata] at hmem
      split_ifs at hmem
      · exact Option.mem_some_iff.mp hmem ▸ htime
      · cases hmem
    have hentries := metaEntries_acceptable haccept.isValid htimes
    rw [metaWritePayload_eq haccept.backed, metaParsePayload_iff]
    exact ⟨_, hentries, rfl, (foldl_metaEntries hentries).symm⟩
  · obtain ⟨entries, haccept, hpayload, rfl⟩ := metaParsePayload_iff.mp hparse
    have hbacked : ∀ view ∈
        ((entries.foldl metaAssign emptyMetadata).toRecord).texts.toList, Backed view := by
      simp only [Metadata.toRecord, TextFields.toList, List.forall_mem_cons]
      exact ⟨ByteView.backed_ofBytes _, ByteView.backed_ofBytes _, ByteView.backed_ofBytes _,
        ByteView.backed_ofBytes _, ByteView.backed_ofBytes _, ByteView.backed_ofBytes _,
        fun _ hmem => absurd hmem List.not_mem_nil⟩
    have hall : ∀ entry ∈ entries, decide (Recognized entry.1) = true := fun entry hentry =>
      decide_eq_true (hknown entries haccept hpayload entry hentry)
    rw [metaWritePayload_eq hbacked, Metadata.toMetadata_toRecord, metaEntries_foldl haccept,
      List.filter_eq_self.mpr hall, hpayload]

/-- A name with a creation time and an empty comment. -/
def namedMetadata : Metadata := ⟨some [0x61, 0x70], none, none, none, some 300, none, some []⟩

theorem metaPayload_roundtrip_named :
    metaParsePayload (metaWritePayload namedMetadata.toRecord) = .ok namedMetadata ∧
      metaWritePayload namedMetadata.toRecord =
        [0xA3, 0x01, 0x62, 0x61, 0x70, 0x05, 0x19, 0x01, 0x2C, 0x07, 0x60] := by
  have hparse := (metaPayload_roundtrip.1 namedMetadata.toRecord
    (Metadata.toRecord_acceptable (by decide)) (by decide)).2
  rw [Metadata.toMetadata_toRecord] at hparse
  exact ⟨hparse, by decide⟩

end LibApta.Container
