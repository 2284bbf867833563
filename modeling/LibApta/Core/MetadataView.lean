import LibApta.Core.MetadataText
import LibApta.Core.Types
import LibApta.Lib.Tiling

/-!
# Taking metadata over

A session takes the metadata of its host over by value. The record is validated, its texts are
copied one behind the other into one block of storage, and the stored record points into the block.
A session on the heap and a session on a workspace do this in copies of their own; they accept the
same records and store the same (`metadata_paths`).
-/

namespace LibApta

open LittleEndian Tiling Utf8

/-! ## Records -/

/-- A pointer and a size: the bytes they designate, or none for a null pointer. -/
structure ByteView where
  data : Option (List UInt8)
  size : ℕ
  sized : ∀ bytes ∈ data, bytes.length = size
deriving DecidableEq

/-- What a view shows. -/
def ByteView.content (view : ByteView) : List UInt8 := view.data.getD []

/-- One thing for each text of a record, in the order in which the texts are stored. -/
structure TextFields (α : Type) where
  producerName : α
  producerVersionString : α
  backendName : α
  backendVersion : α
  applicationSourceId : α
  comments : α
deriving DecidableEq

/-- The texts in order. -/
def TextFields.toList {α : Type} (fields : TextFields α) : List α :=
  [fields.producerName, fields.producerVersionString, fields.backendName, fields.backendVersion,
    fields.applicationSourceId, fields.comments]

theorem TextFields.toList_injective {α : Type} :
    Function.Injective (toList : TextFields α → List α) := by
  rintro ⟨⟩ ⟨⟩ h
  simpa [toList] using h

/-- The metadata record of the interface, with the views of its texts. -/
structure MetadataRecord (α : Type) where
  structSize : ℕ
  apiVersion : ℕ
  texts : TextFields α
  creationUnixTime : ℕ
  applicationSourceIdKind : ℕ
  flags : ℕ
  reserved32 : List ℕ
  reserved64 : List ℕ
deriving DecidableEq

/-- The size of the record on a target of 64 bits. -/
abbrev metadataRecordBytes : ℕ := 152

/-- The version of the interface the library was built for. -/
abbrev interfaceVersion : ℕ := 4194304

/-- `apta_internal_api_version_is_compatible`: major version 1 and minor version 0. -/
def apiVersionIsCompatible (version : ℕ) : Prop :=
  (version >>> 22) &&& 0x3ff = 1 ∧ (version >>> 12) &&& 0x3ff ≤ 0

instance (version : ℕ) : Decidable (apiVersionIsCompatible version) :=
  inferInstanceAs (Decidable (_ ∧ _))

/-- `apta_internal_validate_struct`. -/
def validateStruct (minimumSize structSize version : ℕ) : Prop :=
  minimumSize ≤ structSize ∧ apiVersionIsCompatible version

instance (minimumSize structSize version : ℕ) :
    Decidable (validateStruct minimumSize structSize version) :=
  inferInstanceAs (Decidable (_ ∧ _))

/-- Bits of the presence flags. -/
abbrev metadataProducerNamePresent : ℕ := 0
@[inherit_doc metadataProducerNamePresent] abbrev metadataProducerVersionPresent : ℕ := 1
@[inherit_doc metadataProducerNamePresent] abbrev metadataBackendNamePresent : ℕ := 2
@[inherit_doc metadataProducerNamePresent] abbrev metadataBackendVersionPresent : ℕ := 3
@[inherit_doc metadataProducerNamePresent] abbrev metadataCreationTimePresent : ℕ := 4
@[inherit_doc metadataProducerNamePresent] abbrev metadataCommentsPresent : ℕ := 5

/-- Kinds of the source identifier. -/
abbrev metadataSourceIdNone : ℕ := 0
@[inherit_doc metadataSourceIdNone] abbrev metadataSourceIdText : ℕ := 1
@[inherit_doc metadataSourceIdNone] abbrev metadataSourceIdBytes : ℕ := 2

/-! ## Validation -/

section Paths

variable {ε : Type}

/-- `apta_metadata_text_field_is_valid`, and its copy for workspaces. -/
def textFieldIsValid (field : ByteView) (maximumSize : ℕ) (present : Bool) : Check ε Bool :=
  if present then
    if field.size ≤ maximumSize then utf8IsValid field.data field.size else .ok false
  else .ok (decide (field.size = 0))

/-- The texts with a flag, each with its greatest size and its presence, in the order of the
checks. -/
def flaggedTexts (record : MetadataRecord ByteView) : List (ByteView × ℕ × Bool) :=
  [(record.texts.producerName, 255, record.flags.testBit metadataProducerNamePresent),
    (record.texts.producerVersionString, 127, record.flags.testBit metadataProducerVersionPresent),
    (record.texts.backendName, 255, record.flags.testBit metadataBackendNamePresent),
    (record.texts.backendVersion, 127, record.flags.testBit metadataBackendVersionPresent),
    (record.texts.comments, 4096, record.flags.testBit metadataCommentsPresent)]

/-- Check texts until one is not valid. -/
def textFieldsAreValid : List (ByteView × ℕ × Bool) → Check ε Bool
  | [] => .ok true
  | (field, maximumSize, present) :: rest => do
      if ← textFieldIsValid field maximumSize present then textFieldsAreValid rest
      else return false

/-- Check the source identifier by its kind. -/
def sourceIdIsValid (kind : ℕ) (field : ByteView) : Check ε Bool :=
  if kind = metadataSourceIdNone then .ok (decide (field.size = 0))
  else if kind = metadataSourceIdText then
    if field.size ≤ 1024 then utf8IsValid field.data field.size else .ok false
  else if kind = metadataSourceIdBytes then
    .ok (decide (field.size ≤ 1024) && (decide (field.size = 0) || field.data.isSome))
  else .ok false

/-- Bytes of all texts. -/
def totalSize (texts : TextFields ByteView) : ℕ := (texts.toList.map ByteView.size).sum

/-- `apta_metadata_view_is_valid`: the bytes of storage a valid record takes. -/
def metadataViewIsValid (record : MetadataRecord ByteView) : Check ε (Option ℕ) :=
  if record.flags &&& 4294967232 ≠ 0 ∨ ¬(∀ word ∈ record.reserved32, word = 0) ∨
      ¬(∀ word ∈ record.reserved64, word = 0) then .ok none
  else do
    if ← textFieldsAreValid (flaggedTexts record) then
      if ← sourceIdIsValid record.applicationSourceIdKind record.texts.applicationSourceId then
        return if 8192 < totalSize record.texts then none else some (totalSize record.texts)
      else return none
    else return none

/-- `apta_workspace_metadata_input_is_valid`, which has the same body. -/
def workspaceMetadataInputIsValid (record : MetadataRecord ByteView) : Check ε (Option ℕ) :=
  metadataViewIsValid record

end Paths

/-! ## Copies -/

/-- A view of a text in the storage: its offset, or none for a null pointer, and its size. -/
structure StoredText where
  offset : Option ℕ
  size : ℕ
deriving DecidableEq

/-- What a session keeps of a record. -/
structure StoredMetadata where
  view : MetadataRecord StoredText
  storage : Option (List UInt8)
  storageSize : ℕ
  present : ℕ
deriving DecidableEq

/-- Where a session gets the storage from: a block of the size asked for, or none. -/
structure TextStorage where
  grant : ℕ → Option (List UInt8)
  sized : ∀ size, ∀ block ∈ grant size, block.length = size

/-- What a copy of a text changes. -/
structure CopyState where
  storage : Option (List UInt8)
  offset : ℕ

/-- `apta_metadata_copy_utf8`, `apta_metadata_copy_bytes` and their copies for workspaces. -/
def copyText (source : ByteView) (s : CopyState) : Check ErrorCode (StoredText × CopyState) :=
  if source.size = 0 then .ok (⟨none, source.size⟩, s)
  else
    match s.storage, source.data with
    | some block, some bytes =>
        if s.offset + source.size ≤ block.length then
          .ok (⟨some s.offset, source.size⟩,
            ⟨some (patch block s.offset bytes), s.offset + source.size⟩)
        else Check.fault
    | _, _ => Check.fault

/-- The copies of the texts, one behind the other. -/
def copyTexts (texts : TextFields ByteView) (storage : Option (List UInt8)) :
    Check ErrorCode (TextFields StoredText × Option (List UInt8)) := do
  let (producerName, s) ← copyText texts.producerName ⟨storage, 0⟩
  let (producerVersionString, s) ← copyText texts.producerVersionString s
  let (backendName, s) ← copyText texts.backendName s
  let (backendVersion, s) ← copyText texts.backendVersion s
  let (applicationSourceId, s) ← copyText texts.applicationSourceId s
  let (comments, s) ← copyText texts.comments s
  return (⟨producerName, producerVersionString, backendName, backendVersion, applicationSourceId,
    comments⟩, s.storage)

/-- Ask for the storage of the texts, where they need any. -/
def reserveTexts (source : TextStorage) (size : ℕ) : Check ErrorCode (Option (List UInt8)) :=
  if size = 0 then .ok none
  else
    match source.grant size with
    | none => Check.reject .outOfMemory
    | some block => .ok (some block)

/-- `apta_metadata_copy_validated_view`. -/
def copyValidatedView (source : TextStorage) (record : MetadataRecord ByteView) :
    Check ErrorCode StoredMetadata := do
  match ← metadataViewIsValid record with
  | none => Check.reject .invalidArgument
  | some storageSize => do
      let storage ← reserveTexts source storageSize
      let (texts, storage) ← copyTexts record.texts storage
      return {
        view := { record with
          structSize := metadataRecordBytes
          apiVersion := interfaceVersion
          texts }
        storage, storageSize
        present := 1 }

/-- `apta_internal_metadata_copy_from_input`: the path of a session on the heap. -/
def copyFromInput (source : TextStorage) (record : MetadataRecord ByteView) :
    Check ErrorCode StoredMetadata := do
  Check.rejectIf (¬validateStruct metadataRecordBytes record.structSize record.apiVersion)
    .incompatibleVersion
  copyValidatedView source { record with structSize := metadataRecordBytes }

/-- `apta_workspace_metadata_copy_input`: the path of a session on a workspace. -/
def workspaceCopyInput (source : TextStorage) (record : MetadataRecord ByteView) :
    Check ErrorCode StoredMetadata := do
  Check.rejectIf (¬validateStruct metadataRecordBytes record.structSize record.apiVersion)
    .incompatibleVersion
  match ← workspaceMetadataInputIsValid record with
  | none => Check.reject .invalidArgument
  | some storageSize => do
      let storage ← reserveTexts source storageSize
      let (texts, storage) ← copyTexts record.texts storage
      return {
        view := { record with
          structSize := metadataRecordBytes
          apiVersion := interfaceVersion
          texts }
        storage, storageSize
        present := 1 }

/-! ## Where the copies lie -/

theorem ByteView.length_content {view : ByteView} (h : view.size ≠ 0 → view.data ≠ none) :
    view.content.length = view.size := by
  unfold ByteView.content
  cases hdata : view.data with
  | none =>
      by_contra hne
      exact h (Ne.symm hne) hdata
  | some bytes => exact view.sized bytes hdata

/-- The content of a stored text. -/
def StoredText.content (storage : List UInt8) (text : StoredText) : List UInt8 :=
  match text.offset with
  | none => []
  | some offset => slice storage offset text.size

/-- The part of the storage a stored text takes. -/
def StoredText.extent (text : StoredText) : Option (ℕ × ℕ) :=
  text.offset.map fun offset => (offset, offset + text.size)

/-- The stored text of a copy at an offset. -/
def placed (offset : ℕ) (source : ByteView) : StoredText :=
  ⟨if source.size = 0 then none else some offset, source.size⟩

/-- The stored texts of copies one behind the other. -/
def placeAll : ℕ → List ByteView → List StoredText
  | _, [] => []
  | offset, source :: rest => placed offset source :: placeAll (offset + source.size) rest

/-- The views that show bytes have them. -/
def Backed (view : ByteView) : Prop := view.size ≠ 0 → view.data ≠ none

/-- A copy writes the text behind those before it. -/
theorem copyText_eq {source : ByteView} {storage : Option (List UInt8)} {front back : List UInt8}
    (hbacked : Backed source) (hroom : source.size ≤ back.length)
    (hstorage : storage = none → source.size = 0) :
    copyText source ⟨storage.map fun _ => front ++ back, front.length⟩ =
      .ok (placed front.length source,
        ⟨storage.map fun _ => (front ++ source.content) ++ back.drop source.size,
          (front ++ source.content).length⟩) := by
  have hlength := ByteView.length_content hbacked
  rw [copyText, placed]
  by_cases hsize : source.size = 0
  · have hnil : source.content = [] := List.eq_nil_of_length_eq_zero (by omega)
    rw [if_pos hsize, if_pos hsize, hnil, hsize, List.drop_zero, List.append_nil]
  rw [if_neg hsize, if_neg hsize]
  obtain ⟨block, rfl⟩ := Option.ne_none_iff_exists'.mp fun h => hsize (hstorage h)
  obtain ⟨bytes, hdata⟩ := Option.ne_none_iff_exists'.mp (hbacked hsize)
  have hcontent : source.content = bytes := by rw [ByteView.content, hdata, Option.getD_some]
  rw [hdata, hcontent]
  rw [hcontent] at hlength
  simp only [Option.map_some]
  rw [if_pos (by rw [List.length_append]; omega), patch, List.take_left, ← hlength,
    List.drop_length_add_append, List.length_append, List.append_assoc]

/-- The texts one behind the other. -/
def joined (sources : List ByteView) : List UInt8 := sources.flatMap ByteView.content

/-- The copies fill a block of the measured size with the texts one behind the other. -/
theorem copyTexts_eq {texts : TextFields ByteView} {storage : Option (List UInt8)}
    (hbacked : ∀ source ∈ texts.toList, Backed source)
    (hstorage : (storage.getD []).length = totalSize texts) :
    ∃ stored : TextFields StoredText, stored.toList = placeAll 0 texts.toList ∧
      copyTexts texts storage = .ok (stored, storage.map fun _ => joined texts.toList) := by
  obtain ⟨name, version, backend, backendVersion, id, comments⟩ := texts
  simp only [TextFields.toList, List.forall_mem_cons] at hbacked
  obtain ⟨hname, hversion, hbackend, hbackendVersion, hid, hcomments, -⟩ := hbacked
  simp only [totalSize, TextFields.toList, List.map_cons, List.map_nil, List.sum_cons,
    List.sum_nil] at hstorage
  have hnone : storage = none → (storage.getD []).length = 0 := by
    rintro rfl
    rfl
  have hwhole : storage = storage.map fun _ => [] ++ storage.getD [] := by
    cases storage <;> rfl
  unfold copyTexts
  rw [hwhole]
  generalize storage.getD [] = block at *
  have hstart : (0 : ℕ) = ([] : List UInt8).length := rfl
  simp only
  rw [hstart, copyText_eq hname (by omega) (fun h => by have := hnone h; omega)]
  simp only [Check.ok_bind]
  rw [copyText_eq hversion (by rw [List.length_drop]; omega) (fun h => by have := hnone h; omega)]
  simp only [Check.ok_bind]
  rw [copyText_eq hbackend (by simp only [List.length_drop]; omega)
    (fun h => by have := hnone h; omega)]
  simp only [Check.ok_bind]
  rw [copyText_eq hbackendVersion (by simp only [List.length_drop]; omega)
    (fun h => by have := hnone h; omega)]
  simp only [Check.ok_bind]
  rw [copyText_eq hid (by simp only [List.length_drop]; omega)
    (fun h => by have := hnone h; omega)]
  simp only [Check.ok_bind]
  rw [copyText_eq hcomments (by simp only [List.length_drop]; omega)
    (fun h => by have := hnone h; omega)]
  refine ⟨_, ?_, congrArg Except.ok (congrArg (Prod.mk _) ?_)⟩
  · simp only [TextFields.toList, placeAll, List.length_append, ByteView.length_content hname,
      ByteView.length_content hversion, ByteView.length_content hbackend,
      ByteView.length_content hbackendVersion, ByteView.length_content hid, List.length_nil]
  · have hrest : block.drop (name.size + (version.size + (backend.size +
        (backendVersion.size + (id.size + comments.size))))) = [] :=
      List.drop_eq_nil_of_le (by omega)
    rw [Option.map_map]
    refine congrArg (fun fill => storage.map fill) (funext fun _ => ?_)
    simp only [List.drop_drop, joined, TextFields.toList, List.flatMap_cons, List.flatMap_nil,
      List.append_assoc, List.nil_append, Nat.add_assoc]
    rw [hrest]
    rfl

/-- Stored texts show what was copied. -/
theorem placeAll_content {sources : List ByteView} {front : List UInt8}
    (hbacked : ∀ source ∈ sources, Backed source) :
    List.Forall₂ (fun source text => text.size = source.size ∧
      StoredText.content (front ++ joined sources) text = source.content)
      sources (placeAll front.length sources) := by
  induction sources generalizing front with
  | nil => exact List.Forall₂.nil
  | cons source rest ih =>
      rw [List.forall_mem_cons] at hbacked
      have hlength := ByteView.length_content hbacked.1
      have hrest := @ih (front ++ source.content) hbacked.2
      rw [List.length_append, hlength] at hrest
      rw [joined, List.flatMap_cons, ← List.append_assoc]
      refine List.Forall₂.cons ⟨rfl, ?_⟩ hrest
      rw [placed, StoredText.content]
      split_ifs with hsize
      · exact (List.eq_nil_of_length_eq_zero (by omega)).symm
      · simp only
        rw [List.append_assoc, ← hlength, slice_append_middle]

/-- The parts of the storage the copies take tile it. -/
theorem placeAll_tiles (sources : List ByteView) (offset : ℕ) :
    Tiles Prod.fst Prod.snd offset (offset + (sources.map ByteView.size).sum)
      ((placeAll offset sources).filterMap StoredText.extent) := by
  induction sources generalizing offset with
  | nil => exact tiles_nil.mpr rfl
  | cons source rest ih =>
      have hrest := ih (offset + source.size)
      rw [List.map_cons, List.sum_cons, ← Nat.add_assoc, placeAll, List.filterMap_cons]
      unfold placed StoredText.extent
      by_cases hsize : source.size = 0
      · rw [if_pos hsize, hsize, Nat.add_zero]
        rw [hsize, Nat.add_zero] at hrest
        exact hrest
      · rw [if_neg hsize]
        exact tiles_cons.mpr ⟨rfl, by simp only; omega, hrest⟩

/-! ## What is accepted -/

/-- The computation commits no fault, rejects nothing and says whether the proposition holds. -/
def Decides {ε : Type} (c : Check ε Bool) (P : Prop) : Prop :=
  ∃ verdict, c = .ok verdict ∧ (verdict = true ↔ P)

/-- The rule of a text with a presence flag. -/
def TextRule (field : ByteView) (maximumSize : ℕ) (present : Bool) : Prop :=
  if present then field.size ≤ maximumSize ∧ Backed field ∧ WellFormed field.content
  else field.size = 0

/-- The rule of the source identifier. -/
def SourceIdRule (kind : ℕ) (field : ByteView) : Prop :=
  (kind = metadataSourceIdNone ∧ field.size = 0) ∨
    (kind = metadataSourceIdText ∧ field.size ≤ 1024 ∧ Backed field ∧ WellFormed field.content) ∨
    (kind = metadataSourceIdBytes ∧ field.size ≤ 1024 ∧ Backed field)

/-- The rules of a record. -/
structure MetadataRecord.Acceptable (record : MetadataRecord ByteView) : Prop where
  flags : record.flags &&& 4294967232 = 0
  reserved32 : ∀ word ∈ record.reserved32, word = 0
  reserved64 : ∀ word ∈ record.reserved64, word = 0
  producerName : TextRule record.texts.producerName 255
    (record.flags.testBit metadataProducerNamePresent)
  producerVersionString : TextRule record.texts.producerVersionString 127
    (record.flags.testBit metadataProducerVersionPresent)
  backendName : TextRule record.texts.backendName 255
    (record.flags.testBit metadataBackendNamePresent)
  backendVersion : TextRule record.texts.backendVersion 127
    (record.flags.testBit metadataBackendVersionPresent)
  comments : TextRule record.texts.comments 4096 (record.flags.testBit metadataCommentsPresent)
  applicationSourceId : SourceIdRule record.applicationSourceIdKind record.texts.applicationSourceId
  total : totalSize record.texts ≤ 8192

theorem MetadataRecord.acceptable_iff {record : MetadataRecord ByteView} : record.Acceptable ↔
    ¬(record.flags &&& 4294967232 ≠ 0 ∨ ¬(∀ word ∈ record.reserved32, word = 0) ∨
        ¬(∀ word ∈ record.reserved64, word = 0)) ∧
      (∀ field ∈ flaggedTexts record, TextRule field.1 field.2.1 field.2.2) ∧
      SourceIdRule record.applicationSourceIdKind record.texts.applicationSourceId ∧
      ¬8192 < totalSize record.texts := by
  simp only [flaggedTexts, List.forall_mem_cons, not_or, not_not, not_lt]
  constructor
  · rintro ⟨hflags, h32, h64, hname, hversion, hbackend, hbackendVersion, hcomments, hid, htotal⟩
    exact ⟨⟨hflags, h32, h64⟩, ⟨hname, hversion, hbackend, hbackendVersion, hcomments,
      fun _ h => absurd h List.not_mem_nil⟩, hid, htotal⟩
  · rintro ⟨⟨hflags, h32, h64⟩, ⟨hname, hversion, hbackend, hbackendVersion, hcomments, -⟩, hid,
      htotal⟩
    exact ⟨hflags, h32, h64, hname, hversion, hbackend, hbackendVersion, hcomments, hid, htotal⟩

section Rules

variable {ε : Type}

theorem decides_decide (P : Prop) [Decidable P] : Decides (.ok (decide P) : Check ε Bool) P :=
  ⟨_, rfl, decide_eq_true_iff⟩

theorem decides_false {P : Prop} (h : ¬P) : Decides (.ok false : Check ε Bool) P :=
  ⟨_, rfl, iff_of_false Bool.false_ne_true h⟩

/-- A check after another one decides both. -/
theorem Decides.and_then {c d : Check ε Bool} {P Q : Prop} (hc : Decides c P) (hd : Decides d Q) :
    Decides (do if ← c then d else return false) (P ∧ Q) := by
  obtain ⟨first, rfl, hfirst⟩ := hc
  cases first with
  | false => exact decides_false fun h => Bool.false_ne_true (hfirst.mpr h.1)
  | true => rwa [and_iff_right (hfirst.mp rfl)]

/-- A bound before a check decides both. -/
theorem Decides.bounded {c : Check ε Bool} {P : Prop} {bound : Prop} [Decidable bound]
    (h : bound → Decides c P) : Decides (if bound then c else .ok false) (bound ∧ P) := by
  split_ifs with hbound
  · rw [and_iff_right hbound]
    exact h hbound
  · exact decides_false fun h => hbound h.1

/-- The validator decides whether a view shows a well-formed string. -/
theorem utf8IsValid_decides {view : ByteView} (hsize : view.size ≤ 4294967293) :
    Decides (utf8IsValid view.data view.size : Check ε Bool)
      (Backed view ∧ WellFormed view.content) := by
  unfold Backed ByteView.content
  cases hdata : view.data with
  | none =>
      refine ⟨_, rfl, ?_⟩
      rw [decide_eq_true_iff]
      exact ⟨fun h => ⟨fun hne => absurd h hne, wellFormed_nil⟩,
        fun h => by_contra fun hne => h.1 hne rfl⟩
  | some bytes =>
      have hlength := view.sized bytes hdata
      rw [← hlength] at hsize ⊢
      refine ⟨_, utf8IsValid_eq hsize, ?_⟩
      rw [utf8Valid_iff, Option.getD_some]
      exact ⟨fun h => ⟨fun _ => Option.some_ne_none bytes, h⟩, And.right⟩

theorem textFieldIsValid_decides {field : ByteView} {maximumSize : ℕ} (present : Bool)
    (hmaximum : maximumSize ≤ 4294967293) :
    Decides (textFieldIsValid field maximumSize present : Check ε Bool)
      (TextRule field maximumSize present) := by
  cases present with
  | false => exact decides_decide _
  | true => exact Decides.bounded fun hsize => utf8IsValid_decides (hsize.trans hmaximum)

theorem textFieldsAreValid_decides {fields : List (ByteView × ℕ × Bool)}
    (hmaximum : ∀ field ∈ fields, field.2.1 ≤ 4294967293) :
    Decides (textFieldsAreValid fields : Check ε Bool)
      (∀ field ∈ fields, TextRule field.1 field.2.1 field.2.2) := by
  induction fields with
  | nil => exact ⟨_, rfl, iff_of_true rfl fun _ h => absurd h List.not_mem_nil⟩
  | cons field rest ih =>
      rw [List.forall_mem_cons] at hmaximum
      rw [List.forall_mem_cons]
      exact (textFieldIsValid_decides _ hmaximum.1).and_then (ih hmaximum.2)

theorem sourceIdIsValid_decides (kind : ℕ) (field : ByteView) :
    Decides (sourceIdIsValid kind field : Check ε Bool) (SourceIdRule kind field) := by
  unfold sourceIdIsValid SourceIdRule
  split_ifs with hnone htext hsize hbytes
  · subst hnone
    simpa using decides_decide (field.size = 0)
  · subst htext
    simpa [hsize] using utf8IsValid_decides (hsize.trans (by decide))
  · subst htext
    exact decides_false (by simp [hsize])
  · subst hbytes
    refine ⟨_, rfl, ?_⟩
    unfold Backed
    simp only [Bool.and_eq_true, Bool.or_eq_true, decide_eq_true_iff, Option.isSome_iff_ne_none]
    simp
    tauto
  · exact decides_false (by tauto)

/-- The validation measures the records that obey the rules, and commits no fault. -/
theorem metadataViewIsValid_eq (record : MetadataRecord ByteView) :
    ∃ measured, (metadataViewIsValid record : Check ε (Option ℕ)) = .ok measured ∧
      ∀ size, measured = some size ↔ record.Acceptable ∧ size = totalSize record.texts := by
  obtain ⟨textsVerdict, htexts, htextsIff⟩ := @textFieldsAreValid_decides ε
    (flaggedTexts record) (by simp [flaggedTexts])
  obtain ⟨sourceVerdict, hsource, hsourceIff⟩ := sourceIdIsValid_decides (ε := ε)
    record.applicationSourceIdKind record.texts.applicationSourceId
  simp only [MetadataRecord.acceptable_iff, ← htextsIff, ← hsourceIff]
  unfold metadataViewIsValid
  simp only [htexts, hsource, Check.ok_bind, Check.pure_eq_ok]
  by_cases hwords : record.flags &&& 4294967232 ≠ 0 ∨ ¬(∀ word ∈ record.reserved32, word = 0) ∨
      ¬(∀ word ∈ record.reserved64, word = 0)
  · rw [if_pos hwords]
    exact ⟨none, rfl, fun size => iff_of_false (nomatch ·) fun h => h.1.1 hwords⟩
  rw [if_neg hwords]
  cases textsVerdict with
  | false => exact ⟨none, rfl, fun size => iff_of_false (nomatch ·) fun h => nomatch h.1.2.1⟩
  | true =>
      cases sourceVerdict with
      | false => exact ⟨none, rfl, fun size => iff_of_false (nomatch ·) fun h => nomatch h.1.2.2.1⟩
      | true =>
          refine ⟨_, rfl, fun size => ?_⟩
          split_ifs with htotal
          · exact iff_of_false (nomatch ·) fun h => h.1.2.2.2 htotal
          · rw [Option.some_inj]
            exact ⟨fun h => ⟨⟨hwords, rfl, rfl, htotal⟩, h.symm⟩, fun h => h.2.symm⟩

end Rules

theorem TextRule.backed {field : ByteView} {maximumSize : ℕ} {present : Bool}
    (h : TextRule field maximumSize present) : Backed field := by
  cases present with
  | false => exact fun hne => absurd h hne
  | true => exact h.2.1

theorem SourceIdRule.backed {kind : ℕ} {field : ByteView} (h : SourceIdRule kind field) :
    Backed field := by
  rcases h with ⟨-, hsize⟩ | ⟨-, -, hbacked, -⟩ | ⟨-, -, hbacked⟩
  · exact fun hne => absurd hsize hne
  · exact hbacked
  · exact hbacked

/-- The texts of a record that obeys the rules may be read. -/
theorem MetadataRecord.Acceptable.backed {record : MetadataRecord ByteView}
    (h : record.Acceptable) : ∀ source ∈ record.texts.toList, Backed source := by
  simp only [TextFields.toList, List.forall_mem_cons]
  exact ⟨h.producerName.backed, h.producerVersionString.backed, h.backendName.backed,
    h.backendVersion.backed, h.applicationSourceId.backed, h.comments.backed,
    fun _ hmem => absurd hmem List.not_mem_nil⟩

/-! ## Both paths -/

/-- The parts of the storage the stored texts take. -/
def StoredMetadata.extents (stored : StoredMetadata) : List (ℕ × ℕ) :=
  stored.view.texts.toList.filterMap StoredText.extent

/-- The stored record has the sizes and contents of the texts of a record, in parts of the measured
storage that share no byte, and the other fields of the record. -/
structure StoredMetadata.Shows (stored : StoredMetadata) (record : MetadataRecord ByteView) :
    Prop where
  present : stored.present = 1
  measured : stored.storageSize = totalSize record.texts
  allocated : (stored.storage.getD []).length = stored.storageSize
  contents : List.Forall₂ (fun source text => text.size = source.size ∧
    StoredText.content (stored.storage.getD []) text = source.content)
    record.texts.toList stored.view.texts.toList
  inside : ∀ extent ∈ stored.extents, extent.2 ≤ stored.storageSize
  disjoint : stored.extents.Pairwise fun earlier later => earlier.2 ≤ later.1
  others : stored.view = { record with
    structSize := metadataRecordBytes
    apiVersion := interfaceVersion
    texts := stored.view.texts }

/-- The storage can be had. -/
def TextStorage.Grants (source : TextStorage) (size : ℕ) : Prop :=
  size = 0 ∨ source.grant size ≠ none

instance (source : TextStorage) (size : ℕ) : Decidable (source.Grants size) :=
  inferInstanceAs (Decidable (_ ∨ _))

/-- Both paths do the same. -/
theorem workspaceCopyInput_eq (source : TextStorage) (record : MetadataRecord ByteView) :
    workspaceCopyInput source record = copyFromInput source record := rfl

theorem length_joined {sources : List ByteView} (h : ∀ source ∈ sources, Backed source) :
    (joined sources).length = (sources.map ByteView.size).sum := by
  rw [joined, List.length_flatMap]
  exact congrArg List.sum
    (List.map_congr_left fun source hmem => ByteView.length_content (h source hmem))

/-- A record that obeys the rules is taken over. -/
theorem copyFromInput_accepted {record : MetadataRecord ByteView}
    (hheader : validateStruct metadataRecordBytes record.structSize record.apiVersion)
    (haccept : record.Acceptable) :
    ∃ stored : StoredMetadata, stored.Shows record ∧ ∀ source : TextStorage,
      copyFromInput source record =
        if source.Grants (totalSize record.texts) then .ok stored
        else Check.reject .outOfMemory := by
  have hbacked := haccept.backed
  have hlength := length_joined hbacked
  obtain ⟨measured, hmeasured, hiff⟩ := metadataViewIsValid_eq (ε := ErrorCode) record
  obtain rfl : measured = some (totalSize record.texts) := (hiff _).mpr ⟨haccept, rfl⟩
  obtain ⟨texts, htexts, -⟩ := @copyTexts_eq record.texts (some (joined record.texts.toList))
    hbacked hlength
  refine ⟨{
    view := { record with
      structSize := metadataRecordBytes
      apiVersion := interfaceVersion
      texts }
    storage := if totalSize record.texts = 0 then none else some (joined record.texts.toList)
    storageSize := totalSize record.texts
    present := 1 }, ?_, fun source => ?_⟩
  · have hkept : (if totalSize record.texts = 0 then none
        else some (joined record.texts.toList)).getD [] = joined record.texts.toList := by
      split_ifs with hzero
      · exact (List.eq_nil_of_length_eq_zero (hlength.trans hzero)).symm
      · rfl
    have htiles := placeAll_tiles record.texts.toList 0
    rw [Nat.zero_add, ← htexts] at htiles
    refine ⟨rfl, rfl, by rw [hkept, hlength, totalSize], ?_, fun extent hmem => ?_, ?_, rfl⟩
    · have hcontent := @placeAll_content record.texts.toList [] hbacked
      rw [hkept, htexts]
      exact hcontent
    · exact (htiles.bounds hmem).2.2
    · exact htiles.pairwise
  · rw [copyFromInput, copyValidatedView]
    have hsame : (metadataViewIsValid { record with structSize := metadataRecordBytes } :
      Check ErrorCode (Option ℕ)) = .ok (some (totalSize record.texts)) := hmeasured
    rw [hsame, (Check.rejectIf_eq_ok (u := ())).mpr (not_not.mpr hheader)]
    simp only [Check.ok_bind]
    unfold reserveTexts
    by_cases hzero : totalSize record.texts = 0
    · obtain ⟨other, hother, hcopy⟩ := @copyTexts_eq record.texts none hbacked hzero.symm
      obtain rfl := TextFields.toList_injective (hother.trans htexts.symm)
      have hgrants : source.Grants (totalSize record.texts) := .inl hzero
      rw [if_pos hzero, if_pos hzero, if_pos hgrants]
      simp only [Check.ok_bind, hcopy]
      rfl
    rw [if_neg hzero, if_neg hzero]
    cases hgrant : source.grant (totalSize record.texts) with
    | none =>
        have hrefused : ¬source.Grants (totalSize record.texts) :=
          not_or.mpr ⟨hzero, not_not.mpr hgrant⟩
        rw [if_neg hrefused]
        rfl
    | some block =>
        obtain ⟨other, hother, hcopy⟩ := @copyTexts_eq record.texts (some block) hbacked
          (source.sized _ block hgrant)
        obtain rfl := TextFields.toList_injective (hother.trans htexts.symm)
        have hgrants : source.Grants (totalSize record.texts) :=
          .inr fun hnone => Option.some_ne_none block (hgrant.symm.trans hnone)
        rw [if_pos hgrants]
        simp only [Check.ok_bind, hcopy]
        rfl

/-- A record with another header, or one that breaks a rule, is refused before any storage is asked
for. -/
theorem copyFromInput_refused (source : TextStorage) {record : MetadataRecord ByteView} :
    (¬validateStruct metadataRecordBytes record.structSize record.apiVersion →
      copyFromInput source record = Check.reject .incompatibleVersion) ∧
    (validateStruct metadataRecordBytes record.structSize record.apiVersion → ¬record.Acceptable →
      copyFromInput source record = Check.reject .invalidArgument) := by
  refine ⟨fun hheader => ?_, fun hheader hrefuse => ?_⟩
  · rw [copyFromInput, Check.rejectIf, if_pos hheader]
    rfl
  · obtain ⟨measured, hmeasured, hiff⟩ := metadataViewIsValid_eq (ε := ErrorCode) record
    obtain rfl : measured = none := by
      cases measured with
      | none => rfl
      | some size => exact absurd ((hiff size).mp rfl).1 hrefuse
    have hsame : (metadataViewIsValid { record with structSize := metadataRecordBytes } :
      Check ErrorCode (Option ℕ)) = .ok none := hmeasured
    rw [copyFromInput, copyValidatedView, hsame,
      (Check.rejectIf_eq_ok (u := ())).mpr (not_not.mpr hheader)]
    rfl

/-- The validator decides whether a string is well-formed wherever its index cannot wrap, and so on
every text of a record. The sessions on the heap and on a workspace give every record the same
answer, and store the same copies of a record they accept. -/
theorem metadata_paths :
    (∀ bytes : List UInt8, bytes.length ≤ 4294967293 →
      Decides (utf8IsValid (some bytes) bytes.length : Check ErrorCode Bool) (WellFormed bytes)) ∧
    ∀ record : MetadataRecord ByteView,
      (¬validateStruct metadataRecordBytes record.structSize record.apiVersion →
        ∀ heap workspace, copyFromInput heap record = Check.reject .incompatibleVersion ∧
          workspaceCopyInput workspace record = Check.reject .incompatibleVersion) ∧
      (validateStruct metadataRecordBytes record.structSize record.apiVersion →
        ¬record.Acceptable →
        ∀ heap workspace, copyFromInput heap record = Check.reject .invalidArgument ∧
          workspaceCopyInput workspace record = Check.reject .invalidArgument) ∧
      (validateStruct metadataRecordBytes record.structSize record.apiVersion → record.Acceptable →
        ∃ stored : StoredMetadata, stored.Shows record ∧ ∀ heap workspace,
          copyFromInput heap record = (if heap.Grants (totalSize record.texts) then .ok stored
            else Check.reject .outOfMemory) ∧
          workspaceCopyInput workspace record =
            (if workspace.Grants (totalSize record.texts) then .ok stored
              else Check.reject .outOfMemory)) := by
  simp only [workspaceCopyInput_eq]
  refine ⟨fun bytes hsize => ⟨_, utf8IsValid_eq hsize, utf8Valid_iff bytes⟩,
    fun record => ⟨fun hheader heap workspace => ?_, fun hheader hrefuse heap workspace => ?_,
      fun hheader haccept => ?_⟩⟩
  · exact ⟨(copyFromInput_refused heap).1 hheader, (copyFromInput_refused workspace).1 hheader⟩
  · exact ⟨(copyFromInput_refused heap).2 hheader hrefuse,
      (copyFromInput_refused workspace).2 hheader hrefuse⟩
  · obtain ⟨stored, hshows, hcopy⟩ := copyFromInput_accepted hheader haccept
    exact ⟨stored, hshows, fun heap workspace => ⟨hcopy heap, hcopy workspace⟩⟩

/-- On a string of `2 ^ 32 - 1` bytes the validator reads past the string. -/
theorem utf8IsValid_reads_past :
    ¬∀ bytes : List UInt8,
      Decides (utf8IsValid (some bytes) bytes.length : Check ErrorCode Bool) (WellFormed bytes) := by
  intro h
  obtain ⟨verdict, hverdict, -⟩ := h (lettersThenLead 4294967294)
  rw [utf8IsValid_wraps rfl] at hverdict
  cases hverdict

/-! ## Records as metadata -/

/-- What a record says: a text counts where its flag is set, the source identifier by its kind. -/
def MetadataRecord.toMetadata (record : MetadataRecord ByteView) : Metadata where
  producerName :=
    if record.flags.testBit metadataProducerNamePresent then some record.texts.producerName.content
    else none
  producerVersionString :=
    if record.flags.testBit metadataProducerVersionPresent then
      some record.texts.producerVersionString.content
    else none
  backendName :=
    if record.flags.testBit metadataBackendNamePresent then some record.texts.backendName.content
    else none
  backendVersion :=
    if record.flags.testBit metadataBackendVersionPresent then
      some record.texts.backendVersion.content
    else none
  creationUnixTime :=
    if record.flags.testBit metadataCreationTimePresent then some record.creationUnixTime else none
  applicationSourceId :=
    if record.applicationSourceIdKind = metadataSourceIdNone then none
    else if record.applicationSourceIdKind = metadataSourceIdText then
      some (.text record.texts.applicationSourceId.content)
    else some (.bytes record.texts.applicationSourceId.content)
  comments :=
    if record.flags.testBit metadataCommentsPresent then some record.texts.comments.content else none

theorem TextRule.textFieldValid {field : ByteView} {maximumSize : ℕ} {present : Bool}
    (h : TextRule field maximumSize present) :
    textFieldValid maximumSize (if present then some field.content else none) = true := by
  cases present with
  | false => rfl
  | true =>
      obtain ⟨hsize, hbacked, hvalid⟩ := h
      rw [if_pos rfl, LibApta.textFieldValid, Bool.and_eq_true, decide_eq_true_iff,
        ByteView.length_content hbacked, utf8Valid_iff]
      exact ⟨hsize, hvalid⟩

/-- What a record that obeys the rules says is valid metadata. -/
theorem MetadataRecord.Acceptable.isValid {record : MetadataRecord ByteView}
    (h : record.Acceptable) : record.toMetadata.isValid = true := by
  have hshown {field : ByteView} {maximumSize : ℕ} {present : Bool}
      (hrule : TextRule field maximumSize present) :
      ((if present then some field.content else none).getD []).length ≤ field.size := by
    have hlength := ByteView.length_content hrule.backed
    cases present with
    | false => exact Nat.zero_le _
    | true => exact hlength.le
  have hid : ((record.toMetadata.applicationSourceId.map SourceId.payload).getD []).length ≤
      record.texts.applicationSourceId.size := by
    have hlength := ByteView.length_content h.applicationSourceId.backed
    simp only [toMetadata]
    split_ifs
    · exact Nat.zero_le _
    · exact hlength.le
    · exact hlength.le
  have hstorage : record.toMetadata.storageSize ≤ 8192 := by
    have htotal := h.total
    simp only [totalSize, TextFields.toList, List.map_cons, List.map_nil, List.sum_cons,
      List.sum_nil] at htotal
    have hname := hshown h.producerName
    have hversion := hshown h.producerVersionString
    have hbackend := hshown h.backendName
    have hbackendVersion := hshown h.backendVersion
    have hcomments := hshown h.comments
    unfold Metadata.storageSize
    simp only [toMetadata] at hid ⊢
    omega
  simp only [Metadata.isValid, Bool.and_eq_true, decide_eq_true_iff]
  refine ⟨⟨⟨⟨⟨⟨h.producerName.textFieldValid, h.producerVersionString.textFieldValid⟩,
    h.backendName.textFieldValid⟩, h.backendVersion.textFieldValid⟩, h.comments.textFieldValid⟩,
    ?_⟩, hstorage⟩
  rcases h.applicationSourceId with ⟨hkind, -⟩ | ⟨hkind, hsize, hbacked, hvalid⟩ |
    ⟨hkind, hsize, hbacked⟩
  · simp [toMetadata, hkind]
  · simp [toMetadata, hkind, ByteView.length_content hbacked, hsize, utf8Valid_iff, hvalid]
  · simp [toMetadata, hkind, ByteView.length_content hbacked, hsize]

/-- The view of a text a reader shows. -/
def ByteView.ofBytes (content : List UInt8) : ByteView where
  data := if content = [] then none else some content
  size := content.length
  sized bytes hbytes := by
    split_ifs at hbytes
    · cases hbytes
    · rw [Option.mem_some_iff.mp hbytes]

@[simp] theorem ByteView.content_ofBytes (content : List UInt8) :
    (ofBytes content).content = content := by
  unfold ofBytes ByteView.content
  dsimp only
  split_ifs with hnil
  · exact hnil.symm
  · rfl

theorem ByteView.backed_ofBytes (content : List UInt8) : Backed (ofBytes content) := by
  intro hsize hnone
  have hnil : content ≠ [] := fun hnil => hsize (congrArg List.length hnil)
  simp [ofBytes, hnil] at hnone

/-- Presence flags. -/
def presenceFlags (name version backend backendVersion time comments : Bool) : ℕ :=
  name.toNat + 2 * version.toNat + 4 * backend.toNat + 8 * backendVersion.toNat + 16 * time.toNat +
    32 * comments.toNat

theorem testBit_presenceFlags : ∀ name version backend backendVersion time comments : Bool,
    let flags := presenceFlags name version backend backendVersion time comments
    flags.testBit metadataProducerNamePresent = name ∧
      flags.testBit metadataProducerVersionPresent = version ∧
      flags.testBit metadataBackendNamePresent = backend ∧
      flags.testBit metadataBackendVersionPresent = backendVersion ∧
      flags.testBit metadataCreationTimePresent = time ∧
      flags.testBit metadataCommentsPresent = comments := by
  decide

/-- The record that says what metadata says, as the reader of a payload builds it. -/
def Metadata.toRecord (metadata : Metadata) : MetadataRecord ByteView where
  structSize := metadataRecordBytes
  apiVersion := interfaceVersion
  texts := {
    producerName := .ofBytes (metadata.producerName.getD [])
    producerVersionString := .ofBytes (metadata.producerVersionString.getD [])
    backendName := .ofBytes (metadata.backendName.getD [])
    backendVersion := .ofBytes (metadata.backendVersion.getD [])
    applicationSourceId := .ofBytes ((metadata.applicationSourceId.map SourceId.payload).getD [])
    comments := .ofBytes (metadata.comments.getD []) }
  creationUnixTime := metadata.creationUnixTime.getD 0
  applicationSourceIdKind :=
    match metadata.applicationSourceId with
    | none => metadataSourceIdNone
    | some (.text _) => metadataSourceIdText
    | some (.bytes _) => metadataSourceIdBytes
  flags := presenceFlags metadata.producerName.isSome metadata.producerVersionString.isSome
    metadata.backendName.isSome metadata.backendVersion.isSome metadata.creationUnixTime.isSome
    metadata.comments.isSome
  reserved32 := [0, 0, 0, 0]
  reserved64 := [0, 0]

theorem ite_isSome_getD {α : Type} (a : Option α) (b : α) :
    (if a.isSome then some (a.getD b) else none) = a := by
  cases a <;> rfl

@[simp] theorem Metadata.toMetadata_toRecord (metadata : Metadata) :
    metadata.toRecord.toMetadata = metadata := by
  obtain ⟨hname, hversion, hbackend, hbackendVersion, htime, hcomments⟩ := testBit_presenceFlags
    metadata.producerName.isSome metadata.producerVersionString.isSome metadata.backendName.isSome
    metadata.backendVersion.isSome metadata.creationUnixTime.isSome metadata.comments.isSome
  unfold MetadataRecord.toMetadata toRecord
  simp only [hname, hversion, hbackend, hbackendVersion, htime, hcomments, ByteView.content_ofBytes,
    ite_isSome_getD]
  obtain ⟨_, _, _, _, _, sourceId, _⟩ := metadata
  rcases sourceId with _ | _ | _ <;> rfl

theorem presenceFlags_mask : ∀ name version backend backendVersion time comments : Bool,
    presenceFlags name version backend backendVersion time comments &&& 4294967232 = 0 := by
  decide

theorem textRule_ofBytes {maximumSize : ℕ} {field : Option (List UInt8)}
    (h : textFieldValid maximumSize field = true) :
    TextRule (.ofBytes (field.getD [])) maximumSize field.isSome := by
  cases field with
  | none => exact (rfl : (ByteView.ofBytes []).size = 0)
  | some content =>
      rw [textFieldValid, Bool.and_eq_true, decide_eq_true_iff, utf8Valid_iff] at h
      refine ⟨h.1, ByteView.backed_ofBytes _, ?_⟩
      rw [ByteView.content_ofBytes]
      exact h.2

/-- The record of valid metadata obeys the rules. -/
theorem Metadata.toRecord_acceptable {metadata : Metadata} (h : metadata.isValid = true) :
    metadata.toRecord.Acceptable := by
  obtain ⟨hname, hversion, hbackend, hbackendVersion, -, hcomments⟩ := testBit_presenceFlags
    metadata.producerName.isSome metadata.producerVersionString.isSome metadata.backendName.isSome
    metadata.backendVersion.isSome metadata.creationUnixTime.isSome metadata.comments.isSome
  simp only [Metadata.isValid, Bool.and_eq_true, decide_eq_true_iff] at h
  obtain ⟨⟨⟨⟨⟨⟨hvalidName, hvalidVersion⟩, hvalidBackend⟩, hvalidBackendVersion⟩, hvalidComments⟩,
    hid⟩, hstorage⟩ := h
  refine ⟨presenceFlags_mask _ _ _ _ _ _, by simp [toRecord], by simp [toRecord], ?_, ?_, ?_, ?_, ?_,
    ?_, ?_⟩
  · simpa only [toRecord, hname] using textRule_ofBytes hvalidName
  · simpa only [toRecord, hversion] using textRule_ofBytes hvalidVersion
  · simpa only [toRecord, hbackend] using textRule_ofBytes hvalidBackend
  · simpa only [toRecord, hbackendVersion] using textRule_ofBytes hvalidBackendVersion
  · simpa only [toRecord, hcomments] using textRule_ofBytes hvalidComments
  · unfold toRecord
    rcases hsource : metadata.applicationSourceId with _ | content | content
    · exact .inl ⟨rfl, rfl⟩
    all_goals rw [hsource] at hid
    · simp only [Bool.and_eq_true, decide_eq_true_iff, utf8Valid_iff] at hid
      refine .inr (.inl ⟨rfl, hid.1, ByteView.backed_ofBytes _, ?_⟩)
      simpa [SourceId.payload] using hid.2
    · exact .inr (.inr ⟨rfl, of_decide_eq_true hid, ByteView.backed_ofBytes _⟩)
  · unfold Metadata.storageSize at hstorage
    simp only [totalSize, toRecord, TextFields.toList, ByteView.ofBytes, List.map_cons,
      List.map_nil, List.sum_cons, List.sum_nil]
    omega

end LibApta
