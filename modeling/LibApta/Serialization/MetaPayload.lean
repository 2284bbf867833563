import LibApta.Serialization.Format

/-!
# The metadata payload

The `META` payload is a CBOR map from small numbers to texts, a time and a source identifier. The
reader walks a cursor over the payload; every step tests the bytes left before it takes any. Keys
must increase, unknown keys are skipped with bounded depth and a bounded number of items.
-/

namespace LibApta.Container

open LittleEndian

/-! ## Cursor -/

/-- The bytes left of a payload and the items visited while skipping. -/
structure MetaCursor where
  rest : Bytes
  visitedItems : ℕ
deriving DecidableEq

/-- Bounds of the reader. -/
abbrev metaMaxMapItems : ℕ := 64
@[inherit_doc metaMaxMapItems] abbrev metaMaxCborDepth : ℕ := 8
@[inherit_doc metaMaxMapItems] abbrev metaMaxCborItems : ℕ := 256
@[inherit_doc metaMaxMapItems] abbrev metadataMaxTotalBytes : ℕ := 8192

/-- The number bytes denote, most significant byte first. -/
def bigEndian (bytes : Bytes) : ℕ := number bytes.reverse

/-- Take bytes, if so many are left. -/
def metaTake (size : ℕ) (cursor : MetaCursor) : Check ErrorCode (Bytes × MetaCursor) := do
  Check.rejectIf (cursor.rest.length < size) .corruptData
  let data ← Check.view cursor.rest 0 size
  return (data, { cursor with rest := cursor.rest.drop size })

/-- The bytes an argument takes after its head byte, and the smallest number that needs them. -/
def argumentForm (additional : ℕ) : Option (ℕ × ℕ) :=
  if additional = 24 then some (1, 24)
  else if additional = 25 then some (2, 256)
  else if additional = 26 then some (4, 65536)
  else if additional = 27 then some (8, 4294967296)
  else none

/-- Read the argument of a head byte; a number must take the fewest bytes that hold it. -/
def metaReadArgument (additional : ℕ) (cursor : MetaCursor) :
    Check ErrorCode (ℕ × MetaCursor) :=
  if additional < 24 then .ok (additional, cursor)
  else
    match argumentForm additional with
    | none => Check.reject .corruptData
    | some (width, minimum) => do
        let (data, cursor) ← metaTake width cursor
        Check.rejectIf (bigEndian data < minimum) .corruptData
        return (bigEndian data, cursor)

/-- Take the next byte. -/
def metaNextByte (cursor : MetaCursor) : Check ErrorCode (ℕ × MetaCursor) := do
  Check.rejectIf (cursor.rest = []) .corruptData
  let byte ← Check.read 1 cursor.rest 0
  return (byte, { cursor with rest := cursor.rest.drop 1 })

/-- Read a head: the major type and the argument. -/
def metaReadHead (cursor : MetaCursor) : Check ErrorCode ((ℕ × ℕ) × MetaCursor) := do
  let (initial, cursor) ← metaNextByte cursor
  let (value, cursor) ← metaReadArgument (initial % 32) cursor
  return ((initial / 32, value), cursor)

/-- Skip a simple value or a floating-point number. -/
def metaSkipSimple (additional : ℕ) (cursor : MetaCursor) : Check ErrorCode MetaCursor :=
  if additional < 24 then .ok cursor
  else if additional = 24 then do
    let (data, cursor) ← metaTake 1 cursor
    Check.rejectIf (bigEndian data < 32) .corruptData
    return cursor
  else
    match argumentForm additional with
    | none => Check.reject .corruptData
    | some (width, _) => do
        let (_, cursor) ← metaTake width cursor
        return cursor

/-- Skip an item. `fuel` is the nesting that is left: the depth may not exceed its bound. -/
def metaSkipItem : ℕ → MetaCursor → Check ErrorCode MetaCursor
  | 0, _ => Check.reject .corruptData
  | fuel + 1, cursor => do
      Check.rejectIf (cursor.rest = [] ∨ metaMaxCborItems ≤ cursor.visitedItems) .corruptData
      let visited := { cursor with visitedItems := cursor.visitedItems + 1 }
      let (initial, cursor) ← metaNextByte visited
      let major := initial / 32
      if major = 7 then metaSkipSimple (initial % 32) cursor
      else do
        let (value, cursor) ← metaReadArgument (initial % 32) cursor
        if major = 0 ∨ major = 1 then return cursor
        else if major = 2 ∨ major = 3 then do
          Check.rejectIf (metadataMaxTotalBytes < value) .corruptData
          let (_, cursor) ← metaTake value cursor
          return cursor
        else if major = 4 then do
          Check.rejectIf (metaMaxCborItems < value) .corruptData
          Check.loop (fun _ cursor => metaSkipItem fuel cursor) 0 value cursor
        else if major = 5 then do
          Check.rejectIf (metaMaxCborItems / 2 < value) .corruptData
          Check.loop (fun _ cursor => metaSkipItem fuel cursor >>= metaSkipItem fuel) 0 value cursor
        else metaSkipItem fuel cursor

/-- Read a text of bounded size. -/
def metaReadText (maximumSize : ℕ) (cursor : MetaCursor) :
    Check ErrorCode (Bytes × MetaCursor) := do
  let ((major, size), cursor) ← metaReadHead cursor
  Check.rejectIf (major ≠ 3 ∨ maximumSize < size) .corruptData
  metaTake size cursor

/-- Read the source identifier: a byte string or a text. -/
def metaReadSourceId (cursor : MetaCursor) : Check ErrorCode (SourceId × MetaCursor) := do
  let ((major, size), cursor) ← metaReadHead cursor
  Check.rejectIf ((major ≠ 2 ∧ major ≠ 3) ∨ 1024 < size) .corruptData
  let (data, cursor) ← metaTake size cursor
  return (if major = 3 then .text data else .bytes data, cursor)

/-! ## Map -/

/-- Metadata without any field. -/
def emptyMetadata : Metadata := ⟨none, none, none, none, none, none, none⟩

/-- The state of the walk over the map. -/
structure MetaState where
  cursor : MetaCursor
  previousKey : Option ℕ
  metadata : Metadata
deriving DecidableEq

/-- Read the value of a key. -/
def metaReadValue (key : ℕ) (metadata : Metadata) (cursor : MetaCursor) :
    Check ErrorCode (Metadata × MetaCursor) :=
  match key with
  | 1 => do
      let (text, cursor) ← metaReadText 255 cursor
      return ({ metadata with producerName := some text }, cursor)
  | 2 => do
      let (text, cursor) ← metaReadText 127 cursor
      return ({ metadata with producerVersionString := some text }, cursor)
  | 3 => do
      let (text, cursor) ← metaReadText 255 cursor
      return ({ metadata with backendName := some text }, cursor)
  | 4 => do
      let (text, cursor) ← metaReadText 127 cursor
      return ({ metadata with backendVersion := some text }, cursor)
  | 5 => do
      let ((major, value), cursor) ← metaReadHead cursor
      Check.rejectIf (major ≠ 0) .corruptData
      return ({ metadata with creationUnixTime := some value }, cursor)
  | 6 => do
      let (sourceId, cursor) ← metaReadSourceId cursor
      return ({ metadata with applicationSourceId := some sourceId }, cursor)
  | 7 => do
      let (text, cursor) ← metaReadText 4096 cursor
      return ({ metadata with comments := some text }, cursor)
  | _ => do
      let cursor ← metaSkipItem metaMaxCborDepth cursor
      return (metadata, cursor)

/-- Read one key and its value. -/
def metaReadEntry (_index : ℕ) (state : MetaState) : Check ErrorCode MetaState := do
  let ((major, key), cursor) ← metaReadHead state.cursor
  Check.rejectIf (major ≠ 0 ∨ ¬ ∀ previous ∈ state.previousKey, previous < key) .corruptData
  let (metadata, cursor) ← metaReadValue key state.metadata cursor
  return ⟨cursor, some key, metadata⟩

/-- Read a metadata payload. -/
def metaParsePayload (payload : Bytes) : Check ErrorCode Metadata := do
  let ((major, count), cursor) ← metaReadHead ⟨payload, 0⟩
  Check.rejectIf (major ≠ 5 ∨ metaMaxMapItems < count) .corruptData
  let state ← Check.loop metaReadEntry 0 count ⟨cursor, none, emptyMetadata⟩
  Check.rejectIf (state.cursor.rest ≠ []) .corruptData
  return state.metadata

/-! ## Absence of faults -/

theorem metaTake_safe (size : ℕ) (cursor : MetaCursor) : Check.Safe (metaTake size cursor) := by
  simp only [metaTake, Check.safe_bind_iff, Check.safe_rejectIf, Check.rejectIf_eq_ok,
    Check.safe_view, Check.safe_ok, Check.pure_eq_ok, true_and, and_true, implies_true, not_lt]
  intro _ h
  omega

theorem metaNextByte_safe (cursor : MetaCursor) : Check.Safe (metaNextByte cursor) := by
  simp only [metaNextByte, Check.safe_bind_iff, Check.safe_rejectIf, Check.rejectIf_eq_ok,
    Check.safe_read, Check.safe_ok, Check.pure_eq_ok, true_and, and_true, implies_true]
  intro _ h
  have hpos := List.length_pos_iff.mpr h
  omega

theorem metaReadArgument_safe (additional : ℕ) (cursor : MetaCursor) :
    Check.Safe (metaReadArgument additional cursor) := by
  unfold metaReadArgument
  split
  case isTrue => exact Check.safe_ok _
  case isFalse =>
    split
    case h_1 => exact Check.safe_reject _
    case h_2 =>
      exact Check.safe_bind (metaTake_safe _ _) fun _ _ =>
        Check.safe_bind (Check.safe_rejectIf _ _) fun _ _ => Check.safe_ok _

theorem metaReadHead_safe (cursor : MetaCursor) : Check.Safe (metaReadHead cursor) :=
  Check.safe_bind (metaNextByte_safe _) fun _ _ =>
    Check.safe_bind (metaReadArgument_safe _ _) fun _ _ => Check.safe_ok _

theorem metaSkipSimple_safe (additional : ℕ) (cursor : MetaCursor) :
    Check.Safe (metaSkipSimple additional cursor) := by
  unfold metaSkipSimple
  split
  case isTrue => exact Check.safe_ok _
  case isFalse =>
    split
    case isTrue =>
      exact Check.safe_bind (metaTake_safe _ _) fun _ _ =>
        Check.safe_bind (Check.safe_rejectIf _ _) fun _ _ => Check.safe_ok _
    case isFalse =>
      split
      case h_1 => exact Check.safe_reject _
      case h_2 => exact Check.safe_bind (metaTake_safe _ _) fun _ _ => Check.safe_ok _

theorem metaSkipItem_safe (fuel : ℕ) (cursor : MetaCursor) :
    Check.Safe (metaSkipItem fuel cursor) := by
  induction fuel generalizing cursor with
  | zero => exact Check.safe_reject _
  | succ fuel ih =>
      rw [metaSkipItem]
      refine Check.safe_bind (Check.safe_rejectIf _ _) fun _ _ =>
        Check.safe_bind (metaNextByte_safe _) fun ⟨initial, next⟩ _ => ?_
      dsimp only
      split
      case isTrue => exact metaSkipSimple_safe _ _
      refine Check.safe_bind (metaReadArgument_safe _ _) fun ⟨value, after⟩ _ => ?_
      dsimp only
      split
      case isTrue => exact Check.safe_ok _
      split
      case isTrue =>
        exact Check.safe_bind (Check.safe_rejectIf _ _) fun _ _ =>
          Check.safe_bind (metaTake_safe _ _) fun _ _ => Check.safe_ok _
      split
      case isTrue =>
        exact Check.safe_bind (Check.safe_rejectIf _ _) fun _ _ =>
          Check.safe_loop _ _ _ fun _ s => ih s
      split
      case isTrue =>
        exact Check.safe_bind (Check.safe_rejectIf _ _) fun _ _ =>
          Check.safe_loop _ _ _ fun _ s => Check.safe_bind (ih s) fun s' _ => ih s'
      case isFalse => exact ih _

theorem metaReadText_safe (maximumSize : ℕ) (cursor : MetaCursor) :
    Check.Safe (metaReadText maximumSize cursor) :=
  Check.safe_bind (metaReadHead_safe _) fun _ _ =>
    Check.safe_bind (Check.safe_rejectIf _ _) fun _ _ => metaTake_safe _ _

theorem metaReadSourceId_safe (cursor : MetaCursor) : Check.Safe (metaReadSourceId cursor) :=
  Check.safe_bind (metaReadHead_safe _) fun _ _ =>
    Check.safe_bind (Check.safe_rejectIf _ _) fun _ _ =>
      Check.safe_bind (metaTake_safe _ _) fun _ _ => Check.safe_ok _

theorem metaReadValue_safe (key : ℕ) (metadata : Metadata) (cursor : MetaCursor) :
    Check.Safe (metaReadValue key metadata cursor) := by
  unfold metaReadValue
  split
  case h_5 =>
    exact Check.safe_bind (metaReadHead_safe _) fun _ _ =>
      Check.safe_bind (Check.safe_rejectIf _ _) fun _ _ => Check.safe_ok _
  case h_6 => exact Check.safe_bind (metaReadSourceId_safe _) fun _ _ => Check.safe_ok _
  case h_8 => exact Check.safe_bind (metaSkipItem_safe _ _) fun _ _ => Check.safe_ok _
  all_goals exact Check.safe_bind (metaReadText_safe _ _) fun _ _ => Check.safe_ok _

theorem metaReadEntry_safe (index : ℕ) (state : MetaState) :
    Check.Safe (metaReadEntry index state) :=
  Check.safe_bind (metaReadHead_safe _) fun _ _ =>
    Check.safe_bind (Check.safe_rejectIf _ _) fun _ _ =>
      Check.safe_bind (metaReadValue_safe _ _ _) fun _ _ => Check.safe_ok _

/-- The reader of a metadata payload stays inside it. -/
theorem metaParsePayload_safe (payload : Bytes) : Check.Safe (metaParsePayload payload) :=
  Check.safe_bind (metaReadHead_safe _) fun _ _ =>
    Check.safe_bind (Check.safe_rejectIf _ _) fun _ _ =>
      Check.safe_bind (Check.safe_loop _ _ _ metaReadEntry_safe) fun _ _ =>
        Check.safe_bind (Check.safe_rejectIf _ _) fun _ _ => Check.safe_ok _

/-! ## Sizes of the texts -/

/-- The texts are as short as the reader wants them. -/
structure ShortTexts (metadata : Metadata) : Prop where
  producerName : (metadata.producerName.getD []).length ≤ 255
  producerVersionString : (metadata.producerVersionString.getD []).length ≤ 127
  backendName : (metadata.backendName.getD []).length ≤ 255
  backendVersion : (metadata.backendVersion.getD []).length ≤ 127
  applicationSourceId :
    ((metadata.applicationSourceId.map SourceId.payload).getD []).length ≤ 1024
  comments : (metadata.comments.getD []).length ≤ 4096

theorem metaTake_length {size : ℕ} {cursor : MetaCursor} {taken : Bytes × MetaCursor}
    (h : metaTake size cursor = .ok taken) : taken.1.length = size := by
  simp only [metaTake, Check.bind_eq_ok, Check.rejectIf_eq_ok, Check.view_eq_ok, Check.pure_eq_ok,
    Except.ok.injEq, exists_const] at h
  obtain ⟨-, data, ⟨hfits, rfl⟩, rfl⟩ := h
  exact length_slice hfits

theorem metaReadText_length {maximumSize : ℕ} {cursor : MetaCursor} {read : Bytes × MetaCursor}
    (h : metaReadText maximumSize cursor = .ok read) : read.1.length ≤ maximumSize := by
  simp only [metaReadText, Check.bind_eq_ok, Check.rejectIf_eq_ok, exists_const, not_or,
    not_lt] at h
  obtain ⟨⟨⟨major, size⟩, next⟩, -, ⟨-, hsize⟩, htake⟩ := h
  exact (metaTake_length htake).le.trans hsize

theorem metaReadSourceId_length {cursor : MetaCursor} {read : SourceId × MetaCursor}
    (h : metaReadSourceId cursor = .ok read) : read.1.payload.length ≤ 1024 := by
  simp only [metaReadSourceId, Check.bind_eq_ok, Check.rejectIf_eq_ok, exists_const, not_or,
    not_lt] at h
  obtain ⟨⟨⟨major, size⟩, next⟩, -, ⟨-, hsize⟩, ⟨data, after⟩, htake, hread⟩ := h
  obtain rfl := Except.ok.inj hread
  have hlength := metaTake_length htake
  dsimp only at hlength hsize ⊢
  split
  all_goals
    show data.length ≤ 1024
    omega

/-- A value leaves the texts short. -/
theorem metaReadValue_short {key : ℕ} {metadata : Metadata} {cursor : MetaCursor}
    {read : Metadata × MetaCursor} (h : metaReadValue key metadata cursor = .ok read)
    (hshort : ShortTexts metadata) : ShortTexts read.1 := by
  unfold metaReadValue at h
  split at h
  all_goals obtain ⟨⟨value, next⟩, hvalue, hread⟩ := Check.bind_eq_ok.mp h
  case h_1 =>
    obtain rfl := Except.ok.inj hread
    exact { hshort with producerName := metaReadText_length hvalue }
  case h_2 =>
    obtain rfl := Except.ok.inj hread
    exact { hshort with producerVersionString := metaReadText_length hvalue }
  case h_3 =>
    obtain rfl := Except.ok.inj hread
    exact { hshort with backendName := metaReadText_length hvalue }
  case h_4 =>
    obtain rfl := Except.ok.inj hread
    exact { hshort with backendVersion := metaReadText_length hvalue }
  case h_5 =>
    obtain ⟨_, -, hread⟩ := Check.bind_eq_ok.mp hread
    obtain rfl := Except.ok.inj hread
    exact { hshort with }
  case h_6 =>
    obtain rfl := Except.ok.inj hread
    exact { hshort with applicationSourceId := metaReadSourceId_length hvalue }
  case h_7 =>
    obtain rfl := Except.ok.inj hread
    exact { hshort with comments := metaReadText_length hvalue }
  case h_8 =>
    obtain rfl := Except.ok.inj hread
    exact hshort

/-- The texts of the metadata of a payload are short. -/
theorem metaParsePayload_short {payload : Bytes} {metadata : Metadata}
    (h : metaParsePayload payload = .ok metadata) : ShortTexts metadata := by
  simp only [metaParsePayload, Check.bind_eq_ok, Check.rejectIf_eq_ok, exists_const,
    Check.pure_eq_ok, Except.ok.injEq] at h
  obtain ⟨⟨⟨major, count⟩, cursor⟩, -, -, state, hloop, -, rfl⟩ := h
  refine Check.loop_invariant (P := fun state : MetaState => ShortTexts state.metadata) hloop ?_ ?_
  · exact ⟨Nat.zero_le _, Nat.zero_le _, Nat.zero_le _, Nat.zero_le _, Nat.zero_le _, Nat.zero_le _⟩
  · intro index state next hshort hentry
    simp only [metaReadEntry, Check.bind_eq_ok, Check.rejectIf_eq_ok, exists_const] at hentry
    obtain ⟨⟨⟨_, key⟩, _⟩, -, -, ⟨read, after⟩, hvalue, hnext⟩ := hentry
    obtain rfl := Except.ok.inj hnext
    exact metaReadValue_short hvalue hshort

theorem ShortTexts.storageSize_le {metadata : Metadata} (h : ShortTexts metadata) :
    metadata.storageSize ≤ 5884 := by
  obtain ⟨h1, h2, h3, h4, h5, h6⟩ := h
  rw [Metadata.storageSize]
  omega

end LibApta.Container
