import LibApta.Serialization.MetaCbor
import Mathlib.Data.List.Sort

/-!
# The payloads the metadata reader accepts

A payload is accepted exactly where it is the encoding of a map from increasing numbers to values,
with a text, a time or an identifier of bounded size under each known key and an item that may be
skipped under each other one (`metaParsePayload_iff`). The values under the unknown keys are where
the reader is weaker than the deterministic encoding asks: it does not look at the order of the keys
of a map in such a value, nor into a text.
-/

namespace LibApta.Container

open LittleEndian Cbor

/-! ## Entries -/

/-- What an entry says about the metadata. -/
def metaAssign (metadata : Metadata) : ℕ × Item → Metadata
  | (1, .text content) => { metadata with producerName := some content }
  | (2, .text content) => { metadata with producerVersionString := some content }
  | (3, .text content) => { metadata with backendName := some content }
  | (4, .text content) => { metadata with backendVersion := some content }
  | (5, .unsigned value) => { metadata with creationUnixTime := some value }
  | (6, .text content) => { metadata with applicationSourceId := some (.text content) }
  | (6, .bytes content) => { metadata with applicationSourceId := some (.bytes content) }
  | (7, .text content) => { metadata with comments := some content }
  | _ => metadata

/-- A text of bounded size. -/
def TextItem (maximumSize : ℕ) (item : Item) : Prop :=
  ∃ content, item = .text content ∧ content.length ≤ maximumSize

/-- The values the reader takes under a key. -/
def ValueRule (key : ℕ) (item : Item) : Prop :=
  match key with
  | 1 => TextItem 255 item
  | 2 => TextItem 127 item
  | 3 => TextItem 255 item
  | 4 => TextItem 127 item
  | 5 => ∃ value, item = .unsigned value ∧ value < 18446744073709551616
  | 6 => ∃ content, (item = .text content ∨ item = .bytes content) ∧ content.length ≤ 1024
  | 7 => TextItem 4096 item
  | _ => Skippable metaMaxCborDepth item

/-- A key with a meaning. -/
def Recognized (key : ℕ) : Prop := 1 ≤ key ∧ key ≤ 7

instance (key : ℕ) : Decidable (Recognized key) := inferInstanceAs (Decidable (_ ∧ _))

/-- The items that are visited for an entry. -/
def visitedFor (entry : ℕ × Item) : ℕ :=
  if Recognized entry.1 then 0 else entry.2.subitems.length

theorem valueRule_unknown {key : ℕ} (h : ¬Recognized key) (item : Item) :
    ValueRule key item ↔ Skippable metaMaxCborDepth item := by
  unfold ValueRule
  split
  case h_8 => exact Iff.rfl
  all_goals exact absurd (by decide) h

theorem metaAssign_unknown {key : ℕ} (h : ¬Recognized key) (metadata : Metadata) (item : Item) :
    metaAssign metadata (key, item) = metadata := by
  unfold metaAssign
  split
  case h_9 => rfl
  all_goals
    rename_i heq
    obtain ⟨rfl, -⟩ := Prod.mk.inj heq
    exact absurd (by decide) h

/-- A text is read where the bytes start with its encoding. -/
theorem metaReadText_iff {maximumSize visited visited' : ℕ} {rest content rest' : Bytes}
    (hmaximum : maximumSize < 18446744073709551616) :
    metaReadText maximumSize ⟨rest, visited⟩ = .ok (content, ⟨rest', visited'⟩) ↔
      content.length ≤ maximumSize ∧ rest = (Item.text content).encode ++ rest' ∧
        visited' = visited := by
  simp only [metaReadText, Check.bind_eq_ok, Check.rejectIf_eq_ok, exists_const, not_or, not_not,
    not_lt]
  constructor
  · rintro ⟨⟨⟨major, size⟩, middle, between⟩, hhead, ⟨rfl, hsize⟩, htake⟩
    obtain ⟨-, rfl, rfl⟩ := metaReadHead_iff.mp hhead
    obtain ⟨rfl, rfl, rfl⟩ := metaTake_iff.mp htake
    exact ⟨hsize, (List.append_assoc _ _ _).symm, rfl⟩
  · rintro ⟨hsize, rfl, rfl⟩
    refine ⟨((3, content.length), ⟨content ++ rest', visited'⟩),
      metaReadHead_iff.mpr ⟨⟨by omega, by omega⟩, ?_, rfl⟩, ⟨rfl, hsize⟩,
      metaTake_iff.mpr ⟨rfl, rfl, rfl⟩⟩
    exact List.append_assoc _ _ _

/-- A source identifier is read where the bytes start with the encoding of its string. -/
theorem metaReadSourceId_iff {visited visited' : ℕ} {rest rest' : Bytes} {sourceId : SourceId} :
    metaReadSourceId ⟨rest, visited⟩ = .ok (sourceId, ⟨rest', visited'⟩) ↔
      ∃ item : Item, ((item = .text sourceId.payload ∧ sourceId = .text sourceId.payload) ∨
          (item = .bytes sourceId.payload ∧ sourceId = .bytes sourceId.payload)) ∧
        sourceId.payload.length ≤ 1024 ∧ rest = item.encode ++ rest' ∧ visited' = visited := by
  simp only [metaReadSourceId, Check.bind_eq_ok, Check.rejectIf_eq_ok, exists_const, not_or, not_not,
    not_and, not_lt, Check.pure_eq_ok, Except.ok.injEq, Prod.mk.injEq]
  constructor
  · rintro ⟨⟨⟨major, size⟩, middle, between⟩, hhead, ⟨hmajor, hsize⟩, ⟨data, after⟩, htake, rfl,
      rfl⟩
    obtain ⟨-, rfl, rfl⟩ := metaReadHead_iff.mp hhead
    obtain ⟨rfl, rfl, rfl⟩ := metaTake_iff.mp htake
    dsimp only at hmajor hsize ⊢
    by_cases hthree : major = 3
    · subst hthree
      exact ⟨.text data, .inl ⟨rfl, rfl⟩, hsize, (List.append_assoc _ _ _).symm, rfl⟩
    · have htwo : major = 2 := by
        by_contra hne
        exact hthree (hmajor hne)
      subst htwo
      exact ⟨.bytes data, .inr ⟨rfl, rfl⟩, hsize, (List.append_assoc _ _ _).symm, rfl⟩
  · rintro ⟨item, hitem, hsize, rfl, rfl⟩
    rcases hitem with ⟨rfl, hid⟩ | ⟨rfl, hid⟩
    · refine ⟨((3, sourceId.payload.length), ⟨sourceId.payload ++ rest', visited'⟩),
        metaReadHead_iff.mpr ⟨⟨by omega, by omega⟩, ?_, rfl⟩, ⟨fun _ => rfl, hsize⟩,
        (sourceId.payload, ⟨rest', visited'⟩), metaTake_iff.mpr ⟨rfl, rfl, rfl⟩, hid.symm, rfl⟩
      exact List.append_assoc _ _ _
    · refine ⟨((2, sourceId.payload.length), ⟨sourceId.payload ++ rest', visited'⟩),
        metaReadHead_iff.mpr ⟨⟨by omega, by omega⟩, ?_, rfl⟩, ⟨fun h => absurd rfl h, hsize⟩,
        (sourceId.payload, ⟨rest', visited'⟩), metaTake_iff.mpr ⟨rfl, rfl, rfl⟩, hid.symm, rfl⟩
      exact List.append_assoc _ _ _

/-- A text under a key is read where the bytes start with its encoding, and set. -/
theorem readText_iff (key maximumSize : ℕ) {visited visited' : ℕ} {rest rest' : Bytes}
    {metadata metadata' : Metadata} {set : Bytes → Metadata} (hkey : Recognized key)
    (hmaximum : maximumSize < 18446744073709551616) (hvisited : visited ≤ metaMaxCborItems)
    (hassign : ∀ content, metaAssign metadata (key, .text content) = set content) :
    (do
      let (text, cursor) ← metaReadText maximumSize ⟨rest, visited⟩
      return (set text, cursor) : Check ErrorCode (Metadata × MetaCursor)) =
        .ok (metadata', ⟨rest', visited'⟩) ↔
      ∃ item, TextItem maximumSize item ∧ rest = item.encode ++ rest' ∧
        metadata' = metaAssign metadata (key, item) ∧ visited' = visited + visitedFor (key, item) ∧
        visited' ≤ metaMaxCborItems := by
  have hnone (item : Item) : visitedFor (key, item) = 0 := if_pos hkey
  simp only [Check.bind_eq_ok, Check.pure_eq_ok, Except.ok.injEq, Prod.mk.injEq, hnone,
    Nat.add_zero]
  constructor
  · rintro ⟨⟨content, next⟩, hread, rfl, rfl⟩
    obtain ⟨hsize, rfl, rfl⟩ := (metaReadText_iff hmaximum).mp hread
    exact ⟨.text content, ⟨content, rfl, hsize⟩, rfl, (hassign content).symm, rfl, hvisited⟩
  · rintro ⟨_, ⟨content, rfl, hsize⟩, rfl, rfl, rfl, -⟩
    exact ⟨(content, ⟨rest', visited'⟩), (metaReadText_iff hmaximum).mpr ⟨hsize, rfl, rfl⟩,
      (hassign content).symm, rfl⟩

/-- A value is read where the bytes start with the encoding of one that may stand under the key. -/
theorem metaReadValue_iff {key visited visited' : ℕ} {rest rest' : Bytes}
    {metadata metadata' : Metadata} (hvisited : visited ≤ metaMaxCborItems) :
    metaReadValue key metadata ⟨rest, visited⟩ = .ok (metadata', ⟨rest', visited'⟩) ↔
      ∃ item, ValueRule key item ∧ rest = item.encode ++ rest' ∧
        metadata' = metaAssign metadata (key, item) ∧ visited' = visited + visitedFor (key, item) ∧
        visited' ≤ metaMaxCborItems := by
  unfold metaReadValue
  split
  case h_1 => exact readText_iff 1 255 (by decide) (by decide) hvisited fun _ => rfl
  case h_2 => exact readText_iff 2 127 (by decide) (by decide) hvisited fun _ => rfl
  case h_3 => exact readText_iff 3 255 (by decide) (by decide) hvisited fun _ => rfl
  case h_4 => exact readText_iff 4 127 (by decide) (by decide) hvisited fun _ => rfl
  case h_5 =>
    have hnone (item : Item) : visitedFor (5, item) = 0 := rfl
    simp only [Check.bind_eq_ok, Check.rejectIf_eq_ok, exists_const, not_not, Check.pure_eq_ok,
      Except.ok.injEq, Prod.mk.injEq, hnone, Nat.add_zero]
    constructor
    · rintro ⟨⟨⟨major, value⟩, next⟩, hhead, rfl, rfl, rfl⟩
      obtain ⟨⟨-, hvalue⟩, rfl, rfl⟩ := metaReadHead_iff.mp hhead
      exact ⟨.unsigned value, ⟨value, rfl, hvalue⟩, rfl, rfl, rfl, hvisited⟩
    · rintro ⟨_, ⟨value, rfl, hvalue⟩, rfl, rfl, rfl, -⟩
      exact ⟨((0, value), ⟨rest', visited'⟩), metaReadHead_iff.mpr ⟨⟨by omega, hvalue⟩, rfl, rfl⟩,
        rfl, rfl, rfl⟩
  case h_6 =>
    have hnone (item : Item) : visitedFor (6, item) = 0 := rfl
    simp only [Check.bind_eq_ok, Check.pure_eq_ok, Except.ok.injEq, Prod.mk.injEq, hnone,
      Nat.add_zero]
    constructor
    · rintro ⟨⟨sourceId, next⟩, hread, rfl, rfl⟩
      obtain ⟨item, hitem, hsize, rfl, rfl⟩ := metaReadSourceId_iff.mp hread
      refine ⟨item, ⟨sourceId.payload, hitem.imp And.left And.left, hsize⟩, rfl, ?_, rfl, hvisited⟩
      rcases hitem with ⟨rfl, hid⟩ | ⟨rfl, hid⟩
      all_goals
        rw [hid]
        rfl
    · rintro ⟨item, ⟨content, rfl | rfl, hsize⟩, rfl, rfl, rfl, -⟩
      · exact ⟨(.text content, ⟨rest', visited'⟩),
          metaReadSourceId_iff.mpr ⟨_, .inl ⟨rfl, rfl⟩, hsize, rfl, rfl⟩, rfl, rfl⟩
      · exact ⟨(.bytes content, ⟨rest', visited'⟩),
          metaReadSourceId_iff.mpr ⟨_, .inr ⟨rfl, rfl⟩, hsize, rfl, rfl⟩, rfl, rfl⟩
  case h_7 => exact readText_iff 7 4096 (by decide) (by decide) hvisited fun _ => rfl
  case h_8 =>
    have hunknown : ¬Recognized key := by
      rintro ⟨hlow, hhigh⟩
      have hkeys : key = 1 ∨ key = 2 ∨ key = 3 ∨ key = 4 ∨ key = 5 ∨ key = 6 ∨ key = 7 := by omega
      rcases hkeys with h | h | h | h | h | h | h <;> contradiction
    have hcount (item : Item) : visitedFor (key, item) = itemCount [item] := by
      rw [visitedFor, if_neg hunknown, itemCount_cons]
      rfl
    simp only [Check.bind_eq_ok, Check.pure_eq_ok, Except.ok.injEq, Prod.mk.injEq,
      valueRule_unknown hunknown, metaAssign_unknown hunknown, hcount]
    constructor
    · rintro ⟨next, hskip, rfl, rfl⟩
      obtain ⟨_, ⟨item, hitem, rfl⟩, rfl, hcount, hle⟩ :=
        (metaSkipItem_skips metaMaxCborDepth hvisited).mp hskip
      exact ⟨item, hitem, by rw [List.flatMap_singleton], rfl, hcount, hle⟩
    · rintro ⟨item, hitem, rfl, rfl, hcount, hle⟩
      refine ⟨_, (metaSkipItem_skips metaMaxCborDepth hvisited).mpr ⟨[item], ⟨item, hitem, rfl⟩, ?_,
        hcount, hle⟩, rfl, rfl⟩
      rw [List.flatMap_singleton]

/-! ## The map -/

/-- The encoding of an entry. -/
def encodeEntry (entry : ℕ × Item) : Bytes := (Item.unsigned entry.1).encode ++ entry.2.encode

/-- The map the reader takes a payload for. -/
def payloadItem (entries : List (ℕ × Item)) : Item :=
  .map (entries.map fun entry => (.unsigned entry.1, entry.2))

theorem encode_payloadItem (entries : List (ℕ × Item)) :
    (payloadItem entries).encode = head 5 entries.length ++ entries.flatMap encodeEntry := by
  rw [Item.encode_eq, payloadItem, Item.lead, List.length_map, Item.children, List.flatMap_map]
  congr 1
  induction entries with
  | nil => rfl
  | cons entry rest ih =>
      simp only [List.flatMap_cons, List.flatMap_append, ih, List.flatMap_nil, List.append_nil,
        encodeEntry]

/-- A key fits its head, and its value may stand under it. -/
def EntryRule (entry : ℕ × Item) : Prop :=
  entry.1 < 18446744073709551616 ∧ ValueRule entry.1 entry.2

/-- The entries of a payload the reader accepts. -/
structure Acceptable (entries : List (ℕ × Item)) : Prop where
  few : entries.length ≤ metaMaxMapItems
  rules : ∀ entry ∈ entries, EntryRule entry
  increasing : (entries.map Prod.fst).IsChain (· < ·)
  visited : (entries.map visitedFor).sum ≤ metaMaxCborItems

/-- A key and a value are read where the bytes start with an entry that follows those before. -/
theorem metaReadEntry_iff {index visited visited' : ℕ} {rest rest' : Bytes}
    {previous previous' : Option ℕ} {metadata metadata' : Metadata}
    (hvisited : visited ≤ metaMaxCborItems) :
    metaReadEntry index ⟨⟨rest, visited⟩, previous, metadata⟩ =
        .ok ⟨⟨rest', visited'⟩, previous', metadata'⟩ ↔
      ∃ entry, EntryRule entry ∧ (∀ key ∈ previous, key < entry.1) ∧ previous' = some entry.1 ∧
        rest = encodeEntry entry ++ rest' ∧ metadata' = metaAssign metadata entry ∧
        visited' = visited + visitedFor entry ∧ visited' ≤ metaMaxCborItems := by
  simp only [metaReadEntry, Check.bind_eq_ok, Check.rejectIf_eq_ok, exists_const, not_or, not_not,
    Check.pure_eq_ok, Except.ok.injEq]
  constructor
  · rintro ⟨⟨⟨major, key⟩, middle, between⟩, hhead, ⟨rfl, hkey⟩, ⟨after, next⟩, hvalue, hstate⟩
    obtain ⟨⟨-, hfits⟩, rfl, rfl⟩ := metaReadHead_iff.mp hhead
    obtain ⟨hnext, rfl, rfl⟩ := MetaState.mk.inj hstate
    dsimp only at hvalue hnext hkey
    subst hnext
    obtain ⟨item, hrule, rfl, hassign, hcount, hle⟩ := (metaReadValue_iff hvisited).mp hvalue
    exact ⟨(key, item), ⟨hfits, hrule⟩, hkey, rfl, (List.append_assoc _ _ _).symm, hassign, hcount,
      hle⟩
  · rintro ⟨⟨key, item⟩, ⟨hfits, hrule⟩, hkey, rfl, rfl, rfl, hcount, hle⟩
    refine ⟨((0, key), ⟨item.encode ++ rest', visited⟩),
      metaReadHead_iff.mpr ⟨⟨by omega, hfits⟩, ?_, rfl⟩, ⟨rfl, hkey⟩,
      (_, ⟨rest', visited'⟩), (metaReadValue_iff hvisited).mpr ⟨item, hrule, rfl, rfl, hcount, hle⟩,
      rfl⟩
    exact List.append_assoc _ _ _

/-- The loop over the map reads entries one after the other. -/
theorem metaReadEntries_iff {first count visited visited' : ℕ} {rest rest' : Bytes}
    {previous : Option ℕ} {metadata metadata' : Metadata} (hvisited : visited ≤ metaMaxCborItems) :
    (∃ previous', Check.loop metaReadEntry first count ⟨⟨rest, visited⟩, previous, metadata⟩ =
        .ok ⟨⟨rest', visited'⟩, previous', metadata'⟩) ↔
      ∃ entries : List (ℕ × Item), entries.length = count ∧ (∀ entry ∈ entries, EntryRule entry) ∧
        (previous.toList ++ entries.map Prod.fst).IsChain (· < ·) ∧
        rest = entries.flatMap encodeEntry ++ rest' ∧
        metadata' = entries.foldl metaAssign metadata ∧
        visited' = visited + (entries.map visitedFor).sum ∧ visited' ≤ metaMaxCborItems := by
  induction count generalizing first rest visited previous metadata with
  | zero =>
      simp only [Check.loop, Except.ok.injEq, MetaState.mk.injEq, MetaCursor.mk.injEq]
      constructor
      · rintro ⟨_, ⟨rfl, rfl⟩, rfl, rfl⟩
        refine ⟨[], rfl, fun _ hmem => absurd hmem List.not_mem_nil, ?_, rfl, rfl, rfl, hvisited⟩
        cases previous <;> simp
      · rintro ⟨entries, hlength, -, -, rfl, rfl, rfl, -⟩
        obtain rfl := List.eq_nil_of_length_eq_zero hlength
        exact ⟨previous, ⟨rfl, rfl⟩, rfl, rfl⟩
  | succ count ih =>
      have hchain (entry : ℕ × Item) (entries : List (ℕ × Item)) :
          (previous.toList ++ (entry :: entries).map Prod.fst).IsChain (· < ·) ↔
            (∀ key ∈ previous, key < entry.1) ∧
              ((some entry.1).toList ++ entries.map Prod.fst).IsChain (· < ·) := by
        cases previous <;> simp
      simp only [Check.loop, Check.bind_eq_ok]
      constructor
      · rintro ⟨previous', ⟨⟨middle, between⟩, key, after⟩, hentry, hloop⟩
        obtain ⟨entry, hrule, hkey, rfl, rfl, rfl, rfl, hle⟩ := (metaReadEntry_iff hvisited).mp hentry
        obtain ⟨entries, rfl, hrules, hincreasing, rfl, rfl, rfl, hle⟩ :=
          (ih hle).mp ⟨previous', hloop⟩
        refine ⟨entry :: entries, rfl, List.forall_mem_cons.mpr ⟨hrule, hrules⟩,
          (hchain entry entries).mpr ⟨hkey, hincreasing⟩, ?_, rfl, ?_, hle⟩
        · rw [List.flatMap_cons, List.append_assoc]
        · rw [List.map_cons, List.sum_cons, Nat.add_assoc]
      · rintro ⟨entries, hlength, hrules, hincreasing, rfl, rfl, rfl, hle⟩
        cases entries with
        | nil => cases hlength
        | cons entry entries =>
            rw [List.forall_mem_cons] at hrules
            obtain ⟨hkey, hincreasing⟩ := (hchain entry entries).mp hincreasing
            have hsum : visited + ((entry :: entries).map visitedFor).sum =
                visited + visitedFor entry + (entries.map visitedFor).sum := by
              rw [List.map_cons, List.sum_cons, Nat.add_assoc]
            have hfirst : visited + visitedFor entry ≤ metaMaxCborItems := by omega
            obtain ⟨previous', hloop⟩ := (@ih (first + 1) _ _ _ _ hfirst).mpr ⟨entries,
              Nat.succ.inj hlength, hrules.2, hincreasing, rfl, rfl, hsum, hle⟩
            refine ⟨previous', _, (metaReadEntry_iff hvisited).mpr ⟨entry, hrules.1, hkey, rfl, ?_,
              rfl, rfl, hfirst⟩, hloop⟩
            rw [List.flatMap_cons, List.append_assoc]

/-- The reader accepts the encodings of the maps with acceptable entries, and says of the metadata
what the entries say. -/
theorem metaParsePayload_iff {payload : Bytes} {metadata : Metadata} :
    metaParsePayload payload = .ok metadata ↔
      ∃ entries, Acceptable entries ∧ payload = (payloadItem entries).encode ∧
        metadata = entries.foldl metaAssign emptyMetadata := by
  have hzero : 0 ≤ metaMaxCborItems := Nat.zero_le _
  simp only [metaParsePayload, Check.bind_eq_ok, Check.rejectIf_eq_ok, exists_const, not_or, not_not,
    not_lt, Check.pure_eq_ok, Except.ok.injEq, encode_payloadItem]
  constructor
  · rintro ⟨⟨⟨major, count⟩, middle, between⟩, hhead, ⟨rfl, hfew⟩, ⟨⟨left, visited⟩, last, _⟩, hloop,
      rfl, rfl⟩
    obtain ⟨-, rfl, rfl⟩ := metaReadHead_iff.mp hhead
    obtain ⟨entries, rfl, hrules, hincreasing, rfl, rfl, rfl, hle⟩ :=
      (metaReadEntries_iff hzero).mp ⟨last, hloop⟩
    rw [Nat.zero_add] at hle
    exact ⟨entries, ⟨hfew, hrules, hincreasing, hle⟩, by rw [List.append_nil], rfl⟩
  · rintro ⟨entries, ⟨hfew, hrules, hincreasing, hle⟩, rfl, rfl⟩
    have hkeys : ((none : Option ℕ).toList ++ entries.map Prod.fst).IsChain (· < ·) := hincreasing
    obtain ⟨last, hloop⟩ := (@metaReadEntries_iff 0 _ _ _ _ _ _ _ _ hzero).mpr ⟨entries, rfl,
      hrules, hkeys, (List.append_nil (entries.flatMap encodeEntry)).symm, rfl, rfl, by omega⟩
    refine ⟨((5, entries.length), ⟨entries.flatMap encodeEntry, 0⟩),
      metaReadHead_iff.mpr ⟨⟨by omega, ?_⟩, rfl, rfl⟩, ⟨rfl, hfew⟩, _, hloop, rfl, rfl⟩
    have hlimit : metaMaxMapItems < 18446744073709551616 := by decide
    omega

/-! ## The entries of a record -/

/-- The string of a source identifier. -/
def sourceIdItem : SourceId → Item
  | .text content => .text content
  | .bytes content => .bytes content

/-- What metadata says under a key. -/
def metaGet (metadata : Metadata) : ℕ → Option Item
  | 1 => metadata.producerName.map Item.text
  | 2 => metadata.producerVersionString.map Item.text
  | 3 => metadata.backendName.map Item.text
  | 4 => metadata.backendVersion.map Item.text
  | 5 => metadata.creationUnixTime.map Item.unsigned
  | 6 => metadata.applicationSourceId.map sourceIdItem
  | 7 => metadata.comments.map Item.text
  | _ => none

/-- The keys with a meaning, in order. -/
def recognizedKeys : List ℕ := List.range' 1 7

/-- The entries of metadata, in the order of their keys. -/
def metaEntries (metadata : Metadata) : List (ℕ × Item) :=
  recognizedKeys.filterMap fun key => (metaGet metadata key).map (Prod.mk key)

theorem mem_recognizedKeys {key : ℕ} : key ∈ recognizedKeys ↔ Recognized key := by
  rw [recognizedKeys, List.mem_range'_1, Recognized]
  omega

theorem mem_metaEntries {metadata : Metadata} {entry : ℕ × Item} :
    entry ∈ metaEntries metadata ↔
      Recognized entry.1 ∧ metaGet metadata entry.1 = some entry.2 := by
  rw [metaEntries, List.mem_filterMap]
  constructor
  · rintro ⟨key, hkey, hentry⟩
    obtain ⟨item, hitem, rfl⟩ := Option.map_eq_some_iff.mp hentry
    exact ⟨mem_recognizedKeys.mp hkey, hitem⟩
  · rintro ⟨hkey, hitem⟩
    exact ⟨entry.1, mem_recognizedKeys.mpr hkey, by rw [hitem]; rfl⟩

theorem metaEntries_sorted (metadata : Metadata) :
    (metaEntries metadata).Pairwise fun earlier later => earlier.1 < later.1 := by
  have hkeys : recognizedKeys.Pairwise (· < ·) := by decide
  rw [metaEntries, List.pairwise_filterMap]
  refine hkeys.imp fun {key key'} hlt entry hentry entry' hentry' => ?_
  obtain ⟨_, -, rfl⟩ := Option.map_eq_some_iff.mp hentry
  obtain ⟨_, -, rfl⟩ := Option.map_eq_some_iff.mp hentry'
  exact hlt

theorem recognized_iff {key : ℕ} : Recognized key ↔
    key = 1 ∨ key = 2 ∨ key = 3 ∨ key = 4 ∨ key = 5 ∨ key = 6 ∨ key = 7 := by
  unfold Recognized
  omega

theorem metaGet_unknown {key : ℕ} (h : ¬Recognized key) (metadata : Metadata) :
    metaGet metadata key = none := by
  unfold metaGet
  split
  case h_8 => rfl
  all_goals exact absurd (by decide) h

/-- An entry sets what it says under its key, and nothing else. -/
theorem metaGet_assign {metadata : Metadata} {entry : ℕ × Item} (hkey : Recognized entry.1)
    (hrule : ValueRule entry.1 entry.2) (key : ℕ) :
    metaGet (metaAssign metadata entry) key =
      if key = entry.1 then some entry.2 else metaGet metadata key := by
  by_cases hother : Recognized key
  · obtain ⟨own, item⟩ := entry
    simp only at hrule hkey ⊢
    rw [recognized_iff] at hother hkey
    rcases hkey with rfl | rfl | rfl | rfl | rfl | rfl | rfl
    case inr.inr.inr.inr.inr.inl =>
      obtain ⟨content, rfl | rfl, -⟩ := hrule
      all_goals rcases hother with rfl | rfl | rfl | rfl | rfl | rfl | rfl <;> rfl
    all_goals
      obtain ⟨content, rfl, -⟩ := hrule
      rcases hother with rfl | rfl | rfl | rfl | rfl | rfl | rfl <;> rfl
  · have hne : key ≠ entry.1 := fun heq => hother (heq ▸ hkey)
    rw [metaGet_unknown hother, metaGet_unknown hother, if_neg hne]

/-- The metadata of a payload says under a known key what the entry of the key says. -/
theorem metaGet_foldl {entries : List (ℕ × Item)} (hrules : ∀ entry ∈ entries, EntryRule entry)
    (hsorted : entries.Pairwise fun earlier later => earlier.1 < later.1) (metadata : Metadata)
    {key : ℕ} (hkey : Recognized key) (item : Item) :
    metaGet (entries.foldl metaAssign metadata) key = some item ↔
      (key, item) ∈ entries ∨
        (∀ entry ∈ entries, entry.1 ≠ key) ∧ metaGet metadata key = some item := by
  induction entries generalizing metadata with
  | nil => simp
  | cons entry rest ih =>
      rw [List.forall_mem_cons] at hrules
      rw [List.pairwise_cons] at hsorted
      rw [List.foldl_cons, ih hrules.2 hsorted.2, List.mem_cons, List.forall_mem_cons]
      by_cases hentry : Recognized entry.1
      · rw [metaGet_assign hentry hrules.1.2]
        by_cases hown : key = entry.1
        · have hlater : ∀ later ∈ rest, later.1 ≠ key := fun later hmem =>
            (hown ▸ hsorted.1 later hmem).ne'
          have hnot : (key, item) ∉ rest := fun hmem => hlater _ hmem rfl
          rw [if_pos hown, Option.some_inj]
          constructor
          · rintro (hmem | ⟨-, rfl⟩)
            · exact absurd hmem hnot
            · exact .inl (.inl (Prod.ext hown rfl))
          · rintro ((rfl | hmem) | ⟨⟨hne, -⟩, -⟩)
            · exact .inr ⟨hlater, rfl⟩
            · exact absurd hmem hnot
            · exact absurd hown.symm hne
        · have hne : (key, item) ≠ entry := fun heq => hown (congrArg Prod.fst heq)
          rw [if_neg hown, or_iff_right hne, and_iff_right (Ne.symm hown)]
      · have hown : key ≠ entry.1 := fun heq => hentry (heq ▸ hkey)
        have hne : (key, item) ≠ entry := fun heq => hown (congrArg Prod.fst heq)
        rw [show metaAssign metadata entry = metadata from metaAssign_unknown hentry metadata entry.2,
          or_iff_right hne, and_iff_right (Ne.symm hown)]

/-- The metadata of a payload has the entries of the payload under the known keys. -/
theorem metaEntries_foldl {entries : List (ℕ × Item)} (haccept : Acceptable entries) :
    metaEntries (entries.foldl metaAssign emptyMetadata) =
      entries.filter fun entry => decide (Recognized entry.1) := by
  have hsorted : entries.Pairwise fun earlier later => earlier.1 < later.1 :=
    List.pairwise_map.mp (List.isChain_iff_pairwise.mp haccept.increasing)
  have hnone (key : ℕ) : metaGet emptyMetadata key = none := by
    unfold metaGet emptyMetadata
    split <;> rfl
  have : Std.Irrefl fun earlier later : ℕ × Item => earlier.1 < later.1 := ⟨fun _ => lt_irrefl _⟩
  have : Std.Antisymm fun earlier later : ℕ × Item => earlier.1 < later.1 :=
    ⟨fun _ _ h h' => absurd h' h.not_gt⟩
  refine (metaEntries_sorted _).eq_of_mem_iff (hsorted.filter _) fun entry => ?_
  rw [mem_metaEntries, List.mem_filter, decide_eq_true_iff, and_comm]
  refine and_congr_left fun hkey => ?_
  rw [metaGet_foldl haccept.rules hsorted emptyMetadata hkey, hnone]
  simp

end LibApta.Container
