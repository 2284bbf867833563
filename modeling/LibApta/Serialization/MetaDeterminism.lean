import LibApta.Core.MetadataText
import LibApta.Serialization.MetaRead
import Mathlib.Data.List.Chain

/-!
# Which accepted payloads are deterministic

The deterministic encoding asks for more than shortest heads: the keys of every map increase and
every text is well-formed. Of an accepted payload the heads, the keys of the map itself, the nesting
and the end are in order. The maps nested under unknown keys and the texts are not looked at: an
accepted payload is deterministic exactly where they happen to be in order, and of the texts under
known keys the validation of the metadata takes care.
-/

namespace LibApta.Container

open LittleEndian Cbor

/-- A payload that is the deterministic encoding of a map no deeper than the reader follows it. -/
def DeterministicPayload (payload : Bytes) : Prop :=
  ∃ item : Item, payload = item.encode ∧ item.major = 5 ∧ item.Deterministic ∧
    item.Within (metaMaxCborDepth + 1)

/-- The maps in an item are sorted and its texts are well-formed. -/
def Tidy (item : Item) : Prop := ∀ part ∈ item.subitems, part.Sorted ∧ part.Readable

/-- An item without parts. -/
theorem leaf_encodable {item : Item} (hleaf : item.children = []) (hfits : item.Fits) :
    item.Encodable ∧ ∀ depth, item.Within (depth + 1) := by
  refine ⟨Item.encodable_iff.mpr ⟨hfits, ?_⟩, fun depth => ?_⟩
  · rw [hleaf]
    exact fun _ hmem => absurd hmem List.not_mem_nil
  · unfold Item.Within
    rw [hleaf]
    exact fun _ hmem => absurd hmem List.not_mem_nil

/-- The values the reader takes are encodable and not nested too deep. -/
theorem ValueRule.skipped {key : ℕ} {item : Item} (h : ValueRule key item) :
    item.Encodable ∧ item.Within metaMaxCborDepth := by
  have htext {content : Bytes} (hsize : content.length ≤ 4096) :
      (Item.text content).Encodable ∧ (Item.text content).Within metaMaxCborDepth := by
    have hfits : (Item.text content).Fits := by
      show content.length < 18446744073709551616
      omega
    exact ⟨(leaf_encodable rfl hfits).1, (leaf_encodable rfl hfits).2 7⟩
  by_cases hkey : Recognized key
  · rw [recognized_iff] at hkey
    rcases hkey with rfl | rfl | rfl | rfl | rfl | rfl | rfl
    case inr.inr.inr.inr.inl =>
      obtain ⟨value, rfl, hvalue⟩ := h
      have hfits : (Item.unsigned value).Fits := hvalue
      exact ⟨(leaf_encodable rfl hfits).1, (leaf_encodable rfl hfits).2 7⟩
    case inr.inr.inr.inr.inr.inl =>
      obtain ⟨content, rfl | rfl, hsize⟩ := h
      · exact htext (by omega)
      · have hfits : (Item.bytes content).Fits := by
          show content.length < 18446744073709551616
          omega
        exact ⟨(leaf_encodable rfl hfits).1, (leaf_encodable rfl hfits).2 7⟩
    all_goals
      obtain ⟨content, rfl, hsize⟩ := h
      exact htext (by omega)
  · rw [valueRule_unknown hkey] at h
    exact ⟨h.encodable, h.within⟩

/-- The parts of the map of a payload. -/
theorem mem_children_payloadItem {entries : List (ℕ × Item)} {child : Item} :
    child ∈ (payloadItem entries).children ↔
      ∃ entry ∈ entries, child = .unsigned entry.1 ∨ child = entry.2 := by
  simp only [payloadItem, Item.children, List.mem_flatMap, List.mem_map, List.mem_cons,
    List.not_mem_nil, or_false]
  constructor
  · rintro ⟨_, ⟨entry, hentry, rfl⟩, hchild⟩
    exact ⟨entry, hentry, hchild⟩
  · rintro ⟨entry, hentry, hchild⟩
    exact ⟨_, ⟨entry, hentry, rfl⟩, hchild⟩

/-- The map of an accepted payload is encodable, sorted by its own keys and not nested too deep. -/
theorem Acceptable.payloadItem {entries : List (ℕ × Item)} (h : Acceptable entries) :
    (payloadItem entries).Encodable ∧ (payloadItem entries).Sorted ∧
      (payloadItem entries).Within (metaMaxCborDepth + 1) := by
  have hkeyFits {entry : ℕ × Item} (hentry : entry ∈ entries) : (Item.unsigned entry.1).Fits :=
    (h.rules entry hentry).1
  refine ⟨Item.encodable_iff.mpr ⟨?_, fun child hchild => ?_⟩, ?_, fun child hchild => ?_⟩
  · have hfew := h.few
    have hlimit : metaMaxMapItems < 18446744073709551616 := by decide
    show (entries.map _).length < 18446744073709551616
    rw [List.length_map]
    omega
  · obtain ⟨entry, hentry, rfl | rfl⟩ := mem_children_payloadItem.mp hchild
    · exact (leaf_encodable rfl (hkeyFits hentry)).1
    · exact (h.rules entry hentry).2.skipped.1
  · have hkeys := (List.isChain_map Prod.fst).mp h.increasing
    refine (List.isChain_map _).mpr (hkeys.imp_of_mem_imp fun earlier later _ hlater hlt => ?_)
    show head 0 earlier.1 < head 0 later.1
    exact head_lt hlt (h.rules later hlater).1
  · obtain ⟨entry, hentry, rfl | rfl⟩ := mem_children_payloadItem.mp hchild
    · exact (leaf_encodable rfl (hkeyFits hentry)).2 7
    · exact (h.rules entry hentry).2.skipped.2

theorem tidy_leaf {item : Item} (hleaf : item.children = []) :
    Tidy item ↔ item.Sorted ∧ item.Readable := by
  rw [Tidy, Item.forall_subitems_iff, hleaf]
  exact and_iff_left fun _ hmem => absurd hmem List.not_mem_nil

/-- The map of an accepted payload is deterministic where its values are tidy. -/
theorem deterministicPayload_iff {entries : List (ℕ × Item)} (h : Acceptable entries) :
    DeterministicPayload (Container.payloadItem entries).encode ↔
      ∀ entry ∈ entries, Tidy entry.2 := by
  obtain ⟨hencodable, hsorted, hwithin⟩ := h.payloadItem
  constructor
  · rintro ⟨item, hitem, -, hdeterministic, -⟩ entry hentry part hpart
    obtain ⟨rfl, -⟩ := Item.encode_append_inj hencodable hdeterministic.encodable
      (congrArg (· ++ []) hitem)
    have hmem : part ∈ (Container.payloadItem entries).subitems := by
      rw [Item.subitems_eq]
      exact List.mem_cons_of_mem _ (List.mem_flatMap.mpr
        ⟨entry.2, mem_children_payloadItem.mpr ⟨entry, hentry, .inr rfl⟩, hpart⟩)
    exact ⟨hdeterministic.sorted part hmem, hdeterministic.readable part hmem⟩
  · intro htidy
    have hall : Tidy (Container.payloadItem entries) := by
      rw [Tidy, Item.forall_subitems_iff]
      refine ⟨⟨hsorted, trivial⟩, fun child hchild => ?_⟩
      obtain ⟨entry, hentry, rfl | rfl⟩ := mem_children_payloadItem.mp hchild
      · exact (tidy_leaf rfl).mpr ⟨trivial, trivial⟩
      · exact htidy entry hentry
    exact ⟨_, rfl, rfl, ⟨hencodable, fun part hpart => (hall part hpart).1,
      fun part hpart => (hall part hpart).2⟩, hwithin⟩

/-! ## Texts under known keys -/

/-- The entries of valid metadata are tidy. -/
theorem metaEntries_tidy {metadata : Metadata} (hvalid : metadata.isValid = true)
    {entry : ℕ × Item} (hentry : entry ∈ metaEntries metadata) : Tidy entry.2 := by
  obtain ⟨hkey, hget⟩ := mem_metaEntries.mp hentry
  obtain ⟨key, item⟩ := entry
  simp only at hkey hget ⊢
  simp only [Metadata.isValid, Bool.and_eq_true] at hvalid
  obtain ⟨⟨⟨⟨⟨⟨hname, hversion⟩, hbackend⟩, hbackendVersion⟩, hcomments⟩, hid⟩, -⟩ := hvalid
  have htext {maximumSize : ℕ} {field : Option Bytes}
      (hfield : textFieldValid maximumSize field = true) (hget : field.map Item.text = some item) :
      Tidy item := by
    obtain ⟨content, rfl, rfl⟩ := Option.map_eq_some_iff.mp hget
    rw [textFieldValid, Bool.and_eq_true, utf8Valid_iff] at hfield
    exact (tidy_leaf rfl).mpr ⟨trivial, hfield.2⟩
  rw [recognized_iff] at hkey
  rcases hkey with rfl | rfl | rfl | rfl | rfl | rfl | rfl
  · exact htext hname hget
  · exact htext hversion hget
  · exact htext hbackend hget
  · exact htext hbackendVersion hget
  · obtain ⟨value, -, rfl⟩ := Option.map_eq_some_iff.mp hget
    exact (tidy_leaf rfl).mpr ⟨trivial, trivial⟩
  · obtain ⟨sourceId, hsome, rfl⟩ := Option.map_eq_some_iff.mp hget
    rw [hsome] at hid
    cases sourceId with
    | text content =>
        rw [Bool.and_eq_true, utf8Valid_iff] at hid
        exact (tidy_leaf rfl).mpr ⟨trivial, hid.2⟩
    | bytes content => exact (tidy_leaf rfl).mpr ⟨trivial, trivial⟩
  · exact htext hcomments hget

/-- The parser accepts only deterministic payloads but for those with a nested map out of order or a
text that is not well-formed; behind the validation of the metadata, but for those with such a map or
text under an unknown key. -/
theorem metaParsePayload_deterministic_iff (payload : Bytes) :
    (((∃ metadata, metaParsePayload payload = .ok metadata) → DeterministicPayload payload) ↔
      ∀ entries, Acceptable entries → payload = (payloadItem entries).encode →
        ∀ entry ∈ entries, Tidy entry.2) ∧
    (((∃ metadata, metaParsePayload payload = .ok metadata ∧ metadata.isValid = true) →
        DeterministicPayload payload) ↔
      ∀ entries, Acceptable entries → payload = (payloadItem entries).encode →
        (entries.foldl metaAssign emptyMetadata).isValid = true →
        ∀ entry ∈ entries, ¬Recognized entry.1 → Tidy entry.2) := by
  refine ⟨⟨fun h entries haccept hpayload => ?_, fun h => ?_⟩,
    ⟨fun h entries haccept hpayload hvalid entry hentry _ => ?_, fun h => ?_⟩⟩
  · have hparse := metaParsePayload_iff.mpr ⟨entries, haccept, hpayload, rfl⟩
    have hdeterministic := h ⟨_, hparse⟩
    rw [hpayload, deterministicPayload_iff haccept] at hdeterministic
    exact hdeterministic
  · rintro ⟨metadata, hparse⟩
    obtain ⟨entries, haccept, rfl, -⟩ := metaParsePayload_iff.mp hparse
    exact (deterministicPayload_iff haccept).mpr (h entries haccept rfl)
  · have hparse := metaParsePayload_iff.mpr ⟨entries, haccept, hpayload, rfl⟩
    have hdeterministic := h ⟨_, hparse, hvalid⟩
    rw [hpayload, deterministicPayload_iff haccept] at hdeterministic
    exact hdeterministic entry hentry
  · rintro ⟨metadata, hparse, hvalid⟩
    obtain ⟨entries, haccept, rfl, rfl⟩ := metaParsePayload_iff.mp hparse
    refine (deterministicPayload_iff haccept).mpr fun entry hentry => ?_
    by_cases hkey : Recognized entry.1
    · refine metaEntries_tidy hvalid ?_
      rw [metaEntries_foldl haccept, List.mem_filter]
      exact ⟨hentry, decide_eq_true hkey⟩
    · exact h entries haccept rfl hvalid entry hentry hkey

/-- A map that has a key twice. -/
def repeatedKey : Item := .map [(.unsigned 1, .unsigned 0), (.unsigned 1, .unsigned 0)]

theorem repeatedKey_acceptable : Acceptable [(8, repeatedKey)] := by
  have hparts : repeatedKey.subitems =
    [repeatedKey, .unsigned 1, .unsigned 0, .unsigned 1, .unsigned 0] := rfl
  have hleaf (value : ℕ) : (Item.unsigned value).Within 7 := fun _ hmem => absurd hmem List.not_mem_nil
  have hskippable : Skippable metaMaxCborDepth repeatedKey := by
    refine ⟨?_, ?_, ?_⟩
    · rw [Item.Encodable, hparts]
      simp [repeatedKey, Item.Fits]
    · show ∀ child ∈ [Item.unsigned 1, .unsigned 0, .unsigned 1, .unsigned 0], child.Within 7
      simp [hleaf]
    · rw [hparts]
      simp [repeatedKey, ShortString]
  refine ⟨by decide, List.forall_mem_singleton.mpr ⟨by decide, hskippable⟩, by simp, by decide⟩

/-- Under an unknown key the parser accepts a map that has a key twice. -/
theorem metaParsePayload_accepts_repeated_key :
    metaParsePayload [0xA1, 0x08, 0xA2, 0x01, 0x00, 0x01, 0x00] = .ok emptyMetadata ∧
      emptyMetadata.isValid = true ∧
      ¬DeterministicPayload [0xA1, 0x08, 0xA2, 0x01, 0x00, 0x01, 0x00] := by
  have hpayload : [0xA1, 0x08, 0xA2, 0x01, 0x00, 0x01, 0x00] =
    (payloadItem [(8, repeatedKey)]).encode := by decide
  rw [hpayload]
  refine ⟨metaParsePayload_iff.mpr ⟨_, repeatedKey_acceptable, rfl, rfl⟩, by decide, ?_⟩
  rw [deterministicPayload_iff repeatedKey_acceptable]
  intro htidy
  have hsorted := (htidy _ (List.mem_singleton.mpr rfl) repeatedKey (by
    rw [Item.subitems_eq]
    exact List.mem_cons_self)).1
  exact absurd (List.isChain_cons_cons.mp hsorted).1 (List.lt_irrefl _)

end LibApta.Container
