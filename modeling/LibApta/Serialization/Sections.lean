import LibApta.Serialization.Container

/-!
# Section lookup

The later readers look for their sections by a walk of their own over the directory. A section they
know may occur once; `foundAt` is what such a walk finds in a container that was accepted.
-/

namespace LibApta.Container

open LittleEndian

/-- A section a walk found: its place in the directory and its payload. -/
structure Found where
  index : ℕ
  payload : Bytes
deriving DecidableEq

/-- One step of the search for the metadata section. -/
def findMetaStep (bytes : Bytes) (entry : Entry) (found : Option Bytes) :
    Check ErrorCode (Option Bytes) := do
  Check.rejectIf (found.isSome = true) .corruptData
  Check.rejectIf (entry.version ≠ 1) .unsupported
  Check.rejectIf (rangeFits entry.offset entry.storedSize bytes.length = false) .corruptData
  let payload ← Check.view bytes entry.offset entry.storedSize
  return some payload

/-- The metadata reader finds its payload. -/
def findMetaSection (bytes : Bytes) : Check ErrorCode (Option Bytes) := do
  let sectionCount ← Check.read 4 bytes 20
  let directoryOffset ← Check.read 8 bytes 24
  forEntries bytes directoryOffset sectionCount (fun _ entry found =>
    if entry.tag = .metadata then findMetaStep bytes entry found else .ok found) none

/-- The checks the tempo and grid readers make of an entry they know. -/
def readKnownEntry (strict : Bool) (bytes : Bytes) (entry : Entry) : Check ErrorCode Bytes := do
  Check.rejectIf (entry.version ≠ 1) .unsupported
  Check.rejectIf (entry.flags ≠ 0 ∨ (strict = true ∧ entry.reserved ≠ 0)) .corruptData
  Check.rejectIf (entry.logicalSize ≠ entry.storedSize ∨
    rangeFits entry.offset entry.storedSize bytes.length = false) .corruptData
  let payload ← Check.view bytes entry.offset entry.storedSize
  Check.rejectIf (crc32c payload ≠ entry.crc) .corruptData
  return payload

/-- One step of the search for two sections. -/
def findStep (strict : Bool) (first second : SectionTag) (bytes : Bytes) (index : ℕ)
    (entry : Entry) (found : Option Found × Option Found) :
    Check ErrorCode (Option Found × Option Found) :=
  if entry.tag = first then do
    Check.rejectIf (found.1.isSome = true) .corruptData
    let payload ← readKnownEntry strict bytes entry
    return (some ⟨index, payload⟩, found.2)
  else if entry.tag = second then do
    Check.rejectIf (found.2.isSome = true) .corruptData
    let payload ← readKnownEntry strict bytes entry
    return (found.1, some ⟨index, payload⟩)
  else .ok found

/-- The search for two sections: tempo and local grid, or global grid and revision. -/
def findSections (strict : Bool) (first second : SectionTag) (bytes : Bytes) :
    Check ErrorCode (Option Found × Option Found) := do
  Check.rejectIf (bytes.length < headerSize) .corruptData
  let sectionCount ← Check.read 4 bytes 20
  let directoryOffset ← Check.read 8 bytes 24
  let directorySize ← Check.within uint64Max (sectionCount * directoryEntrySize)
  Check.rejectIf (rangeFits directoryOffset directorySize bytes.length = false) .corruptData
  forEntries bytes directoryOffset sectionCount (findStep strict first second bytes) (none, none)

/-- The tempo reader finds its sections; a local grid needs a tempo. -/
def findTempoSections (strict : Bool) (bytes : Bytes) :
    Check ErrorCode (Option Found × Option Found) := do
  let found ← findSections strict .tempo .localGrid bytes
  Check.rejectIf (found.2.isSome = true ∧ found.1 = none) .corruptData
  return found

/-- The grid reader finds its sections; the revision directly follows the grid. -/
def findGridSections (strict : Bool) (bytes : Bytes) :
    Check ErrorCode (Option (Found × Found)) := do
  let found ← findSections strict .globalGrid .revision bytes
  match found with
  | (none, none) => return none
  | (some grid, some revision) => do
      Check.rejectIf (revision.index ≠ grid.index + 1) .corruptData
      return some (grid, revision)
  | _ => Check.reject .corruptData

/-! ## What the walks find -/

/-- The sections with a tag, with their places in the directory. -/
def foundFrom (bytes : Bytes) (tag : SectionTag) (start : ℕ) (entries : List Entry) : List Found :=
  ((entries.zipIdx start).filter fun entry => entry.1.tag = tag).map fun entry =>
    ⟨entry.2, entry.1.payload bytes⟩

/-- The sections with a tag in the directory of a container. -/
def foundAt (bytes : Bytes) (tag : SectionTag) : List Found :=
  foundFrom bytes tag 0 ((headerOf bytes).directory bytes)

theorem foundFrom_cons_of_pos {bytes : Bytes} {tag : SectionTag} {start : ℕ} {entry : Entry}
    {entries : List Entry} (h : entry.tag = tag) :
    foundFrom bytes tag start (entry :: entries) =
      ⟨start, entry.payload bytes⟩ :: foundFrom bytes tag (start + 1) entries := by
  simp [foundFrom, h]

theorem foundFrom_cons_of_neg {bytes : Bytes} {tag : SectionTag} {start : ℕ} {entry : Entry}
    {entries : List Entry} (h : entry.tag ≠ tag) :
    foundFrom bytes tag start (entry :: entries) = foundFrom bytes tag (start + 1) entries := by
  simp [foundFrom, h]

theorem map_payload_foundFrom (bytes : Bytes) (tag : SectionTag) (start : ℕ)
    (entries : List Entry) : (foundFrom bytes tag start entries).map Found.payload =
      (entries.filter fun entry => entry.tag = tag).map fun entry => entry.payload bytes := by
  induction entries generalizing start with
  | nil => rfl
  | cons entry rest ih =>
      by_cases htag : entry.tag = tag
      · rw [foundFrom_cons_of_pos htag, List.map_cons, ih]
        simp [htag]
      · rw [foundFrom_cons_of_neg htag, ih]
        simp [htag]

section Lookup

variable {strict : Bool} {bytes : Bytes} {input : WovrInput}

/-- Without the required, compressed and encrypted bits no flag is left. -/
theorem flags_eq_zero {header : Header} {entry : Entry} (h : EntryOk strict bytes header entry)
    (htag : entry.tag ≠ .overview) : entry.flags = 0 := by
  have hrequired := h.optional htag
  obtain ⟨hcompressed, hencrypted⟩ := h.plain
  have hflags := h.flags
  apply Nat.eq_of_testBit_eq
  intro bit
  rw [Nat.zero_testBit]
  rcases Nat.lt_or_ge bit 3 with hbit | hbit
  · rcases (by omega : bit = 0 ∨ bit = 1 ∨ bit = 2) with rfl | rfl | rfl
    · exact hrequired
    · exact hcompressed
    · exact hencrypted
  · apply Nat.testBit_lt_two_pow
    exact hflags.trans_le (Nat.pow_le_pow_right (by decide : 0 < 2) hbit)

theorem readKnownEntry_eq {header : Header} {entry : Entry}
    (h : EntryOk strict bytes header entry) (htag : entry.tag ≠ .overview)
    (hstandard : entry.tag.isStandard = true) :
    readKnownEntry strict bytes entry = .ok (entry.payload bytes) := by
  simp only [readKnownEntry, Check.bind_eq_ok, Check.rejectIf_eq_ok, Check.view_eq_ok,
    Check.pure_eq_ok, Except.ok.injEq, exists_and_left, exists_const, not_or, not_and, ne_eq,
    not_not, Bool.not_eq_false, rangeFits_iff]
  exact ⟨h.version hstandard, ⟨flags_eq_zero h htag, h.reserved⟩, ⟨h.sizes.symm, h.fits⟩, _,
    ⟨h.fits, rfl⟩, h.crc, rfl⟩

/-- A tag a lookup can ask for. -/
structure Known (tag : SectionTag) : Prop where
  standard : tag.isStandard = true
  notOverview : tag ≠ .overview

theorem findStep_first {header : Header} {first second : SectionTag} {index : ℕ} {entry : Entry}
    {found found' : Option Found × Option Found} (h : EntryOk strict bytes header entry)
    (hknown : Known first) (htag : entry.tag = first) :
    findStep strict first second bytes index entry found = .ok found' ↔
      found.1 = none ∧ found' = (some ⟨index, entry.payload bytes⟩, found.2) := by
  rw [findStep, if_pos htag, readKnownEntry_eq h (htag ▸ hknown.notOverview)
    (htag ▸ hknown.standard)]
  simp only [Check.ok_bind, Check.bind_eq_ok, Check.rejectIf_eq_ok, Check.pure_eq_ok,
    Except.ok.injEq, exists_const, Bool.not_eq_true, Option.isSome_eq_false_iff,
    Option.isNone_iff_eq_none]
  exact and_congr_right fun _ => eq_comm

theorem findStep_second {header : Header} {first second : SectionTag} {index : ℕ} {entry : Entry}
    {found found' : Option Found × Option Found} (h : EntryOk strict bytes header entry)
    (hknown : Known second) (htag : entry.tag = second) (hne : first ≠ second) :
    findStep strict first second bytes index entry found = .ok found' ↔
      found.2 = none ∧ found' = (found.1, some ⟨index, entry.payload bytes⟩) := by
  have hfirst : entry.tag ≠ first := htag ▸ hne.symm
  rw [findStep, if_neg hfirst, if_pos htag, readKnownEntry_eq h (htag ▸ hknown.notOverview)
    (htag ▸ hknown.standard)]
  simp only [Check.ok_bind, Check.bind_eq_ok, Check.rejectIf_eq_ok, Check.pure_eq_ok,
    Except.ok.injEq, exists_const, Bool.not_eq_true, Option.isSome_eq_false_iff,
    Option.isNone_iff_eq_none]
  exact and_congr_right fun _ => eq_comm

theorem findStep_other {first second : SectionTag} {index : ℕ} {entry : Entry}
    {found : Option Found × Option Found} (hfirst : entry.tag ≠ first)
    (hsecond : entry.tag ≠ second) :
    findStep strict first second bytes index entry found = .ok found := by
  rw [findStep, if_neg hfirst, if_neg hsecond]

/-- An option takes one more element only when it is empty. -/
private theorem toList_append_cons {α : Type} {found found' : Option α} {a : α} {rest : List α} :
    found.toList ++ a :: rest = found'.toList ↔
      found = none ∧ (some a).toList ++ rest = found'.toList := by
  cases found with
  | none => simp
  | some b =>
      cases found' <;> simp

theorem findWalk_eq_ok {header : Header} {first second : SectionTag} (hfirst : Known first)
    (hsecond : Known second) (hne : first ≠ second) (entries : List Entry)
    (hentries : ∀ entry ∈ entries, EntryOk strict bytes header entry) {start : ℕ}
    {found found' : Option Found × Option Found} :
    Check.walk (findStep strict first second bytes) start entries found = .ok found' ↔
      found.1.toList ++ foundFrom bytes first start entries = found'.1.toList ∧
        found.2.toList ++ foundFrom bytes second start entries = found'.2.toList := by
  induction entries generalizing start found with
  | nil =>
      obtain ⟨one, two⟩ := found
      obtain ⟨one', two'⟩ := found'
      cases one <;> cases two <;> cases one' <;> cases two' <;> simp [foundFrom]
  | cons entry rest ih =>
      have hentry := hentries entry List.mem_cons_self
      have hrest : ∀ next, Check.walk (findStep strict first second bytes) (start + 1) rest next =
          .ok found' ↔ _ :=
        fun _ => ih fun other hother => hentries other (List.mem_cons_of_mem _ hother)
      rw [Check.walk_cons_eq_ok]
      by_cases htag : entry.tag = first
      · rw [foundFrom_cons_of_pos htag, foundFrom_cons_of_neg (htag ▸ hne), toList_append_cons]
        simp only [findStep_first hentry hfirst htag, hrest]
        constructor
        · rintro ⟨next, ⟨hnone, rfl⟩, hone, htwo⟩
          exact ⟨⟨hnone, hone⟩, htwo⟩
        · rintro ⟨⟨hnone, hone⟩, htwo⟩
          exact ⟨_, ⟨hnone, rfl⟩, hone, htwo⟩
      by_cases htag' : entry.tag = second
      · rw [foundFrom_cons_of_neg htag, foundFrom_cons_of_pos htag', toList_append_cons]
        simp only [findStep_second hentry hsecond htag' hne, hrest]
        constructor
        · rintro ⟨next, ⟨hnone, rfl⟩, hone, htwo⟩
          exact ⟨hone, hnone, htwo⟩
        · rintro ⟨hone, hnone, htwo⟩
          exact ⟨_, ⟨hnone, rfl⟩, hone, htwo⟩
      · rw [foundFrom_cons_of_neg htag, foundFrom_cons_of_neg htag']
        simp only [findStep_other htag htag', Except.ok.injEq, exists_eq_left', hrest]

theorem findStep_safe {header : Header} {first second : SectionTag} (hfirst : Known first)
    (hsecond : Known second) {index : ℕ} {entry : Entry} {found : Option Found × Option Found}
    (h : EntryOk strict bytes header entry) :
    Check.Safe (findStep strict first second bytes index entry found) := by
  unfold findStep
  split
  case isTrue htag =>
    rw [readKnownEntry_eq h (htag ▸ hfirst.notOverview) (htag ▸ hfirst.standard)]
    exact Check.safe_bind (Check.safe_rejectIf _ _) fun _ _ => Check.safe_ok _
  case isFalse =>
    split
    case isTrue htag =>
      rw [readKnownEntry_eq h (htag ▸ hsecond.notOverview) (htag ▸ hsecond.standard)]
      exact Check.safe_bind (Check.safe_rejectIf _ _) fun _ _ => Check.safe_ok _
    case isFalse => exact Check.safe_ok _

private theorem findSections_walk (h : ContainerOk strict bytes input) (first second : SectionTag) :
    findSections strict first second bytes =
      Check.walk (findStep strict first second bytes) 0 ((headerOf bytes).directory bytes)
        (none, none) := by
  have hsize := h.size
  have hnot : ¬ bytes.length < headerSize := not_lt.mpr hsize
  have hfits : (headerOf bytes).directoryOffset + (headerOf bytes).sectionCount *
      directoryEntrySize ≤ bytes.length := h.headerOk.directoryFits
  have hproduct : field 4 bytes 20 * directoryEntrySize ≤ uint64Max :=
    (Nat.le_add_left _ _).trans (hfits.trans h.length_le)
  have hrange : ¬ rangeFits (field 8 bytes 24) (field 4 bytes 20 * directoryEntrySize)
      bytes.length = false := by
    rw [Bool.not_eq_false, rangeFits_iff]
    exact hfits
  rw [findSections]
  simp (disch := omega) only [Check.rejectIf, if_neg hnot, Check.read_of_le, Check.ok_bind,
    Check.within_of_le hproduct, if_neg hrange]
  exact h.forEntries_eq _

theorem findSections_eq_ok (h : ContainerOk strict bytes input) {first second : SectionTag}
    (hfirst : Known first) (hsecond : Known second) (hne : first ≠ second)
    {found : Option Found × Option Found} :
    findSections strict first second bytes = .ok found ↔
      foundAt bytes first = found.1.toList ∧ foundAt bytes second = found.2.toList := by
  rw [findSections_walk h, findWalk_eq_ok hfirst hsecond hne _ fun entry hmem => h.entry hmem]
  rfl

theorem findSections_safe (h : ContainerOk strict bytes input) {first second : SectionTag}
    (hfirst : Known first) (hsecond : Known second) :
    Check.Safe (findSections strict first second bytes) := by
  rw [findSections_walk h]
  apply Check.safe_walk (P := fun _ _ => True) _ _ _ trivial
  intro _ _ entry hmem _
  exact ⟨findStep_safe hfirst hsecond (h.entry hmem), fun _ _ => trivial⟩

theorem known_tempo : Known .tempo := ⟨rfl, by decide⟩
theorem known_localGrid : Known .localGrid := ⟨rfl, by decide⟩
theorem known_globalGrid : Known .globalGrid := ⟨rfl, by decide⟩
theorem known_revision : Known .revision := ⟨rfl, by decide⟩

/-- What the tempo reader finds. -/
theorem findTempoSections_eq_ok (h : ContainerOk strict bytes input)
    {found : Option Found × Option Found} :
    findTempoSections strict bytes = .ok found ↔
      foundAt bytes .tempo = found.1.toList ∧ foundAt bytes .localGrid = found.2.toList ∧
        (found.2.isSome = true → found.1.isSome = true) := by
  rw [findTempoSections, Check.bind_eq_ok]
  simp only [findSections_eq_ok h known_tempo known_localGrid (by decide), Check.bind_eq_ok,
    Check.rejectIf_eq_ok, Check.pure_eq_ok, Except.ok.injEq, exists_const]
  constructor
  · rintro ⟨found, ⟨hone, htwo⟩, hneeds, rfl⟩
    refine ⟨hone, htwo, fun hsome => ?_⟩
    rw [← Option.ne_none_iff_isSome]
    exact fun hnone => hneeds ⟨hsome, hnone⟩
  · rintro ⟨hone, htwo, hneeds⟩
    refine ⟨found, ⟨hone, htwo⟩, ?_, rfl⟩
    rintro ⟨hsome, hnone⟩
    exact Option.ne_none_iff_isSome.mpr (hneeds hsome) hnone

theorem findTempoSections_safe (h : ContainerOk strict bytes input) :
    Check.Safe (findTempoSections strict bytes) :=
  Check.safe_bind (findSections_safe h known_tempo known_localGrid) fun _ _ =>
    Check.safe_bind (Check.safe_rejectIf _ _) fun _ _ => Check.safe_ok _

/-- What the grid reader finds. -/
theorem findGridSections_eq_ok (h : ContainerOk strict bytes input)
    {found : Option (Found × Found)} :
    findGridSections strict bytes = .ok found ↔
      foundAt bytes .globalGrid = (found.map Prod.fst).toList ∧
        foundAt bytes .revision = (found.map Prod.snd).toList ∧
        ∀ pair ∈ found, pair.2.index = pair.1.index + 1 := by
  rw [findGridSections, Check.bind_eq_ok]
  simp only [findSections_eq_ok h known_globalGrid known_revision (by decide)]
  constructor
  · rintro ⟨⟨_ | grid, _ | revision⟩, ⟨hgrid, hrevision⟩, hrest⟩
    · obtain rfl := Except.ok.inj hrest
      exact ⟨hgrid, hrevision, fun _ hmem => absurd hmem (Option.not_mem_none _)⟩
    · cases hrest
    · cases hrest
    · simp only [Check.bind_eq_ok, Check.rejectIf_eq_ok, Check.pure_eq_ok, Except.ok.injEq,
        exists_const, ne_eq, not_not] at hrest
      obtain ⟨hindex, rfl⟩ := hrest
      refine ⟨hgrid, hrevision, fun pair hmem => ?_⟩
      rw [Option.mem_some_iff] at hmem
      rwa [← hmem]
  · rintro ⟨hgrid, hrevision, hindex⟩
    refine ⟨(found.map Prod.fst, found.map Prod.snd), ⟨hgrid, hrevision⟩, ?_⟩
    cases found with
    | none => rfl
    | some pair =>
        have hnext : ¬ pair.2.index ≠ pair.1.index + 1 := not_not.mpr (hindex pair rfl)
        show Check.rejectIf _ _ >>= _ = _
        rw [Check.rejectIf, if_neg hnext]
        rfl

theorem findGridSections_safe (h : ContainerOk strict bytes input) :
    Check.Safe (findGridSections strict bytes) := by
  refine Check.safe_bind (findSections_safe h known_globalGrid known_revision) fun found _ => ?_
  rcases found with ⟨_ | grid, _ | revision⟩
  · exact Check.safe_ok _
  · exact Check.safe_reject _
  · exact Check.safe_reject _
  · exact Check.safe_bind (Check.safe_rejectIf _ _) fun _ _ => Check.safe_ok _

theorem findMetaStep_eq_ok {header : Header} {entry : Entry} {found found' : Option Bytes}
    (h : EntryOk strict bytes header entry) (htag : entry.tag = .metadata) :
    findMetaStep bytes entry found = .ok found' ↔
      found = none ∧ found' = some (entry.payload bytes) := by
  have hversion : entry.version = 1 := h.version (htag ▸ rfl)
  simp only [findMetaStep, Check.bind_eq_ok, Check.rejectIf_eq_ok, Check.view_eq_ok, hversion,
    Check.pure_eq_ok, Except.ok.injEq, exists_and_left, exists_const, Bool.not_eq_true,
    Option.isSome_eq_false_iff, Option.isNone_iff_eq_none, Bool.not_eq_false, rangeFits_iff, ne_eq,
    not_true_eq_false, not_false_eq_true, true_and]
  constructor
  · rintro ⟨hnone, -, _, ⟨-, rfl⟩, rfl⟩
    exact ⟨hnone, rfl⟩
  · rintro ⟨hnone, rfl⟩
    exact ⟨hnone, h.fits, _, ⟨h.fits, rfl⟩, rfl⟩

theorem findMetaStep_safe {header : Header} {entry : Entry} {found : Option Bytes}
    (h : EntryOk strict bytes header entry) : Check.Safe (findMetaStep bytes entry found) := by
  simp [findMetaStep, Check.safe_bind_iff, h.fits]

private theorem findMetaSection_walk (h : ContainerOk strict bytes input) :
    findMetaSection bytes =
      Check.walk (fun _ entry found => findMetaStep bytes entry found) 0
        (sections bytes .metadata) none := by
  have hsize := h.size
  rw [findMetaSection]
  simp (disch := omega) only [Check.read_of_le, Check.ok_bind]
  exact h.forSections_eq _

/-- What the metadata reader finds. -/
theorem findMetaSection_eq_ok (h : ContainerOk strict bytes input) {found : Option Bytes} :
    findMetaSection bytes = .ok found ↔
      (sections bytes .metadata).map (fun entry => entry.payload bytes) = found.toList := by
  have hwalk : ∀ entries : List Entry, (∀ entry ∈ entries, entry ∈ sections bytes .metadata) →
      ∀ index (before : Option Bytes),
        Check.walk (fun _ entry found => findMetaStep bytes entry found) index entries before =
            .ok found ↔
          before.toList ++ entries.map (fun entry => entry.payload bytes) = found.toList := by
    intro entries
    induction entries with
    | nil =>
        intro _ _ before
        cases before <;> cases found <;> simp
    | cons entry rest ih =>
        intro hmem index before
        obtain ⟨hentry, htag⟩ := h.sectionEntry (hmem entry List.mem_cons_self)
        have hrest := ih (fun other hother => hmem other (List.mem_cons_of_mem _ hother))
        rw [Check.walk_cons_eq_ok, List.map_cons, toList_append_cons]
        simp only [findMetaStep_eq_ok hentry htag, hrest]
        constructor
        · rintro ⟨_, ⟨hnone, rfl⟩, heq⟩
          exact ⟨hnone, heq⟩
        · rintro ⟨hnone, heq⟩
          exact ⟨_, ⟨hnone, rfl⟩, heq⟩
  rw [findMetaSection_walk h, hwalk _ (fun _ hmem => hmem)]
  rfl

theorem findMetaSection_safe (h : ContainerOk strict bytes input) :
    Check.Safe (findMetaSection bytes) := by
  rw [findMetaSection_walk h]
  apply Check.safe_walk (P := fun _ _ => True) _ _ _ trivial
  intro _ _ entry hmem _
  exact ⟨findMetaStep_safe (h.sectionEntry hmem).1, fun _ _ => trivial⟩

end Lookup

end LibApta.Container
