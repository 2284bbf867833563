import LibApta.Serialization.Relaxation

/-!
# Rearranged containers

A container whose directory is permuted, or that carries more sections of unknown type, says the
same as before. Only the revision has a place of its own, directly after the global grid. Within
the limits of the options the parser gives the same result for both containers, in the same
context.
-/

namespace LibApta.Container

open LittleEndian

/-! ## Rearrangements -/

/-- What a header says of the source: the header without its fields on the layout of the file. -/
def Header.described (header : Header) : Header :=
  { header with headerSize := 0, sectionCount := 0, directoryOffset := 0, totalFileSize := 0, crc := 0 }

/-- The tags and payloads of the standard sections of a container, in directory order. -/
def standardSections (bytes : Bytes) : List (SectionTag × Bytes) :=
  (((headerOf bytes).directory bytes).filter fun entry => entry.tag.isStandard).map fun entry =>
    (entry.tag, entry.payload bytes)

/-- The second container is well formed, describes the same source, and has the standard sections of
the first one in some order, at any place of the file, besides sections of unknown type. A revision
that directly follows its grid still does. -/
structure Rearranged (strict : Bool) (bytes bytes' : Bytes) : Prop where
  header : HeaderOk bytes' (headerOf bytes')
  entries : ∀ entry ∈ (headerOf bytes').directory bytes',
    EntryOk strict bytes' (headerOf bytes') entry
  apart : ((headerOf bytes').directory bytes').Pairwise Apart
  described : (headerOf bytes').described = (headerOf bytes).described
  sections : (standardSections bytes').Perm (standardSections bytes)
  order : SameOrder bytes bytes'

/-- The payloads of the sections with a tag. -/
def payloads (bytes : Bytes) (tag : SectionTag) : List Bytes :=
  (sections bytes tag).map fun entry => entry.payload bytes

theorem payloads_eq {tag : SectionTag} (htag : tag.isStandard = true) (bytes : Bytes) :
    payloads bytes tag =
      ((standardSections bytes).filter fun part => part.1 = tag).map Prod.snd := by
  rw [payloads, sections, standardSections, List.filter_map, List.filter_filter, List.map_map]
  apply congrArg (List.map fun entry : Entry => entry.payload bytes)
  apply List.filter_congr
  intro entry _
  show decide (entry.tag = tag) = (decide (entry.tag = tag) && entry.tag.isStandard)
  by_cases heq : entry.tag = tag
  · simp [heq, htag]
  · simp [heq]

theorem map_payload_foundAt (bytes : Bytes) (tag : SectionTag) :
    (foundAt bytes tag).map Found.payload = payloads bytes tag :=
  map_payload_foundFrom bytes tag 0 _

/-- A list with at most one element is all its permutations. -/
theorem eq_of_perm_of_length_le_one {α : Type} {list other : List α} (h : list.Perm other)
    (hlen : other.length ≤ 1) : list = other := by
  rcases other with _ | ⟨a, _ | ⟨b, rest⟩⟩
  · exact h.eq_nil
  · exact List.perm_singleton.mp h
  · rw [List.length_cons, List.length_cons] at hlen
    omega

section Rearranged

variable {strict : Bool} {bytes bytes' : Bytes}

theorem Rearranged.payloads_perm (h : Rearranged strict bytes bytes') {tag : SectionTag}
    (htag : tag.isStandard = true) : (payloads bytes' tag).Perm (payloads bytes tag) := by
  rw [payloads_eq htag, payloads_eq htag]
  exact (h.sections.filter _).map _

theorem Rearranged.payloads_eq (h : Rearranged strict bytes bytes') {tag : SectionTag}
    (htag : tag.isStandard = true) (hlen : (payloads bytes tag).length ≤ 1) :
    payloads bytes' tag = payloads bytes tag :=
  eq_of_perm_of_length_le_one (h.payloads_perm htag) hlen

/-- The second container is valid, with the same overview payload. -/
theorem Rearranged.containerOk {input : WovrInput} (h : Rearranged strict bytes bytes')
    (hcontainer : ContainerOk strict bytes input) :
    ContainerOk strict bytes' ⟨headerOf bytes', input.payload⟩ := by
  refine ⟨rfl, h.header, h.entries, h.apart, ?_⟩
  have hlen : (payloads bytes .overview).length ≤ 1 := by
    rw [payloads, hcontainer.overview_eq]
    exact le_rfl
  exact (h.payloads_eq rfl hlen).trans hcontainer.overview_eq

end Rearranged

/-! ## Headers -/

section Headers

variable {header header' : Header}

theorem Header.totalSourceFrames_of_described (h : header'.described = header.described) :
    header'.totalSourceFrames = header.totalSourceFrames := by
  show header'.described.totalSourceFrames = header.described.totalSourceFrames
  rw [h]

theorem Header.isPartial_of_described (h : header'.described = header.described) :
    header'.isPartial = header.isPartial := by
  show header'.described.isPartial = header.described.isPartial
  rw [h]

/-- The base result depends on what the header says of the source. -/
theorem baseData_of_described (h : header'.described = header.described) :
    baseData header' = baseData header := by
  show baseData header'.described = baseData header.described
  rw [h]

/-- The geometry of an overview depends on what the header says of the source. -/
theorem GeometryOk.of_described {strict : Bool} {payload : Bytes} {overview : WovrHeader}
    {spans : List SpanEntry} (h : header'.described = header.described)
    (hgeometry : GeometryOk strict ⟨header, payload⟩ overview spans) :
    GeometryOk strict ⟨header', payload⟩ overview spans := by
  have htotal := Header.totalSourceFrames_of_described h
  have hunfinished := Header.isPartial_of_described h
  refine { hgeometry with headerOk := ?_, columnCount := ?_, frames := ?_ }
  · exact { hgeometry.headerOk with
      finalKnown := htotal.symm ▸ hgeometry.headerOk.finalKnown
      unfinished := hunfinished.symm ▸ hgeometry.headerOk.unfinished }
  · rw [ColumnCountOk, htotal]
    exact hgeometry.columnCount
  · intro span hmem
    have hframes := hgeometry.frames span hmem
    exact { hframes with
      last := htotal.symm ▸ hframes.last
      total := htotal.symm ▸ hframes.total }

end Headers

/-! ## Detail sections -/

section Detail

variable {context : TileContext} {strict : Bool} {bytes bytes' : Bytes} {input : WovrInput}

theorem tilesOf_eq (bytes : Bytes) :
    tilesOf bytes (sections bytes .detail) =
      (payloads bytes .detail).flatMap fun payload => tileTable payload (wdtlHeaderOf payload) := by
  rw [tilesOf, payloads, List.flatMap_map]
  rfl

theorem decodedTiles_eq (bytes : Bytes) :
    decodedTiles bytes (sections bytes .detail) = (payloads bytes .detail).flatMap fun payload =>
      (tileTable payload (wdtlHeaderOf payload)).map (tileOf payload) := by
  rw [decodedTiles, payloads, List.flatMap_map]
  rfl

/-- The columns of the tiles of one section lie apart. -/
def TilesApart (payload : Bytes) : Prop :=
  (tileTable payload (wdtlHeaderOf payload)).Pairwise fun tile other =>
    Interval.Apart (tile.interval 0) (other.interval 0)

/-- The place of a section does not matter for how its tiles lie to each other. -/
theorem apart_interval_iff (offset : ℕ) (tile other : TileEntry) :
    Interval.Apart (tile.interval offset) (other.interval offset) ↔
      Interval.Apart (tile.interval 0) (other.interval 0) := by
  show (offset + tile.columnsOffset + _ ≤ offset + other.columnsOffset ∨
      offset + other.columnsOffset + _ ≤ offset + tile.columnsOffset) ↔
    (0 + tile.columnsOffset + _ ≤ 0 + other.columnsOffset ∨
      0 + other.columnsOffset + _ ≤ 0 + tile.columnsOffset)
  omega

/-- Sections lie apart, so the columns of all tiles lie apart when those of each section do. -/
theorem collides_eq_false_iff (hcontainer : ContainerOk strict bytes input)
    (hok : ∀ entry ∈ sections bytes .detail, DetailSectionOk context bytes entry) :
    Interval.collides (Interval.sorted (intervalsOf bytes (sections bytes .detail))) = false ↔
      ∀ payload ∈ payloads bytes .detail, TilesApart payload := by
  have hnonempty : ∀ range ∈ intervalsOf bytes (sections bytes .detail), range.lo < range.hi := by
    intro range hrange
    obtain ⟨entry, hentry, hmem⟩ := List.mem_flatMap.mp hrange
    obtain ⟨tile, htile, rfl⟩ := List.mem_map.mp hmem
    have hcolumns := ((hok entry hentry).frames tile htile).columns
    show entry.offset + tile.columnsOffset < entry.offset + tile.columnsOffset + _ * 10
    omega
  have hsections : (sections bytes .detail).Pairwise Apart :=
    hcontainer.directoryOk.apart.filter _
  rw [Interval.sweep_iff hnonempty, intervalsOf, List.pairwise_flatMap, payloads,
    List.forall_mem_map]
  have hwithin : ∀ entry : Entry, ((entry.tiles bytes).map
      (TileEntry.interval entry.offset)).Pairwise Interval.Apart ↔
        TilesApart (entry.payload bytes) := by
    intro entry
    rw [List.pairwise_map]
    exact List.Pairwise.iff (apart_interval_iff entry.offset)
  constructor
  · rintro ⟨heach, -⟩ entry hmem
    exact (hwithin entry).mp (heach entry hmem)
  · intro heach
    refine ⟨fun entry hmem => (hwithin entry).mpr (heach entry hmem), ?_⟩
    -- The columns of a tile lie in the payload of its section.
    have hinside : ∀ entry ∈ sections bytes .detail,
        ∀ range ∈ (entry.tiles bytes).map (TileEntry.interval entry.offset),
          entry.offset ≤ range.lo ∧ range.lo < range.hi ∧
            range.hi ≤ entry.offset + entry.storedSize := by
      intro entry hentry range hrange
      have hlo := hnonempty range (List.mem_flatMap.mpr ⟨entry, hentry, hrange⟩)
      obtain ⟨tile, htile, rfl⟩ := List.mem_map.mp hrange
      have hfits := ((hok entry hentry).data tile htile).fits
      rw [hcontainer.length_payload (List.mem_of_mem_filter hentry)] at hfits
      refine ⟨Nat.le_add_right _ _, hlo, ?_⟩
      show entry.offset + tile.columnsOffset + _ ≤ _
      omega
    refine hsections.imp_of_mem fun {entry other} hentry hother hapart => ?_
    intro range hrange range' hrange'
    have hin := hinside entry hentry range hrange
    have hin' := hinside other hother range' hrange'
    by_contra hnot
    apply hapart
    have hover : ¬ (range.hi ≤ range'.lo ∨ range'.hi ≤ range.lo) := hnot
    refine ⟨?_, ?_, ?_, ?_⟩ <;> omega

/-- Whether a detail section is acceptable depends on its payload. -/
theorem DetailSectionOk.of_payload {entry entry' : Entry} (h : DetailSectionOk context bytes entry)
    (hversion : entry'.version = 1) (hpayload : entry'.payload bytes' = entry.payload bytes) :
    DetailSectionOk context bytes' entry' := by
  obtain ⟨-, hsize, htiles, hreserved, hafter, hfits, hframes, hdata⟩ := h
  refine ⟨hversion, ?_, ?_, ?_, ?_, ?_, ?_, ?_⟩ <;>
    simp only [Entry.wdtlHeader, Entry.tiles, hpayload] <;> assumption

/-- Detail sections with the same payloads in another order are measured and decoded alike. -/
theorem sameDetail_of_perm {options : Option ParseOptions} {input' : WovrInput}
    (hcontainer : ContainerOk strict bytes input) (hcontainer' : ContainerOk strict bytes' input')
    (hdescribed : (headerOf bytes').described = (headerOf bytes).described)
    (hperm : (payloads bytes' .detail).Perm (payloads bytes .detail))
    (hok : sections bytes .detail ≠ [] →
      DetailOk (tileContext options bytes) (columnLimit options) bytes) :
    SameDetail options options bytes bytes' := by
  have hcontext : tileContext options bytes' = tileContext options bytes := by
    rw [tileContext, Header.totalSourceFrames_of_described hdescribed,
      Header.isPartial_of_described hdescribed]
    rfl
  have htiles : (tilesOf bytes' (sections bytes' .detail)).Perm
      (tilesOf bytes (sections bytes .detail)) := by
    rw [tilesOf_eq, tilesOf_eq]
    exact hperm.flatMap_right _
  have hcolumns : tileColumns (tilesOf bytes' (sections bytes' .detail)) =
      tileColumns (tilesOf bytes (sections bytes .detail)) := (htiles.map _).sum_eq
  have hlength : (sections bytes' .detail).length = (sections bytes .detail).length := by
    have hpayloads := hperm.length_eq
    rwa [payloads, payloads, List.length_map, List.length_map] at hpayloads
  have hsections : (∀ entry ∈ sections bytes .detail,
      DetailSectionOk (tileContext options bytes) bytes entry) →
      ∀ entry ∈ sections bytes' .detail,
        DetailSectionOk (tileContext options bytes') bytes' entry := by
    intro hall entry' hentry'
    obtain ⟨hentryOk, htag⟩ := hcontainer'.sectionEntry hentry'
    have hmem : entry'.payload bytes' ∈ payloads bytes .detail :=
      hperm.subset (List.mem_map_of_mem hentry')
    obtain ⟨entry, hentry, hpayload⟩ := List.mem_map.mp hmem
    rw [hcontext]
    exact (hall entry hentry).of_payload (hentryOk.version (htag ▸ rfl)) hpayload.symm
  refine ⟨?_, hlength, htiles.length_eq, hcolumns, ?_, ?_⟩
  · intro h
    refine ⟨hsections h.sections, ?_, ?_⟩
    · rw [htiles.length_eq]
      exact h.tiles
    · rw [hcolumns]
      exact h.columns
  · intro hapart
    have hall : ∀ entry ∈ sections bytes .detail,
        DetailSectionOk (tileContext options bytes) bytes entry :=
      fun entry hmem => (hok (List.ne_nil_of_mem hmem)).sections entry hmem
    have hapart' := (collides_eq_false_iff hcontainer hall).mp hapart
    refine (collides_eq_false_iff hcontainer' (hsections hall)).mpr ?_
    exact fun payload hmem => hapart' payload (hperm.subset hmem)
  · rw [decodedTiles_eq, decodedTiles_eq]
    exact (hperm.flatMap_right _).symm

end Detail

/-! ## Permuted directories -/

section Permuted

variable {strict : Bool} {bytes : Bytes} {input : WovrInput} {table : List Bytes}

section Records

variable (hcontainer : ContainerOk strict bytes input)
  (hperm : table.Perm (records directoryEntrySize bytes (headerOf bytes).directoryOffset
    (headerOf bytes).sectionCount))

include hcontainer hperm

end Records

end Permuted

/-! ## The same result -/

section Parse

variable {sizes : Sizes} {options : Option ParseOptions} {bytes bytes' : Bytes}
  {input : WovrInput} {header : WovrHeader} {spans : List SpanEntry} {data : ResultData}

/-- A container that was accepted has at most one section of each tag but the detail sections. -/
theorem Accepts.length_payloads_le (h : Accepts options bytes input header spans data)
    {tag : SectionTag} (htag : tag ∈ [.metadata, .tempo, .localGrid, .globalGrid, .revision]) :
    (payloads bytes tag).length ≤ 1 := by
  have hfound : ∀ {tag : SectionTag} {found : List Found}, foundAt bytes tag = found →
      found.length ≤ 1 → (payloads bytes tag).length ≤ 1 := by
    intro tag found hfound hlen
    rw [← map_payload_foundAt, hfound, List.length_map]
    exact hlen
  obtain ⟨_, _, _, -, hmeta, htempo, hgrid⟩ := h.steps
  simp only [List.mem_cons, List.not_mem_nil, or_false] at htag
  obtain rfl | rfl | rfl | rfl | rfl := htag
  · obtain ⟨hnone, -⟩ | ⟨_, _, hone, -⟩ := hmeta
    · rw [payloads, hnone]
      exact Nat.zero_le _
    · rw [payloads, hone]
      exact le_rfl
  · obtain ⟨hnone, -⟩ | ⟨_, hone, -⟩ := htempo
    · exact hfound hnone (Nat.zero_le _)
    · exact hfound hone le_rfl
  · obtain ⟨-, hnone, -⟩ | ⟨_, -, -, ⟨hnone, -⟩ | ⟨_, hone, -⟩⟩ := htempo
    · exact hfound hnone (Nat.zero_le _)
    · exact hfound hnone (Nat.zero_le _)
    · exact hfound hone le_rfl
  · obtain ⟨hnone, -⟩ | ⟨_, _, hone, -⟩ := hgrid
    · exact hfound hnone (Nat.zero_le _)
    · exact hfound hone le_rfl
  · obtain ⟨-, hnone, -⟩ | ⟨_, _, -, hone, -⟩ := hgrid
    · exact hfound hnone (Nat.zero_le _)
    · exact hfound hone le_rfl

/-- A rearranged container resembles the one it was made from. -/
theorem Rearranged.resembles (h : Rearranged (isStrict options) bytes bytes')
    (haccepts : Accepts options bytes input header spans data)
    (hlimits : HeaderLimits (effectiveOptions options) bytes') :
    Resembles (fun _ => False) options options bytes bytes' input
      ⟨headerOf bytes', input.payload⟩ := by
  have hcontainer := haccepts.base.container
  have hcontainer' := h.containerOk hcontainer
  have hdescribed := h.described
  have htotal := Header.totalSourceFrames_of_described hdescribed
  have hsame : ∀ tag ∈ [.metadata, .tempo, .localGrid, .globalGrid, .revision],
      payloads bytes' tag = payloads bytes tag := by
    intro tag htag
    refine h.payloads_eq ?_ (haccepts.length_payloads_le htag)
    simp only [List.mem_cons, List.not_mem_nil, or_false] at htag
    obtain rfl | rfl | rfl | rfl | rfl := htag <;> rfl
  have hfound : ∀ tag ∈ [.metadata, .tempo, .localGrid, .globalGrid, .revision],
      (foundAt bytes' tag).map Found.payload = (foundAt bytes tag).map Found.payload := by
    intro tag htag
    rw [map_payload_foundAt, map_payload_foundAt, hsame tag htag]
  have hinput : input = ⟨headerOf bytes, input.payload⟩ := by rw [← hcontainer.header_eq]
  have hle : ∀ any : Bytes, (headerOf any).totalSourceFrames ≤ uint64Max :=
    fun _ => Nat.le_of_lt_succ field_lt
  refine ⟨id, .inl le_rfl, hcontainer, hcontainer', ?_, ⟨rfl, ?_, ?_⟩, htotal, ?_,
    hsame _ (by simp), ⟨id, ?_⟩, hfound _ (by simp), hfound _ (by simp), hfound _ (by simp),
    hfound _ (by simp), h.order⟩
  · exact validateContainer_eq_ok.mpr ⟨by rwa [effectiveOptions_strict], hlimits⟩
  · rw [hcontainer.header_eq]
    exact baseData_of_described hdescribed
  · intro packed hpacked
    rw [hinput] at hpacked
    obtain ⟨header', spans', hgeometry, hoverview, hcount, rfl⟩ :=
      (@validateWovrGeometry_eq_ok _ ⟨headerOf bytes, input.payload⟩ _ (hle bytes)
        hcontainer.payload_le).mp hpacked
    exact (@validateWovrGeometry_eq_ok _ ⟨headerOf bytes', input.payload⟩ _ (hle bytes')
      hcontainer.payload_le).mpr
      ⟨header', spans', hgeometry.of_described hdescribed, hoverview, hcount, rfl⟩
  · refine sameDetail_of_perm hcontainer hcontainer' hdescribed (h.payloads_perm rfl) ?_
    intro hsome
    obtain ⟨_, _, _, hdetail, -⟩ := haccepts.steps
    rw [DetailStep, if_neg hsome] at hdetail
    exact hdetail.1.ok
  · exact Header.isPartial_of_described hdescribed

end Parse

/-- A container that was accepted gives the same result in the same context after its sections were
rearranged and optional sections of unknown type were added, within the limits on the number of
sections and the size of the file. -/
theorem resultParse_rearranged (sizes : Sizes) (options : Option ParseOptions)
    (buffer buffer' : Buffer) (context : Context)
    (haccepted : (resultParse sizes options buffer.bytes context).status = .ok ())
    (h : Rearranged (isStrict options) buffer.bytes buffer'.bytes)
    (hlimits : HeaderLimits (effectiveOptions options) buffer'.bytes) :
    resultParse sizes options buffer'.bytes context =
      resultParse sizes options buffer.bytes context := by
  obtain ⟨_, _, input, header, spans, -, haccepts, -⟩ := resultParse_ok haccepted
  obtain hsame | ⟨_, hfalse, -⟩ := resultParse_below not_false (h.resembles haccepts hlimits)
    haccepts.base.valid haccepted
  · exact hsame
  · exact hfalse.elim

/-! ### The small container with a section of unknown type -/

/-- The header of the extended container, up to the checksum. -/
def extendedHeader : Bytes :=
  magic ++ encode 2 96 ++ encode 2 1 ++ encode 2 1 ++ encode 2 0 ++ encode 4 1 ++ encode 4 0 ++
    encode 4 2 ++ encode 8 96 ++ encode 8 (184 + smallOverview.length) ++ encode 8 1 ++
    encode 4 44100 ++ encode 2 1 ++ encode 2 1 ++ List.replicate 32 0 ++ encode 4 0

/-- The small container with a section of unknown type before the overview. -/
def extendedContainer : Bytes :=
  extendedHeader ++ encode 4 (crc32c extendedHeader) ++
    recordOf [0x58, 0x58, 0x58, 0x58] [1, 2, 3] 0 176 ++
    recordOf SectionTag.overview.bytes smallOverview 1 184 ++
    [1, 2, 3] ++ List.replicate 5 0 ++ smallOverview

theorem extendedContainer_rearranged :
    Rearranged true smallContainer extendedContainer := by
  have hvalid : validateContainer (effectiveOptions none) extendedContainer =
      .ok ⟨headerOf extendedContainer, smallOverview⟩ := by
    decide +kernel
  obtain ⟨hcontainer, -⟩ := validateContainer_eq_ok.mp hvalid
  have hsections : standardSections extendedContainer = standardSections smallContainer := by
    decide +kernel
  refine ⟨hcontainer.headerOk, hcontainer.directoryOk.entries, hcontainer.directoryOk.apart,
    by decide +kernel, List.Perm.of_eq hsections, ?_⟩
  intro ggrd _ _ _ hggrd
  have hnone : foundAt smallContainer .globalGrid = [] := by decide +kernel
  rw [hnone] at hggrd
  cases hggrd

theorem resultParse_extendedContainer :
    resultParse sampleSizes (strictOptions 0 0) extendedContainer ⟨freshHeap, 0⟩ =
      resultParse sampleSizes (strictOptions 0 0) smallContainer ⟨freshHeap, 0⟩ := by
  refine resultParse_rearranged sampleSizes (strictOptions 0 0) ⟨smallContainer, by decide +kernel⟩
    ⟨extendedContainer, by decide +kernel⟩ ⟨freshHeap, 0⟩
    (smallContainer_accepted 0) ?_ ?_
  · rw [isStrict_strictOptions]
    exact extendedContainer_rearranged
  · exact ⟨by decide +kernel, by decide +kernel⟩

/-- With a limit of one section the container with the added section is rejected. -/
theorem extendedContainer_rejected :
    Rearranged (isStrict (strictOptions 1 0)) smallContainer extendedContainer ∧
      (resultParse sampleSizes (strictOptions 1 0) smallContainer ⟨freshHeap, 0⟩).status = .ok () ∧
      (resultParse sampleSizes (strictOptions 1 0) extendedContainer ⟨freshHeap, 0⟩).status =
        Check.reject .limitExceeded := by
  refine ⟨?_, smallContainer_accepted 1, by decide +kernel⟩
  rw [isStrict_strictOptions]
  exact extendedContainer_rearranged

end LibApta.Container
