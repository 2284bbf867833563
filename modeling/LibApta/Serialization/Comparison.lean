import LibApta.Serialization.Guarantees

/-!
# Two parses side by side

Each stage is compared with itself under other options and on another container. What the stage
reads must be the same, up to the order of the detail tiles, and the second run must not be stricter;
then whatever the first run achieves the second achieves in the same way. The limit on allocated
bytes may be smaller in the second run if its rejection is let pass.
-/

namespace LibApta.Container

open LittleEndian

section Stages

variable {C : ErrorCode → Prop} {sizes : Sizes} {options options' : Option ParseOptions}
  {bytes bytes' payload : Bytes} {input input' : WovrInput}

/-- The second limit is no smaller, or its rejection is let pass. -/
def LimitPasses (C : ErrorCode → Prop) (limit limit' : ℕ) : Prop :=
  limit ≤ limit' ∨ C .limitExceeded

theorem resultAllocationFits_mono {data : ResultData} {additional limit limit' : ℕ}
    (h : resultAllocationFits sizes data additional limit = true) (hle : limit ≤ limit') :
    resultAllocationFits sizes data additional limit' = true := by
  rw [resultAllocationFits] at h ⊢
  cases hbytes : resultAllocationBytes sizes data with
  | none =>
      rw [hbytes] at h
      cases h
  | some existing =>
      rw [hbytes] at h
      simp only [Bool.and_eq_true, decide_eq_true_eq] at h ⊢
      omega

theorem LimitPasses.fits {limit limit' : ℕ} (h : LimitPasses C limit limit') {data : ResultData}
    {additional : ℕ} (hfits : ¬ resultAllocationFits sizes data additional limit = false) :
    ¬ resultAllocationFits sizes data additional limit' = false ∨ C .limitExceeded := by
  rw [Bool.not_eq_false] at hfits ⊢
  exact h.imp (resultAllocationFits_mono hfits) id

/-! ## Base layer -/

/-- The base layer reads the same of two containers. -/
structure SameBase (options options' : Option ParseOptions) (input input' : WovrInput) : Prop where
  payload : input'.payload = input.payload
  data : baseData input'.header = baseData input.header
  geometry : ∀ packed, validateWovrGeometry (effectiveOptions options) input = .ok packed →
    validateWovrGeometry (effectiveOptions options') input' = .ok packed

theorem buildParsedResult_below (hlimit : LimitPasses C (allocationLimit options)
    (allocationLimit options')) (hpayload : input'.payload = input.payload)
    (hdata : baseData input'.header = baseData input.header) (packed : ℕ) :
    Attempt.Below C (buildParsedResult sizes (effectiveOptions options) input packed)
      (buildParsedResult sizes (effectiveOptions options') input' packed) := by
  rw [buildParsedResult, buildParsedResult, hpayload, hdata]
  apply Attempt.Below.bind_same
  intro header
  apply Attempt.Below.bind_same
  intro needed
  refine Attempt.Below.bind_rejectIf ?_ fun _ => Attempt.Below.refl _
  rw [effectiveOptions_maximumAllocationBytes, effectiveOptions_maximumAllocationBytes, not_lt,
    not_lt]
  exact fun hfits => hlimit.imp hfits.trans id

theorem parseBase_below (hlimit : LimitPasses C (allocationLimit options)
    (allocationLimit options')) (hvalid : optionsValid options = true → optionsValid options' = true)
    (hcontainer : ∀ input, validateContainer (effectiveOptions options) bytes = .ok input →
      ∃ input', validateContainer (effectiveOptions options') bytes' = .ok input' ∧
        SameBase options options' input input') :
    Attempt.Below C (parseBase sizes options bytes) (parseBase sizes options' bytes') := by
  refine Attempt.Below.bind_check fun effective heffective => ?_
  simp only [resolveParseOptions, Check.bind_eq_ok, Check.rejectIf_eq_ok, Bool.not_eq_false,
    exists_const, Check.pure_eq_ok, Except.ok.injEq] at heffective
  obtain ⟨hvalid₁, rfl⟩ := heffective
  refine ⟨effectiveOptions options', ?_, ?_⟩
  · simp [resolveParseOptions, hvalid hvalid₁, Check.rejectIf]
  refine Attempt.Below.bind_check fun input hinput => ?_
  obtain ⟨input', hinput', hsame⟩ := hcontainer input hinput
  refine ⟨input', hinput', Attempt.Below.bind_check fun packed hpacked => ?_⟩
  exact ⟨packed, hsame.geometry packed hpacked,
    buildParsedResult_below hlimit hsame.payload hsame.data packed⟩

/-- The overview hardening reads the same of two containers with one overview and one duration. -/
theorem hardenWovr_below {strict strict' : Bool} (h : ContainerOk strict bytes input)
    (h' : ContainerOk strict' bytes' input') (hpayload : input'.payload = input.payload)
    (htotal : (headerOf bytes').totalSourceFrames = (headerOf bytes).totalSourceFrames) :
    Attempt.Below C (hardenWovr bytes) (hardenWovr bytes') := by
  have hsize := h.size
  have hsize' := h'.size
  have hread : (Check.read 8 bytes' 40 : Check ErrorCode ℕ) = Check.read 8 bytes 40 := by
    rw [Check.read_of_le (by omega), Check.read_of_le (by omega)]
    exact congrArg Except.ok htotal
  rw [hardenWovr, hardenWovr, findWovrPayload_eq h, findWovrPayload_eq h', hread, hpayload]
  exact Attempt.Below.refl _

/-! ## Detail -/

/-- The detail stage reads the same tiles of two containers, in any order. -/
structure SameDetail (options options' : Option ParseOptions) (bytes bytes' : Bytes) : Prop where
  ok : DetailOk (tileContext options bytes) (columnLimit options) bytes →
    DetailOk (tileContext options' bytes') (columnLimit options') bytes'
  sections : (sections bytes' .detail).length = (sections bytes .detail).length
  tiles : (tilesOf bytes' (Container.sections bytes' .detail)).length =
    (tilesOf bytes (Container.sections bytes .detail)).length
  columns : tileColumns (tilesOf bytes' (Container.sections bytes' .detail)) =
    tileColumns (tilesOf bytes (Container.sections bytes .detail))
  apart : Interval.collides (Interval.sorted
      (intervalsOf bytes (Container.sections bytes .detail))) = false →
    Interval.collides (Interval.sorted
      (intervalsOf bytes' (Container.sections bytes' .detail))) = false
  decoded : (decodedTiles bytes (Container.sections bytes .detail)).Perm
    (decodedTiles bytes' (Container.sections bytes' .detail))

theorem measureDetail_none_eq_ok {strict : Bool} (h : ContainerOk strict bytes input)
    {layout : DetailLayout} : measureDetail options none bytes = .ok layout ↔
      DetailOk (tileContext options bytes) (columnLimit options) bytes ∧
        layout = detailLayout none bytes :=
  measureDetail_eq_ok h fun _ hmem => absurd hmem (Option.not_mem_none _)

theorem attachDetail_below {strict strict' : Bool} (h : ContainerOk strict bytes input)
    (h' : ContainerOk strict' bytes' input') (hlimit : LimitPasses C (allocationLimit options)
    (allocationLimit options')) (hsame : SameDetail options options' bytes bytes') :
    Attempt.Below C (attachDetail sizes options bytes) (attachDetail sizes options' bytes') := by
  refine Attempt.Below.bind_check fun layout hlayout => ?_
  obtain ⟨hok, rfl⟩ := (measureDetail_none_eq_ok h).mp hlayout
  have hok' := hsame.ok hok
  refine ⟨detailLayout none bytes', (measureDetail_none_eq_ok h').mpr ⟨hok', rfl⟩, ?_⟩
  have hcount : (detailLayout none bytes').sectionCount = (detailLayout none bytes).sectionCount :=
    hsame.sections
  have htiles : (detailLayout none bytes').tileCount = (detailLayout none bytes).tileCount :=
    hsame.tiles
  have hcolumns : (detailLayout none bytes').totals.columnCount =
      (detailLayout none bytes).totals.columnCount := hsame.columns
  rw [hcount, htiles, hcolumns]
  split
  case isTrue => exact Attempt.Below.refl _
  apply Attempt.Below.bind_same
  intro needed
  apply Attempt.Below.bind_same
  intro work
  refine Attempt.Below.bind_rejectIf ?_ fun _ => ?_
  · rw [not_or, not_or]
    rintro ⟨hfits, hbytes⟩
    exact (hlimit.fits hfits).imp (fun hfits' => ⟨hfits', hbytes⟩) id
  apply Attempt.Below.bind_same
  intro intervals
  refine Attempt.Below.bind_ensuring fun layout hlayout => ?_
  obtain ⟨hapart, rfl⟩ := (validateDetail_eq_ok h hok).mp hlayout
  have hvalid' : validateDetail options' (detailLayout none bytes).tileCount bytes' =
      .ok (detailLayout (some (tilesOf bytes' (sections bytes' .detail)).length) bytes') := by
    rw [← htiles]
    exact (validateDetail_eq_ok h' hok').mpr ⟨hsame.apart hapart, rfl⟩
  refine ⟨_, hvalid', ?_⟩
  have htiles' : (detailLayout (some (tilesOf bytes' (sections bytes' .detail)).length)
      bytes').tileCount = (detailLayout (some (tilesOf bytes (sections bytes .detail)).length)
        bytes).tileCount := hsame.tiles
  have hcolumns' : (detailLayout (some (tilesOf bytes' (sections bytes' .detail)).length)
      bytes').totals.columnCount =
        (detailLayout (some (tilesOf bytes (sections bytes .detail)).length)
          bytes).totals.columnCount := hsame.columns
  rw [htiles', hcolumns']
  apply Attempt.Below.bind_same
  intro _
  apply Attempt.Below.bind_same
  intro _
  refine Attempt.Below.bind_check fun copied hcopied => ?_
  have hcopied' : copyDetail (tilesOf bytes (sections bytes .detail)).length
      (tileColumns (tilesOf bytes (sections bytes .detail))) bytes' = .ok
        (decodedTiles bytes' (sections bytes' .detail), (sections bytes' .detail).flatMap
          fun entry => (entry.tiles bytes').flatMap fun tile =>
            tile.columns (entry.payload bytes')) := by
    rw [← hsame.tiles, ← hsame.columns]
    exact copyDetail_eq h' hok'
  obtain rfl := Except.ok.inj ((copyDetail_eq h hok).symm.trans hcopied)
  refine ⟨_, hcopied', Attempt.Below.bind_check fun tiles htiles => ?_⟩
  obtain ⟨hkeys, rfl⟩ := sortTiles_eq_ok.mp htiles
  -- The sorted tiles do not depend on the order in which the sections give them.
  have hkeys' : ((decodedTiles bytes' (sections bytes' .detail)).map Tile.key).Nodup :=
    (hsame.decoded.map Tile.key).nodup_iff.mp hkeys
  refine ⟨_, sortTiles_eq_ok.mpr ⟨hkeys', rfl⟩, ?_⟩
  rw [SortKey.sortKey_congr hsame.decoded hkeys]
  exact Attempt.Below.refl _

/-! ## Metadata -/

theorem attachMetadata_below {strict strict' : Bool} (h : ContainerOk strict bytes input)
    (h' : ContainerOk strict' bytes' input') (hlimit : LimitPasses C (allocationLimit options)
    (allocationLimit options'))
    (hpayloads : (sections bytes' .metadata).map (fun entry => entry.payload bytes') =
      (sections bytes .metadata).map fun entry => entry.payload bytes) :
    Attempt.Below C (attachMetadata sizes options bytes) (attachMetadata sizes options' bytes') := by
  refine Attempt.Below.bind_check fun found hfound => ?_
  have hfound' : findMetaSection bytes' = .ok found :=
    (findMetaSection_eq_ok h').mpr (hpayloads.trans ((findMetaSection_eq_ok h).mp hfound))
  refine ⟨found, hfound', ?_⟩
  rcases found with _ | payload
  · exact Attempt.Below.refl _
  apply Attempt.Below.bind_same
  intro metadata
  apply Attempt.Below.bind_same
  intro needed
  apply Attempt.Below.bind_same
  intro work
  exact Attempt.Below.bind_rejectIf (fun hfits => hlimit.fits hfits) fun _ => Attempt.Below.refl _

/-! ## Tempo and grids -/

/-- The second context is no stricter. -/
structure PayloadContext.Weaker (context context' : PayloadContext) : Prop where
  strict : context'.strict = true → context.strict = true
  isPartial : context'.isPartial = context.isPartial

section Readers

variable {context context' : PayloadContext}

theorem TempHeaderOk.weaken {header : TempHeader} (hweaker : context.Weaker context')
    (h : TempHeaderOk context payload header) : TempHeaderOk context' payload header :=
  { h with
    state := hweaker.isPartial ▸ h.state
    reserved := fun hs => h.reserved (hweaker.strict hs) }

theorem CandidateOk.weaken {record : Bytes} (hweaker : context.Weaker context')
    (h : CandidateOk context record) : CandidateOk context' record :=
  { h with reserved := fun hs => h.reserved (hweaker.strict hs) }

theorem LocalGridOk.weaken {lgrd : LgrdPayload} (hweaker : context.Weaker context')
    (h : LocalGridOk context payload lgrd) : LocalGridOk context' payload lgrd :=
  { h with
    state := hweaker.isPartial ▸ h.state
    segmentState := hweaker.isPartial ▸ h.segmentState
    reserved := fun hs => h.reserved (hweaker.strict hs) }

theorem GgrdHeaderOk.weaken {header : GgrdHeader} (hweaker : context.Weaker context')
    (h : GgrdHeaderOk context payload header) : GgrdHeaderOk context' payload header :=
  { h with
    state := hweaker.isPartial ▸ h.state
    reserved := fun hs => h.reserved (hweaker.strict hs) }

theorem RevnOk.weaken {grid : Grid} {revision : Revision} (hweaker : context.Weaker context')
    (h : RevnOk context payload grid revision) : RevnOk context' payload grid revision :=
  { h with
    reserved := fun hs => h.reserved (hweaker.strict hs)
    revisionOk := hweaker.isPartial ▸ h.revisionOk }

theorem parseTemp_below (hlimit : LimitPasses C (allocationLimit options)
    (allocationLimit options')) (hweaker : context.Weaker context') :
    Attempt.Below C (parseTemp sizes options context payload)
      (parseTemp sizes options' context' payload) := by
  refine Attempt.Below.bind_check fun header hheader => ?_
  obtain ⟨rfl, hok⟩ := validateTempHeader_eq_ok.mp hheader
  refine ⟨_, validateTempHeader_eq_ok.mpr ⟨rfl, hok.weaken hweaker⟩, ?_⟩
  apply Attempt.Below.bind_same
  intro needed
  apply Attempt.Below.bind_same
  intro work
  refine Attempt.Below.bind_rejectIf (fun hfits => hlimit.fits hfits) fun _ => ?_
  apply Attempt.Below.bind_same
  intro _
  refine Attempt.Below.bind_check fun candidates hcandidates => ?_
  obtain ⟨hrecords, hfalling, rfl⟩ := (copyCandidates_eq_ok hok le_rfl).mp hcandidates
  exact ⟨_, (copyCandidates_eq_ok (hok.weaken hweaker) le_rfl).mpr
    ⟨fun record hmem => (hrecords record hmem).weaken hweaker, hfalling, rfl⟩,
    Attempt.Below.refl _⟩

theorem parseLocalGrid_below (hlimit : LimitPasses C (allocationLimit options)
    (allocationLimit options')) (hweaker : context.Weaker context') :
    Attempt.Below C (parseLocalGrid sizes options context payload)
      (parseLocalGrid sizes options' context' payload) := by
  refine Attempt.Below.bind_check fun lgrd hlgrd => ?_
  have hok := validateLocalGrid_eq_ok.mp hlgrd
  refine ⟨lgrd, validateLocalGrid_eq_ok.mpr (hok.weaken hweaker), ?_⟩
  apply Attempt.Below.bind_same
  intro work
  exact Attempt.Below.bind_rejectIf (fun hfits => hlimit.fits hfits) fun _ => Attempt.Below.refl _

theorem parseGlobalGrid_below (hlimit : LimitPasses C (allocationLimit options)
    (allocationLimit options')) (hweaker : context.Weaker context') :
    Attempt.Below C (parseGlobalGrid sizes options context payload)
      (parseGlobalGrid sizes options' context' payload) := by
  refine Attempt.Below.bind_check fun header hheader => ?_
  obtain ⟨rfl, hok⟩ := validateGgrdHeader_eq_ok.mp hheader
  have hok' := hok.weaken hweaker
  refine ⟨_, validateGgrdHeader_eq_ok.mpr ⟨rfl, hok'⟩, ?_⟩
  -- The copies at the end differ in the context only.
  have hcopy : Attempt.Below (σ := Work) C
      (do
        let segments ← Attempt.check (copySegments (ggrdHeaderOf payload).segmentCount context
          payload (ggrdHeaderOf payload))
        let beats ← Attempt.check (copyBeats (ggrdHeaderOf payload).beatCount context payload
          (ggrdHeaderOf payload))
        return (ggrdHeaderOf payload).grid segments beats)
      (do
        let segments ← Attempt.check (copySegments (ggrdHeaderOf payload).segmentCount context'
          payload (ggrdHeaderOf payload))
        let beats ← Attempt.check (copyBeats (ggrdHeaderOf payload).beatCount context' payload
          (ggrdHeaderOf payload))
        return (ggrdHeaderOf payload).grid segments beats) := by
    refine Attempt.Below.bind_check fun segments hsegments => ?_
    obtain ⟨hsegment, horder, rfl⟩ := (copySegments_eq_ok hok le_rfl).mp hsegments
    refine ⟨_, (copySegments_eq_ok hok' le_rfl).mpr ⟨fun record hmem => ⟨?_, fun hs => ?_⟩,
      horder, rfl⟩, ?_⟩
    · exact hweaker.isPartial ▸ (hsegment record hmem).1
    · exact (hsegment record hmem).2 (hweaker.strict hs)
    refine Attempt.Below.bind_check fun beats hbeats => ?_
    obtain ⟨hbeat, hbeatOrder, rfl⟩ := (copyBeats_eq_ok hok le_rfl).mp hbeats
    exact ⟨_, (copyBeats_eq_ok hok' le_rfl).mpr ⟨fun record hmem => ⟨(hbeat record hmem).1,
      fun hs => (hbeat record hmem).2 (hweaker.strict hs)⟩, hbeatOrder, rfl⟩,
      Attempt.Below.refl _⟩
  have hlast : ∀ u : Unit, Attempt.Below (σ := Work) C
      (do
        let work ← Attempt.get
        Attempt.rejectIf (work.parsed.pointers .gridCoverage = none ∨
          work.parsed.pointers .gridSegments = none ∨
          ((ggrdHeaderOf payload).beatCount ≠ 0 ∧ work.parsed.pointers .gridBeats = none))
          .outOfMemory
        let segments ← Attempt.check (copySegments (ggrdHeaderOf payload).segmentCount context
          payload (ggrdHeaderOf payload))
        let beats ← Attempt.check (copyBeats (ggrdHeaderOf payload).beatCount context payload
          (ggrdHeaderOf payload))
        return (ggrdHeaderOf payload).grid segments beats)
      (do
        let work ← Attempt.get
        Attempt.rejectIf (work.parsed.pointers .gridCoverage = none ∨
          work.parsed.pointers .gridSegments = none ∨
          ((ggrdHeaderOf payload).beatCount ≠ 0 ∧ work.parsed.pointers .gridBeats = none))
          .outOfMemory
        let segments ← Attempt.check (copySegments (ggrdHeaderOf payload).segmentCount context'
          payload (ggrdHeaderOf payload))
        let beats ← Attempt.check (copyBeats (ggrdHeaderOf payload).beatCount context' payload
          (ggrdHeaderOf payload))
        return (ggrdHeaderOf payload).grid segments beats) := fun _ =>
    Attempt.Below.bind_same fun _ => Attempt.Below.bind_same fun _ => hcopy
  apply Attempt.Below.bind_same
  intro needed
  apply Attempt.Below.bind_same
  intro work
  refine Attempt.Below.bind_rejectIf (fun hfits => hlimit.fits hfits) fun _ => ?_
  apply Attempt.Below.bind_same
  intro _
  apply Attempt.Below.bind_same
  intro _
  apply Attempt.Below.bind_same
  intro _
  dsimp only
  split
  case isTrue => exact hlast ()
  case isFalse => exact Attempt.Below.bind_same hlast

end Readers

theorem check_containerFlags {strict : Bool} (h : ContainerOk strict bytes input) :
    (Check.read 4 bytes 16 : Check ErrorCode ℕ) = .ok (headerOf bytes).containerFlags := by
  have hsize := h.size
  exact Check.read_of_le (by omega)

/-- A section is found again by its payload. -/
theorem exists_found {sections' : List Found} {found : Option Found}
    (h : sections'.map Found.payload = found.toList.map Found.payload) :
    ∃ found' : Option Found, sections' = found'.toList ∧
      found'.map Found.payload = found.map Found.payload := by
  cases found with
  | none => exact ⟨none, List.map_eq_nil_iff.mp h, rfl⟩
  | some found =>
      obtain ⟨found', rfl, hpayload⟩ := List.map_eq_singleton_iff.mp h
      exact ⟨some found', rfl, congrArg some hpayload⟩

theorem attachTempo_below (h : ContainerOk (isStrict options) bytes input)
    (h' : ContainerOk (isStrict options') bytes' input') (hlimit : LimitPasses C
    (allocationLimit options) (allocationLimit options'))
    (hweaker : (contextOf options bytes).Weaker (contextOf options' bytes'))
    (htempo : (foundAt bytes' .tempo).map Found.payload =
      (foundAt bytes .tempo).map Found.payload)
    (hgrid : (foundAt bytes' .localGrid).map Found.payload =
      (foundAt bytes .localGrid).map Found.payload) :
    Attempt.Below C (attachTempo sizes options bytes) (attachTempo sizes options' bytes') := by
  refine Attempt.Below.bind_check fun flags hflags => ?_
  obtain rfl := Except.ok.inj ((check_containerFlags h).symm.trans hflags)
  refine ⟨_, check_containerFlags h', Attempt.Below.bind_check fun found hfound => ?_⟩
  obtain ⟨hfirst, hsecond, hneeds⟩ := (findTempoSections_eq_ok h).mp hfound
  rw [hfirst] at htempo
  rw [hsecond] at hgrid
  obtain ⟨first', hfirst', hone⟩ := exists_found htempo
  obtain ⟨second', hsecond', htwo⟩ := exists_found hgrid
  have hneeds' : second'.isSome = true → first'.isSome = true := by
    rw [← Option.isSome_map (f := Found.payload) (x := second'),
      ← Option.isSome_map (f := Found.payload) (x := first'), hone, htwo, Option.isSome_map,
      Option.isSome_map]
    exact hneeds
  refine ⟨(first', second'), (findTempoSections_eq_ok h').mpr ⟨hfirst', hsecond', hneeds'⟩, ?_⟩
  obtain ⟨first, second⟩ := found
  dsimp only at hone htwo ⊢
  rcases first with _ | first
  · obtain rfl := Option.map_eq_none_iff.mp hone
    exact Attempt.Below.refl _
  obtain ⟨first', rfl, hpayload⟩ := Option.map_eq_some_iff.mp hone
  dsimp only
  rw [hpayload]
  refine (parseTemp_below hlimit hweaker).bind fun _ => ?_
  rcases second with _ | second
  · obtain rfl := Option.map_eq_none_iff.mp htwo
    exact Attempt.Below.refl _
  obtain ⟨second', rfl, hpayload'⟩ := Option.map_eq_some_iff.mp htwo
  dsimp only
  rw [hpayload']
  exact parseLocalGrid_below hlimit hweaker

/-- Where the grid sections stand next to each other in one directory, they do in the other. -/
def SameOrder (bytes bytes' : Bytes) : Prop :=
  ∀ ggrd revn ggrd' revn', foundAt bytes .globalGrid = [ggrd] → foundAt bytes .revision = [revn] →
    foundAt bytes' .globalGrid = [ggrd'] → foundAt bytes' .revision = [revn'] →
    revn.index = ggrd.index + 1 → revn'.index = ggrd'.index + 1

theorem attachGrid_below (h : ContainerOk (isStrict options) bytes input)
    (h' : ContainerOk (isStrict options') bytes' input') (hlimit : LimitPasses C
    (allocationLimit options) (allocationLimit options'))
    (hweaker : (contextOf options bytes).Weaker (contextOf options' bytes'))
    (hgrid : (foundAt bytes' .globalGrid).map Found.payload =
      (foundAt bytes .globalGrid).map Found.payload)
    (hrevision : (foundAt bytes' .revision).map Found.payload =
      (foundAt bytes .revision).map Found.payload) (horder : SameOrder bytes bytes') :
    Attempt.Below C (attachGrid sizes options bytes) (attachGrid sizes options' bytes') := by
  refine Attempt.Below.bind_check fun flags hflags => ?_
  obtain rfl := Except.ok.inj ((check_containerFlags h).symm.trans hflags)
  refine ⟨_, check_containerFlags h', Attempt.Below.bind_check fun found hfound => ?_⟩
  obtain ⟨hfirst, hsecond, hindex⟩ := (findGridSections_eq_ok h).mp hfound
  rw [hfirst] at hgrid
  rw [hsecond] at hrevision
  rcases found with _ | ⟨ggrd, revn⟩
  · have hfirst' : foundAt bytes' .globalGrid = [] := List.map_eq_nil_iff.mp hgrid
    have hsecond' : foundAt bytes' .revision = [] := List.map_eq_nil_iff.mp hrevision
    exact ⟨none, (findGridSections_eq_ok h').mpr ⟨hfirst', hsecond', by simp⟩,
      Attempt.Below.refl _⟩
  obtain ⟨ggrd', hfirst', hpayload⟩ := List.map_eq_singleton_iff.mp hgrid
  obtain ⟨revn', hsecond', hpayload'⟩ := List.map_eq_singleton_iff.mp hrevision
  have hnext : revn'.index = ggrd'.index + 1 :=
    horder ggrd revn ggrd' revn' hfirst hsecond hfirst' hsecond' (hindex (ggrd, revn) rfl)
  refine ⟨some (ggrd', revn'), (findGridSections_eq_ok h').mpr ⟨hfirst', hsecond', ?_⟩, ?_⟩
  · rintro pair ⟨⟩
    exact hnext
  dsimp only at hpayload hpayload' ⊢
  rw [hpayload, hpayload']
  apply Attempt.Below.bind_same
  intro work
  apply Attempt.Below.bind_same
  intro _
  refine (parseGlobalGrid_below hlimit hweaker).bind fun grid => ?_
  refine Attempt.Below.bind_check fun revision hrevision => ?_
  exact ⟨revision, parseRevision_eq_ok.mpr ((parseRevision_eq_ok.mp hrevision).weaken hweaker),
    Attempt.Below.refl _⟩

end Stages

/-! ## Layers -/

/-- What the first reply gives out the second gives out too, with the same context, unless it is an
error with one of the codes `C`. -/
def Reply.Below (C : ErrorCode → Prop) (reply reply' : Reply) : Prop :=
  reply.status = .ok () → reply' = reply ∨ ∃ code, C code ∧ reply'.status = Check.reject code

section Layers

variable {C : ErrorCode → Prop} {context : Context}

theorem Reply.below_ofRun {stage stage' : Attempt Work ErrorCode Unit}
    (hstage : Attempt.Below C stage stage') (work : Work) :
    Reply.Below C (Reply.ofRun (stage work)) (Reply.ofRun (stage' work)) := by
  intro hok
  rcases hrun : stage work with ⟨_ | _, next⟩
  · rw [hrun] at hok
    cases hok
  · obtain hrun' | ⟨code, stopped, hcode, hrun'⟩ := hstage _ _ _ hrun <;> rw [hrun']
    · exact .inl rfl
    · exact .inr ⟨code, hcode, rfl⟩

theorem Reply.Below.extend {inner inner' : Context → Reply}
    {stage stage' : Attempt Work ErrorCode Unit}
    (hinner : Reply.Below C (inner context) (inner' context))
    (hstage : Attempt.Below C stage stage')
    (hsafe : (Container.extend inner' stage' context).status ≠ Check.fault) :
    Reply.Below C (Container.extend inner stage context)
      (Container.extend inner' stage' context) := by
  intro hok
  rw [Container.extend] at hok hsafe ⊢
  rw [Container.extend]
  generalize inner context = reply at hinner hok ⊢
  generalize inner' context = reply' at hinner hsafe ⊢
  obtain ⟨status, resultOut, next⟩ := reply
  rcases status with _ | _
  · cases hok
  rcases resultOut with _ | parsed
  · cases hok
  obtain rfl | ⟨code, hcode, hrejected⟩ := hinner rfl
  · dsimp only at hok hsafe ⊢
    rcases hrun : stage ⟨next, parsed⟩ with ⟨(_ | code) | _, after⟩
    · rw [Attempt.onReject, hrun] at hok
      cases hok
    · rw [Attempt.onReject, hrun] at hok
      rcases hclean : releaseResult after with ⟨_ | _, last⟩ <;> simp only [hclean] at hok <;>
        cases hok
    · have hfirst : stage.onReject releaseResult ⟨next, parsed⟩ = (.ok (), after) := by
        rw [Attempt.onReject, hrun]
      obtain hrun' | ⟨code, stopped, hcode, hrun'⟩ := hstage _ _ _ hrun
      · have hsecond : stage'.onReject releaseResult ⟨next, parsed⟩ = (.ok (), after) := by
          rw [Attempt.onReject, hrun']
        rw [hfirst, hsecond]
        exact .inl rfl
      · right
        rw [Attempt.onReject, hrun'] at hsafe ⊢
        rcases hclean : releaseResult stopped with ⟨(_ | other) | _, last⟩
        · simp only [hclean] at hsafe
          exact absurd rfl hsafe
        · exact absurd hclean (releaseResult_unrejected stopped other last)
        · exact ⟨code, hcode, by simp only [hclean]; rfl⟩
  · right
    refine ⟨code, hcode, ?_⟩
    obtain ⟨status', resultOut', next'⟩ := reply'
    obtain rfl : status' = Check.reject code := hrejected
    rfl

theorem Reply.Below.hardenMeta {options options' : Option ParseOptions}
    {inner inner' : Context → Reply} (hvalid : optionsValid options = true →
      optionsValid options' = true) (hC : ¬ C .invalidArgument)
    (hinner : Reply.Below C (inner context) (inner' context)) :
    Reply.Below C (Container.hardenMeta options inner context)
      (Container.hardenMeta options' inner' context) := by
  intro hok
  rw [Container.hardenMeta] at hok ⊢
  rw [Container.hardenMeta]
  split at hok
  case isTrue => cases hok
  case isFalse hoptions =>
    have hoptions' : optionsValid options' = true := hvalid (Bool.not_eq_false _ ▸ hoptions)
    rw [if_neg hoptions, if_neg (by simp [hoptions'])]
    dsimp only at hok ⊢
    split at hok
    case isTrue => cases hok
    case isFalse hcode =>
      rw [if_neg hcode]
      obtain hsame | ⟨code, hmem, hrejected⟩ := hinner hok
      · rw [hsame, if_neg hcode]
        exact .inl rfl
      · have hne : (inner' context).status ≠ Check.reject .invalidArgument := by
          rw [hrejected]
          rintro ⟨⟩
          exact hC hmem
        rw [if_neg hne]
        exact .inr ⟨code, hmem, hrejected⟩

/-- A layer that commits no fault runs a layer that commits none. -/
theorem extend_safe {inner : Context → Reply} {stage : Attempt Work ErrorCode Unit}
    (h : (Container.extend inner stage context).status ≠ Check.fault) :
    (inner context).status ≠ Check.fault := by
  rw [Container.extend] at h
  generalize inner context = reply at h ⊢
  obtain ⟨status, resultOut, next⟩ := reply
  rintro rfl
  exact h rfl

theorem hardenMeta_safe {options : Option ParseOptions} {inner : Context → Reply}
    (hvalid : optionsValid options = true)
    (h : (Container.hardenMeta options inner context).status ≠ Check.fault) :
    (inner context).status ≠ Check.fault := by
  rw [Container.hardenMeta, if_neg (by simp [hvalid])] at h
  dsimp only at h
  split at h
  case isTrue hstatus =>
    rw [hstatus]
    rintro ⟨⟩
  case isFalse => exact h

/-- Two containers, under two options, give the parser the same to read. -/
structure Resembles (C : ErrorCode → Prop) (options options' : Option ParseOptions)
    (bytes bytes' : Bytes) (input input' : WovrInput) : Prop where
  valid : optionsValid options = true → optionsValid options' = true
  limit : LimitPasses C (allocationLimit options) (allocationLimit options')
  container : ContainerOk (isStrict options) bytes input
  container' : ContainerOk (isStrict options') bytes' input'
  reads : validateContainer (effectiveOptions options') bytes' = .ok input'
  base : SameBase options options' input input'
  total : (headerOf bytes').totalSourceFrames = (headerOf bytes).totalSourceFrames
  detail : SameDetail options options' bytes bytes'
  metadata : (sections bytes' .metadata).map (fun entry => entry.payload bytes') =
    (sections bytes .metadata).map fun entry => entry.payload bytes
  weaker : (contextOf options bytes).Weaker (contextOf options' bytes')
  tempo : (foundAt bytes' .tempo).map Found.payload = (foundAt bytes .tempo).map Found.payload
  localGrid : (foundAt bytes' .localGrid).map Found.payload =
    (foundAt bytes .localGrid).map Found.payload
  globalGrid : (foundAt bytes' .globalGrid).map Found.payload =
    (foundAt bytes .globalGrid).map Found.payload
  revision : (foundAt bytes' .revision).map Found.payload =
    (foundAt bytes .revision).map Found.payload
  order : SameOrder bytes bytes'

/-- Containers that resemble each other are parsed alike. -/
theorem resultParse_below {sizes : Sizes} {options options' : Option ParseOptions} {bytes : Bytes}
    {buffer' : Buffer} {input input' : WovrInput} (hC : ¬ C .invalidArgument)
    (h : Resembles C options options' bytes buffer'.bytes input input')
    (hvalid : optionsValid options = true) :
    Reply.Below C (resultParse sizes options bytes context)
      (resultParse sizes options' buffer'.bytes context) := by
  have hsafe := resultParse_safe sizes options' buffer' context
  have hsafeS4 := extend_safe hsafe
  have hsafeMeta := extend_safe hsafeS4
  have hsafeMeta' := hardenMeta_safe (h.valid hvalid) hsafeMeta
  have hsafeWaveform := extend_safe hsafeMeta'
  have hsafeHardened := extend_safe hsafeWaveform
  have hcontainer : ∀ other, validateContainer (effectiveOptions options) bytes = .ok other →
      ∃ input', validateContainer (effectiveOptions options') buffer'.bytes = .ok input' ∧
        SameBase options options' other input' := by
    intro other hother
    have hok := (validateContainer_eq_ok.mp hother).1
    rw [effectiveOptions_strict] at hok
    obtain rfl := h.container.unique hok
    exact ⟨input', h.reads, h.base⟩
  have hbase : Reply.Below C (resultParseBase sizes options bytes context)
      (resultParseBase sizes options' buffer'.bytes context) :=
    Reply.below_ofRun (parseBase_below h.limit h.valid hcontainer) _
  have hhardened := hbase.extend
    (hardenWovr_below h.container h.container' h.base.payload h.total) hsafeHardened
  have hwaveform := hhardened.extend
    (attachDetail_below h.container h.container' h.limit h.detail) hsafeWaveform
  have hmeta := (hwaveform.extend
    (attachMetadata_below h.container h.container' h.limit h.metadata) hsafeMeta').hardenMeta
      h.valid hC
  have htempo := hmeta.extend
    (attachTempo_below h.container h.container' h.limit h.weaker h.tempo h.localGrid) hsafeS4
  exact htempo.extend (attachGrid_below h.container h.container' h.limit h.weaker h.globalGrid
    h.revision h.order) hsafe

end Layers

end LibApta.Container
