import LibApta.Serialization.ParseStages

/-!
# Triples for the tempo and grid stages

The steps of the two stages that attach a tempo with its local grid, and a global grid with its
revision. Both request several arrays before they look whether all of them were granted.
-/

namespace LibApta.Container

open LittleEndian

/-- What the tempo and grid readers use of the options and the header of a container. -/
def contextOf (options : Option ParseOptions) (bytes : Bytes) : PayloadContext :=
  ⟨isStrict options, (headerOf bytes).isPartial⟩

section Stages

variable {sizes : Sizes} {options : Option ParseOptions} {strict : Bool} {bytes payload : Bytes}
  {context : PayloadContext} {input : WovrInput} {account : Account} {count : ℕ}
  {data : ResultData}

/-! ## Tempo -/

/-- The tempo a payload describes. -/
def tempoOf (payload : Bytes) : Tempo :=
  ⟨(tempHeaderOf payload).selected,
    (candidateRecords payload (tempHeaderOf payload).candidateCount).map candidateOf⟩

/-- The result with a tempo. -/
def withTempo (payload : Bytes) (data : ResultData) : ResultData :=
  { data with
    tempo := some (tempoOf payload)
    availableFeatures := insert .bpm (insert .confidence data.availableFeatures) }

theorem charge_withTempo (sizes : Sizes) (hempty : data.tempo = none) :
    charge sizes (withTempo payload data) =
      charge sizes data + (tempHeaderOf payload).candidateCount * sizes.candidate := by
  have hlength : (tempoOf payload).candidates.length = (tempHeaderOf payload).candidateCount := by
    rw [tempoOf, List.length_map, candidateRecords, length_records]
  rw [charge_eq, charge_eq, hempty]
  simp only [withTempo, tempoCharge, Option.map_some, Option.map_none, Option.getD_some,
    Option.getD_none, hlength]
  omega

/-- The reader of a tempo payload takes its step. -/
theorem parseTemp_spec (hempty : data.tempo = none)
    (hbound : ∀ cap ∈ account.bound, allocationLimit options ≤ cap)
    (hfine : account.fine → TempoOk context payload (tempHeaderOf payload) ∧
      Affordable options (charge sizes (withTempo payload data))) :
    Attempt.Spec (Built sizes account 2 count data) (parseTemp sizes options context payload)
      (fun _ work => TempoOk context payload (tempHeaderOf payload) ∧
        Built sizes account 3 count (withTempo payload data) work)
      (Failed account count) := by
  refine Attempt.Spec.bind_check (validateTempHeader_safe context payload) ?_
    fun header hheader => ?_
  · intro code work hrejected hbuilt
    refine Holding.failed code hbuilt fun hf => ?_
    rw [validateTempHeader_eq_ok.mpr ⟨rfl, (hfine hf).1.headerOk⟩] at hrejected
    cases hrejected
  obtain ⟨rfl, hok⟩ := validateTempHeader_eq_ok.mp hheader
  obtain ⟨-, -, -, -, hcandidate, -⟩ := sizes.pos
  obtain ⟨-, -, -, -, hcandidateLe, -⟩ := sizes.le
  have hbytes : (tempHeaderOf payload).candidateCount * sizes.candidate ≤ maxCandidates * 65536 :=
    Nat.mul_le_mul hok.count.2 hcandidateLe
  have hpos : 1 ≤ (tempHeaderOf payload).candidateCount * sizes.candidate :=
    Nat.mul_pos (Nat.pos_of_ne_zero hok.count.1) hcandidate
  refine Attempt.Spec.bind_ok (Check.within_of_le (hbytes.trans (by decide))) ?_
  refine Attempt.Spec.bind_get fun seen hseen => ?_
  rw [hseen.data]
  have hcharge : charge sizes (withTempo payload data) = _ := charge_withTempo sizes hempty
  refine Attempt.Spec.bind_rejectIf ?_ fun hfits => ?_
  · intro hover work hbuilt
    refine Holding.failed _ hbuilt fun hf => ?_
    obtain ⟨-, hlimit, hmax⟩ := hfine hf
    rw [hcharge] at hlimit hmax
    have hroom := fits_of_le hlimit (by omega)
    exact Bool.noConfusion (hroom.symm.trans hover)
  rw [Bool.not_eq_false] at hfits
  have hroom := charge_add_le hfits
  have hcapRoom : ∀ cap ∈ account.bound, charge sizes data +
      (tempHeaderOf payload).candidateCount * sizes.candidate ≤ cap :=
    fun cap hcap => hroom.trans (hbound cap hcap)
  refine Attempt.Spec.bind ((allocateInto_spec (by decide) hpos hcapRoom).mono
    (fun _ hbuilt => hbuilt) (fun _ _ hbuilt => hbuilt) ?_) fun _ => ?_
  · rintro code work ⟨hnot, hbuilt⟩
    exact hbuilt.failed code hnot
  refine Attempt.Spec.bind_check (copyCandidates_safe hok) ?_ fun candidates hcandidates => ?_
  · intro code work hrejected hbuilt
    refine hbuilt.failed code fun hf => ?_
    obtain ⟨htempo, -⟩ := hfine hf
    rw [(copyCandidates_eq_ok hok le_rfl).mpr ⟨htempo.candidates, htempo.falling, rfl⟩]
      at hrejected
    cases hrejected
  obtain ⟨hrecords, hfalling, rfl⟩ := (copyCandidates_eq_ok hok le_rfl).mp hcandidates
  refine setData_spec.post fun _ work hbuilt => ⟨⟨rfl, hok, hrecords, hfalling⟩, ?_⟩
  rw [Built, hcharge]
  exact hbuilt.mono (by decide)

/-! ## Local grid -/

/-- The result with a local grid. -/
def withLocalGrid (payload : Bytes) (data : ResultData) : ResultData :=
  { data with
    localGrid := some (lgrdPayloadOf payload).grid
    availableFeatures := (if (lgrdPayloadOf payload).grid.isLocked then {.gridLocking} else ∅) ∪
      insert .localBeatgrid data.availableFeatures }

theorem charge_withLocalGrid (sizes : Sizes) (hempty : data.localGrid = none) :
    charge sizes (withLocalGrid payload data) =
      charge sizes data + sizes.range + sizes.segment := by
  rw [charge_eq, charge_eq, hempty]
  simp only [withLocalGrid, localGridCharge, LgrdPayload.grid, Option.map_some, Option.map_none,
    Option.getD_some, Option.getD_none, Option.toList_some, Option.toList_none, List.length_nil,
    List.length_cons]
  omega

/-- The nominal tempo of a local grid is the selected tempo of the result. -/
def NominalTempo (data : ResultData) (lgrd : LgrdPayload) : Prop :=
  lgrd.segment.nominalTempoMillibpm =
    (data.tempo.map fun tempo => tempo.selected.tempoMillibpm).getD 0

/-- The reader of a local grid payload takes its step. -/
theorem parseLocalGrid_spec (hempty : data.localGrid = none)
    (hbound : ∀ cap ∈ account.bound, allocationLimit options ≤ cap)
    (hfine : account.fine → LocalGridOk context payload (lgrdPayloadOf payload) ∧
      NominalTempo data (lgrdPayloadOf payload) ∧
      Affordable options (charge sizes (withLocalGrid payload data))) :
    Attempt.Spec (Built sizes account 3 count data)
      (parseLocalGrid sizes options context payload)
      (fun _ work => LocalGridOk context payload (lgrdPayloadOf payload) ∧
        NominalTempo data (lgrdPayloadOf payload) ∧
        Built sizes account 4 count (withLocalGrid payload data) work)
      (Failed account count) := by
  refine Attempt.Spec.bind_check (validateLocalGrid_safe context payload) ?_ fun lgrd hlgrd => ?_
  · intro code work hrejected hbuilt
    refine Holding.failed code hbuilt fun hf => ?_
    rw [validateLocalGrid_eq_ok.mpr (hfine hf).1] at hrejected
    cases hrejected
  have hok := validateLocalGrid_eq_ok.mp hlgrd
  obtain rfl := hok.lgrd_eq
  obtain ⟨-, -, -, -, -, hrange, hsegment, -⟩ := sizes.pos
  refine Attempt.Spec.bind_get fun seen hseen => ?_
  rw [hseen.data]
  have hcharge : charge sizes (withLocalGrid payload data) = _ :=
    charge_withLocalGrid sizes hempty
  refine Attempt.Spec.bind_rejectIf ?_ fun hfits => ?_
  · intro hover work hbuilt
    refine Holding.failed _ hbuilt fun hf => ?_
    obtain ⟨-, -, hlimit, hmax⟩ := hfine hf
    rw [hcharge, Nat.add_assoc] at hlimit hmax
    have hroom := fits_of_le hlimit (by omega)
    exact Bool.noConfusion (hroom.symm.trans hover)
  rw [Bool.not_eq_false] at hfits
  have hroom := charge_add_le hfits
  refine Attempt.Spec.bind_rejectIf ?_ fun htempo => ?_
  · intro hother work hbuilt
    exact Holding.failed _ hbuilt fun hf => hother (hfine hf).2.1
  rw [not_not] at htempo
  have hrangeRoom : ∀ cap ∈ account.bound, charge sizes data + sizes.range ≤ cap := by
    intro cap hcap
    have := hbound cap hcap
    omega
  have hsegmentRoom : ∀ cap ∈ account.bound,
      charge sizes data + sizes.range + sizes.segment ≤ cap := by
    intro cap hcap
    have := hbound cap hcap
    omega
  refine Attempt.Spec.bind ((tryAllocateInto_spec (by decide) hrange hrangeRoom).pre
    fun _ hbuilt => Holding.tried hbuilt) fun _ => ?_
  refine Attempt.Spec.bind (tryAllocateInto_spec (by decide) hsegment hsegmentRoom) fun _ => ?_
  refine tried_spec ?_ (setData_spec.post fun _ work hbuilt => ⟨hok, htempo, ?_⟩)
  · intro work
    simp only [List.mem_cons, List.not_mem_nil, or_false, exists_eq_or_imp, exists_eq_left]
    exact or_comm
  · rw [Built, hcharge]
    exact hbuilt.mono (by decide)

/-- The step of the local grid. -/
def LocalGridStep (options : Option ParseOptions) (bytes : Bytes) (data data' : ResultData) :
    Prop :=
  (foundAt bytes .localGrid = [] ∧ data' = data) ∨
    ∃ grid, foundAt bytes .localGrid = [grid] ∧
      LocalGridOk (contextOf options bytes) grid.payload (lgrdPayloadOf grid.payload) ∧
      NominalTempo data (lgrdPayloadOf grid.payload) ∧ data' = withLocalGrid grid.payload data

/-- The step of the tempo stage. -/
def TempoStep (options : Option ParseOptions) (bytes : Bytes) (data data' : ResultData) : Prop :=
  (foundAt bytes .tempo = [] ∧ foundAt bytes .localGrid = [] ∧ data' = data) ∨
    ∃ temp, foundAt bytes .tempo = [temp] ∧
      TempoOk (contextOf options bytes) temp.payload (tempHeaderOf temp.payload) ∧
      LocalGridStep options bytes (withTempo temp.payload data) data'

theorem Affordable.mono {bytes bytes' : ℕ} (h : Affordable options bytes') (hle : bytes ≤ bytes') :
    Affordable options bytes := ⟨hle.trans h.1, hle.trans h.2⟩

theorem LocalGridStep.charge_le {data' : ResultData} (h : LocalGridStep options bytes data data')
    (hempty : data.localGrid = none) (sizes : Sizes) : charge sizes data ≤ charge sizes data' := by
  obtain ⟨-, rfl⟩ | ⟨_, -, -, -, rfl⟩ := h
  · exact le_rfl
  · rw [charge_withLocalGrid sizes hempty]
    omega

/-- The tempo stage takes its step. -/
theorem attachTempo_spec (h : ContainerOk (isStrict options) bytes input)
    (htempo : data.tempo = none) (hgrid : data.localGrid = none)
    (hbound : ∀ cap ∈ account.bound, allocationLimit options ≤ cap)
    (hfine : account.fine → ∃ data', TempoStep options bytes data data' ∧
      Affordable options (charge sizes data')) :
    Attempt.Spec (Built sizes account 2 count data) (attachTempo sizes options bytes)
      (fun _ work => ∃ data', TempoStep options bytes data data' ∧
        Built sizes account 4 count data' work)
      (Failed account count) := by
  have hsize := h.size
  have hflags : (Check.read 4 bytes 16 : Check ErrorCode ℕ) =
      .ok (headerOf bytes).containerFlags := Check.read_of_le (by omega)
  refine Attempt.Spec.bind_ok hflags ?_
  refine Attempt.Spec.bind_check (findTempoSections_safe h) ?_ fun found hfound => ?_
  · intro code work hrejected hbuilt
    refine Holding.failed code hbuilt fun hf => ?_
    have hexists : ∃ found, findTempoSections (isStrict options) bytes = .ok found := by
      obtain ⟨_, ⟨hnone, hnone', -⟩ | ⟨temp, htemp, -, ⟨hnone, -⟩ | ⟨grid, hgrid, -⟩⟩, -⟩ :=
        hfine hf
      · exact ⟨(none, none), (findTempoSections_eq_ok h).mpr ⟨hnone, hnone', by simp⟩⟩
      · exact ⟨(some temp, none), (findTempoSections_eq_ok h).mpr ⟨htemp, hnone, by simp⟩⟩
      · exact ⟨(some temp, some grid), (findTempoSections_eq_ok h).mpr ⟨htemp, hgrid, by simp⟩⟩
    obtain ⟨_, hok⟩ := hexists
    rw [hok] at hrejected
    cases hrejected
  obtain ⟨hfirst, hsecond, hneeds⟩ := (findTempoSections_eq_ok h).mp hfound
  rcases found with ⟨_ | temp, grid⟩
  · rcases grid with _ | grid
    · intro work hbuilt
      exact ⟨data, .inl ⟨hfirst, hsecond, rfl⟩, hbuilt.mono (by decide)⟩
    · exact absurd (hneeds rfl) (by simp)
  have hstep : account.fine →
      TempoOk (contextOf options bytes) temp.payload (tempHeaderOf temp.payload) ∧
        ∃ data', LocalGridStep options bytes (withTempo temp.payload data) data' ∧
          Affordable options (charge sizes data') := by
    intro hf
    obtain ⟨data', ⟨hnone, -⟩ | ⟨temp', htemp, hok, hlocal⟩, hroom⟩ := hfine hf
    · rw [hnone] at hfirst
      cases hfirst
    · obtain ⟨rfl, -⟩ := List.cons.inj (htemp.symm.trans hfirst)
      exact ⟨hok, data', hlocal, hroom⟩
  have htempFine : account.fine →
      TempoOk (contextOf options bytes) temp.payload (tempHeaderOf temp.payload) ∧
        Affordable options (charge sizes (withTempo temp.payload data)) := by
    intro hf
    obtain ⟨hok, _, hlocal, hroom⟩ := hstep hf
    exact ⟨hok, hroom.mono (hlocal.charge_le hgrid sizes)⟩
  refine Attempt.Spec.bind (parseTemp_spec htempo hbound htempFine) fun _ =>
    Attempt.Spec.known fun hok => ?_
  rcases grid with _ | grid
  · intro work hbuilt
    exact ⟨_, .inr ⟨temp, hfirst, hok, .inl ⟨hsecond, rfl⟩⟩, hbuilt.mono (by decide)⟩
  have hgridFine : account.fine →
      LocalGridOk (contextOf options bytes) grid.payload (lgrdPayloadOf grid.payload) ∧
        NominalTempo (withTempo temp.payload data) (lgrdPayloadOf grid.payload) ∧
        Affordable options
          (charge sizes (withLocalGrid grid.payload (withTempo temp.payload data))) := by
    intro hf
    obtain ⟨-, data', ⟨hnone, -⟩ | ⟨grid', hlocal, hlgrd, hnominal, rfl⟩, hroom⟩ := hstep hf
    · rw [hnone] at hsecond
      cases hsecond
    · obtain ⟨rfl, -⟩ := List.cons.inj (hlocal.symm.trans hsecond)
      exact ⟨hlgrd, hnominal, hroom⟩
  have hgrid' : (withTempo temp.payload data).localGrid = none := hgrid
  refine (parseLocalGrid_spec hgrid' hbound hgridFine).post ?_
  rintro _ work ⟨hlgrd, hnominal, hbuilt⟩
  exact ⟨_, .inr ⟨temp, hfirst, hok, .inr ⟨grid, hsecond, hlgrd, hnominal, rfl⟩⟩, hbuilt⟩

/-! ## Global grid -/

/-- The result with a global grid and its revision. -/
def withGlobalGrid (grid : Grid) (revision : Revision) (data : ResultData) : ResultData :=
  { data with
    globalGrid := some (grid, revision)
    availableFeatures := (if grid.isDynamic then {.dynamicTempo} else ∅) ∪
      (if grid.confidence = unknownConfidence then ∅ else {.confidence}) ∪
      insert .globalBeatgrid data.availableFeatures }

/-- The bytes of the arrays of a global grid payload. -/
def gridNeeded (sizes : Sizes) (payload : Bytes) : ℕ :=
  sizes.gridState + sizes.range + (ggrdHeaderOf payload).segmentCount * sizes.segment +
    (ggrdHeaderOf payload).beatCount * sizes.beat

theorem length_gridOf (payload : Bytes) :
    (gridOf payload).segments.length = (ggrdHeaderOf payload).segmentCount ∧
      (gridOf payload).beats.length = (ggrdHeaderOf payload).beatCount := by
  constructor
  · show ((segmentRecords payload (ggrdHeaderOf payload)).map segmentOf).length = _
    rw [List.length_map, segmentRecords, length_records]
  · show ((beatRecords payload (ggrdHeaderOf payload)).map beatOf).length = _
    rw [List.length_map, beatRecords, length_records]

theorem charge_withGlobalGrid (sizes : Sizes) (hempty : data.globalGrid = none)
    (revision : Revision) : charge sizes (withGlobalGrid (gridOf payload) revision data) =
      charge sizes data + gridNeeded sizes payload := by
  obtain ⟨hsegments, hbeats⟩ := length_gridOf payload
  rw [charge_eq, charge_eq, hempty]
  simp only [withGlobalGrid, globalGridCharge, hsegments, hbeats, gridNeeded]
  omega

/-- The copy of the segments and beats of a payload whose header is fine. -/
private theorem copyGrid_spec (hok : GgrdHeaderOk context payload (ggrdHeaderOf payload))
    (hfine : account.fine → GlobalGridOk context payload (ggrdHeaderOf payload))
    {used : List Slot} {total : ℕ} :
    Attempt.Spec (Holding account [] used total count data)
      (do
        let segments ← Attempt.check (copySegments (ggrdHeaderOf payload).segmentCount context
          payload (ggrdHeaderOf payload))
        let beats ← Attempt.check (copyBeats (ggrdHeaderOf payload).beatCount context payload
          (ggrdHeaderOf payload))
        return (ggrdHeaderOf payload).grid segments beats)
      (fun grid work => GlobalGridOk context payload (ggrdHeaderOf payload) ∧
        grid = gridOf payload ∧ Holding account [] used total count data work)
      (Failed account count) := by
  refine Attempt.Spec.bind_check (copySegments_safe hok) ?_ fun segments hsegments => ?_
  · intro code work hrejected hbuilt
    refine hbuilt.failed code fun hf => ?_
    have hgrid := hfine hf
    have haccepted := (copySegments_eq_ok hok le_rfl).mpr
      ⟨fun record hmem => ⟨hgrid.segments record hmem, fun hs => hgrid.segmentReserved hs record hmem⟩,
        hgrid.segmentOrder, rfl⟩
    rw [haccepted] at hrejected
    cases hrejected
  obtain ⟨hsegment, hsegmentOrder, rfl⟩ := (copySegments_eq_ok hok le_rfl).mp hsegments
  refine Attempt.Spec.bind_check (copyBeats_safe hok) ?_ fun beats hbeats => ?_
  · intro code work hrejected hbuilt
    refine hbuilt.failed code fun hf => ?_
    have hgrid := hfine hf
    have haccepted := (copyBeats_eq_ok hok le_rfl).mpr
      ⟨fun record hmem => ⟨hgrid.beats record hmem, fun hs => hgrid.beatReserved hs record hmem⟩,
        hgrid.beatOrder, rfl⟩
    rw [haccepted] at hrejected
    cases hrejected
  obtain ⟨hbeat, hbeatOrder, rfl⟩ := (copyBeats_eq_ok hok le_rfl).mp hbeats
  exact fun _ hbuilt => ⟨⟨rfl, hok, fun record hmem => (hsegment record hmem).1,
    fun hs record hmem => (hsegment record hmem).2 hs, hsegmentOrder,
    fun record hmem => (hbeat record hmem).1, fun hs record hmem => (hbeat record hmem).2 hs,
    hbeatOrder⟩, rfl, hbuilt⟩

/-- The reader of a global grid payload fills the arrays it asked for. -/
theorem parseGlobalGrid_spec
    (hbound : ∀ cap ∈ account.bound, allocationLimit options ≤ cap)
    (hfine : account.fine → GlobalGridOk context payload (ggrdHeaderOf payload) ∧
      Affordable options (charge sizes data + gridNeeded sizes payload)) :
    Attempt.Spec (Built sizes account 4 count data)
      (parseGlobalGrid sizes options context payload)
      (fun grid work => GlobalGridOk context payload (ggrdHeaderOf payload) ∧
        grid = gridOf payload ∧ Holding account [] (slotsUpTo 5)
          (charge sizes data + gridNeeded sizes payload) count data work)
      (Failed account count) := by
  refine Attempt.Spec.bind_check (validateGgrdHeader_safe context payload) ?_
    fun header hheader => ?_
  · intro code work hrejected hbuilt
    refine Holding.failed code hbuilt fun hf => ?_
    rw [validateGgrdHeader_eq_ok.mpr ⟨rfl, (hfine hf).1.headerOk⟩] at hrejected
    cases hrejected
  obtain ⟨rfl, hok⟩ := validateGgrdHeader_eq_ok.mp hheader
  obtain ⟨-, -, -, -, -, hrange, hsegment, hstate, hbeat⟩ := sizes.pos
  obtain ⟨-, -, -, -, -, hrangeLe, hsegmentLe, hstateLe, hbeatLe⟩ := sizes.le
  have hsegmentBytes : (ggrdHeaderOf payload).segmentCount * sizes.segment ≤
      maxSegments * 65536 := Nat.mul_le_mul hok.segments.2 hsegmentLe
  have hbeatBytes : (ggrdHeaderOf payload).beatCount * sizes.beat ≤ maxBeats * 65536 :=
    Nat.mul_le_mul hok.beats hbeatLe
  have hsegmentPos : 1 ≤ (ggrdHeaderOf payload).segmentCount * sizes.segment :=
    Nat.mul_pos (Nat.pos_of_ne_zero hok.segments.1) hsegment
  have hneeded : gridNeeded sizes payload ≤ uint64Max := by
    have hmax : 65536 + 65536 + maxSegments * 65536 + maxBeats * 65536 ≤ uint64Max := by decide
    rw [gridNeeded]
    omega
  refine Attempt.Spec.bind_ok (Check.within_of_le hneeded) ?_
  refine Attempt.Spec.bind_get fun seen hseen => ?_
  rw [hseen.data]
  refine Attempt.Spec.bind_rejectIf ?_ fun hfits => ?_
  · intro hover work hbuilt
    refine Holding.failed _ hbuilt fun hf => ?_
    obtain ⟨-, hlimit, hmax⟩ := hfine hf
    have hroom := fits_of_le hlimit (by omega)
    exact Bool.noConfusion (hroom.symm.trans hover)
  rw [Bool.not_eq_false] at hfits
  have hroom : charge sizes data + gridNeeded sizes payload ≤ allocationLimit options :=
    charge_add_le hfits
  rw [gridNeeded] at hroom
  have hstateRoom : ∀ cap ∈ account.bound, charge sizes data + sizes.gridState ≤ cap := by
    intro cap hcap
    have := hbound cap hcap
    omega
  have hrangeRoom : ∀ cap ∈ account.bound,
      charge sizes data + sizes.gridState + sizes.range ≤ cap := by
    intro cap hcap
    have := hbound cap hcap
    omega
  have hsegmentRoom : ∀ cap ∈ account.bound, charge sizes data + sizes.gridState + sizes.range +
      (ggrdHeaderOf payload).segmentCount * sizes.segment ≤ cap := by
    intro cap hcap
    have := hbound cap hcap
    omega
  have hbeatRoom : ∀ cap ∈ account.bound, charge sizes data + sizes.gridState + sizes.range +
      (ggrdHeaderOf payload).segmentCount * sizes.segment +
        (ggrdHeaderOf payload).beatCount * sizes.beat ≤ cap := by
    intro cap hcap
    have := hbound cap hcap
    omega
  refine Attempt.Spec.bind ((allocateInto_spec (by decide) hstate hstateRoom).mono
    (fun _ hbuilt => hbuilt) (fun _ _ hbuilt => Holding.tried hbuilt) ?_) fun _ => ?_
  · rintro code work ⟨hnot, hbuilt⟩
    exact hbuilt.failed code hnot
  refine Attempt.Spec.bind (tryAllocateInto_spec (by decide) hrange hrangeRoom) fun _ => ?_
  refine Attempt.Spec.bind (tryAllocateInto_spec (by decide) hsegmentPos hsegmentRoom) fun _ => ?_
  have hcopy : ∀ {used : List Slot} {total : ℕ}, _ := @copyGrid_spec payload context account count
    data hok fun hf => (hfine hf).1
  dsimp only
  by_cases hzero : (ggrdHeaderOf payload).beatCount = 0
  · rw [if_pos hzero]
    refine tried_spec ?_ (hcopy.post fun grid work h => ⟨h.1, h.2.1, ?_⟩)
    · intro work
      simp only [List.mem_cons, List.not_mem_nil, or_false, exists_eq_or_imp, exists_eq_left, hzero,
        ne_eq, not_true_eq_false, false_and]
      exact or_comm
    · have hsame : charge sizes data + gridNeeded sizes payload = charge sizes data +
          sizes.gridState + sizes.range + (ggrdHeaderOf payload).segmentCount * sizes.segment := by
        rw [gridNeeded, hzero]
        omega
      rw [hsame]
      exact h.2.2.mono (by decide)
  rw [if_neg hzero]
  have hbeatPos : 1 ≤ (ggrdHeaderOf payload).beatCount * sizes.beat :=
    Nat.mul_pos (Nat.pos_of_ne_zero hzero) hbeat
  refine Attempt.Spec.bind (tryAllocateInto_spec (by decide) hbeatPos hbeatRoom) fun _ => ?_
  refine tried_spec ?_ (hcopy.post fun grid work h => ⟨h.1, h.2.1, ?_⟩)
  · intro work
    simp only [List.mem_cons, List.not_mem_nil, or_false, exists_eq_or_imp, exists_eq_left, hzero,
      ne_eq, not_false_eq_true, true_and]
    tauto
  · have hsame : charge sizes data + gridNeeded sizes payload = charge sizes data +
        sizes.gridState + sizes.range + (ggrdHeaderOf payload).segmentCount * sizes.segment +
          (ggrdHeaderOf payload).beatCount * sizes.beat := by
      rw [gridNeeded]
      omega
    rw [hsame]
    exact h.2.2.mono (by decide)

/-- The step of the grid stage. -/
def GridStep (options : Option ParseOptions) (bytes : Bytes) (data data' : ResultData) : Prop :=
  (foundAt bytes .globalGrid = [] ∧ foundAt bytes .revision = [] ∧ data' = data) ∨
    ∃ ggrd revn, foundAt bytes .globalGrid = [ggrd] ∧ foundAt bytes .revision = [revn] ∧
      revn.index = ggrd.index + 1 ∧ Feature.bpm ∈ data.availableFeatures ∧
      GlobalGridOk (contextOf options bytes) ggrd.payload (ggrdHeaderOf ggrd.payload) ∧
      RevnOk (contextOf options bytes) revn.payload (gridOf ggrd.payload)
        (revnPayloadOf revn.payload).revision ∧
      data' = withGlobalGrid (gridOf ggrd.payload) (revnPayloadOf revn.payload).revision data

/-- The grid stage takes its step. -/
theorem attachGrid_spec (h : ContainerOk (isStrict options) bytes input)
    (hempty : data.globalGrid = none)
    (hbound : ∀ cap ∈ account.bound, allocationLimit options ≤ cap)
    (hfine : account.fine → ∃ data', GridStep options bytes data data' ∧
      Affordable options (charge sizes data')) :
    Attempt.Spec (Built sizes account 4 count data) (attachGrid sizes options bytes)
      (fun _ work => ∃ data', GridStep options bytes data data' ∧
        Built sizes account 5 count data' work)
      (Failed account count) := by
  have hsize := h.size
  have hflags : (Check.read 4 bytes 16 : Check ErrorCode ℕ) =
      .ok (headerOf bytes).containerFlags := Check.read_of_le (by omega)
  refine Attempt.Spec.bind_ok hflags ?_
  refine Attempt.Spec.bind_check (findGridSections_safe h) ?_ fun found hfound => ?_
  · intro code work hrejected hbuilt
    refine Holding.failed code hbuilt fun hf => ?_
    have hexists : ∃ found, findGridSections (isStrict options) bytes = .ok found := by
      obtain ⟨_, ⟨hnone, hnone', -⟩ | ⟨ggrd, revn, hggrd, hrevn, hindex, -⟩, -⟩ := hfine hf
      · exact ⟨none, (findGridSections_eq_ok h).mpr ⟨hnone, hnone', by simp⟩⟩
      · exact ⟨some (ggrd, revn), (findGridSections_eq_ok h).mpr ⟨hggrd, hrevn, by simpa⟩⟩
    obtain ⟨_, hok⟩ := hexists
    rw [hok] at hrejected
    cases hrejected
  obtain ⟨hfirst, hsecond, hindex⟩ := (findGridSections_eq_ok h).mp hfound
  rcases found with _ | ⟨ggrd, revn⟩
  · intro work hbuilt
    exact ⟨data, .inl ⟨hfirst, hsecond, rfl⟩, hbuilt.mono (by decide)⟩
  have hnext : revn.index = ggrd.index + 1 := hindex (ggrd, revn) rfl
  have hstep : account.fine → Feature.bpm ∈ data.availableFeatures ∧
      GlobalGridOk (contextOf options bytes) ggrd.payload (ggrdHeaderOf ggrd.payload) ∧
      RevnOk (contextOf options bytes) revn.payload (gridOf ggrd.payload)
        (revnPayloadOf revn.payload).revision ∧
      Affordable options (charge sizes data + gridNeeded sizes ggrd.payload) := by
    intro hf
    obtain ⟨data', ⟨hnone, -⟩ | ⟨ggrd', revn', hggrd, hrevn, -, hbpm, hgrid, hrevision, rfl⟩,
      hroom⟩ := hfine hf
    · rw [hnone] at hfirst
      cases hfirst
    · obtain ⟨rfl, -⟩ := List.cons.inj (hggrd.symm.trans hfirst)
      obtain ⟨rfl, -⟩ := List.cons.inj (hrevn.symm.trans hsecond)
      rw [charge_withGlobalGrid sizes hempty] at hroom
      exact ⟨hbpm, hgrid, hrevision, hroom⟩
  refine Attempt.Spec.bind_get fun seen hseen => ?_
  rw [hseen.data]
  refine Attempt.Spec.bind_rejectIf ?_ fun hbpm => ?_
  · intro hnot work hbuilt
    exact Holding.failed _ hbuilt fun hf => hnot (hstep hf).1
  rw [not_not] at hbpm
  refine Attempt.Spec.bind (parseGlobalGrid_spec hbound fun hf =>
    ⟨(hstep hf).2.1, (hstep hf).2.2.2⟩) fun grid => Attempt.Spec.known fun hgrid =>
    Attempt.Spec.known ?_
  rintro rfl
  refine Attempt.Spec.bind_check (parseRevision_safe _ _ _) ?_ fun revision hrevision => ?_
  · intro code work hrejected hbuilt
    refine hbuilt.failed code fun hf => ?_
    have haccepted := parseRevision_eq_ok.mpr (hstep hf).2.2.1
    exact absurd (haccepted.symm.trans hrejected) (by simp [Check.reject])
  have hrevn := parseRevision_eq_ok.mp hrevision
  obtain rfl := hrevn.revision_eq
  refine setData_spec.post fun _ work hbuilt => ⟨_, .inr ⟨ggrd, revn, hfirst, hsecond, hnext, hbpm,
    hgrid, hrevn, rfl⟩, ?_⟩
  rw [Built, charge_withGlobalGrid sizes hempty]
  exact hbuilt

end Stages

end LibApta.Container
