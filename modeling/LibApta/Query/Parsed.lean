import LibApta.Query.Coverage
import LibApta.Serialization.Guarantees

/-!
# Parsed results are well formed

Each stage of the parser adds one part to a result, and what it accepts makes that part well formed.
-/

namespace LibApta.Container

open Queryable

variable {options : Option ParseOptions} {bytes : Bytes} {data data' : ResultData}

/-- A state that is allowed is not partial. -/
theorem ne_part_of_stateAllowed {isPartial : Bool} {state : ℕ}
    (h : stateAllowed isPartial state = true) : state ≠ Queryable.statePart := by
  rintro rfl
  cases isPartial <;> exact absurd h (by decide)

theorem overviewData_wellFormed (input : WovrInput) (header : WovrHeader) {spans : List SpanEntry}
    (hsorted : spans.Pairwise fun span later => span.endFrame ≤ later.firstFrame) :
    (overviewData input header spans).queryable.WellFormed where
  spans := by
    change FrameRange.Ascending ((spans.map _).map Span.sourceRange)
    rw [List.map_map]
    exact List.pairwise_map.mpr hsorted
  tiles := List.Pairwise.nil
  tileStates _ hmem := absurd hmem List.not_mem_nil
  tempo := cleared_state
  localGrid := cleared_state
  globalGrid _ hmem := absurd hmem (Option.not_mem_none _)

/-! ## Detail tiles -/

/-- The frames of a tile lie in those of its index. -/
theorem TileFramesOk.range {context : TileContext} {tile : TileEntry} (h : TileFramesOk context tile) :
    tile.tileIndex * wdtlColumnsPerTile * wdtlFramesPerColumn ≤ tile.firstFrame ∧
      tile.endFrame ≤ (tile.tileIndex + 1) * wdtlColumnsPerTile * wdtlFramesPerColumn := by
  obtain ⟨hfirst, hlast⟩ := h.inTile
  have hstart := h.first
  have hend : tile.endFrame ≤ tile.endColumn * wdtlFramesPerColumn := by
    rcases h.last with heq | ⟨-, heq, hlt⟩
    · exact heq.le
    · exact heq ▸ hlt.le
  simp only [wdtlColumnsPerTile, wdtlFramesPerColumn] at *
  omega

theorem decodedTiles_ok (h : DetailAccepted options bytes) :
    ∀ tile ∈ decodedTiles bytes (sections bytes .detail), tile.levelId = wdtlLevelId ∧
      statePartial ≤ tile.state ∧
      tile.tileIndex * wdtlColumnsPerTile * wdtlFramesPerColumn ≤ tile.sourceRange.firstFrame ∧
      tile.sourceRange.endFrame ≤ (tile.tileIndex + 1) * wdtlColumnsPerTile * wdtlFramesPerColumn := by
  intro tile hmem
  obtain ⟨entry, hentry, htile⟩ := List.mem_flatMap.mp hmem
  obtain ⟨record, hrecord, rfl⟩ := List.mem_map.mp htile
  have hframes := (h.ok.sections entry hentry).frames record hrecord
  exact ⟨hframes.level, hframes.state.1, hframes.range⟩

theorem withDetail_wellFormed (h : DetailAccepted options bytes) (hdata : data.queryable.WellFormed) :
    (withDetail bytes data).queryable.WellFormed := by
  have hmem : ∀ tile ∈ SortKey.sortKey Tile.key (decodedTiles bytes (sections bytes .detail)),
      tile ∈ decodedTiles bytes (sections bytes .detail) :=
    fun tile => (SortKey.sortKey_perm _ _).mem_iff.mp
  have hok := decodedTiles_ok h
  refine { hdata with tiles := ?_, tileStates := ?_ }
  · have hsorted := SortKey.sortKey_pairwise_lt h.keys
    refine List.pairwise_map.mpr (List.pairwise_map.mpr
      (hsorted.imp_of_mem fun {tile later} htile hlater hlt => ?_))
    obtain ⟨hlevel, -, -, hend⟩ := hok tile (hmem tile htile)
    obtain ⟨hlevel', -, hfirst, -⟩ := hok later (hmem later hlater)
    have hindex : tile.tileIndex < later.tileIndex := by
      rcases Prod.Lex.toLex_lt_toLex.mp hlt with hlt | ⟨-, hlt⟩
      · exact absurd hlt (by simp only [hlevel, hlevel', lt_self_iff_false, not_false_eq_true])
      · exact hlt
    simp only [wdtlColumnsPerTile, wdtlFramesPerColumn] at hend hfirst
    dsimp only
    omega
  · intro scope hscope
    obtain ⟨tile, htile, rfl⟩ := List.mem_map.mp hscope
    exact (hok tile (hmem tile htile)).2.1

/-! ## The whole parser -/

theorem DetailStep.wellFormed (h : DetailStep options bytes data data')
    (hdata : data.queryable.WellFormed) : data'.queryable.WellFormed := by
  rw [DetailStep] at h
  split_ifs at h
  · exact h ▸ hdata
  · exact h.2 ▸ withDetail_wellFormed h.1 hdata

theorem MetadataStep.wellFormed (h : MetadataStep bytes data data')
    (hdata : data.queryable.WellFormed) : data'.queryable.WellFormed := by
  obtain ⟨-, rfl⟩ | ⟨_, _, -, -, -, rfl⟩ := h
  · exact hdata
  · exact { hdata with }

theorem LocalGridStep.wellFormed (h : LocalGridStep options bytes data data')
    (hdata : data.queryable.WellFormed) : data'.queryable.WellFormed := by
  obtain ⟨-, rfl⟩ | ⟨grid, -, hok, -, rfl⟩ := h
  · exact hdata
  · exact { hdata with localGrid := ne_part_of_stateAllowed hok.state }

theorem TempoStep.wellFormed (h : TempoStep options bytes data data')
    (hdata : data.queryable.WellFormed) : data'.queryable.WellFormed := by
  obtain ⟨-, -, rfl⟩ | ⟨temp, -, hok, hlocal⟩ := h
  · exact hdata
  · exact hlocal.wellFormed { hdata with tempo := ne_part_of_stateAllowed hok.headerOk.state }

theorem GridStep.wellFormed (h : GridStep options bytes data data')
    (hdata : data.queryable.WellFormed) : data'.queryable.WellFormed := by
  obtain ⟨-, -, rfl⟩ | ⟨ggrd, revn, -, -, -, -, hok, -, rfl⟩ := h
  · exact hdata
  · refine { hdata with globalGrid := fun grid hgrid => ?_ }
    rw [← Option.some.inj hgrid]
    exact ne_part_of_stateAllowed hok.headerOk.state

/-- What the parser gives out is well formed. -/
theorem Accepts.queryable {input : WovrInput} {header : WovrHeader} {spans : List SpanEntry}
    (h : Accepts options bytes input header spans data) : data.queryable.WellFormed := by
  obtain ⟨_, _, _, hdetail, hmeta, htempo, hgrid⟩ := h.steps
  have hoverview := overviewData_wellFormed input header
    (wellFormedOverview h.base.geometry h.hardening).sorted
  exact hgrid.wellFormed (htempo.wellFormed (hmeta.wellFormed (hdetail.wellFormed hoverview)))

end LibApta.Container
