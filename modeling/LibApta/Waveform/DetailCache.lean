import LibApta.Waveform.Detail

/-!
# The tile cache stays in shape

No two slots hold the same tile, and the published run of a tile lies inside the tile. Samples,
replays and refreshes keep both, so that the published ranges of different tiles are apart.
-/

namespace LibApta

/-- The published run of a tile lies among its columns. -/
structure DetailTile.Tidy (tile : DetailTile) : Prop where
  columns : tile.accumulators.length = detailColumnsPerTile
  run : ∀ first count, tile.run = some (first, count) → first + count ≤ detailColumnsPerTile

namespace Detail

/-- The tiles of a cache are tidy, and no two slots hold the same one. -/
structure Tidy (detail : Detail) : Prop where
  tiles : ∀ tile, some tile ∈ detail.tiles → tile.Tidy
  distinct : ∀ (i j : ℕ) (tile other : DetailTile), detail.tiles[i]? = some (some tile) →
    detail.tiles[j]? = some (some other) → tile.tileIndex = other.tileIndex → i = j

variable {detail : Detail} {ctx : DetailContext}

/-- Only the tiles matter. -/
theorem Tidy.congr {other : Detail} (h : detail.Tidy) (heq : other.tiles = detail.tiles) :
    other.Tidy := ⟨heq ▸ h.tiles, heq ▸ h.distinct⟩

theorem tidy_empty : empty.Tidy where
  tiles tile hmem := by
    cases List.eq_of_mem_replicate hmem
  distinct i j tile other hi := by
    cases List.eq_of_mem_replicate (List.mem_of_getElem? hi)

/-- A cache is tidy when every slot holds the tile it held in a tidy one, as tidy as it was. -/
theorem Tidy.of_slots (h : detail.Tidy) {other : Detail}
    (hold : ∀ (i : ℕ) (tile : DetailTile), other.tiles[i]? = some (some tile) →
      ∃ old, detail.tiles[i]? = some (some old) ∧ tile.tileIndex = old.tileIndex ∧
        (old.Tidy → tile.Tidy)) : other.Tidy := by
  constructor
  · intro tile hmem
    obtain ⟨i, hi⟩ := List.getElem?_of_mem hmem
    obtain ⟨old, hget, -, htidy⟩ := hold i tile hi
    exact htidy (h.tiles old (List.mem_of_getElem? hget))
  · intro i j tile tile' hi hj hsame
    obtain ⟨old, hget, hindex, -⟩ := hold i tile hi
    obtain ⟨old', hget', hindex', -⟩ := hold j tile' hj
    exact h.distinct i j old old' hget hget' (hindex.symm.trans (hsame.trans hindex'))

/-- Changing the tile of a slot keeps the cache tidy when it keeps its index. -/
theorem Tidy.modify (h : detail.Tidy) (slot : ℕ) {f : DetailTile → DetailTile}
    (hindex : ∀ tile, (f tile).tileIndex = tile.tileIndex)
    (htidy : ∀ tile : DetailTile, tile.Tidy → (f tile).Tidy) {other : Detail}
    (hother : other.tiles = detail.tiles.modify slot (Option.map f)) : other.Tidy := by
  refine h.of_slots fun i tile hi => ?_
  rw [hother, List.getElem?_modify] at hi
  split_ifs at hi
  · obtain ⟨entry, hentry, hmap⟩ := Option.map_eq_some_iff.mp hi
    obtain ⟨old, rfl, rfl⟩ := Option.map_eq_some_iff.mp hmap
    exact ⟨old, hentry, hindex old, htidy old⟩
  · simp only [Option.map_eq_map, Option.map_id_fun', id_eq] at hi
    exact ⟨tile, hi, rfl, id⟩

/-- A tile that is not resident may take any slot. -/
theorem Tidy.set (h : detail.Tidy) (slot : ℕ) {tile : DetailTile} (htile : tile.Tidy)
    (hnew : ∀ other, some other ∈ detail.tiles → other.tileIndex ≠ tile.tileIndex) {other : Detail}
    (hother : other.tiles = detail.tiles.set slot (some tile)) : other.Tidy := by
  have hold : ∀ {i : ℕ} {entry : DetailTile}, other.tiles[i]? = some (some entry) →
      (i = slot ∧ entry = tile) ∨ (i ≠ slot ∧ detail.tiles[i]? = some (some entry)) := by
    intro i entry hi
    rw [hother, List.getElem?_set] at hi
    split_ifs at hi with hslot hlt
    · exact .inl ⟨hslot.symm, (Option.some.inj (Option.some.inj hi)).symm⟩
    · exact .inr ⟨fun heq => hslot heq.symm, hi⟩
  constructor
  · intro entry hmem
    obtain ⟨i, hi⟩ := List.getElem?_of_mem hmem
    obtain ⟨-, rfl⟩ | ⟨-, hget⟩ := hold hi
    · exact htile
    · exact h.tiles entry (List.mem_of_getElem? hget)
  · intro i j entry entry' hi hj hsame
    obtain ⟨hslot, rfl⟩ | ⟨hslot, hget⟩ := hold hi <;>
      obtain ⟨hslot', rfl⟩ | ⟨hslot', hget'⟩ := hold hj
    · exact hslot.trans hslot'.symm
    · exact absurd hsame.symm (hnew entry' (List.mem_of_getElem? hget'))
    · exact absurd hsame (hnew entry (List.mem_of_getElem? hget))
    · exact h.distinct i j entry entry' hget hget' hsame

/-! ## Samples -/

theorem tidy_newTile (tileIndex accessSerial : ℕ) : (newTile tileIndex accessSerial).Tidy where
  columns := by
    rw [newTile, List.length_map, List.length_range]
  run _ _ h := by cases h

/-- A tile the cache does not find is not in it. -/
theorem not_resident {tileIndex : ℕ} (h : detail.findTileSlot tileIndex = none) (tile : DetailTile)
    (hmem : some tile ∈ detail.tiles) : tile.tileIndex ≠ tileIndex := by
  have hfalse := List.findIdx?_eq_none_iff.mp h (some tile) hmem
  exact of_decide_eq_false hfalse

theorem Tidy.findOrCreateTile (h : detail.Tidy) (tileIndex : ℕ) :
    (detail.findOrCreateTile ctx tileIndex).2.Tidy := by
  unfold Detail.findOrCreateTile
  cases hslot : detail.findTileSlot tileIndex with
  | some slot =>
      refine h.modify slot ?_ ?_ rfl
      · exact fun _ => rfl
      · exact fun tile htile => ⟨htile.columns, htile.run⟩
  | none =>
      simp only
      cases replacementSlot ctx detail tileIndex with
      | none => exact h
      | some slot => exact h.set slot (tidy_newTile _ _) (not_resident hslot) rfl

theorem Tidy.processSample (h : detail.Tidy) (frame : ℕ) (sample : ℚ) :
    (detail.processSample ctx frame sample).2.Tidy := by
  unfold Detail.processSample
  have hfound : (detail.findOrCreateTile ctx (frame / detailTileFrames)).2.Tidy :=
    h.findOrCreateTile _
  split_ifs
  · exact h
  · generalize detail.findOrCreateTile ctx (frame / detailTileFrames) = found at hfound ⊢
    obtain ⟨_ | slot, found⟩ := found
    · exact hfound
    · refine Tidy.modify hfound slot ?_ ?_ rfl
      · exact fun _ => rfl
      · exact fun tile htile => ⟨(List.length_modify ..).trans htile.columns, htile.run⟩

/-! ## Runs -/

theorem extendRunDown_le (accumulators : List Accumulator) (first : ℕ) :
    extendRunDown accumulators first ≤ first := by
  induction first with
  | zero => exact le_rfl
  | succ first ih =>
      unfold extendRunDown
      split_ifs
      · exact ih.trans (Nat.le_succ first)
      · exact le_rfl

theorem extendRunUp_le (accumulators : List Accumulator) (fuel past : ℕ) :
    extendRunUp accumulators fuel past ≤ past + fuel := by
  induction fuel generalizing past with
  | zero => exact le_rfl
  | succ fuel ih =>
      unfold extendRunUp
      split_ifs
      · exact (ih (past + 1)).trans (by omega)
      · exact Nat.le_add_right _ _

/-- The longest run lies among the columns scanned. -/
theorem longestRunFrom_le (accumulators : List Accumulator) {column : ℕ} {best current : ℕ × ℕ}
    (hbest : best.1 + best.2 ≤ column) (hcurrent : current.1 + current.2 ≤ column) :
    (longestRunFrom accumulators column best current).1 +
        (longestRunFrom accumulators column best current).2 ≤ column + accumulators.length := by
  induction accumulators generalizing column best current with
  | nil => exact hbest
  | cons acc rest ih =>
      have hlength : column + 1 + rest.length = column + (acc :: rest).length := by
        rw [List.length_cons]
        omega
      rw [← hlength]
      unfold longestRunFrom
      split
      · obtain ⟨next, hnext⟩ :
            ∃ next, next = (if current.2 = 0 then column else current.1, current.2 + 1) := ⟨_, rfl⟩
        have hbound : next.1 + next.2 ≤ column + 1 := by
          rw [hnext]
          dsimp only
          split_ifs <;> omega
        simp only [← hnext]
        refine ih ?_ hbound
        split_ifs
        · exact hbound
        · exact hbest.trans (Nat.le_succ column)
      · exact ih (hbest.trans (Nat.le_succ column)) (by dsimp only; omega)

theorem selectOrExtendRun_index (tile : DetailTile) :
    (selectOrExtendRun tile).tileIndex = tile.tileIndex := by
  unfold selectOrExtendRun
  simp only
  split
  · rfl
  · split_ifs <;> rfl

theorem tidy_selectOrExtendRun {tile : DetailTile} (h : tile.Tidy) :
    (selectOrExtendRun tile).Tidy := by
  unfold selectOrExtendRun
  simp only
  split
  · next first count hrun =>
      refine ⟨h.columns, fun newFirst newCount heq => ?_⟩
      have hbound := h.run first count hrun
      have hdown := extendRunDown_le tile.accumulators first
      have hup := extendRunUp_le tile.accumulators (detailColumnsPerTile - (first + count))
        (first + count)
      obtain ⟨rfl, rfl⟩ := Prod.mk.inj (Option.some.inj heq)
      omega
  · split_ifs
    · exact h
    · refine ⟨h.columns, fun first count heq => ?_⟩
      have hbound := @longestRunFrom_le tile.accumulators 0 (0, 0) (0, 0) le_rfl le_rfl
      rw [h.columns, Option.some.inj heq] at hbound
      omega

theorem tidy_refreshTile (endOfInput : Option ℕ) {tile : DetailTile} (h : tile.Tidy) :
    (refreshTile endOfInput tile).Tidy :=
  tidy_selectOrExtendRun ⟨(List.length_map ..).trans h.columns, h.run⟩

theorem Tidy.refreshCompleted (h : detail.Tidy) (endOfInput : Option ℕ) :
    (detail.refreshCompleted endOfInput).Tidy := by
  refine h.of_slots fun i tile hi => ?_
  rw [Detail.refreshCompleted, List.getElem?_map] at hi
  obtain ⟨entry, hentry, hmap⟩ := Option.map_eq_some_iff.mp hi
  obtain ⟨old, rfl, rfl⟩ := Option.map_eq_some_iff.mp hmap
  exact ⟨old, hentry, selectOrExtendRun_index _, tidy_refreshTile endOfInput⟩

/-! ## Replays -/

theorem Tidy.replaySamples (h : detail.Tidy) (samples : List ℚ) (frame : ℕ) :
    (Detail.replaySamples ctx samples frame detail).2.Tidy := by
  induction samples generalizing frame detail with
  | nil => exact h
  | cons sample rest ih =>
      have hone : (detail.processSample ctx frame sample).2.Tidy := h.processSample frame sample
      unfold Detail.replaySamples
      split
      · next heq => rwa [heq] at hone
      · next heq => exact ih (by rwa [heq] at hone) _

theorem Tidy.acceptReplay (h : detail.Tidy) (detailRequested : Bool) (block : PcmBlock) :
    (detail.acceptReplay detailRequested ctx block).2.2.Tidy := by
  unfold Detail.acceptReplay
  simp only
  split
  · exact h
  split
  · exact h
  split
  · exact h
  have hreplayed : (Detail.replaySamples ctx (block.samples.take (min block.frameCount maxPushFrames))
      block.firstFrame detail).2.Tidy := h.replaySamples _ _
  split
  · next heq =>
      rw [heq] at hreplayed
      exact hreplayed.refreshCompleted ctx.endOfInput
  · next heq => rwa [heq] at hreplayed

end Detail

end LibApta
