import LibApta.Lib.Block
import LibApta.Waveform.Spans

/-!
# The two blocks of the accumulator store

The accumulators and their band sums are two blocks in the source. Both are shifted by every
insertion, each is replaced by every growth, and a growth that loses its second allocation leaves the
first block replaced and the recorded capacity as it was. Each operation on the blocks does to the
entries what the operation on the store does (`overview`), and keeps room in both blocks for the
recorded capacity (`Laid`).
-/

namespace LibApta

/-! ## Entries -/

/-- An entry of the accumulator block. -/
structure AccumulatorCell where
  columnIndex : ℕ
  sampleCount : ℕ
  sumSquares : ℕ
  minimum : ℚ
  maximum : ℚ
  clipped : Bool
  complete : Bool
deriving DecidableEq

/-- Band sums of a column that has seen no frame. -/
def Bands.zero : Bands ℕ := ⟨0, 0, 0⟩

/-- Account for the three band values of one sample. -/
def Bands.addScaled (bands : Bands ℚ) (sums : Bands ℕ) : Bands ℕ :=
  ⟨sums.low + scaledMagnitude 32768 bands.low, sums.mid + scaledMagnitude 32768 bands.mid,
    sums.high + scaledMagnitude 32768 bands.high⟩

namespace AccumulatorCell

/-- A column that has seen no frame. -/
def new (columnIndex : ℕ) : AccumulatorCell where
  columnIndex := columnIndex
  sampleCount := 0
  sumSquares := 0
  minimum := 1
  maximum := -1
  clipped := false
  complete := false

/-- Account for one sample. -/
def addSample (sample : ℚ) (cell : AccumulatorCell) : AccumulatorCell :=
  { cell with
    minimum := if sample < cell.minimum then sample else cell.minimum
    maximum := if cell.maximum < sample then sample else cell.maximum
    sumSquares :=
      cell.sumSquares + scaledMagnitude 8388608 sample * scaledMagnitude 8388608 sample
    sampleCount := cell.sampleCount + 1
    clipped := cell.clipped || decide (sample ≤ -1) || decide (1 ≤ sample) }

/-- Take over the column of an earlier result. -/
def seed (column : WaveformColumn) (sampleCount : ℕ) (cell : AccumulatorCell) : AccumulatorCell :=
  let scaled := truncate (fmul (fdiv (f32 column.rms) 65535) 8388608)
  { cell with
    minimum := fdiv column.minimum 32767
    maximum := fdiv column.maximum 32767
    sumSquares := scaled * scaled * sampleCount
    sampleCount := sampleCount
    clipped := column.clipped
    complete := true }

/-- An entry with its band sums, as one accumulator. -/
def withBands (cell : AccumulatorCell) (bandSums : Bands ℕ) : Accumulator where
  columnIndex := cell.columnIndex
  sampleCount := cell.sampleCount
  sumSquares := cell.sumSquares
  minimum := cell.minimum
  maximum := cell.maximum
  clipped := cell.clipped
  complete := cell.complete
  bandSums := bandSums

end AccumulatorCell

/-! ## The blocks -/

/-- The accumulator store in memory: a block of accumulators and, when bands were requested and the
store has grown, a block of band sums, of which the first `count` cells are in use. -/
structure ParallelStore where
  cells : List AccumulatorCell
  bandSums : Option (List (Bands ℕ))
  count : ℕ
  capacity : ℕ
  completeCount : ℕ
  bandFilter : BandFilter

namespace ParallelStore

/-- The store of a new session. -/
def empty (filter : BandFilter) : ParallelStore := ⟨[], none, 0, 0, 0, filter⟩

/-- Where a column stands, or would be inserted. -/
def position (store : ParallelStore) (columnIndex : ℕ) : ℕ :=
  lowerBound (fun index =>
      decide (((store.cells.map AccumulatorCell.columnIndex).getD index 0) < columnIndex))
    0 store.count

/-- The column has an entry. -/
def accumulatorExists (store : ParallelStore) (columnIndex : ℕ) : Bool :=
  decide (store.position columnIndex < store.count) &&
    decide ((store.cells.map AccumulatorCell.columnIndex)[store.position columnIndex]? =
      some columnIndex)

/-- A block of band sums of another capacity. -/
def grownBands (store : ParallelStore) (capacity : ℕ) : List (Bands ℕ) :=
  match store.bandSums with
  | some block => Block.regrow store.count capacity .zero block
  | none => List.replicate capacity .zero

/-- Replace the block of band sums by one of another capacity. -/
def growBandSums (hasBands : Bool) (capacity : ℕ) (store : ParallelStore) (env : Environment) :
    Status × ParallelStore × Environment :=
  if !hasBands then (.ok, store, env)
  else
    match env.allocate with
    | (false, env) => (.error .outOfMemory, store, env)
    | (true, env) =>
        (.ok, { store with bandSums := some (store.grownBands capacity) }, env)

/-- Make room for `needed` entries in both blocks, the accumulators first. The cells of a new block
hold anything; `junk` stands for it. -/
def ensureCapacity (junk : AccumulatorCell) (hasBands : Bool) (store : ParallelStore) (needed : ℕ)
    (env : Environment) : Status × ParallelStore × Environment :=
  if needed ≤ store.capacity then (.ok, store, env)
  else
    match grownCapacity (if store.capacity = 0 then 16 else store.capacity) needed 33 with
    | none => (.error .limitExceeded, store, env)
    | some capacity =>
        match env.allocate with
        | (false, env) => (.error .outOfMemory, store, env)
        | (true, env) =>
            match growBandSums hasBands capacity
                { store with cells := Block.regrow store.count capacity junk store.cells } env with
            | (.ok, store, env) => (.ok, { store with capacity := capacity }, env)
            | (status, store, env) => (status, store, env)

/-- Insert an entry for a new column at a position of both blocks. -/
def insertAt (store : ParallelStore) (position columnIndex : ℕ) : ParallelStore :=
  { store with
    cells := Block.insertCell position store.count (.new columnIndex) store.cells
    bandSums := store.bandSums.map (Block.insertCell position store.count .zero)
    count := store.count + 1 }

/-- Find the entry of a column, inserting a new one in both blocks where there is none. -/
def findOrInsert (junk : AccumulatorCell) (hasBands : Bool) (store : ParallelStore)
    (columnIndex : ℕ) (env : Environment) : Except Status ℕ × ParallelStore × Environment :=
  let position := store.position columnIndex
  if store.accumulatorExists columnIndex then (.ok position, store, env)
  else
    match store.ensureCapacity junk hasBands (store.count + 1) env with
    | (.ok, store, env) => (.ok position, store.insertAt position columnIndex, env)
    | (status, store, env) => (.error status, store, env)

/-- Add one sample to the entry at a position, and its bands to the block of band sums if there is
one. -/
def addSampleAt (store : ParallelStore) (position : ℕ) (sample : ℚ) : ParallelStore :=
  let cells := store.cells.modify position (.addSample sample)
  match store.bandSums with
  | none => { store with cells := cells }
  | some block =>
      let (bands, filter) := store.bandFilter.split sample
      { store with
        cells := cells
        bandSums := some (block.modify position (Bands.addScaled bands))
        bandFilter := filter }

/-- Write a seeded column to the entry at a position. -/
def seedAt (store : ParallelStore) (position sampleCount : ℕ) (column : WaveformColumn) :
    ParallelStore :=
  let wasComplete := ((store.cells.map AccumulatorCell.complete)[position]?).getD false
  { store with
    cells := store.cells.modify position (.seed column sampleCount)
    completeCount := store.completeCount + (if wasComplete then 0 else 1) }

/-- An entry that has just received all its frames. -/
def becomesComplete (framesPerColumn : ℕ) (endOfInput : Option ℕ) (cell : AccumulatorCell) : Bool :=
  !cell.complete &&
    decide (expectedColumnFrames framesPerColumn endOfInput cell.columnIndex ≠ 0) &&
    decide (cell.sampleCount = expectedColumnFrames framesPerColumn endOfInput cell.columnIndex)

/-- Mark the entries that have all their frames. -/
def refreshCompletedColumns (framesPerColumn : ℕ) (endOfInput : Option ℕ) (store : ParallelStore) :
    ParallelStore :=
  { store with
    cells := Block.mapFirst store.count (fun cell =>
      if becomesComplete framesPerColumn endOfInput cell then { cell with complete := true }
      else cell) store.cells
    completeCount := store.completeCount +
      (store.cells.take store.count).countP (becomesComplete framesPerColumn endOfInput) }

/-- Forget which columns are complete. -/
def markWaveformPublicationPending (store : ParallelStore) : ParallelStore :=
  { store with
    cells := Block.mapFirst store.count (fun cell => { cell with complete := false }) store.cells
    completeCount := 0 }

/-- Make room for the columns of a queue that have no entry yet. -/
def reserveAccumulators (junk : AccumulatorCell) (hasBands : Bool) (store : ParallelStore)
    (additional : ℕ) (env : Environment) : Status × ParallelStore × Environment :=
  if additional = 0 then (.ok, store, env)
  else if uint32Max - additional < store.count then (.error .limitExceeded, store, env)
  else store.ensureCapacity junk hasBands (store.count + additional) env

end ParallelStore

/-- Take over the column of an earlier result. -/
def Accumulator.seed (column : WaveformColumn) (sampleCount : ℕ) (acc : Accumulator) :
    Accumulator :=
  let scaled := truncate (fmul (fdiv (f32 column.rms) 65535) 8388608)
  { acc with
    minimum := fdiv column.minimum 32767
    maximum := fdiv column.maximum 32767
    sumSquares := scaled * scaled * sampleCount
    sampleCount := sampleCount
    clipped := column.clipped
    complete := true }

namespace Overview

/-- Write a seeded column to the accumulator at a position. -/
def seedAt (overview : Overview) (position sampleCount : ℕ) (column : WaveformColumn) : Overview :=
  let wasComplete := ((overview.accumulators.map Accumulator.complete)[position]?).getD false
  { overview with
    accumulators := overview.accumulators.modify position (.seed column sampleCount)
    completeCount := overview.completeCount + (if wasComplete then 0 else 1) }

/-- Forget which columns are complete. -/
def forgetMarks (overview : Overview) : Overview :=
  { overview with
    accumulators := overview.accumulators.map fun acc => { acc with complete := false }
    completeCount := 0 }

end Overview

namespace ParallelStore

/-! ## The entries -/

/-- The band sums of the entries. -/
def bands (store : ParallelStore) : List (Bands ℕ) :=
  match store.bandSums with
  | some block => block.take store.count
  | none => List.replicate store.count .zero

/-- The store that the blocks hold. -/
def overview (store : ParallelStore) : Overview where
  accumulators := List.zipWith AccumulatorCell.withBands (store.cells.take store.count) store.bands
  capacity := store.capacity
  completeCount := store.completeCount
  bandFilter := store.bandFilter

/-- Both blocks have room for the recorded capacity, and it has room for the entries. -/
structure Laid (hasBands : Bool) (store : ParallelStore) : Prop where
  fits : store.count ≤ store.capacity
  room : store.capacity ≤ store.cells.length
  bandRoom : ∀ block ∈ store.bandSums, store.capacity ≤ block.length
  banded : hasBands = true → 0 < store.capacity → store.bandSums.isSome
  unbanded : hasBands = false → store.bandSums = none

variable {store : ParallelStore} {hasBands : Bool} {junk : AccumulatorCell} {env : Environment}

theorem laid_empty (hasBands : Bool) (filter : BandFilter) : (empty filter).Laid hasBands where
  fits := le_rfl
  room := le_rfl
  bandRoom _ hblock := by cases hblock
  banded _ hpos := absurd hpos (lt_irrefl 0)
  unbanded _ := rfl

namespace Laid

theorem take_length (h : store.Laid hasBands) : (store.cells.take store.count).length = store.count :=
  List.length_take_of_le (h.fits.trans h.room)

theorem bands_length (h : store.Laid hasBands) : store.bands.length = store.count := by
  unfold bands
  cases hbands : store.bandSums with
  | none => exact List.length_replicate
  | some block => exact List.length_take_of_le (h.fits.trans (h.bandRoom block hbands))

theorem length (h : store.Laid hasBands) : store.overview.accumulators.length = store.count := by
  rw [overview, List.length_zipWith, h.take_length, h.bands_length, min_self]

/-- What is read of the accumulators without their bands. -/
theorem map_eq (h : store.Laid hasBands) {β : Type} {f : Accumulator → β} {g : AccumulatorCell → β}
    (hfg : ∀ cell bands, f (cell.withBands bands) = g cell) :
    store.overview.accumulators.map f = (store.cells.map g).take store.count := by
  rw [overview, List.map_zipWith, ← List.map_take]
  simp only [hfg]
  exact Block.zipWith_left g (by rw [h.take_length, h.bands_length])

theorem indices_eq (h : store.Laid hasBands) :
    store.overview.accumulators.map Accumulator.columnIndex =
      (store.cells.map AccumulatorCell.columnIndex).take store.count :=
  h.map_eq fun _ _ => rfl

theorem position_eq (h : store.Laid hasBands) (columnIndex : ℕ) :
    store.position columnIndex = store.overview.position columnIndex := by
  unfold position Overview.position
  rw [h.length]
  refine lowerBound_congr fun i hi => ?_
  rw [h.indices_eq, List.getD_eq_getElem?_getD, List.getD_eq_getElem?_getD,
    List.getElem?_take_of_lt hi]

/-- The search finds the columns of the store. -/
theorem accumulatorExists_iff (h : store.Laid hasBands) (columnIndex : ℕ) :
    store.accumulatorExists columnIndex = true ↔
      (store.overview.accumulators.map Accumulator.columnIndex)[store.overview.position
        columnIndex]? = some columnIndex := by
  unfold accumulatorExists
  rw [h.position_eq, h.indices_eq, List.getElem?_take, Bool.and_eq_true, decide_eq_true_iff,
    decide_eq_true_iff]
  split_ifs with hlt
  · exact and_iff_right hlt
  · exact iff_of_false (fun hand => hlt hand.1) (by simp)

end Laid

/-! ## Growth -/

theorem Laid.regrow_cells (h : store.Laid hasBands) (junk : AccumulatorCell) {size : ℕ}
    (hsize : store.capacity ≤ size) :
    (Laid hasBands { store with cells := Block.regrow store.count size junk store.cells }) ∧
      { store with cells := Block.regrow store.count size junk store.cells }.overview =
        store.overview := by
  have hcount := h.fits.trans h.room
  refine ⟨{ h with room := ?_ }, ?_⟩
  · exact hsize.trans (Block.regrow_length hcount (h.fits.trans hsize) junk).ge
  · unfold overview bands
    simp only
    rw [Block.regrow_take hcount]

theorem Laid.grownBands_length (h : store.Laid hasBands) {size : ℕ} (hsize : store.capacity ≤ size) :
    (store.grownBands size).length = size := by
  unfold grownBands
  cases hbands : store.bandSums with
  | none => exact List.length_replicate
  | some block =>
      exact Block.regrow_length (h.fits.trans (h.bandRoom block hbands)) (h.fits.trans hsize) _

theorem Laid.grownBands_take (h : store.Laid hasBands) {size : ℕ} (hsize : store.capacity ≤ size) :
    (store.grownBands size).take store.count = store.bands := by
  unfold grownBands bands
  cases hbands : store.bandSums with
  | none =>
      simp only
      rw [List.take_replicate, min_eq_left (h.fits.trans hsize)]
  | some block => exact Block.regrow_take (h.fits.trans (h.bandRoom block hbands)) _

/-- The store after a growth that has replaced both blocks. -/
theorem Laid.grown (h : store.Laid hasBands) (junk : AccumulatorCell) {size : ℕ}
    (hsize : store.capacity ≤ size) (bandSums : Option (List (Bands ℕ)))
    (hroom : ∀ block ∈ bandSums, block.length = size) (hbanded : hasBands = bandSums.isSome)
    (hkept : { store with bandSums := bandSums }.bands = store.bands) :
    let grown : ParallelStore := { store with
      cells := Block.regrow store.count size junk store.cells
      bandSums := bandSums
      capacity := size }
    grown.Laid hasBands ∧ grown.overview = { store.overview with capacity := size } := by
  have hcount := h.fits.trans h.room
  refine ⟨{
    fits := h.fits.trans hsize
    room := (Block.regrow_length hcount (h.fits.trans hsize) junk).ge
    bandRoom := fun block hblock => (hroom block hblock).ge
    banded := fun hbands _ => hbanded ▸ hbands
    unbanded := fun hbands => ?_ }, ?_⟩
  · rw [hbands] at hbanded
    exact Option.not_isSome_iff_eq_none.mp fun hsome => by rw [hsome] at hbanded; cases hbanded
  · unfold overview
    rw [← hkept]
    simp only
    rw [Block.regrow_take hcount]
    rfl

theorem Laid.ensureCapacity (h : store.Laid hasBands) {needed : ℕ} {status : Status}
    {grown : ParallelStore} {env' : Environment}
    (hgrow : store.ensureCapacity junk hasBands needed env = (status, grown, env')) :
    grown.Laid hasBands ∧ grown.count = store.count ∧
      (status = .ok → needed ≤ grown.capacity) ∧
      store.overview.ensureCapacity hasBands needed env = (status, grown.overview, env') := by
  have hcount := h.fits.trans h.room
  unfold ParallelStore.ensureCapacity at hgrow
  unfold Overview.ensureCapacity
  rw [show store.overview.capacity = store.capacity from rfl]
  by_cases hfits : needed ≤ store.capacity
  · rw [if_pos hfits] at hgrow ⊢
    simp only [Prod.mk.injEq] at hgrow
    obtain ⟨rfl, rfl, rfl⟩ := hgrow
    exact ⟨h, rfl, fun _ => hfits, rfl⟩
  rw [if_neg hfits] at hgrow ⊢
  cases hsize : grownCapacity (if store.capacity = 0 then 16 else store.capacity) needed 33 with
  | none =>
      simp only [hsize, Prod.mk.injEq] at hgrow ⊢
      obtain ⟨rfl, rfl, rfl⟩ := hgrow
      exact ⟨h, rfl, (fun heq => by cases heq), rfl, rfl, rfl⟩
  | some size =>
      have hneeded := le_of_grownCapacity hsize
      have hlarger : store.capacity ≤ size := (not_le.mp hfits).le.trans hneeded
      obtain ⟨hregrown, hsame⟩ := h.regrow_cells junk hlarger
      simp only [hsize] at hgrow ⊢
      cases hallocate : env.allocate with
      | mk granted env =>
          cases granted
          case false =>
            simp only [hallocate, Prod.mk.injEq] at hgrow ⊢
            obtain ⟨rfl, rfl, rfl⟩ := hgrow
            exact ⟨h, rfl, (fun heq => by cases heq), rfl, rfl, rfl⟩
          cases hasBands with
          | false =>
              have hnone := h.unbanded rfl
              obtain ⟨hgrown, hoverview⟩ := h.grown junk hlarger none
                (fun _ hblock => by cases hblock) rfl (by unfold bands; rw [hnone])
              simp only [hallocate, growBandSums, Bool.not_false, if_true, Prod.mk.injEq,
                hnone] at hgrow
              obtain ⟨rfl, rfl, rfl⟩ := hgrow
              refine ⟨hgrown, rfl, fun _ => hneeded, ?_⟩
              simp only [Bool.false_eq_true, if_false]
              rw [hoverview]
          | true =>
              simp only [hallocate, growBandSums, Bool.not_true, Bool.false_eq_true, if_false]
                at hgrow
              simp only [if_true]
              cases hbands : env.allocate with
              | mk granted env =>
                  cases granted
                  case false =>
                    simp only [hbands, Prod.mk.injEq] at hgrow ⊢
                    obtain ⟨rfl, rfl, rfl⟩ := hgrow
                    exact ⟨hregrown, rfl, (fun heq => by cases heq), rfl, hsame.symm, rfl⟩
                  simp only [hbands, Prod.mk.injEq] at hgrow ⊢
                  obtain ⟨rfl, rfl, rfl⟩ := hgrow
                  obtain ⟨hgrown, hoverview⟩ := h.grown junk hlarger
                    (some (store.grownBands size)) (fun block hblock => by
                      rw [← Option.some.inj hblock, h.grownBands_length hlarger]) rfl
                    (h.grownBands_take hlarger)
                  exact ⟨hgrown, rfl, fun _ => hneeded, rfl, hoverview.symm, rfl⟩

/-! ## Insertion -/

theorem Laid.insertAt_bands (h : store.Laid hasBands) (hroom : store.count + 1 ≤ store.capacity)
    {position : ℕ} (hposition : position ≤ store.count) (columnIndex : ℕ) :
    (store.insertAt position columnIndex).bands = store.bands.insertIdx position .zero := by
  unfold insertAt bands
  cases hbands : store.bandSums with
  | none =>
      simp only [Option.map_none]
      refine List.ext_getElem? fun i => ?_
      rw [List.getElem?_insertIdx, List.getElem?_replicate, List.getElem?_replicate,
        List.getElem?_replicate, List.length_replicate]
      split_ifs <;> first | rfl | omega
  | some block =>
      simp only [Option.map_some]
      exact Block.insertCell_take hposition
        (Nat.lt_of_lt_of_le hroom (h.bandRoom block hbands)) _

theorem Laid.insertAt (h : store.Laid hasBands) (hroom : store.count + 1 ≤ store.capacity)
    (position columnIndex : ℕ) : (store.insertAt position columnIndex).Laid hasBands where
  fits := hroom
  room := h.room.trans (Block.insertCell_length ..).ge
  bandRoom block hblock := by
    obtain ⟨old, hold, rfl⟩ := Option.map_eq_some_iff.mp hblock
    rw [Block.insertCell_length]
    exact h.bandRoom old hold
  banded hbands hpos := by
    rw [ParallelStore.insertAt, Option.isSome_map]
    exact h.banded hbands hpos
  unbanded hbands := by
    rw [ParallelStore.insertAt, h.unbanded hbands]
    rfl

/-- Inserting an entry in both blocks inserts it in the store. -/
theorem Laid.insertAt_overview (h : store.Laid hasBands) (hroom : store.count + 1 ≤ store.capacity)
    {position : ℕ} (hposition : position ≤ store.count) (columnIndex : ℕ) :
    (store.insertAt position columnIndex).overview = { store.overview with
      accumulators := store.overview.accumulators.insertIdx position (.new columnIndex) } := by
  unfold overview
  rw [h.insertAt_bands hroom hposition]
  unfold ParallelStore.insertAt
  simp only
  rw [Block.insertCell_take hposition (Nat.lt_of_lt_of_le hroom h.room),
    Block.zipWith_insertIdx _ (by rw [h.take_length, h.bands_length])]
  rfl

theorem Laid.findOrInsert (h : store.Laid hasBands) {columnIndex : ℕ} {found : Except Status ℕ}
    {after : ParallelStore} {env' : Environment}
    (hfind : store.findOrInsert junk hasBands columnIndex env = (found, after, env')) :
    after.Laid hasBands ∧
      store.overview.findOrInsert hasBands columnIndex env = (found, after.overview, env') := by
  have hposition : store.overview.position columnIndex ≤ store.count :=
    h.length ▸ lowerBound_le _ _
  unfold ParallelStore.findOrInsert at hfind
  unfold Overview.findOrInsert
  simp only [h.position_eq, h.accumulatorExists_iff] at hfind ⊢
  split_ifs at hfind ⊢ with hfound
  · simp only [Prod.mk.injEq] at hfind
    obtain ⟨rfl, rfl, rfl⟩ := hfind
    exact ⟨h, rfl⟩
  rw [h.length]
  cases hgrow : store.ensureCapacity junk hasBands (store.count + 1) env with
  | mk status rest =>
      obtain ⟨grown, env⟩ := rest
      obtain ⟨hgrown, hcount, hroom, hoverview⟩ := h.ensureCapacity hgrow
      rw [hgrow] at hfind
      rw [hoverview]
      cases status with
      | ok =>
          simp only [Prod.mk.injEq] at hfind ⊢
          obtain ⟨rfl, rfl, rfl⟩ := hfind
          have hroom' : grown.count + 1 ≤ grown.capacity := hcount ▸ hroom rfl
          exact ⟨hgrown.insertAt hroom' _ _, rfl,
            (hgrown.insertAt_overview hroom' (hcount ▸ hposition) _).symm, rfl⟩
      | _ =>
          simp only [Prod.mk.injEq] at hfind ⊢
          obtain ⟨rfl, rfl, rfl⟩ := hfind
          exact ⟨hgrown, rfl, rfl, rfl⟩

/-! ## Updates -/

/-- There is a block of band sums when the bands were requested. -/
theorem Laid.isSome_iff (h : store.Laid hasBands) (hpos : 0 < store.capacity) :
    store.bandSums.isSome = hasBands := by
  cases hasBands with
  | false => rw [h.unbanded rfl]; rfl
  | true => exact h.banded rfl hpos

theorem addSampleAt_of_none (hnone : store.bandSums = none) (position : ℕ) (sample : ℚ) :
    store.addSampleAt position sample =
      { store with cells := store.cells.modify position (.addSample sample) } := by
  unfold addSampleAt
  rw [hnone]

theorem addSampleAt_of_some {block : List (Bands ℕ)} (hsome : store.bandSums = some block)
    (position : ℕ) (sample : ℚ) :
    store.addSampleAt position sample =
      { store with
        cells := store.cells.modify position (.addSample sample)
        bandSums := some (block.modify position (store.bandFilter.split sample).1.addScaled)
        bandFilter := (store.bandFilter.split sample).2 } := by
  unfold addSampleAt
  rw [hsome]

theorem Laid.addSampleAt (h : store.Laid hasBands) (position : ℕ) (sample : ℚ) :
    (store.addSampleAt position sample).Laid hasBands := by
  have hroom : store.capacity ≤ (store.cells.modify position (.addSample sample)).length :=
    h.room.trans (List.length_modify ..).ge
  cases hbands : store.bandSums with
  | none =>
      rw [addSampleAt_of_none hbands]
      exact { h with room := hroom }
  | some block =>
      rw [addSampleAt_of_some hbands]
      refine { h with
        room := hroom
        bandRoom := fun other hother => ?_
        banded := fun _ _ => rfl
        unbanded := fun hnone => ?_ }
      · rw [← Option.some.inj hother, List.length_modify]
        exact h.bandRoom block hbands
      · rw [h.unbanded hnone] at hbands
        cases hbands

/-- A sample added to an entry and its bands to the entry of the other block are added to the
accumulator. -/
theorem Laid.addSampleAt_overview (h : store.Laid hasBands) (hpos : 0 < store.capacity)
    (position : ℕ) (sample : ℚ) :
    (store.addSampleAt position sample).overview =
      store.overview.addSampleAt hasBands position sample := by
  have hsome := h.isSome_iff hpos
  cases hbands : store.bandSums with
  | none =>
      rw [hbands] at hsome
      subst hsome
      rw [addSampleAt_of_none hbands]
      unfold overview bands Overview.addSampleAt
      simp only [hbands, Option.isSome_none, Bool.false_eq_true, if_false]
      congr 1
      rw [List.take_modify, ← Block.zipWith_modify AccumulatorCell.withBands (.addSample sample) id
        (·.addSample sample) fun _ _ => rfl, List.modify_id]
  | some block =>
      rw [hbands] at hsome
      subst hsome
      rw [addSampleAt_of_some hbands]
      unfold overview bands Overview.addSampleAt
      simp only [hbands, Option.isSome_some, if_true]
      congr 1
      rw [List.take_modify, List.take_modify]
      exact Block.zipWith_modify AccumulatorCell.withBands (.addSample sample)
        (store.bandFilter.split sample).1.addScaled
        (fun acc => (acc.addSample sample).addBands (store.bandFilter.split sample).1)
        (fun _ _ => rfl) ..

theorem Laid.seedAt (h : store.Laid hasBands) (position sampleCount : ℕ)
    (column : WaveformColumn) : (store.seedAt position sampleCount column).Laid hasBands :=
  { h with room := h.room.trans (List.length_modify ..).ge }

theorem Laid.seedAt_overview (h : store.Laid hasBands) {position : ℕ} (hposition : position < store.count)
    (sampleCount : ℕ) (column : WaveformColumn) :
    (store.seedAt position sampleCount column).overview =
      store.overview.seedAt position sampleCount column := by
  have hmarks : (store.overview.accumulators.map Accumulator.complete)[position]? =
      (store.cells.map AccumulatorCell.complete)[position]? := by
    rw [h.map_eq fun _ _ => rfl, List.getElem?_take_of_lt hposition]
  unfold ParallelStore.seedAt Overview.seedAt
  simp only [hmarks]
  unfold overview bands
  simp only
  congr 1
  rw [List.take_modify, ← Block.zipWith_modify AccumulatorCell.withBands
    (.seed column sampleCount) id (.seed column sampleCount) fun _ _ => rfl, List.modify_id]

theorem Laid.mapFirst (h : store.Laid hasBands) (f : AccumulatorCell → AccumulatorCell)
    (completeCount : ℕ) :
    { store with
      cells := Block.mapFirst store.count f store.cells
      completeCount := completeCount }.Laid hasBands :=
  { h with room := h.room.trans (Block.mapFirst_length ..).ge }

/-- An update of all entries updates all accumulators. -/
theorem Laid.mapFirst_overview (h : store.Laid hasBands) {f : AccumulatorCell → AccumulatorCell}
    {g : Accumulator → Accumulator} (hfg : ∀ cell bands, (f cell).withBands bands =
      g (cell.withBands bands)) (completeCount : ℕ) :
    { store with
      cells := Block.mapFirst store.count f store.cells
      completeCount := completeCount }.overview =
    { store.overview with
      accumulators := store.overview.accumulators.map g
      completeCount := completeCount } := by
  unfold overview
  simp only
  congr 1
  rw [Block.mapFirst_take (h.fits.trans h.room), List.map_zipWith, List.zipWith_map_left]
  simp only [hfg]
  rfl

theorem Laid.refreshCompletedColumns (h : store.Laid hasBands) (framesPerColumn : ℕ)
    (endOfInput : Option ℕ) :
    (store.refreshCompletedColumns framesPerColumn endOfInput).Laid hasBands ∧
      (store.refreshCompletedColumns framesPerColumn endOfInput).overview =
        LibApta.refreshCompletedColumns framesPerColumn endOfInput store.overview := by
  have hcount : (store.cells.take store.count).countP (becomesComplete framesPerColumn endOfInput) =
      store.overview.accumulators.countP (LibApta.becomesComplete framesPerColumn endOfInput) := by
    have hmap := h.map_eq (f := LibApta.becomesComplete framesPerColumn endOfInput)
      (g := becomesComplete framesPerColumn endOfInput) fun _ _ => rfl
    rw [← List.map_take] at hmap
    have hcounted := congrArg (List.countP id) hmap
    rwa [List.countP_map, List.countP_map, eq_comm] at hcounted
  refine ⟨h.mapFirst _ _, ?_⟩
  unfold ParallelStore.refreshCompletedColumns LibApta.refreshCompletedColumns
  rw [hcount]
  refine h.mapFirst_overview (fun cell bands => ?_) _
  by_cases hfull : becomesComplete framesPerColumn endOfInput cell = true
  · rw [if_pos hfull, if_pos (show LibApta.becomesComplete _ _ (cell.withBands bands) = true from
      hfull)]
    rfl
  · rw [if_neg hfull, if_neg (show ¬LibApta.becomesComplete _ _ (cell.withBands bands) = true from
      hfull)]

theorem Laid.markWaveformPublicationPending (h : store.Laid hasBands) :
    store.markWaveformPublicationPending.Laid hasBands ∧
      store.markWaveformPublicationPending.overview = store.overview.forgetMarks :=
  ⟨h.mapFirst _ _, h.mapFirst_overview (fun _ _ => rfl) _⟩

/-- A reservation changes nothing but the capacity. -/
theorem Laid.reserveAccumulators (h : store.Laid hasBands) {additional : ℕ} {status : Status}
    {after : ParallelStore} {env' : Environment}
    (hreserve : store.reserveAccumulators junk hasBands additional env = (status, after, env')) :
    after.Laid hasBands ∧
      (∃ capacity, after.overview = { store.overview with capacity := capacity }) ∧
        (Doubled store.capacity → Doubled after.capacity) := by
  unfold ParallelStore.reserveAccumulators at hreserve
  split_ifs at hreserve
  · rw [← (Prod.mk.inj (Prod.mk.inj hreserve).2).1]
    exact ⟨h, ⟨_, rfl⟩, id⟩
  · rw [← (Prod.mk.inj (Prod.mk.inj hreserve).2).1]
    exact ⟨h, ⟨_, rfl⟩, id⟩
  · obtain ⟨hlaid, -, -, hgrow⟩ := h.ensureCapacity hreserve
    refine ⟨hlaid, ?_, fun hcap => Overview.ensureCapacity_doubled hcap hgrow⟩
    obtain ⟨-, capacity, heq⟩ | ⟨-, -, heq⟩ := Overview.ensureCapacity_cases hgrow
    · exact ⟨capacity, heq⟩
    · exact ⟨store.overview.capacity, heq⟩

end ParallelStore

end LibApta
