import LibApta.Query.Published
import LibApta.Session.SeedFidelity
import LibApta.Waveform.Room

/-!
# What a failed seed leaves behind

Seeding stores the columns of a span one after the other, then the range of the span, then the next
span. Every entry may have to grow its array, and when the growth fails the entries before it stay. A
seed is all or nothing, whatever the allocator answers, when only the first entry that changes the
session may have to ask for memory.
-/

namespace LibApta

/-! ## Entries -/

/-- What seeding stores in one step: a column with its index, or the range of a span. -/
inductive SeedEntry where
  | column (placed : WaveformColumn × ℕ)
  | range (sourceRange : FrameRange)

namespace SeedEntry

def columnIndex? : SeedEntry → Option ℕ
  | .column placed => some placed.2
  | .range _ => none

def sourceRange? : SeedEntry → Option FrameRange
  | .column _ => none
  | .range sourceRange => some sourceRange

end SeedEntry

/-- The entries of a span: its columns and then its range. -/
def WaveformSpan.entries (span : WaveformSpan) : List SeedEntry :=
  (span.columns.zipIdx span.firstColumnIndex).map .column ++ [.range span.sourceRange]

def seedEntries (spans : List WaveformSpan) : List SeedEntry := spans.flatMap WaveformSpan.entries

/-- The columns among entries. -/
def entryColumns (entries : List SeedEntry) : Finset ℕ :=
  (entries.filterMap SeedEntry.columnIndex?).toFinset

/-- The most ranges that the table holds while ranges are inserted into it, each before it is merged
with its neighbours. -/
def peakRanges : List FrameRange → List (Interval ℕ) → ℕ
  | [], _ => 0
  | range :: rest, ranges =>
      max (ranges.length + 1)
        (peakRanges rest (Interval.insertMerge range.firstFrame range.endFrame ranges))

/-! ## Growth -/

/-- Ask for memory a number of times, up to the first refusal. -/
def Environment.ask : ℕ → Environment → Bool × Environment
  | 0, env => (true, env)
  | requests + 1, env =>
      match env.allocate with
      | (false, env) => (false, env)
      | (true, env) => ask requests env

theorem Environment.ask_granted {requests : ℕ} {env : Environment} {rest : List Bool}
    (h : env.allocations = List.replicate requests true ++ rest) :
    env.ask requests = (true, { env with allocations := rest }) := by
  induction requests generalizing env with
  | zero =>
      rw [List.replicate_zero, List.nil_append] at h
      rw [← h]
      rfl
  | succ requests ih =>
      rw [List.replicate_succ, List.cons_append] at h
      rw [ask, allocate, h]
      exact ih rfl

theorem Environment.ask_refused {requests : ℕ} {env : Environment} (hpos : 0 < requests)
    (h : env.allocate.1 = false) : (env.ask requests).1 = false := by
  obtain ⟨requests, rfl⟩ := Nat.exists_eq_succ_of_ne_zero hpos.ne'
  rw [ask, ← Prod.mk.eta (p := env.allocate), h]

/-- The blocks that one growth of the store takes: one for the columns, one for the band sums. -/
def Overview.blocks (hasBands : Bool) : ℕ := if hasBands then 2 else 1

/-- The capacity of a full array after growth. -/
def nextCapacity (initial capacity needed : ℕ) : Option ℕ :=
  grownCapacity (if capacity = 0 then initial else capacity) needed 33

theorem Overview.ensureCapacity_grows {overview : Overview} {needed : ℕ}
    (hfull : ¬ needed ≤ overview.capacity) (hasBands : Bool) (env : Environment) :
    overview.ensureCapacity hasBands needed env =
      match nextCapacity 16 overview.capacity needed with
      | none => (.error .limitExceeded, overview, env)
      | some capacity =>
          match env.ask (blocks hasBands) with
          | (false, env) => (.error .outOfMemory, overview, env)
          | (true, env) => (.ok, { overview with capacity := capacity }, env) := by
  rw [ensureCapacity, if_neg hfull]
  unfold nextCapacity
  cases grownCapacity (if overview.capacity = 0 then 16 else overview.capacity) needed 33 with
  | none => rfl
  | some capacity =>
      cases hasBands
      · cases hask : env.allocate with
        | mk granted env' => cases granted <;> simp [blocks, Environment.ask, hask]
      · cases hask : env.allocate with
        | mk granted env' =>
            cases granted
            · simp [blocks, Environment.ask, hask]
            · cases hagain : env'.allocate with
              | mk granted env'' => cases granted <;> simp [blocks, Environment.ask, hask, hagain]

theorem AcceptedRanges.ensureCapacity_grows {accepted : AcceptedRanges} {needed : ℕ}
    (hfull : ¬ needed ≤ accepted.capacity) (env : Environment) :
    accepted.ensureCapacity needed env =
      match nextCapacity 8 accepted.capacity needed with
      | none => (.error .limitExceeded, accepted, env)
      | some capacity =>
          match env.ask 1 with
          | (false, env) => (.error .outOfMemory, accepted, env)
          | (true, env) => (.ok, { accepted with capacity := capacity }, env) := by
  rw [ensureCapacity, if_neg hfull]
  unfold nextCapacity
  cases grownCapacity (if accepted.capacity = 0 then 8 else accepted.capacity) needed 33 with
  | none => rfl
  | some capacity =>
      cases hask : env.allocate with
      | mk granted env' => cases granted <;> simp [Environment.ask, hask]

theorem Overview.columnIndex_columnOrNew (overview : Overview) (columnIndex : ℕ) :
    (overview.columnOrNew columnIndex).columnIndex = columnIndex := by
  unfold columnOrNew
  cases hcolumn : overview.column columnIndex with
  | none => rfl
  | some acc => exact (KeyedList.lookup_some hcolumn).2

theorem Overview.findOrInsert_of_mem {overview : Overview} (hs : overview.Sorted) {columnIndex : ℕ}
    (hmem : columnIndex ∈ overview.columnSet) (hasBands : Bool) (env : Environment) :
    overview.findOrInsert hasBands columnIndex env =
      (.ok (overview.position columnIndex), overview, env) := by
  unfold findOrInsert
  simp only
  rw [if_pos ((position_found hs columnIndex).mpr hmem)]

/-- A new column that there is room for asks for nothing. -/
theorem Overview.findOrInsert_of_room {overview : Overview} (hs : overview.Sorted) {columnIndex : ℕ}
    (hnew : columnIndex ∉ overview.columnSet)
    (hroom : overview.accumulators.length + 1 ≤ overview.capacity) (hasBands : Bool)
    (env : Environment) :
    overview.findOrInsert hasBands columnIndex env =
      (.ok (overview.position columnIndex),
        { overview with accumulators :=
            overview.accumulators.insertIdx (overview.position columnIndex) (.new columnIndex) },
        env) := by
  rw [findOrInsert, if_neg (mt (position_found hs columnIndex).mp hnew), ensureCapacity,
    if_pos hroom]

/-- A new column that there is no room for goes into the grown store. -/
theorem Overview.findOrInsert_grows {overview : Overview} (hs : overview.Sorted) {columnIndex : ℕ}
    (hnew : columnIndex ∉ overview.columnSet)
    (hfull : ¬ overview.accumulators.length + 1 ≤ overview.capacity) (hasBands : Bool)
    (env : Environment) :
    overview.findOrInsert hasBands columnIndex env =
      match nextCapacity 16 overview.capacity (overview.accumulators.length + 1) with
      | none => (.error (.error .limitExceeded), overview, env)
      | some capacity =>
          match env.ask (blocks hasBands) with
          | (false, env) => (.error (.error .outOfMemory), overview, env)
          | (true, env) =>
              { overview with capacity := capacity }.findOrInsert hasBands columnIndex env := by
  rw [findOrInsert, if_neg (mt (position_found hs columnIndex).mp hnew),
    ensureCapacity_grows hfull]
  cases hnext : nextCapacity 16 overview.capacity (overview.accumulators.length + 1) with
  | none => rfl
  | some capacity =>
      have hroom : overview.accumulators.length + 1 ≤ capacity := le_of_grownCapacity hnext
      simp only
      cases env.ask (blocks hasBands) with
      | mk granted env' =>
          cases granted
          · rfl
          · exact (@findOrInsert_of_room { overview with capacity := capacity } hs _ hnew hroom
              hasBands env').symm

namespace Session

/-! ## Storing one entry -/

/-- Store an entry, in the session's own terms. -/
def store : SeedEntry → Session → Status × Session
  | .column placed, s => s.seedColumn placed.2 (s.seededColumnFrames placed.2) placed.1
  | .range sourceRange, s =>
      match s.accepted.ensureCapacity (s.accepted.ranges.length + 1) s.env with
      | (.ok, table, env) =>
          (.ok, { s with
            accepted := table.insertRange sourceRange.firstFrame sourceRange.endFrame
            env := env })
      | (status, table, env) => (status, { s with accepted := table, env := env })

/-- Store entries up to the first that fails. -/
def storeAll : List SeedEntry → Session → Status × Session
  | [], s => (.ok, s)
  | entry :: rest, s =>
      match s.store entry with
      | (.ok, s) => storeAll rest s
      | (status, s) => (status, s)

/-- The entry has room in the arrays as they are. -/
def HasPlace (s : Session) : SeedEntry → Prop
  | .column placed =>
      placed.2 ∈ s.overview.columnSet ∨ s.overview.accumulators.length + 1 ≤ s.overview.capacity
  | .range _ => s.accepted.ranges.length + 1 ≤ s.accepted.capacity

/-- The session with the array grown that the entry goes into, or `none` at the limit of the growth. -/
def grown (s : Session) : SeedEntry → Option Session
  | .column _ =>
      (nextCapacity 16 s.overview.capacity (s.overview.accumulators.length + 1)).map fun capacity =>
        { s with overview := { s.overview with capacity := capacity } }
  | .range _ =>
      (nextCapacity 8 s.accepted.capacity (s.accepted.ranges.length + 1)).map fun capacity =>
        { s with accepted := { s.accepted with capacity := capacity } }

/-- The blocks that the growth for an entry asks for. -/
def blocks (s : Session) : SeedEntry → ℕ
  | .column _ => Overview.blocks (s.config.requests .waveform3Band)
  | .range _ => 1

theorem blocks_pos (s : Session) (entry : SeedEntry) : 0 < s.blocks entry := by
  cases entry with
  | column =>
      show 0 < if _ then 2 else 1
      split_ifs <;> decide
  | range => exact Nat.one_pos

variable {s t g : Session} {entry : SeedEntry}

/-- An entry without a place asks for one, and then goes into the grown session. -/
theorem store_grows (hs : s.overview.Sorted) (hfull : ¬ s.HasPlace entry) :
    s.store entry =
      match s.grown entry with
      | none => (.error .limitExceeded, s)
      | some g =>
          match s.env.ask (s.blocks entry) with
          | (false, env) => (.error .outOfMemory, { s with env := env })
          | (true, env) => { g with env := env }.store entry := by
  cases entry with
  | column placed =>
      obtain ⟨hnew, hfull⟩ := not_or.mp hfull
      unfold store grown blocks
      simp only
      rw [seedColumn]
      simp only
      rw [Overview.findOrInsert_grows hs hnew hfull]
      cases nextCapacity 16 s.overview.capacity (s.overview.accumulators.length + 1) with
      | none => rfl
      | some capacity =>
          simp only [Option.map_some]
          cases s.env.ask (Overview.blocks (s.config.requests .waveform3Band)) with
          | mk granted env' => cases granted <;> rfl
  | range sourceRange =>
      have hfull : ¬ s.accepted.ranges.length + 1 ≤ s.accepted.capacity := hfull
      unfold store grown blocks
      simp only
      rw [AcceptedRanges.ensureCapacity_grows hfull]
      cases hnext : nextCapacity 8 s.accepted.capacity (s.accepted.ranges.length + 1) with
      | none => rfl
      | some capacity =>
          have hroom : s.accepted.ranges.length + 1 ≤ capacity := le_of_grownCapacity hnext
          simp only [Option.map_some]
          cases s.env.ask 1 with
          | mk granted env' =>
              cases granted
              · rfl
              · simp only
                rw [AcceptedRanges.ensureCapacity, if_pos hroom]

/-! ## What a stored entry does -/

/-- The accumulator of a column after seeding it: all values are installed, the band sums stay. -/
def reinstall (s : Session) (placed : WaveformColumn × ℕ) (acc : Accumulator) : Accumulator :=
  { acc with
    minimum := fdiv placed.1.minimum 32767
    maximum := fdiv placed.1.maximum 32767
    sumSquares := seededMagnitude placed.1.rms * seededMagnitude placed.1.rms *
      s.seededColumnFrames placed.2
    sampleCount := s.seededColumnFrames placed.2
    clipped := placed.1.clipped
    complete := true }

/-- The entry is in the session already, as seeding would leave it. -/
def holds (s : Session) : SeedEntry → Bool
  | .column placed =>
      (s.overview.column placed.2).any fun acc => decide (acc = s.reinstall placed acc)
  | .range _ => false

/-- What a stored entry changes. -/
inductive Stores : SeedEntry → Session → Session → Prop
  | column {placed : WaveformColumn × ℕ} {s t : Session} (config : t.config = s.config)
      (ranges : t.accepted.ranges = s.accepted.ranges) (sorted : t.overview.Sorted)
      (column : ∀ k, t.overview.column k = if placed.2 = k
        then some (s.reinstall placed (s.overview.columnOrNew placed.2)) else s.overview.column k) :
      Stores (.column placed) s t
  | range {sourceRange : FrameRange} {s t : Session} (config : t.config = s.config)
      (accumulators : t.overview.accumulators = s.overview.accumulators)
      (ranges : t.accepted.ranges = Interval.insertMerge sourceRange.firstFrame
        sourceRange.endFrame s.accepted.ranges) : Stores (.range sourceRange) s t

/-- The arrays are as large as before. -/
structure SameCapacity (s t : Session) : Prop where
  columns : t.overview.capacity = s.overview.capacity
  ranges : t.accepted.capacity = s.accepted.capacity

/-- Seeding a column that is found, or for which there is room. -/
theorem seedColumn_stores {placed : WaveformColumn × ℕ} (hs : s.overview.Sorted) {position : ℕ}
    {overview : Overview} (hcapacity : overview.capacity = s.overview.capacity)
    (hfind : s.overview.findOrInsert (s.config.requests .waveform3Band) placed.2 s.env =
      (.ok position, overview, s.env)) :
    ∃ t, s.store (.column placed) = (.ok, t) ∧ t.env = s.env ∧ SameCapacity s t ∧
      Stores (.column placed) s t := by
  obtain ⟨hsorted, hget, hlook, -⟩ := Overview.findOrInsert_ok hs hfind
  cases hstore : s.store (.column placed) with
  | mk status t =>
      unfold store seedColumn at hstore
      simp only [hfind] at hstore
      obtain ⟨rfl, rfl⟩ := Prod.mk.inj hstore
      refine ⟨_, rfl, rfl, ⟨hcapacity, rfl⟩, ?_⟩
      have hmodified := KeyedList.modify_spec (f := s.reinstall placed) hsorted (fun _ => rfl) hget
      rw [Overview.columnIndex_columnOrNew] at hmodified
      refine .column rfl rfl hmodified.1 fun k => (hmodified.2 k).trans ?_
      split_ifs with hk
      · rfl
      · exact (hlook k).trans (if_neg hk)

/-- An entry that has a place is stored, and nothing is asked for. -/
theorem store_place (hs : s.overview.Sorted) (hplace : s.HasPlace entry) :
    ∃ t, s.store entry = (.ok, t) ∧ t.env = s.env ∧ SameCapacity s t ∧ Stores entry s t := by
  cases entry with
  | column placed =>
      by_cases hmem : placed.2 ∈ s.overview.columnSet
      · exact seedColumn_stores hs rfl (Overview.findOrInsert_of_mem hs hmem _ _)
      · exact seedColumn_stores hs (by rfl)
          (Overview.findOrInsert_of_room hs hmem (hplace.resolve_left hmem) _ _)
  | range sourceRange =>
      have hroom : s.accepted.ranges.length + 1 ≤ s.accepted.capacity := hplace
      simp only [store, AcceptedRanges.ensureCapacity, if_pos hroom]
      exact ⟨_, rfl, rfl, ⟨rfl, rfl⟩, .range rfl rfl rfl⟩

/-- The grown session has a place for the entry. -/
theorem hasPlace_grown (hgrown : s.grown entry = some g) (env : Environment) :
    { g with env := env }.HasPlace entry := by
  cases entry with
  | column placed =>
      obtain ⟨capacity, hnext, rfl⟩ := Option.map_eq_some_iff.mp hgrown
      exact .inr (le_of_grownCapacity hnext)
  | range sourceRange =>
      obtain ⟨capacity, hnext, rfl⟩ := Option.map_eq_some_iff.mp hgrown
      exact (le_of_grownCapacity hnext : s.accepted.ranges.length + 1 ≤ capacity)

theorem sorted_grown (hs : s.overview.Sorted) (hgrown : s.grown entry = some g) :
    g.overview.Sorted := by
  cases entry with
  | column placed =>
      obtain ⟨capacity, -, rfl⟩ := Option.map_eq_some_iff.mp hgrown
      exact hs
  | range sourceRange =>
      obtain ⟨capacity, -, rfl⟩ := Option.map_eq_some_iff.mp hgrown
      exact hs

/-- The growth itself is no change. -/
theorem Stores.of_grown (hgrown : s.grown entry = some g) {env : Environment}
    (h : Stores entry { g with env := env } t) : Stores entry s t := by
  cases h with
  | column config ranges sorted column =>
      obtain ⟨capacity, -, rfl⟩ := Option.map_eq_some_iff.mp hgrown
      exact .column config ranges sorted column
  | range config accumulators ranges =>
      obtain ⟨capacity, -, rfl⟩ := Option.map_eq_some_iff.mp hgrown
      exact .range config accumulators ranges

/-- The grown session takes the entry. -/
theorem store_grown (hs : s.overview.Sorted) (hgrown : s.grown entry = some g) (env : Environment) :
    ∃ t, { g with env := env }.store entry = (.ok, t) ∧ t.env = env ∧
      SameCapacity { g with env := env } t ∧ Stores entry { g with env := env } t := by
  have hsorted : g.overview.Sorted := sorted_grown hs hgrown
  exact store_place (s := { g with env := env }) hsorted (hasPlace_grown hgrown env)

theorem Stores.sorted (h : Stores entry s t) (hs : s.overview.Sorted) : t.overview.Sorted := by
  cases h with
  | column _ _ sorted => exact sorted
  | range _ accumulators =>
      unfold Overview.Sorted
      rw [accumulators]
      exact hs

/-- An entry is stored, or fails and changes nothing. -/
theorem store_cases (hs : s.overview.Sorted) {status : Status} (h : s.store entry = (status, t)) :
    status = .ok ∧ Stores entry s t ∨ status ≠ .ok ∧ ∃ env, t = { s with env := env } := by
  by_cases hplace : s.HasPlace entry
  · obtain ⟨u, hstore, -, -, hstores⟩ := store_place hs hplace
    obtain ⟨rfl, rfl⟩ := Prod.mk.inj (h.symm.trans hstore)
    exact .inl ⟨rfl, hstores⟩
  · rw [store_grows hs hplace] at h
    cases hgrown : s.grown entry with
    | none =>
        rw [hgrown] at h
        obtain ⟨rfl, rfl⟩ := Prod.mk.inj h
        exact .inr ⟨by simp, s.env, rfl⟩
    | some g =>
        rw [hgrown] at h
        simp only at h
        cases hask : s.env.ask (s.blocks entry) with
        | mk granted env =>
            rw [hask] at h
            cases granted
            · obtain ⟨rfl, rfl⟩ := Prod.mk.inj h
              exact .inr ⟨by simp, env, rfl⟩
            · obtain ⟨u, hstore, -, -, hstores⟩ := store_grown hs hgrown env
              obtain ⟨rfl, rfl⟩ := Prod.mk.inj (hstore.symm.trans h)
              exact .inl ⟨rfl, hstores.of_grown hgrown⟩

theorem holds_column {placed : WaveformColumn × ℕ} :
    s.holds (.column placed) = true ↔
      ∃ acc, s.overview.column placed.2 = some acc ∧ acc = s.reinstall placed acc := by
  show ((s.overview.column placed.2).any fun acc => decide (acc = s.reinstall placed acc)) = true ↔ _
  simp only [Option.any_eq_true, decide_eq_true_eq]

/-- Storing an entry that the session holds changes nothing. -/
theorem store_holds (hs : s.overview.Sorted) (h : s.holds entry = true) :
    s.store entry = (.ok, s) := by
  cases entry with
  | range => cases h
  | column placed =>
      obtain ⟨acc, hcolumn, hacc⟩ := holds_column.mp h
      have hmem := Overview.mem_columnSet.mpr ⟨acc, hcolumn⟩
      have hfind := Overview.findOrInsert_of_mem hs hmem (s.config.requests .waveform3Band) s.env
      obtain ⟨-, hget, -⟩ := Overview.findOrInsert_ok hs hfind
      have hresident : s.overview.columnOrNew placed.2 = acc := by
        rw [Overview.columnOrNew, hcolumn, Option.getD_some]
      rw [hresident] at hget
      have hsame : s.overview.accumulators.modify (s.overview.position placed.2)
          (s.reinstall placed) = s.overview.accumulators := by
        refine List.ext_getElem? fun k => ?_
        rw [List.getElem?_modify]
        split_ifs with hk
        · rw [← hk, hget, Option.map_eq_map, Option.map_some, ← hacc]
        · exact id_map _
      have hmarked : (s.overview.accumulators.map Accumulator.complete)[s.overview.position
          placed.2]?.getD false = true := by
        rw [List.getElem?_map, hget, hacc]
        rfl
      unfold store seedColumn
      simp only [hfind, hmarked, if_true, Nat.add_zero]
      show (Status.ok, ({ s with overview := { s.overview with
        accumulators := s.overview.accumulators.modify _ (s.reinstall placed) } } : Session)) = _
      rw [hsame]

/-! ## Entries that fit -/

/-- There is room for all the entries in the arrays as they are. -/
def Fits (s : Session) (entries : List SeedEntry) : Prop :=
  s.overview.HasRoom (entryColumns entries) ∧
    peakRanges (entries.filterMap SeedEntry.sourceRange?) s.accepted.ranges ≤ s.accepted.capacity

end Session

theorem Overview.hasRoom_insert {overview overview' : Overview} {columns : Finset ℕ}
    (hs : overview.Sorted) {columnIndex : ℕ}
    (hplace : columnIndex ∈ overview.columnSet ∨
      overview.accumulators.length + 1 ≤ overview.capacity)
    (hset : overview'.columnSet = insert columnIndex overview.columnSet)
    (hcapacity : overview'.capacity = overview.capacity) :
    overview.HasRoom (insert columnIndex columns) ↔ overview'.HasRoom columns := by
  unfold HasRoom
  rw [hset, hcapacity, Finset.insert_union, Finset.union_insert]
  constructor
  · exact Or.imp_left fun hsub =>
      ((Finset.subset_insert _ _).trans hsub).trans (Finset.subset_insert _ _)
  · rintro (hsub | hcard)
    · by_cases hmem : columnIndex ∈ overview.columnSet
      · rw [Finset.insert_eq_of_mem hmem] at hsub
        exact .inl (Finset.insert_subset hmem hsub)
      · refine .inr ?_
        rw [← Finset.insert_union, Finset.union_eq_left.mpr hsub, Finset.card_insert_of_notMem hmem,
          card_columnSet hs]
        exact hplace.resolve_left hmem
    · exact .inr hcard

namespace Session

variable {s t g : Session} {entry : SeedEntry} {entries rest : List SeedEntry}

@[simp] theorem entryColumns_column (placed : WaveformColumn × ℕ) :
    entryColumns (.column placed :: rest) = insert placed.2 (entryColumns rest) := by
  simp [entryColumns, SeedEntry.columnIndex?]

@[simp] theorem entryColumns_range (sourceRange : FrameRange) :
    entryColumns (.range sourceRange :: rest) = entryColumns rest := rfl

theorem Fits.hasPlace (h : s.Fits (entry :: rest)) (hs : s.overview.Sorted) : s.HasPlace entry := by
  cases entry with
  | column placed =>
      have hroom := h.1
      rw [entryColumns_column] at hroom
      by_cases hmem : placed.2 ∈ s.overview.columnSet
      · exact .inl hmem
      · exact .inr (hroom.fits hs (Finset.mem_insert_self _ _) hmem)
  | range sourceRange => exact (le_max_left _ _).trans h.2

/-- Entries fit when the first has a place and the others fit once it is stored. -/
theorem fits_cons (hs : s.overview.Sorted) (hplace : s.HasPlace entry) (h : Stores entry s t)
    (hcapacity : SameCapacity s t) : s.Fits (entry :: rest) ↔ t.Fits rest := by
  unfold Fits
  cases h with
  | @column placed _ _ _ ranges _ column =>
      have hset : t.overview.columnSet = insert placed.2 s.overview.columnSet := by
        ext k
        rw [Overview.mem_columnSet, column k, Finset.mem_insert, Overview.mem_columnSet]
        split_ifs with hk
        · simp [hk]
        · simp [Ne.symm hk]
      rw [entryColumns_column, Overview.hasRoom_insert hs hplace hset hcapacity.columns, ranges,
        hcapacity.ranges]
      rfl
  | @range sourceRange _ _ _ accumulators ranges =>
      have hset : t.overview.columnSet = s.overview.columnSet :=
        Overview.columnSet_eq (by rw [accumulators])
      have hplace : s.accepted.ranges.length + 1 ≤ s.accepted.capacity := hplace
      have hroom : t.overview.HasRoom (entryColumns rest) ↔
          s.overview.HasRoom (entryColumns rest) :=
        ⟨fun h => h.congr hset.symm hcapacity.columns.symm, fun h => h.congr hset hcapacity.columns⟩
      rw [entryColumns_range, hroom, hcapacity.ranges, ranges]
      show _ ∧ max _ _ ≤ _ ↔ _
      rw [max_le_iff, and_iff_right hplace]

/-- Entries that fit are stored, whatever the allocator answers. -/
theorem storeAll_fits (hs : s.overview.Sorted) (h : s.Fits entries) :
    ∃ t, storeAll entries s = (.ok, t) := by
  induction entries generalizing s with
  | nil => exact ⟨s, rfl⟩
  | cons entry rest ih =>
      have hplace := h.hasPlace hs
      obtain ⟨t, hstore, -, hcapacity, hstores⟩ := store_place hs hplace
      rw [storeAll, hstore]
      exact ih (hstores.sorted hs) ((fits_cons hs hplace hstores hcapacity).mp h)

/-- Entries that do not fit fail on an allocator that refuses. -/
theorem storeAll_short (hs : s.overview.Sorted) (hshort : ¬ s.Fits entries)
    (hrefuses : s.env.allocate.1 = false) : (storeAll entries s).1 ≠ .ok := by
  induction entries generalizing s with
  | nil => exact absurd ⟨.inl (Finset.empty_subset _), Nat.zero_le _⟩ hshort
  | cons entry rest ih =>
      by_cases hplace : s.HasPlace entry
      · obtain ⟨t, hstore, henv, hcapacity, hstores⟩ := store_place hs hplace
        rw [storeAll, hstore]
        exact ih (hstores.sorted hs) (mt (fits_cons hs hplace hstores hcapacity).mpr hshort)
          (henv ▸ hrefuses)
      · rw [storeAll, store_grows hs hplace]
        cases s.grown entry with
        | none => simp
        | some g =>
            have hrefused := Environment.ask_refused (s.blocks_pos entry) hrefuses
            simp only
            rw [← Prod.mk.eta (p := s.env.ask (s.blocks entry)), hrefused]
            simp

/-! ## What stays stored -/

/-- A seed that has left nothing behind: accumulators with their band sums, the count of complete
columns, accepted ranges and their ends are as before. -/
structure Unseeded (s t : Session) : Prop where
  accumulators : t.overview.accumulators = s.overview.accumulators
  completeCount : t.overview.completeCount = s.overview.completeCount
  ranges : t.accepted.ranges = s.accepted.ranges
  greatestEnd : t.accepted.greatestEnd = s.accepted.greatestEnd
  maximumEnd : t.accepted.maximumEnd = s.accepted.maximumEnd

/-- The frames in the table, each counted as often as it was recorded. -/
def recorded (s : Session) : ℤ := Interval.extent (fun frame : ℕ => (frame : ℤ)) s.accepted.ranges

/-- The later session has kept an entry since the earlier one: the column is in the store as it was
seeded, or the table has gained frames. -/
def Keeps (s : Session) : SeedEntry → Session → Prop
  | .column placed, t => t.holds (.column placed) = true
  | .range _, t => s.recorded < t.recorded

/-- Entries for seeding: no column twice, no empty range. -/
structure Orderly (entries : List SeedEntry) : Prop where
  columns : (entries.filterMap SeedEntry.columnIndex?).Nodup
  ranges : ∀ range ∈ entries.filterMap SeedEntry.sourceRange?, range.firstFrame < range.endFrame

theorem Orderly.tail (h : Orderly (entry :: rest)) : Orderly rest := by
  cases entry with
  | column placed =>
      exact ⟨(List.nodup_cons.mp h.columns).2, h.ranges⟩
  | range sourceRange => exact ⟨h.columns, (List.forall_mem_cons.mp h.ranges).2⟩

theorem reinstall_congr (h : t.config = s.config) (placed : WaveformColumn × ℕ) :
    t.reinstall placed = s.reinstall placed := by
  funext acc
  unfold reinstall
  rw [seededColumnFrames_congr h]

theorem holds_congr (hconfig : t.config = s.config) {placed : WaveformColumn × ℕ}
    (hcolumn : t.overview.column placed.2 = s.overview.column placed.2) :
    t.holds (.column placed) = s.holds (.column placed) := by
  show ((t.overview.column placed.2).any fun acc => decide (acc = t.reinstall placed acc)) =
    (s.overview.column placed.2).any fun acc => decide (acc = s.reinstall placed acc)
  rw [hcolumn, reinstall_congr hconfig]

theorem recorded_range {sourceRange : FrameRange} (h : Stores (.range sourceRange) s t) :
    t.recorded = s.recorded + (sourceRange.endFrame - sourceRange.firstFrame : ℤ) := by
  cases h with
  | range _ _ ranges =>
      unfold recorded
      rw [ranges, Interval.extent_insertMerge]

/-- An orderly entry that has been stored is kept. -/
theorem Stores.keeps (h : Stores entry s t) (horderly : Orderly (entry :: rest)) :
    s.Keeps entry t := by
  cases entry with
  | column placed =>
      cases h with
      | column config _ _ column =>
          refine holds_column.mpr ⟨_, (column placed.2).trans (if_pos rfl), ?_⟩
          rw [reinstall_congr config]
          rfl
  | range sourceRange =>
      have hlength := recorded_range h
      have hforward : sourceRange.firstFrame < sourceRange.endFrame :=
        (List.forall_mem_cons.mp horderly.ranges).1
      show s.recorded < t.recorded
      omega

/-- Storing another entry does not take it back. -/
theorem Keeps.store {other : SeedEntry} (h : s.Keeps entry t)
    (horderly : Orderly (entry :: other :: rest)) (hstores : Stores other t g) :
    s.Keeps entry g := by
  cases entry with
  | column placed =>
      have hholds : t.holds (.column placed) = true := h
      show g.holds (.column placed) = true
      cases hstores with
      | @column another _ _ config _ _ column =>
          have hne : another.2 ≠ placed.2 := by
            rintro heq
            exact (List.nodup_cons.mp horderly.columns).1 (heq ▸ List.mem_cons_self)
          rw [holds_congr config ((column placed.2).trans (if_neg hne)), hholds]
      | range config accumulators _ =>
          have hcolumn : g.overview.column placed.2 = t.overview.column placed.2 := by
            unfold Overview.column
            rw [accumulators]
          rw [holds_congr config hcolumn, hholds]
  | range sourceRange =>
      have hgained : s.recorded < t.recorded := h
      show s.recorded < g.recorded
      cases other with
      | column placed =>
          cases hstores with
          | column _ ranges _ _ =>
              unfold recorded at hgained ⊢
              rwa [ranges]
      | range another =>
          have hlength := recorded_range hstores
          have hforward : another.firstFrame < another.endFrame :=
            horderly.tail.ranges another List.mem_cons_self
          omega

theorem Orderly.skip {other : SeedEntry} (h : Orderly (entry :: other :: rest)) :
    Orderly (entry :: rest) := by
  have hsub : (entry :: rest).Sublist (entry :: other :: rest) :=
    (List.sublist_cons_self other rest).cons_cons entry
  exact ⟨h.columns.sublist (hsub.filterMap _),
    fun range hmem => h.ranges range ((hsub.filterMap _).subset hmem)⟩

/-- A stored entry is kept to the end of the seed, whether or not that is a failure. -/
theorem Keeps.storeAll (horderly : Orderly (entry :: rest)) (ht : t.overview.Sorted)
    (h : s.Keeps entry t) : s.Keeps entry (storeAll rest t).2 := by
  induction rest generalizing t with
  | nil => exact h
  | cons other rest ih =>
      rw [Session.storeAll]
      cases hstore : t.store other with
      | mk status u =>
          rcases store_cases ht hstore with ⟨rfl, hstores⟩ | ⟨hfailed, env, rfl⟩
          · exact ih horderly.skip (hstores.sorted ht) (h.store horderly hstores)
          · have hkept : s.Keeps entry { t with env := env } := by
              cases entry <;> exact h
            cases status
            case ok => exact absurd rfl hfailed
            all_goals exact hkept

/-- What keeps an entry that was not there is not as before. -/
theorem Keeps.not_unseeded (h : s.Keeps entry t) (hconfig : t.config = s.config)
    (hnew : s.holds entry = false) : ¬ Unseeded s t := by
  intro hsame
  cases entry with
  | column placed =>
      have hcolumn : t.overview.column placed.2 = s.overview.column placed.2 := by
        unfold Overview.column
        rw [hsame.accumulators]
      have hholds : t.holds (.column placed) = true := h
      rw [holds_congr hconfig hcolumn, hnew] at hholds
      cases hholds
  | range sourceRange =>
      have hgained : s.recorded < t.recorded := h
      unfold recorded at hgained
      rw [hsame.ranges] at hgained
      exact lt_irrefl _ hgained

/-! ## All or nothing -/

/-- The entries from the first that changes the session on. -/
def pending (s : Session) (entries : List SeedEntry) : List SeedEntry := entries.dropWhile s.holds

instance (s : Session) (entry : SeedEntry) : Decidable (s.HasPlace entry) := by
  cases entry <;> unfold HasPlace <;> infer_instance

/-- The session with a place for an entry: as it is, or grown. -/
def withPlace (s : Session) (entry : SeedEntry) : Option Session :=
  if s.HasPlace entry then some s else s.grown entry

/-- Once there is a place for the first entry that changes the session, all entries fit. -/
def StoresWhole (s : Session) (entries : List SeedEntry) : Prop :=
  ∀ first ∈ (s.pending entries).head?, ∀ roomy ∈ s.withPlace first, roomy.Fits (s.pending entries)

instance (s : Session) (entries : List SeedEntry) : Decidable (s.Fits entries) := by
  unfold Fits Overview.HasRoom
  infer_instance

instance (s : Session) (entries : List SeedEntry) : Decidable (s.StoresWhole entries) := by
  unfold StoresWhole
  infer_instance

theorem storeAll_pending (hs : s.overview.Sorted) (entries : List SeedEntry) :
    storeAll entries s = storeAll (s.pending entries) s := by
  induction entries with
  | nil => rfl
  | cons entry rest ih =>
      unfold pending
      rw [List.dropWhile_cons]
      split_ifs with hholds
      · rw [storeAll, store_holds hs hholds]
        exact ih
      · rfl

theorem storeAll_config (hs : s.overview.Sorted) (entries : List SeedEntry) :
    (storeAll entries s).2.config = s.config := by
  induction entries generalizing s with
  | nil => rfl
  | cons entry rest ih =>
      rw [storeAll]
      cases hstore : s.store entry with
      | mk status t =>
          rcases store_cases hs hstore with ⟨rfl, hstores⟩ | ⟨hfailed, env, rfl⟩
          · have hconfig : t.config = s.config := by cases hstores <;> assumption
            exact (ih (hstores.sorted hs)).trans hconfig
          · cases status
            case ok => exact absurd rfl hfailed
            all_goals rfl

theorem pending_env (s : Session) (env : Environment) (entries : List SeedEntry) :
    { s with env := env }.pending entries = s.pending entries := by
  unfold pending
  congr 1

theorem Orderly.pending (h : Orderly entries) (s : Session) : Orderly (s.pending entries) := by
  have hsub : (s.pending entries).Sublist entries := List.dropWhile_sublist _
  exact ⟨h.columns.sublist (hsub.filterMap _),
    fun range hmem => h.ranges range ((hsub.filterMap _).subset hmem)⟩

theorem holds_of_pending (h : s.pending entries = entry :: rest) : s.holds entry = false := by
  have hhead := List.head?_dropWhile_not s.holds entries
  rw [show entries.dropWhile s.holds = entry :: rest from h] at hhead
  exact hhead

/-- A session that may differ from another one in its capacities and its platform only. -/
structure Roomier (s roomy : Session) : Prop where
  config : roomy.config = s.config
  same : Unseeded s roomy

theorem Roomier.holds (h : Roomier s t) (entry : SeedEntry) : t.holds entry = s.holds entry := by
  cases entry with
  | range => rfl
  | column placed =>
      refine holds_congr h.config ?_
      unfold Overview.column
      rw [h.same.accumulators]

theorem Roomier.unseeded (h : Roomier s g) (ht : Unseeded s t) : Unseeded g t where
  accumulators := ht.accumulators.trans h.same.accumulators.symm
  completeCount := ht.completeCount.trans h.same.completeCount.symm
  ranges := ht.ranges.trans h.same.ranges.symm
  greatestEnd := ht.greatestEnd.trans h.same.greatestEnd.symm
  maximumEnd := ht.maximumEnd.trans h.same.maximumEnd.symm

theorem roomier_withPlace (h : s.withPlace entry = some g) (env : Environment) :
    Roomier s { g with env := env } := by
  unfold withPlace at h
  split_ifs at h
  · obtain rfl := Option.some.inj h
    exact ⟨rfl, rfl, rfl, rfl, rfl, rfl⟩
  · cases entry <;> obtain ⟨capacity, -, rfl⟩ := Option.map_eq_some_iff.mp h <;>
      exact ⟨rfl, rfl, rfl, rfl, rfl, rfl⟩

theorem hasPlace_withPlace (h : s.withPlace entry = some g) (env : Environment) :
    { g with env := env }.HasPlace entry := by
  unfold withPlace at h
  split_ifs at h with hplace
  · obtain rfl := Option.some.inj h
    cases entry <;> exact hplace
  · exact hasPlace_grown h env

theorem storeAll_congr (h : s.store entry = t.store entry) :
    storeAll (entry :: rest) s = storeAll (entry :: rest) t := by
  rw [storeAll, storeAll, h]

/-- On an allocator that refuses, entries that do not fit leave the first one behind. -/
theorem storeAll_dirty (hs : s.overview.Sorted) (horderly : Orderly (entry :: rest))
    (hnew : s.holds entry = false) (hplace : s.HasPlace entry) (hshort : ¬ s.Fits (entry :: rest))
    (hrefuses : s.env.allocate.1 = false) :
    (storeAll (entry :: rest) s).1 ≠ .ok ∧ ¬ Unseeded s (storeAll (entry :: rest) s).2 := by
  refine ⟨storeAll_short hs hshort hrefuses, ?_⟩
  obtain ⟨t, hstore, -, -, hstores⟩ := store_place hs hplace
  rw [storeAll, hstore]
  have ht := hstores.sorted hs
  have hconfig : t.config = s.config := by cases hstores <;> assumption
  exact ((hstores.keeps horderly).storeAll horderly ht).not_unseeded
    ((storeAll_config ht rest).trans hconfig) hnew

/-- Storing an entry is refused or goes on in the session with a place for it, and the allocator can let
it go on with any answers left. -/
theorem store_withPlace (hs : s.overview.Sorted) (hroomy : s.withPlace entry = some g) :
    (∀ env, (∃ env' code, { s with env := env }.store entry =
        (.error code, { s with env := env' })) ∨
      ∃ env', { s with env := env }.store entry = { g with env := env' }.store entry) ∧
    ∀ rest clock deadline, ∃ answers env', env'.allocations = rest ∧
      { s with env := ⟨answers, clock, deadline⟩ }.store entry =
        { g with env := env' }.store entry := by
  unfold withPlace at hroomy
  split_ifs at hroomy with hplace
  · obtain rfl := Option.some.inj hroomy
    exact ⟨fun env => .inr ⟨env, rfl⟩, fun rest clock deadline => ⟨rest, _, rfl, rfl⟩⟩
  have hgrows : ∀ env, { s with env := env }.store entry =
      match env.ask (s.blocks entry) with
      | (false, env) => (.error .outOfMemory, { s with env := env })
      | (true, env) => { g with env := env }.store entry := fun env => by
    have hfull : ¬ { s with env := env }.HasPlace entry := by cases entry <;> exact hplace
    have hg : { s with env := env }.grown entry = some { g with env := env } := by
      cases entry <;> obtain ⟨capacity, hnext, rfl⟩ := Option.map_eq_some_iff.mp hroomy <;>
        exact congrArg (Option.map _) hnext
    rw [store_grows (s := { s with env := env }) hs hfull, hg]
    cases entry <;> rfl
  refine ⟨fun env => ?_, fun rest clock deadline => ?_⟩
  · rw [hgrows env]
    cases env.ask (s.blocks entry) with
    | mk granted env' =>
        cases granted
        · exact .inl ⟨env', _, rfl⟩
        · exact .inr ⟨env', rfl⟩
  · refine ⟨List.replicate (s.blocks entry) true ++ rest, ⟨rest, clock, deadline⟩, rfl, ?_⟩
    rw [hgrows, Environment.ask_granted rfl]

/-- An entry that cannot have a place is refused. -/
theorem store_noPlace (hs : s.overview.Sorted) (hnone : s.withPlace entry = none)
    (env : Environment) :
    { s with env := env }.store entry = (.error .limitExceeded, { s with env := env }) := by
  unfold withPlace at hnone
  split_ifs at hnone with hplace
  have hfull : ¬ { s with env := env }.HasPlace entry := by cases entry <;> exact hplace
  have hg : { s with env := env }.grown entry = none := by
    cases entry <;> exact congrArg (Option.map _) (Option.map_eq_none_iff.mp hnone)
  rw [store_grows (s := { s with env := env }) hs hfull, hg]

/-- Entries are stored wholly or not at all, whatever the allocator answers, exactly when they all fit
once the first change has its place. -/
theorem storeAll_whole_iff (hs : s.overview.Sorted) (horderly : Orderly entries) (deadline : ℕ) :
    (∀ answers clock, (storeAll entries { s with env := ⟨answers, clock, deadline⟩ }).1 ≠ .ok →
      Unseeded s (storeAll entries { s with env := ⟨answers, clock, deadline⟩ }).2) ↔
        s.StoresWhole entries := by
  have hpending : ∀ env, storeAll entries { s with env := env } =
      storeAll (s.pending entries) { s with env := env } := fun env => by
    rw [← pending_env s env]
    exact storeAll_pending (s := { s with env := env }) hs entries
  have horder := horderly.pending s
  unfold StoresWhole
  simp only [hpending]
  cases htodo : s.pending entries with
  | nil => exact ⟨fun _ _ hmem => absurd hmem (by simp), fun _ _ _ hne => absurd rfl hne⟩
  | cons first rest =>
      have hnew := holds_of_pending htodo
      rw [htodo] at horder
      simp only [List.head?_cons, Option.mem_some_iff, forall_eq']
      cases hroomy : s.withPlace first with
      | none =>
          refine ⟨fun _ _ hmem => absurd hmem (by simp), fun _ answers clock _ => ?_⟩
          rw [storeAll, store_noPlace hs hroomy]
          exact ⟨rfl, rfl, rfl, rfl, rfl⟩
      | some roomy =>
          obtain ⟨hgoes, hreaches⟩ := store_withPlace hs hroomy
          have hsorted : roomy.overview.Sorted := by
            unfold Overview.Sorted
            rw [show roomy.overview.accumulators = s.overview.accumulators from
              (roomier_withPlace hroomy roomy.env).same.accumulators]
            exact hs
          simp only [Option.mem_some_iff, forall_eq']
          constructor
          · intro hwhole
            by_contra hshort
            obtain ⟨answers, env', hrefuses, hstore⟩ := hreaches [false] [] deadline
            have hroomier := roomier_withPlace hroomy env'
            obtain ⟨hfailed, hdirty⟩ := storeAll_dirty (s := { roomy with env := env' }) hsorted
              horder ((hroomier.holds first).trans hnew) (hasPlace_withPlace hroomy env') hshort
              (by rw [Environment.allocate, hrefuses])
            have hsame := hwhole answers []
            rw [storeAll_congr hstore] at hsame
            exact hdirty (hroomier.unseeded (hsame hfailed))
          · intro hfits answers clock hfailed
            rcases hgoes ⟨answers, clock, deadline⟩ with ⟨env', code, hrefused⟩ | ⟨env', hstore⟩
            · rw [storeAll, hrefused]
              exact ⟨rfl, rfl, rfl, rfl, rfl⟩
            · obtain ⟨t, hstored⟩ := storeAll_fits (s := { roomy with env := env' }) hsorted hfits
              rw [storeAll_congr hstore, hstored] at hfailed
              exact absurd rfl hfailed

/-! ## Seeding -/

theorem storeAll_append (front back : List SeedEntry) (s : Session) :
    storeAll (front ++ back) s =
      match storeAll front s with
      | (.ok, t) => storeAll back t
      | result => result := by
  induction front generalizing s with
  | nil => rfl
  | cons entry rest ih =>
      rw [List.cons_append, storeAll, storeAll]
      cases s.store entry with
      | mk status t =>
          cases status
          case ok => exact ih t
          all_goals rfl

/-- Columns that all have frames are stored one by one. -/
theorem seedColumns_eq {columns : List WaveformColumn} {columnIndex : ℕ}
    (hframes : ∀ k < columnIndex + columns.length, s.seededColumnFrames k ≠ 0) :
    seedColumns columns columnIndex s =
      storeAll ((columns.zipIdx columnIndex).map .column) s := by
  induction columns generalizing columnIndex s with
  | nil => rfl
  | cons column rest ih =>
      rw [List.length_cons] at hframes
      rw [seedColumns, if_neg (hframes columnIndex (by omega)), List.zipIdx_cons, List.map_cons,
        storeAll]
      have hconfig := (seedColumn_sameInput columnIndex (s.seededColumnFrames columnIndex)
        column s).config
      show (match s.seedColumn columnIndex (s.seededColumnFrames columnIndex) column with
        | (.ok, s) => seedColumns rest (columnIndex + 1) s
        | (status, s) => (status, s)) = match s.seedColumn columnIndex _ column with
        | (.ok, s) => storeAll _ s
        | (status, s) => (status, s)
      cases hseed : s.seedColumn columnIndex (s.seededColumnFrames columnIndex) column with
      | mk status t =>
          rw [hseed] at hconfig
          cases status
          case ok =>
            exact ih fun k hk => seededColumnFrames_congr hconfig ▸ hframes k (by omega)
          all_goals rfl

theorem seedSpan_eq {span : WaveformSpan}
    (hframes : ∀ k < span.endColumn, s.seededColumnFrames k ≠ 0) :
    s.seedSpan span = storeAll span.entries s := by
  rw [seedSpan, WaveformSpan.entries, storeAll_append, seedColumns_eq hframes]
  cases storeAll ((span.columns.zipIdx span.firstColumnIndex).map .column) s with
  | mk status t =>
      cases status
      case ok =>
        simp only [storeAll, store]
        cases t.accepted.ensureCapacity (t.accepted.ranges.length + 1) t.env with
        | mk status rest =>
            obtain ⟨table, env⟩ := rest
            cases status <;> rfl
      all_goals rfl

/-- Seeding spans stores their entries. -/
theorem seedSpans_eq {spans : List WaveformSpan}
    (hframes : ∀ span ∈ spans, ∀ k < span.endColumn, s.seededColumnFrames k ≠ 0) :
    seedSpans spans s = storeAll (seedEntries spans) s := by
  induction spans generalizing s with
  | nil => rfl
  | cons span rest ih =>
      obtain ⟨hspan, hrest⟩ := List.forall_mem_cons.mp hframes
      rw [seedSpans, seedSpan_eq hspan, seedEntries, List.flatMap_cons, storeAll_append]
      cases hstored : storeAll span.entries s with
      | mk status t =>
          cases status
          case ok =>
            have hconfig : t.config = s.config := by
              have hone := seedSpan_eq hspan
              rw [hstored] at hone
              rcases seedSpan_cases hone with ⟨-, u, hu, ht⟩ | ⟨hne, -⟩
              · exact ht.config.trans hu.config
              · exact absurd rfl hne
            exact ih fun span hmem k hk => seededColumnFrames_congr hconfig ▸ hrest span hmem k hk
          all_goals rfl

theorem filterMap_columnIndex (span : WaveformSpan) :
    span.entries.filterMap SeedEntry.columnIndex? =
      List.range' span.firstColumnIndex span.columns.length := by
  rw [WaveformSpan.entries, List.filterMap_append, List.filterMap_map]
  have hcomp : SeedEntry.columnIndex? ∘ SeedEntry.column = some ∘ Prod.snd := rfl
  rw [hcomp, List.filterMap_eq_map, List.zipIdx_map_snd]
  exact List.append_nil _

theorem filterMap_sourceRange (span : WaveformSpan) :
    span.entries.filterMap SeedEntry.sourceRange? = [span.sourceRange] := by
  rw [WaveformSpan.entries, List.filterMap_append, List.filterMap_map]
  have hcomp : SeedEntry.sourceRange? ∘ SeedEntry.column = fun _ => none := rfl
  rw [hcomp, List.filterMap_none]
  rfl

/-- The entries of a placed overview are orderly. -/
theorem orderly_seedEntries {overview : Container.Overview} (h : overview.Placed) :
    Orderly (seedEntries overview.view.spans) := by
  constructor
  · rw [seedEntries, List.filterMap_flatMap]
    simp only [filterMap_columnIndex]
    refine List.nodup_flatMap.mpr ⟨fun span _ => List.nodup_range', h.columns_ordered.imp ?_⟩
    intro span later hle
    refine List.disjoint_left.mpr fun index hmem hlater => ?_
    have hbefore := (List.mem_range'_1.mp hmem).2
    have hafter := (List.mem_range'_1.mp hlater).1
    unfold WaveformSpan.endColumn at hle
    omega
  · rw [seedEntries, List.filterMap_flatMap]
    simp only [filterMap_sourceRange]
    intro range hmem
    obtain ⟨view, hview, hrange⟩ := List.mem_flatMap.mp hmem
    obtain rfl := List.mem_singleton.mp hrange
    obtain ⟨span, hspan, rfl⟩ := List.mem_map.mp hview
    exact (h.spans span hspan).range_nonempty

/-! ## The claim about a call -/

/-- Whatever the allocator answers, a seed that does not succeed leaves nothing behind. -/
def AllOrNothing (s : Session) (result : Result) : Prop :=
  ∀ call : Call, call.op = .seedFromResult result →
    ((s.withPlatform call).seedFromResult result).1 ≠ .ok →
      Unseeded s ((s.withPlatform call).seedFromResult result).2

/-- **Atomicity of seeding.** In a session that a run reaches, seeding from a parsed result is all or
nothing exactly when the result may not be seeded, or when all its entries fit once the first one that
changes the session has its place. -/
theorem seeding_allOrNothing_iff (created s : Session) (calls : List Call)
    (hcreated : Created created) (hrun : run calls created = some s) (sizes : Container.Sizes)
    (options : Option Container.ParseOptions) (buffer : Container.Buffer)
    (context next : Container.Context) (parsed : Container.Parsed)
    (hparse : Container.resultParse sizes options buffer.bytes context =
      ⟨.ok (), some parsed, next⟩) :
    s.AllOrNothing parsed.data.view ↔
      ∀ view, s.seedableView parsed.data.view = .ok view → s.StoresWhole (seedEntries view.spans) := by
  obtain ⟨found, _, _, _, _, heq, haccepts, -⟩ :=
    Container.resultParse_ok (congrArg Container.Reply.status hparse)
  obtain rfl : parsed = found :=
    Option.some.inj (congrArg Container.Reply.resultOut (hparse.symm.trans heq))
  obtain ⟨overview, hdata, hplaced⟩ := haccepts.placed
  have hsorted := (Presents.run hcreated hrun).presentable.sorted
  unfold AllOrNothing
  have hrefusal : ∀ call : Call, (s.withPlatform call).seedableView parsed.data.view =
      s.seedableView parsed.data.view := fun _ => rfl
  cases hview : s.seedableView parsed.data.view with
  | error status =>
      refine ⟨fun _ _ h => absurd h (by simp), fun _ call _ _ => ?_⟩
      rw [seedFromResult, hrefusal, hview]
      exact ⟨rfl, rfl, rfl, rfl, rfl⟩
  | ok view =>
      obtain ⟨rfl, -, -, hcounts⟩ := seedableView_placed hdata hplaced hview
      have hframes : ∀ span ∈ overview.view.spans, ∀ k < span.endColumn,
          s.seededColumnFrames k ≠ 0 := by
        refine List.forall_mem_map.mpr fun span hspan k hk => (hcounts span hspan k ?_).ne'
        change k < span.firstColumnIndex + (span.columns.map Container.Column.view).length at hk
        rwa [List.length_map] at hk
      have hseeds : ∀ call : Call, (s.withPlatform call).seedFromResult parsed.data.view =
          storeAll (seedEntries overview.view.spans) (s.withPlatform call) := fun call => by
        rw [seedFromResult, hrefusal, hview]
        exact seedSpans_eq hframes
      simp only [hseeds, Except.ok.injEq, forall_eq']
      rw [← storeAll_whole_iff hsorted (orderly_seedEntries hplaced) s.env.deadline]
      constructor
      · intro hwhole answers clock
        exact hwhole ⟨.seedFromResult parsed.data.view, answers, clock⟩ rfl
      · intro hwhole call _
        exact hwhole call.allocations call.clock

/-- A small session that a result has been seeded into some times. -/
def seededTimes (times : ℕ) (result : Result) : Option Session :=
  (create (smallConfig {.waveformOverview} none) seriesLibm false plainPlatform).2.bind
    (run (List.replicate times (plainCall (.seedFromResult result))))

/-- The next seed of the result would be all or nothing. -/
def seedsWhole (result : Result) (s : Session) : Bool :=
  match s.seedableView result with
  | .ok view => decide (s.StoresWhole (seedEntries view.spans))
  | .error _ => true

/-- Seeding a second time adds only a range, for which the table has room. -/
theorem seeding_allOrNothing_again : ∃ (created s : Session) (calls : List Call)
    (buffer : Container.Buffer) (parsed : Container.Parsed) (next : Container.Context),
    Created created ∧ run calls created = some s ∧
      Container.resultParse Container.sampleSizes none buffer.bytes ⟨Container.freshHeap, 0⟩ =
        ⟨.ok (), some parsed, next⟩ ∧ s.AllOrNothing parsed.data.view := by
  obtain ⟨created, hcreate⟩ : ∃ created, create (smallConfig {.waveformOverview} none) seriesLibm
      false plainPlatform = (.ok, some created) := ⟨_, rfl⟩
  let buffer : Container.Buffer := ⟨wholeContainer, by decide +kernel⟩
  have hstatus : (Container.resultParse Container.sampleSizes none buffer.bytes
      ⟨Container.freshHeap, 0⟩).status = .ok () := by decide +kernel
  obtain ⟨parsed, next, _, _, _, hparse, -, -⟩ := Container.resultParse_ok hstatus
  have hwhole : ((Container.resultParse Container.sampleSizes none buffer.bytes
      ⟨Container.freshHeap, 0⟩).resultOut.bind fun parsed =>
        (seededTimes 1 parsed.data.view).map (seedsWhole parsed.data.view)) = some true := by
    decide +kernel
  rw [hparse] at hwhole
  change (seededTimes 1 parsed.data.view).map (seedsWhole parsed.data.view) = some true at hwhole
  obtain ⟨s, hs, hwhole⟩ := Option.map_eq_some_iff.mp hwhole
  unfold seededTimes at hs
  rw [hcreate] at hs
  have hcreated : Created created := ⟨_, _, _, _, hcreate⟩
  refine ⟨created, s, _, buffer, parsed, next, hcreated, hs, hparse,
    (seeding_allOrNothing_iff created s _ hcreated hs _ _ buffer _ next parsed hparse).mpr ?_⟩
  intro view hview
  unfold seedsWhole at hwhole
  rw [hview] at hwhole
  exact of_decide_eq_true hwhole

/-- A fresh session that gets memory for the column and none for its range keeps the column: complete,
with no frame of it accepted. -/
theorem seeding_leaves_column : ∃ (created t : Session) (buffer : Container.Buffer)
    (parsed : Container.Parsed) (next : Container.Context), Created created ∧
      Container.resultParse Container.sampleSizes none buffer.bytes ⟨Container.freshHeap, 0⟩ =
        ⟨.ok (), some parsed, next⟩ ∧
      (created.withPlatform ⟨.seedFromResult parsed.data.view, [true, false], []⟩).seedFromResult
        parsed.data.view = (.error .outOfMemory, t) ∧
      created.overview.completeCount = 0 ∧ t.overview.completeCount = 1 ∧
      t.accepted.ranges = [] ∧ ¬ created.AllOrNothing parsed.data.view := by
  obtain ⟨created, hcreate⟩ : ∃ created, create (smallConfig {.waveformOverview} none) seriesLibm
      false plainPlatform = (.ok, some created) := ⟨_, rfl⟩
  let buffer : Container.Buffer := ⟨wholeContainer, by decide +kernel⟩
  have hstatus : (Container.resultParse Container.sampleSizes none buffer.bytes
      ⟨Container.freshHeap, 0⟩).status = .ok () := by decide +kernel
  obtain ⟨parsed, next, _, _, _, hparse, -, -⟩ := Container.resultParse_ok hstatus
  have hfacts : ((Container.resultParse Container.sampleSizes none buffer.bytes
      ⟨Container.freshHeap, 0⟩).resultOut.bind fun parsed =>
        (create (smallConfig {.waveformOverview} none) seriesLibm false plainPlatform).2.map fun s =>
          match (s.withPlatform ⟨.seedFromResult parsed.data.view, [true, false],
            []⟩).seedFromResult parsed.data.view with
          | (status, t) => (status, s.overview.completeCount, t.overview.completeCount,
              t.accepted.ranges)) = some (.error .outOfMemory, 0, 1, []) := by
    decide +kernel
  rw [hparse, hcreate] at hfacts
  have hfacts := Option.some.inj hfacts
  simp only [Prod.mk.injEq] at hfacts
  obtain ⟨hfailed, hbefore, hafter, hranges⟩ := hfacts
  refine ⟨created, _, buffer, parsed, next, ⟨_, _, _, _, hcreate⟩, hparse,
    Prod.ext hfailed rfl, hbefore, hafter, hranges, fun hwhole => ?_⟩
  have hsame := hwhole ⟨.seedFromResult parsed.data.view, [true, false], []⟩ rfl
    (by rw [hfailed]; simp)
  have hcount := hsame.completeCount
  rw [hafter, hbefore] at hcount
  cases hcount

end Session

end LibApta
