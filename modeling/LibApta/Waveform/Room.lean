import Mathlib.Data.Finset.Card
import LibApta.Session.MemoryRequests
import LibApta.Waveform.Spans

/-!
# Room for the columns of a queue

A store has room for a set of columns when it holds them already or when its capacity is no less than
the number of its own columns and these together. While it consumes a queue whose columns it has room
for, the overview layer asks for no memory.
-/

namespace LibApta

/-- A key stands at its lower bound exactly when it is in the list. -/
theorem KeyedList.position_found {α : Type} {key : α → ℕ} {l : List α} (hs : Sorted key l) (k : ℕ) :
    (l.map key)[position key l k]? = some k ↔ k ∈ l.map key := by
  refine ⟨List.mem_of_getElem?, fun hmem => ?_⟩
  obtain ⟨a, ha, rfl⟩ := List.mem_map.mp hmem
  have hfound := lookup_of_mem hs ha
  rcases getElem?_position hs (key a) with heq | ⟨hnone, -⟩
  · rw [List.getElem?_map, heq, hfound]
    rfl
  · exact absurd (hnone.symm.trans hfound) (by simp)

namespace Overview

variable {overview overview' : Overview} {env env' : Environment} {columns : Finset ℕ}

/-- Room that has been made is enough, and the columns stay. -/
theorem ensureCapacity_ok {hasBands : Bool} {needed : ℕ} {status : Status}
    (hok : status.failed = false)
    (h : overview.ensureCapacity hasBands needed env = (status, overview', env')) :
    overview'.accumulators = overview.accumulators ∧ needed ≤ overview'.capacity := by
  have hrefused : ∀ {code : ErrorCode} {rest : Overview × Environment},
      (Status.error code, rest) = (status, overview', env') → False := fun heq => by
    rw [← (Prod.mk.inj heq).1] at hok
    cases hok
  have hgrown : ∀ {capacity : ℕ} {fenv : Environment}, needed ≤ capacity →
      (Status.ok, { overview with capacity := capacity }, fenv) = (status, overview', env') →
      overview'.accumulators = overview.accumulators ∧ needed ≤ overview'.capacity := by
    intro capacity fenv hfits heq
    obtain ⟨-, rfl, -⟩ := Prod.mk.inj heq |>.imp_right Prod.mk.inj
    exact ⟨rfl, hfits⟩
  unfold ensureCapacity at h
  by_cases hfits : needed ≤ overview.capacity
  · rw [if_pos hfits] at h
    exact hgrown hfits h
  rw [if_neg hfits] at h
  split at h
  · exact (hrefused h).elim
  · next capacity hcapacity =>
      have henough := le_of_grownCapacity hcapacity
      split at h
      · exact (hrefused h).elim
      split at h
      · split at h
        · exact (hrefused h).elim
        · exact hgrown henough h
      · exact hgrown henough h

/-- The columns of the store. -/
def columnSet (overview : Overview) : Finset ℕ :=
  (overview.accumulators.map Accumulator.columnIndex).toFinset

/-- A column is in the store exactly when it is found. -/
theorem mem_columnSet {columnIndex : ℕ} :
    columnIndex ∈ overview.columnSet ↔ ∃ acc, overview.column columnIndex = some acc := by
  rw [columnSet, List.mem_toFinset, List.mem_map]
  constructor
  · rintro ⟨acc, hmem, rfl⟩
    cases hcolumn : overview.column acc.columnIndex with
    | none => exact absurd (List.find?_eq_none.mp hcolumn acc hmem) (by simp)
    | some found => exact ⟨found, rfl⟩
  · rintro ⟨acc, hacc⟩
    exact ⟨acc, KeyedList.lookup_some hacc⟩

/-- The store holds these columns, or could without growing. -/
def HasRoom (overview : Overview) (columns : Finset ℕ) : Prop :=
  columns ⊆ overview.columnSet ∨ (overview.columnSet ∪ columns).card ≤ overview.capacity

theorem HasRoom.mono {fewer : Finset ℕ} (h : overview.HasRoom columns) (hsub : fewer ⊆ columns) :
    overview.HasRoom fewer :=
  h.imp hsub.trans fun hcard => (Finset.card_le_card (Finset.union_subset_union_right hsub)).trans hcard

/-- Only the columns and the capacity matter. -/
theorem HasRoom.congr (h : overview.HasRoom columns) (hcolumns : overview'.columnSet = overview.columnSet)
    (hcapacity : overview'.capacity = overview.capacity) : overview'.HasRoom columns := by
  rw [HasRoom, hcolumns, hcapacity]
  exact h

theorem columnSet_eq (h : overview'.accumulators.map Accumulator.columnIndex =
    overview.accumulators.map Accumulator.columnIndex) : overview'.columnSet = overview.columnSet :=
  congrArg List.toFinset h

/-- A sorted store holds each column once. -/
theorem card_columnSet (hs : overview.Sorted) :
    overview.columnSet.card = overview.accumulators.length := by
  have hnodup : (overview.accumulators.map Accumulator.columnIndex).Nodup := hs.imp ne_of_lt
  rw [columnSet, List.toFinset_card_of_nodup hnodup, List.length_map]

theorem position_found (hs : overview.Sorted) (columnIndex : ℕ) :
    (overview.accumulators.map Accumulator.columnIndex)[overview.position columnIndex]? =
      some columnIndex ↔ columnIndex ∈ overview.columnSet :=
  (KeyedList.position_found hs columnIndex).trans List.mem_toFinset.symm

/-- A new column that there is room for fits the capacity. -/
theorem HasRoom.fits (h : overview.HasRoom columns) (hs : overview.Sorted) {columnIndex : ℕ}
    (hmem : columnIndex ∈ columns) (hnew : columnIndex ∉ overview.columnSet) :
    overview.accumulators.length + 1 ≤ overview.capacity := by
  rcases h with hsub | hcard
  · exact absurd (hsub hmem) hnew
  · rw [← card_columnSet hs, ← Finset.card_insert_of_notMem hnew]
    refine (Finset.card_le_card ?_).trans hcard
    exact Finset.insert_subset (Finset.mem_union_right _ hmem) Finset.subset_union_left

/-- Finding a column that there is room for asks for nothing. -/
theorem HasRoom.insertionRequests (h : overview.HasRoom columns) (hs : overview.Sorted)
    {columnIndex : ℕ} (hmem : columnIndex ∈ columns) (bands : Provider) (hasBands : Bool)
    (env : Environment) : overview.insertionRequests bands hasBands columnIndex env = [] := by
  unfold Overview.insertionRequests
  split_ifs with hfound
  · rfl
  · have hfits := h.fits hs hmem (mt (position_found hs columnIndex).mpr hfound)
    rw [Overview.growthRequests, if_pos hfits]

/-- Finding a column that there is room for leaves room for the others. -/
theorem HasRoom.findOrInsert (h : overview.HasRoom columns) (hs : overview.Sorted) {columnIndex : ℕ}
    (hmem : columnIndex ∈ columns) {hasBands : Bool} {found : Except Status ℕ}
    (hfind : overview.findOrInsert hasBands columnIndex env = (found, overview', env')) :
    overview'.HasRoom columns := by
  unfold Overview.findOrInsert at hfind
  simp only at hfind
  split_ifs at hfind with hfound
  · obtain ⟨-, rfl, -⟩ := Prod.mk.inj hfind |>.imp_right Prod.mk.inj
    exact h
  · have hnew := mt (position_found hs columnIndex).mpr hfound
    rw [Overview.ensureCapacity, if_pos (h.fits hs hmem hnew)] at hfind
    obtain ⟨-, rfl, -⟩ := Prod.mk.inj hfind |>.imp_right Prod.mk.inj
    have hcolumns : columnSet { overview with
        accumulators := overview.accumulators.insertIdx (overview.position columnIndex)
          (.new columnIndex) } = insert columnIndex overview.columnSet := by
      have hle : overview.position columnIndex ≤ overview.accumulators.length := by
        obtain ⟨pre, post, hl, hp, -, -⟩ := KeyedList.exists_split hs columnIndex
        rw [show overview.position columnIndex = pre.length from hp, hl, List.length_append]
        omega
      have hperm := (List.perm_insertIdx (Accumulator.new columnIndex) overview.accumulators hle).map
        Accumulator.columnIndex
      rw [columnSet, List.toFinset_eq_of_perm _ _ hperm, List.map_cons, List.toFinset_cons]
      rfl
    rw [HasRoom, hcolumns, Finset.insert_union,
      Finset.insert_eq_of_mem (Finset.mem_union_right _ hmem)]
    exact h.imp_left fun hsub => hsub.trans (Finset.subset_insert _ _)

theorem HasRoom.addSampleAt (h : overview.HasRoom columns) (hasBands : Bool) (position : ℕ)
    (sample : ℚ) : (overview.addSampleAt hasBands position sample).HasRoom columns := by
  refine h.congr (columnSet_eq (columnIndex_addSampleAt hasBands overview position sample)) ?_
  cases hasBands <;> rfl

theorem columnSet_refresh (framesPerColumn : ℕ) (endOfInput : Option ℕ) (overview : Overview) :
    (refreshCompletedColumns framesPerColumn endOfInput overview).columnSet =
      overview.columnSet := by
  refine columnSet_eq ?_
  rw [refreshCompletedColumns, List.map_map]
  refine List.map_congr_left fun acc _ => ?_
  rw [Function.comp_apply]
  split_ifs <;> rfl

theorem HasRoom.refresh (h : overview.HasRoom columns) (framesPerColumn : ℕ)
    (endOfInput : Option ℕ) :
    (refreshCompletedColumns framesPerColumn endOfInput overview).HasRoom columns :=
  h.congr (columnSet_refresh framesPerColumn endOfInput overview) rfl

end Overview

/-! ## Feeding a queue -/

section Loop

variable {overview : Overview} {columns : Finset ℕ} {framesPerColumn : ℕ}

/-- Samples of columns that there is room for ask for nothing, and leave room for the others. -/
theorem sampleRequests_of_room (bands : Provider) (hasBands : Bool) {samples : List ℚ} {frame : ℕ}
    (env : Environment) (hcolumns : ∀ i < samples.length, (frame + i) / framesPerColumn ∈ columns)
    (hs : overview.Sorted) (hroom : overview.HasRoom columns) :
    sampleRequests bands framesPerColumn hasBands samples frame overview env = [] ∧
      (processSamples framesPerColumn hasBands samples frame overview env).2.1.HasRoom columns := by
  induction samples generalizing frame overview env with
  | nil => exact ⟨rfl, hroom⟩
  | cons sample rest ih =>
      have hfirst : frame / framesPerColumn ∈ columns := hcolumns 0 (Nat.succ_pos _)
      have hrest : ∀ i < rest.length, (frame + 1 + i) / framesPerColumn ∈ columns := by
        intro i hi
        have hnext := hcolumns (i + 1) (Nat.succ_lt_succ hi)
        rwa [show frame + 1 + i = frame + (i + 1) by omega]
      unfold sampleRequests processSamples
      split_ifs
      · exact ⟨rfl, hroom⟩
      rw [hroom.insertionRequests hs hfirst, List.nil_append]
      cases hfind : overview.findOrInsert hasBands (frame / framesPerColumn) env with
      | mk found after =>
          obtain ⟨after, fenv⟩ := after
          have hafter := hroom.findOrInsert hs hfirst hfind
          cases found with
          | error status => exact ⟨rfl, hafter⟩
          | ok position =>
              obtain ⟨hsorted, hget, -⟩ := Overview.findOrInsert_ok hs hfind
              exact ih _ hrest (Overview.addSampleAt_spec hasBands hsorted sample hget).1
                (hafter.addSampleAt hasBands position sample)

/-- The columns that a queue still touches. -/
def queueColumns (framesPerColumn : ℕ) (queue : List PcmNode) : Finset ℕ :=
  (queue.flatMap (Session.nodeColumns framesPerColumn)).toFinset

theorem mem_queueColumns {queue : List PcmNode} {column : ℕ} :
    column ∈ queueColumns framesPerColumn queue ↔
      ∃ node ∈ queue, column ∈ Session.nodeColumns framesPerColumn node := by
  rw [queueColumns, List.mem_toFinset, List.mem_flatMap]

theorem mem_nodeColumns {node : PcmNode} {column : ℕ} :
    column ∈ Session.nodeColumns framesPerColumn node ↔ node.processedFrames < node.frameCount ∧
      node.nextFrame / framesPerColumn ≤ column ∧ column ≤ (node.endFrame - 1) / framesPerColumn := by
  unfold Session.nodeColumns
  split_ifs with hdone
  · exact iff_of_false List.not_mem_nil fun h => absurd h.1 (not_lt.mpr hdone)
  · rw [List.mem_range'_1]
    have hle : node.nextFrame / framesPerColumn ≤ (node.endFrame - 1) / framesPerColumn := by
      refine Nat.div_le_div_right ?_
      simp only [PcmNode.nextFrame, PcmNode.endFrame]
      omega
    omega

/-- A node that has advanced touches no column that it did not touch before. -/
theorem queueColumns_advance {queue : List PcmNode} {position chunk : ℕ} :
    queueColumns framesPerColumn (advanceNode queue position chunk) ⊆
      queueColumns framesPerColumn queue := by
  unfold advanceNode
  cases hget : queue[position]? with
  | none => exact Finset.Subset.refl _
  | some node =>
      simp only
      split_ifs
      · intro column hmem
        obtain ⟨other, hother, hcolumn⟩ := mem_queueColumns.mp hmem
        exact mem_queueColumns.mpr ⟨other, List.mem_of_mem_eraseIdx hother, hcolumn⟩
      · intro column hmem
        obtain ⟨other, hother, hcolumn⟩ := mem_queueColumns.mp hmem
        rcases List.mem_or_eq_of_mem_set hother with hold | rfl
        · exact mem_queueColumns.mpr ⟨other, hold, hcolumn⟩
        · refine mem_queueColumns.mpr ⟨node, List.mem_of_getElem? hget, ?_⟩
          obtain ⟨hleft, hfirst, hlast⟩ := mem_nodeColumns.mp hcolumn
          refine mem_nodeColumns.mpr ⟨(Nat.le_add_right _ _).trans_lt hleft, ?_, hlast⟩
          refine (Nat.div_le_div_right ?_).trans hfirst
          simp only [PcmNode.nextFrame]
          omega

end Loop

end LibApta
