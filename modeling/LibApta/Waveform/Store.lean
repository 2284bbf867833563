import LibApta.Lib.KeyedList
import LibApta.Waveform.Process

/-!
# The accumulator store as a map

The store is a sorted list keyed by column index, so a lookup by column describes it completely.
Finding or inserting a column and adding a sample to it change that column only, keep the completion
marks, and keep the store sorted.
-/

namespace LibApta

/-! ## Lookup by column -/

namespace Overview

/-- The store is sorted by column. -/
def Sorted (overview : Overview) : Prop :=
  KeyedList.Sorted Accumulator.columnIndex overview.accumulators

/-- The accumulator of a column. -/
def column (overview : Overview) (columnIndex : ℕ) : Option Accumulator :=
  KeyedList.lookup Accumulator.columnIndex overview.accumulators columnIndex

/-- The column is in the store and marked complete. -/
def marked (overview : Overview) (columnIndex : ℕ) : Bool :=
  ((overview.column columnIndex).map Accumulator.complete).getD false

variable {overview overview' : Overview} {hasBands : Bool} {columnIndex : ℕ} {env env' : Environment}

/-- Making room changes nothing but the capacity, and nothing at all when it is refused. -/
theorem ensureCapacity_cases {needed : ℕ} {status : Status}
    (h : overview.ensureCapacity hasBands needed env = (status, overview', env')) :
    (status = .ok ∧ ∃ capacity, overview' = { overview with capacity := capacity }) ∨
      ∃ code, status = .error code ∧ overview' = overview := by
  unfold ensureCapacity at h
  by_cases hfits : needed ≤ overview.capacity
  · rw [if_pos hfits] at h
    simp only [Prod.mk.injEq] at h
    obtain ⟨rfl, rfl, -⟩ := h
    exact .inl ⟨rfl, _, rfl⟩
  · rw [if_neg hfits] at h
    split at h
    · simp only [Prod.mk.injEq] at h
      obtain ⟨rfl, rfl, -⟩ := h
      exact .inr ⟨_, rfl, rfl⟩
    · split at h
      · simp only [Prod.mk.injEq] at h
        obtain ⟨rfl, rfl, -⟩ := h
        exact .inr ⟨_, rfl, rfl⟩
      · cases hasBands
        · simp only [Bool.false_eq_true, if_false, Prod.mk.injEq] at h
          obtain ⟨rfl, rfl, -⟩ := h
          exact .inl ⟨rfl, _, rfl⟩
        · simp only [if_true] at h
          split at h
          · simp only [Prod.mk.injEq] at h
            obtain ⟨rfl, rfl, -⟩ := h
            exact .inr ⟨_, rfl, rfl⟩
          · simp only [Prod.mk.injEq] at h
            obtain ⟨rfl, rfl, -⟩ := h
            exact .inl ⟨rfl, _, rfl⟩

/-- Making room leaves a doubled capacity. -/
theorem ensureCapacity_doubled {needed : ℕ} {status : Status} (hcap : Doubled overview.capacity)
    (h : overview.ensureCapacity hasBands needed env = (status, overview', env')) :
    Doubled overview'.capacity := by
  obtain ⟨k, hk, hstart⟩ := hcap.start
  unfold ensureCapacity at h
  rw [hstart] at h
  by_cases hfits : needed ≤ overview.capacity
  · rw [if_pos hfits] at h
    simp only [Prod.mk.injEq] at h
    exact h.2.1 ▸ hcap
  rw [if_neg hfits] at h
  cases hgrown : grownCapacity (16 * 2 ^ k) needed 33 with
  | none =>
      simp only [hgrown, Prod.mk.injEq] at h
      exact h.2.1 ▸ hcap
  | some capacity =>
      have hdoubled := doubled_of_grownCapacity hk hgrown
      rw [hgrown] at h
      simp only at h
      split at h
      · simp only [Prod.mk.injEq] at h
        exact h.2.1 ▸ hcap
      · split_ifs at h
        · split at h
          · simp only [Prod.mk.injEq] at h
            exact h.2.1 ▸ hcap
          · simp only [Prod.mk.injEq] at h
            exact h.2.1 ▸ hdoubled
        · simp only [Prod.mk.injEq] at h
          exact h.2.1 ▸ hdoubled

/-- The accumulator a frame of a column is added to: the resident one or a new one. -/
def columnOrNew (overview : Overview) (columnIndex : ℕ) : Accumulator :=
  (overview.column columnIndex).getD (.new columnIndex)

/-- What a successful lookup leaves: the same columns, with the one looked for present at the
position returned. -/
theorem findOrInsert_ok (hs : overview.Sorted) {position : ℕ}
    (h : overview.findOrInsert hasBands columnIndex env = (.ok position, overview', env')) :
    overview'.Sorted ∧
      overview'.accumulators[position]? = some (overview.columnOrNew columnIndex) ∧
      (∀ k, overview'.column k =
        if columnIndex = k then some (overview.columnOrNew columnIndex) else overview.column k) ∧
      overview'.completeCount = overview.completeCount ∧
      overview'.accumulators.countP Accumulator.complete =
        overview.accumulators.countP Accumulator.complete := by
  have hpos : overview.position columnIndex =
      KeyedList.position Accumulator.columnIndex overview.accumulators columnIndex := rfl
  unfold findOrInsert at h
  simp only [hpos] at h
  split_ifs at h with hfound
  · -- The column is there already.
    simp only [Prod.mk.injEq, Except.ok.injEq] at h
    obtain ⟨rfl, rfl, rfl⟩ := h
    rw [List.getElem?_map, Option.map_eq_some_iff] at hfound
    obtain ⟨acc, hget, hkey⟩ := hfound
    have hmem : acc ∈ overview.accumulators := List.mem_of_getElem? hget
    have hcol : overview.column columnIndex = some acc :=
      hkey ▸ KeyedList.lookup_of_mem hs hmem
    have hacc : overview.columnOrNew columnIndex = acc := by simp [columnOrNew, hcol]
    refine ⟨hs, hacc ▸ hget, fun k => ?_, rfl, rfl⟩
    split_ifs with hk
    · rw [← hk, hcol, hacc]
    · rfl
  · -- The column is new.
    have hnone : overview.column columnIndex = none := by
      rcases KeyedList.getElem?_position hs columnIndex with heq | ⟨hnone, -⟩
      · rw [List.getElem?_map, heq] at hfound
        cases hcol : KeyedList.lookup Accumulator.columnIndex overview.accumulators columnIndex with
        | none => exact hcol
        | some acc =>
            rw [hcol] at hfound
            exact absurd (by simp [(KeyedList.lookup_some hcol).2]) hfound
      · exact hnone
    split at h
    · next grown genv hgrow =>
        simp only [Prod.mk.injEq, Except.ok.injEq] at h
        obtain ⟨rfl, rfl, rfl⟩ := h
        obtain ⟨-, capacity, rfl⟩ | ⟨code, hcode, -⟩ := ensureCapacity_cases hgrow
        swap
        · exact absurd hcode (by simp)
        have hacc : overview.columnOrNew columnIndex = .new columnIndex := by
          simp [columnOrNew, hnone]
        obtain ⟨hsort, hget, hlook⟩ :=
          KeyedList.insert_spec (a := Accumulator.new columnIndex) hs hnone
        rw [hacc]
        refine ⟨hsort, hget, hlook, rfl, ?_⟩
        have hperm := List.perm_insertIdx (Accumulator.new columnIndex) overview.accumulators
          (i := KeyedList.position Accumulator.columnIndex overview.accumulators columnIndex) (by
            obtain ⟨pre, post, hl, hp, -, -⟩ := KeyedList.exists_split hs columnIndex
            rw [hp, hl, List.length_append]
            omega)
        exact (hperm.countP_eq _).trans (by rw [List.countP_cons_of_neg (by simp [Accumulator.new])])
    · exact absurd h (by simp)

/-- A failed lookup is an error and changes nothing. -/
theorem findOrInsert_error {status : Status}
    (h : overview.findOrInsert hasBands columnIndex env = (.error status, overview', env')) :
    (∃ code, status = .error code) ∧ overview' = overview := by
  unfold findOrInsert at h
  simp only at h
  split_ifs at h
  · simp at h
  · split at h
    · simp at h
    · next hne heq =>
        simp only [Prod.mk.injEq, Except.error.injEq] at h
        obtain ⟨rfl, rfl, rfl⟩ := h
        obtain ⟨hok, -⟩ | ⟨code, hcode, hsame⟩ := ensureCapacity_cases heq
        · exact absurd hok hne
        · exact ⟨⟨code, hcode⟩, hsame⟩

/-- Finding a column leaves a doubled capacity. -/
theorem findOrInsert_doubled {found : Except Status ℕ} (hcap : Doubled overview.capacity)
    (h : overview.findOrInsert hasBands columnIndex env = (found, overview', env')) :
    Doubled overview'.capacity := by
  unfold findOrInsert at h
  simp only at h
  split_ifs at h
  · simp only [Prod.mk.injEq] at h
    exact h.2.1 ▸ hcap
  · split at h
    · next heq =>
        simp only [Prod.mk.injEq] at h
        obtain ⟨-, rfl, -⟩ := h
        have hdoubled := ensureCapacity_doubled hcap heq
        exact hdoubled
    · next heq =>
        simp only [Prod.mk.injEq] at h
        obtain ⟨-, rfl, -⟩ := h
        exact ensureCapacity_doubled hcap heq

/-- Adding a sample to the accumulator at a position changes that column only. Up to its bands, the
new accumulator is the old one with the sample added. -/
theorem addSampleAt_spec (hasBands : Bool) (hs : overview.Sorted) {position : ℕ} {acc : Accumulator} (sample : ℚ)
    (hget : overview.accumulators[position]? = some acc) :
    (overview.addSampleAt hasBands position sample).Sorted ∧
      (∃ bandSums, ∀ k, (overview.addSampleAt hasBands position sample).column k =
        if acc.columnIndex = k then some { acc.addSample sample with bandSums := bandSums }
        else overview.column k) ∧
      (overview.addSampleAt hasBands position sample).completeCount = overview.completeCount ∧
      (overview.addSampleAt hasBands position sample).accumulators.countP Accumulator.complete =
        overview.accumulators.countP Accumulator.complete := by
  have hcount : ∀ f : Accumulator → Accumulator, (f acc).complete = acc.complete →
      (overview.accumulators.modify position f).countP Accumulator.complete =
        overview.accumulators.countP Accumulator.complete := by
    intro f hf
    have hmodify := KeyedList.countP_modify (p := Accumulator.complete) (f := f) hget
    rw [hf] at hmodify
    exact Nat.add_right_cancel hmodify
  cases hasBands
  · simp only [addSampleAt, Bool.false_eq_true, if_false]
    obtain ⟨hsort, hlook⟩ := KeyedList.modify_spec hs (f := fun acc => acc.addSample sample)
      (fun _ => rfl) hget
    exact ⟨hsort, ⟨acc.bandSums, hlook⟩, trivial, hcount _ rfl⟩
  · simp only [addSampleAt, if_true]
    obtain ⟨hsort, hlook⟩ := KeyedList.modify_spec hs
      (f := fun acc => (acc.addSample sample).addBands (overview.bandFilter.split sample).1)
      (fun _ => rfl) hget
    exact ⟨hsort, ⟨_, hlook⟩, trivial, hcount _ rfl⟩

end Overview

end LibApta
