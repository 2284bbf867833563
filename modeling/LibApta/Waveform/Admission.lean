import LibApta.Waveform.Room

/-!
# The columns a store admits

The index of a column has 32 bits, and the capacity of the store doubles within 32 bits. Where every
request for memory is granted, these two limits alone decide whether a chunk can be fed: the store
admits a set of columns when none of them is beyond the last index and they make with its own no more
than the greatest capacity.
-/

namespace LibApta

/-- The greatest capacity that doubling reaches. -/
def greatestCapacity : ℕ := 2147483648

namespace Overview

variable {overview overview' : Overview} {env env' : Environment} {columns : Finset ℕ}
  {hasBands : Bool}

/-- A sorted store within a doubled capacity. -/
structure Roomy (overview : Overview) : Prop where
  sorted : overview.Sorted
  doubled : Doubled overview.capacity
  fits : overview.accumulators.length ≤ overview.capacity

/-- The columns have an index, and the store could grow to hold them. -/
structure Admits (overview : Overview) (columns : Finset ℕ) : Prop where
  indexed : ∀ columnIndex ∈ columns, columnIndex ≤ uint32Max
  holds : (overview.columnSet ∪ columns).card ≤ greatestCapacity

/-- Columns that are admitted are admitted in part. -/
theorem Admits.mono {fewer : Finset ℕ} (h : overview.Admits columns) (hsub : fewer ⊆ columns) :
    overview.Admits fewer :=
  ⟨fun columnIndex hmem => h.indexed columnIndex (hsub hmem),
    (Finset.card_le_card (Finset.union_subset_union_right hsub)).trans h.holds⟩

theorem Admits.congr (hcolumns : overview'.columnSet = overview.columnSet) :
    overview'.Admits columns ↔ overview.Admits columns := by
  constructor
  · rintro ⟨hindexed, hholds⟩
    exact ⟨hindexed, hcolumns ▸ hholds⟩
  · rintro ⟨hindexed, hholds⟩
    exact ⟨hindexed, hcolumns.symm ▸ hholds⟩

/-! ## Growing -/

/-- A granted growth fails only for more than the greatest capacity. -/
theorem ensureCapacity_granted (hcap : Doubled overview.capacity) (hgrant : env.Granting)
    {needed : ℕ} {status : Status}
    (h : overview.ensureCapacity hasBands needed env = (status, overview', env')) :
    (status.failed = false ↔ needed ≤ greatestCapacity) ∧ env'.Granting := by
  have hgreatest : greatestCapacity = uint32Max / 2 + 1 := rfl
  unfold ensureCapacity at h
  by_cases hfits : needed ≤ overview.capacity
  · rw [if_pos hfits] at h
    obtain ⟨rfl, -, rfl⟩ := Prod.mk.inj h |>.imp_right Prod.mk.inj
    exact ⟨iff_of_true rfl (hfits.trans hcap.le), hgrant⟩
  rw [if_neg hfits] at h
  obtain ⟨k, hk, hstart⟩ := hcap.start
  rw [hstart] at h
  cases hgrown : grownCapacity (16 * 2 ^ k) needed 33 with
  | none =>
      rw [hgrown] at h
      obtain ⟨rfl, -, rfl⟩ := Prod.mk.inj h |>.imp_right Prod.mk.inj
      refine ⟨iff_of_false (by simp [Status.failed]) fun hneeded => ?_, hgrant⟩
      obtain ⟨grown, hsome⟩ := @grownCapacity_isSome (16 * 2 ^ k) needed 32 (hgreatest ▸ hneeded) (by
        have hpow : 0 < 2 ^ k := Nat.two_pow_pos k
        unfold greatestCapacity at hneeded
        omega)
      exact absurd (hgrown.symm.trans hsome) (by simp)
  | some capacity =>
      have hneeded : needed ≤ greatestCapacity :=
        (le_of_grownCapacity hgrown).trans (doubled_of_grownCapacity hk hgrown).le
      obtain ⟨hfirst, hsecond⟩ := hgrant.allocate
      rw [hgrown] at h
      cases hask : env.allocate with
      | mk granted env =>
          rw [hask] at h hfirst hsecond
          cases hfirst
          cases hasBands
          · obtain ⟨rfl, -, rfl⟩ := Prod.mk.inj h |>.imp_right Prod.mk.inj
            exact ⟨iff_of_true rfl hneeded, hsecond⟩
          · obtain ⟨hbands, hrest⟩ := Environment.Granting.allocate hsecond
            cases hagain : env.allocate with
            | mk granted env =>
                simp only [if_true, hagain] at h hbands hrest
                cases hbands
                obtain ⟨rfl, -, rfl⟩ := Prod.mk.inj h |>.imp_right Prod.mk.inj
                exact ⟨iff_of_true rfl hneeded, hrest⟩

theorem Roomy.grown (h : overview.Roomy) {needed : ℕ} {status : Status}
    (hgrow : overview.ensureCapacity hasBands needed env = (status, overview', env')) :
    overview'.Roomy ∧ overview'.columnSet = overview.columnSet := by
  have hdoubled := ensureCapacity_doubled h.doubled hgrow
  by_cases hfits : needed ≤ overview.capacity
  · rw [ensureCapacity, if_pos hfits] at hgrow
    obtain ⟨-, rfl, -⟩ := Prod.mk.inj hgrow |>.imp_right Prod.mk.inj
    exact ⟨h, rfl⟩
  obtain ⟨rfl, capacity, rfl⟩ | ⟨-, -, rfl⟩ := ensureCapacity_cases hgrow
  · have henough := (ensureCapacity_ok rfl hgrow).2
    exact ⟨⟨h.sorted, hdoubled, h.fits.trans ((not_le.mp hfits).le.trans henough)⟩, rfl⟩
  · exact ⟨h, rfl⟩

/-! ## Finding a column -/

/-- A column that was found is one more column of the store. -/
theorem Roomy.found (h : overview.Roomy) {columnIndex position : ℕ}
    (hfind : overview.findOrInsert hasBands columnIndex env = (.ok position, overview', env')) :
    overview'.Roomy ∧ overview'.columnSet = insert columnIndex overview.columnSet := by
  obtain ⟨hsorted, -, hcolumn, -⟩ := findOrInsert_ok h.sorted hfind
  refine ⟨⟨hsorted, findOrInsert_doubled h.doubled hfind, ?_⟩, ?_⟩
  · unfold findOrInsert at hfind
    simp only at hfind
    split_ifs at hfind with hfound
    · obtain ⟨-, rfl, -⟩ := Prod.mk.inj hfind |>.imp_right Prod.mk.inj
      exact h.fits
    · split at hfind
      · next grown fenv hgrow =>
          obtain ⟨-, rfl, -⟩ := Prod.mk.inj hfind |>.imp_right Prod.mk.inj
          obtain ⟨hsame, henough⟩ := ensureCapacity_ok rfl hgrow
          refine le_trans ?_ henough
          rw [← hsame]
          exact List.length_insertIdx_le_succ
      · cases (Prod.mk.inj hfind).1
  · ext k
    rw [mem_columnSet, hcolumn, Finset.mem_insert, mem_columnSet]
    split_ifs with hk
    · exact iff_of_true ⟨_, rfl⟩ (.inl hk.symm)
    · rw [or_iff_right (Ne.symm hk)]

theorem Roomy.addSampleAt (h : overview.Roomy) {columnIndex position : ℕ} (sample : ℚ)
    (hfind : overview.findOrInsert hasBands columnIndex env = (.ok position, overview', env')) :
    (overview'.addSampleAt hasBands position sample).Roomy ∧
      (overview'.addSampleAt hasBands position sample).columnSet =
        insert columnIndex overview.columnSet := by
  obtain ⟨hfound, hcolumns⟩ := h.found hfind
  have hget := (findOrInsert_ok h.sorted hfind).2.1
  have hkeys := columnIndex_addSampleAt hasBands overview' position sample
  refine ⟨⟨(addSampleAt_spec hasBands hfound.sorted sample hget).1, ?_, ?_⟩,
    (columnSet_eq hkeys).trans hcolumns⟩
  · cases hasBands <;> exact hfound.doubled
  · have hlength := congrArg List.length hkeys
    rw [List.length_map, List.length_map] at hlength
    rw [hlength]
    cases hasBands <;> exact hfound.fits

end Overview

/-! ## Feeding a chunk -/

section Loop

variable {ctx : ProcessContext} {frameLimit stepLimit fuel : ℕ} {state state' : ChunkState}
  {status : Status}

end Loop

end LibApta
