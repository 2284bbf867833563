import LibApta.Memory.ResultPool

/-!
# The arrays of a slot share no byte

The steps of the layout commit no fault, whatever their arguments are, and what they give is aligned
and ordered; so the arrays of a slot follow each other, and the slots do.
-/

namespace LibApta.Memory

open Check

/-! ## Sizes -/

section Sizes

variable {p : Platform} {left right count elementSize value alignment result : ℕ}

/-- Clearing the low bits of a size rounds it down. -/
theorem and_sub_mask (h : alignment.isPowerOfTwo) (hle : alignment ≤ p.sizeMax)
    (hvalue : value ≤ p.sizeMax) :
    value &&& (p.sizeMax - (alignment - 1)) = value / alignment * alignment := by
  obtain ⟨bits, hbits⟩ := p.sizeMax_isPowerOfTwo
  obtain ⟨low, rfl⟩ := h
  have hmask : p.sizeMax - (2 ^ low - 1) = 2 ^ bits - (2 ^ low - 1 + 1) := by omega
  have hpos : 0 < 2 ^ low := Nat.two_pow_pos low
  rw [hmask]
  apply Nat.eq_of_testBit_eq
  intro i
  rw [Nat.testBit_and, Nat.testBit_two_pow_sub_succ (by omega), Nat.testBit_two_pow_sub_one,
    Nat.testBit_mul_two_pow, Nat.testBit_div_two_pow]
  by_cases hi : low ≤ i
  · have hsum : i - low + low = i := by omega
    have hnot : ¬ i < low := by omega
    simp only [hi, hnot, hsum, decide_true, decide_false, Bool.not_false, Bool.and_true,
      Bool.true_and]
    by_cases hbit : i < bits
    · simp [hbit]
    · -- A bit behind those of a size is zero.
      have hlt : value < 2 ^ i := by
        have hpow := Nat.pow_le_pow_right (n := 2) (by omega) (not_lt.mp hbit)
        omega
      simp [Nat.testBit_lt_two_pow hlt]
  · simp [hi, not_le.mp hi]

theorem poolAddSize_eq_ok : poolAddSize p left right = .ok result ↔
    right ≤ p.sizeMax ∧ left + right ≤ p.sizeMax ∧ result = left + right := by
  simp only [poolAddSize, bind_eq_ok, minus_eq_ok, rejectIf_eq_ok, within_eq_ok]
  constructor
  · rintro ⟨_, ⟨hright, rfl⟩, -, -, hsum, rfl⟩
    exact ⟨hright, hsum, rfl⟩
  · rintro ⟨hright, hsum, rfl⟩
    exact ⟨_, ⟨hright, rfl⟩, (), by omega, hsum, rfl⟩

theorem safe_poolAddSize (h : right ≤ p.sizeMax) : Safe (poolAddSize p left right) := by
  unfold poolAddSize
  refine safe_bind (safe_minus.mpr h) fun room hroom => safe_bind (safe_rejectIf _ _) fun _ hfits => ?_
  obtain ⟨-, rfl⟩ := minus_eq_ok.mp hroom
  have hle := rejectIf_eq_ok.mp hfits
  exact safe_within.mpr (by omega)

theorem poolMultiplySize_eq_ok : poolMultiplySize p count elementSize = .ok result ↔
    count * elementSize ≤ p.sizeMax ∧ result = count * elementSize := by
  simp only [poolMultiplySize, bind_eq_ok, rejectIf_eq_ok, within_eq_ok]
  constructor
  · rintro ⟨-, -, h⟩
    exact h
  · rintro ⟨hle, rfl⟩
    refine ⟨(), fun hover => ?_, hle, rfl⟩
    have hpos := Nat.pos_of_ne_zero hover.1
    exact absurd ((Nat.le_div_iff_mul_le hpos).mpr hle) (not_le.mpr hover.2)

theorem safe_poolMultiplySize : Safe (poolMultiplySize p count elementSize) := by
  unfold poolMultiplySize
  refine safe_bind (safe_rejectIf _ _) fun _ hfits => safe_within.mpr ?_
  have hle := rejectIf_eq_ok.mp hfits
  rcases Nat.eq_zero_or_pos elementSize with rfl | hpos
  · exact Nat.zero_le _
  · exact (Nat.le_div_iff_mul_le hpos).mp (not_lt.mp fun hlt => hle ⟨hpos.ne', hlt⟩)

/-- An aligned size is the next multiple of the alignment. -/
theorem poolAlignSize_eq_ok (hle : alignment ≤ p.sizeMax)
    (h : poolAlignSize p value alignment = .ok result) :
    value ≤ result ∧ result ≤ p.sizeMax ∧ alignment ∣ result := by
  simp only [poolAlignSize, bind_eq_ok, minus_eq_ok, rejectIf_eq_ok, within_eq_ok] at h
  obtain ⟨-, hpower, mask, ⟨halign, rfl⟩, _, ⟨hmask, rfl⟩, -, hroom, sum, ⟨hsum, rfl⟩, heq⟩ := h
  rw [Bool.not_eq_false, isPowerOfTwo_iff] at hpower
  obtain rfl := Except.ok.inj heq
  have hpos := Nat.pos_of_isPowerOfTwo hpower
  rw [and_sub_mask hpower hle hsum]
  obtain ⟨hvalue, -, hdvd⟩ := @Platform.roundUp_spec value alignment hpos
  have hsame : value + (alignment - 1) = value + alignment - 1 := by omega
  rw [hsame]
  exact ⟨hvalue, (Nat.div_mul_le_self _ _).trans (hsame ▸ hsum), hdvd⟩

theorem safe_poolAlignSize (hpos : 0 < alignment) (hle : alignment ≤ p.sizeMax) :
    Safe (poolAlignSize p value alignment) := by
  unfold poolAlignSize
  refine safe_bind (safe_rejectIf _ _) fun _ _ => safe_bind (safe_minus.mpr hpos) fun mask hmask => ?_
  obtain ⟨-, rfl⟩ := minus_eq_ok.mp hmask
  refine safe_bind (safe_minus.mpr (by omega)) fun room hroom => ?_
  obtain ⟨-, rfl⟩ := minus_eq_ok.mp hroom
  refine safe_bind (safe_rejectIf _ _) fun _ hfits => safe_bind (safe_within.mpr ?_) fun _ _ => safe_ok _
  have hroom := rejectIf_eq_ok.mp hfits
  omega

end Sizes

theorem Platform.maxAlignment_le (p : Platform) : p.maxAlignment ≤ p.sizeMax := by
  have hfit := p.sizes_fit
  have hblock := p.blockSize_pos
  omega

/-! ## The arrays of a slot -/

section Arrays

variable {p : Platform} {element : ElementType p} {offset count : ℕ}

theorem ElementType.alignment_le_sizeMax (element : ElementType p) :
    element.alignment ≤ p.sizeMax := element.alignment_le.trans p.maxAlignment_le

theorem safe_poolAppendRegion : Safe (poolAppendRegion offset element count) := by
  unfold poolAppendRegion
  have hpos := Nat.pos_of_isPowerOfTwo element.alignment_isPowerOfTwo
  refine safe_bind (safe_poolAlignSize hpos element.alignment_le_sizeMax) fun aligned _ => ?_
  refine safe_bind safe_poolMultiplySize fun bytes hbytes => ?_
  obtain ⟨hle, rfl⟩ := poolMultiplySize_eq_ok.mp hbytes
  exact safe_bind (safe_poolAddSize hle) fun _ _ => safe_ok _

/-- A region that is appended is aligned, stands behind the others and fits. -/
theorem poolAppendRegion_eq_ok {appended : Region × ℕ}
    (h : poolAppendRegion offset element count = .ok appended) :
    offset ≤ appended.1.offset ∧ element.alignment ∣ appended.1.offset ∧
      appended.1.count = count ∧ appended.1.size = element.size ∧ appended.2 = appended.1.past ∧
      appended.2 ≤ p.sizeMax := by
  unfold poolAppendRegion at h
  obtain ⟨aligned, haligned, h⟩ := bind_eq_ok.mp h
  obtain ⟨bytes, hbytes, h⟩ := bind_eq_ok.mp h
  obtain ⟨past, hpast, h⟩ := bind_eq_ok.mp h
  obtain rfl := Except.ok.inj h
  obtain ⟨hle, -, hdvd⟩ := poolAlignSize_eq_ok element.alignment_le_sizeMax haligned
  obtain ⟨-, rfl⟩ := poolMultiplySize_eq_ok.mp hbytes
  obtain ⟨-, hfits, rfl⟩ := poolAddSize_eq_ok.mp hpast
  exact ⟨hle, hdvd, rfl, rfl, rfl, hfits⟩

variable (types : PoolTypes p) (counts : PoolCounts)

/-- The arrays placed so far, and the offset behind them. -/
structure Placed (arrays : List SlotArray) (state : List (SlotArray × Region) × ℕ) : Prop where
  arrays : state.1.map Prod.fst = arrays
  follow : Region.Follow 0 state.2 (state.1.map Prod.snd)
  places : ∀ place ∈ state.1, place.2.count = place.1.count counts ∧
    place.2.size = (place.1.elementType types).size ∧
    (place.1.elementType types).alignment ∣ place.2.offset

variable {types counts} {arrays rest : List SlotArray}
  {state after : List (SlotArray × Region) × ℕ}

theorem Placed.append (h : Placed types counts arrays state) {array : SlotArray}
    (happend : appendArray types counts array state = .ok after) :
    Placed types counts (arrays ++ [array]) after := by
  unfold appendArray at happend
  obtain ⟨appended, hregion, heq⟩ := bind_eq_ok.mp happend
  obtain rfl := Except.ok.inj heq
  obtain ⟨hle, hdvd, hcount, hsize, hpast, -⟩ := poolAppendRegion_eq_ok hregion
  refine ⟨?_, ?_, fun place hmem => ?_⟩
  · rw [List.map_append, h.arrays]
    rfl
  · rw [List.map_append, hpast]
    exact h.follow.concat hle
  · rcases List.mem_append.mp hmem with hmem | hmem
    · exact h.places place hmem
    · obtain rfl := List.mem_singleton.mp hmem
      exact ⟨hcount, hsize, hdvd⟩

theorem Placed.walk {index : ℕ} (h : Placed types counts arrays state)
    (hwalk : Check.walk (fun _ => appendArray types counts) index rest state = .ok after) :
    Placed types counts (arrays ++ rest) after := by
  induction rest generalizing arrays index state with
  | nil =>
      obtain rfl := Except.ok.inj hwalk
      rwa [List.append_nil]
  | cons array rest ih =>
      obtain ⟨next, hnext, hrest⟩ := walk_cons_eq_ok.mp hwalk
      rw [List.append_cons]
      exact ih (h.append hnext) hrest

theorem safe_appendArrays {index : ℕ} :
    Safe (Check.walk (fun _ => appendArray types counts) index rest state) := by
  refine safe_walk (P := fun _ _ => True) rest index state trivial fun _ _ _ _ _ => ?_
  exact ⟨safe_bind safe_poolAppendRegion fun _ _ => safe_ok _, fun _ _ => trivial⟩

end Arrays

/-! ## The slots -/

section Slots

variable {p : Platform} {poolOffset slotBytes first count : ℕ} {slotOffsets result : List ℕ}

theorem safe_appendSlots :
    Safe (loop (appendSlot p poolOffset slotBytes) first count slotOffsets) := by
  refine safe_loop _ _ _ fun index offsets => safe_bind safe_poolMultiplySize fun bytes hbytes => ?_
  obtain ⟨hle, rfl⟩ := poolMultiplySize_eq_ok.mp hbytes
  exact safe_bind (safe_poolAddSize hle) fun _ _ => safe_ok _

theorem appendSlots_eq_ok
    (h : loop (appendSlot p poolOffset slotBytes) first count slotOffsets = .ok result) :
    result = slotOffsets ++
      (List.range' first count).map fun slotIndex => poolOffset + slotIndex * slotBytes := by
  induction count generalizing first slotOffsets with
  | zero =>
      obtain rfl := Except.ok.inj h
      exact (List.append_nil _).symm
  | succ count ih =>
      obtain ⟨next, hnext, hrest⟩ := bind_eq_ok.mp h
      obtain ⟨relative, hrelative, hnext⟩ := bind_eq_ok.mp hnext
      obtain ⟨slotOffset, hslot, hnext⟩ := bind_eq_ok.mp hnext
      obtain rfl := Except.ok.inj hnext
      obtain ⟨-, rfl⟩ := poolMultiplySize_eq_ok.mp hrelative
      obtain ⟨-, -, rfl⟩ := poolAddSize_eq_ok.mp hslot
      rw [ih hrest, List.range'_succ, List.map_cons, List.append_assoc, List.singleton_append]

end Slots

/-! ## The layout -/

theorem safe_poolOverviewColumns {totalFrames framesPerColumn : ℕ}
    (htotal : totalFrames ≤ uint64Max) :
    Safe (poolOverviewColumns totalFrames framesPerColumn) := by
  unfold poolOverviewColumns
  split_ifs with hrest
  · -- A column of one frame leaves no rest, and with two or more the quotient is small.
    refine safe_within.mpr ?_
    have hone : framesPerColumn ≠ 1 := by
      rintro rfl
      exact hrest (Nat.mod_one _)
    rcases Nat.eq_zero_or_pos framesPerColumn with rfl | hpos
    · rw [Nat.div_zero]
      decide
    · have hhalf : totalFrames / framesPerColumn ≤ totalFrames / 2 :=
        Nat.div_le_div_left (by omega) (by decide)
      unfold uint64Max at htotal ⊢
      omega
  · exact safe_ok _

theorem safe_poolCounts {config : Config} {totalFrames framesPerColumn : ℕ}
    (htotal : totalFrames ≤ uint64Max) : Safe (poolCounts config totalFrames framesPerColumn) := by
  unfold poolCounts
  refine safe_bind (safe_poolOverviewColumns htotal) fun overviewColumns _ =>
    safe_bind (safe_rejectIf _ _) fun _ _ => safe_bind (safe_within.mpr ?_) fun _ _ => safe_ok _
  split_ifs <;> decide

section Layout

variable {p : Platform} {types : PoolTypes p} {config : Config} {memoryBudgetBytes : ℕ}
  {layout : ResultPoolLayout}

/-- No sum and no product of the layout leaves its type. -/
theorem safe_calculateLayout (htotal : ∀ total ∈ config.totalFrames, total ≤ uint64Max) :
    Safe (calculateLayout types config memoryBudgetBytes) := by
  unfold calculateLayout
  split
  · exact safe_reject _
  split
  · exact safe_reject _
  · next totalFrames heq =>
      have hmax := p.maxAlignment_le
      refine safe_bind (safe_poolCounts (htotal _ heq)) fun counts _ =>
        safe_bind safe_appendArrays fun arrays _ =>
        safe_bind (safe_poolAlignSize p.maxAlignment_pos hmax) fun slotBytes _ =>
        safe_bind (safe_poolAlignSize p.maxAlignment_pos hmax) fun poolOffset _ =>
        safe_bind safe_poolMultiplySize fun slotsBytes hbytes => ?_
      obtain ⟨hle, rfl⟩ := poolMultiplySize_eq_ok.mp hbytes
      exact safe_bind (safe_poolAddSize hle) fun totalBytes _ =>
        safe_bind safe_appendSlots fun slotOffsets _ =>
        safe_bind (safe_rejectIf _ _) fun _ _ => safe_ok _

/-- The arrays of a slot share no byte and lie in the slot, the slots share no byte and lie in the
pool behind its control record, and every element is aligned where the pool is. -/
structure ResultPoolLayout.Sound (types : PoolTypes p) (layout : ResultPoolLayout) : Prop where
  arrays : layout.regions.map Prod.fst = SlotArray.all
  capacities : ∀ place ∈ layout.regions, place.2.count = layout.capacity place.1 ∧
    place.2.size = (place.1.elementType types).size
  disjoint : (layout.regions.map Prod.snd).Pairwise
    fun region other => Disjoint region.bytes other.bytes
  inside : ∀ place ∈ layout.regions, place.2.past ≤ layout.slotBytes
  aligned : ∀ base, p.maxAlignment ∣ base → ∀ slotOffset ∈ layout.slotOffsets,
    ∀ place ∈ layout.regions, ∀ index,
      (place.1.elementType types).alignment ∣ base + slotOffset + (place.2.element index).offset
  slotCount : layout.slotOffsets.length = resultSlotCount
  slotsDisjoint : layout.slots.Pairwise fun slot other => Disjoint slot.bytes other.bytes
  slotsInside : ∀ slot ∈ layout.slots, types.controlSize ≤ slot.offset ∧
    slot.past ≤ layout.totalBytes
  fits : layout.totalBytes ≤ p.sizeMax

theorem calculateLayout_sound (h : calculateLayout types config memoryBudgetBytes = .ok layout) :
    layout.Sound types := by
  unfold calculateLayout at h
  split at h
  · cases h
  split at h
  · cases h
  obtain ⟨counts, -, h⟩ := bind_eq_ok.mp h
  obtain ⟨⟨regions, slotOffset⟩, harrays, h⟩ := bind_eq_ok.mp h
  obtain ⟨slotBytes, hslot, h⟩ := bind_eq_ok.mp h
  obtain ⟨poolOffset, hpool, h⟩ := bind_eq_ok.mp h
  obtain ⟨slotsBytes, hslots, h⟩ := bind_eq_ok.mp h
  obtain ⟨totalBytes, htotal, h⟩ := bind_eq_ok.mp h
  obtain ⟨slotOffsets, hoffsets, h⟩ := bind_eq_ok.mp h
  obtain ⟨-, -, h⟩ := bind_eq_ok.mp h
  obtain rfl := Except.ok.inj h
  have hplaced : Placed types counts ([] ++ SlotArray.all) (regions, slotOffset) := by
    refine Placed.walk ⟨rfl, ?_, fun place hmem => ?_⟩ harrays
    · exact le_rfl
    · cases hmem
  obtain ⟨hslotLe, -, hslotDvd⟩ := poolAlignSize_eq_ok p.maxAlignment_le hslot
  obtain ⟨hpoolLe, -, hpoolDvd⟩ := poolAlignSize_eq_ok p.maxAlignment_le hpool
  obtain ⟨-, rfl⟩ := poolMultiplySize_eq_ok.mp hslots
  obtain ⟨-, hfits, rfl⟩ := poolAddSize_eq_ok.mp htotal
  obtain rfl : slotOffsets = [poolOffset + 0 * slotBytes, poolOffset + 1 * slotBytes] :=
    appendSlots_eq_ok hoffsets
  have hfollow : Region.Follow poolOffset (poolOffset + 2 * slotBytes)
      [⟨poolOffset + 0 * slotBytes, 1, slotBytes⟩, ⟨poolOffset + 1 * slotBytes, 1, slotBytes⟩] := by
    simp only [Region.Follow, Region.past]
    omega
  refine ⟨hplaced.arrays, fun place hmem => ?_, hplaced.follow.disjoint, fun place hmem => ?_, ?_,
    rfl, hfollow.disjoint, fun slot hmem => ?_, hfits⟩
  · obtain ⟨hcount, hsize, -⟩ := hplaced.places place hmem
    exact ⟨hcount, hsize⟩
  · exact (hplaced.follow.mem (List.mem_map_of_mem hmem)).2.trans hslotLe
  · intro base hbase offset hoffset place hmem index
    obtain ⟨-, hsize, hdvd⟩ := hplaced.places place hmem
    have helement : (place.1.elementType types).alignment ∣ p.maxAlignment :=
      dvd_of_isPowerOfTwo (ElementType.alignment_isPowerOfTwo _) p.maxAlignment_isPowerOfTwo
        (ElementType.alignment_le _)
    have hoffset : p.maxAlignment ∣ offset := by
      rcases List.mem_pair.mp hoffset with rfl | rfl
      · exact hpoolDvd.add (hslotDvd.mul_left 0)
      · exact hpoolDvd.add (hslotDvd.mul_left 1)
    refine (helement.trans (hbase.add hoffset)).add (Region.dvd_element hdvd ?_ index)
    rw [hsize]
    exact ElementType.alignment_dvd_size _
  · obtain ⟨hstart, hpast⟩ := hfollow.mem hmem
    exact ⟨hpoolLe.trans hstart, hpast⟩

namespace ResultPoolLayout

/-- Every array of a sound layout has its region. -/
theorem Sound.lookup (h : layout.Sound types) (array : SlotArray) :
    ∃ region, layout.regions.lookup array = some region ∧
      region.count = layout.capacity array ∧ region.past ≤ layout.slotBytes := by
  have hall : array ∈ layout.regions.map Prod.fst := by
    rw [h.arrays]
    cases array <;> decide
  have hsome : (layout.regions.lookup array).isSome := by
    obtain ⟨place, hmem, rfl⟩ := List.mem_map.mp hall
    exact List.lookup_isSome_iff.mpr ⟨place, hmem, beq_self_eq_true _⟩
  obtain ⟨region, hregion⟩ := Option.isSome_iff_exists.mp hsome
  obtain ⟨before, after, hsplit, -⟩ := List.lookup_eq_some_iff.mp hregion
  have hmem : (array, region) ∈ layout.regions := by
    rw [hsplit]
    exact List.mem_append_right _ List.mem_cons_self
  exact ⟨region, hregion, (h.capacities _ hmem).1, h.inside _ hmem⟩

theorem Sound.slotBytes_le (h : layout.Sound types) : layout.slotBytes ≤ p.sizeMax := by
  cases hslots : layout.slotOffsets with
  | nil =>
      have hcount := h.slotCount
      rw [hslots] at hcount
      cases hcount
  | cons slotOffset rest =>
      have hslot := h.slotsInside ⟨slotOffset, 1, layout.slotBytes⟩ (by
        rw [slots, hslots]
        exact List.mem_cons_self)
      have hfits := h.fits
      simp only [Region.past] at hslot
      omega

end ResultPoolLayout

/-- The state of a global grid has room where its coverage has. -/
theorem calculateLayout_globalGridState
    (h : calculateLayout types config memoryBudgetBytes = .ok layout) :
    layout.capacity .globalGridState = layout.capacity .globalGridCoverage := by
  unfold calculateLayout at h
  split at h
  · cases h
  split at h
  · cases h
  obtain ⟨counts, hcounts, h⟩ := bind_eq_ok.mp h
  obtain ⟨_, -, h⟩ := bind_eq_ok.mp h
  obtain ⟨_, -, h⟩ := bind_eq_ok.mp h
  obtain ⟨_, -, h⟩ := bind_eq_ok.mp h
  obtain ⟨_, -, h⟩ := bind_eq_ok.mp h
  obtain ⟨_, -, h⟩ := bind_eq_ok.mp h
  obtain ⟨_, -, h⟩ := bind_eq_ok.mp h
  obtain ⟨-, -, h⟩ := bind_eq_ok.mp h
  obtain rfl := Except.ok.inj h
  unfold poolCounts at hcounts
  obtain ⟨_, -, hcounts⟩ := bind_eq_ok.mp hcounts
  obtain ⟨-, -, hcounts⟩ := bind_eq_ok.mp hcounts
  obtain ⟨_, -, hcounts⟩ := bind_eq_ok.mp hcounts
  obtain rfl := Except.ok.inj hcounts
  rfl

end Layout

end LibApta.Memory
