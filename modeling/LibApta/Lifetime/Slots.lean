import LibApta.Lifetime.Steps

/-!
# Slots and pools

A slot is active exactly when a result is in it. A pool is held once by its session and once by each
result in its slots that is past its claim, so its storage is released only when its session and all
its results are gone.
-/

namespace LibApta.Lifetime

open References

/-! ## The flags of a pool -/

/-- The slot that is claimed was not active. -/
theorem claimSlot_some {active active' : List Bool} {index : ℕ}
    (h : claimSlot active = some (index, active')) :
    active[index]? = some false ∧ active' = active.set index true := by
  induction active generalizing index active' with
  | nil => cases h
  | cons head rest ih =>
      unfold claimSlot at h
      split_ifs at h with hactive
      · obtain ⟨⟨index, rest'⟩, hrest, heq⟩ := Option.map_eq_some_iff.mp h
        obtain ⟨rfl, rfl⟩ := Prod.mk.inj heq
        obtain ⟨hflag, rfl⟩ := ih hrest
        exact ⟨hflag, rfl⟩
      · obtain ⟨rfl, rfl⟩ := Prod.mk.inj (Option.some.inj h)
        exact ⟨by simpa using hactive, rfl⟩

/-- There is no slot to claim exactly when all are active. -/
theorem claimSlot_eq_none_iff {active : List Bool} :
    claimSlot active = none ↔ ∀ flag ∈ active, flag = true := by
  induction active with
  | nil => simp [claimSlot]
  | cons head rest ih => cases head <;> simp [claimSlot, ih]

/-! ## The invariant -/

/-- A result is in a slot. -/
def ResultData.inSlot (pool index : ℕ) (d : ResultData) : Bool :=
  decide (d.storage = .slot pool index)

/-- A result is in a slot and holds its pool. -/
def ResultData.holdsSlot (pool index : ℕ) (d : ResultData) : Bool :=
  decide (d.storage = .slot pool index) && decide (d.stage ≠ .building)

/-- The pools, for what the results are and where, and for the sessions and their pools. -/
structure Pooled (data : List ResultData) (members : List (ℕ × Option ℕ))
    (pools : Table PoolData PoolOwner) : Prop where
  table : pools.Sound PoolOwner.pool
  full : ∀ q ∈ pools.cells, q.data.active.length = slotCount
  slots : ∀ q ∈ pools.cells, ∀ index, data.countP (ResultData.inSlot q.id index) =
    if q.data.active[index]? = some true then 1 else 0
  placed : ∀ d ∈ data, ∀ pool, d.storage.pool = some pool → ∃ q ∈ pools.cells, q.id = pool
  slotOwners : ∀ pool index, pools.owners.count (.slot pool index) =
    data.countP (ResultData.holdsSlot pool index)
  sessionOwners : ∀ session pool, pools.owners.count (.session session pool) =
    members.count (session, some pool)

variable {data data' : List ResultData} {members members' : List (ℕ × Option ℕ)}
  {pools : Table PoolData PoolOwner} {q : Cell PoolData} {stage stage' : ResultStage}
  {index session : ℕ}

@[simp] theorem inSlot_heap (pool index : ℕ) (stage : ResultStage) :
    ResultData.inSlot pool index ⟨.heap, stage⟩ = false := rfl

@[simp] theorem holdsSlot_heap (pool index : ℕ) (stage : ResultStage) :
    ResultData.holdsSlot pool index ⟨.heap, stage⟩ = false := rfl

@[simp] theorem inSlot_slot (pool index pool' index' : ℕ) (stage : ResultStage) :
    ResultData.inSlot pool index ⟨.slot pool' index', stage⟩ =
      decide (pool' = pool ∧ index' = index) := by
  simp [ResultData.inSlot]

@[simp] theorem holdsSlot_building (pool index : ℕ) (storage : Storage) :
    ResultData.holdsSlot pool index ⟨storage, .building⟩ = false := by
  simp [ResultData.holdsSlot]

theorem holdsSlot_eq (pool index : ℕ) {storage : Storage} (hstage : stage ≠ .building) :
    ResultData.holdsSlot pool index ⟨storage, stage⟩ =
      ResultData.inSlot pool index ⟨storage, stage⟩ := by
  simp [ResultData.holdsSlot, ResultData.inSlot, hstage]

theorem inSlot_stage (pool index : ℕ) (storage : Storage) :
    ResultData.inSlot pool index ⟨storage, stage⟩ =
      ResultData.inSlot pool index ⟨storage, stage'⟩ := rfl

theorem Pooled.of_perm (h : Pooled data members pools) (hdata : data'.Perm data)
    (hmembers : members'.Perm members) : Pooled data' members' pools := by
  refine ⟨h.table, h.full, fun q hq index => ?_, fun d hd => h.placed d (hdata.mem_iff.mp hd),
    fun pool index => ?_, fun session pool => ?_⟩
  · rw [hdata.countP_eq]
    exact h.slots q hq index
  · rw [hdata.countP_eq]
    exact h.slotOwners pool index
  · rw [hmembers.count_eq]
    exact h.sessionOwners session pool

/-- Results on the heap do not matter to the pools. -/
theorem pooled_heap_cons :
    Pooled (⟨.heap, stage⟩ :: data) members pools ↔ Pooled data members pools := by
  constructor
  · intro h
    refine ⟨h.table, h.full, fun q hq index => ?_, fun d hd => h.placed d (List.mem_cons_of_mem _ hd),
      fun pool index => ?_, h.sessionOwners⟩
    · simpa using h.slots q hq index
    · simpa using h.slotOwners pool index
  · intro h
    refine ⟨h.table, h.full, fun q hq index => ?_, ?_, fun pool index => ?_, h.sessionOwners⟩
    · simpa using h.slots q hq index
    · refine List.forall_mem_cons.mpr ⟨fun pool hpool => ?_, h.placed⟩
      cases hpool
    · simpa using h.slotOwners pool index

/-- Sessions without a pool do not matter to the pools. -/
theorem pooled_member_cons :
    Pooled data ((session, none) :: members) pools ↔ Pooled data members pools := by
  constructor
  · intro h
    refine ⟨h.table, h.full, h.slots, h.placed, h.slotOwners, fun session pool => ?_⟩
    simpa using h.sessionOwners session pool
  · intro h
    refine ⟨h.table, h.full, h.slots, h.placed, h.slotOwners, fun session pool => ?_⟩
    simpa using h.sessionOwners session pool

/-- Whether a result that is past its claim is on `result_count` does not matter to the pools. -/
theorem Pooled.restage {storage : Storage} (h : Pooled (⟨storage, stage⟩ :: data) members pools)
    (hstage : stage ≠ .building) (hstage' : stage' ≠ .building) :
    Pooled (⟨storage, stage'⟩ :: data) members pools := by
  have hplaced := List.forall_mem_cons.mp h.placed
  refine ⟨h.table, h.full, fun q hq index => ?_, List.forall_mem_cons.mpr ⟨hplaced.1, hplaced.2⟩,
    fun pool index => ?_, h.sessionOwners⟩
  · rw [← h.slots q hq index, List.countP_cons, List.countP_cons, inSlot_stage]
  · rw [h.slotOwners pool index, List.countP_cons, List.countP_cons, holdsSlot_eq _ _ hstage,
      holdsSlot_eq _ _ hstage', inSlot_stage]

/-- A pool with an owner is not dying. -/
theorem Pooled.not_dying (h : Pooled data members pools) (hq : q ∈ pools.cells) {owner : PoolOwner}
    (howner : owner ∈ pools.owners) (hpool : owner.pool = q.id) : q.dying = false :=
  h.table.not_dying hq howner hpool

theorem Pooled.session_mem (h : Pooled data members pools) {pool : ℕ}
    (hmember : (session, some pool) ∈ members) : .session session pool ∈ pools.owners := by
  rw [← List.count_pos_iff, h.sessionOwners]
  exact List.count_pos_iff.mpr hmember

/-- The flags of a pool whose slot changes. -/
theorem slots_store (h : Pooled data members pools) (hq : q ∈ pools.cells) (flag : Bool)
    (hlt : index < q.data.active.length)
    (hcount : ∀ pool other, data'.countP (ResultData.inSlot pool other) =
      if pool = q.id ∧ other = index then (if flag then 1 else 0)
      else data.countP (ResultData.inSlot pool other)) :
    ∀ q' ∈ (pools.store q ⟨q.data.active.set index flag⟩).cells, ∀ other,
      data'.countP (ResultData.inSlot q'.id other) =
        if q'.data.active[other]? = some true then 1 else 0 := by
  refine List.forall_mem_cons.mpr ⟨fun other => ?_, fun q' hq' other => ?_⟩
  · rw [hcount]
    by_cases hsame : other = index
    · subst hsame
      simp [List.getElem?_set_self hlt]
    · rw [if_neg fun hboth => hsame hboth.2, h.slots q hq other,
        List.getElem?_set_ne fun heq => hsame heq.symm]
  · have hne := key_ne_of_mem_erase h.table.nodup hq hq'
    rw [hcount, if_neg fun hboth => hne hboth.1]
    exact h.slots q' (List.mem_of_mem_erase hq') other

/-- A claimed slot was free, and has the new result. -/
theorem Pooled.claim (h : Pooled data members pools) (hq : q ∈ pools.cells) {active : List Bool}
    (hslot : claimSlot q.data.active = some (index, active)) :
    Pooled (⟨.slot q.id index, .building⟩ :: data) members (pools.store q ⟨active⟩) := by
  obtain ⟨hflag, rfl⟩ := claimSlot_some hslot
  have hlt : index < q.data.active.length := (List.getElem?_eq_some_iff.mp hflag).1
  have hfree : data.countP (ResultData.inSlot q.id index) = 0 := by
    rw [h.slots q hq index, hflag]
    rfl
  refine ⟨h.table.store hq _, ?_, slots_store h hq true hlt fun pool other => ?_, ?_,
    fun pool other => ?_, h.sessionOwners⟩
  · refine List.forall_mem_cons.mpr ⟨?_, fun other hother => h.full other (List.mem_of_mem_erase hother)⟩
    rw [← h.full q hq]
    exact List.length_set
  · rw [List.countP_cons, inSlot_slot]
    by_cases hsame : pool = q.id ∧ other = index
    · obtain ⟨rfl, rfl⟩ := hsame
      simp [hfree]
    · rw [if_neg hsame, if_neg]
      · rfl
      · rw [decide_eq_true_iff]
        exact fun hboth => hsame ⟨hboth.1.symm, hboth.2.symm⟩
  · refine List.forall_mem_cons.mpr ⟨fun pool hpool => ?_, fun d hd pool hpool => ?_⟩
    · exact ⟨_, mem_exchange_self _ _ _, Option.some.inj hpool⟩
    · exact Table.exists_cell_exchange rfl (h.placed d hd pool hpool)
  · rw [List.countP_cons, holdsSlot_building]
    exact h.slotOwners pool other

/-- A result in a slot holds its pool. -/
theorem Pooled.share (h : Pooled (⟨.slot q.id index, .building⟩ :: data) members pools)
    (hq : q ∈ pools.cells) (halive : q.dying = false)
    (hfits : (pools.share counterValues q (.slot q.id index)).Fits counterValues PoolOwner.pool) :
    Pooled (⟨.slot q.id index, .counted⟩ :: data) members
      (pools.share counterValues q (.slot q.id index)) := by
  have hinSlot : ∀ pool other,
      (⟨.slot q.id index, .counted⟩ :: data).countP (ResultData.inSlot pool other) =
        (⟨.slot q.id index, .building⟩ :: data).countP (ResultData.inSlot pool other) :=
    fun pool other => by rw [List.countP_cons, List.countP_cons, inSlot_stage]
  refine ⟨h.table.share hq halive rfl hfits, ?_, ?_, ?_, fun pool other => ?_,
    fun session pool => ?_⟩
  · exact List.forall_mem_cons.mpr
      ⟨h.full q hq, fun other hother => h.full other (List.mem_of_mem_erase hother)⟩
  · refine List.forall_mem_cons.mpr ⟨fun other => ?_, fun other hother place => ?_⟩
    · rw [hinSlot]
      exact h.slots q hq other
    · rw [hinSlot]
      exact h.slots other (List.mem_of_mem_erase hother) place
  · intro d hd pool hpool
    refine Table.exists_cell_exchange rfl ?_
    rcases List.mem_cons.mp hd with rfl | hd
    · exact ⟨q, hq, Option.some.inj hpool⟩
    · exact h.placed d (List.mem_cons_of_mem _ hd) pool hpool
  · have hcount := h.slotOwners pool other
    rw [List.countP_cons, holdsSlot_building] at hcount
    simp only [Table.share, List.count_cons, List.countP_cons, hcount, beq_iff_eq,
      PoolOwner.slot.injEq, holdsSlot_eq _ _ (show ResultStage.counted ≠ .building by decide),
      inSlot_slot, decide_eq_true_iff]
    rfl
  · rw [← h.sessionOwners session pool]
    exact List.count_cons_of_ne (by simp)

/-- A result leaves its slot, and its reference to the pool is left to release. -/
theorem Pooled.freeSlot (h : Pooled (⟨.slot q.id index, stage⟩ :: data) members pools)
    (hstage : stage ≠ .building) (hq : q ∈ pools.cells) :
    Pooled data members ((pools.store q ⟨q.data.active.set index false⟩).pass (.slot q.id index)
      (.releasing q.id)) := by
  have hone := h.slots q hq index
  rw [List.countP_cons, inSlot_slot, if_pos (by simp)] at hone
  have hflag : q.data.active[index]? = some true := by
    by_contra hne
    rw [if_neg hne] at hone
    omega
  rw [if_pos hflag] at hone
  have hlt : index < q.data.active.length := (List.getElem?_eq_some_iff.mp hflag).1
  have howner : PoolOwner.slot q.id index ∈ pools.owners := by
    rw [← List.count_pos_iff, h.slotOwners, List.countP_cons, holdsSlot_eq _ _ hstage, inSlot_slot,
      if_pos (by simp)]
    exact Nat.succ_pos _
  refine ⟨(h.table.store hq _).pass howner rfl, ?_, slots_store h hq false hlt fun pool other => ?_,
    fun d hd pool hpool => ?_, fun pool other => ?_, fun session pool => ?_⟩
  · refine List.forall_mem_cons.mpr ⟨?_, fun other hother => h.full other (List.mem_of_mem_erase hother)⟩
    rw [← h.full q hq]
    exact List.length_set
  · rw [List.countP_cons, inSlot_slot]
    by_cases hsame : pool = q.id ∧ other = index
    · obtain ⟨rfl, rfl⟩ := hsame
      simp only [and_self, if_true, Bool.false_eq_true, if_false]
      omega
    · rw [if_neg hsame, if_neg]
      · rfl
      · rw [decide_eq_true_iff]
        exact fun hboth => hsame ⟨hboth.1.symm, hboth.2.symm⟩
  · exact Table.exists_cell_exchange rfl (h.placed d (List.mem_cons_of_mem _ hd) pool hpool)
  · have hexchange := countP_exchange (b := PoolOwner.releasing q.id)
      (fun owner => owner == .slot pool other) howner
    have hcount := h.slotOwners pool other
    rw [List.countP_cons, holdsSlot_eq _ _ hstage, inSlot_slot] at hcount
    have hreleasing : (PoolOwner.releasing q.id == .slot pool other) = false := rfl
    change (exchange pools.owners _ _).countP _ = _
    change pools.owners.countP _ = _ at hcount
    rw [hreleasing, if_neg Bool.false_ne_true] at hexchange
    by_cases hsame : q.id = pool ∧ index = other
    · obtain ⟨rfl, rfl⟩ := hsame
      rw [if_pos (beq_self_eq_true _)] at hexchange
      rw [if_pos (by simp)] at hcount
      omega
    · rw [if_neg (by simpa using hsame)] at hexchange
      rw [if_neg (by simpa using hsame)] at hcount
      omega
  · rw [← h.sessionOwners session pool]
    exact countP_exchange_of_eq howner rfl

/-- A reference to a pool is released. -/
theorem Pooled.releasePool (h : Pooled data members pools) (hq : q ∈ pools.cells)
    (howner : .releasing q.id ∈ pools.owners) (hfits : pools.Fits counterValues PoolOwner.pool) :
    Pooled data members (pools.drop counterValues q (.releasing q.id)) := by
  refine ⟨h.table.drop hq howner rfl hfits, ?_, ?_, fun d hd pool hpool => ?_, fun pool other => ?_,
    fun session pool => ?_⟩
  · exact List.forall_mem_cons.mpr
      ⟨h.full q hq, fun other hother => h.full other (List.mem_of_mem_erase hother)⟩
  · exact List.forall_mem_cons.mpr
      ⟨h.slots q hq, fun other hother => h.slots other (List.mem_of_mem_erase hother)⟩
  · exact Table.exists_cell_exchange rfl (h.placed d hd pool hpool)
  · rw [← h.slotOwners pool other]
    exact List.count_erase_of_ne (by simp)
  · rw [← h.sessionOwners session pool]
    exact List.count_erase_of_ne (by simp)

/-- The storage of a pool is released. -/
theorem Pooled.freePool (h : Pooled data members pools) (hq : q ∈ pools.cells)
    (hdying : q.dying = true) (hempty : ∀ d ∈ data, d.storage.pool ≠ some q.id) :
    Pooled data members (pools.remove q) := by
  refine ⟨h.table.remove hq hdying, fun other hother => h.full other (List.mem_of_mem_erase hother),
    fun other hother => h.slots other (List.mem_of_mem_erase hother), fun d hd pool hpool => ?_,
    h.slotOwners, h.sessionOwners⟩
  obtain ⟨other, hother, rfl⟩ := h.placed d hd pool hpool
  refine ⟨other, (List.mem_erase_of_ne fun heq => ?_).mpr hother, rfl⟩
  exact hempty d hd (heq ▸ hpool)

/-- A new session with a pool, and its first result in the first slot. -/
theorem Pooled.createPool (h : Pooled data members pools) {pool : ℕ}
    (hfresh : ∀ q ∈ pools.cells, q.id ≠ pool)
    (hfits : Table.Fits counterValues PoolOwner.pool (⟨⟨pool, 2, false,
      ⟨true :: List.replicate (slotCount - 1) false⟩⟩ :: pools.cells,
      .slot pool 0 :: .session session pool :: pools.owners⟩ : Table PoolData PoolOwner)) :
    Pooled (⟨.slot pool 0, .counted⟩ :: data) ((session, some pool) :: members)
      ⟨⟨pool, 2, false, ⟨true :: List.replicate (slotCount - 1) false⟩⟩ :: pools.cells,
        .slot pool 0 :: .session session pool :: pools.owners⟩ := by
  -- The table is that of a new cell, which the first result then shares.
  have hcreate : (pools.create pool ⟨true :: List.replicate (slotCount - 1) false⟩
      (.session session pool)).Sound PoolOwner.pool := h.table.create hfresh rfl
  have hshare := @Table.Sound.share _ _ counterValues _ _ _ (.slot pool 0) _ hcreate
    List.mem_cons_self rfl rfl
  have htwo : increment counterValues 1 = 2 := increment_eq (by decide)
  simp only [Table.create, Table.share, exchange, List.erase_cons_head, htwo] at hshare
  have hnone : ∀ d ∈ data, d.storage.pool ≠ some pool := fun d hd hpool => by
    obtain ⟨q, hq, hid⟩ := h.placed d hd pool hpool
    exact hfresh q hq hid
  have hzero : ∀ other, data.countP (ResultData.inSlot pool other) = 0 := fun other => by
    rw [List.countP_eq_zero]
    intro d hd hslot
    apply hnone d hd
    rw [of_decide_eq_true hslot]
    rfl
  refine ⟨hshare hfits, ?_, ?_, ?_, fun pool' other => ?_, fun session' pool' => ?_⟩
  · exact List.forall_mem_cons.mpr ⟨rfl, h.full⟩
  · refine List.forall_mem_cons.mpr ⟨fun other => ?_, fun q hq other => ?_⟩
    · rw [List.countP_cons, hzero, inSlot_slot]
      cases other with
      | zero => simp
      | succ other =>
          have hflag : (true :: List.replicate (slotCount - 1) false)[other + 1]? ≠ some true := by
            rw [List.getElem?_cons_succ]
            intro heq
            have hmem := List.mem_of_getElem? heq
            simp at hmem
          rw [if_neg hflag]
          simp
    · rw [List.countP_cons, inSlot_slot, if_neg (by simpa using fun heq => absurd heq.symm (hfresh q hq))]
      exact h.slots q hq other
  · refine List.forall_mem_cons.mpr ⟨fun pool' hpool => ?_, fun d hd pool' hpool => ?_⟩
    · exact ⟨_, List.mem_cons_self, Option.some.inj hpool⟩
    · obtain ⟨q, hq, hid⟩ := h.placed d hd pool' hpool
      exact ⟨q, List.mem_cons_of_mem _ hq, hid⟩
  · have hstage : ResultStage.counted ≠ .building := by decide
    rw [List.countP_cons, ← h.slotOwners, holdsSlot_eq _ _ hstage, inSlot_slot, List.count_cons,
      List.count_cons_of_ne (by simp)]
    simp
  · rw [List.count_cons_of_ne (by simp), List.count_cons, List.count_cons, h.sessionOwners]
    simp

/-- A session with a pool is gone. -/
theorem Pooled.closeSession {pool : ℕ} (h : Pooled data ((session, some pool) :: members) pools) :
    Pooled data members (pools.pass (.session session pool) (.releasing pool)) := by
  have howner := h.session_mem List.mem_cons_self
  refine ⟨h.table.pass howner rfl, h.full, h.slots, h.placed, fun pool' other => ?_,
    fun session' pool' => ?_⟩
  · rw [← h.slotOwners pool' other]
    exact countP_exchange_of_eq howner rfl
  · have hexchange := countP_exchange (b := PoolOwner.releasing pool)
      (fun owner => owner == .session session' pool') howner
    have hcount := h.sessionOwners session' pool'
    have hreleasing : (PoolOwner.releasing pool == .session session' pool') = false := rfl
    rw [List.count_cons] at hcount
    change (exchange pools.owners _ _).countP _ = _
    change pools.owners.countP _ = _ at hcount
    rw [hreleasing, if_neg Bool.false_ne_true] at hexchange
    by_cases hsame : session = session' ∧ pool = pool'
    · obtain ⟨rfl, rfl⟩ := hsame
      rw [if_pos (beq_self_eq_true _)] at hexchange hcount
      omega
    · rw [if_neg (by simpa using hsame)] at hexchange
      rw [if_neg (by simpa using hsame)] at hcount
      omega

end LibApta.Lifetime
