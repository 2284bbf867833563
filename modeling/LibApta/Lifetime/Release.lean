import LibApta.Lifetime.Preservation

/-!
# When storage is released

What the invariant says to the callers of a context: what is released and when, what the counters
of the context are, and what a publication reports.
-/

namespace LibApta.Lifetime

open References

namespace State

variable {s : State}

/-- No operation is in progress: nothing is being published or released, and no session is being
destroyed. -/
structure Quiet (s : State) : Prop where
  published : ∀ session result, .publication session result ∉ s.results.owners
  released : ∀ result, .releasing result ∉ s.results.owners
  results : ∀ c ∈ s.results.cells, c.dying = false
  poolsReleased : ∀ pool, .releasing pool ∉ s.pools.owners
  pools : ∀ q ∈ s.pools.cells, q.dying = false
  sessions : ∀ x ∈ s.sessions, x.stage = .attached

/-- A result is the current one of a session, or a caller has acquired it. -/
def InUse (s : State) (result : ℕ) : Prop :=
  (∃ x ∈ s.sessions, .current x.id result ∈ s.results.owners) ∨
    .acquisition result ∈ s.results.owners

/-- Without an operation in progress every result is in use. -/
theorem Sound.inUse (h : Sound s) (hquiet : s.Quiet) {c : Cell ResultData}
    (hc : c ∈ s.results.cells) : s.InUse c.id := by
  obtain ⟨owner, howner, hresult⟩ := h.results.exists_owner hc (hquiet.results c hc)
  cases owner with
  | current session result =>
      obtain rfl : result = c.id := hresult
      obtain ⟨x, hx, rfl, -⟩ := h.current_mem howner
      exact .inl ⟨x, hx, howner⟩
  | publication session result => exact absurd howner (hquiet.published session result)
  | acquisition result =>
      obtain rfl : result = c.id := hresult
      exact .inr howner
  | releasing result => exact absurd howner (hquiet.released result)

/-- Without an operation in progress every result is on `result_count`. -/
theorem Sound.resultCount_eq (h : Sound s) (hquiet : s.Quiet) :
    s.resultCount = s.results.cells.length := by
  rw [h.resultCount, List.countP_eq_length]
  intro c hc
  unfold onCount
  cases hstage : c.data.stage with
  | building =>
      obtain ⟨-, session, howner⟩ := h.building c hc hstage
      exact absurd howner (hquiet.published session c.id)
  | counted => rfl
  | uncounted =>
      have hdying := h.uncounted c hc hstage
      rw [hquiet.results c hc] at hdying
      cases hdying

/-- What is freed is not in use under any name. -/
theorem Sound.not_mem_freed (h : Sound s) {name : ℕ}
    (hname : name ∈ s.sessions.map Session.id ∨ name ∈ s.results.cells.map Cell.id ∨
      name ∈ s.pools.cells.map Cell.id) : name ∉ s.freed := by
  intro hfreed
  have hnodup := h.nodup_names
  unfold allNames names at hnodup
  obtain ⟨-, hrest, hsessions⟩ := List.nodup_append.mp hnodup
  obtain ⟨-, hrest, hresults⟩ := List.nodup_append.mp hrest
  obtain ⟨-, -, hpools⟩ := List.nodup_append.mp hrest
  rcases hname with hname | hname | hname
  · exact hsessions name hname name
      (List.mem_append_right _ (List.mem_append_right _ hfreed)) rfl
  · exact hresults name hname name (List.mem_append_right _ hfreed) rfl
  · exact hpools name hname name hfreed rfl

theorem Sound.owner_not_freed (h : Sound s) {owner : ResultOwner}
    (howner : owner ∈ s.results.owners) : owner.result ∉ s.freed := by
  obtain ⟨c, hc, hid⟩ := h.results.owned owner howner
  exact h.not_mem_freed (.inr (.inl (hid ▸ List.mem_map_of_mem hc)))

/-- A result is about to be released exactly when nothing refers to it. -/
theorem Sound.dying_iff (h : Sound s) {c : Cell ResultData} (hc : c ∈ s.results.cells) :
    c.dying = true ↔ ∀ owner ∈ s.results.owners, owner.result ≠ c.id := by
  rw [h.results.dying_iff c hc, Table.references, List.countP_eq_zero]
  simp only [decide_eq_true_iff]

/-- The slots of a pool that are active are those with a result. -/
theorem Sound.slot_active (h : Sound s) {q : Cell PoolData} (hq : q ∈ s.pools.cells) (index : ℕ) :
    q.data.active[index]? = some true ↔
      ∃ c ∈ s.results.cells, c.data.storage = .slot q.id index := by
  have hcount := h.pooled.slots q hq index
  constructor
  · intro hactive
    rw [if_pos hactive] at hcount
    have hpos : 0 < (s.results.cells.map Cell.data).countP (ResultData.inSlot q.id index) := by omega
    obtain ⟨d, hd, hslot⟩ := List.countP_pos_iff.mp hpos
    obtain ⟨c, hc, rfl⟩ := List.mem_map.mp hd
    exact ⟨c, hc, of_decide_eq_true hslot⟩
  · rintro ⟨c, hc, hstorage⟩
    by_contra hne
    rw [if_neg hne, List.countP_eq_zero] at hcount
    exact hcount c.data (List.mem_map_of_mem hc) (by simp [ResultData.inSlot, hstorage])

/-- A slot that is claimed has no result. -/
theorem Sound.claimed_empty (h : Sound s) {q : Cell PoolData} (hq : q ∈ s.pools.cells) {index : ℕ}
    {active : List Bool} (hslot : claimSlot q.data.active = some (index, active)) :
    ∀ c ∈ s.results.cells, c.data.storage ≠ .slot q.id index := by
  intro c hc hstorage
  have hactive := (h.slot_active hq index).mpr ⟨c, hc, hstorage⟩
  rw [(claimSlot_some hslot).1] at hactive
  cases hactive

/-- There is no slot to claim exactly when there is a result in every slot. -/
theorem Sound.exhausted_iff (h : Sound s) {q : Cell PoolData} (hq : q ∈ s.pools.cells) :
    claimSlot q.data.active = none ↔
      ∀ index < slotCount, ∃ c ∈ s.results.cells, c.data.storage = .slot q.id index := by
  rw [claimSlot_eq_none_iff, ← h.pooled.full q hq]
  constructor
  · intro hall index hlt
    rw [← h.slot_active hq, List.getElem?_eq_getElem hlt, hall _ (List.getElem_mem hlt)]
  · intro hall flag hflag
    obtain ⟨index, hlt, rfl⟩ := List.mem_iff_getElem.mp hflag
    have hactive := (h.slot_active hq index).mpr (hall index hlt)
    rwa [List.getElem?_eq_getElem hlt, Option.some_inj] at hactive

/-- What a publication with a pool reports in place of a result. -/
theorem publishStatus_eq_exhausted_iff {x : Session} {pool : PoolData} :
    publishStatus x pool = some (.error .resultSlotsExhausted) ↔
      x.generation ≠ uint64Max ∧ claimSlot pool.active = none := by
  unfold publishStatus
  split_ifs with hlast hslot
  · simp [hlast]
  · simp [hlast, hslot]
  · simp [hslot]

/-- A pool that is gone has no session and no result. -/
theorem Sound.pool_freed (h : Sound s) {pool : ℕ} (hfreed : pool ∈ s.freed) :
    (∀ x ∈ s.sessions, x.pool ≠ some pool) ∧
      ∀ c ∈ s.results.cells, c.data.storage.pool ≠ some pool := by
  have hgone : ∀ q ∈ s.pools.cells, q.id ≠ pool := by
    rintro q hq rfl
    exact h.not_mem_freed (.inr (.inr (List.mem_map_of_mem hq))) hfreed
  refine ⟨fun x hx hpool => ?_, fun c hc hpool => ?_⟩
  · have hmember : (x.id, some pool) ∈ s.members := List.mem_map.mpr ⟨x, hx, by rw [hpool]⟩
    obtain ⟨q, hq, hid⟩ := h.pooled.table.owned _ (h.pooled.session_mem hmember)
    exact hgone q hq hid
  · obtain ⟨q, hq, hid⟩ := h.pooled.placed c.data (List.mem_map_of_mem hc) pool hpool
    exact hgone q hq hid

/-- Without an operation in progress a pool has its session, or a result. -/
theorem Sound.pool_inUse (h : Sound s) (hquiet : s.Quiet) {q : Cell PoolData}
    (hq : q ∈ s.pools.cells) :
    (∃ x ∈ s.sessions, x.pool = some q.id) ∨
      ∃ c ∈ s.results.cells, c.data.storage.pool = some q.id := by
  obtain ⟨owner, howner, hpool⟩ := h.pooled.table.exists_owner hq (hquiet.pools q hq)
  have hpos := List.count_pos_iff.mpr howner
  cases owner with
  | session session pool =>
      obtain rfl : pool = q.id := hpool
      rw [h.pooled.sessionOwners, List.count_pos_iff] at hpos
      obtain ⟨x, hx, heq⟩ := List.mem_map.mp hpos
      exact .inl ⟨x, hx, (Prod.mk.inj heq).2⟩
  | slot pool index =>
      obtain rfl : pool = q.id := hpool
      rw [h.pooled.slotOwners] at hpos
      obtain ⟨d, hd, hslot⟩ := List.countP_pos_iff.mp hpos
      obtain ⟨c, hc, rfl⟩ := List.mem_map.mp hd
      simp only [ResultData.holdsSlot, Bool.and_eq_true, decide_eq_true_iff] at hslot
      exact .inr ⟨c, hc, by rw [hslot.1]; rfl⟩
  | releasing pool => exact absurd howner (hquiet.poolsReleased pool)

/-- The lifetime of results, pools and sessions under every interleaving in which no counter
overflows. Whatever was created is in use or was released once, and never both. What an owner refers
to is not released, and a result is about to be released exactly when nothing refers to it; without
an operation in progress every result there is is current or acquired, and `result_count` counts
them. A slot that is claimed has no result, and below the last generation a publication reports
exhaustion exactly when there is a result in every slot. A pool is released when its session and its
results are gone and not before, and a context is destroyed when nothing of it is left. -/
theorem result_lifetime (h : Reachable Fits s) :
    s.allNames.Perm (List.range s.next) ∧
      (∀ owner ∈ s.results.owners, owner.result ∉ s.freed) ∧
      (∀ c ∈ s.results.cells,
        c.dying = true ↔ ∀ owner ∈ s.results.owners, owner.result ≠ c.id) ∧
      s.resultCount = (s.results.cells.countP fun c => c.data.stage = .counted) ∧
      (s.Quiet → (∀ c ∈ s.results.cells, s.InUse c.id) ∧
        s.resultCount = s.results.cells.length) ∧
      (∀ q ∈ s.pools.cells,
        (∀ index active, claimSlot q.data.active = some (index, active) →
          ∀ c ∈ s.results.cells, c.data.storage ≠ .slot q.id index) ∧
        ∀ x : Session, (x.generation = uint64Max →
            publishStatus x q.data = some (.error .limitExceeded)) ∧
          (x.generation ≠ uint64Max →
            (publishStatus x q.data = some (.error .resultSlotsExhausted) ↔
              ∀ index < slotCount, ∃ c ∈ s.results.cells, c.data.storage = .slot q.id index))) ∧
      (∀ pool ∈ s.freed, (∀ x ∈ s.sessions, x.pool ≠ some pool) ∧
        ∀ c ∈ s.results.cells, c.data.storage.pool ≠ some pool) ∧
      (s.Quiet → ∀ q ∈ s.pools.cells, (∃ x ∈ s.sessions, x.pool = some q.id) ∨
        ∃ c ∈ s.results.cells, c.data.storage.pool = some q.id) ∧
      (s.contextDestroyed = true →
        s.sessionCount = 0 ∧ s.results.cells = [] ∧ s.pools.cells = []) := by
  obtain ⟨hsound, -⟩ := h.sound
  refine ⟨hsound.named, fun owner howner => hsound.owner_not_freed howner,
    fun c hc => hsound.dying_iff hc, hsound.resultCount,
    fun hquiet => ⟨fun c hc => hsound.inUse hquiet hc, hsound.resultCount_eq hquiet⟩,
    fun q hq => ⟨fun index active hslot => hsound.claimed_empty hq hslot, fun x => ⟨fun hlast => ?_,
      fun hne => ?_⟩⟩,
    fun pool hfreed => hsound.pool_freed hfreed, fun hquiet q hq => hsound.pool_inUse hquiet hq,
    hsound.destroyed⟩
  · exact if_pos hlast
  · rw [publishStatus_eq_exhausted_iff, hsound.exhausted_iff hq]
    exact and_iff_right hne

/-! ## A pool with both slots in use -/

/-- A session with a pool whose first result a caller has, and whose second result is current. -/
def bothSlots : State where
  contextDestroyed := false
  sessionCount := 1
  resultCount := 2
  sessions := [⟨0, some 1, false, 2, .attached⟩]
  results := ⟨[⟨2, 1, false, ⟨.slot 1 0, .counted⟩⟩, ⟨3, 1, false, ⟨.slot 1 1, .counted⟩⟩],
    [.current 0 3, .acquisition 2]⟩
  pools := ⟨[⟨1, 3, false, ⟨[true, true]⟩⟩], [.slot 1 1, .slot 1 0, .session 0 1]⟩
  next := 4
  freed := []

/-- Few owners and cells overflow no counter. -/
theorem fits_of_length (hresults : s.results.owners.length < counterValues)
    (hpools : s.pools.owners.length < counterValues) (hsessions : s.sessions.length < counterValues)
    (hcells : s.results.cells.length < counterValues) : s.Fits :=
  ⟨fun _ => List.countP_le_length.trans_lt hresults,
    fun _ => List.countP_le_length.trans_lt hpools, hsessions, hcells⟩

theorem reachable_bothSlots : Reachable Fits bothSlots := by
  have hcreate : Reachable Fits initial.createPooledSession :=
    Reachable.initial.step (.createPooled rfl)
      (fits_of_length (by decide) (by decide) (by decide) (by decide))
  have hacquire := hcreate.step
    (@Step.acquire _ 0 ⟨2, 1, false, ⟨.slot 1 0, .counted⟩⟩ (by decide) (by decide))
    (fits_of_length (by decide) (by decide) (by decide) (by decide))
  have hidle : ∀ result, ResultOwner.publication 0 result ∉
      [ResultOwner.acquisition 2, .current 0 2] := by simp
  have hclaim := hacquire.step
    (@Step.claim _ ⟨0, some 1, false, 1, .attached⟩ ⟨1, 2, false, ⟨[true, false]⟩⟩ 1 [true, true]
      (by decide) ⟨rfl, hidle⟩ (by decide) rfl (by decide) rfl)
    (fits_of_length (by decide) (by decide) (by decide) (by decide))
  have hcount := hclaim.step
    (@Step.countSlot _ 0 1 ⟨3, 1, false, ⟨.slot 1 1, .building⟩⟩ ⟨1, 2, false, ⟨[true, true]⟩⟩
      (by decide) (by decide) (by decide) rfl)
    (fits_of_length (by decide) (by decide) (by decide) (by decide))
  have hinstall := hcount.step
    (@Step.install _ ⟨0, some 1, false, 1, .attached⟩ ⟨3, 1, false, ⟨.slot 1 1, .counted⟩⟩ 2
      (by decide) (by decide) (by decide) rfl (by decide))
    (fits_of_length (by decide) (by decide) (by decide) (by decide))
  exact hinstall.step
    (@Step.release _ (.releasing 2) ⟨2, 2, false, ⟨.slot 1 0, .counted⟩⟩ (by decide) trivial
      (by decide) rfl)
    (fits_of_length (by decide) (by decide) (by decide) (by decide))

/-- With both slots in use there is no slot for another result, and nothing is released. -/
theorem result_lifetime_bothSlots :
    bothSlots.resultCount = bothSlots.results.cells.length ∧
      publishStatus ⟨0, some 1, false, 2, .attached⟩ ⟨[true, true]⟩ =
        some (.error .resultSlotsExhausted) := by
  obtain ⟨-, -, -, -, hquiet, hslots, -⟩ := result_lifetime reachable_bothSlots
  refine ⟨(hquiet ⟨by simp [bothSlots], by simp [bothSlots], by simp [bothSlots],
    by simp [bothSlots], by simp [bothSlots], by simp [bothSlots]⟩).2, ?_⟩
  have hpool : (⟨1, 3, false, ⟨[true, true]⟩⟩ : Cell PoolData) ∈ bothSlots.pools.cells := by decide
  apply (((hslots _ hpool).2 ⟨0, some 1, false, 2, .attached⟩).2 (by decide)).mpr
  decide

/-! ## Counters that overflow -/

/-- A session on the heap whose result was acquired `count` times. -/
def acquired (count : ℕ) : State where
  contextDestroyed := false
  sessionCount := 1
  resultCount := 1
  sessions := [⟨0, none, true, 1, .attached⟩]
  results := ⟨[⟨1, (count + 1) % counterValues, false, ⟨.heap, .counted⟩⟩],
    List.replicate count (.acquisition 1) ++ [.current 0 1]⟩
  pools := ⟨[], []⟩
  next := 2
  freed := []

theorem reachable_acquired (count : ℕ) : Reachable (fun _ => True) (acquired count) := by
  induction count with
  | zero => exact Reachable.initial.step (.create true rfl) trivial
  | succ count ih =>
      have hstep := @Step.acquire (acquired count) 0
        ⟨1, (count + 1) % counterValues, false, ⟨.heap, .counted⟩⟩
        (List.mem_append_right _ List.mem_cons_self) List.mem_cons_self
      have heq : (acquired count).acquireResult
          ⟨1, (count + 1) % counterValues, false, ⟨.heap, .counted⟩⟩ = acquired (count + 1) := by
        simp only [acquireResult, acquired, Table.share, exchange, List.erase_cons_head,
          increment_mod (show 0 < counterValues by decide), List.replicate_succ, List.cons_append]
      rw [heq] at hstep
      exact ih.step hstep trivial

/-- A result that is acquired as often as its counter has values and released once: it is freed,
while its session and all callers but one still refer to it. -/
theorem acquisitions_overflow :
    ∃ s : State, Reachable (fun _ => True) s ∧ 1 ∈ s.freed ∧
      .current 0 1 ∈ s.results.owners ∧ .acquisition 1 ∈ s.results.owners := by
  have hacquired := reachable_acquired counterValues
  have hone : (counterValues + 1) % counterValues = 1 := by
    rw [Nat.add_mod_left]
    exact Nat.mod_eq_of_lt (by decide)
  obtain ⟨n, hn⟩ : ∃ n, counterValues = n + 1 + 1 := ⟨4294967294, rfl⟩
  have howners : (acquired counterValues).results.owners =
      .acquisition 1 :: .acquisition 1 :: (List.replicate n (.acquisition 1) ++ [.current 0 1]) := by
    simp only [acquired]
    rw [hn, List.replicate_succ, List.replicate_succ, List.cons_append, List.cons_append]
  have hrelease := hacquired.step
    (@Step.release _ (.acquisition 1) ⟨1, 1, false, ⟨.heap, .counted⟩⟩
      (howners ▸ List.mem_cons_self) trivial (by simp [acquired, hone]) rfl) trivial
  have huncount := hrelease.step
    (@Step.uncount _ ⟨1, 0, true, ⟨.heap, .counted⟩⟩ (mem_exchange_self _ _ _) rfl rfl) trivial
  have hfree := huncount.step
    (@Step.free _ ⟨1, 0, true, ⟨.heap, .uncounted⟩⟩ (mem_exchange_self _ _ _) rfl rfl) trivial
  refine ⟨_, hfree, List.mem_cons_self, ?_, ?_⟩
  · simp only [freeResult, uncountResult, releaseResult, Table.remove, Table.store, Table.drop,
      howners, List.erase_cons_head]
    exact List.mem_cons_of_mem _ (List.mem_append_right _ List.mem_cons_self)
  · simp only [freeResult, uncountResult, releaseResult, Table.remove, Table.store, Table.drop,
      howners, List.erase_cons_head]
    exact List.mem_cons_self

end State

end LibApta.Lifetime
