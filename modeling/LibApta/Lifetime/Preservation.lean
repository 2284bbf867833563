import LibApta.Lifetime.Invariant

/-!
# Every step keeps the invariant

One lemma for each step. Steps that move references and change neither results nor sessions
otherwise share a frame lemma.
-/

namespace LibApta.Lifetime

open References

namespace State

variable {s s' : State} {c : Cell ResultData} {x : Session} {q : Cell PoolData}
  {owner heir : ResultOwner}

/-! ## References -/

/-- A cell without its counter. -/
def face (c : Cell ResultData) : ℕ × ResultData := (c.id, c.data)

/-- A session without its generation. -/
def status (x : Session) : ℕ × Option ℕ × SessionStage := (x.id, x.pool, x.stage)

/-- A step that changes no more than who refers to which result. -/
theorem Sound.of_references (h : Sound s) (hcells : (s'.results.cells.map face).Perm
      (s.results.cells.map face))
    (hsessions : (s'.sessions.map status).Perm (s.sessions.map status))
    (hrest : s'.pools = s.pools ∧ s'.resultCount = s.resultCount ∧
      s'.sessionCount = s.sessionCount ∧ s'.next = s.next ∧ s'.freed = s.freed ∧
      s'.contextDestroyed = s.contextDestroyed)
    (hresults : s'.results.Sound ResultOwner.result)
    (hcurrent : ∀ id, s'.results.owners.countP (ResultOwner.isCurrent id) =
      s.results.owners.countP (ResultOwner.isCurrent id))
    (hpublication : ∀ id result, .publication id result ∈ s'.results.owners →
      .publication id result ∈ s.results.owners)
    (hbuilding : ∀ c ∈ s'.results.cells, c.data.stage = .building →
      c.count = 1 ∧ ∃ x, .publication x c.id ∈ s'.results.owners)
    (huncounted : ∀ c ∈ s'.results.cells, c.data.stage = .uncounted → c.dying = true) :
    Sound s' := by
  obtain ⟨hpools, hresultCount, hsessionCount, hnext, hfreed, hcontext⟩ := hrest
  have hdata : (s'.results.cells.map Cell.data).Perm (s.results.cells.map Cell.data) := by
    simpa [List.map_map, Function.comp_def, face] using hcells.map Prod.snd
  have hids : (s'.results.cells.map Cell.id).Perm (s.results.cells.map Cell.id) := by
    simpa [List.map_map, Function.comp_def, face] using hcells.map Prod.fst
  have hnames : (s'.sessions.map Session.id).Perm (s.sessions.map Session.id) := by
    simpa [List.map_map, Function.comp_def, status] using hsessions.map Prod.fst
  have hmembers : s'.members.Perm s.members := by
    simpa [members, List.map_map, Function.comp_def, status] using
      hsessions.map fun face => (face.1, face.2.1)
  refine ⟨hresults, hpools ▸ h.pooled.of_perm hdata hmembers, ?_, ?_, ?_, fun id => ?_,
    fun id result howner => ?_, hbuilding, huncounted, fun hdestroyed => ?_⟩
  · unfold allNames
    rw [hpools, hfreed, hnext]
    exact (names_perm hnames hids (List.Perm.refl _)).trans h.named
  · have hcount := hcells.countP_eq fun face => decide (face.2.stage = .counted)
    simp only [List.countP_map] at hcount
    rw [hresultCount, h.resultCount]
    exact hcount.symm
  · have hcount := hsessions.countP_eq fun status => decide (status.2.2 ≠ .uncounted)
    simp only [List.countP_map] at hcount
    rw [hsessionCount, h.sessionCount]
    exact hcount.symm
  · have hcount := hsessions.countP_eq fun status =>
      decide (status.1 = id) && decide (status.2.2 = .attached)
    simp only [List.countP_map] at hcount
    rw [hcurrent, h.current]
    exact hcount.symm
  · obtain ⟨x, hx, hid, hstage, hstorage⟩ := h.publication id result (hpublication id result howner)
    have hface := hsessions.mem_iff.mpr (List.mem_map_of_mem hx)
    obtain ⟨x', hx', heq⟩ := List.mem_map.mp hface
    obtain ⟨hid', hrest⟩ := Prod.mk.inj heq
    obtain ⟨hpool', hstage'⟩ := Prod.mk.inj hrest
    refine ⟨x', hx', hid'.trans hid, hstage'.trans hstage, fun c hc hresult => ?_⟩
    obtain ⟨c', hc', hface'⟩ := List.mem_map.mp (hcells.mem_iff.mp (List.mem_map_of_mem hc))
    obtain ⟨hcid, hcdata⟩ := Prod.mk.inj hface'
    rw [← hcdata, hpool']
    exact hstorage c' hc' (hcid.trans hresult)
  · rw [hcontext] at hdestroyed
    obtain ⟨hzero, hcellsNil, hpoolsNil⟩ := h.destroyed hdestroyed
    rw [hcellsNil] at hcells
    refine ⟨hsessionCount.trans hzero, ?_, hpools ▸ hpoolsNil⟩
    simpa using hcells.eq_nil

theorem Sound.acquireResult (h : Sound s) {id : ℕ} (hc : c ∈ s.results.cells)
    (hcurrent : .current id c.id ∈ s.results.owners) (hfits : (s.acquireResult c).Fits) :
    Sound (s.acquireResult c) := by
  have hstage : c.data.stage ≠ .building := fun hbuilding => by
    obtain ⟨x, heq⟩ := h.owner_of_building hc hbuilding hcurrent rfl
    cases heq
  have halive := h.results.not_dying hc hcurrent rfl
  refine h.of_references (map_exchange_perm hc rfl) (List.Perm.refl _) ⟨rfl, rfl, rfl, rfl, rfl, rfl⟩
    (h.results.share hc halive rfl hfits.1) (fun id => ?_) (fun id result howner => ?_) ?_ ?_
  · exact List.countP_cons_of_neg (by simp [ResultOwner.isCurrent])
  · simpa [State.acquireResult, Table.share] using howner
  · refine List.forall_mem_cons.mpr ⟨fun hbuilding => absurd hbuilding hstage, fun other hother hbuilding => ?_⟩
    obtain ⟨hone, x, howner⟩ := h.building other (List.mem_of_mem_erase hother) hbuilding
    exact ⟨hone, x, List.mem_cons_of_mem _ howner⟩
  · exact List.forall_mem_cons.mpr
      ⟨h.uncounted c hc, fun other hother => h.uncounted other (List.mem_of_mem_erase hother)⟩

theorem Sound.releaseResult (h : Sound s) (hc : c ∈ s.results.cells)
    (howner : owner ∈ s.results.owners) (hrelease : MayRelease owner)
    (hresult : owner.result = c.id) (hfits : s.Fits) : Sound (s.releaseResult c owner) := by
  have hstage : c.data.stage ≠ .building := fun hbuilding => by
    obtain ⟨x, rfl⟩ := h.owner_of_building hc hbuilding howner hresult
    exact hrelease
  have hnot : ∀ id result, owner ≠ .publication id result := by
    rintro id result rfl
    exact hrelease
  refine h.of_references (map_exchange_perm hc rfl) (List.Perm.refl _) ⟨rfl, rfl, rfl, rfl, rfl, rfl⟩
    (h.results.drop hc howner hresult hfits.1) (fun id => ?_) (fun id result hmem => ?_) ?_ ?_
  · have hcount := countP_erase_add (ResultOwner.isCurrent id) howner
    have hcurrent : owner.isCurrent id = false := by
      cases owner with
      | current session result => exact hrelease.elim
      | publication session result => rfl
      | acquisition result => rfl
      | releasing result => rfl
    rwa [hcurrent, if_neg Bool.false_ne_true] at hcount
  · exact List.mem_of_mem_erase hmem
  · refine List.forall_mem_cons.mpr ⟨fun hbuilding => absurd hbuilding hstage, fun other hother hbuilding => ?_⟩
    obtain ⟨hone, x, hpublication⟩ := h.building other (List.mem_of_mem_erase hother) hbuilding
    exact ⟨hone, x, (List.mem_erase_of_ne (hnot x other.id).symm).mpr hpublication⟩
  · refine List.forall_mem_cons.mpr
      ⟨fun huncounted => ?_, fun other hother => h.uncounted other (List.mem_of_mem_erase hother)⟩
    simp [h.uncounted c hc huncounted]

/-- Handing on a reference that is no publication of a result that is being built. -/
theorem Sound.building_pass (h : Sound s)
    (hnot : ∀ c ∈ s.results.cells, owner.result = c.id → c.data.stage ≠ .building) :
    ∀ c ∈ s.results.cells, c.data.stage = .building →
      c.count = 1 ∧ ∃ x, .publication x c.id ∈ exchange s.results.owners owner heir := by
  intro c hc hbuilding
  obtain ⟨hone, x, hpublication⟩ := h.building c hc hbuilding
  refine ⟨hone, x, mem_exchange_of_ne hpublication ?_⟩
  rintro rfl
  exact hnot c hc rfl hbuilding

theorem Sound.abandonResult (h : Sound s) {id : ℕ} (hc : c ∈ s.results.cells)
    (howner : .publication id c.id ∈ s.results.owners) (hstage : c.data.stage = .counted) :
    Sound (s.abandonResult id c.id) := by
  refine h.of_references (List.Perm.refl _) (List.Perm.refl _) ⟨rfl, rfl, rfl, rfl, rfl, rfl⟩
    (h.results.pass howner rfl) (fun id => countP_exchange_of_eq howner rfl)
    (fun id result hmem => ?_) (h.building_pass fun other hother hid => ?_) h.uncounted
  · rcases mem_exchange hmem with heq | hmem
    · cases heq
    · exact hmem
  · have hsame : other = c := List.inj_on_of_nodup_map h.results.nodup hother hc hid.symm
    rw [hsame, hstage]
    decide

theorem Sound.installResult (h : Sound s) {old : ℕ} (hx : x ∈ s.sessions)
    (hc : c ∈ s.results.cells) (howner : .publication x.id c.id ∈ s.results.owners)
    (hstage : c.data.stage = .counted) (hcurrent : .current x.id old ∈ s.results.owners) :
    Sound (s.installResult x c.id old) := by
  have hnew : ResultOwner.publication x.id c.id ∈
      exchange s.results.owners (.current x.id old) (.releasing old) :=
    mem_exchange_of_ne howner (by simp)
  have hfirst : (s.results.pass (.current x.id old) (.releasing old)).Sound ResultOwner.result :=
    h.results.pass hcurrent rfl
  refine h.of_references (List.Perm.refl _) (map_exchange_perm hx rfl)
    ⟨rfl, rfl, rfl, rfl, rfl, rfl⟩ (hfirst.pass hnew rfl) (fun id => ?_)
    (fun id result hmem => ?_) (fun other hother hbuilding => ?_) h.uncounted
  · -- The current pointer leaves the old result and comes to the new one.
    have hleave := countP_exchange (b := ResultOwner.releasing old) (ResultOwner.isCurrent id) hcurrent
    have hcome := countP_exchange (b := ResultOwner.current x.id c.id) (ResultOwner.isCurrent id) hnew
    have hreleasing : (ResultOwner.releasing old).isCurrent id = false := rfl
    have hpublication : (ResultOwner.publication x.id c.id).isCurrent id = false := rfl
    have hsame : (ResultOwner.current x.id c.id).isCurrent id =
      (ResultOwner.current x.id old).isCurrent id := rfl
    rw [hreleasing, if_neg Bool.false_ne_true] at hleave
    rw [hpublication, if_neg Bool.false_ne_true, hsame] at hcome
    change (exchange (exchange _ _ _) _ _).countP _ = _
    omega
  · rcases mem_exchange hmem with heq | hmem
    · cases heq
    · rcases mem_exchange hmem with heq | hmem
      · cases heq
      · exact hmem
  · obtain ⟨hone, session, hpublication⟩ := h.building other hother hbuilding
    refine ⟨hone, session, mem_exchange_of_ne (mem_exchange_of_ne hpublication (by simp)) ?_⟩
    intro heq
    have hid : other.id = c.id := (ResultOwner.publication.inj heq).2
    have hsame : other = c := List.inj_on_of_nodup_map h.results.nodup hother hc hid
    rw [hsame, hstage] at hbuilding
    cases hbuilding

/-! ## New sessions and new results -/

/-- A session begins with its first result. -/
theorem Sound.beginSession (h : Sound s) (hcontext : s.contextDestroyed = false)
    (hattached : x.stage = .attached) {result next : ℕ} (hresult : s.next ≤ result)
    {storage : Storage} {pools : Table PoolData PoolOwner}
    (hpooled : Pooled (⟨storage, .counted⟩ :: s.results.cells.map Cell.data)
      ((x.id, x.pool) :: s.members) pools)
    (hnamed : (names (x.id :: s.sessions.map Session.id) (result :: s.results.cells.map Cell.id)
      (pools.cells.map Cell.id) s.freed).Perm (List.range next))
    (hsessions : s.sessions.length + 1 < counterValues)
    (hcells : s.results.cells.length + 1 < counterValues) :
    Sound { s with
      sessionCount := increment counterValues s.sessionCount
      resultCount := increment counterValues s.resultCount
      sessions := x :: s.sessions
      results := s.results.create result ⟨storage, .counted⟩ (.current x.id result)
      pools := pools
      next := next } := by
  have hresults : s.results.cells.countP onCount ≤ s.results.cells.length := List.countP_le_length
  have honCount : s.sessions.countP Session.onCount ≤ s.sessions.length := List.countP_le_length
  refine ⟨h.results.create (fun c hc => ?_) rfl, hpooled, hnamed, ?_, ?_, fun id => ?_,
    fun id result' howner => ?_, ?_, ?_, fun hdestroyed => ?_⟩
  · exact ((h.result_lt hc).trans_le hresult).ne
  · have hcount : onCount ⟨result, 1, false, ⟨storage, .counted⟩⟩ = true := rfl
    change increment counterValues s.resultCount = _
    rw [h.resultCount, increment_eq (by omega)]
    exact (List.countP_cons_of_pos hcount).symm
  · have hcount : x.onCount = true := by simp [Session.onCount, hattached]
    change increment counterValues s.sessionCount = _
    rw [h.sessionCount, increment_eq (by omega)]
    exact (List.countP_cons_of_pos hcount).symm
  · have hcurrent := h.current id
    simp [Table.create, List.countP_cons, hcurrent, ResultOwner.isCurrent, Session.hasCurrent,
      hattached]
  · rcases List.mem_cons.mp howner with heq | howner
    · cases heq
    · obtain ⟨x', hx', hid, hstage, hstorage⟩ := h.publication id result' howner
      have hlt := (h.owner_lt howner).trans_le hresult
      refine ⟨x', List.mem_cons_of_mem _ hx', hid, hstage, List.forall_mem_cons.mpr ⟨?_, hstorage⟩⟩
      rintro rfl
      exact absurd hlt (lt_irrefl _)
  · refine List.forall_mem_cons.mpr ⟨fun hbuilding => (by cases hbuilding), fun c hc hbuilding => ?_⟩
    obtain ⟨hone, session, howner⟩ := h.building c hc hbuilding
    exact ⟨hone, session, List.mem_cons_of_mem _ howner⟩
  · exact List.forall_mem_cons.mpr ⟨fun huncounted => (by cases huncounted), h.uncounted⟩
  · rw [hcontext] at hdestroyed
    cases hdestroyed

theorem Sound.createSession (h : Sound s) (heap : Bool) (hcontext : s.contextDestroyed = false)
    (hfits : (s.createSession heap).Fits) : Sound (s.createSession heap) := by
  have hnamed := (names_result.trans (names_session.cons (s.next + 1))).trans
    (range_succ_perm (range_succ_perm h.named))
  exact @Sound.beginSession _ ⟨s.next, none, heap, 1, .attached⟩ h hcontext rfl _ _ (Nat.le_succ _)
    _ _ (pooled_heap_cons.mpr (pooled_member_cons.mpr h.pooled)) hnamed hfits.2.2.1 hfits.2.2.2

theorem Sound.createPooledSession (h : Sound s) (hcontext : s.contextDestroyed = false)
    (hfits : s.createPooledSession.Fits) : Sound s.createPooledSession := by
  have hfresh : ∀ q ∈ s.pools.cells, q.id ≠ s.next + 1 := fun q hq => by
    have hlt := h.pool_lt hq
    omega
  have hnames := (names_result.trans ((names_pool.trans (names_session.cons (s.next + 1))).cons
    (s.next + 2))).trans (range_succ_perm (range_succ_perm (range_succ_perm h.named)))
  exact @Sound.beginSession _ ⟨s.next, some (s.next + 1), false, 1, .attached⟩ h hcontext rfl _ _
    (Nat.le_add_right _ 2) _ _ (h.pooled.createPool hfresh hfits.2.1) hnames hfits.2.2.1 hfits.2.2.2

/-- A publication begins with a result of its own. -/
theorem Sound.beginResult (h : Sound s) (hx : x ∈ s.sessions) (hattached : x.stage = .attached)
    {storage : Storage} (hstorage : storage.pool = x.pool) {pools : Table PoolData PoolOwner}
    (hpooled : Pooled (⟨storage, .building⟩ :: s.results.cells.map Cell.data) s.members pools)
    (hpools : (pools.cells.map Cell.id).Perm (s.pools.cells.map Cell.id)) :
    Sound { s with
      results := s.results.create s.next ⟨storage, .building⟩ (.publication x.id s.next)
      pools := pools
      next := s.next + 1 } := by
  have halive := h.alive_of_session hx (by rw [hattached]; decide)
  refine ⟨h.results.create (fun c hc => (h.result_lt hc).ne) rfl, hpooled, ?_, ?_, h.sessionCount,
    fun id => ?_, fun id result howner => ?_, ?_, ?_, fun hdestroyed => ?_⟩
  · exact (names_result.trans ((names_perm (List.Perm.refl _) (List.Perm.refl _) hpools).cons _)).trans
      (range_succ_perm h.named)
  · rw [h.resultCount]
    exact (List.countP_cons_of_neg (by simp [onCount])).symm
  · rw [← h.current id]
    exact List.countP_cons_of_neg (by simp [ResultOwner.isCurrent])
  · rcases List.mem_cons.mp howner with heq | howner
    · obtain ⟨rfl, rfl⟩ := ResultOwner.publication.inj heq
      refine ⟨x, hx, rfl, hattached, List.forall_mem_cons.mpr ⟨fun _ => hstorage, ?_⟩⟩
      exact fun c hc hid => absurd hid (h.result_lt hc).ne
    · obtain ⟨x', hx', hid, hstage, hplace⟩ := h.publication id result howner
      have hlt := h.owner_lt howner
      refine ⟨x', hx', hid, hstage, List.forall_mem_cons.mpr ⟨?_, hplace⟩⟩
      rintro rfl
      exact absurd hlt (lt_irrefl _)
  · refine List.forall_mem_cons.mpr
      ⟨fun _ => ⟨rfl, x.id, List.mem_cons_self⟩, fun c hc hbuilding => ?_⟩
    obtain ⟨hone, session, howner⟩ := h.building c hc hbuilding
    exact ⟨hone, session, List.mem_cons_of_mem _ howner⟩
  · exact List.forall_mem_cons.mpr ⟨fun huncounted => (by cases huncounted), h.uncounted⟩
  · rw [halive] at hdestroyed
    cases hdestroyed

/-! ## Results that go on and off `result_count` -/

/-- The data of the results with one of them first. -/
theorem data_perm (hc : c ∈ s.results.cells) {data : ResultData} (hdata : c.data = data) :
    (s.results.cells.map Cell.data).Perm
      (data :: (s.results.cells.erase c).map Cell.data) := by
  rw [← hdata, ← List.map_cons]
  exact (List.perm_cons_erase hc).map _

/-- A result that is no longer being built, or is no longer on `result_count`. -/
theorem Sound.restage (h : Sound s) (hc : c ∈ s.results.cells) {stage : ResultStage}
    (hstage : stage ≠ .building) (huncounted : stage = .uncounted → c.dying = true)
    {count : ℕ} {pools : Table PoolData PoolOwner}
    (hcount : count = (exchange s.results.cells c
      { c with data := ⟨c.data.storage, stage⟩ }).countP onCount)
    (hpooled : Pooled ((exchange s.results.cells c
      { c with data := ⟨c.data.storage, stage⟩ }).map Cell.data) s.members pools)
    (hpools : (pools.cells.map Cell.id).Perm (s.pools.cells.map Cell.id)) :
    Sound { s with
      resultCount := count
      results := s.results.store c ⟨c.data.storage, stage⟩
      pools := pools } := by
  have halive := h.alive_of_result hc
  refine ⟨h.results.store hc _, hpooled, ?_, hcount, h.sessionCount, h.current,
    fun id result howner => ?_, ?_, ?_, fun hdestroyed => ?_⟩
  · exact (names_perm (List.Perm.refl _) (map_exchange_perm hc rfl) hpools).trans h.named
  · obtain ⟨x, hx, hid, hattached, hplace⟩ := h.publication id result howner
    refine ⟨x, hx, hid, hattached, List.forall_mem_cons.mpr ⟨hplace c hc, fun other hother => ?_⟩⟩
    exact hplace other (List.mem_of_mem_erase hother)
  · refine List.forall_mem_cons.mpr ⟨fun hbuilding => absurd hbuilding hstage, fun other hother => ?_⟩
    exact h.building other (List.mem_of_mem_erase hother)
  · refine List.forall_mem_cons.mpr ⟨huncounted, fun other hother => ?_⟩
    exact h.uncounted other (List.mem_of_mem_erase hother)
  · rw [halive] at hdestroyed
    cases hdestroyed

theorem Sound.countP_onCount (h : Sound s) (hc : c ∈ s.results.cells) {stage : ResultStage} :
    (exchange s.results.cells c { c with data := ⟨c.data.storage, stage⟩ }).countP onCount +
        (if c.data.stage = .counted then 1 else 0) =
      s.resultCount + if stage = .counted then 1 else 0 := by
  have hcount := countP_exchange (b := { c with data := ⟨c.data.storage, stage⟩ }) onCount hc
  rw [h.resultCount]
  simpa [onCount] using hcount

theorem length_exchange (hc : c ∈ s.results.cells) (c' : Cell ResultData) :
    (exchange s.results.cells c c').length = s.results.cells.length := by
  rw [exchange, List.length_cons, List.length_erase_of_mem hc]
  have hpos := List.length_pos_of_mem hc
  omega

/-- One more result on `result_count`. -/
theorem Sound.increment_resultCount (h : Sound s) (hc : c ∈ s.results.cells)
    (hstage : c.data.stage = .building) (hfits : s.results.cells.length < counterValues) :
    increment counterValues s.resultCount =
      (exchange s.results.cells c { c with data := ⟨c.data.storage, .counted⟩ }).countP onCount := by
  have hcount := @Sound.countP_onCount s c h hc .counted
  have hle := List.countP_le_length (p := onCount) (l := exchange s.results.cells c
    { c with data := ⟨c.data.storage, .counted⟩ })
  rw [length_exchange hc] at hle
  rw [if_neg (by rw [hstage]; decide), if_pos rfl] at hcount
  rw [increment_eq (by omega)]
  omega

theorem Sound.countResult (h : Sound s) (hc : c ∈ s.results.cells)
    (hdata : c.data = ⟨.heap, .building⟩) (hfits : s.results.cells.length < counterValues) :
    Sound (s.countResult c) := by
  have hpooled := h.pooled.of_perm (data_perm hc hdata).symm (List.Perm.refl _)
  refine h.restage hc (by decide) (fun hne => (by cases hne))
    (h.increment_resultCount hc (by rw [hdata]) hfits) ?_ (List.Perm.refl _)
  rw [exchange, List.map_cons, hdata]
  exact pooled_heap_cons.mpr (pooled_heap_cons.mp hpooled)

/-- The pool of a result that is being built is held by the session that publishes it. -/
theorem Sound.alive_of_building (h : Sound s) (hc : c ∈ s.results.cells)
    (hstage : c.data.stage = .building) (hq : q ∈ s.pools.cells)
    (hpool : c.data.storage.pool = some q.id) : q.dying = false := by
  obtain ⟨-, id, howner⟩ := h.building c hc hstage
  obtain ⟨x, hx, -, -, hplace⟩ := h.publication id c.id howner
  have hmember : (x.id, some q.id) ∈ s.members :=
    List.mem_map.mpr ⟨x, hx, by rw [← hplace c hc rfl, hpool]⟩
  exact h.pooled.not_dying hq (h.pooled.session_mem hmember) rfl

theorem Sound.countSlotResult (h : Sound s) {index : ℕ} (hc : c ∈ s.results.cells)
    (hq : q ∈ s.pools.cells) (hdata : c.data = ⟨.slot q.id index, .building⟩)
    (hfits : (s.countSlotResult c q index).Fits) (hlength : s.results.cells.length < counterValues) :
    Sound (s.countSlotResult c q index) := by
  have hpooled := h.pooled.of_perm (data_perm hc hdata).symm (List.Perm.refl _)
  have halive := h.alive_of_building hc (by rw [hdata]) hq (by rw [hdata]; rfl)
  refine h.restage hc (by decide) (fun hne => (by cases hne))
    (h.increment_resultCount hc (by rw [hdata]) hlength) ?_ (map_exchange_perm hq rfl)
  rw [exchange, List.map_cons, hdata]
  exact hpooled.share hq halive hfits.2.1

theorem Sound.uncountResult (h : Sound s) (hc : c ∈ s.results.cells) (hdying : c.dying = true)
    (hstage : c.data.stage = .counted) : Sound (s.uncountResult c) := by
  have hcount := @Sound.countP_onCount s c h hc .uncounted
  rw [if_pos hstage, if_neg (by decide)] at hcount
  refine h.restage hc (by decide) (fun _ => hdying) ?_ ?_ (List.Perm.refl _)
  · rw [← Nat.add_zero s.resultCount, ← hcount, decrement_succ]
  · have hdata : c.data = ⟨c.data.storage, .counted⟩ := by rw [← hstage]
    have hpooled := h.pooled.of_perm (data_perm hc hdata).symm (List.Perm.refl _)
    exact hpooled.restage (by decide) (by decide)

/-! ## Storage that is released -/

/-- A result that is not on `result_count` is gone. -/
theorem Sound.removeResult (h : Sound s) (hc : c ∈ s.results.cells)
    (hstage : c.data.stage ≠ .counted) {owners : List ResultOwner}
    {pools : Table PoolData PoolOwner}
    (hresults : (⟨s.results.cells.erase c, owners⟩ : Table _ _).Sound ResultOwner.result)
    (hpooled : Pooled ((s.results.cells.erase c).map Cell.data) s.members pools)
    (hpools : (pools.cells.map Cell.id).Perm (s.pools.cells.map Cell.id))
    (hcurrent : ∀ id, owners.countP (ResultOwner.isCurrent id) =
      s.results.owners.countP (ResultOwner.isCurrent id))
    (hpublication : ∀ id result, .publication id result ∈ owners →
      .publication id result ∈ s.results.owners)
    (hbuilding : ∀ id result, .publication id result ∈ s.results.owners → result ≠ c.id →
      .publication id result ∈ owners) :
    Sound { s with
      results := ⟨s.results.cells.erase c, owners⟩
      pools := pools
      freed := c.id :: s.freed } := by
  have halive := h.alive_of_result hc
  refine ⟨hresults, hpooled, ?_, ?_, h.sessionCount, fun id => ?_, fun id result howner => ?_,
    fun other hother hstage' => ?_, fun other hother => h.uncounted other (List.mem_of_mem_erase hother),
    fun hdestroyed => ?_⟩
  · have hids : (s.results.cells.map Cell.id).Perm
        (c.id :: (s.results.cells.erase c).map Cell.id) := (List.perm_cons_erase hc).map _
    have hbefore := (names_perm (List.Perm.refl (s.sessions.map Session.id)) hids.symm hpools).trans
      h.named
    exact names_freed.trans (names_result.symm.trans hbefore)
  · have hcount := countP_erase_add onCount hc
    rw [if_neg (by simpa [onCount] using hstage), Nat.add_zero] at hcount
    rw [h.resultCount]
    exact hcount.symm
  · rw [← h.current id]
    exact hcurrent id
  · obtain ⟨x, hx, hid, hattached, hplace⟩ := h.publication id result (hpublication id result howner)
    exact ⟨x, hx, hid, hattached, fun other hother => hplace other (List.mem_of_mem_erase hother)⟩
  · obtain ⟨hone, id, howner⟩ := h.building other (List.mem_of_mem_erase hother) hstage'
    exact ⟨hone, id, hbuilding id other.id howner (key_ne_of_mem_erase h.results.nodup hc hother)⟩
  · rw [halive] at hdestroyed
    cases hdestroyed

theorem Sound.discardResult (h : Sound s) {id : ℕ} (hc : c ∈ s.results.cells)
    (howner : .publication id c.id ∈ s.results.owners) (hdata : c.data = ⟨.heap, .building⟩) :
    Sound (s.discardResult id c) := by
  have hstage : c.data.stage = .building := by rw [hdata]
  have hpooled := h.pooled.of_perm (data_perm hc hdata).symm (List.Perm.refl _)
  refine h.removeResult hc (by rw [hstage]; decide)
    (h.results.discard hc howner rfl (h.building c hc hstage).1) (pooled_heap_cons.mp hpooled)
    (List.Perm.refl _) (fun session => ?_) (fun _ _ hmem => List.mem_of_mem_erase hmem)
    (fun session result hmem hne => (List.mem_erase_of_ne ?_).mpr hmem)
  · have hcount := countP_erase_add (ResultOwner.isCurrent session) howner
    exact hcount
  · intro heq
    exact hne (ResultOwner.publication.inj heq).2

theorem Sound.freeResult (h : Sound s) (hc : c ∈ s.results.cells) (hdying : c.dying = true)
    (hdata : c.data = ⟨.heap, .uncounted⟩) : Sound (s.freeResult c) := by
  have hpooled := h.pooled.of_perm (data_perm hc hdata).symm (List.Perm.refl _)
  exact h.removeResult hc (by rw [hdata]; decide) (h.results.remove hc hdying)
    (pooled_heap_cons.mp hpooled) (List.Perm.refl _) (fun _ => rfl) (fun _ _ hmem => hmem)
    (fun _ _ hmem _ => hmem)

theorem Sound.freeSlot (h : Sound s) {index : ℕ} (hc : c ∈ s.results.cells)
    (hdying : c.dying = true) (hq : q ∈ s.pools.cells)
    (hdata : c.data = ⟨.slot q.id index, .uncounted⟩) : Sound (s.freeSlot c q index) := by
  have hpooled := h.pooled.of_perm (data_perm hc hdata).symm (List.Perm.refl _)
  exact h.removeResult hc (by rw [hdata]; simp) (h.results.remove hc hdying)
    (hpooled.freeSlot (by decide) hq) (map_exchange_perm hq rfl) (fun _ => rfl)
    (fun _ _ hmem => hmem) (fun _ _ hmem _ => hmem)

theorem Sound.releasePool (h : Sound s) (hq : q ∈ s.pools.cells)
    (howner : .releasing q.id ∈ s.pools.owners) (hfits : s.Fits) : Sound (s.releasePool q) := by
  have halive := h.alive_of_pool hq
  refine ⟨h.results, h.pooled.releasePool hq howner hfits.2.1, ?_, h.resultCount, h.sessionCount,
    h.current, h.publication, h.building, h.uncounted, fun hdestroyed => ?_⟩
  · exact (names_perm (List.Perm.refl _) (List.Perm.refl _) (map_exchange_perm hq rfl)).trans h.named
  · rw [show (s.releasePool q).contextDestroyed = s.contextDestroyed from rfl, halive] at hdestroyed
    cases hdestroyed

/-- No result is in a pool that is dying. -/
theorem Sound.pool_ne_of_dying (h : Sound s) (hc : c ∈ s.results.cells) (hq : q ∈ s.pools.cells)
    (hdying : q.dying = true) : c.data.storage.pool ≠ some q.id := by
  intro hpool
  cases hstorage : c.data.storage with
  | heap =>
      rw [hstorage] at hpool
      cases hpool
  | slot pool index =>
      by_cases hstage : c.data.stage = .building
      · rw [h.alive_of_building hc hstage hq hpool] at hdying
        cases hdying
      · rw [hstorage] at hpool
        obtain rfl := Option.some.inj hpool
        have hpos : 0 < (s.results.cells.map Cell.data).countP (ResultData.holdsSlot q.id index) := by
          refine List.countP_pos_iff.mpr ⟨c.data, List.mem_map_of_mem hc, ?_⟩
          simp [ResultData.holdsSlot, hstorage, hstage]
        rw [← h.pooled.slotOwners, List.count_pos_iff] at hpos
        rw [h.pooled.not_dying hq hpos rfl] at hdying
        cases hdying

theorem Sound.freePool (h : Sound s) (hq : q ∈ s.pools.cells) (hdying : q.dying = true) :
    Sound (s.freePool q) := by
  have halive := h.alive_of_pool hq
  refine ⟨h.results, h.pooled.freePool hq hdying fun d hd => ?_, ?_, h.resultCount, h.sessionCount,
    h.current, h.publication, h.building, h.uncounted, fun hdestroyed => ?_⟩
  · obtain ⟨c, hc, rfl⟩ := List.mem_map.mp hd
    exact h.pool_ne_of_dying hc hq hdying
  · have hids : (s.pools.cells.map Cell.id).Perm
        (q.id :: (s.pools.cells.erase q).map Cell.id) := (List.perm_cons_erase hq).map _
    have hbefore := (names_perm (List.Perm.refl (s.sessions.map Session.id))
      (List.Perm.refl (s.results.cells.map Cell.id)) hids.symm).trans h.named
    exact names_freed.trans (names_pool.symm.trans hbefore)
  · rw [show (s.freePool q).contextDestroyed = s.contextDestroyed from rfl, halive] at hdestroyed
    cases hdestroyed

/-! ## Sessions that are destroyed -/

/-- The publication of a session keeps it attached. -/
theorem Sound.publication_of_sessions (h : Sound s) {sessions : List Session}
    (hkept : ∀ x ∈ s.sessions, x.stage = .attached →
      (∃ result, .publication x.id result ∈ s.results.owners) → x ∈ sessions) (id result : ℕ)
    (howner : .publication id result ∈ s.results.owners) :
    ∃ x ∈ sessions, x.id = id ∧ x.stage = .attached ∧
      ∀ c ∈ s.results.cells, c.id = result → c.data.storage.pool = x.pool := by
  obtain ⟨x, hx, rfl, hattached, hplace⟩ := h.publication id result howner
  exact ⟨x, hkept x hx hattached ⟨result, howner⟩, rfl, hattached, hplace⟩

theorem Sound.detachSession (h : Sound s) {result : ℕ} (hx : x ∈ s.sessions) (hidle : s.Idle x)
    (howner : .current x.id result ∈ s.results.owners) : Sound (s.detachSession x result) := by
  have halive := h.alive_of_session hx (by rw [hidle.1]; decide)
  refine ⟨h.results.pass howner rfl,
    h.pooled.of_perm (List.Perm.refl _) (map_exchange_perm hx rfl), ?_, h.resultCount, ?_,
    fun id => ?_, fun id result hmem => ?_, h.building_pass fun c hc hid hbuilding => ?_,
    h.uncounted, fun hdestroyed => ?_⟩
  · exact (names_perm (map_exchange_perm hx rfl) (List.Perm.refl _) (List.Perm.refl _)).trans h.named
  · have hcount : (exchange s.sessions x { x with stage := .detached }).countP Session.onCount =
        s.sessions.countP Session.onCount :=
      countP_exchange_of_eq hx (by simp [Session.onCount, hidle.1])
    exact h.sessionCount.trans hcount.symm
  · -- The session and its current pointer go together.
    have howners := countP_exchange (b := ResultOwner.releasing result) (ResultOwner.isCurrent id) howner
    have hsessions := countP_exchange (b := { x with stage := .detached }) (Session.hasCurrent id) hx
    have hcurrent := h.current id
    have hreleasing : (ResultOwner.releasing result).isCurrent id = false := rfl
    have hdetached : ({ x with stage := .detached } : Session).hasCurrent id = false := by
      simp [Session.hasCurrent]
    have hsame : (ResultOwner.current x.id result).isCurrent id = x.hasCurrent id := by
      simp [ResultOwner.isCurrent, Session.hasCurrent, hidle.1]
    rw [hreleasing, if_neg Bool.false_ne_true, hsame] at howners
    rw [hdetached, if_neg Bool.false_ne_true] at hsessions
    change (exchange s.results.owners _ _).countP _ = (exchange s.sessions _ _).countP _
    omega
  · rcases mem_exchange hmem with heq | hmem
    · cases heq
    · refine h.publication_of_sessions (fun x' hx' _ hpublishing => mem_exchange_of_ne hx' ?_) id
        result hmem
      rintro rfl
      exact hpublishing.elim hidle.2
  · obtain ⟨session, heq⟩ := h.owner_of_building hc hbuilding howner hid
    cases heq
  · rw [show (s.detachSession x result).contextDestroyed = s.contextDestroyed from rfl, halive]
      at hdestroyed
    cases hdestroyed

theorem Sound.uncountSession (h : Sound s) (hx : x ∈ s.sessions) (hstage : x.stage = .detached) :
    Sound (s.uncountSession x) := by
  have halive := h.alive_of_session hx (by rw [hstage]; decide)
  refine ⟨h.results, h.pooled.of_perm (List.Perm.refl _) (map_exchange_perm hx rfl), ?_,
    h.resultCount, ?_, fun id => ?_,
    h.publication_of_sessions fun x' hx' hattached _ => mem_exchange_of_ne hx' ?_, h.building,
    h.uncounted, fun hdestroyed => ?_⟩
  · exact (names_perm (map_exchange_perm hx rfl) (List.Perm.refl _) (List.Perm.refl _)).trans h.named
  · have hcount := countP_exchange (b := { x with stage := .uncounted }) Session.onCount hx
    have hbefore : x.onCount = true := by simp [Session.onCount, hstage]
    have hafter : ({ x with stage := .uncounted } : Session).onCount = false := by
      simp [Session.onCount]
    rw [hbefore, hafter, if_pos rfl, if_neg Bool.false_ne_true,
      ← h.sessionCount] at hcount
    have hsucc : s.sessionCount =
      (exchange s.sessions x { x with stage := .uncounted }).countP Session.onCount + 1 := by omega
    change decrement counterValues s.sessionCount = _
    rw [hsucc]
    exact decrement_succ _ _
  · rw [show (s.uncountSession x).results = s.results from rfl, h.current id]
    exact (countP_exchange_of_eq hx (by simp [Session.hasCurrent, hstage])).symm
  · rintro rfl
    rw [hstage] at hattached
    cases hattached
  · rw [show (s.uncountSession x).contextDestroyed = s.contextDestroyed from rfl, halive]
      at hdestroyed
    cases hdestroyed

/-- The sessions and their pools with one of them first. -/
theorem members_perm (hx : x ∈ s.sessions) :
    s.members.Perm ((x.id, x.pool) :: (s.sessions.erase x).map fun x => (x.id, x.pool)) :=
  (List.perm_cons_erase hx).map _

/-- A session that is off `session_count` is gone. -/
theorem Sound.endSession (h : Sound s) (hx : x ∈ s.sessions) (hstage : x.stage = .uncounted)
    {pools : Table PoolData PoolOwner} (hcells : pools.cells = s.pools.cells)
    (hpooled : Pooled (s.results.cells.map Cell.data)
      ((s.sessions.erase x).map fun x => (x.id, x.pool)) pools) :
    Sound { s with
      sessions := s.sessions.erase x
      pools := pools
      freed := x.id :: s.freed } := by
  refine ⟨h.results, hpooled, ?_, h.resultCount, ?_, fun id => ?_,
    h.publication_of_sessions fun x' hx' hattached _ => (List.mem_erase_of_ne ?_).mpr hx',
    h.building, h.uncounted, hcells ▸ h.destroyed⟩
  · have hids : (s.sessions.map Session.id).Perm (x.id :: (s.sessions.erase x).map Session.id) :=
      (List.perm_cons_erase hx).map _
    have hbefore := (names_perm hids.symm (List.Perm.refl (s.results.cells.map Cell.id))
      (List.Perm.refl (s.pools.cells.map Cell.id))).trans h.named
    unfold allNames
    rw [hcells]
    exact names_freed.trans (names_session.symm.trans hbefore)
  · have hcount := countP_erase_add Session.onCount hx
    rw [if_neg (by simp [Session.onCount, hstage]), Nat.add_zero] at hcount
    exact h.sessionCount.trans hcount.symm
  · have hcount := countP_erase_add (Session.hasCurrent id) hx
    rw [if_neg (by simp [Session.hasCurrent, hstage]), Nat.add_zero] at hcount
    exact (h.current id).trans hcount.symm
  · rintro rfl
    rw [hstage] at hattached
    cases hattached

theorem Sound.closeSession (h : Sound s) (hx : x ∈ s.sessions) (hstage : x.stage = .uncounted)
    (hpool : x.pool = none) : Sound (s.closeSession x) := by
  have hmembers := members_perm hx
  rw [hpool] at hmembers
  exact h.endSession hx hstage rfl
    (pooled_member_cons.mp (h.pooled.of_perm (List.Perm.refl _) hmembers.symm))

theorem Sound.closePooledSession (h : Sound s) {pool : ℕ} (hx : x ∈ s.sessions)
    (hstage : x.stage = .uncounted) (hpool : x.pool = some pool) :
    Sound (s.closePooledSession x pool) := by
  have hmembers := members_perm hx
  rw [hpool] at hmembers
  exact h.endSession hx hstage rfl
    (h.pooled.of_perm (List.Perm.refl _) hmembers.symm).closeSession

/-- A context is destroyed when nothing of it is left. -/
theorem Sound.destroyContext (h : Sound s) : Sound s.destroyContext.2 := by
  unfold State.destroyContext
  split_ifs with hbusy
  · exact h
  · simp only [not_or, not_not] at hbusy
    obtain ⟨hsessions, -, hblocks⟩ := hbusy
    simp only [allocatedBlocks, Nat.add_eq_zero_iff, List.countP_eq_zero, decide_eq_true_iff,
      List.length_eq_zero_iff] at hblocks
    obtain ⟨⟨hheap, hpools⟩, -⟩ := hblocks
    refine ⟨h.results, h.pooled, h.named, h.resultCount, h.sessionCount, h.current, h.publication,
      h.building, h.uncounted, fun _ => ⟨hsessions, ?_, hpools⟩⟩
    apply List.eq_nil_iff_forall_not_mem.mpr
    intro c hc
    -- A result is on the heap or in a pool, and there is neither.
    cases hstorage : c.data.storage with
    | heap => exact hheap c hc hstorage
    | slot pool index =>
        obtain ⟨q, hq, -⟩ := h.pooled.placed c.data (List.mem_map_of_mem hc) pool
          (by rw [hstorage]; rfl)
        rw [hpools] at hq
        exact List.not_mem_nil hq

/-! ## Runs -/

/-- A step that overflows no counter keeps the invariant. -/
theorem Sound.step (h : Sound s) (hfits : s.Fits) (hstep : Step s s') (hfits' : s'.Fits) :
    Sound s' := by
  cases hstep with
  | create heap hcontext => exact h.createSession heap hcontext hfits'
  | createPooled hcontext => exact h.createPooledSession hcontext hfits'
  | allocate hx hidle hpool hgeneration =>
      have hstorage : Storage.heap.pool = _ := hpool.symm
      exact h.beginResult hx hidle.1 hstorage (pooled_heap_cons.mpr h.pooled) (List.Perm.refl _)
  | @claim x q index active hx hidle hq hpool hstatus hslot =>
      have hstorage : (Storage.slot q.id index).pool = x.pool := hpool.symm
      exact h.beginResult hx hidle.1 hstorage (h.pooled.claim hq hslot) (map_exchange_perm hq rfl)
  | count howner hc hdata => exact h.countResult hc hdata hfits.2.2.2
  | countSlot howner hc hq hdata => exact h.countSlotResult hc hq hdata hfits' hfits.2.2.2
  | discard howner hc hdata => exact h.discardResult hc howner hdata
  | abandon howner hc hdata => exact h.abandonResult hc howner (by rw [hdata])
  | install hx howner hc hstage hcurrent => exact h.installResult hx hc howner hstage hcurrent
  | acquire hcurrent hc => exact h.acquireResult hc hcurrent hfits'
  | release howner hrelease hc hresult => exact h.releaseResult hc howner hrelease hresult hfits
  | uncount hc hdying hstage => exact h.uncountResult hc hdying hstage
  | free hc hdying hdata => exact h.freeResult hc hdying hdata
  | freeSlot hc hdying hq hdata => exact h.freeSlot hc hdying hq hdata
  | releasePool hq howner => exact h.releasePool hq howner hfits
  | freePool hq hdying => exact h.freePool hq hdying
  | detach hx hidle hcurrent => exact h.detachSession hx hidle hcurrent
  | uncountSession hx hstage => exact h.uncountSession hx hstage
  | close hx hstage hpool => exact h.closeSession hx hstage hpool
  | closePooled hx hstage hpool => exact h.closePooledSession hx hstage hpool
  | destroyContext => exact h.destroyContext

theorem fits_initial : initial.Fits := by
  have hpos : 0 < counterValues := by decide
  exact ⟨fun _ => hpos, fun _ => hpos, hpos, hpos⟩

/-- Under every interleaving that overflows no counter the invariant holds. -/
theorem Reachable.sound (h : Reachable Fits s) : Sound s ∧ s.Fits := by
  induction h with
  | initial => exact ⟨Sound.initial, fits_initial⟩
  | step _ hstep hfits ih => exact ⟨ih.1.step ih.2 hstep hfits, hfits⟩

end State

end LibApta.Lifetime
