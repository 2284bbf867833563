import LibApta.Lifetime.Slots

/-!
# The invariant of the lifetime

What holds of the results, pools and sessions of a context under every interleaving in which no
counter overflows: counters are the numbers of references, names are in use or freed once, each
attached session has one current result, and a result that is being built is held by its publication
alone.
-/

namespace LibApta.Lifetime

open References

/-! ## Names -/

/-- Names in use, of sessions, results and pools, and names that are freed. -/
def names (sessions results pools freed : List ℕ) : List ℕ :=
  sessions ++ (results ++ (pools ++ freed))

variable {name : ℕ} {sessions sessions' results results' pools pools' freed : List ℕ}

theorem names_perm (hsessions : sessions'.Perm sessions) (hresults : results'.Perm results)
    (hpools : pools'.Perm pools) :
    (names sessions' results' pools' freed).Perm (names sessions results pools freed) :=
  hsessions.append (hresults.append (hpools.append_right _))

theorem names_session :
    (names (name :: sessions) results pools freed).Perm
      (name :: names sessions results pools freed) := List.Perm.refl _

theorem names_result :
    (names sessions (name :: results) pools freed).Perm
      (name :: names sessions results pools freed) := List.perm_middle

theorem names_pool :
    (names sessions results (name :: pools) freed).Perm
      (name :: names sessions results pools freed) :=
  (List.perm_middle.append_left sessions).trans List.perm_middle

theorem names_freed :
    (names sessions results pools (name :: freed)).Perm
      (name :: names sessions results pools freed) :=
  ((List.perm_middle.append_left results).append_left sessions).trans
    ((List.perm_middle.append_left sessions).trans List.perm_middle)

/-- The next name goes into use. -/
theorem range_succ_perm {l : List ℕ} {n : ℕ} (h : l.Perm (List.range n)) :
    (n :: l).Perm (List.range (n + 1)) := by
  rw [List.range_succ]
  exact (h.cons n).trans (List.perm_append_singleton n (List.range n)).symm

/-! ## Counters -/

/-- An owner is the current pointer of a session. -/
def ResultOwner.isCurrent (session : ℕ) : ResultOwner → Bool
  | .current session' _ => decide (session' = session)
  | _ => false

/-- A session has a current pointer. -/
def Session.hasCurrent (id : ℕ) (x : Session) : Bool :=
  decide (x.id = id) && decide (x.stage = .attached)

/-- A session is on `session_count`. -/
def Session.onCount (x : Session) : Bool := decide (x.stage ≠ .uncounted)

/-- A result is on `result_count`. -/
def onCount (c : Cell ResultData) : Bool := decide (c.data.stage = .counted)

/-! ## The invariant -/

namespace State

/-- Names in use and freed. -/
def allNames (s : State) : List ℕ :=
  names (s.sessions.map Session.id) (s.results.cells.map Cell.id) (s.pools.cells.map Cell.id) s.freed

/-- The pool a session has. -/
def members (s : State) : List (ℕ × Option ℕ) := s.sessions.map fun x => (x.id, x.pool)

/-- The invariant. -/
structure Sound (s : State) : Prop where
  results : s.results.Sound ResultOwner.result
  pooled : Pooled (s.results.cells.map Cell.data) s.members s.pools
  named : s.allNames.Perm (List.range s.next)
  resultCount : s.resultCount = s.results.cells.countP onCount
  sessionCount : s.sessionCount = s.sessions.countP Session.onCount
  current : ∀ id, s.results.owners.countP (ResultOwner.isCurrent id) =
    s.sessions.countP (Session.hasCurrent id)
  publication : ∀ id result, .publication id result ∈ s.results.owners →
    ∃ x ∈ s.sessions, x.id = id ∧ x.stage = .attached ∧
      ∀ c ∈ s.results.cells, c.id = result → c.data.storage.pool = x.pool
  building : ∀ c ∈ s.results.cells, c.data.stage = .building →
    c.count = 1 ∧ ∃ x, .publication x c.id ∈ s.results.owners
  uncounted : ∀ c ∈ s.results.cells, c.data.stage = .uncounted → c.dying = true
  destroyed : s.contextDestroyed = true →
    s.sessionCount = 0 ∧ s.results.cells = [] ∧ s.pools.cells = []

variable {s : State} {c : Cell ResultData} {x : Session} {q : Cell PoolData}

theorem Sound.initial : Sound initial := by
  refine ⟨⟨List.nodup_nil, ?_, ?_, ?_⟩, ⟨⟨List.nodup_nil, ?_, ?_, ?_⟩, ?_, ?_, ?_, ?_, ?_⟩,
    List.Perm.nil, rfl, rfl, fun _ => rfl, ?_, ?_, ?_, ?_⟩ <;>
    simp [State.initial, members]

theorem Sound.mem_names_lt (h : Sound s) (hname : name ∈ s.allNames) : name < s.next :=
  List.mem_range.mp (h.named.mem_iff.mp hname)

theorem Sound.result_lt (h : Sound s) (hc : c ∈ s.results.cells) : c.id < s.next := by
  apply h.mem_names_lt
  exact List.mem_append_right _ (List.mem_append_left _ (List.mem_map_of_mem hc))

theorem Sound.pool_lt (h : Sound s) (hq : q ∈ s.pools.cells) : q.id < s.next := by
  apply h.mem_names_lt
  exact List.mem_append_right _ (List.mem_append_right _ (List.mem_append_left _
    (List.mem_map_of_mem hq)))

theorem Sound.owner_lt (h : Sound s) {owner : ResultOwner} (howner : owner ∈ s.results.owners) :
    owner.result < s.next := by
  obtain ⟨c, hc, hid⟩ := h.results.owned owner howner
  exact hid ▸ h.result_lt hc

theorem Sound.nodup_names (h : Sound s) : s.allNames.Nodup :=
  h.named.nodup_iff.mpr List.nodup_range

/-- While there is a result the context is there. -/
theorem Sound.alive_of_result (h : Sound s) (hc : c ∈ s.results.cells) :
    s.contextDestroyed = false := by
  by_contra hne
  rw [(h.destroyed (by simpa using hne)).2.1] at hc
  exact List.not_mem_nil hc

theorem Sound.alive_of_pool (h : Sound s) (hq : q ∈ s.pools.cells) :
    s.contextDestroyed = false := by
  by_contra hne
  rw [(h.destroyed (by simpa using hne)).2.2] at hq
  exact List.not_mem_nil hq

theorem Sound.alive_of_session (h : Sound s) (hx : x ∈ s.sessions) (hstage : x.stage ≠ .uncounted) :
    s.contextDestroyed = false := by
  by_contra hne
  have hzero := (h.destroyed (by simpa using hne)).1
  rw [h.sessionCount, List.countP_eq_zero] at hzero
  exact hzero x hx (by simpa [Session.onCount] using hstage)

/-- The current pointer of a session is that of an attached session. -/
theorem Sound.current_mem (h : Sound s) {id result : ℕ}
    (howner : .current id result ∈ s.results.owners) :
    ∃ x ∈ s.sessions, x.id = id ∧ x.stage = .attached := by
  have hpos : 0 < s.results.owners.countP (ResultOwner.isCurrent id) :=
    List.countP_pos_iff.mpr ⟨_, howner, by simp [ResultOwner.isCurrent]⟩
  rw [h.current] at hpos
  obtain ⟨x, hx, hcurrent⟩ := List.countP_pos_iff.mp hpos
  simp only [Session.hasCurrent, Bool.and_eq_true, decide_eq_true_iff] at hcurrent
  exact ⟨x, hx, hcurrent⟩

/-- A result that is being built has no other owner than its publication. -/
theorem Sound.owner_of_building (h : Sound s) (hc : c ∈ s.results.cells)
    (hstage : c.data.stage = .building) {owner : ResultOwner} (howner : owner ∈ s.results.owners)
    (hresult : owner.result = c.id) : ∃ x, owner = .publication x c.id := by
  obtain ⟨hone, x, hpublication⟩ := h.building c hc hstage
  refine ⟨x, ?_⟩
  by_contra hne
  have hcount := h.results.counted c hc
  have herase := @Table.references_erase _ ResultOwner.result _ _ _ howner c.id
  rw [hresult, if_pos rfl] at herase
  have hother : ResultOwner.publication x c.id ∈ s.results.owners.erase owner :=
    (List.mem_erase_of_ne fun heq => hne heq.symm).mpr hpublication
  have hpos : 0 < Table.references ResultOwner.result (s.results.owners.erase owner) c.id :=
    Table.references_pos hother
  omega

end State

end LibApta.Lifetime
