import LibApta.Session.SeedFidelity

/-!
# What a failed publication takes back

A lifecycle transition writes the new state, and the end of input the length of the track, before the
publication that may fail; both take their own writes back when it does. Two things are not taken back.
A session on the heap that is refused memory forgets which overview columns are complete, whatever it
was going to announce. And the end of input of a fresh session activates it first, with a publication
of its own, which stays when the second one fails.
-/

namespace LibApta

namespace Session

/-! ## Conditions -/

/-- No overview column is complete. -/
def NothingComplete (s : Session) : Prop :=
  s.overview.completeCount = 0 ∧ ∀ acc ∈ s.overview.accumulators, acc.complete = false

/-- A refused publication that announces no feature does not reach the forgetting of the columns: the
generation is the last one, or the result would have taken a slot of a pool. -/
def KeepsColumns (s : Session) : Prop :=
  s.generation = uint64Max ∨ s.config.boundedResultSlots = true

/-- A refused publication of the session costs it no complete column. -/
def FailsCleanly (s : Session) : Prop := s.KeepsColumns ∨ s.NothingComplete

/-- The publication of a session is refused. -/
def PublicationRefused (s : Session) : Prop :=
  s.generation = uint64Max ∨ s.env.allocate.1 = false ∨
    (s.config.boundedResultSlots && s.poolOverflows) = true

/-- A call that failed has left the lifecycle as it was: the state, the length, the end of input, the
generation, the results, the complete columns; and the call can be made again with the same outcome. -/
structure RolledBack (call : Session → Status × Session) (s s' : Session) : Prop where
  state : s'.state = s.state
  totalFrames : s'.config.totalFrames = s.config.totalFrames
  endOfInput : s'.endOfInput = s.endOfInput
  generation : s'.generation = s.generation
  results : s'.results = s.results
  complete : s'.overview.accumulators.map Accumulator.complete =
    s.overview.accumulators.map Accumulator.complete
  completeCount : s'.overview.completeCount = s.overview.completeCount
  retry : ∀ env, call { s' with env := env } = call { s with env := env }

/-! ## Failed publications -/

/-- The session after a refused publication, with its columns kept or forgotten. -/
def Left (s s' : Session) : Prop :=
  ∃ env, (s.KeepsColumns ∧ s' = { s with env := env }) ∨
    ¬ s.KeepsColumns ∧ s' = { s.markPublicationPending with env := env }

variable {s s' : Session} {code : ErrorCode}

theorem publish_refused_iff {mask : FeatureMask} :
    (s.publish mask).1 ≠ .ok ↔ s.PublicationRefused := by
  unfold publish PublicationRefused
  by_cases hlast : s.generation = uint64Max
  · simp [hlast]
  rw [if_neg hlast]
  cases hask : s.env.allocate with
  | mk granted env =>
      cases granted
      · by_cases hbounded : s.config.boundedResultSlots = true
        · simp [hbounded]
        · simp [hbounded]
      · have hfits : poolOverflows { s with env := env } = s.poolOverflows := rfl
        by_cases hover : (s.config.boundedResultSlots && s.poolOverflows) = true
        · simp [hfits, hover]
        · simp [hfits, hover, hlast]

theorem publish_left (h : s.publish ∅ = (.error code, s')) : s.Left s' := by
  unfold publish at h
  by_cases hlast : s.generation = uint64Max
  · rw [if_pos hlast] at h
    obtain ⟨-, rfl⟩ := Prod.mk.inj h
    exact ⟨s.env, .inl ⟨.inl hlast, rfl⟩⟩
  rw [if_neg hlast] at h
  cases hask : s.env.allocate with
  | mk granted env =>
      rw [hask] at h
      refine ⟨env, ?_⟩
      by_cases hbounded : s.config.boundedResultSlots = true
      · refine .inl ⟨.inr hbounded, ?_⟩
        cases granted
        · simp only [if_pos hbounded, Finset.notMem_empty, if_false] at h
          exact (Prod.mk.inj h).2.symm
        · simp only at h
          split_ifs at h
          · exact (Prod.mk.inj h).2.symm
          · cases (Prod.mk.inj h).1
      · refine .inr ⟨fun hkeeps => hkeeps.elim hlast hbounded, ?_⟩
        cases granted
        · simp only [if_neg hbounded] at h
          exact (Prod.mk.inj h).2.symm
        · simp only [Bool.not_eq_true] at h hbounded
          rw [hbounded, Bool.false_and, if_neg Bool.false_ne_true] at h
          cases (Prod.mk.inj h).1

/-- What a refused publication leaves is rolled back exactly when it was refused cleanly. -/
theorem Left.rolledBack_iff (h : s.Left s') (call : Session → Status × Session) :
    RolledBack call s s' ↔ s.FailsCleanly := by
  obtain ⟨env, ⟨hkeeps, rfl⟩ | ⟨hforgets, rfl⟩⟩ := h
  · exact ⟨fun _ => .inl hkeeps, fun _ => ⟨rfl, rfl, rfl, rfl, rfl, rfl, rfl, fun _ => rfl⟩⟩
  constructor
  · intro hrolled
    refine .inr ⟨hrolled.completeCount.symm, fun acc hmem => ?_⟩
    have hcomplete := hrolled.complete
    simp only [markPublicationPending, List.map_map] at hcomplete
    exact (List.map_inj_left.mp hcomplete acc hmem).symm
  · intro hclean
    obtain ⟨hcount, hmarks⟩ := hclean.resolve_left hforgets
    have hmarked : s.overview.accumulators.map (fun acc => { acc with complete := false }) =
        s.overview.accumulators := by
      refine (List.map_congr_left fun acc hmem => ?_).trans (List.map_id _)
      show { acc with complete := false } = acc
      rw [← hmarks acc hmem]
    have hsame : s.markPublicationPending = s := by
      rw [markPublicationPending, hmarked, ← hcount]
    rw [hsame]
    exact ⟨rfl, rfl, rfl, rfl, rfl, rfl, rfl, fun _ => rfl⟩

/-! ## Failed calls -/

/-- A status of a check is not that of a publication. -/
private theorem not_lacksRoom : ¬ lacksRoom .invalidState ∧ ¬ lacksRoom .conflict ∧
    ¬ lacksRoom .invalidArgument := by
  simp [lacksRoom]

theorem transition_left {new : SessionState} (h : s.transition new = (.error code, s'))
    (hroom : lacksRoom code) : s.Left s' := by
  unfold transition at h
  by_cases hedge : (!transitionAllowed s.state new) = true
  · rw [if_pos hedge] at h
    obtain rfl := Status.error.inj (Prod.mk.inj h).1
    exact absurd hroom not_lacksRoom.1
  rw [if_neg hedge] at h
  by_cases hsame : s.state = new
  · rw [if_pos hsame] at h
    cases (Prod.mk.inj h).1
  rw [if_neg hsame] at h
  cases hpub : publish ∅ { s with state := new } with
  | mk answer moved =>
      rw [hpub] at h
      cases answer with
      | error failure =>
          obtain ⟨env, ⟨hkeeps, rfl⟩ | ⟨hforgets, rfl⟩⟩ := publish_left hpub
          · exact ⟨env, .inl ⟨hkeeps, (Prod.mk.inj h).2.symm⟩⟩
          · exact ⟨env, .inr ⟨hforgets, (Prod.mk.inj h).2.symm⟩⟩
      | _ => cases (Prod.mk.inj h).1

/-- A fresh session is activated exactly when the publication of the active session is granted. -/
theorem activate_refused_iff (hstate : s.state = .created) :
    s.activate.1 ≠ .ok ↔ PublicationRefused { s with state := .active } := by
  rw [← @publish_refused_iff { s with state := .active } ∅, activate, if_pos hstate, transition,
    if_neg (by simp [hstate, transitionAllowed]), if_neg (by simp [hstate])]
  cases publish ∅ { s with state := .active } with
  | mk answer moved => cases answer <;> simp

theorem drainAt_left {finalEnd : ℕ} (hopened : s.endOfInput = none)
    (h : s.drainAt finalEnd = (.error code, s')) (hroom : lacksRoom code) : s.Left s' := by
  have hsame : { s with endOfInput := none } = s := by rw [← hopened]
  unfold drainAt at h
  cases hdrain : (s.ended finalEnd).transition .draining with
  | mk answer after =>
      rw [hdrain] at h
      cases answer with
      | error failure =>
          obtain ⟨hcode, rfl⟩ := Prod.mk.inj h
          obtain rfl := Status.error.inj hcode
          obtain ⟨env, ⟨hkeeps, rfl⟩ | ⟨hforgets, rfl⟩⟩ := transition_left hdrain hroom
          · refine ⟨env, .inl ⟨hkeeps, ?_⟩⟩
            show { { s with endOfInput := none } with env := env } = { s with env := env }
            rw [hsame]
          · refine ⟨env, .inr ⟨hforgets, ?_⟩⟩
            show { markPublicationPending { s with endOfInput := none } with env := env } = _
            rw [hsame]
      | _ => cases (Prod.mk.inj h).1

/-- An end of input that fails for lack of room has come as far as the activation. -/
private theorem endInput_admitted {finalEnd : ℕ} (h : s.endInput finalEnd = (.error code, s'))
    (hroom : lacksRoom code) :
    s.endOfInput = none ∧ (s.state = .created ∨ s.state = .active) ∧
      (match s.activate with
        | (.error code, s) => (.error code, s)
        | (_, s) => s.drainAt finalEnd) = (Status.error code, s') := by
  have hrefused : ∀ {failure : ErrorCode}, ¬ lacksRoom failure →
      (Status.error failure, s) = (Status.error code, s') → False := by
    intro failure hnot heq
    exact hnot (Status.error.inj (Prod.mk.inj heq).1 ▸ hroom)
  unfold endInput at h
  cases hopened : s.endOfInput with
  | some old =>
      rw [hopened] at h
      simp only at h
      by_cases hold : old = finalEnd
      · rw [if_pos hold] at h
        cases (Prod.mk.inj h).1
      · rw [if_neg hold] at h
        exact (hrefused not_lacksRoom.2.1 h).elim
  | none =>
      rw [hopened] at h
      simp only at h
      split_ifs at h
      · exact (hrefused not_lacksRoom.2.1 h).elim
      · exact (hrefused not_lacksRoom.2.1 h).elim
      cases hstate : s.state with
      | created =>
          rw [hstate] at h
          exact ⟨rfl, .inl rfl, h⟩
      | active =>
          rw [hstate] at h
          exact ⟨rfl, .inr rfl, h⟩
      | _ =>
          rw [hstate] at h
          exact (hrefused not_lacksRoom.1 h).elim

/-- An end of input that fails for lack of room has failed at the first publication it made, or has
activated a fresh session before it failed. -/
theorem endInput_left {finalEnd : ℕ} (h : s.endInput finalEnd = (.error code, s'))
    (hroom : lacksRoom code) :
    s.Left s' ∧ (s.state = .created → PublicationRefused { s with state := .active }) ∨
      s.state = .created ∧ ¬ PublicationRefused { s with state := .active } ∧
        s'.state = .active := by
  obtain ⟨hopened, hstate, hgo⟩ := endInput_admitted h hroom
  by_cases hfresh : s.state = .created
  · have hrefused := activate_refused_iff hfresh
    cases hactivate : s.activate with
    | mk answer t =>
        rw [hactivate] at hgo hrefused
        obtain ⟨rfl, hactive⟩ | ⟨⟨failure, hlacks, rfl⟩, -, -⟩ := activate_cases hactivate
        · obtain ⟨env, hleft⟩ := drainAt_left (hactive.endOfInput.trans hopened) hgo hroom
          have hstate' : t.state = .active := hactive.state (.inl hfresh)
          refine .inr ⟨hfresh, fun hnot => absurd rfl (hrefused.mpr hnot), ?_⟩
          obtain ⟨-, rfl⟩ | ⟨-, rfl⟩ := hleft <;> exact hstate'
        · obtain ⟨-, rfl⟩ := Prod.mk.inj hgo
          rw [activate, if_pos hfresh] at hactivate
          exact .inl ⟨transition_left hactivate hlacks, fun _ => hrefused.mp (by simp)⟩
  · rw [activate, if_neg hfresh] at hgo
    exact .inl ⟨drainAt_left hopened hgo hroom, fun heq => absurd heq hfresh⟩

/-- When the publication of a lifecycle call fails, the call is rolled back exactly when the failure
costs no complete column, and the end of input has not activated a fresh session. -/
theorem failure_rolledBack_iff (s : Session) (finalEnd : ℕ) (new : SessionState) :
    (∀ signal, signal = endInput finalEnd ∨ signal = signalEndOfInput finalEnd →
      ∀ code, lacksRoom code → (signal s).1 = .error code →
        (RolledBack signal s (signal s).2 ↔ s.FailsCleanly ∧
          (s.state = .created → PublicationRefused { s with state := .active }))) ∧
    ∀ code, lacksRoom code → (s.transition new).1 = .error code →
      (RolledBack (transition new) s (s.transition new).2 ↔ s.FailsCleanly) := by
  have hended : ∀ (call : Session → Status × Session) {code : ErrorCode} {after : Session},
      lacksRoom code → s.endInput finalEnd = (.error code, after) →
        (RolledBack call s after ↔ s.FailsCleanly ∧
          (s.state = .created → PublicationRefused { s with state := .active })) := by
    intro call code after hroom h
    obtain ⟨hleft, hrefused⟩ | ⟨hfresh, hgranted, hactive⟩ := endInput_left h hroom
    · rw [hleft.rolledBack_iff]
      exact ⟨fun hclean => ⟨hclean, hrefused⟩, And.left⟩
    · refine ⟨fun hrolled => ?_, fun hcond => absurd (hcond.2 hfresh) hgranted⟩
      have hstate := hrolled.state
      rw [hactive, hfresh] at hstate
      cases hstate
  constructor
  · rintro signal (rfl | rfl) code hroom hfails
    · exact hended _ hroom (Prod.ext hfails rfl)
    · refine hended _ hroom ?_
      rw [← hfails]
      unfold signalEndOfInput at hfails ⊢
      split_ifs at hfails ⊢
      · exact absurd (Status.error.inj hfails ▸ hroom) not_lacksRoom.2.2
      · exact absurd (Status.error.inj hfails ▸ hroom) not_lacksRoom.1
      · rfl
  · intro code hroom hfails
    exact (transition_left (Prod.ext hfails rfl) hroom).rolledBack_iff _

/-- A call that ends the input, on a platform that answers the allocator like this. -/
def endingCall (allocations : List Bool) : Call := ⟨.signalEndOfInput 64, allocations, []⟩

/-- A fresh session that is refused its first publication is as before. -/
theorem failure_rolledBack_fresh : ∃ s : Session, Created s ∧
    RolledBack (signalEndOfInput 64) (s.withPlatform (endingCall [false]))
      ((s.withPlatform (endingCall [false])).signalEndOfInput 64).2 := by
  obtain ⟨s, hs⟩ : ∃ s, create (smallConfig {.waveformOverview} none) seriesLibm false
      plainPlatform = (.ok, some s) := ⟨_, rfl⟩
  have hfacts : ((create (smallConfig {.waveformOverview} none) seriesLibm false
      plainPlatform).2.map fun s => (s.overview.completeCount, s.overview.accumulators,
        ((s.withPlatform (endingCall [false])).signalEndOfInput 64).1)) =
      some (0, [], .error .outOfMemory) := by decide +kernel
  rw [hs] at hfacts
  simp only [Option.map_some, Option.some.injEq, Prod.mk.injEq] at hfacts
  obtain ⟨hcount, haccumulators, hstatus⟩ := hfacts
  refine ⟨s, ⟨_, _, _, _, hs⟩, ((failure_rolledBack_iff (s.withPlatform (endingCall [false])) 64
    .active).1 (signalEndOfInput 64) (.inr rfl) .outOfMemory (.inr (.inr rfl)) hstatus).mpr
      ⟨.inr ⟨hcount, fun acc hmem => ?_⟩, fun _ => .inr (.inl rfl)⟩⟩
  have hmem' : acc ∈ s.overview.accumulators := hmem
  rw [haccumulators] at hmem'
  exact absurd hmem' List.not_mem_nil

/-- A seeded session that is refused memory forgets its complete column, and a fresh one that is granted
one publication and refused the next stays active. -/
theorem failure_not_rolledBack : ∃ s t : Session, Created s ∧
    run [plainCall (.seedFromResult oneColumnResult)] s = some t ∧
    ((t.withPlatform (endingCall [false])).signalEndOfInput 64).1 = .error .outOfMemory ∧
    ¬ RolledBack (signalEndOfInput 64) (t.withPlatform (endingCall [false]))
      ((t.withPlatform (endingCall [false])).signalEndOfInput 64).2 ∧
    ((s.withPlatform (endingCall [true, false])).signalEndOfInput 64).1 = .error .outOfMemory ∧
    ¬ RolledBack (signalEndOfInput 64) (s.withPlatform (endingCall [true, false]))
      ((s.withPlatform (endingCall [true, false])).signalEndOfInput 64).2 := by
  obtain ⟨s, hs⟩ : ∃ s, create (smallConfig {.waveformOverview} none) seriesLibm false
      plainPlatform = (.ok, some s) := ⟨_, rfl⟩
  have hseeded : ((create (smallConfig {.waveformOverview} none) seriesLibm false
      plainPlatform).2.bind (run [plainCall (.seedFromResult oneColumnResult)])).map (fun t =>
        (((t.withPlatform (endingCall [false])).signalEndOfInput 64).1, t.overview.completeCount,
          ((t.withPlatform (endingCall [false])).signalEndOfInput 64).2.overview.completeCount)) =
      some (.error .outOfMemory, 1, 0) := by decide +kernel
  have hfresh : ((create (smallConfig {.waveformOverview} none) seriesLibm false
      plainPlatform).2.map fun s =>
        (((s.withPlatform (endingCall [true, false])).signalEndOfInput 64).1, s.state,
          ((s.withPlatform (endingCall [true, false])).signalEndOfInput 64).2.state)) =
      some (.error .outOfMemory, .created, .active) := by decide +kernel
  rw [hs] at hseeded hfresh
  obtain ⟨t, hrun, hseeded⟩ := Option.map_eq_some_iff.mp hseeded
  simp only [Option.map_some, Option.some.injEq, Prod.mk.injEq] at hseeded hfresh
  obtain ⟨hstatus, hbefore, hafter⟩ := hseeded
  obtain ⟨hstatus', hcreated, hactive⟩ := hfresh
  refine ⟨s, t, ⟨_, _, _, _, hs⟩, hrun, hstatus, fun hrolled => ?_, hstatus', fun hrolled => ?_⟩
  · have hcount : _ = t.overview.completeCount := hrolled.completeCount
    omega
  · have hstate : _ = s.state := hrolled.state
    rw [hactive, hcreated] at hstate
    cases hstate

end Session

end LibApta
