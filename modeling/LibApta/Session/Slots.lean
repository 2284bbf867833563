import LibApta.Lib.Pointwise
import LibApta.Session.Settings

/-!
# What a call makes of a slot

The table keeps its slots in place: a call leaves a slot, writes a free one, cancels one, or gives it a
verdict. Every invariant of the table is a case analysis over these.
-/

namespace LibApta

namespace Session

/-! ## The verdicts of a call -/

/-- The session that the layers of a process call find: after the pull adapter in a pull session. -/
def layersEntry (source : PullSource) (budget : WorkBudget) (s : Session) : Session :=
  if s.config.inputMode = .pull ∧ !s.cancelRequested then (s.pullPcm source budget).2 else s

/-- A call from a session gives verdicts in another one: a process call, when its chunk loop is
through. -/
def JudgesIn (call : Call) (s judged : Session) : Prop :=
  ∃ source budget state, call.op = .process source budget ∧
    ChunksDone budget
      (((s.withPlatform call).layersEntry source budget).started budget).chunkEntry state ∧
    judged = (((s.withPlatform call).layersEntry source budget).started budget).decided state

/-- A process call stops after the pull adapter, or runs its layers from there. -/
theorem process_entry {source : PullSource} {budget : WorkBudget} {s s' : Session} {status : Status}
    {progress : Progress} (h : s.process source budget = some (status, progress, s')) :
    s' = s.layersEntry source budget ∨
      (s.layersEntry source budget).processImpl budget = some (status, progress, s') := by
  unfold process at h
  unfold layersEntry
  split_ifs at h ⊢
  · cases hpull : s.pullPcm source budget with
    | mk answer t =>
        rw [hpull] at h
        cases answer
        case error code =>
          simp only [Option.some.injEq, Prod.mk.injEq] at h
          exact .inl h.2.2.symm
        all_goals exact .inr h
  · exact .inr h

/-- The pull adapter ages requests at most. -/
theorem layersEntry_unskipped (source : PullSource) (budget : WorkBudget) (s : Session) :
    (s.layersEntry source budget).requests.map Request.unskipped =
      s.requests.map Request.unskipped := by
  unfold layersEntry
  split_ifs
  · rcases pullPcm_requests source budget s with h | ⟨token, h⟩
    · rw [h]
    · rw [h, noteChoice_unskipped]
  · rfl

/-- The verdict of the overview layer does not look at the counter. -/
theorem baseVerdict_unskipped (s : Session) (request : Request) :
    (s.baseVerdict request.unskipped).state = (s.baseVerdict request).state := by
  show (s.updateRequestState (request.unskipped.mapMask stagedMask)).state =
    (s.updateRequestState (request.mapMask stagedMask)).state
  unfold updateRequestState
  by_cases hwants : (request.mapMask stagedMask).wantsFeature .waveformOverview = true
  · have hwants' : (request.unskipped.mapMask stagedMask).wantsFeature .waveformOverview = true :=
      hwants
    rw [if_pos hwants, if_pos hwants']
    rfl
  · have hwants' : ¬(request.unskipped.mapMask stagedMask).wantsFeature .waveformOverview = true :=
      hwants
    rw [if_neg hwants, if_neg hwants']
    rfl

/-- The verdicts of both layers do not look at the counter. -/
theorem bothVerdicts_unskipped (s : Session) (request : Request) :
    (s.bothVerdicts request.unskipped).state = (s.bothVerdicts request).state := by
  have hshown : ((s.baseVerdict request.unskipped).mapMask (withOverview s4Features)) =
      ((s.baseVerdict request).mapMask (withOverview s4Features)).unskipped := by
    unfold baseVerdict at *
    rw [show (s.updateRequestState (request.unskipped.mapMask stagedMask)).state =
      (s.updateRequestState (request.mapMask stagedMask)).state from baseVerdict_unskipped s request]
    rfl
  show (s.updateDetailRequestState _).state = (s.updateDetailRequestState _).state
  rw [hshown, updateDetailRequestState_unskipped]
  rfl

/-! ## One slot -/

/-- What a call makes of a slot. -/
inductive SlotChange (call : Call) (s : Session) (old new : Request) : Prop
  | kept (hentry : new.entry = old.entry) (hstate : new.state = old.state)
  | cleared (hfree : old.requestId = 0) (hnew : new = .empty)
  | entered {request : RegionRequest} {requestId serial : ℕ} (hfree : old.requestId = 0)
      (hop : call.op = .requestRegion request)
      (hnew : new = ⟨requestId, { request with requestId := requestId }, .queued, 0, serial⟩)
  | cancelled (hentry : new.entry = old.entry) (hop : call.op = .cancelRegionRequest old.requestId)
      (hstate : new.state = .cancelled)
  | base {judged : Session} (hentry : new.entry = old.entry) (h : JudgesIn call s judged)
      (hrefused : judged.PublishRefused) (hstate : new.state = (judged.baseVerdict old).state)
  | both {judged : Session} (hentry : new.entry = old.entry) (h : JudgesIn call s judged)
      (hstate : new.state = (judged.bothVerdicts old).state)

/-- Slots that agree but for their counters. -/
theorem SlotChange.of_unskipped {call : Call} {s : Session} {old new : Request}
    (h : new.unskipped = old.unskipped) : SlotChange call s old new := by
  have hentry : new.unskipped.entry = old.unskipped.entry := by rw [h]
  have hstate : new.unskipped.state = old.unskipped.state := by rw [h]
  exact .kept hentry hstate

/-- A process call leaves every slot, or gives every slot its verdict. -/
theorem process_slots {call : Call} {source : PullSource} {budget : WorkBudget} {s s' : Session}
    {status : Status} {progress : Progress} (hop : call.op = .process source budget)
    (h : (s.withPlatform call).process source budget = some (status, progress, s')) :
    List.Forall₂ (SlotChange call s) s.requests s'.requests := by
  have hentry := layersEntry_unskipped source budget (s.withPlatform call)
  have haged : List.Forall₂ (fun old new => new.unskipped = old.unskipped) s.requests
      ((s.withPlatform call).layersEntry source budget).requests := Pointwise.of_map_eq hentry
  have hkept := haged.imp fun old new => @SlotChange.of_unskipped call s old new
  rcases process_entry h with rfl | himpl
  · exact hkept
  rcases processImpl_judged himpl with ⟨-, hsame⟩ | ⟨state, hdone, hverdicts⟩
  · rw [hsame]
    exact hkept
  have hjudges : JudgesIn call s ((((s.withPlatform call).layersEntry source budget).started
      budget).decided state) := ⟨source, budget, state, hop, hdone, rfl⟩
  -- A slot that has only aged gets the verdict of the slot before.
  have haged' : ∀ {old aged : Request}, aged.unskipped = old.unskipped → aged.entry = old.entry := by
    intro old aged hsame
    have hentry : aged.unskipped.entry = old.unskipped.entry := by rw [hsame]
    exact hentry
  generalize s'.requests = requests at hverdicts
  generalize ((((s.withPlatform call).layersEntry source budget).started budget).decided state) =
    judged at hverdicts hjudges
  cases hverdicts with
  | base hrefused =>
      refine Pointwise.trans (fun old aged new hsame hnew => ?_) haged (Pointwise.to_map
        (R := fun aged new => new = judged.baseVerdict aged) fun _ _ => rfl)
      subst hnew
      have hentry : aged.entry = old.entry := haged' hsame
      refine .base hentry hjudges hrefused ?_
      rw [← baseVerdict_unskipped _ old, ← hsame, baseVerdict_unskipped]
  | both hboth =>
      rw [List.map_map] at hboth
      refine Pointwise.trans (fun old aged new hsame hnew => ?_) haged (Pointwise.of_map_eq hboth)
      replace hnew : new.unskipped = (judged.bothVerdicts aged).unskipped := hnew
      have hentry : new.unskipped.entry = aged.entry := by rw [hnew]; rfl
      have hstate : new.unskipped.state = (judged.bothVerdicts aged).state := by rw [hnew]; rfl
      refine .both (hentry.trans (haged' hsame)) hjudges (hstate.trans ?_)
      rw [← bothVerdicts_unskipped _ old, ← hsame, bothVerdicts_unskipped]

/-- What entering a request does, slot by slot. -/
theorem Enters.slots {call : Call} {s : Session} {request : RegionRequest}
    {requests requests' : List Request} (h : Enters request requests requests')
    (hop : call.op = .requestRegion request) :
    List.Forall₂ (SlotChange call s) requests requests' := by
  have hrefl : ∀ slot ∈ requests, SlotChange call s slot slot := fun _ _ => .kept rfl rfl
  cases h with
  | kept => exact List.forall₂_same.mpr hrefl
  | cleared hold hfree => exact Pointwise.set hrefl hold (.cleared hfree rfl)
  | entered hold hfree => exact Pointwise.set hrefl hold (.entered hfree hop rfl)

/-- Every call changes the table slot by slot. -/
theorem step_slots {call : Call} {s s' : Session} (h : step call s = some s') :
    List.Forall₂ (SlotChange call s) s.requests s'.requests := by
  obtain ⟨⟨status, after⟩, hperform, rfl⟩ := Option.map_eq_some_iff.mp h
  show List.Forall₂ _ (s.withPlatform call).requests after.requests
  have hsame : ∀ {requests : List Request},
      requests.map Request.unskipped = (s.withPlatform call).requests.map Request.unskipped →
        List.Forall₂ (SlotChange call s) (s.withPlatform call).requests requests :=
    fun heq => (Pointwise.of_map_eq heq).imp fun _ _ => .of_unskipped
  by_cases hkeeps : keepsRequests call.op = true
  · rw [perform_requests hkeeps hperform]
    exact hsame rfl
  cases hop : call.op
  case requestRegion request =>
    rw [hop] at hperform
    have heq : ((s.withPlatform call).requestRegion request).2.2 = after :=
      congrArg Prod.snd (Option.some.inj hperform)
    rw [← heq]
    exact (requestRegion_enters request _).slots hop
  case cancelRegionRequest requestId =>
    rw [hop] at hperform
    have heq : ((s.withPlatform call).cancelRegionRequest requestId).2 = after :=
      congrArg Prod.snd (Option.some.inj hperform)
    rw [← heq]
    rcases cancelRegionRequest_requests requestId (s.withPlatform call) with
      hkept | ⟨slot, old, hold, rfl, hcancelled⟩
    · rw [hkept]
      exact hsame rfl
    · rw [hcancelled]
      exact Pointwise.set (fun _ _ => .kept rfl rfl) hold (.cancelled rfl hop rfl)
  case nextPcmRequest =>
    rw [hop] at hperform
    rw [perform_nextPcmRequest hperform, nextPcmRequest_session]
    cases (s.withPlatform call).nextPcmRequest.1 with
    | ok request => exact hsame (noteChoice_unskipped request.requestToken _)
    | error status => exact hsame rfl
  case process source budget =>
    rw [hop] at hperform
    obtain ⟨⟨answer, progress, done⟩, hdone, heq⟩ := Option.map_eq_some_iff.mp hperform
    obtain ⟨-, rfl⟩ := Prod.mk.inj heq
    exact process_slots hop hdone
  all_goals exact absurd (by rw [hop]; rfl) hkeeps

end Session

end LibApta
