import LibApta.Beatgrid.Refresh

/-!
# What a refresh of the global grid writes

A commit drafts the grid and then gives the draft its revision; `commitGrid_eq` takes the two steps
apart. A pass of the refresh searches, which leaves the committed grid alone, and may then commit
(`refreshPass_cases`).
-/

namespace LibApta

namespace S6State

variable (ctx : GlobalContext) (sweep : WindowSweep) (s : S6State)

/-- The state a generation commits. -/
def draftState : FeatureState :=
  committedState ctx.analysis (sweep.evidenceFirst, sweep.evidenceEnd)
    (if sweep.validConfidenceCount = 0 then confidenceUnknown
      else sweep.totalConfidence / sweep.validConfidenceCount)

/-- The segments a generation commits, before their beats are counted out. -/
def draftSegments : List GridSegment :=
  (clampLast ctx.analysis.endOfInput (sweep.segments.map Prod.fst)).map
    (commitSegment ctx.analysis (draftState ctx sweep)
      (decide (1 < (sweep.segments.map Prod.fst).length)) sweep.degraded)

/-- The representation a generation commits. -/
def draftRepresentation : GridRepresentation :=
  if Feature.dynamicTempo ∈ ctx.analysis.requestedFeatures ∨
      decide (1 < (sweep.segments.map Prod.fst).length) then .hybrid
  else .segments

/-- The flags of the grid a generation commits. -/
def draftFlags : ℕ :=
  (if decide (1 < (sweep.segments.map Prod.fst).length) then gridFlagDynamicTempo else 0) |||
    (if sweep.degraded then gridFlagDegraded else 0)

/-- The beats of the segments a generation commits. -/
def draftBeats : Status × GeneratedBeats :=
  if draftRepresentation ctx sweep = .segments then
    (Status.ok, ⟨draftSegments ctx sweep, [], draftFlags sweep⟩)
  else generateBeats (draftSegments ctx sweep) ⟨[], [], draftFlags sweep⟩

/-- The estimator with the grid of a generation drafted over the committed one. -/
def draft : S6State :=
  let evidence := evidenceFrames ctx.analysis.endOfInput (sweep.evidenceFirst, sweep.evidenceEnd)
  { s with
    segments := (draftBeats ctx sweep).2.segments
    beats := if (draftBeats ctx sweep).1.failed then [] else (draftBeats ctx sweep).2.beats
    flags := (draftBeats ctx sweep).2.flags
    confidence :=
      if sweep.validConfidenceCount = 0 then confidenceUnknown
      else sweep.totalConfidence / sweep.validConfidenceCount
    state := draftState ctx sweep
    hasDynamicTempo := decide (1 < (sweep.segments.map Prod.fst).length)
    representation := draftRepresentation ctx sweep
    requestedRange := ⟨0, match ctx.totalFrames with
      | some total => total
      | none => sweep.evidenceEnd * globalFramesPerBin⟩
    evidenceRange := evidence
    applicabilityRange := evidence
    coverageRange := evidence }

/-- The signature of a drafted grid. -/
def draftSignature : ℕ :=
  gridSignature (draft ctx sweep s).segments (draft ctx sweep s).beats.length
    (draftRepresentation ctx sweep)

/-- The revision of a grid of a signature. -/
def nextRevisionId (signature : ℕ) : ℕ :=
  if s.revisionId = 0 then 1
  else if signature ≠ s.signature then (s.revisionId + 1) % 4294967296 else s.revisionId

/-- The revision before that of a grid of a signature. -/
def nextPreviousRevisionId (signature : ℕ) : ℕ :=
  if s.revisionId = 0 then 0
  else if signature ≠ s.signature then s.revisionId else s.previousRevisionId

/-- The draft with its revision numbers. -/
def numbered : S6State :=
  { draft ctx sweep s with
    revisionId := nextRevisionId s (draftSignature ctx sweep s)
    previousRevisionId := nextPreviousRevisionId s (draftSignature ctx sweep s) }

/-- The segments of a draft, with the revision. -/
def stampedSegments : List GridSegment :=
  (numbered ctx sweep s).segments.map fun segment =>
    { segment with revision := (numbered ctx sweep s).revisionId }

/-- The beats of a draft, with the revision. -/
def stampedBeats : List Beat :=
  (numbered ctx sweep s).beats.map fun beat =>
    { beat with revision := (numbered ctx sweep s).revisionId }

/-- The revision record of a draft. -/
def draftRevision : GridRevision where
  revisionId := (numbered ctx sweep s).revisionId
  previousRevisionId := (numbered ctx sweep s).previousRevisionId
  state := if lockedConflict ctx (stampedSegments ctx sweep s) then .pending else .applied
  confidence := (draft ctx sweep s).confidence
  affectedRange :=
    match lockedConflict ctx (stampedSegments ctx sweep s), ctx.localEstimate with
    | true, some estimate => estimate.segment.applicabilityRange
    | _, _ => evidenceFrames ctx.analysis.endOfInput (sweep.evidenceFirst, sweep.evidenceEnd)
  proposedRepresentation := draftRepresentation ctx sweep
  proposedSegmentCount := (stampedSegments ctx sweep s).length
  proposedBeatCount := (stampedBeats ctx sweep s).length
  flags :=
    (if decide (1 < (sweep.segments.map Prod.fst).length) then revisionFlagDynamicTempo else 0) |||
      (if sweep.degraded then revisionFlagDegraded else 0) |||
      (if lockedConflict ctx (stampedSegments ctx sweep s) then revisionFlagConflictsLockedRange
        else 0)

/-- The draft with its revision. -/
def revised : S6State :=
  { numbered ctx sweep s with
    segments := stampedSegments ctx sweep s
    beats := stampedBeats ctx sweep s
    revision := draftRevision ctx sweep s
    revisionPending := lockedConflict ctx (stampedSegments ctx sweep s)
    signature := draftSignature ctx sweep s
    hasGlobalGrid := true
    mutationSerial :=
      if draftSignature ctx sweep s ≠ s.signature ∨ s.state ≠ draftState ctx sweep ∨
          s.revision.state ≠ (draftRevision ctx sweep s).state ∨ s.mutationSerial = 0 then
        s.mutationSerial + 1
      else s.mutationSerial }

/-- A commit fails for the beats of its draft or for want of a revision number. -/
theorem commitGrid_eq :
    commitGrid ctx sweep s =
      if (draftBeats ctx sweep).1.failed then
        ((draftBeats ctx sweep).1, draft ctx sweep s, widestTempo (sweep.segments.map Prod.fst))
      else if (numbered ctx sweep s).revisionId = 0 then
        (.error .limitExceeded, numbered ctx sweep s, widestTempo (sweep.segments.map Prod.fst))
      else (.ok, revised ctx sweep s, widestTempo (sweep.segments.map Prod.fst)) := rfl

/-! ## Passes -/

/-- A search has changed the state of a search and nothing of the committed grid. -/
def Searches (s s' : S6State) : Prop :=
  ∃ flux fluxBaseBin refreshedEvidenceEnd sweep pending, s' = { s with
    flux := flux
    fluxBaseBin := fluxBaseBin
    refreshedEvidenceEnd := refreshedEvidenceEnd
    sweep := sweep
    pending := pending }

variable {ctx s} {sweep : WindowSweep}

theorem Searches.refl (s : S6State) : Searches s s := ⟨_, _, _, _, _, rfl⟩

theorem Searches.trans {s' s'' : S6State} (h : Searches s s') (h' : Searches s' s'') :
    Searches s s'' := by
  obtain ⟨_, _, _, _, _, rfl⟩ := h
  obtain ⟨_, _, _, _, _, rfl⟩ := h'
  exact ⟨_, _, _, _, _, rfl⟩

theorem sweepLoop_searches (ctx : AnalysisContext) (limit fuel : ℕ) (sweep : WindowSweep)
    (steps : ℕ) (env : Environment) (s : S6State) :
    Searches s (sweepLoop ctx limit fuel sweep s steps env).2.1 := by
  induction fuel generalizing sweep s steps env with
  | zero => exact .refl s
  | succ fuel ih =>
      have hwindow : Searches s (sweepWindow ctx sweep s).2 := ⟨_, _, _, _, _, rfl⟩
      unfold sweepLoop
      split_ifs
      · simp only
        split
        · exact hwindow
        · exact hwindow.trans (ih _ _ _ _)
      · exact .refl s

/-- A generation that does not start leaves the search as it finds it, or due. -/
theorem startSweep_error {limit : ℕ} {status : Status} {s' : S6State}
    (h : startSweep ctx limit s = .error (status, s')) : Searches s s' := by
  unfold startSweep at h
  simp only at h
  split at h
  · obtain ⟨-, rfl⟩ := Prod.mk.inj (Except.error.inj h)
    exact ⟨_, _, _, _, _, rfl⟩
  · split_ifs at h
    all_goals
      obtain ⟨-, rfl⟩ := Prod.mk.inj (Except.error.inj h)
      exact ⟨_, _, _, _, _, rfl⟩

theorem startSweep_ok {limit : ℕ} {s' : S6State} (h : startSweep ctx limit s = .ok (sweep, s')) :
    Searches s s' := by
  unfold startSweep at h
  simp only at h
  split at h
  · cases h
  · split_ifs at h
    all_goals
      obtain ⟨-, rfl⟩ := Prod.mk.inj (Except.ok.inj h)
      exact ⟨_, _, _, _, _, rfl⟩

/-- The state a pass hands on, to the next pass or to its result. -/
def passState (outcome : RefreshCall ⊕ RefreshResult) : S6State :=
  outcome.elim RefreshCall.state RefreshResult.state

theorem resumeSweep_cases (ctx : GlobalContext) (call : RefreshCall) (steps : ℕ)
    (sweep : WindowSweep) (s : S6State) :
    Searches s (passState (resumeSweep ctx call steps sweep s)) ∨
      ∃ done searched, Searches s searched ∧
        passState (resumeSweep ctx call steps sweep s) = (commitGrid ctx done searched).2.1 := by
  have hloop := sweepLoop_searches ctx.analysis call.limit (sweep.evidenceEnd - sweep.nextWindow)
    sweep steps call.env s
  unfold resumeSweep
  generalize sweepLoop ctx.analysis call.limit (sweep.evidenceEnd - sweep.nextWindow) sweep s steps
    call.env = done at hloop ⊢
  obtain ⟨sweep, after, steps, env⟩ := done
  have hclosed : Searches s (closeSweep ctx (addFallback ctx sweep) after) :=
    hloop.trans ⟨_, _, _, _, _, rfl⟩
  simp only
  split
  · exact .inl (hloop.trans ⟨_, _, _, _, _, rfl⟩)
  split
  · exact .inl hclosed
  refine .inr ⟨addFallback ctx sweep, _, hclosed, ?_⟩
  split
  · next heq => split_ifs <;> exact congrArg (fun outcome => outcome.2.1) heq.symm
  · next heq => exact congrArg (fun outcome => outcome.2.1) heq.symm

/-- A pass searches, and may then commit. -/
theorem refreshPass_cases (ctx : GlobalContext) (call : RefreshCall) :
    Searches call.state (passState (refreshPass ctx call)) ∨
      ∃ done searched, Searches call.state searched ∧
        passState (refreshPass ctx call) = (commitGrid ctx done searched).2.1 := by
  unfold refreshPass
  split
  · exact resumeSweep_cases ctx call 0 _ call.state
  split
  · next heq => exact .inl (startSweep_error heq)
  · next heq =>
      have hstart := startSweep_ok heq
      refine (resumeSweep_cases ctx call 1 _ _).imp hstart.trans ?_
      rintro ⟨done, searched, hsearched, hcommit⟩
      exact ⟨done, searched, hstart.trans hsearched, hcommit⟩

/-- What searching and committing keep, a refresh keeps. -/
theorem refresh_invariant {P : S6State → Prop}
    (hsearch : ∀ {s s' : S6State}, Searches s s' → P s → P s')
    (hcommit : ∀ {s : S6State} sweep, P s → P (commitGrid ctx sweep s).2.1) {limit nominalTempo : ℕ}
    {env : Environment} {result : RefreshResult}
    (h : refresh ctx limit s nominalTempo env = some result) (hs : P s) : P result.state := by
  refine TailCall.run_elim (P := fun call => P call.state) (Q := fun result => P result.state)
    (fun call hcall => ?_) h hs
  have hpass : P (passState (refreshPass ctx call)) := by
    rcases refreshPass_cases ctx call with hsearched | ⟨done, searched, hsearched, heq⟩
    · exact hsearch hsearched hcall
    · rw [heq]
      exact hcommit done (hsearch hsearched hcall)
  cases hout : refreshPass ctx call <;> rwa [hout] at hpass

end S6State

end LibApta
