import LibApta.Session.Satisfaction

/-!
# The lifecycle of a region request

Identifiers of occupied slots are unique. A slot that is satisfied or cancelled stays so unless a
cancellation names it or the detail layer finds a column of it gone, and no slot ever fails. A request
takes a free slot, and no slot is freed again. The call that completes a session judges every slot on
the overview it leaves behind.
-/

namespace LibApta

/-- The request has come to an end. -/
def Request.IsTerminal (request : Request) : Prop :=
  request.state = .satisfied ∨ request.state = .cancelled ∨ request.state = .failed

theorem isActive_iff {request : Request} :
    request.isActive = true ↔ request.requestId ≠ 0 ∧ ¬request.IsTerminal := by
  unfold Request.isActive Request.IsTerminal
  simp only [Bool.and_eq_true, bne_iff_ne]
  tauto

namespace Session

/-! ## Verdicts on slots that have ended -/

/-- The overview layer leaves a slot that is not active. -/
theorem baseVerdict_inactive {s : Session} {request : Request} (h : ¬request.isActive = true) :
    (s.baseVerdict request).state = request.state := by
  show (s.updateRequestState (request.mapMask stagedMask)).state = _
  unfold updateRequestState
  rw [if_neg]
  · rfl
  · intro hwants
    exact h (Bool.and_eq_true_iff.mp hwants).1

/-- Both layers leave a slot that does not name the detail tiles to the verdict of the first. -/
theorem bothVerdicts_plain {s : Session} {request : Request}
    (h : Feature.waveformDetail ∉ request.request.featureMask) :
    (s.bothVerdicts request).state = (s.baseVerdict request).state := by
  show (s.updateDetailRequestState ((s.baseVerdict request).mapMask (withOverview s4Features))).state =
    _
  unfold updateDetailRequestState
  rw [if_pos]
  · rfl
  · exact .inr (.inr (.inr fun hmem => h (detail_mem_withOverview.mp hmem)))

/-- Both layers leave a slot that has ended, if it is not satisfied for detail columns that are gone. -/
theorem bothVerdicts_terminal {s : Session} {request : Request} (hterminal : request.IsTerminal)
    (hcolumns : request.state = .satisfied → Feature.waveformDetail ∈ request.request.featureMask →
      s.detail.rangeComplete request.request.range.firstFrame
        request.request.range.endFrame = true) :
    (s.bothVerdicts request).state = request.state := by
  have hbase : (s.baseVerdict request).state = request.state :=
    baseVerdict_inactive fun hactive => (isActive_iff.mp hactive).2 hterminal
  by_cases hdetail : Feature.waveformDetail ∈ request.request.featureMask
  swap
  · exact (bothVerdicts_plain hdetail).trans hbase
  show (s.updateDetailRequestState ((s.baseVerdict request).mapMask (withOverview s4Features))).state =
    _
  unfold updateDetailRequestState
  split_ifs with hkept
  · exact hbase
  -- A slot that the detail layer judges is satisfied here.
  rw [not_or, not_or] at hkept
  obtain ⟨-, hcancelled, hfailed⟩ := hkept
  have hsatisfied : request.state = .satisfied := by
    rcases hterminal with h | h | h
    · exact h
    · exact absurd (hbase.trans h) hcancelled
    · exact absurd (hbase.trans h) (not_or.mp hfailed).1
  have hgiven : ((s.baseVerdict request).mapMask (withOverview s4Features)).state = .satisfied :=
    hbase.trans hsatisfied
  have hcomplete : s.detail.rangeComplete
      ((s.baseVerdict request).mapMask (withOverview s4Features)).request.range.firstFrame
      ((s.baseVerdict request).mapMask (withOverview s4Features)).request.range.endFrame = true :=
    hcolumns hsatisfied hdetail
  simp [hgiven, hcomplete, hsatisfied]

/-- A slot that the overview layer leaves active, and that it judges, is not covered. -/
theorem baseVerdict_uncovered {s : Session} {request : Request}
    (hoverview : Feature.waveformOverview ∈ stagedMask request.request.featureMask)
    (h : (s.baseVerdict request).isActive = true) : s.rangeComplete request.request.range = false := by
  by_contra hcomplete
  rw [Bool.not_eq_false] at hcomplete
  have hactive : request.isActive = true := by
    by_contra hidle
    have hsame := baseVerdict_inactive (s := s) hidle
    rw [isActive_iff] at h hidle
    refine hidle ⟨h.1, fun hterminal => h.2 ?_⟩
    unfold Request.IsTerminal at hterminal ⊢
    rwa [hsame]
  have hsatisfied : (s.baseVerdict request).state = .satisfied := by
    show (s.updateRequestState (request.mapMask stagedMask)).state = _
    unfold updateRequestState
    rw [if_pos]
    · exact if_pos hcomplete
    · exact Bool.and_eq_true_iff.mpr ⟨hactive, decide_eq_true hoverview⟩
  exact (isActive_iff.mp h).2 (.inl hsatisfied)

/-! ## Coverage of a session that has completed -/

/-- Some columns complete in a row are complete in every part of the row. -/
theorem columnsComplete_part {accs : List Accumulator} {column last : ℕ}
    (h : columnsComplete accs column last = true) {first end' : ℕ} (hfirst : column ≤ first)
    (hle : first ≤ end') (hend : end' ≤ last) : columnsComplete accs first end' = true := by
  induction accs generalizing column first with
  | nil => cases h
  | cons head rest ih =>
      unfold columnsComplete at h ⊢
      by_cases hbefore : head.columnIndex < column
      · rw [if_pos hbefore] at h
        rw [if_pos (by omega)]
        exact ih h hfirst hle
      rw [if_neg hbefore] at h
      split_ifs at h with hother hlast
      · rw [if_neg (by omega), if_neg (by rwa [show first = column by omega]), if_pos (by omega)]
      · obtain ⟨hindex, hcomplete⟩ : head.columnIndex = column ∧ head.complete = true := by
          simpa using hother
        rcases Nat.eq_or_lt_of_le hfirst with rfl | hlt
        · rw [if_neg (by omega), if_neg hother]
          split_ifs with hsingle
          · rfl
          · exact ih h le_rfl (by omega)
        · rw [if_pos (by omega)]
          exact ih h hlt hle

theorem columnsComplete_forgotten (accs : List Accumulator) (column last : ℕ) :
    columnsComplete (accs.map fun acc => { acc with complete := false }) column last = false := by
  induction accs with
  | nil => rfl
  | cons head rest ih =>
      show (if head.columnIndex < column then _ else _) = false
      split_ifs with _ hother
      · exact ih
      · rfl
      all_goals exact absurd (.inr rfl) hother

/-- A range within a covered length is covered, as far as its last column. -/
theorem rangeComplete_part {s : Session} {length : ℕ} (h : s.rangeComplete ⟨0, length⟩ = true)
    {range : FrameRange} (hne : range.firstFrame < range.endFrame)
    (hend : (range.endFrame - 1) / s.framesPerColumn ≤ (length - 1) / s.framesPerColumn) :
    s.rangeComplete range = true := by
  unfold rangeComplete at h ⊢
  split_ifs at h with hempty hlarge
  simp only at hlarge h
  rw [if_neg (not_le.mpr hne), if_neg (by omega)]
  exact columnsComplete_part h (Nat.zero_le _ |>.trans' (by simp))
    (Nat.div_le_div_right (by omega)) hend

theorem rangeComplete_congr {s s' : Session} (hcolumns : s'.framesPerColumn = s.framesPerColumn)
    (haccs : s'.overview.accumulators = s.overview.accumulators) :
    s'.rangeComplete = s.rangeComplete := by
  funext range
  unfold rangeComplete
  rw [hcolumns, haccs]

theorem SameTrack.framesPerColumn {s s' : Session} (h : SameTrack s s') :
    s'.framesPerColumn = s.framesPerColumn := by
  unfold Session.framesPerColumn
  rw [h.config]

theorem SameTrack.rangeComplete {s s' : Session} (h : SameTrack s s') :
    s'.rangeComplete = s.rangeComplete := rangeComplete_congr h.framesPerColumn h.accumulators

/-- The second session is completed only when the first is, and covers no more then. -/
def Wanes (s s' : Session) : Prop :=
  s'.state = .completed → s.state = .completed ∧
    ∀ range, s'.rangeComplete range = true → s.rangeComplete range = true

namespace Wanes

variable {s t s' : Session}

theorem refl (s : Session) : Wanes s s := fun h => ⟨h, fun _ => id⟩

theorem trans (h : Wanes s t) (h' : Wanes t s') : Wanes s s' := by
  intro hdone
  obtain ⟨hdone', hcover'⟩ := h' hdone
  obtain ⟨hdone'', hcover⟩ := h hdone'
  exact ⟨hdone'', fun range hrange => hcover range (hcover' range hrange)⟩

theorem of_ne (h : s'.state ≠ .completed) : Wanes s s' := fun hdone => absurd hdone h

/-- A session with the state and the columns of another. -/
theorem of_same (hstate : s'.state = s.state) (hcolumns : s'.framesPerColumn = s.framesPerColumn)
    (haccs : s'.overview.accumulators = s.overview.accumulators) : Wanes s s' := by
  refine fun hdone => ⟨hstate.symm.trans hdone, fun range hrange => ?_⟩
  rwa [rangeComplete_congr hcolumns haccs] at hrange

theorem same (h : SameTrack s s') : Wanes s s' := of_same h.state h.framesPerColumn h.accumulators

/-- A session whose marks are forgotten covers nothing. -/
theorem forgotten (s : Session) : Wanes s s.markPublicationPending := by
  refine fun hdone => ⟨hdone, fun range hrange => ?_⟩
  unfold Session.rangeComplete at hrange
  split_ifs at hrange
  exact absurd (hrange.symm.trans (columnsComplete_forgotten _ _ _)) (by simp)

theorem unannounced (h : Unannounced s s') : Wanes s s' := by
  cases h with
  | kept h => exact same h
  | forgotten h => exact (forgotten s).trans (same h)

theorem activated (h : Activated s s') : Wanes s s' := by
  cases h with
  | already => exact refl s
  | first => exact of_ne (fun hdone => by cases hdone)

theorem ended {finalEnd : ℕ} (h : Ended finalEnd s s') : Wanes s s' := by
  cases h with
  | kept h => exact same h
  | unactivated _ h => exact unannounced h
  | unended ht h => exact (activated ht).trans (unannounced h)
  | drained _ _ _ _ h => exact of_ne (fun hdone => by cases h.state.symm.trans hdone)

theorem settled (h : Settled s s') : Wanes s s' := by
  cases h with
  | unannounced h => exact unannounced h
  | failed h => exact of_ne (fun hdone => by cases h.state.symm.trans hdone)

theorem delivered {block : PcmBlock} {n : ℕ} (h : Delivered block s n s') : Wanes s s' := by
  have haccepts : ∀ {n : ℕ}, Accepts block s n s' → Wanes s s' := by
    intro n h
    cases h with
    | none h => exact same h
    | some _ _ h => exact of_same h.state h.framesPerColumn h.accumulators
  cases h with
  | ignored => exact refl s
  | accepted _ h =>
      cases h with
      | base h => exact haccepts h
      | replay _ _ h => exact same h

theorem pulled {source : PullSource} (h : Pulled source s s') : Wanes s s' := by
  cases h with
  | settled ht h => exact (same ht).trans (settled h)
  | exhausted _ ht _ _ h => exact (same ht).trans (ended h)
  | reported _ ht _ _ _ h => exact (same ht).trans (ended h)
  | unactivated ht _ h => exact (same ht).trans (unannounced h)
  | delivered ht _ _ _ _ hactive h hsettled =>
      exact (((same ht).trans (activated hactive)).trans (delivered h)).trans (settled hsettled)

theorem pushed {block : PcmBlock} {n : ℕ} (h : Pushed block s n s') : Wanes s s' := by
  cases h with
  | kept h => exact same h
  | unactivated _ h => exact unannounced h
  | delivered _ _ _ ht h => exact (activated ht).trans (delivered h)

theorem seeded (result : Result) (s : Session) : Wanes s (s.seedFromResult result).2 := by
  by_cases hfresh : s.state = .created
  · have hstate : (s.seedFromResult result).2.state = s.state :=
      SeedFrame.seedFromResult ⟨fun _ _ _ => rfl, fun _ _ => rfl⟩ result s
    exact of_ne fun hdone => by cases hfresh.symm.trans (hstate.symm.trans hdone)
  · have hkept : (s.seedFromResult result).2 = s := by
      unfold seedFromResult seedableView
      rw [if_pos hfresh]
    rw [hkept]
    exact refl s

/-- Only a process call completes a session. -/
theorem outcome {op : Op} (hop : ∀ source budget, op ≠ .process source budget)
    (h : Outcome op s s') : Wanes s s' := by
  cases h with
  | kept _ h => exact same h
  | @announced _ _ t _ _ mask h h' =>
      have hpublished : Wanes t (t.published mask) := of_same rfl rfl rfl
      exact ((same h).trans hpublished).trans (same h')
  | unannounced _ h h' => exact (same h).trans (unannounced h')
  | fixed => exact of_same rfl rfl rfl
  | seeded => exact seeded _ s
  | pushed h => exact pushed h
  | ended _ h => exact ended h
  | @processed source budget => exact absurd rfl (hop source budget)
  | @pulled source budget => exact absurd rfl (hop source budget)
  | @pulledProcessed source budget => exact absurd rfl (hop source budget)

end Wanes

/-! ## The process call that completes a session -/

theorem Announces.state {s s' : Session} (h : Announces s s') : s'.state = s.state := by
  induction h with
  | rest h => exact h.state
  | publish mask h _ ih => exact ih.trans h.state

theorem Announces.rangeComplete {s s' : Session} (h : Announces s s') :
    s'.rangeComplete = s.rangeComplete := by
  induction h with
  | rest h => exact h.rangeComplete
  | @publish _ t _ mask h _ ih =>
      have hpublished : (t.published mask).rangeComplete = t.rangeComplete :=
        rangeComplete_congr rfl rfl
      rw [ih, hpublished, h.rangeComplete]

theorem Unannounced.state {s s' : Session} (h : Unannounced s s') : s'.state = s.state := by
  cases h with
  | kept h => exact h.state
  | forgotten h => exact h.state

/-- The layers of a process call leave the lifecycle alone. -/
theorem Worked.state {budget : WorkBudget} {s s' : Session} {failed : Bool}
    (h : Worked budget s failed s') : s'.state = s.state := by
  cases h with
  | nothing => rfl
  | layers _ h =>
      have hentry : s.chunkEntry.state = s.state := s.chunkEntry_sameTrack.state
      cases h with
      | refused h => exact h.state
      | interrupted _ h => exact h.state.trans hentry
      | announced _ _ h => exact h.state.trans hentry
      | unannounced _ _ h h' => exact (h'.state.trans h.state).trans hentry

/-- Every active slot for the overview, but not for detail tiles, has a range that is not covered. -/
def NothingLeft (s : Session) : Prop :=
  ∀ slot ∈ s.requests, slot.isActive = true → Feature.waveformOverview ∈ slot.request.featureMask →
    Feature.waveformDetail ∉ slot.request.featureMask →
      s.rangeComplete slot.request.range = false

/-- A process call whose layers do not fail has judged every slot on the columns it leaves. -/
theorem runLayers_nothingLeft {budget : WorkBudget} {before : Progress} {s s' : Session} {work : Work}
    (hoverview : s.config.requests .waveformOverview = true)
    (h : s.runLayers budget before = some (work, s')) (hok : work.status.failed = false) :
    s'.NothingLeft := by
  have hworked := runLayers_worked h
  rw [hok] at hworked
  rcases runLayers_judged h with ⟨hstopped, -⟩ | ⟨state, ⟨status, hrun, hthrough⟩, hverdicts⟩
  · rcases hstopped with hfailed | hnone
    · exact absurd hfailed (by simp [hok])
    · exact absurd hoverview (by simp [hnone])
  -- The session published is the one judged.
  have hcovers : s'.rangeComplete = (s.decided state).rangeComplete := by
    cases hworked with
    | nothing hnone => exact absurd hoverview (by simp [hnone])
    | layers _ hlayers =>
        cases hlayers with
        | announced hrun' _ hannounces =>
            rw [hrun] at hrun'
            obtain ⟨-, rfl⟩ := Prod.mk.inj hrun'
            exact hannounces.rangeComplete
  have hverdict : ∀ old new : Request, new.entry = old.entry →
      new.state = ((s.decided state).baseVerdict old).state → new.isActive = true →
      Feature.waveformOverview ∈ new.request.featureMask →
        (s.decided state).rangeComplete new.request.range = false := by
    intro old new hentry hstate hactive hmem
    obtain ⟨hid, hrequest⟩ := request_of_entry hentry
    rw [hrequest] at hmem ⊢
    refine baseVerdict_uncovered (mem_withOverview (mem_withOverview hmem)) ?_
    rw [isActive_iff] at hactive ⊢
    unfold Request.IsTerminal at hactive ⊢
    rw [← hstate]
    exact ⟨hid ▸ hactive.1, hactive.2⟩
  intro slot hmem hactive hoverview' hdetail
  rw [hcovers]
  generalize s'.requests = requests at hverdicts hmem
  cases hverdicts with
  | base =>
      obtain ⟨old, -, rfl⟩ := List.mem_map.mp hmem
      exact hverdict old _ rfl rfl hactive hoverview'
  | both hsame =>
      rw [List.map_map] at hsame
      obtain ⟨old, -, hnew⟩ := Pointwise.exists_left (Pointwise.of_map_eq hsame) hmem
      replace hnew : slot.unskipped = ((s.decided state).bothVerdicts old).unskipped := hnew
      have hentry : slot.unskipped.entry = old.entry := by rw [hnew]; rfl
      have hstate : slot.unskipped.state = ((s.decided state).bothVerdicts old).state := by
        rw [hnew]
        rfl
      refine hverdict old slot hentry (hstate.trans (bothVerdicts_plain ?_)) hactive hoverview'
      exact (request_of_entry hentry).2 ▸ hdetail

/-- Slots that agree but for their counters, on a session that covers no more. -/
theorem NothingLeft.wane {s s' : Session} (h : s.NothingLeft)
    (hcovers : ∀ range, s'.rangeComplete range = true → s.rangeComplete range = true)
    (hsame : s'.requests.map Request.unskipped = s.requests.map Request.unskipped) :
    s'.NothingLeft := by
  intro slot hmem hactive hoverview hdetail
  obtain ⟨old, hold, heq⟩ := Pointwise.exists_left (Pointwise.of_map_eq hsame) hmem
  have hrequest : old.unskipped.request = slot.unskipped.request := by rw [heq]
  have hidle : old.unskipped.isActive = slot.unskipped.isActive := by rw [heq]
  replace hrequest : old.request = slot.request := hrequest
  have hleft := h old hold (hidle.trans hactive) (hrequest ▸ hoverview) (hrequest ▸ hdetail)
  rw [hrequest] at hleft
  by_contra hcomplete
  rw [hcovers _ (Bool.not_eq_false _ ▸ hcomplete)] at hleft
  cases hleft

/-- A process call that ends on a completed session leaves nothing. -/
theorem processImpl_nothingLeft {budget : WorkBudget} {s s' : Session} {status : Status}
    {progress : Progress} (h : s.processImpl budget = some (status, progress, s'))
    (hasked : ∀ slot ∈ s'.requests, Feature.waveformOverview ∈ slot.request.featureMask →
      s'.config.requests .waveformOverview = true)
    (hs : s.state = .completed → s.NothingLeft) (hdone : s'.state = .completed) :
    s'.NothingLeft := by
  have hsettings := settings_frame.processImpl h
  obtain ⟨u, rfl, hu⟩ := processImpl_cases h
  have hwane : Wanes (s.started budget) u → u.requests = s.requests → u.NothingLeft := by
    intro hw hrequests
    obtain ⟨hdone', hcovers⟩ := hw hdone
    refine (hs hdone').wane hcovers ?_
    rw [hrequests]
  show u.NothingLeft
  cases hu with
  | idle => exact hwane (.refl _) rfl
  | cancelled _ hcancel =>
      have hrequests : u.requests = (s.started budget).requests := requests_layer.transition hcancel
      refine hwane ?_ hrequests
      rcases transition_cases hcancel with ⟨-, -, rfl⟩ | ⟨-, -, env, rfl⟩ | ⟨-, hun⟩
      · exact .refl _
      · exact .of_ne fun hstate => by cases hstate
      · exact .unannounced hun.unannounced
  | worked _ hlive hrun =>
      have hstate := (runLayers_worked hrun).state.symm.trans hdone
      rcases hlive with h | h | h <;> cases h.symm.trans hstate
  | @completed _ _ _ t _ _ _ hrun hok hdrains _ hcompleted =>
      rcases transition_cases hcompleted with ⟨-, hsame, -⟩ | ⟨-, -, env, rfl⟩ | ⟨-, hun⟩
      · cases hdrains.symm.trans hsame
      · have hcovers : Session.rangeComplete { published ∅ { t with state := .completed } with env := env }
            = t.rangeComplete := rangeComplete_congr rfl rfl
        by_cases hrequested : (s.started budget).config.requests .waveformOverview = true
        · refine (runLayers_nothingLeft hrequested hrun hok).wane (fun range hrange => ?_) rfl
          rwa [hcovers] at hrange
        · intro slot hmem _ hoverview
          have hrequested' := hasked slot hmem hoverview
          rw [requests_of_settings hsettings] at hrequested'
          exact absurd hrequested' hrequested
      · cases hdrains.symm.trans (hun.unannounced.state.symm.trans hdone)

/-! ## The table between two calls -/

/-- A cancellation names no satisfied slot, a process call finds every column of the slots satisfied for
detail tiles, and a completed session is asked for no more overview. -/
structure KeepsEnds (call : Call) (s : Session) : Prop where
  cancels : ∀ requestId, call.op = .cancelRegionRequest requestId →
    ∀ slot ∈ s.requests, slot.requestId = requestId → slot.state ≠ .satisfied
  columns : ∀ judged, JudgesIn call s judged → ∀ slot ∈ s.requests, slot.state = .satisfied →
    Feature.waveformDetail ∈ slot.request.featureMask →
      judged.detail.rangeComplete slot.request.range.firstFrame slot.request.range.endFrame = true
  enters : ∀ request, call.op = .requestRegion request → s.state = .completed →
    Feature.waveformOverview ∈ request.featureMask → Feature.waveformDetail ∈ request.featureMask

/-- An ended request of the first slot is in the second one, and has ended alike. -/
def EndKept (old new : Request) : Prop :=
  old.requestId ≠ 0 → old.IsTerminal → new.requestId = old.requestId ∧ new.state = old.state

theorem EndKept.trans {a b c : Request} (h : EndKept a b) (h' : EndKept b c) : EndKept a c := by
  intro hid hterminal
  obtain ⟨hid', hstate⟩ := h hid hterminal
  have hterminal' : b.IsTerminal := by
    unfold Request.IsTerminal at hterminal ⊢
    rwa [hstate]
  obtain ⟨hid'', hstate'⟩ := h' (hid' ▸ hid) hterminal'
  exact ⟨hid''.trans hid', hstate'.trans hstate⟩

/-- The table of a session, and what a completed session leaves in it. -/
structure Lifecycle (s : Session) : Prop where
  length : s.requests.length = maxRegionRequests
  ids : UniqueIds s.requests
  unfailed : ∀ slot ∈ s.requests, slot.state ≠ .failed
  asked : ∀ slot ∈ s.requests, Feature.waveformOverview ∈ slot.request.featureMask →
    s.config.requests .waveformOverview = true
  settled : s.state = .completed → s.NothingLeft

namespace Lifecycle

variable {call : Call} {s s' : Session}

/-- An ended slot is left alone by a call that keeps it. -/
theorem endKept (h : Lifecycle s) (hkeeps : KeepsEnds call s) (hstep : step call s = some s') :
    List.Forall₂ EndKept s.requests s'.requests := by
  refine (Pointwise.with_mem (step_slots hstep)).imp fun old new ⟨hold, hchange⟩ hid hterminal => ?_
  cases hchange with
  | kept hentry hstate => exact ⟨(request_of_entry hentry).1, hstate⟩
  | cleared hfree => exact absurd hfree hid
  | entered hfree => exact absurd hfree hid
  | cancelled hentry hop hstate =>
      refine ⟨(request_of_entry hentry).1, hstate.trans ?_⟩
      rcases hterminal with hsatisfied | hcancelled | hfailed
      · exact absurd hsatisfied (hkeeps.cancels _ hop old hold rfl)
      · exact hcancelled.symm
      · exact absurd hfailed (h.unfailed old hold)
  | base hentry _ _ hstate =>
      refine ⟨(request_of_entry hentry).1, hstate.trans (baseVerdict_inactive fun hactive => ?_)⟩
      exact (isActive_iff.mp hactive).2 hterminal
  | both hentry hjudges hstate =>
      exact ⟨(request_of_entry hentry).1, hstate.trans (bothVerdicts_terminal hterminal
        (hkeeps.columns _ hjudges old hold))⟩

/-- No verdict fails a slot. -/
theorem verdict_unfailed (s : Session) {request : Request} (h : request.state ≠ .failed) :
    (s.baseVerdict request).state ≠ .failed ∧ (s.bothVerdicts request).state ≠ .failed := by
  have hbase : ∀ {t : Session} {request : Request}, request.state ≠ .failed →
      (t.updateRequestState request).state ≠ .failed := by
    intro t request h
    unfold updateRequestState
    split_ifs <;> first | exact h | exact fun h => by cases h
  have hdetail : ∀ {t : Session} {request : Request}, request.state ≠ .failed →
      (t.updateDetailRequestState request).state ≠ .failed := by
    intro t request h
    unfold updateDetailRequestState
    simp only
    split_ifs <;> first | exact h | exact fun h => by cases h
  have hfirst : (s.baseVerdict request).state ≠ .failed :=
    @hbase _ (request.mapMask stagedMask) h
  exact ⟨hfirst, @hdetail _ ((s.baseVerdict request).mapMask (withOverview s4Features)) hfirst⟩

theorem unfailed_step (h : Lifecycle s) (hstep : step call s = some s') :
    ∀ slot ∈ s'.requests, slot.state ≠ .failed := by
  intro slot hmem
  obtain ⟨old, hold, hchange⟩ := Pointwise.exists_left (step_slots hstep) hmem
  have hbefore := h.unfailed old hold
  cases hchange with
  | kept _ hstate => exact hstate ▸ hbefore
  | cleared _ hnew => exact hnew ▸ fun h => by cases h
  | entered _ _ hnew => exact hnew ▸ fun h => by cases h
  | cancelled _ _ hstate => exact hstate ▸ fun h => by cases h
  | base _ _ _ hstate => exact hstate ▸ (verdict_unfailed _ hbefore).1
  | both _ _ hstate => exact hstate ▸ (verdict_unfailed _ hbefore).2

theorem ids_step (h : Lifecycle s) (hstep : step call s = some s') : UniqueIds s'.requests := by
  obtain ⟨⟨status, after⟩, hperform, rfl⟩ := Option.map_eq_some_iff.mp hstep
  by_cases hop : ∃ request, call.op = .requestRegion request
  · obtain ⟨request, hop⟩ := hop
    rw [hop] at hperform
    have heq : ((s.withPlatform call).requestRegion request).2.2 = after :=
      congrArg Prod.snd (Option.some.inj hperform)
    show UniqueIds after.requests
    rw [← heq]
    exact (requestRegion_enters request (s.withPlatform call)).uniqueIds h.ids
  · have hentries := perform_entries (fun request heq => hop ⟨request, heq⟩) hperform
    exact h.ids.of_entries hentries

theorem step_requests (hstep : step call s = some s') (feature : Feature) :
    s'.config.requests feature = s.config.requests feature := by
  obtain ⟨⟨status, after⟩, hperform, rfl⟩ := Option.map_eq_some_iff.mp hstep
  exact requests_of_settings (settings_frame.perform hperform) feature

/-- A request for features that the session was not asked for is refused. -/
theorem requestRegion_unrequested {request : RegionRequest} {s : Session}
    (h : ¬request.featureMask ⊆ s.config.requestedFeatures) :
    (s.requestRegion request).2.2 = s := by
  unfold requestRegion
  rw [if_pos h]

theorem asked_step (h : Lifecycle s) (hstep : step call s = some s') :
    ∀ slot ∈ s'.requests, Feature.waveformOverview ∈ slot.request.featureMask →
      s'.config.requests .waveformOverview = true := by
  intro slot hmem hoverview
  rw [step_requests hstep]
  obtain ⟨old, hold, hchange⟩ := Pointwise.exists_left (step_slots hstep) hmem
  have hsame : slot.entry = old.entry → s.config.requests .waveformOverview = true :=
    fun hentry => h.asked old hold ((request_of_entry hentry).2 ▸ hoverview)
  cases hchange with
  | kept hentry => exact hsame hentry
  | cancelled hentry => exact hsame hentry
  | base hentry => exact hsame hentry
  | both hentry => exact hsame hentry
  | cleared _ hnew =>
      subst hnew
      exact absurd hoverview (by decide)
  | @entered request _ _ _ hop hnew =>
      by_cases hfeatures : request.featureMask ⊆ s.config.requestedFeatures
      · subst hnew
        exact decide_eq_true (hfeatures hoverview)
      · -- A refused request leaves the table as it was.
        obtain ⟨⟨status, after⟩, hperform, rfl⟩ := Option.map_eq_some_iff.mp hstep
        rw [hop] at hperform
        have heq : ((s.withPlatform call).requestRegion request).2.2 = after :=
          congrArg Prod.snd (Option.some.inj hperform)
        rw [requestRegion_unrequested (s := s.withPlatform call) hfeatures] at heq
        subst heq
        exact h.asked slot hmem hoverview

/-- The pull adapter completes no session. -/
theorem layersEntry_nothingLeft {source : PullSource} {budget : WorkBudget} {s : Session}
    (hs : s.state = .completed → s.NothingLeft)
    (hdone : (s.layersEntry source budget).state = .completed) :
    (s.layersEntry source budget).NothingLeft := by
  have hwanes : Wanes s (s.layersEntry source budget) := by
    unfold layersEntry
    split_ifs
    · exact .pulled (pullPcm_pulled (Prod.mk.eta (p := s.pullPcm source budget)).symm)
    · exact .refl s
  obtain ⟨hdone', hcovers⟩ := hwanes hdone
  exact (hs hdone').wane hcovers (layersEntry_unskipped source budget s)

/-- A completed session has nothing left. -/
theorem settled_step (h : Lifecycle s) (hkeeps : KeepsEnds call s) (hstep : step call s = some s')
    (hdone : s'.state = .completed) : s'.NothingLeft := by
  have hasked := h.asked_step hstep
  by_cases hprocess : ∃ source budget, call.op = .process source budget
  · obtain ⟨source, budget, hop⟩ := hprocess
    obtain ⟨⟨status, after⟩, hperform, rfl⟩ := Option.map_eq_some_iff.mp hstep
    rw [hop] at hperform
    obtain ⟨⟨answer, progress, done⟩, hdone', heq⟩ := Option.map_eq_some_iff.mp hperform
    obtain ⟨-, rfl⟩ := Prod.mk.inj heq
    have hentry := @layersEntry_nothingLeft source budget
      (s.withPlatform call) h.settled
    rcases process_entry hdone' with rfl | himpl
    · exact hentry hdone
    · exact processImpl_nothingLeft himpl hasked hentry hdone
  have hop : ∀ source budget, call.op ≠ .process source budget :=
    fun source budget hop => hprocess ⟨source, budget, hop⟩
  have hwanes : Wanes s s' :=
    (Wanes.same (withPlatform_sameTrack call s)).trans (.outcome hop (step_outcome hstep))
  obtain ⟨hdone', hcovers⟩ := hwanes hdone
  intro slot hmem hactive hoverview hdetail
  obtain ⟨old, hold, hchange⟩ := Pointwise.exists_left (step_slots hstep) hmem
  cases hchange with
  | kept hentry hstate =>
      obtain ⟨hid, hrequest⟩ := request_of_entry hentry
      have hidle : old.isActive = slot.isActive := by
        unfold Request.isActive
        rw [hid, hstate]
      by_contra hcomplete
      have hleft := h.settled hdone' old hold (hidle.trans hactive) (hrequest ▸ hoverview)
        (hrequest ▸ hdetail)
      rw [← hrequest, hcovers _ (Bool.not_eq_false _ ▸ hcomplete)] at hleft
      cases hleft
  | cleared _ hnew =>
      subst hnew
      exact absurd hoverview (by decide)
  | entered _ hop' hnew =>
      subst hnew
      exact absurd (hkeeps.enters _ hop' hdone' hoverview) hdetail
  | cancelled _ _ hstate => exact absurd (.inr (.inl hstate)) (isActive_iff.mp hactive).2
  | base _ hjudges =>
      obtain ⟨source, budget, -, hop', -, -⟩ := hjudges
      exact absurd hop' (hop source budget)
  | both _ hjudges =>
      obtain ⟨source, budget, -, hop', -, -⟩ := hjudges
      exact absurd hop' (hop source budget)

theorem step (h : Lifecycle s) (hkeeps : KeepsEnds call s) (hstep : step call s = some s') :
    Lifecycle s' where
  length := (step_slots hstep).length_eq.symm.trans h.length
  ids := h.ids_step hstep
  unfailed := h.unfailed_step hstep
  asked := h.asked_step hstep
  settled := h.settled_step hkeeps hstep

theorem created {s : Session} (h : Created s) : Lifecycle s := by
  have hempty : ∀ slot ∈ s.requests, slot = .empty := by
    rw [created_requests h]
    exact fun slot hmem => List.eq_of_mem_replicate hmem
  have hrequests := created_requests h
  obtain ⟨config, libm, usesWorkspace, env, -, rfl⟩ := created_eq h
  refine ⟨by rw [hrequests, List.length_replicate], by rw [hrequests]; exact RunTable.empty.ids,
    fun slot hmem => ?_, fun slot hmem hoverview => ?_, fun hdone => by cases hdone⟩
  · rw [hempty slot hmem]
    decide
  · rw [hempty slot hmem] at hoverview
    exact absurd hoverview (by decide)

end Lifecycle

/-! ## Accepting a request -/

/-- The identifiers that an allocation tries. -/
def triedId (next i : ℕ) : ℕ := if i = 0 then next else (next + i) % 4294967296

/-- An allocation that fails has found every identifier it tried in use, or zero. -/
theorem allocateRequestId_none {requests : List Request} {fuel next : ℕ}
    (h : (allocateRequestId requests fuel next).1 = none) :
    ∀ i < fuel, triedId next i = 0 ∨ requestIdExists requests (triedId next i) = true := by
  induction fuel generalizing next with
  | zero => exact fun i hi => absurd hi (Nat.not_lt_zero i)
  | succ fuel ih =>
      unfold allocateRequestId at h
      split_ifs at h with htaken
      · intro i hi
        cases i with
        | zero => exact htaken
        | succ i =>
            have hnext : triedId next (i + 1) = triedId ((next + 1) % 4294967296) i := by
              unfold triedId
              rw [if_neg (Nat.succ_ne_zero i)]
              split_ifs with hzero
              · rw [hzero]
              · rw [Nat.mod_add_mod, Nat.add_assoc, Nat.add_comm 1 i]
            rw [hnext]
            exact ih h i (by omega)

/-- Two more tries than slots find an identifier. -/
theorem allocateRequestId_succeeds {requests : List Request}
    (hlength : requests.length = maxRegionRequests) (next : ℕ) :
    ∃ requestId, (allocateRequestId requests (maxRegionRequests + 2) next).1 = some requestId := by
  rw [← Option.ne_none_iff_exists']
  intro hnone
  have htried := allocateRequestId_none hnone
  -- The tried identifiers are distinct, and more than those in use and zero.
  have hmaps : ∀ i ∈ Finset.range (maxRegionRequests + 2),
      triedId next i ∈ insert 0 (requests.map Request.requestId).toFinset := by
    intro i hi
    rcases htried i (Finset.mem_range.mp hi) with hzero | hexists
    · rw [hzero]
      exact Finset.mem_insert_self _ _
    · obtain ⟨-, hany⟩ := Bool.and_eq_true_iff.mp hexists
      obtain ⟨slot, hmem, hid⟩ := List.any_eq_true.mp hany
      refine Finset.mem_insert_of_mem (List.mem_toFinset.mpr ?_)
      exact List.mem_map.mpr ⟨slot, hmem, by simpa using hid⟩
  have hcard : (insert 0 (requests.map Request.requestId).toFinset).card <
      (Finset.range (maxRegionRequests + 2)).card := by
    have hle := (requests.map Request.requestId).toFinset_card_le
    rw [List.length_map, hlength] at hle
    have hinsert := Finset.card_insert_le 0 (requests.map Request.requestId).toFinset
    rw [Finset.card_range]
    omega
  obtain ⟨i, hi, j, hj, hne, heq⟩ :=
    Finset.exists_ne_map_eq_of_card_lt_of_maps_to hcard hmaps
  rw [Finset.mem_range] at hi hj
  have hmax : maxRegionRequests = 16 := rfl
  rw [hmax] at hi hj
  unfold triedId at heq
  split_ifs at heq <;> omega

/-- The request is one that the session may enter: a range that is not empty, some features of the
session, and an identifier not in use. -/
structure Enterable (s : Session) (request : RegionRequest) : Prop where
  range : request.range.firstFrame < request.range.endFrame
  nonempty : request.featureMask ≠ ∅
  requested : request.featureMask ⊆ s.config.requestedFeatures
  supported : request.featureMask ⊆ s.config.capabilities
  fresh : ∀ slot ∈ s.requests, slot.requestId = request.requestId → request.requestId = 0

/-- A request is accepted when there is a free slot and an enqueue serial left. -/
theorem requestRegion_ok_iff {s : Session} {request : RegionRequest}
    (hlength : s.requests.length = maxRegionRequests) (h : s.Enterable request) :
    (s.requestRegion request).1 = .ok ↔
      (∃ slot ∈ s.requests, slot.requestId = 0) ∧ s.nextEnqueueSerial ≠ uint64Max := by
  have hfresh : requestIdExists s.requests request.requestId = false := by
    by_cases hzero : request.requestId = 0
    · simp [requestIdExists, hzero]
    · exact (requestIdExists_eq_false hzero).mpr fun slot hmem heq => hzero (h.fresh slot hmem heq)
  unfold requestRegion
  rw [if_neg (not_not.mpr h.requested), if_neg, if_neg (not_not.mpr h.supported), hfresh,
    if_neg Bool.false_ne_true]
  swap
  · exact not_or.mpr ⟨not_le.mpr h.range, h.nonempty⟩
  cases hslot : s.requests.findIdx? fun slot => slot.requestId == 0 with
  | none =>
      have hnone := List.findIdx?_eq_none_iff.mp hslot
      refine ⟨fun hok => (by cases hok), fun hfree => ?_⟩
      obtain ⟨⟨slot, hmem, hfree⟩, -⟩ := hfree
      exact absurd hfree (by simpa using hnone slot hmem)
  | some slot =>
      obtain ⟨hlt, hfree, -⟩ := List.findIdx?_eq_some_iff_getElem.mp hslot
      have hfound : ∃ slot ∈ s.requests, slot.requestId = 0 :=
        ⟨_, List.getElem_mem hlt, by simpa using hfree⟩
      have hgranted : ∃ requestId next, (if request.requestId ≠ 0 then
          (some request.requestId, s.nextRequestId)
          else allocateRequestId s.requests (maxRegionRequests + 2) s.nextRequestId) =
            (some requestId, next) := by
        split_ifs
        · exact ⟨_, _, rfl⟩
        · obtain ⟨requestId, hid⟩ := allocateRequestId_succeeds hlength s.nextRequestId
          exact ⟨requestId, _, Prod.ext hid rfl⟩
      obtain ⟨requestId, next, hid⟩ := hgranted
      simp only [hid]
      by_cases hlast : s.nextEnqueueSerial = uint64Max
      · rw [if_pos hlast]
        exact ⟨fun hok => (by cases hok), fun hserial => absurd hlast hserial.2⟩
      · rw [if_neg hlast]
        exact ⟨fun _ => ⟨hfound, hlast⟩, fun _ => rfl⟩

/-- Requests in a state that is not terminal. -/
def outstanding (s : Session) : ℕ := s.requests.countP Request.isActive

/-- A slot and a serial are free, or every slot is taken by an outstanding request. -/
def RoomMatches (s : Session) : Prop :=
  ((∃ slot ∈ s.requests, slot.requestId = 0) ∧ s.nextEnqueueSerial ≠ uint64Max) ∨
    ∀ slot ∈ s.requests, slot.isActive = true

/-- Acceptance follows the number of outstanding requests exactly when the room matches. -/
theorem requestRegion_ok_iff_outstanding {s : Session} {request : RegionRequest}
    (hlength : s.requests.length = maxRegionRequests) (h : s.Enterable request) :
    ((s.requestRegion request).1 = .ok ↔ s.outstanding < maxRegionRequests) ↔ s.RoomMatches := by
  rw [requestRegion_ok_iff hlength h]
  have hcount : s.outstanding < maxRegionRequests ↔ ¬∀ slot ∈ s.requests, slot.isActive = true := by
    have hle : s.outstanding ≤ s.requests.length := List.countP_le_length
    rw [hlength] at hle
    rw [← List.countP_eq_length, hlength]
    exact ⟨fun hlt => hlt.ne, fun hne => lt_of_le_of_ne hle hne⟩
  have hfree : (∃ slot ∈ s.requests, slot.requestId = 0) →
      ¬∀ slot ∈ s.requests, slot.isActive = true := by
    rintro ⟨slot, hmem, hzero⟩ hall
    exact (isActive_iff.mp (hall slot hmem)).1 hzero
  rw [hcount]
  unfold RoomMatches
  generalize (∃ slot ∈ s.requests, slot.requestId = 0) = free at hfree ⊢
  generalize (∀ slot ∈ s.requests, slot.isActive = true) = full at hfree ⊢
  tauto

/-! ## Every run -/

/-- The length of the track, as configured or as announced. -/
def TrackLength (s : Session) (length : ℕ) : Prop :=
  s.config.totalFrames = some length ∨ s.endOfInput = some length

/-- A slot for the overview, but not for detail tiles, whose range meets the track and ends in its last
column at the latest. -/
structure MeetsTrack (s : Session) (length : ℕ) (slot : Request) : Prop where
  occupied : slot.requestId ≠ 0
  overview : Feature.waveformOverview ∈ slot.request.featureMask
  plain : Feature.waveformDetail ∉ slot.request.featureMask
  nonempty : slot.request.range.firstFrame < slot.request.range.endFrame
  meets : slot.request.range.firstFrame < length
  last : (slot.request.range.endFrame - 1) / s.framesPerColumn ≤ (length - 1) / s.framesPerColumn

/-- In every run of calls that keep the ends of requests: identifiers are unique; a request that has
ended stays so until the end of the run; a request is accepted by the number of outstanding ones exactly
when the room matches; and a session that completes with its whole track covered has satisfied every
request for the overview that was not cancelled and that its columns can cover. -/
theorem request_lifecycle (s : Session) (hcreated : Created s) (calls : List Call)
    (hkeeps : Guarded KeepsEnds calls s) (s' : Session) (hrun : run calls s = some s') :
    UniqueIds s'.requests ∧
    (∀ before after t, calls = before ++ after → run before s = some t →
      List.Forall₂ EndKept t.requests s'.requests) ∧
    (∀ request, s'.Enterable request →
      (((s'.requestRegion request).1 = .ok ↔ s'.outstanding < maxRegionRequests) ↔
        s'.RoomMatches)) ∧
    ∀ length, s'.TrackLength length → s'.state = .completed →
      s'.rangeComplete ⟨0, length⟩ = true →
        ∀ slot ∈ s'.requests, s'.MeetsTrack length slot → slot.state ≠ .cancelled →
          slot.state = .satisfied := by
  have hinv : ∀ {calls : List Call} {t : Session}, Guarded KeepsEnds calls s →
      run calls s = some t → Lifecycle t := fun hkeeps hrun =>
    Runs.invariant (fun _ _ _ h hcall hstep => h.step hcall hstep) (.created hcreated) hkeeps hrun
  have hend := hinv hkeeps hrun
  refine ⟨hend.ids, ?_, fun request hrequest => requestRegion_ok_iff_outstanding hend.length hrequest,
    ?_⟩
  · rintro before after t rfl ht
    have hrest : run after t = some s' := by
      rw [run, Runs.run_append] at hrun
      obtain ⟨u, hu, hrest⟩ := Option.bind_eq_some_iff.mp hrun
      obtain rfl := Option.some.inj (hu.symm.trans ht)
      exact hrest
    refine Runs.relation (R := fun a b : Session => List.Forall₂ EndKept a.requests b.requests)
      (P := Lifecycle) (fun a => ?_) (fun a b c => Pointwise.trans fun _ _ _ h h' => h.trans h')
      (fun _ _ _ h hcall hstep => ⟨h.step hcall hstep, h.endKept hcall hstep⟩)
      (hinv hkeeps.of_append ht) (hkeeps.after ht) hrest
    exact List.forall₂_same.mpr fun _ _ _ _ => ⟨rfl, rfl⟩
  · intro length _ hdone hcovered slot hmem hmeets hcancelled
    by_contra hunsatisfied
    have hactive : slot.isActive = true := by
      rw [isActive_iff]
      refine ⟨hmeets.occupied, fun hterminal => ?_⟩
      rcases hterminal with h | h | h
      · exact hunsatisfied h
      · exact hcancelled h
      · exact hend.unfailed slot hmem h
    have hleft := hend.settled hdone slot hmem hactive hmeets.overview hmeets.plain
    rw [rangeComplete_part hcovered hmeets.nonempty hmeets.last] at hleft
    cases hleft

/-! ## A short track -/

/-- A run that neither enters nor cancels a request keeps the ends of requests without detail tiles. -/
theorem guarded_of_plain {calls : List Call} (hcalls : ∀ call ∈ calls,
    (∀ request, call.op ≠ .requestRegion request) ∧
      ∀ requestId, call.op ≠ .cancelRegionRequest requestId) {s : Session}
    (hs : ∀ slot ∈ s.requests, Feature.waveformDetail ∉ slot.request.featureMask) :
    Guarded KeepsEnds calls s := by
  induction calls generalizing s with
  | nil => trivial
  | cons call rest ih =>
      obtain ⟨⟨hrequest, hcancel⟩, hrest⟩ := List.forall_mem_cons.mp hcalls
      refine ⟨⟨fun requestId hop => absurd hop (hcancel requestId), fun _ _ slot hmem _ hdetail =>
        absurd hdetail (hs slot hmem), fun request hop => absurd hop (hrequest request)⟩,
        fun next hstep => ih hrest ?_⟩
      obtain ⟨⟨status, after⟩, hperform, rfl⟩ := Option.map_eq_some_iff.mp hstep
      exact forall_of_entries (P := fun slot => Feature.waveformDetail ∉ slot.request.featureMask)
        (fun _ => Iff.rfl) hs (perform_entries (s := s.withPlatform call) hrequest hperform)

/-- The calls that push a track of one column and complete it, with a request up to a frame. -/
def shortTrackCalls (endFrame : ℕ) : List Call :=
  [plainCall (.requestRegion ⟨0, ⟨0, endFrame⟩, {.waveformOverview}, 0, 0⟩),
    plainCall (.pushPcm ⟨0, List.replicate 64 0⟩), plainCall (.signalEndOfInput 64),
    plainCall (.process (fun _ _ => .wouldBlock) ⟨0, 0, 0⟩)]

/-- A session for the overview of such a track. -/
def shortTrack : Option Session :=
  (create (smallConfig {.waveformOverview} (some 64)) seriesLibm false plainPlatform).2

theorem shortTrack_created : ∃ s, shortTrack = some s ∧ Created s ∧ s.state = .created := by
  obtain ⟨s, hs⟩ : ∃ s, create (smallConfig {.waveformOverview} (some 64)) seriesLibm false
    plainPlatform = (.ok, some s) := ⟨_, rfl⟩
  have hstate : shortTrack.map Session.state = some .created := by decide +kernel
  have hshort : shortTrack = some s := congrArg Prod.snd hs
  rw [hshort] at hstate
  exact ⟨s, hshort, ⟨_, _, _, _, hs⟩, Option.some.inj hstate⟩

theorem request_lifecycle_short : ∃ s s' : Session, Created s ∧
    run (shortTrackCalls 64) s = some s' ∧ UniqueIds s'.requests ∧
      ∃ slot ∈ s'.requests, s'.MeetsTrack 64 slot ∧ slot.state = .satisfied := by
  obtain ⟨s, hs, hcreated, hstate⟩ := shortTrack_created
  have hafter : (shortTrack.bind (run (shortTrackCalls 64))).map
      (fun s => (s.state, s.rangeComplete ⟨0, 64⟩, s.framesPerColumn)) =
        some (.completed, true, 64) := by decide +kernel
  have hslot : (shortTrack.bind (run (shortTrackCalls 64))).map
      (fun s => (s.config.totalFrames, (s.requests[0]?).map fun slot =>
        (slot.requestId, slot.request.range, slot.request.featureMask))) =
        some (some 64, some (1, ⟨0, 64⟩, {.waveformOverview})) := by decide +kernel
  have hopen : (shortTrack.bind (run (shortTrackCalls 64))).map
      (fun s => (s.requests[0]?).map fun slot => decide (slot.state = .cancelled)) =
        some (some false) := by decide +kernel
  rw [hs, Option.bind_some] at hafter hslot hopen
  obtain ⟨s', hrun, hfacts⟩ := Option.map_eq_some_iff.mp hafter
  rw [hrun] at hslot hopen
  simp only [Option.map_some, Option.some.injEq, Prod.mk.injEq] at hfacts hslot hopen
  obtain ⟨hdone, hcovered, hcolumns⟩ := hfacts
  obtain ⟨htotal, hfirst⟩ := hslot
  obtain ⟨slot, hget, hslot⟩ := Option.map_eq_some_iff.mp hfirst
  simp only [Prod.mk.injEq] at hslot
  obtain ⟨hid, hrange, hmask⟩ := hslot
  rw [hget] at hopen
  have hmem := List.mem_of_getElem? hget
  have hempty : ∀ slot ∈ s.requests, Feature.waveformDetail ∉ slot.request.featureMask := by
    rw [created_requests hcreated]
    intro slot hmem
    rw [List.eq_of_mem_replicate hmem]
    decide
  have hkeeps : Guarded KeepsEnds (shortTrackCalls 64) s := by
    refine ⟨⟨fun _ hop => (by cases hop), fun _ _ slot hmem _ hdetail =>
      absurd hdetail (hempty slot hmem), fun _ _ hdone => (by cases hstate.symm.trans hdone)⟩,
      fun next hstep => guarded_of_plain ?_ fun slot hmem hdetail => ?_⟩
    · simp [plainCall]
    · obtain ⟨old, hold, hchange⟩ := Pointwise.exists_left (step_slots hstep) hmem
      have hsame : slot.entry ≠ old.entry :=
        fun hentry => hempty old hold ((request_of_entry hentry).2 ▸ hdetail)
      cases hchange with
      | kept hentry => exact hsame hentry
      | cancelled hentry => exact hsame hentry
      | base hentry => exact hsame hentry
      | both hentry => exact hsame hentry
      | cleared _ hnew =>
          subst hnew
          exact absurd hdetail (by decide)
      | entered _ hop hnew =>
          subst hnew
          cases hop
          have hnone : Feature.waveformDetail ∉ ({.waveformOverview} : FeatureMask) := by decide
          exact hnone hdetail
  have hmeets : s'.MeetsTrack 64 slot := by
    refine ⟨by simp [hid], by simp [hmask], by simp [hmask], ?_, ?_, ?_⟩ <;> simp [hrange, hcolumns]
  obtain ⟨hids, -, -, hsatisfied⟩ := request_lifecycle s hcreated _ hkeeps s' hrun
  refine ⟨s, s', hcreated, hrun, hids, slot, hmem, hmeets, ?_⟩
  exact hsatisfied 64 (.inl htotal) hdone hcovered slot hmem hmeets (by simpa using hopen)

/-- As many requests as there are slots, each cancelled at once. -/
def cancelledCalls : List Call :=
  (List.range maxRegionRequests).flatMap fun i =>
    [plainCall (.requestRegion ⟨i + 1, ⟨0, 64⟩, {.waveformOverview}, 0, 0⟩),
      plainCall (.cancelRegionRequest (i + 1))]

/-- A satisfied request can be cancelled; cancelled requests keep their slots from new ones; and a
request that ends past the last column of a completed track is never satisfied. -/
theorem request_lifecycle_breaks :
    (∃ s t t' : Session, Created s ∧ run (shortTrackCalls 64) s = some t ∧
      step (plainCall (.cancelRegionRequest 1)) t = some t' ∧
        (t.requests[0]?).map Request.state = some .satisfied ∧
          (t'.requests[0]?).map Request.state = some .cancelled) ∧
    (∃ s t : Session, Created s ∧ run cancelledCalls s = some t ∧ t.outstanding = 0 ∧
      t.Enterable ⟨17, ⟨0, 64⟩, {.waveformOverview}, 0, 0⟩ ∧
        (t.requestRegion ⟨17, ⟨0, 64⟩, {.waveformOverview}, 0, 0⟩).1 = .error .limitExceeded) ∧
    ∃ s t : Session, Created s ∧ run (shortTrackCalls 128) s = some t ∧ t.TrackLength 64 ∧
      t.state = .completed ∧ t.rangeComplete ⟨0, 64⟩ = true ∧
        (t.requests[0]?).map (fun slot => (slot.request.range, slot.state)) =
          some (⟨0, 128⟩, .partiallySatisfied) := by
  obtain ⟨s, hs, hcreated, -⟩ := shortTrack_created
  refine ⟨?_, ?_, ?_⟩
  · have hleft : (shortTrack.bind (run (shortTrackCalls 64))).bind (fun t =>
        (step (plainCall (.cancelRegionRequest 1)) t).map fun t' =>
          ((t.requests[0]?).map Request.state, (t'.requests[0]?).map Request.state)) =
        some (some .satisfied, some .cancelled) := by decide +kernel
    rw [hs, Option.bind_some] at hleft
    obtain ⟨t, ht, hleft⟩ := Option.bind_eq_some_iff.mp hleft
    obtain ⟨t', ht', hleft⟩ := Option.map_eq_some_iff.mp hleft
    obtain ⟨hbefore, hafter⟩ := Prod.mk.inj hleft
    exact ⟨s, t, t', hcreated, ht, ht', hbefore, hafter⟩
  · have hfull : (shortTrack.bind (run cancelledCalls)).map (fun t =>
        (t.outstanding, t.requests.all (fun slot => decide (slot.requestId ≠ 17)),
          t.config.requestedFeatures, t.config.capabilities)) =
        some (0, true, {.waveformOverview}, {.waveformOverview}) := by decide +kernel
    have hrefused : (shortTrack.bind (run cancelledCalls)).map (fun t =>
        (t.requestRegion ⟨17, ⟨0, 64⟩, {.waveformOverview}, 0, 0⟩).1) =
        some (.error .limitExceeded) := by decide +kernel
    rw [hs, Option.bind_some] at hfull hrefused
    obtain ⟨t, ht, hfull⟩ := Option.map_eq_some_iff.mp hfull
    rw [ht] at hrefused
    simp only [Prod.mk.injEq] at hfull
    obtain ⟨hnone, hfresh, hrequested, hcapable⟩ := hfull
    have henterable : t.Enterable ⟨17, ⟨0, 64⟩, {.waveformOverview}, 0, 0⟩ := by
      refine ⟨by decide, by decide, by rw [hrequested], by rw [hcapable], fun slot hmem hid => ?_⟩
      exact absurd hid (by simpa using List.all_eq_true.mp hfresh slot hmem)
    exact ⟨s, t, hcreated, ht, hnone, henterable, Option.some.inj hrefused⟩
  · have hpast : (shortTrack.bind (run (shortTrackCalls 128))).map (fun t =>
        (t.config.totalFrames, t.state, t.rangeComplete ⟨0, 64⟩,
          (t.requests[0]?).map fun slot => (slot.request.range, slot.state))) =
        some (some 64, .completed, true, some (⟨0, 128⟩, .partiallySatisfied)) := by decide +kernel
    rw [hs, Option.bind_some] at hpast
    obtain ⟨t, ht, hpast⟩ := Option.map_eq_some_iff.mp hpast
    simp only [Prod.mk.injEq] at hpast
    obtain ⟨htotal, hdone, hcovered, hslot⟩ := hpast
    exact ⟨s, t, hcreated, ht, .inl htotal, hdone, hcovered, hslot⟩

end Session

end LibApta
