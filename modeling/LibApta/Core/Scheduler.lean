import LibApta.Core.Types

/-!
# Request scheduling policy

Scores order the active requests by priority raised with every pass-over, then by soft deadline,
then by age. Staging sorts the request slots by that order for one feature, and shows the demand
selectors the effective priorities; the slots are put back afterwards.
-/

namespace LibApta

/-- The rank of a request, or of no request (`requestId = 0`). -/
structure ScheduleScore where
  effectivePriority : ℕ
  requestId : ℕ
  softDeadline : ℕ
  enqueueSerial : ℕ
deriving DecidableEq

/-- The score of no request. -/
def ScheduleScore.none : ScheduleScore := ⟨0, 0, 0, uint64Max⟩

/-- Score a request; inactive ones score as none. -/
def scoreRequest (request : Request) : ScheduleScore :=
  if request.isActive then
    { effectivePriority := request.request.priority +
        min (request.skipCount * schedulerAgeStep) (255 - request.request.priority)
      requestId := request.requestId
      softDeadline := request.request.softDeadline
      enqueueSerial := request.enqueueSerial }
  else ScheduleScore.none

/-- The first score ranks strictly above the second. -/
def scoreBetter (candidate current : ScheduleScore) : Bool :=
  if candidate.effectivePriority ≠ current.effectivePriority then
    decide (current.effectivePriority < candidate.effectivePriority)
  else if (candidate.softDeadline ≠ 0) ≠ (current.softDeadline ≠ 0) then
    decide (candidate.softDeadline ≠ 0)
  else if candidate.softDeadline ≠ 0 ∧ candidate.softDeadline ≠ current.softDeadline then
    decide (candidate.softDeadline < current.softDeadline)
  else if candidate.enqueueSerial ≠ current.enqueueSerial then
    decide (candidate.enqueueSerial < current.enqueueSerial)
  else decide (candidate.requestId < current.requestId)

/-- The request names a feature and is active. -/
def requestMatchesFeature (feature : Feature) (request : Request) : Bool :=
  decide (feature ∈ request.request.featureMask) && decide ((scoreRequest request).requestId ≠ 0)

/-- The first request goes before the second when requests are staged for a feature. -/
def requestBetter (feature : Feature) (candidate current : Request) : Bool :=
  if requestMatchesFeature feature candidate ≠ requestMatchesFeature feature current then
    requestMatchesFeature feature candidate
  else if requestMatchesFeature feature candidate then
    scoreBetter (scoreRequest candidate) (scoreRequest current)
  else false

/-- One step of an insertion sort: move the candidate left past every slot it is better than. The
sorted slots are given last first. -/
def insertStaged {α : Type} (better : α → α → Bool) (candidate : α) : List α → List α
  | [] => [candidate]
  | last :: before =>
      if better candidate last then last :: insertStaged better candidate before
      else candidate :: last :: before

/-- The insertion sort of the schedulers, stable and from the right. -/
def stageSort {α : Type} (better : α → α → Bool) (slots : List α) : List α :=
  (slots.foldl (fun sorted candidate => insertStaged better candidate sorted) []).reverse

/-- Sort the request slots for a feature and raise the matching ones to their effective priority. -/
def stageRequests (feature : Feature) (requests : List Request) : List Request :=
  (stageSort (requestBetter feature) requests).map fun request =>
    if requestMatchesFeature feature request then
      { request with
        request := { request.request with
          priority := (scoreRequest request).effectivePriority % 256 } }
    else request

/-- Reset the pass-over counter of the chosen request and age the other active ones. -/
def noteChoice (selectedRequestId : ℕ) (requests : List Request) : List Request :=
  requests.map fun request =>
    if request.isActive then
      if request.requestId = selectedRequestId then { request with skipCount := 0 }
      else if request.skipCount < schedulerMaxSkips then
        { request with skipCount := request.skipCount + 1 }
      else request
    else request

/-- Let every request that names one of `features` also name the overview. -/
def withOverview (features : FeatureMask) (mask : FeatureMask) : FeatureMask :=
  if features ∩ mask = ∅ then mask else insert .waveformOverview mask

/-- The focus with its mask passed through a function. -/
def Focus.mapMask (f : FeatureMask → FeatureMask) (focus : Focus) : Focus :=
  { focus with featureMask := f focus.featureMask }

/-- The request with its mask passed through a function. -/
def Request.mapMask (f : FeatureMask → FeatureMask) (request : Request) : Request :=
  { request with request := { request.request with featureMask := f request.request.featureMask } }

/-! ## What staging keeps -/

/-- Moving a candidate into the sorted slots adds it and nothing else. -/
theorem insertStaged_perm {α : Type} (better : α → α → Bool) (candidate : α) (slots : List α) :
    (insertStaged better candidate slots).Perm (candidate :: slots) := by
  induction slots with
  | nil => exact List.Perm.refl _
  | cons last before ih =>
      unfold insertStaged
      split_ifs
      · exact (ih.cons last).trans (List.Perm.swap candidate last before)
      · exact List.Perm.refl _

/-- Staging permutes the slots. -/
theorem stageSort_perm {α : Type} (better : α → α → Bool) (slots : List α) :
    (stageSort better slots).Perm slots := by
  have hfold : ∀ (todo sorted : List α),
      (todo.foldl (fun sorted candidate => insertStaged better candidate sorted) sorted).Perm
        (todo ++ sorted) := by
    intro todo
    induction todo with
    | nil => exact fun sorted => List.Perm.refl _
    | cons candidate rest ih =>
        intro sorted
        refine (ih _).trans ?_
        exact ((insertStaged_perm better candidate sorted).append_left rest).trans
          List.perm_middle
  exact (List.reverse_perm _).trans (by simpa using hfold slots [])

end LibApta
