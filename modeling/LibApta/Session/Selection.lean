import LibApta.Session.Demand

/-!
# The request a table leads with

Scores are ordered by effective priority, then by deadline, enqueue serial and identifier. Staging
sorts the slots by that order, and the selectors scan the staged slots for the first of the highest
priority: what they find is the request that no other active request of the feature precedes. The
same scan over unstaged slots finds the first slot of the highest stored priority.
-/

namespace LibApta

/-! ## The order of scores -/

/-- The first score has the nearer deadline; no deadline is the farthest one. -/
def ScheduleScore.Sooner (a b : ScheduleScore) : Prop :=
  a.softDeadline ≠ 0 ∧ (b.softDeadline = 0 ∨ a.softDeadline < b.softDeadline)

/-- The first score goes first among scores of one effective priority. -/
def ScheduleScore.TieBreaks (a b : ScheduleScore) : Prop :=
  a.Sooner b ∨ a.softDeadline = b.softDeadline ∧
    (a.enqueueSerial < b.enqueueSerial ∨
      a.enqueueSerial = b.enqueueSerial ∧ a.requestId < b.requestId)

/-- The comparison of the scheduler is the lexicographic order of the key. -/
theorem scoreBetter_iff {a b : ScheduleScore} :
    scoreBetter a b = true ↔
      b.effectivePriority < a.effectivePriority ∨
        b.effectivePriority = a.effectivePriority ∧ a.TieBreaks b := by
  unfold scoreBetter ScheduleScore.TieBreaks ScheduleScore.Sooner
  by_cases hpriority : a.effectivePriority = b.effectivePriority
  · rw [if_neg (not_not.mpr hpriority)]
    -- Whether a deadline is declared is compared as a proposition.
    by_cases hdeclared : a.softDeadline ≠ 0 ↔ b.softDeadline ≠ 0
    · rw [if_neg (not_not.mpr (propext hdeclared))]
      split_ifs <;> rw [decide_eq_true_iff] <;> omega
    · rw [if_pos fun heq => hdeclared (iff_of_eq heq), decide_eq_true_iff]
      omega
  · rw [if_pos hpriority, decide_eq_true_iff]
    omega

/-- Two scores do not precede each other. -/
theorem scoreBetter_asymm {a b : ScheduleScore} (h : scoreBetter a b = true) :
    scoreBetter b a = false := by
  rw [← Bool.not_eq_true, scoreBetter_iff]
  rw [scoreBetter_iff] at h
  unfold ScheduleScore.TieBreaks ScheduleScore.Sooner at h ⊢
  omega

/-- A score that does not precede a second one, which does not precede a third, does not precede the
third. -/
theorem scoreBetter_negTrans {a b c : ScheduleScore} (hab : scoreBetter a b = false)
    (hbc : scoreBetter b c = false) : scoreBetter a c = false := by
  rw [← Bool.not_eq_true, scoreBetter_iff] at hab hbc ⊢
  unfold ScheduleScore.TieBreaks ScheduleScore.Sooner at hab hbc ⊢
  omega

/-- Of two scores with different identifiers one precedes the other. -/
theorem scoreBetter_total {a b : ScheduleScore} (hid : a.requestId ≠ b.requestId)
    (h : scoreBetter a b = false) : scoreBetter b a = true := by
  rw [scoreBetter_iff]
  rw [← Bool.not_eq_true, scoreBetter_iff] at h
  unfold ScheduleScore.TieBreaks ScheduleScore.Sooner at h ⊢
  omega

/-! ## Scores of active requests -/

theorem scoreRequest_of_active {request : Request} (h : request.isActive = true) :
    scoreRequest request =
      { effectivePriority := request.request.priority +
          min (request.skipCount * schedulerAgeStep) (255 - request.request.priority)
        requestId := request.requestId
        softDeadline := request.request.softDeadline
        enqueueSerial := request.enqueueSerial } := if_pos h

theorem Request.isActive_iff {request : Request} :
    request.isActive = true ↔ request.requestId ≠ 0 ∧ request.state ≠ .cancelled ∧
      request.state ≠ .failed ∧ request.state ≠ .satisfied := by
  simp [Request.isActive, and_assoc]

/-- Staging looks for the requests that the selectors look for. -/
theorem requestMatchesFeature_eq (feature : Feature) (request : Request) :
    requestMatchesFeature feature request = request.wantsFeature feature := by
  unfold requestMatchesFeature Request.wantsFeature
  by_cases h : request.isActive = true
  · have hid := (Request.isActive_iff.mp h).1
    rw [scoreRequest_of_active h]
    simp [h, hid]
  · have hnone : scoreRequest request = .none := if_neg h
    simp [hnone, h, ScheduleScore.none]

/-- The effective priority of a request is one byte when its priority is. -/
theorem effectivePriority_le {request : Request} (h : request.request.priority ≤ 255) :
    (scoreRequest request).effectivePriority ≤ 255 := by
  unfold scoreRequest ScheduleScore.none
  split_ifs
  · show request.request.priority + min _ (255 - request.request.priority) ≤ 255
    omega
  · exact Nat.zero_le _

/-! ## The staging order -/

/-- Staging puts the active requests of the feature first, by score. -/
theorem requestBetter_iff {feature : Feature} {a b : Request} :
    requestBetter feature a b = true ↔ requestMatchesFeature feature a = true ∧
      (requestMatchesFeature feature b = false ∨
        scoreBetter (scoreRequest a) (scoreRequest b) = true) := by
  unfold requestBetter
  cases ha : requestMatchesFeature feature a <;> cases hb : requestMatchesFeature feature b <;>
    simp

theorem requestBetter_asymm {feature : Feature} {a b : Request}
    (h : requestBetter feature a b = true) : requestBetter feature b a = false := by
  rw [requestBetter_iff] at h
  rw [← Bool.not_eq_true, requestBetter_iff]
  rintro ⟨hb, hba⟩
  rcases h with ⟨ha, hb' | hab⟩
  · rw [hb] at hb'
    cases hb'
  · rcases hba with ha' | hba
    · rw [ha] at ha'
      cases ha'
    · rw [scoreBetter_asymm hab] at hba
      cases hba

theorem requestBetter_negTrans {feature : Feature} {a b c : Request}
    (hab : requestBetter feature a b = false) (hbc : requestBetter feature b c = false) :
    requestBetter feature a c = false := by
  rw [← Bool.not_eq_true, requestBetter_iff] at hab hbc ⊢
  rintro ⟨ha, hac⟩
  have hb : requestMatchesFeature feature b = true := by
    by_contra hb
    exact hab ⟨ha, .inl (by simpa using hb)⟩
  have hscore : scoreBetter (scoreRequest a) (scoreRequest b) = false := by
    by_contra hscore
    exact hab ⟨ha, .inr (by simpa using hscore)⟩
  rcases hac with hc | hac
  · exact hbc ⟨hb, .inl hc⟩
  · have hscore' : scoreBetter (scoreRequest b) (scoreRequest c) = false := by
      by_contra hscore'
      exact hbc ⟨hb, .inr (by simpa using hscore')⟩
    rw [scoreBetter_negTrans hscore hscore'] at hac
    cases hac

/-! ## The insertion sort -/

section Sorting

variable {α : Type} (better : α → α → Bool)

/-- Inserting into slots that are sorted, last first, keeps them sorted. -/
theorem insertStaged_sorted (hasymm : ∀ a b, better a b = true → better b a = false)
    (hneg : ∀ a b c, better a b = false → better b c = false → better a c = false)
    (candidate : α) {slots : List α}
    (h : slots.Pairwise fun later earlier => better later earlier = false) :
    (insertStaged better candidate slots).Pairwise
      fun later earlier => better later earlier = false := by
  induction slots with
  | nil => exact List.pairwise_singleton _ _
  | cons last before ih =>
      obtain ⟨hlast, hbefore⟩ := List.pairwise_cons.mp h
      unfold insertStaged
      split_ifs with hbetter
      · refine List.pairwise_cons.mpr ⟨fun earlier hmem => ?_, ih hbefore⟩
        have hmem' := (insertStaged_perm better candidate before).mem_iff.mp hmem
        rcases List.mem_cons.mp hmem' with rfl | hmem'
        · exact hasymm _ _ hbetter
        · exact hlast _ hmem'
      · have hstays : better candidate last = false := by simpa using hbetter
        refine List.pairwise_cons.mpr ⟨fun earlier hmem => ?_, h⟩
        rcases List.mem_cons.mp hmem with rfl | hmem
        · exact hstays
        · exact hneg _ _ _ hstays (hlast _ hmem)

/-- Staged slots are sorted: no slot precedes one before it. -/
theorem stageSort_sorted (hasymm : ∀ a b, better a b = true → better b a = false)
    (hneg : ∀ a b c, better a b = false → better b c = false → better a c = false)
    (slots : List α) :
    (stageSort better slots).Pairwise fun earlier later => better later earlier = false := by
  have hfold : ∀ (todo sorted : List α),
      (sorted.Pairwise fun later earlier => better later earlier = false) →
      (todo.foldl (fun sorted candidate => insertStaged better candidate sorted) sorted).Pairwise
        fun later earlier => better later earlier = false := by
    intro todo
    induction todo with
    | nil => exact fun sorted h => h
    | cons candidate rest ih =>
        intro sorted h
        exact ih _ (insertStaged_sorted better hasymm hneg candidate h)
  exact List.pairwise_reverse.mpr (hfold slots [] List.Pairwise.nil)

end Sorting

/-! ## The scan for the highest priority -/

/-- The active request of the highest stored priority that names a feature, the first of equals: the
scan that both demand selectors make. -/
def selectByPriority (feature : Feature) (requests : List Request) : Option Request :=
  requests.foldl (fun best candidate =>
    if candidate.wantsFeature feature then
      match best with
      | none => some candidate
      | some current =>
          if current.request.priority < candidate.request.priority then some candidate else best
    else best) none

/-- The scan reads no more of a slot than what it wants and its priority. -/
theorem selectByPriority_map {feature : Feature} {f : Request → Request}
    (hwants : ∀ request, (f request).wantsFeature feature = request.wantsFeature feature)
    (hpriority : ∀ request, (f request).request.priority = request.request.priority)
    (requests : List Request) :
    selectByPriority feature (requests.map f) = (selectByPriority feature requests).map f := by
  induction requests using List.reverseRecOn with
  | nil => rfl
  | append_singleton seen candidate ih =>
      unfold selectByPriority at ih ⊢
      rw [List.map_append, List.foldl_append, List.foldl_append, ih]
      simp only [List.map_cons, List.map_nil, List.foldl_cons, List.foldl_nil, hwants, hpriority]
      generalize seen.foldl _ none = best
      split_ifs
      · cases best with
        | none => rfl
        | some current =>
            simp only [Option.map_some, hpriority]
            split_ifs <;> rfl
      · rfl

theorem selectOverviewRequest_eq :
    Session.selectOverviewRequest = selectByPriority .waveformOverview := rfl

theorem detailSelectRequest_eq : Detail.selectRequest = selectByPriority .waveformDetail := rfl

/-- The slot is the first of the highest stored priority among those that want a feature. -/
def Foremost (feature : Feature) (requests : List Request) (request : Request) : Prop :=
  ∃ before after, requests = before ++ request :: after ∧ request.wantsFeature feature = true ∧
    (∀ other ∈ before, other.wantsFeature feature = true →
      other.request.priority < request.request.priority) ∧
    ∀ other ∈ after, other.wantsFeature feature = true →
      other.request.priority ≤ request.request.priority

/-- The scan finds the foremost slot, or nothing when no slot wants the feature. -/
theorem selectByPriority_spec (feature : Feature) (requests : List Request) :
    (selectByPriority feature requests = none ∧
        ∀ request ∈ requests, request.wantsFeature feature = false) ∨
      ∃ request, selectByPriority feature requests = some request ∧
        Foremost feature requests request := by
  -- The scan reads the slots from the left, so the last slot is the last step.
  induction requests using List.reverseRecOn with
  | nil => exact .inl ⟨rfl, by simp⟩
  | append_singleton seen candidate ih =>
      have hstep : selectByPriority feature (seen ++ [candidate]) =
          if candidate.wantsFeature feature then
            match selectByPriority feature seen with
            | none => some candidate
            | some current =>
                if current.request.priority < candidate.request.priority then some candidate
                else selectByPriority feature seen
          else selectByPriority feature seen := by
        unfold selectByPriority
        rw [List.foldl_append]
        rfl
      rw [hstep]
      by_cases hwants : candidate.wantsFeature feature = true
      · rw [if_pos hwants]
        right
        rcases ih with ⟨hnone, hidle⟩ | ⟨current, hcurrent, before, after, rfl, hw, hbefore, hafter⟩
        · rw [hnone]
          refine ⟨candidate, rfl, seen, [], rfl, hwants, fun other hmem hother => ?_, by simp⟩
          rw [hidle other hmem] at hother
          cases hother
        · rw [hcurrent]
          by_cases hraise : current.request.priority < candidate.request.priority
          · refine ⟨candidate, if_pos hraise, _, [], rfl, hwants, fun other hmem hother => ?_,
              by simp⟩
            rcases List.mem_append.mp hmem with hmem | hmem
            · exact (hbefore other hmem hother).trans hraise
            · rcases List.mem_cons.mp hmem with rfl | hmem
              · exact hraise
              · exact (hafter other hmem hother).trans_lt hraise
          · refine ⟨current, if_neg hraise, before, after ++ [candidate], by simp, hw, hbefore,
              fun other hmem hother => ?_⟩
            rcases List.mem_append.mp hmem with hmem | hmem
            · exact hafter other hmem hother
            · rw [List.mem_singleton.mp hmem]
              exact not_lt.mp hraise
      · rw [if_neg hwants]
        rcases ih with ⟨hnone, hidle⟩ | ⟨current, hcurrent, before, after, rfl, hw, hbefore, hafter⟩
        · refine .inl ⟨hnone, fun other hmem => ?_⟩
          rcases List.mem_append.mp hmem with hmem | hmem
          · exact hidle other hmem
          · rw [List.mem_singleton.mp hmem]
            simpa using hwants
        · refine .inr ⟨current, hcurrent, before, after ++ [candidate], by simp, hw, hbefore,
            fun other hmem hother => ?_⟩
          rcases List.mem_append.mp hmem with hmem | hmem
          · exact hafter other hmem hother
          · rw [List.mem_singleton.mp hmem] at hother
            exact absurd hother hwants

/-! ## The request that leads a table -/

/-- The request of a table that passes a test and that no other such request precedes. -/
structure Leads (wants : Request → Bool) (requests : List Request) (request : Request) : Prop where
  mem : request ∈ requests
  passes : wants request = true
  first : ∀ other ∈ requests, wants other = true →
    scoreBetter (scoreRequest other) (scoreRequest request) = false

/-- The request leads those that are active and want a feature. -/
abbrev LeadsFor (feature : Feature) : List Request → Request → Prop :=
  Leads fun request => request.wantsFeature feature

/-- A table whose slots are shown otherwise, but score alike, is led by what leads it as it is. -/
theorem Leads.of_map {wants : Request → Bool} {g : Request → Request}
    (hscore : ∀ request, scoreRequest (g request) = scoreRequest request)
    {requests : List Request} {shown : Request} (h : Leads wants (requests.map g) shown) :
    ∃ request, shown = g request ∧ Leads (fun request => wants (g request)) requests request := by
  obtain ⟨request, hmem, rfl⟩ := List.mem_map.mp h.mem
  refine ⟨request, rfl, hmem, h.passes, fun other hother hwants => ?_⟩
  rw [← hscore other, ← hscore request]
  exact h.first _ (List.mem_map_of_mem hother) hwants

/-- The request with its effective priority in the place of its priority, as staging shows it. -/
def Request.raised (request : Request) : Request :=
  { request with
    request := { request.request with
      priority := (scoreRequest request).effectivePriority % 256 } }

/-- A slot as staging shows it. -/
def stagedSlot (feature : Feature) (request : Request) : Request :=
  if requestMatchesFeature feature request then request.raised else request

theorem stageRequests_eq (feature : Feature) (requests : List Request) :
    stageRequests feature requests =
      (stageSort (requestBetter feature) requests).map (stagedSlot feature) := rfl

@[simp] theorem stagedSlot_wants (feature : Feature) (request : Request) :
    (stagedSlot feature request).wantsFeature feature = request.wantsFeature feature := by
  unfold stagedSlot
  split_ifs <;> rfl

theorem stagedSlot_of_wants {feature : Feature} {request : Request}
    (h : request.wantsFeature feature = true) : stagedSlot feature request = request.raised := by
  rw [stagedSlot, requestMatchesFeature_eq, if_pos h]

/-- Priorities of the public interface are bytes. -/
def BytePriorities (requests : List Request) : Prop :=
  ∀ request ∈ requests, request.request.priority ≤ 255

/-- Identifiers of occupied slots are unique. -/
def UniqueIds (requests : List Request) : Prop :=
  requests.Pairwise fun a b => a.requestId = b.requestId → a.requestId = 0

theorem UniqueIds.eq {requests : List Request} (h : UniqueIds requests) {a b : Request}
    (ha : a ∈ requests) (hb : b ∈ requests) (hne : a.requestId ≠ 0)
    (hid : a.requestId = b.requestId) : a = b := by
  have hsymm : Std.Symm fun a b : Request => a.requestId = b.requestId → a.requestId = 0 :=
    ⟨fun x y hzero heq => heq.trans (hzero heq.symm)⟩
  by_contra hdiff
  exact hne (h.forall ha hb hdiff hid)

/-- The scan of a staged table finds a request that leads it. -/
theorem selectByPriority_staged (feature : Feature) {requests : List Request}
    (hbytes : BytePriorities requests) :
    (selectByPriority feature (stageRequests feature requests) = none ∧
        ∀ request ∈ requests, request.wantsFeature feature = false) ∨
      ∃ request, selectByPriority feature (stageRequests feature requests) = some request.raised ∧
        LeadsFor feature requests request := by
  have hperm := stageSort_perm (requestBetter feature) requests
  rcases selectByPriority_spec feature (stageRequests feature requests) with
    ⟨hnone, hidle⟩ | ⟨found, hfound, before, after, hsplit, hwants, hbefore, -⟩
  · refine .inl ⟨hnone, fun request hmem => ?_⟩
    rw [← stagedSlot_wants]
    exact hidle _ (List.mem_map_of_mem (hperm.mem_iff.mpr hmem))
  · right
    rw [stageRequests_eq, List.map_eq_append_iff] at hsplit
    obtain ⟨before, rest, hsorted, rfl, hrest⟩ := hsplit
    obtain ⟨request, after, rfl, rfl, rfl⟩ := List.map_eq_cons_iff.mp hrest
    rw [stagedSlot_wants] at hwants
    rw [stagedSlot_of_wants hwants] at hfound hbefore
    have horder : (stageSort (requestBetter feature) requests).Pairwise
        fun earlier later => requestBetter feature later earlier = false :=
      stageSort_sorted (requestBetter feature) (fun _ _ h => requestBetter_asymm h)
        (fun _ _ _ h h' => requestBetter_negTrans h h') requests
    rw [hsorted] at horder hperm
    obtain ⟨-, hafter, hbetween⟩ := List.pairwise_append.mp horder
    have hmem : request ∈ requests := hperm.mem_iff.mp (by simp)
    -- What stands before in the sorted slots cannot be of a lower priority.
    have hkeeps : ∀ other ∈ requests, other.wantsFeature feature = true →
        requestBetter feature other request = false →
        scoreBetter (scoreRequest other) (scoreRequest request) = false := by
      intro other _ hother hstays
      by_contra hbetter
      rw [← Bool.not_eq_true, requestBetter_iff, requestMatchesFeature_eq] at hstays
      exact hstays ⟨hother, .inr (by simpa using hbetter)⟩
    refine ⟨request, hfound, hmem, hwants, fun other hother hw => ?_⟩
    rcases List.mem_append.mp (hperm.mem_iff.mpr hother) with hin | hin
    · have hstays := hbetween other hin request (List.mem_cons_self ..)
      have hlower := hbefore _ (List.mem_map_of_mem hin)
        (by rw [stagedSlot_wants]; exact hw)
      rw [stagedSlot_of_wants hw] at hlower
      have hle : (scoreRequest request).effectivePriority ≤
          (scoreRequest other).effectivePriority := by
        by_contra hlt
        rw [← Bool.not_eq_true, requestBetter_iff, requestMatchesFeature_eq, hwants] at hstays
        exact hstays ⟨rfl, .inr (scoreBetter_iff.mpr (.inl (not_le.mp hlt)))⟩
      have hlower' : (scoreRequest other).effectivePriority % 256 <
          (scoreRequest request).effectivePriority % 256 := hlower
      have hbyte := effectivePriority_le (hbytes other hother)
      have hbyte' := effectivePriority_le (hbytes request hmem)
      omega
    · rcases List.mem_cons.mp hin with rfl | hin
      · by_contra hself
        have htrue : scoreBetter (scoreRequest other) (scoreRequest other) = true := by
          simpa using hself
        rw [scoreBetter_asymm htrue] at htrue
        cases htrue
      · exact hkeeps other hother hw ((List.pairwise_cons.mp hafter).1 other hin)

/-- At most one request leads a table of unique identifiers. -/
theorem Leads.unique {wants : Request → Bool} {requests : List Request} {a b : Request}
    (hactive : ∀ request, wants request = true → request.isActive = true)
    (hids : UniqueIds requests) (ha : Leads wants requests a) (hb : Leads wants requests b) :
    a = b := by
  have hscored : ∀ {r : Request}, wants r = true →
      r.requestId ≠ 0 ∧ (scoreRequest r).requestId = r.requestId := fun {r} hr =>
    ⟨(Request.isActive_iff.mp (hactive r hr)).1, by rw [scoreRequest_of_active (hactive r hr)]⟩
  by_contra hne
  have hid : (scoreRequest a).requestId ≠ (scoreRequest b).requestId := by
    rw [(hscored ha.passes).2, (hscored hb.passes).2]
    exact fun heq => hne (hids.eq ha.mem hb.mem (hscored ha.passes).1 heq)
  have hba := scoreBetter_total hid (hb.first a ha.mem ha.passes)
  rw [ha.first b hb.mem hb.passes] at hba
  cases hba

end LibApta
