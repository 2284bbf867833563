import LibApta.Session.DemandSpec
import LibApta.Session.Frame

/-!
# The request table over a run

A slot of the table is written once, by the call that enters a request; after that only its state
and its pass-over counter change. Selections age the counters. A process call gives verdicts: the
overview layer first, on the masks the layers around it show, then the detail layer. A call that
fails before the chunk loop is through gives none, one that fails to publish only the first.
-/

namespace LibApta

/-! ## Slots -/

/-- The request with its pass-over counter reset. -/
def Request.unskipped (request : Request) : Request := { request with skipCount := 0 }

/-- The request as it was entered. -/
def Request.entry (request : Request) : Request := { request with state := .queued, skipCount := 0 }

/-- Slots with the same entry hold the same request. -/
theorem request_of_entry {a b : Request} (h : a.entry = b.entry) :
    a.requestId = b.requestId ∧ a.request = b.request := by
  have hid : a.entry.requestId = b.entry.requestId := by rw [h]
  have hrequest : a.entry.request = b.entry.request := by rw [h]
  exact ⟨hid, hrequest⟩

/-- A selection changes counters only. -/
theorem noteChoice_unskipped (selected : ℕ) (requests : List Request) :
    (noteChoice selected requests).map Request.unskipped = requests.map Request.unskipped := by
  unfold noteChoice
  rw [List.map_map]
  refine List.map_congr_left fun request _ => ?_
  rw [Function.comp_apply]
  split_ifs <;> rfl

/-- Slots that agree but for their counters have the same entries. -/
theorem entries_of_unskipped {requests requests' : List Request}
    (h : requests'.map Request.unskipped = requests.map Request.unskipped) :
    requests'.map Request.entry = requests.map Request.entry := by
  have hentry : Request.entry = Request.entry ∘ Request.unskipped := rfl
  rw [hentry, ← List.map_map, h, List.map_map]

theorem noteChoice_entries (selected : ℕ) (requests : List Request) :
    (noteChoice selected requests).map Request.entry = requests.map Request.entry :=
  entries_of_unskipped (noteChoice_unskipped selected requests)

/-- Identifiers are unique when the entries are those of a table of unique identifiers. -/
theorem UniqueIds.of_entries {requests requests' : List Request} (h : UniqueIds requests)
    (heq : requests'.map Request.entry = requests.map Request.entry) : UniqueIds requests' := by
  have hentries : ∀ table : List Request, UniqueIds table ↔ UniqueIds (table.map Request.entry) := by
    intro table
    unfold UniqueIds
    rw [List.pairwise_map]
    rfl
  rw [hentries, heq, ← hentries]
  exact h

/-- Writing a free or fresh identifier into a slot keeps identifiers unique. -/
theorem UniqueIds.set {requests : List Request} (h : UniqueIds requests) {new : Request}
    (hnew : new.requestId = 0 ∨ ∀ other ∈ requests, other.requestId ≠ new.requestId) (slot : ℕ) :
    UniqueIds (requests.set slot new) := by
  induction requests generalizing slot with
  | nil => exact h
  | cons head rest ih =>
      obtain ⟨hhead, hrest⟩ := List.pairwise_cons.mp h
      have hnew' : new.requestId = 0 ∨ ∀ other ∈ rest, other.requestId ≠ new.requestId :=
        hnew.imp_right fun hall other hmem => hall other (List.mem_cons_of_mem _ hmem)
      cases slot with
      | zero =>
          refine List.pairwise_cons.mpr ⟨fun other hmem heq => ?_, hrest⟩
          exact hnew'.elim id fun hall => absurd heq.symm (hall other hmem)
      | succ slot =>
          refine List.pairwise_cons.mpr ⟨fun other hmem heq => ?_, ih hrest hnew' slot⟩
          rcases List.mem_or_eq_of_mem_set hmem with hmem | rfl
          · exact hhead other hmem heq
          · rcases hnew with hzero | hall
            · exact heq.trans hzero
            · exact absurd heq (hall head List.mem_cons_self)

/-- A property of the entries holds of every slot of a table with the same entries. -/
theorem forall_of_entries {P : Request → Prop} (hP : ∀ request, P request ↔ P request.entry)
    {requests requests' : List Request} (h : ∀ request ∈ requests, P request)
    (heq : requests'.map Request.entry = requests.map Request.entry) :
    ∀ request ∈ requests', P request := by
  intro request hmem
  have hentry : request.entry ∈ requests.map Request.entry :=
    heq ▸ List.mem_map_of_mem hmem
  obtain ⟨before, hbefore, hsame⟩ := List.mem_map.mp hentry
  rw [hP, ← hsame, ← hP]
  exact h before hbefore

namespace Session

/-! ## The verdicts of a process call -/

/-- The verdict of the overview layer on a request, on a mask with the features that stand for the
overview. -/
def overviewVerdict (features : FeatureMask) (s : Session) (request : Request) : Request :=
  { request with
    state := (s.updateRequestState (request.mapMask (withOverview features))).state }

/-- The verdict of the detail layer on a request, on such a mask. -/
def detailVerdict (features : FeatureMask) (s : Session) (request : Request) : Request :=
  { request with
    state := (s.updateDetailRequestState (request.mapMask (withOverview features))).state }

/-- The masks the overview layer of a process call sees. -/
def stagedMask (mask : FeatureMask) : FeatureMask :=
  withOverview {.waveformDetail} (withOverview s4Features mask)

/-- What the overview layer of a process call does to a slot. -/
def baseVerdict (s : Session) (request : Request) : Request :=
  { request with state := (s.updateRequestState (request.mapMask stagedMask)).state }

/-- What both layers of a process call do to a slot. -/
def bothVerdicts (s : Session) (request : Request) : Request :=
  detailVerdict s4Features s (s.baseVerdict request)

/-- The overview that a call has completed cannot be published: the generations are used up, memory is
refused, or it does not fit the pool. -/
def PublishRefused (s : Session) : Prop :=
  s.generation = uint64Max ∨ s.env.allocate.1 = false ∨
    (s.config.boundedResultSlots && poolOverflows { s with env := s.env.allocate.2 }) = true

/-- The session in which a process call gives its verdicts: after the chunk loop. -/
def decided (s : Session) (state : ChunkState) : Session := s.chunkEntry.setChunkState state

/-- Showing a request with another priority does not change a verdict. -/
private theorem updateRequestState_raise (s : Session) (request : Request) (priority : ℕ) :
    (s.updateRequestState { request with
      request := { request.request with priority := priority } }).state =
      (s.updateRequestState request).state := by
  unfold updateRequestState
  rw [show Request.wantsFeature { request with
    request := { request.request with priority := priority } } .waveformOverview =
      request.wantsFeature .waveformOverview from rfl]
  split_ifs <;> rfl

/-- The verdict of the overview layer keeps all but the state. -/
theorem updateRequestState_eq (s : Session) (request : Request) :
    s.updateRequestState request =
      { request with state := (s.updateRequestState request).state } := by
  unfold updateRequestState
  split_ifs <;> rfl

/-- The verdict of the detail layer keeps all but the state. -/
theorem updateDetailRequestState_eq (s : Session) (request : Request) :
    s.updateDetailRequestState request =
      { request with state := (s.updateDetailRequestState request).state } := by
  unfold updateDetailRequestState
  split_ifs <;> rfl

/-- The verdict of the detail layer is that of any session with the same tiles and end of input. -/
theorem updateDetailRequestState_congr {s t : Session} (hdetail : s.detail = t.detail)
    (hend : s.endOfInput = t.endOfInput) :
    s.updateDetailRequestState = t.updateDetailRequestState := by
  funext request
  unfold updateDetailRequestState
  rw [hdetail, hend]

/-- The verdict of the detail layer does not look at the counter. -/
theorem updateDetailRequestState_unskipped (s : Session) (request : Request) :
    s.updateDetailRequestState request.unskipped =
      (s.updateDetailRequestState request).unskipped := by
  unfold updateDetailRequestState
  by_cases hkept : request.requestId = 0 ∨ request.state = .cancelled ∨
      request.state = .failed ∨ Feature.waveformDetail ∉ request.request.featureMask
  · rw [if_pos hkept]
    exact if_pos hkept
  · rw [if_neg hkept]
    exact if_neg hkept

/-! ## The layers -/

theorem reserveAccumulators_requests (s : Session) :
    s.reserveAccumulators.2.requests = s.requests := by
  unfold reserveAccumulators
  simp only
  split_ifs <;> rfl

/-- The layers write the requests only to stage them and to give verdicts. -/
theorem requests_layer : LayerFrame Session.requests :=
  .of_unseen fun _ _ _ _ _ _ _ _ _ => rfl

/-- What the detail layer reads of the session besides its requests. -/
private def tileView (s : Session) : Detail × Option ℕ := (s.detail, s.endOfInput)

private theorem tileView_frame : OverviewFrame tileView :=
  ⟨⟨fun _ _ _ => rfl, fun _ _ _ _ => rfl⟩, fun _ _ => rfl, fun _ _ _ => rfl⟩

/-- A publication fails only when it is refused. -/
theorem publish_refused {features : FeatureMask} {s s' : Session} {status : Status}
    (h : s.publish features = (status, s')) (hfail : status.failed = true) : s.PublishRefused := by
  unfold publish at h
  by_cases hlast : s.generation = uint64Max
  · exact .inl hlast
  rw [if_neg hlast] at h
  cases hgranted : s.env.allocate with
  | mk granted env =>
      cases granted with
      | false => exact .inr (.inl (by rw [hgranted]))
      | true =>
          refine .inr (.inr ?_)
          rw [hgranted] at h ⊢
          simp only at h
          split_ifs at h with hoverflows
          · exact hoverflows
          · obtain ⟨rfl, -⟩ := Prod.mk.inj h
            cases hfail

/-- The overview layer gives its verdicts when the chunk loop is through. -/
theorem processBase_requests {budget : WorkBudget} {progress : Progress} {s s' : Session}
    {work : Work} (h : s.processBase budget progress = (work, s')) :
    (work.status.failed = true ∧ s'.requests = s.requests) ∨
      ∃ status state, s.runChunks budget = (status, state) ∧ status.failed = false ∧
        (work.status.failed = true → (s.setChunkState state).PublishRefused) ∧
        s'.requests = s.requests.map (s.setChunkState state).updateRequestState := by
  cases hrun : s.runChunks budget with
  | mk status state =>
      cases hfail : status.failed
      · refine .inr ⟨status, state, rfl, hfail, ?_⟩
        obtain ⟨base, progress', hbase, heq⟩ := processBase_eq progress hrun hfail
        rw [heq] at h
        split_ifs at h
        · cases hpub : (s.setChunkState state).updateRequestStates.publish {.waveformOverview} with
          | mk answer after =>
              rw [hpub] at h
              have hafter := requests_layer.publish hpub
              cases answer
              case error code =>
                obtain ⟨-, rfl⟩ := Prod.mk.inj h
                have hrefused := publish_refused hpub rfl
                exact ⟨fun _ => hrefused, hafter⟩
              all_goals
                obtain ⟨rfl, rfl⟩ := Prod.mk.inj h
                exact ⟨fun hfailed => absurd hfailed (by simp [Work.announce, hbase]), hafter⟩
        · obtain ⟨rfl, rfl⟩ := Prod.mk.inj h
          exact ⟨fun hfailed => absurd hfailed (by simp [hbase]), rfl⟩
      · unfold processBase at h
        rw [hrun] at h
        cases status with
        | error code =>
            obtain ⟨rfl, rfl⟩ := Prod.mk.inj h
            exact .inl ⟨rfl, rfl⟩
        | _ => exact absurd hfail (by simp [Status.failed])

/-- The end of the detail layer gives its verdicts. -/
theorem finishDetail_requests {changed : Bool} {selected : ℕ} {work work' : Work} {s s' : Session}
    (h : s.finishDetail changed selected work = (work', s')) :
    s'.requests.map Request.unskipped =
      (s.requests.map s.updateDetailRequestState).map Request.unskipped := by
  unfold finishDetail at h
  simp only at h
  have hverdicts : ∀ requests : List Request,
      requests.map Request.unskipped = s.requests.map Request.unskipped →
      (requests.map s.updateDetailRequestState).map Request.unskipped =
        (s.requests.map s.updateDetailRequestState).map Request.unskipped := by
    intro requests heq
    have hcomm : Request.unskipped ∘ s.updateDetailRequestState =
        Request.unskipped ∘ s.updateDetailRequestState ∘ Request.unskipped := by
      funext request
      simp only [Function.comp_apply, updateDetailRequestState_unskipped]
      rfl
    rw [List.map_map, List.map_map, hcomm, ← Function.comp_assoc, ← List.map_map, heq, List.map_map]
  have hnoted : (if work.didWork then { s with requests := noteChoice selected s.requests }
      else s).updateDetailRequestStates.requests.map Request.unskipped =
        (s.requests.map s.updateDetailRequestState).map Request.unskipped := by
    split_ifs
    · exact hverdicts _ (noteChoice_unskipped selected s.requests)
    · rfl
  generalize (if work.didWork then { s with requests := noteChoice selected s.requests }
    else s).updateDetailRequestStates = noted at h hnoted
  split_ifs at h
  · rw [requests_layer.publishDetail h]
    exact hnoted
  · obtain ⟨-, rfl⟩ := Prod.mk.inj h
    exact hnoted

/-- Putting masks and priorities back keeps the states that the layer in between has given. -/
theorem restoreDemand_requests {saved s : Session} {verdict show' : Request → Request}
    (hshow : ∀ request, ∃ mask priority, show' request = { request with
      request := { request.request with featureMask := mask, priority := priority } })
    (hverdict : ∀ request, verdict (show' request) =
      { show' request with state := (verdict (show' request)).state })
    (h : s.requests = (saved.requests.map show').map verdict) :
    (saved.restoreDemand s).requests =
      saved.requests.map fun request =>
        { request with state := (verdict (show' request)).state } := by
  show List.zipWith _ saved.requests s.requests = _
  rw [h, List.map_map, List.zipWith_map_right, List.zipWith_self]
  refine List.map_congr_left fun request _ => ?_
  obtain ⟨mask, priority, hmask⟩ := hshow request
  rw [Function.comp_apply, hverdict request, hmask]

/-- What a process call leaves of the requests it judges: those with the verdicts of the overview
layer, when its publication is refused, or those with the verdicts of both layers. -/
inductive Verdicts (refused : Prop) (base both : Request → Request) (requests : List Request) :
    List Request → Prop
  | base (h : refused) : Verdicts refused base both requests (requests.map base)
  | both {requests' : List Request}
      (h : requests'.map Request.unskipped = (requests.map both).map Request.unskipped) :
      Verdicts refused base both requests requests'

/-- The chunk loop from `entry` is through and leaves a state. -/
def ChunksDone (budget : WorkBudget) (entry : Session) (state : ChunkState) : Prop :=
  ∃ status, entry.runChunks budget = (status, state) ∧ status.failed = false

/-- The entry of the chunk loop from the entry of the detail layer. -/
def detailEntry (s : Session) : Session :=
  (s.refreshDetail.stageDemand.reserveAccumulators.2).raisePriorities

/-- A slot as the overview layer sees it from the detail layer. -/
private def shownSlot (request : Request) : Request :=
  if (request.mapMask (withOverview {.waveformDetail})).isActive then
    { request.mapMask (withOverview {.waveformDetail}) with
      request := { (request.mapMask (withOverview {.waveformDetail})).request with
        priority := (scoreRequest
          (request.mapMask (withOverview {.waveformDetail}))).effectivePriority % 256 } }
  else request.mapMask (withOverview {.waveformDetail})

private theorem detailEntry_requests (s : Session) :
    s.detailEntry.requests = s.requests.map shownSlot := by
  have hstaged : s.refreshDetail.stageDemand.reserveAccumulators.2.requests =
      s.requests.map (Request.mapMask (withOverview {.waveformDetail})) := by
    rw [reserveAccumulators_requests]
    show s.refreshDetail.requests.map _ = _
    rw [requests_layer.refreshDetail]
  show List.map _ s.refreshDetail.stageDemand.reserveAccumulators.2.requests = _
  rw [hstaged, List.map_map]
  rfl

private theorem shownSlot_shows (request : Request) :
    ∃ mask priority, shownSlot request = { request with
      request := { request.request with featureMask := mask, priority := priority } } := by
  unfold shownSlot
  split_ifs
  · exact ⟨_, _, rfl⟩
  · exact ⟨_, _, rfl⟩

private theorem shownSlot_restored (requests : List Request) :
    (requests.map fun request => ({ request with state := (shownSlot request).state } : Request)) =
      requests := by
  refine (List.map_congr_left fun request _ => ?_).trans (List.map_id _)
  obtain ⟨mask, priority, hshow⟩ := shownSlot_shows request
  rw [hshow]
  rfl

/-- The verdict on a slot shown to the overview layer. -/
private theorem shownSlot_verdict (s : Session) (request : Request) :
    ({ request with state := (s.updateRequestState (shownSlot request)).state } : Request) =
      overviewVerdict {.waveformDetail} s request := by
  unfold shownSlot
  split_ifs
  · exact congrArg (fun state => { request with state := state }) (updateRequestState_raise s _ _)
  · rfl

/-- The detail layer around the overview layer gives the verdicts of both. -/
theorem processDetail_requests {budget : WorkBudget} {progress : Progress} {s s' : Session}
    {work : Work} (h : s.processDetail budget progress = (work, s')) :
    (work.status.failed = true ∧ s'.requests = s.requests) ∨
      ∃ state, ChunksDone budget s.detailEntry state ∧
      Verdicts (s.detailEntry.setChunkState state).PublishRefused
        (overviewVerdict {.waveformDetail} (s.detailEntry.setChunkState state))
        (fun request => (s.detailEntry.setChunkState state).updateDetailRequestState
          (overviewVerdict {.waveformDetail} (s.detailEntry.setChunkState state) request))
        s.requests s'.requests := by
  unfold processDetail at h
  simp only at h
  have hrefreshed := requests_layer.refreshDetail s
  have hrestored : ∀ (staged : Session) (show' verdict : Request → Request),
      (∀ request, ∃ mask priority, show' request = { request with
        request := { request.request with featureMask := mask, priority := priority } }) →
      (∀ request, verdict (show' request) =
        { show' request with state := (verdict (show' request)).state }) →
      staged.requests = (s.requests.map show').map verdict →
      (s.refreshDetail.restoreDemand staged).requests = s.requests.map fun request =>
        { request with state := (verdict (show' request)).state } := by
    intro staged show' verdict hshow hverdict hstaged
    rw [restoreDemand_requests hshow hverdict (by rw [hstaged, hrefreshed]), hrefreshed]
  cases hreserve : s.refreshDetail.stageDemand.reserveAccumulators with
  | mk answer staged =>
      have hstaged : staged.requests = s.refreshDetail.stageDemand.requests := by
        rw [← reserveAccumulators_requests s.refreshDetail.stageDemand, hreserve]
      have hentry : s.detailEntry = staged.raisePriorities := by rw [detailEntry, hreserve]
      rw [hreserve] at h
      by_cases hrefused : ∃ code, answer = .error code
      · obtain ⟨code, rfl⟩ := hrefused
        obtain ⟨rfl, rfl⟩ := Prod.mk.inj h
        refine .inl ⟨rfl, ?_⟩
        rw [hrestored staged (Request.mapMask (withOverview {.waveformDetail})) id
          (fun request => ⟨_, _, rfl⟩) (fun request => rfl)
          (by rw [hstaged, List.map_id, ← hrefreshed]; rfl)]
        exact List.map_id' _
      cases hbase : staged.raisePriorities.processBase budget progress with
      | mk base after =>
          have hmatch : (if base.status.failed = true then (base, s.refreshDetail.restoreDemand after)
              else (s.refreshDetail.restoreDemand after).finishDetail
                (decide (s.refreshDetail.detail.mutationSerial ≠
                  s.refreshDetail.detail.publishedSerial))
                s.refreshDetail.stageDemand.headRequestId base) = (work, s') := by
            cases answer with
            | error code => exact absurd ⟨code, rfl⟩ hrefused
            | _ => simpa only [hbase] using h
          rw [← hentry] at hbase
          have htiles : tileView after = tileView s.detailEntry := tileView_frame.processBase hbase
          rcases processBase_requests hbase with ⟨hfail, hkept⟩ |
            ⟨status, state, hrun, hok, hrefused, hverdict⟩
          · rw [if_pos hfail] at hmatch
            obtain ⟨rfl, rfl⟩ := Prod.mk.inj hmatch
            refine .inl ⟨hfail, ?_⟩
            rw [hrestored after shownSlot id shownSlot_shows (fun request => rfl)
              (by rw [hkept, detailEntry_requests, List.map_id])]
            exact shownSlot_restored s.requests
          -- The verdicts of the overview layer survive the restoration.
          have hback : (s.refreshDetail.restoreDemand after).requests = s.requests.map
              (overviewVerdict {.waveformDetail} (s.detailEntry.setChunkState state)) := by
            rw [hrestored after shownSlot _ shownSlot_shows
              (fun request => updateRequestState_eq _ _) (by rw [hverdict, detailEntry_requests])]
            exact List.map_congr_left fun request _ => shownSlot_verdict _ request
          refine .inr ⟨state, ⟨status, hrun, hok⟩, ?_⟩
          cases hfail : base.status.failed
          · rw [hfail, if_neg Bool.false_ne_true] at hmatch
            have htile : (s.refreshDetail.restoreDemand after).updateDetailRequestState =
                (s.detailEntry.setChunkState state).updateDetailRequestState :=
              updateDetailRequestState_congr (congrArg Prod.fst htiles) (congrArg Prod.snd htiles)
            refine .both ?_
            rw [finishDetail_requests hmatch, hback, htile]
            exact congrArg (List.map Request.unskipped) List.map_map
          · rw [hfail, if_pos rfl] at hmatch
            obtain ⟨-, rfl⟩ := Prod.mk.inj hmatch
            rw [hback]
            exact .base (hrefused hfail)

/-- The verdicts that a process call can give to the requests of a session, or none when it is
`stopped` before. -/
def Judged (budget : WorkBudget) (s : Session) (stopped : Prop) (requests : List Request) : Prop :=
  (stopped ∧ requests = s.requests) ∨ ∃ state, ChunksDone budget s.chunkEntry state ∧
    Verdicts (s.decided state).PublishRefused (s.decided state).baseVerdict
      (s.decided state).bothVerdicts s.requests requests

/-- A slot with the mask and the priority it had before. -/
private def putBack (before after : Request) : Request :=
  { after with
    request := { after.request with
      featureMask := before.request.featureMask, priority := before.request.priority } }

/-- The restoration of verdicts given on other masks. -/
private theorem putBack_verdict (mask : FeatureMask → FeatureMask) (verdict : Request → Request)
    (hverdict : ∀ request, verdict request =
      { request with state := (verdict request).state }) (requests : List Request) :
    List.zipWith putBack requests (requests.map fun request => (verdict request).mapMask mask) =
      requests.map verdict := by
  rw [List.zipWith_map_right, List.zipWith_self]
  refine List.map_congr_left fun request _ => ?_
  rw [hverdict request]
  rfl

private theorem putBack_unskipped (requests requests' : List Request) :
    (List.zipWith putBack requests requests').map Request.unskipped =
      List.zipWith putBack requests (requests'.map Request.unskipped) := by
  rw [List.map_zipWith, List.zipWith_map_right]
  rfl

private theorem Judged.mono {budget : WorkBudget} {s : Session} {stopped stopped' : Prop}
    {requests : List Request} (h : Judged budget s stopped requests) (himp : stopped → stopped') :
    Judged budget s stopped' requests :=
  h.imp_left (And.imp_left himp)

/-- The local estimator around the detail layer. -/
theorem processS4_judged {budget : WorkBudget} {progress : Progress} {s s' : Session}
    {work : Work} (h : s.processS4 budget progress = some (work, s')) :
    Judged budget s (work.status.failed = true) s'.requests := by
  unfold processS4 at h
  cases hdetail : (s.demandOverview s4Features).processDetail budget progress with
  | mk base after =>
      rw [hdetail] at h
      have hjudged : Judged budget s (base.status.failed = true)
          (s.restoreDemand after).requests := by
        show Judged budget s _ (List.zipWith putBack s.requests after.requests)
        rcases processDetail_requests hdetail with ⟨hfailed, hkept⟩ | ⟨state, hdone, hverdicts⟩
        · refine .inl ⟨hfailed, ?_⟩
          rw [hkept]
          exact (putBack_verdict (withOverview s4Features) id (fun _ => rfl) s.requests).trans
            (List.map_id _)
        · refine .inr ⟨state, hdone, ?_⟩
          revert hverdicts
          generalize after.requests = requests
          intro hverdicts
          cases hverdicts with
          | base hrefused =>
              rw [show (s.demandOverview s4Features).requests.map (overviewVerdict {.waveformDetail}
                  ((s.demandOverview s4Features).detailEntry.setChunkState state)) =
                s.requests.map fun request => ((s.decided state).baseVerdict request).mapMask
                  (withOverview s4Features) from List.map_map,
                putBack_verdict _ _ (fun _ => rfl)]
              exact .base hrefused
          | both h =>
              have hshown : ∀ request, (s.decided state).updateDetailRequestState
                  (overviewVerdict {.waveformDetail} (s.decided state)
                    (request.mapMask (withOverview s4Features))) =
                  ((s.decided state).bothVerdicts request).mapMask (withOverview s4Features) :=
                fun request => updateDetailRequestState_eq _ _
              refine .both ?_
              rw [putBack_unskipped, h, ← putBack_unskipped]
              refine congrArg (List.map Request.unskipped) (Eq.trans ?_
                (putBack_verdict (withOverview s4Features) _ (fun _ => rfl) s.requests))
              refine congrArg (List.zipWith putBack s.requests) (List.map_map.trans ?_)
              exact List.map_congr_left fun request _ => hshown request
      simp only at h
      split_ifs at h with hfailed
      · obtain ⟨rfl, rfl⟩ := Prod.mk.inj (Option.some.inj h)
        exact hjudged
      · obtain ⟨⟨status, steps, refreshed⟩, hrefresh, h⟩ := Option.map_eq_some_iff.mp h
        have hrefreshed := requests_layer.refreshS4 hrefresh
        change refreshed.requests = (s.restoreDemand after).requests at hrefreshed
        rw [← hrefreshed] at hjudged
        -- The detail layer went through, so that a later failure stops nothing here.
        replace hjudged : Judged budget s (work.status.failed = true) refreshed.requests :=
          hjudged.mono fun hstopped => absurd hstopped hfailed
        simp only at h
        split_ifs at h
        · obtain ⟨-, rfl⟩ := Prod.mk.inj h
          exact hjudged
        · have hmark : ∀ s : Session, s.s4MarkPublished.requests = s.requests := fun _ => rfl
          rwa [requests_layer.publishPending hmark h, requests_layer.noteRangesMoved]

/-- The global estimator around the local one. -/
theorem processS6_judged {budget : WorkBudget} {progress : Progress} {s s' : Session}
    {work : Work} (h : s.processS6 budget progress = some (work, s')) :
    Judged budget s (work.status.failed = true) s'.requests := by
  unfold processS6 at h
  obtain ⟨⟨base, after⟩, hbase, h⟩ := Option.bind_eq_some_iff.mp h
  have hjudged := processS4_judged hbase
  simp only at h
  split_ifs at h with hfailed
  · obtain ⟨rfl, rfl⟩ := Prod.mk.inj (Option.some.inj h)
    exact hjudged
  · obtain ⟨⟨status, steps, refreshed⟩, hrefresh, h⟩ := Option.map_eq_some_iff.mp h
    have hrefreshed := requests_layer.refreshS6 hrefresh
    change refreshed.requests = after.requests at hrefreshed
    rw [← hrefreshed] at hjudged
    replace hjudged : Judged budget s (work.status.failed = true) refreshed.requests :=
      hjudged.mono fun hstopped => absurd hstopped hfailed
    simp only at h
    split_ifs at h
    · obtain ⟨-, rfl⟩ := Prod.mk.inj h
      exact hjudged
    · have hmark : ∀ s : Session, s.s6MarkPublished.requests = s.requests := fun _ => rfl
      rwa [requests_layer.publishPending hmark h]

/-- The layers give their verdicts, unless they fail or the session has no overview. -/
theorem runLayers_judged {budget : WorkBudget} {progress : Progress} {s s' : Session}
    {work : Work} (h : s.runLayers budget progress = some (work, s')) :
    Judged budget s (work.status.failed = true ∨ s.config.requests .waveformOverview = false)
      s'.requests := by
  unfold runLayers at h
  split_ifs at h with hoverview
  · exact (processS6_judged h).mono .inl
  · rw [← (Prod.mk.inj (Option.some.inj h)).2]
    exact .inl ⟨.inr (Bool.eq_false_iff.mpr hoverview), rfl⟩

/-- A process call gives its verdicts to the requests it finds, or leaves them. -/
theorem processImpl_judged {budget : WorkBudget} {s s' : Session} {status : Status}
    {progress : Progress} (h : s.processImpl budget = some (status, progress, s')) :
    Judged budget (s.started budget) True s'.requests := by
  obtain ⟨u, rfl, hu⟩ := processImpl_cases h
  show Judged budget (s.started budget) True u.requests
  cases hu with
  | idle => exact .inl ⟨trivial, rfl⟩
  | cancelled _ h => exact .inl ⟨trivial, requests_layer.transition h⟩
  | worked _ _ hrun => exact (runLayers_judged hrun).mono fun _ => trivial
  | completed _ _ hrun _ _ _ hdone =>
      rw [requests_layer.transition hdone]
      exact (runLayers_judged hrun).mono fun _ => trivial

/-! ## Entering requests -/

/-- What entering a request does to the table: a free slot takes it, or is cleared when the enqueue
serials are used up. -/
inductive Enters (request : RegionRequest) (requests : List Request) : List Request → Prop
  | kept : Enters request requests requests
  | cleared {slot : ℕ} {old : Request} (hold : requests[slot]? = some old)
      (hfree : old.requestId = 0) : Enters request requests (requests.set slot .empty)
  | entered {slot requestId serial : ℕ} {old : Request} (hold : requests[slot]? = some old)
      (hfree : old.requestId = 0) (hne : requestId ≠ 0)
      (hnew : ∀ other ∈ requests, other.requestId ≠ requestId) :
      Enters request requests (requests.set slot
        ⟨requestId, { request with requestId := requestId }, .queued, 0, serial⟩)

theorem requestIdExists_eq_false {requests : List Request} {requestId : ℕ} (hne : requestId ≠ 0) :
    requestIdExists requests requestId = false ↔
      ∀ other ∈ requests, other.requestId ≠ requestId := by
  simp [requestIdExists, hne]

/-- An allocated identifier is not zero and not in use. -/
theorem allocateRequestId_some {requests : List Request} {fuel next requestId next' : ℕ}
    (h : allocateRequestId requests fuel next = (some requestId, next')) :
    requestId ≠ 0 ∧ requestIdExists requests requestId = false := by
  induction fuel generalizing next with
  | zero => simp [allocateRequestId] at h
  | succ fuel ih =>
      unfold allocateRequestId at h
      split_ifs at h with htaken
      · exact ih h
      · obtain ⟨rfl, -⟩ : next = requestId ∧ _ := by simpa using h
        exact ⟨fun hzero => htaken (.inl hzero), by simpa using fun h => htaken (.inr h)⟩

theorem requestRegion_enters (request : RegionRequest) (s : Session) :
    Enters request s.requests (s.requestRegion request).2.2.requests := by
  unfold requestRegion
  by_cases hfeatures : ¬request.featureMask ⊆ s.config.requestedFeatures
  · rw [if_pos hfeatures]
    exact .kept
  rw [if_neg hfeatures]
  by_cases hempty : request.range.endFrame ≤ request.range.firstFrame ∨ request.featureMask = ∅
  · rw [if_pos hempty]
    exact .kept
  rw [if_neg hempty]
  by_cases hsupported : ¬request.featureMask ⊆ s.config.capabilities
  · rw [if_pos hsupported]
    exact .kept
  rw [if_neg hsupported]
  by_cases hexists : requestIdExists s.requests request.requestId = true
  · rw [if_pos hexists]
    exact .kept
  rw [if_neg hexists]
  cases hslot : s.requests.findIdx? fun slot => slot.requestId == 0 with
  | none => exact .kept
  | some slot =>
      obtain ⟨hlt, hfree, -⟩ := List.findIdx?_eq_some_iff_getElem.mp hslot
      have hold : s.requests[slot]? = some (s.requests.get ⟨slot, hlt⟩) :=
        List.getElem?_eq_getElem hlt
      have hfree' : (s.requests.get ⟨slot, hlt⟩).requestId = 0 := by simpa using hfree
      simp only
      cases hid : (if request.requestId ≠ 0 then (some request.requestId, s.nextRequestId)
          else allocateRequestId s.requests (maxRegionRequests + 2) s.nextRequestId) with
      | mk granted next =>
          cases granted with
          | none => exact .kept
          | some requestId =>
              have hfresh : requestId ≠ 0 ∧ requestIdExists s.requests requestId = false := by
                by_cases hnamed : request.requestId ≠ 0
                · rw [if_pos hnamed] at hid
                  obtain ⟨rfl, -⟩ : request.requestId = requestId ∧ _ := by simpa using hid
                  exact ⟨hnamed, by simpa using hexists⟩
                · rw [if_neg hnamed] at hid
                  exact allocateRequestId_some hid
              simp only
              split_ifs
              · exact .cleared hold hfree'
              · exact .entered hold hfree' hfresh.1
                  ((requestIdExists_eq_false hfresh.1).mp hfresh.2)

theorem Enters.uniqueIds {request : RegionRequest} {requests requests' : List Request}
    (h : Enters request requests requests') (hids : UniqueIds requests) : UniqueIds requests' := by
  cases h with
  | kept => exact hids
  | cleared => exact hids.set (.inl rfl) _
  | entered _ _ _ hnew => exact hids.set (.inr hnew) _

/-- What holds of the empty slot and of the request that is entered holds of the whole table. -/
theorem Enters.forall {request : RegionRequest} {requests requests' : List Request}
    {P : Request → Prop} (h : Enters request requests requests')
    (hall : ∀ slot ∈ requests, P slot) (hempty : P .empty)
    (hentered : ∀ requestId serial,
      P ⟨requestId, { request with requestId := requestId }, .queued, 0, serial⟩) :
    ∀ slot ∈ requests', P slot := by
  intro slot hmem
  cases h with
  | kept => exact hall slot hmem
  | cleared =>
      rcases List.mem_or_eq_of_mem_set hmem with hmem | rfl
      · exact hall slot hmem
      · exact hempty
  | entered =>
      rcases List.mem_or_eq_of_mem_set hmem with hmem | rfl
      · exact hall slot hmem
      · exact hentered _ _

/-! ## Every call -/

section Calls

private theorem requests_host : HostFrame Session.requests :=
  ⟨⟨fun _ _ _ => rfl, fun _ _ _ _ => rfl⟩, fun _ _ _ => rfl, fun _ _ _ _ => rfl, fun _ _ => rfl,
    fun _ _ _ _ _ => rfl, fun _ _ _ _ _ _ => rfl, fun _ => rfl⟩

private theorem requests_intake : IntakeFrame Session.requests :=
  ⟨⟨fun _ _ _ => rfl, fun _ _ _ _ => rfl⟩, fun _ _ _ => rfl, fun _ _ => rfl⟩

variable {s s' : Session}

theorem noting_entries (token : ℕ) (s : Session) :
    (s.noting token).requests.map Request.entry = s.requests.map Request.entry :=
  noteChoice_entries token s.requests

/-- Entries of a table and of the table after another step that keeps them. -/
private theorem pullNext_requests (source : PullSource) (budget : WorkBudget) (s : Session) :
    (s.pullNext source budget).2.requests = s.requests ∨
      ∃ token, (s.pullNext source budget).2.requests = noteChoice token s.requests := by
  have hended : ∀ (t : Session) (finalEnd : ℕ), (t.endInput finalEnd).2.requests = t.requests :=
    fun t finalEnd => requests_host.endInput rfl
  unfold pullNext
  by_cases hqueued : s.queue ≠ []
  · rw [if_pos hqueued]
    exact .inl rfl
  rw [if_neg hqueued, nextOverviewRequest_eq]
  cases nextOverviewRequestBase
      { s with requests := stageRequests .waveformOverview s.requests } with
  | error status =>
      left
      cases status
      case error code => rfl
      all_goals
        simp only
        split
        · exact hended s _
        · rfl
  | ok request =>
      refine .inr ⟨request.requestToken, ?_⟩
      show _ = (s.noting request.requestToken).requests
      simp only
      split
      · rfl
      · split_ifs
        · exact requests_intake.sourceFailure _
        · exact hended _ _
      · exact requests_intake.sourceFailure _
      · exact requests_intake.acceptPulled _ _ _ _

/-- Pulling ages requests at most. -/
theorem pullPcm_requests (source : PullSource) (budget : WorkBudget) (s : Session) :
    (s.pullPcm source budget).2.requests = s.requests ∨
      ∃ token, (s.pullPcm source budget).2.requests = noteChoice token s.requests := by
  unfold pullPcm
  split_ifs
  · exact .inl rfl
  split
  · exact .inl rfl
  · exact .inl rfl
  · exact .inl rfl
  · exact .inl rfl
  · exact pullNext_requests source budget s

theorem pullPcm_entries (source : PullSource) (budget : WorkBudget) (s : Session) :
    (s.pullPcm source budget).2.requests.map Request.entry = s.requests.map Request.entry := by
  rcases pullPcm_requests source budget s with h | ⟨token, h⟩
  · rw [h]
  · rw [h, noteChoice_entries]

/-- Verdicts keep the entries. -/
theorem Judged.entries {budget : WorkBudget} {stopped : Prop} {requests : List Request}
    (h : Judged budget s stopped requests) :
    requests.map Request.entry = s.requests.map Request.entry := by
  rcases h with ⟨-, rfl⟩ | ⟨state, -, hverdicts⟩
  · rfl
  · cases hverdicts with
    | base =>
        rw [List.map_map]
        rfl
    | both h =>
        rw [entries_of_unskipped h, List.map_map]
        rfl

theorem processImpl_entries {budget : WorkBudget} {status : Status} {progress : Progress}
    (h : s.processImpl budget = some (status, progress, s')) :
    s'.requests.map Request.entry = s.requests.map Request.entry :=
  (processImpl_judged h).entries

/-- A process call pulls or does not, and then runs without the pull adapter or stops. -/
theorem process_cases {source : PullSource} {budget : WorkBudget} {status : Status}
    {progress : Progress} (h : s.process source budget = some (status, progress, s')) :
    ∃ t, (t = s ∨ t = (s.pullPcm source budget).2) ∧
      (s' = t ∨ t.processImpl budget = some (status, progress, s')) := by
  unfold process at h
  split_ifs at h
  · cases hpull : s.pullPcm source budget with
    | mk answer t =>
        rw [hpull] at h
        refine ⟨t, .inr rfl, ?_⟩
        cases answer
        case error code =>
          simp only [Option.some.injEq, Prod.mk.injEq] at h
          exact .inl h.2.2.symm
        all_goals exact .inr h
  · exact ⟨s, .inl rfl, .inr h⟩

theorem process_entries {source : PullSource} {budget : WorkBudget} {status : Status}
    {progress : Progress} (h : s.process source budget = some (status, progress, s')) :
    s'.requests.map Request.entry = s.requests.map Request.entry := by
  obtain ⟨t, ht, hs'⟩ := process_cases h
  have hpulled : t.requests.map Request.entry = s.requests.map Request.entry := by
    rcases ht with rfl | rfl
    · rfl
    · exact pullPcm_entries source budget s
  rcases hs' with rfl | himpl
  · exact hpulled
  · rw [processImpl_entries himpl, hpulled]

/-- The session after a demand. -/
theorem perform_nextPcmRequest {status : Status}
    (h : perform .nextPcmRequest s = some (status, s')) : s' = s.nextPcmRequest.2 := by
  simp only [perform] at h
  cases hnext : s.nextPcmRequest with
  | mk answer t =>
      rw [hnext] at h
      cases answer <;> exact (congrArg Prod.snd (Option.some.inj h)).symm

/-- The host operations that leave the whole table alone. -/
def keepsRequests : Op → Bool
  | .requestRegion _ | .cancelRegionRequest _ | .nextPcmRequest | .process _ _ => false
  | _ => true

theorem perform_requests {op : Op} {status : Status} (hop : keepsRequests op = true)
    (h : perform op s = some (status, s')) : s'.requests = s.requests := by
  cases op with
  | setSource sourceTotal =>
      have heq : (s.setSource sourceTotal).2 = s' := congrArg Prod.snd (Option.some.inj h)
      rw [← heq]
      exact requests_host.setSource sourceTotal s
  | seedFromResult result =>
      have heq : (s.seedFromResult result).2 = s' := congrArg Prod.snd (Option.some.inj h)
      rw [← heq]
      exact requests_host.seedFromResult result s
  | setMetadata metadata => exact requests_host.setMetadata (Option.some.inj h)
  | setFocus focus =>
      have heq : (s.setFocus focus).2 = s' := congrArg Prod.snd (Option.some.inj h)
      rw [← heq]
      unfold setFocus
      split_ifs <;> rfl
  | pushPcm block =>
      have heq : (s.pushPcm block).2.2 = s' := congrArg Prod.snd (Option.some.inj h)
      rw [← heq]
      exact requests_intake.pushPcm block s
  | signalEndOfInput finalEnd => exact requests_host.signalEndOfInput (Option.some.inj h)
  | lockGridRange range => exact requests_host.lockGridRange (Option.some.inj h)
  | applyGridRevision revisionId => exact requests_host.applyGridRevision (Option.some.inj h)
  | requestCancel =>
      have heq : s.requestCancel = s' := congrArg Prod.snd (Option.some.inj h)
      rw [← heq]
      exact requests_host.requestCancel s
  | _ => cases hop

/-- A cancellation marks the slot of the request. -/
theorem cancelRegionRequest_requests (requestId : ℕ) (s : Session) :
    (s.cancelRegionRequest requestId).2.requests = s.requests ∨
      ∃ slot old, s.requests[slot]? = some old ∧ old.requestId = requestId ∧
        (s.cancelRegionRequest requestId).2.requests =
          s.requests.set slot { old with state := .cancelled } := by
  unfold cancelRegionRequest
  by_cases hzero : requestId = 0
  · rw [if_pos hzero]
    exact .inl rfl
  rw [if_neg hzero]
  cases hslot : s.requests.findIdx? fun slot => slot.requestId == requestId with
  | none => exact .inl rfl
  | some slot =>
      obtain ⟨hlt, hid, -⟩ := List.findIdx?_eq_some_iff_getElem.mp hslot
      have hold : s.requests[slot]? = some (s.requests.get ⟨slot, hlt⟩) :=
        List.getElem?_eq_getElem hlt
      refine .inr ⟨slot, _, hold, by simpa using hid, ?_⟩
      show List.modify _ _ _ = _
      rw [List.modify_eq_set_getElem?, hold]
      rfl

/-- Writing an element does not show through a map that sees no difference. -/
private theorem map_set_of_eq {α β : Type} {g : α → β} {l : List α} {i : ℕ} {old new : α}
    (hold : l[i]? = some old) (hg : g new = g old) : (l.set i new).map g = l.map g := by
  refine List.ext_getElem? fun j => ?_
  rw [List.getElem?_map, List.getElem?_map, List.getElem?_set]
  split_ifs with heq hlt
  · subst heq
    rw [hold]
    exact congrArg some hg
  · subst heq
    rw [List.getElem?_eq_none (not_lt.mp hlt)]
  · rfl

/-- Only entering a request changes the entries of the table. -/
theorem perform_entries {op : Op} {status : Status} (hop : ∀ request, op ≠ .requestRegion request)
    (h : perform op s = some (status, s')) :
    s'.requests.map Request.entry = s.requests.map Request.entry := by
  by_cases hkeeps : keepsRequests op = true
  · rw [perform_requests hkeeps h]
  cases op with
  | requestRegion request => exact absurd rfl (hop request)
  | cancelRegionRequest requestId =>
      have heq : (s.cancelRegionRequest requestId).2 = s' := congrArg Prod.snd (Option.some.inj h)
      rw [← heq]
      rcases cancelRegionRequest_requests requestId s with hkept | ⟨slot, old, hold, -, hcancelled⟩
      · rw [hkept]
      · rw [hcancelled]
        exact map_set_of_eq hold rfl
  | nextPcmRequest =>
      rw [perform_nextPcmRequest h, nextPcmRequest_session]
      cases s.nextPcmRequest.1 with
      | ok request => exact noting_entries _ s
      | error status => rfl
  | process source budget =>
      obtain ⟨⟨answer, progress, after⟩, hprocess, heq⟩ := Option.map_eq_some_iff.mp h
      rw [← (Prod.mk.inj heq).2]
      exact process_entries hprocess
  | _ => exact absurd rfl hkeeps

end Calls

end Session

/-! ## The table of a run -/

/-- The arguments of a call are of the types of the interface: priorities are bytes, identifiers
have 32 bits, frames 64. -/
def Op.Typed : Op → Prop
  | .requestRegion request =>
      request.priority ≤ 255 ∧ request.requestId ≤ uint32Max ∧
        request.range.firstFrame ≤ uint64Max ∧ request.range.endFrame ≤ uint64Max
  | .setFocus focus => focus.priority ≤ 255 ∧ focus.playheadFrame ≤ uint64Max
  | .setSource sourceTotal => ∀ total ∈ sourceTotal, total ≤ uint64Max
  | .signalEndOfInput finalEnd => finalEnd ≤ uint64Max
  | _ => True

namespace Session

/-- The calls of a run have arguments of the types of the interface. -/
def TypedRun (calls : List Call) : Prop := ∀ call ∈ calls, call.op.Typed

/-- The table of a run: unique identifiers, and priorities and ends that fit their types. -/
structure RunTable (requests : List Request) : Prop where
  ids : UniqueIds requests
  bytes : BytePriorities requests
  ends : ∀ request ∈ requests, request.request.range.endFrame ≤ uint64Max

theorem RunTable.empty : RunTable (List.replicate maxRegionRequests .empty) where
  ids := List.pairwise_replicate.mpr (.inr fun _ => rfl)
  bytes request hmem := by
    rw [List.eq_of_mem_replicate hmem]
    exact Nat.zero_le _
  ends request hmem := by
    rw [List.eq_of_mem_replicate hmem]
    exact Nat.zero_le _

theorem RunTable.of_entries {requests requests' : List Request} (h : RunTable requests)
    (heq : requests'.map Request.entry = requests.map Request.entry) : RunTable requests' where
  ids := h.ids.of_entries heq
  bytes := forall_of_entries (fun _ => Iff.rfl) h.bytes heq
  ends := forall_of_entries (fun _ => Iff.rfl) h.ends heq

theorem RunTable.enters {request : RegionRequest} {requests requests' : List Request}
    (h : RunTable requests) (htyped : (Op.requestRegion request).Typed)
    (h' : Enters request requests requests') : RunTable requests' where
  ids := h'.uniqueIds h.ids
  bytes := h'.forall h.bytes (Nat.zero_le _) fun _ _ => htyped.1
  ends := h'.forall h.ends (Nat.zero_le _) fun _ _ => htyped.2.2.2

theorem perform_runTable {op : Op} {s s' : Session} {status : Status} (htyped : op.Typed)
    (hs : RunTable s.requests) (h : perform op s = some (status, s')) : RunTable s'.requests := by
  by_cases hop : ∃ request, op = .requestRegion request
  · obtain ⟨request, rfl⟩ := hop
    have heq : (s.requestRegion request).2.2 = s' := congrArg Prod.snd (Option.some.inj h)
    rw [← heq]
    exact hs.enters htyped (requestRegion_enters request s)
  · exact hs.of_entries (perform_entries (fun request heq => hop ⟨request, heq⟩) h)

theorem created_requests {s : Session} (h : Created s) :
    s.requests = List.replicate maxRegionRequests .empty := by
  obtain ⟨config, libm, usesWorkspace, env, -, rfl⟩ := created_eq h
  rfl

/-- A run of calls with arguments of their types, as a guarded run. -/
theorem TypedRun.guarded {calls : List Call} (h : TypedRun calls) (s : Session) :
    Guarded (fun call _ => call.op.Typed) calls s := Runs.guarded_of_forall h s

/-- Every session that a run reaches has such a table. -/
theorem run_runTable {calls : List Call} {s s' : Session} (hcreated : Created s)
    (htyped : TypedRun calls) (hrun : run calls s = some s') : RunTable s'.requests := by
  refine Runs.invariant (P := fun s : Session => RunTable s.requests) ?_
    (created_requests hcreated ▸ RunTable.empty) (htyped.guarded s) hrun
  intro call s s' hs hcall hstep
  obtain ⟨⟨status, after⟩, hperform, rfl⟩ := Option.map_eq_some_iff.mp hstep
  exact perform_runTable (s := s.withPlatform call) hcall hs hperform

end Session

end LibApta
