import LibApta.Session.Intake

/-!
# What becomes of a pushed block

A block whose first frame is not accepted yet is accepted as far as memory allows; one whose first
frame is accepted conflicts, and is offered to the detail layer as a replay.
-/

namespace LibApta

namespace Session

/-! ## Statuses -/

/-- A status that is no error but for lack of memory or of room. -/
def Spares (status : Status) : Prop := ∀ code, status = .error code → lacksRoom code

theorem spares_of_ne {status : Status} (h : ∀ code, status ≠ .error code) : Spares status :=
  fun code heq => absurd heq (h code)

/-- Such a status settles a delivery without failing the session. -/
theorem settleDelivery_spares {status : Status} (h : Spares status) (s : Session) :
    (s.settleDelivery status).2 = s := by
  cases status with
  | error code => rw [settleDelivery_lacksRoom (h code rfl)]
  | _ => rfl

/-! ## The estimators -/

theorem prepareEstimators_status (s : Session) :
    s.prepareEstimators.1 = .ok ∨ s.prepareEstimators.1 = .error .outOfMemory := by
  have hs4 : ∀ (features : FeatureMask) (s4 : S4State) (env : Environment),
      (S4State.prepare features s4 env).1 = .ok ∨
        (S4State.prepare features s4 env).1 = .error .outOfMemory := by
    intro features s4 env
    unfold S4State.prepare
    split_ifs
    · exact .inl rfl
    split
    · exact .inr rfl
    split
    · exact .inr rfl
    · exact .inl rfl
  have hs6 : ∀ (features : FeatureMask) (s6 : Option S6State) (env : Environment),
      (S6State.prepare features s6 env).1 = .ok ∨
        (S6State.prepare features s6 env).1 = .error .outOfMemory := by
    intro features s6 env
    unfold S6State.prepare
    split_ifs
    · exact .inl rfl
    split
    · exact .inr rfl
    simp only
    split_ifs
    · exact .inl rfl
    · exact .inr rfl
  unfold prepareEstimators
  have hfirst := hs4 s.config.requestedFeatures s.s4 s.env
  split
  · exact hs6 _ _ _
  · next status s4 env _ heq =>
      rw [heq] at hfirst
      exact hfirst

/-- With memory to spare the estimators are there. -/
theorem prepareEstimators_granting {s : Session} (h : s.env.Granting) :
    s.prepareEstimators.1 = .ok ∧ s.prepareEstimators.2.env.Granting := by
  have hs4 : ∀ (features : FeatureMask) (s4 : S4State) (env : Environment), env.Granting →
      (S4State.prepare features s4 env).1 = .ok ∧
        (S4State.prepare features s4 env).2.2.Granting := by
    intro features s4 env henv
    unfold S4State.prepare
    split_ifs
    · exact ⟨rfl, henv⟩
    obtain ⟨hfirst, henv⟩ := henv.allocate
    rw [← Prod.mk.eta (p := env.allocate), hfirst]
    obtain ⟨hsecond, henv⟩ := henv.allocate
    simp only
    rw [← Prod.mk.eta (p := env.allocate.2.allocate), hsecond]
    exact ⟨rfl, henv⟩
  have hs6 : ∀ (features : FeatureMask) (s6 : Option S6State) (env : Environment), env.Granting →
      (S6State.prepare features s6 env).1 = .ok ∧
        (S6State.prepare features s6 env).2.2.Granting := by
    intro features s6 env henv
    unfold S6State.prepare
    split_ifs
    · exact ⟨rfl, henv⟩
    obtain ⟨hstate, hbins⟩ := henv.allocate
    obtain ⟨hbins', hflux⟩ := hbins.allocate
    obtain ⟨hflux', hbeats⟩ := hflux.allocate
    obtain ⟨hbeats', hrest⟩ := hbeats.allocate
    rw [← Prod.mk.eta (p := env.allocate), hstate]
    simp only [hbins', hflux', hbeats', Bool.and_self, if_true]
    exact ⟨trivial, hrest⟩
  unfold prepareEstimators
  obtain ⟨hok, henv⟩ := hs4 s.config.requestedFeatures s.s4 s.env h
  split
  · next s4 env heq =>
      rw [heq] at henv
      exact hs6 _ _ _ henv
  · next status s4 env hne heq =>
      rw [heq] at hok
      exact absurd hok hne

/-! ## The waveform layer -/

/-- A block that starts at an accepted frame conflicts. -/
theorem acceptPcmBase_taken {block : PcmBlock} {s : Session}
    (hordered : Interval.Ordered s.accepted.ranges) (hpos : 0 < block.frameCount)
    (htaken : block.firstFrame ∈ s.accepted.frames) :
    s.acceptPcmBase block = (.error .conflict, 0, s) := by
  have hcandidate : 0 < min block.frameCount maxPushFrames := lt_min hpos (by norm_num)
  rcases AcceptedRanges.nonoverlappingPrefix_spec hordered block.firstFrame hcandidate with
    ⟨heq, -⟩ | ⟨-, hn, -, hfree⟩
  · unfold acceptPcmBase
    simp only [heq, if_true]
  · exact absurd htaken (hfree block.firstFrame le_rfl (Nat.lt_add_of_pos_right hn))

/-- A block that starts at a missing frame is accepted, or there is no room for it. -/
theorem acceptPcmBase_fresh {block : PcmBlock} {s : Session}
    (hordered : Interval.Ordered s.accepted.ranges) (hpos : 0 < block.frameCount)
    (hfresh : block.firstFrame ∉ s.accepted.frames) : Spares (s.acceptPcmBase block).1 := by
  have hcandidate : 0 < min block.frameCount maxPushFrames := lt_min hpos (by norm_num)
  rcases AcceptedRanges.nonoverlappingPrefix_spec hordered block.firstFrame hcandidate with
    ⟨-, htaken⟩ | ⟨-, hn, -, -⟩
  · exact absurd htaken hfresh
  unfold acceptPcmBase
  simp only
  rw [if_neg hn.ne']
  cases hroom : s.accepted.ensureCapacity (s.accepted.ranges.length + 1) s.env with
  | mk answer rest =>
      obtain ⟨table, env⟩ := rest
      rcases (AcceptedRanges.ensureCapacity_cases hroom).2 with rfl | rfl | rfl
      · simp only
        split
        · exact spares_of_ne fun code heq => by cases heq
        · refine spares_of_ne fun code heq => ?_
          dsimp only at heq
          split_ifs at heq
      · intro code heq
        cases heq
        exact .inl rfl
      · exact spares_of_ne fun code heq => by cases heq

/-- With memory a node holds all the samples that are asked for. -/
theorem allocateNode_granted {fuel frames : ℕ} {env : Environment} (hpos : 0 < frames)
    (h : env.Granting) :
    ∃ env', env'.Granting ∧ allocateNode (fuel + 1) frames env = (some frames, env') := by
  obtain ⟨hgranted, hrest⟩ := h.allocate
  refine ⟨_, hrest, ?_⟩
  unfold allocateNode
  rw [if_neg hpos.ne', ← Prod.mk.eta (p := env.allocate), hgranted]

/-- Frames of a block that the waveform layer accepts when nothing is refused. -/
def acceptedCount (block : PcmBlock) (s : Session) : ℕ :=
  (AcceptedRanges.nonoverlappingPrefix block.firstFrame (min block.frameCount maxPushFrames)
    s.accepted.ranges).1

theorem acceptedCount_pos {block : PcmBlock} {s : Session}
    (hordered : Interval.Ordered s.accepted.ranges) (hpos : 0 < block.frameCount)
    (hfresh : block.firstFrame ∉ s.accepted.frames) :
    0 < s.acceptedCount block ∧ s.acceptedCount block ≤ block.frameCount ∧
      ∀ frame, block.firstFrame ≤ frame → frame < block.firstFrame + s.acceptedCount block →
        frame ∉ s.accepted.frames := by
  have hcandidate : 0 < min block.frameCount maxPushFrames := lt_min hpos (by norm_num)
  rcases AcceptedRanges.nonoverlappingPrefix_spec hordered block.firstFrame hcandidate with
    ⟨-, htaken⟩ | ⟨-, hn, hle, hfree⟩
  · exact absurd htaken hfresh
  · exact ⟨hn, hle.trans (Nat.min_le_left _ _), hfree⟩

/-- With memory and room the waveform layer accepts the missing frames a block starts with. -/
theorem acceptPcmBase_granted {block : PcmBlock} {s : Session}
    (hordered : Interval.Ordered s.accepted.ranges) (hpos : 0 < block.frameCount)
    (hfresh : block.firstFrame ∉ s.accepted.frames) (hgranting : s.env.Granting)
    (hroom : s.accepted.HasRoom) :
    ∃ capacity env, env.Granting ∧ s.acceptPcmBase block =
      (if s.acceptedCount block = block.frameCount then .ok else .moreWork, s.acceptedCount block,
        { s with
          accepted := { s.accepted with capacity := capacity }.insertRange block.firstFrame
            (block.firstFrame + s.acceptedCount block)
          queue := s.queue ++
            [⟨block.firstFrame, block.samples.take (s.acceptedCount block), 0⟩]
          env := env }) := by
  obtain ⟨hn, -, -⟩ := acceptedCount_pos hordered hpos hfresh
  obtain ⟨capacity, env, henv, hgrown⟩ := AcceptedRanges.ensureCapacity_granted hroom hgranting
  obtain ⟨env', henv', hnode⟩ := @allocateNode_granted 12 _ _ hn henv
  refine ⟨capacity, env', henv', ?_⟩
  unfold acceptPcmBase
  unfold acceptedCount at hn hnode ⊢
  cases htaken : AcceptedRanges.nonoverlappingPrefix block.firstFrame
      (min block.frameCount maxPushFrames) s.accepted.ranges with
  | mk n conflicts =>
      rw [htaken] at hn hnode
      simp only [htaken]
      rw [if_neg hn.ne', hgrown]
      simp only
      rw [hnode]

/-! ## The block -/

/-- The tiles of a block that is not beyond the detail layer are indexed. -/
theorem indexed_of_not_beyondDetail {block : PcmBlock} (h : beyondDetail block = false) :
    ∀ i < block.frameCount,
      (block.firstFrame + i) / detailTileFrames ≤ uint32Max / detailColumnsPerTile := by
  intro i hi
  have hpos : 0 < block.frameCount := Nat.zero_lt_of_lt hi
  refine (Nat.div_le_div_right (by omega : _ ≤ block.firstFrame + block.frameCount - 1)).trans ?_
  unfold beyondDetail at h
  simpa [hpos.ne'] using h

/-- A block that starts at a missing frame is not refused but for lack of room. -/
theorem acceptPcm_fresh {block : PcmBlock} {s : Session}
    (hordered : Interval.Ordered s.accepted.ranges) (hpos : 0 < block.frameCount)
    (hfresh : block.firstFrame ∉ s.accepted.frames) : Spares (s.acceptPcm block).1 := by
  unfold acceptPcm
  split_ifs
  · intro code heq
    cases heq
    exact .inl rfl
  cases hprepare : s.prepareEstimators with
  | mk status t =>
      obtain ⟨s4, s6, env, rfl⟩ := prepareEstimators_cases hprepare
      have hstatus := prepareEstimators_status s
      rw [hprepare] at hstatus
      rcases hstatus with rfl | rfl
      · have hbase := acceptPcmBase_fresh
          (s := { s with s4 := s4, s6 := s6, env := env }) hordered hpos hfresh
        simp only
        split
        · next heq =>
            rw [heq] at hbase
            rcases hbase _ rfl with h | h | h <;> cases h
        · next heq =>
            rw [heq] at hbase
            split_ifs
            · exact hbase
            · exact hbase
      · intro code heq
        cases heq
        exact .inr (.inr rfl)

/-- With memory and room a block that starts at a missing frame is accepted up to the next accepted
one, and fed to the layers behind. -/
theorem acceptPcm_granted {block : PcmBlock} {s : Session}
    (hordered : Interval.Ordered s.accepted.ranges) (hpos : 0 < block.frameCount)
    (hfresh : block.firstFrame ∉ s.accepted.frames) (hgranting : s.env.Granting)
    (hroom : s.accepted.HasRoom)
    (hindexed : (s.config.requests .waveformDetail && beyondDetail block) = false) :
    ∃ s4 s6 env capacity, s.acceptPcm block =
      (if s.acceptedCount block = block.frameCount then .ok else .moreWork, s.acceptedCount block,
        feedAccepted block (s.acceptedCount block) { s with
          accepted := { s.accepted with capacity := capacity }.insertRange block.firstFrame
            (block.firstFrame + s.acceptedCount block)
          queue := s.queue ++
            [⟨block.firstFrame, block.samples.take (s.acceptedCount block), 0⟩]
          s4 := s4, s6 := s6, env := env }) := by
  obtain ⟨hok, henv⟩ := prepareEstimators_granting hgranting
  cases hprepare : s.prepareEstimators with
  | mk status t =>
      obtain ⟨s4, s6, env, rfl⟩ := prepareEstimators_cases hprepare
      rw [hprepare] at hok henv
      cases hok
      obtain ⟨capacity, env', -, hbase⟩ := acceptPcmBase_granted
        (s := { s with s4 := s4, s6 := s6, env := env }) hordered hpos hfresh henv hroom
      refine ⟨s4, s6, env', capacity, ?_⟩
      have hn := (acceptedCount_pos hordered hpos hfresh).1
      unfold acceptPcm
      rw [hindexed, if_neg Bool.false_ne_true, hprepare]
      simp only [hbase]
      have hfed : ((if s.acceptedCount block = block.frameCount then Status.ok
          else .moreWork).failed || decide (s.acceptedCount block = 0)) = false := by
        split_ifs <;> simp [Status.failed, hn.ne']
      split
      · next heq =>
          simp only [Prod.mk.injEq] at heq
          split_ifs at heq <;> cases heq.1
      · next status accepted after hnot heq =>
          simp only [Prod.mk.injEq] at heq
          obtain ⟨rfl, rfl, rfl⟩ := heq
          exact if_neg (by rw [Bool.not_eq_true]; exact hfed)

/-- A block that starts at an accepted frame is offered to the detail layer as a replay, and conflicts
when that does not take it. -/
theorem acceptPcm_taken {block : PcmBlock} {s : Session}
    (hordered : Interval.Ordered s.accepted.ranges) (hpos : 0 < block.frameCount)
    (htaken : block.firstFrame ∈ s.accepted.frames) (hgranting : s.env.Granting)
    (hindexed : beyondDetail block = false) :
    ∃ s4 s6 env,
      (∀ detail, Detail.acceptReplay (s.config.requests .waveformDetail) s.detailContext s.detail
          block = (.ok, block.frameCount, detail) →
        s.acceptPcm block = (.ok, block.frameCount,
          { s with s4 := s4, s6 := s6, env := env, detail := detail })) ∧
      (Detail.acceptReplay (s.config.requests .waveformDetail) s.detailContext s.detail block =
          (.notAvailable, 0, s.detail) →
        s.acceptPcm block =
          (.error .conflict, 0, { s with s4 := s4, s6 := s6, env := env })) := by
  obtain ⟨hok, -⟩ := prepareEstimators_granting hgranting
  cases hprepare : s.prepareEstimators with
  | mk status t =>
      obtain ⟨s4, s6, env, rfl⟩ := prepareEstimators_cases hprepare
      rw [hprepare] at hok
      cases hok
      have hbase := acceptPcmBase_taken (s := { s with s4 := s4, s6 := s6, env := env }) hordered
        hpos htaken
      refine ⟨s4, s6, env, fun detail hreplay => ?_, fun hreplay => ?_⟩
      · have hdetail : s.config.requests .waveformDetail = true := by
          by_contra hnot
          rw [Bool.not_eq_true] at hnot
          unfold Detail.acceptReplay at hreplay
          simp [hnot] at hreplay
        unfold acceptPcm Session.acceptReplay
        simp only [hindexed, Bool.and_false, Bool.false_eq_true, if_false, hprepare, hbase, hdetail,
          if_true]
        rw [hdetail] at hreplay
        simp only [show ∀ u : Session, u.detailContext = ⟨u.focus, u.requests, u.endOfInput,
          u.config.totalFrames⟩ from fun _ => rfl] at hreplay ⊢
        rw [hreplay]
      · unfold acceptPcm Session.acceptReplay
        simp only [hindexed, Bool.and_false, Bool.false_eq_true, if_false, hprepare, hbase]
        by_cases hdetail : s.config.requests .waveformDetail = true
        · rw [hdetail] at hreplay
          simp only [hdetail, if_true]
          simp only [show ∀ u : Session, u.detailContext = ⟨u.focus, u.requests, u.endOfInput,
            u.config.totalFrames⟩ from fun _ => rfl] at hreplay ⊢
          rw [hreplay]
        · rw [if_neg hdetail]

/-- A block inside the track of an open input is valid. -/
theorem validatePcmBlock_inside {block : PcmBlock} {s : Session} (hpos : 0 < block.frameCount)
    (hfits : block.firstFrame + block.frameCount ≤ uint64Max) (hopened : s.endOfInput = none)
    (htotal : ∀ total ∈ s.config.totalFrames, block.firstFrame + block.frameCount ≤ total)
    (code : ErrorCode) : s.validatePcmBlock block ≠ .error code := by
  unfold validatePcmBlock
  rw [if_neg (by omega), hopened]
  simp only [Option.any_none, Bool.false_eq_true, if_false]
  cases hknown : s.config.totalFrames with
  | none => simp
  | some total =>
      have hle := htotal total hknown
      simp only [Option.any_some, decide_eq_true_eq]
      rw [if_neg (by omega)]
      exact fun h => by cases h

/-- The session takes a push: its input is open, memory is granted, and a first publication fits. -/
structure TakesPush (s : Session) : Prop where
  mode : s.config.inputMode = .push
  overview : s.config.requests .waveformOverview = true
  state : s.state = .created ∨ s.state = .active
  opened : s.endOfInput = none
  granting : s.env.Granting
  publishes : s.state = .created → s.generation ≠ uint64Max ∧
    (s.config.boundedResultSlots && poolOverflows { s with state := .active }) = false

/-- Such a session is active, or becomes so. -/
theorem TakesPush.activate {s : Session} (h : TakesPush s) :
    ∃ t, s.activate = (.ok, t) ∧ Activated s t ∧ t.env.Granting := by
  by_cases hfresh : s.state = .created
  swap
  · refine ⟨s, ?_, .already hfresh, h.granting⟩
    unfold Session.activate
    rw [if_neg hfresh]
  obtain ⟨hlast, hfits⟩ := h.publishes hfresh
  obtain ⟨hgranted, hrest⟩ := h.granting.allocate
  refine ⟨_, ?_, .first s.env.allocate.2 hfresh, hrest⟩
  have hmoves : publish ∅ { s with state := .active } =
      (.ok, { published ∅ { s with state := .active } with env := s.env.allocate.2 }) := by
    unfold publish
    rw [if_neg hlast]
    simp only
    rw [← Prod.mk.eta (p := s.env.allocate), hgranted]
    exact if_neg (by rw [Bool.not_eq_true]; exact hfits)
  unfold Session.activate transition
  rw [if_pos hfresh, hfresh, if_neg (by simp [transitionAllowed]), if_neg (by simp), hmoves]

end Session

end LibApta
