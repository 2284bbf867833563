import LibApta.Session.Effects

/-!
# What the other calls do to the track

Accepting a block adds its accepted prefix to the accepted frames and to the queue; ending the input
fixes its length; both may activate a fresh session first. `Outcome` collects what a call of the
public interface can do to the track, one case for each kind of effect.
-/

namespace LibApta

namespace Session

/-! ## Accepting a block -/

/-- The session with the first `n` frames of a block accepted and queued. -/
def accepting (block : PcmBlock) (n : ℕ) (s : Session) : Session :=
  { s with
    accepted := s.accepted.insertRange block.firstFrame (block.firstFrame + n)
    queue := s.queue ++ [⟨block.firstFrame, block.samples.take n, 0⟩] }

/-- The node allocator returns a non-empty part of what was asked for. -/
theorem allocateNode_some {fuel frames n : ℕ} {env env' : Environment}
    (h : allocateNode fuel frames env = (some n, env')) : 0 < n ∧ n ≤ frames := by
  induction fuel generalizing frames env with
  | zero => simp [allocateNode] at h
  | succ fuel ih =>
      unfold allocateNode at h
      split_ifs at h with hzero
      · simp at h
      split at h
      · simp only [Prod.mk.injEq, Option.some.injEq] at h
        omega
      · obtain ⟨hpos, hle⟩ := ih h
        exact ⟨hpos, hle.trans (Nat.div_le_self _ _)⟩

/-- The effect of accepting a block: `n` frames of its non-overlapping prefix, `n = 0` for none. -/
inductive Accepts (block : PcmBlock) (s : Session) : ℕ → Session → Prop
  | none {s' : Session} (h : SameTrack s s') : Accepts block s 0 s'
  | some {n : ℕ} {s' : Session} (hpos : 0 < n)
      (hle : n ≤ (AcceptedRanges.nonoverlappingPrefix block.firstFrame
        (min block.frameCount maxPushFrames) s.accepted.ranges).1)
      (h : SameTrack (s.accepting block n) s') : Accepts block s n s'

theorem Accepts.rest {block : PcmBlock} {s t s' : Session} {n : ℕ} (h : Accepts block s n t)
    (h' : SameTrack t s') : Accepts block s n s' := by
  cases h with
  | none h => exact .none (h.trans h')
  | some hpos hle h => exact .some hpos hle (h.trans h')

/-- The waveform layer accepts a block. A conflict is reported when the first frame is taken. -/
theorem acceptPcmBase_accepts {block : PcmBlock} {s s' : Session} {status : Status} {n : ℕ}
    (h : s.acceptPcmBase block = (status, n, s')) :
    Accepts block s n s' ∧ (status = .error .conflict →
      n = 0 ∧ s' = s ∧ (AcceptedRanges.nonoverlappingPrefix block.firstFrame
        (min block.frameCount maxPushFrames) s.accepted.ranges).2 = true) := by
  unfold acceptPcmBase at h
  simp only at h
  cases hfront : AcceptedRanges.nonoverlappingPrefix block.firstFrame
      (min block.frameCount maxPushFrames) s.accepted.ranges with
  | mk free conflict =>
      rw [hfront] at h
      simp only at h
      by_cases hfree : free = 0
      · rw [if_pos hfree] at h
        obtain ⟨rfl, rfl, rfl⟩ : (if conflict then Status.error .conflict else .wouldBlock) = status ∧
            0 = n ∧ s = s' := by simpa using h
        refine ⟨.none (.refl s), fun hconflict => ⟨rfl, rfl, ?_⟩⟩
        cases conflict
        · exact absurd hconflict (by simp)
        · rfl
      rw [if_neg hfree] at h
      cases hroom : s.accepted.ensureCapacity (s.accepted.ranges.length + 1) s.env with
      | mk answer rest =>
          obtain ⟨table, env⟩ := rest
          obtain ⟨⟨capacity, rfl⟩, hanswer⟩ := AcceptedRanges.ensureCapacity_cases hroom
          have hkept : ∀ env', SameTrack s
              { s with accepted := { s.accepted with capacity := capacity }, env := env' } :=
            fun env' => ⟨rfl, rfl, rfl, rfl, rfl, rfl, .refl _, rfl, rfl, rfl, rfl⟩
          rw [hroom] at h
          rcases hanswer with rfl | rfl | rfl
          · simp only at h
            cases hnode : allocateNode 13 free env with
            | mk granted env' =>
                rw [hnode] at h
                cases granted with
                | none =>
                    simp only [Prod.mk.injEq] at h
                    obtain ⟨rfl, rfl, rfl⟩ := h
                    exact ⟨.none (hkept env'), fun hconflict => absurd hconflict (by simp)⟩
                | some accepted =>
                    obtain ⟨hpos, hle⟩ := allocateNode_some hnode
                    simp only [Prod.mk.injEq] at h
                    obtain ⟨rfl, rfl, rfl⟩ := h
                    refine ⟨.some hpos (by rw [hfront]; exact hle) ?_, fun hconflict => ?_⟩
                    · exact ⟨rfl, rfl, rfl, rfl, rfl, rfl, .refl _, rfl, rfl, rfl, rfl⟩
                    · split_ifs at hconflict
          · simp only [Prod.mk.injEq] at h
            obtain ⟨rfl, rfl, rfl⟩ := h
            exact ⟨.none (hkept env), fun hconflict => absurd hconflict (by simp)⟩
          · simp only [Prod.mk.injEq] at h
            obtain ⟨rfl, rfl, rfl⟩ := h
            exact ⟨.none (hkept env), fun hconflict => absurd hconflict (by simp)⟩

/-- Frames of a conflicting block that the detail layer takes as a replay. -/
def replayedFrames (block : PcmBlock) (s : Session) : ℕ :=
  (Detail.acceptReplay (s.config.requests .waveformDetail) s.detailContext s.detail block).2.1

/-- The effect of accepting a block with the detail layer behind the waveform layer. -/
inductive AcceptsPcm (block : PcmBlock) (s : Session) : ℕ → Session → Prop
  | base {n : ℕ} {s' : Session} (h : Accepts block s n s') : AcceptsPcm block s n s'
  | replay {s' : Session} (hdetail : s.config.requests .waveformDetail = true)
      (hconflict : (AcceptedRanges.nonoverlappingPrefix block.firstFrame
        (min block.frameCount maxPushFrames) s.accepted.ranges).2 = true)
      (h : SameTrack s s') : AcceptsPcm block s (s.replayedFrames block) s'

/-- Allocating the estimators touches neither the track nor the detail layer. -/
theorem prepareEstimators_cases {s t : Session} {status : Status}
    (h : s.prepareEstimators = (status, t)) :
    ∃ s4 s6 env, t = { s with s4 := s4, s6 := s6, env := env } := by
  unfold prepareEstimators at h
  split at h
  · obtain ⟨-, rfl⟩ := Prod.mk.inj h
    exact ⟨_, _, _, rfl⟩
  · obtain ⟨-, rfl⟩ := Prod.mk.inj h
    exact ⟨_, _, _, rfl⟩

theorem feedAccepted_sameTrack (block : PcmBlock) (n : ℕ) (s : Session) :
    SameTrack s (s.feedAccepted block n) := by
  unfold feedAccepted
  simp only
  split_ifs
  · exact ⟨rfl, rfl, rfl, rfl, rfl, rfl, .refl _, rfl, rfl, rfl, rfl⟩
  · exact ⟨rfl, rfl, rfl, rfl, rfl, rfl, .refl _, rfl, rfl, rfl, rfl⟩

/-- Accepting a block accepts its prefix or takes it as a replay. -/
theorem acceptPcm_accepts {block : PcmBlock} {s s' : Session} {status : Status} {n : ℕ}
    (h : s.acceptPcm block = (status, n, s')) : AcceptsPcm block s n s' := by
  unfold acceptPcm at h
  split_ifs at h with hbeyond
  · simp only [Prod.mk.injEq] at h
    obtain ⟨-, rfl, rfl⟩ := h
    exact .base (.none (.refl s))
  cases hprepare : s.prepareEstimators with
  | mk answer t =>
      obtain ⟨s4, s6, env, rfl⟩ := prepareEstimators_cases hprepare
      have hkept : SameTrack s { s with s4 := s4, s6 := s6, env := env } :=
        ⟨rfl, rfl, rfl, rfl, rfl, rfl, .refl _, rfl, rfl, rfl, rfl⟩
      rw [hprepare] at h
      by_cases hready : answer = .ok
      swap
      · have hstay : 0 = n ∧ { s with s4 := s4, s6 := s6, env := env } = s' := by
          cases answer with
          | ok => exact absurd rfl hready
          | _ => exact (Prod.mk.inj (Prod.mk.inj h).2)
        obtain ⟨rfl, rfl⟩ := hstay
        exact .base (.none hkept)
      subst hready
      simp only at h
      cases hbase : acceptPcmBase block { s with s4 := s4, s6 := s6, env := env } with
      | mk taken rest =>
          obtain ⟨m, u⟩ := rest
          obtain ⟨haccepts, hconflict⟩ := acceptPcmBase_accepts hbase
          have hfrom : Accepts block s m u := by
            cases haccepts with
            | none h => exact .none (hkept.trans h)
            | some hpos hle h =>
                refine .some hpos hle (.trans ?_ h)
                exact ⟨rfl, rfl, rfl, rfl, rfl, rfl, .refl _, rfl, rfl, rfl, rfl⟩
          rw [hbase] at h
          by_cases htaken : taken = .error .conflict
          · subst htaken
            obtain ⟨rfl, rfl, htouch⟩ := hconflict rfl
            simp only at h
            by_cases hdetail : s.config.requests .waveformDetail = true
            swap
            · rw [if_neg hdetail] at h
              simp only [Prod.mk.injEq] at h
              obtain ⟨-, rfl, rfl⟩ := h
              exact .base hfrom
            rw [if_pos hdetail] at h
            set answer := (Detail.acceptReplay (s.config.requests .waveformDetail) s.detailContext
              s.detail block).1 with hanswer
            obtain ⟨u, hreplayed, hsame⟩ :
                ∃ u, acceptReplay block { s with s4 := s4, s6 := s6, env := env } =
                  (answer, s.replayedFrames block, u) ∧ SameTrack s u :=
              ⟨_, rfl, rfl, rfl, rfl, rfl, rfl, rfl, .refl _, rfl, rfl, rfl, rfl⟩
            rw [hreplayed] at h
            by_cases hnone : answer = .notAvailable
            · rw [hnone] at h
              simp only [Prod.mk.injEq] at h
              obtain ⟨-, rfl, rfl⟩ := h
              exact .base (.none hsame)
            · have hresult : s.replayedFrames block = n ∧ u = s' := by
                cases hcase : answer with
                | notAvailable => exact absurd hcase hnone
                | _ =>
                    rw [hcase] at h
                    exact Prod.mk.inj (Prod.mk.inj h).2
              obtain ⟨rfl, rfl⟩ := hresult
              exact .replay hdetail htouch hsame
          · have hrest : (if taken.failed || decide (m = 0) then (taken, m, u)
                else (taken, m, u.feedAccepted block m)) = (status, n, s') := by
              cases taken with
              | error code =>
                  cases code with
                  | conflict => exact absurd rfl htaken
                  | _ => exact h
              | _ => exact h
            split_ifs at hrest
            · simp only [Prod.mk.injEq] at hrest
              obtain ⟨-, rfl, rfl⟩ := hrest
              exact .base hfrom
            · simp only [Prod.mk.injEq] at hrest
              obtain ⟨-, rfl, rfl⟩ := hrest
              exact .base (hfrom.rest (feedAccepted_sameTrack _ _ _))

/-! ## Activation and the end of input -/

/-- The session once it is active: a fresh one is moved there by a publication. -/
inductive Activated (s : Session) : Session → Prop
  | already (h : s.state ≠ .created) : Activated s s
  | first (env : Environment) (h : s.state = .created) :
      Activated s { published ∅ { s with state := .active } with env := env }

/-- Activation succeeds, or leaves a fresh session. -/
theorem activate_cases {s t : Session} {status : Status}
    (h : s.activate = (status, t)) :
    (status = .ok ∧ Activated s t) ∨
      (∃ code, lacksRoom code ∧ status = .error code) ∧ s.state = .created ∧ Unannounced s t := by
  unfold activate at h
  by_cases hfresh : s.state = .created
  · rw [if_pos hfresh] at h
    rcases transition_cases h with ⟨-, hsame, -⟩ | ⟨rfl, -, env, rfl⟩ | ⟨⟨code, hcode, rfl⟩, hun⟩
    · exact absurd (hfresh.symm.trans hsame) (by simp)
    · exact .inl ⟨rfl, .first env hfresh⟩
    · refine .inr ⟨⟨code, hcode.resolve_right ?_, rfl⟩, hfresh, hun.unannounced⟩
      simp [hfresh, transitionAllowed]
  · rw [if_neg hfresh] at h
    obtain ⟨rfl, rfl⟩ := Prod.mk.inj h
    exact .inl ⟨rfl, .already hfresh⟩

theorem Activated.endOfInput {s t : Session} (h : Activated s t) : t.endOfInput = s.endOfInput := by
  cases h <;> rfl

theorem Activated.state {s t : Session} (h : Activated s t)
    (hstate : s.state = .created ∨ s.state = .active) : t.state = .active := by
  cases h with
  | already hne => exact hstate.resolve_left hne
  | first => rfl

/-- The effect of ending the input. -/
inductive Ended (finalEnd : ℕ) (s : Session) : Session → Prop
  | kept {s' : Session} (h : SameTrack s s') : Ended finalEnd s s'
  | unactivated {s' : Session} (hfresh : s.state = .created) (h : Unannounced s s') :
      Ended finalEnd s s'
  | unended {t s' : Session} (ht : Activated s t) (h : Unannounced t s') : Ended finalEnd s s'
  | drained {t s' : Session} (hnone : s.endOfInput = none)
      (htotal : ∀ total ∈ s.config.totalFrames, total = finalEnd)
      (hend : s.accepted.maximumEnd ≤ finalEnd) (ht : Activated s t)
      (h : SameTrack (published ∅ { t.ended finalEnd with state := .draining }) s') :
      Ended finalEnd s s'

/-- Fixing the length of an active session drains it, or leaves its track but for its marks. -/
theorem drainAt_cases {finalEnd : ℕ} {s s' : Session} {status : Status}
    (hnone : s.endOfInput = none) (hactive : s.state = .active)
    (h : s.drainAt finalEnd = (status, s')) :
    Unannounced s s' ∨
      SameTrack (published ∅ { s.ended finalEnd with state := .draining }) s' := by
  unfold drainAt at h
  cases hdrain : (s.ended finalEnd).transition .draining with
  | mk answer u =>
      rw [hdrain] at h
      rcases transition_cases hdrain with ⟨-, hsame, -⟩ | ⟨rfl, -, env, rfl⟩ |
        ⟨⟨code, -, rfl⟩, env, rfl | rfl⟩
      · exact absurd (hactive.symm.trans hsame) (by simp)
      · obtain ⟨-, rfl⟩ := Prod.mk.inj h
        exact .inr ⟨rfl, rfl, rfl, rfl, rfl, rfl, .refl _, rfl, rfl, rfl, rfl⟩
      · obtain ⟨-, rfl⟩ := Prod.mk.inj h
        exact .inl (.kept ⟨rfl, rfl, hnone.symm, rfl, rfl, rfl, .refl _, rfl, rfl, rfl, rfl⟩)
      · obtain ⟨-, rfl⟩ := Prod.mk.inj h
        exact .inl (.forgotten ⟨rfl, rfl, hnone.symm, rfl, rfl, rfl, .refl _, rfl, rfl, rfl, rfl⟩)

/-- Ending the input drains the session, or leaves its track but for an activation and its marks. -/
theorem endInput_ended {finalEnd : ℕ} {s s' : Session} {status : Status}
    (h : s.endInput finalEnd = (status, s')) : Ended finalEnd s s' := by
  unfold endInput at h
  cases hnone : s.endOfInput with
  | some old =>
      rw [hnone] at h
      obtain ⟨-, rfl⟩ := Prod.mk.inj h
      exact .kept (.refl s)
  | none =>
      rw [hnone] at h
      simp only at h
      by_cases htotal : s.config.totalFrames.isSome ∧ s.config.totalFrames ≠ some finalEnd
      · rw [if_pos htotal] at h
        obtain ⟨-, rfl⟩ := Prod.mk.inj h
        exact .kept (.refl s)
      rw [if_neg htotal] at h
      by_cases hend : finalEnd < s.accepted.maximumEnd
      · rw [if_pos hend] at h
        obtain ⟨-, rfl⟩ := Prod.mk.inj h
        exact .kept (.refl s)
      rw [if_neg hend] at h
      have htotal' : ∀ total ∈ s.config.totalFrames, total = finalEnd := by
        intro total hmem
        by_contra hne
        refine htotal ⟨by rw [Option.mem_def.mp hmem]; rfl, ?_⟩
        rw [Option.mem_def.mp hmem]
        exact fun heq => hne (Option.some.inj heq)
      cases hstate : s.state <;> rw [hstate] at h
      case created | active =>
        have hlive : s.state = .created ∨ s.state = .active := by simp [hstate]
        cases hactivate : s.activate with
        | mk answer t =>
            simp only [hactivate] at h
            rcases activate_cases hactivate with ⟨rfl, hactive⟩ | ⟨⟨code, -, rfl⟩, hfresh, hun⟩
            · obtain hun | hdrained := drainAt_cases (hactive.endOfInput.trans hnone)
                (hactive.state hlive) h
              · exact .unended hactive hun
              · exact .drained hnone htotal' (not_lt.mp hend) hactive hdrained
            · obtain ⟨-, rfl⟩ := Prod.mk.inj h
              exact .unactivated hfresh hun
      all_goals
        obtain ⟨-, rfl⟩ := Prod.mk.inj h
        exact .kept (.refl s)

/-! ## Pushing and pulling -/

/-- The session settled after a delivery: as it is, or failed by its source. -/
inductive Settled (s : Session) : Session → Prop
  | unannounced {s' : Session} (h : Unannounced s s') : Settled s s'
  | failed {s' : Session} (h : SameTrack (published ∅ { s with state := .failed }) s') :
      Settled s s'

theorem Settled.refl (s : Session) : Settled s s := .unannounced (.kept (.refl s))

theorem sourceFailure_settled {s s' : Session} {status : Status}
    (h : s.sourceFailure = (status, s')) : Settled s s' := by
  unfold sourceFailure at h
  cases hfail : s.transition .failed with
  | mk answer t =>
      have ht : t = s' := by
        rw [hfail] at h
        cases answer <;> exact (Prod.mk.inj h).2
      subst ht
      rcases transition_cases hfail with ⟨-, -, rfl⟩ | ⟨-, -, env, rfl⟩ | ⟨-, hun⟩
      · exact .refl _
      · exact .failed ⟨rfl, rfl, rfl, rfl, rfl, rfl, .refl _, rfl, rfl, rfl, rfl⟩
      · exact .unannounced hun.unannounced

theorem settleDelivery_settled {s s' : Session} {status answer : Status}
    (h : s.settleDelivery status = (answer, s')) : Settled s s' := by
  unfold settleDelivery at h
  split at h
  · exact (Prod.mk.inj h).2 ▸ .refl s
  · exact (Prod.mk.inj h).2 ▸ .refl s
  · exact (Prod.mk.inj h).2 ▸ .refl s
  · exact sourceFailure_settled h
  · exact (Prod.mk.inj h).2 ▸ .refl s

/-- Lack of memory does not fail the session. -/
theorem settleDelivery_lacksRoom {s : Session} {code : ErrorCode} (h : lacksRoom code) :
    s.settleDelivery (.error code) = (.error code, s) := by
  rcases h with rfl | rfl | rfl <;> rfl

/-- The range a pull session asks its source for a piece of. -/
def pullTarget (s : Session) : FrameRange :=
  (overviewTarget { s with requests := stageRequests .waveformOverview s.requests }).range

/-- The selector names the first missing piece of the target, or finds none. -/
theorem nextOverviewRequest_cases {s t : Session} {answer : Except Status PcmRequest}
    (h : s.nextOverviewRequest = (answer, t)) :
    SameTrack s t ∧
      ((answer = .error .notAvailable ∧
          s.accepted.findMissingRange s.pullTarget.firstFrame s.pullTarget.endFrame = none) ∨
        ∃ request past, answer = .ok request ∧
          s.accepted.findMissingRange s.pullTarget.firstFrame s.pullTarget.endFrame =
            some (request.range.firstFrame, past) ∧
          request.range.endFrame = min past (request.range.firstFrame + maxPushFrames)) := by
  unfold nextOverviewRequest nextOverviewRequestBase at h
  simp only at h
  rw [show (overviewTarget { s with requests := stageRequests .waveformOverview s.requests }).range =
    s.pullTarget from rfl] at h
  cases hgap : s.accepted.findMissingRange s.pullTarget.firstFrame s.pullTarget.endFrame with
  | none =>
      rw [hgap] at h
      obtain ⟨rfl, rfl⟩ := Prod.mk.inj h
      exact ⟨.refl s, .inl ⟨rfl, rfl⟩⟩
  | some gap =>
      obtain ⟨first, past⟩ := gap
      rw [hgap] at h
      obtain ⟨rfl, rfl⟩ := Prod.mk.inj h
      exact ⟨⟨rfl, rfl, rfl, rfl, rfl, rfl, .refl _, rfl, rfl, rfl, rfl⟩, .inr ⟨_, past, rfl, rfl, rfl⟩⟩

/-- A block that passes validation is not empty and ends within the known length. -/
theorem validatePcmBlock_ok {s : Session} {block : PcmBlock}
    (h : ∀ code, s.validatePcmBlock block ≠ .error code) :
    0 < block.frameCount ∧
      (∀ finalEnd ∈ s.endOfInput, block.firstFrame + block.frameCount ≤ finalEnd) ∧
      ∀ total ∈ s.config.totalFrames, block.firstFrame + block.frameCount ≤ total := by
  unfold validatePcmBlock at h
  simp only at h
  split_ifs at h with hshape hend htotal
  · exact absurd rfl (h _)
  · exact absurd rfl (h _)
  · exact absurd rfl (h _)
  · refine ⟨by omega, fun finalEnd hmem => ?_, fun total hmem => ?_⟩
    · rw [Option.mem_def.mp hmem] at hend
      simpa using hend
    · rw [Option.mem_def.mp hmem] at htotal
      simpa using htotal

/-- A block that is not refused is valid. -/
theorem validatePcmBlock_eq_ok {s : Session} {block : PcmBlock}
    (h : ∀ code, s.validatePcmBlock block ≠ .error code) : s.validatePcmBlock block = .ok := by
  unfold validatePcmBlock at h ⊢
  simp only at h ⊢
  split_ifs at h ⊢
  · exact absurd rfl (h _)
  · exact absurd rfl (h _)
  · exact absurd rfl (h _)
  · rfl

/-- What a push does with a block it has validated. -/
def deliver (block : PcmBlock) (s : Session) : Status × ℕ × Session :=
  match s.activate with
  | (.error code, s) => (.error code, 0, s)
  | (_, s) =>
      if s.config.requests .waveformOverview then s.acceptPcm block
      else (.ok, block.frameCount, s)

theorem pushPcm_eq_deliver {block : PcmBlock} {s : Session} (hmode : s.config.inputMode = .push)
    (hstate : s.state = .created ∨ s.state = .active)
    (hvalid : ∀ code, s.validatePcmBlock block ≠ .error code) :
    s.pushPcm block = s.deliver block := by
  unfold pushPcm
  rw [if_neg (not_not.mpr hmode), validatePcmBlock_eq_ok hvalid]
  rcases hstate with hstate | hstate <;>
  · rw [hstate]
    rfl

/-- The effect of a block that has passed validation, from the active session on. -/
inductive Delivered (block : PcmBlock) (s : Session) : ℕ → Session → Prop
  | accepted {n : ℕ} {s' : Session} (hoverview : s.config.requests .waveformOverview = true)
      (h : AcceptsPcm block s n s') : Delivered block s n s'
  | ignored (hoverview : s.config.requests .waveformOverview = false) :
      Delivered block s block.frameCount s

/-- The effect of pushing a block, with the number of frames it reports as accepted. -/
inductive Pushed (block : PcmBlock) (s : Session) : ℕ → Session → Prop
  | kept {s' : Session} (h : SameTrack s s') : Pushed block s 0 s'
  | unactivated {s' : Session} (hfresh : s.state = .created) (h : Unannounced s s') :
      Pushed block s 0 s'
  | delivered {t s' : Session} {n : ℕ} (hmode : s.config.inputMode = .push)
      (hvalid : ∀ code, s.validatePcmBlock block ≠ .error code)
      (hstate : s.state = .created ∨ s.state = .active) (ht : Activated s t)
      (h : Delivered block t n s') : Pushed block s n s'

/-- Every push is one of these. -/
theorem pushPcm_pushed {block : PcmBlock} {s s' : Session} {status : Status} {n : ℕ}
    (h : s.pushPcm block = (status, n, s')) : Pushed block s n s' := by
  have hkept : ∀ answer : Status, (answer, 0, s) = (status, n, s') → Pushed block s n s' := by
    intro answer heq
    simp only [Prod.mk.injEq] at heq
    obtain ⟨-, rfl, rfl⟩ := heq
    exact .kept (.refl s)
  by_cases hmode : s.config.inputMode = .push
  swap
  · rw [pushPcm, if_pos hmode] at h
    exact hkept _ h
  by_cases hlive : s.state = .created ∨ s.state = .active
  swap
  · obtain ⟨hfresh, hactive⟩ := not_or.mp hlive
    rw [pushPcm, if_neg (not_not.mpr hmode)] at h
    cases hstate : s.state <;> rw [hstate] at h
    case created => exact absurd hstate hfresh
    case active => exact absurd hstate hactive
    all_goals exact hkept _ h
  by_cases hvalid : ∃ code, s.validatePcmBlock block = .error code
  · obtain ⟨code, hcode⟩ := hvalid
    rw [pushPcm, if_neg (not_not.mpr hmode), hcode] at h
    rcases hlive with hstate | hstate <;>
    · rw [hstate] at h
      exact hkept _ h
  rw [not_exists] at hvalid
  rw [pushPcm_eq_deliver hmode hlive hvalid] at h
  unfold deliver at h
  cases hactivate : s.activate with
  | mk answer t =>
      rw [hactivate] at h
      rcases activate_cases hactivate with ⟨rfl, hactive⟩ | ⟨⟨code, -, rfl⟩, hfresh, hun⟩
      · refine .delivered hmode hvalid hlive hactive ?_
        simp only at h
        by_cases hoverview : t.config.requests .waveformOverview = true
        · rw [if_pos hoverview] at h
          exact .accepted hoverview (acceptPcm_accepts h)
        · rw [if_neg hoverview] at h
          simp only [Prod.mk.injEq] at h
          obtain ⟨-, rfl, rfl⟩ := h
          exact .ignored (by simpa using hoverview)
      · simp only [Prod.mk.injEq] at h
        obtain ⟨-, rfl, rfl⟩ := h
        exact .unactivated hfresh hun

/-- The first missing piece of the pull target. -/
def pullGap (s : Session) : Option (ℕ × ℕ) :=
  s.accepted.findMissingRange s.pullTarget.firstFrame s.pullTarget.endFrame

/-- The adapter asks the selector: a source is attached, the input has not ended, and everything pulled
so far is processed. -/
structure PullAsks (s : Session) : Prop where
  attached : s.hasPullSource = true
  state : s.state = .created ∨ s.state = .active
  drained : s.queue = []

/-- The effect of the pull adapter. -/
inductive Pulled (source : PullSource) (s : Session) : Session → Prop
  | settled {t s' : Session} (ht : SameTrack s t) (h : Settled t s') : Pulled source s s'
  | exhausted {t s' : Session} {total : ℕ} (hasks : s.PullAsks) (ht : SameTrack s t)
      (htotal : s.config.totalFrames = some total) (hgap : s.pullGap = none)
      (h : Ended total t s') : Pulled source s s'
  | reported {t s' : Session} {first past frames : ℕ} (hasks : s.PullAsks) (ht : SameTrack s t)
      (hgap : s.pullGap = some (first, past)) (hread : source first frames = .endOfInput)
      (htotal : ∀ total ∈ s.config.totalFrames, total = first) (h : Ended first t s') :
      Pulled source s s'
  | unactivated {t s' : Session} (ht : SameTrack s t) (hfresh : t.state = .created)
      (h : Unannounced t s') : Pulled source s s'
  | delivered {t u v s' : Session} {block : PcmBlock} {n past frames : ℕ} (ht : SameTrack s t)
      (hgap : s.pullGap = some (block.firstFrame, past))
      (hread : source block.firstFrame frames = .block block)
      (hvalid : ∀ code, t.validatePcmBlock block ≠ .error code)
      (hend : block.firstFrame + block.frameCount ≤ past)
      (hactive : Activated t u) (h : Delivered block u n v) (h' : Settled v s') :
      Pulled source s s'

/-- A delivered block is accepted, or the delivery is settled without it. -/
theorem acceptPulled_pulled {source : PullSource} {s t s' : Session} {request : FrameRange}
    {frames past : ℕ} {block : PcmBlock} {status : Status} (ht : SameTrack s t)
    (hgap : s.pullGap = some (request.firstFrame, past))
    (hpast : request.endFrame = min past (request.firstFrame + maxPushFrames))
    (hread : source request.firstFrame frames = .block block)
    (h : t.acceptPulled request frames block = (status, s')) : Pulled source s s' := by
  unfold acceptPulled at h
  by_cases hvalid : ∃ code, t.validatePcmBlock block = .error code
  · obtain ⟨code, hcode⟩ := hvalid
    rw [hcode] at h
    exact .settled ht (settleDelivery_settled h)
  rw [not_exists] at hvalid
  rw [validatePcmBlock_eq_ok hvalid] at h
  simp only at h
  by_cases hfit : block.firstFrame ≠ request.firstFrame ∨ frames < block.frameCount ∨
      request.endFrame < block.firstFrame + block.frameCount
  · rw [if_pos hfit] at h
    exact .settled ht (settleDelivery_settled h)
  rw [if_neg hfit] at h
  have hfirst : block.firstFrame = request.firstFrame := by
    by_contra hne
    exact hfit (.inl hne)
  have hend : block.firstFrame + block.frameCount ≤ past := by
    have := not_lt.mp fun hlt => hfit (.inr (.inr hlt))
    omega
  cases hactivate : t.activate with
  | mk answer u =>
      rw [hactivate] at h
      rcases activate_cases hactivate with ⟨rfl, hactive⟩ | ⟨⟨code, hcode, rfl⟩, hfresh, hun⟩
      · simp only at h
        by_cases hoverview : u.config.requests .waveformOverview = true
        · rw [if_pos hoverview] at h
          exact .delivered ht (hfirst ▸ hgap) (hfirst ▸ hread) hvalid hend hactive
            (.accepted hoverview (acceptPcm_accepts rfl)) (settleDelivery_settled h)
        · rw [if_neg hoverview] at h
          obtain ⟨-, rfl⟩ := Prod.mk.inj h
          exact .delivered ht (hfirst ▸ hgap) (hfirst ▸ hread) hvalid hend hactive
            (.ignored (by simpa using hoverview)) (.refl _)
      · simp only [settleDelivery_lacksRoom hcode] at h
        obtain ⟨-, rfl⟩ := Prod.mk.inj h
        exact .unactivated ht hfresh hun

theorem pullNext_pulled {source : PullSource} {budget : WorkBudget} {s s' : Session}
    {status : Status} (hattached : s.hasPullSource = true)
    (hstate : s.state = .created ∨ s.state = .active)
    (h : s.pullNext source budget = (status, s')) : Pulled source s s' := by
  unfold pullNext at h
  by_cases hqueue : s.queue ≠ []
  · rw [if_pos hqueue] at h
    exact (Prod.mk.inj h).2 ▸ .settled (.refl s) (.refl s)
  rw [if_neg hqueue] at h
  have hasks : s.PullAsks := ⟨hattached, hstate, not_not.mp hqueue⟩
  cases hnext : s.nextOverviewRequest with
  | mk answer t =>
      obtain ⟨ht, ⟨rfl, hgap⟩ | ⟨request, past, rfl, hgap, hpast⟩⟩ :=
        nextOverviewRequest_cases hnext
      · rw [hnext] at h
        simp only at h
        cases htotal : t.config.totalFrames with
        | none =>
            rw [htotal] at h
            obtain ⟨-, rfl⟩ := Prod.mk.inj h
            exact .settled ht (.refl t)
        | some total =>
            rw [htotal] at h
            exact .exhausted hasks ht (ht.config ▸ htotal) hgap (endInput_ended h)
      · rw [hnext] at h
        simp only at h
        split at h
        · obtain ⟨-, rfl⟩ := Prod.mk.inj h
          exact .settled ht (.refl t)
        · next hread =>
            by_cases htotal : t.config.totalFrames.isSome ∧
                t.config.totalFrames ≠ some request.range.firstFrame
            · rw [if_pos htotal] at h
              exact .settled ht (sourceFailure_settled h)
            rw [if_neg htotal] at h
            refine .reported hasks ht hgap hread (fun total hmem => ?_) (endInput_ended h)
            by_contra hne
            rw [ht.config] at htotal
            refine htotal ⟨by rw [Option.mem_def.mp hmem]; rfl, ?_⟩
            rw [Option.mem_def.mp hmem]
            exact fun heq => hne (Option.some.inj heq)
        · exact .settled ht (sourceFailure_settled h)
        · next block hread => exact acceptPulled_pulled ht hgap hpast hread h

/-- Every call of the pull adapter is one of these. -/
theorem pullPcm_pulled {source : PullSource} {budget : WorkBudget} {s s' : Session}
    {status : Status} (h : s.pullPcm source budget = (status, s')) : Pulled source s s' := by
  have hkept : ∀ answer : Status, (answer, s) = (status, s') → Pulled source s s' :=
    fun answer heq => (Prod.mk.inj heq).2 ▸ .settled (.refl s) (.refl s)
  unfold pullPcm at h
  split_ifs at h with hattached
  · exact hkept _ h
  rw [Bool.not_eq_true', Bool.not_eq_false] at hattached
  cases hstate : s.state with
  | created =>
      rw [hstate] at h
      exact pullNext_pulled hattached (.inl hstate) h
  | active =>
      rw [hstate] at h
      exact pullNext_pulled hattached (.inr hstate) h
  | _ =>
      rw [hstate] at h
      exact hkept _ h

/-! ## Every call -/

/-- The calls that publish the session with one thing changed. -/
def publishesAtOnce : Op → Bool
  | .setMetadata _ | .lockGridRange _ | .applyGridRevision _ => true
  | _ => false

/-- The calls that may accept frames. -/
def takesFrames : Op → Bool
  | .seedFromResult _ | .pushPcm _ | .process _ _ => true
  | _ => false

/-- The session asks its source for frames before it processes. -/
def pulls (s : Session) : Prop := s.config.inputMode = .pull ∧ s.cancelRequested = false

/-- What a call does to the track. -/
inductive Outcome : Op → Session → Session → Prop
  | kept {op : Op} {s s' : Session} (hop : takesFrames op = false) (h : SameTrack s s') :
      Outcome op s s'
  | announced {op : Op} {s t s' : Session} (hop : publishesAtOnce op = true) (mask : FeatureMask)
      (h : SameTrack s t) (h' : SameTrack (t.published mask) s') : Outcome op s s'
  | unannounced {op : Op} {s t s' : Session} (hop : publishesAtOnce op = true) (h : SameTrack s t)
      (h' : Unannounced t s') : Outcome op s s'
  | fixed {total : ℕ} {s : Session} (hfresh : s.state = .created)
      (htotal : ∀ known ∈ s.config.totalFrames, known = total) :
      Outcome (.setSource (some total)) s
        { s with config := { s.config with totalFrames := some total }, hasPullSource := true }
  | seeded {result : Result} {s : Session} :
      Outcome (.seedFromResult result) s (s.seedFromResult result).2
  | pushed {block : PcmBlock} {s s' : Session} (h : Pushed block s (s.pushPcm block).2.1 s') :
      Outcome (.pushPcm block) s s'
  | ended {finalEnd : ℕ} {s s' : Session} (hmode : s.config.inputMode = .push)
      (h : Ended finalEnd s s') : Outcome (.signalEndOfInput finalEnd) s s'
  | processed {source : PullSource} {budget : WorkBudget} {s s' : Session} (hmode : ¬ s.pulls)
      (h : Processed budget (s.started budget) s') : Outcome (.process source budget) s s'
  | pulled {source : PullSource} {budget : WorkBudget} {s s' : Session} (hmode : s.pulls)
      (hpull : (s.pullPcm source budget).2 = s') (h : Pulled source s s') :
      Outcome (.process source budget) s s'
  | pulledProcessed {source : PullSource} {budget : WorkBudget} {s t s' : Session}
      (hmode : s.pulls) (hpull : (s.pullPcm source budget).2 = t) (h : Pulled source s t)
      (h' : Processed budget (t.started budget) s') : Outcome (.process source budget) s s'

/-- A publication with its failure taken back, up to what the caller adds on success. -/
private theorem publishAtOnce_outcome {op : Op} (hop : publishesAtOnce op = true)
    (mask : FeatureMask) {s t s' : Session} (h : SameTrack s t)
    (hok : ∀ after, (∃ env, after = { t.published mask with env := env }) →
      t.publish mask = (.ok, after) → SameTrack after s')
    (herror : ∀ code after, t.publish mask = (.error code, after) → SameTrack after s') :
    Outcome op s s' := by
  cases hpub : t.publish mask with
  | mk status after =>
      rcases publish_cases hpub with ⟨rfl, henv⟩ | ⟨⟨code, -, rfl⟩, hun⟩
      · refine .announced hop mask h (.trans ?_ (hok after henv hpub))
        obtain ⟨env, rfl⟩ := henv
        exact ⟨rfl, rfl, rfl, rfl, rfl, rfl, .refl _, rfl, rfl, rfl, rfl⟩
      · exact .unannounced hop h (hun.unannounced.rest (herror code after hpub))

theorem setMetadata_outcome {metadata : Option Metadata} {s s' : Session} {status : Status}
    (h : s.setMetadata metadata = (status, s')) : Outcome (.setMetadata metadata) s s' := by
  unfold setMetadata at h
  split_ifs at h
  · exact (Prod.mk.inj h).2 ▸ .kept rfl (.refl s)
  · exact (Prod.mk.inj h).2 ▸ .kept rfl (.refl s)
  cases hreserve : reserveMetadata metadata s.env with
  | mk granted env =>
      rw [hreserve] at h
      cases granted
      · exact (Prod.mk.inj h).2 ▸
          .kept rfl ⟨rfl, rfl, rfl, rfl, rfl, rfl, .refl _, rfl, rfl, rfl, rfl⟩
      refine publishAtOnce_outcome rfl ∅ (t := { s with env := env, metadata := metadata })
        ⟨rfl, rfl, rfl, rfl, rfl, rfl, .refl _, rfl, rfl, rfl, rfl⟩ (fun after _ hpub => ?_)
        (fun code after hpub => ?_)
      · simp only [hpub] at h
        exact (Prod.mk.inj h).2 ▸ .refl after
      · simp only [hpub] at h
        exact (Prod.mk.inj h).2 ▸ ⟨rfl, rfl, rfl, rfl, rfl, rfl, .refl _, rfl, rfl, rfl, rfl⟩

theorem lockGridRange_outcome {range : FrameRange} {s s' : Session} {status : Status}
    (h : s.lockGridRange range = (status, s')) : Outcome (.lockGridRange range) s s' := by
  rcases lockGridRange_cases range s with
    ⟨_, heq, -⟩ | ⟨estimate, answer, after, -, -, hpub, heq⟩ <;> rw [heq] at h
  · exact (Prod.mk.inj h).2 ▸ .kept rfl (.refl s)
  · refine publishAtOnce_outcome rfl {.localBeatgrid, .gridLocking} (t := s.withLock range estimate)
      ⟨rfl, rfl, rfl, rfl, rfl, rfl, .refl _, rfl, rfl, rfl, rfl⟩ (fun t _ hok => ?_)
      (fun code t herror => ?_)
    · obtain ⟨rfl, rfl⟩ := Prod.mk.inj (hpub.symm.trans hok)
      exact (Prod.mk.inj h).2 ▸ s4MarkPublished_sameTrack after
    · obtain ⟨rfl, rfl⟩ := Prod.mk.inj (hpub.symm.trans herror)
      exact (Prod.mk.inj h).2 ▸ ⟨rfl, rfl, rfl, rfl, rfl, rfl, .refl _, rfl, rfl, rfl, rfl⟩

theorem applyGridRevision_outcome {revisionId : ℕ} {s s' : Session} {status : Status}
    (h : s.applyGridRevision revisionId = (status, s')) :
    Outcome (.applyGridRevision revisionId) s s' := by
  rcases applyGridRevision_cases revisionId s with
    ⟨_, heq⟩ | ⟨s6, estimate, selected, answer, after, -, -, -, -, -, hpub, heq⟩ <;> rw [heq] at h
  · exact (Prod.mk.inj h).2 ▸ .kept rfl (.refl s)
  · refine publishAtOnce_outcome rfl
      ({.localBeatgrid, .globalBeatgrid, .gridLocking} ∪ s.ifRequested .dynamicTempo)
      (t := s.withRevision revisionId s6 selected estimate)
      ⟨rfl, rfl, rfl, rfl, rfl, rfl, .refl _, rfl, rfl, rfl, rfl⟩ (fun t _ hok => ?_)
      (fun code t herror => ?_)
    · obtain ⟨rfl, rfl⟩ := Prod.mk.inj (hpub.symm.trans hok)
      exact (Prod.mk.inj h).2 ▸
        (s4MarkPublished_sameTrack after).trans (s6MarkPublished_sameTrack _)
    · obtain ⟨rfl, rfl⟩ := Prod.mk.inj (hpub.symm.trans herror)
      exact (Prod.mk.inj h).2 ▸ .refl after

theorem setSource_outcome {sourceTotal : Option ℕ} {s s' : Session} {status : Status}
    (h : s.setSource sourceTotal = (status, s')) : Outcome (.setSource sourceTotal) s s' := by
  unfold setSource at h
  split_ifs at h with hmode hstate
  · exact (Prod.mk.inj h).2 ▸ .kept rfl (.refl s)
  · exact (Prod.mk.inj h).2 ▸ .kept rfl (.refl s)
  cases sourceTotal with
  | none =>
      obtain ⟨-, rfl⟩ := Prod.mk.inj h
      exact .kept rfl ⟨rfl, rfl, rfl, rfl, rfl, rfl, .refl _, rfl, rfl, rfl, rfl⟩
  | some total =>
      simp only at h
      split_ifs at h with htotal
      · exact (Prod.mk.inj h).2 ▸ .kept rfl (.refl s)
      · refine (Prod.mk.inj h).2 ▸ .fixed (not_not.mp hstate) fun known hmem => ?_
        by_contra hne
        refine htotal ⟨by rw [Option.mem_def.mp hmem]; rfl, ?_⟩
        rw [Option.mem_def.mp hmem]
        exact fun heq => hne (Option.some.inj heq)

theorem setFocus_sameTrack (focus : Focus) (s : Session) : SameTrack s (s.setFocus focus).2 := by
  unfold setFocus
  split_ifs <;>
    first
    | exact .refl s
    | exact ⟨rfl, rfl, rfl, rfl, rfl, rfl, .refl _, rfl, rfl, rfl, rfl⟩

theorem requestRegion_sameTrack (request : RegionRequest) (s : Session) :
    SameTrack s (s.requestRegion request).2.2 := by
  unfold requestRegion
  simp only
  repeat' split
  all_goals
    first
    | exact .refl s
    | exact ⟨rfl, rfl, rfl, rfl, rfl, rfl, .refl _, rfl, rfl, rfl, rfl⟩

theorem cancelRegionRequest_sameTrack (requestId : ℕ) (s : Session) :
    SameTrack s (s.cancelRegionRequest requestId).2 := by
  unfold cancelRegionRequest
  repeat' split
  all_goals
    first
    | exact .refl s
    | exact ⟨rfl, rfl, rfl, rfl, rfl, rfl, .refl _, rfl, rfl, rfl, rfl⟩

theorem nextPcmRequest_sameTrack (s : Session) : SameTrack s s.nextPcmRequest.2 := by
  have hstaged : ∀ requests, SameTrack s { s with requests := requests } := fun requests =>
    ⟨rfl, rfl, rfl, rfl, rfl, rfl, .refl _, rfl, rfl, rfl, rfl⟩
  unfold nextPcmRequest
  split
  · exact hstaged _
  · exact hstaged _
  simp only
  split_ifs
  · exact (hstaged _).trans (((demandOverview_sameTrack _ _).trans
      (nextOverviewRequest_cases rfl).1).trans (restoreDemand_sameTrack _ _))
  · exact hstaged _

theorem process_outcome {source : PullSource} {budget : WorkBudget} {s s' : Session}
    {status : Status} {progress : Progress}
    (h : s.process source budget = some (status, progress, s')) :
    Outcome (.process source budget) s s' := by
  unfold process at h
  by_cases hmode : s.config.inputMode = .pull ∧ (!s.cancelRequested) = true
  · rw [if_pos hmode] at h
    have hpulls : s.pulls := ⟨hmode.1, by simpa using hmode.2⟩
    cases hpull : s.pullPcm source budget with
    | mk answer t =>
        have hpulled := pullPcm_pulled hpull
        rw [hpull] at h
        cases answer with
        | error code =>
            simp only [Option.some.injEq, Prod.mk.injEq] at h
            obtain ⟨-, -, rfl⟩ := h
            exact .pulled hpulls (by rw [hpull]) hpulled
        | _ => exact .pulledProcessed hpulls (by rw [hpull]) hpulled (processImpl_processed h)
  · rw [if_neg hmode] at h
    exact .processed (fun hpulls => hmode ⟨hpulls.1, by simpa using hpulls.2⟩)
      (processImpl_processed h)

/-- Every call has one of the outcomes. -/
theorem perform_outcome {op : Op} {s s' : Session} {status : Status}
    (h : perform op s = some (status, s')) : Outcome op s s' := by
  cases op with
  | setSource sourceTotal => exact setSource_outcome (Option.some.inj h)
  | seedFromResult result =>
      have heq : (s.seedFromResult result).2 = s' := congrArg Prod.snd (Option.some.inj h)
      exact heq ▸ .seeded
  | setMetadata metadata => exact setMetadata_outcome (Option.some.inj h)
  | setFocus focus =>
      have heq : (s.setFocus focus).2 = s' := congrArg Prod.snd (Option.some.inj h)
      exact .kept rfl (heq ▸ setFocus_sameTrack focus s)
  | requestRegion request =>
      have heq : (s.requestRegion request).2.2 = s' := congrArg Prod.snd (Option.some.inj h)
      exact .kept rfl (heq ▸ requestRegion_sameTrack request s)
  | cancelRegionRequest requestId =>
      have heq : (s.cancelRegionRequest requestId).2 = s' := congrArg Prod.snd (Option.some.inj h)
      exact .kept rfl (heq ▸ cancelRegionRequest_sameTrack requestId s)
  | nextPcmRequest =>
      have heq : s.nextPcmRequest.2 = s' := by
        simp only [perform] at h
        cases hnext : s.nextPcmRequest with
        | mk answer t =>
            rw [hnext] at h
            cases answer <;> exact congrArg Prod.snd (Option.some.inj h)
      exact .kept rfl (heq ▸ nextPcmRequest_sameTrack s)
  | pushPcm block =>
      have heq : (s.pushPcm block).2.2 = s' := congrArg Prod.snd (Option.some.inj h)
      exact .pushed (pushPcm_pushed (n := (s.pushPcm block).2.1) (by rw [← heq]))
  | signalEndOfInput finalEnd =>
      have heq : s.signalEndOfInput finalEnd = (status, s') := Option.some.inj h
      unfold signalEndOfInput at heq
      split_ifs at heq with _ hmode
      · exact .kept rfl ((Prod.mk.inj heq).2 ▸ .refl s)
      · exact .kept rfl ((Prod.mk.inj heq).2 ▸ .refl s)
      · exact .ended (not_not.mp hmode) (endInput_ended heq)
  | process source budget =>
      obtain ⟨⟨answer, progress, after⟩, hprocess, heq⟩ := Option.map_eq_some_iff.mp h
      exact (Prod.mk.inj heq).2 ▸ process_outcome hprocess
  | lockGridRange range => exact lockGridRange_outcome (Option.some.inj h)
  | applyGridRevision revisionId => exact applyGridRevision_outcome (Option.some.inj h)
  | requestCancel =>
      have heq : s.requestCancel = s' := congrArg Prod.snd (Option.some.inj h)
      exact .kept rfl (heq ▸ ⟨rfl, rfl, rfl, rfl, rfl, rfl, .refl _, rfl, rfl, rfl, rfl⟩)

/-- The first publication publishes the session as it is. -/
private theorem firstPublication_some {s t : Session} {status : Status}
    (h : s.firstPublication = (status, some t)) :
    ∃ env, t = published ∅ { s with env := env } := by
  unfold firstPublication at h
  by_cases hbounded : s.config.boundedResultSlots = true
  · rw [if_pos hbounded] at h
    refine ⟨s.env, ?_⟩
    split at h
    · exact absurd h (by simp)
    · exact (Option.some.inj (Prod.mk.inj h).2).symm
  · rw [if_neg hbounded] at h
    cases hpub : s.publish ∅ with
    | mk answer after =>
        rw [hpub] at h
        rcases publish_cases hpub with ⟨rfl, env, rfl⟩ | ⟨⟨code, -, rfl⟩, -⟩
        · exact ⟨env, (Option.some.inj (Prod.mk.inj h).2).symm⟩
        · exact absurd h (by simp)

/-- What creation returns is a new session that has published its first result. -/
theorem create_ok {config : Config} {libm : Libm} {usesWorkspace : Bool} {platform : Environment}
    {s : Session} (h : create config libm usesWorkspace platform = (.ok, some s)) :
    createStatus config usesWorkspace = .ok ∧
      ∃ env, s = published ∅ (new config libm usesWorkspace env) := by
  have hstatus : createStatus config usesWorkspace = .ok := by
    unfold create at h
    cases hcase : createStatus config usesWorkspace with
    | error code =>
        rw [hcase] at h
        exact absurd h (by simp)
    | ok => rfl
    | _ =>
        unfold createStatus at hcase
        simp only at hcase
        split_ifs at hcase
  unfold create at h
  rw [hstatus] at h
  cases hask : platform.allocate with
  | mk granted env =>
      rw [hask] at h
      cases granted
      · exact absurd h (by simp)
      obtain ⟨env', rfl⟩ := firstPublication_some h
      exact ⟨hstatus, env', rfl⟩

theorem created_cases {s : Session} (h : Created s) :
    ∃ config libm usesWorkspace env, createStatus config usesWorkspace = .ok ∧
      s = published ∅ (new config libm usesWorkspace env) := by
  obtain ⟨config, libm, usesWorkspace, env, h⟩ := h
  obtain ⟨hstatus, env', rfl⟩ := create_ok h
  exact ⟨config, libm, usesWorkspace, env', hstatus, rfl⟩

/-- What creation accepts is valid, and asks for detail tiles with the overview only. -/
theorem createStatus_ok {config : Config} {usesWorkspace : Bool}
    (h : createStatus config usesWorkspace = .ok) :
    configIsValid config = true ∧ (config.requests .waveformDetail = true →
      config.requests .waveformOverview = true) := by
  unfold createStatus at h
  simp only at h
  generalize hcoherent : (if usesWorkspace = true then
      !config.requests .waveformDetail || config.requests .waveformOverview
    else maskIsCoherent config.requestedFeatures) = coherent at h
  split_ifs at h with _ _ hinvalid
  obtain ⟨rfl, hvalid⟩ : coherent = true ∧ configIsValid config = true := by simpa using hinvalid
  refine ⟨hvalid, fun hdetail => ?_⟩
  split_ifs at hcoherent
  · simpa [hdetail] using hcoherent
  · unfold maskIsCoherent at hcoherent
    simp only [Bool.and_eq_true, Bool.or_eq_true, decide_eq_true_eq] at hcoherent
    obtain ⟨⟨⟨⟨hdependency, -⟩, -⟩, -⟩, -⟩ := hcoherent
    refine decide_eq_true (hdependency.resolve_left fun hnone => ?_)
    have hmem : Feature.waveformDetail ∈ ({.waveformDetail, .waveform3Band, .confidence} ∪
        s4Features ∪ s6Features) ∩ config.requestedFeatures :=
      Finset.mem_inter.mpr ⟨by decide, of_decide_eq_true hdetail⟩
    rw [hnone] at hmem
    exact Finset.notMem_empty _ hmem

theorem created_eq {s : Session} (h : Created s) :
    ∃ config libm usesWorkspace env, configIsValid config = true ∧
      s = published ∅ (new config libm usesWorkspace env) := by
  obtain ⟨config, libm, usesWorkspace, env, hstatus, rfl⟩ := created_cases h
  exact ⟨config, libm, usesWorkspace, env, (createStatus_ok hstatus).1, rfl⟩

theorem withPlatform_sameTrack (call : Call) (s : Session) : SameTrack s (s.withPlatform call) :=
  ⟨rfl, rfl, rfl, rfl, rfl, rfl, .refl _, rfl, rfl, rfl, rfl⟩

/-- Every step of a run has one of the outcomes, from the session with the platform of the call. -/
theorem step_outcome {call : Call} {s s' : Session} (h : step call s = some s') :
    Outcome call.op (s.withPlatform call) s' := by
  obtain ⟨⟨status, after⟩, hperform, rfl⟩ := Option.map_eq_some_iff.mp h
  exact perform_outcome hperform

end Session

end LibApta
