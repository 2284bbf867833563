import LibApta.Session.AcceptedSet
import LibApta.Session.PushSpec
import LibApta.Waveform.DetailDemand

/-!
# The contract of a push

A push says how many frames of its block it has accepted, and its status says the same in words: all,
some or none. What it has accepted is a prefix of the block, and what it has refused has left the
accepted frames, the queue, the detail columns and the bins of the estimators alone.

Two calls report frames that the table of accepted frames does not get. A session without the overview
keeps no accepted frames and takes every block. A block that starts at an accepted frame may be taken
by the detail layer, which does not look whether its other frames are accepted.
-/

namespace LibApta

/-! ## Refusals -/

/-- Allocating the local estimator adds no bin. -/
theorem S4State.prepare_ring (features : FeatureMask) (s4 : S4State) (env : Environment) :
    (S4State.prepare features s4 env).2.1.ring = s4.ring := by
  unfold S4State.prepare
  split_ifs
  · rfl
  split
  · rfl
  split
  · rfl
  · rfl

/-- The bins of the global estimator, none before it is allocated. -/
def S6State.binsOf : Option S6State → OnsetRing
  | some s6 => s6.ring
  | none => fun _ => none

/-- Allocating the global estimator adds no bin. -/
theorem S6State.prepare_bins (features : FeatureMask) (s6 : Option S6State) (env : Environment) :
    S6State.binsOf (S6State.prepare features s6 env).2.1 = S6State.binsOf s6 := by
  unfold S6State.prepare
  split_ifs with hkept
  · rfl
  rw [Bool.or_eq_true, not_or] at hkept
  obtain rfl : s6 = none := Option.not_isSome_iff_eq_none.mp hkept.2
  split
  · rfl
  simp only
  split_ifs
  · rfl
  · rfl

namespace Session

/-- What a session has taken in is the same: the accepted ranges, the queue, the detail columns and the
bins of both estimators. -/
structure Untouched (s s' : Session) : Prop where
  ranges : s'.accepted.ranges = s.accepted.ranges
  queue : s'.queue = s.queue
  detail : s'.detail = s.detail
  onsetBins : s'.s4.ring = s.s4.ring
  globalBins : S6State.binsOf s'.s6 = S6State.binsOf s.s6

namespace Untouched

theorem refl (s : Session) : Untouched s s := ⟨rfl, rfl, rfl, rfl, rfl⟩

theorem trans {a b c : Session} (h : Untouched a b) (h' : Untouched b c) : Untouched a c :=
  ⟨h'.ranges.trans h.ranges, h'.queue.trans h.queue, h'.detail.trans h.detail,
    h'.onsetBins.trans h.onsetBins, h'.globalBins.trans h.globalBins⟩

end Untouched

/-- A status that refuses a block. -/
def Refuses (status : Status) : Prop := status = .wouldBlock ∨ ∃ code, status = .error code

/-- Activating a session takes nothing in. -/
theorem activate_untouched (s : Session) : Untouched s s.activate.2 := by
  cases hactivate : s.activate with
  | mk status t =>
      unfold activate at hactivate
      split_ifs at hactivate
      · rcases transition_cases hactivate with ⟨-, -, rfl⟩ | ⟨-, -, env, rfl⟩ | ⟨-, env, rfl | rfl⟩
        · exact .refl _
        · exact ⟨rfl, rfl, rfl, rfl, rfl⟩
        · exact ⟨rfl, rfl, rfl, rfl, rfl⟩
        · exact ⟨rfl, rfl, rfl, rfl, rfl⟩
      · obtain ⟨-, rfl⟩ := Prod.mk.inj hactivate
        exact .refl _

/-- Allocating the estimators takes nothing in. -/
theorem prepareEstimators_untouched (s : Session) : Untouched s s.prepareEstimators.2 := by
  have hs4 := S4State.prepare_ring s.config.requestedFeatures s.s4 s.env
  unfold prepareEstimators
  split
  · next s4 env heq =>
      rw [heq] at hs4
      exact ⟨rfl, rfl, rfl, hs4, S6State.prepare_bins _ _ _⟩
  · next status s4 env _ heq =>
      rw [heq] at hs4
      exact ⟨rfl, rfl, rfl, hs4, rfl⟩

/-! ## Answers -/

/-- What a push answers: a refusal that takes nothing in; the missing frames the block starts with, or
some of them; a replay of a block that starts at an accepted frame; or every frame, when the session
keeps none. -/
inductive PushAnswer (block : PcmBlock) (s : Session) : Status → ℕ → Session → Prop
  | refused {status : Status} {s' : Session} (hstatus : Refuses status) (h : Untouched s s') :
      PushAnswer block s status 0 s'
  | accepted {n : ℕ} {s' : Session} (hpos : 0 < n) (hle : n ≤ block.frameCount)
      (hframes : s'.accepted.frames = s.accepted.frames ∪ frameRun block.firstFrame n) :
      PushAnswer block s (if n = block.frameCount then .ok else .moreWork) n s'
  | replayed {n : ℕ} {s' : Session} (hpos : 0 < n) (hle : n ≤ block.frameCount)
      (hfirst : block.firstFrame ∈ s.accepted.frames)
      (hranges : s'.accepted.ranges = s.accepted.ranges) :
      PushAnswer block s (if n = block.frameCount then .ok else .moreWork) n s'
  | discarded {s' : Session} (hpos : 0 < block.frameCount)
      (hoverview : s.config.requests .waveformOverview = false) :
      PushAnswer block s .ok block.frameCount s'

variable {block : PcmBlock} {s s' : Session} {status : Status} {n : ℕ}

/-- An answer after a preparation that takes nothing in. -/
theorem PushAnswer.of_untouched {t : Session} (h : Untouched s t) (hconfig : t.config = s.config)
    (h' : PushAnswer block t status n s') : PushAnswer block s status n s' := by
  have hframes : t.accepted.frames = s.accepted.frames := by
    rw [AcceptedRanges.frames, AcceptedRanges.frames, h.ranges]
  cases h' with
  | refused hstatus h' => exact .refused hstatus (h.trans h')
  | accepted hpos hle hgrown => exact .accepted hpos hle (hframes ▸ hgrown)
  | replayed hpos hle hfirst hranges =>
      exact .replayed hpos hle (hframes ▸ hfirst) (hranges.trans h.ranges)
  | discarded hpos hoverview => exact .discarded hpos (hconfig ▸ hoverview)

/-- The waveform layer refuses a block or accepts some of the missing frames it starts with. A conflict
leaves the session as it is. -/
theorem acceptPcmBase_answer (hordered : Interval.Ordered s.accepted.ranges)
    (hforward : Interval.Forward s.accepted.ranges) (hpos : 0 < block.frameCount)
    (h : s.acceptPcmBase block = (status, n, s')) :
    (n = 0 ∧ Refuses status ∧ Untouched s s' ∧
        (status = .error .conflict → s' = s ∧ block.firstFrame ∈ s.accepted.frames)) ∨
      0 < n ∧ n ≤ block.frameCount ∧
        status = (if n = block.frameCount then Status.ok else .moreWork) ∧
        s'.accepted.frames = s.accepted.frames ∪ frameRun block.firstFrame n := by
  unfold acceptPcmBase at h
  simp only at h
  have hcandidate : 0 < min block.frameCount maxPushFrames := lt_min hpos (by norm_num)
  rcases AcceptedRanges.nonoverlappingPrefix_spec hordered block.firstFrame hcandidate with
    ⟨heq, htaken⟩ | ⟨hclear, hfree, hbound, -⟩
  · rw [heq] at h
    simp only [if_true, Prod.mk.injEq] at h
    obtain ⟨rfl, rfl, rfl⟩ := h
    exact .inl ⟨rfl, .inr ⟨_, rfl⟩, .refl _, fun _ => ⟨rfl, htaken⟩⟩
  cases hfront : AcceptedRanges.nonoverlappingPrefix block.firstFrame
      (min block.frameCount maxPushFrames) s.accepted.ranges with
  | mk free conflict =>
      rw [hfront] at h hfree hbound
      simp only at h
      rw [if_neg hfree.ne'] at h
      cases hroom : s.accepted.ensureCapacity (s.accepted.ranges.length + 1) s.env with
      | mk answer rest =>
          obtain ⟨table, env⟩ := rest
          obtain ⟨⟨capacity, rfl⟩, hanswer⟩ := AcceptedRanges.ensureCapacity_cases hroom
          have hkept : ∀ env', Untouched s
              { s with accepted := { s.accepted with capacity := capacity }, env := env' } :=
            fun env' => ⟨rfl, rfl, rfl, rfl, rfl⟩
          rw [hroom] at h
          rcases hanswer with rfl | rfl | rfl
          · simp only at h
            cases hnode : allocateNode 13 free env with
            | mk granted env' =>
                rw [hnode] at h
                cases granted with
                | none =>
                    simp only [Prod.mk.injEq] at h
                    obtain ⟨rfl, rfl, rfl⟩ := h
                    exact .inl ⟨rfl, .inl rfl, hkept env', fun hconflict => nomatch hconflict⟩
                | some accepted =>
                    obtain ⟨hsome, hle⟩ := allocateNode_some hnode
                    simp only [Prod.mk.injEq] at h
                    obtain ⟨rfl, rfl, rfl⟩ := h
                    refine .inr ⟨hsome, (hle.trans hbound).trans (Nat.min_le_left _ _), rfl, ?_⟩
                    ext frame
                    exact (Interval.insertMerge_points hforward (Nat.le_add_right _ _)).2 frame
          · simp only [Prod.mk.injEq] at h
            obtain ⟨rfl, rfl, rfl⟩ := h
            exact .inl ⟨rfl, .inr ⟨_, rfl⟩, hkept env, fun hconflict => nomatch hconflict⟩
          · simp only [Prod.mk.injEq] at h
            obtain ⟨rfl, rfl, rfl⟩ := h
            exact .inl ⟨rfl, .inl rfl, hkept env, fun hconflict => nomatch hconflict⟩

/-- The detail layer leaves a block, or takes it as a replay as far as one push goes. -/
theorem acceptReplay_answer (hindexed : beyondDetail block = false)
    (h : s.acceptReplay block = (status, n, s')) :
    (status = .notAvailable ∧ s' = s) ∨
      0 < n ∧ n ≤ block.frameCount ∧
        status = (if n = block.frameCount then Status.ok else .moreWork) ∧
        s'.accepted = s.accepted := by
  unfold Session.acceptReplay at h
  obtain heq | ⟨hpos, after, heq⟩ := @Detail.acceptReplay_indexed
    (s.config.requests .waveformDetail) s.detailContext s.detail block
    (indexed_of_not_beyondDetail hindexed)
  · rw [heq] at h
    simp only [Prod.mk.injEq] at h
    obtain ⟨rfl, -, rfl⟩ := h
    exact .inl ⟨rfl, rfl⟩
  · rw [heq] at h
    simp only [Prod.mk.injEq] at h
    obtain ⟨rfl, rfl, rfl⟩ := h
    exact .inr ⟨lt_min hpos (by norm_num), Nat.min_le_left _ _, rfl, rfl⟩

/-- What the two layers answer to a block. -/
theorem acceptPcm_answer (hordered : Interval.Ordered s.accepted.ranges)
    (hforward : Interval.Forward s.accepted.ranges) (hpos : 0 < block.frameCount)
    (h : s.acceptPcm block = (status, n, s')) : PushAnswer block s status n s' := by
  unfold acceptPcm at h
  split_ifs at h with hbeyond
  · simp only [Prod.mk.injEq] at h
    obtain ⟨rfl, rfl, rfl⟩ := h
    exact .refused (.inr ⟨_, rfl⟩) (.refl s)
  have hprepared := prepareEstimators_untouched s
  have hanswer := prepareEstimators_status s
  cases hprepare : s.prepareEstimators with
  | mk answer t =>
      obtain ⟨s4, s6, env, rfl⟩ := prepareEstimators_cases hprepare
      rw [hprepare] at h hprepared hanswer
      refine .of_untouched hprepared rfl ?_
      rcases hanswer with rfl | rfl
      swap
      · simp only [Prod.mk.injEq] at h
        obtain ⟨rfl, rfl, rfl⟩ := h
        exact .refused (.inr ⟨_, rfl⟩) (.refl _)
      simp only at h
      cases hbase : acceptPcmBase block { s with s4 := s4, s6 := s6, env := env } with
      | mk taken rest =>
          obtain ⟨m, u⟩ := rest
          rw [hbase] at h
          obtain ⟨rfl, hrefuses, huntouched, hconflict⟩ | ⟨hm, hle, rfl, hframes⟩ :=
            acceptPcmBase_answer (s := { s with s4 := s4, s6 := s6, env := env }) hordered hforward
              hpos hbase
          · by_cases htaken : taken = .error .conflict
            swap
            · have hrest : (taken, 0, u) = (status, n, s') := by
                obtain rfl | ⟨code, rfl⟩ := hrefuses
                · exact h
                · cases code with
                  | conflict => exact absurd rfl htaken
                  | _ => exact h
              simp only [Prod.mk.injEq] at hrest
              obtain ⟨rfl, rfl, rfl⟩ := hrest
              exact .refused hrefuses huntouched
            subst htaken
            obtain ⟨rfl, hfirst⟩ := hconflict rfl
            simp only at h
            by_cases hdetail : s.config.requests .waveformDetail = true
            swap
            · rw [if_neg hdetail] at h
              simp only [Prod.mk.injEq] at h
              obtain ⟨rfl, rfl, rfl⟩ := h
              exact .refused (.inr ⟨_, rfl⟩) (.refl _)
            rw [if_pos hdetail] at h
            have hindexed : beyondDetail block = false := by simpa [hdetail] using hbeyond
            cases hreplay : acceptReplay block { s with s4 := s4, s6 := s6, env := env } with
            | mk answer rest =>
                obtain ⟨k, v⟩ := rest
                rw [hreplay] at h
                obtain ⟨rfl, rfl⟩ | ⟨hk, hle, rfl, haccepted⟩ :=
                  acceptReplay_answer hindexed hreplay
                · simp only [Prod.mk.injEq] at h
                  obtain ⟨rfl, rfl, rfl⟩ := h
                  exact .refused (.inr ⟨_, rfl⟩) (.refl _)
                · have hrest : ((if k = block.frameCount then Status.ok else .moreWork), k, v) =
                      (status, n, s') := by
                    split_ifs at h ⊢ <;> exact h
                  simp only [Prod.mk.injEq] at hrest
                  obtain ⟨rfl, rfl, rfl⟩ := hrest
                  exact .replayed hk hle hfirst (by rw [haccepted])
          · have hrest : ((if m = block.frameCount then Status.ok else .moreWork), m,
                u.feedAccepted block m) = (status, n, s') := by
              split_ifs at h ⊢ with hall <;> simpa [Status.failed, hm.ne'] using h
            simp only [Prod.mk.injEq] at hrest
            obtain ⟨rfl, rfl, rfl⟩ := hrest
            refine .accepted hm hle ?_
            rw [AcceptedRanges.frames, (feedAccepted_sameTrack block m u).ranges]
            exact hframes

/-- What a push answers. -/
theorem pushPcm_answer (hordered : Interval.Ordered s.accepted.ranges)
    (hforward : Interval.Forward s.accepted.ranges) (h : s.pushPcm block = (status, n, s')) :
    PushAnswer block s status n s' := by
  have hkept : ∀ code, (Status.error code, 0, s) = (status, n, s') →
      PushAnswer block s status n s' := by
    intro code heq
    simp only [Prod.mk.injEq] at heq
    obtain ⟨rfl, rfl, rfl⟩ := heq
    exact .refused (.inr ⟨_, rfl⟩) (.refl s)
  by_cases hmode : s.config.inputMode = .push
  swap
  · unfold pushPcm at h
    rw [if_pos hmode] at h
    exact hkept _ h
  by_cases hvalid : ∃ code, s.validatePcmBlock block = .error code
  · obtain ⟨code, hcode⟩ := hvalid
    unfold pushPcm at h
    rw [if_neg (not_not.mpr hmode), hcode] at h
    cases hstate : s.state <;> rw [hstate] at h <;> exact hkept _ h
  rw [not_exists] at hvalid
  by_cases hstate : s.state = .created ∨ s.state = .active
  swap
  · unfold pushPcm at h
    rw [if_neg (not_not.mpr hmode)] at h
    cases hcase : s.state with
    | created => exact absurd (.inl hcase) hstate
    | active => exact absurd (.inr hcase) hstate
    | _ =>
        rw [hcase] at h
        exact hkept _ h
  rw [pushPcm_eq_deliver hmode hstate hvalid] at h
  have hpos := (validatePcmBlock_ok hvalid).1
  have huntouched := activate_untouched s
  unfold deliver at h
  cases hactivate : s.activate with
  | mk answer t =>
      rw [hactivate] at h huntouched
      have hranges : t.accepted.ranges = s.accepted.ranges := huntouched.ranges
      rcases activate_cases hactivate with ⟨rfl, hactive⟩ | ⟨⟨code, -, rfl⟩, -, -⟩
      swap
      · simp only [Prod.mk.injEq] at h
        obtain ⟨rfl, rfl, rfl⟩ := h
        exact .refused (.inr ⟨_, rfl⟩) huntouched
      have hconfig : t.config = s.config := by cases hactive <;> rfl
      refine .of_untouched huntouched hconfig ?_
      simp only at h
      by_cases hoverview : t.config.requests .waveformOverview = true
      · rw [if_pos hoverview] at h
        exact acceptPcm_answer (hranges ▸ hordered) (hranges ▸ hforward) hpos h
      · rw [if_neg hoverview] at h
        simp only [Prod.mk.injEq] at h
        obtain ⟨rfl, rfl, rfl⟩ := h
        exact .discarded hpos (by simpa using hoverview)

/-! ## The contract -/

/-- The contract of a push: its status says whether it has accepted all, some or none of the frames;
the frames it has accepted, the first `n` of the block, are the ones the table gets; a refused block
leaves everything alone. What the table gets is left open for a session without the overview and for a
replay of frames that are not all accepted. -/
structure PushContract (block : PcmBlock) (s : Session) (status : Status) (n : ℕ) (s' : Session) :
    Prop where
  bounded : n ≤ block.frameCount
  all : status = .ok ↔ 0 < n ∧ n = block.frameCount
  some : status = .moreWork ↔ 0 < n ∧ n < block.frameCount
  none : Refuses status ↔ n = 0
  grows : s.config.requests .waveformOverview = true →
    (block.firstFrame ∈ s.accepted.frames →
      ∀ frame ∈ frameRun block.firstFrame n, frame ∈ s.accepted.frames) →
    s'.accepted.frames = s.accepted.frames ∪ frameRun block.firstFrame n
  untouched : n = 0 → Untouched s s'

/-- The status of a block of which a part was accepted. -/
private theorem accepted_status (hpos : 0 < n) (hle : n ≤ block.frameCount)
    (hstatus : status = if n = block.frameCount then Status.ok else .moreWork) :
    (status = .ok ↔ 0 < n ∧ n = block.frameCount) ∧
      (status = .moreWork ↔ 0 < n ∧ n < block.frameCount) ∧ (Refuses status ↔ n = 0) := by
  subst hstatus
  split_ifs with hall
  · simp [Refuses, hall, hall ▸ hpos, (hall ▸ hpos).ne']
  · simp [Refuses, hall, hpos, hpos.ne', lt_of_le_of_ne hle hall]

theorem PushAnswer.contract (h : PushAnswer block s status n s') :
    PushContract block s status n s' := by
  cases h with
  | refused hstatus h =>
      refine ⟨Nat.zero_le _, ?_, ?_, ⟨fun _ => rfl, fun _ => hstatus⟩, fun _ _ => ?_, fun _ => h⟩
      · obtain rfl | ⟨code, rfl⟩ := hstatus <;> simp
      · obtain rfl | ⟨code, rfl⟩ := hstatus <;> simp
      · rw [frameRun_zero, Set.union_empty, AcceptedRanges.frames, h.ranges]
        rfl
  | accepted hpos hle hframes =>
      obtain ⟨hall, hsome, hnone⟩ := accepted_status hpos hle rfl
      exact ⟨hle, hall, hsome, hnone, fun _ _ => hframes, fun hzero => absurd hzero hpos.ne'⟩
  | replayed hpos hle hfirst hranges =>
      obtain ⟨hall, hsome, hnone⟩ := accepted_status hpos hle rfl
      refine ⟨hle, hall, hsome, hnone, fun _ hinside => ?_, fun hzero => absurd hzero hpos.ne'⟩
      rw [Set.union_eq_self_of_subset_right (hinside hfirst), AcceptedRanges.frames, hranges]
      rfl
  | discarded hpos hoverview =>
      obtain ⟨hall, hsome, hnone⟩ := @accepted_status block .ok _ hpos le_rfl (if_pos rfl).symm
      exact ⟨le_rfl, hall, hsome, hnone,
        fun hrequested => absurd (hoverview.symm.trans hrequested) Bool.false_ne_true,
        fun hzero => absurd hzero hpos.ne'⟩

/-- In every session that a run reaches, every push keeps the contract, whatever memory it is
granted. -/
theorem pushPcm_contract (s : Session) (hcreated : Created s) (calls : List Call)
    (hseeds : ∀ call ∈ calls, SeedsOnly (· ≤ ·) call.op) (t : Session)
    (hrun : run calls s = some t) (call : Call) (block : PcmBlock) :
    PushContract block (t.withPlatform call) ((t.withPlatform call).pushPcm block).1
      ((t.withPlatform call).pushPcm block).2.1 ((t.withPlatform call).pushPcm block).2.2 := by
  have hordered : Interval.Ordered t.accepted.ranges := run_inOrder hcreated hrun
  have hkept : KeptByInsertion (· ≤ ·) Interval.Forward :=
    ⟨fun hle h => (Interval.insertMerge_points h hle).1, id⟩
  have hforward : Interval.Forward t.accepted.ranges :=
    hkept.run (fun _ hmem => absurd hmem List.not_mem_nil) hcreated hseeds hrun
  have hanswer := @pushPcm_answer block (t.withPlatform call) _ _ _ hordered hforward
    (Prod.mk.eta (p := (t.withPlatform call).pushPcm block)).symm
  exact hanswer.contract

/-- The contract after a seeding call, for a block of four new frames. -/
theorem pushPcm_contract_seeded : ∃ s t : Session, Created s ∧
    run [plainCall (.seedFromResult oneColumnResult)] s = some t ∧
    PushContract ⟨64, [0, 0, 0, 0]⟩
      (t.withPlatform (plainCall (.pushPcm ⟨64, [0, 0, 0, 0]⟩)))
      ((t.withPlatform (plainCall (.pushPcm ⟨64, [0, 0, 0, 0]⟩))).pushPcm ⟨64, [0, 0, 0, 0]⟩).1
      ((t.withPlatform (plainCall (.pushPcm ⟨64, [0, 0, 0, 0]⟩))).pushPcm ⟨64, [0, 0, 0, 0]⟩).2.1
      ((t.withPlatform (plainCall (.pushPcm ⟨64, [0, 0, 0, 0]⟩))).pushPcm
        ⟨64, [0, 0, 0, 0]⟩).2.2 := by
  obtain ⟨s, hs⟩ : ∃ s, create (smallConfig {.waveformOverview} none) seriesLibm false
      plainPlatform = (.ok, some s) := ⟨_, rfl⟩
  have hcreated : Created s := ⟨_, _, _, _, hs⟩
  have hruns : ((create (smallConfig {.waveformOverview} none) seriesLibm false
      plainPlatform).2.bind (run [plainCall (.seedFromResult oneColumnResult)])).isSome = true := by
    decide +kernel
  rw [hs] at hruns
  obtain ⟨t, hrun⟩ := Option.isSome_iff_exists.mp hruns
  refine ⟨s, t, hcreated, hrun, pushPcm_contract s hcreated _ ?_ t hrun _ _⟩
  intro call hcall result hop view hview span hspan
  obtain rfl := List.mem_singleton.mp hcall
  obtain rfl := Op.seedFromResult.inj hop
  obtain rfl := Option.some.inj hview
  obtain rfl := List.mem_singleton.mp hspan
  decide

/-- Without the overview a block is accepted and no frame recorded, and an empty block is refused
although none of its frames is missing. -/
theorem pushPcm_unrecorded : ∃ s : Session, Created s ∧
    (s.pushPcm ⟨0, [0, 0, 0, 0]⟩).1 = .ok ∧ (s.pushPcm ⟨0, [0, 0, 0, 0]⟩).2.1 = 4 ∧
    (s.pushPcm ⟨0, [0, 0, 0, 0]⟩).2.2.accepted.frames ≠
      s.accepted.frames ∪ frameRun 0 4 ∧
    (s.pushPcm ⟨0, []⟩).1 = .error .invalidArgument ∧
    (s.pushPcm ⟨0, []⟩).2.1 = (⟨0, []⟩ : PcmBlock).frameCount := by
  obtain ⟨s, hs⟩ : ∃ s, create (smallConfig ∅ none) seriesLibm false plainPlatform =
      (.ok, some s) := ⟨_, rfl⟩
  have hanswers : ((create (smallConfig ∅ none) seriesLibm false plainPlatform).2.map fun s =>
      ((s.pushPcm ⟨0, [0, 0, 0, 0]⟩).1, (s.pushPcm ⟨0, [0, 0, 0, 0]⟩).2.1,
        (s.pushPcm ⟨0, [0, 0, 0, 0]⟩).2.2.accepted.ranges, (s.pushPcm ⟨0, []⟩).1,
        (s.pushPcm ⟨0, []⟩).2.1)) = some (.ok, 4, [], .error .invalidArgument, 0) := by
    decide +kernel
  rw [hs] at hanswers
  simp only [Option.map_some, Option.some.injEq, Prod.mk.injEq] at hanswers
  obtain ⟨hstatus, hcount, hranges, hempty, hnone⟩ := hanswers
  refine ⟨s, ⟨_, _, _, _, hs⟩, hstatus, hcount, fun hframes => ?_, hempty, hnone⟩
  have hmem : 0 ∈ (s.pushPcm ⟨0, [0, 0, 0, 0]⟩).2.2.accepted.frames := by
    rw [hframes]
    exact .inr ⟨le_rfl, by norm_num⟩
  rw [AcceptedRanges.frames, hranges, Interval.support_nil] at hmem
  exact hmem

end Session

end LibApta
