import LibApta.Session.AcceptedSet

/-!
# Completeness of the pull loop

The pull adapter reads two answers as the end of the input: the selector finds no missing frame, and
the source reports the end at the frame it was asked for. The selector has looked at one target
range only. Both answers mean that the whole track is accepted when, at every question, a target
that is fully accepted leaves nothing else missing, and a first missing frame at or past the end of
the track is the end of the track with nothing missing before it.
-/

namespace LibApta

namespace Session

/-! ## Correct sources -/

/-- A source of `length` frames: below the end a read blocks or delivers a non-empty block of the
track that starts where it was asked, at or past the end it reports the end. -/
structure CorrectSource (length : ℕ) (source : PullSource) : Prop where
  below : ∀ frame frames, frame < length → source frame frames = .wouldBlock ∨
    ∃ block, source frame frames = .block block ∧ block.firstFrame = frame ∧
      0 < block.frameCount ∧ frame + block.frameCount ≤ length
  past : ∀ frame frames, length ≤ frame → source frame frames = .endOfInput

/-- Every frame of a track is accepted. -/
def AllAccepted (length : ℕ) (s : Session) : Prop := ∀ frame < length, frame ∈ s.accepted.frames

/-- The selector looks at one target. Nothing is missing outside it when the adapter is about to end
the input: with a known total, when no frame of the target is missing; with an unknown total, when
the first missing frame of the target is not below the end of the track, which it must then be. -/
structure AnswersHold (length : ℕ) (s : Session) : Prop where
  known : s.config.totalFrames.isSome = true →
    (∀ frame ∈ s.pullTarget.frames, frame ∈ s.accepted.frames) →
    ∀ frame < length, frame ∉ s.pullTarget.frames → frame ∈ s.accepted.frames
  unknown : s.config.totalFrames = none → ∀ first ∈ s.pullTarget.frames,
    first ∉ s.accepted.frames →
    (∀ frame ∈ s.pullTarget.frames, frame < first → frame ∈ s.accepted.frames) →
    length ≤ first →
    first = length ∧ ∀ frame < s.pullTarget.firstFrame, frame ∈ s.accepted.frames

/-- A call of a session that pulls a track of `length` frames from a correct source, with no seeding,
in a state in which the answers of the selector hold if it is asked. -/
def PullsTrack (length : ℕ) (op : Op) (s : Session) : Prop :=
  match op with
  | .setSource sourceTotal => ∀ total ∈ sourceTotal, total = length
  | .seedFromResult _ => False
  | .process source _ =>
      CorrectSource length source ∧ (s.pulls → s.PullAsks → s.AnswersHold length)
  | _ => True

/-! ## The invariant -/

/-- A pull session whose accepted frames are of the track, and all of it once the input has ended. -/
structure Pulling (length : ℕ) (s : Session) : Prop where
  mode : s.config.inputMode = .pull
  total : ∀ total ∈ s.config.totalFrames, total = length
  wellFormed : s.accepted.WellFormed
  within : ∀ frame ∈ s.accepted.frames, frame < length
  drained : s.state = .draining → s.endOfInput ≠ none
  complete : ∀ finalEnd ∈ s.endOfInput, finalEnd = length ∧ s.AllAccepted length

namespace Pulling

variable {length : ℕ} {s s' : Session}

theorem tabled (h : Pulling length s) : Tabled s.accepted.frames s := by
  refine ⟨h.wellFormed, rfl, fun total hmem => ?_⟩
  rw [h.total total hmem]
  rcases h.wellFormed.maximumEnd_attained with hzero | hlast
  · omega
  · have := h.within _ hlast
    omega

/-- The invariant depends on the input only. -/
theorem rest (h : Pulling length s) (h' : SameInput s s') : Pulling length s' := by
  have hframes : s'.accepted.frames = s.accepted.frames := by
    rw [AcceptedRanges.frames, h'.ranges]
    rfl
  refine ⟨?_, ?_, (h.tabled.rest h').wellFormed, ?_, ?_, ?_⟩
  · rw [h'.config]
    exact h.mode
  · rw [h'.config]
    exact h.total
  · rw [hframes]
    exact h.within
  · rw [h'.endOfInput]
    exact h.drained ∘ h'.draining
  · rw [h'.endOfInput, AllAccepted, hframes]
    exact h.complete

theorem activated (h : Pulling length s) (h' : Activated s s') : Pulling length s' := by
  cases h' with
  | already => exact h
  | first => exact h.rest ⟨rfl, by simp [published], rfl, rfl, rfl, rfl⟩

/-- The input may be ended when the whole track is accepted. -/
theorem ended (h : Pulling length s) (hall : s.AllAccepted length) (h' : Ended length s s') :
    Pulling length s' := by
  cases h' with
  | kept h' => exact h.rest h'.sameInput
  | unactivated _ h' => exact h.rest h'.sameInput
  | unended ht h' => exact (h.activated ht).rest h'.sameInput
  | @drained t _ _ _ _ ht h' =>
      have hactive := h.activated ht
      have hframes : t.accepted.frames = s.accepted.frames := by cases ht <;> rfl
      have hended : Pulling length { t.ended length with state := .draining } := by
        refine ⟨hactive.mode, fun total hmem => ?_, hactive.wellFormed, hactive.within,
          fun _ => by simp [Session.ended], fun finalEnd hmem => ?_⟩
        · exact (Option.some.inj (Option.mem_def.mp hmem)).symm
        · refine ⟨(Option.some.inj (Option.mem_def.mp hmem)).symm, fun frame hlt => ?_⟩
          show frame ∈ t.accepted.frames
          rw [hframes]
          exact hall frame hlt
      exact hended.rest ((published_sameInput ∅ _).trans h'.sameInput)

theorem settled (h : Pulling length s) (h' : Settled s s') : Pulling length s' := by
  cases h' with
  | unannounced h' => exact h.rest h'.sameInput
  | failed h' =>
      have hstate : Pulling length { s with state := .failed } := 
        h.rest ⟨rfl, by simp, rfl, rfl, rfl, rfl⟩
      exact hstate.rest ((published_sameInput ∅ _).trans h'.sameInput)

/-- A block of the track whose first frame is missing may be accepted. -/
theorem delivered (h : Pulling length s) {block : PcmBlock} {n : ℕ} (hpos : 0 < block.frameCount)
    (hend : block.firstFrame + block.frameCount ≤ length)
    (hfirst : block.firstFrame ∉ s.accepted.frames) (h' : Delivered block s n s') :
    Pulling length s' := by
  cases h' with
  | ignored => exact h
  | accepted _ haccepts =>
      have htable := h.tabled.acceptsPcm hpos (fun total hmem => (h.total total hmem) ▸ hend)
        (fun hmem => absurd hmem hfirst) haccepts
      have hsame : s'.config = s.config ∧ s'.endOfInput = s.endOfInput ∧
          s'.state = s.state ∧
          (n ≤ block.frameCount ∨ s'.accepted.ranges = s.accepted.ranges) := by
        cases haccepts with
        | base haccepts =>
            cases haccepts with
            | none h' => exact ⟨h'.config, h'.endOfInput, h'.state, .inl (Nat.zero_le _)⟩
            | some hn hle h' =>
                refine ⟨h'.config, h'.endOfInput, h'.state, .inl ?_⟩
                rcases AcceptedRanges.nonoverlappingPrefix_spec h.wellFormed.separated.ordered
                  block.firstFrame (lt_min hpos (by decide : 0 < maxPushFrames)) with
                  ⟨heq, -⟩ | ⟨-, -, hbound, -⟩
                · rw [heq] at hle
                  omega
                · exact hle.trans (hbound.trans (min_le_left _ _))
        | replay _ _ h' => exact ⟨h'.config, h'.endOfInput, h'.state, .inr h'.ranges⟩
      obtain ⟨hconfig, heoi, hstate, hbound⟩ := hsame
      refine ⟨hconfig ▸ h.mode, hconfig ▸ h.total, htable.wellFormed, fun frame hmem => ?_, ?_, ?_⟩
      · rcases hbound with hle | hranges
        · rw [htable.union] at hmem
          rcases hmem with hmem | ⟨-, hlt⟩
          · exact h.within frame hmem
          · omega
        · rw [AcceptedRanges.frames, hranges] at hmem
          exact h.within frame hmem
      · rw [heoi, hstate]
        exact h.drained
      · rw [heoi]
        intro finalEnd hmem
        obtain ⟨hlen, hall⟩ := h.complete finalEnd hmem
        refine ⟨hlen, fun frame hlt => ?_⟩
        rw [htable.union]
        exact .inl (hall frame hlt)

/-- The target of a known track ends with it. -/
theorem pullTarget_le {total : ℕ} (htotal : s.config.totalFrames = some total) :
    s.pullTarget.endFrame ≤ total := by
  unfold pullTarget overviewTarget
  simp only [htotal]
  exact min_le_right _ _

/-- Pulling from a correct source keeps the invariant. -/
theorem pulled (h : Pulling length s) {source : PullSource} (hsource : CorrectSource length source)
    (hanswers : s.PullAsks → s.AnswersHold length) (h' : Pulled source s s') :
    Pulling length s' := by
  cases h' with
  | settled ht h' => exact (h.rest ht.sameInput).settled h'
  | unactivated ht _ h' => exact (h.rest ht.sameInput).rest h'.sameInput
  | @exhausted t _ total hasks ht htotal hgap h' =>
      obtain rfl := h.total total htotal
      have hinside : ∀ frame ∈ s.pullTarget.frames, frame ∈ s.accepted.frames := fun frame hframe =>
        (Interval.firstGap_eq_none h.wellFormed.separated.ordered).mp hgap frame hframe.1 hframe.2
      have houtside := (hanswers hasks).known (by rw [htotal]; rfl) hinside
      refine (h.rest ht.sameInput).ended (fun frame hlt => ?_) h'
      rw [AcceptedRanges.frames, ht.ranges]
      by_cases hframe : frame ∈ s.pullTarget.frames
      · exact hinside frame hframe
      · exact houtside frame hlt hframe
  | @reported t _ first past frames hasks ht hgap hread htotal h' =>
      obtain ⟨hlo, hlt, hhi, hcovered, hmissing⟩ :=
        Interval.firstGap_some h.wellFormed.separated.ordered hgap
      have hpast : length ≤ first := by
        by_contra hbelow
        rcases hsource.below first frames (not_le.mp hbelow) with hblock | ⟨block, hblock, -⟩
        · exact absurd (hblock.symm.trans hread) (by simp)
        · exact absurd (hblock.symm.trans hread) (by simp)
      cases hknown : s.config.totalFrames with
      | some total =>
          have hfirst := htotal total hknown
          have hle := pullTarget_le hknown
          omega
      | none =>
          obtain ⟨rfl, hbefore⟩ := (hanswers hasks).unknown hknown first ⟨hlo, hlt.trans_le hhi⟩
            (hmissing first le_rfl hlt) (fun frame hframe hbelow => hcovered frame hframe.1 hbelow)
            hpast
          refine (h.rest ht.sameInput).ended (fun frame hlt => ?_) h'
          rw [AcceptedRanges.frames, ht.ranges]
          rcases lt_or_ge frame s.pullTarget.firstFrame with hbelow | hinside
          · exact hbefore frame hbelow
          · exact hcovered frame hinside hlt
  | @delivered t u v _ block n past frames ht hgap hread hvalid _ hactive h' hsettled =>
      obtain ⟨hpos, -, -⟩ := validatePcmBlock_ok hvalid
      obtain ⟨-, hlt, -, -, hmissing⟩ := Interval.firstGap_some h.wellFormed.separated.ordered hgap
      have hend : block.firstFrame + block.frameCount ≤ length := by
        rcases lt_or_ge block.firstFrame length with hbelow | hpast
        · rcases hsource.below block.firstFrame frames hbelow with hblock | ⟨other, hblock, -, -, hle⟩
          · exact absurd (hblock.symm.trans hread) (by simp)
          · obtain rfl : other = block := by simpa using hblock.symm.trans hread
            exact hle
        · exact absurd ((hsource.past _ frames hpast).symm.trans hread) (by simp)
      have hframes : u.accepted.frames = s.accepted.frames := by
        have : u.accepted = t.accepted := by cases hactive <;> rfl
        rw [this, AcceptedRanges.frames, ht.ranges]
        rfl
      refine (((h.rest ht.sameInput).activated hactive).delivered hpos hend ?_ h').settled hsettled
      rw [hframes]
      exact hmissing block.firstFrame le_rfl hlt

/-- Every call of a session that pulls the track keeps the invariant. -/
theorem outcome (h : Pulling length s) {op : Op} (hop : PullsTrack length op s)
    (houtcome : Outcome op s s') : Pulling length s' := by
  have hpush : ¬ s.config.inputMode = .push := by
    rw [h.mode]
    simp
  cases houtcome with
  | kept _ h' => exact h.rest h'.sameInput
  | announced _ mask h' h'' =>
      exact ((h.rest h'.sameInput).rest (published_sameInput mask _)).rest h''.sameInput
  | unannounced _ h' h'' => exact (h.rest h'.sameInput).rest h''.sameInput
  | @fixed total =>
      refine ⟨h.mode, fun known hmem => ?_, h.wellFormed, h.within, h.drained,
        h.complete⟩
      exact (Option.some.inj (Option.mem_def.mp hmem)) ▸ hop total rfl
  | seeded => exact absurd hop id
  | @pushed block _ _ h' =>
      generalize (s.pushPcm block).2.1 = n at h'
      cases h' with
      | kept h' => exact h.rest h'.sameInput
      | unactivated _ h' => exact h.rest h'.sameInput
      | delivered hmode => exact absurd hmode hpush
  | ended hmode => exact absurd hmode hpush
  | @processed source budget _ _ _ h' =>
      exact (h.rest (started_sameTrack budget s).sameInput).rest h'.sameInput
  | pulled hmode _ h' => exact h.pulled hop.1 (hop.2 hmode) h'
  | @pulledProcessed source budget _ t _ hmode _ h' h'' =>
      exact ((h.pulled hop.1 (hop.2 hmode) h').rest (started_sameTrack budget t).sameInput).rest
        h''.sameInput

end Pulling

/-- In every run of a pull session over a track whose selector answers hold, a session that drains has
recorded the end of the track, and every frame of it is accepted. -/
theorem pull_complete (length : ℕ) (s : Session) (hcreated : Created s)
    (hmode : s.config.inputMode = .pull) (htotal : ∀ total ∈ s.config.totalFrames, total = length)
    (calls : List Call)
    (hguard : Guarded (fun call s => PullsTrack length call.op (s.withPlatform call)) calls s)
    (s' : Session) (hrun : run calls s = some s') :
    (s'.state = .draining → s'.endOfInput ≠ none) ∧
      ∀ finalEnd ∈ s'.endOfInput,
        finalEnd = length ∧ ∀ frame < length, frame ∈ s'.accepted.frames := by
  have hstart : Pulling length s := by
    have htable := tabled_of_created hcreated
    refine ⟨hmode, htotal, htable.wellFormed, fun frame hmem => ?_, fun hdrains => ?_,
      fun finalEnd hmem => ?_⟩
    · rw [htable.union] at hmem
      exact absurd hmem (Set.notMem_empty frame)
    · obtain ⟨config, libm, usesWorkspace, env, -, rfl⟩ := created_eq hcreated
      exact absurd hdrains (by simp [published, new])
    · obtain ⟨config, libm, usesWorkspace, env, -, rfl⟩ := created_eq hcreated
      exact absurd hmem (by simp [published, new])
  have hend : Pulling length s' := Runs.invariant (fun call s s' h hop hstep =>
    (h.rest (withPlatform_sameTrack call s).sameInput).outcome hop (step_outcome hstep))
    hstart hguard hrun
  exact ⟨hend.drained, hend.complete⟩

/-! ## Two small tracks -/

/-- A pull session over a track of `total` frames. -/
def smallPullConfig (total : Option ℕ) : Config :=
  { smallConfig {.waveformOverview} total with inputMode := .pull }

/-- A source of `length` silent frames that delivers one frame a read. -/
def silentSource (length : ℕ) : PullSource := fun frame _ =>
  if frame < length then .block ⟨frame, [0]⟩ else .endOfInput

theorem silentSource_correct (length : ℕ) : CorrectSource length (silentSource length) where
  below frame _ h := .inr ⟨⟨frame, [0]⟩, if_pos h, rfl, Nat.one_pos, h⟩
  past _ _ h := if_neg (Nat.not_lt.mpr h)

/-- A process call without limits. -/
def pullCall (source : PullSource) : Call := plainCall (.process source ⟨0, 0, 0⟩)

/-- A target of unknown length that starts at the end of what has been pulled holds its answers. -/
private theorem answersHold_from_end {length pulled : ℕ} {s : Session}
    (hunknown : s.config.totalFrames = none) (hstart : s.pullTarget.firstFrame = pulled)
    (hframes : ∀ frame, frame ∈ s.accepted.frames ↔ frame < pulled) (hle : pulled ≤ length) :
    s.AnswersHold length := by
  refine ⟨fun hknown => ?_, fun _ first hfirst hmissing hbefore hpast => ?_⟩
  · rw [hunknown] at hknown
    exact absurd hknown (by simp)
  · have hlow : pulled ≤ first := hstart ▸ hfirst.1
    have heq : first = pulled := by
      by_contra hne
      have hmem := hbefore pulled ⟨hstart.le, by have := hfirst.2; omega⟩ (by omega)
      exact absurd ((hframes pulled).mp hmem) (lt_irrefl pulled)
    exact ⟨by omega, fun frame hlt => (hframes frame).mpr (hstart ▸ hlt)⟩

theorem pull_complete_silent : ∃ s s' : Session, Created s ∧
    run [plainCall (.setSource none), pullCall (silentSource 1), pullCall (silentSource 1)] s =
      some s' ∧
    s'.endOfInput = some 1 ∧
    (s'.state = .draining → s'.endOfInput ≠ none) ∧
    ∀ finalEnd ∈ s'.endOfInput, finalEnd = 1 ∧ ∀ frame < 1, frame ∈ s'.accepted.frames := by
  obtain ⟨s, hs⟩ : ∃ s, create (smallPullConfig none) seriesLibm false plainPlatform =
      (.ok, some s) := ⟨_, rfl⟩
  have hcreated : Created s := ⟨_, _, _, _, hs⟩
  have hconfig : (create (smallPullConfig none) seriesLibm false plainPlatform).2.map
      (fun s => (s.config.inputMode, s.config.totalFrames)) = some (.pull, none) := by decide +kernel
  have hattached : ((create (smallPullConfig none) seriesLibm false plainPlatform).2.bind
      (step (plainCall (.setSource none)))).map
        (fun s => (s.config.totalFrames, s.pullTarget.firstFrame, s.accepted.ranges)) =
      some (none, 0, []) := by decide +kernel
  have hpulled : ((create (smallPullConfig none) seriesLibm false plainPlatform).2.bind
      (run [plainCall (.setSource none), pullCall (silentSource 1)])).map
        (fun s => (s.config.totalFrames, s.pullTarget.firstFrame, s.accepted.ranges)) =
      some (none, 1, [⟨0, 1⟩]) := by decide +kernel
  have hended : ((create (smallPullConfig none) seriesLibm false plainPlatform).2.bind
      (run [plainCall (.setSource none), pullCall (silentSource 1),
        pullCall (silentSource 1)])).map (fun s => s.endOfInput) = some (some 1) := by decide +kernel
  rw [hs] at hconfig hattached hpulled hended
  obtain ⟨hmode, htotal⟩ := Prod.mk.inj (Option.some.inj hconfig)
  obtain ⟨s', hrun, heoi⟩ := Option.map_eq_some_iff.mp hended
  have hcomplete := pull_complete 1 s hcreated hmode
    (fun total hmem => absurd (htotal.symm.trans hmem) (by simp))
    [plainCall (.setSource none), pullCall (silentSource 1), pullCall (silentSource 1)]
    ⟨fun total hmem => absurd hmem (by simp), fun t ht =>
      ⟨⟨silentSource_correct 1, fun _ _ => ?_⟩, fun u hu =>
        ⟨⟨silentSource_correct 1, fun _ _ => ?_⟩, fun _ _ => trivial⟩⟩⟩ s' hrun
  · exact ⟨s, s', hcreated, hrun, heoi, hcomplete⟩
  · obtain ⟨t', ht', hfacts⟩ := Option.map_eq_some_iff.mp hattached
    obtain rfl : t' = t := Option.some.inj (ht'.symm.trans ht)
    simp only [Prod.mk.injEq] at hfacts
    obtain ⟨hunknown, hstart, hranges⟩ := hfacts
    refine answersHold_from_end hunknown hstart (fun frame => ?_) (Nat.zero_le 1)
    show frame ∈ Interval.support t'.accepted.ranges ↔ frame < 0
    rw [hranges]
    simp
  · obtain ⟨u', hu', hfacts⟩ := Option.map_eq_some_iff.mp hpulled
    have hu'' : run [plainCall (.setSource none), pullCall (silentSource 1)] s = some u := by
      rw [run, Runs.run_cons, ht]
      exact (Runs.run_cons _ _ _ _).trans (by rw [hu]; rfl)
    obtain rfl : u' = u := Option.some.inj (hu'.symm.trans hu'')
    simp only [Prod.mk.injEq] at hfacts
    obtain ⟨hunknown, hstart, hranges⟩ := hfacts
    refine answersHold_from_end hunknown hstart (fun frame => ?_) le_rfl
    show frame ∈ Interval.support u'.accepted.ranges ↔ frame < 1
    rw [hranges, Interval.mem_support_cons]
    simp

/-- A player at the start of the track that looks one frame ahead. -/
def oneFrameFocus : Focus := ⟨0, 0, 1, {.waveformOverview}, 0⟩

/-- With a focus that is fully accepted, a known track of two frames ends with the second one
missing. -/
theorem pull_ends_at_accepted_focus : ∃ s s' : Session, Created s ∧
    CorrectSource 2 (silentSource 2) ∧
    run [plainCall (.setSource (some 2)), plainCall (.setFocus oneFrameFocus),
      pullCall (silentSource 2), pullCall (silentSource 2)] s = some s' ∧
    s'.endOfInput = some 2 ∧ 1 ∉ s'.accepted.frames := by
  obtain ⟨s, hs⟩ : ∃ s, create (smallPullConfig none) seriesLibm false plainPlatform =
      (.ok, some s) := ⟨_, rfl⟩
  have hended : ((create (smallPullConfig none) seriesLibm false plainPlatform).2.bind
      (run [plainCall (.setSource (some 2)), plainCall (.setFocus oneFrameFocus),
        pullCall (silentSource 2), pullCall (silentSource 2)])).map
        (fun s => (s.endOfInput, s.accepted.ranges)) = some (some 2, [⟨0, 1⟩]) := by decide +kernel
  rw [hs] at hended
  obtain ⟨s', hrun, hfacts⟩ := Option.map_eq_some_iff.mp hended
  obtain ⟨heoi, hranges⟩ := Prod.mk.inj hfacts
  refine ⟨s, s', ⟨_, _, _, _, hs⟩, silentSource_correct 2, hrun, heoi, fun hmem => ?_⟩
  have hmem' : 1 ∈ Interval.support s'.accepted.ranges := hmem
  rw [hranges] at hmem'
  exact absurd hmem' (by simp [Interval.support])

end Session

end LibApta
