import LibApta.Session.ReplayAgreement

/-!
# Soundness of the demand

A demand is a non-empty range of the track, at most one push long. Its frames are missing, or of
empty detail columns of the range that the detail layer serves. Asking changes nothing but counters.
What is asked for can be pushed where replays are checked against the range that is served and where
the empty columns that start with a missing frame hold no accepted one.
-/

namespace LibApta

namespace Session

/-! ## The range -/

/-- A frame of an empty detail column of a range. -/
structure NeedsColumn (s : Session) (range : FrameRange) (frame : ℕ) : Prop where
  empty : s.detail.columnIsEmpty (frame / detailFramesPerColumn) = true
  starts : range.firstFrame < s.cutEnd range.endFrame
  first_le : range.firstFrame / detailFramesPerColumn ≤ frame / detailFramesPerColumn
  lt_end : frame / detailFramesPerColumn * detailFramesPerColumn < s.cutEnd range.endFrame

/-- A demand that a host can be asked for. -/
structure SoundRequest (s : Session) (request : PcmRequest) : Prop where
  nonempty : request.range.firstFrame < request.range.endFrame
  short : request.range.endFrame ≤ request.range.firstFrame + maxPushFrames
  inTrack : ∀ total ∈ s.config.totalFrames, request.range.endFrame ≤ total
  needed : request.featureMask = {.waveformOverview} ∧
      (∀ frame ∈ request.range.frames, frame ∉ s.accepted.frames) ∨
    request.featureMask = {.waveformDetail} ∧ ∃ range priority token,
      Serves ∅ .waveformDetail s range priority token ∧
        ∀ frame ∈ request.range.frames, NeedsColumn s range frame

/-- The frames of the demanded columns are needed. -/
theorem EmptyRun.needsColumn {s : Session} {range piece : FrameRange} {column count : ℕ}
    (h : EmptyRun s range column count) (hpiece : DetailPiece s column count piece) :
    ∀ frame ∈ piece.frames, NeedsColumn s range frame := by
  intro frame hframe
  obtain ⟨hfirst, hend⟩ := hframe
  rw [hpiece.first] at hfirst
  have hlow : column ≤ frame / detailFramesPerColumn :=
    (Nat.le_div_iff_mul_le (by norm_num)).mpr hfirst
  have hhigh : frame / detailFramesPerColumn < column + count :=
    (Nat.div_lt_iff_lt_mul (by norm_num)).mpr (hend.trans_le hpiece.le_columns)
  exact ⟨h.empty _ hlow hhigh, h.starts, h.first_le.trans hlow, h.inside _ hhigh⟩

/-- The first missing piece of a range is inside the track. -/
theorem FirstPiece.sound {s : Session} {range : FrameRange} {first past priority token : ℕ}
    (h : FirstPiece s range first past) :
    SoundRequest s ⟨⟨first, past⟩, {.waveformOverview}, priority, token⟩ where
  nonempty := h.nonempty
  short := h.short
  inTrack total htotal := h.past_le.trans (s.cutEnd_le_total range.endFrame total htotal)
  needed := .inl ⟨rfl, fun frame hframe => h.missing frame hframe.1 hframe.2⟩

theorem nextPcmRequest_soundRequest {s : Session} {request : PcmRequest}
    (hbytes : BytePriorities s.requests) (hids : UniqueIds s.requests)
    (hordered : Interval.Ordered s.accepted.ranges) (h : s.nextPcmRequest.1 = .ok request) :
    SoundRequest s request := by
  rcases nextPcmRequest_cases hbytes hids hordered with ⟨demand, hdemand, heq⟩ |
    ⟨-, ⟨demand, -, hdemand, heq⟩ | ⟨-, heq⟩⟩
  · rw [heq] at h
    obtain rfl := Except.ok.inj h
    rcases detailDemand_cases hbytes hids with ⟨hnone, -⟩ |
      ⟨range, priority, token, column, count, -, hserves, hrun, -, hok⟩
    · rw [hnone] at hdemand
      cases hdemand
    rw [hok] at hdemand
    obtain rfl := Except.ok.inj hdemand
    have hpiece := hrun.piece
    exact ⟨hpiece.nonempty, hpiece.le_push, hpiece.le_total,
      .inr ⟨rfl, range, priority, token, hserves, hrun.needsColumn hpiece⟩⟩
  · rw [heq] at h
    obtain rfl := Except.ok.inj h
    obtain ⟨range, priority, token, -, ⟨hnone, -⟩ | ⟨first, past, hpiece, hok⟩⟩ :=
      overviewDemand_cases tempoFeatures hbytes hordered
    · rw [hnone] at hdemand
      cases hdemand
    rw [hok] at hdemand
    obtain rfl := Except.ok.inj hdemand
    exact hpiece.sound
  · rw [heq] at h
    cases h

/-! ## The session -/

/-- The request differs in its counter at most, and only when it is active. -/
def SkipsOnly (before after : Request) : Prop :=
  after = { before with skipCount := after.skipCount } ∧ (before.isActive = false → after = before)

theorem noteChoice_skipsOnly (token : ℕ) (requests : List Request) :
    List.Forall₂ SkipsOnly requests (noteChoice token requests) := by
  unfold noteChoice
  rw [List.forall₂_map_right_iff, List.forall₂_same]
  intro request _
  refine ⟨?_, fun hidle => ?_⟩
  · split_ifs <;> rfl
  · rw [if_neg (by rw [hidle]; exact Bool.false_ne_true)]

/-- Asking changes nothing but the counters of active requests. -/
theorem nextPcmRequest_skipsOnly (s : Session) :
    s.nextPcmRequest.2 = { s with requests := s.nextPcmRequest.2.requests } ∧
      List.Forall₂ SkipsOnly s.requests s.nextPcmRequest.2.requests := by
  rcases nextPcmRequest_noted s with hsame | ⟨token, hnoted⟩
  · rw [hsame]
    exact ⟨rfl, List.forall₂_same.mpr fun request _ => ⟨rfl, fun _ => rfl⟩⟩
  · rw [hnoted]
    exact ⟨rfl, noteChoice_skipsOnly token s.requests⟩

/-! ## The push -/

/-- The first empty columns of a range that is served can be pushed: a replay of them is checked
against a range that starts with the same ones, and when their first frame is missing no frame of
them is accepted. -/
structure ServesPushable (s : Session) : Prop where
  replays : ∀ range priority token column count, Serves ∅ .waveformDetail s range priority token →
    EmptyRun s range column count → column * detailFramesPerColumn ∈ s.accepted.frames →
    ∀ range', Admits s range' →
      EmptyRun s range' column count ∧ s.cutEnd range'.endFrame ≤ Detail.maximumSafeEnd
  fresh : ∀ range priority token column count, Serves ∅ .waveformDetail s range priority token →
    EmptyRun s range column count → column * detailFramesPerColumn ∉ s.accepted.frames →
    ∀ frame, column * detailFramesPerColumn ≤ frame →
      frame < s.cutEnd ((column + count) * detailFramesPerColumn) → frame ∉ s.accepted.frames

/-- A frame of a range can be pushed: any block of the range that starts with it is accepted, or a
block of the whole range is a replay of it. -/
def Pushable (t : Session) (range : FrameRange) (frame : ℕ) : Prop :=
  (∀ block, (t.config.requests .waveformDetail && beyondDetail block) = false →
      block.firstFrame = frame → 0 < block.frameCount →
      block.firstFrame + block.frameCount ≤ min range.endFrame uint64Max →
      ∃ status n after, t.pushPcm block = (status, n, after) ∧ status.failed = false ∧ 0 < n ∧
        after.queue = t.queue ++ [⟨frame, block.samples.take n, 0⟩]) ∨
    ∀ block, beyondDetail block = false → block.firstFrame = range.firstFrame →
      block.firstFrame + block.frameCount = range.endFrame →
      ∃ after, t.pushPcm block = (.ok, block.frameCount, after) ∧ after.queue = t.queue

theorem feedAccepted_queue (block : PcmBlock) (n : ℕ) (s : Session) :
    (s.feedAccepted block n).queue = s.queue := by
  unfold feedAccepted
  simp only
  split_ifs <;> rfl

/-- The session that is asked, as the push sees it. -/
theorem afterDemand_kept {s t : Session} {push : Call}
    (ht : t = s.nextPcmRequest.2.withPlatform push) :
    t.queue = s.queue ∧ t.config = s.config := by
  subst ht
  rcases nextPcmRequest_noted s with hnext | ⟨token, hnext⟩ <;>
  · rw [hnext]
    exact ⟨rfl, rfl⟩

/-- A missing frame of the track can be pushed. -/
theorem pushable_of_missing {s t : Session} {push : Call} {range : FrameRange} {frame : ℕ}
    (ht : t = s.nextPcmRequest.2.withPlatform push) (htakes : TakesPush t)
    (hordered : Interval.Ordered s.accepted.ranges) (hroom : s.accepted.HasRoom)
    (htotal : ∀ total ∈ s.config.totalFrames, range.endFrame ≤ total)
    (hfresh : frame ∉ s.accepted.frames) : Pushable t range frame := by
  refine .inl fun block hindexed hfirst hpos hend => ?_
  obtain ⟨hqueue, hconfig⟩ := afterDemand_kept ht
  obtain ⟨u, hgranting, ⟨haccepted, hqueue', -, hconfig', -, -⟩, -, -, hpush⟩ :=
    pushPcm_afterDemand ht htakes
  obtain ⟨hrange, hfits⟩ := le_min_iff.mp hend
  have hvalid := validatePcmBlock_inside hpos hfits htakes.opened
    (by rw [hconfig]; exact fun total hknown => hrange.trans (htotal total hknown))
  rw [← haccepted] at hordered hroom hfresh
  rw [hconfig, ← hconfig'] at hindexed
  subst hfirst
  obtain ⟨s4, s6, env, capacity, hdone⟩ :=
    acceptPcm_granted hordered hpos hfresh hgranting hroom hindexed
  rw [hpush block hvalid]
  refine ⟨_, _, _, hdone, ?_, (acceptedCount_pos hordered hpos hfresh).1, ?_⟩
  · split_ifs <;> rfl
  · rw [feedAccepted_queue, hqueue, ← hqueue']

/-- A frame of demanded columns whose first frame is accepted can be pushed as a replay. -/
theorem pushable_of_replay {s t : Session} {push : Call} {range piece : FrameRange}
    {priority token column count frame : ℕ} (ht : t = s.nextPcmRequest.2.withPlatform push)
    (htakes : TakesPush t) (hordered : Interval.Ordered s.accepted.ranges)
    (hends : ∀ range, Admits s range → range.endFrame ≤ uint64Max) (hserved : ServesPushable s)
    (hrequested : s.config.requests .waveformDetail = true)
    (hserves : Serves ∅ .waveformDetail s range priority token)
    (hrun : EmptyRun s range column count) (hpiece : DetailPiece s column count piece)
    (htaken : column * detailFramesPerColumn ∈ s.accepted.frames) : Pushable t piece frame := by
  refine .inr fun block hindexed hfirst hend => ?_
  obtain ⟨replay, hreplay, hfirst', hend'⟩ := replayDemand_covers hends hserves.admits
    (hserved.replays range priority token column count hserves hrun htaken)
  rw [← hpiece.first] at hfirst' htaken
  rw [← hpiece.past] at hend'
  obtain ⟨after, hpush, -, hqueue, -⟩ := pushPcm_replays ht htakes hordered hrequested hpiece hreplay
    hfirst' hend' hindexed hfirst hend (hfirst ▸ htaken)
  exact ⟨after, hpush, hqueue.trans (afterDemand_kept ht).1.symm⟩

/-- In every state that a run reaches a demand is sound and changes counters of active requests only,
and where the ranges that are served can be pushed, so can each of its frames. -/
theorem nextPcmRequest_sound (s : Session) (hcreated : Created s) (calls : List Call)
    (htyped : TypedRun calls) (s' : Session) (hrun : run calls s = some s') :
    (∀ request, s'.nextPcmRequest.1 = .ok request → SoundRequest s' request) ∧
      (s'.nextPcmRequest.2 = { s' with requests := s'.nextPcmRequest.2.requests } ∧
        List.Forall₂ SkipsOnly s'.requests s'.nextPcmRequest.2.requests) ∧
      (ServesPushable s' → s'.accepted.HasRoom → ∀ request,
        s'.nextPcmRequest.1 = .ok request → ∀ push t, t = s'.nextPcmRequest.2.withPlatform push →
          TakesPush t → ∀ frame ∈ request.range.frames, Pushable t request.range frame) := by
  have htable := run_runTable hcreated htyped hrun
  have hordered : Interval.Ordered s'.accepted.ranges := run_inOrder hcreated hrun
  have hends := admits_ends htable.ends (run_playhead hcreated htyped hrun)
  refine ⟨fun request hnext => nextPcmRequest_soundRequest htable.bytes htable.ids hordered hnext,
    nextPcmRequest_skipsOnly s', fun hserved hroom request hnext push t ht htakes frame hframe => ?_⟩
  have hsound := nextPcmRequest_soundRequest htable.bytes htable.ids hordered hnext
  rcases nextPcmRequest_cases htable.bytes htable.ids hordered with ⟨demand, hdemand, heq⟩ |
    ⟨-, ⟨demand, -, hdemand, heq⟩ | ⟨-, heq⟩⟩
  · rw [heq] at hnext
    obtain rfl := Except.ok.inj hnext
    rcases detailDemand_cases htable.bytes htable.ids with ⟨hnone, -⟩ |
      ⟨range, priority, token, column, count, hrequested, hserves, hempty, -, hok⟩
    · rw [hnone] at hdemand
      cases hdemand
    rw [hok] at hdemand
    obtain rfl := Except.ok.inj hdemand
    by_cases htaken : column * detailFramesPerColumn ∈ s'.accepted.frames
    · exact pushable_of_replay ht htakes hordered hends hserved hrequested hserves hempty
        hempty.piece htaken
    · exact pushable_of_missing ht htakes hordered hroom hsound.inTrack
        (hserved.fresh range priority token column count hserves hempty htaken frame hframe.1
          hframe.2)
  · rw [heq] at hnext
    obtain rfl := Except.ok.inj hnext
    refine pushable_of_missing ht htakes hordered hroom hsound.inTrack ?_
    rcases hsound.needed with ⟨-, hmissing⟩ | ⟨hmask, -⟩
    · exact hmissing frame hframe
    · rw [overviewDemand_mask hdemand] at hmask
      cases Finset.singleton_injective hmask
  · rw [heq] at hnext
    cases hnext

/-! ## A detail column -/

theorem nextPcmRequest_sound_column : ∃ s s' : Session, Created s ∧
    run [plainCall (.requestRegion (secondColumn 0))] s = some s' ∧
    s'.nextPcmRequest.1.toOption = some ⟨⟨256, 512⟩, {.waveformDetail}, 0, 1⟩ ∧
    ∀ frame ∈ (FrameRange.mk 256 512).frames,
      Pushable (s'.nextPcmRequest.2.withPlatform (plainCall (.pushPcm secondColumnBlock)))
        ⟨256, 512⟩ frame := by
  obtain ⟨s, hs⟩ : ∃ s, create detailConfig seriesLibm false plainPlatform = (.ok, some s) :=
    ⟨_, rfl⟩
  have hafter : ((create detailConfig seriesLibm false plainPlatform).2.bind
      (run [plainCall (.requestRegion (secondColumn 0))])).map
        (fun s => (s.nextPcmRequest.2.generation, s.accepted.ranges,
          s.nextPcmRequest.1.toOption)) =
      some (1, [], some ⟨⟨256, 512⟩, {.waveformDetail}, 0, 1⟩) := by decide +kernel
  have hopen : ((create detailConfig seriesLibm false plainPlatform).2.bind
      (run [plainCall (.requestRegion (secondColumn 0))])).map
        (fun s => (s.nextPcmRequest.2.config.inputMode,
          s.nextPcmRequest.2.config.requests .waveformOverview,
          s.nextPcmRequest.2.config.boundedResultSlots, s.nextPcmRequest.2.state,
          s.nextPcmRequest.2.endOfInput)) =
      some (.push, true, false, .created, none) := by decide +kernel
  rw [hs] at hafter hopen
  obtain ⟨s', hrun, hfacts⟩ := Option.map_eq_some_iff.mp hafter
  obtain ⟨s'', hrun', hfacts'⟩ := Option.map_eq_some_iff.mp hopen
  obtain rfl := Option.some.inj (hrun'.symm.trans hrun)
  simp only [Prod.mk.injEq] at hfacts hfacts'
  obtain ⟨hgeneration, hranges, hdemand⟩ := hfacts
  obtain ⟨hmode, hoverview, hbounded, hstate, hopened⟩ := hfacts'
  obtain ⟨request, hnext, rfl⟩ : ∃ request, s''.nextPcmRequest.1 = .ok request ∧
      request = ⟨⟨256, 512⟩, {.waveformDetail}, 0, 1⟩ := by
    cases hcase : s''.nextPcmRequest.1 with
    | error status =>
        rw [hcase] at hdemand
        cases hdemand
    | ok request =>
        rw [hcase] at hdemand
        exact ⟨request, rfl, Option.some.inj hdemand⟩
  have hnothing : ∀ frame, frame ∉ s''.accepted.frames := by
    intro frame htaken
    change frame ∈ Interval.support s''.accepted.ranges at htaken
    rw [hranges] at htaken
    simp [Interval.support] at htaken
  have hserved : ServesPushable s'' :=
    ⟨fun _ _ _ _ _ _ _ htaken => absurd htaken (hnothing _), fun _ _ _ _ _ _ _ _ _ _ _ => hnothing _⟩
  have hroom : s''.accepted.HasRoom := by
    rw [AcceptedRanges.HasRoom, hranges]
    norm_num
  have htakes : TakesPush (s''.nextPcmRequest.2.withPlatform
      (plainCall (.pushPcm secondColumnBlock))) := by
    refine ⟨hmode, hoverview, .inl hstate, hopened, by simp [withPlatform, plainCall,
      Environment.Granting], fun _ => ⟨?_, ?_⟩⟩
    · show s''.nextPcmRequest.2.generation ≠ uint64Max
      rw [hgeneration]
      norm_num
    · show (s''.nextPcmRequest.2.config.boundedResultSlots && _) = false
      rw [hbounded, Bool.false_and]
  have htyped : TypedRun [plainCall (.requestRegion (secondColumn 0))] := by
    simp [TypedRun, plainCall, Op.Typed, secondColumn, uint64Max]
  exact ⟨s, s'', ⟨_, _, _, _, hs⟩, hrun, hdemand,
    (nextPcmRequest_sound s ⟨_, _, _, _, hs⟩ _ htyped s'' hrun).2.2 hserved hroom _ hnext _ _ rfl
      htakes⟩

/-- A result with one overview column, in the middle of the second detail column. -/
def middleColumnResult : Result :=
  { oneColumnResult with
    overview := some ⟨64, confidenceUnknown, .part,
      [⟨5, ⟨320, 384⟩, [⟨0, 0, 0, 0, 0, 0, false, false⟩]⟩]⟩ }

/-- A demand for an empty detail column contains frames that were seeded: they are accepted, and no
replay of the column is taken since it starts with missing ones. -/
theorem seeded_frame_not_pushable : ∃ s s' : Session, Created s ∧
    run [plainCall (.seedFromResult middleColumnResult),
      plainCall (.requestRegion (secondColumn 0))] s = some s' ∧
    s'.nextPcmRequest.1.toOption = some ⟨⟨256, 512⟩, {.waveformDetail}, 0, 1⟩ ∧
    ¬Pushable s'.nextPcmRequest.2 ⟨256, 512⟩ 320 := by
  obtain ⟨s, hs⟩ : ∃ s, create detailConfig seriesLibm false plainPlatform = (.ok, some s) :=
    ⟨_, rfl⟩
  have hpushed : ((create detailConfig seriesLibm false plainPlatform).2.bind
      (run [plainCall (.seedFromResult middleColumnResult),
        plainCall (.requestRegion (secondColumn 0))])).map
        (fun s => (s.nextPcmRequest.1.toOption,
          (s.nextPcmRequest.2.pushPcm ⟨320, List.replicate 64 0⟩).1,
          (s.nextPcmRequest.2.pushPcm secondColumnBlock).1)) =
      some (some ⟨⟨256, 512⟩, {.waveformDetail}, 0, 1⟩, .error .conflict, .moreWork) := by
    decide +kernel
  rw [hs] at hpushed
  obtain ⟨s', hrun, hfacts⟩ := Option.map_eq_some_iff.mp hpushed
  simp only [Prod.mk.injEq] at hfacts
  obtain ⟨hdemand, hmiddle, hwhole⟩ := hfacts
  refine ⟨s, s', ⟨_, _, _, _, hs⟩, hrun, hdemand, ?_⟩
  rintro (hfresh | hreplay)
  · obtain ⟨status, n, after, hpush, hnot, -⟩ := hfresh ⟨320, List.replicate 64 0⟩
      (by rw [show beyondDetail ⟨320, List.replicate 64 0⟩ = false from rfl, Bool.and_false]) rfl
      (by decide) (by decide)
    rw [hpush] at hmiddle
    rw [show status = .error .conflict from hmiddle] at hnot
    cases hnot
  · have hcount : secondColumnBlock.frameCount = 256 := List.length_replicate
    obtain ⟨after, hpush, -⟩ := hreplay secondColumnBlock
      (by rw [beyondDetail, hcount]; norm_num [secondColumnBlock]) rfl (by rw [hcount]; rfl)
    rw [hpush] at hwhole
    cases hwhole

end Session

end LibApta
