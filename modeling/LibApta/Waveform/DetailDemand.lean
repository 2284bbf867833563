import LibApta.Waveform.Detail

/-!
# The demand of the detail layer

The demand is the first run of empty columns of a target, cut to the longest push and to the known
length. A replay is admitted when it starts that run and ends within it.
-/

namespace LibApta

namespace Detail

/-- A frame cut to the known length of the track. -/
def cutTo (totalFrames : Option ℕ) (frame : ℕ) : ℕ :=
  match totalFrames with
  | some total => min frame total
  | none => frame

theorem cutTo_le (totalFrames : Option ℕ) (frame : ℕ) : cutTo totalFrames frame ≤ frame := by
  cases totalFrames with
  | none => exact le_rfl
  | some total => exact Nat.min_le_left _ _

/-- The column after the last of a target. The sum that rounds it up has 64 bits. -/
def stopColumn (endFrame : ℕ) : ℕ :=
  (endFrame + detailFramesPerColumn - 1) % (uint64Max + 1) / detailFramesPerColumn

/-- A column before the stop column starts before the end of the target. -/
theorem lt_of_lt_stopColumn {endFrame column : ℕ} (h : column < stopColumn endFrame) :
    column * detailFramesPerColumn < endFrame := by
  have hmod : (endFrame + detailFramesPerColumn - 1) % (uint64Max + 1) ≤
      endFrame + detailFramesPerColumn - 1 := Nat.mod_le _ _
  have hdiv := (Nat.lt_div_iff_mul_lt (by norm_num)).mp h
  simp only [detailFramesPerColumn] at *
  omega

/-- Below the safe end the sum does not wrap. -/
theorem lt_stopColumn_iff {endFrame column : ℕ} (hsafe : endFrame ≤ maximumSafeEnd) :
    column < stopColumn endFrame ↔ column * detailFramesPerColumn < endFrame := by
  refine ⟨lt_of_lt_stopColumn, fun h => ?_⟩
  unfold stopColumn
  simp only [maximumSafeEnd, detailFramesPerColumn, uint64Max] at *
  omega

/-- An empty column belongs to a tile the cache can index. -/
theorem columnIsEmpty_bound {detail : Detail} {column : ℕ}
    (h : detail.columnIsEmpty column = true) : column / detailColumnsPerTile ≤ uint32Max := by
  unfold columnIsEmpty at h
  split_ifs at h with hbeyond
  exact not_lt.mp hbeyond

/-- The columns that pass a test at the start of a run: all pass, and the run or the test ends there. -/
theorem takeWhile_range' (p : ℕ → Bool) (first n : ℕ) :
    ((List.range' first n).takeWhile p).length ≤ n ∧
      (∀ i, first ≤ i → i < first + ((List.range' first n).takeWhile p).length → p i = true) ∧
      (((List.range' first n).takeWhile p).length = n ∨
        p (first + ((List.range' first n).takeWhile p).length) = false) := by
  induction n generalizing first with
  | zero => exact ⟨le_rfl, fun i hfirst hlt => absurd hlt (not_lt.mpr hfirst), .inl rfl⟩
  | succ n ih =>
      rw [List.range'_succ]
      cases hp : p first with
      | false =>
          rw [List.takeWhile_cons_of_neg (by simp [hp])]
          exact ⟨Nat.zero_le _, fun i hfirst hlt => absurd hlt (not_lt.mpr hfirst), .inr hp⟩
      | true =>
          rw [List.takeWhile_cons_of_pos hp, List.length_cons]
          obtain ⟨hle, hrun, hstops⟩ := ih (first + 1)
          refine ⟨Nat.succ_le_succ hle, fun i hfirst hlt => ?_, ?_⟩
          · rcases hfirst.eq_or_lt with rfl | hlater
            · exact hp
            · exact hrun i hlater (by omega)
          · rcases hstops with hall | hstop
            · exact .inl (congrArg (· + 1) hall)
            · rw [Nat.add_right_comm] at hstop
              exact .inr hstop

/-- The first run of empty columns of a target, as long as the target and one push let it be. -/
structure FirstRun (detail : Detail) (firstColumn stop column count : ℕ) : Prop where
  first_le : firstColumn ≤ column
  pos : 0 < count
  short : count * detailFramesPerColumn ≤ maxPushFrames
  inside : column + count ≤ stop
  before : ∀ i, firstColumn ≤ i → i < column → detail.columnIsEmpty i = false
  empty : ∀ i, column ≤ i → i < column + count → detail.columnIsEmpty i = true
  longest : column + count = stop ∨ count * detailFramesPerColumn = maxPushFrames ∨
    detail.columnIsEmpty (column + count) = false

/-- The demand is the first run of empty columns of the target; it fails when no column of the target
is empty. -/
theorem nextPcmRequestBase_cases {ctx : DetailContext} {target : PcmRequest} (detail : Detail)
    (h : selectTarget ctx = some target)
    (hcut : ∀ total ∈ ctx.totalFrames, target.range.endFrame ≤ total) :
    (nextPcmRequestBase ctx detail = .error .notAvailable ∧
        ∀ column, target.range.firstFrame / detailFramesPerColumn ≤ column →
          column < stopColumn target.range.endFrame → detail.columnIsEmpty column = false) ∨
      ∃ column count,
        FirstRun detail (target.range.firstFrame / detailFramesPerColumn)
          (stopColumn target.range.endFrame) column count ∧
        nextPcmRequestBase ctx detail = .ok { target with
          range := ⟨column * detailFramesPerColumn,
            cutTo ctx.totalFrames ((column + count) * detailFramesPerColumn)⟩ } := by
  unfold nextPcmRequestBase
  rw [h]
  simp only
  rw [show (target.range.endFrame + detailFramesPerColumn - 1) % (uint64Max + 1) /
    detailFramesPerColumn = stopColumn target.range.endFrame from rfl]
  generalize hfirst : target.range.firstFrame / detailFramesPerColumn = firstColumn
  generalize hstop : stopColumn target.range.endFrame = stop
  cases hfind : (List.range' firstColumn (stop - firstColumn)).find? detail.columnIsEmpty with
  | none =>
      refine .inl ⟨rfl, fun column hle hlt => ?_⟩
      have hnone := List.find?_eq_none.mp hfind column (List.mem_range'_1.mpr ⟨hle, by omega⟩)
      simpa using hnone
  | some column =>
      right
      obtain ⟨hempty, hmem, hbefore⟩ := List.find?_range'_eq_some.mp hfind
      obtain ⟨hle, hlt⟩ := List.mem_range'_1.mp hmem
      simp only
      generalize hn : min (stop - column) (maxPushFrames / detailFramesPerColumn) = n
      obtain ⟨hcount, hrun, hstops⟩ := takeWhile_range' detail.columnIsEmpty column n
      have hpos : 0 < ((List.range' column n).takeWhile detail.columnIsEmpty).length := by
        have hn' : n = n - 1 + 1 := by
          simp only [maxPushFrames, detailFramesPerColumn] at hn
          omega
        rw [hn', List.range'_succ, List.takeWhile_cons_of_pos hempty]
        exact Nat.succ_pos _
      generalize ((List.range' column n).takeWhile detail.columnIsEmpty).length = count at *
      have hlast := columnIsEmpty_bound (hrun (column + count - 1) (by omega) (by omega))
      have hstart : column * detailFramesPerColumn < target.range.endFrame :=
        lt_of_lt_stopColumn (by omega)
      have hshort : count * detailFramesPerColumn ≤ maxPushFrames := by
        simp only [maxPushFrames, detailFramesPerColumn] at hn ⊢
        omega
      have hinside : column + count ≤ stop := by omega
      have hindex : ¬(uint64Max / detailFramesPerColumn < column ∨
          uint64Max / detailFramesPerColumn < column + count) := by
        have hlimit : uint64Max / detailFramesPerColumn = 72057594037927935 := by norm_num
        have hlast' : (column + count - 1) / 64 ≤ 4294967295 := hlast
        omega
      have hpast : ¬(cutTo ctx.totalFrames ((column + count) * detailFramesPerColumn) ≤
          column * detailFramesPerColumn) := by
        have hgrows : column * 256 < (column + count) * 256 := by omega
        rw [not_le]
        unfold cutTo
        cases htotal : ctx.totalFrames with
        | none => exact hgrows
        | some total => exact lt_min hgrows (hstart.trans_le (hcut total htotal))
      refine ⟨column, count, ⟨hle, hpos, hshort, hinside, fun i hi hi' => ?_, hrun, ?_⟩, ?_⟩
      · simpa using hbefore i hi hi'
      · rcases hstops with hall | hstop
        · simp only [maxPushFrames, detailFramesPerColumn] at hn ⊢
          omega
        · exact .inr (.inr hstop)
      · rw [if_neg hindex]
        exact if_neg hpast

/-- A range cut to the known length as a target, unless nothing is left of it. -/
def cutTarget (ctx : DetailContext) (range : FrameRange) (priority token : ℕ) :
    Option PcmRequest :=
  if cutTo ctx.totalFrames range.endFrame ≤ range.firstFrame then none
  else some ⟨⟨range.firstFrame, cutTo ctx.totalFrames range.endFrame⟩, {.waveformDetail}, priority,
    token⟩

private theorem cutTo_some (total frame : ℕ) :
    (if total < frame then total else frame) = cutTo (some total) frame := by
  show _ = min frame total
  split_ifs with hlt
  · exact (min_eq_right hlt.le).symm
  · exact (min_eq_left (not_lt.mp hlt)).symm

/-- The target of the strongest request. -/
theorem selectTarget_request {ctx : DetailContext} {request : Request}
    (h : selectRequest ctx.requests = some request) :
    selectTarget ctx =
      cutTarget ctx request.request.range request.request.priority request.requestId := by
  unfold selectTarget cutTarget
  rw [h]
  cases ctx.totalFrames with
  | none => rfl
  | some total => simp only [cutTo_some]

/-- The target of the focus. -/
theorem selectTarget_focus {ctx : DetailContext} {focus : Focus}
    (h : selectRequest ctx.requests = none) (hfocus : ctx.focus = some focus)
    (hnames : Feature.waveformDetail ∈ focus.featureMask) :
    selectTarget ctx = cutTarget ctx focus.window focus.priority 0 := by
  unfold selectTarget cutTarget
  rw [h, hfocus]
  simp only [if_pos hnames]
  cases ctx.totalFrames with
  | none => rfl
  | some total => simp only [cutTo_some]

theorem selectTarget_none {ctx : DetailContext} (h : selectRequest ctx.requests = none)
    (hfocus : ∀ focus ∈ ctx.focus, Feature.waveformDetail ∉ focus.featureMask) :
    selectTarget ctx = none := by
  unfold selectTarget
  rw [h]
  cases hcase : ctx.focus with
  | none => rfl
  | some focus => simp only [if_neg (hfocus focus hcase)]

/-- Without a target there is no demand. -/
theorem nextPcmRequestBase_none {ctx : DetailContext} (detail : Detail)
    (h : selectTarget ctx = none) : nextPcmRequestBase ctx detail = .error .notAvailable := by
  unfold nextPcmRequestBase
  rw [h]

/-! ## Replays -/

/-- A sample of an indexed tile does not fail. -/
theorem processSample_indexed {ctx : DetailContext} {detail : Detail} {frame : ℕ} {sample : ℚ}
    (h : frame / detailTileFrames ≤ uint32Max / detailColumnsPerTile) (code : ErrorCode) :
    (processSample ctx detail frame sample).1 ≠ .error code := by
  unfold processSample
  rw [if_neg (not_lt.mpr h)]
  cases findOrCreateTile ctx detail (frame / detailTileFrames) with
  | mk slot after => cases slot <;> simp

/-- A block of indexed tiles is replayed to its end. -/
theorem replaySamples_indexed (ctx : DetailContext) (samples : List ℚ) (frame : ℕ) (detail : Detail)
    (h : ∀ i < samples.length, (frame + i) / detailTileFrames ≤ uint32Max / detailColumnsPerTile) :
    (replaySamples ctx samples frame detail).1 = .ok := by
  induction samples generalizing frame detail with
  | nil => rfl
  | cons sample rest ih =>
      unfold replaySamples
      have hsample := @processSample_indexed ctx detail (frame + 0) sample
        (h 0 (Nat.succ_pos _))
      rw [Nat.add_zero] at hsample
      cases hstep : processSample ctx detail frame sample with
      | mk status after =>
          rw [hstep] at hsample
          have hrest := ih (frame + 1) after fun i hi => by
            rw [Nat.add_assoc, Nat.add_comm 1 i]
            exact h (i + 1) (Nat.succ_lt_succ hi)
          cases status with
          | error code => exact absurd rfl (hsample code)
          | _ => exact hrest

/-- A block of indexed tiles is left alone, or replayed as far as one push goes. -/
theorem acceptReplay_indexed {detailRequested : Bool} {ctx : DetailContext} {detail : Detail}
    {block : PcmBlock} (hindexed : ∀ i < block.frameCount,
      (block.firstFrame + i) / detailTileFrames ≤ uint32Max / detailColumnsPerTile) :
    acceptReplay detailRequested ctx detail block = (.notAvailable, 0, detail) ∨
      0 < block.frameCount ∧ ∃ after, acceptReplay detailRequested ctx detail block =
        (if min block.frameCount maxPushFrames = block.frameCount then .ok else .moreWork,
          min block.frameCount maxPushFrames, after) := by
  unfold acceptReplay
  simp only
  by_cases hunaligned : block.firstFrame % detailFramesPerColumn ≠ 0 ∨
      (block.firstFrame + block.frameCount) % detailFramesPerColumn ≠ 0 ∧
        ctx.totalFrames ≠ some (block.firstFrame + block.frameCount) ∨ (!detailRequested) = true
  · exact .inl (if_pos hunaligned)
  rw [if_neg hunaligned]
  cases nextPcmRequestBase ctx detail with
  | error status => exact .inl rfl
  | ok request =>
      simp only
      by_cases hother : block.firstFrame ≠ request.range.firstFrame ∨ block.frameCount = 0 ∨
          request.range.endFrame - request.range.firstFrame < block.frameCount
      · exact .inl (if_pos hother)
      rw [if_neg hother]
      have hreplayed := replaySamples_indexed ctx
        (block.samples.take (min block.frameCount maxPushFrames)) block.firstFrame detail
        fun i hi => hindexed i (hi.trans_le (by
          rw [List.length_take]
          exact Nat.min_le_right _ _))
      refine .inr ⟨Nat.pos_of_ne_zero fun hzero => hother (.inr (.inl hzero)), ?_⟩
      cases hreplay : Detail.replaySamples ctx
          (block.samples.take (min block.frameCount maxPushFrames)) block.firstFrame detail with
      | mk status after =>
          rw [hreplay] at hreplayed
          obtain rfl : status = .ok := hreplayed
          exact ⟨_, rfl⟩

/-- A block of the demand is taken as a replay. -/
theorem acceptReplay_of_demand {ctx : DetailContext} {detail : Detail} {block : PcmBlock}
    {request : PcmRequest} (hdemand : nextPcmRequestBase ctx detail = .ok request)
    (hfirst : block.firstFrame = request.range.firstFrame) (hpos : 0 < block.frameCount)
    (hshort : block.frameCount ≤ maxPushFrames)
    (hend : block.firstFrame + block.frameCount ≤ request.range.endFrame)
    (haligned : block.firstFrame % detailFramesPerColumn = 0)
    (hpast : (block.firstFrame + block.frameCount) % detailFramesPerColumn = 0 ∨
      ctx.totalFrames = some (block.firstFrame + block.frameCount))
    (hindexed : ∀ i < block.frameCount,
      (block.firstFrame + i) / detailTileFrames ≤ uint32Max / detailColumnsPerTile) :
    acceptReplay true ctx detail block = (.ok, block.frameCount,
      refreshCompleted ctx.endOfInput (replaySamples ctx block.samples block.firstFrame detail).2) := by
  unfold acceptReplay
  simp only
  rw [if_neg (by
    rw [haligned]
    rcases hpast with hpast | hpast <;> simp [hpast]), hdemand]
  simp only
  have hall : block.samples.take block.frameCount = block.samples := List.take_length
  rw [if_neg (by omega), min_eq_left hshort, hall, if_pos rfl]
  have hok := replaySamples_indexed ctx block.samples block.firstFrame detail hindexed
  rw [← Prod.mk.eta (p := replaySamples ctx block.samples block.firstFrame detail), hok]

/-- A block that is not of the demand is left to conflict. -/
theorem acceptReplay_refused {detailRequested : Bool} {ctx : DetailContext} {detail : Detail}
    {block : PcmBlock} (h : ∀ request, detailRequested = true →
      nextPcmRequestBase ctx detail = .ok request → block.firstFrame = request.range.firstFrame →
      0 < block.frameCount → request.range.endFrame < block.firstFrame + block.frameCount) :
    acceptReplay detailRequested ctx detail block = (.notAvailable, 0, detail) := by
  unfold acceptReplay
  simp only
  by_cases hrefused : block.firstFrame % detailFramesPerColumn ≠ 0 ∨
      (block.firstFrame + block.frameCount) % detailFramesPerColumn ≠ 0 ∧
        ctx.totalFrames ≠ some (block.firstFrame + block.frameCount) ∨ (!detailRequested) = true
  · exact if_pos hrefused
  rw [if_neg hrefused]
  have hrequested : detailRequested = true := by
    by_contra hnot
    exact hrefused (.inr (.inr (by simpa using hnot)))
  cases hdemand : nextPcmRequestBase ctx detail with
  | error status => rfl
  | ok request =>
      refine if_pos ?_
      have hpast := h request hrequested hdemand
      by_cases hfirst : block.firstFrame = request.range.firstFrame
      · rcases Nat.eq_zero_or_pos block.frameCount with hzero | hpos
        · exact .inr (.inl hzero)
        · have hlong := hpast hfirst hpos
          exact .inr (.inr (by omega))
      · exact .inl hfirst

/-! ## Clamped ends -/

/-- A request with its end clamped to the safe one. -/
def clampRequest (request : Request) : Request :=
  if maximumSafeEnd < request.request.range.endFrame then
    { request with
      request := { request.request with
        range := { request.request.range with endFrame := maximumSafeEnd } } }
  else request

/-- A focus whose playhead is below the safe end, with the end of its window clamped to it. -/
def clampFocus (focus : Focus) : Focus :=
  if focus.playheadFrame < maximumSafeEnd ∧
      maximumSafeEnd - focus.playheadFrame < focus.lookaheadFrames then
    { focus with lookaheadFrames := maximumSafeEnd - focus.playheadFrame }
  else focus

theorem clampRequest_range (request : Request) :
    (clampRequest request).request.range =
      ⟨request.request.range.firstFrame, min request.request.range.endFrame maximumSafeEnd⟩ := by
  unfold clampRequest
  split_ifs with hbeyond
  · rw [min_eq_right hbeyond.le]
  · rw [min_eq_left (not_lt.mp hbeyond)]

theorem clampRequest_score (request : Request) :
    scoreRequest (clampRequest request) = scoreRequest request := by
  unfold clampRequest
  split_ifs <;> rfl

theorem clampRequest_wants (feature : Feature) (request : Request) :
    (clampRequest request).wantsFeature feature = request.wantsFeature feature := by
  unfold clampRequest
  split_ifs <;> rfl

theorem clampRequest_priority (request : Request) :
    (clampRequest request).request.priority = request.request.priority := by
  unfold clampRequest
  split_ifs <;> rfl

theorem clampRequest_requestId (request : Request) :
    (clampRequest request).requestId = request.requestId := by
  unfold clampRequest
  split_ifs <;> rfl

theorem clampFocus_firstFrame (focus : Focus) :
    (clampFocus focus).window.firstFrame = focus.window.firstFrame := by
  unfold clampFocus
  split_ifs <;> rfl

theorem clampFocus_featureMask (focus : Focus) :
    (clampFocus focus).featureMask = focus.featureMask := by
  unfold clampFocus
  split_ifs <;> rfl

theorem clampFocus_priority (focus : Focus) : (clampFocus focus).priority = focus.priority := by
  unfold clampFocus
  split_ifs <;> rfl

/-- The end of a window is clamped when the playhead is below the safe end. -/
theorem clampFocus_endFrame {focus : Focus} (hplayhead : focus.playheadFrame < maximumSafeEnd) :
    (clampFocus focus).window.endFrame = min focus.window.endFrame maximumSafeEnd := by
  obtain ⟨playhead, lookbehind, lookahead, mask, priority⟩ := focus
  unfold clampFocus Focus.window
  simp only [maximumSafeEnd, detailFramesPerColumn, uint64Max] at *
  by_cases hlong : playhead < 18446744073709551615 - (256 - 1) ∧
      18446744073709551615 - (256 - 1) - playhead < lookahead
  · rw [if_pos hlong]
    dsimp only
    split_ifs <;> omega
  · rw [if_neg hlong]
    dsimp only
    split_ifs <;> omega

/-- A window is never shown longer than it is. -/
theorem clampFocus_endFrame_le (focus : Focus) :
    (clampFocus focus).window.endFrame ≤ focus.window.endFrame := by
  by_cases hplayhead : focus.playheadFrame < maximumSafeEnd
  · rw [clampFocus_endFrame hplayhead]
    exact Nat.min_le_left _ _
  · rw [clampFocus, if_neg fun h => hplayhead h.1]

end Detail

end LibApta
