import LibApta.Session.Intake

/-!
# The set of accepted frames

The accepted-range table represents the union of what was seeded and what the pushes report as
accepted, as long as each of its producers keeps to what the table assumes of it: seeded spans are
not empty and overlap neither each other nor the table, a pull source is not shorter than what was
seeded, and a block taken as a detail replay lies inside the accepted frames.
-/

namespace LibApta

namespace Session

/-! ## What the calls take -/

/-- Consecutive frames. -/
def frameRun (first count : ℕ) : Set ℕ := {frame | first ≤ frame ∧ frame < first + count}

/-- The spans whose range a seeding call records: all of them, or those before a failure. -/
def recordedSpans : List WaveformSpan → Session → List WaveformSpan
  | [], _ => []
  | span :: rest, s =>
      match s.seedSpan span with
      | (.ok, s) => span :: recordedSpans rest s
      | _ => []

/-- The spans that seeding from a result records. -/
def seededSpans (result : Result) (s : Session) : List WaveformSpan :=
  match s.seedableView result with
  | .error _ => []
  | .ok view => recordedSpans view.spans s

/-- The frames of a list of spans. -/
def spanFrames (spans : List WaveformSpan) : Set ℕ :=
  {frame | ∃ span ∈ spans, frame ∈ span.sourceRange.frames}

theorem frameRun_zero (first : ℕ) : frameRun first 0 = ∅ := by
  ext frame
  simp only [frameRun, Set.mem_ofPred_eq, Set.mem_empty_iff_false, iff_false]
  omega

theorem spanFrames_nil : spanFrames [] = ∅ := by
  ext frame
  simp [spanFrames]

/-- The frames that an operation takes: the recorded spans of a seeding call, the frames a push
reports as accepted, and the frames the pull adapter adds. -/
def takenFrames : Op → Session → Set ℕ
  | .seedFromResult result, s => spanFrames (s.seededSpans result)
  | .pushPcm block, s => frameRun block.firstFrame (s.pushPcm block).2.1
  | .process source budget, s =>
      {frame | s.pulls ∧ frame ∈ (s.pullPcm source budget).2.accepted.frames ∧
        frame ∉ s.accepted.frames}
  | _, _ => ∅

/-- The frames that a call takes. -/
def takenBy (call : Call) (s : Session) : Set ℕ := takenFrames call.op (s.withPlatform call)

/-- The frames that a run takes. -/
def taken (calls : List Call) (s : Session) : Set ℕ := Runs.gather step takenBy calls s

/-! ## What the table assumes of its producers -/

/-- Spans that may be seeded: not empty, disjoint from each other and from the accepted frames. -/
def SeedsFresh (spans : List WaveformSpan) (accepted : Set ℕ) : Prop :=
  (∀ span ∈ spans, span.sourceRange.firstFrame < span.sourceRange.endFrame) ∧
    spans.Pairwise (fun a b => a.sourceRange.endFrame ≤ b.sourceRange.firstFrame ∨
      b.sourceRange.endFrame ≤ a.sourceRange.firstFrame) ∧
    ∀ span ∈ spans, ∀ frame ∈ span.sourceRange.frames, frame ∉ accepted

/-- The producers keep to what the accepted-range table assumes. -/
def Accountable (op : Op) (s : Session) : Prop :=
  match op with
  | .seedFromResult result =>
      ∀ view, s.seedableView result = .ok view → SeedsFresh view.spans s.accepted.frames
  | .setSource (some total) => s.accepted.maximumEnd ≤ total
  | .pushPcm block =>
      s.config.requests .waveformOverview = true ∧
        (block.firstFrame ∈ s.accepted.frames →
          ∀ frame ∈ frameRun block.firstFrame (s.replayedFrames block), frame ∈ s.accepted.frames)
  | _ => True

/-- A table of accepted frames that represents a set: sorted, disjoint, non-empty, maximally merged
ranges within the known total, with the end of the run from frame zero and the end of the set. -/
structure Represents (accepted : AcceptedRanges) (totalFrames : Option ℕ) (frames : Set ℕ) :
    Prop where
  separated : Interval.Separated accepted.ranges
  union : ∀ frame, frame ∈ accepted.frames ↔ frame ∈ frames
  withinTotal : ∀ total ∈ totalFrames, ∀ frame ∈ frames, frame < total
  belowGreatest : ∀ frame < accepted.greatestEnd, frame ∈ frames
  greatestMissing : accepted.greatestEnd ∉ frames
  belowMaximum : ∀ frame ∈ frames, frame < accepted.maximumEnd
  maximumAttained : accepted.maximumEnd = 0 ∨ accepted.maximumEnd - 1 ∈ frames

/-! ## The invariant -/

/-- The table is well formed, within the known total, and holds exactly the given frames. -/
structure Tabled (frames : Set ℕ) (s : Session) : Prop where
  wellFormed : s.accepted.WellFormed
  union : s.accepted.frames = frames
  withinTotal : ∀ total ∈ s.config.totalFrames, s.accepted.maximumEnd ≤ total

namespace Tabled

variable {frames : Set ℕ} {s s' : Session}

theorem represents (h : Tabled frames s) : Represents s.accepted s.config.totalFrames frames := by
  obtain ⟨hwf, rfl, htotal⟩ := h
  exact ⟨hwf.separated, fun _ => Iff.rfl,
    fun total hmem frame hf => (hwf.lt_maximumEnd hf).trans_le (htotal total hmem),
    hwf.greatestEnd_spec.1, hwf.greatestEnd_spec.2, fun frame hf => hwf.lt_maximumEnd hf,
    hwf.maximumEnd_attained⟩

/-- The table depends on the input only. -/
theorem rest (h : Tabled frames s) (h' : SameInput s s') : Tabled frames s' where
  wellFormed := by
    refine ⟨?_, ?_, ?_⟩
    · rw [h'.ranges]
      exact h.wellFormed.separated
    · rw [h'.greatestEnd, h'.ranges]
      exact h.wellFormed.greatestEnd_eq
    · rw [h'.maximumEnd, h'.ranges]
      exact h.wellFormed.maximumEnd_eq
  union := by
    rw [AcceptedRanges.frames, h'.ranges]
    exact h.union
  withinTotal := by
    rw [h'.config, h'.maximumEnd]
    exact h.withinTotal

/-- Inserting a new range within the total. -/
theorem insert (h : Tabled frames s) {first past : ℕ} (hne : first < past)
    (hnew : ∀ frame, first ≤ frame → frame < past → frame ∉ frames)
    (htotal : ∀ total ∈ s.config.totalFrames, past ≤ total) {t : Session}
    (hconfig : t.config = s.config) (haccepted : t.accepted = s.accepted.insertRange first past) :
    Tabled (frames ∪ {frame | first ≤ frame ∧ frame < past}) t := by
  obtain ⟨hwf, rfl, hwithin⟩ := h
  obtain ⟨hwf', hmem⟩ := AcceptedRanges.insertRange_spec hwf hne hnew
  refine ⟨haccepted ▸ hwf', ?_, fun total htot => ?_⟩
  · rw [haccepted]
    ext frame
    exact hmem frame
  · rw [hconfig] at htot
    rw [haccepted]
    rcases hwf'.maximumEnd_attained with hzero | hlast
    · omega
    · rcases (hmem _).mp hlast with hold | hrange
      · have := hwf.lt_maximumEnd hold
        have := hwithin total htot
        omega
      · have := htotal total htot
        omega

/-- Accepting the prefix of a block adds the frames that are reported. -/
theorem accepts (h : Tabled frames s) {block : PcmBlock} {n : ℕ} (hpos : 0 < block.frameCount)
    (htotal : ∀ total ∈ s.config.totalFrames, block.firstFrame + block.frameCount ≤ total)
    (haccepts : Accepts block s n s') : Tabled (frames ∪ frameRun block.firstFrame n) s' := by
  cases haccepts with
  | none h' =>
      rw [frameRun_zero, Set.union_empty]
      exact h.rest h'.sameInput
  | some hn hle h' =>
      obtain ⟨-, rfl, -⟩ := id h
      have hcandidate : 0 < min block.frameCount maxPushFrames := lt_min hpos (by decide)
      rcases AcceptedRanges.nonoverlappingPrefix_spec h.wellFormed.separated.ordered block.firstFrame
        hcandidate with ⟨heq, -⟩ | ⟨-, -, hbound, hfree⟩
      · rw [heq] at hle
        omega
      · refine Tabled.rest (s := s.accepting block n) ?_ h'.sameInput
        refine h.insert (by omega) (fun frame hlo hhi => hfree frame hlo (by omega))
          (fun total hmem => ?_) rfl rfl
        have := htotal total hmem
        omega

/-- Accepting a block with the detail layer: a replay adds nothing. -/
theorem acceptsPcm (h : Tabled frames s) {block : PcmBlock} {n : ℕ} (hpos : 0 < block.frameCount)
    (htotal : ∀ total ∈ s.config.totalFrames, block.firstFrame + block.frameCount ≤ total)
    (hreplay : block.firstFrame ∈ s.accepted.frames →
      ∀ frame ∈ frameRun block.firstFrame (s.replayedFrames block), frame ∈ s.accepted.frames)
    (haccepts : AcceptsPcm block s n s') : Tabled (frames ∪ frameRun block.firstFrame n) s' := by
  cases haccepts with
  | base haccepts => exact h.accepts hpos htotal haccepts
  | replay _ hconflict h' =>
      have hcandidate : 0 < min block.frameCount maxPushFrames := lt_min hpos (by decide)
      rcases AcceptedRanges.nonoverlappingPrefix_spec h.wellFormed.separated.ordered block.firstFrame
        hcandidate with ⟨-, hmem⟩ | ⟨hfalse, -⟩
      · have hinside := hreplay hmem
        rw [h.union] at hinside
        rw [Set.union_eq_self_of_subset_right hinside]
        exact h.rest h'.sameInput
      · exact absurd (hfalse.symm.trans hconflict) (by simp)

theorem activated (h : Tabled frames s) (h' : Activated s s') : Tabled frames s' := by
  cases h' with
  | already => exact h
  | first => exact h.rest ⟨rfl, by simp [published], rfl, rfl, rfl, rfl⟩

theorem ended (h : Tabled frames s) {finalEnd : ℕ} (h' : Ended finalEnd s s') :
    Tabled frames s' := by
  cases h' with
  | kept h' => exact h.rest h'.sameInput
  | unactivated _ h' => exact h.rest h'.sameInput
  | unended ht h' => exact (h.activated ht).rest h'.sameInput
  | @drained t _ _ _ hend ht h' =>
      have hactive := h.activated ht
      have hmax : t.accepted.maximumEnd = s.accepted.maximumEnd := by cases ht <;> rfl
      refine Tabled.rest (s := published ∅ { t.ended finalEnd with state := .draining }) ?_
        h'.sameInput
      refine ⟨hactive.wellFormed, hactive.union, fun total hmem => ?_⟩
      obtain rfl : finalEnd = total := Option.some.inj (Option.mem_def.mp hmem)
      exact hmax.le.trans hend

theorem settled (h : Tabled frames s) (h' : Settled s s') : Tabled frames s' := by
  cases h' with
  | unannounced h' => exact h.rest h'.sameInput
  | failed h' =>
      have hstate : Tabled frames { s with state := .failed } := 
        h.rest ⟨rfl, by simp, rfl, rfl, rfl, rfl⟩
      exact hstate.rest ((published_sameInput ∅ _).trans h'.sameInput)

/-- Pulling adds frames; a pulled block starts in a gap, so it is never a replay. -/
theorem pulled (h : Tabled frames s) {source : PullSource} (h' : Pulled source s s') :
    ∃ more, Tabled (frames ∪ more) s' := by
  have hnone : ∀ t, Tabled frames t → ∃ more, Tabled (frames ∪ more) t := fun t ht =>
    ⟨∅, by rwa [Set.union_empty]⟩
  cases h' with
  | settled ht h' => exact hnone _ ((h.rest ht.sameInput).settled h')
  | exhausted _ ht _ _ h' => exact hnone _ ((h.rest ht.sameInput).ended h')
  | reported _ ht _ _ _ h' => exact hnone _ ((h.rest ht.sameInput).ended h')
  | unactivated ht _ h' => exact hnone _ ((h.rest ht.sameInput).rest h'.sameInput)
  | @delivered t u v _ block n past _ ht hgap _ hvalid _ hactive h' hsettled =>
      obtain ⟨hpos, -, htotal⟩ := validatePcmBlock_ok hvalid
      have hu := (h.rest ht.sameInput).activated hactive
      have hconfig : u.config = t.config := by cases hactive <;> rfl
      cases h' with
      | ignored => exact hnone _ (hu.settled hsettled)
      | accepted hoverview haccepts =>
          refine ⟨_, (hu.acceptsPcm hpos (hconfig ▸ htotal) (fun hmem => ?_) haccepts).settled
            hsettled⟩
          obtain ⟨-, hlt, -, -, hout⟩ := Interval.firstGap_some h.wellFormed.separated.ordered hgap
          rw [hu.union, ← h.union] at hmem
          exact absurd hmem (hout block.firstFrame le_rfl hlt)

end Tabled

/-! ## Seeding -/

theorem seedColumn_sameInput (columnIndex count : ℕ) (column : WaveformColumn) (s : Session) :
    SameInput s (s.seedColumn columnIndex count column).2 := by
  unfold seedColumn
  simp only
  split
  · exact ⟨rfl, id, rfl, rfl, rfl, rfl⟩
  · exact ⟨rfl, id, rfl, rfl, rfl, rfl⟩

theorem seedColumns_sameInput (columns : List WaveformColumn) (columnIndex : ℕ) (s : Session) :
    SameInput s (seedColumns columns columnIndex s).2 := by
  induction columns generalizing columnIndex s with
  | nil => exact .refl s
  | cons column rest ih =>
      unfold seedColumns
      have hone := seedColumn_sameInput columnIndex (s.seededColumnFrames columnIndex) column s
      split_ifs
      · exact ih _ s
      split
      · next t heq =>
          rw [heq] at hone
          exact hone.trans (ih _ t)
      · next status t _ heq =>
          rw [heq] at hone
          exact hone

/-- Seeding one span records its range, or fails and records nothing. -/
theorem seedSpan_cases {span : WaveformSpan} {s t : Session} {status : Status}
    (h : s.seedSpan span = (status, t)) :
    (status = .ok ∧ ∃ u, SameInput s u ∧
        SameInput { u with
          accepted := u.accepted.insertRange span.sourceRange.firstFrame
            span.sourceRange.endFrame } t) ∨
      status ≠ .ok ∧ SameInput s t := by
  unfold seedSpan at h
  have hcolumns := seedColumns_sameInput span.columns span.firstColumnIndex s
  cases hseed : seedColumns span.columns span.firstColumnIndex s with
  | mk answer u =>
      rw [hseed] at h hcolumns
      by_cases hanswer : answer = .ok
      swap
      · have hstay : answer = status ∧ u = t := by
          cases answer with
          | ok => exact absurd rfl hanswer
          | _ => exact Prod.mk.inj h
        obtain ⟨rfl, rfl⟩ := hstay
        exact .inr ⟨hanswer, hcolumns⟩
      subst hanswer
      simp only at h
      cases hroom : u.accepted.ensureCapacity (u.accepted.ranges.length + 1) u.env with
      | mk answer rest =>
          obtain ⟨table, env⟩ := rest
          obtain ⟨⟨capacity, rfl⟩, hanswer⟩ := AcceptedRanges.ensureCapacity_cases hroom
          rw [hroom] at h
          rcases hanswer with rfl | rfl | rfl
          · obtain ⟨rfl, rfl⟩ := Prod.mk.inj h
            exact .inl ⟨rfl, u, hcolumns, rfl, id, rfl, rfl, rfl, rfl⟩
          · obtain ⟨rfl, rfl⟩ := Prod.mk.inj h
            exact .inr ⟨by simp, hcolumns.trans ⟨rfl, id, rfl, rfl, rfl, rfl⟩⟩
          · obtain ⟨rfl, rfl⟩ := Prod.mk.inj h
            exact .inr ⟨by simp, hcolumns.trans ⟨rfl, id, rfl, rfl, rfl, rfl⟩⟩

/-- Seeding fresh spans adds the recorded ones. -/
theorem Tabled.seedSpans {spans : List WaveformSpan} {frames : Set ℕ} {s : Session}
    (h : Tabled frames s) (hfresh : SeedsFresh spans s.accepted.frames)
    (htotal : ∀ total ∈ s.config.totalFrames, ∀ span ∈ spans, span.sourceRange.endFrame ≤ total) :
    Tabled (frames ∪ spanFrames (recordedSpans spans s)) (Session.seedSpans spans s).2 := by
  induction spans generalizing s frames with
  | nil =>
      rw [recordedSpans, spanFrames_nil, Set.union_empty]
      exact h
  | cons span rest ih =>
      obtain ⟨hne, hdisj, hnew⟩ := hfresh
      obtain ⟨hspan, hrest⟩ := List.pairwise_cons.mp hdisj
      rw [Session.seedSpans, recordedSpans]
      cases hone : s.seedSpan span with
      | mk status t =>
          rcases seedSpan_cases hone with ⟨rfl, u, hu, ht⟩ | ⟨hfail, ht⟩
          · have hrange : span.sourceRange.firstFrame < span.sourceRange.endFrame :=
              hne span List.mem_cons_self
            have hinserted : Tabled (frames ∪ span.sourceRange.frames) t := by
              refine Tabled.rest (Tabled.insert (t := { u with
                accepted := u.accepted.insertRange span.sourceRange.firstFrame
                  span.sourceRange.endFrame }) (h.rest hu) hrange (fun frame hlo hhi hmem => ?_)
                (fun total hmem => ?_) rfl rfl) ht
              · exact hnew span List.mem_cons_self frame ⟨hlo, hhi⟩ (h.union ▸ hmem)
              · exact htotal total (hu.config ▸ hmem) span List.mem_cons_self
            have hconfig : t.config = s.config := ht.config.trans hu.config
            have hmore : spanFrames (span :: recordedSpans rest t) =
                span.sourceRange.frames ∪ spanFrames (recordedSpans rest t) := by
              ext frame
              simp [spanFrames]
            simp only
            rw [hmore, ← Set.union_assoc]
            refine ih hinserted ⟨fun other hother => hne other (List.mem_cons_of_mem _ hother),
              hrest, fun other hother frame hframe hmem => ?_⟩ fun total hmem other hother =>
                htotal total (hconfig ▸ hmem) other (List.mem_cons_of_mem _ hother)
            rw [hinserted.union] at hmem
            rcases hmem with hmem | hmem
            · exact hnew other (List.mem_cons_of_mem _ hother) frame hframe (h.union ▸ hmem)
            · obtain ⟨hlo, hhi⟩ := FrameRange.mem_frames.mp hframe
              obtain ⟨hlo', hhi'⟩ := FrameRange.mem_frames.mp hmem
              rcases hspan other hother with hle | hle <;> omega
          · cases status with
            | ok => exact absurd rfl hfail
            | _ =>
                simp only
                rw [spanFrames_nil, Set.union_empty]
                exact h.rest ht

/-- A view that may be seeded is the overview of the result, at the resolution of the session. -/
theorem seedableView_ok {result : Result} {s : Session} {view : OverviewView}
    (h : s.seedableView result = .ok view) :
    result.overview = some view ∧ view.framesPerColumn = s.framesPerColumn ∧
      s.seedBeyondTotal view = false := by
  unfold seedableView at h
  split at h
  · cases h
  split at h
  · cases h
  split at h
  · cases h
  · next found hfound =>
      split_ifs at h with _ hcolumns hbeyond
      rw [← Except.ok.inj h]
      exact ⟨hfound, not_not.mp hcolumns, Bool.eq_false_iff.mpr hbeyond⟩

/-- A view that may be seeded ends within the known total. -/
theorem seedableView_withinTotal {result : Result} {s : Session} {view : OverviewView}
    (h : s.seedableView result = .ok view) :
    ∀ total ∈ s.config.totalFrames, ∀ span ∈ view.spans, span.sourceRange.endFrame ≤ total := by
  have hbeyond := (seedableView_ok h).2.2
  intro total hmem span hspan
  unfold seedBeyondTotal at hbeyond
  rw [Option.mem_def.mp hmem] at hbeyond
  simp only [List.any_eq_false, decide_eq_true_eq, not_lt] at hbeyond
  exact hbeyond span hspan

/-- A push adds the frames it reports. -/
theorem Tabled.pushed {frames : Set ℕ} {s s' : Session} {block : PcmBlock} (h : Tabled frames s)
    (haccount : Accountable (.pushPcm block) s) {n : ℕ} (h' : Pushed block s n s') :
    Tabled (frames ∪ frameRun block.firstFrame n) s' := by
  obtain ⟨hoverview, hreplay⟩ := haccount
  cases h' with
  | kept h' =>
      rw [frameRun_zero, Set.union_empty]
      exact h.rest h'.sameInput
  | unactivated _ h' =>
      rw [frameRun_zero, Set.union_empty]
      exact h.rest h'.sameInput
  | @delivered t _ _ _ hvalid _ ht h' =>
      obtain ⟨hpos, -, htotal⟩ := validatePcmBlock_ok hvalid
      have hactive := h.activated ht
      have hsame : t.config = s.config ∧ t.accepted = s.accepted ∧
          t.replayedFrames block = s.replayedFrames block := by cases ht <;> exact ⟨rfl, rfl, rfl⟩
      obtain ⟨hconfig, haccepted, hreplayed⟩ := hsame
      cases h' with
      | accepted _ h' =>
          refine hactive.acceptsPcm hpos (hconfig ▸ htotal) ?_ h'
          rw [haccepted, hreplayed]
          exact hreplay
      | ignored hno =>
          rw [hconfig, hoverview] at hno
          exact absurd hno (by simp)

/-- Every accountable operation adds to the table exactly the frames it takes. -/
theorem Tabled.outcome {frames : Set ℕ} {s s' : Session} {op : Op} (h : Tabled frames s)
    (haccount : Accountable op s) (houtcome : Outcome op s s') :
    Tabled (frames ∪ takenFrames op s) s' := by
  have hnone : ∀ t, takenFrames op s = ∅ → Tabled frames t → Tabled (frames ∪ takenFrames op s) t :=
    fun t htaken ht => by rwa [htaken, Set.union_empty]
  have hadded : ∀ (source : PullSource) (budget : WorkBudget) (t : Session), s.pulls →
      (s.pullPcm source budget).2 = t → Pulled source s t →
      Tabled (frames ∪ takenFrames (.process source budget) s) t := by
    rintro source budget t hpulls rfl hpulled
    obtain ⟨more, hmore⟩ := h.pulled hpulled
    have hset : frames ∪ takenFrames (.process source budget) s = frames ∪ more := by
      ext frame
      simp only [takenFrames, hpulls, true_and, Set.mem_union, Set.mem_ofPred_eq, hmore.union,
        h.union]
      tauto
    rwa [hset]
  cases houtcome with
  | kept hop h' =>
      refine hnone s' ?_ (h.rest h'.sameInput)
      cases op <;> first | rfl | exact absurd hop (by simp [takesFrames])
  | announced hop mask h' h'' =>
      refine hnone s' ?_ (((h.rest h'.sameInput).rest (published_sameInput mask _)).rest
        h''.sameInput)
      cases op <;> first | rfl | exact absurd hop (by simp [publishesAtOnce])
  | unannounced hop h' h'' =>
      refine hnone s' ?_ ((h.rest h'.sameInput).rest h''.sameInput)
      cases op <;> first | rfl | exact absurd hop (by simp [publishesAtOnce])
  | @fixed total =>
      refine hnone _ rfl ⟨h.wellFormed, h.union, fun known hmem => ?_⟩
      obtain rfl : total = known := Option.some.inj (Option.mem_def.mp hmem)
      exact haccount
  | @seeded result =>
      show Tabled (frames ∪ spanFrames (s.seededSpans result)) _
      unfold seedFromResult seededSpans
      cases hview : s.seedableView result with
      | error status =>
          rw [spanFrames_nil, Set.union_empty]
          exact h
      | ok view => exact h.seedSpans (haccount view hview) (seedableView_withinTotal hview)
  | pushed h' => exact h.pushed haccount h'
  | ended _ h' => exact hnone s' rfl (h.ended h')
  | @processed source budget _ _ hmode h' =>
      refine hnone s' ?_ ((h.rest (started_sameTrack budget s).sameInput).rest h'.sameInput)
      simp [takenFrames, hmode]
  | pulled hmode hpull h' => exact hadded _ _ _ hmode hpull h'
  | @pulledProcessed source budget _ t _ hmode hpull h' h'' =>
      exact ((hadded _ _ _ hmode hpull h').rest (started_sameTrack budget t).sameInput).rest
        h''.sameInput

/-- A created session has an empty table. -/
theorem tabled_of_created {s : Session} (h : Created s) : Tabled ∅ s := by
  obtain ⟨config, libm, usesWorkspace, env, -, rfl⟩ := created_eq h
  exact ⟨.empty, Interval.support_nil, fun total _ => Nat.zero_le total⟩

/-- In every run whose producers keep to what the table assumes, the table represents the frames the
run has taken. -/
theorem accepted_represents_taken (s : Session) (hcreated : Created s) (calls : List Call)
    (hguard : Guarded (fun call s => Accountable call.op (s.withPlatform call)) calls s)
    (s' : Session) (hrun : run calls s = some s') :
    Represents s'.accepted s'.config.totalFrames (taken calls s) := by
  have htabled := Runs.gather_invariant (P := Tabled)
    (fun frames call s s' h haccount hstep => by
      have houtcome := step_outcome hstep
      have hstart := h.rest (withPlatform_sameTrack call s).sameInput
      exact hstart.outcome haccount houtcome)
    (tabled_of_created hcreated) hguard hrun
  rw [Set.empty_union] at htabled
  exact htabled.represents

/-- A result whose overview is the first column of a track. -/
def oneColumnResult : Result where
  generation := 1
  changedFeatures := {.waveformOverview}
  availableFeatures := {.waveformOverview}
  sessionState := .active
  source := ⟨none, 44100, 1, 1, none⟩
  metadata := none
  overview := some ⟨64, confidenceUnknown, .part, [⟨0, ⟨0, 64⟩, [⟨0, 0, 0, 0, 0, 0, false, false⟩]⟩]⟩
  detailTiles := []
  tempo := none
  localGrid := none
  globalGrid := none

/-- Seeding once and then pushing the next frames is accountable. -/
theorem accepted_represents_taken_seeded : ∃ s s' : Session, Created s ∧
    run [plainCall (.seedFromResult oneColumnResult),
      plainCall (.pushPcm ⟨64, [0, 0, 0, 0]⟩)] s = some s' ∧
    Represents s'.accepted s'.config.totalFrames (taken
      [plainCall (.seedFromResult oneColumnResult), plainCall (.pushPcm ⟨64, [0, 0, 0, 0]⟩)] s) := by
  obtain ⟨s, hs⟩ : ∃ s, create (smallConfig {.waveformOverview} none) seriesLibm false
      plainPlatform = (.ok, some s) := ⟨_, rfl⟩
  have hcreated : Created s := ⟨_, _, _, _, hs⟩
  have hseeded : ((create (smallConfig {.waveformOverview} none) seriesLibm false
      plainPlatform).2.bind (step (plainCall (.seedFromResult oneColumnResult)))).map
        (fun s => (s.config.requests .waveformOverview, s.accepted.ranges)) =
      some (true, [⟨0, 64⟩]) := by decide +kernel
  have hruns : ((create (smallConfig {.waveformOverview} none) seriesLibm false
      plainPlatform).2.bind (run [plainCall (.seedFromResult oneColumnResult),
        plainCall (.pushPcm ⟨64, [0, 0, 0, 0]⟩)])).isSome = true := by decide +kernel
  rw [hs] at hseeded hruns
  obtain ⟨s', hrun⟩ := Option.isSome_iff_exists.mp hruns
  refine ⟨s, s', hcreated, hrun, accepted_represents_taken s hcreated
    [plainCall (.seedFromResult oneColumnResult), plainCall (.pushPcm ⟨64, [0, 0, 0, 0]⟩)]
    ⟨?_, fun t ht => ⟨?_, fun _ _ => trivial⟩⟩ s' hrun⟩
  · intro view hview
    obtain rfl := Option.some.inj ((seedableView_ok hview).1)
    have hempty : (s.withPlatform (plainCall (.seedFromResult oneColumnResult))).accepted.frames = ∅ :=
      (tabled_of_created hcreated).union
    rw [hempty]
    exact ⟨by decide, List.pairwise_singleton _ _, fun _ _ _ _ hmem => hmem⟩
  · obtain ⟨t', ht', hfacts⟩ := Option.map_eq_some_iff.mp hseeded
    obtain rfl : t' = t := Option.some.inj (ht'.symm.trans ht)
    obtain ⟨hoverview, hranges⟩ := Prod.mk.inj hfacts
    refine ⟨hoverview, fun hmem => ?_⟩
    have hmem' : 64 ∈ Interval.support t'.accepted.ranges := hmem
    rw [hranges] at hmem'
    exact absurd hmem' (by simp [Interval.support])

/-- Seeding twice from one result puts its range into the table twice. -/
theorem seeding_twice_overlaps : ∃ s s' : Session, Created s ∧
    run [plainCall (.seedFromResult oneColumnResult),
      plainCall (.seedFromResult oneColumnResult)] s = some s' ∧
    s'.accepted.ranges = [⟨0, 64⟩, ⟨0, 64⟩] ∧
    ¬ Represents s'.accepted s'.config.totalFrames (taken
      [plainCall (.seedFromResult oneColumnResult),
        plainCall (.seedFromResult oneColumnResult)] s) := by
  obtain ⟨s, hs⟩ : ∃ s, create (smallConfig {.waveformOverview} none) seriesLibm false
      plainPlatform = (.ok, some s) := ⟨_, rfl⟩
  have hranges : ((create (smallConfig {.waveformOverview} none) seriesLibm false
      plainPlatform).2.bind (run [plainCall (.seedFromResult oneColumnResult),
        plainCall (.seedFromResult oneColumnResult)])).map (fun s => s.accepted.ranges) =
      some [⟨0, 64⟩, ⟨0, 64⟩] := by decide +kernel
  rw [hs] at hranges
  obtain ⟨s', hrun, hranges⟩ := Option.map_eq_some_iff.mp hranges
  refine ⟨s, s', ⟨_, _, _, _, hs⟩, hrun, hranges, fun h => ?_⟩
  have hsep := h.separated
  rw [hranges] at hsep
  exact absurd hsep (by simp [Interval.Separated])

/-! ## What insertions keep

All that is left of the representation when seeded ranges overlap: the properties of the table that
one insertion keeps, whatever the table holds. -/

/-- A property of the ranges that the insertion of an admissible range keeps; a range that runs
forward is admissible. -/
structure KeptByInsertion (admissible : ℕ → ℕ → Prop) (P : List (Interval ℕ) → Prop) : Prop where
  insert : ∀ {ranges : List (Interval ℕ)} {lo hi : ℕ}, admissible lo hi → P ranges →
    P (Interval.insertMerge lo hi ranges)
  forward : ∀ {lo hi : ℕ}, lo ≤ hi → admissible lo hi

/-- The spans that an operation seeds are admissible. -/
def SeedsOnly (admissible : ℕ → ℕ → Prop) (op : Op) : Prop :=
  ∀ result, op = .seedFromResult result → ∀ view ∈ result.overview, ∀ span ∈ view.spans,
    admissible span.sourceRange.firstFrame span.sourceRange.endFrame

namespace KeptByInsertion

variable {admissible : ℕ → ℕ → Prop} {P : List (Interval ℕ) → Prop} {s s' : Session}

theorem rest (h : P s.accepted.ranges) (h' : SameInput s s') : P s'.accepted.ranges := by
  rw [h'.ranges]
  exact h

theorem activated (h : P s.accepted.ranges) (h' : Activated s s') : P s'.accepted.ranges := by
  cases h' with
  | already => exact h
  | first => exact h

theorem ended (h : P s.accepted.ranges) {finalEnd : ℕ} (h' : Ended finalEnd s s') :
    P s'.accepted.ranges := by
  cases h' with
  | kept h' => exact rest h h'.sameInput
  | unactivated _ h' => exact rest h h'.sameInput
  | unended ht h' => exact rest (activated h ht) h'.sameInput
  | @drained t _ _ _ _ ht h' =>
      have hactive := activated h ht
      have hdrained :
          P (published ∅ { t.ended finalEnd with state := .draining }).accepted.ranges := hactive
      exact rest hdrained h'.sameInput

theorem settled (h : P s.accepted.ranges) (h' : Settled s s') : P s'.accepted.ranges := by
  cases h' with
  | unannounced h' => exact rest h h'.sameInput
  | failed h' =>
      have hfailed : P (published ∅ { s with state := .failed }).accepted.ranges := h
      exact rest hfailed h'.sameInput

variable (hP : KeptByInsertion admissible P)
include hP

theorem accepts (h : P s.accepted.ranges) {block : PcmBlock} {n : ℕ} (h' : Accepts block s n s') :
    P s'.accepted.ranges := by
  cases h' with
  | none h' => exact rest h h'.sameInput
  | some _ _ h' =>
      have hinserted : P (s.accepting block n).accepted.ranges :=
        hP.insert (hP.forward (Nat.le_add_right _ _)) h
      exact rest hinserted h'.sameInput

theorem delivered (h : P s.accepted.ranges) {block : PcmBlock} {n : ℕ}
    (h' : Delivered block s n s') : P s'.accepted.ranges := by
  cases h' with
  | accepted _ h' =>
      cases h' with
      | base h' => exact hP.accepts h h'
      | replay _ _ h' => exact rest h h'.sameInput
  | ignored => exact h

theorem pulled (h : P s.accepted.ranges) {source : PullSource} (h' : Pulled source s s') :
    P s'.accepted.ranges := by
  cases h' with
  | settled ht h' => exact settled (rest h ht.sameInput) h'
  | exhausted _ ht _ _ h' => exact ended (rest h ht.sameInput) h'
  | reported _ ht _ _ _ h' => exact ended (rest h ht.sameInput) h'
  | unactivated ht _ h' => exact rest (rest h ht.sameInput) h'.sameInput
  | delivered ht _ _ _ _ hactive h' hsettled =>
      exact settled (hP.delivered (activated (rest h ht.sameInput) hactive) h') hsettled

theorem pushed (h : P s.accepted.ranges) {block : PcmBlock} {n : ℕ} (h' : Pushed block s n s') :
    P s'.accepted.ranges := by
  cases h' with
  | kept h' => exact rest h h'.sameInput
  | unactivated _ h' => exact rest h h'.sameInput
  | delivered _ _ _ ht h' => exact hP.delivered (activated h ht) h'

theorem seedSpans (h : P s.accepted.ranges) {spans : List WaveformSpan}
    (hspans : ∀ span ∈ spans, admissible span.sourceRange.firstFrame span.sourceRange.endFrame) :
    P (Session.seedSpans spans s).2.accepted.ranges := by
  induction spans generalizing s with
  | nil => exact h
  | cons span rest ih =>
      obtain ⟨hspan, hrest⟩ := List.forall_mem_cons.mp hspans
      unfold Session.seedSpans
      cases hone : s.seedSpan span with
      | mk status t =>
          have ht : P t.accepted.ranges := by
            rcases seedSpan_cases hone with ⟨-, u, hu, hinsert⟩ | ⟨-, ht⟩
            · have hu' : P (u.accepted.insertRange span.sourceRange.firstFrame
                  span.sourceRange.endFrame).ranges :=
                hP.insert hspan (KeptByInsertion.rest h hu)
              rw [hinsert.ranges]
              exact hu'
            · exact KeptByInsertion.rest h ht
          cases status
          case ok => exact ih ht hrest
          all_goals exact ht

theorem outcome (h : P s.accepted.ranges) {op : Op} (hseeds : SeedsOnly admissible op)
    (h' : Outcome op s s') : P s'.accepted.ranges := by
  cases h' with
  | kept _ h' => exact rest h h'.sameInput
  | announced _ mask h' h'' =>
      exact rest (rest (rest h h'.sameInput) (published_sameInput mask _)) h''.sameInput
  | unannounced _ h' h'' => exact rest (rest h h'.sameInput) h''.sameInput
  | fixed => exact h
  | @seeded result =>
      unfold seedFromResult
      cases hview : s.seedableView result with
      | error => exact h
      | ok view => exact hP.seedSpans h (hseeds result rfl view (seedableView_ok hview).1)
  | pushed h' => exact hP.pushed h h'
  | ended _ h' => exact ended h h'
  | @processed _ budget _ _ _ h' =>
      exact rest (rest h (started_sameTrack budget s).sameInput) h'.sameInput
  | pulled _ _ h' => exact hP.pulled h h'
  | @pulledProcessed _ budget _ t _ _ _ h' h'' =>
      exact rest (rest (hP.pulled h h') (started_sameTrack budget t).sameInput) h''.sameInput

/-- A property that insertions keep holds of the table in every session that a run reaches, when the
run seeds admissible ranges only. -/
theorem run {calls : List Call} (hnil : P []) (hcreated : Created s)
    (hseeds : ∀ call ∈ calls, SeedsOnly admissible call.op)
    (hrun : Session.run calls s = some s') : P s'.accepted.ranges := by
  refine @Runs.invariant _ _ _ (fun call _ => SeedsOnly admissible call.op)
    (fun s => P s.accepted.ranges) (fun call s s' h hseeds hstep => ?_) _ _ _ ?_
    (Runs.guarded_of_forall hseeds s) hrun
  · exact hP.outcome (rest h (withPlatform_sameTrack call s).sameInput) hseeds (step_outcome hstep)
  · obtain ⟨config, libm, usesWorkspace, env, -, rfl⟩ := created_eq hcreated
    exact hnil

end KeptByInsertion

/-- The table is in the order of its starts, as searching it relies on. -/
def InOrder (s : Session) : Prop := Interval.Ordered s.accepted.ranges

/-- The table is in order in every session that a run reaches. -/
theorem run_inOrder {calls : List Call} {s s' : Session} (hcreated : Created s)
    (hrun : run calls s = some s') : InOrder s' := by
  have hkept : KeptByInsertion (fun _ _ => True) Interval.Ordered :=
    ⟨fun _ h => Interval.insertMerge_ordered h _ _, fun _ => trivial⟩
  exact hkept.run List.Pairwise.nil hcreated (fun _ _ _ _ _ _ _ _ => trivial) hrun

end Session

end LibApta
