import LibApta.Session.Independence

/-!
# The length of a track

A session that is not seeded has accepted nothing beyond the length it knows, and once its input has
ended it knows the length. Its results are snapshots that were taken in such a state.
-/

namespace LibApta

namespace Session

/-- The accounts of a session whose length is known, if it is, to hold what is accepted. -/
structure Measured (signal : ℕ → ℚ) (s : Session) : Prop where
  accounted : Accounted signal s
  config : configIsValid s.config = true
  fresh : s.state = .created → s.accepted.maximumEnd = 0 ∧ s.endOfInput = none
  total : ∀ total ∈ s.config.totalFrames, s.accepted.maximumEnd ≤ total
  known : ∀ finalEnd ∈ s.endOfInput, s.config.totalFrames = some finalEnd

namespace Measured

variable {signal : ℕ → ℚ} {s s' : Session}

/-- Accepting a block that ends within the known length. -/
theorem accepting (h : Measured signal s) {block : PcmBlock} {n : ℕ} (hstate : s.state ≠ .created)
    (hpos : 0 < n)
    (hle : n ≤ (AcceptedRanges.nonoverlappingPrefix block.firstFrame
      (min block.frameCount maxPushFrames) s.accepted.ranges).1)
    (hend : ∀ finalEnd ∈ s.endOfInput, block.firstFrame + block.frameCount ≤ finalEnd)
    (htotal : ∀ total ∈ s.config.totalFrames, block.firstFrame + block.frameCount ≤ total)
    (hsignal : carries signal block n) : Measured signal (s.accepting block n) := by
  obtain ⟨hcount, -, hwell, hframes⟩ := h.accounted.accepting_table hpos hle
  refine ⟨h.accounted.accepting hpos hle hend hsignal, h.config, fun hfresh => absurd hfresh hstate,
    fun total hmem => ?_, h.known⟩
  rcases hwell.maximumEnd_attained with hzero | hlast
  · exact hzero.le.trans (Nat.zero_le _)
  rw [hframes] at hlast
  rcases hlast with hold | ⟨-, hhi⟩
  · have := h.accounted.table.lt_maximumEnd hold
    have := h.total total hmem
    omega
  · have := htotal total hmem
    omega

/-- Every elementary change of the track keeps the length. -/
theorem invariant (signal : ℕ → ℚ) : TrackInvariant signal (Measured signal) where
  same h h' := by
    refine ⟨h.accounted.same h', h'.config ▸ h.config, fun hfresh => ?_, ?_, ?_⟩
    · rw [h'.maximumEnd, h'.endOfInput]
      exact h.fresh (h'.state.symm.trans hfresh)
    · rw [h'.config, h'.maximumEnd]
      exact h.total
    · rw [h'.config, h'.endOfInput]
      exact h.known
  published _ h :=
    ⟨⟨h.accounted.table, h.accounted.accounts⟩, h.config, h.fresh, h.total, h.known⟩
  moved hstate h := ⟨⟨h.accounted.table, h.accounted.accounts⟩, h.config,
    fun hfresh => absurd hfresh hstate, h.total, h.known⟩
  forgotten h := ⟨⟨h.accounted.table, h.accounted.accounts.forget⟩, h.config, h.fresh, h.total, h.known⟩
  fixed h hfresh _ := by
    obtain ⟨hzero, hopen⟩ := h.fresh hfresh
    refine ⟨⟨h.accounted.table, h.accounted.accounts⟩, h.config, h.fresh, fun total _ => ?_,
      fun finalEnd hmem => ?_⟩
    · exact hzero.le.trans (Nat.zero_le _)
    · exact absurd (hopen ▸ hmem) (Option.not_mem_none _)
  ended h hstate hopen _ hend := by
    refine ⟨h.accounted.ended hopen hend, h.config, fun hfresh => absurd hfresh hstate, ?_, ?_⟩
    · intro total hmem
      obtain rfl := Option.some.inj (Option.mem_def.mp hmem)
      exact hend
    · intro last hmem
      exact Option.mem_def.mp hmem
  accepting h hstate hpos hle hend htotal hsignal := h.accepting hstate hpos hle hend htotal hsignal
  chunks h hwhole hrun := ⟨(h.accounted.chunks hwhole hrun).1, h.config, h.fresh, h.total, h.known⟩

theorem created (signal : ℕ → ℚ) (h : Created s) : Measured signal s := by
  have haccounted := Accounted.created signal h
  obtain ⟨config, libm, usesWorkspace, env, hvalid, rfl⟩ := created_eq h
  exact ⟨haccounted, hvalid, fun _ => ⟨rfl, rfl⟩, fun _ _ => Nat.zero_le _,
    fun _ hmem => absurd hmem (Option.not_mem_none _)⟩

/-- The frames of a marked column, cut at the end of the input: there are some, and none of them is
beyond the known length. -/
theorem marked_frames (h : Measured signal s) {columnIndex : ℕ} {acc : Accumulator}
    (hacc : s.overview.column columnIndex = some acc) (hmark : acc.complete = true) :
    columnIndex * s.framesPerColumn <
        clipToEnd s.endOfInput ((columnIndex + 1) * s.framesPerColumn) ∧
      ∀ total ∈ s.config.totalFrames,
        clipToEnd s.endOfInput ((columnIndex + 1) * s.framesPerColumn) ≤ total := by
  obtain ⟨⟨frame, hframe⟩, hall⟩ := (h.accounted.countedOnce.full columnIndex acc hacc).mp
    (h.accounted.accounts.sound columnIndex acc hacc hmark)
  rw [ownFrames, Finset.mem_Ico, ← Nat.add_one_mul] at hframe
  refine ⟨hframe.1.trans_lt hframe.2, fun total hmem => ?_⟩
  -- The last frame of the column is accepted.
  have hlast : clipToEnd s.endOfInput ((columnIndex + 1) * s.framesPerColumn) - 1 ∈
      ownFrames s.framesPerColumn s.endOfInput columnIndex := by
    rw [ownFrames, Finset.mem_Ico, ← Nat.add_one_mul]
    omega
  have hbelow := h.accounted.table.lt_maximumEnd (hall _ hlast).1
  have hwithin := h.total total hmem
  omega

/-- The peaks of a marked column are in order. -/
theorem marked_peaks (h : Measured signal s) {columnIndex : ℕ} {acc : Accumulator}
    (hacc : s.overview.column columnIndex = some acc) (hmark : acc.complete = true) :
    acc.minimum ≤ acc.maximum := by
  have hcounted := h.accounted.countedOnce
  have hsum := hcounted.summarised columnIndex acc hacc
  obtain ⟨⟨frame, hown⟩, hall⟩ := (hcounted.full columnIndex acc hacc).mp
    (h.accounted.accounts.sound columnIndex acc hacc hmark)
  have hin := hall frame hown
  have hframe : frame ∈ columnFrames s.framesPerColumn columnIndex
      (s.accepted.frames \ pendingFrames s.queue) :=
    (mem_columnFrames s.framesPerColumn_pos).mpr
      ⟨((mem_ownFrames s.framesPerColumn_pos).mp hown).1, hin⟩
  exact (hsum.minimum_le frame hframe).trans (hsum.le_maximum frame hframe)

end Measured

/-! ## Results -/

/-- A measured session whose results are snapshots of measured sessions. -/
structure Pictured (signal : ℕ → ℚ) (s : Session) : Prop where
  measured : Measured signal s
  pictures : ∀ result ∈ s.results, ∃ t mask, Measured signal t ∧ result = t.snapshot mask

namespace Pictured

theorem invariant (signal : ℕ → ℚ) : TrackInvariant signal (Pictured signal) where
  same h h' := ⟨(Measured.invariant signal).same h.measured h', h'.results ▸ h.pictures⟩
  published {s} mask h := by
    refine ⟨(Measured.invariant signal).published mask h.measured, fun result hresult => ?_⟩
    rcases List.mem_cons.mp hresult with rfl | hold
    · exact ⟨s, mask, h.measured, rfl⟩
    · exact h.pictures result hold
  moved hstate h := ⟨(Measured.invariant signal).moved hstate h.measured, h.pictures⟩
  forgotten h := ⟨(Measured.invariant signal).forgotten h.measured, h.pictures⟩
  fixed h hfresh hknown := ⟨(Measured.invariant signal).fixed h.measured hfresh hknown, h.pictures⟩
  ended h hstate hopen htotal hend :=
    ⟨(Measured.invariant signal).ended h.measured hstate hopen htotal hend, h.pictures⟩
  accepting h hstate hpos hle hend htotal hsignal :=
    ⟨h.measured.accepting hstate hpos hle hend htotal hsignal, h.pictures⟩
  chunks h hwhole hrun :=
    ⟨(Measured.invariant signal).chunks h.measured hwhole hrun, h.pictures⟩

theorem created {signal : ℕ → ℚ} {s : Session} (h : Created s) : Pictured signal s := by
  have hmeasured := Measured.created signal h
  refine ⟨hmeasured, fun result hresult => ?_⟩
  obtain ⟨config, libm, usesWorkspace, env, hvalid, rfl⟩ := created_eq h
  obtain rfl := List.mem_singleton.mp hresult
  exact ⟨new config libm usesWorkspace env, ∅, ⟨⟨hmeasured.accounted.table,
    hmeasured.accounted.accounts⟩, hvalid, hmeasured.fresh, hmeasured.total, hmeasured.known⟩, rfl⟩

end Pictured

end Session

end LibApta
