import LibApta.Core.Types
import LibApta.Core.Environment
import LibApta.Lib.Intervals
import LibApta.Waveform.Accumulators

/-!
# Accepted frames

The sorted table of the frame ranges a session has accepted, with two derived ends: the end of the
run that starts at frame zero, and the end of the last range. Pushing looks for the longest prefix
of a block that overlaps nothing; pulling looks for the first missing piece of a target.
-/

namespace LibApta

open LibApta.Interval

/-- The accepted-range table of a session. -/
structure AcceptedRanges where
  ranges : List (Interval ℕ)
  capacity : ℕ
  greatestEnd : ℕ
  maximumEnd : ℕ
deriving DecidableEq

namespace AcceptedRanges

/-- An empty table. -/
def empty : AcceptedRanges := ⟨[], 0, 0, 0⟩

/-- The accepted frames. -/
def frames (accepted : AcceptedRanges) : Set ℕ := support accepted.ranges

/-- Make room for `needed` ranges. -/
def ensureCapacity (accepted : AcceptedRanges) (needed : ℕ) (env : Environment) :
    Status × AcceptedRanges × Environment :=
  if needed ≤ accepted.capacity then (.ok, accepted, env)
  else
    match grownCapacity (if accepted.capacity = 0 then 8 else accepted.capacity) needed 33 with
    | none => (.error .limitExceeded, accepted, env)
    | some capacity =>
        match env.allocate with
        | (false, env) => (.error .outOfMemory, accepted, env)
        | (true, env) => (.ok, { accepted with capacity := capacity }, env)

/-- Recompute the two derived ends. -/
def refreshEnds (accepted : AcceptedRanges) : AcceptedRanges :=
  { accepted with
    greatestEnd := contiguousEnd 0 accepted.ranges
    maximumEnd := lastEnd 0 accepted.ranges }

/-- Insert a range, merging it with the neighbours it touches, and refresh the ends. -/
def insertRange (accepted : AcceptedRanges) (firstFrame endFrame : ℕ) : AcceptedRanges :=
  refreshEnds { accepted with ranges := insertMerge firstFrame endFrame accepted.ranges }

/-- The frames of a block that precede the first overlap with an accepted range, and whether the
overlap is at the very start. -/
def nonoverlappingPrefix (firstFrame requestedFrames : ℕ) : List (Interval ℕ) → ℕ × Bool
  | [] => (requestedFrames, false)
  | range :: rest =>
      if range.hi ≤ firstFrame then nonoverlappingPrefix firstFrame requestedFrames rest
      else if range.lo ≤ firstFrame then (0, true)
      else if range.lo < firstFrame + requestedFrames then (range.lo - firstFrame, false)
      else (requestedFrames, false)

/-- The first missing piece of a target range. -/
def findMissingRange (accepted : AcceptedRanges) (firstFrame endFrame : ℕ) : Option (ℕ × ℕ) :=
  firstGap firstFrame endFrame accepted.ranges

/-- Making room keeps the ranges and their ends, whether or not it is refused. -/
theorem ensureCapacity_cases {accepted table : AcceptedRanges} {needed : ℕ}
    {env env' : Environment} {status : Status}
    (h : accepted.ensureCapacity needed env = (status, table, env')) :
    (∃ capacity, table = { accepted with capacity := capacity }) ∧
      (status = .ok ∨ status = .error .limitExceeded ∨ status = .error .outOfMemory) := by
  unfold ensureCapacity at h
  by_cases hfits : needed ≤ accepted.capacity
  · rw [if_pos hfits] at h
    simp only [Prod.mk.injEq] at h
    obtain ⟨rfl, rfl, -⟩ := h
    exact ⟨⟨_, rfl⟩, .inl rfl⟩
  rw [if_neg hfits] at h
  split at h
  · simp only [Prod.mk.injEq] at h
    obtain ⟨rfl, rfl, -⟩ := h
    exact ⟨⟨_, rfl⟩, .inr (.inl rfl)⟩
  split at h <;> simp only [Prod.mk.injEq] at h <;> obtain ⟨rfl, rfl, -⟩ := h
  · exact ⟨⟨_, rfl⟩, .inr (.inr rfl)⟩
  · exact ⟨⟨_, rfl⟩, .inl rfl⟩

/-- The table has room for one more range while it holds fewer than half of 32 bits. -/
def HasRoom (accepted : AcceptedRanges) : Prop := accepted.ranges.length ≤ uint32Max / 2

/-- With room and memory the table grows. -/
theorem ensureCapacity_granted {accepted : AcceptedRanges} {env : Environment}
    (hroom : accepted.HasRoom) (hgranting : env.Granting) :
    ∃ capacity env', env'.Granting ∧ accepted.ensureCapacity (accepted.ranges.length + 1) env =
      (.ok, { accepted with capacity := capacity }, env') := by
  unfold ensureCapacity
  split_ifs with hfits hzero
  · exact ⟨_, env, hgranting, rfl⟩
  all_goals
    obtain ⟨grown, hgrown⟩ := @grownCapacity_isSome
      (if accepted.capacity = 0 then 8 else accepted.capacity) _ 32
      (Nat.succ_le_succ hroom) (by
        unfold HasRoom at hroom
        simp only [uint32Max] at hroom
        split_ifs <;> omega)
    obtain ⟨hgranted, hrest⟩ := hgranting.allocate
    simp only [hzero, if_true, if_false] at hgrown
    rw [hgrown]
    refine ⟨grown, _, hrest, ?_⟩
    simp only
    rw [← Prod.mk.eta (p := env.allocate), hgranted]

/-! ## The representation invariant -/

/-- The table is sorted, its ranges are non-empty and no two of them touch, and the two ends are
those of the run from frame zero and of the union. -/
structure WellFormed (accepted : AcceptedRanges) : Prop where
  separated : Separated accepted.ranges
  greatestEnd_eq : accepted.greatestEnd = contiguousEnd 0 accepted.ranges
  maximumEnd_eq : accepted.maximumEnd = lastEnd 0 accepted.ranges

namespace WellFormed

theorem empty : WellFormed empty := ⟨separated_nil, rfl, rfl⟩

variable {accepted : AcceptedRanges}

/-- Every frame below the greatest end is accepted, and the greatest end is not. -/
theorem greatestEnd_spec (h : accepted.WellFormed) :
    (∀ frame < accepted.greatestEnd, frame ∈ accepted.frames) ∧
      accepted.greatestEnd ∉ accepted.frames := by
  obtain ⟨-, hcov, hout⟩ := contiguousEnd_spec h.separated 0
  rw [← h.greatestEnd_eq] at hcov hout
  exact ⟨fun frame hlt => hcov frame (Nat.zero_le _) hlt, hout⟩

/-- The maximum end bounds the accepted frames. -/
theorem lt_maximumEnd (h : accepted.WellFormed) {frame : ℕ} (hf : frame ∈ accepted.frames) :
    frame < accepted.maximumEnd := by
  rw [h.maximumEnd_eq]
  exact lt_lastEnd h.separated hf

/-- The maximum end is attained: its predecessor is accepted unless nothing is. -/
theorem maximumEnd_attained (h : accepted.WellFormed) :
    accepted.maximumEnd = 0 ∨ accepted.maximumEnd - 1 ∈ accepted.frames := by
  rw [h.maximumEnd_eq]
  rcases List.eq_nil_or_concat accepted.ranges with hnil | ⟨init, last, hlast⟩
  · exact .inl (by simp [hnil, lastEnd])
  · right
    have hmem : last ∈ accepted.ranges := by rw [hlast]; simp
    have hne := h.separated.1 last hmem
    refine ⟨last, hmem, ?_⟩
    have hend : lastEnd 0 accepted.ranges = last.hi := by rw [hlast]; simp [lastEnd]
    omega

end WellFormed

/-- Inserting a non-empty range disjoint from the table keeps the table well formed and adds
exactly the frames of the range. -/
theorem insertRange_spec {accepted : AcceptedRanges} {firstFrame endFrame : ℕ}
    (h : accepted.WellFormed) (hne : firstFrame < endFrame)
    (hdisj : ∀ frame, firstFrame ≤ frame → frame < endFrame → frame ∉ accepted.frames) :
    (accepted.insertRange firstFrame endFrame).WellFormed ∧
      ∀ frame, frame ∈ (accepted.insertRange firstFrame endFrame).frames ↔
        frame ∈ accepted.frames ∨ firstFrame ≤ frame ∧ frame < endFrame := by
  have hsep : ∀ r ∈ accepted.ranges, r.hi ≤ firstFrame ∨ endFrame ≤ r.lo := by
    intro r hr
    have hrne := h.separated.1 r hr
    by_contra hover
    have hin : max r.lo firstFrame ∈ accepted.frames := ⟨r, hr, by omega, by omega⟩
    exact hdisj (max r.lo firstFrame) (by omega) (by omega) hin
  obtain ⟨hs, hmem⟩ := insertMerge_spec h.separated hne hsep
  exact ⟨⟨hs, rfl, rfl⟩, hmem⟩

/-- The accepted prefix is no longer than the block. -/
theorem nonoverlappingPrefix_le (firstFrame requested : ℕ) (ranges : List (Interval ℕ)) :
    (nonoverlappingPrefix firstFrame requested ranges).1 ≤ requested := by
  induction ranges with
  | nil => exact le_rfl
  | cons range rest ih =>
      unfold nonoverlappingPrefix
      split_ifs
      · exact ih
      · exact Nat.zero_le _
      · simp only
        omega
      · exact le_rfl

/-- The accepted prefix of a block: either nothing because the first frame is taken, or a non-empty
prefix of frames none of which is taken. -/
theorem nonoverlappingPrefix_spec {ranges : List (Interval ℕ)} (hs : Ordered ranges)
    (firstFrame : ℕ) {requested : ℕ} (hpos : 0 < requested) :
    (nonoverlappingPrefix firstFrame requested ranges = (0, true) ∧
        firstFrame ∈ support ranges) ∨
      ((nonoverlappingPrefix firstFrame requested ranges).2 = false ∧
        0 < (nonoverlappingPrefix firstFrame requested ranges).1 ∧
        (nonoverlappingPrefix firstFrame requested ranges).1 ≤ requested ∧
        ∀ frame, firstFrame ≤ frame →
          frame < firstFrame + (nonoverlappingPrefix firstFrame requested ranges).1 →
            frame ∉ support ranges) := by
  induction ranges with
  | nil => exact .inr ⟨rfl, hpos, le_rfl, by simp⟩
  | cons range rest ih =>
      obtain ⟨hafter, hrest⟩ := List.pairwise_cons.mp hs
      -- Later ranges do not start before this one.
      have hlater : ∀ frame, frame ∈ support rest → range.lo ≤ frame := by
        rintro frame ⟨s, hmem, hlo, -⟩
        exact (hafter s hmem).trans hlo
      unfold nonoverlappingPrefix
      split_ifs with hpast hconflict hlt
      · rcases ih hrest with ⟨heq, hmem⟩ | ⟨h₁, h₂, h₃, hout⟩
        · exact .inl ⟨heq, mem_support_cons.mpr (.inr hmem)⟩
        · refine .inr ⟨h₁, h₂, h₃, fun frame hf hf' hmem => ?_⟩
          rcases mem_support_cons.mp hmem with ⟨-, hhi⟩ | hmem
          · omega
          · exact hout frame hf hf' hmem
      · exact .inl ⟨rfl, mem_support_cons.mpr (.inl ⟨hconflict, not_le.mp hpast⟩)⟩
      · refine .inr ⟨rfl, ?_, ?_, fun frame hf hf' hmem => ?_⟩
        · show 0 < range.lo - firstFrame
          omega
        · show range.lo - firstFrame ≤ requested
          omega
        · have hf'' : frame < firstFrame + (range.lo - firstFrame) := hf'
          rcases mem_support_cons.mp hmem with ⟨hlo, -⟩ | hmem
          · omega
          · have := hlater frame hmem
            omega
      · refine .inr ⟨rfl, hpos, le_rfl, fun frame hf hf' hmem => ?_⟩
        have hf'' : frame < firstFrame + requested := hf'
        rcases mem_support_cons.mp hmem with ⟨hlo, -⟩ | hmem
        · omega
        · have := hlater frame hmem
          omega

end AcceptedRanges

end LibApta
