import LibApta.Tempo.State

/-!
# Onset evidence

Accepted samples are summed into onset bins of a ring. The longest run of complete bins is tracked
incrementally while input is sequential and rebuilt by a full scan after a gap, an overwrite inside
the run, or the end of input.
-/

namespace LibApta

/-- Samples a bin must hold to be complete. -/
def expectedBinSamples (framesPerBin : ℕ) (endOfInput : Option ℕ) (binIndex : ℕ) : ℕ :=
  if uint64Max / framesPerBin < binIndex then 0
  else
    let first := binIndex * framesPerBin
    match endOfInput with
    | none => framesPerBin
    | some finalEnd =>
        if first + framesPerBin ≤ finalEnd then framesPerBin
        else if finalEnd ≤ first then 0
        else finalEnd - first

/-- The bin of an index, when the ring still holds it. -/
def OnsetRing.bin (ring : OnsetRing) (capacity binIndex : ℕ) : Option OnsetBin :=
  match ring (binIndex % capacity) with
  | some bin => if bin.binIndex = binIndex then some bin else none
  | none => none

/-- The ring holds the bin, with all its samples. -/
def OnsetRing.binComplete (ring : OnsetRing) (capacity framesPerBin : ℕ) (endOfInput : Option ℕ)
    (binIndex : ℕ) : Bool :=
  match ring.bin capacity binIndex with
  | some bin =>
      decide (expectedBinSamples framesPerBin endOfInput binIndex ≠ 0) &&
        decide (bin.sampleCount = expectedBinSamples framesPerBin endOfInput binIndex)
  | none => false

/-- Mean magnitude of a bin; zero when the ring does not hold it. -/
def OnsetRing.energy (ring : OnsetRing) (capacity binIndex : ℕ) : ℚ :=
  match ring.bin capacity binIndex with
  | some bin =>
      if bin.sampleCount = 0 then 0
      else fdiv (f32 bin.sumAbsolute) (fmul (f32 bin.sampleCount) 32768)
  | none => 0

/-- Rise of energy from the bin before; the first bin of the evidence rises from zero. -/
def OnsetRing.flux (ring : OnsetRing) (capacity binIndex evidenceFirst : ℕ) : ℚ :=
  let current := ring.energy capacity binIndex
  let previous := if evidenceFirst < binIndex then ring.energy capacity (binIndex - 1) else 0
  if previous < current then fsub current previous else 0

/-! ## The evidence interval -/

/-- The largest index of a complete bin the ring holds. -/
def maximumCompleteBin (ring : OnsetRing) (capacity framesPerBin : ℕ) (endOfInput : Option ℕ) :
    Option ℕ :=
  (List.range capacity).foldl (fun best slot =>
    match ring slot with
    | some bin =>
        if ring.binComplete capacity framesPerBin endOfInput bin.binIndex then
          match best with
          | none => some bin.binIndex
          | some maximum => if maximum < bin.binIndex then some bin.binIndex else best
        else best
    | none => best) none

/-- One step of the scan for the first longest run: the best run so far and the start of the run
being scanned. -/
def scanRun (complete : Bool) (index : ℕ) (scan : (ℕ × ℕ) × Option ℕ) : (ℕ × ℕ) × Option ℕ :=
  match complete, scan.2 with
  | true, none => (scan.1, some index)
  | true, some first => (scan.1, some first)
  | false, some first =>
      (if scan.1.2 - scan.1.1 < index - first then (first, index) else scan.1, none)
  | false, none => scan

/-- The first longest run of complete bins in a window of indices. -/
def longestRun (complete : ℕ → Bool) (minimum maximum : ℕ) : ℕ × ℕ :=
  let scan := (List.range' minimum (maximum + 1 - minimum)).foldl
    (fun scan index => scanRun (complete index) index scan) ((0, 0), none)
  (scanRun false (maximum + 1) scan).1

/-- The longest run of complete bins in the ring, by a full scan. -/
def scanEvidence (ring : OnsetRing) (capacity framesPerBin : ℕ) (endOfInput : Option ℕ) :
    Option (ℕ × ℕ) :=
  match maximumCompleteBin ring capacity framesPerBin endOfInput with
  | none => none
  | some maximum =>
      let run := longestRun (ring.binComplete capacity framesPerBin endOfInput)
        (if capacity - 1 ≤ maximum then maximum - (capacity - 1) else 0) maximum
      if run.2 ≤ run.1 then none else some run

/-- The evidence run: the cached one while it is trustworthy, else the result of a full scan, which
then becomes the cache. -/
def findEvidence (capacity framesPerBin : ℕ) (endOfInput : Option ℕ) (ring : OnsetRing)
    (cache : EvidenceCache) : Option (ℕ × ℕ) × EvidenceCache :=
  if endOfInput = none ∧ cache.valid ∧ ¬cache.dirty then (some (cache.first, cache.past), cache)
  else
    match scanEvidence ring capacity framesPerBin endOfInput with
    | none => (none, { cache with valid := false, dirty := false })
    | some run => (some run, ⟨run.1, run.2, true, false⟩)

/-- The evidence is not what a finished search was run on: a new search is due. -/
def evidenceMoved (endOfInput : Option ℕ) (searched current : ℕ × ℕ) : Bool :=
  decide (current.1 < searched.1) || decide (current.2 < searched.2) ||
    (endOfInput.isSome && (decide (current.1 ≠ searched.1) || decide (current.2 ≠ searched.2))) ||
    decide (searched.2 + s4RefreshMinNewBins ≤ current.2)

/-- A bin is about to be overwritten. -/
def EvidenceCache.noteReplaced (cache : EvidenceCache) (replaced : ℕ) : EvidenceCache :=
  if !cache.valid || cache.dirty || decide (replaced < cache.first) ||
      decide (cache.past ≤ replaced) then cache
  else if replaced = cache.first then
    { cache with
      first := cache.first + 1
      valid := if cache.first + 1 = cache.past then false else cache.valid }
  else { cache with dirty := true }

/-- A bin has just become complete. -/
def EvidenceCache.noteComplete (cache : EvidenceCache) (completed : ℕ) : EvidenceCache :=
  if cache.dirty then cache
  else if !cache.valid then ⟨completed, completed + 1, true, cache.dirty⟩
  else if completed = cache.past then { cache with past := cache.past + 1 }
  else if completed + 1 = cache.first then { cache with first := completed }
  else if completed < cache.first ∨ cache.past ≤ completed then { cache with dirty := true }
  else cache

/-! ## Accepting samples -/

/-- Add one sample to its bin of a ring, overwriting an older bin in the same slot. -/
def addOnsetSample (capacity framesPerBin : ℕ) (endOfInput : Option ℕ) (ring : OnsetRing)
    (cache : EvidenceCache) (sourceFrame : ℕ) (sample : ℚ) :
    Status × OnsetRing × EvidenceCache :=
  let binIndex := sourceFrame / framesPerBin
  if uint32Max < binIndex then (.error .limitExceeded, ring, cache)
  else
    let slot := binIndex % capacity
    let (bin, cache) : OnsetBin × EvidenceCache := match ring slot with
      | some bin =>
          if bin.binIndex = binIndex then (bin, cache)
          else (⟨binIndex, 0, 0⟩, cache.noteReplaced bin.binIndex)
      | none => (⟨binIndex, 0, 0⟩, cache)
    if bin.sampleCount = uint32Max then (.error .limitExceeded, ring.set slot bin, cache)
    else
      let bin : OnsetBin :=
        { bin with
          sumAbsolute := bin.sumAbsolute + scaledMagnitude 32768 sample
          sampleCount := bin.sampleCount + 1 }
      (.ok, ring.set slot bin,
        if bin.sampleCount = expectedBinSamples framesPerBin endOfInput binIndex then
          cache.noteComplete binIndex
        else cache)

namespace S4State

/-- Some feature of the local estimator was requested. -/
def enabled (features : FeatureMask) : Bool := decide (s4Features ∩ features ≠ ∅)

/-- Allocate the ring and the flux array on first use. A refused flux array leaves the ring
allocated, and the next call does not ask again. -/
def prepare (features : FeatureMask) (s : S4State) (env : Environment) :
    Status × S4State × Environment :=
  if !enabled features || s.binsAllocated then (.ok, s, env)
  else
    match env.allocate with
    | (false, env) => (.error .outOfMemory, s, env)
    | (true, env) =>
        match env.allocate with
        | (false, env) => (.error .outOfMemory, { s with binsAllocated := true }, env)
        | (true, env) => (.ok, { s with binsAllocated := true, fluxAllocated := true }, env)

/-- Add an accepted sample to the onset evidence. -/
def processSample (endOfInput : Option ℕ) (s : S4State) (sourceFrame : ℕ) (sample : ℚ) :
    Status × S4State :=
  if !s.binsAllocated then (.error .internal, s)
  else
    match addOnsetSample onsetBinCapacity onsetFramesPerBin endOfInput s.ring s.evidence
        sourceFrame sample with
    | (status, ring, evidence) => (status, { s with ring := ring, evidence := evidence })

/-- The evidence run of the local estimator. -/
def findEvidence (endOfInput : Option ℕ) (s : S4State) : Option (ℕ × ℕ) × S4State :=
  match LibApta.findEvidence onsetBinCapacity onsetFramesPerBin endOfInput s.ring s.evidence with
  | (run, evidence) => (run, { s with evidence := evidence })

end S4State

end LibApta
