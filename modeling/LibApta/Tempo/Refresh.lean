import LibApta.Lib.TailCall
import LibApta.Tempo.Estimate

/-!
# Refreshing the local estimate

A refresh finds the evidence run, decides whether new evidence is worth a new lag search, and runs
the search in batches of four lags, one batch for each scheduler step. The search keeps its flux and
its argmax between process calls. Its last step commits an estimate; evidence that moved meanwhile
leaves the refresh pending, and a pending refresh with steps left calls itself again.

`refreshPass` is the body of the function up to that tail call, `refresh` the function.
-/

namespace LibApta

namespace S4State

/-! ## One pass -/

/-- What a gate says of the current evidence. -/
inductive Gate where
  | skip
  | reuse
  | estimate
deriving DecidableEq

/-- State of the published tempo. -/
def tempoState (s : S4State) : FeatureState :=
  match s.estimate with
  | some estimate => estimate.tempo.state
  | none => .absent

/-- Decide whether an evidence run that ends at `evidenceEnd` is worth a new search. -/
def gate (ctx : AnalysisContext) (s : S4State) (evidenceEnd : ℕ) : Gate :=
  if evidenceEnd < s.refreshedEvidenceEnd then .estimate
  else if (ctx.endOfInput.isSome ∧ s.tempoState ≠ .final) ∨
      s.refreshedEvidenceEnd + s4RefreshMinNewBins ≤ evidenceEnd then .estimate
  else if s.refreshedEvidenceEnd = 0 then .skip
  else .reuse

/-- Evidence that moved backwards forgets how far the last search reached. -/
def forgetRefreshed (s : S4State) (evidenceEnd : ℕ) : S4State :=
  if evidenceEnd < s.refreshedEvidenceEnd then { s with refreshedEvidenceEnd := 0 } else s

/-- The lags of the slowest and the fastest tempo, cut to half of the evidence. -/
def lagBounds (sampleRate runCount : ℕ) : Option (ℕ × ℕ) :=
  let minimum := max
    ((sampleRate * 60 + 300 * onsetFramesPerBin - 1) / (300 * onsetFramesPerBin) % 4294967296) 1
  let maximum := sampleRate * 60 / (40 * onsetFramesPerBin) % 4294967296
  let maximum := if runCount ≤ maximum * 2 then runCount / 2 else maximum
  if maximum < minimum then none else some (minimum, maximum)

/-- A locked grid drops the search and becomes final while the session drains. -/
def refreshLocked (ctx : AnalysisContext) (s : S4State) : S4State :=
  let s := { s with sweep := none, pending := false }
  match s.estimate with
  | some estimate =>
      if ctx.drains ∧ estimate.tempo.state ≠ .final then
        { s with
          estimate := some { estimate with
            tempo := { estimate.tempo with state := .final }
            segment := { estimate.segment with state := .final } }
          mutationSerial := s.mutationSerial + 1 }
      else s
  | none => s

/-- A search over an evidence run that has considered no lag. -/
def newSweep (run bounds : ℕ × ℕ) : LagSweep := ⟨run.1, run.2, bounds.1, bounds.2, bounds.1, []⟩

/-- Fill the flux of a run and start a search over it. -/
def startSweep (s : S4State) (run bounds : ℕ × ℕ) : S4State :=
  { s with
    flux := (List.range' run.1 (run.2 - run.1)).map fun index =>
      s.ring.flux onsetBinCapacity index run.1
    sweep := some (newSweep run bounds)
    pending := false }

/-- Correlate the next batch of lags. -/
def sweepBatch (ctx : AnalysisContext) (flux : List ℚ) (sweep : LagSweep) : LagSweep :=
  let lastLag := min (sweep.nextLag + s4LagsPerStep - 1) sweep.maximumLag
  { sweep with
    best := (List.range' sweep.nextLag (lastLag + 1 - sweep.nextLag)).foldl
      (considerLag ctx flux) sweep.best
    nextLag := lastLag + 1 }

/-- Run batches until the search is complete, the steps are used up or the deadline has passed. The
fuel is the number of lags left. -/
def sweepLoop (ctx : AnalysisContext) (flux : List ℚ) (limit : ℕ) :
    ℕ → LagSweep → ℕ → Environment → LagSweep × ℕ × Environment
  | 0, sweep, steps, env => (sweep, steps, env)
  | fuel + 1, sweep, steps, env =>
      if sweep.nextLag ≤ sweep.maximumLag ∧ steps < limit then
        let sweep := sweepBatch ctx flux sweep
        match env.deadlinePassed with
        | (true, env) => (sweep, steps + 1, env)
        | (false, env) => sweepLoop ctx flux limit fuel sweep (steps + 1) env
      else (sweep, steps, env)

/-- Finish a search: refine and cache its lags, and note whether the evidence moved meanwhile. -/
def finishSweep (ctx : AnalysisContext) (sweep : LagSweep) (s : S4State) : S4State :=
  let peaks := sweep.best.map fun peak =>
    { peak with offset := refineLag s.flux peak.lag tempoRefineMaxBeats }
  let s := { s with
    cachedPeaks := peaks
    refreshedEvidenceEnd := sweep.evidenceEnd
    sweep := none
    pending := false }
  match s.findEvidence ctx.endOfInput with
  | (some current, s) =>
      if evidenceMoved ctx.endOfInput (sweep.evidenceFirst, sweep.evidenceEnd) current then
        { s with pending := true }
      else s
  | (none, s) => s

/-- Cache the ambiguity, the phase and the grid fit of a finished search. -/
def cacheDerived (ctx : AnalysisContext) (bounds : ℕ × ℕ) (s : S4State) : S4State :=
  match s.cachedPeaks with
  | [] => s
  | top :: _ =>
      { s with
        cachedAmbiguity :=
          familyAmbiguity top.score (familyBest ctx s.flux top.lag bounds.1 bounds.2)
        cachedPhase := bestPhase s.flux top.lag
        cachedGridFit := gridFit s.flux top.lag (bestPhase s.flux top.lag) }

/-- Publish the cached lags over an evidence run. `bounds` are the lag bounds of the search that has
just produced them, absent when they are reused. The flag tells whether an estimate was committed. -/
def estimateReady (ctx : AnalysisContext) (run : ℕ × ℕ) (bounds : Option (ℕ × ℕ)) (s : S4State) :
    Status × Bool × S4State :=
  if buildCandidates ctx s.cachedPeaks = [] then (.ok, false, s)
  else
    let s := match bounds with
      | some bounds => cacheDerived ctx bounds s
      | none => s
    match commitEstimate ctx
        ⟨run, s.cachedPeaks, s.cachedPhase, s.cachedAmbiguity, s.cachedGridFit⟩ s with
    | (.ok, s) => (.ok, true, s)
    | (status, s) => (status, false, s)

/-- The arguments of a refresh call: the steps it may use, the steps its callers have used, the
estimator and the environment. -/
structure RefreshCall where
  limit : ℕ
  used : ℕ
  state : S4State
  env : Environment

/-- The result of a refresh. -/
structure RefreshResult where
  status : Status
  steps : ℕ
  state : S4State
  env : Environment

/-- End a pass that has used `steps` and has published or not: a pending refresh that has published
calls itself when steps are left. -/
def finishPass (call : RefreshCall) (steps : ℕ) (outcome : Status × Bool × S4State)
    (env : Environment) : RefreshCall ⊕ RefreshResult :=
  match outcome with
  | (status, published, s) =>
      if published ∧ s.pending then
        if steps < call.limit then .inl ⟨call.limit - steps, call.used + steps, s, env⟩
        else .inr ⟨.moreWork, call.used + steps, s, env⟩
      else .inr ⟨status, call.used + steps, s, env⟩

/-- Resume the active search after `steps` steps of this pass. -/
def resumeSweep (ctx : AnalysisContext) (call : RefreshCall) (steps : ℕ) (sweep : LagSweep)
    (s : S4State) (env : Environment) : RefreshCall ⊕ RefreshResult :=
  match sweepLoop ctx s.flux call.limit (sweep.maximumLag + 1 - sweep.nextLag) sweep steps env with
  | (sweep, steps, env) =>
      if sweep.nextLag ≤ sweep.maximumLag ∨ call.limit ≤ steps then
        .inr ⟨.moreWork, call.used + steps, { s with sweep := some sweep }, env⟩
      else
        finishPass call (steps + 1)
          (estimateReady ctx (sweep.evidenceFirst, sweep.evidenceEnd)
            (some (sweep.minimumLag, sweep.maximumLag)) (finishSweep ctx sweep s)) env

/-- A pass over an evidence run with no search active. -/
def refreshRun (ctx : AnalysisContext) (call : RefreshCall) (run : ℕ × ℕ) (s : S4State) :
    RefreshCall ⊕ RefreshResult :=
  let idle (s : S4State) : RefreshCall ⊕ RefreshResult := .inr ⟨.ok, call.used, s, call.env⟩
  if run.2 - run.1 < minTempoBins then idle s
  else
    match gate ctx s run.2 with
    | .skip => idle s
    | decision =>
        let s := forgetRefreshed s run.2
        match lagBounds ctx.sampleRate (run.2 - run.1) with
        | none => idle s
        | some bounds =>
            if onsetBinCapacity < run.2 - run.1 then idle s
            else if decision = .reuse then
              finishPass call 0 (estimateReady ctx run none s) call.env
            else if call.limit = 0 then
              .inr ⟨.moreWork, call.used, { s with pending := true }, call.env⟩
            else resumeSweep ctx call 1 (newSweep run bounds) (startSweep s run bounds) call.env

/-- The body of `apta_internal_s4_refresh` up to its tail call. -/
def refreshPass (ctx : AnalysisContext) (call : RefreshCall) : RefreshCall ⊕ RefreshResult :=
  let s := call.state
  if !enabled ctx.requestedFeatures || !s.binsAllocated || !s.fluxAllocated then
    .inr ⟨.ok, call.used, s, call.env⟩
  else if s.locked then .inr ⟨.ok, call.used, refreshLocked ctx s, call.env⟩
  else
    let s := updateCachedRanges ctx s
    match s.sweep with
    | some sweep => resumeSweep ctx call 0 sweep s call.env
    | none =>
        match s.findEvidence ctx.endOfInput with
        | (none, s) => .inr ⟨.ok, call.used, s, call.env⟩
        | (some run, s) => refreshRun ctx call run s

/-! ## The function -/

/-- A search is active or a new one is due. -/
def refreshPending (s : S4State) : Bool := s.sweep.isSome || s.pending

/-- `apta_internal_s4_refresh`: `none` when the chain of tail calls does not end within one call more
than there are steps. -/
def refresh (ctx : AnalysisContext) (limit : ℕ) (s : S4State) (env : Environment) :
    Option RefreshResult :=
  TailCall.run (refreshPass ctx) (limit + 1) ⟨limit, 0, s, env⟩

end S4State

end LibApta
