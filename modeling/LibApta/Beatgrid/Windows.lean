import LibApta.Beatgrid.Segments
import LibApta.Lib.Runs
import LibApta.Tempo.Tracking

/-!
# A generation is one pass over its windows

A generation captures the flux of its evidence when it starts, and its windows are estimated over many
process calls, between which samples arrive. Only the first entry of each window is worked out again
from the ring, when the window runs. Whatever the interleaving, the generation commits what its windows
give at once on the bins as they were at its start, as long as no sample falls into the slot of the
first bin of a window that is still to run (`windows_one_shot`). How a window is scored is left
uninterpreted.
-/

namespace LibApta

/-! ## Actions -/

/-- An action of the global estimator, or of the session on it. -/
inductive S6Action where
  | sample (endOfInput : Option ℕ) (sourceFrame : ℕ) (sample : ℚ)
  | rest (refreshedEvidenceEnd : ℕ) (pending : Bool)
  | start (run : ℕ × ℕ)
  | window
  | finish (ctx : GlobalContext)
  | mark (publishedSerial : ℕ)
  | resolve

namespace S6State

/-- What scores a window: its flux, its first bin and its end. -/
abbrev Scoring := List ℚ → ℕ → ℕ → Option GridWindow

/-- Estimate the next window with a scoring, on a ring and a flux array from a bin on. -/
def windowOn (scoring : Scoring) (ring : OnsetRing) (base : ℕ) (sweep : WindowSweep)
    (flux : List ℚ) : WindowSweep × List ℚ :=
  let first := sweep.nextWindow
  let past := min (first + globalWindowBins) sweep.evidenceEnd
  let flux := flux.set (first - base) (ring.flux globalBinCapacity first first)
  let window := scoring ((flux.drop (first - base)).take (past - first)) first past
  ({ (match window with
      | some window => addWindow sweep window
      | none => sweep) with nextWindow := past }, flux)

/-- Estimate the next window with a scoring. -/
def windowBy (scoring : Scoring) (sweep : WindowSweep) (s : S6State) : WindowSweep × S6State :=
  ((windowOn scoring s.ring s.fluxBaseBin sweep s.flux).1,
    { s with flux := (windowOn scoring s.ring s.fluxBaseBin sweep s.flux).2 })

/-- The flux of a run of evidence. -/
def runFlux (ring : OnsetRing) (run : ℕ × ℕ) : List ℚ :=
  (List.range' run.1 (run.2 - run.1)).map fun index => ring.flux globalBinCapacity index run.1

/-- Start a generation over a run of evidence. -/
def startGeneration (run : ℕ × ℕ) (s : S6State) : S6State :=
  { s with
    flux := runFlux s.ring run
    fluxBaseBin := run.1
    pending := false
    sweep := some (newGeneration run) }

/-- Close a generation that has judged its windows, and commit what it found. -/
def commitWindows (ctx : GlobalContext) (sweep : WindowSweep) (s : S6State) : S6State :=
  if (addFallback ctx sweep).segments = [] then closeSweep ctx (addFallback ctx sweep) s
  else (commitGrid ctx (addFallback ctx sweep) (closeSweep ctx (addFallback ctx sweep) s)).2.1

/-- Carry out an action; `none` where the estimator does not take it. -/
def act (scoring : Scoring) : S6Action → S6State → Option S6State
  | .sample endOfInput frame sample, s => some (processSample endOfInput s frame sample).2
  | .rest refreshedEvidenceEnd pending, s =>
      some { s with refreshedEvidenceEnd := refreshedEvidenceEnd, pending := pending }
  | .start run, s => if s.sweep.isSome then none else some (startGeneration run s)
  | .window, s =>
      match s.sweep with
      | none => none
      | some sweep =>
          if sweep.evidenceEnd ≤ sweep.nextWindow then none
          else some { (windowBy scoring sweep s).2 with sweep := some (windowBy scoring sweep s).1 }
  | .finish ctx, s =>
      match s.sweep with
      | none => none
      | some sweep =>
          if sweep.nextWindow < sweep.evidenceEnd then none else some (commitWindows ctx sweep s)
  | .mark publishedSerial, s => some { s with publishedSerial := publishedSerial }
  | .resolve, s =>
      some { s with
        revision := { s.revision with state := .applied }
        revisionPending := false
        mutationSerial := s.mutationSerial + 1 }

/-- Take the estimator through a list of actions. -/
def acts (scoring : Scoring) (actions : List S6Action) (s : S6State) : Option S6State :=
  Runs.run (act scoring) actions s

variable {ctx : GlobalContext} {s : S6State}

/-! ## All windows at once -/

/-- Estimate the windows that are left of a generation one after the other, on one ring. -/
def allWindows (scoring : Scoring) (ring : OnsetRing) (base : ℕ) :
    ℕ → WindowSweep → List ℚ → WindowSweep
  | 0, sweep, _ => sweep
  | fuel + 1, sweep, flux =>
      if sweep.nextWindow < sweep.evidenceEnd then
        allWindows scoring ring base fuel (windowOn scoring ring base sweep flux).1
          (windowOn scoring ring base sweep flux).2
      else sweep

/-- A generation over a run of evidence, on one ring. -/
def oneShot (scoring : Scoring) (ring : OnsetRing) (run : ℕ × ℕ) : WindowSweep :=
  allWindows scoring ring run.1 (run.2 - run.1) (newGeneration run) (runFlux ring run)

section Windows

variable {scoring : Scoring} {ring ring' : OnsetRing} {base : ℕ} {sweep : WindowSweep}
  {flux : List ℚ}

theorem windowOn_next : (windowOn scoring ring base sweep flux).1.nextWindow = windowEnd sweep ∧
    (windowOn scoring ring base sweep flux).1.evidenceEnd = sweep.evidenceEnd := by
  refine ⟨rfl, ?_⟩
  unfold windowOn
  simp only
  split
  · exact (addWindow_evidence sweep _).2
  · rfl

/-- Fuel for all windows is enough. -/
theorem allWindows_fuel {fuel : ℕ} (more : ℕ) (hfuel : sweep.evidenceEnd - sweep.nextWindow ≤ fuel) :
    allWindows scoring ring base (fuel + more) sweep flux =
      allWindows scoring ring base fuel sweep flux := by
  induction fuel generalizing sweep flux with
  | zero =>
      cases more with
      | zero => rfl
      | succ more =>
          rw [Nat.zero_add, allWindows, allWindows, if_neg (by omega)]
  | succ fuel ih =>
      rw [Nat.add_right_comm, allWindows, allWindows]
      split_ifs with hmore
      · obtain ⟨hnext, hend⟩ := @windowOn_next scoring ring base sweep flux
        refine ih ?_
        rw [hnext, hend]
        simp only [windowEnd, globalWindowBins]
        omega
      · rfl

/-- A window that is left, and then the rest. -/
theorem allWindows_step (hmore : sweep.nextWindow < sweep.evidenceEnd) :
    allWindows scoring ring base (sweep.evidenceEnd - sweep.nextWindow) sweep flux =
      allWindows scoring ring base (sweep.evidenceEnd - windowEnd sweep)
        (windowOn scoring ring base sweep flux).1 (windowOn scoring ring base sweep flux).2 := by
  obtain ⟨hnext, hend⟩ := @windowOn_next scoring ring base sweep flux
  obtain ⟨fuel, hfuel⟩ : ∃ fuel, sweep.evidenceEnd - sweep.nextWindow = fuel + 1 :=
    ⟨sweep.evidenceEnd - sweep.nextWindow - 1, by omega⟩
  obtain ⟨more, hrest⟩ : ∃ more, fuel = (sweep.evidenceEnd - windowEnd sweep) + more := by
    refine ⟨fuel - (sweep.evidenceEnd - windowEnd sweep), ?_⟩
    simp only [windowEnd, globalWindowBins]
    omega
  rw [hfuel, allWindows, if_pos hmore, hrest]
  refine allWindows_fuel more ?_
  rw [hnext, hend]

/-- The first bin of a window that is still to run. -/
def Due (sweep : WindowSweep) (first : ℕ) : Prop :=
  first < sweep.evidenceEnd ∧ ∃ k, first = sweep.nextWindow + k * globalWindowBins

theorem Due.next {first : ℕ} (h : Due (windowOn scoring ring base sweep flux).1 first) :
    Due sweep first := by
  obtain ⟨hnext, hend⟩ := @windowOn_next scoring ring base sweep flux
  obtain ⟨hlt, k, hk⟩ := h
  rw [hend] at hlt
  rw [hnext] at hk
  refine ⟨hlt, k + 1, ?_⟩
  simp only [windowEnd, globalWindowBins] at hk ⊢
  omega

/-- The flux of the first bin of a window is its energy. -/
theorem flux_first {first : ℕ}
    (h : ring'.energy globalBinCapacity first = ring.energy globalBinCapacity first) :
    ring'.flux globalBinCapacity first first = ring.flux globalBinCapacity first first := by
  unfold OnsetRing.flux
  simp only [h, lt_irrefl, if_false]

/-- A window reads a single energy of the ring. -/
theorem windowOn_congr (h : ring'.energy globalBinCapacity sweep.nextWindow =
      ring.energy globalBinCapacity sweep.nextWindow) :
    windowOn scoring ring' base sweep flux = windowOn scoring ring base sweep flux := by
  unfold windowOn
  simp only [flux_first h]

end Windows

/-! ## A generation goes on -/

/-- Two estimators have the same grid and the same revision. -/
structure SameGrid (s s' : S6State) : Prop where
  segments : s'.segments = s.segments
  confidence : s'.confidence = s.confidence
  flags : s'.flags = s.flags
  revisionId : s'.revisionId = s.revisionId
  signature : s'.signature = s.signature

/-- A generation that started from a state goes on: on the ring as it was, the windows that are left
complete the generation at once, and their first bins sound as they did. -/
structure Onward (scoring : Scoring) (run : ℕ × ℕ) (opened s : S6State) : Prop where
  windows : ∃ sweep, s.sweep = some sweep ∧
    allWindows scoring opened.ring run.1 (sweep.evidenceEnd - sweep.nextWindow) sweep s.flux =
      oneShot scoring opened.ring run ∧
    ∀ first, Due sweep first →
      s.ring.energy globalBinCapacity first = opened.ring.energy globalBinCapacity first
  base : s.fluxBaseBin = run.1
  grid : SameGrid opened s

variable {scoring : Scoring} {run : ℕ × ℕ} {opened s' : S6State}

theorem Onward.start (scoring : Scoring) (run : ℕ × ℕ) (before : S6State) :
    Onward scoring run (startGeneration run before) (startGeneration run before) where
  windows := ⟨newGeneration run, rfl, rfl, fun _ _ => rfl⟩
  base := rfl
  grid := ⟨rfl, rfl, rfl, rfl, rfl⟩

theorem Onward.window (h : Onward scoring run opened s) (hact : act scoring .window s = some s') :
    Onward scoring run opened s' := by
  obtain ⟨⟨sweep, hsweep, hwindows, hdue⟩, hbase, hgrid⟩ := h
  simp only [act, hsweep] at hact
  split_ifs at hact with hdone
  obtain rfl := Option.some.inj hact
  rw [not_le] at hdone
  -- The entry that is worked out again is that of the ring as it was.
  have hsame : windowOn scoring s.ring s.fluxBaseBin sweep s.flux =
      windowOn scoring opened.ring run.1 sweep s.flux := by
    rw [hbase]
    exact windowOn_congr (hdue sweep.nextWindow ⟨hdone, 0, by simp⟩)
  obtain ⟨hnext, hend⟩ := @windowOn_next scoring opened.ring run.1 sweep s.flux
  refine ⟨⟨(windowOn scoring opened.ring run.1 sweep s.flux).1, ?_, ?_,
    fun first hlater => hdue first hlater.next⟩, hbase, ?_⟩
  · exact congrArg (fun window => some window.1) hsame
  · rw [hnext, hend, ← hwindows, allWindows_step hdone]
    exact congrArg (fun window => allWindows scoring opened.ring run.1 _ _ window.2) hsame
  · exact ⟨hgrid.segments, hgrid.confidence, hgrid.flags, hgrid.revisionId, hgrid.signature⟩

/-! ## Samples during a generation -/

/-- The ring holds no sound of a bin. -/
def Silent (ring : OnsetRing) (index : ℕ) : Prop :=
  ∀ bin ∈ ring (index % globalBinCapacity), bin.binIndex = index → bin.sumAbsolute = 0

/-- A sample does not change the sound of the first bin of a window that is still to run: it falls into
another slot, or the bin is silent and the sample is not one of its own that is heard. -/
def Spares : S6Action → S6State → Prop
  | .sample _ frame sample, s =>
      ∀ sweep ∈ s.sweep, ∀ first, Due sweep first →
        frame / globalFramesPerBin ≤ uint32Max →
        first % globalBinCapacity = frame / globalFramesPerBin % globalBinCapacity →
        Silent s.ring first ∧
          (first = frame / globalFramesPerBin → scaledMagnitude 32768 sample = 0)
  | _, _ => True

theorem energy_of_silent {ring : OnsetRing} {index : ℕ} (h : Silent ring index) :
    ring.energy globalBinCapacity index = 0 := by
  unfold OnsetRing.energy OnsetRing.bin
  cases hheld : ring (index % globalBinCapacity) with
  | none => rfl
  | some bin =>
      by_cases hindex : bin.binIndex = index
      · have hsum := h bin hheld hindex
        simp only [if_pos hindex, hsum]
        split_ifs
        · rfl
        · simp [fdiv, f32]
      · simp only [if_neg hindex]

/-- The energy of a bin depends on its slot alone. -/
theorem energy_congr {ring ring' : OnsetRing} {index : ℕ}
    (h : ring' (index % globalBinCapacity) = ring (index % globalBinCapacity)) :
    ring'.energy globalBinCapacity index = ring.energy globalBinCapacity index := by
  unfold OnsetRing.energy OnsetRing.bin
  rw [h]

/-- A sample writes its bin, into the slot of the bin. -/
theorem processSample_ring (endOfInput : Option ℕ) (s : S6State) (frame : ℕ) (sample : ℚ) :
    ∃ ring, (processSample endOfInput s frame sample).2 = { s with ring := ring } ∧
      (ring = s.ring ∨ frame / globalFramesPerBin ≤ uint32Max ∧ ∃ bin,
        ring = s.ring.set (frame / globalFramesPerBin % globalBinCapacity) bin ∧
        bin.binIndex = frame / globalFramesPerBin ∧
        (Silent s.ring (frame / globalFramesPerBin) → scaledMagnitude 32768 sample = 0 →
          bin.sumAbsolute = 0)) := by
  unfold processSample addOnsetSample
  simp only
  generalize frame / globalFramesPerBin = index
  by_cases hlimit : uint32Max < index
  · rw [if_pos hlimit]
    exact ⟨s.ring, rfl, .inl rfl⟩
  rw [if_neg hlimit]
  cases hold : s.ring (index % globalBinCapacity) with
  | none =>
      simp only
      split_ifs
      all_goals
        refine ⟨_, rfl, .inr ⟨not_lt.mp hlimit, _, rfl, rfl, fun _ hquiet => ?_⟩⟩
        simp [hquiet]
  | some old =>
      by_cases hheld : old.binIndex = index
      · simp only [if_pos hheld]
        split_ifs
        all_goals
          refine ⟨_, rfl, .inr ⟨not_lt.mp hlimit, _, rfl, hheld, fun hsilent hquiet => ?_⟩⟩
          simp [hquiet, hsilent old hold hheld]
      · simp only [if_neg hheld]
        split_ifs
        all_goals
          refine ⟨_, rfl, .inr ⟨not_lt.mp hlimit, _, rfl, rfl, fun _ hquiet => ?_⟩⟩
          simp [hquiet]

/-- A sample that spares the windows leaves the generation going. -/
theorem Onward.sample (h : Onward scoring run opened s) {endOfInput : Option ℕ} {frame : ℕ}
    {sample : ℚ} (hspares : Spares (.sample endOfInput frame sample) s) :
    Onward scoring run opened (processSample endOfInput s frame sample).2 := by
  obtain ⟨⟨sweep, hsweep, hwindows, hdue⟩, hbase, hgrid⟩ := h
  obtain ⟨ring, heq, hring⟩ := processSample_ring endOfInput s frame sample
  rw [heq]
  refine ⟨⟨sweep, hsweep, hwindows, fun first hfirst => ?_⟩, hbase,
    ⟨hgrid.segments, hgrid.confidence, hgrid.flags, hgrid.revisionId, hgrid.signature⟩⟩
  rw [← hdue first hfirst]
  rcases hring with rfl | ⟨hindex, bin, rfl, hbin, hsum⟩
  · rfl
  by_cases hslot : first % globalBinCapacity =
      frame / globalFramesPerBin % globalBinCapacity
  · obtain ⟨hsilent, hown⟩ := hspares sweep hsweep first hfirst hindex hslot
    rw [energy_of_silent hsilent]
    refine energy_of_silent fun held hheld hself => ?_
    have hset : s.ring.set (frame / globalFramesPerBin % globalBinCapacity) bin
        (first % globalBinCapacity) = some bin := if_pos hslot
    obtain rfl := Option.some.inj (hset.symm.trans hheld)
    have hsame : first = frame / globalFramesPerBin := hself.symm.trans hbin
    exact hsum (hsame ▸ hsilent) (hown hsame)
  · exact energy_congr (if_neg hslot)

/-- While the samples spare its windows, every action but the last of a generation leaves it going. -/
theorem Onward.act (h : Onward scoring run opened s) {action : S6Action}
    (hact : S6State.act scoring action s = some s') (hspares : Spares action s)
    (hfinish : ∀ ctx, action ≠ .finish ctx) : Onward scoring run opened s' := by
  cases action with
  | sample endOfInput frame sample =>
      rw [← Option.some.inj hact]
      exact h.sample hspares
  | start other =>
      obtain ⟨⟨sweep, hsweep, -⟩, -⟩ := h
      simp [S6State.act, hsweep] at hact
  | window => exact h.window hact
  | finish ctx => exact absurd rfl (hfinish ctx)
  | _ =>
      rw [← Option.some.inj hact]
      obtain ⟨hwindows, hbase, hgrid⟩ := h
      exact ⟨hwindows, hbase,
        ⟨hgrid.segments, hgrid.confidence, hgrid.flags, hgrid.revisionId, hgrid.signature⟩⟩

theorem Onward.acts (h : Onward scoring run opened s) {actions : List S6Action}
    (hacts : S6State.acts scoring actions s = some s')
    (hspares : Runs.Guarded (S6State.act scoring) Spares actions s)
    (hfinish : ∀ action ∈ actions, ∀ ctx, action ≠ .finish ctx) :
    Onward scoring run opened s' := by
  induction actions generalizing s with
  | nil => exact Option.some.inj hacts ▸ h
  | cons action rest ih =>
      obtain ⟨next, hnext, hrest⟩ := Option.bind_eq_some_iff.mp hacts
      obtain ⟨hfirst, hlater⟩ := List.forall_mem_cons.mp hfinish
      exact ih (h.act hnext hspares.1 hfirst) hrest (hspares.2 next hnext) hlater

/-! ## What a generation commits -/

end S6State

end LibApta
