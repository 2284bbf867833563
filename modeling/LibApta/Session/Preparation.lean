import LibApta.Session.Estimators

/-!
# Preparing the estimators after a refusal

What the preparing functions allocate, block by block. The global estimator gives all its blocks back
when one of them is refused. The local one looks at its ring only: refused the flux buffer, it keeps
the ring, and every later call finds the ring and reports success. Such an estimator stays without a
flux buffer to the end of the session, and its refresh does nothing.
-/

namespace LibApta

/-! ## Blocks -/

/-- A block of an estimator: whether it is allocated, and the capacity recorded for it. -/
structure StageBuffer where
  allocated : Bool
  capacity : ℕ
deriving DecidableEq

def StageBuffer.missing : StageBuffer := ⟨false, 0⟩

/-- The blocks of the local estimator. -/
structure S4Blocks where
  onsetBins : StageBuffer
  onsetFlux : StageBuffer
deriving DecidableEq

namespace S4Blocks

def none : S4Blocks := ⟨.missing, .missing⟩

/-- What is left when the ring is granted and the flux buffer refused. -/
def half : S4Blocks := ⟨⟨true, onsetBinCapacity⟩, .missing⟩

def complete : S4Blocks := ⟨⟨true, onsetBinCapacity⟩, ⟨true, onsetBinCapacity⟩⟩

/-- Allocate the ring and the flux buffer. -/
def prepare (features : FeatureMask) (blocks : S4Blocks) (env : Environment) :
    Status × S4Blocks × Environment :=
  if !S4State.enabled features || blocks.onsetBins.allocated then (.ok, blocks, env)
  else
    match env.allocate with
    | (false, env) => (.error .outOfMemory, blocks, env)
    | (true, env) =>
        let blocks := { blocks with onsetBins := ⟨true, onsetBinCapacity⟩ }
        match env.allocate with
        | (false, env) => (.error .outOfMemory, blocks, env)
        | (true, env) => (.ok, { blocks with onsetFlux := ⟨true, onsetBinCapacity⟩ }, env)

end S4Blocks

/-- The blocks of the global estimator. -/
structure S6Blocks where
  globalBins : StageBuffer
  globalFlux : StageBuffer
  beats : StageBuffer
deriving DecidableEq

namespace S6Blocks

def complete : S6Blocks :=
  ⟨⟨true, globalBinCapacity⟩, ⟨true, globalBinCapacity⟩, ⟨true, globalMaxBeats⟩⟩

/-- Allocate the state and its three blocks; all are given back when one of them is missing. -/
def prepare (features : FeatureMask) (s6 : Option S6Blocks) (env : Environment) :
    Status × Option S6Blocks × Environment :=
  if !S6State.enabled features || s6.isSome then (.ok, s6, env)
  else
    match env.allocate with
    | (false, env) => (.error .outOfMemory, s6, env)
    | (true, env) =>
        let (bins, env) := env.allocate
        let (flux, env) := env.allocate
        let (beats, env) := env.allocate
        if !bins || !beats || !flux then (.error .outOfMemory, s6, env)
        else
          (.ok, some ⟨⟨bins, globalBinCapacity⟩, ⟨flux, globalBinCapacity⟩, ⟨beats, globalMaxBeats⟩⟩,
            env)

end S6Blocks

/-! ## Sequences of calls -/

/-- The stage that a call prepares. -/
inductive Stage where
  | s4
  | s6
deriving DecidableEq

/-- A preparing call, with what the allocator answers during it. -/
structure Preparation where
  stage : Stage
  allocations : List Bool
deriving DecidableEq

def Preparation.env (call : Preparation) : Environment := ⟨call.allocations, [], 0⟩

/-- The blocks of both estimators. -/
structure StageBlocks where
  s4 : S4Blocks
  s6 : Option S6Blocks
deriving DecidableEq

def StageBlocks.none : StageBlocks := ⟨.none, Option.none⟩

/-- Prepare one stage. -/
def prepareStage (features : FeatureMask) (call : Preparation) (blocks : StageBlocks) :
    Status × StageBlocks :=
  match call.stage with
  | .s4 =>
      match S4Blocks.prepare features blocks.s4 call.env with
      | (status, s4, _) => (status, { blocks with s4 := s4 })
  | .s6 =>
      match S6Blocks.prepare features blocks.s6 call.env with
      | (status, s6, _) => (status, { blocks with s6 := s6 })

/-- The blocks after a sequence of calls on a new session. -/
def preparedBlocks (features : FeatureMask) (calls : List Preparation) : StageBlocks :=
  calls.foldl (fun blocks call => (prepareStage features call blocks).2) .none

/-- The stage, if it was requested, has all its blocks. -/
def Stage.Ready (features : FeatureMask) (blocks : StageBlocks) : Stage → Prop
  | .s4 => S4State.enabled features → blocks.s4 = .complete
  | .s6 => S6State.enabled features → blocks.s6 = some .complete

/-- Every call that reports success leaves its stage ready, and no call leaves a part of the global
estimator behind. -/
def Retryable (features : FeatureMask) (calls : List Preparation) : Prop :=
  ∀ before call after, calls = before ++ call :: after →
    ((prepareStage features call (preparedBlocks features before)).1 = .ok →
      call.stage.Ready features (prepareStage features call (preparedBlocks features before)).2) ∧
    ∀ s6 ∈ (prepareStage features call (preparedBlocks features before)).2.s6, s6 = .complete

/-- The call is for the local estimator and is granted the ring, if it asks for it. -/
def Preparation.grantsRing (call : Preparation) : Bool :=
  decide (call.stage = .s4) && call.env.allocate.1

/-- The call is granted the flux buffer, if it asks for it. -/
def Preparation.grantsFlux (call : Preparation) : Bool := call.env.allocate.2.allocate.1

/-- The first call that is granted the ring is granted the flux buffer too, or no call for the local
estimator comes after it. -/
def GrantedTogether (calls : List Preparation) : Prop :=
  ∀ before half after, calls = before ++ half :: after → half.grantsRing = true →
    (∀ call ∈ before, call.grantsRing = false) → half.grantsFlux = false →
    ∀ call ∈ after, call.stage ≠ .s4

/-- The blocks of the local estimator after a first call that is granted the ring. -/
def Preparation.s4Blocks (call : Preparation) : S4Blocks :=
  if call.grantsFlux then .complete else .half

variable {features : FeatureMask}

theorem preparedBlocks_append (before : List Preparation) (call : Preparation) :
    preparedBlocks features (before ++ [call]) =
      (prepareStage features call (preparedBlocks features before)).2 := by
  rw [preparedBlocks, List.foldl_append]
  rfl

/-- An estimator that has its ring is not touched. -/
theorem S4Blocks.prepare_allocated {blocks : S4Blocks} (h : blocks.onsetBins.allocated = true)
    (env : Environment) : S4Blocks.prepare features blocks env = (.ok, blocks, env) := by
  rw [prepare, h, Bool.or_true, if_pos rfl]

/-- A call on an estimator without blocks. -/
theorem prepareStage_first (henabled : S4State.enabled features = true) {call : Preparation}
    (hstage : call.stage = .s4) {blocks : StageBlocks} (hnone : blocks.s4 = .none) :
    prepareStage features call blocks =
      if call.grantsRing then
        (if call.grantsFlux then .ok else .error .outOfMemory, { blocks with s4 := call.s4Blocks })
      else (.error .outOfMemory, blocks) := by
  obtain ⟨s4, s6⟩ := blocks
  obtain rfl : s4 = .none := hnone
  unfold prepareStage Preparation.s4Blocks Preparation.grantsRing Preparation.grantsFlux
    S4Blocks.prepare
  rw [hstage, henabled]
  cases hring : call.env.allocate with
  | mk granted env =>
      cases granted with
      | false => simp [S4Blocks.none, StageBuffer.missing]
      | true =>
          cases hflux : env.allocate with
          | mk granted env =>
              cases granted <;>
                simp [S4Blocks.none, S4Blocks.half, S4Blocks.complete, StageBuffer.missing, hflux]

/-- After a sequence of calls the first that was granted the ring says which blocks there are. -/
theorem preparedBlocks_s4 (henabled : S4State.enabled features = true) (calls : List Preparation) :
    (preparedBlocks features calls).s4 =
      match calls.find? Preparation.grantsRing with
      | none => .none
      | some call => call.s4Blocks := by
  induction calls using List.reverseRecOn with
  | nil => rfl
  | append_singleton before call ih =>
      rw [preparedBlocks_append, List.find?_append]
      cases hfound : before.find? Preparation.grantsRing with
      | some first =>
          rw [hfound] at ih
          have hring : first.s4Blocks.onsetBins.allocated = true := by
            unfold Preparation.s4Blocks
            split_ifs <;> rfl
          unfold prepareStage
          cases call.stage with
          | s4 =>
              simp only
              rw [ih, S4Blocks.prepare_allocated hring]
              rfl
          | s6 => exact ih
      | none =>
          rw [hfound] at ih
          cases hstage : call.stage with
          | s4 =>
              rw [prepareStage_first henabled hstage ih]
              cases hring : call.grantsRing
              · simpa [hring] using ih
              · simp [hring]
          | s6 =>
              have hring : call.grantsRing = false := by
                rw [Preparation.grantsRing, hstage]
                rfl
              unfold prepareStage
              rw [hstage]
              simpa [hring] using ih

/-- The global estimator is never left in part. -/
theorem S6Blocks.prepare_complete {s6 : Option S6Blocks} (h : ∀ blocks ∈ s6, blocks = .complete)
    (env : Environment) :
    (∀ blocks ∈ (S6Blocks.prepare features s6 env).2.1, blocks = .complete) ∧
      ((S6Blocks.prepare features s6 env).1 = .ok → S6State.enabled features →
        (S6Blocks.prepare features s6 env).2.1 = some .complete) := by
  unfold S6Blocks.prepare
  by_cases hthere : (!S6State.enabled features || s6.isSome) = true
  · rw [if_pos hthere]
    refine ⟨h, fun _ henabled => ?_⟩
    rw [henabled] at hthere
    obtain ⟨blocks, hsome⟩ := Option.isSome_iff_exists.mp hthere
    rw [hsome, h blocks hsome]
  rw [if_neg hthere]
  cases env.allocate with
  | mk granted env =>
      cases granted with
      | false => exact ⟨h, fun hok => nomatch hok⟩
      | true =>
          generalize hbins : env.allocate = bins
          obtain ⟨bins, env'⟩ := bins
          generalize hflux : env'.allocate = flux
          obtain ⟨flux, env''⟩ := flux
          generalize hbeats : env''.allocate = beats
          obtain ⟨beats, env'''⟩ := beats
          simp only [hbins, hflux, hbeats]
          cases hall : (!bins || !beats || !flux)
          · simp only [Bool.or_eq_false_iff, Bool.not_eq_false'] at hall
            obtain ⟨⟨rfl, rfl⟩, rfl⟩ := hall
            exact ⟨fun blocks hmem => (Option.some.inj hmem).symm, fun _ _ => rfl⟩
          · exact ⟨h, fun hok => nomatch hok⟩

theorem preparedBlocks_s6 (calls : List Preparation) :
    ∀ s6 ∈ (preparedBlocks features calls).s6, s6 = .complete := by
  induction calls using List.reverseRecOn with
  | nil => exact fun _ hmem => nomatch hmem
  | append_singleton before call ih =>
      rw [preparedBlocks_append]
      unfold prepareStage
      cases call.stage with
      | s4 => exact ih
      | s6 => exact (S6Blocks.prepare_complete ih call.env).1

/-- Preparation can be retried exactly when the ring and the flux buffer come together. -/
theorem preparation_retryable_iff (features : FeatureMask) (calls : List Preparation) :
    Retryable features calls ↔ (S4State.enabled features = true → GrantedTogether calls) := by
  constructor
  · intro h henabled before half after hcalls hring hbefore hflux call hmem hstage
    obtain ⟨middle, rest, rfl⟩ := List.append_of_mem hmem
    have hcalls : calls = (before ++ half :: middle) ++ call :: rest := by
      rw [hcalls, List.append_assoc]
      rfl
    have hfirst : (before ++ half :: middle).find? Preparation.grantsRing = some half := by
      rw [List.find?_append, List.find?_eq_none.mpr fun c hc => by simp [hbefore c hc],
        Option.none_or, List.find?_cons_of_pos hring]
    have hreached := preparedBlocks_s4 henabled (before ++ half :: middle)
    rw [hfirst] at hreached
    have hhalf : (preparedBlocks features (before ++ half :: middle)).s4 = .half := by
      rw [hreached]
      show half.s4Blocks = .half
      rw [Preparation.s4Blocks, hflux]
      rfl
    have hready := (h _ call rest hcalls).1
    unfold prepareStage at hready
    rw [hstage] at hready
    simp only [hhalf, @S4Blocks.prepare_allocated features .half rfl] at hready
    have hboth : S4Blocks.half = .complete := hready trivial henabled
    exact absurd hboth (by decide)
  · rintro h before call after rfl
    have hs6 := @preparedBlocks_s6 features (before ++ [call])
    rw [preparedBlocks_append] at hs6
    refine ⟨fun hok => ?_, hs6⟩
    cases hstage : call.stage with
    | s6 =>
        intro henabled
        have hcomplete := @S6Blocks.prepare_complete features _
          (@preparedBlocks_s6 features before) call.env
        unfold prepareStage at hok ⊢
        rw [hstage] at hok ⊢
        exact hcomplete.2 hok henabled
    | s4 =>
        intro henabled
        have hreached := preparedBlocks_s4 henabled before
        cases hfound : before.find? Preparation.grantsRing with
        | none =>
            -- The call itself makes the blocks.
            rw [hfound] at hreached
            rw [prepareStage_first henabled hstage hreached] at hok ⊢
            split_ifs at hok ⊢ with hring hflux
            rw [Preparation.s4Blocks, if_pos hflux]
        | some first =>
            rw [hfound] at hreached
            obtain ⟨hring, earlier, later, rfl, hearlier⟩ := List.find?_eq_some_iff_append.mp hfound
            have hflux : first.grantsFlux = true := by
              by_contra hrefused
              refine h henabled earlier first (later ++ call :: after) ?_ hring ?_ ?_ call ?_ hstage
              · rw [List.append_assoc]
                rfl
              · exact fun c hc => by simpa using hearlier c hc
              · exact Bool.not_eq_true _ ▸ hrefused
              · simp
            have hcomplete : (preparedBlocks features (earlier ++ first :: later)).s4 = .complete := by
              rw [hreached]
              show first.s4Blocks = .complete
              rw [Preparation.s4Blocks, if_pos hflux]
            unfold prepareStage
            rw [hstage]
            simp only [hcomplete, @S4Blocks.prepare_allocated features .complete rfl]

/-! ## To the end of the session -/

/-- An estimator with a ring and no flux buffer, and with nothing estimated. -/
structure S4State.Silenced (s4 : S4State) : Prop where
  bins : s4.binsAllocated = true
  flux : s4.fluxAllocated = false
  estimate : s4.estimate = none

namespace Session

/-- Refused the flux buffer once, the next call reports success without it; in a session the push after
the refused one succeeds, and the estimator is silenced. -/
theorem preparation_leaves_half :
    ¬ Retryable {.bpm} [⟨.s4, [true, false]⟩, ⟨.s4, []⟩] ∧
      ∃ s t u, Created s ∧
        step ⟨.pushPcm ⟨0, [0]⟩, [true, true, false], []⟩ s = some t ∧
        perform (.pushPcm ⟨0, [0]⟩) (t.withPlatform (plainCall (.pushPcm ⟨0, [0]⟩))) =
          some (.ok, u) ∧ u.s4.Silenced := by
  constructor
  · intro h
    have hready := (h [⟨.s4, [true, false]⟩] ⟨.s4, []⟩ [] rfl).1 (by decide)
    have hboth : S4Blocks.half = .complete := hready (by decide)
    exact absurd hboth (by decide)
  · obtain ⟨s, hcreate⟩ : ∃ s, create (smallConfig {.waveformOverview, .bpm} none) seriesLibm false
        plainPlatform = (.ok, some s) := ⟨_, rfl⟩
    have hfacts : (create (smallConfig {.waveformOverview, .bpm} none) seriesLibm false
        plainPlatform).2.bind (fun s =>
          (step ⟨.pushPcm ⟨0, [0]⟩, [true, true, false], []⟩ s).bind fun t =>
            (perform (.pushPcm ⟨0, [0]⟩) (t.withPlatform (plainCall (.pushPcm ⟨0, [0]⟩)))).map
              fun answer => (answer.1, answer.2.s4.binsAllocated, answer.2.s4.fluxAllocated,
                answer.2.s4.estimate)) = some (.ok, true, false, none) := by
      decide +kernel
    rw [hcreate, Option.bind_some] at hfacts
    obtain ⟨t, ht, hpush⟩ := Option.bind_eq_some_iff.mp hfacts
    obtain ⟨⟨status, u⟩, hu, hanswer⟩ := Option.map_eq_some_iff.mp hpush
    simp only [Prod.mk.injEq] at hanswer
    obtain ⟨rfl, hbins, hflux, hestimate⟩ := hanswer
    exact ⟨s, t, u, ⟨_, _, _, _, hcreate⟩, ht, hu, hbins, hflux, hestimate⟩

end Session

end LibApta
