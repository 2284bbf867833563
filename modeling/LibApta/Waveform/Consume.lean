import LibApta.Waveform.Completion

/-!
# Consuming the queue

The chunk loop of a process call moves frames from the queue to the columns. A chunk whose first
column cannot be had fails before it has added a frame; a chunk that fails later leaves frames both
in the columns and in the queue. `chunksWhole` says that no chunk of a loop fails so. A loop of
whole chunks keeps the accounts: each frame is in the queue or in its column, never in both.
-/

namespace LibApta

/-! ## The queue -/

/-- The frames of a queue that are not consumed yet. -/
def pendingFrames (queue : List PcmNode) : Set ℕ :=
  {frame | ∃ node ∈ queue, node.nextFrame ≤ frame ∧ frame < node.endFrame}

/-- The unconsumed parts of the nodes are not empty and disjoint, and carry a signal. -/
structure QueueCarries (signal : ℕ → ℚ) (queue : List PcmNode) : Prop where
  unfinished : ∀ node ∈ queue, node.processedFrames < node.frameCount
  disjoint : queue.Pairwise fun a b => a.endFrame ≤ b.nextFrame ∨ b.endFrame ≤ a.nextFrame
  carried : ∀ node ∈ queue, ∀ i (hi : i < node.samples.length), node.processedFrames ≤ i →
    node.samples[i] = signal (node.firstFrame + i)

theorem mem_pendingFrames_append {left right : List PcmNode} {frame : ℕ} :
    frame ∈ pendingFrames (left ++ right) ↔
      frame ∈ pendingFrames left ∨ frame ∈ pendingFrames right := by
  simp only [pendingFrames, List.mem_append, Set.mem_ofPred_eq]
  constructor
  · rintro ⟨node, hnode | hnode, h⟩
    · exact .inl ⟨node, hnode, h⟩
    · exact .inr ⟨node, hnode, h⟩
  · rintro (⟨node, hnode, h⟩ | ⟨node, hnode, h⟩)
    · exact ⟨node, .inl hnode, h⟩
    · exact ⟨node, .inr hnode, h⟩

theorem mem_pendingFrames_cons {node : PcmNode} {rest : List PcmNode} {frame : ℕ} :
    frame ∈ pendingFrames (node :: rest) ↔
      (node.nextFrame ≤ frame ∧ frame < node.endFrame) ∨ frame ∈ pendingFrames rest := by
  simp [pendingFrames]

theorem pendingFrames_perm {queue queue' : List PcmNode} (h : queue'.Perm queue) :
    pendingFrames queue' = pendingFrames queue := by
  ext frame
  simp only [pendingFrames, Set.mem_ofPred_eq, h.mem_iff]

namespace QueueCarries

variable {signal : ℕ → ℚ} {queue : List PcmNode}

theorem nil : QueueCarries signal [] := ⟨by simp, List.Pairwise.nil, by simp⟩

/-- The order of the queue does not matter. -/
theorem perm {queue' : List PcmNode} (h : QueueCarries signal queue) (hperm : queue'.Perm queue) :
    QueueCarries signal queue' where
  unfinished node hnode := h.unfinished node (hperm.mem_iff.mp hnode)
  disjoint := (hperm.pairwise_iff fun hab => Or.symm hab).mpr h.disjoint
  carried node hnode := h.carried node (hperm.mem_iff.mp hnode)

/-- The queue with one node consumed up to a later frame, or removed. -/
private theorem split {pre post : List PcmNode} {node : PcmNode}
    (h : QueueCarries signal (pre ++ node :: post)) :
    QueueCarries signal (pre ++ post) ∧
      ∀ frame, node.nextFrame ≤ frame → frame < node.endFrame →
        frame ∉ pendingFrames (pre ++ post) := by
  obtain ⟨hpre, hnodepost, hcross⟩ := List.pairwise_append.mp h.disjoint
  obtain ⟨hnode, hpost⟩ := List.pairwise_cons.mp hnodepost
  have hsub : ∀ other ∈ pre ++ post, other ∈ pre ++ node :: post := fun other hother => by
    rcases List.mem_append.mp hother with hother | hother
    · exact List.mem_append_left _ hother
    · exact List.mem_append_right _ (List.mem_cons_of_mem _ hother)
  refine ⟨⟨fun other hother => h.unfinished other (hsub other hother),
    List.pairwise_append.mpr ⟨hpre, hpost, fun a ha b hb =>
      hcross a ha b (List.mem_cons_of_mem _ hb)⟩,
    fun other hother => h.carried other (hsub other hother)⟩, ?_⟩
  rintro frame hlo hhi ⟨other, hother, hlo', hhi'⟩
  rcases List.mem_append.mp hother with hother | hother
  · rcases hcross other hother node List.mem_cons_self with hle | hle <;> omega
  · rcases hnode other hother with hle | hle <;> omega

/-- Consuming a chunk of a node removes the frames of the chunk from the queue. -/
theorem advance (h : QueueCarries signal queue) {position chunk : ℕ} {node : PcmNode}
    (hget : queue[position]? = some node) (hchunk : chunk ≤ node.remaining) :
    QueueCarries signal (advanceNode queue position chunk) ∧
      pendingFrames (advanceNode queue position chunk) =
        pendingFrames queue \ {frame | node.nextFrame ≤ frame ∧ frame < node.nextFrame + chunk} := by
  obtain ⟨hi, hnode⟩ := List.getElem?_eq_some_iff.mp hget
  obtain ⟨pre, post, hqueue, hlen⟩ :
      ∃ pre post, queue = pre ++ node :: post ∧ pre.length = position :=
    ⟨queue.take position, queue.drop (position + 1),
      by rw [← hnode, List.getElem_cons_drop, List.take_append_drop],
      by rw [List.length_take]; omega⟩
  subst hlen hqueue
  have hopen := h.unfinished node (by simp)
  obtain ⟨hrest, hout⟩ := h.split
  have hpend : ∀ frame, frame ∈ pendingFrames (pre ++ node :: post) ↔
      (node.nextFrame ≤ frame ∧ frame < node.endFrame) ∨ frame ∈ pendingFrames (pre ++ post) := by
    intro frame
    rw [mem_pendingFrames_append, mem_pendingFrames_cons, mem_pendingFrames_append]
    tauto
  have hnext : node.nextFrame = node.firstFrame + node.processedFrames := rfl
  have hend : node.endFrame = node.firstFrame + node.frameCount := rfl
  have hrem : node.remaining = node.frameCount - node.processedFrames := rfl
  unfold advanceNode
  rw [hget]
  simp only
  split_ifs with hlast
  · -- The chunk is the rest of the node.
    have herase : (pre ++ node :: post).eraseIdx pre.length = pre ++ post := by
      rw [List.eraseIdx_append_of_length_le le_rfl, Nat.sub_self]
      rfl
    rw [herase]
    refine ⟨hrest, ?_⟩
    ext frame
    rw [Set.mem_sdiff, hpend, Set.mem_ofPred_eq]
    constructor
    · intro hmem
      exact ⟨.inr hmem, fun hin => hout frame hin.1 (by omega) hmem⟩
    · rintro ⟨hin | hmem, hnot⟩
      · exact absurd ⟨hin.1, by omega⟩ hnot
      · exact hmem
  · -- The node keeps a rest.
    set moved : PcmNode := { node with processedFrames := node.processedFrames + chunk } with hmoved
    have hset : (pre ++ node :: post).set pre.length moved = pre ++ moved :: post := by
      rw [List.set_append_right _ _ le_rfl, Nat.sub_self]
      rfl
    have hmnext : moved.nextFrame = node.nextFrame + chunk := by
      rw [PcmNode.nextFrame, PcmNode.nextFrame, hmoved]
      exact (Nat.add_assoc _ _ _).symm
    have hmend : moved.endFrame = node.endFrame := rfl
    have hmopen : moved.processedFrames < moved.frameCount := by
      show node.processedFrames + chunk < node.frameCount
      omega
    obtain ⟨hpre, hnodepost, hcross⟩ := List.pairwise_append.mp h.disjoint
    obtain ⟨hnodes, hpost⟩ := List.pairwise_cons.mp hnodepost
    rw [hset]
    refine ⟨⟨?_, ?_, ?_⟩, ?_⟩
    · intro other hother
      rcases List.mem_append.mp hother with hother | hother
      · exact h.unfinished other (List.mem_append_left _ hother)
      rcases List.mem_cons.mp hother with rfl | hother
      · exact hmopen
      · exact h.unfinished other (List.mem_append_right _ (List.mem_cons_of_mem _ hother))
    · refine List.pairwise_append.mpr ⟨hpre, List.pairwise_cons.mpr ⟨fun other hother => ?_, hpost⟩,
        fun other hother b hb => ?_⟩
      · rw [hmend, hmnext]
        exact (hnodes other hother).imp_right fun hle => hle.trans (Nat.le_add_right _ _)
      · rcases List.mem_cons.mp hb with rfl | hb
        · rw [hmend, hmnext]
          exact (hcross other hother node List.mem_cons_self).imp_left fun hle =>
            hle.trans (Nat.le_add_right _ _)
        · exact hcross other hother b (List.mem_cons_of_mem _ hb)
    · intro other hother i hlt hle
      rcases List.mem_append.mp hother with hother | hother
      · exact h.carried other (List.mem_append_left _ hother) i hlt hle
      rcases List.mem_cons.mp hother with rfl | hother
      · exact h.carried node (by simp) i hlt ((Nat.le_add_right _ _).trans hle)
      · exact h.carried other (List.mem_append_right _ (List.mem_cons_of_mem _ hother)) i hlt hle
    · ext frame
      have hmpend : frame ∈ pendingFrames (pre ++ moved :: post) ↔
          (moved.nextFrame ≤ frame ∧ frame < moved.endFrame) ∨
            frame ∈ pendingFrames (pre ++ post) := by
        rw [mem_pendingFrames_append, mem_pendingFrames_cons, mem_pendingFrames_append]
        tauto
      rw [Set.mem_sdiff, hpend, hmpend, hmnext, hmend, Set.mem_ofPred_eq]
      constructor
      · rintro (hin | hmem)
        · exact ⟨.inl ⟨by omega, hin.2⟩, fun hnot => by omega⟩
        · exact ⟨.inr hmem, fun hin => hout frame hin.1 (by omega) hmem⟩
      · rintro ⟨hin | hmem, hnot⟩
        · exact .inl ⟨not_lt.mp fun hlt => hnot ⟨hin.1, hlt⟩, hin.2⟩
        · exact .inr hmem

end QueueCarries

/-! ## Whole chunks -/

/-- Every column of a list is in the store when its turn comes, or is granted its place. -/
def columnsGranted (hasBands : Bool) : List ℕ → Overview → Environment → Bool
  | [], _, _ => true
  | columnIndex :: rest, overview, env =>
      decide (columnIndex ≤ uint32Max) &&
        match overview.findOrInsert hasBands columnIndex env with
        | (.ok _, overview, env) => columnsGranted hasBands rest overview env
        | (.error _, _, _) => false

/-- The columns of consecutive frames. -/
def chunkColumns (framesPerColumn first count : ℕ) : List ℕ :=
  (List.range' first count).map (· / framesPerColumn)

/-- A chunk is granted all its columns, or is refused the first one already. -/
def chunkIsWhole (framesPerColumn : ℕ) (hasBands : Bool) (first count : ℕ) (overview : Overview)
    (env : Environment) : Bool :=
  columnsGranted hasBands (chunkColumns framesPerColumn first count) overview env ||
    !columnsGranted hasBands (chunkColumns framesPerColumn first 1) overview env

section Granted

variable {framesPerColumn : ℕ} {hasBands : Bool}

theorem Overview.columnIndex_addSampleAt (hasBands : Bool) (overview : Overview) (position : ℕ)
    (sample : ℚ) :
    (overview.addSampleAt hasBands position sample).accumulators.map Accumulator.columnIndex =
      overview.accumulators.map Accumulator.columnIndex := by
  have hmap : ∀ f : Accumulator → Accumulator, (∀ acc, (f acc).columnIndex = acc.columnIndex) →
      (overview.accumulators.modify position f).map Accumulator.columnIndex =
        overview.accumulators.map Accumulator.columnIndex := fun f hf => by
    refine List.ext_getElem? fun i => ?_
    rw [List.getElem?_map, List.getElem?_modify, List.getElem?_map]
    split_ifs <;> simp [Function.comp_def, hf]
  cases hasBands
  · exact hmap _ fun _ => rfl
  · exact hmap _ fun _ => rfl

/-- What a lookup does to the places of the store depends on these places only. -/
private theorem findOrInsert_congr (hasBands : Bool) {overview other : Overview} (columnIndex : ℕ)
    (env : Environment)
    (hkeys : other.accumulators.map Accumulator.columnIndex =
      overview.accumulators.map Accumulator.columnIndex)
    (hcap : other.capacity = overview.capacity) :
    (other.findOrInsert hasBands columnIndex env).1 =
        (overview.findOrInsert hasBands columnIndex env).1 ∧
      (other.findOrInsert hasBands columnIndex env).2.1.accumulators.map Accumulator.columnIndex =
        (overview.findOrInsert hasBands columnIndex env).2.1.accumulators.map
          Accumulator.columnIndex ∧
      (other.findOrInsert hasBands columnIndex env).2.1.capacity =
        (overview.findOrInsert hasBands columnIndex env).2.1.capacity ∧
      (other.findOrInsert hasBands columnIndex env).2.2 =
        (overview.findOrInsert hasBands columnIndex env).2.2 := by
  have hlen : other.accumulators.length = overview.accumulators.length := by
    simpa using congrArg List.length hkeys
  have hpos : other.position columnIndex = overview.position columnIndex := by
    unfold Overview.position
    rw [hkeys, hlen]
  have hinsert : ∀ i, (other.accumulators.insertIdx i (Accumulator.new columnIndex)).map
      Accumulator.columnIndex = (overview.accumulators.insertIdx i (.new columnIndex)).map
        Accumulator.columnIndex := fun i => by
    rw [List.map_insertIdx, List.map_insertIdx, hkeys]
  unfold Overview.findOrInsert Overview.ensureCapacity
  simp only [hpos, hkeys, hlen, hcap]
  by_cases hfound : (overview.accumulators.map Accumulator.columnIndex)[
      overview.position columnIndex]? = some columnIndex
  · simp only [if_pos hfound]
    exact ⟨trivial, hkeys, hcap, trivial⟩
  simp only [if_neg hfound]
  by_cases hfits : overview.accumulators.length + 1 ≤ overview.capacity
  · simp only [if_pos hfits]
    exact ⟨trivial, hinsert _, hcap, trivial⟩
  simp only [if_neg hfits]
  cases grownCapacity (if overview.capacity = 0 then 16 else overview.capacity)
      (overview.accumulators.length + 1) 33 with
  | none => exact ⟨rfl, hkeys, hcap, rfl⟩
  | some capacity =>
      cases env.allocate with
      | mk granted env =>
          cases granted
          · exact ⟨rfl, hkeys, hcap, rfl⟩
          cases hasBands
          · exact ⟨rfl, hinsert _, rfl, rfl⟩
          · simp only [if_true]
            cases env.allocate with
            | mk granted env =>
                cases granted
                · exact ⟨rfl, hkeys, hcap, rfl⟩
                · exact ⟨rfl, hinsert _, rfl, rfl⟩

/-- Feeding a chunk succeeds exactly when its columns are granted. -/
theorem processSamples_ok_iff {samples : List ℚ} {first : ℕ} {overview other : Overview}
    {env : Environment}
    (hkeys : other.accumulators.map Accumulator.columnIndex =
      overview.accumulators.map Accumulator.columnIndex)
    (hcap : other.capacity = overview.capacity) :
    (processSamples framesPerColumn hasBands samples first other env).1 = .ok ↔
      columnsGranted hasBands (chunkColumns framesPerColumn first samples.length) overview env =
        true := by
  induction samples generalizing first overview other env with
  | nil => simp [processSamples, chunkColumns, columnsGranted]
  | cons sample rest ih =>
      have hcols : chunkColumns framesPerColumn first (sample :: rest).length =
          first / framesPerColumn :: chunkColumns framesPerColumn (first + 1) rest.length := by
        simp [chunkColumns, List.range'_succ]
      rw [hcols]
      unfold processSamples columnsGranted
      by_cases hlimit : uint32Max < first / framesPerColumn
      · simp [hlimit]
      rw [if_neg hlimit, decide_eq_true (not_lt.mp hlimit), Bool.true_and]
      obtain ⟨hfst, hkeys', hcap', henv⟩ :=
        findOrInsert_congr hasBands (first / framesPerColumn) env hkeys hcap
      cases hfind : overview.findOrInsert hasBands (first / framesPerColumn) env with
      | mk answer next =>
          obtain ⟨found, fenv⟩ := next
          cases hother : other.findOrInsert hasBands (first / framesPerColumn) env with
          | mk answer' next' =>
              obtain ⟨found', fenv'⟩ := next'
              rw [hfind, hother] at hfst hkeys' hcap' henv
              simp only at hfst hkeys' hcap' henv
              subst hfst henv
              cases answer' with
              | error status =>
                  obtain ⟨⟨code, rfl⟩, -⟩ := Overview.findOrInsert_error hfind
                  simp
              | ok position =>
                  refine ih ?_ ?_
                  · rw [← hkeys', Overview.columnIndex_addSampleAt]
                  · rw [← hcap']
                    cases hasBands <;> rfl

/-- A chunk that is refused its first column changes no column. -/
theorem processSamples_refused {samples : List ℚ} {first : ℕ} {overview overview' : Overview}
    {env env' : Environment} {status : Status} (hne : 0 < samples.length)
    (hrefused : columnsGranted hasBands (chunkColumns framesPerColumn first 1) overview env = false)
    (hrun : processSamples framesPerColumn hasBands samples first overview env =
      (status, overview', env')) : overview' = overview := by
  cases samples with
  | nil => exact absurd hne (lt_irrefl 0)
  | cons sample rest =>
      have hcols : chunkColumns framesPerColumn first 1 = [first / framesPerColumn] := rfl
      rw [hcols, columnsGranted] at hrefused
      unfold processSamples at hrun
      by_cases hlimit : uint32Max < first / framesPerColumn
      · rw [if_pos hlimit] at hrun
        exact (Prod.mk.inj (Prod.mk.inj hrun).2).1.symm
      rw [if_neg hlimit] at hrun
      rw [decide_eq_true (not_lt.mp hlimit), Bool.true_and] at hrefused
      cases hfind : overview.findOrInsert hasBands (first / framesPerColumn) env with
      | mk answer next =>
          obtain ⟨found, fenv⟩ := next
          rw [hfind] at hrun hrefused
          cases answer with
          | ok position => exact absurd hrefused (by simp [columnsGranted])
          | error code =>
              obtain ⟨-, rfl⟩ := Overview.findOrInsert_error hfind
              exact (Prod.mk.inj (Prod.mk.inj hrun).2).1.symm

end Granted

/-! ## The loop -/

/-- The chunk that the next round of the loop takes: the position of its node, the node, and how
many of its frames. -/
def nextChunk (ctx : ProcessContext) (frameLimit stepLimit : ℕ) (state : ChunkState) :
    Option (ℕ × PcmNode × ℕ) :=
  if state.queue = [] ∨ frameLimit ≤ state.consumed ∨ stepLimit ≤ state.steps then none
  else
    (selectPcmNode ctx state.queue).bind fun position =>
      (state.queue[position]?).bind fun node =>
        let chunk := min (min node.remaining processChunkFrames) (frameLimit - state.consumed)
        if chunk = 0 then none else some (position, node, chunk)

/-- The samples of the next `chunk` frames of a node. -/
def PcmNode.chunkSamples (node : PcmNode) (chunk : ℕ) : List ℚ :=
  (node.samples.drop node.processedFrames).take chunk

/-- The loop state after a chunk has been fed. -/
def ChunkState.advance (ctx : ProcessContext) (position chunk : ℕ) (overview : Overview)
    (env : Environment) (state : ChunkState) : ChunkState where
  queue := advanceNode state.queue position chunk
  overview := refreshCompletedColumns ctx.framesPerColumn ctx.endOfInput overview
  env := env.deadlinePassed.2
  consumed := state.consumed + chunk
  steps := state.steps + 1

/-- No round of the loop is refused a column after its chunk has added a frame. -/
def chunksWhole (ctx : ProcessContext) (frameLimit stepLimit : ℕ) : ℕ → ChunkState → Bool
  | 0, _ => true
  | fuel + 1, state =>
      match nextChunk ctx frameLimit stepLimit state with
      | none => true
      | some (position, node, chunk) =>
          chunkIsWhole ctx.framesPerColumn ctx.hasBands node.nextFrame chunk state.overview
              state.env &&
            match processSamples ctx.framesPerColumn ctx.hasBands (node.chunkSamples chunk)
                node.nextFrame state.overview state.env with
            | (.ok, overview, env) =>
                env.deadlinePassed.1 ||
                  chunksWhole ctx frameLimit stepLimit fuel
                    (state.advance ctx position chunk overview env)
            | _ => true

section Loop

variable {ctx : ProcessContext} {frameLimit stepLimit : ℕ} {state state' : ChunkState}

/-- One round of the loop. -/
theorem processChunks_succ (fuel : ℕ) :
    processChunks ctx frameLimit stepLimit (fuel + 1) state =
      match nextChunk ctx frameLimit stepLimit state with
      | none => (.ok, state)
      | some (position, node, chunk) =>
          match processSamples ctx.framesPerColumn ctx.hasBands (node.chunkSamples chunk)
              node.nextFrame state.overview state.env with
          | (.ok, overview, env) =>
              if env.deadlinePassed.1 then (.ok, state.advance ctx position chunk overview env)
              else
                processChunks ctx frameLimit stepLimit fuel
                  (state.advance ctx position chunk overview env)
          | (status, overview, env) =>
              (status, { state with overview := overview, env := env }) := by
  rw [processChunks]
  unfold nextChunk
  split_ifs with hstop
  · rfl
  cases selectPcmNode ctx state.queue with
  | none => rfl
  | some position =>
      simp only [Option.bind_some]
      cases state.queue[position]? with
      | none => rfl
      | some node =>
          simp only [Option.bind_some]
          split_ifs
          · rfl
          · rfl

/-- The chunk of a round is a non-empty part of what its node has left. -/
theorem nextChunk_some {position chunk : ℕ} {node : PcmNode}
    (h : nextChunk ctx frameLimit stepLimit state = some (position, node, chunk)) :
    state.queue[position]? = some node ∧ 0 < chunk ∧ chunk ≤ node.remaining := by
  unfold nextChunk at h
  split_ifs at h
  obtain ⟨position', -, h⟩ := Option.bind_eq_some_iff.mp h
  obtain ⟨node', hnode, h⟩ := Option.bind_eq_some_iff.mp h
  simp only at h
  split_ifs at h with hzero
  simp only [Option.some.injEq, Prod.mk.injEq] at h
  obtain ⟨rfl, rfl, rfl⟩ := h
  exact ⟨hnode, Nat.pos_of_ne_zero hzero, (min_le_left _ _).trans (min_le_left _ _)⟩

/-- What a fed chunk and a refused one keep, the loop keeps. -/
theorem processChunks_invariant {P : ChunkState → Prop}
    (hfed : ∀ {state : ChunkState} {position chunk : ℕ} {node : PcmNode} {overview : Overview}
      {env : Environment}, nextChunk ctx frameLimit stepLimit state = some (position, node, chunk) →
      processSamples ctx.framesPerColumn ctx.hasBands (node.chunkSamples chunk) node.nextFrame
        state.overview state.env = (.ok, overview, env) →
      P state → P (state.advance ctx position chunk overview env))
    (hrefused : ∀ {state : ChunkState} {position chunk : ℕ} {node : PcmNode} {overview : Overview}
      {env : Environment} {status : Status},
      nextChunk ctx frameLimit stepLimit state = some (position, node, chunk) →
      processSamples ctx.framesPerColumn ctx.hasBands (node.chunkSamples chunk) node.nextFrame
        state.overview state.env = (status, overview, env) →
      P state → P { state with overview := overview, env := env })
    {fuel : ℕ} {status : Status}
    (h : processChunks ctx frameLimit stepLimit fuel state = (status, state')) (hs : P state) :
    P state' := by
  induction fuel generalizing state with
  | zero => rwa [← (Prod.mk.inj h).2]
  | succ fuel ih =>
      rw [processChunks_succ] at h
      cases hnext : nextChunk ctx frameLimit stepLimit state with
      | none =>
          rw [hnext] at h
          rwa [← (Prod.mk.inj h).2]
      | some round =>
          obtain ⟨position, node, chunk⟩ := round
          rw [hnext] at h
          simp only at h
          cases hone : processSamples ctx.framesPerColumn ctx.hasBands (node.chunkSamples chunk)
              node.nextFrame state.overview state.env with
          | mk answer rest =>
              obtain ⟨overview, env⟩ := rest
              rw [hone] at h
              cases answer with
              | ok =>
                  have hadvanced := hfed hnext hone hs
                  simp only at h
                  split_ifs at h
                  · rwa [← (Prod.mk.inj h).2]
                  · exact ih h hadvanced
              | _ =>
                  rw [← (Prod.mk.inj h).2]
                  exact hrefused hnext hone hs

/-- The accounts of a loop state: the queue and the columns share out the accepted frames, and the
marks stand on full columns. -/
structure Accounts (framesPerColumn : ℕ) (endOfInput : Option ℕ) (signal : ℕ → ℚ)
    (seeded accepted : Set ℕ) (queue : List PcmNode) (overview : Overview) : Prop where
  queued : QueueCarries signal queue
  pending : pendingFrames queue ⊆ accepted
  fresh : ∀ frame ∈ pendingFrames queue, frame / framesPerColumn ∉ seeded
  bounded : ∀ frame ∈ accepted, ∀ finalEnd ∈ endOfInput, frame < finalEnd
  ledger : Ledger framesPerColumn signal seeded (accepted \ pendingFrames queue) overview
  sound : MarksSound framesPerColumn endOfInput overview

/-- What a loop leaves of the columns: those with no pending frame keep their accumulator, and no
mark is lost. -/
structure LoopFrame (framesPerColumn : ℕ) (pending : Set ℕ) (before after : Overview) : Prop where
  untouched : ∀ columnIndex, (∀ frame ∈ pending, frame / framesPerColumn ≠ columnIndex) →
    after.unmarkedColumn columnIndex = before.unmarkedColumn columnIndex
  marks : ∀ columnIndex, before.marked columnIndex = true → after.marked columnIndex = true

theorem LoopFrame.refl (framesPerColumn : ℕ) (pending : Set ℕ) (overview : Overview) :
    LoopFrame framesPerColumn pending overview overview :=
  ⟨fun _ _ => rfl, fun _ h => h⟩

theorem LoopFrame.trans {framesPerColumn : ℕ} {pending pending' : Set ℕ} {a b c : Overview}
    (h : LoopFrame framesPerColumn pending a b) (h' : LoopFrame framesPerColumn pending' b c)
    (hsub : pending' ⊆ pending) : LoopFrame framesPerColumn pending a c :=
  ⟨fun k hk => (h'.untouched k fun frame hf => hk frame (hsub hf)).trans (h.untouched k hk),
    fun k hk => h'.marks k (h.marks k hk)⟩

variable {signal : ℕ → ℚ} {seeded accepted : Set ℕ}

/-- Refreshing the marks keeps the accounts. -/
theorem Accounts.refresh {framesPerColumn : ℕ} {endOfInput : Option ℕ} {queue : List PcmNode}
    {overview : Overview}
    (h : Accounts framesPerColumn endOfInput signal seeded accepted queue overview) :
    Accounts framesPerColumn endOfInput signal seeded accepted queue
        (refreshCompletedColumns framesPerColumn endOfInput overview) ∧
      LoopFrame framesPerColumn (pendingFrames queue) overview
        (refreshCompletedColumns framesPerColumn endOfInput overview) :=
  ⟨{ h with ledger := h.ledger.refresh, sound := h.sound.refresh h.ledger.sorted },
    fun k _ => Overview.unmarkedColumn_refresh h.ledger.sorted k,
    fun _ => Overview.marked_refresh h.ledger.sorted⟩

/-- A whole chunk moves its frames from the queue to the columns. -/
theorem Accounts.feed (hpos : 0 < ctx.framesPerColumn)
    (h : Accounts ctx.framesPerColumn ctx.endOfInput signal seeded accepted state.queue
      state.overview)
    {position chunk : ℕ} {node : PcmNode} (hget : state.queue[position]? = some node)
    (hchunk : chunk ≤ node.remaining) {overview : Overview} {env : Environment}
    (hok : processSamples ctx.framesPerColumn ctx.hasBands (node.chunkSamples chunk)
      node.nextFrame state.overview state.env = (.ok, overview, env)) :
    Accounts ctx.framesPerColumn ctx.endOfInput signal seeded accepted
        (advanceNode state.queue position chunk) overview ∧
      LoopFrame ctx.framesPerColumn (pendingFrames state.queue) state.overview overview ∧
      pendingFrames (advanceNode state.queue position chunk) ⊆ pendingFrames state.queue := by
  obtain ⟨hqueue, hpend⟩ := h.queued.advance hget hchunk
  have hmem : node ∈ state.queue := List.mem_of_getElem? hget
  have hopen := h.queued.unfinished node hmem
  have hrem : node.remaining = node.samples.length - node.processedFrames := rfl
  have hend : node.endFrame = node.firstFrame + node.samples.length := rfl
  have hnext : node.nextFrame = node.firstFrame + node.processedFrames := rfl
  have hlen : (node.chunkSamples chunk).length = chunk := by
    rw [PcmNode.chunkSamples, List.length_take, List.length_drop]
    omega
  have hin : ∀ frame, node.nextFrame ≤ frame → frame < node.nextFrame + chunk →
      frame ∈ pendingFrames state.queue := fun frame hlo hhi => ⟨node, hmem, hlo, by omega⟩
  have hsub : pendingFrames (advanceNode state.queue position chunk) ⊆ pendingFrames state.queue := by
    rw [hpend]
    exact Set.sdiff_subset
  have hcarried : ∀ i (hi : i < (node.chunkSamples chunk).length),
      (node.chunkSamples chunk)[i] = signal (node.nextFrame + i) := by
    intro i hi
    have := h.queued.carried node hmem (node.processedFrames + i) (by omega) (Nat.le_add_right _ _)
    simp only [PcmNode.chunkSamples, List.getElem_take, List.getElem_drop]
    rw [this, hnext, Nat.add_assoc]
  obtain ⟨hledger, hframe⟩ := h.ledger.feed hpos (node.chunkSamples chunk) node.nextFrame
    (fun frame hlo hhi hmem => hmem.2 (hin frame hlo (hlen ▸ hhi)))
    (fun frame hlo hhi => h.fresh frame (hin frame hlo (hlen ▸ hhi))) hcarried hok
  have hprocessed : accepted \ pendingFrames state.queue ∪
      {frame | node.nextFrame ≤ frame ∧
        frame < node.nextFrame + (node.chunkSamples chunk).length} =
      accepted \ pendingFrames (advanceNode state.queue position chunk) := by
    rw [hpend, hlen]
    ext frame
    simp only [Set.mem_union, Set.mem_sdiff, Set.mem_ofPred_eq]
    constructor
    · rintro (⟨hacc, hnot⟩ | hrange)
      · exact ⟨hacc, fun hp => hnot hp.1⟩
      · exact ⟨h.pending (hin frame hrange.1 hrange.2), fun hp => hp.2 hrange⟩
    · rintro ⟨hacc, hnot⟩
      by_cases hp : frame ∈ pendingFrames state.queue
      · exact .inr (not_not.mp fun hr => hnot ⟨hp, hr⟩)
      · exact .inl ⟨hacc, hp⟩
  rw [hprocessed] at hledger
  refine ⟨⟨hqueue, hsub.trans h.pending, fun frame hf => h.fresh frame (hsub hf), h.bounded, hledger,
    ?_⟩, ⟨fun k hk => ?_, fun k hk => (hframe.marks k).trans hk⟩, hsub⟩
  · -- A marked column has no pending frame, so the chunk has not touched it.
    intro k acc hcol hmark
    have hwas : state.overview.marked k = true := by
      rw [← hframe.marks k, Overview.marked, hcol]
      exact hmark
    cases hold : state.overview.column k with
    | none => rw [Overview.marked, hold] at hwas; exact absurd hwas (by simp)
    | some old =>
        have holdmark : old.complete = true := by
          rw [Overview.marked, hold] at hwas
          exact hwas
        have hfull := h.sound k old hold holdmark
        have hclear : ∀ frame, node.nextFrame ≤ frame →
            frame < node.nextFrame + (node.chunkSamples chunk).length →
              frame / ctx.framesPerColumn ≠ k := by
          rintro frame hlo hhi rfl
          have hp := hin frame hlo (hlen ▸ hhi)
          obtain ⟨-, hall⟩ := (h.ledger.full_iff hpos (fun f hf => h.bounded f hf.1)
            (h.fresh frame hp)).mp ⟨old, hold, hfull⟩
          exact (hall frame ((mem_ownFrames hpos).mpr ⟨rfl, h.bounded frame (h.pending hp)⟩)).2 hp
        rw [hframe.untouched k hclear, hold] at hcol
        exact Option.some.inj hcol ▸ hfull
  · unfold Overview.unmarkedColumn
    rw [hframe.untouched k fun frame hlo hhi => hk frame (hin frame hlo (hlen ▸ hhi))]

/-- A loop of whole chunks, entered with current marks, keeps the accounts and leaves the marks
current. -/
theorem Accounts.processChunks (hpos : 0 < ctx.framesPerColumn) {fuel : ℕ} {status : Status}
    (h : Accounts ctx.framesPerColumn ctx.endOfInput signal seeded accepted state.queue
      state.overview)
    (hcurrent : MarksCurrent ctx.framesPerColumn ctx.endOfInput state.overview)
    (hwhole : chunksWhole ctx frameLimit stepLimit fuel state = true)
    (hrun : processChunks ctx frameLimit stepLimit fuel state = (status, state')) :
    Accounts ctx.framesPerColumn ctx.endOfInput signal seeded accepted state'.queue
        state'.overview ∧
      MarksCurrent ctx.framesPerColumn ctx.endOfInput state'.overview ∧
      LoopFrame ctx.framesPerColumn (pendingFrames state.queue) state.overview
        state'.overview ∧
      pendingFrames state'.queue ⊆ pendingFrames state.queue := by
  induction fuel generalizing state with
  | zero =>
      simp only [LibApta.processChunks, Prod.mk.injEq] at hrun
      obtain ⟨-, rfl⟩ := hrun
      exact ⟨h, hcurrent, .refl _ _ _, subset_rfl⟩
  | succ fuel ih =>
      rw [processChunks_succ] at hrun
      rw [chunksWhole] at hwhole
      cases hnext : nextChunk ctx frameLimit stepLimit state with
      | none =>
          rw [hnext] at hrun
          simp only [Prod.mk.injEq] at hrun
          obtain ⟨-, rfl⟩ := hrun
          exact ⟨h, hcurrent, .refl _ _ _, subset_rfl⟩
      | some round =>
          obtain ⟨position, node, chunk⟩ := round
          obtain ⟨hget, hchunk, hle⟩ := nextChunk_some hnext
          rw [hnext] at hrun hwhole
          simp only at hrun hwhole
          have hlen : (node.chunkSamples chunk).length = chunk := by
            have hrem : node.remaining = node.samples.length - node.processedFrames := rfl
            rw [PcmNode.chunkSamples, List.length_take, List.length_drop]
            omega
          cases hfed : processSamples ctx.framesPerColumn ctx.hasBands (node.chunkSamples chunk)
              node.nextFrame state.overview state.env with
          | mk answer rest =>
              obtain ⟨overview, env⟩ := rest
              rw [hfed] at hrun hwhole
              obtain ⟨hone, hwhole⟩ := (Bool.and_eq_true _ _).mp hwhole
              by_cases hok : answer = .ok
              · subst hok
                simp only at hrun hwhole
                obtain ⟨hacc, hframe, hsub⟩ := h.feed hpos hget hle hfed
                obtain ⟨hacc', hframe'⟩ := hacc.refresh
                have hcur : MarksCurrent ctx.framesPerColumn ctx.endOfInput
                    (state.advance ctx position chunk overview env).overview :=
                  marksCurrent_refresh hacc.ledger.sorted
                have hstep : LoopFrame ctx.framesPerColumn (pendingFrames state.queue)
                    state.overview (state.advance ctx position chunk overview env).overview :=
                  hframe.trans hframe' hsub
                split_ifs at hrun with hdead
                · simp only [Prod.mk.injEq] at hrun
                  obtain ⟨-, rfl⟩ := hrun
                  exact ⟨hacc', hcur, hstep, hsub⟩
                · rw [Bool.not_eq_true] at hdead
                  rw [hdead, Bool.false_or] at hwhole
                  obtain ⟨h₁, h₂, h₃, h₄⟩ := ih hacc' hcur hwhole hrun
                  exact ⟨h₁, h₂, hstep.trans h₃ hsub, h₄.trans hsub⟩
              · -- The chunk failed, so it was refused its first column.
                have hgranted : columnsGranted ctx.hasBands
                    (chunkColumns ctx.framesPerColumn node.nextFrame chunk) state.overview state.env ≠
                      true := by
                  rw [← hlen]
                  exact fun hg => hok
                    (((processSamples_ok_iff rfl rfl).mpr hg).symm.trans (by rw [hfed])).symm
                have hsame : overview = state.overview := by
                  refine processSamples_refused (by omega) ?_ hfed
                  simpa [chunkIsWhole, hgranted] using hone
                have hstay : state' = { state with overview := overview, env := env } := by
                  cases answer with
                  | ok => exact absurd rfl hok
                  | _ => exact (Prod.mk.inj hrun).2.symm
                subst hstay hsame
                exact ⟨h, hcurrent, .refl _ _ _, subset_rfl⟩

end Loop

end LibApta
