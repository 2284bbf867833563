import LibApta.Session.Run
import LibApta.Waveform.Consume

/-!
# Where the memory of a call comes from

Every request for memory goes to one of three providers: the allocator of the context, the workspace
that the host gave the session, or the storage of a result slot. The requests of a call are the list
of the providers asked, in order, one for each outcome that the call takes from the plan of its
allocator. The code of most layers asks through the session, which prefers the workspace; only the
accumulators of the overview layer and the results without slots ask the context itself.
-/

namespace LibApta

/-- What serves a request for memory. -/
inductive Provider where
  | context
  | workspace
  | slot
deriving DecidableEq

/-! ## The overview layer -/

/-- What growing the accumulators asks for: the accumulators themselves and, when there are any, their
bands. -/
def Overview.growthRequests (columns bands : Provider) (hasBands : Bool) (overview : Overview)
    (needed : ℕ) (env : Environment) : List Provider :=
  if needed ≤ overview.capacity then []
  else
    match grownCapacity (if overview.capacity = 0 then 16 else overview.capacity) needed 33 with
    | none => []
    | some _ => columns :: if env.allocate.1 && hasBands then [bands] else []

/-- What finding a column, or inserting it, asks for. -/
def Overview.insertionRequests (bands : Provider) (hasBands : Bool) (overview : Overview)
    (columnIndex : ℕ) (env : Environment) : List Provider :=
  if (overview.accumulators.map Accumulator.columnIndex)[overview.position columnIndex]? =
      some columnIndex then []
  else
    overview.growthRequests .context bands hasBands (overview.accumulators.length + 1) env

/-- What feeding consecutive samples asks for. -/
def sampleRequests (bands : Provider) (framesPerColumn : ℕ) (hasBands : Bool) :
    List ℚ → ℕ → Overview → Environment → List Provider
  | [], _, _, _ => []
  | sample :: rest, frame, overview, env =>
      if uint32Max < frame / framesPerColumn then []
      else
        overview.insertionRequests bands hasBands (frame / framesPerColumn) env ++
          match overview.findOrInsert hasBands (frame / framesPerColumn) env with
          | (.error _, _, _) => []
          | (.ok position, overview, env) =>
              sampleRequests bands framesPerColumn hasBands rest (frame + 1)
                (overview.addSampleAt hasBands position sample) env

namespace Session

/-! ## Publications -/

/-- What `apta_internal_session_allocate` asks. -/
def memory (s : Session) : Provider := if s.usesWorkspace then .workspace else .context

end Session

end LibApta
