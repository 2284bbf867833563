import LibApta.Lib.References
import LibApta.Core.Types

/-!
# The lifetime of results

Sessions publish results, callers acquire and release them, and sessions and the context are
destroyed, from any number of threads. Each step here is one that other threads can see: an atomic
operation, or a section under the lock of the result. A result is in memory of its own, or in a slot
of the pool of its session, and the pool itself is shared by its session and by the results in its
slots. An operation that has more steps to do leaves a reference behind that says so.
-/

namespace LibApta.Lifetime

open References

/-- The values of an `atomic_uint`. -/
def counterValues : ℕ := 4294967296

/-- `APTA_INTERNAL_RESULT_SLOT_COUNT`. -/
def slotCount : ℕ := 2

/-! ## Results, pools and sessions -/

/-- Where a result is. -/
inductive Storage where
  | heap
  | slot (pool index : ℕ)
deriving DecidableEq

/-- The pool of a result. -/
def Storage.pool : Storage → Option ℕ
  | .heap => none
  | .slot pool _ => some pool

/-- A result that is being built, that is in `result_count`, and that has been taken off it again
because its storage is about to go. -/
inductive ResultStage where
  | building
  | counted
  | uncounted
deriving DecidableEq

/-- A result, as far as its lifetime goes. -/
structure ResultData where
  storage : Storage
  stage : ResultStage
deriving DecidableEq

/-- Who refers to a result: the current pointer of a session, the publication of a session before
it sets that pointer, an acquisition, and an operation that is about to release the result. -/
inductive ResultOwner where
  | current (session result : ℕ)
  | publication (session result : ℕ)
  | acquisition (result : ℕ)
  | releasing (result : ℕ)
deriving DecidableEq

/-- The result an owner refers to. -/
@[simp] def ResultOwner.result : ResultOwner → ℕ
  | .current _ result => result
  | .publication _ result => result
  | .acquisition result => result
  | .releasing result => result

/-- The `active` flags of the slots of a pool. -/
structure PoolData where
  active : List Bool
deriving DecidableEq

/-- Who refers to a pool: its session, the result in a slot, and an operation that is about to
release the pool. -/
inductive PoolOwner where
  | session (session pool : ℕ)
  | slot (pool index : ℕ)
  | releasing (pool : ℕ)
deriving DecidableEq

/-- The pool an owner refers to. -/
@[simp] def PoolOwner.pool : PoolOwner → ℕ
  | .session _ pool => pool
  | .slot pool _ => pool
  | .releasing pool => pool

/-- A session that is in use, one whose current pointer is cleared, and one that is off
`session_count`. -/
inductive SessionStage where
  | attached
  | detached
  | uncounted
deriving DecidableEq

/-- A session: its pool if its results are in slots, whether its own memory is of the context, and
its generation. -/
structure Session where
  id : ℕ
  pool : Option ℕ
  heap : Bool
  generation : ℕ
  stage : SessionStage
deriving DecidableEq

/-- A context with its sessions, its results and their pools. Sessions, results and pools take their
names from one supply; `freed` has the names of those whose storage was released. -/
structure State where
  contextDestroyed : Bool
  sessionCount : ℕ
  resultCount : ℕ
  sessions : List Session
  results : Table ResultData ResultOwner
  pools : Table PoolData PoolOwner
  next : ℕ
  freed : List ℕ

/-- Take the first slot that is not active. -/
def claimSlot : List Bool → Option (ℕ × List Bool)
  | [] => none
  | active :: rest =>
      if active then (claimSlot rest).map fun (index, rest) => (index + 1, active :: rest)
      else some (0, true :: rest)

/-- What the publication of a session with a pool reports before it builds a result, when it does
not get to that. -/
def publishStatus (x : Session) (pool : PoolData) : Option Status :=
  if x.generation = uint64Max then some (.error .limitExceeded)
  else if claimSlot pool.active = none then some (.error .resultSlotsExhausted)
  else none

namespace State

/-! ## The operations -/

/-- A context without sessions. -/
def initial : State := ⟨false, 0, 0, [], ⟨[], []⟩, ⟨[], []⟩, 0, []⟩

/-- `apta_session_create` with results on the heap. -/
def createSession (heap : Bool) (s : State) : State :=
  { s with
    sessionCount := increment counterValues s.sessionCount
    resultCount := increment counterValues s.resultCount
    sessions := ⟨s.next, none, heap, 1, .attached⟩ :: s.sessions
    results := s.results.create (s.next + 1) ⟨.heap, .counted⟩ (.current s.next (s.next + 1))
    next := s.next + 2 }

/-- `apta_session_create` with results in slots: the first slot has the first result. -/
def createPooledSession (s : State) : State :=
  { s with
    sessionCount := increment counterValues s.sessionCount
    resultCount := increment counterValues s.resultCount
    sessions := ⟨s.next, some (s.next + 1), false, 1, .attached⟩ :: s.sessions
    results := s.results.create (s.next + 2) ⟨.slot (s.next + 1) 0, .counted⟩
      (.current s.next (s.next + 2))
    pools := ⟨⟨s.next + 1, 2, false, ⟨true :: List.replicate (slotCount - 1) false⟩⟩ ::
      s.pools.cells, .slot (s.next + 1) 0 :: .session s.next (s.next + 1) :: s.pools.owners⟩
    next := s.next + 3 }

/-- `apta_internal_publish_result` up to the allocation of a result. -/
def allocateResult (x : Session) (s : State) : State :=
  { s with
    results := s.results.create s.next ⟨.heap, .building⟩ (.publication x.id s.next)
    next := s.next + 1 }

/-- `apta_internal_result_pool_create_empty_result` up to the claim of a slot. -/
def claimResult (x : Session) (q : Cell PoolData) (index : ℕ) (active : List Bool) (s : State) :
    State :=
  { s with
    results := s.results.create s.next ⟨.slot q.id index, .building⟩ (.publication x.id s.next)
    pools := s.pools.store q ⟨active⟩
    next := s.next + 1 }

/-- A result that was built goes on `result_count`. -/
def countResult (c : Cell ResultData) (s : State) : State :=
  { s with
    resultCount := increment counterValues s.resultCount
    results := s.results.store c ⟨c.data.storage, .counted⟩ }

/-- A result in a slot holds its pool and goes on `result_count`. -/
def countSlotResult (c : Cell ResultData) (q : Cell PoolData) (index : ℕ) (s : State) : State :=
  { s.countResult c with pools := s.pools.share counterValues q (.slot q.id index) }

/-- A result on the heap that could not be built. -/
def discardResult (x : ℕ) (c : Cell ResultData) (s : State) : State :=
  { s with
    results := s.results.discard c (.publication x c.id)
    freed := c.id :: s.freed }

/-- A result in a slot that could not be built. -/
def abandonResult (x result : ℕ) (s : State) : State :=
  { s with results := s.results.pass (.publication x result) (.releasing result) }

/-- The publication sets the current pointer and has the old result to release. -/
def installResult (x : Session) (new old : ℕ) (s : State) : State :=
  { s with
    sessions := exchange s.sessions x { x with generation := x.generation + 1 }
    results := (s.results.pass (.current x.id old) (.releasing old)).pass (.publication x.id new)
      (.current x.id new) }

/-- `apta_session_acquire_result`. -/
def acquireResult (c : Cell ResultData) (s : State) : State :=
  { s with results := s.results.share counterValues c (.acquisition c.id) }

/-- `apta_internal_result_release` up to its atomic subtraction. -/
def releaseResult (c : Cell ResultData) (owner : ResultOwner) (s : State) : State :=
  { s with results := s.results.drop counterValues c owner }

/-- A result without references goes off `result_count`. -/
def uncountResult (c : Cell ResultData) (s : State) : State :=
  { s with
    resultCount := decrement counterValues s.resultCount
    results := s.results.store c ⟨c.data.storage, .uncounted⟩ }

/-- The storage of a result on the heap is released. -/
def freeResult (c : Cell ResultData) (s : State) : State :=
  { s with
    results := s.results.remove c
    freed := c.id :: s.freed }

/-- `apta_internal_result_pool_release_result_slot` up to the clearing of the slot: the storage of
the result is released, and its reference to the pool is left to release. -/
def freeSlot (c : Cell ResultData) (q : Cell PoolData) (index : ℕ) (s : State) : State :=
  { s.freeResult c with
    pools := (s.pools.store q ⟨q.data.active.set index false⟩).pass (.slot q.id index)
      (.releasing q.id) }

/-- `apta_internal_result_pool_release` up to its atomic subtraction. -/
def releasePool (q : Cell PoolData) (s : State) : State :=
  { s with pools := s.pools.drop counterValues q (.releasing q.id) }

/-- The storage of a pool is released. -/
def freePool (q : Cell PoolData) (s : State) : State :=
  { s with
    pools := s.pools.remove q
    freed := q.id :: s.freed }

/-- `apta_session_destroy` up to the clearing of the current pointer. -/
def detachSession (x : Session) (result : ℕ) (s : State) : State :=
  { s with
    sessions := exchange s.sessions x { x with stage := .detached }
    results := s.results.pass (.current x.id result) (.releasing result) }

/-- A session goes off `session_count`. -/
def uncountSession (x : Session) (s : State) : State :=
  { s with
    sessionCount := decrement counterValues s.sessionCount
    sessions := exchange s.sessions x { x with stage := .uncounted } }

/-- A session is gone. -/
def closeSession (x : Session) (s : State) : State :=
  { s with
    sessions := s.sessions.erase x
    freed := x.id :: s.freed }

/-- A session with a pool is gone, and its reference to the pool is left to release. -/
def closePooledSession (x : Session) (pool : ℕ) (s : State) : State :=
  { s.closeSession x with
    pools := s.pools.pass (.session x.id pool) (.releasing pool) }

/-- The storage of the context in use: results on the heap, pools, and sessions on the heap. -/
def allocatedBlocks (s : State) : ℕ :=
  (s.results.cells.countP fun c => c.data.storage = .heap) + s.pools.cells.length +
    s.sessions.countP fun x => x.heap

/-- `apta_context_destroy`. -/
def destroyContext (s : State) : Status × State :=
  if s.sessionCount ≠ 0 ∨ s.resultCount ≠ 0 ∨ s.allocatedBlocks ≠ 0 then (.error .busy, s)
  else (.ok, { s with contextDestroyed := true })

/-! ## Interleavings -/

/-- A session is in use and nothing publishes for it: publishing and destroying a session hold its
`process_lock`. -/
def Idle (s : State) (x : Session) : Prop :=
  x.stage = .attached ∧ ∀ result, .publication x.id result ∉ s.results.owners

/-- An owner that may release its reference: a caller, or an operation that is about to. -/
def MayRelease : ResultOwner → Prop
  | .acquisition _ => True
  | .releasing _ => True
  | _ => False

/-- One step of one thread. -/
inductive Step (s : State) : State → Prop
  | create (heap : Bool) (hcontext : s.contextDestroyed = false) : Step s (s.createSession heap)
  | createPooled (hcontext : s.contextDestroyed = false) : Step s s.createPooledSession
  | allocate {x : Session} (hx : x ∈ s.sessions) (hidle : s.Idle x) (hpool : x.pool = none)
      (hgeneration : x.generation ≠ uint64Max) : Step s (s.allocateResult x)
  | claim {x : Session} {q : Cell PoolData} {index : ℕ} {active : List Bool} (hx : x ∈ s.sessions)
      (hidle : s.Idle x) (hq : q ∈ s.pools.cells) (hpool : x.pool = some q.id)
      (hstatus : publishStatus x q.data = none)
      (hslot : claimSlot q.data.active = some (index, active)) :
      Step s (s.claimResult x q index active)
  | count {x : ℕ} {c : Cell ResultData} (howner : .publication x c.id ∈ s.results.owners)
      (hc : c ∈ s.results.cells) (hdata : c.data = ⟨.heap, .building⟩) : Step s (s.countResult c)
  | countSlot {x index : ℕ} {c : Cell ResultData} {q : Cell PoolData}
      (howner : .publication x c.id ∈ s.results.owners) (hc : c ∈ s.results.cells)
      (hq : q ∈ s.pools.cells) (hdata : c.data = ⟨.slot q.id index, .building⟩) :
      Step s (s.countSlotResult c q index)
  | discard {x : ℕ} {c : Cell ResultData} (howner : .publication x c.id ∈ s.results.owners)
      (hc : c ∈ s.results.cells) (hdata : c.data = ⟨.heap, .building⟩) :
      Step s (s.discardResult x c)
  | abandon {x pool index : ℕ} {c : Cell ResultData}
      (howner : .publication x c.id ∈ s.results.owners) (hc : c ∈ s.results.cells)
      (hdata : c.data = ⟨.slot pool index, .counted⟩) : Step s (s.abandonResult x c.id)
  | install {x : Session} {c : Cell ResultData} {old : ℕ} (hx : x ∈ s.sessions)
      (howner : .publication x.id c.id ∈ s.results.owners) (hc : c ∈ s.results.cells)
      (hstage : c.data.stage = .counted) (hcurrent : .current x.id old ∈ s.results.owners) :
      Step s (s.installResult x c.id old)
  | acquire {x : ℕ} {c : Cell ResultData} (hcurrent : .current x c.id ∈ s.results.owners)
      (hc : c ∈ s.results.cells) : Step s (s.acquireResult c)
  | release {owner : ResultOwner} {c : Cell ResultData} (howner : owner ∈ s.results.owners)
      (hrelease : MayRelease owner) (hc : c ∈ s.results.cells) (hresult : owner.result = c.id) :
      Step s (s.releaseResult c owner)
  | uncount {c : Cell ResultData} (hc : c ∈ s.results.cells) (hdying : c.dying = true)
      (hstage : c.data.stage = .counted) : Step s (s.uncountResult c)
  | free {c : Cell ResultData} (hc : c ∈ s.results.cells) (hdying : c.dying = true)
      (hdata : c.data = ⟨.heap, .uncounted⟩) : Step s (s.freeResult c)
  | freeSlot {index : ℕ} {c : Cell ResultData} {q : Cell PoolData} (hc : c ∈ s.results.cells)
      (hdying : c.dying = true) (hq : q ∈ s.pools.cells)
      (hdata : c.data = ⟨.slot q.id index, .uncounted⟩) : Step s (s.freeSlot c q index)
  | releasePool {q : Cell PoolData} (hq : q ∈ s.pools.cells)
      (howner : .releasing q.id ∈ s.pools.owners) : Step s (s.releasePool q)
  | freePool {q : Cell PoolData} (hq : q ∈ s.pools.cells) (hdying : q.dying = true) :
      Step s (s.freePool q)
  | detach {x : Session} {result : ℕ} (hx : x ∈ s.sessions) (hidle : s.Idle x)
      (hcurrent : .current x.id result ∈ s.results.owners) : Step s (s.detachSession x result)
  | uncountSession {x : Session} (hx : x ∈ s.sessions) (hstage : x.stage = .detached) :
      Step s (s.uncountSession x)
  | close {x : Session} (hx : x ∈ s.sessions) (hstage : x.stage = .uncounted)
      (hpool : x.pool = none) : Step s (s.closeSession x)
  | closePooled {x : Session} {pool : ℕ} (hx : x ∈ s.sessions) (hstage : x.stage = .uncounted)
      (hpool : x.pool = some pool) : Step s (s.closePooledSession x pool)
  | destroyContext : Step s s.destroyContext.2

/-- No counter has as much to count as it has values. -/
def Fits (s : State) : Prop :=
  s.results.Fits counterValues ResultOwner.result ∧ s.pools.Fits counterValues PoolOwner.pool ∧
    s.sessions.length < counterValues ∧ s.results.cells.length < counterValues

/-- The states of a context under any interleaving, as long as `P` holds. -/
inductive Reachable (P : State → Prop) : State → Prop
  | initial : Reachable P initial
  | step {s s' : State} (h : Reachable P s) (hstep : Step s s') (hP : P s') : Reachable P s'

end State

end LibApta.Lifetime
