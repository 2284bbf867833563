import Mathlib.Algebra.Order.BigOperators.Group.List
import LibApta.Lib.Tiling
import LibApta.Memory.Arena

/-!
# The memory of a context

The allocator of a context counts the bytes it hands out. It calls into a host allocator that may
refuse, so a call is two steps here: bytes are reserved, then the host answers; a deallocation gives
the block to the host, then takes its bytes off the counter. Other calls may come between the two
steps. Blocks of a session workspace come back through the same deallocator and do not count.
-/

namespace LibApta.Memory

open Tiling

/-- `apta_allocation_header_t`, hidden before `payload`. `rawMemory` is what the host gave, or the
session when `allocatedSize` is zero. -/
structure AllocationHeader where
  payload : ℕ
  rawMemory : ℕ
  allocatedSize : ℕ
  requestedSize : ℕ
deriving DecidableEq

/-- A call whose bytes are reserved and which the host has not answered yet. -/
structure Reservation where
  size : ℕ
  alignment : ℕ
  totalSize : ℕ
deriving DecidableEq

/-- A session in a workspace of its caller. The session is the first thing in the workspace. -/
structure SessionArena where
  session : ℕ
  size : ℕ
  blocks : Arena
deriving DecidableEq

/-- The allocator of a context: its limit and its counter, the headers of the blocks in use, the
calls the host has not answered, the sizes of blocks the host has back and the counter still has,
and the workspaces of its sessions. -/
structure ContextMemory where
  memoryLimit : ℕ
  allocatedBytes : ℕ
  headers : List AllocationHeader
  pending : List Reservation
  returning : List ℕ
  arenas : List SessionArena

/-- A step of a context. The host answers with the address of fresh memory, or with none. -/
inductive ContextOp where
  | request (size alignment : ℕ)
  | answer (reservation : Reservation) (rawMemory : Option ℕ)
  | deallocate (memory : ℕ)
  | settle (size : ℕ)
  | openWorkspace (session size : ℕ)
  | closeWorkspace (session : ℕ)
  | sessionAllocate (session size alignment : ℕ)

namespace ContextMemory

variable (p : Platform)

/-! ## The operations -/

/-- A context that has allocated nothing. -/
def initial (memoryLimit : ℕ) : ContextMemory := ⟨memoryLimit, 0, [], [], [], []⟩

/-- `apta_internal_reserve_bytes`. -/
def reserveBytes (requestedSize : ℕ) (m : ContextMemory) : Option ContextMemory :=
  if m.memoryLimit = 0 then
    some { m with allocatedBytes := p.wrap (m.allocatedBytes + requestedSize) }
  else if m.memoryLimit < requestedSize then none
  else if m.memoryLimit - requestedSize < m.allocatedBytes then none
  else some { m with allocatedBytes := p.wrap (m.allocatedBytes + requestedSize) }

/-- `apta_internal_context_allocate` up to the call of the host, or `none` when it refuses. -/
def request (size alignment : ℕ) (m : ContextMemory) : Option ContextMemory :=
  let size := Arena.effectiveSize size
  let alignment := Arena.effectiveAlignment p alignment
  if !isPowerOfTwo alignment then none
  else if p.wrapSub (p.wrapSub p.sizeMax p.headerSize) (alignment - 1) < size then none
  else
    (m.reserveBytes p size).map fun m =>
      { m with
        pending := ⟨size, alignment, p.wrap (size + p.headerSize + alignment - 1)⟩ :: m.pending }

/-- The payload that `apta_internal_context_allocate` places in memory of the host. -/
def placedPayload (rawMemory alignment : ℕ) : ℕ :=
  p.wrap (p.wrap (rawMemory + p.headerSize) + alignment - 1) / alignment * alignment

/-- `apta_internal_context_allocate` from the answer of the host on. -/
def answer (reservation : Reservation) (rawMemory : Option ℕ) (m : ContextMemory) :
    ContextMemory :=
  match rawMemory with
  | none =>
      { m with
        allocatedBytes := p.wrapSub m.allocatedBytes reservation.size
        pending := m.pending.erase reservation }
  | some rawMemory =>
      { m with
        pending := m.pending.erase reservation
        headers := ⟨placedPayload p rawMemory reservation.alignment, rawMemory,
          reservation.totalSize, reservation.size⟩ :: m.headers }

/-- The header hidden before a payload. -/
def headerOf (memory : ℕ) (m : ContextMemory) : Option AllocationHeader :=
  m.headers.find? fun header => header.payload = memory

/-- `apta_internal_context_deallocate` up to the return of the host. -/
def deallocate (memory : ℕ) (m : ContextMemory) : ContextMemory :=
  if memory = 0 then m
  else
    match m.headerOf memory with
    | none => m
    | some header =>
        if header.allocatedSize = 0 ∧ header.rawMemory ≠ 0 then
          match m.arenas.find? fun arena => arena.session = header.rawMemory with
          | none => m
          | some arena =>
              { m with
                headers := m.headers.erase header
                arenas := { arena with blocks := Arena.deallocate p memory arena.blocks } ::
                  m.arenas.erase arena }
        else
          { m with
            headers := m.headers.erase header
            returning := header.requestedSize :: m.returning }

/-- The rest of `apta_internal_context_deallocate`. -/
def settle (size : ℕ) (m : ContextMemory) : ContextMemory :=
  { m with
    allocatedBytes := p.wrapSub m.allocatedBytes size
    returning := m.returning.erase size }

/-- `apta_internal_session_workspace_initialize` on a workspace of the caller. -/
def openWorkspace (session size : ℕ) (m : ContextMemory) : ContextMemory :=
  match Arena.initialBlocks p session size with
  | none => m
  | some blocks => { m with arenas := ⟨session, size, blocks⟩ :: m.arenas }

/-- The caller has its workspace back. -/
def closeWorkspace (session : ℕ) (m : ContextMemory) : ContextMemory :=
  { m with
    headers := m.headers.filter fun header =>
      ¬(header.allocatedSize = 0 ∧ header.rawMemory = session)
    arenas := m.arenas.filter fun arena => arena.session ≠ session }

/-- `apta_internal_session_allocate` on a session in a workspace. -/
def sessionAllocate (session size alignment : ℕ) (m : ContextMemory) : ContextMemory :=
  match m.arenas.find? fun arena => arena.session = session with
  | none => m
  | some arena =>
      match Arena.allocate p size alignment arena.blocks with
      | (none, _) => m
      | (some payload, blocks) =>
          { m with
            headers := ⟨payload, session, 0, Arena.effectiveSize size⟩ :: m.headers
            arenas := { arena with blocks := blocks } :: m.arenas.erase arena }

/-- Carry out a step. A refused request leaves everything as it is. -/
def step (m : ContextMemory) : ContextOp → ContextMemory
  | .request size alignment => (m.request p size alignment).getD m
  | .answer reservation rawMemory => m.answer p reservation rawMemory
  | .deallocate memory => m.deallocate p memory
  | .settle size => m.settle p size
  | .openWorkspace session size => m.openWorkspace p session size
  | .closeWorkspace session => m.closeWorkspace session
  | .sessionAllocate session size alignment => m.sessionAllocate p session size alignment

/-! ## What the callers and the host promise -/

/-- The blocks the host has handed out. -/
def hostBlocks (m : ContextMemory) : List AllocationHeader :=
  m.headers.filter fun header => header.allocatedSize ≠ 0

/-- The memory in use: the blocks of the host and the workspaces. -/
def regions (m : ContextMemory) : List (ℕ × ℕ) :=
  (m.hostBlocks.map fun header => (header.rawMemory, header.rawMemory + header.allocatedSize)) ++
    m.arenas.map fun arena => (arena.session, arena.session + arena.size)

/-- Memory that is in no use: it is not at the null address, ends with the address space, and shares
nothing with memory in use. -/
def Fresh (m : ContextMemory) (start size : ℕ) : Prop :=
  start ≠ 0 ∧ start + size ≤ p.sizeMax + 1 ∧
    ∀ region ∈ m.regions, Apart Prod.fst Prod.snd (start, start + size) region

instance (m : ContextMemory) (start size : ℕ) : Decidable (m.Fresh p start size) :=
  inferInstanceAs (Decidable (_ ∧ _ ∧ ∀ region ∈ m.regions, _ ∨ _))

/-- Sizes are `size_t` values, the host answers an open call with fresh memory or none, callers give
back null or what they were given, and a workspace is fresh memory. -/
def Legal (m : ContextMemory) : ContextOp → Prop
  | .request size alignment => size ≤ p.sizeMax ∧ alignment ≤ p.sizeMax
  | .answer reservation none => reservation ∈ m.pending
  | .answer reservation (some rawMemory) =>
      reservation ∈ m.pending ∧ m.Fresh p rawMemory reservation.totalSize
  | .deallocate memory => memory = 0 ∨ ∃ header ∈ m.headers, header.payload = memory
  | .settle size => size ∈ m.returning
  | .openWorkspace session size => m.Fresh p session size
  | .closeWorkspace _ => True
  | .sessionAllocate _ size alignment => size ≤ p.sizeMax ∧ alignment ≤ p.sizeMax

/-- The states of a context with a limit under any interleaving of the steps of its callers. -/
inductive Reachable (memoryLimit : ℕ) : ContextMemory → Prop
  | initial : Reachable memoryLimit (initial memoryLimit)
  | step {m : ContextMemory} (op : ContextOp) (h : Reachable memoryLimit m) (hlegal : m.Legal p op) :
      Reachable memoryLimit (m.step p op)

/-! ## The invariant -/

/-- Bytes asked for in the blocks of the host in use. -/
def liveBytes (m : ContextMemory) : ℕ := (m.hostBlocks.map AllocationHeader.requestedSize).sum

/-- Bytes reserved for calls the host has not answered. -/
def pendingBytes (m : ContextMemory) : ℕ := (m.pending.map Reservation.size).sum

/-- Bytes of blocks the host has back and the counter still has. -/
def returningBytes (m : ContextMemory) : ℕ := m.returning.sum

/-- All bytes on the counter. -/
def countedBytes (m : ContextMemory) : ℕ := m.liveBytes + m.pendingBytes + m.returningBytes

/-- What a reservation promises: the size of the whole block did not wrap. -/
structure Promised (reservation : Reservation) : Prop where
  size_pos : 0 < reservation.size
  alignment_isPowerOfTwo : reservation.alignment.isPowerOfTwo
  totalSize_eq :
    reservation.totalSize = reservation.size + p.headerSize + reservation.alignment - 1
  totalSize_le : reservation.totalSize ≤ p.sizeMax

/-- A payload and the header before it are inside the block of the host. -/
structure Placed (header : AllocationHeader) : Prop where
  requestedSize_pos : 0 < header.requestedSize
  le_payload : header.rawMemory + p.headerSize ≤ header.payload
  payload_le : header.payload + header.requestedSize ≤ header.rawMemory + header.allocatedSize

/-- The memory in use: regions are apart, payloads lie in them, and each block of a workspace that
callers hold is in use there. -/
structure Arranged (m : ContextMemory) : Prop where
  inside : ∀ region ∈ m.regions, 0 < region.1 ∧ region.2 ≤ p.sizeMax + 1
  apart : m.regions.Pairwise (Apart Prod.fst Prod.snd)
  placed : ∀ header ∈ m.hostBlocks, Placed p header
  valid : ∀ arena ∈ m.arenas,
    Arena.Valid p (arena.session + p.arenaOffset) (arena.session + arena.size) arena.blocks
  lodged : ∀ header ∈ m.headers, header.allocatedSize = 0 → ∃ arena ∈ m.arenas,
    arena.session = header.rawMemory ∧
      ∃ block ∈ Arena.live arena.blocks, block.payload p = header.payload
  distinct : m.headers.Pairwise fun a b => a.payload ≠ b.payload

/-- The counter has what is in use, what is reserved and what is on its way back, and stays within
the limit. -/
structure Counted (m : ContextMemory) : Prop where
  counter : m.allocatedBytes = p.wrap m.countedBytes
  bounded : m.memoryLimit ≠ 0 → m.memoryLimit ≤ p.sizeMax → m.countedBytes ≤ m.memoryLimit
  promised : ∀ reservation ∈ m.pending, Promised p reservation
  returned : ∀ size ∈ m.returning, size ≤ p.sizeMax

variable {p} {m : ContextMemory}

@[simp] theorem mem_hostBlocks {header : AllocationHeader} :
    header ∈ m.hostBlocks ↔ header ∈ m.headers ∧ header.allocatedSize ≠ 0 := by
  simp [hostBlocks]

/-! ## The regions -/

/-- Every payload lies in the region of its block or of its workspace. -/
theorem Arranged.exists_region (h : Arranged p m) {header : AllocationHeader}
    (hheader : header ∈ m.headers) :
    ∃ region ∈ m.regions, region.1 ≤ header.payload ∧ header.payload < region.2 := by
  by_cases hzero : header.allocatedSize = 0
  · obtain ⟨arena, harena, -, block, hblock, hpayload⟩ := h.lodged header hheader hzero
    refine ⟨(arena.session, arena.session + arena.size), ?_, ?_⟩
    · exact List.mem_append_right _ (List.mem_map_of_mem harena)
    · have hbounds := (h.valid arena harena).tiled.bounds hblock.1
      have hroomy := (h.valid arena harena).roomy block hblock.1
      have hpos := p.maxAlignment_pos
      unfold ArenaBlock.past at hbounds
      unfold ArenaBlock.payload at hpayload
      simp only
      omega
  · have hhost : header ∈ m.hostBlocks := mem_hostBlocks.mpr ⟨hheader, hzero⟩
    have hplaced := h.placed header hhost
    have hpos := hplaced.requestedSize_pos
    have hle := hplaced.le_payload
    have hge := hplaced.payload_le
    refine ⟨(header.rawMemory, header.rawMemory + header.allocatedSize), ?_, ?_⟩
    · exact List.mem_append_left _
        (List.mem_map_of_mem (f := fun header : AllocationHeader =>
          (header.rawMemory, header.rawMemory + header.allocatedSize)) hhost)
    · simp only
      omega

/-- Fresh memory has none of the payloads in use. -/
theorem Arranged.payload_ne (h : Arranged p m) {start size address : ℕ}
    (hfresh : m.Fresh p start size) (hge : start ≤ address) (hlt : address < start + size)
    {header : AllocationHeader} (hheader : header ∈ m.headers) : address ≠ header.payload := by
  obtain ⟨region, hregion, hfirst, hpast⟩ := h.exists_region hheader
  have hapart := hfresh.2.2 region hregion
  unfold Apart at hapart
  omega

/-- What the blocks of the host ask for fits in the address space. -/
theorem Arranged.liveBytes_le (h : Arranged p m) : m.liveBytes ≤ p.sizeMax := by
  have hhost : (m.hostBlocks.map fun header =>
      (header.rawMemory, header.rawMemory + header.allocatedSize)).Pairwise
        (Apart Prod.fst Prod.snd) := (List.pairwise_append.mp h.apart).1
  have hbounds : ∀ region ∈ m.hostBlocks.map fun header =>
      (header.rawMemory, header.rawMemory + header.allocatedSize),
        1 ≤ region.1 ∧ region.2 ≤ p.sizeMax + 1 := fun region hregion =>
    h.inside region (List.mem_append_left _ hregion)
  have htotal := sum_le_of_apart hhost hbounds
  calc m.liveBytes
      ≤ (m.hostBlocks.map AllocationHeader.allocatedSize).sum := by
        apply List.sum_le_sum
        intro header hheader
        have hplaced := h.placed header hheader
        have hle := hplaced.le_payload
        have hge := hplaced.payload_le
        omega
    _ ≤ p.sizeMax + 1 - 1 := by
        simpa [List.map_map, Function.comp_def] using htotal
    _ = p.sizeMax := Nat.add_sub_cancel _ _

/-! ## Requests -/

/-- The counter with one more reservation. -/
theorem reserveBytes_some {size : ℕ} {m' : ContextMemory} (h : m.reserveBytes p size = some m') :
    m' = { m with allocatedBytes := p.wrap (m.allocatedBytes + size) } ∧
      (m.memoryLimit ≠ 0 → m.allocatedBytes + size ≤ m.memoryLimit) := by
  unfold reserveBytes at h
  split_ifs at h with hzero hlarge hfull
  · exact ⟨(Option.some.inj h).symm, fun hne => absurd hzero hne⟩
  · exact ⟨(Option.some.inj h).symm, fun _ => by omega⟩

/-- No size of a request wraps: a request that is not refused leaves room for the header and the
padding, and adds its size to the counter. -/
theorem request_some {size alignment : ℕ} {m' : ContextMemory} (halignment : alignment ≤ p.sizeMax)
    (h : m.request p size alignment = some m') :
    ∃ reservation, Promised p reservation ∧ reservation.size = Arena.effectiveSize size ∧
      reservation.alignment = Arena.effectiveAlignment p alignment ∧
      m' = { m with
        allocatedBytes := p.wrap (m.allocatedBytes + reservation.size)
        pending := reservation :: m.pending } ∧
      (m.memoryLimit ≠ 0 → m.allocatedBytes + reservation.size ≤ m.memoryLimit) := by
  unfold request at h
  simp only at h
  split_ifs at h with hpower hlarge
  rw [Bool.not_eq_true', Bool.not_eq_false, isPowerOfTwo_iff] at hpower
  obtain ⟨m₁, hreserve, rfl⟩ := Option.map_eq_some_iff.mp h
  obtain ⟨rfl, hlimit⟩ := reserveBytes_some hreserve
  refine ⟨⟨_, _, _⟩, ⟨Arena.effectiveSize_pos size, hpower, ?_, p.wrap_le _⟩, rfl, rfl, rfl, hlimit⟩
  -- Neither subtraction of the test goes below zero, so the sum it guards is a size.
  have hfit := p.sizes_fit
  have hpointer := p.pointerAlignment_le
  have hle : Arena.effectiveAlignment p alignment ≤ p.sizeMax := max_le halignment (by omega)
  have htwice := Platform.two_mul_le_of_isPowerOfTwo hpower hle
  have hpos := Nat.pos_of_isPowerOfTwo hpower
  rw [Platform.wrapSub_of_le le_rfl (by omega),
    Platform.wrapSub_of_le (Nat.sub_le _ _) (by omega)] at hlarge
  exact Platform.wrap_of_le (by omega)

theorem Counted.request (h : Counted p m) {size alignment : ℕ} (halignment : alignment ≤ p.sizeMax) :
    Counted p ((m.request p size alignment).getD m) := by
  cases hrequest : m.request p size alignment with
  | none => exact h
  | some m' =>
      obtain ⟨reservation, hpromised, -, -, rfl, hlimit⟩ := request_some halignment hrequest
      have hcounted : countedBytes { m with
          allocatedBytes := p.wrap (m.allocatedBytes + reservation.size)
          pending := reservation :: m.pending } = m.countedBytes + reservation.size := by
        simp only [countedBytes, liveBytes, pendingBytes, returningBytes, hostBlocks,
          List.map_cons, List.sum_cons]
        omega
      refine ⟨?_, fun hne hle => ?_, List.forall_mem_cons.mpr ⟨hpromised, h.promised⟩, h.returned⟩
      · rw [Option.getD_some, hcounted]
        simp only [h.counter, Platform.wrap_wrap_add]
      · have hbound := h.bounded hne hle
        have hcounter := h.counter
        rw [Platform.wrap_of_le (hbound.trans hle)] at hcounter
        rw [Option.getD_some, hcounted, ← hcounter]
        exact hlimit hne

/-- A request touches no memory. -/
theorem Arranged.of_eq (h : Arranged p m) {m' : ContextMemory} (hheaders : m'.headers = m.headers)
    (harenas : m'.arenas = m.arenas) : Arranged p m' := by
  have hhost : m'.hostBlocks = m.hostBlocks := by unfold hostBlocks; rw [hheaders]
  have hregions : m'.regions = m.regions := by unfold regions; rw [hhost, harenas]
  refine ⟨hregions ▸ h.inside, hregions ▸ h.apart, hhost ▸ h.placed, harenas ▸ h.valid, ?_,
    hheaders ▸ h.distinct⟩
  rw [hheaders, harenas]
  exact h.lodged

theorem Arranged.request (h : Arranged p m) (size alignment : ℕ) :
    Arranged p ((m.request p size alignment).getD m) := by
  cases hrequest : m.request p size alignment with
  | none => exact h
  | some m' =>
      unfold ContextMemory.request at hrequest
      simp only at hrequest
      split_ifs at hrequest
      obtain ⟨m₁, hreserve, rfl⟩ := Option.map_eq_some_iff.mp hrequest
      obtain ⟨rfl, -⟩ := reserveBytes_some hreserve
      exact h.of_eq rfl rfl

/-! ## Answers -/

theorem pendingBytes_erase {reservation : Reservation} (hmem : reservation ∈ m.pending) :
    m.pendingBytes = reservation.size + ((m.pending.erase reservation).map Reservation.size).sum := by
  have hperm := (List.perm_cons_erase hmem).map Reservation.size
  rw [pendingBytes, hperm.sum_eq, List.map_cons, List.sum_cons]

/-- A reservation the host refuses is taken off the counter again. -/
theorem Counted.answer_none (h : Counted p m) {reservation : Reservation}
    (hmem : reservation ∈ m.pending) :
    (m.answer p reservation none).countedBytes + reservation.size = m.countedBytes ∧
      Counted p (m.answer p reservation none) := by
  have hpending := pendingBytes_erase hmem
  have hpromised := h.promised reservation hmem
  have hsize : reservation.size ≤ p.sizeMax := by
    have hpos := Nat.pos_of_isPowerOfTwo hpromised.alignment_isPowerOfTwo
    have htotal := hpromised.totalSize_eq
    have hle := hpromised.totalSize_le
    omega
  have hcounted : (m.answer p reservation none).countedBytes + reservation.size =
      m.countedBytes := by
    simp only [countedBytes, hpending]
    simp only [answer, liveBytes, hostBlocks, pendingBytes, returningBytes]
    omega
  refine ⟨hcounted, ?_, fun hne hle => ?_, fun other hother => ?_, h.returned⟩
  · change p.wrapSub m.allocatedBytes reservation.size = _
    rw [h.counter, ← hcounted, Platform.wrapSub_wrap_add _ hsize]
  · have hbound := h.bounded hne hle
    change _ ≤ m.memoryLimit
    omega
  · exact h.promised other (List.mem_of_mem_erase hother)

/-- A reservation the host grants stays on the counter. -/
theorem Counted.answer_some (h : Counted p m) {reservation : Reservation}
    (hmem : reservation ∈ m.pending) (rawMemory : ℕ) :
    Counted p (m.answer p reservation (some rawMemory)) := by
  have hpending := pendingBytes_erase hmem
  have hpromised := h.promised reservation hmem
  have hne : reservation.totalSize ≠ 0 := by
    have hpos := hpromised.size_pos
    have hpower := Nat.pos_of_isPowerOfTwo hpromised.alignment_isPowerOfTwo
    have htotal := hpromised.totalSize_eq
    omega
  have hcounted : (m.answer p reservation (some rawMemory)).countedBytes = m.countedBytes := by
    simp only [countedBytes, hpending]
    simp only [answer, liveBytes, hostBlocks, pendingBytes, returningBytes, List.filter_cons, hne,
      ne_eq, not_false_eq_true, decide_true, if_true, List.map_cons, List.sum_cons]
    omega
  refine ⟨?_, ?_, fun other hother => ?_, h.returned⟩
  · rw [hcounted]
    exact h.counter
  · rw [hcounted]
    exact h.bounded
  · exact h.promised other (List.mem_of_mem_erase hother)

/-- The address of the payload does not wrap, and the payload and its header are in the block. -/
theorem placedPayload_spec {reservation : Reservation} {rawMemory : ℕ}
    (hpromised : Promised p reservation)
    (hfit : rawMemory + reservation.totalSize ≤ p.sizeMax + 1) :
    reservation.alignment ∣ placedPayload p rawMemory reservation.alignment ∧
      Placed p ⟨placedPayload p rawMemory reservation.alignment, rawMemory,
        reservation.totalSize, reservation.size⟩ := by
  have hsize := hpromised.size_pos
  have hpos := Nat.pos_of_isPowerOfTwo hpromised.alignment_isPowerOfTwo
  have htotal := hpromised.totalSize_eq
  obtain ⟨hle, hlt, hdvd⟩ :=
    @Platform.roundUp_spec (rawMemory + p.headerSize) _ hpos
  have hpayload : placedPayload p rawMemory reservation.alignment =
      (rawMemory + p.headerSize + reservation.alignment - 1) / reservation.alignment *
        reservation.alignment := by
    unfold placedPayload
    have hstart : rawMemory + p.headerSize ≤ p.sizeMax := by omega
    rw [Platform.wrap_of_le hstart, Platform.wrap_of_le (by omega)]
  rw [hpayload]
  exact ⟨hdvd, hsize, hle, by simp only; omega⟩

theorem Arranged.answer_some (h : Arranged p m) {reservation : Reservation} {rawMemory : ℕ}
    (hpromised : Promised p reservation) (hfresh : m.Fresh p rawMemory reservation.totalSize) :
    Arranged p (m.answer p reservation (some rawMemory)) := by
  obtain ⟨-, hplaced⟩ := placedPayload_spec hpromised hfresh.2.1
  have hsize := hplaced.requestedSize_pos
  have hle := hplaced.le_payload
  have hge := hplaced.payload_le
  simp only at hsize hle hge
  have hne : reservation.totalSize ≠ 0 := by omega
  have hhost : (m.answer p reservation (some rawMemory)).hostBlocks =
      ⟨placedPayload p rawMemory reservation.alignment, rawMemory, reservation.totalSize,
        reservation.size⟩ :: m.hostBlocks := by
    simp [answer, hostBlocks, hne]
  have hregions : (m.answer p reservation (some rawMemory)).regions =
      (rawMemory, rawMemory + reservation.totalSize) :: m.regions := by
    unfold regions
    rw [hhost]
    rfl
  refine ⟨?_, ?_, ?_, h.valid, ?_, ?_⟩
  · rw [hregions]
    exact List.forall_mem_cons.mpr ⟨⟨Nat.pos_of_ne_zero hfresh.1, hfresh.2.1⟩, h.inside⟩
  · rw [hregions]
    exact List.pairwise_cons.mpr ⟨hfresh.2.2, h.apart⟩
  · rw [hhost]
    exact List.forall_mem_cons.mpr ⟨hplaced, h.placed⟩
  · exact List.forall_mem_cons.mpr ⟨fun hzero => absurd hzero hne, h.lodged⟩
  · refine List.pairwise_cons.mpr ⟨fun header hheader => ?_, h.distinct⟩
    have hstart : rawMemory ≤ placedPayload p rawMemory reservation.alignment := by omega
    exact h.payload_ne hfresh hstart (by omega) hheader

/-! ## Deallocations -/

theorem headerOf_some {memory : ℕ} {header : AllocationHeader}
    (h : m.headerOf memory = some header) : header ∈ m.headers ∧ header.payload = memory :=
  ⟨List.mem_of_find?_eq_some h, by simpa using List.find?_some h⟩

/-- The headers with one of them first. -/
theorem headers_perm {header : AllocationHeader} (h : header ∈ m.headers) :
    m.headers.Perm (header :: m.headers.erase header) := List.perm_cons_erase h

/-- The other headers hide before other payloads. -/
theorem Arranged.erase_ne (h : Arranged p m) {header other : AllocationHeader}
    (hheader : header ∈ m.headers) (hother : other ∈ m.headers.erase header) :
    header.payload ≠ other.payload := by
  have hpairwise := (headers_perm hheader).pairwise_iff (R := fun a b : AllocationHeader =>
    a.payload ≠ b.payload) (fun hne => hne.symm) |>.mp h.distinct
  exact (List.pairwise_cons.mp hpairwise).1 other hother

/-- A change of the arenas that keeps their places, of headers of workspaces only. -/
theorem Arranged.of_arenas (h : Arranged p m) {m' : ContextMemory}
    (hhost : m'.hostBlocks.Perm m.hostBlocks)
    (hplaces : (m'.arenas.map fun arena => (arena.session, arena.session + arena.size)).Perm
      (m.arenas.map fun arena => (arena.session, arena.session + arena.size)))
    (hvalid : ∀ arena ∈ m'.arenas,
      Arena.Valid p (arena.session + p.arenaOffset) (arena.session + arena.size) arena.blocks)
    (hlodged : ∀ header ∈ m'.headers, header.allocatedSize = 0 → ∃ arena ∈ m'.arenas,
      arena.session = header.rawMemory ∧
        ∃ block ∈ Arena.live arena.blocks, block.payload p = header.payload)
    (hdistinct : m'.headers.Pairwise fun a b => a.payload ≠ b.payload) : Arranged p m' := by
  have hregions : m'.regions.Perm m.regions := (hhost.map _).append hplaces
  refine ⟨fun region hregion => h.inside region (hregions.mem_iff.mp hregion), ?_,
    fun header hheader => h.placed header (hhost.mem_iff.mp hheader), hvalid, hlodged, hdistinct⟩
  exact (hregions.pairwise_iff fun hapart => hapart.symm).mpr h.apart

/-- The blocks of the host when a header of a workspace goes. -/
theorem hostBlocks_erase {header : AllocationHeader} (hheader : header ∈ m.headers)
    (hzero : header.allocatedSize = 0) :
    m.hostBlocks.Perm ((m.headers.erase header).filter fun header => header.allocatedSize ≠ 0) := by
  have hperm := (headers_perm hheader).filter fun header => header.allocatedSize ≠ 0
  simpa [hostBlocks, List.filter_cons, hzero] using hperm

/-- The blocks of the host when a block of the host goes. -/
theorem hostBlocks_perm {header : AllocationHeader} (hheader : header ∈ m.headers)
    (hhost : header.allocatedSize ≠ 0) :
    m.hostBlocks.Perm
      (header :: (m.headers.erase header).filter fun header => header.allocatedSize ≠ 0) := by
  have hperm := (headers_perm hheader).filter fun header => header.allocatedSize ≠ 0
  simpa [hostBlocks, List.filter_cons, hhost] using hperm

/-- Bytes counted do not depend on the order of the blocks. -/
theorem countedBytes_of_perm {m' : ContextMemory} (hhost : m'.hostBlocks.Perm m.hostBlocks)
    (hpending : m'.pending = m.pending) (hreturning : m'.returning = m.returning) :
    m'.countedBytes = m.countedBytes := by
  unfold countedBytes liveBytes pendingBytes returningBytes
  rw [(hhost.map _).sum_eq, hpending, hreturning]

theorem Counted.of_perm (h : Counted p m) {m' : ContextMemory}
    (hhost : m'.hostBlocks.Perm m.hostBlocks) (hpending : m'.pending = m.pending)
    (hreturning : m'.returning = m.returning) (hcounter : m'.allocatedBytes = m.allocatedBytes)
    (hlimit : m'.memoryLimit = m.memoryLimit) : Counted p m' := by
  have hcounted := countedBytes_of_perm hhost hpending hreturning
  refine ⟨?_, ?_, hpending ▸ h.promised, hreturning ▸ h.returned⟩
  · rw [hcounter, hcounted]
    exact h.counter
  · rw [hlimit, hcounted]
    exact h.bounded

/-- What the deallocator does with a payload that is in use: a block of a workspace goes back to its
arena, and a block of the host to the host. -/
theorem Arranged.deallocate_cases (h : Arranged p m) {memory : ℕ} (hne : memory ≠ 0)
    (hheld : ∃ header ∈ m.headers, header.payload = memory) :
    ∃ header ∈ m.headers, header.payload = memory ∧
      ((header.allocatedSize = 0 ∧ ∃ arena ∈ m.arenas, arena.session = header.rawMemory ∧
          m.deallocate p memory = { m with
            headers := m.headers.erase header
            arenas := { arena with blocks := Arena.deallocate p memory arena.blocks } ::
              m.arenas.erase arena }) ∨
        (header.allocatedSize ≠ 0 ∧
          m.deallocate p memory = { m with
            headers := m.headers.erase header
            returning := header.requestedSize :: m.returning })) := by
  unfold ContextMemory.deallocate
  rw [if_neg hne]
  cases hfind : m.headerOf memory with
  | none =>
      obtain ⟨header, hheader, hpayload⟩ := hheld
      unfold headerOf at hfind
      rw [List.find?_eq_none] at hfind
      exact absurd hpayload (by simpa using hfind header hheader)
  | some header =>
      obtain ⟨hheader, hpayload⟩ := headerOf_some hfind
      refine ⟨header, hheader, hpayload, ?_⟩
      by_cases hzero : header.allocatedSize = 0
      · obtain ⟨arena, harena, hsession, -⟩ := h.lodged header hheader hzero
        have hinside := h.inside (arena.session, arena.session + arena.size)
          (List.mem_append_right _ (List.mem_map_of_mem harena))
        have hraw : header.rawMemory ≠ 0 := hsession ▸ hinside.1.ne'
        simp only
        rw [if_pos ⟨hzero, hraw⟩]
        cases hfound : m.arenas.find? fun arena => arena.session = header.rawMemory with
        | none =>
            rw [List.find?_eq_none] at hfound
            exact absurd hsession (by simpa using hfound arena harena)
        | some arena =>
            refine .inl ⟨hzero, arena, List.mem_of_find?_eq_some hfound, ?_, rfl⟩
            simpa using List.find?_some hfound
      · refine .inr ⟨hzero, ?_⟩
        simp only
        rw [if_neg fun hboth => hzero hboth.1]

/-- One arena in another state has its place still. -/
theorem arenas_perm {arena : SessionArena} (harena : arena ∈ m.arenas) (blocks : Arena) :
    (({ arena with blocks := blocks } :: m.arenas.erase arena).map fun arena : SessionArena =>
      (arena.session, arena.session + arena.size)).Perm
        (m.arenas.map fun arena => (arena.session, arena.session + arena.size)) :=
  ((List.perm_cons_erase harena).map fun arena : SessionArena =>
    (arena.session, arena.session + arena.size)).symm

theorem Arranged.deallocate (h : Arranged p m) {memory : ℕ}
    (hlegal : memory = 0 ∨ ∃ header ∈ m.headers, header.payload = memory) :
    Arranged p (m.deallocate p memory) := by
  by_cases hnull : memory = 0
  · unfold ContextMemory.deallocate
    rwa [if_pos hnull]
  obtain ⟨header, hheader, hpayload, ⟨hzero, arena, harena, hsession, heq⟩ | ⟨hhost, heq⟩⟩ :=
    h.deallocate_cases hnull (hlegal.resolve_left hnull)
  · rw [heq]
    have harenaValid := (h.valid arena harena).deallocate memory
    refine h.of_arenas (hostBlocks_erase hheader hzero).symm (arenas_perm harena _) ?_ ?_
      (h.distinct.sublist List.erase_sublist)
    · refine List.forall_mem_cons.mpr ⟨harenaValid.1, fun other hother => ?_⟩
      exact h.valid other (List.mem_of_mem_erase hother)
    · intro other hother hotherZero
      obtain ⟨home, hhome, hhomeSession, block, hblock, hblockPayload⟩ :=
        h.lodged other (List.mem_of_mem_erase hother) hotherZero
      by_cases hsame : home = arena
      · -- The block of another payload stays in use in the arena.
        refine ⟨_, List.mem_cons_self, hsame ▸ hhomeSession, block, ?_, hblockPayload⟩
        simp only
        rw [harenaValid.2]
        refine ⟨hsame ▸ hblock, ?_⟩
        rw [hblockPayload, ← hpayload]
        exact (h.erase_ne hheader hother).symm
      · exact ⟨home, List.mem_cons_of_mem _ ((List.mem_erase_of_ne hsame).mpr hhome), hhomeSession,
          block, hblock, hblockPayload⟩
  · rw [heq]
    have hperm := hostBlocks_perm hheader hhost
    have hregions : m.regions.Perm ((header.rawMemory, header.rawMemory + header.allocatedSize) ::
        regions { m with
          headers := m.headers.erase header, returning := header.requestedSize :: m.returning }) :=
      (hperm.map _).append (List.Perm.refl _)
    have hapart := (hregions.pairwise_iff fun hapart => hapart.symm).mp h.apart
    refine ⟨fun region hregion => ?_, (List.pairwise_cons.mp hapart).2, fun other hother => ?_,
      h.valid, fun other hother => h.lodged other (List.mem_of_mem_erase hother),
      h.distinct.sublist List.erase_sublist⟩
    · exact h.inside region (hregions.mem_iff.mpr (List.mem_cons_of_mem _ hregion))
    · exact h.placed other (hperm.mem_iff.mpr (List.mem_cons_of_mem _ hother))

theorem Counted.deallocate (h : Counted p m) (harranged : Arranged p m) {memory : ℕ}
    (hlegal : memory = 0 ∨ ∃ header ∈ m.headers, header.payload = memory) :
    Counted p (m.deallocate p memory) := by
  by_cases hnull : memory = 0
  · unfold ContextMemory.deallocate
    rwa [if_pos hnull]
  obtain ⟨header, hheader, -, ⟨hzero, arena, -, -, heq⟩ | ⟨hhost, heq⟩⟩ :=
    harranged.deallocate_cases hnull (hlegal.resolve_left hnull)
  · rw [heq]
    exact h.of_perm (hostBlocks_erase hheader hzero).symm rfl rfl rfl rfl
  · have hperm := hostBlocks_perm hheader hhost
    have hlive : m.liveBytes = header.requestedSize +
        (((m.headers.erase header).filter fun header => header.allocatedSize ≠ 0).map
          AllocationHeader.requestedSize).sum := by
      rw [liveBytes, (hperm.map _).sum_eq, List.map_cons, List.sum_cons]
    have hcounted : (m.deallocate p memory).countedBytes = m.countedBytes := by
      rw [heq]
      simp only [countedBytes, hlive]
      simp only [liveBytes, hostBlocks, pendingBytes, returningBytes, List.sum_cons]
      omega
    have hsize : header.requestedSize ≤ p.sizeMax := by
      have hle := harranged.liveBytes_le
      omega
    refine ⟨?_, ?_, ?_, ?_⟩
    · rw [hcounted, heq]
      exact h.counter
    · rw [hcounted, heq]
      exact h.bounded
    · rw [heq]
      exact h.promised
    · rw [heq]
      exact List.forall_mem_cons.mpr ⟨hsize, h.returned⟩

theorem Counted.settle (h : Counted p m) {size : ℕ} (hmem : size ∈ m.returning) :
    Counted p (m.settle p size) := by
  have hsum : m.returning.sum = size + (m.returning.erase size).sum := by
    rw [(List.perm_cons_erase hmem).sum_eq, List.sum_cons]
  have hcounted : (m.settle p size).countedBytes + size = m.countedBytes := by
    simp only [countedBytes, returningBytes, hsum]
    simp only [ContextMemory.settle, liveBytes, hostBlocks, pendingBytes]
    omega
  refine ⟨?_, fun hne hle => ?_, h.promised, fun other hother => ?_⟩
  · change p.wrapSub m.allocatedBytes size = _
    rw [h.counter, ← hcounted, Platform.wrapSub_wrap_add _ (h.returned size hmem)]
  · have hbound := h.bounded hne hle
    change _ ≤ m.memoryLimit
    omega
  · exact h.returned other (List.mem_of_mem_erase hother)

/-! ## Workspaces -/

theorem Arranged.openWorkspace (h : Arranged p m) {session size : ℕ}
    (hfresh : m.Fresh p session size) : Arranged p (m.openWorkspace p session size) := by
  unfold ContextMemory.openWorkspace
  cases hblocks : Arena.initialBlocks p session size with
  | none => exact h
  | some blocks =>
      have hvalid := (Arena.valid_initialBlocks hblocks).1
      have hregions : (regions { m with arenas := ⟨session, size, blocks⟩ :: m.arenas }).Perm
          ((session, session + size) :: m.regions) := List.perm_middle
      have hapart := (hregions.pairwise_iff fun hapart => hapart.symm).mpr
        (List.pairwise_cons.mpr ⟨hfresh.2.2, h.apart⟩)
      refine ⟨fun region hregion => ?_, hapart, h.placed,
        List.forall_mem_cons.mpr ⟨hvalid, h.valid⟩, fun header hheader hzero => ?_, h.distinct⟩
      · rcases List.mem_cons.mp (hregions.mem_iff.mp hregion) with rfl | hold
        · exact ⟨Nat.pos_of_ne_zero hfresh.1, hfresh.2.1⟩
        · exact h.inside region hold
      · obtain ⟨arena, harena, hlodged⟩ := h.lodged header hheader hzero
        exact ⟨arena, List.mem_cons_of_mem _ harena, hlodged⟩

/-- Closing a workspace keeps the blocks of the host. -/
theorem hostBlocks_closeWorkspace (m : ContextMemory) (session : ℕ) :
    (m.closeWorkspace session).hostBlocks = m.hostBlocks := by
  unfold ContextMemory.closeWorkspace hostBlocks
  rw [List.filter_filter]
  apply List.filter_congr
  intro header _
  by_cases hzero : header.allocatedSize = 0 <;> simp [hzero]

theorem Arranged.closeWorkspace (h : Arranged p m) (session : ℕ) :
    Arranged p (m.closeWorkspace session) := by
  have hhost := hostBlocks_closeWorkspace m session
  have hregions : (m.closeWorkspace session).regions.Sublist m.regions := by
    unfold regions
    rw [hhost]
    exact (List.Sublist.refl _).append (List.filter_sublist.map _)
  refine ⟨fun region hregion => h.inside region (hregions.subset hregion),
    h.apart.sublist hregions, hhost ▸ h.placed,
    fun arena harena => h.valid arena (List.mem_filter.mp harena).1, fun header hheader hzero => ?_,
    h.distinct.sublist List.filter_sublist⟩
  obtain ⟨hheader, hother⟩ := List.mem_filter.mp hheader
  obtain ⟨arena, harena, hsession, hlodged⟩ := h.lodged header hheader hzero
  refine ⟨arena, List.mem_filter.mpr ⟨harena, ?_⟩, hsession, hlodged⟩
  simpa [hzero, hsession] using hother

/-- Blocks of two workspaces, or of a workspace and of the host, have different payloads. -/
theorem Arranged.payload_ne_of_arena (h : Arranged p m) {arena : SessionArena}
    (harena : arena ∈ m.arenas) {address : ℕ} (hge : arena.session ≤ address)
    (hlt : address < arena.session + arena.size)
    (hfree : ∀ block ∈ Arena.live arena.blocks, block.payload p ≠ address)
    {header : AllocationHeader} (hheader : header ∈ m.headers) : address ≠ header.payload := by
  rintro rfl
  have hregion : (arena.session, arena.session + arena.size) ∈ m.arenas.map
      fun arena => (arena.session, arena.session + arena.size) := List.mem_map_of_mem harena
  obtain ⟨hhosts, harenas, hacross⟩ := List.pairwise_append.mp h.apart
  by_cases hzero : header.allocatedSize = 0
  · obtain ⟨home, hhome, -, block, hblock, hpayload⟩ := h.lodged header hheader hzero
    by_cases hsame : home = arena
    · exact hfree block (hsame ▸ hblock) hpayload
    · have hbounds := (h.valid home hhome).tiled.bounds hblock.1
      have hroomy := (h.valid home hhome).roomy block hblock.1
      have hpos := p.maxAlignment_pos
      rw [List.pairwise_map] at harenas
      have : Std.Symm fun a b : SessionArena => Apart Prod.fst Prod.snd
          (a.session, a.session + a.size) (b.session, b.session + b.size) := ⟨fun _ _ => Apart.symm⟩
      have hapart := harenas.forall hhome harena hsame
      unfold Apart at hapart
      unfold ArenaBlock.past at hbounds
      unfold ArenaBlock.payload at hpayload
      simp only at hapart
      omega
  · have hhost : header ∈ m.hostBlocks := mem_hostBlocks.mpr ⟨hheader, hzero⟩
    have hplaced := h.placed header hhost
    have hpos := hplaced.requestedSize_pos
    have hle := hplaced.le_payload
    have hpast := hplaced.payload_le
    have hapart := hacross _ (List.mem_map_of_mem (f := fun header : AllocationHeader =>
      (header.rawMemory, header.rawMemory + header.allocatedSize)) hhost) _ hregion
    unfold Apart at hapart
    simp only at hapart
    omega

theorem Arranged.sessionAllocate (h : Arranged p m) (session size alignment : ℕ) :
    Arranged p (m.sessionAllocate p session size alignment) := by
  unfold ContextMemory.sessionAllocate
  cases hfind : m.arenas.find? fun arena => arena.session = session with
  | none => exact h
  | some arena =>
      have harena := List.mem_of_find?_eq_some hfind
      have hsession : arena.session = session := by simpa using List.find?_some hfind
      simp only
      rcases hallocate : Arena.allocate p size alignment arena.blocks with ⟨_ | payload, blocks⟩
      · exact h
      · obtain ⟨hvalid, -, hfree, used, hpayload, -, hlive⟩ :=
          (h.valid arena harena).allocate hallocate
        have hused : used ∈ Arena.live blocks := hlive ▸ Set.mem_insert _ _
        have hbounds := hvalid.tiled.bounds hused.1
        have hroomy := hvalid.roomy used hused.1
        have hpos := p.maxAlignment_pos
        unfold ArenaBlock.past at hbounds
        refine h.of_arenas ?_ (arenas_perm harena _) ?_ ?_ ?_
        · simp [hostBlocks]
        · refine List.forall_mem_cons.mpr ⟨hvalid, fun other hother => ?_⟩
          exact h.valid other (List.mem_of_mem_erase hother)
        · refine List.forall_mem_cons.mpr ⟨fun _ => ?_, fun other hother hzero => ?_⟩
          · exact ⟨_, List.mem_cons_self, hsession, used, hused, hpayload⟩
          · obtain ⟨home, hhome, hhomeSession, block, hblock, hblockPayload⟩ :=
              h.lodged other hother hzero
            by_cases hsame : home = arena
            · refine ⟨_, List.mem_cons_self, hsame ▸ hhomeSession, block, ?_, hblockPayload⟩
              simp only
              rw [hlive]
              exact Set.mem_insert_of_mem _ (hsame ▸ hblock)
            · exact ⟨home, List.mem_cons_of_mem _ ((List.mem_erase_of_ne hsame).mpr hhome),
                hhomeSession, block, hblock, hblockPayload⟩
        · refine List.pairwise_cons.mpr ⟨fun other hother => ?_, h.distinct⟩
          unfold ArenaBlock.payload at hpayload
          exact h.payload_ne_of_arena harena (by omega) (by omega) hfree hother

theorem Counted.sessionAllocate (h : Counted p m) (session size alignment : ℕ) :
    Counted p (m.sessionAllocate p session size alignment) := by
  unfold ContextMemory.sessionAllocate
  cases m.arenas.find? fun arena => arena.session = session with
  | none => exact h
  | some arena =>
      simp only
      rcases Arena.allocate p size alignment arena.blocks with ⟨_ | payload, blocks⟩
      · exact h
      · exact h.of_perm (by simp [hostBlocks]) rfl rfl rfl rfl

/-! ## Runs -/

/-- Every step keeps the memory arranged and the counter right. -/
theorem step_invariant (harranged : Arranged p m) (hcounted : Counted p m) {op : ContextOp}
    (hlegal : m.Legal p op) : Arranged p (m.step p op) ∧ Counted p (m.step p op) := by
  cases op with
  | request size alignment => exact ⟨harranged.request _ _, hcounted.request hlegal.2⟩
  | answer reservation rawMemory =>
      cases rawMemory with
      | none => exact ⟨harranged.of_eq rfl rfl, (hcounted.answer_none hlegal).2⟩
      | some rawMemory =>
          obtain ⟨hmem, hfresh⟩ := hlegal
          exact ⟨harranged.answer_some (hcounted.promised _ hmem) hfresh,
            hcounted.answer_some hmem rawMemory⟩
  | deallocate memory => exact ⟨harranged.deallocate hlegal, hcounted.deallocate harranged hlegal⟩
  | settle size => exact ⟨harranged.of_eq rfl rfl, hcounted.settle hlegal⟩
  | openWorkspace session size =>
      refine ⟨harranged.openWorkspace hlegal, ?_⟩
      change Counted p (m.openWorkspace p session size)
      unfold ContextMemory.openWorkspace
      cases Arena.initialBlocks p session size with
      | none => exact hcounted
      | some blocks => exact hcounted.of_perm (List.Perm.refl _) rfl rfl rfl rfl
  | closeWorkspace session =>
      refine ⟨harranged.closeWorkspace session, hcounted.of_perm ?_ rfl rfl rfl rfl⟩
      exact List.Perm.of_eq (hostBlocks_closeWorkspace m session)
  | sessionAllocate session size alignment =>
      exact ⟨harranged.sessionAllocate _ _ _, hcounted.sessionAllocate _ _ _⟩

/-- The limit of a context does not change. -/
theorem step_memoryLimit (m : ContextMemory) (op : ContextOp) :
    (m.step p op).memoryLimit = m.memoryLimit := by
  cases op with
  | request size alignment =>
      change ((m.request p size alignment).getD m).memoryLimit = m.memoryLimit
      cases hrequest : m.request p size alignment with
      | none => rfl
      | some m' =>
          unfold ContextMemory.request at hrequest
          simp only at hrequest
          split_ifs at hrequest
          obtain ⟨m₁, hreserve, rfl⟩ := Option.map_eq_some_iff.mp hrequest
          obtain ⟨rfl, -⟩ := reserveBytes_some hreserve
          rfl
  | answer reservation rawMemory => cases rawMemory <;> rfl
  | deallocate memory =>
      change (m.deallocate p memory).memoryLimit = m.memoryLimit
      unfold ContextMemory.deallocate
      split_ifs
      · rfl
      · split
        · rfl
        · split_ifs
          · split <;> rfl
          · rfl
  | settle size => rfl
  | openWorkspace session size =>
      change (m.openWorkspace p session size).memoryLimit = m.memoryLimit
      unfold ContextMemory.openWorkspace
      split <;> rfl
  | closeWorkspace session => rfl
  | sessionAllocate session size alignment =>
      change (m.sessionAllocate p session size alignment).memoryLimit = m.memoryLimit
      unfold ContextMemory.sessionAllocate
      split
      · rfl
      · split <;> rfl

theorem Reachable.invariant {memoryLimit : ℕ} (h : Reachable p memoryLimit m) :
    Arranged p m ∧ Counted p m ∧ m.memoryLimit = memoryLimit := by
  induction h with
  | initial =>
      have hregions : (ContextMemory.initial memoryLimit).regions = [] := rfl
      refine ⟨⟨by simp [hregions], by simp [hregions], ?_, ?_, ?_, List.Pairwise.nil⟩,
        ⟨(Platform.wrap_of_le (Nat.zero_le _)).symm, fun _ _ => Nat.zero_le _, ?_, ?_⟩, rfl⟩ <;>
      · intro element helement
        exact absurd helement List.not_mem_nil
  | step op h hlegal ih =>
      obtain ⟨harranged, hcounted, hlimit⟩ := ih
      obtain ⟨harranged', hcounted'⟩ := step_invariant harranged hcounted hlegal
      exact ⟨harranged', hcounted', (step_memoryLimit _ op).trans hlimit⟩

/-! ## The accounting of a context -/

/-- A header is the only one before its payload. -/
theorem Arranged.eq_of_payload_eq (h : Arranged p m) {header other : AllocationHeader}
    (hheader : header ∈ m.headers) (hother : other ∈ m.headers)
    (heq : header.payload = other.payload) : header = other := by
  by_contra hne
  have hmem : other ∈ m.headers.erase header :=
    (List.mem_erase_of_ne fun hsame => hne hsame.symm).mpr hother
  exact h.erase_ne hheader hmem heq

/-- A call that the host refuses leaves the context as it found it. -/
theorem Counted.request_answer_none (h : Counted p m) {size alignment : ℕ} {m' : ContextMemory}
    (halignment : alignment ≤ p.sizeMax) (hrequest : m.request p size alignment = some m') :
    ∃ reservation ∈ m'.pending, m'.answer p reservation none = m := by
  obtain ⟨reservation, hpromised, -, -, rfl, -⟩ := request_some halignment hrequest
  refine ⟨reservation, List.mem_cons_self, ?_⟩
  have hsize : reservation.size ≤ p.sizeMax := by
    have hpos := Nat.pos_of_isPowerOfTwo hpromised.alignment_isPowerOfTwo
    have htotal := hpromised.totalSize_eq
    have hle := hpromised.totalSize_le
    omega
  have hcounter : p.wrap m.allocatedBytes = m.allocatedBytes :=
    Platform.wrap_of_le (h.counter ▸ p.wrap_le _)
  simp only [answer, List.erase_cons_head, Platform.wrapSub_wrap_add _ hsize, hcounter]

/-- The accounting of a context in every state it can reach. The counter has the bytes of the blocks
in use, of the calls the host has not answered and of the blocks just given back, modulo the size of
the counter only when no limit that it can hold is set; so between calls it has exactly the bytes in
use, and nothing when nothing is in use. It stays within a limit. A call that fails takes nothing:
one that is refused changes nothing, and one the host refuses takes exactly its reservation back.
The sizes and the addresses of an allocation do not wrap, and a block of a workspace that is given
back does not change the counter. -/
theorem context_accounting (p : Platform) {memoryLimit : ℕ} {m : ContextMemory}
    (h : Reachable p memoryLimit m) :
    (m.allocatedBytes = p.wrap (m.liveBytes + m.pendingBytes + m.returningBytes) ∧
        (memoryLimit ≠ 0 → m.allocatedBytes ≤ memoryLimit) ∧
        (memoryLimit ≠ 0 → memoryLimit ≤ p.sizeMax →
          m.allocatedBytes = m.liveBytes + m.pendingBytes + m.returningBytes) ∧
        (m.pending = [] → m.returning = [] →
          m.allocatedBytes = m.liveBytes ∧ (m.hostBlocks = [] → m.allocatedBytes = 0))) ∧
      (∀ reservation ∈ m.pending,
        (m.step p (.answer reservation none)).countedBytes + reservation.size = m.countedBytes) ∧
      (∀ size alignment, size ≤ p.sizeMax → alignment ≤ p.sizeMax →
        (isPowerOfTwo (Arena.effectiveAlignment p alignment) = true →
          p.headerSize + (Arena.effectiveAlignment p alignment - 1) ≤ p.sizeMax) ∧
        (m.request p size alignment = none → m.step p (.request size alignment) = m) ∧
        ∀ m', m.request p size alignment = some m' →
          (∃ reservation ∈ m'.pending, m'.step p (.answer reservation none) = m) ∧
          (memoryLimit ≠ 0 → memoryLimit ≤ p.sizeMax →
            m.allocatedBytes + Arena.effectiveSize size ≤ p.sizeMax)) ∧
      (∀ reservation ∈ m.pending,
        reservation.totalSize = reservation.size + p.headerSize + reservation.alignment - 1 ∧
        reservation.size + p.headerSize + reservation.alignment - 1 ≤ p.sizeMax ∧
        ∀ rawMemory, m.Fresh p rawMemory reservation.totalSize →
          let payload := placedPayload p rawMemory reservation.alignment
          rawMemory + p.headerSize + reservation.alignment - 1 ≤ p.sizeMax ∧
          reservation.alignment ∣ payload ∧ rawMemory + p.headerSize ≤ payload ∧
          payload + reservation.size ≤ rawMemory + reservation.totalSize) ∧
      ∀ header ∈ m.headers, header.allocatedSize = 0 →
        (m.step p (.deallocate header.payload)).allocatedBytes = m.allocatedBytes ∧
        (m.step p (.deallocate header.payload)).countedBytes = m.countedBytes := by
  obtain ⟨harranged, hcounted, rfl⟩ := h.invariant
  have hexact : m.memoryLimit ≠ 0 → m.memoryLimit ≤ p.sizeMax →
      m.allocatedBytes = m.countedBytes := fun hne hle => by
    rw [hcounted.counter, Platform.wrap_of_le ((hcounted.bounded hne hle).trans hle)]
  refine ⟨⟨hcounted.counter, fun hne => ?_, hexact, fun hpending hreturning => ?_⟩,
    fun reservation hmem => (hcounted.answer_none hmem).1,
    fun size alignment _ halignment => ⟨fun hpower => ?_, fun hnone => ?_, fun m' hsome => ⟨?_, ?_⟩⟩,
    fun reservation hmem => ?_, fun header hheader hzero => ?_⟩
  · rcases le_or_gt m.memoryLimit p.sizeMax with hle | hlt
    · rw [hexact hne hle]
      exact hcounted.bounded hne hle
    · rw [hcounted.counter]
      exact (p.wrap_le _).trans hlt.le
  · have hlive : m.allocatedBytes = m.liveBytes := by
      rw [hcounted.counter, countedBytes, pendingBytes, returningBytes, hpending, hreturning]
      exact Platform.wrap_of_le harranged.liveBytes_le
    refine ⟨hlive, fun hempty => ?_⟩
    rw [hlive, liveBytes, hempty]
    rfl
  · rw [isPowerOfTwo_iff] at hpower
    have hfit := p.sizes_fit
    have hpointer := p.pointerAlignment_le
    have hle : Arena.effectiveAlignment p alignment ≤ p.sizeMax := max_le halignment (by omega)
    have htwice := Platform.two_mul_le_of_isPowerOfTwo hpower hle
    omega
  · change (m.request p size alignment).getD m = m
    rw [hnone, Option.getD_none]
  · exact hcounted.request_answer_none halignment hsome
  · intro hne hle
    obtain ⟨reservation, -, hsize, -, -, hlimit⟩ := request_some halignment hsome
    rw [← hsize]
    exact (hlimit hne).trans hle
  · have hpromised := hcounted.promised reservation hmem
    have htotal := hpromised.totalSize_eq
    have hsize := hpromised.size_pos
    refine ⟨htotal, htotal ▸ hpromised.totalSize_le, fun rawMemory hfresh => ?_⟩
    obtain ⟨hdvd, hplaced⟩ := placedPayload_spec hpromised hfresh.2.1
    have hfit := hfresh.2.1
    exact ⟨by omega, hdvd, hplaced.le_payload, hplaced.payload_le⟩
  · change (m.deallocate p header.payload).allocatedBytes = _ ∧
      (m.deallocate p header.payload).countedBytes = _
    by_cases hnull : header.payload = 0
    · unfold ContextMemory.deallocate
      rw [if_pos hnull]
      exact ⟨rfl, rfl⟩
    obtain ⟨found, hfound, hpayload, ⟨hworkspace, arena, -, -, heq⟩ | ⟨hhost, -⟩⟩ :=
      harranged.deallocate_cases hnull ⟨header, hheader, rfl⟩
    · rw [heq]
      exact ⟨rfl, countedBytes_of_perm (hostBlocks_erase hfound hworkspace).symm rfl rfl⟩
    · rw [harranged.eq_of_payload_eq hfound hheader hpayload] at hhost
      exact absurd hzero hhost

/-- A context with one block of 100 bytes. -/
theorem reachable_one_block (memoryLimit : ℕ) (hlimit : memoryLimit = 0 ∨ memoryLimit = 100) :
    Reachable lp64 memoryLimit
      ⟨memoryLimit, 100, [⟨4120, 4096, 131, 100⟩], [], [], []⟩ := by
  have hrequest : Reachable lp64 memoryLimit _ :=
    Reachable.step (.request 100 8) Reachable.initial ⟨by decide, by decide⟩
  rcases hlimit with rfl | rfl <;>
    exact hrequest.step (.answer ⟨100, 8, 131⟩ (some 4096)) ⟨by decide, by decide⟩

/-- With a limit of 100 bytes a block of 100 bytes is all there is. -/
theorem context_accounting_one_block :
    (step lp64 ⟨100, 100, [⟨4120, 4096, 131, 100⟩], [], [], []⟩ (.request 1 8)).allocatedBytes = 100 ∧
      (liveBytes ⟨100, 100, [⟨4120, 4096, 131, 100⟩], [], [], []⟩ = 100) := by
  obtain ⟨⟨-, -, -, hquiet⟩, -, hrequest, -⟩ :=
    context_accounting lp64 (reachable_one_block 100 (.inr rfl))
  refine ⟨?_, (hquiet rfl rfl).1.symm⟩
  rw [(hrequest 1 8 (by decide) (by decide)).2.1 (by decide)]

/-- Without a limit a request of nearly the whole address space takes the counter round, until the
host refuses it: in the meantime the counter has less than the block in use. -/
theorem reservation_wraps :
    ∃ m m', Reachable lp64 0 m ∧ m.allocatedBytes = 100 ∧ m.liveBytes = 100 ∧
      m.request lp64 18446744073709551584 8 = some m' ∧ Reachable lp64 0 m' ∧
      lp64.sizeMax < m.allocatedBytes + 18446744073709551584 ∧
      m'.allocatedBytes = 68 ∧ m'.liveBytes = 100 := by
  have hblock := reachable_one_block 0 (.inl rfl)
  have hrequest : Reachable lp64 0 _ :=
    hblock.step (.request 18446744073709551584 8) ⟨by decide, by decide⟩
  exact ⟨_, _, hblock, rfl, rfl, rfl, hrequest, by decide, by decide, by decide⟩

end ContextMemory

end LibApta.Memory
