import Mathlib.Data.List.Chain
import LibApta.Lib.Tiling
import LibApta.Memory.Platform

/-!
# The workspace arena

A session in a host workspace allocates from the rest of that workspace: a list of blocks in address
order, each a header and a capacity. An allocation takes the first free block that is large enough
and splits off what it does not need; a free block is joined with its free neighbours. The list of
blocks stands for the chain of `next` pointers.

The invariant of the list is `Arena.Valid`. Each operation is described by the blocks before and
after the one it works on, and keeps the invariant.
-/

namespace LibApta.Memory

open Tiling

/-- A block of an arena: the address of its header, the bytes behind the header, the bytes its owner
asked for, and whether it is free. -/
structure ArenaBlock where
  address : ℕ
  capacity : ℕ
  requestedSize : ℕ
  free : Bool
deriving DecidableEq

/-- The blocks of an arena. -/
abbrev Arena := List ArenaBlock

namespace ArenaBlock

variable (p : Platform) (block : ArenaBlock)

/-- The address after the last byte of a block. -/
def past : ℕ := block.address + p.blockSize + block.capacity

/-- `apta_workspace_block_payload`. -/
def payload : ℕ := block.address + p.blockSize + p.payloadPrefixSize

end ArenaBlock

namespace Arena

variable (p : Platform)

/-! ## The operations -/

/-- `apta_internal_session_workspace_minimum_size`. -/
def minimumSize : ℕ := p.arenaOffset + p.blockSize + p.payloadPrefixSize + p.maxAlignment

/-- `apta_internal_session_workspace_initialize`: one free block behind the session, or `none` for a
workspace that is too small or not aligned. -/
def initialBlocks (workspace size : ℕ) : Option Arena :=
  if size < minimumSize p then none
  else if workspace % p.maxAlignment ≠ 0 then none
  else some [⟨workspace + p.arenaOffset, size - p.arenaOffset - p.blockSize, 0, true⟩]

/-- Bytes of a block that an allocation of `size` bytes takes, when they fit in a size. -/
def requiredBytes (size : ℕ) : Option ℕ :=
  let padded := p.alignUp size p.maxAlignment
  if padded = p.sizeMax ∨ p.payloadPrefixSize = p.sizeMax ∨ p.sizeMax - padded < p.payloadPrefixSize
  then none
  else some (p.payloadPrefixSize + padded)

/-- The block after an allocation of `size` bytes took `required` bytes of it, and the free block
split off when what remains can hold an allocation. -/
def takeBlock (size required : ℕ) (block : ArenaBlock) : Arena :=
  if p.blockSize + p.payloadPrefixSize + p.maxAlignment ≤ block.capacity - required then
    [{ block with capacity := required, requestedSize := size, free := false },
      ⟨block.address + p.blockSize + required, block.capacity - required - p.blockSize, 0, true⟩]
  else [{ block with requestedSize := size, free := false }]

/-- Take the first free block that is large enough. -/
def firstFit (size required : ℕ) : Arena → Option (ℕ × Arena)
  | [] => none
  | block :: rest =>
      if !block.free || decide (block.capacity < required) then
        (firstFit size required rest).map fun (payload, blocks) => (payload, block :: blocks)
      else some (block.payload p, takeBlock p size required block ++ rest)

/-- The alignment an allocator gives to a request. -/
def effectiveAlignment (alignment : ℕ) : ℕ := max alignment p.pointerAlignment

/-- The size an allocator gives to a request. -/
def effectiveSize (size : ℕ) : ℕ := if size = 0 then 1 else size

/-- `apta_internal_session_allocate` on a session in a workspace. -/
def allocate (size alignment : ℕ) (blocks : Arena) : Option ℕ × Arena :=
  let size := effectiveSize size
  if !isPowerOfTwo (effectiveAlignment p alignment) ||
      decide (p.maxAlignment < effectiveAlignment p alignment) then (none, blocks)
  else
    match requiredBytes p size with
    | none => (none, blocks)
    | some required =>
        match firstFit p size required blocks with
        | none => (none, blocks)
        | some (payload, blocks) => (some payload, blocks)

/-- A free block with the bytes of the block after it. -/
def joined (block next : ArenaBlock) : ArenaBlock :=
  { block with capacity := block.capacity + (p.blockSize + next.capacity) }

/-- A free block joined with the block after it when that is free too, and the blocks behind. -/
def joinNext (block : ArenaBlock) : Arena → ArenaBlock × Arena
  | [] => (block, [])
  | next :: rest => if next.free then (joined p block next, rest) else (block, next :: rest)

/-- A free block and the blocks after it, joined with the block before it when that is free too. -/
def joinPrevious (before : Arena) (block : ArenaBlock) (rest : Arena) : Arena :=
  match before.getLast? with
  | some previous =>
      if previous.free then before.dropLast ++ joined p previous block :: rest
      else before ++ block :: rest
  | none => block :: rest

/-- The block of a payload, with the blocks before and after it. -/
def findPayload (memory : ℕ) : Arena → Option (Arena × ArenaBlock × Arena)
  | [] => none
  | block :: rest =>
      if block.payload p = memory then some ([], block, rest)
      else (findPayload memory rest).map fun (before, found, after) => (block :: before, found, after)

/-- `apta_internal_session_deallocate` on a session in a workspace. An address that is no payload,
and the payload of a free block, are ignored. -/
def deallocate (memory : ℕ) (blocks : Arena) : Arena :=
  match findPayload p memory blocks with
  | none => blocks
  | some (before, block, after) =>
      if block.free then blocks
      else
        let (block, rest) := joinNext p { block with requestedSize := 0, free := true } after
        joinPrevious p before block rest

/-! ## The invariant -/

/-- The blocks tile the arena, their headers are aligned, each can hold an allocation, and a block
in use holds what its owner asked for. -/
structure Sound (start stop : ℕ) (blocks : Arena) : Prop where
  tiled : Tiles ArenaBlock.address (ArenaBlock.past p) start stop blocks
  aligned : ∀ block ∈ blocks, p.maxAlignment ∣ block.address
  roomy : ∀ block ∈ blocks, p.payloadPrefixSize + p.maxAlignment ≤ block.capacity
  held : ∀ block ∈ blocks, block.free = false →
    0 < block.requestedSize ∧ p.payloadPrefixSize + block.requestedSize ≤ block.capacity
  idle : ∀ block ∈ blocks, block.free = true → block.requestedSize = 0

/-- No two neighbours are both free. -/
def Separated (blocks : Arena) : Prop :=
  blocks.IsChain fun earlier later => ¬(earlier.free = true ∧ later.free = true)

/-- The invariant of an arena. -/
structure Valid (start stop : ℕ) (blocks : Arena) : Prop extends Sound p start stop blocks where
  separated : Separated blocks

variable {p} {start stop : ℕ} {blocks : Arena}

/-- The blocks in use. -/
def live (blocks : Arena) : Set ArenaBlock := {block | block ∈ blocks ∧ block.free = false}

@[simp] theorem mem_live {block : ArenaBlock} :
    block ∈ live blocks ↔ block ∈ blocks ∧ block.free = false := Iff.rfl

/-- The arena of a workspace is valid and has no block in use. -/
theorem valid_initialBlocks {workspace size : ℕ}
    (h : initialBlocks p workspace size = some blocks) :
    Valid p (workspace + p.arenaOffset) (workspace + size) blocks ∧ live blocks = ∅ := by
  unfold initialBlocks minimumSize at h
  split_ifs at h with hsmall haligned
  obtain rfl := Option.some.inj h
  have hdvd : p.maxAlignment ∣ workspace + p.arenaOffset :=
    Nat.dvd_add (Nat.dvd_of_mod_eq_zero (not_not.mp haligned)) p.arenaOffset_lt.2
  have hpos := p.blockSize_pos
  refine ⟨⟨⟨?_, by simpa using hdvd, ?_, by simp, by simp⟩, List.isChain_singleton _⟩, ?_⟩
  · rw [tiles_singleton]
    refine ⟨rfl, by omega, ?_⟩
    simp only [ArenaBlock.past]
    omega
  · simp only [List.mem_singleton, forall_eq]
    omega
  · ext block
    simp +contextual [live]

theorem lt_of_initialBlocks {workspace size : ℕ}
    (h : initialBlocks p workspace size = some blocks) :
    workspace + p.arenaOffset < workspace + size := by
  unfold initialBlocks minimumSize at h
  split_ifs at h
  have hpos := p.maxAlignment_pos
  omega

/-- A valid arena with no block in use is the arena of a fresh workspace. -/
theorem Valid.eq_of_live_empty (h : Valid p start stop blocks) (hlt : start < stop)
    (hlive : live blocks = ∅) : blocks = [⟨start, stop - start - p.blockSize, 0, true⟩] := by
  have hfree : ∀ block ∈ blocks, block.free = true := by
    intro block hmem
    by_contra hused
    have hmem' : block ∈ live blocks := ⟨hmem, by simpa using hused⟩
    rw [hlive] at hmem'
    exact hmem'
  rcases blocks with - | ⟨first, - | ⟨second, rest⟩⟩
  · exact absurd h.tiled hlt.ne
  · obtain ⟨haddress, -, hpast⟩ := tiles_singleton.mp h.tiled
    have hidle := h.idle first (by simp) (hfree first (by simp))
    have hstate := hfree first (by simp)
    obtain ⟨address, capacity, requestedSize, free⟩ := first
    simp only [ArenaBlock.past] at haddress hpast hidle hstate
    have hcapacity : capacity = stop - start - p.blockSize := by omega
    rw [haddress, hcapacity, hidle, hstate]
  · -- Two neighbours would both be free.
    have hboth := (List.isChain_cons_cons.mp h.separated).1
    exact absurd ⟨hfree first (by simp), hfree second (by simp)⟩ hboth

/-! ## Allocation -/

/-- The bytes an allocation takes: its payload rounded up to a positive multiple of the largest
alignment, behind the payload prefix. -/
theorem requiredBytes_some {size required : ℕ} (hsize : 0 < size)
    (h : requiredBytes p size = some required) :
    ∃ padded, required = p.payloadPrefixSize + padded ∧ size ≤ padded ∧
      p.maxAlignment ≤ padded ∧ p.maxAlignment ∣ padded := by
  unfold requiredBytes at h
  simp only at h
  split_ifs at h with hwraps
  obtain rfl := Option.some.inj h
  simp only [not_or] at hwraps
  obtain ⟨hle, -, hdvd⟩ := Platform.alignUp_spec p.maxAlignment_pos hwraps.1
  exact ⟨_, rfl, hle, Nat.le_of_dvd (hsize.trans_le hle) hdvd, hdvd⟩

/-- The first fit is a free block of the arena that is large enough. -/
theorem firstFit_some {size required payload : ℕ} {blocks' : Arena}
    (h : firstFit p size required blocks = some (payload, blocks')) :
    ∃ before block after, blocks = before ++ block :: after ∧ block.free = true ∧
      required ≤ block.capacity ∧ payload = block.payload p ∧
      blocks' = before ++ (takeBlock p size required block ++ after) := by
  induction blocks generalizing blocks' with
  | nil => exact absurd h (by simp [firstFit])
  | cons block rest ih =>
      unfold firstFit at h
      split_ifs at h with hskip
      · obtain ⟨⟨payload', rest'⟩, hrest, heq⟩ := Option.map_eq_some_iff.mp h
        obtain ⟨rfl, rfl⟩ := Prod.mk.inj heq
        obtain ⟨before, found, after, rfl, hfree, hle, hpayload, rfl⟩ := ih hrest
        exact ⟨block :: before, found, after, rfl, hfree, hle, hpayload, rfl⟩
      · obtain ⟨rfl, rfl⟩ := Prod.mk.inj (Option.some.inj h)
        simp only [Bool.or_eq_true, Bool.not_eq_true', decide_eq_true_iff, not_or] at hskip
        exact ⟨[], block, rest, rfl, by simpa using hskip.1, by omega, rfl, rfl⟩

/-- Sizes an allocation takes of a block: `required` bytes for a payload of `size`. -/
structure Demands (p : Platform) (size required : ℕ) : Prop where
  pos : 0 < size
  holds : p.payloadPrefixSize + size ≤ required
  roomy : p.payloadPrefixSize + p.maxAlignment ≤ required
  aligned : p.maxAlignment ∣ p.blockSize + required

theorem demands_of_requiredBytes {size required : ℕ} (hsize : 0 < size)
    (h : requiredBytes p size = some required) : Demands p size required := by
  obtain ⟨padded, rfl, hle, hroomy, hdvd⟩ := requiredBytes_some hsize h
  refine ⟨hsize, by omega, by omega, ?_⟩
  rw [← Nat.add_assoc, p.blockSize_add_payloadPrefixSize]
  exact Nat.dvd_add p.payloadOffset_spec.2.2 hdvd

variable {size required : ℕ} {block : ArenaBlock}

/-- Taking a block tiles the place of the block. -/
theorem tiles_takeBlock (hfit : required ≤ block.capacity) {a b : ℕ}
    (h : Tiles ArenaBlock.address (ArenaBlock.past p) a b [block]) :
    Tiles ArenaBlock.address (ArenaBlock.past p) a b (takeBlock p size required block) := by
  have hpos := p.blockSize_pos
  obtain ⟨rfl, -, hpast⟩ := tiles_singleton.mp h
  simp only [ArenaBlock.past] at hpast
  unfold takeBlock
  split_ifs with hsplit
  · refine ⟨rfl, ?_, rfl, ?_, ?_⟩
    all_goals simp only [ArenaBlock.past, tiles_nil]; omega
  · exact tiles_singleton.mpr ⟨rfl, by omega, hpast⟩

/-- The blocks that taking a block leaves. -/
theorem mem_takeBlock {other : ArenaBlock} (hother : other ∈ takeBlock p size required block) :
    (other.address = block.address ∧ other.requestedSize = size ∧ other.free = false ∧
        (other.capacity = block.capacity ∨ other.capacity = required)) ∨
      (other.address = block.address + p.blockSize + required ∧ other.requestedSize = 0 ∧
        other.free = true ∧ p.payloadPrefixSize + p.maxAlignment ≤ other.capacity) := by
  unfold takeBlock at hother
  split_ifs at hother with hsplit
  · rcases List.mem_cons.mp hother with rfl | hother
    · exact .inl ⟨rfl, rfl, rfl, .inr rfl⟩
    · obtain rfl := List.mem_singleton.mp hother
      exact .inr ⟨rfl, rfl, rfl, by simp only; omega⟩
  · obtain rfl := List.mem_singleton.mp hother
    exact .inl ⟨rfl, rfl, rfl, .inl rfl⟩

/-- Taking a block leaves one block in use. -/
theorem exists_used (size required : ℕ) (block : ArenaBlock) :
    ∃ used ∈ takeBlock p size required block, used.address = block.address ∧
      used.requestedSize = size ∧ used.free = false ∧
      ∀ other ∈ takeBlock p size required block, other.free = false → other = used := by
  unfold takeBlock
  split_ifs with hsplit
  · exact ⟨_, List.mem_cons_self, rfl, rfl, rfl, by simp +contextual⟩
  · exact ⟨_, List.mem_cons_self, rfl, rfl, rfl, by simp⟩

/-- Taking a free block keeps its neighbours apart. -/
theorem separated_takeBlock {before after : Arena} (hfree : block.free = true)
    (h : Separated (before ++ block :: after)) :
    Separated (before ++ (takeBlock p size required block ++ after)) := by
  unfold Separated at h
  rw [List.isChain_append, List.isChain_cons] at h
  obtain ⟨hbefore, ⟨hnext, hafter⟩, hlast⟩ := h
  have hused : ∀ later ∈ after.head?, later.free = false := fun later hlater => by
    simpa [hfree] using hnext later hlater
  have htaken : Separated (takeBlock p size required block ++ after) := by
    unfold Separated takeBlock
    split_ifs
    · simp only [List.cons_append, List.nil_append, List.isChain_cons]
      refine ⟨by simp, fun later hlater => ?_, hafter⟩
      simp [hused later hlater]
    · simp only [List.cons_append, List.nil_append, List.isChain_cons]
      exact ⟨by simp, hafter⟩
  refine List.isChain_append.mpr ⟨hbefore, htaken, fun earlier _ later hlater => ?_⟩
  -- The first of the blocks left is the one in use.
  have hhead : later.free = false := by
    unfold takeBlock at hlater
    split_ifs at hlater
    all_goals
      obtain rfl := Option.some.inj hlater
      rfl
  simp [hhead]

/-- Taking a free block that is large enough keeps the arena valid. -/
theorem Valid.takeBlock {before after : Arena}
    (h : Valid p start stop (before ++ block :: after)) (hfree : block.free = true)
    (hfit : required ≤ block.capacity) (hdemands : Demands p size required) :
    Valid p start stop (before ++ (takeBlock p size required block ++ after)) := by
  have hblock : block ∈ before ++ block :: after := by simp
  have hcapacity := h.roomy block hblock
  have hheld := hdemands.holds
  have hroomy := hdemands.roomy
  have hof : ∀ {P : ArenaBlock → Prop}, (∀ other ∈ before ++ block :: after, P other) →
      (∀ other ∈ Arena.takeBlock p size required block, P other) →
      ∀ other ∈ before ++ (Arena.takeBlock p size required block ++ after), P other := by
    intro P hold htaken other hmem
    rcases List.mem_append.mp hmem with hmem | hmem
    · exact hold other (by simp [hmem])
    · rcases List.mem_append.mp hmem with hmem | hmem
      · exact htaken other hmem
      · exact hold other (by simp [hmem])
  refine ⟨⟨?_, hof h.aligned ?_, hof h.roomy ?_, hof h.held ?_, hof h.idle ?_⟩,
    separated_takeBlock hfree h.separated⟩
  · have htiled := h.tiled
    rw [← List.singleton_append, ← List.append_assoc] at htiled
    rw [← List.append_assoc]
    exact htiled.replace fun a b => tiles_takeBlock hfit
  all_goals
    intro other hother
    obtain ⟨haddress, hrequested, hstate, hcap⟩ | ⟨haddress, hrequested, hstate, hcap⟩ :=
      mem_takeBlock hother
  · exact haddress ▸ h.aligned block hblock
  · rw [haddress, Nat.add_assoc]
    exact Nat.dvd_add (h.aligned block hblock) hdemands.aligned
  · omega
  · exact hcap
  · exact fun _ => ⟨hrequested ▸ hdemands.pos, by omega⟩
  · exact fun hused => absurd hstate (by simp [hused])
  · exact fun hidle => absurd hstate (by simp [hidle])
  · exact fun _ => hrequested

/-- A power of two divides the alignment it is given. -/
theorem dvd_effectiveAlignment {alignment : ℕ} (h : alignment.isPowerOfTwo) :
    alignment ∣ effectiveAlignment p alignment := by
  unfold effectiveAlignment
  rcases le_total alignment p.pointerAlignment with hle | hle
  · rw [max_eq_right hle]
    exact dvd_of_isPowerOfTwo h p.pointerAlignment_isPowerOfTwo hle
  · rw [max_eq_left hle]

theorem effectiveSize_pos (size : ℕ) : 0 < effectiveSize size := by
  unfold effectiveSize
  split_ifs <;> omega

/-- An allocation takes a free block, or changes nothing. -/
theorem allocate_cases (size alignment : ℕ) (blocks : Arena) :
    allocate p size alignment blocks = (none, blocks) ∨
      ∃ before block after required, blocks = before ++ block :: after ∧ block.free = true ∧
        required ≤ block.capacity ∧ Demands p (effectiveSize size) required ∧
        effectiveAlignment p alignment ∣ p.maxAlignment ∧
        allocate p size alignment blocks = (some (block.payload p),
          before ++ (takeBlock p (effectiveSize size) required block ++ after)) := by
  unfold allocate
  simp only
  split_ifs with halignment
  · exact .inl rfl
  cases hrequired : requiredBytes p (effectiveSize size) with
  | none => exact .inl rfl
  | some required =>
      simp only
      cases hfit : firstFit p (effectiveSize size) required blocks with
      | none => exact .inl rfl
      | some found =>
          obtain ⟨payload, blocks'⟩ := found
          obtain ⟨before, block, after, rfl, hfree, hle, rfl, rfl⟩ := firstFit_some hfit
          simp only [Bool.or_eq_true, Bool.not_eq_true', decide_eq_true_iff, not_or, not_lt,
            Bool.not_eq_false, isPowerOfTwo_iff] at halignment
          refine .inr ⟨before, block, after, required, rfl, hfree, hle,
            demands_of_requiredBytes (effectiveSize_pos size) hrequired, ?_, rfl⟩
          exact dvd_of_isPowerOfTwo halignment.1 p.maxAlignment_isPowerOfTwo halignment.2

/-- The payload of a block with an aligned header is aligned. -/
theorem dvd_payload (h : p.maxAlignment ∣ block.address) : p.maxAlignment ∣ block.payload p := by
  unfold ArenaBlock.payload
  rw [Nat.add_assoc, p.blockSize_add_payloadPrefixSize]
  exact Nat.dvd_add h p.payloadOffset_spec.2.2

/-- Two blocks of a valid arena with the same payload are the same. -/
theorem Valid.eq_of_payload_eq (h : Valid p start stop blocks) {other : ArenaBlock}
    (hblock : block ∈ blocks) (hother : other ∈ blocks)
    (heq : block.payload p = other.payload p) : block = other := by
  refine h.tiled.eq_of_first_eq hblock hother ?_
  unfold ArenaBlock.payload at heq
  omega

/-- A granted allocation keeps the arena valid and puts one more block in use: one whose payload was
free, is aligned as requested, and has the requested size. -/
theorem Valid.allocate {size alignment payload : ℕ} {blocks' : Arena}
    (h : Valid p start stop blocks)
    (hsome : Arena.allocate p size alignment blocks = (some payload, blocks')) :
    Valid p start stop blocks' ∧ effectiveAlignment p alignment ∣ payload ∧
      (∀ block ∈ live blocks, block.payload p ≠ payload) ∧
      ∃ used, used.payload p = payload ∧ used.requestedSize = effectiveSize size ∧
        live blocks' = insert used (live blocks) := by
  rcases allocate_cases (p := p) size alignment blocks with hnone |
    ⟨before, block, after, required, rfl, hfree, hfit, hdemands, hdvd, hallocate⟩
  · rw [hnone] at hsome
    exact absurd (Prod.mk.inj hsome).1 (by simp)
  rw [hallocate] at hsome
  obtain ⟨hpayload, rfl⟩ := Prod.mk.inj hsome
  obtain rfl := Option.some.inj hpayload
  have hblock : block ∈ before ++ block :: after := by simp
  have hvalid := h.takeBlock hfree hfit hdemands
  refine ⟨hvalid, hdvd.trans (dvd_payload (h.aligned block hblock)), ?_, ?_⟩
  · rintro other ⟨hother, hused⟩ heq
    obtain rfl := h.eq_of_payload_eq hother hblock heq
    rw [hfree] at hused
    cases hused
  · obtain ⟨used, hmem, haddress, hrequested, hstate, hunique⟩ :=
      exists_used (p := p) (effectiveSize size) required block
    refine ⟨used, by unfold ArenaBlock.payload; rw [haddress], hrequested, ?_⟩
    ext other
    simp only [Set.mem_insert_iff, mem_live, List.mem_append, List.mem_cons]
    constructor
    · rintro ⟨hother | hother | hother, hused⟩
      · exact .inr ⟨.inl hother, hused⟩
      · exact .inl (hunique other hother hused)
      · exact .inr ⟨.inr (.inr hother), hused⟩
    · rintro (rfl | ⟨hother | rfl | hother, hused⟩)
      · exact ⟨.inr (.inl hmem), hstate⟩
      · exact ⟨.inl hother, hused⟩
      · rw [hfree] at hused
        cases hused
      · exact ⟨.inr (.inr hother), hused⟩

/-! ## Deallocation -/

/-- Changing a block of an arena for one in the same place keeps the arena sound. -/
theorem Sound.set {before after : Arena} {other : ArenaBlock}
    (h : Sound p start stop (before ++ block :: after)) (haddress : other.address = block.address)
    (hcapacity : other.capacity = block.capacity)
    (hheld : other.free = false → 0 < other.requestedSize ∧
      p.payloadPrefixSize + other.requestedSize ≤ other.capacity)
    (hidle : other.free = true → other.requestedSize = 0) :
    Sound p start stop (before ++ other :: after) := by
  have hblock : block ∈ before ++ block :: after := by simp
  have hof : ∀ {P : ArenaBlock → Prop}, (∀ b ∈ before ++ block :: after, P b) → P other →
      ∀ b ∈ before ++ other :: after, P b := by
    intro P hold hother b hmem
    rcases List.mem_append.mp hmem with hmem | hmem
    · exact hold b (by simp [hmem])
    · rcases List.mem_cons.mp hmem with rfl | hmem
      · exact hother
      · exact hold b (by simp [hmem])
  refine ⟨?_, hof h.aligned (haddress ▸ h.aligned block hblock),
    hof h.roomy (hcapacity ▸ h.roomy block hblock), hof h.held hheld, hof h.idle hidle⟩
  have htiled := h.tiled
  rw [← List.singleton_append, ← List.append_assoc] at htiled ⊢
  refine htiled.replace fun a b hpart => ?_
  rw [tiles_singleton] at hpart ⊢
  simpa only [ArenaBlock.past, haddress, hcapacity] using hpart

/-- Joining two free neighbours keeps an arena sound. -/
theorem Sound.join {before after : Arena} {first second : ArenaBlock}
    (h : Sound p start stop (before ++ first :: second :: after)) (hfirst : first.free = true) :
    Sound p start stop (before ++ joined p first second :: after) := by
  have hmem : first ∈ before ++ first :: second :: after := by simp
  have hof : ∀ {P : ArenaBlock → Prop}, (∀ b ∈ before ++ first :: second :: after, P b) →
      P (joined p first second) → ∀ b ∈ before ++ joined p first second :: after, P b := by
    intro P hold hjoined b hmem
    rcases List.mem_append.mp hmem with hmem | hmem
    · exact hold b (by simp [hmem])
    · rcases List.mem_cons.mp hmem with rfl | hmem
      · exact hjoined
      · exact hold b (by simp [hmem])
  refine ⟨?_, hof h.aligned (h.aligned first hmem), hof h.roomy ?_, hof h.held ?_,
    hof h.idle fun _ => h.idle first hmem hfirst⟩
  · have htiled := h.tiled
    rw [show before ++ first :: second :: after = before ++ [first, second] ++ after by simp]
      at htiled
    rw [← List.singleton_append, ← List.append_assoc]
    refine htiled.replace fun a b hpart => ?_
    obtain ⟨haddress, hlt, haddress', hlt', hpast⟩ := hpart
    refine tiles_singleton.mpr ⟨haddress, hlt.trans (hlt'.trans_eq hpast), ?_⟩
    simp only [tiles_nil, ArenaBlock.past, joined] at hpast haddress' ⊢
    omega
  · exact (h.roomy first hmem).trans (Nat.le_add_right _ _)
  · intro hused
    rw [joined, hfirst] at hused
    cases hused

/-- Joining two free blocks changes nothing for the blocks in use. -/
theorem live_join {before after : Arena} {first second : ArenaBlock} (hfirst : first.free = true)
    (hsecond : second.free = true) :
    live (before ++ joined p first second :: after) = live (before ++ first :: second :: after) := by
  ext other
  simp only [mem_live, List.mem_append, List.mem_cons]
  constructor
  · rintro ⟨hmem | rfl | hmem, hused⟩
    · exact ⟨.inl hmem, hused⟩
    · exact absurd hused (by simp [joined, hfirst])
    · exact ⟨.inr (.inr (.inr hmem)), hused⟩
  · rintro ⟨hmem | rfl | rfl | hmem, hused⟩
    · exact ⟨.inl hmem, hused⟩
    · exact absurd hused (by simp [hfirst])
    · exact absurd hused (by simp [hsecond])
    · exact ⟨.inr (.inr hmem), hused⟩

/-- A free block joined with what follows: the arena stays sound, the blocks in use stay, and the
free block and the blocks behind it are apart. -/
theorem joinNext_spec {before after : Arena}
    (h : Sound p start stop (before ++ block :: after)) (hfree : block.free = true)
    (hafter : Separated after) :
    (joinNext p block after).1.free = true ∧
      Sound p start stop
        (before ++ (joinNext p block after).1 :: (joinNext p block after).2) ∧
      live (before ++ (joinNext p block after).1 :: (joinNext p block after).2) =
        live (before ++ block :: after) ∧
      Separated ((joinNext p block after).1 :: (joinNext p block after).2) := by
  rcases after with - | ⟨next, rest⟩
  · exact ⟨hfree, h, rfl, List.isChain_singleton _⟩
  unfold Separated at hafter ⊢
  rw [List.isChain_cons] at hafter
  simp only [joinNext]
  split_ifs with hnext
  · refine ⟨hfree, h.join hfree, live_join hfree hnext, List.isChain_cons.mpr ⟨?_, hafter.2⟩⟩
    -- The block behind the one that was joined is not free.
    intro later hlater hboth
    exact hafter.1 later hlater ⟨hnext, hboth.2⟩
  · refine ⟨hfree, h, rfl, List.isChain_cons.mpr ⟨?_, List.isChain_cons.mpr hafter⟩⟩
    intro later hlater hboth
    obtain rfl := Option.some.inj hlater
    exact hnext hboth.2

/-- A free block joined with what precedes it: the arena becomes valid. -/
theorem joinPrevious_spec {before rest : Arena}
    (h : Sound p start stop (before ++ block :: rest)) (hfree : block.free = true)
    (hbefore : Separated before) (hrest : Separated (block :: rest)) :
    Valid p start stop (joinPrevious p before block rest) ∧
      live (joinPrevious p before block rest) = live (before ++ block :: rest) := by
  unfold joinPrevious
  rcases List.eq_nil_or_concat before with rfl | ⟨init, previous, rfl⟩
  · exact ⟨⟨h, hrest⟩, rfl⟩
  simp only [List.concat_eq_append, List.getLast?_concat, List.dropLast_concat] at hbefore h ⊢
  unfold Separated at hbefore hrest
  rw [List.isChain_append] at hbefore
  rw [List.append_assoc, List.singleton_append] at h ⊢
  split_ifs with hprevious
  · refine ⟨⟨h.join hprevious, List.isChain_append.mpr ⟨hbefore.1, ?_, ?_⟩⟩,
      live_join hprevious hfree⟩
    · rw [List.isChain_cons] at hrest ⊢
      refine ⟨fun later hlater hboth => ?_, hrest.2⟩
      exact hrest.1 later hlater ⟨hfree, hboth.2⟩
    · intro earlier hearlier later _ hboth
      exact hbefore.2.2 earlier hearlier previous rfl ⟨hboth.1, hprevious⟩
  · refine ⟨⟨h, List.isChain_append.mpr ⟨hbefore.1, List.isChain_cons.mpr ⟨?_, hrest⟩, ?_⟩⟩, rfl⟩
    · intro later _ hboth
      exact hprevious hboth.1
    · intro earlier hearlier later hlater hboth
      obtain rfl := Option.some.inj hlater
      exact hprevious hboth.2

theorem findPayload_none {memory : ℕ} (h : findPayload p memory blocks = none) :
    ∀ block ∈ blocks, block.payload p ≠ memory := by
  induction blocks with
  | nil => simp
  | cons block rest ih =>
      unfold findPayload at h
      split_ifs at h with hfound
      exact List.forall_mem_cons.mpr ⟨hfound, ih (Option.map_eq_none_iff.mp h)⟩

theorem findPayload_some {memory : ℕ} {before after : Arena}
    (h : findPayload p memory blocks = some (before, block, after)) :
    blocks = before ++ block :: after ∧ block.payload p = memory := by
  induction blocks generalizing before with
  | nil => exact absurd h (by simp [findPayload])
  | cons head rest ih =>
      unfold findPayload at h
      split_ifs at h with hfound
      · obtain ⟨rfl, rfl, rfl⟩ : before = [] ∧ block = head ∧ after = rest := by
          simpa [eq_comm] using h
        exact ⟨rfl, hfound⟩
      · obtain ⟨⟨before', found, after'⟩, hrest, heq⟩ := Option.map_eq_some_iff.mp h
        obtain ⟨rfl, rfl, rfl⟩ : head :: before' = before ∧ found = block ∧ after' = after := by
          simpa using heq
        obtain ⟨rfl, hpayload⟩ := ih hrest
        exact ⟨rfl, hpayload⟩

/-- A deallocation keeps the arena valid and frees the block of that payload, if it is in use. -/
theorem Valid.deallocate (h : Valid p start stop blocks) (memory : ℕ) :
    Valid p start stop (Arena.deallocate p memory blocks) ∧
      live (Arena.deallocate p memory blocks) =
        {block ∈ live blocks | block.payload p ≠ memory} := by
  have hkept : (∀ block ∈ live blocks, block.payload p ≠ memory) →
      live blocks = {block ∈ live blocks | block.payload p ≠ memory} := fun hfresh => by
    ext other
    exact ⟨fun hmem => ⟨hmem, hfresh other hmem⟩, fun hmem => hmem.1⟩
  unfold Arena.deallocate
  cases hfind : findPayload p memory blocks with
  | none => exact ⟨h, hkept fun block hmem => findPayload_none hfind block hmem.1⟩
  | some found =>
      obtain ⟨before, block, after⟩ := found
      obtain ⟨rfl, hpayload⟩ := findPayload_some hfind
      have hblock : block ∈ before ++ block :: after := by simp
      simp only
      split_ifs with hfree
      · refine ⟨h, hkept ?_⟩
        rintro other ⟨hmem, hused⟩ heq
        obtain rfl := h.eq_of_payload_eq hmem hblock (heq.trans hpayload.symm)
        rw [hfree] at hused
        cases hused
      -- Release the block in its place, then join it with what follows and with what precedes it.
      set released : ArenaBlock := { block with requestedSize := 0, free := true } with hreleased
      have hset : Sound p start stop (before ++ released :: after) :=
        h.toSound.set rfl rfl (by simp [hreleased]) (by simp [hreleased])
      have hchain := h.separated
      unfold Separated at hchain
      rw [List.isChain_append, List.isChain_cons] at hchain
      obtain ⟨hnext, hsound, hlive, hseparated⟩ := joinNext_spec hset rfl hchain.2.1.2
      obtain ⟨hvalid, hlive'⟩ := joinPrevious_spec hsound hnext hchain.1 hseparated
      refine ⟨hvalid, hlive'.trans (hlive.trans ?_)⟩
      have hothers : ∀ other, other ∈ before ∨ other ∈ after → other.payload p ≠ memory := by
        intro other hother heq
        apply h.tiled.first_ne hother
        rw [← hpayload] at heq
        unfold ArenaBlock.payload at heq
        omega
      ext other
      simp only [Set.mem_ofPred_eq, mem_live, List.mem_append, List.mem_cons]
      constructor
      · rintro ⟨hmem | rfl | hmem, hused⟩
        · exact ⟨⟨.inl hmem, hused⟩, hothers other (.inl hmem)⟩
        · cases hused
        · exact ⟨⟨.inr (.inr hmem), hused⟩, hothers other (.inr hmem)⟩
      · rintro ⟨⟨hmem | rfl | hmem, hused⟩, hne⟩
        · exact ⟨.inl hmem, hused⟩
        · exact absurd hpayload hne
        · exact ⟨.inr (.inr hmem), hused⟩

end Arena

end LibApta.Memory
