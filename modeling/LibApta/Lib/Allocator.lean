import LibApta.Lib.Checked
import Mathlib.Data.List.Perm.Basic

/-!
# Accounting allocators

An allocator that may refuse any request, counts the bytes it has given out, and can be asked to
take a block back once. `Holds base heap owned` says that since `base` the blocks `owned` were
given out and not taken back, and that every other block given out since was taken back exactly
once; with nothing owned the heap is as it was.
-/

namespace LibApta

/-- A block that was given out. -/
structure Block where
  id : ℕ
  size : ℕ
deriving DecidableEq

/-- An allocator: the outcomes of the coming requests (an exhausted list grants every request), the
limit on the bytes given out (`0` for none), the bytes given out, the largest such number so far,
the live blocks, the blocks taken back in order, and the next block. -/
structure Heap where
  grants : List Bool
  memoryLimit : ℕ
  allocatedBytes : ℕ
  peakBytes : ℕ
  live : List Block
  released : List ℕ
  nextId : ℕ
deriving DecidableEq

namespace Heap

/-- The limit leaves room for a request. -/
def reserves (heap : Heap) (size : ℕ) : Bool :=
  heap.memoryLimit == 0 ||
    (decide (size ≤ heap.memoryLimit) && decide (heap.allocatedBytes ≤ heap.memoryLimit - size))

/-- The heap after it gave out a block. -/
def grant (heap : Heap) (size : ℕ) : Heap :=
  { heap with
    grants := heap.grants.tail
    allocatedBytes := heap.allocatedBytes + size
    peakBytes := max heap.peakBytes (heap.allocatedBytes + size)
    live := ⟨heap.nextId, size⟩ :: heap.live
    nextId := heap.nextId + 1 }

/-- Request a block; an empty request takes one byte. -/
def allocate (size : ℕ) (heap : Heap) : Option Block × Heap :=
  let size := if size = 0 then 1 else size
  if !heap.reserves size then (none, heap)
  else if heap.grants.headD true then (some ⟨heap.nextId, size⟩, heap.grant size)
  else (none, { heap with grants := heap.grants.tail })

/-- Give a block back; the null pointer is ignored, a block that is not live is a fault. -/
def deallocate {ε : Type} (pointer : Option Block) (heap : Heap) : Check ε Heap :=
  match pointer with
  | none => .ok heap
  | some block =>
      if block ∈ heap.live then
        .ok { heap with
          allocatedBytes := heap.allocatedBytes - block.size
          live := heap.live.erase block
          released := heap.released ++ [block.id] }
      else Check.fault

/-- The bytes of a list of blocks. -/
def bytes (blocks : List Block) : ℕ := (blocks.map Block.size).sum

@[simp] theorem bytes_nil : bytes [] = 0 := rfl

@[simp] theorem bytes_cons (block : Block) (blocks : List Block) :
    bytes (block :: blocks) = block.size + bytes blocks := rfl

theorem bytes_append (first second : List Block) :
    bytes (first ++ second) = bytes first + bytes second := by
  simp [bytes]

theorem bytes_perm {first second : List Block} (h : first.Perm second) :
    bytes first = bytes second := (h.map Block.size).sum_nat

/-- What changed since an earlier heap. -/
structure Holds (base heap : Heap) (owned : List Block) : Prop where
  live : heap.live.Perm (owned ++ base.live)
  bytes : heap.allocatedBytes = base.allocatedBytes + bytes owned
  mono : base.nextId ≤ heap.nextId
  once : ∃ freed, heap.released = base.released ++ freed ∧
    (freed ++ owned.map Block.id).Perm (List.range' base.nextId (heap.nextId - base.nextId))
  peak : base.peakBytes ≤ heap.peakBytes

theorem Holds.refl (heap : Heap) : Holds heap heap [] where
  live := List.Perm.refl _
  bytes := rfl
  mono := le_rfl
  once := ⟨[], by simp, by simp⟩
  peak := le_rfl

variable {base heap heap' : Heap} {owned owned' : List Block}

theorem Holds.perm (h : Holds base heap owned) (hperm : owned.Perm owned') :
    Holds base heap owned' where
  live := h.live.trans (hperm.append_right _)
  bytes := by rw [h.bytes, bytes_perm hperm]
  mono := h.mono
  once := by
    obtain ⟨freed, hfreed, hids⟩ := h.once
    exact ⟨freed, hfreed, ((hperm.map Block.id).append_left freed).symm.trans hids⟩
  peak := h.peak

/-- Giving out a block adds it to what is owned. -/
theorem Holds.grant (h : Holds base heap owned) (size : ℕ) :
    Holds base (heap.grant size) (⟨heap.nextId, size⟩ :: owned) where
  live := h.live.cons _
  bytes := by
    show heap.allocatedBytes + size = base.allocatedBytes + (size + Heap.bytes owned)
    rw [h.bytes]
    omega
  mono := h.mono.trans (Nat.le_succ _)
  once := by
    obtain ⟨freed, hfreed, hids⟩ := h.once
    refine ⟨freed, hfreed, ?_⟩
    have hmono := h.mono
    have hlen : heap.nextId + 1 - base.nextId = heap.nextId - base.nextId + 1 := by omega
    have hlast : base.nextId + (heap.nextId - base.nextId) = heap.nextId := by omega
    show (freed ++ heap.nextId :: owned.map Block.id).Perm
      (List.range' base.nextId (heap.nextId + 1 - base.nextId))
    rw [hlen, List.range'_1_concat, hlast]
    exact List.perm_middle.trans
      ((hids.cons heap.nextId).trans (List.perm_append_singleton _ _).symm)
  peak := h.peak.trans (le_max_left _ _)

theorem Holds.withGrants (h : Holds base heap owned) (grants : List Bool) :
    Holds base { heap with grants := grants } owned := ⟨h.live, h.bytes, h.mono, h.once, h.peak⟩

/-- What a request can do: it is refused, or it gives out one block of the size asked for. -/
theorem allocate_cases (size : ℕ) (heap : Heap) :
    (∃ grants, allocate size heap = (none, { heap with grants := grants })) ∨
      allocate size heap =
        (some ⟨heap.nextId, max size 1⟩, heap.grant (max size 1)) := by
  have hsize : (if size = 0 then 1 else size) = max size 1 := by
    split <;> omega
  simp only [allocate, hsize]
  by_cases hroom : (!heap.reserves (max size 1)) = true
  · rw [if_pos hroom]
    exact .inl ⟨heap.grants, rfl⟩
  rw [if_neg hroom]
  by_cases hgrant : heap.grants.headD true = true
  · rw [if_pos hgrant]
    exact .inr rfl
  · rw [if_neg hgrant]
    exact .inl ⟨_, rfl⟩

/-- A heap that never refuses. -/
structure Generous (heap : Heap) : Prop where
  grants : heap.grants = []
  memoryLimit : heap.memoryLimit = 0

theorem Generous.allocate (h : Generous heap) (size : ℕ) :
    heap.allocate size = (some ⟨heap.nextId, max size 1⟩, heap.grant (max size 1)) := by
  have hsize : (if size = 0 then 1 else size) = max size 1 := by
    split <;> omega
  simp [Heap.allocate, hsize, reserves, h.grants, h.memoryLimit]

theorem Generous.grant (h : Generous heap) (size : ℕ) : Generous (heap.grant size) :=
  ⟨by simp [Heap.grant, h.grants], h.memoryLimit⟩

/-- The heap after a live block was taken back. -/
theorem deallocate_some {ε : Type} {block : Block} (hmem : block ∈ heap.live) :
    (deallocate (some block) heap : Check ε Heap) = .ok { heap with
      allocatedBytes := heap.allocatedBytes - block.size
      live := heap.live.erase block
      released := heap.released ++ [block.id] } := by
  rw [deallocate, if_pos hmem]

/-- Taking back an owned block is no fault and removes it from what is owned. -/
theorem Holds.deallocate {ε : Type} {block : Block} (h : Holds base heap (block :: owned)) :
    ∃ heap', (Heap.deallocate (some block) heap : Check ε Heap) = .ok heap' ∧
      Holds base heap' owned ∧ heap'.peakBytes = heap.peakBytes ∧
      (Generous heap → Generous heap') := by
  have hmem : block ∈ heap.live := h.live.symm.subset List.mem_cons_self
  refine ⟨_, deallocate_some hmem, ⟨?_, ?_, h.mono, ?_, h.peak⟩, rfl,
    fun hg => ⟨hg.grants, hg.memoryLimit⟩⟩
  · have herase := h.live.erase block
    rwa [List.cons_append, List.erase_cons_head] at herase
  · have hbytes := h.bytes
    rw [bytes_cons] at hbytes
    show heap.allocatedBytes - block.size = _
    omega
  · obtain ⟨freed, hfreed, hids⟩ := h.once
    refine ⟨freed ++ [block.id], ?_, ?_⟩
    · show heap.released ++ [block.id] = _
      rw [hfreed, List.append_assoc]
    · rw [List.append_assoc]
      exact hids

/-- With nothing owned, everything given out since was taken back exactly once. -/
theorem Holds.nothing (h : Holds base heap []) :
    heap.live.Perm base.live ∧ heap.allocatedBytes = base.allocatedBytes ∧
      ∃ freed, heap.released = base.released ++ freed ∧
        freed.Perm (List.range' base.nextId (heap.nextId - base.nextId)) := by
  obtain ⟨freed, hfreed, hids⟩ := h.once
  rw [List.map_nil, List.append_nil] at hids
  exact ⟨h.live, h.bytes, freed, hfreed, hids⟩

end Heap

end LibApta
