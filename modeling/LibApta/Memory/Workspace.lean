import Mathlib.Data.List.Perm.Basic
import LibApta.Memory.Arena

/-!
# Runs of a workspace

The arena of a session under any sequence of allocations and deallocations, together with the
allocations its callers hold. What callers hold is exactly what is in use, and returning all of it
in any order gives the arena of the fresh workspace back.
-/

namespace LibApta.Memory

open Tiling

/-- A granted allocation: its payload, and the size and the alignment that were asked for. -/
structure Grant where
  address : ℕ
  size : ℕ
  alignment : ℕ
deriving DecidableEq

/-- A call of the workspace allocator. Any address may be passed to `free`. -/
inductive WorkspaceOp where
  | allocate (size alignment : ℕ)
  | free (memory : ℕ)

/-- An arena and the allocations that are held. -/
structure Workspace where
  blocks : Arena
  grants : List Grant

namespace Workspace

variable (p : Platform)

/-- Carry out a call. -/
def step (w : Workspace) : WorkspaceOp → Workspace
  | .allocate size alignment =>
      match Arena.allocate p size alignment w.blocks with
      | (some address, blocks) => ⟨blocks, ⟨address, size, alignment⟩ :: w.grants⟩
      | (none, blocks) => ⟨blocks, w.grants⟩
  | .free memory =>
      ⟨Arena.deallocate p memory w.blocks, w.grants.filter fun grant => grant.address ≠ memory⟩

/-- Carry out a sequence of calls. -/
def run (ops : List WorkspaceOp) (w : Workspace) : Workspace := ops.foldl (step p) w

/-- Free a list of payloads in order. -/
def freeAll (order : List ℕ) (blocks : Arena) : Arena :=
  order.foldl (fun blocks memory => Arena.deallocate p memory blocks) blocks

/-- The payload of a grant lies in a block in use, behind the header hidden before it. -/
def Lodged (blocks : Arena) (grant : Grant) : Prop :=
  ∃ block ∈ blocks, block.free = false ∧ block.payload p = grant.address ∧
    block.requestedSize = Arena.effectiveSize grant.size

/-- The invariant of a run: the arena is valid, and the grants are the blocks in use. -/
structure Consistent (start stop : ℕ) (w : Workspace) : Prop where
  valid : Arena.Valid p start stop w.blocks
  lodged : ∀ grant ∈ w.grants, Lodged p w.blocks grant
  aligned : ∀ grant ∈ w.grants, Arena.effectiveAlignment p grant.alignment ∣ grant.address
  accounted : ∀ block ∈ Arena.live w.blocks, ∃ grant ∈ w.grants, grant.address = block.payload p
  distinct : w.grants.Pairwise fun a b => a.address ≠ b.address

variable {p} {start stop : ℕ} {w : Workspace}

/-- Every call keeps the invariant. -/
theorem Consistent.step (h : Consistent p start stop w) (op : WorkspaceOp) :
    Consistent p start stop (w.step p op) := by
  cases op with
  | allocate size alignment =>
      rcases hallocate : Arena.allocate p size alignment w.blocks with ⟨answer, blocks⟩
      simp only [Workspace.step, hallocate]
      cases answer with
      | none =>
          rcases Arena.allocate_cases (p := p) size alignment w.blocks with hnone |
            ⟨_, block, _, _, -, -, -, -, -, hsome⟩
          · rw [hallocate] at hnone
            obtain ⟨-, rfl⟩ := Prod.mk.inj hnone
            exact h
          · rw [hallocate] at hsome
            exact absurd (Prod.mk.inj hsome).1 (by simp)
      | some address =>
          obtain ⟨hvalid, hdvd, hfresh, used, hpayload, hrequested, hlive⟩ :=
            h.valid.allocate hallocate
          have hused : used ∈ Arena.live blocks := hlive ▸ Set.mem_insert _ _
          refine ⟨hvalid, ?_, ?_, ?_, ?_⟩
          · refine List.forall_mem_cons.mpr ⟨⟨used, hused.1, hused.2, hpayload, hrequested⟩, ?_⟩
            intro grant hgrant
            obtain ⟨block, hmem, hstate, hblock⟩ := h.lodged grant hgrant
            have hkept : block ∈ Arena.live blocks := hlive ▸ Set.mem_insert_of_mem _ ⟨hmem, hstate⟩
            exact ⟨block, hkept.1, hkept.2, hblock⟩
          · exact List.forall_mem_cons.mpr ⟨hdvd, h.aligned⟩
          · intro block hblock
            rw [hlive] at hblock
            rcases hblock with rfl | hblock
            · exact ⟨_, List.mem_cons_self, hpayload.symm⟩
            · obtain ⟨grant, hgrant, haddress⟩ := h.accounted block hblock
              exact ⟨grant, List.mem_cons_of_mem _ hgrant, haddress⟩
          · refine List.pairwise_cons.mpr ⟨fun grant hgrant heq => ?_, h.distinct⟩
            obtain ⟨block, hmem, hstate, hblock, -⟩ := h.lodged grant hgrant
            exact hfresh block ⟨hmem, hstate⟩ (hblock.trans heq.symm)
  | free memory =>
      obtain ⟨hvalid, hlive⟩ := h.valid.deallocate memory
      unfold Workspace.step
      refine ⟨hvalid, ?_, ?_, ?_, h.distinct.filter _⟩
      · intro grant hgrant
        obtain ⟨hgrant, hne⟩ := List.mem_filter.mp hgrant
        obtain ⟨block, hmem, hstate, hpayload, hrequested⟩ := h.lodged grant hgrant
        have hkept : block ∈ Arena.live (Arena.deallocate p memory w.blocks) := by
          rw [hlive]
          exact ⟨⟨hmem, hstate⟩, hpayload ▸ by simpa using hne⟩
        exact ⟨block, hkept.1, hkept.2, hpayload, hrequested⟩
      · exact fun grant hgrant => h.aligned grant (List.mem_filter.mp hgrant).1
      · intro block hblock
        rw [hlive] at hblock
        obtain ⟨grant, hgrant, haddress⟩ := h.accounted block hblock.1
        exact ⟨grant, List.mem_filter.mpr ⟨hgrant, by simpa [haddress] using hblock.2⟩, haddress⟩

theorem Consistent.run (h : Consistent p start stop w) (ops : List WorkspaceOp) :
    Consistent p start stop (w.run p ops) := by
  unfold Workspace.run
  induction ops generalizing w with
  | nil => exact h
  | cons op rest ih => exact ih (h.step op)

/-- A held payload is inside its own block. -/
theorem Consistent.inside (h : Consistent p start stop w) {grant : Grant}
    (hgrant : grant ∈ w.grants) :
    ∃ block ∈ w.blocks, block.free = false ∧
      block.address + p.blockSize + p.headerSize ≤ grant.address ∧
      grant.address + Arena.effectiveSize grant.size ≤ block.past p := by
  obtain ⟨block, hmem, hstate, hpayload, hrequested⟩ := h.lodged grant hgrant
  have hheld := (h.valid.held block hmem hstate).2
  have hheader := p.headerSize_le_payloadPrefixSize
  unfold ArenaBlock.payload at hpayload
  exact ⟨block, hmem, hstate, by omega, by unfold ArenaBlock.past; omega⟩

/-- Two held payloads share no byte. -/
theorem Consistent.disjoint (h : Consistent p start stop w) :
    w.grants.Pairwise fun a b => a.address + Arena.effectiveSize a.size ≤ b.address ∨
      b.address + Arena.effectiveSize b.size ≤ a.address := by
  refine h.distinct.imp_of_mem fun {a b} ha hb hne => ?_
  obtain ⟨block, hmem, hstate, hpayload, hrequested⟩ := h.lodged a ha
  obtain ⟨block', hmem', hstate', hpayload', hrequested'⟩ := h.lodged b hb
  have hheld := (h.valid.held block hmem hstate).2
  have hheld' := (h.valid.held block' hmem' hstate').2
  have hblocks : block ≠ block' := fun heq => hne (by rw [← hpayload, ← hpayload', heq])
  -- The blocks of the two payloads are apart, in one order or the other.
  have hapart : block.past p ≤ block'.address ∨ block'.past p ≤ block.address := by
    obtain ⟨before, after, hsplit⟩ := List.append_of_mem hmem
    have hpairwise := h.valid.tiled.pairwise
    rw [hsplit, List.pairwise_append, List.pairwise_cons] at hpairwise
    rw [hsplit] at hmem'
    rcases List.mem_append.mp hmem' with hbefore | hafter
    · exact .inr (hpairwise.2.2 block' hbefore block List.mem_cons_self)
    · rcases List.mem_cons.mp hafter with rfl | hafter
      · exact absurd rfl hblocks
      · exact .inl (hpairwise.2.1.1 block' hafter)
  unfold ArenaBlock.payload at hpayload hpayload'
  unfold ArenaBlock.past at hapart
  omega

/-- Freeing payloads keeps an arena valid and leaves the other blocks in use. -/
theorem freeAll_spec {blocks : Arena} (h : Arena.Valid p start stop blocks) (order : List ℕ) :
    Arena.Valid p start stop (freeAll p order blocks) ∧
      ∀ block ∈ Arena.live (freeAll p order blocks),
        block ∈ Arena.live blocks ∧ block.payload p ∉ order := by
  unfold freeAll
  induction order generalizing blocks with
  | nil => exact ⟨h, fun block hblock => ⟨hblock, List.not_mem_nil⟩⟩
  | cons memory rest ih =>
      obtain ⟨hvalid, hlive⟩ := h.deallocate memory
      obtain ⟨hfreed, hothers⟩ := ih hvalid
      refine ⟨hfreed, fun block hblock => ?_⟩
      obtain ⟨hmem, hrest⟩ := hothers block hblock
      rw [hlive] at hmem
      exact ⟨hmem.1, by simpa using ⟨hmem.2, hrest⟩⟩

/-- Returning everything that is held, in any order, leaves one free block. -/
theorem Consistent.freeAll (h : Consistent p start stop w) (hlt : start < stop) {order : List ℕ}
    (horder : order.Perm (w.grants.map Grant.address)) :
    Workspace.freeAll p order w.blocks = [⟨start, stop - start - p.blockSize, 0, true⟩] := by
  obtain ⟨hvalid, hlive⟩ := freeAll_spec h.valid order
  apply hvalid.eq_of_live_empty hlt
  apply Set.eq_empty_of_forall_notMem
  intro block hblock
  obtain ⟨hmem, hnot⟩ := hlive block hblock
  obtain ⟨grant, hgrant, haddress⟩ := h.accounted block hmem
  exact hnot (horder.mem_iff.mpr (List.mem_map.mpr ⟨grant, hgrant, haddress⟩))

/-! ## The arena of a session -/

/-- The arena of a workspace under every sequence of allocations and frees: the blocks tile the
arena in address order, every held payload is aligned (for a power of two, as requested) and inside
its own block in use, held payloads are pairwise disjoint, no two adjacent blocks are both free, and
freeing everything that is held in any order gives the fresh arena, one free block, back. -/
theorem arena_invariant (p : Platform) {workspace size : ℕ} {fresh : Arena}
    (hfresh : Arena.initialBlocks p workspace size = some fresh) (ops : List WorkspaceOp) :
    let w := run p ops ⟨fresh, []⟩
    Tiles ArenaBlock.address (ArenaBlock.past p) (workspace + p.arenaOffset) (workspace + size)
        w.blocks ∧
      (∀ grant ∈ w.grants, Arena.effectiveAlignment p grant.alignment ∣ grant.address ∧
        (grant.alignment.isPowerOfTwo → grant.alignment ∣ grant.address) ∧
        ∃ block ∈ w.blocks, block.free = false ∧
          block.address + p.blockSize + p.headerSize ≤ grant.address ∧
          grant.address + Arena.effectiveSize grant.size ≤ block.past p) ∧
      (∀ block ∈ w.blocks, block.free = false →
        ∃ grant ∈ w.grants, grant.address = block.payload p) ∧
      (w.grants.Pairwise fun a b => a.address + Arena.effectiveSize a.size ≤ b.address ∨
        b.address + Arena.effectiveSize b.size ≤ a.address) ∧
      Arena.Separated w.blocks ∧
      ∀ order : List ℕ, order.Perm (w.grants.map Grant.address) →
        freeAll p order w.blocks = fresh ∧ fresh.length = 1 := by
  obtain ⟨hvalid, hlive⟩ := Arena.valid_initialBlocks hfresh
  have hlt := Arena.lt_of_initialBlocks hfresh
  have hstart : Consistent p (workspace + p.arenaOffset) (workspace + size) ⟨fresh, []⟩ :=
    ⟨hvalid, by simp, by simp, fun block hblock => by simp [hlive] at hblock, List.Pairwise.nil⟩
  have h := hstart.run ops
  have hone := hvalid.eq_of_live_empty hlt hlive
  refine ⟨h.valid.tiled, fun grant hgrant => ?_, fun block hmem hstate => ?_, h.disjoint,
    h.valid.separated, fun order horder => ⟨?_, ?_⟩⟩
  · refine ⟨h.aligned grant hgrant, fun hpower => ?_, h.inside hgrant⟩
    exact (Arena.dvd_effectiveAlignment hpower).trans (h.aligned grant hgrant)
  · exact h.accounted block ⟨hmem, hstate⟩
  · rw [h.freeAll hlt horder, hone]
  · rw [hone, List.length_singleton]

/-- Two payloads in a workspace of 64 KiB, taken and given back in the same order. -/
theorem arena_invariant_two_payloads :
    let w := run lp64 [.allocate 100 8, .allocate 7 16] ⟨[⟨16896, 52704, 0, true⟩], []⟩
    w.grants = [⟨17136, 7, 16⟩, ⟨16960, 100, 8⟩] ∧
      freeAll lp64 [16960, 17136] w.blocks = [⟨16896, 52704, 0, true⟩] := by
  have hgrants : (run lp64 [.allocate 100 8, .allocate 7 16] ⟨[⟨16896, 52704, 0, true⟩], []⟩).grants =
      [⟨17136, 7, 16⟩, ⟨16960, 100, 8⟩] := by decide
  have hfresh : Arena.initialBlocks lp64 4096 65536 = some [⟨16896, 52704, 0, true⟩] := by decide
  refine ⟨hgrants, ?_⟩
  obtain ⟨-, -, -, -, -, hfreed⟩ :=
    arena_invariant lp64 hfresh [.allocate 100 8, .allocate 7 16]
  apply (hfreed [16960, 17136] _).1
  rw [hgrants]
  exact List.Perm.swap _ _ _

end Workspace

end LibApta.Memory
