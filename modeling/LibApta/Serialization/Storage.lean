import LibApta.Lib.Allocator
import LibApta.Lib.Attempt
import LibApta.Serialization.Format
import Mathlib.Data.List.Nodup
import Mathlib.Logic.Function.Basic

/-!
# Storage of a parsed result

A parse works on a context, with its allocator and its count of live results, and on the result it
builds: the data and one pointer for each array. `Owned` says which pointers may be set, how many
bytes they hold, and that besides them and some temporary blocks nothing is left behind.
-/

namespace LibApta.Container

/-! ## Sizes -/

/-- Sizes in memory of the records a result is made of. -/
structure Sizes where
  result : ℕ
  span : ℕ
  column : ℕ
  tile : ℕ
  candidate : ℕ
  range : ℕ
  segment : ℕ
  gridState : ℕ
  beat : ℕ
  bounded : ∀ size ∈ [result, span, column, tile, candidate, range, segment, gridState, beat],
    1 ≤ size ∧ size ≤ 65536

/-- The size of an interval of a temporary interval array. -/
abbrev intervalSize : ℕ := 16

/-! ## Results under construction -/

/-- The pointers of a result. -/
inductive Slot where
  | result
  | overviewSpans
  | overviewColumns
  | detailTiles
  | detailColumns
  | metadataStorage
  | tempoCandidates
  | localCoverage
  | localSegments
  | gridState
  | gridCoverage
  | gridSegments
  | gridBeats
deriving DecidableEq

/-- The arrays of a result in the order a release frees them; the result itself comes last. -/
def arraySlots : List Slot :=
  [.metadataStorage, .overviewSpans, .overviewColumns, .detailTiles, .detailColumns,
    .tempoCandidates, .localCoverage, .localSegments, .gridBeats, .gridSegments, .gridCoverage,
    .gridState]

/-- All pointers in the order a release frees them. -/
def allSlots : List Slot := arraySlots ++ [.result]

theorem nodup_allSlots : allSlots.Nodup := by decide

theorem mem_allSlots (slot : Slot) : slot ∈ allSlots := by
  cases slot <;> decide

/-- A result: its data and its pointers. -/
structure Parsed where
  data : ResultData
  pointers : Slot → Option Block

/-- A context: its allocator and its count of live results. -/
structure Context where
  heap : Heap
  resultCount : ℕ
deriving DecidableEq

/-- What a parse works on. -/
structure Work where
  context : Context
  parsed : Parsed

namespace Work

/-- The blocks the pointers of the result hold. -/
def blocks (work : Work) : List Block := allSlots.filterMap work.parsed.pointers

/-- The work with another heap. -/
def withHeap (work : Work) (heap : Heap) : Work :=
  { work with context := { work.context with heap := heap } }

/-- The work with another pointer. -/
def withPointer (work : Work) (slot : Slot) (pointer : Option Block) : Work :=
  { work with parsed :=
    { work.parsed with pointers := Function.update work.parsed.pointers slot pointer } }

/-- The work with other data. -/
def withData (work : Work) (data : ResultData) : Work :=
  { work with parsed := { work.parsed with data := data } }

@[simp] theorem withHeap_heap (work : Work) (heap : Heap) :
    (work.withHeap heap).context.heap = heap := rfl
@[simp] theorem withHeap_parsed (work : Work) (heap : Heap) :
    (work.withHeap heap).parsed = work.parsed := rfl
@[simp] theorem withHeap_resultCount (work : Work) (heap : Heap) :
    (work.withHeap heap).context.resultCount = work.context.resultCount := rfl
@[simp] theorem withPointer_context (work : Work) (slot : Slot) (pointer : Option Block) :
    (work.withPointer slot pointer).context = work.context := rfl
@[simp] theorem withPointer_data (work : Work) (slot : Slot) (pointer : Option Block) :
    (work.withPointer slot pointer).parsed.data = work.parsed.data := rfl
@[simp] theorem withData_context (work : Work) (data : ResultData) :
    (work.withData data).context = work.context := rfl
@[simp] theorem withData_data (work : Work) (data : ResultData) :
    (work.withData data).parsed.data = data := rfl
@[simp] theorem withData_pointers (work : Work) (data : ResultData) :
    (work.withData data).parsed.pointers = work.parsed.pointers := rfl

theorem blocks_withHeap (work : Work) (heap : Heap) : (work.withHeap heap).blocks = work.blocks :=
  rfl

/-- The blocks with one pointer singled out. -/
theorem blocks_withPointer (work : Work) (slot : Slot) (pointer : Option Block) :
    (work.withPointer slot pointer).blocks.Perm
      (pointer.toList ++ (allSlots.erase slot).filterMap work.parsed.pointers) := by
  have hsplit := List.perm_cons_erase (mem_allSlots slot)
  have hrest : (allSlots.erase slot).filterMap (Function.update work.parsed.pointers slot pointer) =
      (allSlots.erase slot).filterMap work.parsed.pointers := by
    apply List.filterMap_congr
    intro other hother
    have hne : other ≠ slot := (nodup_allSlots.mem_erase_iff.mp hother).1
    rw [Function.update_of_ne hne]
  have hperm := hsplit.filterMap (Function.update work.parsed.pointers slot pointer)
  refine hperm.trans ?_
  rw [List.filterMap_cons, Function.update_self, hrest]
  cases pointer <;> exact List.Perm.refl _

theorem blocks_perm (work : Work) (slot : Slot) :
    work.blocks.Perm ((work.parsed.pointers slot).toList ++
      (allSlots.erase slot).filterMap work.parsed.pointers) := by
  have hself : work.withPointer slot (work.parsed.pointers slot) = work := by
    rw [withPointer, Function.update_eq_self]
  have hperm := blocks_withPointer work slot (work.parsed.pointers slot)
  rwa [hself] at hperm

theorem blocks_set {work : Work} {slot : Slot} (h : work.parsed.pointers slot = none)
    (block : Block) : (block :: work.blocks).Perm (work.withPointer slot (some block)).blocks := by
  have hold := blocks_perm work slot
  rw [h] at hold
  exact (hold.cons block).trans (blocks_withPointer work slot (some block)).symm

theorem blocks_clear {work : Work} {slot : Slot} {block : Block}
    (h : work.parsed.pointers slot = some block) :
    work.blocks.Perm (block :: (work.withPointer slot none).blocks) := by
  have hold := blocks_perm work slot
  rw [h] at hold
  exact hold.trans ((blocks_withPointer work slot none).symm.cons block)

end Work

/-! ## Operations -/

/-- Request an array and keep the pointer. -/
def allocateInto (slot : Slot) (size : ℕ) : Attempt Work ErrorCode Unit := fun work =>
  match work.context.heap.allocate size with
  | (none, heap) => (.error (.reject .outOfMemory), work.withHeap heap)
  | (some block, heap) => (.ok (), (work.withHeap heap).withPointer slot (some block))

/-- Request an array and keep the pointer, which may be null. -/
def tryAllocateInto (slot : Slot) (size : ℕ) : Attempt Work ErrorCode Unit := fun work =>
  let (pointer, heap) := work.context.heap.allocate size
  (.ok (), (work.withHeap heap).withPointer slot pointer)

/-- Request a temporary array. -/
def allocateTemporary (size : ℕ) : Attempt Work ErrorCode Block := fun work =>
  match work.context.heap.allocate size with
  | (none, heap) => (.error (.reject .outOfMemory), work.withHeap heap)
  | (some block, heap) => (.ok block, work.withHeap heap)

/-- Free a temporary array. -/
def deallocateTemporary (block : Block) : Attempt Work ErrorCode Unit :=
  Attempt.update fun work => do
    let heap ← work.context.heap.deallocate (some block)
    return work.withHeap heap

/-- Free an array and clear its pointer. -/
def freeSlot (slot : Slot) : Attempt Work ErrorCode Unit :=
  Attempt.update fun work => do
    let heap ← work.context.heap.deallocate (work.parsed.pointers slot)
    return (work.withHeap heap).withPointer slot none

/-- Free arrays in turn. -/
def freeSlots : List Slot → Attempt Work ErrorCode Unit
  | [] => pure ()
  | slot :: rest => do
      freeSlot slot
      freeSlots rest

/-- Change the data of the result. -/
def setData (change : ResultData → ResultData) : Attempt Work ErrorCode Unit :=
  Attempt.modify fun work => work.withData (change work.parsed.data)

/-- Change the count of live results. -/
def countResult (change : ℕ → ℕ) : Attempt Work ErrorCode Unit :=
  Attempt.modify fun work =>
    { work with context := { work.context with resultCount := change work.context.resultCount } }

/-- Release the result: free its arrays, count it out, free the result itself. -/
def releaseResult : Attempt Work ErrorCode Unit := do
  freeSlots arraySlots
  countResult (· - 1)
  freeSlot .result

/-- Taking a block back is never rejected. -/
theorem deallocate_ne_reject (pointer : Option Block) (heap : Heap) (code : ErrorCode) :
    (heap.deallocate pointer : Check ErrorCode Heap) ≠ Check.reject code := by
  intro h
  cases pointer with
  | none => cases h
  | some block =>
      rw [Heap.deallocate] at h
      split at h <;> cases h

theorem freeSlot_unrejected (slot : Slot) : Attempt.Unrejected (freeSlot slot) := by
  apply Attempt.Unrejected.update
  intro work code h
  rcases hheap : (work.context.heap.deallocate (work.parsed.pointers slot) : Check ErrorCode Heap)
    with (_ | code') | heap <;> rw [hheap] at h <;> cases h
  exact deallocate_ne_reject _ _ _ hheap

theorem freeSlots_unrejected (slots : List Slot) : Attempt.Unrejected (freeSlots slots) := by
  induction slots with
  | nil => exact Attempt.Unrejected.pure _
  | cons slot rest ih => exact (freeSlot_unrejected slot).bind fun _ => ih

theorem releaseResult_unrejected : Attempt.Unrejected releaseResult :=
  (freeSlots_unrejected arraySlots).bind fun _ =>
    (Attempt.Unrejected.modify _).bind fun _ => freeSlot_unrejected .result

/-! ## Accounts -/

/-- What an account of a parse is kept against: the context it started from, a bound on the bytes
it may hold at once, and what would make the parse succeed (an allocator that refuses nothing among
it). -/
structure Account where
  base : Context
  bound : Option ℕ
  fine : Prop

/-- The work owns the blocks of its pointers and the temporary blocks `extra`, and nothing else
that was given out since the start. Only the slots `used` hold pointers, `total` bytes together. -/
structure Owned (account : Account) (extra : List Block) (used : List Slot) (total : ℕ)
    (work : Work) : Prop where
  holds : Heap.Holds account.base.heap work.context.heap (extra ++ work.blocks)
  unused : ∀ slot, slot ∉ used → work.parsed.pointers slot = none
  total : Heap.bytes work.blocks = total
  bound : ∀ cap ∈ account.bound,
    work.context.heap.peakBytes ≤ account.base.heap.allocatedBytes + cap
  generous : account.fine → work.context.heap.Generous

namespace Owned

variable {account : Account} {extra : List Block} {used : List Slot} {total : ℕ} {work : Work}

theorem allocated (h : Owned account extra used total work) :
    work.context.heap.allocatedBytes =
      account.base.heap.allocatedBytes + (Heap.bytes extra + total) := by
  rw [h.holds.bytes, Heap.bytes_append, h.total]

/-- A refused request changes nothing that is accounted for. -/
theorem refused (h : Owned account extra used total work) {grants : List Bool}
    (hfine : ¬ account.fine) : Owned account extra used total
      (work.withHeap { work.context.heap with grants := grants }) where
  holds := h.holds.withGrants grants
  unused := h.unused
  total := h.total
  bound := h.bound
  generous := fun hf => absurd hf hfine

/-- The peak after a request was granted. -/
private theorem peak_grant (h : Owned account extra used total work) {size : ℕ}
    (hroom : ∀ cap ∈ account.bound, Heap.bytes extra + total + size ≤ cap) :
    ∀ cap ∈ account.bound, (work.context.heap.grant size).peakBytes ≤
      account.base.heap.allocatedBytes + cap := by
  intro cap hcap
  have hallocated := h.allocated
  have hcapRoom := hroom cap hcap
  exact max_le (h.bound cap hcap) (by omega)

theorem granted (h : Owned account extra used total work) {slot : Slot} (hslot : slot ∉ used)
    {size : ℕ} (hroom : ∀ cap ∈ account.bound, Heap.bytes extra + total + size ≤ cap) :
    Owned account extra (slot :: used) (total + size)
      ((work.withHeap (work.context.heap.grant size)).withPointer slot
        (some ⟨work.context.heap.nextId, size⟩)) := by
  have hbound := h.peak_grant hroom
  have hnone := h.unused slot hslot
  have hset := @Work.blocks_set (work.withHeap (work.context.heap.grant size)) slot hnone
    ⟨work.context.heap.nextId, size⟩
  refine ⟨?_, ?_, ?_, hbound, fun hf => (h.generous hf).grant size⟩
  · refine (h.holds.grant size).perm ?_
    exact List.perm_middle.symm.trans (hset.append_left extra)
  · intro other hother
    rw [List.mem_cons, not_or] at hother
    show Function.update work.parsed.pointers slot _ other = none
    rw [Function.update_of_ne hother.1]
    exact h.unused other hother.2
  · rw [← Heap.bytes_perm hset, Heap.bytes_cons, Work.blocks_withHeap, h.total, Nat.add_comm]

theorem grantedTemporary (h : Owned account extra used total work) {size : ℕ}
    (hroom : ∀ cap ∈ account.bound, Heap.bytes extra + total + size ≤ cap) :
    Owned account (⟨work.context.heap.nextId, size⟩ :: extra) used total
      (work.withHeap (work.context.heap.grant size)) := by
  have hbound := h.peak_grant hroom
  exact ⟨h.holds.grant size, h.unused, h.total, hbound, fun hf => (h.generous hf).grant size⟩

/-- A refusal means that not everything was fine. -/
theorem not_fine (h : Owned account extra used total work) {size : ℕ} {heap : Heap}
    (hrefused : work.context.heap.allocate size = (none, heap)) : ¬ account.fine := by
  intro hf
  rw [(h.generous hf).allocate size] at hrefused
  cases hrefused

end Owned

/-- The work owns what `Owned` says, the count of live results is `count`, and the result has the
data `data`. -/
structure Holding (account : Account) (extra : List Block) (used : List Slot) (total count : ℕ)
    (data : ResultData) (work : Work) : Prop where
  owned : Owned account extra used total work
  count : work.context.resultCount = count
  data : work.parsed.data = data

/-- A parse was rejected although nothing is lost: it owns only what its pointers hold, and not
everything was fine. -/
def Failed (account : Account) (count : ℕ) (_code : ErrorCode) (work : Work) : Prop :=
  ¬ account.fine ∧ ∃ used total data, Holding account [] used total count data work

/-! ## Rules -/

section Rules

variable {account : Account} {extra : List Block} {used : List Slot} {total count : ℕ}
  {data : ResultData}

theorem Holding.failed {work : Work} (code : ErrorCode)
    (h : Holding account [] used total count data work) (hfine : ¬ account.fine) :
    Failed account count code work := ⟨hfine, used, total, data, h⟩

theorem allocateInto_spec {slot : Slot} (hslot : slot ∉ used) {size : ℕ} (hsize : 1 ≤ size)
    (hroom : ∀ cap ∈ account.bound, total + size ≤ cap) :
    Attempt.Spec (Holding account [] used total count data) (allocateInto slot size)
      (fun _ => Holding account [] (slot :: used) (total + size) count data)
      (fun _ work => ¬ account.fine ∧ Holding account [] used total count data work) := by
  rintro work ⟨h, hcount, hdata⟩
  have hroom' : ∀ cap ∈ account.bound, Heap.bytes [] + total + size ≤ cap := by
    simpa using hroom
  rw [allocateInto]
  rcases Heap.allocate_cases size work.context.heap with ⟨grants, hrefused⟩ | hgranted
  · have hfine := h.not_fine hrefused
    rw [hrefused]
    exact ⟨hfine, h.refused hfine, hcount, hdata⟩
  · rw [hgranted, max_eq_left hsize]
    exact ⟨h.granted hslot hroom', hcount, hdata⟩

/-- Requests for the slots `slots` were made in turn: either all of them were granted, or one was
refused and its pointer is null. -/
def Tried (account : Account) (slots used : List Slot) (total count : ℕ) (data : ResultData)
    (work : Work) : Prop :=
  Holding account [] (slots ++ used) total count data work ∧
      (∀ slot ∈ slots, work.parsed.pointers slot ≠ none) ∨
    ∃ held taken, Holding account [] held taken count data work ∧ held ⊆ slots ++ used ∧
      taken ≤ total ∧ ¬ account.fine ∧ ∃ slot ∈ slots, work.parsed.pointers slot = none

theorem Holding.tried {work : Work} (h : Holding account [] used total count data work) :
    Tried account [] used total count data work := .inl ⟨h, List.forall_mem_nil _⟩

/-- A request that may fail leaves the pointer null. -/
theorem tryAllocateInto_spec {slots : List Slot} {slot : Slot} (hslot : slot ∉ slots ++ used)
    {size : ℕ} (hsize : 1 ≤ size) (hroom : ∀ cap ∈ account.bound, total + size ≤ cap)
    {E : ErrorCode → Work → Prop} :
    Attempt.Spec (Tried account slots used total count data) (tryAllocateInto slot size)
      (fun _ => Tried account (slot :: slots) used (total + size) count data) E := by
  intro work hwork
  have hapart : ∀ other ∈ slots, other ≠ slot := by
    rintro other hmem rfl
    exact hslot (List.mem_append_left _ hmem)
  rw [tryAllocateInto]
  rcases Heap.allocate_cases size work.context.heap with ⟨grants, hrefused⟩ | hgranted
  · rw [hrefused]
    right
    have hkept : ∀ held taken, Holding account [] held taken count data work →
        slot ∉ held → ¬ account.fine ∧ Holding account [] held taken count data
          ((work.withHeap { work.context.heap with grants := grants }).withPointer slot none) := by
      intro held taken h hunused
      have hfine := h.owned.not_fine hrefused
      have hself : (work.withHeap { work.context.heap with grants := grants }).withPointer slot
          none = work.withHeap { work.context.heap with grants := grants } := by
        rw [Work.withPointer, Work.withHeap_parsed, ← h.owned.unused slot hunused,
          Function.update_eq_self]
        rfl
      rw [hself]
      exact ⟨hfine, h.owned.refused hfine, h.count, h.data⟩
    have hnull : ∃ other ∈ slot :: slots,
        ((work.withHeap { work.context.heap with grants := grants }).withPointer slot
          none).parsed.pointers other = none :=
      ⟨slot, List.mem_cons_self, Function.update_self _ _ _⟩
    rcases hwork with ⟨h, -⟩ | ⟨held, taken, h, hsub, hle, hfine, -⟩
    · obtain ⟨hfine, h'⟩ := hkept _ _ h hslot
      exact ⟨_, _, h', List.subset_cons_self _ _, Nat.le_add_right _ _, hfine, hnull⟩
    · obtain ⟨-, h'⟩ := hkept _ _ h fun hmem => hslot (hsub hmem)
      exact ⟨_, _, h', fun _ hmem => List.mem_cons_of_mem _ (hsub hmem), hle.trans (Nat.le_add_right _ _),
        hfine, hnull⟩
  · rw [hgranted, max_eq_left hsize]
    rcases hwork with ⟨h, hall⟩ | ⟨held, taken, h, hsub, hle, hfine, other, hother, hnone⟩
    · left
      have hroom' : ∀ cap ∈ account.bound, Heap.bytes [] + total + size ≤ cap := by
        simpa using hroom
      refine ⟨⟨h.owned.granted hslot hroom', h.count, h.data⟩, ?_⟩
      intro other hother
      rcases List.mem_cons.mp hother with rfl | hmem
      · show Function.update work.parsed.pointers other _ other ≠ none
        rw [Function.update_self]
        exact Option.some_ne_none _
      · show Function.update work.parsed.pointers slot _ other ≠ none
        rw [Function.update_of_ne (hapart other hmem)]
        exact hall other hmem
    · right
      have hroom' : ∀ cap ∈ account.bound, Heap.bytes [] + taken + size ≤ cap := by
        intro cap hcap
        have := hroom cap hcap
        rw [Heap.bytes_nil]
        omega
      have hunused : slot ∉ held := fun hmem => hslot (hsub hmem)
      refine ⟨_, _, ⟨h.owned.granted hunused hroom', h.count, h.data⟩,
        List.cons_subset_cons slot hsub, Nat.add_le_add_right hle size, hfine, other,
        List.mem_cons_of_mem _ hother, ?_⟩
      show Function.update work.parsed.pointers slot _ other = none
      rw [Function.update_of_ne (hapart other hother)]
      exact hnone

/-- The test that all requests made in turn were granted. -/
theorem tried_spec {α : Type} {slots : List Slot} {bad : Work → Prop} [DecidablePred bad]
    (hbad : ∀ work, bad work ↔ ∃ slot ∈ slots, work.parsed.pointers slot = none)
    {f : Unit → Attempt Work ErrorCode α} {R : α → Work → Prop}
    (hf : Attempt.Spec (Holding account [] (slots ++ used) total count data) (f ()) R
      (Failed account count)) :
    Attempt.Spec (Tried account slots used total count data)
      (Attempt.get >>= fun work => Attempt.rejectIf (bad work) .outOfMemory >>= f) R
      (Failed account count) := by
  refine Attempt.Spec.bind_get_same fun seen hseen => ?_
  rcases hseen with ⟨h, hall⟩ | ⟨held, taken, h, -, -, hfine, hnull⟩
  · refine Attempt.Spec.bind_rejectIf ?_ fun _ => hf.pre fun work hwork => hwork ▸ h
    intro hnull
    obtain ⟨slot, hmem, hnone⟩ := (hbad seen).mp hnull
    exact absurd hnone (hall slot hmem)
  · refine Attempt.Spec.bind_rejectIf ?_ fun hgood => absurd ((hbad seen).mpr hnull) hgood
    rintro - work rfl
    exact h.failed _ hfine

theorem allocateTemporary_spec {size : ℕ} (hsize : 1 ≤ size)
    (hroom : ∀ cap ∈ account.bound, total + size ≤ cap) :
    Attempt.Spec (Holding account [] used total count data) (allocateTemporary size)
      (fun block => Holding account [block] used total count data)
      (fun _ work => ¬ account.fine ∧ Holding account [] used total count data work) := by
  rintro work ⟨h, hcount, hdata⟩
  have hroom' : ∀ cap ∈ account.bound, Heap.bytes [] + total + size ≤ cap := by
    simpa using hroom
  rw [allocateTemporary]
  rcases Heap.allocate_cases size work.context.heap with ⟨grants, hrefused⟩ | hgranted
  · have hfine := h.not_fine hrefused
    rw [hrefused]
    exact ⟨hfine, h.refused hfine, hcount, hdata⟩
  · rw [hgranted, max_eq_left hsize]
    exact ⟨h.grantedTemporary hroom', hcount, hdata⟩

theorem deallocateTemporary_spec {block : Block} {E : ErrorCode → Work → Prop} :
    Attempt.Spec (Holding account (block :: extra) used total count data)
      (deallocateTemporary block) (fun _ => Holding account extra used total count data) E := by
  apply Attempt.spec_update
  rintro work ⟨h, hcount, hdata⟩
  obtain ⟨heap, hdeallocate, hholds, hpeak, hgenerous⟩ := Heap.Holds.deallocate h.holds
  refine ⟨work.withHeap heap, ?_, ⟨⟨hholds, h.unused, h.total, ?_, ?_⟩, hcount, hdata⟩⟩
  · rw [hdeallocate]
    rfl
  · intro cap hcap
    exact hpeak.le.trans (h.bound cap hcap)
  · exact fun hf => hgenerous (h.generous hf)

theorem freeSlot_spec (slot : Slot) {E : ErrorCode → Work → Prop} :
    Attempt.Spec (fun work => ∃ total, Holding account [] used total count data work)
      (freeSlot slot)
      (fun _ work => ∃ total,
        Holding account [] (used.filter fun other => other ≠ slot) total count data work) E := by
  apply Attempt.spec_update
  rintro work ⟨total, h, hcount, hdata⟩
  have hunused : ∀ other, other ∉ used.filter (fun other => other ≠ slot) →
      Function.update work.parsed.pointers slot none other = none := by
    intro other hother
    by_cases hself : other = slot
    · rw [hself, Function.update_self]
    · rw [Function.update_of_ne hself]
      apply h.unused
      intro hmem
      exact hother (List.mem_filter.mpr ⟨hmem, by simpa using hself⟩)
  cases hpointer : work.parsed.pointers slot with
  | none =>
      have hself : work.withPointer slot none = work := by
        rw [Work.withPointer, ← hpointer, Function.update_eq_self]
      refine ⟨work.withPointer slot none, rfl, total, ⟨?_, hunused, ?_, h.bound, h.generous⟩,
        hcount, hdata⟩
      · rw [hself]
        exact h.holds
      · rw [hself]
        exact h.total
  | some block =>
      have hclear := Work.blocks_clear hpointer
      have howned := h.holds.perm hclear
      obtain ⟨heap, hdeallocate, hholds, hpeak, hgenerous⟩ := Heap.Holds.deallocate howned
      refine ⟨(work.withHeap heap).withPointer slot none, ?_, _, ⟨hholds, hunused, rfl, ?_, ?_⟩,
        hcount, hdata⟩
      · rw [hdeallocate]
        rfl
      · intro cap hcap
        exact hpeak.le.trans (h.bound cap hcap)
      · exact fun hf => hgenerous (h.generous hf)

theorem freeSlots_spec (slots : List Slot) {E : ErrorCode → Work → Prop} :
    Attempt.Spec (fun work => ∃ total, Holding account [] used total count data work)
      (freeSlots slots)
      (fun _ work => ∃ total,
        Holding account [] (used.filter fun other => other ∉ slots) total count data work) E := by
  induction slots generalizing used with
  | nil =>
      have hall : used.filter (fun other => other ∉ ([] : List Slot)) = used := by simp
      rw [hall]
      exact fun _ h => h
  | cons slot rest ih =>
      refine Attempt.Spec.bind (freeSlot_spec slot) fun _ => ?_
      have hfilter : (used.filter fun other => other ≠ slot).filter (fun other => other ∉ rest) =
          used.filter fun other => other ∉ slot :: rest := by
        rw [List.filter_filter]
        apply List.filter_congr
        intro other _
        simp [Bool.and_comm]
      rw [← hfilter]
      exact ih

theorem setData_spec {change : ResultData → ResultData} {E : ErrorCode → Work → Prop} :
    Attempt.Spec (Holding account extra used total count data) (setData change)
      (fun _ => Holding account extra used total count (change data)) E := by
  rintro work ⟨h, hcount, rfl⟩
  exact ⟨⟨h.holds, h.unused, h.total, h.bound, h.generous⟩, hcount, rfl⟩

theorem countResult_spec {change : ℕ → ℕ} {E : ErrorCode → Work → Prop} :
    Attempt.Spec (Holding account extra used total count data) (countResult change)
      (fun _ => Holding account extra used total (change count) data) E := by
  rintro work ⟨h, rfl, hdata⟩
  exact ⟨⟨h.holds, h.unused, h.total, h.bound, h.generous⟩, rfl, hdata⟩

/-- After the release nothing is left, and the result is counted out. -/
theorem releaseResult_spec {E : ErrorCode → Work → Prop} :
    Attempt.Spec (fun work => ∃ total, Holding account [] used total count data work)
      releaseResult (fun _ => Holding account [] [] 0 (count - 1) data) E := by
  refine Attempt.Spec.bind (freeSlots_spec arraySlots) fun _ => ?_
  refine Attempt.Spec.bind
    (Q := fun _ work => ∃ total, Holding account []
      (used.filter fun other => other ∉ arraySlots) total (count - 1) data work) ?_ fun _ => ?_
  · rintro work ⟨total, h, hcount, hdata⟩
    exact ⟨total, ⟨h.holds, h.unused, h.total, h.bound, h.generous⟩,
      congrArg (· - 1) hcount, hdata⟩
  · refine (freeSlot_spec .result).post ?_
    rintro _ work ⟨total, h, hcount, hdata⟩
    have hnone : ∀ slot, work.parsed.pointers slot = none := by
      intro slot
      apply h.unused
      intro hmem
      simp only [List.mem_filter, decide_eq_true_eq] at hmem
      obtain ⟨⟨-, harray⟩, hresult⟩ := hmem
      have hall := mem_allSlots slot
      rw [allSlots, List.mem_append, List.mem_singleton] at hall
      exact hall.elim harray hresult
    have hblocks : work.blocks = [] := by
      rw [Work.blocks, List.filterMap_eq_nil_iff]
      exact fun slot _ => hnone slot
    refine ⟨⟨h.holds, fun slot _ => hnone slot, ?_, h.bound, h.generous⟩, hcount, hdata⟩
    rw [hblocks]
    rfl

end Rules

end LibApta.Container
