import Mathlib.Data.Nat.Init
import Mathlib.Algebra.Order.Ring.Nat
import Mathlib.Tactic.Ring

/-!
# Sizes of the target

Sizes and alignments of the internal records as the compiler lays them out, and the size arithmetic
the allocators share. Sizes are natural numbers; each place where the source tests for `SIZE_MAX`
keeps the test, and an alignment that does not fit is `SIZE_MAX` itself. Where the source adds and
subtracts without a test the result is taken modulo `SIZE_MAX + 1`.
-/

namespace LibApta.Memory

/-- `apta_internal_is_power_of_two`. -/
def isPowerOfTwo (value : ℕ) : Bool := decide (value ≠ 0) && decide (value &&& (value - 1) = 0)

@[simp] theorem isPowerOfTwo_iff {value : ℕ} : isPowerOfTwo value = true ↔ value.isPowerOfTwo := by
  rw [isPowerOfTwo, Bool.and_eq_true, decide_eq_true_iff, decide_eq_true_iff]
  exact Nat.ne_zero_and_sub_one_eq_zero_iff_isPowerOfTwo

/-- Of two powers of two the smaller divides the larger. -/
theorem dvd_of_isPowerOfTwo {a b : ℕ} (ha : a.isPowerOfTwo) (hb : b.isPowerOfTwo) (hle : a ≤ b) :
    a ∣ b := by
  obtain ⟨i, rfl⟩ := ha
  obtain ⟨j, rfl⟩ := hb
  exact pow_dvd_pow 2 ((Nat.pow_le_pow_iff_right (by omega)).mp hle)

/-- Sizes and alignments of the target: `SIZE_MAX`, the alignment of a pointer, the largest
fundamental alignment, and the sizes of a workspace block header, of the header hidden before a
payload and of a session. -/
structure Platform where
  sizeMax : ℕ
  pointerAlignment : ℕ
  maxAlignment : ℕ
  blockSize : ℕ
  headerSize : ℕ
  sessionSize : ℕ
  sizeMax_isPowerOfTwo : (sizeMax + 1).isPowerOfTwo
  pointerAlignment_isPowerOfTwo : pointerAlignment.isPowerOfTwo
  maxAlignment_isPowerOfTwo : maxAlignment.isPowerOfTwo
  pointerAlignment_le : pointerAlignment ≤ maxAlignment
  blockSize_pos : 0 < blockSize
  sizes_fit : 2 * (sessionSize + blockSize + headerSize + 3 * maxAlignment) ≤ sizeMax

/-- A target with 64-bit sizes and pointers. -/
def lp64 : Platform where
  sizeMax := 18446744073709551615
  pointerAlignment := 8
  maxAlignment := 16
  blockSize := 32
  headerSize := 24
  sessionSize := 12800
  sizeMax_isPowerOfTwo := ⟨64, rfl⟩
  pointerAlignment_isPowerOfTwo := ⟨3, rfl⟩
  maxAlignment_isPowerOfTwo := ⟨4, rfl⟩
  pointerAlignment_le := by decide
  blockSize_pos := by decide
  sizes_fit := by decide

namespace Platform

variable (p : Platform)

theorem maxAlignment_pos : 0 < p.maxAlignment :=
  Nat.pos_of_isPowerOfTwo p.maxAlignment_isPowerOfTwo

/-- A number as a `size_t` keeps it. -/
def wrap (value : ℕ) : ℕ := value % (p.sizeMax + 1)

/-- Subtraction of a `size_t`. -/
def wrapSub (value amount : ℕ) : ℕ := p.wrap (value + (p.sizeMax + 1) - amount)

variable {p} in
theorem wrap_of_le {value : ℕ} (h : value ≤ p.sizeMax) : p.wrap value = value :=
  Nat.mod_eq_of_lt (Nat.lt_succ_of_le h)

theorem wrap_le (value : ℕ) : p.wrap value ≤ p.sizeMax :=
  Nat.le_of_lt_succ (Nat.mod_lt _ (Nat.succ_pos _))

@[simp] theorem wrap_wrap_add (value amount : ℕ) :
    p.wrap (p.wrap value + amount) = p.wrap (value + amount) := Nat.mod_add_mod _ _ _

variable {p} in
/-- What a sum counts is taken out again, also when the sum wrapped. -/
theorem wrapSub_wrap_add (value : ℕ) {amount : ℕ} (h : amount ≤ p.sizeMax) :
    p.wrapSub (p.wrap (value + amount)) amount = p.wrap value := by
  unfold wrapSub
  have hsplit : p.wrap (value + amount) + (p.sizeMax + 1) - amount =
      p.wrap (value + amount) + (p.sizeMax + 1 - amount) := by omega
  have hsum : value + amount + (p.sizeMax + 1 - amount) = value + (p.sizeMax + 1) := by omega
  rw [hsplit, wrap_wrap_add, hsum]
  exact Nat.add_mod_right _ _

variable {p} in
theorem wrapSub_of_le {value amount : ℕ} (hvalue : value ≤ p.sizeMax) (h : amount ≤ value) :
    p.wrapSub value amount = value - amount := by
  have hsum : value = value - amount + amount := by omega
  have hback := wrapSub_wrap_add (p := p) (value - amount) (h.trans hvalue)
  rwa [← hsum, wrap_of_le hvalue, wrap_of_le ((Nat.sub_le _ _).trans hvalue)] at hback

variable {p} in
/-- A power of two that is a `size_t` fits in one twice, but for one. -/
theorem two_mul_le_of_isPowerOfTwo {alignment : ℕ} (h : alignment.isPowerOfTwo)
    (hle : alignment ≤ p.sizeMax) : 2 * alignment ≤ p.sizeMax + 1 := by
  obtain ⟨count, hcount⟩ := dvd_of_isPowerOfTwo h p.sizeMax_isPowerOfTwo (by omega)
  have hpos := Nat.pos_of_isPowerOfTwo h
  have htwo : 2 ≤ count := by
    by_contra hlt
    have : count = 0 ∨ count = 1 := by omega
    rcases this with rfl | rfl <;> omega
  calc 2 * alignment = alignment * 2 := Nat.mul_comm _ _
    _ ≤ alignment * count := Nat.mul_le_mul_left _ htwo
    _ = p.sizeMax + 1 := hcount.symm

/-- `apta_workspace_align_up`. For a power of two the quotient and the mask of the source agree. -/
def alignUp (value alignment : ℕ) : ℕ :=
  if p.sizeMax - (alignment - 1) < value then p.sizeMax
  else (value + alignment - 1) / alignment * alignment

/-- Rounding up to a multiple. -/
theorem roundUp_spec {value alignment : ℕ} (h : 0 < alignment) :
    value ≤ (value + alignment - 1) / alignment * alignment ∧
      (value + alignment - 1) / alignment * alignment < value + alignment ∧
      alignment ∣ (value + alignment - 1) / alignment * alignment := by
  have hdiv := Nat.div_add_mod (value + alignment - 1) alignment
  have hmod := Nat.mod_lt (value + alignment - 1) h
  rw [Nat.mul_comm] at hdiv
  exact ⟨by omega, by omega, Nat.dvd_mul_left _ _⟩

variable {p}

/-- A value whose alignment fits is aligned to the next multiple. -/
theorem alignUp_spec {value alignment : ℕ} (h : 0 < alignment)
    (hne : p.alignUp value alignment ≠ p.sizeMax) :
    value ≤ p.alignUp value alignment ∧ p.alignUp value alignment < value + alignment ∧
      alignment ∣ p.alignUp value alignment := by
  unfold alignUp at hne ⊢
  split_ifs at hne ⊢ with hwraps
  · exact absurd rfl hne
  · exact roundUp_spec h

variable (p)

/-- Offset of a payload in its block: the block header and the hidden header, aligned. -/
def payloadOffset : ℕ := p.alignUp (p.blockSize + p.headerSize) p.maxAlignment

/-- `apta_workspace_payload_prefix_size`: bytes of a block between its header and its payload. -/
def payloadPrefixSize : ℕ :=
  if p.payloadOffset = p.sizeMax then p.sizeMax else p.payloadOffset - p.blockSize

/-- Offset of the arena in a workspace. -/
def arenaOffset : ℕ := p.alignUp p.sessionSize p.maxAlignment

theorem arenaOffset_lt : p.arenaOffset < p.sessionSize + p.maxAlignment ∧
    p.maxAlignment ∣ p.arenaOffset := by
  have hpos := p.maxAlignment_pos
  have hfit := p.sizes_fit
  unfold arenaOffset alignUp
  rw [if_neg (by omega)]
  exact (roundUp_spec hpos).2

theorem payloadOffset_spec : p.blockSize + p.headerSize ≤ p.payloadOffset ∧
    p.payloadOffset < p.blockSize + p.headerSize + p.maxAlignment ∧
    p.maxAlignment ∣ p.payloadOffset := by
  have hpos := p.maxAlignment_pos
  have hfit := p.sizes_fit
  unfold payloadOffset alignUp
  rw [if_neg (by omega)]
  exact roundUp_spec hpos

/-- The payload of a block starts at its payload offset. -/
theorem blockSize_add_payloadPrefixSize : p.blockSize + p.payloadPrefixSize = p.payloadOffset := by
  obtain ⟨hle, hlt, -⟩ := p.payloadOffset_spec
  have hfit := p.sizes_fit
  unfold payloadPrefixSize
  rw [if_neg (by omega)]
  omega

/-- The hidden header fits before a payload. -/
theorem headerSize_le_payloadPrefixSize : p.headerSize ≤ p.payloadPrefixSize := by
  have hoffset := p.blockSize_add_payloadPrefixSize
  have hle := p.payloadOffset_spec.1
  omega

end Platform

end LibApta.Memory
