import Mathlib.Algebra.CharP.Two
import Mathlib.Algebra.Field.ZMod
import Mathlib.Algebra.Polynomial.CoeffList
import Mathlib.Algebra.Polynomial.Div
import Mathlib.Algebra.Polynomial.Inductions
import Mathlib.Data.Nat.Bitwise
import Mathlib.Data.ZMod.Basic
import Mathlib.RingTheory.Coprime.Lemmas

/-!
# Cyclic redundancy checks

A bit string is a polynomial over the field of two elements, its first bit the highest coefficient. A
shift register that divides bit by bit, without tables and with the lowest bit of the register as the
highest coefficient, holds the remainder of what it was fed (`remainder_feed`), whatever the width and
the generator. Two bit strings that differ within a burst no longer than the width leave different
registers, as soon as the generator has a constant term (`feed_ne_of_burst`).
-/

namespace LibApta.Crc

open Polynomial

/-! ## Bit strings as polynomials -/

/-- The polynomial of a bit. -/
noncomputable def bit (b : Bool) : (ZMod 2)[X] := if b then 1 else 0

/-- The polynomial of a bit string, the first bit the highest coefficient. -/
noncomputable def message (bits : List Bool) : (ZMod 2)[X] :=
  bits.foldl (fun p b => X * p + bit b) 0

@[simp] theorem message_nil : message [] = 0 := rfl

theorem message_append (before after : List Bool) :
    message (before ++ after) = X ^ after.length * message before + message after := by
  have hfold : ∀ p, after.foldl (fun p b => X * p + bit b) p =
      X ^ after.length * p + message after := by
    induction after with
    | nil => exact fun p => by simp
    | cons b rest ih =>
        intro p
        have hone : message (b :: rest) = X ^ rest.length * (X * 0 + bit b) + message rest := ih _
        rw [List.foldl_cons, ih, hone, List.length_cons]
        ring
  rw [message, List.foldl_append]
  exact hfold _

theorem message_singleton (b : Bool) : message [b] = bit b := by simp [message]

theorem message_cons (b : Bool) (rest : List Bool) :
    message (b :: rest) = X ^ rest.length * bit b + message rest := by
  rw [← List.singleton_append, message_append, message_singleton]

theorem message_replicate_false (n : ℕ) : message (List.replicate n false) = 0 := by
  induction n with
  | zero => rfl
  | succ n ih => rw [List.replicate_succ, message_cons, ih, bit]; simp

theorem bit_xor (a b : Bool) : bit (a ^^ b) = bit a + bit b := by
  cases a <;> cases b <;> simp [bit, CharTwo.add_self_eq_zero]

/-- Adding bit by bit is adding polynomials. -/
theorem message_map_xor {ι : Type} (f g : ι → Bool) (l : List ι) :
    message (l.map fun i => f i ^^ g i) = message (l.map f) + message (l.map g) := by
  induction l with
  | nil => simp
  | cons i rest ih =>
      rw [List.map_cons, List.map_cons, List.map_cons, message_cons, message_cons, message_cons, ih,
        bit_xor, List.length_map, List.length_map, List.length_map]
      ring

theorem degree_message_lt (bits : List Bool) : (message bits).degree < bits.length := by
  induction bits with
  | nil => simp [degree_zero]
  | cons b rest ih =>
      rw [message_cons]
      refine (degree_add_le _ _).trans_lt (max_lt ?_ ?_)
      · have hbit : (bit b).degree ≤ 0 := by
          cases b <;> simp [bit]
        refine (degree_mul_le _ _).trans_lt ?_
        rw [degree_X_pow, List.length_cons]
        calc (rest.length : WithBot ℕ) + (bit b).degree ≤ rest.length + 0 := by gcongr
          _ < (rest.length + 1 : ℕ) := by
            rw [add_zero]
            exact_mod_cast Nat.lt_succ_self _
      · exact ih.trans (by
          rw [List.length_cons]
          exact_mod_cast Nat.lt_succ_self _)

/-- Different bit strings of one length are different polynomials. -/
theorem message_injective {bits bits' : List Bool} (hlength : bits.length = bits'.length)
    (h : message bits = message bits') : bits = bits' := by
  induction bits generalizing bits' with
  | nil => exact (List.length_eq_zero_iff.mp hlength.symm).symm
  | cons b rest ih =>
      cases bits' with
      | nil => cases hlength
      | cons b' rest' =>
          have hrest : rest.length = rest'.length := Nat.succ.inj hlength
          rw [message_cons, message_cons] at h
          have hhigh (c : Bool) (tail : List Bool) (htail : tail.length = rest.length) :
              (X ^ tail.length * bit c + message tail).coeff rest.length = if c then 1 else 0 := by
            have hlow : (message tail).coeff rest.length = 0 :=
              coeff_eq_zero_of_degree_lt (htail ▸ degree_message_lt tail)
            rw [coeff_add, hlow, htail, add_zero]
            cases c <;> simp [bit]
          have hcoeff := congrArg (fun p => p.coeff rest.length) h
          simp only [hhigh b rest rfl, hhigh b' rest' hrest.symm] at hcoeff
          have hbit : b = b' := by
            cases b <;> cases b' <;> simp at hcoeff ⊢
          subst hbit
          rw [hrest] at h
          rw [ih hrest (add_left_cancel h)]

/-! ## Shift registers -/

/-- The bits of a register, the lowest one first. -/
def registerBits (width register : ℕ) : List Bool := (List.range width).map register.testBit

@[simp] theorem length_registerBits (width register : ℕ) :
    (registerBits width register).length = width := by simp [registerBits]

/-- The polynomial of a register, its lowest bit the highest coefficient. -/
noncomputable def reflected (width register : ℕ) : (ZMod 2)[X] :=
  message (registerBits width register)

theorem reflected_xor (width r r' : ℕ) :
    reflected width (r ^^^ r') = reflected width r + reflected width r' := by
  unfold reflected registerBits
  rw [← message_map_xor]
  exact congrArg message (List.map_congr_left fun i _ => Nat.testBit_xor r r' i)

theorem degree_reflected_lt (width register : ℕ) : (reflected width register).degree < width := by
  simpa [reflected] using degree_message_lt (registerBits width register)

/-- The generator that a register divides by: its leading term, and the polynomial of a register. -/
noncomputable def generator (width poly : ℕ) : (ZMod 2)[X] := X ^ width + reflected width poly

theorem generator_monic (width poly : ℕ) : (generator width poly).Monic :=
  monic_X_pow_add (degree_reflected_lt width poly)

theorem degree_generator (width poly : ℕ) : (generator width poly).degree = width := by
  have hlt : (reflected width poly).degree < (X ^ width : (ZMod 2)[X]).degree := by
    rw [degree_X_pow]
    exact degree_reflected_lt width poly
  rw [generator, degree_add_eq_left_of_degree_lt hlt, degree_X_pow]

/-- Shift a register by one bit, and subtract the generator when the bit is set. -/
def shiftBit (poly register : ℕ) : ℕ :=
  if register % 2 = 1 then (register >>> 1) ^^^ poly else register >>> 1

variable {width poly register : ℕ}

/-- A register that is shifted is multiplied by `X`, but for its lowest bit. -/
theorem X_mul_reflected (h : register < 2 ^ width) (hwidth : 0 < width) :
    X * reflected width register =
      bit (register.testBit 0) * X ^ width + reflected width (register >>> 1) := by
  obtain ⟨n, rfl⟩ := Nat.exists_eq_succ_of_ne_zero hwidth.ne'
  have hbits : registerBits (n + 1) register =
      register.testBit 0 :: registerBits n (register >>> 1) := by
    unfold registerBits
    rw [List.range_succ_eq_map, List.map_cons, List.map_map]
    refine congrArg _ (List.map_congr_left fun i _ => ?_)
    rw [Function.comp_apply, Nat.testBit_shiftRight, Nat.succ_eq_add_one, Nat.add_comm]
  have hshifted : registerBits (n + 1) (register >>> 1) =
      registerBits n (register >>> 1) ++ [false] := by
    unfold registerBits
    rw [List.range_succ, List.map_append, List.map_singleton, Nat.testBit_shiftRight,
      Nat.testBit_lt_two_pow (h.trans_le (Nat.pow_le_pow_right two_pos (Nat.add_comm n 1).le))]
  rw [Nat.succ_eq_add_one, reflected, reflected, hbits, hshifted, message_cons, message_append,
    message_singleton, length_registerBits, bit, bit]
  simp only [List.length_singleton, Bool.false_eq_true, if_false]
  ring

/-- A step of the register multiplies it by `X`, modulo the generator. -/
theorem dvd_shiftBit (h : register < 2 ^ width) (hwidth : 0 < width) :
    generator width poly ∣ X * reflected width register - reflected width (shiftBit poly register) := by
  have hlow : register.testBit 0 = decide (register % 2 = 1) := Nat.testBit_zero register
  rw [X_mul_reflected h hwidth, hlow]
  unfold shiftBit
  split_ifs with hodd
  · refine ⟨1, ?_⟩
    rw [reflected_xor, generator, decide_eq_true hodd, bit, if_pos rfl, CharTwo.sub_eq_add]
    ring_nf
    rw [show reflected width (register >>> 1) * 2 = 0 by
      rw [mul_two, CharTwo.add_self_eq_zero]]
    ring
  · refine ⟨0, ?_⟩
    rw [decide_eq_false hodd, bit, if_neg Bool.false_ne_true]
    ring

theorem shiftBit_lt (hpoly : poly < 2 ^ width) (h : register < 2 ^ width) :
    shiftBit poly register < 2 ^ width := by
  have hshift : register >>> 1 < 2 ^ width := by
    rw [Nat.shiftRight_eq_div_pow]
    exact (Nat.div_le_self _ _).trans_lt h
  unfold shiftBit
  split_ifs
  · exact Nat.xor_lt_two_pow hshift hpoly
  · exact hshift

/-- So many steps of the register multiply it by that power of `X`, modulo the generator. -/
theorem dvd_iterate_shiftBit (hpoly : poly < 2 ^ width) (hwidth : 0 < width) (n : ℕ)
    (h : register < 2 ^ width) :
    (shiftBit poly)^[n] register < 2 ^ width ∧
      generator width poly ∣
        X ^ n * reflected width register - reflected width ((shiftBit poly)^[n] register) := by
  induction n generalizing register with
  | zero => exact ⟨h, by simp⟩
  | succ n ih =>
      obtain ⟨hlt, hdvd⟩ := ih (shiftBit_lt hpoly h)
      refine ⟨hlt, ?_⟩
      have hone : generator width poly ∣
          X * reflected width register - reflected width (shiftBit poly register) :=
        dvd_shiftBit h hwidth
      have hstep := hone.mul_left (X ^ n)
      rw [Function.iterate_succ_apply]
      convert hdvd.add hstep using 1
      ring

/-! ## Feeding bytes -/

/-- Feed a byte to a register, the lowest bit first. -/
def feed (poly register byte : ℕ) : ℕ := (shiftBit poly)^[8] (register ^^^ byte)

/-- The bits of a byte string in the order they are fed. -/
def byteBits (bytes : List ℕ) : List Bool := bytes.flatMap (registerBits 8)

theorem length_byteBits (bytes : List ℕ) : (byteBits bytes).length = 8 * bytes.length := by
  simp [byteBits, List.length_flatMap, Nat.mul_comm]

/-- A byte takes the highest places of the register. -/
theorem reflected_byte {byte : ℕ} (hbyte : byte < 2 ^ 8) (hwidth : 8 ≤ width) :
    X ^ 8 * reflected width byte = X ^ width * message (registerBits 8 byte) := by
  obtain ⟨n, rfl⟩ := Nat.exists_eq_add_of_le hwidth
  have hbits : registerBits (8 + n) byte = registerBits 8 byte ++ List.replicate n false := by
    unfold registerBits
    rw [List.range_add, List.map_append, List.map_map]
    refine congrArg _ (List.eq_replicate_iff.mpr ⟨by simp, fun b hb => ?_⟩)
    obtain ⟨i, -, rfl⟩ := List.mem_map.mp hb
    exact Nat.testBit_lt_two_pow (hbyte.trans_le (Nat.pow_le_pow_right two_pos (Nat.le_add_right 8 i)))
  rw [reflected, hbits, message_append, message_replicate_false, List.length_replicate]
  ring

/-- Feeding a byte string to a register keeps it within its width, and divides. -/
theorem dvd_feed (hpoly : poly < 2 ^ width) (hwidth : 8 ≤ width) (bytes : List ℕ)
    (hbytes : ∀ byte ∈ bytes, byte < 2 ^ 8) (h : register < 2 ^ width) :
    bytes.foldl (feed poly) register < 2 ^ width ∧
      generator width poly ∣ X ^ (8 * bytes.length) * reflected width register +
        X ^ width * message (byteBits bytes) - reflected width (bytes.foldl (feed poly) register) := by
  induction bytes generalizing register with
  | nil => exact ⟨h, by simp [byteBits]⟩
  | cons byte rest ih =>
      obtain ⟨hbyte, hrest⟩ := List.forall_mem_cons.mp hbytes
      have hmixed : register ^^^ byte < 2 ^ width :=
        Nat.xor_lt_two_pow h (hbyte.trans_le (Nat.pow_le_pow_right two_pos hwidth))
      obtain ⟨hfed, hstep⟩ := dvd_iterate_shiftBit hpoly (by omega) 8 hmixed
      obtain ⟨hlt, hdvd⟩ := ih hrest hfed
      refine ⟨hlt, ?_⟩
      have hbits : message (byteBits (byte :: rest)) =
          X ^ (8 * rest.length) * message (registerBits 8 byte) + message (byteBits rest) := by
        rw [byteBits, List.flatMap_cons, message_append, ← length_byteBits]
        rfl
      have htail := hstep.mul_left (X ^ (8 * rest.length))
      rw [reflected_xor, mul_add, reflected_byte hbyte hwidth] at htail
      rw [List.foldl_cons, List.length_cons, hbits]
      convert hdvd.add htail using 1
      rw [feed]
      ring

/-- **The register holds a remainder.** After a byte string has been fed, the register is the remainder
of what it held before and of the byte string, both shifted to their places. -/
theorem remainder_feed (hpoly : poly < 2 ^ width) (hwidth : 8 ≤ width) (bytes : List ℕ)
    (hbytes : ∀ byte ∈ bytes, byte < 2 ^ 8) (h : register < 2 ^ width) :
    reflected width (bytes.foldl (feed poly) register) =
      (X ^ (8 * bytes.length) * reflected width register + X ^ width * message (byteBits bytes)) %ₘ
        generator width poly := by
  obtain ⟨-, hdvd⟩ := dvd_feed hpoly hwidth bytes hbytes h
  rw [modByMonic_eq_of_dvd_sub (generator_monic width poly) hdvd]
  refine ((modByMonic_eq_self_iff (generator_monic width poly)).mpr ?_).symm
  rw [degree_generator]
  exact degree_reflected_lt width _

/-! ## Bursts -/

/-- Two bit strings differ, and only within so many consecutive bits. -/
def Burst (size : ℕ) (bits bits' : List Bool) : Prop :=
  ∃ before middle middle' after, bits = before ++ middle ++ after ∧
    bits' = before ++ middle' ++ after ∧ middle.length = middle'.length ∧ middle.length ≤ size ∧
    middle ≠ middle'

/-- The polynomials of two bit strings that differ in a burst do not differ by a multiple of the
generator, wherever they stand. -/
theorem not_dvd_of_burst (hconstant : (generator width poly).coeff 0 = 1) {bits bits' : List Bool}
    (h : Burst width bits bits') (n : ℕ) :
    ¬ generator width poly ∣ X ^ n * message bits - X ^ n * message bits' := by
  obtain ⟨before, middle, middle', after, rfl, rfl, hlength, hsize, hne⟩ := h
  intro hdvd
  have hcoprime : IsCoprime (generator width poly) (X ^ (n + after.length)) := by
    refine IsCoprime.pow_right ⟨1, -divX (generator width poly), ?_⟩
    have hsplit := divX_mul_X_add (generator width poly)
    rw [hconstant] at hsplit
    nth_rewrite 1 [← hsplit]
    simp
  have hdifference : X ^ n * message (before ++ middle ++ after) -
      X ^ n * message (before ++ middle' ++ after) =
        X ^ (n + after.length) * (message middle - message middle') := by
    rw [message_append, message_append, message_append, message_append, hlength]
    ring
  rw [hdifference] at hdvd
  have hmiddle := hcoprime.dvd_of_dvd_mul_left hdvd
  refine hne (message_injective hlength (sub_eq_zero.mp ?_))
  by_contra hnonzero
  refine (generator_monic width poly).not_dvd_of_degree_lt hnonzero ?_ hmiddle
  rw [degree_generator]
  refine (degree_sub_le _ _).trans_lt (max_lt ?_ ?_)
  · exact (degree_message_lt middle).trans_le (by exact_mod_cast hsize)
  · exact (degree_message_lt middle').trans_le (by exact_mod_cast hlength ▸ hsize)

/-- **A burst shows.** Byte strings that differ in a burst no longer than the register, fed to the same
register, leave different registers. -/
theorem feed_ne_of_burst (hpoly : poly < 2 ^ width) (hwidth : 8 ≤ width)
    (hconstant : (generator width poly).coeff 0 = 1) {bytes bytes' : List ℕ}
    (hbytes : ∀ byte ∈ bytes, byte < 2 ^ 8) (hbytes' : ∀ byte ∈ bytes', byte < 2 ^ 8)
    (hlength : bytes.length = bytes'.length) (h : register < 2 ^ width)
    (hburst : Burst width (byteBits bytes) (byteBits bytes')) :
    bytes.foldl (feed poly) register ≠ bytes'.foldl (feed poly) register := by
  intro hsame
  obtain ⟨-, hdvd⟩ := dvd_feed hpoly hwidth bytes hbytes h
  obtain ⟨-, hdvd'⟩ := dvd_feed hpoly hwidth bytes' hbytes' h
  rw [hlength, hsame] at hdvd
  refine not_dvd_of_burst hconstant hburst width ?_
  convert hdvd.sub hdvd' using 1
  ring

end LibApta.Crc
