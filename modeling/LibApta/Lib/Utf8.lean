import Mathlib.Data.List.Basic
import Mathlib.Order.Nat

/-!
# Well-formed UTF-8

A byte string is well-formed when it is the encodings of Unicode scalar values one after the other.
By the number of its bytes, an encoding is told by the ranges its bytes lie in: the first byte gives
the length, and for four first bytes the range of the second one is cut, against overlong forms,
surrogates and values above the last scalar value.
-/

namespace LibApta.Utf8

open String (utf8EncodeChar)

/-- The bytes are the encodings of some scalar values one after the other. -/
def WellFormed (bytes : List UInt8) : Prop := ∃ chars : List Char, bytes = chars.flatMap utf8EncodeChar

/-- A byte that continues an encoding. -/
def Tail (byte : UInt8) : Prop := 0x80 ≤ byte.toNat ∧ byte.toNat ≤ 0xBF

theorem exists_char (value : ℕ) (h : value.isValidChar) : ∃ c : Char, c.val.toNat = value :=
  ⟨Char.ofNatAux value h, rfl⟩

theorem eq_ofNat_iff {byte : UInt8} {value : ℕ} (h : value < 256) :
    byte = UInt8.ofNat value ↔ byte.toNat = value := by
  rw [← UInt8.toNat_inj, UInt8.toNat_ofNat', Nat.mod_eq_of_lt h]

/-! ## The encodings by their length -/

variable {a b c d : UInt8}

theorem encodes_one_iff : (∃ char : Char, [a] = utf8EncodeChar char) ↔ a.toNat ≤ 0x7F := by
  constructor
  · rintro ⟨char, h⟩
    unfold utf8EncodeChar at h
    simp only at h
    split_ifs at h with h1 h2 h3
    · rw [List.cons.injEq, eq_ofNat_iff (by omega)] at h
      omega
    all_goals simp at h
  · intro h
    obtain ⟨char, hchar⟩ := exists_char a.toNat (.inl (by omega))
    refine ⟨char, ?_⟩
    unfold utf8EncodeChar
    simp only [hchar, if_pos h, UInt8.ofNat_toNat]

theorem encodes_two_iff : (∃ char : Char, [a, b] = utf8EncodeChar char) ↔
    (0xC2 ≤ a.toNat ∧ a.toNat ≤ 0xDF) ∧ Tail b := by
  constructor
  · rintro ⟨char, h⟩
    unfold utf8EncodeChar at h
    simp only at h
    split_ifs at h with h1 h2 h3
    · simp at h
    · rw [List.cons.injEq, List.cons.injEq, eq_ofNat_iff (by omega), eq_ofNat_iff (by omega)] at h
      unfold Tail
      omega
    all_goals simp at h
  · rintro ⟨ha, hb⟩
    unfold Tail at hb
    obtain ⟨char, hchar⟩ := exists_char ((a.toNat - 0xC0) * 64 + (b.toNat - 0x80))
      (.inl (by omega))
    refine ⟨char, ?_⟩
    unfold utf8EncodeChar
    simp only [hchar]
    rw [if_neg (by omega), if_pos (by omega), List.cons.injEq, List.cons.injEq,
      eq_ofNat_iff (by omega), eq_ofNat_iff (by omega)]
    exact ⟨by omega, by omega, rfl⟩

theorem encodes_three_iff : (∃ char : Char, [a, b, c] = utf8EncodeChar char) ↔
    (0xE0 ≤ a.toNat ∧ a.toNat ≤ 0xEF) ∧ Tail b ∧ Tail c ∧
      (a.toNat = 0xE0 → 0xA0 ≤ b.toNat) ∧ (a.toNat = 0xED → b.toNat ≤ 0x9F) := by
  constructor
  · rintro ⟨char, h⟩
    have hvalid := char.valid
    unfold UInt32.isValidChar Nat.isValidChar at hvalid
    unfold utf8EncodeChar at h
    simp only at h
    split_ifs at h with h1 h2 h3
    · simp at h
    · simp at h
    · rw [List.cons.injEq, List.cons.injEq, List.cons.injEq, eq_ofNat_iff (by omega),
        eq_ofNat_iff (by omega), eq_ofNat_iff (by omega)] at h
      unfold Tail
      omega
    · simp at h
  · rintro ⟨ha, hb, hc, hlow, hhigh⟩
    unfold Tail at hb hc
    obtain ⟨char, hchar⟩ := exists_char
      ((a.toNat - 0xE0) * 4096 + (b.toNat - 0x80) * 64 + (c.toNat - 0x80)) (by
        unfold Nat.isValidChar
        omega)
    refine ⟨char, ?_⟩
    unfold utf8EncodeChar
    simp only [hchar]
    rw [if_neg (by omega), if_neg (by omega), if_pos (by omega), List.cons.injEq, List.cons.injEq,
      List.cons.injEq, eq_ofNat_iff (by omega), eq_ofNat_iff (by omega), eq_ofNat_iff (by omega)]
    exact ⟨by omega, by omega, by omega, rfl⟩

theorem encodes_four_iff : (∃ char : Char, [a, b, c, d] = utf8EncodeChar char) ↔
    (0xF0 ≤ a.toNat ∧ a.toNat ≤ 0xF4) ∧ Tail b ∧ Tail c ∧ Tail d ∧
      (a.toNat = 0xF0 → 0x90 ≤ b.toNat) ∧ (a.toNat = 0xF4 → b.toNat ≤ 0x8F) := by
  constructor
  · rintro ⟨char, h⟩
    have hvalid := char.valid
    unfold UInt32.isValidChar Nat.isValidChar at hvalid
    unfold utf8EncodeChar at h
    simp only at h
    split_ifs at h with h1 h2 h3
    · simp at h
    · simp at h
    · simp at h
    · rw [List.cons.injEq, List.cons.injEq, List.cons.injEq, List.cons.injEq,
        eq_ofNat_iff (by omega), eq_ofNat_iff (by omega), eq_ofNat_iff (by omega),
        eq_ofNat_iff (by omega)] at h
      unfold Tail
      omega
  · rintro ⟨ha, hb, hc, hd, hlow, hhigh⟩
    unfold Tail at hb hc hd
    obtain ⟨char, hchar⟩ := exists_char
      ((a.toNat - 0xF0) * 262144 + (b.toNat - 0x80) * 4096 + (c.toNat - 0x80) * 64 +
        (d.toNat - 0x80)) (by
        unfold Nat.isValidChar
        omega)
    refine ⟨char, ?_⟩
    unfold utf8EncodeChar
    simp only [hchar]
    rw [if_neg (by omega), if_neg (by omega), if_neg (by omega), List.cons.injEq, List.cons.injEq,
      List.cons.injEq, List.cons.injEq, eq_ofNat_iff (by omega), eq_ofNat_iff (by omega),
      eq_ofNat_iff (by omega), eq_ofNat_iff (by omega)]
    exact ⟨by omega, by omega, by omega, by omega, rfl⟩

/-- An encoding is one byte, or more than one. -/
theorem encode_cases (char : Char) : (∃ first, utf8EncodeChar char = [first]) ∨
    ∃ first second tails, utf8EncodeChar char = first :: second :: tails := by
  unfold utf8EncodeChar
  simp only
  split_ifs
  · exact .inl ⟨_, rfl⟩
  all_goals exact .inr ⟨_, _, _, rfl⟩

/-! ## Strings -/

theorem wellFormed_nil : WellFormed [] := ⟨[], rfl⟩

theorem WellFormed.encode_append {rest : List UInt8} (h : WellFormed rest) (char : Char) :
    WellFormed (utf8EncodeChar char ++ rest) := by
  obtain ⟨chars, rfl⟩ := h
  exact ⟨char :: chars, rfl⟩

/-- A well-formed string is empty, or starts with an encoding. -/
theorem WellFormed.cases {bytes : List UInt8} (h : WellFormed bytes) :
    bytes = [] ∨ ∃ char rest, bytes = utf8EncodeChar char ++ rest ∧ WellFormed rest := by
  obtain ⟨chars, rfl⟩ := h
  cases chars with
  | nil => exact .inl rfl
  | cons char rest => exact .inr ⟨char, rest.flatMap utf8EncodeChar, rfl, rest, rfl⟩

/-- How a well-formed string that is not empty starts. -/
theorem wellFormed_cons_iff {first : UInt8} {rest : List UInt8} :
    WellFormed (first :: rest) ↔
      (first.toNat ≤ 0x7F ∧ WellFormed rest) ∨
      ∃ second tails after, rest = second :: (tails ++ after) ∧
        (∃ char : Char, first :: second :: tails = utf8EncodeChar char) ∧ WellFormed after := by
  constructor
  · intro h
    obtain hnil | ⟨char, after, hsplit, hafter⟩ := h.cases
    · cases hnil
    rcases encode_cases char with ⟨a, ha⟩ | ⟨a, b, tails, ha⟩
    · rw [ha] at hsplit
      obtain ⟨rfl, rfl⟩ := List.cons.inj hsplit
      exact .inl ⟨encodes_one_iff.mp ⟨char, ha.symm⟩, hafter⟩
    · rw [ha] at hsplit
      obtain ⟨rfl, rfl⟩ := List.cons.inj hsplit
      exact .inr ⟨b, tails, after, rfl, ⟨char, ha.symm⟩, hafter⟩
  · rintro (⟨hfirst, hrest⟩ | ⟨second, tails, after, rfl, ⟨char, hchar⟩, hafter⟩)
    · obtain ⟨char, hchar⟩ := encodes_one_iff.mpr hfirst
      simpa [← hchar] using hrest.encode_append char
    · simpa [← hchar] using hafter.encode_append char

end LibApta.Utf8
