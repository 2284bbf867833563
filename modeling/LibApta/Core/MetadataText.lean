import LibApta.Core.Metadata
import LibApta.Lib.Checked
import LibApta.Lib.Utf8

/-!
# The UTF-8 validator

The validator of the metadata texts walks a byte string by an index of 32 bits. Where the index cannot
wrap it never reads past the string and accepts exactly the well-formed strings.
-/

namespace LibApta

open Utf8
open String (utf8EncodeChar)

/-! ## The table of first bytes -/

theorem byteIn_iff {low high byte : UInt8} :
    byteIn low high byte = true ↔ low.toNat ≤ byte.toNat ∧ byte.toNat ≤ high.toNat := by
  rw [byteIn, Bool.and_eq_true, decide_eq_true_iff, decide_eq_true_iff, UInt8.le_iff_toNat_le,
    UInt8.le_iff_toNat_le]

theorem tail_iff {byte : UInt8} : byteIn 0x80 0xBF byte = true ↔ Tail byte := byteIn_iff

/-- What the table asks of the first two bytes of a sequence of more than one byte. -/
theorem utf8Sequence_iff {first second : UInt8} {continuation : ℕ} :
    (∃ low high, utf8Sequence first = some ((low, high), continuation) ∧
        byteIn low high second = true) ↔
      Tail second ∧
        ((continuation = 0 ∧ 0xC2 ≤ first.toNat ∧ first.toNat ≤ 0xDF) ∨
          (continuation = 1 ∧ (0xE0 ≤ first.toNat ∧ first.toNat ≤ 0xEF) ∧
            (first.toNat = 0xE0 → 0xA0 ≤ second.toNat) ∧
            (first.toNat = 0xED → second.toNat ≤ 0x9F)) ∨
          (continuation = 2 ∧ (0xF0 ≤ first.toNat ∧ first.toNat ≤ 0xF4) ∧
            (first.toNat = 0xF0 → 0x90 ≤ second.toNat) ∧
            (first.toNat = 0xF4 → second.toNat ≤ 0x8F))) := by
  have hrow (row : (UInt8 × UInt8) × ℕ) :
      (∃ low high, some row = some ((low, high), continuation) ∧
          low.toNat ≤ second.toNat ∧ second.toNat ≤ high.toNat) ↔
        row.2 = continuation ∧ row.1.1.toNat ≤ second.toNat ∧ second.toNat ≤ row.1.2.toNat := by
    constructor
    · rintro ⟨low, high, hrow, hsecond⟩
      obtain rfl := Option.some.inj hrow
      exact ⟨rfl, hsecond⟩
    · rintro ⟨rfl, hsecond⟩
      exact ⟨row.1.1, row.1.2, rfl, hsecond⟩
  unfold utf8Sequence Tail
  simp only [Bool.or_eq_true, byteIn_iff, ← UInt8.toNat_inj, UInt8.reduceToNat]
  split_ifs
  case neg =>
    refine iff_of_false ?_ (by omega)
    rintro ⟨_, _, hnone, -⟩
    cases hnone
  all_goals
    rw [hrow]
    simp only [UInt8.reduceToNat]
    omega

/-- The bytes of a sequence of more than one byte, as the table has them, are an encoding. -/
theorem encodes_cons_iff {first second : UInt8} {tails : List UInt8} :
    (∃ char : Char, first :: second :: tails = utf8EncodeChar char) ↔
      (∃ low high, utf8Sequence first = some ((low, high), tails.length) ∧
        byteIn low high second = true) ∧ tails.all (byteIn 0x80 0xBF) = true := by
  rw [utf8Sequence_iff, List.all_eq_true]
  simp only [tail_iff]
  match tails with
  | [] =>
      rw [encodes_two_iff]
      simp
      tauto
  | [third] =>
      rw [encodes_three_iff]
      simp
      tauto
  | [third, fourth] =>
      rw [encodes_four_iff]
      simp
      tauto
  | third :: fourth :: fifth :: rest =>
      refine iff_of_false ?_ ?_
      · rintro ⟨char, h⟩
        have hlength := congrArg List.length h
        unfold utf8EncodeChar at hlength
        simp only at hlength
        split_ifs at hlength <;> simp at hlength
      · simp only [List.length_cons]
        omega

/-! ## Validity of a list of bytes -/

theorem ascii_iff {first : UInt8} : first ≤ 0x7F ↔ first.toNat ≤ 0x7F := UInt8.le_iff_toNat_le

/-- One step of the walk over a list. -/
theorem utf8ValidFrom_cons_iff {fuel : ℕ} {first : UInt8} {rest : List UInt8} :
    utf8ValidFrom (fuel + 1) (first :: rest) = true ↔
      (first.toNat ≤ 0x7F ∧ utf8ValidFrom fuel rest = true) ∨
      ∃ second tails after, rest = second :: (tails ++ after) ∧
        ((∃ low high, utf8Sequence first = some ((low, high), tails.length) ∧
          byteIn low high second = true) ∧ tails.all (byteIn 0x80 0xBF) = true) ∧
        utf8ValidFrom fuel after = true := by
  rw [utf8ValidFrom]
  by_cases hfirst : first ≤ 0x7F
  · rw [if_pos hfirst, and_iff_right (ascii_iff.mp hfirst)]
    refine ⟨.inl, Or.rec id ?_⟩
    rintro ⟨second, tails, after, -, ⟨htable, -⟩, -⟩
    have hfirst := ascii_iff.mp hfirst
    have htable := (utf8Sequence_iff.mp htable).2
    omega
  rw [if_neg hfirst, or_iff_right (fun h => hfirst (ascii_iff.mpr h.1))]
  cases hrow : utf8Sequence first with
  | none =>
      refine iff_of_false Bool.false_ne_true ?_
      rintro ⟨_, _, _, -, ⟨⟨_, _, hsome, -⟩, -⟩, -⟩
      cases hsome
  | some row =>
      obtain ⟨⟨low, high⟩, continuation⟩ := row
      cases rest with
      | nil =>
          refine iff_of_false Bool.false_ne_true ?_
          rintro ⟨_, _, _, hnil, -⟩
          cases hnil
      | cons second rest =>
          simp only [Bool.and_eq_true, decide_eq_true_eq]
          constructor
          · rintro ⟨⟨⟨hsecond, hlong⟩, htails⟩, hvalid⟩
            refine ⟨second, rest.take continuation, rest.drop continuation, ?_,
              ⟨⟨low, high, ?_, hsecond⟩, htails⟩, hvalid⟩
            · rw [List.take_append_drop]
            · rw [List.length_take, min_eq_left hlong]
          · rintro ⟨_, tails, after, hrest, ⟨⟨_, _, hsome, hsecond⟩, htails⟩, hvalid⟩
            obtain ⟨rfl, rfl⟩ := List.cons.inj hrest
            obtain ⟨⟨rfl, rfl⟩, rfl⟩ : (low = _ ∧ high = _) ∧ continuation = tails.length := by
              simpa using hsome
            rw [List.take_left, List.drop_left]
            exact ⟨⟨⟨hsecond, by simp⟩, htails⟩, hvalid⟩

/-- The walk over a list accepts the well-formed strings. -/
theorem utf8ValidFrom_iff {fuel : ℕ} {bytes : List UInt8} (hfuel : bytes.length ≤ fuel) :
    utf8ValidFrom fuel bytes = true ↔ WellFormed bytes := by
  induction fuel generalizing bytes with
  | zero =>
      obtain rfl := List.eq_nil_of_length_eq_zero (Nat.le_zero.mp hfuel)
      exact iff_of_true rfl wellFormed_nil
  | succ fuel ih =>
      cases bytes with
      | nil => exact iff_of_true (by unfold utf8ValidFrom; rfl) wellFormed_nil
      | cons first rest =>
          simp only [List.length_cons, Nat.add_le_add_iff_right] at hfuel
          rw [utf8ValidFrom_cons_iff, wellFormed_cons_iff]
          refine or_congr (and_congr_right fun _ => ih hfuel) (exists_congr fun second =>
            exists_congr fun tails => exists_congr fun after => and_congr_right fun hrest => ?_)
          rw [← encodes_cons_iff]
          refine and_congr_right fun _ => ih ?_
          have hlength := congrArg List.length hrest
          simp only [List.length_cons, List.length_append] at hlength
          omega

/-- The validator of the metadata accepts the well-formed strings. -/
theorem utf8Valid_iff (bytes : List UInt8) : utf8Valid bytes = true ↔ WellFormed bytes :=
  utf8ValidFrom_iff le_rfl

/-! ## The walk by an index -/

section Walk

variable {ε : Type}

/-- The byte at an index of 32 bits. -/
def byteAt (bytes : List UInt8) (index : ℕ) : Check ε UInt8 :=
  match bytes[index % 4294967296]? with
  | some byte => .ok byte
  | none => Check.fault

/-- The bytes at an index and after it continue a sequence. -/
def continuesAt (bytes : List UInt8) : ℕ → ℕ → Check ε Bool
  | _, 0 => .ok true
  | index, count + 1 => do
      let byte ← byteAt bytes index
      if byteIn 0x80 0xBF byte then continuesAt bytes (index + 1) count else return false

/-- The length of the sequence at an index, when it is one. -/
def sequenceAt (bytes : List UInt8) (size index : ℕ) : Check ε (Option ℕ) := do
  let first ← byteAt bytes index
  if first ≤ 0x7F then return some 1
  else
    match utf8Sequence first with
    | none => return none
    | some ((low, high), continuation) =>
        if size ≤ (index + (continuation + 1)) % 4294967296 then return none
        else do
          let second ← byteAt bytes (index + 1)
          if byteIn low high second then do
            let continues ← continuesAt bytes (index + 2) continuation
            return if continues then some (continuation + 2) else none
          else return none

/-- The loop of the validator. The fuel bounds its rounds. -/
def utf8Loop (bytes : List UInt8) (size : ℕ) : ℕ → ℕ → Check ε Bool
  | 0, _ => Check.fault
  | fuel + 1, index =>
      if index < size then do
        match ← sequenceAt bytes size index with
        | none => return false
        | some length => utf8Loop bytes size fuel ((index + length) % 4294967296)
      else return true

/-- `apta_metadata_utf8_is_valid`, and `apta_workspace_metadata_utf8_is_valid`, which has the same
body. No bytes stand for a null pointer. -/
def utf8IsValid (data : Option (List UInt8)) (size : ℕ) : Check ε Bool :=
  match data with
  | none => .ok (decide (size = 0))
  | some bytes => utf8Loop bytes size (size + 1) 0

/-- The length of the sequence a list starts with. -/
def sequenceLength (first : UInt8) (rest : List UInt8) : Option ℕ :=
  if first ≤ 0x7F then some 1
  else
    match utf8Sequence first with
    | none => none
    | some ((low, high), continuation) =>
        match rest with
        | [] => none
        | second :: rest =>
            if byteIn low high second && decide (continuation ≤ rest.length) &&
              (rest.take continuation).all (byteIn 0x80 0xBF) then some (continuation + 2)
            else none

theorem continuation_le {first : UInt8} {row : (UInt8 × UInt8) × ℕ}
    (h : utf8Sequence first = some row) : row.2 ≤ 2 := by
  unfold utf8Sequence at h
  split_ifs at h
  all_goals
    obtain rfl := Option.some.inj h
    decide

theorem byteAt_of_drop {bytes : List UInt8} {index : ℕ} {byte : UInt8} {rest : List UInt8}
    (hindex : index < 4294967296) (hdrop : bytes.drop index = byte :: rest) :
    (byteAt bytes index : Check ε UInt8) = .ok byte := by
  have hget : bytes[index]? = some byte := by
    rw [← List.head?_drop, hdrop, List.head?_cons]
  rw [byteAt, Nat.mod_eq_of_lt hindex, hget]

theorem drop_succ {bytes : List UInt8} {index : ℕ} {byte : UInt8} {rest : List UInt8}
    (hdrop : bytes.drop index = byte :: rest) : bytes.drop (index + 1) = rest := by
  rw [← List.drop_drop, hdrop, List.drop_one, List.tail_cons]

theorem continuesAt_eq {bytes rest : List UInt8} {index count : ℕ}
    (hindex : index + count ≤ 4294967296) (hdrop : bytes.drop index = rest)
    (hcount : count ≤ rest.length) :
    (continuesAt bytes index count : Check ε Bool) =
      .ok ((rest.take count).all (byteIn 0x80 0xBF)) := by
  induction count generalizing index rest with
  | zero => rfl
  | succ count ih =>
      cases rest with
      | nil => simp at hcount
      | cons byte rest =>
          simp only [List.length_cons, Nat.add_le_add_iff_right] at hcount
          rw [continuesAt, byteAt_of_drop (by omega) hdrop]
          simp only [Check.ok_bind]
          rw [ih (by omega) (drop_succ hdrop) hcount]
          split_ifs with hbyte <;> simp [hbyte]

/-- Where no index can wrap, the sequence at an index is that of the bytes from there on. -/
theorem sequenceAt_eq {bytes rest : List UInt8} {index : ℕ} {first : UInt8}
    (hsize : bytes.length ≤ 4294967293) (hdrop : bytes.drop index = first :: rest) :
    (sequenceAt bytes bytes.length index : Check ε (Option ℕ)) =
      .ok (sequenceLength first rest) := by
  have hlength := congrArg List.length hdrop
  rw [List.length_drop, List.length_cons] at hlength
  rw [sequenceAt, byteAt_of_drop (by omega) hdrop, sequenceLength]
  simp only [Check.ok_bind]
  split_ifs with hfirst
  · rfl
  cases hrow : utf8Sequence first with
  | none => rfl
  | some row =>
      obtain ⟨⟨low, high⟩, continuation⟩ := row
      have hshort := continuation_le hrow
      simp only
      rw [Nat.mod_eq_of_lt (by omega)]
      have hdrop := drop_succ hdrop
      cases rest with
      | nil =>
          rw [if_pos (by simp only [List.length_nil] at hlength; omega)]
          rfl
      | cons second rest =>
          simp only [List.length_cons] at hlength
          rw [byteAt_of_drop (by omega) hdrop]
          simp only [Check.ok_bind]
          by_cases hlong : continuation ≤ rest.length
          · rw [if_neg (by omega), continuesAt_eq (by omega) (drop_succ hdrop) hlong]
            simp only [Check.ok_bind, Check.pure_eq_ok, hlong, decide_true, Bool.and_true,
              Bool.and_eq_true]
            split_ifs <;> simp_all
          · rw [if_pos (by omega)]
            simp [hlong]

/-- A sequence lies in the string. -/
theorem sequenceLength_bounds {first : UInt8} {rest : List UInt8} {length : ℕ}
    (h : sequenceLength first rest = some length) : 1 ≤ length ∧ length ≤ rest.length + 1 := by
  unfold sequenceLength at h
  split at h
  · obtain rfl := Option.some.inj h
    omega
  split at h
  · cases h
  split at h
  · cases h
  split at h
  · next hvalid =>
    simp only [Bool.and_eq_true, decide_eq_true_eq] at hvalid
    obtain rfl := Option.some.inj h
    rw [List.length_cons]
    omega
  · cases h

/-- One step of the walk over a list, by the length of the sequence. -/
theorem utf8ValidFrom_step (fuel : ℕ) (first : UInt8) (rest : List UInt8) :
    utf8ValidFrom (fuel + 1) (first :: rest) =
      match sequenceLength first rest with
      | none => false
      | some length => utf8ValidFrom fuel ((first :: rest).drop length) := by
  rw [utf8ValidFrom, sequenceLength]
  split_ifs with hfirst
  · rfl
  cases utf8Sequence first with
  | none => rfl
  | some row =>
      obtain ⟨⟨low, high⟩, continuation⟩ := row
      cases rest with
      | nil => rfl
      | cons second rest =>
          simp only
          split_ifs with hvalid
          · rw [hvalid, Bool.true_and]
            rfl
          · rw [Bool.not_eq_true] at hvalid
            rw [hvalid, Bool.false_and]

/-- Where no index can wrap, the walk by an index is the walk over the list. -/
theorem utf8Loop_eq {bytes rest : List UInt8} {fuel index : ℕ} (hsize : bytes.length ≤ 4294967293)
    (hdrop : bytes.drop index = rest) (hindex : index ≤ bytes.length) (hfuel : rest.length ≤ fuel) :
    (utf8Loop bytes bytes.length (fuel + 1) index : Check ε Bool) =
      .ok (utf8ValidFrom fuel rest) := by
  induction fuel generalizing index rest with
  | zero =>
      obtain rfl := List.eq_nil_of_length_eq_zero (Nat.le_zero.mp hfuel)
      have hend := List.drop_eq_nil_iff.mp hdrop
      rw [utf8Loop, if_neg (by omega)]
      rfl
  | succ fuel ih =>
      have hlength := congrArg List.length hdrop
      rw [List.length_drop] at hlength
      cases rest with
      | nil =>
          rw [List.length_nil] at hlength
          rw [utf8Loop, if_neg (by omega)]
          unfold utf8ValidFrom
          rfl
      | cons first rest =>
          rw [List.length_cons] at hlength hfuel
          rw [utf8Loop, if_pos (by omega), sequenceAt_eq hsize hdrop, utf8ValidFrom_step]
          simp only [Check.ok_bind]
          cases hsequence : sequenceLength first rest with
          | none => rfl
          | some length =>
              have hbounds := sequenceLength_bounds hsequence
              have hnext : bytes.drop (index + length) = (first :: rest).drop length := by
                rw [← List.drop_drop, hdrop]
              simp only
              rw [Nat.mod_eq_of_lt (by omega)]
              refine ih hnext (by omega) ?_
              rw [List.length_drop, List.length_cons]
              omega

/-- The validator gives a verdict on every string whose indices cannot wrap, and accepts the
well-formed ones. -/
theorem utf8IsValid_eq {bytes : List UInt8} (hsize : bytes.length ≤ 4294967293) :
    (utf8IsValid (some bytes) bytes.length : Check ε Bool) = .ok (utf8Valid bytes) :=
  utf8Loop_eq hsize List.drop_zero (Nat.zero_le _) le_rfl

/-- The walk passes a run of letters. -/
theorem utf8Loop_letters {bytes : List UInt8} {size fuel index count : ℕ}
    (hletters : ∀ i, index ≤ i → i < index + count → bytes[i]? = some 0x61)
    (hsize : index + count ≤ size) (hindex : index + count < 4294967296) :
    (utf8Loop bytes size (fuel + count) index : Check ε Bool) =
      utf8Loop bytes size fuel (index + count) := by
  induction count generalizing index with
  | zero => rfl
  | succ count ih =>
      have hbyte : (byteAt bytes index : Check ε UInt8) = .ok 0x61 := by
        rw [byteAt, Nat.mod_eq_of_lt (by omega), hletters index le_rfl (by omega)]
      have hsequence : (sequenceAt bytes size index : Check ε (Option ℕ)) = .ok (some 1) := by
        rw [sequenceAt, hbyte]
        rfl
      rw [← Nat.add_assoc, utf8Loop, if_pos (by omega), hsequence]
      simp only [Check.ok_bind]
      rw [Nat.mod_eq_of_lt (by omega), ih (fun i hlow hhigh => hletters i (by omega) (by omega))
        (by omega) (by omega), Nat.add_assoc, Nat.add_comm 1]

/-- Letters, and the first byte of a sequence of three. -/
def lettersThenLead (count : ℕ) : List UInt8 := List.replicate count 0x61 ++ [0xE1]

/-- At the end of a string of `2 ^ 32 - 1` bytes the index wraps, and the walk reads past the string. -/
theorem utf8IsValid_wraps {count : ℕ} (hcount : count = 4294967294) :
    (utf8IsValid (some (lettersThenLead count)) (lettersThenLead count).length : Check ε Bool) =
      Check.fault := by
  have hlength : (lettersThenLead count).length = count + 1 := by
    rw [lettersThenLead, List.length_append, List.length_replicate, List.length_singleton]
  have hletters (i : ℕ) (h : i < count) : (lettersThenLead count)[i]? = some 0x61 := by
    rw [lettersThenLead, List.getElem?_append_left (by rwa [List.length_replicate]),
      List.getElem?_replicate, if_pos h]
  have hlead : (byteAt (lettersThenLead count) count : Check ε UInt8) = .ok 0xE1 := by
    have hget : (lettersThenLead count)[count]? = some 0xE1 := by
      rw [lettersThenLead, List.getElem?_append_right (by rw [List.length_replicate]),
        List.length_replicate, Nat.sub_self]
      rfl
    rw [byteAt, Nat.mod_eq_of_lt (by omega), hget]
  have hpast : (byteAt (lettersThenLead count) (count + 1) : Check ε UInt8) = Check.fault := by
    have hget : (lettersThenLead count)[count + 1]? = none :=
      List.getElem?_eq_none (by omega)
    rw [byteAt, Nat.mod_eq_of_lt (by omega), hget]
  have hrow : utf8Sequence 0xE1 = some ((0x80, 0xBF), 1) := by decide
  have hsequence : (sequenceAt (lettersThenLead count) (count + 1) count : Check ε (Option ℕ)) =
      Check.fault := by
    have hwrap : ¬count + 1 ≤ (count + (1 + 1)) % 4294967296 := by omega
    rw [sequenceAt, hlead]
    simp only [Check.ok_bind]
    rw [if_neg (by decide), hrow]
    simp only
    rw [if_neg hwrap, hpast]
    rfl
  have hwalk : (utf8Loop (lettersThenLead count) (count + 1) (2 + count) 0 : Check ε Bool) =
      utf8Loop (lettersThenLead count) (count + 1) 2 (0 + count) :=
    utf8Loop_letters (fun i _ hi => hletters i (by omega)) (by omega) (by omega)
  show utf8Loop _ _ _ _ = _
  rw [hlength, show count + 1 + 1 = 2 + count by omega, hwalk, Nat.zero_add, utf8Loop,
    if_pos (Nat.lt_succ_self count), hsequence]
  rfl

end Walk

end LibApta
