import LibApta.Lib.Cbor
import LibApta.Serialization.MetaPayload

/-!
# What the metadata reader accepts

The steps of the reader of a metadata payload, by what they take from the bytes that are left: a head
is read where the bytes start with it in its shortest form, and an item is skipped where they start
with the encoding of an item that is not nested too deep, has no long string and has not too many
parts.
-/

namespace LibApta.Container

open LittleEndian Cbor

/-! ## Heads -/

theorem bigEndian_eq (bytes : Bytes) : bigEndian bytes = number bytes.reverse := rfl

theorem bigEndian_lt (bytes : Bytes) : bigEndian bytes < 256 ^ bytes.length := by
  have hlt := number_lt bytes.reverse
  rwa [List.length_reverse] at hlt

/-- Bytes are taken where so many are left. -/
theorem metaTake_iff {size visited visited' : ℕ} {rest data rest' : Bytes} :
    metaTake size ⟨rest, visited⟩ = .ok (data, ⟨rest', visited'⟩) ↔
      rest = data ++ rest' ∧ data.length = size ∧ visited' = visited := by
  simp only [metaTake, Check.bind_eq_ok, Check.rejectIf_eq_ok, Check.view_eq_ok, Check.pure_eq_ok,
    Except.ok.injEq, exists_const, not_lt, Prod.mk.injEq, MetaCursor.mk.injEq]
  constructor
  · rintro ⟨-, _, ⟨hfits, rfl⟩, rfl, rfl, rfl⟩
    have hslice : slice rest 0 size = rest.take size := by rw [slice, List.drop_zero]
    rw [hslice, List.length_take]
    exact ⟨(List.take_append_drop size rest).symm, by omega, rfl⟩
  · rintro ⟨rfl, rfl, rfl⟩
    have hslice : slice (data ++ rest') 0 data.length = data := by
      rw [slice, List.drop_zero, List.take_left]
    rw [List.length_append, hslice, List.drop_left]
    exact ⟨by omega, data, ⟨by omega, rfl⟩, rfl, rfl, rfl⟩

/-- A number that needs bytes after the first one of its head. -/
theorem argument_eq_iff {additional value width minimum : ℕ}
    (hform : argumentForm additional = some (width, minimum))
    (hvalue : value < 18446744073709551616) :
    (minimum ≤ value ∧ value < 256 ^ width ↔ additional = (argument value).1) ∧
      (additional = (argument value).1 → (argument value).2 = bigEndianBytes width value) := by
  unfold argumentForm at hform
  unfold argument
  split_ifs at hform with h24 h25 h26 h27
  all_goals
    obtain ⟨rfl, rfl⟩ := Prod.mk.inj (Option.some.inj hform)
    subst_vars
    split_ifs
    all_goals
      refine ⟨by omega, fun h => ?_⟩
      first
        | rfl
        | (simp only at h; omega)

theorem argumentForm_ge {additional : ℕ} {form : ℕ × ℕ}
    (hform : argumentForm additional = some form) :
    24 ≤ additional ∧ 256 ^ form.1 ≤ 18446744073709551616 := by
  unfold argumentForm at hform
  split_ifs at hform with h24 h25 h26 h27
  all_goals
    obtain rfl := Option.some.inj hform
    exact ⟨by omega, by decide⟩

theorem argumentForm_none {additional value : ℕ} (hwide : ¬additional < 24)
    (hform : argumentForm additional = none) : additional ≠ (argument value).1 := by
  unfold argumentForm at hform
  unfold argument
  split_ifs at hform ⊢
  all_goals
    simp only
    omega

/-- The argument of a head is read in its shortest form. -/
theorem metaReadArgument_iff {additional value visited visited' : ℕ} {rest rest' : Bytes} :
    metaReadArgument additional ⟨rest, visited⟩ = .ok (value, ⟨rest', visited'⟩) ↔
      value < 18446744073709551616 ∧ additional = (argument value).1 ∧
        rest = (argument value).2 ++ rest' ∧ visited' = visited := by
  unfold metaReadArgument
  split
  case isTrue hshort =>
    have hargument : additional = (argument value).1 ↔ value = additional := by
      unfold argument
      split_ifs <;> simp only <;> omega
    simp only [Except.ok.injEq, Prod.mk.injEq, MetaCursor.mk.injEq, hargument]
    constructor
    · rintro ⟨rfl, rfl, rfl⟩
      exact ⟨by omega, rfl, by rw [argument, if_pos hshort]; rfl, rfl⟩
    · rintro ⟨-, rfl, rfl, rfl⟩
      exact ⟨rfl, by rw [argument, if_pos hshort]; rfl, rfl⟩
  case isFalse hwide =>
    cases hform : argumentForm additional with
    | none =>
        refine iff_of_false (fun h => ?_) fun h => ?_
        · cases h
        · exact argumentForm_none hwide hform h.2.1
    | some form =>
        obtain ⟨width, minimum⟩ := form
        have hmax := (argumentForm_ge hform).2
        simp only [Check.bind_eq_ok, Check.rejectIf_eq_ok, exists_const, not_lt, Check.pure_eq_ok,
          Except.ok.injEq, Prod.mk.injEq]
        constructor
        · rintro ⟨⟨data, next⟩, htake, hminimum, rfl, rfl⟩
          obtain ⟨rfl, hlength, rfl⟩ := metaTake_iff.mp htake
          have hlt := bigEndian_lt data
          rw [hlength] at hlt
          obtain ⟨hadditional, hbytes⟩ := argument_eq_iff hform (hlt.trans_le hmax)
          have hkind := hadditional.mp ⟨hminimum, hlt⟩
          refine ⟨hlt.trans_le hmax, hkind, ?_, rfl⟩
          rw [hbytes hkind, ← hlength, bigEndian_eq, bigEndianBytes_number]
        · rintro ⟨hvalue, hkind, rfl, rfl⟩
          obtain ⟨hadditional, hbytes⟩ := argument_eq_iff hform hvalue
          obtain ⟨hminimum, hlt⟩ := hadditional.mpr hkind
          have hnumber : bigEndian (argument value).2 = value := by
            rw [hbytes hkind, bigEndian_eq, number_bigEndianBytes hlt]
          refine ⟨((argument value).2, ⟨rest', visited'⟩), metaTake_iff.mpr ⟨rfl, ?_, rfl⟩, ?_, ?_,
            rfl⟩
          · rw [hbytes hkind, length_bigEndianBytes]
          · rwa [hnumber]
          · exact hnumber

/-- The next byte is taken where one is left. -/
theorem metaNextByte_iff {initial visited visited' : ℕ} {rest rest' : Bytes} :
    metaNextByte ⟨rest, visited⟩ = .ok (initial, ⟨rest', visited'⟩) ↔
      ∃ byte : UInt8, rest = byte :: rest' ∧ initial = byte.toNat ∧ visited' = visited := by
  simp only [metaNextByte, Check.bind_eq_ok, Check.rejectIf_eq_ok, Check.read_eq_ok,
    Check.pure_eq_ok, Except.ok.injEq, exists_const, Prod.mk.injEq, MetaCursor.mk.injEq]
  constructor
  · rintro ⟨hne, _, ⟨-, rfl⟩, rfl, rfl, rfl⟩
    obtain ⟨byte, tail, rfl⟩ := List.exists_cons_of_ne_nil hne
    exact ⟨byte, by simp, by simp [field, slice, number], rfl⟩
  · rintro ⟨byte, rfl, rfl, rfl⟩
    exact ⟨by simp, byte.toNat, ⟨by simp, by simp [field, slice, number]⟩, rfl, by simp, rfl⟩

theorem ofNat_head_iff {byte : UInt8} {major value : ℕ} (hmajor : major < 8) :
    byte = UInt8.ofNat (32 * major + (argument value).1) ↔
      byte.toNat / 32 = major ∧ byte.toNat % 32 = (argument value).1 := by
  have hlow := argument_lt value
  have hbyte := byte.toNat_lt
  rw [← UInt8.toNat_inj, UInt8.toNat_ofNat']
  omega

/-- A head is read where the bytes start with it. -/
theorem metaReadHead_iff {major value visited visited' : ℕ} {rest rest' : Bytes} :
    metaReadHead ⟨rest, visited⟩ = .ok ((major, value), ⟨rest', visited'⟩) ↔
      (major < 8 ∧ value < 18446744073709551616) ∧ rest = head major value ++ rest' ∧
        visited' = visited := by
  simp only [metaReadHead, Check.bind_eq_ok, Check.pure_eq_ok, Except.ok.injEq, Prod.mk.injEq]
  constructor
  · rintro ⟨⟨initial, next⟩, hbyte, ⟨number, after⟩, hargument, ⟨rfl, rfl⟩, rfl⟩
    obtain ⟨byte, rfl, rfl, hvisited⟩ := metaNextByte_iff.mp hbyte
    obtain ⟨hvalue, hadditional, hrest, rfl⟩ := metaReadArgument_iff.mp hargument
    have hmajor : byte.toNat / 32 < 8 := by
      have hlt := byte.toNat_lt
      omega
    refine ⟨⟨hmajor, hvalue⟩, ?_, hvisited⟩
    rw [head, ← (ofNat_head_iff hmajor).mpr ⟨rfl, hadditional⟩, hrest, List.cons_append]
  · rintro ⟨⟨hmajor, hvalue⟩, rfl, rfl⟩
    obtain ⟨hhigh, hlow⟩ := (ofNat_head_iff hmajor).mp rfl
    exact ⟨(_, ⟨(argument value).2 ++ rest', visited'⟩),
      metaNextByte_iff.mpr ⟨_, rfl, rfl, rfl⟩, (value, ⟨rest', visited'⟩),
      metaReadArgument_iff.mpr ⟨hvalue, hlow, rfl, rfl⟩, ⟨hhigh, rfl⟩, rfl⟩

/-! ## Skipped items -/

/-- The strings in an item are no longer than the reader skips. -/
def ShortString : Item → Prop
  | .bytes content | .text content => content.length ≤ metadataMaxTotalBytes
  | _ => True

/-- An item the reader skips where it may be nested so deep. -/
structure Skippable (depth : ℕ) (item : Item) : Prop where
  encodable : item.Encodable
  within : item.Within depth
  short : ∀ part ∈ item.subitems, ShortString part

theorem skippable_succ {depth : ℕ} {item : Item} : Skippable (depth + 1) item ↔
    (item.Fits ∧ ShortString item) ∧ ∀ child ∈ item.children, Skippable depth child := by
  constructor
  · rintro ⟨hencodable, hwithin, hshort⟩
    rw [Item.encodable_iff] at hencodable
    rw [Item.forall_subitems_iff] at hshort
    exact ⟨⟨hencodable.1, hshort.1⟩, fun child hchild =>
      ⟨hencodable.2 child hchild, hwithin child hchild, hshort.2 child hchild⟩⟩
  · rintro ⟨⟨hfits, hshort⟩, hchildren⟩
    exact ⟨Item.encodable_iff.mpr ⟨hfits, fun child hchild => (hchildren child hchild).encodable⟩,
      fun child hchild => (hchildren child hchild).within,
      Item.forall_subitems_iff.mpr ⟨hshort, fun child hchild => (hchildren child hchild).short⟩⟩

/-- The items visited while items are skipped. -/
def itemCount (items : List Item) : ℕ := (items.flatMap Item.subitems).length

theorem itemCount_cons (item : Item) (rest : List Item) :
    itemCount (item :: rest) = item.subitems.length + itemCount rest := by
  rw [itemCount, List.flatMap_cons, List.length_append, itemCount]

theorem itemCount_append (items rest : List Item) :
    itemCount (items ++ rest) = itemCount items + itemCount rest := by
  rw [itemCount, List.flatMap_append, List.length_append, itemCount, itemCount]

theorem length_subitems (item : Item) :
    item.subitems.length = 1 + itemCount item.children := by
  rw [Item.subitems_eq, List.length_cons, itemCount, Nat.add_comm]

theorem length_le_itemCount (items : List Item) : items.length ≤ itemCount items := by
  induction items with
  | nil => exact Nat.zero_le _
  | cons item rest ih =>
      rw [itemCount_cons, length_subitems, List.length_cons]
      omega

/-- A skipping step from a cursor to another one takes the encodings of items it may take. -/
def Skips (may : List Item → Prop) (step : MetaCursor → Check ErrorCode MetaCursor) : Prop :=
  ∀ ⦃rest rest' : Bytes⦄ ⦃visited visited' : ℕ⦄, visited ≤ metaMaxCborItems →
    (step ⟨rest, visited⟩ = .ok ⟨rest', visited'⟩ ↔
      ∃ items, may items ∧ rest = items.flatMap Item.encode ++ rest' ∧
        visited' = visited + itemCount items ∧ visited' ≤ metaMaxCborItems)

/-- One step after another one takes the items of both. -/
theorem Skips.bind {may may' : List Item → Prop}
    {step step' : MetaCursor → Check ErrorCode MetaCursor} (h : Skips may step)
    (h' : Skips may' step') :
    Skips (fun items => ∃ before after, may before ∧ may' after ∧ items = before ++ after)
      fun cursor => step cursor >>= step' := by
  intro rest rest' visited visited' hvisited
  rw [Check.bind_eq_ok]
  constructor
  · rintro ⟨⟨middle, between⟩, hstep, hstep'⟩
    obtain ⟨before, hbefore, rfl, rfl, hle⟩ := (h hvisited).mp hstep
    obtain ⟨after, hafter, rfl, rfl, hle'⟩ := (h' hle).mp hstep'
    refine ⟨before ++ after, ⟨before, after, hbefore, hafter, rfl⟩, ?_, ?_, hle'⟩
    · rw [List.flatMap_append, List.append_assoc]
    · rw [itemCount_append, Nat.add_assoc]
  · rintro ⟨items, ⟨before, after, hbefore, hafter, rfl⟩, rfl, rfl, hle⟩
    rw [itemCount_append] at hle ⊢
    have hle' : visited + itemCount before ≤ metaMaxCborItems := by omega
    refine ⟨⟨after.flatMap Item.encode ++ rest', visited + itemCount before⟩,
      (h hvisited).mpr ⟨before, hbefore, ?_, rfl, hle'⟩,
      (h' hle').mpr ⟨after, hafter, rfl, (Nat.add_assoc _ _ _).symm, hle⟩⟩
    rw [List.flatMap_append, List.append_assoc]

/-- A loop takes the items of its rounds. -/
theorem Skips.loop {may : List Item → Prop} {step : MetaCursor → Check ErrorCode MetaCursor}
    (h : Skips may step) (first count : ℕ) :
    Skips (fun items => ∃ groups : List (List Item), groups.length = count ∧
      (∀ group ∈ groups, may group) ∧ items = groups.flatten)
      (Check.loop (fun _ cursor => step cursor) first count) := by
  induction count generalizing first with
  | zero =>
      intro rest rest' visited visited' hvisited
      simp only [Check.loop, Except.ok.injEq, MetaCursor.mk.injEq]
      constructor
      · rintro ⟨rfl, rfl⟩
        exact ⟨[], ⟨[], rfl, fun _ hmem => absurd hmem List.not_mem_nil, rfl⟩, rfl, rfl, hvisited⟩
      · rintro ⟨items, ⟨groups, hlength, -, rfl⟩, rfl, rfl, -⟩
        obtain rfl := List.eq_nil_of_length_eq_zero hlength
        exact ⟨rfl, rfl⟩
  | succ count ih =>
      intro rest rest' visited visited' hvisited
      have hboth := h.bind (ih (first + 1))
      rw [show Check.loop (fun _ cursor => step cursor) first (count + 1) ⟨rest, visited⟩ =
        step ⟨rest, visited⟩ >>= Check.loop (fun _ cursor => step cursor) (first + 1) count from rfl,
        hboth hvisited]
      refine exists_congr fun items => and_congr_left fun _ => ?_
      constructor
      · rintro ⟨before, _, hbefore, ⟨groups, rfl, hgroups, rfl⟩, rfl⟩
        exact ⟨before :: groups, rfl, List.forall_mem_cons.mpr ⟨hbefore, hgroups⟩,
          List.flatten_cons.symm⟩
      · rintro ⟨groups, hlength, hgroups, rfl⟩
        cases groups with
        | nil => cases hlength
        | cons group groups =>
            rw [List.forall_mem_cons] at hgroups
            exact ⟨group, groups.flatten, hgroups.1,
              ⟨groups, Nat.succ.inj hlength, hgroups.2, rfl⟩, List.flatten_cons⟩

/-- What is skipped after a head. -/
def metaSkipBody (fuel major value : ℕ) (cursor : MetaCursor) : Check ErrorCode MetaCursor :=
  if major = 0 ∨ major = 1 then .ok cursor
  else if major = 2 ∨ major = 3 then do
    Check.rejectIf (metadataMaxTotalBytes < value) .corruptData
    let (_, cursor) ← metaTake value cursor
    return cursor
  else if major = 4 then do
    Check.rejectIf (metaMaxCborItems < value) .corruptData
    Check.loop (fun _ cursor => metaSkipItem fuel cursor) 0 value cursor
  else if major = 5 then do
    Check.rejectIf (metaMaxCborItems / 2 < value) .corruptData
    Check.loop (fun _ cursor => metaSkipItem fuel cursor >>= metaSkipItem fuel) 0 value cursor
  else metaSkipItem fuel cursor

theorem metaSkipItem_head {fuel major value visited : ℕ} (rest : Bytes)
    (hvisited : visited < metaMaxCborItems) (hmajor : major < 7)
    (hvalue : value < 18446744073709551616) :
    metaSkipItem (fuel + 1) ⟨head major value ++ rest, visited⟩ =
      metaSkipBody fuel major value ⟨rest, visited + 1⟩ := by
  obtain ⟨hhigh, hlow⟩ := (@ofNat_head_iff (UInt8.ofNat (32 * major + (argument value).1)) major value
    (by omega)).mp rfl
  have hbyte : metaNextByte ⟨head major value ++ rest, visited + 1⟩ =
      .ok (_, ⟨(argument value).2 ++ rest, visited + 1⟩) := metaNextByte_iff.mpr ⟨_, rfl, rfl, rfl⟩
  have hargument := metaReadArgument_iff.mpr
    ⟨hvalue, hlow, (rfl : (argument value).2 ++ rest = _), (rfl : visited + 1 = _)⟩
  have hroom : ¬(head major value ++ rest = [] ∨ metaMaxCborItems ≤ visited) := by
    rw [not_or, not_le]
    exact ⟨List.cons_ne_nil _ _, hvisited⟩
  rw [metaSkipItem, (Check.rejectIf_eq_ok (u := ())).mpr hroom]
  simp only [Check.ok_bind, hbyte, hhigh]
  rw [if_neg (by omega), hargument]
  rfl

theorem metaSkipItem_simple {fuel visited : ℕ} {byte : UInt8} (rest : Bytes)
    (hvisited : visited < metaMaxCborItems) (hmajor : byte.toNat / 32 = 7) :
    metaSkipItem (fuel + 1) ⟨byte :: rest, visited⟩ =
      metaSkipSimple (byte.toNat % 32) ⟨rest, visited + 1⟩ := by
  have hbyte : metaNextByte ⟨byte :: rest, visited + 1⟩ = .ok (byte.toNat, ⟨rest, visited + 1⟩) :=
    metaNextByte_iff.mpr ⟨_, rfl, rfl, rfl⟩
  have hroom : ¬(byte :: rest = [] ∨ metaMaxCborItems ≤ visited) := by
    rw [not_or, not_le]
    exact ⟨List.cons_ne_nil _ _, hvisited⟩
  rw [metaSkipItem, (Check.rejectIf_eq_ok (u := ())).mpr hroom]
  simp only [Check.ok_bind, hbyte]
  rw [if_pos hmajor]

/-- What is skipped starts with a byte of major type 7 or with a head, and is not too much. -/
theorem metaSkipItem_cases {fuel visited : ℕ} {rest : Bytes} {next : MetaCursor}
    (h : metaSkipItem (fuel + 1) ⟨rest, visited⟩ = .ok next) :
    visited < metaMaxCborItems ∧
      ((∃ byte tail, rest = byte :: tail ∧ byte.toNat / 32 = 7) ∨
        ∃ major value tail, major < 7 ∧ value < 18446744073709551616 ∧
          rest = head major value ++ tail) := by
  rw [metaSkipItem] at h
  obtain ⟨_, hroom, h⟩ := Check.bind_eq_ok.mp h
  rw [Check.rejectIf_eq_ok, not_or, not_le] at hroom
  obtain ⟨⟨initial, tail, after⟩, hbyte, h⟩ := Check.bind_eq_ok.mp h
  obtain ⟨byte, rfl, rfl, -⟩ := metaNextByte_iff.mp hbyte
  refine ⟨hroom.2, ?_⟩
  by_cases hmajor : byte.toNat / 32 = 7
  · exact .inl ⟨byte, tail, rfl, hmajor⟩
  simp only at h
  rw [if_neg hmajor] at h
  obtain ⟨⟨value, tail', after'⟩, hargument, -⟩ := Check.bind_eq_ok.mp h
  obtain ⟨hvalue, hadditional, rfl, -⟩ := metaReadArgument_iff.mp hargument
  have hlt : byte.toNat / 32 < 8 := by
    have hbyte := byte.toNat_lt
    omega
  refine .inr ⟨byte.toNat / 32, value, tail', by omega, hvalue, ?_⟩
  rw [head, ← (ofNat_head_iff hlt).mpr ⟨rfl, hadditional⟩, List.cons_append]

/-- A simple value or a floating-point number is skipped where it has its bytes. -/
theorem metaSkipSimple_iff {byte : UInt8} {rest rest' : Bytes} {visited visited' : ℕ}
    (hmajor : byte.toNat / 32 = 7) :
    metaSkipSimple (byte.toNat % 32) ⟨rest, visited⟩ = .ok ⟨rest', visited'⟩ ↔
      ∃ item : Item, item.Fits ∧ item.major = 7 ∧ byte :: rest = item.lead ++ rest' ∧
        visited' = visited := by
  have hbyte := byte.toNat_lt
  constructor
  · intro h
    unfold metaSkipSimple at h
    split at h
    case isTrue hshort =>
      simp only [Except.ok.injEq, MetaCursor.mk.injEq] at h
      obtain ⟨rfl, rfl⟩ := h
      refine ⟨.simple (byte.toNat % 32), .inl hshort, rfl, ?_, rfl⟩
      rw [Item.lead, if_pos hshort, ← show byte = UInt8.ofNat (224 + byte.toNat % 32) by
        rw [← UInt8.toNat_inj, UInt8.toNat_ofNat']; omega]
      rfl
    split at h
    case isTrue hone =>
      simp only [Check.bind_eq_ok, Check.rejectIf_eq_ok, exists_const, not_lt, Check.pure_eq_ok,
        Except.ok.injEq] at h
      obtain ⟨⟨data, next⟩, htake, hlow, rfl⟩ := h
      obtain ⟨rfl, hlength, rfl⟩ := metaTake_iff.mp htake
      obtain ⟨value, rfl⟩ := List.length_eq_one_iff.mp hlength
      have hvalue : bigEndian [value] = value.toNat := rfl
      rw [hvalue] at hlow
      refine ⟨.simple value.toNat, .inr ⟨hlow, value.toNat_lt⟩, rfl, ?_, rfl⟩
      rw [Item.lead, if_neg (by omega), UInt8.ofNat_toNat,
        show byte = 248 from UInt8.toNat_inj.mp (by show byte.toNat = 248; omega)]
      rfl
    cases hform : argumentForm (byte.toNat % 32) with
    | none =>
        rw [hform] at h
        cases h
    | some form =>
        rw [hform] at h
        simp only [Check.bind_eq_ok, Check.pure_eq_ok, Except.ok.injEq] at h
        obtain ⟨⟨data, next⟩, htake, rfl⟩ := h
        obtain ⟨rfl, hlength, rfl⟩ := metaTake_iff.mp htake
        unfold argumentForm at hform
        have hwidth : (form.1 = 2 ∧ byte = 249) ∨ (form.1 = 4 ∧ byte = 250) ∨
            (form.1 = 8 ∧ byte = 251) := by
          simp only [← UInt8.toNat_inj, UInt8.reduceToNat]
          split_ifs at hform
          all_goals
            obtain rfl := Option.some.inj hform
            dsimp only
            omega
        refine ⟨.float data, by unfold Item.Fits; omega, rfl, ?_, rfl⟩
        rw [Item.lead, Item.floatLead, hlength]
        rcases hwidth with ⟨hwidth, rfl⟩ | ⟨hwidth, rfl⟩ | ⟨hwidth, rfl⟩ <;> rw [hwidth] <;> rfl
  · rintro ⟨item, hfits, hitem, hlead, rfl⟩
    cases item with
    | simple value =>
        have hvalue : value < 24 ∨ 32 ≤ value ∧ value < 256 := hfits
        rw [Item.lead] at hlead
        split_ifs at hlead with hshort
        · obtain ⟨rfl, rfl⟩ := List.cons.inj hlead
          have hlow : (UInt8.ofNat (224 + value)).toNat % 32 = value := by
            rw [UInt8.toNat_ofNat']
            omega
          rw [hlow, metaSkipSimple, if_pos hshort]
        · simp only [List.cons_append, List.nil_append, List.cons.injEq] at hlead
          obtain ⟨rfl, rfl⟩ := hlead
          have htake : metaTake 1 ⟨UInt8.ofNat value :: rest', visited'⟩ =
            .ok ([UInt8.ofNat value], ⟨rest', visited'⟩) := metaTake_iff.mpr ⟨rfl, rfl, rfl⟩
          have hnumber : bigEndian [UInt8.ofNat value] = value := by
            show (UInt8.ofNat value).toNat = value
            rw [UInt8.toNat_ofNat']
            omega
          have hkind : (248 : UInt8).toNat % 32 = 24 := rfl
          rw [hkind, metaSkipSimple, if_neg (by omega), if_pos rfl]
          simp only [htake, Check.ok_bind, hnumber]
          rw [(Check.rejectIf_eq_ok (u := ())).mpr (by omega)]
          rfl
    | float content =>
        have hlength : content.length = 2 ∨ content.length = 4 ∨ content.length = 8 := hfits
        obtain ⟨rfl, rfl⟩ := List.cons.inj hlead
        have htake : metaTake content.length ⟨content ++ rest', visited'⟩ =
          .ok (content, ⟨rest', visited'⟩) := metaTake_iff.mpr ⟨rfl, rfl, rfl⟩
        unfold metaSkipSimple Item.floatLead argumentForm
        rcases hlength with hlength | hlength | hlength
        all_goals
          rw [hlength] at htake ⊢
          simp [htake]
    | _ => cases hitem

theorem Skips.congr {may may' : List Item → Prop}
    {step : MetaCursor → Check ErrorCode MetaCursor} (h : Skips may step)
    (hmay : ∀ items, may items ↔ may' items) : Skips may' step := by
  obtain rfl : may = may' := funext fun items => propext (hmay items)
  exact h

/-- One item. -/
def OneItem (depth : ℕ) (items : List Item) : Prop :=
  ∃ item, Skippable depth item ∧ items = [item]

/-- A loop over the items of an array. -/
theorem Skips.array {depth count : ℕ} {step : MetaCursor → Check ErrorCode MetaCursor}
    (h : Skips (OneItem depth) step) :
    Skips (fun items => items.length = count ∧ ∀ item ∈ items, Skippable depth item)
      (Check.loop (fun _ cursor => step cursor) 0 count) := by
  refine (h.loop 0 count).congr fun items => ⟨?_, ?_⟩
  · rintro ⟨groups, rfl, hgroups, rfl⟩
    induction groups with
    | nil => exact ⟨rfl, fun _ hmem => absurd hmem List.not_mem_nil⟩
    | cons group groups ih =>
        rw [List.forall_mem_cons] at hgroups
        obtain ⟨⟨item, hitem, rfl⟩, hgroups⟩ := hgroups
        obtain ⟨hlength, hitems⟩ := ih hgroups
        rw [List.flatten_cons, List.singleton_append, List.length_cons, hlength, List.length_cons]
        exact ⟨rfl, List.forall_mem_cons.mpr ⟨hitem, hitems⟩⟩
  · rintro ⟨rfl, hitems⟩
    refine ⟨items.map fun item => [item], List.length_map _, fun group hgroup => ?_,
      by rw [← List.flatMap_def, List.flatMap_singleton']⟩
    obtain ⟨item, hitem, rfl⟩ := List.mem_map.mp hgroup
    exact ⟨item, hitems item hitem, rfl⟩

/-- A loop over the entries of a map. -/
theorem Skips.map {depth count : ℕ} {step : MetaCursor → Check ErrorCode MetaCursor}
    (h : Skips (OneItem depth) step) :
    Skips (fun items => ∃ entries : List (Item × Item), entries.length = count ∧
      items = (Item.map entries).children ∧ ∀ item ∈ items, Skippable depth item)
      (Check.loop (fun _ cursor => step cursor >>= step) 0 count) := by
  refine ((h.bind h).loop 0 count).congr fun items => ⟨?_, ?_⟩
  · rintro ⟨groups, rfl, hgroups, rfl⟩
    induction groups with
    | nil => exact ⟨[], rfl, rfl, fun _ hmem => absurd hmem List.not_mem_nil⟩
    | cons group groups ih =>
        rw [List.forall_mem_cons] at hgroups
        obtain ⟨⟨_, _, ⟨key, hkey, rfl⟩, ⟨value, hvalue, rfl⟩, rfl⟩, hgroups⟩ := hgroups
        obtain ⟨entries, hlength, hentries, hitems⟩ := ih hgroups
        refine ⟨(key, value) :: entries, by rw [List.length_cons, List.length_cons, hlength], ?_, ?_⟩
        · rw [List.flatten_cons, hentries]
          rfl
        · rw [List.flatten_cons, List.singleton_append, List.cons_append, List.singleton_append]
          exact List.forall_mem_cons.mpr ⟨hkey, List.forall_mem_cons.mpr ⟨hvalue, hitems⟩⟩
  · rintro ⟨entries, rfl, rfl, hitems⟩
    refine ⟨entries.map fun entry => [entry.1, entry.2], List.length_map _, fun group hgroup => ?_,
      by rw [Item.children, List.flatMap_def]⟩
    obtain ⟨entry, hentry, rfl⟩ := List.mem_map.mp hgroup
    have hpart (item : Item) (hmem : item ∈ [entry.1, entry.2]) : Skippable depth item :=
      hitems item (List.mem_flatMap.mpr ⟨entry, hentry, hmem⟩)
    exact ⟨[entry.1], [entry.2], ⟨_, hpart _ (by simp), rfl⟩, ⟨_, hpart _ (by simp), rfl⟩, rfl⟩

/-- The content of a string is skipped. -/
theorem metaSkipBody_string {depth major value visited visited' : ℕ} {rest rest' : Bytes}
    (hmajor : major = 2 ∨ major = 3)
    (h : metaSkipBody depth major value ⟨rest, visited⟩ = .ok ⟨rest', visited'⟩) :
    value ≤ metadataMaxTotalBytes ∧ ∃ content, rest = content ++ rest' ∧ content.length = value ∧
      visited' = visited := by
  rw [metaSkipBody, if_neg (by omega), if_pos hmajor] at h
  simp only [Check.bind_eq_ok, Check.rejectIf_eq_ok, exists_const, not_lt, Check.pure_eq_ok,
    Except.ok.injEq] at h
  obtain ⟨hshort, ⟨content, next⟩, htake, rfl⟩ := h
  exact ⟨hshort, content, metaTake_iff.mp htake⟩

theorem metaSkipBody_skips {depth major visited : ℕ} {content rest : Bytes}
    (hmajor : major = 2 ∨ major = 3) (hshort : content.length ≤ metadataMaxTotalBytes) :
    metaSkipBody depth major content.length ⟨content ++ rest, visited⟩ = .ok ⟨rest, visited⟩ := by
  have htake : metaTake content.length ⟨content ++ rest, visited⟩ =
    .ok (content, ⟨rest, visited⟩) := metaTake_iff.mpr ⟨rfl, rfl, rfl⟩
  rw [metaSkipBody, if_neg (by omega), if_pos hmajor,
    (Check.rejectIf_eq_ok (u := ())).mpr (not_lt.mpr hshort), Check.ok_bind, htake]
  rfl

/-- The reader skips an item that is not nested too deep, whose strings are not too long and which
has not too many parts. -/
theorem metaSkipItem_skips (depth : ℕ) : Skips (OneItem depth) (metaSkipItem depth) := by
  induction depth with
  | zero =>
      intro rest rest' visited visited' _
      refine iff_of_false (nomatch ·) ?_
      rintro ⟨_, ⟨item, hitem, -⟩, -⟩
      exact hitem.within
  | succ depth ih =>
      intro rest rest' visited visited' _
      constructor
      · intro h
        -- an item whose own bytes and whose parts were taken
        have hskipped (item : Item) {tail : Bytes} (hroom : visited < metaMaxCborItems)
            (hown : item.Fits ∧ ShortString item)
            (hchildren : ∀ child ∈ item.children, Skippable depth child)
            (hrest : rest = item.lead ++ tail)
            (htail : tail = item.children.flatMap Item.encode ++ rest')
            (hvisited : visited' = visited + 1 + itemCount item.children)
            (hle : visited' ≤ metaMaxCborItems) :
            ∃ items, OneItem (depth + 1) items ∧ rest = items.flatMap Item.encode ++ rest' ∧
              visited' = visited + itemCount items ∧ visited' ≤ metaMaxCborItems := by
          refine ⟨[item], ⟨item, skippable_succ.mpr ⟨hown, hchildren⟩, rfl⟩, ?_, ?_, hle⟩
          · rw [hrest, htail, List.flatMap_cons, List.flatMap_nil, List.append_nil, Item.encode_eq,
              List.append_assoc]
          · rw [hvisited, itemCount_cons, length_subitems]
            simp only [itemCount, List.flatMap_nil, List.length_nil]
            omega
        obtain ⟨hroom, ⟨byte, tail, rfl, hmajor⟩ | ⟨major, value, tail, hmajor, hvalue, rfl⟩⟩ :=
          metaSkipItem_cases h
        · rw [metaSkipItem_simple tail hroom hmajor, metaSkipSimple_iff hmajor] at h
          obtain ⟨item, hfits, hitem, hlead, rfl⟩ := h
          have hleaf : item.children = [] ∧ ShortString item := by
            cases item <;> first | exact ⟨rfl, trivial⟩ | cases hitem
          have hnone {child : Item} (hmem : child ∈ item.children) : Skippable depth child := by
            rw [hleaf.1] at hmem
            cases hmem
          refine hskipped item hroom ⟨hfits, hleaf.2⟩ (fun child => hnone) hlead ?_ ?_ hroom
          · rw [hleaf.1]
            rfl
          · rw [hleaf.1]
            rfl
        rw [metaSkipItem_head tail hroom hmajor hvalue] at h
        have hle : visited + 1 ≤ metaMaxCborItems := hroom
        have hnone {child : Item} (hmem : child ∈ ([] : List Item)) : Skippable depth child :=
          absurd hmem List.not_mem_nil
        have hkinds : major = 0 ∨ major = 1 ∨ major = 2 ∨ major = 3 ∨ major = 4 ∨ major = 5 ∨
          major = 6 := by omega
        rcases hkinds with rfl | rfl | rfl | rfl | rfl | rfl | rfl
        · obtain ⟨rfl, rfl⟩ := MetaCursor.mk.inj (Except.ok.inj h)
          exact hskipped (Item.unsigned value) hroom ⟨hvalue, trivial⟩ (fun _ => hnone) rfl
            rfl rfl hle
        · obtain ⟨rfl, rfl⟩ := MetaCursor.mk.inj (Except.ok.inj h)
          exact hskipped (Item.negative value) hroom ⟨hvalue, trivial⟩ (fun _ => hnone) rfl
            rfl rfl hle
        · obtain ⟨hshort, content, rfl, rfl, rfl⟩ := metaSkipBody_string (.inl rfl) h
          exact hskipped (Item.bytes content) hroom ⟨hvalue, hshort⟩ (fun _ => hnone)
            (List.append_assoc _ _ _).symm rfl rfl hle
        · obtain ⟨hshort, content, rfl, rfl, rfl⟩ := metaSkipBody_string (.inr rfl) h
          exact hskipped (Item.text content) hroom ⟨hvalue, hshort⟩ (fun _ => hnone)
            (List.append_assoc _ _ _).symm rfl rfl hle
        · obtain ⟨_, -, hloop⟩ := Check.bind_eq_ok.mp h
          obtain ⟨items, ⟨rfl, hitems⟩, hrest, hvisited, hle⟩ := (ih.array hle).mp hloop
          exact hskipped (Item.array items) hroom ⟨hvalue, trivial⟩ hitems rfl hrest
            hvisited hle
        · obtain ⟨_, -, hloop⟩ := Check.bind_eq_ok.mp h
          obtain ⟨items, ⟨entries, rfl, rfl, hitems⟩, hrest, hvisited, hle⟩ :=
            (ih.map hle).mp hloop
          exact hskipped (Item.map entries) hroom ⟨hvalue, trivial⟩ hitems rfl hrest
            hvisited hle
        · obtain ⟨items, ⟨item, hitem, rfl⟩, hrest, hvisited, hle⟩ := (ih hle).mp h
          refine hskipped (Item.tag value item) hroom ⟨hvalue, trivial⟩ (fun child hmem => ?_)
            rfl hrest hvisited hle
          exact List.mem_singleton.mp hmem ▸ hitem
      · rintro ⟨_, ⟨item, hitem, rfl⟩, rfl, rfl, hle⟩
        rw [skippable_succ] at hitem
        obtain ⟨⟨hfits, hshort⟩, hchildren⟩ := hitem
        have hencode : [item].flatMap Item.encode ++ rest' =
            item.lead ++ (item.children.flatMap Item.encode ++ rest') := by
          rw [List.flatMap_cons, List.flatMap_nil, List.append_nil, Item.encode_eq,
            List.append_assoc]
        have hcount : visited + itemCount [item] = visited + 1 + itemCount item.children := by
          rw [itemCount_cons, length_subitems]
          simp only [itemCount, List.flatMap_nil, List.length_nil]
          omega
        rw [hcount] at hle ⊢
        rw [hencode]
        have hroom : visited < metaMaxCborItems := by omega
        have hnext : visited + 1 ≤ metaMaxCborItems := hroom
        have hleaf (hmajor : item.major = 7) (hnone : item.children = []) :
            metaSkipItem (depth + 1)
                ⟨item.lead ++ (item.children.flatMap Item.encode ++ rest'), visited⟩ =
              .ok ⟨rest', visited + 1 + itemCount item.children⟩ := by
          obtain ⟨first, tail, hlead, hfirst⟩ := Item.lead_first hfits
          rw [hmajor] at hfirst
          rw [hnone, hlead, List.cons_append, metaSkipItem_simple _ hroom hfirst,
            metaSkipSimple_iff hfirst]
          exact ⟨item, hfits, hmajor, by rw [hlead]; rfl, rfl⟩
        cases item with
        | unsigned value =>
            rw [Item.lead, metaSkipItem_head _ hroom (by omega) hfits]
            rfl
        | negative value =>
            rw [Item.lead, metaSkipItem_head _ hroom (by omega) hfits]
            rfl
        | bytes content =>
            rw [Item.lead, List.append_assoc, metaSkipItem_head _ hroom (by omega) hfits]
            exact metaSkipBody_skips (.inl rfl) hshort
        | text content =>
            rw [Item.lead, List.append_assoc, metaSkipItem_head _ hroom (by omega) hfits]
            exact metaSkipBody_skips (.inr rfl) hshort
        | array items =>
            rw [Item.lead, metaSkipItem_head _ hroom (by omega) hfits]
            have hfew : ¬metaMaxCborItems < items.length := by
              have hcount := length_le_itemCount items
              simp only [Item.children] at hle
              omega
            refine Check.bind_eq_ok.mpr ⟨(), Check.rejectIf_eq_ok.mpr hfew, ?_⟩
            exact (ih.array hnext).mpr ⟨items, ⟨rfl, hchildren⟩, rfl, rfl, hle⟩
        | map entries =>
            rw [Item.lead, metaSkipItem_head _ hroom (by omega) hfits]
            have hfew : ¬metaMaxCborItems / 2 < entries.length := by
              have hcount := length_le_itemCount (Item.map entries).children
              have htwo : (Item.map entries).children.length = 2 * entries.length := by
                simp [Item.children, List.length_flatMap, Nat.mul_comm]
              omega
            refine Check.bind_eq_ok.mpr ⟨(), Check.rejectIf_eq_ok.mpr hfew, ?_⟩
            exact (ih.map hnext).mpr ⟨_, ⟨entries, rfl, rfl, hchildren⟩, rfl, rfl, hle⟩
        | tag value item =>
            rw [Item.lead, metaSkipItem_head _ hroom (by omega) hfits]
            exact (ih hnext).mpr ⟨[item], ⟨item, hchildren item (List.mem_singleton.mpr rfl), rfl⟩,
              rfl, rfl, hle⟩
        | simple value => exact hleaf rfl rfl
        | float content => exact hleaf rfl rfl

end LibApta.Container
