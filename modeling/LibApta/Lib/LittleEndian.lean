import Mathlib.Data.List.Basic
import Mathlib.Tactic.Ring

/-!
# Fixed-width little-endian fields

Numbers as little-endian byte strings, the part of a byte string at an offset, and tables of
records of one width. Reading a field of an assembled string is reading it of the piece that holds
it, and a table of encoded records reads back as the records.
-/

namespace LibApta.LittleEndian

/-! ## Numbers -/

/-- The number a byte string denotes, least significant byte first. -/
def number : List UInt8 → ℕ
  | [] => 0
  | byte :: rest => byte.toNat + 256 * number rest

/-- The low bytes of a number. -/
def encode : (width value : ℕ) → List UInt8
  | 0, _ => []
  | width + 1, value => UInt8.ofNat value :: encode width (value / 256)

@[simp] theorem length_encode (width value : ℕ) : (encode width value).length = width := by
  induction width generalizing value with
  | zero => rfl
  | succ width ih => simp [encode, ih]

theorem number_lt (bytes : List UInt8) : number bytes < 256 ^ bytes.length := by
  induction bytes with
  | nil => simp [number]
  | cons byte rest ih =>
      have hbyte : byte.toNat < 256 := byte.toNat_lt
      rw [number, List.length_cons, pow_succ]
      omega

/-- An encoded number reads back. -/
theorem number_encode {width value : ℕ} (h : value < 256 ^ width) :
    number (encode width value) = value := by
  induction width generalizing value with
  | zero =>
      rw [pow_zero] at h
      simp only [encode, number]
      omega
  | succ width ih =>
      have hrest : value / 256 < 256 ^ width := by
        rw [pow_succ] at h
        omega
      rw [encode, number, ih hrest, UInt8.toNat_ofNat']
      omega

/-- The bytes of a number that was read are the bytes it was read from. -/
theorem encode_number (bytes : List UInt8) : encode bytes.length (number bytes) = bytes := by
  induction bytes with
  | nil => rfl
  | cons byte rest ih =>
      have hbyte : byte.toNat < 256 := byte.toNat_lt
      have hdiv : (byte.toNat + 256 * number rest) / 256 = number rest := by omega
      have hmod : UInt8.ofNat (byte.toNat + 256 * number rest) = byte := by
        apply UInt8.toNat_inj.mp
        rw [UInt8.toNat_ofNat']
        omega
      rw [List.length_cons, number, encode, hdiv, hmod, ih]

/-! ## Pieces of a byte string -/

variable {α : Type}

/-- The piece of a list at an offset. -/
def slice (l : List α) (offset size : ℕ) : List α := (l.drop offset).take size

theorem length_slice {l : List α} {offset size : ℕ} (h : offset + size ≤ l.length) :
    (slice l offset size).length = size := by
  rw [slice, List.length_take, List.length_drop]
  omega

@[simp] theorem slice_zero_length (l : List α) : slice l 0 l.length = l := by
  simp [slice]

/-- A piece of a piece. -/
theorem slice_slice {l : List α} {offset size inner width : ℕ} (h : inner + width ≤ size) :
    slice (slice l offset size) inner width = slice l (offset + inner) width := by
  rw [slice, slice, slice, List.drop_take, List.drop_drop, List.take_take]
  congr 1
  omega

/-- A piece that lies in the first part of a concatenation. -/
theorem slice_append_left {front back : List α} {offset size : ℕ}
    (h : offset + size ≤ front.length) :
    slice (front ++ back) offset size = slice front offset size := by
  rw [slice, slice, List.drop_append_of_le_length (by omega), List.take_append_of_le_length]
  rw [List.length_drop]
  omega

/-- A piece that lies in the second part of a concatenation. -/
theorem slice_append_right {front back : List α} {offset size : ℕ} (h : front.length ≤ offset) :
    slice (front ++ back) offset size = slice back (offset - front.length) size := by
  rw [slice, slice, List.drop_append, List.drop_eq_nil_of_le h, List.nil_append]

/-- The middle piece of a concatenation. -/
theorem slice_append_middle (front middle back : List α) :
    slice (front ++ (middle ++ back)) front.length middle.length = middle := by
  rw [slice_append_right le_rfl, Nat.sub_self, slice, List.drop_zero, List.take_left]

/-- Pieces at disjoint places do not change each other: a list is its pieces in order. -/
theorem take_append_slice_append_drop (l : List α) (offset size : ℕ) :
    l.take offset ++ (slice l offset size ++ l.drop (offset + size)) = l := by
  rw [slice, ← List.drop_drop, List.take_append_drop, List.take_append_drop]

/-- The number at an offset. -/
def field (width : ℕ) (bytes : List UInt8) (offset : ℕ) : ℕ := number (slice bytes offset width)

theorem field_lt {width offset : ℕ} {bytes : List UInt8} :
    field width bytes offset < 256 ^ width := by
  have hle : (slice bytes offset width).length ≤ width := by
    rw [slice, List.length_take]
    exact min_le_left _ _
  exact (number_lt _).trans_le (Nat.pow_le_pow_right (by omega) hle)

theorem field_slice {width offset inner size : ℕ} {bytes : List UInt8}
    (h : inner + width ≤ size) :
    field width (slice bytes offset size) inner = field width bytes (offset + inner) := by
  rw [field, field, slice_slice h]

theorem field_append_left {width offset : ℕ} {front back : List UInt8}
    (h : offset + width ≤ front.length) :
    field width (front ++ back) offset = field width front offset := by
  rw [field, field, slice_append_left h]

theorem field_append_right {width offset : ℕ} {front back : List UInt8}
    (h : front.length ≤ offset) :
    field width (front ++ back) offset = field width back (offset - front.length) := by
  rw [field, field, slice_append_right h]

/-- The number at the head of a string. -/
theorem field_encode_append {width value : ℕ} (rest : List UInt8) (h : value < 256 ^ width) :
    field width (encode width value ++ rest) 0 = value := by
  have hslice : slice (encode width value ++ rest) 0 width = encode width value := by
    rw [slice, List.drop_zero, List.take_left' (length_encode width value)]
  rw [field, hslice, number_encode h]

/-- Writing back a number that was read. -/
theorem encode_field {width offset : ℕ} {bytes : List UInt8}
    (h : offset + width ≤ bytes.length) :
    encode width (field width bytes offset) = slice bytes offset width := by
  have hencode := encode_number (slice bytes offset width)
  rw [length_slice h] at hencode
  exact hencode

/-! ## Fields of an encoded record -/

/-- A field behind the first number of a record. -/
theorem field_skip {skip value width offset : ℕ} {rest : List UInt8} (h : skip ≤ offset) :
    field width (encode skip value ++ rest) offset = field width rest (offset - skip) := by
  rw [field_append_right (by rwa [length_encode]), length_encode]

/-- The first number of a record. -/
theorem field_head {width value : ℕ} {rest : List UInt8} (h : value < 256 ^ width) :
    field width (encode width value ++ rest) 0 = value := field_encode_append rest h

/-- The only number of a record. -/
theorem field_last {width value : ℕ} (h : value < 256 ^ width) :
    field width (encode width value) 0 = value := by
  have hfield := field_encode_append [] h
  rwa [List.append_nil] at hfield

/-- A piece behind the first number of a record. -/
theorem slice_skip {skip value size offset : ℕ} {rest : List UInt8} (h : skip ≤ offset) :
    slice (encode skip value ++ rest) offset size = slice rest (offset - skip) size := by
  rw [slice_append_right (by rwa [length_encode]), length_encode]

/-- The bytes of the first number of a record. -/
theorem slice_head {width value : ℕ} {rest : List UInt8} :
    slice (encode width value ++ rest) 0 width = encode width value := by
  have hmiddle := slice_append_middle [] (encode width value) rest
  rwa [length_encode] at hmiddle

/-! ## Writing into a byte string -/

/-- The list with a piece written over what was at an offset. -/
def patch (l : List α) (offset : ℕ) (piece : List α) : List α :=
  l.take offset ++ (piece ++ l.drop (offset + piece.length))

theorem length_patch {l piece : List α} {offset : ℕ} (h : offset + piece.length ≤ l.length) :
    (patch l offset piece).length = l.length := by
  simp only [patch, List.length_append, List.length_take, List.length_drop]
  omega

/-- Writing into the second part of a concatenation. -/
theorem patch_append_right {front back piece : List α} {offset : ℕ} (h : front.length ≤ offset) :
    patch (front ++ back) offset piece = front ++ patch back (offset - front.length) piece := by
  obtain ⟨skip, rfl⟩ := Nat.exists_eq_add_of_le h
  rw [patch, patch, List.take_length_add_append, Nat.add_assoc, List.drop_length_add_append,
    List.append_assoc, Nat.add_sub_cancel_left]

/-- Writing over the first part of a concatenation. -/
theorem patch_head {front back piece : List α} (h : piece.length = front.length) :
    patch (front ++ back) 0 piece = piece ++ back := by
  rw [patch, List.take_zero, List.nil_append, Nat.zero_add, h, List.drop_left]

/-- Writing behind the first number of a record. -/
theorem patch_skip {skip value offset : ℕ} {rest piece : List UInt8} (h : skip ≤ offset) :
    patch (encode skip value ++ rest) offset piece =
      encode skip value ++ patch rest (offset - skip) piece := by
  have hright := @patch_append_right _ (encode skip value) rest piece offset
    (by rwa [length_encode])
  rwa [length_encode] at hright

/-- Writing over the first number of a record. -/
theorem patch_number {width value other : ℕ} {rest : List UInt8} :
    patch (encode width value ++ rest) 0 (encode width other) = encode width other ++ rest :=
  patch_head (by rw [length_encode, length_encode])

/-! ## Tables of records -/

/-- The records of a table of `count` records of one width. -/
def records (width : ℕ) (bytes : List UInt8) (offset count : ℕ) : List (List UInt8) :=
  (List.range count).map fun index => slice bytes (offset + index * width) width

@[simp] theorem length_records (width : ℕ) (bytes : List UInt8) (offset count : ℕ) :
    (records width bytes offset count).length = count := by
  simp [records]

@[simp] theorem records_zero (width : ℕ) (bytes : List UInt8) (offset : ℕ) :
    records width bytes offset 0 = [] := rfl

/-- The first record and the table after it. -/
theorem records_succ (width : ℕ) (bytes : List UInt8) (offset count : ℕ) :
    records width bytes offset (count + 1) =
      slice bytes offset width :: records width bytes (offset + width) count := by
  rw [records, List.range_succ_eq_map, List.map_cons, List.map_map, records]
  congr 1
  · rw [Nat.zero_mul, Nat.add_zero]
  · apply List.map_congr_left
    intro index _
    show slice bytes (offset + (index + 1) * width) width = _
    congr 1
    ring

/-- The table and the record after it. -/
theorem records_add (width : ℕ) (bytes : List UInt8) (offset first rest : ℕ) :
    records width bytes offset (first + rest) =
      records width bytes offset first ++ records width bytes (offset + first * width) rest := by
  induction first generalizing offset with
  | zero => simp
  | succ first ih =>
      rw [Nat.succ_add, records_succ, records_succ, List.cons_append, ih]
      congr 3
      ring

/-- A part of a table. -/
theorem records_part {width offset first count total : ℕ} {bytes : List UInt8}
    (h : first + count ≤ total) :
    records width bytes (offset + first * width) count =
      slice (records width bytes offset total) first count := by
  obtain ⟨rest, rfl⟩ := Nat.exists_eq_add_of_le h
  have hall := slice_zero_length (records width bytes (offset + first * width) count)
  rw [length_records] at hall
  rw [Nat.add_assoc, records_add, records_add,
    slice_append_right (length_records width bytes offset first).le, length_records,
    Nat.sub_self, slice_append_left (by rw [length_records, Nat.zero_add]), hall]

theorem length_of_mem_records {width offset count : ℕ} {bytes record : List UInt8}
    (h : offset + count * width ≤ bytes.length)
    (hmem : record ∈ records width bytes offset count) : record.length = width := by
  obtain ⟨index, hindex, rfl⟩ := List.mem_map.mp hmem
  have hle : (index + 1) * width ≤ count * width :=
    Nat.mul_le_mul_right width (List.mem_range.mp hindex)
  apply length_slice
  rw [Nat.add_mul] at hle
  omega

/-- A table of encoded records reads back as the records. -/
theorem records_flatten {width : ℕ} {table : List (List UInt8)} (front back : List UInt8)
    (h : ∀ record ∈ table, record.length = width) :
    records width (front ++ (table.flatten ++ back)) front.length table.length = table := by
  induction table generalizing front with
  | nil => rfl
  | cons record table ih =>
      have hwidth : record.length = width := h record List.mem_cons_self
      have hrest := ih (front ++ record) fun r hr => h r (List.mem_cons_of_mem _ hr)
      rw [List.length_cons, records_succ, List.flatten_cons, List.append_assoc]
      congr 1
      · rw [← hwidth, slice_append_middle]
      · rw [List.length_append, hwidth, List.append_assoc] at hrest
        exact hrest

/-- The length of a table of records of one width. -/
theorem length_flatten_of_width {width : ℕ} {table : List (List UInt8)}
    (h : ∀ record ∈ table, record.length = width) :
    table.flatten.length = table.length * width := by
  induction table with
  | nil => simp
  | cons record table ih =>
      rw [List.flatten_cons, List.length_append, h record List.mem_cons_self,
        ih fun r hr => h r (List.mem_cons_of_mem _ hr), List.length_cons]
      ring

end LibApta.LittleEndian
