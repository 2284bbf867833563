import LibApta.Lib.Packing

/-!
# Growing a file in place

A file that is a table with packed items behind it grows in the buffer that holds it: the items move
back to make room for new records, the records that name their places are rewritten, and new items
are packed behind the old ones. Each of these writes, on a buffer split at the right places, replaces
one piece.
-/

namespace LibApta.InPlace

open LittleEndian Packing

variable {α β : Type}

/-! ## Pieces -/

/-- Writing over the middle of a concatenation. -/
theorem patch_middle {front old new : List α} (back : List α) (h : new.length = old.length) :
    patch (front ++ (old ++ back)) front.length new = front ++ (new ++ back) := by
  rw [patch_append_right le_rfl, Nat.sub_self, patch_head h]

/-- Copy a piece as it was to another place. -/
def move (l : List α) (target source size : ℕ) : List α := patch l target (slice l source size)

/-- A piece that moves back leaves what was at its place before, as far as it does not cover it. -/
theorem move_back (front piece back : List α) (shift : ℕ) :
    move (front ++ (piece ++ back)) (front.length + shift) front.length piece.length =
      front ++ ((piece ++ back).take shift ++ (piece ++ back.drop shift)) := by
  have hback : (piece ++ back).drop (shift + piece.length) = back.drop shift := by
    rw [Nat.add_comm, List.drop_length_add_append]
  rw [move, slice_append_middle, patch_append_right (Nat.le_add_right _ _),
    Nat.add_sub_cancel_left, patch, hback]

/-! ## Tables -/

/-- Write records one after another. -/
def writeRecords : (offset : ℕ) → List (List α) → List α → List α
  | _, [], l => l
  | offset, record :: rest, l =>
      writeRecords (offset + record.length) rest (patch l offset record)

theorem writeRecords_eq {table : List (List α)} {front old : List α} (back : List α)
    (h : table.flatten.length = old.length) :
    writeRecords front.length table (front ++ (old ++ back)) =
      front ++ (table.flatten ++ back) := by
  induction table generalizing front old with
  | nil =>
      rw [List.flatten_nil, List.length_nil] at h
      rw [writeRecords, List.length_eq_zero_iff.mp h.symm, List.flatten_nil]
  | cons record rest ih =>
      rw [List.flatten_cons, List.length_append] at h
      have hsplit : old = old.take record.length ++ old.drop record.length :=
        (List.take_append_drop _ _).symm
      have hrest := @ih (front ++ record) (old.drop record.length)
        (by rw [List.length_drop]; omega)
      rw [List.length_append, List.append_assoc] at hrest
      rw [writeRecords, hsplit, List.append_assoc,
        patch_middle _ (by rw [List.length_take]; omega), hrest, List.flatten_cons,
        List.append_assoc, List.append_assoc]

/-- Rewrite the records of a table one after another. -/
def mapRecords (width : ℕ) (f : List α → List α) : (offset count : ℕ) → List α → List α
  | _, 0, l => l
  | offset, count + 1, l =>
      mapRecords width f (offset + width) count (patch l offset (f (slice l offset width)))

theorem mapRecords_eq {width : ℕ} {f : List α → List α} {table : List (List α)}
    (hwidth : ∀ record ∈ table, record.length = width ∧ (f record).length = width)
    (front back : List α) :
    mapRecords width f front.length table.length (front ++ (table.flatten ++ back)) =
      front ++ ((table.map f).flatten ++ back) := by
  induction table generalizing front with
  | nil => rfl
  | cons record rest ih =>
      obtain ⟨hrecord, hnew⟩ := hwidth record List.mem_cons_self
      have hrest := ih (fun r hr => hwidth r (List.mem_cons_of_mem _ hr)) (front ++ f record)
      rw [List.length_append, hnew, List.append_assoc] at hrest
      have hslice : slice (front ++ (record ++ (rest.flatten ++ back))) front.length width =
          record := by
        rw [← hrecord, slice_append_middle]
      rw [List.length_cons, mapRecords, List.flatten_cons, List.append_assoc, hslice,
        patch_middle _ (hnew.trans hrecord.symm), hrest, List.map_cons, List.flatten_cons,
        List.append_assoc, List.append_assoc]

/-! ## Packings -/

/-- Write items from a cursor on at multiples of the unit, each with the gap before it filled. -/
def writePacked (unit : ℕ) (filler : α) (content : β → List α) :
    (cursor : ℕ) → List β → List α → List α
  | _, [], l => l
  | cursor, item :: rest, l =>
      let padded := patch l cursor (List.replicate (alignUp unit cursor - cursor) filler)
      writePacked unit filler content (alignUp unit cursor + (content item).length) rest
        (patch padded (alignUp unit cursor) (content item))

/-- The items are packed behind what comes before the cursor. -/
theorem writePacked_eq {unit : ℕ} (hunit : 0 < unit) (filler : α) (content : β → List α)
    {items : List β} {front old : List α} (back : List α)
    (h : (pack unit filler content front.length items).length = old.length) :
    writePacked unit filler content front.length items (front ++ (old ++ back)) =
      front ++ (pack unit filler content front.length items ++ back) := by
  induction items generalizing front old with
  | nil =>
      rw [pack, List.length_nil] at h
      rw [writePacked, List.length_eq_zero_iff.mp h.symm, pack]
  | cons item rest ih =>
      have hle := le_alignUp hunit front.length
      set gap := List.replicate (alignUp unit front.length - front.length) filler with hgap
      have hgapLength : gap.length = alignUp unit front.length - front.length :=
        List.length_replicate
      rw [pack, List.length_append, List.length_append, ← hgap] at h
      -- the old bytes split where the gap ends and where the item ends
      obtain ⟨first, second, hold, hfirst⟩ : ∃ first second, old = first ++ second ∧
          first.length = gap.length :=
        ⟨old.take gap.length, old.drop gap.length, (List.take_append_drop _ _).symm,
          by rw [List.length_take]; omega⟩
      obtain ⟨under, last, hsecond, hunder⟩ : ∃ under last, second = under ++ last ∧
          under.length = (content item).length :=
        ⟨second.take (content item).length, second.drop (content item).length,
          (List.take_append_drop _ _).symm, by
            rw [hold, List.length_append] at h
            rw [List.length_take]
            omega⟩
      have hfront : (front ++ gap).length = alignUp unit front.length := by
        rw [List.length_append, hgapLength]
        omega
      have hcursor : (front ++ gap ++ content item).length =
          alignUp unit front.length + (content item).length := by
        rw [List.length_append, hfront]
      have hrest := @ih (front ++ gap ++ content item) last (by
        rw [hcursor]
        rw [hold, hsecond, List.length_append, List.length_append] at h
        omega)
      rw [hcursor] at hrest
      have hpadded : patch (front ++ (old ++ back)) front.length gap =
          front ++ gap ++ (under ++ (last ++ back)) := by
        rw [hold, List.append_assoc, patch_middle _ hfirst.symm, hsecond, List.append_assoc,
          List.append_assoc]
      have hitem : patch (front ++ gap ++ (under ++ (last ++ back))) (alignUp unit front.length)
          (content item) = front ++ gap ++ content item ++ (last ++ back) := by
        rw [← hfront, patch_middle _ hunder.symm, ← List.append_assoc]
      rw [writePacked, ← hgap, hpadded, hitem, hrest, pack, ← hgap]
      simp only [List.append_assoc]

end LibApta.InPlace
