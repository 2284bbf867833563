import Mathlib.Data.List.Basic
import Mathlib.Data.List.InsertIdx

/-!
# Partly filled blocks

A block of memory has room for more entries than it holds, and its entries are its first `count`
cells. Entries are inserted by moving the ones behind a position up, one by one from the last, and a
block that is full is copied to a larger one. Each operation is described by what it leaves of the
first cells (`insertCell_take`, `regrow_take`, `mapFirst_take`); the cells behind them may hold
anything.
-/

namespace LibApta.Block

variable {α β γ : Type} {block : List α} {position count size : ℕ}

/-! ## Insertion -/

/-- Copy the cell below an index up to it. -/
def copyUp (index : ℕ) (block : List α) : List α :=
  match block[index]? with
  | some cell => block.set (index + 1) cell
  | none => block

/-- Move the cells from a position to below `count` up by one, the last one first. -/
def shiftUp (position : ℕ) : ℕ → List α → List α
  | 0, block => block
  | index + 1, block =>
      if position ≤ index then shiftUp position index (copyUp index block) else block

/-- Insert an entry at a position of a block with `count` entries. -/
def insertCell (position count : ℕ) (cell : α) (block : List α) : List α :=
  (shiftUp position count block).set position cell

@[simp] theorem copyUp_length (index : ℕ) (block : List α) :
    (copyUp index block).length = block.length := by
  unfold copyUp
  split
  · rw [List.length_set]
  · rfl

@[simp] theorem shiftUp_length (position count : ℕ) (block : List α) :
    (shiftUp position count block).length = block.length := by
  induction count generalizing block with
  | zero => rfl
  | succ index ih =>
      unfold shiftUp
      split_ifs
      · rw [ih, copyUp_length]
      · rfl

@[simp] theorem insertCell_length (position count : ℕ) (cell : α) (block : List α) :
    (insertCell position count cell block).length = block.length := by
  rw [insertCell, List.length_set, shiftUp_length]

theorem copyUp_getElem? {index : ℕ} (hroom : index + 1 < block.length) (i : ℕ) :
    (copyUp index block)[i]? = if i = index + 1 then block[index]? else block[i]? := by
  have hcell : block[index]? = some block[index] := List.getElem?_eq_getElem (by omega)
  unfold copyUp
  rw [hcell]
  simp only
  rw [List.getElem?_set]
  split_ifs with heq heq' heq'
  · rfl
  · exact absurd heq.symm heq'
  · exact absurd heq'.symm heq
  · rfl

theorem shiftUp_getElem? (hroom : count < block.length) (i : ℕ) :
    (shiftUp position count block)[i]? =
      if position < i ∧ i ≤ count then block[i - 1]? else block[i]? := by
  induction count generalizing block with
  | zero =>
      rw [if_neg (by omega)]
      rfl
  | succ index ih =>
      unfold shiftUp
      split_ifs with hposition hmoved hmoved
      · rw [ih (by rw [copyUp_length]; omega), copyUp_getElem? hroom, copyUp_getElem? hroom]
        split_ifs with h h' h'
        · omega
        · rfl
        · rw [h', Nat.add_sub_cancel]
        · omega
      · rw [ih (by rw [copyUp_length]; omega), copyUp_getElem? hroom, copyUp_getElem? hroom]
        rw [if_neg (by omega), if_neg (by omega)]
      · omega
      · rfl

/-- The entries after an insertion. -/
theorem insertCell_take (hposition : position ≤ count) (hroom : count < block.length) (cell : α) :
    (insertCell position count cell block).take (count + 1) =
      (block.take count).insertIdx position cell := by
  refine List.ext_getElem? fun i => ?_
  rw [List.getElem?_take, insertCell, List.getElem?_set, shiftUp_length, shiftUp_getElem? hroom,
    List.getElem?_insertIdx, List.length_take, List.getElem?_take, List.getElem?_take]
  rcases Nat.lt_trichotomy i position with hlt | rfl | hgt
  · rw [if_pos (by omega), if_neg (by omega), if_neg (by omega), if_pos hlt, if_pos (by omega)]
  · rw [if_pos (by omega), if_pos rfl, if_pos (by omega), if_neg (by omega), if_pos rfl,
      if_pos (by omega)]
  · rw [if_neg (by omega : ¬position = i), if_neg (by omega : ¬i < position),
      if_neg (by omega : ¬i = position)]
    by_cases hi : i < count + 1
    · rw [if_pos hi, if_pos (by omega), if_pos (by omega)]
    · rw [if_neg hi, if_neg (by omega)]

/-! ## Growth and updates -/

/-- Copy the entries to a block of another size, of cells that hold `fill`. -/
def regrow (count size : ℕ) (fill : α) (block : List α) : List α :=
  block.take count ++ List.replicate (size - count) fill

/-- Update all entries. -/
def mapFirst (count : ℕ) (f : α → α) (block : List α) : List α :=
  (block.take count).map f ++ block.drop count

theorem regrow_length (hcount : count ≤ block.length) (hsize : count ≤ size) (fill : α) :
    (regrow count size fill block).length = size := by
  rw [regrow, List.length_append, List.length_take, List.length_replicate]
  omega

theorem regrow_take (hcount : count ≤ block.length) (fill : α) :
    (regrow count size fill block).take count = block.take count :=
  List.take_left' (List.length_take_of_le hcount)

@[simp] theorem mapFirst_length (count : ℕ) (f : α → α) (block : List α) :
    (mapFirst count f block).length = block.length := by
  rw [mapFirst, List.length_append, List.length_map, ← List.length_append, List.take_append_drop]

theorem mapFirst_take (hcount : count ≤ block.length) (f : α → α) :
    (mapFirst count f block).take count = (block.take count).map f :=
  List.take_left' (by rw [List.length_map, List.length_take_of_le hcount])

/-! ## Parallel blocks -/

/-- What is read of the first block only. -/
theorem zipWith_left (g : α → γ) {left : List α} {right : List β}
    (hlength : left.length ≤ right.length) :
    List.zipWith (fun a _ => g a) left right = left.map g := by
  induction left generalizing right with
  | nil => rfl
  | cons x left ih =>
      cases right with
      | nil => cases hlength
      | cons y right =>
          rw [List.zipWith_cons_cons, List.map_cons, ih (Nat.le_of_succ_le_succ hlength)]

/-- Entries inserted at one position of two blocks stay together. -/
theorem zipWith_insertIdx (f : α → β → γ) {left : List α} {right : List β} {position : ℕ}
    (hlength : left.length = right.length) (a : α) (b : β) :
    List.zipWith f (left.insertIdx position a) (right.insertIdx position b) =
      (List.zipWith f left right).insertIdx position (f a b) := by
  induction position generalizing left right with
  | zero => rfl
  | succ position ih =>
      cases left with
      | nil =>
          rw [List.length_nil] at hlength
          rw [List.eq_nil_of_length_eq_zero hlength.symm]
          rfl
      | cons x left =>
          cases right with
          | nil => cases hlength
          | cons y right =>
              rw [List.insertIdx_succ_cons, List.insertIdx_succ_cons, List.zipWith_cons_cons,
                List.zipWith_cons_cons, List.insertIdx_succ_cons, ih (Nat.succ.inj hlength)]

/-- Entries updated at one position of two blocks stay together. -/
theorem zipWith_modify (f : α → β → γ) (g : α → α) (h : β → β) (k : γ → γ)
    (hk : ∀ a b, f (g a) (h b) = k (f a b)) (left : List α) (right : List β) (position : ℕ) :
    List.zipWith f (left.modify position g) (right.modify position h) =
      (List.zipWith f left right).modify position k := by
  induction position generalizing left right with
  | zero =>
      cases left with
      | nil => rfl
      | cons x left =>
          cases right with
          | nil => rfl
          | cons y right => exact congrArg (· :: _) (hk x y)
  | succ position ih =>
      cases left with
      | nil => rfl
      | cons x left =>
          cases right with
          | nil => rfl
          | cons y right => exact congrArg (f x y :: ·) (ih left right)

end LibApta.Block
