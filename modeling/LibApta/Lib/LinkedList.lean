import Mathlib.Data.List.Nodup
import Mathlib.Logic.Function.Basic

/-!
# Linked lists

Cells hold a link to the next one, and `Segment` says which cells a walk along the links visits
before it comes to a given link. Changing the link of a cell that a walk does not visit leaves the
walk (`Segment.update`). An insertion sort relinks all cells in place, where each cell goes before the
first one it beats. `sortLinks_segment` says that the sort links the list that the same
insertions make of a list.
-/

namespace LibApta.LinkedList

variable {α : Type} [DecidableEq α]

/-- A walk from one link visits the cells of a list and comes to another link. -/
def Segment (next : α → Option α) : Option α → List α → Option α → Prop
  | start, [], stop => start = stop
  | start, cell :: rest, stop => start = some cell ∧ Segment next (next cell) rest stop

namespace Segment

variable {next : α → Option α} {start stop : Option α} {cells left right : List α} {cell : α}

omit [DecidableEq α] in
@[simp] theorem nil_iff : Segment next start [] stop ↔ start = stop := Iff.rfl

omit [DecidableEq α] in
@[simp] theorem cons_iff :
    Segment next start (cell :: cells) stop ↔
      start = some cell ∧ Segment next (next cell) cells stop := Iff.rfl

omit [DecidableEq α] in
theorem append_iff :
    Segment next start (left ++ right) stop ↔
      ∃ middle, Segment next start left middle ∧ Segment next middle right stop := by
  induction left generalizing start with
  | nil => simp
  | cons cell rest ih => simp [ih, and_assoc]

omit [DecidableEq α] in
/-- A walk to the end starts at the first cell. -/
theorem start_eq (h : Segment next start cells none) : start = cells.head? := by
  cases cells with
  | nil => exact h
  | cons cell rest => exact h.1

omit [DecidableEq α] in
/-- A walk reads the links of the cells it visits and no others. -/
theorem congr {next' : α → Option α} (h : Segment next start cells stop)
    (hsame : ∀ cell ∈ cells, next' cell = next cell) : Segment next' start cells stop := by
  induction cells generalizing start with
  | nil => exact h
  | cons cell rest ih =>
      refine ⟨h.1, ?_⟩
      rw [hsame cell (List.mem_cons_self ..)]
      exact ih h.2 fun other hother => hsame other (List.mem_cons_of_mem _ hother)

/-- The frame rule: the link of a cell that is not visited does not matter. -/
theorem update (h : Segment next start cells stop) (hcell : cell ∉ cells) (link : Option α) :
    Segment (Function.update next cell link) start cells stop :=
  h.congr fun _ hother => Function.update_of_ne (ne_of_mem_of_not_mem hother hcell) ..

end Segment

/-! ## The last cell -/

/-- Walk to the last cell. -/
def last (next : α → Option α) : ℕ → α → α
  | 0, cell => cell
  | fuel + 1, cell =>
      match next cell with
      | none => cell
      | some following => last next fuel following

omit [DecidableEq α] in
theorem last_eq {next : α → Option α} {head : α} {rest : List α} {fuel : ℕ}
    (h : Segment next (next head) rest none) (hfuel : rest.length ≤ fuel) :
    (head :: rest).getLast? = some (last next fuel head) := by
  induction rest generalizing head fuel with
  | nil =>
      cases fuel with
      | zero => rfl
      | succ fuel => rw [last, show next head = none from h]; rfl
  | cons following rest ih =>
      obtain ⟨fuel, rfl⟩ := Nat.exists_eq_succ_of_ne_zero (Nat.ne_of_gt (Nat.lt_of_lt_of_le
        (Nat.succ_pos _) hfuel))
      rw [last, h.1, List.getLast?_cons_cons]
      exact ih h.2 (Nat.le_of_succ_le_succ hfuel)

omit [DecidableEq α] in
/-- The walk along all cells ends at the last one. -/
theorem map_last_eq {next : α → Option α} {head : Option α} {cells : List α} {fuel : ℕ}
    (h : Segment next head cells none) (hfuel : cells.length ≤ fuel) :
    head.map (last next fuel) = cells.getLast? := by
  cases cells with
  | nil => rw [show head = none from h]; rfl
  | cons cell rest => rw [h.1, last_eq h.2 (Nat.le_of_succ_le hfuel)]; rfl

/-! ## Insertion -/

section Insertion

variable (better : α → α → Bool)

/-- Insert an element before the first one it beats. -/
def insertBefore (cell : α) : List α → List α
  | [] => [cell]
  | head :: rest =>
      if better cell head then cell :: head :: rest else head :: insertBefore cell rest

/-- The last cell of a walk before one that the new cell beats, or before the end. -/
def seek (next : α → Option α) (cell : α) : ℕ → α → α
  | 0, position => position
  | fuel + 1, position =>
      match next position with
      | none => position
      | some following =>
          if better cell following then position else seek next cell fuel following

/-- Link a cell into a list, before the first cell it beats. -/
def place (fuel : ℕ) (cell : α) (sorted : Option α) (next : α → Option α) :
    Option α × (α → Option α) :=
  match sorted with
  | none => (some cell, Function.update next cell none)
  | some head =>
      if better cell head then (some cell, Function.update next cell (some head))
      else
        let position := seek better next cell fuel head
        (some head, Function.update (Function.update next cell (next position)) position (some cell))

/-- Take the cells of a list one after the other and place them in a second one; `reach` bounds the
walks for the places. -/
def sortLinks (reach : ℕ) :
    ℕ → Option α → Option α → (α → Option α) → Option α × (α → Option α)
  | 0, _, sorted, next => (sorted, next)
  | _ + 1, none, sorted, next => (sorted, next)
  | fuel + 1, some cell, sorted, next =>
      let placed := place better reach cell sorted next
      sortLinks reach fuel (next cell) placed.1 placed.2

variable {better} {next : α → Option α} {cell : α} {fuel : ℕ}

omit [DecidableEq α] in
theorem insertBefore_perm (cell : α) (cells : List α) :
    (insertBefore better cell cells).Perm (cell :: cells) := by
  induction cells with
  | nil => exact .refl _
  | cons head rest ih =>
      unfold insertBefore
      split_ifs
      · exact .refl _
      · exact (ih.cons head).trans (.swap cell head rest)

omit [DecidableEq α] in
/-- The cell goes behind the cell that the walk stops at. -/
theorem seek_splits (better : α → α → Bool) (cell : α) {head : α} {rest : List α} (h : Segment next (next head) rest none)
    (hfuel : rest.length ≤ fuel) :
    ∃ left right, head :: rest = left ++ seek better next cell fuel head :: right ∧
      head :: insertBefore better cell rest =
        left ++ seek better next cell fuel head :: cell :: right := by
  induction rest generalizing head fuel with
  | nil =>
      have hstop : seek better next cell fuel head = head := by
        cases fuel with
        | zero => rfl
        | succ fuel => rw [seek, show next head = none from h]
      exact ⟨[], [], by rw [hstop]; rfl, by rw [hstop]; rfl⟩
  | cons following rest ih =>
      obtain ⟨fuel, rfl⟩ := Nat.exists_eq_succ_of_ne_zero (Nat.ne_of_gt (Nat.lt_of_lt_of_le
        (Nat.succ_pos _) hfuel))
      rw [seek, h.1, insertBefore]
      simp only
      split_ifs
      · exact ⟨[], following :: rest, rfl, rfl⟩
      · obtain ⟨left, right, hcells, hplaced⟩ := ih h.2 (Nat.le_of_succ_le_succ hfuel)
        exact ⟨head :: left, right, by rw [hcells]; rfl, by rw [hplaced]; rfl⟩

/-- Placing a cell links the list with the cell inserted, and changes no link outside of it. -/
theorem place_segment (better : α → α → Bool) {sorted : Option α} {cells : List α} (h : Segment next sorted cells none)
    (hnodup : (cell :: cells).Nodup) (hfuel : cells.length ≤ fuel + 1) :
    Segment (place better fuel cell sorted next).2 (place better fuel cell sorted next).1
        (insertBefore better cell cells) none ∧
      ∀ other ∉ cell :: cells, (place better fuel cell sorted next).2 other = next other := by
  obtain ⟨hcell, hcells⟩ := List.nodup_cons.mp hnodup
  cases cells with
  | nil =>
      obtain rfl : sorted = none := h
      refine ⟨⟨rfl, Function.update_self ..⟩, fun other hother => ?_⟩
      exact Function.update_of_ne (List.ne_of_not_mem_cons hother) ..
  | cons head rest =>
      have hhead := h
      obtain ⟨rfl, hrest⟩ := h
      unfold place insertBefore
      simp only
      split_ifs with hbetter
      · simp only
        refine ⟨⟨rfl, ?_⟩, fun other hother => ?_⟩
        · rw [Function.update_self]
          exact hhead.update hcell _
        · exact Function.update_of_ne (List.ne_of_not_mem_cons hother) ..
      · obtain ⟨left, right, hsplit, hplaced⟩ :=
          seek_splits better cell hrest (Nat.le_of_succ_le_succ hfuel)
        simp only
        generalize seek better next cell fuel head = position at hsplit hplaced ⊢
        rw [hplaced]
        have hwhole : Segment next (some head) (left ++ position :: right) none :=
          hsplit ▸ hhead
        rw [hsplit] at hcell hcells ⊢
        obtain ⟨-, hright, happart⟩ := List.nodup_append.mp hcells
        have hposition : position ∉ left := fun hmem =>
          happart _ hmem _ (List.mem_cons_self ..) rfl
        have hne : cell ≠ position := fun heq => hcell (heq ▸ List.mem_append_cons_self)
        obtain ⟨middle, hleft, hmiddle, hbehind⟩ := Segment.append_iff.mp hwhole
        refine ⟨Segment.append_iff.mpr ⟨middle, ?_, hmiddle, ?_⟩, fun other hother => ?_⟩
        · exact (hleft.update (fun hmem => hcell (List.mem_append_left _ hmem)) _).update hposition _
        · rw [Function.update_self]
          refine ⟨rfl, ?_⟩
          rw [Function.update_of_ne hne, Function.update_self]
          exact (hbehind.update (fun hmem => hcell
            (List.mem_append_right _ (List.mem_cons_of_mem _ hmem))) _).update
              (List.nodup_cons.mp hright).1 _
        · obtain ⟨hfresh, hold⟩ := not_or.mp (mt List.mem_cons.mpr hother)
          rw [Function.update_of_ne (ne_of_mem_of_not_mem List.mem_append_cons_self hold).symm,
            Function.update_of_ne hfresh]

/-- The sort links the list that inserting the cells one after the other makes. -/
theorem sortLinks_segment (better : α → α → Bool) {reach : ℕ} {source sorted : Option α} {todo cells : List α}
    (hsource : Segment next source todo none) (hsorted : Segment next sorted cells none)
    (hnodup : (todo ++ cells).Nodup) (hreach : (todo ++ cells).length ≤ reach)
    (hfuel : todo.length ≤ fuel) :
    Segment (sortLinks better reach fuel source sorted next).2
        (sortLinks better reach fuel source sorted next).1
        (todo.foldl (fun cells cell => insertBefore better cell cells) cells) none ∧
      ∀ other ∉ todo ++ cells,
        (sortLinks better reach fuel source sorted next).2 other = next other := by
  induction todo generalizing fuel source sorted cells next with
  | nil =>
      obtain rfl : source = none := hsource
      cases fuel with
      | zero => exact ⟨hsorted, fun _ _ => rfl⟩
      | succ fuel => exact ⟨hsorted, fun _ _ => rfl⟩
  | cons cell rest ih =>
      obtain ⟨rfl, hrest⟩ := hsource
      obtain ⟨fuel, rfl⟩ := Nat.exists_eq_succ_of_ne_zero (Nat.ne_of_gt (Nat.lt_of_lt_of_le
        (Nat.succ_pos _) hfuel))
      obtain ⟨hcell, hothers⟩ := List.nodup_cons.mp hnodup
      obtain ⟨-, hcells, happart⟩ := List.nodup_append.mp hothers
      have hperm : (rest ++ insertBefore better cell cells).Perm (cell :: rest ++ cells) :=
        ((insertBefore_perm cell cells).append_left rest).trans List.perm_middle
      obtain ⟨hplaced, hkept⟩ := place_segment better hsorted
        (List.nodup_cons.mpr ⟨fun hmem => hcell (List.mem_append_right _ hmem), hcells⟩)
        (show cells.length ≤ reach + 1 by rw [List.length_append] at hreach; omega)
      -- The cells still to be placed lie outside of the list that the cell was placed in.
      have hrest' : Segment (place better reach cell sorted next).2 (next cell) rest none := by
        refine hrest.congr fun other hother => hkept other fun hmem => ?_
        rcases List.mem_cons.mp hmem with rfl | hmem
        · exact hcell (List.mem_append_left _ hother)
        · exact happart other hother other hmem rfl
      obtain ⟨hdone, hframe⟩ := ih hrest' hplaced (hperm.nodup_iff.mpr hnodup)
        (hperm.length_eq ▸ hreach) (Nat.le_of_succ_le_succ hfuel)
      refine ⟨hdone, fun other hother => ?_⟩
      have hout : other ∉ cell :: cells := fun hmem => hother (by
        rcases List.mem_cons.mp hmem with rfl | hmem
        · exact List.mem_cons_self ..
        · exact List.mem_append_right _ hmem)
      rw [sortLinks, hframe other fun hmem => hother (hperm.mem_iff.mp hmem)]
      exact hkept other hout

end Insertion

end LibApta.LinkedList
