import Mathlib.Data.List.Pairwise
import Mathlib.Order.Basic
import Mathlib.Order.Defs.LinearOrder
import Mathlib.Order.MinMax
import Mathlib.Tactic.Common

/-!
# Sweeping sorted pieces with a cursor

Pieces of a line are half-open intervals, of any kind of value, in increasing order and apart. A sweep
walks them with a cursor, skips what ends at or before it and moves it to the end of a piece it stands
in. The sweep reaches a goal exactly when the pieces contain every point between the start and the goal
(`reaches_iff`).
-/

namespace LibApta.Cover

variable {α β : Type*} [LinearOrder β] (lo hi : α → β)

/-- The point lies in a piece. -/
def Holds (pieces : List α) (x : β) : Prop := ∃ piece ∈ pieces, lo piece ≤ x ∧ x < hi piece

/-- The pieces are in order, each ending before the next starts. -/
def Ascending (pieces : List α) : Prop := pieces.Pairwise fun a b => hi a ≤ lo b

/-- Every point from one bound to another lies in a piece. -/
def Covers (pieces : List α) (a b : β) : Prop := ∀ x, a ≤ x → x < b → Holds lo hi pieces x

/-- Some point from one bound to another lies in a piece. -/
def Meets (pieces : List α) (a b : β) : Prop := ∃ x, a ≤ x ∧ x < b ∧ Holds lo hi pieces x

/-- The sweep from a cursor reaches the goal. -/
def reaches : List α → β → β → Bool
  | [], _, _ => false
  | piece :: rest, cursor, goal =>
      if hi piece ≤ cursor then reaches rest cursor goal
      else if cursor < lo piece then false
      else if goal ≤ hi piece then true
      else reaches rest (hi piece) goal

variable {lo hi}

@[simp] theorem not_holds_nil (x : β) : ¬ Holds lo hi [] x := by
  rintro ⟨_, hmem, -⟩
  cases hmem

theorem not_meets_nil (a b : β) : ¬ Meets lo hi [] a b := fun ⟨x, _, _, hholds⟩ =>
  not_holds_nil x hholds

/-- Covering a stretch that is not empty meets it, at its start. -/
theorem Covers.meets {pieces : List α} {a b : β} (h : Covers lo hi pieces a b) (hab : a < b) :
    Meets lo hi pieces a b := ⟨a, le_rfl, hab, h a le_rfl hab⟩

theorem holds_cons {piece : α} {rest : List α} {x : β} :
    Holds lo hi (piece :: rest) x ↔ (lo piece ≤ x ∧ x < hi piece) ∨ Holds lo hi rest x := by
  simp only [Holds, List.mem_cons, exists_eq_or_imp]

/-- A piece meets a stretch when they overlap and neither is empty. -/
theorem meets_singleton {piece : α} {a b : β} :
    Meets lo hi [piece] a b ↔ max a (lo piece) < min b (hi piece) := by
  constructor
  · rintro ⟨x, ha, hb, hholds⟩
    obtain ⟨hlo, hhi⟩ := (holds_cons.mp hholds).resolve_right (not_holds_nil x)
    exact (max_le ha hlo).trans_lt (lt_min hb hhi)
  · intro h
    obtain ⟨hb, hhi⟩ := lt_min_iff.mp h
    exact ⟨max a (lo piece), le_max_left _ _, hb,
      holds_cons.mpr (.inl ⟨le_max_right _ _, hhi⟩)⟩

/-- A point in front of the end of the first piece lies in it or in none. -/
theorem holds_cons_of_lt {piece : α} {rest : List α} (h : Ascending lo hi (piece :: rest)) {x : β}
    (hx : x < hi piece) : Holds lo hi (piece :: rest) x ↔ lo piece ≤ x := by
  rw [holds_cons]
  constructor
  · rintro (⟨hlo, -⟩ | ⟨other, hmem, hlo, -⟩)
    · exact hlo
    · exact absurd (((List.pairwise_cons.mp h).1 other hmem).trans hlo) (not_le.mpr hx)
  · exact fun hlo => .inl ⟨hlo, hx⟩

/-- A point at or behind the end of the first piece lies in a later piece or in none. -/
theorem holds_cons_of_le {piece : α} {rest : List α} {x : β} (hx : hi piece ≤ x) :
    Holds lo hi (piece :: rest) x ↔ Holds lo hi rest x := by
  rw [holds_cons]
  exact or_iff_right fun h => absurd h.2 (not_lt.mpr hx)

/-- The sweep reaches the goal exactly when every point on the way lies in a piece. -/
theorem reaches_iff {pieces : List α} (h : Ascending lo hi pieces) {cursor goal : β}
    (hgoal : cursor < goal) :
    reaches lo hi pieces cursor goal = true ↔ Covers lo hi pieces cursor goal := by
  induction pieces generalizing cursor with
  | nil =>
      refine iff_of_false Bool.false_ne_true fun hall => ?_
      exact not_holds_nil cursor (hall cursor le_rfl hgoal)
  | cons piece rest ih =>
      obtain ⟨-, hrest⟩ := List.pairwise_cons.mp h
      unfold reaches
      split_ifs with hskip hgap hdone
      · -- The piece lies behind the cursor.
        rw [ih hrest hgoal]
        refine forall_congr' fun x => imp_congr_right fun hx => imp_congr_right fun _ => ?_
        exact (holds_cons_of_le (hskip.trans hx)).symm
      · -- The cursor stands in front of the first piece that is left.
        refine iff_of_false id fun hall => ?_
        have hat := (holds_cons_of_lt h (not_le.mp hskip)).mp (hall cursor le_rfl hgoal)
        exact absurd hat (not_le.mpr hgap)
      · refine iff_of_true rfl fun x hx hxgoal => ?_
        exact (holds_cons_of_lt h (hxgoal.trans_le hdone)).mpr ((not_lt.mp hgap).trans hx)
      · rw [ih hrest (not_le.mp hdone)]
        constructor
        · intro hall x hx hxgoal
          by_cases hin : x < hi piece
          · exact (holds_cons_of_lt h hin).mpr ((not_lt.mp hgap).trans hx)
          · rw [holds_cons_of_le (not_lt.mp hin)]
            exact hall x (not_lt.mp hin) hxgoal
        · intro hall x hx hxgoal
          rw [← holds_cons_of_le hx]
          exact hall x ((not_le.mp hskip).le.trans hx) hxgoal

end LibApta.Cover
