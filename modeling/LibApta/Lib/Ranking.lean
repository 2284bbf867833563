import Mathlib.Data.List.Basic
import Mathlib.Order.Basic
import Mathlib.Order.Lattice

/-!
# Keeping the best of a list

Elements arrive one by one, each is inserted before the first one it beats, and a table of `k` places
drops what falls off its end. `keepBest_foldl` says what the table holds in the end: the first `k` of
the ranking of all that has arrived, which lists the elements by falling score and, among equal
scores, in the order of arrival.
-/

namespace LibApta.Ranking

variable {α σ : Type} [LinearOrder σ] (score : α → σ)

/-- Insert an element before the first one it beats. -/
def insertBest (x : α) : List α → List α
  | [] => [x]
  | best :: rest =>
      if score best < score x then x :: best :: rest else best :: insertBest x rest

/-- Insert an element into a table of `k` places. -/
def keepBest (k : ℕ) (best : List α) (x : α) : List α := (insertBest score x best).take k

/-- The list is in falling order of score. -/
def Falling (xs : List α) : Prop := xs.Pairwise fun x y => score y ≤ score x

/-- A list ranks another one: it holds the same elements by falling score, and those of one score in
their order. -/
structure Ranks (xs ranked : List α) : Prop where
  perm : ranked.Perm xs
  falling : Falling score ranked
  ties : ∀ c, ranked.filter (fun x => score x = c) = xs.filter (fun x => score x = c)

variable {score}

theorem insertBest_cons (x best : α) (rest : List α) :
    insertBest score x (best :: rest) =
      if score best < score x then x :: best :: rest else best :: insertBest score x rest := rfl

theorem insertBest_perm (x : α) (xs : List α) : (insertBest score x xs).Perm (x :: xs) := by
  induction xs with
  | nil => exact .refl _
  | cons best rest ih =>
      rw [insertBest_cons]
      split_ifs
      · exact .refl _
      · exact (ih.cons best).trans (.swap x best rest)

theorem insertBest_falling {x : α} {xs : List α} (h : Falling score xs) :
    Falling score (insertBest score x xs) := by
  induction xs with
  | nil => exact List.pairwise_singleton _ _
  | cons best rest ih =>
      obtain ⟨hbest, hrest⟩ := List.pairwise_cons.mp h
      rw [insertBest_cons]
      split_ifs with hlt
      · refine List.pairwise_cons.mpr ⟨List.forall_mem_cons.mpr ⟨hlt.le, ?_⟩, h⟩
        exact fun y hy => (hbest y hy).trans hlt.le
      · refine List.pairwise_cons.mpr ⟨fun y hy => ?_, ih hrest⟩
        rcases List.mem_cons.mp ((insertBest_perm x rest).mem_iff.mp hy) with rfl | hy
        · exact not_lt.mp hlt
        · exact hbest y hy

/-- An element goes behind all that have its score. -/
theorem insertBest_ties {x : α} {xs : List α} (h : Falling score xs) (c : σ) :
    (insertBest score x xs).filter (fun y => score y = c) =
      (xs ++ [x]).filter (fun y => score y = c) := by
  induction xs with
  | nil => rfl
  | cons best rest ih =>
      obtain ⟨hbest, hrest⟩ := List.pairwise_cons.mp h
      rw [insertBest_cons]
      split_ifs with hlt
      · rw [List.filter_append, List.filter_cons, List.filter_singleton]
        by_cases hx : score x = c
        · have hnone : (best :: rest).filter (fun y => score y = c) = [] := by
            refine List.filter_eq_nil_iff.mpr (List.forall_mem_cons.mpr ⟨?_, fun y hy => ?_⟩)
            · simpa [← hx] using hlt.ne
            · simpa [← hx] using ((hbest y hy).trans_lt hlt).ne
          rw [hnone]
          simp [hx]
        · simp [hx]
      · rw [List.cons_append, List.filter_cons, List.filter_cons, ih hrest]

/-- The table after an insertion does not depend on what lies behind it. -/
theorem keepBest_take (k : ℕ) (xs : List α) (x : α) :
    keepBest score k (xs.take k) x = (insertBest score x xs).take k := by
  induction xs generalizing k with
  | nil => rw [List.take_nil, keepBest]
  | cons best rest ih =>
      cases k with
      | zero => rfl
      | succ k =>
          rw [List.take_succ_cons, keepBest, insertBest_cons, insertBest_cons]
          split_ifs
          · rw [List.take_succ_cons, List.take_succ_cons]
            cases k with
            | zero => rfl
            | succ k => rw [List.take_succ_cons, List.take_succ_cons, List.take_take,
                Nat.min_eq_left k.le_succ]
          · rw [List.take_succ_cons, List.take_succ_cons]
            exact congrArg (best :: ·) (ih k)

/-- The ranking of a list, by inserting its elements one by one. -/
theorem foldl_insertBest_ranks (xs earlier ranked : List α) (h : Ranks score earlier ranked) :
    Ranks score (earlier ++ xs) (xs.foldl (fun ranked x => insertBest score x ranked) ranked) := by
  induction xs generalizing earlier ranked with
  | nil => rwa [List.append_nil]
  | cons x rest ih =>
      rw [List.foldl_cons, List.append_cons]
      refine ih _ _ ⟨?_, insertBest_falling h.falling, fun c => ?_⟩
      · exact (insertBest_perm x ranked).trans
          ((h.perm.cons x).trans (List.perm_append_singleton x earlier).symm)
      · rw [insertBest_ties h.falling, List.filter_append, List.filter_append, h.ties]

/-- The table holds the first places of the ranking of all that has arrived. -/
theorem keepBest_foldl (k : ℕ) (xs : List α) :
    ∃ ranked, Ranks score xs ranked ∧ xs.foldl (keepBest score k) [] = ranked.take k := by
  refine ⟨_, foldl_insertBest_ranks xs [] [] ⟨.refl _, .nil, fun _ => rfl⟩, ?_⟩
  have hfold : ∀ ranked : List α, xs.foldl (keepBest score k) (ranked.take k) =
      (xs.foldl (fun ranked x => insertBest score x ranked) ranked).take k := by
    induction xs with
    | nil => exact fun ranked => rfl
    | cons x rest ih =>
        intro ranked
        rw [List.foldl_cons, List.foldl_cons, keepBest_take, ih]
  have hempty := hfold []
  rwa [List.take_nil] at hempty

end LibApta.Ranking
