import Mathlib.Data.List.Forall2

/-!
# Lists related element by element

A table whose slots are rewritten in place is related slot by slot to the table before. The rules for
`List.Forall₂` that such tables use: equality of images, writing one slot, composition, and the slot
that an element comes from.
-/

namespace LibApta.Pointwise

open List

variable {α β γ : Type}

/-- Tables with equal images are related by that equality. -/
theorem of_map_eq {f : α → γ} {g : β → γ} {l : List α} {l' : List β} (h : l'.map g = l.map f) :
    Forall₂ (fun a b => g b = f a) l l' := by
  have heq : Forall₂ (· = ·) (l'.map g) (l.map f) := by
    rw [forall₂_eq_eq_eq]
    exact h
  rw [forall₂_map_left_iff, forall₂_map_right_iff] at heq
  exact heq.flip

/-- A table is related to its image. -/
theorem to_map {R : α → β → Prop} {f : α → β} {l : List α} (h : ∀ a ∈ l, R a (f a)) :
    Forall₂ R l (l.map f) := by
  rw [forall₂_map_right_iff, forall₂_same]
  exact h

/-- Every element of the second table comes from one of the first. -/
theorem exists_left {R : α → β → Prop} {l : List α} {l' : List β} (h : Forall₂ R l l') {b : β}
    (hb : b ∈ l') : ∃ a ∈ l, R a b := by
  induction h with
  | nil => cases hb
  | @cons a _ _ _ hR _ ih =>
      rcases List.mem_cons.mp hb with rfl | hb
      · exact ⟨a, List.mem_cons_self, hR⟩
      · obtain ⟨a', ha', hR'⟩ := ih hb
        exact ⟨a', List.mem_cons_of_mem _ ha', hR'⟩

/-- The related elements are elements of the tables. -/
theorem with_mem {R : α → β → Prop} {l : List α} {l' : List β} (h : Forall₂ R l l') :
    Forall₂ (fun a b => a ∈ l ∧ R a b) l l' := by
  rw [forall₂_iff_zip]
  exact ⟨h.length_eq, fun hzip => ⟨(List.of_mem_zip hzip).1, forall₂_zip h hzip⟩⟩

/-- Relations of consecutive tables compose. -/
theorem trans {R : α → β → Prop} {S : β → γ → Prop} {T : α → γ → Prop}
    (hT : ∀ a b c, R a b → S b c → T a c) {l : List α} {l' : List β} {l'' : List γ}
    (h : Forall₂ R l l') (h' : Forall₂ S l' l'') : Forall₂ T l l'' := by
  induction h generalizing l'' with
  | nil =>
      cases h'
      exact .nil
  | cons hR _ ih =>
      cases h' with
      | cons hS htail => exact .cons (hT _ _ _ hR hS) (ih htail)

/-- Writing a slot relates it to the one before, and the others to themselves. -/
theorem set {R : α → α → Prop} {l : List α} (hrefl : ∀ a ∈ l, R a a) {i : ℕ} {old new : α}
    (hold : l[i]? = some old) (hR : R old new) : Forall₂ R l (l.set i new) := by
  induction l generalizing i with
  | nil => exact .nil
  | cons head rest ih =>
      obtain ⟨hhead, hrest⟩ := List.forall_mem_cons.mp hrefl
      cases i with
      | zero =>
          obtain rfl : head = old := Option.some.inj hold
          exact .cons hR (forall₂_same.mpr hrest)
      | succ i => exact .cons hhead (ih hrest hold)

end LibApta.Pointwise
