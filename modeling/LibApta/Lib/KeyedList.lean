import Mathlib.Tactic.Common
import LibApta.Lib.BinarySearch

/-!
# Lists sorted by a key

A list whose keys increase strictly is a finite map. An entry is found, inserted or modified at the
lower bound of its key, and each of these operations is the map operation of that name: `lookup`
after it is given by an equation for the key it was done at, and is unchanged at every other key.
-/

namespace LibApta.KeyedList

variable {α : Type}

/-- The keys of a list increase strictly. -/
def Sorted (key : α → ℕ) (l : List α) : Prop := (l.map key).Pairwise (· < ·)

/-- The entry of a key. -/
def lookup (key : α → ℕ) (l : List α) (k : ℕ) : Option α := l.find? fun a => decide (key a = k)

/-- The lower bound of a key. -/
def position (key : α → ℕ) (l : List α) (k : ℕ) : ℕ :=
  lowerBound (fun index => decide (((l.map key).getD index 0) < k)) 0 l.length

variable {key : α → ℕ} {l : List α}

theorem sorted_nil : Sorted key [] := List.Pairwise.nil

theorem sorted_cons {a : α} {rest : List α} :
    Sorted key (a :: rest) ↔ (∀ b ∈ rest, key a < key b) ∧ Sorted key rest := by
  simp [Sorted]

/-- Sortedness of a concatenation around an entry. -/
theorem sorted_append_cons {pre post : List α} {a : α} :
    Sorted key (pre ++ a :: post) ↔
      Sorted key pre ∧ Sorted key post ∧ (∀ b ∈ pre, key b < key a) ∧
        (∀ b ∈ post, key a < key b) ∧ ∀ b ∈ pre, ∀ c ∈ post, key b < key c := by
  simp only [Sorted, List.map_append, List.map_cons, List.pairwise_append, List.pairwise_cons,
    List.mem_cons, List.mem_map]
  constructor
  · rintro ⟨hpre, ⟨ha, hpost⟩, hcross⟩
    exact ⟨hpre, hpost, fun b hb => hcross _ ⟨b, hb, rfl⟩ _ (.inl rfl),
      fun b hb => ha _ ⟨b, hb, rfl⟩, fun b hb c hc => hcross _ ⟨b, hb, rfl⟩ _ (.inr ⟨c, hc, rfl⟩)⟩
  · rintro ⟨hpre, hpost, hbefore, hafter, hcross⟩
    refine ⟨hpre, ⟨?_, hpost⟩, ?_⟩
    · rintro _ ⟨b, hb, rfl⟩
      exact hafter b hb
    · rintro _ ⟨b, hb, rfl⟩ _ (rfl | ⟨c, hc, rfl⟩)
      · exact hbefore b hb
      · exact hcross b hb c hc

/-- The lower bound of a key splits a sorted list. -/
theorem exists_split (hs : Sorted key l) (k : ℕ) :
    ∃ pre post, l = pre ++ post ∧ position key l k = pre.length ∧
      (∀ a ∈ pre, key a < k) ∧ ∀ a ∈ post, k ≤ key a := by
  have hpos : position key l k =
      lowerBound (fun index => decide (((l.map key).getD index 0) < k)) 0 (l.map key).length := by
    rw [List.length_map, position]
  obtain ⟨hle, hsep⟩ := lowerBound_sorted hs k
  rw [← hpos, List.length_map] at hle
  rw [← hpos] at hsep
  refine ⟨l.take (position key l k), l.drop (position key l k), (List.take_append_drop _ _).symm,
    by rw [List.length_take]; omega, fun a ha => ?_, fun a ha => ?_⟩
  · obtain ⟨i, hi, rfl⟩ := List.mem_iff_getElem.mp ha
    rw [List.length_take] at hi
    have hlt := (hsep i (by rw [List.length_map]; omega)).mp (by omega)
    simpa using hlt
  · obtain ⟨i, hi, rfl⟩ := List.mem_iff_getElem.mp ha
    rw [List.length_drop] at hi
    have hnot := (hsep (position key l k + i) (by rw [List.length_map]; omega)).not.mp (by omega)
    simpa using hnot

/-- The lookup of a key in a split list. -/
theorem lookup_append {pre post : List α} {k : ℕ} (hpre : ∀ a ∈ pre, key a ≠ k) :
    lookup key (pre ++ post) k = lookup key post k := by
  unfold lookup
  rw [List.find?_append, List.find?_eq_none.mpr (by simpa using hpre), Option.none_or]

/-- A key below every key of a list is not found. -/
theorem lookup_eq_none {k : ℕ} (h : ∀ a ∈ l, key a ≠ k) : lookup key l k = none :=
  List.find?_eq_none.mpr (by simpa using h)

/-- What is found is in the list and has the key. -/
theorem lookup_some {k : ℕ} {a : α} (h : lookup key l k = some a) : a ∈ l ∧ key a = k :=
  ⟨List.mem_of_find?_eq_some h, by simpa using List.find?_some h⟩

/-- An entry of a sorted list is found under its key. -/
theorem lookup_of_mem (hs : Sorted key l) {a : α} (ha : a ∈ l) : lookup key l (key a) = some a := by
  obtain ⟨pre, post, rfl⟩ := List.append_of_mem ha
  obtain ⟨-, -, hbefore, -, -⟩ := sorted_append_cons.mp hs
  rw [lookup_append fun b hb => (hbefore b hb).ne]
  simp [lookup]

/-- A sorted list is determined by its lookups. -/
theorem ext_lookup {l' : List α} (hs : Sorted key l) (hs' : Sorted key l')
    (h : ∀ k, lookup key l k = lookup key l' k) : l = l' := by
  induction l generalizing l' with
  | nil =>
      cases l' with
      | nil => rfl
      | cons b rest =>
          have hb := h (key b)
          rw [lookup_of_mem hs' List.mem_cons_self] at hb
          simp [lookup] at hb
  | cons a rest ih =>
      cases l' with
      | nil =>
          have ha := h (key a)
          rw [lookup_of_mem hs List.mem_cons_self] at ha
          simp [lookup] at ha
      | cons b rest' =>
          -- The heads have the least keys of both lists.
          have hmemA : a ∈ b :: rest' :=
            (lookup_some ((h (key a)).symm.trans (lookup_of_mem hs List.mem_cons_self))).1
          have hmemB : b ∈ a :: rest :=
            (lookup_some ((h (key b)).trans (lookup_of_mem hs' List.mem_cons_self))).1
          obtain ⟨hminA, hrest⟩ := sorted_cons.mp hs
          obtain ⟨hminB, hrest'⟩ := sorted_cons.mp hs'
          have hab : a = b := by
            rcases List.mem_cons.mp hmemA with hab | ha
            · exact hab
            · rcases List.mem_cons.mp hmemB with hba | hb
              · exact hba.symm
              · have h₁ := hminB a ha
                have h₂ := hminA b hb
                omega
          subst hab
          congr 1
          refine ih hrest hrest' fun k => ?_
          by_cases hk : key a = k
          · subst hk
            rw [lookup_eq_none fun c hc => (hminA c hc).ne', lookup_eq_none fun c hc => (hminB c hc).ne']
          · simpa [lookup, List.find?_cons, hk] using h k

/-- A list that has gained one entry, behind all others, has it at its end. -/
theorem eq_append_of_lookup {l' : List α} {a : α} (hs : Sorted key l) (hs' : Sorted key l')
    (hbehind : ∀ b ∈ l, key b < key a)
    (h : ∀ k, lookup key l' k = if key a = k then some a else lookup key l k) : l' = l ++ [a] := by
  have happended : Sorted key (l ++ [a]) :=
    sorted_append_cons.mpr ⟨hs, sorted_nil, hbehind, by simp, by simp⟩
  refine ext_lookup hs' happended fun k => ?_
  rw [h k]
  by_cases hk : key a = k
  · subst hk
    rw [if_pos rfl, lookup_append fun b hb => (hbehind b hb).ne]
    simp [lookup]
  · rw [if_neg hk, lookup, lookup, List.find?_append]
    simp [hk]

/-- The key stands at its lower bound exactly when it is found. -/
theorem getElem?_position (hs : Sorted key l) (k : ℕ) :
    l[position key l k]? = lookup key l k ∨
      (lookup key l k = none ∧ ∀ a, l[position key l k]? = some a → key a ≠ k) := by
  obtain ⟨pre, post, rfl, hpos, hlt, hge⟩ := exists_split hs k
  rw [hpos, List.getElem?_append_right le_rfl, Nat.sub_self,
    lookup_append fun a ha => (hlt a ha).ne]
  cases post with
  | nil => exact .inl rfl
  | cons b rest =>
      by_cases hb : key b = k
      · exact .inl (by simp [lookup, hb])
      · refine .inr ⟨?_, ?_⟩
        · obtain ⟨-, -, -, hafter, -⟩ := sorted_append_cons.mp hs
          refine lookup_eq_none fun c hc => ?_
          rcases List.mem_cons.mp hc with rfl | hc
          · exact hb
          · have h₁ := hge b List.mem_cons_self
            have h₂ := hafter c hc
            omega
        · intro a ha
          obtain rfl : b = a := by simpa using ha
          exact hb

/-- The key is read at its lower bound exactly when an entry has it. -/
theorem getElem?_map_position (hs : Sorted key l) (k : ℕ) :
    (l.map key)[position key l k]? = some k ↔ (lookup key l k).isSome := by
  rw [List.getElem?_map, Option.map_eq_some_iff]
  obtain heq | ⟨hnone, hother⟩ := getElem?_position hs k
  · rw [heq, Option.isSome_iff_exists]
    exact exists_congr fun a => and_iff_left_of_imp fun ha => (lookup_some ha).2
  · rw [hnone]
    refine iff_of_false ?_ Bool.false_ne_true
    rintro ⟨a, ha, hkey⟩
    exact hother a ha hkey

private theorem insertIdx_append {pre post : List α} {a : α} :
    (pre ++ post).insertIdx pre.length a = pre ++ a :: post := by
  induction pre with
  | nil => simp
  | cons b rest ih => simpa using ih

/-- Modifying the entry behind a part of a list. -/
theorem modify_append {pre post : List α} {b : α} {f : α → α} :
    (pre ++ b :: post).modify pre.length f = pre ++ f b :: post := by
  induction pre with
  | nil => simp
  | cons c rest ih => simpa using ih

/-- The list before and behind the entry at a position. -/
theorem split_at {i : ℕ} {a : α} (hget : l[i]? = some a) :
    ∃ pre post, l = pre ++ a :: post ∧ pre.length = i := by
  obtain ⟨hi, hai⟩ := List.getElem?_eq_some_iff.mp hget
  exact ⟨l.take i, l.drop (i + 1), by rw [← hai, List.getElem_cons_drop, List.take_append_drop],
    by rw [List.length_take]; omega⟩

/-- Modifying an entry moves the number of entries with a property by that entry. -/
theorem countP_modify {p : α → Bool} {f : α → α} {i : ℕ} {a : α} (hget : l[i]? = some a) :
    (l.modify i f).countP p + (if p a then 1 else 0) = l.countP p + if p (f a) then 1 else 0 := by
  obtain ⟨pre, post, rfl, rfl⟩ := split_at hget
  rw [modify_append, List.countP_append, List.countP_append, List.countP_cons, List.countP_cons]
  omega

/-- Inserting an entry whose key is not in the list, at its lower bound. -/
theorem insert_spec (hs : Sorted key l) {a : α} (hnew : lookup key l (key a) = none) :
    Sorted key (l.insertIdx (position key l (key a)) a) ∧
      (l.insertIdx (position key l (key a)) a)[position key l (key a)]? = some a ∧
        ∀ k, lookup key (l.insertIdx (position key l (key a)) a) k =
          if key a = k then some a else lookup key l k := by
  obtain ⟨pre, post, rfl, hpos, hlt, hge⟩ := exists_split hs (key a)
  rw [hpos, insertIdx_append]
  have hgt : ∀ b ∈ post, key a < key b := fun b hb => by
    refine lt_of_le_of_ne (hge b hb) fun heq => ?_
    have hmem : b ∈ pre ++ post := List.mem_append_right _ hb
    have := lookup_of_mem hs hmem
    rw [← heq, hnew] at this
    exact absurd this (by simp)
  have hsort := hs
  rw [Sorted, List.map_append, List.pairwise_append] at hsort
  refine ⟨sorted_append_cons.mpr ⟨hsort.1, hsort.2.1, hlt, hgt, fun b hb c hc =>
    (hlt b hb).trans (hgt c hc)⟩, by simp, fun k => ?_⟩
  by_cases hk : key a = k
  · subst hk
    rw [if_pos rfl, lookup_append fun b hb => (hlt b hb).ne]
    simp [lookup]
  · rw [if_neg hk]
    unfold lookup
    rw [List.find?_append, List.find?_append, List.find?_cons]
    simp [hk]

/-- Modifying the entry that stands at a position, keeping its key. -/
theorem modify_spec (hs : Sorted key l) {f : α → α} (hf : ∀ a, key (f a) = key a) {i : ℕ} {a : α}
    (hget : l[i]? = some a) :
    Sorted key (l.modify i f) ∧
      ∀ k, lookup key (l.modify i f) k = if key a = k then some (f a) else lookup key l k := by
  obtain ⟨pre, post, rfl, rfl⟩ := split_at hget
  rw [modify_append]
  obtain ⟨hpre, hpost, hbefore, hafter, hcross⟩ := sorted_append_cons.mp hs
  refine ⟨sorted_append_cons.mpr ⟨hpre, hpost, ?_, ?_, hcross⟩, fun k => ?_⟩
  · simpa [hf] using hbefore
  · simpa [hf] using hafter
  · by_cases hk : key a = k
    · subst hk
      rw [if_pos rfl, lookup_append fun b hb => (hbefore b hb).ne]
      simp [lookup, hf]
    · rw [if_neg hk]
      unfold lookup
      rw [List.find?_append, List.find?_append, List.find?_cons, List.find?_cons]
      simp [hk, hf]

/-- Mapping every entry, keeping the keys. -/
theorem map_spec (hs : Sorted key l) {f : α → α} (hf : ∀ a, key (f a) = key a) :
    Sorted key (l.map f) ∧ ∀ k, lookup key (l.map f) k = (lookup key l k).map f := by
  refine ⟨by simpa [Sorted, Function.comp_def, hf] using hs, fun k => ?_⟩
  unfold lookup
  rw [List.find?_map]
  simp [Function.comp_def, hf]

end LibApta.KeyedList
