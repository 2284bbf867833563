import LibApta.Lib.LittleEndian
import Mathlib.Data.Nat.ModEq

/-!
# Aligned packing

Items are placed one after another, each at the next multiple of a unit. `place` gives the offsets,
`finish` the end, `pack` the bytes with the gaps filled. A larger start only shifts the offsets when
it grows by a multiple of the unit, and items appended later do not move the earlier ones.
-/

namespace LibApta.Packing

open LittleEndian

/-! ## Alignment -/

/-- The next multiple of the unit. -/
def alignUp (unit value : ℕ) : ℕ := (value + (unit - 1)) / unit * unit

section Alignment

variable {unit : ℕ} (hunit : 0 < unit)

theorem dvd_alignUp (unit value : ℕ) : unit ∣ alignUp unit value := Dvd.intro_left _ rfl

include hunit

theorem le_alignUp (value : ℕ) : value ≤ alignUp unit value := by
  have hdiv := Nat.div_add_mod (value + (unit - 1)) unit
  have hmod := Nat.mod_lt (value + (unit - 1)) hunit
  rw [alignUp, Nat.mul_comm]
  omega

theorem alignUp_lt (value : ℕ) : alignUp unit value < value + unit := by
  have hdiv := Nat.div_mul_le_self (value + (unit - 1)) unit
  rw [alignUp]
  omega

/-- A multiple of the unit is aligned. -/
theorem alignUp_of_dvd {value : ℕ} (h : unit ∣ value) : alignUp unit value = value := by
  obtain ⟨count, rfl⟩ := h
  rw [alignUp, Nat.mul_add_div hunit, Nat.div_eq_of_lt (by omega), Nat.add_zero, Nat.mul_comm]

/-- Adding a multiple of the unit shifts the next multiple. -/
theorem alignUp_add {shift : ℕ} (h : unit ∣ shift) (value : ℕ) :
    alignUp unit (value + shift) = alignUp unit value + shift := by
  obtain ⟨count, rfl⟩ := h
  rw [alignUp, alignUp, Nat.add_right_comm, Nat.add_mul_div_left _ _ hunit, Nat.add_mul,
    Nat.mul_comm count]

end Alignment

/-! ## Placing -/

section Placing

variable {α β γ : Type} (unit : ℕ) (size : β → ℕ)

/-- The items with their offsets. -/
def place : ℕ → List β → List (ℕ × β)
  | _, [] => []
  | cursor, item :: rest =>
      (alignUp unit cursor, item) :: place (alignUp unit cursor + size item) rest

/-- Where the last item ends. -/
def finish : ℕ → List β → ℕ
  | cursor, [] => cursor
  | cursor, item :: rest => finish (alignUp unit cursor + size item) rest

/-- The bytes of the items from a cursor on, with the gaps filled. -/
def pack (filler : α) (content : β → List α) : ℕ → List β → List α
  | _, [] => []
  | cursor, item :: rest =>
      List.replicate (alignUp unit cursor - cursor) filler ++ (content item ++
        pack filler content (alignUp unit cursor + (content item).length) rest)

variable {unit size}

@[simp] theorem map_snd_place (cursor : ℕ) (items : List β) :
    (place unit size cursor items).map Prod.snd = items := by
  induction items generalizing cursor with
  | nil => rfl
  | cons item rest ih => rw [place, List.map_cons, ih]

@[simp] theorem length_place (cursor : ℕ) (items : List β) :
    (place unit size cursor items).length = items.length := by
  rw [← List.length_map Prod.snd, map_snd_place]

theorem finish_append (cursor : ℕ) (front back : List β) :
    finish unit size cursor (front ++ back) =
      finish unit size (finish unit size cursor front) back := by
  induction front generalizing cursor with
  | nil => rfl
  | cons item rest ih => exact ih _

/-- Items placed later do not move the earlier ones. -/
theorem place_append (cursor : ℕ) (front back : List β) :
    place unit size cursor (front ++ back) =
      place unit size cursor front ++ place unit size (finish unit size cursor front) back := by
  induction front generalizing cursor with
  | nil => rfl
  | cons item rest ih =>
      rw [List.cons_append, place, ih, place, finish, List.cons_append]

theorem finish_map (f : γ → β) (cursor : ℕ) (items : List γ) :
    finish unit size cursor (items.map f) = finish unit (fun item => size (f item)) cursor items := by
  induction items generalizing cursor with
  | nil => rfl
  | cons item rest ih => exact ih _

theorem pack_append (filler : α) (content : β → List α) (cursor : ℕ) (front back : List β) :
    pack unit filler content cursor (front ++ back) = pack unit filler content cursor front ++
      pack unit filler content (finish unit (fun item => (content item).length) cursor front)
        back := by
  induction front generalizing cursor with
  | nil => rfl
  | cons item rest ih =>
      rw [List.cons_append, pack, ih, pack, finish, List.append_assoc, List.append_assoc]

section Aligned

variable (hunit : 0 < unit)

include hunit

theorem le_finish (cursor : ℕ) (items : List β) : cursor ≤ finish unit size cursor items := by
  induction items generalizing cursor with
  | nil => exact le_rfl
  | cons item rest ih =>
      calc cursor ≤ alignUp unit cursor := le_alignUp hunit cursor
        _ ≤ alignUp unit cursor + size item := Nat.le_add_right _ _
        _ ≤ finish unit size cursor (item :: rest) := ih _

/-- Items of bounded size end early. -/
theorem finish_le {bound cursor : ℕ} {items : List β} (h : ∀ item ∈ items, size item ≤ bound) :
    finish unit size cursor items ≤ cursor + items.length * (unit + bound) := by
  induction items generalizing cursor with
  | nil => exact Nat.le_add_right _ _
  | cons item rest ih =>
      have hitem := h item List.mem_cons_self
      have haligned := alignUp_lt hunit cursor
      have hrest := @ih (alignUp unit cursor + size item)
        fun other hother => h other (List.mem_cons_of_mem item hother)
      rw [finish, List.length_cons, Nat.add_mul]
      omega

/-- The bytes end where the last item ends. -/
theorem length_pack (filler : α) (content : β → List α) (cursor : ℕ) (items : List β) :
    cursor + (pack unit filler content cursor items).length =
      finish unit (fun item => (content item).length) cursor items := by
  induction items generalizing cursor with
  | nil => rfl
  | cons item rest ih =>
      have hle := le_alignUp hunit cursor
      rw [finish, ← ih, pack, List.length_append, List.length_append, List.length_replicate]
      omega

/-- A start that is larger by a multiple of the unit shifts the offsets. -/
theorem place_add {shift : ℕ} (h : unit ∣ shift) (cursor : ℕ) (items : List β) :
    place unit size (cursor + shift) items =
      (place unit size cursor items).map fun p => (p.1 + shift, p.2) := by
  induction items generalizing cursor with
  | nil => rfl
  | cons item rest ih =>
      rw [place, alignUp_add hunit h, Nat.add_right_comm, ih, place, List.map_cons]

theorem finish_add {shift : ℕ} (h : unit ∣ shift) (cursor : ℕ) (items : List β) :
    finish unit size (cursor + shift) items = finish unit size cursor items + shift := by
  induction items generalizing cursor with
  | nil => rfl
  | cons item rest ih => rw [finish, alignUp_add hunit h, Nat.add_right_comm, ih, finish]

theorem pack_add {shift : ℕ} (h : unit ∣ shift) (filler : α) (content : β → List α)
    (cursor : ℕ) (items : List β) :
    pack unit filler content (cursor + shift) items = pack unit filler content cursor items := by
  induction items generalizing cursor with
  | nil => rfl
  | cons item rest ih =>
      rw [pack, alignUp_add hunit h, Nat.add_right_comm, ih, Nat.add_sub_add_right, pack]

/-- The items of a packing lie after its start and before its end, on multiples of the unit. -/
theorem mem_place {cursor : ℕ} {items : List β} {p : ℕ × β}
    (h : p ∈ place unit size cursor items) :
    cursor ≤ p.1 ∧ unit ∣ p.1 ∧ p.1 + size p.2 ≤ finish unit size cursor items := by
  induction items generalizing cursor with
  | nil => simp [place] at h
  | cons item rest ih =>
      have hle := le_alignUp hunit cursor
      rw [place, List.mem_cons] at h
      obtain rfl | h := h
      · exact ⟨hle, dvd_alignUp unit cursor, le_finish hunit _ rest⟩
      · obtain ⟨hfirst, hdvd, hlast⟩ := ih h
        exact ⟨by omega, hdvd, hlast⟩

/-- The items of a packing follow each other. -/
theorem pairwise_place (cursor : ℕ) (items : List β) :
    (place unit size cursor items).Pairwise fun p q => p.1 + size p.2 ≤ q.1 := by
  induction items generalizing cursor with
  | nil => exact List.Pairwise.nil
  | cons item rest ih =>
      rw [place]
      exact List.Pairwise.cons (fun q hq => (mem_place hunit hq).1) (ih _)

/-- Every item is at its offset. -/
theorem slice_pack (filler : α) (content : β → List α) (front : List α) {items : List β}
    {p : ℕ × β}
    (h : p ∈ place unit (fun item => (content item).length) front.length items) :
    slice (front ++ pack unit filler content front.length items) p.1 (content p.2).length =
      content p.2 := by
  induction items generalizing front with
  | nil => simp [place] at h
  | cons item rest ih =>
      have hle := le_alignUp hunit front.length
      have hlen : (front ++ List.replicate (alignUp unit front.length - front.length)
          filler).length = alignUp unit front.length := by
        rw [List.length_append, List.length_replicate]
        omega
      rw [place, List.mem_cons] at h
      rw [pack, ← List.append_assoc]
      obtain rfl | h := h
      · have hmiddle := slice_append_middle
          (front ++ List.replicate (alignUp unit front.length - front.length) filler)
          (content item)
          (pack unit filler content (alignUp unit front.length + (content item).length) rest)
        rwa [hlen] at hmiddle
      · -- the rest is packed behind what comes before it
        have hrest := ih ((front ++ List.replicate (alignUp unit front.length - front.length)
          filler) ++ content item)
        rw [List.length_append, hlen] at hrest
        rw [← List.append_assoc]
        exact hrest h

end Aligned

end Placing

end LibApta.Packing
