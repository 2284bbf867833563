import Mathlib.Data.List.Nodup
import Mathlib.Data.List.Perm.Basic

/-!
# Reference counts

A table of cells that are shared by owners. Each cell counts its owners in a counter of a fixed
width and is dying once its last owner is gone. As long as no cell has as many owners as the counter
has values, the counter is the number of owners: a cell dies exactly when it has none left, and an
owner never refers to a cell that is dying or removed.
-/

namespace LibApta.References

/-! ## One element in place of another -/

section Exchange

variable {α β : Type} [DecidableEq α] {l : List α} {a b x : α}

/-- A list with one of its elements replaced. The order of the list is not kept. -/
def exchange (l : List α) (a b : α) : List α := b :: l.erase a

theorem mem_exchange (hx : x ∈ exchange l a b) : x = b ∨ x ∈ l :=
  (List.mem_cons.mp hx).imp_right List.mem_of_mem_erase

theorem mem_exchange_self (l : List α) (a b : α) : b ∈ exchange l a b := List.mem_cons_self

theorem mem_exchange_of_ne (hx : x ∈ l) (hne : x ≠ a) : x ∈ exchange l a b :=
  List.mem_cons_of_mem _ ((List.mem_erase_of_ne hne).mpr hx)

theorem countP_erase_add (p : α → Bool) (ha : a ∈ l) :
    (l.erase a).countP p + (if p a then 1 else 0) = l.countP p := by
  rw [(List.perm_cons_erase ha).countP_eq p, List.countP_cons]

theorem countP_exchange (p : α → Bool) (ha : a ∈ l) :
    (exchange l a b).countP p + (if p a then 1 else 0) = l.countP p + (if p b then 1 else 0) := by
  have herase := countP_erase_add p ha
  rw [exchange, List.countP_cons]
  omega

/-- A count that does not tell the two elements apart is the same. -/
theorem countP_exchange_of_eq {p : α → Bool} (ha : a ∈ l) (hp : p b = p a) :
    (exchange l a b).countP p = l.countP p := by
  have hcount := countP_exchange (b := b) p ha
  rw [hp] at hcount
  omega

theorem map_exchange_perm {f : α → β} (ha : a ∈ l) (hf : f b = f a) :
    ((exchange l a b).map f).Perm (l.map f) := by
  rw [exchange, List.map_cons, hf]
  exact ((List.perm_cons_erase ha).map f).symm

/-- Where no two elements have the same key, the others have other keys. -/
theorem key_ne_of_mem_erase {key : α → β} (hnodup : (l.map key).Nodup) (ha : a ∈ l)
    (hx : x ∈ l.erase a) : key x ≠ key a := by
  have hperm := ((List.perm_cons_erase ha).map key).nodup_iff.mp hnodup
  intro heq
  exact (List.nodup_cons.mp hperm).1 (heq ▸ List.mem_map_of_mem hx)

end Exchange

/-! ## Counters -/

/-- One more on a counter with `limit` values. -/
def increment (limit count : ℕ) : ℕ := if count + 1 = limit then 0 else count + 1

/-- One less on a counter with `limit` values. -/
def decrement (limit count : ℕ) : ℕ := if count = 0 then limit - 1 else count - 1

theorem increment_eq {limit count : ℕ} (h : count + 1 < limit) : increment limit count = count + 1 :=
  if_neg (Nat.ne_of_lt h)

theorem decrement_succ (limit count : ℕ) : decrement limit (count + 1) = count :=
  if_neg count.succ_ne_zero

/-- A counter that overflows starts again. -/
theorem increment_mod {limit : ℕ} (hlimit : 0 < limit) (count : ℕ) :
    increment limit (count % limit) = (count + 1) % limit := by
  have hlt := Nat.mod_lt count hlimit
  rw [← Nat.mod_add_mod, increment]
  split_ifs with hlast
  · rw [hlast, Nat.mod_self]
  · exact (Nat.mod_eq_of_lt (by omega)).symm

/-! ## Tables -/

/-- A cell: what it is called, its counter, whether its last owner is gone, and what it holds. -/
structure Cell (δ : Type) where
  id : ℕ
  count : ℕ
  dying : Bool
  data : δ
deriving DecidableEq

/-- Cells and those who own them. -/
structure Table (δ ω : Type) where
  cells : List (Cell δ)
  owners : List ω

namespace Table

variable {δ ω : Type} (limit : ℕ) (target : ω → ℕ)

/-- How many owners a cell has. -/
def references (owners : List ω) (id : ℕ) : ℕ := owners.countP fun owner => target owner = id

/-- A new cell with its first owner. -/
def create (id : ℕ) (data : δ) (owner : ω) (t : Table δ ω) : Table δ ω :=
  ⟨⟨id, 1, false, data⟩ :: t.cells, owner :: t.owners⟩

/-- One more owner of a cell. -/
def share [DecidableEq δ] (cell : Cell δ) (owner : ω) (t : Table δ ω) : Table δ ω :=
  ⟨exchange t.cells cell { cell with count := increment limit cell.count }, owner :: t.owners⟩

/-- An owner hands its reference on. -/
def pass [DecidableEq ω] (owner heir : ω) (t : Table δ ω) : Table δ ω := ⟨t.cells, exchange t.owners owner heir⟩

/-- An owner drops its reference. The one that takes the counter from one drops the last. -/
def drop [DecidableEq δ] [DecidableEq ω] (cell : Cell δ) (owner : ω) (t : Table δ ω) : Table δ ω :=
  ⟨exchange t.cells cell
      { cell with
        count := decrement limit cell.count
        dying := cell.dying || decide (cell.count = 1) },
    t.owners.erase owner⟩

/-- A cell holds something else. -/
def store [DecidableEq δ] (cell : Cell δ) (data : δ) (t : Table δ ω) : Table δ ω :=
  ⟨exchange t.cells cell { cell with data := data }, t.owners⟩

/-- A cell that has one owner is gone with its owner. -/
def discard [DecidableEq δ] [DecidableEq ω] (cell : Cell δ) (owner : ω) (t : Table δ ω) :
    Table δ ω := ⟨t.cells.erase cell, t.owners.erase owner⟩

/-- A cell is gone. -/
def remove [DecidableEq δ] (cell : Cell δ) (t : Table δ ω) : Table δ ω := ⟨t.cells.erase cell, t.owners⟩

/-- Every counter is the number of owners, a cell is dying when it has none, and owners own cells. -/
structure Sound (t : Table δ ω) : Prop where
  nodup : (t.cells.map Cell.id).Nodup
  counted : ∀ cell ∈ t.cells, cell.count = references target t.owners cell.id
  dying_iff : ∀ cell ∈ t.cells, cell.dying = true ↔ references target t.owners cell.id = 0
  owned : ∀ owner ∈ t.owners, ∃ cell ∈ t.cells, cell.id = target owner

/-- No cell has as many owners as its counter has values. -/
def Fits (t : Table δ ω) : Prop := ∀ id, references target t.owners id < limit

variable {limit target} {t : Table δ ω} {cell : Cell δ} {owner heir : ω}

theorem references_cons (owners : List ω) (id : ℕ) :
    references target (owner :: owners) id =
      references target owners id + if target owner = id then 1 else 0 := by
  simp [references, List.countP_cons]

theorem references_pos {owners : List ω} (hmem : owner ∈ owners) :
    0 < references target owners (target owner) :=
  List.countP_pos_iff.mpr ⟨owner, hmem, by simp⟩

theorem exists_owner {owners : List ω} {id : ℕ} (hpos : 0 < references target owners id) :
    ∃ owner ∈ owners, target owner = id := by
  simpa [references] using List.countP_pos_iff.mp hpos

/-- An owner keeps its cell from dying. -/
theorem Sound.not_dying (h : Sound target t) (hcell : cell ∈ t.cells) (howner : owner ∈ t.owners)
    (htarget : target owner = cell.id) : cell.dying = false := by
  have hpos : 0 < references target t.owners (target owner) := references_pos howner
  rw [htarget] at hpos
  by_contra hne
  have hzero := (h.dying_iff cell hcell).mp (by simpa using hne)
  omega

/-- A cell that is not dying has an owner. -/
theorem Sound.exists_owner (h : Sound target t) (hcell : cell ∈ t.cells)
    (halive : cell.dying = false) : ∃ owner ∈ t.owners, target owner = cell.id := by
  apply References.Table.exists_owner
  rw [Nat.pos_iff_ne_zero]
  intro hzero
  rw [(h.dying_iff cell hcell).mpr hzero] at halive
  cases halive

/-! ## The operations keep a table sound -/

theorem Sound.create (h : Sound target t) {id : ℕ} {data : δ} (hfresh : ∀ cell ∈ t.cells, cell.id ≠ id)
    (htarget : target owner = id) : Sound target (t.create id data owner) := by
  -- No owner refers to the new name yet.
  have hnone : references target t.owners id = 0 := by
    by_contra hne
    obtain ⟨other, hother, heq⟩ := Table.exists_owner (Nat.pos_of_ne_zero hne)
    obtain ⟨cell, hcell, hid⟩ := h.owned other hother
    exact hfresh cell hcell (hid.trans heq)
  refine ⟨?_, ?_, ?_, ?_⟩
  · refine List.nodup_cons.mpr ⟨fun hmem => ?_, h.nodup⟩
    obtain ⟨cell, hcell, hid⟩ := List.mem_map.mp hmem
    exact hfresh cell hcell hid
  · refine List.forall_mem_cons.mpr ⟨?_, fun cell hcell => ?_⟩
    · simp [Table.create, references_cons, htarget, hnone]
    · simp [Table.create, references_cons, htarget, (hfresh cell hcell).symm, h.counted cell hcell]
  · refine List.forall_mem_cons.mpr ⟨?_, fun cell hcell => ?_⟩
    · simp [Table.create, references_cons, htarget]
    · simp [Table.create, references_cons, htarget, (hfresh cell hcell).symm,
        h.dying_iff cell hcell]
  · refine List.forall_mem_cons.mpr ⟨⟨_, List.mem_cons_self, htarget.symm⟩, fun other hother => ?_⟩
    obtain ⟨cell, hcell, hid⟩ := h.owned other hother
    exact ⟨cell, List.mem_cons_of_mem _ hcell, hid⟩

section Cells

variable [DecidableEq δ]

/-- A cell under its name in a list where one cell changed. -/
theorem exists_cell_exchange {cells : List (Cell δ)} {cell cell' : Cell δ} {id : ℕ}
    (hid : cell'.id = cell.id) (h : ∃ x ∈ cells, x.id = id) :
    ∃ x ∈ exchange cells cell cell', x.id = id := by
  obtain ⟨x, hx, rfl⟩ := h
  by_cases hsame : x = cell
  · exact ⟨cell', mem_exchange_self _ _ _, hsame ▸ hid⟩
  · exact ⟨x, mem_exchange_of_ne hx hsame, rfl⟩

theorem Sound.store (h : Sound target t) (hcell : cell ∈ t.cells) (data : δ) :
    Sound target (t.store cell data) := by
  refine ⟨((map_exchange_perm hcell rfl).nodup_iff).mpr h.nodup, ?_, ?_, fun owner howner => ?_⟩
  · exact List.forall_mem_cons.mpr
      ⟨h.counted cell hcell, fun other hother => h.counted other (List.mem_of_mem_erase hother)⟩
  · exact List.forall_mem_cons.mpr
      ⟨h.dying_iff cell hcell, fun other hother => h.dying_iff other (List.mem_of_mem_erase hother)⟩
  · exact exists_cell_exchange rfl (h.owned owner howner)

theorem Sound.share (h : Sound target t) (hcell : cell ∈ t.cells) (halive : cell.dying = false)
    (htarget : target owner = cell.id) (hfits : (t.share limit cell owner).Fits limit target) :
    Sound target (t.share limit cell owner) := by
  have hbound := hfits cell.id
  simp only [Table.share, references_cons, htarget, if_true] at hbound
  refine ⟨((map_exchange_perm hcell rfl).nodup_iff).mpr h.nodup, ?_, ?_, ?_⟩
  · refine List.forall_mem_cons.mpr ⟨?_, fun other hother => ?_⟩
    · simp only [Table.share, references_cons, htarget, if_true]
      rw [h.counted cell hcell, increment_eq hbound]
    · have hne := key_ne_of_mem_erase h.nodup hcell hother
      simp [Table.share, references_cons, htarget, hne.symm,
        h.counted other (List.mem_of_mem_erase hother)]
  · refine List.forall_mem_cons.mpr ⟨?_, fun other hother => ?_⟩
    · simp [Table.share, references_cons, htarget, halive]
    · have hne := key_ne_of_mem_erase h.nodup hcell hother
      simp [Table.share, references_cons, htarget, hne.symm,
        h.dying_iff other (List.mem_of_mem_erase hother)]
  · refine List.forall_mem_cons.mpr ⟨?_, fun other hother => ?_⟩
    · exact ⟨_, mem_exchange_self _ _ _, htarget.symm⟩
    · exact exists_cell_exchange rfl (h.owned other hother)

/-- A cell without owners may go. -/
theorem Sound.remove (h : Sound target t) (hcell : cell ∈ t.cells) (hdying : cell.dying = true) :
    Sound target (t.remove cell) := by
  have hnodup : ((t.cells.erase cell).map Cell.id).Nodup :=
    h.nodup.sublist (List.erase_sublist.map _)
  refine ⟨hnodup, fun other hother => h.counted other (List.mem_of_mem_erase hother),
    fun other hother => h.dying_iff other (List.mem_of_mem_erase hother), fun owner howner => ?_⟩
  obtain ⟨other, hother, hid⟩ := h.owned owner howner
  refine ⟨other, (List.mem_erase_of_ne fun heq => ?_).mpr hother, hid⟩
  subst heq
  rw [h.not_dying hother howner hid.symm] at hdying
  cases hdying

end Cells

section Owners

variable [DecidableEq ω]

theorem references_erase {owners : List ω} (hmem : owner ∈ owners) (id : ℕ) :
    references target (owners.erase owner) id + (if target owner = id then 1 else 0) =
      references target owners id := by
  simpa [references] using countP_erase_add (fun owner => decide (target owner = id)) hmem

theorem references_exchange {owners : List ω} (hmem : owner ∈ owners)
    (htarget : target heir = target owner) (id : ℕ) :
    references target (exchange owners owner heir) id = references target owners id :=
  countP_exchange_of_eq hmem (by simp [htarget])

theorem Sound.pass (h : Sound target t) (howner : owner ∈ t.owners)
    (htarget : target heir = target owner) : Sound target (t.pass owner heir) := by
  refine ⟨h.nodup, fun cell hcell => ?_, fun cell hcell => ?_, fun other hother => ?_⟩
  · rw [Table.pass, references_exchange howner htarget]
    exact h.counted cell hcell
  · rw [Table.pass, references_exchange howner htarget]
    exact h.dying_iff cell hcell
  · rcases mem_exchange hother with rfl | hother
    · rw [htarget]
      exact h.owned owner howner
    · exact h.owned other hother

theorem Sound.drop [DecidableEq δ] (h : Sound target t) (hcell : cell ∈ t.cells) (howner : owner ∈ t.owners)
    (htarget : target owner = cell.id) (hfits : t.Fits limit target) :
    Sound target (t.drop limit cell owner) := by
  have hreferences := @references_erase ω target owner _ t.owners howner
  have hcount := h.counted cell hcell
  have halive := h.not_dying hcell howner htarget
  have hself := hreferences cell.id
  rw [htarget, if_pos rfl] at hself
  have hbound := hfits cell.id
  refine ⟨((map_exchange_perm hcell rfl).nodup_iff).mpr h.nodup, ?_, ?_, fun other hother => ?_⟩
  · refine List.forall_mem_cons.mpr ⟨?_, fun other hother => ?_⟩
    · -- The counter was at least one, so it does not go below zero.
      simp only [Table.drop]
      rw [hcount, ← hself, decrement_succ]
    · have hne := key_ne_of_mem_erase h.nodup hcell hother
      have hothers := hreferences other.id
      rw [htarget, if_neg hne.symm] at hothers
      rw [Table.drop, h.counted other (List.mem_of_mem_erase hother)]
      exact hothers.symm
  · refine List.forall_mem_cons.mpr ⟨?_, fun other hother => ?_⟩
    · simp only [Table.drop, halive, Bool.false_or, decide_eq_true_iff]
      omega
    · have hne := key_ne_of_mem_erase h.nodup hcell hother
      have hothers := hreferences other.id
      rw [htarget, if_neg hne.symm, Nat.add_zero] at hothers
      rw [Table.drop, hothers]
      exact h.dying_iff other (List.mem_of_mem_erase hother)
  · exact exists_cell_exchange rfl (h.owned other (List.mem_of_mem_erase hother))

theorem Sound.discard [DecidableEq δ] (h : Sound target t) (hcell : cell ∈ t.cells)
    (howner : owner ∈ t.owners) (htarget : target owner = cell.id) (hone : cell.count = 1) :
    Sound target (t.discard cell owner) := by
  have hreferences := @references_erase ω target owner _ t.owners howner
  have hself := hreferences cell.id
  rw [htarget, if_pos rfl, ← h.counted cell hcell, hone] at hself
  have hothers : ∀ other ∈ t.cells.erase cell,
      references target (t.owners.erase owner) other.id = references target t.owners other.id :=
    fun other hother => by
      have hcount := hreferences other.id
      rwa [htarget, if_neg (key_ne_of_mem_erase h.nodup hcell hother).symm, Nat.add_zero] at hcount
  refine ⟨h.nodup.sublist (List.erase_sublist.map _), fun other hother => ?_,
    fun other hother => ?_, fun other hother => ?_⟩
  · rw [Table.discard, hothers other hother]
    exact h.counted other (List.mem_of_mem_erase hother)
  · rw [Table.discard, hothers other hother]
    exact h.dying_iff other (List.mem_of_mem_erase hother)
  · obtain ⟨found, hfound, hid⟩ := h.owned other (List.mem_of_mem_erase hother)
    refine ⟨found, (List.mem_erase_of_ne fun heq => ?_).mpr hfound, hid⟩
    -- The owner was the only one.
    have hpos : 0 < references target (t.owners.erase owner) (target other) := references_pos hother
    rw [← hid, heq] at hpos
    omega

end Owners

end Table

end LibApta.References
