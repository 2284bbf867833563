import LibApta.Lib.LittleEndian

/-!
# Checked computations over bytes

A computation that validates a byte string either gives a value, rejects its input with an error
code, or commits a fault: a read outside the bytes, a sum that does not fit its machine type, a
write past the end of an array. Rejections belong to the specification of a validator, faults must
never happen. `Safe` says that a computation commits no fault; the `_eq_ok` lemmas say when it
gives a value.
-/

namespace LibApta

open LittleEndian

/-- Why a checked computation gives no value. -/
inductive Stop (ε : Type) where
  | fault
  | reject (code : ε)
deriving DecidableEq

/-- A checked computation. -/
abbrev Check (ε α : Type) := Except (Stop ε) α

namespace Check

variable {ε α β σ ρ : Type}

/-- Commit a fault. -/
def fault : Check ε α := .error .fault

/-- Reject the input. -/
def reject (code : ε) : Check ε α := .error (.reject code)

/-- `if (bad) return code;` -/
def rejectIf (bad : Prop) [Decidable bad] (code : ε) : Check ε Unit :=
  if bad then reject code else .ok ()

/-- A computed number that its machine type has to hold. -/
def within (maximum value : ℕ) : Check ε ℕ := if value ≤ maximum then .ok value else fault

/-- A difference that an unsigned type has to hold. -/
def minus (a b : ℕ) : Check ε ℕ := if b ≤ a then .ok (a - b) else fault

/-- Go on with the error code of a rejection. -/
def attempt : Check ε α → Check ε (Except ε α)
  | .ok a => .ok (.ok a)
  | .error (.reject code) => .ok (.error code)
  | .error .fault => fault

/-- The bytes a pointer and a size designate. -/
def view (bytes : List UInt8) (offset size : ℕ) : Check ε (List UInt8) :=
  if offset + size ≤ bytes.length then .ok (slice bytes offset size) else fault

/-- Read a little-endian number. -/
def read (width : ℕ) (bytes : List UInt8) (offset : ℕ) : Check ε ℕ :=
  if offset + width ≤ bytes.length then .ok (field width bytes offset) else fault

/-- Write the next element of an array that is filled in order. -/
def push (capacity : ℕ) (written : List α) (a : α) : Check ε (List α) :=
  if written.length < capacity then .ok (written ++ [a]) else fault

/-- Copy elements behind those of an array that is filled in order. -/
def copy (capacity : ℕ) (written items : List α) : Check ε (List α) :=
  if written.length + items.length ≤ capacity then .ok (written ++ items) else fault

/-! ## Values -/

theorem bind_eq_ok {c : Check ε α} {f : α → Check ε β} {b : β} :
    c >>= f = .ok b ↔ ∃ a, c = .ok a ∧ f a = .ok b := by
  cases c with
  | error stop =>
      constructor
      · intro h
        cases h
      · rintro ⟨a, h, -⟩
        cases h
  | ok a =>
      constructor
      · intro h
        exact ⟨a, rfl, h⟩
      · rintro ⟨a', h, hf⟩
        cases h
        exact hf

@[simp] theorem ok_bind (a : α) (f : α → Check ε β) : (Except.ok a : Check ε α) >>= f = f a := rfl

@[simp] theorem pure_eq_ok (a : α) : (pure a : Check ε α) = .ok a := rfl

@[simp] theorem rejectIf_eq_ok {bad : Prop} [Decidable bad] {code : ε} {u : Unit} :
    rejectIf bad code = .ok u ↔ ¬ bad := by
  by_cases h : bad <;> simp [rejectIf, reject, h]

@[simp] theorem within_eq_ok {maximum value result : ℕ} :
    (within maximum value : Check ε ℕ) = .ok result ↔ value ≤ maximum ∧ result = value := by
  by_cases h : value ≤ maximum <;> simp [within, fault, h, eq_comm]

@[simp] theorem minus_eq_ok {a b result : ℕ} :
    (minus a b : Check ε ℕ) = .ok result ↔ b ≤ a ∧ result = a - b := by
  by_cases h : b ≤ a <;> simp [minus, fault, h, eq_comm]

@[simp] theorem view_eq_ok {bytes result : List UInt8} {offset size : ℕ} :
    (view bytes offset size : Check ε _) = .ok result ↔
      offset + size ≤ bytes.length ∧ result = slice bytes offset size := by
  by_cases h : offset + size ≤ bytes.length <;> simp [view, fault, h, eq_comm]

@[simp] theorem read_eq_ok {width offset value : ℕ} {bytes : List UInt8} :
    (read width bytes offset : Check ε ℕ) = .ok value ↔
      offset + width ≤ bytes.length ∧ value = field width bytes offset := by
  by_cases h : offset + width ≤ bytes.length <;> simp [read, fault, h, eq_comm]

@[simp] theorem push_eq_ok {capacity : ℕ} {written result : List α} {a : α} :
    (push capacity written a : Check ε _) = .ok result ↔
      written.length < capacity ∧ result = written ++ [a] := by
  by_cases h : written.length < capacity <;> simp [push, fault, h, eq_comm]

@[simp] theorem copy_eq_ok {capacity : ℕ} {written items result : List α} :
    (copy capacity written items : Check ε _) = .ok result ↔
      written.length + items.length ≤ capacity ∧ result = written ++ items := by
  by_cases h : written.length + items.length ≤ capacity <;> simp [copy, fault, h, eq_comm]

/-! ## Safety -/

/-- A computation commits no fault. -/
def Safe (c : Check ε α) : Prop := c ≠ .error .fault

@[simp] theorem safe_ok (a : α) : Safe (.ok a : Check ε α) := by
  intro h
  cases h

@[simp] theorem safe_reject (code : ε) : Safe (reject code : Check ε α) := by
  intro h
  cases h

@[simp] theorem safe_rejectIf (bad : Prop) [Decidable bad] (code : ε) :
    Safe (rejectIf bad code) := by
  by_cases h : bad <;> simp [rejectIf, h]

theorem safe_bind {c : Check ε α} {f : α → Check ε β} (hc : Safe c)
    (hf : ∀ a, c = .ok a → Safe (f a)) : Safe (c >>= f) := by
  cases c with
  | error stop =>
      intro h
      apply hc
      exact congrArg Except.error (Except.error.inj h)
  | ok a => exact hf a rfl

theorem safe_bind_iff {c : Check ε α} {f : α → Check ε β} :
    Safe (c >>= f) ↔ Safe c ∧ ∀ a, c = .ok a → Safe (f a) := by
  constructor
  · intro h
    cases c with
    | error stop =>
        refine ⟨fun hc => h ?_, fun a ha => ?_⟩
        · exact congrArg Except.error (Except.error.inj hc)
        · cases ha
    | ok a =>
        refine ⟨safe_ok a, fun a' ha => ?_⟩
        cases ha
        exact h
  · rintro ⟨hc, hf⟩
    exact safe_bind hc hf

@[simp] theorem safe_within {maximum value : ℕ} :
    Safe (within maximum value : Check ε ℕ) ↔ value ≤ maximum := by
  by_cases h : value ≤ maximum <;> simp [Safe, within, fault, h]

@[simp] theorem safe_minus {a b : ℕ} : Safe (minus a b : Check ε ℕ) ↔ b ≤ a := by
  by_cases h : b ≤ a <;> simp [Safe, minus, fault, h]

/-- A safe attempt ends in a value or an error code. -/
theorem safe_attempt {c : Check ε α} (h : Safe c) :
    (∃ a, c = .ok a ∧ c.attempt = .ok (.ok a)) ∨
      ∃ code, c = reject code ∧ c.attempt = .ok (.error code) := by
  cases c with
  | ok a => exact .inl ⟨a, rfl, rfl⟩
  | error stop =>
      cases stop with
      | fault => exact absurd rfl h
      | reject code => exact .inr ⟨code, rfl, rfl⟩

@[simp] theorem safe_view {bytes : List UInt8} {offset size : ℕ} :
    Safe (view bytes offset size : Check ε _) ↔ offset + size ≤ bytes.length := by
  by_cases h : offset + size ≤ bytes.length <;> simp [Safe, view, fault, h]

@[simp] theorem safe_read {width offset : ℕ} {bytes : List UInt8} :
    Safe (read width bytes offset : Check ε ℕ) ↔ offset + width ≤ bytes.length := by
  by_cases h : offset + width ≤ bytes.length <;> simp [Safe, read, fault, h]

@[simp] theorem safe_push {capacity : ℕ} {written : List α} {a : α} :
    Safe (push capacity written a : Check ε _) ↔ written.length < capacity := by
  by_cases h : written.length < capacity <;> simp [Safe, push, fault, h]

@[simp] theorem safe_copy {capacity : ℕ} {written items : List α} :
    Safe (copy capacity written items : Check ε _) ↔ written.length + items.length ≤ capacity := by
  by_cases h : written.length + items.length ≤ capacity <;> simp [Safe, copy, fault, h]

theorem within_of_le {maximum value : ℕ} (h : value ≤ maximum) :
    (within maximum value : Check ε ℕ) = .ok value := by
  rw [within_eq_ok]
  exact ⟨h, rfl⟩

theorem view_of_le {bytes : List UInt8} {offset size : ℕ} (h : offset + size ≤ bytes.length) :
    (view bytes offset size : Check ε _) = .ok (slice bytes offset size) := by
  rw [view_eq_ok]
  exact ⟨h, rfl⟩

theorem read_of_le {width offset : ℕ} {bytes : List UInt8} (h : offset + width ≤ bytes.length) :
    (read width bytes offset : Check ε ℕ) = .ok (field width bytes offset) := by
  rw [read_eq_ok]
  exact ⟨h, rfl⟩

theorem push_of_lt {capacity : ℕ} {written : List α} {a : α} (h : written.length < capacity) :
    (push capacity written a : Check ε _) = .ok (written ++ [a]) := by
  rw [push_eq_ok]
  exact ⟨h, rfl⟩

/-! ## Loops over tables

A loop over a table of records reads the record of its index and does a step with it. -/

/-- `for (index = first; index < first + count; ++index) state = body(index, state);` -/
def loop (body : ℕ → σ → Check ε σ) : (first count : ℕ) → σ → Check ε σ
  | _, 0, s => .ok s
  | first, count + 1, s => body first s >>= loop body (first + 1) count

/-- A loop whose body changes nothing. -/
theorem loop_fixed {body : ℕ → σ → Check ε σ} {first count : ℕ} {s : σ}
    (h : ∀ index, first ≤ index → index < first + count → body index s = .ok s) :
    loop body first count s = .ok s := by
  induction count generalizing first with
  | zero => rfl
  | succ count ih =>
      rw [loop, h first le_rfl (by omega), ok_bind]
      exact ih fun index hfirst hlast => h index (by omega) (by omega)

/-- Do a step for each element of a list, with its index. -/
def walk (step : ℕ → ρ → σ → Check ε σ) : ℕ → List ρ → σ → Check ε σ
  | _, [], s => .ok s
  | index, r :: rest, s => step index r s >>= walk step (index + 1) rest

/-- Walk over the records of a table in a byte string. -/
def forRecords (width : ℕ) (bytes : List UInt8) (offset count : ℕ)
    (step : ℕ → List UInt8 → σ → Check ε σ) : σ → Check ε σ :=
  loop (fun index s => do
    let record ← view bytes (offset + index * width) width
    step index record s) 0 count

@[simp] theorem walk_nil (step : ℕ → ρ → σ → Check ε σ) (index : ℕ) (s : σ) :
    walk step index [] s = .ok s := rfl

theorem walk_cons (step : ℕ → ρ → σ → Check ε σ) (index : ℕ) (r : ρ) (rest : List ρ) (s : σ) :
    walk step index (r :: rest) s = step index r s >>= walk step (index + 1) rest := rfl

theorem walk_cons_eq_ok {step : ℕ → ρ → σ → Check ε σ} {index : ℕ} {r : ρ} {rest : List ρ}
    {s s' : σ} : walk step index (r :: rest) s = .ok s' ↔
      ∃ next, step index r s = .ok next ∧ walk step (index + 1) rest next = .ok s' :=
  bind_eq_ok

/-- A walk over two lists is a walk over the second from where the walk over the first ends. -/
theorem walk_append {step : ℕ → ρ → σ → Check ε σ} (front back : List ρ) (index : ℕ) (s : σ) :
    walk step index (front ++ back) s =
      walk step index front s >>= walk step (index + front.length) back := by
  induction front generalizing index s with
  | nil => rfl
  | cons r rest ih =>
      have hindex : index + (r :: rest).length = index + 1 + rest.length := by
        rw [List.length_cons]
        omega
      rw [List.cons_append, walk_cons, walk_cons, bind_assoc, hindex]
      congr 1
      funext next
      exact ih (index + 1) next

/-- Steps that agree on the elements of a list make the same walk. -/
theorem walk_congr {step step' : ℕ → ρ → σ → Check ε σ} {l : List ρ} {index : ℕ} {s : σ}
    (h : ∀ i, ∀ r ∈ l, ∀ s, step i r s = step' i r s) :
    walk step index l s = walk step' index l s := by
  induction l generalizing index s with
  | nil => rfl
  | cons r rest ih =>
      rw [walk_cons, walk_cons, h index r List.mem_cons_self]
      congr 1
      funext next
      exact ih fun i r' hr' => h i r' (List.mem_cons_of_mem _ hr')

/-- A walk over decoded elements decodes each of them in its step. -/
theorem walk_map {τ : Type} {step : ℕ → τ → σ → Check ε σ} (f : ρ → τ) (l : List ρ) (index : ℕ)
    (s : σ) : walk step index (l.map f) s = walk (fun i r => step i (f r)) index l s := by
  induction l generalizing index s with
  | nil => rfl
  | cons r rest ih =>
      rw [List.map_cons, walk_cons, walk_cons]
      congr 1
      funext next
      exact ih (index + 1) next

/-- A walk that passes over elements is a walk over the others, if its steps ignore the index. -/
theorem walk_filter {step : ρ → σ → Check ε σ} {p : ρ → Prop} [DecidablePred p] (l : List ρ)
    (index index' : ℕ) (s : σ) :
    walk (fun _ r s => if p r then step r s else .ok s) index l s =
      walk (fun _ r s => step r s) index' (l.filter fun r => decide (p r)) s := by
  induction l generalizing index index' s with
  | nil => rfl
  | cons r rest ih =>
      by_cases hp : p r
      · have hkeep : (r :: rest).filter (fun r => decide (p r)) =
            r :: rest.filter fun r => decide (p r) := List.filter_cons_of_pos (decide_eq_true hp)
        rw [hkeep, walk_cons, walk_cons]
        simp only [if_pos hp]
        congr 1
        funext next
        exact ih _ _ _
      · have hdrop : (r :: rest).filter (fun r => decide (p r)) =
            rest.filter fun r => decide (p r) := List.filter_cons_of_neg (by simpa using hp)
        rw [hdrop, walk_cons]
        simp only [if_neg hp, ok_bind]
        exact ih _ _ _

private theorem loop_view {width : ℕ} {bytes : List UInt8} {offset : ℕ}
    (step : ℕ → List UInt8 → σ → Check ε σ) (count first : ℕ) (s : σ)
    (h : offset + (first + count) * width ≤ bytes.length) :
    loop (fun index s => do
      let record ← view bytes (offset + index * width) width
      step index record s) first count s =
      walk step first (records width bytes (offset + first * width) count) s := by
  induction count generalizing first s with
  | zero => rfl
  | succ count ih =>
      have hrec : offset + first * width + width ≤ bytes.length := by
        have hle : (first + 1) * width ≤ (first + (count + 1)) * width :=
          Nat.mul_le_mul_right width (by omega)
        rw [Nat.add_mul] at hle
        omega
      have hnext : offset + first * width + width = offset + (first + 1) * width := by ring
      rw [loop, records_succ, walk_cons, view_of_le hrec, ok_bind, hnext]
      congr 1
      funext next
      apply ih
      rw [show first + 1 + count = first + (count + 1) by omega]
      exact h

/-- A loop over a table that lies inside the bytes is a walk over its records. -/
theorem forRecords_eq {width : ℕ} {bytes : List UInt8} {offset count : ℕ}
    {step : ℕ → List UInt8 → σ → Check ε σ} (s : σ)
    (h : offset + count * width ≤ bytes.length) :
    forRecords width bytes offset count step s =
      walk step 0 (records width bytes offset count) s := by
  have hfit : offset + (0 + count) * width ≤ bytes.length := by rwa [Nat.zero_add]
  have hloop := loop_view step count 0 s hfit
  rw [Nat.zero_mul, Nat.add_zero] at hloop
  exact hloop

/-! ## Faults that are answered by a code -/

/-- The computation with a code in place of a fault. -/
def onFault (code : ε) : Check ε α → Check ε α
  | .error .fault => reject code
  | c => c

theorem onFault_of_safe {c : Check ε α} (h : Safe c) (code : ε) : c.onFault code = c := by
  rcases c with (_ | _) | _
  · exact absurd rfl h
  · rfl
  · rfl

/-- The codes may be put in step by step. -/
theorem onFault_bind (c : Check ε α) (f : α → Check ε β) (code : ε) :
    (c >>= f).onFault code = c.onFault code >>= fun a => (f a).onFault code := by
  rcases c with (_ | _) | _ <;> rfl

/-- The steps of a computation may be replaced behind the values of its first part. -/
theorem bind_congr_ok {c : Check ε α} {f g : α → Check ε β} (h : ∀ a, c = .ok a → f a = g a) :
    c >>= f = c >>= g := by
  rcases c with _ | a
  · rfl
  · exact h a rfl

theorem walk_onFault (step : ℕ → ρ → σ → Check ε σ) (l : List ρ) (index : ℕ) (s : σ) (code : ε) :
    (walk step index l s).onFault code =
      walk (fun i r s => (step i r s).onFault code) index l s := by
  induction l generalizing index s with
  | nil => rfl
  | cons r rest ih =>
      rw [walk_cons, walk_cons, onFault_bind]
      congr 1
      funext next
      exact ih (index + 1) next

/-- A loop with a safe body is safe. -/
theorem safe_loop {body : ℕ → σ → Check ε σ} (first count : ℕ) (s : σ)
    (h : ∀ index s, Safe (body index s)) : Safe (loop body first count s) := by
  induction count generalizing first s with
  | zero => exact safe_ok s
  | succ count ih => exact safe_bind (h first s) fun next _ => ih (first + 1) next

/-- What the body of a loop preserves holds at its end. -/
theorem loop_invariant {body : ℕ → σ → Check ε σ} {P : σ → Prop} {first count : ℕ} {s s' : σ}
    (h : loop body first count s = .ok s') (hs : P s)
    (hbody : ∀ index s s', P s → body index s = .ok s' → P s') : P s' := by
  induction count generalizing first s with
  | zero => exact Except.ok.inj h ▸ hs
  | succ count ih =>
      obtain ⟨next, hnext, hrest⟩ := bind_eq_ok.mp h
      exact ih hrest (hbody _ _ _ hs hnext)

/-- A walk whose steps are safe in the states it passes through is safe. -/
theorem safe_walk {step : ℕ → ρ → σ → Check ε σ} {P : ℕ → σ → Prop} (l : List ρ) (index : ℕ)
    (s : σ) (hs : P index s)
    (hstep : ∀ i s, ∀ r ∈ l, P i s →
      Safe (step i r s) ∧ ∀ s', step i r s = .ok s' → P (i + 1) s') :
    Safe (walk step index l s) := by
  induction l generalizing index s with
  | nil => exact safe_ok s
  | cons r rest ih =>
      obtain ⟨hsafe, hnext⟩ := hstep index s r List.mem_cons_self hs
      apply safe_bind hsafe
      intro next h
      apply ih _ _ (hnext next h)
      intro i s r' hr'
      exact hstep i s r' (List.mem_cons_of_mem _ hr')

/-- What every step of a walk preserves holds at its end. -/
theorem walk_invariant {step : ℕ → ρ → σ → Check ε σ} {P : ℕ → σ → Prop} {l : List ρ}
    {index : ℕ} {s s' : σ} (h : walk step index l s = .ok s') (hs : P index s)
    (hstep : ∀ i s s', ∀ r ∈ l, P i s → step i r s = .ok s' → P (i + 1) s') :
    P (index + l.length) s' := by
  induction l generalizing index s with
  | nil => exact Except.ok.inj h ▸ hs
  | cons r rest ih =>
      obtain ⟨next, hnext, hrest⟩ := walk_cons_eq_ok.mp h
      have hdone := ih hrest (hstep _ _ _ r List.mem_cons_self hs hnext)
        fun i s s' r' hr' => hstep i s s' r' (List.mem_cons_of_mem _ hr')
      rw [List.length_cons]
      rwa [Nat.add_assoc, Nat.add_comm 1] at hdone

/-- A walk that keeps no state checks every element. -/
theorem walk_unit_eq_ok {step : ℕ → ρ → Unit → Check ε Unit} {good : ρ → Prop} {l : List ρ}
    {index : ℕ} {u u' : Unit}
    (hstep : ∀ i, ∀ r ∈ l, ∀ u u', step i r u = .ok u' ↔ good r) :
    walk step index l u = .ok u' ↔ ∀ r ∈ l, good r := by
  induction l generalizing index with
  | nil => simp
  | cons r rest ih =>
      have hrest : ∀ next, walk step (index + 1) rest next = .ok u' ↔ ∀ r ∈ rest, good r :=
        fun _ => ih fun i r' hr' => hstep i r' (List.mem_cons_of_mem _ hr')
      rw [walk_cons_eq_ok, List.forall_mem_cons]
      constructor
      · rintro ⟨next, hnext, hwalk⟩
        exact ⟨(hstep _ _ List.mem_cons_self _ _).mp hnext, (hrest next).mp hwalk⟩
      · rintro ⟨hgood, hwalk⟩
        exact ⟨(), (hstep _ _ List.mem_cons_self _ _).mpr hgood, (hrest ()).mpr hwalk⟩

/-- A walk that fills an array with a value for each element it checks. -/
theorem walk_push_eq_ok {step : ℕ → ρ → List α → Check ε (List α)} {good : ρ → Prop}
    {value : ρ → α} {capacity : ℕ} {l : List ρ} {index : ℕ} {written result : List α}
    (hroom : written.length + l.length ≤ capacity)
    (hstep : ∀ i, ∀ r ∈ l, ∀ written result, step i r written = .ok result ↔
      good r ∧ written.length < capacity ∧ result = written ++ [value r]) :
    walk step index l written = .ok result ↔
      (∀ r ∈ l, good r) ∧ result = written ++ l.map value := by
  induction l generalizing index written with
  | nil => simp [eq_comm]
  | cons r rest ih =>
      rw [List.length_cons] at hroom
      have hroom' : (written ++ [value r]).length + rest.length ≤ capacity := by
        rw [List.length_append, List.length_singleton]
        omega
      have hrest : walk step (index + 1) rest (written ++ [value r]) = .ok result ↔
          (∀ r ∈ rest, good r) ∧ result = written ++ [value r] ++ rest.map value :=
        ih hroom' fun i r' hr' => hstep i r' (List.mem_cons_of_mem _ hr')
      rw [walk_cons_eq_ok, List.forall_mem_cons, List.map_cons]
      constructor
      · rintro ⟨next, hnext, hwalk⟩
        obtain ⟨hgood, -, rfl⟩ := (hstep _ _ List.mem_cons_self _ _).mp hnext
        obtain ⟨hall, rfl⟩ := hrest.mp hwalk
        exact ⟨⟨hgood, hall⟩, by rw [List.append_assoc, List.singleton_append]⟩
      · rintro ⟨⟨hgood, hall⟩, rfl⟩
        refine ⟨written ++ [value r],
          (hstep _ _ List.mem_cons_self _ _).mpr ⟨hgood, by omega, rfl⟩, ?_⟩
        exact hrest.mpr ⟨hall, by rw [List.append_assoc, List.singleton_append]⟩

/-- A walk that fills an array, and checks each element against the one before it. -/
theorem walk_chain_eq_ok {step : ℕ → ρ → List α → Check ε (List α)} {good : ρ → Prop}
    {value : ρ → α} {follows : α → α → Prop} {capacity : ℕ} {l : List ρ}
    {written result : List α} (hroom : written.length + l.length ≤ capacity)
    (hstep : ∀ r ∈ l, ∀ written result, written.length < capacity →
      (step written.length r written = .ok result ↔
        good r ∧ (∀ last ∈ written.getLast?, follows last (value r)) ∧
          result = written ++ [value r])) :
    walk step written.length l written = .ok result ↔
      (∀ r ∈ l, good r) ∧ (written.getLast?.toList ++ l.map value).IsChain follows ∧
        result = written ++ l.map value := by
  induction l generalizing written with
  | nil =>
      have hchain : written.getLast?.toList.IsChain follows := by
        cases written.getLast? <;> simp
      simp only [walk_nil, Except.ok.injEq, List.not_mem_nil, false_imp_iff, implies_true, true_and,
        hchain, List.map_nil, List.append_nil]
      exact eq_comm
  | cons r rest ih =>
      rw [List.length_cons] at hroom
      have hlength : (written ++ [value r]).length = written.length + 1 := by
        rw [List.length_append, List.length_singleton]
      have hrest := @ih (written ++ [value r]) (by omega)
        fun other hother => hstep other (List.mem_cons_of_mem _ hother)
      rw [hlength, List.getLast?_concat] at hrest
      have hchain : (written.getLast?.toList ++ (r :: rest).map value).IsChain follows ↔
          (∀ last ∈ written.getLast?, follows last (value r)) ∧
            ((some (value r)).toList ++ rest.map value).IsChain follows := by
        cases written.getLast? with
        | none => simp
        | some last => simp
      rw [walk_cons_eq_ok, List.forall_mem_cons, hchain]
      constructor
      · rintro ⟨next, hnext, hwalk⟩
        obtain ⟨hgood, hfollows, rfl⟩ := (hstep r List.mem_cons_self _ _ (by omega)).mp hnext
        obtain ⟨hall, hchain, rfl⟩ := hrest.mp hwalk
        exact ⟨⟨hgood, hall⟩, ⟨hfollows, hchain⟩, by simp⟩
      · rintro ⟨⟨hgood, hall⟩, ⟨hfollows, hchain⟩, rfl⟩
        refine ⟨_, (hstep r List.mem_cons_self _ _ (by omega)).mpr ⟨hgood, hfollows, rfl⟩, ?_⟩
        exact hrest.mpr ⟨hall, hchain, by simp⟩

/-- A walk that fills an array, one element a step, stays within it. -/
theorem safe_walk_push {step : ℕ → ρ → List α → Check ε (List α)} {capacity : ℕ} {l : List ρ}
    (hroom : l.length ≤ capacity)
    (hstep : ∀ i, ∀ r ∈ l, ∀ written, written.length < capacity → Safe (step i r written) ∧
      ∀ result, step i r written = .ok result → ∃ a, result = written ++ [a]) :
    Safe (walk step 0 l []) := by
  have hwalk : ∀ (rest : List ρ) (index : ℕ) (written : List α), (∀ r ∈ rest, r ∈ l) →
      written.length + rest.length ≤ capacity → Safe (walk step index rest written) := by
    intro rest
    induction rest with
    | nil => exact fun _ _ _ _ => safe_ok _
    | cons r rest ih =>
        intro index written hmem hle
        rw [List.length_cons] at hle
        obtain ⟨hsafe, hnext⟩ := hstep index r (hmem r List.mem_cons_self) written (by omega)
        rw [walk_cons]
        refine safe_bind hsafe fun next h => ?_
        obtain ⟨a, rfl⟩ := hnext next h
        apply ih _ _ fun r' hr' => hmem r' (List.mem_cons_of_mem _ hr')
        rw [List.length_append, List.length_singleton]
        omega
  apply hwalk l 0 [] fun _ h => h
  rwa [List.length_nil, Nat.zero_add]

end Check

end LibApta
