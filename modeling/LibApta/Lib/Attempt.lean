import LibApta.Lib.Checked

/-!
# Checked computations over a store

A computation that works on a store and may stop leaves behind what it did to the store until then.
`Spec` is a triple with two postconditions, one for a value and one for a rejection; it excludes
faults. `Below` says that whatever one computation achieves a second one achieves in the same way,
`Grows` that a measure of the store gets no smaller.
-/

namespace LibApta

/-- A checked computation over a store. -/
def Attempt (σ ε α : Type) : Type := σ → Except (Stop ε) α × σ

namespace Attempt

variable {σ ε α β : Type}

/-- Go on with the value of a computation, if it has one. -/
def andThen (m : Attempt σ ε α) (f : α → Attempt σ ε β) : Attempt σ ε β := fun s =>
  match m s with
  | (.ok a, s') => f a s'
  | (.error stop, s') => (.error stop, s')

instance : Monad (Attempt σ ε) where
  pure a := fun s => (.ok a, s)
  bind := andThen

/-- A computation that leaves the store alone. -/
def check (c : Check ε α) : Attempt σ ε α := fun s => (c, s)

/-- Reject. -/
def reject (code : ε) : Attempt σ ε α := check (Check.reject code)

/-- `if (bad) return code;` -/
def rejectIf (bad : Prop) [Decidable bad] (code : ε) : Attempt σ ε Unit :=
  check (Check.rejectIf bad code)

/-- Look at the store. -/
def get : Attempt σ ε σ := fun s => (.ok s, s)

/-- Change the store. -/
def modify (f : σ → σ) : Attempt σ ε Unit := fun s => (.ok (), f s)

/-- Change the store by a checked computation. -/
def update (f : σ → Check ε σ) : Attempt σ ε Unit := fun s =>
  match f s with
  | .ok s' => (.ok (), s')
  | .error stop => (.error stop, s)

/-- Run a computation, then clean up, whether it gave a value or was rejected. -/
def ensuring (m : Attempt σ ε α) (cleanup : Attempt σ ε Unit) : Attempt σ ε α := fun s =>
  match m s with
  | (.error .fault, s') => (.error .fault, s')
  | (outcome, s') =>
      match cleanup s' with
      | (.ok (), s'') => (outcome, s'')
      | (.error stop, s'') => (.error stop, s'')

/-- Run a computation, and clean up if it was rejected. -/
def onReject (m : Attempt σ ε α) (cleanup : Attempt σ ε Unit) : Attempt σ ε α := fun s =>
  match m s with
  | (.error (.reject code), s') =>
      match cleanup s' with
      | (.ok (), s'') => (.error (.reject code), s'')
      | (.error stop, s'') => (.error stop, s'')
  | outcome => outcome

theorem bind_apply (m : Attempt σ ε α) (f : α → Attempt σ ε β) (s : σ) :
    (m >>= f) s = match m s with
      | (.ok a, s') => f a s'
      | (.error stop, s') => (.error stop, s') := rfl

@[simp] theorem pure_apply (a : α) (s : σ) : (pure a : Attempt σ ε α) s = (.ok a, s) := rfl

@[simp] theorem check_apply (c : Check ε α) (s : σ) : (check c : Attempt σ ε α) s = (c, s) := rfl

theorem bind_of_ok {m : Attempt σ ε α} {f : α → Attempt σ ε β} {s s' : σ} {a : α}
    (h : m s = (.ok a, s')) : (m >>= f) s = f a s' := by
  rw [bind_apply, h]

/-- A computation in steps gives a value exactly when its steps do. -/
theorem bind_eq_ok {m : Attempt σ ε α} {f : α → Attempt σ ε β} {s s' : σ} {b : β} :
    (m >>= f) s = (.ok b, s') ↔ ∃ a next, m s = (.ok a, next) ∧ f a next = (.ok b, s') := by
  rw [bind_apply]
  rcases m s with ⟨_ | a, next⟩
  · constructor
    · intro h
      cases h
    · rintro ⟨_, _, h, -⟩
      cases h
  · constructor
    · intro h
      exact ⟨a, next, rfl, h⟩
    · rintro ⟨_, _, h, hf⟩
      cases h
      exact hf

theorem check_eq_ok {c : Check ε α} {s s' : σ} {a : α} :
    (check c : Attempt σ ε α) s = (.ok a, s') ↔ c = .ok a ∧ s' = s := by
  rw [check_apply, Prod.mk.injEq, eq_comm (a := s)]

/-! ## Triples -/

/-- A computation ended without a fault: with a value and `Q`, or rejected and with `E`. -/
def Ends (Q : α → σ → Prop) (E : ε → σ → Prop) : Except (Stop ε) α × σ → Prop
  | (.ok a, s) => Q a s
  | (.error .fault, _) => False
  | (.error (.reject code), s) => E code s

/-- From every store with `P` the computation ends with `Q` or `E`. -/
def Spec (P : σ → Prop) (m : Attempt σ ε α) (Q : α → σ → Prop) (E : ε → σ → Prop) : Prop :=
  ∀ s, P s → Ends Q E (m s)

variable {P P' : σ → Prop} {Q Q' : α → σ → Prop} {E E' : ε → σ → Prop}

theorem Ends.mono {outcome : Except (Stop ε) α × σ} (h : Ends Q E outcome)
    (hQ : ∀ a s, Q a s → Q' a s) (hE : ∀ code s, E code s → E' code s) :
    Ends Q' E' outcome := by
  rcases outcome with ⟨(_ | code) | a, s⟩
  · exact h
  · exact hE _ _ h
  · exact hQ _ _ h

theorem Spec.mono {m : Attempt σ ε α} (h : Spec P m Q E) (hP : ∀ s, P' s → P s)
    (hQ : ∀ a s, Q a s → Q' a s) (hE : ∀ code s, E code s → E' code s) : Spec P' m Q' E' :=
  fun s hs => (h s (hP s hs)).mono hQ hE

theorem Spec.pre {m : Attempt σ ε α} (h : Spec P m Q E) (hP : ∀ s, P' s → P s) : Spec P' m Q E :=
  h.mono hP (fun _ _ hq => hq) fun _ _ he => he

theorem Spec.post {m : Attempt σ ε α} (h : Spec P m Q E) (hQ : ∀ a s, Q a s → Q' a s) :
    Spec P m Q' E :=
  h.mono (fun _ hp => hp) hQ fun _ _ he => he

theorem Spec.bind {m : Attempt σ ε α} {f : α → Attempt σ ε β} {R : β → σ → Prop}
    (hm : Spec P m Q E) (hf : ∀ a, Spec (Q a) (f a) R E) : Spec P (m >>= f) R E := by
  intro s hs
  have hends := hm s hs
  rw [bind_apply]
  rcases hrun : m s with ⟨(_ | code) | a, next⟩ <;> rw [hrun] at hends
  · exact hends
  · exact hends
  · exact hf a next hends

/-- A check that is safe; its value is known afterwards. -/
theorem spec_check {c : Check ε α} (hsafe : Check.Safe c)
    (hE : ∀ code s, c = Check.reject code → P s → E code s) :
    Spec P (check c : Attempt σ ε α) (fun a s => c = .ok a ∧ P s) E := by
  intro s hs
  rw [check_apply]
  rcases c with (_ | code) | a
  · exact absurd rfl hsafe
  · exact hE code s rfl hs
  · exact ⟨rfl, hs⟩

theorem spec_update {f : σ → Check ε σ} {Q : Unit → σ → Prop}
    (h : ∀ s, P s → ∃ s', f s = .ok s' ∧ Q () s') :
    Spec P (update f : Attempt σ ε Unit) Q E := by
  intro s hs
  obtain ⟨s', hf, hq⟩ := h s hs
  rw [update, hf]
  exact hq

/-- A first step that is known to give a value. -/
theorem Spec.bind_ok {c : Check ε α} {f : α → Attempt σ ε β} {R : β → σ → Prop} {a : α}
    (hc : c = .ok a) (hf : Spec P (f a) R E) : Spec P (check c >>= f) R E := by
  intro s hs
  have hrun : (check c >>= f) s = f a s := bind_of_ok (check_eq_ok.mpr ⟨hc, rfl⟩)
  rw [hrun]
  exact hf s hs

/-- A first step that is a safe check. -/
theorem Spec.bind_check {c : Check ε α} {f : α → Attempt σ ε β} {R : β → σ → Prop}
    (hsafe : Check.Safe c) (hE : ∀ code s, c = Check.reject code → P s → E code s)
    (hf : ∀ a, c = .ok a → Spec P (f a) R E) : Spec P (check c >>= f) R E := by
  intro s hs
  rw [bind_apply, check_apply]
  rcases hc : c with (_ | code) | a
  · exact absurd hc hsafe
  · exact hE code s hc hs
  · exact hf a hc s hs

/-- A first step that rejects under a condition. -/
theorem Spec.bind_rejectIf {bad : Prop} [Decidable bad] {code : ε} {f : Unit → Attempt σ ε β}
    {R : β → σ → Prop} (hE : bad → ∀ s, P s → E code s) (hf : ¬ bad → Spec P (f ()) R E) :
    Spec P (rejectIf bad code >>= f) R E := by
  refine Spec.bind_check (Check.safe_rejectIf _ _) ?_ ?_
  · intro code' s hc
    rw [Check.rejectIf] at hc
    split at hc
    case isTrue hbad =>
      cases hc
      exact hE hbad s
    case isFalse => cases hc
  · intro _ hc
    exact hf (Check.rejectIf_eq_ok.mp hc)

/-- A first step that looks at the store. -/
theorem Spec.bind_get {f : σ → Attempt σ ε β} {R : β → σ → Prop}
    (hf : ∀ seen, P seen → Spec P (f seen) R E) : Spec P (get >>= f) R E :=
  fun s hs => hf s hs s hs

/-- A first step that looks at the store, which stays as it was seen. -/
theorem Spec.bind_get_same {f : σ → Attempt σ ε β} {R : β → σ → Prop}
    (hf : ∀ seen, P seen → Spec (fun s => s = seen) (f seen) R E) : Spec P (get >>= f) R E :=
  fun s hs => hf s hs s rfl

/-- A fact that does not depend on the store is known once it was established. -/
theorem Spec.known {m : Attempt σ ε α} {fact : Prop} (h : fact → Spec P m Q E) :
    Spec (fun s => fact ∧ P s) m Q E := fun s hs => h hs.1 s hs.2

/-- The clean-up runs after a value and after a rejection. -/
theorem Spec.ensuring {m : Attempt σ ε α} {cleanup : Attempt σ ε Unit} {R : α → σ → Prop}
    {F : ε → σ → Prop} (hm : Spec P m R F)
    (hvalue : ∀ a, Spec (R a) cleanup (fun _ => Q a) fun _ _ => False)
    (hreject : ∀ code, Spec (F code) cleanup (fun _ => E code) fun _ _ => False) :
    Spec P (m.ensuring cleanup) Q E := by
  intro s hs
  have hends := hm s hs
  rw [Attempt.ensuring]
  rcases hrun : m s with ⟨(_ | code) | a, next⟩ <;> rw [hrun] at hends
  · exact hends
  · have hclean := hreject code next hends
    rcases hlast : cleanup next with ⟨(_ | _) | _, last⟩ <;> rw [hlast] at hclean
    · exact hclean.elim
    · exact hclean.elim
    · simp only [hlast]
      exact hclean
  · have hclean := hvalue a next hends
    rcases hlast : cleanup next with ⟨(_ | _) | _, last⟩ <;> rw [hlast] at hclean
    · exact hclean.elim
    · exact hclean.elim
    · simp only [hlast]
      exact hclean

/-- The clean-up runs after a rejection only. -/
theorem Spec.onReject {m : Attempt σ ε α} {cleanup : Attempt σ ε Unit} {F : ε → σ → Prop}
    (hm : Spec P m Q F)
    (hreject : ∀ code, Spec (F code) cleanup (fun _ => E code) fun _ _ => False) :
    Spec P (m.onReject cleanup) Q E := by
  intro s hs
  have hends := hm s hs
  rw [Attempt.onReject]
  rcases hrun : m s with ⟨(_ | code) | a, next⟩ <;> rw [hrun] at hends
  · exact hends
  · have hclean := hreject code next hends
    rcases hlast : cleanup next with ⟨(_ | _) | _, last⟩ <;> rw [hlast] at hclean
    · exact hclean.elim
    · exact hclean.elim
    · simp only [hlast]
      exact hclean
  · exact hends

/-! ## Comparison -/

/-- Whatever the first computation achieves, the second achieves in the same way, unless it is
rejected with one of the codes `C`. -/
def Below (C : ε → Prop) (m m' : Attempt σ ε α) : Prop := ∀ s a s', m s = (.ok a, s') →
  m' s = (.ok a, s') ∨ ∃ code next, C code ∧ m' s = (.error (.reject code), next)

section Below

variable {C : ε → Prop}

theorem Below.refl (m : Attempt σ ε α) : Below C m m := fun _ _ _ h => .inl h

theorem Below.bind {m m' : Attempt σ ε α} {f f' : α → Attempt σ ε β} (hm : Below C m m')
    (hf : ∀ a, Below C (f a) (f' a)) : Below C (m >>= f) (m' >>= f') := by
  intro s b s' h
  obtain ⟨a, next, hfirst, hrest⟩ := bind_eq_ok.mp h
  obtain hfirst' | ⟨code, stopped, hcode, hrejected⟩ := hm _ _ _ hfirst
  · rw [bind_of_ok hfirst']
    exact hf a _ _ _ hrest
  · right
    refine ⟨code, stopped, hcode, ?_⟩
    rw [bind_apply, hrejected]

/-- A first step that the two computations have in common. -/
theorem Below.bind_same {m : Attempt σ ε α} {f f' : α → Attempt σ ε β}
    (hf : ∀ a, Below C (f a) (f' a)) : Below C (m >>= f) (m >>= f') :=
  (Below.refl m).bind hf

/-- First steps that are checks; their values need not be the same. -/
theorem Below.bind_check {c c' : Check ε α} {f f' : α → Attempt σ ε β}
    (h : ∀ a, c = .ok a → ∃ a', c' = .ok a' ∧ Below C (f a) (f' a')) :
    Below C (check c >>= f) (check c' >>= f') := by
  intro s b s' hrun
  obtain ⟨a, next, hfirst, hrest⟩ := bind_eq_ok.mp hrun
  obtain ⟨hc, rfl⟩ := check_eq_ok.mp hfirst
  obtain ⟨a', hc', hbelow⟩ := h a hc
  have hfirst' : (check c' : Attempt σ ε α) next = (.ok a', next) := check_eq_ok.mpr ⟨hc', rfl⟩
  rw [bind_of_ok hfirst']
  exact hbelow _ _ _ hrest

/-- First steps that reject under a condition; where only the second rejects, its code is one of
those that are let pass. -/
theorem Below.bind_rejectIf {bad bad' : Prop} [Decidable bad] [Decidable bad'] {code code' : ε}
    {f f' : Unit → Attempt σ ε β} (h : ¬ bad → ¬ bad' ∨ C code')
    (hf : ¬ bad → Below C (f ()) (f' ())) :
    Below C (rejectIf bad code >>= f) (rejectIf bad' code' >>= f') := by
  intro s b s' hrun
  obtain ⟨_, next, hfirst, hrest⟩ := bind_eq_ok.mp hrun
  obtain ⟨hgood, rfl⟩ := check_eq_ok.mp hfirst
  rw [Check.rejectIf_eq_ok] at hgood
  by_cases hbad' : bad'
  · right
    have hcode := (h hgood).resolve_left (not_not.mpr hbad')
    refine ⟨code', next, hcode, ?_⟩
    rw [bind_apply, rejectIf, check_apply, Check.rejectIf, if_pos hbad']
    rfl
  · have hfirst' : (rejectIf bad' code' : Attempt σ ε Unit) next = (.ok (), next) :=
      check_eq_ok.mpr ⟨Check.rejectIf_eq_ok.mpr hbad', rfl⟩
    rw [bind_of_ok hfirst']
    exact hf hgood _ _ _ hrest

/-- Checks that are cleaned up after in the same way; their values need not be the same. -/
theorem Below.bind_ensuring {c c' : Check ε α} {cleanup : Attempt σ ε Unit}
    {f f' : α → Attempt σ ε β} (h : ∀ a, c = .ok a → ∃ a', c' = .ok a' ∧ Below C (f a) (f' a')) :
    Below C ((check c).ensuring cleanup >>= f) ((check c').ensuring cleanup >>= f') := by
  intro s b s' hrun
  obtain ⟨a, next, hfirst, hrest⟩ := bind_eq_ok.mp hrun
  rcases c with (_ | code) | value
  · cases hfirst
  · simp only [ensuring, check_apply] at hfirst
    rcases hclean : cleanup s with ⟨_ | _, last⟩ <;> rw [hclean] at hfirst <;> cases hfirst
  · obtain ⟨a', rfl, hbelow⟩ := h value rfl
    simp only [ensuring, check_apply] at hfirst
    rcases hclean : cleanup s with ⟨_ | _, last⟩ <;> rw [hclean] at hfirst
    · cases hfirst
    · obtain ⟨hvalue, rfl⟩ := Prod.mk.inj hfirst
      obtain rfl := Except.ok.inj hvalue
      have hfirst' : (check (.ok a')).ensuring cleanup s = (.ok a', last) := by
        simp only [ensuring, check_apply, hclean]
      rw [bind_of_ok hfirst']
      exact hbelow _ _ _ hrest

end Below

/-! ## Computations that are never rejected -/

/-- The computation is never rejected. -/
def Unrejected (m : Attempt σ ε α) : Prop := ∀ s code next, m s ≠ (.error (.reject code), next)

theorem Unrejected.bind {m : Attempt σ ε α} {f : α → Attempt σ ε β} (hm : Unrejected m)
    (hf : ∀ a, Unrejected (f a)) : Unrejected (m >>= f) := by
  intro s code next hrun
  rw [bind_apply] at hrun
  rcases hfirst : m s with ⟨(_ | code') | a, middle⟩ <;> rw [hfirst] at hrun
  · cases hrun
  · exact hm s code' middle hfirst
  · exact hf a middle code next hrun

theorem Unrejected.pure (a : α) : Unrejected (Pure.pure a : Attempt σ ε α) := by
  intro s code next hrun
  cases hrun

theorem Unrejected.modify (f : σ → σ) : Unrejected (modify f : Attempt σ ε Unit) := by
  intro s code next hrun
  cases hrun

theorem Unrejected.update {f : σ → Check ε σ} (h : ∀ s code, f s ≠ Check.reject code) :
    Unrejected (update f) := by
  intro s code next hrun
  rw [Attempt.update] at hrun
  rcases hf : f s with (_ | code') | s' <;> rw [hf] at hrun <;> cases hrun
  exact h s code hf

/-! ## Growth -/

/-- The computation makes a measure of the store no smaller. -/
def Grows (size : σ → ℕ) (m : Attempt σ ε α) : Prop := ∀ s, size s ≤ size (m s).2

section Grows

variable {size : σ → ℕ}

theorem Grows.check (c : Check ε α) : Grows size (check c : Attempt σ ε α) := fun _ => le_rfl

theorem Grows.pure (a : α) : Grows size (Pure.pure a : Attempt σ ε α) := fun _ => le_rfl

theorem Grows.get : Grows size (get : Attempt σ ε σ) := fun _ => le_rfl

theorem Grows.bind {m : Attempt σ ε α} {f : α → Attempt σ ε β} (hm : Grows size m)
    (hf : ∀ a, Grows size (f a)) : Grows size (m >>= f) := by
  intro s
  have hfirst := hm s
  rw [bind_apply]
  rcases hrun : m s with ⟨_ | a, next⟩ <;> rw [hrun] at hfirst
  · exact hfirst
  · exact hfirst.trans (hf a next)

theorem Grows.ensuring {m : Attempt σ ε α} {cleanup : Attempt σ ε Unit} (hm : Grows size m)
    (hcleanup : Grows size cleanup) : Grows size (m.ensuring cleanup) := by
  intro s
  have hfirst := hm s
  rw [Attempt.ensuring]
  rcases hrun : m s with ⟨(_ | code) | a, next⟩ <;> rw [hrun] at hfirst
  · exact hfirst
  · have hlast := hfirst.trans (hcleanup next)
    rcases hclean : cleanup next with ⟨_ | _, last⟩ <;> rw [hclean] at hlast <;>
      simpa only [hclean] using hlast
  · have hlast := hfirst.trans (hcleanup next)
    rcases hclean : cleanup next with ⟨_ | _, last⟩ <;> rw [hclean] at hlast <;>
      simpa only [hclean] using hlast

/-- A clean-up after a rejection adds to what the computation reached. -/
theorem Grows.after_onReject {cleanup : Attempt σ ε Unit} (hcleanup : Grows size cleanup)
    (m : Attempt σ ε α) (s : σ) : size (m s).2 ≤ size (m.onReject cleanup s).2 := by
  rw [Attempt.onReject]
  rcases hrun : m s with ⟨(_ | code) | a, next⟩
  · exact le_rfl
  · have hlast := hcleanup next
    rcases hclean : cleanup next with ⟨_ | _, last⟩ <;> rw [hclean] at hlast <;>
      simpa only [hclean] using hlast
  · exact le_rfl

theorem Grows.onReject {m : Attempt σ ε α} {cleanup : Attempt σ ε Unit} (hm : Grows size m)
    (hcleanup : Grows size cleanup) : Grows size (m.onReject cleanup) :=
  fun s => (hm s).trans (hcleanup.after_onReject m s)

end Grows

end Attempt

end LibApta
