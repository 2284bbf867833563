import Mathlib.Data.List.Induction
import Mathlib.Data.Set.Basic

/-!
# Runs of a partial labelled step function

A run takes a list of labels through a step function that may have no result. An invariant that
every guarded step preserves holds in every state that a run of guarded steps reaches, and a
relation between a state and its successor that composes holds between the ends of a run.
-/

namespace LibApta.Runs

variable {σ label : Type}

/-- Take a list of labels through a step function. -/
def run (step : label → σ → Option σ) : List label → σ → Option σ
  | [], s => some s
  | l :: rest, s => (step l s).bind (run step rest)

/-- Every step of a run is taken in a state that its guard admits. -/
def Guarded (step : label → σ → Option σ) (guard : label → σ → Prop) : List label → σ → Prop
  | [], _ => True
  | l :: rest, s => guard l s ∧ ∀ s', step l s = some s' → Guarded step guard rest s'

@[simp] theorem run_nil (step : label → σ → Option σ) (s : σ) : run step [] s = some s := rfl

theorem run_cons (step : label → σ → Option σ) (l : label) (rest : List label) (s : σ) :
    run step (l :: rest) s = (step l s).bind (run step rest) := rfl

/-- A run of a concatenation passes through the end of its first part. -/
theorem run_append (step : label → σ → Option σ) (first second : List label) (s : σ) :
    run step (first ++ second) s = (run step first s).bind (run step second) := by
  induction first generalizing s with
  | nil => rfl
  | cons l rest ih =>
      rw [List.cons_append, run_cons, run_cons, Option.bind_assoc]
      congr 1
      funext next
      exact ih next

/-- A guard on a run is a guard on its first part. -/
theorem Guarded.of_append {step : label → σ → Option σ} {guard : label → σ → Prop}
    {first second : List label} {s : σ} (h : Guarded step guard (first ++ second) s) :
    Guarded step guard first s := by
  induction first generalizing s with
  | nil => trivial
  | cons l rest ih => exact ⟨h.1, fun next hnext => ih (h.2 next hnext)⟩

/-- Every run is guarded by a guard that admits every state. -/
theorem guarded_true (step : label → σ → Option σ) (labels : List label) (s : σ) :
    Guarded step (fun _ _ => True) labels s := by
  induction labels generalizing s with
  | nil => trivial
  | cons l rest ih => exact ⟨trivial, fun next _ => ih next⟩

/-- What holds of every label of a run guards it. -/
theorem guarded_of_forall {step : label → σ → Option σ} {p : label → Prop} {labels : List label}
    (h : ∀ l ∈ labels, p l) (s : σ) : Guarded step (fun l _ => p l) labels s := by
  induction labels generalizing s with
  | nil => trivial
  | cons l rest ih =>
      obtain ⟨hl, hrest⟩ := List.forall_mem_cons.mp h
      exact ⟨hl, fun next _ => ih hrest next⟩

/-- A stronger guard implies a weaker one. -/
theorem Guarded.mono {step : label → σ → Option σ} {guard weaker : label → σ → Prop}
    (himp : ∀ l s, guard l s → weaker l s) {labels : List label} {s : σ}
    (h : Guarded step guard labels s) : Guarded step weaker labels s := by
  induction labels generalizing s with
  | nil => trivial
  | cons l rest ih => exact ⟨himp l s h.1, fun next hnext => ih (h.2 next hnext)⟩

/-- Two guards on a run are one. -/
theorem Guarded.and {step : label → σ → Option σ} {guard other : label → σ → Prop}
    {labels : List label} {s : σ} (h : Guarded step guard labels s)
    (h' : Guarded step other labels s) :
    Guarded step (fun l s => guard l s ∧ other l s) labels s := by
  induction labels generalizing s with
  | nil => trivial
  | cons l rest ih => exact ⟨⟨h.1, h'.1⟩, fun next hnext => ih (h.2 next hnext) (h'.2 next hnext)⟩

/-- An invariant of the guarded steps holds at the end of every guarded run. -/
theorem invariant {step : label → σ → Option σ} {guard : label → σ → Prop} {P : σ → Prop}
    (hstep : ∀ l s s', P s → guard l s → step l s = some s' → P s') {labels : List label}
    {s s' : σ} (hs : P s) (hg : Guarded step guard labels s) (hrun : run step labels s = some s') :
    P s' := by
  induction labels generalizing s with
  | nil => exact Option.some.inj hrun ▸ hs
  | cons l rest ih =>
      obtain ⟨next, hnext, hrest⟩ := Option.bind_eq_some_iff.mp hrun
      exact ih (hstep l s next hs hg.1 hnext) (hg.2 next hnext) hrest

/-- What an invariant and a guard imply of each step guards the run. -/
theorem Guarded.of_invariant {step : label → σ → Option σ} {guard other : label → σ → Prop}
    {P : σ → Prop} (hstep : ∀ l s s', P s → guard l s → step l s = some s' → P s')
    (himp : ∀ l s, P s → guard l s → other l s) {labels : List label} {s : σ} (hs : P s)
    (h : Guarded step guard labels s) : Guarded step other labels s := by
  induction labels generalizing s with
  | nil => trivial
  | cons l rest ih =>
      exact ⟨himp l s hs h.1, fun next hnext => ih (hstep l s next hs h.1 hnext) (h.2 next hnext)⟩

/-- A guard on a run is a guard on its second part. -/
theorem Guarded.after {step : label → σ → Option σ} {guard : label → σ → Prop}
    {first second : List label} {s t : σ} (h : Guarded step guard (first ++ second) s)
    (hrun : run step first s = some t) : Guarded step guard second t := by
  induction first generalizing s with
  | nil => exact Option.some.inj hrun ▸ h
  | cons l rest ih =>
      obtain ⟨next, hnext, hrest⟩ := Option.bind_eq_some_iff.mp hrun
      exact ih (h.2 next hnext) hrest

/-- Guards on two runs, one after the other, are a guard on the whole. -/
theorem Guarded.append {step : label → σ → Option σ} {guard : label → σ → Prop}
    {first second : List label} {s : σ} (h : Guarded step guard first s)
    (h' : ∀ t, run step first s = some t → Guarded step guard second t) :
    Guarded step guard (first ++ second) s := by
  induction first generalizing s with
  | nil => exact h' s rfl
  | cons l rest ih =>
      refine ⟨h.1, fun next hnext => ih (h.2 next hnext) fun t ht => h' t ?_⟩
      rw [run_cons, hnext]
      exact ht

/-- An invariant of a state and the labels that led to it holds at the end of every guarded run. -/
theorem history {step : label → σ → Option σ} {guard : label → σ → Prop}
    {P : List label → σ → Prop} {start : σ} (hstart : P [] start)
    (hstep : ∀ labels l s s', run step labels start = some s → P labels s → guard l s →
      step l s = some s' → P (labels ++ [l]) s') {labels : List label} {s' : σ}
    (hg : Guarded step guard labels start) (hrun : run step labels start = some s') :
    P labels s' := by
  -- The last label is the last step.
  induction labels using List.reverseRecOn generalizing s' with
  | nil => exact Option.some.inj hrun ▸ hstart
  | append_singleton labels l ih =>
      rw [run_append] at hrun
      obtain ⟨s, hs, hlast⟩ := Option.bind_eq_some_iff.mp hrun
      obtain ⟨t, ht, heq⟩ := Option.bind_eq_some_iff.mp hlast
      obtain rfl := Option.some.inj heq
      exact hstep labels l s t hs (ih hg.of_append hs) (hg.after hs).1 ht

/-- A reflexive and transitive relation that every guarded step establishes holds between the ends
of every guarded run, for states that satisfy an invariant. -/
theorem relation {step : label → σ → Option σ} {guard : label → σ → Prop} {P : σ → Prop}
    {R : σ → σ → Prop} (hrefl : ∀ s, R s s) (htrans : ∀ a b c, R a b → R b c → R a c)
    (hstep : ∀ l s s', P s → guard l s → step l s = some s' → P s' ∧ R s s')
    {labels : List label} {s s' : σ} (hs : P s) (hg : Guarded step guard labels s)
    (hrun : run step labels s = some s') : R s s' := by
  induction labels generalizing s with
  | nil => exact Option.some.inj hrun ▸ hrefl s
  | cons l rest ih =>
      obtain ⟨next, hnext, hrest⟩ := Option.bind_eq_some_iff.mp hrun
      obtain ⟨hP, hR⟩ := hstep l s next hs hg.1 hnext
      exact htrans _ _ _ hR (ih hP (hg.2 next hnext) hrest)

/-! ## What a run gathers -/

/-- The union of what the steps of a run contribute. -/
def gather {α : Type} (step : label → σ → Option σ) (contribution : label → σ → Set α) :
    List label → σ → Set α
  | [], _ => ∅
  | l :: rest, s =>
      contribution l s ∪ {a | ∃ s', step l s = some s' ∧ a ∈ gather step contribution rest s'}

/-- An invariant that relates the state to what has been gathered holds at the end of a run for what
the whole run gathers. -/
theorem gather_invariant {α : Type} {step : label → σ → Option σ} {guard : label → σ → Prop}
    {contribution : label → σ → Set α} {P : Set α → σ → Prop}
    (hstep : ∀ gathered l s s', P gathered s → guard l s → step l s = some s' →
      P (gathered ∪ contribution l s) s') {labels : List label} {s s' : σ} {gathered : Set α}
    (hs : P gathered s) (hg : Guarded step guard labels s) (hrun : run step labels s = some s') :
    P (gathered ∪ gather step contribution labels s) s' := by
  induction labels generalizing s gathered with
  | nil =>
      rw [gather, Set.union_empty]
      exact Option.some.inj hrun ▸ hs
  | cons l rest ih =>
      obtain ⟨next, hnext, hrest⟩ := Option.bind_eq_some_iff.mp hrun
      have hdone := ih (hstep gathered l s next hs hg.1 hnext) (hg.2 next hnext) hrest
      have hset : {a | ∃ s', step l s = some s' ∧ a ∈ gather step contribution rest s'} =
          gather step contribution rest next := by
        ext a
        simp [hnext]
      rw [gather, hset, ← Set.union_assoc]
      exact hdone

end LibApta.Runs
