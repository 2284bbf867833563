import Mathlib.Order.Nat
import Mathlib.Data.Nat.Notation

/-!
# The first longest run

The first longest run of a predicate on the natural numbers is the longest interval, from a bound on,
where the predicate holds throughout, and of equally long ones the first. A single pass finds it
(`Scanned`); and when the predicate changes at one number only, the interval that was the first longest
run, with that number put to it or taken from it, stays the first longest run under conditions on the
neighbourhood alone (`append`, `prepend`, `behead`, `shrink`, `single`).
-/

namespace LibApta.LongestRun

/-- The predicate holds from `first` on, up to `past`. -/
def Run (P : ℕ → Prop) (first past : ℕ) : Prop := ∀ i, first ≤ i → i < past → P i

/-- The interval is a run that goes on neither way. -/
structure Maximal (P : ℕ → Prop) (first past : ℕ) : Prop where
  nonempty : first < past
  run : Run P first past
  before : ∀ i, i + 1 = first → ¬P i
  after : ¬P past

/-- The interval is the first longest run that starts at `lo` or later. -/
structure FirstLongest (P : ℕ → Prop) (lo first past : ℕ) : Prop where
  nonempty : first < past
  inside : lo ≤ first
  run : Run P first past
  longest : ∀ f p, lo ≤ f → Run P f p →
    p - f < past - first ∨ (p - f = past - first ∧ first ≤ f)

variable {P Q : ℕ → Prop} {lo lo' first past : ℕ}

namespace FirstLongest

/-- There is at most one first longest run. -/
theorem unique (h : FirstLongest P lo first past) {first' past' : ℕ}
    (h' : FirstLongest P lo first' past') : first' = first ∧ past' = past := by
  have hle := h.longest first' past' h'.inside h'.run
  have hge := h'.longest first past h.inside h.run
  have hpos := h.nonempty
  have hpos' := h'.nonempty
  omega

theorem congr (h : FirstLongest P lo first past) (hQ : ∀ i, Q i ↔ P i) :
    FirstLongest Q lo first past where
  nonempty := h.nonempty
  inside := h.inside
  run i hfirst hpast := (hQ i).mpr (h.run i hfirst hpast)
  longest f p hlo hrun := h.longest f p hlo fun i hf hp => (hQ i).mp (hrun i hf hp)

/-- A run that cannot go on past the first longest one starts in it or after it. -/
theorem overlap (h : FirstLongest P lo first past) {f p : ℕ} (hlo : lo ≤ f) (hrun : Run P f p)
    (hf : f < past) (hp : first < p) : first ≤ f ∧ p ≤ past := by
  have hpos := h.nonempty
  -- The two runs overlap, so together they are one.
  have hunion : Run P (min f first) (max p past) := by
    intro i hlow hhigh
    by_cases hin : first ≤ i ∧ i < past
    · exact h.run i hin.1 hin.2
    · exact hrun i (by omega) (by omega)
  have hbound := h.longest (min f first) (max p past) (le_min hlo h.inside) hunion
  omega

/-- The number after the first longest run is put to it. -/
theorem append (h : FirstLongest P lo first past) (hlo : lo ≤ lo') (hlo' : lo' ≤ first)
    (hQ : ∀ i, Q i ↔ P i ∨ i = past) (hnext : ¬ Q (past + 1)) :
    FirstLongest Q lo' first (past + 1) := by
  refine ⟨h.nonempty.trans (Nat.lt_succ_self past), hlo', fun i hfirst hlast => ?_, ?_⟩
  · rcases Nat.lt_succ_iff_lt_or_eq.mp hlast with hlt | rfl
    · exact (hQ i).mpr (.inl (h.run i hfirst hlt))
    · exact (hQ i).mpr (.inr rfl)
  · intro f p hf hrun
    by_cases hmem : f ≤ past ∧ past < p
    · have hp : p = past + 1 := by
        by_contra hne
        exact hnext (hrun (past + 1) (by omega) (by omega))
      have hold : Run P f past := fun i hif hip =>
        ((hQ i).mp (hrun i hif (by omega))).resolve_right hip.ne
      have hbound := h.longest f past (hlo.trans hf) hold
      have hpos := h.nonempty
      omega
    · have hold : Run P f p := fun i hif hip =>
        ((hQ i).mp (hrun i hif hip)).resolve_right fun heq => hmem (by omega)
      have hbound := h.longest f p (hlo.trans hf) hold
      have hpos := h.nonempty
      omega

/-- The number before the first longest run is put to it. -/
theorem prepend (h : FirstLongest P lo (first + 1) past) (hlo : lo ≤ first)
    (hQ : ∀ i, Q i ↔ P i ∨ i = first) (hprevious : ∀ i, i + 1 = first → ¬ Q i) :
    FirstLongest Q lo first past := by
  refine ⟨(Nat.lt_succ_self first).trans h.nonempty, hlo, fun i hfirst hlast => ?_, ?_⟩
  · rcases hfirst.lt_or_eq with hlt | rfl
    · exact (hQ i).mpr (.inl (h.run i hlt hlast))
    · exact (hQ first).mpr (.inr rfl)
  · intro f p hf hrun
    have hpos := h.nonempty
    by_cases hmem : f ≤ first ∧ first < p
    · have hstart : f = first := by
        by_contra hne
        exact hprevious (first - 1) (by omega) (hrun (first - 1) (by omega) (by omega))
      have hold : Run P (first + 1) p := fun i hif hip =>
        ((hQ i).mp (hrun i (by omega) hip)).resolve_right (by omega)
      have hbound := h.longest (first + 1) p h.inside hold
      omega
    · have hold : Run P f p := fun i hif hip =>
        ((hQ i).mp (hrun i hif hip)).resolve_right fun heq => hmem (by omega)
      have hbound := h.longest f p hf hold
      omega

/-- The first number of the first longest run is taken from it, and no other run is longer than the
rest of it, or as long and earlier. -/
theorem behead (h : FirstLongest P lo first past) (hrest : first + 1 < past)
    (hQ : ∀ i, Q i ↔ P i ∧ i ≠ first)
    (hearlier : ∀ f p, lo ≤ f → p ≤ first → Run P f p → p - f < past - (first + 1))
    (hlater : ∀ f p, past ≤ f → Run P f p → p - f ≤ past - (first + 1)) :
    FirstLongest Q lo (first + 1) past := by
  refine ⟨hrest, h.inside.trans (Nat.le_succ first), fun i hfirst hlast => ?_, ?_⟩
  · exact (hQ i).mpr ⟨h.run i (by omega) hlast, by omega⟩
  · intro f p hf hrun
    have hold : Run P f p := fun i hif hip => ((hQ i).mp (hrun i hif hip)).1
    by_cases hbefore : p ≤ first
    · exact .inl (hearlier f p hf hbefore hold)
    by_cases hafter : past ≤ f
    · have hbound := hlater f p hafter hold
      omega
    -- The run meets the first longest one, so it is part of it, and does not hold its first number.
    obtain ⟨hstart, hstop⟩ := h.overlap hf hold (by omega) (by omega)
    have hne : f ≠ first := by
      rintro rfl
      exact ((hQ f).mp (hrun f le_rfl (by omega))).2 rfl
    omega

/-- The predicate shrinks outside the first longest run, and the runs that a lower bound lets in are
shorter. -/
theorem shrink (h : FirstLongest P lo first past) (hlo : lo' ≤ lo) (hsub : ∀ i, Q i → P i)
    (hkeep : Run Q first past)
    (hlower : ∀ f p, lo' ≤ f → f < lo → Run Q f p → p - f < past - first) :
    FirstLongest Q lo' first past := by
  refine ⟨h.nonempty, hlo.trans h.inside, hkeep, fun f p hf hrun => ?_⟩
  by_cases hlow : f < lo
  · exact .inl (hlower f p hf hlow hrun)
  · exact h.longest f p (not_lt.mp hlow) fun i hif hip => hsub i (hrun i hif hip)

/-- No number before it and no two neighbours: a single number is the first longest run. -/
theorem single {c : ℕ} (hlo : lo ≤ c) (hc : P c) (hbefore : ∀ i, lo ≤ i → i < c → ¬ P i)
    (hapart : ∀ i, lo ≤ i → P i → ¬ P (i + 1)) : FirstLongest P lo c (c + 1) := by
  refine ⟨Nat.lt_succ_self c, hlo, fun i hfirst hlast => ?_, fun f p hf hrun => ?_⟩
  · obtain rfl : i = c := by omega
    exact hc
  · by_cases hempty : p ≤ f
    · omega
    have hshort : p ≤ f + 1 := by
      by_contra hlong
      exact hapart f hf (hrun f le_rfl (by omega)) (hrun (f + 1) (by omega) (by omega))
    have hstart : c ≤ f := by
      by_contra hlt
      exact hbefore f hf (by omega) (hrun f le_rfl (by omega))
    omega

end FirstLongest

/-! ## A single pass -/

/-- The best run of a pass that has closed every run up to an edge: none, or the first longest one
below the edge. -/
def Scanned (P : ℕ → Prop) (lo edge : ℕ) (best : ℕ × ℕ) : Prop :=
  (best = (0, 0) ∧ ∀ i, lo ≤ i → i < edge → ¬ P i) ∨
    FirstLongest (fun i => P i ∧ i < edge) lo best.1 best.2

variable {edge i : ℕ} {best : ℕ × ℕ}

/-- A number where the predicate fails is passed over. -/
theorem Scanned.skip (h : Scanned P lo i best) (hstop : ¬ P i) : Scanned P lo (i + 1) best := by
  rcases h with ⟨rfl, hnone⟩ | hbest
  · refine .inl ⟨rfl, fun k hlo hlt hk => ?_⟩
    rcases Nat.lt_succ_iff_lt_or_eq.mp hlt with hlt | rfl
    · exact hnone k hlo hlt hk
    · exact hstop hk
  · refine .inr (hbest.congr fun k => ⟨fun hk => ⟨hk.1, ?_⟩, fun hk => ⟨hk.1, by omega⟩⟩)
    rcases Nat.lt_succ_iff_lt_or_eq.mp hk.2 with hlt | rfl
    · exact hlt
    · exact absurd hk.1 hstop

/-- A run is closed: it becomes the best one when it is longer. -/
theorem Scanned.close (h : Scanned P lo first best) (hlo : lo ≤ first) (hlt : first < i)
    (hrun : Run P first i) (hstart : first = lo ∨ ¬ P (first - 1)) (hstop : ¬ P i) :
    Scanned P lo (i + 1) (if best.2 - best.1 < i - first then (first, i) else best) := by
  -- A run below the edge ends before the closed one, or lies in it.
  have hcases (f p : ℕ) (hf : lo ≤ f) (hfp : f < p)
      (hother : Run (fun k => P k ∧ k < i + 1) f p) : p ≤ first ∨ (first ≤ f ∧ p ≤ i) := by
    by_contra hneither
    rw [not_or] at hneither
    have hend : p ≤ i := by
      by_contra hlong
      by_cases hfi : f ≤ i
      · exact hstop (hother i hfi (by omega)).1
      · exact absurd (hother f le_rfl hfp).2 (by omega)
    rcases hstart with rfl | hprevious
    · exact hneither.2 ⟨hf, hend⟩
    · exact hprevious (hother (first - 1) (by omega) (by omega)).1
  have hbelow (f p : ℕ) (hp : p ≤ first) (hother : Run (fun k => P k ∧ k < i + 1) f p) :
      Run (fun k => P k ∧ k < first) f p :=
    fun k hfk hkp => ⟨(hother k hfk hkp).1, by omega⟩
  right
  split_ifs with hlonger
  · refine ⟨hlt, hlo, fun k hfk hki => ⟨hrun k hfk hki, by omega⟩, fun f p hf hother => ?_⟩
    show p - f < i - first ∨ (p - f = i - first ∧ first ≤ f)
    by_cases hempty : p ≤ f
    · omega
    rcases hcases f p hf (by omega) hother with hp | hin
    · left
      rcases h with ⟨-, hnone⟩ | hbest
      · exact absurd (hother f le_rfl (by omega)).1 (hnone f hf (by omega))
      · have hbound := hbest.longest f p hf (hbelow f p hp hother)
        omega
    · omega
  · rcases h with ⟨rfl, -⟩ | hbest
    · exact absurd hlonger (by simp only; omega)
    have hpos := hbest.nonempty
    have hedge : best.2 ≤ first := by
      have hlast := (hbest.run (best.2 - 1) (by omega) (by omega)).2
      omega
    refine ⟨hpos, hbest.inside, fun k hfk hkp => ?_, fun f p hf hother => ?_⟩
    · obtain ⟨hk, hkf⟩ := hbest.run k hfk hkp
      exact ⟨hk, by omega⟩
    · by_cases hempty : p ≤ f
      · omega
      rcases hcases f p hf (by omega) hother with hp | hin
      · exact hbest.longest f p hf (hbelow f p hp hother)
      · omega

end LibApta.LongestRun
