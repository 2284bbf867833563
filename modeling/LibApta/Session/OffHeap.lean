import LibApta.Query.Published
import LibApta.Waveform.Room

/-!
# Bounded sessions stay off the heap

A session that was created in a workspace with bounded result slots asks the allocator of its context
for nothing more, except while it is seeded. Most layers ask through the session and publications take
a slot; what is left are the accumulators of the overview layer, for which the detail layer has made
room in the workspace before the overview layer runs.
-/

namespace LibApta

namespace Session

/-! ## The reservation -/

/-- The columns that are counted are those of the queue that are neither in the store nor seen. -/
theorem additionalColumns_eq (framesPerColumn : ℕ) (overview : Overview) (queue : List PcmNode)
    (seen : List ℕ) :
    additionalColumns framesPerColumn overview queue seen =
      ((queueColumns framesPerColumn queue \ overview.columnSet) \ seen.toFinset).card := by
  induction queue generalizing seen with
  | nil => simp [additionalColumns, queueColumns]
  | cons node rest ih =>
      have hnodup : (nodeColumns framesPerColumn node).Nodup := by
        unfold nodeColumns
        split_ifs
        · exact List.nodup_nil
        · exact List.nodup_range'
      have hfirst : ((nodeColumns framesPerColumn node).filter fun column =>
          decide (column ∉ overview.accumulators.map Accumulator.columnIndex) &&
            decide (column ∉ seen)).length =
          (((nodeColumns framesPerColumn node).toFinset \ overview.columnSet) \
            seen.toFinset).card := by
        rw [← List.toFinset_card_of_nodup (hnodup.filter _)]
        congr 1
        ext column
        simp only [List.mem_toFinset, List.mem_filter, Bool.and_eq_true, decide_eq_true_eq,
          Finset.mem_sdiff, Overview.columnSet, and_assoc]
      have hsplit : (queueColumns framesPerColumn (node :: rest) \ overview.columnSet) \
            seen.toFinset =
          (((nodeColumns framesPerColumn node).toFinset \ overview.columnSet) \ seen.toFinset) ∪
            ((queueColumns framesPerColumn rest \ overview.columnSet) \
              (seen ++ nodeColumns framesPerColumn node).toFinset) := by
        ext column
        simp only [queueColumns, List.flatMap_cons, List.toFinset_append, Finset.mem_sdiff,
          Finset.mem_union]
        tauto
      rw [additionalColumns, ih, hfirst, hsplit, Finset.card_union_of_disjoint]
      refine Finset.disjoint_left.mpr fun column hleft hright => ?_
      simp only [List.toFinset_append, Finset.mem_sdiff, Finset.mem_union] at hleft hright
      tauto

/-- A reservation that succeeds leaves room for the columns of the queue. -/
theorem reserveAccumulators_room {s t : Session} {status : Status} (hworkspace : s.usesWorkspace = true)
    (hs : s.overview.Sorted) (hreserve : s.reserveAccumulators = (status, t))
    (hok : status.failed = false) :
    t.overview.Sorted ∧ t.overview.HasRoom (queueColumns s.framesPerColumn s.queue) := by
  unfold reserveAccumulators at hreserve
  simp only [hworkspace, Bool.not_true, Bool.false_or, decide_eq_true_eq] at hreserve
  split_ifs at hreserve with hempty hbeyond hnone hlimit
  · obtain ⟨-, rfl⟩ := Prod.mk.inj hreserve
    refine ⟨hs, .inl ?_⟩
    rw [hempty]
    exact Finset.empty_subset _
  · obtain ⟨rfl, -⟩ := Prod.mk.inj hreserve
    cases hok
  · obtain ⟨-, rfl⟩ := Prod.mk.inj hreserve
    rw [additionalColumns_eq, List.toFinset_nil, Finset.sdiff_empty, Finset.card_eq_zero,
      Finset.sdiff_eq_empty_iff_subset] at hnone
    exact ⟨hs, .inl hnone⟩
  · obtain ⟨rfl, -⟩ := Prod.mk.inj hreserve
    cases hok
  · rw [additionalColumns_eq, List.toFinset_nil, Finset.sdiff_empty,
      ← Overview.card_columnSet hs] at hreserve
    cases hgrow : s.overview.ensureCapacity (s.config.requests .waveform3Band)
        (s.overview.columnSet.card +
          (queueColumns s.framesPerColumn s.queue \ s.overview.columnSet).card) s.env with
    | mk answer rest =>
        obtain ⟨overview, env⟩ := rest
        rw [hgrow] at hreserve
        obtain ⟨rfl, rfl⟩ := Prod.mk.inj hreserve
        obtain ⟨hsame, hfits⟩ := Overview.ensureCapacity_ok hok hgrow
        refine ⟨?_, .inr ?_⟩
        · change KeyedList.Sorted _ overview.accumulators
          rw [hsame]
          exact hs
        · rw [Overview.columnSet_eq (congrArg _ hsame), ← Finset.card_union_of_disjoint
            Finset.disjoint_sdiff, Finset.union_sdiff_self_eq_union] at *
          exact hfits

/-! ## Bounded sessions -/

/-- Whether the session has a workspace, and whether its results have slots. -/
def provisions (s : Session) : Bool × Bool := (s.usesWorkspace, s.config.boundedResultSlots)

theorem provisions_frame : RunFrame provisions where
  toLayerFrame := .of_unseen fun _ _ _ _ _ _ _ _ _ => rfl
  queue _ _ := rfl
  demand _ _ _ := rfl
  length _ _ _ := rfl
  flags _ _ _ _ := rfl
  recorded _ _ := rfl
  estimate _ _ _ _ _ := rfl
  revision _ _ _ _ _ _ := rfl
  accepted _ _ _ := rfl
  derived _ _ := rfl
  noted _ _ := rfl
  counters _ _ _ := rfl

/-- The session has a workspace, and its results have slots. -/
abbrev Bounded (s : Session) : Prop := s.provisions = (true, true)

theorem bounded_invariant : RunInvariant Bounded := provisions_frame.invariant (true, true)

namespace Bounded

variable {s : Session}

theorem memory (h : s.Bounded) : s.memory = .workspace := by
  rw [Session.memory, (Prod.mk.inj h).1]
  rfl

theorem activated {t : Session} {status : Status} (h : s.Bounded) (hactivate : s.activate = (status, t)) :
    t.Bounded := bounded_invariant.activate hactivate h

/-! ### Input -/

end Bounded

/-- A process call of a session without a source. -/
def idleProcessCall : Call := plainCall (.process (fun _ _ => .wouldBlock) ⟨0, 0, 0⟩)

end Session

end LibApta
