import LibApta.Session.Intake
import LibApta.Session.Settings
import LibApta.Waveform.ParallelStore

/-!
# Properties of the store that calls keep

A property of the store that survives the elementary steps on it (a column looked up, a sample added,
the marks refreshed or forgotten, a column seeded) survives every call, and so holds along every run of
a session that starts with it. The store stays sorted, and its counter is the number of its complete
columns.
-/

namespace LibApta

/-- A property of the store that its elementary steps keep. -/
structure Overview.Kept (Q : Overview → Prop) : Prop where
  grown : ∀ {overview overview' : Overview} {hasBands : Bool} {needed : ℕ} {status : Status}
    {env env' : Environment}, Q overview →
    overview.ensureCapacity hasBands needed env = (status, overview', env') → Q overview'
  found : ∀ {overview overview' : Overview} {hasBands : Bool} {columnIndex position : ℕ}
    {env env' : Environment}, Q overview →
    overview.findOrInsert hasBands columnIndex env = (.ok position, overview', env') → Q overview'
  added : ∀ {overview overview' : Overview} {hasBands : Bool} {columnIndex position : ℕ}
    {env env' : Environment} sample, Q overview →
    overview.findOrInsert hasBands columnIndex env = (.ok position, overview', env') →
    Q (overview'.addSampleAt hasBands position sample)
  refreshed : ∀ {overview : Overview} framesPerColumn endOfInput, Q overview →
    Q (refreshCompletedColumns framesPerColumn endOfInput overview)
  forgotten : ∀ {overview : Overview}, Q overview → Q overview.forgetMarks
  seeded : ∀ {overview overview' : Overview} {hasBands : Bool} {columnIndex position : ℕ}
    {env env' : Environment} sampleCount column, Q overview →
    overview.findOrInsert hasBands columnIndex env = (.ok position, overview', env') →
    Q (overview'.seedAt position sampleCount column)

namespace Overview.Kept

variable {Q : Overview → Prop} {overview overview' : Overview} {env env' : Environment}
  {status : Status}

theorem findOrInsert (hQ : Kept Q) {hasBands : Bool} {columnIndex : ℕ} {answer : Except Status ℕ}
    (h : overview.findOrInsert hasBands columnIndex env = (answer, overview', env'))
    (hs : Q overview) : Q overview' := by
  cases answer with
  | ok position => exact hQ.found hs h
  | error status => rwa [(findOrInsert_error h).2]

theorem processSamples (hQ : Kept Q) {framesPerColumn : ℕ} {hasBands : Bool} {samples : List ℚ}
    {frame : ℕ} (h : LibApta.processSamples framesPerColumn hasBands samples frame overview env =
      (status, overview', env')) (hs : Q overview) : Q overview' := by
  induction samples generalizing frame overview env with
  | nil =>
      obtain ⟨-, rfl, -⟩ := Prod.mk.inj h |>.imp_right Prod.mk.inj
      exact hs
  | cons sample rest ih =>
      unfold LibApta.processSamples at h
      split_ifs at h
      · obtain ⟨-, rfl, -⟩ := Prod.mk.inj h |>.imp_right Prod.mk.inj
        exact hs
      · split at h
        · next heq =>
            obtain ⟨-, rfl, -⟩ := Prod.mk.inj h |>.imp_right Prod.mk.inj
            exact hQ.findOrInsert heq hs
        · next heq => exact ih h (hQ.added sample hs heq)

theorem processChunks (hQ : Kept Q) {ctx : ProcessContext} {frameLimit stepLimit fuel : ℕ}
    {state state' : ChunkState}
    (h : LibApta.processChunks ctx frameLimit stepLimit fuel state = (status, state'))
    (hs : Q state.overview) : Q state'.overview :=
  processChunks_invariant (P := fun state => Q state.overview)
    (fun _ hfed hs => hQ.refreshed _ _ (hQ.processSamples hfed hs))
    (fun _ hfed hs => hQ.processSamples hfed hs) h hs

end Overview.Kept

/-! ## The counter of complete columns -/

/-- A sorted store whose counter is the number of its complete columns. -/
structure Overview.Tallied (overview : Overview) : Prop where
  sorted : overview.Sorted
  counted : overview.completeCount = overview.accumulators.countP Accumulator.complete

/-- A column that was looked up is in the store, which is still sorted and counted. -/
theorem Overview.Tallied.found {overview overview' : Overview} (h : overview.Tallied)
    {hasBands : Bool} {columnIndex position : ℕ} {env env' : Environment}
    (hfind : overview.findOrInsert hasBands columnIndex env = (.ok position, overview', env')) :
    overview'.Tallied ∧
      overview'.accumulators[position]? = some (overview.columnOrNew columnIndex) := by
  obtain ⟨hsorted, hget, -, hcount, hcomplete⟩ := Overview.findOrInsert_ok h.sorted hfind
  exact ⟨⟨hsorted, by rw [hcount, hcomplete, h.counted]⟩, hget⟩

theorem Overview.tallied_kept : Overview.Kept Overview.Tallied where
  grown h hgrow := by
    obtain ⟨-, capacity, rfl⟩ | ⟨-, -, rfl⟩ := Overview.ensureCapacity_cases hgrow
    · exact ⟨h.sorted, h.counted⟩
    · exact h
  found h hfind := (h.found hfind).1
  added sample h hfind := by
    obtain ⟨hfound, hget⟩ := h.found hfind
    obtain ⟨hsorted, -, hcount, hcomplete⟩ :=
      Overview.addSampleAt_spec _ hfound.sorted sample hget
    exact ⟨hsorted, by rw [hcount, hcomplete, hfound.counted]⟩
  refreshed _ _ h := ⟨Overview.sorted_refresh h.sorted, Overview.counted_refresh h.counted⟩
  forgotten h := by
    refine ⟨(KeyedList.map_spec h.sorted ?_).1, ?_⟩
    · exact fun _ => rfl
    · unfold Overview.forgetMarks
      simp [List.countP_map, Function.comp_def]
  seeded sampleCount column h hfind := by
    obtain ⟨hfound, hget⟩ := h.found hfind
    have hkey : ∀ acc : Accumulator,
        (Accumulator.seed column sampleCount acc).columnIndex = acc.columnIndex := fun _ => rfl
    refine ⟨(KeyedList.modify_spec hfound.sorted hkey hget).1, ?_⟩
    have hmodify := KeyedList.countP_modify (p := Accumulator.complete)
      (f := .seed column sampleCount) hget
    rw [← hfound.counted] at hmodify
    unfold Overview.seedAt
    simp only [List.getElem?_map, hget, Option.map_some, Option.getD_some]
    have hcomplete : ∀ acc : Accumulator, (Accumulator.seed column sampleCount acc).complete = true :=
      fun _ => rfl
    rw [hcomplete, if_pos rfl] at hmodify
    split_ifs at hmodify ⊢ <;> omega

namespace Session

section Kept

variable {Q : Overview → Prop} {s : Session}

theorem reserveAccumulators_kept (hQ : Overview.Kept Q) (hs : Q s.overview) :
    Q s.reserveAccumulators.2.overview := by
  unfold Session.reserveAccumulators
  simp only
  split
  · exact hs
  split
  · exact hs
  split
  · exact hs
  split
  · exact hs
  · cases hgrow : s.overview.ensureCapacity (s.config.requests .waveform3Band)
        (s.overview.accumulators.length + additionalColumns s.framesPerColumn s.overview s.queue [])
        s.env with
    | mk status rest =>
        obtain ⟨overview, env⟩ := rest
        exact hQ.grown hs hgrow

theorem seedColumn_kept (hQ : Overview.Kept Q) (columnIndex sampleCount : ℕ)
    (column : WaveformColumn) (hs : Q s.overview) :
    Q (s.seedColumn columnIndex sampleCount column).2.overview := by
  unfold Session.seedColumn
  simp only
  split
  · next heq => exact hQ.findOrInsert heq hs
  · next heq => exact hQ.seeded sampleCount column hs heq

/-- What the steps on the store keep, every call keeps. -/
theorem kept_invariant (hQ : Overview.Kept Q) : RunInvariant fun s => Q s.overview where
  env _ hs := hs
  forgotten hs := hQ.forgotten hs
  moved _ hs := hs
  published _ hs := hs
  chunks _ hs := hQ.processChunks (Prod.mk.eta ..).symm (hQ.refreshed _ _ hs)
  reserveAccumulators hs := reserveAccumulators_kept hQ hs
  queue _ hs := hs
  demand _ _ hs := hs
  refreshDetail {s} hs := by
    unfold Session.refreshDetail
    split_ifs <;> exact hs
  detailPublished hs := hs
  refreshS4 hrefresh hs := by
    obtain ⟨result, -, heq⟩ := Option.map_eq_some_iff.mp hrefresh
    rwa [← (Prod.mk.inj (Prod.mk.inj heq).2).2]
  refreshS6 {limit steps status s s'} hrefresh hs := by
    unfold Session.refreshS6 at hrefresh
    cases hs6 : s.s6 with
    | none =>
        rw [hs6] at hrefresh
        rwa [← (Prod.mk.inj (Prod.mk.inj (Option.some.inj hrefresh)).2).2]
    | some s6 =>
        rw [hs6] at hrefresh
        obtain ⟨result, -, heq⟩ := Option.map_eq_some_iff.mp hrefresh
        rwa [← (Prod.mk.inj (Prod.mk.inj heq).2).2]
  s4Serials _ _ hs := hs
  s6Published hs := hs
  length _ _ hs := hs
  flags _ _ _ hs := hs
  recorded _ hs := hs
  seedColumn columnIndex sampleCount column hs := seedColumn_kept hQ columnIndex sampleCount column hs
  accepted _ _ hs := hs
  acceptReplay _ hs := hs
  prepareEstimators {s} hs := by
    unfold Session.prepareEstimators
    split <;> exact hs
  feedAccepted {s} block n hs := by
    unfold Session.feedAccepted
    simp only
    split_ifs <;> exact hs
  noted _ hs := hs
  counters _ _ hs := hs

/-- What the steps on the store keep, whole runs keep. -/
theorem kept_run (hQ : Overview.Kept Q) {calls : List Call} {s' : Session}
    (hrun : Session.run calls s = some s') (hs : Q s.overview) : Q s'.overview := by
  have hannounce := (kept_invariant hQ).toAnnounceInvariant
  refine (kept_invariant hQ).run (fun {call t range} _ _ ht => ?_) (fun {call t revisionId} _ _ ht => ?_)
    (Runs.guarded_true step calls s) hrun hs
  · exact hannounce.lockGridRange range (fun _ _ => ht) (fun ht => ht) ht
  · exact hannounce.applyGridRevision revisionId (fun _ _ _ _ _ _ => ht) (fun ht => ht) ht

end Kept

/-- The store of a session is sorted and counted along every run. -/
theorem tallied_run {s s' : Session} {calls : List Call} (hcreated : Created s)
    (hrun : Session.run calls s = some s') : s'.overview.Tallied := by
  obtain ⟨config, libm, usesWorkspace, env, -, rfl⟩ := created_eq hcreated
  exact kept_run Overview.tallied_kept hrun ⟨KeyedList.sorted_nil, rfl⟩

end Session

end LibApta
