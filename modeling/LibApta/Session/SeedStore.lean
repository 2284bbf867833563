import LibApta.Session.AcceptedSet
import LibApta.Waveform.Requantise

/-!
# The store of a seeded session

Seeding a session without columns puts the columns of the spans into the store one behind the other,
all complete, and records the spans as accepted.
-/

namespace LibApta

/-- The accumulator that seeding installs for a column. -/
def seededAccumulator (columnIndex sampleCount : ℕ) (column : WaveformColumn) : Accumulator where
  columnIndex := columnIndex
  sampleCount := sampleCount
  sumSquares := seededMagnitude column.rms * seededMagnitude column.rms * sampleCount
  minimum := fdiv column.minimum 32767
  maximum := fdiv column.maximum 32767
  clipped := column.clipped
  complete := true
  bandSums := ⟨0, 0, 0⟩

/-- The column after the last one of the span. -/
def WaveformSpan.endColumn (span : WaveformSpan) : ℕ := span.firstColumnIndex + span.columns.length

/-- The columns of spans, each with its index. -/
def placedColumns (spans : List WaveformSpan) : List (WaveformColumn × ℕ) :=
  spans.flatMap fun span => span.columns.zipIdx span.firstColumnIndex

@[simp] theorem placedColumns_cons (span : WaveformSpan) (rest : List WaveformSpan) :
    placedColumns (span :: rest) =
      span.columns.zipIdx span.firstColumnIndex ++ placedColumns rest := rfl

namespace Session

/-- What seeding installs for a column with its index. -/
def install (s : Session) (placed : WaveformColumn × ℕ) : Accumulator :=
  seededAccumulator placed.2 (s.seededColumnFrames placed.2) placed.1

theorem seededColumnFrames_congr {s t : Session} (h : t.config = s.config) :
    t.seededColumnFrames = s.seededColumnFrames := by
  funext columnIndex
  unfold seededColumnFrames framesPerColumn
  rw [h]

theorem install_congr {s t : Session} (h : t.config = s.config) : t.install = s.install := by
  funext placed
  unfold install
  rw [seededColumnFrames_congr h]

/-- A column that lies behind the store is appended to it. -/
theorem seedColumn_appends {columnIndex sampleCount : ℕ} {column : WaveformColumn} {s t : Session}
    (hs : s.overview.Sorted)
    (hbehind : ∀ acc ∈ s.overview.accumulators, acc.columnIndex < columnIndex)
    (h : s.seedColumn columnIndex sampleCount column = (.ok, t)) :
    t.overview.accumulators =
        s.overview.accumulators ++ [seededAccumulator columnIndex sampleCount column] ∧
      t.overview.completeCount = s.overview.completeCount + 1 := by
  unfold seedColumn at h
  simp only at h
  cases hfind : s.overview.findOrInsert (s.config.requests .waveform3Band) columnIndex s.env with
  | mk found rest =>
      obtain ⟨overview, env⟩ := rest
      rw [hfind] at h
      cases found with
      | error status =>
          obtain ⟨⟨code, rfl⟩, -⟩ := Overview.findOrInsert_error hfind
          exact absurd (Prod.mk.inj h).1 (by simp)
      | ok position =>
          obtain ⟨hsorted, hget, hlook, hcount, -⟩ := Overview.findOrInsert_ok hs hfind
          have hnew : s.overview.columnOrNew columnIndex = .new columnIndex := by
            have hnone : s.overview.column columnIndex = none :=
              KeyedList.lookup_eq_none fun acc hmem => (hbehind acc hmem).ne
            rw [Overview.columnOrNew, hnone, Option.getD_none]
          rw [hnew] at hget hlook
          have haccs : overview.accumulators = s.overview.accumulators ++ [.new columnIndex] :=
            KeyedList.eq_append_of_lookup hs hsorted hbehind hlook
          -- The new accumulator is the last one, since all others have smaller indices.
          have hposition : position = s.overview.accumulators.length := by
            obtain ⟨hlt, hget⟩ := List.getElem?_eq_some_iff.mp hget
            rw [haccs, List.length_append, List.length_singleton] at hlt
            by_contra hne
            have hinside : position < s.overview.accumulators.length := by omega
            simp only [haccs, List.getElem_append_left hinside] at hget
            have hold := hbehind _ (List.getElem_mem hinside)
            rw [hget] at hold
            exact absurd hold (lt_irrefl _)
          subst hposition
          obtain rfl := (Prod.mk.inj h).2
          refine ⟨?_, ?_⟩
          · simp only [haccs]
            rw [KeyedList.modify_append]
            rfl
          · simp [haccs, hcount, Accumulator.new]

/-- The columns of a span that lies behind the store are appended to it. -/
theorem seedColumns_appends {columns : List WaveformColumn} {columnIndex : ℕ} {s t : Session}
    (hs : s.overview.Sorted)
    (hbehind : ∀ acc ∈ s.overview.accumulators, acc.columnIndex < columnIndex)
    (hframes : ∀ k < columnIndex + columns.length, s.seededColumnFrames k ≠ 0)
    (h : seedColumns columns columnIndex s = (.ok, t)) :
    t.overview.accumulators =
        s.overview.accumulators ++ (columns.zipIdx columnIndex).map s.install ∧
      t.overview.completeCount = s.overview.completeCount + columns.length := by
  induction columns generalizing columnIndex s with
  | nil =>
      obtain rfl := (Prod.mk.inj h).2
      exact ⟨(List.append_nil _).symm, rfl⟩
  | cons column rest ih =>
      rw [List.length_cons] at hframes
      unfold seedColumns at h
      rw [if_neg (hframes columnIndex (by omega))] at h
      cases hone : s.seedColumn columnIndex (s.seededColumnFrames columnIndex) column with
      | mk status u =>
          rw [hone] at h
          cases status with
          | ok =>
              obtain ⟨haccs, hcount⟩ := seedColumn_appends hs hbehind hone
              have hconfig := (seedColumn_sameInput columnIndex (s.seededColumnFrames columnIndex)
                column s).config
              rw [hone] at hconfig
              have hsorted : u.overview.Sorted := by
                unfold Overview.Sorted
                rw [haccs]
                exact KeyedList.sorted_append_cons.mpr
                  ⟨hs, KeyedList.sorted_nil, hbehind, by simp, by simp⟩
              have hbehind' : ∀ acc ∈ u.overview.accumulators, acc.columnIndex < columnIndex + 1 := by
                rw [haccs, List.forall_mem_append, List.forall_mem_singleton]
                exact ⟨fun acc hmem => (hbehind acc hmem).trans (Nat.lt_succ_self _),
                  Nat.lt_succ_self columnIndex⟩
              obtain ⟨haccs', hcount'⟩ := ih hsorted hbehind'
                (fun k hk => seededColumnFrames_congr hconfig ▸ hframes k (by omega)) h
              refine ⟨?_, by rw [hcount', hcount, List.length_cons]; omega⟩
              rw [haccs', haccs, install_congr hconfig, List.zipIdx_cons, List.map_cons, List.append_assoc]
              rfl
          | _ => exact absurd (Prod.mk.inj h).1 (by simp)

/-- The indices of a stretch of columns increase. -/
theorem sorted_zipIdx (columns : List WaveformColumn) (columnIndex : ℕ) :
    ((columns.zipIdx columnIndex).map Prod.snd).Pairwise (· < ·) := by
  rw [List.zipIdx_map_snd]
  exact List.pairwise_lt_range'

/-- A span that is seeded leaves what its columns leave, but for the accepted frames. -/
theorem seedSpan_ok {span : WaveformSpan} {s t : Session} (h : s.seedSpan span = (.ok, t)) :
    ∃ u accepted env, seedColumns span.columns span.firstColumnIndex s = (.ok, u) ∧
      t = { u with accepted := accepted, env := env } := by
  unfold seedSpan at h
  cases hseed : seedColumns span.columns span.firstColumnIndex s with
  | mk status u =>
      rw [hseed] at h
      cases status with
      | ok =>
          simp only at h
          cases hroom : u.accepted.ensureCapacity (u.accepted.ranges.length + 1) u.env with
          | mk answer rest =>
              rw [hroom] at h
              cases answer with
              | ok => exact ⟨u, _, _, rfl, (Prod.mk.inj h).2.symm⟩
              | _ => exact absurd (Prod.mk.inj h).1 (by simp)
      | _ => exact absurd (Prod.mk.inj h).1 (by simp)

/-- The indices of a stretch of columns. -/
theorem mem_zipIdx_bounds {columns : List WaveformColumn} {first : ℕ}
    {placed : WaveformColumn × ℕ} (h : placed ∈ columns.zipIdx first) :
    first ≤ placed.2 ∧ placed.2 < first + columns.length := by
  obtain ⟨column, index⟩ := placed
  exact ⟨List.le_snd_of_mem_zipIdx h, List.snd_lt_add_of_mem_zipIdx h⟩

/-- The store stays sorted when columns behind it are appended. -/
theorem seedColumns_sorted {columns : List WaveformColumn} {columnIndex : ℕ} {s u : Session}
    (hs : s.overview.Sorted)
    (hbehind : ∀ acc ∈ s.overview.accumulators, acc.columnIndex < columnIndex)
    (h : u.overview.accumulators =
      s.overview.accumulators ++ (columns.zipIdx columnIndex).map s.install) :
    u.overview.Sorted := by
  unfold Overview.Sorted KeyedList.Sorted
  rw [h, List.map_append, List.pairwise_append]
  refine ⟨hs, ?_, ?_⟩
  · rw [List.map_map]
    exact sorted_zipIdx columns columnIndex
  · rw [List.forall_mem_map]
    intro acc hacc
    rw [List.map_map, List.forall_mem_map]
    intro placed hmem
    exact (hbehind acc hacc).trans_le (mem_zipIdx_bounds hmem).1

/-- The columns of spans in order are appended to a store that lies before them. -/
theorem seedSpans_appends {spans : List WaveformSpan} {s t : Session} (hs : s.overview.Sorted)
    (hordered : spans.Pairwise fun span later => span.endColumn ≤ later.firstColumnIndex)
    (hbehind : ∀ acc ∈ s.overview.accumulators, ∀ span ∈ spans,
      acc.columnIndex < span.firstColumnIndex)
    (hframes : ∀ span ∈ spans, ∀ k < span.endColumn, s.seededColumnFrames k ≠ 0)
    (h : seedSpans spans s = (.ok, t)) :
    t.overview.accumulators = s.overview.accumulators ++ (placedColumns spans).map s.install ∧
      t.overview.completeCount = s.overview.completeCount + (placedColumns spans).length := by
  induction spans generalizing s with
  | nil =>
      obtain rfl := (Prod.mk.inj h).2
      exact ⟨(List.append_nil _).symm, rfl⟩
  | cons span rest ih =>
      obtain ⟨hspan, hrest⟩ := List.pairwise_cons.mp hordered
      obtain ⟨hframe, hframes⟩ := List.forall_mem_cons.mp hframes
      unfold seedSpans at h
      cases hone : s.seedSpan span with
      | mk status v =>
          rw [hone] at h
          cases status with
          | ok =>
              obtain ⟨u, accepted, env, hcolumns, rfl⟩ := seedSpan_ok hone
              obtain ⟨haccs, hcount⟩ := seedColumns_appends hs
                (fun acc hmem => hbehind acc hmem span List.mem_cons_self) hframe hcolumns
              have hconfig : u.config = s.config := by
                have hsame := seedColumns_sameInput span.columns span.firstColumnIndex s
                rw [hcolumns] at hsame
                exact hsame.config
              have hplaced : ∀ placed ∈ span.columns.zipIdx span.firstColumnIndex,
                  span.firstColumnIndex ≤ placed.2 ∧ placed.2 < span.endColumn :=
                fun placed hmem => mem_zipIdx_bounds hmem
              have hsorted : u.overview.Sorted := seedColumns_sorted hs
                (fun acc hmem => hbehind acc hmem span List.mem_cons_self) haccs
              have hbehind' : ∀ acc ∈ u.overview.accumulators, ∀ later ∈ rest,
                  acc.columnIndex < later.firstColumnIndex := by
                rw [haccs, List.forall_mem_append, List.forall_mem_map]
                refine ⟨fun acc hmem later hlater =>
                  hbehind acc hmem later (List.mem_cons_of_mem _ hlater), ?_⟩
                intro placed hmem later hlater
                exact (hplaced placed hmem).2.trans_le (hspan later hlater)
              obtain ⟨haccs', hcount'⟩ := ih (s := { u with accepted := accepted, env := env })
                hsorted hrest hbehind' (fun later hlater k hk =>
                  seededColumnFrames_congr hconfig ▸ hframes later hlater k hk) h
              have hinstall : install { u with accepted := accepted, env := env } = s.install :=
                install_congr hconfig
              refine ⟨?_, ?_⟩
              · rw [haccs', hinstall]
                show u.overview.accumulators ++ _ = _
                rw [haccs, placedColumns_cons, List.map_append, List.append_assoc]
              · rw [hcount']
                show u.overview.completeCount + _ = _
                rw [hcount, placedColumns_cons, List.length_append, List.length_zipIdx,
                  Nat.add_assoc]
          | _ => exact absurd (Prod.mk.inj h).1 (by simp)

end Session

end LibApta
