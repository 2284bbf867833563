import LibApta.Session.ReplayAgreement

/-!
# The order of demands

The active requests and the focus compete for a demand. The policy orders them by effective
priority, then by deadline, enqueue serial and identifier; a focus loses ties. The demand belongs to
the best candidate with missing data exactly when that candidate leads the selector of a layer it
lacks data of, and for the overview only when the detail selector has nothing to ask for.
-/

namespace LibApta

namespace Session

/-! ## Candidates -/

/-- What competes for a demand. -/
inductive Candidate where
  | request (request : Request)
  | focus (focus : Focus)

namespace Candidate

/-- The frames a candidate is about. -/
def range : Candidate → FrameRange
  | request r => r.request.range
  | focus f => f.window

/-- The features a candidate names. -/
def featureMask : Candidate → FeatureMask
  | request r => r.request.featureMask
  | focus f => f.featureMask

/-- A focus does not age. -/
def priority : Candidate → ℕ
  | request r => (scoreRequest r).effectivePriority
  | focus f => f.priority

/-- A focus has no identifier. -/
def token : Candidate → ℕ
  | request r => r.requestId
  | focus _ => 0

/-- The documented order: a focus needs a strictly higher priority. -/
def Outranks : Candidate → Candidate → Prop
  | request a, request b => scoreBetter (scoreRequest a) (scoreRequest b) = true
  | request a, focus f => f.priority ≤ (scoreRequest a).effectivePriority
  | focus f, request b => (scoreRequest b).effectivePriority < f.priority
  | focus f, focus g => g.priority < f.priority

theorem Outranks.asymm {a b : Candidate} (h : a.Outranks b) : ¬b.Outranks a := by
  cases a <;> cases b
  · simp [Outranks, scoreBetter_asymm h]
  · exact not_lt.mpr h
  · exact not_le.mpr h
  · exact lt_asymm h

theorem not_outranks_trans {a b c : Candidate} (hab : ¬a.Outranks b) (hbc : ¬b.Outranks c) :
    ¬a.Outranks c := by
  cases a <;> cases b <;> cases c <;>
    simp only [Outranks, scoreBetter_iff, ScheduleScore.TieBreaks, ScheduleScore.Sooner] at * <;>
    omega

end Candidate

/-- The candidate is an active request or the focus. -/
def Competes (s : Session) : Candidate → Prop
  | .request r => r ∈ s.requests ∧ r.isActive = true
  | .focus f => s.focus = some f

/-- A frame of the range, cut to the known length, is missing. -/
def LacksFrames (s : Session) (range : FrameRange) : Prop :=
  ∃ frame, range.firstFrame ≤ frame ∧ frame < s.cutEnd range.endFrame ∧ frame ∉ s.accepted.frames

/-- The candidate names detail tiles, and a column of its range is empty. -/
def LacksColumns (s : Session) (c : Candidate) : Prop :=
  s.config.requests .waveformDetail = true ∧ Feature.waveformDetail ∈ c.featureMask ∧
    s.LacksDetail c.range

/-- The candidate names a feature that is made of accepted frames, and a frame of its range is
missing. -/
def LacksInput (s : Session) (c : Candidate) : Prop :=
  (∃ feature ∈ c.featureMask, feature ≠ .waveformDetail) ∧ s.LacksFrames c.range

/-- A candidate with missing data that no other one outranks. -/
structure Best (s : Session) (c : Candidate) : Prop where
  competes : s.Competes c
  lacks : s.LacksColumns c ∨ s.LacksInput c
  first : ∀ other, s.Competes other → s.LacksColumns other ∨ s.LacksInput other →
    ¬other.Outranks c

/-! ## The best candidate -/

/-- The candidates of a session in the order of the table. -/
def candidates (s : Session) : List Candidate :=
  (s.requests.filter Request.isActive).map .request ++ s.focus.toList.map .focus

theorem mem_candidates {s : Session} {c : Candidate} : c ∈ s.candidates ↔ s.Competes c := by
  unfold candidates
  cases c <;> simp [Competes]

/-- Of the members of a list that have a property one is outranked by no other. -/
theorem exists_first (P : Candidate → Prop) (list : List Candidate) (h : ∃ c ∈ list, P c) :
    ∃ c ∈ list, P c ∧ ∀ other ∈ list, P other → ¬other.Outranks c := by
  induction list with
  | nil =>
      obtain ⟨c, hmem, -⟩ := h
      cases hmem
  | cons head rest ih =>
      by_cases hrest : ∃ c ∈ rest, P c
      · obtain ⟨c, hmem, hc, hfirst⟩ := ih hrest
        by_cases hhead : P head ∧ head.Outranks c
        · refine ⟨head, List.mem_cons_self, hhead.1, fun other hother hP => ?_⟩
          rcases List.mem_cons.mp hother with rfl | hother
          · exact fun hself => hself.asymm hself
          · exact Candidate.not_outranks_trans (hfirst other hother hP) hhead.2.asymm
        · refine ⟨c, List.mem_cons_of_mem _ hmem, hc, fun other hother hP => ?_⟩
          rcases List.mem_cons.mp hother with rfl | hother
          · exact fun hbetter => hhead ⟨hP, hbetter⟩
          · exact hfirst other hother hP
      · obtain ⟨c, hmem, hc⟩ := h
        rcases List.mem_cons.mp hmem with rfl | hmem
        · refine ⟨c, List.mem_cons_self, hc, fun other hother hP => ?_⟩
          rcases List.mem_cons.mp hother with rfl | hother
          · exact fun hself => hself.asymm hself
          · exact absurd ⟨other, hother, hP⟩ hrest
        · exact absurd ⟨c, hmem, hc⟩ hrest

/-- When a candidate has missing data there is a best one. -/
theorem exists_best {s : Session} {c : Candidate} (hcompetes : s.Competes c)
    (hlacks : s.LacksColumns c ∨ s.LacksInput c) : ∃ best, s.Best best := by
  obtain ⟨best, hmem, hbest, hfirst⟩ := exists_first
    (fun c => s.LacksColumns c ∨ s.LacksInput c) s.candidates
    ⟨c, mem_candidates.mpr hcompetes, hlacks⟩
  exact ⟨best, mem_candidates.mp hmem, hbest, fun other hother hlacking =>
    hfirst other (mem_candidates.mpr hother) hlacking⟩

/-- Two candidates that do not outrank each other are the same. -/
theorem Competes.eq {s : Session} (hids : UniqueIds s.requests) {a b : Candidate}
    (ha : s.Competes a) (hb : s.Competes b) (hab : ¬a.Outranks b) (hba : ¬b.Outranks a) : a = b := by
  cases a with
  | request a =>
      cases b with
      | request b =>
          obtain ⟨hmem, hactive⟩ := ha
          obtain ⟨hmem', hactive'⟩ := hb
          by_contra hne
          have hid : (scoreRequest a).requestId ≠ (scoreRequest b).requestId := by
            rw [scoreRequest_of_active hactive, scoreRequest_of_active hactive']
            exact fun heq => hne (congrArg Candidate.request
              (hids.eq hmem hmem' (Request.isActive_iff.mp hactive).1 heq))
          exact hba (scoreBetter_total hid (by simpa [Candidate.Outranks] using hab))
      | focus f => exact absurd (not_le.mp hab) hba
  | focus f =>
      cases b with
      | request b => exact absurd (not_lt.mp hab) hba
      | focus g =>
          have hsame : some f = some g := ha.symm.trans hb
          rw [Option.some.inj hsame]

theorem Best.unique {s : Session} (hids : UniqueIds s.requests) {a b : Candidate} (ha : s.Best a)
    (hb : s.Best b) : a = b :=
  ha.competes.eq hids hb.competes (hb.first a ha.competes ha.lacks)
    (ha.first b hb.competes hb.lacks)

/-! ## The candidate of a selector -/

/-- The candidate that a selector serves. -/
def LeadsSelector (features : FeatureMask) (feature : Feature) (s : Session) : Candidate → Prop
  | .request r => Leads (wantsUnder features feature) s.requests r
  | .focus f => (∀ r ∈ s.requests, wantsUnder features feature r = false) ∧ s.focus = some f ∧
      feature ∈ withOverview features f.featureMask

namespace LeadsSelector

variable {features : FeatureMask} {feature : Feature} {s : Session} {c : Candidate}

theorem serves (h : LeadsSelector features feature s c) :
    Serves features feature s c.range c.priority c.token := by
  cases c with
  | request r => exact .request h
  | focus f =>
      obtain ⟨hidle, hfocus, hnames⟩ := h
      exact .focus hidle hfocus hnames

theorem competes (h : LeadsSelector features feature s c) : s.Competes c := by
  cases c with
  | request r => exact ⟨h.mem, isActive_of_wantsUnder r h.passes⟩
  | focus f => exact h.2.1

theorem names (h : LeadsSelector features feature s c) :
    feature ∈ withOverview features c.featureMask := by
  cases c with
  | request r => exact of_decide_eq_true (Bool.and_eq_true_iff.mp h.passes).2
  | focus f => exact h.2.2

end LeadsSelector

/-- What a selector serves is the range of a candidate. -/
theorem Serves.candidate {features : FeatureMask} {feature : Feature} {s : Session}
    {range : FrameRange} {priority token : ℕ} (h : Serves features feature s range priority token) :
    ∃ c, LeadsSelector features feature s c ∧ c.range = range ∧ c.priority = priority ∧
      c.token = token := by
  cases h with
  | @request r hleads => exact ⟨.request r, hleads, rfl, rfl, rfl⟩
  | @focus f hidle hfocus hnames => exact ⟨.focus f, ⟨hidle, hfocus, hnames⟩, rfl, rfl, rfl⟩

/-- A candidate is known by its token. -/
theorem Competes.eq_of_token {s : Session} (hids : UniqueIds s.requests) {a b : Candidate}
    (ha : s.Competes a) (hb : s.Competes b) (htoken : a.token = b.token) : a = b := by
  cases a with
  | request a =>
      have hid := (Request.isActive_iff.mp ha.2).1
      cases b with
      | request b => exact congrArg Candidate.request (hids.eq ha.1 hb.1 hid htoken)
      | focus f => exact absurd htoken hid
  | focus f =>
      cases b with
      | request b => exact absurd htoken.symm (Request.isActive_iff.mp hb.2).1
      | focus g =>
          have hsame : some f = some g := ha.symm.trans hb
          rw [Option.some.inj hsame]

/-! ## What belongs to a candidate -/

/-- The demand asks for the first missing data of the candidate. -/
structure Belongs (s : Session) (c : Candidate) (request : PcmRequest) : Prop where
  token : request.requestToken = c.token
  priority : request.priority = c.priority
  missing : request.featureMask = {.waveformOverview} ∧
      Feature.waveformOverview ∈ withOverview tempoFeatures c.featureMask ∧
      FirstPiece s c.range request.range.firstFrame request.range.endFrame ∨
    request.featureMask = {.waveformDetail} ∧ Feature.waveformDetail ∈ c.featureMask ∧
      ∃ column count, EmptyRun s c.range column count ∧ DetailPiece s column count request.range

/-- A demand of the detail layer belongs to the candidate it serves. -/
theorem detailDemand_belongs {s : Session} {request : PcmRequest}
    (hbytes : BytePriorities s.requests) (hids : UniqueIds s.requests)
    (h : s.detailDemand = .ok request) :
    ∃ c, LeadsSelector ∅ .waveformDetail s c ∧ s.LacksColumns c ∧ Belongs s c request := by
  rcases detailDemand_cases hbytes hids with ⟨hnone, -⟩ |
    ⟨range, priority, token, column, count, hrequested, hserves, hrun, -, hok⟩
  · rw [hnone] at h
    cases h
  rw [hok] at h
  obtain rfl := Except.ok.inj h
  obtain ⟨c, hleads, rfl, rfl, rfl⟩ := hserves.candidate
  have hnames := hleads.names
  rw [withOverview_empty] at hnames
  exact ⟨c, hleads, ⟨hrequested, hnames, hrun.lacksDetail⟩,
    ⟨rfl, rfl, .inr ⟨rfl, hnames, column, count, hrun, hrun.piece⟩⟩⟩

/-- The detail layer makes a demand for the candidate it serves. -/
theorem LacksColumns.demand {s : Session} {c : Candidate} (hbytes : BytePriorities s.requests)
    (hids : UniqueIds s.requests) (h : s.LacksColumns c)
    (hleads : LeadsSelector ∅ .waveformDetail s c) (hsafe : s.SafeFocus) :
    ∃ request, s.detailDemand = .ok request := by
  rcases detailDemand_cases hbytes hids with ⟨-, hfull⟩ | ⟨_, _, _, _, _, -, -, -, -, hok⟩
  · exact absurd h.2.2 (hfull h.1 hsafe _ _ _ hleads.serves)
  · exact ⟨_, hok⟩

theorem orTrack_of_lacks {s : Session} {range : FrameRange} (h : s.LacksFrames range) :
    s.orTrack range = range := by
  obtain ⟨frame, hfirst, hend, -⟩ := h
  have hcut : s.cutEnd range.endFrame ≤ range.endFrame := Detail.cutTo_le _ _
  unfold orTrack
  rw [if_neg (by omega)]

/-- The overview selector makes a demand for the candidate it serves. -/
theorem LacksInput.demand {s : Session} {c : Candidate} (hbytes : BytePriorities s.requests)
    (hids : UniqueIds s.requests) (hordered : Interval.Ordered s.accepted.ranges)
    (h : s.LacksInput c) (hleads : LeadsSelector tempoFeatures .waveformOverview s c) :
    ∃ request, s.overviewDemand tempoFeatures = .ok request ∧ Belongs s c request := by
  obtain ⟨range, priority, token, hlooks, hdemand⟩ :=
    overviewDemand_cases tempoFeatures hbytes hordered
  obtain ⟨rfl, rfl, rfl⟩ : range = c.range ∧ priority = c.priority ∧ token = c.token := by
    cases hlooks with
    | served hserves =>
        obtain ⟨rfl, rfl, rfl⟩ := hserves.unique hids hleads.serves
        exact ⟨orTrack_of_lacks h.2, rfl, rfl⟩
    | track hunserved => exact (hunserved.not_serves hleads.serves).elim
  rcases hdemand with ⟨-, hfull⟩ | ⟨first, past, hpiece, hok⟩
  · obtain ⟨frame, hfirst, hend, hmissing⟩ := h.2
    exact absurd (hfull frame hfirst hend) hmissing
  · exact ⟨_, hok, rfl, rfl, .inl ⟨rfl, hleads.names, hpiece⟩⟩

/-- A demand of the overview selector that belongs to a candidate serves it. -/
theorem Belongs.leads {s : Session} {c : Candidate} {request : PcmRequest}
    (hbytes : BytePriorities s.requests) (hids : UniqueIds s.requests)
    (hordered : Interval.Ordered s.accepted.ranges) (h : Belongs s c request)
    (hcompetes : s.Competes c) (hdemand : s.overviewDemand tempoFeatures = .ok request) :
    LeadsSelector tempoFeatures .waveformOverview s c ∧ s.LacksInput c := by
  have hmask := overviewDemand_mask hdemand
  rcases h.missing with ⟨-, hnames, hpiece⟩ | ⟨hmask', -⟩
  swap
  · rw [hmask'] at hmask
    cases Finset.singleton_injective hmask
  refine ⟨?_, ?_, ⟨_, hpiece.start_le, hpiece.nonempty.trans_le hpiece.past_le,
    hpiece.missing _ le_rfl hpiece.nonempty⟩⟩
  · obtain ⟨range, priority, token, hlooks, ⟨hnone, -⟩ | ⟨first, past, -, hok⟩⟩ :=
      overviewDemand_cases tempoFeatures hbytes hordered
    · rw [hnone] at hdemand
      cases hdemand
    rw [hok] at hdemand
    have htoken : token = c.token := by
      rw [← h.token, ← Except.ok.inj hdemand]
    cases hlooks with
    | served hserves =>
        obtain ⟨other, hleads, -, -, rfl⟩ := hserves.candidate
        rwa [← hleads.competes.eq_of_token hids hcompetes htoken]
    | track hunserved =>
        -- A request or a focus that names the overview is served before the track.
        cases c with
        | request r =>
            have hwants : wantsUnder tempoFeatures .waveformOverview r = true :=
              Bool.and_eq_true_iff.mpr ⟨hcompetes.2, decide_eq_true hnames⟩
            rw [hunserved.1 r hcompetes.1] at hwants
            cases hwants
        | focus f => exact absurd hnames (hunserved.2 f hcompetes)
  · unfold withOverview at hnames
    split_ifs at hnames with hempty
    · exact ⟨_, hnames, by decide⟩
    · obtain ⟨feature, hfeature⟩ := Finset.nonempty_iff_ne_empty.mpr hempty
      obtain ⟨htempo, hmem⟩ := Finset.mem_inter.mp hfeature
      refine ⟨feature, hmem, ?_⟩
      rintro rfl
      exact absurd htempo (by decide)

/-! ## The order -/

/-- A demand belongs to the best candidate, and there is one when a candidate has missing data. -/
structure OrderingLaw (s : Session) : Prop where
  best : ∀ request, s.nextPcmRequest.1 = .ok request → ∀ c, s.Best c → Belongs s c request
  answers : ∀ c, s.Best c → ∃ request, s.nextPcmRequest.1 = .ok request

/-- No candidate has missing data, or the best one leads the selector that is asked for it: the detail
selector, where it lacks columns and the search for them does not wrap around; or the overview
selector, where it lacks frames and the candidate of the detail selector lacks no column. -/
inductive BestLeads (s : Session) : Prop
  | nothing (h : ∀ c, s.Competes c → ¬(s.LacksColumns c ∨ s.LacksInput c))
  | columns {c : Candidate} (hbest : s.Best c) (hlacks : s.LacksColumns c)
      (hleads : LeadsSelector ∅ .waveformDetail s c) (hsafe : s.SafeFocus)
  | input {c : Candidate} (hbest : s.Best c) (hlacks : s.LacksInput c)
      (hleads : LeadsSelector tempoFeatures .waveformOverview s c)
      (hoverview : s.config.requests .waveformOverview = true)
      (hcolumns : s.SafeFocus → ∀ other, LeadsSelector ∅ .waveformDetail s other →
        ¬s.LacksColumns other)

section Law

variable {s : Session} (hbytes : BytePriorities s.requests) (hids : UniqueIds s.requests)
  (hordered : Interval.Ordered s.accepted.ranges)
  (hplayhead : ∀ focus ∈ s.focus, focus.playheadFrame ≤ uint64Max)

include hbytes hids in
/-- The candidate of the detail selector makes the demand when it lacks columns. -/
theorem nextPcmRequest_columns {c : Candidate} (hlacks : s.LacksColumns c)
    (hleads : LeadsSelector ∅ .waveformDetail s c) (hsafe : s.SafeFocus) :
    ∃ request, s.nextPcmRequest.1 = .ok request ∧ Belongs s c request := by
  obtain ⟨request, hdemand⟩ := hlacks.demand hbytes hids hleads hsafe
  obtain ⟨other, hleads', -, hbelongs⟩ := detailDemand_belongs hbytes hids hdemand
  refine ⟨request, by rw [nextPcmRequest_eq, hdemand], ?_⟩
  obtain ⟨-, -, htoken⟩ := hleads'.serves.unique hids hleads.serves
  rwa [← hleads'.competes.eq_of_token hids hleads.competes htoken]

include hbytes hids hordered hplayhead in
/-- The candidate of the overview selector makes the demand when that of the detail selector lacks no
column. -/
theorem nextPcmRequest_input {c : Candidate} (hlacks : s.LacksInput c)
    (hleads : LeadsSelector tempoFeatures .waveformOverview s c)
    (hoverview : s.config.requests .waveformOverview = true)
    (hcolumns : s.SafeFocus → ∀ other, LeadsSelector ∅ .waveformDetail s other →
      ¬s.LacksColumns other) :
    ∃ request, s.nextPcmRequest.1 = .ok request ∧ Belongs s c request := by
  obtain ⟨request, hok, hbelongs⟩ := hlacks.demand hbytes hids hordered hleads
  rcases nextPcmRequest_cases hbytes hids hordered with ⟨demand, hdemand, -⟩ |
    ⟨-, ⟨demand, -, hdemand, heq⟩ | ⟨hnone, -⟩⟩
  · obtain ⟨other, hleads', hlacks', -⟩ := detailDemand_belongs hbytes hids hdemand
    exact absurd hlacks' (hcolumns (detailDemand_safeFocus hbytes hplayhead hdemand) other hleads')
  · rw [hok] at hdemand
    obtain rfl := Except.ok.inj hdemand
    exact ⟨request, by rw [heq], hbelongs⟩
  · rw [hnone hoverview] at hok
    cases hok

include hbytes hids hordered hplayhead in
/-- A demand that belongs to the best candidate comes from a selector that it leads. -/
theorem Belongs.bestLeads {c : Candidate} {request : PcmRequest} (hbest : s.Best c)
    (hnext : s.nextPcmRequest.1 = .ok request) (hbelongs : Belongs s c request) : BestLeads s := by
  rcases nextPcmRequest_cases hbytes hids hordered with ⟨demand, hdemand, heq⟩ |
    ⟨hnone, ⟨demand, hoverview, hdemand, heq⟩ | ⟨-, heq⟩⟩
  · rw [heq] at hnext
    obtain rfl := Except.ok.inj hnext
    obtain ⟨other, hleads, hlacks, hbelongs'⟩ := detailDemand_belongs hbytes hids hdemand
    obtain rfl := hleads.competes.eq_of_token hids hbest.competes
      (hbelongs'.token.symm.trans hbelongs.token)
    exact .columns hbest hlacks hleads (detailDemand_safeFocus hbytes hplayhead hdemand)
  · rw [heq] at hnext
    obtain rfl := Except.ok.inj hnext
    obtain ⟨hleads, hlacks⟩ := hbelongs.leads hbytes hids hordered hbest.competes hdemand
    refine .input hbest hlacks hleads hoverview fun hsafe other hleads' hlacks' => ?_
    obtain ⟨wanted, hwanted⟩ := hlacks'.demand hbytes hids hleads' hsafe
    rw [hnone] at hwanted
    cases hwanted
  · rw [heq] at hnext
    cases hnext

include hbytes hids hordered hplayhead in
/-- The ordering law holds exactly when the best candidate leads. -/
theorem orderingLaw_iff : OrderingLaw s ↔ BestLeads s := by
  constructor
  · intro hlaw
    by_cases hsome : ∃ c, s.Competes c ∧ (s.LacksColumns c ∨ s.LacksInput c)
    · obtain ⟨c, hcompetes, hlacks⟩ := hsome
      obtain ⟨best, hbest⟩ := exists_best hcompetes hlacks
      obtain ⟨request, hnext⟩ := hlaw.answers best hbest
      exact Belongs.bestLeads hbytes hids hordered hplayhead hbest hnext
        (hlaw.best request hnext best hbest)
    · exact .nothing fun c hcompetes hlacks => hsome ⟨c, hcompetes, hlacks⟩
  · intro hleads
    have hof : ∀ {c : Candidate}, s.Best c →
        (∃ request, s.nextPcmRequest.1 = .ok request ∧ Belongs s c request) → OrderingLaw s := by
      rintro c hbest ⟨request, hnext, hbelongs⟩
      refine ⟨fun request' hnext' c' hbest' => ?_, fun _ _ => ⟨request, hnext⟩⟩
      rw [hnext] at hnext'
      rw [← Except.ok.inj hnext', hbest'.unique hids hbest]
      exact hbelongs
    cases hleads with
    | nothing h =>
        exact ⟨fun _ _ c hbest => absurd hbest.lacks (h c hbest.competes),
          fun c hbest => absurd hbest.lacks (h c hbest.competes)⟩
    | columns hbest hlacks hleads hsafe =>
        exact hof hbest (nextPcmRequest_columns hbytes hids hlacks hleads hsafe)
    | input hbest hlacks hleads hoverview hcolumns =>
        exact hof hbest (nextPcmRequest_input hbytes hids hordered hplayhead hlacks hleads hoverview
          hcolumns)

end Law

/-- In every state that a run reaches the demand follows the documented order exactly when the best
candidate with missing data leads the selector that is asked for it. -/
theorem nextPcmRequest_order (s : Session) (hcreated : Created s) (calls : List Call)
    (htyped : TypedRun calls) (s' : Session) (hrun : run calls s = some s') :
    OrderingLaw s' ↔ BestLeads s' := by
  have htable := run_runTable hcreated htyped hrun
  exact orderingLaw_iff htable.bytes htable.ids (run_inOrder hcreated hrun)
    (run_playhead hcreated htyped hrun)

/-! ## Detail before overview -/

/-- The slot of a request for the second half of a track of 128 frames. -/
def secondHalfSlot : Request := ⟨1, ⟨1, ⟨64, 128⟩, {.waveformOverview}, 0, 0⟩, .queued, 0, 1⟩

/-- With one request the candidate leads. -/
theorem nextPcmRequest_order_single : ∃ s s' : Session, Created s ∧
    run [plainCall (.requestRegion ⟨0, ⟨64, 128⟩, {.waveformOverview}, 0, 0⟩)] s = some s' ∧
    OrderingLaw s' := by
  obtain ⟨s, hs⟩ : ∃ s, create (smallConfig {.waveformOverview} (some 128)) seriesLibm false
    plainPlatform = (.ok, some s) := ⟨_, rfl⟩
  have hafter : ((create (smallConfig {.waveformOverview} (some 128)) seriesLibm false
      plainPlatform).2.bind (run [plainCall (.requestRegion
        ⟨0, ⟨64, 128⟩, {.waveformOverview}, 0, 0⟩)])).map
        (fun s => (s.requests, s.focus, s.accepted.ranges, s.config.totalFrames,
          s.config.requests .waveformOverview, s.config.requests .waveformDetail)) =
      some (secondHalfSlot :: List.replicate 15 .empty, none, [], some 128, true, false) := rfl
  rw [hs] at hafter
  obtain ⟨s', hrun, hfacts⟩ := Option.map_eq_some_iff.mp hafter
  simp only [Prod.mk.injEq] at hfacts
  obtain ⟨hrequests, hfocus, hranges, htotal, hoverview, hdetail⟩ := hfacts
  have honly : ∀ r ∈ s'.requests, r.isActive = true → r = secondHalfSlot := by
    intro r hmem hactive
    rw [hrequests] at hmem
    rcases List.mem_cons.mp hmem with rfl | hempty
    · rfl
    · rw [List.eq_of_mem_replicate hempty] at hactive
      cases hactive
  have hmem : secondHalfSlot ∈ s'.requests := by
    rw [hrequests]
    exact List.mem_cons_self
  have hlacks : s'.LacksInput (.request secondHalfSlot) := by
    refine ⟨⟨.waveformOverview, Finset.mem_singleton_self _, by decide⟩, 64, le_rfl, ?_, ?_⟩
    · show 64 < Detail.cutTo s'.config.totalFrames 128
      rw [htotal]
      norm_num [Detail.cutTo]
    · show 64 ∉ Interval.support s'.accepted.ranges
      rw [hranges]
      simp [Interval.support]
  have hbest : s'.Best (.request secondHalfSlot) := by
    refine ⟨⟨hmem, rfl⟩, .inr hlacks, fun other hother _ => ?_⟩
    cases other with
    | request r =>
        rw [honly r hother.1 hother.2]
        exact fun hself => hself.asymm hself
    | focus f =>
        have hset : s'.focus = some f := hother
        rw [hfocus] at hset
        cases hset
  have hleads : LeadsSelector tempoFeatures .waveformOverview s' (.request secondHalfSlot) := by
    refine ⟨hmem, by decide, fun other hother hwants => ?_⟩
    rw [honly other hother (isActive_of_wantsUnder other hwants)]
    decide
  have htyped : TypedRun [plainCall (.requestRegion
      ⟨0, ⟨64, 128⟩, {.waveformOverview}, 0, 0⟩)] := by
    simp [TypedRun, plainCall, Op.Typed, uint64Max]
  refine ⟨s, s', ⟨_, _, _, _, hs⟩, hrun,
    (nextPcmRequest_order s ⟨_, _, _, _, hs⟩ _ htyped s' hrun).mpr
      (.input hbest hlacks hleads hoverview fun _ other _ hcolumns => ?_)⟩
  have hrequested := hcolumns.1
  rw [hdetail] at hrequested
  cases hrequested

/-- The slot of an overview request of a higher priority than the detail request before it. -/
def urgentSlot : Request := ⟨2, ⟨2, ⟨256, 512⟩, {.waveformOverview}, 10, 0⟩, .queued, 0, 2⟩

/-- A detail request goes before an overview request of a higher priority. -/
theorem detail_passes_overview_request : ∃ s s' : Session, Created s ∧
    run [plainCall (.requestRegion ⟨0, ⟨0, 256⟩, {.waveformDetail}, 0, 0⟩),
      plainCall (.requestRegion ⟨0, ⟨256, 512⟩, {.waveformOverview}, 10, 0⟩)] s = some s' ∧
    ¬OrderingLaw s' := by
  obtain ⟨s, hs⟩ : ∃ s, create detailConfig seriesLibm false plainPlatform = (.ok, some s) :=
    ⟨_, rfl⟩
  have hafter : ((create detailConfig seriesLibm false plainPlatform).2.bind
      (run [plainCall (.requestRegion ⟨0, ⟨0, 256⟩, {.waveformDetail}, 0, 0⟩),
        plainCall (.requestRegion ⟨0, ⟨256, 512⟩, {.waveformOverview}, 10, 0⟩)])).map
        (fun s => (s.requests, s.focus, s.accepted.ranges, s.config.totalFrames)) =
      some (⟨1, ⟨1, ⟨0, 256⟩, {.waveformDetail}, 0, 0⟩, .queued, 0, 1⟩ :: urgentSlot ::
        List.replicate 14 .empty, none, [], some 512) := rfl
  have hasked : ((create detailConfig seriesLibm false plainPlatform).2.bind
      (run [plainCall (.requestRegion ⟨0, ⟨0, 256⟩, {.waveformDetail}, 0, 0⟩),
        plainCall (.requestRegion ⟨0, ⟨256, 512⟩, {.waveformOverview}, 10, 0⟩)])).map
        (fun s => s.nextPcmRequest.1.toOption.map PcmRequest.requestToken) = some (some 1) := by
    decide +kernel
  rw [hs] at hafter hasked
  obtain ⟨s', hrun, hfacts⟩ := Option.map_eq_some_iff.mp hafter
  obtain ⟨s'', hrun', hdemand⟩ := Option.map_eq_some_iff.mp hasked
  obtain rfl := Option.some.inj (hrun'.symm.trans hrun)
  simp only [Prod.mk.injEq] at hfacts
  obtain ⟨hrequests, hfocus, hranges, htotal⟩ := hfacts
  refine ⟨s, s'', ⟨_, _, _, _, hs⟩, hrun, fun hlaw => ?_⟩
  have hbest : s''.Best (.request urgentSlot) := by
    refine ⟨⟨by rw [hrequests]; simp, rfl⟩, .inr ⟨⟨.waveformOverview,
      Finset.mem_singleton_self _, by decide⟩, 256, le_rfl, ?_, ?_⟩, fun other hother _ => ?_⟩
    · show 256 < Detail.cutTo s''.config.totalFrames 512
      rw [htotal]
      norm_num [Detail.cutTo]
    · show 256 ∉ Interval.support s''.accepted.ranges
      rw [hranges]
      simp [Interval.support]
    · cases other with
      | request r =>
          obtain ⟨hmem, hactive⟩ := hother
          rw [hrequests] at hmem
          rcases List.mem_cons.mp hmem with rfl | hmem
          · show ¬scoreBetter _ _ = true
            decide
          rcases List.mem_cons.mp hmem with rfl | hempty
          · exact fun hself => hself.asymm hself
          · rw [List.eq_of_mem_replicate hempty] at hactive
            cases hactive
      | focus f =>
          have hset : s''.focus = some f := hother
          rw [hfocus] at hset
          cases hset
  obtain ⟨request, hnext⟩ := hlaw.answers _ hbest
  have htoken := (hlaw.best request hnext _ hbest).token
  rw [hnext] at hdemand
  rw [Option.some.inj hdemand] at htoken
  cases htoken

end Session

end LibApta
