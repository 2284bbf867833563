import LibApta.Lib.LinkedList
import LibApta.Lib.Ranking
import LibApta.Session.Run
import LibApta.Session.Selection
import Mathlib.Data.Prod.Lex
import Mathlib.Order.WithBot

/-!
# The order of the queue

The queue is a linked list of nodes with a head, a tail and a count of frames. Before the overview
layer runs, it is relinked by an insertion sort on the scores of its nodes. The comparison of scores is
the order of a key, the score of a node has the greatest key of what calls for the node, and the sort
leaves the same cells by falling key with ties in their old order. The overview layer looks for the
first node of the highest priority, and with the priorities of the call that is the head.
-/

namespace LibApta

/-! ## The key of a score -/

/-- Scores by effective priority, then by deadline, by serial and by identifier, where less is better
and no deadline is the last one. -/
abbrev ScheduleKey := ℕ ×ₗ (WithTop ℕ)ᵒᵈ ×ₗ ℕᵒᵈ ×ₗ ℕᵒᵈ

namespace ScheduleScore

/-- The deadline of a score; a score without one is due last. -/
def due (score : ScheduleScore) : WithTop ℕ :=
  if score.softDeadline = 0 then ⊤ else score.softDeadline

/-- The key of a score. -/
def key (score : ScheduleScore) : ScheduleKey :=
  toLex (score.effectivePriority, toLex (OrderDual.toDual score.due,
    toLex (OrderDual.toDual score.enqueueSerial, OrderDual.toDual score.requestId)))

theorem due_lt_iff {a b : ScheduleScore} : a.due < b.due ↔ a.Sooner b := by
  unfold due Sooner
  split_ifs with ha hb hb
  · simp [ha]
  · simp [ha]
  · simp [ha, hb]
  · simp [ha, hb]

theorem due_inj {a b : ScheduleScore} : a.due = b.due ↔ a.softDeadline = b.softDeadline := by
  unfold due
  split_ifs with ha hb hb
  · simp [ha, hb]
  · simp [ha, eq_comm, hb]
  · simp [hb, ha]
  · simp

end ScheduleScore

/-- The comparison of the scheduler is the order of the keys. -/
theorem scoreBetter_iff_key {a b : ScheduleScore} : scoreBetter a b = true ↔ b.key < a.key := by
  rw [scoreBetter_iff, ScheduleScore.key, ScheduleScore.key, Prod.Lex.toLex_lt_toLex]
  rw [Prod.Lex.toLex_lt_toLex, Prod.Lex.toLex_lt_toLex, OrderDual.toDual_lt_toDual,
    OrderDual.toDual_lt_toDual, OrderDual.toDual_lt_toDual, OrderDual.toDual_inj,
    OrderDual.toDual_inj, ScheduleScore.due_lt_iff, ScheduleScore.due_inj,
    eq_comm (a := b.softDeadline), eq_comm (a := b.enqueueSerial)]
  rfl

/-! ## The key of a node -/

namespace Session

variable {s : Session} {node : PcmNode}

/-- The focus names the overview and its window overlaps what is left of a node. -/
def focusCovers (focus : Focus) (node : PcmNode) : Bool :=
  decide (Feature.waveformOverview ∈ focus.featureMask) &&
    decide (focus.window.firstFrame < focus.window.endFrame) &&
    rangesOverlap node.nextFrame node.endFrame focus.window.firstFrame focus.window.endFrame

/-- A request is active, names the overview, and overlaps what is left of a node. -/
def requestCovers (node : PcmNode) (request : Request) : Bool :=
  request.wantsFeature .waveformOverview &&
    rangesOverlap node.nextFrame node.endFrame request.request.range.firstFrame
      request.request.range.endFrame

/-- The score of the focus for a node. -/
def focusScore (s : Session) (node : PcmNode) : ScheduleScore :=
  match s.focus with
  | some focus =>
      if focusCovers focus node then
        { ScheduleScore.none with effectivePriority := focus.priority }
      else .none
  | none => .none

/-- The key of a node: the greatest one of the focus and the requests that cover it. -/
def nodeKey (s : Session) (node : PcmNode) : ScheduleKey :=
  ((s.requests.filter (requestCovers node)).map fun request => (scoreRequest request).key).foldl max
    (s.focusScore node).key

/-- The sort puts one node before another one. -/
def nodeBetter (s : Session) (candidate current : PcmNode) : Bool :=
  scoreBetter (s.scoreNode candidate) (s.scoreNode current)

/-- A request replaces the score of a node when it covers the node and is better. -/
def raiseScore (node : PcmNode) (score : ScheduleScore) (request : Request) : ScheduleScore :=
  if requestCovers node request && scoreBetter (scoreRequest request) score then
    scoreRequest request
  else score

theorem scoreNode_eq (s : Session) (node : PcmNode) :
    s.scoreNode node = s.requests.foldl (raiseScore node) (s.focusScore node) := by
  unfold scoreNode
  show List.foldl _ (s.focusScore node) s.requests = _
  refine List.foldl_ext _ _ _ fun score request _ => ?_
  unfold raiseScore requestCovers
  rw [← requestMatchesFeature_eq]
  unfold requestMatchesFeature
  congr 2
  ac_rfl

theorem raiseScore_key (score : ScheduleScore) (request : Request) :
    (raiseScore node score request).key =
      if requestCovers node request then max score.key (scoreRequest request).key
      else score.key := by
  unfold raiseScore
  cases hcovers : requestCovers node request with
  | false => rfl
  | true =>
      rw [Bool.true_and, if_pos rfl]
      split_ifs with hbetter
      · exact (max_eq_right (scoreBetter_iff_key.mp hbetter).le).symm
      · exact (max_eq_left (not_lt.mp (mt scoreBetter_iff_key.mpr hbetter))).symm

/-- The score of a node has its key. -/
theorem scoreNode_key (s : Session) (node : PcmNode) :
    (s.scoreNode node).key = s.nodeKey node := by
  rw [scoreNode_eq, nodeKey, List.foldl_map, List.foldl_filter]
  generalize s.focusScore node = score
  induction s.requests generalizing score with
  | nil => rfl
  | cons request rest ih => rw [List.foldl_cons, List.foldl_cons, ih, raiseScore_key]

theorem nodeBetter_iff {candidate current : PcmNode} :
    s.nodeBetter candidate current = true ↔ s.nodeKey current < s.nodeKey candidate := by
  rw [nodeBetter, scoreBetter_iff_key, scoreNode_key, scoreNode_key]

/-! ## The priority of a node -/

theorem raiseScore_priority (score : ScheduleScore) (request : Request) :
    (raiseScore node score request).effectivePriority =
      if requestCovers node request &&
          decide (score.effectivePriority < (scoreRequest request).effectivePriority) then
        (scoreRequest request).effectivePriority
      else score.effectivePriority := by
  unfold raiseScore
  cases hcovers : requestCovers node request with
  | false => rfl
  | true =>
      simp only [Bool.true_and, decide_eq_true_eq]
      split_ifs with hbetter hlt hlt
      · rfl
      · rcases scoreBetter_iff.mp hbetter with hlower | ⟨hsame, -⟩
        · exact absurd hlower hlt
        · exact hsame.symm
      · exact absurd (scoreBetter_iff.mpr (.inl hlt)) hbetter
      · rfl

/-- A request as the overview layer sees it during the call. -/
def raisedRequest (request : Request) : Request :=
  if request.isActive then request.raised else request

theorem requestCovers_raised (request : Request) :
    requestCovers node (raisedRequest request) = requestCovers node request := by
  unfold raisedRequest
  split_ifs <;> rfl

theorem raisedRequest_priority {request : Request} (hcovers : requestCovers node request = true)
    (hbyte : request.request.priority ≤ 255) :
    (raisedRequest request).request.priority = (scoreRequest request).effectivePriority := by
  have hactive : request.isActive = true := by
    unfold requestCovers Request.wantsFeature at hcovers
    simp only [Bool.and_eq_true] at hcovers
    exact hcovers.1.1
  unfold raisedRequest
  rw [if_pos hactive]
  exact Nat.mod_eq_of_lt (Nat.lt_succ_of_le (effectivePriority_le hbyte))

/-- With the priorities of the call, the overview layer gives a node the priority of its score. -/
theorem nodePriority_raised (hbytes : BytePriorities s.requests)
    (node : PcmNode) :
    nodePriority s.raisePriorities.processContext node = (s.scoreNode node).effectivePriority := by
  have hfold : ∀ (requests : List Request) (score : ScheduleScore),
      BytePriorities requests →
      (requests.map raisedRequest).foldl (fun priority request =>
        if requestCovers node request && decide (priority < request.request.priority) then
          request.request.priority
        else priority) score.effectivePriority =
      (requests.foldl (raiseScore node) score).effectivePriority := by
    intro requests
    induction requests with
    | nil => exact fun score _ => rfl
    | cons request rest ih =>
        intro score hbytes
        obtain ⟨hbyte, hbytes⟩ := List.forall_mem_cons.mp hbytes
        rw [List.foldl_cons, ← ih _ hbytes, List.map_cons, List.foldl_cons, requestCovers_raised,
          raiseScore_priority]
        congr 1
        cases hcovers : requestCovers node request with
        | false => rfl
        | true => rw [raisedRequest_priority hcovers hbyte]
  rw [scoreNode_eq, ← hfold s.requests _ hbytes]
  unfold nodePriority focusScore
  show List.foldl _ _ (s.requests.map raisedRequest) = _
  congr 1
  rw [show s.raisePriorities.processContext.focus = s.focus from rfl]
  cases s.focus with
  | none => rfl
  | some focus =>
      simp only
      unfold focusCovers
      split_ifs <;> rfl

/-! ## The sorted queue -/

/-- A node is the first of the highest priority when no later one has a higher priority. -/
theorem selectPcmNode_head {ctx : ProcessContext} {head : PcmNode} {rest : List PcmNode}
    (h : ∀ node ∈ rest, nodePriority ctx node ≤ nodePriority ctx head) :
    selectPcmNode ctx (head :: rest) = some 0 := by
  have hstays : ∀ (nodes : List PcmNode) (index : ℕ),
      (∀ node ∈ nodes, nodePriority ctx node ≤ nodePriority ctx head) →
      selectPcmNodeFrom ctx nodes index (some (0, nodePriority ctx head)) =
        some (0, nodePriority ctx head) := by
    intro nodes
    induction nodes with
    | nil => exact fun _ _ => rfl
    | cons node rest ih =>
        intro index hnodes
        obtain ⟨hnode, hrest⟩ := List.forall_mem_cons.mp hnodes
        rw [selectPcmNodeFrom, if_neg (not_lt.mpr hnode), ih _ hrest]
  rw [selectPcmNode, selectPcmNodeFrom, hstays rest _ h]
  rfl

/-- Keys compare the effective priorities first. -/
theorem priority_le_of_key {a b : ScheduleScore} (h : a.key ≤ b.key) :
    a.effectivePriority ≤ b.effectivePriority :=
  not_lt.mp fun hlt => absurd (scoreBetter_iff_key.mp (scoreBetter_iff.mpr (.inl hlt))) (not_lt.mpr h)

/-- The list of a sort: nodes enter one after the other, each before the first one it beats. -/
theorem sorted_ranks {α : Type} (node : α → PcmNode) (s : Session) (cells : List α) :
    Ranking.Ranks (fun cell => s.nodeKey (node cell)) cells
      (cells.foldl (fun sorted cell => LinkedList.insertBefore
        (fun candidate current => s.nodeBetter (node candidate) (node current)) cell sorted) []) := by
  have hinsert : ∀ (cell : α) (sorted : List α),
      LinkedList.insertBefore
          (fun candidate current => s.nodeBetter (node candidate) (node current)) cell sorted =
        Ranking.insertBest (fun cell => s.nodeKey (node cell)) cell sorted := by
    intro cell sorted
    induction sorted with
    | nil => rfl
    | cons head rest ih =>
        rw [LinkedList.insertBefore, Ranking.insertBest_cons, ih]
        exact if_congr nodeBetter_iff rfl rfl
  simp only [hinsert]
  exact Ranking.foldl_insertBest_ranks cells [] [] ⟨.refl _, .nil, fun _ => rfl⟩

/-- The contents of the sorted cells are the sorted queue. -/
theorem sorted_contents {α : Type} (node : α → PcmNode) (s : Session) (cells : List α)
    (h : cells.map node = s.queue) :
    (cells.foldl (fun sorted cell => LinkedList.insertBefore
        (fun candidate current => s.nodeBetter (node candidate) (node current)) cell sorted)
      []).map node = s.sortPcmQueue := by
  have hinsert : ∀ (cell : α) (sorted : List α),
      (LinkedList.insertBefore
          (fun candidate current => s.nodeBetter (node candidate) (node current)) cell sorted).map
        node = insertNode s.nodeBetter (node cell) (sorted.map node) := by
    intro cell sorted
    induction sorted with
    | nil => rfl
    | cons head rest ih =>
        rw [LinkedList.insertBefore, List.map_cons, insertNode, ← ih]
        split_ifs <;> rfl
  have hfold : ∀ (todo sorted : List α),
      (todo.foldl (fun sorted cell => LinkedList.insertBefore
          (fun candidate current => s.nodeBetter (node candidate) (node current)) cell sorted)
        sorted).map node =
      (todo.map node).foldl (fun sorted node => insertNode s.nodeBetter node sorted)
        (sorted.map node) := by
    intro todo
    induction todo with
    | nil => exact fun _ => rfl
    | cons cell rest ih =>
        intro sorted
        rw [List.foldl_cons, ih, hinsert, List.map_cons, List.foldl_cons]
  rw [hfold, h]
  rfl

end Session

/-! ## The linked queue -/

/-- The queue as a session holds it: nodes at addresses, each linked to the next one. -/
structure PcmLinks (α : Type) where
  node : α → PcmNode
  next : α → Option α
  head : Option α
  tail : Option α
  queuedFrames : ℕ

namespace PcmLinks

open LinkedList

variable {α : Type} [DecidableEq α] {links : PcmLinks α} {cells : List α}

/-- The queue links the addresses of a list from its head on, its tail is the last one, and its count
is that of the frames of all nodes. -/
structure Holds (links : PcmLinks α) (cells : List α) : Prop where
  linked : Segment links.next links.head cells none
  nodup : cells.Nodup
  tail : links.tail = cells.getLast?
  queued : links.queuedFrames = ((cells.map links.node).map PcmNode.frameCount).sum

/-- Relink the queue by the scores of its nodes and walk to the new tail. Both walks end with the
queue; `reach` bounds their steps. -/
def sortPcmQueue (s : Session) (reach : ℕ) (links : PcmLinks α) : PcmLinks α :=
  let sorted := sortLinks
    (fun candidate current => s.nodeBetter (links.node candidate) (links.node current)) reach reach
    links.head none links.next
  { links with
    next := sorted.2
    head := sorted.1
    tail := sorted.1.map (last sorted.2 reach) }

/-- Walk along the queue and keep the first node of the highest priority, with the one before it. -/
def selectFrom (ctx : ProcessContext) (links : PcmLinks α) :
    ℕ → Option α → Option α → Option (α × Option α × ℕ) → Option (α × Option α × ℕ)
  | 0, _, _, best => best
  | _ + 1, none, _, best => best
  | fuel + 1, some cell, previous, none =>
      selectFrom ctx links fuel (links.next cell) (some cell)
        (some (cell, previous, nodePriority ctx (links.node cell)))
  | fuel + 1, some cell, previous, some (best, bestPrevious, priority) =>
      selectFrom ctx links fuel (links.next cell) (some cell)
        (if priority < nodePriority ctx (links.node cell) then
          some (cell, previous, nodePriority ctx (links.node cell))
        else some (best, bestPrevious, priority))

/-- The node the next chunk is taken from, and the one before it. -/
def selectPcmNode (ctx : ProcessContext) (reach : ℕ) (links : PcmLinks α) : Option (α × Option α) :=
  (selectFrom ctx links reach links.head none none).map fun best => (best.1, best.2.1)

/-! ### Sorting -/

/-- The addresses in the order of the sort. -/
def sortedCells (s : Session) (node : α → PcmNode) (cells : List α) : List α :=
  cells.foldl (fun sorted cell =>
    insertBefore (fun candidate current => s.nodeBetter (node candidate) (node current)) cell
      sorted) []

/-- The sort relinks the queue in the order of the sort: the tail is the last node, no node has changed
and the count is that of the same nodes. -/
theorem Holds.sortPcmQueue (h : links.Holds cells) (s : Session) {reach : ℕ}
    (hreach : cells.length ≤ reach) :
    (links.sortPcmQueue s reach).Holds (sortedCells s links.node cells) := by
  have hperm := (Session.sorted_ranks links.node s cells).perm
  change (sortedCells s links.node cells).Perm cells at hperm
  obtain ⟨hlinked, -⟩ := sortLinks_segment
    (fun candidate current => s.nodeBetter (links.node candidate) (links.node current))
    h.linked (show Segment links.next none [] none from rfl)
    (show (cells ++ []).Nodup by rw [List.append_nil]; exact h.nodup)
    (show (cells ++ []).length ≤ reach by rw [List.append_nil]; exact hreach) hreach
  refine ⟨hlinked, hperm.nodup_iff.mpr h.nodup, ?_, ?_⟩
  · exact map_last_eq hlinked (hperm.length_eq.trans_le hreach)
  · show links.queuedFrames = _
    rw [h.queued]
    exact ((hperm.map links.node).map PcmNode.frameCount).sum_eq.symm

/-! ### Selecting -/

/-- The scan over addresses has found what the scan over positions has. -/
inductive Picks (cells : List α) : Option (α × Option α × ℕ) → Option (ℕ × ℕ) → Prop
  | nothing : Picks cells none none
  | node {left right : List α} {cell : α} {priority : ℕ} (hcells : cells = left ++ cell :: right) :
      Picks cells (some (cell, left.getLast?, priority)) (some (left.length, priority))

omit [DecidableEq α] in
theorem selectFrom_picks (ctx : ProcessContext) {fuel : ℕ} {start : Option α}
    (before : List α) {rest : List α} {best : Option (α × Option α × ℕ)} {position : Option (ℕ × ℕ)}
    (hrest : Segment links.next start rest none) (hfuel : rest.length ≤ fuel)
    (hbest : Picks (before ++ rest) best position) :
    Picks (before ++ rest) (selectFrom ctx links fuel start before.getLast? best)
      (selectPcmNodeFrom ctx (rest.map links.node) before.length position) := by
  induction rest generalizing fuel start before best position with
  | nil =>
      obtain rfl : start = none := hrest
      cases fuel with
      | zero => exact hbest
      | succ fuel => exact hbest
  | cons cell rest ih =>
      obtain ⟨rfl, hrest⟩ := hrest
      obtain ⟨fuel, rfl⟩ := Nat.exists_eq_succ_of_ne_zero (Nat.ne_of_gt (Nat.lt_of_lt_of_le
        (Nat.succ_pos _) hfuel))
      have hnext := fun best position (h : Picks (before ++ cell :: rest) best position) =>
        ih (before ++ [cell]) hrest (Nat.le_of_succ_le_succ hfuel)
          (List.append_cons before cell rest ▸ h)
      simp only [List.getLast?_concat, List.length_append, List.length_singleton,
        ← List.append_cons] at hnext
      cases hbest with
      | nothing => exact hnext _ _ (.node rfl)
      | node hcells =>
          rw [selectFrom, List.map_cons, selectPcmNodeFrom]
          split_ifs
          · exact hnext _ _ (.node rfl)
          · exact hnext _ _ (.node hcells)

omit [DecidableEq α] in
/-- The scan along the queue finds the node at the position that the scan of the list finds. -/
theorem Holds.selectPcmNode (h : links.Holds cells) (ctx : ProcessContext) {reach : ℕ}
    (hreach : cells.length ≤ reach) :
    (links.selectPcmNode ctx reach = none ∧ LibApta.selectPcmNode ctx (cells.map links.node) = none) ∨
      ∃ left cell right, cells = left ++ cell :: right ∧
        links.selectPcmNode ctx reach = some (cell, left.getLast?) ∧
        LibApta.selectPcmNode ctx (cells.map links.node) = some left.length := by
  have hpicks : Picks cells (selectFrom ctx links reach links.head none none)
      (selectPcmNodeFrom ctx (cells.map links.node) 0 none) :=
    selectFrom_picks ctx [] h.linked hreach .nothing
  unfold PcmLinks.selectPcmNode LibApta.selectPcmNode
  generalize selectFrom ctx links reach links.head none none = best at hpicks ⊢
  generalize selectPcmNodeFrom ctx (cells.map links.node) 0 none = position at hpicks ⊢
  cases hpicks with
  | nothing => exact .inl ⟨rfl, rfl⟩
  | node hcells => exact .inr ⟨_, _, _, hcells, rfl, rfl⟩

end PcmLinks

/-! ## The prioritised queue -/

namespace Session

variable {s : Session}

theorem nodeBetter_strictWeakOrder (s : Session) :
    IsStrictWeakOrder PcmNode fun candidate current => s.nodeBetter candidate current = true where
  irrefl node h := lt_irrefl _ (nodeBetter_iff.mp h)
  trans _ _ _ h h' :=
    nodeBetter_iff.mpr ((nodeBetter_iff.mp h').trans (nodeBetter_iff.mp h))
  incomp_trans _ _ _ h h' := by
    simp only [nodeBetter_iff, not_lt] at h h' ⊢
    exact ⟨h.1.trans h'.1, h'.2.trans h.2⟩

/-- What the overview layer reads of a session after its queue has been sorted. -/
theorem selectPcmNode_sorted {queue : List PcmNode}
    (hbytes : BytePriorities s.requests)
    (hfalling : Ranking.Falling s.nodeKey queue) :
    selectPcmNode s.raisePriorities.processContext queue = queue.head?.map fun _ => 0 := by
  cases queue with
  | nil => rfl
  | cons head rest =>
      refine selectPcmNode_head fun node hnode => ?_
      rw [nodePriority_raised hbytes, nodePriority_raised hbytes]
      refine priority_le_of_key ?_
      rw [scoreNode_key, scoreNode_key]
      exact (List.pairwise_cons.mp hfalling).1 node hnode

/-- Making room for the columns changes nothing that the overview layer selects nodes by. -/
theorem reserveAccumulators_selects (s : Session) :
    s.reserveAccumulators.2.queue = s.queue ∧
      s.reserveAccumulators.2.raisePriorities.processContext = s.raisePriorities.processContext := by
  unfold reserveAccumulators
  split_ifs
  · exact ⟨rfl, rfl⟩
  · exact ⟨rfl, rfl⟩
  simp only
  split_ifs
  · exact ⟨rfl, rfl⟩
  · exact ⟨rfl, rfl⟩
  · exact ⟨rfl, rfl⟩

/-- The sorted queue lists its nodes by falling key. -/
theorem orderQueue_falling (s : Session) :
    Ranking.Falling s.orderQueue.nodeKey s.orderQueue.queue := by
  have hcontents := sorted_contents id s s.queue (List.map_id _)
  rw [List.map_id] at hcontents
  show Ranking.Falling s.nodeKey s.sortPcmQueue
  rw [← hcontents]
  exact (sorted_ranks id s s.queue).falling

theorem demandOverview_bytes (features : FeatureMask) (h : BytePriorities s.requests) :
    BytePriorities (s.demandOverview features).requests := by
  intro request hmem
  obtain ⟨before, hbefore, rfl⟩ := List.mem_map.mp hmem
  exact h before hbefore

/-- Sorting leaves the same nodes as they are, by falling key with ties in their old order, with the
tail at the last one and the count of their frames; the comparison is a strict weak order. The node
that the overview layer selects with the priorities of the call, on the links and on the list, is the
head. -/
theorem sortPcmQueue_stable {α : Type} [DecidableEq α] (s : Session) (links : PcmLinks α)
    (cells : List α) (reach : ℕ) (h : links.Holds cells) (hqueue : cells.map links.node = s.queue)
    (hreach : cells.length ≤ reach) (hbytes : BytePriorities s.requests) :
    IsStrictWeakOrder PcmNode (fun candidate current => s.nodeBetter candidate current = true) ∧
      (∃ sorted : List α,
        Ranking.Ranks (fun cell => s.nodeKey (links.node cell)) cells sorted ∧
          (links.sortPcmQueue s reach).Holds sorted ∧
          (links.sortPcmQueue s reach).node = links.node ∧
          sorted.map links.node = s.orderQueue.queue ∧
          (links.sortPcmQueue s reach).selectPcmNode s.orderQueue.raisePriorities.processContext
            reach = (links.sortPcmQueue s reach).head.map fun head => (head, none)) ∧
      selectPcmNode s.stageDemand.reserveAccumulators.2.raisePriorities.processContext
          s.stageDemand.reserveAccumulators.2.queue =
        s.stageDemand.queue.head?.map fun _ => 0 := by
  have hsorted := sorted_ranks links.node s cells
  have hcontents : (PcmLinks.sortedCells s links.node cells).map links.node = s.sortPcmQueue :=
    sorted_contents links.node s cells hqueue
  have hholds := h.sortPcmQueue s hreach
  refine ⟨s.nodeBetter_strictWeakOrder, ⟨_, hsorted, hholds, rfl, hcontents, ?_⟩, ?_⟩
  · have hselect : LibApta.selectPcmNode s.orderQueue.raisePriorities.processContext
        s.sortPcmQueue = s.sortPcmQueue.head?.map fun _ => 0 :=
      selectPcmNode_sorted (s := s.orderQueue) hbytes s.orderQueue_falling
    have hfound := hholds.selectPcmNode s.orderQueue.raisePriorities.processContext
      (hsorted.perm.length_eq.trans_le hreach)
    rw [show (PcmLinks.sortedCells s links.node cells).map (links.sortPcmQueue s reach).node =
      s.sortPcmQueue from hcontents, hselect, ← hcontents] at hfound
    have hhead := hholds.linked.start_eq
    rw [hhead]
    generalize PcmLinks.sortedCells s links.node cells = sorted at hfound ⊢
    obtain ⟨hnone, hempty⟩ | ⟨left, cell, right, rfl, hsome, hat⟩ := hfound
    · rw [hnone]
      cases sorted with
      | nil => rfl
      | cons head rest => cases hempty
    · rw [hsome]
      cases left with
      | nil => rfl
      | cons head rest => cases hat
  · obtain ⟨hsame, hcontext⟩ := s.stageDemand.reserveAccumulators_selects
    rw [hsame, hcontext]
    have hstaged : BytePriorities s.stageDemand.requests :=
      demandOverview_bytes {Feature.waveformDetail} hbytes
    exact selectPcmNode_sorted hstaged
      (orderQueue_falling (s.demandOverview {Feature.waveformDetail}))

/-- The second of two queued nodes, which a request asks for, is put first. -/
theorem sortPcmQueue_stable_pair : ∃ (s : Session) (links : PcmLinks ℕ) (sorted : List ℕ),
    links.Holds [0, 1] ∧ (links.sortPcmQueue s 2).Holds sorted ∧ sorted.Perm [0, 1] ∧
      (links.sortPcmQueue s 2).head = some 1 ∧
      selectPcmNode s.stageDemand.reserveAccumulators.2.raisePriorities.processContext
        s.stageDemand.reserveAccumulators.2.queue = some 0 := by
  obtain ⟨s, -⟩ : ∃ s, create (smallConfig {.waveformOverview} none) seriesLibm false
      plainPlatform = (.ok, some s) := ⟨_, rfl⟩
  let near : PcmNode := ⟨0, [0], 0⟩
  let far : PcmNode := ⟨8, [0, 0], 0⟩
  let asked : Session := { s with
    focus := none
    requests := [⟨1, ⟨1, ⟨8, 10⟩, {.waveformOverview}, 5, 0⟩, .queued, 0, 1⟩]
    queue := [near, far] }
  let links : PcmLinks ℕ :=
    ⟨fun cell => if cell = 0 then near else far, fun cell => if cell = 0 then some 1 else none,
      some 0, some 1, 3⟩
  have hholds : links.Holds [0, 1] := ⟨⟨rfl, rfl, rfl⟩, by decide, rfl, rfl⟩
  have hbytes : BytePriorities asked.requests := by
    intro request hmem
    rw [List.mem_singleton.mp hmem]
    decide
  obtain ⟨-, ⟨sorted, hranks, hsorted, -, -, -⟩, hfirst⟩ :=
    sortPcmQueue_stable asked links [0, 1] 2 hholds rfl le_rfl hbytes
  exact ⟨asked, links, sorted, hholds, hsorted, hranks.perm, rfl, hfirst⟩

end Session

end LibApta
