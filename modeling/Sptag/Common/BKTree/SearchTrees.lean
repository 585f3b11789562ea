import Sptag.Common.BKTree
import Sptag.Common.WorkSpace.Space

/-! The searches of `inc/Core/Common/BKTree.h`: the trees are descended from their roots, the
nearest centre first, and the centres that are passed go to the queue of the graph. -/

namespace Sptag.COMMON.BKTree

open Lib Slots WorkSpace

variable {V D : Type} [LinearOrder D]

/-- How a breadth-first start is made: `FactorQ` stands for the product with it, `far` for `1e9`. -/
structure Bfs (D : Type) where
  m_bfs : Int
  FactorQ : D → D
  far : D

def inner (roots : Slots BKTNode) (k : Nat) : Nat × Nat :=
  let node := roots.cell k
  if node.childStart < 0 then (0, 0)
  else (node.childStart.toNat, node.childEnd.toNat)

section Source

variable (visits : VisitedSet V) (maxDist : D) (data : Samples D) (roots : Slots BKTNode)

def nodeAt (k : Int) : Option BKTNode := if k < 0 then none else roots.get k.toNat

def childRange (tnode : BKTNode) : List Nat :=
  List.range' tnode.childStart.toNat (tnode.childEnd.toNat - tnode.childStart.toNat)

def centerDistance (begin : Nat) : Option D := do
  let node ← roots.get begin
  data.get node.centerid

def insertChild (ws : WorkSpace V D) (begin : Nat) : Option (WorkSpace V D) := do
  let dist ← centerDistance data roots begin
  ws.insertSPT begin dist

def searchCell (p_limits : Int) (ws : WorkSpace V D) (bcell : NodeDistPair D) :
    Option (Bool × WorkSpace V D) := do
  let tnode ← nodeAt roots bcell.node
  if tnode.childStart < 0 then
    let ws ← ws.meet visits tnode.centerid bcell.distance 1
    return (decide (p_limits ≤ ws.m_iNumberOfCheckedLeaves), ws)
  else
    let ws ← ws.meet visits tnode.centerid bcell.distance 0
    let ws ← (childRange tnode).foldlM (insertChild data roots) ws
    return (false, ws)

def searchTrees (p_limits : Int) : Nat → WorkSpace V D → Option (WorkSpace V D)
  | 0, _ => none
  | rounds + 1, ws =>
    if ws.m_SPTQueue.count = 0 then some ws
    else do
      let (bcell, queue) ← ws.m_SPTQueue.popBy NodeDistPair.distance
      let (stop, ws) ← searchCell visits data roots p_limits { ws with m_SPTQueue := queue } bcell
      if stop then return ws else searchTrees p_limits rounds ws

def placeNode (bfs : Bfs D) (s : Heap (NodeDistPair D) × WorkSpace V D) (begin : Nat) :
    Option (Heap (NodeDistPair D) × WorkSpace V D) := do
  let dist ← centerDistance data roots begin
  let top ← s.1.top
  if dist ≤ bfs.FactorQ top.distance ∧ s.1.count < 100 then
    let p_next ← s.1.insertBy NodeDistPair.distance ⟨begin, dist⟩
    return (p_next, s.2)
  else
    let ws ← s.2.insertSPT begin dist
    return (s.1, ws)

def expandNode (bfs : Bfs D) (s : Heap (NodeDistPair D) × WorkSpace V D) (tmp : NodeDistPair D) :
    Option (Heap (NodeDistPair D) × WorkSpace V D) := do
  let tnode ← nodeAt roots tmp.node
  if tnode.childStart < 0 then
    let ws ← s.2.insertSPT tmp.node tmp.distance
    return (s.1, ws)
  else
    let ws ← s.2.meet visits tnode.centerid tmp.distance 0
    (childRange tnode).foldlM (placeNode data roots bfs) (s.1, ws)

def popEach {S : Type} (f : S → NodeDistPair D → Option S) :
    Nat → Heap (NodeDistPair D) → S → Option (Heap (NodeDistPair D) × S)
  | 0, queue, s => some (queue, s)
  | count + 1, queue, s => do
    let (tmp, queue) ← queue.popBy NodeDistPair.distance
    let s ← f s tmp
    popEach f count queue s

def setTop (queue : Heap (NodeDistPair D)) (distance : D) : Option (Heap (NodeDistPair D)) := do
  let top ← queue.top
  let heap ← queue.heap.set (if queue.count = 0 then 0 else 1) { top with distance := distance }
  return { queue with heap := heap }

def levels (bfs : Bfs D) : Nat → Heap (NodeDistPair D) → Heap (NodeDistPair D) → WorkSpace V D →
    Option (WorkSpace V D)
  | 0, p_curr, _, ws => do
    let (_, ws) ← popEach (fun ws tmp => ws.insertSPT tmp.node tmp.distance) p_curr.count p_curr ws
    return ws
  | level + 1, p_curr, p_next, ws => do
    let p_next ← setTop p_next bfs.far
    let (p_curr, p_next, ws) ← popEach (expandNode visits data roots bfs) p_curr.count
      p_curr (p_next, ws)
    levels bfs level p_next p_curr ws

def breadthFirst (bfs : Bfs D) (node : BKTNode) (ws : WorkSpace V D) : Option (WorkSpace V D) := do
  let p_curr ← setTop (.resize (fun _ => blank maxDist) 100) bfs.far
  let (p_curr, ws) ← (childRange node).foldlM (placeNode data roots bfs) (p_curr, ws)
  levels visits data roots bfs bfs.m_bfs.toNat p_curr (.resize (fun _ => blank maxDist) 100) ws

def initTree (bfs : Bfs D) (start : Nat) (ws : WorkSpace V D) : Option (WorkSpace V D) := do
  let node ← roots.get start
  if node.childStart < 0 then
    let dist ← data.get node.centerid
    ws.insertSPT start dist
  else if bfs.m_bfs = 0 then (childRange node).foldlM (insertChild data roots) ws
  else breadthFirst visits maxDist data roots bfs node ws

/-- The trees are counted by a `char`; the first number bounds the turns. -/
def initSearchTrees (bfs : Bfs D) (t : BKTree) : Nat → Int → WorkSpace V D → Option (WorkSpace V D)
  | 0, _, _ => none
  | turns + 1, i, ws =>
    if i < t.m_iTreeNumber then do
      let start ← startAt t.m_pTreeStart i
      let ws ← initTree visits maxDist data t.m_pTreeRoots bfs start ws
      initSearchTrees bfs t turns (Int.bmod (i + 1) 256) ws
    else some ws

end Source

inductive Linked (roots : Slots BKTNode) (starts : List Nat) : Nat → Prop
  | start {k : Nat} (h : k ∈ starts) : Linked roots starts k
  | child {k c : Nat} (h : Linked roots starts k) (hc : c ∈ children (inner roots) k) :
    Linked roots starts c

structure Centred (roots : Slots BKTNode) (starts : List Nat) (R k : Nat) : Prop where
  linked : Linked roots starts k
  lt : k < roots.size
  nonneg : 0 ≤ (roots.cell k).centerid
  row : (roots.cell k).centerid < R

structure Wired (roots : Slots BKTNode) (starts : List Nat) (R : Nat) : Prop where
  down : Downward (inner roots) roots.size
  centred : ∀ k, Linked roots starts k → ∀ c ∈ children (inner roots) k, Centred roots starts R c

def cellOf (data : Samples D) (roots : Slots BKTNode) (k : Nat) : NodeDistPair D :=
  ⟨k, data.distance (roots.cell k).centerid.toNat⟩

def IsCell (data : Samples D) (roots : Slots BKTNode) (starts : List Nat)
    (x : NodeDistPair D) : Prop :=
  ∃ k, Centred roots starts data.R k ∧ x = cellOf data roots k

def subtrees (roots : Slots BKTNode) (cells : Multiset (NodeDistPair D)) : Multiset Nat :=
  cells.bind fun x => subtree (inner roots) roots.size x.node.toNat

def Passed (roots : Slots BKTNode) (visited : Finset Nat) (k : Nat) : Prop :=
  (roots.cell k).centerid.toNat ∈ visited

variable {visits : VisitedSet V} {maxDist : D} {data : Samples D} {roots : Slots BKTNode}
  {starts : List Nat} {ws ws' ws'' : WorkSpace V D} {visited visited' : Finset Nat}
  {l : Ledger D} {k : Nat}
  {cells cells' e e' new new' : Multiset (NodeDistPair D)} {x : NodeDistPair D}

omit [LinearOrder D] in
theorem subtrees_add : subtrees roots (cells + cells') = subtrees roots cells +
    subtrees roots cells' :=
  Multiset.add_bind ..

omit [LinearOrder D] in
theorem subtrees_cons : subtrees roots (x ::ₘ cells) =
    subtree (inner roots) roots.size x.node.toNat + subtrees roots cells := Multiset.cons_bind ..

omit [LinearOrder D] in
theorem subtrees_children (ks : List Nat) :
    subtrees roots (ks.map (cellOf data roots) : Multiset (NodeDistPair D)) =
      ks.flatMap (subtree (inner roots) roots.size) := by
  induction ks with
  | nil => rfl
  | cons k ks ih =>
    rw [List.map_cons, ← Multiset.cons_coe, subtrees_cons, ih, List.flatMap_cons,
      ← Multiset.coe_add]
    rfl

omit [LinearOrder D] in
theorem subtrees_cell (hw : Wired roots starts data.R) (hk : k < roots.size) :
    subtrees roots (cellOf data roots k ::ₘ cells) = k ::ₘ (subtrees roots
      ((children (inner roots) k).map (cellOf data roots) : Multiset (NodeDistPair D)) +
        subtrees roots cells) := by
  rw [subtrees_cons, subtrees_children, ← Multiset.cons_add]
  exact congrArg (fun ks : List Nat => (ks : Multiset Nat) + _) (subtree_eq hw.down hk)

omit [LinearOrder D] in
theorem card_le_subtrees (hw : Wired roots starts data.R)
    (h : ∀ x ∈ cells, IsCell data roots starts x) :
    cells.card ≤ (subtrees roots cells).card := by
  induction cells using Multiset.induction with
  | empty => exact Nat.zero_le _
  | cons x cells ih =>
    obtain ⟨k, hk, rfl⟩ := h x (Multiset.mem_cons_self _ _)
    rw [subtrees_cell hw hk.lt, Multiset.card_cons, Multiset.card_cons, Multiset.card_add]
    have := ih fun x hx => h x (Multiset.mem_cons_of_mem hx)
    omega

omit [LinearOrder D] in
theorem centerDistance_eq (hk : Centred roots starts data.R k) :
    centerDistance data roots k = some (data.distance (roots.cell k).centerid.toNat) := by
  rw [centerDistance, get_of_lt hk.lt, Option.bind_eq_bind, Option.bind_some, Samples.get,
    if_pos ⟨hk.nonneg, hk.row⟩]

theorem nodeAt_eq (hk : k < roots.size) : nodeAt roots k = some (roots.cell k) := by
  rw [nodeAt, if_neg (not_lt.mpr (Int.natCast_nonneg k)), Int.toNat_natCast, get_of_lt hk]

theorem children_leaf (h : (roots.cell k).childStart < 0) : children (inner roots) k = [] := by
  rw [children, inner, if_pos h]
  rfl

theorem childRange_eq (h : ¬ (roots.cell k).childStart < 0) :
    childRange (roots.cell k) = children (inner roots) k := by
  rw [children, inner, if_neg h]
  rfl

/-- Cells come to the queue of the trees, or to one beside it, and only a full queue loses any. -/
structure Spread (maxDist : D) (ws ws' : WorkSpace V D) (e e' new : Multiset (NodeDistPair D)) :
    Prop where
  rest : { ws' with m_SPTQueue := ws.m_SPTQueue } = ws
  queue : ws'.m_SPTQueue.OrderedBy NodeDistPair.distance (blank maxDist)
  length : ws'.m_SPTQueue.length = ws.m_SPTQueue.length
  count : ws'.m_SPTQueue.count ≤ ws.m_SPTQueue.count + new.card
  gone : ∃ gone, gone + (e' + ws'.m_SPTQueue.content) = new + (e + ws.m_SPTQueue.content) ∧
    (ws.m_SPTQueue.count + new.card ≤ ws.m_SPTQueue.length → gone = 0)

theorem Spread.refl (h : ws.m_SPTQueue.OrderedBy NodeDistPair.distance (blank maxDist)) :
    Spread maxDist ws ws e e 0 :=
  ⟨rfl, h, rfl, le_rfl, 0, rfl, fun _ => rfl⟩

theorem Spread.trans {e'' : Multiset (NodeDistPair D)} (h : Spread maxDist ws ws' e e' new)
    (h' : Spread maxDist ws' ws'' e' e'' new') : Spread maxDist ws ws'' e e'' (new + new') := by
  obtain ⟨gone, hgone, hroom⟩ := h.gone
  obtain ⟨gone', hgone', hroom'⟩ := h'.gone
  have hcount := h.count
  have hcount' := h'.count
  refine ⟨?_, h'.queue, h'.length.trans h.length, ?_, gone + gone', ?_, fun hle => ?_⟩
  · rw [← h.rest, ← h'.rest]
  · rw [Multiset.card_add]
    omega
  · rw [Multiset.add_assoc, hgone', ← Multiset.add_assoc, Multiset.add_comm gone,
      Multiset.add_assoc,
      hgone, ← Multiset.add_assoc, Multiset.add_comm new]
  · rw [Multiset.card_add] at hle
    rw [hroom (by omega), hroom' (by rw [h.length]; omega), Multiset.add_zero]

theorem insertSPT_spread (h : ws.m_SPTQueue.OrderedBy NodeDistPair.distance (blank maxDist))
    (x : NodeDistPair D) (e : Multiset (NodeDistPair D)) :
    ∃ ws', ws.insertSPT x.node x.distance = some ws' ∧ Spread maxDist ws ws' e e {x} := by
  obtain ⟨queue, gone, hqueue, hordered, hlength, hcontent, hgone, -, -⟩ := h.insert_content x
  refine ⟨_, congrArg (Option.bind · _) hqueue, rfl, hordered, hlength, ?_, gone, ?_, fun hle => ?_⟩
  · have hcard := congrArg Multiset.card hcontent
    rw [Multiset.card_add, Multiset.card_cons, Heap.card_content, Heap.card_content] at hcard
    rw [Multiset.card_singleton]
    dsimp only
    omega
  · dsimp only
    rw [add_left_comm, hcontent, Multiset.singleton_add, Multiset.add_cons]
  · rw [Multiset.card_singleton] at hle
    exact hgone hle

theorem insertChild_spread (h : ws.m_SPTQueue.OrderedBy NodeDistPair.distance (blank maxDist))
    (hk : Centred roots starts data.R k) (e : Multiset (NodeDistPair D)) :
    ∃ ws', insertChild data roots ws k = some ws' ∧
      Spread maxDist ws ws' e e {cellOf data roots k} := by
  rw [insertChild, centerDistance_eq hk]
  exact insertSPT_spread h (cellOf data roots k) e

theorem foldlM_spread {S : Type} {f : S → Nat → Option S} (ofS : S → WorkSpace V D)
    (beside : S → Multiset (NodeDistPair D)) (Good : S → Prop)
    (hstep : ∀ s k, Good s → Centred roots starts data.R k → ∃ s', f s k = some s' ∧ Good s' ∧
      Spread maxDist (ofS s) (ofS s') (beside s) (beside s') {cellOf data roots k})
    {ks : List Nat} (hks : ∀ k ∈ ks, Centred roots starts data.R k) {s : S} (hs : Good s)
    (hqueue : (ofS s).m_SPTQueue.OrderedBy NodeDistPair.distance (blank maxDist)) :
    ∃ s', ks.foldlM f s = some s' ∧ Good s' ∧
      Spread maxDist (ofS s) (ofS s') (beside s) (beside s') (ks.map (cellOf data roots)) := by
  induction ks generalizing s with
  | nil => exact ⟨s, rfl, hs, .refl hqueue⟩
  | cons k ks ih =>
    obtain ⟨s', hs', hgood, hspread⟩ := hstep s k hs (hks k List.mem_cons_self)
    obtain ⟨s'', hs'', hgood', hspread'⟩ := ih (fun k hk => hks k (List.mem_cons_of_mem _ hk)) hgood
      hspread.queue
    refine ⟨s'', ?_, hgood', ?_⟩
    · rw [List.foldlM_cons, hs']
      exact hs''
    · rw [List.map_cons, ← Multiset.cons_coe, ← Multiset.singleton_add]
      exact hspread.trans hspread'

/-- `cells` are in the queue of the trees or beside it, with at most `bound` nodes to search.
Where the queue has room for as many, what is `sought` has been passed or is one of them. -/
structure Climbing (bound : Nat) (sought : Nat → Prop) (visits : VisitedSet V) (maxDist : D)
    (data : Samples D) (roots : Slots BKTNode) (starts : List Nat) (l : Ledger D)
    (ws : WorkSpace V D)
    (visited : Finset Nat) (cells : Multiset (NodeDistPair D)) : Prop where
  accounts : ∃ lost, Accounts visits maxDist data ws visited { l with lost := lost }
  queue : ws.m_SPTQueue.OrderedBy NodeDistPair.distance (blank maxDist)
  cell : ∀ x ∈ cells, IsCell data roots starts x
  bounded : (subtrees roots cells).card ≤ bound
  cover : bound ≤ ws.m_SPTQueue.length → ∀ k, sought k → Passed roots visited k ∨
    k ∈ subtrees roots cells

/-- What a search of the trees leaves alone, and that a new leaf is in the queue of the graph. -/
structure Climbed (ws ws' : WorkSpace V D) : Prop where
  m_Results : ws'.m_Results = ws.m_Results
  m_iMaxCheck : ws'.m_iMaxCheck = ws.m_iMaxCheck
  ng : ws'.m_NGQueue.length = ws.m_NGQueue.length
  spt : ws'.m_SPTQueue.length = ws.m_SPTQueue.length
  count : ws.m_NGQueue.count ≤ ws'.m_NGQueue.count
  leaf : ws'.m_iNumberOfCheckedLeaves = ws.m_iNumberOfCheckedLeaves ∨ 0 < ws'.m_NGQueue.count

omit [LinearOrder D] in
theorem Climbed.refl (ws : WorkSpace V D) : Climbed ws ws := ⟨rfl, rfl, rfl, rfl, le_rfl, .inl rfl⟩

omit [LinearOrder D] in
theorem Climbed.trans (h : Climbed ws ws') (h' : Climbed ws' ws'') : Climbed ws ws'' where
  m_Results := h'.m_Results.trans h.m_Results
  m_iMaxCheck := h'.m_iMaxCheck.trans h.m_iMaxCheck
  ng := h'.ng.trans h.ng
  spt := h'.spt.trans h.spt
  count := h.count.trans h'.count
  leaf := by
    rcases h'.leaf with hsame | hpos
    · rcases h.leaf with hsame' | hpos'
      · exact .inl (hsame.trans hsame')
      · exact .inr (hpos'.trans_le h'.count)
    · exact .inr hpos

theorem Spread.climbed (h : Spread maxDist ws ws' e e' new) : Climbed ws ws' := by
  have hrest := h.rest
  have hlength := h.length
  obtain ⟨⟩ := ws
  obtain ⟨⟩ := ws'
  simp only [WorkSpace.mk.injEq] at hrest
  obtain ⟨-, rfl, rfl, -, rfl, -, rfl⟩ := hrest
  exact ⟨rfl, rfl, rfl, hlength, le_rfl, .inl rfl⟩

theorem Spread.accounts (h : Spread maxDist ws ws' e e' new)
    (ha : Accounts visits maxDist data ws visited l) :
      Accounts visits maxDist data ws' visited l := by
  have hrest := h.rest
  obtain ⟨⟩ := ws
  obtain ⟨⟩ := ws'
  simp only [WorkSpace.mk.injEq] at hrest
  obtain ⟨rfl, rfl, rfl, rfl, rfl, -, rfl⟩ := hrest
  exact { ha with }

variable {bound : Nat} {sought : Nat → Prop}

theorem Spread.card_le (h : Spread maxDist ws ws' e e' new) :
    (subtrees roots (e' + ws'.m_SPTQueue.content)).card ≤
      (subtrees roots (new + (e + ws.m_SPTQueue.content))).card := by
  obtain ⟨gone, hgone, -⟩ := h.gone
  rw [← hgone, @subtrees_add D roots gone, Multiset.card_add]
  exact Nat.le_add_left _ _

theorem Climbing.spread (h : Climbing bound sought visits maxDist data roots starts l ws visited
      (new + (e + ws.m_SPTQueue.content))) (hw : Wired roots starts data.R)
    (hspread : Spread maxDist ws ws' e e' new) :
    Climbing bound sought visits maxDist data roots starts l ws' visited
      (e' + ws'.m_SPTQueue.content) := by
  obtain ⟨gone, hgone, hroom⟩ := hspread.gone
  have hle : e' + ws'.m_SPTQueue.content ≤ new + (e + ws.m_SPTQueue.content) :=
    hgone ▸ Multiset.le_add_left _ _
  obtain ⟨lost, haccounts⟩ := h.accounts
  refine ⟨⟨lost, hspread.accounts haccounts⟩, hspread.queue, fun x hx =>
    h.cell x (Multiset.mem_of_le hle hx),
    hspread.card_le.trans h.bounded, fun henough => ?_⟩
  rw [hspread.length] at henough
  have hcard := ((card_le_subtrees hw h.cell).trans h.bounded).trans henough
  rw [Multiset.card_add, Multiset.card_add, Heap.card_content] at hcard
  rw [hroom (by omega), Multiset.zero_add] at hgone
  rw [hgone]
  exact h.cover henough

theorem Climbing.visit {l' : Ledger D}
    (h : Climbing bound sought visits maxDist data roots starts l ws
      visited cells) (haccounts : ∃ lost,
        Accounts visits maxDist data ws' visited' { l' with lost := lost })
    (hspt : ws'.m_SPTQueue = ws.m_SPTQueue) (hsub : visited ⊆ visited') :
    Climbing bound sought visits maxDist data roots starts l' ws' visited' cells where
  accounts := haccounts
  queue := hspt ▸ h.queue
  cell := h.cell
  bounded := h.bounded
  cover henough k hk := (h.cover (hspt ▸ henough) k hk).imp_left fun hpassed => hsub hpassed

def below (data : Samples D) (roots : Slots BKTNode) (k : Nat) : Multiset (NodeDistPair D) :=
  ((children (inner roots) k).map (cellOf data roots) : List (NodeDistPair D))

omit [LinearOrder D] in
theorem card_subtrees_below (hw : Wired roots starts data.R) (hk : k < roots.size) :
    (subtrees roots (below data roots k + cells)).card + 1 =
      (subtrees roots (cellOf data roots k ::ₘ cells)).card := by
  rw [subtrees_cell hw hk, Multiset.card_cons, subtrees_add, below]

omit [LinearOrder D] in
theorem Climbing.of_le_cell (hw : Wired roots starts data.R) (hk : Linked roots starts k)
    (hcell : ∀ x ∈ cellOf data roots k ::ₘ cells, IsCell data roots starts x) :
    ∀ x ∈ below data roots k + cells, IsCell data roots starts x := by
  intro x hx
  rcases Multiset.mem_add.mp hx with hx | hx
  · obtain ⟨c, hc, rfl⟩ := List.mem_map.mp (Multiset.mem_coe.mp hx)
    exact ⟨c, hw.centred k hk c hc, rfl⟩
  · exact hcell x (Multiset.mem_cons_of_mem hx)

theorem Climbing.meet (h : Climbing bound sought visits maxDist data roots starts l ws visited
      (cellOf data roots k ::ₘ cells)) (hw : Wired roots starts data.R) (hR : data.R ≤ visits.bound)
    (hk : Centred roots starts data.R k) {leaves : Int} (hleaves : leaves ≤ 1) :
    Yields visits.Total (ws.meet visits (roots.cell k).centerid
      (cellOf data roots k).distance leaves)
      fun ws' => Climbing bound sought visits maxDist data roots starts l ws'
          (insert (roots.cell k).centerid.toNat visited) (below data roots k + cells) ∧
        Climbed ws ws' ∧ ws'.m_SPTQueue = ws.m_SPTQueue := by
  obtain ⟨lost, haccounts⟩ := h.accounts
  obtain ⟨id, hid⟩ := Int.eq_ofNat_of_zero_le hk.nonneg
  have hrow : id < data.R := by
    have := hk.row
    omega
  have hmeet := haccounts.meet hR hrow hleaves
  rw [cellOf, hid, Int.toNat_natCast]
  refine hmeet.mono fun ws' h' => ?_
  obtain ⟨⟨lost', haccounts'⟩, hmet, hchecked⟩ := h'
  refine ⟨⟨⟨lost', haccounts'⟩, hmet.m_SPTQueue ▸ h.queue, Climbing.of_le_cell hw hk.linked h.cell,
    ?_, fun henough k' hk' => ?_⟩, ⟨hmet.m_Results, hmet.m_iMaxCheck, hmet.length,
      congrArg _ hmet.m_SPTQueue, hmet.count, ?_⟩, hmet.m_SPTQueue⟩
  · refine le_trans ?_ h.bounded
    rw [← card_subtrees_below hw hk.lt]
    exact Nat.le_succ _
  · rcases h.cover (hmet.m_SPTQueue ▸ henough) k' hk' with hpassed | hmem
    · exact .inl (Finset.mem_insert_of_mem hpassed)
    · rw [subtrees_cell hw hk.lt, Multiset.mem_cons, ← below, ← subtrees_add] at hmem
      rcases hmem with rfl | hmem
      · refine .inl ?_
        rw [Passed, hid]
        exact Finset.mem_insert_self _ _
      · exact .inr hmem
  · rcases hchecked with ⟨-, hsame⟩ | ⟨-, hpos, -⟩
    · exact .inl hsame
    · exact .inr hpos

def Explored (bound : Nat) (sought : Nat → Prop) (visits : VisitedSet V) (maxDist : D)
    (data : Samples D)
    (roots : Slots BKTNode) (starts : List Nat) (l : Ledger D) (ws : WorkSpace V D)
    (visited : Finset Nat)
    (ws' : WorkSpace V D) : Prop :=
  ∃ visited', visited ⊆ visited' ∧
    Climbing bound sought visits maxDist data roots starts l ws' visited' ws'.m_SPTQueue.content ∧
      Climbed ws ws'

theorem Explored.after (h : Explored bound sought visits maxDist data roots starts l ws'
    visited' ws'')
    (hsub : visited ⊆ visited') (hclimbed : Climbed ws ws') :
    Explored bound sought visits maxDist data roots starts l ws visited ws'' := by
  obtain ⟨visited'', hsub', hclimbing, hclimbed'⟩ := h
  exact ⟨visited'', hsub.trans hsub', hclimbing, hclimbed.trans hclimbed'⟩

theorem Climbing.pop (h : Climbing bound sought visits maxDist data roots starts l ws visited
      ws.m_SPTQueue.content) {queue : Heap (NodeDistPair D)}
    (hqueue : queue.OrderedBy NodeDistPair.distance (blank maxDist))
    (hlength : queue.length = ws.m_SPTQueue.length)
    (hcontent : ws.m_SPTQueue.content = x ::ₘ queue.content) :
    Climbing bound sought visits maxDist data roots starts l { ws with m_SPTQueue := queue } visited
      (x ::ₘ queue.content) := by
  obtain ⟨lost, haccounts⟩ := h.accounts
  rw [← hcontent]
  exact ⟨⟨lost, { haccounts with }⟩, hqueue, h.cell, h.bounded, fun henough =>
    h.cover (hlength ▸ henough)⟩

theorem insertChildren_spread (hw : Wired roots starts data.R) (hk : Linked roots starts k)
    (h : ws.m_SPTQueue.OrderedBy NodeDistPair.distance (blank maxDist))
    (e : Multiset (NodeDistPair D)) :
    ∃ ws', (children (inner roots) k).foldlM (insertChild data roots) ws = some ws' ∧
      Spread maxDist ws ws' e e (below data roots k) := by
  have hstep : ∀ (ws : WorkSpace V D) k,
    ws.m_SPTQueue.OrderedBy NodeDistPair.distance (blank maxDist) →
      Centred roots starts data.R k → ∃ ws', insertChild data roots ws k = some ws' ∧
        ws'.m_SPTQueue.OrderedBy NodeDistPair.distance (blank maxDist) ∧
        Spread maxDist ws ws' e e {cellOf data roots k} := by
    intro ws k hqueue hk
    obtain ⟨ws', hws', hspread⟩ := insertChild_spread hqueue hk e
    exact ⟨ws', hws', hspread.queue, hspread⟩
  obtain ⟨ws', hws', -, hspread⟩ := foldlM_spread id (fun _ => e) _ hstep (hw.centred k hk) h h
  exact ⟨ws', hws', hspread⟩

theorem searchCell_spec (h : Climbing bound sought visits maxDist data roots starts l ws visited
      (x ::ₘ ws.m_SPTQueue.content)) (hw : Wired roots starts data.R) (hR : data.R ≤ visits.bound)
    (p_limits : Int) :
    Yields visits.Total (searchCell visits data roots p_limits ws x) fun r =>
      Explored bound sought visits maxDist data roots starts l ws visited r.2 ∧
        (subtrees roots r.2.m_SPTQueue.content).card <
          (subtrees roots (x ::ₘ ws.m_SPTQueue.content)).card ∧
        (r.1 = true → p_limits ≤ r.2.m_iNumberOfCheckedLeaves) := by
  obtain ⟨k, hk, rfl⟩ := h.cell x (Multiset.mem_cons_self _ _)
  have hcard : (subtrees roots (below data roots k + ws.m_SPTQueue.content)).card + 1 =
      (subtrees roots (cellOf data roots k ::ₘ ws.m_SPTQueue.content)).card :=
    card_subtrees_below hw hk.lt
  refine .bind_of_eq (nodeAt_eq hk.lt) (.of_ite (fun hleaf => ?_) fun hinner => ?_)
  · have hnone : below data roots k = 0 := by
      rw [below, children_leaf hleaf]
      rfl
    rw [hnone, Multiset.zero_add] at hcard
    refine (h.meet hw hR hk le_rfl).bind fun ws' h' => .pure ⟨?_, ?_, fun hstop => ?_⟩
    · obtain ⟨hclimbing, hclimbed, hspt⟩ := h'
      rw [hnone, Multiset.zero_add, ← hspt] at hclimbing
      exact ⟨_, Finset.subset_insert _ _, hclimbing, hclimbed⟩
    · dsimp only
      rw [h'.2.2, ← hcard]
      exact Nat.lt_succ_self _
    · exact of_decide_eq_true hstop
  · refine (h.meet hw hR hk zero_le_one).bind fun ws' h' => ?_
    obtain ⟨hclimbing, hclimbed, hspt⟩ := h'
    rw [childRange_eq hinner]
    obtain ⟨ws'', hws'', hspread⟩ := insertChildren_spread hw hk.linked hclimbing.queue 0
    have hle : (subtrees roots (0 + ws''.m_SPTQueue.content)).card ≤
        (subtrees roots (below data roots k + (0 + ws'.m_SPTQueue.content))).card := hspread.card_le
    rw [← hspt, ← Multiset.zero_add ws'.m_SPTQueue.content] at hclimbing
    have hclimbing' := hclimbing.spread hw hspread
    rw [Multiset.zero_add] at hclimbing' hle
    rw [Multiset.zero_add, hspt] at hle
    refine .bind_of_eq hws'' (.pure ⟨⟨_, Finset.subset_insert _ _, hclimbing', ?_⟩, ?_, nofun⟩)
    · exact hclimbed.trans hspread.climbed
    · dsimp only
      omega

theorem searchTrees_spec (h : Climbing bound sought visits maxDist data roots starts l ws visited
      ws.m_SPTQueue.content) (hw : Wired roots starts data.R) (hR : data.R ≤ visits.bound)
    (p_limits : Int) (rounds : Nat) :
    Yields (visits.Total ∧ (subtrees roots ws.m_SPTQueue.content).card < rounds)
      (searchTrees visits data roots p_limits rounds ws) fun ws' =>
        Explored bound sought visits maxDist data roots starts l ws visited ws' ∧
        (ws'.m_SPTQueue.count = 0 ∨ p_limits ≤ ws'.m_iNumberOfCheckedLeaves) := by
  induction rounds generalizing ws visited with
  | zero => exact ⟨nofun, fun hsure => absurd hsure.2 (Nat.not_lt_zero _)⟩
  | succ rounds ih =>
    refine .of_ite (fun hzero => ?_) fun hpos => ?_
    · exact .pure ⟨⟨visited, le_rfl, h, .refl ws⟩, .inl hzero⟩
    · obtain ⟨x, queue, hpop, hordered, hlength, -, hcontent⟩ :=
        h.queue.pop (Nat.pos_of_ne_zero hpos)
      have hcell := searchCell_spec (h.pop hordered hlength hcontent) hw hR p_limits
      have hpopped : Climbed ws { ws with m_SPTQueue := queue } :=
        ⟨rfl, rfl, rfl, hlength, le_rfl, .inl rfl⟩
      refine .bind_of_eq hpop ((hcell.weaken And.left).bind fun r hr => ?_)
      obtain ⟨stop, ws'⟩ := r
      obtain ⟨⟨visited', hsub, hclimbing, hclimbed⟩, hcard, hstop⟩ := hr
      dsimp only at hcard hclimbing hclimbed hstop ⊢
      rw [← hcontent] at hcard
      refine .of_ite (fun htrue => .pure ⟨⟨visited', hsub, hclimbing, hpopped.trans hclimbed⟩,
        .inr (hstop htrue)⟩) fun _ => ?_
      refine ((ih hclimbing).weaken fun hsure => ⟨hsure.1, by omega⟩).mono fun ws'' h' => ?_
      exact ⟨h'.1.after hsub (hpopped.trans hclimbed), h'.2⟩

def seeds (roots : Slots BKTNode) (start : Nat) : List Nat :=
  if (roots.cell start).childStart < 0 then [start] else children (inner roots) start

structure IsStart (roots : Slots BKTNode) (starts : List Nat) (R start : Nat) : Prop where
  linked : Linked roots starts start
  lt : start < roots.size
  centred : (roots.cell start).childStart < 0 → Centred roots starts R start

omit [LinearOrder D] in
theorem centred_seeds (hw : Wired roots starts data.R) {start : Nat}
    (hstart : IsStart roots starts data.R start) :
    ∀ k ∈ seeds roots start, Centred roots starts data.R k := by
  intro k hk
  unfold seeds at hk
  split at hk
  · rename_i hleaf
    exact List.mem_singleton.mp hk ▸ hstart.centred hleaf
  · exact hw.centred start hstart.linked k hk

def ExploredBut (bound : Nat) (sought : Nat → Prop) (visits : VisitedSet V) (maxDist : D)
    (data : Samples D) (roots : Slots BKTNode) (starts : List Nat) (l : Ledger D)
    (ws : WorkSpace V D) (visited : Finset Nat)
    (e : Multiset (NodeDistPair D)) (ws' : WorkSpace V D) : Prop :=
  ∃ visited', visited ⊆ visited' ∧
    Climbing bound sought visits maxDist data roots starts l ws' visited'
      (e + ws'.m_SPTQueue.content) ∧
    Climbed ws ws'

structure IsLevel (queue : Heap (NodeDistPair D)) : Prop where
  ordered : ∃ first, queue.OrderedBy NodeDistPair.distance first
  length : queue.length = 100

theorem placeNode_spread (bfs : Bfs D) {s : Heap (NodeDistPair D) × WorkSpace V D}
    (hs : IsLevel s.1)
    (h : s.2.m_SPTQueue.OrderedBy NodeDistPair.distance (blank maxDist))
    (hk : Centred roots starts data.R k)
    (e : Multiset (NodeDistPair D)) :
    ∃ s', placeNode data roots bfs s k = some s' ∧ IsLevel s'.1 ∧
      Spread maxDist s.2 s'.2 (e + s.1.content) (e + s'.1.content) {cellOf data roots k} := by
  obtain ⟨⟨first, hordered⟩, hlength⟩ := hs
  obtain ⟨top, htop⟩ : ∃ top, s.1.top = some top := ⟨_, hordered.top⟩
  simp only [placeNode, centerDistance_eq hk, htop, Option.bind_eq_bind, Option.bind_some]
  split
  · rename_i hnear
    obtain ⟨queue, gone, hqueue, hordered', hlength', hcontent, hgone, -, -⟩ :=
      hordered.insert_content (cellOf data roots k)
    rw [hgone (hlength ▸ hnear.2), Multiset.zero_add] at hcontent
    refine ⟨_, congrArg (Option.bind · _) hqueue, ⟨⟨first, hordered'⟩, hlength'.trans hlength⟩,
      rfl, h, rfl, Nat.le_add_right _ _, 0, ?_, fun _ => rfl⟩
    dsimp only
    rw [hcontent, Multiset.zero_add, Multiset.singleton_add, Multiset.add_cons, Multiset.cons_add]
  · obtain ⟨ws', hws', hspread⟩ := insertSPT_spread h (cellOf data roots k) (e + s.1.content)
    exact ⟨(s.1, ws'), congrArg (Option.bind · _) hws', ⟨⟨first, hordered⟩, hlength⟩, hspread⟩

theorem placeNodes_spread (bfs : Bfs D) {s : Heap (NodeDistPair D) × WorkSpace V D}
    (hs : IsLevel s.1)
    (h : s.2.m_SPTQueue.OrderedBy NodeDistPair.distance (blank maxDist))
    (hw : Wired roots starts data.R)
    (hk : Linked roots starts k) (e : Multiset (NodeDistPair D)) :
    ∃ s', (children (inner roots) k).foldlM (placeNode data roots bfs) s = some s' ∧ IsLevel s'.1 ∧
      Spread maxDist s.2 s'.2 (e + s.1.content) (e + s'.1.content) (below data roots k) := by
  have hstep : ∀ (s : Heap (NodeDistPair D) × WorkSpace V D) k,
      IsLevel s.1 ∧ s.2.m_SPTQueue.OrderedBy NodeDistPair.distance (blank maxDist) →
      Centred roots starts data.R k → ∃ s', placeNode data roots bfs s k = some s' ∧
        (IsLevel s'.1 ∧ s'.2.m_SPTQueue.OrderedBy NodeDistPair.distance (blank maxDist)) ∧
        Spread maxDist s.2 s'.2 (e + s.1.content) (e + s'.1.content) {cellOf data roots k} := by
    intro s k hs hk
    obtain ⟨s', hs', hlevel, hspread⟩ := placeNode_spread bfs hs.1 hs.2 hk e
    exact ⟨s', hs', ⟨hlevel, hspread.queue⟩, hspread⟩
  obtain ⟨s', hs', hgood, hspread⟩ := foldlM_spread Prod.snd (fun s => e + s.1.content) _ hstep
    (hw.centred k hk) ⟨hs, h⟩ h
  exact ⟨s', hs', hgood.1, hspread⟩

theorem popEach_spec {S : Type} {f : S → NodeDistPair D → Option S} {sure : Prop}
    (Inv : Multiset (NodeDistPair D) → S → Prop)
    (hstep : ∀ x c s, Inv (x ::ₘ c) s → Yields sure (f s x) (Inv c))
    {count : Nat} {queue : Heap (NodeDistPair D)} {s : S} (hqueue : IsLevel queue)
    (hcount : queue.count = count) (hs : Inv queue.content s) :
    Yields sure (popEach f count queue s) fun r => IsLevel r.1 ∧ r.1.count = 0 ∧ Inv 0 r.2 := by
  induction count generalizing queue s with
  | zero =>
    refine .pure ⟨hqueue, hcount, ?_⟩
    rwa [Multiset.card_eq_zero.mp (queue.card_content.trans hcount)] at hs
  | succ count ih =>
    obtain ⟨⟨first, hordered⟩, hlength⟩ := hqueue
    obtain ⟨x, queue', hpop, hordered', hlength', -, hcontent⟩ :=
      hordered.pop (hcount ▸ Nat.succ_pos _)
    rw [hcontent] at hs
    refine .bind_of_eq hpop ((hstep x _ s hs).bind fun s' hs' => ?_)
    have hcard := congrArg Multiset.card hcontent
    rw [Multiset.card_cons, Heap.card_content, Heap.card_content, hcount] at hcard
    exact ih ⟨⟨first, hordered'⟩, hlength'.trans hlength⟩ (Nat.succ.inj hcard).symm hs'

theorem setTop_spec {queue : Heap (NodeDistPair D)} (hqueue : IsLevel queue)
    (hzero : queue.count = 0)
    (distance : D) : ∃ queue', setTop queue distance = some queue' ∧ IsLevel queue' ∧
      queue'.count = 0 := by
  obtain ⟨⟨first, hordered⟩, hlength⟩ := hqueue
  have hsize : 0 < queue.heap.size := hordered.size ▸ Nat.succ_pos _
  simp only [setTop, hordered.top, Option.bind_eq_bind, Option.bind_some, if_pos hzero,
    set_of_lt hsize]
  refine ⟨_, rfl, ⟨⟨⟨first.node, distance⟩, ⟨?_, ?_⟩⟩, hlength⟩, hzero⟩
  · exact ⟨hordered.ordered.size, hordered.ordered.capacity, hordered.ordered.lastlevel,
      hordered.ordered.count, fun p c _ hc => absurd hc (by simp [hzero])⟩
  · exact Function.update_self 0 _ queue.heap.cell

theorem isLevel_resize (first : NodeDistPair D) : IsLevel (Heap.resize (fun _ => first) 100) where
  ordered := ⟨first, Heap.resize_ordered (fun _ => first.distance) (by decide), rfl⟩
  length := rfl

theorem expandNode_spec {bfs : Bfs D} {s : Heap (NodeDistPair D) × WorkSpace V D} (hs : IsLevel s.1)
    (h : Climbing bound sought visits maxDist data roots starts l s.2 visited
      (x ::ₘ (e + s.1.content + s.2.m_SPTQueue.content))) (hw : Wired roots starts data.R)
    (hR : data.R ≤ visits.bound) :
    Yields visits.Total (expandNode visits data roots bfs s x) fun s' => IsLevel s'.1 ∧
      ExploredBut bound sought visits maxDist data roots starts l s.2 visited
        (e + s'.1.content) s'.2 := by
  obtain ⟨k, hk, rfl⟩ := h.cell x (Multiset.mem_cons_self _ _)
  refine .bind_of_eq (nodeAt_eq hk.lt) (.of_ite (fun _ => .of_exists ?_) fun hinner => ?_)
  · obtain ⟨ws', hws', hspread⟩ := insertSPT_spread h.queue (cellOf data roots k) (e + s.1.content)
    rw [← Multiset.singleton_add] at h
    exact ⟨(s.1, ws'), congrArg (Option.bind · _) hws', hs, visited, le_rfl, h.spread hw hspread,
      hspread.climbed⟩
  · refine (h.meet hw hR hk zero_le_one).bind fun ws' h' => .of_exists ?_
    obtain ⟨hclimbing, hclimbed, hspt⟩ := h'
    rw [← hspt] at hclimbing
    rw [childRange_eq hinner]
    obtain ⟨s', hs', hlevel, hspread⟩ :=
      placeNodes_spread bfs (s := (s.1, ws')) hs hclimbing.queue hw
      hk.linked e
    exact ⟨s', hs', hlevel, _, Finset.subset_insert _ _, hclimbing.spread hw hspread,
      hclimbed.trans hspread.climbed⟩

omit [LinearOrder D] in
theorem content_of_count {queue : Heap (NodeDistPair D)} (h : queue.count = 0) :
    queue.content = 0 :=
  Multiset.card_eq_zero.mp (queue.card_content.trans h)

theorem levels_spec {bfs : Bfs D} {level : Nat} {p_curr p_next : Heap (NodeDistPair D)}
    (hcurr : IsLevel p_curr) (hnext : IsLevel p_next) (hzero : p_next.count = 0)
    (h : Climbing bound sought visits maxDist data roots starts l ws visited
      (e + p_curr.content + ws.m_SPTQueue.content)) (hw : Wired roots starts data.R)
    (hR : data.R ≤ visits.bound) :
    Yields visits.Total (levels visits data roots bfs level p_curr p_next ws)
      (ExploredBut bound sought visits maxDist data roots starts l ws visited e) := by
  induction level generalizing p_curr p_next ws visited with
  | zero =>
    refine (popEach_spec (fun c ws' =>
      Climbing bound sought visits maxDist data roots starts l ws' visited
      (e + c + ws'.m_SPTQueue.content) ∧ Climbed ws ws')
        (fun x c ws' hws' => .of_exists ?_) hcurr rfl
      ⟨h, .refl ws⟩).bind fun r hr => .pure ?_
    · obtain ⟨ws'', hws'', hspread⟩ := insertSPT_spread hws'.1.queue x (e + c)
      have hclimbing := hws'.1
      rw [Multiset.add_cons, Multiset.cons_add, ← Multiset.singleton_add] at hclimbing
      exact ⟨ws'', hws'', hclimbing.spread hw hspread, hws'.2.trans hspread.climbed⟩
    · obtain ⟨-, -, hclimbing, hclimbed⟩ := hr
      rw [Multiset.add_zero] at hclimbing
      exact ⟨visited, le_rfl, hclimbing, hclimbed⟩
  | succ level ih =>
    obtain ⟨next, hset, hlevel, hzero'⟩ := setTop_spec hnext hzero bfs.far
    refine .bind_of_eq hset ((popEach_spec (fun c s => IsLevel s.1 ∧
      ExploredBut bound sought visits maxDist data roots starts l ws visited
        (e + c + s.1.content) s.2)
      (fun x c s hs => ?_) hcurr rfl ⟨hlevel, visited, le_rfl, ?_, .refl ws⟩).bind fun r hr => ?_)
    · obtain ⟨hs, visited', hsub, hclimbing, hclimbed⟩ := hs
      rw [Multiset.add_cons, Multiset.cons_add, Multiset.cons_add] at hclimbing
      refine (expandNode_spec hs hclimbing hw hR).mono fun s' h' => ?_
      obtain ⟨hlevel', visited'', hsub', hclimbing', hclimbed'⟩ := h'
      exact ⟨hlevel', visited'', hsub.trans hsub', hclimbing', hclimbed.trans hclimbed'⟩
    · rw [content_of_count hzero', Multiset.add_zero]
      exact h
    · obtain ⟨p_curr', p_next', ws'⟩ := r
      obtain ⟨hcurr', hcount, hnext', visited', hsub, hclimbing, hclimbed⟩ := hr
      rw [Multiset.add_zero] at hclimbing
      refine (ih hnext' hcurr' hcount hclimbing).mono fun ws'' h' => ?_
      obtain ⟨visited'', hsub', hclimbing', hclimbed'⟩ := h'
      exact ⟨visited'', hsub.trans hsub', hclimbing', hclimbed.trans hclimbed'⟩

theorem breadthFirst_spec {bfs : Bfs D}
    (h : Climbing bound sought visits maxDist data roots starts l ws visited
      (below data roots k + (e + ws.m_SPTQueue.content))) (hw : Wired roots starts data.R)
    (hR : data.R ≤ visits.bound) (hk : Linked roots starts k)
    (hinner : ¬ (roots.cell k).childStart < 0) :
    Yields visits.Total (breadthFirst visits maxDist data roots bfs (roots.cell k) ws)
      (ExploredBut bound sought visits maxDist data roots starts l ws visited e) := by
  obtain ⟨curr, hset, hlevel, hzero⟩ := setTop_spec (isLevel_resize (blank maxDist)) rfl bfs.far
  obtain ⟨s, hs, hlevel', hspread⟩ := placeNodes_spread bfs (s := (curr, ws)) hlevel h.queue hw hk e
  rw [breadthFirst, childRange_eq hinner]
  refine .bind_of_eq hset (.bind_of_eq hs ?_)
  rw [content_of_count hzero, Multiset.add_zero] at hspread
  refine (levels_spec hlevel' (isLevel_resize _) rfl (h.spread hw hspread) hw hR).mono
    fun ws' h' => ?_
  obtain ⟨visited', hsub, hclimbing, hclimbed⟩ := h'
  exact ⟨visited', hsub, hclimbing, hspread.climbed.trans hclimbed⟩

theorem initTree_spec {bfs : Bfs D} {start : Nat} (hstart : IsStart roots starts data.R start)
    (h : Climbing bound sought visits maxDist data roots starts l ws visited
      (((seeds roots start).map (cellOf data roots) : List (NodeDistPair D)) +
        (e + ws.m_SPTQueue.content))) (hw : Wired roots starts data.R)
          (hR : data.R ≤ visits.bound) :
    Yields visits.Total (initTree visits maxDist data roots bfs start ws)
      (ExploredBut bound sought visits maxDist data roots starts l ws visited e) := by
  refine .bind_of_eq (get_of_lt hstart.lt) (.of_ite (fun hleaf => ?_) fun hinner => ?_)
  · have hk := hstart.centred hleaf
    rw [seeds, if_pos hleaf] at h
    obtain ⟨ws', hws', hspread⟩ := insertSPT_spread h.queue (cellOf data roots start) e
    refine .bind_of_eq (if_pos ⟨hk.nonneg, hk.row⟩)
      (.of_exists ⟨ws', hws', visited, le_rfl, ?_, ?_⟩)
    · exact h.spread hw hspread
    · exact hspread.climbed
  · rw [seeds, if_neg hinner] at h
    refine .of_ite (fun _ => .of_exists ?_) fun _ => breadthFirst_spec h hw hR hstart.linked hinner
    rw [childRange_eq hinner]
    obtain ⟨ws', hws', hspread⟩ := insertChildren_spread hw hstart.linked h.queue e
    exact ⟨ws', hws', visited, le_rfl, h.spread hw hspread, hspread.climbed⟩

def seedCells (data : Samples D) (roots : Slots BKTNode) (starts : List Nat) :
    Multiset (NodeDistPair D) :=
  ((starts.flatMap (seeds roots)).map (cellOf data roots) : List (NodeDistPair D))

structure Searchable (t : BKTree) (R : Nat) : Prop where
  wired : Wired t.m_pTreeRoots t.m_pTreeStart R
  starts : ∀ start ∈ t.m_pTreeStart, IsStart t.m_pTreeRoots t.m_pTreeStart R start
  number : t.m_pTreeStart.length = t.m_iTreeNumber.toNat
  char : t.m_iTreeNumber ≤ 127

theorem initSearchTrees_spec {bfs : Bfs D} {t : BKTree} (ht : Searchable t data.R)
    (hR : data.R ≤ visits.bound) {before rest : List Nat} (hrest : t.m_pTreeStart = before ++ rest)
    (h : Climbing bound sought visits maxDist data t.m_pTreeRoots t.m_pTreeStart l ws visited
      (seedCells data t.m_pTreeRoots rest + ws.m_SPTQueue.content)) (turns : Nat) :
    Yields (visits.Total ∧ rest.length < turns)
      (initSearchTrees visits maxDist data bfs t turns before.length ws)
      (Explored bound sought visits maxDist data t.m_pTreeRoots t.m_pTreeStart l ws visited) := by
  have hlength := congrArg List.length hrest
  rw [ht.number, List.length_append] at hlength
  have hchar := ht.char
  induction rest generalizing before ws visited turns with
  | nil =>
    cases turns with
    | zero => exact ⟨nofun, fun hsure => absurd hsure.2 (Nat.not_lt_zero _)⟩
    | succ turns =>
      rw [List.length_nil, Nat.add_zero] at hlength
      rw [initSearchTrees, if_neg (by omega)]
      have hnone : seedCells data t.m_pTreeRoots [] = 0 := rfl
      rw [hnone, Multiset.zero_add] at h
      exact .pure ⟨visited, le_rfl, h, .refl ws⟩
  | cons start rest ih =>
    cases turns with
    | zero => exact ⟨nofun, fun hsure => absurd hsure.2 (Nat.not_lt_zero _)⟩
    | succ turns =>
      rw [List.length_cons] at hlength
      have hstart : start ∈ t.m_pTreeStart := by simp [hrest]
      have hat : startAt t.m_pTreeStart before.length = some start := by
        rw [startAt, if_neg (by omega), Int.toNat_natCast, hrest, List.getElem?_append_right le_rfl,
          Nat.sub_self, List.getElem?_cons_zero]
      have hcells : seedCells data t.m_pTreeRoots (start :: rest) =
          ((seeds t.m_pTreeRoots start).map (cellOf data t.m_pTreeRoots) : List (NodeDistPair D)) +
            seedCells data t.m_pTreeRoots rest := by
        rw [seedCells, List.flatMap_cons, List.map_append, ← Multiset.coe_add, seedCells]
      rw [hcells, Multiset.add_assoc] at h
      rw [initSearchTrees, if_pos (by omega)]
      refine .bind_of_eq hat (((initTree_spec (ht.starts start hstart) h ht.wired hR).weaken
        And.left).bind fun ws' h' => ?_)
      obtain ⟨visited', hsub, hclimbing, hclimbed⟩ := h'
      have hbmod : Int.bmod ((before.length : Int) + 1) 256 = (before ++ [start]).length := by
        rw [List.length_append, List.length_singleton, Int.bmod_eq_of_le (by omega) (by omega)]
        rfl
      rw [hbmod]
      have hrest' : t.m_pTreeStart = (before ++ [start]) ++ rest := by simpa using hrest
      refine ((ih hrest' hclimbing turns (by simp; omega)).weaken fun hsure => ⟨hsure.1, ?_⟩).mono
        fun ws'' h'' => ?_
      · exact Nat.lt_of_succ_lt_succ hsure.2
      · exact h''.after hsub hclimbed

end Sptag.COMMON.BKTree
