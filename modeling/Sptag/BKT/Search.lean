import Sptag.Common.BKTree.SearchTrees
import Sptag.Common.QueryResultSet.Best

/-! `Index::Search` of `src/Core/BKT/BKTIndex.cpp`: from what the trees put in the queue the search
follows the graph, nearest first, until the results are better than what is left. -/

namespace Sptag.BKT

open COMMON Lib Slots BKTree WorkSpace

variable {V D : Type} [LinearOrder D]

structure Index (D : Type) where
  m_pSamples : Samples D
  m_pTrees : BKTree
  m_pGraph : Slots (Slots Int)
  m_iNeighborhoodSize : Nat
  m_iNumberOfInitialDynamicPivots : Int
  m_iNumberOfOtherDynamicPivots : Int
  m_bfs : Bfs D
  maxDist : D

/-- The functions a search is instantiated with; `CheckDup` stands in for `isDup` or `NeverDup`
does. -/
structure Dispatch where
  notDeleted : Int → Bool
  checkFilter : Int → Bool
  checkDup : Bool

def Dispatch.accepts (d : Dispatch) (node : Int) : Bool := d.notDeleted node && d.checkFilter node

section Source

variable (visits : VisitedSet V) (index : Index D) (d : Dispatch)

def isDup (q : QueryResultSet D) (node : Int) (score : D) : Bool × QueryResultSet D :=
  (if d.checkDup then !q.accepts node score else true, q.addPoint node score)

def offerCluster (score : D) (childEnd : Int) :
    Nat → Int → Int → QueryResultSet D → Option (QueryResultSet D)
  | 0, _, _, _ => none
  | rounds + 1, i, tmpNode, q =>
    let (dup, q) := if d.accepts tmpNode then isDup d q tmpNode score else (false, q)
    if dup = true ∨ i ≤ 0 then some q
    else do
      let node ← nodeAt index.m_pTrees.m_pTreeRoots i
      if i < childEnd then offerCluster score childEnd rounds (i + 1) node.centerid q else return q

def offerNode (gnode : NodeDistPair D) (checkNode : Int) (q : QueryResultSet D) :
    Option (QueryResultSet D) :=
  if checkNode < -1 then do
    let tnode ← nodeAt index.m_pTrees.m_pTreeRoots (-2 - checkNode)
    let i := -tnode.childStart
    offerCluster index d gnode.distance tnode.childEnd ((tnode.childEnd - i).toNat + 1)
      i gnode.node q
  else return if d.accepts gnode.node then q.addPoint gnode.node gnode.distance else q

def examine (gnode : NodeDistPair D) (node : Slots Int) (q : QueryResultSet D)
    (ws : WorkSpace V D) :
    Option (Bool × QueryResultSet D) :=
  if gnode.distance ≤ q.worstDist then do
    let checkNode ← node.get (index.m_iNeighborhoodSize - 1)
    let q ← offerNode index d gnode checkNode q
    return (false, q)
  else if d.notDeleted gnode.node then do
    let worst ← ws.m_Results.worst
    return (decide (worst < gnode.distance) || decide
      (ws.m_iMaxCheck < ws.m_iNumberOfCheckedLeaves), q)
  else return (false, q)

def visitNeighbor (ws : WorkSpace V D) (nn_index : Int) : Option (WorkSpace V D) := do
  let (seen, ws) ← ws.checkAndSet visits nn_index
  if seen then return ws
  else
    let distance2leaf ← index.m_pSamples.get nn_index
    let ws := { ws with m_iNumberOfCheckedLeaves := ws.m_iNumberOfCheckedLeaves + 1 }
    let (inserted, results) ← ws.m_Results.insert distance2leaf
    let ws := { ws with m_Results := results }
    if inserted then ws.insertNG nn_index distance2leaf else return ws

def visitNeighbors (node : Slots Int) : Nat → Nat → WorkSpace V D → Option (WorkSpace V D)
  | 0, _, ws => some ws
  | left + 1, i, ws => do
    let nn_index ← node.get i
    if nn_index < 0 then return ws
    else
      let ws ← visitNeighbor visits index ws nn_index
      visitNeighbors node left (i + 1) ws

def searchOn (rounds : Nat) (ws : WorkSpace V D) : Option (WorkSpace V D) := do
  let ng ← ws.m_NGQueue.top
  let spt ← ws.m_SPTQueue.top
  if spt.distance < ng.distance then
    searchTrees visits index.m_pSamples index.m_pTrees.m_pTreeRoots
      (index.m_iNumberOfOtherDynamicPivots + ws.m_iNumberOfCheckedLeaves) rounds ws
  else return ws

def rowAt (tmpNode : Int) : Option (Slots Int) :=
  if tmpNode < 0 then none else index.m_pGraph.get tmpNode.toNat

def turn (rounds : Nat) (q : QueryResultSet D) (ws : WorkSpace V D) :
    Option (Bool × QueryResultSet D × WorkSpace V D) := do
  let (gnode, queue) ← ws.m_NGQueue.popBy NodeDistPair.distance
  let ws := { ws with m_NGQueue := queue }
  let node ← rowAt index gnode.node
  let (returns, q) ← examine index d gnode node q ws
  if returns then return (true, q, ws)
  else
    let ws ← visitNeighbors visits index node index.m_iNeighborhoodSize 0 ws
    let ws ← searchOn visits index rounds ws
    return (false, q, ws)

def searchLoop (rounds : Nat) : Nat → QueryResultSet D → WorkSpace V D →
    Option (QueryResultSet D × WorkSpace V D)
  | 0, _, _ => none
  | turns + 1, q, ws =>
    if ws.m_NGQueue.count = 0 then some (q.sortResult, ws)
    else do
      let (returns, q, ws) ← turn visits index d rounds q ws
      if returns then return (q.sortResult, ws) else searchLoop rounds turns q ws

/-- A search begins with the trees; the number bounds the turns of each loop. -/
def descent (rounds : Nat) (ws : WorkSpace V D) : Option (WorkSpace V D) := do
  let ws ← initSearchTrees visits index.maxDist index.m_pSamples index.m_bfs
    index.m_pTrees rounds 0 ws
  searchTrees visits index.m_pSamples index.m_pTrees.m_pTreeRoots
    index.m_iNumberOfInitialDynamicPivots rounds ws

def search (rounds : Nat) (q : QueryResultSet D) (ws : WorkSpace V D) :
    Option (QueryResultSet D × WorkSpace V D) := do
  let ws ← descent visits index rounds ws
  searchLoop visits index d rounds rounds q ws

end Source

def mark (index : Index D) (n : Nat) : Int :=
  (index.m_pGraph.cell n).cell (index.m_iNeighborhoodSize - 1)

def centers (roots : Slots BKTNode) (i stop : Nat) : List Int :=
  (List.range' i (stop - i)).map fun k => (roots.cell k).centerid

def clustered (index : Index D) (n : Nat) : List Int :=
  let roots := index.m_pTrees.m_pTreeRoots
  let tnode := roots.cell (-2 - mark index n).toNat
  if mark index n < -1 ∧ tnode.childStart < 0 then
    centers roots (-tnode.childStart).toNat tnode.childEnd.toNat
  else []

/-- A mark is the index of a node whose children, where they are read, and the node behind them are
there. -/
structure IsMark (index : Index D) (n : Nat) : Prop where
  lt : (-2 - mark index n).toNat < index.m_pTrees.m_pTreeRoots.size
  children : (index.m_pTrees.m_pTreeRoots.cell (-2 - mark index n).toNat).childStart < 0 →
    (-(index.m_pTrees.m_pTreeRoots.cell (-2 - mark index n).toNat).childStart).toNat <
        index.m_pTrees.m_pTreeRoots.size ∧
      (index.m_pTrees.m_pTreeRoots.cell (-2 - mark index n).toNat).childEnd.toNat <
        index.m_pTrees.m_pTreeRoots.size

/-- What comes of the samples of a cluster: those that are accepted, or only the first of them. -/
def offers (d : Dispatch) (ids : List Int) (score : D) : Multiset (BasicResult D) :=
  ((if d.checkDup then ids.filter d.accepts else (ids.filter d.accepts).take 1).map (⟨·, score⟩) :
    List (BasicResult D))

def candidates (index : Index D) (d : Dispatch) (x : NodeDistPair D) : Multiset (BasicResult D) :=
  offers d (x.node :: clustered index x.node.toNat) x.distance

variable {index : Index D} {d : Dispatch} {K : Nat} {M : Multiset (BasicResult D)}
  {q : QueryResultSet D} {id i : Int} {ids : List Int} {score : D}

omit [LinearOrder D] in
theorem offers_of_not (h : d.accepts id = false) : offers d (id :: ids) score =
    offers d ids score := by
  rw [offers, List.filter_cons_of_neg (by simp [h]), offers]

omit [LinearOrder D] in
theorem offers_dup (hdup : d.checkDup = true) (h : d.accepts id = true) :
    offers d (id :: ids) score = ⟨id, score⟩ ::ₘ offers d ids score := by
  rw [offers, offers, if_pos hdup, if_pos hdup, List.filter_cons_of_pos h, List.map_cons,
    Multiset.cons_coe]

omit [LinearOrder D] in
theorem offers_never (hdup : d.checkDup = false) (h : d.accepts id = true) :
    offers d (id :: ids) score = {⟨id, score⟩} := by
  rw [offers, if_neg (by simp [hdup]), List.filter_cons_of_pos h]
  rfl

omit [LinearOrder D] in
theorem dist_of_mem_offers {r : BasicResult D} (h : r ∈ offers d ids score) :
    r.dist = score ∧ r.vid ∈ ids ∧ d.accepts r.vid = true := by
  obtain ⟨id, hid, rfl⟩ := List.mem_map.mp (Multiset.mem_coe.mp h)
  have hmem : id ∈ ids.filter d.accepts := by
    split at hid
    · exact hid
    · exact List.mem_of_mem_take hid
  exact ⟨rfl, List.mem_filter.mp hmem⟩

theorem centers_eq_cons {roots : Slots BKTNode} {k stop : Nat} (h : k < stop) :
    centers roots k stop = (roots.cell k).centerid :: centers roots (k + 1) stop := by
  rw [centers, range'_sub_cons h, List.map_cons, centers]

theorem centers_of_le {roots : Slots BKTNode} {k stop : Nat} (h : stop ≤ k) :
    centers roots k stop = [] := by
  rw [centers, Nat.sub_eq_zero_of_le h]
  rfl

theorem offerCluster_spec {childEnd : Int} (hpos : 0 < i)
    (hi : i.toNat < index.m_pTrees.m_pTreeRoots.size)
    (hend : childEnd.toNat < index.m_pTrees.m_pTreeRoots.size) (hbest : q.Best K M)
    (hsorted : (id :: centers index.m_pTrees.m_pTreeRoots i.toNat childEnd.toNat).Pairwise (· < ·))
    {rounds : Nat} (hrounds : (childEnd - i).toNat < rounds) :
    ∃ q', offerCluster index d score childEnd rounds i id q = some q' ∧ q'.Best K
      (offers d (id :: centers index.m_pTrees.m_pTreeRoots i.toNat childEnd.toNat) score + M) := by
  induction rounds generalizing i id q M with
  | zero => exact absurd hrounds (Nat.not_lt_zero _)
  | succ rounds ih =>
    -- the rest of the cluster, from what the first leaves
    have hrest : ∀ {q : QueryResultSet D} {M : Multiset (BasicResult D)}, q.Best K M → ∃ q', (do
        let node ← nodeAt index.m_pTrees.m_pTreeRoots i
        if i < childEnd then offerCluster index d score childEnd rounds (i + 1) node.centerid q
        else return q) = some q' ∧ q'.Best K
          (offers d (centers index.m_pTrees.m_pTreeRoots i.toNat childEnd.toNat) score + M) := by
      intro q M hbest
      obtain ⟨k, rfl⟩ := Int.eq_ofNat_of_zero_le hpos.le
      rw [Int.toNat_natCast] at hi hsorted ⊢
      rw [nodeAt_eq hi, Option.bind_eq_bind, Option.bind_some]
      by_cases hmore : (k : Int) < childEnd
      · have hlt : k < childEnd.toNat := by omega
        rw [centers_eq_cons hlt] at hsorted ⊢
        rw [if_pos hmore]
        exact ih (i := (k + 1 : Nat)) (by omega) (by omega) hbest (List.pairwise_cons.mp hsorted).2
          (by omega)
      · rw [if_neg hmore, centers_of_le (by omega)]
        refine ⟨q, rfl, ?_⟩
        simpa [offers] using hbest
    unfold offerCluster
    by_cases haccepts : d.accepts id = true
    · have hadded : (q.addPoint id score).Best K (⟨id, score⟩ ::ₘ M) := hbest.addPoint ⟨id, score⟩
      simp only [haccepts, if_true, isDup]
      cases hdup : d.checkDup with
      | false =>
        refine ⟨_, if_pos (.inl rfl), ?_⟩
        rw [offers_never hdup haccepts, Multiset.singleton_add]
        exact hadded
      | true =>
        rw [offers_dup hdup haccepts]
        cases hnew : q.accepts id score with
        | false =>
          refine ⟨_, if_pos (.inl rfl), ?_⟩
          rw [QueryResultSet.addPoint_of_not_accepts hnew]
          have hroot : q.results 0 ≤ ⟨id, score⟩ := QueryResultSet.le_of_accepts hnew
          refine hbest.skip_all fun r hr => ?_
          rcases Multiset.mem_cons.mp hr with rfl | hr
          · exact hroot
          · obtain ⟨hdist, hmem, -⟩ := dist_of_mem_offers hr
            have hlt := (List.pairwise_cons.mp hsorted).1 r.vid hmem
            exact hroot.trans (BasicResult.lt_iff.mpr (.inr ⟨hdist.symm, hlt⟩)).le
        | true =>
          simp only [Bool.not_true, Bool.false_eq_true, if_true, false_or, if_neg (not_le.mpr hpos)]
          rw [Multiset.cons_add, ← Multiset.add_cons]
          exact hrest hadded
    · have hnot : d.accepts id = false := Bool.eq_false_iff.mpr haccepts
      simp only [hnot, Bool.false_eq_true, if_false, false_or, if_neg (not_le.mpr hpos)]
      rw [offers_of_not hnot]
      exact hrest hbest

/-- What a search relies on: rows of samples, marks that can be followed, and distances below the
greatest. -/
structure Sound (index : Index D) (bound : Nat) : Prop where
  searchable : Searchable index.m_pTrees index.m_pSamples.R
  bound : index.m_pSamples.R ≤ bound
  rows : index.m_pGraph.size = index.m_pSamples.R
  size : 0 < index.m_iNeighborhoodSize
  row : ∀ n < index.m_pSamples.R, (index.m_pGraph.cell n).size = index.m_iNeighborhoodSize
  entries : ∀ n < index.m_pSamples.R, ∀ i < index.m_iNeighborhoodSize,
    (index.m_pGraph.cell n).cell i < index.m_pSamples.R
  marks : ∀ n < index.m_pSamples.R, mark index n < -1 → IsMark index n
  sorted : ∀ n < index.m_pSamples.R, ((n : Int) :: clustered index n).Pairwise (· < ·)
  near : ∀ n < index.m_pSamples.R, index.m_pSamples.distance n < index.maxDist

variable {bound n : Nat} {x : NodeDistPair D} {ws : WorkSpace V D}

theorem offer_one (hbest : q.Best K M) (id : Int) (score : D) :
    (if d.accepts id then q.addPoint id score else q).Best K (offers d [id] score + M) := by
  split
  · rename_i haccepts
    have hone : offers d [id] score = {⟨id, score⟩} := by
      rw [offers, List.filter_cons_of_pos haccepts, List.filter_nil]
      split
      · rfl
      · rfl
    rw [hone, Multiset.singleton_add]
    exact hbest.addPoint ⟨id, score⟩
  · rename_i hnot
    have hnone : offers d [id] score = 0 := by
      rw [offers_of_not (Bool.eq_false_iff.mpr hnot), offers]
      simp
    rwa [hnone, Multiset.zero_add]

theorem offerNode_spec (hs : Sound index bound) (hn : n < index.m_pSamples.R) (hx : x.node = n)
    (hbest : q.Best K M) : ∃ q', offerNode index d x (mark index n) q = some q' ∧
      q'.Best K (candidates index d x + M) := by
  have hsorted := hs.sorted n hn
  rw [candidates, hx, Int.toNat_natCast]
  unfold offerNode
  by_cases hmark : mark index n < -1
  · have hlt := (hs.marks n hn hmark).lt
    have hchildren := (hs.marks n hn hmark).children
    obtain ⟨k, hk⟩ := Int.eq_ofNat_of_zero_le (show 0 ≤ -2 - mark index n by omega)
    unfold clustered at hsorted ⊢
    rw [hk, Int.toNat_natCast] at hlt hchildren hsorted ⊢
    rw [if_pos hmark, nodeAt_eq hlt, Option.bind_eq_bind, Option.bind_some, hx]
    dsimp only
    by_cases hinner : (index.m_pTrees.m_pTreeRoots.cell k).childStart < 0
    · rw [if_pos ⟨hmark, hinner⟩] at hsorted ⊢
      exact offerCluster_spec (by omega) (hchildren hinner).1 (hchildren hinner).2 hbest hsorted
        (Nat.lt_succ_self _)
    · rw [if_neg fun h => hinner h.2]
      refine ⟨_, ?_, offer_one hbest n x.distance⟩
      unfold offerCluster
      have hstop : -(index.m_pTrees.m_pTreeRoots.cell k).childStart ≤ 0 := by omega
      simp only [hstop, or_true, if_true]
      split
      · rfl
      · rfl
  · have hnone : clustered index n = [] := if_neg fun h => hmark h.1
    rw [if_neg hmark, hnone, hx]
    exact ⟨_, rfl, offer_one hbest n x.distance⟩

theorem examine_spec (hs : Sound index bound) (hn : n < index.m_pSamples.R) (hx : x.node = n)
    (hbest : q.Best K M) {worst : D} (hworst : ws.m_Results.worst = some worst) :
    ∃ r, examine index d x (index.m_pGraph.cell n) q ws = some r ∧
      r.2.Best K (candidates index d x + M) ∧ (r.1 = true → r.2 = q ∧ q.worstDist < x.distance ∧
        (worst < x.distance ∨ ws.m_iMaxCheck < ws.m_iNumberOfCheckedLeaves)) := by
  have hfar : q.worstDist < x.distance → q.Best K (candidates index d x + M) := fun hlt =>
    hbest.skip_all fun r hr => by
      obtain ⟨hdist, -, -⟩ := dist_of_mem_offers hr
      exact QueryResultSet.le_of_worstDist (hdist ▸ hlt)
  unfold examine
  by_cases hnear : x.distance ≤ q.worstDist
  · obtain ⟨q', hq', hbest'⟩ := offerNode_spec (d := d) hs hn hx hbest
    have hget : (index.m_pGraph.cell n).get (index.m_iNeighborhoodSize - 1) =
      some (mark index n) := by
      refine get_of_lt ?_
      rw [hs.row n hn]
      exact Nat.sub_one_lt hs.size.ne'
    rw [if_pos hnear, hget, Option.bind_eq_bind, Option.bind_some, hq']
    exact ⟨_, rfl, hbest', nofun⟩
  · have hlt := not_le.mp hnear
    rw [if_neg hnear]
    split
    · rw [hworst]
      refine ⟨_, rfl, hfar hlt, fun hreturns => ⟨rfl, hlt, ?_⟩⟩
      simpa using hreturns
    · exact ⟨_, rfl, hfar hlt, nofun⟩

end Sptag.BKT
