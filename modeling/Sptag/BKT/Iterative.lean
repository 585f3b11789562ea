import Sptag.BKT.SearchIndex

/-! `Index::SearchIterative` of `src/Core/BKT/BKTIndex.cpp` and `ResultIterator`: the samples are
taken from the queue in batches, and a batch goes on where the last one ended. -/

namespace Sptag.BKT

open COMMON Lib Slots BKTree WorkSpace

variable {V D : Type} [LinearOrder D]

structure ResultIterator (V D : Type) where
  m_workspace : WorkSpace V D
  m_queryResult : Option (QueryResultSet D)
  m_isFirstResult : Bool

section Source

variable (visits : VisitedSet V) (index : Index D) (d : Dispatch)

def take (gnode : NodeDistPair D) (count : Nat) (q : QueryResultSet D) (ws : WorkSpace V D) :
    Option (Nat × QueryResultSet D × WorkSpace V D) :=
  if d.notDeleted gnode.node then do
    let (count, q) := if d.checkFilter gnode.node then
      (count + 1, q.addPoint gnode.node gnode.distance) else (count, q)
    let worst ← ws.m_Results.worst
    let far := decide (worst < gnode.distance) || decide
      (ws.m_iMaxCheck < ws.m_iNumberOfCheckedLeaves)
    return (count, q, { ws with m_relaxedMono := far || ws.m_relaxedMono })
  else return (count, q, ws)

def meetTwin (score : D) (ws : WorkSpace V D) (tmpNode : Int) : Option (WorkSpace V D) :=
  if d.notDeleted tmpNode then ws.meet visits tmpNode score 0 else some ws

def visitCluster (score : D) (childEnd : Int) : Nat → Int → WorkSpace V D → Option (WorkSpace V D)
  | 0, _, _ => none
  | rounds + 1, i, ws =>
    if i < childEnd then do
      let node ← nodeAt index.m_pTrees.m_pTreeRoots i
      let ws ← meetTwin visits d score ws node.centerid
      visitCluster score childEnd rounds (i + 1) ws
    else some ws

def visitMark (gnode : NodeDistPair D) (checkNode : Int) (ws : WorkSpace V D) :
    Option (WorkSpace V D) :=
  if checkNode < -1 then do
    let tnode ← nodeAt index.m_pTrees.m_pTreeRoots (-2 - checkNode)
    let i := -tnode.childStart
    visitCluster visits index d gnode.distance tnode.childEnd ((tnode.childEnd - i).toNat + 1) i ws
  else some ws

def roamNeighbor (ws : WorkSpace V D) (nn_index : Int) : Option (WorkSpace V D) := do
  let (seen, ws) ← ws.checkAndSet visits nn_index
  if seen then return ws
  else
    let distance2leaf ← index.m_pSamples.get nn_index
    let ws ← insertNG
      { ws with m_iNumberOfCheckedLeaves := ws.m_iNumberOfCheckedLeaves + 1 } nn_index
      distance2leaf
    let (_, results) ← ws.m_Results.insert distance2leaf
    return { ws with m_Results := results }

def roamNeighbors (node : Slots Int) : Nat → Nat → WorkSpace V D → Option (WorkSpace V D)
  | 0, _, ws => some ws
  | left + 1, i, ws => do
    let nn_index ← node.get i
    if nn_index < 0 then return ws
    else
      let ws ← roamNeighbor visits index ws nn_index
      roamNeighbors node left (i + 1) ws

def iterTurn (rounds count : Nat) (q : QueryResultSet D) (ws : WorkSpace V D) :
    Option (Nat × QueryResultSet D × WorkSpace V D) := do
  let (gnode, queue) ← ws.m_NGQueue.popBy NodeDistPair.distance
  let ws := { ws with m_NGQueue := queue }
  let node ← rowAt index gnode.node
  let (count, q, ws) ← take d gnode count q ws
  let checkNode ← node.get (index.m_iNeighborhoodSize - 1)
  let ws ← visitMark visits index d gnode checkNode ws
  let ws ← roamNeighbors visits index node index.m_iNeighborhoodSize 0 ws
  let ws ← searchOn visits index rounds ws
  return (count, q, ws)

def batchLoop (rounds batch : Nat) : Nat → Nat → QueryResultSet D → WorkSpace V D →
    Option (Nat × QueryResultSet D × WorkSpace V D)
  | 0, _, _, _ => none
  | turns + 1, count, q, ws =>
    if ws.m_NGQueue.count = 0 then some (count, q.sortResult, ws)
    else do
      let (count, q, ws) ← iterTurn visits index d rounds count q ws
      if batch ≤ count then return (count, q.sortResult, ws)
      else batchLoop rounds batch turns count q ws

def searchIterative (rounds : Nat) (p_isFirst : Bool) (batch : Nat) (q : QueryResultSet D)
    (ws : WorkSpace V D) : Option (Nat × QueryResultSet D × WorkSpace V D) := do
  let ws ← bif p_isFirst then descent visits index rounds ws else some ws
  batchLoop visits index d rounds batch rounds 0 q ws

/-- `SearchIndexIterativeNext`; `fresh` is what `new` leaves in the cells of `m_Results`. -/
def searchIndexIterativeNext (fresh : Nat → D) (m_iMaxCheck : Int) (rounds : Nat) (p_isFirst : Bool)
    (p_batch : Nat) (q : QueryResultSet D) (ws : WorkSpace V D) :
    Option (Nat × QueryResultSet D × WorkSpace V D) := do
  let ws ← bif p_isFirst then ws.resetResult index.maxDist fresh m_iMaxCheck p_batch else some ws
  searchIterative visits index d rounds p_isFirst p_batch q ws

/-- A batch is never greater than the last one came to be. -/
def ResultIterator.next (fresh : Nat → D) (m_iMaxCheck : Int) (rounds batch : Nat)
    (it : ResultIterator V D) : Option (QueryResultSet D × ResultIterator V D) := do
  let q : QueryResultSet D := match it.m_queryResult with
    | none => ⟨fun _ => ⟨-1, index.maxDist⟩, batch⟩
    | some q => { q with resultNum := min batch q.resultNum }
  let (resultCount, q, ws) ← searchIndexIterativeNext visits index d fresh m_iMaxCheck rounds
    it.m_isFirstResult q.resultNum (q.reset index.maxDist) it.m_workspace
  let q := { q with resultNum := resultCount }
  return (q, ⟨ws, some q, false⟩)

def ResultIterator.new (fresh : Nat → D) (m_iMaxCheck p_maxCheck : Int) (ws : WorkSpace V D) :
    Option (ResultIterator V D) := do
  let ws ← ws.reset visits index.maxDist fresh
    (if 0 < p_maxCheck then p_maxCheck else m_iMaxCheck) 1
  return ⟨ws, none, true⟩

def drain (fresh : Nat → D) (m_iMaxCheck : Int) (rounds : Nat) :
    List Nat → ResultIterator V D → Option (List (QueryResultSet D) × ResultIterator V D)
  | [], it => some ([], it)
  | batch :: batches, it => do
    let (q, it) ← it.next visits index d fresh m_iMaxCheck rounds batch
    let (qs, it) ← drain fresh m_iMaxCheck rounds batches it
    return (q :: qs, it)

def iterate (fresh : Nat → D) (m_iMaxCheck p_maxCheck : Int) (rounds : Nat) (batches : List Nat)
    (ws : WorkSpace V D) : Option (List (QueryResultSet D)) := do
  let it ← ResultIterator.new visits index fresh m_iMaxCheck p_maxCheck ws
  let (qs, _) ← drain visits index d fresh m_iMaxCheck rounds batches it
  return qs

end Source

def given (d : Dispatch) (nodes : Multiset (NodeDistPair D)) : Multiset (BasicResult D) :=
  (nodes.filter fun x => d.accepts x.node).map fun x => ⟨x.node, x.distance⟩

structure Twinned (index : Index D) (n : Nat) : Prop where
  lt : (-2 - mark index n).toNat < index.m_pTrees.m_pTreeRoots.size
  inner : (index.m_pTrees.m_pTreeRoots.cell (-2 - mark index n).toNat).childStart < 0
  stop : (index.m_pTrees.m_pTreeRoots.cell (-2 - mark index n).toNat).childEnd.toNat ≤
    index.m_pTrees.m_pTreeRoots.size
  twins : ∀ c ∈ clustered index n, 0 ≤ c ∧ c < index.m_pSamples.R ∧
    index.m_pSamples.distance c.toNat = index.m_pSamples.distance n

structure Roaming (bound : Nat) (sought : Nat → Prop) (visits : VisitedSet V)
    (index : Index D) (k : Nat)
    (ws : WorkSpace V D) (visited : Finset Nat) (done : Multiset (NodeDistPair D)) : Prop where
  climbing : Climbing bound sought visits index.maxDist index.m_pSamples index.m_pTrees.m_pTreeRoots
    index.m_pTrees.m_pTreeStart ⟨done, 0, 0⟩ ws visited ws.m_SPTQueue.content
  tracks : ∃ ds, (∀ x ∈ ds, x ≤ index.maxDist) ∧ ws.m_Results.Tracks index.maxDist k ds

def Roams (bound : Nat) (sought : Nat → Prop) (visits : VisitedSet V) (index : Index D) (k : Nat)
    (ws : WorkSpace V D) (visited : Finset Nat) (done : Multiset (NodeDistPair D))
    (ws' : WorkSpace V D) :
    Prop :=
  ∃ visited', visited ⊆ visited' ∧
    Roaming bound sought visits index k ws' visited' done ∧ Kept ws ws'

variable {visits : VisitedSet V} {index : Index D} {d : Dispatch} {bound n k K count batch : Nat}
  {sought : Nat → Prop} {ws ws' ws'' : WorkSpace V D} {visited visited' : Finset Nat}
  {done took : Multiset (NodeDistPair D)} {q : QueryResultSet D} {M : Multiset (BasicResult D)}
  {x : NodeDistPair D}

omit [LinearOrder D] in
theorem given_cons : given d (x ::ₘ took) = given d {x} + given d took := by
  rw [given, given, given, ← Multiset.singleton_add, Multiset.filter_add, Multiset.map_add]

theorem Roams.refl (h : Roaming bound sought visits index k ws visited done) :
    Roams bound sought visits index k ws visited done ws := ⟨visited, le_rfl, h, .refl ws⟩

theorem Roams.after (h : Roams bound sought visits index k ws' visited' done ws'')
    (hsub : visited ⊆ visited') (hkept : Kept ws ws') :
    Roams bound sought visits index k ws visited done ws'' := by
  obtain ⟨visited'', hsub', hroaming, hkept'⟩ := h
  exact ⟨visited'', hsub.trans hsub', hroaming, hkept.trans hkept'⟩

theorem Roaming.meet (h : Roaming bound sought visits index k ws visited done)
    (hR : index.m_pSamples.R ≤ visits.bound) (hn : n < index.m_pSamples.R) :
    Yields visits.Total (ws.meet visits n (index.m_pSamples.distance n) 0)
      (Roams bound sought visits index k ws visited done) := by
  obtain ⟨lost, haccounts⟩ := h.climbing.accounts
  refine (haccounts.meet hR hn zero_le_one).mono fun ws' h' => ?_
  obtain ⟨haccounts', hmet, -⟩ := h'
  refine ⟨_, Finset.subset_insert n visited, ⟨?_, ?_⟩,
    ⟨hmet.m_iMaxCheck, hmet.length, congrArg _ hmet.m_SPTQueue⟩⟩
  · rw [hmet.m_SPTQueue]
    exact h.climbing.visit haccounts' hmet.m_SPTQueue (Finset.subset_insert _ _)
  · rw [hmet.m_Results]
    exact h.tracks

theorem visitCluster_spec (h : Roaming bound sought visits index k ws visited done)
    (hR : index.m_pSamples.R ≤ visits.bound) {score : D} {childEnd : Int} {i : Nat}
    (hstop : childEnd.toNat ≤ index.m_pTrees.m_pTreeRoots.size)
    (htwins : ∀ c ∈ centers index.m_pTrees.m_pTreeRoots i childEnd.toNat,
      0 ≤ c ∧ c < index.m_pSamples.R ∧ index.m_pSamples.distance c.toNat = score)
    {rounds : Nat} (hrounds : (childEnd - i).toNat < rounds) :
    Yields visits.Total (visitCluster visits index d score childEnd rounds i ws)
      (Roams bound sought visits index k ws visited done) := by
  induction rounds generalizing i ws visited with
  | zero => exact absurd hrounds (Nat.not_lt_zero _)
  | succ rounds ih =>
    refine .of_ite (fun hmore => ?_) fun _ => .pure (.refl h)
    have hlt : i < childEnd.toNat := by omega
    rw [centers_eq_cons hlt] at htwins
    obtain ⟨hnonneg, hrow, hdistance⟩ := htwins _ List.mem_cons_self
    obtain ⟨c, hc⟩ := Int.eq_ofNat_of_zero_le hnonneg
    rw [hc, Int.toNat_natCast] at hdistance
    have hone : Yields visits.Total
        (meetTwin visits d score ws (index.m_pTrees.m_pTreeRoots.cell i).centerid)
        (Roams bound sought visits index k ws visited done) := by
      refine .of_ite (fun _ => ?_) fun _ => .pure (.refl h)
      rw [hc, ← hdistance]
      exact h.meet hR (by omega)
    refine .bind_of_eq (nodeAt_eq (hlt.trans_le hstop)) (hone.bind fun ws' h' => ?_)
    obtain ⟨visited', hsub, hroaming, hkept⟩ := h'
    exact (ih (i := i + 1) hroaming (fun c hc => htwins c (List.mem_cons_of_mem _ hc))
      (by omega)).mono
      fun ws'' h'' => h''.after hsub hkept

theorem visitMark_spec (h : Roaming bound sought visits index k ws visited done)
    (hR : index.m_pSamples.R ≤ visits.bound) (hx : x = ⟨n, index.m_pSamples.distance n⟩)
    (htwinned : mark index n < -1 → Twinned index n) :
    Yields visits.Total (visitMark visits index d x (mark index n) ws)
      (Roams bound sought visits index k ws visited done) := by
  refine .of_ite (fun hmark => ?_) fun _ => .pure (.refl h)
  have ht := htwinned hmark
  obtain ⟨j, hj⟩ := Int.eq_ofNat_of_zero_le (show 0 ≤ -2 - mark index n by omega)
  have htwins := ht.twins
  have hlt := ht.lt
  have hinner := ht.inner
  have hstop := ht.stop
  unfold clustered at htwins
  rw [hj, Int.toNat_natCast] at htwins hlt hinner hstop
  rw [if_pos ⟨hmark, hinner⟩] at htwins
  rw [hj]
  refine .bind_of_eq (nodeAt_eq hlt) ?_
  obtain ⟨i, hi⟩ := Int.eq_ofNat_of_zero_le
    (show 0 ≤ -(index.m_pTrees.m_pTreeRoots.cell j).childStart by omega)
  rw [hi, Int.toNat_natCast] at htwins
  dsimp only
  rw [hi, hx]
  exact visitCluster_spec h hR hstop htwins (Nat.lt_succ_self _)

theorem roamNeighbor_spec (hs : Sound index visits.bound)
    (h : Roaming bound sought visits index k ws visited done) (hn : n < index.m_pSamples.R) :
    Yields visits.Total (roamNeighbor visits index ws n)
      (Roams bound sought visits index k ws visited done) := by
  obtain ⟨lost, haccounts⟩ := h.climbing.accounts
  obtain ⟨ds, hds, htracks⟩ := h.tracks
  refine (checkAndSet_spec haccounts.holds (hn.trans_le hs.bound)).bind fun r hr => ?_
  obtain ⟨seen, ws₁⟩ := r
  obtain ⟨hseen, nodeCheckStatus, hholds, rfl⟩ := hr
  refine .of_ite (fun htrue => ?_) fun hfalse => .of_exists ?_
  · have hmem := hseen.mp htrue
    rw [Finset.insert_eq_of_mem hmem] at hholds
    exact .pure ⟨visited, le_rfl, ⟨h.climbing.visit
      ⟨lost, { haccounts with holds := hholds }⟩ rfl le_rfl,
      h.tracks⟩, rfl, rfl, rfl⟩
  · have hnew : n ∉ visited := fun hmem => hfalse (hseen.mpr hmem)
    have hget : index.m_pSamples.get n = some (index.m_pSamples.distance n) :=
      if_pos ⟨Int.natCast_nonneg n, Int.ofNat_lt.mpr hn⟩
    obtain ⟨inserted, results, hinsert, htracks', -⟩ := htracks.insert (hs.near n hn).le
    obtain ⟨ws', hws', haccounts', hmet, -, -⟩ := haccounts.insertNG hn hnew nodeCheckStatus hholds
      (show ws.m_iNumberOfCheckedLeaves + 1 ≤ visited.card +
        1 from add_le_add_left haccounts.checked 1)
    have hinsert' : ws'.m_Results.insert (index.m_pSamples.distance n) = some (inserted, results) :=
      hmet.m_Results ▸ hinsert
    simp only [hget, hws', hinsert', Option.bind_eq_bind, Option.bind_some]
    refine ⟨_, rfl, insert n visited, Finset.subset_insert _ _, ⟨?_, _, ?_, htracks'⟩,
      hmet.m_iMaxCheck,
      hmet.length, congrArg _ hmet.m_SPTQueue⟩
    · rw [show ({ ws' with m_Results := results } : WorkSpace V D).m_SPTQueue.content =
        ws.m_SPTQueue.content from congrArg _ hmet.m_SPTQueue]
      obtain ⟨lost', haccounts'⟩ := haccounts'
      exact h.climbing.visit ⟨lost', { haccounts' with }⟩ hmet.m_SPTQueue (Finset.subset_insert _ _)
    · exact List.forall_mem_cons.mpr ⟨(hs.near n hn).le, hds⟩

theorem roamNeighbors_spec (hs : Sound index visits.bound) (hn : n < index.m_pSamples.R)
    (h : Roaming bound sought visits index k ws visited done) {left i : Nat}
    (hi : i + left ≤ index.m_iNeighborhoodSize) :
    Yields visits.Total (roamNeighbors visits index (index.m_pGraph.cell n) left i ws)
      (Roams bound sought visits index k ws visited done) := by
  induction left generalizing i ws visited with
  | zero => exact .pure (.refl h)
  | succ left ih =>
    have hget : (index.m_pGraph.cell n).get i = some ((index.m_pGraph.cell n).cell i) :=
      get_of_lt (by rw [hs.row n hn]; omega)
    refine .bind_of_eq hget (.of_ite (fun _ => .pure (.refl h)) fun hnonneg => ?_)
    obtain ⟨id, hid⟩ := Int.eq_ofNat_of_zero_le (not_lt.mp hnonneg)
    have hlt := hs.entries n hn i (by omega)
    rw [hid] at hlt ⊢
    refine (roamNeighbor_spec hs h (Int.ofNat_lt.mp hlt)).bind fun ws' h' => ?_
    obtain ⟨visited', hsub, hroaming, hkept⟩ := h'
    exact (ih hroaming (by omega)).mono fun ws'' h'' => h''.after hsub hkept

theorem take_spec {worst : D} (hworst : ws.m_Results.worst = some worst) (hbest : q.Best K M)
    (count : Nat) :
    ∃ q' relaxed, take d x count q ws =
        some (count + (given d {x}).card, q', { ws with m_relaxedMono := relaxed }) ∧
      q'.Best K (given d {x} + M) := by
  unfold take
  by_cases hnot : d.notDeleted x.node = true
  · rw [if_pos hnot, hworst]
    by_cases hfilter : d.checkFilter x.node = true
    · have hgiven : given d {x} = {⟨x.node, x.distance⟩} := by
        rw [given, Multiset.filter_singleton, if_pos (show d.accepts x.node = true by
          rw [Dispatch.accepts, hnot, hfilter]; rfl), Multiset.map_singleton]
      rw [hgiven]
      simp only [hfilter, if_true]
      exact ⟨_, _, rfl, hbest.addPoint ⟨x.node, x.distance⟩⟩
    · have hgiven : given d {x} = 0 := by
        rw [given, Multiset.filter_singleton, if_neg (show ¬ d.accepts x.node = true by
          rw [Dispatch.accepts, hnot, Bool.true_and]; exact hfilter)]
        rfl
      rw [hgiven, Multiset.zero_add]
      simp only [hfilter]
      exact ⟨_, _, rfl, hbest⟩
  · have hgiven : given d {x} = 0 := by
      rw [given, Multiset.filter_singleton, if_neg (show ¬ d.accepts x.node = true by
        rw [Dispatch.accepts, Bool.eq_false_iff.mpr hnot]; exact Bool.false_ne_true)]
      rfl
    rw [if_neg hnot, hgiven, Multiset.zero_add]
    exact ⟨q, ws.m_relaxedMono, rfl, hbest⟩

theorem Roaming.pair (h : Roaming bound sought visits index k ws visited done)
    (hx : x ∈ done + ws.m_NGQueue.content) : IsPair index.m_pSamples x := by
  obtain ⟨lost, haccounts⟩ := h.climbing.accounts
  have hmem : x ∈ done + ws.m_NGQueue.content + lost := Multiset.mem_add.mpr (.inl hx)
  obtain ⟨hnonneg, hdist⟩ := haccounts.real x hmem
  have hvisited : x.node.toNat ∈ visited.val := by
    rw [haccounts.parts]
    exact Multiset.mem_add.mpr (.inl (Multiset.mem_map_of_mem _ hmem))
  refine ⟨x.node.toNat, haccounts.within _ hvisited, ?_⟩
  rw [← hdist, Int.toNat_of_nonneg hnonneg]

theorem Roaming.pop (h : Roaming bound sought visits index k ws visited done)
    {queue : Heap (NodeDistPair D)}
    (hqueue : queue.OrderedBy NodeDistPair.distance (blank index.maxDist))
    (hlength : queue.length = ws.m_NGQueue.length)
    (hcontent : ws.m_NGQueue.content = x ::ₘ queue.content)
    (relaxed : Bool) :
    Roaming bound sought visits index k
      { ws with m_NGQueue := queue, m_relaxedMono := relaxed } visited
      (x ::ₘ done) := by
  obtain ⟨lost, haccounts⟩ := h.climbing.accounts
  have hparts : x ::ₘ done + queue.content = done + ws.m_NGQueue.content := by
    rw [hcontent, Multiset.cons_add, Multiset.add_cons]
  refine ⟨h.climbing.visit ⟨lost, haccounts.holds, hqueue, haccounts.within, ?_, ?_, ?_,
    haccounts.checked⟩ rfl le_rfl, h.tracks⟩
  · dsimp only
    rw [hparts]
    exact haccounts.parts
  · dsimp only
    rw [hparts]
    exact haccounts.real
  · dsimp only
    rw [hlength]
    exact haccounts.room

theorem Roaming.card_done_le (h : Roaming bound sought visits index k ws visited done) :
    done.card ≤ index.m_pSamples.R := by
  obtain ⟨lost, haccounts⟩ := h.climbing.accounts
  have hle := Finset.card_le_card (show visited ⊆ Finset.range index.m_pSamples.R from
    fun n hn => Finset.mem_range.mpr (haccounts.within n hn))
  rw [Finset.card_range, Finset.card_def, haccounts.parts] at hle
  simp only [Multiset.card_add, Multiset.card_map] at hle
  omega

structure Ready (visits : VisitedSet V) (index : Index D) : Prop where
  sound : Sound index visits.bound
  twinned : ∀ n < index.m_pSamples.R, mark index n < -1 → Twinned index n

theorem iterTurn_spec (hi : Ready visits index)
    (h : Roaming bound sought visits index k ws visited done)
    (hbest : q.Best K M) (hpos : 0 < ws.m_NGQueue.count) (rounds : Nat) :
    Yields (visits.Total ∧ bound < rounds) (iterTurn visits index d rounds count q ws) fun r =>
      ∃ x, r.1 = count + (given d {x}).card ∧ r.2.1.Best K (given d {x} + M) ∧
        Roams bound sought visits index k ws visited (x ::ₘ done) r.2.2 ∧
        (Pivots index → r.2.2.m_NGQueue.count = 0 → r.2.2.m_SPTQueue.count = 0) := by
  have hs := hi.sound
  obtain ⟨lost, haccounts⟩ := h.climbing.accounts
  obtain ⟨x, queue, hpop, hordered, hlength, -, hcontent⟩ := haccounts.queue.pop hpos
  obtain ⟨n, hn, hx⟩ := h.pair (x := x) (by
    rw [hcontent]
    exact Multiset.mem_add.mpr (.inr (Multiset.mem_cons_self _ _)))
  obtain ⟨ds, hds, htracks⟩ := h.tracks
  have hworst : ({ ws with m_NGQueue := queue } : WorkSpace V D).m_Results.worst = some _ :=
    htracks.worst_eq hds
  obtain ⟨q', relaxed, htake, hbest'⟩ := take_spec (d := d) (x := x) hworst hbest count
  have hrow : rowAt index x.node = some (index.m_pGraph.cell n) := by
    rw [hx, rowAt, if_neg (not_lt.mpr (Int.natCast_nonneg n)), Int.toNat_natCast]
    exact get_of_lt (hs.rows ▸ hn)
  have hmark : (index.m_pGraph.cell n).get (index.m_iNeighborhoodSize - 1) =
    some (mark index n) := by
    refine get_of_lt ?_
    rw [hs.row n hn]
    exact Nat.sub_one_lt hs.size.ne'
  have hpopped := h.pop hordered hlength hcontent relaxed
  refine .bind_of_eq hpop (.bind_of_eq hrow (.bind_of_eq htake (.bind_of_eq hmark ?_)))
  refine ((visitMark_spec hpopped hs.bound hx (hi.twinned n hn)).weaken And.left).bind
    fun ws₁ h₁ => ?_
  obtain ⟨visited₁, hsub₁, hroaming₁, hkept₁⟩ := h₁
  refine ((roamNeighbors_spec hs hn hroaming₁ (Nat.zero_add _).le).weaken And.left).bind
    fun ws₂ h₂ => ?_
  obtain ⟨visited₂, hsub₂, hroaming₂, hkept₂⟩ := h₂
  refine (searchOn_explores hs hroaming₂.climbing rounds).bind fun ws₃ h₃ => .pure ?_
  obtain ⟨⟨visited₃, hsub₃, hclimbing₃, hclimbed₃⟩, hlively⟩ := h₃
  have hkept₃ : Kept ws₂ ws₃ := ⟨hclimbed₃.m_iMaxCheck, hclimbed₃.ng, hclimbed₃.spt⟩
  have hkept : Kept ws { ws with m_NGQueue := queue, m_relaxedMono := relaxed } :=
    ⟨rfl, hlength, rfl⟩
  refine ⟨x, rfl, hbest', ⟨visited₃, (hsub₁.trans hsub₂).trans hsub₃, ⟨hclimbing₃, ?_⟩,
    ((hkept.trans hkept₁).trans hkept₂).trans hkept₃⟩, hlively⟩
  rw [hclimbed₃.m_Results]
  exact hroaming₂.tracks

structure Batched (bound : Nat) (sought : Nat → Prop) (visits : VisitedSet V) (index : Index D)
    (d : Dispatch) (k K batch : Nat) (ws : WorkSpace V D) (visited : Finset Nat)
    (done : Multiset (NodeDistPair D)) (count : Nat) (q : QueryResultSet D) (ws' : WorkSpace V D)
    (took : Multiset (NodeDistPair D)) : Prop where
  roams : Roams bound sought visits index k ws visited (took + done) ws'
  best : ∃ q' : QueryResultSet D, q = q'.sortResult ∧
    q'.Best K (given d took + Multiset.replicate K ⟨-1, index.maxDist⟩)
  number : count = (given d took).card
  le : count ≤ batch
  short : count < batch → ws'.m_NGQueue.count = 0
  lively : Pivots index → ws'.m_NGQueue.count = 0 → ws'.m_SPTQueue.count = 0

theorem batchLoop_spec (hi : Ready visits index)
    (h : Roaming bound sought visits index k ws visited (took + done))
    (hbest : q.Best K (given d took + Multiset.replicate K ⟨-1, index.maxDist⟩))
    (hcount : (given d took).card < batch)
    (hlively : Pivots index → ws.m_NGQueue.count = 0 → ws.m_SPTQueue.count = 0)
    (rounds turns : Nat) :
    Yields (visits.Total ∧ bound < rounds ∧ index.m_pSamples.R < turns + (took + done).card)
      (batchLoop visits index d rounds batch turns (given d took).card q ws) fun r =>
        ∃ took', Batched bound sought visits index d k K batch ws visited done r.1 r.2.1
          r.2.2 took' := by
  induction turns generalizing took q ws visited with
  | zero =>
    refine ⟨nofun, fun hsure => absurd hsure.2.2 ?_⟩
    rw [Nat.zero_add]
    exact h.card_done_le.not_gt
  | succ turns ih =>
    refine .of_ite (fun hzero => .pure
      ⟨took, .refl h, ⟨q, rfl, hbest⟩, rfl, hcount.le, fun _ => hzero,
      hlively⟩) fun hpos => ?_
    refine ((iterTurn_spec hi h hbest (Nat.pos_of_ne_zero hpos) rounds).weaken fun hsure =>
      ⟨hsure.1, hsure.2.1⟩).bind fun r hr => ?_
    obtain ⟨count, q', ws'⟩ := r
    obtain ⟨x, hcount', hbest', ⟨visited', hsub, hroaming, hkept⟩, hlively'⟩ := hr
    have hone : (given d {x}).card ≤ 1 := by
      rw [given, Multiset.card_map]
      exact Multiset.card_le_card (Multiset.filter_le _ _)
    dsimp only at hcount' hbest' hroaming hkept hlively'
    rw [← Multiset.add_assoc, ← given_cons] at hbest'
    rw [← Multiset.cons_add] at hroaming
    have hcard : count = (given d (x ::ₘ took)).card := by
      rw [given_cons, Multiset.card_add, hcount', Nat.add_comm]
    rw [hcard]
    refine .of_ite (fun hfull => .pure ⟨x ::ₘ took, ⟨visited', hsub, hroaming, hkept⟩,
      ⟨q', rfl, hbest'⟩, rfl, ?_, fun hshort => absurd hfull hshort.not_ge, hlively'⟩)
        fun hless => ?_
    · rw [given_cons, Multiset.card_add]
      omega
    · refine ((ih hroaming hbest' (not_le.mp hless) hlively').weaken fun hsure =>
        ⟨hsure.1, hsure.2.1, ?_⟩).mono fun r' hr' => ?_
      · rw [Multiset.cons_add, Multiset.card_cons]
        omega
      · obtain ⟨took', hbatched⟩ := hr'
        exact ⟨took', { hbatched with roams := hbatched.roams.after hsub hkept }⟩

structure Started (visits : VisitedSet V) (index : Index D) (ws₀ : WorkSpace V D)
    (it : ResultIterator V D) (done : Multiset (NodeDistPair D)) : Prop where
  later : it.m_isFirstResult = false
  roaming : ∃ k visited, Roaming (treeNodes index).card (· ∈ treeNodes index) visits index k
    it.m_workspace
    visited done
  kept : Kept ws₀ it.m_workspace
  lively : Pivots index → it.m_workspace.m_NGQueue.count = 0 → it.m_workspace.m_SPTQueue.count = 0
  query : ∃ q, it.m_queryResult = some q ∧ (q.resultNum = 0 → it.m_workspace.m_NGQueue.count = 0)

structure Nexted (visits : VisitedSet V) (index : Index D) (d : Dispatch) (ws₀ : WorkSpace V D)
    (batch : Nat) (done : Multiset (NodeDistPair D)) (q : QueryResultSet D)
    (it : ResultIterator V D)
    (took : Multiset (NodeDistPair D)) : Prop where
  started : Started visits index ws₀ it (took + done)
  toList : q.toList = (given d took).sort
  le : q.resultNum ≤ batch
  query : it.m_queryResult = some q

variable {it it' : ResultIterator V D} {ws₀ : WorkSpace V D}

theorem Batched.toList (h : Batched bound sought visits index d k K batch ws visited done
    count q ws' took)
    (hs : Sound index n) (hbatch : batch = K) :
    ({ q with resultNum := count } : QueryResultSet D).toList = (given d took).sort := by
  obtain ⟨q', rfl, hbest⟩ := h.best
  obtain ⟨visited', -, hroaming, -⟩ := h.roams
  have hlist := hbest.toList_reset fun p hp => by
    obtain ⟨x, hx, rfl⟩ := Multiset.mem_map.mp hp
    obtain ⟨n, hn, rfl⟩ := hroaming.pair (x := x) (Multiset.mem_add.mpr (.inl (Multiset.mem_add.mpr
      (.inl (Multiset.mem_of_mem_filter hx)))))
    exact hs.near n hn
  have hle := h.le
  have htake : ({ q'.sortResult with resultNum := count } : QueryResultSet D).toList =
      q'.sortResult.toList.take count := by
    have hnum : q'.sortResult.resultNum = K := hbest.resultNum
    rw [QueryResultSet.toList, QueryResultSet.toList, ← List.map_take, List.take_range, hnum,
      min_eq_left (hbatch ▸ hle)]
  rw [htake, hlist, List.take_append_of_le_length, List.take_take, min_eq_left (hbatch ▸ hle),
    h.number, List.take_of_length_le (Multiset.length_sort ..).le]
  rw [List.length_take, Multiset.length_sort, ← h.number]
  omega

theorem Batched.nexted (h : Batched (treeNodes index).card (· ∈ treeNodes index) visits
    index d k batch
      batch ws visited done count q ws' took) (hs : Sound index n) (hkept : Kept ws₀ ws)
    (hbatch : 0 < batch) :
    Nexted visits index d ws₀ batch done { q with resultNum := count }
      ⟨ws', some { q with resultNum := count }, false⟩ took := by
  have htoList := h.toList hs rfl
  obtain ⟨visited', -, hroaming, hkept'⟩ := h.roams
  exact ⟨⟨rfl, ⟨_, _, hroaming⟩, hkept.trans hkept', h.lively, _, rfl, fun hzero =>
    h.short ((show count = 0 from hzero).trans_lt hbatch)⟩, htoList, h.le, rfl⟩

theorem best_blanks (q : QueryResultSet D) (hq : 0 < q.resultNum) (maxDist : D) :
    (q.reset maxDist).Best q.resultNum
    (given d 0 + Multiset.replicate q.resultNum ⟨-1, maxDist⟩) := by
  rw [show given d (0 : Multiset (NodeDistPair D)) = 0 from rfl, Multiset.zero_add]
  exact QueryResultSet.best_reset q hq maxDist

theorem next_spec (hi : Ready visits index) (h : Started visits index ws₀ it done)
    (hbatch : 0 < batch)
    (hquery : it.m_queryResult = some q) (fresh : Nat → D) (m_iMaxCheck : Int) (rounds : Nat) :
    Yields (visits.Total ∧ turns index < rounds)
      (it.next visits index d fresh m_iMaxCheck rounds batch) fun r =>
        ∃ took, Nexted visits index d ws₀ (min batch q.resultNum) done r.1 r.2 took := by
  obtain ⟨q', hq', hempty⟩ := h.query
  obtain rfl := Option.some.inj (hquery.symm.trans hq')
  obtain ⟨k, visited, hroaming⟩ := h.roaming
  unfold ResultIterator.next searchIndexIterativeNext searchIterative
  rw [hquery, h.later]
  dsimp only [cond_false]
  rcases Nat.eq_zero_or_pos (min batch q.resultNum) with hnone | hsome
  · have hcount := hempty (by omega)
    cases rounds with
    | zero => exact ⟨nofun, fun hsure => absurd hsure.2 (Nat.not_lt_zero _)⟩
    | succ rounds =>
      refine .bind_of_eq (if_pos hcount)
        (.pure ⟨0, ⟨rfl, ⟨k, visited, ?_⟩, h.kept, h.lively, _, rfl,
        fun _ => hcount⟩, ?_, Nat.zero_le _, rfl⟩)
      · rwa [Multiset.zero_add]
      · exact (List.map_nil).trans (Multiset.sort_zero _).symm
  · have hbest := best_blanks (d := d) { q with resultNum := min batch q.resultNum }
      hsome index.maxDist
    rw [← Multiset.zero_add done] at hroaming
    have hloop := batchLoop_spec hi hroaming hbest
      (by rwa [show (given d (0 : Multiset (NodeDistPair D))).card = 0 from rfl])
        h.lively rounds rounds
    refine (hloop.weaken fun hsure => ⟨hsure.1, (turns_lt hsure.2).2.1, ?_⟩).bind fun r
      hr => .pure ?_
    · have := (turns_lt hsure.2).2.2
      omega
    · obtain ⟨took, hbatched⟩ := hr
      exact ⟨took, hbatched.nexted hi.sound h.kept hsome⟩

theorem next_first (hi : Ready visits index) {maxCheck : Int}
    (h : Fresh visits index.maxDist maxCheck k ws)
    (hbatch : 0 < batch) (fresh : Nat → D) (m_iMaxCheck : Int) (rounds : Nat) :
    Yields (visits.Total ∧ turns index < rounds)
      (ResultIterator.next visits index d fresh m_iMaxCheck rounds batch ⟨ws, none, true⟩) fun r =>
        ∃ took, Nexted visits index d ws batch 0 r.1 r.2 took := by
  obtain ⟨results, hreset, hfresh⟩ := h.resetResult fresh
    (show 0 < max (m_iMaxCheck.tdiv 16) batch from (Int.natCast_pos.mpr hbatch).trans_le
      (le_max_right _ _))
  unfold ResultIterator.next searchIndexIterativeNext searchIterative
  dsimp only [cond_true]
  have hbest := best_blanks (d := d) ⟨fun _ => ⟨-1, index.maxDist⟩, batch⟩ hbatch index.maxDist
  rw [hreset]
  refine Yields.bind (P := fun r => ∃ took, Nexted visits index d ws batch 0
    { r.2.1 with resultNum := r.1 } ⟨r.2.2, some { r.2.1 with resultNum := r.1 }, false⟩ took) ?_
    fun r hr => .pure hr
  refine .bind_of_eq rfl ((descent_spec hi.sound hfresh rounds).bind fun ws₂ h₂ => ?_)
  obtain ⟨⟨visited, -, hclimbing, hclimbed⟩, hlively⟩ := h₂
  have hroaming : Roaming (treeNodes index).card (· ∈ treeNodes index) visits index _ ws₂
    visited (0 + 0) :=
    ⟨hclimbing, [], nofun, by
      rw [hclimbed.m_Results]
      exact hfresh.tracks⟩
  have hloop := batchLoop_spec hi hroaming hbest
    (by rwa [show (given d (0 : Multiset (NodeDistPair D))).card = 0 from rfl])
      hlively rounds rounds
  refine (hloop.weaken fun hsure => ⟨hsure.1, (turns_lt hsure.2).2.1, ?_⟩).mono fun r hr => ?_
  · have := (turns_lt hsure.2).2.2
    omega
  · obtain ⟨took, hbatched⟩ := hr
    exact ⟨took, hbatched.nexted hi.sound ⟨hclimbed.m_iMaxCheck, hclimbed.ng, hclimbed.spt⟩ hbatch⟩

def points (qs : List (QueryResultSet D)) : List (BasicResult D) := qs.flatMap QueryResultSet.toList

structure Drained (visits : VisitedSet V) (index : Index D) (d : Dispatch) (ws₀ : WorkSpace V D)
    (qs : List (QueryResultSet D)) (it : ResultIterator V D)
    (done took : Multiset (NodeDistPair D)) :
    Prop where
  started : Started visits index ws₀ it (took + done)
  coe_points : (points qs : Multiset (BasicResult D)) = given d took
  sorted : ∀ q ∈ qs, q.toList.Pairwise (· ≤ ·)
  last : ∀ q', it.m_queryResult = some q' → ∀ q ∈ qs, q'.resultNum ≤ q.resultNum

theorem Nexted.cons {q₁ : QueryResultSet D} {qs : List (QueryResultSet D)}
    {it₁ : ResultIterator V D}
    {took₁ : Multiset (NodeDistPair D)} (h : Nexted visits index d ws₀ batch done q₁ it₁ took₁)
    (hrest : Drained visits index d ws₀ qs it (took₁ + done) took)
    (hle : ∀ q', it.m_queryResult = some q' → q'.resultNum ≤ q₁.resultNum) :
    Drained visits index d ws₀ (q₁ :: qs) it done (took + took₁) where
  started := (Multiset.add_assoc took took₁ done).symm ▸ hrest.started
  coe_points := by
    have heq := hrest.coe_points
    rw [points] at heq
    rw [points, List.flatMap_cons, ← Multiset.coe_add, h.toList, Multiset.sort_eq, heq,
      given, given, given,
      Multiset.filter_add, Multiset.map_add, Multiset.add_comm]
  sorted := List.forall_mem_cons.mpr ⟨h.toList ▸ Multiset.pairwise_sort _ _, hrest.sorted⟩
  last q' hq' := List.forall_mem_cons.mpr ⟨hle q' hq', hrest.last q' hq'⟩

theorem drain_spec (hi : Ready visits index) (h : Started visits index ws₀ it done)
    (hquery : it.m_queryResult = some q) (fresh : Nat → D) (m_iMaxCheck : Int) (rounds : Nat)
    {batches : List Nat} (hbatches : ∀ batch ∈ batches, 0 < batch) :
    Yields (visits.Total ∧ turns index < rounds)
      (drain visits index d fresh m_iMaxCheck rounds batches it) fun r =>
        ∃ took, Drained visits index d ws₀ r.1 r.2 done took ∧
          ∀ q', r.2.m_queryResult = some q' → q'.resultNum ≤ q.resultNum := by
  induction batches generalizing it done q with
  | nil =>
    refine .pure ⟨0, ⟨?_, rfl, nofun, nofun⟩, fun q' hq' => ?_⟩
    · rwa [Multiset.zero_add]
    · exact (Option.some.inj (hq'.symm.trans hquery)) ▸ le_rfl
  | cons batch batches ih =>
    refine (next_spec hi h (hbatches batch List.mem_cons_self) hquery fresh m_iMaxCheck rounds).bind
      fun r hr => ?_
    obtain ⟨took₁, hnexted⟩ := hr
    refine (ih hnexted.started hnexted.query fun b hb =>
      hbatches b (List.mem_cons_of_mem _ hb)).bind
      fun r' hr' => .pure ?_
    obtain ⟨took₂, hdrained, hle⟩ := hr'
    exact ⟨_, hnexted.cons hdrained hle, fun q' hq' => (hle q' hq').trans
      (hnexted.le.trans (min_le_right _ _))⟩

structure Delivered (index : Index D) (d : Dispatch) (qs : List (QueryResultSet D)) : Prop where
  nodup : ((points qs).map BasicResult.vid).Nodup
  real : ∀ p ∈ points qs, d.accepts p.vid = true ∧
    ∃ n < index.m_pSamples.R, p = ⟨n, index.m_pSamples.distance n⟩
  sorted : ∀ q ∈ qs, q.toList.Pairwise (· ≤ ·)

theorem Roaming.nodup (h : Roaming bound sought visits index k ws visited done) :
    ((given d done).map BasicResult.vid).Nodup := by
  obtain ⟨lost, haccounts⟩ := h.climbing.accounts
  have hnodup := visited.nodup
  rw [haccounts.parts, Multiset.map_add, Multiset.map_add, Multiset.add_assoc,
    Multiset.add_assoc] at hnodup
  have hdone := (Multiset.nodup_add.mp hnodup).1
  rw [given, Multiset.map_map]
  refine Multiset.Nodup.of_map Int.toNat ?_
  rw [Multiset.map_map]
  exact Multiset.nodup_of_le (Multiset.map_le_map (Multiset.filter_le _ _)) hdone

theorem Drained.delivered {qs : List (QueryResultSet D)}
    (h : Drained visits index d ws₀ qs it 0 took) :
    Delivered index d qs := by
  obtain ⟨k, visited, hroaming⟩ := h.started.roaming
  rw [Multiset.add_zero] at hroaming
  refine ⟨?_, fun p hp => ?_, h.sorted⟩
  · rw [← Multiset.coe_nodup, ← Multiset.map_coe, h.coe_points]
    exact hroaming.nodup
  · rw [← Multiset.mem_coe, h.coe_points] at hp
    obtain ⟨x, hx, rfl⟩ := Multiset.mem_map.mp hp
    obtain ⟨n, hn, rfl⟩ := hroaming.pair
      (Multiset.mem_add.mpr (.inl (Multiset.mem_of_mem_filter hx)))
    exact ⟨(Multiset.mem_filter.mp hx).2, n, hn, rfl⟩

structure Exhaustive (index : Index D) (maxCheck : Int) : Prop where
  pivots : Pivots index
  room : index.m_pSamples.R ≤ ngSize maxCheck
  nodes : (treeNodes index).card ≤ sptSize maxCheck

def Complete (index : Index D) (d : Dispatch) (qs : List (QueryResultSet D)) : Prop :=
  ∀ k ∈ treeNodes index, ∀ n : Nat, (index.m_pTrees.m_pTreeRoots.cell k).centerid.toNat = n →
    d.accepts n = true → (⟨n, index.m_pSamples.distance n⟩ : BasicResult D) ∈ points qs

theorem Drained.complete {qs : List (QueryResultSet D)} {maxCheck : Int}
    (h : Drained visits index d ws₀ qs it 0 took)
    (hfresh : Fresh visits index.maxDist maxCheck k ws₀)
    (hex : Exhaustive index maxCheck) (hend : ∃ q ∈ qs, q.resultNum = 0) : Complete index d qs := by
  rintro j hj _ rfl haccepts
  obtain ⟨k, visited, hroaming⟩ := h.started.roaming
  rw [Multiset.add_zero] at hroaming
  obtain ⟨lost, haccounts⟩ := hroaming.climbing.accounts
  obtain ⟨q', hq', hempty⟩ := h.started.query
  obtain ⟨q, hq, hzero⟩ := hend
  have hng := hempty (Nat.le_zero.mp (hzero ▸ h.last q' hq' q hq))
  have hspt := h.started.lively hex.pivots hng
  have hnodes : (treeNodes index).card ≤ it.m_workspace.m_SPTQueue.length := by
    have := hfresh.sptLength
    have := hex.nodes
    rw [h.started.kept.spt]
    omega
  have hpassed := (hroaming.climbing.cover hnodes j hj).resolve_right fun hmem => by
    rw [content_of_count hspt] at hmem
    exact Multiset.notMem_zero j hmem
  have hlost : lost = 0 := haccounts.room.resolve_right fun hsmall => by
    have := hfresh.ngLength
    have := hex.room
    rw [h.started.kept.ng] at hsmall
    omega
  rw [Passed, ← Finset.mem_val, haccounts.parts] at hpassed
  simp only [hlost, content_of_count hng, Multiset.add_zero] at hpassed
  obtain ⟨x, hx, hnode⟩ := Multiset.mem_map.mp hpassed
  obtain ⟨m, hm, rfl⟩ := hroaming.pair (Multiset.mem_add.mpr (.inl hx))
  rw [← hnode, Int.toNat_natCast] at haccepts ⊢
  rw [← Multiset.mem_coe, h.coe_points]
  exact Multiset.mem_map.mpr ⟨_, Multiset.mem_filter.mpr ⟨hx, haccepts⟩, rfl⟩

theorem iterate_delivers (hi : Ready visits index) (h : Rested visits index.maxDist ws)
    (fresh : Nat → D)
    (m_iMaxCheck p_maxCheck : Int) (rounds : Nat) {batches : List Nat}
    (hbatches : ∀ batch ∈ batches, 0 < batch) :
    Yields (visits.Total ∧ turns index < rounds)
      (iterate visits index d fresh m_iMaxCheck p_maxCheck rounds batches ws) fun qs =>
        Delivered index d qs ∧
          (Exhaustive index (if 0 < p_maxCheck then p_maxCheck else m_iMaxCheck) →
            (∃ q ∈ qs, q.resultNum = 0) → Complete index d qs) := by
  obtain ⟨ws₀, hreset, hfresh⟩ := h.reset fresh (show 0 < max _ 1 from
    zero_lt_one.trans_le (le_max_right
      (Int.tdiv (if 0 < p_maxCheck then p_maxCheck else m_iMaxCheck) 16) 1))
  refine .bind_of_eq (congrArg (Option.bind · _) hreset) ?_
  cases batches with
  | nil => exact .pure ⟨⟨List.nodup_nil, nofun, nofun⟩, fun _ hend => absurd hend (by simp)⟩
  | cons batch batches =>
    refine Yields.bind (P := fun r => ∃ took, Drained visits index d ws₀ r.1 r.2 0 took) ?_
      fun r hr => ?_
    · refine (next_first hi hfresh (hbatches batch List.mem_cons_self) fresh
        m_iMaxCheck rounds).bind
        fun r hr => ?_
      obtain ⟨took₁, hnexted⟩ := hr
      refine (drain_spec hi hnexted.started hnexted.query fresh m_iMaxCheck rounds fun b hb =>
        hbatches b (List.mem_cons_of_mem _ hb)).bind fun r' hr' => .pure ?_
      obtain ⟨took₂, hdrained, hle⟩ := hr'
      exact ⟨_, hnexted.cons hdrained hle⟩
    · obtain ⟨took, hdrained⟩ := hr
      exact .pure ⟨hdrained.delivered, hdrained.complete hfresh⟩

theorem graft_ready : Ready (VisitedSet.ids 4) graftRequest.index := by
  refine ⟨graft_sound, fun n hn hmark => ?_⟩
  have hfirst : ∀ n < 4, mark graftRequest.index n < -1 → n = 0 := by decide
  obtain rfl := hfirst n hn hmark
  exact ⟨by decide, by decide, by decide, by decide⟩

theorem graft_drained : (do
      let ws ← WorkSpace.new 100 (fun _ => 0) ∅ 128
      let qs ← iterate (VisitedSet.ids 4) graftRequest.index graftRequest.dispatch
        (fun _ => 0) 128 0 20
        [2, 5, 5] ws
      return qs.map fun q => q.resultNum) = some [2, 1, 0] := by decide

theorem iterate_delivers_graft : ∃ ws qs, WorkSpace.new 100 (fun _ => 0) ∅ 128 = some ws ∧
    iterate (VisitedSet.ids 4) graftRequest.index graftRequest.dispatch (fun _ => 0) 128 0 20
      [2, 5, 5] ws =
      some qs ∧ Delivered graftRequest.index graftRequest.dispatch qs ∧
        Complete graftRequest.index graftRequest.dispatch qs := by
  obtain ⟨ws, hws, hrested⟩ := graft_rested
  obtain ⟨qs, hqs, hdelivered, hall⟩ :=
    (iterate_delivers (d := graftRequest.dispatch) graft_ready hrested
    (fun _ => 0) 128 0 20 (show ∀ batch ∈ [2, 5, 5], 0 < batch by decide)).exists_of_sure
      ⟨VisitedSet.ids_total 4, by decide⟩
  have hdrained := graft_drained
  rw [hws, Option.bind_eq_bind, Option.bind_some, hqs] at hdrained
  have hend : ∃ q ∈ qs, q.resultNum = 0 := by
    have hmem : 0 ∈ qs.map fun q => q.resultNum := by
      rw [Option.some.inj hdrained]
      decide
    obtain ⟨q, hq, hzero⟩ := List.mem_map.mp hmem
    exact ⟨q, hq, hzero⟩
  exact ⟨ws, qs, hws, hqs, hdelivered, hall ⟨graft_generous.pivots, by decide, by decide⟩ hend⟩

end Sptag.BKT
