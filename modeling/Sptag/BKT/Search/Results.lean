import Sptag.BKT.Search

/-! What a search of the graph returns: the best of all the ids that came to its queue, and without
filters the best of all that it visited. -/

namespace Sptag.COMMON.DistPriorityQueue

open Lib Slots

variable {D : Type} [LinearOrder D] {q : DistPriorityQueue D} {maxDist d : D}
  {ds : List D} {k : Nat}

theorem Tracks.near_of_refused (h : Tracks maxDist k ds q) (hd : d ≤ maxDist)
    (hroot : q.data.nodes 0 < d) :
    k ≤ (ds.filter (· < d)).length := by
  have hfull : q.length = k := h.length_le.antisymm <| not_lt.mp fun hroom => by
    have hmem : maxDist ∈ contents q.data.nodes q.length :=
      (h.contents_eq hroom).2 ▸ Multiset.mem_cons_self _ _
    obtain ⟨i, hi, heq⟩ := mem_contents.mp hmem
    exact (hd.trans (heq ▸ h.heap.le_root hi)).not_gt hroot
  have hnear : ∀ y ∈ contents q.data.nodes q.length, y < d := fun y hy => by
    obtain ⟨i, hi, rfl⟩ := mem_contents.mp hy
    exact (h.heap.le_root hi).trans_lt hroot
  have hle : contents q.data.nodes q.length ≤ (maxDist ::ₘ (ds : Multiset D)).filter (· < d) :=
    Multiset.le_filter.mpr ⟨h.smallest.le, hnear⟩
  rw [Multiset.filter_cons_of_neg (p := (· < d)) _ hd.not_gt, Multiset.filter_coe] at hle
  have hcard := Multiset.card_le_card hle
  rwa [card_contents, hfull, Multiset.coe_card] at hcard

end Sptag.COMMON.DistPriorityQueue

namespace Sptag.BKT

open COMMON Lib Slots BKTree WorkSpace

variable {V D : Type} [LinearOrder D]

/-- The ids that were met, and where they are: examined, or too far for `m_Results`; `measured`
are those it was asked about. -/
structure Progress (D : Type) where
  visited : Finset Nat
  done : Multiset (NodeDistPair D)
  refused : Multiset Nat
  measured : List Nat

/-- What a search keeps between its steps; an id is refused only for `k` nearer ones that
are not. -/
structure Advancing (bound : Nat) (sought : Nat → Prop) (visits : VisitedSet V)
    (index : Index D) (k : Nat)
    (ws : WorkSpace V D) (g : Progress D) : Prop where
  climbing : Climbing bound sought visits index.maxDist index.m_pSamples index.m_pTrees.m_pTreeRoots
    index.m_pTrees.m_pTreeStart ⟨g.done, 0, g.refused⟩ ws g.visited ws.m_SPTQueue.content
  allocated : DistPriorityQueue.Allocated ws.m_Results
  tracks : ws.m_Results.Tracks index.maxDist k (g.measured.map index.m_pSamples.distance)
  nodup : g.measured.Nodup
  subset : ∀ n ∈ g.measured, n ∈ g.visited
  nearer : ∀ n ∈ g.refused, ∃ near : Finset Nat, k ≤ near.card ∧ ∀ m ∈ near,
    m ∈ g.visited ∧ m ∉ g.refused ∧ index.m_pSamples.distance m < index.m_pSamples.distance n

/-- The neighbours of a sample, in the slots from `i` up to `stop` and up to the first negative one,
are visited. -/
def Expanded (index : Index D) (visited : Finset Nat) (n i stop : Nat) : Prop :=
  ∀ j, i ≤ j → j < stop → (∀ j', i ≤ j' → j' ≤ j → 0 ≤ (index.m_pGraph.cell n).cell j') →
    ((index.m_pGraph.cell n).cell j).toNat ∈ visited

structure Follows (g g' : Progress D) : Prop where
  visited : g.visited ⊆ g'.visited
  done : g'.done = g.done

structure Kept (ws ws' : WorkSpace V D) : Prop where
  m_iMaxCheck : ws'.m_iMaxCheck = ws.m_iMaxCheck
  ng : ws'.m_NGQueue.length = ws.m_NGQueue.length
  spt : ws'.m_SPTQueue.length = ws.m_SPTQueue.length

omit [LinearOrder D] in
theorem Follows.refl (g : Progress D) : Follows g g := ⟨le_rfl, rfl⟩

omit [LinearOrder D] in
theorem Follows.trans {g g' g'' : Progress D} (h : Follows g g') (h' : Follows g' g'') :
    Follows g g'' :=
  ⟨h.visited.trans h'.visited, h'.done.trans h.done⟩

omit [LinearOrder D] in
theorem Kept.refl (ws : WorkSpace V D) : Kept ws ws := ⟨rfl, rfl, rfl⟩

omit [LinearOrder D] in
theorem Kept.trans {ws ws' ws'' : WorkSpace V D} (h : Kept ws ws') (h' : Kept ws' ws'') :
    Kept ws ws'' :=
  ⟨h'.m_iMaxCheck.trans h.m_iMaxCheck, h'.ng.trans h.ng, h'.spt.trans h.spt⟩

variable {bound : Nat} {sought : Nat → Prop} {visits : VisitedSet V} {index : Index D}
  {d : Dispatch}
  {k K n id : Nat} {ws ws' : WorkSpace V D} {g : Progress D} {q : QueryResultSet D}
  {M : Multiset (BasicResult D)}

/-- The queue of distances gets a new id, which is refused for the nearer ones or for those that a
nearer one was refused for. -/
theorem Advancing.refuse (h : Advancing bound sought visits index k ws g)
    (hfar : k ≤ ((g.measured.map index.m_pSamples.distance).filter
      (· < index.m_pSamples.distance id)).length) :
    ∃ near : Finset Nat, k ≤ near.card ∧ ∀ m ∈ near, m ∈ g.visited ∧ m ∉ g.refused ∧
      index.m_pSamples.distance m < index.m_pSamples.distance id := by
  by_cases hrefused : ∃ m ∈ g.measured, m ∈ g.refused ∧
      index.m_pSamples.distance m < index.m_pSamples.distance id
  · obtain ⟨m, -, hm, hlt⟩ := hrefused
    obtain ⟨near, hcard, hnear⟩ := h.nearer m hm
    exact ⟨near, hcard, fun m' hm' =>
      ⟨(hnear m' hm').1, (hnear m' hm').2.1, (hnear m' hm').2.2.trans hlt⟩⟩
  · refine ⟨(g.measured.filter fun m => index.m_pSamples.distance m <
      index.m_pSamples.distance id).toFinset, ?_, fun m hm => ?_⟩
    · rw [List.toFinset_card_of_nodup (h.nodup.filter _)]
      rwa [List.filter_map, List.length_map] at hfar
    · rw [List.mem_toFinset, List.mem_filter, decide_eq_true_iff] at hm
      exact ⟨h.subset m hm.1, fun hmem => hrefused ⟨m, hm.1, hmem, hm.2⟩, hm.2⟩

omit [LinearOrder D] in
theorem near_insert [Preorder D] (hnew : id ∉ g.visited) {refused : Multiset Nat}
    (hrefused : ∀ m, m ∈ refused → m ∈ g.refused ∨ m = id) {n : Nat}
    (hnear : ∃ near : Finset Nat, k ≤ near.card ∧ ∀ m ∈ near, m ∈ g.visited ∧ m ∉ g.refused ∧
      index.m_pSamples.distance m < index.m_pSamples.distance n) :
    ∃ near : Finset Nat, k ≤ near.card ∧ ∀ m ∈ near, m ∈ insert id g.visited ∧ m ∉ refused ∧
      index.m_pSamples.distance m < index.m_pSamples.distance n := by
  obtain ⟨near, hcard, hnearer⟩ := hnear
  refine ⟨near, hcard, fun m hm => ?_⟩
  obtain ⟨hvisited, hnot, hlt⟩ := hnearer m hm
  refine ⟨Finset.mem_insert_of_mem hvisited, fun hmem => ?_, hlt⟩
  rcases hrefused m hmem with hmem | rfl
  · exact hnot hmem
  · exact hnew hvisited

theorem visitNeighbor_spec (hs : Sound index visits.bound)
    (h : Advancing bound sought visits index k ws g)
    (hid : id < index.m_pSamples.R) :
    Yields visits.Total (visitNeighbor visits index ws id) fun ws' =>
      ∃ g', Follows g g' ∧ id ∈ g'.visited ∧ Advancing bound sought visits index k ws' g' ∧
        Kept ws ws' := by
  obtain ⟨lost, haccounts⟩ := h.climbing.accounts
  refine (checkAndSet_spec haccounts.holds (hid.trans_le hs.bound)).bind fun r hr => ?_
  obtain ⟨seen, ws₁⟩ := r
  obtain ⟨hseen, nodeCheckStatus, hholds, rfl⟩ := hr
  refine .of_ite (fun htrue => ?_) fun hfalse => .of_exists ?_
  · have hmem := hseen.mp htrue
    rw [Finset.insert_eq_of_mem hmem] at hholds
    exact .pure ⟨g, .refl g, hmem, { h with
      climbing := h.climbing.visit ⟨lost, { haccounts with holds := hholds }⟩ rfl le_rfl },
        rfl, rfl, rfl⟩
  · have hnew : id ∉ g.visited := fun hmem => hfalse (hseen.mpr hmem)
    have hget : index.m_pSamples.get id = some (index.m_pSamples.distance id) :=
      if_pos ⟨Int.natCast_nonneg id, Int.ofNat_lt.mpr hid⟩
    obtain ⟨inserted, results, hinsert, htracks, hinserted⟩ := h.tracks.insert (hs.near id hid).le
    have hallocated := DistPriorityQueue.insert_allocated h.allocated hinsert
    have hleaves : ws.m_iNumberOfCheckedLeaves + 1 ≤ g.visited.card + 1 :=
      add_le_add_left haccounts.checked 1
    have hsubset : ∀ n ∈ id :: g.measured, n ∈ insert id g.visited := fun n hn => by
      rcases List.mem_cons.mp hn with rfl | hn
      · exact Finset.mem_insert_self _ _
      · exact Finset.mem_insert_of_mem (h.subset n hn)
    have hnodup : (id :: g.measured).Nodup :=
      List.nodup_cons.mpr ⟨fun hmem => hnew (h.subset id hmem), h.nodup⟩
    simp only [hget, hinsert, Option.bind_eq_bind, Option.bind_some]
    cases inserted with
    | true =>
      have haccounts' : Accounts visits index.maxDist index.m_pSamples
        { ws with m_Results := results }
          g.visited ⟨g.done, lost, g.refused⟩ := { haccounts with }
      obtain ⟨ws', hws', haccounts'', hmet, -, -⟩ :=
        haccounts'.insertNG hid hnew nodeCheckStatus hholds
        hleaves
      refine ⟨ws', hws', ⟨insert id g.visited, g.done, g.refused, id :: g.measured⟩,
        ⟨Finset.subset_insert _ _, rfl⟩, Finset.mem_insert_self _ _,
        ⟨?_, ?_, ?_, hnodup, hsubset,
          fun n hn => near_insert hnew (fun m hm => .inl hm) (h.nearer n hn)⟩,
        ⟨hmet.m_iMaxCheck, hmet.length, congrArg _ hmet.m_SPTQueue⟩⟩
      · rw [hmet.m_SPTQueue]
        exact h.climbing.visit haccounts'' hmet.m_SPTQueue (Finset.subset_insert _ _)
      · rw [hmet.m_Results]
        exact hallocated
      · rw [hmet.m_Results]
        exact htracks
    | false =>
      have hroot := hinserted.mp rfl
      refine ⟨_, rfl, ⟨insert id g.visited, g.done, id ::ₘ g.refused, id :: g.measured⟩,
        ⟨Finset.subset_insert _ _, rfl⟩, Finset.mem_insert_self _ _,
        ⟨?_, hallocated, htracks, hnodup, hsubset, ?_⟩, rfl, rfl, rfl⟩
      · refine h.climbing.visit ⟨lost, { haccounts with
          holds := hholds
          within := (Finset.forall_mem_insert _ _ _).mpr ⟨hid, haccounts.within⟩
          parts := ?_
          checked := ?_ }⟩ rfl (Finset.subset_insert _ _)
        · rw [Finset.insert_val_of_notMem hnew, haccounts.parts, Multiset.add_cons]
        · rw [Finset.card_insert_of_notMem hnew]
          exact hleaves
      · refine fun n hn => near_insert hnew (fun m hm => (Multiset.mem_cons.mp hm).symm) ?_
        rcases Multiset.mem_cons.mp hn with rfl | hn
        · exact h.refuse (h.tracks.near_of_refused (hs.near n hid).le hroot)
        · exact h.nearer n hn

theorem visitNeighbors_spec (hs : Sound index visits.bound) (hn : n < index.m_pSamples.R)
    (h : Advancing bound sought visits index k ws g) {left i : Nat}
    (hi : i + left ≤ index.m_iNeighborhoodSize) :
    Yields visits.Total (visitNeighbors visits index (index.m_pGraph.cell n) left i ws) fun ws' =>
      ∃ g', Follows g g' ∧ Expanded index g'.visited n i (i + left) ∧
        Advancing bound sought visits index k ws' g' ∧ Kept ws ws' := by
  induction left generalizing i ws g with
  | zero => exact .pure ⟨g, .refl g, fun j hi hj => absurd hj hi.not_gt, h, .refl ws⟩
  | succ left ih =>
    have hget : (index.m_pGraph.cell n).get i = some ((index.m_pGraph.cell n).cell i) :=
      get_of_lt (by rw [hs.row n hn]; omega)
    refine .bind_of_eq hget (.of_ite (fun hneg => .pure ⟨g, .refl g, fun j hi _ hall => ?_, h,
      .refl ws⟩) fun hnonneg => ?_)
    · exact absurd (hall i le_rfl hi) (not_le.mpr hneg)
    obtain ⟨id, hid⟩ := Int.eq_ofNat_of_zero_le (not_lt.mp hnonneg)
    have hlt := hs.entries n hn i (by omega)
    rw [hid] at hlt ⊢
    refine (visitNeighbor_spec hs h (Int.ofNat_lt.mp hlt)).bind fun ws' h' => ?_
    obtain ⟨g', hfollows, hmem, hadvancing, hkept⟩ := h'
    refine (ih hadvancing (by omega)).mono fun ws'' h'' => ?_
    obtain ⟨g'', hfollows', hexpanded, hadvancing', hkept'⟩ := h''
    refine ⟨g'', hfollows.trans hfollows', fun j hi hj hall => ?_, hadvancing', hkept.trans hkept'⟩
    rcases hi.eq_or_lt with rfl | hlt
    · rw [hid, Int.toNat_natCast]
      exact hfollows'.visited hmem
    · exact hexpanded j hlt (by omega) fun j' hi' hj' => hall j' (by omega) hj'

theorem Advancing.explored (h : Advancing bound sought visits index k ws g)
    (hexplored : Explored bound sought visits index.maxDist index.m_pSamples
      index.m_pTrees.m_pTreeRoots
      index.m_pTrees.m_pTreeStart ⟨g.done, 0, g.refused⟩ ws g.visited ws') :
    ∃ g', Follows g g' ∧ Advancing bound sought visits index k ws' g' ∧ Kept ws ws' := by
  obtain ⟨visited', hsub, hclimbing, hclimbed⟩ := hexplored
  refine ⟨{ g with visited := visited' }, ⟨hsub, rfl⟩, ⟨hclimbing, ?_, ?_, h.nodup,
    fun n hn => hsub (h.subset n hn), fun n hn => ?_⟩, hclimbed.m_iMaxCheck,
      hclimbed.ng, hclimbed.spt⟩
  · rw [hclimbed.m_Results]
    exact h.allocated
  · rw [hclimbed.m_Results]
    exact h.tracks
  · obtain ⟨near, hcard, hnear⟩ := h.nearer n hn
    exact ⟨near, hcard, fun m hm => ⟨hsub (hnear m hm).1, (hnear m hm).2⟩⟩

theorem top_lt (hs : Sound index visits.bound) {l : Ledger D} {visited : Finset Nat}
    (h : Climbing bound sought visits index.maxDist index.m_pSamples index.m_pTrees.m_pTreeRoots
      index.m_pTrees.m_pTreeStart l ws visited ws.m_SPTQueue.content)
        (hpos : 0 < ws.m_SPTQueue.count) :
    (ws.m_SPTQueue.heap.nodes 0).distance < index.maxDist := by
  obtain ⟨c, hc, heq⟩ := h.cell (ws.m_SPTQueue.heap.nodes 0) (mem_contents.mpr ⟨0, hpos, rfl⟩)
  rw [heq]
  have := hc.row
  have := hc.nonneg
  exact hs.near _ (by omega)

def Pivots (index : Index D) : Prop :=
  0 < index.m_iNumberOfInitialDynamicPivots ∧ 0 < index.m_iNumberOfOtherDynamicPivots

theorem searchOn_explores (hs : Sound index visits.bound) {l : Ledger D} {visited : Finset Nat}
    (h : Climbing bound sought visits index.maxDist index.m_pSamples index.m_pTrees.m_pTreeRoots
      index.m_pTrees.m_pTreeStart l ws visited ws.m_SPTQueue.content) (rounds : Nat) :
    Yields (visits.Total ∧ bound < rounds) (searchOn visits index rounds ws) fun ws' =>
      Explored bound sought visits index.maxDist index.m_pSamples index.m_pTrees.m_pTreeRoots
        index.m_pTrees.m_pTreeStart l ws visited ws' ∧
        (Pivots index → ws'.m_NGQueue.count = 0 → ws'.m_SPTQueue.count = 0) := by
  obtain ⟨lost, haccounts⟩ := h.accounts
  refine .bind_of_eq haccounts.queue.top (.bind_of_eq h.queue.top
    (.of_ite (fun _ => ?_) fun hle => .pure ⟨⟨visited, le_rfl, h, .refl ws⟩, fun _ hng => ?_⟩))
  · have hwired := hs.searchable.wired
    refine ((searchTrees_spec h hwired hs.bound _ rounds).weaken fun hsure =>
      ⟨hsure.1, h.bounded.trans_lt hsure.2⟩).mono fun ws' h' => ⟨h'.1, fun hpivots hng => ?_⟩
    obtain ⟨⟨visited', -, -, hclimbed⟩, hend⟩ := h'
    rcases hend with hzero | hlimit
    · exact hzero
    · rcases hclimbed.leaf with hsame | hpos
      · have := hpivots.2
        rw [hsame] at hlimit
        omega
      · exact absurd hng hpos.ne'
  · by_contra hspt
    refine hle ?_
    rw [if_pos hng, if_neg hspt]
    exact top_lt hs h (Nat.pos_of_ne_zero hspt)

theorem searchOn_spec (hs : Sound index visits.bound)
    (h : Advancing bound sought visits index k ws g)
    (rounds : Nat) :
    Yields (visits.Total ∧ bound < rounds) (searchOn visits index rounds ws) fun ws' =>
      (∃ g', Follows g g' ∧ Advancing bound sought visits index k ws' g' ∧ Kept ws ws') ∧
        (Pivots index → ws'.m_NGQueue.count = 0 → ws'.m_SPTQueue.count = 0) :=
  (searchOn_explores hs h.climbing rounds).mono fun _ h' => ⟨h.explored h'.1, h'.2⟩

def offered (index : Index D) (d : Dispatch) (nodes : Multiset (NodeDistPair D)) :
    Multiset (BasicResult D) := nodes.bind (candidates index d)

omit [LinearOrder D] in
theorem offered_add (nodes nodes' : Multiset (NodeDistPair D)) :
    offered index d (nodes + nodes') = offered index d nodes + offered index d nodes' :=
  Multiset.add_bind ..

omit [LinearOrder D] in
theorem offered_cons (x : NodeDistPair D) (nodes : Multiset (NodeDistPair D)) :
    offered index d (x ::ₘ nodes) = candidates index d x + offered index d nodes :=
      Multiset.cons_bind ..

def Ranked (index : Index D) (d : Dispatch) (K : Nat) (nodes : Multiset (NodeDistPair D))
    (q : QueryResultSet D) : Prop :=
  q.Best K (offered index d nodes + Multiset.replicate K ⟨-1, index.maxDist⟩)

def IsPair (data : Samples D) (x : NodeDistPair D) : Prop :=
  ∃ n < data.R, x = ⟨n, data.distance n⟩

theorem Advancing.pair (h : Advancing bound sought visits index k ws g) {x : NodeDistPair D}
    (hx : x ∈ g.done + ws.m_NGQueue.content) : IsPair index.m_pSamples x := by
  obtain ⟨lost, haccounts⟩ := h.climbing.accounts
  have hmem : x ∈ g.done + ws.m_NGQueue.content + lost := Multiset.mem_add.mpr (.inl hx)
  obtain ⟨hnonneg, hdist⟩ := haccounts.real x hmem
  have hvisited : x.node.toNat ∈ g.visited.val := by
    rw [haccounts.parts]
    exact Multiset.mem_add.mpr (.inl (Multiset.mem_map_of_mem _ hmem))
  refine ⟨x.node.toNat, haccounts.within _ hvisited, ?_⟩
  rw [← hdist, Int.toNat_of_nonneg hnonneg]

theorem Advancing.pop (h : Advancing bound sought visits index k ws g) {x : NodeDistPair D}
    {queue : Heap (NodeDistPair D)}
    (hqueue : queue.OrderedBy NodeDistPair.distance (blank index.maxDist))
    (hlength : queue.length = ws.m_NGQueue.length)
    (hcontent : ws.m_NGQueue.content = x ::ₘ queue.content) :
    Advancing bound sought visits index k { ws with m_NGQueue := queue }
      { g with done := x ::ₘ g.done } := by
  obtain ⟨lost, haccounts⟩ := h.climbing.accounts
  have hparts : x ::ₘ g.done + queue.content = g.done + ws.m_NGQueue.content := by
    rw [hcontent, Multiset.cons_add, Multiset.add_cons]
  refine ⟨h.climbing.visit ⟨lost, haccounts.holds, hqueue, haccounts.within, ?_, ?_, ?_,
    haccounts.checked⟩ rfl le_rfl, h.allocated, h.tracks, h.nodup, h.subset, h.nearer⟩
  · dsimp only
    rw [hparts]
    exact haccounts.parts
  · dsimp only
    rw [hparts]
    exact haccounts.real
  · dsimp only
    rw [hlength]
    exact haccounts.room

theorem Advancing.card_done_le (h : Advancing bound sought visits index k ws g) :
    g.done.card ≤ index.m_pSamples.R := by
  obtain ⟨lost, haccounts⟩ := h.climbing.accounts
  have hle := Finset.card_le_card (show g.visited ⊆ Finset.range index.m_pSamples.R from
    fun n hn => Finset.mem_range.mpr (haccounts.within n hn))
  rw [Finset.card_range, Finset.card_def, haccounts.parts] at hle
  simp only [Multiset.card_add, Multiset.card_map] at hle
  omega

def Spread (index : Index D) (visited : Finset Nat) (x : NodeDistPair D) : Prop :=
  Expanded index visited x.node.toNat 0 index.m_iNeighborhoodSize

omit [LinearOrder D] in
theorem Spread.mono {visited visited' : Finset Nat} {x : NodeDistPair D}
    (h : Spread index visited x) (hsub : visited ⊆ visited') : Spread index visited' x :=
  fun j hi hj hall => hsub (h j hi hj hall)

def Stops (ws : WorkSpace V D) (x : NodeDistPair D) : Prop :=
  ∃ worst, ws.m_Results.worst = some worst ∧
    (worst < x.distance ∨ ws.m_iMaxCheck < ws.m_iNumberOfCheckedLeaves)

/-- How far a turn gets: one node is examined, and where the search returns, all that is left is
farther than the results. -/
structure Turned (bound : Nat) (sought : Nat → Prop) (visits : VisitedSet V) (index : Index D)
    (d : Dispatch) (k K : Nat) (ws : WorkSpace V D) (g : Progress D) (returns : Bool)
    (q' : QueryResultSet D) (ws' : WorkSpace V D) (g' : Progress D) : Prop where
  advancing : Advancing bound sought visits index k ws' g'
  ranked : Ranked index d K g'.done q'
  examined : g'.done.card = g.done.card + 1
  visited : g.visited ⊆ g'.visited
  kept : Kept ws ws'
  left : returns = true → ∀ y ∈ ws'.m_NGQueue.content, q'.worstDist < y.distance
  early : returns = true → ∃ x, g'.done = x ::ₘ g.done ∧ Stops ws' x
  spread : returns = false → ∃ x, g'.done = x ::ₘ g.done ∧ Spread index g'.visited x
  lively : returns = false → Pivots index → ws'.m_NGQueue.count = 0 →
    ws'.m_SPTQueue.count = 0

theorem turn_spec (hs : Sound index visits.bound) (h : Advancing bound sought visits index k ws g)
    (hranked : Ranked index d K g.done q) (hpos : 0 < ws.m_NGQueue.count) (rounds : Nat) :
    Yields (visits.Total ∧ bound < rounds) (turn visits index d rounds q ws) fun r =>
      ∃ g', Turned bound sought visits index d k K ws g r.1 r.2.1 r.2.2 g' := by
  obtain ⟨lost, haccounts⟩ := h.climbing.accounts
  obtain ⟨x, queue, hpop, hordered, hlength, hleast, hcontent⟩ := haccounts.queue.pop hpos
  obtain ⟨n, hn, hx⟩ := h.pair (x := x) (by
    rw [hcontent]
    exact Multiset.mem_add.mpr (.inr (Multiset.mem_cons_self _ _)))
  have hpopped := h.pop hordered hlength hcontent
  have hworst : ∃ worst, ws.m_Results.worst = some worst := by
    refine ⟨_, h.tracks.worst_eq fun d hd => ?_⟩
    obtain ⟨m, hm, rfl⟩ := List.mem_map.mp hd
    exact (hs.near m (haccounts.within m (h.subset m hm))).le
  obtain ⟨worst, hworst⟩ := hworst
  have hrow : rowAt index x.node = some (index.m_pGraph.cell n) := by
    rw [hx, rowAt, if_neg (not_lt.mpr (Int.natCast_nonneg n)), Int.toNat_natCast]
    exact get_of_lt (hs.rows ▸ hn)
  have hworst' : ({ ws with m_NGQueue := queue } : WorkSpace V D).m_Results.worst =
    some worst := hworst
  obtain ⟨⟨returns, q'⟩, hexamine, hbest, hreturns⟩ := examine_spec (d := d) hs hn
    (congrArg NodeDistPair.node hx) hranked hworst'
  have hranked' : Ranked index d K (x ::ₘ g.done) q' := by
    rw [Ranked, offered_cons, Multiset.add_assoc]
    exact hbest
  refine .bind_of_eq hpop (.bind_of_eq hrow (.bind_of_eq hexamine
    (.of_ite (fun htrue => .pure ?_) fun hfalse => ?_)))
  · obtain ⟨rfl, hlt, hearly⟩ := hreturns htrue
    refine ⟨_, hpopped, hranked', Multiset.card_cons _ _, le_rfl, ⟨rfl, hlength, rfl⟩,
      fun _ y hy => ?_,
      fun _ => ⟨x, rfl, worst, hworst, hearly⟩, fun hfalse => ?_, fun hfalse => ?_⟩
    · exact hlt.trans_le (hleast y (hcontent ▸ Multiset.mem_cons_of_mem hy))
    · exact absurd hfalse (by simp)
    · exact absurd hfalse (by simp)
  · refine ((visitNeighbors_spec hs hn hpopped (Nat.zero_add _).le).weaken And.left).bind
      fun ws' h' => ?_
    obtain ⟨g', hfollows, hexpanded, hadvancing, hkept⟩ := h'
    have hspread : Spread index g'.visited x := by
      rwa [Spread, hx, Int.toNat_natCast, ← Nat.zero_add index.m_iNeighborhoodSize]
    refine (searchOn_spec hs hadvancing rounds).bind fun ws'' h'' => .pure ?_
    obtain ⟨⟨g'', hfollows', hadvancing', hkept'⟩, hlively⟩ := h''
    have hdone : g''.done = x ::ₘ g.done := hfollows'.done.trans hfollows.done
    have hkept'' : Kept ws { ws with m_NGQueue := queue } := ⟨rfl, hlength, rfl⟩
    refine ⟨g'', hadvancing', hdone ▸ hranked', ?_, hfollows.visited.trans hfollows'.visited,
      (hkept''.trans hkept).trans hkept', nofun, nofun,
      fun _ => ⟨x, hdone, hspread.mono hfollows'.visited⟩, fun _ => hlively⟩
    rw [hdone, Multiset.card_cons]

/-- How a search ends: with the best of what was examined and of what still waits. It stops at a
sample, or goes on until nothing waits. -/
structure Ended (bound : Nat) (sought : Nat → Prop) (visits : VisitedSet V) (index : Index D)
    (d : Dispatch) (k K : Nat) (ws : WorkSpace V D) (q' : QueryResultSet D) (ws' : WorkSpace V D)
    (g' : Progress D) : Prop where
  advancing : Advancing bound sought visits index k ws' g'
  ranked : ∃ q, q' = q.sortResult ∧ Ranked index d K (g'.done + ws'.m_NGQueue.content) q
  kept : Kept ws ws'
  whole : (∃ x ∈ g'.done, Stops ws' x ∧ ∀ y ∈ g'.done, y = x ∨ Spread index g'.visited y) ∨
    (ws'.m_NGQueue.count = 0 ∧ (∀ y ∈ g'.done, Spread index g'.visited y) ∧
      (Pivots index → ws'.m_SPTQueue.count = 0))

theorem Ranked.skip {nodes nodes' : Multiset (NodeDistPair D)} (h : Ranked index d K nodes q)
    (hfar : ∀ y ∈ nodes', q.worstDist < y.distance) : Ranked index d K (nodes + nodes') q := by
  rw [Ranked, offered_add, Multiset.add_comm (offered index d nodes), Multiset.add_assoc]
  refine h.skip_all fun r hr => ?_
  obtain ⟨y, hy, hr⟩ := Multiset.mem_bind.mp hr
  obtain ⟨hdist, -, -⟩ := dist_of_mem_offers hr
  exact QueryResultSet.le_of_worstDist (hdist ▸ hfar y hy)

theorem searchLoop_spec (hs : Sound index visits.bound)
    (h : Advancing bound sought visits index k ws g)
    (hranked : Ranked index d K g.done q) (hspread : ∀ y ∈ g.done, Spread index g.visited y)
    (hlively : Pivots index → ws.m_NGQueue.count = 0 →
      ws.m_SPTQueue.count = 0) (rounds turns : Nat) :
    Yields (visits.Total ∧ bound < rounds ∧ index.m_pSamples.R < turns + g.done.card)
      (searchLoop visits index d rounds turns q ws) fun r =>
        ∃ g', Ended bound sought visits index d k K ws r.1 r.2 g' := by
  induction turns generalizing q ws g with
  | zero =>
    refine ⟨nofun, fun hsure => absurd hsure.2.2 ?_⟩
    rw [Nat.zero_add]
    exact h.card_done_le.not_gt
  | succ turns ih =>
    refine .of_ite (fun hzero => .pure ⟨g, h, ⟨q, rfl, ?_⟩, .refl ws,
      .inr ⟨hzero, hspread, fun hpivots => hlively hpivots hzero⟩⟩) fun hpos => ?_
    · rwa [content_of_count hzero, Multiset.add_zero]
    · refine ((turn_spec hs h hranked (Nat.pos_of_ne_zero hpos) rounds).weaken fun hsure =>
        ⟨hsure.1, hsure.2.1⟩).bind fun r hr => ?_
      obtain ⟨returns, q', ws'⟩ := r
      obtain ⟨g', hturned⟩ := hr
      have hkeeps : ∀ y ∈ g.done, Spread index g'.visited y := fun y hy =>
        (hspread y hy).mono hturned.visited
      refine .of_ite (fun htrue => .pure ⟨g', hturned.advancing,
        ⟨q', rfl, hturned.ranked.skip (hturned.left htrue)⟩, hturned.kept, .inl ?_⟩)
          fun hfalse => ?_
      · obtain ⟨x, hdone, hstops⟩ := hturned.early htrue
        rw [hdone]
        exact ⟨x, Multiset.mem_cons_self _ _, hstops, fun y hy =>
          (Multiset.mem_cons.mp hy).imp_right (hkeeps y)⟩
      have hgoes := Bool.eq_false_iff.mpr hfalse
      have hspread' : ∀ y ∈ g'.done, Spread index g'.visited y := by
        obtain ⟨x, hdone, hx⟩ := hturned.spread hgoes
        rw [hdone]
        exact Multiset.forall_mem_cons.mpr ⟨hx, hkeeps⟩
      refine ((ih hturned.advancing hturned.ranked hspread' (hturned.lively hgoes)).weaken
        fun hsure => ⟨hsure.1, hsure.2.1, ?_⟩).mono fun r' hr' => ?_
      · rw [hturned.examined]
        omega
      · obtain ⟨g'', hended⟩ := hr'
        exact ⟨g'', hended.advancing, hended.ranked, hturned.kept.trans hended.kept, hended.whole⟩

def treeNodes (index : Index D) : Multiset Nat :=
  subtrees index.m_pTrees.m_pTreeRoots
    (seedCells index.m_pSamples index.m_pTrees.m_pTreeRoots index.m_pTrees.m_pTreeStart)

def turns (index : Index D) : Nat :=
  max (max index.m_pTrees.m_pTreeStart.length (treeNodes index).card) index.m_pSamples.R

theorem climbing_of_fresh (hs : Sound index visits.bound) {maxCheck : Int}
    (h : Fresh visits index.maxDist maxCheck k ws) :
    Climbing (treeNodes index).card (· ∈ treeNodes index) visits index.maxDist index.m_pSamples
      index.m_pTrees.m_pTreeRoots index.m_pTrees.m_pTreeStart ⟨0, 0, 0⟩ ws ∅
      (seedCells index.m_pSamples index.m_pTrees.m_pTreeRoots index.m_pTrees.m_pTreeStart +
        ws.m_SPTQueue.content) := by
  have hnone := content_of_count h.ngCount
  rw [content_of_count h.sptCount, Multiset.add_zero]
  refine ⟨⟨0, h.empty, h.ng, fun n hn =>
    absurd hn (Finset.notMem_empty n), ?_, fun x hx => ?_, .inl rfl,
    h.checked.le⟩, h.spt, fun x hx => ?_, le_rfl, fun _ k hk => .inr hk⟩
  · rw [hnone]
    rfl
  · rw [hnone] at hx
    exact absurd hx (Multiset.notMem_zero x)
  · obtain ⟨k, hk, rfl⟩ := List.mem_map.mp (Multiset.mem_coe.mp hx)
    obtain ⟨start, hstart, hk⟩ := List.mem_flatMap.mp hk
    exact ⟨k, centred_seeds hs.searchable.wired (hs.searchable.starts start hstart) k hk, rfl⟩

omit [LinearOrder D] in
theorem turns_lt {rounds : Nat} (h : turns index < rounds) :
    index.m_pTrees.m_pTreeStart.length < rounds ∧
    (treeNodes index).card < rounds ∧ index.m_pSamples.R < rounds := by
  unfold turns at h
  omega

/-- After the first search of the trees nothing has been examined, and if nothing has been found
then nothing is left of the trees. -/
theorem descent_spec (hs : Sound index visits.bound) {maxCheck : Int}
    (h : Fresh visits index.maxDist maxCheck k ws) (rounds : Nat) :
    Yields (visits.Total ∧ turns index < rounds) (descent visits index rounds ws) fun ws' =>
      Explored (treeNodes index).card (· ∈ treeNodes index) visits index.maxDist index.m_pSamples
        index.m_pTrees.m_pTreeRoots index.m_pTrees.m_pTreeStart ⟨0, 0, 0⟩ ws ∅ ws' ∧
        (Pivots index → ws'.m_NGQueue.count = 0 → ws'.m_SPTQueue.count = 0) := by
  refine ((initSearchTrees_spec hs.searchable hs.bound (List.nil_append _).symm
    (climbing_of_fresh hs h)
    rounds).weaken fun hsure => ⟨hsure.1, (turns_lt hsure.2).1⟩).bind fun ws₁ h₁ => ?_
  obtain ⟨visited₁, hsub₁, hclimbing₁, hclimbed₁⟩ := h₁
  refine ((searchTrees_spec hclimbing₁ hs.searchable.wired hs.bound _ rounds).weaken fun hsure =>
    ⟨hsure.1, hclimbing₁.bounded.trans_lt (turns_lt hsure.2).2.1⟩).mono fun ws₂ h₂ => ?_
  obtain ⟨hexplored, hend⟩ := h₂
  have hexplored' := hexplored.after hsub₁ hclimbed₁
  refine ⟨hexplored', fun hpivots hng => ?_⟩
  obtain ⟨visited₂, -, -, hclimbed⟩ := hexplored'
  rcases hend with hzero | hlimit
  · exact hzero
  · rcases hclimbed.leaf with hsame | hpos
    · have := hpivots.1
      rw [hsame, h.checked] at hlimit
      omega
    · exact absurd hng hpos.ne'

theorem search_spec (hs : Sound index visits.bound) {maxCheck : Int}
    (h : Fresh visits index.maxDist maxCheck k ws) (hranked : Ranked index d K 0 q) (rounds : Nat) :
    Yields (visits.Total ∧ turns index < rounds) (search visits index d rounds q ws) fun r =>
      ∃ g', Ended (treeNodes index).card (· ∈ treeNodes index) visits index d k K ws
        r.1 r.2 g' := by
  refine (descent_spec hs h rounds).bind fun ws₁ h₁ => ?_
  obtain ⟨⟨visited₁, -, hclimbing, hclimbed⟩, hlively⟩ := h₁
  have hadvancing : Advancing (treeNodes index).card (· ∈ treeNodes index) visits index k ws₁
      ⟨visited₁, 0, 0, []⟩ := by
    refine ⟨hclimbing, ?_, ?_, List.nodup_nil, fun n hn => absurd hn List.not_mem_nil,
      fun n hn => absurd hn (Multiset.notMem_zero n)⟩
    · rw [hclimbed.m_Results]
      exact h.results
    · rw [hclimbed.m_Results]
      exact h.tracks
  refine ((searchLoop_spec hs hadvancing hranked (fun y hy => absurd hy (Multiset.notMem_zero y))
    hlively rounds rounds).weaken fun hsure =>
    ⟨hsure.1, (turns_lt hsure.2).2.1, (turns_lt hsure.2).2.2⟩).mono fun r hr => ?_
  obtain ⟨g', hended⟩ := hr
  exact ⟨g', hended.advancing, hended.ranked, ⟨hended.kept.m_iMaxCheck.trans hclimbed.m_iMaxCheck,
    hended.kept.ng.trans hclimbed.ng, hended.kept.spt.trans hclimbed.spt⟩, hended.whole⟩

end Sptag.BKT
