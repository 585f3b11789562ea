import Sptag.BKT.Search.Results
import Sptag.Common.BKTree.Built

/-! `Index::SearchIndex` of `src/Core/BKT/BKTIndex.cpp`: the work space of a search was used for
other searches before, and is returned for others. -/

namespace Sptag.BKT

open COMMON Lib Slots BKTree WorkSpace

variable {V D : Type} [LinearOrder D]

structure Deleted where
  Count : Nat
  Contains : Int → Bool

structure Request (D : Type) where
  index : Index D
  m_deletedID : Deleted
  filterFunc : Option (Int → Bool)
  m_iMaxCheck : Int
  p_maxCheck : Int
  p_searchDeleted : Bool
  p_searchDuplicated : Bool
  p_query : QueryResultSet D

namespace Request

def dispatch (r : Request D) : Dispatch where
  notDeleted id := decide (r.m_deletedID.Count = 0) || r.p_searchDeleted ||
    !r.m_deletedID.Contains id
  checkFilter id := r.filterFunc.elim true fun filterFunc => filterFunc id
  checkDup := r.p_searchDuplicated

def maxCheck (r : Request D) : Int := if 0 < r.p_maxCheck then r.p_maxCheck else r.m_iMaxCheck

def room (r : Request D) : Nat := (max (r.maxCheck.tdiv 16) r.p_query.resultNum).toNat

end Request

section Source

variable (visits : VisitedSet V) (fresh : Nat → D) (rounds : Nat)

def searchIndex (r : Request D) (ws : WorkSpace V D) :
    Option (QueryResultSet D × WorkSpace V D) := do
  let ws ← ws.reset visits r.index.maxDist fresh r.maxCheck r.p_query.resultNum
  search visits r.index r.dispatch rounds (r.p_query.reset r.index.maxDist) ws

/-- Searches that rent the same work space, one after another; each result with the work space as
the search returns it. -/
def searches : List (Request D) → WorkSpace V D → Option (List (QueryResultSet D × WorkSpace V D))
  | [], _ => some []
  | r :: rs, ws => do
    let a ← searchIndex visits fresh rounds r ws
    let as ← searches rs a.2
    return a :: as

end Source

variable {visits : VisitedSet V} {index : Index D} {d : Dispatch} {bound n k K : Nat}
  {sought : Nat → Prop} {ws ws' : WorkSpace V D} {g : Progress D} {q : QueryResultSet D}
  {r : Request D} {x : NodeDistPair D}

def graft : BKTree :=
  { BKTree.new 1 2 1 with
    m_pTreeStart := [0]
    m_pTreeRoots := ⟨5, fun k => [⟨3, 1, 3⟩, ⟨0, -3, 4⟩, .new 2, .new 1].getD k (.new (-1))⟩ }

def graftRequest : Request Nat where
  index := {
    m_pSamples := ⟨4, fun n => [5, 5, 9, 2].getD n 0⟩
    m_pTrees := graft
    m_pGraph := ⟨4, fun n => ⟨2, fun i =>
      ([[2, -3], [0, -1], [3, 0], [2, -1]].getD n []).getD i (-1)⟩⟩
    m_iNeighborhoodSize := 2
    m_iNumberOfInitialDynamicPivots := 1
    m_iNumberOfOtherDynamicPivots := 1
    m_bfs := ⟨0, fun d => d, 99⟩
    maxDist := 100 }
  m_deletedID := ⟨1, fun id => decide (id = 2)⟩
  filterFunc := none
  m_iMaxCheck := 128
  p_maxCheck := 0
  p_searchDeleted := false
  p_searchDuplicated := true
  p_query := ⟨fun _ => ⟨0, 0⟩, 2⟩

theorem graft_linked {k : Nat} (h : Linked graft.m_pTreeRoots graft.m_pTreeStart k) : k < 3 := by
  have hchildren : ∀ k < 3, ∀ c ∈ children (inner graft.m_pTreeRoots) k, c < 3 := by decide
  induction h with
  | start hk => exact (List.mem_singleton.mp hk).symm ▸ Nat.zero_lt_succ 2
  | child _ hc ih => exact hchildren _ ih _ hc

theorem graft_searchable : Searchable graft 4 where
  wired := by
    refine ⟨by unfold Downward; decide, fun k hk c hc => ?_⟩
    have hcenters : ∀ c < 3, c ≠ 0 →
        0 ≤ (graft.m_pTreeRoots.cell c).centerid ∧ (graft.m_pTreeRoots.cell c).centerid <
          4 := by decide
    have hchildren : ∀ k < 3, ∀ c ∈ children (inner graft.m_pTreeRoots) k, c ≠ 0 := by decide
    have hlinked : Linked graft.m_pTreeRoots graft.m_pTreeStart c := .child hk hc
    obtain ⟨hnonneg, hrow⟩ := hcenters c (graft_linked hlinked) (hchildren k (graft_linked hk) c hc)
    exact ⟨hlinked, (graft_linked hlinked).trans (by decide), hnonneg, hrow⟩
  starts start hstart := by
    obtain rfl := List.mem_singleton.mp hstart
    exact ⟨.start hstart, by decide, fun hleaf => absurd hleaf (by decide)⟩
  number := rfl
  char := by decide

theorem graft_sound : Sound graftRequest.index 4 where
  searchable := graft_searchable
  bound := le_rfl
  rows := rfl
  size := Nat.two_pos
  row _ _ := rfl
  entries := by decide
  marks n hn hmark := by
    have hfirst : ∀ n < 4, mark graftRequest.index n < -1 → n = 0 := by decide
    obtain rfl := hfirst n hn hmark
    exact ⟨by decide, fun _ => by decide⟩
  sorted := by decide
  near := by decide

theorem graft_rested : ∃ ws, WorkSpace.new 100 (fun _ => 0) ∅ 128 = some ws ∧
    Rested (VisitedSet.ids 4) graftRequest.index.maxDist ws :=
  rested_new _ rfl (by decide) (by decide)

def brought (index : Index D) (d : Dispatch) (n : Nat) : Multiset (BasicResult D) :=
  offers d ((n : Int) :: clustered index n) (index.m_pSamples.distance n)

def listing (index : Index D) (d : Dispatch) (K : Nat) (met : Finset Nat) : List (BasicResult D) :=
  let points := met.val.bind (brought index d)
  points.sort.take K ++ List.replicate (K - points.card) ⟨-1, index.maxDist⟩

def Outdone (r : Request D) (ids : Finset Nat) (n : Nat) : Prop :=
  ∃ near ⊆ ids, r.room ≤ near.card ∧
    ∀ m ∈ near, r.index.m_pSamples.distance m < r.index.m_pSamples.distance n

/-- What a search leaves. The samples that were met have been examined or wait. Either it stopped
at one of them, or nothing waits and no neighbour and no node of the trees was left out. -/
structure Finished (visits : VisitedSet V) (r : Request D) (ws : WorkSpace V D)
    (visited met : Finset Nat) :
    Prop where
  holds : visits.Holds ws.nodeCheckStatus visited
  within : ∀ n ∈ visited, n < r.index.m_pSamples.R
  subset : met ⊆ visited
  waiting : ∀ x ∈ ws.m_NGQueue.content, x.node.toNat ∈ met
  whole : (∃ n ∈ met, (r.maxCheck < visited.card ∨ Outdone r visited n) ∧ ∀ m ∈ met, m = n ∨
      ⟨m, r.index.m_pSamples.distance m⟩ ∈ ws.m_NGQueue.content ∨
        Expanded r.index visited m 0 r.index.m_iNeighborhoodSize) ∨
    (ws.m_NGQueue.count = 0 ∧ (∀ m ∈ met,
      Expanded r.index visited m 0 r.index.m_iNeighborhoodSize) ∧
      (Pivots r.index → (treeNodes r.index).card ≤ sptSize r.maxCheck →
        ∀ k ∈ treeNodes r.index, Passed r.index.m_pTrees.m_pTreeRoots visited k))

/-- The results are the best of what the samples that were met bring. A sample that was visited
and not met is behind as many of them as there is room for. -/
structure Answered (visits : VisitedSet V) (r : Request D) (q : QueryResultSet D)
    (ws : WorkSpace V D)
    (visited met : Finset Nat) : Prop extends Finished visits r ws visited met where
  resultNum : q.resultNum = r.p_query.resultNum
  toList : q.toList = listing r.index r.dispatch r.p_query.resultNum met
  nearer : r.index.m_pSamples.R ≤ ngSize r.maxCheck → ∀ n ∈ visited, n ∉ met → Outdone r met n

omit [LinearOrder D] in
theorem offered_eq_bind {nodes : Multiset (NodeDistPair D)}
    (h : ∀ x ∈ nodes, IsPair index.m_pSamples x) :
    offered index d nodes = (nodes.map fun x => x.node.toNat).bind (brought index d) := by
  rw [offered, Multiset.bind_map]
  refine Multiset.bind_congr fun x hx => ?_
  obtain ⟨n, -, rfl⟩ := h x hx
  rfl

theorem dist_lt_of_mem_brought (hs : Sound index bound) (hn : n < index.m_pSamples.R)
    {p : BasicResult D} (hp : p ∈ brought index d n) : p.dist < index.maxDist := by
  rw [(dist_of_mem_offers hp).1]
  exact hs.near n hn

def Progress.met (g : Progress D) (ws : WorkSpace V D) : Finset Nat :=
  ((g.done + ws.m_NGQueue.content).map fun x => x.node.toNat).toFinset

theorem Advancing.parts (h : Advancing bound sought visits index k ws g) :
    ∃ rest, g.visited.val = (g.done + ws.m_NGQueue.content).map (fun x => x.node.toNat) + rest := by
  obtain ⟨lost, haccounts⟩ := h.climbing.accounts
  refine ⟨lost.map (fun x => x.node.toNat) + g.refused, ?_⟩
  rw [haccounts.parts, Multiset.map_add _ (_ + _) lost, Multiset.add_assoc]

theorem Advancing.met_val (h : Advancing bound sought visits index k ws g) :
    (g.met ws).val = (g.done + ws.m_NGQueue.content).map fun x => x.node.toNat := by
  obtain ⟨rest, hparts⟩ := h.parts
  have hnodup := g.visited.nodup
  rw [hparts] at hnodup
  exact (Multiset.nodup_add.mp hnodup).1.dedup

theorem Advancing.met_subset (h : Advancing bound sought visits index k ws g) :
    g.met ws ⊆ g.visited := by
  obtain ⟨rest, hparts⟩ := h.parts
  rw [← Finset.val_le_iff, h.met_val, hparts]
  exact Multiset.le_add_right _ _

theorem Advancing.of_mem_met (h : Advancing bound sought visits index k ws g) (hn : n ∈ g.met ws) :
    ⟨n, index.m_pSamples.distance n⟩ ∈ g.done ∨
      ⟨n, index.m_pSamples.distance n⟩ ∈ ws.m_NGQueue.content := by
  rw [Progress.met, Multiset.mem_toFinset] at hn
  obtain ⟨x, hx, rfl⟩ := Multiset.mem_map.mp hn
  obtain ⟨m, -, rfl⟩ := h.pair hx
  exact Multiset.mem_add.mp hx

omit [LinearOrder D] in
theorem Progress.mem_met (h : x ∈ g.done + ws.m_NGQueue.content) : x.node.toNat ∈ g.met ws :=
  Multiset.mem_toFinset.mpr (Multiset.mem_map_of_mem _ h)

theorem Advancing.nearer_of_room (h : Advancing bound sought visits index k ws g)
    (hroom : index.m_pSamples.R ≤ ws.m_NGQueue.length) :
    (∀ n ∈ g.visited, n ∉ g.met ws → n ∈ g.refused) ∧ ∀ n ∈ g.visited, n ∉ g.met ws →
      ∃ near ⊆ g.met ws, k ≤ near.card ∧
        ∀ m ∈ near, index.m_pSamples.distance m < index.m_pSamples.distance n := by
  obtain ⟨lost, haccounts⟩ := h.climbing.accounts
  have hparts : g.visited.val = (g.met ws).val + g.refused := by
    rcases haccounts.room with hlost | hsmall
    · rw [h.met_val, haccounts.parts, show lost = 0 from hlost, Multiset.add_zero]
    · exact absurd hsmall hroom.not_gt
  have hrefused : ∀ n ∈ g.visited, n ∉ g.met ws → n ∈ g.refused := fun n hn hnot => by
    rw [← Finset.mem_val, hparts, Multiset.mem_add] at hn
    exact hn.resolve_left hnot
  refine ⟨hrefused, fun n hn hnot => ?_⟩
  obtain ⟨near, hcard, hnear⟩ := h.nearer n (hrefused n hn hnot)
  refine ⟨near, fun m hm => ?_, hcard, fun m hm => (hnear m hm).2.2⟩
  by_contra hmet
  exact (hnear m hm).2.1 (hrefused m (hnear m hm).1 hmet)

theorem Ended.toList (hs : Sound index bound) (h : Ended k sought visits index d n K ws q ws' g) :
    q.resultNum = K ∧ q.toList = listing index d K (g.met ws') := by
  obtain ⟨q', rfl, hranked⟩ := h.ranked
  have hmet := h.advancing.met_val
  obtain ⟨lost, haccounts⟩ := h.advancing.climbing.accounts
  have hoffered : offered index d (g.done + ws'.m_NGQueue.content) =
      (g.met ws').val.bind (brought index d) := by
    rw [hmet]
    exact offered_eq_bind fun x hx => h.advancing.pair hx
  rw [Ranked, hoffered] at hranked
  refine ⟨hranked.resultNum, hranked.toList_reset fun p hp => ?_⟩
  obtain ⟨m, hm, hp⟩ := Multiset.mem_bind.mp hp
  exact dist_lt_of_mem_brought hs (haccounts.within m (h.advancing.met_subset hm)) hp

theorem ranked_reset (index : Index D) (d : Dispatch) (q : QueryResultSet D)
    (hq : 0 < q.resultNum) :
    Ranked index d q.resultNum 0 (q.reset index.maxDist) := by
  rw [Ranked, offered, Multiset.zero_bind, Multiset.zero_add]
  exact QueryResultSet.best_reset q hq index.maxDist

theorem Ended.rested (h : Ended bound sought visits index d k K ws q ws' g) :
    Rested visits index.maxDist ws' := by
  obtain ⟨lost, haccounts⟩ := h.advancing.climbing.accounts
  exact ⟨⟨_, haccounts.holds⟩, haccounts.queue, h.advancing.climbing.queue, h.advancing.allocated⟩

theorem searchIndex_spec (hs : Sound r.index visits.bound) (hq : 0 < r.p_query.resultNum)
    (h : Rested visits r.index.maxDist ws) (fresh : Nat → D) (rounds : Nat) :
    Yields (visits.Total ∧ turns r.index < rounds) (searchIndex visits fresh rounds r ws) fun a =>
      ∃ ws₀ g, Fresh visits r.index.maxDist r.maxCheck r.room ws₀ ∧
        Ended (treeNodes r.index).card (· ∈ treeNodes r.index) visits r.index r.dispatch r.room
          r.p_query.resultNum ws₀ a.1 a.2 g := by
  have hpos : 0 < max (r.maxCheck.tdiv 16) r.p_query.resultNum :=
    (Int.natCast_pos.mpr hq).trans_le (le_max_right _ _)
  obtain ⟨ws₀, hreset, hfresh⟩ := h.reset fresh hpos
  refine .bind_of_eq hreset ((search_spec hs hfresh (ranked_reset _ _ _ hq) rounds).mono
    fun a ha => ?_)
  obtain ⟨g, hended⟩ := ha
  exact ⟨ws₀, g, hfresh, hended⟩

theorem Advancing.stops (hs : Sound r.index bound)
    (h : Advancing k sought visits r.index r.room ws g) (hn : n < r.index.m_pSamples.R)
    (hstops : Stops ws ⟨n, r.index.m_pSamples.distance n⟩) (hlimit : ws.m_iMaxCheck = r.maxCheck) :
    r.maxCheck < g.visited.card ∨ Outdone r g.visited n := by
  obtain ⟨lost, haccounts⟩ := h.climbing.accounts
  obtain ⟨worst, hworst, hfar | hmany⟩ := hstops
  · rw [h.tracks.worst_root] at hworst
    obtain rfl := Option.some.inj hworst
    have hnear := h.tracks.near_of_refused (hs.near n hn).le hfar
    rw [List.filter_map, List.length_map, ← List.toFinset_card_of_nodup (h.nodup.filter _)] at hnear
    refine .inr ⟨_, fun m hm => h.subset m ?_, hnear, fun m hm => ?_⟩
    · exact (List.mem_filter.mp (List.mem_toFinset.mp hm)).1
    · exact of_decide_eq_true (List.mem_filter.mp (List.mem_toFinset.mp hm)).2
  · exact .inl (hlimit ▸ hmany.trans_le haccounts.checked)

theorem Ended.finished {ws₀ : WorkSpace V D} (hs : Sound r.index bound)
    (hfresh : Fresh visits r.index.maxDist r.maxCheck r.room ws₀)
    (h : Ended (treeNodes r.index).card (· ∈ treeNodes r.index) visits r.index d r.room
      K ws₀ q ws g) :
    Finished visits r ws g.visited (g.met ws) := by
  obtain ⟨lost, haccounts⟩ := h.advancing.climbing.accounts
  refine ⟨haccounts.holds, haccounts.within, h.advancing.met_subset, fun x hx =>
    Progress.mem_met (Multiset.mem_add.mpr (.inr hx)), h.whole.imp (fun hstop => ?_) fun hall => ?_⟩
  · obtain ⟨x, hx, hstops, hspread⟩ := hstop
    have hmem : x ∈ g.done + ws.m_NGQueue.content := Multiset.mem_add.mpr (.inl hx)
    obtain ⟨n, hn, rfl⟩ := h.advancing.pair hmem
    refine ⟨n, Progress.mem_met hmem, h.advancing.stops hs hn hstops
      (h.kept.m_iMaxCheck.trans hfresh.m_iMaxCheck), fun m hm => ?_⟩
    rcases h.advancing.of_mem_met hm with hdone | hwaits
    · refine (hspread _ hdone).imp (fun heq => ?_) fun hspread => .inr hspread
      exact Int.ofNat_inj.mp (congrArg NodeDistPair.node heq)
    · exact .inr (.inl hwaits)
  · obtain ⟨hng, hspread, hspt⟩ := hall
    refine ⟨hng, fun m hm => ?_, fun hpivots hnodes j hj => ?_⟩
    · have hdone := h.advancing.of_mem_met hm
      rw [content_of_count hng] at hdone
      exact hspread _ (hdone.resolve_right (Multiset.notMem_zero _))
    · have hlength := hfresh.sptLength
      rw [← h.kept.spt] at hlength
      refine (h.advancing.climbing.cover (by omega) j hj).resolve_right fun hmem => ?_
      rw [content_of_count (hspt hpivots)] at hmem
      exact Multiset.notMem_zero j hmem

theorem Ended.answered {ws₀ : WorkSpace V D} (hs : Sound r.index bound)
    (hfresh : Fresh visits r.index.maxDist r.maxCheck r.room ws₀)
    (h : Ended (treeNodes r.index).card (· ∈ treeNodes r.index) visits r.index r.dispatch r.room
      r.p_query.resultNum ws₀ q ws g) : Answered visits r q ws g.visited (g.met ws) where
  toFinished := h.finished hs hfresh
  resultNum := (h.toList hs).1
  toList := (h.toList hs).2
  nearer hroom := by
    have hlength := hfresh.ngLength
    rw [← h.kept.ng] at hlength
    exact (h.advancing.nearer_of_room (by omega)).2

theorem searchIndex_answered (hs : Sound r.index visits.bound) (hq : 0 < r.p_query.resultNum)
    (h : Rested visits r.index.maxDist ws) (fresh : Nat → D) (rounds : Nat) :
    Yields (visits.Total ∧ turns r.index < rounds) (searchIndex visits fresh rounds r ws) fun a =>
      Rested visits r.index.maxDist a.2 ∧ ∃ visited met, Answered visits r a.1 a.2 visited met := by
  refine (searchIndex_spec hs hq h fresh rounds).mono fun a ha => ?_
  obtain ⟨ws₀, g, hfresh, hended⟩ := ha
  exact ⟨hended.rested, _, _, hended.answered hs hfresh⟩

theorem searches_spec (fresh : Nat → D) (rounds : Nat) {maxDist : D} {rs : List (Request D)}
    (hrs : ∀ r ∈ rs, Sound r.index visits.bound ∧ r.index.maxDist = maxDist ∧ 0 <
      r.p_query.resultNum)
    (h : Rested visits maxDist ws) :
    Yields (visits.Total ∧ ∀ r ∈ rs, turns r.index < rounds) (searches visits fresh rounds rs ws)
      (List.Forall₂ (fun r a => ∃ visited met, Answered visits r a.1 a.2 visited met) rs) := by
  induction rs generalizing ws with
  | nil => exact .pure .nil
  | cons r rs ih =>
    obtain ⟨hs, rfl, hq⟩ := hrs r List.mem_cons_self
    refine ((searchIndex_answered hs hq h fresh rounds).weaken fun hsure =>
      ⟨hsure.1, hsure.2 r List.mem_cons_self⟩).bind fun a ha => ?_
    obtain ⟨hrested, hanswered⟩ := ha
    refine ((ih (fun r hr => hrs r (List.mem_cons_of_mem _ hr)) hrested).weaken fun hsure =>
      ⟨hsure.1, fun r hr => hsure.2 r (List.mem_cons_of_mem _ hr)⟩).bind fun as has => ?_
    exact .pure (.cons hanswered has)

theorem searches_hashed (fuel : Nat) (p : OptHashPosVector.Setting) (fresh : Nat → D)
    {maxCheck : Int}
    (hpos : 16 ≤ maxCheck) (hint : maxCheck * 30 < 2 ^ 31) {maxDist : D} {rs : List (Request D)}
    (hrs : ∀ r ∈ rs, Sound r.index (2 ^ 31) ∧ r.index.maxDist = maxDist ∧ 0 < r.p_query.resultNum) :
    ∃ ws, WorkSpace.new maxDist fresh (.init p) maxCheck = some ws ∧ ∀ rounds as,
      searches (.hashed fuel) fresh rounds rs ws = some as →
        List.Forall₂ (fun r a => ∃ visited met,
          Answered (.hashed fuel) r a.1 a.2 visited met) rs as := by
  have hempty : (VisitedSet.hashed fuel).Holds (.init p) ∅ :=
    ⟨[], OptHashPosVector.holds_init p, rfl⟩
  have hnew : ∃ ws, WorkSpace.new maxDist fresh (.init p) maxCheck = some ws ∧
      Rested (.hashed fuel) maxDist ws := rested_new fresh hempty hpos hint
  obtain ⟨ws, hws, hrested⟩ := hnew
  exact ⟨ws, hws, fun rounds as has => (searches_spec fresh rounds hrs hrested).right as has⟩

omit [LinearOrder D] in
theorem card_le_brought (haccepts : ∀ id, d.accepts id = true) (ids : Multiset Nat) :
    ids.card ≤ (ids.bind (brought index d)).card := by
  have hpos : ∀ n, 1 ≤ (brought index d n).card := fun n => by
    unfold brought offers
    rw [List.filter_cons_of_pos (haccepts n)]
    split
    · exact Nat.succ_pos _
    · exact Nat.succ_pos _
  induction ids using Multiset.induction with
  | empty => exact Nat.zero_le _
  | cons n ids ih =>
    have := hpos n
    rw [Multiset.card_cons, Multiset.cons_bind, Multiset.card_add]
    omega

theorem Ended.toList_visited (hs : Sound r.index bound) (haccepts : ∀ id, d.accepts id = true)
    (h : Ended n sought visits r.index d r.room K ws q ws' g) (hK : K ≤ r.room)
    (hnearer : ∀ n ∈ g.visited, n ∉ g.met ws' → Outdone r (g.met ws') n) :
    q.toList = listing r.index d K g.visited := by
  obtain ⟨q', rfl, hranked⟩ := h.ranked
  obtain ⟨lost, haccounts⟩ := h.advancing.climbing.accounts
  rw [Ranked, offered_eq_bind fun x hx => h.advancing.pair hx, ← h.advancing.met_val] at hranked
  have hsplit : (g.visited \ g.met ws').val.bind (brought r.index d) +
      (g.met ws').val.bind (brought r.index d) = g.visited.val.bind (brought r.index d) := by
    rw [← Multiset.add_bind, Finset.sdiff_val,
      tsub_add_cancel_of_le (Finset.val_le_iff.mpr h.advancing.met_subset)]
  have hall : q'.Best K (g.visited.val.bind (brought r.index d) +
      Multiset.replicate K ⟨-1, r.index.maxDist⟩) := by
    rw [← hsplit, Multiset.add_assoc]
    refine hranked.skip_far fun p hp => ?_
    obtain ⟨n, hn, hp⟩ := Multiset.mem_bind.mp hp
    obtain ⟨hvisited, hnot⟩ := Finset.mem_sdiff.mp hn
    obtain ⟨near, hsub, hcard, hnear⟩ := hnearer n hvisited hnot
    refine ⟨near.val.bind (brought r.index d), ?_, ?_, fun y hy => ?_⟩
    · rw [← tsub_add_cancel_of_le (Finset.val_le_iff.mpr hsub), Multiset.add_bind]
      exact (Multiset.le_add_left _ _).trans (Multiset.le_add_right _ _)
    · exact hK.trans (hcard.trans (card_le_brought haccepts near.val))
    · obtain ⟨m, hm, hy⟩ := Multiset.mem_bind.mp hy
      refine (BasicResult.lt_iff.mpr (.inl ?_)).le
      rw [(dist_of_mem_offers hp).1, (dist_of_mem_offers hy).1]
      exact hnear m hm
  refine hall.toList_reset fun p hp => ?_
  obtain ⟨m, hm, hp⟩ := Multiset.mem_bind.mp hp
  exact dist_lt_of_mem_brought hs (haccounts.within m hm) hp

/-- A search that is allowed to check as many ids as there are, with room for each distance, for
each sample and for each node of the trees. -/
structure Generous (r : Request D) : Prop where
  pivots : Pivots r.index
  room : r.index.m_pSamples.R < r.room
  checks : r.index.m_pSamples.R ≤ r.maxCheck
  queue : r.index.m_pSamples.R ≤ ngSize r.maxCheck
  nodes : (treeNodes r.index).card ≤ sptSize r.maxCheck

structure Closed (index : Index D) (visited : Finset Nat) : Prop where
  within : ∀ n ∈ visited, n < index.m_pSamples.R
  passed : ∀ k ∈ treeNodes index, Passed index.m_pTrees.m_pTreeRoots visited k
  expanded : ∀ n ∈ visited, Expanded index visited n 0 index.m_iNeighborhoodSize

theorem Generous.not_outdone {visited : Finset Nat} (hr : Generous r)
    (hids : ∀ n ∈ visited, n < r.index.m_pSamples.R) : ¬ Outdone r visited n := by
  rintro ⟨near, hsub, hcard, -⟩
  have hle := Finset.card_le_card (show near ⊆ Finset.range r.index.m_pSamples.R from
    fun m hm => Finset.mem_range.mpr (hids m (hsub hm)))
  rw [Finset.card_range] at hle
  have := hr.room
  omega

theorem Answered.closed {visited met : Finset Nat} (hr : Generous r)
    (h : Answered visits r q ws visited met) :
    Closed r.index visited ∧ q.toList = listing r.index r.dispatch r.p_query.resultNum visited := by
  obtain rfl : met = visited := h.subset.antisymm fun n hn => by
    by_contra hnot
    exact hr.not_outdone (fun m hm => h.within m (h.subset hm)) (h.nearer hr.queue n hn hnot)
  refine ⟨?_, h.toList⟩
  rcases h.whole with ⟨n, -, hmany | hfar, -⟩ | ⟨-, hexpanded, hpassed⟩
  · have hle := Finset.card_le_card (show met ⊆ Finset.range r.index.m_pSamples.R from
      fun m hm => Finset.mem_range.mpr (h.within m hm))
    rw [Finset.card_range] at hle
    have := hr.checks
    omega
  · exact absurd hfar (hr.not_outdone h.within)
  · exact ⟨h.within, hpassed hr.pivots hr.nodes, hexpanded⟩

theorem graft_generous : Generous graftRequest where
  pivots := ⟨by decide, by decide⟩
  room := by decide
  checks := by decide
  queue := by decide
  nodes := by decide

end Sptag.BKT
