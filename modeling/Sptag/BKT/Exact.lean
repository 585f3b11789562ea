import Sptag.BKT.SearchIndex

/-! Searches of trees from `BuildTrees`: with a limit that is high enough they return what a scan
of all the samples would. -/

namespace Sptag.BKT

open COMMON Lib Slots BKTree WorkSpace

variable {V D : Type} [LinearOrder D]

def nearest (index : Index D) (d : Dispatch) (K : Nat) : List (BasicResult D) :=
  let points := (((List.range index.m_pSamples.R).filter fun n : Nat => d.accepts n).map
    fun n : Nat => ⟨n, index.m_pSamples.distance n⟩ : List (BasicResult D))
  (points.insertionSort (· ≤ ·)).take K ++ List.replicate (K - points.length) ⟨-1, index.maxDist⟩

variable {visits : VisitedSet V} {index : Index D} {d : Dispatch} {bound n K : Nat}
  {ws : WorkSpace V D}

structure Plain (index : Index D) (bound : Nat) : Prop where
  bound : index.m_pSamples.R ≤ bound
  rows : index.m_pGraph.size = index.m_pSamples.R
  size : 0 < index.m_iNeighborhoodSize
  row : ∀ n < index.m_pSamples.R, (index.m_pGraph.cell n).size = index.m_iNeighborhoodSize
  entries : ∀ n < index.m_pSamples.R, ∀ i < index.m_iNeighborhoodSize,
    -1 ≤ (index.m_pGraph.cell n).cell i ∧ (index.m_pGraph.cell n).cell i < index.m_pSamples.R
  near : ∀ n < index.m_pSamples.R, index.m_pSamples.distance n < index.maxDist

theorem Plain.clustered (h : Plain index bound) (hn : n < index.m_pSamples.R) :
    clustered index n = [] := by
  have hmark := (h.entries n hn (index.m_iNeighborhoodSize - 1) (Nat.sub_one_lt h.size.ne')).1
  exact if_neg fun hc => absurd hc.1 (by unfold mark; omega)

theorem Plain.sound (h : Plain index bound) (ht : Searchable index.m_pTrees index.m_pSamples.R) :
    Sound index bound where
  searchable := ht
  bound := h.bound
  rows := h.rows
  size := h.size
  row := h.row
  entries n hn i hi := (h.entries n hn i hi).2
  marks n hn hmark := by
    have hentry := (h.entries n hn (index.m_iNeighborhoodSize - 1) (Nat.sub_one_lt h.size.ne')).1
    exact absurd hmark hentry.not_gt
  sorted n hn := by
    rw [h.clustered hn]
    exact List.pairwise_singleton _ _
  near := h.near

theorem Plain.listing (h : Plain index bound) :
    listing index d K (.range index.m_pSamples.R) = nearest index d K := by
  have hbrought : ∀ n < index.m_pSamples.R, brought index d n =
      if d.accepts n then {⟨n, index.m_pSamples.distance n⟩} else 0 := fun n hn => by
    rw [brought, h.clustered hn]
    by_cases haccepts : d.accepts n = true
    · rw [if_pos haccepts, offers, List.filter_cons_of_pos haccepts, List.filter_nil]
      split
      · rfl
      · rfl
    · rw [if_neg haccepts, offers_of_not (Bool.eq_false_iff.mpr haccepts), offers]
      simp
  have hpoints : (Finset.range index.m_pSamples.R).val.bind (brought index d) =
      (((List.range index.m_pSamples.R).filter fun n : Nat => d.accepts n).map
        fun n : Nat => ⟨n, index.m_pSamples.distance n⟩ : List (BasicResult D)) := by
    rw [Finset.range_val, Multiset.bind_congr fun n hn => hbrought n (Multiset.mem_range.mp hn)]
    show ((List.range index.m_pSamples.R : Multiset Nat).bind _) = _
    induction List.range index.m_pSamples.R with
    | nil => rfl
    | cons n ns ih =>
      rw [← Multiset.cons_coe, Multiset.cons_bind, ih]
      by_cases haccepts : d.accepts n = true
      · rw [if_pos haccepts, List.filter_cons_of_pos (p := fun n : Nat => d.accepts n) haccepts,
          List.map_cons, ← Multiset.cons_coe, Multiset.singleton_add]
      · rw [if_neg haccepts, List.filter_cons_of_neg (p := fun n : Nat => d.accepts n) haccepts,
          Multiset.zero_add]
  unfold BKT.listing nearest
  dsimp only
  rw [hpoints, Multiset.coe_sort, List.mergeSort_eq_insertionSort, Multiset.coe_card]

def Reachable (index : Index D) : Prop :=
  ∀ n < index.m_pSamples.R, ∃ k ∈ treeNodes index,
    (index.m_pTrees.m_pTreeRoots.cell k).centerid.toNat = n

omit [LinearOrder D] in
theorem Closed.eq_range {visited : Finset Nat} (h : Closed index visited)
    (hreach : Reachable index) :
    visited = .range index.m_pSamples.R := by
  refine Finset.Subset.antisymm (fun n hn => Finset.mem_range.mpr (h.within n hn)) fun n hn => ?_
  obtain ⟨k, hk, rfl⟩ := hreach n (Finset.mem_range.mp hn)
  exact h.passed k hk

structure Enough (r : Request D) (trees : Nat) : Prop where
  pivots : Pivots r.index
  room : r.index.m_pSamples.R < r.room
  checks : r.index.m_pSamples.R ≤ r.maxCheck
  queue : r.index.m_pSamples.R ≤ ngSize r.maxCheck
  nodes : trees * r.index.m_pSamples.R ≤ sptSize r.maxCheck

def sprout : BKTree := (buildTrees apart 10 3 (.new 1 2 1)).getD (.new 1 2 1)

def sproutRequest : Request Nat where
  index := {
    m_pSamples := ⟨3, fun n => [5, 2, 9].getD n 0⟩
    m_pTrees := sprout
    m_pGraph := ⟨3, fun _ => ⟨1, fun _ => -1⟩⟩
    m_iNeighborhoodSize := 1
    m_iNumberOfInitialDynamicPivots := 1
    m_iNumberOfOtherDynamicPivots := 1
    m_bfs := ⟨0, fun d => d, 99⟩
    maxDist := 100 }
  m_deletedID := ⟨1, fun id => decide (id = 0)⟩
  filterFunc := none
  m_iMaxCheck := 64
  p_maxCheck := 0
  p_searchDeleted := false
  p_searchDuplicated := true
  p_query := ⟨fun _ => ⟨0, 0⟩, 2⟩

theorem sprout_built : buildTrees apart 10 3 (.new 1 2 1) = some sprout := by
  have hbuilt : (buildTrees apart 10 3 (.new 1 2 1)).isSome := by decide
  obtain ⟨t, ht⟩ := Option.isSome_iff_exists.mp hbuilt
  rw [sprout, ht]
  rfl

theorem sprout_divided : Divided sprout := by
  unfold Divided
  decide +kernel

theorem sprout_plain : Plain sproutRequest.index 3 where
  bound := le_rfl
  rows := rfl
  size := Nat.one_pos
  row _ _ := rfl
  entries _ _ _ _ := ⟨le_rfl, show (-1 : Int) < 3 by decide⟩
  near := by decide

theorem sprout_enough : Enough sproutRequest 1 where
  pivots := ⟨by decide, by decide⟩
  room := by decide
  checks := by decide
  queue := by decide
  nodes := by decide

end Sptag.BKT
