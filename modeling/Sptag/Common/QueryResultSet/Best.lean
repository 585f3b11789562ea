import Sptag.Common.QueryResultSet

/-! What the array of a `QueryResultSet` holds while points are added to it one by one: the best
of all that was offered, whether or not a point that is too far was offered at all. -/

namespace Sptag.COMMON.QueryResultSet

open Lib

variable {D : Type} [LinearOrder D]

def accepts (q : QueryResultSet D) (index : Int) (dist : D) : Bool :=
  decide (dist < (q.results 0).dist ∨ dist = (q.results 0).dist ∧ index < (q.results 0).vid)

structure Best (n : Nat) (M : Multiset (BasicResult D)) (q : QueryResultSet D) : Prop where
  pos : 0 < n
  resultNum : q.resultNum = n
  heap : IsHeap q.results n
  smallest : IsSmallest n M (contents q.results n)

variable {n : Nat} {M N : Multiset (BasicResult D)} {q : QueryResultSet D} {r : BasicResult D}

theorem best_reset (q : QueryResultSet D) (hn : 0 < q.resultNum) (maxDist : D) :
    Best q.resultNum (Multiset.replicate q.resultNum ⟨-1, maxDist⟩) (q.reset maxDist) where
  pos := hn
  resultNum := rfl
  heap := isHeap_reset q maxDist
  smallest := contents_reset q maxDist ▸ IsSmallest.contents

namespace Best

theorem addPoint (h : Best n M q) (r : BasicResult D) :
    Best n (r ::ₘ M) (q.addPoint r.vid r.dist) := by
  obtain ⟨hheap, hsmallest⟩ := offer_spec heapify_sifts h.pos h.heap h.smallest r
  rw [addPoint_eq, h.resultNum]
  exact ⟨h.pos, rfl, hheap, hsmallest⟩

theorem skip_all (h : Best n M q) (hN : ∀ r ∈ N, q.results 0 ≤ r) : Best n (N + M) q where
  pos := h.pos
  resultNum := h.resultNum
  heap := h.heap
  smallest := h.smallest.skip_all fun r hr y hy => by
    obtain ⟨i, hi, rfl⟩ := mem_contents.mp hy
    exact (h.heap.le_root hi).trans (hN r hr)

theorem skip_far (h : Best n M q) (hN : ∀ r ∈ N, ∃ L ≤ M, n ≤ L.card ∧ ∀ y ∈ L, y ≤ r) :
    Best n (N + M) q where
  pos := h.pos
  resultNum := h.resultNum
  heap := h.heap
  smallest := h.smallest.skip_all fun r hr => by
    obtain ⟨L, hL, hcard, hnear⟩ := hN r hr
    exact h.smallest.le_of_card hL hcard hnear

theorem toList_sortResult (h : Best n M q) : q.sortResult.toList = M.sort.take n := by
  have hdrain := map_drain heapify_sifts h.heap
  rw [h.smallest.sort_eq] at hdrain
  rw [toList, sortResult, h.resultNum]
  exact hdrain

end Best

theorem le_of_accepts (h : q.accepts r.vid r.dist = false) : q.results 0 ≤ r := by
  rw [accepts, decide_eq_false_iff_not, ← BasicResult.lt_iff] at h
  exact not_lt.mp h

theorem addPoint_of_not_accepts {index : Int} {dist : D} (h : q.accepts index dist = false) :
    q.addPoint index dist = q := if_neg (of_decide_eq_false h)

theorem le_of_worstDist (h : q.worstDist < r.dist) : q.results 0 ≤ r :=
  (BasicResult.lt_iff.mpr (.inl h)).le

theorem Best.toList_reset {maxDist : D} (h : Best n (M + Multiset.replicate n ⟨-1, maxDist⟩) q)
    (hM : ∀ r ∈ M, r.dist < maxDist) :
    q.sortResult.toList = M.sort.take n ++ List.replicate (n - M.card) ⟨-1, maxDist⟩ := by
  rw [h.toList_sortResult, sort_add_replicate fun r hr =>
    (BasicResult.lt_iff.mpr (.inl (hM r hr))).le,
    List.take_append, Multiset.length_sort, List.take_replicate, Nat.min_eq_left (Nat.sub_le _ _)]

end Sptag.COMMON.QueryResultSet
