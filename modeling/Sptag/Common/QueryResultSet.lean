import Sptag.Lib.Heap

/-! `inc/Core/Common/QueryResultSet.h`: the results of a search, in an array that serves as
a list and as a max-heap. -/

namespace Sptag.COMMON

open Lib

structure BasicResult (D : Type) where
  vid : Int
  dist : D
  deriving DecidableEq

variable {D : Type}

/-- `operator <`: by distance, and by id between equal distances. -/
instance [LinearOrder D] : LinearOrder (BasicResult D) :=
  LinearOrder.lift' (fun r => toLex (r.dist, r.vid)) fun a b h => by
    cases a
    cases b
    cases h
    rfl

theorem BasicResult.lt_iff [LinearOrder D] {a b : BasicResult D} :
    a < b ↔ a.dist < b.dist ∨ a.dist = b.dist ∧ a.vid < b.vid := by
  show toLex (a.dist, a.vid) < toLex (b.dist, b.vid) ↔ _
  rw [Prod.Lex.toLex_lt_toLex]

theorem BasicResult.eq_of_vid {dist : Int → D} {a b : BasicResult D} (ha : a.dist = dist a.vid)
    (hb : b.dist = dist b.vid) (h : a.vid = b.vid) : a = b := by
  cases a
  cases b
  cases h
  exact congrArg _ (ha.trans hb.symm)

section Heapify

variable {α : Type} [LinearOrder α]

def heapifyLast (results : Nat → α) (maxidx parent next : Nat) : Nat → α :=
  if next = maxidx ∧ results parent < results next then exchange results parent next else results

/-- The loop of `Heapify`; its first argument bounds the rounds. -/
def heapifyLoop (maxidx : Nat) : Nat → (Nat → α) → Nat → Nat → Nat → α
  | 0, results, _, _ => results
  | rounds + 1, results, parent, next =>
    if next < maxidx then
      let next := if results next < results (next + 1) then next + 1 else next
      if results parent < results next then
        heapifyLoop maxidx rounds (exchange results next parent) next (2 * next + 1)
      else heapifyLast results maxidx parent next
    else heapifyLast results maxidx parent next

def heapify (count : Nat) (results : Nat → α) : Nat → α :=
  heapifyLoop (count - 1) count results 0 1

variable {results : Nat → α} {n parent next rounds : Nat}

omit [LinearOrder α] in
theorem exchange_comm (results : Nat → α) (i j : Nat) :
    exchange results i j = exchange results j i := by
  funext k
  rw [exchange, exchange, Equiv.swap_comm]

theorem heapifyLast_heap (h : Sifting results n parent) (hp : parent < n)
    (hleft : ¬ 2 * parent + 1 < n - 1) :
    IsHeap (heapifyLast results (n - 1) parent (2 * parent + 1)) n := by
  have hone : ∀ c, IsChild c parent → c < n → c = 2 * parent + 1 ∧ c = n - 1 := by
    intro c hc hcn
    unfold IsChild at hc
    omega
  unfold heapifyLast
  split
  · rename_i hlast
    have hn : 2 * parent + 1 < n := hlast.1.trans_lt (Nat.sub_one_lt_of_lt hp)
    refine (h.down (.inl rfl) hn hlast.2.le fun d hd hdn => ?_).stop fun c hc hcn => ?_
    · rw [(hone d hd hdn).1]
    · have hlt := hc.lt
      have heq := hlast.1
      omega
  · rename_i hlast
    refine h.stop fun c hc hcn => ?_
    obtain ⟨hc', hc''⟩ := hone c hc hcn
    rw [hc']
    exact not_lt.mp fun hlt => hlast ⟨hc'.symm.trans hc'', hlt⟩

theorem heapifyLoop_heap (h : Sifting results n parent) (hp : parent < n)
    (hrounds : n - parent ≤ rounds) :
    IsHeap (heapifyLoop (n - 1) rounds results parent (2 * parent + 1)) n := by
  induction rounds generalizing results parent with
  | zero => exact absurd hp (by omega)
  | succ rounds ih =>
    unfold heapifyLoop
    by_cases hboth : 2 * parent + 1 < n - 1
    · rw [if_pos hboth]
      -- The larger of the two children.
      have hlarger : ∃ c, (if results (2 * parent + 1) < results (2 * parent + 1 + 1)
            then 2 * parent + 1 + 1 else 2 * parent + 1) = c ∧
          IsChild c parent ∧ c < n ∧ ∀ d, IsChild d parent → d < n → results d ≤ results c := by
        split
        · rename_i hlt
          refine ⟨_, rfl, .inr rfl, by omega, ?_⟩
          rintro d (rfl | rfl) -
          · exact hlt.le
          · exact le_rfl
        · rename_i hge
          refine ⟨_, rfl, .inl rfl, by omega, ?_⟩
          rintro d (rfl | rfl) -
          · exact le_rfl
          · exact not_lt.mp hge
      obtain ⟨c, hc, hchild, hcn, hmax⟩ := hlarger
      rw [hc]
      dsimp only
      split
      · rename_i hlt
        rw [exchange_comm]
        refine ih (h.down hchild hcn hlt.le hmax) hcn ?_
        have := hchild.lt
        omega
      · rename_i hge
        rw [heapifyLast, if_neg fun hlast => hge hlast.2]
        exact h.stop fun d hd hdn => (hmax d hd hdn).trans (not_lt.mp hge)
    · rw [if_neg hboth]
      exact heapifyLast_heap h hp hboth

theorem heapifyLoop_moves (hp : parent < n) :
    contents (heapifyLoop (n - 1) rounds results parent next) n = contents results n ∧
      ∀ i, n ≤ i → heapifyLoop (n - 1) rounds results parent next i = results i := by
  have hexchange : ∀ (results : Nat → α) {i j : Nat}, i < n → j < n →
      contents (exchange results i j) n = contents results n ∧
        ∀ k, n ≤ k → exchange results i j k = results k := fun results i j hi hj =>
    ⟨contents_exchange hi hj, fun k hk => exchange_of_ne (hi.trans_le hk).ne' (hj.trans_le hk).ne'⟩
  have hlast : ∀ (results : Nat → α) {parent next : Nat}, parent < n →
      contents (heapifyLast results (n - 1) parent next) n = contents results n ∧
        ∀ k, n ≤ k → heapifyLast results (n - 1) parent next k = results k := by
    intro results parent next hp
    unfold heapifyLast
    split
    · exact hexchange results hp (by omega)
    · exact ⟨rfl, fun _ _ => rfl⟩
  induction rounds generalizing results parent next with
  | zero => exact ⟨rfl, fun _ _ => rfl⟩
  | succ rounds ih =>
    unfold heapifyLoop
    by_cases hboth : next < n - 1
    · have hc : (if results next < results (next + 1) then next + 1 else next) < n := by
        split <;> omega
      rw [if_pos hboth]
      dsimp only
      generalize (if results next < results (next + 1) then next + 1 else next) = c at hc
      split
      · obtain ⟨hcontents, habove⟩ := hexchange results hc hp
        obtain ⟨hcontents', habove'⟩ := ih hc
        exact ⟨hcontents'.trans hcontents, fun i hi => (habove' i hi).trans (habove i hi)⟩
      · exact hlast results hp
    · rw [if_neg hboth]
      exact hlast results hp

theorem heapify_sifts : Sifts (heapify (α := α)) where
  heap {n results} h := by
    cases n with
    | zero => exact fun p c _ hc => absurd hc (Nat.not_lt_zero c)
    | succ n => exact heapifyLoop_heap h n.succ_pos le_rfl
  contents {n results} := by
    cases n with
    | zero => rfl
    | succ n => exact (heapifyLoop_moves n.succ_pos).1
  above {n results i} hi := by
    cases n with
    | zero => rfl
    | succ n => exact (heapifyLoop_moves n.succ_pos).2 i hi

end Heapify

structure QueryResultSet (D : Type) where
  results : Nat → BasicResult D
  resultNum : Nat

namespace QueryResultSet

def toList (q : QueryResultSet D) : List (BasicResult D) := (List.range q.resultNum).map q.results

/-- `rest` stands for what lies behind the array. -/
def ofList (rest : BasicResult D) (rs : List (BasicResult D)) : QueryResultSet D where
  results i := rs.getD i rest
  resultNum := rs.length

def reverse (q : QueryResultSet D) : QueryResultSet D :=
  { q with results := fun i => if i <
    q.resultNum then q.results (q.resultNum - 1 - i) else q.results i }

theorem coe_toList (q : QueryResultSet D) : (q.toList : Multiset (BasicResult D)) =
    contents q.results q.resultNum := by
  rw [toList, contents, ← Multiset.coe_range, Multiset.map_coe]

@[simp] theorem mem_toList {q : QueryResultSet D} {r : BasicResult D} :
    r ∈ q.toList ↔ ∃ i, i < q.resultNum ∧ q.results i = r := by
  simp [toList]

theorem toList_reverse_ofList (rest : BasicResult D) (rs : List (BasicResult D)) :
    (ofList rest rs).reverse.toList = rs.reverse := by
  refine List.ext_getElem (by simp [toList, reverse, ofList]) fun i hi _ => ?_
  have hi' : i < rs.length := by simpa [toList, reverse, ofList] using hi
  have hlt : rs.length - 1 - i < rs.length := by omega
  simp [toList, reverse, ofList, hi', hlt]

variable [LinearOrder D]

def addPoint (q : QueryResultSet D) (index : Int) (dist : D) : QueryResultSet D :=
  if dist < (q.results 0).dist ∨ dist = (q.results 0).dist ∧ index < (q.results 0).vid then
    { q with results := heapify q.resultNum (Function.update q.results 0 ⟨index, dist⟩) }
  else q

def sortResult (q : QueryResultSet D) : QueryResultSet D :=
  { q with results := drain heapify q.resultNum q.results }

theorem addPoint_eq (q : QueryResultSet D) (r : BasicResult D) :
    q.addPoint r.vid r.dist =
      { q with results := offer heapify q.resultNum q.results r } := by
  have hlt : r < q.results 0 ↔
      r.dist < (q.results 0).dist ∨ r.dist = (q.results 0).dist ∧ r.vid < (q.results 0).vid :=
    BasicResult.lt_iff
  unfold addPoint offer
  rw [← if_congr hlt rfl rfl]
  split <;> rfl

theorem foldl_addPoint (q : QueryResultSet D) (rs : List (BasicResult D)) :
    rs.foldl (fun q r => q.addPoint r.vid r.dist) q =
      { q with results := rs.foldl (offer heapify q.resultNum) q.results } := by
  induction rs generalizing q with
  | nil => rfl
  | cons r rs ih => rw [List.foldl_cons, ih, addPoint_eq, List.foldl_cons]

theorem sortResult_addPoints (q : QueryResultSet D) (h : IsHeap q.results q.resultNum)
    (hn : 0 < q.resultNum) (rs : List (BasicResult D)) :
    (rs.foldl (fun q r => q.addPoint r.vid r.dist) q).sortResult.toList =
      (contents q.results q.resultNum + rs).sort.take q.resultNum := by
  rw [foldl_addPoint]
  exact drain_offers heapify_sifts h hn rs

def reset (q : QueryResultSet D) (maxDist : D) : QueryResultSet D :=
  { q with results := fun i => if i < q.resultNum then ⟨-1, maxDist⟩ else q.results i }

def worstDist (q : QueryResultSet D) : D := (q.results 0).dist

omit [LinearOrder D] in
theorem contents_reset (q : QueryResultSet D) (maxDist : D) :
    contents (q.reset maxDist).results q.resultNum =
      Multiset.replicate q.resultNum ⟨-1, maxDist⟩ := by
  refine Multiset.eq_replicate.mpr ⟨card_contents, fun r hr => ?_⟩
  obtain ⟨i, hi, rfl⟩ := mem_contents.mp hr
  exact if_pos hi

theorem isHeap_reset (q : QueryResultSet D) (maxDist : D) :
    IsHeap (q.reset maxDist).results q.resultNum := by
  intro p c hc hn
  simp [reset, hn, hc.lt.trans hn]

theorem monotone_dist : Monotone (BasicResult.dist (D := D)) := fun a b hab => by
  rcases hab.lt_or_eq with hlt | rfl
  · rcases BasicResult.lt_iff.mp hlt with hlt | ⟨heq, -⟩
    · exact hlt.le
    · exact heq.le
  · exact le_rfl

theorem sort_blanks {rs : List (BasicResult D)} {maxDist : D} (hrs : ∀ r ∈ rs, r.dist < maxDist)
    (n : Nat) : (Multiset.replicate n (⟨-1, maxDist⟩ : BasicResult D) + rs).sort =
      (rs : Multiset (BasicResult D)).sort ++ List.replicate n ⟨-1, maxDist⟩ := by
  rw [add_comm]
  exact sort_add_replicate (fun r hr => (BasicResult.lt_iff.mpr (.inl (hrs r hr))).le) n

/-- Points added after a reset: the array is a heap, its root is the worst of the best, and
sorting it lists the best of all the points before the slots not used. -/
theorem addPoints_reset (q : QueryResultSet D) (maxDist : D) (hn : 0 < q.resultNum)
    (rs : List (BasicResult D)) (hrs : ∀ r ∈ rs, 0 ≤ r.vid ∧ r.dist < maxDist) :
    let added := rs.foldl (fun q r => q.addPoint r.vid r.dist) (q.reset maxDist)
    IsHeap added.results q.resultNum ∧
      added.worstDist = (rs.map BasicResult.dist : Multiset D).sort.getD (q.resultNum - 1) maxDist ∧
      added.sortResult.toList = (rs : Multiset (BasicResult D)).sort.take q.resultNum ++
        List.replicate (q.resultNum - rs.length) ⟨-1, maxDist⟩ := by
  have hbelow : ∀ r ∈ rs, r.dist < maxDist := fun r hr => (hrs r hr).2
  have hsort := sort_blanks hbelow q.resultNum
  rw [← contents_reset] at hsort
  have hheap := isHeap_reset q maxDist
  dsimp only
  refine ⟨?_, ?_, ?_⟩
  · rw [foldl_addPoint]
    exact (offers_spec heapify_sifts hn hheap IsSmallest.contents rs).1
  · obtain ⟨hroot, hsmall⟩ := offers_spec heapify_sifts hn hheap IsSmallest.contents rs
    have hdists : (rs.map BasicResult.dist : Multiset D).sort =
        (rs : Multiset (BasicResult D)).sort.map BasicResult.dist := by
      rw [← Multiset.map_coe, sort_map monotone_dist]
    have hworst := hroot.root_eq hn hsmall ⟨-1, maxDist⟩
    rw [hsort, getD_append_replicate] at hworst
    rw [foldl_addPoint, worstDist, hdists]
    exact (congrArg BasicResult.dist hworst.symm).trans (List.getD_map ..).symm
  · rw [sortResult_addPoints _ hheap hn, show (q.reset maxDist).resultNum = q.resultNum from rfl,
      hsort, List.take_append, Multiset.length_sort, Multiset.coe_card, List.take_replicate,
      Nat.min_eq_left (Nat.sub_le _ _)]

theorem addPoints_reset_two :
    let points : List (BasicResult Nat) := [⟨4, 7⟩, ⟨5, 3⟩]
    let added := points.foldl (fun q r => q.addPoint r.vid r.dist)
      ((⟨fun _ => ⟨0, 0⟩, 3⟩ : QueryResultSet Nat).reset 100)
    added.worstDist = 100 ∧ added.sortResult.toList = [⟨5, 3⟩, ⟨4, 7⟩, ⟨-1, 100⟩] := by
  obtain ⟨-, hworst, hsorted⟩ := addPoints_reset (⟨fun _ => ⟨0, 0⟩, 3⟩ : QueryResultSet Nat) 100
    (by decide) [⟨4, 7⟩, ⟨5, 3⟩] (by decide)
  have hsort : (([⟨4, 7⟩, ⟨5, 3⟩] : List (BasicResult Nat)) : Multiset (BasicResult Nat)).sort =
      [⟨5, 3⟩, ⟨4, 7⟩] := sort_eq_of_pairwise (by decide) (by decide)
  rw [hsort] at hsorted
  refine ⟨hworst.trans ?_, hsorted⟩
  rw [List.getD_eq_default _ _ (by simp)]

end QueryResultSet

end Sptag.COMMON
