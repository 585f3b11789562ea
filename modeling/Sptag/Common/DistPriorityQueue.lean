import Sptag.Lib.Slots

/-! `DistPriorityQueue` of `inc/Core/Common/WorkSpace.h`: the smallest distances met so far, in a
max-heap that holds a sentinel until it is full. -/

namespace Sptag.COMMON

open Lib Slots

structure DistPriorityQueue (D : Type) where
  size : Nat
  data : Slots D
  length : Nat
  count : Nat

namespace DistPriorityQueue

variable {D : Type}

def slots (q : DistPriorityQueue D) : Slots D := ⟨min q.data.size (q.count + 1), q.data.cell⟩

def write (q : DistPriorityQueue D) (s : Slots D) : DistPriorityQueue D :=
  { q with data := { q.data with cell := s.cell } }

def start (maxDist : D) (count : Nat) (q : DistPriorityQueue D) : Option (DistPriorityQueue D) := do
  let q := { q with length := 1, count := count }
  let s ← q.slots.set 1 maxDist
  return q.write s

/-- `fresh` is what `new` leaves in the cells. -/
def resize (fresh : Nat → D) (maxDist : D) (size : Nat) (q : DistPriorityQueue D) :
    Option (DistPriorityQueue D) :=
  start maxDist size { q with size := size, data := ⟨size + 1, fresh⟩ }

def clear (fresh : Nat → D) (maxDist : D) (count : Nat) (q : DistPriorityQueue D) :
    Option (DistPriorityQueue D) :=
  start maxDist count
    (if q.size < count then { q with size := count, data := ⟨count + 1, fresh⟩ } else q)

def worst (q : DistPriorityQueue D) : Option D := q.slots.get 1

variable [LinearOrder D]

def insert (q : DistPriorityQueue D) (dist : D) : Option (Bool × DistPriorityQueue D) := do
  let first ← q.slots.get 1
  if first < dist then return (false, q)
  else if q.length = q.count then
    let s ← q.slots.set 1 dist
    let s ← siftDown (fun above below => above < below) q.length (q.length + 1) s 1 2
    return (true, q.write s)
  else
    let next := q.length + 1
    let s ← siftUp (fun parent dist => parent < dist) dist next q.slots next
    return (true, { q.write s with length := next })

structure Tracks (maxDist : D) (k : Nat) (ds : List D) (q : DistPriorityQueue D) : Prop where
  pos : 0 < k
  size : k < q.data.size
  count : q.count = k
  length : q.length = min k (ds.length + 1)
  heap : IsHeap q.data.nodes q.length
  smallest : IsSmallest q.length (maxDist ::ₘ (ds : Multiset D)) (contents q.data.nodes q.length)

variable {q : DistPriorityQueue D} {maxDist d : D} {ds : List D} {k : Nat}

theorem Tracks.slots_size (h : Tracks maxDist k ds q) : q.slots.size = k + 1 := by
  rw [slots, h.count]
  exact min_eq_right h.size

theorem Tracks.length_le (h : Tracks maxDist k ds q) : q.length ≤ k :=
  h.length.trans_le (min_le_left _ _)

theorem Tracks.length_pos (h : Tracks maxDist k ds q) : 0 < q.length := by
  have := h.pos
  have := h.length
  omega

theorem Tracks.worst_root (h : Tracks maxDist k ds q) : q.worst = some (q.data.nodes 0) :=
  get_of_lt (h.slots_size ▸ Nat.succ_lt_succ h.pos)

theorem Tracks.worst_eq (h : Tracks maxDist k ds q) (hds : ∀ d ∈ ds, d ≤ maxDist) :
    q.worst = some ((ds : Multiset D).sort.getD (k - 1) maxDist) := by
  have hroot := h.heap.root_eq h.length_pos h.smallest maxDist
  have hsort : (maxDist ::ₘ (ds : Multiset D)).sort = (ds : Multiset D).sort ++ [maxDist] := by
    have := sort_add_replicate (M := (ds : Multiset D)) hds 1
    rwa [Multiset.replicate_one, add_comm, Multiset.singleton_add] at this
  rw [hsort, ← List.replicate_one, getD_append_replicate] at hroot
  rw [h.worst_root, ← hroot, h.length]
  rcases le_or_gt k (ds.length + 1) with hfull | hroom
  · rw [min_eq_left hfull]
  · rw [min_eq_right hroom.le, List.getD_eq_default _ _ (by simp),
      List.getD_eq_default _ _ (by simpa using Nat.le_sub_one_of_lt (Nat.lt_of_succ_lt hroom))]

theorem Tracks.contents_eq (h : Tracks maxDist k ds q) (hroom : q.length < k) :
    q.length = ds.length + 1 ∧ contents q.data.nodes q.length = maxDist ::ₘ (ds : Multiset D) := by
  have hlength : q.length = ds.length + 1 := by
    have := h.length
    omega
  refine ⟨hlength, Multiset.eq_of_le_of_card_le h.smallest.le ?_⟩
  rw [h.smallest.card, hlength, Multiset.card_cons, Multiset.coe_card]

theorem siftDown_first {s : Slots D} {n : Nat} {M : Multiset D} (h : IsHeap s.nodes n) (hn : 0 < n)
    (hsize : n < s.size) (hM : IsSmallest n M (contents s.nodes n)) (hd : d ≤ s.nodes 0) :
    ∃ s', siftDown (fun above below => above < below) n (n + 1)
        { s with cell := Function.update s.cell 1 d } 1 2 = some s' ∧ IsHeap s'.nodes n ∧
      IsSmallest n (d ::ₘ M) (contents s'.nodes n) := by
  have hnodes := nodes_update (s := s) (i := 0) d
  have hsifting : Sifting (nodes { s with cell := Function.update s.cell 1 d }) n 0 := by
    rw [hnodes]
    exact h.sifting fun i hi _ => Function.update_of_ne hi.ne' _ _
  obtain ⟨s', hs', hheap, hsame⟩ := siftDown_root (fun _ _ => Iff.rfl) hsifting hsize n.lt_succ_self
  refine ⟨s', hs', hheap, ?_⟩
  obtain ⟨m, rfl⟩ := Nat.exists_eq_add_one_of_ne_zero hn.ne'
  rw [hsame.contents, hnodes, contents_update_zero]
  rw [contents_zero] at hM
  refine hM.replace (fun y hy => ?_) hd
  obtain ⟨i, hi, rfl⟩ := mem_contents.mp hy
  exact h.le_root (Nat.succ_lt_succ hi)

theorem siftUp_last {s : Slots D} {n : Nat} (h : IsHeap s.nodes n) (hsize : n + 1 < s.size) :
    ∃ s', siftUp (fun parent dist => parent < dist) d (n + 1) s (n + 1) = some s' ∧
      IsHeap s'.nodes (n + 1) ∧ contents s'.nodes (n + 1) = d ::ₘ contents s.nodes n := by
  have hrising : Rising (Function.update s.nodes n d) (n + 1) n :=
    h.rising (fun _ hc => hc.lt) fun k hk hne => (Nat.le_of_lt_succ hk).lt_of_ne hne
  obtain ⟨s', hs', hheap, hsame⟩ := siftUp_spec (fun _ _ => Iff.rfl) hrising hsize n.lt_succ_self
    n.lt_succ_self
  refine ⟨s', hs', hheap, hsame.contents.trans ?_⟩
  rw [nodes_update, contents_succ, Function.update_self]
  exact congrArg _ (contents_congr fun i hi => Function.update_of_ne hi.ne _ _)

theorem Tracks.insert (h : Tracks maxDist k ds q) (hd : d ≤ maxDist) :
    ∃ accepted q', q.insert d = some (accepted, q') ∧
      Tracks maxDist k (d :: ds) q' ∧ (accepted = false ↔ q.data.nodes 0 < d) := by
  have hsize := h.slots_size
  have hone : 1 < q.slots.size := hsize ▸ Nat.succ_lt_succ h.pos
  have hcons : maxDist ::ₘ ((d :: ds : List D) : Multiset D) =
    d ::ₘ maxDist ::ₘ (ds : Multiset D) := by
    rw [← Multiset.cons_coe, Multiset.cons_swap]
  unfold DistPriorityQueue.insert
  simp only [get_of_lt hone, set_of_lt hone, Option.bind_eq_bind, Option.bind_some, h.count]
  by_cases hfull : q.length = k
  · have hlength : q.length = min k ((d :: ds).length + 1) := by
      have := h.length
      rw [List.length_cons]
      omega
    by_cases hlt : q.data.nodes 0 < d
    · refine ⟨false, q, if_pos hlt, { h with length := hlength, smallest := ?_ }, by simp [hlt]⟩
      rw [hcons]
      refine h.smallest.skip fun y hy => ?_
      obtain ⟨i, hi, rfl⟩ := mem_contents.mp hy
      exact (h.heap.le_root hi).trans hlt.le
    · obtain ⟨s, hs, hheap, hsmallest⟩ := siftDown_first (s := q.slots) h.heap h.length_pos
        (hsize ▸ Nat.lt_succ_of_le h.length_le) h.smallest (not_lt.mp hlt)
      refine ⟨true, q.write s, ?_, ⟨h.pos, h.size, h.count, hlength, hheap, ?_⟩, by simp [hlt]⟩
      · refine (if_neg hlt).trans ?_
        rw [if_pos hfull, hs]
        rfl
      · rw [hcons]
        exact hsmallest
  · have hroom : q.length < k := h.length_le.lt_of_ne hfull
    obtain ⟨hlength, hcontents⟩ := h.contents_eq hroom
    have hle : ¬ q.data.nodes 0 < d := by
      have hmem : maxDist ∈ contents q.data.nodes q.length := hcontents ▸ Multiset.mem_cons_self _ _
      obtain ⟨i, hi, heq⟩ := mem_contents.mp hmem
      exact (hd.trans (heq ▸ h.heap.le_root hi)).not_gt
    obtain ⟨s, hs, hheap, hnew⟩ := siftUp_last (s := q.slots) (d := d) h.heap
      (hsize ▸ Nat.succ_lt_succ hroom)
    refine ⟨true, { q.write s with length := q.length + 1 }, ?_,
      ⟨h.pos, h.size, h.count, ?_, hheap, ?_⟩, by simp [hle]⟩
    · refine (if_neg hle).trans ?_
      rw [if_neg hfull, hs]
      rfl
    · show q.length + 1 = _
      rw [hlength, List.length_cons]
      omega
    · have hall := IsSmallest.contents (n := q.length + 1) (r := s.nodes)
      have heq : contents s.nodes (q.length + 1) =
        maxDist ::ₘ ((d :: ds : List D) : Multiset D) := by
        rw [hcons, hnew, ← hcontents]
        rfl
      exact heq ▸ hall

theorem Tracks.inserts (h : Tracks maxDist k [] q) (hds : ∀ d ∈ ds, d ≤ maxDist) :
    ∃ q', ds.foldlM (fun q d => do
      let (_, q) ← DistPriorityQueue.insert q d
      return q) q = some q' ∧ Tracks maxDist k ds.reverse q' := by
  suffices hmore : ∀ done, Tracks maxDist k done q → ∃ q', ds.foldlM (fun q d => do
      let (_, q) ← DistPriorityQueue.insert q d
      return q) q = some q' ∧ Tracks maxDist k (ds.reverse ++ done) q' by
    simpa using hmore [] h
  clear h
  induction ds generalizing q with
  | nil => exact fun done h => ⟨q, rfl, h⟩
  | cons d ds ih =>
    intro done h
    obtain ⟨accepted, q', hq', h', -⟩ := h.insert (hds d List.mem_cons_self)
    obtain ⟨q'', hq'', h''⟩ := ih (fun d hd => hds d (List.mem_cons_of_mem _ hd)) (d :: done) h'
    refine ⟨q'', ?_, by simpa using h''⟩
    rw [List.foldlM_cons, hq']
    exact hq''

inductive Op (D : Type) where
  | resize (size : Nat)
  | clear (count : Nat)
  | insert (dist : D)

def Op.starts : Op D → Option Nat
  | .resize size => some size
  | .clear count => some count
  | .insert _ => none

def step (fresh : Nat → D) (maxDist : D) (q : DistPriorityQueue D) :
    Op D → Option (DistPriorityQueue D)
  | .resize size => q.resize fresh maxDist size
  | .clear count => q.clear fresh maxDist count
  | .insert dist => do
    let (_, q) ← q.insert dist
    return q

def run (fresh : Nat → D) (maxDist : D) (ops : List (Op D)) (q : DistPriorityQueue D) :
    Option (DistPriorityQueue D) :=
  ops.foldlM (step fresh maxDist) q

def empty (d : D) : DistPriorityQueue D := ⟨0, ⟨0, fun _ => d⟩, 0, 0⟩

def Allocated (q : DistPriorityQueue D) : Prop := 0 < q.size → q.data.size = q.size + 1

theorem start_tracks (hk : 0 < k) (hsize : k < q.data.size) :
    ∃ q', start maxDist k q = some q' ∧ Tracks maxDist k [] q' := by
  have hone : 1 < min q.data.size (k + 1) := by omega
  refine ⟨_, congrArg (Option.bind · _)
    (set_of_lt (s := slots { q with length := 1, count := k }) hone _),
    hk, hsize, rfl, ?_, ?_, ?_⟩
  · exact (min_eq_right hk).symm
  · intro p c hc hlt
    exact absurd hc.lt (by have : c < 1 := hlt; omega)
  · have hcell : contents (nodes ⟨q.data.size, Function.update q.data.cell 1 maxDist⟩) 1 =
        maxDist ::ₘ (([] : List D) : Multiset D) := by
      rw [contents_succ, nodes_update (s := q.data) (i := 0)]
      simp [contents]
    have hsmall : IsSmallest 1 (maxDist ::ₘ (([] : List D) : Multiset D))
        (contents (nodes ⟨q.data.size, Function.update q.data.cell 1 maxDist⟩) 1) := by
      rw [← hcell]
      exact IsSmallest.contents
    exact hsmall

omit [LinearOrder D] in
theorem Allocated.of_eq {q' : DistPriorityQueue D} (h : Allocated q) (hsize : q'.size = q.size)
    (hdata : q'.data.size = q.data.size) : Allocated q' := fun hpos => by
  rw [hdata, hsize]
  exact h (hsize ▸ hpos)

omit [LinearOrder D] in
theorem start_allocated {q' : DistPriorityQueue D} (h : Allocated q)
    (hq' : start maxDist k q = some q') : Allocated q' := by
  obtain ⟨s, -, heq⟩ := Option.bind_eq_some_iff.mp hq'
  obtain rfl := Option.some.inj heq
  exact h.of_eq rfl rfl

theorem insert_allocated {q' : DistPriorityQueue D} {accepted : Bool} (h : Allocated q)
    (hq' : q.insert d = some (accepted, q')) : Allocated q' := by
  obtain ⟨first, -, hq'⟩ := Option.bind_eq_some_iff.mp hq'
  split at hq'
  · obtain ⟨-, rfl⟩ := Prod.mk.inj (Option.some.inj hq')
    exact h
  · split at hq'
    · obtain ⟨s, -, hq'⟩ := Option.bind_eq_some_iff.mp hq'
      obtain ⟨t, -, hq'⟩ := Option.bind_eq_some_iff.mp hq'
      obtain ⟨-, rfl⟩ := Prod.mk.inj (Option.some.inj hq')
      exact h.of_eq rfl rfl
    · obtain ⟨s, -, hq'⟩ := Option.bind_eq_some_iff.mp hq'
      obtain ⟨-, rfl⟩ := Prod.mk.inj (Option.some.inj hq')
      exact h.of_eq rfl rfl

theorem step_allocated {fresh : Nat → D} {q' : DistPriorityQueue D} {op : Op D} (h : Allocated q)
    (hq' : step fresh maxDist q op = some q') : Allocated q' := by
  cases op with
  | resize size => exact start_allocated (fun _ => rfl) hq'
  | clear count =>
    refine start_allocated ?_ hq'
    split
    · exact fun _ => rfl
    · exact h
  | insert dist =>
    obtain ⟨⟨accepted, q''⟩, hins, heq⟩ := Option.bind_eq_some_iff.mp hq'
    obtain rfl := Option.some.inj heq
    exact insert_allocated h hins

theorem run_allocated {fresh : Nat → D} {q' : DistPriorityQueue D} {ops : List (Op D)}
    (h : Allocated q) (hq' : run fresh maxDist ops q = some q') : Allocated q' := by
  induction ops generalizing q with
  | nil => exact Option.some.inj hq' ▸ h
  | cons op ops ih =>
    rw [run, List.foldlM_cons] at hq'
    obtain ⟨q'', hstep, hrest⟩ := Option.bind_eq_some_iff.mp hq'
    exact ih (step_allocated h hstep) hrest

theorem step_starts (fresh : Nat → D) {op : Op D} (h : Allocated q) (hk : 0 < k)
    (hop : op.starts = some k) :
    ∃ q', step fresh maxDist q op = some q' ∧ Tracks maxDist k [] q' := by
  cases op with
  | resize size =>
    obtain rfl := Option.some.inj hop
    exact start_tracks hk (Nat.lt_succ_self _)
  | clear count =>
    obtain rfl := Option.some.inj hop
    refine start_tracks hk ?_
    split
    · exact Nat.lt_succ_self _
    · rename_i hle
      exact (h (hk.trans_le (not_lt.mp hle))).symm ▸ Nat.lt_succ_of_le (not_lt.mp hle)
  | insert dist => exact nomatch hop

/-- Whatever was called before: from a start for `k` on, no insert leaves the `k + 1` cells, the
worst is the `k`-th smallest distance, and what is greater is turned down. -/
theorem worst_run (fresh : Nat → D) (maxDist d₀ : D) (before : List (Op D))
    {q : DistPriorityQueue D} (hq : run fresh maxDist before (empty d₀) = some q) (op : Op D)
    {k : Nat} (hop : op.starts = some k) (hk : 0 < k) (ds : List D) (hds : ∀ d ∈ ds, d ≤ maxDist) :
    ∃ q', run fresh maxDist (op :: ds.map .insert) q = some q' ∧
      q'.worst = some ((ds : Multiset D).sort.getD (k - 1) maxDist) ∧
      ∀ d ≤ maxDist, ∃ accepted q'', q'.insert d = some (accepted, q'') ∧
        (accepted = false ↔ (ds : Multiset D).sort.getD (k - 1) maxDist < d) := by
  have halloc : Allocated q := run_allocated (fun hpos => absurd hpos (lt_irrefl 0)) hq
  obtain ⟨q₁, hq₁, htracks⟩ := step_starts fresh halloc hk hop
  obtain ⟨q', hq', htracks'⟩ := htracks.inserts hds
  have hworst := htracks'.worst_eq fun d hd => hds d (List.mem_reverse.mp hd)
  rw [Multiset.coe_reverse] at hworst
  refine ⟨q', ?_, hworst, fun d hd => ?_⟩
  · rw [run, List.foldlM_cons, hq₁]
    refine Eq.trans ?_ hq'
    rw [Option.bind_eq_bind, Option.bind_some, List.foldlM_map]
    rfl
  · obtain ⟨accepted, q'', hq'', -, hiff⟩ := htracks'.insert hd
    have hroot := htracks'.worst_root
    rw [hworst] at hroot
    exact ⟨accepted, q'', hq'', (Option.some.inj hroot) ▸ hiff⟩

theorem worst_run_two : ∃ q', run (fun _ => 0) 100 [.clear 2, .insert 7, .insert 3, .insert 5]
    (empty 0) = some q' ∧ q'.worst = some 5 := by
  obtain ⟨q', hq', hworst, -⟩ := worst_run (fun _ => 0) 100 0 [] rfl (.clear 2) rfl Nat.two_pos
    [7, 3, 5] (by decide)
  have hsort : (([7, 3, 5] : List Nat) : Multiset Nat).sort = [3, 5, 7] :=
    sort_eq_of_pairwise (by decide) (by decide)
  rw [hsort] at hworst
  exact ⟨q', hq', hworst⟩

end DistPriorityQueue

end Sptag.COMMON
