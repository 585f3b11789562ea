import Sptag.Lib.Slots

/-! `inc/Core/Common/Heap.h`: the bounded queue of candidates, a min-heap in the cells from 1 to
`count`. -/

namespace Sptag.COMMON

open Lib Slots

structure Heap (T : Type) where
  heap : Slots T
  length : Nat
  count : Nat
  lastlevel : Nat

namespace Heap

variable {T : Type}

/-- `fresh` is what `new` leaves in the cells. -/
def resize (fresh : Nat → T) (size : Nat) : Heap T where
  heap := ⟨size + 1, fresh⟩
  length := size
  count := 0
  lastlevel := 2 ^ Nat.log 2 size

def clear (fresh : Nat → T) (h : Heap T) (size : Int) : Heap T :=
  let h := if (h.length : Int) < size then resize fresh size.toNat else h
  { h with count := 0 }

def top (h : Heap T) : Option T := if h.count = 0 then h.heap.get 0 else h.heap.get 1

section Operations

variable [LinearOrder T]

def maxOfLast (h : Heap T) : Option Nat :=
  (List.range' (h.lastlevel + 1) (h.length - h.lastlevel)).foldlM (fun maxi i => do
    let largest ← h.heap.get maxi
    let element ← h.heap.get i
    return if largest < element then i else maxi) h.lastlevel

def insert (h : Heap T) (value : T) : Option (Heap T) :=
  if h.count = h.length then do
    let maxi ← h.maxOfLast
    let largest ← h.heap.get maxi
    if largest < value then return h
    else
      let heap ← siftUp (fun parent value => value < parent) value (h.length + 1) h.heap maxi
      return { h with heap := heap }
  else do
    let loc := h.count + 1
    let heap ← siftUp (fun parent value => value < parent) value (h.length + 1) h.heap loc
    return { h with heap := heap, count := loc }

def heapify (h : Heap T) : Option (Heap T) := do
  let heap ← siftDown (fun above below => below < above) h.count (h.count + 1) h.heap 1 2
  return { h with heap := heap }

def popTo (h : Heap T) : Option (Option T × Heap T) :=
  if h.count = 0 then return (none, h)
  else do
    let value ← h.heap.get 1
    let heap ← h.heap.swap 1 h.count
    let h ← heapify { h with heap := heap, count := h.count - 1 }
    return (some value, h)

def pop (h : Heap T) : Option (T × Heap T) :=
  if h.count = 0 then do
    let first ← h.heap.get 0
    return (first, h)
  else do
    let heap ← h.heap.swap 1 h.count
    let h ← heapify { h with heap := heap, count := h.count - 1 }
    let last ← h.heap.get (h.count + 1)
    return (last, h)

end Operations

def content (h : Heap T) : Multiset T := contents h.heap.nodes h.count

section Ordered

variable [LinearOrder T] {h : Heap T} {n : Nat}

def IsMinHeap (r : Nat → T) (n : Nat) : Prop := ∀ p c, IsChild c p → c < n → r p ≤ r c

structure Ordered (h : Heap T) : Prop where
  size : h.heap.size = h.length + 1
  capacity : 0 < h.length
  lastlevel : h.lastlevel = 2 ^ Nat.log 2 h.length
  count : h.count ≤ h.length
  heap : IsMinHeap h.heap.nodes h.count

theorem IsMinHeap.root_le {r : Nat → T} (h : IsMinHeap r n) {i : Nat} (hi : i < n) : r 0 ≤ r i :=
  IsHeap.le_root (α := Tᵒᵈ) h hi

theorem resize_ordered (fresh : Nat → T) (hn : 0 < n) : (resize fresh n).Ordered where
  size := rfl
  capacity := hn
  lastlevel := rfl
  count := Nat.zero_le _
  heap _ c _ hc := absurd hc (Nat.not_lt_zero c)

theorem clear_ordered (fresh : Nat → T) (ho : h.Ordered) (size : Int) :
    (h.clear fresh size).Ordered := by
  unfold clear
  split
  · rename_i hlt
    exact resize_ordered fresh (by have := ho.capacity; omega)
  · exact { ho with
      count := Nat.zero_le _
      heap := fun _ c _ hc => absurd hc (Nat.not_lt_zero c) }

theorem Ordered.leaf (ho : h.Ordered) {p d : Nat} (hp : h.lastlevel ≤ p + 1) (hd : IsChild d p) :
    h.length ≤ d := by
  have hpow := Nat.lt_pow_succ_log_self Nat.one_lt_two h.length
  rw [ho.lastlevel] at hp
  rw [pow_succ] at hpow
  unfold IsChild at hd
  omega

theorem maxOfLast_spec (ho : h.Ordered) :
    ∃ p, h.maxOfLast = some (p + 1) ∧ p < h.length ∧ h.lastlevel ≤ p + 1 := by
  have hle : h.lastlevel ≤ h.length := ho.lastlevel ▸ Nat.pow_log_le_self 2 ho.capacity.ne'
  have hpos : 0 < h.lastlevel := ho.lastlevel ▸ Nat.two_pow_pos _
  have hscan : ∀ (is : List Nat) (maxi : Nat), (∀ i ∈ maxi :: is, h.lastlevel ≤ i ∧ i ≤ h.length) →
      ∃ p, is.foldlM (fun maxi i => do
        let largest ← h.heap.get maxi
        let element ← h.heap.get i
        return if largest < element then i else maxi) maxi = some (p + 1) ∧ p < h.length ∧
          h.lastlevel ≤ p + 1 := by
    intro is
    induction is with
    | nil =>
      intro maxi hmaxi
      obtain ⟨hlow, hhigh⟩ := hmaxi maxi (List.mem_singleton_self maxi)
      obtain ⟨p, rfl⟩ := Nat.exists_eq_add_one_of_ne_zero (hpos.trans_le hlow).ne'
      exact ⟨p, rfl, hhigh, hlow⟩
    | cons i is ih =>
      intro maxi hmaxi
      have hin : ∀ j ∈ maxi :: i :: is, j < h.heap.size := fun j hj => by
        rw [ho.size]
        exact Nat.lt_succ_of_le (hmaxi j hj).2
      rw [List.foldlM_cons, get_of_lt (hin maxi (by simp)), get_of_lt (hin i (by simp))]
      refine ih _ fun j hj => hmaxi j ?_
      split at hj
      · exact List.mem_cons_of_mem _ (by simpa using hj)
      · exact (List.mem_cons.mp hj).elim (fun h => by simp [h]) fun h => by simp [h]
  refine hscan _ _ fun i hi => ?_
  rcases List.mem_cons.mp hi with rfl | hi
  · exact ⟨le_rfl, hle⟩
  · rw [List.mem_range'_1] at hi
    omega

theorem siftUp_min {s : Slots T} {m p : Nat} (value : T) (rounds : Nat)
    (hheap : IsMinHeap s.nodes m)
    (hleaf : ∀ d, IsChild d p → n ≤ d) (hm : ∀ k, k < n → k ≠ p → k < m) (hn : n < s.size)
    (hp : p < n) (hrounds : n ≤ rounds) :
    ∃ s', siftUp (fun parent value => value < parent) value rounds s (p + 1) = some s' ∧
      s'.size = s.size ∧ IsMinHeap s'.nodes n ∧
      contents s'.nodes n = contents (Function.update s.nodes p value) n := by
  have hrising := IsHeap.rising (α := Tᵒᵈ) (x := value) hheap hleaf hm
  obtain ⟨s', hs', hheap', hsame⟩ := @siftUp_spec Tᵒᵈ s n (fun parent value : T => value < parent)
    (fun parent value : T => inferInstanceAs (Decidable (value < parent))) p rounds _
    (fun _ _ => Iff.rfl) value hrising hn hp
    (hp.trans_le hrounds)
  refine ⟨s', hs', hsame.size, hheap', ?_⟩
  rw [← nodes_update]
  exact hsame.contents

theorem insert_full (ho : h.Ordered) (hfull : h.count = h.length) (value : T) :
    ∃ h', h.insert value = some h' ∧ h'.Ordered ∧ h'.length = h.length ∧
      ∃ x, (∃ y ∈ h'.content, y ≤ x) ∧ x ::ₘ h'.content = value ::ₘ h.content := by
  obtain ⟨p, hp, hplt, hlast⟩ := maxOfLast_spec ho
  have hsize : p + 1 < h.heap.size := by
    rw [ho.size]
    exact Nat.succ_lt_succ hplt
  rw [insert, if_pos hfull, hp]
  simp only [Option.bind_eq_bind, Option.bind_some, get_of_lt hsize]
  by_cases hle : h.heap.cell (p + 1) < value
  · rw [if_pos hle]
    exact ⟨h, rfl, ho, rfl, value, ⟨_, mem_contents.mpr ⟨p, hfull ▸ hplt, rfl⟩, hle.le⟩, rfl⟩
  · obtain ⟨heap, hheap, hs, hmin, hcontents⟩ := siftUp_min (n := h.length) value _
      (hfull ▸ ho.heap) (fun d hd => ho.leaf hlast hd) (fun k hk _ => hk)
      (ho.size ▸ Nat.lt_succ_self _) hplt (Nat.le_succ _)
    rw [if_neg hle, hheap]
    refine ⟨_, rfl, ⟨hs.trans ho.size, ho.capacity, ho.lastlevel, ho.count, hfull ▸ hmin⟩, rfl,
      h.heap.nodes p, ⟨value, ?_, not_lt.mp hle⟩, ?_⟩
    · rw [content, hfull]
      exact hcontents ▸ mem_contents.mpr ⟨p, hplt, Function.update_self ..⟩
    · rw [content, content, hfull]
      exact (congrArg _ hcontents).trans (contents_update hplt value)

theorem insert_room (ho : h.Ordered) (hroom : h.count < h.length) (value : T) :
    ∃ h', h.insert value = some h' ∧ h'.Ordered ∧ h'.length = h.length ∧
      h'.content = value ::ₘ h.content := by
  obtain ⟨heap, hheap, hs, hmin, hcontents⟩ := siftUp_min (n := h.count + 1) value
    (h.length + 1) ho.heap (fun d hd => hd.lt) (fun k hk hne => by omega)
    (ho.size ▸ Nat.succ_lt_succ hroom) (Nat.lt_succ_self _) (Nat.succ_le_succ ho.count)
  rw [insert, if_neg hroom.ne]
  simp only [hheap, Option.bind_eq_bind, Option.bind_some]
  refine ⟨_, rfl, ⟨hs.trans ho.size, ho.capacity, ho.lastlevel, hroom, hmin⟩, rfl, ?_⟩
  rw [content, content]
  refine hcontents.trans ?_
  rw [contents_succ, Function.update_self]
  exact congrArg _ (contents_congr fun i hi => Function.update_of_ne hi.ne _ _)

theorem siftDown_min {s t : Slots T} (hheap : IsMinHeap s.nodes (n + 1)) (hn : n < t.size)
    (ht : t.nodes = exchange s.nodes 0 n) :
    ∃ s', siftDown (fun above below => below < above) n (n + 1) t 1 2 = some s' ∧
      IsMinHeap s'.nodes n ∧ Rearranged n t s' := by
  have hsifting : Sifting (α := Tᵒᵈ) t.nodes n 0 := by
    rw [ht]
    exact IsHeap.sifting_last (α := Tᵒᵈ) hheap
  exact @siftDown_root Tᵒᵈ t n (fun above below : T => below < above)
    (fun above below : T => inferInstanceAs (Decidable (below < above))) (n + 1) _
    (fun _ _ => Iff.rfl) hsifting hn n.lt_succ_self

theorem heapify_spec (ho : h.Ordered) (hpos : 0 < h.count) :
    ∃ h', heapify { h with
        heap := { h.heap with cell := exchange h.heap.cell 1 h.count }, count := h.count - 1 } =
          some h' ∧ h'.Ordered ∧ h'.length = h.length ∧ h'.count + 1 = h.count ∧
      h.content = h.heap.nodes 0 ::ₘ h'.content ∧ h'.heap.nodes h'.count = h.heap.nodes 0 := by
  obtain ⟨n, hn⟩ := Nat.exists_eq_add_one_of_ne_zero hpos.ne'
  have hlt : n < h.length := hn.symm.trans_le ho.count
  have hnodes := nodes_exchange (s := h.heap) (i := 0) (j := n)
  obtain ⟨heap, hheap, hmin, hsame⟩ := siftDown_min (hn ▸ ho.heap)
    (ho.size ▸ hlt.trans (Nat.lt_succ_self _)) hnodes
  have hlast : heap.nodes n = h.heap.nodes 0 := by
    rw [hsame.above n le_rfl, hnodes, exchange_right]
  have hcontent : contents h.heap.nodes (n + 1) = h.heap.nodes 0 ::ₘ contents heap.nodes n := by
    rw [hsame.contents, hnodes, ← contents_exchange n.succ_pos n.lt_succ_self, contents_succ,
      exchange_right]
  refine ⟨{ h with heap := heap, count := n }, ?_, ?_, rfl, hn.symm, ?_, hlast⟩
  · simp only [heapify, hn, Nat.add_sub_cancel]
    exact congrArg (Option.bind · _) hheap
  · exact ⟨hsame.size.trans ho.size, ho.capacity, ho.lastlevel, hlt.le, hmin⟩
  · rw [content, content, hn, hcontent]

theorem Ordered.isLeast (ho : h.Ordered) (hpos : 0 < h.count) :
    IsLeast {x | x ∈ h.content} (h.heap.nodes 0) := by
  refine ⟨mem_contents.mpr ⟨0, hpos, rfl⟩, fun x hx => ?_⟩
  obtain ⟨i, hi, rfl⟩ := mem_contents.mp hx
  exact ho.heap.root_le hi

theorem popTo_spec (ho : h.Ordered) (hpos : 0 < h.count) :
    ∃ value h', h.popTo = some (some value, h') ∧ h'.Ordered ∧ h'.length = h.length ∧
      IsLeast {x | x ∈ h.content} value ∧ h.content = value ::ₘ h'.content := by
  obtain ⟨h', hh', ho', hlength, -, hcontent, -⟩ := heapify_spec ho hpos
  have hsize : ∀ i, i ≤ h.count → i < h.heap.size := fun i hi =>
    ho.size ▸ Nat.lt_succ_of_le (hi.trans ho.count)
  refine ⟨h.heap.nodes 0, h', ?_, ho', hlength, ho.isLeast hpos, hcontent⟩
  rw [popTo, if_neg hpos.ne', get_of_lt (hsize 1 hpos), swap_of_lt (hsize 1 hpos) (hsize _ le_rfl)]
  simp only [Option.bind_eq_bind, Option.bind_some, hh']
  rfl

theorem pop_spec (ho : h.Ordered) (hpos : 0 < h.count) :
    ∃ value h', h.pop = some (value, h') ∧ h'.Ordered ∧ h'.length = h.length ∧
      IsLeast {x | x ∈ h.content} value ∧ h.content = value ::ₘ h'.content := by
  obtain ⟨h', hh', ho', hlength, hcount, hcontent, hlast⟩ := heapify_spec ho hpos
  have hsize : ∀ i, i ≤ h.count → i < h.heap.size := fun i hi =>
    ho.size ▸ Nat.lt_succ_of_le (hi.trans ho.count)
  have hback : h'.count + 1 < h'.heap.size := by
    rw [ho'.size, hlength, hcount]
    exact Nat.lt_succ_of_le ho.count
  refine ⟨h.heap.nodes 0, h', ?_, ho', hlength, ho.isLeast hpos, hcontent⟩
  rw [pop, if_neg hpos.ne', swap_of_lt (hsize 1 hpos) (hsize _ le_rfl)]
  simp only [Option.bind_eq_bind, Option.bind_some, hh', get_of_lt hback]
  exact congrArg (fun value => some (value, h')) hlast

end Ordered

inductive Op (T : Type) where
  | insert (value : T)
  | pop
  | popTo
  | clear (size : Int)

def Op.capacity (length : Nat) : Op T → Nat
  | .clear size => max length size.toNat
  | _ => length

theorem clear_length (fresh : Nat → T) (h : Heap T) (size : Int) :
    (h.clear fresh size).length = max h.length size.toNat := by
  unfold clear
  split
  · have hle : h.length ≤ size.toNat := by omega
    exact (max_eq_right hle).symm
  · have hle : size.toNat ≤ h.length := by omega
    exact (max_eq_left hle).symm

variable [LinearOrder T]

def step (fresh : Nat → T) (h : Heap T) : Op T → Option (Option T × Heap T)
  | .insert value => do
    let h ← h.insert value
    return (none, h)
  | .pop => do
    let (value, h) ← h.pop
    return (some value, h)
  | .popTo => h.popTo
  | .clear size => return (none, h.clear fresh size)

def run (fresh : Nat → T) (ops : List (Op T)) (h : Heap T) : Option (Heap T) :=
  ops.foldlM (fun h op => do
    let (_, h) ← h.step fresh op
    return h) h

def Effect (h : Heap T) (out : Option T) (h' : Heap T) : Op T → Prop
  | .insert value =>
    if h.count < h.length then h'.content = value ::ₘ h.content
    else (∃ x ∈ value ::ₘ h.content, x ::ₘ h'.content = value ::ₘ h.content) ∧
      ∀ m, IsLeast {x | x ∈ h'.content} m ↔ IsLeast {x | x ∈ value ::ₘ h.content} m
  | .pop => if h.count = 0 then h' = h else
      ∃ value, out = some value ∧ IsLeast {x | x ∈ h.content} value ∧
        h.content = value ::ₘ h'.content
  | .popTo => if h.count = 0 then out = none ∧ h' = h else
      ∃ value, out = some value ∧ IsLeast {x | x ∈ h.content} value ∧
        h.content = value ::ₘ h'.content
  | .clear _ => h'.content = 0

theorem isLeast_cons {M : Multiset T} {x y m : T} (hy : y ∈ M) (hle : y ≤ x) :
    IsLeast {z | z ∈ M} m ↔ IsLeast {z | z ∈ x ::ₘ M} m := by
  constructor
  · rintro ⟨hm, hlow⟩
    refine ⟨Multiset.mem_cons_of_mem hm, fun z hz => ?_⟩
    rcases Multiset.mem_cons.mp hz with rfl | hz
    · exact (hlow hy).trans hle
    · exact hlow hz
  · rintro ⟨hm, hlow⟩
    refine ⟨?_, fun z hz => hlow (Multiset.mem_cons_of_mem hz)⟩
    rcases Multiset.mem_cons.mp hm with rfl | hm
    · exact le_antisymm hle (hlow (Multiset.mem_cons_of_mem hy)) ▸ hy
    · exact hm

theorem step_spec {h : Heap T} (fresh : Nat → T) (ho : h.Ordered) (op : Op T) :
    ∃ out h', h.step fresh op = some (out, h') ∧ h'.Ordered ∧
      h'.length = op.capacity h.length ∧ Effect h out h' op := by
  have hsize : 0 < h.heap.size := ho.size ▸ Nat.succ_pos _
  cases op with
  | insert value =>
    by_cases hroom : h.count < h.length
    · obtain ⟨h', hh', ho', hlength, hcontent⟩ := insert_room ho hroom value
      exact ⟨none, h', by simp [step, hh'], ho', hlength, by rwa [Effect, if_pos hroom]⟩
    · have hfull : h.count = h.length := le_antisymm ho.count (not_lt.mp hroom)
      obtain ⟨h', hh', ho', hlength, x, ⟨y, hy, hle⟩, hcontent⟩ := insert_full ho hfull value
      refine ⟨none, h', by simp [step, hh'], ho', hlength, ?_⟩
      rw [Effect, if_neg hroom, ← hcontent]
      exact ⟨⟨x, Multiset.mem_cons_self _ _, rfl⟩, fun m => isLeast_cons hy hle⟩
  | pop =>
    rcases h.count.eq_zero_or_pos with hzero | hpos
    · exact ⟨some (h.heap.cell 0), h, by simp [step, pop, hzero, get_of_lt hsize], ho,
        rfl, by rw [Effect, if_pos hzero]⟩
    · obtain ⟨value, h', hh', ho', hlength, hleast, hcontent⟩ := pop_spec ho hpos
      refine ⟨some value, h', by simp [step, hh'], ho', hlength, ?_⟩
      rw [Effect, if_neg hpos.ne']
      exact ⟨value, rfl, hleast, hcontent⟩
  | popTo =>
    rcases h.count.eq_zero_or_pos with hzero | hpos
    · exact ⟨none, h, by simp [step, popTo, hzero], ho, rfl, by simp [Effect, hzero]⟩
    · obtain ⟨value, h', hh', ho', hlength, hleast, hcontent⟩ := popTo_spec ho hpos
      refine ⟨some value, h', hh', ho', hlength, ?_⟩
      rw [Effect, if_neg hpos.ne']
      exact ⟨value, rfl, hleast, hcontent⟩
  | clear size =>
    exact ⟨none, _, rfl, clear_ordered fresh ho size, clear_length fresh h size, rfl⟩

theorem run_ordered {h : Heap T} (fresh : Nat → T) (ho : h.Ordered) (ops : List (Op T)) :
    ∃ h', run fresh ops h = some h' ∧ h'.Ordered := by
  induction ops generalizing h with
  | nil => exact ⟨h, rfl, ho⟩
  | cons op ops ih =>
    obtain ⟨out, h', hh', ho', -⟩ := step_spec fresh ho op
    obtain ⟨h'', hh'', ho''⟩ := ih ho'
    refine ⟨h'', ?_, ho''⟩
    rw [run, List.foldlM_cons, hh']
    exact hh''

/-- Whatever was called on a heap of some capacity, no access left its array, it is ordered, and
the next call does what a bounded queue does. -/
theorem run_queues (fresh : Nat → T) {capacity : Nat} (hcapacity : 0 < capacity)
    (ops : List (Op T)) :
    ∃ h, run fresh ops (resize fresh capacity) = some h ∧ IsMinHeap h.heap.nodes h.count ∧
      ∀ op, ∃ out h', h.step fresh op = some (out, h') ∧ IsMinHeap h'.heap.nodes h'.count ∧
        h'.length = op.capacity h.length ∧ Effect h out h' op := by
  obtain ⟨h, hh, ho⟩ := run_ordered fresh (resize_ordered fresh hcapacity) ops
  refine ⟨h, hh, ho.heap, fun op => ?_⟩
  obtain ⟨out, h', hh', ho', heffect⟩ := step_spec fresh ho op
  exact ⟨out, h', hh', ho'.heap, heffect⟩

theorem run_queues_two : ∃ h, run (fun _ => 0) [.insert 5, .insert 3, .insert 4]
    (resize (fun _ => 0) 2) =
      some h ∧ IsMinHeap h.heap.nodes h.count := by
  obtain ⟨h, hh, hmin, -⟩ := run_queues (T := Nat) (fun _ => 0) Nat.two_pos
    [.insert 5, .insert 3, .insert 4]
  exact ⟨h, hh, hmin⟩

end Heap

end Sptag.COMMON
