import Sptag.Common.Heap
import Sptag.Lib.Keyed

/-! `Heap` of `inc/Core/Common/Heap.h` for elements that are compared by a key, as a
`NodeDistPair` is by its distance, so that different elements may be equal to the queue. -/

namespace Sptag.COMMON

open Lib Slots

namespace Heap

variable {T D : Type}

section Source

variable [LinearOrder D] (key : T → D)

def maxOfLastBy (h : Heap T) : Option Nat :=
  (List.range' (h.lastlevel + 1) (h.length - h.lastlevel)).foldlM (fun maxi i => do
    let largest ← h.heap.get maxi
    let element ← h.heap.get i
    return if key largest < key element then i else maxi) h.lastlevel

def insertBy (h : Heap T) (value : T) : Option (Heap T) :=
  if h.count = h.length then do
    let maxi ← h.maxOfLastBy key
    let largest ← h.heap.get maxi
    if key largest < key value then return h
    else
      let heap ← siftUp (fun parent value => key value < key parent) value
        (h.length + 1) h.heap maxi
      return { h with heap := heap }
  else do
    let loc := h.count + 1
    let heap ← siftUp (fun parent value => key value < key parent) value (h.length + 1) h.heap loc
    return { h with heap := heap, count := loc }

def heapifyBy (h : Heap T) : Option (Heap T) := do
  let heap ← siftDown (fun above below => key below < key above) h.count (h.count + 1) h.heap 1 2
  return { h with heap := heap }

def popBy (h : Heap T) : Option (T × Heap T) :=
  if h.count = 0 then do
    let first ← h.heap.get 0
    return (first, h)
  else do
    let heap ← h.heap.swap 1 h.count
    let h ← heapifyBy key { h with heap := heap, count := h.count - 1 }
    let last ← h.heap.get (h.count + 1)
    return (last, h)

end Source

def map (key : T → D) (h : Heap T) : Heap D := { h with heap := h.heap.map key }

@[simp] theorem heap_map (key : T → D) (h : Heap T) : (h.map key).heap = h.heap.map key := rfl

@[simp] theorem length_map (key : T → D) (h : Heap T) : (h.map key).length = h.length := rfl

@[simp] theorem count_map (key : T → D) (h : Heap T) : (h.map key).count = h.count := rfl

@[simp] theorem lastlevel_map (key : T → D) (h : Heap T) : (h.map key).lastlevel =
  h.lastlevel := rfl

theorem content_map (key : T → D) (h : Heap T) : (h.map key).content = h.content.map key := by
  rw [content, content, contents, contents, Multiset.map_map]
  rfl

section Keys

variable [LinearOrder D] {key : T → D}

theorem maxOfLast_map (h : Heap T) : (h.map key).maxOfLast = h.maxOfLastBy key := by
  unfold maxOfLast maxOfLastBy
  simp only [heap_map, length_map, lastlevel_map]
  refine congrArg (fun f => List.foldlM f _ _) (funext fun maxi => funext fun i => ?_)
  rw [get_map, get_map]
  cases h.heap.get maxi with
  | none => rfl
  | some largest =>
    cases h.heap.get i with
    | none => rfl
    | some element => rfl

theorem insert_map (h : Heap T) (value : T) :
    (h.map key).insert (key value) = (h.insertBy key value).map (map key) := by
  have hsift : ∀ loc, siftUp (fun parent value => value < parent) (key value) (h.length + 1)
      (h.heap.map key) loc = (siftUp (fun parent value => key value < key parent) value
        (h.length + 1)
        h.heap loc).map (Slots.map key) := fun loc =>
    siftUp_map (fun _ _ => Iff.rfl) value (h.length + 1) h.heap loc
  unfold insert insertBy
  rw [maxOfLast_map]
  by_cases hfull : h.count = h.length
  · rw [if_pos (show (h.map key).count = (h.map key).length from hfull), if_pos hfull]
    cases h.maxOfLastBy key with
    | none => rfl
    | some maxi =>
      simp only [Option.bind_eq_bind, Option.bind_some, heap_map, length_map, get_map, hsift]
      cases h.heap.get maxi with
      | none => rfl
      | some largest =>
        simp only [Option.map_some, Option.bind_some]
        by_cases hlt : key largest < key value
        · rw [if_pos hlt, if_pos hlt]
          rfl
        · rw [if_neg hlt, if_neg hlt]
          cases siftUp (fun parent value => key value < key parent) value (h.length + 1)
            h.heap maxi with
          | none => rfl
          | some heap => rfl
  · rw [if_neg (show (h.map key).count ≠ (h.map key).length from hfull), if_neg hfull]
    simp only [heap_map, length_map, count_map, hsift]
    cases siftUp (fun parent value => key value < key parent) value (h.length + 1) h.heap
        (h.count + 1) with
    | none => rfl
    | some heap => rfl

theorem heapify_map (h : Heap T) : (h.map key).heapify = (h.heapifyBy key).map (map key) := by
  unfold heapify heapifyBy
  have hless : ∀ above below : T, key below < key above ↔
      (fun above below => key below < key above) above below := fun _ _ => Iff.rfl
  rw [heap_map, count_map, siftDown_map hless]
  cases siftDown (fun above below => key below < key above) h.count (h.count + 1) h.heap 1 2 with
  | none => rfl
  | some heap => rfl

end Keys

section Ordered

variable [LinearOrder D] {key : T → D} {h h' : Heap T} {value : T}

structure OrderedBy (key : T → D) (first : T) (h : Heap T) : Prop where
  ordered : (h.map key).Ordered
  zero : h.heap.cell 0 = first

variable {first : T}

theorem OrderedBy.size (ho : OrderedBy key first h) : h.heap.size = h.length + 1 := ho.ordered.size

theorem OrderedBy.count_le (ho : OrderedBy key first h) : h.count ≤ h.length := ho.ordered.count

theorem OrderedBy.top (ho : OrderedBy key first h) :
    h.top = some (if h.count = 0 then first else h.heap.nodes 0) := by
  have hpos : 1 < h.heap.size := ho.size ▸ Nat.succ_lt_succ ho.ordered.capacity
  unfold Heap.top
  split
  · rw [get_of_lt (Nat.zero_lt_of_lt hpos), ho.zero]
  · exact get_of_lt hpos

theorem orderedBy_resize (fresh : Nat → T) {n : Nat} (hn : 0 < n) :
    OrderedBy key (fresh 0) (resize fresh n) :=
  ⟨resize_ordered (key ∘ fresh) hn, rfl⟩

theorem OrderedBy.clear (ho : OrderedBy key first h) {fresh : Nat → T} (hfresh : fresh 0 = first)
    (size : Int) : OrderedBy key first (h.clear fresh size) := by
  have hordered := clear_ordered (key ∘ fresh) ho.ordered size
  unfold Heap.clear at hordered ⊢
  split
  · rename_i hlt
    rw [if_pos (show ((h.map key).length : Int) < size from hlt)] at hordered
    exact ⟨hordered, hfresh⟩
  · rename_i hle
    rw [if_neg (show ¬ ((h.map key).length : Int) < size from hle)] at hordered
    exact ⟨hordered, ho.zero⟩

theorem OrderedBy.insert (ho : OrderedBy key first h) (value : T) :
    ∃ h', h.insertBy key value = some h' ∧ OrderedBy key first h' ∧ h'.length = h.length ∧
      (if h.count < h.length then h'.content = value ::ₘ h.content
      else ∃ x, (∃ y ∈ h'.content, key y ≤ key x) ∧ x ::ₘ h'.content = value ::ₘ h.content) := by
  by_cases hroom : h.count < h.length
  · obtain ⟨k, hk, hordered, hlength, -⟩ := insert_room ho.ordered hroom (key value)
    rw [insert_map] at hk
    obtain ⟨h', hh', rfl⟩ := Option.map_eq_some_iff.mp hk
    refine ⟨h', hh', ?_⟩
    rw [insertBy, if_neg hroom.ne] at hh'
    obtain ⟨heap, hheap, heq⟩ := Option.bind_eq_some_iff.mp hh'
    obtain rfl := Option.some.inj heq
    have hmoved := siftUp_moved (Nat.lt_succ_self h.count) hheap
    refine ⟨⟨hordered, hmoved.zero.trans ?_⟩, rfl, ?_⟩
    · exact (Function.update_of_ne (Nat.succ_ne_zero h.count).symm value h.heap.cell).trans ho.zero
    · rw [if_pos hroom, content, content]
      refine hmoved.contents.trans ?_
      rw [nodes_update, contents_succ, Function.update_self]
      exact congrArg _ (contents_congr fun i hi => Function.update_of_ne hi.ne _ _)
  · have hfull : h.count = h.length := ho.count_le.antisymm (not_lt.mp hroom)
    obtain ⟨k, hk, hordered, -, -⟩ := insert_full ho.ordered hfull (key value)
    rw [insert_map] at hk
    obtain ⟨h', hh', rfl⟩ := Option.map_eq_some_iff.mp hk
    refine ⟨h', hh', ?_⟩
    obtain ⟨p, hp, hplt, -⟩ := maxOfLast_spec ho.ordered
    rw [maxOfLast_map] at hp
    have hcell : h.heap.get (p + 1) = some (h.heap.nodes p) :=
      get_of_lt (ho.size ▸ Nat.succ_lt_succ hplt)
    rw [insertBy, if_pos hfull, hp] at hh'
    simp only [Option.bind_eq_bind, Option.bind_some, hcell] at hh'
    rw [if_neg hroom]
    split at hh'
    · rename_i hlt
      obtain rfl := Option.some.inj hh'
      refine ⟨ho, rfl, value, ⟨h.heap.nodes p, ?_, hlt.le⟩, rfl⟩
      exact mem_contents.mpr ⟨p, hfull ▸ hplt, rfl⟩
    · rename_i hle
      obtain ⟨heap, hheap, heq⟩ := Option.bind_eq_some_iff.mp hh'
      obtain rfl := Option.some.inj heq
      have hmoved := siftUp_moved (show p < h.count from hfull ▸ hplt) hheap
      refine ⟨⟨hordered, hmoved.zero.trans ?_⟩, rfl, h.heap.nodes p, ⟨value, ?_, not_lt.mp hle⟩, ?_⟩
      · exact (Function.update_of_ne (Nat.succ_ne_zero p).symm value h.heap.cell).trans ho.zero
      · rw [content, hmoved.contents, nodes_update]
        exact mem_contents.mpr ⟨p, hfull ▸ hplt, Function.update_self ..⟩
      · rw [content, hmoved.contents, nodes_update, content]
        exact contents_update (hfull ▸ hplt) value

theorem card_content (h : Heap T) : h.content.card = h.count := card_contents

theorem OrderedBy.insert_content (ho : OrderedBy key first h) (value : T) :
    ∃ h' gone, h.insertBy key value = some h' ∧ OrderedBy key first h' ∧ h'.length = h.length ∧
      gone + h'.content = value ::ₘ h.content ∧ (h.count < h.length → gone = 0) ∧
      h.count ≤ h'.count ∧ 0 < h'.count := by
  obtain ⟨h', hh', hordered, hlength, hcontent⟩ := ho.insert value
  by_cases hroom : h.count < h.length
  · rw [if_pos hroom] at hcontent
    have hcount := congrArg Multiset.card hcontent
    rw [Multiset.card_cons, card_content, card_content] at hcount
    refine ⟨h', 0, hh', hordered, hlength, ?_, fun _ => rfl, ?_, ?_⟩
    · rw [hcontent, Multiset.zero_add]
    · rw [hcount]
      exact Nat.le_succ _
    · rw [hcount]
      exact Nat.succ_pos _
  · rw [if_neg hroom] at hcontent
    obtain ⟨x, -, hx⟩ := hcontent
    have hcount := congrArg Multiset.card hx
    rw [Multiset.card_cons, Multiset.card_cons, card_content, card_content] at hcount
    have hpos := ho.ordered.capacity
    refine ⟨h', {x}, hh', hordered, hlength, hx, fun h => absurd h hroom, ?_, ?_⟩
    · exact (Nat.succ.inj hcount).ge
    · rw [Nat.succ.inj hcount]
      exact hpos.trans_le (not_lt.mp hroom)

theorem OrderedBy.pop (ho : OrderedBy key first h) (hpos : 0 < h.count) :
    ∃ value h', h.popBy key = some (value, h') ∧ OrderedBy key first h' ∧ h'.length = h.length ∧
      (∀ x ∈ h.content, key value ≤ key x) ∧ h.content = value ::ₘ h'.content := by
  obtain ⟨n, hn⟩ := Nat.exists_eq_add_one_of_ne_zero hpos.ne'
  have hsize : ∀ i, i ≤ h.count → i < h.heap.size := fun i hi =>
    ho.size ▸ Nat.lt_succ_of_le (hi.trans ho.count_le)
  -- the queue of the keys says that the last element finds its place
  obtain ⟨k, hk, hordered, -, -, -, -⟩ := heapify_spec ho.ordered hpos
  have hheapify := (@heapify_map T D _ key { h with
    heap := { h.heap with cell := exchange h.heap.cell 1 h.count }, count :=
      h.count - 1 }).symm.trans hk
  obtain ⟨h', hh', rfl⟩ := Option.map_eq_some_iff.mp hheapify
  obtain ⟨heap, hheap, heq⟩ := Option.bind_eq_some_iff.mp hh'
  obtain rfl := Option.some.inj heq
  have hmoved := siftDown_moved (p := 0) (Nat.zero_le 1) hheap
  have hcells : nodes { h.heap with cell := exchange h.heap.cell 1 h.count } =
      exchange h.heap.nodes 0 n := by
    rw [hn]
    exact nodes_exchange (s := h.heap) (i := 0) (j := n)
  have hlast : heap.nodes n = h.heap.nodes 0 := by
    rw [hmoved.above n (Nat.sub_le_of_le_add hn.le), hcells, exchange_right]
  have hpopped : (some (heap.nodes n) : Option T) = heap.get (h.count - 1 + 1) := by
    rw [hn]
    exact (get_of_lt (hmoved.size ▸ hsize (n + 1) hn.ge)).symm
  refine ⟨h.heap.nodes 0, _, ?_, ⟨hordered, ?_⟩, rfl, fun x hx => ?_, ?_⟩
  · rw [popBy, if_neg hpos.ne', swap_of_lt (hsize 1 hpos) (hsize _ le_rfl), Option.bind_eq_bind,
      Option.bind_some, hh', Option.bind_eq_bind, Option.bind_some, ← hpopped, hlast]
    rfl
  · exact (hmoved.zero.trans (exchange_of_ne Nat.zero_ne_one hpos.ne)).trans ho.zero
  · have hleast := ho.ordered.isLeast hpos
    rw [content_map] at hleast
    exact hleast.2 (Multiset.mem_map_of_mem key hx)
  · have hcount : h.count - 1 = n := by rw [hn, Nat.add_sub_cancel]
    have hcontents := hmoved.contents
    dsimp only [content] at hcontents ⊢
    rw [hcount] at hcontents ⊢
    rw [hcontents, hcells, hn, ← contents_exchange n.succ_pos n.lt_succ_self, contents_succ,
      exchange_right]

end Ordered

end Heap

end Sptag.COMMON
