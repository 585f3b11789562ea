import Sptag.Common
import Sptag.Lib.Bytes
import Sptag.Lib.Run

/-! The accounts of one `LRUCache`: its list of keys with the iterators of the map into it, its
size, and what its eviction loops were run for. -/

namespace Sptag.SPANN.Lru

open Lib

structure Node where
  id : Nat
  key : Nat
  deriving DecidableEq

structure CacheEntry where
  value : Bytes
  iter : Nat

structure CacheCounters where
  query : Nat
  queryHits : Nat
  put : Nat
  evict : Nat

structure Eviction where
  key : Nat
  free : Int
  needed : Int
  deriving DecidableEq

/-- `keys` starts with the most recent key; `nextId` is an address not in use, `evicted` lists
the evictions of the loops. -/
structure LRUCache where
  capacity : Int
  limit : Int
  size : Int
  keys : List Node
  cache : Nat → Option CacheEntry
  stat : CacheCounters
  nextId : Nat
  evicted : List Eviction

/-- The `FileIO` below the cache, as `Put` and `Get` without it, and the order in which the
map is iterated. -/
structure File (F : Type) where
  put : Nat → Bytes → F → Bool × F
  get : Nat → F → Option Bytes × F
  iterate : List Nat → List Nat
  iterate_perm : ∀ keys, (iterate keys).Perm keys

abbrev Chunk := {value : Bytes // value.length < 2 ^ 31}

def create (capacity : Int) (limit : Nat) : LRUCache where
  capacity := capacity
  limit := min capacity (limit * PageSize : Nat)
  size := 0
  keys := []
  cache _ := none
  stat := ⟨0, 0, 0, 0⟩
  nextId := 0
  evicted := []

def shortInt (needed free : Int) : Bool := toInt free < needed

def shortSize (needed : Nat) (free : Int) : Bool := toSize (toInt free) < needed

namespace LRUCache

variable {F : Type} (file : File F) (lru : LRUCache) (f : F) (key : Nat)

def free : Int := lru.capacity - lru.size

def countPut : LRUCache := { lru with stat := { lru.stat with put := lru.stat.put + 1 } }

def countEvict : LRUCache := { lru with stat := { lru.stat with evict := lru.stat.evict + 1 } }

def erase (e : CacheEntry) : LRUCache :=
  { lru with
    size := lru.size - e.value.length
    keys := lru.keys.filter (·.id ≠ e.iter)
    cache := Function.update lru.cache key none }

def evict : Bool × LRUCache × F :=
  match lru.cache key with
  | none => (false, lru, f)
  | some e =>
    let put := file.put key (e.value.take (toInt e.value.length).toNat) f
    if put.1 then (true, lru.countEvict.erase key e, put.2) else (false, lru.countEvict, put.2)

def splice (iter : Nat) : LRUCache :=
  { lru with keys := lru.keys.filter (·.id = iter) ++ lru.keys.filter (·.id ≠ iter) }

def update (value : Bytes) (iter : Nat) (delta : Int) : LRUCache :=
  { lru with
    cache := Function.update lru.cache key (some ⟨value, iter⟩)
    size := lru.size + delta }

def insert (value : Bytes) : LRUCache :=
  { lru with
    keys := ⟨lru.nextId, key⟩ :: lru.keys
    cache := Function.update lru.cache key (some ⟨value, lru.nextId⟩)
    size := lru.size + value.length
    nextId := lru.nextId + 1 }

def logEviction (free needed : Int) : LRUCache :=
  { lru with evicted := ⟨key, free, needed⟩ :: lru.evicted }

/-- The loops that evict the last key while `short` holds of the free space and more than
`least` keys are left; each turn removes a key, so `fuel` is their number. -/
def evictWhile (short : Int → Bool) (needed : Int) (least : Nat) :
    Nat → LRUCache → F → Bool × LRUCache × F
  | 0, lru, f => (true, lru, f)
  | fuel + 1, lru, f =>
    if short lru.free ∧ least < lru.keys.length then
      match lru.keys.getLast? with
      | none => (true, lru, f)
      | some last =>
        let evicted := lru.evict file f last.key
        if evicted.1 then
          evictWhile short needed least fuel
            (evicted.2.1.logEviction last.key lru.free needed) evicted.2.2
        else evicted
    else (true, lru, f)

def get : Option Bytes × LRUCache :=
  let counted := { lru with stat := { lru.stat with query := lru.stat.query + 1 } }
  match lru.cache key with
  | none => (none, counted)
  | some e =>
    (some e.value,
      { counted with stat := { counted.stat with queryHits := lru.stat.queryHits + 1 } })

def makeRoom (short : Int → Bool) (needed : Int) : Bool × LRUCache × F :=
  let room := evictWhile file short needed 1 lru.keys.length lru f
  if room.1 then room else (false, (room.2.1.evict file room.2.2 key).2)

def put (value : Bytes) : Bool × LRUCache × F :=
  match lru.cache key with
  | some old =>
    if lru.limit < value.length then (false, (lru.countPut.evict file f key).2)
    else
      let delta_size : Int := value.length - toInt old.value.length
      let room := (lru.countPut.splice old.iter).makeRoom file f key
        (shortInt delta_size) delta_size
      if room.1 then (true, room.2.1.update key value old.iter delta_size, room.2.2) else room
  | none =>
    if lru.limit < value.length then (false, lru.countPut, f)
    else
      let room := evictWhile file (shortInt value.length) value.length 0 lru.keys.length
        lru.countPut f
      if room.1 then (true, room.2.1.insert key value, room.2.2) else room

def del : Bool × LRUCache :=
  match lru.cache key with
  | none => (false, lru)
  | some e => (true, lru.erase key e)

def merge (value : Bytes) (checksum : Bytes → Bool) : Bool × LRUCache × F :=
  match lru.cache key with
  | none =>
    let got := file.get key f
    match got.1 with
    | none => (false, lru.countPut, got.2)
    | some old =>
      if checksum old then
        let valstr := old ++ value
        let room := evictWhile file (shortSize valstr.length) valstr.length 0
          lru.keys.length lru.countPut
          got.2
        if room.1 then (true, room.2.1.insert key valstr, room.2.2) else room
      else (false, lru.countPut, got.2)
  | some old =>
    if toSize lru.limit < value.length + old.value.length then
      (false, (lru.countPut.evict file f key).2)
    else
      let room := (lru.countPut.splice old.iter).makeRoom file f key
        (shortInt value.length) value.length
      if room.1 then (true, room.2.1.update key (old.value ++ value) old.iter
        value.length, room.2.2)
      else room

def flushEntries : List Nat → F → Bool × F
  | [], f => (true, f)
  | key :: keys, f =>
    match lru.cache key with
    | none => flushEntries keys f
    | some e =>
      let put := file.put key e.value f
      if put.1 then flushEntries keys put.2 else (false, put.2)

def flush : Bool × LRUCache × F :=
  let flushed := lru.flushEntries file (file.iterate (lru.keys.map Node.key)) f
  if flushed.1 then (true, { lru with keys := [], cache := fun _ => none, size := 0 }, flushed.2)
  else (false, lru, flushed.2)

end LRUCache

inductive Call
  | get (key : Nat)
  | put (key : Nat) (value : Chunk)
  | merge (key : Nat) (value : Chunk) (checksum : Bytes → Bool)
  | del (key : Nat)
  | flush

def step {F : Type} (file : File F) (s : LRUCache × F) : Call → LRUCache × F
  | .get key => ((s.1.get key).2, s.2)
  | .put key value => (s.1.put file s.2 key value.1).2
  | .merge key value checksum => (s.1.merge file s.2 key value.1 checksum).2
  | .del key => ((s.1.del key).2, s.2)
  | .flush => (s.1.flush file s.2).2

def length (cache : Nat → Option CacheEntry) (key : Nat) : Nat :=
  match cache key with
  | none => 0
  | some e => e.value.length

def total (keys : List Node) (cache : Nat → Option CacheEntry) : Nat :=
  (keys.map fun n => length cache n.key).sum

/-- The nodes are those that the iterators of the map point at, each with the key of its entry. -/
structure Linked (keys : List Node) (cache : Nat → Option CacheEntry) : Prop where
  ids : (keys.map Node.id).Nodup
  distinct : (keys.map Node.key).Nodup
  linked : ∀ n, n ∈ keys ↔ ∃ value, cache n.key = some ⟨value, n.id⟩

namespace Linked

variable {keys keys' : List Node} {cache : Nat → Option CacheEntry} {key : Nat} {e : CacheEntry}

theorem perm (h : Linked keys cache) (hp : keys.Perm keys') : Linked keys' cache where
  ids := (hp.map Node.id).nodup_iff.mp h.ids
  distinct := (hp.map Node.key).nodup_iff.mp h.distinct
  linked n := hp.mem_iff.symm.trans (h.linked n)

theorem mem (h : Linked keys cache) (he : cache key = some e) : (⟨e.iter, key⟩ : Node) ∈ keys :=
  (h.linked _).mpr ⟨e.value, he⟩

theorem id_eq_iff (h : Linked keys cache) (he : cache key = some e) {n : Node} (hn : n ∈ keys) :
    n.id = e.iter ↔ n = ⟨e.iter, key⟩ := by
  constructor
  · exact fun hid => List.inj_on_of_nodup_map h.ids hn (h.mem he) hid
  · rintro rfl
    rfl

theorem key_ne (h : Linked keys cache) (he : cache key = some e) {n : Node}
    (hn : n ∈ keys.filter (·.id ≠ e.iter)) : n.key ≠ key := by
  obtain ⟨hmem, hid⟩ := List.mem_filter.mp hn
  intro hkey
  have heq := List.inj_on_of_nodup_map h.distinct hmem (h.mem he) hkey
  exact (of_decide_eq_true hid) ((h.id_eq_iff he hmem).mpr heq)

theorem filter_eq (h : Linked keys cache) (he : cache key = some e) :
    keys.filter (·.id = e.iter) = [⟨e.iter, key⟩] := by
  have hnodup : keys.Nodup := List.Nodup.of_map _ h.ids
  have hcongr : keys.filter (·.id = e.iter) = keys.filter (· = ⟨e.iter, key⟩) :=
    List.filter_congr fun n hn => decide_eq_decide.mpr (h.id_eq_iff he hn)
  rw [hcongr, List.filter_eq, List.count_eq_one_of_mem hnodup (h.mem he), List.replicate_one]

theorem splice_perm (h : Linked keys cache) (he : cache key = some e) :
    keys.Perm (⟨e.iter, key⟩ :: keys.filter (·.id ≠ e.iter)) := by
  have hsplit := List.filter_append_perm (fun n : Node => decide (n.id = e.iter)) keys
  rw [h.filter_eq he] at hsplit
  refine hsplit.symm.trans ?_
  simp

end Linked

theorem length_update_of_ne {cache : Nat → Option CacheEntry} {key key' : Nat} (h : key' ≠ key)
    (e : Option CacheEntry) : length (Function.update cache key e) key' = length cache key' := by
  rw [length, length, Function.update_of_ne h]

theorem total_perm {keys keys' : List Node} (h : keys.Perm keys')
    (cache : Nat → Option CacheEntry) :
    total keys cache = total keys' cache := (h.map _).sum_eq

theorem total_update {keys : List Node} {key : Nat} (h : ∀ n ∈ keys, n.key ≠ key)
    (cache : Nat → Option CacheEntry) (e : Option CacheEntry) :
    total keys (Function.update cache key e) = total keys cache := by
  rw [total, total]
  congr 1
  exact List.map_congr_left fun n hn => length_update_of_ne (h n hn) e

namespace Linked

variable {keys : List Node} {cache : Nat → Option CacheEntry} {key : Nat} {e : CacheEntry}

theorem erase (h : Linked keys cache) (he : cache key = some e) :
    Linked (keys.filter (·.id ≠ e.iter)) (Function.update cache key none) where
  ids := h.ids.sublist ((List.filter_sublist).map _)
  distinct := h.distinct.sublist ((List.filter_sublist).map _)
  linked n := by
    constructor
    · intro hn
      rw [Function.update_of_ne (h.key_ne he hn)]
      exact (h.linked n).mp (List.mem_filter.mp hn).1
    · rintro ⟨value, hvalue⟩
      have hne : n.key ≠ key := by
        rintro rfl
        simp at hvalue
      rw [Function.update_of_ne hne] at hvalue
      have hmem := (h.linked n).mpr ⟨value, hvalue⟩
      refine List.mem_filter.mpr ⟨hmem, decide_eq_true fun hid => hne ?_⟩
      rw [(h.id_eq_iff he hmem).mp hid]

theorem total_erase (h : Linked keys cache) (he : cache key = some e) :
    total keys cache =
      e.value.length + total (keys.filter (·.id ≠ e.iter)) (Function.update cache key none) := by
  rw [total_update fun n hn => h.key_ne he hn, total_perm (h.splice_perm he)]
  simp [total, length, he]

theorem key_ne_of_none (h : Linked keys cache) (hnone : cache key = none) :
    ∀ n ∈ keys, n.key ≠ key := by
  rintro n hn rfl
  obtain ⟨value, hvalue⟩ := (h.linked n).mp hn
  rw [hnone] at hvalue
  cases hvalue

theorem insert (h : Linked keys cache) (hnone : cache key = none) {id : Nat}
    (hid : ∀ n ∈ keys, n.id ≠ id)
    (value : Bytes) : Linked (⟨id, key⟩ :: keys)
    (Function.update cache key (some ⟨value, id⟩)) where
  ids := by
    rw [List.map_cons, List.nodup_cons]
    refine ⟨fun hmem => ?_, h.ids⟩
    obtain ⟨n, hn, hnid⟩ := List.mem_map.mp hmem
    exact hid n hn hnid
  distinct := by
    rw [List.map_cons, List.nodup_cons]
    refine ⟨fun hmem => ?_, h.distinct⟩
    obtain ⟨n, hn, hkey⟩ := List.mem_map.mp hmem
    exact h.key_ne_of_none hnone n hn hkey
  linked n := by
    rw [List.mem_cons]
    by_cases hkey : n.key = key
    · constructor
      · rintro (rfl | hn)
        · exact ⟨value, by simp⟩
        · exact absurd hkey (h.key_ne_of_none hnone n hn)
      · rintro ⟨value', hvalue⟩
        rw [hkey, Function.update_self] at hvalue
        injection hvalue with hentry
        injection hentry with _ hnid
        left
        cases n
        simp_all
    · rw [Function.update_of_ne hkey, ← h.linked n]
      refine or_iff_right ?_
      rintro rfl
      exact hkey rfl

theorem total_insert (h : Linked keys cache) (hnone : cache key = none) (id : Nat) (value : Bytes) :
    total (⟨id, key⟩ :: keys) (Function.update cache key (some ⟨value, id⟩)) =
      value.length + total keys cache := by
  rw [← total_update (h.key_ne_of_none hnone) cache (some ⟨value, id⟩)]
  simp [total, length]

theorem update (h : Linked keys cache) (he : cache key = some e) (value : Bytes) :
    Linked keys (Function.update cache key (some ⟨value, e.iter⟩)) where
  ids := h.ids
  distinct := h.distinct
  linked n := by
    rw [h.linked n]
    by_cases hkey : n.key = key
    · rw [hkey, Function.update_self, he]
      constructor
      · rintro ⟨value', hvalue⟩
        have hentry : e = ⟨value', n.id⟩ := Option.some.inj hvalue
        exact ⟨value, by rw [hentry]⟩
      · rintro ⟨value', hvalue⟩
        have hid : e.iter = n.id := congrArg CacheEntry.iter (Option.some.inj hvalue)
        exact ⟨e.value, by rw [← hid]⟩
    · rw [Function.update_of_ne hkey]

theorem total_updated (h : Linked keys cache) (he : cache key = some e) (value : Bytes) :
    total keys (Function.update cache key (some ⟨value, e.iter⟩)) + e.value.length =
      total keys cache + value.length := by
  have hne : ∀ n ∈ keys.filter (·.id ≠ e.iter), n.key ≠ key := fun n hn => h.key_ne he hn
  rw [total_perm (h.splice_perm he), total_perm (h.splice_perm he), total, total, List.map_cons,
    List.map_cons, List.sum_cons, List.sum_cons]
  have hrest := total_update hne cache (some ⟨value, e.iter⟩)
  rw [total, total] at hrest
  rw [hrest]
  simp only [length, Function.update_self, he]
  omega

end Linked

/-- The keys of the list and of the map are the same, each once, the iterators point at their
own keys, the size is that of the values and in the capacity, and no loop evicted a key while
there was room. -/
structure Accounted (lru : LRUCache) : Prop where
  linked : Linked lru.keys lru.cache
  size_eq : lru.size = total lru.keys lru.cache
  fits : lru.size ≤ lru.capacity
  justified : ∀ ev ∈ lru.evicted, ev.free < ev.needed

def Ints (cache : Nat → Option CacheEntry) : Prop :=
  ∀ key e, cache key = some e → e.value.length < 2 ^ 31

theorem Ints.update {cache : Nat → Option CacheEntry} (h : Ints cache) (key : Nat)
    {e : Option CacheEntry}
    (he : ∀ e', e = some e' → e'.value.length < 2 ^ 31) : Ints (Function.update cache key e) := by
  intro key' e' he'
  by_cases hkey : key' = key
  · rw [hkey, Function.update_self] at he'
    exact he e' he'
  · rw [Function.update_of_ne hkey] at he'
    exact h key' e' he'

structure Inv (lru : LRUCache) : Prop extends Accounted lru where
  fresh : ∀ n ∈ lru.keys, n.id < lru.nextId
  ints : Ints lru.cache
  limit_le : lru.limit ≤ lru.capacity
  limit_nonneg : 0 ≤ lru.limit

structure Frame (lru lru' : LRUCache) : Prop where
  capacity : lru'.capacity = lru.capacity
  limit : lru'.limit = lru.limit
  keys : lru'.keys <+: lru.keys
  cache : ∀ n ∈ lru'.keys, lru'.cache n.key = lru.cache n.key
  absent : ∀ key, lru.cache key = none → lru'.cache key = none

theorem Frame.refl (lru : LRUCache) : Frame lru lru :=
  ⟨rfl, rfl, List.prefix_refl _, fun _ _ => rfl, fun _ h => h⟩

theorem Frame.trans {a b c : LRUCache} (h : Frame a b) (h' : Frame b c) : Frame a c where
  capacity := h'.capacity.trans h.capacity
  limit := h'.limit.trans h.limit
  keys := h'.keys.trans h.keys
  cache n hn := (h'.cache n hn).trans (h.cache n (h'.keys.subset hn))
  absent key hkey := h'.absent key (h.absent key hkey)

/-- Every test that the loop comes to tells right whether `needed` bytes are free, for values of
these lengths from the back of the list. -/
def Honest (short : Int → Bool) (needed : Int) (least : Nat) : List Nat → Int → Prop
  | [], _ => True
  | len :: lens, free => least ≤ lens.length →
    (needed ≤ free → short free = false) ∧
    (free < needed → Honest short needed least lens (free + len))

def lengths (lru : LRUCache) : List Nat := lru.keys.reverse.map fun n => length lru.cache n.key

section Calls

variable {F : Type} {file : File F} {lru : LRUCache} {key : Nat} {e : CacheEntry}

theorem Inv.free_nonneg (h : Inv lru) : 0 ≤ lru.free := Int.sub_nonneg_of_le h.fits

theorem Inv.countPut (h : Inv lru) : Inv lru.countPut :=
  ⟨⟨h.linked, h.size_eq, h.fits, h.justified⟩, h.fresh, h.ints, h.limit_le, h.limit_nonneg⟩

theorem Inv.countEvict (h : Inv lru) : Inv lru.countEvict :=
  ⟨⟨h.linked, h.size_eq, h.fits, h.justified⟩, h.fresh, h.ints, h.limit_le, h.limit_nonneg⟩

theorem Inv.erase (h : Inv lru) (he : lru.cache key = some e) : Inv (lru.erase key e) := by
  have htotal := h.linked.total_erase he
  have hsize := h.size_eq
  have hfits := h.fits
  refine ⟨⟨h.linked.erase he, ?_, ?_, h.justified⟩, ?_, ?_, h.limit_le, h.limit_nonneg⟩
  · show lru.size - e.value.length =
      total (lru.keys.filter (·.id ≠ e.iter)) (Function.update lru.cache key none)
    omega
  · show lru.size - e.value.length ≤ lru.capacity
    omega
  · exact fun n hn => h.fresh n (List.mem_filter.mp hn).1
  · exact h.ints.update key fun e' he' => by cases he'

theorem Inv.evict (h : Inv lru) (f : F) (key : Nat) : Inv (lru.evict file f key).2.1 := by
  unfold LRUCache.evict
  split
  · exact h
  · rename_i e he
    dsimp only
    split
    · exact h.countEvict.erase he
    · exact h.countEvict

theorem Inv.splice (h : Inv lru) (he : lru.cache key = some e) : Inv (lru.splice e.iter) := by
  have hperm : lru.keys.Perm (lru.splice e.iter).keys := by
    rw [LRUCache.splice, h.linked.filter_eq he]
    exact h.linked.splice_perm he
  refine ⟨⟨h.linked.perm hperm, h.size_eq.trans ?_, h.fits, h.justified⟩, ?_, h.ints, h.limit_le,
    h.limit_nonneg⟩
  · rw [total_perm hperm]
    rfl
  · exact fun n hn => h.fresh n (hperm.mem_iff.mpr hn)

theorem Inv.insert (h : Inv lru) (hnone : lru.cache key = none) {value : Bytes}
    (hint : value.length < 2 ^ 31) (hroom : (value.length : Int) ≤ lru.free) :
    Inv (lru.insert key value) := by
  have hid : ∀ n ∈ lru.keys, n.id ≠ lru.nextId := fun n hn => Nat.ne_of_lt (h.fresh n hn)
  have htotal := h.linked.total_insert hnone lru.nextId value
  have hsize := h.size_eq
  refine ⟨⟨h.linked.insert hnone hid value, ?_, ?_, h.justified⟩, ?_, ?_, h.limit_le,
    h.limit_nonneg⟩
  · show lru.size + value.length = total (⟨lru.nextId, key⟩ :: lru.keys)
      (Function.update lru.cache key (some ⟨value, lru.nextId⟩))
    omega
  · show lru.size + value.length ≤ lru.capacity
    rw [LRUCache.free] at hroom
    omega
  · intro n hn
    rcases List.mem_cons.mp hn with rfl | hn
    · exact Nat.lt_succ_self _
    · exact Nat.lt_succ_of_lt (h.fresh n hn)
  · exact h.ints.update key fun e' he' => by
      cases he'
      exact hint

theorem Inv.update (h : Inv lru) (he : lru.cache key = some e) {value : Bytes} {delta : Int}
    (hdelta : delta = value.length - e.value.length) (hint : value.length < 2 ^ 31)
    (hroom : delta ≤ lru.free) : Inv (lru.update key value e.iter delta) := by
  have htotal := h.linked.total_updated he value
  have hsize := h.size_eq
  refine ⟨⟨h.linked.update he value, ?_, ?_, h.justified⟩, h.fresh, ?_, h.limit_le, h.limit_nonneg⟩
  · show lru.size + delta = total lru.keys (Function.update lru.cache key (some ⟨value, e.iter⟩))
    omega
  · show lru.size + delta ≤ lru.capacity
    rw [LRUCache.free] at hroom
    omega
  · exact h.ints.update key fun e' he' => by
      cases he'
      exact hint

theorem Linked.filter_concat {keys : List Node} {n : Node} {cache : Nat → Option CacheEntry}
    (h : Linked (keys ++ [n]) cache) : (keys ++ [n]).filter (·.id ≠ n.id) = keys := by
  have hids := h.ids
  rw [List.map_append, List.nodup_append] at hids
  have hkeep : keys.filter (·.id ≠ n.id) = keys := by
    refine List.filter_eq_self.mpr fun m hm => decide_eq_true ?_
    exact hids.2.2 m.id (List.mem_map_of_mem hm) n.id (by simp)
  rw [List.filter_append, hkeep]
  simp

theorem lengths_concat {keys : List Node} {n : Node} (h : lru.keys = keys ++ [n]) :
    lengths lru = length lru.cache n.key :: keys.reverse.map fun m => length lru.cache m.key := by
  rw [lengths, h]
  simp

theorem evict_cases (file : File F) (he : lru.cache key = some e) (f : F) :
    (∃ f', lru.evict file f key = (true, lru.countEvict.erase key e, f')) ∨
      ∃ f', lru.evict file f key = (false, lru.countEvict, f') := by
  unfold LRUCache.evict
  rw [he]
  dsimp only
  split
  · exact .inl ⟨_, rfl⟩
  · exact .inr ⟨_, rfl⟩

section Loop

variable {short : Int → Bool} {needed : Int} {least : Nat}

theorem evictWhile_stop (h : ¬ (short lru.free = true ∧ least < lru.keys.length))
    (fuel : Nat) (f : F) :
    LRUCache.evictWhile file short needed least fuel lru f = (true, lru, f) := by
  cases fuel with
  | zero => rfl
  | succ fuel =>
    unfold LRUCache.evictWhile
    rw [if_neg h]

theorem evictWhile_turn {keys : List Node} {n : Node} (hkeys : lru.keys = keys ++ [n])
    (h : short lru.free = true ∧ least < lru.keys.length) (fuel : Nat) (f : F) :
    LRUCache.evictWhile file short needed least (fuel + 1) lru f =
      if (lru.evict file f n.key).1 then
        LRUCache.evictWhile file short needed least fuel
          ((lru.evict file f n.key).2.1.logEviction n.key lru.free needed)
          (lru.evict file f n.key).2.2
      else lru.evict file f n.key := by
  have hlast : lru.keys.getLast? = some n := by rw [hkeys, List.getLast?_concat]
  rw [LRUCache.evictWhile, if_pos h, hlast]

def dropLast (lru : LRUCache) (n : Node) (value : Bytes) (needed : Int) : LRUCache :=
  (lru.countEvict.erase n.key ⟨value, n.id⟩).logEviction n.key lru.free needed

theorem Inv.dropLast (h : Inv lru) {keys : List Node} {n : Node} (hkeys : lru.keys = keys ++ [n])
    {value : Bytes} (he : lru.cache n.key = some ⟨value, n.id⟩) (hlt : lru.free < needed) :
    Inv (dropLast lru n value needed) ∧ Frame lru (dropLast lru n value needed) ∧
      (dropLast lru n value needed).keys = keys ∧
      (dropLast lru n value needed).free = lru.free + value.length ∧
      lengths (dropLast lru n value needed) = keys.reverse.map fun m => length lru.cache m.key := by
  have hlinked := h.linked
  rw [hkeys] at hlinked
  have hkeys₁ : (Lru.dropLast lru n value needed).keys = keys := by
    show lru.keys.filter (·.id ≠ n.id) = keys
    rw [hkeys, hlinked.filter_concat]
  have hother : ∀ m ∈ keys, m.key ≠ n.key := by
    intro m hm
    rw [← hkeys₁] at hm
    exact h.linked.key_ne he hm
  have herase := h.countEvict.erase he
  refine ⟨⟨⟨herase.linked, herase.size_eq, herase.fits, ?_⟩, herase.fresh, herase.ints,
    herase.limit_le,
      herase.limit_nonneg⟩,
    ⟨rfl, rfl, ?_, ?_, ?_⟩, hkeys₁, ?_, ?_⟩
  · rintro ev (_ | ⟨_, hev⟩)
    · exact hlt
    · exact h.justified ev hev
  · rw [hkeys₁, hkeys]
    exact List.prefix_append _ _
  · rw [hkeys₁]
    exact fun m hm => Function.update_of_ne (hother m hm) _ _
  · intro key hnone
    by_cases hkey : key = n.key
    · rw [hkey, he] at hnone
      cases hnone
    · exact (Function.update_of_ne hkey _ _).trans hnone
  · show lru.capacity - (lru.size - value.length) = lru.capacity - lru.size + value.length
    omega
  · rw [lengths, hkeys₁]
    exact List.map_congr_left fun m hm =>
      length_update_of_ne (hother m (List.mem_reverse.mp hm)) none

/-- What a loop does: it keeps the invariant, takes keys from the end, and stops when its test
fails or too few keys are left. -/
structure Made (short : Int → Bool) (least : Nat) (lru : LRUCache)
    (r : Bool × LRUCache × F) : Prop where
  inv : Inv r.2.1
  frame : Frame lru r.2.1
  stopped : r.1 = true → short r.2.1.free = false ∨ r.2.1.keys.length ≤ least
  enough : least ≤ lru.keys.length → least ≤ r.2.1.keys.length

theorem evictWhile_spec (file : File F) (fuel : Nat) (f : F) (h : Inv lru)
    (hhonest : Honest short needed least (lengths lru) lru.free) (hfuel : lru.keys.length ≤ fuel) :
    Made short least lru (LRUCache.evictWhile file short needed least fuel lru f) := by
  induction fuel generalizing lru f with
  | zero => exact ⟨h, .refl lru, fun _ => .inr (hfuel.trans (Nat.zero_le _)), id⟩
  | succ fuel ih =>
    by_cases htest : short lru.free = true ∧ least < lru.keys.length
    · rcases List.eq_nil_or_concat lru.keys with hnil | ⟨keys, n, hkeys⟩
      · rw [hnil] at htest
        exact absurd htest.2 (Nat.not_lt_zero _)
      · rw [List.concat_eq_append] at hkeys
        obtain ⟨value, he⟩ := (h.linked.linked n).mp (by rw [hkeys]; simp)
        rw [evictWhile_turn hkeys htest]
        rcases evict_cases file he f with ⟨f', hevict⟩ | ⟨f', hevict⟩
        · rw [lengths_concat hkeys, length, he] at hhonest
          have hlen : lru.keys.length = keys.length + 1 := by
            rw [hkeys, List.length_append]
            rfl
          obtain ⟨htells, hnext⟩ := hhonest (by simp; omega)
          have hlt : lru.free < needed := by
            by_contra hle
            have hfalse := htells (not_lt.mp hle)
            rw [hfalse] at htest
            cases htest.1
          obtain ⟨hinv, hframe, hkeys₁, hfree, hlengths⟩ := h.dropLast hkeys he hlt
          have hhonest₁ := hnext hlt
          rw [← hlengths, ← hfree] at hhonest₁
          obtain ⟨hinv', hframe', hstop, hmany⟩ := ih f' hinv hhonest₁ (by rw [hkeys₁]; omega)
          rw [hevict, if_pos rfl]
          refine ⟨hinv', hframe.trans hframe', hstop, fun _ => hmany ?_⟩
          rw [hkeys₁]
          omega
        · rw [hevict, if_neg Bool.false_ne_true]
          exact ⟨h.countEvict, ⟨rfl, rfl, List.prefix_refl _, fun _ _ => rfl, fun _ h => h⟩,
            fun hfalse => absurd hfalse Bool.false_ne_true, id⟩
    · rw [evictWhile_stop htest]
      refine ⟨h, .refl lru, fun _ => ?_, id⟩
      by_cases hshort : short lru.free = true
      · exact .inr (Nat.not_lt.mp fun hlt => htest ⟨hshort, hlt⟩)
      · exact .inl (Bool.eq_false_of_not_eq_true hshort)

end Loop

theorem shortInt_eq_false {needed free : Int} (hfree : 0 ≤ free)
    (h : shortInt needed free = false) :
    needed ≤ free :=
  (not_lt.mp (of_decide_eq_false h)).trans (toInt_le hfree)

theorem shortSize_eq_false {needed : Nat} {free : Int} (hfree : 0 ≤ free)
    (hneeded : needed < 2 ^ 31)
    (h : shortSize needed free = false) : needed ≤ free := by
  have hle : needed ≤ toSize (toInt free) := not_lt.mp (of_decide_eq_false h)
  by_cases hlt : free < 2 ^ 31
  · rw [toInt_eq hfree hlt, toSize] at hle
    omega
  · omega

theorem splice_keys (h : Inv lru) (he : lru.cache key = some e) :
    (lru.splice e.iter).keys = ⟨e.iter, key⟩ :: lru.keys.filter (·.id ≠ e.iter) := by
  rw [LRUCache.splice, h.linked.filter_eq he]
  rfl

/-- What the loops promise: when they succeed there is room, and the map holds of `key` what it
held. -/
structure Room (key : Nat) (entry : Option CacheEntry) (needed : Int)
    (r : Bool × LRUCache × F) : Prop where
  inv : Inv r.2.1
  free : r.1 = true → needed ≤ r.2.1.free
  cache : r.1 = true → r.2.1.cache key = entry

theorem Room.insert {value : Bytes} {r : Bool × LRUCache × F} (h : Room key none value.length r)
    (hint : value.length < 2 ^ 31) :
    Inv (if r.1 then (true, r.2.1.insert key value, r.2.2) else r).2.1 := by
  split
  · rename_i hok
    exact h.inv.insert (h.cache hok) hint (h.free hok)
  · exact h.inv

theorem Room.update {value : Bytes} {delta : Int} {r : Bool × LRUCache × F}
    (h : Room key (some e) delta r)
    (hdelta : delta = value.length - e.value.length) (hint : value.length < 2 ^ 31) :
    Inv (if r.1 then (true, r.2.1.update key value e.iter delta, r.2.2) else r).2.1 := by
  split
  · rename_i hok
    exact h.inv.update (h.cache hok) hdelta hint (h.free hok)
  · exact h.inv

theorem makeRoom_spec (h : Inv lru) (he : lru.cache key = some e) {needed : Int} (f : F)
    (hhonest : Honest (shortInt needed) needed 1 (lengths (lru.splice e.iter)) lru.free)
    (hfits : e.value.length + needed ≤ lru.limit) :
    Room key (some e) needed
      ((lru.splice e.iter).makeRoom file f key (shortInt needed) needed) := by
  have hmade := evictWhile_spec file (lru.splice e.iter).keys.length f (h.splice he) hhonest le_rfl
  unfold LRUCache.makeRoom
  generalize LRUCache.evictWhile file (shortInt needed) needed 1 (lru.splice e.iter).keys.length
    (lru.splice e.iter) f = r at hmade
  have hfirst := splice_keys h he
  dsimp only
  cases hok : r.1 with
  | false =>
    rw [if_neg Bool.false_ne_true]
    exact ⟨hmade.inv.evict r.2.2 key, fun hfalse => absurd hfalse Bool.false_ne_true,
      fun hfalse => absurd hfalse Bool.false_ne_true⟩
  | true =>
    rw [if_pos rfl]
    have hone : 1 ≤ r.2.1.keys.length := by
      refine hmade.enough ?_
      rw [hfirst]
      simp
    obtain ⟨keys, hkeys⟩ : ∃ keys, r.2.1.keys = ⟨e.iter, key⟩ :: keys := by
      obtain ⟨rest, hprefix⟩ := hmade.frame.keys
      rw [hfirst] at hprefix
      cases hr : r.2.1.keys with
      | nil =>
        rw [hr] at hone
        cases hone
      | cons n keys =>
        rw [hr] at hprefix
        injection hprefix with hhead _
        exact ⟨keys, by rw [hhead]⟩
    have hcache : r.2.1.cache key = some e :=
      (hmade.frame.cache ⟨e.iter, key⟩ (by rw [hkeys]; exact .head _)).trans he
    refine ⟨hmade.inv, fun _ => ?_, fun _ => hcache⟩
    rcases hmade.stopped hok with hshort | hfew
    · exact shortInt_eq_false hmade.inv.free_nonneg hshort
    · have hnil : keys = [] := by
        rw [hkeys, List.length_cons] at hfew
        exact List.length_eq_zero_iff.mp (by omega)
      have htotal : total r.2.1.keys r.2.1.cache = e.value.length := by
        rw [hkeys, hnil]
        simp [total, length, hcache]
      have hsize := hmade.inv.size_eq
      have hlimit := hmade.inv.limit_le
      have hsame : r.2.1.limit = lru.limit := hmade.frame.limit
      rw [LRUCache.free]
      omega

theorem evictAll_spec {short : Int → Bool} {needed : Nat} (h : Inv lru)
    (hnone : lru.cache key = none) (f : F)
    (hhonest : Honest short needed 0 (lengths lru) lru.free) (hfits : (needed : Int) ≤ lru.capacity)
    (hshort : ∀ free, 0 ≤ free → short free = false → (needed : Int) ≤ free) :
    Room key none needed (LRUCache.evictWhile file short needed 0 lru.keys.length lru f) := by
  have hmade := evictWhile_spec file lru.keys.length f h hhonest le_rfl
  generalize LRUCache.evictWhile file short needed 0 lru.keys.length lru f = r at hmade
  refine ⟨hmade.inv, fun hok => ?_, fun _ => hmade.frame.absent key hnone⟩
  rcases hmade.stopped hok with hstop | hfew
  · exact hshort _ hmade.inv.free_nonneg hstop
  · have hsize := hmade.inv.size_eq
    rw [List.length_eq_zero_iff.mp (Nat.le_zero.mp hfew)] at hsize
    have hcapacity := hmade.frame.capacity
    have hzero : total [] r.2.1.cache = 0 := rfl
    rw [LRUCache.free]
    omega

/-- What a call needs: the tests of its loop tell right, and what a merge makes is counted by an
`int` and, when it was not cached, is within the capacity. -/
def Fits (file : File F) (s : LRUCache × F) : Call → Prop
  | .put key value =>
    match s.1.cache key with
    | some old => (value.1.length : Int) ≤ s.1.limit →
      let delta : Int := value.1.length - old.value.length
      Honest (shortInt delta) delta 1 (lengths (s.1.splice old.iter)) s.1.free
    | none => (value.1.length : Int) ≤ s.1.limit →
      Honest (shortInt value.1.length) value.1.length 0 (lengths s.1) s.1.free
  | .merge key value checksum =>
    match s.1.cache key with
    | some old => (value.1.length + old.value.length : Nat) ≤ s.1.limit →
      value.1.length + old.value.length < 2 ^ 31 ∧
        Honest (shortInt value.1.length) value.1.length 1 (lengths (s.1.splice old.iter)) s.1.free
    | none => ∀ old, (file.get key s.2).1 = some old → checksum old = true →
      let needed := (old ++ value.1).length
      needed < 2 ^ 31 ∧ (needed : Int) ≤ s.1.capacity ∧
        Honest (shortSize needed) needed 0 (lengths s.1) s.1.free
  | _ => True

theorem Inv.put (h : Inv lru) (value : Chunk) {f : F}
    (hfits : Fits file (lru, f) (.put key value)) :
    Inv (lru.put file f key value.1).2.1 := by
  rw [Fits] at hfits
  unfold LRUCache.put
  dsimp only at hfits
  cases he : lru.cache key with
  | some old =>
    rw [he] at hfits
    dsimp only at hfits ⊢
    split
    · exact h.countPut.evict f key
    · rename_i hlimit
      rw [toInt_of_lt (h.ints key old he)]
      refine (makeRoom_spec h.countPut he f (hfits (not_lt.mp hlimit)) ?_).update rfl value.2
      show _ ≤ lru.limit
      omega
  | none =>
    rw [he] at hfits
    dsimp only at hfits ⊢
    split
    · exact h.countPut
    · rename_i hlimit
      exact (evictAll_spec h.countPut he f (hfits (not_lt.mp hlimit))
        ((not_lt.mp hlimit).trans h.limit_le) fun free hfree =>
          shortInt_eq_false hfree).insert value.2

theorem Inv.merge (h : Inv lru) (value : Chunk) {checksum : Bytes → Bool} {f : F}
    (hfits : Fits file (lru, f) (.merge key value checksum)) :
    Inv (lru.merge file f key value.1 checksum).2.1 := by
  rw [Fits] at hfits
  unfold LRUCache.merge
  dsimp only at hfits
  cases he : lru.cache key with
  | some old =>
    rw [he] at hfits
    dsimp only at hfits ⊢
    split
    · exact h.countPut.evict f key
    · rename_i hsize
      have hle : ((value.1.length + old.value.length : Nat) : Int) ≤ lru.limit := by
        have hnonneg := h.limit_nonneg
        rw [toSize] at hsize
        omega
      obtain ⟨hint, hhonest⟩ := hfits hle
      refine (makeRoom_spec h.countPut he f hhonest ?_).update ?_ ?_
      · show _ ≤ lru.limit
        omega
      · rw [List.length_append]
        omega
      · rw [List.length_append]
        omega
  | none =>
    rw [he] at hfits
    dsimp only at hfits ⊢
    cases hgot : (file.get key f).1 with
    | none => exact h.countPut
    | some old =>
      dsimp only
      split
      · rename_i hvalid
        obtain ⟨hint, hcapacity, hhonest⟩ := hfits old hgot hvalid
        exact (evictAll_spec h.countPut he (file.get key f).2 hhonest hcapacity
          fun free hfree => shortSize_eq_false hfree hint).insert hint
      · exact h.countPut

theorem Inv.del (h : Inv lru) (key : Nat) : Inv (lru.del key).2 := by
  unfold LRUCache.del
  split
  · exact h
  · exact h.erase ‹_›

theorem Inv.flush (h : Inv lru) (f : F) : Inv (lru.flush file f).2.1 := by
  unfold LRUCache.flush
  dsimp only
  split
  · exact ⟨⟨⟨List.nodup_nil, List.nodup_nil, fun n => by simp⟩, rfl,
      h.limit_nonneg.trans h.limit_le, h.justified⟩,
      fun n hn => absurd hn List.not_mem_nil, (fun _ _ he => by cases he), h.limit_le,
        h.limit_nonneg⟩
  · exact h

theorem Inv.get (h : Inv lru) (key : Nat) : Inv (lru.get key).2 := by
  unfold LRUCache.get
  split
  · exact ⟨⟨h.linked, h.size_eq, h.fits, h.justified⟩, h.fresh, h.ints, h.limit_le, h.limit_nonneg⟩
  · exact ⟨⟨h.linked, h.size_eq, h.fits, h.justified⟩, h.fresh, h.ints, h.limit_le, h.limit_nonneg⟩

theorem Inv.step {s : LRUCache × F} (h : Inv s.1) (c : Call) (hfits : Fits file s c) :
    Inv (step file s c).1 := by
  cases c with
  | get key => exact h.get key
  | put key value => exact h.put value hfits
  | merge key value checksum => exact h.merge value hfits
  | del key => exact h.del key
  | flush => exact h.flush s.2

end Calls

theorem create_inv {capacity : Int} (h : 0 ≤ capacity) (limit : Nat) :
    Inv (create capacity limit) where
  linked := ⟨List.nodup_nil, List.nodup_nil, fun n => by simp [create]⟩
  size_eq := rfl
  fits := h
  justified _ hev := absurd hev List.not_mem_nil
  fresh _ hn := absurd hn List.not_mem_nil
  ints _ _ he := by cases he
  limit_le := min_le_left _ _
  limit_nonneg := le_min h (Int.natCast_nonneg _)

/-- The accounts are right after each call while every test of a loop tells right how much is
free and every merge into a value that is not cached makes one that the cache can hold. -/
theorem accounted {F : Type} (file : File F) {capacity : Int} (h : 0 ≤ capacity)
    (limit : Nat) (f : F)
    {calls : List Call} (hfits : Along (step file) (Fits file) (create capacity limit, f) calls) :
    Throughout (step file) (fun s => Accounted s.1) (create capacity limit, f) calls := by
  have hstep : ∀ s c, Fits file s c → Inv s.1 → Inv (step file s c).1 :=
    fun s c hc hs => hs.step c hc
  have hinv : Throughout (step file) (fun s => Inv s.1) (create capacity limit, f) calls :=
    hfits.throughout hstep (create_inv h limit)
  exact hinv.mono fun _ hs => hs.toAccounted

def oneByte : File Unit where
  put _ _ f := (true, f)
  get _ f := (some [0], f)
  iterate keys := keys
  iterate_perm keys := .refl keys

theorem accounted_full : Throughout (step oneByte) (fun s => Accounted s.1) (create 3 1, ())
    [.put 0 ⟨[0, 0], by decide⟩, .put 1 ⟨[0, 0], by decide⟩,
      .merge 1 ⟨[0], by decide⟩ fun _ => true] := by
  refine accounted oneByte (by decide) 1 () ⟨fun _ => trivial, fun _ => ?_, fun _ => ?_, trivial⟩
  · exact fun _ => ⟨fun h => absurd h (by decide), fun _ => trivial⟩
  · exact ⟨by decide, fun h => absurd h (by decide)⟩

theorem not_accounted : ¬ Throughout (step oneByte) (fun s => Accounted s.1)
    (create (2 ^ 31 + 1) 1, ())
    [.put 0 ⟨[0], by decide⟩, .put 1 ⟨[0], by decide⟩] := by
  intro h
  exact absurd (h.last.justified ⟨0, 2 ^ 31, 1⟩ (by decide)) (by decide)

end Sptag.SPANN.Lru
