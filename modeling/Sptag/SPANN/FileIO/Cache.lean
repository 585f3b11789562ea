import Sptag.SPANN.FileIO.Store
import Sptag.Lib.Run

/-! `FileIO::LRUCache`, its shards, and the operations of `FileIO` with a cache in front of
the store. -/

namespace Sptag.SPANN

open Sptag.Lib

structure LRUCache where
  keys : List Nat
  cache : List (Nat × Bytes)
  size : Int

namespace LRUCache

def empty : LRUCache := ⟨[], [], 0⟩

variable (opt : Options) (lru : LRUCache) (st : Store) (key : Nat)

def capacity : Int := opt.cacheCapacity.tdiv opt.cacheShards

def limit : Int := min (capacity opt) (opt.blockLimit * PageSize : Nat)

def find : Option Bytes := lru.cache.lookup key

def remove (value : Bytes) : LRUCache :=
  ⟨lru.keys.erase key, lru.cache.filter (·.1 ≠ key), lru.size - value.length⟩

def touch : LRUCache := { lru with keys := key :: lru.keys.erase key }

def update (value : Bytes) (delta : Int) : LRUCache :=
  { lru with
    cache := lru.cache.map fun e => if e.1 = key then (key, value) else e
    size := lru.size + delta }

def insert (value : Bytes) : LRUCache :=
  ⟨key :: lru.keys, (key, value) :: lru.cache, lru.size + value.length⟩

def evict : Bool × LRUCache × Store :=
  match lru.find key with
  | none => (false, lru, st)
  | some value =>
    let put := st.put opt key value
    if put.1 = .success then (true, lru.remove key value, put.2) else (false, lru, put.2)

/-- The loops that evict the least recent key while `full` holds and more than `least` keys
are left; each turn removes a key, so `fuel` is their number. -/
def evictWhile (full : Int → Bool) (least : Nat) :
    Nat → LRUCache → Store → Bool × LRUCache × Store
  | 0, lru, st => (true, lru, st)
  | fuel + 1, lru, st =>
    if full lru.size ∧ least < lru.keys.length then
      match lru.keys.getLast? with
      | none => (true, lru, st)
      | some last =>
        let evicted := lru.evict opt st last
        if evicted.1 then evictWhile full least fuel evicted.2.1 evicted.2.2 else evicted
    else (true, lru, st)

/-- Evict until there is room, on behalf of `key`, which is cached and most recent; when
that fails `key` itself is evicted. -/
def makeRoom (full : Int → Bool) : Bool × LRUCache × Store :=
  let evicted := evictWhile opt full 1 lru.keys.length lru st
  if evicted.1 then evicted else (false, (evicted.2.1.evict opt evicted.2.2 key).2)

def put (value : Bytes) : Bool × LRUCache × Store :=
  match lru.find key with
  | some old =>
    if limit opt < value.length then (false, (lru.evict opt st key).2)
    else
      let delta_size : Int := value.length - old.length
      let room := (lru.touch key).makeRoom opt st key
        fun size => toInt (capacity opt - size) < delta_size
      if room.1 then (true, room.2.1.update key value delta_size, room.2.2) else room
  | none =>
    if limit opt < value.length then (false, lru, st)
    else
      let room := evictWhile opt (fun size => toInt (capacity opt - size) < value.length) 0
        lru.keys.length lru st
      if room.1 then (true, room.2.1.insert key value, room.2.2) else room

def del : LRUCache :=
  match lru.find key with
  | none => lru
  | some value => lru.remove key value

def merge (value : Bytes) (checksum : Bytes → Bool) : Bool × LRUCache × Store :=
  match lru.find key with
  | none =>
    let got := st.get opt key
    match got.1 with
    | .error _ => (false, lru, got.2)
    | .ok old =>
      if checksum old then
        let valstr := old ++ value
        let room := evictWhile opt
          (fun size => toSize (toInt (capacity opt - size)) < valstr.length) 0
          lru.keys.length lru got.2
        if room.1 then (true, room.2.1.insert key valstr, room.2.2) else room
      else (false, lru, got.2)
  | some old =>
    if toSize (limit opt) < value.length + old.length then (false, (lru.evict opt st key).2)
    else
      let room := (lru.touch key).makeRoom opt st key
        fun size => toInt (capacity opt - size) < value.length
      if room.1 then (true, room.2.1.update key (old ++ value) value.length, room.2.2) else room

def flushEntries : List (Nat × Bytes) → Store → Bool × Store
  | [], st => (true, st)
  | (key, value) :: es, st =>
    let put := st.put opt key value
    if put.1 = .success then flushEntries es put.2 else (false, put.2)

def flush : Bool × LRUCache × Store :=
  let flushed := flushEntries opt (opt.iterate lru.cache) st
  if flushed.1 then (true, empty, flushed.2) else (false, lru, flushed.2)

end LRUCache

structure FileIO where
  store : Store
  caches : Nat → LRUCache

namespace FileIO

variable (opt : Options) (f : FileIO) (key : Nat)

def hash : Nat := key % opt.cacheShards

def cached : Option Bytes :=
  if opt.cacheShards = 0 then none else (f.caches (hash opt key)).find key

def setCache (lru : LRUCache) : Nat → LRUCache := Function.update f.caches (hash opt key) lru

def put (value : Bytes) : ErrorCode × FileIO :=
  if opt.blockLimit ≤ pages value.length then (.postingOverFlow, f)
  else
    let st := f.store.reach key
    if opt.cacheShards = 0 then
      let done := st.putBlocks opt key value
      (done.1, { f with store := done.2 })
    else
      let taken := (f.caches (hash opt key)).put opt st key value
      let done :=
        if taken.1 then taken.2.2.putCached opt key value
        else taken.2.2.putBlocks opt key value
      (done.1, ⟨done.2, f.setCache opt key taken.2.1⟩)

def merge (value : Bytes) (checksum : Bytes → Bool) : ErrorCode × FileIO :=
  if f.store.blockMapping.length ≤ key then (.keyOverFlow, f)
  else
    match f.store.at? key with
    | none => (.keyNotFound, f)
    | some a =>
      if a.size < 0 then (.keyNotFound, f)
      else
        let newSize := a.size.toNat + value.length
        if opt.blockLimit ≤ pages newSize then (.postingOverFlow, f)
        else if opt.cacheShards = 0 then
          let done := f.store.mergeBlocks opt key value newSize
          (done.1, { f with store := done.2 })
        else
          let taken := (f.caches (hash opt key)).merge opt f.store key value checksum
          let done :=
            if taken.1 then taken.2.2.mergeCached opt key newSize
            else taken.2.2.mergeBlocks opt key value newSize
          (done.1, ⟨done.2, f.setCache opt key taken.2.1⟩)

def delete : ErrorCode × FileIO :=
  if f.store.blockMapping.length ≤ key then (.keyOverFlow, f)
  else
    let done := f.store.deleteBlocks opt key
    if opt.cacheShards = 0 then (done.1, { f with store := done.2 })
    else (done.1, ⟨done.2, f.setCache opt key ((f.caches (hash opt key)).del key)⟩)

def get : Except ErrorCode Bytes × FileIO :=
  match f.store.locate key with
  | .error e => (.error e, f)
  | .ok a =>
    match f.cached opt key with
    | some value => (.ok value, f)
    | none => let read := f.store.read opt a; (read.1, { f with store := read.2 })

def getBuffer : Except ErrorCode Bytes × FileIO := get opt f key

def flushShards : Nat → Nat → FileIO → Bool × FileIO
  | 0, _, f => (true, f)
  | n + 1, shard, f =>
    let flushed := (f.caches shard).flush opt f.store
    let f := { store := flushed.2.2, caches := Function.update f.caches shard flushed.2.1 }
    if flushed.1 then flushShards n (shard + 1) f else (false, f)

def flush : Bool × FileIO := flushShards opt opt.cacheShards 0 f

/-- `Checkpoint`: the cache is flushed for the mapping file, whatever comes of it the block
pool takes the reserved blocks back. -/
def checkpoint : FileIO :=
  let f := (f.flush opt).2
  { f with store := f.store.controller f.store.blockController.reloadReserve }

def initial : FileIO :=
  { store :=
      { blockMapping := []
        buffer := Store.bufferLimit
        blockController :=
          { blockAddresses := BlockController.newBlocks 0 opt.startNumBlocks
            blockAddressesReserve := []
            available :=
              (COMMON.LabelSet.ofSize opt.startNumBlocks opt.datasetCapacity
                opt.datasetCapacity_lt).insertAll (BlockController.newBlocks 0 opt.startNumBlocks)
            totalAllocatedBlocks := opt.startNumBlocks
            pages := fun _ => []
            io := .reliable
            faults := 0 } }
    caches := fun _ => .empty }

inductive Call
  | put (key : Nat) (value : Bytes)
  | merge (key : Nat) (value : Bytes) (checksum : Bytes → Bool)
  | delete (key : Nat)
  | get (key : Nat)
  | getBuffer (key : Nat)
  | flush
  | checkpoint

structure Event where
  call : Call
  io : Io

inductive Answer
  | code (ok : Bool)
  | value (v : Option Bytes)
  deriving DecidableEq

def exec : Call → Answer × FileIO
  | .put key value => let r := f.put opt key value; (.code (r.1 = .success), r.2)
  | .merge key value checksum =>
    let r := f.merge opt key value checksum; (.code (r.1 = .success), r.2)
  | .delete key => let r := f.delete opt key; (.code (r.1 = .success), r.2)
  | .get key => let r := f.get opt key; (.value r.1.toOption, r.2)
  | .getBuffer key => let r := f.getBuffer opt key; (.value r.1.toOption, r.2)
  | .flush => let r := f.flush opt; (.code r.1, r.2)
  | .checkpoint => (.code true, f.checkpoint opt)

def withIo (io : Io) : FileIO :=
  { f with store := f.store.controller { f.store.blockController with io := io } }

def step (f : FileIO) (e : Event) : FileIO := ((f.withIo e.io).exec opt e.call).2

end FileIO

end Sptag.SPANN
