import Sptag.SPANN.FileIO.Ownership
import Sptag.SPANN.FileIO.Persist

/-! The block ownership invariant of `FileIO` over runs in which any call of the file system
may fail. -/

namespace Sptag.SPANN

open Sptag.Lib
open BlockController

namespace Store

variable (opt : Options) {st st' : Store} {T : List Nat} {key : Nat}

def Safe (T : List Nat) (st : Store) : Prop :=
  WritesOk st.blockController ∨ ∀ k ∈ T, st.SizedAt k

structure Keeps (T : List Nat) (st st' : Store) : Prop where
  owned : st'.Owned
  safe : Safe T st'
  faults : st.blockController.faults ≤ st'.blockController.faults
  length : st.blockMapping.length ≤ st'.blockMapping.length

theorem Keeps.refl (h : st.Owned) (hs : Safe T st) : Keeps T st st :=
  ⟨h, hs, le_refl _, le_refl _⟩

theorem Keeps.trans {a b c : Store} (h : Keeps T a b) (h' : Keeps T b c) : Keeps T a c :=
  ⟨h'.owned, h'.safe, h.faults.trans h'.faults, h.length.trans h'.length⟩

theorem Safe.of_touches (hs : Safe T st) (ht : Touches key st st')
    (hsized : st.SizedAt key → st'.SizedAt key) : Safe T st' := by
  refine hs.imp ht.frame.writesOk fun hall k hk => ?_
  by_cases hne : k = key
  · subst hne
    exact hsized (hall k hk)
  · intro a ha
    rw [ht.others k hne] at ha
    exact hall k hk a ha

theorem Safe.reach (hs : Safe T st) (key : Nat) : Safe T (st.reach key) := by
  refine hs.imp id fun hall k hk a ha => ?_
  rw [at?_reach] at ha
  exact hall k hk a ha

theorem Safe.at_key (hs : Safe T st) (hk : key ∈ T) :
    WritesOk st.blockController ∨ st.SizedAt key := hs.imp id fun hall => hall key hk

theorem put_keeps (h : st.Owned) (hs : Safe T st) (hk : key ∈ T) (value : Bytes) :
    Keeps T st (st.put opt key value).2 := by
  unfold put
  split
  · exact .refl h hs
  · have hp := putBlocks_spec opt (reach_owned key h) (lt_length_reach key) value
      ((hs.reach key).at_key hk)
    refine ⟨hp.owned, (hs.reach key).of_touches hp.touches hp.sized, hp.touches.frame.faults, ?_⟩
    rw [hp.touches.length]
    exact length_le_reach key

theorem get_keeps (h : st.Owned) (hs : Safe T st) (key : Nat) :
    Keeps T st (st.get opt key).2 := by
  unfold get
  split
  · exact .refl h hs
  · rename_i a _
    obtain ⟨hpool, hp, hw, hf, -⟩ := readBlocks_spec opt st.blockController a.size a.slots
    have howned : (st.controller (st.blockController.readBlocks opt a.size a.slots).2).Owned :=
      ⟨hpool.owns h.owns, h.full, h.buffer⟩
    have hsafe : Safe T (st.controller (st.blockController.readBlocks opt a.size a.slots).2) := by
      refine hs.imp (fun hok o ho => ?_) id
      rw [controller, hw] at ho
      exact hok o ho
    unfold read
    simp only
    split <;> exact ⟨howned, hsafe, hf, le_refl _⟩

end Store

namespace LRUCache

open Store

variable (opt : Options) {lru : LRUCache} {st : Store} {T : List Nat} {key : Nat}

def Within (T : List Nat) (lru : LRUCache) : Prop := ∀ e ∈ lru.cache, e.1 ∈ T

theorem mem_cache_of_find {value : Bytes} (h : lru.find key = some value) :
    (key, value) ∈ lru.cache := by
  unfold find at h
  obtain ⟨l₁, l₂, heq, -⟩ := List.lookup_eq_some_iff.mp h
  rw [heq]
  simp

theorem Within.mem {value : Bytes} (hw : lru.Within T) (h : lru.find key = some value) :
    key ∈ T := hw _ (mem_cache_of_find h)

theorem Within.remove (hw : lru.Within T) (key : Nat) (value : Bytes) :
    (lru.remove key value).Within T := fun e he => hw e (List.mem_of_mem_filter he)

theorem Within.insert (hw : lru.Within T) (hk : key ∈ T) (value : Bytes) :
    (lru.insert key value).Within T := List.forall_mem_cons.mpr ⟨hk, hw⟩

theorem Within.update (hw : lru.Within T) (key : Nat) (value : Bytes) (delta : Int) :
    (lru.update key value delta).Within T := by
  intro e he
  obtain ⟨e', he', rfl⟩ := List.mem_map.mp he
  split
  · rename_i heq
    exact heq ▸ hw e' he'
  · exact hw e' he'

structure Keeps (T : List Nat) (st : Store) (r : LRUCache × Store) : Prop where
  within : r.1.Within T
  store : Store.Keeps T st r.2

theorem Keeps.refl (hw : lru.Within T) (h : st.Owned) (hs : Safe T st) :
    Keeps T st (lru, st) := ⟨hw, .refl h hs⟩

theorem Keeps.trans {r r' : LRUCache × Store} (h : Keeps T st r) (h' : Keeps T r.2 r') :
    Keeps T st r' := ⟨h'.within, h.store.trans h'.store⟩

theorem evict_keeps (hw : lru.Within T) (h : st.Owned) (hs : Safe T st) (key : Nat) :
    Keeps T st (lru.evict opt st key).2 := by
  unfold evict
  split
  · exact .refl hw h hs
  · rename_i value hfind
    have hput := put_keeps opt h hs (hw.mem hfind) value
    simp only
    split
    · exact ⟨hw.remove key value, hput⟩
    · exact ⟨hw, hput⟩

theorem evictWhile_keeps (full : Int → Bool) (least fuel : Nat) (hw : lru.Within T)
    (h : st.Owned) (hs : Safe T st) : Keeps T st (evictWhile opt full least fuel lru st).2 := by
  induction fuel generalizing lru st with
  | zero => exact .refl hw h hs
  | succ fuel ih =>
    unfold evictWhile
    split
    · split
      · exact .refl hw h hs
      · rename_i last _
        have he := evict_keeps opt hw h hs last
        simp only
        split
        · exact he.trans (ih he.within he.store.owned he.store.safe)
        · exact he
    · exact .refl hw h hs

theorem makeRoom_keeps (full : Int → Bool) (hw : lru.Within T) (h : st.Owned) (hs : Safe T st)
    (key : Nat) : Keeps T st (lru.makeRoom opt st key full).2 := by
  have he := evictWhile_keeps opt full 1 lru.keys.length hw h hs
  unfold makeRoom
  simp only
  split
  · exact he
  · exact he.trans (evict_keeps opt he.within he.store.owned he.store.safe key)

theorem put_keeps (hw : lru.Within T) (h : st.Owned) (hs : Safe T st) (hk : key ∈ T)
    (value : Bytes) : Keeps T st (lru.put opt st key value).2 := by
  unfold put
  split
  · split
    · exact evict_keeps opt hw h hs key
    · have htouch : (lru.touch key).Within T := hw
      have hr := fun full => makeRoom_keeps opt full htouch h hs key
      simp only
      split
      · exact ⟨(hr _).within.update _ _ _, (hr _).store⟩
      · exact hr _
  · split
    · exact .refl hw h hs
    · have hr := fun full => evictWhile_keeps opt full 0 lru.keys.length hw h hs
      simp only
      split
      · exact ⟨(hr _).within.insert hk value, (hr _).store⟩
      · exact hr _

theorem merge_keeps (hw : lru.Within T) (h : st.Owned) (hs : Safe T st) (hk : key ∈ T)
    (value : Bytes) (checksum : Bytes → Bool) :
    Keeps T st (lru.merge opt st key value checksum).2 := by
  unfold merge
  split
  · have hget := get_keeps opt h hs key
    simp only
    split
    · exact ⟨hw, hget⟩
    · split
      · have hr := fun full => evictWhile_keeps opt full 0 lru.keys.length hw hget.owned hget.safe
        split
        · exact ⟨(hr _).within.insert hk _, hget.trans (hr _).store⟩
        · exact ⟨(hr _).within, hget.trans (hr _).store⟩
      · exact ⟨hw, hget⟩
  · split
    · exact evict_keeps opt hw h hs key
    · have htouch : (lru.touch key).Within T := hw
      have hr := fun full => makeRoom_keeps opt full htouch h hs key
      simp only
      split
      · exact ⟨(hr _).within.update _ _ _, (hr _).store⟩
      · exact hr _

theorem flushEntries_keeps {es : List (Nat × Bytes)} (hes : ∀ e ∈ es, e.1 ∈ T) (h : st.Owned)
    (hs : Safe T st) : Store.Keeps T st (flushEntries opt es st).2 := by
  induction es generalizing st with
  | nil => exact .refl h hs
  | cons e es ih =>
    obtain ⟨he, hes⟩ := List.forall_mem_cons.mp hes
    have hput := Store.put_keeps opt h hs he e.2
    simp only [flushEntries]
    split
    · exact hput.trans (ih hes hput.owned hput.safe)
    · exact hput

theorem flush_keeps (hw : lru.Within T) (h : st.Owned) (hs : Safe T st) :
    Keeps T st (lru.flush opt st).2 := by
  have hes : ∀ e ∈ opt.iterate lru.cache, e.1 ∈ T :=
    fun e he => hw e ((opt.iterate_perm lru.cache).mem_iff.mp he)
  have hf := flushEntries_keeps opt hes h hs
  unfold flush
  simp only
  split
  · exact ⟨fun e he => absurd he List.not_mem_nil, hf⟩
  · exact ⟨hw, hf⟩

end LRUCache

namespace FileIO

open Store

variable (opt : Options) {f : FileIO} {T : List Nat} {key : Nat}

theorem mergeBlocks_owned {st : Store} (h : st.Owned) (key : Nat) (value : Bytes) (newSize : Nat) :
    (st.mergeBlocks opt key value newSize).2.Owned ∧ st.blockController.faults ≤
      (st.mergeBlocks opt key value newSize).2.blockController.faults := by
  cases hat : st.at? key with
  | none =>
    rw [mergeBlocks, hat]
    exact ⟨h, le_refl _⟩
  | some a =>
    have hm := mergeBlocks_spec opt value newSize h (at?_lt_length hat) hat
    exact ⟨hm.owned, hm.touches.frame.faults⟩

theorem mergeCached_owned {st : Store} (h : st.Owned) (key : Nat) (newSize : Nat) :
    (st.mergeCached opt key newSize).2.Owned ∧ st.blockController.faults ≤
      (st.mergeCached opt key newSize).2.blockController.faults := by
  cases hat : st.at? key with
  | none =>
    rw [mergeCached, hat]
    exact ⟨h, le_refl _⟩
  | some a =>
    have hm := mergeCached_spec opt newSize h (at?_lt_length hat) hat
    exact ⟨hm.owned, hm.touches.frame.faults⟩

def touched (f : FileIO) : Call → List Nat
  | .put key _ => key :: (f.caches (hash opt key)).cache.map (·.1)
  | .merge key _ _ => (f.caches (hash opt key)).cache.map (·.1)
  | .flush | .checkpoint =>
    (List.range opt.cacheShards).flatMap fun shard => (f.caches shard).cache.map (·.1)
  | _ => []

theorem within_map (lru : LRUCache) : lru.Within (lru.cache.map (·.1)) :=
  fun e he => List.mem_map.mpr ⟨e, he, rfl⟩

theorem put_owned (h : f.store.Owned) (value : Bytes)
    (hs : Safe (touched opt f (.put key value)) f.store) :
    (f.put opt key value).2.store.Owned := by
  unfold put
  split
  · exact h
  · have hreach := reach_owned key h
    have hk : key < (f.store.reach key).blockMapping.length := lt_length_reach key
    simp only
    split
    · exact (putBlocks_spec opt hreach hk value
        ((hs.reach key).at_key List.mem_cons_self)).owned
    · have hw : (f.caches (hash opt key)).Within (touched opt f (.put key value)) :=
        fun e he => List.mem_cons_of_mem _ (within_map _ e he)
      have hput := LRUCache.put_keeps opt hw hreach (hs.reach key) List.mem_cons_self value
      have hk' := lt_of_lt_of_le hk hput.store.length
      simp only
      split
      · exact (putCached_spec opt hput.store.owned hk' value).owned
      · exact (putBlocks_spec opt hput.store.owned hk' value
          (hput.store.safe.at_key List.mem_cons_self)).owned

theorem merge_owned (h : f.store.Owned) (value : Bytes) (checksum : Bytes → Bool)
    (hs : Safe (touched opt f (.merge key value checksum)) f.store) :
    (f.merge opt key value checksum).2.store.Owned := by
  unfold merge
  split
  · exact h
  · split
    · exact h
    · rename_i a hat
      split
      · exact h
      · rename_i hpos
        simp only
        split
        · exact h
        · split
          · exact (mergeBlocks_owned opt h key value _).1
          · have hs' : Safe (key :: touched opt f (.merge key value checksum)) f.store := by
              refine hs.imp id fun hall => List.forall_mem_cons.mpr ⟨?_, hall⟩
              intro b hb
              obtain rfl := Option.some.inj (hat.symm.trans hb)
              exact not_lt.mp hpos
            have hw : (f.caches (hash opt key)).Within
                (key :: touched opt f (.merge key value checksum)) :=
              fun e he => List.mem_cons_of_mem _ (within_map _ e he)
            have hm := LRUCache.merge_keeps opt hw h hs' List.mem_cons_self value checksum
            simp only
            split
            · exact (mergeCached_owned opt hm.store.owned key _).1
            · exact (mergeBlocks_owned opt hm.store.owned key value _).1

theorem delete_owned (h : f.store.Owned) : (f.delete opt key).2.store.Owned := by
  unfold delete
  split
  · exact h
  · rename_i hlt
    have hd := (deleteBlocks_spec opt h (not_le.mp hlt)).2.1
    simp only
    split <;> exact hd

theorem get_owned (h : f.store.Owned) : (f.get opt key).2.store.Owned := by
  unfold get
  split
  · exact h
  · rename_i a hloc
    split
    · exact h
    · have hget := get_keeps opt (T := []) h (.inr fun k hk => absurd hk List.not_mem_nil) key
      rw [Store.get, hloc] at hget
      exact hget.owned

theorem flushShards_keeps (n shard : Nat) (h : f.store.Owned) (hs : Safe T f.store)
    (hw : ∀ i, shard ≤ i → i < shard + n → (f.caches i).Within T) :
    Keeps T f.store (flushShards opt n shard f).2.store := by
  induction n generalizing shard f with
  | zero => exact .refl h hs
  | succ n ih =>
    have hf := LRUCache.flush_keeps opt (hw shard (le_refl _) (by omega)) h hs
    simp only [flushShards]
    split
    · have hw' : ∀ lru i, shard + 1 ≤ i → i < shard + 1 + n →
          (Function.update f.caches shard lru i).Within T := by
        intro lru i hi hlt
        rw [Function.update_of_ne (by omega)]
        exact hw i (by omega) (by omega)
      have hrest := ih (shard + 1)
        (f := ⟨_, Function.update f.caches shard ((f.caches shard).flush opt f.store).2.1⟩)
        hf.store.owned hf.store.safe (hw' _)
      exact hf.store.trans hrest
    · exact hf.store

theorem within_touched {i : Nat} (hi : i < opt.cacheShards) :
    (f.caches i).Within (touched opt f .flush) := fun e he =>
  List.mem_flatMap.mpr ⟨i, List.mem_range.mpr hi, List.mem_map.mpr ⟨e, he, rfl⟩⟩

theorem flush_owned (h : f.store.Owned) (hs : Safe (touched opt f .flush) f.store) :
    (f.flush opt).2.store.Owned :=
  (flushShards_keeps opt _ _ h hs fun i _ hi => within_touched opt (by omega)).owned

theorem exec_owned (h : f.store.Owned) (c : Call) (hs : Safe (touched opt f c) f.store) :
    (f.exec opt c).2.store.Owned := by
  cases c with
  | put key value => exact put_owned opt h value hs
  | merge key value checksum => exact merge_owned opt h value checksum hs
  | delete key => exact delete_owned opt h
  | get key => exact get_owned opt h
  | getBuffer key => exact get_owned opt h
  | flush => exact flush_owned opt h hs
  | checkpoint =>
    have hf := flush_owned opt h hs
    exact ⟨reloadReserve_owns hf.owns, hf.full, hf.buffer⟩

/-- No write of the event fails, or none of the keys it may write to is mapped to an array
without a size. -/
def Admissible (f : FileIO) (e : Event) : Prop :=
  (∀ o ∈ e.io.writes, o = none) ∨ ∀ k ∈ touched opt f e.call, f.store.SizedAt k

/-- The states reached from a new store, by events that meet `ok` and by reopening a store
whose cache has been flushed. -/
inductive Reachable (ok : FileIO → Event → Prop) : FileIO → Prop
  | initial : Reachable ok (initial opt)
  | step {f : FileIO} (e : Event) : Reachable ok f → ok f e → Reachable ok (step opt f e)
  | reopen {f : FileIO} : Reachable ok f →
    (∀ shard < opt.cacheShards, (f.caches shard).cache = []) →
    Reachable ok (f.reopen opt)

/-- Every block in a free queue or in a slot of a mapped value is allocated, and none occurs
twice among them. -/
structure OneOwner (f : FileIO) : Prop where
  range : ∀ id ∈ f.store.blockController.free ++ mapped f.store.blockMapping,
    0 ≤ id ∧ id < f.store.blockController.totalAllocatedBlocks
  nodup : (f.store.blockController.free ++ mapped f.store.blockMapping).Nodup
  slots : ∀ k a, f.store.at? k = some a → 0 ≤ a.size → pages a.size.toNat ≤ a.slots.length

structure OwnershipInvariant (f : FileIO) : Prop extends OneOwner f where
  available : ∀ id, f.store.blockController.available.contains id = true ↔
    id ∈ f.store.blockController.free

def Labelled (f : FileIO) : Prop :=
  f.store.blockController.totalAllocatedBlocks ≤ f.store.blockController.available.capacity

theorem OneOwner.of_owned (h : f.store.Owned) : OneOwner f :=
  ⟨h.owns.partition.mem, h.owns.partition.nodup, h.full⟩

theorem OwnershipInvariant.of_owned (h : f.store.Owned) (hlabelled : Labelled f) :
    OwnershipInvariant f :=
  ⟨.of_owned h, fun id => ⟨fun hid => (h.owns.available.mem id hid).1,
    (h.owns.available.full hlabelled).2 id⟩⟩

theorem initial_owned : (initial opt).store.Owned := by
  have hmem : ∀ id, id ∈ newBlocks 0 opt.startNumBlocks ↔ 0 ≤ id ∧ id < opt.startNumBlocks := by
    intro id
    rw [mem_newBlocks, Int.zero_add]
  have hfree : (initial opt).store.blockController.free = newBlocks 0 opt.startNumBlocks :=
    List.append_nil _
  refine ⟨⟨⟨?_, fun id hid => ?_⟩, hfree ▸ initial_marks opt, Int.natCast_nonneg _⟩, ?_, le_refl _⟩
  · simp only [initial, free, mapped, List.append_nil, List.flatMap_nil]
    exact newBlocks_nodup _ _
  · simp only [initial, free, mapped, List.append_nil, List.flatMap_nil] at hid
    exact (hmem id).mp hid
  · intro k a ha
    simp [initial, at?] at ha

theorem step_owned (h : f.store.Owned) {e : Event} (hok : Admissible opt f e) :
    (step opt f e).store.Owned := by
  refine exec_owned opt (f := f.withIo e.io) ⟨⟨h.owns.partition, h.owns.available,
    h.owns.total_nonneg⟩, h.full, h.buffer⟩ e.call ?_
  exact hok

def tenBlocks : Options where
  blockLimit := 4
  growthBlocks := 0
  maxBlocks := 10
  startNumBlocks := 10
  datasetCapacity := 2 ^ 31 - 1
  datasetCapacity_lt := Nat.le_of_ble_eq_true rfl
  belowThreshold := fun _ _ => false
  disableCheckpoint := false
  reqs := 4
  blockLimit_le_reqs := by decide
  cacheShards := 0
  cacheCapacity := 0
  iterate := id
  iterate_perm := fun es => .refl es

end FileIO

end Sptag.SPANN
