import Sptag.SPANN.FileIO.Invariant

/-! `FileIO` as a map from keys to bytes: while no call of the file system fails and values
stay below 2 GiB, what it answers does not depend on the cache or on the blocks. -/

namespace Sptag.SPANN

open Sptag.Lib
open BlockController

namespace Store

variable (opt : Options) {st st' : Store} {m m' : Nat → Option Bytes}
  {dirty : Nat → Prop} {key : Nat} {value old : Bytes}

structure Holds (m : Nat → Option Bytes) (dirty : Nat → Prop) (st : Store) : Prop where
  owned : st.Owned
  sizes : ∀ k, (st.at? k).map (·.size) = (m k).map fun v => (v.length : Int)
  stored : ∀ k v, ¬ dirty k → m k = some v → Stored k v st

theorem Stored.of_touches {k : Nat} (h : Stored k value st) (ht : Touches key st st')
    (hne : k ≠ key) : Stored k value st' := by
  obtain ⟨ids, hat, hlen, hread⟩ := h.at_key
  have hblocks : (Addresses.mk (value.length : Int) ids).blocks = ids :=
    blocks_full (Int.natCast_nonneg _) (by simpa using hlen)
  have hpages : ∀ id ∈ ids, st'.blockController.pages id = st.blockController.pages id :=
    fun id hid => ht.frame.pages id (blocks_mem_rest hat hne id (by rwa [hblocks]))
  exact ⟨ids, (ht.others k hne).trans hat, hlen, (readPages_congr hpages _).trans hread⟩

theorem Stored.size (h : Stored key value st) :
    (st.at? key).map (·.size) = some (value.length : Int) := by
  obtain ⟨ids, hat, -, -⟩ := h.at_key
  rw [hat]
  rfl

theorem Holds.touched (h : Holds m dirty st) (dirty' : Nat → Prop) (ht : Touches key st st')
    (howned : st'.Owned)
    (hm : ∀ k, k ≠ key → m' k = m k) (hd : ∀ k, k ≠ key → dirty k → dirty' k)
    (hsize : (st'.at? key).map (·.size) = (m' key).map fun v => (v.length : Int))
    (hstored : ¬ dirty' key → ∀ v, m' key = some v → Stored key v st') :
    Holds m' dirty' st' := by
  refine ⟨howned, fun k => ?_, fun k v hk hv => ?_⟩
  · by_cases hne : k = key
    · exact hne ▸ hsize
    · rw [ht.others k hne, hm k hne]
      exact h.sizes k
  · by_cases hne : k = key
    · subst hne
      exact hstored hk v hv
    · rw [hm k hne] at hv
      exact (h.stored k v (fun hdk => hk (hd k hne hdk)) hv).of_touches ht hne

theorem Holds.mono (h : Holds m dirty st) {dirty' : Nat → Prop} (hd : ∀ k, dirty k → dirty' k) :
    Holds m dirty' st :=
  ⟨h.owned, h.sizes, fun k v hk => h.stored k v fun hdk => hk (hd k hdk)⟩

theorem Holds.sizedAt (h : Holds m dirty st) (k : Nat) : st.SizedAt k := by
  intro a ha
  have hsize := h.sizes k
  rw [ha] at hsize
  obtain ⟨v, -, hv⟩ := Option.map_eq_some_iff.mp hsize.symm
  exact (Int.natCast_nonneg v.length).trans_eq hv

theorem Holds.safe (h : Holds m dirty st) (T : List Nat) : Safe T st := .inr fun k _ => h.sizedAt k

theorem Holds.at_some (h : Holds m dirty st) (hv : m key = some value) :
    ∃ slots, st.at? key = some ⟨value.length, slots⟩ := by
  have hsize := h.sizes key
  rw [hv] at hsize
  obtain ⟨⟨size, slots⟩, ha, hsz⟩ := Option.map_eq_some_iff.mp hsize
  exact ⟨slots, by rw [ha]; exact congrArg (fun n => some (Addresses.mk n slots)) hsz⟩

theorem Holds.at_none (h : Holds m dirty st) (hv : m key = none) : st.at? key = none := by
  have hsize := h.sizes key
  rw [hv] at hsize
  exact Option.map_eq_none_iff.mp hsize

theorem Holds.reach (h : Holds m dirty st) (key : Nat) : Holds m dirty (st.reach key) := by
  refine ⟨reach_owned key h.owned, fun k => by rw [at?_reach]; exact h.sizes k, fun k v hk hv => ?_⟩
  obtain ⟨ids, hat, hlen, hread⟩ := (h.stored k v hk hv).at_key
  exact ⟨ids, by rw [at?_reach]; exact hat, hlen, hread⟩

theorem Holds.putBlocks (h : Holds m dirty st) (hk : key < st.blockMapping.length)
    (dirty' : Nat → Prop) (hd : ∀ k, k ≠ key → dirty k → dirty' k)
    (hq : (st.putBlocks opt key value).2.blockController.faults = st.blockController.faults) :
    (st.putBlocks opt key value).1 = .success ∧
      Holds (Function.update m key (some value)) dirty' (st.putBlocks opt key value).2 := by
  have hp := putBlocks_spec opt h.owned hk value (.inr (h.sizedAt key))
  obtain ⟨hok, hst⟩ := hp.stored hq
  refine ⟨hok, h.touched _ hp.touches hp.owned
    (fun k hne => Function.update_of_ne hne _ _) hd ?_ ?_⟩
  · rw [hst.size, Function.update_self]
    rfl
  · intro _ v hv
    rw [Function.update_self] at hv
    exact Option.some.inj hv ▸ hst

theorem Holds.put (h : Holds m dirty st) (hfit : pages value.length < opt.blockLimit)
    (dirty' : Nat → Prop) (hd : ∀ k, k ≠ key → dirty k → dirty' k)
    (hq : (st.put opt key value).2.blockController.faults = st.blockController.faults) :
    (st.put opt key value).1 = .success ∧
      Holds (Function.update m key (some value)) dirty' (st.put opt key value).2 := by
  unfold Store.put at hq ⊢
  rw [if_neg (not_le.mpr hfit)] at hq ⊢
  exact (h.reach key).putBlocks opt (lt_length_reach key) dirty' hd hq

theorem Holds.resized (h : Holds m dirty st) {r : ErrorCode × Store}
    (hr : ResizeSpec st key value.length r) (dirty' : Nat → Prop) (hd : ∀ k, dirty k → dirty' k)
    (hdirty : dirty' key)
    (hq : r.2.blockController.faults = st.blockController.faults) :
    r.1 = .success ∧ Holds (Function.update m key (some value)) dirty' r.2 := by
  obtain ⟨hok, slots, hat⟩ := hr.sized hq
  refine ⟨hok, h.touched _ hr.touches hr.owned (fun k hne => Function.update_of_ne hne _ _)
    (fun k _ => hd k) ?_ fun hnot => absurd hdirty hnot⟩
  rw [hat, Function.update_self]
  rfl

theorem Holds.mergeBlocks (h : Holds m dirty st) (hclean : ¬ dirty key) (hold : m key = some old)
    (hfit : pages (old ++ value).length ≤ opt.reqs) {newSize : Nat}
    (hsize : newSize = (old ++ value).length)
    (hq : (st.mergeBlocks opt key value newSize).2.blockController.faults =
      st.blockController.faults) :
    (st.mergeBlocks opt key value newSize).1 = .success ∧
      Holds (Function.update m key (some (old ++ value))) dirty
        (st.mergeBlocks opt key value newSize).2 := by
  obtain ⟨ids, hat, hlen, hread⟩ := (h.stored key old hclean hold).at_key
  have hblocks : (Addresses.mk (old.length : Int) ids).blocks = ids :=
    blocks_full (Int.natCast_nonneg _) (by simpa using hlen)
  have hp := mergeBlocks_spec opt value newSize h.owned (at?_lt_length hat) hat
  obtain ⟨hok, hst⟩ := hp.stored hq (by rw [hsize, List.length_append]; rfl)
    (by rw [hsize]; exact hfit)
  rw [hblocks, Int.toNat_natCast, hread] at hst
  refine ⟨hok, h.touched _ hp.touches hp.owned (fun k hne => Function.update_of_ne hne _ _)
    (fun k _ => id) ?_ ?_⟩
  · rw [hst.size, Function.update_self]
    rfl
  · intro _ v hv
    rw [Function.update_self] at hv
    exact Option.some.inj hv ▸ hst

theorem Holds.delete (h : Holds m dirty st) (hk : key < st.blockMapping.length)
    (dirty' : Nat → Prop) (hd : ∀ k, k ≠ key → dirty k → dirty' k) :
    ((st.deleteBlocks opt key).1 = .success ↔ (m key).isSome) ∧
      Holds (Function.update m key none) dirty' (st.deleteBlocks opt key).2 := by
  obtain ⟨ht, howned, -, hsome, hnone⟩ := deleteBlocks_spec opt h.owned hk
  have hres : Holds (Function.update m key none) dirty' (st.deleteBlocks opt key).2 ↔
      (st.deleteBlocks opt key).2.at? key = none := by
    constructor
    · intro hh
      exact hh.at_none (Function.update_self _ _ _)
    · intro hat
      refine h.touched _ ht howned (fun k hne => Function.update_of_ne hne _ _) hd ?_ ?_
      · rw [hat, Function.update_self]
        rfl
      · intro _ v hv
        rw [Function.update_self] at hv
        cases hv
  rw [hres]
  cases hv : m key with
  | none =>
    have hat := h.at_none hv
    obtain ⟨hcode, hsame⟩ := hnone (by rintro ⟨a, ha, -⟩; rw [hat] at ha; cases ha)
    exact ⟨by simp [hcode], by rw [hsame]; exact hat⟩
  | some v =>
    obtain ⟨slots, hat⟩ := h.at_some hv
    obtain ⟨hcode, hgone⟩ := hsome ⟨_, hat, Int.natCast_nonneg _⟩
    exact ⟨by simp [hcode], hgone⟩

theorem Holds.of_controller (h : Holds m dirty st) {bc : BlockController}
    (hpool : SamePool st.blockController bc) (hpages : bc.pages = st.blockController.pages) :
    Holds m dirty (st.controller bc) := by
  refine ⟨⟨hpool.owns h.owned.owns, h.owned.full, h.owned.buffer⟩, h.sizes, fun k v hk hv => ?_⟩
  obtain ⟨ids, hat, hlen, hread⟩ := (h.stored k v hk hv).at_key
  refine ⟨ids, hat, hlen, ?_⟩
  rw [controller, hpages]
  exact hread

theorem Holds.locate_none (h : Holds m dirty st) (hv : m key = none) :
    ∃ e, st.locate key = .error e := by
  unfold locate
  rw [h.at_none hv]
  split
  · exact ⟨_, rfl⟩
  · exact ⟨_, rfl⟩

theorem Holds.locate_some (h : Holds m dirty st) (hv : m key = some value)
    (hlt : value.length < 2 ^ 31) :
    ∃ slots, st.at? key = some ⟨value.length, slots⟩ ∧
      st.locate key = .ok ⟨value.length, slots⟩ := by
  obtain ⟨slots, hat⟩ := h.at_some hv
  refine ⟨slots, hat, ?_⟩
  unfold locate
  rw [if_neg (not_le.mpr (at?_lt_length hat)), hat]
  simp only
  rw [toInt_of_lt hlt, if_neg (not_lt.mpr (Int.natCast_nonneg _))]

theorem Holds.read (h : Holds m dirty st) (hclean : ¬ dirty key) (hv : m key = some value)
    (hfit : pages value.length ≤ opt.reqs) {slots : List Int}
    (hat : st.at? key = some ⟨value.length, slots⟩)
    (hq : (st.read opt ⟨value.length, slots⟩).2.blockController.faults =
      st.blockController.faults) :
    (st.read opt ⟨value.length, slots⟩).1 = .ok value ∧
      Holds m dirty (st.read opt ⟨value.length, slots⟩).2 := by
  obtain ⟨ids, hat', hlen, hread⟩ := (h.stored key value hclean hv).at_key
  obtain rfl : slots = ids := by
    rw [hat] at hat'
    exact (Addresses.mk.inj (Option.some.inj hat')).2
  obtain ⟨hpool, hpages, -, -, hdone⟩ :=
    readBlocks_spec opt st.blockController (value.length : Int) slots
  have hheld := h.of_controller hpool hpages
  unfold Store.read at hq ⊢
  rcases hgot : st.blockController.readBlocks opt (value.length : Int) slots with ⟨got, bc⟩
  simp only [hgot] at hq hheld hdone ⊢
  rw [Int.toNat_natCast] at hdone
  have hsame : bc.faults = st.blockController.faults := by
    cases got <;> exact hq
  obtain rfl := hdone hsame hfit
  simp only
  rw [List.take_of_length_le hlen.le, hread]
  exact ⟨rfl, hheld⟩

theorem Holds.get (h : Holds m dirty st) (hclean : ¬ dirty key) (hv : m key = some value)
    (hlt : value.length < 2 ^ 31) (hfit : pages value.length ≤ opt.reqs)
    (hq : (st.get opt key).2.blockController.faults = st.blockController.faults) :
    (st.get opt key).1 = .ok value ∧ Holds m dirty (st.get opt key).2 := by
  obtain ⟨slots, hat, hloc⟩ := h.locate_some hv hlt
  unfold Store.get at hq ⊢
  rw [hloc] at hq ⊢
  exact h.read opt hclean hv hfit hat hq

end Store

namespace LRUCache

open Store

variable (opt : Options) {lru : LRUCache} {st : Store} {m : Nat → Option Bytes}
  {elsewhere : Nat → Prop} {i key : Nat} {value old : Bytes}

structure Coherent (m : Nat → Option Bytes) (i : Nat) (lru : LRUCache) : Prop where
  entries : ∀ e ∈ lru.cache, m e.1 = some e.2 ∧ FileIO.hash opt e.1 = i
  nodup : lru.keys.Nodup
  keys : ∀ k, k ∈ lru.keys ↔ (lru.find k).isSome

variable {opt}

theorem Coherent.eq_some (h : Coherent opt m i lru) (hf : lru.find key = some value) :
    m key = some value := (h.entries _ (mem_cache_of_find hf)).1

theorem Coherent.hash_eq (h : Coherent opt m i lru) (hf : (lru.find key).isSome) :
    FileIO.hash opt key = i := by
  obtain ⟨v, hv⟩ := Option.isSome_iff_exists.mp hf
  exact (h.entries _ (mem_cache_of_find hv)).2

@[simp] theorem find_remove (lru : LRUCache) (key : Nat) (value : Bytes) (k : Nat) :
    (lru.remove key value).find k = if k = key then none else lru.find k := by
  unfold find remove
  simp only
  induction lru.cache with
  | nil => simp
  | cons e es ih =>
    by_cases he : e.1 = key
    · rw [List.filter_cons_of_neg (by simpa using he), ih]
      split
      · rfl
      · rename_i hne
        rw [List.lookup_cons, beq_false_of_ne (by omega)]
    · rw [List.filter_cons_of_pos (by simpa using he), List.lookup_cons, List.lookup_cons, ih]
      by_cases hk : k = e.1
      · subst hk
        simp [he]
      · simp [beq_false_of_ne hk]

@[simp] theorem find_insert (lru : LRUCache) (key : Nat) (value : Bytes) (k : Nat) :
    (lru.insert key value).find k = if k = key then some value else lru.find k := by
  unfold find insert
  simp only [List.lookup_cons]
  by_cases hk : k = key
  · simp [hk]
  · simp [hk, beq_false_of_ne hk]

@[simp] theorem find_update (lru : LRUCache) (key : Nat) (value : Bytes) (delta : Int) (k : Nat) :
    (lru.update key value delta).find k =
      if k = key then (lru.find k).map fun _ => value else lru.find k := by
  unfold find update
  simp only
  induction lru.cache with
  | nil => simp
  | cons e es ih =>
    rw [List.map_cons, List.lookup_cons, List.lookup_cons, ih]
    by_cases he : e.1 = key
    · by_cases hk : k = key
      · subst hk
        simp [he]
      · simp [he, hk, beq_false_of_ne hk]
    · by_cases hk : k = e.1
      · subst hk
        simp [he]
      · simp [he, beq_false_of_ne hk]

theorem key_ne_of_find_none (hf : lru.find key = none) : ∀ e ∈ lru.cache, e.1 ≠ key := by
  intro e he heq
  have hne := List.lookup_eq_none_iff.mp hf e he
  rw [heq] at hne
  simp at hne

theorem Coherent.remove (h : Coherent opt m i lru) (key : Nat) (value : Bytes) :
    Coherent opt m i (lru.remove key value) := by
  refine ⟨fun e he => h.entries e (List.mem_of_mem_filter he), h.nodup.erase key, fun k => ?_⟩
  rw [find_remove]
  change k ∈ lru.keys.erase key ↔ _
  rw [h.nodup.mem_erase_iff, h.keys k]
  by_cases hk : k = key
  · simp [hk]
  · simp [hk]

theorem Coherent.touch (h : Coherent opt m i lru) (hk : (lru.find key).isSome) :
    Coherent opt m i (lru.touch key) := by
  have hmem := (h.keys key).mpr hk
  have hperm : (key :: lru.keys.erase key).Perm lru.keys := (List.perm_cons_erase hmem).symm
  exact ⟨h.entries, hperm.nodup_iff.mpr h.nodup, fun k => hperm.mem_iff.trans (h.keys k)⟩

theorem Coherent.of_find_none (h : Coherent opt m i lru) (hf : lru.find key = none)
    (r : Option Bytes) : Coherent opt (Function.update m key r) i lru := by
  refine ⟨fun e he => ?_, h.nodup, h.keys⟩
  rw [Function.update_of_ne (key_ne_of_find_none hf e he)]
  exact h.entries e he

theorem Coherent.insert (h : Coherent opt m i lru) (hf : lru.find key = none)
    (hhash : FileIO.hash opt key = i) (value : Bytes) :
    Coherent opt (Function.update m key (some value)) i (lru.insert key value) := by
  refine ⟨List.forall_mem_cons.mpr ⟨⟨Function.update_self _ _ _, hhash⟩,
    (h.of_find_none hf _).entries⟩, List.nodup_cons.mpr ⟨?_, h.nodup⟩, fun k => ?_⟩
  · rw [h.keys, hf]
    simp
  · rw [find_insert]
    change k ∈ key :: lru.keys ↔ _
    rw [List.mem_cons, h.keys]
    by_cases hk : k = key
    · simp [hk]
    · simp [hk]

theorem Coherent.update (h : Coherent opt m i lru) (key : Nat) (value : Bytes) (delta : Int) :
    Coherent opt (Function.update m key (some value)) i (lru.update key value delta) := by
  refine ⟨fun e he => ?_, h.nodup, fun k => ?_⟩
  · obtain ⟨e', he', rfl⟩ := List.mem_map.mp he
    split
    · rename_i heq
      exact ⟨Function.update_self _ _ _, heq ▸ (h.entries e' he').2⟩
    · rename_i hne
      rw [Function.update_of_ne hne]
      exact h.entries e' he'
  · rw [find_update]
    refine (h.keys k).trans ?_
    split <;> simp

variable (opt)

structure Front (m : Nat → Option Bytes) (i : Nat) (elsewhere : Nat → Prop) (lru : LRUCache)
    (st : Store) : Prop where
  coherent : Coherent opt m i lru
  holds : Holds m (fun k => elsewhere k ∨ (lru.find k).isSome) st

def Bounded (m : Nat → Option Bytes) : Prop :=
  ∀ k v, m k = some v → pages v.length < opt.blockLimit

variable {opt}

theorem Front.evict (h : Front opt m i elsewhere lru st) (hb : Bounded opt m)
    (hf : lru.find key = some value)
    (hq : (lru.evict opt st key).2.2.blockController.faults = st.blockController.faults) :
    (lru.evict opt st key).1 = true ∧ (lru.evict opt st key).2.1 = lru.remove key value ∧
      Front opt m i elsewhere (lru.evict opt st key).2.1 (lru.evict opt st key).2.2 := by
  have hm := h.coherent.eq_some hf
  have hput := h.holds.put opt (hb key value hm)
    (fun k => elsewhere k ∨ ((lru.remove key value).find k).isSome)
    (fun k hne => by rw [find_remove, if_neg hne]; exact id)
  unfold LRUCache.evict at hq ⊢
  rw [hf] at hq ⊢
  simp only at hq ⊢
  have hq' : (st.put opt key value).2.blockController.faults = st.blockController.faults := by
    split at hq <;> exact hq
  obtain ⟨hok, hheld⟩ := hput hq'
  rw [← hm, Function.update_eq_self] at hheld
  rw [if_pos hok]
  exact ⟨rfl, rfl, h.coherent.remove key value, hheld⟩

theorem erase_head {k last : Nat} {keys : List Nat} (hnodup : keys.Nodup)
    (hhead : keys.head? = some k) (hlen : 1 < keys.length) (hlast : keys.getLast? = some last) :
    k ≠ last ∧ (keys.erase last).head? = some k := by
  obtain ⟨t, rfl⟩ := List.head?_eq_some_iff.mp hhead
  have ht : t ≠ [] := by
    rintro rfl
    exact absurd hlen (by simp)
  have hmem : last ∈ t := by
    rw [List.getLast?_cons_of_ne_nil ht] at hlast
    exact List.mem_of_getLast? hlast
  have hne : k ≠ last := fun heq => (List.nodup_cons.mp hnodup).1 (heq ▸ hmem)
  refine ⟨hne, ?_⟩
  rw [List.erase_cons_tail (by simpa using hne)]
  rfl

theorem Front.evictWhile (full : Int → Bool) (least fuel : Nat)
    (h : Front opt m i elsewhere lru st) (hb : Bounded opt m)
    (hq : (evictWhile opt full least fuel lru st).2.2.blockController.faults =
      st.blockController.faults) :
    (evictWhile opt full least fuel lru st).1 = true ∧
      Front opt m i elsewhere (evictWhile opt full least fuel lru st).2.1
        (evictWhile opt full least fuel lru st).2.2 ∧
      (∀ k, lru.find k = none → (evictWhile opt full least fuel lru st).2.1.find k = none) ∧
      (∀ k, 1 ≤ least → lru.keys.head? = some k →
        (evictWhile opt full least fuel lru st).2.1.find k = lru.find k) := by
  induction fuel generalizing lru st with
  | zero => exact ⟨rfl, h, fun _ => id, fun _ _ _ => rfl⟩
  | succ fuel ih =>
    unfold LRUCache.evictWhile at hq ⊢
    by_cases hfull : full lru.size ∧ least < lru.keys.length
    · rw [if_pos hfull] at hq ⊢
      cases hlast : lru.keys.getLast? with
      | none => exact ⟨rfl, h, fun _ => id, fun _ _ _ => rfl⟩
      | some last =>
        obtain ⟨value, hfind⟩ := Option.isSome_iff_exists.mp
          ((h.coherent.keys last).mp (List.mem_of_getLast? hlast))
        have hmap := FileIO.within_map lru
        have he := evict_keeps opt hmap h.holds.owned (h.holds.safe _) last
        have hw := evictWhile_keeps opt full least fuel he.within he.store.owned he.store.safe
        have hmono := he.store.faults
        have hmono' := hw.store.faults
        simp only [hlast] at hq ⊢
        have hq1 : (lru.evict opt st last).2.2.blockController.faults =
            st.blockController.faults := by
          split at hq
          · omega
          · exact hq
        obtain ⟨hok, hrem, hfront⟩ := h.evict hb hfind hq1
        rw [if_pos hok] at hq ⊢
        obtain ⟨hdone, hfront', hout, hhead⟩ := ih hfront (hq.trans hq1.symm)
        refine ⟨hdone, hfront', fun k hk => hout k ?_, fun k hleast hk => ?_⟩
        · rw [hrem, find_remove, hk]
          split <;> rfl
        · obtain ⟨hne, hk'⟩ := erase_head h.coherent.nodup hk (by omega) hlast
          rw [hhead k hleast (by rw [hrem]; exact hk'), hrem, find_remove, if_neg hne]
    · rw [if_neg hfull]
      exact ⟨rfl, h, fun _ => id, fun _ _ _ => rfl⟩

theorem Front.makeRoom (full : Int → Bool) (h : Front opt m i elsewhere lru st)
    (hb : Bounded opt m) (hf : lru.find key = some old)
    (hq : ((lru.touch key).makeRoom opt st key full).2.2.blockController.faults =
      st.blockController.faults) :
    ((lru.touch key).makeRoom opt st key full).1 = true ∧
      Front opt m i elsewhere ((lru.touch key).makeRoom opt st key full).2.1
        ((lru.touch key).makeRoom opt st key full).2.2 ∧
      ((lru.touch key).makeRoom opt st key full).2.1.find key = some old := by
  have htouch : Front opt m i elsewhere (lru.touch key) st :=
    ⟨h.coherent.touch (by rw [hf]; rfl), h.holds⟩
  have hmap := FileIO.within_map (lru.touch key)
  have he := evictWhile_keeps opt full 1 (lru.touch key).keys.length
    hmap h.holds.owned (h.holds.safe _)
  have hev := evict_keeps opt he.within he.store.owned he.store.safe key
  have hmono := he.store.faults
  have hmono' := hev.store.faults
  unfold LRUCache.makeRoom at hq ⊢
  simp only at hq ⊢
  have hq1 : (LRUCache.evictWhile opt full 1 (lru.touch key).keys.length (lru.touch key)
      st).2.2.blockController.faults = st.blockController.faults := by
    split at hq
    · exact hq
    · simp only at hq
      omega
  obtain ⟨hok, hfront, -, hhead⟩ := htouch.evictWhile full 1 _ hb hq1
  rw [if_pos hok]
  exact ⟨hok, hfront, (hhead key (le_refl _) rfl).trans hf⟩

variable (opt)

structure Taken (m : Nat → Option Bytes) (i : Nat) (elsewhere : Nat → Prop) (key : Nat)
    (value : Bytes) (r : Bool × LRUCache × Store) : Prop where
  taken : r.1 = true → Coherent opt (Function.update m key (some value)) i r.2.1 ∧
    (r.2.1.find key).isSome ∧ Holds m (fun k => elsewhere k ∨ (r.2.1.find k).isSome) r.2.2
  refused : r.1 = false → r.2.1.find key = none ∧ Front opt m i elsewhere r.2.1 r.2.2

variable {opt}

theorem Front.insert (h : Front opt m i elsewhere lru st) (hf : lru.find key = none)
    (hhash : FileIO.hash opt key = i) (value : Bytes) :
    Taken opt m i elsewhere key value (true, lru.insert key value, st) := by
  refine ⟨fun _ => ⟨h.coherent.insert hf hhash value, ?_, h.holds.mono fun k => ?_⟩,
    fun hfalse => (Bool.false_ne_true hfalse.symm).elim⟩
  · rw [find_insert, if_pos rfl]
    rfl
  · rw [find_insert]
    split
    · exact fun _ => .inr rfl
    · exact id

theorem Front.update (h : Front opt m i elsewhere lru st) (hf : lru.find key = some old)
    (value : Bytes) (delta : Int) :
    Taken opt m i elsewhere key value (true, lru.update key value delta, st) := by
  have hfind : ∀ k, ((lru.update key value delta).find k).isSome = (lru.find k).isSome := by
    intro k
    rw [find_update]
    split <;> simp
  refine ⟨fun _ => ⟨h.coherent.update key value delta, ?_, h.holds.mono fun k => ?_⟩,
    fun hfalse => (Bool.false_ne_true hfalse.symm).elim⟩
  · rw [hfind, hf]
    rfl
  · rw [hfind]
    exact id

theorem Front.refuse (h : Front opt m i elsewhere lru st) (hb : Bounded opt m)
    (hf : lru.find key = some old) (value : Bytes)
    (hq : (lru.evict opt st key).2.2.blockController.faults = st.blockController.faults) :
    Taken opt m i elsewhere key value (false, (lru.evict opt st key).2) := by
  obtain ⟨-, hrem, hfront⟩ := h.evict hb hf hq
  refine ⟨fun htrue => (Bool.false_ne_true htrue).elim, fun _ => ⟨?_, hfront⟩⟩
  rw [hrem, find_remove, if_pos rfl]

theorem Front.put (h : Front opt m i elsewhere lru st) (hb : Bounded opt m)
    (hhash : FileIO.hash opt key = i) (value : Bytes)
    (hq : (lru.put opt st key value).2.2.blockController.faults = st.blockController.faults) :
    Taken opt m i elsewhere key value (lru.put opt st key value) := by
  unfold LRUCache.put at hq ⊢
  cases hf : lru.find key with
  | some old =>
    simp only [hf] at hq ⊢
    split at hq
    · rename_i hlimit
      rw [if_pos hlimit]
      exact h.refuse hb hf value hq
    · rename_i hlimit
      rw [if_neg hlimit]
      have hq' := hq
      rw [apply_ite (fun r : Bool × LRUCache × Store => r.2.2)] at hq'
      simp only [ite_self] at hq'
      obtain ⟨hok, hfront, hkey⟩ := h.makeRoom _ hb hf hq'
      rw [if_pos hok]
      exact hfront.update hkey value _
  | none =>
    simp only [hf] at hq ⊢
    split at hq
    · rename_i hlimit
      rw [if_pos hlimit]
      exact ⟨fun htrue => (Bool.false_ne_true htrue).elim, fun _ => ⟨hf, h⟩⟩
    · rename_i hlimit
      rw [if_neg hlimit]
      have hq' := hq
      rw [apply_ite (fun r : Bool × LRUCache × Store => r.2.2)] at hq'
      simp only [ite_self] at hq'
      obtain ⟨hok, hfront, hout, -⟩ := h.evictWhile _ _ _ hb hq'
      rw [if_pos hok]
      exact hfront.insert (hout key hf) hhash value

theorem Front.merge (h : Front opt m i elsewhere lru st) (hb : Bounded opt m)
    (hhash : FileIO.hash opt key = i) (hclean : ¬ elsewhere key) (hold : m key = some old)
    (hlt : old.length < 2 ^ 31) (checksum : Bytes → Bool) (value : Bytes)
    (hq : (lru.merge opt st key value checksum).2.2.blockController.faults =
      st.blockController.faults) :
    Taken opt m i elsewhere key (old ++ value) (lru.merge opt st key value checksum) := by
  unfold LRUCache.merge at hq ⊢
  cases hf : lru.find key with
  | some cached =>
    obtain rfl : cached = old := Option.some.inj ((h.coherent.eq_some hf).symm.trans hold)
    simp only [hf] at hq ⊢
    split at hq
    · rename_i hlimit
      rw [if_pos hlimit]
      exact h.refuse hb hf _ hq
    · rename_i hlimit
      rw [if_neg hlimit]
      have hq' := hq
      rw [apply_ite (fun r : Bool × LRUCache × Store => r.2.2)] at hq'
      simp only [ite_self] at hq'
      obtain ⟨hok, hfront, hkey⟩ := h.makeRoom _ hb hf hq'
      rw [if_pos hok]
      exact hfront.update hkey _ _
  | none =>
    have hdirty : ¬ (elsewhere key ∨ (lru.find key).isSome) := by
      rw [hf]
      simpa using hclean
    have hkeeps := get_keeps opt h.holds.owned (h.holds.safe (lru.cache.map (·.1))) key
    have hmono := hkeeps.faults
    simp only [hf] at hq ⊢
    have hget : (st.get opt key).2.blockController.faults = st.blockController.faults →
        (st.get opt key).1 = .ok old ∧
          Front opt m i elsewhere lru (st.get opt key).2 := by
      intro hsame
      obtain ⟨hok, hheld⟩ := h.holds.get opt hdirty hold hlt
        (by have := hb key old hold; have := opt.blockLimit_le_reqs; omega) hsame
      exact ⟨hok, h.coherent, hheld⟩
    rcases hgot : st.get opt key with ⟨got, st'⟩
    rw [hgot] at hq hget hmono hkeeps
    cases got with
    | error e => cases (hget hq).1
    | ok v =>
      simp only at hq ⊢ hget hmono
      have hmap := FileIO.within_map lru
      have hw : ∀ full, st'.blockController.faults ≤
          (LRUCache.evictWhile opt full 0 lru.keys.length lru st').2.2.blockController.faults :=
        fun full => (evictWhile_keeps opt full 0 _ hmap hkeeps.owned
          hkeeps.safe).store.faults
      have hsame : st'.blockController.faults = st.blockController.faults := by
        split at hq
        · rw [apply_ite (fun r : Bool × LRUCache × Store => r.2.2)] at hq
          simp only [ite_self] at hq
          have := hw fun size => decide (toSize (toInt (capacity opt - size)) < (v ++ value).length)
          omega
        · exact hq
      obtain ⟨hok, hfront⟩ := hget hsame
      obtain rfl := Except.ok.inj hok
      split at hq
      · rename_i hsum
        rw [if_pos hsum]
        have hq' := hq
        rw [apply_ite (fun r : Bool × LRUCache × Store => r.2.2)] at hq'
        simp only [ite_self] at hq'
        obtain ⟨hroom, hfront', hout, -⟩ := hfront.evictWhile _ _ _ hb (hq'.trans hsame.symm)
        rw [if_pos hroom]
        exact hfront'.insert (hout key hf) hhash _
      · rename_i hsum
        rw [if_neg hsum]
        exact ⟨fun htrue => (Bool.false_ne_true htrue).elim, fun _ => ⟨hf, hfront⟩⟩

theorem flushEntries_holds {dirty : Nat → Prop} {es : List (Nat × Bytes)} (h : Holds m dirty st)
    (hb : Bounded opt m) (hes : ∀ e ∈ es, m e.1 = some e.2)
    (hq : (flushEntries opt es st).2.blockController.faults = st.blockController.faults) :
    (flushEntries opt es st).1 = true ∧
      Holds m (fun k => dirty k ∧ k ∉ es.map (·.1)) (flushEntries opt es st).2 := by
  induction es generalizing dirty st with
  | nil => exact ⟨rfl, h.mono fun k hk => ⟨hk, List.not_mem_nil⟩⟩
  | cons e es ih =>
    obtain ⟨he, hes⟩ := List.forall_mem_cons.mp hes
    have hput := Store.put_keeps opt h.owned (h.safe ((e :: es).map (·.1)))
      (List.mem_map.mpr ⟨e, List.mem_cons_self, rfl⟩) e.2
    have hwithin : ∀ e' ∈ es, e'.1 ∈ (e :: es).map (·.1) :=
      fun e' he' => List.mem_map.mpr ⟨e', List.mem_cons_of_mem e he', rfl⟩
    have hrest := flushEntries_keeps opt hwithin hput.owned hput.safe
    have hmono := hput.faults
    have hmono' := hrest.faults
    simp only [flushEntries] at hq ⊢
    have hq1 : (st.put opt e.1 e.2).2.blockController.faults = st.blockController.faults := by
      split at hq
      · omega
      · exact hq
    obtain ⟨hok, hheld⟩ := h.put opt (hb e.1 e.2 he) (fun k => dirty k ∧ k ≠ e.1)
      (fun k hne hk => ⟨hk, hne⟩) hq1
    rw [← he, Function.update_eq_self] at hheld
    rw [if_pos hok] at hq ⊢
    obtain ⟨hdone, hheld'⟩ := ih hheld hes (hq.trans hq1.symm)
    refine ⟨hdone, hheld'.mono fun k hk => ⟨hk.1.1, ?_⟩⟩
    rw [List.map_cons, List.mem_cons]
    exact not_or.mpr ⟨hk.1.2, hk.2⟩

end LRUCache

namespace FileIO

open Store LRUCache

variable (opt : Options) {f : FileIO} {m : Nat → Option Bytes} {key : Nat} {value : Bytes}

def execMap (m : Nat → Option Bytes) : Call → Answer × (Nat → Option Bytes)
  | .put key value => (.code true, Function.update m key (some value))
  | .merge key value _ =>
    match m key with
    | none => (.code false, m)
    | some old => (.code true, Function.update m key (some (old ++ value)))
  | .delete key => (.code (m key).isSome, Function.update m key none)
  | .get key => (.value (m key), m)
  | .getBuffer key => (.value (m key), m)
  | .flush => (.code true, m)
  | .checkpoint => (.code true, m)

/-- What is kept for every value: it has fewer pages than the limit, and an `int` holds its
size. -/
def Fits (value : Bytes) : Prop := pages value.length < opt.blockLimit ∧ value.length < 2 ^ 31

structure Agrees (m : Nat → Option Bytes) (f : FileIO) : Prop where
  holds : Holds m (fun k => (f.cached opt k).isSome) f.store
  caches : ∀ i, i < opt.cacheShards → Coherent opt m i (f.caches i)
  fits : ∀ k v, m k = some v → Fits opt v

variable {opt}

theorem Agrees.bounded (h : Agrees opt m f) : Bounded opt m := fun k v hv => (h.fits k v hv).1

theorem Fits.le_reqs (h : Fits opt value) : pages value.length ≤ opt.reqs := by
  have := opt.blockLimit_le_reqs
  have := h.1
  omega

theorem hash_lt (hs : opt.cacheShards ≠ 0) (key : Nat) : hash opt key < opt.cacheShards :=
  Nat.mod_lt _ (Nat.pos_of_ne_zero hs)

theorem cached_eq (hs : opt.cacheShards ≠ 0) (f : FileIO) (key : Nat) :
    f.cached opt key = (f.caches (hash opt key)).find key := if_neg hs

theorem cached_none (hs : opt.cacheShards = 0) (f : FileIO) (key : Nat) :
    f.cached opt key = none := if_pos hs

theorem Agrees.of_cached (h : Agrees opt m f) (hc : f.cached opt key = some value) :
    m key = some value := by
  by_cases hs : opt.cacheShards = 0
  · rw [cached_none hs] at hc
    cases hc
  · rw [cached_eq hs] at hc
    exact (h.caches _ (hash_lt hs key)).eq_some hc

def elsewhere (opt : Options) (f : FileIO) (key k : Nat) : Prop :=
  hash opt k ≠ hash opt key ∧ (f.cached opt k).isSome

theorem Agrees.front (h : Agrees opt m f) (hs : opt.cacheShards ≠ 0) (key : Nat) :
    Front opt m (hash opt key) (elsewhere opt f key) (f.caches (hash opt key)) f.store := by
  refine ⟨h.caches _ (hash_lt hs key), h.holds.mono fun k hk => ?_⟩
  by_cases hhash : hash opt k = hash opt key
  · rw [cached_eq hs, hhash] at hk
    exact .inr hk
  · exact .inl ⟨hhash, hk⟩

theorem Agrees.of_shard (h : Agrees opt m f) (hs : opt.cacheShards ≠ 0) {r : Option Bytes}
    {lru : LRUCache} {st : Store}
    (hc : Coherent opt (Function.update m key r) (hash opt key) lru)
    (hheld : Holds (Function.update m key r)
      (fun k => elsewhere opt f key k ∨ (lru.find k).isSome) st)
    (hfits : ∀ v, r = some v → Fits opt v) :
    Agrees opt (Function.update m key r) ⟨st, f.setCache opt key lru⟩ := by
  refine ⟨hheld.mono fun k hk => ?_, fun i hi => ?_, fun k v hv => ?_⟩
  · rw [cached_eq hs]
    change ((f.setCache opt key lru (hash opt k)).find k).isSome
    rcases hk with ⟨hne, hk⟩ | hk
    · rw [cached_eq hs] at hk
      rwa [setCache, Function.update_of_ne hne]
    · rwa [hc.hash_eq hk, setCache, Function.update_self]
  · by_cases hi' : i = hash opt key
    · subst hi'
      simp only [setCache, Function.update_self]
      exact hc
    · simp only [setCache, Function.update_of_ne hi']
      refine ⟨fun e he => ?_, (h.caches i hi).nodup, (h.caches i hi).keys⟩
      obtain ⟨hval, hhash⟩ := (h.caches i hi).entries e he
      have hne : e.1 ≠ key := by
        rintro rfl
        exact hi' hhash.symm
      rw [Function.update_of_ne hne]
      exact ⟨hval, hhash⟩
  · by_cases hk : k = key
    · subst hk
      rw [Function.update_self] at hv
      exact hfits v hv
    · rw [Function.update_of_ne hk] at hv
      exact h.fits k v hv

theorem agrees_of_store (hs : opt.cacheShards = 0) {st : Store}
    (hheld : Holds m (fun k => (f.cached opt k).isSome) st)
    (hfits : ∀ k v, m k = some v → Fits opt v) : Agrees opt m { f with store := st } := by
  refine ⟨hheld.mono fun k hk => ?_, fun i hi => by omega, hfits⟩
  rw [cached_none hs] at hk
  cases hk

theorem fits_update {r : Option Bytes} (h : Agrees opt m f) (hr : ∀ v, r = some v → Fits opt v) :
    ∀ k v, Function.update m key r k = some v → Fits opt v := by
  intro k v hv
  by_cases hk : k = key
  · subst hk
    rw [Function.update_self] at hv
    exact hr v hv
  · rw [Function.update_of_ne hk] at hv
    exact h.fits k v hv

theorem Agrees.put (h : Agrees opt m f) (hfit : Fits opt value)
    (hq : (f.put opt key value).2.store.blockController.faults =
      f.store.blockController.faults) :
    (f.put opt key value).1 = .success ∧
      Agrees opt (Function.update m key (some value)) (f.put opt key value).2 := by
  have hval : ∀ v, some value = some v → Fits opt v := fun v hv => Option.some.inj hv ▸ hfit
  have hreach := h.holds.reach key
  have hk : key < (f.store.reach key).blockMapping.length := lt_length_reach key
  unfold FileIO.put at hq ⊢
  rw [if_neg (not_le.mpr hfit.1)] at hq ⊢
  simp only at hq ⊢
  by_cases hs : opt.cacheShards = 0
  · rw [if_pos hs] at hq ⊢
    obtain ⟨hok, hheld⟩ := hreach.putBlocks opt hk _ (fun _ _ => id) hq
    exact ⟨hok, agrees_of_store hs hheld (fits_update h hval)⟩
  · rw [if_neg hs] at hq ⊢
    have hfront : Front opt m (hash opt key) (elsewhere opt f key) (f.caches (hash opt key))
        (f.store.reach key) := ⟨(h.front hs key).coherent, (h.front hs key).holds.reach key⟩
    have hkeeps := LRUCache.put_keeps opt
      (fun e he => List.mem_cons_of_mem key (within_map (f.caches (hash opt key)) e he))
      hfront.holds.owned (hfront.holds.safe _) List.mem_cons_self value
    have hk' := lt_of_lt_of_le hk hkeeps.store.length
    have htaken := hfront.put h.bounded rfl value
    have hmono := hkeeps.store.faults
    rcases hput : (f.caches (hash opt key)).put opt (f.store.reach key) key value with ⟨ok, lru, st⟩
    rw [hput] at hq hkeeps hk' htaken hmono
    cases ok with
    | true =>
      simp only [if_true] at hq ⊢ hmono
      have hspec := putCached_spec opt hkeeps.store.owned hk' value
      have hle := hspec.touches.frame.faults
      have hsame : st.blockController.faults = (f.store.reach key).blockController.faults :=
        le_antisymm (hle.trans hq.le) hmono
      obtain ⟨hcoh, hin, hheld⟩ := (htaken hsame).taken rfl
      obtain ⟨hok, hheld'⟩ := hheld.resized hspec
        (fun k => elsewhere opt f key k ∨ (lru.find k).isSome) (fun _ => id) (.inr hin)
        (hq.trans hsame.symm)
      exact ⟨hok, h.of_shard hs hcoh hheld' hval⟩
    | false =>
      simp only [Bool.false_eq_true, if_false] at hq ⊢ hmono
      have hspec := putBlocks_spec opt hkeeps.store.owned hk' value
        (hkeeps.store.safe.at_key List.mem_cons_self)
      have hle := hspec.touches.frame.faults
      have hsame : st.blockController.faults = (f.store.reach key).blockController.faults :=
        le_antisymm (hle.trans hq.le) hmono
      obtain ⟨hout, hfront'⟩ := (htaken hsame).refused rfl
      obtain ⟨hok, hheld⟩ := hfront'.holds.putBlocks opt hk' _ (fun _ _ => id) (hq.trans hsame.symm)
      exact ⟨hok, h.of_shard hs (hfront'.coherent.of_find_none hout _) hheld hval⟩

theorem Agrees.merge_none (h : Agrees opt m f) (hnone : m key = none) (value : Bytes)
    (checksum : Bytes → Bool) :
    (f.merge opt key value checksum).1 ≠ .success ∧ (f.merge opt key value checksum).2 = f := by
  unfold FileIO.merge
  rw [h.holds.at_none hnone]
  split
  · exact ⟨nofun, rfl⟩
  · exact ⟨nofun, rfl⟩

theorem Agrees.merge_some {old : Bytes} (h : Agrees opt m f) (hold : m key = some old)
    (hfit : Fits opt (old ++ value)) {checksum : Bytes → Bool}
    (hq : (f.merge opt key value checksum).2.store.blockController.faults =
      f.store.blockController.faults) :
    (f.merge opt key value checksum).1 = .success ∧
      Agrees opt (Function.update m key (some (old ++ value)))
        (f.merge opt key value checksum).2 := by
  have hval : ∀ v, some (old ++ value) = some v → Fits opt v :=
    fun v hv => Option.some.inj hv ▸ hfit
  obtain ⟨slots, hat⟩ := h.holds.at_some hold
  have hk := at?_lt_length hat
  have hsize : (old.length : Int).toNat + value.length = (old ++ value).length := by
    rw [List.length_append, Int.toNat_natCast]
  unfold FileIO.merge at hq ⊢
  rw [if_neg (not_le.mpr hk), hat] at hq ⊢
  simp only [if_neg (not_lt.mpr (Int.natCast_nonneg old.length)), hsize] at hq ⊢
  rw [if_neg (not_le.mpr hfit.1)] at hq ⊢
  by_cases hs : opt.cacheShards = 0
  · rw [if_pos hs] at hq ⊢
    have hclean : ¬ (f.cached opt key).isSome := by
      rw [cached_none hs]
      exact Bool.false_ne_true
    obtain ⟨hok, hheld⟩ := h.holds.mergeBlocks opt hclean hold hfit.le_reqs rfl hq
    exact ⟨hok, agrees_of_store hs hheld (fits_update h hval)⟩
  · rw [if_neg hs] at hq ⊢
    have hfront := h.front hs key
    have hclean : ¬ elsewhere opt f key key := fun helse => helse.1 rfl
    have hkeeps := LRUCache.merge_keeps opt
      (fun e he => List.mem_cons_of_mem key (within_map (f.caches (hash opt key)) e he))
      hfront.holds.owned (hfront.holds.safe _) List.mem_cons_self value checksum
    have hk' := lt_of_lt_of_le hk hkeeps.store.length
    have htaken := hfront.merge h.bounded rfl hclean hold (h.fits key old hold).2 checksum value
    have hmono := hkeeps.store.faults
    rcases hmerge : (f.caches (hash opt key)).merge opt f.store key value checksum with
      ⟨ok, lru, st⟩
    rw [hmerge] at hq hkeeps hk' htaken hmono
    cases ok with
    | true =>
      simp only [if_true] at hq ⊢ hmono
      have hle := (mergeCached_owned opt hkeeps.store.owned key (old ++ value).length).2
      have hsame : st.blockController.faults = f.store.blockController.faults :=
        le_antisymm (hle.trans hq.le) hmono
      obtain ⟨hcoh, hin, hheld⟩ := (htaken hsame).taken rfl
      obtain ⟨slots', hat'⟩ := hheld.at_some hold
      obtain ⟨hok, hheld'⟩ := hheld.resized
        (mergeCached_spec opt (old ++ value).length hkeeps.store.owned hk' hat')
        (fun k => elsewhere opt f key k ∨ (lru.find k).isSome) (fun _ => id) (.inr hin)
        (hq.trans hsame.symm)
      exact ⟨hok, h.of_shard hs hcoh hheld' hval⟩
    | false =>
      simp only [Bool.false_eq_true, if_false] at hq ⊢ hmono
      have hle := (mergeBlocks_owned opt hkeeps.store.owned key value (old ++ value).length).2
      have hsame : st.blockController.faults = f.store.blockController.faults :=
        le_antisymm (hle.trans hq.le) hmono
      obtain ⟨hout, hfront'⟩ := (htaken hsame).refused rfl
      have hclean' : ¬ (elsewhere opt f key key ∨ (lru.find key).isSome) := by
        rw [hout]
        simpa using hclean
      obtain ⟨hok, hheld⟩ := hfront'.holds.mergeBlocks opt hclean' hold hfit.le_reqs rfl
        (hq.trans hsame.symm)
      exact ⟨hok, h.of_shard hs (hfront'.coherent.of_find_none hout _) hheld hval⟩

theorem Agrees.delete (h : Agrees opt m f) (key : Nat) :
    ((f.delete opt key).1 = .success ↔ (m key).isSome) ∧
      Agrees opt (Function.update m key none) (f.delete opt key).2 := by
  unfold FileIO.delete
  split
  · rename_i hge
    have hnone : m key = none := by
      cases hm : m key with
      | none => rfl
      | some v =>
        obtain ⟨slots, hat⟩ := h.holds.at_some hm
        exact absurd (at?_lt_length hat) (not_lt.mpr hge)
    have hsame : Function.update m key none = m := by
      rw [← hnone, Function.update_eq_self]
    rw [hsame, hnone]
    exact ⟨by simp, h⟩
  · rename_i hlt
    have hk := not_le.mp hlt
    simp only
    by_cases hs : opt.cacheShards = 0
    · rw [if_pos hs]
      obtain ⟨hcode, hheld⟩ := h.holds.delete opt hk _ fun _ _ => id
      exact ⟨hcode, agrees_of_store hs hheld (fits_update h nofun)⟩
    · rw [if_neg hs]
      have hfront := h.front hs key
      have hdel : ((f.caches (hash opt key)).del key).find key = none ∧
          Coherent opt m (hash opt key) ((f.caches (hash opt key)).del key) ∧
          ∀ k, k ≠ key → ((f.caches (hash opt key)).find k).isSome →
            (((f.caches (hash opt key)).del key).find k).isSome := by
        unfold LRUCache.del
        cases hf : (f.caches (hash opt key)).find key with
        | none => exact ⟨hf, hfront.coherent, fun _ _ => id⟩
        | some v =>
          refine ⟨by rw [find_remove, if_pos rfl], hfront.coherent.remove key v, fun k hne => ?_⟩
          rw [find_remove, if_neg hne]
          exact id
      obtain ⟨hout, hcoh, hkept⟩ := hdel
      obtain ⟨hcode, hheld⟩ := hfront.holds.delete opt hk
        (fun k => elsewhere opt f key k ∨ (((f.caches (hash opt key)).del key).find k).isSome)
        (fun k hne => Or.imp_right (hkept k hne))
      exact ⟨hcode, h.of_shard hs (hcoh.of_find_none hout _) hheld nofun⟩

theorem Agrees.get (h : Agrees opt m f)
    (hq : (f.get opt key).2.store.blockController.faults = f.store.blockController.faults) :
    (f.get opt key).1.toOption = m key ∧ Agrees opt m (f.get opt key).2 := by
  unfold FileIO.get at hq ⊢
  cases hm : m key with
  | none =>
    obtain ⟨e, he⟩ := h.holds.locate_none hm
    rw [he]
    exact ⟨rfl, h⟩
  | some v =>
    obtain ⟨slots, hat, hloc⟩ := h.holds.locate_some hm (h.fits key v hm).2
    rw [hloc] at hq ⊢
    simp only at hq ⊢
    cases hc : f.cached opt key with
    | some v' =>
      have hv := h.of_cached hc
      rw [hm] at hv
      exact ⟨hv.symm, h⟩
    | none =>
      simp only [hc] at hq ⊢
      have hclean : ¬ (f.cached opt key).isSome := by
        rw [hc]
        exact Bool.false_ne_true
      obtain ⟨hok, hheld⟩ := h.holds.read opt hclean hm (h.fits key v hm).le_reqs hat hq
      rw [hok]
      exact ⟨rfl, hheld, h.caches, h.fits⟩

theorem Agrees.flushShard {shard : Nat} (h : Agrees opt m f) (hlt : shard < opt.cacheShards)
    (hq : ((f.caches shard).flush opt f.store).2.2.blockController.faults =
      f.store.blockController.faults) :
    ((f.caches shard).flush opt f.store).1 = true ∧
      Agrees opt m ⟨((f.caches shard).flush opt f.store).2.2,
        Function.update f.caches shard ((f.caches shard).flush opt f.store).2.1⟩ := by
  have hs : opt.cacheShards ≠ 0 := by omega
  have hcoh := h.caches shard hlt
  have hmem : ∀ e, e ∈ opt.iterate (f.caches shard).cache ↔ e ∈ (f.caches shard).cache :=
    fun e => (opt.iterate_perm _).mem_iff
  unfold LRUCache.flush at hq ⊢
  simp only at hq ⊢
  have hq' : (flushEntries opt (opt.iterate (f.caches shard).cache)
      f.store).2.blockController.faults = f.store.blockController.faults := by
    split at hq <;> exact hq
  obtain ⟨hok, hheld⟩ := flushEntries_holds h.holds h.bounded
    (fun e he => (hcoh.entries e ((hmem e).mp he)).1) hq'
  rw [if_pos hok]
  refine ⟨rfl, hheld.mono fun k hk => ?_, fun i hi => ?_, h.fits⟩
  · rw [cached_eq hs] at hk ⊢
    have hne : hash opt k ≠ shard := by
      intro heq
      obtain ⟨v, hv⟩ := Option.isSome_iff_exists.mp (heq ▸ hk.1)
      exact hk.2 (List.mem_map.mpr ⟨(k, v), (hmem _).mpr (mem_cache_of_find hv), rfl⟩)
    simp only [Function.update_of_ne hne]
    exact hk.1
  · by_cases hi' : i = shard
    · subst hi'
      simp only [Function.update_self]
      exact ⟨fun e he => absurd he List.not_mem_nil, List.nodup_nil, fun k => by
        simp [LRUCache.empty, LRUCache.find]⟩
    · simp only [Function.update_of_ne hi']
      exact h.caches i hi

theorem Agrees.flushShards {n shard : Nat} (h : Agrees opt m f)
    (hn : shard + n ≤ opt.cacheShards)
    (hq : (flushShards opt n shard f).2.store.blockController.faults =
      f.store.blockController.faults) :
    (flushShards opt n shard f).1 = true ∧ Agrees opt m (flushShards opt n shard f).2 := by
  induction n generalizing shard f with
  | zero => exact ⟨rfl, h⟩
  | succ n ih =>
    have hcoh := h.caches shard (by omega)
    have hmem : ∀ e ∈ opt.iterate (f.caches shard).cache, e ∈ (f.caches shard).cache :=
      fun e he => (opt.iterate_perm _).mem_iff.mp he
    have hkeeps := LRUCache.flush_keeps opt (within_touched opt (f := f) (show shard < _ by omega))
      h.holds.owned (h.holds.safe _)
    have hw : ∀ lru i, shard + 1 ≤ i → i < shard + 1 + n →
        (Function.update f.caches shard lru i).Within (touched opt f .flush) := by
      intro lru i hi hlt
      rw [Function.update_of_ne (by omega)]
      exact within_touched opt (by omega)
    have hrest := flushShards_keeps opt n (shard + 1)
      (f := ⟨_, Function.update f.caches shard ((f.caches shard).flush opt f.store).2.1⟩)
      hkeeps.store.owned hkeeps.store.safe (hw _)
    have hmono := hkeeps.store.faults
    have hmono' := hrest.faults
    unfold FileIO.flushShards at hq ⊢
    simp only at hq ⊢
    have hq1 : ((f.caches shard).flush opt f.store).2.2.blockController.faults =
        f.store.blockController.faults := by
      split at hq
      · exact le_antisymm (hmono'.trans hq.le) hmono
      · exact hq
    obtain ⟨hok, hagrees⟩ := h.flushShard (show shard < _ by omega) hq1
    rw [if_pos hok] at hq ⊢
    exact ih hagrees (by omega) (hq.trans hq1.symm)

theorem Agrees.checkpoint (h : Agrees opt m f)
    (hq : (f.checkpoint opt).store.blockController.faults = f.store.blockController.faults) :
    Agrees opt m (f.checkpoint opt) := by
  obtain ⟨-, hagrees⟩ := h.flushShards (Nat.zero_add _).le hq
  refine ⟨⟨⟨reloadReserve_owns hagrees.holds.owned.owns, hagrees.holds.owned.full,
    hagrees.holds.owned.buffer⟩, hagrees.holds.sizes, fun k v hk hv => ?_⟩, hagrees.caches,
    hagrees.fits⟩
  exact ⟨(hagrees.holds.stored k v hk hv).at_key⟩

variable (opt)

def serve (f : FileIO) (e : Event) : Answer × FileIO := (f.withIo e.io).exec opt e.call

def serveMap (m : Nat → Option Bytes) (e : Event) : Answer × (Nat → Option Bytes) :=
  execMap m e.call

/-- The file system and the pool do not fail, the values stay below the page limit, and the
checksum accepts what is stored. -/
structure Smooth (p : FileIO × (Nat → Option Bytes)) (e : Event) : Prop where
  quiet : (serve opt p.1 e).2.store.blockController.faults = p.1.store.blockController.faults
  limit : ∀ k v, (serveMap p.2 e).2 k = some v → pages v.length < opt.blockLimit
  accepts : ∀ key value checksum old, e.call = .merge key value checksum → p.2 key = some old →
    checksum old = true

def Small (p : FileIO × (Nat → Option Bytes)) (e : Event) : Prop :=
  ∀ k v, (serveMap p.2 e).2 k = some v → v.length < 2 ^ 31

variable {opt}

theorem exec_agrees (h : Agrees opt m f) (c : Call)
    (hq : (f.exec opt c).2.store.blockController.faults = f.store.blockController.faults)
    (hfits : ∀ k v, (execMap m c).2 k = some v → Fits opt v) :
    (f.exec opt c).1 = (execMap m c).1 ∧ Agrees opt (execMap m c).2 (f.exec opt c).2 := by
  cases c with
  | put key value =>
    obtain ⟨hok, hagrees⟩ := h.put (hfits key value (Function.update_self _ _ _)) hq
    exact ⟨by simp [exec, execMap, hok], hagrees⟩
  | merge key value checksum =>
    cases hm : m key with
    | none =>
      obtain ⟨hfail, hsame⟩ := h.merge_none hm value checksum
      simp only [exec, execMap, hm, hsame]
      exact ⟨by simp [hfail], h⟩
    | some old =>
      simp only [execMap, hm] at hfits ⊢
      obtain ⟨hok, hagrees⟩ := h.merge_some hm (hfits key _ (Function.update_self _ _ _)) hq
      exact ⟨by simp [exec, hok], hagrees⟩
  | delete key =>
    obtain ⟨hcode, hagrees⟩ := h.delete key
    exact ⟨by simp [exec, execMap, hcode], hagrees⟩
  | get key =>
    obtain ⟨hval, hagrees⟩ := h.get hq
    exact ⟨congrArg Answer.value hval, hagrees⟩
  | getBuffer key =>
    obtain ⟨hval, hagrees⟩ := h.get hq
    exact ⟨congrArg Answer.value hval, hagrees⟩
  | flush =>
    obtain ⟨hok, hagrees⟩ := h.flushShards (Nat.zero_add _).le hq
    exact ⟨congrArg Answer.code hok, hagrees⟩
  | checkpoint => exact ⟨rfl, h.checkpoint hq⟩

theorem withIo_holds {dirty : Nat → Prop} (h : Holds m dirty f.store) (io : Io) :
    Holds m dirty (f.withIo io).store := h.of_controller ⟨rfl, rfl, rfl, rfl⟩ rfl

theorem Agrees.withIo (h : Agrees opt m f) (io : Io) : Agrees opt m (f.withIo io) :=
  ⟨withIo_holds h.holds io, h.caches, h.fits⟩

theorem initial_agrees (opt : Options) : Agrees opt (fun _ => none) (initial opt) := by
  refine ⟨⟨initial_owned opt, fun k => rfl, nofun⟩, fun i _ =>
    ⟨?_, List.nodup_nil, fun k => ?_⟩, nofun⟩
  · exact fun e he => absurd he List.not_mem_nil
  · simp [initial, LRUCache.empty, LRUCache.find]

variable (opt)

/-- A run of calls is answered as a map answers it, whatever is cached. -/
theorem answers_as_map (es : List Event)
    (h : Along (both (serve opt) serveMap) (fun p e => Smooth opt p e ∧ Small p e)
      (initial opt, fun _ => none) es) :
    answers (serve opt) (initial opt) es = answers serveMap (fun _ => none) es := by
  refine answers_eq (R := fun f m => Agrees opt m f) (fun f m e hok hagrees => ?_) h
    (initial_agrees opt)
  obtain ⟨⟨hquiet, hlimit, -⟩, hsmall⟩ := hok
  exact exec_agrees (hagrees.withIo e.io) e.call hquiet
    fun k v hv => ⟨hlimit k v hv, hsmall k v hv⟩

theorem length_update {K : Type} [DecidableEq K] {m : K → Option Bytes} {n : Nat}
    (hm : ∀ k v, m k = some v → v.length ≤ n) (key : K) (value : Bytes)
    (hv : value.length ≤ n) :
    ∀ k v, Function.update m key (some value) k = some v → v.length ≤ n := by
  intro k v hkv
  by_cases hk : k = key
  · subst hk
    rw [Function.update_self] at hkv
    exact Option.some.inj hkv ▸ hv
  · rw [Function.update_of_ne hk] at hkv
    exact hm k v hkv

def twoBytes : Options := { tenBlocks with cacheShards := 1, cacheCapacity := 2 }

theorem answers_as_map_evicting :
    answers (serve twoBytes) (initial twoBytes)
      [⟨.put 0 [1], .reliable⟩, ⟨.put 1 [2, 3], .reliable⟩, ⟨.get 0, .reliable⟩] =
      [.code true, .code true, .value (some [1])] := by
  have hone := length_update (m := fun _ => none) (n := 2) nofun 0 [1] (by decide)
  have htwo := length_update hone 1 [2, 3] (by decide)
  have hlimit : ∀ v : Bytes, v.length ≤ 2 → pages v.length < twoBytes.blockLimit := by
    intro v hv
    rw [pages_eq]
    change _ < 4
    omega
  have hsmall : ∀ v : Bytes, v.length ≤ 2 → v.length < 2 ^ 31 := fun v hv => by omega
  refine (answers_as_map twoBytes _ ?_).trans (by decide)
  exact ⟨⟨⟨by decide, fun k v hv => hlimit v (hone k v hv), nofun⟩,
      fun k v hv => hsmall v (hone k v hv)⟩,
    ⟨⟨by decide, fun k v hv => hlimit v (htwo k v hv), nofun⟩,
      fun k v hv => hsmall v (htwo k v hv)⟩,
    ⟨⟨by decide, fun k v hv => hlimit v (htwo k v hv), nofun⟩,
      fun k v hv => hsmall v (htwo k v hv)⟩, trivial⟩

variable {opt}

theorem put_enough (hs : opt.cacheShards = 0) (h : Agrees opt m f) (hnone : m key = none)
    (hfit : Fits opt value) (hw : WritesOk f.store.blockController)
    (he : f.store.blockController.io.expands = [])
    (hn : pages value.length ≤ f.store.blockController.blockAddresses.length) :
    (f.put opt key value).2.store.blockController.faults = f.store.blockController.faults ∧
      f.store.blockController.blockAddresses.length - pages value.length ≤
        (f.put opt key value).2.store.blockController.blockAddresses.length := by
  have hreach := h.holds.reach key
  have hbc : ((f.store.reach key).putBlocks opt key value).2.blockController =
      (allocate opt f.store.blockController (pages value.length) value).2 := by
    unfold putBlocks
    rw [hreach.at_none hnone]
    simp only [takeArray_blockController]
    rw [show (f.store.reach key).blockController = f.store.blockController from rfl]
    rcases allocate opt f.store.blockController (pages value.length)
      value with ⟨ids | ids | ids, bc⟩
    all_goals rfl
  unfold FileIO.put
  rw [if_neg (not_le.mpr hfit.1)]
  simp only [if_pos hs, hbc]
  exact allocate_enough opt value hreach.owned.owns hw he (Int.natCast_nonneg _) hn

theorem merge_enough {old : Bytes} (hs : opt.cacheShards = 0) (h : Agrees opt m f)
    (hold : m key = some old) (hpage : old.length % PageSize = 0)
    (hfit : pages (old ++ value).length < opt.blockLimit)
    (hw : WritesOk f.store.blockController) (he : f.store.blockController.io.expands = [])
    (hn : pages (old ++ value).length ≤ f.store.blockController.blockAddresses.length)
    (checksum : Bytes → Bool) :
    (f.merge opt key value checksum).2.store.blockController.faults =
        f.store.blockController.faults ∧
      Holds (Function.update m key (some (old ++ value))) (fun k => (f.cached opt k).isSome)
        (f.merge opt key value checksum).2.store := by
  obtain ⟨slots, hat⟩ := h.holds.at_some hold
  have hclean : ¬ (f.cached opt key).isSome := by
    rw [cached_none hs]
    exact Bool.false_ne_true
  have hsize : (old.length : Int).toNat + value.length = (old ++ value).length := by
    rw [List.length_append, Int.toNat_natCast]
  have hbc : (f.store.mergeBlocks opt key value (old ++ value).length).2.blockController =
      (allocate opt f.store.blockController
        (pages (old ++ value).length - (old.length / PageSize : Nat)) value).2 := by
    unfold mergeBlocks
    rw [hat]
    simp only [Int.toNat_natCast, hpage, ne_eq, not_true, if_false]
    rcases allocate opt f.store.blockController
      (pages (old ++ value).length - (old.length / PageSize : Nat)) value with ⟨ids | ids | ids, bc⟩
    all_goals rfl
  have hquiet : (f.store.mergeBlocks opt key value (old ++ value).length).2.blockController.faults =
      f.store.blockController.faults := by
    rw [hbc]
    have hle : ∀ p q : Nat, ((p : Int) - q).toNat ≤ p := fun p q => by omega
    refine (allocate_enough opt value h.holds.owned.owns hw he ?_ ((hle _ _).trans hn)).1
    rw [List.length_append, pages_eq, PageSize]
    omega
  unfold FileIO.merge
  rw [if_neg (not_le.mpr (at?_lt_length hat)), hat]
  simp only [if_neg (not_lt.mpr (Int.natCast_nonneg old.length)), hsize]
  rw [if_neg (not_le.mpr hfit), if_pos hs]
  have hreqs := opt.blockLimit_le_reqs
  exact ⟨hquiet, (h.holds.mergeBlocks opt hclean hold (by omega) rfl hquiet).2⟩

theorem get_fails_at_2GiB (opt : Options) (hm : m key = some value) (hlen : value.length = 2 ^ 31)
    {dirty : Nat → Prop} (h : Holds m dirty f.store) :
    f.get opt key = (.error .postingSizeError, f) := by
  obtain ⟨slots, hat⟩ := h.at_some hm
  have hloc : f.store.locate key = .error .postingSizeError := by
    unfold locate
    rw [if_neg (not_le.mpr (at?_lt_length hat)), hat, hlen]
    rfl
  unfold FileIO.get
  rw [hloc]

def doubled (value : Bytes) : List Event :=
  [⟨.put 0 value, .reliable⟩, ⟨.merge 0 value fun _ => true, .reliable⟩, ⟨.get 0, .reliable⟩]

theorem doubled_differs (hs : opt.cacheShards = 0) (hlimit : 2 ^ 19 < opt.blockLimit)
    (h : Agrees opt (fun _ => none) f)
    (hn : 2 ^ 20 ≤ f.store.blockController.blockAddresses.length) (hv : value.length = 2 ^ 30) :
    Along (both (serve opt) serveMap) (Smooth opt) (f, fun _ => none) (doubled value) ∧
      answers (serve opt) f (doubled value) ≠ answers serveMap (fun _ => none) (doubled value) := by
  have hvv : (value ++ value).length = 2 ^ 31 := by
    rw [List.length_append, hv]
    rfl
  have hpages : pages value.length = 2 ^ 18 := by rw [hv]; rfl
  have hpages' : pages (value ++ value).length = 2 ^ 19 := by rw [hvv]; rfl
  have hlimit' : ∀ v : Bytes, v.length ≤ 2 ^ 31 → pages v.length < opt.blockLimit := by
    intro v hle
    rw [pages_eq]
    omega
  have hfit : Fits opt value := ⟨hlimit' value (by omega), by omega⟩
  have hok : ∀ {f : FileIO}, WritesOk (f.withIo .reliable).store.blockController :=
    fun o ho => absurd ho List.not_mem_nil
  obtain ⟨hq1, hlen1⟩ := put_enough hs (h.withIo .reliable)
    (rfl : (fun _ => none) 0 = none) hfit hok
    rfl (by rw [hpages]; exact le_trans (by decide) hn)
  obtain ⟨-, h1⟩ := (h.withIo .reliable).put hfit hq1
  have hfree : pages (value ++ value).length ≤ (((f.withIo .reliable).put opt 0 value).2.withIo
      .reliable).store.blockController.blockAddresses.length := by
    rw [hpages']
    rw [hpages] at hlen1
    exact le_trans (by omega) (le_trans (Nat.sub_le_sub_right hn _) hlen1)
  obtain ⟨hq2, hheld⟩ := merge_enough hs (h1.withIo .reliable) (Function.update_self _ _ _)
    (by rw [hv]; rfl) (hlimit' _ hvv.le) hok rfl hfree fun _ => true
  rw [Function.update_idem] at hheld
  have hget := get_fails_at_2GiB opt (Function.update_self _ _ _) hvv (withIo_holds hheld .reliable)
  have hone := length_update (m := fun _ => none) (n := 2 ^ 31) nofun 0 value (by omega)
  have htwo := length_update (m := fun _ => none) (n := 2 ^ 31) nofun 0 (value ++ value) hvv.le
  have hmap : (serveMap (Function.update (fun _ => none) 0 (some value))
      ⟨.merge 0 value fun _ => true, .reliable⟩) =
      (.code true, Function.update (fun _ => none) 0 (some (value ++ value))) := by
    simp only [serveMap, execMap, Function.update_self, Function.update_idem]
  refine ⟨⟨⟨hq1, fun k v hkv => hlimit' v (hone k v hkv), nofun⟩,
    ⟨hq2, fun k v hkv => ?_, ?_⟩, ⟨?_, fun k v hkv => ?_, nofun⟩, trivial⟩, fun heq => ?_⟩
  · exact hlimit' v (htwo k v ((congrArg (fun r => r.2 k) hmap).symm.trans hkv))
  · rintro _ _ _ _ ⟨⟩ -
    rfl
  · exact congrArg (fun r => r.2.store.blockController.faults) hget
  · exact hlimit' v (htwo k v ((congrArg (fun r => r.2 k) hmap).symm.trans hkv))
  · have hleft := congrArg (fun r => Answer.value r.1.toOption) hget
    have hright := congrArg (fun r => Answer.value (r.2 0)) hmap
    have hlast := (List.cons.inj (List.cons.inj (List.cons.inj heq).2).2).1
    have hnone := Answer.value.inj ((hleft.symm.trans hlast).trans hright)
    simp only [Function.update_self] at hnone
    cases hnone

def twoGiB : Options where
  blockLimit := 2 ^ 19 + 1
  growthBlocks := 0
  maxBlocks := 2 ^ 20
  startNumBlocks := 2 ^ 20
  datasetCapacity := 2 ^ 20
  datasetCapacity_lt := Nat.le_of_ble_eq_true rfl
  belowThreshold := fun _ _ => false
  disableCheckpoint := false
  reqs := 2 ^ 19
  blockLimit_le_reqs := le_refl _
  cacheShards := 0
  cacheCapacity := 0
  iterate := List.reverse
  iterate_perm := List.reverse_perm

theorem answers_not_as_map :
    ∃ es, Along (both (serve twoGiB) serveMap) (Smooth twoGiB) (initial twoGiB, fun _ => none) es ∧
      answers (serve twoGiB) (initial twoGiB) es ≠ answers serveMap (fun _ => none) es := by
  refine ⟨doubled (List.replicate (2 ^ 30) 0), doubled_differs rfl (Nat.lt_succ_self _)
    (initial_agrees twoGiB) ?_ List.length_replicate⟩
  simp [initial, newBlocks, twoGiB]

end FileIO

end Sptag.SPANN
