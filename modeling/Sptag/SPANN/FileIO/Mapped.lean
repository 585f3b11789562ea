import Sptag.SPANN.FileIO.Refine

/-! What the arrays and the cache of `FileIO` keep in every run, whatever fails: a size of -1 or
a slot for each page, and an array for each key that is cached. -/

namespace Sptag.SPANN

open Sptag.Lib
open BlockController

def Addresses.Shaped (a : Addresses) : Prop := -1 ≤ a.size ∧ pages a.size.toNat ≤ a.slots.length

theorem Addresses.blank_shaped : blank.Shaped := ⟨by decide, by decide⟩

namespace BlockController

variable (opt : Options) {bc : BlockController}

theorem popBlocks_length (n : Nat) (h : (popBlocks n bc).1.1 = true) :
    (popBlocks n bc).1.2.length = n := by
  induction n generalizing bc with
  | zero => rfl
  | succ n ih =>
    rw [popBlocks] at h ⊢
    split
    next hq =>
      rw [hq] at h
      cases h
    next hq =>
      rw [hq] at h
      exact congrArg (· + 1) (ih h)

theorem getBlocks_length {p_size : Int} (h : (bc.getBlocks opt p_size).1.1 = true) :
    (bc.getBlocks opt p_size).1.2.length = p_size.toNat := by
  rw [getBlocks, takeBlocks] at h ⊢
  split at h
  next hexpanded =>
    rw [if_pos hexpanded]
    simp only at h ⊢
    split at h
    next hok =>
      rw [if_pos hok]
      exact popBlocks_length _ hok
    next hok => exact absurd h hok
  next => cases h

end BlockController

namespace Store

variable (opt : Options) {st st' : Store} {key : Nat} {a : Addresses}

theorem allocate_length {bc bc' : BlockController} {p_size : Int} {value : Bytes} {ids : List Int}
    (h : allocate opt bc p_size value = (.done ids, bc')) : ids.length = p_size.toNat := by
  rw [allocate] at h
  simp only at h
  split at h
  next hgot =>
    split at h
    · cases h
      exact getBlocks_length opt hgot
    · cases h
  next => cases h

def Shaped (st : Store) : Prop := ∀ k a, st.at? k = some a → a.Shaped

/-- The mapping does not shrink, the keys with an array keep one, and all arrays keep their
shape. -/
structure Maps (st st' : Store) : Prop where
  length : st.blockMapping.length ≤ st'.blockMapping.length
  mapped : ∀ k, (st.at? k).isSome → (st'.at? k).isSome
  shaped : st.Shaped → st'.Shaped

theorem Maps.refl (st : Store) : Maps st st := ⟨Nat.le_refl _, fun _ h => h, id⟩

theorem Maps.trans {a b c : Store} (h : Maps a b) (h' : Maps b c) : Maps a c :=
  ⟨h.length.trans h'.length, fun k hk => h'.mapped k (h.mapped k hk),
    fun hs => h'.shaped (h.shaped hs)⟩

theorem at?_congr (h : st'.blockMapping = st.blockMapping) (k : Nat) : st'.at? k = st.at? k := by
  rw [at?, h, at?]

theorem Maps.of_eq (h : st'.blockMapping = st.blockMapping) : Maps st st' :=
  ⟨(congrArg List.length h).ge, fun k hk => (at?_congr h k).symm ▸ hk,
    fun hs k a ha => hs k a (at?_congr h k ▸ ha)⟩

theorem Maps.of_set (key : Nat) (hmapping : st'.blockMapping = st.blockMapping.set key (some a))
    (ha : st.Shaped → a.Shaped) : Maps st st' := by
  cases Nat.lt_or_ge key st.blockMapping.length with
  | inl hkey =>
    have hset : st'.blockMapping = (st.setAt key (some a)).blockMapping := hmapping
    have hat : ∀ k, st'.at? k = if k = key then some a else st.at? k := fun k =>
      (at?_congr hset k).trans (at?_setAt hkey _ k)
    have hlength : st.blockMapping.length ≤ st'.blockMapping.length := by
      rw [hmapping, List.length_set]
    refine ⟨hlength, fun k hk => ?_, fun hs k a' ha' => ?_⟩
    · rw [hat]
      split
      · rfl
      · exact hk
    · rw [hat] at ha'
      split at ha'
      · cases ha'
        exact ha hs
      · exact hs k a' ha'
  | inr hkey => exact .of_eq (hmapping.trans (List.set_eq_of_length_le hkey))

theorem takeArray_maps (st : Store) : Maps st st.takeArray := by
  rw [takeArray]
  split
  · exact .of_eq rfl
  · exact .refl st

theorem maps_reach (key : Nat) : Maps st (st.reach key) :=
  ⟨length_le_reach key, fun k hk => (at?_reach key k).symm ▸ hk,
    fun hs k a ha => hs k a (at?_reach key k ▸ ha)⟩

theorem shaped_of_length {n : Nat} {ids : List Int} (h : ids.length = pages n) :
    Addresses.Shaped ⟨n, ids⟩ := by
  refine ⟨?_, h.ge⟩
  change (-1 : Int) ≤ n
  omega

theorem shaped_of_neg (hs : a.Shaped) (hneg : a.size < 0) (slots : List Int) :
    Addresses.Shaped { a with slots := slots } := by
  refine ⟨hs.1, ?_⟩
  change pages a.size.toNat ≤ _
  rw [Int.toNat_of_nonpos (Int.le_of_lt hneg)]
  exact Nat.zero_le _

theorem putBlocks_maps (key : Nat) (value : Bytes) : Maps st (st.putBlocks opt key value).2 := by
  rw [putBlocks]
  simp only
  split
  next hat =>
    split
    next ids bc hallocate =>
      exact (takeArray_maps st).trans (.of_set key rfl
        fun _ => shaped_of_length (allocate_length opt hallocate))
    next => exact (takeArray_maps st).trans (.of_eq rfl)
    next => exact (takeArray_maps st).trans (.of_eq rfl)
  next a hat =>
    split
    next hneg =>
      split
      next ids bc hallocate =>
        exact .of_set key rfl fun _ => shaped_of_length (allocate_length opt hallocate)
      next ids bc hallocate =>
        exact .of_set key rfl fun hs => shaped_of_neg (hs key a hat) hneg _
      next =>
        exact .of_set key rfl fun _ => shaped_of_length List.length_replicate
    next =>
      split
      next ids bc hallocate =>
        exact .of_set key rfl fun _ => shaped_of_length (allocate_length opt hallocate)
      next => exact .of_eq rfl
      next => exact .of_eq rfl

theorem put_maps (key : Nat) (value : Bytes) : Maps st (st.put opt key value).2 := by
  rw [put]
  split
  · exact .refl st
  · exact (maps_reach key).trans (putBlocks_maps opt key value)

theorem write_shaped {n : Nat} {ids : List Int} {size : Int} (hsize : -1 ≤ size)
    (hn : n ≤ a.slots.length) (h : pages size.toNat ≤ n + ids.length) :
    Addresses.Shaped { a.write n ids with size := size } := by
  refine ⟨hsize, ?_⟩
  change pages size.toNat ≤ (a.slots.take n ++ ids).length
  rwa [List.length_append, List.length_take, Nat.min_eq_left hn]

theorem resize_maps (key : Nat) (ha : st.Shaped → a.Shaped) (value : Bytes) :
    Maps st (st.resize opt key a value).2 := by
  have hsize : (-1 : Int) ≤ value.length := by omega
  have hold : a.Shaped → (if a.size < 0 then 0 else pages a.size.toNat) ≤ a.slots.length := by
    intro hs
    split
    · exact Nat.zero_le _
    · exact hs.2
  have hpages : pages a.size.toNat ≤ if a.size < 0 then 0 else pages a.size.toNat := by
    split
    next hneg =>
      rw [Int.toNat_of_nonpos (Int.le_of_lt hneg)]
      exact Nat.le_refl 0
    next => exact Nat.le_refl _
  rw [resize]
  generalize (if a.size < 0 then 0 else pages a.size.toNat) = oldblocks at hold hpages
  simp only
  split
  next hlt =>
    split
    next hgot =>
      refine .of_set key rfl fun hs => write_shaped hsize (hold (ha hs)) ?_
      rw [getBlocks_length opt hgot]
      change pages value.length ≤ _
      omega
    next =>
      exact .of_set key rfl fun hs => write_shaped (ha hs).1 (hold (ha hs))
        (hpages.trans (Nat.le_add_right _ _))
  next hle =>
    refine .of_set key rfl fun hs => ?_
    exact ⟨hsize, (Nat.le_of_not_lt hle).trans (hold (ha hs))⟩

theorem putCached_maps (key : Nat) (value : Bytes) : Maps st (st.putCached opt key value).2 := by
  rw [putCached]
  split
  next a hat => exact resize_maps opt key (fun hs => hs key a hat) value
  next hat =>
    have hblank : Maps st.takeArray (st.takeArray.setAt key (some .blank)) :=
      .of_set key rfl fun _ => Addresses.blank_shaped
    exact (takeArray_maps st).trans
      (hblank.trans (resize_maps opt key (fun _ => Addresses.blank_shaped) value))

theorem putCached_mapped {key : Nat} (hkey : key < st.blockMapping.length) (value : Bytes) :
    ((st.putCached opt key value).2.at? key).isSome := by
  rw [putCached]
  split
  next a hat =>
    refine (resize_maps opt key (fun hs => hs key a hat) value).mapped key ?_
    rw [hat]
    rfl
  next hat =>
    have hlength : key < st.takeArray.blockMapping.length :=
      hkey.trans_le (takeArray_maps st).length
    refine (resize_maps opt key (fun _ => Addresses.blank_shaped) value).mapped key ?_
    rw [at?_setAt hlength, if_pos rfl]
    rfl

theorem mergeBlocks_maps (key : Nat) (value : Bytes) (newSize : Nat) :
    Maps st (st.mergeBlocks opt key value newSize).2 := by
  rw [mergeBlocks]
  split
  next => exact .refl st
  next a hat =>
    have hold : a.Shaped → a.size.toNat / PageSize ≤ a.slots.length := by
      intro hs
      refine le_trans ?_ hs.2
      rw [pages_eq, PageSize]
      omega
    have hsize : (-1 : Int) ≤ newSize := by omega
    have hfit : ∀ ids : List Int,
        ids.length = ((pages newSize : Int) - (a.size.toNat / PageSize : Nat)).toNat →
        pages newSize ≤ a.size.toNat / PageSize + ids.length := by
      intro ids hids
      omega
    simp only
    split
    next =>
      split
      next => exact .of_eq rfl
      next newValue bc _ =>
        split
        next ids bc hallocate =>
          exact .of_set key rfl fun hs => write_shaped hsize (hold (hs key a hat))
            (hfit ids (allocate_length opt hallocate))
        next => exact .of_eq rfl
        next => exact .of_eq rfl
    next haligned =>
      have hpages : pages a.size.toNat ≤ a.size.toNat / PageSize := by
        rw [pages_eq]
        rw [PageSize] at haligned ⊢
        omega
      split
      next ids bc hallocate =>
        exact .of_set key rfl fun hs => write_shaped hsize (hold (hs key a hat))
          (hfit ids (allocate_length opt hallocate))
      next ids bc hallocate =>
        exact .of_set key rfl fun hs => write_shaped (hs key a hat).1 (hold (hs key a hat))
          (hpages.trans (Nat.le_add_right _ _))
      next ids bc hallocate =>
        exact .of_set key rfl fun hs => write_shaped (hs key a hat).1 (hold (hs key a hat))
          (hpages.trans (Nat.le_add_right _ _))

theorem mergeCached_maps (key : Nat) (newSize : Nat) :
    Maps st (st.mergeCached opt key newSize).2 := by
  have hsize : (-1 : Int) ≤ newSize := by omega
  rw [mergeCached]
  split
  next => exact .refl st
  next a hat =>
    simp only
    split
    next hlt =>
      split
      next hgot =>
        refine .of_set key rfl fun hs => write_shaped hsize (hs key a hat).2 ?_
        rw [getBlocks_length opt hgot]
        change pages newSize ≤ _
        omega
      next =>
        exact .of_set key rfl fun hs => write_shaped (hs key a hat).1 (hs key a hat).2
          (Nat.le_add_right _ _)
    next hle =>
      refine .of_set key rfl fun hs => ?_
      exact ⟨hsize, (Nat.le_of_not_lt hle).trans (hs key a hat).2⟩

theorem read_maps (st : Store) (a : Addresses) : Maps st (st.read opt a).2 := by
  rw [read]
  split <;> exact .of_eq rfl

theorem get_maps (st : Store) (key : Nat) : Maps st (st.get opt key).2 := by
  rw [get]
  split
  · exact .refl st
  · exact read_maps opt st _

theorem deleteBlocks_at? (st : Store) (key k : Nat) :
    (st.deleteBlocks opt key).2.at? k = st.at? k ∨
      k = key ∧ (st.deleteBlocks opt key).2.at? k = none := by
  rw [deleteBlocks]
  split
  next => exact .inl rfl
  next a hat =>
    split
    · exact .inl rfl
    · have hset := at?_setAt (at?_lt_length hat) none k
      cases decEq k key with
      | isTrue hk => exact .inr ⟨hk, hset.trans (if_pos hk)⟩
      | isFalse hk => exact .inl (hset.trans (if_neg hk))

end Store

namespace LRUCache

open Store

variable (opt : Options) {lru : LRUCache} {P : Nat → Prop} {key : Nat}

def Only (P : Nat → Prop) (lru : LRUCache) : Prop := ∀ e ∈ lru.cache, P e.1

theorem Only.remove (h : lru.Only P) (key : Nat) (value : Bytes) : (lru.remove key value).Only P :=
  fun e he => h e (List.mem_of_mem_filter he)

theorem Only.insert (h : lru.Only P) (hkey : P key) (value : Bytes) :
    (lru.insert key value).Only P := List.forall_mem_cons.mpr ⟨hkey, h⟩

theorem Only.update (h : lru.Only P) (key : Nat) (value : Bytes) (delta : Int) :
    (lru.update key value delta).Only P := by
  intro e he
  have ⟨e', he', heq⟩ := List.mem_map.mp he
  rw [← heq]
  split
  next hkey => exact hkey ▸ h e' he'
  next => exact h e' he'

structure Follows (P : Nat → Prop) (st : Store) (r : LRUCache × Store) : Prop where
  only : r.1.Only P
  maps : Maps st r.2

theorem Follows.trans {st : Store} {r r' : LRUCache × Store} (h : Follows P st r)
    (h' : Follows P r.2 r') : Follows P st r' := ⟨h'.only, h.maps.trans h'.maps⟩

theorem evict_follows (h : lru.Only P) (st : Store) (key : Nat) :
    Follows P st (lru.evict opt st key).2 := by
  rw [evict]
  split
  next => exact ⟨h, .refl st⟩
  next value hfind =>
    simp only
    split
    · exact ⟨h.remove key value, put_maps opt key value⟩
    · exact ⟨h, put_maps opt key value⟩

theorem evictWhile_follows (full : Int → Bool) (least fuel : Nat) (h : lru.Only P) (st : Store) :
    Follows P st (evictWhile opt full least fuel lru st).2 := by
  induction fuel generalizing lru st with
  | zero => exact ⟨h, .refl st⟩
  | succ fuel ih =>
    rw [evictWhile]
    split
    · split
      next => exact ⟨h, .refl st⟩
      next last _ =>
        have he := evict_follows opt h st last
        simp only
        split
        · exact he.trans (ih he.only _)
        · exact he
    · exact ⟨h, .refl st⟩

theorem makeRoom_follows (full : Int → Bool) (h : lru.Only P) (st : Store) (key : Nat) :
    Follows P st (lru.makeRoom opt st key full).2 := by
  have he := evictWhile_follows opt full 1 lru.keys.length h st
  rw [makeRoom]
  split
  · exact he
  · exact he.trans (evict_follows opt he.only _ key)

theorem put_follows (h : lru.Only P) (st : Store) (value : Bytes)
    (hkey : (lru.put opt st key value).1 = true → P key) :
    Follows P st (lru.put opt st key value).2 := by
  rw [put] at hkey ⊢
  split
  next old hfind =>
    split
    · exact evict_follows opt h st key
    · have htouch : (lru.touch key).Only P := h
      have hr := fun full => makeRoom_follows opt full htouch st key
      simp only
      split
      · exact ⟨(hr _).only.update _ _ _, (hr _).maps⟩
      · exact hr _
  next hfind =>
    rw [hfind] at hkey
    simp only at hkey
    split
    · exact ⟨h, .refl st⟩
    next hlimit =>
      have hr := fun full => evictWhile_follows opt full 0 lru.keys.length h st
      rw [if_neg hlimit] at hkey
      simp only
      split
      next hroom =>
        rw [if_pos hroom] at hkey
        exact ⟨(hr _).only.insert (hkey rfl) value, (hr _).maps⟩
      · exact hr _

theorem merge_follows (h : lru.Only P) (st : Store) (hkey : P key) (value : Bytes)
    (checksum : Bytes → Bool) : Follows P st (lru.merge opt st key value checksum).2 := by
  rw [merge]
  split
  next =>
    have hget := get_maps opt st key
    simp only
    split
    next => exact ⟨h, hget⟩
    next =>
      split
      · have hr := fun full => evictWhile_follows opt full 0 lru.keys.length h (st.get opt key).2
        split
        · exact ⟨(hr _).only.insert hkey _, hget.trans (hr _).maps⟩
        · exact ⟨(hr _).only, hget.trans (hr _).maps⟩
      · exact ⟨h, hget⟩
  next old hfind =>
    split
    · exact evict_follows opt h st key
    · have htouch : (lru.touch key).Only P := h
      have hr := fun full => makeRoom_follows opt full htouch st key
      simp only
      split
      · exact ⟨(hr _).only.update _ _ _, (hr _).maps⟩
      · exact hr _

theorem flushEntries_maps (es : List (Nat × Bytes)) (st : Store) :
    Maps st (flushEntries opt es st).2 := by
  induction es generalizing st with
  | nil => exact .refl st
  | cons e es ih =>
    rw [flushEntries]
    split
    · exact (put_maps opt e.1 e.2).trans (ih _)
    · exact put_maps opt e.1 e.2

theorem flush_follows (h : lru.Only P) (st : Store) : Follows P st (lru.flush opt st).2 := by
  rw [flush]
  split
  · exact ⟨fun e he => absurd he List.not_mem_nil, flushEntries_maps opt _ st⟩
  · exact ⟨h, flushEntries_maps opt _ st⟩

end LRUCache

namespace FileIO

open Store LRUCache

variable (opt : Options) {f : FileIO} {key : Nat}

def Mapped (f : FileIO) (i k : Nat) : Prop := hash opt k = i ∧ (f.store.at? k).isSome

structure Sheltered (f : FileIO) : Prop where
  shaped : f.store.Shaped
  only : opt.cacheShards ≠ 0 → ∀ i, (f.caches i).Only (Mapped opt f i)

variable {opt}

theorem Sheltered.maps (h : Sheltered opt f) {st : Store} (hmaps : Maps f.store st) :
    Sheltered opt { f with store := st } :=
  ⟨hmaps.shaped h.shaped, fun hs i e he =>
    ⟨(h.only hs i e he).1, hmaps.mapped e.1 (h.only hs i e he).2⟩⟩

theorem Sheltered.shard (h : Sheltered opt f) {st : Store} (hmaps : Maps f.store st) {i : Nat}
    {lru : LRUCache}
    (hlru : opt.cacheShards ≠ 0 → lru.Only fun k => hash opt k = i ∧ (st.at? k).isSome) :
    Sheltered opt ⟨st, Function.update f.caches i lru⟩ := by
  refine ⟨hmaps.shaped h.shaped, fun hs j => ?_⟩
  change (Function.update f.caches i lru j).Only _
  cases decEq j i with
  | isTrue hj =>
    rw [hj, Function.update_self]
    exact hlru hs
  | isFalse hj =>
    rw [Function.update_of_ne hj]
    exact (h.maps hmaps).only hs j

theorem Sheltered.put (h : Sheltered opt f) (key : Nat) (value : Bytes) :
    Sheltered opt (f.put opt key value).2 := by
  unfold FileIO.put
  split
  next => exact h
  next =>
    have hreach : Maps f.store (f.store.reach key) := maps_reach key
    split
    next => exact h.maps (hreach.trans (putBlocks_maps opt key value))
    next hs =>
      simp only
      -- the key may be without an array until the cache has taken it
      have hold : (f.caches (hash opt key)).Only fun k => hash opt k = hash opt key ∧
          (((f.store.reach key).at? k).isSome ∨
            ((f.caches (hash opt key)).put opt (f.store.reach key) key value).1 = true ∧
              k = key) := fun e he =>
        have hmapped := h.only hs _ e he
        ⟨hmapped.1, .inl (hreach.mapped e.1 hmapped.2)⟩
      have hf := put_follows opt hold (f.store.reach key) value
        fun htaken => ⟨rfl, .inr ⟨htaken, rfl⟩⟩
      have hkey := Nat.lt_of_lt_of_le (lt_length_reach key) hf.maps.length
      split
      next htaken =>
        have hmaps := hf.maps.trans (putCached_maps opt key value)
        refine h.shard (hreach.trans hmaps) fun _ e he => ?_
        obtain ⟨hhash, hmapped | ⟨-, hek⟩⟩ := hf.only e he
        · exact ⟨hhash, hmaps.mapped e.1 hmapped⟩
        · exact ⟨hhash, hek ▸ putCached_mapped opt hkey value⟩
      next hrefused =>
        have hmaps := hf.maps.trans (putBlocks_maps opt key value)
        refine h.shard (hreach.trans hmaps) fun _ e he => ?_
        obtain ⟨hhash, hmapped | ⟨htaken, -⟩⟩ := hf.only e he
        · exact ⟨hhash, hmaps.mapped e.1 hmapped⟩
        · exact absurd htaken hrefused

theorem Sheltered.merge (h : Sheltered opt f) (key : Nat) (value : Bytes)
    (checksum : Bytes → Bool) : Sheltered opt (f.merge opt key value checksum).2 := by
  unfold FileIO.merge
  split
  next => exact h
  next =>
    split
    next => exact h
    next a hat =>
      split
      next => exact h
      next =>
        simp only
        split
        next => exact h
        next =>
          split
          next => exact h.maps (mergeBlocks_maps opt key value _)
          next hs =>
            have hf := merge_follows opt (h.only hs (hash opt key)) f.store
              ⟨rfl, hat ▸ rfl⟩ value checksum
            have hshard {st : Store} (hmaps : Maps _ st) :=
              h.shard (hf.maps.trans hmaps) fun _ e he =>
                ⟨(hf.only e he).1, (hf.maps.trans hmaps).mapped e.1 (hf.only e he).2⟩
            split
            · exact hshard (mergeCached_maps opt key _)
            · exact hshard (mergeBlocks_maps opt key value _)

theorem Sheltered.delete (h : Sheltered opt f) (key : Nat) :
    Sheltered opt (f.delete opt key).2 := by
  unfold FileIO.delete
  split
  next => exact h
  next =>
    have hat := deleteBlocks_at? opt f.store key
    have hshaped : (f.store.deleteBlocks opt key).2.Shaped := by
      intro k a ha
      obtain hsame | ⟨-, hnone⟩ := hat k
      · exact h.shaped k a (hsame ▸ ha)
      · exact absurd (hnone.symm.trans ha) nofun
    split
    next hs => exact ⟨hshaped, fun hs' => absurd hs hs'⟩
    next hs =>
      refine ⟨hshaped, fun _ j e he => ?_⟩
      -- the entry of the key left its shard
      have hmem : e ∈ (f.caches j).cache ∧ e.1 ≠ key := by
        change e ∈ (Function.update f.caches (hash opt key) _ j).cache at he
        cases decEq j (hash opt key) with
        | isTrue hj =>
          rw [hj, Function.update_self, LRUCache.del] at he
          rw [hj]
          split at he
          next hfind => exact ⟨he, key_ne_of_find_none hfind e he⟩
          next =>
            obtain ⟨hmem, hne⟩ := List.mem_filter.mp he
            exact ⟨hmem, of_decide_eq_true hne⟩
        | isFalse hj =>
          rw [Function.update_of_ne hj] at he
          exact ⟨he, fun hek => hj ((h.only hs j e he).1.symm.trans (congrArg _ hek))⟩
      obtain ⟨hhash, hmapped⟩ := h.only hs j e hmem.1
      obtain hsame | ⟨hek, -⟩ := hat e.1
      · exact ⟨hhash, hsame ▸ hmapped⟩
      · exact absurd hek hmem.2

theorem Sheltered.get (h : Sheltered opt f) (key : Nat) : Sheltered opt (f.get opt key).2 := by
  unfold FileIO.get
  split
  next => exact h
  next =>
    split
    next => exact h
    next => exact h.maps (read_maps opt _ _)

theorem Sheltered.flushShards (h : Sheltered opt f) (n shard : Nat) :
    Sheltered opt (flushShards opt n shard f).2 := by
  induction n generalizing shard f with
  | zero => exact h
  | succ n ih =>
    have hany : (f.caches shard).Only fun _ => True := fun _ _ => trivial
    have hmaps := (flush_follows opt hany f.store).maps
    have hshard := h.shard hmaps fun hs e he =>
      have hf := (flush_follows opt (h.only hs shard) f.store).only e he
      ⟨hf.1, hmaps.mapped e.1 hf.2⟩
    unfold FileIO.flushShards
    simp only
    split
    · exact ih hshard _
    · exact hshard

theorem Sheltered.flush (h : Sheltered opt f) : Sheltered opt (f.flush opt).2 :=
  h.flushShards _ _

theorem Sheltered.exec (h : Sheltered opt f) (c : Call) : Sheltered opt (f.exec opt c).2 := by
  cases c with
  | put key value => exact h.put key value
  | merge key value checksum => exact h.merge key value checksum
  | delete key => exact h.delete key
  | get key => exact h.get key
  | getBuffer key => exact h.get key
  | flush => exact h.flush
  | checkpoint => exact h.flush.maps (.of_eq rfl)

theorem Sheltered.reopen (h : Sheltered opt f) : Sheltered opt (f.reopen opt) := by
  refine ⟨fun k a ha => ?_, fun _ _ e he => absurd he List.not_mem_nil⟩
  unfold FileIO.reopen at ha
  rw [at?_load] at ha
  obtain ⟨r, hr, rfl⟩ := List.mem_map.mp (List.mem_of_getElem? ha)
  cases r with
  | none => exact Addresses.blank_shaped
  | some a =>
    obtain ⟨k, hk⟩ := mem_blockMapping.mp hr
    exact h.shaped k a hk

theorem initial_sheltered : Sheltered opt (initial opt) :=
  ⟨fun _ _ ha => absurd ha nofun, fun _ _ _ he => absurd he List.not_mem_nil⟩

theorem Sheltered.withIo (h : Sheltered opt f) (io : Io) : Sheltered opt (f.withIo io) :=
  h.maps (.of_eq rfl)

theorem Reachable.sheltered {ok : FileIO → Event → Prop} (h : Reachable opt ok f) :
    Sheltered opt f := by
  induction h with
  | initial => exact initial_sheltered
  | step e _ _ ih => exact (ih.withIo e.io).exec e.call
  | reopen _ _ ih => exact ih.reopen

end FileIO

end Sptag.SPANN
