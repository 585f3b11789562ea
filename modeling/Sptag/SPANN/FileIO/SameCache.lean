import Sptag.SPANN.FileIO.Accounting
import Sptag.SPANN.FileIO.Refine

/-! The cache that keeps accounts is the one in front of the store: but for nodes and counters
their calls answer alike, and write alike. -/

namespace Sptag.SPANN.Lru

open Lib

def overStore (opt : Options) : File Store where
  put key value st := (decide ((st.put opt key value).1 = .success), (st.put opt key value).2)
  get key st := ((st.get opt key).1.toOption, (st.get opt key).2)
  iterate keys := keys
  iterate_perm keys := .refl keys

structure Stands (opt : Options) (lru : LRUCache) (c : SPANN.LRUCache) : Prop where
  linked : Linked lru.keys lru.cache
  fresh : ∀ n ∈ lru.keys, n.id < lru.nextId
  ints : Ints lru.cache
  keys : c.keys = lru.keys.map Node.key
  find : ∀ key, c.find key = (lru.cache key).map CacheEntry.value
  size : c.size = lru.size
  capacity : lru.capacity = SPANN.LRUCache.capacity opt
  limit : lru.limit = SPANN.LRUCache.limit opt

structure Alike (opt : Options) (r : Bool × LRUCache × Store)
    (r' : Bool × SPANN.LRUCache × Store) : Prop where
  answer : r'.1 = r.1
  stands : Stands opt r.2.1 r'.2.1
  store : r'.2.2 = r.2.2

variable {opt : Options} {lru : LRUCache} {c : SPANN.LRUCache} {key : Nat} {e : CacheEntry}

namespace Stands

theorem countPut (h : Stands opt lru c) : Stands opt lru.countPut c := { h with }

theorem countEvict (h : Stands opt lru c) : Stands opt lru.countEvict c := { h with }

theorem logEviction (h : Stands opt lru c) (key : Nat) (free needed : Int) :
    Stands opt (lru.logEviction key free needed) c := { h with }

theorem erase_keys (h : Stands opt lru c) (he : lru.cache key = some e) :
    c.keys.erase key = (lru.keys.filter (·.id ≠ e.iter)).map Node.key := by
  rw [h.keys, h.linked.distinct.erase_eq_filter, List.filter_map]
  refine congrArg _ (List.filter_congr fun n hn => ?_)
  rw [Function.comp_apply, Bool.eq_iff_iff, bne_iff_ne, decide_eq_true_eq, not_iff_not,
    h.linked.id_eq_iff he hn]
  constructor
  · intro hkey
    exact List.inj_on_of_nodup_map h.linked.distinct hn (h.linked.mem he) hkey
  · rintro rfl
    rfl

theorem erase (h : Stands opt lru c) (he : lru.cache key = some e) :
    Stands opt (lru.erase key e) (c.remove key e.value) where
  linked := h.linked.erase he
  fresh n hn := h.fresh n (List.mem_filter.mp hn).1
  ints := h.ints.update key fun _ he' => by cases he'
  keys := h.erase_keys he
  find k := by
    rw [LRUCache.find_remove, h.find]
    show _ = (Function.update lru.cache key none k).map _
    by_cases hk : k = key
    · rw [if_pos hk, hk, Function.update_self, Option.map_none]
    · rw [if_neg hk, Function.update_of_ne hk]
  size := by
    show c.size - _ = lru.size - _
    rw [h.size]
  capacity := h.capacity
  limit := h.limit

theorem touch (h : Stands opt lru c) (he : lru.cache key = some e) :
    Stands opt (lru.splice e.iter) (c.touch key) where
  linked := by
    have hperm := h.linked.splice_perm he
    rw [LRUCache.splice, h.linked.filter_eq he]
    exact h.linked.perm hperm
  fresh n hn := by
    rw [LRUCache.splice] at hn
    rcases List.mem_append.mp hn with hn | hn
    · exact h.fresh n (List.mem_filter.mp hn).1
    · exact h.fresh n (List.mem_filter.mp hn).1
  ints := h.ints
  keys := by
    show key :: c.keys.erase key = _
    rw [h.erase_keys he, LRUCache.splice, h.linked.filter_eq he]
    rfl
  find := h.find
  size := h.size
  capacity := h.capacity
  limit := h.limit

theorem insert (h : Stands opt lru c) (hnone : lru.cache key = none) {value : Bytes}
    (hint : value.length < 2 ^ 31) : Stands opt (lru.insert key value) (c.insert key value) where
  linked := h.linked.insert hnone (fun n hn => (h.fresh n hn).ne) value
  fresh n hn := by
    rcases List.mem_cons.mp hn with rfl | hn
    · exact Nat.lt_succ_self _
    · exact (h.fresh n hn).trans (Nat.lt_succ_self _)
  ints := h.ints.update key fun _ he => by
    cases he
    exact hint
  keys := congrArg _ h.keys
  find k := by
    rw [LRUCache.find_insert, h.find]
    show _ = (Function.update lru.cache key _ k).map _
    by_cases hk : k = key
    · rw [if_pos hk, hk, Function.update_self, Option.map_some]
    · rw [if_neg hk, Function.update_of_ne hk]
  size := congrArg (· + (value.length : Int)) h.size
  capacity := h.capacity
  limit := h.limit

theorem update (h : Stands opt lru c) (he : lru.cache key = some e) {value : Bytes}
    (hint : value.length < 2 ^ 31) (delta : Int) :
    Stands opt (lru.update key value e.iter delta) (c.update key value delta) where
  linked := h.linked.update he value
  fresh := h.fresh
  ints := h.ints.update key fun _ he => by
    cases he
    exact hint
  keys := h.keys
  find k := by
    rw [LRUCache.find_update, h.find]
    show _ = (Function.update lru.cache key _ k).map _
    by_cases hk : k = key
    · rw [if_pos hk, hk, Function.update_self, he, Option.map_some, Option.map_some,
        Option.map_some]
    · rw [if_neg hk, Function.update_of_ne hk]
  size := congrArg (· + delta) h.size
  capacity := h.capacity
  limit := h.limit

theorem evict (h : Stands opt lru c) (st : Store) (key : Nat) :
    Alike opt (lru.evict (overStore opt) st key) (c.evict opt st key) := by
  unfold LRUCache.evict SPANN.LRUCache.evict
  rw [h.find]
  cases he : lru.cache key with
  | none => exact ⟨rfl, h, rfl⟩
  | some e =>
    have htake : e.value.take (toInt e.value.length).toNat = e.value := by
      rw [toInt_of_lt (h.ints key e he), Int.toNat_natCast, List.take_length]
    rw [Option.map_some]
    dsimp only [overStore]
    rw [htake]
    by_cases hput : (st.put opt key e.value).1 = .success
    · rw [if_pos hput, if_pos (decide_eq_true hput)]
      exact ⟨rfl, h.countEvict.erase he, rfl⟩
    · rw [if_neg hput, if_neg fun hdone => hput (of_decide_eq_true hdone)]
      exact ⟨rfl, h.countEvict, rfl⟩

/-- Both loops evict the same keys while `full` says of a size what `short` says of the rest. -/
theorem evictWhile (h : Stands opt lru c) {full : Int → Bool} {short : Int → Bool}
    (hfull : ∀ size, full size = short (SPANN.LRUCache.capacity opt - size)) (needed : Int)
    (least fuel : Nat) (st : Store) :
    Alike opt (LRUCache.evictWhile (overStore opt) short needed least fuel lru st)
      (SPANN.LRUCache.evictWhile opt full least fuel c st) := by
  induction fuel generalizing lru c st with
  | zero => exact ⟨rfl, h, rfl⟩
  | succ fuel ih =>
    have htest : (full c.size = true ∧ least < c.keys.length) ↔
        (short lru.free = true ∧ least < lru.keys.length) := by
      rw [hfull, h.size, ← h.capacity, ← LRUCache.free, h.keys, List.length_map]
    unfold LRUCache.evictWhile SPANN.LRUCache.evictWhile
    by_cases hgo : short lru.free = true ∧ least < lru.keys.length
    · rw [if_pos hgo, if_pos (htest.mpr hgo), h.keys, List.getLast?_map]
      cases lru.keys.getLast? with
      | none => exact ⟨rfl, h, rfl⟩
      | some last =>
        have hevict := h.evict st last.key
        dsimp only [Option.map_some]
        rw [hevict.answer]
        cases (lru.evict (overStore opt) st last.key).1 with
        | true =>
          rw [hevict.store]
          exact ih (hevict.stands.logEviction _ _ _) _
        | false => exact hevict
    · rw [if_neg hgo, if_neg (mt htest.mp hgo)]
      exact ⟨rfl, h, rfl⟩

theorem makeRoom (h : Stands opt lru c) {full : Int → Bool} {short : Int → Bool}
    (hfull : ∀ size, full size = short (SPANN.LRUCache.capacity opt - size)) (needed : Int)
    (st : Store) (key : Nat) :
    Alike opt (lru.makeRoom (overStore opt) st key short needed) (c.makeRoom opt st key full) := by
  have hkeys : c.keys.length = lru.keys.length := by rw [h.keys, List.length_map]
  have hmade := h.evictWhile hfull needed 1 lru.keys.length st
  unfold LRUCache.makeRoom SPANN.LRUCache.makeRoom
  rw [hkeys]
  dsimp only
  rw [hmade.answer]
  cases (LRUCache.evictWhile (overStore opt) short needed 1 lru.keys.length lru st).1 with
  | true => exact hmade
  | false =>
    have hevict := hmade.stands.evict (LRUCache.evictWhile (overStore opt) short needed 1
      lru.keys.length lru st).2.2 key
    rw [hmade.store]
    exact ⟨rfl, hevict.stands, hevict.store⟩

end Stands

theorem Alike.update {r : Bool × LRUCache × Store} {r' : Bool × SPANN.LRUCache × Store}
    (h : Alike opt r r') {delta : Int} (hcache : r.1 = true → r.2.1.cache key = some e)
    {value : Bytes} (hint : value.length < 2 ^ 31) :
    Alike opt (if r.1 then (true, r.2.1.update key value e.iter delta, r.2.2) else r)
      (if r'.1 then (true, r'.2.1.update key value delta, r'.2.2) else r') := by
  rw [h.answer]
  cases hok : r.1 with
  | true => exact ⟨rfl, h.stands.update (hcache hok) hint delta, h.store⟩
  | false => exact h

theorem Alike.insert {r : Bool × LRUCache × Store} {r' : Bool × SPANN.LRUCache × Store}
    (h : Alike opt r r') (hcache : r.1 = true → r.2.1.cache key = none) {value : Bytes}
    (hint : value.length < 2 ^ 31) :
    Alike opt (if r.1 then (true, r.2.1.insert key value, r.2.2) else r)
      (if r'.1 then (true, r'.2.1.insert key value, r'.2.2) else r') := by
  rw [h.answer]
  cases hok : r.1 with
  | true => exact ⟨rfl, h.stands.insert (hcache hok) hint, h.store⟩
  | false => exact h

namespace Stands

theorem put (h : Stands opt lru c) (hinv : Inv lru) (value : Chunk) {st : Store}
    (hfits : Fits (overStore opt) (lru, st) (.put key value)) :
    Alike opt (lru.put (overStore opt) st key value.1) (c.put opt st key value.1) := by
  have hkeys : c.keys.length = lru.keys.length := by rw [h.keys, List.length_map]
  rw [Fits] at hfits
  dsimp only at hfits
  unfold LRUCache.put SPANN.LRUCache.put
  rw [h.find, ← h.limit, hkeys]
  cases he : lru.cache key with
  | some old =>
    rw [he] at hfits
    dsimp only [Option.map_some] at hfits ⊢
    by_cases hlimit : lru.limit < value.1.length
    · rw [if_pos hlimit, if_pos hlimit]
      have hevict := h.countPut.evict st key
      exact ⟨rfl, hevict.stands, hevict.store⟩
    · rw [if_neg hlimit, if_neg hlimit, toInt_of_lt (h.ints key old he)]
      have hroom := @makeRoom_spec Store (overStore opt) _ _ _ hinv.countPut he _ st
        (hfits (not_lt.mp hlimit)) (by
          show _ ≤ lru.limit
          omega)
      exact ((h.countPut.touch he).makeRoom (fun _ => rfl) _ st key).update hroom.cache value.2
  | none =>
    rw [he] at hfits
    dsimp only [Option.map_none] at hfits ⊢
    by_cases hlimit : lru.limit < value.1.length
    · rw [if_pos hlimit, if_pos hlimit]
      exact ⟨rfl, h.countPut, rfl⟩
    · rw [if_neg hlimit, if_neg hlimit]
      have hroom := @evictAll_spec Store (overStore opt) _ _ _ _ hinv.countPut he st
        (hfits (not_lt.mp hlimit)) ((not_lt.mp hlimit).trans hinv.limit_le)
        fun free hfree => shortInt_eq_false hfree
      exact (h.countPut.evictWhile (fun _ => rfl) _ 0 _ st).insert hroom.cache value.2

theorem merge (h : Stands opt lru c) (hinv : Inv lru) (value : Chunk) {checksum : Bytes → Bool}
    {st : Store} (hfits : Fits (overStore opt) (lru, st) (.merge key value checksum)) :
    Alike opt (lru.merge (overStore opt) st key value.1 checksum)
      (c.merge opt st key value.1 checksum) := by
  have hkeys : c.keys.length = lru.keys.length := by rw [h.keys, List.length_map]
  rw [Fits] at hfits
  dsimp only at hfits
  unfold LRUCache.merge SPANN.LRUCache.merge
  rw [h.find, ← h.limit, hkeys]
  cases he : lru.cache key with
  | some old =>
    rw [he] at hfits
    dsimp only [Option.map_some] at hfits ⊢
    by_cases hsize : toSize lru.limit < value.1.length + old.value.length
    · rw [if_pos hsize, if_pos hsize]
      have hevict := h.countPut.evict st key
      exact ⟨rfl, hevict.stands, hevict.store⟩
    · have hle : ((value.1.length + old.value.length : Nat) : Int) ≤ lru.limit := by
        have hnonneg := hinv.limit_nonneg
        rw [toSize] at hsize
        omega
      obtain ⟨hint, hhonest⟩ := hfits hle
      rw [if_neg hsize, if_neg hsize]
      have hroom := @makeRoom_spec Store (overStore opt) _ _ _ hinv.countPut he _ st hhonest (by
        show _ ≤ lru.limit
        omega)
      refine ((h.countPut.touch he).makeRoom (fun _ => rfl) _ st key).update hroom.cache ?_
      rw [List.length_append]
      omega
  | none =>
    rw [he] at hfits
    dsimp only [Option.map_none, overStore] at hfits ⊢
    cases hgot : (st.get opt key).1 with
    | error ret => exact ⟨rfl, h.countPut, rfl⟩
    | ok old =>
      dsimp only [Except.toOption]
      by_cases hvalid : checksum old = true
      · rw [if_pos hvalid, if_pos hvalid]
        obtain ⟨hint, hcapacity, hhonest⟩ := hfits old (by rw [hgot]; rfl) hvalid
        have hroom := @evictAll_spec Store (overStore opt) _ _ _ _ hinv.countPut he
          (st.get opt key).2 hhonest hcapacity fun free hfree => shortSize_eq_false hfree hint
        exact (h.countPut.evictWhile (fun _ => rfl) _ 0 _ (st.get opt key).2).insert hroom.cache
          hint
      · rw [if_neg hvalid, if_neg hvalid]
        exact ⟨rfl, h.countPut, rfl⟩

theorem del (h : Stands opt lru c) (key : Nat) : Stands opt (lru.del key).2 (c.del key) := by
  unfold LRUCache.del SPANN.LRUCache.del
  rw [h.find]
  cases he : lru.cache key with
  | none => exact h
  | some e => exact h.erase he

theorem get (h : Stands opt lru c) (key : Nat) :
    c.find key = (lru.get key).1 ∧ Stands opt (lru.get key).2 c := by
  rw [h.find]
  unfold LRUCache.get
  cases lru.cache key with
  | none => exact ⟨rfl, { h with }⟩
  | some e => exact ⟨rfl, { h with }⟩

end Stands

section Run

def serve {F : Type} (file : File F) (s : LRUCache × F) :
    Call → (Bool × Option Bytes) × LRUCache × F
  | .get key => let r := s.1.get key; ((r.1.isSome, r.1), r.2, s.2)
  | .put key value => let r := s.1.put file s.2 key value.1; ((r.1, none), r.2)
  | .merge key value checksum =>
    let r := s.1.merge file s.2 key value.1 checksum; ((r.1, none), r.2)
  | .del key => let r := s.1.del key; ((r.1, none), r.2, s.2)
  | .flush => let r := s.1.flush file s.2; ((r.1, none), r.2)

def servePlain (opt : Options) (s : SPANN.LRUCache × Store) :
    Call → (Bool × Option Bytes) × SPANN.LRUCache × Store
  | .get key => let r := s.1.find key; ((r.isSome, r), s)
  | .put key value => let r := s.1.put opt s.2 key value.1; ((r.1, none), r.2)
  | .merge key value checksum =>
    let r := s.1.merge opt s.2 key value.1 checksum; ((r.1, none), r.2)
  | .del key => (((s.1.find key).isSome, none), s.1.del key, s.2)
  | .flush => let r := s.1.flush opt s.2; ((r.1, none), r.2)

theorem serve_step {F : Type} (file : File F) (s : LRUCache × F) (call : Call) :
    (serve file s call).2 = step file s call := by
  cases call <;> rfl

structure Same (opt : Options) (s : LRUCache × Store) (t : SPANN.LRUCache × Store) : Prop where
  inv : Inv s.1
  stands : Stands opt s.1 t.1
  store : t.2 = s.2

/-- The map is iterated in an order of its own, so a flush is not compared. -/
def Comparable (opt : Options) (s : LRUCache × Store) (call : Call) : Prop :=
  Fits (overStore opt) s call ∧ call ≠ .flush

theorem same_of_alike {r : Bool × LRUCache × Store}
    {r' : Bool × SPANN.LRUCache × Store} (h : Alike opt r r') (hinv : Inv r.2.1) :
    (r.1, (none : Option Bytes)) = (r'.1, none) ∧ Same opt r.2 r'.2 :=
  ⟨by rw [h.answer], hinv, h.stands, h.store⟩

theorem same_step {s : LRUCache × Store} {t : SPANN.LRUCache × Store} (h : Same opt s t)
    {call : Call} (hcall : Comparable opt s call) :
    (serve (overStore opt) s call).1 = (servePlain opt t call).1 ∧
      Same opt (serve (overStore opt) s call).2 (servePlain opt t call).2 := by
  obtain ⟨hfits, hplain⟩ := hcall
  obtain ⟨lru, st⟩ := s
  obtain ⟨c, st'⟩ := t
  obtain rfl : st' = st := h.store
  have hinv : Inv (step (overStore opt) (lru, st') call).1 := h.inv.step call hfits
  cases call with
  | get key =>
    obtain ⟨hfind, hstands⟩ := h.stands.get key
    refine ⟨?_, hinv, hstands, rfl⟩
    dsimp only [serve, servePlain]
    rw [hfind]
  | put key value => exact same_of_alike (h.stands.put h.inv value hfits) hinv
  | merge key value checksum => exact same_of_alike (h.stands.merge h.inv value hfits) hinv
  | del key =>
    refine ⟨?_, hinv, h.stands.del key, rfl⟩
    dsimp only [serve, servePlain]
    rw [h.stands.find]
    unfold LRUCache.del
    cases lru.cache key <;> rfl
  | flush => exact absurd rfl hplain

theorem same_run {s : LRUCache × Store} {t : SPANN.LRUCache × Store} (h : Same opt s t)
    {calls : List Call} (hcalls : Along (step (overStore opt)) (Comparable opt) s calls) :
    answers (serve (overStore opt)) s calls = answers (servePlain opt) t calls ∧
      Same opt (run (step (overStore opt)) s calls)
        (run (fun t call => (servePlain opt t call).2) t calls) := by
  induction calls generalizing s t with
  | nil => exact ⟨rfl, h⟩
  | cons call calls ih =>
    obtain ⟨hanswer, hsame⟩ := same_step h hcalls.1
    rw [serve_step] at hsame
    obtain ⟨hanswers, hlast⟩ := ih hsame hcalls.2
    refine ⟨?_, hlast⟩
    rw [answers, answers, hanswer, serve_step, hanswers]

theorem create_same (hcapacity : 0 ≤ SPANN.LRUCache.capacity opt) (st : Store) :
    Same opt (create (SPANN.LRUCache.capacity opt) opt.blockLimit, st) (.empty, st) where
  inv := create_inv hcapacity opt.blockLimit
  stands :=
    { linked := (create_inv hcapacity opt.blockLimit).linked
      fresh := fun _ hn => absurd hn List.not_mem_nil
      ints := fun _ _ he => by cases he
      keys := rfl
      find := fun _ => rfl
      size := rfl
      capacity := rfl
      limit := rfl }
  store := rfl

/-- From a new cache on, both give the same answers, leave the same file, and hold the same. -/
theorem caches_alike (hcapacity : 0 ≤ SPANN.LRUCache.capacity opt) (st : Store)
    {calls : List Call} (hcalls : Along (step (overStore opt)) (Comparable opt)
      (create (SPANN.LRUCache.capacity opt) opt.blockLimit, st) calls) :
    answers (serve (overStore opt))
        (create (SPANN.LRUCache.capacity opt) opt.blockLimit, st) calls =
      answers (servePlain opt) (.empty, st) calls ∧
    Same opt
      (run (step (overStore opt))
        (create (SPANN.LRUCache.capacity opt) opt.blockLimit, st) calls)
      (run (fun t call => (servePlain opt t call).2) (.empty, st) calls) :=
  same_run (create_same hcapacity st) hcalls

open FileIO (twoBytes)

def twoBytesStore : Store :=
  let f := FileIO.initial twoBytes
  f.store

theorem caches_alike_evicting :
    answers (serve (overStore twoBytes)) (create 2 4, twoBytesStore)
        [.put 0 ⟨[1], by decide⟩, .put 1 ⟨[2, 3], by decide⟩, .get 0, .get 1] =
      answers (servePlain twoBytes) (.empty, twoBytesStore)
        [.put 0 ⟨[1], by decide⟩, .put 1 ⟨[2, 3], by decide⟩, .get 0, .get 1] ∧
    Same twoBytes
      (run (step (overStore twoBytes)) (create 2 4, twoBytesStore)
        [.put 0 ⟨[1], by decide⟩, .put 1 ⟨[2, 3], by decide⟩, .get 0, .get 1])
      (run (fun t call => (servePlain twoBytes t call).2) (.empty, twoBytesStore)
        [.put 0 ⟨[1], by decide⟩, .put 1 ⟨[2, 3], by decide⟩, .get 0, .get 1]) :=
  @caches_alike twoBytes (by decide) _ _
    ⟨⟨fun _ => trivial, nofun⟩,
      ⟨fun _ _ => ⟨fun h => absurd h (by decide), fun _ => trivial⟩, nofun⟩,
      ⟨trivial, nofun⟩, ⟨trivial, nofun⟩, trivial⟩

end Run

end Sptag.SPANN.Lru
