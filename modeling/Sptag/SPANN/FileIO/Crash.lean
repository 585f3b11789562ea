import Sptag.SPANN.FileIO.Invariant

/-! What a store finds after a crash: the mapping file, the block pool file and the pages of
the posting file, while the store goes on working. -/

namespace Sptag.SPANN

open Sptag.Lib
open BlockController

namespace BlockController

variable (opt : Options) {bc : BlockController} {F ids : List Int} {page : Int → Bytes}

structure Shields (F : List Int) (page : Int → Bytes) (bc : BlockController) : Prop where
  apart : ∀ id ∈ F, id ∉ bc.blockAddresses
  old : ∀ id ∈ F, id < bc.totalAllocatedBlocks
  pages : ∀ id ∈ F, bc.pages id = page id

theorem prepare_shields (p_size : Int) (h : Shields F page bc) :
    Shields F page (bc.prepare opt p_size).2 := by
  unfold prepare
  split
  · simp only
    split
    · unfold expandFile
      simp only
      split
      · refine ⟨fun id hid => ?_, fun id hid => ?_, h.pages⟩
        · have hlt := h.old id hid
          rw [List.mem_append, mem_newBlocks, not_or]
          exact ⟨h.apart id hid, by omega⟩
        · have hlt := h.old id hid
          simp only
          omega
      · exact ⟨h.apart, h.old, h.pages⟩
    · exact h
  · exact h

theorem popBlocks_shields (n : Nat) (h : Shields F page bc) :
    Shields F page (popBlocks n bc).2 ∧ ∀ id ∈ F, id ∉ (popBlocks n bc).1.2 := by
  induction n generalizing bc with
  | zero => exact ⟨h, fun _ _ => List.not_mem_nil⟩
  | succ n ih =>
    unfold popBlocks
    split
    · exact ⟨h, fun _ _ => List.not_mem_nil⟩
    · rename_i id rest hq
      have hapart : ∀ id' ∈ F, id' ≠ id ∧ id' ∉ rest := by
        intro id' hid'
        have hnot := h.apart id' hid'
        rwa [hq, List.mem_cons, not_or] at hnot
      obtain ⟨hrest, hids⟩ := @ih
        { bc with
          blockAddresses := rest
          available := bc.available.reset id }
        ⟨fun id' hid' => (hapart id' hid').2, h.old, h.pages⟩
      refine ⟨hrest, fun id' hid' => ?_⟩
      rw [List.mem_cons, not_or]
      exact ⟨(hapart id' hid').1, hids id' hid'⟩

theorem getBlocks_shields (p_size : Int) (h : Shields F page bc) :
    Shields F page (bc.getBlocks opt p_size).2 ∧ ∀ id ∈ F, id ∉ (bc.getBlocks opt p_size).1.2 := by
  obtain ⟨hpop, hids⟩ := popBlocks_shields p_size.toNat (prepare_shields opt p_size h)
  unfold getBlocks takeBlocks
  simp only
  split
  · split
    · exact ⟨hpop, hids⟩
    · exact ⟨⟨hpop.apart, hpop.old, hpop.pages⟩, hids⟩
  · have hprep := prepare_shields opt p_size h
    exact ⟨⟨hprep.apart, hprep.old, hprep.pages⟩, fun _ _ => List.not_mem_nil⟩

variable {opt} in
theorem releaseBlocks_shields (hd : opt.disableCheckpoint = false) (ids : List Int)
    (h : Shields F page bc) : Shields F page (bc.releaseBlocks opt ids) := by
  induction ids generalizing bc with
  | nil => exact h
  | cons id ids ih =>
    have hid : Shields F page (bc.releaseBlock opt id) := by
      unfold releaseBlock
      simp only [hd, Bool.false_eq_true, if_false]
      split
      · exact ⟨h.apart, h.old, h.pages⟩
      · exact ⟨h.apart, h.old, h.pages⟩
    exact ih hid

theorem writeBlocks_shields (p_size : Int) (value : Bytes) (hids : ∀ id ∈ F, id ∉ ids)
    (h : Shields F page bc) : Shields F page (bc.writeBlocks ids p_size value).2 := by
  obtain ⟨hpool, -, -, -, -, hpages, -, -⟩ := writeBlocks_spec bc ids p_size value
  refine ⟨fun id hid => ?_, fun id hid => ?_, fun id hid => ?_⟩
  · rw [hpool.blockAddresses]
    exact h.apart id hid
  · rw [hpool.total]
    exact h.old id hid
  · rw [hpages id fun hmem => hids id hid (List.mem_of_mem_take hmem)]
    exact h.pages id hid

theorem readBlocks_shields (postingSize : Int) (ids : List Int) (h : Shields F page bc) :
    Shields F page (bc.readBlocks opt postingSize ids).2 := by
  obtain ⟨hpool, hpages, -, -, -⟩ := readBlocks_spec opt bc postingSize ids
  refine ⟨fun id hid => ?_, fun id hid => ?_, fun id hid => ?_⟩
  · rw [hpool.blockAddresses]
    exact h.apart id hid
  · rw [hpool.total]
    exact h.old id hid
  · rw [hpages]
    exact h.pages id hid

theorem Shields.of_owns (h : bc.Owns F) :
    Shields F bc.pages bc := by
  refine ⟨fun id hid hmem => ?_, fun id hid => ?_, fun _ _ => rfl⟩
  · exact h.partition.not_mem_free hid (List.mem_append_left _ hmem)
  · exact (h.partition.mem id (List.mem_append_right _ hid)).2

end BlockController

namespace Store

variable {opt : Options} (hd : opt.disableCheckpoint = false) {st : Store} {F : List Int}
  {page : Int → Bytes}

include hd

theorem allocate_shields {bc : BlockController} (p_size : Int) (value : Bytes)
    (h : Shields F page bc) : Shields F page (allocate opt bc p_size value).2 := by
  obtain ⟨hgot, hids⟩ := getBlocks_shields opt p_size h
  have hwrote := writeBlocks_shields p_size value hids hgot
  unfold allocate
  simp only
  split
  · split
    · exact hwrote
    · exact releaseBlocks_shields hd _ hwrote
  · exact hgot

theorem putBlocks_shields (key : Nat) (value : Bytes) (h : Shields F page st.blockController) :
    Shields F page (st.putBlocks opt key value).2.blockController := by
  have halloc := allocate_shields hd (pages value.length) value h
  unfold putBlocks
  cases st.at? key with
  | none =>
    simp only [takeArray_blockController]
    rcases hr : allocate opt st.blockController (pages value.length) value with
      ⟨ids | ids | ids, bc⟩
    all_goals
      rw [hr] at halloc
      exact halloc
  | some a =>
    simp only
    split
    · rcases hr : allocate opt st.blockController (pages value.length) value with
        ⟨ids | ids | ids, bc⟩
      all_goals
        rw [hr] at halloc
        exact halloc
    · rw [show st.popBuffer.blockController = st.blockController from rfl]
      rcases hr : allocate opt st.blockController (pages value.length) value with
        ⟨ids | ids | ids, bc⟩
      all_goals rw [hr] at halloc
      · exact releaseBlocks_shields hd _ halloc
      · exact halloc
      · exact halloc

theorem mergeBlocks_shields (key : Nat) (value : Bytes) (newSize : Nat)
    (h : Shields F page st.blockController) :
    Shields F page (st.mergeBlocks opt key value newSize).2.blockController := by
  unfold mergeBlocks
  cases st.at? key with
  | none => exact h
  | some a =>
    simp only
    generalize (pages newSize : Int) - (a.size.toNat / PageSize : Nat) = n
    split
    · have hread := readBlocks_shields opt (a.size.toNat % PageSize : Nat)
        [a.slots.getD (a.size.toNat / PageSize) (-1)] h
      rcases hgot : st.blockController.readBlocks opt (a.size.toNat % PageSize : Nat)
        [a.slots.getD (a.size.toNat / PageSize) (-1)] with ⟨got, bc⟩
      rw [hgot] at hread
      cases got with
      | none => exact hread
      | some newValue =>
        have halloc := allocate_shields hd n (newValue ++ value) hread
        simp only
        rw [show ((st.controller bc).popBuffer).blockController = bc from rfl]
        rcases hr : allocate opt bc n (newValue ++ value) with ⟨ids | ids | ids, bc'⟩
        all_goals rw [hr] at halloc
        · exact releaseBlocks_shields hd _ halloc
        · exact halloc
        · exact halloc
    · have halloc := allocate_shields hd n value h
      rcases hr : allocate opt st.blockController n value with ⟨ids | ids | ids, bc⟩
      all_goals
        rw [hr] at halloc
        exact halloc

theorem deleteBlocks_shields (key : Nat) (h : Shields F page st.blockController) :
    Shields F page (st.deleteBlocks opt key).2.blockController := by
  unfold deleteBlocks
  split
  · exact h
  · split
    · exact h
    · exact releaseBlocks_shields hd _ h

omit hd

/-- The bytes that an entry of the mapping stands for, with the given pages. -/
def readEntry (opt : Options) (page : Int → Bytes) : Option Addresses → Option Bytes
  | none => none
  | some a =>
    if toInt a.size < 0 ∨ opt.reqs < pages a.size.toNat then none
    else some (readPages page (a.slots.take (pages a.size.toNat)) a.size.toNat)

theorem get_eq_readEntry (opt : Options) (hr : st.blockController.io.reads = []) (key : Nat) :
    (st.get opt key).1.toOption = readEntry opt st.blockController.pages (st.at? key) := by
  unfold get locate
  cases hat : st.at? key with
  | none =>
    by_cases hlen : st.blockMapping.length ≤ key
    · rw [if_pos hlen]
      rfl
    · rw [if_neg hlen]
      rfl
  | some a =>
    rw [if_neg (not_le.mpr (at?_lt_length hat))]
    simp only [readEntry]
    by_cases hneg : toInt a.size < 0
    · rw [if_pos hneg, if_pos (.inl hneg)]
      rfl
    · rw [if_neg hneg]
      unfold read readBlocks
      by_cases hover : opt.reqs < pages a.size.toNat
      · rw [if_pos (.inr hover)]
        simp only [if_pos hover]
        rfl
      · rw [if_neg (not_or.mpr ⟨hneg, hover⟩)]
        simp only [if_neg hover, hr]
        rfl

theorem readEntry_congr {page' : Int → Bytes} {r : Option Addresses}
    (h : ∀ id ∈ entryBlocks r, page' id = page id) :
    readEntry opt page' r = readEntry opt page r := by
  cases r with
  | none => rfl
  | some a =>
    rw [entryBlocks, blocks_eq] at h
    rw [readEntry, readEntry, readPages_congr h]

end Store

namespace FileIO

open Store

variable (opt : Options)

def save (f : FileIO) : Option (List Addresses) × FileIO :=
  let flushed := f.flush opt
  (if flushed.1 then some flushed.2.saveMapping else none, flushed.2)

def values (f : FileIO) (key : Nat) : Option Bytes := ((f.withIo .reliable).get opt key).1.toOption

/-- A store and the files it has written; `saved` are the values at the time the mapping
file was written. -/
structure Durable where
  file : FileIO
  mapping : List Addresses
  pool : Option PoolFile
  saved : Nat → Option Bytes

inductive Op
  | put (key : Nat) (value : Bytes)
  | merge (key : Nat) (value : Bytes) (checksum : Bytes → Bool)
  | delete (key : Nat)
  | forceCompaction
  | checkpoint
  | crash

namespace Durable

variable (s : Durable)

def recovered : FileIO := load opt s.mapping s.pool s.file.store.blockController.pages

def write (written : Option (List Addresses) × FileIO) : Durable :=
  match written.1 with
  | none => { s with file := written.2 }
  | some mapping =>
    { s with file := written.2, mapping := mapping, saved := values opt written.2 }

def writePool : Durable :=
  let bc := s.file.store.blockController.reloadReserve
  { s with file := { s.file with store := s.file.store.controller bc }, pool := some (savePool bc) }

def step (s : Durable) : Op → Durable
  | .put key value => { s with file := FileIO.step opt s.file ⟨.put key value, .reliable⟩ }
  | .merge key value checksum =>
    { s with file := FileIO.step opt s.file ⟨.merge key value checksum, .reliable⟩ }
  | .delete key => { s with file := FileIO.step opt s.file ⟨.delete key, .reliable⟩ }
  | .forceCompaction => s.write opt (s.file.save opt)
  | .checkpoint => (s.write opt (s.file.save opt)).writePool
  | .crash => { s with file := s.recovered opt }

def initial : Durable := ⟨ FileIO.initial opt, [], none, fun _ => none⟩

/-- What a crash would leave: the values of the mapping file, and blocks with one owner each;
until then no block of the mapping file is handed out. -/
structure CrashConsistent : Prop where
  values : ∀ key, FileIO.values opt (s.recovered opt) key = s.saved key
  owned : OneOwner (s.recovered opt)
  available : Labelled (s.recovered opt) → OwnershipInvariant (s.recovered opt)
  kept : ∀ id ∈ mapped (s.mapping.map some), id ∉ s.file.store.blockController.blockAddresses

def HoldsOldBlocks : Prop :=
  ∀ id ∈ mapped s.file.store.blockMapping,
    id < (s.pool.getD (freshPool opt)).total ∧ id ∉ (s.pool.getD (freshPool opt)).ids

def Admits (s : Durable) : Op → Prop
  | .forceCompaction => s.HoldsOldBlocks opt
  | _ => True

variable {s} {opt}

structure Inv (opt : Options) (s : Durable) : Prop where
  owned : s.file.store.Owned
  shields : Shields (mapped (s.mapping.map some)) s.file.store.blockController.pages
    s.file.store.blockController
  partition : Partition (fun id => 0 ≤ id ∧ id < (s.pool.getD (freshPool opt)).total)
    (s.pool.getD (freshPool opt)).ids (mapped (s.mapping.map some))
  total_nonneg : 0 ≤ (s.pool.getD (freshPool opt)).total
  full : ∀ a ∈ s.mapping, 0 ≤ a.size → pages a.size.toNat ≤ a.slots.length
  reads : ∀ key, readEntry opt s.file.store.blockController.pages s.mapping[key]? = s.saved key

theorem get_eq {f : FileIO} {key : Nat} (hc : f.cached opt key = none) :
    (f.get opt key).1 = (f.store.get opt key).1 := by
  unfold FileIO.get Store.get
  cases f.store.locate key with
  | error e => rfl
  | ok a => simp only [hc]

theorem values_eq {f : FileIO} {key : Nat} (hc : f.cached opt key = none) :
    FileIO.values opt f key =
      readEntry opt f.store.blockController.pages (f.store.at? key) := by
  unfold FileIO.values
  rw [get_eq (f := f.withIo .reliable) hc]
  exact get_eq_readEntry opt rfl key

theorem cached_of_empty {f : FileIO} (h : ∀ i, (f.caches i).cache = []) (key : Nat) :
    f.cached opt key = none := by
  unfold cached LRUCache.find
  rw [h]
  split <;> rfl

theorem Inv.recovered_owned (h : Inv opt s) : (s.recovered opt).store.Owned :=
  load_owned opt _ h.partition h.total_nonneg h.full

@[simp] theorem recovered_pages (s : Durable) :
    (s.recovered opt).store.blockController.pages = s.file.store.blockController.pages :=
  (openPool_frame opt s.pool _).1

theorem Inv.crashConsistent (h : Inv opt s) : s.CrashConsistent opt := by
  refine ⟨fun key => ?_, .of_owned h.recovered_owned, .of_owned h.recovered_owned, h.shields.apart⟩
  have hcached : (s.recovered opt).cached opt key = none := cached_of_empty (fun _ => rfl) key
  rw [values_eq hcached, recovered_pages, recovered, at?_load]
  exact h.reads key

theorem mem_mapped {mapping : List Addresses} {key : Nat} {id : Int}
    (h : id ∈ entryBlocks mapping[key]?) : id ∈ mapped (mapping.map some) := by
  cases ha : mapping[key]? with
  | none =>
    rw [ha] at h
    cases h
  | some a =>
    rw [ha] at h
    exact List.mem_flatMap.mpr
      ⟨some a, List.mem_map.mpr ⟨a, List.mem_of_getElem? ha, rfl⟩, h⟩

theorem Inv.of_file (h : Inv opt s) {file : FileIO} (howned : file.store.Owned)
    (hs : Shields (mapped (s.mapping.map some)) s.file.store.blockController.pages
      file.store.blockController) : Inv opt { s with file := file } := by
  refine ⟨howned, ⟨hs.apart, hs.old, fun _ _ => rfl⟩, h.partition, h.total_nonneg, h.full,
    fun key => ?_⟩
  rw [← h.reads key]
  exact readEntry_congr fun id hid => hs.pages id (mem_mapped hid)

theorem Inv.crash (h : Inv opt s) : Inv opt { s with file := s.recovered opt } := by
  have howns : (s.recovered opt).store.blockController.Owns (mapped (s.mapping.map some)) :=
    openPool_owns opt s.pool _ h.partition h.total_nonneg
  have hs := Shields.of_owns howns
  rw [recovered_pages] at hs
  exact h.of_file h.recovered_owned hs

theorem readEntry_saveMapping (f : FileIO) (page : Int → Bytes) (key : Nat) :
    readEntry opt page f.saveMapping[key]? = readEntry opt page (f.store.at? key) := by
  unfold saveMapping at?
  rw [List.getElem?_map]
  cases f.store.blockMapping[key]? with
  | none => rfl
  | some r =>
    cases r with
    | none =>
      have hneg : toInt Addresses.blank.size < 0 := by decide
      simp [readEntry, hneg]
    | some a => rfl

theorem inv_of_saved {f : FileIO} {pool : Option PoolFile} {saved : Nat → Option Bytes}
    (howned : f.store.Owned)
    (hpool : Partition (fun id => 0 ≤ id ∧ id < (pool.getD (freshPool opt)).total)
      (pool.getD (freshPool opt)).ids (mapped f.store.blockMapping))
    (h0 : 0 ≤ (pool.getD (freshPool opt)).total)
    (hsaved : ∀ key, saved key =
      readEntry opt f.store.blockController.pages (f.store.at? key)) :
    Inv opt ⟨f, f.saveMapping, pool, saved⟩ := by
  refine ⟨howned, ?_, ?_, h0, saveMapping_full howned, fun key => ?_⟩
  · simp only [mapped_saveMapping]
    exact .of_owns howned.owns
  · simp only [mapped_saveMapping]
    exact hpool
  · exact (readEntry_saveMapping f _ key).trans (hsaved key).symm

theorem save_eq (hcache : opt.cacheShards = 0) (f : FileIO) :
    f.save opt = (some f.saveMapping, f) := by
  unfold save FileIO.flush
  rw [hcache]
  rfl

theorem Inv.forceCompaction (hcache : opt.cacheShards = 0) (h : Inv opt s)
    (hold : s.HoldsOldBlocks opt) : Inv opt (s.step opt .forceCompaction) := by
  rw [step, save_eq hcache]
  refine inv_of_saved h.owned ⟨?_, fun id hid => ?_⟩ h.total_nonneg
    fun key => values_eq (if_pos hcache)
  · refine List.nodup_append'.mpr ⟨(List.nodup_append'.mp h.partition.nodup).1,
      (List.nodup_append'.mp h.owned.owns.partition.nodup).2.1, fun id hid hmem => ?_⟩
    exact (hold id hmem).2 hid
  · rcases List.mem_append.mp hid with hid | hid
    · exact h.partition.mem id (List.mem_append_left _ hid)
    · exact ⟨(h.owned.owns.partition.mem id (List.mem_append_right _ hid)).1, (hold id hid).1⟩

theorem Inv.checkpoint (hcache : opt.cacheShards = 0) (h : Inv opt s) :
    Inv opt (s.step opt .checkpoint) := by
  rw [step, save_eq hcache]
  have howns := reloadReserve_owns h.owned.owns
  refine inv_of_saved ⟨howns, h.owned.full, h.owned.buffer⟩
    (howns.partition.of_perm ?_) howns.total_nonneg fun key => values_eq (if_pos hcache)
  simp [free, savePool, reloadReserve, controller, write]

theorem initial_inv (opt : Options) : Inv opt (initial opt) := by
  have howned := initial_owned opt
  refine ⟨howned, .of_owns (howned.owns.sublist (List.nil_sublist _)),
    (howned.owns.partition.sublist (.refl _) (.refl _)).of_perm ?_, Int.natCast_nonneg _, nofun,
    fun _ => rfl⟩
  simp [initial, FileIO.initial, free, freshPool, mapped]

theorem call_shields (hd : opt.disableCheckpoint = false) (hcache : opt.cacheShards = 0)
    {f : FileIO} {F : List Int} {page : Int → Bytes} (h : Shields F page f.store.blockController) :
    (∀ key value, Shields F page (f.put opt key value).2.store.blockController) ∧
      (∀ key value checksum,
        Shields F page (f.merge opt key value checksum).2.store.blockController) ∧
      ∀ key, Shields F page (f.delete opt key).2.store.blockController := by
  refine ⟨fun key value => ?_, fun key value checksum => ?_, fun key => ?_⟩
  · unfold FileIO.put
    split
    · exact h
    · exact putBlocks_shields hd key value h
  · unfold FileIO.merge
    split
    · exact h
    · split
      · exact h
      · split
        · exact h
        · simp only
          split
          · exact h
          · exact mergeBlocks_shields hd key value _ h
  · unfold FileIO.delete
    split
    · exact h
    · exact deleteBlocks_shields hd key h

theorem Inv.step (hd : opt.disableCheckpoint = false) (hcache : opt.cacheShards = 0)
    (h : Inv opt s) (op : Op) (hok : Admits opt s op) : Inv opt (s.step opt op) := by
  have howned : ∀ c, (s.file.step opt ⟨c, .reliable⟩).store.Owned :=
    fun c => step_owned opt h.owned (.inl fun o ho => absurd ho List.not_mem_nil)
  have hs : Shields (mapped (s.mapping.map some)) s.file.store.blockController.pages
      (s.file.withIo .reliable).store.blockController :=
    ⟨h.shields.apart, h.shields.old, h.shields.pages⟩
  obtain ⟨hput, hmerge, hdelete⟩ := call_shields hd hcache hs
  cases op with
  | put key value => exact h.of_file (howned _) (hput key value)
  | merge key value checksum => exact h.of_file (howned _) (hmerge key value checksum)
  | delete key => exact h.of_file (howned _) (hdelete key)
  | forceCompaction => exact h.forceCompaction hcache hok
  | checkpoint => exact h.checkpoint hcache
  | crash => exact h.crash

/-- Without a cache, and as long as a mapping file alone is only written when the keys hold
no block handed out since the last checkpoint, a crash at any point is survived. -/
theorem crash_consistent (hd : opt.disableCheckpoint = false) (hcache : opt.cacheShards = 0)
    (ops : List Op) (hok : Along (step opt) (Admits opt) (initial opt) ops) :
    Throughout (step opt) (CrashConsistent opt) (initial opt) ops :=
  (hok.throughout (fun _ op hop hinv => hinv.step hd hcache op hop) (initial_inv opt)).mono
    fun _ hinv => hinv.crashConsistent

theorem crash_consistent_checkpointed :
    Throughout (step tenBlocks) (CrashConsistent tenBlocks) (initial tenBlocks)
      [.put 0 [1], .checkpoint, .forceCompaction, .put 0 [2]] :=
  crash_consistent rfl rfl _ ⟨trivial, trivial, by unfold Admits HoldsOldBlocks; decide, trivial,
    trivial⟩

theorem not_crash_consistent :
    ¬ Throughout (step tenBlocks) (CrashConsistent tenBlocks) (initial tenBlocks)
      [.checkpoint, .put 0 [1], .forceCompaction] := by
  intro h
  exact absurd h.last.owned.nodup (by decide)

end Durable

end FileIO

end Sptag.SPANN
