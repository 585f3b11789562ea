import Sptag.SPANN.FileIO.Ownership
import Sptag.SPANN.FileIO.Cache

/-! The mapping file and the block pool file of `FileIO`, and a store opened over them. -/

namespace Sptag.SPANN

open Sptag.Lib
open BlockController

namespace FileIO

def saveMapping (f : FileIO) : List Addresses := f.store.blockMapping.map (·.getD .blank)

/-- The file that `BlockController::Checkpoint` writes: the number of free blocks as an
`int`, the total, and the free blocks. -/
structure PoolFile where
  blocks : Int
  total : Int
  ids : List Int

def savePool (bc : BlockController) : PoolFile :=
  ⟨toInt bc.blockAddresses.length, bc.totalAllocatedBlocks, bc.blockAddresses⟩

def loadIds : List Int → BlockController → BlockController
  | [], bc => bc
  | id :: ids, bc =>
    let inserted := bc.available.insert id
    let bc := { bc with available := inserted.2 }
    if inserted.1 then loadIds ids { bc with blockAddresses := bc.blockAddresses ++ [id] }
    else loadIds ids bc

def loadPool (opt : Options) (file : PoolFile) (pages : Int → Bytes) : BlockController :=
  loadIds (file.ids.take file.blocks.toNat)
    { blockAddresses := []
      blockAddressesReserve := []
      available := .ofSize file.total opt.datasetCapacity opt.datasetCapacity_lt
      totalAllocatedBlocks := file.total
      pages := pages
      io := .reliable
      faults := 0 }

def openPool (opt : Options) (pool : Option PoolFile) (pages : Int → Bytes) : BlockController :=
  match pool with
  | none => { (initial opt).store.blockController with pages := pages }
  | some file => loadPool opt file pages

/-- A new `FileIO` over the two files and the pages of the posting file; without a mapping
file there are no rows. -/
def load (opt : Options) (mapping : List Addresses) (pool : Option PoolFile)
    (pages : Int → Bytes) : FileIO :=
  { store :=
      { blockMapping := mapping.map some
        buffer := Store.bufferLimit
        blockController := openPool opt pool pages }
    caches := fun _ => .empty }

def reopen (opt : Options) (f : FileIO) : FileIO :=
  load opt f.saveMapping (some (savePool f.store.blockController.reloadReserve))
    f.store.blockController.pages

theorem loadIds_eq (opt : Options) (h : opt.disableCheckpoint = true) (ids : List Int)
    (bc : BlockController) : loadIds ids bc = bc.releaseBlocks opt ids := by
  induction ids generalizing bc with
  | nil => rfl
  | cons id ids ih =>
    rw [loadIds, releaseBlocks, List.foldl_cons, releaseBlock]
    simp only [h, if_true]
    split
    · exact ih _
    · exact ih _

theorem loadIds_frame (ids : List Int) (bc : BlockController) :
    (loadIds ids bc).pages = bc.pages ∧ (loadIds ids bc).io = bc.io := by
  induction ids generalizing bc with
  | nil => exact ⟨rfl, rfl⟩
  | cons id ids ih =>
    rw [loadIds]
    simp only
    split
    · exact ih _
    · exact ih _

theorem openPool_frame (opt : Options) (pool : Option PoolFile) (pages : Int → Bytes) :
    (openPool opt pool pages).pages = pages ∧ (openPool opt pool pages).io = .reliable := by
  cases pool with
  | none => exact ⟨rfl, rfl⟩
  | some file => exact loadIds_frame _ _

def freshPool (opt : Options) : PoolFile :=
  ⟨opt.startNumBlocks, opt.startNumBlocks, newBlocks 0 opt.startNumBlocks⟩

theorem initial_marks (opt : Options) :
    (initial opt).store.blockController.available.Marks opt.startNumBlocks
      (newBlocks 0 opt.startNumBlocks) := by
  have hblocks : ∀ id ∈ newBlocks 0 opt.startNumBlocks, id < (opt.startNumBlocks : Int) :=
    fun id hid => by
    have := (mem_newBlocks.mp hid).2
    omega
  have hmarks := (COMMON.LabelSet.Marks.ofSize opt.datasetCapacity_lt
    (Int.natCast_nonneg opt.startNumBlocks)).insertAll hblocks
  exact hmarks.congr fun id => by rw [List.append_nil]

theorem openPool_owns (opt : Options) (pool : Option PoolFile) {used : List Int}
    (pages : Int → Bytes)
    (h : Partition (fun id => 0 ≤ id ∧ id < (pool.getD (freshPool opt)).total)
      (pool.getD (freshPool opt)).ids used) (h0 : 0 ≤ (pool.getD (freshPool opt)).total) :
    (openPool opt pool pages).Owns used := by
  cases pool with
  | none =>
    have hfree : (openPool opt none pages).free = newBlocks 0 opt.startNumBlocks :=
      List.append_nil _
    refine ⟨?_, ?_, h0⟩
    · rw [hfree]
      exact h
    · rw [hfree]
      exact initial_marks opt
  | some file =>
    have hsub := h.sublist (List.take_sublist file.blocks.toNat file.ids) (.refl used)
    rw [openPool, loadPool, loadIds_eq { opt with disableCheckpoint := true } rfl]
    refine (releaseBlocks_spec _ ⟨?_, .ofSize opt.datasetCapacity_lt h0, h0⟩).1
    exact hsub.of_perm (.refl _)

@[simp] theorem at?_load (opt : Options) (mapping : List Addresses) (pool : Option PoolFile)
    (pages : Int → Bytes) (k : Nat) :
    (load opt mapping pool pages).store.at? k = mapping[k]? := by
  unfold Store.at? load
  simp only [List.getElem?_map]
  cases mapping[k]? <;> rfl

theorem load_owned (opt : Options) {mapping : List Addresses} {pool : Option PoolFile}
    (pages : Int → Bytes)
    (hpool : Partition (fun id => 0 ≤ id ∧ id < (pool.getD (freshPool opt)).total)
      (pool.getD (freshPool opt)).ids (Store.mapped (mapping.map some)))
    (h0 : 0 ≤ (pool.getD (freshPool opt)).total)
    (hfull : ∀ a ∈ mapping, 0 ≤ a.size → Sptag.pages a.size.toNat ≤ a.slots.length) :
    (load opt mapping pool pages).store.Owned := by
  refine ⟨openPool_owns opt pool pages hpool h0, fun k a ha => ?_, le_refl _⟩
  rw [at?_load] at ha
  exact hfull a (List.mem_of_getElem? ha)

@[simp] theorem mapped_saveMapping (f : FileIO) :
    Store.mapped (f.saveMapping.map some) = Store.mapped f.store.blockMapping := by
  unfold saveMapping Store.mapped
  rw [List.map_map, List.flatMap_map]
  refine List.flatMap_congr fun r _ => ?_
  cases r <;> rfl

theorem saveMapping_full {f : FileIO} (h : f.store.Owned) :
    ∀ a ∈ f.saveMapping, 0 ≤ a.size → pages a.size.toNat ≤ a.slots.length := by
  intro a ha hpos
  obtain ⟨r, hr, rfl⟩ := List.mem_map.mp ha
  cases r with
  | none => exact absurd hpos (by decide)
  | some b =>
    obtain ⟨k, hk⟩ := Store.mem_blockMapping.mp hr
    exact h.full k b hk hpos

theorem reopen_owned (opt : Options) {f : FileIO} (h : f.store.Owned) :
    (f.reopen opt).store.Owned := by
  refine load_owned opt _ ?_ h.owns.total_nonneg (saveMapping_full h)
  rw [mapped_saveMapping]
  exact h.owns.partition

end FileIO

end Sptag.SPANN
