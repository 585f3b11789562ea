import Sptag.Common
import Sptag.Common.LabelSet
import Sptag.Lib.Bytes
import Sptag.Lib.Partition

/-! `FileIO::BlockController` of `ExtraFileController.h` and `.cpp`: the pool of free blocks
and the pages of the posting file. -/

namespace Sptag.SPANN

open Sptag.Lib Sptag.COMMON

/-- How the file system answers the calls of one operation, in their order; calls beyond
the end of a list succeed. -/
structure Io where
  /-- `some n`: `BatchWriteFile` writes the first `n` pages and then fails. -/
  writes : List (Option Nat)
  reads : List Bool
  expands : List Bool

def Io.reliable : Io := ⟨[], [], []⟩

structure Options where
  blockLimit : Nat
  growthBlocks : Nat
  maxBlocks : Nat
  startNumBlocks : Nat
  datasetCapacity : Nat
  datasetCapacity_lt : datasetCapacity < 2 ^ 31
  /-- `ratio < m_growthThreshold` for the given numbers of available and total blocks. -/
  belowThreshold : Nat → Nat → Bool
  disableCheckpoint : Bool
  /-- The number of disk requests of a workspace. -/
  reqs : Nat
  blockLimit_le_reqs : blockLimit ≤ reqs + 1
  /-- The number of shards of the cache; none without a cache. -/
  cacheShards : Nat
  cacheCapacity : Int
  /-- The order in which an `unordered_map` is iterated. -/
  iterate : List (Nat × Bytes) → List (Nat × Bytes)
  iterate_perm : ∀ es, (iterate es).Perm es

structure BlockController where
  blockAddresses : List Int
  blockAddressesReserve : List Int
  available : LabelSet
  totalAllocatedBlocks : Int
  pages : Int → Bytes
  io : Io
  faults : Nat

namespace BlockController

variable (opt : Options) (bc : BlockController)

def needsExpansion (p_size : Int) : Bool :=
  let available := toSize (toInt bc.blockAddresses.length)
  let total := toSize bc.totalAllocatedBlocks
  opt.belowThreshold available total || available < toSize p_size

def newBlocks (total n : Int) : List Int :=
  (List.range n.toNat).map fun i : Nat => total + (i : Int)

def expandFile (blocksToAdd : Int) : Bool × BlockController :=
  let allowedBlocks := min blocksToAdd (opt.maxBlocks - bc.totalAllocatedBlocks)
  let ok := bc.io.expands.headD true
  let bc := { bc with io := { bc.io with expands := bc.io.expands.tail } }
  if ok then
    let new := newBlocks bc.totalAllocatedBlocks allowedBlocks
    (true,
      { bc with
        blockAddresses := bc.blockAddresses ++ new
        available := (bc.available.addBatch allowedBlocks).insertAll new
        totalAllocatedBlocks := bc.totalAllocatedBlocks + allowedBlocks })
  else (false, bc)

def popBlocks : Nat → BlockController → (Bool × List Int) × BlockController
  | 0, bc => ((true, []), bc)
  | n + 1, bc =>
    match bc.blockAddresses with
    | [] => ((false, []), bc)
    | id :: rest =>
      let popped := popBlocks n
        { bc with
          blockAddresses := rest
          available := bc.available.reset id }
      ((popped.1.1, id :: popped.1.2), popped.2)

def fault : BlockController := { bc with faults := bc.faults + 1 }

def prepare (p_size : Int) : Bool × BlockController :=
  if bc.needsExpansion opt p_size then
    let growBy := max (opt.growthBlocks : Int) p_size
    if bc.totalAllocatedBlocks + growBy ≤ opt.maxBlocks then bc.expandFile opt growBy
    else (true, bc)
  else (true, bc)

def takeBlocks (expanded : Bool × BlockController) (p_size : Int) :
    (Bool × List Int) × BlockController :=
  if expanded.1 then
    let popped := popBlocks p_size.toNat expanded.2
    if popped.1.1 then popped else (popped.1, popped.2.fault)
  else ((false, []), expanded.2.fault)

def getBlocks (p_size : Int) : (Bool × List Int) × BlockController :=
  takeBlocks (bc.prepare opt p_size) p_size

def releaseBlock (id : Int) : BlockController :=
  let inserted := bc.available.insert id
  let bc := { bc with available := inserted.2 }
  if inserted.1 then
    if opt.disableCheckpoint then { bc with blockAddresses := bc.blockAddresses ++ [id] }
    else { bc with blockAddressesReserve := bc.blockAddressesReserve ++ [id] }
  else bc

def releaseBlocks (p_data : List Int) : BlockController :=
  p_data.foldl (fun bc id => bc.releaseBlock opt id) bc

def writePages : List Int → Bytes → (Int → Bytes) → Int → Bytes
  | [], _, pages => pages
  | id :: ids, value, pages =>
    let chunk := value.take PageSize
    writePages ids (value.drop PageSize)
      (Function.update pages id (chunk ++ (pages id).drop chunk.length))

/-- `WriteBlocks` to the blocks `p_data`; a negative `p_size` becomes an excessive number
of requests. -/
def writeBlocks (p_data : List Int) (p_size : Int) (p_value : Bytes) : Bool × BlockController :=
  if p_size < 0 then (false, bc)
  else
    let outcome := bc.io.writes.head?.join
    let bc := { bc with io := { bc.io with writes := bc.io.writes.tail } }
    let ids := p_data.take p_size.toNat
    match outcome with
    | none => (true, { bc with pages := writePages ids p_value bc.pages })
    | some n => (false, { bc with pages := writePages (ids.take n) p_value bc.pages }.fault)

/-- `size` bytes of a page; what was never written reads as zero. -/
def readPage (pages : Int → Bytes) (id : Int) (size : Nat) : Bytes :=
  ((pages id).take size).rightpad size 0

def readPages (pages : Int → Bytes) : List Int → Nat → Bytes
  | [], _ => []
  | id :: ids, size => readPage pages id (min size PageSize) ++
      readPages pages ids (size - PageSize)

def readBlocks (postingSize : Int) (p_data : List Int) : Option Bytes × BlockController :=
  let blockNum := Sptag.pages postingSize.toNat
  if opt.reqs < blockNum then (none, bc)
  else
    let ok := bc.io.reads.headD true
    let bc := { bc with io := { bc.io with reads := bc.io.reads.tail } }
    if ok then (some (readPages bc.pages (p_data.take blockNum) postingSize.toNat), bc)
    else (none, bc.fault)

def reloadReserve : BlockController :=
  { bc with
    blockAddresses := bc.blockAddresses ++ bc.blockAddressesReserve
    blockAddressesReserve := [] }

abbrev free : List Int := bc.blockAddresses ++ bc.blockAddressesReserve

def InRange (id : Int) : Prop := 0 ≤ id ∧ id < bc.totalAllocatedBlocks

/-- The free blocks are apart from those in use and, as far as the label set has rows for
them, the available ones. -/
structure Owns (used : List Int) : Prop where
  partition : Partition bc.InRange bc.free used
  available : bc.available.Marks bc.totalAllocatedBlocks bc.free
  total_nonneg : 0 ≤ bc.totalAllocatedBlocks

variable {bc} {used used' ids : List Int}

theorem Owns.perm (h : bc.Owns used) (hp : used.Perm used') : bc.Owns used' :=
  { h with partition := h.partition.of_used_perm hp }

theorem Owns.sublist (h : bc.Owns used) (hs : used'.Sublist used) : bc.Owns used' :=
  { h with partition := h.partition.sublist (.refl _) hs }

theorem Owns.forget (h : bc.Owns (ids ++ used)) : bc.Owns used :=
  h.sublist (List.sublist_append_right _ _)

@[simp] theorem mem_newBlocks {total n id : Int} :
    id ∈ newBlocks total n ↔ total ≤ id ∧ id < total + n := by
  simp only [newBlocks, List.mem_map, List.mem_range]
  constructor
  · rintro ⟨i, hi, rfl⟩
    omega
  · intro h
    exact ⟨(id - total).toNat, by omega, by omega⟩

theorem newBlocks_nodup (total n : Int) : (newBlocks total n).Nodup :=
  List.nodup_range.map fun a b h => by simpa using h

structure PoolStep (bc bc' : BlockController) : Prop where
  pages : bc'.pages = bc.pages
  writes : bc'.io.writes = bc.io.writes
  reads : bc'.io.reads = bc.io.reads
  total_le : bc.totalAllocatedBlocks ≤ bc'.totalAllocatedBlocks
  reserve : bc'.blockAddressesReserve = bc.blockAddressesReserve

theorem PoolStep.trans {a b c : BlockController} (h : PoolStep a b) (h' : PoolStep b c) :
    PoolStep a c :=
  ⟨h'.pages.trans h.pages, h'.writes.trans h.writes, h'.reads.trans h.reads,
    h.total_le.trans h'.total_le, h'.reserve.trans h.reserve⟩

theorem prepare_spec (p_size : Int) (h : bc.Owns used) :
    (bc.prepare opt p_size).2.Owns used ∧ PoolStep bc (bc.prepare opt p_size).2 ∧
      (bc.prepare opt p_size).2.faults = bc.faults := by
  unfold prepare
  split
  · simp only
    split
    · rename_i hle
      have hallowed : min (max (opt.growthBlocks : Int) p_size)
          (opt.maxBlocks - bc.totalAllocatedBlocks) = max (opt.growthBlocks : Int) p_size :=
        min_eq_left (by omega)
      have hpos : 0 ≤ max (opt.growthBlocks : Int) p_size := by omega
      unfold expandFile
      simp only [hallowed]
      generalize max (opt.growthBlocks : Int) p_size = n at hpos
      split
      · refine ⟨⟨?_, ?_, ?_⟩, ⟨rfl, rfl, rfl, ?_, rfl⟩, rfl⟩
        · have hgrow := h.partition.grow (fun id => 0 ≤ id ∧ id < bc.totalAllocatedBlocks + n)
            (newBlocks bc.totalAllocatedBlocks n) (fun id hid => ⟨hid.1, by have := hid.2; omega⟩)
            (newBlocks_nodup _ _) (fun id hid => ?_)
          · refine hgrow.of_perm ?_
            simp only [free, List.append_assoc]
            exact (List.Perm.append_left _ (List.perm_append_comm_assoc _ _ _))
          · rw [mem_newBlocks] at hid
            have := h.total_nonneg
            exact ⟨by omega, fun hin => by have := hin.2; omega⟩
        · have hmarks := (h.available.addBatch h.total_nonneg hpos).insertAll
            fun id hid => (mem_newBlocks.mp hid).2
          refine hmarks.congr fun id => ?_
          simp only [free, List.mem_append]
          tauto
        · have := h.total_nonneg
          change 0 ≤ bc.totalAllocatedBlocks + n
          omega
        · change bc.totalAllocatedBlocks ≤ bc.totalAllocatedBlocks + n
          omega
      · exact ⟨⟨h.partition, h.available, h.total_nonneg⟩, ⟨rfl, rfl, rfl, le_refl _, rfl⟩, rfl⟩
    · exact ⟨h, ⟨rfl, rfl, rfl, le_refl _, rfl⟩, rfl⟩
  · exact ⟨h, ⟨rfl, rfl, rfl, le_refl _, rfl⟩, rfl⟩

theorem popBlocks_spec (n : Nat) (h : bc.Owns used) :
    (popBlocks n bc).2.Owns ((popBlocks n bc).1.2 ++ used) ∧ PoolStep bc (popBlocks n bc).2 ∧
      (popBlocks n bc).2.faults = bc.faults ∧
      ((popBlocks n bc).1.1 = true → (popBlocks n bc).1.2.length = n) := by
  induction n generalizing bc used with
  | zero => exact ⟨h, ⟨rfl, rfl, rfl, le_refl _, rfl⟩, rfl, fun _ => rfl⟩
  | succ n ih =>
    unfold popBlocks
    split
    · exact ⟨h, ⟨rfl, rfl, rfl, le_refl _, rfl⟩, rfl, fun hf => by cases hf⟩
    · rename_i id rest hq
      have hpart := h.partition
      rw [free, hq, List.cons_append] at hpart
      have hnot : id ∉ rest ++ bc.blockAddressesReserve := fun hmem =>
        hpart.take.not_mem_free List.mem_cons_self hmem
      have h' : Owns { bc with
          blockAddresses := rest
          available := bc.available.reset id } (id :: used) := by
        have hmarks := h.available
        rw [free, hq, List.cons_append] at hmarks
        exact ⟨hpart.take, hmarks.reset hnot, h.total_nonneg⟩
      obtain ⟨hown, hstep, hfaults, hlen⟩ := ih h'
      refine ⟨?_, ?_, hfaults, fun hok => ?_⟩
      · exact hown.perm List.perm_middle
      · have h0 : PoolStep bc { bc with
            blockAddresses := rest
            available := bc.available.reset id } :=
          ⟨rfl, rfl, rfl, le_refl _, rfl⟩
        exact h0.trans hstep
      · simp [hlen hok]

theorem Owns.fault (h : bc.Owns used) : bc.fault.Owns used :=
  ⟨h.partition, h.available, h.total_nonneg⟩

theorem takeBlocks_spec {expanded : Bool × BlockController} (p_size : Int)
    (hown : expanded.2.Owns used) (hstep : PoolStep bc expanded.2)
    (hfaults : expanded.2.faults = bc.faults) :
    (takeBlocks expanded p_size).2.Owns ((takeBlocks expanded p_size).1.2 ++ used) ∧
      PoolStep bc (takeBlocks expanded p_size).2 ∧
      bc.faults ≤ (takeBlocks expanded p_size).2.faults ∧
      ((takeBlocks expanded p_size).1.1 = true →
        (takeBlocks expanded p_size).1.2.length = p_size.toNat) ∧
      ((takeBlocks expanded p_size).2.faults = bc.faults ↔
        (takeBlocks expanded p_size).1.1 = true) := by
  obtain ⟨hown', hstep', hfaults', hlen⟩ := popBlocks_spec p_size.toNat hown
  have htrans := hstep.trans hstep'
  unfold takeBlocks
  simp only
  split
  · split
    · rename_i hok
      exact ⟨hown', htrans, by omega, hlen, by simp [hok]; omega⟩
    · rename_i hbad
      refine ⟨hown'.fault, ⟨htrans.pages, htrans.writes, htrans.reads, htrans.total_le,
        htrans.reserve⟩, ?_, fun hok => absurd hok hbad, iff_of_false ?_ hbad⟩
      · simp only [BlockController.fault]
        omega
      · simp only [BlockController.fault]
        omega
  · refine ⟨hown.fault, ⟨hstep.pages, hstep.writes, hstep.reads, hstep.total_le, hstep.reserve⟩,
      ?_, fun hok => (Bool.false_ne_true hok).elim, iff_of_false ?_ Bool.false_ne_true⟩
    · simp only [BlockController.fault]
      omega
    · simp only [BlockController.fault]
      omega

theorem getBlocks_spec (p_size : Int) (h : bc.Owns used) :
    (bc.getBlocks opt p_size).2.Owns ((bc.getBlocks opt p_size).1.2 ++ used) ∧
      PoolStep bc (bc.getBlocks opt p_size).2 ∧
      bc.faults ≤ (bc.getBlocks opt p_size).2.faults ∧
      ((bc.getBlocks opt p_size).1.1 = true →
        (bc.getBlocks opt p_size).1.2.length = p_size.toNat) ∧
      ((bc.getBlocks opt p_size).2.faults = bc.faults ↔ (bc.getBlocks opt p_size).1.1 = true) := by
  obtain ⟨hown, hstep, hfaults⟩ := prepare_spec opt p_size h
  exact takeBlocks_spec p_size hown hstep hfaults

theorem popBlocks_enough {n : Nat} (h : n ≤ bc.blockAddresses.length) :
    (popBlocks n bc).1.1 = true ∧
      (popBlocks n bc).2.blockAddresses.length = bc.blockAddresses.length - n := by
  induction n generalizing bc with
  | zero => exact ⟨rfl, rfl⟩
  | succ n ih =>
    unfold popBlocks
    split
    · rename_i hq
      rw [hq] at h
      exact absurd h (Nat.not_succ_le_zero n)
    · rename_i id rest hq
      rw [hq, List.length_cons] at h ⊢
      obtain ⟨hok, hlen⟩ := @ih
        { bc with
          blockAddresses := rest
          available := bc.available.reset id } (Nat.le_of_succ_le_succ h)
      exact ⟨hok, hlen.trans (Nat.add_sub_add_right _ 1 n).symm⟩

theorem prepare_reliable (p_size : Int) (he : bc.io.expands = []) :
    (bc.prepare opt p_size).1 = true ∧
      bc.blockAddresses.length ≤ (bc.prepare opt p_size).2.blockAddresses.length := by
  unfold prepare
  split
  · simp only
    split
    · unfold expandFile
      rw [he]
      simp
    · exact ⟨rfl, le_refl _⟩
  · exact ⟨rfl, le_refl _⟩

theorem getBlocks_enough {p_size : Int} (he : bc.io.expands = [])
    (hn : p_size.toNat ≤ bc.blockAddresses.length) :
    (bc.getBlocks opt p_size).1.1 = true ∧
      bc.blockAddresses.length - p_size.toNat ≤
        (bc.getBlocks opt p_size).2.blockAddresses.length := by
  obtain ⟨hok, hlen⟩ := prepare_reliable opt p_size he
  obtain ⟨hpop, hlen'⟩ := popBlocks_enough (hn.trans hlen)
  unfold getBlocks takeBlocks
  simp only
  rw [if_pos hok, if_pos hpop]
  exact ⟨hpop, by omega⟩

theorem releaseBlock_spec {id : Int} (h : bc.Owns (id :: used)) :
    (bc.releaseBlock opt id).Owns used ∧ (bc.releaseBlock opt id).pages = bc.pages ∧
      (bc.releaseBlock opt id).io = bc.io ∧ (bc.releaseBlock opt id).faults = bc.faults ∧
      (bc.releaseBlock opt id).totalAllocatedBlocks = bc.totalAllocatedBlocks := by
  have hused : bc.available.contains id = false := by
    by_contra hne
    exact h.partition.not_mem_free List.mem_cons_self
      (h.available.mem id (Bool.not_eq_false _ ▸ hne)).1
  have hrange : id < bc.totalAllocatedBlocks :=
    (h.partition.mem id (List.mem_append_right _ List.mem_cons_self)).2
  have hmarks := h.available.insert hrange
  unfold releaseBlock
  simp only [bc.available.insert_fresh hused, if_true]
  split
  · have hp : (bc.blockAddresses ++ [id] ++ bc.blockAddressesReserve).Perm (id :: bc.free) := by
      rw [List.append_assoc]
      exact List.perm_middle
    exact ⟨⟨h.partition.give.of_perm (hp.symm.append_right _),
      hmarks.congr fun _ => hp.symm.mem_iff, h.total_nonneg⟩, rfl, rfl, rfl, rfl⟩
  · have hp : (bc.blockAddresses ++ (bc.blockAddressesReserve ++ [id])).Perm (id :: bc.free) := by
      rw [← List.append_assoc]
      exact List.perm_append_singleton _ _
    exact ⟨⟨h.partition.give.of_perm (hp.symm.append_right _),
      hmarks.congr fun _ => hp.symm.mem_iff, h.total_nonneg⟩, rfl, rfl, rfl, rfl⟩

theorem releaseBlocks_spec (h : bc.Owns (ids ++ used)) :
    (bc.releaseBlocks opt ids).Owns used ∧ (bc.releaseBlocks opt ids).pages = bc.pages ∧
      (bc.releaseBlocks opt ids).io = bc.io ∧ (bc.releaseBlocks opt ids).faults = bc.faults ∧
      (bc.releaseBlocks opt ids).totalAllocatedBlocks = bc.totalAllocatedBlocks := by
  induction ids generalizing bc with
  | nil => exact ⟨h, rfl, rfl, rfl, rfl⟩
  | cons id ids ih =>
    obtain ⟨hown, hp, hio, hf, ht⟩ := releaseBlock_spec opt h
    obtain ⟨hown', hp', hio', hf', ht'⟩ := ih hown
    exact ⟨hown', hp'.trans hp, hio'.trans hio, hf'.trans hf, ht'.trans ht⟩

theorem reloadReserve_owns (h : bc.Owns used) : bc.reloadReserve.Owns used := by
  have hfree : bc.reloadReserve.free = bc.free := List.append_nil _
  refine ⟨?_, ?_, h.total_nonneg⟩
  · rw [hfree]
    exact h.partition
  · rw [hfree]
    exact h.available

structure SamePool (bc bc' : BlockController) : Prop where
  blockAddresses : bc'.blockAddresses = bc.blockAddresses
  reserve : bc'.blockAddressesReserve = bc.blockAddressesReserve
  available : bc'.available = bc.available
  total : bc'.totalAllocatedBlocks = bc.totalAllocatedBlocks

theorem SamePool.owns {bc' : BlockController} (hs : SamePool bc bc') (h : bc.Owns used) :
    bc'.Owns used := by
  obtain ⟨hq, hr, ha, ht⟩ := hs
  refine ⟨?_, ?_, ht ▸ h.total_nonneg⟩
  · have hrange : bc'.InRange = bc.InRange := by
      funext id
      rw [InRange, InRange, ht]
    rw [free, hq, hr, hrange]
    exact h.partition
  · rw [ha, ht, free, hq, hr]
    exact h.available

theorem writePages_of_not_mem {id : Int} {value : Bytes} {pages : Int → Bytes} (h : id ∉ ids) :
    writePages ids value pages id = pages id := by
  induction ids generalizing value pages with
  | nil => rfl
  | cons a ids ih =>
    obtain ⟨hne, hmem⟩ := not_or.mp (mt List.mem_cons.mpr h)
    rw [writePages, ih hmem, Function.update_of_ne hne]

theorem readPages_congr {pages pages' : Int → Bytes} (h : ∀ id ∈ ids, pages' id = pages id)
    (size : Nat) : readPages pages' ids size = readPages pages ids size := by
  induction ids generalizing size with
  | nil => rfl
  | cons id ids ih =>
    obtain ⟨hid, hids⟩ := List.forall_mem_cons.mp h
    rw [readPages, readPages, readPage, readPage, hid, ih hids]

theorem readPages_append (pages : Int → Bytes) (ids ids' : List Int) {size : Nat}
    (h : ids.length * PageSize ≤ size) :
    readPages pages (ids ++ ids') size =
      readPages pages ids (ids.length * PageSize) ++
        readPages pages ids' (size - ids.length * PageSize) := by
  induction ids generalizing size with
  | nil => simp [readPages]
  | cons id ids ih =>
    rw [List.length_cons, Nat.add_mul, Nat.one_mul] at h ⊢
    have hsub : size - PageSize - ids.length * PageSize =
        size - (ids.length * PageSize + PageSize) := by
      omega
    rw [List.cons_append, readPages, readPages, min_eq_right (by omega), min_eq_right (by omega),
      ih (by omega), Nat.add_sub_cancel, List.append_assoc, hsub]

theorem readPages_length_of_le (pages : Int → Bytes) (ids : List Int) {size : Nat}
    (h : size ≤ ids.length * PageSize) : (readPages pages ids size).length = size := by
  induction ids generalizing size with
  | nil =>
    rw [List.length_nil, Nat.zero_mul] at h
    exact (Nat.le_zero.mp h).symm
  | cons id ids ih =>
    rw [List.length_cons, Nat.add_mul, Nat.one_mul] at h
    rw [readPages, List.length_append, ih (Nat.sub_le_iff_le_add.mpr h), readPage]
    simp only [List.rightpad, List.length_append, List.length_take, List.length_replicate]
    omega

@[simp] theorem readPages_length (pages : Int → Bytes) (ids : List Int) :
    (readPages pages ids (ids.length * PageSize)).length = ids.length * PageSize :=
  readPages_length_of_le pages ids (Nat.le_refl _)

theorem readPages_writePages {value : Bytes} (hnodup : ids.Nodup)
    (hlen : ids.length = Sptag.pages value.length) (pages : Int → Bytes) :
    readPages (writePages ids value pages) ids value.length = value := by
  induction ids generalizing value pages with
  | nil =>
    have hnil : value.length = 0 := by
      rw [List.length_nil, pages_eq] at hlen
      omega
    rw [List.length_eq_zero_iff.mp hnil]
    rfl
  | cons id ids ih =>
    obtain ⟨hmem, hnodup⟩ := List.nodup_cons.mp hnodup
    have hdrop : ids.length = Sptag.pages (value.drop PageSize).length := by
      rw [List.length_cons, pages_eq] at hlen
      rw [List.length_drop, pages_eq, PageSize]
      omega
    have hpage : readPage (writePages (id :: ids) value pages) id (min value.length PageSize) =
        value.take PageSize := by
      rw [readPage, writePages, writePages_of_not_mem hmem, Function.update_self,
        List.take_append_of_le_length (by simp [min_comm]),
          List.take_of_length_le (by simp [min_comm])]
      simp [List.rightpad, min_comm]
    have hrest := ih hnodup hdrop
      (Function.update pages id (value.take PageSize ++
        (pages id).drop (value.take PageSize).length))
    rw [readPages, hpage]
    rw [List.length_drop] at hrest
    rw [writePages, hrest, List.take_append_drop]

theorem writeBlocks_spec (bc : BlockController) (p_data : List Int) (p_size : Int)
    (p_value : Bytes) :
    SamePool bc (bc.writeBlocks p_data p_size p_value).2 ∧
      (bc.writeBlocks p_data p_size p_value).2.io.reads = bc.io.reads ∧
      bc.faults ≤ (bc.writeBlocks p_data p_size p_value).2.faults ∧
      (0 ≤ p_size → ((bc.writeBlocks p_data p_size p_value).2.faults = bc.faults ↔
        (bc.writeBlocks p_data p_size p_value).1 = true)) ∧
      (bc.writeBlocks p_data p_size p_value).2.io.writes.Sublist bc.io.writes ∧
      (∀ id ∉ p_data.take p_size.toNat,
        (bc.writeBlocks p_data p_size p_value).2.pages id = bc.pages id) ∧
      ((bc.writeBlocks p_data p_size p_value).1 = true →
        (bc.writeBlocks p_data p_size p_value).2.pages =
          writePages (p_data.take p_size.toNat) p_value bc.pages) ∧
      (0 ≤ p_size → (∀ o ∈ bc.io.writes, o = none) →
        (bc.writeBlocks p_data p_size p_value).1 = true) := by
  unfold writeBlocks
  split
  · rename_i hneg
    exact ⟨⟨rfl, rfl, rfl, rfl⟩, rfl, le_refl _, fun h0 => absurd hneg (not_lt.mpr h0), .refl _,
      fun _ _ => rfl, fun hok => (Bool.false_ne_true hok).elim,
      fun h0 => absurd hneg (not_lt.mpr h0)⟩
  · simp only
    split
    · refine ⟨⟨rfl, rfl, rfl, rfl⟩, rfl, le_refl _, fun _ =>
        iff_of_true rfl rfl, List.tail_sublist _,
        fun id hid => writePages_of_not_mem hid, fun _ => rfl, fun _ _ => rfl⟩
    · rename_i n hn
      refine ⟨⟨rfl, rfl, rfl, rfl⟩, rfl, Nat.le_succ _, fun _ => iff_of_false (Nat.succ_ne_self _)
        Bool.false_ne_true, List.tail_sublist _, fun id hid => ?_,
        fun hok => (Bool.false_ne_true hok).elim, fun _ hall => ?_⟩
      · exact writePages_of_not_mem fun hmem => hid (List.mem_of_mem_take hmem)
      · cases hw : bc.io.writes with
        | nil => simp [hw] at hn
        | cons o os =>
          rw [hw, List.head?_cons, Option.join_some] at hn
          have := hall o (by simp [hw])
          rw [this] at hn
          cases hn

theorem readBlocks_spec (bc : BlockController) (postingSize : Int) (p_data : List Int) :
    SamePool bc (bc.readBlocks opt postingSize p_data).2 ∧
      (bc.readBlocks opt postingSize p_data).2.pages = bc.pages ∧
      (bc.readBlocks opt postingSize p_data).2.io.writes = bc.io.writes ∧
      bc.faults ≤ (bc.readBlocks opt postingSize p_data).2.faults ∧
      ((bc.readBlocks opt postingSize p_data).2.faults = bc.faults →
        Sptag.pages postingSize.toNat ≤ opt.reqs →
        (bc.readBlocks opt postingSize p_data).1 =
          some (readPages bc.pages (p_data.take (Sptag.pages postingSize.toNat))
            postingSize.toNat)) := by
  unfold readBlocks
  simp only
  split
  · rename_i hover
    exact ⟨⟨rfl, rfl, rfl, rfl⟩, rfl, rfl, le_refl _, fun _ hle => absurd hover (not_lt.mpr hle)⟩
  · split
    · exact ⟨⟨rfl, rfl, rfl, rfl⟩, rfl, rfl, le_refl _, fun _ _ => rfl⟩
    · exact ⟨⟨rfl, rfl, rfl, rfl⟩, rfl, rfl, Nat.le_succ _, fun h => (Nat.succ_ne_self _ h).elim⟩

end BlockController

end Sptag.SPANN
