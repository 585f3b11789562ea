import Sptag.Common.MetadataSet
import Sptag.Lib.Codec

/-! `src/Core/MetadataSet.cpp`: the metadata in memory, saved to a file of bytes and a file of
offsets and loaded from them, whole or in part. -/

namespace Sptag

open Lib Helper

structure MetadataFiles where
  p_metaFile : Bytes
  p_metaindexFile : Bytes

def MetadataSet.mem? : MetadataSet → Option MemMetadataSet
  | mem m => some m
  | file _ => none

namespace MemMetadataSet

/-- `granted` is the capacity of the vector of blocks, `fresh` what a new block holds. -/
def new (granted fresh grow : Nat → Nat) (p_blockSize p_capacity : Nat) :
    Option MemMetadataSet := do
  let m_offsets ← LockFreeVector.reserve granted p_blockSize p_capacity
  let (_, m_offsets) ← m_offsets.pushBack fresh grow 0
  return { m_offsets := m_offsets, m_count := 0, m_metadataHolder := [], m_newdata := [] }

def saveMetadata (m : MemMetadataSet) : Option MetadataFiles := do
  let offsets ← (List.range (m.count + 1)).mapM m.offset
  let base ← m.offset m.m_count
  let old ← readAt m.m_metadataHolder base 0
  let index := leBytes 4 m.count ++ offsets.flatMap (leBytes 8)
  if m.m_newdata ≠ [] then do
    let last ← m.offset m.count
    let added ← readAt m.m_newdata (last - base) 0
    return ⟨old ++ added, index⟩
  else return ⟨old, index⟩

def readOffsets (n : Nat) : Reader UInt8 (List Nat) :=
  (List.range n).mapM fun _ => leVal <$> readFront 8

def initRange (fresh grow : Nat → Nat) (m_offsets : LockFreeVector Nat) (p_metaFile : Bytes)
    (tmp : List Nat) (start count : Int) : Option (Except ErrorCode MemMetadataSet) :=
  let m_count : Int := tmp.length - 1
  let start := min start m_count
  let count := if count < 0 ∨ m_count - start < count then m_count - start else count
  -- an access before the first offset
  if start < 0 then none
  else do
    let offset ← tmp[start.toNat]?
    let part := (tmp.drop start.toNat).take (count.toNat + 1)
    let part := if 0 < offset then part.map fun o : Nat => toSize (o - offset) else part
    let (_, m_offsets) ← m_offsets.assign fresh grow part
    let bytes ← Blocks.get? m_offsets.blockSizeEx m_offsets.blocks count.toNat
    let holder := (p_metaFile.drop offset).take bytes
    if holder.length ≠ bytes then return .error .diskIOFail
    else
      return .ok ⟨m_offsets, count.toNat, holder, []⟩

def init (granted fresh grow : Nat → Nat) (files : MetadataFiles) (p_blockSize p_capacity : Nat)
    (start count : Int) : Option (Except ErrorCode MemMetadataSet) :=
  match readFront 4 files.p_metaindexFile with
  | none => some (.error .diskIOFail)
  | some (head, rest) =>
    -- such a count is negative
    if 2 ^ 31 ≤ leVal head then none
    else do
      let m_offsets ← LockFreeVector.reserve granted p_blockSize p_capacity
      match readOffsets (leVal head + 1) rest with
      | none => return .error .diskIOFail
      | some (tmp, _) => initRange fresh grow m_offsets files.p_metaFile tmp start count

inductive Op where
  | add (data : Bytes)
  /-- `entries` are those of the set `data`. -/
  | addBatch (data : MetadataSet) (entries : List Bytes)
  /-- `SaveMetadata`, and a set that is constructed from the files takes the place of this one. -/
  | reload (p_blockSize p_capacity : Nat) (start count : Int)

def step (granted fresh grow : Nat → Nat) (m : MemMetadataSet) : Op → Option MemMetadataSet
  | .add data => m.add fresh grow data
  | .addBatch data _ => (data.addBatch fresh grow (.mem m)).bind MetadataSet.mem?
  | .reload p_blockSize p_capacity start count => do
    let files ← m.saveMetadata
    let loaded ← init granted fresh grow files p_blockSize p_capacity start count
    loaded.toOption

def ends (metas : List Bytes) : List Nat :=
  (List.range (metas.length + 1)).map fun i => (metas.take i).flatten.length

structure Holds (capacity : Nat) (m : MemMetadataSet) (metas : List Bytes) : Prop where
  offsets : m.m_offsets.Shows capacity (ends metas)
  count_le : m.m_count ≤ metas.length
  holder : m.m_metadataHolder = (metas.take m.m_count).flatten
  newdata : m.m_newdata = (metas.drop m.m_count).flatten

variable {metas entries : List Bytes} {m : MemMetadataSet} {capacity start count i : Nat}

@[simp] theorem ends_length : (ends metas).length = metas.length + 1 := by simp [ends]

theorem ends_get (hi : i ≤ metas.length) :
    (ends metas)[i]? = some (metas.take i).flatten.length := by
  rw [ends, List.getElem?_map, List.getElem?_range (Nat.lt_succ_of_le hi), Option.map_some]

theorem ends_getD (hi : i ≤ metas.length) :
    (ends metas).getD i 0 = (metas.take i).flatten.length := by
  rw [List.getD_eq_getElem?_getD, ends_get hi, Option.getD_some]

theorem ends_snoc (data : Bytes) :
    ends (metas ++ [data]) = ends metas ++ [metas.flatten.length + data.length] := by
  rw [ends, List.length_append, List.length_singleton, List.range_succ, List.map_append, ends]
  refine congrArg₂ (· ++ ·) (List.map_congr_left fun i hi => ?_) ?_
  · rw [List.take_append_of_le_length (Nat.le_of_lt_succ (List.mem_range.mp hi))]
  · rw [List.map_singleton, List.take_of_length_le (by simp)]
    simp

theorem le_of_mem_ends {o : Nat} (ho : o ∈ ends metas) : o ≤ metas.flatten.length := by
  obtain ⟨i, -, rfl⟩ := List.mem_map.mp ho
  conv_rhs => rw [← List.take_append_drop i metas, List.flatten_append, List.length_append]
  exact Nat.le_add_right ..

theorem ends_part (h : start + count ≤ metas.length) :
    ((ends metas).drop start).take (count + 1) =
      (ends ((metas.drop start).take count)).map ((metas.take start).flatten.length + ·) := by
  have hpart : ((metas.drop start).take count).length = count := by
    rw [List.length_take, List.length_drop]
    omega
  refine List.ext_getElem? fun i => ?_
  by_cases hi : i ≤ count
  · rw [List.getElem?_take_of_lt (Nat.lt_succ_of_le hi), List.getElem?_drop,
      ends_get (by omega), List.getElem?_map, ends_get (hi.trans_eq hpart.symm), Option.map_some,
      List.take_take, min_eq_left hi, List.take_add, List.flatten_append, List.length_append]
  · rw [List.getElem?_eq_none (by simp; omega), List.getElem?_eq_none (by simp; omega)]

theorem Holds.shows (h : Holds capacity m metas) : (MetadataSet.mem m).Shows metas := by
  refine ⟨ends metas, capacity, h.offsets, ends_length, h.count_le, fun i hi =>
    ?_, fun i hi hold => ?_,
    h.newdata⟩
  · rw [ends_getD hi, ends_getD hi.le, List.take_succ_eq_append_getElem hi, List.flatten_append,
      List.length_append]
    simp
  · rw [ends_getD hi.le, h.holder]
    refine ⟨(metas.take i).flatten, ((metas.take m.m_count).drop (i + 1)).flatten, ?_, rfl⟩
    have hlt : i < (metas.take m.m_count).length := by
      rw [List.length_take]
      omega
    calc (metas.take m.m_count).flatten
        = ((metas.take m.m_count).take i ++ (metas.take m.m_count)[i] ::
            (metas.take m.m_count).drop (i + 1)).flatten := by
          rw [← List.drop_eq_getElem_cons hlt, List.take_append_drop]
      _ = _ := by
          rw [List.take_take, min_eq_left hold.le, List.getElem_take, List.flatten_append,
            List.flatten_cons, List.append_assoc]

variable (granted fresh grow : Nat → Nat) {p_blockSize : Nat}

theorem new_holds (hblock : Blocks.ceilLog2 p_blockSize < 31) (hpos : 1 ≤ capacity)
    (hcap : capacity < 2 ^ 64) :
    ∃ m, new granted fresh grow p_blockSize capacity = some m ∧ Holds capacity m [] := by
  obtain ⟨v, hv⟩ : ∃ v, LockFreeVector.reserve (T := Nat) granted p_blockSize capacity = some v :=
    ⟨_, if_neg hblock.not_ge⟩
  have hshows := LockFreeVector.reserve_shows hcap hv
  obtain ⟨v', hv', hnew⟩ := hshows.pushBack fresh grow (hshows.maxSize_eq ▸ hpos) 0
  have hone : ([] : List Nat).length + [0].length ≤ capacity := hpos
  rw [LockFreeVector.extend, if_pos hone] at hv' hnew
  refine ⟨⟨v', 0, [], []⟩, ?_, hnew, le_rfl, rfl, rfl⟩
  simp only [new, hv, hv', Option.bind_eq_bind, Option.bind_some]
  rfl

theorem Holds.add (h : Holds capacity m metas) (hfits : metas.length + 2 ≤ capacity)
    (data : Bytes) :
    ∃ m', m.add fresh grow data = some m' ∧ Holds capacity m' (metas ++ [data]) := by
  have hback : (ends metas)[(ends metas).length - 1]? = some metas.flatten.length := by
    rw [ends_length, Nat.add_sub_cancel, ends_get le_rfl, List.take_length]
  obtain ⟨v', hv', hnew⟩ := m.add_spec fresh grow h.offsets hback data
  have hroom : (ends metas).length + [metas.flatten.length + data.length].length ≤ capacity := by
    rw [ends_length]
    exact hfits
  rw [LockFreeVector.extend, if_pos hroom] at hv' hnew
  refine ⟨_, hv', ends_snoc data ▸ hnew, h.count_le.trans (by simp), ?_, ?_⟩
  · rw [List.take_append_of_le_length h.count_le]
    exact h.holder
  · rw [List.drop_append_of_le_length h.count_le, List.flatten_append, ← h.newdata]
    simp

theorem Holds.adds (h : Holds capacity m metas)
    (hfits : metas.length + entries.length + 1 ≤ capacity) :
    ∃ m', entries.foldlM (MetadataSet.add fresh grow) (.mem m) = some (.mem m') ∧
      Holds capacity m' (metas ++ entries) := by
  induction entries generalizing m metas with
  | nil => exact ⟨m, rfl, by rwa [List.append_nil]⟩
  | cons data entries ih =>
    rw [List.length_cons] at hfits
    obtain ⟨m', hm', hnew⟩ := h.add fresh grow (by omega) data
    obtain ⟨m'', hm'', hall⟩ := ih hnew (by rw [List.length_append, List.length_singleton]; omega)
    refine ⟨m'', ?_, by rwa [List.append_assoc] at hall⟩
    rw [List.foldlM_cons, MetadataSet.add, hm']
    exact hm''

def files (metas : List Bytes) : MetadataFiles :=
  ⟨metas.flatten, leBytes 4 metas.length ++ (ends metas).flatMap (leBytes 8)⟩

theorem Holds.offset_eq (h : Holds capacity m metas) (hi : i ≤ metas.length) :
    m.offset i = some (metas.take i).flatten.length :=
  (h.offsets.holds i (by rw [ends_length]; omega)).trans (ends_get hi)

theorem Holds.saveMetadata_eq (h : Holds capacity m metas) :
    m.saveMetadata = some (files metas) := by
  have hcount : m.count = metas.length := h.shows.count
  have hoffsets : (List.range (metas.length + 1)).mapM m.offset = some (ends metas) :=
    mapM_eq_some fun i hi => h.offset_eq (Nat.le_of_lt_succ (List.mem_range.mp hi))
  have hold : readAt m.m_metadataHolder (metas.take m.m_count).flatten.length 0 =
      some (metas.take m.m_count).flatten := by
    rw [h.holder]
    exact HoldsAt.readAt_eq ⟨[], [], by simp, rfl⟩
  have hsplit : metas.flatten = (metas.take m.m_count).flatten ++ m.m_newdata := by
    rw [h.newdata, ← List.flatten_append, List.take_append_drop]
  simp only [saveMetadata, hcount, hoffsets, h.offset_eq h.count_le, hold, Option.bind_eq_bind,
    Option.bind_some]
  by_cases hnew : m.m_newdata = []
  · rw [if_neg (not_not.mpr hnew), files, hsplit, hnew, List.append_nil]
    rfl
  · have hadded : readAt m.m_newdata
        (metas.flatten.length - (metas.take m.m_count).flatten.length) 0 = some m.m_newdata := by
      rw [hsplit, List.length_append, Nat.add_sub_cancel_left]
      exact HoldsAt.readAt_eq ⟨[], [], by simp, rfl⟩
    rw [if_pos hnew, h.offset_eq le_rfl, List.take_length, Option.bind_some, hadded,
      Option.bind_some, files, hsplit]
    rfl

def part (metas : List Bytes) (start count : Int) : List Bytes :=
  let rest := metas.drop start.toNat
  if count < 0 then rest else rest.take count.toNat

theorem readOffsets_eq {offsets : List Nat} (h : ∀ o ∈ offsets, o < 2 ^ 64) :
    readOffsets offsets.length (offsets.flatMap (leBytes 8)) = some (offsets, []) := by
  have hreads : Reads (readOffsets offsets.length) (offsets.flatMap (leBytes 8))
      (offsets.map fun o => leVal (leBytes 8 o)) :=
    reads_mapM (List.length_range) fun _ _ o _ => (reads_readFront (leBytes_length 8 o)).map leVal
  have hsame : offsets.map (fun o => leVal (leBytes 8 o)) = offsets :=
    (List.map_congr_left fun o ho => leVal_leBytes_of_lt (h o ho)).trans (List.map_id _)
  have hall := hreads []
  rwa [List.append_nil, hsame] at hall

theorem part_eq (metas : List Bytes) {start : Int} (hstart : 0 ≤ start) (count : Int) :
    ∃ s c : Nat, min start metas.length = s ∧
      (if count < 0 ∨ (metas.length : Int) - s <
        count then (metas.length : Int) - s else count) = c ∧
      s + c ≤ metas.length ∧ part metas start count = (metas.drop s).take c := by
  obtain ⟨n, rfl⟩ := Int.eq_ofNat_of_zero_le hstart
  have hdrop : metas.drop n = metas.drop (min n metas.length) := by
    rcases le_total n metas.length with hle | hle
    · rw [min_eq_left hle]
    · rw [min_eq_right hle, List.drop_of_length_le hle, List.drop_length]
  have hmin : min (n : Int) metas.length = (min n metas.length : Nat) := by omega
  have hrest : (metas.drop (min n metas.length)).length = metas.length - min n metas.length :=
    List.length_drop
  by_cases hall : count < 0 ∨ (metas.length : Int) - (min n metas.length : Nat) < count
  · refine ⟨min n metas.length, metas.length - min n metas.length, hmin, ?_, by omega, ?_⟩
    · rw [if_pos hall]
      omega
    · rw [part, Int.toNat_natCast, hdrop, List.take_of_length_le hrest.le]
      rcases hall with hneg | hlong
      · exact if_pos hneg
      · rw [List.take_of_length_le (by omega), ite_self]
  · rw [not_or, not_lt, not_lt] at hall
    refine ⟨min n metas.length, count.toNat, hmin, ?_, by omega, ?_⟩
    · rw [if_neg (by omega), Int.toNat_of_nonneg hall.1]
    · rw [part, if_neg hall.1.not_gt, Int.toNat_natCast, hdrop]

theorem initRange_spec {v : LockFreeVector Nat} (hv : v.Shows capacity [])
    (hbytes : metas.flatten.length < 2 ^ 64) {start count : Int} (hstart : 0 ≤ start)
    (hfits : (part metas start count).length + 1 ≤ capacity) :
    ∃ m, initRange fresh grow v metas.flatten (ends metas) start count = some (.ok m) ∧
      Holds capacity m (part metas start count) := by
  obtain ⟨s, c, hs, hc, hle, hpart⟩ := part_eq metas hstart count
  obtain ⟨sub, hsub⟩ : ∃ sub, sub = (metas.drop s).take c := ⟨_, rfl⟩
  rw [hpart, ← hsub] at hfits ⊢
  have hsublen : sub.length = c := by
    rw [hsub, List.length_take, List.length_drop]
    omega
  have hsplit : metas.flatten = (metas.take s).flatten ++ (sub.flatten ++
      ((metas.drop s).drop c).flatten) := by
    rw [← List.flatten_append, ← List.flatten_append, hsub, List.take_append_drop,
      List.take_append_drop]
  have hrebase : (if 0 < (metas.take s).flatten.length then
      (((ends metas).drop s).take (c + 1)).map fun o : Nat =>
        toSize (o - ((metas.take s).flatten.length : Nat))
      else ((ends metas).drop s).take (c + 1)) = ends sub := by
    rw [ends_part hle, ← hsub]
    by_cases hbase : 0 < (metas.take s).flatten.length
    · rw [if_pos hbase, List.map_map]
      refine (List.map_congr_left fun o ho => ?_).trans (List.map_id _)
      have hlt : o < 2 ^ 64 := by
        refine (le_of_mem_ends ho).trans_lt (lt_of_le_of_lt ?_ hbytes)
        rw [hsplit, List.length_append, List.length_append]
        omega
      rw [Function.comp_apply, Nat.cast_add, add_sub_cancel_left, toSize_of_lt hlt, id]
    · rw [if_neg hbase, Nat.eq_zero_of_not_pos hbase]
      exact (List.map_congr_left fun o _ => Nat.zero_add o).trans (List.map_id _)
  have hroom : ([] : List Nat).length + (ends sub).length ≤ capacity := by
    rw [List.length_nil, Nat.zero_add, ends_length]
    exact hfits
  have hsize : (ends sub).length ≤ v.maxSize := by
    rw [hv.maxSize_eq, ends_length]
    exact hfits
  obtain ⟨result, v', hv', hresult, hafter⟩ :=
    hv.assign fresh grow (hsize.trans_lt hv.maxSize_lt)
  obtain rfl := hresult.mpr hsize
  have hnew := hafter rfl
  rw [LockFreeVector.extend, if_pos hroom, List.nil_append] at hnew
  have hlast : Blocks.get? v'.blockSizeEx v'.blocks c = some sub.flatten.length := by
    rw [hnew.holds c (by rw [ends_length, hsublen]; exact Nat.lt_succ_self c),
      ends_get hsublen.ge, ← hsublen, List.take_length]
  have hholder : (metas.flatten.drop (metas.take s).flatten.length).take sub.flatten.length =
      sub.flatten := by
    rw [hsplit, List.drop_left, List.take_left]
  refine ⟨⟨v', c, sub.flatten, []⟩, ?_, hnew, hsublen.ge, ?_, ?_⟩
  · have hcount : ((ends metas).length : Int) - 1 = metas.length := by
      rw [ends_length]
      omega
    simp only [initRange, hcount, hs, hc, Int.toNat_natCast, if_neg (Int.natCast_nonneg s).not_gt,
      ends_get (Nat.le_of_add_right_le hle), hrebase, hv', hlast, hholder, Option.bind_eq_bind,
      Option.bind_some]
    exact if_neg (not_not.mpr rfl)
  · rw [← hsublen, List.take_length]
  · rw [← hsublen, List.drop_length]
    rfl

theorem init_spec (hlen : metas.length < 2 ^ 31) (hbytes : metas.flatten.length < 2 ^ 64)
    (hblock : Blocks.ceilLog2 p_blockSize < 31) (hcap : capacity < 2 ^ 64) {start count : Int}
    (hstart : 0 ≤ start) (hfits : (part metas start count).length + 1 ≤ capacity) :
    ∃ m, init granted fresh grow (files metas) p_blockSize capacity start count = some (.ok m) ∧
      Holds capacity m (part metas start count) := by
  have hhead : leVal (leBytes 4 metas.length) = metas.length :=
    leVal_leBytes_of_lt (hlen.trans (by decide))
  have hends : readOffsets (metas.length + 1) ((ends metas).flatMap (leBytes 8)) =
      some (ends metas, []) := by
    rw [← ends_length]
    exact readOffsets_eq fun o ho => (le_of_mem_ends ho).trans_lt hbytes
  obtain ⟨v, hv⟩ : ∃ v, LockFreeVector.reserve (T := Nat) granted p_blockSize capacity = some v :=
    ⟨_, if_neg hblock.not_ge⟩
  obtain ⟨m, hm, hholds⟩ := initRange_spec fresh grow (LockFreeVector.reserve_shows hcap hv) hbytes
    hstart hfits
  refine ⟨m, ?_, hholds⟩
  simp only [init, files, readFront_eq (leBytes_length 4 _), hhead, if_neg hlen.not_ge, hv, hends,
    Option.bind_eq_bind, Option.bind_some, hm]

structure Entries where
  capacity : Nat
  metas : List Bytes

def Entries.step (s : Entries) : Op → Entries
  | .add data => ⟨s.capacity, s.metas ++ [data]⟩
  | .addBatch _ entries => ⟨s.capacity, s.metas ++ entries⟩
  | .reload _ p_capacity start count => ⟨p_capacity, part s.metas start count⟩

/-- The capacity takes the offsets, of which there is one more than entries; ids are numbers of 31
bits and offsets of 64. -/
structure Entries.Within (s : Entries) : Prop where
  offsets : s.metas.length + 1 ≤ s.capacity
  capacity : s.capacity < 2 ^ 64
  ids : s.metas.length < 2 ^ 31
  bytes : s.metas.flatten.length < 2 ^ 64

def Op.Given : Op → Prop
  | .add _ => True
  | .addBatch data entries => data.Gives entries
  | .reload p_blockSize _ start _ => Blocks.ceilLog2 p_blockSize < 31 ∧ 0 ≤ start

theorem Holds.step {s : Entries} (h : Holds s.capacity m s.metas) (hs : s.Within) {op : Op}
    (hop : op.Given) (hnext : (s.step op).Within) :
    ∃ m', m.step granted fresh grow op = some m' ∧
      Holds (s.step op).capacity m' (s.step op).metas := by
  have hoffsets := hnext.offsets
  cases op with
  | add data =>
    refine h.add fresh grow ?_ data
    simpa only [Entries.step, List.length_append, List.length_singleton] using hoffsets
  | addBatch data entries =>
    simp only [Entries.step, List.length_append] at hoffsets
    obtain ⟨m', hm', hholds⟩ := h.adds fresh grow hoffsets
    refine ⟨m', ?_, hholds⟩
    rw [MemMetadataSet.step, hop.addBatch_eq fresh grow, hm']
    rfl
  | reload p_blockSize p_capacity start count =>
    obtain ⟨m', hm', hholds⟩ := init_spec granted fresh grow hs.ids hs.bytes hop.1 hnext.capacity
      hop.2 hoffsets
    refine ⟨m', ?_, hholds⟩
    dsimp only [Entries.step] at hm'
    simp only [MemMetadataSet.step, h.saveMetadata_eq, hm', Option.bind_eq_bind, Option.bind_some]
    rfl

/-- A set in memory is the list of what was added to it and to the sets it was loaded from. -/
theorem run_gives (hblock : Blocks.ceilLog2 p_blockSize < 31)
    (hstart : (Entries.mk capacity []).Within) {ops : List Op}
    (hops : Along Entries.step (fun s op => op.Given ∧ (s.step op).Within) ⟨capacity, []⟩ ops) :
    ∃ m m', new granted fresh grow p_blockSize capacity = some m ∧
      ops.foldlM (step granted fresh grow) m = some m' ∧
      (MetadataSet.mem m').Gives (run Entries.step ⟨capacity, []⟩ ops).metas := by
  have hall : ∀ (s : Entries) m, Holds s.capacity m s.metas → s.Within →
      Along Entries.step (fun s op => op.Given ∧ (s.step op).Within) s ops →
      ∃ m', ops.foldlM (step granted fresh grow) m = some m' ∧
        (MetadataSet.mem m').Gives (run Entries.step s ops).metas := by
    clear hops hstart
    induction ops with
    | nil => exact fun s m h _ _ => ⟨m, rfl, h.shows.gives⟩
    | cons op ops ih =>
      intro s m h hs hops
      obtain ⟨⟨hop, hnext⟩, hrest⟩ := hops
      obtain ⟨m', hm', hholds⟩ := h.step granted fresh grow hs hop hnext
      obtain ⟨m'', hm'', hgives⟩ := ih (s.step op) m' hholds hnext hrest
      refine ⟨m'', ?_, hgives⟩
      rw [List.foldlM_cons, hm']
      exact hm''
  obtain ⟨m, hm, hholds⟩ := new_holds granted fresh grow hblock hstart.offsets hstart.capacity
  obtain ⟨m', hm', hgives⟩ := hall ⟨capacity, []⟩ m hholds hstart hops
  exact ⟨m, m', hm, hm', hgives⟩

theorem run_gives_reloaded : ∃ m m', new id id id 4 5 = some m ∧
    [Op.add [1, 2], .add [], .add [3], .add [4, 5], .reload 4 5 2 2, .add [6]].foldlM
      (step id id id) m = some m' ∧ (MetadataSet.mem m').Gives [[3], [4, 5], [6]] :=
  run_gives id id id (by decide) ⟨by decide, by decide, by decide, by decide⟩
    ⟨⟨trivial, by decide, by decide, by decide, by decide⟩,
      ⟨trivial, by decide, by decide, by decide, by decide⟩,
      ⟨trivial, by decide, by decide, by decide, by decide⟩,
      ⟨trivial, by decide, by decide, by decide, by decide⟩,
      ⟨⟨by decide, by decide⟩, by decide, by decide, by decide, by decide⟩,
      ⟨trivial, by decide, by decide, by decide, by decide⟩, trivial⟩

end MemMetadataSet

end Sptag
