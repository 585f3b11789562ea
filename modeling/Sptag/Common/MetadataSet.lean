import Sptag.Helper.LockFree
import Sptag.Lib.Buffer

/-! `src/Core/MetadataSet.cpp`: the metadata of the vectors one after the other, in a file or in
memory, with the offsets at which they begin. -/

namespace Sptag

open Lib Helper

structure FileMetadataSet where
  m_offsets : List Nat
  m_count : Nat
  m_fp : List UInt8
  m_newdata : List UInt8

structure MemMetadataSet where
  m_offsets : LockFreeVector Nat
  m_count : Nat
  m_metadataHolder : List UInt8
  m_newdata : List UInt8

inductive MetadataSet where
  | file (m : FileMetadataSet)
  | mem (m : MemMetadataSet)

def readMetadata (offset : Nat → Option Nat) (m_count : Nat) (stored newdata : List UInt8)
    (p_vectorID : Nat) : Option (List UInt8) := do
  let startoff ← offset p_vectorID
  let next ← offset (p_vectorID + 1)
  let bytes := next - startoff
  if p_vectorID < m_count then readAt stored bytes startoff
  else do
    let base ← offset m_count
    readAt newdata bytes (startoff - base)

namespace FileMetadataSet

def count (m : FileMetadataSet) : Nat := m.m_offsets.length - 1

def getMetadata (m : FileMetadataSet) (p_vectorID : Nat) : Option (List UInt8) :=
  readMetadata (fun i => m.m_offsets[i]?) m.m_count m.m_fp m.m_newdata p_vectorID

def add (data : List UInt8) (m : FileMetadataSet) : Option FileMetadataSet := do
  let back ← m.m_offsets.getLast?
  return { m with
    m_newdata := m.m_newdata ++ data
    m_offsets := m.m_offsets ++ [back + data.length] }

end FileMetadataSet

namespace MemMetadataSet

def offset (m : MemMetadataSet) (i : Nat) : Option Nat :=
  Blocks.get? m.m_offsets.blockSizeEx m.m_offsets.blocks i

def count (m : MemMetadataSet) : Nat := m.m_offsets.size - 1

def getMetadata (m : MemMetadataSet) (p_vectorID : Nat) : Option (List UInt8) :=
  readMetadata m.offset m.m_count m.m_metadataHolder m.m_newdata p_vectorID

/-- The offset that does not fit is reported to the log alone. -/
def add (fresh grow : Nat → Nat) (data : List UInt8) (m : MemMetadataSet) :
    Option MemMetadataSet := do
  let newdata := m.m_newdata ++ data
  let back ← if m.m_offsets.size = 0 then none else m.offset (m.m_offsets.size - 1)
  let (added, offsets) ← m.m_offsets.pushBack fresh grow (back + data.length)
  if added then return { m with m_newdata := newdata, m_offsets := offsets }
  else return { m with
    m_newdata := newdata.take (newdata.length - data.length)
    m_offsets := offsets }

end MemMetadataSet

namespace MetadataSet

def count : MetadataSet → Nat
  | file m => m.count
  | mem m => m.count

def getMetadata : MetadataSet → Nat → Option (List UInt8)
  | file m => m.getMetadata
  | mem m => m.getMetadata

def add (fresh grow : Nat → Nat) (m : MetadataSet) (data : List UInt8) : Option MetadataSet :=
  match m with
  | file m => (m.add data).map file
  | mem m => (m.add fresh grow data).map mem

def addBatch (fresh grow : Nat → Nat) (data m : MetadataSet) : Option MetadataSet :=
  (List.range data.count).foldlM (fun m i => do
    let entry ← data.getMetadata i
    m.add fresh grow entry) m

end MetadataSet

structure Stores (offsets : List Nat) (m_count : Nat) (stored newdata : List UInt8)
    (metas : List (List UInt8)) : Prop where
  length : offsets.length = metas.length + 1
  count_le : m_count ≤ metas.length
  next : ∀ i (hi : i < metas.length), offsets.getD (i + 1) 0 = offsets.getD i 0 + metas[i].length
  old : ∀ i (hi : i < metas.length), i < m_count → HoldsAt stored (offsets.getD i 0) metas[i]
  new : newdata = (metas.drop m_count).flatten

variable {offsets : List Nat} {m_count : Nat} {stored newdata : List UInt8}
  {metas entries : List (List UInt8)}

theorem Stores.get (h : Stores offsets m_count stored newdata metas) {i : Nat}
    (hi : i ≤ metas.length) : offsets[i]? = some (offsets.getD i 0) := by
  have hlt : i < offsets.length := by
    rw [h.length]
    omega
  rw [List.getD_eq_getElem?_getD, List.getElem?_eq_getElem hlt, Option.getD_some]

theorem Stores.offset_add (h : Stores offsets m_count stored newdata metas) {k : Nat}
    (hk : m_count + k ≤ metas.length) : offsets.getD (m_count + k) 0 =
      offsets.getD m_count 0 + ((metas.drop m_count).take k).flatten.length := by
  induction k with
  | zero => simp
  | succ k ih =>
    have hlt : m_count + k < metas.length := by omega
    have hdrop : k < (metas.drop m_count).length := by
      rw [List.length_drop]
      omega
    rw [← Nat.add_assoc, h.next _ hlt, ih hlt.le, List.take_succ_eq_append_getElem hdrop,
      List.flatten_append, List.length_append, List.getElem_drop, Nat.add_assoc]
    simp

theorem Stores.readMetadata_eq (h : Stores offsets m_count stored newdata metas)
    {offset : Nat → Option Nat} (hoffset : ∀ i ≤ metas.length, offset i = offsets[i]?) {i : Nat}
    (hi : i < metas.length) :
    readMetadata offset m_count stored newdata i = some metas[i] := by
  have hbytes : offsets.getD (i + 1) 0 - offsets.getD i 0 = metas[i].length := by
    rw [h.next i hi, Nat.add_sub_cancel_left]
  unfold readMetadata
  rw [hoffset i hi.le, h.get hi.le, hoffset (i + 1) hi, h.get hi]
  simp only [Option.bind_eq_bind, Option.bind_some, hbytes]
  by_cases hold : i < m_count
  · rw [if_pos hold]
    exact (h.old i hi hold).readAt_eq
  · obtain ⟨k, rfl⟩ := Nat.exists_eq_add_of_le (not_lt.mp hold)
    have hdrop : k < (metas.drop m_count).length := by
      rw [List.length_drop]
      omega
    have hsplit : metas.drop m_count = (metas.drop m_count).take k ++
        metas[m_count + k] :: (metas.drop m_count).drop (k + 1) := by
      calc metas.drop m_count = (metas.drop m_count).take k ++ (metas.drop m_count).drop k :=
            (List.take_append_drop k _).symm
        _ = _ := by rw [List.drop_eq_getElem_cons hdrop, List.getElem_drop]
    rw [if_neg hold, hoffset m_count h.count_le, h.get h.count_le, Option.bind_some,
      h.offset_add hi.le, Nat.add_sub_cancel_left, h.new]
    refine HoldsAt.readAt_eq ⟨((metas.drop m_count).take k).flatten,
      ((metas.drop m_count).drop (k + 1)).flatten, ?_, rfl⟩
    exact (congrArg List.flatten hsplit).trans (by
      rw [List.flatten_append, List.flatten_cons, List.append_assoc])

theorem Stores.snoc (h : Stores offsets m_count stored newdata metas) (data : List UInt8) :
    Stores (offsets ++ [offsets.getD metas.length 0 + data.length]) m_count stored
      (newdata ++ data) (metas ++ [data]) where
  length := by simp [h.length]
  count_le := h.count_le.trans (by simp)
  next i hi := by
    have hlen := h.length
    rw [List.length_append, List.length_singleton] at hi
    rw [List.getD_append _ _ _ _ (show i < offsets.length by omega)]
    by_cases hlt : i < metas.length
    · rw [List.getD_append _ _ _ _ (show i + 1 < offsets.length by omega), h.next i hlt,
        List.getElem_append_left hlt]
    · obtain rfl : i = metas.length := by omega
      rw [List.getD_append_right _ _ _ _ hlen.le, hlen, Nat.sub_self]
      simp
  old i hi hold := by
    have hlt : i < metas.length := hold.trans_le h.count_le
    rw [List.getD_append _ _ _ _ (by rw [h.length]; omega), List.getElem_append_left hlt]
    exact h.old i hlt hold
  new := by
    rw [List.drop_append_of_le_length h.count_le, List.flatten_append, h.new]
    simp

theorem MemMetadataSet.add_spec (fresh grow : Nat → Nat) (m : MemMetadataSet) {maxSize back : Nat}
    (h : m.m_offsets.Shows maxSize offsets) (hback : offsets[offsets.length - 1]? = some back)
    (data : List UInt8) : ∃ v', m.add fresh grow data = some { m with
        m_newdata := if (LockFreeVector.extend maxSize offsets [back + data.length]).1 then
          m.m_newdata ++ data else m.m_newdata
        m_offsets := v' } ∧
      v'.Shows maxSize (LockFreeVector.extend maxSize offsets [back + data.length]).2 := by
  have hlt := (List.getElem?_eq_some_iff.mp hback).1
  have hne : m.m_offsets.size ≠ 0 := h.size ▸ (Nat.zero_lt_of_lt hlt).ne'
  have hlast : m.offset (m.m_offsets.size - 1) = some back := by
    rw [h.size]
    exact (h.holds _ hlt).trans hback
  obtain ⟨v', hv', hafter⟩ := h.pushBack fresh grow
    (((Nat.pos_of_ne_zero hne).trans_eq h.size).trans_le h.le_maxSize) (back + data.length)
  refine ⟨v', ?_, hafter⟩
  simp only [add, if_neg hne, hlast, Option.bind_eq_bind, Option.bind_some, hv']
  cases (LockFreeVector.extend maxSize offsets [back + data.length]).1 with
  | true => rfl
  | false =>
    rw [List.length_append, Nat.add_sub_cancel, List.take_left]
    rfl

namespace MetadataSet

def Shows : MetadataSet → List (List UInt8) → Prop
  | file m, metas => Stores m.m_offsets m.m_count m.m_fp m.m_newdata metas
  | mem m, metas => ∃ offsets maxSize, m.m_offsets.Shows maxSize offsets ∧
    Stores offsets m.m_count m.m_metadataHolder m.m_newdata metas

def room : MetadataSet → Option Nat
  | file _ => none
  | mem m => some (m.m_offsets.maxSize - m.m_offsets.size)

def taken (m : MetadataSet) (entries : List (List UInt8)) : List (List UInt8) :=
  match m.room with
  | none => entries
  | some n => entries.take n

variable {m p : MetadataSet} (fresh grow : Nat → Nat)

theorem Shows.count (h : m.Shows metas) : m.count = metas.length := by
  cases m with
  | file m => exact congrArg (· - 1) (Stores.length h)
  | mem m =>
    obtain ⟨offsets, maxSize, hshows, hstores⟩ := h
    exact congrArg (· - 1) (hshows.size.trans hstores.length)

theorem Shows.getMetadata (h : m.Shows metas) {i : Nat} (hi : i < metas.length) :
    m.getMetadata i = some metas[i] := by
  cases m with
  | file m => exact Stores.readMetadata_eq h (fun _ _ => rfl) hi
  | mem m =>
    obtain ⟨offsets, maxSize, hshows, hstores⟩ := h
    refine hstores.readMetadata_eq (fun j hj => hshows.holds j ?_) hi
    rw [hstores.length]
    omega

theorem add_file {m : FileMetadataSet} (h : (file m).Shows metas) (data : List UInt8) :
    ∃ m', (file m).add fresh grow data = some m' ∧ m'.room = none ∧ m'.Shows (metas ++ [data]) := by
  have hback : m.m_offsets.getLast? = some (m.m_offsets.getD metas.length 0) := by
    rw [List.getLast?_eq_getElem?, Stores.length h, Nat.add_sub_cancel]
    exact Stores.get h le_rfl
  refine ⟨file { m with
    m_newdata := m.m_newdata ++ data
    m_offsets := m.m_offsets ++ [m.m_offsets.getD metas.length 0 + data.length] }, ?_, rfl,
    Stores.snoc h data⟩
  simp only [add, FileMetadataSet.add, hback, Option.bind_eq_bind, Option.bind_some]
  rfl

theorem add_mem {m : MemMetadataSet} (h : (mem m).Shows metas) (data : List UInt8) :
    ∃ m', (mem m).add fresh grow data = some m' ∧
      (m.m_offsets.size + 1 ≤ m.m_offsets.maxSize →
        m'.room = some (m.m_offsets.maxSize - m.m_offsets.size - 1) ∧
          m'.Shows (metas ++ [data])) ∧
      (¬ m.m_offsets.size + 1 ≤ m.m_offsets.maxSize → m'.room = some 0 ∧ m'.Shows metas) := by
  obtain ⟨offsets, maxSize, hshows, hstores⟩ := h
  have hback : offsets[offsets.length - 1]? = some (offsets.getD metas.length 0) := by
    rw [hstores.length, Nat.add_sub_cancel, hstores.get le_rfl]
  obtain ⟨v', hv', hnew⟩ := m.add_spec fresh grow hshows hback data
  have hsize := hshows.size
  obtain rfl := hshows.maxSize_eq
  refine ⟨_, congrArg (Option.map mem) hv', fun hfits => ?_, fun hfull => ?_⟩
  · rw [hsize] at hfits
    simp only [LockFreeVector.extend, List.length_singleton, if_pos hfits] at hnew ⊢
    refine ⟨?_, _, _, hnew, hstores.snoc data⟩
    have hsize' := hnew.size
    rw [List.length_append, List.length_singleton, ← hsize] at hsize'
    simp only [room, hnew.maxSize_eq, hsize', Nat.sub_sub]
  · rw [hsize] at hfull
    simp only [LockFreeVector.extend, List.length_singleton, if_neg hfull] at hnew ⊢
    refine ⟨?_, _, _, hnew, hstores⟩
    simp only [room, hnew.maxSize_eq, hnew.size, Option.some_inj]
    omega

theorem foldlM_add (h : m.Shows metas) (entries : List (List UInt8)) :
    ∃ m', entries.foldlM (add fresh grow) m = some m' ∧ m'.Shows (metas ++ m.taken entries) := by
  induction entries generalizing m metas with
  | nil => exact ⟨m, rfl, by cases m <;> simpa [taken, room] using h⟩
  | cons data entries ih =>
    cases m with
    | file m =>
      obtain ⟨m', hm', hroom, hshows⟩ := add_file fresh grow h data
      obtain ⟨m'', hm'', hshows'⟩ := ih hshows
      refine ⟨m'', ?_, ?_⟩
      · rw [List.foldlM_cons, hm']
        exact hm''
      · rw [taken, hroom] at hshows'
        simpa [taken, room] using hshows'
    | mem m =>
      obtain ⟨m', hm', hadded, hdropped⟩ := add_mem fresh grow h data
      have hrun : ∀ m'', entries.foldlM (add fresh grow) m' = some m'' →
          (data :: entries).foldlM (add fresh grow) (mem m) = some m'' := by
        intro m'' hm''
        rw [List.foldlM_cons, hm']
        exact hm''
      by_cases hfits : m.m_offsets.size + 1 ≤ m.m_offsets.maxSize
      · obtain ⟨hroom, hshows⟩ := hadded hfits
        obtain ⟨m'', hm'', hshows'⟩ := ih hshows
        refine ⟨m'', hrun m'' hm'', ?_⟩
        obtain ⟨n, hn⟩ : ∃ n, m.m_offsets.maxSize - m.m_offsets.size = n + 1 :=
          ⟨m.m_offsets.maxSize - m.m_offsets.size - 1, by omega⟩
        rw [taken, hroom] at hshows'
        simpa [taken, room, hn] using hshows'
      · obtain ⟨hroom, hshows⟩ := hdropped hfits
        obtain ⟨m'', hm'', hshows'⟩ := ih hshows
        refine ⟨m'', hrun m'' hm'', ?_⟩
        have hn : m.m_offsets.maxSize - m.m_offsets.size = 0 := by omega
        rw [taken, hroom] at hshows'
        simpa [taken, room, hn] using hshows'

structure Gives (p : MetadataSet) (entries : List (List UInt8)) : Prop where
  count : p.count = entries.length
  get : ∀ i (hi : i < entries.length), p.getMetadata i = some entries[i]

theorem Shows.gives (h : m.Shows metas) : m.Gives metas := ⟨h.count, fun _ hi => h.getMetadata hi⟩

theorem Gives.addBatch_eq (h : p.Gives entries) :
    p.addBatch fresh grow m = entries.foldlM (add fresh grow) m := by
  have hloop : ∀ k ≤ entries.length, (List.range k).foldlM (fun m i => do
      let entry ← p.getMetadata i
      m.add fresh grow entry) m = (entries.take k).foldlM (MetadataSet.add fresh grow) m := by
    intro k
    induction k with
    | zero => exact fun _ => rfl
    | succ k ih =>
      intro hk
      rw [List.range_succ, List.foldlM_append, ih (by omega), List.take_succ_eq_append_getElem hk,
        List.foldlM_append]
      simp only [List.foldlM_cons, List.foldlM_nil, h.get k hk, Option.bind_eq_bind,
        Option.bind_some]
  rw [addBatch, h.count, hloop _ le_rfl, List.take_length]

end MetadataSet

end Sptag
