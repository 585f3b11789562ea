import Sptag.Lib.Buffer
import Sptag.SPANN.Dynamic.Update
import Sptag.SPANN.Recovery

/-! The loops of `MergePostings` over the bytes of the two postings: those that filter them,
and the one that looks for entries to reassign, which takes the number of live entries for
their places. -/

namespace Sptag.SPANN.Dynamic.MergeScan

open COMMON Lib

section Prefix

variable {α : Type} {p : α → Bool} {l : List α}

theorem filter_eq_nil_of_head {a : α} (ha : ¬ p a) (h : ∀ b ∈ l, p b → p a) : l.filter p = [] :=
  List.filter_eq_nil_iff.mpr fun b hb hpb => ha (h b hb hpb)

theorem perm_take_filter_iff :
    (l.take (l.filter p).length).Perm (l.filter p) ↔ l.Pairwise fun a b => p b → p a := by
  induction l with
  | nil => simp
  | cons a l ih =>
    rw [List.pairwise_cons]
    by_cases ha : p a
    · rw [List.filter_cons_of_pos ha, List.length_cons, List.take_succ_cons, List.perm_cons, ih]
      exact (and_iff_right fun b _ _ => ha).symm
    · rw [List.filter_cons_of_neg ha]
      constructor
      · intro hperm
        have hnil : l.filter p = [] := by
          by_contra hne
          have hmem : a ∈ (a :: l).take (l.filter p).length := by
            obtain ⟨n, hn⟩ := Nat.exists_eq_succ_of_ne_zero (mt List.length_eq_zero_iff.mp hne)
            rw [hn, List.take_succ_cons]
            exact List.mem_cons_self
          exact ha (List.of_mem_filter (hperm.mem_iff.mp hmem))
        have hnone := List.filter_eq_nil_iff.mp hnil
        exact ⟨fun b hb hpb => absurd hpb (hnone b hb),
          List.pairwise_of_forall_mem_list fun a _ b hb hpb => absurd hpb (hnone b hb)⟩
      · rintro ⟨hhead, -⟩
        rw [filter_eq_nil_of_head ha hhead]
        exact List.Perm.refl _

end Prefix

section Records

variable (versionMap : VersionLabel) (vectorInfoSize : Nat) (posting : Bytes)

/-- The id at an offset; there is none where four bytes would end behind the string. -/
def readVID (off : Nat) : Option Int := (readAt posting 4 off).map fun bytes => toInt (leVal bytes)

def readLive (off : Nat) : Option (Int × Bool) := do
  let vid ← readVID posting off
  let version ← posting[off + 4]?
  some (vid, !versionMap.deleted vid && versionMap.getVersion vid == version)

def record (j : Nat) : Bytes := (posting.drop (j * vectorInfoSize)).take vectorInfoSize

def records : List Bytes := (List.range (posting.length / vectorInfoSize)).map
    (record vectorInfoSize posting)

def vidOf (bytes : Bytes) : Int := toInt (leVal (bytes.take 4))

def liveRecord (bytes : Bytes) : Bool :=
  !versionMap.deleted (vidOf bytes) && versionMap.getVersion (vidOf bytes) == bytes.getD 4 0

def liveRecords : List Bytes := (records vectorInfoSize posting).filter (liveRecord versionMap)

end Records

structure Kept where
  vectorIdSet : List Int
  mergedPostingList : Bytes
  currentLength : Nat

structure Added where
  mergedPostingList : Bytes
  totalLength : Nat
  nextLength : Nat

section Loops

variable (versionMap : VersionLabel) (vectorInfoSize : Nat)

def keepRecord (currentPostingList : Bytes) (k : Kept) (j : Nat) : Option Kept := do
  let (vid, live) ← readLive versionMap currentPostingList (j * vectorInfoSize)
  some (if live then
    ⟨vid :: k.vectorIdSet, k.mergedPostingList ++ record vectorInfoSize currentPostingList j,
      k.currentLength + 1⟩
  else k)

def filterCurrent (currentPostingList : Bytes) : Option Kept :=
  (List.range (currentPostingList.length / vectorInfoSize)).foldlM
    (keepRecord versionMap vectorInfoSize currentPostingList) ⟨[], [], 0⟩

def addRecord (nextPostingList : Bytes) (vectorIdSet : List Int) (a : Added) (j : Nat) :
    Option Added := do
  let (vid, live) ← readLive versionMap nextPostingList (j * vectorInfoSize)
  some (if live then
    if vid ∈ vectorIdSet then { a with nextLength := a.nextLength + 1 }
    else
      ⟨a.mergedPostingList ++ record vectorInfoSize nextPostingList j, a.totalLength + 1,
        a.nextLength + 1⟩
  else a)

def filterNext (nextPostingList : Bytes) (k : Kept) : Option Added :=
  (List.range (nextPostingList.length / vectorInfoSize)).foldlM
    (addRecord versionMap vectorInfoSize nextPostingList k.vectorIdSet)
    ⟨k.mergedPostingList, k.currentLength, 0⟩

/-- The loop that looks for entries to reassign: each record it comes to, and whether it is
sent. `farther` says of a vector that `current_dist > origin_dist`. -/
def reassignScan (farther : Bytes → Bool) (absorbed : Bytes) (length : Nat) :
    Option (List (Bytes × Bool)) :=
  (List.range length).mapM fun j => do
    let vector ← readAt absorbed (vectorInfoSize - metaDataSize) (j * vectorInfoSize + metaDataSize)
    let vectorInfo ← readAt absorbed vectorInfoSize (j * vectorInfoSize)
    some (vectorInfo, farther vector)

def mergeScan (farther : Bool → Bytes → Bool) (currentPostingList nextPostingList : Bytes) :
    Option (List (Bytes × Bool)) := do
  let k ← filterCurrent versionMap vectorInfoSize currentPostingList
  let a ← filterNext versionMap vectorInfoSize nextPostingList k
  if a.nextLength < k.currentLength then
    reassignScan vectorInfoSize (farther true) nextPostingList a.nextLength
  else reassignScan vectorInfoSize (farther false) currentPostingList k.currentLength

end Loops

section Reads

variable {versionMap : VersionLabel} {vectorInfoSize : Nat} {posting : Bytes} {j : Nat}

theorem end_le_length (hj : j < posting.length / vectorInfoSize) :
    j * vectorInfoSize + vectorInfoSize ≤ posting.length := by
  rw [← Nat.succ_mul]
  exact (Nat.mul_le_mul_right _ hj).trans (Nat.div_mul_le_self _ _)

theorem readAt_record (hj : j < posting.length / vectorInfoSize) :
    readAt posting vectorInfoSize (j * vectorInfoSize) = some (record vectorInfoSize posting j) :=
  if_pos (end_le_length hj)

theorem readLive_record (hinfo : metaDataSize ≤ vectorInfoSize)
    (hj : j < posting.length / vectorInfoSize) :
    readLive versionMap posting (j * vectorInfoSize) =
      some (vidOf (record vectorInfoSize posting j),
        liveRecord versionMap (record vectorInfoSize posting j)) := by
  have hend := end_le_length hj
  have hmeta : metaDataSize = 5 := rfl
  have hvid : readAt posting 4 (j * vectorInfoSize) =
    some ((record vectorInfoSize posting j).take 4) := by
    rw [readAt, if_pos (by omega), record, List.take_take, Nat.min_eq_left (by omega)]
  have hversion : posting[j * vectorInfoSize + 4]? =
    some ((record vectorInfoSize posting j).getD 4 0) := by
    have hlt : j * vectorInfoSize + 4 < posting.length := by omega
    rw [List.getD_eq_getElem?_getD, record, List.getElem?_take_of_lt (by omega), List.getElem?_drop,
      List.getElem?_eq_getElem hlt, Option.getD_some]
  simp only [readLive, readVID, hvid, hversion, Option.map_some, Option.bind_eq_bind,
    Option.bind_some,
    liveRecord, vidOf]

end Reads

theorem foldlM_filter {S : Type} {f : S → Nat → Option S} {g : Nat → Bytes} {live : Bytes → Bool}
    {upd : S → Bytes → S} {js : List Nat}
    (h : ∀ j ∈ js, ∀ acc, f acc j = some (if live (g j) then upd acc (g j) else acc)) (acc : S) :
    js.foldlM f acc = some (((js.map g).filter live).foldl upd acc) := by
  induction js generalizing acc with
  | nil => rfl
  | cons j js ih =>
    have ih := ih fun j hj => h j (List.mem_cons_of_mem _ hj)
    rw [List.foldlM_cons, h j List.mem_cons_self, Option.bind_eq_bind, Option.bind_some, ih,
      List.map_cons]
    by_cases hlive : live (g j)
    · rw [if_pos hlive, List.filter_cons_of_pos hlive, List.foldl_cons]
    · rw [if_neg hlive, List.filter_cons_of_neg hlive]

def Kept.keep (k : Kept) (bytes : Bytes) : Kept :=
  ⟨vidOf bytes :: k.vectorIdSet, k.mergedPostingList ++ bytes, k.currentLength + 1⟩

def Added.add (vectorIdSet : List Int) (a : Added) (bytes : Bytes) : Added :=
  if vidOf bytes ∈ vectorIdSet then { a with nextLength := a.nextLength + 1 }
  else ⟨a.mergedPostingList ++ bytes, a.totalLength + 1, a.nextLength + 1⟩

@[simp] theorem currentLength_foldl (rs : List Bytes) (k : Kept) :
    (rs.foldl Kept.keep k).currentLength = k.currentLength + rs.length := by
  induction rs generalizing k with
  | nil => rfl
  | cons r rs ih =>
    have hkeep : (k.keep r).currentLength = k.currentLength + 1 := rfl
    rw [List.foldl_cons, ih, hkeep, List.length_cons]
    omega

@[simp] theorem nextLength_foldl (ids : List Int) (rs : List Bytes) (a : Added) :
    (rs.foldl (Added.add ids) a).nextLength = a.nextLength + rs.length := by
  induction rs generalizing a with
  | nil => rfl
  | cons r rs ih =>
    have hadd : (a.add ids r).nextLength = a.nextLength + 1 := by
      rw [Added.add]
      split
      · rfl
      · rfl
    rw [List.foldl_cons, ih, hadd, List.length_cons]
    omega

section Scan

variable (versionMap : VersionLabel) {d : Nat}

theorem metaDataSize_le (d : Nat) : metaDataSize ≤ vectorInfoSize d := Nat.le_add_right _ _

theorem filterCurrent_eq (current : Bytes) : filterCurrent versionMap (vectorInfoSize d) current =
    some ((liveRecords versionMap (vectorInfoSize d) current).foldl Kept.keep ⟨[], [], 0⟩) := by
  apply foldlM_filter
  intro j hj k
  rw [keepRecord, readLive_record (metaDataSize_le d) (List.mem_range.mp hj)]
  rfl

theorem filterNext_eq (next : Bytes) (k : Kept) : filterNext versionMap (vectorInfoSize d) next k =
    some ((liveRecords versionMap (vectorInfoSize d) next).foldl (Added.add k.vectorIdSet)
      ⟨k.mergedPostingList, k.currentLength, 0⟩) := by
  apply foldlM_filter
  intro j hj a
  rw [addRecord, readLive_record (metaDataSize_le d) (List.mem_range.mp hj)]
  rfl

theorem reassignScan_eq (farther : Bytes → Bool) (absorbed : Bytes) {length : Nat}
    (hlength : length ≤ absorbed.length / vectorInfoSize d) :
    reassignScan (vectorInfoSize d) farther absorbed length =
      some (((records (vectorInfoSize d) absorbed).take length).map fun r =>
        (r, farther (r.drop metaDataSize))) := by
  have hrecords : (records (vectorInfoSize d) absorbed).take length =
      (List.range length).map (record (vectorInfoSize d) absorbed) := by
    rw [records, ← List.map_take, List.take_range, Nat.min_eq_left hlength]
  rw [hrecords, List.map_map]
  apply mapM_eq_some
  intro j hj
  have hlt := (List.mem_range.mp hj).trans_le hlength
  have hend := end_le_length hlt
  have hinfo : vectorInfoSize d = metaDataSize + d := rfl
  have hvector : readAt absorbed (vectorInfoSize d - metaDataSize)
      (j * vectorInfoSize d + metaDataSize) =
        some ((record (vectorInfoSize d) absorbed j).drop metaDataSize) := by
    rw [readAt, if_pos (by omega), record, List.drop_take, List.drop_drop]
  rw [hvector, readAt_record hlt]
  rfl

theorem length_liveRecords_le (posting : Bytes) :
    (liveRecords versionMap (vectorInfoSize d) posting).length ≤
      posting.length / vectorInfoSize d := by
  refine (List.length_filter_le _ _).trans ?_
  rw [records, List.length_map, List.length_range]

def absorbed (vectorInfoSize : Nat) (current next : Bytes) : Bytes :=
  if (liveRecords versionMap vectorInfoSize next).length <
      (liveRecords versionMap vectorInfoSize current).length then next
  else current

theorem mergeScan_eq (farther : Bool → Bytes → Bool) (current next : Bytes) :
    mergeScan versionMap (vectorInfoSize d) farther current next =
      some (((records (vectorInfoSize d) (absorbed versionMap (vectorInfoSize d) current next)).take
        (liveRecords versionMap (vectorInfoSize d)
          (absorbed versionMap (vectorInfoSize d) current next)).length).map fun r =>
        (r, farther (decide ((liveRecords versionMap (vectorInfoSize d) next).length <
          (liveRecords versionMap (vectorInfoSize d) current).length)) (r.drop metaDataSize))) := by
  simp only [mergeScan, filterCurrent_eq, filterNext_eq, Option.bind_eq_bind, Option.bind_some,
    currentLength_foldl, nextLength_foldl, Nat.zero_add, absorbed]
  split
  · rw [decide_eq_true ‹_›]
    exact reassignScan_eq _ next (length_liveRecords_le versionMap next)
  · rw [decide_eq_false ‹_›]
    exact reassignScan_eq _ current (length_liveRecords_le versionMap current)

/-- The merge looks at exactly the live entries of the absorbed posting when none of its entries
that are not comes before one of them. -/
theorem reexamined_iff (farther : Bool → Bytes → Bool) (current next : Bytes) :
    (∃ considered, mergeScan versionMap (vectorInfoSize d) farther current next = some considered ∧
      (considered.map Prod.fst).Perm (liveRecords versionMap (vectorInfoSize d)
        (absorbed versionMap (vectorInfoSize d) current next))) ↔
    (records (vectorInfoSize d) (absorbed versionMap (vectorInfoSize d) current next)).Pairwise
      fun r r' => liveRecord versionMap r' → liveRecord versionMap r := by
  have hfst : ∀ (f : Bytes → Bool) (rs : List Bytes),
    (rs.map fun r => (r, f r)).map Prod.fst = rs := by
    intro f rs
    rw [List.map_map]
    exact List.map_id rs
  rw [mergeScan_eq, ← perm_take_filter_iff]
  simp only [Option.some.injEq, exists_eq_left', hfst, liveRecords]

end Scan

def oneDeleted : VersionLabel := ⟨[0, VersionLabel.tombstone, 0, 0], 1, 4, by decide⟩

theorem not_reexamined : ¬ ∃ considered, mergeScan oneDeleted (vectorInfoSize 0) (fun _ _ => true)
    [1, 0, 0, 0, 0, 0, 0, 0, 0, 0] [2, 0, 0, 0, 0, 3, 0, 0, 0, 0] = some considered ∧
    (considered.map Prod.fst).Perm (liveRecords oneDeleted (vectorInfoSize 0)
      (absorbed oneDeleted (vectorInfoSize 0) [1, 0, 0, 0, 0, 0, 0, 0, 0, 0]
        [2, 0, 0, 0, 0, 3, 0, 0, 0, 0])) := by
  decide

def IsInt (n : Int) : Prop := -2 ^ 31 ≤ n ∧ n < 2 ^ 31

section Entries

variable {V D : Type} (env : Env V D) {d : Nat} (hbytes : ∀ v, (env.vectorBytes v).length = d)

include hbytes

@[simp] theorem length_serialize (e : Entry V) : (env.serialize e).length = vectorInfoSize d := by
  rw [Env.serialize, List.length_append, leBytes_length, List.length_cons, hbytes, vectorInfoSize,
    metaDataSize]
  omega

@[simp] theorem records_bytesOf (p : Posting V) :
    records (vectorInfoSize d) (env.bytesOf p) = p.map env.serialize := by
  have hlen : (env.bytesOf p).length / vectorInfoSize d = p.length := by
    rw [Env.bytesOf, length_flatMap_of_size fun e _ => length_serialize env hbytes e]
    exact Nat.mul_div_cancel _ (Nat.lt_of_lt_of_le (by decide) (metaDataSize_le d))
  have hslices := map_slices (fun e _ => length_serialize env hbytes e) (Nat.le_refl p.length)
  rw [List.take_length] at hslices
  rw [records, hlen]
  exact hslices

omit hbytes in
theorem vidOf_serialize {e : Entry V} (he : IsInt e.vid) : vidOf (env.serialize e) = e.vid := by
  obtain ⟨hlow, hhigh⟩ := he
  have hlt : (e.vid % 2 ^ 32).toNat < 256 ^ 4 := by omega
  rw [vidOf, Env.serialize, List.take_left' (leBytes_length 4 _), leVal_leBytes_of_lt hlt, toInt,
    Int.bmod]
  omega

omit hbytes in
theorem liveRecord_serialize (s : State V) {e : Entry V} (he : IsInt e.vid) :
    liveRecord s.versionMap (env.serialize e) = s.current e := by
  have hversion : (env.serialize e).getD 4 0 = e.version := by
    rw [Env.serialize, List.getD_eq_getElem?_getD, List.getElem?_append_right (by simp),
      leBytes_length]
    rfl
  rw [liveRecord, vidOf_serialize env he, hversion, State.current]

theorem liveRecords_bytesOf (s : State V) {p : Posting V} (hvid : ∀ e ∈ p, IsInt e.vid) :
    liveRecords s.versionMap (vectorInfoSize d) (env.bytesOf p) = (s.live p).map env.serialize := by
  have hlive : p.filter (liveRecord s.versionMap ∘ env.serialize) = p.filter s.current := by
    refine List.filter_congr fun e he => ?_
    rw [Function.comp_apply, liveRecord_serialize env s (hvid e he)]
  rw [liveRecords, records_bytesOf env hbytes, List.filter_map, hlive, State.live]

theorem mergeScan_bytesOf (s : State V) {p q : Posting V} (farther : Bool → Bytes → Bool)
    (hp : ∀ e ∈ p, IsInt e.vid) (hq : ∀ e ∈ q, IsInt e.vid) :
    let keepsHead := decide ((s.live q).length < (s.live p).length)
    mergeScan s.versionMap (vectorInfoSize d) farther (env.bytesOf p) (env.bytesOf q) =
      some (((if keepsHead then q else p).take
        (if keepsHead then (s.live q).length else (s.live p).length)).map fun e =>
          (env.serialize e, farther keepsHead (env.vectorBytes e.vector))) := by
  have hvector : ∀ e : Entry V, (env.serialize e).drop metaDataSize = env.vectorBytes e.vector := by
    intro e
    have hfront : (leBytes 4 (e.vid % 2 ^ 32).toNat ++ [e.version]).length = metaDataSize := by
      rw [List.length_append, leBytes_length]
      rfl
    rw [Env.serialize, List.append_cons, List.drop_left' hfront]
  simp only [mergeScan_eq, absorbed, liveRecords_bytesOf env hbytes s hp,
    liveRecords_bytesOf env hbytes s hq, List.length_map]
  by_cases hkeeps : (s.live q).length < (s.live p).length
  · simp only [hkeeps, decide_true, if_true, records_bytesOf env hbytes,
      liveRecords_bytesOf env hbytes s hq, List.length_map, ← List.map_take, List.map_map]
    simp only [Function.comp_def, hvector]
  · simp only [hkeeps, decide_false, if_false, records_bytesOf env hbytes,
      liveRecords_bytesOf env hbytes s hp, List.length_map, ← List.map_take, List.map_map]
    simp only [Function.comp_def, hvector, Bool.false_eq_true, if_false]

end Entries

end Sptag.SPANN.Dynamic.MergeScan
