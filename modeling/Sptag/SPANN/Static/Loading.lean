import Sptag.SPANN.Static.IndexFile

/-! What `LoadingHeadInfo` makes of the head that `OutputSSDIndexFile` writes. -/

namespace Sptag.SPANN.Static

open Lib

variable {b d : Nat}

theorem readInt_append {n : Nat} (hn : n < 2 ^ 31) (s : Bytes) :
    readInt (leBytes 4 n ++ s) = some ((n : Int), s) := by
  have hval : toInt (leVal (leBytes 4 n)) = n := by
    rw [leVal_leBytes_of_lt (by omega), toInt_of_lt hn]
  rw [readInt, reader_map_eq (readFront_eq (leBytes_length 4 n) s), hval]

@[simp] theorem readUnsigned_append (w n : Nat) (s : Bytes) :
    readUnsigned w (leBytes w n ++ s) = some (n % 256 ^ w, s) := by
  rw [readUnsigned, reader_map_eq (readFront_eq (leBytes_length w n) s), leVal_leBytes]

theorem listPageCount_eq (n : Nat) : listPageCount n = pages n := by
  have hpage : PageSize = 4096 := rfl
  rw [listPageCount, pages_eq, hpage]
  split <;> omega

/-- The records that are kept of a posting of `eleCount` records when it is loaded with a
page limit: the page count on disk has 16 bits. -/
def loadedCount (vectorInfoSize postingPageLimit postingListByte eleCount : Nat) : Nat :=
  min eleCount
    (min (pages postingListByte % 2 ^ 16) postingPageLimit * PageSize / vectorInfoSize)

def loadedInfo (compression : Bool) (vectorInfoSize postingPageLimit listOffset postingListByte
    pageOffset eleCount : Nat) : ListInfo :=
  if compression then
    ⟨postingListByte, eleCount, pages postingListByte % 2 ^ 16, listOffset, pageOffset⟩
  else
    ⟨toSize (toInt (eleCount * vectorInfoSize : Nat)),
      loadedCount vectorInfoSize postingPageLimit postingListByte eleCount,
      pages (vectorInfoSize * loadedCount vectorInfoSize postingPageLimit postingListByte eleCount +
        pageOffset) % 2 ^ 16,
      listOffset, pageOffset⟩

section Entry

variable {vectorInfoSize postingPageLimit listPageOffset postingListByte pageNum pageOffset
  eleCount : Nat}

theorem listOffset_eq (hpage : listPageOffset + pageNum < 2 ^ 31) :
    toSize (toInt ((listPageOffset : Int) + pageNum)) * PageSize % 2 ^ 64 =
      (listPageOffset + pageNum) * PageSize := by
  rw [← Nat.cast_add, toInt_of_lt hpage, toSize, PageSize]
  omega

theorem readListInfo_metaEntry (compression : Bool) (hbyte : postingListByte < 2 ^ 64)
    (hpage : pageNum < 2 ^ 31) (hoff : pageOffset < 2 ^ 16) (hele : eleCount < 2 ^ 31) (s : Bytes) :
    readListInfo compression vectorInfoSize postingPageLimit listPageOffset
        (metaEntry compression postingListByte pageNum pageOffset eleCount ++ s) =
      some (loadedInfo compression vectorInfoSize postingPageLimit
        (toSize (toInt ((listPageOffset : Int) + pageNum)) * PageSize % 2 ^ 64) postingListByte
        pageOffset eleCount, s) := by
  have hcount : min (eleCount : Int)
      (((min (listPageCount postingListByte % 256 ^ 2) postingPageLimit * PageSize : Nat) :
        Int).tdiv vectorInfoSize) =
      (loadedCount vectorInfoSize postingPageLimit postingListByte eleCount : Nat) := by
    rw [listPageCount_eq, loadedCount, Nat.cast_min, ← Int.ofNat_tdiv]
    rfl
  have hround : ∀ k : Nat,
      (((vectorInfoSize : Int) * k + pageOffset + (PageSize - 1)) / PageSize % 2 ^ 16).toNat =
        pages (vectorInfoSize * k + pageOffset) % 2 ^ 16 := by
    intro k
    rw [pages_eq, PageSize, ← Nat.cast_mul]
    omega
  have hsize : readUnsigned 8 (leBytes 8 postingListByte ++
    (leBytes 4 pageNum ++ (leBytes 2 pageOffset ++
      (leBytes 4 eleCount ++ (leBytes 2 (listPageCount postingListByte) ++ s))))) =
      some (postingListByte, leBytes 4 pageNum ++ (leBytes 2 pageOffset ++
        (leBytes 4 eleCount ++ (leBytes 2 (listPageCount postingListByte) ++ s)))) := by
    rw [readUnsigned_append, Nat.mod_eq_of_lt (by omega)]
  have hpageOffset : pageOffset % 256 ^ 2 = pageOffset := Nat.mod_eq_of_lt hoff
  rw [readListInfo, metaEntry]
  cases compression with
  | true =>
    simp only [if_true, List.append_assoc]
    rw [reader_bind_eq hsize, reader_bind_eq (readInt_append hpage _),
      reader_bind_eq (readUnsigned_append 2 _ _), reader_bind_eq (readInt_append hele _),
      reader_bind_eq (readUnsigned_append 2 _ _), hpageOffset, listPageCount_eq]
    rfl
  | false =>
    simp only [Bool.false_eq_true, if_false, List.append_assoc, List.nil_append]
    rw [reader_bind_eq (reader_pure 0 _), reader_bind_eq (readInt_append hpage _),
      reader_bind_eq (readUnsigned_append 2 _ _), reader_bind_eq (readInt_append hele _),
      reader_bind_eq (readUnsigned_append 2 _ _), hpageOffset, hcount, hround,
      ← Nat.cast_mul]
    rfl

end Entry

theorem readListInfos_flatMap {compression : Bool} {vectorInfoSize listPageOffset : Int}
    {postingPageLimit : Nat} {entry : Nat → Bytes} {info : Nat → ListInfo} {hs : List Nat}
    (hentry : ∀ h ∈ hs, ∀ s, readListInfo compression vectorInfoSize postingPageLimit listPageOffset
      (entry h ++ s) = some (info h, s)) (s : Bytes) :
    readListInfos compression vectorInfoSize postingPageLimit listPageOffset hs.length
      (hs.flatMap entry ++ s) = some (hs.map info, s) := by
  induction hs with
  | nil => rfl
  | cons h hs ih =>
    rw [List.flatMap_cons, List.append_assoc, List.length_cons, readListInfos,
      reader_bind_eq (hentry h List.mem_cons_self _),
      reader_bind_eq (ih fun h' hh' => hentry h' (List.mem_cons_of_mem h hh'))]
    rfl

theorem loadingHeadInfo_head {searcher : ExtraStaticSearcher} {postingPageLimit n vectorCount
    listPageOffset : Nat} {entries s s' dictBuffer : Bytes} {listInfos : List ListInfo}
    (hfirst : searcher.vectorInfoSize = 0 ∨ searcher.vectorInfoSize = (vectorInfoSize b d : Nat))
    (hn : n < 2 ^ 31) (hd : d < 2 ^ 31) (hsize : vectorInfoSize b d < 2 ^ 31)
    (hoff : listPageOffset < 2 ^ 31)
    (hinfos : readListInfos searcher.flags.enableDataCompression (vectorInfoSize b d : Nat)
      postingPageLimit listPageOffset n (entries ++ s) = some (listInfos, s))
    (hdict : (if searcher.flags.enableDataCompression && searcher.flags.enableDictTraining then
      readDict else pure [] : Reader UInt8 Bytes) s = some (dictBuffer, s')) :
    loadingHeadInfo b searcher postingPageLimit (leBytes 4 n ++ (leBytes 4 vectorCount ++
        (leBytes 4 d ++ (leBytes 4 listPageOffset ++ (entries ++ s))))) =
      some ({ searcher with
        dictBuffer := dictBuffer
        listInfos := searcher.listInfos ++ listInfos
        vectorInfoSize := (vectorInfoSize b d : Nat)
        dataDimension := d
        totalListCount := searcher.totalListCount + n }, s') := by
  have hcount : ∀ t, readInt (leBytes 4 vectorCount ++ t) =
      some (toInt (leVal (leBytes 4 vectorCount)), t) := fun t => by
    rw [readInt, reader_map_eq (readFront_eq (leBytes_length 4 _) t)]
  have hinfoSize : toInt ((d : Int) * b + 4) = (vectorInfoSize b d : Nat) := by
    rw [← toInt_of_lt hsize, vectorInfoSize, perVectorDataSize]
    push_cast
    rfl
  have haccept : ¬ (searcher.vectorInfoSize ≠ 0 ∧
      searcher.vectorInfoSize ≠ (vectorInfoSize b d : Nat) ∨ (n : Int) < 0) := by
    intro h
    cases h with
    | inl hne => exact hfirst.elim hne.1 hne.2
    | inr hneg => exact absurd hneg (Int.not_lt.mpr (Int.natCast_nonneg n))
  rw [loadingHeadInfo, reader_bind_eq (readInt_append hn _), reader_bind_eq (hcount _),
    reader_bind_eq (readInt_append hd _), reader_bind_eq (readInt_append hoff _), hinfoSize,
    if_neg haccept, Int.toNat_natCast, reader_bind_eq hinfos]
  split
  · rename_i hc
    rw [if_pos hc] at hdict
    rw [reader_bind_eq hdict]
    rfl
  · rename_i hc
    rw [if_neg hc] at hdict
    rw [reader_bind_eq hdict]
    rfl

end Sptag.SPANN.Static
