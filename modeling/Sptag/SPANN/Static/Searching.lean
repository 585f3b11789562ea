import Sptag.SPANN.Static.Writing

/-! What a search finds in a file whose head was read with the compression flag it was
written with. -/

namespace Sptag.SPANN.Static

open Lib

variable {b d : Nat}

structure Compressor.Lawful (c : Compressor) : Prop where
  decompress_compress : ∀ dict dict' useDict data, (useDict = true → dict' = dict) →
    c.decompress dict' useDict (c.compress dict useDict data) data.length = some data
  compress_ne_nil : ∀ dict useDict data, data ≠ [] → c.compress dict useDict data ≠ []

namespace Source

structure Fits (x : Source b d) : Prop where
  count : x.postingListSizes.length < 2 ^ 31
  size : ∀ h, x.postingListSize h < 2 ^ 31
  dimension : d < 2 ^ 31
  record : vectorInfoSize b d < 2 ^ 31
  pageNum : pages x.metaSize +
    ((List.range x.postingListSizes.length).map fun h => pages (x.byteSize h)).sum < 2 ^ 31

variable (x : Source b d)

def info (s : Selecting) (limit h : Nat) : ListInfo :=
  if 0 < x.postingListSize h then
    loadedInfo x.flags.enableDataCompression (vectorInfoSize b d) limit
      ((pages x.metaSize + s.postPageNum h) * PageSize) (x.byteSize h) (s.postPageOffset h)
      (x.postingListSize h)
  else
    loadedInfo x.flags.enableDataCompression (vectorInfoSize b d) limit
      (pages x.metaSize * PageSize) 0 0 0

def loadedDict : Bytes :=
  if x.flags.enableDataCompression && x.flags.enableDictTraining then x.dictBuffer else []

def loaded (s : Selecting) (limit : Nat) (file dictBuffer : Bytes) : ExtraStaticSearcher where
  flags := x.flags
  dictBuffer := dictBuffer
  listInfos := (List.range x.postingListSizes.length).map (x.info s limit)
  indexFiles := [file]
  vectorInfoSize := (vectorInfoSize b d : Nat)
  dataDimension := d
  totalListCount := x.postingListSizes.length
  listPerFile := x.postingListSizes.length

section Load

variable {x} {s : Selecting} {limit : Nat} {file : Bytes}

theorem byteSize_eq_zero {h : Nat} (hle : x.postingListSizes.length ≤ h) : x.byteSize h = 0 := by
  rw [byteSize, x.postingListSize_of_le hle, if_pos rfl]

theorem pages_byteSize_le (h : Nat) : pages (x.byteSize h) ≤
    ((List.range x.postingListSizes.length).map fun h => pages (x.byteSize h)).sum := by
  by_cases hlt : h < x.postingListSizes.length
  · exact List.single_le_sum (fun _ _ => Nat.zero_le _) _
      (List.mem_map_of_mem (List.mem_range.mpr hlt))
  · rw [byteSize_eq_zero (Nat.le_of_not_lt hlt)]
    exact Nat.zero_le _

variable (hfits : x.Fits) (hs : Selected x.byteSizes s) (hdone : s.listRestSize = [])
  (hbytes : ∀ h, x.postingListSize h ≠ 0 → x.byteSize h ≠ 0)

include hfits in
theorem pages_metaSize_lt : pages x.metaSize < 2 ^ 31 := by
  have := hfits.pageNum
  omega

include hfits hs hdone hbytes

theorem readListInfo_metaOf (h : Nat) (t : Bytes) :
    readListInfo x.flags.enableDataCompression (vectorInfoSize b d : Nat) limit
      (pages x.metaSize : Nat) (x.metaOf x.byteSizes s h ++ t) = some (x.info s limit h, t) := by
  have hmeta := pages_metaSize_lt hfits
  rw [metaOf, info]
  by_cases hpos : 0 < x.postingListSize h
  · rw [if_pos hpos, if_pos hpos, getD_byteSizes]
    have hne := hbytes h (Nat.pos_iff_ne_zero.mp hpos)
    obtain ⟨hend, hoff, hcross⟩ := target_le_bodyEnd hs hdone hne
    have hbody := pages_bodyEnd_le hs
    have hsum := hfits.pageNum
    have hbyte := pages_byteSize_le (x := x) h
    have hpage : PageSize = 4096 := rfl
    rw [Selecting.targetOffset, hpage] at hend
    rw [hpage] at hoff
    rw [pages_eq] at hbody hbyte
    have hpageNum : pages x.metaSize + s.postPageNum h < 2 ^ 31 := by omega
    rw [← listOffset_eq hpageNum]
    apply readListInfo_metaEntry _ _ (Nat.lt_of_le_of_lt (Nat.le_add_left _ _) hpageNum) _
      (hfits.size h)
    · omega
    · omega
  · rw [if_neg hpos, if_neg hpos]
    have hentry := @listOffset_eq (pages x.metaSize) 0 hmeta
    rw [Nat.add_zero] at hentry
    rw [← hentry]
    apply readListInfo_metaEntry <;> omega

theorem loadingHeadInfo_file {searcher : ExtraStaticSearcher}
    (hflag : searcher.flags.enableDataCompression = x.flags.enableDataCompression)
    (hdict : x.flags.enableDataCompression = true →
      searcher.flags.enableDictTraining = x.flags.enableDictTraining)
    (hfirst : searcher.vectorInfoSize = 0 ∨ searcher.vectorInfoSize = (vectorInfoSize b d : Nat))
    (hfile : x.head x.byteSizes s <+: file) :
    ∃ rest, loadingHeadInfo b searcher limit file =
      some ({ searcher with
        dictBuffer := x.loadedDict
        listInfos :=
          searcher.listInfos ++ (List.range x.postingListSizes.length).map (x.info s limit)
        vectorInfoSize := (vectorInfoSize b d : Nat)
        dataDimension := d
        totalListCount := searcher.totalListCount + x.postingListSizes.length }, rest) := by
  obtain ⟨body, rfl⟩ := hfile
  have hmeta := pages_metaSize_lt hfits
  have hhead : (x.metaSize + paddingSize x.metaSize) / PageSize = pages x.metaSize := by
    rw [add_paddingSize, Nat.mul_div_cancel _ (by decide)]
  have hboth : (searcher.flags.enableDataCompression && searcher.flags.enableDictTraining) =
      (x.flags.enableDataCompression && x.flags.enableDictTraining) := by
    rw [hflag]
    cases hc : x.flags.enableDataCompression with
    | false => rfl
    | true => rw [hdict hc]
  have hinfos := @readListInfos_flatMap searcher.flags.enableDataCompression
    (vectorInfoSize b d : Nat) (pages x.metaSize : Nat) limit (x.metaOf x.byteSizes s)
    (x.info s limit) (List.range x.postingListSizes.length)
    (fun h _ t => by rw [hflag]; exact readListInfo_metaOf hfits hs hdone hbytes h t)
    (x.dictBytes ++ (padding (paddingSize x.metaSize) ++ body))
  rw [List.length_range] at hinfos
  have hread : (if searcher.flags.enableDataCompression && searcher.flags.enableDictTraining then
      readDict else pure [] : Reader UInt8 Bytes)
      (x.dictBytes ++ (padding (paddingSize x.metaSize) ++ body)) =
      some (x.loadedDict, padding (paddingSize x.metaSize) ++ body) := by
    rw [hboth, dictBytes, loadedDict]
    split
    · rename_i hc
      have hlen : x.dictBuffer.length < 256 ^ 8 := by
        have hle : x.dictBuffer.length ≤ x.metaSize := by
          rw [metaSize, if_pos hc]
          omega
        rw [pages_eq] at hmeta
        omega
      rw [readDict, List.append_assoc, reader_bind_eq (readUnsigned_append 8 _ _),
        Nat.mod_eq_of_lt hlen]
      exact readFront_append _
    · rfl
  have hload := @loadingHeadInfo_head b d searcher limit x.postingListSizes.length x.vectorCount
    (pages x.metaSize) _ _ _ _ _ hfirst hfits.count hfits.dimension hfits.record hmeta hinfos hread
  refine ⟨_, Eq.trans ?_ hload⟩
  rw [head, hhead]
  simp only [List.append_assoc]

theorem loadIndex_eq {o : PageOptions} {flags : Flags}
    (hflag : flags.enableDataCompression = x.flags.enableDataCompression)
    (hdict : x.flags.enableDataCompression = true →
      flags.enableDictTraining = x.flags.enableDictTraining)
    (hfile : x.head x.byteSizes s <+: file) :
    { ExtraStaticSearcher.fresh with flags := flags }.loadIndex b d x.flags o [file] =
      some (x.loaded s (loadingPageLimit o (vectorInfoSize b d)) file x.loadedDict) := by
  obtain ⟨rest, hload⟩ := @loadingHeadInfo_file b d x s (loadingPageLimit o (vectorInfoSize b d))
    file hfits hs hdone hbytes
    { ExtraStaticSearcher.fresh with flags := flags, indexFiles := [file] } hflag hdict (.inl rfl)
    hfile
  simp only [ExtraStaticSearcher.loadIndex, List.foldlM_cons, List.foldlM_nil,
    ExtraStaticSearcher.fresh, List.nil_append] at hload ⊢
  rw [hload]
  simp [loaded]

end Load

theorem processPosting_layout {delta rearrange : Bool} {headVector : VectorOf b d}
    {es : List (VID × VectorOf b d)} {buffer : Bytes}
    (h : HoldsAt buffer 0 (layout rearrange (es.map (encodeEntry delta headVector)))) :
    processPosting delta rearrange headVector es.length es.length 0 buffer = some es := by
  apply processPosting_eq (Nat.zero_add _).le
  have hlaid := laid_layout h
  rwa [List.length_map] at hlaid

section Search

variable {x} {s : Selecting} {limit : Nat} {file dict : Bytes}

theorem searchPosting_eq {searcher : ExtraStaticSearcher} {c : Compressor}
    {sample : Nat → VectorOf b d} {pid : Nat} {listInfo : ListInfo} {buffer data : Bytes}
    (hinfo : searcher.listInfos[pid]? = some listInfo) (hdim : searcher.dataDimension = d)
    (hread : searcher.readPages listInfo pid = some buffer)
    (hdata : (if searcher.flags.enableDataCompression then
        searcher.decompressPosting c listInfo buffer
      else some (buffer.drop listInfo.pageOffset)) = some data) :
    searcher.searchPosting c sample pid =
      processPosting searcher.flags.enableDeltaEncoding searcher.flags.enablePostingListRearrange
        (sample pid) listInfo.listEleCount.toNat listInfo.listEleCount.toNat 0 data := by
  simp only [ExtraStaticSearcher.searchPosting, hinfo, hdim, hread, Option.bind_eq_bind,
    Option.bind_some, ne_eq, not_true_eq_false, if_false]
  split at hdata
  · rename_i hc
    rw [if_pos hc, hdata, Option.bind_some]
  · rename_i hc
    rw [if_neg hc, Option.some.inj hdata]

theorem decompressPosting_eq {searcher : ExtraStaticSearcher} {c : Compressor}
    {listInfo : ListInfo} {buffer src data : Bytes} (hne : listInfo.listEleCount ≠ 0)
    (hsrc : readAt buffer listInfo.listTotalBytes listInfo.pageOffset = some src)
    (hsize : toSize (listInfo.listEleCount * searcher.vectorInfoSize) = data.length)
    (hdata : c.decompress searcher.dictBuffer searcher.flags.enableDictTraining src data.length =
      some data) :
    searcher.decompressPosting c listInfo buffer = some data := by
  simp only [ExtraStaticSearcher.decompressPosting, if_neg hne, hsrc, hsize, hdata,
    Option.bind_eq_bind, Option.bind_some, if_true]

theorem readPages_loaded (listInfo : ListInfo) (h : Nat) :
    (x.loaded s limit file dict).readPages listInfo h =
      readAt file (listInfo.listPageCount * PageSize) listInfo.listOffset := rfl

theorem info_loaded {h : Nat} (hh : h < x.postingListSizes.length) :
    (x.loaded s limit file dict).listInfos[h]? = some (x.info s limit h) := by
  rw [loaded, List.getElem?_map, List.getElem?_range hh]
  rfl

theorem info_empty {h : Nat} (hsize : x.postingListSize h = 0) :
    (x.info s limit h).listEleCount = 0 ∧ (x.info s limit h).listPageCount = 0 ∧
      (x.info s limit h).listOffset = pages x.metaSize * PageSize ∧
      (x.info s limit h).pageOffset = 0 := by
  have hzero : pages 0 % 2 ^ 16 = 0 := by decide
  rw [info, hsize, if_neg (Nat.lt_irrefl 0), loadedInfo]
  split
  · exact ⟨rfl, hzero, rfl, rfl⟩
  · simp only [loadedCount, Nat.zero_min, Nat.mul_zero, Nat.add_zero, hzero, Nat.cast_zero,
      and_self]

theorem holdsAt_pages {lo off m n : Nat} {y : Bytes} (hy : HoldsAt file (lo + (off + m)) y)
    (hfit : off + m + y.length ≤ n) :
    HoldsAt (((file.drop lo).take n).drop off) m y := by
  have hdrop := hy.drop (Nat.le_add_right lo _)
  rw [Nat.add_sub_cancel_left] at hdrop
  have htake := (hdrop.take hfit).drop (Nat.le_add_right off m)
  rwa [Nat.add_sub_cancel_left] at htake

structure Written (x : Source b d) (s : Selecting) (file : Bytes) : Prop where
  valid : x.Valid
  selected : Selected x.byteSizes s
  done : s.listRestSize = []
  length_eq : file.length = (pages x.metaSize + pages (x.bodyEnd s)) * PageSize
  holds : ∀ h, x.byteSize h ≠ 0 →
    HoldsAt file (pages x.metaSize * PageSize + s.targetOffset h) (x.chunk h)

variable (hw : Written x s file)

include hw

theorem Written.readAt_pages {h n : Nat} (hne : x.byteSize h ≠ 0)
    (hn : n ≤ pages (x.byteSize h)) :
    readAt file (n * PageSize) ((pages x.metaSize + s.postPageNum h) * PageSize) =
      some ((file.drop ((pages x.metaSize + s.postPageNum h) * PageSize)).take (n * PageSize)) := by
  obtain ⟨hend, hoff, hcross⟩ := target_le_bodyEnd hw.selected hw.done hne
  apply if_pos
  rw [hw.length_eq, ← Nat.add_mul]
  apply Nat.mul_le_mul_right
  have hpage : PageSize = 4096 := rfl
  rw [Selecting.targetOffset, hpage] at hend
  rw [← hcross, pages_eq] at hn
  rw [Nat.add_assoc, pages_eq (x.bodyEnd s)]
  omega

theorem Written.readAt_empty :
    readAt file 0 (pages x.metaSize * PageSize) = some [] := by
  rw [readAt, if_pos, List.take_zero]
  rw [hw.length_eq, Nat.add_zero, Nat.add_mul]
  exact Nat.le_add_right _ _

theorem Written.searchPosting_empty {h : Nat} (hh : h < x.postingListSizes.length)
    (hsize : x.postingListSize h = 0) :
    (x.loaded s limit file dict).searchPosting x.compressor x.headIndex h = some (x.posting h) := by
  have hnil : x.posting h = [] := by
    apply List.length_eq_zero_iff.mp
    rw [hw.valid.length_posting, hsize]
  obtain ⟨hele, hcount, hoff, -⟩ := @info_empty b d x s limit h hsize
  have hpages : (x.loaded s limit file dict).readPages (x.info s limit h) h = some [] := by
    rw [readPages_loaded, hcount, hoff, Nat.zero_mul, hw.readAt_empty]
  have hdata : (if (x.loaded s limit file dict).flags.enableDataCompression then
        (x.loaded s limit file dict).decompressPosting x.compressor (x.info s limit h) []
      else some (([] : Bytes).drop (x.info s limit h).pageOffset)) = some [] := by
    rw [ExtraStaticSearcher.decompressPosting, if_pos hele, List.drop_nil, ite_self]
  rw [searchPosting_eq (info_loaded hh) rfl hpages hdata, hele, hnil]
  rfl

theorem Written.searchPosting_compressed {h : Nat} (hfits : x.Fits) (hlawful : x.compressor.Lawful)
    (hh : h < x.postingListSizes.length) (hc : x.flags.enableDataCompression = true)
    (hsize : x.postingListSize h ≠ 0) (hpages : pages (x.byteSize h) < 2 ^ 16) :
    (x.loaded s limit file x.loadedDict).searchPosting x.compressor x.headIndex h =
      some (x.posting h) := by
  have hlen := hw.valid.length_fullData (h := h)
  have hfull : x.fullData h ≠ [] := by
    apply List.ne_nil_of_length_pos
    rw [hlen]
    exact Nat.mul_pos (Nat.pos_of_ne_zero hsize) (Nat.succ_pos _)
  have hchunk : x.chunk h = x.compress (x.fullData h) := by rw [chunk, if_pos hc]
  have hbyte : x.byteSize h = (x.chunk h).length := by rw [byteSize, if_neg hsize]
  have hne : x.byteSize h ≠ 0 := by
    rw [hbyte, hchunk]
    exact fun hzero => hlawful.compress_ne_nil _ _ _ hfull (List.length_eq_zero_iff.mp hzero)
  obtain ⟨hend, hoff, hcross⟩ := target_le_bodyEnd hw.selected hw.done hne
  have hinfo : x.info s limit h = ⟨x.byteSize h, x.postingListSize h, pages (x.byteSize h),
      (pages x.metaSize + s.postPageNum h) * PageSize, s.postPageOffset h⟩ := by
    rw [info, if_pos (Nat.pos_of_ne_zero hsize), loadedInfo, if_pos hc, Nat.mod_eq_of_lt hpages]
  have hhold : HoldsAt ((file.drop ((pages x.metaSize + s.postPageNum h) * PageSize)).take
      (pages (x.byteSize h) * PageSize)) (s.postPageOffset h) (x.chunk h) := by
    have hholds := hw.holds h hne
    rw [Selecting.targetOffset, ← Nat.add_assoc, ← Nat.add_mul] at hholds
    have hdrop := hholds.drop (Nat.le_add_right _ _)
    rw [Nat.add_sub_cancel_left] at hdrop
    apply hdrop.take
    rw [← hbyte, ← hcross, pages_eq, PageSize]
    omega
  have hdict : x.flags.enableDictTraining = true → x.loadedDict = x.dictBuffer := fun hd => by
    rw [loadedDict, hc, hd]
    rfl
  have htoSize : toSize ((x.postingListSize h : Int) * (vectorInfoSize b d : Nat)) =
      (x.fullData h).length := by
    have hlt : x.postingListSize h * vectorInfoSize b d < 2 ^ 31 * 2 ^ 31 :=
      Nat.mul_lt_mul'' (hfits.size h) hfits.record
    rw [hlen, ← Nat.cast_mul, toSize]
    omega
  have hpages' : (x.loaded s limit file x.loadedDict).readPages (x.info s limit h) h =
      some ((file.drop ((pages x.metaSize + s.postPageNum h) * PageSize)).take
        (pages (x.byteSize h) * PageSize)) := by
    rw [readPages_loaded, hinfo]
    exact hw.readAt_pages hne (Nat.le_refl _)
  have hsrc := hhold.readAt_eq
  rw [← hbyte] at hsrc
  have hele : ((x.postingListSize h : Nat) : Int) ≠ 0 := by exact_mod_cast hsize
  have hdata := @decompressPosting_eq (x.loaded s limit file x.loadedDict) x.compressor
    (x.info s limit h) _ _ (x.fullData h) (by rw [hinfo]; exact hele) (by rw [hinfo]; exact hsrc)
    (by rw [hinfo]; exact htoSize) (by rw [hchunk]; exact hlawful.decompress_compress _ _ _ _ hdict)
  have hflag : (x.loaded s limit file x.loadedDict).flags.enableDataCompression = true := hc
  rw [searchPosting_eq (info_loaded hh) rfl hpages' (by rw [if_pos hflag, hdata]), hinfo]
  rw [Int.toNat_natCast, ← hw.valid.length_posting]
  apply processPosting_layout
  exact ⟨[], [], by rw [List.append_nil]; rfl, rfl⟩

theorem Written.pages_kept_le {h k : Nat} (hc : x.flags.enableDataCompression = false)
    (hsize : x.postingListSize h ≠ 0) (hk : k ≤ x.postingListSize h) :
    pages (vectorInfoSize b d * k + s.postPageOffset h) ≤ pages (x.byteSize h) := by
  have hne := hw.valid.byteSize_ne_zero hc h hsize
  obtain ⟨-, -, hcross⟩ := target_le_bodyEnd hw.selected hw.done hne
  have hkbytes : vectorInfoSize b d * k ≤ x.byteSize h := by
    rw [hw.valid.byteSize_eq hc, Nat.mul_comm]
    exact Nat.mul_le_mul_right _ hk
  rw [← hcross]
  exact Nat.div_le_div_right (Nat.add_le_add_right (Nat.add_le_add_right hkbytes _) _)

theorem Written.info_plain {h k : Nat} (hc : x.flags.enableDataCompression = false)
    (hsize : x.postingListSize h ≠ 0) (hpages : pages (x.byteSize h) < 2 ^ 16)
    (hk : loadedCount (vectorInfoSize b d) limit (x.byteSize h) (x.postingListSize h) = k) :
    x.info s limit h = ⟨toSize (toInt (x.postingListSize h * vectorInfoSize b d : Nat)), k,
      pages (vectorInfoSize b d * k + s.postPageOffset h),
      (pages x.metaSize + s.postPageNum h) * PageSize, s.postPageOffset h⟩ := by
  have hcount : pages (vectorInfoSize b d * k + s.postPageOffset h) ≤ pages (x.byteSize h) :=
    hw.pages_kept_le hc hsize (hk ▸ Nat.min_le_left _ _)
  rw [info, if_pos (Nat.pos_of_ne_zero hsize), loadedInfo, hc, hk,
    Nat.mod_eq_of_lt (Nat.lt_of_le_of_lt hcount hpages)]
  rfl

theorem Written.searchPosting_parses {h k : Nat} (hh : h < x.postingListSizes.length)
    (hc : x.flags.enableDataCompression = false) (hsize : x.postingListSize h ≠ 0)
    (hpages : pages (x.byteSize h) < 2 ^ 16)
    (hk : loadedCount (vectorInfoSize b d) limit (x.byteSize h) (x.postingListSize h) = k) :
    (x.loaded s limit file dict).searchPosting x.compressor x.headIndex h =
      processPosting x.flags.enableDeltaEncoding x.flags.enablePostingListRearrange (x.headIndex h)
        k k 0 (((file.drop ((pages x.metaSize + s.postPageNum h) * PageSize)).take
          (pages (vectorInfoSize b d * k + s.postPageOffset h) * PageSize)).drop
            (s.postPageOffset h)) := by
  have hne := hw.valid.byteSize_ne_zero hc h hsize
  have hread : (x.loaded s limit file dict).readPages (x.info s limit h) h =
      some ((file.drop ((pages x.metaSize + s.postPageNum h) * PageSize)).take
        (pages (vectorInfoSize b d * k + s.postPageOffset h) * PageSize)) := by
    rw [readPages_loaded, hw.info_plain hc hsize hpages hk]
    exact hw.readAt_pages hne (hw.pages_kept_le hc hsize (hk ▸ Nat.min_le_left _ _))
  have hflag : ¬ (x.loaded s limit file dict).flags.enableDataCompression = true :=
    fun h => Bool.false_ne_true (hc.symm.trans h)
  rw [searchPosting_eq (info_loaded hh) rfl hread (if_neg hflag), hw.info_plain hc hsize hpages hk,
    Int.toNat_natCast]
  rfl

theorem Written.holdsAt_page {h k m : Nat} {y : Bytes} (hne : x.byteSize h ≠ 0)
    (hy : HoldsAt (x.chunk h) m y) (hfit : m + y.length ≤ vectorInfoSize b d * k) :
    HoldsAt (((file.drop ((pages x.metaSize + s.postPageNum h) * PageSize)).take
      (pages (vectorInfoSize b d * k + s.postPageOffset h) * PageSize)).drop (s.postPageOffset h))
      m y := by
  have hholds := (hw.holds h hne).trans hy
  rw [Selecting.targetOffset, ← Nat.add_assoc, ← Nat.add_mul, Nat.add_assoc] at hholds
  apply holdsAt_pages hholds
  rw [pages_eq, PageSize]
  omega

/-- A posting that is not compressed is found up to the records that are kept of it, unless
its layout is rearranged and only a part of it is kept. -/
theorem Written.searchPosting_plain {h : Nat} (hh : h < x.postingListSizes.length)
    (hc : x.flags.enableDataCompression = false) (hsize : x.postingListSize h ≠ 0)
    (hpages : pages (x.byteSize h) < 2 ^ 16)
    (hcut : x.flags.enablePostingListRearrange = false ∨ perVectorDataSize b d = 0 ∨
      loadedCount (vectorInfoSize b d) limit (x.byteSize h) (x.postingListSize h) = 0 ∨
      x.postingListSize h ≤
        loadedCount (vectorInfoSize b d) limit (x.byteSize h) (x.postingListSize h)) :
    (x.loaded s limit file dict).searchPosting x.compressor x.headIndex h =
      some ((x.posting h).take
        (loadedCount (vectorInfoSize b d) limit (x.byteSize h) (x.postingListSize h))) := by
  rw [hw.searchPosting_parses hh hc hsize hpages rfl]
  have hkle : loadedCount (vectorInfoSize b d) limit (x.byteSize h) (x.postingListSize h) ≤
      x.postingListSize h := Nat.min_le_left _ _
  generalize loadedCount (vectorInfoSize b d) limit (x.byteSize h) (x.postingListSize h) = k at *
  have hposting : ((x.posting h).take k).length = k := by
    rw [List.length_take, hw.valid.length_posting, Nat.min_eq_left hkle]
  have hprefix : layout x.flags.enablePostingListRearrange (((x.posting h).take k).map
      (encodeEntry x.flags.enableDeltaEncoding (x.headIndex h))) <+: x.chunk h := by
    rw [chunk, if_neg (by rw [hc]; exact Bool.false_ne_true), fullData, List.map_take]
    apply layout_take
    rwa [List.length_map, hw.valid.length_posting]
  obtain ⟨back, hback⟩ := hprefix
  have hhold := @processPosting_layout _ _ _ _ _ ((x.posting h).take k) _
    (hw.holdsAt_page (k := k) (hw.valid.byteSize_ne_zero hc h hsize)
      ⟨[], back, hback.symm, rfl⟩ (by
        rw [length_layout, List.length_map, hposting, Nat.zero_add, Nat.mul_comm]))
  rwa [hposting] at hhold

end Search

end Source

end Sptag.SPANN.Static
