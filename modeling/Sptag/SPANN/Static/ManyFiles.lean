import Sptag.Lib.Shares
import Sptag.SPANN.Static.RoundTrip

/-! An index in several files: `BuildIndex` writes a share of the posting lists to each,
`LoadIndex` reads their heads one after the other, and `GetWritePosting` reads a posting
back as it lies on disk. -/

namespace Sptag.SPANN.Static

open Lib

variable {b d : Nat}

structure Flags.Plain (flags : Flags) : Prop where
  delta : flags.enableDeltaEncoding = false
  rearrange : flags.enablePostingListRearrange = false
  compression : flags.enableDataCompression = false

namespace Source

variable (x : Source b d)

/-- The lists from `first` on and before `stop`, numbered from `first` as they are in their
file. -/
def part (first stop : Nat) : Source b d :=
  { x with
    postingListSizes := (x.postingListSizes.take stop).drop first
    selections := (x.selections.filter fun e => first ≤ e.node ∧ e.node < stop).map fun e =>
      { e with node := e.node - first }
    headIndex := fun h => x.headIndex (first + h) }

def partOf (files i : Nat) : Source b d :=
  x.part (shareStart x.postingListSizes.length files i) (shareEnd x.postingListSizes.length files i)

/-- The files of `BuildIndex`; a range of lists that ends before it starts throws. -/
def writeFiles (files : Nat) (raw : Nat → Nat → Nat) : Option (List Bytes) :=
  (List.range files).mapM fun i =>
    if shareEnd x.postingListSizes.length files i <
      shareStart x.postingListSizes.length files i then
      none
    else (x.partOf files i).write (raw i)

end Source

namespace ExtraStaticSearcher

def loadFile (b postingPageLimit : Nat) (searcher : ExtraStaticSearcher) (file : Bytes) :
    Option ExtraStaticSearcher := do
  let (searcher, _) ← loadingHeadInfo b
    { searcher with indexFiles := searcher.indexFiles ++ [file] }
    postingPageLimit file
  some searcher

def getWritePosting (searcher : ExtraStaticSearcher) (pid : Nat) : Option Bytes := do
  let listInfo ← searcher.listInfos[pid]?
  let posting ← searcher.readPages listInfo pid
  let realBytes := toSize (toInt (listInfo.listEleCount * searcher.vectorInfoSize))
  readAt posting realBytes listInfo.pageOffset

end ExtraStaticSearcher

namespace Source

section Part

variable {x : Source b d} {first stop h : Nat}

theorem postingListSize_part (hh : first + h < stop) :
    (x.part first stop).postingListSize h = x.postingListSize (first + h) := by
  rw [postingListSize, postingListSize, part, List.getD_eq_getElem?_getD,
    List.getD_eq_getElem?_getD, List.getElem?_drop, List.getElem?_take_of_lt hh]

theorem postingListSize_part_of_le (hh : stop ≤ first + h) :
    (x.part first stop).postingListSize h = 0 := by
  apply postingListSize_of_le
  rw [part, List.length_drop, List.length_take]
  omega

theorem filter_part (hh : first + h < stop) :
    ((x.part first stop).selections.filter fun e => e.node = h) =
      (x.selections.filter fun e => e.node = first + h).map fun e =>
        { e with node := e.node - first } := by
  rw [part, List.filter_map, List.filter_filter]
  congr 1
  apply List.filter_congr
  intro e _
  simp only [Function.comp_apply, ← Bool.decide_and, decide_eq_decide]
  omega

theorem posting_part (hh : first + h < stop) :
    (x.part first stop).posting h = x.posting (first + h) := by
  rw [posting, posting, postingOf, postingOf, filter_part hh, postingListSize_part hh,
    ← List.map_take, List.map_map]
  rfl

theorem Valid.part (hx : x.Valid) (first stop : Nat) : (x.part first stop).Valid where
  sorted := by
    rw [Source.part, List.pairwise_map]
    exact (hx.sorted.sublist List.filter_sublist).imp fun h => Nat.sub_le_sub_right h first
  size_le h := by
    cases Nat.lt_or_ge (first + h) stop with
    | inl hlt =>
      rw [postingListSize_part hlt, filter_part hlt, List.length_map]
      exact hx.size_le (first + h)
    | inr hge =>
      rw [postingListSize_part_of_le hge]
      exact Nat.zero_le _

@[simp] theorem length_partOf (files i : Nat) :
    (x.partOf files i).postingListSizes.length =
      shareEnd x.postingListSizes.length files i - shareStart
        x.postingListSizes.length files i := by
  rw [partOf, Source.part, List.length_drop, List.length_take,
    Nat.min_eq_left shareEnd_le]

theorem partOf_one (hnode : ∀ e ∈ x.selections, e.node < x.postingListSizes.length) :
    x.partOf 1 0 = x := by
  have hstop : shareEnd x.postingListSizes.length 1 0 = x.postingListSizes.length :=
    shareEnd_last Nat.one_pos
  have hfilter : (x.selections.filter fun e => 0 ≤ e.node ∧ e.node < x.postingListSizes.length) =
      x.selections := by
    apply List.filter_eq_self.mpr
    intro e he
    simpa using hnode e he
  have hhead : (fun h => x.headIndex (0 + h)) = x.headIndex := by
    funext h
    rw [Nat.zero_add]
  rw [partOf, shareStart_zero, hstop, Source.part, List.take_length, List.drop_zero, hfilter, hhead]
  exact congrArg (fun es => { x with selections := es }) (List.map_id _)

end Part

section Files

variable {x : Source b d} {files : Nat} {raw : Nat → Nat → Nat}

theorem Valid.writeFiles_spec (hx : x.Valid) (hdiv : Divides x.postingListSizes.length files)
    (raw : Nat → Nat → Nat) :
    ∃ (s : Nat → Selecting) (file : Nat → Bytes),
      x.writeFiles files raw = some ((List.range files).map file) ∧
      ∀ i < files, (x.partOf files i).head (x.partOf files i).byteSizes (s i) <+: file i ∧
        Written (x.partOf files i) (s i) (file i) := by
  choose s file hwrite hhead hw using fun i =>
    (hx.part (shareStart x.postingListSizes.length files i)
      (shareEnd x.postingListSizes.length files i)).write_spec (raw i)
  refine ⟨s, file, mapM_eq_some fun i hi => ?_, fun i _ => ⟨hhead i, hw i⟩⟩
  rw [if_neg (Nat.not_lt.mpr (shareStart_le_shareEnd hdiv (List.mem_range.mp hi)))]
  exact hwrite i

theorem divides_of_writeFiles {fs : List Bytes} (hfiles : 0 < files)
    (h : x.writeFiles files raw = some fs) : Divides x.postingListSizes.length files := by
  by_contra hnot
  have hstart : x.postingListSizes.length <
    shareStart x.postingListSizes.length files (files - 1) :=
    not_le.mp hnot
  have hnone : x.writeFiles files raw = none := by
    apply mapM_eq_none (List.mem_range.mpr (Nat.sub_one_lt hfiles.ne'))
    rw [if_pos (lt_of_le_of_lt shareEnd_le hstart)]
  rw [hnone] at h
  cases h

end Files

end Source

section Load

variable {limit : Nat}

structure Extended (b d : Nat) (searcher searcher' : ExtraStaticSearcher) (infos : List ListInfo)
    (files : List Bytes) : Prop where
  listInfos : searcher'.listInfos = searcher.listInfos ++ infos
  indexFiles : searcher'.indexFiles = searcher.indexFiles ++ files
  totalListCount : searcher'.totalListCount = searcher.totalListCount + infos.length
  vectorInfoSize : searcher.vectorInfoSize = (vectorInfoSize b d : Nat) ∨ files ≠ [] →
    searcher'.vectorInfoSize = (vectorInfoSize b d : Nat)

theorem foldlM_loadFile {part : Nat → Source b d} {s : Nat → Selecting} {file : Nat → Bytes}
    {is : List Nat} {searcher : ExtraStaticSearcher}
    (hflag : searcher.flags.enableDataCompression = false)
    (hfirst : searcher.vectorInfoSize = 0 ∨ searcher.vectorInfoSize = (vectorInfoSize b d : Nat))
    (his : ∀ i ∈ is, (part i).flags.enableDataCompression = false ∧ (part i).Fits ∧
      (part i).head (part i).byteSizes (s i) <+: file i ∧ (part i).Written (s i) (file i)) :
    ∃ searcher', (is.map file).foldlM (ExtraStaticSearcher.loadFile b limit) searcher =
        some searcher' ∧
      Extended b d searcher searcher' (is.flatMap fun i =>
        (List.range (part i).postingListSizes.length).map ((part i).info (s i) limit))
        (is.map file) := by
  induction is generalizing searcher with
  | nil =>
    refine ⟨searcher, rfl, (List.append_nil _).symm, (List.append_nil _).symm,
      (Int.add_zero _).symm,
      fun h => ?_⟩
    exact h.elim id fun hne => absurd rfl hne
  | cons i is ih =>
    obtain ⟨hc, hfits, hhead, hw⟩ := his i List.mem_cons_self
    have hdict : (part i).flags.enableDataCompression = true →
        searcher.flags.enableDictTraining = (part i).flags.enableDictTraining := by
      intro h
      rw [hc] at h
      cases h
    obtain ⟨rest, hload⟩ := @Source.loadingHeadInfo_file b d (part i) (s i) limit (file i) hfits
      hw.selected hw.done (hw.valid.byteSize_ne_zero hc)
      { searcher with indexFiles := searcher.indexFiles ++ [file i] } (hflag.trans hc.symm) hdict
      hfirst hhead
    obtain ⟨searcher', hfold, hext⟩ := @ih
      { searcher with
        indexFiles := searcher.indexFiles ++ [file i]
        dictBuffer := (part i).loadedDict
        listInfos := searcher.listInfos ++
          (List.range (part i).postingListSizes.length).map ((part i).info (s i) limit)
        vectorInfoSize := (vectorInfoSize b d : Nat)
        dataDimension := d
        totalListCount := searcher.totalListCount + (part i).postingListSizes.length }
      hflag (.inr rfl) fun j hj => his j (List.mem_cons_of_mem i hj)
    refine ⟨searcher', ?_, ?_, ?_, ?_, fun _ => hext.vectorInfoSize (.inl rfl)⟩
    · rw [List.map_cons, List.foldlM_cons, ExtraStaticSearcher.loadFile, hload]
      exact hfold
    · rw [hext.listInfos, List.flatMap_cons, List.append_assoc]
    · rw [hext.indexFiles, List.map_cons, List.append_assoc]
      rfl
    · rw [hext.totalListCount, List.flatMap_cons, List.length_append, List.length_map,
        List.length_range, Nat.cast_add, Int.add_assoc]

theorem flatMap_range_map {α : Type*} {n k : Nat} (hdiv : Divides n k) (hk : 0 < k)
    (info : Nat → Nat → α) :
    ((List.range k).flatMap fun i =>
      (List.range (shareEnd n k i - shareStart n k i)).map (info i)) =
      (List.range n).map fun p => info (p / share n k) (p - shareStart n k (p / share n k)) := by
  rw [← flatMap_shares hdiv hk, List.map_flatMap]
  apply List.flatMap_congr
  intro i hi
  rw [List.range'_eq_map_range, List.map_map]
  apply List.map_congr_left
  intro j hj
  have hj' : j < shareEnd n k i - shareStart n k i := List.mem_range.mp hj
  have hle := shareEnd_le (n := n) (k := k) (i := i)
  have hshare : i = (shareStart n k i + j) / share n k :=
    (mem_share_iff (by omega) hk).mp ⟨Nat.le_add_right _ _, by omega⟩
  rw [Function.comp_apply, ← hshare, Nat.add_sub_cancel_left]

theorem loadIndex_files {x : Source b d} {files : Nat} {s : Nat → Selecting} {file : Nat → Bytes}
    {o : PageOptions} (hfiles : 0 < files) (hdiv : Divides x.postingListSizes.length files)
    (hc : x.flags.enableDataCompression = false) (hfits : ∀ i < files, (x.partOf files i).Fits)
    (hwritten : ∀ i < files, (x.partOf files i).head (x.partOf files i).byteSizes (s i) <+: file i ∧
      (x.partOf files i).Written (s i) (file i)) :
    ∃ searcher, ExtraStaticSearcher.fresh.loadIndex b d x.flags o ((List.range files).map file) =
        some searcher ∧
      searcher.vectorInfoSize = (vectorInfoSize b d : Nat) ∧
      ∀ p < x.postingListSizes.length, ∃ i h, i < files ∧
        shareStart x.postingListSizes.length files i + h = p ∧
        p < shareEnd x.postingListSizes.length files i ∧
        searcher.listInfos[p]? = some ((x.partOf files i).info (s i)
          (loadingPageLimit o (vectorInfoSize b d)) h) ∧
        searcher.indexFiles[searcher.fileid p]? = some (file i) := by
  obtain ⟨searcher, hfold, hext⟩ := @foldlM_loadFile b d (loadingPageLimit o (vectorInfoSize b d))
    (x.partOf files) s file (List.range files) ExtraStaticSearcher.fresh rfl (.inl rfl)
    fun i hi => ⟨hc, hfits i (List.mem_range.mp hi), hwritten i (List.mem_range.mp hi)⟩
  simp only [Source.length_partOf] at hext
  have hinfos := hext.listInfos
  rw [flatMap_range_map hdiv hfiles] at hinfos
  have hnum : searcher.indexFiles.length = files := by
    rw [hext.indexFiles, List.length_append, List.length_map, List.length_range]
    exact Nat.zero_add files
  have hcount : searcher.totalListCount = x.postingListSizes.length := by
    rw [hext.totalListCount, flatMap_range_map hdiv hfiles, List.length_map, List.length_range]
    exact Int.zero_add _
  have hper : ((searcher.totalListCount + searcher.indexFiles.length - 1) /
      searcher.indexFiles.length).toNat = share x.postingListSizes.length files := by
    have hsub : ((x.postingListSizes.length + files - 1 : Nat) : Int) =
        x.postingListSizes.length + files - 1 := by omega
    rw [hcount, hnum, ← hsub, ← Int.natCast_div, Int.toNat_natCast, share]
  refine ⟨_, by
    rw [ExtraStaticSearcher.loadIndex]
    exact congrArg (Option.bind · _) hfold, ?_, fun p hp => ?_⟩
  · exact hext.vectorInfoSize (.inr (by simpa using hfiles.ne'))
  · obtain ⟨hfirst, hstop⟩ := (mem_share_iff hp hfiles).mpr rfl
    refine ⟨p / share x.postingListSizes.length files, _, div_share_lt hp hfiles,
      Nat.add_sub_cancel' hfirst, hstop, ?_, ?_⟩
    · simp only [hinfos, ExtraStaticSearcher.fresh, List.nil_append, List.getElem?_map,
        List.getElem?_range hp, Option.map_some]
    · have hfile : searcher.indexFiles[p / share x.postingListSizes.length files]? =
          some (file (p / share x.postingListSizes.length files)) := by
        rw [hext.indexFiles, ExtraStaticSearcher.fresh, List.nil_append, List.getElem?_map,
          List.getElem?_range (div_share_lt hp hfiles), Option.map_some]
      rw [← hfile, ExtraStaticSearcher.fileid, hper]
      split
      · rename_i hone
        have hfiles' : files = 1 := hnum.symm.trans hone
        rw [hfiles', share, Nat.add_sub_cancel, Nat.div_one, Nat.div_eq_of_lt hp]
      · rfl

end Load

section Read

variable {x : Source b d} {s : Selecting} {limit pid h : Nat} {file : Bytes}
  {searcher : ExtraStaticSearcher}

theorem info_listEleCount (hc : x.flags.enableDataCompression = false) :
    (x.info s limit h).listEleCount =
      loadedCount (vectorInfoSize b d) limit (x.byteSize h) (x.postingListSize h) := by
  rw [Source.info]
  split
  · rw [loadedInfo, hc]
    rfl
  · rename_i hzero
    rw [loadedInfo, hc, Nat.eq_zero_of_not_pos hzero, loadedCount, loadedCount, Nat.zero_min,
      Nat.zero_min]
    rfl

theorem loadedCount_mul_lt (info limit byte size : Nat) :
    loadedCount info limit byte size * info < 2 ^ 31 := by
  have hcount : loadedCount info limit byte size ≤ min (pages byte % 2 ^ 16) limit *
    PageSize / info :=
    Nat.min_le_right _ _
  have hmul := (Nat.mul_le_mul_right info hcount).trans (Nat.div_mul_le_self _ _)
  have hmod := Nat.mod_lt (pages byte) (Nat.two_pow_pos 16)
  have hmin := Nat.mul_le_mul_right PageSize (Nat.min_le_left (pages byte % 2 ^ 16) limit)
  rw [PageSize] at hmul hmin
  omega

theorem realBytes_eq {k info : Nat} (h : k * info < 2 ^ 31) :
    toSize (toInt ((k : Int) * info)) = k * info := by
  rw [← Nat.cast_mul, toInt_of_lt h, toSize_of_lt (h.trans (by decide))]

theorem length_getWritePosting (hc : x.flags.enableDataCompression = false)
    (hinfo : searcher.listInfos[pid]? = some (x.info s limit h))
    (hsize : searcher.vectorInfoSize = (vectorInfoSize b d : Nat)) {posting : Bytes}
    (hget : searcher.getWritePosting pid = some posting) :
    posting.length = loadedCount (vectorInfoSize b d) limit (x.byteSize h) (x.postingListSize h) *
      vectorInfoSize b d := by
  rw [ExtraStaticSearcher.getWritePosting, hinfo, Option.bind_eq_bind, Option.bind_some] at hget
  obtain ⟨buffer, -, hget⟩ := Option.bind_eq_some_iff.mp hget
  rw [info_listEleCount hc, hsize, realBytes_eq (loadedCount_mul_lt ..)] at hget
  exact length_of_readAt hget

theorem chunk_plain (hplain : x.flags.Plain) (h : Nat) :
    x.chunk h = (x.posting h).flatMap recordBytes := by
  have hid : encodeEntry false (x.headIndex h) = id := rfl
  rw [Source.chunk, Source.fullData, hplain.compression, hplain.rearrange, hplain.delta, hid,
    List.map_id]
  rfl

theorem Source.Written.getWritePosting_eq (hw : x.Written s file) (hplain : x.flags.Plain)
    (hinfo : searcher.listInfos[pid]? = some (x.info s limit h))
    (hfile : searcher.indexFiles[searcher.fileid pid]? = some file)
    (hsize : searcher.vectorInfoSize = (vectorInfoSize b d : Nat))
    (hpages : pages (x.byteSize h) < 2 ^ 16) {k : Nat}
    (hk : loadedCount (vectorInfoSize b d) limit (x.byteSize h) (x.postingListSize h) = k) :
    searcher.getWritePosting pid = some (((x.posting h).take k).flatMap recordBytes) := by
  have hc := hplain.compression
  have hkle : k ≤ x.postingListSize h := hk ▸ Nat.min_le_left _ _
  have hbytes : toSize (toInt ((k : Int) * (vectorInfoSize b d : Nat))) = k * vectorInfoSize b d :=
    realBytes_eq (hk ▸ loadedCount_mul_lt ..)
  have hele : (x.info s limit h).listEleCount = k := (info_listEleCount hc).trans (congrArg _ hk)
  have hlen : (((x.posting h).take k).flatMap recordBytes).length = k * vectorInfoSize b d := by
    rw [length_flatMap_of_size fun e _ => length_recordBytes e, List.length_take,
      hw.valid.length_posting, Nat.min_eq_left hkle]
  simp only [ExtraStaticSearcher.getWritePosting, ExtraStaticSearcher.readPages, hinfo, hfile,
    Option.bind_eq_bind, Option.bind_some, hele, hsize, hbytes]
  by_cases hzero : x.postingListSize h = 0
  · -- no page is read, and nothing is copied from it
    obtain ⟨-, hcount, hoff, hpageOffset⟩ := @Source.info_empty b d x s limit h hzero
    have hk0 : k = 0 := Nat.le_zero.mp (hzero ▸ hkle)
    rw [hcount, hoff, hpageOffset, Nat.zero_mul, hw.readAt_empty, Option.bind_some, hk0,
      Nat.zero_mul, List.take_zero]
    rfl
  · have hne := hw.valid.byteSize_ne_zero hc h hzero
    have hread := hw.readAt_pages hne (hw.pages_kept_le hc hzero hkle)
    have hprefix : HoldsAt (x.chunk h) 0 (((x.posting h).take k).flatMap recordBytes) := by
      obtain ⟨back, hback⟩ := @layout_take b d false (x.posting h) k (.inl rfl)
      exact ⟨[], back, (chunk_plain hplain h).trans hback.symm, rfl⟩
    have hholds := (hw.holds h hne).trans hprefix
    rw [Selecting.targetOffset, ← Nat.add_assoc, ← Nat.add_mul, Nat.add_zero] at hholds
    have hdrop := hholds.drop (Nat.le_add_right _ _)
    rw [Nat.add_sub_cancel_left] at hdrop
    simp only [hw.info_plain hc hzero hpages hk, hread, Option.bind_some]
    rw [← hlen]
    apply HoldsAt.readAt_eq
    apply hdrop.take
    rw [hlen, pages_eq, PageSize, Nat.mul_comm (vectorInfoSize b d)]
    omega

end Read

theorem getWritePosting_files {x : Source b d} {files : Nat} {raw : Nat → Nat → Nat}
    {fs : List Bytes} (o : PageOptions) (hfiles : 0 < files) (hx : x.Valid) (hplain : x.flags.Plain)
    (hfits : ∀ i < files, (x.partOf files i).Fits) (hwrite : x.writeFiles files raw = some fs) :
    ∃ searcher, ExtraStaticSearcher.fresh.loadIndex b d x.flags o fs = some searcher ∧
      ∀ p < x.postingListSizes.length, ∀ k, loadedCount (vectorInfoSize b d)
        (loadingPageLimit o (vectorInfoSize b d)) (x.postingListSize p * vectorInfoSize b d)
        (x.postingListSize p) = k →
        (∀ posting, searcher.getWritePosting p = some posting →
          posting.length = k * vectorInfoSize b d) ∧
        (pages (x.postingListSize p * vectorInfoSize b d) < 2 ^ 16 →
          searcher.getWritePosting p = some (((x.posting p).take k).flatMap recordBytes)) := by
  have hdiv := Source.divides_of_writeFiles hfiles hwrite
  obtain ⟨s, file, hfs, hwritten⟩ := hx.writeFiles_spec hdiv raw
  rw [hwrite] at hfs
  cases hfs
  obtain ⟨searcher, hload, hsize, hlists⟩ :=
    @loadIndex_files b d x files s file o hfiles hdiv hplain.compression hfits hwritten
  refine ⟨searcher, hload, fun p hp k hk => ?_⟩
  obtain ⟨i, h, hi, rfl, hlt, hinfo, hfile⟩ := hlists p hp
  obtain ⟨-, hw⟩ := hwritten i hi
  have hcount : (x.partOf files i).postingListSize h = x.postingListSize _ :=
    Source.postingListSize_part hlt
  have hbyte := hw.valid.byteSize_eq hplain.compression h
  rw [hcount] at hbyte
  have hk' : loadedCount (vectorInfoSize b d) (loadingPageLimit o (vectorInfoSize b d))
      ((x.partOf files i).byteSize h) ((x.partOf files i).postingListSize h) = k := by
    rw [hbyte, hcount]
    exact hk
  constructor
  · intro posting hget
    have hlen := @length_getWritePosting b d (x.partOf files i) (s i) _ _ h searcher
      hplain.compression hinfo hsize posting hget
    rw [hlen, hk']
  · intro hpages
    rw [← hbyte] at hpages
    rw [hw.getWritePosting_eq hplain hinfo hfile hsize hpages hk', Source.partOf,
      Source.posting_part hlt]

end Sptag.SPANN.Static
