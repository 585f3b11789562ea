import Sptag.SPANN.Static.RoundTrip

/-! The options under which some posting does not come back, and the exact condition. -/

namespace Sptag.SPANN.Static

open Lib

variable {b d : Nat}

theorem length_processPosting {delta rearrange : Bool} {headVector : VectorOf b d}
    {eleCount n i : Nat} {buffer : Bytes} {found : List (VID × VectorOf b d)}
    (h : processPosting delta rearrange headVector eleCount n i buffer = some found) :
    found.length = n := by
  induction n generalizing i buffer found with
  | zero =>
    cases h
    rfl
  | succ n ih =>
    simp only [processPosting, Option.bind_eq_bind, Option.bind_eq_some_iff, Option.some.injEq] at h
    obtain ⟨_, -, _, -, _, -, rest, hrest, rfl⟩ := h
    rw [List.length_cons, ih hrest]

theorem length_searchPosting {searcher : ExtraStaticSearcher} {c : Compressor}
    {sample : Nat → VectorOf b d} {pid : Nat} {listInfo : ListInfo}
    {found : List (VID × VectorOf b d)} (hinfo : searcher.listInfos[pid]? = some listInfo)
    (h : searcher.searchPosting c sample pid = some found) :
    found.length = listInfo.listEleCount.toNat := by
  rw [ExtraStaticSearcher.searchPosting, hinfo, Option.bind_eq_bind, Option.bind_some] at h
  split at h
  · cases h
  · obtain ⟨_, -, h⟩ := Option.bind_eq_some_iff.mp h
    split at h
    · obtain ⟨_, -, h⟩ := Option.bind_eq_some_iff.mp h
      exact length_processPosting h
    · exact length_processPosting h

def Compressor.copy : Compressor := ⟨fun _ _ data => data, fun _ _ src _ => some src⟩

theorem Compressor.copy_lawful : Compressor.copy.Lawful := ⟨fun _ _ _ _ _ => rfl, fun _ _ _ h => h⟩

def single (b d : Nat) (flags : Flags) (n : Nat) : Source b d where
  flags := flags
  compressor := .copy
  dictBuffer := []
  postingListSizes := [n]
  selections := (List.range n).map fun i => ⟨0, BitVec.ofNat _ (i + 1)⟩
  fullVectors := fun _ => 0
  vectorCount := n + 1
  headIndex := fun _ => 0

section Single

variable {flags : Flags} {n postingPageLimit : Nat}

@[simp] theorem filter_single : ((single b d flags n).selections.filter fun e => e.node = 0) =
    (single b d flags n).selections := by
  apply List.filter_eq_self.mpr
  intro e he
  obtain ⟨i, -, rfl⟩ := List.mem_map.mp he
  rfl

theorem postingListSize_single (h : Nat) :
    (single b d flags n).postingListSize h = if h = 0 then n else 0 := by
  cases h with
  | zero => rfl
  | succ h => rfl

theorem single_valid : (single b d flags n).Valid where
  sorted := by
    rw [single, List.pairwise_map]
    exact List.pairwise_of_forall fun _ _ => Nat.le_refl 0
  size_le h := by
    rw [postingListSize_single]
    split
    · rename_i hzero
      rw [hzero, filter_single, single, List.length_map, List.length_range]
    · exact Nat.zero_le _

theorem posting_single : (single b d flags n).posting 0 =
    (List.range n).map fun i => (BitVec.ofNat _ (i + 1), 0) := by
  rw [Source.posting, postingOf, filter_single, postingListSize_single, if_pos rfl,
    List.take_of_length_le (by rw [single, List.length_map, List.length_range]),
      single, List.map_map]
  rfl

@[simp] theorem byteSize_single : (single b d flags n).byteSize 0 = n * vectorInfoSize b d := by
  have hfull := (@single_valid b d flags n).length_fullData (h := 0)
  rw [postingListSize_single, if_pos rfl] at hfull
  have hchunk : (single b d flags n).chunk 0 = (single b d flags n).fullData 0 := by
    rw [Source.chunk]
    exact ite_self _
  rw [Source.byteSize, hchunk, postingListSize_single, if_pos rfl, hfull]
  split
  · rw [‹n = 0›, Nat.zero_mul]
  · rfl

@[simp] theorem pages_metaSize_single : pages (single b d flags n).metaSize = 1 := by
  have hle : 28 ≤ (single b d flags n).metaSize ∧ (single b d flags n).metaSize ≤ 44 := by
    obtain ⟨delta, rearrange, compression, training⟩ := flags
    cases compression <;> cases training <;> simp [Source.metaSize, single]
  rw [pages_eq]
  omega

theorem single_fits (hd : d < 2 ^ 31) (hrec : vectorInfoSize b d < 2 ^ 31) (hn : n < 2 ^ 31)
    (hpages : 1 + pages (n * vectorInfoSize b d) < 2 ^ 31) : (single b d flags n).Fits where
  count := Nat.one_lt_two_pow (by decide)
  size h := by
    rw [postingListSize_single]
    split <;> omega
  dimension := hd
  record := hrec
  pageNum := by
    rw [pages_metaSize_single]
    have hrange : (List.range (single b d flags n).postingListSizes.length) = [0] := rfl
    rw [hrange, List.map_singleton, List.sum_singleton, byteSize_single]
    exact hpages

theorem RoundTrips.found_single (h : RoundTrips flags postingPageLimit b d) (hd : d < 2 ^ 31)
    (hrec : vectorInfoSize b d < 2 ^ 31) (hn : n < 2 ^ 31)
    (hpages : 1 + pages (n * vectorInfoSize b d) < 2 ^ 31)
    (hlimit : n * vectorInfoSize b d ≤ postingPageLimit * PageSize) (limit : Nat) :
    ∃ file searcher found, (single b d flags n).write (fun _ => 0) = some file ∧
      ExtraStaticSearcher.fresh.loadIndex b d flags ⟨limit, limit, 0, 0⟩ [file] = some searcher ∧
      searcher.searchPosting .copy (fun _ => (0 : VectorOf b d)) 0 = some found ∧
      found <+: (List.range n).map (fun i => (BitVec.ofNat _ (i + 1), 0)) ∧
      (postingPageLimit ≤ limit → found.length = n) := by
  obtain ⟨file, searcher, hwrite, hload, hfound⟩ := h (single b d flags n) (fun _ => 0)
    ⟨limit, limit, 0, 0⟩ rfl single_valid Compressor.copy_lawful (single_fits hd hrec hn hpages)
    fun h => by
      rw [postingListSize_single]
      split
      · exact hlimit
      · rw [Nat.zero_mul]
        exact Nat.zero_le _
  obtain ⟨found, hsearch, hprefix, hall⟩ := hfound 0 (Nat.zero_lt_succ _)
  refine ⟨file, searcher, found, hwrite, hload, hsearch, posting_single ▸ hprefix, fun hle => ?_⟩
  have hlimit' : loadingPageLimit ⟨limit, limit, 0, 0⟩ (vectorInfoSize b d) = limit := by
    rw [loadingPageLimit, PageOptions.toSizeOptions, SizeOptions.pagesOf,
      Nat.cast_zero, Int.zero_mul]
    exact Nat.max_zero limit
  rw [hall (hlimit'.symm ▸ hle), posting_single, List.length_map, List.length_range]

end Single

section Compression

variable {flags : Flags} {postingPageLimit : Nat}

theorem metaEntry_shifted {byte : Nat} (hbyte : byte < 2 ^ 32) (pageOffset eleCount : Nat) :
    metaEntry true byte 0 pageOffset eleCount = metaEntry false 0 byte 0 0 ++
      (leBytes 2 pageOffset ++ (leBytes 4 eleCount ++ leBytes 2 (listPageCount byte))) := by
  have hhigh : byte / 256 / 256 / 256 / 256 = 0 := by omega
  simp only [metaEntry, if_true, Bool.false_eq_true, if_false, List.nil_append,
    leBytes, hhigh, List.cons_append, Nat.zero_div, show listPageCount 0 = 0 from rfl]

theorem postPageNum_single {n : Nat} {s : Selecting} {file : Bytes} (hn : n ≠ 0)
    (hw : Source.Written (single b d flags n) s file) : s.postPageNum 0 = 0 := by
  have hne : (single b d flags n).byteSize 0 ≠ 0 := by
    rw [byteSize_single]
    exact Nat.mul_ne_zero hn (Nat.succ_ne_zero _)
  obtain ⟨hend, -, hcross⟩ := Source.target_le_bodyEnd hw.selected hw.done hne
  have hbody := Source.pages_bodyEnd_le hw.selected
  have hrange : (List.range (single b d flags n).postingListSizes.length) = [0] := rfl
  rw [hrange, List.map_singleton, List.sum_singleton] at hbody
  have hpage : PageSize = 4096 := rfl
  rw [Selecting.targetOffset, hpage] at hend
  rw [pages_eq, pages_eq] at hbody hcross
  omega

theorem fresh_loadIndex_compressed {n limit : Nat} {file : Bytes} {s : Selecting}
    {searcher : ExtraStaticSearcher} (hc : flags.enableDataCompression = true) (hn : n ≠ 0)
    (hd : d < 2 ^ 31) (hrec : vectorInfoSize b d < 2 ^ 31)
    (hbyte : n * vectorInfoSize b d < 2 ^ 31)
    (hplace : s.postPageNum 0 = 0)
    (hhead : (single b d flags n).head (single b d flags n).byteSizes s <+: file)
    (hload : ExtraStaticSearcher.fresh.loadIndex b d flags ⟨limit, limit, 0, 0⟩ [file] =
      some searcher) :
    ∃ listInfo, searcher.listInfos[0]? = some listInfo ∧ listInfo.listEleCount = 0 := by
  obtain ⟨body, rfl⟩ := hhead
  have hpages : ((single b d flags n).metaSize +
    paddingSize (single b d flags n).metaSize) / PageSize =
      1 := by
    rw [add_paddingSize, pages_metaSize_single, Nat.mul_div_cancel _ (by decide)]
  have hentry : (single b d flags n).metaOf (single b d flags n).byteSizes s 0 =
      metaEntry true (n * vectorInfoSize b d) 0 (s.postPageOffset 0) n := by
    rw [Source.metaOf, postingListSize_single, if_pos rfl, if_pos (Nat.pos_of_ne_zero hn),
      Source.getD_byteSizes, byteSize_single, hplace, ← hc]
    rfl
  have hread : ∀ t, readListInfos false (vectorInfoSize b d : Nat)
      (loadingPageLimit ⟨limit, limit, 0, 0⟩ (vectorInfoSize b d)) (1 : Nat) 1
        (metaEntry false 0 (n * vectorInfoSize b d) 0 0 ++ t) =
      some ([loadedInfo false (vectorInfoSize b d)
        (loadingPageLimit ⟨limit, limit, 0, 0⟩ (vectorInfoSize b d))
        (toSize (toInt (((1 : Nat) : Int) + (n * vectorInfoSize b d : Nat))) *
          PageSize % 2 ^ 64) 0 0 0],
        t) := by
    intro t
    rw [readListInfos, reader_bind_eq (readListInfo_metaEntry false (by decide) hbyte (by decide)
      (by decide) t)]
    rfl
  obtain ⟨tail, hfile⟩ : ∃ tail,
    (single b d flags n).head (single b d flags n).byteSizes s ++ body =
      leBytes 4 1 ++ (leBytes 4 (n + 1) ++ (leBytes 4 d ++ (leBytes 4 1 ++
        (metaEntry false 0 (n * vectorInfoSize b d) 0 0 ++ tail)))) := by
    have hrange : (List.range (single b d flags n).postingListSizes.length) = [0] := rfl
    rw [Source.head, hpages, hrange, List.flatMap_singleton, hentry, metaEntry_shifted (by omega)]
    simp only [List.append_assoc]
    exact ⟨_, rfl⟩
  have hhead := @loadingHeadInfo_head b d
    { ExtraStaticSearcher.fresh with
      indexFiles := [(single b d flags n).head (single b d flags n).byteSizes s ++ body] }
    (loadingPageLimit ⟨limit, limit, 0, 0⟩ (vectorInfoSize b d)) 1 (n + 1) 1 _ tail tail [] _
    (.inl rfl) (by decide) hd hrec (by decide) (hread tail) rfl
  rw [← hfile] at hhead
  simp only [ExtraStaticSearcher.loadIndex, List.foldlM_cons, List.foldlM_nil,
    ExtraStaticSearcher.fresh, List.nil_append] at hhead hload
  rw [hhead] at hload
  cases hload
  refine ⟨_, rfl, ?_⟩
  simp only [loadedInfo, Bool.false_eq_true, if_false, loadedCount, Nat.zero_min, Nat.cast_zero]

theorem not_roundTrips_compressed (hd : d < 2 ^ 31) (hrec : vectorInfoSize b d < 2 ^ 31)
    (hc : flags.enableDataCompression = true)
    (hlimit : vectorInfoSize b d ≤ postingPageLimit * PageSize) :
    ¬ RoundTrips flags postingPageLimit b d := by
  intro h
  have hpages : 1 + pages (1 * vectorInfoSize b d) < 2 ^ 31 := by
    rw [pages_eq]
    omega
  obtain ⟨file, searcher, found, hwrite, hload, hsearch, -, hall⟩ := h.found_single hd hrec
    (by decide) hpages (by rwa [Nat.one_mul]) postingPageLimit
  obtain ⟨s, file', hwrite', hhead, hw⟩ := (@single_valid b d flags 1).write_spec fun _ => 0
  rw [hwrite] at hwrite'
  cases hwrite'
  obtain ⟨listInfo, hinfo, hele⟩ := fresh_loadIndex_compressed hc Nat.one_ne_zero hd hrec
    (by rwa [Nat.one_mul]) (postPageNum_single Nat.one_ne_zero hw) hhead hload
  have hlen := length_searchPosting hinfo hsearch
  rw [hall (Nat.le_refl _), hele] at hlen
  cases hlen

end Compression

section Plain

variable {flags : Flags} {postingPageLimit n limit : Nat}

theorem search_single (hc : flags.enableDataCompression = false) (hd : d < 2 ^ 31)
    (hrec : vectorInfoSize b d < 2 ^ 31) (hn : n < 2 ^ 31)
    (hpages : 1 + pages (n * vectorInfoSize b d) < 2 ^ 31) {file : Bytes}
    {searcher : ExtraStaticSearcher}
    (hwrite : (single b d flags n).write (fun _ => 0) = some file)
    (hload : ExtraStaticSearcher.fresh.loadIndex b d flags ⟨limit, limit, 0, 0⟩ [file] =
      some searcher) :
    ∃ s, Source.Written (single b d flags n) s file ∧
      searcher = (single b d flags n).loaded s limit file (single b d flags n).loadedDict := by
  obtain ⟨s, file', hwrite', hhead, hw⟩ := (@single_valid b d flags n).write_spec fun _ => 0
  rw [hwrite] at hwrite'
  cases hwrite'
  have hlimit : loadingPageLimit ⟨limit, limit, 0, 0⟩ (vectorInfoSize b d) = limit := by
    rw [loadingPageLimit, PageOptions.toSizeOptions, SizeOptions.pagesOf,
      Nat.cast_zero, Int.zero_mul]
    exact Nat.max_zero limit
  have hfresh := @fresh_loadIndex b d (single b d flags n) s file ⟨limit, limit, 0, 0⟩ hc
    (single_fits hd hrec hn hpages) hw hhead
  rw [hlimit] at hfresh
  exact ⟨s, hw, Option.some.inj (hload.symm.trans hfresh)⟩

theorem info_single (hc : flags.enableDataCompression = false) (hpos : n ≠ 0) (s : Selecting) :
    (single b d flags n).info s limit 0 =
      loadedInfo false (vectorInfoSize b d) limit ((1 + s.postPageNum 0) * PageSize)
        (n * vectorInfoSize b d) (s.postPageOffset 0) n := by
  rw [Source.info, postingListSize_single, if_pos rfl, if_pos (Nat.pos_of_ne_zero hpos),
    pages_metaSize_single, byteSize_single, ← hc]
  rfl

theorem not_roundTrips_wrapped (hd : d < 2 ^ 31) (hrec : vectorInfoSize b d < 2 ^ 31)
    (hc : flags.enableDataCompression = false)
    (hwrap : 2 ^ 16 ≤
      pages (postingSizeLimit postingPageLimit (vectorInfoSize b d) * vectorInfoSize b d)) :
    ¬ RoundTrips flags postingPageLimit b d := by
  intro h
  have hinfo : 4 ≤ vectorInfoSize b d := Nat.le_add_left _ _
  generalize hi : vectorInfoSize b d = info at *
  -- the smallest posting of more than 65535 pages
  have hdiv := Nat.div_add_mod (65535 * PageSize) info
  have hmod := Nat.mod_lt (65535 * PageSize) (by omega : 0 < info)
  have hsmall : 65535 * PageSize / info ≤ 65535 * PageSize / 4 :=
    Nat.div_le_div_left hinfo (by decide)
  have hpage : PageSize = 4096 := rfl
  generalize 65535 * PageSize / info = q at *
  have hbig : (q + 1) * info = info * q + info := by rw [Nat.succ_mul, Nat.mul_comm]
  have hle : q + 1 ≤ postingSizeLimit postingPageLimit info := by
    by_contra hlt
    have hmul := Nat.mul_le_mul_right info (Nat.le_of_lt_succ (Nat.lt_of_not_le hlt))
    have hle := pages_le_iff.mpr (show postingSizeLimit postingPageLimit info * info ≤
      65535 * PageSize by
      rw [Nat.mul_comm q] at hmul
      omega)
    omega
  have hlimit : (q + 1) * info ≤ postingPageLimit * PageSize :=
    (Nat.mul_le_mul_right _ hle).trans (Nat.div_mul_le_self _ _)
  have hpages : 1 + pages ((q + 1) * info) < 2 ^ 31 := by
    rw [pages_eq]
    omega
  subst hi
  obtain ⟨file, searcher, found, hwrite, hload, hsearch, -, hall⟩ := h.found_single hd hrec
    (by omega) hpages hlimit postingPageLimit
  obtain ⟨s, hw, rfl⟩ := search_single hc hd hrec (by omega) hpages hwrite hload
  have hlen := length_searchPosting (Source.info_loaded (Nat.zero_lt_succ _)) hsearch
  rw [hall (Nat.le_refl _), info_single hc (Nat.succ_ne_zero q), loadedInfo,
    if_neg Bool.false_ne_true, Int.toNat_natCast, loadedCount] at hlen
  have hkept : q + 1 ≤
      pages ((q + 1) * vectorInfoSize b d) % 2 ^ 16 * PageSize / vectorInfoSize b d := by
    have hmin := hlen.le.trans (Nat.min_le_right _ _)
    exact hmin.trans (Nat.div_le_div_right (Nat.mul_le_mul_right _ (Nat.min_le_left _ _)))
  rw [Nat.le_div_iff_mul_le (by omega), pages_eq, hpage] at hkept
  omega

@[simp] theorem leBytes_zero (w : Nat) : leBytes w 0 = List.replicate w 0 := by
  induction w with
  | zero => rfl
  | succ w ih =>
    rw [leBytes, Nat.zero_div, ih, List.replicate_succ]
    rfl

@[simp] theorem vectorBytes_zero : vectorBytes (0 : VectorOf b d) =
    List.replicate (perVectorDataSize b d) 0 := by
  rw [List.eq_replicate_iff]
  refine ⟨length_vectorBytes _, fun a ha => ?_⟩
  obtain ⟨v, hv, ha⟩ := List.mem_flatMap.mp ha
  obtain ⟨j, rfl⟩ := List.mem_ofFn.mp hv
  have hbytes : bytesOf ((0 : VectorOf b d) j) = List.replicate b 0 := leBytes_zero b
  rw [hbytes] at ha
  exact (List.mem_replicate.mp ha).2

theorem chunk_single (hc : flags.enableDataCompression = false)
    (hr : flags.enablePostingListRearrange = true) (hdata : perVectorDataSize b d ≠ 0) {k : Nat}
    (hk : k < n) : HoldsAt ((single b d flags n).chunk 0) (k * perVectorDataSize b d) [0] := by
  have hchunk : (single b d flags n).chunk 0 = layout true (((single b d flags n).posting 0).map
      (encodeEntry flags.enableDeltaEncoding 0)) := by
    have hflag : ¬ (single b d flags n).flags.enableDataCompression = true :=
      fun h => Bool.false_ne_true (hc.symm.trans h)
    rw [Source.chunk, if_neg hflag, Source.fullData,
      show (single b d flags n).flags.enablePostingListRearrange = true from hr]
    rfl
  have hget : (((single b d flags n).posting 0).map (encodeEntry flags.enableDeltaEncoding 0))[k]? =
      some (BitVec.ofNat _ (k + 1), 0) := by
    have hzero : encodeVector flags.enableDeltaEncoding (0 : VectorOf b d) 0 = 0 := by
      rw [encodeVector, sub_zero, ite_self]
    rw [posting_single, List.getElem?_map, List.getElem?_map, List.getElem?_range hk]
    simp only [Option.map_some, encodeEntry, hzero]
  have hvec := holdsAt_flatMap (fun e _ => length_vectorBytes e.2) hget
  have hfirst : HoldsAt (vectorBytes (0 : VectorOf b d)) 0 [0] := by
    obtain ⟨m, hm⟩ := Nat.exists_eq_succ_of_ne_zero hdata
    rw [vectorBytes_zero, hm, List.replicate_succ]
    exact ⟨[], List.replicate m 0, rfl, rfl⟩
  rw [hchunk, layout, if_pos rfl]
  exact (hvec.trans hfirst).append_right _

/-- As many pages as one record takes hold `k` records: of one record more, `k` are loaded. -/
theorem exists_cut {size : Nat} (hinfo : 0 < size) (htwo : 2 ≤ postingPageLimit)
    (hsize : 2 ≤ postingSizeLimit postingPageLimit size)
    (hwrap : pages (postingSizeLimit postingPageLimit size * size) < 2 ^ 16) :
    ∃ k, 1 ≤ k ∧ (k + 1) * size ≤ postingPageLimit * PageSize ∧ pages ((k + 1) * size) < 2 ^ 16 ∧
      loadedCount size (pages size) ((k + 1) * size) (k + 1) = k := by
  have hpage : PageSize = 4096 := rfl
  obtain ⟨k, hk⟩ : ∃ k, pages size * PageSize / size = k := ⟨_, rfl⟩
  have hcover := pages_le_iff.mp (Nat.le_refl (pages size))
  have hpos : 1 ≤ k := hk ▸ (Nat.one_le_div_iff hinfo).mpr hcover
  have hkle : k * size ≤ pages size * PageSize := hk ▸ Nat.div_mul_le_self _ _
  have hlimit : (k + 1) * size ≤ postingPageLimit * PageSize := by
    have htwice := (Nat.mul_le_mul_right size hsize).trans
      (Nat.div_mul_le_self (postingPageLimit * PageSize) size)
    rw [pages_eq, hpage] at *
    rw [Nat.succ_mul]
    by_cases hone : k = 1
    · rw [hone]
      omega
    · have hmul := Nat.mul_le_mul_right size (show 2 ≤ k by omega)
      omega
  have hn : k + 1 ≤ postingSizeLimit postingPageLimit size :=
    (Nat.le_div_iff_mul_le hinfo).mpr hlimit
  have hpages : pages ((k + 1) * size) < 2 ^ 16 :=
    Nat.lt_of_le_of_lt (pages_mono (Nat.mul_le_mul_right _ hn)) hwrap
  refine ⟨k, hpos, hlimit, hpages, ?_⟩
  rw [loadedCount, Nat.mod_eq_of_lt hpages,
    Nat.min_eq_right (pages_mono (Nat.le_mul_of_pos_left _ (Nat.succ_pos k))), hk]
  exact Nat.min_eq_right (Nat.le_succ k)

theorem not_roundTrips_cut (hd : d < 2 ^ 31) (hrec : vectorInfoSize b d < 2 ^ 31)
    (hc : flags.enableDataCompression = false) (hr : flags.enablePostingListRearrange = true)
    (hdata : perVectorDataSize b d ≠ 0) (htwo : 2 ≤ postingPageLimit)
    (hsize : 2 ≤ postingSizeLimit postingPageLimit (vectorInfoSize b d))
    (hwrap : pages (postingSizeLimit postingPageLimit (vectorInfoSize b d) * vectorInfoSize b d) <
      2 ^ 16) :
    ¬ RoundTrips flags postingPageLimit b d := by
  intro h
  have hinfo : 0 < vectorInfoSize b d := Nat.succ_pos _
  have hpage : PageSize = 4096 := rfl
  obtain ⟨k, hpos, hlimit, hpages, hkept⟩ := exists_cut hinfo htwo hsize hwrap
  have hsmall : k + 1 < 2 ^ 31 := by
    have hle := Nat.le_mul_of_pos_right (k + 1) hinfo
    have := pages_le_iff.mp (Nat.le_of_lt hpages)
    omega
  obtain ⟨file, searcher, found, hwrite, hload, hsearch, hprefix, -⟩ := h.found_single hd hrec
    hsmall (by omega) hlimit (pages (vectorInfoSize b d))
  obtain ⟨s, hw, rfl⟩ := search_single hc hd hrec hsmall (by omega) hwrite hload
  have hne : (single b d flags (k + 1)).byteSize 0 ≠ 0 := by
    rw [byteSize_single]
    exact Nat.mul_ne_zero (Nat.succ_ne_zero _) (Nat.succ_ne_zero _)
  have hparse := @Source.Written.searchPosting_parses b d (single b d flags (k + 1)) s
    (pages (vectorInfoSize b d)) file (single b d flags (k + 1)).loadedDict hw 0 k
    (Nat.zero_lt_succ _)
    hc (Nat.succ_ne_zero k) (byteSize_single ▸ hpages) (byteSize_single ▸ hkept)
  have hzero := hw.holdsAt_page (k := k) hne (chunk_single hc hr hdata (Nat.lt_succ_self k)) (by
    rw [vectorInfoSize, Nat.add_mul, Nat.mul_comm k, List.length_singleton]
    omega)
  rw [show (single b d flags (k + 1)).compressor = .copy from rfl,
    show (single b d flags (k + 1)).headIndex = fun _ => 0 from rfl] at hparse
  obtain ⟨k, rfl⟩ := Nat.exists_eq_succ_of_ne_zero (Nat.ne_of_gt hpos)
  rw [hparse, processPosting] at hsearch
  simp only [Option.bind_eq_bind, Option.bind_eq_some_iff, Option.some.injEq] at hsearch
  obtain ⟨vectorID, hread, _, -, _, -, rest, -, rfl⟩ := hsearch
  -- the id that is read starts with the zero byte
  have hid : valueOf vectorID = BitVec.ofNat (8 * 4) 1 := by
    rw [List.range_succ_eq_map, List.map_cons, List.cons_prefix_cons] at hprefix
    exact congrArg Prod.fst hprefix.1
  have hoffset : (parsePosting (single b d flags (k + 1 + 1)).flags.enablePostingListRearrange
      (vectorInfoSize b d) 0 (k + 1)).1 = (k + 1) * perVectorDataSize b d := by
    rw [show (single b d flags (k + 1 + 1)).flags = flags from rfl, hr, parsePosting, if_pos rfl,
      parsePostingListRearrange, vectorInfoSize, Nat.add_sub_cancel, Nat.mul_comm, Nat.mul_zero,
      Nat.add_zero]
  rw [hoffset] at hread
  have hlen := length_of_readAt hread
  obtain ⟨c, cs, rfl⟩ := List.exists_cons_of_length_pos
    (Nat.lt_of_lt_of_eq (Nat.succ_pos 3) hlen.symm)
  have hfirst := ((readAt_eq_some_iff hlen).mp hread)
  rw [← List.singleton_append, holdsAt_append_iff] at hfirst
  have hc' := hfirst.1.readAt_eq.symm.trans hzero.readAt_eq
  cases hc'
  have hval := congrArg BitVec.toNat hid
  rw [valueOf, BitVec.toNat_ofNat, BitVec.toNat_ofNat, leVal, show (0 : UInt8).toNat =
    0 from rfl] at hval
  omega

end Plain

/-- The options under which static indexes survive the file are exactly the supported ones. -/
theorem round_trips_iff {flags : Flags} {postingPageLimit : Nat} (hd : d < 2 ^ 31)
    (hrec : vectorInfoSize b d < 2 ^ 31) :
    RoundTrips flags postingPageLimit b d ↔ Supported flags postingPageLimit b d := by
  refine ⟨fun h => ?_, Supported.roundTrips⟩
  have hplain : flags.enableDataCompression = true →
      postingPageLimit * PageSize < vectorInfoSize b d := by
    intro hc
    by_contra hle
    exact not_roundTrips_compressed hd hrec hc (Nat.le_of_not_lt hle) h
  cases hc : flags.enableDataCompression with
  | true =>
    have hzero : postingSizeLimit postingPageLimit (vectorInfoSize b d) = 0 :=
      Nat.div_eq_of_lt (hplain hc)
    refine ⟨hplain, ?_, fun _ => .inr (.inr ?_)⟩
    · rw [hzero, Nat.zero_mul]
      decide
    · rw [hzero]
      exact Nat.zero_le 1
  | false =>
    have hwrap : pages (postingSizeLimit postingPageLimit (vectorInfoSize b d) *
      vectorInfoSize b d) <
        2 ^ 16 := by
      by_contra hle
      exact not_roundTrips_wrapped hd hrec hc (Nat.le_of_not_lt hle) h
    refine ⟨hplain, hwrap, fun hr => ?_⟩
    by_contra hne
    simp only [not_or, Nat.not_le] at hne
    exact not_roundTrips_cut hd hrec hc hr hne.1 hne.2.1 hne.2.2 hwrap h

theorem round_trips_default :
    RoundTrips ⟨false, false, false, true⟩ 3 1 100 ↔
      Supported ⟨false, false, false, true⟩ 3 1 100 :=
  round_trips_iff (by decide) (by decide)

theorem not_round_trips : ¬ RoundTrips ⟨false, false, true, true⟩ 1 1 1 :=
  not_roundTrips_compressed (by decide) (by decide) rfl (by decide)

end Sptag.SPANN.Static
