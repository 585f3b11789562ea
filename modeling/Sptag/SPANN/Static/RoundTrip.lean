import Sptag.SPANN.Static.Searching

/-! Which options let a static index be loaded as it was built. -/

namespace Sptag.SPANN.Static

open Lib

/-- Whatever is written under the flags, within the page limit of the build, is found again
after loading; with a smaller page limit a front part of each posting is. -/
def RoundTrips (flags : Flags) (postingPageLimit b d : Nat) : Prop :=
  ∀ (x : Source b d) (raw : Nat → Nat) (o : PageOptions), x.flags = flags → x.Valid →
    x.compressor.Lawful → x.Fits →
    (∀ h, x.postingListSize h * vectorInfoSize b d ≤ postingPageLimit * PageSize) →
    ∃ file searcher, x.write raw = some file ∧
      ExtraStaticSearcher.fresh.loadIndex b d flags o [file] = some searcher ∧
      ∀ h < x.postingListSizes.length, ∃ found,
        searcher.searchPosting x.compressor x.headIndex h = some found ∧ found <+: x.posting h ∧
          (postingPageLimit ≤ loadingPageLimit o (vectorInfoSize b d) → found = x.posting h)

def postingSizeLimit (postingPageLimit vectorInfoSize : Nat) : Nat :=
  postingPageLimit * PageSize / vectorInfoSize

/-- Compression is off or there is nothing to compress; the 16-bit page counts do not wrap;
a rearranged posting cannot be cut in the middle. -/
structure Supported (flags : Flags) (postingPageLimit b d : Nat) : Prop where
  plain : flags.enableDataCompression = true → postingPageLimit * PageSize < vectorInfoSize b d
  pageCount :
    pages (postingSizeLimit postingPageLimit (vectorInfoSize b d) * vectorInfoSize b d) < 2 ^ 16
  whole : flags.enablePostingListRearrange = true →
    perVectorDataSize b d = 0 ∨ postingPageLimit ≤ 1 ∨
      postingSizeLimit postingPageLimit (vectorInfoSize b d) ≤ 1

variable {b d : Nat} {flags : Flags} {postingPageLimit : Nat}

theorem pages_le_iff {n m : Nat} : pages n ≤ m ↔ n ≤ m * PageSize := by
  have hpage : PageSize = 4096 := rfl
  rw [pages_eq, hpage]
  omega

theorem pages_mono {n m : Nat} (h : n ≤ m) : pages n ≤ pages m :=
  Nat.div_le_div_right (Nat.add_le_add_right h _)

theorem loadedCount_eq {info limit size : Nat} (hinfo : 0 < info)
    (hlimit : pages (size * info) ≤ limit)
    (hpages : pages (size * info) < 2 ^ 16) : loadedCount info limit (size * info) size = size := by
  apply Nat.min_eq_left
  rw [Nat.mod_eq_of_lt hpages, Nat.min_eq_left hlimit, Nat.le_div_iff_mul_le hinfo]
  exact pages_le_iff.mp (Nat.le_refl _)

namespace Source

variable {x : Source b d} {raw : Nat → Nat}

theorem Valid.write_spec (hx : x.Valid) (raw : Nat → Nat) :
    ∃ s file, x.write raw = some file ∧ x.head x.byteSizes s <+: file ∧ Written x s file := by
  obtain ⟨s, hselect, hs, hdone⟩ := selectPostingOffset_spec raw x.byteSizes
  obtain ⟨file, hwrite, hhead, hlen, hholds⟩ := outputSSDIndexFile_spec hx hs hdone
  refine ⟨s, file, ?_, hhead, hx, hs, hdone, hlen, hholds⟩
  rw [write, hx.postingListBytes_eq, Option.bind_eq_bind, Option.bind_some, hselect,
    Option.bind_eq_bind, Option.bind_some, hwrite]

end Source

section Holds

variable {x : Source b d} {s : Selecting} {file : Bytes} {o : PageOptions}

theorem fresh_loadIndex (hc : x.flags.enableDataCompression = false) (hfits : x.Fits)
    (hw : x.Written s file) (hhead : x.head x.byteSizes s <+: file) :
    ExtraStaticSearcher.fresh.loadIndex b d x.flags o [file] =
      some (x.loaded s (loadingPageLimit o (vectorInfoSize b d)) file x.loadedDict) := by
  apply Source.loadIndex_eq hfits hw.selected hw.done (hw.valid.byteSize_ne_zero hc) hc.symm
  · intro h
    rw [hc] at h
    cases h
  · exact hhead

theorem metaOf_empty (hempty : ∀ h, x.postingListSize h = 0)
    (hc : x.flags.enableDataCompression = true) :
    (List.range x.postingListSizes.length).flatMap (x.metaOf x.byteSizes s) =
      (List.range x.postingListSizes.length).flatMap (fun _ => metaEntry false 0 0 0 0) ++
        List.replicate (x.postingListSizes.length * 8) 0 := by
  have hentry : x.metaOf x.byteSizes s = fun _ => List.replicate 20 0 := by
    funext h
    rw [Source.metaOf, hempty, if_neg (Nat.lt_irrefl 0), hc]
    rfl
  have hshort : metaEntry false 0 0 0 0 = List.replicate 12 0 := rfl
  have hflat : ∀ n k : Nat, (List.range n).flatMap (fun _ => List.replicate k (0 : UInt8)) =
      List.replicate (n * k) 0 := by
    intro n k
    rw [List.eq_replicate_iff, length_flatMap_of_size fun _ _ => List.length_replicate,
      List.length_range]
    refine ⟨rfl, fun a ha => ?_⟩
    obtain ⟨_, _, ha⟩ := List.mem_flatMap.mp ha
    exact (List.mem_replicate.mp ha).2
  rw [hentry, hshort, hflat, hflat, ← List.replicate_add, ← Nat.mul_add]

theorem fresh_loadIndex_empty (hfits : x.Fits) (hempty : ∀ h, x.postingListSize h = 0)
    (hc : x.flags.enableDataCompression = true) (hhead : x.head x.byteSizes s <+: file) :
    ExtraStaticSearcher.fresh.loadIndex b d x.flags o [file] =
      some (x.loaded s (loadingPageLimit o (vectorInfoSize b d)) file []) := by
  obtain ⟨body, rfl⟩ := hhead
  have hmeta := Source.pages_metaSize_lt hfits
  have hpages : (x.metaSize + paddingSize x.metaSize) / PageSize = pages x.metaSize := by
    rw [add_paddingSize, Nat.mul_div_cancel _ (by decide)]
  have hentry : ∀ h ∈ List.range x.postingListSizes.length, ∀ t,
      readListInfo false (vectorInfoSize b d : Nat) (loadingPageLimit o (vectorInfoSize b d))
        (pages x.metaSize : Nat) (metaEntry false 0 0 0 0 ++ t) =
      some (x.info s (loadingPageLimit o (vectorInfoSize b d)) h, t) := by
    intro h _ t
    have hoff := @listOffset_eq (pages x.metaSize) 0 hmeta
    rw [Nat.add_zero] at hoff
    have hinfo : x.info s (loadingPageLimit o (vectorInfoSize b d)) h =
        loadedInfo false (vectorInfoSize b d) (loadingPageLimit o (vectorInfoSize b d))
          (pages x.metaSize * PageSize) 0 0 0 := by
      have hzero : pages 0 % 2 ^ 16 = 0 := by decide
      have hbytes : toSize (toInt (0 : Nat)) = 0 := by decide
      rw [Source.info, hempty, if_neg (Nat.lt_irrefl 0), hc]
      simp only [loadedInfo, if_true, Bool.false_eq_true, if_false, loadedCount, Nat.zero_min,
        Nat.mul_zero, Nat.zero_mul, hzero, hbytes]
    rw [hinfo, ← hoff]
    apply readListInfo_metaEntry <;> decide
  have hinfos := readListInfos_flatMap hentry
    (List.replicate (x.postingListSizes.length * 8) 0 ++
      (x.dictBytes ++ (padding (paddingSize x.metaSize) ++ body)))
  rw [List.length_range] at hinfos
  have hload := @loadingHeadInfo_head b d
    { ExtraStaticSearcher.fresh with indexFiles := [x.head x.byteSizes s ++ body] }
    (loadingPageLimit o (vectorInfoSize b d)) x.postingListSizes.length x.vectorCount
    (pages x.metaSize) _ _ _ [] _ (.inl rfl) hfits.count hfits.dimension hfits.record
      hmeta hinfos rfl
  have hhead : x.head x.byteSizes s ++ body = leBytes 4 x.postingListSizes.length ++
      (leBytes 4 x.vectorCount ++ (leBytes 4 d ++ (leBytes 4 (pages x.metaSize) ++
        ((List.range x.postingListSizes.length).flatMap (fun _ => metaEntry false 0 0 0 0) ++
          (List.replicate (x.postingListSizes.length * 8) 0 ++
            (x.dictBytes ++ (padding (paddingSize x.metaSize) ++ body))))))) := by
    rw [Source.head, hpages, metaOf_empty hempty hc]
    simp only [List.append_assoc]
  rw [← hhead] at hload
  simp only [ExtraStaticSearcher.loadIndex, List.foldlM_cons, List.foldlM_nil,
    ExtraStaticSearcher.fresh, List.nil_append] at hload ⊢
  rw [hload]
  simp [Source.loaded]

theorem Supported.roundTrips (h : Supported flags postingPageLimit b d) :
    RoundTrips flags postingPageLimit b d := by
  intro x raw o hflags hx _ hfits hlimit
  subst hflags
  obtain ⟨s, file, hwrite, hhead, hw⟩ := hx.write_spec raw
  have hinfo : 0 < vectorInfoSize b d := Nat.succ_pos _
  cases hc : x.flags.enableDataCompression with
  | true =>
    have hempty : ∀ h, x.postingListSize h = 0 := by
      intro h'
      by_contra hne
      have hle := Nat.le_mul_of_pos_left (vectorInfoSize b d) (Nat.pos_of_ne_zero hne)
      exact absurd (hle.trans (hlimit h')) (Nat.not_le.mpr (h.plain hc))
    exact ⟨file, _, hwrite, fresh_loadIndex_empty hfits hempty hc hhead, fun h' hh' =>
      ⟨_, hw.searchPosting_empty hh' (hempty h'), List.prefix_refl _, fun _ => rfl⟩⟩
  | false =>
    refine ⟨file, _, hwrite, fresh_loadIndex hc hfits hw hhead, fun h' hh' => ?_⟩
    by_cases hsize : x.postingListSize h' = 0
    · exact ⟨_, hw.searchPosting_empty hh' hsize, List.prefix_refl _, fun _ => rfl⟩
    have hbyte := hx.byteSize_eq hc h'
    have hle : x.postingListSize h' ≤ postingSizeLimit postingPageLimit (vectorInfoSize b d) :=
      (Nat.le_div_iff_mul_le hinfo).mpr (hlimit h')
    have hpages : pages (x.postingListSize h' * vectorInfoSize b d) < 2 ^ 16 :=
      Nat.lt_of_le_of_lt (pages_mono (Nat.mul_le_mul_right _ hle)) h.pageCount
    have hcut : x.flags.enablePostingListRearrange = false ∨ perVectorDataSize b d = 0 ∨
        loadedCount (vectorInfoSize b d) (loadingPageLimit o (vectorInfoSize b d)) (x.byteSize h')
          (x.postingListSize h') = 0 ∨
        x.postingListSize h' ≤ loadedCount (vectorInfoSize b d)
          (loadingPageLimit o (vectorInfoSize b d)) (x.byteSize h') (x.postingListSize h') := by
      rw [hbyte]
      cases hr : x.flags.enablePostingListRearrange with
      | false => exact .inl rfl
      | true =>
        rcases h.whole hr with hzero | hone | hone
        · exact .inr (.inl hzero)
        · -- with one page there is nothing between all of a posting and nothing of it
          refine .inr (.inr ?_)
          have hlimit' : pages (x.postingListSize h' * vectorInfoSize b d) ≤ 1 :=
            (pages_le_iff.mpr (hlimit h')).trans hone
          rcases Nat.eq_zero_or_pos (loadingPageLimit o (vectorInfoSize b d)) with hl | hl
          · left
            rw [hl, loadedCount, Nat.min_zero, Nat.zero_mul, Nat.zero_div, Nat.min_zero]
          · exact .inr (loadedCount_eq hinfo (hlimit'.trans hl) hpages).ge
        · refine .inr (.inr ?_)
          omega
    refine ⟨_, hw.searchPosting_plain hh' hc hsize (by rwa [hbyte]) hcut, List.take_prefix _ _,
      fun hload => ?_⟩
    rw [hbyte, loadedCount_eq hinfo ((pages_le_iff.mpr (hlimit h')).trans hload) hpages,
      ← hx.length_posting, List.take_length]

end Holds

end Sptag.SPANN.Static
