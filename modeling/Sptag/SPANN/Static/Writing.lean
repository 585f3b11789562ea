import Sptag.SPANN.Static.Loading

/-! What `OutputSSDIndexFile` writes: the head fills whole pages, and each posting lies where
`SelectPostingOffset` put it. -/

namespace Sptag.SPANN.Static

open Lib

variable {b d : Nat}

theorem add_paddingSize (n : Nat) : n + paddingSize n = pages n * PageSize := by
  have hpage : PageSize = 4096 := rfl
  rw [paddingSize, pages_eq, hpage]
  split <;> omega

@[simp] theorem length_padding (n : Nat) : (padding n).length = n := List.length_replicate

@[simp] theorem length_metaEntry (compression : Bool) (byte pageNum pageOffset eleCount : Nat) :
    (metaEntry compression byte pageNum pageOffset eleCount).length =
      (4 + 2 + 4 + 2) + if compression then 8 else 0 := by
  cases compression <;> simp [metaEntry]

namespace Source

structure Valid (x : Source b d) : Prop where
  sorted : x.selections.Pairwise (·.node ≤ ·.node)
  size_le : ∀ h, x.postingListSize h ≤ (x.selections.filter fun e => e.node = h).length

variable (x : Source b d)

def posting (h : Nat) : List (VID × VectorOf b d) :=
  postingOf x.selections x.fullVectors h (x.postingListSize h)

def fullData (h : Nat) : Bytes :=
  layout x.flags.enablePostingListRearrange
    ((x.posting h).map (encodeEntry x.flags.enableDeltaEncoding (x.headIndex h)))

def chunk (h : Nat) : Bytes :=
  if x.flags.enableDataCompression then x.compress (x.fullData h) else x.fullData h

def byteSize (h : Nat) : Nat := if x.postingListSize h = 0 then 0 else (x.chunk h).length

def byteSizes : List Nat := (List.range x.postingListSizes.length).map x.byteSize

theorem postingListSize_of_le {h : Nat} (hle : x.postingListSizes.length ≤ h) :
    x.postingListSize h = 0 := by
  rw [postingListSize, List.getD_eq_getElem?_getD, List.getElem?_eq_none hle]
  rfl

theorem getD_byteSizes (h : Nat) : x.byteSizes.getD h 0 = x.byteSize h := by
  rw [byteSizes, List.getD_eq_getElem?_getD, List.getElem?_map]
  by_cases hlt : h < x.postingListSizes.length
  · rw [List.getElem?_range hlt]
    rfl
  · rw [List.getElem?_eq_none (by simpa using hlt), byteSize,
      x.postingListSize_of_le (Nat.le_of_not_lt hlt), if_pos rfl]
    rfl

section Valid

variable {x} {h : Nat} (hx : x.Valid)

include hx

theorem Valid.length_posting : (x.posting h).length = x.postingListSize h := by
  rw [posting, postingOf, List.length_map]
  exact List.length_take_of_le (hx.size_le h)

theorem Valid.length_fullData :
    (x.fullData h).length = x.postingListSize h * vectorInfoSize b d := by
  rw [fullData, length_layout, List.length_map, hx.length_posting]

theorem Valid.postingListFullData_eq : x.postingListFullData h = some (x.fullData h) :=
  getPostingListFullData_eq hx.sorted (hx.size_le h)

theorem Valid.postingListByte_eq : x.postingListByte h = some (x.byteSize h) := by
  rw [postingListByte, byteSize, chunk, hx.postingListFullData_eq, hx.length_fullData.symm]
  split
  · split <;> rfl
  · split
    · rw [hx.length_fullData, ‹x.postingListSize h = 0›, Nat.zero_mul]
    · rfl

theorem Valid.postingListBytes_eq : x.postingListBytes = some x.byteSizes :=
  mapM_eq_some fun _ _ => hx.postingListByte_eq

theorem Valid.postingData_eq (hsize : x.postingListSize h ≠ 0) :
    x.postingData x.byteSizes h = some (x.chunk h) := by
  rw [postingData, hx.postingListFullData_eq, getD_byteSizes, byteSize, if_neg hsize, chunk,
    Option.bind_eq_bind, Option.bind_some, if_neg (not_not.mpr hx.length_fullData)]
  split
  · rw [if_neg (not_not.mpr rfl)]
  · rfl

theorem Valid.byteSize_eq (hc : x.flags.enableDataCompression = false) (h : Nat) :
    x.byteSize h = x.postingListSize h * vectorInfoSize b d := by
  simp only [byteSize, chunk, hc, Bool.false_eq_true, if_false, hx.length_fullData]
  split
  · rw [‹x.postingListSize h = 0›, Nat.zero_mul]
  · rfl

theorem Valid.byteSize_ne_zero (hc : x.flags.enableDataCompression = false) (h : Nat)
    (hsize : x.postingListSize h ≠ 0) : x.byteSize h ≠ 0 := by
  rw [hx.byteSize_eq hc]
  exact Nat.mul_ne_zero hsize (Nat.succ_ne_zero _)

end Valid

@[simp] theorem length_head (bytes : List Nat) (s : Selecting) :
    (x.head bytes s).length = pages x.metaSize * PageSize := by
  have hentry : ∀ h ∈ List.range x.postingListSizes.length, (x.metaOf bytes s h).length =
      (4 + 2 + 4 + 2) + if x.flags.enableDataCompression then 8 else 0 := by
    intro h _
    rw [metaOf]
    split <;> exact length_metaEntry _ _ _ _ _
  have hdict : x.dictBytes.length =
      if x.flags.enableDataCompression && x.flags.enableDictTraining then 8 + x.dictBuffer.length
      else 0 := by
    rw [dictBytes]
    split <;> simp
  rw [← add_paddingSize, head]
  simp only [List.length_append, leBytes_length, length_flatMap_of_size hentry, hdict,
    length_padding, List.length_range]
  rw [metaSize, Nat.mul_add, Nat.mul_comm _ (4 + 2 + 4 + 2)]
  split <;> omega

section Body

variable {x} {s : Selecting} {base : Nat}

theorem foldlM_writePosting (hx : x.Valid) {hs : List Nat} {out : Output}
    (hne : ∀ h ∈ hs, x.postingListSize h ≠ 0) (hlen : out.file.length = base + out.listOffset)
    (hchain : Chained s.targetOffset (x.byteSizes.getD · 0) PageSize out.listOffset hs) :
    ∃ out', hs.foldlM (x.writePosting x.byteSizes s) out = some out' ∧ out.file <+: out'.file ∧
      out'.listOffset = chainEnd s.targetOffset (x.byteSizes.getD · 0) out.listOffset hs ∧
      out'.file.length = base + out'.listOffset ∧
      ∀ h ∈ hs, HoldsAt out'.file (base + s.targetOffset h) (x.chunk h) := by
  induction hs generalizing out with
  | nil => exact ⟨out, rfl, List.prefix_refl _, rfl, hlen, fun h hh => absurd hh List.not_mem_nil⟩
  | cons h hs ih =>
    obtain ⟨hle, hgap, hrest⟩ := hchain
    have hsize := hne h List.mem_cons_self
    have hchunk : x.byteSizes.getD h 0 = (x.chunk h).length := by
      rw [getD_byteSizes, byteSize, if_neg hsize]
    have hfront : (out.file ++ padding (s.targetOffset h - out.listOffset)).length =
        base + s.targetOffset h := by
      rw [List.length_append, length_padding, hlen]
      omega
    have hstep : x.writePosting x.byteSizes s out h =
        some ⟨out.file ++ padding (s.targetOffset h - out.listOffset) ++ x.chunk h,
          s.targetOffset h + (x.chunk h).length⟩ := by
      rw [writePosting, if_neg (Nat.not_lt.mpr hle), if_neg (Nat.not_lt.mpr hgap)]
      simp only [if_neg hsize, hx.postingData_eq hsize, Option.bind_eq_bind, Option.bind_some]
    simp only [hchunk] at hrest
    obtain ⟨out', hrun, hpre, hend, hlen', hholds⟩ := @ih
      ⟨out.file ++ padding (s.targetOffset h - out.listOffset) ++ x.chunk h,
        s.targetOffset h + (x.chunk h).length⟩ (fun h' hh' => hne h' (List.mem_cons_of_mem h hh'))
      (by rw [List.length_append, hfront, Nat.add_assoc]) hrest
    refine ⟨out', ?_, ?_, ?_, hlen', fun h' hh' => ?_⟩
    · rw [List.foldlM_cons, hstep]
      exact hrun
    · rw [List.append_assoc] at hpre
      exact (List.prefix_append _ _).trans hpre
    · rw [hend, chainEnd, hchunk]
    · rcases List.mem_cons.mp hh' with rfl | hh'
      · obtain ⟨back, hback⟩ := hpre
        rw [← hback, ← hfront]
        exact (holdsAt_append _ _).append_right back
      · exact hholds h' hh'

def bodyEnd (x : Source b d) (s : Selecting) : Nat :=
  chainEnd s.targetOffset (x.byteSizes.getD · 0) 0 s.postingOrderInIndex

theorem outputSSDIndexFile_spec (hx : x.Valid) (hs : Selected x.byteSizes s)
    (hdone : s.listRestSize = []) :
    ∃ file, x.outputSSDIndexFile x.byteSizes s = some file ∧ x.head x.byteSizes s <+: file ∧
      file.length = (pages x.metaSize + pages (x.bodyEnd s)) * PageSize ∧
      ∀ h, x.byteSize h ≠ 0 →
        HoldsAt file (pages x.metaSize * PageSize + s.targetOffset h) (x.chunk h) := by
  have hmem : ∀ h, h ∈ s.postingOrderInIndex ↔ x.byteSize h ≠ 0 := by
    intro h
    rw [← x.getD_byteSizes, ← hs.mem_ids h, Selecting.ids, hdone, List.map_nil, List.nil_append]
  have hne : ∀ h ∈ s.postingOrderInIndex, x.postingListSize h ≠ 0 := by
    intro h hh hzero
    apply (hmem h).mp hh
    rw [byteSize, if_pos hzero]
  obtain ⟨out, hrun, hpre, hend, hlen, hholds⟩ := @foldlM_writePosting b d x s
    (pages x.metaSize * PageSize) hx _ ⟨x.head x.byteSizes s, 0⟩ hne
    (by rw [length_head, Nat.add_zero]) hs.chained
  refine ⟨out.file ++ padding (paddingSize out.listOffset), ?_, ?_, ?_, fun h hh => ?_⟩
  · rw [outputSSDIndexFile, if_neg
      (by rw [length_head, add_paddingSize]; exact not_not.mpr rfl), hrun]
    rfl
  · exact hpre.trans (List.prefix_append _ _)
  · rw [List.length_append, length_padding, hlen, Nat.add_assoc, add_paddingSize, hend, bodyEnd,
      Nat.add_mul]
  · exact (hholds h ((hmem h).mpr hh)).append_right _

theorem target_le_bodyEnd (hs : Selected x.byteSizes s) (hdone : s.listRestSize = []) {h : Nat}
    (hh : x.byteSize h ≠ 0) : s.targetOffset h + x.byteSize h ≤ x.bodyEnd s ∧
      s.postPageOffset h < PageSize ∧
      pages (x.byteSize h + s.postPageOffset h) = pages (x.byteSize h) := by
  have hmem : h ∈ s.postingOrderInIndex := by
    have := (hs.mem_ids h).mpr (by rwa [getD_byteSizes])
    rwa [Selecting.ids, hdone, List.map_nil, List.nil_append] at this
  have hend := (hs.chained.le_chainEnd).2 h hmem
  obtain ⟨hlt, hwithin, hzero⟩ := hs.within h hmem
  simp only [getD_byteSizes] at hend hwithin hzero
  refine ⟨by simpa only [bodyEnd, getD_byteSizes] using hend, hlt, ?_⟩
  have hpage : PageSize = 4096 := rfl
  rw [hpage] at hwithin hzero
  rw [pages_eq, pages_eq]
  omega

theorem pages_bodyEnd_le (hs : Selected x.byteSizes s) :
    pages (x.bodyEnd s) ≤ ((List.range x.postingListSizes.length).map fun h =>
      pages (x.byteSize h)).sum := by
  have hcursor : pages s.cursor = s.pagesUsed := by
    have hlt := hs.offset_lt
    have hpage : PageSize = 4096 := rfl
    rw [hpage] at hlt
    rw [pages_eq, Selecting.cursor, Selecting.pagesUsed, hpage]
    split <;> omega
  have hmono : pages (x.bodyEnd s) ≤ pages s.cursor :=
    Nat.div_le_div_right (Nat.add_le_add_right hs.end_le _)
  have hused := hs.pagesUsed_le
  rw [← hcursor] at hused
  have hsum := hs.sum_pages_le
  rw [byteSizes, List.map_map, ← byteSizes] at hsum
  exact hmono.trans (hused.trans hsum)

end Body

end Source

end Sptag.SPANN.Static
