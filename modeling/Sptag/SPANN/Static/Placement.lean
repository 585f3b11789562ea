import Sptag.SPANN.Static.Writing

/-! Where `SelectPostingOffset` puts the postings, and what the head of the file says of it:
the places are sound for all sizes, but the page counts have 16 bits. -/

namespace Sptag.SPANN.Static

open Lib

variable {postingListBytes : List Nat} {s s' : Selecting}

def recordedPageCount (postingListByte : Nat) : Nat :=
  leVal (leBytes 2 (listPageCount postingListByte))

theorem recordedPageCount_eq (n : Nat) : recordedPageCount n = pages n % 2 ^ 16 := by
  rw [recordedPageCount, leVal_leBytes, listPageCount_eq]
  rfl

/-- The postings are placed once each, in ascending order and apart, within as many pages as
they need alone and with less than a page between neighbours, and are written there. -/
structure Placed (postingListBytes : List Nat) (s : Selecting) : Prop where
  nodup : s.postingOrderInIndex.Nodup
  mem_order : ∀ id, id ∈ s.postingOrderInIndex ↔ postingListBytes.getD id 0 ≠ 0
  fits : ∀ id ∈ s.postingOrderInIndex, s.postPageNum id < 2 ^ 31 ∧ s.postPageOffset id < PageSize
  disjoint : ∀ i ∈ s.postingOrderInIndex, ∀ j ∈ s.postingOrderInIndex, i ≠ j →
    s.targetOffset i + postingListBytes.getD i 0 ≤ s.targetOffset j ∨
      s.targetOffset j + postingListBytes.getD j 0 ≤ s.targetOffset i
  within : ∀ id ∈ s.postingOrderInIndex, s.postPageOffset id + postingListBytes.getD id 0 ≤
    pages (postingListBytes.getD id 0) * PageSize
  increasing : s.postingOrderInIndex.Pairwise fun i j => s.targetOffset i < s.targetOffset j
  gap : s.postingOrderInIndex.IsChain fun i j =>
    s.targetOffset j < s.targetOffset i + postingListBytes.getD i 0 + PageSize
  written : ∀ (b d : Nat) (x : Source b d), x.Valid → x.byteSizes = postingListBytes →
    ∃ file, x.outputSSDIndexFile postingListBytes s = some file ∧
      ∀ h, x.byteSize h ≠ 0 →
        HoldsAt file (pages x.metaSize * PageSize + s.targetOffset h) (x.chunk h)

structure Sound (postingListBytes : List Nat) (s : Selecting) : Prop
    extends Placed postingListBytes s where
  recorded : ∀ id ∈ s.postingOrderInIndex,
    recordedPageCount (postingListBytes.getD id 0) = pages (postingListBytes.getD id 0)

def Tight (postingListBytes : List Nat) (s : Selecting) : Prop :=
  Chained s.targetOffset (postingListBytes.getD · 0) (PageSize - 1) 0 s.postingOrderInIndex

theorem Selecting.step_cases (hstep : s.step postingListBytes = some s') :
    s' = s.nextPage ∨ ∃ p ∈ s.listRestSize, s' = s.placed postingListBytes p := by
  rw [Selecting.step] at hstep
  split at hstep
  · exact .inl (Option.some.inj hstep).symm
  · rename_i p hp
    split at hstep
    · exact .inl (Option.some.inj hstep).symm
    · rw [Selecting.place] at hstep
      split at hstep
      · cases hstep
      · exact .inr ⟨p, List.mem_of_find?_eq_some hp, (Option.some.inj hstep).symm⟩

theorem Selected.tight_step (h : Selected postingListBytes s) (ht : Tight postingListBytes s)
    (hstep : s.step postingListBytes = some s') : Tight postingListBytes s' := by
  rcases Selecting.step_cases hstep with rfl | ⟨p, hp, rfl⟩
  · exact ht
  · have hne : ∀ id ∈ s.postingOrderInIndex, id ≠ p.id := by
      rintro id hid rfl
      exact (List.nodup_append.mp h.nodup).2.2 _ (List.mem_map_of_mem hp) _ hid rfl
    obtain ⟨hchain, hend⟩ := @chained_congr s.targetOffset (postingListBytes.getD · 0)
      (PageSize - 1) 0 _
      (s.placed postingListBytes p).targetOffset fun id hid => (placed_of_ne (hne id hid)).1
    apply chained_concat.mpr
    rw [hend, targetOffset_placed_self]
    have hlt := h.le_end
    exact ⟨hchain.mpr ht, h.end_le, by omega⟩

theorem Selected.tight_loop (h : Selected postingListBytes s) (ht : Tight postingListBytes s)
    {fuel : Nat} (hloop : s.loop postingListBytes fuel = some s') : Tight postingListBytes s' := by
  induction fuel generalizing s with
  | zero =>
    rw [Selecting.loop] at hloop
    split at hloop
    · rwa [← Option.some.inj hloop]
    · cases hloop
  | succ fuel ih =>
    rw [Selecting.loop] at hloop
    split at hloop
    · rwa [← Option.some.inj hloop]
    · rename_i hne
      obtain ⟨t, ht', hinv, -⟩ := h.step fun hnil => hne (by rw [hnil]; rfl)
      rw [ht'] at hloop
      exact ih hinv (h.tight_step ht ht') hloop

theorem Selected.postPageNum_lt (h : Selected postingListBytes s)
    (htotal : (postingListBytes.map pages).sum < 2 ^ 31) {id : Nat}
    (hid : id ∈ s.postingOrderInIndex) :
    s.postPageNum id < 2 ^ 31 := by
  have hend := h.chained.le_chainEnd.2 id hid
  have hle := h.end_le
  have hlt := h.offset_lt
  have hused := h.pagesUsed_le
  have hsum := h.sum_pages_le
  have hpage : PageSize = 4096 := rfl
  rw [Selecting.targetOffset] at hend
  rw [Selecting.cursor] at hle
  rw [Selecting.pagesUsed] at hused
  rw [hpage] at hlt hend hle
  omega

section Done

variable (h : Selected postingListBytes s) (hdone : s.listRestSize = [])

include h hdone

theorem Selected.mem_order (id : Nat) :
    id ∈ s.postingOrderInIndex ↔ postingListBytes.getD id 0 ≠ 0 := by
  rw [← h.mem_ids id, Selecting.ids, hdone, List.map_nil, List.nil_append]

theorem Selected.placed_of_tight (ht : Tight postingListBytes s)
    (htotal : (postingListBytes.map pages).sum < 2 ^ 31) : Placed postingListBytes s := by
  have hpair := h.chained.pairwise
  refine ⟨(List.nodup_append.mp h.nodup).2.1, h.mem_order hdone, fun id hid =>
    ⟨h.postPageNum_lt htotal hid, (h.within id hid).1⟩, ?_, fun id hid => ?_, ?_, ?_, ?_⟩
  · intro i hi j hj hij
    have hapart : s.postingOrderInIndex.Pairwise fun i j =>
        s.targetOffset i + postingListBytes.getD i 0 ≤ s.targetOffset j ∨
          s.targetOffset j + postingListBytes.getD j 0 ≤ s.targetOffset i := hpair.imp Or.inl
    have hsymm : Std.Symm fun i j => s.targetOffset i + postingListBytes.getD i 0 ≤
      s.targetOffset j ∨
        s.targetOffset j + postingListBytes.getD j 0 ≤ s.targetOffset i := ⟨fun _ _ => Or.symm⟩
    exact hapart.forall hi hj hij
  · obtain ⟨hlt, hsum, hzero⟩ := h.within id hid
    have hpage : PageSize = 4096 := rfl
    rw [hpage] at hsum hzero ⊢
    rw [pages_eq]
    omega
  · refine hpair.imp_of_mem fun {i j} hi hj hij => ?_
    have hpos := Nat.pos_of_ne_zero ((h.mem_order hdone i).mp hi)
    exact Nat.lt_of_lt_of_le (Nat.lt_add_of_pos_right hpos) hij
  · refine ht.isChain.imp fun i j hij => Nat.lt_of_le_of_lt hij ?_
    exact Nat.add_lt_add_left (by decide) _
  · intro b d x hx hsizes
    subst hsizes
    obtain ⟨file, hfile, -, -, hholds⟩ := Source.outputSSDIndexFile_spec hx h hdone
    exact ⟨file, hfile, hholds⟩

end Done

theorem selectPostingOffset_placed (raw : Nat → Nat)
    (htotal : (postingListBytes.map pages).sum < 2 ^ 31) :
    ∃ s, selectPostingOffset raw postingListBytes = some s ∧ Placed postingListBytes s := by
  obtain ⟨s, hselect, hs, hdone⟩ := selectPostingOffset_spec raw postingListBytes
  exact ⟨s, hselect, hs.placed_of_tight hdone
    ((selected_start raw postingListBytes).tight_loop trivial hselect) htotal⟩

/-- The head of the file tells the truth exactly when no posting has `2 ^ 16` pages or more. -/
theorem selectPostingOffset_sound_iff (raw : Nat → Nat) (postingListBytes : List Nat)
    (htotal : (postingListBytes.map pages).sum < 2 ^ 31) :
    (∃ s, selectPostingOffset raw postingListBytes = some s ∧ Sound postingListBytes s) ↔
      ∀ n ∈ postingListBytes, pages n < 2 ^ 16 := by
  constructor
  · rintro ⟨s, -, hs⟩ n hn
    obtain ⟨id, hid, rfl⟩ := List.mem_iff_getElem.mp hn
    have hget : postingListBytes.getD id 0 = postingListBytes.get ⟨id, hid⟩ := by simp [hid]
    rcases Nat.eq_zero_or_pos (postingListBytes.getD id 0) with hzero | hpos
    · rw [hget] at hzero
      change pages (postingListBytes.get ⟨id, hid⟩) < 2 ^ 16
      rw [hzero]
      decide
    · have hrecorded := hs.recorded id ((hs.mem_order id).mpr (Nat.ne_of_gt hpos))
      rw [recordedPageCount_eq, hget] at hrecorded
      exact hrecorded ▸ Nat.mod_lt _ (by decide)
  · intro hsmall
    obtain ⟨s, hselect, hs⟩ := selectPostingOffset_placed raw htotal
    refine ⟨s, hselect, { hs with recorded := fun id hid => ?_ }⟩
    rw [recordedPageCount_eq]
    apply Nat.mod_eq_of_lt
    by_cases hlt : id < postingListBytes.length
    · rw [List.getD_eq_getElem _ _ hlt]
      exact hsmall _ (List.getElem_mem hlt)
    · exact absurd (List.getD_eq_default _ _ (Nat.le_of_not_lt hlt)) ((hs.mem_order id).mp hid)

theorem selectPostingOffset_sound_three : ∃ s,
    selectPostingOffset (fun _ => 0) [5000, 0, 3000] = some s ∧
    Sound [5000, 0, 3000] s :=
  (selectPostingOffset_sound_iff (fun _ => 0) [5000, 0, 3000] (by decide)).mpr (by decide)

theorem not_sound_of_manyPages : ([2 ^ 28].map pages).sum < 2 ^ 31 ∧
    ¬ ∃ s, selectPostingOffset (fun _ => 0) [2 ^ 28] = some s ∧ Sound [2 ^ 28] s := by
  refine ⟨by decide, ?_⟩
  rintro ⟨s, -, hs⟩
  have hrecorded := hs.recorded 0 ((hs.mem_order 0).mpr (by decide))
  rw [recordedPageCount_eq] at hrecorded
  exact absurd hrecorded (by decide)

end Sptag.SPANN.Static
