import Sptag.Common
import Sptag.Lib.Buffer

/-! `ExtraStaticSearcher::SelectPostingOffset`: which page each posting starts in and where,
so that no posting crosses more page borders than it has to. -/

namespace Sptag.SPANN.Static

open Lib

structure PageModWithID where
  id : Nat
  rest : Nat
  deriving DecidableEq

def PageModWithID.before (p q : PageModWithID) : Prop :=
  if p.rest = q.rest then p.id < q.id else q.rest < p.rest

instance : DecidableRel PageModWithID.before := fun p q =>
  inferInstanceAs (Decidable (if p.rest = q.rest then p.id < q.id else q.rest < p.rest))

def listRestSize (postingListBytes : List Nat) : List PageModWithID :=
  postingListBytes.zipIdx.foldl (fun set p =>
    if p.1 = 0 then set else set.orderedInsert PageModWithID.before ⟨p.2, p.1 % PageSize⟩) []

structure Selecting where
  listRestSize : List PageModWithID
  postPageNum : Nat → Nat
  postPageOffset : Nat → Nat
  postingOrderInIndex : List Nat
  currPageNum : Nat
  currOffset : Nat

namespace Selecting

def nextPage (s : Selecting) : Selecting :=
  { s with currPageNum := s.currPageNum + 1, currOffset := 0 }

def placed (postingListBytes : List Nat) (s : Selecting) (p : PageModWithID) : Selecting where
  listRestSize := s.listRestSize.erase p
  postPageNum := Function.update s.postPageNum p.id s.currPageNum
  postPageOffset := Function.update s.postPageOffset p.id s.currOffset
  postingOrderInIndex := s.postingOrderInIndex ++ [p.id]
  currPageNum := (if s.currOffset + p.rest = PageSize then s.currPageNum + 1 else s.currPageNum) +
    postingListBytes.getD p.id 0 / PageSize
  currOffset := if s.currOffset + p.rest = PageSize then 0 else s.currOffset + p.rest

def place (postingListBytes : List Nat) (s : Selecting) (p : PageModWithID) : Option Selecting :=
  if PageSize < s.currOffset + p.rest then none else some (s.placed postingListBytes p)

/-- One round of the loop. The lower bound of `(rest, -1)` is the first posting of the set
that asks for no more than `rest`. -/
def step (postingListBytes : List Nat) (s : Selecting) : Option Selecting :=
  let rest := PageSize - s.currOffset
  match s.listRestSize.find? fun p => decide (p.rest ≤ rest) with
  | none => some s.nextPage
  | some p =>
    if rest ≠ PageSize ∧ p.rest = 0 then some s.nextPage else s.place postingListBytes p

def loop (postingListBytes : List Nat) : Nat → Selecting → Option Selecting
  | 0, s => if s.listRestSize.isEmpty then some s else none
  | fuel + 1, s =>
    if s.listRestSize.isEmpty then some s
    else s.step postingListBytes >>= loop postingListBytes fuel

def targetOffset (s : Selecting) (id : Nat) : Nat :=
  s.postPageNum id * PageSize + s.postPageOffset id

def cursor (s : Selecting) : Nat := s.currPageNum * PageSize + s.currOffset

def pagesUsed (s : Selecting) : Nat := s.currPageNum + if s.currOffset = 0 then 0 else 1

def ids (s : Selecting) : List Nat := s.listRestSize.map (·.id) ++ s.postingOrderInIndex

end Selecting

def selectPostingOffset (raw : Nat → Nat) (postingListBytes : List Nat) : Option Selecting :=
  Selecting.loop postingListBytes (2 * postingListBytes.length)
    ⟨listRestSize postingListBytes, raw, raw, [], 0, 0⟩

/-- What the loop keeps: each posting is waiting or placed, the placed ones lie one behind
the other up to the cursor, and no page is begun in vain. -/
structure Selected (postingListBytes : List Nat) (s : Selecting) : Prop where
  rest_eq : ∀ p ∈ s.listRestSize, p.rest = postingListBytes.getD p.id 0 % PageSize
  nodup : s.ids.Nodup
  mem_ids : ∀ id, id ∈ s.ids ↔ postingListBytes.getD id 0 ≠ 0
  offset_lt : s.currOffset < PageSize
  chained : Chained s.targetOffset (postingListBytes.getD · 0) PageSize 0 s.postingOrderInIndex
  end_le : chainEnd s.targetOffset (postingListBytes.getD · 0) 0 s.postingOrderInIndex ≤ s.cursor
  le_end : s.cursor <
    chainEnd s.targetOffset (postingListBytes.getD · 0) 0 s.postingOrderInIndex + PageSize
  end_eq : s.currOffset ≠ 0 →
    chainEnd s.targetOffset (postingListBytes.getD · 0) 0 s.postingOrderInIndex = s.cursor
  within : ∀ id ∈ s.postingOrderInIndex, s.postPageOffset id < PageSize ∧
    s.postPageOffset id + postingListBytes.getD id 0 % PageSize ≤ PageSize ∧
    (postingListBytes.getD id 0 % PageSize = 0 → s.postPageOffset id = 0)
  pagesUsed_le : s.pagesUsed ≤
    (s.postingOrderInIndex.map fun id => pages (postingListBytes.getD id 0)).sum

def Selecting.remaining (s : Selecting) : Nat :=
  2 * s.listRestSize.length + if s.currOffset = 0 then 0 else 1

section Loop

variable {postingListBytes : List Nat} {s : Selecting}

theorem Selected.nextPage (h : Selected postingListBytes s) (hoff : s.currOffset ≠ 0) :
    Selected postingListBytes s.nextPage := by
  have hend := h.end_eq hoff
  have hlt := h.offset_lt
  have hcursor : s.nextPage.cursor = s.cursor + (PageSize - s.currOffset) := by
    simp only [Selecting.nextPage, Selecting.cursor, Nat.add_mul, Nat.one_mul, Nat.add_zero]
    omega
  refine ⟨h.rest_eq, h.nodup, h.mem_ids, ?_, h.chained, ?_, ?_, fun hne =>
    absurd rfl hne, h.within, ?_⟩
  · exact Nat.lt_of_le_of_lt (Nat.zero_le _) hlt
  · rw [hcursor]
    exact Nat.le_add_right_of_le h.end_le
  · change s.nextPage.cursor < chainEnd s.targetOffset _ 0 s.postingOrderInIndex + PageSize
    rw [hcursor, hend]
    omega
  · have hpages := h.pagesUsed_le
    rw [Selecting.pagesUsed, if_neg hoff] at hpages
    exact hpages

section Placed

variable {p : PageModWithID}

@[simp] theorem targetOffset_placed_self :
    (s.placed postingListBytes p).targetOffset p.id = s.cursor := by
  simp only [Selecting.targetOffset, Selecting.placed, Function.update_self, Selecting.cursor]

theorem placed_of_ne {id : Nat} (h : id ≠ p.id) :
    (s.placed postingListBytes p).targetOffset id = s.targetOffset id ∧
      (s.placed postingListBytes p).postPageOffset id = s.postPageOffset id := by
  simp only [Selecting.targetOffset, Selecting.placed, Function.update_of_ne h, and_self]

variable (hrest : p.rest = postingListBytes.getD p.id 0 % PageSize)

include hrest in
@[simp] theorem cursor_placed :
    (s.placed postingListBytes p).cursor = s.cursor + postingListBytes.getD p.id 0 := by
  have hdiv := Nat.div_add_mod (postingListBytes.getD p.id 0) PageSize
  rw [← hrest] at hdiv
  simp only [Selecting.cursor, Selecting.placed]
  rw [Nat.add_mul, Nat.mul_comm (_ / _)]
  split
  · rw [Nat.add_mul]
    omega
  · omega

include hrest in
theorem pagesUsed_placed (hlt : s.currOffset < PageSize) :
    (s.placed postingListBytes p).pagesUsed ≤ s.pagesUsed +
      pages (postingListBytes.getD p.id 0) := by
  have hpage : PageSize = 4096 := rfl
  simp only [Selecting.pagesUsed, Selecting.placed, pages_eq]
  by_cases hfull : s.currOffset + p.rest = PageSize
  · simp only [if_pos hfull, if_true]
    rw [hpage] at hrest hlt hfull ⊢
    split <;> omega
  · simp only [if_neg hfull]
    rw [hpage] at hrest hlt hfull ⊢
    split <;> split <;> omega

theorem ids_placed (hp : p ∈ s.listRestSize) : s.ids.Perm (s.placed postingListBytes p).ids := by
  have herase := ((List.perm_cons_erase hp).map (·.id)).append_right s.postingOrderInIndex
  refine herase.trans ?_
  rw [Selecting.ids, Selecting.placed, List.map_cons, List.cons_append, ← List.append_assoc]
  exact (List.perm_append_singleton _ _).symm

end Placed

theorem Selected.placed (h : Selected postingListBytes s) {p : PageModWithID}
    (hp : p ∈ s.listRestSize) (hfits : s.currOffset + p.rest ≤ PageSize)
    (hzero : p.rest = 0 → s.currOffset = 0) :
    Selected postingListBytes (s.placed postingListBytes p) := by
  have hrest := h.rest_eq p hp
  have hperm := @ids_placed postingListBytes s p hp
  have hne : ∀ id ∈ s.postingOrderInIndex, id ≠ p.id := by
    rintro id hid rfl
    have hnodup := h.nodup
    rw [Selecting.ids, List.nodup_append] at hnodup
    exact hnodup.2.2 _ (List.mem_map_of_mem hp) _ hid rfl
  obtain ⟨hchain, hend⟩ := @chained_congr s.targetOffset (postingListBytes.getD · 0) PageSize 0 _
    (s.placed postingListBytes p).targetOffset fun id hid => (placed_of_ne (hne id hid)).1
  have hend' : chainEnd (s.placed postingListBytes p).targetOffset (postingListBytes.getD · 0) 0
      (s.postingOrderInIndex ++ [p.id]) = (s.placed postingListBytes p).cursor := by
    rw [chainEnd_concat, targetOffset_placed_self, cursor_placed hrest]
  refine ⟨fun q hq => h.rest_eq q (List.mem_of_mem_erase hq), hperm.nodup_iff.mp h.nodup,
    fun id => hperm.mem_iff.symm.trans (h.mem_ids id), ?_, ?_, hend'.le, ?_, fun _ => hend', ?_, ?_⟩
  · have := h.offset_lt
    simp only [Selecting.placed]
    split <;> omega
  · apply chained_concat.mpr
    have hle := h.end_le
    have hlt := h.le_end
    refine ⟨hchain.mpr h.chained, ?_⟩
    rw [hend, targetOffset_placed_self]
    exact ⟨hle, Nat.sub_le_iff_le_add'.mpr (Nat.le_of_lt hlt)⟩
  · change _ < chainEnd _ _ 0 (s.postingOrderInIndex ++ [p.id]) + PageSize
    rw [hend']
    exact Nat.lt_add_of_pos_right (Nat.zero_lt_of_lt h.offset_lt)
  · intro id hid
    rcases List.mem_append.mp hid with hid | hid
    · rw [(placed_of_ne (hne id hid)).2]
      exact h.within id hid
    · rw [List.mem_singleton.mp hid, ← hrest]
      simp only [Selecting.placed, Function.update_self]
      exact ⟨h.offset_lt, hfits, hzero⟩
  · change _ ≤ ((s.postingOrderInIndex ++ [p.id]).map _).sum
    rw [List.map_append, List.sum_append, List.map_singleton, List.sum_singleton]
    exact (pagesUsed_placed hrest h.offset_lt).trans (Nat.add_le_add_right h.pagesUsed_le _)

theorem Selecting.place_eq {p : PageModWithID} (hfits : s.currOffset + p.rest ≤ PageSize) :
    s.place postingListBytes p = some (s.placed postingListBytes p) :=
  if_neg (Nat.not_lt.mpr hfits)

theorem Selected.step (h : Selected postingListBytes s) (hne : s.listRestSize ≠ []) :
    ∃ s', s.step postingListBytes = some s' ∧ Selected postingListBytes s' ∧
      s'.remaining < s.remaining := by
  have hlt := h.offset_lt
  have hplace : ∀ p ∈ s.listRestSize, s.currOffset + p.rest ≤ PageSize →
      (p.rest = 0 → s.currOffset = 0) → ∃ s', s.place postingListBytes p = some s' ∧
        Selected postingListBytes s' ∧
        s'.remaining < s.remaining := by
    intro p hp hfits hzero
    refine ⟨_, Selecting.place_eq hfits, h.placed hp hfits hzero, ?_⟩
    have hlen := List.length_erase_of_mem hp
    have hpos := List.length_pos_of_mem hp
    simp only [Selecting.remaining, Selecting.placed, hlen]
    split <;> split <;> omega
  by_cases hoff : s.currOffset = 0
  · -- at the start of a page every posting fits
    obtain ⟨q, hq⟩ := List.exists_mem_of_ne_nil _ hne
    have hsome :
        (s.listRestSize.find? fun p => decide (p.rest ≤ PageSize - s.currOffset)).isSome := by
      rw [List.find?_isSome]
      refine ⟨q, hq, decide_eq_true ?_⟩
      rw [hoff, h.rest_eq q hq, Nat.sub_zero]
      exact Nat.le_of_lt (Nat.mod_lt _ (Nat.zero_lt_of_lt hlt))
    obtain ⟨p, hp⟩ := Option.isSome_iff_exists.mp hsome
    have hfits : p.rest ≤ PageSize - s.currOffset := by simpa using List.find?_some hp
    obtain ⟨s', hs', hrest⟩ := hplace p (List.mem_of_find?_eq_some hp) (by omega) fun _ => hoff
    refine ⟨s', ?_, hrest⟩
    simp only [Selecting.step, hp]
    rw [if_neg (by rw [hoff]; exact fun hc => hc.1 rfl), hs']
  · have hnext : ∃ s', some s.nextPage = some s' ∧ Selected postingListBytes s' ∧
        s'.remaining < s.remaining := by
      refine ⟨_, rfl, h.nextPage hoff, ?_⟩
      simp only [Selecting.remaining, Selecting.nextPage, if_pos, if_neg hoff]
      omega
    rw [Selecting.step]
    split
    · exact hnext
    · rename_i p hp
      split
      · exact hnext
      · rename_i hskip
        have hfits : p.rest ≤ PageSize - s.currOffset := by simpa using List.find?_some hp
        exact hplace p (List.mem_of_find?_eq_some hp) (by omega) fun hzero =>
          absurd ⟨by omega, hzero⟩ hskip

theorem Selected.loop (h : Selected postingListBytes s) {fuel : Nat} (hfuel : s.remaining ≤ fuel) :
    ∃ s', s.loop postingListBytes fuel = some s' ∧ Selected postingListBytes s' ∧
      s'.listRestSize = [] := by
  induction fuel generalizing s with
  | zero =>
    have hnil : s.listRestSize = [] := by
      rw [Selecting.remaining] at hfuel
      exact List.length_eq_zero_iff.mp (by omega)
    exact ⟨s, by rw [Selecting.loop, hnil]; rfl, h, hnil⟩
  | succ fuel ih =>
    rw [Selecting.loop]
    split
    · exact ⟨s, rfl, h, List.isEmpty_iff.mp ‹_›⟩
    · rename_i hne
      obtain ⟨s', hs', hinv, hlt⟩ := h.step fun hnil => hne (by rw [hnil]; rfl)
      rw [hs']
      exact ih hinv (Nat.le_of_lt_succ (Nat.lt_of_lt_of_le hlt hfuel))

end Loop

theorem perm_listRestSize (postingListBytes : List Nat) :
    (listRestSize postingListBytes).Perm
      ((postingListBytes.zipIdx.filter fun p => p.1 ≠ 0).map fun p => ⟨p.2, p.1 % PageSize⟩) := by
  have hfold : ∀ (ps : List (Nat × Nat)) (set : List PageModWithID),
      (ps.foldl (fun set p =>
        if p.1 = 0 then set else set.orderedInsert PageModWithID.before
          ⟨p.2, p.1 % PageSize⟩) set).Perm
      (((ps.filter fun p => p.1 ≠ 0).map fun p => ⟨p.2, p.1 % PageSize⟩) ++ set) := by
    intro ps
    induction ps with
    | nil => exact fun set => List.Perm.refl set
    | cons p ps ih =>
      intro set
      rw [List.foldl_cons]
      refine (ih _).trans ?_
      by_cases hp : p.1 = 0
      · rw [if_pos hp, List.filter_cons_of_neg (by simpa using hp)]
      · rw [if_neg hp, List.filter_cons_of_pos (by simpa using hp), List.map_cons, List.cons_append]
        exact ((List.perm_orderedInsert _ _ _).append_left _).trans List.perm_middle
  have := hfold postingListBytes.zipIdx []
  rwa [List.append_nil] at this

theorem selected_start (raw : Nat → Nat) (postingListBytes : List Nat) :
    Selected postingListBytes ⟨listRestSize postingListBytes, raw, raw, [], 0, 0⟩ := by
  have hperm := perm_listRestSize postingListBytes
  have hmem : ∀ p, p ∈ listRestSize postingListBytes ↔
      postingListBytes.getD p.id 0 ≠ 0 ∧ p.rest = postingListBytes.getD p.id 0 % PageSize := by
    intro p
    rw [hperm.mem_iff, List.mem_map]
    simp only [List.mem_filter, decide_not, Bool.not_eq_true', decide_eq_false_iff_not,
      Prod.exists, List.mem_zipIdx_iff_getElem?, List.getD_eq_getElem?_getD]
    constructor
    · rintro ⟨n, i, ⟨hget, hn⟩, rfl⟩
      rw [hget]
      exact ⟨hn, rfl⟩
    · rintro ⟨hne, hrest⟩
      cases hget : postingListBytes[p.id]? with
      | none =>
        rw [hget] at hne
        exact absurd rfl hne
      | some n =>
        rw [hget] at hne hrest
        exact ⟨n, p.id, ⟨hget, hne⟩, by cases p; simp_all⟩
  have hnodup : ((listRestSize postingListBytes).map (·.id)).Nodup := by
    rw [(hperm.map (·.id)).nodup_iff, List.map_map]
    have hsub : ((postingListBytes.zipIdx.filter fun p => p.1 ≠ 0).map Prod.snd).Sublist
        (postingListBytes.zipIdx.map Prod.snd) := List.filter_sublist.map _
    rw [List.zipIdx_map_snd] at hsub
    exact (@List.nodup_range' 0 postingListBytes.length 1 Nat.one_pos).sublist hsub
  have hpos : 0 < PageSize := by decide
  have hcursor : ∀ n, 0 * n + 0 = 0 := by simp
  refine ⟨fun p hp => ((hmem p).mp hp).2, ?_, fun id => ?_, hpos, trivial, (hcursor _).ge, ?_,
    fun hne => absurd rfl hne, fun id hid => absurd hid List.not_mem_nil, Nat.le_refl _⟩
  · rw [Selecting.ids, List.append_nil]
    exact hnodup
  rotate_left
  · rw [Selecting.cursor, hcursor]
    exact Nat.lt_add_of_pos_right hpos
  · rw [Selecting.ids, List.append_nil, List.mem_map]
    constructor
    · rintro ⟨p, hp, rfl⟩
      exact ((hmem p).mp hp).1
    · intro hne
      exact ⟨⟨id, postingListBytes.getD id 0 % PageSize⟩, (hmem _).mpr ⟨hne, rfl⟩, rfl⟩

theorem selectPostingOffset_spec (raw : Nat → Nat) (postingListBytes : List Nat) :
    ∃ s, selectPostingOffset raw postingListBytes = some s ∧ Selected postingListBytes s ∧
      s.listRestSize = [] := by
  apply (selected_start raw postingListBytes).loop
  have hlen := (perm_listRestSize postingListBytes).length_eq
  rw [List.length_map] at hlen
  have hle := List.length_filter_le (fun p : Nat × Nat => decide (p.1 ≠ 0)) postingListBytes.zipIdx
  rw [List.length_zipIdx] at hle
  simp only [Selecting.remaining, hlen, if_true, Nat.add_zero]
  exact Nat.mul_le_mul_left 2 hle

theorem Selected.sum_pages_le {postingListBytes : List Nat} {s : Selecting}
    (h : Selected postingListBytes s) :
    (s.postingOrderInIndex.map fun id => pages (postingListBytes.getD id 0)).sum ≤
      (postingListBytes.map pages).sum := by
  have hsub : s.postingOrderInIndex ⊆ List.range postingListBytes.length := by
    intro id hid
    rw [List.mem_range]
    by_contra hge
    apply (h.mem_ids id).mp (List.mem_append_right _ hid)
    rw [List.getD_eq_getElem?_getD, List.getElem?_eq_none (Nat.le_of_not_lt hge), Option.getD_none]
  have hall : (List.range postingListBytes.length).map
    (fun id => pages (postingListBytes.getD id 0)) =
      postingListBytes.map pages := by
    apply List.ext_getElem
    · simp
    · intro i hi _
      have hlt : i < postingListBytes.length := by simpa using hi
      simp [hlt]
  obtain ⟨ids, hperm, hsublist⟩ :=
    List.subperm_of_subset (List.nodup_append.mp h.nodup).2.1 hsub
  have hsum := (hsublist.map fun id => pages (postingListBytes.getD id 0)).sum_le_sum
    fun _ _ => Nat.zero_le _
  rwa [(hperm.map fun id => pages (postingListBytes.getD id 0)).sum_eq, hall] at hsum

end Sptag.SPANN.Static
