import Mathlib

/-! Binary max-heaps in an array with its root at 0: how a root sifts down, what a heap of
fixed size keeps of the elements it is offered, and how it is drained into order. -/

namespace Sptag.Lib

variable {α : Type*} {r : Nat → α} {n i j : Nat}

def exchange (r : Nat → α) (i j : Nat) : Nat → α := fun k => r (Equiv.swap i j k)

@[simp] theorem exchange_left : exchange r i j i = r j := by simp [exchange]

@[simp] theorem exchange_right : exchange r i j j = r i := by simp [exchange]

theorem exchange_of_ne {k : Nat} (hi : k ≠ i) (hj : k ≠ j) : exchange r i j k = r k := by
  rw [exchange, Equiv.swap_apply_of_ne_of_ne hi hj]

def contents (r : Nat → α) (n : Nat) : Multiset α := (Multiset.range n).map r

theorem contents_succ : contents r (n + 1) = r n ::ₘ contents r n := by
  rw [contents, Multiset.range_succ, Multiset.map_cons, contents]

@[simp] theorem card_contents : (contents r n).card = n := by simp [contents]

@[simp] theorem mem_contents {x : α} : x ∈ contents r n ↔ ∃ i, i < n ∧ r i = x := by simp [contents]

theorem contents_congr {r' : Nat → α} (h : ∀ i, i < n → r i = r' i) :
    contents r n = contents r' n :=
  Multiset.map_congr rfl fun i hi => h i (Multiset.mem_range.mp hi)

theorem contents_exchange (hi : i < n) (hj : j < n) :
    contents (exchange r i j) n = contents r n := by
  have hlt : ∀ k, k < n → Equiv.swap i j k < n := by
    intro k hk
    rw [Equiv.swap_apply_def]
    split_ifs <;> assumption
  have hrange : (Multiset.range n).map (Equiv.swap i j) = Multiset.range n := by
    refine (Multiset.Nodup.ext ?_ (Multiset.nodup_range n)).mpr fun k => ?_
    · exact (Multiset.nodup_range n).map (Equiv.swap i j).injective
    · rw [Multiset.mem_map, Multiset.mem_range]
      refine ⟨?_, fun hk => ⟨Equiv.swap i j k, ?_, Equiv.swap_apply_self i j k⟩⟩
      · rintro ⟨l, hl, rfl⟩
        exact hlt l (Multiset.mem_range.mp hl)
      · exact Multiset.mem_range.mpr (hlt k hk)
  calc contents (exchange r i j) n
      = ((Multiset.range n).map (Equiv.swap i j)).map r := by
        rw [Multiset.map_map]
        rfl
    _ = contents r n := by rw [hrange, contents]

theorem contents_zero : contents r (n + 1) = r 0 ::ₘ contents (r ∘ Nat.succ) n := by
  rw [contents, ← Multiset.coe_range, List.range_succ_eq_map, contents, ← Multiset.coe_range,
    Multiset.map_coe, Multiset.map_coe, List.map_cons, List.map_map, Multiset.cons_coe]

theorem contents_update_zero (x : α) :
    contents (Function.update r 0 x) (n + 1) = x ::ₘ contents (r ∘ Nat.succ) n := by
  have htail : Function.update r 0 x ∘ Nat.succ = r ∘ Nat.succ := by
    funext k
    simp
  rw [contents_zero, htail, Function.update_self]

theorem contents_update (hi : i < n) (x : α) :
    r i ::ₘ contents (Function.update r i x) n = x ::ₘ contents r n := by
  have hrest : ((Multiset.range n).erase i).map (Function.update r i x) =
      ((Multiset.range n).erase i).map r := by
    refine Multiset.map_congr rfl fun k hk => Function.update_of_ne ?_ _ _
    exact ((Multiset.nodup_range n).mem_erase_iff.mp hk).1
  have hsplit := Multiset.cons_erase (Multiset.mem_range.mpr hi)
  rw [contents, contents, ← hsplit, Multiset.map_cons, Multiset.map_cons, hrest,
    Function.update_self, Multiset.cons_swap]

section Heap

variable [LinearOrder α] {p c : Nat}

def IsChild (c p : Nat) : Prop := c = 2 * p + 1 ∨ c = 2 * p + 2

theorem IsChild.lt (h : IsChild c p) : p < c := by
  unfold IsChild at h
  omega

theorem IsChild.parent_eq {q : Nat} (hp : IsChild c p) (hq : IsChild c q) : p = q := by
  unfold IsChild at hp hq
  omega

def IsHeap (r : Nat → α) (n : Nat) : Prop := ∀ p c, IsChild c p → c < n → r c ≤ r p

theorem IsHeap.le_root (h : IsHeap r n) (hi : i < n) : r i ≤ r 0 := by
  induction i using Nat.strong_induction_on with
  | _ i ih =>
    by_cases hzero : i = 0
    · rw [hzero]
    · have hchild : IsChild i ((i - 1) / 2) := by
        unfold IsChild
        omega
      exact (h _ _ hchild hi).trans (ih _ hchild.lt (hchild.lt.trans hi))

structure Sifting (r : Nat → α) (n p : Nat) : Prop where
  rest : ∀ q c, q ≠ p → IsChild c q → c < n → r c ≤ r q
  above : ∀ q c, IsChild p q → IsChild c p → c < n → r c ≤ r q

theorem IsHeap.sifting {r' : Nat → α} (h : IsHeap r n) (heq : ∀ i, 0 < i → i < n → r' i = r i) :
    Sifting r' n 0 where
  rest q c hq hc hn := by
    have hq' : 0 < q := Nat.pos_of_ne_zero hq
    rw [heq c (hq'.trans hc.lt) hn, heq q hq' (hc.lt.trans hn)]
    exact h q c hc hn
  above q c hq := absurd hq.lt (Nat.not_lt_zero q)

theorem IsHeap.sifting_last (h : IsHeap r (n + 1)) : Sifting (exchange r 0 n) n 0 := by
  refine IsHeap.sifting (fun p c hc hn => h p c hc (hn.trans n.lt_succ_self)) ?_
  exact fun i hi hn => exchange_of_ne hi.ne' hn.ne

theorem Sifting.stop (h : Sifting r n p) (hp : ∀ c, IsChild c p → c < n → r c ≤ r p) :
    IsHeap r n := by
  intro q c hc hn
  by_cases hq : q = p
  · subst hq
    exact hp c hc hn
  · exact h.rest q c hq hc hn

theorem Sifting.down (h : Sifting r n p) (hc : IsChild c p) (hn : c < n) (hle : r p ≤ r c)
    (hlarger : ∀ d, IsChild d p → d < n → r d ≤ r c) : Sifting (exchange r p c) n c where
  rest q d hq hd hdn := by
    have hdc : IsChild d p → d = c ∨ (d ≠ p ∧ d ≠ c) := fun h =>
      (em (d = c)).imp_right fun hne => ⟨h.lt.ne', hne⟩
    by_cases hqp : q = p
    · subst hqp
      rw [exchange_left]
      rcases hdc hd with rfl | ⟨hne, hne'⟩
      · rwa [exchange_right]
      · rw [exchange_of_ne hne hne']
        exact hlarger d hd hdn
    · rw [exchange_of_ne hqp hq]
      have hne : d ≠ c := fun heq => hqp ((heq ▸ hd).parent_eq hc)
      by_cases hdp : d = p
      · subst hdp
        rw [exchange_left]
        exact h.above q c hd hc hn
      · rw [exchange_of_ne hdp hne]
        exact h.rest q d hqp hd hdn
  above q d hq hd hdn := by
    obtain rfl : q = p := hq.parent_eq hc
    rw [exchange_left, exchange_of_ne (hc.lt.trans hd.lt).ne' hd.lt.ne']
    exact h.rest c d hc.lt.ne' hd hdn

theorem larger_child (r : Nat → α) (h : 2 * p + 2 < n) :
    ∃ c, (if r (2 * p + 1) < r (2 * p + 2) then 2 * p + 2 else 2 * p + 1) = c ∧
      IsChild c p ∧ c < n ∧ ∀ d, IsChild d p → d < n → r d ≤ r c := by
  split
  · rename_i hlt
    refine ⟨_, rfl, .inr rfl, h, ?_⟩
    rintro d (rfl | rfl) -
    · exact hlt.le
    · exact le_rfl
  · rename_i hge
    refine ⟨_, rfl, .inl rfl, (Nat.lt_succ_self _).trans h, ?_⟩
    rintro d (rfl | rfl) -
    · exact le_rfl
    · exact not_lt.mp hge

theorem IsChild.eq_of_not_lt (hc : IsChild c p) (hn : c < n) (h : ¬ 2 * p + 2 < n) :
    c = 2 * p + 1 ∧ 2 * p + 2 = n := by
  unfold IsChild at hc
  omega

theorem Sifting.last (h : Sifting r n p) (hone : ¬ 2 * p + 2 < n) :
    IsHeap (if 2 * p + 2 = n ∧ r p < r (2 * p + 1) then exchange r p (2 * p + 1) else r) n := by
  split
  · rename_i hlast
    have hn : 2 * p + 1 < n := (Nat.lt_succ_self _).trans_eq hlast.1
    refine (h.down (.inl rfl) hn hlast.2.le fun d hd hdn => ?_).stop fun c hc hcn => ?_
    · rw [(hd.eq_of_not_lt hdn hone).1]
    · have hlt := hc.lt
      have heq := hlast.1
      omega
  · rename_i hlast
    refine h.stop fun c hc hcn => ?_
    obtain ⟨rfl, heq⟩ := hc.eq_of_not_lt hcn hone
    exact not_lt.mp fun hlt => hlast ⟨heq, hlt⟩

structure Rising (r : Nat → α) (n c : Nat) : Prop where
  rest : ∀ q d, d ≠ c → IsChild d q → d < n → r d ≤ r q
  below : ∀ q d, IsChild c q → IsChild d c → d < n → r d ≤ r q

theorem Rising.stop (h : Rising r n c) (hc : ∀ p, IsChild c p → r c ≤ r p) : IsHeap r n := by
  intro q d hd hn
  by_cases hdc : d = c
  · subst hdc
    exact hc q hd
  · exact h.rest q d hdc hd hn

theorem Rising.up (h : Rising r n c) (hc : IsChild c p) (hle : r p ≤ r c) :
    Rising (exchange r c p) n p where
  rest q d hdp hd hdn := by
    by_cases hqp : q = p
    · subst hqp
      rw [exchange_right]
      by_cases hdc : d = c
      · subst hdc
        rwa [exchange_left]
      · rw [exchange_of_ne hdc hdp]
        exact (h.rest q d hdc hd hdn).trans hle
    · have hdc : d ≠ c := fun heq => hqp ((heq ▸ hd).parent_eq hc)
      rw [exchange_of_ne hdc hdp]
      by_cases hqc : q = c
      · subst hqc
        rw [exchange_left]
        exact h.below p d hc hd hdn
      · rw [exchange_of_ne hqc hqp]
        exact h.rest q d hdc hd hdn
  below q d hq hd hdn := by
    have hqp : r p ≤ r q ∨ n ≤ p := or_iff_not_imp_right.mpr fun hn =>
      h.rest q p hc.lt.ne hq (not_le.mp hn)
    have hqp := hqp.resolve_right (hd.lt.trans hdn).not_ge
    rw [exchange_of_ne (hq.lt.trans hc.lt).ne hq.lt.ne]
    by_cases hdc : d = c
    · subst hdc
      rwa [exchange_left]
    · rw [exchange_of_ne hdc hd.lt.ne']
      exact (h.rest p d hdc hd hdn).trans hqp

theorem IsHeap.rising {m : Nat} {x : α} (h : IsHeap r m)
    (hleaf : ∀ d, IsChild d i → n ≤ d) (hm : ∀ k, k < n → k ≠ i → k < m) :
    Rising (Function.update r i x) n i where
  rest q d hd hq hdn := by
    have hqi : q ≠ i := by
      rintro rfl
      exact (hleaf d hq).not_gt hdn
    rw [Function.update_of_ne hd, Function.update_of_ne hqi]
    exact h q d hq (hm d hdn hd)
  below q d _ hd hdn := absurd hdn (hleaf d hd).not_gt

structure Sifts (sift : Nat → (Nat → α) → Nat → α) : Prop where
  heap : ∀ {n r}, Sifting r n 0 → IsHeap (sift n r) n
  contents : ∀ {n r}, contents (sift n r) n = contents r n
  above : ∀ {n r i}, n ≤ i → sift n r i = r i

variable {sift : Nat → (Nat → α) → Nat → α}

theorem sort_eq_of_pairwise {M : Multiset α} {l : List α} (hl : l.Pairwise (· ≤ ·))
    (hM : (l : Multiset α) = M) : M.sort = l := by
  refine List.Perm.eq_of_pairwise' (Multiset.pairwise_sort _ _) hl ?_
  rw [← Multiset.coe_eq_coe, Multiset.sort_eq, hM]

theorem sort_map {β : Type*} [LinearOrder β] {f : α → β} (hf : Monotone f) (M : Multiset α) :
    (M.map f).sort = M.sort.map f := by
  refine sort_eq_of_pairwise ((Multiset.pairwise_sort M _).map f fun _ _ h => hf h) ?_
  rw [← Multiset.map_coe, Multiset.sort_eq]

theorem sort_add_replicate {M : Multiset α} {b : α} (h : ∀ x ∈ M, x ≤ b) (k : Nat) :
    (M + Multiset.replicate k b).sort = M.sort ++ List.replicate k b := by
  refine sort_eq_of_pairwise (List.pairwise_append.mpr ⟨Multiset.pairwise_sort _ _, ?_, ?_⟩) ?_
  · exact List.pairwise_replicate.mpr (.inr le_rfl)
  · intro x hx y hy
    rw [List.eq_of_mem_replicate hy]
    exact h x ((Multiset.mem_sort _).mp hx)
  · rw [← Multiset.coe_add, Multiset.sort_eq, Multiset.coe_replicate]

omit [LinearOrder α] in
theorem getD_append_replicate (l : List α) (d : α) (k i : Nat) :
    (l ++ List.replicate k d).getD i d = l.getD i d := by
  by_cases hi : i < l.length
  · exact List.getD_append _ _ _ _ hi
  · rw [List.getD_append_right _ _ _ _ (not_lt.mp hi), List.getD_eq_default _ _ (not_lt.mp hi),
      List.getD_eq_getElem?_getD, List.getElem?_getD_replicate_default_eq]

def drain (sift : Nat → (Nat → α) → Nat → α) : Nat → (Nat → α) → Nat → α
  | 0, r => r
  | n + 1, r => drain sift n (sift n (exchange r 0 n))

theorem drain_above (hsift : Sifts sift) (hi : n ≤ i) : drain sift n r i = r i := by
  induction n generalizing r with
  | zero => rfl
  | succ n ih =>
    have hlt : n < i := hi
    rw [drain, ih hlt.le, hsift.above hlt.le, exchange_of_ne (Nat.ne_zero_of_lt hlt) hlt.ne']

theorem contents_drain (hsift : Sifts sift) : contents (drain sift n r) n = contents r n := by
  induction n generalizing r with
  | zero => rfl
  | succ n ih =>
    have hlast : sift n (exchange r 0 n) n = exchange r 0 n n := hsift.above le_rfl
    rw [contents_succ, drain, ih, drain_above hsift le_rfl, hsift.contents, hlast, ← contents_succ,
      contents_exchange n.succ_pos n.lt_succ_self]

theorem drain_sorted (hsift : Sifts sift) (h : IsHeap r n) :
    ((List.range n).map (drain sift n r)).Pairwise (· ≤ ·) := by
  induction n generalizing r with
  | zero => exact .nil
  | succ n ih =>
    have hheap : IsHeap (sift n (exchange r 0 n)) n := hsift.heap h.sifting_last
    have hlast : drain sift (n + 1) r n = r 0 := by
      rw [drain, drain_above hsift le_rfl, hsift.above le_rfl, exchange_right]
    rw [List.range_succ, List.map_append, List.map_singleton, List.pairwise_append, hlast]
    refine ⟨ih hheap, List.pairwise_singleton _ _, fun x hx y hy => ?_⟩
    obtain rfl := List.mem_singleton.mp hy
    have hmem : x ∈ contents (drain sift (n + 1) r) (n + 1) := by
      obtain ⟨i, hi, rfl⟩ := List.mem_map.mp hx
      exact mem_contents.mpr ⟨i, (List.mem_range.mp hi).trans n.lt_succ_self, rfl⟩
    rw [contents_drain hsift] at hmem
    obtain ⟨i, hi, rfl⟩ := mem_contents.mp hmem
    exact h.le_root hi

theorem map_drain (hsift : Sifts sift) (h : IsHeap r n) :
    (List.range n).map (drain sift n r) = (contents r n).sort := by
  refine (sort_eq_of_pairwise (drain_sorted hsift h) ?_).symm
  rw [← contents_drain hsift, contents, ← Multiset.coe_range, Multiset.map_coe]

structure IsSmallest (n : Nat) (M S : Multiset α) : Prop where
  le : S ≤ M
  card : S.card = n
  bound : ∀ x ∈ S, ∀ y ∈ M - S, x ≤ y

theorem IsSmallest.self (M : Multiset α) : IsSmallest M.card M M :=
  ⟨le_rfl, rfl, fun x _ y hy => by simp at hy⟩

variable {M S : Multiset α} {x : α}

theorem IsSmallest.sort_eq (h : IsSmallest n M S) : S.sort = M.sort.take n := by
  have hsplit : M.sort = S.sort ++ (M - S).sort := by
    refine sort_eq_of_pairwise (List.pairwise_append.mpr ⟨?_, ?_, fun x hx y hy => ?_⟩) ?_
    · exact Multiset.pairwise_sort _ _
    · exact Multiset.pairwise_sort _ _
    · exact h.bound x ((Multiset.mem_sort _).mp hx) y ((Multiset.mem_sort _).mp hy)
    · rw [← Multiset.coe_add, Multiset.sort_eq, Multiset.sort_eq, add_comm,
        Multiset.sub_add_cancel h.le]
  rw [hsplit, List.take_left' (by rw [Multiset.length_sort, h.card])]

theorem IsSmallest.skip (h : IsSmallest n M S) (hx : ∀ y ∈ S, y ≤ x) :
    IsSmallest n (x ::ₘ M) S where
  le := h.le.trans (Multiset.le_cons_self M x)
  card := h.card
  bound y hy z hz := by
    rw [Multiset.cons_sub_of_le _ h.le, Multiset.mem_cons] at hz
    rcases hz with rfl | hz
    · exact hx y hy
    · exact h.bound y hy z hz

theorem IsSmallest.skip_all {N : Multiset α} (h : IsSmallest n M S) (hN : ∀ x ∈ N, ∀ y ∈ S, y ≤ x) :
    IsSmallest n (N + M) S := by
  induction N using Multiset.induction with
  | empty => rwa [Multiset.zero_add]
  | cons x N ih =>
    rw [Multiset.cons_add]
    exact (ih fun x hx => hN x (Multiset.mem_cons_of_mem hx)).skip
      (hN x (Multiset.mem_cons_self x N))

theorem IsSmallest.le_of_card {L : Multiset α} (h : IsSmallest n M S) (hL : L ≤ M)
    (hcard : n ≤ L.card)
    (hx : ∀ y ∈ L, y ≤ x) : ∀ y ∈ S, y ≤ x := by
  intro y hy
  by_contra hlt
  have hrest : (M - S).filter (· ≤ x) = 0 := Multiset.filter_eq_nil.mpr fun z hz hle =>
    hlt ((h.bound y hy z hz).trans hle)
  have hfilter : M.filter (· ≤ x) = S.filter (· ≤ x) := by
    rw [← Multiset.sub_add_cancel h.le, Multiset.filter_add, hrest, Multiset.zero_add]
  have hfew : (S.filter (· ≤ x)).card < S.card := Multiset.card_lt_card <|
    (Multiset.filter_le _ S).lt_of_ne fun heq => hlt (Multiset.filter_eq_self.mp heq y hy)
  have hmany : L ≤ M.filter (· ≤ x) := Multiset.le_filter.mpr ⟨hL, hx⟩
  have := Multiset.card_le_card hmany
  rw [hfilter] at this
  rw [h.card] at hfew
  omega

theorem IsSmallest.replace {m : α} (h : IsSmallest n M (m ::ₘ S)) (hm : ∀ y ∈ S, y ≤ m)
    (hx : x ≤ m) :
    IsSmallest n (x ::ₘ M) (x ::ₘ S) where
  le := Multiset.cons_le_cons x ((Multiset.le_cons_self S m).trans h.le)
  card := by
    rw [← h.card, Multiset.card_cons, Multiset.card_cons]
  bound y hy z hz := by
    obtain ⟨T, rfl⟩ := Multiset.le_iff_exists_add.mp h.le
    have hrest : x ::ₘ (m ::ₘ S + T) - x ::ₘ S = m ::ₘ T := by
      rw [Multiset.cons_add, ← Multiset.add_cons, ← Multiset.cons_add, add_tsub_cancel_left]
    have hkept : ∀ y ∈ x ::ₘ S, y ≤ m := by
      intro y hy
      rcases Multiset.mem_cons.mp hy with rfl | hy
      · exact hx
      · exact hm y hy
    rw [hrest] at hz
    rcases Multiset.mem_cons.mp hz with rfl | hz
    · exact hkept y hy
    · refine (hkept y hy).trans (h.bound m (Multiset.mem_cons_self m S) z ?_)
      rwa [add_tsub_cancel_left]

theorem IsHeap.root_eq (h : IsHeap r n) (hn : 0 < n) (hM : IsSmallest n M (contents r n)) (d : α) :
    M.sort.getD (n - 1) d = r 0 := by
  have hlen : (contents r n).sort.length = n := by rw [Multiset.length_sort, card_contents]
  have hlast : n - 1 < (contents r n).sort.length := by omega
  have hsort : M.sort.getD (n - 1) d = (contents r n).sort[n - 1] := by
    rw [List.getElem_eq_getD d, hM.sort_eq, List.getD_eq_getElem?_getD, List.getD_eq_getElem?_getD,
      List.getElem?_take_of_lt (Nat.sub_one_lt_of_lt hn)]
  rw [hsort]
  refine le_antisymm ?_ ?_
  · obtain ⟨i, hi, heq⟩ := mem_contents.mp ((Multiset.mem_sort _).mp (List.getElem_mem hlast))
    rw [← heq]
    exact h.le_root hi
  · have hroot : r 0 ∈ (contents r n).sort :=
      (Multiset.mem_sort _).mpr (mem_contents.mpr ⟨0, hn, rfl⟩)
    obtain ⟨i, hi, heq⟩ := List.mem_iff_getElem.mp hroot
    have hle : i ≤ n - 1 := by omega
    rw [← heq]
    exact (Multiset.pairwise_sort (contents r n) (· ≤ ·)).rel_get_of_le
      (a := ⟨i, hi⟩) (b := ⟨n - 1, hlast⟩) hle

def offer (sift : Nat → (Nat → α) → Nat → α) (n : Nat) (r : Nat → α) (x : α) : Nat → α :=
  if x < r 0 then sift n (Function.update r 0 x) else r

theorem offer_spec (hsift : Sifts sift) (hn : 0 < n) (h : IsHeap r n)
    (hM : IsSmallest n M (contents r n)) (x : α) :
    IsHeap (offer sift n r x) n ∧ IsSmallest n (x ::ₘ M) (contents (offer sift n r x) n) := by
  unfold offer
  split
  · rename_i hx
    obtain ⟨m, rfl⟩ := Nat.exists_eq_add_one_of_ne_zero hn.ne'
    refine ⟨hsift.heap (h.sifting fun i hi _ => Function.update_of_ne hi.ne' _ _), ?_⟩
    rw [hsift.contents, contents_update_zero]
    rw [contents_zero] at hM
    refine hM.replace (fun y hy => ?_) hx.le
    obtain ⟨i, hi, rfl⟩ := mem_contents.mp hy
    exact h.le_root (Nat.succ_lt_succ hi)
  · rename_i hx
    refine ⟨h, hM.skip fun y hy => ?_⟩
    obtain ⟨i, hi, rfl⟩ := mem_contents.mp hy
    exact (h.le_root hi).trans (not_lt.mp hx)

theorem offers_spec (hsift : Sifts sift) (hn : 0 < n) (h : IsHeap r n)
    (hM : IsSmallest n M (contents r n)) (xs : List α) :
    IsHeap (xs.foldl (offer sift n) r) n ∧
      IsSmallest n (M + (xs : Multiset α)) (contents (xs.foldl (offer sift n) r) n) := by
  induction xs generalizing r M with
  | nil => exact ⟨h, by simpa using hM⟩
  | cons x xs ih =>
    obtain ⟨hheap, hsmall⟩ := offer_spec hsift hn h hM x
    have hsum : M + ↑(x :: xs) = x ::ₘ M + ↑xs := by
      rw [← Multiset.cons_coe, Multiset.add_cons, Multiset.cons_add]
    rw [hsum]
    exact ih hheap hsmall

theorem IsSmallest.contents : IsSmallest n (contents r n) (contents r n) := by
  simpa using IsSmallest.self (Lib.contents r n)

theorem drain_offers (hsift : Sifts sift) (h : IsHeap r n) (hn : 0 < n) (xs : List α) :
    (List.range n).map (drain sift n (xs.foldl (offer sift n) r)) =
      (contents r n + xs).sort.take n := by
  obtain ⟨hheap, hsmall⟩ := offers_spec hsift hn h IsSmallest.contents xs
  rw [map_drain hsift hheap, hsmall.sort_eq]

end Heap

end Sptag.Lib
