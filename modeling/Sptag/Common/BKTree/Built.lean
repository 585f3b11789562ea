import Sptag.Common.BKTree.SearchTrees

/-! What `BuildTrees` makes can be searched, and a search of the trees comes to each sample once
for each tree where every segment was divided or became leaves. -/

namespace Sptag.COMMON.BKTree

open Lib Slots

def rowIds (R : Nat) : List (Option Int) := (List.range R).map fun n : Nat => some (n : Int)

def Divided (t : BKTree) : Prop := ∀ k < t.m_pTreeRoots.size,
  (t.m_pTreeRoots.cell k).childStart < 0 → children (bounds t.m_pTreeRoots) k = []

variable {D : Type} {t : BKTree} {R k c start : Nat} {nodes : List Nat} {ids : List (Option Int)}

theorem children_inner (hd : Divided t) (hk : k < t.m_pTreeRoots.size) :
    children (inner t.m_pTreeRoots) k = children (bounds t.m_pTreeRoots) k := by
  by_cases hneg : (t.m_pTreeRoots.cell k).childStart < 0
  · rw [hd k hk hneg, children_leaf hneg]
  · have hstart : (t.m_pTreeRoots.cell k).childStart.natAbs =
        (t.m_pTreeRoots.cell k).childStart.toNat := by omega
    rw [children, children, inner, if_neg hneg, bounds, hstart]

@[simp] theorem mem_rowIds {cid : Int} : some cid ∈ rowIds R ↔ 0 ≤ cid ∧ cid < R := by
  rw [rowIds, List.mem_map]
  constructor
  · rintro ⟨n, hn, heq⟩
    obtain rfl := Option.some.inj heq
    exact ⟨Int.natCast_nonneg n, Int.ofNat_lt.mpr (List.mem_range.mp hn)⟩
  · rintro ⟨hnonneg, hlt⟩
    obtain ⟨n, rfl⟩ := Int.eq_ofNat_of_zero_le hnonneg
    exact ⟨n, List.mem_range.mpr (Int.ofNat_lt.mp hlt), rfl⟩

theorem children_inner_subset :
    children (inner t.m_pTreeRoots) k ⊆ children (bounds t.m_pTreeRoots) k := by
  intro c hc
  by_cases hneg : (t.m_pTreeRoots.cell k).childStart < 0
  · rw [children_leaf hneg] at hc
    exact absurd hc List.not_mem_nil
  · have hstart : (t.m_pTreeRoots.cell k).childStart.natAbs =
        (t.m_pTreeRoots.cell k).childStart.toNat := by omega
    rwa [children, inner, if_neg hneg, ← hstart] at hc

structure Rooted (t : BKTree) (ids : List (Option Int)) (start : Nat)
    (nodes : List Nat) : Prop where
  reaches : Reaches (bounds t.m_pTreeRoots) start (start + 1) (start :: nodes)
  nodup : (start :: nodes).Nodup
  lt : ∀ k ∈ start :: nodes, k < t.m_pTreeRoots.size
  samples : ((samples t.m_pTreeRoots start nodes).map some).Perm ids

theorem Covering.rooted (h : Covering t ids) (hstart : start ∈ t.m_pTreeStart) :
    ∃ nodes, Rooted t ids start nodes := by
  obtain ⟨nodes, hreaches, hnodup, hlt, hsamples⟩ := h.reached start hstart
  exact ⟨nodes, hreaches, hnodup, hlt, hsamples⟩

theorem Rooted.perm (h : Rooted t ids start nodes) :
    nodes.Perm ((start :: nodes).flatMap (children (bounds t.m_pTreeRoots))) := by
  have hperm := h.reaches.perm
  rw [Nat.add_sub_cancel_left, List.range'_one, List.singleton_append] at hperm
  exact hperm.cons_inv

theorem Covering.linked (h : Covering t ids)
    (hk : Linked t.m_pTreeRoots t.m_pTreeStart k) : ∃ start nodes, Rooted t ids start nodes ∧
      k ∈ start :: nodes := by
  induction hk with
  | @start start hstart =>
    obtain ⟨nodes, hrooted⟩ := h.rooted hstart
    exact ⟨start, nodes, hrooted, List.mem_cons_self⟩
  | @child k c _ hc ih =>
    obtain ⟨start, nodes, hrooted, hmem⟩ := ih
    exact ⟨start, nodes, hrooted, List.mem_cons_of_mem _
      (hrooted.perm.mem_iff.mpr (List.mem_flatMap.mpr ⟨k, hmem, children_inner_subset hc⟩))⟩

theorem Covering.downward (h : Covering t ids) :
    Downward (inner t.m_pTreeRoots) t.m_pTreeRoots.size := fun k hk c hc =>
  h.after k hk c (children_inner_subset hc)

theorem Rooted.row (h : Rooted t (rowIds R) start nodes) {cid : Int}
    (hcid : cid ∈ BKTree.samples t.m_pTreeRoots start nodes) : 0 ≤ cid ∧ cid < R :=
  mem_rowIds.mp (h.samples.mem_iff.mp (List.mem_map_of_mem hcid))

theorem Covering.wired (h : Covering t (rowIds R)) : Wired t.m_pTreeRoots t.m_pTreeStart R where
  down := h.downward
  centred k hk c hc := by
    obtain ⟨start, nodes, hrooted, hmem⟩ := h.linked hk
    have hbelow : c ∈ nodes :=
      hrooted.perm.mem_iff.mpr (List.mem_flatMap.mpr ⟨k, hmem, children_inner_subset hc⟩)
    obtain ⟨hnonneg, hrow⟩ := hrooted.row (List.mem_append_right _ (List.mem_map_of_mem hbelow))
    exact ⟨.child hk hc, hrooted.lt c (List.mem_cons_of_mem _ hbelow), hnonneg, hrow⟩

theorem Covers.searchable (h : Covers t (rowIds R)) (hchar : t.m_iTreeNumber ≤ 127) :
    Searchable t R where
  wired := h.wired
  starts start hstart := by
    obtain ⟨nodes, hrooted⟩ := h.rooted hstart
    refine ⟨.start hstart, hrooted.lt start List.mem_cons_self, fun hleaf => ?_⟩
    have hmem : (t.m_pTreeRoots.cell start).centerid ∈ samples t.m_pTreeRoots start nodes := by
      rw [samples, if_pos hleaf]
      exact List.mem_cons_self
    obtain ⟨hnonneg, hrow⟩ := hrooted.row hmem
    exact ⟨.start hstart, hrooted.lt start List.mem_cons_self, hnonneg, hrow⟩
  number := h.trees
  char := hchar

theorem Rooted.centers (h : Rooted t ids start nodes) (hc : Covering t ids) (hd : Divided t) :
    ((seeds t.m_pTreeRoots start).flatMap (subtree (inner t.m_pTreeRoots) t.m_pTreeRoots.size)).map
        (fun k => (t.m_pTreeRoots.cell k).centerid) =
          BKTree.samples t.m_pTreeRoots start nodes := by
  have hlt := h.lt start List.mem_cons_self
  have hdown : Downward (bounds t.m_pTreeRoots) t.m_pTreeRoots.size := hc.after
  have heq := h.reaches.eq_flatMap hdown fun k hk hk' => by omega
  rw [Nat.add_sub_cancel_left, List.range'_one, List.flatMap_singleton, subtree_eq hc.after hlt,
    List.cons.injEq] at heq
  have hbelow : ∀ ks : List Nat, (∀ k ∈ ks, k < t.m_pTreeRoots.size) →
      ks.flatMap (subtree (inner t.m_pTreeRoots) t.m_pTreeRoots.size) =
        ks.flatMap (subtree (bounds t.m_pTreeRoots) t.m_pTreeRoots.size) := fun ks hks =>
    List.flatMap_congr fun k hk =>
      subtree_congr hc.after (fun k hk => children_inner hd hk) (hks k hk)
  rw [seeds, BKTree.samples]
  split
  · rename_i hneg
    rw [hbelow [start] (by simpa using hlt), List.flatMap_singleton, subtree_eq hc.after hlt,
      heq.2, hd start hlt hneg]
    rfl
  · rw [children_inner hd hlt, hbelow _ fun c hc' => (hc.after start hlt c hc').2, ← heq.2,
      List.nil_append]

theorem Covering.centers (h : Covering t ids) (hd : Divided t) (data : Samples D) :
    (subtrees t.m_pTreeRoots (seedCells data t.m_pTreeRoots t.m_pTreeStart)).map
        (fun k => some (t.m_pTreeRoots.cell k).centerid) =
      t.m_pTreeStart.length • (ids : Multiset (Option Int)) := by
  have hstarts : ∀ starts : List Nat, starts ⊆ t.m_pTreeStart →
      ((((starts.flatMap (seeds t.m_pTreeRoots)).flatMap
          (subtree (inner t.m_pTreeRoots) t.m_pTreeRoots.size)).map
        fun k => some (t.m_pTreeRoots.cell k).centerid : List (Option Int)) :
          Multiset (Option Int)) =
      starts.length • (ids : Multiset (Option Int)) := by
    intro starts hsub
    induction starts with
    | nil => rw [List.length_nil, zero_nsmul]; rfl
    | cons start starts ih =>
      obtain ⟨nodes, hrooted⟩ := h.rooted (hsub List.mem_cons_self)
      have hone := congrArg (List.map some) (hrooted.centers h hd)
      rw [List.map_map] at hone
      rw [List.flatMap_cons, List.flatMap_append, List.map_append, ← Multiset.coe_add,
        ih fun s hs => hsub (List.mem_cons_of_mem _ hs), List.length_cons, succ_nsmul',
          ← Function.comp_def,
        hone]
      exact congrArg (· + _) (Multiset.coe_eq_coe.mpr hrooted.samples)
  rw [seedCells, subtrees_children]
  exact hstarts _ (List.Subset.refl _)

theorem buildLoop_number {args : Args} {rounds turns : Nat} {i : Int} {t t' : BKTree}
    {localindices : Slots Nat} (h : buildLoop args rounds turns i t localindices = some t') :
    t'.m_iTreeNumber = t.m_iTreeNumber := by
  induction turns generalizing i t localindices with
  | zero => exact nomatch h
  | succ turns ih =>
    unfold buildLoop at h
    split at h
    · obtain ⟨⟨t₁, localindices₁⟩, hone, hrest⟩ := Option.bind_eq_some_iff.mp h
      refine (ih hrest).trans ?_
      unfold buildTree at hone
      simp only [Option.bind_eq_bind, Option.bind_eq_some_iff] at hone
      obtain ⟨index, -, start, -, s, -, heq⟩ := hone
      obtain ⟨rfl, -⟩ := Prod.mk.inj (Option.some.inj heq)
      rfl
    · exact congrArg _ (Option.some.inj h).symm

theorem buildTrees_searchable {args : Args} (h : args.Sound R) (hindices : args.indices = none)
    (hreverse : args.reverseIndices = none) (trees k leaf : Int) (hpos : 0 ≤ trees)
    (hchar : trees ≤ 127)
    (hleaf : args.dynamicK = true → leaf ≠ 0) (hroom : trees.toNat * (R + 2) ≤ 2 ^ 31) :
    ∀ rounds, R + trees.toNat < rounds → ∃ t,
      buildTrees args rounds R (.new trees k leaf) = some t ∧
      Searchable t R ∧ (Divided t → ∀ data : Samples D,
        (subtrees t.m_pTreeRoots (seedCells data t.m_pTreeRoots t.m_pTreeStart)).map
          (fun k => some (t.m_pTreeRoots.cell k).centerid) =
            trees.toNat • (rowIds R : Multiset (Option Int))) := by
  have hids : ((args.localindices R).range 0 (args.localindices R).size).map args.cid =
    rowIds R := by
    have hcid : args.cid = fun n : Nat => some (n : Int) :=
      funext fun n => by rw [Args.cid, hreverse]
    rw [Args.localindices, hindices, hcid, rowIds, Slots.range, Nat.sub_zero,
      ← List.range_eq_range',
      List.map_map]
    rfl
  intro rounds hrounds
  have hsize : (args.localindices R).size = R := by rw [Args.localindices, hindices]
  have hempty : Covering (new trees k leaf) (rowIds R) :=
    ⟨.nil, fun start hstart => absurd hstart List.not_mem_nil,
      fun k hk => absurd hk (Nat.not_lt_zero k), fun k hk => absurd hk (Nat.not_lt_zero k)⟩
  have hbuild : ∃ t, buildLoop args rounds rounds 0 (new trees k leaf)
    (args.localindices R) = some t ∧
      Covers t (rowIds R) := buildLoop_spec h.kmeans h.shuffle hleaf h.named h.pos (by omega)
    (.of_eq hids) hchar rfl (Nat.zero_le _) (show trees.toNat < 0 + rounds by omega)
    (show 0 + (trees.toNat - 0) * _ ≤ 2 ^ 31 by rwa [Nat.zero_add, Nat.sub_zero, hsize]) hempty
  obtain ⟨t, ht, hcovers⟩ := hbuild
  have hnumber := buildLoop_number ht
  refine ⟨t, ht, hcovers.searchable (hnumber.trans_le hchar), fun hd data => ?_⟩
  rw [hcovers.toCovering.centers hd data, hcovers.trees, hnumber]
  rfl

end Sptag.COMMON.BKTree
