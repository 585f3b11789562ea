import Sptag.Common
import Sptag.Lib.Subdivide

/-! `inc/Core/Common/KDTree.h`: how a range of samples is divided until each sample is a leaf. -/

namespace Sptag.COMMON.KDTree

open Lib Slots

structure KDTNode (R : Type) where
  left : Int
  right : Int
  split_dim : Nat
  split_value : R

structure Build (R : Type) where
  m_pTreeRoots : Slots (KDTNode R)
  indices : Slots Nat
  iTreeSize : Nat

section Source

variable {R : Type} [LT R] [DecidableLT R]

def subdivide (value : Nat → Nat → R) (node : KDTNode R) (indices : Slots Nat)
    (first last : Nat) : Option (Slots Nat × Int) := do
  let below := fun _ ind => some (decide (value ind node.split_dim < node.split_value))
  let (indices, i) ← Slots.subdivide below (last + 2 - first) indices first (last + 1)
  -- equal samples are divided by their places
  let i : Int :=
    if i = first ∨ i = last + 1 then (toInt (first + last + 1 : Nat)).tdiv 2 else i
  return (indices, i)

def Build.write (t : Build R) (index : Nat) (f : KDTNode R → KDTNode R) : Option (Build R) := do
  let node ← t.m_pTreeRoots.get index
  let roots ← t.m_pTreeRoots.set index (f node)
  return { t with m_pTreeRoots := roots }

def divideSide (divide : Build R → Nat → Nat → Nat → Option (Build R))
    (link : Int → KDTNode R → KDTNode R) (t : Build R) (index : Nat) (single : Bool)
    (place first last : Nat) : Option (Build R) :=
  if single then do
    let id ← t.indices.get place
    t.write index (link (-id - 1))
  else do
    let t := { t with iTreeSize := ← toIndex (t.iTreeSize + 1) }
    let t ← t.write index (link t.iTreeSize)
    divide t first last t.iTreeSize

def placeOf (i : Int) : Option Nat := if i < 0 then none else some i.toNat

/-- `ChooseDivision` may choose any dimension and value; the first number bounds the depth. -/
def divideTree (value : Nat → Nat → R) (choose : Nat → Slots Nat → Nat → Nat → Nat × R) :
    Nat → Build R → Nat → Nat → Nat → Option (Build R)
  | 0, _, _, _, _ => none
  | depth + 1, t, first, last, index => do
    let (dim, split) := choose index t.indices first last
    let t ← t.write index fun node => { node with split_dim := dim, split_value := split }
    let node ← t.m_pTreeRoots.get index
    let (indices, i) ← subdivide value node t.indices first last
    let t := { t with indices := indices }
    let i ← placeOf i
    let t ← divideSide (divideTree value choose depth) (fun c node => { node with left := c })
      t index (i - 1 ≤ first) first first (i - 1)
    divideSide (divideTree value choose depth) (fun c node => { node with right := c })
      t index (last = i) last i last

def buildTreesCore (value : Nat → Nat → R) (choose : Nat → Nat → Slots Nat → Nat → Nat → Nat × R)
    (shuffle : Nat → Slots Nat) (m_iTreeNumber : Nat) (m_pTreeRoots : Slots (KDTNode R)) :
    Option (Slots (KDTNode R)) :=
  (List.range m_iTreeNumber).foldlM (fun roots i => do
    let pindices := shuffle i
    let start ← toIndex (i * pindices.size)
    let t ← divideTree value (choose i) pindices.size ⟨roots, pindices, start⟩ 0
      (pindices.size - 1) start
    return t.m_pTreeRoots) m_pTreeRoots

end Source

/-- The code of a leaf or of an inner node, the samples below it and its inner nodes, each in
order from left to right. -/
inductive Spans {R : Type} (roots : Slots (KDTNode R)) : Int → List Nat → List Nat → Prop
  | leaf (id : Nat) : Spans roots (-id - 1) [id] []
  | inner {index : Nat} {ids ids' nodes nodes' : List Nat} (size : index < roots.size)
      (left : Spans roots (roots.cell index).left ids nodes)
      (right : Spans roots (roots.cell index).right ids' nodes')
      (left_ne : ids ≠ []) (right_ne : ids' ≠ []) :
      Spans roots index (ids ++ ids') (index :: (nodes ++ nodes'))

variable {R : Type}

theorem Spans.congr {roots roots' : Slots (KDTNode R)} {code : Int} {ids nodes : List Nat}
    (h : Spans roots code ids nodes) (hsize : roots'.size = roots.size)
    (hcell : ∀ k ∈ nodes, roots'.cell k = roots.cell k) : Spans roots' code ids nodes := by
  induction h with
  | leaf id => exact .leaf id
  | inner hindex _ _ hl hr ihl ihr =>
    have hnode := hcell _ (List.mem_cons_self ..)
    refine .inner (hsize ▸ hindex) (hnode ▸ ihl fun k hk => hcell k ?_)
      (hnode ▸ ihr fun k hk => hcell k ?_) hl hr
    · exact List.mem_cons_of_mem _ (List.mem_append_left _ hk)
    · exact List.mem_cons_of_mem _ (List.mem_append_right _ hk)

theorem Build.write_of_lt {t : Build R} {index : Nat} (h : index < t.m_pTreeRoots.size)
    (f : KDTNode R → KDTNode R) : t.write index f = some { t with
      m_pTreeRoots.cell :=
        Function.update t.m_pTreeRoots.cell index (f (t.m_pTreeRoots.cell index)) } := by
  simp only [Build.write, get_of_lt h, set_of_lt h, Option.bind_eq_bind, Option.bind_some]
  rfl

structure Divided (t t' : Build R) (first last index : Nat) : Prop where
  iTreeSize : t'.iTreeSize + 1 = t.iTreeSize + (last - first)
  size : t'.m_pTreeRoots.size = t.m_pTreeRoots.size
  frame : ∀ k, k ≠ index → k ≤ t.iTreeSize ∨ t'.iTreeSize < k →
    t'.m_pTreeRoots.cell k = t.m_pTreeRoots.cell k
  shuffled : Shuffled first (last + 1) t.indices t'.indices
  spans : Spans t'.m_pTreeRoots index (t'.indices.range first (last + 1))
    (index :: List.range' (t.iTreeSize + 1) (last - first - 1))

/-- The nodes behind the old `iTreeSize` become the tree of the range, and `index` has its code. -/
structure Linked (link : Int → KDTNode R → KDTNode R) (t t' : Build R) (first last index : Nat)
    (code : Int) : Prop where
  iTreeSize : t'.iTreeSize = t.iTreeSize + (last - first)
  size : t'.m_pTreeRoots.size = t.m_pTreeRoots.size
  link : t'.m_pTreeRoots.cell index = link code (t.m_pTreeRoots.cell index)
  frame : ∀ k, k ≠ index → k ≤ t.iTreeSize ∨ t'.iTreeSize < k →
    t'.m_pTreeRoots.cell k = t.m_pTreeRoots.cell k
  shuffled : Shuffled first (last + 1) t.indices t'.indices
  spans : Spans t'.m_pTreeRoots code (t'.indices.range first (last + 1))
    (List.range' (t.iTreeSize + 1) (last - first))

structure Room (t : Build R) (first last index : Nat) : Prop where
  first_lt : first < last
  last_lt : last < t.indices.size
  last_le : last < 2 ^ 30
  index_le : index ≤ t.iTreeSize
  nodes : t.iTreeSize + (last - first) ≤ t.m_pTreeRoots.size
  nodes_le : t.iTreeSize + (last - first) ≤ 2 ^ 31

theorem divideSide_spec {divide : Build R → Nat → Nat → Nat → Option (Build R)}
    (link : Int → KDTNode R → KDTNode R) (t : Build R) (index : Nat) (single : Bool)
    (place first last : Nat) (hsingle : single = true ↔ first = last)
    (hplace : first = last → place = first)
    (hfirst : first ≤ last) (hlast : last < t.indices.size) (hint : last < 2 ^ 30)
    (hindex : index ≤ t.iTreeSize) (hnodes : t.iTreeSize + (last - first) < t.m_pTreeRoots.size)
    (hfits : t.iTreeSize + (last - first) < 2 ^ 31)
    (ih : ∀ (t : Build R) index, Room t first last index →
      ∃ t', divide t first last index = some t' ∧ Divided t t' first last index) :
    ∃ t' code, divideSide divide link t index single place first last = some t' ∧
      Linked link t t' first last index code := by
  unfold divideSide
  have hwrite : index < t.m_pTreeRoots.size := by omega
  rcases hfirst.eq_or_lt with rfl | hlt
  · rw [if_pos (hsingle.mpr rfl), hplace rfl, get_of_lt hlast]
    refine ⟨_, _, Build.write_of_lt hwrite _,
      by simp, rfl, Function.update_self .., ?_, .refl _, ?_⟩
    · exact fun k hk _ => Function.update_of_ne hk _ _
    · dsimp only
      rw [range_one, Nat.sub_self]
      exact .leaf _
  · rw [if_neg (mt hsingle.mp hlt.ne)]
    simp only [Option.bind_eq_bind]
    rw [toIndex_of_lt (by omega), Option.bind_some,
      Build.write_of_lt (t := { t with iTreeSize := t.iTreeSize + 1 }) hwrite, Option.bind_some]
    dsimp only
    obtain ⟨t', ht', hdone⟩ := ih { t with
      iTreeSize := t.iTreeSize + 1
      m_pTreeRoots.cell := Function.update t.m_pTreeRoots.cell index
        (link (t.iTreeSize + 1 : Nat) (t.m_pTreeRoots.cell index)) } (t.iTreeSize + 1)
      ⟨hlt, hlast, hint, le_rfl, by dsimp only; omega, by dsimp only; omega⟩
    obtain ⟨hT, hsize, hframe, hsame, hspans⟩ := hdone
    dsimp only at hT hsize hframe hsame hspans
    refine ⟨t', (t.iTreeSize + 1 : Nat), ht', by omega, hsize, ?_, fun k hk hkT => ?_, hsame, ?_⟩
    · rw [hframe index (by omega) (by omega), Function.update_self]
    · rw [hframe k (by omega) (by omega), Function.update_of_ne hk]
    · obtain ⟨d, hd⟩ := Nat.exists_eq_add_one_of_ne_zero (Nat.sub_ne_zero_of_lt hlt)
      rw [hd, List.range'_succ]
      rwa [hd] at hspans

variable [LT R] [DecidableLT R] (value : Nat → Nat → R)
  (choose : Nat → Slots Nat → Nat → Nat → Nat × R)

theorem subdivide_spec (node : KDTNode R) {indices : Slots Nat} {first last : Nat}
    (hlt : first < last) (hlast : last < indices.size) (hint : last < 2 ^ 30) :
    ∃ (indices' : Slots Nat) (i : Nat), subdivide value node indices first last =
      some (indices', ↑i) ∧
      first < i ∧ i ≤ last ∧ Shuffled first (last + 1) indices indices' := by
  obtain ⟨s', m, hs', hm, hme, hsame, -⟩ := Slots.subdivide_spec
    (fun _ ind => some (decide (value ind node.split_dim < node.split_value))) (last + 2 - first)
    (P := fun ind => value ind node.split_dim < node.split_value) (s := indices) (i := first)
    (e := last + 1)
    (fun _ _ _ _ _ _ => rfl) (by omega) hlast (by omega)
  have hhalf : (toInt (first + last + 1 : Nat)).tdiv 2 = ((first + last + 1) / 2 : Nat) := by
    rw [toInt_of_lt (by omega)]
    rfl
  refine ⟨s', if m = first ∨ m = last + 1 then (first + last + 1) / 2 else m, ?_, ?_, ?_, hsame⟩
  · simp only [subdivide, hs', Option.bind_eq_bind, Option.bind_some, hhalf]
    split <;> rfl
  · split <;> omega
  · split <;> omega

theorem divideTree_spec (depth : Nat) {t : Build R} {first last index : Nat}
    (hroom : Room t first last index) (hdepth : last - first ≤ depth) :
    ∃ t', divideTree value choose depth t first last index = some t' ∧
      Divided t t' first last index := by
  induction depth generalizing t first last index with
  | zero => exact absurd hroom.first_lt (by omega)
  | succ depth ih =>
    obtain ⟨hlt, hlast, hint, hindex, hnodes, hfits⟩ := hroom
    have hwrite : index < t.m_pTreeRoots.size := by omega
    unfold divideTree
    simp only [Option.bind_eq_bind, Build.write_of_lt hwrite, Option.bind_some, Slots.get, hwrite,
      if_true]
    obtain ⟨indices', i, hi, hfi, hil, hsame⟩ := subdivide_spec value
      (Function.update t.m_pTreeRoots.cell index
        { t.m_pTreeRoots.cell index with
          split_dim := (choose index t.indices first last).1
          split_value := (choose index t.indices first last).2 } index) hlt hlast hint
    have hplace : placeOf i = some i := by
      rw [placeOf, if_neg (Int.natCast_nonneg i).not_gt, Int.toNat_natCast]
    rw [hi, Option.bind_some]
    dsimp only
    rw [hplace, Option.bind_some]
    obtain ⟨tl, codel, htl, hl⟩ := divideSide_spec (fun c node => { node with left := c })
      { t with
        indices := indices'
        m_pTreeRoots.cell := Function.update t.m_pTreeRoots.cell index
          { t.m_pTreeRoots.cell index with
            split_dim := (choose index t.indices first last).1
            split_value := (choose index t.indices first last).2 } }
      index (i - 1 ≤ first) first first (i - 1)
      (by simp; omega) (fun _ => rfl) (Nat.le_sub_one_of_lt hfi)
      (show i - 1 < indices'.size by rw [hsame.size]; omega) (by omega) hindex
      (show t.iTreeSize + (i - 1 - first) < t.m_pTreeRoots.size by omega)
      (show t.iTreeSize + (i - 1 - first) < 2 ^ 31 by omega)
      (fun t index hroom => ih hroom (by omega))
    rw [htl, Option.bind_some]
    obtain ⟨hT, hsize, hlink, hframe, hsamel, hspans⟩ := hl
    dsimp only at hT hsize hlink hframe hsamel hspans
    obtain ⟨tr, coder, htr, hr⟩ := divideSide_spec (fun c node => { node with right := c })
      tl index (last = i) last i last (by simp [eq_comm]) Eq.symm hil
      (by rw [hsamel.size, hsame.size]; exact hlast) hint (by omega) (by omega) (by omega)
      (fun t index hroom => ih hroom (by omega))
    obtain ⟨hT', hsize', hlink', hframe', hsamer, hspans'⟩ := hr
    have hi1 : i - 1 + 1 = i := by omega
    rw [hi1] at hsamel hspans
    refine ⟨tr, htr, by omega, hsize'.trans hsize, fun k hk hkT => ?_,
      (hsame.trans (hsamel.mono le_rfl (by omega))).trans (hsamer.mono hfi.le le_rfl), ?_⟩
    · rw [hframe' k hk (by omega), hframe k hk (by omega), Function.update_of_ne hk]
    · have hnodes : List.range' (t.iTreeSize + 1) (last - first - 1) =
          List.range' (t.iTreeSize + 1) (i - 1 - first) ++
            List.range' (tl.iTreeSize + 1) (last - i) := by
        rw [show tl.iTreeSize + 1 = t.iTreeSize + 1 + (i - 1 - first) by omega,
          List.range'_append_1]
        congr 1
        omega
      have hids : tr.indices.range first i = tl.indices.range first i :=
        range_congr fun k _ hk => hsamer.outside (Or.inl hk)
      have hcode : (tr.m_pTreeRoots.cell index).left = codel := by
        rw [hlink', hlink]
      have hcode' : (tr.m_pTreeRoots.cell index).right = coder := by
        rw [hlink']
      rw [← range_append hfi.le (by omega), hnodes, hids]
      refine .inner (by omega) (hcode ▸ hspans.congr hsize' fun k hk => ?_) (hcode' ▸ hspans') ?_ ?_
      · have := List.mem_range'_1.mp hk
        exact hframe' k (by omega) (by omega)
      · exact List.ne_nil_of_length_pos (by rw [length_range]; omega)
      · exact List.ne_nil_of_length_pos (by rw [length_range]; omega)

structure Slice (t : Build R) (n : Nat) : Prop where
  samples : n ≤ t.indices.size
  nodes : t.iTreeSize + n ≤ t.m_pTreeRoots.size
  nodes_le : t.iTreeSize + n ≤ 2 ^ 31

def Partitions (t : Build R) (n : Nat) : Prop :=
  ∀ depth, n ≤ depth + 1 → ∃ t' ids nodes,
    divideTree value choose depth t 0 (n - 1) t.iTreeSize = some t' ∧
      Spans t'.m_pTreeRoots t.iTreeSize ids nodes ∧
      ids.Perm (t.indices.range 0 n) ∧ nodes.length = n - 1 ∧ nodes.Nodup ∧
      (∀ k ∈ nodes, t.iTreeSize ≤ k ∧ k < t.iTreeSize + n) ∧
      t'.m_pTreeRoots.size = t.m_pTreeRoots.size ∧
      ∀ k, k < t.iTreeSize ∨ t.iTreeSize + n ≤ k →
        t'.m_pTreeRoots.cell k = t.m_pTreeRoots.cell k

theorem partitions_of_le {t : Build R} {n : Nat} (hn : 2 ≤ n) (hle : n ≤ 2 ^ 30) (h : Slice t n) :
    Partitions value choose t n := by
  intro depth hdepth
  obtain ⟨hsamples, hnodes, hnodes_le⟩ := h
  have hroom : Room t 0 (n - 1) t.iTreeSize :=
    ⟨by omega, by omega, by omega, le_rfl, by omega, by omega⟩
  obtain ⟨t', ht', hT, hsize, hframe, hsame, hspans⟩ :=
    divideTree_spec value choose depth hroom (by omega)
  have hlast : n - 1 + 1 = n := by omega
  have hcount : n - 1 - 0 - 1 = n - 2 := by omega
  rw [hlast] at hsame hspans
  rw [hcount, ← List.range'_succ] at hspans
  refine ⟨t', _, _, ht', hspans, hsame.perm, ?_, List.nodup_range', fun k hk => ?_, hsize,
    fun k hk => hframe k (by omega) (by omega)⟩
  · rw [List.length_range']
    omega
  · have := List.mem_range'_1.mp hk
    omega

variable {value choose}

theorem subdivide_equal {x : R} (hvalue : ∀ id dim, value id dim = x) {node : KDTNode R}
    {indices indices' : Slots Nat} {first last : Nat} {i : Int} (hle : first ≤ last + 1)
    (h : subdivide value node indices first last = some (indices', i)) :
    i = (toInt (first + last + 1 : Nat)).tdiv 2 := by
  obtain ⟨⟨s', m⟩, hs', hi⟩ := Option.bind_eq_some_iff.mp h
  have hm := Slots.subdivide_const _ _ (b := decide (x < node.split_value))
    (fun _ ind => by rw [hvalue]) hle hs'
  obtain ⟨-, heq⟩ := Prod.mk.inj (Option.some.inj hi)
  rw [← heq]
  apply if_pos
  rw [hm]
  split
  · exact .inr rfl
  · exact .inl rfl

theorem divideTree_equal {x : R} (hvalue : ∀ id dim, value id dim = x) {n : Nat}
    (hn : 2 ^ 30 < n) (hint : n < 2 ^ 31) (gap : Nat) (hgap : 2 ≤ gap) {first : Nat}
    (hfirst : first + gap = n) (depth : Nat) (t : Build R) (index : Nat) :
    divideTree value choose depth t first (n - 1) index = none := by
  induction gap using Nat.strong_induction_on generalizing first depth t index with
  | _ gap ih =>
    cases depth with
    | zero => rfl
    | succ depth =>
      rw [Option.eq_none_iff_forall_ne_some]
      intro t' h
      unfold divideTree at h
      simp only [Option.bind_eq_bind, Option.bind_eq_some_iff] at h
      obtain ⟨t₁, -, node, -, ⟨indices', i⟩, hsub, place, hplace, t₂, -, hright⟩ := h
      have hi := subdivide_equal hvalue (by omega) hsub
      have hsum : first + (n - 1) + 1 = first + n := by omega
      rw [hsum] at hi
      by_cases hover : first + n < 2 ^ 31
      · rw [toInt_of_lt hover, show (↑(first + n) : Int).tdiv 2 =
          ((first + n) / 2 : Nat) from rfl] at hi
        have hmid : place = (first + n) / 2 := by
          rw [hi, placeOf, if_neg (by omega)] at hplace
          have heq := Option.some.inj hplace
          omega
        -- the right half has at least two samples
        have hmore : decide (n - 1 = place) = false := decide_eq_false (by omega)
        rw [divideSide, hmore, if_neg Bool.false_ne_true] at hright
        simp only [Option.bind_eq_bind, Option.bind_eq_some_iff] at hright
        obtain ⟨_, -, t₃, -, hright⟩ := hright
        rw [ih (n - place) (by omega) (by omega) (by omega)] at hright
        cases hright
      · obtain ⟨k, hk, hneg⟩ : ∃ k : Nat, 2 ≤ k ∧ toInt (first + n : Nat) = -k := by
          refine ⟨2 ^ 32 - (first + n), by omega, ?_⟩
          rw [toInt, Int.bmod]
          omega
        have hnegative : i < 0 := by
          rw [hi, hneg, Int.neg_tdiv, show (k : Int).tdiv 2 = (k / 2 : Nat) from rfl]
          omega
        rw [placeOf, if_pos hnegative] at hplace
        cases hplace

/-- Every set of `n` samples is divided as it should be exactly when `n` is at most `2 ^ 30`. -/
theorem divideTree_partitions_iff [Inhabited R] {n : Nat} (hn : 2 ≤ n) (hint : n < 2 ^ 31) :
    (∀ (value : Nat → Nat → R) (choose : Nat → Slots Nat → Nat → Nat → Nat × R) (t : Build R),
      Slice t n → Partitions value choose t n) ↔ n ≤ 2 ^ 30 := by
  constructor
  · intro hall
    by_contra hmany
    have hslice : Slice (R := R) ⟨⟨n, fun _ => ⟨0, 0, 0, default⟩⟩, ⟨n, fun i => i⟩, 0⟩ n :=
      ⟨le_rfl, (Nat.zero_add n).le, by dsimp only; omega⟩
    obtain ⟨t', -, -, ht', -⟩ := hall (fun _ _ => default) (fun _ _ _ _ => (0, default)) _ hslice n
      (Nat.le_succ n)
    rw [divideTree_equal (fun _ _ => rfl) (not_le.mp hmany) hint n hn (Nat.zero_add n)] at ht'
    cases ht'
  · exact fun hle value choose t h => partitions_of_le value choose hn hle h

def three : Build Nat := ⟨⟨3, fun _ => ⟨0, 0, 0, 0⟩⟩, ⟨3, fun i => 2 - i⟩, 0⟩

theorem divideTree_partitions_three : Partitions (fun id _ => id) (fun _ _ _ _ => (0, 2)) three 3 :=
  (divideTree_partitions_iff (by decide) (by decide)).mpr (by decide) _ _ three
    ⟨by decide, by decide, by decide⟩

def equal (n : Nat) : Build Nat := ⟨⟨n, fun _ => ⟨0, 0, 0, 0⟩⟩, ⟨n, fun i => i⟩, 0⟩

theorem equal_not_divided : Slice (equal (2 ^ 30 + 1)) (2 ^ 30 + 1) ∧
    ∀ depth, divideTree (fun _ _ => 0) (fun _ _ _ _ => (0, 0)) depth (equal (2 ^ 30 + 1))
      0 (2 ^ 30) 0 =
      none := by
  refine ⟨⟨by decide, by decide, by decide⟩, fun depth => ?_⟩
  exact divideTree_equal (R := Nat) (x := 0) (fun _ _ => rfl) (n := 2 ^ 30 + 1) (by decide)
    (by decide) (2 ^ 30 + 1)
    (by decide) (Nat.zero_add _) depth _ 0

variable (value choose)

theorem buildTreesCore_spans (choose : Nat → Nat → Slots Nat → Nat → Nat → Nat × R)
    {shuffle : Nat → Slots Nat} {localindices : Slots Nat}
    (hshuffle : ∀ i, Shuffled 0 localindices.size localindices (shuffle i))
    (hn : 2 ≤ localindices.size) (hle : localindices.size ≤ 2 ^ 30) (trees : Nat)
    {roots : Slots (KDTNode R)} (hroots : trees * localindices.size ≤ roots.size)
    (hnodes : trees * localindices.size ≤ 2 ^ 31) :
    ∃ roots', buildTreesCore value choose shuffle trees roots = some roots' ∧
      roots'.size = roots.size ∧ ∀ i < trees, ∃ ids nodes,
        Spans roots' (i * localindices.size : Nat) ids nodes ∧
        ids.Perm (localindices.range 0 localindices.size) ∧
        ∀ k ∈ nodes, i * localindices.size ≤ k ∧ k < (i + 1) * localindices.size := by
  induction trees with
  | zero => exact ⟨roots, rfl, rfl, fun i hi => absurd hi (Nat.not_lt_zero i)⟩
  | succ trees ih =>
    have hsucc := Nat.add_one_mul trees localindices.size
    obtain ⟨roots', hrun, hsize, hall⟩ := ih (by omega) (by omega)
    have hs := (hshuffle trees).size
    have hroom : Room ⟨roots', shuffle trees, trees * localindices.size⟩ 0 (localindices.size - 1)
        (trees * localindices.size) :=
      ⟨by omega, by dsimp only; omega, by omega, le_rfl, by dsimp only; omega, by dsimp only; omega⟩
    obtain ⟨t', ht', -, hsize', hframe, hsame, hspans⟩ :=
      divideTree_spec value (choose trees) localindices.size hroom (by omega)
    dsimp only at hsize' hframe hsame hspans
    rw [Nat.sub_add_cancel (by omega)] at hsame hspans
    refine ⟨t'.m_pTreeRoots, ?_, hsize'.trans hsize, fun i hi => ?_⟩
    · unfold buildTreesCore at hrun ⊢
      rw [List.range_succ, List.foldlM_append, hrun]
      have hstart := toIndex_of_lt (show trees * localindices.size < 2 ^ 31 by omega)
      simp only [List.foldlM_cons, List.foldlM_nil, hs, hstart, ht', Option.bind_eq_bind,
        Option.bind_some]
      rfl
    · rcases (Nat.le_of_lt_succ hi).eq_or_lt with rfl | hlt
      · refine ⟨_, _, hspans, hsame.perm.trans (hshuffle i).perm, fun k hk => ?_⟩
        rw [← List.range'_succ] at hk
        have := List.mem_range'_1.mp hk
        omega
      · obtain ⟨ids', nodes', hspans', hids', hnodes'⟩ := hall i hlt
        have hle := Nat.mul_le_mul_right localindices.size (Nat.succ_le_of_lt hlt)
        refine ⟨ids', nodes', hspans'.congr hsize' fun k hk => ?_, hids', hnodes'⟩
        have hk' := (hnodes' k hk).2.trans_le hle
        exact hframe k hk'.ne (Or.inl hk'.le)

end Sptag.COMMON.KDTree
