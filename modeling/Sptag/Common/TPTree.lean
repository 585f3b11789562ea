import Sptag.Common.TPTree.Hyperplane
import Sptag.Lib.Subdivide

/-! `inc/Core/Common/NeighborhoodGraph.h`: the recursion of `PartitionByTptreeCore`, and when a
node parts its ids by their projections. -/

namespace Sptag.COMMON.NeighborhoodGraph

open Lib Slots

structure Quantizer (S K : Type) where
  ReconstructDim : Nat
  ReconstructVector : S → Nat → K

structure VectorIndex (S K : Type) where
  samples : Slots S
  GetFeatureDim : Nat
  /-- The sample itself, read as a vector. -/
  vector : S → Nat → K
  m_pQuantizer : Option (Quantizer S K)

structure Options where
  m_iTPTLeafSize : Nat
  m_iSamples : Nat
  m_numTopDimensionTPTSplit : Nat

section Source

variable {S K : Type}

def VectorIndex.cols (index : VectorIndex S K) : Nat :=
  match index.m_pQuantizer with
  | none => index.GetFeatureDim
  | some q => q.ReconstructDim

def VectorIndex.row (index : VectorIndex S K) (sample : S) : Slots K :=
  match index.m_pQuantizer with
  | none => ⟨index.GetFeatureDim, index.vector sample⟩
  | some q => ⟨q.ReconstructDim, q.ReconstructVector sample⟩

def VectorIndex.getVector (index : VectorIndex S K) (ind : Nat) : Option (Slots K) := do
  let sample ← index.samples.get ind
  return index.row sample

variable [Field K] [LinearOrder K] (o : Options) (index : VectorIndex S K) (sqrt : K → K)
  (rand : Nat → Nat → Nat → Nat → Nat)

/-- The sampled vectors, which are the `indices_vectors` where there is a quantizer, and the
direction chosen for them. No two nodes have the same range, so `rand` is free at each. -/
def hyperplane (indices : Slots Nat) (first last : Nat) :
    Option (List (Slots K) × List Nat × Best K) := do
  let count := min (first + o.m_iSamples) last - first + 1
  let vs ← (List.range' first count).mapM fun j => do
    let ind ← indices.get j
    index.getVector ind
  let (indexs, best) ← chooseHyperplane sqrt (rand first last) o.m_numTopDimensionTPTSplit
    index.cols vs
  return (vs, indexs, best)

def test (first : Nat) (vs : List (Slots K)) (indexs : List Nat) (best : Best K) (i ind : Nat) :
    Option Bool := do
  let v ← if index.m_pQuantizer.isSome then vs[i - first]? else index.getVector ind
  let val ← project best.bestweight indexs v
  return decide (val < best.bestmean)

def split (indices : Slots Nat) (first last : Nat) : Option (Slots Nat × Nat) := do
  let (vs, indexs, best) ← hyperplane o index sqrt rand indices first last
  let (indices, i) ← subdivide (test index first vs indexs best) (last + 2 - first) indices first
    (last + 1)
  return (indices, if i = first ∨ i = last + 1 then (first + last + 1) / 2 else i)

def partitionByTptreeCore : Nat → Slots Nat → Nat → Nat → List (Nat × Nat) →
    Option (Slots Nat × List (Nat × Nat))
  | 0, _, _, _, _ => none
  | depth + 1, indices, first, last, leaves =>
    if last - first ≤ o.m_iTPTLeafSize then return (indices, leaves ++ [(first, last)])
    else do
      let (indices, splitidx) ← split o index sqrt rand indices first last
      let (indices, leaves) ← partitionByTptreeCore depth indices first (splitidx - 1) leaves
      partitionByTptreeCore depth indices splitidx last leaves

end Source

structure Call where
  indices : Slots Nat
  first : Nat
  last : Nat

def Tiles : Nat → List (Nat × Nat) → Nat → Prop
  | first, [], stop => first = stop
  | first, leaf :: leaves, stop =>
    leaf.1 = first ∧ leaf.1 ≤ leaf.2 ∧ Tiles (leaf.2 + 1) leaves stop

theorem Tiles.append {first mid stop : Nat} {leaves leaves' : List (Nat × Nat)}
    (h : Tiles first leaves mid) (h' : Tiles mid leaves' stop) :
    Tiles first (leaves ++ leaves') stop := by
  induction leaves generalizing first with
  | nil =>
    obtain rfl : first = mid := h
    exact h'
  | cons leaf leaves ih => exact ⟨h.1, h.2.1, ih h.2.2⟩

/-- `P` holds to the left of `i` and nowhere else, or on one side only and `i` halves the range. -/
def Parted (P : Nat → Prop) (indices indices' : Slots Nat) (first last i : Nat) : Prop :=
  (∀ k, first ≤ k → k ≤ last → (P (indices'.cell k) ↔ k < i)) ∨
    i = (first + last + 1) / 2 ∧ ((∀ k, first ≤ k → k ≤ last → P (indices.cell k)) ∨
      ∀ k, first ≤ k → k ≤ last → ¬ P (indices.cell k))

/-- What satisfies `P` stands first, or only the first is before it and it fills half the range. -/
def InPlace (P : Nat → Prop) (indices : Slots Nat) (first last : Nat) : Prop :=
  (∀ j k, first ≤ j → j ≤ k → k ≤ last → P (indices.cell k) → P (indices.cell j)) ∨
    ¬ P (indices.cell first) ∧
      ∀ k, first < k → k ≤ last → (P (indices.cell k) ↔ k ≤ (first + last + 1) / 2)

section Ranges

variable {P : Nat → Prop} {indices indices' : Slots Nat} {first last : Nat}

theorem parted_of_sides {m : Nat} (hsame : Shuffled first (last + 1) indices indices')
    (hleft : ∀ k, first ≤ k → k < m → P (indices'.cell k))
    (hright : ∀ k, m ≤ k → k < last + 1 → ¬ P (indices'.cell k)) :
    Parted P indices indices' first last
      (if m = first ∨ m = last + 1 then (first + last + 1) / 2 else m) := by
  by_cases hend : m = first ∨ m = last + 1
  · rw [if_pos hend]
    refine Or.inr ⟨rfl, hend.symm.imp (fun h k hk hkl => ?_) fun h k hk hkl => ?_⟩
    · exact (hsame.forall_iff (P := P)).mp (h ▸ hleft) k hk (Nat.lt_succ_of_le hkl)
    · exact (hsame.forall_iff (P := fun x => ¬ P x)).mp (h ▸ hright) k hk (Nat.lt_succ_of_le hkl)
  · rw [if_neg hend]
    refine Or.inl fun k hk hkl => ⟨fun h => ?_, hleft k hk⟩
    by_contra hmk
    exact hright k (not_lt.mp hmk) (Nat.lt_succ_of_le hkl) h

theorem parted_iff_inPlace {p : Nat} (hlt : first < last) (hfirst : first ≤ p) (hlast : p ≤ last)
    (hpass : ∀ k, first ≤ k → k < p → P (indices.cell k)) (hfail : ¬ P (indices.cell p))
    (hsame : Shuffled p (last + 1) indices indices')
    (hend : indices'.cell last = indices.cell p)
    (hup : ∀ k, p ≤ k → k < last → indices'.cell k = indices.cell (k + 1)) :
    Parted P indices indices' first last
      (if p = first ∨ p = last + 1 then (first + last + 1) / 2 else p) ↔
    InPlace P indices first last := by
  unfold Parted InPlace
  rcases hfirst.eq_or_lt with rfl | hpos
  · -- nothing stays on the left: the range moves up by one and is halved
    rw [if_pos (Or.inl rfl)]
    constructor
    · rintro (hsides | ⟨-, hall | hnone⟩)
      · refine Or.inr ⟨hfail, fun k hk hkl => ?_⟩
        obtain ⟨k, rfl⟩ := Nat.exists_eq_add_one_of_ne_zero (Nat.ne_zero_of_lt hk)
        rw [← hup k (by omega) (by omega), hsides k (by omega) (by omega), Nat.lt_iff_add_one_le]
      · exact absurd (hall first le_rfl hlast) hfail
      · exact Or.inl fun j k hj hjk hkl h => absurd h (hnone k (hj.trans hjk) hkl)
    · rintro (horder | ⟨-, hhalf⟩)
      · exact Or.inr ⟨rfl, Or.inr fun k hk hkl h => hfail (horder first k le_rfl hk hkl h)⟩
      · refine Or.inl fun k hk hkl => ?_
        rcases hkl.eq_or_lt with rfl | hkl
        · rw [hend]
          exact iff_of_false hfail (by omega)
        · rw [hup k hk hkl, hhalf (k + 1) (by omega) hkl, Nat.lt_iff_add_one_le]
  · have hne : ¬ (p = first ∨ p = last + 1) := by omega
    rw [if_neg hne]
    have hbefore : P (indices.cell first) := hpass first le_rfl hpos
    have hmoved := hsame.forall_iff (P := fun x => ¬ P x)
    constructor
    · rintro (hsides | ⟨-, hall | hnone⟩)
      · have hafter := hmoved.mp fun k hk hkl h =>
          absurd ((hsides k (by omega) (by omega)).mp h) (by omega)
        refine Or.inl fun j k hj hjk hkl h => hpass j hj ?_
        by_contra hpj
        exact hafter k (by omega) (by omega) h
      · exact absurd (hall p hpos.le hlast) hfail
      · exact absurd hbefore (hnone first le_rfl hlt.le)
    · rintro (horder | ⟨hnot, -⟩)
      · have hafter := hmoved.mpr fun k hk hkl h =>
          hfail (horder p k hpos.le hk (Nat.le_of_lt_succ hkl) h)
        refine Or.inl fun k hk hkl => ⟨fun h => ?_, fun hkp => ?_⟩
        · by_contra hpk
          exact hafter k (not_lt.mp hpk) (Nat.lt_succ_of_le hkl) h
        · rw [hsame.outside (Or.inl hkp)]
          exact hpass k hk hkp
      · exact absurd hbefore hnot

end Ranges

section Samples

variable {S K : Type} {index : VectorIndex S K} {o : Options} {a : Call}

structure Valid (index : VectorIndex S K) (a : Call) : Prop where
  le : a.first ≤ a.last
  lt : a.last < a.indices.size
  sample : ∀ k, a.first ≤ k → k < a.last + 1 → a.indices.cell k < index.samples.size

@[simp] theorem VectorIndex.row_size (index : VectorIndex S K) (sample : S) :
    (index.row sample).size = index.cols := by
  unfold VectorIndex.row VectorIndex.cols
  cases index.m_pQuantizer with
  | none => rfl
  | some q => rfl

theorem VectorIndex.getVector_of_lt {ind : Nat} (h : ind < index.samples.size) :
    index.getVector ind = some (index.row (index.samples.cell ind)) := by
  unfold VectorIndex.getVector
  rw [get_of_lt h]
  rfl

def sampled (o : Options) (index : VectorIndex S K) (a : Call) : List (Slots K) :=
  (List.range' a.first (min (a.first + o.m_iSamples) a.last - a.first + 1)).map fun j =>
    index.row (index.samples.cell (a.indices.cell j))

theorem sampled_get {j : Nat}
    (hj : j < min (a.first + o.m_iSamples) a.last - a.first + 1) : (sampled o index a)[j]? =
      some (index.row (index.samples.cell (a.indices.cell (a.first + j)))) := by
  unfold sampled
  rw [List.getElem?_map, List.getElem?_range' hj, Nat.one_mul]
  rfl

theorem sampled_mapM (ha : Valid index a) :
    (List.range' a.first (min (a.first + o.m_iSamples) a.last - a.first + 1)).mapM (fun j => do
      let ind ← a.indices.get j
      index.getVector ind) = some (sampled o index a) := by
  refine mapM_eq_some fun j hj => ?_
  have hle := ha.le
  have hlt := ha.lt
  have hj' := List.mem_range'_1.mp hj
  rw [get_of_lt (show j < a.indices.size by omega), Option.bind_eq_bind, Option.bind_some]
  exact index.getVector_of_lt (ha.sample j hj'.1 (by omega))

theorem size_of_mem_sampled (o : Options) (index : VectorIndex S K) (a : Call) :
    ∀ v ∈ sampled o index a, v.size = index.cols := by
  intro v hv
  obtain ⟨j, -, rfl⟩ := List.mem_map.mp hv
  exact index.row_size _

theorem Valid.left {indices : Slots Nat} {i : Nat} (ha : Valid index a) (hi : a.first < i)
    (hil : i ≤ a.last) (hsame : Shuffled a.first (a.last + 1) a.indices indices) :
    Valid index ⟨indices, a.first, i - 1⟩ where
  le := Nat.le_sub_one_of_lt hi
  lt := by
    have hlt := ha.lt
    rw [hsame.size]
    dsimp only
    omega
  sample k hk hkl := (hsame.forall_iff (P := (· < index.samples.size))).mpr ha.sample k hk (by
    dsimp only at hkl
    omega)

theorem Valid.right {indices : Slots Nat} {i : Nat} (ha : Valid index a) (hi : a.first < i)
    (hil : i ≤ a.last) (hsame : Shuffled a.first (a.last + 1) a.indices indices) :
    Valid index ⟨indices, i, a.last⟩ where
  le := hil
  lt := by
    rw [hsame.size]
    exact ha.lt
  sample k hk hkl := (hsame.forall_iff (P := (· < index.samples.size))).mpr ha.sample k
    (hi.le.trans hk) hkl

end Samples

section Statements

variable {S K : Type} [Field K] [LinearOrder K] (o : Options) (index : VectorIndex S K)
  (sqrt : K → K) (rand : Nat → Nat → Nat → Nat → Nat)

inductive Visits : Call → Call → Prop
  | here {a : Call} (inner : o.m_iTPTLeafSize < a.last - a.first) : Visits a a
  | left {a b : Call} {indices : Slots Nat} {i : Nat}
      (inner : o.m_iTPTLeafSize < a.last - a.first)
      (parted : split o index sqrt rand a.indices a.first a.last = some (indices, i))
      (rest : Visits ⟨indices, a.first, i - 1⟩ b) : Visits a b
  | right {a b : Call} {indices indices' : Slots Nat} {i : Nat} {leaves : List (Nat × Nat)}
      (inner : o.m_iTPTLeafSize < a.last - a.first)
      (parted : split o index sqrt rand a.indices a.first a.last = some (indices, i))
      (left : partitionByTptreeCore o index sqrt rand (i - a.first) indices a.first (i - 1) [] =
        some (indices', leaves))
      (rest : Visits ⟨indices', i, a.last⟩ b) : Visits a b

def Below (indexs : List Nat) (best : Best K) (ind : Nat) : Prop :=
  ∃ v val, index.getVector ind = some v ∧ project best.bestweight indexs v = some val ∧
    val < best.bestmean

def Divides (a : Call) : Prop :=
  ∃ vs indexs best indices i,
    hyperplane o index sqrt rand a.indices a.first a.last = some (vs, indexs, best) ∧
    split o index sqrt rand a.indices a.first a.last = some (indices, i) ∧
    a.first < i ∧ i ≤ a.last ∧ Parted (Below index indexs best) a.indices indices a.first a.last i

def Ready (a : Call) : Prop :=
  (1 ≤ o.m_numTopDimensionTPTSplit ∧ o.m_numTopDimensionTPTSplit ≤ index.cols) ∧
    (index.m_pQuantizer.isSome → ∀ vs indexs best,
      hyperplane o index sqrt rand a.indices a.first a.last = some (vs, indexs, best) →
      InPlace (Below index indexs best) a.indices a.first a.last)

variable {o index} {a : Call}

def projection (index : VectorIndex S K) (indexs : List Nat) (best : Best K) (ind : Nat) : K :=
  dot best.bestweight indexs (index.row (index.samples.cell ind))

theorem below_iff {indexs : List Nat} {best : Best K} {ind : Nat} (h : ind < index.samples.size)
    (hindexs : ∀ k ∈ indexs, k < index.cols) :
    Below index indexs best ind ↔ projection index indexs best ind < best.bestmean := by
  have hv := index.getVector_of_lt h
  have hval := project_eq best.bestweight (v := index.row (index.samples.cell ind))
    fun k hk => (index.row_size _).symm ▸ hindexs k hk
  constructor
  · rintro ⟨v, val, hv', hval', hlt⟩
    obtain rfl := Option.some.inj (hv.symm.trans hv')
    obtain rfl := Option.some.inj (hval.symm.trans hval')
    exact hlt
  · exact fun hlt => ⟨_, _, hv, hval, hlt⟩

theorem hyperplane_spec (ha : Valid index a)
    (htop : 1 ≤ o.m_numTopDimensionTPTSplit) (hcols : o.m_numTopDimensionTPTSplit ≤ index.cols) :
    ∃ indexs best, hyperplane o index sqrt rand a.indices a.first a.last =
        some (sampled o index a, indexs, best) ∧
      (∀ k ∈ indexs, k < index.cols) ∧ best.IsMean indexs (sampled o index a) := by
  obtain ⟨indexs, best, hchoose, hindexs, hmean⟩ := chooseHyperplane_spec sqrt
    (rand a.first a.last) (size_of_mem_sampled o index a) htop hcols
  refine ⟨indexs, best, ?_, hindexs, hmean⟩
  unfold hyperplane
  dsimp only
  rw [sampled_mapM ha]
  simp only [Option.bind_eq_bind, Option.bind_some, hchoose]
  rfl

theorem split_none (ha : Valid index a)
    (h : ¬ (1 ≤ o.m_numTopDimensionTPTSplit ∧ o.m_numTopDimensionTPTSplit ≤ index.cols)) :
    split o index sqrt rand a.indices a.first a.last = none := by
  have htop : o.m_numTopDimensionTPTSplit = 0 ∨ index.cols < o.m_numTopDimensionTPTSplit := by omega
  have hchoose := chooseHyperplane_none sqrt (rand a.first a.last) (size_of_mem_sampled o index a)
    htop
  unfold split hyperplane
  dsimp only
  rw [sampled_mapM ha]
  simp only [Option.bind_eq_bind, Option.bind_some, hchoose, Option.bind_none]

theorem test_of_plain (hq : index.m_pQuantizer.isSome = false) {indexs : List Nat} {best : Best K}
    (hindexs : ∀ k ∈ indexs, k < index.cols) {ind : Nat} (h : ind < index.samples.size)
    (first : Nat) (vs : List (Slots K)) (i : Nat) : test index first vs indexs best i ind =
      some (decide (projection index indexs best ind < best.bestmean)) := by
  unfold test
  rw [hq, if_neg Bool.false_ne_true, index.getVector_of_lt h]
  simp only [Option.bind_eq_bind, Option.bind_some]
  rw [project_eq _ fun k hk => (index.row_size _).symm ▸ hindexs k hk]
  rfl

theorem test_of_quantizer (hq : index.m_pQuantizer.isSome = true) {indexs : List Nat}
    {best : Best K} (hindexs : ∀ k ∈ indexs, k < index.cols) {j : Nat}
    (hj : j < min (a.first + o.m_iSamples) a.last - a.first + 1) (ind : Nat) :
    test index a.first (sampled o index a) indexs best (a.first + j) ind =
      some (decide (projection index indexs best (a.indices.cell (a.first + j)) <
        best.bestmean)) := by
  unfold test
  rw [hq, if_pos rfl, Nat.add_sub_cancel_left, sampled_get hj]
  simp only [Option.bind_eq_bind, Option.bind_some]
  rw [project_eq _ fun k hk => (index.row_size _).symm ▸ hindexs k hk]
  rfl

theorem exists_place [IsStrictOrderedRing K] {indexs : List Nat} {best : Best K}
    (hmean : best.IsMean indexs (sampled o index a)) :
    ∃ j < min (a.first + o.m_iSamples) a.last - a.first + 1,
      ¬ projection index indexs best (a.indices.cell (a.first + j)) < best.bestmean ∧
      ∀ j' < j, projection index indexs best (a.indices.cell (a.first + j')) < best.bestmean := by
  have hne : sampled o index a ≠ [] := by simp [sampled]
  obtain ⟨v, hv, hle⟩ := hmean.exists_le hne
  obtain ⟨k, hk, rfl⟩ := List.mem_map.mp hv
  have hex : ∃ j, ¬ projection index indexs best (a.indices.cell (a.first + j)) <
    best.bestmean := by
    refine ⟨k - a.first, not_lt.mpr ?_⟩
    rwa [Nat.add_sub_cancel' (List.mem_range'_1.mp hk).1]
  classical
  refine ⟨Nat.find hex, ?_, Nat.find_spec hex, fun j' hj' => not_not.mp (Nat.find_min hex hj')⟩
  have hk' := List.mem_range'_1.mp hk
  refine (Nat.find_min' hex (m := k - a.first) ?_).trans_lt (by omega)
  rw [Nat.add_sub_cancel' hk'.1]
  exact not_lt.mpr hle

theorem loop_spec [IsStrictOrderedRing K] (ha : Valid index a) (hlt : a.first < a.last)
    {indexs : List Nat} {best : Best K} (hindexs : ∀ k ∈ indexs, k < index.cols)
    (hmean : best.IsMean indexs (sampled o index a)) :
    ∃ indices m, subdivide (test index a.first (sampled o index a) indexs best)
        (a.last + 2 - a.first) a.indices a.first (a.last + 1) = some (indices, m) ∧
      a.first ≤ m ∧ m ≤ a.last + 1 ∧ Shuffled a.first (a.last + 1) a.indices indices ∧
      (Parted (Below index indexs best) a.indices indices a.first a.last
          (if m = a.first ∨ m = a.last + 1 then (a.first + a.last + 1) / 2 else m) ↔
        (index.m_pQuantizer.isSome →
          InPlace (Below index indexs best) a.indices a.first a.last)) := by
  have hbelow : ∀ k, a.first ≤ k → k < a.last + 1 → (Below index indexs best (a.indices.cell k) ↔
      projection index indexs best (a.indices.cell k) < best.bestmean) := fun k hk hkl =>
    below_iff (ha.sample k hk hkl) hindexs
  cases hq : index.m_pQuantizer.isSome with
  | false =>
    obtain ⟨indices, m, hrun, hm, hme, hsame, hleft, hright⟩ := subdivide_spec
      (test index a.first (sampled o index a) indexs best) (a.last + 2 - a.first)
      (P := fun ind => projection index indexs best ind < best.bestmean) (s := a.indices)
      (i := a.first) (e := a.last + 1)
      (fun k hk hkl j _ _ => test_of_plain hq hindexs (ha.sample k hk hkl) a.first
        (sampled o index a) j) (by omega) ha.lt (by omega)
    have hsample := (hsame.forall_iff (P := (· < index.samples.size))).mpr ha.sample
    have hparted := parted_of_sides (P := Below index indexs best) hsame
      (fun k hk hkm => (below_iff (hsample k hk (by omega)) hindexs).mpr (hleft k hk hkm))
      (fun k hk hkl => mt (below_iff (hsample k (by omega) hkl) hindexs).mp (hright k hk hkl))
    exact ⟨indices, m, hrun, hm, hme, hsame, iff_of_true hparted fun h =>
      absurd h Bool.false_ne_true⟩
  | true =>
    obtain ⟨j, hj, hfail, hpass⟩ := exists_place hmean
    have hjl : a.first + j ≤ a.last := by omega
    obtain ⟨indices, hrun, hsame, hend, hup⟩ := subdivide_place
      (test index a.first (sampled o index a) indexs best) (a.last + 2 - a.first) (s := a.indices)
      (i := a.first) (p := a.first + j) (e := a.last + 1)
      (fun k hk hkj ind => by
        obtain ⟨j', rfl⟩ := Nat.exists_eq_add_of_le hk
        rw [test_of_quantizer hq hindexs (by omega), decide_eq_true (hpass j' (by omega))])
      (fun _ ind => by rw [test_of_quantizer hq hindexs hj, decide_eq_false hfail])
      (by omega) (by omega) ha.lt (by omega)
    refine ⟨indices, _, hrun, by omega, by omega, hsame.mono (by omega) le_rfl, ?_⟩
    rw [parted_iff_inPlace (P := Below index indexs best) hlt (by omega) hjl
      (fun k hk hkj => ?_) (mt (hbelow _ (by omega) (by omega)).mp hfail) hsame
      (hend (by omega)) fun k hk hkl => hup k hk (by omega)]
    · exact ⟨fun h _ => h, fun h => h rfl⟩
    · obtain ⟨j', rfl⟩ := Nat.exists_eq_add_of_le hk
      exact (hbelow _ hk (by omega)).mpr (hpass j' (by omega))

theorem split_spec [IsStrictOrderedRing K] (ha : Valid index a) (hlt : a.first < a.last)
    (htop : 1 ≤ o.m_numTopDimensionTPTSplit) (hcols : o.m_numTopDimensionTPTSplit ≤ index.cols) :
    ∃ indices i, split o index sqrt rand a.indices a.first a.last = some (indices, i) ∧
      a.first < i ∧ i ≤ a.last ∧ Shuffled a.first (a.last + 1) a.indices indices ∧
      (Divides o index sqrt rand a ↔ Ready o index sqrt rand a) := by
  obtain ⟨indexs, best, hplane, hindexs, hmean⟩ :=
    hyperplane_spec sqrt rand ha htop hcols
  obtain ⟨indices, m, hloop, hm, hme, hsame, hiff⟩ := loop_spec ha hlt hindexs hmean
  have hsplit : split o index sqrt rand a.indices a.first a.last =
      some (indices, if m = a.first ∨ m = a.last + 1 then (a.first + a.last + 1) / 2 else m) := by
    unfold split
    rw [hplane]
    simp only [Option.bind_eq_bind, Option.bind_some, hloop]
    rfl
  have hi : a.first < (if m = a.first ∨ m = a.last + 1 then (a.first + a.last + 1) / 2 else m) := by
    split <;> omega
  have hi' : (if m = a.first ∨ m = a.last + 1 then (a.first + a.last + 1) / 2 else m) ≤ a.last := by
    split <;> omega
  refine ⟨indices, _, hsplit, hi, hi', hsame, ?_, ?_⟩
  · rintro ⟨vs, indexs', best', indices', i, hplane', hsplit', -, -, hparted⟩
    obtain ⟨-, rfl, rfl⟩ : _ ∧ indexs = indexs' ∧ best = best' := by
      simpa only [Option.some.injEq, Prod.mk.injEq] using hplane.symm.trans hplane'
    obtain ⟨rfl, rfl⟩ : indices = indices' ∧ _ = i := by
      simpa only [Option.some.injEq, Prod.mk.injEq] using hsplit.symm.trans hsplit'
    refine ⟨⟨htop, hcols⟩, fun hq vs' indexs' best' hplane' => ?_⟩
    obtain ⟨-, rfl, rfl⟩ : _ ∧ indexs = indexs' ∧ best = best' := by
      simpa only [Option.some.injEq, Prod.mk.injEq] using hplane.symm.trans hplane'
    exact hiff.mp hparted hq
  · rintro ⟨-, hready⟩
    exact ⟨_, indexs, best, indices, _, hplane, hsplit, hi, hi',
      hiff.mpr fun hq => hready hq _ indexs best hplane⟩

theorem partitionByTptreeCore_spec [IsStrictOrderedRing K]
    (htop : 1 ≤ o.m_numTopDimensionTPTSplit) (hcols : o.m_numTopDimensionTPTSplit ≤ index.cols)
    {depth : Nat} (ha : Valid index a) (hdepth : a.last - a.first < depth)
    (leaves : List (Nat × Nat)) :
    ∃ indices new, partitionByTptreeCore o index sqrt rand depth a.indices a.first a.last leaves =
        some (indices, leaves ++ new) ∧ Shuffled a.first (a.last + 1) a.indices indices ∧
      Tiles a.first new (a.last + 1) ∧ ∀ leaf ∈ new, leaf.2 - leaf.1 ≤ o.m_iTPTLeafSize := by
  induction depth generalizing a leaves with
  | zero => exact absurd hdepth (Nat.not_lt_zero _)
  | succ depth ih =>
    unfold partitionByTptreeCore
    by_cases hleaf : a.last - a.first ≤ o.m_iTPTLeafSize
    · rw [if_pos hleaf]
      exact ⟨a.indices, [(a.first, a.last)], rfl, .refl _, ⟨rfl, ha.le, rfl⟩,
        List.forall_mem_singleton.mpr hleaf⟩
    · have hlt : a.first < a.last := by omega
      obtain ⟨indices, i, hsplit, hi, hil, hsame, -⟩ :=
        split_spec sqrt rand ha hlt htop hcols
      obtain ⟨indices', new, hl, hsamel, htiles, hsizes⟩ :=
        ih (ha.left hi hil hsame) (by dsimp only; omega) leaves
      dsimp only at hl hsamel htiles
      rw [Nat.sub_add_cancel (Nat.one_le_of_lt hi)] at hsamel htiles
      have hsame' := hsame.trans (hsamel.mono le_rfl (hil.trans (Nat.le_succ _)))
      obtain ⟨indices'', new', hr, hsamer, htiles', hsizes'⟩ :=
        ih (ha.right hi hil hsame') (by dsimp only; omega) (leaves ++ new)
      rw [if_neg hleaf]
      simp only [hsplit, Option.bind_eq_bind, Option.bind_some, hl, hr]
      refine ⟨indices'', new ++ new', by rw [List.append_assoc],
        hsame'.trans (hsamer.mono hi.le le_rfl), htiles.append htiles', fun leaf hmem => ?_⟩
      exact (List.mem_append.mp hmem).elim (hsizes leaf) (hsizes' leaf)

variable {sqrt rand} in
theorem Visits.valid [IsStrictOrderedRing K] {b : Call} (h : Visits o index sqrt rand a b)
    (ha : Valid index a) : Valid index b ∧ o.m_iTPTLeafSize < b.last - b.first ∧
      b.last ≤ a.last := by
  -- a split that succeeds had columns to take
  have hdim : ∀ {a : Call} {r}, Valid index a →
      split o index sqrt rand a.indices a.first a.last = some r →
      1 ≤ o.m_numTopDimensionTPTSplit ∧ o.m_numTopDimensionTPTSplit ≤ index.cols := by
    intro a r ha hsplit
    by_contra hnot
    cases (split_none sqrt rand ha hnot).symm.trans hsplit
  induction h with
  | here inner => exact ⟨ha, inner, le_rfl⟩
  | @left a b indices i inner parted rest ih =>
    obtain ⟨htop, hcols⟩ := hdim ha parted
    obtain ⟨indices', i', hsplit, hi, hil, hsame, -⟩ :=
      split_spec sqrt rand ha (by omega) htop hcols
    obtain ⟨rfl, rfl⟩ : indices' = indices ∧ i' = i := by
      simpa only [Option.some.injEq, Prod.mk.injEq] using hsplit.symm.trans parted
    obtain ⟨hvalid, hinner, hlast⟩ := ih (ha.left hi hil hsame)
    exact ⟨hvalid, hinner, hlast.trans ((Nat.sub_le _ 1).trans hil)⟩
  | @right a b indices indices' i leaves inner parted left rest ih =>
    obtain ⟨htop, hcols⟩ := hdim ha parted
    obtain ⟨indices₁, i', hsplit, hi, hil, hsame, -⟩ :=
      split_spec sqrt rand ha (by omega) htop hcols
    obtain ⟨rfl, rfl⟩ : indices₁ = indices ∧ i' = i := by
      simpa only [Option.some.injEq, Prod.mk.injEq] using hsplit.symm.trans parted
    obtain ⟨indices₂, new, hl, hsamel, -⟩ :=
      partitionByTptreeCore_spec sqrt rand htop hcols (ha.left hi hil hsame)
      (show i' - 1 - a.first < i' - a.first by omega) []
    obtain ⟨rfl, -⟩ : indices₂ = indices' ∧ [] ++ new = leaves := by
      simpa only [Option.some.injEq, Prod.mk.injEq] using hl.symm.trans left
    dsimp only at hsamel
    rw [Nat.sub_add_cancel (Nat.one_le_of_lt hi)] at hsamel
    exact ih (ha.right hi hil (hsame.trans (hsamel.mono le_rfl (hil.trans (Nat.le_succ _)))))

variable (o index) in
/-- The call ends without an access outside, moves ids within its range only, returns leaves that
tile it, and every call below that divides its range does so by the projections. -/
def Partitions (depth : Nat) (a : Call) (leaves : List (Nat × Nat)) : Prop :=
  ∃ indices new, partitionByTptreeCore o index sqrt rand depth a.indices a.first a.last leaves =
      some (indices, leaves ++ new) ∧ Shuffled a.first (a.last + 1) a.indices indices ∧
    Tiles a.first new (a.last + 1) ∧
    (∀ leaf ∈ new, leaf.2 - leaf.1 + 1 ≤ o.m_iTPTLeafSize + 1) ∧
    ∀ b, Visits o index sqrt rand a b → Divides o index sqrt rand b

variable {sqrt rand} in
theorem partitions_iff [IsStrictOrderedRing K] {depth : Nat} (ha : Valid index a)
    (hdepth : a.last - a.first < depth) (leaves : List (Nat × Nat)) :
    Partitions o index sqrt rand depth a leaves ↔
      ∀ b, Visits o index sqrt rand a b → Ready o index sqrt rand b := by
  constructor
  · rintro ⟨-, -, -, -, -, -, hall⟩ b hb
    obtain ⟨hvalid, hinner, -⟩ := hb.valid ha
    have hdiv := hall b hb
    have hdim : 1 ≤ o.m_numTopDimensionTPTSplit ∧ o.m_numTopDimensionTPTSplit ≤ index.cols := by
      by_contra hnot
      obtain ⟨_, _, _, _, _, -, hsplit, -⟩ := hdiv
      cases (split_none sqrt rand hvalid hnot).symm.trans hsplit
    obtain ⟨_, _, -, -, -, -, hiff⟩ := split_spec sqrt rand hvalid
      (by omega) hdim.1 hdim.2
    exact hiff.mp hdiv
  · intro hall
    by_cases hleaf : a.last - a.first ≤ o.m_iTPTLeafSize
    · obtain ⟨depth, rfl⟩ := Nat.exists_eq_add_one_of_ne_zero (Nat.ne_zero_of_lt hdepth)
      refine ⟨a.indices, [(a.first, a.last)], if_pos hleaf, .refl _, ⟨rfl, ha.le, rfl⟩, ?_,
        fun b hb => ?_⟩
      · exact List.forall_mem_singleton.mpr (Nat.succ_le_succ hleaf)
      · cases hb <;> omega
    · obtain ⟨⟨htop, hcols⟩, -⟩ := hall a (.here (not_le.mp hleaf))
      obtain ⟨indices, new, hrun, hsame, htiles, hsizes⟩ := partitionByTptreeCore_spec
        sqrt rand htop hcols ha hdepth leaves
      refine ⟨indices, new, hrun, hsame, htiles, fun leaf hmem =>
        Nat.succ_le_succ (hsizes leaf hmem),
        fun b hb => ?_⟩
      obtain ⟨hvalid, hinner, -⟩ := hb.valid ha
      obtain ⟨_, _, -, -, -, -, hiff⟩ := split_spec sqrt rand hvalid
        (by omega) htop hcols
      exact hiff.mpr (hall b hb)

end Statements

def outlier (coded : Bool) : VectorIndex ℚ ℚ where
  samples := ⟨3, fun i => if i = 0 then 5 else 0⟩
  GetFeatureDim := 1
  vector sample _ := sample
  m_pQuantizer := if coded then some ⟨1, fun sample _ => sample⟩ else none

theorem partitions_iff_plain : Partitions ⟨1, 1000, 1⟩ (outlier false) id (fun _ _ _ _ => 0) 3
    ⟨⟨3, id⟩, 0, 2⟩ [] := by
  refine (partitions_iff ⟨by decide, by decide, fun k _ hk => hk⟩ (by decide) []).mpr fun b _ => ?_
  exact ⟨by decide, fun hq => absurd hq (by decide)⟩

theorem not_partitions : ¬ Partitions ⟨1, 1000, 1⟩ (outlier true) id (fun _ _ _ _ => 0) 3
    ⟨⟨3, id⟩, 0, 2⟩ [] := by
  rintro ⟨-, -, -, -, -, -, hall⟩
  obtain ⟨vs, indexs, best, indices, i, hplane, hsplit, -, -, hparted⟩ :=
    hall _ (.here (by decide))
  have hchosen : (hyperplane ⟨1, 1000, 1⟩ (outlier true) id (fun _ _ _ _ => 0) ⟨3, id⟩ 0 2).map
      (fun h => (h.2.1, h.2.2.bestmean, h.2.2.bestweight)) = some ([0], 5 / 3, [1]) := by
    decide +kernel
  have hmoved : (split ⟨1, 1000, 1⟩ (outlier true) id (fun _ _ _ _ => 0) ⟨3, id⟩ 0 2).map
      (fun r => (r.1.cell 1, r.2)) = some (2, 1) := by
    decide +kernel
  rw [hplane] at hchosen
  rw [hsplit] at hmoved
  obtain ⟨rfl, hmean, hweight⟩ : indexs = [0] ∧ best.bestmean = 5 / 3 ∧ best.bestweight = [1] := by
    simpa using hchosen
  obtain ⟨hcell, rfl⟩ : indices.cell 1 = 2 ∧ i = 1 := by simpa using hmoved
  have hbelow : ∀ ind < 3, Below (outlier true) [0] best ind ↔ ind ≠ 0 := by
    intro ind hind
    rw [below_iff hind (by decide), projection, hmean, hweight]
    interval_cases ind <;> decide +kernel
  rcases hparted with hsides | ⟨-, hall | hnone⟩
  · have hside := hsides 1 (by decide) (by decide)
    rw [hcell, hbelow 2 (by decide)] at hside
    exact absurd (hside.mp (by decide)) (by decide)
  · exact (hbelow 0 (by decide)).mp (hall 0 (by decide) (by decide)) rfl
  · exact hnone 1 (by decide) (by decide) ((hbelow 1 (by decide)).mpr (by decide))

end Sptag.COMMON.NeighborhoodGraph
