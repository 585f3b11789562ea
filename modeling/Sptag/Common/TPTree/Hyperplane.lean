import Sptag.Common.QueryResultSet
import Sptag.Lib.Buffer
import Sptag.Lib.Slots

/-! `inc/Core/Common/NeighborhoodGraph.h`: the direction along which `PartitionByTptreeCore`
parts a range, and the mean along it, in exact arithmetic. -/

namespace Sptag.COMMON.NeighborhoodGraph

open Lib Slots

structure Best (K : Type) where
  bestvariance : K
  bestmean : K
  bestweight : List K

section Source

variable {K : Type} [Field K] [LinearOrder K]

def accumulate (cols : Nat) (f : Nat → K → K) (acc v : Slots K) : Option (Slots K) :=
  (List.range cols).foldlM (fun acc k => do
    let x ← v.get k
    let sum ← acc.get k
    acc.set k (sum + f k x)) acc

def project (weight : List K) (indexs : List Nat) (v : Slots K) : Option K :=
  (weight.zip indexs).foldlM (fun val p => do
    let x ← v.get p.2
    return val + p.1 * x) 0

def randomWeight (sqrt : K → K) (rand : Nat → Nat) (top : Nat) : List K :=
  let weight := (List.range top).map fun j => ((rand j % 10000 : Nat) : K) / 5000 - 1
  let sumweight := sqrt (weight.map fun w => w * w).sum
  weight.map (· / sumweight)

def tryWeight (indexs : List Nat) (vs : List (Slots K)) (weight : List K) (best : Best K) :
    Option (Best K) := do
  let Val ← vs.mapM (project weight indexs)
  let mean := Val.sum / vs.length
  let var := (Val.map fun val => (val - mean) * (val - mean)).sum
  return if best.bestvariance < var then ⟨var, mean, weight⟩ else best

/-- The columns by their variances, the largest first: the source
sorts them the other way and reads from the end. -/
def ranked (cols : Nat) (variance : Nat → K) : List (BasicResult K) :=
  (((List.range cols).map fun k : Nat => BasicResult.mk k (variance k)).insertionSort
    (· ≤ ·)).reverse

def chooseHyperplane (sqrt : K → K) (rand : Nat → Nat → Nat) (top cols : Nat)
    (vs : List (Slots K)) : Option (List Nat × Best K) := do
  let zero := Slots.mk cols fun _ => (0 : K)
  let Mean ← vs.foldlM (accumulate cols fun _ x => x) zero
  let Mean := { Mean with cell := fun k => Mean.cell k / vs.length }
  let Variance ← vs.foldlM
    (accumulate cols fun k x => (x - Mean.cell k) * (x - Mean.cell k)) zero
  let largest ← (ranked cols Variance.cell)[0]?
  let indexs ← (List.range top).mapM fun i =>
    (ranked cols Variance.cell)[i]?.map fun r => r.vid.toNat
  let best ← indexs[0]?
  let bestmean ← Mean.get best
  let best ← (List.range 100).foldlM (fun best i =>
      tryWeight indexs vs (randomWeight sqrt (rand i) top) best)
    ⟨largest.dist, bestmean, (List.replicate top 0).set 0 1⟩
  return (indexs, best)

end Source

variable {K : Type} [Field K]

theorem foldlM_spec {α σ : Type} {f : σ → α → Option σ} {l : List α} {P : σ → Prop}
    (hstep : ∀ s, P s → ∀ a ∈ l, ∃ s', f s a = some s' ∧ P s') {s : σ} (hs : P s) :
    ∃ s', l.foldlM f s = some s' ∧ P s' := by
  induction l generalizing s with
  | nil => exact ⟨s, rfl, hs⟩
  | cons a l ih =>
    obtain ⟨s', hs', hP⟩ := hstep s hs a List.mem_cons_self
    obtain ⟨s'', hs'', hP'⟩ := ih (fun s hs a ha => hstep s hs a (List.mem_cons_of_mem _ ha)) hP
    refine ⟨s'', ?_, hP'⟩
    rw [List.foldlM_cons, hs']
    exact hs''

theorem accumulate_eq {cols : Nat} (f : Nat → K → K) {acc v : Slots K} (hacc : acc.size = cols)
    (hv : v.size = cols) : ∃ acc', accumulate cols f acc v = some acc' ∧ acc'.size = cols ∧
      ∀ k < cols, acc'.cell k = acc.cell k + f k (v.cell k) := by
  have hpart : ∀ n ≤ cols, ∃ acc', accumulate n f acc v = some acc' ∧ acc'.size = cols ∧
      (∀ k < n, acc'.cell k = acc.cell k + f k (v.cell k)) ∧
      ∀ k, n ≤ k → acc'.cell k = acc.cell k := by
    intro n hn
    induction n with
    | zero => exact ⟨acc, rfl, hacc, fun k hk => absurd hk (Nat.not_lt_zero k), fun _ _ => rfl⟩
    | succ n ih =>
      obtain ⟨acc', hacc', hsize, hdone, hrest⟩ := ih (by omega)
      unfold accumulate at hacc' ⊢
      rw [List.range_succ, List.foldlM_append, hacc']
      simp only [List.foldlM_cons, List.foldlM_nil, Option.bind_eq_bind, Option.bind_some,
        get_of_lt (show n < v.size by omega), get_of_lt (show n < acc'.size by omega),
        set_of_lt (show n < acc'.size by omega)]
      refine ⟨_, rfl, hsize, fun k hk => ?_, fun k hk => ?_⟩ <;> dsimp only
      · by_cases hkn : k = n
        · subst hkn
          rw [Function.update_self, hrest k le_rfl]
        · rw [Function.update_of_ne hkn, hdone k (by omega)]
      · rw [Function.update_of_ne (by omega), hrest k (by omega)]
  obtain ⟨acc', hacc', hsize, hdone, -⟩ := hpart cols le_rfl
  exact ⟨acc', hacc', hsize, hdone⟩

theorem foldlM_accumulate {cols : Nat} (f : Nat → K → K) {vs : List (Slots K)}
    (hvs : ∀ v ∈ vs, v.size = cols) (acc : Slots K) (hacc : acc.size = cols) :
    ∃ acc', vs.foldlM (accumulate cols f) acc = some acc' ∧ acc'.size = cols ∧
      ∀ k < cols, acc'.cell k = acc.cell k + (vs.map fun v => f k (v.cell k)).sum := by
  induction vs generalizing acc with
  | nil => exact ⟨acc, rfl, hacc, fun k _ => (add_zero _).symm⟩
  | cons v vs ih =>
    obtain ⟨acc', hacc', hsize, hcell⟩ := accumulate_eq f hacc (hvs v List.mem_cons_self)
    obtain ⟨acc'', hacc'', hsize', hcell'⟩ :=
      ih (fun v hv => hvs v (List.mem_cons_of_mem _ hv)) acc' hsize
    refine ⟨acc'', ?_, hsize', fun k hk => ?_⟩
    · rw [List.foldlM_cons, hacc']
      exact hacc''
    · rw [hcell' k hk, hcell k hk, List.map_cons, List.sum_cons, add_assoc]

def dot (weight : List K) (indexs : List Nat) (v : Slots K) : K :=
  ((weight.zip indexs).map fun p => p.1 * v.cell p.2).sum

theorem project_eq (weight : List K) {indexs : List Nat} {v : Slots K}
    (hk : ∀ k ∈ indexs, k < v.size) : project weight indexs v = some (dot weight indexs v) := by
  have hall : ∀ (l : List (K × Nat)) (val : K), (∀ p ∈ l, p.2 < v.size) →
      l.foldlM (fun val p => do
        let x ← v.get p.2
        return val + p.1 * x) val = some (val + (l.map fun p => p.1 * v.cell p.2).sum) := by
    intro l
    induction l with
    | nil => exact fun val _ => congrArg some (add_zero val).symm
    | cons p l ih =>
      intro val hl
      rw [List.foldlM_cons, get_of_lt (hl p List.mem_cons_self)]
      simp only [Option.bind_eq_bind, Option.bind_some, Option.pure_def] at ih ⊢
      rw [ih _ fun q hq => hl q (List.mem_cons_of_mem _ hq), List.map_cons,
        List.sum_cons, add_assoc]
  unfold project dot
  rw [hall _ _ fun p hp => hk p.2 (List.of_mem_zip hp).2, zero_add]

theorem dot_first (k : Nat) (ks : List Nat) (v : Slots K) :
    dot ((List.replicate (ks.length + 1) 0).set 0 1) (k :: ks) v = v.cell k := by
  have hzero : ∀ ks : List Nat,
      (((List.replicate ks.length (0 : K)).zip ks).map fun p => p.1 * v.cell p.2).sum = 0 := by
    intro ks
    induction ks with
    | nil => rfl
    | cons k ks ih =>
      rw [List.length_cons, List.replicate_succ, List.zip_cons_cons, List.map_cons, List.sum_cons,
        ih, zero_mul, add_zero]
  unfold dot
  rw [List.replicate_succ, List.set_cons_zero, List.zip_cons_cons, List.map_cons, List.sum_cons,
    hzero, one_mul, add_zero]

section Choice

variable [LinearOrder K] {cols top : Nat} {indexs : List Nat} {vs : List (Slots K)}

def Best.IsMean (best : Best K) (indexs : List Nat) (vs : List (Slots K)) : Prop :=
  best.bestmean = (vs.map (dot best.bestweight indexs)).sum / vs.length

theorem tryWeight_spec (hvs : ∀ v ∈ vs, v.size = cols) (hindexs : ∀ k ∈ indexs, k < cols)
    (weight : List K) {best : Best K} (hbest : best.IsMean indexs vs) :
    ∃ best', tryWeight indexs vs weight best = some best' ∧ best'.IsMean indexs vs := by
  have hVal : vs.mapM (project weight indexs) = some (vs.map (dot weight indexs)) :=
    mapM_eq_some fun v hv => project_eq weight fun k hk => (hvs v hv).symm ▸ hindexs k hk
  unfold tryWeight
  rw [hVal]
  refine ⟨_, rfl, ?_⟩
  split
  · rfl
  · exact hbest

omit [Field K] in
@[simp] theorem length_ranked (cols : Nat) (variance : Nat → K) :
  (ranked cols variance).length = cols := by
  rw [ranked, List.length_reverse, List.length_insertionSort, List.length_map, List.length_range]

omit [Field K] in
theorem mem_ranked {variance : Nat → K} {r : BasicResult K} (hr : r ∈ ranked cols variance) :
    r.vid.toNat < cols := by
  rw [ranked, List.mem_reverse, List.mem_insertionSort] at hr
  obtain ⟨k, hk, rfl⟩ := List.mem_map.mp hr
  exact List.mem_range.mp hk

omit [Field K] in
theorem mapM_ranked (variance : Nat → K) (htop : 1 ≤ top) (hcols : top ≤ cols) :
    ∃ k ks, (List.range top).mapM (fun i => (ranked cols variance)[i]?.map fun r => r.vid.toNat) =
      some (k :: ks) ∧ ks.length + 1 = top ∧ ∀ k' ∈ k :: ks, k' < cols := by
  let column := fun i : Nat => ((ranked cols variance)[i]?.map fun r => r.vid.toNat).getD 0
  have hlen := length_ranked cols variance
  have hcolumn : ∀ i ∈ List.range top, ((ranked cols variance)[i]?.map fun r => r.vid.toNat) =
      some (column i) ∧ column i < cols := by
    intro i hi
    have hlt : i < (ranked cols variance).length :=
      hlen.symm ▸ (List.mem_range.mp hi).trans_le hcols
    have hget := List.getElem?_eq_getElem hlt
    refine ⟨by simp only [column, hget, Option.map_some, Option.getD_some], ?_⟩
    simp only [column, hget, Option.map_some, Option.getD_some]
    exact mem_ranked (List.getElem_mem hlt)
  obtain ⟨t, rfl⟩ := Nat.exists_eq_add_of_le' htop
  refine ⟨column 0, (List.range t).map (column ∘ Nat.succ), ?_, by simp, fun k' hk' => ?_⟩
  · rw [mapM_eq_some fun i hi => (hcolumn i hi).1, List.range_succ_eq_map, List.map_cons,
      List.map_map]
  · rw [← List.map_map, ← List.map_cons, ← List.range_succ_eq_map] at hk'
    obtain ⟨i, hi, rfl⟩ := List.mem_map.mp hk'
    exact (hcolumn i hi).2

theorem chooseHyperplane_spec (sqrt : K → K) (rand : Nat → Nat → Nat)
    (hvs : ∀ v ∈ vs, v.size = cols) (htop : 1 ≤ top) (hcols : top ≤ cols) :
    ∃ indexs best, chooseHyperplane sqrt rand top cols vs = some (indexs, best) ∧
      (∀ k ∈ indexs, k < cols) ∧ best.IsMean indexs vs := by
  obtain ⟨Mean, hMean, hMsize, hMcell⟩ := foldlM_accumulate (fun _ x => x) hvs
    ⟨cols, fun _ => 0⟩ rfl
  obtain ⟨Variance, hVar, -, -⟩ := foldlM_accumulate
    (fun k x => (x - Mean.cell k / vs.length) * (x - Mean.cell k / vs.length)) hvs
    ⟨cols, fun _ => 0⟩ rfl
  obtain ⟨k, ks, hindexs, hlen, hlt⟩ := mapM_ranked Variance.cell htop hcols
  have hk : k < Mean.size := hMsize.symm ▸ hlt k List.mem_cons_self
  obtain ⟨largest, hlargest⟩ : ∃ r, (ranked cols Variance.cell)[0]? = some r :=
    ⟨_, List.getElem?_eq_getElem ((htop.trans hcols).trans_eq (length_ranked ..).symm)⟩
  unfold chooseHyperplane
  simp only [hMean, Option.bind_eq_bind, Option.bind_some, hVar]
  simp only [hlargest, hindexs, Option.bind_some, List.getElem?_cons_zero, Slots.get, hk, if_true]
  obtain ⟨best, hbest, hmean⟩ := foldlM_spec (P := fun best => best.IsMean (k :: ks) vs)
    (f := fun best i => tryWeight (k :: ks) vs (randomWeight sqrt (rand i) top) best)
    (l := List.range 100)
    (s := ⟨largest.dist, Mean.cell k / vs.length, (List.replicate top 0).set 0 1⟩)
    (fun best hbest i _ => tryWeight_spec hvs hlt _ hbest) (by
      unfold Best.IsMean
      rw [hMcell k (hlt k List.mem_cons_self), zero_add, ← hlen]
      exact congrArg (· / _) (congrArg List.sum (List.map_congr_left fun v _ =>
        (dot_first k ks v).symm)))
  exact ⟨k :: ks, best, by rw [hbest]; rfl, hlt, hmean⟩

theorem chooseHyperplane_none (sqrt : K → K) (rand : Nat → Nat → Nat)
    (hvs : ∀ v ∈ vs, v.size = cols) (h : top = 0 ∨ cols < top) :
    chooseHyperplane sqrt rand top cols vs = none := by
  obtain ⟨Mean, hMean, -, -⟩ := foldlM_accumulate (fun _ x => x) hvs
    ⟨cols, fun _ => 0⟩ rfl
  obtain ⟨Variance, hVar, -, -⟩ := foldlM_accumulate
    (fun k x => (x - Mean.cell k / vs.length) * (x - Mean.cell k / vs.length)) hvs
    ⟨cols, fun _ => 0⟩ rfl
  unfold chooseHyperplane
  simp only [hMean, Option.bind_eq_bind, Option.bind_some, hVar]
  rcases Option.eq_none_or_eq_some (ranked cols Variance.cell)[0]? with hnone | ⟨r, hr⟩
  · simp only [hnone, Option.bind_none]
  · rcases h with rfl | hlt
    · simp [hr]
    · have hindexs := mapM_eq_none
        (f := fun i => (ranked cols Variance.cell)[i]?.map fun r => r.vid.toNat)
        (List.mem_range.mpr hlt) (by rw [List.getElem?_eq_none (length_ranked ..).le,
          Option.map_none])
      simp only [hr, hindexs, Option.bind_some, Option.bind_none]

theorem Best.IsMean.exists_le [IsStrictOrderedRing K] {best : Best K} (h : best.IsMean indexs vs)
    (hvs : vs ≠ []) : ∃ v ∈ vs, best.bestmean ≤ dot best.bestweight indexs v := by
  have hpos : (0 : K) < vs.length := Nat.cast_pos.mpr (List.length_pos_iff.mpr hvs)
  refine List.exists_le_of_sum_le hvs (fun _ => best.bestmean) (dot best.bestweight indexs) ?_
  rw [List.map_const', List.sum_replicate, nsmul_eq_mul, h, mul_div_cancel₀ _ hpos.ne']

end Choice

end Sptag.COMMON.NeighborhoodGraph
