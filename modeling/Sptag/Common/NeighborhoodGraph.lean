import Sptag.Common
import Sptag.Common.QueryResultSet
import Sptag.Common.TPTree
import Sptag.Lib.Segments

/-! `BuildInitKNNGraph` of `inc/Core/Common/NeighborhoodGraph.h`: samples that share a leaf of a
TP tree are offered to each other as neighbours. -/

namespace Sptag.COMMON.NeighborhoodGraph

open Lib Slots

variable {D : Type} [LinearOrder D]

abbrev Row (D : Type) := Slots (BasicResult D)

/-- A TP tree: the order of the samples, and its leaves, each from the first place to the last. -/
structure Tptree where
  dataIndices : Slots Nat
  leafNodes : List (Nat × Nat)

section Source

def shift (item : BasicResult D) : Nat → Row D → Option (Row D)
  | 0, row => row.set 0 item
  | nb + 1, row => do
    let above ← row.get nb
    if item.dist < above.dist ∨ item.dist = above.dist ∧ item.vid < above.vid then
      let row ← row.set (nb + 1) above
      shift item nb row
    else row.set (nb + 1) item

def addNeighbor (idx : Int) (dist : D) (row : Row D) : Option (Row D) := do
  let last ← row.get (row.size - 1)
  if dist < last.dist ∨ dist = last.dist ∧ idx < last.vid then
    if ∃ nb < row.size, (row.cell nb).vid = idx then return row
    else shift ⟨idx, dist⟩ (row.size - 1) row
  else return row

variable (dist : Nat → Nat → D) (idmap : Int → Option Int)

/-- A sample of a cluster stands for its centre. -/
def represent (p : Nat) : Int := (idmap p).getD p

def rowAt (graph : Slots (Row D)) (p : Int) : Option (Row D) :=
  if p < 0 then none else graph.get p.toNat

def offer (p idx : Int) (d : D) (graph : Slots (Row D)) : Option (Slots (Row D)) := do
  let row ← rowAt graph p
  let row ← addNeighbor idx d row
  graph.set p.toNat row

def addPair (graph : Slots (Row D)) (p : Nat × Nat) : Option (Slots (Row D)) := do
  let d := dist p.1 p.2
  let p1 := represent idmap p.1
  let p2 := represent idmap p.2
  let graph ← offer p1 p2 d graph
  offer p2 p1 d graph

def leafPairs (indices : Slots Nat) (leaf : Nat × Nat) : List (Nat × Nat) :=
  (List.range' leaf.1 (leaf.2 - leaf.1)).flatMap fun x =>
    (List.range' (x + 1) (leaf.2 - x)).map fun y => (indices.cell x, indices.cell y)

def Tptree.pairs (tree : Tptree) : List (Nat × Nat) :=
  tree.leafNodes.flatMap (leafPairs tree.dataIndices)

def blankGraph (maxDist : D) (m_iGraphSize m_iNeighborhoodSize : Nat) : Slots (Row D) :=
  ⟨m_iGraphSize, fun _ => ⟨m_iNeighborhoodSize, fun _ => ⟨-1, maxDist⟩⟩⟩

def buildInitKNNGraph (maxDist : D) (m_iGraphSize m_iNeighborhoodSize : Nat) (trees : List Tptree) :
    Option (Slots (Row D)) :=
  (trees.flatMap Tptree.pairs).foldlM (addPair dist idmap)
    (blankGraph maxDist m_iGraphSize m_iNeighborhoodSize)

structure Draw where
  shuffled : Slots Nat
  rand : Nat → Nat → Nat → Nat → Nat

def buildTptree {S K : Type} [Field K] [LinearOrder K] (o : Options) (index : VectorIndex S K)
    (sqrt : K → K)
    (draw : Draw) : Option Tptree := do
  let (indices, leaves) ← partitionByTptreeCore o index sqrt draw.rand draw.shuffled.size
    draw.shuffled 0
    (draw.shuffled.size - 1) []
  return ⟨indices, leaves⟩

def buildFromDraws {S K : Type} [Field K] [LinearOrder K] (o : Options) (index : VectorIndex S K)
    (sqrt : K → K)
    (maxDist : D) (m_iNeighborhoodSize : Nat) (draws : List Draw) :
      Option (List Tptree × Slots (Row D)) := do
  let trees ← draws.mapM (buildTptree o index sqrt)
  let graph ← buildInitKNNGraph dist idmap maxDist index.samples.size m_iNeighborhoodSize trees
  return (trees, graph)

end Source

theorem before_iff {a b : BasicResult D} : a.dist < b.dist ∨ a.dist = b.dist ∧ a.vid <
    b.vid ↔ a < b :=
  BasicResult.lt_iff.symm

theorem shift_spec (item : BasicResult D) {nb : Nat} {row : Row D} (h : nb < row.size) :
    ∃ p ≤ nb, ∃ row', shift item nb row = some row' ∧ Shifted p nb item row row' ∧
      (∀ k, p ≤ k → k < nb → item < row.cell k) ∧ (0 < p → ¬ item < row.cell (p - 1)) := by
  induction nb generalizing row with
  | zero =>
    exact ⟨0, le_rfl, _, set_of_lt h item, shifted_set 0 item row, fun k _ hk =>
      absurd hk (Nat.not_lt_zero k),
      fun hpos => absurd hpos (lt_irrefl 0)⟩
  | succ nb ih =>
    have hnb : nb < row.size := Nat.lt_of_succ_lt h
    simp only [shift, get_of_lt hnb, Option.bind_eq_bind, Option.bind_some, before_iff, set_of_lt h]
    by_cases hlt : item < row.cell nb
    · rw [if_pos hlt]
      obtain ⟨p, hp, row', hrow', hshifted, hlarger, hstop⟩ := @ih
        { row with cell := Function.update row.cell (nb + 1) (row.cell nb) } hnb
      have hsame : ∀ k ≤ nb, Function.update row.cell (nb + 1) (row.cell nb) k =
        row.cell k := fun k hk =>
        Function.update_of_ne (by omega) ..
      refine ⟨p, Nat.le_succ_of_le hp, row', hrow', ⟨hshifted.size, fun k hk => ?_, hshifted.here,
        fun k hpk hk => ?_, fun k hk => ?_⟩, fun k hpk hk => ?_, fun hpos => ?_⟩
      · rw [hshifted.before k hk]
        exact hsame k (by omega)
      · rcases hk.eq_or_lt with rfl | hk
        · rw [hshifted.behind _ (Nat.lt_succ_self nb)]
          exact Function.update_self ..
        · rw [hshifted.moved k hpk (by omega)]
          exact hsame (k - 1) (by omega)
      · rw [hshifted.behind k (by omega)]
        exact Function.update_of_ne (by omega) ..
      · rcases (Nat.le_of_lt_succ hk).eq_or_lt with rfl | hk
        · exact hlt
        · exact (hlarger k hpk hk).trans_eq (hsame k hk.le)
      · exact fun hbefore => hstop hpos (hbefore.trans_eq (hsame (p - 1) (by omega)).symm)
    · rw [if_neg hlt]
      exact ⟨nb + 1, le_rfl, _, rfl, shifted_set _ item row, fun k hk hk' => absurd hk hk'.not_ge,
        fun _ => hlt⟩

structure Nearest (dist : Nat → D) (maxDist : D) (offered : Finset Nat) (row : Row D)
    (count : Nat) : Prop where
  count_le : count ≤ row.size
  entries : ∀ k < count, ∃ j ∈ offered, row.cell k = ⟨j, dist j⟩
  free : ∀ k, count ≤ k → k < row.size → row.cell k = ⟨-1, maxDist⟩
  ordered : ∀ j k, j < k → k < count → row.cell j < row.cell k
  kept : ∀ j ∈ offered, (∃ k < count, row.cell k = ⟨j, dist j⟩) ∨
    count = row.size ∧ ∀ k < count, row.cell k < ⟨j, dist j⟩

variable {dist : Nat → D} {maxDist : D} {offered : Finset Nat} {row row' : Row D} {count j p : Nat}

theorem nearest_blank (size : Nat) : Nearest dist maxDist ∅ ⟨size, fun _ => ⟨-1, maxDist⟩⟩ 0 where
  count_le := Nat.zero_le _
  entries k hk := absurd hk (Nat.not_lt_zero k)
  free _ _ _ := rfl
  ordered _ k _ hk := absurd hk (Nat.not_lt_zero k)
  kept j hj := absurd hj (Finset.notMem_empty j)

theorem Nearest.shifted {item : BasicResult D} (h : Nearest dist maxDist offered row count)
    (hshifted : Shifted p (row.size - 1) item row row') (hp : p ≤ count) :
    Shifted p (min count (row.size - 1)) item row row' := by
  by_cases hfull : count = row.size
  · rwa [Nat.min_eq_right (by omega)]
  · have hcount := h.count_le
    rw [Nat.min_eq_left (by omega)]
    refine ⟨hshifted.size, hshifted.before, hshifted.here, fun k hpk hk =>
      hshifted.moved k hpk (by omega),
      fun k hk => ?_⟩
    by_cases hsize : k ≤ row.size - 1
    · rw [hshifted.moved k (by omega) hsize, h.free (k - 1) (by omega) (by omega),
        h.free k hk.le (by omega)]
    · exact hshifted.behind k (by omega)

theorem Nearest.again (h : Nearest dist maxDist offered row count) {nb : Nat} (hnb : nb < row.size)
    (hvid : (row.cell nb).vid = j) : Nearest dist maxDist (insert j offered) row count := by
  have hcount : nb < count := by
    by_contra hge
    rw [h.free nb (not_lt.mp hge) hnb] at hvid
    exact absurd hvid (by dsimp only; omega)
  obtain ⟨i, hi, hcell⟩ := h.entries nb hcount
  rw [hcell] at hvid
  obtain rfl : i = j := Int.ofNat_inj.mp hvid
  rwa [Finset.insert_eq_of_mem hi]

theorem Nearest.refused (h : Nearest dist maxDist offered row count) (hsize : 0 < row.size)
    (hmax : dist j < maxDist) (hlt : ¬ (⟨j, dist j⟩ : BasicResult D) < row.cell (row.size - 1)) :
    Nearest dist maxDist (insert j offered) row count := by
  have hlast : row.size - 1 < row.size := Nat.sub_one_lt hsize.ne'
  have hfull : count = row.size := by
    by_contra hne
    have hcount := h.count_le
    rw [h.free (row.size - 1) (by omega) hlast] at hlt
    exact hlt (BasicResult.lt_iff.mpr (.inl hmax))
  refine ⟨h.count_le, fun k hk => ?_, h.free, h.ordered, fun i hi => ?_⟩
  · obtain ⟨i, hi, hcell⟩ := h.entries k hk
    exact ⟨i, Finset.mem_insert_of_mem hi, hcell⟩
  · rcases Finset.mem_insert.mp hi with rfl | hi
    · obtain ⟨l, hl, hentry⟩ := h.entries (row.size - 1) (hfull ▸ hlast)
      rcases (not_lt.mp hlt).eq_or_lt with heq | hgt
      · exact .inl ⟨row.size - 1, hfull ▸ hlast, heq⟩
      · refine .inr ⟨hfull, fun k hk => ?_⟩
        rcases (show k ≤ row.size - 1 by omega).eq_or_lt with rfl | hk'
        · exact hgt
        · exact (h.ordered k (row.size - 1) hk' (hfull ▸ hlast)).trans hgt
    · exact h.kept i hi

theorem all_lt_of_shifted {item x : BasicResult D}
    (hshifted : Shifted p (row.size - 1) item row row')
    (hp : p ≤ row.size - 1) (hx : ∀ k < row.size - 1, row.cell k < x) (hitem : item < x) :
    ∀ k < row.size, row'.cell k < x := by
  intro k hk
  rcases hshifted.cases k with ⟨-, hcell⟩ | ⟨k', hcell, hk'⟩
  · exact hcell ▸ hitem
  · rw [hcell]
    exact hx k' (by omega)

theorem Nearest.inserted (h : Nearest dist maxDist offered row count) (hsize : 0 < row.size)
    (hlt : (⟨j, dist j⟩ : BasicResult D) < row.cell (row.size - 1))
    (hin : ¬ ∃ nb < row.size, (row.cell nb).vid = j) (hp : p ≤ row.size - 1)
    (hmax : dist j < maxDist)
    (hraw : Shifted p (row.size - 1) ⟨j, dist j⟩ row row')
    (hlarger : ∀ k, p ≤ k → k < row.size - 1 → (⟨j, dist j⟩ : BasicResult D) < row.cell k)
    (hstop : 0 < p → ¬ (⟨j, dist j⟩ : BasicResult D) < row.cell (p - 1)) :
    Nearest dist maxDist (insert j offered) row' (max count (min count (row.size - 1) + 1)) := by
  have hpcount : p ≤ count := by
    by_contra hgt
    have hnot := hstop (by omega)
    rw [h.free (p - 1) (by omega) (by omega)] at hnot
    exact hnot (BasicResult.lt_iff.mpr (.inl hmax))
  have hshifted := h.shifted hraw hpcount
  have hcount := h.count_le
  have hbehind : ∀ k, p ≤ k → k < count → (⟨j, dist j⟩ : BasicResult D) < row.cell k :=
    fun k hpk hk => by
    by_cases hend : k < row.size - 1
    · exact hlarger k hpk hend
    · obtain rfl : k = row.size - 1 := by omega
      exact hlt
  have hbefore : ∀ k < p, row.cell k < ⟨j, dist j⟩ := by
    intro k hk
    have hle : row.cell (p - 1) ≤ ⟨j, dist j⟩ := not_lt.mp (hstop (by omega))
    have hne : row.cell (p - 1) ≠ ⟨j, dist j⟩ := fun heq => hin ⟨p - 1, by omega, by rw [heq]⟩
    rcases (Nat.le_sub_one_of_lt hk).eq_or_lt with rfl | hk'
    · exact lt_of_le_of_ne hle hne
    · exact (h.ordered k (p - 1) hk' (by omega)).trans (lt_of_le_of_ne hle hne)
  refine ⟨?_, fun k hk => ?_, fun k hk hk' => ?_, fun i k hik hk => ?_, fun i hi => ?_⟩
  · rw [hraw.size]
    omega
  · rcases hshifted.cases k with ⟨-, hcell⟩ | ⟨k', hcell, hk'⟩
    · exact ⟨j, Finset.mem_insert_self j offered, hcell⟩
    · obtain ⟨i, hi, hentry⟩ := h.entries k' (by omega)
      exact ⟨i, Finset.mem_insert_of_mem hi, hcell.trans hentry⟩
  · rw [hshifted.behind k (by omega)]
    exact h.free k (by omega) (hraw.size ▸ hk')
  · exact hshifted.ordered h.ordered (by omega) (by omega) hbefore hbehind hik hk
  · rcases Finset.mem_insert.mp hi with rfl | hi
    · exact .inl ⟨p, by omega, hshifted.here⟩
    · rcases h.kept i hi with ⟨k, hk, hcell⟩ | ⟨hfull, hall⟩
      · by_cases hq : k = min count (row.size - 1)
        · -- the last entry of a full row is dropped
          have hfull : count = row.size := by omega
          obtain rfl : k = row.size - 1 := by omega
          refine .inr ⟨by rw [hraw.size]; omega, fun k' hk' => ?_⟩
          refine all_lt_of_shifted hraw hp (fun l hl => ?_) (hcell ▸ hlt) k' (by omega)
          exact (h.ordered l (row.size - 1) hl hk).trans_eq hcell
        · obtain ⟨l, hl, hplace⟩ := hshifted.exists_cell hq
          exact .inl ⟨l, by omega, hl.trans hcell⟩
      · refine .inr ⟨by rw [hraw.size]; omega, fun k' hk' => ?_⟩
        exact all_lt_of_shifted hraw hp (fun l hl => hall l (by omega))
          (hlt.trans (hall (row.size - 1) (by omega))) k' (by omega)

theorem addNeighbor_spec (h : Nearest dist maxDist offered row count) (hsize : 0 < row.size)
    (hmax : dist j < maxDist) : ∃ row' count', addNeighbor j (dist j) row = some row' ∧
      row'.size = row.size ∧ Nearest dist maxDist (insert j offered) row' count' := by
  have hlast : row.size - 1 < row.size := Nat.sub_one_lt hsize.ne'
  have hiff : (dist j < (row.cell (row.size - 1)).dist ∨ dist j = (row.cell (row.size - 1)).dist ∧
      (j : Int) < (row.cell (row.size - 1)).vid) ↔ (⟨j, dist j⟩ : BasicResult D) <
        row.cell (row.size - 1) :=
    (BasicResult.lt_iff (a := ⟨j, dist j⟩)).symm
  simp only [addNeighbor, get_of_lt hlast, Option.bind_eq_bind, Option.bind_some, hiff]
  by_cases hlt : (⟨j, dist j⟩ : BasicResult D) < row.cell (row.size - 1)
  · rw [if_pos hlt]
    by_cases hin : ∃ nb < row.size, (row.cell nb).vid = j
    · rw [if_pos hin]
      obtain ⟨nb, hnb, hvid⟩ := hin
      exact ⟨row, count, rfl, rfl, h.again hnb hvid⟩
    · rw [if_neg hin]
      obtain ⟨p, hp, row', hrow', hraw, hlarger, hstop⟩ :=
        shift_spec (⟨j, dist j⟩ : BasicResult D) hlast
      exact ⟨row', _, hrow', hraw.size, h.inserted hsize hlt hin hp hmax hraw hlarger hstop⟩
  · rw [if_neg hlt]
    exact ⟨row, count, rfl, rfl, h.refused hsize hmax hlt⟩

def partners (ps : List (Nat × Nat)) (i : Nat) : Finset Nat :=
  (ps.filterMap fun p => if p.1 = i then some p.2 else if p.2 = i then some p.1 else none).toFinset

theorem mem_partners {ps : List (Nat × Nat)} {i j : Nat} (h : ∀ p ∈ ps, p.1 ≠ p.2) :
    j ∈ partners ps i ↔ (i, j) ∈ ps ∨ (j, i) ∈ ps := by
  rw [partners, List.mem_toFinset, List.mem_filterMap]
  constructor
  · rintro ⟨⟨a, b⟩, hp, heq⟩
    dsimp only at heq
    split_ifs at heq with ha hb
    · obtain rfl := Option.some.inj heq
      exact .inl (ha ▸ hp)
    · obtain rfl := Option.some.inj heq
      exact .inr (hb ▸ hp)
  · rintro (hp | hp)
    · exact ⟨_, hp, if_pos rfl⟩
    · exact ⟨_, hp, (if_neg (h _ hp)).trans (if_pos rfl)⟩

theorem partners_concat (ps : List (Nat × Nat)) (a b i : Nat) : partners (ps ++ [(a, b)]) i =
    if a = i then insert b (partners ps i) else if b =
      i then insert a (partners ps i) else partners ps i := by
  ext j
  simp only [partners, List.filterMap_append, List.mem_toFinset, List.mem_append]
  by_cases ha : a = i
  · simp [ha, or_comm]
  · by_cases hb : b = i
    · simp [ha, hb, or_comm]
    · simp [ha, hb]

structure Gathered (dist : Nat → Nat → D) (maxDist : D) (R K : Nat) (graph : Slots (Row D))
    (ps : List (Nat × Nat)) : Prop where
  size : graph.size = R
  row : ∀ i < R, (graph.cell i).size = K ∧
    ∃ count, Nearest (dist i) maxDist (partners ps i) (graph.cell i) count

variable {pair : Nat → Nat → D} {idmap : Int → Option Int} {R K : Nat} {graph : Slots (Row D)}
  {ps : List (Nat × Nat)} {trees : List Tptree}

theorem offer_spec {i : Nat} {d : D} (hi : i < graph.size) (hsize : 0 < (graph.cell i).size)
    (hd : d = dist j)
    (h : Nearest dist maxDist offered (graph.cell i) count) (hmax : dist j < maxDist) :
    ∃ row' count', offer i j d graph = some (graph.put i row') ∧ row'.size = (graph.cell i).size ∧
      Nearest dist maxDist (insert j offered) row' count' := by
  obtain ⟨row', count', hrow', hsize', hnearest⟩ := addNeighbor_spec h hsize hmax
  refine ⟨row', count', ?_, hsize', hnearest⟩
  have hrow : rowAt graph i = some (graph.cell i) := by
    rw [rowAt, if_neg (not_lt.mpr (Int.natCast_nonneg i)), Int.toNat_natCast, get_of_lt hi]
  simp only [offer, hrow, hd, hrow', Option.bind_eq_bind, Option.bind_some, Int.toNat_natCast]
  exact set_of_lt hi row'

theorem Gathered.addPair {a b : Nat} (h : Gathered pair maxDist R K graph ps) (hK : 0 < K)
    (hsymm : ∀ i j, pair i j = pair j i) (hmax : ∀ i j, pair i j < maxDist)
    (hclean : ∀ p : Nat, p < R → idmap p = none) (ha : a < R) (hb : b < R) (hne : a ≠ b) :
    ∃ graph', NeighborhoodGraph.addPair pair idmap graph (a, b) = some graph' ∧
      Gathered pair maxDist R K graph' (ps ++ [(a, b)]) := by
  obtain ⟨hasize, counta, hanearest⟩ := h.row a ha
  obtain ⟨hbsize, countb, hbnearest⟩ := h.row b hb
  obtain ⟨rowa, counta', hone, hsizea, hgathereda⟩ :=
    offer_spec (h.size.symm ▸ ha) (hasize.symm ▸ hK)
    (rfl : pair a b = pair a b) hanearest (hmax a b)
  have hcell : (graph.put a rowa).cell b = graph.cell b := cell_put_of_ne hne.symm
  have hbput : b < (graph.put a rowa).size := h.size.symm ▸ hb
  obtain ⟨rowb, countb', htwo, hsizeb, hgatheredb⟩ :=
    offer_spec hbput (by rw [hcell, hbsize]; exact hK)
    (hsymm a b) (hcell.symm ▸ hbnearest) (hmax b a)
  refine ⟨(graph.put a rowa).put b rowb, ?_, ⟨h.size, fun i hi => ?_⟩⟩
  · simp only [NeighborhoodGraph.addPair, represent, hclean a ha, hclean b hb,
      Option.getD_none, hone,
      Option.bind_eq_bind, Option.bind_some]
    exact htwo
  · rw [partners_concat]
    by_cases hib : i = b
    · rw [hib, cell_put, if_neg hne, if_pos rfl]
      exact ⟨by rw [hsizeb, hcell, hbsize], countb', hgatheredb⟩
    · rw [cell_put_of_ne hib]
      by_cases hia : i = a
      · rw [hia, cell_put, if_pos rfl]
        exact ⟨hsizea.trans hasize, counta', hgathereda⟩
      · rw [cell_put_of_ne hia, if_neg (Ne.symm hia), if_neg (Ne.symm hib)]
        exact h.row i hi

theorem Gathered.foldlM {qs : List (Nat × Nat)}
    (h : Gathered pair maxDist R K graph ps) (hK : 0 < K)
    (hsymm : ∀ i j, pair i j = pair j i) (hmax : ∀ i j, pair i j < maxDist)
    (hclean : ∀ p : Nat, p < R → idmap p = none)
    (hqs : ∀ q ∈ qs, q.1 < R ∧ q.2 < R ∧ q.1 ≠ q.2) :
    ∃ graph', qs.foldlM (NeighborhoodGraph.addPair pair idmap) graph = some graph' ∧
      Gathered pair maxDist R K graph' (ps ++ qs) := by
  induction qs generalizing graph ps with
  | nil => exact ⟨graph, rfl, by rwa [List.append_nil]⟩
  | cons q qs ih =>
    obtain ⟨ha, hb, hne⟩ := hqs q List.mem_cons_self
    obtain ⟨graph₁, hone, hgathered⟩ := h.addPair hK hsymm hmax hclean ha hb hne
    obtain ⟨graph', hrest, hgathered'⟩ :=
      ih hgathered fun q' hq' => hqs q' (List.mem_cons_of_mem q hq')
    refine ⟨graph', ?_, ?_⟩
    · rw [List.foldlM_cons, hone]
      exact hrest
    · rwa [List.append_assoc, List.singleton_append] at hgathered'

def Tptree.InLeaf (tree : Tptree) (leaf : Nat × Nat) (i : Nat) : Prop :=
  ∃ x, leaf.1 ≤ x ∧ x ≤ leaf.2 ∧ tree.dataIndices.cell x = i

def Tptree.Mates (tree : Tptree) (i j : Nat) : Prop :=
  ∃ leaf ∈ tree.leafNodes, tree.InLeaf leaf i ∧ tree.InLeaf leaf j

structure Tptree.Sound (tree : Tptree) (R : Nat) : Prop where
  leaf : ∀ leaf ∈ tree.leafNodes, ∀ x, leaf.1 ≤ x → x ≤ leaf.2 → x < R
  sample : ∀ x < R, tree.dataIndices.cell x < R
  inj : ∀ x < R, ∀ y < R, tree.dataIndices.cell x = tree.dataIndices.cell y → x = y

theorem mem_leafPairs {indices : Slots Nat} {leaf p : Nat × Nat} : p ∈ leafPairs indices leaf ↔
    ∃ x y, leaf.1 ≤ x ∧ x < y ∧ y ≤ leaf.2 ∧ p = (indices.cell x, indices.cell y) := by
  simp only [leafPairs, List.mem_flatMap, List.mem_map, List.mem_range'_1]
  constructor
  · rintro ⟨x, hx, y, hy, rfl⟩
    exact ⟨x, y, hx.1, by omega, by omega, rfl⟩
  · rintro ⟨x, y, hx, hxy, hy, rfl⟩
    exact ⟨x, by omega, y, by omega, rfl⟩

theorem mem_pairs {p : Nat × Nat} : p ∈ trees.flatMap Tptree.pairs ↔ ∃ tree ∈ trees,
    ∃ leaf ∈ tree.leafNodes,
    ∃ x y, leaf.1 ≤ x ∧ x < y ∧ y ≤ leaf.2 ∧ p =
      (tree.dataIndices.cell x, tree.dataIndices.cell y) := by
  simp only [List.mem_flatMap, Tptree.pairs, mem_leafPairs]

theorem pairs_sound (h : ∀ tree ∈ trees, tree.Sound R) :
    ∀ p ∈ trees.flatMap Tptree.pairs, p.1 < R ∧ p.2 < R ∧ p.1 ≠ p.2 := by
  intro p hp
  obtain ⟨tree, htree, leaf, hleaf, x, y, hx, hxy, hy, rfl⟩ := mem_pairs.mp hp
  have hxR := (h tree htree).leaf leaf hleaf x hx (by omega)
  have hyR := (h tree htree).leaf leaf hleaf y (by omega) hy
  exact ⟨(h tree htree).sample x hxR, (h tree htree).sample y hyR,
    fun heq => hxy.ne ((h tree htree).inj x hxR y hyR heq)⟩

theorem mem_partners_pairs (h : ∀ tree ∈ trees, tree.Sound R) {i j : Nat} :
    j ∈ partners (trees.flatMap Tptree.pairs) i ↔ i ≠ j ∧ ∃ tree ∈ trees, tree.Mates i j := by
  rw [mem_partners fun p hp => (pairs_sound h p hp).2.2]
  constructor
  · intro hp
    have hmates : ∀ a b, (a, b) ∈ trees.flatMap Tptree.pairs →
        a ≠ b ∧ ∃ tree ∈ trees, tree.Mates a b ∧ tree.Mates b a := by
      intro a b hp
      have hne := (pairs_sound h _ hp).2.2
      obtain ⟨tree, htree, leaf, hleaf, x, y, hx, hxy, hy, heq⟩ := mem_pairs.mp hp
      obtain ⟨rfl, rfl⟩ := Prod.mk.inj heq
      have hxin : tree.InLeaf leaf (tree.dataIndices.cell x) := ⟨x, hx, by omega, rfl⟩
      have hyin : tree.InLeaf leaf (tree.dataIndices.cell y) := ⟨y, by omega, hy, rfl⟩
      exact ⟨hne, tree, htree, ⟨leaf, hleaf, hxin, hyin⟩, leaf, hleaf, hyin, hxin⟩
    rcases hp with hp | hp
    · obtain ⟨hne, tree, htree, hmate, -⟩ := hmates i j hp
      exact ⟨hne, tree, htree, hmate⟩
    · obtain ⟨hne, tree, htree, -, hmate⟩ := hmates j i hp
      exact ⟨hne.symm, tree, htree, hmate⟩
  · rintro ⟨hne, tree, htree, leaf, hleaf, ⟨x, hx, hx', rfl⟩, y, hy, hy', rfl⟩
    rcases lt_trichotomy x y with hxy | rfl | hxy
    · exact .inl (mem_pairs.mpr ⟨tree, htree, leaf, hleaf, x, y, hx, hxy, hy', rfl⟩)
    · exact absurd rfl hne
    · exact .inr (mem_pairs.mpr ⟨tree, htree, leaf, hleaf, y, x, hy, hxy, hx', rfl⟩)

theorem buildInitKNNGraph_spec (hK : 0 < K) (hsymm : ∀ i j, pair i j = pair j i)
    (hmax : ∀ i j, pair i j < maxDist) (hclean : ∀ p : Nat, p < R → idmap p = none)
    (htrees : ∀ tree ∈ trees, tree.Sound R) : ∃ graph,
      buildInitKNNGraph pair idmap maxDist R K trees = some graph ∧
      graph.size = R ∧ ∀ i < R, (graph.cell i).size = K ∧ ∃ mates count,
        (∀ j, j ∈ mates ↔ i ≠ j ∧ ∃ tree ∈ trees, tree.Mates i j) ∧
        Nearest (pair i) maxDist mates (graph.cell i) count := by
  have hstart : Gathered pair maxDist R K (blankGraph maxDist R K) [] :=
    ⟨rfl, fun i _ => ⟨rfl, 0, nearest_blank K⟩⟩
  obtain ⟨graph, hgraph, hgathered⟩ := hstart.foldlM hK hsymm hmax hclean (pairs_sound htrees)
  refine ⟨graph, hgraph, hgathered.size, fun i hi => ?_⟩
  obtain ⟨hsize, count, hnearest⟩ := hgathered.row i hi
  exact ⟨hsize, _, count, fun j => mem_partners_pairs htrees, hnearest⟩

theorem Tiles.leaf {leaves : List (Nat × Nat)} {first stop : Nat} (h : Tiles first leaves stop) :
    (∀ leaf ∈ leaves, first ≤ leaf.1 ∧ leaf.2 < stop) ∧ first ≤ stop ∧
      ∀ x, first ≤ x → x < stop → ∃ leaf ∈ leaves, leaf.1 ≤ x ∧ x ≤ leaf.2 := by
  induction leaves generalizing first with
  | nil =>
    obtain rfl : first = stop := h
    exact ⟨fun leaf hleaf => absurd hleaf List.not_mem_nil, le_rfl, fun x hx hx' =>
      absurd hx hx'.not_ge⟩
  | cons leaf leaves ih =>
    obtain ⟨rfl, hle, hrest⟩ := h
    obtain ⟨hleaves, hstop, hcover⟩ := ih hrest
    refine ⟨fun l hl => ?_, by omega, fun x hx hx' => ?_⟩
    · rcases List.mem_cons.mp hl with rfl | hl
      · exact ⟨le_rfl, by omega⟩
      · have := hleaves l hl
        exact ⟨by omega, this.2⟩
    · by_cases hin : x ≤ leaf.2
      · exact ⟨leaf, List.mem_cons_self, hx, hin⟩
      · obtain ⟨l, hl, hxl⟩ := hcover x (by omega) hx'
        exact ⟨l, List.mem_cons_of_mem leaf hl, hxl⟩

structure Placed (indices : Slots Nat) (R : Nat) : Prop where
  size : indices.size = R
  lt : ∀ x < R, indices.cell x < R
  inj : ∀ x < R, ∀ y < R, indices.cell x = indices.cell y → x = y
  surj : ∀ i < R, ∃ x < R, indices.cell x = i

theorem Placed.shuffled {indices indices' : Slots Nat} (h : Placed indices R)
    (hsame : Shuffled 0 R indices indices') : Placed indices' R := by
  obtain ⟨σ, houtside, hmoved⟩ := hsame.moved
  have hσ : ∀ x, σ x < R ↔ x < R := by
    intro x
    constructor
    · intro hx
      by_contra hge
      rw [houtside x (.inr (not_lt.mp hge))] at hx
      exact hge hx
    · intro hx
      by_contra hge
      have hfix := houtside (σ x) (.inr (not_lt.mp hge))
      rw [σ.injective hfix] at hge
      exact hge hx
  refine ⟨hsame.size.trans h.size, fun x hx => ?_, fun x hx y hy heq => ?_, fun i hi => ?_⟩
  · rw [hmoved]
    exact h.lt _ ((hσ x).mpr hx)
  · rw [hmoved, hmoved] at heq
    exact σ.injective (h.inj _ ((hσ x).mpr hx) _ ((hσ y).mpr hy) heq)
  · obtain ⟨x, hx, hcell⟩ := h.surj i hi
    refine ⟨σ.symm x, (hσ _).mp ?_, ?_⟩
    · rwa [Equiv.apply_symm_apply]
    · rw [hmoved, Equiv.apply_symm_apply, hcell]

def Draw.call (draw : Draw) : Call := ⟨draw.shuffled, 0, draw.shuffled.size - 1⟩

theorem Placed.valid {S K : Type} {index : VectorIndex S K} {draw : Draw}
    (h : Placed draw.shuffled index.samples.size) (hR : 0 < index.samples.size) :
      Valid index draw.call := by
  have hsize := h.size
  refine ⟨Nat.zero_le _, show draw.shuffled.size - 1 <
    draw.shuffled.size by omega, fun k _ hk => ?_⟩
  have hlt : k < draw.shuffled.size - 1 + 1 := hk
  exact h.lt k (by omega)

theorem Tiles.unique {leaves : List (Nat × Nat)} {first stop : Nat}
    (h : Tiles first leaves stop) {x : Nat}
    {leaf leaf' : Nat × Nat} (hleaf : leaf ∈ leaves) (hx : leaf.1 ≤ x ∧ x ≤ leaf.2)
    (hleaf' : leaf' ∈ leaves)
    (hx' : leaf'.1 ≤ x ∧ x ≤ leaf'.2) : leaf = leaf' := by
  induction leaves generalizing first with
  | nil => exact absurd hleaf List.not_mem_nil
  | cons l leaves ih =>
    obtain ⟨-, -, hrest⟩ := h
    have hbehind := hrest.leaf.1
    rcases List.mem_cons.mp hleaf with rfl | hin
    · rcases List.mem_cons.mp hleaf' with rfl | hin'
      · rfl
      · have := (hbehind leaf' hin').1
        omega
    · rcases List.mem_cons.mp hleaf' with rfl | hin'
      · have := (hbehind leaf hin).1
        omega
      · exact ih hrest hin hin'

structure Tptree.Leaves (tree : Tptree) (R m_iTPTLeafSize : Nat) : Prop extends tree.Sound R where
  tiles : Tiles 0 tree.leafNodes R
  small : ∀ leaf ∈ tree.leafNodes, leaf.2 - leaf.1 ≤ m_iTPTLeafSize
  once : ∀ i < R, ∃! leaf, leaf ∈ tree.leafNodes ∧ tree.InLeaf leaf i

theorem Placed.leaves {indices : Slots Nat} {leaves : List (Nat × Nat)} {m_iTPTLeafSize : Nat}
    (h : Placed indices R) (htiles : Tiles 0 leaves R)
    (hsmall : ∀ leaf ∈ leaves, leaf.2 - leaf.1 ≤ m_iTPTLeafSize) :
    (⟨indices, leaves⟩ : Tptree).Leaves R m_iTPTLeafSize := by
  obtain ⟨hleaves, -, hcover⟩ := htiles.leaf
  have hplace : ∀ leaf ∈ leaves, ∀ x, leaf.1 ≤ x → x ≤ leaf.2 → x < R := fun leaf hleaf x _ hx =>
    hx.trans_lt (hleaves leaf hleaf).2
  refine ⟨⟨hplace, h.lt, h.inj⟩, htiles, hsmall, fun i hi => ?_⟩
  obtain ⟨x, hx, rfl⟩ := h.surj i hi
  obtain ⟨leaf, hleaf, hfirst, hlast⟩ := hcover x (Nat.zero_le x) hx
  refine ⟨leaf, ⟨hleaf, x, hfirst, hlast, rfl⟩, ?_⟩
  rintro leaf' ⟨hleaf', y, hy, hy', hcell⟩
  obtain rfl := h.inj y (hplace leaf' hleaf' y hy hy') x hx hcell
  exact htiles.unique hleaf' ⟨hy, hy'⟩ hleaf ⟨hfirst, hlast⟩

theorem buildTptree_spec {S K : Type} [Field K] [LinearOrder K]
    [IsStrictOrderedRing K] {o : Options}
    {index : VectorIndex S K} (sqrt : K → K) (htop : 1 ≤ o.m_numTopDimensionTPTSplit)
    (hcols : o.m_numTopDimensionTPTSplit ≤ index.cols) {draw : Draw} (hR : 0 < index.samples.size)
    (hdraw : Placed draw.shuffled index.samples.size) :
    ∃ tree, buildTptree o index sqrt draw = some tree ∧
      tree.Leaves index.samples.size o.m_iTPTLeafSize := by
  have hsize := hdraw.size
  obtain ⟨indices, leaves, hrun, hsame, htiles, hsizes⟩ :=
    partitionByTptreeCore_spec sqrt draw.rand htop
    hcols (hdraw.valid hR) (show draw.shuffled.size - 1 - 0 < draw.shuffled.size by omega) []
  dsimp only [Draw.call] at hrun hsame htiles
  rw [Nat.sub_add_cancel (show 1 ≤ draw.shuffled.size by omega), hsize] at hsame htiles
  refine ⟨⟨indices, leaves⟩, ?_, (hdraw.shuffled hsame).leaves htiles hsizes⟩
  rw [buildTptree, hrun]
  rfl

theorem buildTptrees_spec {S K : Type} [Field K] [LinearOrder K]
    [IsStrictOrderedRing K] {o : Options}
    {index : VectorIndex S K} (sqrt : K → K) (htop : 1 ≤ o.m_numTopDimensionTPTSplit)
    (hcols : o.m_numTopDimensionTPTSplit ≤ index.cols) (hR : 0 < index.samples.size)
    {draws : List Draw}
    (hdraws : ∀ draw ∈ draws, Placed draw.shuffled index.samples.size) :
    ∃ trees, draws.mapM (buildTptree o index sqrt) = some trees ∧ trees.length = draws.length ∧
      ∀ tree ∈ trees, tree.Leaves index.samples.size o.m_iTPTLeafSize := by
  induction draws with
  | nil => exact ⟨[], rfl, rfl, fun tree htree => absurd htree List.not_mem_nil⟩
  | cons draw draws ih =>
    obtain ⟨tree, htree, hleaves⟩ := buildTptree_spec sqrt htop hcols hR
      (hdraws draw List.mem_cons_self)
    obtain ⟨trees, htrees, hlength, hall⟩ := ih fun d hd => hdraws d (List.mem_cons_of_mem draw hd)
    refine ⟨tree :: trees, ?_, congrArg (· + 1) hlength, List.forall_mem_cons.mpr ⟨hleaves, hall⟩⟩
    rw [List.mapM_cons, htree, htrees]
    rfl

def Call.Ints (a : Call) (o : Options) : Prop :=
  toInt (a.first + a.last + 1) = a.first + a.last + 1 ∧ toInt (a.first + o.m_iSamples) =
    a.first + o.m_iSamples

theorem Visits.ints {S K : Type} [Field K] [LinearOrder K] [IsStrictOrderedRing K] {o : Options}
    {index : VectorIndex S K} {sqrt : K → K} {rand : Nat → Nat → Nat → Nat → Nat} {a b : Call}
    (h : Visits o index sqrt rand a b) (ha : Valid index a) (hlast : a.last < 2 ^ 30)
    (hsamples : o.m_iSamples ≤ 2 ^ 30) : b.Ints o := by
  obtain ⟨-, hinner, hle⟩ := h.valid ha
  exact ⟨toInt_eq (by omega) (by omega), toInt_eq (by omega) (by omega)⟩

def threeNumbers : VectorIndex ℚ ℚ := ⟨⟨3, fun n => [5, 0, 1].getD n 0⟩, 1, fun v _ => v, none⟩

def twoDraws : List Draw := [⟨⟨3, fun k => k⟩, fun _ _ _ _ => 0⟩,
    ⟨⟨3, fun k => 2 - k⟩, fun _ _ _ k => k⟩]

theorem twoDraws_placed : ∀ draw ∈ twoDraws, Placed draw.shuffled threeNumbers.samples.size := by
  refine List.forall_mem_cons.mpr
    ⟨⟨rfl, fun x hx => hx, fun x _ y _ h => h, fun i hi => ⟨i, hi, rfl⟩⟩,
    List.forall_mem_singleton.mpr ⟨rfl, fun x hx => ?_, fun x hx y hy h => ?_, fun i hi =>
      ⟨2 - i, ?_, ?_⟩⟩⟩
  all_goals
    dsimp only [threeNumbers] at *
    omega

def gap (i j : Nat) : Nat := min 99 (max i j - min i j)

end Sptag.COMMON.NeighborhoodGraph
