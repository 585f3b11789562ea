import Sptag.Common.QueryResultSet
import Sptag.Lib.Buffer
import Sptag.Lib.Slots

/-! `inc/Core/Common/RelativeNeighborhoodGraph.h`: the rows of the graph, how one is rebuilt and
how a node is inserted into one. -/

namespace Sptag.COMMON.RelativeNeighborhoodGraph

open Lib Slots

variable {D : Type} [LinearOrder D]

structure Distance (D : Type) [LinearOrder D] [Zero D] where
  dist : Int → Int → D
  symm : ∀ a b, dist a b = dist b a
  nonneg : ∀ a b, 0 ≤ dist a b
  self : ∀ a, dist a a = 0

section Source

variable (dist : Int → Int → D)

def displace (node insertNode : Int) (checkNeighborhoodSize : Nat) :
    Nat → Int → Nat → Slots Int → Option (Slots Int)
  | 0, _, _, _ => none
  | rounds + 1, tmpNode, k, nodes =>
    if k < checkNeighborhoodSize ∧ dist tmpNode node ≤ dist tmpNode insertNode then do
      let next ← nodes.get k
      let nodes ← nodes.set k tmpNode
      if next < 0 then return nodes
      else displace node insertNode checkNeighborhoodSize rounds next (k + 1) nodes
    else return nodes

def insertFrom (node insertNode : Int) (insertDist : D) (checkNeighborhoodSize : Nat) :
    Nat → Nat → Slots Int → Option (Slots Int)
  | 0, _, _ => none
  | rounds + 1, k, nodes =>
    if k < checkNeighborhoodSize then do
      let tmpNode ← nodes.get k
      if tmpNode < 0 then nodes.set k insertNode
      else
        let tmpDist := dist tmpNode node
        if insertDist < tmpDist ∨ insertDist = tmpDist ∧ insertNode < tmpNode then
          let nodes ← nodes.set k insertNode
          displace dist node insertNode checkNeighborhoodSize rounds tmpNode (k + 1) nodes
        else if dist tmpNode insertNode < insertDist then return nodes
        else insertFrom node insertNode insertDist checkNeighborhoodSize rounds (k + 1) nodes
    else return nodes

/-- A last slot below -1 is a mark, which is not checked. -/
def checkSize (nodes : Slots Int) : Nat :=
  if nodes.cell (nodes.size - 1) < -1 then nodes.size - 1 else nodes.size

def insertNeighbors (node insertNode : Int) (insertDist : D) (nodes : Slots Int) :
    Option (Slots Int) := do
  let last ← nodes.get (nodes.size - 1)
  let checkNeighborhoodSize := if last < -1 then nodes.size - 1 else nodes.size
  insertFrom dist node insertNode insertDist checkNeighborhoodSize (nodes.size + 1) 0 nodes

def rebuildFrom [Mul D] (m_fRNGFactor : D) (node : Int) :
    List (BasicResult D) → Nat → Slots Int → Option (Nat × Slots Int)
  | [], count, nodes => some (count, nodes)
  | item :: rest, count, nodes =>
    if count < nodes.size then
      if item.vid < 0 then return (count, nodes)
      else if item.vid = node then rebuildFrom m_fRNGFactor node rest count nodes
      else do
        let taken ← (List.range count).mapM nodes.get
        if ∃ id ∈ taken, m_fRNGFactor * dist id item.vid < item.dist then
          rebuildFrom m_fRNGFactor node rest count nodes
        else
          let nodes ← nodes.set count item.vid
          rebuildFrom m_fRNGFactor node rest (count + 1) nodes
    else return (count, nodes)

def rebuildNeighbors [Mul D] (m_fRNGFactor : D) (node : Int) (nodes : Slots Int)
    (queryResults : List (BasicResult D)) : Option (Slots Int) := do
  let (count, nodes) ← rebuildFrom dist m_fRNGFactor node queryResults 0 nodes
  return { nodes with cell := fun j => if j < count then nodes.cell j else -1 }

end Source

/-- The row has `count` ids, nearer ones first and smaller ones first where the distance is the
same, then free slots, and perhaps a mark. -/
structure ValidRow (dist : Int → Int → D) (node : Int) (nodes : Slots Int)
    (count : Nat) : Prop where
  count_le : count ≤ checkSize nodes
  ids : ∀ k < count, 0 ≤ nodes.cell k ∧ nodes.cell k ≠ node
  free : ∀ k, count ≤ k → k < checkSize nodes → nodes.cell k = -1
  ordered : ∀ j k, j < k → k < count →
    BasicResult.mk (nodes.cell j) (dist node (nodes.cell j)) <
      BasicResult.mk (nodes.cell k) (dist node (nodes.cell k))

structure Keeps (dist : Int → Int → D) (node insertNode : Int) (nodes nodes' : Slots Int) :
    Prop where
  size : nodes'.size = nodes.size
  valid : ∃ count, ValidRow dist node nodes' count
  mark : ∀ k, checkSize nodes ≤ k → nodes'.cell k = nodes.cell k
  only : ∀ k < checkSize nodes, 0 ≤ nodes'.cell k →
    nodes'.cell k = insertNode ∨ ∃ j < checkSize nodes, nodes.cell j = nodes'.cell k
  dropped : ∃ q, ∀ j < checkSize nodes, j ≠ q → 0 ≤ nodes.cell j →
    ∃ k < checkSize nodes, nodes'.cell k = nodes.cell j

section Row

variable {dist : Int → Int → D} {p q count : Nat} {node insertNode : Int} {nodes nodes' : Slots Int}

theorem checkSize_le (nodes : Slots Int) : checkSize nodes ≤ nodes.size := by
  unfold checkSize
  split <;> omega

theorem checkSize_congr (hsize : nodes'.size = nodes.size)
    (hlast : nodes'.cell (nodes.size - 1) < -1 ↔ nodes.cell (nodes.size - 1) < -1) :
    checkSize nodes' = checkSize nodes := by
  unfold checkSize
  rw [hsize, if_congr hlast rfl rfl]

theorem lt_checkSize {k : Nat} (hk : k < nodes.size) (h : -1 ≤ nodes.cell k) :
    k < checkSize nodes := by
  unfold checkSize
  split
  · next hmark =>
    rcases (Nat.le_sub_one_of_lt hk).eq_or_lt with rfl | hlt
    · exact absurd h hmark.not_ge
    · exact hlt
  · exact hk

theorem ValidRow.checkSize_eq (h : ValidRow dist node nodes count)
    (hs : Shifted p q insertNode nodes nodes') (hq : q ≤ count) (hcheck : q < checkSize nodes)
    (hinsert : 0 ≤ insertNode) : checkSize nodes' = checkSize nodes := by
  refine checkSize_congr hs.size ?_
  by_cases hmark : nodes.cell (nodes.size - 1) < -1
  · have hc : checkSize nodes = nodes.size - 1 := if_pos hmark
    rw [hs.behind _ (hc ▸ hcheck)]
  · refine iff_of_false ?_ hmark
    rcases hs.cases (nodes.size - 1) with ⟨-, hk⟩ | ⟨j, hk, hj⟩
    · omega
    · rcases hj with ⟨-, rfl⟩ | ⟨-, hkq, hj⟩ | ⟨-, rfl⟩
      · rwa [hk]
      · have := (h.ids j (by omega)).1
        omega
      · rwa [hk]

theorem ValidRow.shifted (h : ValidRow dist node nodes count)
    (hs : Shifted p q insertNode nodes nodes') (hpq : p ≤ q) (hq : q ≤ count)
    (hcheck : q < checkSize nodes) (hinsert : 0 ≤ insertNode) (hne : insertNode ≠ node)
    (hbefore : ∀ j < p, BasicResult.mk (nodes.cell j) (dist node (nodes.cell j)) <
      BasicResult.mk insertNode (dist node insertNode))
    (hbehind : p < count → BasicResult.mk insertNode (dist node insertNode) <
      BasicResult.mk (nodes.cell p) (dist node (nodes.cell p))) :
    ValidRow dist node nodes' (max count (q + 1)) where
  count_le := by
    rw [h.checkSize_eq hs hq hcheck hinsert]
    exact max_le h.count_le hcheck
  ids k hk := by
    rcases hs.cases k with ⟨-, hk'⟩ | ⟨j, hk', hj⟩
    · rw [hk']
      exact ⟨hinsert, hne⟩
    · rw [hk']
      exact h.ids j (by omega)
  free k hk hk' := by
    rw [h.checkSize_eq hs hq hcheck hinsert] at hk'
    rw [hs.behind k (by omega)]
    exact h.free k (by omega) hk'
  ordered j k hjk hk := by
    refine hs.ordered (r := fun a b =>
      BasicResult.mk a (dist node a) < BasicResult.mk b (dist node b))
      h.ordered hpq hq hbefore (fun k hk hkc => ?_) hjk hk
    rcases hk.eq_or_lt with rfl | hlt
    · exact hbehind hkc
    · exact (hbehind (hlt.trans hkc)).trans (h.ordered p k hlt hkc)

theorem displace_spec (h : ValidRow dist node nodes count) (rounds : Nat) {s : Slots Int}
    (hs : Shifted p q insertNode nodes s) (hpq : p ≤ q) (hq : q < count)
    (hrounds : checkSize nodes < q + 1 + rounds) :
    ∃ s' q', displace dist node insertNode (checkSize nodes) rounds (nodes.cell q) (q + 1) s =
        some s' ∧ Shifted p q' insertNode nodes s' ∧ p ≤ q' ∧ q' ≤ count ∧ q' <
          checkSize nodes := by
  have hcount := h.count_le
  have hsize := checkSize_le nodes
  induction rounds generalizing q s with
  | zero => exact absurd hrounds (by omega)
  | succ rounds ih =>
    unfold displace
    by_cases hgo : q + 1 < checkSize nodes ∧
        dist (nodes.cell q) node ≤ dist (nodes.cell q) insertNode
    · have hlt : q + 1 < s.size := hs.size.symm ▸ hgo.1.trans_le hsize
      have hstep := hs.step hpq
      rw [if_pos hgo, get_of_lt hlt, hs.behind (q + 1) (Nat.lt_succ_self q)]
      simp only [set_of_lt hlt, Option.bind_eq_bind, Option.bind_some]
      by_cases hfree : nodes.cell (q + 1) < 0
      · exact ⟨_, q + 1, if_pos hfree, hstep, by omega, hq, hgo.1⟩
      · rw [if_neg hfree]
        have hnext : q + 1 < count := by
          by_contra hge
          exact hfree (h.free (q + 1) (not_lt.mp hge) hgo.1 ▸ by decide)
        exact ih hstep (by omega) hnext (by omega)
    · exact ⟨s, q, if_neg hgo, hs, hpq, hq.le, hq.trans_le hcount⟩

/-- How an insertion ends: an id is too close to `insertNode`, or there is no slot for it, or it
is in the slot `p`. -/
inductive Ends (dist : Int → Int → D) (node insertNode : Int) (nodes : Slots Int) (count : Nat) :
    Slots Int → Prop
  | rejected {j : Nat} (j_lt : j < count)
      (close : dist (nodes.cell j) insertNode < dist node insertNode) :
      Ends dist node insertNode nodes count nodes
  | full (count_eq : count = checkSize nodes)
      (le : ∀ j < count, ¬ BasicResult.mk insertNode (dist node insertNode) <
        BasicResult.mk (nodes.cell j) (dist node (nodes.cell j))) :
      Ends dist node insertNode nodes count nodes
  | placed {nodes' : Slots Int} {p q : Nat} (shifted : Shifted p q insertNode nodes nodes')
      (le : p ≤ q) (le_count : q ≤ count) (lt_check : q < checkSize nodes)
      (before : ∀ j < p, ¬ BasicResult.mk insertNode (dist node insertNode) <
        BasicResult.mk (nodes.cell j) (dist node (nodes.cell j)) ∧
          ¬ dist (nodes.cell j) insertNode < dist node insertNode)
      (behind : p < count → BasicResult.mk insertNode (dist node insertNode) <
        BasicResult.mk (nodes.cell p) (dist node (nodes.cell p))) :
      Ends dist node insertNode nodes count nodes'

theorem insertFrom_spec (h : ValidRow dist node nodes count) (hsymm : ∀ a b, dist a b = dist b a)
    {rounds k : Nat} (hk : k ≤ count) (hrounds : checkSize nodes < k + rounds)
    (hbefore : ∀ j < k, ¬ BasicResult.mk insertNode (dist node insertNode) <
      BasicResult.mk (nodes.cell j) (dist node (nodes.cell j)) ∧
        ¬ dist (nodes.cell j) insertNode < dist node insertNode) :
    ∃ s', insertFrom dist node insertNode (dist node insertNode) (checkSize nodes) rounds k nodes =
      some s' ∧ Ends dist node insertNode nodes count s' := by
  have hcount := h.count_le
  have hsize := checkSize_le nodes
  induction rounds generalizing k with
  | zero => exact absurd hrounds (by omega)
  | succ rounds ih =>
    unfold insertFrom
    by_cases hcheck : k < checkSize nodes
    · have hlt : k < nodes.size := hcheck.trans_le hsize
      rw [if_pos hcheck, get_of_lt hlt]
      simp only [set_of_lt hlt, Option.bind_eq_bind, Option.bind_some]
      rcases hk.eq_or_lt with rfl | hkc
      · have hfree : nodes.cell k < 0 := h.free k le_rfl hcheck ▸ by decide
        exact ⟨_, if_pos hfree, .placed (shifted_set k insertNode nodes) le_rfl le_rfl
          hcheck hbefore
          fun h => absurd h (lt_irrefl k)⟩
      · rw [if_neg (h.ids k hkc).1.not_gt, hsymm (nodes.cell k) node]
        by_cases hput : BasicResult.mk insertNode (dist node insertNode) <
            BasicResult.mk (nodes.cell k) (dist node (nodes.cell k))
        · rw [if_pos (BasicResult.lt_iff.mp hput)]
          obtain ⟨s', q, hs', hshift, hkq, hqc, hq⟩ := displace_spec h rounds
            (shifted_set k insertNode nodes) le_rfl hkc (by omega)
          exact ⟨s', hs', .placed hshift hkq hqc hq hbefore fun _ => hput⟩
        · rw [if_neg (mt BasicResult.lt_iff.mpr hput)]
          by_cases hclose : dist (nodes.cell k) insertNode < dist node insertNode
          · exact ⟨nodes, if_pos hclose, .rejected hkc hclose⟩
          · rw [if_neg hclose]
            refine ih hkc (by omega) fun j hj => ?_
            rcases (Nat.le_of_lt_succ hj).eq_or_lt with rfl | hj
            · exact ⟨hput, hclose⟩
            · exact hbefore j hj
    · have hkc : count = k := by omega
      exact ⟨nodes, if_neg hcheck, .full (by omega) fun j hj => (hbefore j (hkc ▸ hj)).1⟩

theorem insertNeighbors_spec (insertNode : Int) (h : ValidRow dist node nodes count)
    (hsymm : ∀ a b, dist a b = dist b a) (hpos : 0 < nodes.size) :
    ∃ s', insertNeighbors dist node insertNode (dist node insertNode) nodes = some s' ∧
      Ends dist node insertNode nodes count s' := by
  have hsize := checkSize_le nodes
  unfold insertNeighbors
  rw [get_of_lt (Nat.sub_one_lt_of_lt hpos)]
  exact insertFrom_spec h hsymm (Nat.zero_le _) (by omega) fun j hj => absurd hj (Nat.not_lt_zero j)

theorem ValidRow.keeps_self (h : ValidRow dist node nodes count) :
    Keeps dist node insertNode nodes nodes where
  size := rfl
  valid := ⟨count, h⟩
  mark _ _ := rfl
  only k hk _ := .inr ⟨k, hk, rfl⟩
  dropped := ⟨0, fun j hj _ _ => ⟨j, hj, rfl⟩⟩

theorem Shifted.keeps (hs : Shifted p q insertNode nodes nodes') (hq : q < checkSize nodes)
    (h : ValidRow dist node nodes' count) : Keeps dist node insertNode nodes nodes' where
  size := hs.size
  valid := ⟨count, h⟩
  mark k hk := hs.behind k (hq.trans_le hk)
  only k hk _ := by
    rcases hs.cases k with ⟨-, hk'⟩ | ⟨j, hk', hj⟩
    · exact .inl hk'
    · exact .inr ⟨j, by omega, hk'.symm⟩
  dropped := ⟨q, fun j hj hjq _ => by
    obtain ⟨k, hk, hkj⟩ := hs.exists_cell hjq
    exact ⟨k, by omega, hk⟩⟩

theorem ValidRow.cell_ne (h : ValidRow dist node nodes count) {j k : Nat} (hjk : j < k)
    (hk : k < nodes.size) (hid : 0 ≤ nodes.cell k) : nodes.cell j ≠ nodes.cell k := by
  have hkc : k < count := by
    by_contra hge
    have hcheck := lt_checkSize hk (le_trans (by decide) hid)
    exact absurd (h.free k (not_lt.mp hge) hcheck) (by omega)
  intro heq
  have hlt := h.ordered j k hjk hkc
  rw [heq] at hlt
  exact lt_irrefl _ hlt

theorem Ends.not_valid {s : Slots Int} {k : Nat} (h : ValidRow dist node nodes count)
    (hends : Ends dist node insertNode nodes count s) (hinsert : 0 ≤ insertNode)
    (hfar : ∀ a, ¬ dist a insertNode < dist node insertNode) (hk : k + 1 < checkSize nodes)
    (hcell : nodes.cell k = insertNode) {count' : Nat} : ¬ ValidRow dist node s count' := by
  have hkc : k < count := by
    by_contra hge
    exact absurd (h.free k (not_lt.mp hge) (by omega)) (by omega)
  cases hends with
  | rejected _ close => exact absurd close (hfar _)
  | full count_eq le =>
    have hlt := h.ordered k (k + 1) (Nat.lt_succ_self k) (by omega)
    rw [hcell] at hlt
    exact absurd hlt (le (k + 1) (by omega))
  | @placed _ p q shifted le le_count lt_check before behind =>
    intro hvalid
    have hkp : k < p := by
      by_contra hpk
      rcases (not_lt.mp hpk).eq_or_lt with rfl | hpk
      · exact absurd (behind hkc) (by rw [hcell]; exact lt_irrefl _)
      · have hlt := (behind (hpk.trans hkc)).trans (h.ordered p k hpk hkc)
        rw [hcell] at hlt
        exact lt_irrefl _ hlt
    have hp : p < s.size := shifted.size ▸ (le.trans_lt lt_check).trans_le (checkSize_le nodes)
    refine hvalid.cell_ne hkp hp (shifted.here ▸ hinsert) ?_
    rw [shifted.before k hkp, hcell, shifted.here]

theorem rebuildFrom_spec [Mul D] (m_fRNGFactor : D) {rs : List (BasicResult D)}
    (hsorted : rs.Pairwise (· < ·)) (hdist : ∀ r ∈ rs, r.dist = dist node r.vid)
    (hcount : count ≤ nodes.size) (hids : ∀ k < count, 0 ≤ nodes.cell k ∧ nodes.cell k ≠ node)
    (hordered : ∀ j k, j < k → k < count →
      BasicResult.mk (nodes.cell j) (dist node (nodes.cell j)) <
        BasicResult.mk (nodes.cell k) (dist node (nodes.cell k)))
    (hleft : ∀ k < count, ∀ r ∈ rs, BasicResult.mk (nodes.cell k) (dist node (nodes.cell k)) < r) :
    ∃ count' nodes', rebuildFrom dist m_fRNGFactor node rs count nodes = some (count', nodes') ∧
      nodes'.size = nodes.size ∧ count' ≤ nodes.size ∧
      (∀ k < count', 0 ≤ nodes'.cell k ∧ nodes'.cell k ≠ node) ∧
      ∀ j k, j < k → k < count' → BasicResult.mk (nodes'.cell j) (dist node (nodes'.cell j)) <
        BasicResult.mk (nodes'.cell k) (dist node (nodes'.cell k)) := by
  induction rs generalizing count nodes with
  | nil => exact ⟨count, nodes, rfl, rfl, hcount, hids, hordered⟩
  | cons item rs ih =>
    obtain ⟨hitem, hrest⟩ := List.pairwise_cons.mp hsorted
    have hskip := ih hrest (fun r hr => hdist r (List.mem_cons_of_mem _ hr)) hcount hids hordered
      fun k hk r hr => hleft k hk r (List.mem_cons_of_mem _ hr)
    unfold rebuildFrom
    by_cases hroom : count < nodes.size
    · rw [if_pos hroom]
      by_cases hneg : item.vid < 0
      · rw [if_pos hneg]
        exact ⟨count, nodes, rfl, rfl, hcount, hids, hordered⟩
      rw [if_neg hneg]
      by_cases hself : item.vid = node
      · rw [if_pos hself]
        exact hskip
      rw [if_neg hself, mapM_eq_some fun k hk => get_of_lt ((List.mem_range.mp hk).trans hroom)]
      simp only [Option.bind_eq_bind, Option.bind_some, set_of_lt hroom]
      split
      · exact hskip
      · have hkey : BasicResult.mk item.vid (dist node item.vid) = item := by
          rw [← hdist item List.mem_cons_self]
        have hold : ∀ k < count, Function.update nodes.cell count item.vid k = nodes.cell k :=
          fun k hk => Function.update_of_ne hk.ne ..
        refine ih hrest
          (fun r hr => hdist r (List.mem_cons_of_mem _ hr)) hroom (fun k hk => ?_)
          (fun j k hjk hk => ?_) fun k hk r hr => ?_
        all_goals
          dsimp only
          rcases (Nat.le_of_lt_succ hk).eq_or_lt with rfl | hlt
        · rw [Function.update_self]
          exact ⟨not_lt.mp hneg, hself⟩
        · rw [hold k hlt]
          exact hids k hlt
        · rw [Function.update_self, hold j hjk, hkey]
          exact hleft j hjk item List.mem_cons_self
        · rw [hold k hlt, hold j (hjk.trans hlt)]
          exact hordered j k hjk hlt
        · rw [Function.update_self, hkey]
          exact hitem r hr
        · rw [hold k hlt]
          exact hleft k hlt r (List.mem_cons_of_mem _ hr)
    · rw [if_neg hroom]
      exact ⟨count, nodes, rfl, rfl, hcount, hids, hordered⟩

theorem rebuildNeighbors_valid [Mul D] (m_fRNGFactor : D) (nodes : Slots Int)
    {rs : List (BasicResult D)} (hsorted : rs.Pairwise (· < ·))
    (hdist : ∀ r ∈ rs, r.dist = dist node r.vid) :
    ∃ nodes' count, rebuildNeighbors dist m_fRNGFactor node nodes rs = some nodes' ∧
      nodes'.size = nodes.size ∧ ValidRow dist node nodes' count := by
  obtain ⟨count, s, hs, hsize, hcount, hids, hordered⟩ := rebuildFrom_spec m_fRNGFactor hsorted
    hdist (Nat.zero_le nodes.size) (fun k hk => absurd hk (Nat.not_lt_zero k))
    (fun j k _ hk => absurd hk (Nat.not_lt_zero k)) fun k hk => absurd hk (Nat.not_lt_zero k)
  have hcell : ∀ k < count, (if k < count then s.cell k else -1) = s.cell k := fun k hk => if_pos hk
  refine ⟨{ s with cell := fun j => if j < count then s.cell j else -1 }, count, ?_, hsize, ?_⟩
  · unfold rebuildNeighbors
    rw [hs]
    rfl
  · have hmark : ¬ (if s.size - 1 < count then s.cell (s.size - 1) else -1) < -1 := by
      split
      · next hlast => exact (le_trans (by decide) (hids _ hlast).1).not_gt
      · decide
    exact {
      count_le := hcount.trans_eq (hsize.symm.trans (if_neg hmark).symm)
      ids := fun k hk => by
        dsimp only
        rw [hcell k hk]
        exact hids k hk
      free := fun k hk _ => if_neg hk.not_gt
      ordered := fun j k hjk hk => by
        dsimp only
        rw [hcell k hk, hcell j (hjk.trans hk)]
        exact hordered j k hjk hk }

end Row

section Insertion

variable [Zero D] (d : Distance D) {node insertNode : Int} {nodes : Slots Int} {count : Nat}

theorem insertNeighbors_keeps (h : ValidRow d.dist node nodes count) (hinsert : 0 ≤ insertNode)
    (hne : insertNode ≠ node) (hpos : 0 < nodes.size) (hnew : d.dist node insertNode = 0 →
      ∀ k, k + 1 < checkSize nodes → nodes.cell k ≠ insertNode) :
    ∃ nodes', insertNeighbors d.dist node insertNode (d.dist node insertNode) nodes = some nodes' ∧
      Keeps d.dist node insertNode nodes nodes' := by
  obtain ⟨s, hs, hends⟩ := insertNeighbors_spec insertNode h d.symm hpos
  refine ⟨s, hs, ?_⟩
  cases hends with
  | rejected => exact h.keeps_self
  | full => exact h.keeps_self
  | @placed _ p q shifted le le_count lt_check before behind =>
    refine Shifted.keeps shifted lt_check (h.shifted shifted le le_count lt_check hinsert hne
      (fun j hj => lt_of_le_of_ne (not_lt.mp (before j hj).1) fun heq => ?_) behind)
    have hcell : nodes.cell j = insertNode := congrArg BasicResult.vid heq
    have hclose := (before j hj).2
    rw [hcell, d.self, not_lt] at hclose
    exact hnew (hclose.antisymm (d.nonneg _ _)) j (by omega) hcell

/-- What keeps a row valid: no slot but the last one holds the node at distance zero already. -/
theorem insertNeighbors_keeps_iff (h : ValidRow d.dist node nodes count) (hinsert : 0 ≤ insertNode)
    (hne : insertNode ≠ node) :
    (∃ nodes', insertNeighbors d.dist node insertNode (d.dist node insertNode) nodes = some nodes' ∧
      Keeps d.dist node insertNode nodes nodes') ↔
    0 < nodes.size ∧ (d.dist node insertNode = 0 →
      ∀ k, k + 1 < checkSize nodes → nodes.cell k ≠ insertNode) := by
  constructor
  · rintro ⟨nodes', hrun, hkeeps⟩
    have hpos : 0 < nodes.size := by
      by_contra hzero
      rw [insertNeighbors, Slots.get, if_neg (by omega)] at hrun
      cases hrun
    obtain ⟨s, hs, hends⟩ := insertNeighbors_spec insertNode h d.symm hpos
    obtain rfl : s = nodes' := Option.some.inj (hs.symm.trans hrun)
    refine ⟨hpos, fun hzero k hk hcell => ?_⟩
    obtain ⟨count', hvalid⟩ := hkeeps.valid
    exact hends.not_valid h hinsert (fun a => hzero ▸ (d.nonneg a insertNode).not_gt)
      hk hcell hvalid
  · rintro ⟨hpos, hnew⟩
    exact insertNeighbors_keeps d h hinsert hne hpos hnew

theorem insertAll_valid (h : ValidRow d.dist node nodes count) (hpos : 0 < nodes.size)
    {inserts : List Int}
    (hinserts : ∀ x ∈ inserts, 0 ≤ x ∧ x ≠ node ∧ d.dist node x ≠ 0) :
    ∃ nodes' count', inserts.foldlM (fun nodes x =>
        insertNeighbors d.dist node x (d.dist node x) nodes) nodes = some nodes' ∧
      nodes'.size = nodes.size ∧ ValidRow d.dist node nodes' count' := by
  induction inserts generalizing nodes count with
  | nil => exact ⟨nodes, count, rfl, rfl, h⟩
  | cons x inserts ih =>
    obtain ⟨hx, hne, hfar⟩ := hinserts x List.mem_cons_self
    obtain ⟨s, hs, hkeeps⟩ := insertNeighbors_keeps d h hx hne hpos fun hzero => absurd hzero hfar
    obtain ⟨count', hvalid⟩ := hkeeps.valid
    obtain ⟨nodes', count'', hrun, hsize, hvalid'⟩ := ih hvalid (hkeeps.size.symm ▸ hpos)
      fun y hy => hinserts y (List.mem_cons_of_mem _ hy)
    refine ⟨nodes', count'', ?_, hsize.trans hkeeps.size, hvalid'⟩
    rw [List.foldlM_cons, hs]
    exact hrun

theorem rebuilt_valid [Mul D] (m_fRNGFactor : D) (nodes : Slots Int) (hpos : 0 < nodes.size)
    {rs : List (BasicResult D)} (hsorted : rs.Pairwise (· < ·))
    (hdist : ∀ r ∈ rs, r.dist = d.dist node r.vid) {inserts : List Int}
    (hinserts : ∀ x ∈ inserts, 0 ≤ x ∧ x ≠ node ∧ d.dist node x ≠ 0) :
    ∃ nodes' count, (do
        let nodes ← rebuildNeighbors d.dist m_fRNGFactor node nodes rs
        inserts.foldlM (fun nodes x => insertNeighbors d.dist node x (d.dist node x) nodes) nodes) =
          some nodes' ∧ nodes'.size = nodes.size ∧ ValidRow d.dist node nodes' count := by
  obtain ⟨rebuilt, count, hrebuilt, hsize, hvalid⟩ :=
    rebuildNeighbors_valid m_fRNGFactor nodes hsorted hdist
  obtain ⟨nodes', count', hrun, hsize', hvalid'⟩ :=
    insertAll_valid d hvalid (hsize.symm ▸ hpos) hinserts
  refine ⟨nodes', count', ?_, hsize'.trans hsize, hvalid'⟩
  rw [hrebuilt]
  exact hrun

end Insertion

def pairs : Distance Nat where
  dist a b := (a / 2 - b / 2).natAbs
  symm _ _ := by omega
  nonneg _ _ := Nat.zero_le _
  self _ := by simp

def row : Slots Int := ⟨2, fun k => if k = 0 then 1 else -1⟩

theorem row_valid : ValidRow pairs.dist 0 row 1 where
  count_le := by decide
  ids := by decide
  free k hk _ := if_neg (Nat.one_le_iff_ne_zero.mp hk)
  ordered _ _ hjk hk := absurd hjk (by omega)

theorem insertNeighbors_keeps_two : ∃ nodes',
    insertNeighbors pairs.dist 0 2 (pairs.dist 0 2) row = some nodes' ∧
      Keeps pairs.dist 0 2 row nodes' :=
  (insertNeighbors_keeps_iff pairs row_valid (by decide) (by decide)).mpr
    ⟨by decide, fun h => absurd h (by decide)⟩

theorem rebuilt_valid_four : ∃ nodes' count, (do
      let nodes ← rebuildNeighbors pairs.dist 1 0 row [⟨0, 0⟩, ⟨2, 1⟩, ⟨8, 4⟩]
      [6, 5].foldlM (fun nodes x => insertNeighbors pairs.dist 0 x (pairs.dist 0 x) nodes) nodes) =
        some nodes' ∧ nodes'.size = 2 ∧ ValidRow pairs.dist 0 nodes' count :=
  rebuilt_valid pairs 1 row (by decide) (by decide) (by decide) (by decide)

theorem not_keeps_one : ValidRow pairs.dist 0 row 1 ∧ ¬ ∃ nodes',
    insertNeighbors pairs.dist 0 1 (pairs.dist 0 1) row = some nodes' ∧
      Keeps pairs.dist 0 1 row nodes' := by
  refine ⟨row_valid, ?_⟩
  rintro ⟨nodes', hrun, hkeeps⟩
  obtain ⟨count, hvalid⟩ := hkeeps.valid
  have htwice : (insertNeighbors pairs.dist 0 1 (pairs.dist 0 1) row).map
      (fun nodes => (nodes.size, nodes.cell 0, nodes.cell 1)) = some (2, 1, 1) := by
    decide
  rw [hrun] at htwice
  obtain ⟨hsize, hzero, hone⟩ : nodes'.size = 2 ∧ nodes'.cell 0 = 1 ∧ nodes'.cell 1 = 1 := by
    simpa using htwice
  exact hvalid.cell_ne Nat.zero_lt_one (by omega) (by omega) (hzero.trans hone.symm)

end Sptag.COMMON.RelativeNeighborhoodGraph
