import Sptag.Common
import Sptag.Lib.Forest
import Sptag.Lib.Repeat
import Sptag.Lib.Segments

/-! `inc/Core/Common/BKTree.h`: how the samples are clustered until each cluster is small, with a
stack of the segments that are left. -/

namespace Sptag.COMMON

open Lib Slots

structure BKTNode where
  centerid : Int
  childStart : Int
  childEnd : Int

def BKTNode.new (cid : Int) : BKTNode := ⟨cid, -1, -1⟩

structure BKTStackItem where
  index : Nat
  first : Nat
  last : Nat

structure KmeansOutcome where
  localindices : Slots Nat
  counts : List Nat
  numClusters : Nat

structure BKTree where
  m_pTreeStart : List Nat
  m_pTreeRoots : Slots BKTNode
  m_pSampleCenterMap : Int → Option Int
  m_iTreeNumber : Int
  m_iBKTKmeansK : Int
  m_iBKTLeafSize : Int

namespace BKTree

structure Build where
  m_pTreeRoots : Slots BKTNode
  m_pSampleCenterMap : Int → Option Int
  localindices : Slots Nat

structure Args where
  indices : Option (List Nat)
  reverseIndices : Option (List Int)
  dynamicK : Bool
  kmeans : Int → Nat → Slots Nat → Nat → Nat → Int → KmeansOutcome
  shuffle : Int → Slots Nat → Slots Nat

section Source

def new (m_iTreeNumber m_iBKTKmeansK m_iBKTLeafSize : Int) : BKTree where
  m_pTreeStart := []
  m_pTreeRoots := ⟨0, fun _ => .new (-1)⟩
  m_pSampleCenterMap _ := none
  m_iTreeNumber
  m_iBKTKmeansK
  m_iBKTLeafSize

def Args.cid (args : Args) (id : Nat) : Option Int :=
  match args.reverseIndices with
  | none => some id
  | some reverseIndices => reverseIndices[id]?

def Args.localindices (args : Args) (R : Nat) : Slots Nat :=
  match args.indices with
  | none => ⟨R, fun i => i⟩
  | some indices => ⟨indices.length, (indices.getD · 0)⟩

def Build.emplace (s : Build) (cid : Int) : Build :=
  { s with m_pTreeRoots := s.m_pTreeRoots.push (.new cid) }

def Build.write (s : Build) (index : Nat) (f : BKTNode → BKTNode) : Option Build := do
  let node ← s.m_pTreeRoots.get index
  let roots ← s.m_pTreeRoots.set index (f node)
  return { s with m_pTreeRoots := roots }

variable (args : Args)

def Build.idAt (s : Build) (j : Nat) : Option Int := do
  let id ← s.localindices.get j
  args.cid id

def addLeaf (s : Build) (j : Nat) : Option Build := do
  let cid ← s.idAt args j
  return s.emplace cid

def addLeaves (s : Build) (first last : Nat) : Option Build :=
  (List.range' first (last - first)).foldlM (addLeaf args) s

def addMapped (center : Int) (s : Build) (j : Nat) : Option Build := do
  let cid ← s.idAt args j
  return { s.emplace cid with
    m_pSampleCenterMap := Function.update s.m_pSampleCenterMap cid (some center) }

/-- A segment that was not divided: the smallest id is the centre, and its own centre is one of
the others. -/
def collapse (s : Build) (index first last : Nat) : Option Build := do
  let stop := min (last + 1) s.localindices.size
  let s := { s with localindices := s.localindices.sort (· ≤ ·) first stop }
  let center ← s.idAt args first
  let s ← s.write index fun node =>
    { node with centerid := center, childStart := -node.childStart }
  let s ← (List.range' (first + 1) (stop - (first + 1))).foldlM (addMapped args center) s
  return { s with
    m_pSampleCenterMap := Function.update s.m_pSampleCenterMap (-1 - center) (some index) }

def divide : List Nat → Nat → List BKTStackItem → Build → Option (List BKTStackItem × Build)
  | [], _, ss, s => some (ss, s)
  | count :: counts, first, ss, s =>
    if count = 0 then divide counts first ss s
    else do
      let cid ← s.idAt args (first + count - 1)
      let s := s.emplace cid
      if 1 < count then do
        let index ← toIndex (s.m_pTreeRoots.size - 1)
        divide counts (first + count) (⟨index, first, first + count - 1⟩ :: ss) s
      else divide counts (first + count) ss s

def _DK (m_iBKTKmeansK m_iBKTLeafSize : Int) (item : BKTStackItem) : Option Int :=
  if args.dynamicK then
    if m_iBKTLeafSize = 0 then none
    else some (max (min (((item.last : Int) - item.first).tdiv m_iBKTLeafSize + 1) m_iBKTKmeansK) 2)
  else some m_iBKTKmeansK

def expand (m_iBKTKmeansK m_iBKTLeafSize i : Int) (item : BKTStackItem) (s : Build) :
    Option (List BKTStackItem × Build) :=
  if (item.last : Int) - item.first ≤ m_iBKTLeafSize then do
    let s ← addLeaves args s item.first item.last
    return ([], s)
  else do
    let dk ← _DK args m_iBKTKmeansK m_iBKTLeafSize item
    let outcome := args.kmeans i item.index s.localindices item.first item.last dk
    let s := { s with localindices := outcome.localindices }
    if outcome.numClusters ≤ 1 then do
      let s ← collapse args s item.index item.first item.last
      return ([], s)
    else divide args outcome.counts item.first [] s

def visit (m_iBKTKmeansK m_iBKTLeafSize i : Int) (item : BKTStackItem) (s : Build) :
    Option (List BKTStackItem × Build) := do
  let s ← s.write item.index fun node => { node with childStart := toInt s.m_pTreeRoots.size }
  let (ss, s) ← expand args m_iBKTKmeansK m_iBKTLeafSize i item s
  let s ← s.write item.index fun node => { node with childEnd := toInt s.m_pTreeRoots.size }
  return (ss, s)

def startAt (m_pTreeStart : List Nat) (i : Int) : Option Nat :=
  if i < 0 then none else m_pTreeStart[i.toNat]?

def buildTree (rounds : Nat) (i : Int) (t : BKTree) (localindices : Slots Nat) :
    Option (BKTree × Slots Nat) := do
  let localindices := args.shuffle i localindices
  let m_pTreeStart := t.m_pTreeStart ++ [← toIndex t.m_pTreeRoots.size]
  let roots := t.m_pTreeRoots.push (.new (toInt localindices.size))
  let start ← startAt m_pTreeStart i
  let s ← stackLoop (visit args t.m_iBKTKmeansK t.m_iBKTLeafSize i) rounds
    [⟨start, 0, localindices.size⟩] ⟨roots, t.m_pSampleCenterMap, localindices⟩
  let s := s.emplace (-1)
  return ({ t with
    m_pTreeStart := m_pTreeStart
    m_pTreeRoots := s.m_pTreeRoots
    m_pSampleCenterMap := s.m_pSampleCenterMap }, s.localindices)

def buildLoop (rounds : Nat) : Nat → Int → BKTree → Slots Nat → Option BKTree
  | 0, _, _, _ => none
  | turns + 1, i, t, localindices =>
    if i < t.m_iTreeNumber then do
      let (t, localindices) ← buildTree args rounds i t localindices
      buildLoop rounds turns (Int.bmod (i + 1) 256) t localindices
    else return t

/-- There is no abort; the order in which `DynamicFactorSelect` leaves the indices is part of the
first shuffle. -/
def buildTrees (rounds R : Nat) (t : BKTree) : Option BKTree :=
  buildLoop args rounds rounds 0 { t with m_pSampleCenterMap := fun _ => none }
    (args.localindices R)

end Source

def bounds (roots : Slots BKTNode) (k : Nat) : Nat × Nat :=
  ((roots.cell k).childStart.natAbs, (roots.cell k).childEnd.toNat)

def samples (roots : Slots BKTNode) (start : Nat) (nodes : List Nat) : List Int :=
  (if (roots.cell start).childStart < 0 then [(roots.cell start).centerid] else []) ++
    nodes.map fun k => (roots.cell k).centerid

/-- From each root every id of the range is reached once, and the children of a node are behind it
and its alone. -/
structure Covering (t : BKTree) (ids : List (Option Int)) : Prop where
  starts : t.m_pTreeStart.Pairwise (· < ·)
  reached : ∀ start ∈ t.m_pTreeStart, ∃ nodes,
    Reaches (bounds t.m_pTreeRoots) start (start + 1) (start :: nodes) ∧ (start :: nodes).Nodup ∧
      (∀ k ∈ start :: nodes, k < t.m_pTreeRoots.size) ∧
      ((samples t.m_pTreeRoots start nodes).map some).Perm ids
  after : ∀ k < t.m_pTreeRoots.size, ∀ c ∈ children (bounds t.m_pTreeRoots) k,
    k < c ∧ c < t.m_pTreeRoots.size
  disjoint : ∀ k < t.m_pTreeRoots.size, ∀ l < t.m_pTreeRoots.size, k ≠ l →
    (children (bounds t.m_pTreeRoots) k).Disjoint (children (bounds t.m_pTreeRoots) l)

structure Covers (t : BKTree) (ids : List (Option Int)) : Prop extends Covering t ids where
  trees : t.m_pTreeStart.length = t.m_iTreeNumber.toNat

structure Clusters (s : Slots Nat) (first last : Nat) (outcome : KmeansOutcome) : Prop where
  reordered : Reordered first last s outcome.localindices
  sum : 1 < outcome.numClusters → outcome.counts.sum = last - first

structure Args.Sound (args : Args) (R : Nat) : Prop where
  pos : 0 < (args.localindices R).size
  cid : ∀ k < (args.localindices R).size, (args.cid ((args.localindices R).cell k)).isSome
  kmeans : ∀ i index s first last dk, Clusters s first last (args.kmeans i index s first last dk)
  shuffle : ∀ i s, Reordered 0 s.size s (args.shuffle i s)

def name (args : Args) (id : Nat) : Int := (args.cid id).getD 0

def Named (args : Args) (localindices : Slots Nat) : Prop :=
  ∀ k < localindices.size, (args.cid (localindices.cell k)).isSome

variable {args : Args} {s s' s'' : Build} {localindices : Slots Nat} {roots roots' : Slots BKTNode}
  {item : BKTStackItem} {index first last n a b m : Nat} {counts : List Nat}

theorem Named.reordered {localindices' : Slots Nat} (h : Named args localindices)
    (hsame : Reordered first last localindices localindices') (hlast : last ≤ localindices.size) :
    Named args localindices' :=
  hsame.forall_cell (P := fun id => (args.cid id).isSome) hlast h

theorem Named.idAt (h : Named args s.localindices) {j : Nat} (hj : j < s.localindices.size) :
    s.idAt args j = some (name args (s.localindices.cell j)) := by
  obtain ⟨cid, hcid⟩ := Option.isSome_iff_exists.mp (h j hj)
  rw [Build.idAt, get_of_lt hj, Option.bind_eq_bind, Option.bind_some, name, hcid, Option.getD_some]

structure Written (s s' : Build) (index : Nat) (node : BKTNode) : Prop where
  localindices : s'.localindices = s.localindices
  m_pTreeRoots : s'.m_pTreeRoots = s.m_pTreeRoots.put index node

theorem Build.write_spec (h : index < s.m_pTreeRoots.size) (f : BKTNode → BKTNode) :
    ∃ s', s.write index f = some s' ∧ Written s s' index (f (s.m_pTreeRoots.cell index)) := by
  simp only [Build.write, get_of_lt h, set_of_lt h, Option.bind_eq_bind, Option.bind_some]
  exact ⟨_, rfl, rfl, rfl⟩

def news (args : Args) (ids : List Nat) : List BKTNode := ids.map fun id => .new (name args id)

structure Emplaced (args : Args) (s s' : Build) (id : Nat) : Prop where
  localindices : s'.localindices = s.localindices
  m_pTreeRoots : s'.m_pTreeRoots = s.m_pTreeRoots.push (.new (name args id))

structure Added (args : Args) (s s' : Build) (first last : Nat) : Prop where
  localindices : s'.localindices = s.localindices
  m_pTreeRoots : Extends s.m_pTreeRoots s'.m_pTreeRoots
    (news args (s.localindices.range first last))

theorem addLeaf_spec {j : Nat} (hs : Named args s.localindices) (hj : j < s.localindices.size) :
    ∃ s', addLeaf args s j = some s' ∧ Emplaced args s s' (s.localindices.cell j) := by
  rw [addLeaf, hs.idAt hj]
  exact ⟨_, rfl, rfl, rfl⟩

theorem addMapped_spec {j : Nat} (hs : Named args s.localindices) (hj : j < s.localindices.size)
    (center : Int) :
    ∃ s', addMapped args center s j = some s' ∧ Emplaced args s s' (s.localindices.cell j) := by
  rw [addMapped, hs.idAt hj]
  exact ⟨_, rfl, rfl, rfl⟩

theorem foldlM_added {f : Build → Nat → Option Build}
    (hf : ∀ s j, Named args s.localindices → j < s.localindices.size →
      ∃ s', f s j = some s' ∧ Emplaced args s s' (s.localindices.cell j))
    (hs : Named args s.localindices) (hn : first + n ≤ s.localindices.size) :
    ∃ s', (List.range' first n).foldlM f s = some s' ∧ Added args s s' first (first + n) := by
  induction n generalizing s first with
  | zero =>
    refine ⟨s, rfl, rfl, ?_⟩
    rw [Nat.add_zero, range_self]
    exact .refl _
  | succ n ih =>
    obtain ⟨s', hs', hsame, hpush⟩ := hf s first hs (by omega)
    obtain ⟨s'', hs'', hsame', hextends⟩ := @ih s' (first + 1) (hsame ▸ hs) (by rw [hsame]; omega)
    refine ⟨s'', ?_, hsame'.trans hsame, ?_⟩
    · rw [List.range'_succ, List.foldlM_cons, hs', Option.bind_eq_bind, Option.bind_some]
      exact hs''
    · rw [hpush, hsame, Nat.add_right_comm] at hextends
      rw [range_eq_cons (by omega)]
      exact (extends_push _).trans hextends

theorem addLeaves_spec (hs : Named args s.localindices) (hfirst : first ≤ last)
    (hlast : last ≤ s.localindices.size) :
    ∃ s', addLeaves args s first last = some s' ∧ Added args s s' first last := by
  obtain ⟨n, rfl⟩ := Nat.exists_eq_add_of_le hfirst
  rw [addLeaves, Nat.add_sub_cancel_left]
  exact foldlM_added (fun _ _ => addLeaf_spec) hs hlast

def collapseNode (cid : Int) (node : BKTNode) : BKTNode :=
  { node with centerid := cid, childStart := -node.childStart }

structure Collapsed (args : Args) (s s' : Build) (index first stop : Nat) : Prop where
  localindices : Reordered first stop s.localindices s'.localindices
  m_pTreeRoots : Extends
    (s.m_pTreeRoots.put index
      (collapseNode (name args (s'.localindices.cell first)) (s.m_pTreeRoots.cell index)))
    s'.m_pTreeRoots (news args (s'.localindices.range (first + 1) stop))

theorem collapse_spec (hs : Named args s.localindices) (hindex : index < s.m_pTreeRoots.size)
    (hfirst : first < last) (hlast : last ≤ s.localindices.size) :
    ∃ s', collapse args s index first last = some s' ∧
      Collapsed args s s' index first (min (last + 1) s.localindices.size) := by
  obtain ⟨stop, hstop⟩ : ∃ stop, stop = min (last + 1) s.localindices.size := ⟨_, rfl⟩
  obtain ⟨n, rfl⟩ := Nat.exists_eq_add_of_lt (show first < stop by omega)
  obtain ⟨sorted, hsorted⟩ : ∃ sorted : Build,
    sorted = { s with localindices := s.localindices.sort (· ≤ ·) first (first + n + 1) } :=
      ⟨_, rfl⟩
  have hsame : Reordered first (first + n + 1) s.localindices sorted.localindices :=
    hsorted ▸ reordered_sort ..
  have hroots : sorted.m_pTreeRoots = s.m_pTreeRoots := hsorted ▸ rfl
  have hnamed := hs.reordered hsame (by omega)
  have hsize := hsame.size
  obtain ⟨written, hwrite, hlocal, hwritten⟩ := Build.write_spec (hroots ▸ hindex)
    (collapseNode (name args (sorted.localindices.cell first)))
  obtain ⟨s', hs', hlocal', hextends⟩ := @foldlM_added args written (first + 1) n _
    (fun _ _ hs hj => addMapped_spec hs hj (name args (sorted.localindices.cell first)))
    (hlocal ▸ hnamed) (hlocal ▸ by omega)
  refine ⟨{ s' with
    m_pSampleCenterMap := Function.update s'.m_pSampleCenterMap
      (-1 - name args (sorted.localindices.cell first)) (some index) }, ?_, ?_, ?_⟩
  · unfold collapse
    simp only [← hstop, ← hsorted, Option.bind_eq_bind]
    rw [hnamed.idAt (by omega), Option.bind_some]
    unfold collapseNode at hwrite
    rw [hwrite, Option.bind_some, show first + n + 1 - (first + 1) = n by omega, hs']
    rfl
  · rw [hlocal', hlocal, ← hstop]
    exact hsame
  · rw [hlocal', hlocal, ← hstop, ← hroots, ← hwritten, Nat.add_right_comm]
    rwa [hlocal] at hextends

def centers (localindices : Slots Nat) : List Nat → Nat → List Nat
  | [], _ => []
  | count :: counts, first =>
    if count = 0 then centers localindices counts first
    else localindices.cell (first + count - 1) :: centers localindices counts (first + count)

theorem length_centers_le (localindices : Slots Nat) (counts : List Nat) (first : Nat) :
    (centers localindices counts first).length ≤ counts.sum := by
  induction counts generalizing first with
  | nil => exact le_rfl
  | cons count counts ih =>
    unfold centers
    rw [List.sum_cons]
    by_cases hcount : count = 0
    · rw [if_pos hcount]
      exact (ih first).trans (Nat.le_add_left _ _)
    · rw [if_neg hcount, List.length_cons]
      have hle := ih (first + count)
      omega

theorem length_centers_pos (localindices : Slots Nat) (first : Nat) (h : 0 < counts.sum) :
    0 < (centers localindices counts first).length := by
  induction counts generalizing first with
  | nil => exact absurd h (lt_irrefl 0)
  | cons count counts ih =>
    unfold centers
    by_cases hcount : count = 0
    · rw [if_pos hcount]
      exact ih first (by simpa [hcount] using h)
    · rw [if_neg hcount]
      exact Nat.succ_pos _

def segments : List Nat → Nat → Nat → List BKTStackItem
  | [], _, _ => []
  | count :: counts, a, first =>
    if count = 0 then segments counts a first
    else segments counts (a + 1) (first + count) ++
      if 1 < count then [⟨a, first, first + count - 1⟩] else []

theorem divide_spec (hs : Named args s.localindices) (ss : List BKTStackItem)
    (hsum : first + counts.sum ≤ s.localindices.size)
    (hroom : s.m_pTreeRoots.size + counts.sum < 2 ^ 31) :
    ∃ s', divide args counts first ss s =
        some (segments counts s.m_pTreeRoots.size first ++ ss, s') ∧
      s'.localindices = s.localindices ∧ Extends s.m_pTreeRoots s'.m_pTreeRoots
        (news args (centers s.localindices counts first)) := by
  induction counts generalizing s first ss with
  | nil => exact ⟨s, rfl, rfl, .refl _⟩
  | cons count counts ih =>
    rw [List.sum_cons] at hsum hroom
    unfold divide segments centers
    by_cases hcount : count = 0
    · simp only [if_pos hcount]
      exact ih hs ss (by omega) (by omega)
    · simp only [if_neg hcount, Option.bind_eq_bind]
      rw [hs.idAt (by omega), Option.bind_some]
      have hindex : toIndex ((s.emplace (name args (s.localindices.cell (first + count - 1)))
          ).m_pTreeRoots.size - 1) = some s.m_pTreeRoots.size :=
        toIndex_of_lt (show s.m_pTreeRoots.size < 2 ^ 31 by omega)
      obtain ⟨s', hs', hsame, hextends⟩ := @ih
        (s.emplace (name args (s.localindices.cell (first + count - 1)))) (first + count) hs
        (if 1 < count then ⟨s.m_pTreeRoots.size, first, first + count - 1⟩ :: ss else ss)
        (Nat.add_assoc .. ▸ hsum)
        (show s.m_pTreeRoots.size + 1 + counts.sum < 2 ^ 31 by omega)
      refine ⟨s', ?_, hsame, (extends_push _).trans hextends⟩
      rw [List.append_assoc]
      by_cases hone : 1 < count
      · simp only [if_pos hone] at hs' ⊢
        rw [hindex, Option.bind_some]
        exact hs'
      · simp only [if_neg hone] at hs' ⊢
        exact hs'

/-- What becomes of the node of a segment, the ids of its new children, and the segments that are
left to cluster. -/
inductive Expands (args : Args) (item : BKTStackItem) (size : Nat)
  (localindices localindices' : Slots Nat) :
    (BKTNode → BKTNode) → List Nat → List BKTStackItem → Prop
  | leaves (same : localindices' = localindices) :
      Expands args item size localindices localindices' id
        (localindices.range item.first item.last) []
  | collapsed (stop : Nat) (stop_eq : stop = min (item.last + 1) localindices.size)
      (reordered : Reordered item.first stop localindices localindices') :
      Expands args item size localindices localindices'
        (collapseNode (name args (localindices'.cell item.first)))
        (localindices'.range (item.first + 1) stop) []
  | divided (counts : List Nat) (sum : counts.sum = item.last - item.first)
      (reordered : Reordered item.first item.last localindices localindices') :
      Expands args item size localindices localindices' id
        (centers localindices' counts item.first) (segments counts size item.first)

theorem _DK_isSome (m_iBKTKmeansK m_iBKTLeafSize : Int) (item : BKTStackItem)
    (hleaf : args.dynamicK = true → m_iBKTLeafSize ≠ 0) :
    ∃ dk, _DK args m_iBKTKmeansK m_iBKTLeafSize item = some dk := by
  unfold _DK
  by_cases hdynamic : args.dynamicK = true
  · rw [if_pos hdynamic, if_neg (hleaf hdynamic)]
    exact ⟨_, rfl⟩
  · rw [if_neg hdynamic]
    exact ⟨_, rfl⟩

structure Ready (args : Args) (item : BKTStackItem) (s : Build) : Prop where
  named : Named args s.localindices
  index_lt : item.index < s.m_pTreeRoots.size
  first_lt : item.first < item.last
  last_le : item.last ≤ s.localindices.size
  room : s.m_pTreeRoots.size + (item.last - item.first) < 2 ^ 31

theorem Expands.length_le {f : BKTNode → BKTNode} {ids : List Nat} {ss : List BKTStackItem}
    {localindices localindices' : Slots Nat} {size : Nat}
    (h : Expands args item size localindices localindices' f ids ss) (hready : Ready args item s) :
    ids.length ≤ item.last - item.first := by
  have hfirst := hready.first_lt
  cases h with
  | leaves same => exact length_range.le
  | collapsed stop stop_eq reordered =>
    rw [length_range]
    omega
  | divided counts sum reordered => exact sum ▸ length_centers_le _ _ _

variable {m_iBKTKmeansK m_iBKTLeafSize i : Int}

theorem expand_spec (h : Ready args item s)
    (hkmeans : ∀ dk, Clusters s.localindices item.first item.last
      (args.kmeans i item.index s.localindices item.first item.last dk))
    (hleaf : args.dynamicK = true → m_iBKTLeafSize ≠ 0) :
    ∃ ss s' f ids, expand args m_iBKTKmeansK m_iBKTLeafSize i item s = some (ss, s') ∧
      Expands args item s.m_pTreeRoots.size s.localindices s'.localindices f ids ss ∧
      Extends (s.m_pTreeRoots.put item.index (f (s.m_pTreeRoots.cell item.index)))
        s'.m_pTreeRoots (news args ids) := by
  have hsame := put_cell s.m_pTreeRoots item.index
  unfold expand
  by_cases hsmall : (item.last : Int) - item.first ≤ m_iBKTLeafSize
  · rw [if_pos hsmall]
    obtain ⟨s', hs', hlocal, hroots⟩ := addLeaves_spec h.named h.first_lt.le h.last_le
    rw [hs']
    exact ⟨[], s', id, _, rfl, .leaves hlocal, hsame.symm ▸ hroots⟩
  · rw [if_neg hsmall]
    obtain ⟨dk, hdk⟩ := _DK_isSome m_iBKTKmeansK m_iBKTLeafSize item hleaf
    obtain ⟨outcome, houtcome⟩ : ∃ outcome,
      args.kmeans i item.index s.localindices item.first item.last dk = outcome := ⟨_, rfl⟩
    obtain ⟨hreordered, hsum⟩ := houtcome ▸ hkmeans dk
    have hnamed := h.named.reordered hreordered h.last_le
    have hlast : item.last ≤ outcome.localindices.size := hreordered.size ▸ h.last_le
    rw [hdk, Option.bind_eq_bind, Option.bind_some]
    simp only [houtcome]
    by_cases hone : outcome.numClusters ≤ 1
    · rw [if_pos hone]
      obtain ⟨s', hs', hlocal, hroots⟩ := @collapse_spec args
        { s with localindices := outcome.localindices } _ _ _ hnamed h.index_lt h.first_lt hlast
      rw [hs']
      refine ⟨[], s', _, _, rfl, .collapsed _ rfl ?_, hreordered.size ▸ hroots⟩
      rw [← hreordered.size]
      exact (hreordered.mono le_rfl h.first_lt.le (by omega)).trans hlocal
    · rw [if_neg hone]
      have hcounts := hsum (not_le.mp hone)
      obtain ⟨s', hs', hlocal, hroots⟩ := @divide_spec args
        { s with localindices := outcome.localindices } _ _ hnamed []
        (show item.first + outcome.counts.sum ≤ outcome.localindices.size by
          have := h.first_lt
          omega)
        (hcounts.symm ▸ h.room)
      rw [hs', List.append_nil]
      dsimp only at hlocal hroots
      rw [← hlocal] at hreordered hroots
      exact ⟨_, s', id, _, rfl, .divided _ hcounts hreordered, hsame.symm ▸ hroots⟩

structure Opened (roots roots' : Slots BKTNode) (index : Nat) (node : BKTNode)
    (nodes : List BKTNode) : Prop where
  size : roots'.size = roots.size + nodes.length
  frame : ∀ k < roots.size, k ≠ index → roots'.cell k = roots.cell k
  here : roots'.cell index = node
  behind : roots'.range roots.size roots'.size = nodes

theorem opened_of_extends {node : BKTNode} {nodes : List BKTNode}
    (h : Extends (roots.put index node) roots' nodes) (hindex : index < roots.size)
    (node' : BKTNode) :
    Opened roots (roots'.put index node') index node' nodes where
  size := h.size
  frame k hk hne := by
    rw [cell_put_of_ne hne, h.before k hk, cell_put_of_ne hne]
  here := cell_put
  behind := by
    rw [← h.behind]
    exact range_congr fun k hk _ => cell_put_of_ne (hindex.trans_le hk).ne'

def visited (f : BKTNode → BKTNode) (node : BKTNode) (a b : Nat) : BKTNode :=
  { f { node with childStart := a } with childEnd := b }

theorem visit_spec (h : Ready args item s)
    (hkmeans : ∀ dk, Clusters s.localindices item.first item.last
      (args.kmeans i item.index s.localindices item.first item.last dk))
    (hleaf : args.dynamicK = true → m_iBKTLeafSize ≠ 0) :
    ∃ ss s' f ids, visit args m_iBKTKmeansK m_iBKTLeafSize i item s = some (ss, s') ∧
      Expands args item s.m_pTreeRoots.size s.localindices s'.localindices f ids ss ∧
      Opened s.m_pTreeRoots s'.m_pTreeRoots item.index
        (visited f (s.m_pTreeRoots.cell item.index) s.m_pTreeRoots.size s'.m_pTreeRoots.size)
        (news args ids) := by
  obtain ⟨w, hw, hlocal, hroots⟩ := Build.write_spec h.index_lt fun node =>
    { node with childStart := s.m_pTreeRoots.size }
  have hsize : w.m_pTreeRoots.size = s.m_pTreeRoots.size := by rw [hroots, size_put]
  have hready : Ready args item w :=
    ⟨hlocal ▸ h.named, hsize ▸ h.index_lt, h.first_lt, hlocal ▸ h.last_le, hsize ▸ h.room⟩
  obtain ⟨ss, t, f, ids, ht, hexpands, hextends⟩ := expand_spec hready (hlocal ▸ hkmeans) hleaf
  have htindex : item.index < t.m_pTreeRoots.size := hready.index_lt.trans_le hextends.size_le
  have hroom := h.room
  have htsize : t.m_pTreeRoots.size < 2 ^ 31 := by
    have hlen := hextends.size
    have hids := hexpands.length_le hready
    rw [size_put, news, List.length_map] at hlen
    omega
  have hcell : t.m_pTreeRoots.cell item.index =
      f { s.m_pTreeRoots.cell item.index with childStart := s.m_pTreeRoots.size } := by
    rw [hextends.before _ hready.index_lt, cell_put, hroots, cell_put]
  obtain ⟨s', hs', hlocal', hroots'⟩ := Build.write_spec htindex fun node =>
    { node with childEnd := t.m_pTreeRoots.size }
  have hsize' : s'.m_pTreeRoots.size = t.m_pTreeRoots.size := by rw [hroots', size_put]
  refine ⟨ss, s', f, ids, ?_, ?_, ?_⟩
  · unfold visit
    rw [toInt_of_lt (Nat.lt_of_le_of_lt (Nat.le_add_right _ _) hroom), hw, Option.bind_eq_bind,
      Option.bind_some, ht, Option.bind_eq_bind, Option.bind_some]
    dsimp only
    rw [toInt_of_lt htsize, hs']
    rfl
  · rwa [hlocal', ← hlocal, ← hsize]
  · rw [hroots, put_put] at hextends
    rw [hsize', hroots', visited, ← hcell]
    exact opened_of_extends hextends h.index_lt _

def centerids (roots : Slots BKTNode) (nodes : List Nat) : List Int :=
  nodes.map fun k => (roots.cell k).centerid

theorem centerids_congr {nodes : List Nat} (h : ∀ k ∈ nodes, roots'.cell k = roots.cell k) :
    centerids roots' nodes = centerids roots nodes :=
  List.map_congr_left fun k hk => congrArg BKTNode.centerid (h k hk)

theorem bounds_congr {nodes : List Nat} (h : ∀ k ∈ nodes, roots'.cell k = roots.cell k) :
    ∀ k ∈ nodes, bounds roots' k = bounds roots k := fun k hk => by
  rw [bounds, bounds, h k hk]

theorem reaches_news {ids : List Nat} (h : roots.range a b = news args ids) :
    Reaches (bounds roots) a b (List.range' a (b - a)) ∧
      centerids roots (List.range' a (b - a)) = ids.map (name args) := by
  refine ⟨.leaves fun k hk hkb => ?_, ?_⟩
  · have hmem : roots.cell k ∈ news args ids := h ▸ mem_range.mpr ⟨k, hk, hkb, rfl⟩
    obtain ⟨id, -, hid⟩ := List.mem_map.mp hmem
    rw [bounds, ← hid]
    exact Nat.zero_le _
  · have hmap := congrArg (List.map BKTNode.centerid) h
    rw [range, news, List.map_map, List.map_map] at hmap
    exact hmap

structure Grown (args : Args) (s s' : Build) (a b first last : Nat) : Prop where
  localindices : Reordered first last s.localindices s'.localindices
  size_le : s.m_pTreeRoots.size ≤ s'.m_pTreeRoots.size
  frame : ∀ k < s.m_pTreeRoots.size, k < a ∨ b ≤ k →
    s'.m_pTreeRoots.cell k = s.m_pTreeRoots.cell k
  reached : ∃ nodes, Reaches (bounds s'.m_pTreeRoots) a b nodes ∧
    nodes.Perm (List.range' a (b - a) ++
      List.range' s.m_pTreeRoots.size (s'.m_pTreeRoots.size - s.m_pTreeRoots.size)) ∧
    (centerids s'.m_pTreeRoots nodes).Perm ((s'.localindices.range first last).map (name args))

namespace Grown

theorem size_eq (h : Grown args s s' a b first last) :
    b - a + (s'.m_pTreeRoots.size - s.m_pTreeRoots.size) = last - first := by
  obtain ⟨nodes, -, hperm, hcenters⟩ := h.reached
  have hnodes := hperm.length_eq
  have hids := hcenters.length_eq
  rw [List.length_append, List.length_range', List.length_range'] at hnodes
  rw [centerids, List.length_map, List.length_map, length_range] at hids
  omega

theorem empty (s : Build) (a first : Nat) : Grown args s s a a first first where
  localindices := .refl _
  size_le := le_rfl
  frame _ _ _ := rfl
  reached := ⟨[], .nil le_rfl, by simp, by rw [range_self]; exact .refl _⟩

theorem leaf {j : Nat} (h : s.m_pTreeRoots.cell a = .new (name args (s.localindices.cell j))) :
    Grown args s s a (a + 1) j (j + 1) where
  localindices := .refl _
  size_le := le_rfl
  frame _ _ _ := rfl
  reached := by
    have hrange : s.m_pTreeRoots.range a (a + 1) = news args [s.localindices.cell j] := by
      rw [range_one, h]
      rfl
    obtain ⟨hreaches, hcenters⟩ := reaches_news hrange
    refine ⟨_, hreaches, by simp, ?_⟩
    rw [hcenters, range_one]

theorem cons (h : Grown args s s' (a + 1) b m last) (h' : Grown args s' s'' a (a + 1) first m)
    (hab : a < b) (hb : b ≤ s.m_pTreeRoots.size) (hfirst : first ≤ m) (hlast : m ≤ last) :
    Grown args s s'' a b first last where
  localindices := (h.localindices.mono hfirst hlast le_rfl).trans
    (h'.localindices.mono le_rfl hfirst hlast)
  size_le := h.size_le.trans h'.size_le
  frame k hk hout := by
    rw [h'.frame k (hk.trans_le h.size_le) (by omega), h.frame k hk (by omega)]
  reached := by
    obtain ⟨nodes, hreaches, hperm, hcenters⟩ := h.reached
    obtain ⟨nodes', hreaches', hperm', hcenters'⟩ := h'.reached
    have hsize := h.size_le
    have hsize' := h'.size_le
    have hframe : ∀ k ∈ nodes, s''.m_pTreeRoots.cell k = s'.m_pTreeRoots.cell k := by
      intro k hk
      have hmem := hperm.mem_iff.mp hk
      rw [List.mem_append, List.mem_range'_1, List.mem_range'_1] at hmem
      exact h'.frame k (by omega) (by omega)
    refine ⟨nodes' ++ nodes, hreaches'.append (hreaches.congr (bounds_congr hframe))
      (Nat.le_succ a) hab, ?_, ?_⟩
    · rw [Nat.add_sub_cancel_left, List.range'_one] at hperm'
      rw [range'_sub_cons hab, ← range'_append_sub hsize hsize']
      refine (hperm'.append hperm).trans (.cons a ?_)
      exact List.perm_append_comm.trans (.of_eq (List.append_assoc ..))
    · rw [centerids, List.map_append, ← range_append hfirst hlast, List.map_append]
      refine hcenters'.append ?_
      have hsame := centerids_congr hframe
      rw [centerids] at hsame
      rw [hsame, h'.localindices.range_right le_rfl]
      exact hcenters

end Grown

structure Fits (args : Args) (item : BKTStackItem) (s : Build) :
    Prop extends Ready args item s where
  last_lt : item.last < s.localindices.size
  here : s.m_pTreeRoots.cell item.index = .new (name args (s.localindices.cell item.last))

def Finishes (args : Args) (visit : BKTStackItem → Build → Option (List BKTStackItem × Build))
    (item : BKTStackItem) (s : Build) : Prop :=
  ∃ k s', k ≤ item.last - item.first ∧ Completes visit k [item] s s' ∧
    Grown args s s' item.index (item.index + 1) item.first (item.last + 1)

theorem completes_segments {visit : BKTStackItem → Build → Option (List BKTStackItem × Build)}
    {length : Nat}
    (ih : ∀ item s, item.last - item.first < length → Fits args item s → Finishes args visit item s)
    (hs : Named args s.localindices) (hlength : counts.sum ≤ length)
    (hlast : first + counts.sum ≤ s.localindices.size) (hb : b ≤ s.m_pTreeRoots.size)
    (hnew : s.m_pTreeRoots.range a b = news args (centers s.localindices counts first))
    (hab : a + (centers s.localindices counts first).length = b)
    (hroom : s.m_pTreeRoots.size + (counts.sum - (b - a)) < 2 ^ 31) :
    ∃ k s', k + (b - a) ≤ counts.sum ∧ Completes visit k (segments counts a first) s s' ∧
      Grown args s s' a b first (first + counts.sum) := by
  induction counts generalizing a first with
  | nil =>
    obtain rfl : a = b := hab
    exact ⟨0, s, by simp, .nil s, .empty s a first⟩
  | cons count counts ihcounts =>
    rw [List.sum_cons] at hlength hlast hroom ⊢
    unfold segments
    unfold centers at hnew hab
    by_cases hcount : count = 0
    · subst hcount
      rw [if_pos rfl] at hnew hab ⊢
      rw [Nat.zero_add] at hlength hlast hroom ⊢
      exact ihcounts hlength hlast hnew hab hroom
    · rw [if_neg hcount] at hnew hab ⊢
      rw [List.length_cons] at hab
      rw [range_eq_cons (by omega)] at hnew
      obtain ⟨hhere, hbehind⟩ := List.cons.inj hnew
      obtain ⟨k, s', hk, hcompletes, hgrown⟩ :=
        @ihcounts (first + count) (a + 1) (by omega) (by omega) hbehind (by omega) (by omega)
      rw [Nat.add_assoc] at hgrown
      have hcount_le := length_centers_le s.localindices counts (first + count)
      have hadded := hgrown.size_eq
      have hcell : s'.localindices.cell (first + count - 1) =
        s.localindices.cell (first + count - 1) :=
        hgrown.localindices.outside _ (.inl (by omega))
      have hnode := (hgrown.frame a (by omega) (.inl (Nat.lt_succ_self a))).trans hhere
      have hsize := hgrown.localindices.size
      have hroots := hgrown.size_le
      rw [← hcell] at hnode
      by_cases hone : 1 < count
      · rw [if_pos hone]
        obtain ⟨l, s'', hl, hcompletes', hgrown'⟩ := ih ⟨a, first, first + count - 1⟩ s'
          (show first + count - 1 - first < length by omega)
          { named := hs.reordered hgrown.localindices hlast
            index_lt := show a < s'.m_pTreeRoots.size by omega
            first_lt := show first < first + count - 1 by omega
            last_le := show first + count - 1 ≤ s'.localindices.size by omega
            room := show s'.m_pTreeRoots.size + (first + count - 1 - first) < 2 ^ 31 by omega
            last_lt := show first + count - 1 < s'.localindices.size by omega
            here := hnode }
        dsimp only at hl hgrown'
        rw [Nat.sub_add_cancel (by omega)] at hgrown'
        exact ⟨k + l, s'', by omega, hcompletes.append hcompletes',
          hgrown.cons hgrown' (by omega) hb (Nat.le_add_right ..) (by omega)⟩
      · rw [if_neg hone, List.append_nil]
        have hleaf := Grown.leaf hnode
        rw [Nat.sub_add_cancel (by omega), show first + count - 1 = first by omega] at hleaf
        exact ⟨k, s', by omega, hcompletes,
          hgrown.cons hleaf (by omega) hb (Nat.le_add_right ..) (by omega)⟩

/-- A segment that was divided keeps its centre apart; one that was not has it among the others. -/
inductive Holds (args : Args) (node node' : BKTNode) (ids : List Int)
  (localindices localindices' : Slots Nat)
    (first last : Nat) : Prop
  | divided (nonneg : 0 ≤ node'.childStart) (centerid : node'.centerid = node.centerid)
      (reordered : Reordered first last localindices localindices')
      (perm : ids.Perm ((localindices'.range first last).map (name args)))
  | collapsed (neg : node'.childStart < 0)
      (reordered : Reordered first (min (last + 1) localindices.size) localindices localindices')
      (perm : (node'.centerid :: ids).Perm
        ((localindices'.range first (min (last + 1) localindices.size)).map (name args)))

structure Covered (args : Args) (item : BKTStackItem) (s s' : Build) : Prop where
  size_le : s.m_pTreeRoots.size ≤ s'.m_pTreeRoots.size
  frame : ∀ k < s.m_pTreeRoots.size, k ≠ item.index →
    s'.m_pTreeRoots.cell k = s.m_pTreeRoots.cell k
  bounds_fst : (bounds s'.m_pTreeRoots item.index).1 = s.m_pTreeRoots.size
  below : ∃ nodes,
    Reaches (bounds s'.m_pTreeRoots) s.m_pTreeRoots.size
      (bounds s'.m_pTreeRoots item.index).2 nodes ∧
    nodes.Perm (List.range' s.m_pTreeRoots.size (s'.m_pTreeRoots.size - s.m_pTreeRoots.size)) ∧
    Holds args (s.m_pTreeRoots.cell item.index) (s'.m_pTreeRoots.cell item.index)
      (centerids s'.m_pTreeRoots nodes) s.localindices s'.localindices item.first item.last

theorem visit_covers
    (ih : ∀ item' s', item'.last - item'.first < item.last - item.first → Fits args item' s' →
      Finishes args (visit args m_iBKTKmeansK m_iBKTLeafSize i) item' s')
    (h : Ready args item s)
    (hkmeans : ∀ dk, Clusters s.localindices item.first item.last
      (args.kmeans i item.index s.localindices item.first item.last dk))
    (hleaf : args.dynamicK = true → m_iBKTLeafSize ≠ 0) :
    ∃ k s', k ≤ item.last - item.first ∧
      Completes (visit args m_iBKTKmeansK m_iBKTLeafSize i) k [item] s s' ∧
      Covered args item s s' := by
  obtain ⟨ss, s', f, ids, hvisit, hexpands, hopened⟩ := visit_spec h hkmeans hleaf
  have hfirst := h.first_lt
  have hpos : 0 < s.m_pTreeRoots.size := (Nat.zero_le _).trans_lt h.index_lt
  have hsize : s.m_pTreeRoots.size ≤ s'.m_pTreeRoots.size := hopened.size ▸ Nat.le_add_right ..
  have hsnd : ∀ f node, (visited f node s.m_pTreeRoots.size s'.m_pTreeRoots.size).childEnd.toNat =
      s'.m_pTreeRoots.size := fun _ _ => Int.toNat_natCast _
  obtain ⟨hreaches, hcenters⟩ := reaches_news hopened.behind
  cases hexpands with
  | leaves same =>
    refine ⟨1, s', by omega, .of_visit hvisit (.nil s'), hsize, hopened.frame, ?_, _, ?_, .refl _,
      .divided ?_ ?_ ?_ ?_⟩
    · rw [bounds, hopened.here]
      rfl
    · rw [bounds, hopened.here, hsnd]
      exact hreaches
    · rw [hopened.here]
      exact Int.natCast_nonneg _
    · rw [hopened.here]
      rfl
    · rw [same]
      exact .refl _
    · rw [hcenters, same]
  | collapsed stop stop_eq reordered =>
    refine ⟨1, s', by omega, .of_visit hvisit (.nil s'), hsize, hopened.frame, ?_, _, ?_, .refl _,
      .collapsed ?_ ?_ ?_⟩
    · rw [bounds, hopened.here]
      exact Int.natAbs_neg _
    · rw [bounds, hopened.here, hsnd]
      exact hreaches
    · rw [hopened.here]
      exact Int.neg_neg_of_pos (Int.natCast_pos.mpr hpos)
    · rwa [← stop_eq]
    · have hlast := h.last_le
      rw [hcenters, hopened.here, ← stop_eq, range_eq_cons (show item.first < stop by omega)]
      exact .refl _
  | divided counts sum reordered =>
    have hnamed := h.named.reordered reordered h.last_le
    have hlast : item.first + counts.sum = item.last := by omega
    have hlen : s.m_pTreeRoots.size + (centers s'.localindices counts item.first).length =
        s'.m_pTreeRoots.size := by
      rw [hopened.size, news, List.length_map]
    have hroom := h.room
    obtain ⟨k, s'', hk, hcompletes, hgrown⟩ := completes_segments ih hnamed sum.le
      (by rw [hlast, reordered.size]; exact h.last_le) le_rfl hopened.behind hlen
      (by have := length_centers_le s'.localindices counts item.first; omega)
    rw [hlast] at hgrown
    have hcell := hgrown.frame item.index (h.index_lt.trans_le hsize) (.inl h.index_lt)
    obtain ⟨nodes, hreaches, hperm, hcenters⟩ := hgrown.reached
    have hsize' := hgrown.size_le
    have hsome := length_centers_pos s'.localindices item.first (show 0 < counts.sum by omega)
    refine ⟨k + 1, s'', by omega, .of_visit hvisit hcompletes, hsize.trans hsize',
      fun l hl hne => ?_, ?_, nodes, ?_, ?_, .divided ?_ ?_ ?_ ?_⟩
    · rw [hgrown.frame l (hl.trans_le hsize) (.inl hl), hopened.frame l hl hne]
    · rw [bounds, hcell, hopened.here]
      rfl
    · rw [bounds, hcell, hopened.here, hsnd]
      exact hreaches
    · rwa [range'_append_sub hsize hsize'] at hperm
    · rw [hcell, hopened.here]
      exact Int.natCast_nonneg _
    · rw [hcell, hopened.here]
      rfl
    · exact reordered.trans hgrown.localindices
    · exact hcenters

theorem Covered.reaches (h : Covered args item s s') (hindex : item.index < s.m_pTreeRoots.size) :
    ∃ nodes, Reaches (bounds s'.m_pTreeRoots) item.index (item.index + 1) (item.index :: nodes) ∧
      nodes.Perm (List.range' s.m_pTreeRoots.size (s'.m_pTreeRoots.size - s.m_pTreeRoots.size)) ∧
      Holds args (s.m_pTreeRoots.cell item.index) (s'.m_pTreeRoots.cell item.index)
        (centerids s'.m_pTreeRoots nodes) s.localindices s'.localindices item.first item.last := by
  obtain ⟨nodes, hreaches, hperm, hholds⟩ := h.below
  refine ⟨nodes, .one (fun c hc => ?_) (by rwa [h.bounds_fst]), hperm, hholds⟩
  rw [children, h.bounds_fst, List.mem_range'_1] at hc
  exact hindex.trans_le hc.1

theorem Fits.grown (h : Fits args item s) (hcovered : Covered args item s s') :
    Grown args s s' item.index (item.index + 1) item.first (item.last + 1) := by
  have hfirst := h.first_lt
  have hlast := h.last_lt
  obtain ⟨nodes, hreaches, hperm, hholds⟩ := hcovered.reaches h.index_lt
  have hframe : ∀ k < s.m_pTreeRoots.size, k < item.index ∨ item.index + 1 ≤ k →
      s'.m_pTreeRoots.cell k = s.m_pTreeRoots.cell k := fun k hk hout =>
    hcovered.frame k hk (by omega)
  have hnodes : (item.index :: nodes).Perm (List.range' item.index (item.index + 1 - item.index) ++
      List.range' s.m_pTreeRoots.size (s'.m_pTreeRoots.size - s.m_pTreeRoots.size)) := by
    rw [Nat.add_sub_cancel_left, List.range'_one]
    exact hperm.cons item.index
  cases hholds with
  | divided nonneg centerid reordered perm =>
    refine ⟨reordered.mono le_rfl hfirst.le (Nat.le_succ _), hcovered.size_le, hframe, _, hreaches,
      hnodes, ?_⟩
    have hcell : s'.localindices.cell item.last = s.localindices.cell item.last :=
      reordered.outside _ (.inr le_rfl)
    rw [h.here] at centerid
    rw [range_eq_concat hfirst.le, hcell, List.map_append, centerids, List.map_cons, centerid]
    exact (perm.cons _).trans (List.perm_append_singleton _ _).symm
  | collapsed neg reordered perm =>
    rw [Nat.min_eq_left (Nat.succ_le_of_lt hlast)] at reordered perm
    exact ⟨reordered, hcovered.size_le, hframe, _, hreaches, hnodes, perm⟩

theorem finishes (hkmeans : ∀ index s first last dk,
      Clusters s first last (args.kmeans i index s first last dk))
    (hleaf : args.dynamicK = true → m_iBKTLeafSize ≠ 0) (item : BKTStackItem) (s : Build)
    (h : Fits args item s) : Finishes args (visit args m_iBKTKmeansK m_iBKTLeafSize i) item s := by
  obtain ⟨n, hn⟩ : ∃ n, item.last - item.first = n := ⟨_, rfl⟩
  induction n using Nat.strong_induction_on generalizing item s with
  | _ n ih =>
    obtain ⟨k, s', hk, hcompletes, hcovered⟩ := visit_covers
      (fun item' s' hlt hfits => ih _ (hn ▸ hlt) item' s' hfits rfl) h.toReady
      (fun dk => hkmeans item.index s.localindices item.first item.last dk) hleaf
    exact ⟨k, s', hk, hcompletes, h.grown hcovered⟩

structure Planted (t t' : BKTree) (ids : List (Option Int)) : Prop where
  m_iTreeNumber : t'.m_iTreeNumber = t.m_iTreeNumber
  m_iBKTLeafSize : t'.m_iBKTLeafSize = t.m_iBKTLeafSize
  m_pTreeStart : t'.m_pTreeStart = t.m_pTreeStart ++ [t.m_pTreeRoots.size]
  frame : ∀ k < t.m_pTreeRoots.size, t'.m_pTreeRoots.cell k = t.m_pTreeRoots.cell k
  reached : ∃ nodes stop, t'.m_pTreeRoots.size = stop + 1 ∧ t.m_pTreeRoots.size < stop ∧
    t'.m_pTreeRoots.cell stop = .new (-1) ∧
    Reaches (bounds t'.m_pTreeRoots) t.m_pTreeRoots.size (t.m_pTreeRoots.size + 1)
      (t.m_pTreeRoots.size :: nodes) ∧
    (t.m_pTreeRoots.size :: nodes).Perm
      (List.range' t.m_pTreeRoots.size (stop - t.m_pTreeRoots.size)) ∧
    ((samples t'.m_pTreeRoots t.m_pTreeRoots.size nodes).map some).Perm ids

theorem Planted.size_le {t t' : BKTree} {ids : List (Option Int)} (h : Planted t t' ids) :
    t'.m_pTreeRoots.size ≤ t.m_pTreeRoots.size + (ids.length + 2) := by
  obtain ⟨nodes, stop, hsize, -, -, -, hnodes, hids⟩ := h.reached
  have hstop := hnodes.length_eq
  have hlen := hids.length_eq
  rw [List.length_cons, List.length_range'] at hstop
  rw [List.length_map, samples, List.length_append, List.length_map] at hlen
  omega

theorem children_congr {k : Nat} (h : roots'.cell k = roots.cell k) :
    children (bounds roots') k = children (bounds roots) k := by
  rw [children, children, bounds, bounds, h]

theorem children_new {k : Nat} {cid : Int} (h : roots.cell k = .new cid) :
    children (bounds roots) k = [] := by
  rw [children, bounds, h]
  rfl

theorem samples_congr {start : Nat} {nodes : List Nat}
    (h : ∀ k ∈ start :: nodes, roots'.cell k = roots.cell k) :
    samples roots' start nodes = samples roots start nodes := by
  have hnodes := centerids_congr fun k hk => h k (List.mem_cons_of_mem start hk)
  rw [centerids, centerids] at hnodes
  rw [samples, samples, h start List.mem_cons_self, hnodes]

theorem Covering.plant {t t' : BKTree} {ids : List (Option Int)} (h : Covering t ids)
    (ht : Planted t t' ids) : Covering t' ids := by
  obtain ⟨nodes, stop, hsize, hstop, hlast, hreaches, hperm, hsamples⟩ := ht.reached
  have hmem : ∀ k, k ∈ t.m_pTreeRoots.size :: nodes ↔ t.m_pTreeRoots.size ≤ k ∧ k < stop := by
    intro k
    rw [hperm.mem_iff, List.mem_range'_1]
    omega
  have hnodup := hperm.nodup_iff.mpr List.nodup_range'
  have hafter : ∀ k < t'.m_pTreeRoots.size, ∀ c ∈ children (bounds t'.m_pTreeRoots) k,
      k < c ∧ c < stop ∧ (k < t.m_pTreeRoots.size → c < t.m_pTreeRoots.size) := by
    intro k hk c hc
    rcases lt_trichotomy k stop with hks | rfl | hks
    · by_cases hold : k < t.m_pTreeRoots.size
      · rw [children_congr (ht.frame k hold)] at hc
        obtain ⟨hkc, hct⟩ := h.after k hold c hc
        exact ⟨hkc, hct.trans hstop, fun _ => hct⟩
      · obtain ⟨hkc, hcmem⟩ := hreaches.after_mem ((hmem k).mpr ⟨not_lt.mp hold, hks⟩) hc
        exact ⟨hkc, ((hmem c).mp hcmem).2, fun h => absurd h hold⟩
    · rw [children_new hlast] at hc
      exact absurd hc List.not_mem_nil
    · omega
  have hdisjoint : ∀ k < t'.m_pTreeRoots.size, ∀ l < t'.m_pTreeRoots.size, k < l →
      (children (bounds t'.m_pTreeRoots) k).Disjoint (children (bounds t'.m_pTreeRoots) l) := by
    intro k hk l hl hkl c hck hcl
    obtain ⟨-, -, hck'⟩ := hafter k hk c hck
    obtain ⟨hlc, -, -⟩ := hafter l hl c hcl
    by_cases hls : l < stop
    · by_cases hlold : l < t.m_pTreeRoots.size
      · rw [children_congr (ht.frame k (hkl.trans hlold))] at hck
        rw [children_congr (ht.frame l hlold)] at hcl
        exact h.disjoint k (hkl.trans hlold) l hlold hkl.ne hck hcl
      · by_cases hkold : k < t.m_pTreeRoots.size
        · have := hck' hkold
          omega
        · exact hreaches.disjoint hnodup ((hmem k).mpr ⟨not_lt.mp hkold, hkl.trans hls⟩)
            ((hmem l).mpr ⟨not_lt.mp hlold, hls⟩) hkl.ne hck hcl
    · obtain rfl : l = stop := by omega
      rw [children_new hlast] at hcl
      exact List.not_mem_nil hcl
  refine ⟨?_, fun start hstart => ?_, fun k hk c hc => ?_, fun k hk l hl hkl => ?_⟩
  · rw [ht.m_pTreeStart, List.pairwise_append]
    refine ⟨h.starts, List.pairwise_singleton .., fun start hstart l hl => ?_⟩
    obtain ⟨_, _, _, hlt, _⟩ := h.reached start hstart
    rw [List.mem_singleton.mp hl]
    exact hlt start List.mem_cons_self
  · rw [ht.m_pTreeStart, List.mem_append, List.mem_singleton] at hstart
    rcases hstart with hstart | rfl
    · obtain ⟨nodes', hreaches', hnodup', hlt, hsamples'⟩ := h.reached start hstart
      have hframe : ∀ k ∈ start :: nodes', t'.m_pTreeRoots.cell k = t.m_pTreeRoots.cell k :=
        fun k hk => ht.frame k (hlt k hk)
      refine ⟨nodes', hreaches'.congr (bounds_congr hframe), hnodup', fun k hk => ?_, ?_⟩
      · exact ((hlt k hk).trans hstop).trans (hsize ▸ Nat.lt_succ_self stop)
      · rwa [samples_congr hframe]
    · exact ⟨nodes, hreaches, hnodup, fun k hk => by
        rw [hsize]; exact Nat.lt_succ_of_lt ((hmem k).mp hk).2, hsamples⟩
  · obtain ⟨hkc, hcs, -⟩ := hafter k hk c hc
    exact ⟨hkc, hsize ▸ Nat.lt_succ_of_lt hcs⟩
  · rcases lt_or_gt_of_ne hkl with hlt | hlt
    · exact hdisjoint k hk l hl hlt
    · exact (hdisjoint l hl k hk hlt).symm

theorem Args.Sound.named {R : Nat} (h : args.Sound R) : Named args (args.localindices R) := h.cid

theorem map_name (hs : Named args localindices) (hn : n ≤ localindices.size) :
    ((localindices.range 0 n).map (name args)).map some =
    (localindices.range 0 n).map args.cid := by
  rw [List.map_map]
  refine List.map_congr_left fun id hid => ?_
  obtain ⟨k, -, hk, rfl⟩ := mem_range.mp hid
  obtain ⟨cid, hcid⟩ := Option.isSome_iff_exists.mp (hs k (hk.trans_le hn))
  rw [Function.comp_apply, name, hcid, Option.getD_some]

theorem Holds.samples {node : BKTNode} {start : Nat} {nodes : List Nat}
    (h : Holds args node (roots.cell start) (centerids roots nodes) localindices s.localindices 0
      localindices.size) (hs : Named args localindices) :
    ((samples roots start nodes).map some).Perm
        ((localindices.range 0 localindices.size).map args.cid) ∧
      Reordered 0 localindices.size localindices s.localindices := by
  have hids : ∀ hreordered : Reordered 0 localindices.size localindices s.localindices,
      (((s.localindices.range 0 localindices.size).map (name args)).map some).Perm
        ((localindices.range 0 localindices.size).map args.cid) := by
    intro hreordered
    rw [map_name (hs.reordered hreordered le_rfl) hreordered.size.ge]
    exact hreordered.perm.map _
  rw [BKTree.samples]
  cases h with
  | divided nonneg centerid reordered perm =>
    rw [if_neg (not_lt.mpr nonneg), List.nil_append]
    exact ⟨(perm.map some).trans (hids reordered), reordered⟩
  | collapsed neg reordered perm =>
    rw [Nat.min_eq_right (Nat.le_succ _)] at reordered perm
    rw [if_pos neg, List.singleton_append]
    exact ⟨(perm.map some).trans (hids reordered), reordered⟩

theorem startAt_last {starts : List Nat} {start : Nat} (hi : (starts.length : Int) = i) :
    startAt (starts ++ [start]) i = some start := by
  rw [startAt, if_neg (by omega), ← hi, Int.toNat_natCast, List.getElem?_concat_length]

theorem buildTree_spec {t : BKTree} {rounds : Nat}
    (hkmeans : ∀ index s first last dk,
      Clusters s first last (args.kmeans i index s first last dk))
    (hshuffle : Reordered 0 localindices.size localindices (args.shuffle i localindices))
    (hleaf : args.dynamicK = true → t.m_iBKTLeafSize ≠ 0) (hs : Named args localindices)
    (hpos : 0 < localindices.size) (hi : (t.m_pTreeStart.length : Int) = i)
    (hrounds : localindices.size < rounds)
    (hroom : t.m_pTreeRoots.size + (localindices.size + 2) ≤ 2 ^ 31) :
    ∃ t' localindices', buildTree args rounds i t localindices = some (t', localindices') ∧
      Reordered 0 localindices.size localindices localindices' ∧
      Planted t t' ((localindices.range 0 localindices.size).map args.cid) := by
  obtain ⟨shuffled, hshuffled⟩ : ∃ shuffled, args.shuffle i localindices = shuffled := ⟨_, rfl⟩
  rw [hshuffled] at hshuffle
  have hsize := hshuffle.size
  obtain ⟨start, hstart⟩ : ∃ start, t.m_pTreeRoots.size = start := ⟨_, rfl⟩
  obtain ⟨s, hsdef⟩ : ∃ s : Build,
    s = ⟨t.m_pTreeRoots.push (.new (toInt shuffled.size)), t.m_pSampleCenterMap, shuffled⟩ :=
      ⟨_, rfl⟩
  have hroots : s.m_pTreeRoots.size = start + 1 := by
    rw [hsdef, ← hstart, size_push]
  have hlocal : s.localindices = shuffled := hsdef ▸ rfl
  have hnamed := hs.reordered hshuffle le_rfl
  have hready : Ready args ⟨start, 0, shuffled.size⟩ s :=
    ⟨hlocal ▸ hnamed, hroots ▸ Nat.lt_succ_self _, hsize ▸ hpos, hlocal ▸ le_rfl,
      show s.m_pTreeRoots.size + (shuffled.size - 0) < 2 ^ 31 by omega⟩
  have hrun : ∃ k s', k ≤ shuffled.size ∧
      Completes (visit args t.m_iBKTKmeansK t.m_iBKTLeafSize i) k [⟨start, 0, shuffled.size⟩] s s' ∧
      Covered args ⟨start, 0, shuffled.size⟩ s s' :=
    visit_covers (fun item' s' _ hfits => finishes hkmeans hleaf item' s' hfits) hready
      (fun dk => hkmeans start s.localindices 0 shuffled.size dk) hleaf
  obtain ⟨k, s', hk, hcompletes, hcovered⟩ := hrun
  have hloop := hcompletes.stackLoop_eq (show k < rounds by omega)
  obtain ⟨nodes, hreaches, hperm, hholds⟩ := hcovered.reaches hready.index_lt
  have hstop : start + 1 ≤ s'.m_pTreeRoots.size := hroots ▸ hcovered.size_le
  rw [hlocal] at hholds
  obtain ⟨hsamples, hreordered⟩ := hholds.samples hnamed
  rw [hroots] at hperm
  have hnodes : (start :: nodes).Perm (List.range' start (s'.m_pTreeRoots.size - start)) := by
    rw [range'_sub_cons hstop]
    exact hperm.cons start
  have hframe : ∀ k ∈ start :: nodes,
      (s'.m_pTreeRoots.push (.new (-1))).cell k = s'.m_pTreeRoots.cell k := by
    intro k hk
    have hmem := hnodes.mem_iff.mp hk
    rw [List.mem_range'_1] at hmem
    exact cell_push_of_lt (by omega)
  refine ⟨{ t with
    m_pTreeStart := t.m_pTreeStart ++ [t.m_pTreeRoots.size]
    m_pTreeRoots := s'.m_pTreeRoots.push (.new (-1))
    m_pSampleCenterMap := s'.m_pSampleCenterMap }, s'.localindices, ?_,
    hshuffle.trans (hsize ▸ hreordered), rfl, rfl, rfl, fun k hk => ?_, nodes,
    s'.m_pTreeRoots.size, rfl, hstart ▸ hstop, cell_push, ?_, ?_, ?_⟩
  · unfold buildTree
    have hindex : toIndex start = some start := toIndex_of_lt (by omega)
    simp only [hshuffled, hstart, hindex, startAt_last hi, Option.bind_eq_bind, Option.bind_some,
      ← hsdef, hloop]
    rfl
  · dsimp only
    rw [cell_push_of_lt (by omega), hcovered.frame k (by omega) (by dsimp only; omega), hsdef]
    exact cell_push_of_lt hk
  · rw [hstart]
    exact hreaches.congr (bounds_congr hframe)
  · rwa [hstart]
  · rw [hstart, samples_congr hframe]
    refine hsamples.trans ?_
    rw [hsize]
    exact hshuffle.perm.map _

theorem buildLoop_spec {turns rounds : Nat} {t : BKTree} {ids : List (Option Int)}
    (hkmeans : ∀ i index s first last dk,
      Clusters s first last (args.kmeans i index s first last dk))
    (hshuffle : ∀ i s, Reordered 0 s.size s (args.shuffle i s))
    (hleaf : args.dynamicK = true → t.m_iBKTLeafSize ≠ 0) (hs : Named args localindices)
    (hpos : 0 < localindices.size) (hrounds : localindices.size < rounds)
    (hids : ((localindices.range 0 localindices.size).map args.cid).Perm ids)
    (hchar : t.m_iTreeNumber ≤ 127) (hi : (t.m_pTreeStart.length : Int) = i)
    (hle : t.m_pTreeStart.length ≤ t.m_iTreeNumber.toNat)
    (hturns : t.m_iTreeNumber.toNat < t.m_pTreeStart.length + turns)
    (hroom : t.m_pTreeRoots.size +
      (t.m_iTreeNumber.toNat - t.m_pTreeStart.length) * (localindices.size + 2) ≤ 2 ^ 31)
    (h : Covering t ids) :
    ∃ t', buildLoop args rounds turns i t localindices = some t' ∧ Covers t' ids := by
  induction turns generalizing i t localindices with
  | zero => omega
  | succ turns ih =>
    unfold buildLoop
    by_cases hmore : i < t.m_iTreeNumber
    · obtain ⟨left, hleft⟩ : ∃ left, t.m_iTreeNumber.toNat - t.m_pTreeStart.length = left + 1 :=
        Nat.exists_eq_succ_of_ne_zero (by omega)
      rw [hleft, Nat.succ_mul] at hroom
      obtain ⟨t', localindices', ht', hreordered, hplanted⟩ := buildTree_spec
        (hkmeans i) (hshuffle i localindices) hleaf hs hpos hi hrounds (by omega)
      have hlength : t'.m_pTreeStart.length = t.m_pTreeStart.length + 1 := by
        rw [hplanted.m_pTreeStart, List.length_append, List.length_singleton]
      have hnumber := hplanted.m_iTreeNumber
      have hsize := hplanted.size_le
      rw [List.length_map, length_range, Nat.sub_zero] at hsize
      have hroom' : t'.m_pTreeRoots.size +
          (t'.m_iTreeNumber.toNat - t'.m_pTreeStart.length) *
          (localindices'.size + 2) ≤ 2 ^ 31 := by
        rw [hnumber, hlength, hreordered.size, Nat.sub_succ, hleft, Nat.pred_succ]
        omega
      have hchar' : Int.bmod (i + 1) 256 = i + 1 :=
        Int.bmod_eq_of_le (by omega) (by omega)
      have hsame : ((localindices'.range 0 localindices'.size).map args.cid).Perm
          ((localindices.range 0 localindices.size).map args.cid) := by
        rw [hreordered.size]
        exact hreordered.perm.map _
      rw [if_pos hmore, ht', Option.bind_eq_bind, Option.bind_some]
      dsimp only
      rw [hchar']
      exact ih (hplanted.m_iBKTLeafSize ▸ hleaf) (hs.reordered hreordered le_rfl)
        (hreordered.size ▸ hpos) (hreordered.size ▸ hrounds) (hsame.trans hids)
        (hnumber ▸ hchar) (by omega) (by omega) (by omega) hroom'
        (h.plant { hplanted with
          reached := by
            obtain ⟨nodes, stop, h1, h2, h3, h4, h5, h6⟩ := hplanted.reached
            exact ⟨nodes, stop, h1, h2, h3, h4, h5, h6.trans hids⟩ })
    · rw [if_neg hmore]
      exact ⟨t, rfl, h, by omega⟩

theorem buildLoop_eq_none {turns rounds : Nat} {t : BKTree} (hchar : 127 < t.m_iTreeNumber)
    (hi : i ≤ 127) : buildLoop args rounds turns i t localindices = none := by
  induction turns generalizing i t localindices with
  | zero => rfl
  | succ turns ih =>
    unfold buildLoop
    rw [if_pos (by omega), Option.bind_eq_bind, Option.bind_eq_none_iff]
    rintro ⟨t', localindices'⟩ ht'
    have hnumber : t'.m_iTreeNumber = t.m_iTreeNumber := by
      simp only [buildTree, Option.bind_eq_bind, Option.bind_eq_some_iff, Option.pure_def,
        Option.some.injEq, Prod.mk.injEq] at ht'
      obtain ⟨-, -, -, -, -, -, rfl, -⟩ := ht'
      rfl
    have hlt := Int.bmod_lt (x := i + 1) (m := 256) (by decide)
    exact ih (hnumber ▸ hchar) (by omega)

theorem buildTree_eq_none {rounds : Nat} {t : BKTree} (hdynamic : args.dynamicK = true)
    (hleaf : t.m_iBKTLeafSize = 0) (hsize : (args.shuffle i localindices).size = localindices.size)
    (hpos : 0 < localindices.size) (hi : (t.m_pTreeStart.length : Int) = i) :
    buildTree args rounds i t localindices = none := by
  have hdk : ∀ item, _DK args t.m_iBKTKmeansK t.m_iBKTLeafSize item = none := fun item => by
    rw [_DK, if_pos hdynamic, if_pos hleaf]
  have hexpand : ∀ index s, expand args t.m_iBKTKmeansK t.m_iBKTLeafSize i
      ⟨index, 0, (args.shuffle i localindices).size⟩ s = none := fun index s => by
    rw [expand, if_neg (by dsimp only; omega), hdk]
    rfl
  have hvisit : ∀ index s, visit args t.m_iBKTKmeansK t.m_iBKTLeafSize i
      ⟨index, 0, (args.shuffle i localindices).size⟩ s = none := fun index s => by
    simp only [visit, hexpand, Option.bind_eq_bind, Option.bind_none, Option.bind_fun_none]
  unfold buildTree
  cases hindex : toIndex t.m_pTreeRoots.size with
  | none => simp only [Option.bind_eq_bind, Option.bind_none]
  | some start =>
    simp only [startAt_last hi, Option.bind_eq_bind, Option.bind_some]
    cases rounds with
    | zero => rfl
    | succ rounds =>
      rw [stackLoop, hvisit]
      rfl

theorem buildTrees_new (rounds R : Nat) (trees k leaf : Int) :
    buildTrees args rounds R (new trees k leaf) =
      buildLoop args rounds rounds 0 (new trees k leaf) (args.localindices R) := rfl

/-- The trees are right whatever comes of the clusterings, as long as a `char` can count them and
no number of clusters is got from a division by zero, where the nodes of all have an index. -/
theorem buildTrees_covers_iff {R : Nat} (h : args.Sound R) (trees k leaf : Int)
    (hroom : trees.toNat * ((args.localindices R).size + 2) ≤ 2 ^ 31) :
    (∃ n, ∀ rounds, n < rounds → ∃ t, buildTrees args rounds R (.new trees k leaf) = some t ∧
      Covers t (((args.localindices R).range 0 (args.localindices R).size).map args.cid)) ↔
    trees ≤ 0 ∨ trees ≤ 127 ∧ (args.dynamicK = true → leaf ≠ 0) := by
  constructor
  · rintro ⟨n, hn⟩
    obtain ⟨t, ht, -⟩ := hn (n + 1) (Nat.lt_succ_self n)
    by_contra hbad
    by_cases hchar : trees ≤ 127
    · have hdynamic : args.dynamicK = true := by tauto
      have hleaf : leaf = 0 := by tauto
      have hmore : (0 : Int) < (new trees k leaf).m_iTreeNumber := by
        dsimp only [new]
        omega
      have hnone := @buildTree_eq_none args (args.localindices R) 0 (n + 1) (new trees k leaf)
        hdynamic hleaf (h.shuffle 0 (args.localindices R)).size h.pos rfl
      rw [buildTrees_new, buildLoop, if_pos hmore, hnone] at ht
      exact nomatch ht
    · rw [buildTrees_new, buildLoop_eq_none (not_le.mp hchar) (by decide)] at ht
      exact nomatch ht
  · intro hgood
    refine ⟨(args.localindices R).size + trees.toNat, fun rounds hrounds => ?_⟩
    rw [buildTrees_new]
    have hcovering : Covering (new trees k leaf)
        (((args.localindices R).range 0 (args.localindices R).size).map args.cid) :=
      ⟨.nil, fun start hstart => absurd hstart List.not_mem_nil,
        fun k hk => absurd hk (Nat.not_lt_zero k), fun k hk => absurd hk (Nat.not_lt_zero k)⟩
    rcases hgood with hnone | ⟨hchar, hleaf⟩
    · obtain ⟨rounds, rfl⟩ := Nat.exists_eq_add_one_of_ne_zero
        ((Nat.zero_le _).trans_lt hrounds).ne'
      refine ⟨_, if_neg (not_lt.mpr hnone), hcovering, ?_⟩
      exact (Int.toNat_of_nonpos hnone).symm
    · exact buildLoop_spec h.kmeans h.shuffle hleaf h.named h.pos (by omega) (.refl _) hchar rfl
        (Nat.zero_le _) (show trees.toNat < 0 + rounds by omega)
        (show 0 + (trees.toNat - 0) * _ ≤ 2 ^ 31 by rwa [Nat.zero_add, Nat.sub_zero]) hcovering

def apart : Args where
  indices := none
  reverseIndices := none
  dynamicK := true
  kmeans _ _ s first last _ := ⟨s, [1, last - first - 1], if 1 < last - first then 2 else 1⟩
  shuffle _ s := s

theorem apart_sound : apart.Sound 3 where
  pos := by decide
  cid _ _ := rfl
  kmeans _ _ s first last _ := by
    refine ⟨.refl s, fun h => ?_⟩
    dsimp only [apart] at h ⊢
    split_ifs at h with hlt
    · simp only [List.sum_cons, List.sum_nil]
      omega
    · exact absurd h (lt_irrefl 1)
  shuffle _ s := .refl s

theorem apart_covers : ∃ n, ∀ rounds, n < rounds →
    ∃ t, buildTrees apart rounds 3 (.new 127 2 1) = some t ∧
      Covers t (((apart.localindices 3).range 0 (apart.localindices 3).size).map apart.cid) :=
  (buildTrees_covers_iff apart_sound 127 2 1 (by decide)).mpr (.inr ⟨by decide, fun _ => by decide⟩)

theorem apart_never : ¬ ∃ rounds t, buildTrees apart rounds 3 (.new 128 2 1) = some t := by
  rintro ⟨rounds, t, ht⟩
  have hnone : buildLoop apart rounds rounds 0 (.new 128 2 1) (apart.localindices 3) = none :=
    buildLoop_eq_none (by decide) (by decide)
  exact nomatch ht.symm.trans hnone

end BKTree

end Sptag.COMMON
