import Sptag.Common
import Sptag.Common.DistPriorityQueue
import Sptag.Common.Heap.Keyed
import Sptag.Common.WorkSpace
import Sptag.Lib.Yields

/-! `WorkSpace` of `inc/Core/Common/WorkSpace.h`: what one search has visited, and what it still
has to examine. -/

namespace Sptag.COMMON

open Lib

structure NodeDistPair (D : Type) where
  node : Int
  distance : D

structure Samples (D : Type) where
  R : Nat
  distance : Nat → D

def Samples.get {D : Type} (data : Samples D) (id : Int) : Option D :=
  if 0 ≤ id ∧ id < data.R then some (data.distance id.toNat) else none

/-- `CheckAndSet` and `clear` of a set of ids below a bound: what is said of an id, where anything
is said, is right. -/
structure VisitedSet (V : Type) where
  checkAndSet : V → Nat → Option (Bool × V)
  clear : V → V
  bound : Nat
  Holds : V → Finset Nat → Prop
  answers : ∀ {v visited id seen v'}, Holds v visited → id < bound →
    checkAndSet v id = some (seen, v') → (seen = true ↔ id ∈ visited) ∧ Holds v' (insert id visited)
  cleared : ∀ {v visited}, Holds v visited → Holds (clear v) ∅

namespace VisitedSet

def Total {V : Type} (visits : VisitedSet V) : Prop :=
  ∀ v visited id, visits.Holds v visited → id < visits.bound → (visits.checkAndSet v id).isSome

def ids (bound : Nat) : VisitedSet (Finset Nat) where
  checkAndSet v id := some (decide (id ∈ v), insert id v)
  clear _ := ∅
  bound := bound
  Holds v visited := v = visited
  answers h _ heq := by
    obtain ⟨rfl, rfl⟩ := Prod.mk.inj (Option.some.inj heq)
    exact ⟨h ▸ decide_eq_true_iff, h ▸ rfl⟩
  cleared _ := rfl

theorem ids_total (bound : Nat) : (ids bound).Total := fun _ _ _ _ _ => rfl

/-- The hash table of a work space, with fuel for its doublings. -/
def hashed (fuel : Nat) : VisitedSet OptHashPosVector where
  checkAndSet v id := v.checkAndSet (fuel + 30) id
  clear := OptHashPosVector.clear
  bound := 2 ^ 31
  Holds v visited := ∃ ids, v.Holds ids ∧ visited = (ids.map Fin.val).toFinset
  answers := by
    rintro v visited id seen v' ⟨ids, hids, rfl⟩ hid heq
    have hreturns : OptHashPosVector.checkAndSetIn (fuel + 30) .member v (id + 1) ≠ none := by
      intro hnone
      rw [OptHashPosVector.checkAndSet, hnone] at heq
      exact nomatch heq
    obtain ⟨k, rfl⟩ : ∃ k : Fin (2 ^ 31), k = id := ⟨⟨id, hid⟩, rfl⟩
    have hsettles := OptHashPosVector.settles_of_returns hids.sound.length_eq hreturns
    obtain ⟨v'', hv'', hholds⟩ := hids.checkAndSet hsettles fuel
    obtain ⟨rfl, rfl⟩ := Prod.mk.inj (Option.some.inj (heq.symm.trans hv''))
    refine ⟨?_, _, hholds, by simp⟩
    rw [decide_eq_true_iff, List.mem_toFinset, List.mem_map]
    constructor
    · exact fun hmem => ⟨_, hmem, rfl⟩
    · rintro ⟨j, hj, heq⟩
      exact Fin.ext heq ▸ hj
  cleared := by
    rintro v visited ⟨ids, hids, -⟩
    exact ⟨[], OptHashPosVector.holds_clear hids.sound, rfl⟩

end VisitedSet

structure WorkSpace (V D : Type) where
  nodeCheckStatus : V
  m_iNumberOfCheckedLeaves : Int
  m_iMaxCheck : Int
  m_relaxedMono : Bool
  m_NGQueue : Heap (NodeDistPair D)
  m_SPTQueue : Heap (NodeDistPair D)
  m_Results : DistPriorityQueue D

namespace WorkSpace

variable {V D : Type} [LinearOrder D] (visits : VisitedSet V) (maxDist : D)

def blank : NodeDistPair D := ⟨-1, maxDist⟩

def sptSize (maxCheck : Int) : Int := toInt (maxCheck * 10)

def ngSize (maxCheck : Int) : Int := toInt (maxCheck * 30)

section Source

/-- A work space that `Initialize` has made; `fresh` is what `new` leaves in the cells of
`m_Results`. -/
def new (fresh : Nat → D) (nodeCheckStatus : V) (maxCheck : Int) : Option (WorkSpace V D) := do
  let results ← (DistPriorityQueue.empty maxDist).resize fresh maxDist (maxCheck.tdiv 16).toNat
  return {
    nodeCheckStatus := nodeCheckStatus
    m_SPTQueue := .resize (fun _ => blank maxDist) (sptSize maxCheck).toNat
    m_NGQueue := .resize (fun _ => blank maxDist) (ngSize maxCheck).toNat
    m_Results := results
    m_iNumberOfCheckedLeaves := 0
    m_iMaxCheck := maxCheck
    m_relaxedMono := false }

def reset (fresh : Nat → D) (ws : WorkSpace V D) (maxCheck resultNum : Int) :
    Option (WorkSpace V D) := do
  let results ← ws.m_Results.clear fresh maxDist (max (maxCheck.tdiv 16) resultNum).toNat
  return { ws with
    nodeCheckStatus := visits.clear ws.nodeCheckStatus
    m_SPTQueue := ws.m_SPTQueue.clear (fun _ => blank maxDist) (sptSize maxCheck)
    m_NGQueue := ws.m_NGQueue.clear (fun _ => blank maxDist) (ngSize maxCheck)
    m_Results := results
    m_iNumberOfCheckedLeaves := 0
    m_iMaxCheck := maxCheck
    m_relaxedMono := false }

def resetResult (fresh : Nat → D) (ws : WorkSpace V D) (maxCheck resultNum : Int) :
    Option (WorkSpace V D) := do
  let results ← ws.m_Results.clear fresh maxDist (max (maxCheck.tdiv 16) resultNum).toNat
  return { ws with m_Results := results, m_iNumberOfCheckedLeaves := 0 }

def checkAndSet (ws : WorkSpace V D) (idx : Int) : Option (Bool × WorkSpace V D) :=
  if idx < 0 then none
  else do
    let (seen, nodeCheckStatus) ← visits.checkAndSet ws.nodeCheckStatus idx.toNat
    return (seen, { ws with nodeCheckStatus := nodeCheckStatus })

def insertNG (ws : WorkSpace V D) (node : Int) (distance : D) : Option (WorkSpace V D) := do
  let queue ← ws.m_NGQueue.insertBy NodeDistPair.distance ⟨node, distance⟩
  return { ws with m_NGQueue := queue }

def insertSPT (ws : WorkSpace V D) (node : Int) (distance : D) : Option (WorkSpace V D) := do
  let queue ← ws.m_SPTQueue.insertBy NodeDistPair.distance ⟨node, distance⟩
  return { ws with m_SPTQueue := queue }

def meet (ws : WorkSpace V D) (idx : Int) (distance : D) (leaves : Int) :
    Option (WorkSpace V D) := do
  let (seen, ws) ← ws.checkAndSet visits idx
  if seen then return ws
  else insertNG { ws with m_iNumberOfCheckedLeaves := ws.m_iNumberOfCheckedLeaves +
    leaves } idx distance

end Source

/-- What has left the queue of the graph, examined or pushed out of it full, and the ids that never
came to it. -/
structure Ledger (D : Type) where
  done : Multiset (NodeDistPair D)
  lost : Multiset (NodeDistPair D)
  refused : Multiset Nat

/-- Every visited id has been examined, or waits, or was lost, or was refused, and it is only one of
them. -/
structure Accounts (data : Samples D) (ws : WorkSpace V D) (visited : Finset Nat) (l : Ledger D) :
    Prop where
  holds : visits.Holds ws.nodeCheckStatus visited
  queue : ws.m_NGQueue.OrderedBy NodeDistPair.distance (blank maxDist)
  within : ∀ n ∈ visited, n < data.R
  parts : visited.val =
    (l.done + ws.m_NGQueue.content + l.lost).map (fun x => x.node.toNat) + l.refused
  real : ∀ x ∈ l.done + ws.m_NGQueue.content + l.lost,
    0 ≤ x.node ∧ x.distance = data.distance x.node.toNat
  room : l.lost = 0 ∨ ws.m_NGQueue.length < data.R
  checked : ws.m_iNumberOfCheckedLeaves ≤ visited.card

structure Met (ws ws' : WorkSpace V D) : Prop where
  m_SPTQueue : ws'.m_SPTQueue = ws.m_SPTQueue
  m_Results : ws'.m_Results = ws.m_Results
  m_iMaxCheck : ws'.m_iMaxCheck = ws.m_iMaxCheck
  length : ws'.m_NGQueue.length = ws.m_NGQueue.length
  count : ws.m_NGQueue.count ≤ ws'.m_NGQueue.count

variable {visits maxDist} {data : Samples D} {ws ws' : WorkSpace V D} {visited : Finset Nat}
  {l : Ledger D}
  {id : Nat}

omit [LinearOrder D] in
theorem checkAndSet_spec (h : visits.Holds ws.nodeCheckStatus visited) (hid : id < visits.bound) :
    Yields visits.Total (ws.checkAndSet visits id) fun r => (r.1 = true ↔ id ∈ visited) ∧
      ∃ nodeCheckStatus, visits.Holds nodeCheckStatus (insert id visited) ∧
        r.2 = { ws with nodeCheckStatus := nodeCheckStatus } := by
  unfold checkAndSet
  rw [if_neg (not_lt.mpr (Int.natCast_nonneg id)), Int.toNat_natCast]
  refine Yields.bind (P := fun r =>
    (r.1 = true ↔ id ∈ visited) ∧ visits.Holds r.2 (insert id visited))
    ⟨fun r hr => visits.answers h hid hr, fun htotal => htotal _ _ _ h hid⟩ fun r hr => ?_
  exact .pure ⟨hr.1, r.2, hr.2, rfl⟩

theorem Accounts.insertNG (h : Accounts visits maxDist data ws visited l) (hid : id < data.R)
    (hnew : id ∉ visited) (nodeCheckStatus : V)
    (hholds : visits.Holds nodeCheckStatus (insert id visited)) {leaves : Int}
    (hleaves : leaves ≤ visited.card + 1) :
    ∃ ws', WorkSpace.insertNG { ws with
        nodeCheckStatus := nodeCheckStatus, m_iNumberOfCheckedLeaves := leaves } id
          (data.distance id) = some ws' ∧
      (∃ lost, Accounts visits maxDist data ws' (insert id visited) { l with lost := lost }) ∧
      Met ws ws' ∧ 0 < ws'.m_NGQueue.count ∧ ws'.m_iNumberOfCheckedLeaves = leaves := by
  obtain ⟨queue, gone, hqueue, hordered, hlength, hcontent, hgone, hcount, hpos⟩ :=
    h.queue.insert_content ⟨id, data.distance id⟩
  have hwithin : ∀ n ∈ insert id visited, n < data.R :=
    (Finset.forall_mem_insert _ _ _).mpr ⟨hid, h.within⟩
  have hparts : l.done + queue.content + (gone + l.lost) =
      ⟨id, data.distance id⟩ ::ₘ (l.done + ws.m_NGQueue.content + l.lost) := by
    rw [← Multiset.cons_add, ← Multiset.add_cons, ← hcontent]
    abel
  refine ⟨_, congrArg (Option.bind · _) hqueue,
    ⟨gone + l.lost, hholds, hordered, hwithin, ?_, ?_, ?_, ?_⟩,
    ⟨rfl, rfl, rfl, hlength, hcount⟩, hpos, rfl⟩
  · dsimp only
    rw [hparts, Multiset.map_cons, Finset.insert_val_of_notMem hnew, h.parts, Multiset.cons_add]
    rfl
  · intro x hx
    dsimp only at hx
    rw [hparts] at hx
    rcases Multiset.mem_cons.mp hx with rfl | hx
    · exact ⟨Int.natCast_nonneg id, rfl⟩
    · exact h.real x hx
  · rcases h.room with hlost | hsmall
    · by_cases hroom : ws.m_NGQueue.count < ws.m_NGQueue.length
      · rw [hgone hroom, hlost]
        exact .inl rfl
      · -- a full queue and the new id are different samples
        refine .inr ?_
        have hcard : ws.m_NGQueue.count ≤ visited.card := by
          rw [Finset.card_def, h.parts, ← Heap.card_content]
          simp only [Multiset.card_add, Multiset.card_map]
          omega
        have hle := Finset.card_le_card (show insert id visited ⊆ Finset.range data.R from
          fun n hn => Finset.mem_range.mpr (hwithin n hn))
        rw [Finset.card_insert_of_notMem hnew, Finset.card_range] at hle
        dsimp only
        omega
    · exact .inr (hlength ▸ hsmall)
  · rw [Finset.card_insert_of_notMem hnew]
    exact hleaves

theorem Accounts.meet (h : Accounts visits maxDist data ws visited l) (hR : data.R ≤ visits.bound)
    (hid : id < data.R) {leaves : Int} (hleaves : leaves ≤ 1) :
    Yields visits.Total (ws.meet visits id (data.distance id) leaves) fun ws' =>
      (∃ lost, Accounts visits maxDist data ws' (insert id visited) { l with lost := lost }) ∧
      Met ws ws' ∧ (id ∈ visited ∧ ws'.m_iNumberOfCheckedLeaves = ws.m_iNumberOfCheckedLeaves ∨
        id ∉ visited ∧ 0 < ws'.m_NGQueue.count ∧
          ws'.m_iNumberOfCheckedLeaves = ws.m_iNumberOfCheckedLeaves + leaves) := by
  refine (checkAndSet_spec h.holds (hid.trans_le hR)).bind fun r hr => ?_
  obtain ⟨seen, ws₁⟩ := r
  obtain ⟨hseen, nodeCheckStatus, hholds, rfl⟩ := hr
  refine .of_ite (fun htrue => ?_) fun hfalse => .of_exists ?_
  · have hmem := hseen.mp htrue
    rw [Finset.insert_eq_of_mem hmem] at hholds ⊢
    exact .pure ⟨⟨l.lost, { h with holds := hholds }⟩, ⟨rfl, rfl, rfl, rfl, le_rfl⟩,
      .inl ⟨hmem, rfl⟩⟩
  · have hnew : id ∉ visited := fun hmem => hfalse (hseen.mpr hmem)
    obtain ⟨ws', hws', haccounts, hmet, hpos, hchecked⟩ :=
      h.insertNG hid hnew nodeCheckStatus hholds
      (add_le_add h.checked hleaves)
    exact ⟨ws', hws', haccounts, hmet, .inr ⟨hnew, hpos, hchecked⟩⟩

structure Rested (visits : VisitedSet V) (maxDist : D) (ws : WorkSpace V D) : Prop where
  holds : ∃ visited, visits.Holds ws.nodeCheckStatus visited
  ng : ws.m_NGQueue.OrderedBy NodeDistPair.distance (blank maxDist)
  spt : ws.m_SPTQueue.OrderedBy NodeDistPair.distance (blank maxDist)
  results : DistPriorityQueue.Allocated ws.m_Results

structure Fresh (visits : VisitedSet V) (maxDist : D) (maxCheck : Int) (k : Nat)
    (ws : WorkSpace V D) :
    Prop extends Rested visits maxDist ws where
  empty : visits.Holds ws.nodeCheckStatus ∅
  ngCount : ws.m_NGQueue.count = 0
  sptCount : ws.m_SPTQueue.count = 0
  ngLength : ngSize maxCheck ≤ ws.m_NGQueue.length
  sptLength : sptSize maxCheck ≤ ws.m_SPTQueue.length
  tracks : DistPriorityQueue.Tracks maxDist k [] ws.m_Results
  checked : ws.m_iNumberOfCheckedLeaves = 0
  m_iMaxCheck : ws.m_iMaxCheck = maxCheck

omit [LinearOrder D] in
theorem le_clear_length (fresh : Nat → NodeDistPair D) (h : Heap (NodeDistPair D)) (size : Int) :
    size ≤ (h.clear fresh size).length := by
  rw [Heap.clear_length]
  omega

theorem rested_new (fresh : Nat → D) {v : V} (hv : visits.Holds v ∅) {maxCheck : Int}
    (hpos : 16 ≤ maxCheck) (hint : maxCheck * 30 < 2 ^ 31) :
    ∃ ws, new maxDist fresh v maxCheck = some ws ∧ Rested visits maxDist ws := by
  have hempty : DistPriorityQueue.Allocated (.empty maxDist) := fun hlt => absurd hlt (lt_irrefl 0)
  have hroom : 0 < (maxCheck.tdiv 16).toNat := by
    rw [Int.tdiv_eq_ediv_of_nonneg (by omega)]
    omega
  have hstarts : ∃ results, DistPriorityQueue.step fresh maxDist (.empty maxDist)
      (.resize (maxCheck.tdiv 16).toNat) = some results ∧
        DistPriorityQueue.Tracks maxDist (maxCheck.tdiv 16).toNat [] results :=
    DistPriorityQueue.step_starts fresh hempty hroom rfl
  obtain ⟨results, hresults, -⟩ := hstarts
  have hng : 0 < (ngSize maxCheck).toNat := by
    rw [ngSize, toInt_eq (by omega) hint]
    omega
  have hspt : 0 < (sptSize maxCheck).toNat := by
    rw [sptSize, toInt_eq (by omega) (by omega)]
    omega
  exact ⟨_, congrArg (Option.bind · _) hresults, ⟨∅, hv⟩,
    Heap.orderedBy_resize (fun _ => blank maxDist) hng,
    Heap.orderedBy_resize (fun _ => blank maxDist) hspt,
    DistPriorityQueue.step_allocated hempty hresults⟩

theorem Rested.reset (h : Rested visits maxDist ws) (fresh : Nat → D) {maxCheck resultNum : Int}
    (hpos : 0 < max (maxCheck.tdiv 16) resultNum) :
    ∃ ws', ws.reset visits maxDist fresh maxCheck resultNum = some ws' ∧
      Fresh visits maxDist maxCheck (max (maxCheck.tdiv 16) resultNum).toNat ws' := by
  obtain ⟨visited, hholds⟩ := h.holds
  have hcleared := visits.cleared hholds
  have hstarts : ∃ results, DistPriorityQueue.step fresh maxDist ws.m_Results
      (.clear (max (maxCheck.tdiv 16) resultNum).toNat) = some results ∧
        DistPriorityQueue.Tracks maxDist (max (maxCheck.tdiv 16) resultNum).toNat [] results :=
    DistPriorityQueue.step_starts fresh h.results (by omega) rfl
  obtain ⟨results, hresults, htracks⟩ := hstarts
  have hallocated := DistPriorityQueue.step_allocated h.results hresults
  refine ⟨_, congrArg (Option.bind · _) hresults,
    ⟨⟨⟨_, hcleared⟩, h.ng.clear rfl _, h.spt.clear rfl _,
    hallocated⟩, hcleared, rfl, rfl, le_clear_length .., le_clear_length .., htracks, rfl, rfl⟩⟩

theorem Fresh.resetResult {maxCheck : Int} {k : Nat} (h : Fresh visits maxDist maxCheck k ws)
    (fresh : Nat → D) {maxCheck' resultNum : Int} (hpos : 0 < max (maxCheck'.tdiv 16) resultNum) :
    ∃ results, ws.resetResult maxDist fresh maxCheck' resultNum =
        some { ws with m_Results := results, m_iNumberOfCheckedLeaves := 0 } ∧
      Fresh visits maxDist maxCheck (max (maxCheck'.tdiv 16) resultNum).toNat
        { ws with m_Results := results, m_iNumberOfCheckedLeaves := 0 } := by
  have hstarts : ∃ results, DistPriorityQueue.step fresh maxDist ws.m_Results
      (.clear (max (maxCheck'.tdiv 16) resultNum).toNat) = some results ∧
        DistPriorityQueue.Tracks maxDist (max (maxCheck'.tdiv 16) resultNum).toNat [] results :=
    DistPriorityQueue.step_starts fresh h.results (by omega) rfl
  obtain ⟨results, hresults, htracks⟩ := hstarts
  have hallocated := DistPriorityQueue.step_allocated h.results hresults
  exact ⟨results, congrArg (Option.bind · _) hresults, ⟨⟨h.holds, h.ng, h.spt, hallocated⟩, h.empty,
    h.ngCount, h.sptCount, h.ngLength, h.sptLength, htracks, rfl, h.m_iMaxCheck⟩⟩

end WorkSpace

end Sptag.COMMON
