import Sptag.Lib.Run
import Sptag.Lib.Threads

/-! `ConnectionManager` of `ConnectionManager.cpp` in single steps: any number of
`AddConnection` and `RemoveConnection` calls in progress over one table of slots. -/

namespace Sptag.Socket

open Lib

abbrev ConnectionID := UInt32

def c_invalidConnectionID : ConnectionID := 0

namespace ConnectionManager

def c_connectionPoolSize : Nat := 256

instance : NeZero c_connectionPoolSize := ⟨by decide⟩

abbrev Position := Fin c_connectionPoolSize

def position (id : ConnectionID) : Position := Fin.ofNat c_connectionPoolSize id.toNat

structure Connection where
  id : ConnectionID
  add : Nat
  deriving DecidableEq

inductive Stage
  | fetching
  /-- Before the exchange of the slot's flag. -/
  | testing (id : ConnectionID)
  /-- The slot was taken. -/
  | full
  | reserved (id : ConnectionID)
  | counted (id : ConnectionID)
  /-- The pointer is in its slot. -/
  | returned (id : ConnectionID)
  | refused
  deriving DecidableEq

structure Add where
  stage : Stage
  removed : Bool
  deriving DecidableEq

inductive Remove
  | exchanging (id : ConnectionID)
  | taking (id : ConnectionID)
  | uncounting (id : ConnectionID) (conn : Option Connection)
  | stopping (id : ConnectionID) (conn : Option Connection)
  | returned
  deriving DecidableEq

def Add.reserves (p : Position) (a : Add) : Bool :=
  match a.stage with
  | .reserved id | .counted id => position id = p
  | _ => false

def Add.uncounted (a : Add) : Bool :=
  match a.stage with
  | .reserved _ => true
  | _ => false

def Add.returned? (a : Add) : Option (ConnectionID × Bool) :=
  match a.stage with
  | .returned id => some (id, a.removed)
  | _ => none

def Remove.takes (p : Position) : Remove → Bool
  | taking id => position id = p
  | _ => false

def Remove.uncounted : Remove → Bool
  | taking _ | uncounting _ _ => true
  | _ => false

def Remove.taking? : Remove → Option ConnectionID
  | taking id => some id
  | _ => none

def Remove.took? : Remove → Option (ConnectionID × Option Connection)
  | uncounting id conn | stopping id conn => some (id, conn)
  | _ => none

structure Stop where
  id : ConnectionID
  conn : Option Connection
  deriving DecidableEq

structure World where
  nextConnectionID : ConnectionID
  connectionCount : UInt32
  isEmpty : Position → Bool
  connection : Position → Option Connection
  adds : List Add
  removes : List Remove
  stops : List Stop

inductive Event
  | add
  | advance (add : Nat)
  | remove (id : ConnectionID)
  | advanceRemove (remove : Nat)
  deriving DecidableEq

def start : World where
  nextConnectionID := 1
  connectionCount := 0
  isEmpty := fun _ => true
  connection := fun _ => none
  adds := []
  removes := []
  stops := []

namespace World

variable (w : World)

def getConnection (id : ConnectionID) : Option Connection :=
  match w.connection (position id) with
  | none => none
  | some ret => if ret.id = id then some ret else none

def setStage (k : Nat) (a : Add) (stage : Stage) : List Add :=
  w.adds.set k { a with stage := stage }

def advance (k : Nat) (a : Add) : World :=
  match a.stage with
  | .fetching =>
    { w with
      nextConnectionID := w.nextConnectionID + 1
      adds := w.setStage k a (.testing w.nextConnectionID) }
  | .testing id =>
    if id = c_invalidConnectionID ∨ w.isEmpty (position id) = false then
      { w with adds := w.setStage k a .full }
    else
      { w with
        isEmpty := Function.update w.isEmpty (position id) false
        adds := w.setStage k a (.reserved id) }
  | .full =>
    if c_connectionPoolSize ≤ w.connectionCount.toNat then
      { w with adds := w.setStage k a .refused }
    else { w with adds := w.setStage k a .fetching }
  | .reserved id =>
    { w with
      connectionCount := w.connectionCount + 1
      adds := w.setStage k a (.counted id) }
  | .counted id =>
    { w with
      connection := Function.update w.connection (position id) (some ⟨id, k⟩)
      adds := w.setStage k a (.returned id) }
  | .returned _ | .refused => w

def markRemoved (id : ConnectionID) (a : Add) : Add :=
  { a with removed := a.removed || a.stage = .returned id }

def advanceRemove (j : Nat) : Remove → World
  | .exchanging id =>
    { w with
      isEmpty := Function.update w.isEmpty (position id) true
      adds := w.adds.map (markRemoved id)
      removes := w.removes.set j (if w.isEmpty (position id) then .returned else .taking id) }
  | .taking id =>
    { w with
      connection := Function.update w.connection (position id) none
      removes := w.removes.set j (.uncounting id (w.connection (position id))) }
  | .uncounting id conn =>
    { w with
      connectionCount := w.connectionCount - 1
      removes := w.removes.set j (.stopping id conn) }
  | .stopping id conn =>
    { w with stops := w.stops ++ [⟨id, conn⟩], removes := w.removes.set j .returned }
  | .returned => w

def step : Event → World
  | .add => { w with adds := w.adds ++ [⟨.fetching, false⟩] }
  | .advance k =>
    match w.adds[k]? with
    | none => w
    | some a => w.advance k a
  | .remove id => { w with removes := w.removes ++ [.exchanging id] }
  | .advanceRemove j =>
    match w.removes[j]? with
    | none => w
    | some r => w.advanceRemove j r

/-- The id that the `AddConnection` number `k` has returned, and whether it was removed since. -/
def returned (k : Nat) : Option (ConnectionID × Bool) := w.adds[k]?.bind Add.returned?

def occupied : Nat := (Finset.univ.filter fun p => w.isEmpty p = false).card

/-- The table identifies connections by their ids. The counter is compared while no call is
between its exchange of a flag and its update of the counter. -/
structure Identified : Prop where
  found : ∀ k id, w.returned k = some (id, false) → w.getConnection id = some ⟨id, k⟩
  own : ∀ id c, w.getConnection id = some c → c.id = id ∧ ∃ removed, w.returned c.add =
    some (id, removed)
  stops : ∀ s ∈ w.stops, s.conn.map Connection.id = some s.id
  count : w.adds.all (!·.uncounted) → w.removes.all (!·.uncounted) →
    w.connectionCount.toNat = w.occupied

/-- A call removes only what is in its slot under its id, and no pointer is stored where
another is to be moved out. -/
def Orderly : Event → Prop
  | .advance k => ∀ a id, w.adds[k]? = some a → a.stage = .counted id →
    w.removes.all (!·.takes (position id))
  | .advanceRemove j => ∀ id, w.removes[j]? = some (.exchanging id) →
    w.isEmpty (position id) = true ∨
      (w.connection (position id)).map Connection.id = some id ∧
        w.removes.all (!·.takes (position id))
  | _ => True

variable {w} {w' : World} {k : Nat} {a : Add} {j : Nat} {id : ConnectionID} {p : Position}
  {e : Event}

/-- A slot is marked as occupied when it is reserved, or has a connection that no call is
about to take. -/
structure Inv (w : World) : Prop where
  slots : ∀ p, (!w.isEmpty p).toNat + w.removes.countP (Remove.takes p) =
    w.adds.countP (Add.reserves p) + (w.connection p).isSome.toNat
  single : ∀ p, w.removes.countP (Remove.takes p) ≤ 1
  pointer : ∀ p c, w.connection p = some c →
    position c.id = p ∧ ∃ removed, w.returned c.add = some (c.id, removed)
  current : ∀ k id, w.returned k = some (id, false) → w.connection (position id) = some ⟨id, k⟩
  taking : ∀ r ∈ w.removes, ∀ id, r.taking? = some id →
    (w.connection (position id)).map Connection.id = some id ∧
      ∀ k removed, w.returned k = some (id, removed) → removed = true
  took : ∀ r ∈ w.removes, ∀ id conn, r.took? = some (id, conn) →
    conn.map Connection.id = some id
  stops : ∀ s ∈ w.stops, s.conn.map Connection.id = some s.id
  count : w.connectionCount + UInt32.ofNat (w.adds.countP Add.uncounted) =
    UInt32.ofNat (w.occupied + w.removes.countP Remove.uncounted)

theorem returned_set (hk : w.adds[k]? = some a) (a' : Add) (k' : Nat) :
    (w.adds.set k a')[k']?.bind Add.returned? = if k' = k then a'.returned? else w.returned k' := by
  split
  · rename_i heq
    rw [heq, List.getElem?_set_self (List.getElem?_eq_some_iff.mp hk).1]
    rfl
  · rename_i hne
    rw [List.getElem?_set_ne (Ne.symm hne)]
    rfl

theorem returned_eq (hk : w.adds[k]? = some a) : w.returned k = a.returned? := by
  rw [returned, hk]
  rfl

theorem Inv.frame (h : w.Inv) (hempty : w'.isEmpty = w.isEmpty)
    (hconn : w'.connection = w.connection) (hremoves : w'.removes = w.removes)
    (hstops : w'.stops = w.stops)
    (hreserves : ∀ p, w'.adds.countP (Add.reserves p) = w.adds.countP (Add.reserves p))
    (hret : w'.returned = w.returned)
    (hcount : w'.connectionCount + UInt32.ofNat (w'.adds.countP Add.uncounted) =
      w.connectionCount + UInt32.ofNat (w.adds.countP Add.uncounted)) : w'.Inv where
  slots p := by
    rw [hempty, hconn, hremoves, hreserves]
    exact h.slots p
  single p := by
    rw [hremoves]
    exact h.single p
  pointer p c hc := by
    rw [hret]
    exact h.pointer p c (hconn ▸ hc)
  current k id hk := by
    rw [hconn]
    exact h.current k id (hret ▸ hk)
  taking r hr id hid := by
    rw [hconn, hret]
    exact h.taking r (hremoves ▸ hr) id hid
  took r hr := h.took r (hremoves ▸ hr)
  stops s hs := h.stops s (hstops ▸ hs)
  count := by
    rw [hcount, hremoves, occupied, hempty]
    exact h.count

theorem Inv.setStage (h : w.Inv) (hk : w.adds[k]? = some a) {stage : Stage}
    (hreserves : ∀ p, Add.reserves p { a with stage := stage } = a.reserves p)
    (hret : Add.returned? { a with stage := stage } = a.returned?) {next count : UInt32}
    (hcount : count + UInt32.ofNat ((w.setStage k a stage).countP Add.uncounted) =
      w.connectionCount + UInt32.ofNat (w.adds.countP Add.uncounted)) :
    { w with
      nextConnectionID := next
      connectionCount := count
      adds := w.setStage k a stage }.Inv := by
  refine h.frame rfl rfl rfl rfl ?_ ?_ ?_
  · exact fun p => countP_set_eq hk (hreserves p)
  · funext k'
    refine (returned_set hk _ k').trans ?_
    split
    · rename_i heq
      rw [hret, heq, returned_eq hk]
    · rfl
  · exact hcount

theorem Inv.setStage_idle (h : w.Inv) (hk : w.adds[k]? = some a) {stage : Stage}
    (hreserves : ∀ p, Add.reserves p { a with stage := stage } = a.reserves p)
    (hret : Add.returned? { a with stage := stage } = a.returned?)
    (huncounted : Add.uncounted { a with stage := stage } = a.uncounted) (next : UInt32) :
    { w with nextConnectionID := next, adds := w.setStage k a stage }.Inv := by
  apply h.setStage hk hreserves hret
  rw [World.setStage, countP_set_eq hk huncounted]

theorem Inv.add (h : w.Inv) : (w.step .add).Inv := by
  refine h.frame rfl rfl rfl rfl ?_ ?_ ?_
  · exact fun p => List.countP_append
  · funext k
    rw [returned, returned, step, List.getElem?_append]
    split
    · rfl
    · rename_i hlt
      rw [List.getElem?_eq_none (Nat.le_of_not_lt hlt)]
      cases hget : [(⟨.fetching, false⟩ : Add)][k - w.adds.length]? with
      | none => rfl
      | some a =>
        obtain rfl := List.mem_singleton.mp (List.mem_of_getElem? hget)
        rfl
  · rw [step, List.countP_append]
    rfl

theorem occupied_insert (hp : w.isEmpty p = true) :
    { w with isEmpty := Function.update w.isEmpty p false }.occupied = w.occupied + 1 := by
  rw [occupied, occupied, ← Finset.card_insert_of_notMem (a := p)]
  · congr 1
    ext q
    by_cases hq : q = p
    · simp [hq]
    · simp [hq]
  · simp [hp]

theorem occupied_erase (hp : w.isEmpty p = false) :
    { w with isEmpty := Function.update w.isEmpty p true }.occupied + 1 = w.occupied := by
  have hins := occupied_insert (w := { w with isEmpty := Function.update w.isEmpty p true })
    (p := p) (Function.update_self ..)
  rw [← hins]
  congr 2
  rw [Function.update_idem, ← hp, Function.update_eq_self]

theorem returned_setStage (hk : w.adds[k]? = some a) (ha : a.returned? = none) {stage : Stage}
    (hstage : Add.returned? { a with stage := stage } = none) :
    { w with adds := w.setStage k a stage }.returned = w.returned := by
  funext k'
  refine (returned_set hk _ k').trans ?_
  split
  · rename_i heq
    rw [hstage, heq, returned_eq hk, ha]
  · rfl

theorem Inv.reserve (h : w.Inv) (hk : w.adds[k]? = some a) (ha : a.stage = .testing id)
    (hp : w.isEmpty (position id) = true) :
    { w with
      isEmpty := Function.update w.isEmpty (position id) false
      adds := w.setStage k a (.reserved id) }.Inv := by
  have hnone : a.returned? = none := by
    rw [Add.returned?, ha]
  have hno : ∀ p, a.reserves p = false := fun p => by
    rw [Add.reserves, ha]
  have hret : { w with adds := w.setStage k a (.reserved id) }.returned = w.returned :=
    returned_setStage hk hnone rfl
  constructor
  · intro p
    have hslots := h.slots p
    change (!Function.update w.isEmpty (position id) false p).toNat + _ =
      (w.adds.set k _).countP _ + _
    by_cases heq : p = position id
    · rw [heq] at hslots ⊢
      rw [hp] at hslots
      have hyes : Add.reserves (position id) { a with stage := .reserved id } = true :=
        decide_eq_true rfl
      rw [Function.update_self, countP_set_succ hk (hno _) hyes]
      change 0 + w.removes.countP _ = _ at hslots
      change 1 + w.removes.countP _ = _
      rw [Nat.zero_add] at hslots
      rw [hslots, Nat.add_comm, Nat.add_right_comm]
    · rw [Function.update_of_ne heq, countP_set_eq hk]
      · exact hslots
      · rw [hno]
        exact decide_eq_false (Ne.symm heq)
  · exact h.single
  · intro p c hc
    obtain ⟨hpos, removed, hr⟩ := h.pointer p c hc
    exact ⟨hpos, removed, (congrFun hret c.add).trans hr⟩
  · intro k' id' hk'
    exact h.current k' id' ((congrFun hret k').symm.trans hk')
  · intro r hr id' hid
    obtain ⟨hconn, hmarked⟩ := h.taking r hr id' hid
    exact ⟨hconn, fun k' removed hk' => hmarked k' removed ((congrFun hret k').symm.trans hk')⟩
  · exact h.took
  · exact h.stops
  · have huncounted : a.uncounted = false := by
      rw [Add.uncounted, ha]
    change w.connectionCount + UInt32.ofNat ((w.adds.set k _).countP Add.uncounted) =
      UInt32.ofNat ({ w with isEmpty := _ }.occupied + w.removes.countP Remove.uncounted)
    rw [occupied_insert hp, countP_set_succ hk huncounted rfl, Nat.add_right_comm,
      UInt32.ofNat_add, UInt32.ofNat_add (w.occupied + _), ← h.count, UInt32.add_assoc]

theorem countP_takes (hok : w.removes.all (!·.takes p)) :
    w.removes.countP (Remove.takes p) = 0 := by
  apply List.countP_eq_zero.mpr
  intro r hr htakes
  have hnot := List.all_eq_true.mp hok r hr
  rw [htakes] at hnot
  cases hnot

theorem Inv.vacant (h : w.Inv) (hk : w.adds[k]? = some a) (ha : a.reserves p = true)
    (hok : w.removes.all (!·.takes p)) : w.connection p = none := by
  have hslots := h.slots p
  have htakes := countP_takes hok
  have hpos : 0 < w.adds.countP (Add.reserves p) :=
    List.countP_pos_iff.mpr ⟨a, List.mem_of_getElem? hk, ha⟩
  rw [htakes] at hslots
  have hle := Bool.toNat_le (!w.isEmpty p)
  cases hc : w.connection p with
  | none => rfl
  | some c =>
    rw [hc] at hslots
    change _ = _ + 1 at hslots
    omega

theorem Inv.slots_store (h : w.Inv) (hk : w.adds[k]? = some a) (ha : a.stage = .counted id)
    (hvacant : w.connection (position id) = none) (p : Position) :
    (!w.isEmpty p).toNat + w.removes.countP (Remove.takes p) =
      (w.setStage k a (.returned id)).countP (Add.reserves p) +
        (Function.update w.connection (position id) (some ⟨id, k⟩) p).isSome.toNat := by
  have hslots := h.slots p
  by_cases heq : p = position id
  · have hyes : a.reserves (position id) = true := by
      rw [Add.reserves, ha]
      exact decide_eq_true rfl
    have hcount : (w.setStage k a (.returned id)).countP (Add.reserves (position id)) + 1 = _ :=
      countP_set_pred hk hyes rfl
    rw [heq] at hslots ⊢
    rw [hvacant, ← hcount] at hslots
    rw [Function.update_self]
    exact hslots
  · have hsame : (w.setStage k a (.returned id)).countP (Add.reserves p) =
        w.adds.countP (Add.reserves p) := by
      refine countP_set_eq hk ?_
      rw [Add.reserves, Add.reserves, ha]
      exact (decide_eq_false (Ne.symm heq)).symm
    rw [Function.update_of_ne heq, hsame]
    exact hslots

theorem Inv.position_ne_of_taking (h : w.Inv) (hvacant : w.connection (position id) = none)
    {r : Remove} (hr : r ∈ w.removes) {id' : ConnectionID} (hid : r.taking? = some id') :
    position id' ≠ position id := by
  intro heq
  have hconn := (h.taking r hr id' hid).1
  rw [heq, hvacant] at hconn
  cases hconn

theorem uncounted_store (hk : w.adds[k]? = some a) (ha : a.stage = .counted id) :
    (w.setStage k a (.returned id)).countP Add.uncounted = w.adds.countP Add.uncounted := by
  apply countP_set_eq hk
  rw [Add.uncounted, Add.uncounted, ha]

theorem Inv.store (h : w.Inv) (hk : w.adds[k]? = some a) (ha : a.stage = .counted id)
    (hok : w.removes.all (!·.takes (position id))) :
    { w with
      connection := Function.update w.connection (position id) (some ⟨id, k⟩)
      adds := w.setStage k a (.returned id) }.Inv := by
  have hyes : a.reserves (position id) = true := by
    rw [Add.reserves, ha]
    exact decide_eq_true rfl
  have hvacant := h.vacant hk hyes hok
  have hnone : w.returned k = none := by
    rw [returned_eq hk, Add.returned?, ha]
  have hret : ∀ k', { w with adds := w.setStage k a (.returned id) }.returned k' =
      if k' = k then some (id, a.removed) else w.returned k' :=
    fun k' => returned_set hk _ k'
  refine ⟨h.slots_store hk ha hvacant, h.single, fun p c hc => ?_, fun k' id' hk' => ?_,
    fun r hr id' hid => ?_, h.took, h.stops, ?_⟩
  · change Function.update w.connection (position id) (some ⟨id, k⟩) p = some c at hc
    by_cases heq : p = position id
    · rw [heq, Function.update_self] at hc
      obtain rfl := Option.some.inj hc
      exact ⟨heq.symm, a.removed, (hret k).trans (if_pos rfl)⟩
    · rw [Function.update_of_ne heq] at hc
      obtain ⟨hpos, removed, hr⟩ := h.pointer p c hc
      have hne : c.add ≠ k := by
        intro heq
        rw [heq, hnone] at hr
        cases hr
      exact ⟨hpos, removed, (hret c.add).trans ((if_neg hne).trans hr)⟩
  · have hk' := (hret k').symm.trans hk'
    change Function.update w.connection (position id) (some ⟨id, k⟩) (position id') = _
    split at hk'
    · rename_i heq
      obtain rfl := (Prod.mk.inj (Option.some.inj hk')).1
      rw [Function.update_self, heq]
    · have hcur := h.current k' id' hk'
      have hne : position id' ≠ position id := by
        intro heq
        rw [heq, hvacant] at hcur
        cases hcur
      rw [Function.update_of_ne hne]
      exact hcur
  · obtain ⟨hconn, hmarked⟩ := h.taking r hr id' hid
    have hne := h.position_ne_of_taking hvacant hr hid
    refine ⟨?_, fun k' removed hk' => ?_⟩
    · change (Function.update w.connection (position id) _ (position id')).map _ = _
      rw [Function.update_of_ne hne]
      exact hconn
    · have hk' := (hret k').symm.trans hk'
      split at hk'
      · obtain rfl := (Prod.mk.inj (Option.some.inj hk')).1
        exact absurd rfl hne
      · exact hmarked k' removed hk'
  · change w.connectionCount + UInt32.ofNat ((w.setStage k a _).countP Add.uncounted) = _
    rw [uncounted_store hk ha]
    exact h.count

theorem returned_mark (w : World) (id : ConnectionID) (k : Nat) :
    { w with adds := w.adds.map (markRemoved id) }.returned k =
      (w.returned k).map fun x => (x.1, x.2 || x.1 = id) := by
  rw [returned, returned, List.getElem?_map]
  cases w.adds[k]? with
  | none => rfl
  | some a =>
    change (markRemoved id a).returned? = a.returned?.map _
    rw [Add.returned?, Add.returned?, markRemoved]
    cases a.stage with
    | returned id' =>
      change some (id', _) = some (id', _)
      rw [show decide (Stage.returned id' = .returned id) = decide (id' = id) from
        decide_eq_decide.mpr ⟨Stage.returned.inj, congrArg _⟩]
    | _ => rfl

theorem Inv.mark (h : w.Inv) (id : ConnectionID) :
    { w with adds := w.adds.map (markRemoved id) }.Inv := by
  have hret := returned_mark w id
  have hreserves : ∀ p, (w.adds.map (markRemoved id)).countP (Add.reserves p) =
      w.adds.countP (Add.reserves p) := fun p => List.countP_map
  have huncounted : (w.adds.map (markRemoved id)).countP Add.uncounted =
      w.adds.countP Add.uncounted := List.countP_map
  constructor
  · intro p
    change _ = (w.adds.map (markRemoved id)).countP _ + _
    rw [hreserves]
    exact h.slots p
  · exact h.single
  · intro p c hc
    obtain ⟨hpos, removed, hr⟩ := h.pointer p c hc
    refine ⟨hpos, removed || c.id = id, ?_⟩
    rw [hret, hr]
    rfl
  · intro k id' hk
    rw [hret, Option.map_eq_some_iff] at hk
    obtain ⟨⟨id'', removed⟩, hx, heq⟩ := hk
    obtain ⟨rfl, hor⟩ := Prod.mk.inj heq
    obtain ⟨rfl, -⟩ := Bool.or_eq_false_iff.mp hor
    exact h.current k _ hx
  · intro r hr id' hid
    obtain ⟨hconn, hmarked⟩ := h.taking r hr id' hid
    refine ⟨hconn, fun k removed hk => ?_⟩
    rw [hret, Option.map_eq_some_iff] at hk
    obtain ⟨⟨id'', removed'⟩, hx, heq⟩ := hk
    obtain ⟨rfl, rfl⟩ := Prod.mk.inj heq
    rw [hmarked k removed' hx, Bool.true_or]
  · exact h.took
  · exact h.stops
  · change _ + UInt32.ofNat ((w.adds.map (markRemoved id)).countP _) = _
    rw [huncounted]
    exact h.count

theorem Inv.frameRemoves (h : w.Inv) {removes : List Remove} {stops : List Stop} {count : UInt32}
    (htakes : ∀ p, removes.countP (Remove.takes p) = w.removes.countP (Remove.takes p))
    (hmem : ∀ r ∈ removes, r ∈ w.removes ∨ r.taking? = none ∧
      ∀ id conn, r.took? = some (id, conn) → conn.map Connection.id = some id)
    (hstops : ∀ s ∈ stops, s.conn.map Connection.id = some s.id)
    (hcount : count + UInt32.ofNat (w.adds.countP Add.uncounted) =
      UInt32.ofNat (w.occupied + removes.countP Remove.uncounted)) :
    { w with removes := removes, stops := stops, connectionCount := count }.Inv where
  slots p := by
    dsimp only
    rw [htakes]
    exact h.slots p
  single p := by
    dsimp only
    rw [htakes]
    exact h.single p
  pointer := h.pointer
  current := h.current
  taking r hr id hid := by
    cases hmem r hr with
    | inl hold => exact h.taking r hold id hid
    | inr hnew =>
      rw [hnew.1] at hid
      cases hid
  took r hr := by
    cases hmem r hr with
    | inl hold => exact h.took r hold
    | inr hnew => exact hnew.2
  stops := hstops
  count := hcount

theorem Remove.takes_of_taking? {r : Remove} (h : r.taking? = some id) :
    r.takes (position id) = true := by
  cases r with
  | taking id' =>
    obtain rfl := Option.some.inj h
    exact decide_eq_true rfl
  | _ => cases h

theorem Inv.exchange (h : w.Inv) (hj : w.removes[j]? = some (.exchanging id))
    (hp : w.isEmpty (position id) = false)
    (hconn : (w.connection (position id)).map Connection.id = some id)
    (hok : w.removes.all (!·.takes (position id)))
    (hmarked : ∀ k removed, w.returned k = some (id, removed) → removed = true) :
    { w with
      isEmpty := Function.update w.isEmpty (position id) true
      removes := w.removes.set j (.taking id) }.Inv := by
  have hyes : (Remove.taking id).takes (position id) = true := decide_eq_true rfl
  have hself := countP_set_succ (p := Remove.takes (position id)) hj rfl hyes
  rw [countP_takes hok] at hself
  have hother : ∀ p, p ≠ position id →
      (w.removes.set j (.taking id)).countP (Remove.takes p) = w.removes.countP (Remove.takes p) :=
    fun p hne => countP_set_eq hj (decide_eq_false (Ne.symm hne))
  constructor
  · intro p
    have hslots := h.slots p
    change (!Function.update w.isEmpty (position id) true p).toNat +
      (w.removes.set j _).countP _ = _
    by_cases heq : p = position id
    · rw [heq] at hslots ⊢
      rw [hp, countP_takes hok] at hslots
      rw [Function.update_self, hself]
      exact hslots
    · rw [Function.update_of_ne heq, hother p heq]
      exact hslots
  · intro p
    change (w.removes.set j _).countP _ ≤ 1
    by_cases heq : p = position id
    · rw [heq, hself]
    · rw [hother p heq]
      exact h.single p
  · exact h.pointer
  · exact h.current
  · intro r hr id' hid
    cases List.mem_or_eq_of_mem_set hr with
    | inl hold => exact h.taking r hold id' hid
    | inr hnew =>
      rw [hnew] at hid
      obtain rfl := Option.some.inj hid
      exact ⟨hconn, hmarked⟩
  · intro r hr id' conn htook
    cases List.mem_or_eq_of_mem_set hr with
    | inl hold => exact h.took r hold id' conn htook
    | inr hnew =>
      rw [hnew] at htook
      cases htook
  · exact h.stops
  · change _ = UInt32.ofNat ({ w with isEmpty := _ }.occupied + (w.removes.set j _).countP _)
    rw [countP_set_succ hj rfl rfl, Nat.add_left_comm, occupied_erase hp, Nat.add_comm]
    exact h.count

theorem Inv.take (h : w.Inv) (hj : w.removes[j]? = some (.taking id)) :
    { w with
      connection := Function.update w.connection (position id) none
      removes := w.removes.set j (.uncounting id (w.connection (position id))) }.Inv := by
  obtain ⟨hconn, hmarked⟩ := h.taking _ (List.mem_of_getElem? hj) id rfl
  obtain ⟨c, hc, hcid⟩ := Option.map_eq_some_iff.mp hconn
  have hyes : (Remove.taking id).takes (position id) = true := decide_eq_true rfl
  have hself : (w.removes.set j (.uncounting id (w.connection (position id)))).countP
      (Remove.takes (position id)) + 1 = w.removes.countP (Remove.takes (position id)) :=
    countP_set_pred hj hyes rfl
  have hother : ∀ p, p ≠ position id →
      (w.removes.set j (.uncounting id (w.connection (position id)))).countP (Remove.takes p) =
        w.removes.countP (Remove.takes p) :=
    fun p hne => countP_set_eq hj (decide_eq_false (Ne.symm hne)).symm
  have hsingle := h.single (position id)
  constructor
  · intro p
    have hslots := h.slots p
    change _ + (w.removes.set j _).countP _ =
      _ + (Function.update w.connection (position id) none p).isSome.toNat
    by_cases heq : p = position id
    · rw [heq] at hslots ⊢
      rw [hc, ← hself, ← Nat.add_assoc] at hslots
      rw [Function.update_self]
      exact Nat.add_right_cancel hslots
    · rw [Function.update_of_ne heq, hother p heq]
      exact hslots
  · intro p
    change (w.removes.set j _).countP _ ≤ 1
    by_cases heq : p = position id
    · rw [heq]
      omega
    · rw [hother p heq]
      exact h.single p
  · intro p c' hc'
    change Function.update w.connection (position id) none p = some c' at hc'
    by_cases heq : p = position id
    · rw [heq, Function.update_self] at hc'
      cases hc'
    · rw [Function.update_of_ne heq] at hc'
      exact h.pointer p c' hc'
  · intro k id' hk
    change Function.update w.connection (position id) none (position id') = _
    have hcur := h.current k id' hk
    rw [Function.update_of_ne]
    · exact hcur
    · intro heq
      rw [heq, hc] at hcur
      obtain rfl := Option.some.inj hcur
      rw [← hcid] at hmarked
      cases hmarked k false hk
  · intro r hr id' hid
    have hne : position id' ≠ position id := by
      intro heq
      have hpos := List.countP_pos_iff.mpr ⟨r, hr, heq ▸ Remove.takes_of_taking? hid⟩
      change 0 < (w.removes.set j _).countP (Remove.takes (position id)) at hpos
      omega
    cases List.mem_or_eq_of_mem_set hr with
    | inl hold =>
      obtain ⟨hconn', hmarked'⟩ := h.taking r hold id' hid
      refine ⟨?_, hmarked'⟩
      change (Function.update w.connection (position id) none (position id')).map _ = _
      rw [Function.update_of_ne hne]
      exact hconn'
    | inr hnew =>
      rw [hnew] at hid
      cases hid
  · intro r hr id' conn htook
    cases List.mem_or_eq_of_mem_set hr with
    | inl hold => exact h.took r hold id' conn htook
    | inr hnew =>
      rw [hnew] at htook
      obtain ⟨rfl, rfl⟩ := Prod.mk.inj (Option.some.inj htook)
      exact hconn
  · exact h.stops
  · have hsame : (w.removes.set j (.uncounting id (w.connection (position id)))).countP
        Remove.uncounted = w.removes.countP Remove.uncounted := countP_set_eq hj rfl
    change _ = UInt32.ofNat (w.occupied + (w.removes.set j _).countP _)
    rw [hsame]
    exact h.count

theorem Inv.advance (h : w.Inv) (hk : w.adds[k]? = some a)
    (hok : ∀ id, a.stage = .counted id → w.removes.all (!·.takes (position id))) :
    (w.advance k a).Inv := by
  rw [World.advance]
  split
  · rename_i ha
    apply h.setStage_idle hk
    · intro p
      rw [Add.reserves, Add.reserves, ha]
    · rw [Add.returned?, Add.returned?, ha]
    · rw [Add.uncounted, Add.uncounted, ha]
  · rename_i id ha
    split
    · apply h.setStage_idle hk
      · intro p
        rw [Add.reserves, Add.reserves, ha]
      · rw [Add.returned?, Add.returned?, ha]
      · rw [Add.uncounted, Add.uncounted, ha]
    · rename_i hnot
      exact h.reserve hk ha (Bool.eq_true_of_not_eq_false fun hp => hnot (.inr hp))
  · rename_i ha
    split
    all_goals
      apply h.setStage_idle hk
      · intro p
        rw [Add.reserves, Add.reserves, ha]
      · rw [Add.returned?, Add.returned?, ha]
      · rw [Add.uncounted, Add.uncounted, ha]
  · rename_i id ha
    have huncounted : a.uncounted = true := by
      rw [Add.uncounted, ha]
    apply h.setStage hk
    · intro p
      rw [Add.reserves, Add.reserves, ha]
    · rw [Add.returned?, Add.returned?, ha]
    · have hpred : (w.setStage k a (.counted id)).countP Add.uncounted + 1 =
          w.adds.countP Add.uncounted := countP_set_pred hk huncounted rfl
      rw [← hpred, Nat.add_comm, UInt32.ofNat_add, ← UInt32.add_assoc]
      rfl
  · rename_i id ha
    exact h.store hk ha (hok id ha)
  · exact h
  · exact h

theorem Inv.advanceRemove (h : w.Inv) {r : Remove} (hj : w.removes[j]? = some r)
    (hok : w.Orderly (.advanceRemove j)) : (w.advanceRemove j r).Inv := by
  cases r with
  | exchanging id =>
    rw [World.advanceRemove]
    have hmark := h.mark id
    cases hp : w.isEmpty (position id) with
    | true =>
      have hsame : Function.update w.isEmpty (position id) true = w.isEmpty := by
        rw [← hp, Function.update_eq_self]
      rw [hsame]
      apply hmark.frameRemoves
      · exact fun p => countP_set_eq (p := Remove.takes p) hj rfl
      · intro r hr
        refine (List.mem_or_eq_of_mem_set hr).imp_right fun hnew => ?_
        rw [hnew]
        exact ⟨rfl, nofun⟩
      · exact h.stops
      · have hsame : (w.removes.set j .returned).countP Remove.uncounted =
            w.removes.countP Remove.uncounted := countP_set_eq hj rfl
        rw [if_pos rfl, hsame]
        exact hmark.count
    | false =>
      obtain hempty | ⟨hconn, hnot⟩ := hok id hj
      · rw [hp] at hempty
        cases hempty
      · apply hmark.exchange hj hp hconn hnot
        intro k removed hk
        rw [returned_mark, Option.map_eq_some_iff] at hk
        obtain ⟨⟨id', removed'⟩, -, heq⟩ := hk
        obtain ⟨rfl, rfl⟩ := Prod.mk.inj heq
        rw [decide_eq_true rfl, Bool.or_true]
  | taking id => exact h.take hj
  | uncounting id conn =>
    have htook := h.took _ (List.mem_of_getElem? hj) id conn rfl
    apply h.frameRemoves
    · exact fun p => countP_set_eq (p := Remove.takes p) hj rfl
    · intro r hr
      refine (List.mem_or_eq_of_mem_set hr).imp_right fun hnew => ?_
      rw [hnew]
      refine ⟨rfl, fun id' conn' heq => ?_⟩
      obtain ⟨rfl, rfl⟩ := Prod.mk.inj (Option.some.inj heq)
      exact htook
    · exact h.stops
    · have hpred : (w.removes.set j (.stopping id conn)).countP Remove.uncounted + 1 =
          w.removes.countP Remove.uncounted := countP_set_pred hj rfl rfl
      have hcount := h.count
      rw [← hpred, ← Nat.add_assoc, UInt32.ofNat_add _ 1] at hcount
      grind
  | stopping id conn =>
    have htook := h.took _ (List.mem_of_getElem? hj) id conn rfl
    apply h.frameRemoves
    · exact fun p => countP_set_eq (p := Remove.takes p) hj rfl
    · intro r hr
      refine (List.mem_or_eq_of_mem_set hr).imp_right fun hnew => ?_
      rw [hnew]
      exact ⟨rfl, nofun⟩
    · intro s hs
      cases List.mem_append.mp hs with
      | inl hold => exact h.stops s hold
      | inr hnew =>
        obtain rfl := List.mem_singleton.mp hnew
        exact htook
    · have hsame : (w.removes.set j .returned).countP Remove.uncounted =
          w.removes.countP Remove.uncounted := countP_set_eq hj rfl
      rw [hsame]
      exact h.count
  | returned => exact h

theorem Inv.step (h : w.Inv) (hok : w.Orderly e) : (w.step e).Inv := by
  cases e with
  | add => exact h.add
  | advance k =>
    rw [World.step]
    split
    · exact h
    · rename_i a hk
      exact h.advance hk fun id ha => hok a id hk ha
  | remove id =>
    apply h.frameRemoves
    · exact fun p => List.countP_append
    · intro r hr
      refine (List.mem_append.mp hr).imp_right fun hnew => ?_
      obtain rfl := List.mem_singleton.mp hnew
      exact ⟨rfl, nofun⟩
    · exact h.stops
    · rw [List.countP_append]
      exact h.count
  | advanceRemove j =>
    rw [World.step]
    split
    · exact h
    · rename_i r hj
      exact h.advanceRemove hj hok

@[simp] theorem getConnection_eq_some {c : Connection} :
    w.getConnection id = some c ↔ w.connection (position id) = some c ∧ c.id = id := by
  rw [getConnection]
  constructor
  · intro h
    split at h
    · cases h
    · rename_i ret hret
      split at h
      · rename_i hid
        obtain rfl := Option.some.inj h
        exact ⟨hret, hid⟩
      · cases h
  · rintro ⟨hc, hid⟩
    rw [hc]
    exact if_pos hid

theorem Inv.identified (h : w.Inv) : w.Identified where
  found k id hk := getConnection_eq_some.mpr ⟨h.current k id hk, rfl⟩
  own id c hc := by
    obtain ⟨hptr, rfl⟩ := getConnection_eq_some.mp hc
    exact ⟨rfl, (h.pointer _ c hptr).2⟩
  stops := h.stops
  count hadds hremoves := by
    have hcount := h.count
    have hadd : w.adds.countP Add.uncounted = 0 := by
      apply List.countP_eq_zero.mpr
      intro a ha hun
      have hnot := List.all_eq_true.mp hadds a ha
      rw [hun] at hnot
      cases hnot
    have hremove : w.removes.countP Remove.uncounted = 0 := by
      apply List.countP_eq_zero.mpr
      intro r hr hun
      have hnot := List.all_eq_true.mp hremoves r hr
      rw [hun] at hnot
      cases hnot
    have hle : w.occupied ≤ c_connectionPoolSize := by
      rw [← Fintype.card_fin c_connectionPoolSize]
      exact Finset.card_le_univ _
    rw [hadd, hremove, Nat.add_zero] at hcount
    change w.connectionCount + 0 = _ at hcount
    rw [UInt32.add_zero] at hcount
    rw [hcount]
    exact UInt32.toNat_ofNat_of_lt' (hle.trans_lt (by decide))

end World

theorem start_inv : start.Inv where
  slots _ := rfl
  single _ := Nat.zero_le 1
  pointer := nofun
  current := nofun
  taking := nofun
  took := nofun
  stops := nofun
  count := by
    have hocc : start.occupied = 0 := by
      rw [World.occupied, Finset.card_eq_zero]
      exact Finset.filter_false_of_mem fun _ _ => nofun
    rw [hocc]
    rfl

def addition (k : Nat) : List Event := .add :: List.replicate 4 (.advance k)

def removal (j : Nat) (id : ConnectionID) : List Event :=
  .remove id :: List.replicate 4 (.advanceRemove j)

/-- In a run in which every `RemoveConnection` finds its own connection or an empty slot, and
no connection is stored where another is still to be moved out, ids identify connections. -/
theorem identified_of_orderly {es : List Event} (hes : Along World.step World.Orderly start es) :
    Throughout World.step World.Identified start es :=
  (hes.throughout (fun _ _ hok h => World.Inv.step h hok) start_inv).mono
    fun _ h => h.identified

theorem identified_of_orderly_one :
    Throughout World.step World.Identified start (addition 0 ++ removal 0 1) :=
  identified_of_orderly
    ⟨trivial, fun _ _ _ _ => rfl, fun _ _ _ _ => rfl, fun _ _ _ _ => rfl, fun _ _ _ _ => rfl,
      trivial, fun _ h => .inr (by obtain ⟨rfl⟩ := h; exact ⟨rfl, rfl⟩), nofun, nofun, nofun,
      trivial⟩

namespace World

variable {w : World} {id : ConnectionID} {n : Nat}

theorem run_addition (hne : w.nextConnectionID ≠ c_invalidConnectionID)
    (hp : w.isEmpty (position w.nextConnectionID) = true) :
    run World.step w (addition w.adds.length) =
      { w with
        nextConnectionID := w.nextConnectionID + 1
        connectionCount := w.connectionCount + 1
        isEmpty := Function.update w.isEmpty (position w.nextConnectionID) false
        connection := Function.update w.connection (position w.nextConnectionID)
          (some ⟨w.nextConnectionID, w.adds.length⟩)
        adds := w.adds ++ [⟨.returned w.nextConnectionID, false⟩] } := by
  simp [addition, World.step, World.advance, World.setStage, hne, hp]

theorem run_addition_slot (hne : w.nextConnectionID ≠ c_invalidConnectionID)
    (hp : w.isEmpty (position w.nextConnectionID) = true) :
    (run World.step w (addition w.adds.length)).isEmpty (position w.nextConnectionID) = false ∧
      (run World.step w (addition w.adds.length)).connection (position w.nextConnectionID) =
        some ⟨w.nextConnectionID, w.adds.length⟩ ∧
      (run World.step w (addition w.adds.length)).removes = w.removes := by
  rw [run_addition hne hp]
  exact ⟨Function.update_self .., Function.update_self .., rfl⟩

theorem run_removal {c : Connection} (hp : w.isEmpty (position id) = false)
    (hc : w.connection (position id) = some c) :
    (run World.step w (removal w.removes.length id)).isEmpty =
        Function.update w.isEmpty (position id) true ∧
      (run World.step w (removal w.removes.length id)).stops = w.stops ++ [⟨id, some c⟩] := by
  simp [removal, World.step, World.advanceRemove, hp, hc]

/-- The ids up to `n + 1` have been given out, and the slot of the first one is empty again. -/
structure Filled (n : Nat) (w : World) : Prop where
  next : w.nextConnectionID = UInt32.ofNat (n + 2)
  adds : w.adds.length = n + 1
  removes : w.removes.length = 1
  isEmpty : ∀ i, n + 2 ≤ i → i ≤ 257 → w.isEmpty (position (UInt32.ofNat i)) = true

theorem position_ofNat {i : Nat} (hi : i ≤ 257) : (position (UInt32.ofNat i)).val = i % 256 := by
  rw [position, UInt32.toNat_ofNat_of_lt' (hi.trans_lt (by decide))]
  rfl

theorem Filled.fresh (h : Filled n w) (hn : n < 256) :
    w.nextConnectionID ≠ c_invalidConnectionID ∧
      w.isEmpty (position w.nextConnectionID) = true := by
  rw [h.next]
  refine ⟨fun hzero => ?_, h.isEmpty (n + 2) le_rfl (by omega)⟩
  have hnat := congrArg UInt32.toNat hzero
  rw [UInt32.toNat_ofNat_of_lt' (by change _ < 2 ^ 32; omega)] at hnat
  cases hnat

theorem Filled.succ (h : Filled n w) (hn : n < 256) :
    Filled (n + 1) (run World.step w (addition (n + 1))) := by
  obtain ⟨hne, hp⟩ := h.fresh hn
  have hadd : addition (n + 1) = addition w.adds.length := by
    rw [h.adds]
  rw [hadd, run_addition hne hp]
  refine ⟨?_, ?_, h.removes, fun i hle hi => ?_⟩
  · change w.nextConnectionID + 1 = _
    rw [h.next]
    exact (UInt32.ofNat_add (n + 2) 1).symm
  · change (w.adds ++ [_]).length = _
    rw [List.length_append, h.adds]
    rfl
  · change Function.update w.isEmpty _ false _ = true
    rw [Function.update_of_ne]
    · exact h.isEmpty i (by omega) hi
    · intro heq
      have hval := congrArg Fin.val heq
      rw [h.next, position_ofNat hi, position_ofNat (by omega)] at hval
      omega

theorem filled (n : Nat) (hn : n ≤ 256) :
    Filled n (run World.step start (addition 0 ++ removal 0 1 ++
      (List.range n).flatMap fun k => addition (k + 1))) := by
  induction n with
  | zero =>
    have hstart := run_addition (w := start) (by decide) rfl
    have hone : (run World.step start (addition 0)).isEmpty (position 1) = false := by
      decide +kernel
    have hremove := (run_removal hone (c := ⟨1, 0⟩) (by decide +kernel)).1
    refine ⟨by decide +kernel, by decide +kernel, by decide +kernel, fun i hle hi => ?_⟩
    rw [List.range_zero, List.flatMap_nil, List.append_nil, run_append]
    refine (congrFun hremove _).trans ?_
    rw [show run World.step start (addition 0) = _ from hstart]
    change Function.update (Function.update start.isEmpty (position 1) false)
      (position 1) true _ = _
    rw [Function.update_idem]
    exact congrFun (Function.update_eq_self (position 1) start.isEmpty) _
  | succ n ih =>
    rw [List.range_succ, List.flatMap_append, ← List.append_assoc, run_append,
      List.flatMap_singleton]
    exact (ih (Nat.le_of_succ_le hn)).succ hn

end World

/-- Both ends of the first connection report its failure, the second one late: another
connection has its slot, and it is stopped. -/
theorem stops_other : ¬ ∀ es, Throughout World.step World.Identified start es := by
  intro h
  have hfilled := World.filled 255 (by decide)
  obtain ⟨hne, hp⟩ := hfilled.fresh (by decide)
  have hlast := (h (addition 0 ++ removal 0 1 ++
    ((List.range 255).flatMap fun k => addition (k + 1)) ++ addition 256 ++ removal 1 1)).last
  rw [run_append, run_append] at hlast
  generalize run World.step start _ = w at hfilled hlast hne hp
  obtain ⟨hempty, hconn, hremoves⟩ := World.run_addition_slot hne hp
  have hpos : position w.nextConnectionID = position 1 := by
    rw [hfilled.next]
    decide +kernel
  rw [hpos] at hempty hconn
  have hstops := (World.run_removal hempty hconn).2
  rw [hremoves, hfilled.removes, hfilled.adds] at hstops
  have hid := hlast.stops ⟨1, some ⟨w.nextConnectionID, 256⟩⟩ (by
    rw [hstops]
    exact List.mem_append_right _ (List.mem_singleton_self _))
  rw [hfilled.next] at hid
  exact absurd hid (by decide)

end ConnectionManager

end Sptag.Socket
