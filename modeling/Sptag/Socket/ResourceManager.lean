import Sptag.Common
import Sptag.Lib.Run
import Sptag.Lib.Threads

/-! `ResourceManager` of `ResourceManager.h` in single steps: any number of `Add` calls in
progress, callers of `GetAndRemove` and `Remove`, and the thread that checks for timeouts. -/

namespace Sptag.Socket

open Lib

abbrev ResourceID := UInt32

def c_invalidResourceID : ResourceID := 0

namespace ResourceManager

inductive Stage
  | fetching
  | storing (rid : ResourceID)
  | timing (rid : ResourceID)
  | listing (rid : ResourceID) (expireTime : Nat)
  | counting (rid : ResourceID)
  | returned (rid : ResourceID)
  deriving DecidableEq

namespace Stage

def id? : Stage → Option ResourceID
  | fetching => none
  | storing rid | timing rid | listing rid _ | counting rid | returned rid => some rid

def stored? : Stage → Option ResourceID
  | fetching | storing _ => none
  | timing rid | listing rid _ | counting rid | returned rid => some rid

end Stage

structure Add where
  timeoutMilliseconds : Nat
  stage : Stage
  deriving DecidableEq

def Add.fetched (a : Add) : Bool := a.stage.id?.isSome

structure ResourceItem where
  resourceID : ResourceID
  add : Nat
  expireTime : Nat
  deriving DecidableEq

inductive Taker
  | caller
  /-- The callback of the item that the call `add` has listed. -/
  | callback (add : Nat)
  deriving DecidableEq

structure Delivery where
  resource : Nat
  id : ResourceID
  taker : Taker
  deriving DecidableEq

/-- The timeout thread: before the test of the counter, with the lock of the list, with the
items that it took from the list, or with a resource for the callback of its item. -/
inductive Checker
  | checking
  | scanning
  | handing
  | calling (d : Delivery)
  deriving DecidableEq

def Checker.held : Checker → List Delivery
  | calling d => [d]
  | _ => []

theorem Checker.eq_of_mem_held {checker : Checker} {d : Delivery} (h : d ∈ checker.held) :
    checker = .calling d := by
  cases checker with
  | calling d' => rw [List.mem_singleton.mp h]
  | _ => cases h

structure World where
  nextResourceID : ResourceID
  resources : ResourceID → Option Nat
  timeoutList : List ResourceItem
  timeoutItemCount : UInt32
  timeouted : List ResourceItem
  checker : Checker
  clock : Nat
  adds : List Add
  deliveries : List Delivery
  /-- The callbacks that the timeout thread has called. -/
  calls : List Delivery

inductive Event
  | add (timeoutMilliseconds : Nat)
  /-- The next step of an `Add`. -/
  | advance (add : Nat)
  | getAndRemove (rid : ResourceID)
  | remove (rid : ResourceID)
  /-- The next step of the timeout thread. -/
  | checkTimeout
  | tick
  deriving DecidableEq

def Event.isAdd : Event → Bool
  | add _ => true
  | _ => false

def Event.removes : Event → Bool
  | remove _ => true
  | _ => false

def start : World where
  nextResourceID := 1
  resources := fun _ => none
  timeoutList := []
  timeoutItemCount := 0
  timeouted := []
  checker := .checking
  clock := 0
  adds := []
  deliveries := []
  calls := []

namespace World

variable (w : World)

def setStage (k : Nat) (a : Add) (stage : Stage) : World :=
  { w with adds := w.adds.set k { a with stage := stage } }

def takeOut (rid : ResourceID) (taker : Taker) : World :=
  { w with
    resources := Function.update w.resources rid none
    deliveries := w.deliveries ++ (w.resources rid).toList.map (⟨·, rid, taker⟩) }

def emplace (rid : ResourceID) (k : Nat) : World :=
  { w with resources := Function.update w.resources rid ((w.resources rid).or (some k)) }

def advance (k : Nat) (a : Add) : World :=
  match a.stage with
  | .fetching =>
    let w' := { w with nextResourceID := w.nextResourceID + 1 }
    if w.nextResourceID = c_invalidResourceID then w'
    else w'.setStage k a (.storing w.nextResourceID)
  | .storing rid =>
    (w.emplace rid k).setStage k a
      (if 0 < a.timeoutMilliseconds then .timing rid else .returned rid)
  | .timing rid => w.setStage k a (.listing rid (w.clock + a.timeoutMilliseconds))
  | .listing rid expireTime =>
    if w.checker = .scanning then w
    else
      { w.setStage k a (.counting rid) with
        timeoutList := w.timeoutList ++ [⟨rid, k, expireTime⟩] }
  | .counting rid =>
    { w.setStage k a (.returned rid) with timeoutItemCount := w.timeoutItemCount + 1 }
  | .returned _ => w

def answer (item : ResourceItem) : Checker :=
  match w.resources item.resourceID with
  | some r => .calling ⟨r, item.resourceID, .callback item.add⟩
  | none => .handing

def checkTimeout : World :=
  match w.checker with
  | .checking => if 0 < w.timeoutItemCount then { w with checker := .scanning } else w
  | .scanning =>
    match w.timeoutList with
    | [] => { w with checker := .handing }
    | item :: rest =>
      if item.expireTime ≤ w.clock then
        { w with
          timeoutList := rest
          timeouted := w.timeouted ++ [item]
          timeoutItemCount := w.timeoutItemCount - 1 }
      else { w with checker := .handing }
  | .handing =>
    match w.timeouted with
    | [] => { w with checker := .checking }
    | item :: rest =>
      { w.takeOut item.resourceID (.callback item.add) with
        timeouted := rest
        checker := w.answer item }
  | .calling d => { w with calls := w.calls ++ [d], checker := .handing }

def step : Event → World
  | .add timeoutMilliseconds =>
    { w with adds := w.adds ++ [⟨timeoutMilliseconds, .fetching⟩] }
  | .advance k =>
    match w.adds[k]? with
    | none => w
    | some a => w.advance k a
  | .getAndRemove rid => w.takeOut rid .caller
  | .remove rid => { w with resources := Function.update w.resources rid none }
  | .checkTimeout => w.checkTimeout
  | .tick => { w with clock := w.clock + 1 }

def lookup : Event → Option ResourceID
  | .getAndRemove rid => some rid
  | .checkTimeout =>
    if w.checker = .handing then w.timeouted.head?.map ResourceItem.resourceID else none
  | _ => none

def Named (k : Nat) (rid : ResourceID) : Prop :=
  ∃ a, w.adds[k]? = some a ∧ a.stage.id? = some rid

def Stored (k : Nat) (rid : ResourceID) : Prop :=
  ∃ a, w.adds[k]? = some a ∧ a.stage.stored? = some rid

/-- No resource is handed out twice, and each one under the id of its `Add`; a callback gets
the resource that it was added with. -/
structure Settled : Prop where
  once : (w.deliveries.map Delivery.resource).Nodup
  id : ∀ d ∈ w.deliveries, w.Stored d.resource d.id
  own : ∀ d ∈ w.deliveries, ∀ k, d.taker = .callback k → k = d.resource

structure Called : Prop where
  calls : (w.calls ++ w.checker.held).Sublist w.deliveries
  own : ∀ d ∈ w.calls ++ w.checker.held, d.taker = .callback d.resource

variable {w} {w' : World} {k k' : Nat} {a : Add} {rid : ResourceID} {e : Event}

structure Ids (w : World) : Prop where
  next : w.nextResourceID = UInt32.ofNat (w.adds.countP Add.fetched + 1)
  le : ∀ k rid, w.Named k rid → rid.toNat ≤ w.adds.countP Add.fetched
  inj : ∀ k k' rid, w.Named k rid → w.Named k' rid → k = k'

theorem Ids.congr (h : w.Ids) (hnext : w'.nextResourceID = w.nextResourceID)
    (hadds : w'.adds = w.adds) : w'.Ids := by
  have hnamed : w'.Named = w.Named := by
    funext k rid
    rw [Named, Named, hadds]
  constructor
  · rw [hnext, hadds]
    exact h.next
  · rw [hnamed, hadds]
    exact h.le
  · rw [hnamed]
    exact h.inj

theorem exists_set_iff {adds : List Add} (hk : adds[k]? = some a) {α : Type*}
    (f : Stage → Option α) (stage : Stage) (k' : Nat) (x : α) :
    (∃ b, (adds.set k { a with stage := stage })[k']? = some b ∧ f b.stage = some x) ↔
      if k' = k then f stage = some x else ∃ b, adds[k']? = some b ∧ f b.stage = some x := by
  have hlt : k < adds.length := (List.getElem?_eq_some_iff.mp hk).1
  split
  · rename_i heq
    subst heq
    rw [List.getElem?_set_self hlt]
    simp
  · rename_i hne
    rw [List.getElem?_set_ne (Ne.symm hne)]

theorem named_setStage (hk : w.adds[k]? = some a) (stage : Stage) :
    (w.setStage k a stage).Named k' rid ↔
      if k' = k then stage.id? = some rid else w.Named k' rid :=
  exists_set_iff hk Stage.id? stage k' rid

theorem stored_setStage (hk : w.adds[k]? = some a) (stage : Stage) :
    (w.setStage k a stage).Stored k' rid ↔
      if k' = k then stage.stored? = some rid else w.Stored k' rid :=
  exists_set_iff hk Stage.stored? stage k' rid

theorem Stage.id?_of_stored? {stage : Stage} (h : stage.stored? = some rid) :
    stage.id? = some rid := by
  cases stage with
  | fetching => cases h
  | storing rid => cases h
  | _ => exact h

theorem Stored.named (h : w.Stored k rid) : w.Named k rid := by
  obtain ⟨a, ha, hs⟩ := h
  exact ⟨a, ha, Stage.id?_of_stored? hs⟩

theorem Ids.setStage (h : w.Ids) (hk : w.adds[k]? = some a) {stage : Stage}
    (hid : stage.id? = a.stage.id?) : (w.setStage k a stage).Ids := by
  have hnamed : ∀ k' rid, (w.setStage k a stage).Named k' rid → w.Named k' rid := by
    intro k' rid hn
    rw [named_setStage hk] at hn
    split at hn
    · rename_i heq
      exact ⟨a, heq ▸ hk, hid ▸ hn⟩
    · exact hn
  have hcount : (w.setStage k a stage).adds.countP Add.fetched = w.adds.countP Add.fetched := by
    have hset := countP_set_add (p := Add.fetched) hk { a with stage := stage }
    rw [Add.fetched, Add.fetched, hid] at hset
    exact Nat.add_right_cancel hset
  constructor
  · rw [hcount]
    exact h.next
  · intro k' rid hn
    rw [hcount]
    exact h.le k' rid (hnamed k' rid hn)
  · intro k' k'' rid hn hn'
    exact h.inj k' k'' rid (hnamed k' rid hn) (hnamed k'' rid hn')

theorem Ids.fetch (h : w.Ids) (hk : w.adds[k]? = some a) (ha : a.stage = .fetching)
    (hlt : w.adds.length < 2 ^ 32) : w.nextResourceID ≠ c_invalidResourceID ∧
      ({ w with nextResourceID := w.nextResourceID + 1 }.setStage k a
        (.storing w.nextResourceID)).Ids := by
  have hset := countP_set_add (p := Add.fetched) hk { a with stage := .storing w.nextResourceID }
  have hnot : a.fetched = false := by
    rw [Add.fetched, ha]
    rfl
  rw [hnot] at hset
  simp only [Add.fetched, Stage.id?, Option.isSome_some, if_true, Bool.false_eq_true, if_false,
    Nat.add_zero] at hset
  have hle := List.countP_le_length (p := Add.fetched)
    (l := w.adds.set k { a with stage := .storing w.nextResourceID })
  rw [List.length_set] at hle
  have hnext : w.nextResourceID.toNat = w.adds.countP Add.fetched + 1 := by
    rw [h.next]
    apply UInt32.toNat_ofNat_of_lt'
    change w.adds.countP Add.fetched + 1 < 2 ^ 32
    change _ = w.adds.countP Add.fetched + 1 at hset
    omega
  have hnamed : ∀ k' rid, ({ w with nextResourceID := w.nextResourceID + 1 }.setStage k a
      (.storing w.nextResourceID)).Named k' rid →
      k' = k ∧ rid = w.nextResourceID ∨ w.Named k' rid := by
    intro k' rid hn
    have hn := (exists_set_iff hk Stage.id? _ k' rid).mp hn
    split at hn
    · rename_i heq
      exact .inl ⟨heq, (Option.some.inj hn).symm⟩
    · exact .inr hn
  have hnew : ¬ w.nextResourceID.toNat ≤ w.adds.countP Add.fetched := by
    rw [hnext]
    exact Nat.not_succ_le_self _
  refine ⟨fun hzero => ?_, ?_, fun k' rid hn => ?_, fun k' k'' rid hn hn' => ?_⟩
  · rw [hzero] at hnext
    cases hnext
  · change w.nextResourceID + 1 = UInt32.ofNat
      ((w.adds.set k { a with stage := .storing w.nextResourceID }).countP Add.fetched + 1)
    rw [show (w.adds.set k _).countP Add.fetched = _ from hset, UInt32.ofNat_add _ 1, h.next]
    rfl
  · change rid.toNat ≤ (w.adds.set k _).countP Add.fetched
    rw [show (w.adds.set k _).countP Add.fetched = _ from hset]
    obtain ⟨-, rfl⟩ | hn := hnamed k' rid hn
    · exact hnext.le
    · exact (h.le k' rid hn).trans (Nat.le_succ _)
  · obtain ⟨rfl, rfl⟩ | hn := hnamed k' rid hn
    · obtain ⟨rfl, -⟩ | hn' := hnamed k'' _ hn'
      · rfl
      · exact absurd (h.le k'' _ hn') hnew
    · obtain ⟨-, rfl⟩ | hn' := hnamed k'' rid hn'
      · exact absurd (h.le k' _ hn) hnew
      · exact h.inj k' k'' rid hn hn'

@[simp] theorem checkTimeout_adds (w : World) : w.checkTimeout.adds = w.adds := by
  rw [checkTimeout]
  split
  · split <;> rfl
  · split
    · rfl
    · split <;> rfl
  · split
    · rfl
    · rfl
  · rfl

@[simp] theorem checkTimeout_nextResourceID (w : World) :
    w.checkTimeout.nextResourceID = w.nextResourceID := by
  rw [checkTimeout]
  split
  · split <;> rfl
  · split
    · rfl
    · split <;> rfl
  · split
    · rfl
    · rfl
  · rfl

@[simp] theorem advance_length (w : World) (k : Nat) (a : Add) :
    (w.advance k a).adds.length = w.adds.length := by
  rw [advance]
  split
  · dsimp only
    split
    · rfl
    · exact List.length_set
  · exact List.length_set
  · exact List.length_set
  · split
    · rfl
    · exact List.length_set
  · exact List.length_set
  · rfl

@[simp] theorem step_length (w : World) (e : Event) :
    (w.step e).adds.length = w.adds.length + if e.isAdd then 1 else 0 := by
  cases e with
  | add timeoutMilliseconds => exact List.length_append
  | advance k =>
    rw [step]
    split
    · rfl
    · exact advance_length w k _
  | getAndRemove rid => rfl
  | remove rid => rfl
  | checkTimeout => exact congrArg List.length (checkTimeout_adds w)
  | tick => rfl

theorem Ids.step (h : w.Ids) (hlt : w.adds.length < 2 ^ 32) (e : Event) : (w.step e).Ids := by
  cases e with
  | add timeoutMilliseconds =>
    have hnamed : ∀ k rid, (w.step (.add timeoutMilliseconds)).Named k rid → w.Named k rid := by
      rintro k rid ⟨a, ha, hid⟩
      rw [World.step, List.getElem?_append] at ha
      split at ha
      · exact ⟨a, ha, hid⟩
      · obtain rfl := List.mem_singleton.mp (List.mem_of_getElem? ha)
        cases hid
    have hcount : (w.step (.add timeoutMilliseconds)).adds.countP Add.fetched =
        w.adds.countP Add.fetched := List.countP_append
    constructor
    · rw [hcount]
      exact h.next
    · intro k rid hn
      rw [hcount]
      exact h.le k rid (hnamed k rid hn)
    · intro k k' rid hn hn'
      exact h.inj k k' rid (hnamed k rid hn) (hnamed k' rid hn')
  | advance k =>
    rw [World.step]
    split
    · exact h
    · rename_i a hk
      rw [advance]
      split
      · rename_i ha
        obtain ⟨hne, hids⟩ := h.fetch hk ha hlt
        rw [if_neg hne]
        exact hids
      · rename_i rid ha
        have hids : (w.emplace rid k).Ids := h.congr rfl rfl
        apply hids.setStage hk
        rw [ha]
        split <;> rfl
      · rename_i rid ha
        apply h.setStage hk
        rw [ha]
        rfl
      · rename_i rid expireTime ha
        split
        · exact h
        · have hids : (w.setStage k a (.counting rid)).Ids := by
            apply h.setStage hk
            rw [ha]
            rfl
          exact hids.congr rfl rfl
      · rename_i rid ha
        have hids : (w.setStage k a (.returned rid)).Ids := by
          apply h.setStage hk
          rw [ha]
          rfl
        exact hids.congr rfl rfl
      · exact h
  | getAndRemove rid => exact h.congr rfl rfl
  | remove rid => exact h.congr rfl rfl
  | checkTimeout => exact h.congr (checkTimeout_nextResourceID w) (checkTimeout_adds w)
  | tick => exact h.congr rfl rfl

theorem setStage_stored (hk : w.adds[k]? = some a) {stage : Stage}
    (hstage : ∀ rid, a.stage.stored? = some rid → stage.stored? = some rid)
    (hst : w.Stored k' rid) : (w.setStage k a stage).Stored k' rid := by
  rw [stored_setStage hk]
  split
  · rename_i heq
    obtain ⟨b, hb, hs⟩ := hst
    rw [heq] at hb
    obtain rfl := Option.some.inj (hk.symm.trans hb)
    exact hstage rid hs
  · exact hst

/-- A resource in the table has not been handed out, and an item of the timeout thread bears
the id of its own `Add`. -/
structure Table (w : World) : Prop where
  entry : ∀ rid k, w.resources rid = some k →
    w.Stored k rid ∧ k ∉ w.deliveries.map Delivery.resource
  items : ∀ item ∈ w.timeoutList ++ w.timeouted, w.Stored item.add item.resourceID
  settled : w.Settled

theorem Table.mono (h : w.Table) (hstored : ∀ k rid, w.Stored k rid → w'.Stored k rid)
    (hres : ∀ rid k, w'.resources rid = some k → w.resources rid = some k)
    (hitems : ∀ item ∈ w'.timeoutList ++ w'.timeouted,
      item ∈ w.timeoutList ++ w.timeouted ∨ w'.Stored item.add item.resourceID)
    (hdel : w'.deliveries = w.deliveries) : w'.Table := by
  constructor
  · intro rid k hentry
    obtain ⟨hst, hnot⟩ := h.entry rid k (hres rid k hentry)
    rw [hdel]
    exact ⟨hstored k rid hst, hnot⟩
  · intro item hitem
    cases hitems item hitem with
    | inl hold => exact hstored _ _ (h.items item hold)
    | inr hnew => exact hnew
  · constructor
    · rw [hdel]
      exact h.settled.once
    · intro d hd
      rw [hdel] at hd
      exact hstored _ _ (h.settled.id d hd)
    · intro d hd
      rw [hdel] at hd
      exact h.settled.own d hd

theorem Table.congr (h : w.Table) (hadds : w'.adds = w.adds)
    (hres : ∀ rid k, w'.resources rid = some k → w.resources rid = some k)
    (hitems : ∀ item ∈ w'.timeoutList ++ w'.timeouted, item ∈ w.timeoutList ++ w.timeouted)
    (hdel : w'.deliveries = w.deliveries) : w'.Table := by
  apply h.mono
  · rintro k rid ⟨a, ha, hs⟩
    exact ⟨a, hadds ▸ ha, hs⟩
  · exact hres
  · exact fun item hitem => .inl (hitems item hitem)
  · exact hdel

theorem update_none {rid' : ResourceID}
    (h : Function.update w.resources rid none rid' = some k) :
    rid' ≠ rid ∧ w.resources rid' = some k := by
  by_cases heq : rid' = rid
  · rw [heq, Function.update_self] at h
    cases h
  · rw [Function.update_of_ne heq] at h
    exact ⟨heq, h⟩

theorem Table.remove (h : w.Table) (rid : ResourceID) :
    { w with resources := Function.update w.resources rid none }.Table :=
  h.congr rfl (fun _ _ hentry => (update_none hentry).2) (fun _ hitem => hitem) rfl

theorem Stored.unique {rid' : ResourceID} (h : w.Stored k rid) (h' : w.Stored k rid') :
    rid' = rid := by
  obtain ⟨a, ha, hid⟩ := h
  obtain ⟨a', ha', hid'⟩ := h'
  obtain rfl := Option.some.inj (ha.symm.trans ha')
  exact Option.some.inj (hid'.symm.trans hid)

theorem Table.takeOut (h : w.Table) (hids : w.Ids) (rid : ResourceID) {taker : Taker}
    (htaker : ∀ k, taker = .callback k → w.Stored k rid) : (w.takeOut rid taker).Table := by
  rw [World.takeOut]
  cases hr : w.resources rid with
  | none => exact (h.remove rid).congr rfl (fun _ _ h => h) (fun _ h => h) (List.append_nil _)
  | some r =>
    obtain ⟨hst, hnot⟩ := h.entry rid r hr
    have hnew : ∀ d ∈ w.deliveries ++ [⟨r, rid, taker⟩],
        d ∈ w.deliveries ∨ d = ⟨r, rid, taker⟩ := by
      intro d hd
      rw [List.mem_append, List.mem_singleton] at hd
      exact hd
    constructor
    · intro rid' k hentry
      obtain ⟨hne, hentry⟩ := update_none hentry
      obtain ⟨hst', hnot'⟩ := h.entry rid' k hentry
      refine ⟨hst', fun hmem => ?_⟩
      obtain ⟨d, hd, rfl⟩ := List.mem_map.mp hmem
      obtain hold | rfl := hnew d hd
      · exact hnot' (List.mem_map_of_mem hold)
      · exact hne (hst.unique hst')
    · exact h.items
    · constructor
      · change ((w.deliveries ++ [_]).map Delivery.resource).Nodup
        rw [List.map_append, List.nodup_append]
        refine ⟨h.settled.once, List.nodup_singleton _, fun x hx y hy hxy => ?_⟩
        obtain rfl := List.mem_singleton.mp hy
        exact hnot (hxy ▸ hx)
      · intro d hd
        obtain hold | rfl := hnew d hd
        · exact h.settled.id d hold
        · exact hst
      · intro d hd k hk
        obtain hold | rfl := hnew d hd
        · exact h.settled.own d hold k hk
        · exact hids.inj k r rid (htaker k hk).named hst.named

theorem not_stored (hk : w.adds[k]? = some a) (ha : a.stage.stored? = none) :
    ¬ w.Stored k rid := by
  rintro ⟨b, hb, hs⟩
  obtain rfl := Option.some.inj (hk.symm.trans hb)
  rw [ha] at hs
  cases hs

theorem Table.free (h : w.Table) (hids : w.Ids) (hk : w.adds[k]? = some a)
    (ha : a.stage = .storing rid) : w.resources rid = none := by
  cases hentry : w.resources rid with
  | none => rfl
  | some k' =>
    have hst := (h.entry rid k' hentry).1
    have hnamed : w.Named k rid := ⟨a, hk, by rw [ha]; rfl⟩
    rw [hids.inj k' k rid hst.named hnamed] at hst
    refine absurd hst (not_stored hk ?_)
    rw [ha]
    rfl

theorem Table.store (h : w.Table) (hids : w.Ids) (hk : w.adds[k]? = some a)
    (ha : a.stage = .storing rid) {stage : Stage} (hstage : stage.stored? = some rid) :
    ((w.emplace rid k).setStage k a stage).Table := by
  have hnone : a.stage.stored? = none := by
    rw [ha]
    rfl
  have hstored : ∀ k' rid', (w.setStage k a stage).Stored k' rid' ↔
      if k' = k then stage.stored? = some rid' else w.Stored k' rid' :=
    fun k' rid' => stored_setStage hk stage
  have hmono : ∀ k' rid', w.Stored k' rid' → (w.setStage k a stage).Stored k' rid' := by
    intro k' rid' hst
    apply setStage_stored hk _ hst
    rw [hnone]
    exact nofun
  constructor
  · intro rid' k' hentry
    change Function.update w.resources rid ((w.resources rid).or (some k)) rid' = _ at hentry
    rw [h.free hids hk ha, Option.none_or] at hentry
    by_cases heq : rid' = rid
    · rw [heq, Function.update_self] at hentry
      obtain rfl := Option.some.inj hentry
      refine ⟨(hstored _ _).mpr ?_, fun hmem => ?_⟩
      · rw [if_pos rfl, heq]
        exact hstage
      · obtain ⟨d, hd, hdk⟩ := List.mem_map.mp hmem
        exact not_stored hk hnone (hdk ▸ h.settled.id d hd)
    · rw [Function.update_of_ne heq] at hentry
      obtain ⟨hst, hnot⟩ := h.entry rid' k' hentry
      exact ⟨hmono _ _ hst, hnot⟩
  · intro item hitem
    exact hmono _ _ (h.items item hitem)
  · constructor
    · exact h.settled.once
    · intro d hd
      exact hmono _ _ (h.settled.id d hd)
    · exact h.settled.own

theorem Table.setStage (h : w.Table) (hk : w.adds[k]? = some a) {stage : Stage}
    (hstage : stage.stored? = a.stage.stored?) : (w.setStage k a stage).Table := by
  apply h.mono
  · exact fun k' rid hst => setStage_stored hk (fun _ hs => hstage ▸ hs) hst
  · exact fun _ _ hentry => hentry
  · exact fun _ hitem => .inl hitem
  · rfl

theorem Table.checkTimeout (h : w.Table) (hids : w.Ids) : w.checkTimeout.Table := by
  rw [World.checkTimeout]
  split
  · split
    · exact h.congr rfl (fun _ _ h => h) (fun _ h => h) rfl
    · exact h
  · split
    · exact h.congr rfl (fun _ _ h => h) (fun _ h => h) rfl
    · rename_i item rest hlist
      split
      · refine h.congr rfl (fun _ _ h => h) (fun x hx => ?_) rfl
        rw [hlist]
        change x ∈ rest ++ (w.timeouted ++ [item]) at hx
        rw [← List.append_assoc, List.mem_append, List.mem_singleton] at hx
        cases hx with
        | inl hrest => exact List.mem_cons_of_mem _ hrest
        | inr hitem => exact hitem ▸ List.mem_cons_self
      · exact h.congr rfl (fun _ _ h => h) (fun _ h => h) rfl
  · split
    · exact h.congr rfl (fun _ _ h => h) (fun _ h => h) rfl
    · rename_i item rest hlist
      have hitem := h.items item (List.mem_append_right _ (hlist ▸ List.mem_cons_self))
      have htake : (w.takeOut item.resourceID (.callback item.add)).Table := by
        apply h.takeOut hids
        intro k hk
        obtain rfl := Taker.callback.inj hk
        exact hitem
      refine htake.congr rfl (fun _ _ h => h) (fun x hx => ?_) rfl
      change x ∈ w.timeoutList ++ w.timeouted
      change x ∈ w.timeoutList ++ rest at hx
      rw [hlist, List.mem_append]
      exact (List.mem_append.mp hx).imp_right (List.mem_cons_of_mem item)
  · exact h.congr rfl (fun _ _ h => h) (fun _ h => h) rfl

theorem Table.advance (h : w.Table) (hids : w.Ids) (hk : w.adds[k]? = some a) :
    (w.advance k a).Table := by
  rw [World.advance]
  split
  · rename_i ha
    dsimp only
    split
    · exact h.congr rfl (fun _ _ h => h) (fun _ h => h) rfl
    · have hset : (w.setStage k a (.storing w.nextResourceID)).Table := by
        apply h.setStage hk
        rw [ha]
        rfl
      exact hset.congr rfl (fun _ _ h => h) (fun _ h => h) rfl
  · rename_i rid ha
    apply h.store hids hk ha
    split <;> rfl
  · rename_i rid ha
    apply h.setStage hk
    rw [ha]
    rfl
  · rename_i rid expireTime ha
    split
    · exact h
    · have hset : (w.setStage k a (.counting rid)).Table := by
        apply h.setStage hk
        rw [ha]
        rfl
      apply hset.mono
      · exact fun _ _ h => h
      · exact fun _ _ h => h
      · intro item hitem
        change item ∈ w.timeoutList ++ [⟨rid, k, expireTime⟩] ++ w.timeouted at hitem
        rw [List.append_assoc, List.mem_append, List.mem_append, List.mem_singleton] at hitem
        obtain hold | rfl | hold := hitem
        · exact .inl (List.mem_append_left _ hold)
        · refine .inr ((stored_setStage hk _).mpr ?_)
          rw [if_pos rfl]
          rfl
        · exact .inl (List.mem_append_right _ hold)
      · rfl
  · rename_i rid ha
    have hset : (w.setStage k a (.returned rid)).Table := by
      apply h.setStage hk
      rw [ha]
      rfl
    exact hset.congr rfl (fun _ _ h => h) (fun _ h => h) rfl
  · exact h

theorem Table.step (h : w.Table) (hids : w.Ids) (e : Event) : (w.step e).Table := by
  cases e with
  | add timeoutMilliseconds =>
    apply h.mono
    · rintro k rid ⟨a, ha, hs⟩
      exact ⟨a, List.getElem?_append_left (List.getElem?_eq_some_iff.mp ha).1 ▸ ha, hs⟩
    · exact fun _ _ h => h
    · exact fun _ hitem => .inl hitem
    · rfl
  | advance k =>
    rw [World.step]
    split
    · exact h
    · rename_i a hk
      exact h.advance hids hk
  | getAndRemove rid => exact h.takeOut hids rid nofun
  | remove rid => exact h.remove rid
  | checkTimeout => exact h.checkTimeout hids
  | tick => exact h.congr rfl (fun _ _ h => h) (fun _ h => h) rfl


theorem takeOut_deliveries (w : World) (rid : ResourceID) (taker : Taker) :
    (w.takeOut rid taker).deliveries = w.deliveries ∨
      ∃ d, rid = d.id ∧ w.resources d.id = some d.resource ∧
        (w.takeOut rid taker).deliveries = w.deliveries ++ [d] := by
  rw [takeOut]
  cases hr : w.resources rid with
  | none => exact .inl (List.append_nil _)
  | some r => exact .inr ⟨⟨r, rid, taker⟩, rfl, hr, rfl⟩

theorem lookup_checkTimeout {item : ResourceItem} {rest : List ResourceItem}
    (hchecker : w.checker = .handing) (htimeouted : w.timeouted = item :: rest) :
    w.lookup .checkTimeout = some item.resourceID := by
  change (if w.checker = .handing then w.timeouted.head?.map ResourceItem.resourceID else none) = _
  rw [if_pos hchecker, htimeouted]
  rfl

theorem step_deliveries (w : World) (e : Event) :
    (w.step e).deliveries = w.deliveries ∨
      ∃ d, w.lookup e = some d.id ∧ w.resources d.id = some d.resource ∧
        (w.step e).deliveries = w.deliveries ++ [d] := by
  cases e with
  | add timeoutMilliseconds => exact .inl rfl
  | advance k =>
    refine .inl ?_
    rw [step]
    split
    · rfl
    · rw [advance]
      split
      · dsimp only
        split <;> rfl
      · rfl
      · rfl
      · split <;> rfl
      · rfl
      · rfl
  | getAndRemove rid =>
    obtain heq | ⟨d, rfl, hd⟩ := takeOut_deliveries w rid .caller
    · exact .inl heq
    · exact .inr ⟨d, rfl, hd⟩
  | remove rid => exact .inl rfl
  | checkTimeout =>
    rw [step, checkTimeout]
    split
    · refine .inl ?_
      split <;> rfl
    · refine .inl ?_
      split
      · rfl
      · split <;> rfl
    · rename_i hchecker
      split
      · exact .inl rfl
      · rename_i item rest htimeouted
        obtain heq | ⟨d, hid, hd⟩ := takeOut_deliveries w item.resourceID (.callback item.add)
        · exact .inl heq
        · have hlookup := lookup_checkTimeout hchecker htimeouted
          exact .inr ⟨d, hlookup.trans (congrArg some hid), hd⟩
    · exact .inl rfl
  | tick => exact .inl rfl

theorem step_entry (hentry : (w.step e).resources rid = some k) :
    w.resources rid = some k ∨ ∃ a, w.adds[k]? = some a ∧ a.stage = .storing rid := by
  cases e with
  | add timeoutMilliseconds => exact .inl hentry
  | advance k' =>
    rw [step] at hentry
    split at hentry
    · exact .inl hentry
    · rename_i a hk
      rw [advance] at hentry
      split at hentry
      · dsimp only at hentry
        split at hentry <;> exact .inl hentry
      · rename_i rid' ha
        change Function.update w.resources rid' ((w.resources rid').or (some k')) rid = _ at hentry
        by_cases heq : rid = rid'
        · rw [heq, Function.update_self, Option.or_eq_some_iff] at hentry
          cases hentry with
          | inl hold => exact .inl (heq ▸ hold)
          | inr hnew =>
            obtain rfl := Option.some.inj hnew.2
            exact .inr ⟨a, hk, heq ▸ ha⟩
        · rw [Function.update_of_ne heq] at hentry
          exact .inl hentry
      · exact .inl hentry
      · split at hentry <;> exact .inl hentry
      · exact .inl hentry
      · exact .inl hentry
  | getAndRemove rid' => exact .inl (update_none hentry).2
  | remove rid' => exact .inl (update_none hentry).2
  | checkTimeout =>
    refine .inl ?_
    rw [step, checkTimeout] at hentry
    split at hentry
    · split at hentry <;> exact hentry
    · split at hentry
      · exact hentry
      · split at hentry <;> exact hentry
    · split at hentry
      · exact hentry
      · exact (update_none hentry).2
    · exact hentry
  | tick => exact .inl hentry

theorem step_stored (hst : w.Stored k rid) : (w.step e).Stored k rid := by
  cases e with
  | add timeoutMilliseconds =>
    obtain ⟨a, ha, hs⟩ := hst
    exact ⟨a, List.getElem?_append_left (List.getElem?_eq_some_iff.mp ha).1 ▸ ha, hs⟩
  | advance k' =>
    rw [step]
    split
    · exact hst
    · rename_i a hk
      rw [advance]
      split
      · rename_i ha
        dsimp only
        split
        · exact hst
        · exact setStage_stored hk (by rw [ha]; exact nofun) hst
      · rename_i ha
        exact setStage_stored hk (by rw [ha]; exact nofun) hst
      · rename_i ha
        exact setStage_stored hk (by rw [ha]; exact fun _ hs => hs) hst
      · rename_i ha
        split
        · exact hst
        · exact setStage_stored hk (by rw [ha]; exact fun _ hs => hs) hst
      · rename_i ha
        exact setStage_stored hk (by rw [ha]; exact fun _ hs => hs) hst
      · exact hst
  | getAndRemove rid' => exact hst
  | remove rid' => exact hst
  | checkTimeout =>
    rw [step, Stored, checkTimeout_adds]
    exact hst
  | tick => exact hst

structure Gone (k : Nat) (w : World) : Prop where
  stored : ∃ rid, w.Stored k rid
  absent : ∀ rid, w.resources rid ≠ some k

theorem Gone.step (h : w.Gone k) : (w.step e).Gone k := by
  obtain ⟨rid, hst⟩ := h.stored
  refine ⟨⟨rid, step_stored hst⟩, fun rid' hentry => ?_⟩
  cases step_entry hentry with
  | inl hold => exact h.absent rid' hold
  | inr hnew =>
    obtain ⟨a, ha, hstage⟩ := hnew
    refine not_stored ha ?_ hst
    rw [hstage]
    rfl

theorem Gone.run (h : w.Gone k) (es : List Event) :
    ∀ d ∈ (Lib.run World.step w es).deliveries, d.resource = k → d ∈ w.deliveries := by
  have hrun : (Lib.run World.step w es).Gone k ∧
      ∀ d ∈ (Lib.run World.step w es).deliveries, d.resource = k → d ∈ w.deliveries := by
    apply run_keeps (P := fun v : World =>
      v.Gone k ∧ ∀ d ∈ v.deliveries, d.resource = k → d ∈ w.deliveries)
    · rintro v e ⟨hgone, hdel⟩
      refine ⟨hgone.step, fun d hd hdk => ?_⟩
      obtain heq | ⟨d', -, hentry, heq⟩ := step_deliveries v e
      · exact hdel d (heq ▸ hd) hdk
      · rw [heq, List.mem_append, List.mem_singleton] at hd
        obtain hold | rfl := hd
        · exact hdel d hold hdk
        · exact absurd (hdk ▸ hentry) (hgone.absent d.id)
    · exact ⟨h, fun _ hd _ => hd⟩
  exact hrun.2

theorem Table.gone_remove (h : w.Table) (hst : w.Stored k rid) : (w.step (.remove rid)).Gone k := by
  refine ⟨⟨rid, step_stored hst⟩, fun rid' hentry => ?_⟩
  obtain ⟨hne, hold⟩ := update_none hentry
  exact hne (hst.unique (h.entry rid' k hold).1)

theorem sublist_step (w : World) (e : Event) : w.deliveries.Sublist (w.step e).deliveries := by
  obtain heq | ⟨d, -, -, heq⟩ := step_deliveries w e
  · rw [heq]
  · rw [heq]
    exact List.sublist_append_left _ _

theorem step_checker (w : World) (he : e ≠ .checkTimeout) :
    (w.step e).calls = w.calls ∧ (w.step e).checker = w.checker := by
  cases e with
  | add timeoutMilliseconds => exact ⟨rfl, rfl⟩
  | advance k =>
    rw [step]
    split
    · exact ⟨rfl, rfl⟩
    · rw [advance]
      split
      · dsimp only
        split <;> exact ⟨rfl, rfl⟩
      · exact ⟨rfl, rfl⟩
      · exact ⟨rfl, rfl⟩
      · split <;> exact ⟨rfl, rfl⟩
      · exact ⟨rfl, rfl⟩
      · exact ⟨rfl, rfl⟩
  | getAndRemove rid => exact ⟨rfl, rfl⟩
  | remove rid => exact ⟨rfl, rfl⟩
  | checkTimeout => exact absurd rfl he
  | tick => exact ⟨rfl, rfl⟩

theorem checkTimeout_held (w : World) :
    w.checkTimeout.calls ++ w.checkTimeout.checker.held = w.calls ++ w.checker.held ∨
      ∃ d, w.checker.held = [] ∧ w.resources d.id = some d.resource ∧
        (∃ k, d.taker = .callback k) ∧ w.checkTimeout.deliveries = w.deliveries ++ [d] ∧
        w.checkTimeout.calls ++ w.checkTimeout.checker.held = w.calls ++ [d] := by
  rw [checkTimeout]
  split
  · rename_i hchecker
    rw [hchecker]
    split
    · exact .inl rfl
    · exact .inl (by rw [hchecker])
  · rename_i hchecker
    rw [hchecker]
    split
    · exact .inl rfl
    · split <;> exact .inl rfl
  · rename_i hchecker
    rw [hchecker]
    split
    · exact .inl rfl
    · rename_i item rest htimeouted
      dsimp only [answer, takeOut]
      cases hr : w.resources item.resourceID with
      | none => exact .inl rfl
      | some r => exact .inr ⟨⟨r, item.resourceID, .callback item.add⟩, rfl, hr, ⟨_, rfl⟩, rfl, rfl⟩
  · rename_i d hchecker
    rw [hchecker]
    exact .inl (List.append_nil _)

theorem step_held (w : World) (e : Event) :
    (w.step e).calls ++ (w.step e).checker.held = w.calls ++ w.checker.held ∨
      ∃ d, w.checker.held = [] ∧ w.resources d.id = some d.resource ∧
        (∃ k, d.taker = .callback k) ∧ (w.step e).deliveries = w.deliveries ++ [d] ∧
        (w.step e).calls ++ (w.step e).checker.held = w.calls ++ [d] := by
  by_cases he : e = .checkTimeout
  · rw [he]
    exact checkTimeout_held w
  · obtain ⟨hcalls, hchecker⟩ := step_checker w he
    rw [hcalls, hchecker]
    exact .inl rfl

theorem Called.step (h : w.Called) (hsettled : (w.step e).Settled) : (w.step e).Called := by
  obtain heq | ⟨d, hheld, -, ⟨k, hk⟩, hdel, heq⟩ := step_held w e
  · constructor
    · rw [heq]
      exact h.calls.trans (sublist_step w e)
    · rw [heq]
      exact h.own
  · have hcalls : w.calls.Sublist w.deliveries := by
      have hc := h.calls
      rwa [hheld, List.append_nil] at hc
    constructor
    · rw [heq, hdel]
      exact hcalls.append_right [d]
    · rw [heq]
      intro d' hd'
      rw [List.mem_append, List.mem_singleton] at hd'
      obtain hold | rfl := hd'
      · exact h.own d' (List.mem_append_left _ hold)
      · rw [hk, hsettled.own d' (hdel ▸ List.mem_append_right _ List.mem_cons_self) k hk]

theorem Gone.run_calls (h : w.Gone k) (es : List Event) :
    ∀ d ∈ (Lib.run World.step w es).calls, d.resource = k → d ∈ w.calls ++ w.checker.held := by
  have hrun : (Lib.run World.step w es).Gone k ∧
      ∀ d ∈ (Lib.run World.step w es).calls ++ (Lib.run World.step w es).checker.held,
        d.resource = k → d ∈ w.calls ++ w.checker.held := by
    apply run_keeps (P := fun v : World => v.Gone k ∧
      ∀ d ∈ v.calls ++ v.checker.held, d.resource = k → d ∈ w.calls ++ w.checker.held)
    · rintro v e ⟨hgone, hcalls⟩
      refine ⟨hgone.step, fun d hd hdk => ?_⟩
      obtain heq | ⟨d', -, hentry, -, -, heq⟩ := step_held v e
      · exact hcalls d (heq ▸ hd) hdk
      · rw [heq, List.mem_append, List.mem_singleton] at hd
        obtain hold | rfl := hd
        · exact hcalls d (List.mem_append_left _ hold) hdk
        · exact absurd (hdk ▸ hentry) (hgone.absent d.id)
    · exact ⟨h, fun _ hd _ => hd⟩
  exact fun d hd => hrun.2 d (List.mem_append_left _ hd)

def Kept (w : World) : Prop :=
  ∀ k rid, w.Stored k rid →
    w.resources rid = some k ∨ k ∈ w.deliveries.map Delivery.resource

theorem Kept.congr (h : w.Kept) (hstored : ∀ k rid, w'.Stored k rid → w.Stored k rid)
    (hres : w'.resources = w.resources) (hdel : w'.deliveries = w.deliveries) : w'.Kept := by
  intro k rid hst
  rw [hres, hdel]
  exact h k rid (hstored k rid hst)

theorem Kept.takeOut (h : w.Kept) (rid : ResourceID) (taker : Taker) :
    (w.takeOut rid taker).Kept := by
  intro k rid' hst
  rw [World.takeOut]
  dsimp only
  rw [List.map_append, List.mem_append]
  cases h k rid' hst with
  | inl hentry =>
    by_cases heq : rid' = rid
    · rw [heq] at hentry
      rw [hentry]
      exact .inr (.inr List.mem_cons_self)
    · rw [Function.update_of_ne heq]
      exact .inl hentry
  | inr hdel => exact .inr (.inl hdel)

theorem stored_of_setStage (hk : w.adds[k]? = some a) {stage : Stage}
    (hstage : ∀ rid, stage.stored? = some rid → a.stage.stored? = some rid)
    (hst : (w.setStage k a stage).Stored k' rid) : w.Stored k' rid := by
  rw [stored_setStage hk] at hst
  split at hst
  · rename_i heq
    exact ⟨a, heq ▸ hk, hstage rid hst⟩
  · exact hst

theorem Kept.store (h : w.Kept) (htable : w.Table) (hids : w.Ids) (hk : w.adds[k]? = some a)
    (ha : a.stage = .storing rid) (stage : Stage) (hstage : stage.stored? = some rid) :
    ((w.emplace rid k).setStage k a stage).Kept := by
  have hfree := htable.free hids hk ha
  intro k' rid' hst
  have hst := (stored_setStage (w := w) hk stage).mp hst
  change Function.update w.resources rid ((w.resources rid).or (some k)) rid' = some k' ∨ _
  rw [hfree, Option.none_or]
  split at hst
  · rename_i heq
    obtain rfl := Option.some.inj (hstage.symm.trans hst)
    rw [heq, Function.update_self]
    exact .inl rfl
  · refine (h k' rid' hst).imp_left fun hentry => ?_
    rw [Function.update_of_ne]
    · exact hentry
    · rintro rfl
      rw [hfree] at hentry
      cases hentry

theorem Kept.advance (h : w.Kept) (htable : w.Table) (hids : w.Ids) (hk : w.adds[k]? = some a) :
    (w.advance k a).Kept := by
  have hkeep : ∀ stage : Stage, (∀ rid, stage.stored? = some rid → a.stage.stored? = some rid) →
      (w.setStage k a stage).Kept := fun stage hstage =>
    h.congr (fun _ _ hst => stored_of_setStage hk hstage hst) rfl rfl
  rw [World.advance]
  split
  · dsimp only
    split
    · exact h
    · exact hkeep (.storing w.nextResourceID) nofun
  · rename_i rid ha
    apply h.store htable hids hk ha
    split <;> rfl
  · rename_i rid ha
    apply hkeep
    rw [ha]
    exact fun _ hs => hs
  · rename_i rid expireTime ha
    split
    · exact h
    · apply hkeep (.counting rid)
      rw [ha]
      exact fun _ hs => hs
  · rename_i rid ha
    apply hkeep (.returned rid)
    rw [ha]
    exact fun _ hs => hs
  · exact h

theorem Kept.step (h : w.Kept) (htable : w.Table) (hids : w.Ids) (he : e.removes = false) :
    (w.step e).Kept := by
  cases e with
  | add timeoutMilliseconds =>
    refine h.congr (fun k rid hst => ?_) rfl rfl
    obtain ⟨a, ha, hs⟩ := hst
    rw [World.step, List.getElem?_append] at ha
    split at ha
    · exact ⟨a, ha, hs⟩
    · obtain rfl := List.mem_singleton.mp (List.mem_of_getElem? ha)
      cases hs
  | advance k =>
    rw [World.step]
    split
    · exact h
    · rename_i a hk
      exact h.advance htable hids hk
  | getAndRemove rid => exact h.takeOut rid .caller
  | remove rid => cases he
  | checkTimeout =>
    rw [World.step, World.checkTimeout]
    split
    · split
      · exact h
      · exact h
    · split
      · exact h
      · split
        · exact h
        · exact h
    · split
      · exact h
      · exact h.takeOut _ _
    · exact h
  | tick => exact h

theorem along_of_countP {es : List Event}
    (h : w.adds.length + es.countP Event.isAdd < 2 ^ 32) :
    Along World.step (fun v _ => v.adds.length < 2 ^ 32) w es := by
  induction es generalizing w with
  | nil => trivial
  | cons e es ih =>
    rw [List.countP_cons] at h
    refine ⟨by omega, ih ?_⟩
    rw [step_length]
    omega

theorem start_ids : start.Ids := by
  have hnot : ∀ k rid, ¬ start.Named k rid := fun k rid ⟨a, ha, _⟩ => nomatch ha
  exact ⟨rfl, fun k rid h => absurd h (hnot k rid), fun k k' rid h _ => absurd h (hnot k rid)⟩

theorem start_table : start.Table :=
  ⟨nofun, nofun, ⟨List.nodup_nil, nofun, nofun⟩⟩

theorem start_called : start.Called := by
  refine ⟨List.Sublist.refl _, fun d hd => ?_⟩
  cases hd

theorem throughout_inv {es : List Event} (h : es.countP Event.isAdd < 2 ^ 32) :
    Throughout World.step (fun v => v.Ids ∧ v.Table ∧ v.Called) start es := by
  have halong : Along World.step (fun v _ => v.adds.length < 2 ^ 32) start es := by
    apply along_of_countP
    rw [show start.adds.length = 0 from rfl, Nat.zero_add]
    exact h
  apply halong.throughout
  · rintro v e hlt ⟨hids, htable, hcalled⟩
    have htable' := htable.step hids e
    exact ⟨hids.step hlt e, htable', hcalled.step htable'.settled⟩
  · exact ⟨start_ids, start_table, start_called⟩

/-- Each resource is taken from the table at most once and under its own id, by a caller or for
its own callback, which is called once; after a `Remove` of its id that comes when it is in the
table, none but the callback that it has been taken for is called with it. -/
theorem settled_once (es : List Event) (h : es.countP Event.isAdd < 2 ^ 32) :
    Throughout World.step (fun w => w.Settled ∧ w.Called) start es ∧
      ∀ before rid after k, es = before ++ .remove rid :: after →
        (run World.step start before).Stored k rid →
        (∀ d ∈ (run World.step start es).deliveries, d.resource = k →
          d ∈ (run World.step start before).deliveries) ∧
        ∀ d ∈ (run World.step start es).calls, d.resource = k →
          d ∈ (run World.step start before).calls ∨
            (run World.step start before).checker = .calling d := by
  refine ⟨(throughout_inv h).mono fun _ hv => ⟨hv.2.1.settled, hv.2.2⟩, ?_⟩
  rintro before rid after k rfl hst
  have hbefore : before.countP Event.isAdd < 2 ^ 32 := by
    rw [List.countP_append] at h
    exact (Nat.le_add_right _ _).trans_lt h
  have hgone := (throughout_inv hbefore).last.2.1.gone_remove hst
  rw [run_append, run_cons]
  refine ⟨hgone.run after, fun d hd hdk => ?_⟩
  have hmem := hgone.run_calls after d hd hdk
  obtain hold | hheld := List.mem_append.mp hmem
  · exact .inl hold
  · exact .inr (Checker.eq_of_mem_held hheld)

theorem settled_once_two :
    let es : List Event := [.add 1, .add 1] ++ (List.replicate 5 (.advance 0)) ++
      List.replicate 5 (.advance 1) ++ [.tick, .getAndRemove 1] ++ List.replicate 8 .checkTimeout
    (run World.step start es).deliveries = [⟨0, 1, .caller⟩, ⟨1, 2, .callback 1⟩] ∧
      (run World.step start es).calls = [⟨1, 2, .callback 1⟩] ∧
      Throughout World.step (fun w => w.Settled ∧ w.Called) start es :=
  ⟨by decide +kernel, by decide +kernel, (settled_once _ (by decide)).1⟩

theorem removed_before_stored : ¬ ∀ es : List Event, es.countP Event.isAdd < 2 ^ 32 →
    ∀ before rid after, es = before ++ .remove rid :: after →
      ∀ d ∈ (run World.step start es).deliveries, d.id = rid →
        d ∈ (run World.step start before).deliveries := by
  intro h
  have hmem := h [.add 0, .advance 0, .remove 1, .advance 0, .getAndRemove 1] (by decide)
    [.add 0, .advance 0] 1 [.advance 0, .getAndRemove 1] rfl ⟨0, 1, .caller⟩ (by decide +kernel) rfl
  exact absurd hmem (by decide +kernel)

end World

end ResourceManager

end Sptag.Socket
