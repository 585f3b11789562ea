import Sptag.Lib.Run
import Sptag.Lib.Threads
import Sptag.Socket.ConnectionManager

/-! The connections of the aggregator to its servers (`StartClient` and
`ConnectToPendingServers` of `AggregatorService.cpp`). -/

namespace Sptag.Aggregator

open Lib Socket

inductive RemoteMachineStatus
  | disconnected
  | connecting
  | connected
  deriving DecidableEq

structure RemoteMachine where
  address : String
  port : String
  connectionID : ConnectionID
  status : RemoteMachineStatus
  deriving DecidableEq

namespace PendingServers

inductive Stage
  | connecting
  | storing (cid : ConnectionID)
  | flagging (cid : ConnectionID)
  | done
  deriving DecidableEq

def Stage.cid? : Stage → Option ConnectionID
  | storing cid | flagging cid => some cid
  | connecting | done => none

structure Attempt (n : Nat) where
  server : Fin n
  stage : Stage
  deriving DecidableEq

def Attempt.inFlight {n : Nat} (s : Fin n) (a : Attempt n) : Bool :=
  a.server = s && a.stage ≠ .done

/-- `live` are the connections that are up; what becomes of them is decided outside, by the
socket and its `ConnectionManager`. -/
structure World (n : Nat) where
  servers : Fin n → RemoteMachine
  pendingConnectServers : List (Fin n)
  attempts : List (Attempt n)
  live : List ConnectionID

inductive Event
  | timer
  /-- `ConnectToServer` returns: with the id of a new connection, or without one. -/
  | connect (attempt : Nat) (cid : Option ConnectionID)
  | storeConnectionID (attempt : Nat)
  | storeStatus (attempt : Nat)
  /-- A connection goes down, and the event on its removal is called. -/
  | close (cid : ConnectionID)
  deriving DecidableEq

def start {n : Nat} (address port : Fin n → String) : World n where
  servers s := ⟨address s, port s, c_invalidConnectionID, .disconnected⟩
  pendingConnectServers := List.finRange n
  attempts := []
  live := []

namespace World

variable {n : Nat}

section Steps

variable (resolves : String → String → Bool) (w : World n)

def setStage (j : Nat) (a : Attempt n) (stage : Stage) : List (Attempt n) :=
  w.attempts.set j { a with stage := stage }

def setServer (s : Fin n) (server : RemoteMachine) : Fin n → RemoteMachine :=
  Function.update w.servers s server

def resolved (s : Fin n) : Bool := resolves (w.servers s).address (w.servers s).port

def addToPendingServers (s : Fin n) : World n :=
  { w with pendingConnectServers := w.pendingConnectServers ++ [s] }

def connectToPending (s : Fin n) : World n :=
  if (w.servers s).status ≠ .disconnected then w
  else
    { w with
      servers := w.setServer s { w.servers s with status := .connecting }
      attempts := w.attempts ++ [⟨s, .connecting⟩] }

def connectToPendingServers : World n :=
  w.pendingConnectServers.foldl connectToPending { w with pendingConnectServers := [] }

def connect (j : Nat) (a : Attempt n) (cid : Option ConnectionID) : World n :=
  if w.resolved resolves a.server = false then { w with attempts := w.setStage j a .done }
  else
    match cid with
    | none => { w with attempts := w.setStage j a .done }.addToPendingServers a.server
    | some cid =>
      if cid = c_invalidConnectionID ∨ cid ∈ w.live then w
      else { w with attempts := w.setStage j a (.storing cid), live := cid :: w.live }

def onConnectionClose (cid : ConnectionID) : World n :=
  { w with
    servers := fun s =>
      if (w.servers s).connectionID = cid then { w.servers s with status := .disconnected }
      else w.servers s
    pendingConnectServers := w.pendingConnectServers ++
      (List.finRange n).filter fun s => (w.servers s).connectionID = cid }

def step (w : World n) : Event → World n
  | .timer => w.connectToPendingServers
  | .connect j cid =>
    match w.attempts[j]? with
    | some ⟨s, .connecting⟩ => w.connect resolves j ⟨s, .connecting⟩ cid
    | _ => w
  | .storeConnectionID j =>
    match w.attempts[j]? with
    | some ⟨s, .storing cid⟩ =>
      { w with
        servers := w.setServer s { w.servers s with connectionID := cid }
        attempts := w.setStage j ⟨s, .storing cid⟩ (.flagging cid) }
    | _ => w
  | .storeStatus j =>
    match w.attempts[j]? with
    | some ⟨s, .flagging cid⟩ =>
      { w with
        servers := w.setServer s { w.servers s with status := .connected }
        attempts := w.setStage j ⟨s, .flagging cid⟩ .done }
    | _ => w
  | .close cid =>
    if cid ∈ w.live then { w with live := w.live.filter (· ≠ cid) }.onConnectionClose cid
    else w

def flights (s : Fin n) : Nat := w.attempts.countP (Attempt.inFlight s)

def Tracked : Prop :=
  ∀ s, w.resolved resolves s = true →
    (w.servers s).status = .connected ∧ (w.servers s).connectionID ∈ w.live ∨
      w.flights s = 1 ∨
      s ∈ w.pendingConnectServers ∧ (w.servers s).status = .disconnected

/-- No server that is found refuses a connection, and no connection goes down that an attempt
has made, or that its server still has the id of. -/
def Orderly : Event → Prop
  | .connect j none => ∀ s, w.attempts[j]? = some ⟨s, .connecting⟩ → w.resolved resolves s = false
  | .close cid => cid ∈ w.live → ∀ a ∈ w.attempts, a.stage ≠ .done →
    a.stage.cid? ≠ some cid ∧ (w.servers a.server).connectionID ≠ cid
  | _ => True

end Steps

variable {resolves : String → String → Bool} {w : World n} {s : Fin n} {j : Nat} {a : Attempt n}
  {cid : ConnectionID} {rest : List (Fin n)} {e : Event}

/-- The status of a server says where it is; `rest` are the servers that a tick still has to
go through. -/
structure Inv (resolves : String → String → Bool) (w : World n) (rest : List (Fin n)) : Prop where
  connected : ∀ s, (w.servers s).status = .connected → (w.servers s).connectionID ∈ w.live
  connecting : ∀ s, (w.servers s).status = .connecting → w.resolved resolves s = true →
    w.flights s = 1
  disconnected : ∀ s, (w.servers s).status = .disconnected →
    s ∈ w.pendingConnectServers ∨ s ∈ rest
  single : ∀ s, w.flights s ≤ 1
  none : ∀ s, (w.servers s).status ≠ .connecting → w.flights s = 0
  made : ∀ a ∈ w.attempts, ∀ cid, a.stage.cid? = some cid → cid ∈ w.live
  stored : ∀ a ∈ w.attempts, ∀ cid, a.stage = .flagging cid →
    (w.servers a.server).connectionID = cid

theorem inFlight_self (hstage : a.stage ≠ .done) : a.inFlight a.server = true := by
  rw [Attempt.inFlight, decide_eq_true rfl, decide_eq_true hstage]
  rfl

theorem inFlight_of_ne (hne : s ≠ a.server) : a.inFlight s = false := by
  rw [Attempt.inFlight, decide_eq_false (Ne.symm hne)]
  rfl

@[simp] theorem inFlight_done (s s' : Fin n) : Attempt.inFlight s ⟨s', .done⟩ = false :=
  Bool.and_false _

theorem inFlight_stage {stage : Stage} (ha : a.stage ≠ .done) (hstage : stage ≠ .done)
    (s : Fin n) : Attempt.inFlight s { a with stage := stage } = a.inFlight s := by
  rw [Attempt.inFlight, Attempt.inFlight, decide_eq_true ha, decide_eq_true hstage]

theorem Inv.flight (h : w.Inv resolves rest) (ha : a ∈ w.attempts) (hstage : a.stage ≠ .done) :
    (w.servers a.server).status = .connecting ∧ w.flights a.server = 1 := by
  have hpos : 0 < w.flights a.server := List.countP_pos_iff.mpr ⟨a, ha, inFlight_self hstage⟩
  refine ⟨?_, Nat.le_antisymm (h.single _) hpos⟩
  apply Decidable.byContradiction
  intro hne
  rw [h.none _ hne] at hpos
  cases hpos

theorem Inv.server_ne (h : w.Inv resolves rest) (hj : w.attempts[j]? = some a)
    (hstage : a.stage ≠ .done) {b : Attempt n} (hb : b ∈ w.attempts) (hbstage : b.stage ≠ .done)
    (hne : b ≠ a) : b.server ≠ a.server := by
  intro heq
  have hpred : (w.setStage j a .done).countP (Attempt.inFlight a.server) + 1 = w.flights a.server :=
    countP_set_pred hj (inFlight_self hstage) (inFlight_done _ _)
  rw [(h.flight (List.mem_of_getElem? hj) hstage).2] at hpred
  have hmem : b ∈ w.setStage j a .done := by
    obtain ⟨i, hi⟩ := List.mem_iff_getElem?.mp hb
    apply List.mem_iff_getElem?.mpr
    refine ⟨i, ?_⟩
    rw [setStage, List.getElem?_set_ne]
    · exact hi
    · rintro rfl
      exact hne (Option.some.inj (hi.symm.trans hj))
  have hpos := List.countP_pos_iff.mpr ⟨b, hmem, inFlight_self hbstage⟩
  rw [heq] at hpos
  omega

theorem Inv.swap (h : w.Inv resolves []) :
    { w with pendingConnectServers := [] }.Inv resolves w.pendingConnectServers where
  connected := h.connected
  connecting := h.connecting
  disconnected s hs := .inr ((h.disconnected s hs).resolve_right List.not_mem_nil)
  single := h.single
  none := h.none
  made := h.made
  stored := h.stored

@[simp] theorem setServer_self (w : World n) (s : Fin n) (server : RemoteMachine) :
    w.setServer s server s = server := Function.update_self ..

theorem setServer_of_ne {s' : Fin n} (hne : s' ≠ s) (server : RemoteMachine) :
    w.setServer s server s' = w.servers s' := Function.update_of_ne hne _ _

theorem flights_append_self (as : List (Attempt n)) (s : Fin n) :
    (as ++ [(⟨s, .connecting⟩ : Attempt n)]).countP (Attempt.inFlight s) =
      as.countP (Attempt.inFlight s) + 1 := by
  have hself : Attempt.inFlight s ⟨s, .connecting⟩ = true := inFlight_self nofun
  rw [List.countP_append, List.countP_singleton, hself, if_pos rfl]

theorem flights_append_of_ne (as : List (Attempt n)) {s s' : Fin n} (hne : s' ≠ s) :
    (as ++ [(⟨s, .connecting⟩ : Attempt n)]).countP (Attempt.inFlight s') =
      as.countP (Attempt.inFlight s') := by
  have hother : Attempt.inFlight s' ⟨s, .connecting⟩ = false := inFlight_of_ne hne
  rw [List.countP_append, List.countP_singleton, hother, if_neg Bool.false_ne_true, Nat.add_zero]

theorem Inv.pass (h : w.Inv resolves (s :: rest)) (hne : (w.servers s).status ≠ .disconnected) :
    w.Inv resolves rest := by
  refine { h with disconnected := fun s' hs' => ?_ }
  refine (h.disconnected s' hs').imp_right fun hmem => (List.mem_cons.mp hmem).resolve_left ?_
  rintro rfl
  exact hne hs'

/-- A thread starts to connect to a server that is disconnected. -/
theorem Inv.spawn (h : w.Inv resolves (s :: rest))
    (hstatus : (w.servers s).status = .disconnected) :
    { w with
      servers := w.setServer s { w.servers s with status := .connecting }
      attempts := w.attempts ++ [(⟨s, .connecting⟩ : Attempt n)] }.Inv resolves rest := by
  have hzero : w.flights s = 0 := h.none s (by rw [hstatus]; exact nofun)
  have hself : (w.attempts ++ [(⟨s, .connecting⟩ : Attempt n)]).countP
    (Attempt.inFlight s) = 1 := by
    rw [flights_append_self, ← flights, hzero]
  have hconnecting := setServer_self w s { w.servers s with status := .connecting }
  have hold : ∀ a ∈ w.attempts ++ [(⟨s, .connecting⟩ : Attempt n)], ∀ cid,
      a.stage.cid? = some cid → a ∈ w.attempts := by
    intro a ha cid hcid
    refine (List.mem_append.mp ha).resolve_right fun hnew => ?_
    obtain rfl := List.mem_singleton.mp hnew
    cases hcid
  constructor
  · intro s' hs'
    dsimp only at hs' ⊢
    by_cases heq : s' = s
    · rw [heq, hconnecting] at hs'
      cases hs'
    · rw [setServer_of_ne heq] at hs' ⊢
      exact h.connected s' hs'
  · intro s' hs' hres
    change (w.attempts ++ [_]).countP _ = 1
    rw [resolved] at hres
    dsimp only at hs' hres
    by_cases heq : s' = s
    · rw [heq]
      exact hself
    · rw [setServer_of_ne heq] at hs' hres
      rw [flights_append_of_ne _ heq]
      exact h.connecting s' hs' hres
  · intro s' hs'
    dsimp only at hs'
    have hne : s' ≠ s := by
      rintro rfl
      rw [hconnecting] at hs'
      cases hs'
    rw [setServer_of_ne hne] at hs'
    exact (h.disconnected s' hs').imp_right fun hmem => (List.mem_cons.mp hmem).resolve_left hne
  · intro s'
    change (w.attempts ++ [_]).countP _ ≤ 1
    by_cases heq : s' = s
    · rw [heq, hself]
    · rw [flights_append_of_ne _ heq]
      exact h.single s'
  · intro s' hs'
    change (w.attempts ++ [_]).countP _ = 0
    dsimp only at hs'
    have hne : s' ≠ s := by
      rintro rfl
      rw [hconnecting] at hs'
      exact hs' rfl
    rw [setServer_of_ne hne] at hs'
    rw [flights_append_of_ne _ hne]
    exact h.none s' hs'
  · exact fun a ha cid hcid => h.made a (hold a ha cid hcid) cid hcid
  · intro a ha cid hcid
    have hmem := hold a ha cid (by rw [hcid]; rfl)
    dsimp only
    by_cases heq : a.server = s
    · rw [heq, hconnecting, ← heq]
      exact h.stored a hmem cid hcid
    · rw [setServer_of_ne heq]
      exact h.stored a hmem cid hcid

theorem Inv.connectToPending (h : w.Inv resolves (s :: rest)) :
    (w.connectToPending s).Inv resolves rest := by
  rw [World.connectToPending]
  split
  · exact h.pass ‹_›
  · exact h.spawn (Decidable.of_not_not ‹_›)

theorem Inv.connectToPendingServers (h : w.Inv resolves []) :
    w.connectToPendingServers.Inv resolves [] := by
  have hloop : ∀ (l : List (Fin n)) (v : World n), v.Inv resolves l →
      (l.foldl World.connectToPending v).Inv resolves [] := by
    intro l
    induction l with
    | nil => exact fun v hv => hv
    | cons s l ih => exact fun v hv => ih _ hv.connectToPending
  exact hloop _ _ h.swap

theorem Inv.unresolved (h : w.Inv resolves []) (hj : w.attempts[j]? = some a)
    (hstage : a.stage ≠ .done) (hres : w.resolved resolves a.server = false) :
    { w with attempts := w.setStage j a .done }.Inv resolves [] := by
  have hpred : (w.setStage j a .done).countP (Attempt.inFlight a.server) + 1 =
      w.flights a.server := countP_set_pred hj (inFlight_self hstage) (inFlight_done _ _)
  have hother : ∀ s, s ≠ a.server →
      (w.setStage j a .done).countP (Attempt.inFlight s) = w.flights s :=
    fun s hne => countP_set_eq hj ((inFlight_done _ _).trans (inFlight_of_ne hne).symm)
  have hle : ∀ s, (w.setStage j a .done).countP (Attempt.inFlight s) ≤ w.flights s := by
    intro s
    by_cases heq : s = a.server
    · rw [heq]
      omega
    · exact (hother s heq).le
  have hmem : ∀ b ∈ w.setStage j a .done, b ∈ w.attempts ∨ b = ⟨a.server, .done⟩ :=
    fun b hb => List.mem_or_eq_of_mem_set hb
  constructor
  · exact h.connected
  · intro s hs hres'
    refine (hother s ?_).trans (h.connecting s hs hres')
    rintro rfl
    rw [show w.resolved resolves a.server = true from hres'] at hres
    cases hres
  · exact h.disconnected
  · exact fun s => (hle s).trans (h.single s)
  · exact fun s hs => Nat.le_zero.mp ((hle s).trans (h.none s hs).le)
  · intro b hb cid hcid
    obtain hold | rfl := hmem b hb
    · exact h.made b hold cid hcid
    · cases hcid
  · intro b hb cid hcid
    obtain hold | rfl := hmem b hb
    · exact h.stored b hold cid hcid
    · cases hcid

theorem Inv.connect (h : w.Inv resolves []) {s : Fin n}
    (hj : w.attempts[j]? = some ⟨s, .connecting⟩)
    (cid : ConnectionID) :
    { w with attempts := w.setStage j ⟨s, .connecting⟩ (.storing cid), live := cid :: w.live }.Inv
      resolves [] := by
  have hflights : ∀ s', (w.setStage j ⟨s, .connecting⟩ (.storing cid)).countP
      (Attempt.inFlight s') = w.flights s' :=
    fun s' => countP_set_eq hj (inFlight_stage (a := ⟨s, .connecting⟩) nofun
      (show Stage.storing cid ≠ .done from nofun) s')
  have hmem : ∀ b ∈ w.setStage j ⟨s, .connecting⟩ (.storing cid),
      b ∈ w.attempts ∨ b = ⟨s, .storing cid⟩ := fun b hb => List.mem_or_eq_of_mem_set hb
  constructor
  · exact fun s' hs' => List.mem_cons_of_mem _ (h.connected s' hs')
  · exact fun s' hs' hres => (hflights s').trans (h.connecting s' hs' hres)
  · exact h.disconnected
  · exact fun s' => (hflights s').trans_le (h.single s')
  · exact fun s' hs' => (hflights s').trans (h.none s' hs')
  · intro b hb cid' hcid
    obtain hold | rfl := hmem b hb
    · exact List.mem_cons_of_mem _ (h.made b hold cid' hcid)
    · obtain rfl := Option.some.inj hcid
      exact List.mem_cons_self
  · intro b hb cid' hcid
    obtain hold | rfl := hmem b hb
    · exact h.stored b hold cid' hcid
    · cases hcid

theorem Inv.storeConnectionID (h : w.Inv resolves []) {s : Fin n}
    (hj : w.attempts[j]? = some ⟨s, .storing cid⟩) :
    { w with
      servers := w.setServer s { w.servers s with connectionID := cid }
      attempts := w.setStage j ⟨s, .storing cid⟩ (.flagging cid) }.Inv resolves [] := by
  obtain ⟨hconnecting, -⟩ := h.flight (List.mem_of_getElem? hj) nofun
  have hflights : ∀ s', (w.setStage j ⟨s, .storing cid⟩ (.flagging cid)).countP
      (Attempt.inFlight s') = w.flights s' :=
    fun s' => countP_set_eq hj (inFlight_stage (a := ⟨s, .storing cid⟩) nofun
      (show Stage.flagging cid ≠ .done from nofun) s')
  have hmem : ∀ b ∈ w.setStage j ⟨s, .storing cid⟩ (.flagging cid),
      b ∈ w.attempts ∨ b = ⟨s, .flagging cid⟩ := fun b hb => List.mem_or_eq_of_mem_set hb
  have hstatus : ∀ s', (w.setServer s { w.servers s with connectionID := cid } s').status =
      (w.servers s').status := by
    intro s'
    by_cases heq : s' = s
    · rw [heq, setServer_self]
    · rw [setServer_of_ne heq]
  constructor
  · intro s' hs'
    dsimp only at hs' ⊢
    rw [hstatus] at hs'
    rw [setServer_of_ne]
    · exact h.connected s' hs'
    · rintro rfl
      rw [hconnecting] at hs'
      cases hs'
  · intro s' hs' hres
    refine (hflights s').trans (h.connecting s' ((hstatus s').symm.trans hs') ?_)
    rw [resolved] at hres ⊢
    dsimp only at hres
    by_cases heq : s' = s
    · rw [heq, setServer_self] at hres
      rw [heq]
      exact hres
    · rw [setServer_of_ne heq] at hres
      exact hres
  · exact fun s' hs' => h.disconnected s' ((hstatus s').symm.trans hs')
  · exact fun s' => (hflights s').trans_le (h.single s')
  · intro s' hs'
    dsimp only at hs'
    rw [hstatus] at hs'
    exact (hflights s').trans (h.none s' hs')
  · intro b hb cid' hcid
    obtain hold | rfl := hmem b hb
    · exact h.made b hold cid' hcid
    · exact h.made _ (List.mem_of_getElem? hj) cid' hcid
  · intro b hb cid' hcid
    dsimp only
    obtain hold | rfl := hmem b hb
    · rw [setServer_of_ne]
      · exact h.stored b hold cid' hcid
      · apply h.server_ne hj nofun hold
        · rw [hcid]
          exact nofun
        · rintro rfl
          cases hcid
    · obtain rfl := Stage.flagging.inj hcid
      rw [setServer_self]

theorem Inv.storeStatus (h : w.Inv resolves []) {s : Fin n}
    (hj : w.attempts[j]? = some ⟨s, .flagging cid⟩) :
    { w with
      servers := w.setServer s { w.servers s with status := .connected }
      attempts := w.setStage j ⟨s, .flagging cid⟩ .done }.Inv resolves [] := by
  have hmemj := List.mem_of_getElem? hj
  have hone := (h.flight hmemj nofun).2
  change w.flights s = 1 at hone
  have hcid := h.stored _ hmemj cid rfl
  have hlive := h.made _ hmemj cid rfl
  have hself : (w.setStage j ⟨s, .flagging cid⟩ .done).countP (Attempt.inFlight s) + 1 =
      w.flights s := countP_set_pred hj (inFlight_self (a := ⟨s, .flagging cid⟩) nofun)
    (inFlight_done _ _)
  have hother : ∀ s', s' ≠ s →
      (w.setStage j ⟨s, .flagging cid⟩ .done).countP (Attempt.inFlight s') = w.flights s' :=
    fun s' hne => countP_set_eq hj ((inFlight_done _ _).trans (inFlight_of_ne hne).symm)
  have hmem : ∀ b ∈ w.setStage j ⟨s, .flagging cid⟩ .done,
      b ∈ w.attempts ∨ b = ⟨s, .done⟩ := fun b hb => List.mem_or_eq_of_mem_set hb
  constructor
  · intro s' hs'
    dsimp only at hs' ⊢
    by_cases heq : s' = s
    · rw [heq, setServer_self]
      change (w.servers s).connectionID ∈ w.live
      rw [show (w.servers s).connectionID = cid from hcid]
      exact hlive
    · rw [setServer_of_ne heq] at hs' ⊢
      exact h.connected s' hs'
  · intro s' hs' hres
    rw [resolved] at hres
    dsimp only at hs' hres
    have hne : s' ≠ s := by
      rintro rfl
      rw [setServer_self] at hs'
      cases hs'
    rw [setServer_of_ne hne] at hs' hres
    exact (hother s' hne).trans (h.connecting s' hs' hres)
  · intro s' hs'
    dsimp only at hs'
    have hne : s' ≠ s := by
      rintro rfl
      rw [setServer_self] at hs'
      cases hs'
    rw [setServer_of_ne hne] at hs'
    exact h.disconnected s' hs'
  · intro s'
    change (w.setStage j _ .done).countP _ ≤ 1
    by_cases heq : s' = s
    · rw [heq]
      omega
    · rw [hother s' heq]
      exact h.single s'
  · intro s' hs'
    change (w.setStage j _ .done).countP _ = 0
    dsimp only at hs'
    by_cases heq : s' = s
    · rw [heq]
      omega
    · rw [setServer_of_ne heq] at hs'
      rw [hother s' heq]
      exact h.none s' hs'
  · intro b hb cid' hcid'
    obtain hold | rfl := hmem b hb
    · exact h.made b hold cid' hcid'
    · cases hcid'
  · intro b hb cid' hcid'
    dsimp only
    obtain hold | rfl := hmem b hb
    · by_cases heq : b.server = s
      · rw [heq, setServer_self, ← heq]
        exact h.stored b hold cid' hcid'
      · rw [setServer_of_ne heq]
        exact h.stored b hold cid' hcid'
    · cases hcid'

theorem onConnectionClose_servers (w : World n) (cid : ConnectionID) (s : Fin n) :
    ((w.servers s).connectionID = cid ∧
        (w.onConnectionClose cid).servers s = { w.servers s with status := .disconnected }) ∨
      ((w.servers s).connectionID ≠ cid ∧ (w.onConnectionClose cid).servers s = w.servers s) := by
  by_cases heq : (w.servers s).connectionID = cid
  · exact .inl ⟨heq, if_pos heq⟩
  · exact .inr ⟨heq, if_neg heq⟩

theorem Inv.close (h : w.Inv resolves []) (hcid : cid ∈ w.live)
    (hok : w.Orderly resolves (.close cid)) :
    ({ w with live := w.live.filter (· ≠ cid) }.onConnectionClose cid).Inv resolves [] := by
  have hserver := onConnectionClose_servers { w with live := w.live.filter (· ≠ cid) } cid
  have hok := hok hcid
  have hlive : ∀ cid' ∈ w.live, cid' ≠ cid → cid' ∈ w.live.filter (· ≠ cid) :=
    fun cid' hmem hne => List.mem_filter.mpr ⟨hmem, decide_eq_true hne⟩
  constructor
  · intro s hs
    obtain ⟨-, heq⟩ | ⟨hne, heq⟩ := hserver s
    · rw [heq] at hs
      cases hs
    · rw [heq] at hs ⊢
      exact hlive _ (h.connected s hs) hne
  · intro s hs hres
    obtain ⟨-, heq⟩ | ⟨hne, heq⟩ := hserver s
    · rw [heq] at hs
      cases hs
    · rw [resolved, heq] at hres
      rw [heq] at hs
      exact h.connecting s hs hres
  · intro s hs
    refine .inl (List.mem_append.mpr ?_)
    obtain ⟨hid, -⟩ | ⟨hne, heq⟩ := hserver s
    · exact .inr (List.mem_filter.mpr ⟨List.mem_finRange s, decide_eq_true hid⟩)
    · rw [heq] at hs
      exact .inl ((h.disconnected s hs).resolve_right List.not_mem_nil)
  · exact h.single
  · intro s hs
    obtain ⟨hid, -⟩ | ⟨hne, heq⟩ := hserver s
    · refine List.countP_eq_zero.mpr fun a ha hflight => ?_
      rw [Attempt.inFlight, Bool.and_eq_true, decide_eq_true_eq, decide_eq_true_eq] at hflight
      obtain ⟨rfl, hstage⟩ := hflight
      exact (hok a ha hstage).2 hid
    · rw [heq] at hs
      exact h.none s hs
  · intro a ha cid' hcid'
    apply hlive cid' (h.made a ha cid' hcid')
    rintro rfl
    refine (hok a ha ?_).1 hcid'
    intro hdone
    rw [hdone] at hcid'
    cases hcid'
  · intro a ha cid' hcid'
    have hstored := h.stored a ha cid' hcid'
    obtain ⟨-, heq⟩ | ⟨-, heq⟩ := hserver a.server
    · rw [heq]
      exact hstored
    · rw [heq]
      exact hstored

theorem Inv.step (h : w.Inv resolves []) (hok : w.Orderly resolves e) :
    (w.step resolves e).Inv resolves [] := by
  cases e with
  | timer => exact h.connectToPendingServers
  | connect j cid =>
    rw [World.step]
    split
    · rename_i s hj
      unfold World.connect
      split
      · rename_i hres
        exact h.unresolved hj nofun hres
      · rename_i hres
        cases cid with
        | none => exact absurd (hok s hj) hres
        | some cid =>
          dsimp only
          split
          · exact h
          · exact h.connect hj cid
    · exact h
  | storeConnectionID j =>
    rw [World.step]
    split
    · rename_i s cid hj
      exact h.storeConnectionID hj
    · exact h
  | storeStatus j =>
    rw [World.step]
    split
    · rename_i s cid hj
      exact h.storeStatus hj
    · exact h
  | close cid =>
    rw [World.step]
    split
    · rename_i hcid
      exact h.close hcid hok
    · exact h

theorem Inv.tracked (h : w.Inv resolves []) : w.Tracked resolves := by
  intro s hres
  cases hstatus : (w.servers s).status with
  | connected => exact .inl ⟨rfl, h.connected s hstatus⟩
  | connecting => exact .inr (.inl (h.connecting s hstatus hres))
  | disconnected =>
    exact .inr (.inr ⟨(h.disconnected s hstatus).resolve_right List.not_mem_nil, rfl⟩)

theorem connectToPending_servers (w : World n) (s s' : Fin n) :
    (w.connectToPending s').servers s =
      if s = s' ∧ (w.servers s).status = .disconnected then
        { w.servers s with status := .connecting }
      else w.servers s := by
  rw [connectToPending]
  split
  · rename_i hstatus
    rw [if_neg]
    rintro ⟨rfl, hs⟩
    exact hstatus hs
  · rename_i hstatus
    by_cases heq : s = s'
    · rw [if_pos ⟨heq, heq ▸ Decidable.of_not_not hstatus⟩, heq]
      exact setServer_self w s' _
    · rw [if_neg fun h => heq h.1]
      exact setServer_of_ne heq _

theorem foldl_connectToPending (l : List (Fin n)) (w : World n)
    (hs : (w.servers s).status = .connecting ∨
      (w.servers s).status = .disconnected ∧ s ∈ l) :
    ((l.foldl connectToPending w).servers s).status = .connecting := by
  induction l generalizing w with
  | nil => exact hs.resolve_right fun h => List.not_mem_nil h.2
  | cons s' l ih =>
    apply ih
    rw [connectToPending_servers]
    split
    · exact .inl rfl
    · rename_i hne
      refine hs.imp_right fun h => ⟨h.1, ?_⟩
      exact (List.mem_cons.mp h.2).resolve_left fun heq => hne ⟨heq, h.1⟩

theorem foldl_resolved (l : List (Fin n)) (w : World n) (s : Fin n) :
    (l.foldl connectToPending w).resolved resolves s = w.resolved resolves s := by
  induction l generalizing w with
  | nil => rfl
  | cons s' l ih =>
    rw [List.foldl_cons, ih, resolved, connectToPending_servers]
    split <;> rfl

theorem Inv.retried (h : w.Inv resolves []) (hres : w.resolved resolves s = true)
    (hs : (w.servers s).status = .disconnected) : (w.step resolves .timer).flights s = 1 := by
  apply h.connectToPendingServers.connecting s
  · apply foldl_connectToPending
    exact .inr ⟨hs, (h.disconnected s hs).resolve_right List.not_mem_nil⟩
  · exact (foldl_resolved _ _ s).trans hres

end World

theorem start_inv {n : Nat} (resolves : String → String → Bool) (address port : Fin n → String) :
    (start address port).Inv resolves [] where
  connected _ := nofun
  connecting _ := nofun
  disconnected s _ := .inl (List.mem_finRange s)
  single _ := Nat.zero_le 1
  none _ _ := rfl
  made := nofun
  stored := nofun

/-- In a run in which no server that is found refuses a connection, and no connection goes down
before its attempt has ended, no server is forgotten, and one that is down is tried by the
next tick. -/
theorem tracked_of_orderly {n : Nat} {resolves : String → String → Bool}
    {address port : Fin n → String} {es : List Event}
    (hes : Along (World.step resolves) (World.Orderly resolves) (start address port) es) :
    Throughout (World.step resolves)
      (fun w => w.Tracked resolves ∧ ∀ s, w.resolved resolves s = true →
        (w.servers s).status = .disconnected → (w.step resolves .timer).flights s = 1)
      (start address port) es := by
  have hinv : Throughout (World.step resolves) (fun w => w.Inv resolves [])
      (start address port) es :=
    hes.throughout (fun _ _ hok h => h.step hok) (start_inv resolves address port)
  exact hinv.mono fun _ h => ⟨h.tracked, fun _ hres hs => h.retried hres hs⟩

theorem tracked_of_orderly_one :
    Throughout (World.step fun _ _ => true)
      (fun w => w.Tracked (fun _ _ => true) ∧ ∀ s, w.resolved (fun _ _ => true) s = true →
        (w.servers s).status = .disconnected → (w.step (fun _ _ => true) .timer).flights s = 1)
      (start (fun _ : Fin 1 => "host") fun _ => "8000")
      [.timer, .connect 0 (some 1), .storeConnectionID 0, .storeStatus 0, .close 1, .timer,
        .connect 1 (some 2), .storeConnectionID 1, .storeStatus 1] :=
  tracked_of_orderly ⟨trivial, trivial, trivial, trivial, by
    intro _ a ha hstage
    obtain rfl := List.mem_singleton.mp ha
    exact absurd rfl hstage, trivial, trivial, trivial, trivial, trivial⟩

theorem forgets_refused : ¬ ∀ (resolves : String → String → Bool) (n : Nat)
    (address port : Fin n → String) (es : List Event),
    Throughout (World.step resolves) (World.Tracked resolves) (start address port) es := by
  intro h
  have hlast := (h (fun _ _ => true) 1 (fun _ => "host") (fun _ => "8000")
    [.timer, .connect 0 none, .timer]).last
  have hno := hlast 0 rfl
  revert hno
  decide

end PendingServers

end Sptag.Aggregator
