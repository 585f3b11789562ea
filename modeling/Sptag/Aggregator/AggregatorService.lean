import Sptag.Socket.ResourceManager
import Sptag.Aggregator.PendingServers

/-! How the aggregator answers queries (`SearchRequestHanlder`, `SearchResponseHanlder` and
`AggregateResults` of `AggregatorService.cpp`), over the resource manager that keeps the
callbacks of the servers. -/

namespace Sptag.Aggregator

open Lib Socket

variable {R : Type*}

inductive ResultStatus
  | success
  | timeout
  | failedNetwork
  | failedExecute
  | dropped
  deriving DecidableEq

structure RemoteSearchResult (R : Type*) where
  status : ResultStatus
  allIndexResults : List R

namespace AggregatorService

structure Slot where
  request : Nat
  server : Nat
  deriving DecidableEq

inductive Stage
  | looping (i : Nat)
  /-- In the call number `add` of `Add` of the callback manager. -/
  | adding (i add : Nat)
  | sending (i : Nat)
  deriving DecidableEq

def Stage.added : Stage → Nat
  | looping i => i
  | adding i _ | sending i => i + 1

def Stage.sent : Stage → Nat
  | looping i | adding i _ | sending i => i

structure Handler where
  remoteServers : List ConnectionID
  stage : Stage
  deriving DecidableEq

structure ExecutionContext (R : Type*) where
  results : List (Option (RemoteSearchResult R))
  unfinishedCount : UInt32

inductive Origin
  | manager
  | connectCallback
  deriving DecidableEq

inductive Phase
  | deciding
  | counting
  | aggregating
  | returned
  deriving DecidableEq

structure Callback (R : Type*) where
  slot : Slot
  origin : Origin
  result : RemoteSearchResult R
  phase : Phase

def Callback.counts (r : Nat) (c : Callback R) : Bool :=
  c.slot.request = r && (c.phase = .aggregating || c.phase = .returned)

def Callback.aggregates (r : Nat) (c : Callback R) : Bool :=
  c.slot.request = r && c.phase = .aggregating

def Callback.decides (o : Slot) (c : Callback R) : Bool :=
  c.slot = o && c.phase ≠ .deciding

structure Reply (R : Type*) where
  request : Nat
  allIndexResults : List R

/-- `owners` are the servers whose callbacks the manager has got, in the order of its `Add`s. -/
structure World (R : Type*) where
  manager : ResourceManager.World
  owners : List Slot
  handlers : List Handler
  executions : List (ExecutionContext R)
  sends : List Slot
  callbacks : List (Callback R)
  replies : List (Reply R)

inductive Event (R : Type*)
  /-- A search request, for the servers that it is meant for. -/
  | search (servers : List RemoteMachine)
  /-- The next step of a handler. -/
  | advance (request : Nat)
  /-- The packet of a server is sent, or fails to be. -/
  | connectCallback (o : Slot) (connectSucc : Bool)
  /-- A response, with its body unless it says that the server has failed. -/
  | response (rid : ResourceID) (body : Option (RemoteSearchResult R))
  | checkTimeout
  | tick
  /-- The next step of a callback. -/
  | callback (call : Nat)

def start : World R where
  manager := ResourceManager.start
  owners := []
  handlers := []
  executions := []
  sends := []
  callbacks := []
  replies := []

def connectedServers (servers : List RemoteMachine) : List ConnectionID :=
  (servers.filter (·.status = .connected)).map RemoteMachine.connectionID

def aggregateResults (results : List (Option (RemoteSearchResult R))) : List R :=
  results.flatMap fun result => (result.map RemoteSearchResult.allIndexResults).getD []

def failedNetwork : RemoteSearchResult R := ⟨.failedNetwork, []⟩

def failedExecute : RemoteSearchResult R := ⟨.failedExecute, []⟩

def timeout : RemoteSearchResult R := ⟨.timeout, []⟩

namespace World

section Steps

variable (searchTimeout : Nat) (w : World R)

def manage (e : ResourceManager.Event) (result : RemoteSearchResult R) : World R :=
  { w with
    manager := w.manager.step e
    callbacks := w.callbacks ++
      (((w.manager.step e).deliveries.drop w.manager.deliveries.length).filterMap
        fun d => w.owners[d.resource]?).map (⟨·, .manager, result, .deciding⟩) }

def setHandler (r : Nat) (x : Handler) (stage : Stage) : List Handler :=
  w.handlers.set r { x with stage := stage }

def isAdded (manager : ResourceManager.World) (k : Nat) : Bool :=
  match manager.adds[k]? with
  | some ⟨_, .returned _⟩ => true
  | _ => false

def advance (r : Nat) (x : Handler) : World R :=
  match x.stage with
  | .looping i =>
    if i < x.remoteServers.length then
      { w with
        manager := w.manager.step (.add searchTimeout)
        owners := w.owners ++ [⟨r, i⟩]
        handlers := w.setHandler r x (.adding i w.manager.adds.length) }
    else w
  | .adding i k =>
    { w with
      manager := w.manager.step (.advance k)
      handlers := w.setHandler r x
        (if isAdded (w.manager.step (.advance k)) k then .sending i else .adding i k) }
  | .sending i =>
    { w with
      sends := w.sends ++ [⟨r, i⟩]
      handlers := w.setHandler r x (.looping (i + 1)) }

def setCallback (j : Nat) (c : Callback R) (phase : Phase) : List (Callback R) :=
  w.callbacks.set j { c with phase := phase }

def callback (j : Nat) (c : Callback R) (x : ExecutionContext R) : World R :=
  match c.phase with
  | .deciding =>
    { w with
      executions := w.executions.set c.slot.request
        { x with results := x.results.set c.slot.server (some c.result) }
      callbacks := w.setCallback j c .counting }
  | .counting =>
    { w with
      executions := w.executions.set c.slot.request
        { x with unfinishedCount := x.unfinishedCount - 1 }
      callbacks := w.setCallback j c
        (if x.unfinishedCount ≤ 1 then .aggregating else .returned) }
  | .aggregating =>
    { w with
      replies := w.replies ++ [⟨c.slot.request, aggregateResults x.results⟩]
      callbacks := w.setCallback j c .returned }
  | .returned => w

def step : Event R → World R
  | .search servers =>
    { w with
      handlers := w.handlers ++ [⟨connectedServers servers, .looping 0⟩]
      executions := w.executions ++
        [⟨List.replicate (connectedServers servers).length none,
          UInt32.ofNat (connectedServers servers).length⟩] }
  | .advance r =>
    match w.handlers[r]? with
    | none => w
    | some x => w.advance searchTimeout r x
  | .connectCallback o connectSucc =>
    if o ∈ w.sends then
      { w with
        sends := w.sends.erase o
        callbacks := if connectSucc then w.callbacks
          else w.callbacks ++ [⟨o, .connectCallback, failedNetwork, .deciding⟩] }
    else w
  | .response rid body => w.manage (.getAndRemove rid) (body.getD failedExecute)
  | .checkTimeout => w.manage .checkTimeout timeout
  | .tick => w.manage .tick timeout
  | .callback j =>
    match w.callbacks[j]? with
    | none => w
    | some c =>
      match w.executions[c.slot.request]? with
      | none => w
      | some x => w.callback j c x

def aggregations (r : Nat) : Nat :=
  w.replies.countP (·.request = r) + w.callbacks.countP (Callback.aggregates r)

def decisions (o : Slot) : Nat := w.callbacks.countP (Callback.decides o)

/-- Nothing is left to do for the request: its handler is done, its callbacks have returned,
and the manager has none of them. -/
structure Over (r : Nat) (x : Handler) : Prop where
  handler : x.stage = .looping x.remoteServers.length
  callbacks : ∀ c ∈ w.callbacks, c.slot.request = r → c.phase = .returned
  manager : ∀ rid k, w.manager.resources rid = some k →
    ∀ o, w.owners[k]? = some o → o.request ≠ r

/-- Each request is answered at most once, once all its slots are decided, and by the time
that nothing is left to do for it. -/
def Answered : Prop :=
  ∀ r x, w.handlers[r]? = some x →
    w.aggregations r ≤ 1 ∧
      (w.aggregations r = 1 → ∀ i < x.remoteServers.length, w.decisions ⟨r, i⟩ = 1) ∧
      (w.Over r x → w.replies.countP (·.request = r) = 1)

def called (origin : Origin) (o : Slot) : Bool :=
  w.callbacks.any fun c => c.origin = origin && c.slot = o

def NotFailed (e : ResourceManager.Event) : Prop :=
  ∀ rid k o, w.manager.lookup e = some rid → w.manager.resources rid = some k →
    w.owners[k]? = some o → w.called .connectCallback o = false

/-- The manager has ids left, every request goes to some server, and no packet fails to be
sent whose server answers or times out. -/
def Orderly (w : World R) (e : Event R) : Prop :=
  w.manager.adds.length < 2 ^ 32 ∧
    match e with
    | .search servers =>
      0 < (connectedServers servers).length ∧ (connectedServers servers).length < 2 ^ 32
    | .connectCallback o false => w.called .manager o = false
    | .response rid _ => w.NotFailed (.getAndRemove rid)
    | .checkTimeout => w.NotFailed .checkTimeout
    | _ => True

end Steps

variable {searchTimeout : Nat} {w : World R} {r : Nat} {x : Handler} {k j : Nat} {o : Slot}
  {c : Callback R} {e : Event R}

def Past (handlers : List Handler) (f : Stage → Nat) (o : Slot) : Prop :=
  ∃ x, handlers[o.request]? = some x ∧ o.server < f x.stage

theorem getElem?_setHandler (hr : w.handlers[r]? = some x) (stage : Stage) (r' : Nat) :
    (w.setHandler r x stage)[r']? =
      if r' = r then some { x with stage := stage } else w.handlers[r']? := by
  rw [setHandler]
  split
  · rename_i heq
    rw [heq, List.getElem?_set_self (List.getElem?_eq_some_iff.mp hr).1]
  · rename_i hne
    rw [List.getElem?_set_ne (Ne.symm hne)]

theorem Past.mono {f : Stage → Nat} (h : Past w.handlers f o) (hr : w.handlers[r]? = some x)
    {stage : Stage} (hle : f x.stage ≤ f stage) : Past (w.setHandler r x stage) f o := by
  obtain ⟨y, hy, hlt⟩ := h
  rw [Past, getElem?_setHandler hr]
  split
  · rename_i heq
    rw [heq] at hy
    obtain rfl := Option.some.inj (hr.symm.trans hy)
    exact ⟨_, rfl, hlt.trans_le hle⟩
  · exact ⟨y, hy, hlt⟩

theorem Past.append {f : Stage → Nat} (h : Past w.handlers f o) (x : Handler) :
    Past (w.handlers ++ [x]) f o := by
  obtain ⟨y, hy, hlt⟩ := h
  exact ⟨y, (List.getElem?_append_left (List.getElem?_eq_some_iff.mp hy).1).trans hy, hlt⟩

/-- Each handler has given the manager the callbacks of the servers that it has come past, one
for each, in `Add`s that have all returned but the one that it is in. -/
structure Dispatch (w : World R) : Prop where
  ids : w.manager.Ids
  table : w.manager.Table
  kept : w.manager.Kept
  length : w.owners.length = w.manager.adds.length
  distinct : w.owners.Nodup
  past : ∀ o ∈ w.owners, Past w.handlers Stage.added o
  asked : ∀ (r : Nat) (x : Handler), w.handlers[r]? = some x → ∀ i < x.stage.added,
    ⟨r, i⟩ ∈ w.owners
  bound : ∀ (r : Nat) (x : Handler), w.handlers[r]? = some x → x.stage.added ≤
    x.remoteServers.length
  stored : ∀ k o, w.owners[k]? = some o → (∃ rid, w.manager.Stored k rid) ∨
    ∃ x : Handler, w.handlers[o.request]? = some x ∧ x.stage = .adding o.server k

theorem Dispatch.manage (h : w.Dispatch) (hlt : w.manager.adds.length < 2 ^ 32)
    {e : ResourceManager.Event} (he : e.isAdd = false) (he' : e.removes = false)
    (callbacks : List (Callback R)) :
    { w with manager := w.manager.step e, callbacks := callbacks }.Dispatch where
  ids := h.ids.step hlt e
  table := h.table.step h.ids e
  kept := h.kept.step h.table h.ids he'
  length := by
    dsimp only
    rw [ResourceManager.World.step_length, he]
    exact h.length
  distinct := h.distinct
  past := h.past
  asked := h.asked
  bound := h.bound
  stored k o hk := (h.stored k o hk).imp_left
    fun ⟨rid, hst⟩ => ⟨rid, ResourceManager.World.step_stored hst⟩

theorem Dispatch.setHandler (h : w.Dispatch) (hr : w.handlers[r]? = some x) {stage : Stage}
    (hadded : stage.added = x.stage.added)
    (hstored : ∀ i k, x.stage = .adding i k → stage = .adding i k ∨ ∃ rid, w.manager.Stored k rid)
    (sends : List Slot) :
    { w with sends := sends, handlers := w.setHandler r x stage }.Dispatch where
  ids := h.ids
  table := h.table
  kept := h.kept
  length := h.length
  distinct := h.distinct
  past o ho := (h.past o ho).mono hr hadded.ge
  asked r' y hy := by
    rw [getElem?_setHandler hr] at hy
    split at hy
    · rename_i heq
      obtain rfl := Option.some.inj hy
      rw [heq]
      dsimp only
      rw [hadded]
      exact h.asked r x hr
    · exact h.asked r' y hy
  bound r' y hy := by
    rw [getElem?_setHandler hr] at hy
    split at hy
    · obtain rfl := Option.some.inj hy
      dsimp only
      rw [hadded]
      exact h.bound r x hr
    · exact h.bound r' y hy
  stored k o hk := by
    obtain hst | ⟨y, hy, hstage⟩ := h.stored k o hk
    · exact .inl hst
    · rw [getElem?_setHandler hr]
      split
      · rename_i heq
        rw [heq] at hy
        obtain rfl := Option.some.inj (hr.symm.trans hy)
        exact (hstored _ _ hstage).symm.imp_right fun hst => ⟨_, rfl, hst⟩
      · exact .inr ⟨y, hy, hstage⟩

theorem Dispatch.add (h : w.Dispatch) (hlt : w.manager.adds.length < 2 ^ 32)
    (hr : w.handlers[r]? = some x) {i : Nat} (hstage : x.stage = .looping i)
    (hi : i < x.remoteServers.length) :
    { w with
      manager := w.manager.step (.add searchTimeout)
      owners := w.owners ++ [(⟨r, i⟩ : Slot)]
      handlers := w.setHandler r x (.adding i w.manager.adds.length) }.Dispatch where
  ids := h.ids.step hlt (.add searchTimeout)
  table := h.table.step h.ids (.add searchTimeout)
  kept := h.kept.step (e := .add searchTimeout) h.table h.ids rfl
  length := by
    dsimp only
    rw [ResourceManager.World.step_length, List.length_append, h.length]
    rfl
  distinct := by
    dsimp only
    rw [List.nodup_append]
    refine ⟨h.distinct, List.nodup_singleton _, fun o ho o' ho' heq => ?_⟩
    obtain rfl := List.mem_singleton.mp ho'
    obtain ⟨y, hy, hlt'⟩ := h.past o ho
    rw [heq] at hy hlt'
    obtain rfl := Option.some.inj (hr.symm.trans hy)
    rw [hstage] at hlt'
    exact Nat.lt_irrefl i hlt'
  past o ho := by
    cases List.mem_append.mp ho with
    | inl hold =>
      apply (h.past o hold).mono hr
      rw [hstage]
      exact Nat.le_succ i
    | inr hnew =>
      obtain rfl := List.mem_singleton.mp hnew
      exact ⟨_, (getElem?_setHandler hr _ r).trans (if_pos rfl), Nat.lt_succ_self i⟩
  asked r' y hy i' hi' := by
    rw [getElem?_setHandler hr] at hy
    rw [List.mem_append]
    split at hy
    · rename_i heq
      obtain rfl := Option.some.inj hy
      obtain hlt' | heq' := Nat.lt_or_eq_of_le (Nat.le_of_lt_succ hi')
      · refine .inl (heq ▸ h.asked r x hr i' ?_)
        rw [hstage]
        exact hlt'
      · exact .inr (by rw [heq, heq']; exact List.mem_cons_self)
    · exact .inl (h.asked r' y hy i' hi')
  bound r' y hy := by
    rw [getElem?_setHandler hr] at hy
    split at hy
    · obtain rfl := Option.some.inj hy
      exact hi
    · exact h.bound r' y hy
  stored k o hk := by
    dsimp only at hk
    rw [List.getElem?_append] at hk
    rw [getElem?_setHandler hr]
    split at hk
    · obtain ⟨rid, hst⟩ | ⟨y, hy, hadding⟩ := h.stored k o hk
      · exact .inl ⟨rid, ResourceManager.World.step_stored hst⟩
      · refine .inr ?_
        rw [if_neg]
        · exact ⟨y, hy, hadding⟩
        · intro heq
          rw [heq] at hy
          obtain rfl := Option.some.inj (hr.symm.trans hy)
          rw [hstage] at hadding
          cases hadding
    · rename_i hge
      obtain ⟨hlt', rfl⟩ := List.getElem?_eq_some_iff.mp hk
      have hzero : k - w.owners.length = 0 := Nat.lt_one_iff.mp hlt'
      have hk : k = w.manager.adds.length := by
        rw [← h.length]
        omega
      simp only [hzero, List.getElem_cons_zero, if_true]
      rw [hk]
      exact .inr ⟨_, rfl, rfl⟩

theorem stored_of_isAdded {manager : ResourceManager.World} (h : isAdded manager k = true) :
    ∃ rid, manager.Stored k rid := by
  rw [isAdded] at h
  split at h
  · rename_i rid hk
    exact ⟨rid, _, hk, rfl⟩
  · cases h

theorem Dispatch.advance (h : w.Dispatch) (hlt : w.manager.adds.length < 2 ^ 32)
    (hr : w.handlers[r]? = some x) : (w.advance searchTimeout r x).Dispatch := by
  rw [World.advance]
  split
  · rename_i i hstage
    split
    · rename_i hi
      exact h.add hlt hr hstage hi
    · exact h
  · rename_i i k hstage
    have hmanage := h.manage hlt (e := .advance k) rfl rfl w.callbacks
    refine hmanage.setHandler (x := x) hr ?_ ?_ w.sends
    · rw [hstage]
      split <;> rfl
    · intro i' k' hadding
      rw [hstage] at hadding
      obtain ⟨rfl, rfl⟩ := Stage.adding.inj hadding
      split
      · rename_i hadded
        exact .inr (stored_of_isAdded hadded)
      · exact .inl rfl
  · rename_i i hstage
    apply h.setHandler hr
    · rw [hstage]
      rfl
    · rw [hstage]
      exact nofun

/-- No callback is called twice: the manager hands it out once, a packet fails to be sent once,
and not both happen to one server. -/
structure Calls (w : World R) : Prop where
  distinct : (w.callbacks.map Callback.slot).Nodup
  handed : ∀ c ∈ w.callbacks, c.origin = .manager →
    ∃ d ∈ w.manager.deliveries, w.owners[d.resource]? = some c.slot
  called : ∀ d ∈ w.manager.deliveries, ∃ c ∈ w.callbacks, w.owners[d.resource]? = some c.slot
  sends : w.sends.Nodup
  past : ∀ o ∈ w.sends, Past w.handlers Stage.sent o
  failed : ∀ c ∈ w.callbacks, c.origin = .connectCallback →
    Past w.handlers Stage.sent c.slot ∧ c.slot ∉ w.sends

theorem called_eq_false {origin : Origin} (h : w.called origin o = false) (hc : c ∈ w.callbacks)
    (horigin : c.origin = origin) : c.slot ≠ o := by
  intro heq
  have hany := List.any_eq_false.mp h c hc
  rw [horigin, heq, decide_eq_true rfl, decide_eq_true rfl] at hany
  exact hany rfl

theorem Calls.mono {w' : World R} (h : w.Calls) (hcallbacks : w'.callbacks = w.callbacks)
    (hdel : w'.manager.deliveries = w.manager.deliveries)
    (howners : ∀ (k : Nat) (o : Slot), w.owners[k]? = some o → w'.owners[k]? = some o)
    (hsends : w'.sends = w.sends)
    (hpast : ∀ o, Past w.handlers Stage.sent o → Past w'.handlers Stage.sent o) : w'.Calls where
  distinct := hcallbacks ▸ h.distinct
  handed c hc horigin := by
    obtain ⟨d, hd, ho⟩ := h.handed c (hcallbacks ▸ hc) horigin
    exact ⟨d, hdel ▸ hd, howners _ _ ho⟩
  called d hd := by
    obtain ⟨c, hc, ho⟩ := h.called d (hdel ▸ hd)
    exact ⟨c, hcallbacks ▸ hc, howners _ _ ho⟩
  sends := hsends ▸ h.sends
  past o ho := hpast o (h.past o (hsends ▸ ho))
  failed c hc horigin := by
    obtain ⟨hp, hnot⟩ := h.failed c (hcallbacks ▸ hc) horigin
    exact ⟨hpast _ hp, hsends ▸ hnot⟩

theorem Dispatch.manage_callbacks (h : w.Dispatch) (e : ResourceManager.Event)
    (result : RemoteSearchResult R) :
    ((w.manager.step e).deliveries = w.manager.deliveries ∧
        (w.manage e result).callbacks = w.callbacks) ∨
      ∃ d o, w.manager.lookup e = some d.id ∧ w.manager.resources d.id = some d.resource ∧
        (w.manager.step e).deliveries = w.manager.deliveries ++ [d] ∧
        w.owners[d.resource]? = some o ∧
        (w.manage e result).callbacks = w.callbacks ++ [⟨o, .manager, result, .deciding⟩] := by
  rw [World.manage]
  obtain heq | ⟨d, hlookup, hentry, heq⟩ := ResourceManager.World.step_deliveries w.manager e
  · refine .inl ⟨heq, ?_⟩
    dsimp only
    rw [heq, List.drop_length]
    exact List.append_nil _
  · obtain ⟨a, ha, -⟩ := (h.table.entry _ _ hentry).1
    have hlt : d.resource < w.owners.length := by
      rw [h.length]
      exact (List.getElem?_eq_some_iff.mp ha).1
    refine .inr ⟨d, w.owners[d.resource], hlookup, hentry, heq, List.getElem?_eq_getElem hlt, ?_⟩
    dsimp only
    rw [heq, List.drop_left, List.filterMap_cons, List.getElem?_eq_getElem hlt]
    rfl

theorem Calls.manage (h : w.Calls) (hd : w.Dispatch) {e : ResourceManager.Event}
    (hok : w.NotFailed e) (result : RemoteSearchResult R) : (w.manage e result).Calls := by
  obtain ⟨hdel, hcallbacks⟩ | ⟨d, o, hlookup, hentry, hdel, ho, hcallbacks⟩ :=
    hd.manage_callbacks e result
  · exact h.mono hcallbacks hdel (fun _ _ ho => ho) rfl fun _ ho => ho
  · constructor
    · rw [hcallbacks, List.map_append, List.nodup_append]
      refine ⟨h.distinct, List.nodup_singleton _, fun o' ho' o'' ho'' heq => ?_⟩
      obtain ⟨c, hc, rfl⟩ := List.mem_map.mp ho'
      rw [List.mem_singleton.mp ho''] at heq
      change c.slot = o at heq
      cases horigin : c.origin with
      | manager =>
        obtain ⟨d', hd', hc'⟩ := h.handed c hc horigin
        rw [heq, ← ho] at hc'
        have hlt := (List.getElem?_eq_some_iff.mp ho).1
        have hres := (List.getElem?_inj hlt hd.distinct).mp hc'.symm
        apply (hd.table.entry _ _ hentry).2
        rw [hres]
        exact List.mem_map_of_mem hd'
      | connectCallback =>
        exact called_eq_false (hok d.id d.resource o hlookup hentry ho) hc horigin heq
    · intro c hc horigin
      rw [hcallbacks, List.mem_append, List.mem_singleton] at hc
      change ∃ d ∈ (w.manager.step e).deliveries, _
      rw [hdel]
      obtain hold | rfl := hc
      · obtain ⟨d', hd', hc'⟩ := h.handed c hold horigin
        exact ⟨d', List.mem_append_left _ hd', hc'⟩
      · exact ⟨d, List.mem_append_right _ (List.mem_singleton_self d), ho⟩
    · intro d' hd'
      change d' ∈ (w.manager.step e).deliveries at hd'
      rw [hdel, List.mem_append, List.mem_singleton] at hd'
      rw [hcallbacks]
      obtain hold | rfl := hd'
      · obtain ⟨c, hc, hc'⟩ := h.called d' hold
        exact ⟨c, List.mem_append_left _ hc, hc'⟩
      · exact ⟨_, List.mem_append_right _ (List.mem_singleton_self _), ho⟩
    · exact h.sends
    · exact h.past
    · intro c hc horigin
      rw [hcallbacks, List.mem_append, List.mem_singleton] at hc
      obtain hold | rfl := hc
      · exact h.failed c hold horigin
      · cases horigin

theorem Calls.advance (h : w.Calls) (hr : w.handlers[r]? = some x) :
    (w.advance searchTimeout r x).Calls := by
  rw [World.advance]
  split
  · rename_i i hstage
    split
    · refine h.mono rfl rfl (fun k o ho => ?_) rfl fun o ho => ho.mono hr ?_
      · exact (List.getElem?_append_left (List.getElem?_eq_some_iff.mp ho).1).trans ho
      · rw [hstage]
        exact le_rfl
    · exact h
  · rename_i i k hstage
    refine h.mono rfl ?_ (fun _ _ ho => ho) rfl fun o ho => ho.mono hr ?_
    · obtain heq | ⟨d, hlookup, -⟩ :=
        ResourceManager.World.step_deliveries w.manager (.advance k)
      · exact heq
      · cases hlookup
    · rw [hstage]
      split <;> exact le_rfl
  · rename_i i hstage
    have hle : x.stage.sent ≤ (Stage.looping (i + 1)).sent := by
      rw [hstage]
      exact Nat.le_succ i
    -- the slot that is sent is the first one that the handler has not come past
    have hnew : ¬ Past w.handlers Stage.sent ⟨r, i⟩ := by
      rintro ⟨y, hy, hlt⟩
      obtain rfl := Option.some.inj (hr.symm.trans hy)
      rw [hstage] at hlt
      exact Nat.lt_irrefl i hlt
    constructor
    · exact h.distinct
    · exact h.handed
    · exact h.called
    · change (w.sends ++ [(⟨r, i⟩ : Slot)]).Nodup
      rw [List.nodup_append]
      refine ⟨h.sends, List.nodup_singleton _, fun o ho o' ho' heq => ?_⟩
      obtain rfl := List.mem_singleton.mp ho'
      exact hnew (heq ▸ h.past o ho)
    · intro o ho
      cases List.mem_append.mp ho with
      | inl hold => exact (h.past o hold).mono hr hle
      | inr hmem =>
        obtain rfl := List.mem_singleton.mp hmem
        exact ⟨_, (getElem?_setHandler hr _ r).trans (if_pos rfl), Nat.lt_succ_self i⟩
    · intro c hc horigin
      obtain ⟨hp, hnot⟩ := h.failed c hc horigin
      refine ⟨hp.mono hr hle, fun hmem => ?_⟩
      cases List.mem_append.mp hmem with
      | inl hold => exact hnot hold
      | inr hmem => exact hnew (List.mem_singleton.mp hmem ▸ hp)

theorem Calls.connectCallback (h : w.Calls) (ho : o ∈ w.sends) {connectSucc : Bool}
    (hok : connectSucc = false → w.called .manager o = false) :
    { w with
      sends := w.sends.erase o
      callbacks := if connectSucc then w.callbacks
        else w.callbacks ++
          [(⟨o, .connectCallback, failedNetwork, .deciding⟩ : Callback R)] }.Calls := by
  have hnot : o ∉ w.sends.erase o := h.sends.not_mem_erase
  have hmem : ∀ c ∈ (if connectSucc then w.callbacks
      else w.callbacks ++ [(⟨o, .connectCallback, failedNetwork, .deciding⟩ : Callback R)]),
      c ∈ w.callbacks ∨ connectSucc = false ∧
        c = ⟨o, .connectCallback, failedNetwork, .deciding⟩ := by
    intro c hc
    cases connectSucc with
    | true => exact .inl hc
    | false =>
      rw [if_neg Bool.false_ne_true, List.mem_append, List.mem_singleton] at hc
      exact hc.imp_right fun h => ⟨rfl, h⟩
  constructor
  · cases connectSucc with
    | true => exact h.distinct
    | false =>
      change ((w.callbacks ++ [_]).map Callback.slot).Nodup
      rw [List.map_append, List.nodup_append]
      refine ⟨h.distinct, List.nodup_singleton _, fun o' ho' o'' ho'' heq => ?_⟩
      obtain ⟨c, hc, rfl⟩ := List.mem_map.mp ho'
      rw [List.mem_singleton.mp ho''] at heq
      change c.slot = o at heq
      cases horigin : c.origin with
      | manager => exact called_eq_false (hok rfl) hc horigin heq
      | connectCallback => exact (h.failed c hc horigin).2 (heq ▸ ho)
  · intro c hc horigin
    obtain hold | ⟨-, rfl⟩ := hmem c hc
    · exact h.handed c hold horigin
    · cases horigin
  · intro d hd
    obtain ⟨c, hc, hc'⟩ := h.called d hd
    refine ⟨c, ?_, hc'⟩
    dsimp only
    split
    · exact hc
    · exact List.mem_append_left _ hc
  · exact h.sends.erase o
  · exact fun o' ho' => h.past o' (List.mem_of_mem_erase ho')
  · intro c hc horigin
    obtain hold | ⟨-, rfl⟩ := hmem c hc
    · obtain ⟨hp, hnot'⟩ := h.failed c hold horigin
      exact ⟨hp, fun hc' => hnot' (List.mem_of_mem_erase hc')⟩
    · exact ⟨h.past o ho, hnot⟩

theorem Calls.setCallback (h : w.Calls) (hj : w.callbacks[j]? = some c) (phase : Phase)
    (executions : List (ExecutionContext R)) (replies : List (Reply R)) :
    { w with
      executions := executions
      callbacks := w.setCallback j c phase
      replies := replies }.Calls := by
  have hslots : (w.setCallback j c phase).map Callback.slot = w.callbacks.map Callback.slot :=
    map_set_eq hj rfl
  have hback : ∀ c' ∈ w.setCallback j c phase,
      ∃ c'' ∈ w.callbacks, c''.slot = c'.slot ∧ c''.origin = c'.origin := by
    intro c' hc'
    obtain hold | rfl := List.mem_or_eq_of_mem_set hc'
    · exact ⟨c', hold, rfl, rfl⟩
    · exact ⟨c, List.mem_of_getElem? hj, rfl, rfl⟩
  constructor
  · exact hslots ▸ h.distinct
  · intro c' hc' horigin
    obtain ⟨c'', hc'', hslot, horigin'⟩ := hback c' hc'
    rw [← hslot]
    exact h.handed c'' hc'' (horigin'.trans horigin)
  · intro d hd
    obtain ⟨c', hc', ho⟩ := h.called d hd
    have hmem : c'.slot ∈ (w.setCallback j c phase).map Callback.slot := by
      rw [hslots]
      exact List.mem_map_of_mem hc'
    obtain ⟨c'', hc'', hslot⟩ := List.mem_map.mp hmem
    exact ⟨c'', hc'', hslot ▸ ho⟩
  · exact h.sends
  · exact h.past
  · intro c' hc' horigin
    obtain ⟨c'', hc'', hslot, horigin'⟩ := hback c' hc'
    rw [← hslot]
    exact h.failed c'' hc'' (horigin'.trans horigin)

theorem sent_le_added (stage : Stage) : stage.sent ≤ stage.added := by
  cases stage with
  | looping i => exact le_rfl
  | adding i k => exact Nat.le_succ i
  | sending i => exact Nat.le_succ i

theorem Calls.server_lt (h : w.Calls) (hd : w.Dispatch) (hc : c ∈ w.callbacks) :
    ∃ x, w.handlers[c.slot.request]? = some x ∧ c.slot.server < x.remoteServers.length := by
  have hpast : Past w.handlers Stage.added c.slot := by
    cases horigin : c.origin with
    | manager =>
      obtain ⟨d, -, ho⟩ := h.handed c hc horigin
      exact hd.past _ (List.mem_of_getElem? ho)
    | connectCallback =>
      obtain ⟨x, hx, hlt⟩ := (h.failed c hc horigin).1
      exact ⟨x, hx, hlt.trans_le (sent_le_added x.stage)⟩
  obtain ⟨x, hx, hlt⟩ := hpast
  exact ⟨x, hx, hlt.trans_le (hd.bound _ x hx)⟩

theorem Calls.counted_subperm (h : w.Calls) (hd : w.Dispatch) (hr : w.handlers[r]? = some x) :
    ((w.callbacks.filter (Callback.counts r)).map fun c => c.slot.server).Subperm
      (List.range x.remoteServers.length) := by
  have hreq : ∀ c ∈ w.callbacks.filter (Callback.counts r), c.slot.request = r := by
    intro c hc
    have hcounts := (List.mem_filter.mp hc).2
    rw [Callback.counts, Bool.and_eq_true, decide_eq_true_eq] at hcounts
    exact hcounts.1
  have hslots : ((w.callbacks.filter (Callback.counts r)).map fun c => c.slot.server).map
      (Slot.mk r) = (w.callbacks.filter (Callback.counts r)).map Callback.slot := by
    rw [List.map_map]
    apply List.map_congr_left
    intro c hc
    rw [← hreq c hc]
    rfl
  have hnodup : ((w.callbacks.filter (Callback.counts r)).map fun c => c.slot.server).Nodup := by
    apply List.Nodup.of_map (Slot.mk r)
    rw [hslots]
    exact (h.distinct.sublist (List.filter_sublist.map Callback.slot))
  apply hnodup.subperm
  intro i hi
  obtain ⟨c, hc, rfl⟩ := List.mem_map.mp hi
  obtain ⟨y, hy, hlt⟩ := h.server_lt hd (List.mem_filter.mp hc).1
  rw [hreq c hc] at hy
  obtain rfl := Option.some.inj (hr.symm.trans hy)
  exact List.mem_range.mpr hlt

def counted (w : World R) (r : Nat) : Nat := w.callbacks.countP (Callback.counts r)

theorem Calls.counted_le (h : w.Calls) (hd : w.Dispatch) (hr : w.handlers[r]? = some x) :
    w.counted r ≤ x.remoteServers.length := by
  have hle := (h.counted_subperm hd hr).length_le
  rw [List.length_map, List.length_range, ← List.countP_eq_length_filter] at hle
  exact hle

theorem Calls.all_counted (h : w.Calls) (hd : w.Dispatch) (hr : w.handlers[r]? = some x)
    (hall : w.counted r = x.remoteServers.length) {i : Nat} (hi : i < x.remoteServers.length) :
    ∃ c ∈ w.callbacks, c.slot = ⟨r, i⟩ ∧ c.counts r = true := by
  have hperm := (h.counted_subperm hd hr).perm_of_length_le (by
    rw [List.length_range, List.length_map, ← List.countP_eq_length_filter, ← hall]
    exact le_rfl)
  have hmem := hperm.mem_iff.mpr (List.mem_range.mpr hi)
  obtain ⟨c, hc, rfl⟩ := List.mem_map.mp hmem
  obtain ⟨hmem, hcounts⟩ := List.mem_filter.mp hc
  refine ⟨c, hmem, ?_, hcounts⟩
  rw [Callback.counts, Bool.and_eq_true, decide_eq_true_eq] at hcounts
  rw [← hcounts.1]

def contacted (w : World R) (r : Nat) : Option Nat :=
  w.handlers[r]?.map fun x => x.remoteServers.length

/-- `m_unfinishedCount` is the number of servers that have not been counted, and the reply is
made when the last one is. -/
structure Tally (w : World R) : Prop where
  length : w.executions.length = w.handlers.length
  requests : ∀ reply ∈ w.replies, reply.request < w.handlers.length
  servers : ∀ r n, w.contacted r = some n → 0 < n ∧ n < 2 ^ 32
  unfinished : ∀ r n y, w.contacted r = some n → w.executions[r]? = some y →
    y.unfinishedCount = UInt32.ofNat (n - w.counted r)
  aggregated : ∀ r n, w.contacted r = some n →
    w.aggregations r = if w.counted r = n then 1 else 0

theorem contacted_setHandler (hr : w.handlers[r]? = some x) (stage : Stage) (r' : Nat) :
    (w.setHandler r x stage)[r']?.map (fun x => x.remoteServers.length) = w.contacted r' := by
  rw [getElem?_setHandler hr]
  split
  · rename_i heq
    rw [contacted, heq, hr]
    rfl
  · rfl

theorem Tally.mono {w' : World R} (h : w.Tally) (hlength : w'.handlers.length = w.handlers.length)
    (hcontacted : w'.contacted = w.contacted) (hexecutions : w'.executions = w.executions)
    (hreplies : w'.replies = w.replies) (hcounted : w'.counted = w.counted)
    (haggregates : ∀ r, w'.callbacks.countP (Callback.aggregates r) =
      w.callbacks.countP (Callback.aggregates r)) : w'.Tally where
  length := by
    rw [hexecutions, hlength]
    exact h.length
  requests reply hreply := by
    rw [hlength]
    exact h.requests reply (hreplies ▸ hreply)
  servers r n hn := h.servers r n (hcontacted ▸ hn)
  unfinished r n y hn hy := by
    rw [hcounted]
    exact h.unfinished r n y (hcontacted ▸ hn) (hexecutions ▸ hy)
  aggregated r n hn := by
    rw [hcounted, aggregations, hreplies, haggregates]
    exact h.aggregated r n (hcontacted ▸ hn)

theorem countP_append_deciding {q : Callback R → Bool} (hc : q c = false) :
    (w.callbacks ++ [c]).countP q = w.callbacks.countP q := by
  rw [List.countP_append, List.countP_singleton, hc]
  rfl

theorem Tally.manage (h : w.Tally) (hd : w.Dispatch) (e : ResourceManager.Event)
    (result : RemoteSearchResult R) : (w.manage e result).Tally := by
  obtain ⟨-, hcallbacks⟩ | ⟨d, o, -, -, -, -, hcallbacks⟩ := hd.manage_callbacks e result
  · refine h.mono rfl rfl rfl rfl ?_ ?_
    · funext r
      rw [counted, hcallbacks, counted]
    · intro r
      rw [hcallbacks]
  · refine h.mono rfl rfl rfl rfl ?_ ?_
    · funext r
      rw [counted, hcallbacks]
      exact countP_append_deciding (Bool.and_false _)
    · intro r
      rw [hcallbacks]
      exact countP_append_deciding (Bool.and_false _)

theorem Tally.advance (h : w.Tally) (hr : w.handlers[r]? = some x) :
    (w.advance searchTimeout r x).Tally := by
  have hstage : ∀ stage, (w.setHandler r x stage).length = w.handlers.length :=
    fun stage => List.length_set
  rw [World.advance]
  split
  · split
    · exact h.mono (hstage _) (funext (contacted_setHandler hr _)) rfl rfl rfl fun _ => rfl
    · exact h
  · exact h.mono (hstage _) (funext (contacted_setHandler hr _)) rfl rfl rfl fun _ => rfl
  · exact h.mono (hstage _) (funext (contacted_setHandler hr _)) rfl rfl rfl fun _ => rfl

theorem Tally.connectCallback (h : w.Tally) (o : Slot) (connectSucc : Bool) :
    { w with
      sends := w.sends.erase o
      callbacks := if connectSucc then w.callbacks
        else w.callbacks ++
          [(⟨o, .connectCallback, failedNetwork, .deciding⟩ : Callback R)] }.Tally := by
  cases connectSucc with
  | true => exact h.mono rfl rfl rfl rfl rfl fun _ => rfl
  | false =>
    refine h.mono rfl rfl rfl rfl ?_ ?_
    · funext r
      exact countP_append_deciding (Bool.and_false _)
    · intro r
      exact countP_append_deciding (Bool.and_false _)

theorem Dispatch.setCallbacks (h : w.Dispatch) (executions : List (ExecutionContext R))
    (callbacks : List (Callback R)) (replies : List (Reply R)) :
    { w with executions := executions, callbacks := callbacks, replies := replies }.Dispatch :=
  { h with }

theorem counts_phase (hr : c.slot.request ≠ r) (phase : Phase) :
    Callback.counts r { c with phase := phase } = c.counts r := by
  rw [Callback.counts, Callback.counts, decide_eq_false hr]
  rfl

theorem aggregates_phase (hr : c.slot.request ≠ r) (phase : Phase) :
    Callback.aggregates r { c with phase := phase } = c.aggregates r := by
  rw [Callback.aggregates, Callback.aggregates, decide_eq_false hr]
  rfl

theorem Tally.decide (h : w.Tally) (hj : w.callbacks[j]? = some c) (hphase : c.phase = .deciding)
    {y : ExecutionContext R} (hy : w.executions[c.slot.request]? = some y) :
    { w with
      executions := w.executions.set c.slot.request
        { y with results := y.results.set c.slot.server (some c.result) }
      callbacks := w.setCallback j c .counting }.Tally := by
  have hcounted : ∀ r, (w.setCallback j c .counting).countP (Callback.counts r) = w.counted r := by
    intro r
    apply countP_set_eq hj
    rw [Callback.counts, Callback.counts, hphase]
    rfl
  have haggregates : ∀ r, (w.setCallback j c .counting).countP (Callback.aggregates r) =
      w.callbacks.countP (Callback.aggregates r) := by
    intro r
    apply countP_set_eq hj
    rw [Callback.aggregates, Callback.aggregates, hphase]
    rfl
  constructor
  · exact List.length_set.trans h.length
  · exact h.requests
  · exact h.servers
  · intro r n y' hn hy'
    change _ = UInt32.ofNat (n - (w.setCallback j c .counting).countP _)
    rw [hcounted]
    dsimp only at hy'
    by_cases heq : c.slot.request = r
    · rw [← heq, List.getElem?_set_self (List.getElem?_eq_some_iff.mp hy).1] at hy'
      obtain rfl := Option.some.inj hy'
      exact h.unfinished r n y hn (heq ▸ hy)
    · rw [List.getElem?_set_ne heq] at hy'
      exact h.unfinished r n y' hn hy'
  · intro r n hn
    change _ + (w.setCallback j c .counting).countP _ =
      if (w.setCallback j c .counting).countP _ = n then 1 else 0
    rw [hcounted, haggregates]
    exact h.aggregated r n hn

theorem le_one_iff {n k : Nat} (hk : k < n) (hn : n < 2 ^ 32) :
    UInt32.ofNat (n - k) ≤ 1 ↔ k + 1 = n := by
  rw [UInt32.le_iff_toNat_le, UInt32.toNat_ofNat_of_lt' (by change _ < 2 ^ 32; omega)]
  change n - k ≤ 1 ↔ _
  omega

/-- The callback that counts down is counted from then on, whichever way it goes on. -/
theorem counted_count (hj : w.callbacks[j]? = some c) (hphase : c.phase = .counting) (p : Prop)
    [Decidable p] :
    (w.setCallback j c (if p then .aggregating else .returned)).countP
      (Callback.counts c.slot.request) = w.counted c.slot.request + 1 := by
  apply countP_set_succ hj
  · rw [Callback.counts, hphase]
    exact Bool.and_false _
  · rw [Callback.counts, decide_eq_true rfl]
    dsimp only
    split <;> rfl

theorem aggregates_count (hj : w.callbacks[j]? = some c) (hphase : c.phase = .counting) (p : Prop)
    [Decidable p] :
    (w.setCallback j c (if p then .aggregating else .returned)).countP
        (Callback.aggregates c.slot.request) =
      w.callbacks.countP (Callback.aggregates c.slot.request) + if p then 1 else 0 := by
  have hno : c.aggregates c.slot.request = false := by
    rw [Callback.aggregates, hphase]
    exact Bool.and_false _
  by_cases hp : p
  · rw [if_pos hp, if_pos hp, setCallback, countP_set_succ hj hno]
    rw [Callback.aggregates, decide_eq_true rfl]
    rfl
  · rw [if_neg hp, if_neg hp, setCallback, countP_set_eq hj, Nat.add_zero]
    rw [hno]
    exact Bool.and_false _

theorem Calls.counted_lt (hcalls : w.Calls) (hd : w.Dispatch) (hj : w.callbacks[j]? = some c)
    (hphase : c.phase = .counting) (hx : w.handlers[c.slot.request]? = some x) :
    w.counted c.slot.request < x.remoteServers.length := by
  have hle := (hcalls.setCallback hj .returned w.executions w.replies).counted_le
    (hd.setCallbacks w.executions (w.setCallback j c .returned) w.replies) hx
  rw [counted] at hle
  exact (counted_count hj hphase False).symm.trans_le hle

theorem Tally.count (h : w.Tally) (hcalls : w.Calls) (hd : w.Dispatch)
    (hj : w.callbacks[j]? = some c) (hphase : c.phase = .counting)
    {y : ExecutionContext R} (hy : w.executions[c.slot.request]? = some y) :
    { w with
      executions := w.executions.set c.slot.request
        { y with unfinishedCount := y.unfinishedCount - 1 }
      callbacks := w.setCallback j c
        (if y.unfinishedCount ≤ 1 then .aggregating else .returned) }.Tally := by
  obtain ⟨x, hx, -⟩ := hcalls.server_lt hd (List.mem_of_getElem? hj)
  have hn : w.contacted c.slot.request = some x.remoteServers.length := by
    rw [contacted, hx]
    rfl
  obtain ⟨hpos, hbound⟩ := h.servers _ _ hn
  have hunfinished := h.unfinished _ _ y hn hy
  have hself := counted_count hj hphase (y.unfinishedCount ≤ 1)
  -- it was not counted, so not all servers were
  have hlt := hcalls.counted_lt hd hj hphase hx
  have hlast := le_one_iff hlt hbound
  rw [← hunfinished] at hlast
  refine ⟨List.length_set.trans h.length, h.requests, h.servers, fun r n y' hn' hy' => ?_,
    fun r n hn' => ?_⟩
  · change _ = UInt32.ofNat (n - (w.setCallback j c _).countP _)
    dsimp only at hy'
    by_cases heq : c.slot.request = r
    · subst heq
      obtain rfl := Option.some.inj (hn.symm.trans hn')
      rw [List.getElem?_set_self (List.getElem?_eq_some_iff.mp hy).1] at hy'
      obtain rfl := Option.some.inj hy'
      rw [hself, Nat.sub_succ', UInt32.ofNat_sub (by omega), ← hunfinished]
      rfl
    · rw [List.getElem?_set_ne heq] at hy'
      have hother := countP_set_eq hj
        (counts_phase heq (if y.unfinishedCount ≤ 1 then .aggregating else .returned))
      rw [setCallback, hother]
      exact h.unfinished r n y' hn' hy'
  · change _ + (w.setCallback j c _).countP _ = if (w.setCallback j c _).countP _ = n then 1 else 0
    by_cases heq : c.slot.request = r
    · subst heq
      obtain rfl := Option.some.inj (hn.symm.trans hn')
      have hbefore := h.aggregated _ _ hn
      rw [if_neg hlt.ne, aggregations, Nat.add_eq_zero_iff] at hbefore
      rw [hself, aggregates_count hj hphase, hbefore.1, hbefore.2, Nat.zero_add, Nat.zero_add]
      exact if_congr hlast rfl rfl
    · have hcounts := countP_set_eq hj
        (counts_phase heq (if y.unfinishedCount ≤ 1 then .aggregating else .returned))
      have haggregates := countP_set_eq hj
        (aggregates_phase heq (if y.unfinishedCount ≤ 1 then .aggregating else .returned))
      rw [setCallback, hcounts, haggregates]
      exact h.aggregated r n hn'

theorem Tally.reply (h : w.Tally) (hj : w.callbacks[j]? = some c)
    (hphase : c.phase = .aggregating) (hr : c.slot.request < w.handlers.length) (results : List R) :
    { w with
      replies := w.replies ++ [(⟨c.slot.request, results⟩ : Reply R)]
      callbacks := w.setCallback j c .returned }.Tally := by
  have hcounted : ∀ r, (w.setCallback j c .returned).countP (Callback.counts r) = w.counted r := by
    intro r
    apply countP_set_eq hj
    rw [Callback.counts, Callback.counts, hphase]
    rfl
  constructor
  · exact h.length
  · intro reply hreply
    cases List.mem_append.mp hreply with
    | inl hold => exact h.requests reply hold
    | inr hnew =>
      obtain rfl := List.mem_singleton.mp hnew
      exact hr
  · exact h.servers
  · intro r n y hn hy
    change _ = UInt32.ofNat (n - (w.setCallback j c .returned).countP _)
    rw [hcounted]
    exact h.unfinished r n y hn hy
  · intro r n hn
    have hbefore := h.aggregated r n hn
    rw [aggregations] at hbefore
    change (w.replies ++ [_]).countP _ + (w.setCallback j c .returned).countP _ =
      if (w.setCallback j c .returned).countP _ = n then 1 else 0
    rw [hcounted, ← hbefore, List.countP_append, List.countP_singleton]
    by_cases heq : c.slot.request = r
    · have hyes : c.aggregates r = true := by
        rw [Callback.aggregates, heq, hphase, decide_eq_true rfl]
        rfl
      have hpred := countP_set_pred (p := Callback.aggregates r) hj hyes
        (show Callback.aggregates r { c with phase := .returned } = false from Bool.and_false _)
      rw [if_pos (decide_eq_true heq), ← hpred, Nat.add_assoc, Nat.add_comm 1]
      rfl
    · have hsame : (w.setCallback j c .returned).countP (Callback.aggregates r) =
          w.callbacks.countP (Callback.aggregates r) := countP_set_eq hj (aggregates_phase heq _)
      rw [if_neg (by rw [decide_eq_false heq]; exact Bool.false_ne_true), hsame]
      rfl

structure Inv (w : World R) : Prop where
  dispatch : w.Dispatch
  calls : w.Calls
  tally : w.Tally

theorem Inv.manage (h : w.Inv) (hlt : w.manager.adds.length < 2 ^ 32)
    {e : ResourceManager.Event} (he : e.isAdd = false) (he' : e.removes = false)
    (hok : w.NotFailed e) (result : RemoteSearchResult R) : (w.manage e result).Inv where
  dispatch := h.dispatch.manage hlt he he' _
  calls := h.calls.manage h.dispatch hok result
  tally := h.tally.manage h.dispatch e result

theorem Inv.callback (h : w.Inv) (hj : w.callbacks[j]? = some c) {y : ExecutionContext R}
    (hy : w.executions[c.slot.request]? = some y) : (w.callback j c y).Inv := by
  rw [World.callback]
  split
  · rename_i hphase
    exact ⟨h.dispatch.setCallbacks _ _ w.replies, h.calls.setCallback hj _ _ w.replies,
      h.tally.decide hj hphase hy⟩
  · rename_i hphase
    exact ⟨h.dispatch.setCallbacks _ _ w.replies, h.calls.setCallback hj _ _ w.replies,
      h.tally.count h.calls h.dispatch hj hphase hy⟩
  · rename_i hphase
    obtain ⟨x, hx, -⟩ := h.calls.server_lt h.dispatch (List.mem_of_getElem? hj)
    exact ⟨h.dispatch.setCallbacks w.executions _ _, h.calls.setCallback hj _ w.executions _,
      h.tally.reply hj hphase (List.getElem?_eq_some_iff.mp hx).1 _⟩
  · exact h

theorem Dispatch.search (h : w.Dispatch) (hstage : x.stage = .looping 0)
    (executions : List (ExecutionContext R)) :
    { w with handlers := w.handlers ++ [x], executions := executions }.Dispatch where
  ids := h.ids
  table := h.table
  kept := h.kept
  length := h.length
  distinct := h.distinct
  past o ho := (h.past o ho).append x
  asked r y hy i hi := by
    obtain hold | ⟨-, rfl⟩ := getElem?_concat hy
    · exact h.asked r y hold i hi
    · rw [hstage] at hi
      cases hi
  bound r y hy := by
    obtain hold | ⟨-, rfl⟩ := getElem?_concat hy
    · exact h.bound r y hold
    · rw [hstage]
      exact Nat.zero_le _
  stored k o hk := (h.stored k o hk).imp_right fun ⟨y, hy, hadding⟩ =>
    ⟨y, (List.getElem?_append_left (List.getElem?_eq_some_iff.mp hy).1).trans hy, hadding⟩

theorem Inv.search (h : w.Inv) (hstage : x.stage = .looping 0)
    (hpos : 0 < x.remoteServers.length) (hlt : x.remoteServers.length < 2 ^ 32) :
    { w with
      handlers := w.handlers ++ [x]
      executions := w.executions ++
        [(⟨List.replicate x.remoteServers.length none, UInt32.ofNat x.remoteServers.length⟩ :
          ExecutionContext R)] }.Inv := by
  refine ⟨h.dispatch.search hstage _,
    h.calls.mono rfl rfl (fun _ _ ho => ho) rfl fun _ ho => ho.append x, ?_⟩
  have hcontacted : ∀ r n, (w.handlers ++ [x])[r]?.map (fun x => x.remoteServers.length) = some n →
      w.contacted r = some n ∨ r = w.handlers.length ∧ n = x.remoteServers.length := by
    intro r n hn
    obtain ⟨y, hy, rfl⟩ := Option.map_eq_some_iff.mp hn
    refine (getElem?_concat hy).imp (fun hold => ?_) fun hnew => ⟨hnew.1, by rw [hnew.2]⟩
    rw [contacted, hold]
    rfl
  -- no callback has the number of the new request
  have hnone : ∀ c ∈ w.callbacks, c.slot.request ≠ w.handlers.length := by
    intro c hc heq
    obtain ⟨y, hy, -⟩ := h.calls.server_lt h.dispatch hc
    exact absurd (List.getElem?_eq_some_iff.mp hy).1 (by rw [heq]; exact Nat.lt_irrefl _)
  have hcounted : w.counted w.handlers.length = 0 := by
    refine List.countP_eq_zero.mpr fun c hc hcounts => hnone c hc ?_
    rw [Callback.counts, Bool.and_eq_true, decide_eq_true_eq] at hcounts
    exact hcounts.1
  have haggregations : w.aggregations w.handlers.length = 0 := by
    rw [aggregations, Nat.add_eq_zero_iff]
    constructor
    · refine List.countP_eq_zero.mpr fun reply hreply heq => ?_
      exact absurd (h.tally.requests reply hreply)
        (by rw [of_decide_eq_true heq]; exact Nat.lt_irrefl _)
    · refine List.countP_eq_zero.mpr fun c hc hagg => hnone c hc ?_
      rw [Callback.aggregates, Bool.and_eq_true, decide_eq_true_eq] at hagg
      exact hagg.1
  constructor
  · rw [List.length_append, List.length_append, h.tally.length]
    rfl
  · intro reply hreply
    rw [List.length_append]
    exact (h.tally.requests reply hreply).trans_le (Nat.le_add_right _ _)
  · intro r n hn
    obtain hold | ⟨rfl, rfl⟩ := hcontacted r n hn
    · exact h.tally.servers r n hold
    · exact ⟨hpos, hlt⟩
  · intro r n y hn hy
    change _ = UInt32.ofNat (n - w.counted r)
    obtain hold | ⟨rfl, rfl⟩ := hcontacted r n hn
    · apply h.tally.unfinished r n y hold
      obtain hy' | ⟨rfl, -⟩ := getElem?_concat hy
      · exact hy'
      · rw [h.tally.length, contacted, List.getElem?_eq_none le_rfl] at hold
        cases hold
    · obtain hy' | ⟨-, rfl⟩ := getElem?_concat hy
      · rw [← h.tally.length, List.getElem?_eq_none le_rfl] at hy'
        cases hy'
      · rw [hcounted]
        rfl
  · intro r n hn
    change w.aggregations r = if w.counted r = n then 1 else 0
    obtain hold | ⟨rfl, rfl⟩ := hcontacted r n hn
    · exact h.tally.aggregated r n hold
    · rw [haggregations, hcounted, if_neg hpos.ne]

theorem Inv.step (h : w.Inv) (hok : w.Orderly e) : (w.step searchTimeout e).Inv := by
  obtain ⟨hlt, hok⟩ := hok
  cases e with
  | search servers => exact h.search (x := ⟨connectedServers servers, .looping 0⟩) rfl hok.1 hok.2
  | advance r =>
    rw [World.step]
    split
    · exact h
    · rename_i x hr
      exact ⟨h.dispatch.advance hlt hr, h.calls.advance hr, h.tally.advance hr⟩
  | connectCallback o connectSucc =>
    rw [World.step]
    split
    · rename_i ho
      refine ⟨{ h.dispatch with }, h.calls.connectCallback ho ?_,
        h.tally.connectCallback o connectSucc⟩
      rintro rfl
      exact hok
    · exact h
  | response rid body => exact h.manage hlt rfl rfl hok _
  | checkTimeout => exact h.manage hlt rfl rfl hok _
  | tick => exact h.manage hlt rfl rfl (fun _ _ _ hlookup => by cases hlookup) _
  | callback j =>
    rw [World.step]
    split
    · exact h
    · rename_i c hj
      split
      · exact h
      · rename_i y hy
        exact h.callback hj hy

theorem Calls.decisions_le_one (h : w.Calls) (o : Slot) : w.decisions o ≤ 1 := by
  have hle : w.decisions o ≤ w.callbacks.countP (·.slot = o) := by
    apply List.countP_mono_left
    intro c _ hc
    rw [Callback.decides, Bool.and_eq_true] at hc
    exact hc.1
  have hcount : w.callbacks.countP (·.slot = o) = (w.callbacks.map Callback.slot).count o := by
    rw [List.count, List.countP_map]
    apply List.countP_congr
    intro c _
    simp
  rw [hcount] at hle
  exact hle.trans (List.nodup_iff_count_le_one.mp h.distinct o)

theorem Inv.counted_of_over (h : w.Inv) (hr : w.handlers[r]? = some x) (hover : w.Over r x) :
    w.counted r = x.remoteServers.length := by
  apply Nat.le_antisymm (h.calls.counted_le h.dispatch hr)
  have hsub : List.range x.remoteServers.length ⊆
      (w.callbacks.filter (Callback.counts r)).map fun c => c.slot.server := by
    intro i hi
    have hi := List.mem_range.mp hi
    have hmem := h.dispatch.asked r x hr i (by rw [hover.handler]; exact hi)
    obtain ⟨k, hk⟩ := List.mem_iff_getElem?.mp hmem
    obtain ⟨rid, hst⟩ | ⟨y, hy, hadding⟩ := h.dispatch.stored k _ hk
    · obtain hentry | hdel := h.dispatch.kept k rid hst
      · exact absurd rfl (hover.manager rid k hentry _ hk)
      · obtain ⟨d, hd, rfl⟩ := List.mem_map.mp hdel
        obtain ⟨c, hc, hslot⟩ := h.calls.called d hd
        have hslot := Option.some.inj (hk.symm.trans hslot)
        have hphase := hover.callbacks c hc (by rw [← hslot])
        refine List.mem_map.mpr ⟨c, List.mem_filter.mpr ⟨hc, ?_⟩, by rw [← hslot]⟩
        rw [Callback.counts, ← hslot, hphase, decide_eq_true rfl]
        rfl
    · obtain rfl := Option.some.inj (hr.symm.trans hy)
      rw [hover.handler] at hadding
      cases hadding
  have hle := (List.nodup_range.subperm hsub).length_le
  rw [List.length_range, List.length_map, ← List.countP_eq_length_filter] at hle
  exact hle

theorem Inv.answered (h : w.Inv) : w.Answered := by
  intro r x hr
  have hn : w.contacted r = some x.remoteServers.length := by
    rw [contacted, hr]
    rfl
  have hagg := h.tally.aggregated r _ hn
  refine ⟨?_, fun hone i hi => ?_, fun hover => ?_⟩
  · rw [hagg]
    split
    · exact le_rfl
    · exact Nat.zero_le 1
  · have hall : w.counted r = x.remoteServers.length := by
      apply Decidable.byContradiction
      intro hne
      rw [hagg, if_neg hne] at hone
      cases hone
    obtain ⟨c, hc, hslot, hcounts⟩ := h.calls.all_counted h.dispatch hr hall hi
    apply Nat.le_antisymm (h.calls.decisions_le_one _)
    refine List.countP_pos_iff.mpr ⟨c, hc, ?_⟩
    rw [Callback.decides, hslot, decide_eq_true rfl, Bool.true_and, decide_eq_true_eq]
    intro hphase
    rw [Callback.counts, hphase] at hcounts
    rw [show (Phase.deciding = .aggregating || Phase.deciding = .returned) = false from rfl,
      Bool.and_false] at hcounts
    cases hcounts
  · rw [if_pos (h.counted_of_over hr hover), aggregations] at hagg
    have hzero : w.callbacks.countP (Callback.aggregates r) = 0 := by
      refine List.countP_eq_zero.mpr fun c hc hcagg => ?_
      rw [Callback.aggregates, Bool.and_eq_true, decide_eq_true_eq, decide_eq_true_eq] at hcagg
      have hphase := hover.callbacks c hc hcagg.1
      rw [hcagg.2] at hphase
      cases hphase
    rw [hzero] at hagg
    exact hagg

theorem replies_prefix (searchTimeout : Nat) (w : World R) (e : Event R) :
    w.replies <+: (w.step searchTimeout e).replies := by
  cases e with
  | advance r =>
    rw [step]
    split
    · exact List.prefix_rfl
    · rw [World.advance]
      split
      · split <;> exact List.prefix_rfl
      · exact List.prefix_rfl
      · exact List.prefix_rfl
  | connectCallback o connectSucc =>
    rw [step]
    split <;> exact List.prefix_rfl
  | callback j =>
    rw [step]
    split
    · exact List.prefix_rfl
    · split
      · exact List.prefix_rfl
      · rw [World.callback]
        split
        · exact List.prefix_rfl
        · exact List.prefix_rfl
        · exact List.prefix_append _ _
        · exact List.prefix_rfl
  | _ => exact List.prefix_rfl

theorem Inv.replies_le_one (h : w.Inv) (r : Nat) :
    (w.replies.filter (·.request = r)).length ≤ 1 := by
  rw [← List.countP_eq_length_filter]
  cases hr : w.handlers[r]? with
  | some x => exact (Nat.le_add_right _ _).trans (h.answered r x hr).1
  | none =>
    refine (Nat.le_zero.mpr ?_).trans (Nat.zero_le 1)
    refine List.countP_eq_zero.mpr fun reply hreply heq => ?_
    have hlt := h.tally.requests reply hreply
    rw [of_decide_eq_true heq] at hlt
    exact absurd hlt (Nat.not_lt.mpr (List.getElem?_eq_none_iff.mp hr))

end World

theorem start_inv : (start : World R).Inv where
  dispatch :=
    { ids := ResourceManager.World.start_ids
      table := ResourceManager.World.start_table
      kept := fun k rid hst => by
        obtain ⟨a, ha, -⟩ := hst
        cases ha
      length := rfl
      distinct := List.nodup_nil
      past := nofun
      asked := nofun
      bound := nofun
      stored := nofun }
  calls := ⟨List.nodup_nil, nofun, nofun, List.nodup_nil, nofun, nofun⟩
  tally := ⟨rfl, nofun, nofun, nofun, nofun⟩

/-- In a run in which every request goes to some server, and no packet fails to be sent whose
server answers or times out, each request is answered once, and nothing changes its reply. -/
theorem answered_of_orderly {searchTimeout : Nat} {es : List (Event R)}
    (hes : Along (World.step searchTimeout) World.Orderly start es) :
    Throughout (World.step searchTimeout) World.Answered start es ∧
      ∀ before after reply, es = before ++ after →
        reply ∈ (run (World.step searchTimeout) start before).replies →
        (run (World.step searchTimeout) start es).replies.filter (·.request = reply.request) =
          [reply] := by
  have hinv : Throughout (World.step searchTimeout) World.Inv start es :=
    hes.throughout (fun _ _ hok h => h.step hok) start_inv
  refine ⟨hinv.mono fun _ h => h.answered, ?_⟩
  rintro before after reply rfl hreply
  have hle := hinv.last.replies_le_one reply.request
  rw [run_append] at hle ⊢
  have hextends : (run (World.step searchTimeout) start before).replies <+:
      (run (World.step searchTimeout) (run (World.step searchTimeout) start before)
        after).replies :=
    run_keeps (P := fun v => (run (World.step searchTimeout) start before).replies <+: v.replies)
      (fun v e h => h.trans (World.replies_prefix searchTimeout v e)) after List.prefix_rfl
  have hmem : reply ∈ (run (World.step searchTimeout)
      (run (World.step searchTimeout) start before) after).replies.filter
      (·.request = reply.request) :=
    List.mem_filter.mpr ⟨hextends.subset hreply, decide_eq_true rfl⟩
  obtain ⟨reply', hone⟩ := List.length_eq_one_iff.mp
    (Nat.le_antisymm hle (List.length_pos_of_mem hmem))
  rw [hone] at hmem ⊢
  rw [List.mem_singleton.mp hmem]

def server (cid : ConnectionID) : RemoteMachine := ⟨"host", "8000", cid, .connected⟩

theorem answered_of_orderly_one :
    Throughout (World.step 100) World.Answered (start : World Nat) [.search [server 1],
      .advance 0, .advance 0, .advance 0, .advance 0, .advance 0, .advance 0, .advance 0,
      .connectCallback ⟨0, 0⟩ true, .response 1 (some ⟨.success, [7]⟩),
      .callback 0, .callback 0, .callback 0] := by
  refine (answered_of_orderly ?_).1
  exact ⟨⟨by decide, by decide⟩, ⟨by decide, trivial⟩, ⟨by decide, trivial⟩,
    ⟨by decide, trivial⟩, ⟨by decide, trivial⟩, ⟨by decide, trivial⟩, ⟨by decide, trivial⟩,
    ⟨by decide, trivial⟩, ⟨by decide, trivial⟩, ⟨by decide, fun _ _ _ _ _ _ => rfl⟩,
    ⟨by decide, trivial⟩, ⟨by decide, trivial⟩, ⟨by decide, trivial⟩, trivial⟩

/-- The packet for the first of two servers cannot be sent, and both callbacks time out. -/
def failedThenTimedOut : List (Event Nat) :=
  .search [server 1, server 2] :: (List.replicate 14 (Event.advance 0) ++
    ([Event.connectCallback ⟨0, 0⟩ false, .callback 0, .callback 0, .tick] ++
      (List.replicate 6 Event.checkTimeout ++ (List.replicate 3 (Event.callback 1) ++
        (Event.checkTimeout :: List.replicate 3 (Event.callback 2))))))

/-- A request without servers gets no reply. One for two servers gets two: the first is made
when the callback of the first server is called again. -/
theorem answers_none_or_twice :
    (¬ Throughout (World.step 1) World.Answered (start : World Nat) [.search []]) ∧
      ¬ Throughout (World.step 1) World.Answered start failedThenTimedOut := by
  constructor
  · intro h
    have hreply := (h.last 0 ⟨[], .looping 0⟩ rfl).2.2 ⟨rfl, nofun, nofun⟩
    exact absurd hreply (by decide)
  · intro h
    have hle := (h.last 0 ⟨[1, 2], .looping 2⟩ (by decide +kernel)).1
    revert hle
    decide +kernel

end AggregatorService

end Sptag.Aggregator
