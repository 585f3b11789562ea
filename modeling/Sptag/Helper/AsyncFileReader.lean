import Sptag.Lib.CompletionQueue
import Sptag.Lib.Run

/-! `BatchReadFile` and `BatchWriteFile` of `AsyncFileIO`, one after the other on one channel of
`m_iocps`, with every system call as a step that the kernel answers. -/

namespace Sptag.Helper.AsyncFileIO

open Lib

inductive Op
  | read
  | write
  deriving DecidableEq

abbrev Token := Nat × Nat

def Op.items : Op → List Nat → List Nat
  | .read, sizes => (sizes.zipIdx.filter fun r => 0 < r.1).map Prod.snd
  | .write, sizes => sizes.zipIdx.map Prod.snd

structure Call where
  id : Nat
  op : Op
  sizes : List Nat
  batchSize : Nat
  currSubIoStartId : Nat
  totalSubmitted : Nat
  totalDone : Nat
  batchTotalDone : Nat
  deriving DecidableEq

def Call.items (c : Call) : List Nat := c.op.items c.sizes

def Call.iocbs (c : Call) : List Nat := (c.items.drop c.currSubIoStartId).take c.batchSize

def Call.wait (c : Call) : Nat := c.totalSubmitted - c.totalDone

/-- Where the thread of the channel is: between two calls, at a system call, or in the loop over
batches of size 0, which has no end. -/
inductive Stage
  | idle
  | submitting (c : Call)
  | waiting (c : Call)
  | looping

structure Return where
  id : Nat
  op : Op
  sizes : List Nat
  count : Nat

structure Channel where
  calls : Nat
  queue : CompletionQueue Token Int
  stage : Stage
  returns : List Return

/-- A call begins, the kernel ends a request, or it answers a system call; `none` is an error of
`io_getevents`. -/
inductive Event
  | begin (op : Op) (m_status : Int) (sizes : List Nat) (batchSize : Int)
  | complete (i : Nat) (res : Int)
  | submit (s : Int)
  | getevents (picks : Option (List Nat))

def batchReadFile (m_status : Int) (sizes : List Nat) (batchSize : Int) : Event :=
  .begin .read m_status sizes batchSize

def batchWriteFile (m_status : Int) (sizes : List Nat) (batchSize : Int) : Event :=
  .begin .write m_status sizes batchSize

namespace Channel

def start : Channel := ⟨0, .empty, .idle, []⟩

def giveBack (ch : Channel) (c : Call) (count : Nat) : Channel :=
  { ch with stage := .idle, returns := ch.returns ++ [⟨c.id, c.op, c.sizes, count⟩] }

def nextBatch (ch : Channel) (c : Call) : Channel :=
  if c.currSubIoStartId < c.items.length then
    if c.batchSize = 0 then { ch with stage := .looping }
    else { ch with stage := .submitting { c with totalSubmitted := 0, totalDone := 0 } }
  else ch.giveBack c c.batchTotalDone

def nextWait (ch : Channel) (c : Call) : Channel :=
  if c.totalDone < c.iocbs.length then
    if c.totalSubmitted < c.iocbs.length then { ch with stage := .submitting c }
    else { ch with stage := .waiting c }
  else
    ch.nextBatch { c with
      batchTotalDone := c.batchTotalDone + c.totalDone
      currSubIoStartId := c.currSubIoStartId + c.batchSize }

def begin (ch : Channel) (op : Op) (m_status : Int) (sizes : List Nat) (batchSize : Int) :
    Channel :=
  let batchSize :=
    if batchSize < 0 ∨ sizes.length < batchSize then sizes.length else batchSize.toNat
  let c : Call := ⟨ch.calls, op, sizes, batchSize, 0, 0, 0, 0⟩
  let ch := { ch with calls := ch.calls + 1 }
  if sizes.length = 0 then ch.giveBack c 0
  else if m_status < 0 then ch.giveBack c 0
  else ch.nextBatch c

def submit (ch : Channel) (c : Call) (s : Int) : Channel :=
  if 0 < s then
    let taken := (c.iocbs.drop c.totalSubmitted).take s.toNat
    { ch with
      queue := ch.queue.submit (taken.map (c.id, ·))
      stage := .waiting { c with totalSubmitted := c.totalSubmitted + taken.length } }
  else ch.giveBack c c.batchTotalDone

def getevents (ch : Channel) (c : Call) (picks : List Nat) : Channel :=
  let (events, queue) := ch.queue.reap (picks.take c.wait)
  { ch with queue := queue }.nextWait { c with totalDone := c.totalDone + events.length }

def step (ch : Channel) : Event → Channel
  | .begin op m_status sizes batchSize =>
    match ch.stage with
    | .idle => ch.begin op m_status sizes batchSize
    | _ => ch
  | .complete i res => { ch with queue := ch.queue.complete i res }
  | .submit s =>
    match ch.stage with
    | .submitting c => ch.submit c s
    | _ => ch
  | .getevents picks =>
    match ch.stage, picks with
    | .waiting c, some picks => ch.getevents c picks
    | .waiting c, none => ch.giveBack c c.batchTotalDone
    | _, _ => ch

end Channel

def nonEmpty (sizes : List Nat) : Nat := sizes.countP (0 < ·)

/-- What `ReadBlocks` and `WriteBlocks` ask for: the pages that they have filled in, and all of
`p_size`. -/
def Op.wanted : Op → List Nat → Nat
  | .read, sizes => nonEmpty sizes
  | .write, sizes => sizes.length

def Return.succeeds (r : Return) : Bool := ¬ r.count < r.op.wanted r.sizes

def Transferred (ch : Channel) (id : Nat) (sizes : List Nat) (i : Nat) : Prop :=
  ∃ res, ((id, i), res) ∈ ch.queue.history ∧ (sizes.getD i 0 : Int) ≤ res

/-- With the count of the non-empty requests all of them are transferred, and with another one
the caller fails. -/
def Trusted (ch : Channel) (r : Return) : Prop :=
  (r.count = nonEmpty r.sizes →
    ∀ i, 0 < r.sizes.getD i 0 → Transferred ch r.id r.sizes i) ∧
  (r.count ≠ nonEmpty r.sizes → r.succeeds = false)

def Trustworthy (ch : Channel) : Prop := ∀ r ∈ ch.returns, Trusted ch r

/-- Only non-empty requests are written, and the completions that a call is handed are of its own
requests, with all of their bytes. -/
def Clean (ch : Channel) : Event → Prop
  | .begin op _ sizes _ => op = .write → ∀ size ∈ sizes, 0 < size
  | .getevents (some picks) => ∀ c, ch.stage = .waiting c →
    ∀ e ∈ (ch.queue.reap (picks.take c.wait)).1, e.1.1 = c.id ∧ (c.sizes.getD e.1.2 0 : Int) ≤ e.2
  | _ => True

variable {ch : Channel} {c : Call} {op : Op} {sizes : List Nat} {i id : Nat}

@[simp] theorem length_items_read (sizes : List Nat) : (Op.read.items sizes).length =
  nonEmpty sizes := by
  rw [Op.items, List.length_map, ← List.countP_eq_length_filter, nonEmpty]
  have hmap := List.countP_map (p := fun size => decide (0 < size)) (f := Prod.fst)
    (l := sizes.zipIdx)
  rw [List.zipIdx_map_fst] at hmap
  exact hmap.symm

@[simp] theorem length_items_write (sizes : List Nat) : (Op.write.items sizes).length =
  sizes.length := by
  rw [Op.items, List.length_map, List.length_zipIdx]

theorem length_items (hfull : op = .write → ∀ size ∈ sizes, 0 < size) :
    (op.items sizes).length = nonEmpty sizes ∧ op.wanted sizes = nonEmpty sizes := by
  cases op with
  | read => exact ⟨length_items_read sizes, rfl⟩
  | write =>
    have hall : nonEmpty sizes = sizes.length :=
      List.countP_eq_length.mpr fun size hsize => decide_eq_true (hfull rfl size hsize)
    exact ⟨(length_items_write sizes).trans hall.symm, hall.symm⟩

theorem mem_items (h : 0 < sizes.getD i 0) : i ∈ op.items sizes := by
  have hi : i < sizes.length := by
    apply Nat.lt_of_not_le
    intro hle
    rw [List.getD_eq_default sizes 0 hle] at h
    exact Nat.lt_irrefl 0 h
  have hmem : (sizes.getD i 0, i) ∈ sizes.zipIdx := by
    rw [List.mk_mem_zipIdx_iff_getElem?, List.getD_eq_getElem sizes 0 hi]
    exact List.getElem?_eq_getElem hi
  cases op with
  | read => exact List.mem_map.mpr ⟨_, List.mem_filter.mpr ⟨hmem, decide_eq_true h⟩, rfl⟩
  | write => exact List.mem_map.mpr ⟨_, hmem, rfl⟩

def own (ch : Channel) (id : Nat) : List Nat :=
  (ch.queue.outstanding.filter fun t => t.1 = id).map Prod.snd

structure Base (ch : Channel) : Prop where
  recorded : ch.queue.Recorded
  fresh : ∀ t ∈ ch.queue.outstanding, t.1 < ch.calls
  trusted : Trustworthy ch

structure Ready (ch : Channel) (c : Call) : Prop where
  id : c.id + 1 = ch.calls
  full : c.op = .write → ∀ size ∈ c.sizes, 0 < size
  count : c.batchTotalDone = min c.currSubIoStartId c.items.length
  finished : ∀ i ∈ c.items.take c.currSubIoStartId, Transferred ch c.id c.sizes i
  left : own ch c.id = []

structure Busy (ch : Channel) (c : Call) (seen : List Nat) : Prop where
  id : c.id + 1 = ch.calls
  full : c.op = .write → ∀ size ∈ c.sizes, 0 < size
  count : c.batchTotalDone = c.currSubIoStartId
  more : c.currSubIoStartId < c.items.length
  finished : ∀ i ∈ c.items.take c.currSubIoStartId, Transferred ch c.id c.sizes i
  done : seen.length = c.totalDone
  handed : ∀ i ∈ seen, Transferred ch c.id c.sizes i
  left : (own ch c.id ++ seen).Perm (c.iocbs.take c.totalSubmitted)

def Stage.call? : Stage → Option Call
  | .submitting c => some c
  | .waiting c => some c
  | _ => none

def Inv (ch : Channel) : Prop :=
  Base ch ∧ ∀ c, ch.stage.call? = some c → ∃ seen, Busy ch c seen

theorem Transferred.mono {ch' : Channel} (h : Transferred ch id sizes i)
    (hhistory : ∀ e ∈ ch.queue.history, e ∈ ch'.queue.history) : Transferred ch' id sizes i := by
  have ⟨res, hmem, hle⟩ := h
  exact ⟨res, hhistory _ hmem, hle⟩

theorem Trustworthy.mono {ch' : Channel} (h : Trustworthy ch)
    (hhistory : ∀ e ∈ ch.queue.history, e ∈ ch'.queue.history)
    (hreturns : ch'.returns = ch.returns) : Trustworthy ch' := by
  intro r hr
  have ⟨hall, hfails⟩ := h r (hreturns ▸ hr)
  exact ⟨fun hcount i hi => (hall hcount i hi).mono hhistory, hfails⟩

theorem Base.giveBack (h : Base ch) {count : Nat}
    (htrusted : Trusted ch ⟨c.id, c.op, c.sizes, count⟩) : Inv (ch.giveBack c count) := by
  refine ⟨⟨h.recorded, h.fresh, fun r hr => ?_⟩, fun c hc => ?_⟩
  · cases List.mem_append.mp hr with
    | inl hr => exact h.trusted r hr
    | inr hr => exact List.mem_singleton.mp hr ▸ htrusted
  · cases hc

theorem trusted_of_lt (hfull : op = .write → ∀ size ∈ sizes, 0 < size) {count : Nat}
    (hlt : count < (op.items sizes).length) : Trusted ch ⟨id, op, sizes, count⟩ := by
  have ⟨hitems, hwanted⟩ := length_items hfull
  rw [hitems] at hlt
  refine ⟨fun hcount => absurd hcount (Nat.ne_of_lt hlt), fun _ => ?_⟩
  simp [Return.succeeds, hwanted, hlt]

theorem trusted_zero (hfull : op = .write → ∀ size ∈ sizes, 0 < size) :
    Trusted ch ⟨id, op, sizes, 0⟩ := by
  cases hitems : op.items sizes with
  | nil =>
    have hcount : 0 = nonEmpty sizes := by rw [← (length_items hfull).1, hitems]; rfl
    refine ⟨fun _ i hi => ?_, fun hne => absurd hcount hne⟩
    have hmem : i ∈ op.items sizes := mem_items hi
    rw [hitems] at hmem
    cases hmem
  | cons i items => exact trusted_of_lt hfull (hitems ▸ Nat.zero_lt_succ _)

theorem Busy.giveUp {seen : List Nat} (hbase : Base ch) (h : Busy ch c seen) :
    Inv (ch.giveBack c c.batchTotalDone) :=
  hbase.giveBack (trusted_of_lt h.full (h.count ▸ h.more))

theorem Ready.nextBatch (hbase : Base ch) (h : Ready ch c) : Inv (ch.nextBatch c) := by
  rw [Channel.nextBatch]
  split
  next hmore =>
    split
    · refine ⟨⟨hbase.recorded, hbase.fresh, hbase.trusted⟩, fun c hc => ?_⟩
      cases hc
    · refine ⟨⟨hbase.recorded, hbase.fresh, hbase.trusted⟩, fun c' hc => ?_⟩
      cases hc
      refine ⟨[], h.id, h.full, ?_, hmore, h.finished, rfl,
        fun i hi => absurd hi List.not_mem_nil, ?_⟩
      · exact h.count.trans (Nat.min_eq_left (Nat.le_of_lt hmore))
      · rw [List.append_nil]
        exact List.Perm.of_eq h.left
  next hlast =>
    have hle : c.items.length ≤ c.currSubIoStartId := Nat.le_of_not_lt hlast
    have hcount : c.batchTotalDone = nonEmpty c.sizes :=
      (h.count.trans (Nat.min_eq_right hle)).trans (length_items h.full).1
    refine hbase.giveBack ⟨fun _ i hi => ?_, fun hne => absurd hcount hne⟩
    apply h.finished
    rw [List.take_of_length_le hle]
    exact mem_items hi

theorem Busy.lengths {seen : List Nat} (h : Busy ch c seen) :
    (own ch c.id).length + c.totalDone = min c.totalSubmitted c.iocbs.length := by
  rw [← h.done, ← List.length_append, h.left.length_eq, List.length_take]

theorem Busy.ready {seen : List Nat} (h : Busy ch c seen) (hall : c.iocbs.length ≤ c.totalDone) :
    Ready ch { c with
      batchTotalDone := c.batchTotalDone + c.totalDone
      currSubIoStartId := c.currSubIoStartId + c.batchSize } := by
  have hlengths := h.lengths
  have hle : c.iocbs.length ≤ c.totalSubmitted := by omega
  have hdone : c.totalDone = c.iocbs.length := by omega
  have hown : own ch c.id = [] := List.eq_nil_of_length_eq_zero (by omega)
  have hseen := h.left
  rw [hown, List.nil_append, List.take_of_length_le hle] at hseen
  refine ⟨h.id, h.full, ?_, ?_, hown⟩
  · change c.batchTotalDone + c.totalDone = min (c.currSubIoStartId + c.batchSize) c.items.length
    have hmore := h.more
    rw [h.count, hdone, Call.iocbs, List.length_take, List.length_drop]
    omega
  · intro i hi
    change i ∈ c.items.take (c.currSubIoStartId + c.batchSize) at hi
    rw [List.take_add] at hi
    cases List.mem_append.mp hi with
    | inl hi => exact h.finished i hi
    | inr hi => exact h.handed i (hseen.mem_iff.mpr hi)

theorem Busy.nextWait {seen : List Nat} (hbase : Base ch) (h : Busy ch c seen) :
    Inv (ch.nextWait c) := by
  rw [Channel.nextWait]
  split
  next =>
    have hbase' : ∀ stage, Base { ch with stage := stage } :=
      fun stage => ⟨hbase.recorded, hbase.fresh, hbase.trusted⟩
    split
    · refine ⟨hbase' _, fun c' hc => ?_⟩
      cases hc
      exact ⟨seen, h.id, h.full, h.count, h.more, h.finished, h.done, h.handed, h.left⟩
    · refine ⟨hbase' _, fun c' hc => ?_⟩
      cases hc
      exact ⟨seen, h.id, h.full, h.count, h.more, h.finished, h.done, h.handed, h.left⟩
  next hall => exact (h.ready (Nat.le_of_not_lt hall)).nextBatch hbase

theorem own_perm (ch ch' : Channel) {ts : List Token}
    (h : ch'.queue.outstanding.Perm (ch.queue.outstanding ++ ts)) (id : Nat) :
    (own ch' id).Perm (own ch id ++ (ts.filter fun t => t.1 = id).map Prod.snd) := by
  have hfilter := (h.filter fun t => t.1 = id).map Prod.snd
  rwa [List.filter_append, List.map_append] at hfilter

theorem own_tokens (id : Nat) (is : List Nat) :
    ((is.map (id, ·)).filter fun t => t.1 = id).map Prod.snd = is := by
  induction is with
  | nil => rfl
  | cons i is ih => simpa using ih

theorem Busy.submit {seen : List Nat} (hbase : Base ch) (h : Busy ch c seen) (s : Int) :
    Inv (ch.submit c s) := by
  rw [Channel.submit]
  split
  next hs =>
    have hperm := CompletionQueue.outstanding_submit ch.queue
      (((c.iocbs.drop c.totalSubmitted).take s.toNat).map (c.id, ·))
    refine ⟨⟨hbase.recorded, fun t ht => ?_, hbase.trusted⟩, fun c' hc => ?_⟩
    · cases List.mem_append.mp (hperm.mem_iff.mp ht) with
      | inl ht => exact hbase.fresh t ht
      | inr ht =>
        have ⟨j, _, hj⟩ := List.mem_map.mp ht
        rw [← hj, ← h.id]
        exact Nat.lt_succ_self _
    · cases hc
      refine ⟨seen, h.id, h.full, h.count, h.more, h.finished, h.done, h.handed, ?_⟩
      have hown := own_perm ch { ch with queue := ch.queue.submit _ } hperm c.id
      rw [own_tokens] at hown
      have htake : ∀ k, c.iocbs.take (c.totalSubmitted + ((c.iocbs.drop c.totalSubmitted).take
          k).length) = c.iocbs.take c.totalSubmitted ++ (c.iocbs.drop c.totalSubmitted).take k := by
        intro k
        rw [List.take_add, List.length_take, ← List.take_take, List.take_length]
      change (own { ch with queue := _ } c.id ++ seen).Perm (c.iocbs.take _)
      rw [htake]
      refine (hown.append_right seen).trans ?_
      rw [List.append_assoc]
      refine (List.perm_append_comm.append_left _).trans ?_
      rw [← List.append_assoc]
      exact h.left.append_right _
  next => exact h.giveUp hbase

theorem Busy.getevents {seen picks : List Nat} (hbase : Base ch) (h : Busy ch c seen)
    (hclean : ∀ e ∈ (ch.queue.reap (picks.take c.wait)).1,
      e.1.1 = c.id ∧ (c.sizes.getD e.1.2 0 : Int) ≤ e.2) :
    Inv (ch.getevents c picks) := by
  have hreap := CompletionQueue.outstanding_reap ch.queue (picks.take c.wait)
  have hhistory := CompletionQueue.reap_history ch.queue (picks.take c.wait)
  have ⟨hhappened, hrecorded⟩ := hbase.recorded.reap (picks.take c.wait)
  rw [Channel.getevents]
  generalize ch.queue.reap (picks.take c.wait) = r at *
  have ⟨events, queue⟩ := r
  have hkept : ∀ e ∈ ch.queue.history, e ∈ queue.history := fun e he => hhistory.symm ▸ he
  have htokens : (events.map Prod.fst).filter (fun t => t.1 = c.id) = events.map Prod.fst := by
    apply List.filter_eq_self.mpr
    intro t ht
    have ⟨e, he, heq⟩ := List.mem_map.mp ht
    exact decide_eq_true (heq ▸ (hclean e he).1)
  have hown := own_perm { ch with queue := queue } ch
    (hreap.symm.trans List.perm_append_comm) c.id
  rw [htokens, List.map_map] at hown
  have hbase' : Base { ch with queue := queue } :=
    ⟨hrecorded, fun t ht => hbase.fresh t (hreap.mem_iff.mp (List.mem_append_right _ ht)),
      hbase.trusted.mono hkept rfl⟩
  suffices hbusy : Busy _ _ (events.map (Prod.snd ∘ Prod.fst) ++ seen) from hbusy.nextWait hbase'
  refine ⟨h.id, h.full, h.count, h.more, fun i hi => (h.finished i hi).mono hkept, ?_,
    fun i hi => ?_, ?_⟩
  · rw [List.length_append, List.length_map, h.done]
    exact Nat.add_comm _ _
  · cases List.mem_append.mp hi with
    | inl hi =>
      have ⟨e, he, heq⟩ := List.mem_map.mp hi
      have ⟨hid, hle⟩ := hclean e he
      refine ⟨e.2, ?_, ?_⟩
      · rw [← heq, ← hid]
        exact hkept e (hhappened e he)
      · rw [← heq]
        exact hle
    | inr hi => exact (h.handed i hi).mono hkept
  · refine List.Perm.trans ?_ h.left
    rw [← List.append_assoc]
    exact (hown.append_right seen).symm

theorem Inv.complete (h : Inv ch) (i : Nat) (res : Int) :
    Inv { ch with queue := ch.queue.complete i res } := by
  have hperm := CompletionQueue.outstanding_complete ch.queue i res
  have hkept : ∀ e ∈ ch.queue.history, e ∈ (ch.queue.complete i res).history :=
    fun e he => CompletionQueue.complete_history he i res
  have ⟨hbase, hstage⟩ := h
  have hbusy : ∀ c seen, Busy ch c seen →
      Busy { ch with queue := ch.queue.complete i res } c seen := by
    intro c seen hc
    have hown := own_perm ch { ch with queue := ch.queue.complete i res }
      (hperm.trans (List.Perm.of_eq (List.append_nil _).symm)) c.id
    rw [List.filter_nil, List.map_nil, List.append_nil] at hown
    exact ⟨hc.id, hc.full, hc.count, hc.more, fun i hi => (hc.finished i hi).mono hkept, hc.done,
      fun i hi => (hc.handed i hi).mono hkept, (hown.append_right seen).trans hc.left⟩
  refine ⟨⟨hbase.recorded.complete i res, fun t ht => hbase.fresh t (hperm.mem_iff.mp ht),
    hbase.trusted.mono hkept rfl⟩, fun c hc => ?_⟩
  have ⟨seen, hbusy'⟩ := hstage c hc
  exact ⟨seen, hbusy c seen hbusy'⟩

theorem Base.begin (hbase : Base ch) (op : Op) (m_status : Int) (sizes : List Nat)
    (batchSize : Int) (hfull : op = .write → ∀ size ∈ sizes, 0 < size) :
    Inv (ch.begin op m_status sizes batchSize) := by
  have hbase' : Base { ch with calls := ch.calls + 1 } :=
    ⟨hbase.recorded, fun t ht => (hbase.fresh t ht).trans (Nat.lt_succ_self _), hbase.trusted⟩
  have hown : own ch ch.calls = [] := by
    rw [own, List.map_eq_nil_iff, List.filter_eq_nil_iff]
    intro t ht
    simpa using Nat.ne_of_lt (hbase.fresh t ht)
  rw [Channel.begin]
  split
  next => exact hbase'.giveBack (trusted_zero hfull)
  next =>
    split
    · exact hbase'.giveBack (trusted_zero hfull)
    · exact Ready.nextBatch hbase' ⟨rfl, hfull, (Nat.zero_min _).symm,
        fun i hi => absurd hi List.not_mem_nil, hown⟩

theorem Inv.step {e : Event} (h : Inv ch) (hclean : Clean ch e) : Inv (ch.step e) := by
  have ⟨hbase, hbusy⟩ := h
  cases e with
  | begin op m_status sizes batchSize =>
    rw [Channel.step]
    split
    · exact hbase.begin op m_status sizes batchSize hclean
    · exact h
  | complete i res => exact h.complete i res
  | submit s =>
    rw [Channel.step]
    split
    next c hstage =>
      have ⟨seen, hc⟩ := hbusy c (hstage ▸ rfl)
      exact hc.submit hbase s
    · exact h
  | getevents picks =>
    cases hstage : ch.stage with
    | waiting c =>
      have ⟨seen, hc⟩ := hbusy c (hstage ▸ rfl)
      cases picks with
      | none => simpa only [Channel.step, hstage] using hc.giveUp hbase
      | some picks =>
        simpa only [Channel.step, hstage] using hc.getevents hbase (hclean c hstage)
    | idle | submitting _ | looping => simpa only [Channel.step, hstage] using h

theorem start_inv : Inv Channel.start := by
  refine ⟨⟨fun _ he => ?_, fun _ ht => ?_, fun _ hr => ?_⟩, fun _ hc => ?_⟩
  · exact absurd he List.not_mem_nil
  · exact absurd ht List.not_mem_nil
  · exact absurd hr List.not_mem_nil
  · cases hc

/-- While no call is handed the completion of another one, or of a request without all its bytes,
the counts of all calls can be trusted. -/
theorem trustworthy_of_clean (es : List Event)
    (h : Along Channel.step Clean Channel.start es) :
    Throughout Channel.step Trustworthy Channel.start es :=
  (h.throughout (fun _ _ hclean hinv => Inv.step hinv hclean) start_inv).mono
    fun _ hinv => hinv.1.trusted

/-- Two pages and an empty request are read, and a page is written; the kernel takes the requests
one by one. -/
def oneByOne : List Event :=
  [batchReadFile 0 [4096, 0, 100] 2, .submit 1, .complete 0 4096, .getevents (some [0]), .submit 1,
    .getevents (some []), .complete 0 4096, .getevents (some [0]),
    batchWriteFile 0 [4096] (-1), .submit 0]

theorem trustworthy_of_clean_one : Along Channel.step Clean Channel.start oneByOne ∧
    Throughout Channel.step Trustworthy Channel.start oneByOne := by
  have hclean : Along Channel.step Clean Channel.start oneByOne := by
    refine ⟨fun hop => ?_, trivial, trivial, fun c hc => ?_, trivial, fun c hc => ?_, trivial,
      fun c hc => ?_, fun _ => ?_, trivial, trivial⟩
    · cases hop
    · cases hc
      decide
    · cases hc
      decide
    · cases hc
      decide
    · decide
  exact ⟨hclean, trustworthy_of_clean oneByOne hclean⟩

def lateCompletion : List Event :=
  [batchReadFile 0 [4096] (-1), .submit 1, .getevents none,
    batchReadFile 0 [4096] (-1), .submit 1, .complete 0 4096, .getevents (some [0])]

theorem trusts_late : ∃ es, ¬ Trustworthy (run Channel.step Channel.start es) := by
  refine ⟨lateCompletion, fun h => ?_⟩
  have hreturned : (⟨1, .read, [4096], 1⟩ : Return) ∈
      (run Channel.step Channel.start lateCompletion).returns :=
    List.mem_cons_of_mem _ List.mem_cons_self
  have ⟨res, hmem, _⟩ := (h _ hreturned).1 rfl 0 (by decide)
  cases hmem with
  | tail _ hmem => cases hmem

end Sptag.Helper.AsyncFileIO
