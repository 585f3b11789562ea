import Sptag.Lib.BufferedWriter
import Sptag.Lib.Run
import Sptag.Lib.Threads
import Sptag.TikvUds.Protocol

/-! One connection of `main.go`: the loop that reads requests, a goroutine for each of them, and
the writer and mutex that they share. -/

namespace Sptag.TikvUds

open Lib

/-- What the handlers use of the server; the slots of `workerLimit` are shared with the other
connections, and may come at any time. -/
structure Server where
  ns : Bytes
  maxBatch : Int

structure ClientError where
  deadlineExceeded : Bool
  text : Bytes

/-- The call of the client that a handler waits for, with what it will go on with. -/
inductive Work
  | get (fullKey : Bytes)
  | batchGet (keysRaw : List Bytes) (results : List (Option Bytes)) (start stop : Nat)
  | put (fullKey val : Bytes)
  | delete (fullKey : Bytes)

inductive Answer
  | value (r : Except ClientError (Option Bytes))
  | values (r : Except ClientError (List (Option Bytes)))
  | done (r : Except ClientError Unit)

/-- Where a handler is: with the client, at the mutex, or in `syncWriteStatus` behind it. -/
inductive Phase
  | calling (work : Work)
  | locking (st : Status) (payload : Bytes)
  | writing (pieces : List Bytes)
  | unlocking
  | done

structure Handler where
  reqID : UInt64
  phase : Phase

structure Conn where
  stream : Bytes
  closed : Bool
  handlers : List Handler
  writeMu : Option Nat
  w : Buffered UInt8
  panicked : Bool

def timeout : Bytes := [116, 105, 109, 101, 111, 117, 116]

def unknownOp : Bytes := [117, 110, 107, 110, 111, 119, 110, 32, 111, 112]

section Handlers

variable (sv : Server)

def Server.keyWithNS (k8 : Bytes) : Bytes := if sv.ns.length = 0 then k8 else sv.ns ++ k8

def replyError (err : ClientError) : Phase :=
  if err.deadlineExceeded then .locking statusTimeout timeout else .locking statusError err.text

def handleGet : Except ClientError (Option Bytes) → Phase
  | .error err => replyError err
  | .ok none => .locking statusNotFound []
  | .ok (some val) => .locking statusOK (leBytes 4 val.length ++ val)

def multiGetPayload (n : Nat) (results : List (Option Bytes)) : Bytes :=
  leBytes 4 n ++ results.flatMap fun
    | some val => 1 :: (leBytes 4 val.length ++ val)
    | none => [0]

/-- The head of the loop of `handleMultiGet`; a slice that ends before it starts panics. -/
def nextBatch (keysRaw : List Bytes) (results : List (Option Bytes)) (start : Nat) : Option Phase :=
  if start < keysRaw.length then
    let stop := min (start + sv.maxBatch) keysRaw.length
    if stop < start then none else some (.calling (.batchGet keysRaw results start stop.toNat))
  else some (.locking statusOK (multiGetPayload keysRaw.length results))

def handleMultiGet (keysRaw : List Bytes) (results : List (Option Bytes)) (start stop : Nat) :
    Except ClientError (List (Option Bytes)) → Option Phase
  | .error err => some (replyError err)
  | .ok vals =>
    if vals.length < stop - start then none
    else nextBatch sv keysRaw (storeAt results start (vals.take (stop - start)))
      (start + sv.maxBatch).toNat

def handleUpdate : Except ClientError Unit → Phase
  | .error err => replyError err
  | .ok () => .locking statusOK []

def handle : Op → Option Phase
  | .health => some (.locking statusOK [])
  | .get keyBuf => some (.calling (.get (sv.keyWithNS keyBuf)))
  | .multiGet n keysRawBytes =>
    if n = 0 then some (.locking statusOK (leBytes 4 0))
    else
      let keysRaw := (List.range n).map fun i => sv.keyWithNS ((keysRawBytes.drop (i * 8)).take 8)
      nextBatch sv keysRaw (List.replicate n none) 0
  | .put keyBuf val => some (.calling (.put (sv.keyWithNS keyBuf) val))
  | .delete keyBuf => some (.calling (.delete (sv.keyWithNS keyBuf)))
  | .unknown => some (.locking statusError unknownOp)

def resume : Work → Answer → Option Phase
  | .get _, .value r => some (handleGet r)
  | .batchGet keysRaw results start stop, .values r =>
    handleMultiGet sv keysRaw results start stop r
  | .put _ _, .done r => some (handleUpdate r)
  | .delete _, .done r => some (handleUpdate r)
  | work, _ => some (.calling work)

/-- The loop reads a request, the client answers a handler, or a handler goes on. -/
inductive Event
  | read
  | answer (i : Nat) (a : Answer)
  | run (i : Nat)

def c_writerSize : Nat := 4 <<< 20

namespace Conn

def setPhase (c : Conn) (i : Nat) (h : Handler) (phase : Phase) : Conn :=
  { c with handlers := c.handlers.set i { h with phase := phase } }

def readNext (c : Conn) : Conn :=
  if c.closed then c
  else
    match readRequest c.stream with
    | none => { c with closed := true }
    | some (req, stream) =>
      match handle sv req.op with
      -- the process ends with the handler's goroutine; the bytes read are of no more use
      | none => { c with panicked := true }
      | some phase => { c with stream := stream, handlers := c.handlers ++ [⟨req.reqID, phase⟩] }

def runHandler (c : Conn) (i : Nat) (h : Handler) : Conn :=
  match h.phase with
  | .calling _ => c
  | .locking st payload =>
    match c.writeMu with
    | some _ => c
    | none =>
      { c with writeMu := some i }.setPhase i h (.writing (writeStatus h.reqID st payload))
  | .writing (p :: pieces) =>
    { c with w := (c.w.write c_writerSize p).1 }.setPhase i h
      (.writing ((c.w.write c_writerSize p).2.toList ++ pieces))
  | .writing [] => { c with w := c.w.flush }.setPhase i h .unlocking
  | .unlocking => { c with writeMu := none }.setPhase i h .done
  | .done => c

def answerHandler (c : Conn) (i : Nat) (h : Handler) (a : Answer) : Conn :=
  match h.phase with
  | .calling work =>
    match resume sv work a with
    | none => { c with panicked := true }
    | some phase => c.setPhase i h phase
  | _ => c

def step (c : Conn) (e : Event) : Conn :=
  if c.panicked then c
  else
    match e with
    | .read => c.readNext sv
    | .answer i a =>
      match c.handlers[i]? with
      | none => c
      | some h => c.answerHandler sv i h a
    | .run i =>
      match c.handlers[i]? with
      | none => c
      | some h => c.runHandler i h

def start (stream : Bytes) : Conn where
  stream := stream
  closed := false
  handlers := []
  writeMu := none
  w := ⟨[], []⟩
  panicked := false

end Conn

end Handlers

def Answer.err? : Answer → Option ClientError
  | .value (.error err) => some err
  | .values (.error err) => some err
  | .done (.error err) => some err
  | _ => none

def valueSize : Option Bytes → Nat
  | some val => 1 + 4 + val.length
  | none => 1

/-- The answer is not too long for one response: the text of an error, the value, or, with the
last batch, all values that were found. -/
def Work.Fits (sv : Server) (work : Work) (a : Answer) : Prop :=
  (∀ err, a.err? = some err → ¬ err.deadlineExceeded → err.text.length < 2 ^ 32) ∧
  (∀ val, a = .value (.ok (some val)) → 4 + val.length < 2 ^ 32) ∧
  (∀ keysRaw results start stop vals, work = .batchGet keysRaw results start stop →
    a = .values (.ok vals) → ¬ (start + sv.maxBatch).toNat < keysRaw.length →
    4 + ((storeAt results start (vals.take (stop - start))).map valueSize).sum < 2 ^ 32)

def Fits (sv : Server) (c : Conn) : Event → Prop
  | .answer i a => ∀ h work, c.handlers[i]? = some h → h.phase = .calling work → work.Fits sv a
  | _ => True

/-- The handler is in front of the mutex; a response that is ready there has a length that its
field has room for. -/
def Phase.Waits : Phase → Prop
  | .calling _ => True
  | .locking _ payload => payload.length < 2 ^ 32
  | _ => False

variable {sv : Server} {phase : Phase}

theorem locking_waits {st : Status} {payload : Bytes} (h : payload.length < 2 ^ 32) :
    (Phase.locking st payload).Waits := h

theorem replyError_waits {err : ClientError}
    (h : ¬ err.deadlineExceeded → err.text.length < 2 ^ 32) : (replyError err).Waits := by
  rw [replyError]
  split
  · exact locking_waits (by decide)
  next hdeadline => exact h hdeadline

@[simp] theorem multiGetPayload_length (n : Nat) (results : List (Option Bytes)) :
    (multiGetPayload n results).length = 4 + (results.map valueSize).sum := by
  rw [multiGetPayload, List.length_append, leBytes_length, List.length_flatMap]
  congr 2
  apply List.map_congr_left
  intro v _
  cases v with
  | none => rfl
  | some val => simp [valueSize]; omega

theorem nextBatch_waits {keysRaw : List Bytes} {results : List (Option Bytes)} {start : Nat}
    (hfits : ¬ start < keysRaw.length → 4 + (results.map valueSize).sum < 2 ^ 32)
    (h : nextBatch sv keysRaw results start = some phase) : phase.Waits := by
  rw [nextBatch] at h
  split at h
  · simp only [] at h
    split at h
    · cases h
    · cases h
      exact trivial
  next hlast =>
    cases h
    exact (multiGetPayload_length _ _).trans_lt (hfits hlast)

theorem handle_waits {op : Op} (h : handle sv op = some phase) : phase.Waits := by
  cases op with
  | health => cases h; exact locking_waits (by decide)
  | get keyBuf => cases h; exact trivial
  | multiGet n keysRawBytes =>
    rw [handle] at h
    split at h
    · cases h
      exact locking_waits (by decide)
    next hn =>
      refine nextBatch_waits (fun hlast => absurd ?_ hlast) h
      rw [List.length_map, List.length_range]
      exact Nat.pos_of_ne_zero hn
  | put keyBuf val => cases h; exact trivial
  | delete keyBuf => cases h; exact trivial
  | unknown => cases h; exact locking_waits (by decide)

theorem handleGet_waits {r : Except ClientError (Option Bytes)}
    (herr : ∀ err, r = .error err → ¬ err.deadlineExceeded → err.text.length < 2 ^ 32)
    (hvalue : ∀ val, r = .ok (some val) → 4 + val.length < 2 ^ 32) : (handleGet r).Waits := by
  match r with
  | .error err => exact replyError_waits (herr err rfl)
  | .ok none => exact locking_waits (by decide)
  | .ok (some val) =>
    rw [handleGet, Phase.Waits, List.length_append, leBytes_length]
    exact hvalue val rfl

theorem handleMultiGet_waits {keysRaw : List Bytes} {results : List (Option Bytes)}
    {start stop : Nat} {r : Except ClientError (List (Option Bytes))}
    (herr : ∀ err, r = .error err → ¬ err.deadlineExceeded → err.text.length < 2 ^ 32)
    (hvalues : ∀ vals, r = .ok vals → ¬ (start + sv.maxBatch).toNat < keysRaw.length →
      4 + ((storeAt results start (vals.take (stop - start))).map valueSize).sum < 2 ^ 32)
    (h : handleMultiGet sv keysRaw results start stop r = some phase) : phase.Waits := by
  cases r with
  | error err =>
    cases h
    exact replyError_waits (herr err rfl)
  | ok vals =>
    rw [handleMultiGet] at h
    split at h
    · cases h
    · exact nextBatch_waits (hvalues vals rfl) h

theorem handleUpdate_waits {r : Except ClientError Unit}
    (herr : ∀ err, r = .error err → ¬ err.deadlineExceeded → err.text.length < 2 ^ 32) :
    (handleUpdate r).Waits := by
  cases r with
  | error err => exact replyError_waits (herr err rfl)
  | ok u => exact locking_waits (by decide)

theorem resume_waits {work : Work} {a : Answer} (hfits : work.Fits sv a)
    (h : resume sv work a = some phase) : phase.Waits := by
  have ⟨herr, hvalue, hvalues⟩ := hfits
  cases a with
  | value r =>
    cases work with
    | get fullKey =>
      cases h
      exact handleGet_waits (fun err hr => herr err (by rw [hr]; rfl))
        fun val hr => hvalue val (by rw [hr])
    | batchGet _ _ _ _ | put _ _ | delete _ =>
      cases h
      exact trivial
  | values r =>
    cases work with
    | batchGet keysRaw results start stop =>
      exact handleMultiGet_waits (fun err hr => herr err (by rw [hr]; rfl))
        (fun vals hr => hvalues _ _ _ _ vals rfl (by rw [hr])) h
    | get _ | put _ _ | delete _ =>
      cases h
      exact trivial
  | done r =>
    cases work with
    | put _ _ | delete _ =>
      cases h
      exact handleUpdate_waits fun err hr => herr err (by rw [hr]; rfl)
    | get _ | batchGet _ _ _ _ =>
      cases h
      exact trivial

def Phase.holds : Phase → Bool
  | .writing _ => true
  | .unlocking => true
  | _ => false

def Phase.Sized (phase : Phase) : Prop :=
  ∀ st payload, phase = .locking st payload → payload.length < 2 ^ 32

theorem Phase.Waits.sized (h : phase.Waits) : phase.Sized := by
  intro st payload heq
  rw [heq] at h
  exact h

theorem Phase.Waits.holds_eq (h : phase.Waits) : phase.holds = false := by
  cases phase with
  | calling work => rfl
  | locking st payload => rfl
  | writing _ | unlocking | done => cases h

def Phase.pending : Phase → Bytes
  | .writing pieces => pieces.flatten
  | _ => []

def framesBytes (whole : List (Nat × Frame)) : Bytes := whole.flatMap fun x => x.2.bytes

/-- The socket has got whole frames, one at most for each request and with its id, and behind
them a part of the frame of the handler that has the mutex. -/
def Integrity (c : Conn) : Prop :=
  ∃ (whole : List (Nat × Frame)) (part : Bytes), (whole.map Prod.fst).Nodup ∧
    (∀ x ∈ whole, ∃ h, c.handlers[x.1]? = some h ∧ h.reqID = x.2.reqID) ∧
    c.w.sink = framesBytes whole ++ part ∧
    match c.writeMu with
    | none => part = []
    | some i => i ∉ whole.map Prod.fst ∧
      ∃ (h : Handler) (f : Frame), c.handlers[i]? = some h ∧ h.reqID = f.reqID ∧ part <+: f.bytes

/-- The handlers that are done have written the whole frames; the one that has the mutex is
writing one more. -/
structure Inv (c : Conn) (whole : List (Nat × Frame)) : Prop where
  once : (whole.map Prod.fst).Nodup
  carries : ∀ x ∈ whole, ∃ h, c.handlers[x.1]? = some h ∧ h.reqID = x.2.reqID ∧ h.phase = .done
  sized : ∀ h ∈ c.handlers, h.phase.Sized
  alone : ∀ i h, c.handlers[i]? = some h → h.phase.holds → c.writeMu = some i
  free : c.writeMu = none → c.w.buffer = [] ∧ c.w.sink = framesBytes whole
  held : ∀ i, c.writeMu = some i → ∃ (h : Handler) (f : Frame), c.handlers[i]? = some h ∧
    h.phase.holds ∧ h.reqID = f.reqID ∧
    c.w.content ++ h.phase.pending = framesBytes whole ++ f.bytes ∧
    framesBytes whole <+: c.w.sink ∧ (h.phase = .unlocking → c.w.buffer = [])

variable {c : Conn} {whole : List (Nat × Frame)} {i : Nat} {h : Handler}

theorem Inv.integrity (hinv : Inv c whole) : Integrity c := by
  have hcarries : ∀ x ∈ whole, ∃ h, c.handlers[x.1]? = some h ∧ h.reqID = x.2.reqID := by
    intro x hx
    have ⟨h, hget, hid, _⟩ := hinv.carries x hx
    exact ⟨h, hget, hid⟩
  cases hmu : c.writeMu with
  | none =>
    refine ⟨whole, [], hinv.once, hcarries, ?_, by rw [hmu]⟩
    rw [(hinv.free hmu).2, List.append_nil]
  | some i =>
    have ⟨h, f, hget, hholds, hid, hcontent, ⟨part, hpart⟩, _⟩ := hinv.held i hmu
    refine ⟨whole, part, hinv.once, hcarries, hpart.symm, ?_⟩
    rw [hmu]
    refine ⟨?_, h, f, hget, hid, ?_⟩
    · intro hi
      have ⟨x, hx, heq⟩ := List.mem_map.mp hi
      have ⟨h', hget', _, hdone⟩ := hinv.carries x hx
      rw [heq, hget] at hget'
      rw [Option.some.inj hget', hdone] at hholds
      cases hholds
    · rw [Buffered.content, ← hpart, List.append_assoc, List.append_assoc] at hcontent
      exact ⟨_, List.append_cancel_left hcontent⟩

theorem setPhase_self (hget : c.handlers[i]? = some h) (phase : Phase) :
    (c.setPhase i h phase).handlers[i]? = some { h with phase := phase } :=
  List.getElem?_set_self (List.getElem?_eq_some_iff.mp hget).1

theorem setPhase_of_ne (h : Handler) (phase : Phase) {j : Nat} (hj : i ≠ j) :
    (c.setPhase i h phase).handlers[j]? = c.handlers[j]? := List.getElem?_set_ne hj

theorem Inv.carries_setPhase (hinv : Inv c whole) (hget : c.handlers[i]? = some h)
    (hdone : h.phase ≠ .done) (phase : Phase) : ∀ x ∈ whole,
      ∃ h', (c.setPhase i h phase).handlers[x.1]? = some h' ∧ h'.reqID = x.2.reqID ∧
        h'.phase = .done := by
  intro x hx
  have ⟨h', hget', hid, hdone'⟩ := hinv.carries x hx
  refine ⟨h', ?_, hid, hdone'⟩
  rw [setPhase_of_ne, hget']
  intro hi
  rw [← hi, hget] at hget'
  exact hdone (Option.some.inj hget' ▸ hdone')

theorem Inv.sized_setPhase (hinv : Inv c whole) (hsized : phase.Sized) :
    ∀ h' ∈ (c.setPhase i h phase).handlers, h'.phase.Sized := by
  intro h' hmem
  cases List.mem_or_eq_of_mem_set hmem with
  | inl hmem => exact hinv.sized h' hmem
  | inr heq => exact heq ▸ hsized

theorem Inv.setPhase (hinv : Inv c whole) (hget : c.handlers[i]? = some h)
    (hdone : h.phase ≠ .done) (hholds : h.phase.holds = false) (hphase : phase.Waits) :
    Inv (c.setPhase i h phase) whole where
  once := hinv.once
  carries := hinv.carries_setPhase hget hdone phase
  sized := hinv.sized_setPhase hphase.sized
  alone := by
    intro j h' hget' hholds'
    cases decEq i j with
    | isTrue hj =>
      rw [← hj, setPhase_self hget] at hget'
      rw [← Option.some.inj hget', hphase.holds_eq] at hholds'
      cases hholds'
    | isFalse hj =>
      rw [setPhase_of_ne h phase hj] at hget'
      exact hinv.alone j h' hget' hholds'
  free := hinv.free
  held := by
    intro j hmu
    have ⟨h', f, hget', hholds', hrest⟩ := hinv.held j hmu
    refine ⟨h', f, ?_, hholds', hrest⟩
    rw [setPhase_of_ne, hget']
    intro hi
    rw [← hi, hget] at hget'
    rw [← Option.some.inj hget', hholds] at hholds'
    cases hholds'

theorem Inv.spawn (hinv : Inv c whole) (reqID : UInt64) (stream : Bytes)
    (hphase : phase.Waits) :
    Inv { c with stream := stream, handlers := c.handlers ++ [⟨reqID, phase⟩] } whole where
  once := hinv.once
  carries := by
    intro x hx
    have ⟨h, hget, hrest⟩ := hinv.carries x hx
    exact ⟨h, eq_some_of_isPrefix (List.prefix_append _ _) hget, hrest⟩
  sized := by
    intro h hmem
    cases List.mem_append.mp hmem with
    | inl hmem => exact hinv.sized h hmem
    | inr hmem => exact List.mem_singleton.mp hmem ▸ hphase.sized
  alone := by
    intro j h hget hholds
    cases getElem?_concat hget with
    | inl hget => exact hinv.alone j h hget hholds
    | inr hnew =>
      rw [hnew.2, hphase.holds_eq] at hholds
      cases hholds
  free := hinv.free
  held := by
    intro j hmu
    have ⟨h, f, hget, hrest⟩ := hinv.held j hmu
    exact ⟨h, f, eq_some_of_isPrefix (List.prefix_append _ _) hget, hrest⟩

theorem Inv.alone_setPhase (hinv : Inv c whole) {w : Buffered UInt8} (hmu : c.writeMu = some i)
    (j : Nat) (h' : Handler)
    (hget' : ({ c with w := w }.setPhase i h phase).handlers[j]? = some h')
    (hholds' : h'.phase.holds) : c.writeMu = some j := by
  cases decEq i j with
  | isTrue hj => rw [hmu, hj]
  | isFalse hj =>
    rw [setPhase_of_ne h phase hj] at hget'
    exact hinv.alone j h' hget' hholds'

theorem Inv.lock (hinv : Inv c whole) (hget : c.handlers[i]? = some h) {st : Status}
    {payload : Bytes} (hphase : h.phase = .locking st payload) (hmu : c.writeMu = none) :
    Inv ({ c with writeMu := some i }.setPhase i h (.writing (writeStatus h.reqID st payload)))
      whole where
  once := hinv.once
  carries := hinv.carries_setPhase hget (by rw [hphase]; exact fun heq => by cases heq) _
  sized := by
    refine hinv.sized_setPhase ?_
    intro st payload heq
    cases heq
  alone := by
    intro j h' hget' hholds'
    cases decEq i j with
    | isTrue hj => exact congrArg some hj
    | isFalse hj =>
      rw [setPhase_of_ne h _ hj] at hget'
      cases hmu.symm.trans (hinv.alone j h' hget' hholds')
  free := by
    intro hnone
    cases hnone
  held := by
    intro j hj
    cases hj
    have hmem : h ∈ c.handlers := List.mem_of_getElem? hget
    have hsized : payload.length < 2 ^ 32 := hinv.sized h hmem st payload hphase
    have ⟨hbuffer, hsink⟩ := hinv.free hmu
    refine ⟨_, ⟨h.reqID, st, payload, hsized⟩, setPhase_self hget _, rfl, rfl, ?_, ?_, ?_⟩
    · change c.w.sink ++ c.w.buffer ++ (writeStatus h.reqID st payload).flatten = _
      rw [hbuffer, hsink, List.append_nil]
      exact congrArg _ (flatten_writeStatus_eq ⟨h.reqID, st, payload, hsized⟩)
    · change _ <+: c.w.sink
      rw [hsink]
    · intro heq
      cases heq

theorem Inv.held_of (hinv : Inv c whole) (hget : c.handlers[i]? = some h)
    (hholds : h.phase.holds) : c.writeMu = some i ∧ ∃ f : Frame, h.reqID = f.reqID ∧
      c.w.content ++ h.phase.pending = framesBytes whole ++ f.bytes ∧
      framesBytes whole <+: c.w.sink ∧ (h.phase = .unlocking → c.w.buffer = []) := by
  have hmu := hinv.alone i h hget hholds
  have ⟨h', f, hget', _, hrest⟩ := hinv.held i hmu
  rw [hget] at hget'
  cases hget'
  exact ⟨hmu, f, hrest⟩

theorem Inv.behind (hinv : Inv c whole) (hget : c.handlers[i]? = some h)
    (hholds : h.phase.holds) (hphase : phase.holds) {w : Buffered UInt8}
    (hcontent : w.content ++ phase.pending = c.w.content ++ h.phase.pending)
    (hsink : c.w.sink <+: w.sink) (hbuffer : phase = .unlocking → w.buffer = []) :
    Inv ({ c with w := w }.setPhase i h phase) whole := by
  have ⟨hmu, f, hid, hpending, hprefixed, _⟩ := hinv.held_of hget hholds
  refine ⟨hinv.once, hinv.carries_setPhase hget ?_ phase, hinv.sized_setPhase ?_,
    hinv.alone_setPhase hmu, ?_, ?_⟩
  · intro hdone
    rw [hdone] at hholds
    cases hholds
  · intro st payload heq
    rw [heq] at hphase
    cases hphase
  · intro hnone
    cases hmu.symm.trans hnone
  · intro j hj
    cases hmu.symm.trans hj
    exact ⟨_, f, setPhase_self hget _, hphase, hid, hcontent.trans hpending,
      hprefixed.trans hsink, hbuffer⟩

theorem Inv.unlock (hinv : Inv c whole) (hget : c.handlers[i]? = some h)
    (hphase : h.phase = .unlocking) :
    ∃ f, Inv ({ c with writeMu := none }.setPhase i h .done) (whole ++ [(i, f)]) := by
  have hholds : h.phase.holds := hphase ▸ rfl
  have ⟨hmu, f, hid, hpending, _, hbuffer⟩ := hinv.held_of hget hholds
  have hnot : i ∉ whole.map Prod.fst := by
    intro hi
    have ⟨x, hx, heq⟩ := List.mem_map.mp hi
    have ⟨h', hget', _, hdone⟩ := hinv.carries x hx
    rw [heq, hget] at hget'
    cases hphase.symm.trans (Option.some.inj hget' ▸ hdone)
  refine ⟨f, ?_, ?_, hinv.sized_setPhase ?_, ?_, ?_, ?_⟩
  · rw [List.map_append]
    exact List.Nodup.append hinv.once (List.nodup_singleton i)
      (List.disjoint_singleton.mpr hnot)
  · intro x hx
    cases List.mem_append.mp hx with
    | inl hx =>
      refine hinv.carries_setPhase hget ?_ .done x hx
      rw [hphase]
      exact fun heq => by cases heq
    | inr hx =>
      rw [List.mem_singleton.mp hx]
      exact ⟨_, setPhase_self hget _, hid, rfl⟩
  · intro st payload heq
    cases heq
  · intro j h' hget' hholds'
    cases decEq i j with
    | isTrue hj =>
      rw [← hj] at hget'
      cases (setPhase_self (c := { c with writeMu := none }) hget .done).symm.trans hget'
      cases hholds'
    | isFalse hj =>
      rw [setPhase_of_ne h _ hj] at hget'
      exact absurd (Option.some.inj (hmu.symm.trans (hinv.alone j h' hget' hholds'))) hj
  · intro _
    refine ⟨hbuffer hphase, ?_⟩
    rw [hphase, Buffered.content, hbuffer hphase] at hpending
    change c.w.sink = _
    rw [framesBytes, List.flatMap_append, List.flatMap_singleton]
    simpa [framesBytes, Phase.pending] using hpending
  · intro j hj
    cases hj

theorem Inv.runHandler (hinv : Inv c whole) (hget : c.handlers[i]? = some h) :
    ∃ whole, Inv (c.runHandler i h) whole := by
  rw [Conn.runHandler]
  split
  next => exact ⟨whole, hinv⟩
  next st payload hphase =>
    split
    next => exact ⟨whole, hinv⟩
    next hmu => exact ⟨whole, hinv.lock hget hphase hmu⟩
  next p pieces hphase =>
    refine ⟨whole, hinv.behind hget (hphase ▸ rfl) rfl ?_ (Buffered.sink_prefix_write _ _ _) ?_⟩
    · rw [hphase, Phase.pending, Phase.pending, List.flatten_append, List.flatten_cons,
        ← List.append_assoc, Buffered.content_write, List.append_assoc]
    · intro heq
      cases heq
  next hphase =>
    refine ⟨whole, hinv.behind hget (hphase ▸ rfl) rfl ?_ ?_ fun _ => rfl⟩
    · rw [Buffered.content_flush, hphase]
      rfl
    · exact List.prefix_append _ _
  next hphase =>
    have ⟨f, hinv'⟩ := hinv.unlock hget hphase
    exact ⟨_, hinv'⟩
  next => exact ⟨whole, hinv⟩

theorem Inv.answerHandler (hinv : Inv c whole) (hget : c.handlers[i]? = some h) {a : Answer}
    (hfits : ∀ work, h.phase = .calling work → work.Fits sv a) :
    Inv (c.answerHandler sv i h a) whole := by
  rw [Conn.answerHandler]
  split
  next work hphase =>
    split
    next => exact ⟨hinv.once, hinv.carries, hinv.sized, hinv.alone, hinv.free, hinv.held⟩
    next phase hresume =>
      refine hinv.setPhase hget ?_ ?_ (resume_waits (hfits work hphase) hresume)
      · rw [hphase]
        exact fun heq => by cases heq
      · rw [hphase]
        rfl
  next => exact hinv

theorem Inv.readNext (hinv : Inv c whole) : Inv (c.readNext sv) whole := by
  rw [Conn.readNext]
  split
  · exact hinv
  · split
    next => exact ⟨hinv.once, hinv.carries, hinv.sized, hinv.alone, hinv.free, hinv.held⟩
    next req stream _ =>
      split
      next => exact ⟨hinv.once, hinv.carries, hinv.sized, hinv.alone, hinv.free, hinv.held⟩
      next phase hhandle => exact hinv.spawn req.reqID stream (handle_waits hhandle)

theorem Inv.step {e : Event} (hinv : Inv c whole) (hfits : Fits sv c e) :
    ∃ whole, Inv (c.step sv e) whole := by
  rw [Conn.step.eq_def]
  split
  · exact ⟨whole, hinv⟩
  · split
    next => exact ⟨whole, hinv.readNext⟩
    next i a =>
      split
      next => exact ⟨whole, hinv⟩
      next h hget => exact ⟨whole, hinv.answerHandler hget fun work => hfits h work hget⟩
    next i =>
      split
      next => exact ⟨whole, hinv⟩
      next h hget => exact hinv.runHandler hget

theorem start_inv (stream : Bytes) : Inv (Conn.start stream) [] where
  once := List.nodup_nil
  carries := fun x hx => absurd hx List.not_mem_nil
  sized := fun h hh => absurd hh List.not_mem_nil
  alone := fun i h hget => by cases hget
  free := fun _ => ⟨rfl, rfl⟩
  held := fun i hmu => by cases hmu

/-- While no answer of the client is too long, what the socket has got is whole frames, and at
the end a part of one, in every state of every run. -/
theorem integrity_of_fits (sv : Server) (stream : Bytes) (es : List Event)
    (h : Along (Conn.step sv) (Fits sv) (Conn.start stream) es) :
    Throughout (Conn.step sv) Integrity (Conn.start stream) es := by
  have hstep : ∀ c e, Fits sv c e → (∃ whole, Inv c whole) → ∃ whole, Inv (c.step sv e) whole :=
    fun c e hfits ⟨_, hinv⟩ => hinv.step hfits
  refine (h.throughout hstep ⟨[], start_inv stream⟩).mono fun c hinv => ?_
  have ⟨whole, hinv⟩ := hinv
  exact hinv.integrity

def healthThenGet : Bytes :=
  leBytes 4 magicReq ++ leBytes 2 opHealth ++ leBytes 2 0 ++ leBytes 8 1 ++ leBytes 8 0 ++
    (leBytes 4 magicReq ++ leBytes 2 opGet ++ leBytes 2 0 ++ leBytes 8 2 ++ leBytes 8 0 ++
      leBytes 8 65)

theorem fits_value (sv : Server) (work : Work) :
    work.Fits sv (.value (.ok (some [65, 66]))) := by
  refine ⟨fun err herr => ?_, fun val hval => ?_, fun _ _ _ _ _ _ hvals => ?_⟩
  · cases herr
  · cases hval
    decide
  · cases hvals

theorem integrity_of_fits_two :
    Along (Conn.step ⟨[], 256⟩) (Fits ⟨[], 256⟩) (Conn.start healthThenGet)
      [.read, .read, .run 0, .answer 1 (.value (.ok (some [65, 66]))), .run 1, .run 0] ∧
    Throughout (Conn.step ⟨[], 256⟩) Integrity (Conn.start healthThenGet)
      [.read, .read, .run 0, .answer 1 (.value (.ok (some [65, 66]))), .run 1, .run 0] := by
  have hfits : Along (Conn.step ⟨[], 256⟩) (Fits ⟨[], 256⟩) (Conn.start healthThenGet)
      [.read, .read, .run 0, .answer 1 (.value (.ok (some [65, 66]))), .run 1, .run 0] :=
    ⟨trivial, trivial, trivial, fun _ work _ _ => fits_value _ work, trivial, trivial, trivial⟩
  exact ⟨hfits, integrity_of_fits _ _ _ hfits⟩

def turns (w : Buffered UInt8) : List Bytes → Nat
  | [] => 0
  | p :: pieces => 4 * (pieces.length + 1) + (if p.length = 0 then 0 else 1) +
      if w.buffer.length = 0 then 0 else 2

theorem turns_le (w : Buffered UInt8) (pieces : List Bytes) :
    turns w pieces ≤ 4 * pieces.length + 3 := by
  cases pieces with
  | nil => exact Nat.zero_le _
  | cons p pieces =>
    rw [turns, List.length_cons]
    split <;> split <;> omega

theorem turns_write (w : Buffered UInt8) (p : Bytes) (pieces : List Bytes) :
    turns (w.write c_writerSize p).1 ((w.write c_writerSize p).2.toList ++ pieces) <
      turns w (p :: pieces) := by
  rw [Buffered.write]
  split
  next hlt =>
    have hp : p.length ≠ 0 := Nat.ne_zero_of_lt hlt
    split
    next hempty => simp [turns, hp, hempty]
    next hbuffer =>
      simp only [Buffered.flush, Option.toList_some, List.cons_append, List.nil_append, turns, hp,
        hbuffer, List.length_nil, ↓reduceIte]
      split <;> omega
  next =>
    refine (turns_le _ _).trans_lt ?_
    simp only [Option.toList_none, List.nil_append, turns]
    omega

theorem step_run (hget : c.handlers[i]? = some h) (hpanicked : c.panicked = false) :
    c.step sv (.run i) = c.runHandler i h := by
  rw [Conn.step.eq_def, hpanicked]
  simp only [hget]
  rfl

theorem finishes (sv : Server) {pieces : List Bytes} (hget : c.handlers[i]? = some h)
    (hpanicked : c.panicked = false) (hphase : h.phase = .writing pieces) :
    ∃ es, run (Conn.step sv) c es =
      { c with writeMu := none, w := ⟨[], c.w.content ++ pieces.flatten⟩ }.setPhase i h .done := by
  induction hn : turns c.w pieces using Nat.strong_induction_on generalizing c h pieces with
  | _ n ih =>
    cases pieces with
    | nil =>
      refine ⟨[.run i, .run i], ?_⟩
      have hstep : c.step sv (.run i) = { c with w := c.w.flush }.setPhase i h .unlocking := by
        rw [step_run hget hpanicked, Conn.runHandler, hphase]
      have hlast : ({ c with w := c.w.flush }.setPhase i h .unlocking).step sv (.run i) =
          { c with writeMu := none, w := c.w.flush }.setPhase i h .done := by
        rw [step_run (setPhase_self (c := { c with w := c.w.flush }) hget .unlocking) hpanicked]
        simp only [Conn.runHandler, Conn.setPhase, List.set_set]
      rw [run_cons, run_cons, hstep, hlast, List.flatten_nil, List.append_nil]
      rfl
    | cons p pieces =>
      have hstep : c.step sv (.run i) = { c with w := (c.w.write c_writerSize p).1 }.setPhase i h
          (.writing ((c.w.write c_writerSize p).2.toList ++ pieces)) := by
        rw [step_run hget hpanicked, Conn.runHandler, hphase]
      have hget' := setPhase_self (c := { c with w := (c.w.write c_writerSize p).1 }) hget
        (.writing ((c.w.write c_writerSize p).2.toList ++ pieces))
      have ⟨es, hes⟩ := ih _ (hn ▸ turns_write c.w p pieces) hget' hpanicked rfl rfl
      refine ⟨.run i :: es, ?_⟩
      have hcontent : (c.w.write c_writerSize p).1.content ++
          ((c.w.write c_writerSize p).2.toList ++ pieces).flatten =
          c.w.content ++ (p :: pieces).flatten := by
        rw [List.flatten_append, ← List.append_assoc, Buffered.content_write, List.append_assoc]
        rfl
      rw [run_cons, hstep, hes]
      simp only [Conn.setPhase, List.set_set, hcontent]

theorem integrity_length (hone : c.handlers.length = 1) (hmu : c.writeMu = none)
    (h : Integrity c) : c.w.sink.length < 20 + 2 ^ 32 := by
  have ⟨whole, part, honce, hcarries, hsink, hpart⟩ := h
  rw [hmu] at hpart
  rw [hsink, hpart, List.append_nil]
  have hzero : ∀ x ∈ whole, x.1 = 0 := by
    intro x hx
    have ⟨h, hget, _⟩ := hcarries x hx
    exact Nat.lt_one_iff.mp (hone ▸ (List.getElem?_eq_some_iff.mp hget).1)
  match whole with
  | [] => decide
  | [x] =>
    rw [framesBytes, List.flatMap_singleton, Frame.bytes_length]
    exact Nat.add_lt_add_left x.2.sized 20
  | x :: y :: whole =>
    rw [List.map_cons, List.map_cons, hzero x List.mem_cons_self,
      hzero y (List.mem_cons_of_mem x List.mem_cons_self)] at honce
    exact absurd List.mem_cons_self (List.nodup_cons.mp honce).1

def longHeader : Bytes :=
  leBytes 4 magicReq ++ leBytes 2 opMultiGet ++ leBytes 2 0 ++ leBytes 8 7 ++ leBytes 8 0

def longRequest : Bytes := longHeader ++ (leBytes 4 65536 ++ List.replicate (65536 * 8) 0)

def longResults : List (Option Bytes) := List.replicate 65536 (some (List.replicate 65536 0))

theorem readOp_multiGet {n : Nat} {keysRaw : Bytes} (hn : n ≤ 1000000)
    (hlen : keysRaw.length = n * 8) :
    readOp opMultiGet (leBytes 4 n ++ keysRaw) = some (.multiGet n keysRaw, []) := by
  have hval : leVal (leBytes 4 n) = n := leVal_leBytes_of_lt (by omega)
  change (readFront 4 >>= fun nBuf => _) _ = _
  rw [reader_bind_eq (readFront_eq (leBytes_length 4 n) _), hval, guard, if_pos hn, pure_bind]
  have hkeys := readFront_eq hlen []
  rw [List.append_nil] at hkeys
  rw [reader_bind_eq hkeys]
  rfl

theorem readRequest_longRequest : readRequest longRequest =
    some (⟨7, .multiGet 65536 (List.replicate (65536 * 8) 0)⟩, []) := by
  have hop : leVal ((longHeader.drop 4).take 2) = opMultiGet := by decide
  have hid : UInt64.ofNat (leVal ((longHeader.drop 8).take 8)) = 7 := by decide
  rw [readRequest, longRequest, reader_bind_eq (readFront_eq (by decide) _), guard,
    if_pos (by decide), pure_bind, hop,
    reader_bind_eq (readOp_multiGet (by decide) List.length_replicate), hid]
  rfl

section OneBatch

variable {n : Nat} {keysRaw : List Bytes}

theorem nextBatch_all (hn : 0 < n) (hkeys : keysRaw.length = n) (results : List (Option Bytes)) :
    nextBatch ⟨[], n⟩ keysRaw results 0 = some (.calling (.batchGet keysRaw results 0 n)) := by
  rw [nextBatch, if_pos (hkeys ▸ hn), hkeys]
  simp

theorem handleMultiGet_all (hkeys : keysRaw.length = n) {results vals : List (Option Bytes)}
    (hresults : results.length = n) (hvals : vals.length = n) :
    handleMultiGet ⟨[], n⟩ keysRaw results 0 n (.ok vals) =
      some (.locking statusOK (multiGetPayload n vals)) := by
  have hstore : storeAt results 0 (vals.take (n - 0)) = vals := by
    rw [Nat.sub_zero, ← hvals, List.take_length, storeAt, Nat.zero_add, hvals, ← hresults]
    simp
  rw [handleMultiGet, if_neg (by rw [hvals]; exact Nat.lt_irrefl n), hstore, nextBatch, hkeys]
  simp

end OneBatch

theorem handle_multiGet_all {n : Nat} (hn : 0 < n) (keysRawBytes : Bytes) :
    ∃ keysRaw : List Bytes, keysRaw.length = n ∧ handle ⟨[], n⟩ (.multiGet n keysRawBytes) =
      some (.calling (.batchGet keysRaw (List.replicate n none) 0 n)) := by
  have hkeys : ((List.range n).map fun i =>
      Server.keyWithNS ⟨[], n⟩ ((keysRawBytes.drop (i * 8)).take 8)).length = n := by
    rw [List.length_map, List.length_range]
  exact ⟨_, hkeys, (if_neg (Nat.ne_of_gt hn)).trans (nextBatch_all hn hkeys _)⟩

def oneHandler (reqID : UInt64) (phase : Phase) (writeMu : Option Nat) : Conn :=
  ⟨[], false, [⟨reqID, phase⟩], writeMu, ⟨[], []⟩, false⟩

theorem readNext_eq {req : Request} {stream : Bytes}
    (hread : readRequest stream = some (req, [])) (hhandle : handle sv req.op = some phase) :
    (Conn.start stream).step sv .read = oneHandler req.reqID phase none := by
  change (match readRequest stream with
    | none => _
    | some (req, stream) => _) = _
  rw [hread]
  simp only [hhandle]
  rfl

theorem run_all {n : Nat} (hn : 0 < n) {reqID : UInt64} {stream keysRawBytes : Bytes}
    (hread : readRequest stream = some (⟨reqID, .multiGet n keysRawBytes⟩, []))
    {vals : List (Option Bytes)} (hvals : vals.length = n) :
    run (Conn.step ⟨[], n⟩) (Conn.start stream) [.read, .answer 0 (.values (.ok vals))] =
      oneHandler reqID (.locking statusOK (multiGetPayload n vals)) none := by
  have ⟨keysRaw, hkeys, hhandle⟩ := handle_multiGet_all hn keysRawBytes
  rw [run_cons, readNext_eq hread hhandle, run_cons, run_nil]
  change (match handleMultiGet ⟨[], n⟩ keysRaw (List.replicate n none) 0 n (.ok vals) with
    | none => _
    | some phase => _) = _
  rw [handleMultiGet_all hkeys List.length_replicate hvals]
  rfl

theorem longResults_length : longResults.length = 65536 := List.length_replicate

theorem multiGetPayload_replicate (n m : Nat) (val : Bytes) :
    (multiGetPayload n (List.replicate m (some val))).length = 4 + m * (5 + val.length) := by
  rw [multiGetPayload_length, List.map_replicate, List.sum_replicate, smul_eq_mul]
  rfl

theorem long_payload : 2 ^ 32 ≤ (multiGetPayload 65536 longResults).length := by
  have hlength := multiGetPayload_replicate 65536 65536 (List.replicate 65536 0)
  rw [List.length_replicate] at hlength
  exact (by decide : 2 ^ 32 ≤ 4 + 65536 * (5 + 65536)).trans_eq hlength.symm

theorem not_integrity_of_le {n : Nat} (hn : 0 < n) {reqID : UInt64} {stream keysRawBytes : Bytes}
    (hread : readRequest stream = some (⟨reqID, .multiGet n keysRawBytes⟩, []))
    {vals : List (Option Bytes)} (hvals : vals.length = n)
    (hlong : 2 ^ 32 ≤ (multiGetPayload n vals).length) :
    ∃ es, ¬ Integrity (run (Conn.step ⟨[], n⟩) (Conn.start stream) es) := by
  have ⟨es, hes⟩ := finishes (i := 0) ⟨[], n⟩ (c := oneHandler reqID (.writing
    (writeStatus reqID statusOK (multiGetPayload n vals))) (some 0)) rfl rfl rfl
  refine ⟨[.read, .answer 0 (.values (.ok vals))] ++ .run 0 :: es, fun h => ?_⟩
  rw [run_append, run_all hn hread hvals, run_cons] at h
  have hlength := integrity_length rfl rfl (hes ▸ h)
  change (([] ++ [] : Bytes) ++ (writeStatus reqID statusOK _).flatten).length < _ at hlength
  rw [flatten_writeStatus] at hlength
  simp only [List.length_append, leBytes_length, List.length_nil] at hlength
  omega

theorem splits_long : ∃ sv stream es, ¬ Integrity (run (Conn.step sv) (Conn.start stream) es) :=
  ⟨_, longRequest, not_integrity_of_le (n := 65536) (Nat.zero_lt_succ _) readRequest_longRequest
    longResults_length long_payload⟩

end Sptag.TikvUds
