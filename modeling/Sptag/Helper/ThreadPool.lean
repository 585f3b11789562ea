import Sptag.Common
import Sptag.Lib.Run
import Sptag.Lib.Threads

/-! `ThreadPool` of `ThreadPool.h`: its workers, the callers of `add`, and what `allClear` can
tell of them. -/

namespace Sptag.Helper.ThreadPool

open Lib

variable {J : Type*}

inductive Worker (J : Type*)
  /-- Before `get`, or waiting in it for a job. -/
  | idle
  /-- In `get`, with the lock and the front of the queue. -/
  | holding (j : J)
  /-- As before, and the job is counted. -/
  | counted (j : J)
  | running (j : J)
  /-- The job is done but still counted. -/
  | finished

namespace Worker

def locks : Worker J → Bool
  | holding _ | counted _ => true
  | _ => false

def runs : Worker J → Bool
  | running _ => true
  | _ => false

def counts : Worker J → Bool
  | counted _ | running _ | finished => true
  | _ => false

end Worker

/-- A caller of `allClear`. `quiet` is not in the code: it tells whether the pool was quiet at
some instant of the call. -/
inductive Caller
  | outside
  | sized (totaljobs : Nat) (quiet : Bool)
  | returned (answer quiet : Bool)
  deriving DecidableEq

structure World (J : Type*) where
  jobs : List J
  currentJobs : UInt32
  workers : List (Worker J)
  callers : Nat → Caller

inductive Event (J : Type*)
  /-- `add`, by a job that runs or by any other thread. -/
  | add (j : J)
  | get (worker : Nat)
  | countUp (worker : Nat)
  | pop (worker : Nat)
  | finish (worker : Nat)
  | countDown (worker : Nat)
  | jobsize (caller : Nat)
  | currentJobs (caller : Nat)

def Event.caller? : Event J → Option Nat
  | jobsize c | currentJobs c => some c
  | _ => none

def Event.adds : Event J → Bool
  | add _ => true
  | _ => false

namespace World

variable (w : World J)

def locked : Bool := w.workers.any Worker.locks

def quiet : Bool := w.jobs.isEmpty && !w.workers.any Worker.runs

def setWorker (i : Nat) (t : Worker J) : World J := { w with workers := w.workers.set i t }

def setCaller (c : Nat) (caller : Caller) : World J :=
  { w with callers := Function.update w.callers c caller }

def move : Event J → World J
  | .add j => if w.locked then w else { w with jobs := w.jobs ++ [j] }
  | .get i =>
    match w.workers[i]?, w.jobs with
    | some .idle, j :: _ => if w.locked then w else w.setWorker i (.holding j)
    | _, _ => w
  | .countUp i =>
    match w.workers[i]? with
    | some (.holding j) =>
      { w.setWorker i (.counted j) with currentJobs := w.currentJobs + 1 }
    | _ => w
  | .pop i =>
    match w.workers[i]? with
    | some (.counted j) => { w.setWorker i (.running j) with jobs := w.jobs.tail }
    | _ => w
  | .finish i =>
    match w.workers[i]? with
    | some (.running _) => w.setWorker i .finished
    | _ => w
  | .countDown i =>
    match w.workers[i]? with
    | some .finished =>
      { w.setWorker i .idle with currentJobs := w.currentJobs - 1 }
    | _ => w
  | .jobsize c => if w.locked then w else w.setCaller c (.sized w.jobs.length false)
  | .currentJobs c =>
    match w.callers c with
    | .sized totaljobs quiet =>
      w.setCaller c (.returned (w.currentJobs = 0 ∧ totaljobs = 0) quiet)
    | _ => w

def observe : World J :=
  { w with
    callers := fun c =>
      match w.callers c with
      | .sized totaljobs quiet => .sized totaljobs (quiet || w.quiet)
      | caller => caller }

def step (e : Event J) : World J := (w.move e).observe

def Honest : Prop := ∀ c quiet, w.callers c = .returned true quiet → quiet = true

def Orderly : Event J → Prop
  | .add _ => ∀ c quiet, w.callers c = .sized 0 quiet → w.workers.any Worker.runs = false
  | _ => True

end World

def start (numberOfThreads : Int) : World J where
  jobs := []
  currentJobs := 0
  workers := List.replicate (toInt numberOfThreads).toNat .idle
  callers := fun _ => .outside

namespace World

variable {w : World J} {i c : Nat} {t : Worker J} {e : Event J}

/-- The counter is the number of counted jobs, and a call that has read an empty queue, and
that has not seen the pool quiet, still finds it empty. -/
structure Inv (w : World J) : Prop where
  threads : w.workers.length < 2 ^ 31
  tally : w.currentJobs = UInt32.ofNat (w.workers.countP Worker.counts)
  busy : ∀ c totaljobs, w.callers c = .sized totaljobs false → w.quiet = false
  empty : ∀ c, w.callers c = .sized 0 false → w.jobs = []
  honest : w.Honest

theorem quiet_of_empty (hjobs : w.jobs = []) (hruns : w.workers.any Worker.runs = false) :
    w.quiet = true := by
  rw [quiet, hjobs, hruns]
  rfl

theorem observe_sized {totaljobs : Nat} (h : w.observe.callers c = .sized totaljobs false) :
    w.callers c = .sized totaljobs false ∧ w.quiet = false := by
  rw [observe] at h
  dsimp only at h
  cases hc : w.callers c with
  | sized n quiet =>
    rw [hc] at h
    obtain ⟨rfl, hor⟩ := Caller.sized.inj h
    obtain ⟨rfl, hquiet⟩ := Bool.or_eq_false_iff.mp hor
    exact ⟨rfl, hquiet⟩
  | outside =>
    rw [hc] at h
    cases h
  | returned answer quiet =>
    rw [hc] at h
    cases h

theorem observe_returned {answer quiet : Bool}
    (h : w.observe.callers c = .returned answer quiet) : w.callers c = .returned answer quiet := by
  rw [observe] at h
  dsimp only at h
  cases hc : w.callers c with
  | returned answer' quiet' =>
    rw [hc] at h
    exact h
  | outside =>
    rw [hc] at h
    cases h
  | sized n quiet' =>
    rw [hc] at h
    cases h

theorem Inv.tally_set (h : w.Inv) (hi : w.workers[i]? = some t) {t' : Worker J}
    (hcounts : t'.counts = t.counts) :
    w.currentJobs = UInt32.ofNat ((w.workers.set i t').countP Worker.counts) := by
  have hset := countP_set_add (p := Worker.counts) hi t'
  rw [hcounts] at hset
  rw [h.tally, Nat.add_right_cancel hset]

theorem Inv.tally_move (h : w.Inv) (e : Event J) :
    (w.move e).currentJobs = UInt32.ofNat ((w.move e).workers.countP Worker.counts) := by
  cases e with
  | add j =>
    rw [move]
    split <;> exact h.tally
  | get i =>
    rw [move]
    split
    · rename_i hi hjobs
      split
      · exact h.tally
      · exact h.tally_set hi rfl
    · exact h.tally
  | countUp i =>
    rw [move]
    split
    · rename_i j hi
      have hset := countP_set_add (p := Worker.counts) hi (.counted j)
      change w.currentJobs + 1 = UInt32.ofNat ((w.workers.set i (.counted j)).countP Worker.counts)
      rw [h.tally, ← UInt32.ofNat_one, ← UInt32.ofNat_add]
      exact congrArg UInt32.ofNat hset.symm
    · exact h.tally
  | pop i =>
    rw [move]
    split
    · rename_i hi
      exact h.tally_set hi rfl
    · exact h.tally
  | finish i =>
    rw [move]
    split
    · rename_i hi
      exact h.tally_set hi rfl
    · exact h.tally
  | countDown i =>
    rw [move]
    split
    · rename_i hi
      have hset := countP_set_add (p := Worker.counts) hi .idle
      change w.currentJobs - 1 = UInt32.ofNat ((w.workers.set i .idle).countP Worker.counts)
      simp only [Worker.counts, Bool.false_eq_true, if_false, if_true, Nat.add_zero] at hset
      rw [h.tally, ← hset, UInt32.ofNat_add]
      exact UInt32.add_sub_cancel _ _
    · exact h.tally
  | jobsize c =>
    rw [move]
    split <;> exact h.tally
  | currentJobs c =>
    rw [move]
    split <;> exact h.tally

theorem move_callers (w : World J) (he : e.caller? = none) :
    (w.move e).callers = w.callers := by
  cases e with
  | jobsize c => cases he
  | currentJobs c => cases he
  | add j =>
    rw [move]
    split <;> rfl
  | get i =>
    rw [move]
    split
    · split <;> rfl
    · rfl
  | countUp i =>
    rw [move]
    split <;> rfl
  | pop i =>
    rw [move]
    split <;> rfl
  | finish i =>
    rw [move]
    split <;> rfl
  | countDown i =>
    rw [move]
    split <;> rfl

theorem move_jobs (h : w.jobs = []) (he : e.adds = false) : (w.move e).jobs = [] := by
  cases e with
  | add j => cases he
  | get i =>
    rw [move]
    split
    · split <;> exact h
    · exact h
  | countUp i =>
    rw [move]
    split <;> exact h
  | pop i =>
    rw [move]
    split
    · change w.jobs.tail = []
      rw [h]
      rfl
    · exact h
  | finish i =>
    rw [move]
    split <;> exact h
  | countDown i =>
    rw [move]
    split <;> exact h
  | jobsize c =>
    rw [move]
    split <;> exact h
  | currentJobs c =>
    rw [move]
    split <;> exact h

@[simp] theorem callers_setCaller (w : World J) (c : Nat) (caller : Caller) :
    (w.setCaller c caller).callers = Function.update w.callers c caller := rfl

theorem setCaller_cases {caller caller' : Caller} {c' : Nat}
    (h : (w.setCaller c' caller).callers c = caller') :
    caller' = caller ∧ c = c' ∨ w.callers c = caller' := by
  by_cases heq : c = c'
  · rw [heq, callers_setCaller, Function.update_self] at h
    exact .inl ⟨h.symm, heq⟩
  · rw [callers_setCaller, Function.update_of_ne heq] at h
    exact .inr h

/-- A call that has just read an empty queue finds it empty; for one that read it before, no
job came in while another ran. -/
theorem Inv.move_empty (h : w.Inv) (hok : w.Orderly e)
    (hc : (w.move e).callers c = .sized 0 false) : (w.move e).jobs = [] := by
  cases hcall : e.caller? with
  | none =>
    rw [move_callers w hcall] at hc
    cases hadd : e.adds with
    | false => exact move_jobs (h.empty c hc) hadd
    | true =>
      cases e with
      | add j =>
        have hquiet := quiet_of_empty (h.empty c hc) (hok c false hc)
        rw [h.busy c 0 hc] at hquiet
        cases hquiet
      | _ => cases hadd
  | some c' =>
    cases e with
    | jobsize c' =>
      rw [move] at hc ⊢
      split at hc
      · rename_i hlock
        rw [if_pos hlock]
        exact h.empty c hc
      · rename_i hlock
        rw [if_neg hlock]
        cases setCaller_cases hc with
        | inl hnew => exact List.length_eq_zero_iff.mp (Caller.sized.inj hnew.1).1.symm
        | inr hold => exact h.empty c hold
    | currentJobs c' =>
      apply move_jobs (h.empty c _) rfl
      rw [move] at hc
      split at hc
      · cases setCaller_cases hc with
        | inl hnew => cases hnew.1
        | inr hold => exact hold
      · exact hc
    | _ => cases hcall

theorem Inv.runs_eq_false (h : w.Inv) (hcount : w.currentJobs = 0) :
    w.workers.any Worker.runs = false := by
  have hlt : w.workers.countP Worker.counts < UInt32.size :=
    (List.countP_le_length.trans_lt h.threads).trans (by decide)
  have hzero : w.workers.countP Worker.counts = 0 := by
    rw [← UInt32.toNat_ofNat_of_lt' hlt, ← h.tally, hcount]
    rfl
  apply List.any_eq_false.mpr
  intro t ht hruns
  apply List.countP_eq_zero.mp hzero t ht
  cases t with
  | running j => rfl
  | _ => exact absurd hruns Bool.false_ne_true

theorem Inv.read_quiet (h : w.Inv) {quiet : Bool} (hc : w.callers c = .sized 0 quiet)
    (hcount : w.currentJobs = 0) : quiet = true := by
  cases quiet with
  | true => rfl
  | false =>
    have hruns := h.runs_eq_false hcount
    have hquiet := quiet_of_empty (h.empty c hc) hruns
    rw [h.busy c 0 hc] at hquiet
    exact hquiet

theorem Inv.move_honest (h : w.Inv) (e : Event J) : (w.move e).Honest := by
  intro c quiet hc
  cases e with
  | jobsize c' =>
    rw [move] at hc
    split at hc
    · exact h.honest c quiet hc
    · cases setCaller_cases hc with
      | inl hnew => cases hnew.1
      | inr hold => exact h.honest c quiet hold
  | currentJobs c' =>
    rw [move] at hc
    split at hc
    · rename_i n quiet' hsized
      cases setCaller_cases hc with
      | inl hnew =>
        obtain ⟨hans, rfl⟩ := Caller.returned.inj hnew.1
        obtain ⟨hcount, rfl⟩ := of_decide_eq_true hans.symm
        exact h.read_quiet hsized hcount
      | inr hold => exact h.honest c quiet hold
    · exact h.honest c quiet hc
  | _ =>
    rw [move_callers w rfl] at hc
    exact h.honest c quiet hc

@[simp] theorem length_move (w : World J) (e : Event J) :
    (w.move e).workers.length = w.workers.length := by
  cases e with
  | get i =>
    rw [move]
    split
    · split
      · rfl
      · exact List.length_set
    · rfl
  | countUp i =>
    rw [move]
    split
    · exact List.length_set
    · rfl
  | pop i =>
    rw [move]
    split
    · exact List.length_set
    · rfl
  | finish i =>
    rw [move]
    split
    · exact List.length_set
    · rfl
  | countDown i =>
    rw [move]
    split
    · exact List.length_set
    · rfl
  | add j =>
    rw [move]
    split <;> rfl
  | jobsize c =>
    rw [move]
    split <;> rfl
  | currentJobs c =>
    rw [move]
    split <;> rfl

theorem Inv.step (h : w.Inv) (hok : w.Orderly e) : (w.step e).Inv where
  threads := (length_move w e).trans_lt h.threads
  tally := h.tally_move e
  busy _ _ hc := (observe_sized hc).2
  empty _ hc := h.move_empty hok (observe_sized hc).1
  honest c quiet hc := h.move_honest e c quiet (observe_returned hc)

end World

theorem start_inv (numberOfThreads : Int) : (start numberOfThreads : World J).Inv where
  threads := by
    have hlt : toInt numberOfThreads < 2 ^ 31 := by
      rw [toInt]
      have := Int.bmod_lt (x := numberOfThreads) (m := 2 ^ 32) (by decide)
      omega
    rw [start, List.length_replicate]
    omega
  tally := by
    rw [start, List.countP_replicate]
    rfl
  busy := nofun
  empty := nofun
  honest := nofun

/-- In a run in which no job comes in, while another runs, between the two reads of a call,
`allClear` is right whenever it says that all is clear. -/
theorem allClear_quiet {numberOfThreads : Int} {es : List (Event J)}
    (hes : Along World.step World.Orderly (start numberOfThreads) es) :
    Throughout World.step World.Honest (start numberOfThreads) es :=
  (hes.throughout (fun _ _ hok h => World.Inv.step h hok) (start_inv numberOfThreads)).mono
    fun _ h => h.honest

theorem allClear_quiet_after_job :
    Throughout World.step World.Honest (start 1)
      [.add 7, .get 0, .countUp 0, .pop 0, .jobsize 0, .finish 0, .countDown 0, .currentJobs 0] :=
  allClear_quiet ⟨nofun, trivial, trivial, trivial, trivial, trivial, trivial, trivial, trivial⟩

theorem allClear_not_quiet : ¬ ∀ (numberOfThreads : Int) (es : List (Event Nat)),
    Throughout World.step World.Honest (start numberOfThreads) es := by
  intro h
  have hlast := (h 1 [.add 7, .get 0, .countUp 0, .pop 0, .jobsize 0, .add 8, .finish 0,
    .countDown 0, .currentJobs 0]).last
  exact absurd (hlast 0 false (by decide)) (by decide)

end Sptag.Helper.ThreadPool
