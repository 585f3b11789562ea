import Sptag.Lib.Run
import Sptag.SPANN.Dynamic.Residue

/-! Whether a merge that finds `m_mergeLock` busy, and so goes through the job queue again,
still runs with the reassign setting it was asked for. -/

namespace Sptag.SPANN.Dynamic.Requeue

open Lib Residue

variable {V : Type}

/-- A call of `MergePostings` that got `m_mergeLock`, after it had found it busy `requeues`
times. -/
structure Attempt where
  headID : Nat
  reassign : Bool
  requeues : Nat
  deriving DecidableEq

structure World (V : Type) where
  books : Books V
  requeues : List Nat
  attempts : List Attempt

def World.start : World V := ⟨⟨[], [], false, [], []⟩, [], []⟩

/-- What the threads do next. Each `exec` has its own answers to the calls it makes; `others`
is what happens outside the jobs of splits and merges, such as a thread that takes or frees
`m_mergeLock`, and the jobs that it queues. -/
inductive Event (V : Type)
  | mergeAsync (headID : Nat)
  | exec (i : Nat) (c : Calls V)
  | others (splitList mergeList : List Nat) (mergeLock : Bool) (rwLocks : List Nat)
      (splits : List (Nat × Bool)) (entries : List (Entry V × Int))

def execJob (c : Calls V) : Job V → Task V ErrorCode
  | .split headID disableReassign => split c headID (!disableReassign) true
  | .merge headID disableReassign => mergePostings c headID (!disableReassign)
  | .reassign _ _ => pure .success

def nextCount (b : Books V) (n : Nat) : Job V → Nat
  | .merge _ _ => if b.mergeLock then n + 1 else 0
  | _ => 0

def attemptOf (b : Books V) (n : Nat) : Job V → List Attempt
  | .merge headID disableReassign => if b.mergeLock then [] else [⟨headID, !disableReassign, n⟩]
  | _ => []

namespace World

variable (disableReassign : Bool) (w : World V)

def moveTo (b : Books V) (n : Nat) : World V :=
  { w with
    books := b
    requeues := w.requeues ++ List.replicate (b.jobs.length - w.books.jobs.length) n }

def pop (i : Nat) : World V :=
  { w with
    books := { w.books with jobs := w.books.jobs.eraseIdx i }
    requeues := w.requeues.eraseIdx i }

def exec (i : Nat) (c : Calls V) : World V :=
  match w.books.jobs[i]? with
  | none => w
  | some j =>
    let n := w.requeues.getD i 0
    let taken := w.pop i
    { taken.moveTo (execJob c j taken.books).2 (nextCount taken.books n j) with
      attempts := w.attempts ++ attemptOf taken.books n j }

def step : Event V → World V
  | .mergeAsync headID => w.moveTo (mergeAsync headID disableReassign w.books).2 0
  | .exec i c => w.exec i c
  | .others splitList mergeList mergeLock rwLocks splits entries =>
    w.moveTo ⟨splitList, mergeList, mergeLock, rwLocks, w.books.jobs ++
      (splits.map (fun s => .split s.1 s.2) ++ entries.map fun e => .reassign e.1 e.2)⟩ 0

end World

def IsMerge : Job V → Prop
  | .merge _ _ => True
  | _ => False

theorem not_isMerge_of_reassigns {entries : List (Entry V × Int)} :
    ∀ j ∈ entries.map (fun e => Job.reassign e.1 e.2), ¬ IsMerge j := by
  rintro j hj
  obtain ⟨e, -, rfl⟩ := List.mem_map.mp hj
  exact id

theorem split_jobs (c : Calls V) (headID : Nat) (reassign requirelock : Bool) (b : Books V) :
    ∃ new, (split c headID reassign requirelock b).2.jobs = b.jobs ++ new ∧ ∀ j ∈ new,
      ¬ IsMerge j := by
  by_cases h : c.SplitCompletes headID
  · obtain ⟨entries, hsplit⟩ := split_completes h reassign requirelock b
    rw [hsplit.books]
    exact ⟨_, rfl, not_isMerge_of_reassigns⟩
  · obtain ⟨ret, hsplit⟩ := split_fails h reassign requirelock b
    rw [hsplit.books]
    exact ⟨[], (List.append_nil _).symm, fun j hj => absurd hj List.not_mem_nil⟩

theorem mergePostings_jobs (c : Calls V) (headID : Nat) (reassign : Bool) {b : Books V}
    (hfree : b.mergeLock = false) : ∃ new,
    (mergePostings c headID reassign b).2.jobs = b.jobs ++ new ∧ ∀ j ∈ new, ¬ IsMerge j := by
  have hnone : ∃ new, b.jobs = b.jobs ++ new ∧ ∀ j ∈ new, ¬ IsMerge j :=
    ⟨[], (List.append_nil _).symm, fun j hj => absurd hj List.not_mem_nil⟩
  by_cases h : c.MergeCompletes b headID
  · obtain ⟨entries, hmerge⟩ := merge_completes hfree h reassign
    rw [hmerge.books]
    exact ⟨_, rfl, not_isMerge_of_reassigns⟩
  · by_cases hback : c.PutBackFails b headID
    · obtain ⟨ret, hmerge⟩ := merge_putBackFails hfree hback reassign
      rw [hmerge.books]
      exact hnone
    · obtain ⟨ret, hmerge⟩ := merge_fails hfree h hback reassign
      rw [hmerge.books]
      exact hnone

theorem mergePostings_busy (c : Calls V) (headID : Nat) (reassign : Bool) {b : Books V}
    (hbusy : b.mergeLock = true) :
    (mergePostings c headID reassign b).2 = b.addJob (.merge headID reassign) := by
  rw [mergePostings, get_bind_apply]
  simp only [hbusy, if_true]
  rfl

def storedFlag (disableReassign : Bool) (n : Nat) : Bool :=
  if Even n then disableReassign else !disableReassign

theorem storedFlag_succ (disableReassign : Bool) (n : Nat) :
    storedFlag disableReassign (n + 1) = !storedFlag disableReassign n := by
  by_cases h : Even n
  · simp [storedFlag, Nat.even_add_one, h]
  · simp [storedFlag, Nat.even_add_one, h]

def Flagged (disableReassign : Bool) (n : Nat) : Job V → Prop
  | .merge _ d => d = storedFlag disableReassign n
  | _ => True

theorem flagged_of_not_isMerge {disableReassign : Bool} {n : Nat} {j : Job V} (h : ¬ IsMerge j) :
    Flagged disableReassign n j := by
  cases j with
  | merge headID d => exact absurd trivial h
  | split headID d => trivial
  | reassign e prev => trivial

structure Tracked (disableReassign : Bool) (w : World V) : Prop where
  jobs : List.Forall₂ (fun j n => Flagged disableReassign n j) w.books.jobs w.requeues
  attempts : ∀ a ∈ w.attempts, a.reassign = !storedFlag disableReassign a.requeues

variable {disableReassign : Bool} {w : World V}

theorem forall₂_eraseIdx {α β : Type} {R : α → β → Prop} {as : List α} {bs : List β}
    (h : List.Forall₂ R as bs) (i : Nat) : List.Forall₂ R (as.eraseIdx i) (bs.eraseIdx i) := by
  induction h generalizing i with
  | nil => exact List.Forall₂.nil
  | cons hab hrest ih =>
    cases i with
    | zero => exact hrest
    | succ i => exact List.Forall₂.cons hab (ih i)

theorem forall₂_getD {α β : Type} {R : α → β → Prop} {as : List α} {bs : List β}
    (h : List.Forall₂ R as bs) {i : Nat} {a : α} (ha : as[i]? = some a) (b : β) :
      R a (bs.getD i b) := by
  induction h generalizing i with
  | nil => cases ha
  | cons hab hrest ih =>
    cases i with
    | zero =>
      cases ha
      exact hab
    | succ i => exact ih ha

theorem Tracked.pop (h : Tracked disableReassign w) (i : Nat) : Tracked disableReassign (w.pop i) :=
  ⟨forall₂_eraseIdx h.jobs i, h.attempts⟩

theorem Tracked.moveTo (h : Tracked disableReassign w) {b : Books V} {n : Nat} (new : List (Job V))
    (hjobs : b.jobs = w.books.jobs ++ new) (hnew : ∀ j ∈ new, Flagged disableReassign n j) :
    Tracked disableReassign (w.moveTo b n) := by
  refine ⟨?_, h.attempts⟩
  have hcount : (w.books.jobs ++ new).length - w.books.jobs.length = new.length := by
    rw [List.length_append, Nat.add_sub_cancel_left]
  rw [World.moveTo, hjobs, hcount]
  refine List.rel_append h.jobs ?_
  rw [← List.map_const']
  exact List.forall₂_map_right_iff.mpr (List.forall₂_same.mpr hnew)

theorem Tracked.attempt (h : Tracked disableReassign w) {as : List Attempt}
    (has : ∀ a ∈ as, a.reassign = !storedFlag disableReassign a.requeues) :
    Tracked disableReassign { w with attempts := w.attempts ++ as } :=
  ⟨h.jobs, fun a ha => (List.mem_append.mp ha).elim (h.attempts a) (has a)⟩

theorem Tracked.exec (h : Tracked disableReassign w) (i : Nat) (c : Calls V) :
    Tracked disableReassign (w.exec i c) := by
  rw [World.exec]
  split
  · exact h
  · rename_i j hj
    have hflag := forall₂_getD h.jobs hj 0
    have hpop := h.pop i
    generalize w.requeues.getD i 0 = n at hflag
    cases j with
    | split headID d =>
      obtain ⟨new, hjobs, hnew⟩ := split_jobs c headID (!d) true (w.pop i).books
      exact (hpop.moveTo _ hjobs fun j hj => flagged_of_not_isMerge (hnew j hj)).attempt
        fun a ha => absurd ha List.not_mem_nil
    | reassign e prev =>
      exact (hpop.moveTo _ (List.append_nil _).symm fun j hj => absurd hj List.not_mem_nil).attempt
        fun a ha => absurd ha List.not_mem_nil
    | merge headID d =>
      cases hlock : (w.pop i).books.mergeLock with
      | true =>
        have hqueue : (execJob c (.merge headID d) (w.pop i).books).2 =
          (w.pop i).books.addJob (.merge headID (!d)) := mergePostings_busy c headID (!d) hlock
        have hnew : ∀ j ∈ [Job.merge (V := V) headID (!d)], Flagged disableReassign (n + 1) j := by
          intro j hj
          rw [List.mem_singleton.mp hj]
          exact (congrArg _ hflag).trans (storedFlag_succ disableReassign n).symm
        simp only [hqueue, nextCount, attemptOf, hlock, if_true]
        exact (hpop.moveTo _ rfl hnew).attempt fun a ha => absurd ha List.not_mem_nil
      | false =>
        obtain ⟨new, hjobs, hnew⟩ := mergePostings_jobs c headID (!d) hlock
        simp only [nextCount, attemptOf, hlock, Bool.false_eq_true, if_false]
        refine (hpop.moveTo _ hjobs fun j hj => flagged_of_not_isMerge (hnew j hj)).attempt
          fun a ha => ?_
        rw [List.mem_singleton.mp ha]
        exact congrArg (!·) hflag

theorem Tracked.step (h : Tracked disableReassign w) (e : Event V) :
    Tracked disableReassign (w.step disableReassign e) := by
  cases e with
  | mergeAsync headID =>
    rw [World.step]
    by_cases hlisted : headID ∈ w.books.mergeList
    · refine h.moveTo [] ?_ fun j hj => absurd hj List.not_mem_nil
      change (if headID ∈ w.books.mergeList then w.books else _).jobs = _
      rw [if_pos hlisted, List.append_nil]
    · refine h.moveTo [.merge headID disableReassign] ?_ fun j hj => ?_
      · change (if headID ∈ w.books.mergeList then w.books else _).jobs = _
        rw [if_neg hlisted]
        rfl
      · rw [List.mem_singleton.mp hj]
        exact (if_pos Even.zero).symm
  | exec i c => exact h.exec i c
  | others splitList mergeList mergeLock rwLocks splits entries =>
    refine h.moveTo _ rfl fun j hj => flagged_of_not_isMerge ?_
    rcases List.mem_append.mp hj with hj | hj
    · obtain ⟨s, -, rfl⟩ := List.mem_map.mp hj
      exact id
    · exact not_isMerge_of_reassigns j hj

/-- In every run an attempt has the setting it was asked for exactly when it found the lock
busy an even number of times. -/
theorem setting_kept_iff (disableReassign : Bool) (es : List (Event V)) :
    ∀ a ∈ (run (World.step disableReassign) World.start es).attempts,
      a.reassign = !disableReassign ↔ Even a.requeues := by
  intro a ha
  have hstart : Tracked disableReassign (World.start : World V) :=
    ⟨List.Forall₂.nil, fun a ha => absurd ha List.not_mem_nil⟩
  have hflag := (run_keeps (fun _ e h => h.step e) es hstart).attempts a ha
  rw [hflag, storedFlag]
  by_cases heven : Even a.requeues
  · simp [heven]
  · simp [heven]

theorem setting_kept_after_two : (⟨0, true, 2⟩ : Attempt).reassign = !false ↔ Even 2 :=
  setting_kept_iff (V := Unit) false
    [.mergeAsync 0, .others [] [0] true [] [] [], .exec 0 .served, .exec 0 .served,
      .others [] [0] false [] [] [], .exec 0 .served] ⟨0, true, 2⟩
    (List.mem_singleton_self _)

/-- Another thread holds the lock when the job runs first: the merge then runs without
reassignment, which is not disabled. -/
theorem setting_lost : ∃ es : List (Event Unit),
    ∃ a ∈ (run (World.step false) World.start es).attempts,
    a.reassign ≠ !false :=
  ⟨[.mergeAsync 0, .others [] [0] true [] [] [], .exec 0 .served, .others [] [0] false [] [] [],
    .exec 0 .served], ⟨0, false, 1⟩, List.mem_singleton_self _, by decide⟩

end Sptag.SPANN.Dynamic.Requeue
