import Sptag.Common
import Sptag.Lib.Bytes
import Sptag.Lib.Run

/-! `ExtraDynamicSearcher::AsyncAppend` and its queue, over any `Append`. -/

namespace Sptag.SPANN

open Sptag.Lib

variable {P S : Type*}

structure AppendPair (P : Type*) where
  bktid : Bytes
  headID : Nat
  posting : P

def AppendPair.lt (a b : AppendPair P) : Bool :=
  a.bktid.takeWhile (· ≠ 0) < b.bktid.takeWhile (· ≠ 0)

def AppendPair.item (a : AppendPair P) : Nat × P := (a.headID, a.posting)

def tryPop : List (AppendPair P) → Option (AppendPair P × List (AppendPair P))
  | [] => none
  | a :: as =>
    match tryPop as with
    | none => some (a, as)
    | some (m, rest) => if a.lt m then some (m, a :: rest) else some (a, as)

theorem tryPop_perm {q rest : List (AppendPair P)} {w : AppendPair P}
    (h : tryPop q = some (w, rest)) : q.Perm (w :: rest) := by
  induction q generalizing w rest with
  | nil => simp [tryPop] at h
  | cons a as ih =>
    simp only [tryPop] at h
    split at h
    · obtain ⟨rfl, rfl⟩ := Prod.mk.inj (Option.some.inj h)
      exact .refl _
    · rename_i m r hm
      split at h
      · obtain ⟨rfl, rfl⟩ := Prod.mk.inj (Option.some.inj h)
        exact ((ih hm).cons a).trans (.swap _ _ _)
      · obtain ⟨rfl, rfl⟩ := Prod.mk.inj (Option.some.inj h)
        exact .refl _

structure AsyncState (P S : Type*) where
  queue : List (AppendPair P)
  passed : List (Nat × P)
  store : S

namespace AsyncAppend

variable (append : S → Nat → P → ErrorCode × S) (priorityID : Nat → Bytes) (limit : Nat)

/-- The loop over `try_pop`; `fuel` bounds the number of pairs in the queue. -/
def drain : Nat → AsyncState P S → ErrorCode × AsyncState P S
  | 0, st => (.success, st)
  | fuel + 1, st =>
    match tryPop st.queue with
    | none => (.success, st)
    | some (workPair, rest) =>
      let (ret, store) := append st.store workPair.headID workPair.posting
      let st := { queue := rest, passed := st.passed ++ [workPair.item], store := store }
      if ret = .success then drain fuel st else (ret, st)

def push (st : AsyncState P S) (headID : Nat) (posting : P) : AsyncState P S :=
  { st with queue := st.queue ++ [⟨priorityID headID, headID, posting⟩] }

/-- `seen` is the queue size of the first, unlocked check; by the time the lock is
taken another thread may have drained the queue. -/
def asyncAppend (seen : Nat) (st : AsyncState P S) (headID : Nat) (posting : P) :
    ErrorCode × AsyncState P S :=
  if limit ≤ seen then
    if st.queue.length < limit then (.success, push priorityID st headID posting)
    else drain append st.queue.length st
  else (.success, push priorityID st headID posting)

def Drains (st : AsyncState P S) (seen : Nat) : Prop := limit ≤ seen ∧ limit ≤ st.queue.length

structure Call (P : Type*) where
  seen : Nat
  headID : Nat
  posting : P

def step (st : AsyncState P S) (c : Call P) : AsyncState P S :=
  (asyncAppend append priorityID limit c.seen st c.headID c.posting).2

def handed (cs : List (Call P)) : List (Nat × P) := cs.map fun c => (c.headID, c.posting)

def kept (st : AsyncState P S) : List (Nat × P) := st.queue.map AppendPair.item ++ st.passed

theorem kept_drain (fuel : Nat) (st : AsyncState P S) :
    (kept (drain append fuel st).2).Perm (kept st) := by
  induction fuel generalizing st with
  | zero => exact .refl _
  | succ fuel ih =>
    simp only [drain]
    split
    · exact .refl _
    · rename_i w rest hpop
      have hmove : (rest.map AppendPair.item ++ (st.passed ++ [w.item])).Perm (kept st) := by
        rw [← List.append_assoc]
        refine (List.perm_append_singleton _ _).trans ?_
        rw [← List.cons_append, ← List.map_cons]
        exact (((tryPop_perm hpop).map _).append_right _).symm
      split
      · exact (ih _).trans hmove
      · exact hmove

theorem kept_push (st : AsyncState P S) (headID : Nat) (posting : P) :
    (kept (push priorityID st headID posting)).Perm ((headID, posting) :: kept st) := by
  simp only [kept, push, List.map_append, List.map_singleton, List.append_assoc,
    List.singleton_append]
  exact List.perm_middle

theorem kept_step_of_not_drains {st : AsyncState P S} {c : Call P}
    (h : ¬ Drains limit st c.seen) :
    (kept (step append priorityID limit st c)).Perm ((c.headID, c.posting) :: kept st) := by
  rw [step, asyncAppend]
  split
  · rename_i hseen
    rw [if_pos (by rw [Drains] at h; omega)]
    exact kept_push ..
  · exact kept_push ..

theorem kept_step_of_drains {st : AsyncState P S} {c : Call P} (h : Drains limit st c.seen) :
    (kept (step append priorityID limit st c)).Perm (kept st) := by
  rw [step, asyncAppend, if_pos h.1, if_neg (not_lt.mpr h.2)]
  exact kept_drain ..

theorem kept_run_length_le (st : AsyncState P S) (cs : List (Call P)) :
    (kept (run (step append priorityID limit) st cs)).length ≤ cs.length + (kept st).length := by
  induction cs generalizing st with
  | nil => simp
  | cons c cs ih =>
    have hstep : (kept (step append priorityID limit st c)).length ≤ (kept st).length + 1 := by
      by_cases h : Drains limit st c.seen
      · rw [(kept_step_of_drains append priorityID limit h).length_eq]
        exact Nat.le_succ _
      · exact (kept_step_of_not_drains append priorityID limit h).length_eq.le
    have := ih (step append priorityID limit st c)
    simp only [run_cons, List.length_cons]
    omega

/-- The pairs handed over are those queued or passed to `Append` exactly in the runs in
which no call finds the queue full. -/
theorem asyncAppend_conserves_iff (st : AsyncState P S) (cs : List (Call P)) :
    (handed cs ++ kept st).Perm (kept (run (step append priorityID limit) st cs)) ↔
      Along (step append priorityID limit) (fun st c => ¬ Drains limit st c.seen) st cs := by
  induction cs generalizing st with
  | nil => simp [handed, Along]
  | cons c cs ih =>
    simp only [handed, List.map_cons, List.cons_append, run_cons, Along]
    by_cases h : Drains limit st c.seen
    · refine ⟨fun hperm => ?_, fun hok => absurd h hok.1⟩
      have hlen := hperm.length_eq
      have hle := kept_run_length_le append priorityID limit (step append priorityID limit st c) cs
      rw [(kept_step_of_drains append priorityID limit h).length_eq] at hle
      simp only [List.length_cons, List.length_append, List.length_map] at hlen
      omega
    · have hstep := kept_step_of_not_drains append priorityID limit h
      have hcons : ((c.headID, c.posting) :: (handed cs ++ kept st)).Perm
          (handed cs ++ kept (step append priorityID limit st c)) :=
        List.perm_middle.symm.trans (hstep.symm.append_left _)
      rw [← ih]
      exact ⟨fun hperm => ⟨h, hcons.symm.trans hperm⟩, fun hok => hcons.trans hok.2⟩

theorem asyncAppend_drops :
    let append := fun (s : Unit) (_ : Nat) (_ : Nat) => (ErrorCode.success, s)
    let st := (step append (fun _ => []) 1 ⟨[], [], ()⟩ ⟨0, 7, 0⟩)
    let r := asyncAppend append (fun _ => []) 1 st.queue.length st 7 1
    r.1 = .success ∧ kept r.2 = [(7, 0)] := by
  decide

end AsyncAppend

end Sptag.SPANN
