import Mathlib

/-! Queues of an asynchronous device: what was submitted is completed at some time and in any
order, and the completions wait until they are reaped. -/

namespace Sptag.Lib

structure CompletionQueue (τ ρ : Type*) where
  inFlight : List τ
  completed : List (τ × ρ)
  history : List (τ × ρ)

namespace CompletionQueue

variable {τ ρ : Type*}

def empty : CompletionQueue τ ρ := ⟨[], [], []⟩

def submit (q : CompletionQueue τ ρ) (ts : List τ) : CompletionQueue τ ρ :=
  { q with inFlight := q.inFlight ++ ts }

def complete (q : CompletionQueue τ ρ) (i : Nat) (res : ρ) : CompletionQueue τ ρ :=
  match q.inFlight[i]? with
  | none => q
  | some t =>
    { inFlight := q.inFlight.eraseIdx i
      completed := q.completed ++ [(t, res)]
      history := q.history ++ [(t, res)] }

def reap (q : CompletionQueue τ ρ) : List Nat → List (τ × ρ) × CompletionQueue τ ρ
  | [] => ([], q)
  | i :: picks =>
    match q.completed[i]? with
    | none => q.reap picks
    | some e =>
      let (es, q') := reap { q with completed := q.completed.eraseIdx i } picks
      (e :: es, q')

def outstanding (q : CompletionQueue τ ρ) : List τ := q.inFlight ++ q.completed.map Prod.fst

def Recorded (q : CompletionQueue τ ρ) : Prop := ∀ e ∈ q.completed, e ∈ q.history

variable {q : CompletionQueue τ ρ}

theorem outstanding_submit (q : CompletionQueue τ ρ) (ts : List τ) :
    (q.submit ts).outstanding.Perm (q.outstanding ++ ts) := by
  rw [outstanding, submit, outstanding, List.append_assoc, List.append_assoc]
  exact List.perm_append_comm.append_left _

theorem outstanding_complete (q : CompletionQueue τ ρ) (i : Nat) (res : ρ) :
    (q.complete i res).outstanding.Perm q.outstanding := by
  rw [complete]
  split
  next => exact List.Perm.refl _
  next t hget =>
    have ⟨hi, ht⟩ := List.getElem?_eq_some_iff.mp hget
    have herase := List.getElem_cons_eraseIdx_perm hi
    rw [ht] at herase
    rw [outstanding, outstanding, List.map_append]
    rw [← List.append_assoc]
    refine (List.perm_append_singleton t _).trans ?_
    rw [← List.cons_append]
    exact herase.append_right _

theorem outstanding_reap (q : CompletionQueue τ ρ) (picks : List Nat) :
    ((q.reap picks).1.map Prod.fst ++ (q.reap picks).2.outstanding).Perm q.outstanding := by
  induction picks generalizing q with
  | nil => exact List.Perm.refl _
  | cons i picks ih =>
    rw [reap]
    split
    next => exact ih q
    next e hget =>
      have ⟨hi, he⟩ := List.getElem?_eq_some_iff.mp hget
      have herase := (List.getElem_cons_eraseIdx_perm hi).map Prod.fst
      rw [he] at herase
      refine ((ih { q with completed := q.completed.eraseIdx i }).cons e.1).trans ?_
      refine List.perm_middle.symm.trans ?_
      exact herase.append_left q.inFlight

@[simp] theorem reap_history (q : CompletionQueue τ ρ) (picks : List Nat) :
    (q.reap picks).2.history = q.history := by
  induction picks generalizing q with
  | nil => rfl
  | cons i picks ih =>
    rw [reap]
    split
    next => exact ih q
    next => exact ih _

theorem complete_history {e : τ × ρ} (he : e ∈ q.history) (i : Nat) (res : ρ) :
    e ∈ (q.complete i res).history := by
  rw [complete]
  split
  · exact he
  · exact List.mem_append_left _ he

theorem Recorded.complete (h : q.Recorded) (i : Nat) (res : ρ) : (q.complete i res).Recorded := by
  rw [CompletionQueue.complete]
  split
  next => exact h
  next =>
    intro e he
    cases List.mem_append.mp he with
    | inl he => exact List.mem_append_left _ (h e he)
    | inr he => exact List.mem_append_right _ he

theorem Recorded.reap (h : q.Recorded) (picks : List Nat) :
    (∀ e ∈ (q.reap picks).1, e ∈ q.history) ∧ (q.reap picks).2.Recorded := by
  induction picks generalizing q with
  | nil => exact ⟨fun e he => absurd he List.not_mem_nil, h⟩
  | cons i picks ih =>
    rw [CompletionQueue.reap]
    split
    next => exact ih h
    next e hget =>
      have hrest : Recorded { q with completed := q.completed.eraseIdx i } :=
        fun e' he' => h e' (List.mem_of_mem_eraseIdx he')
      have ⟨hreaped, hrecorded⟩ := ih hrest
      exact ⟨List.forall_mem_cons.mpr ⟨h e (List.mem_of_getElem? hget), hreaped⟩, hrecorded⟩

end CompletionQueue

end Sptag.Lib
