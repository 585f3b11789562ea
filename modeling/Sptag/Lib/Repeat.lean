import Mathlib

/-! Loops that take turns while a test holds, programs that follow them with fuel, counted
loops, and loops over a stack. -/

namespace Sptag.Lib

variable {S R : Type*} {again : S → Prop} {turn : S → S} {s : S}

def Ends (again : S → Prop) (turn : S → S) (s : S) : Prop := ∃ k, ¬ again (turn^[k] s)

def Going (again : S → Prop) (turn : S → S) (s : S) (k : Nat) : Prop := ∀ i ≤ k, again (turn^[i] s)

theorem Ends.first (h : Ends again turn s) :
    ∃ k, ¬ again (turn^[k] s) ∧ ∀ i < k, again (turn^[i] s) := by
  classical
  exact ⟨Nat.find h, Nat.find_spec h, fun i hi => not_not.mp (Nat.find_min h hi)⟩

theorem ends_of_wellFounded {M : Type*} {r : M → M → Prop} (hr : WellFounded r) (m : S → M)
    (h : ∀ k, Going again turn s k → ¬ again (turn^[k + 1] s) ∨
      r (m (turn^[k + 1] s)) (m (turn^[k] s))) :
    Ends again turn s := by
  by_contra hnot
  have hall : ∀ k, again (turn^[k] s) := fun k => not_not.mp fun hk => hnot ⟨k, hk⟩
  have hdown : ∀ k, r (m (turn^[k + 1] s)) (m (turn^[k] s)) := fun k =>
    (h k fun i _ => hall i).resolve_left (not_not.mpr (hall (k + 1)))
  exact (wellFounded_iff_isEmpty_descending_chain.mp hr).false ⟨fun k => m (turn^[k] s), hdown⟩

theorem ends_of_measure (m : S → Nat)
    (h : ∀ k, Going again turn s k → ¬ again (turn^[k + 1] s) ∨ m (turn^[k + 1] s) <
      m (turn^[k] s)) :
    Ends again turn s :=
  ends_of_wellFounded Nat.lt_wfRel.wf m h

theorem Ends.of_iterate {k : Nat} (h : Ends again turn (turn^[k] s)) : Ends again turn s := by
  obtain ⟨l, hl⟩ := h
  exact ⟨l + k, by rwa [Function.iterate_add_apply]⟩

theorem not_ends_of_keeps {I : S → Prop} (hkeep : ∀ s, I s → again s ∧ I (turn s)) (hs : I s) :
    ¬ Ends again turn s := by
  have hall : ∀ k, I (turn^[k] s) := by
    intro k
    induction k with
    | zero => exact hs
    | succ k ih =>
      rw [Function.iterate_succ_apply']
      exact (hkeep _ ih).2
  rintro ⟨k, hk⟩
  exact hk (hkeep _ (hall k)).1

theorem replaced_lt {A : Type*} [Preorder A] (p : A → Prop) [DecidablePred p]
    {l as : List A} {i : Nat}
    (hi : i < l.length) (hp : p l[i]) {a : A} (ha : a < l[i]) (has : ∀ b ∈ as, b < l[i]) :
    Multiset.IsDershowitzMannaLT (Multiset.filter p ↑(l.set i a ++ as)) (Multiset.filter p ↑l) := by
  have hset : (↑(l.set i a ++ as) : Multiset A) = ↑(l.eraseIdx i) + ↑(a :: as) := by
    rw [Multiset.coe_add, Multiset.coe_eq_coe]
    exact ((List.set_perm_cons_eraseIdx hi a).append_right as).trans List.perm_middle.symm
  have hold : (↑l : Multiset A) = ↑(l.eraseIdx i) + {l[i]} := by
    rw [Multiset.add_comm, Multiset.singleton_add, Multiset.cons_coe, Multiset.coe_eq_coe]
    exact (List.getElem_cons_eraseIdx_perm hi).symm
  refine ⟨Multiset.filter p ↑(l.eraseIdx i), Multiset.filter p ↑(a :: as), {l[i]},
    by simp, ?_, ?_, ?_⟩
  · rw [hset, Multiset.filter_add]
  · rw [hold, Multiset.filter_add, Multiset.filter_singleton, if_pos hp]
  · intro b hb
    refine ⟨l[i], Multiset.mem_singleton_self _, ?_⟩
    rcases List.mem_cons.mp (Multiset.mem_coe.mp (Multiset.mem_of_mem_filter hb)) with rfl | hb
    · exact ha
    · exact has b hb

section Fuel

variable {F : Nat → S → R} {done : S → R}
  (hagain : ∀ n s, again s → F (n + 1) s = F n (turn s))

include hagain

theorem fuel_used {k : Nat} (hgoing : ∀ i < k, again (turn^[i] s)) (n : Nat) :
    F (k + n) s = F n (turn^[k] s) := by
  induction k generalizing n with
  | zero => rw [Nat.zero_add, Function.iterate_zero_apply]
  | succ k ih =>
    have hk := hgoing k (Nat.lt_succ_self k)
    rw [Nat.add_assoc, Nat.add_comm 1, ih (fun i hi => hgoing i (Nat.lt_succ_of_lt hi)),
      hagain _ _ hk,
      Function.iterate_succ_apply']

theorem fuel_enough (hdone : ∀ n s, ¬ again s → F (n + 1) s = done s) {k : Nat}
    (hk : ¬ again (turn^[k] s)) (hgoing : ∀ i < k, again (turn^[i] s)) {n : Nat} (hn : k < n) :
    F n s = done (turn^[k] s) := by
  obtain ⟨m, rfl⟩ := Nat.exists_eq_add_of_lt hn
  rw [Nat.add_assoc, fuel_used hagain hgoing, hdone _ _ hk]

/-- Out of fuel nothing good comes back, so that enough fuel is good exactly when the loop is
left with something good. -/
theorem fuel_good_iff (good : R → Prop) (hdone : ∀ n s, ¬ again s → F (n + 1) s = done s)
    (hout : ∀ s, ¬ good (F 0 s)) :
    (∃ k, ∀ n, k < n → good (F n s)) ↔
      ∃ k, ¬ again (turn^[k] s) ∧ (∀ i < k, again (turn^[i] s)) ∧ good (done (turn^[k] s)) := by
  constructor
  · rintro ⟨k, hk⟩
    have hends : Ends again turn s := by
      by_contra hnot
      have hall : ∀ i, again (turn^[i] s) := fun i => not_not.mp fun hi => hnot ⟨i, hi⟩
      have hused := fuel_used hagain (k := k + 1) (fun i _ => hall i) 0
      refine hout (turn^[k + 1] s) ?_
      rw [← hused]
      exact hk (k + 1) (Nat.lt_succ_self k)
    obtain ⟨l, hl, hgoing⟩ := hends.first
    refine ⟨l, hl, hgoing, ?_⟩
    rw [← fuel_enough hagain hdone hl hgoing (n := k + l + 1) (by omega)]
    exact hk _ (by omega)
  · rintro ⟨k, hk, hgoing, hgood⟩
    refine ⟨k, fun n hn => ?_⟩
    rwa [fuel_enough hagain hdone hk hgoing hn]

end Fuel

theorem foldlM_range_spec {S : Type*} {f : S → Nat → Option S} {n : Nat} (Inv : Nat → S → Prop)
    (hstep : ∀ i < n, ∀ s, Inv i s → ∃ s', f s i = some s' ∧ Inv (i + 1) s') {s : S}
    (hs : Inv 0 s) : ∃ s', (List.range n).foldlM f s = some s' ∧ Inv n s' := by
  induction n with
  | zero => exact ⟨s, rfl, hs⟩
  | succ n ih =>
    obtain ⟨s', hs', hInv⟩ := ih fun i hi => hstep i (Nat.lt_succ_of_lt hi)
    obtain ⟨s'', hs'', hInv'⟩ := hstep n (Nat.lt_succ_self n) s' hInv
    refine ⟨s'', ?_, hInv'⟩
    rw [List.range_succ, List.foldlM_append, hs']
    simp only [List.foldlM_cons, List.foldlM_nil, Option.bind_eq_bind, Option.bind_some, hs'']
    rfl

theorem foldlM_range_eq {S : Type*} {f : S → Nat → Option S} {n : Nat} (state : Nat → S)
    (hstep : ∀ i < n, f (state i) i = some (state (i + 1))) :
    (List.range n).foldlM f (state 0) = some (state n) := by
  obtain ⟨s, hs, rfl⟩ := foldlM_range_spec (f := f) (n := n) (fun i s => s = state i)
    (fun i hi s h => ⟨_, h ▸ hstep i hi, rfl⟩) rfl
  exact hs

section Stack

variable {I S : Type} (visit : I → S → Option (List I × S))

/-- The item on top is visited, and what it brings is put on the stack; the first number bounds the
rounds. -/
def stackLoop : Nat → List I → S → Option S
  | 0, _, _ => none
  | _ + 1, [], s => some s
  | rounds + 1, item :: rest, s => do
    let (items, s) ← visit item s
    stackLoop rounds (items ++ rest) s

def Completes (k : Nat) (items : List I) (s s' : S) : Prop :=
  ∀ rounds rest, stackLoop visit (k + rounds) (items ++ rest) s = stackLoop visit rounds rest s'

variable {visit} {k l : Nat} {items items' : List I} {item : I} {s s' s'' : S}

theorem Completes.nil (s : S) : Completes visit 0 [] s s := by
  intro rounds rest
  rw [Nat.zero_add, List.nil_append]

theorem Completes.append (h : Completes visit k items s s') (h' : Completes visit l items' s' s'') :
    Completes visit (k + l) (items ++ items') s s'' := by
  intro rounds rest
  rw [Nat.add_assoc, List.append_assoc, h, h']

theorem Completes.of_visit (hvisit : visit item s = some (items, s'))
    (h : Completes visit k items s' s'') :
    Completes visit (k + 1) [item] s s'' := by
  intro rounds rest
  rw [Nat.add_right_comm, List.singleton_append, stackLoop, hvisit, Option.bind_eq_bind,
    Option.bind_some]
  exact h rounds rest

theorem Completes.stackLoop_eq (h : Completes visit k items s s') {rounds : Nat} (hk : k < rounds) :
    stackLoop visit rounds items s = some s' := by
  obtain ⟨n, rfl⟩ := Nat.exists_eq_add_of_lt hk
  have hloop := h (n + 1) []
  rwa [List.append_nil, stackLoop, ← Nat.add_assoc] at hloop

end Stack

end Sptag.Lib
