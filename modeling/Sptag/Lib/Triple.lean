import Mathlib

/-! Pre- and postconditions of state-passing programs that log their lapses: a triple
promises its postcondition of the calls that add nothing to the log. -/

namespace Sptag.Lib

variable {S L A B : Type} {log : S → List L}

def Triple (log : S → List L) (P : S → Prop) (m : StateM S A) (Q : A → S → Prop) : Prop :=
  ∀ s, ∃ new, log (m s).2 = new ++ log s ∧ (new = [] → P s → Q (m s).1 (m s).2)

def whenever (c : Bool) (m : StateM S PUnit) : StateM S PUnit := if c then m else pure ⟨⟩

theorem bind_eq_of_eq {m : StateM S A} {f : A → StateM S B} {s s' : S} {a : A} (h : m s = (a, s')) :
    (m >>= f) s = f a s' := congrArg (fun r : A × S => f r.1 r.2) h

@[simp] theorem get_bind_apply (f : S → StateM S A) (s : S) : (get >>= f) s = f s s := rfl

@[simp] theorem modify_bind_apply (g : S → S) (f : PUnit → StateM S A) (s : S) :
    (modify g >>= f) s = f ⟨⟩ (g s) := rfl

namespace Triple

variable {P P' : S → Prop} {Q Q' : A → S → Prop} {R : B → S → Prop} {m : StateM S A}

theorem apply (hm : Triple log P m Q) {s : S} (hlog : log (m s).2 = log s) (hs : P s) :
    Q (m s).1 (m s).2 := by
  obtain ⟨new, hnew, hpost⟩ := hm s
  exact hpost (List.self_eq_append_left.mp (hlog.symm.trans hnew)) hs

theorem conseq (hm : Triple log P m Q) (hP : ∀ s, P' s → P s) (hQ : ∀ a s, Q a s → Q' a s) :
    Triple log P' m Q' := by
  intro s
  obtain ⟨new, hlog, hpost⟩ := hm s
  exact ⟨new, hlog, fun hnew hs => hQ _ _ (hpost hnew (hP s hs))⟩

theorem pre (hm : Triple log P m Q) (hP : ∀ s, P' s → P s) : Triple log P' m Q :=
  hm.conseq hP fun _ _ h => h

theorem post (hm : Triple log P m Q) (hQ : ∀ a s, Q a s → Q' a s) : Triple log P m Q' :=
  hm.conseq (fun _ h => h) hQ

theorem pure {a : A} (h : ∀ s, P s → Q a s) : Triple log P (pure a) Q :=
  fun s => ⟨[], rfl, fun _ hs => h s hs⟩

theorem bind {f : A → StateM S B} (hm : Triple log P m Q)
    (hf : ∀ a, Triple log (Q a) (f a) R) : Triple log P (m >>= f) R := by
  intro s
  obtain ⟨new, hlog, hpost⟩ := hm s
  obtain ⟨new', hlog', hpost'⟩ := hf (m s).1 (m s).2
  refine ⟨new' ++ new, ?_, fun hnil hs => ?_⟩
  · rw [List.append_assoc, ← hlog]
    exact hlog'
  · obtain ⟨hnew', hnew⟩ := List.append_eq_nil_iff.mp hnil
    exact hpost' hnew' (hpost hnew hs)

theorem fact {c : Prop} (hm : Triple log P m Q) (hc : ∀ s, P s → c) :
    Triple log P m fun a s => Q a s ∧ c := by
  intro s
  obtain ⟨new, hlog, hpost⟩ := hm s
  exact ⟨new, hlog, fun hnew hs => ⟨hpost hnew hs, hc s hs⟩⟩

theorem get_bind {f : S → StateM S B}
    (hf : ∀ s₀, Triple log (fun s => s = s₀ ∧ P s) (f s₀) R) :
    Triple log P (get >>= f) R := by
  intro s
  obtain ⟨new, hlog, hpost⟩ := hf s s
  exact ⟨new, hlog, fun hnew hs => hpost hnew ⟨rfl, hs⟩⟩

theorem modify {f : S → S} {Q : PUnit → S → Prop} (hlog : ∀ s, log (f s) = log s)
    (h : ∀ s, P s → Q ⟨⟩ (f s)) : Triple log P (modify f) Q :=
  fun s => ⟨[], hlog s, fun _ hs => h s hs⟩

theorem ite {c : Prop} [Decidable c] {m' : StateM S A}
    (ht : c → Triple log P m Q) (hf : ¬ c → Triple log P m' Q) :
    Triple log P (if c then m else m') Q := by
  split
  · exact ht ‹_›
  · exact hf ‹_›

theorem whenever {c : Bool} {m : StateM S PUnit} {Q : PUnit → S → Prop}
    (ht : c = true → Triple log P m Q) (hf : c = false → ∀ s, P s → Q ⟨⟩ s) :
    Triple log P (whenever c m) Q := by
  cases c with
  | true => exact ht rfl
  | false => exact pure (hf rfl)

theorem discard {Q : S → Prop} (hm : Triple log P m fun _ => Q) :
    Triple log P (discard m) fun _ => Q := hm

end Triple

def Keeps (part : S → L) (m : StateM S A) : Prop := ∀ s, part (m s).2 = part s

namespace Keeps

variable {part : S → L} {m m' : StateM S A}

theorem pure (a : A) : Keeps part (pure a) := fun _ => rfl

theorem bind {f : A → StateM S B} (hm : Keeps part m) (hf : ∀ a, Keeps part (f a)) :
    Keeps part (m >>= f) := fun s => (hf _ _).trans (hm s)

theorem bind_ends {f : A → StateM S B} {R : B × S → Prop} {s : S} (hm : Keeps part m)
    (hf : ∀ a s', part s' = part s → R (f a s')) : R ((m >>= f) s) := hf _ _ (hm s)

theorem get_bind {f : S → StateM S B} (hf : ∀ s, Keeps part (f s)) : Keeps part (get >>= f) :=
  fun s => hf s s

theorem modify {f : S → S} (h : ∀ s, part (f s) = part s) : Keeps part (modify f) := h

theorem ite {c : Prop} [Decidable c] (ht : Keeps part m) (hf : Keeps part m') :
    Keeps part (if c then m else m') := by
  split
  · exact ht
  · exact hf

theorem whenever {c : Bool} {m : StateM S PUnit} (hm : Keeps part m) :
    Keeps part (whenever c m) := ite hm (pure _)

theorem forM {f : A → StateM S PUnit} (as : List A) (h : ∀ a, Keeps part (f a)) :
    Keeps part (as.forM f) := by
  induction as with
  | nil => exact pure _
  | cons a as ih => exact (h a).bind fun _ => ih

theorem triple {C : Type} {part : S → C} {log : S → List L} {P : C → Prop}
    (hm : Keeps (fun s => (part s, log s)) m) :
    Triple log (fun s => P (part s)) m fun _ s => P (part s) := by
  intro s
  refine ⟨[], congrArg Prod.snd (hm s), fun _ hs => ?_⟩
  have hpart : part (m s).2 = part s := congrArg Prod.fst (hm s)
  show P (part (m s).2)
  rwa [hpart]

end Keeps

end Sptag.Lib
