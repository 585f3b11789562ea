import Mathlib

/-! Runs of a deterministic step function over a list of events, properties of
every state a run reaches, and the rules that lift them from one step. -/

namespace Sptag.Lib

variable {S E : Type*} (step : S → E → S)

def run (s : S) (es : List E) : S := es.foldl step s

def Along (ok : S → E → Prop) : S → List E → Prop
  | _, [] => True
  | s, e :: es => ok s e ∧ Along ok (step s e) es

def Throughout (P : S → Prop) : S → List E → Prop
  | s, [] => P s
  | s, e :: es => P s ∧ Throughout P (step s e) es

variable {step}

instance Along.decidable {ok : S → E → Prop} [∀ s e, Decidable (ok s e)] (s : S) (es : List E) :
    Decidable (Along step ok s es) :=
  match es with
  | [] => .isTrue trivial
  | e :: es => @instDecidableAnd _ _ _ (Along.decidable (step s e) es)

@[simp] theorem run_nil (s : S) : run step s [] = s := rfl

@[simp] theorem run_cons (s : S) (e : E) (es : List E) :
    run step s (e :: es) = run step (step s e) es := rfl

theorem run_append (s : S) (es es' : List E) :
    run step s (es ++ es') = run step (run step s es) es' := List.foldl_append

theorem Throughout.mono {P Q : S → Prop} (hPQ : ∀ s, P s → Q s) {s : S} {es : List E}
    (h : Throughout step P s es) : Throughout step Q s es := by
  induction es generalizing s with
  | nil => exact hPQ s h
  | cons e es ih => exact ⟨hPQ s h.1, ih h.2⟩

theorem Throughout.last {P : S → Prop} {s : S} {es : List E} (h : Throughout step P s es) :
    P (run step s es) := by
  induction es generalizing s with
  | nil => exact h
  | cons e es ih => exact ih h.2

theorem Along.throughout {ok : S → E → Prop} {Inv : S → Prop}
    (hstep : ∀ s e, ok s e → Inv s → Inv (step s e)) {s : S} {es : List E}
    (hok : Along step ok s es) (hs : Inv s) : Throughout step Inv s es := by
  induction es generalizing s with
  | nil => exact hs
  | cons e es ih => exact ⟨hs, ih hok.2 (hstep s e hok.1 hs)⟩

theorem run_keeps {P : S → Prop} (hstep : ∀ s e, P s → P (step s e)) (es : List E) {s : S}
    (hs : P s) : P (run step s es) := by
  induction es generalizing s with
  | nil => exact hs
  | cons e es ih => exact ih (hstep s e hs)

theorem run_simulates {T : Type*} {step' : T → E → T} {R : S → T → Prop}
    (hstep : ∀ s t e, R s t → R (step s e) (step' t e)) (es : List E) {s : S} {t : T}
    (h : R s t) : R (run step s es) (run step' t es) := by
  induction es generalizing s t with
  | nil => exact h
  | cons e es ih => exact ih (hstep s t e h)

/-- A monitor of the events splits the runs: they are `Clean` while every event is
admitted, and `Spoiled` for good from the first one that is not. -/
theorem run_clean_or_spoiled {N : Type*} {count : N → E → N} {ok : N → E → Prop}
    {Clean Spoiled : S → N → Prop}
    (hclean : ∀ s n e, Clean s n → ok n e → Clean (step s e) (count n e))
    (hbreak : ∀ s n e, Clean s n → ¬ ok n e → Spoiled (step s e) (count n e))
    (hspoiled : ∀ s n e, Spoiled s n → Spoiled (step s e) (count n e))
    {s : S} {n : N} (es : List E) (hs : Clean s n) :
    (Along count ok n es → Clean (run step s es) (run count n es)) ∧
      (¬ Along count ok n es → Spoiled (run step s es) (run count n es)) := by
  induction es generalizing s n with
  | nil => exact ⟨fun _ => hs, fun h => absurd trivial h⟩
  | cons e es ih =>
    by_cases hok : ok n e
    · obtain ⟨hc, hsp⟩ := ih (hclean s n e hs hok)
      exact ⟨fun h => hc h.2, fun h => hsp fun hes => h ⟨hok, hes⟩⟩
    · exact ⟨fun h => absurd h.1 hok, fun _ => run_simulates hspoiled es (hbreak s n e hs hok)⟩

variable {T A : Type*}

def answers (serve : S → E → A × S) : S → List E → List A
  | _, [] => []
  | s, e :: es => (serve s e).1 :: answers serve (serve s e).2 es

theorem answers_append (serve : S → E → A × S) (s : S) (es es' : List E) :
    answers serve s (es ++ es') =
      answers serve s es ++ answers serve (run (fun s e => (serve s e).2) s es) es' := by
  induction es generalizing s with
  | nil => rfl
  | cons e es ih => exact congrArg _ (ih _)

def both (serve : S → E → A × S) (serve' : T → E → A × T) (p : S × T) (e : E) : S × T :=
  ((serve p.1 e).2, (serve' p.2 e).2)

theorem Along.beside {R : Type*} {serve : S → E → A × S} {serve' : T → E → A × T}
    {ok : S × T → E → Prop} {s : S} {t : T} {es : List E}
    (h : Along (both serve serve') ok (s, t) es) (ok' : T → E → Prop)
    (hok : ∀ p e, ok p e → ok' p.2 e) (serve'' : R → E → A × R) (r : R) :
    Along (both serve'' serve') (fun p e => ok' p.2 e) (r, t) es := by
  induction es generalizing s t r with
  | nil => trivial
  | cons e es ih => exact ⟨hok _ e h.1, ih h.2 _⟩

theorem answers_eq {serve : S → E → A × S} {serve' : T → E → A × T} {R : S → T → Prop}
    {ok : S × T → E → Prop}
    (hstep : ∀ s t e, ok (s, t) e → R s t →
      (serve s e).1 = (serve' t e).1 ∧ R (serve s e).2 (serve' t e).2)
    {s : S} {t : T} {es : List E} (hok : Along (both serve serve') ok (s, t) es) (hR : R s t) :
    answers serve s es = answers serve' t es := by
  induction es generalizing s t with
  | nil => rfl
  | cons e es ih =>
    obtain ⟨hans, hR'⟩ := hstep s t e hok.1 hR
    rw [answers, answers, hans, ih hok.2 hR']

/-- The simulation rule with the condition under which it applies: the answers part at the first
event that does not meet it. -/
theorem answers_eq_iff {serve : S → E → A × S} {serve' : T → E → A × T} {R : S → T → Prop}
    {ok : S → E → Prop}
    (hstep : ∀ s t e, ok s e → R s t →
      (serve s e).1 = (serve' t e).1 ∧ R (serve s e).2 (serve' t e).2)
    (hpart : ∀ s t e, ¬ ok s e → R s t → (serve s e).1 ≠ (serve' t e).1) {s : S}
    {t : T} (es : List E)
    (hR : R s t) : answers serve s es = answers serve' t es ↔
      Along (fun s e => (serve s e).2) ok s es := by
  induction es generalizing s t with
  | nil => exact ⟨fun _ => trivial, fun _ => rfl⟩
  | cons e es ih =>
    rw [answers, answers, List.cons.injEq]
    by_cases hok : ok s e
    · obtain ⟨hans, hR'⟩ := hstep s t e hok hR
      exact and_congr (iff_of_true hans hok) (ih hR')
    · exact ⟨fun h => absurd h.1 (hpart s t e hok hR), fun h => absurd h.1 hok⟩

end Sptag.Lib
