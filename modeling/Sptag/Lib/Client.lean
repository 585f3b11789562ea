import Sptag.Lib.Run

/-! Programs that call a server, the run of one of them alone, and the interleavings of
two of them against the same server. -/

namespace Sptag.Lib

/-- A program that makes calls `Q`, each answered by an `R q`, and returns an `A`. -/
inductive Prog (Q : Type) (R : Q → Type) (A : Type)
  | ret (a : A)
  | ask (q : Q) (k : R q → Prog Q R A)

namespace Prog

variable {Q : Type} {R : Q → Type} {A B S : Type}

def bind : Prog Q R A → (A → Prog Q R B) → Prog Q R B
  | ret a, f => f a
  | ask q k, f => ask q fun r => (k r).bind f

def exec (serve : S → (q : Q) → R q × S) : Prog Q R A → S → A × S
  | ret a, s => (a, s)
  | ask q k, s => exec serve (k (serve s q).1) (serve s q).2

theorem exec_bind (serve : S → (q : Q) → R q × S) (p : Prog Q R A) (f : A → Prog Q R B) (s : S) :
    (p.bind f).exec serve s = (f (p.exec serve s).1).exec serve (p.exec serve s).2 := by
  induction p generalizing s with
  | ret a => rfl
  | ask q k ih => exact ih _ _

def call (serve : S → (q : Q) → R q × S) : Prog Q R A → S → Prog Q R A × S
  | ret a, s => (ret a, s)
  | ask q k, s => (k (serve s q).1, (serve s q).2)

end Prog

structure Shared (Q : Type) (R : Q → Type) (A S : Type) where
  client : Bool → Prog Q R A
  server : S

namespace Shared

variable {Q : Type} {R : Q → Type} {A S : Type}

def step (serve : S → (q : Q) → R q × S) (w : Shared Q R A S) (who : Bool) : Shared Q R A S :=
  let r := (w.client who).call serve w.server
  ⟨Function.update w.client who r.1, r.2⟩

def Returned (w : Shared Q R A S) (a : A) : Prop := ∀ who, w.client who = .ret a

variable {serve : S → (q : Q) → R q × S} {w : Shared Q R A S}

theorem step_of_ret {who : Bool} {a : A} (h : w.client who = .ret a) : w.step serve who = w := by
  simp only [step, h, Prog.call]
  rw [← h, Function.update_eq_self]

theorem run_of_ret {who : Bool} {a : A} (h : w.client who = .ret a) (schedule : List Bool) :
    (run (step serve) w schedule).client who = .ret a := by
  refine run_keeps (P := fun w : Shared Q R A S => w.client who = .ret a) ?_ schedule h
  intro w b hb
  by_cases hne : who = b
  · subst hne
    rwa [step_of_ret hb]
  · simpa [step, hne] using hb

end Shared

def tally (n : Bool → Nat) (who : Bool) : Bool → Nat := Function.update n who (n who + 1)

def Apart (n : Bool → Nat) (who : Bool) : Prop := n who = 0 → n (!who) ≠ 1

def Serial (schedule : List Bool) : Prop := Along tally Apart (fun _ => 0) schedule

@[simp] theorem tally_self (n : Bool → Nat) (who : Bool) : tally n who who = n who + 1 := by
  simp [tally]

@[simp] theorem tally_not (n : Bool → Nat) (who : Bool) : tally n who (!who) = n (!who) := by
  simp [tally]

end Sptag.Lib
