import Sptag.Lib.Triple
import Sptag.Lib.Run

/-! State-passing programs that only move their state up in a preorder. -/

namespace Sptag.Lib

variable {S A B E : Type} [Preorder S]

def Rises (m : StateM S A) : Prop := ∀ s, s ≤ (m s).2

theorem le_run {step : S → E → S} (h : ∀ s e, s ≤ step s e) (s : S) (es : List E) :
    s ≤ run step s es := by
  induction es generalizing s with
  | nil => exact le_refl s
  | cons e es ih => exact (h s e).trans (ih _)

namespace Rises

variable {m m' : StateM S A}

theorem pure (a : A) : Rises (pure a : StateM S A) := fun s => le_refl s

theorem bind {f : A → StateM S B} (hm : Rises m) (hf : ∀ a, Rises (f a)) : Rises (m >>= f) :=
  fun s => (hm s).trans (hf _ _)

theorem get_bind {f : S → StateM S B} (hf : ∀ s, Rises (f s)) : Rises (get >>= f) :=
  fun s => hf s s

theorem get_bind_at {f : S → StateM S B} (hf : ∀ s, s ≤ (f s s).2) : Rises (get >>= f) := hf

theorem modify {f : S → S} (h : ∀ s, s ≤ f s) : Rises (modify f) := h

theorem discard (hm : Rises m) : Rises (discard m) := hm

theorem ite {c : Prop} [Decidable c] (ht : Rises m) (hf : Rises m') :
    Rises (if c then m else m') := by
  split
  · exact ht
  · exact hf

theorem whenever {c : Bool} {m : StateM S PUnit} (hm : Rises m) : Rises (whenever c m) :=
  ite hm (pure _)

theorem forM {f : A → StateM S PUnit} (as : List A) (h : ∀ a, Rises (f a)) :
    Rises (as.forM f) := by
  induction as with
  | nil => exact pure _
  | cons a as ih => exact (h a).bind fun _ => ih

end Rises

end Sptag.Lib
