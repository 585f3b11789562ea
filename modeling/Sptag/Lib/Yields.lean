import Mathlib

/-! Postconditions of programs that may fail: what is returned is as promised, and something is
returned where nothing outside of them can fail. -/

namespace Sptag.Lib

variable {A B S I : Type} {sure : Prop} {x : Option A} {P P' : A → Prop} {Q : B → Prop}

structure Yields (sure : Prop) (x : Option A) (P : A → Prop) : Prop where
  right : ∀ a, x = some a → P a
  returns : sure → x.isSome

namespace Yields

theorem of_exists (h : ∃ a, x = some a ∧ P a) : Yields sure x P := by
  obtain ⟨a, rfl, ha⟩ := h
  exact ⟨fun b hb => Option.some.inj hb ▸ ha, fun _ => rfl⟩

theorem pure {a : A} (h : P a) : Yields sure (some a) P := of_exists ⟨a, rfl, h⟩

theorem exists_of_sure (h : Yields sure x P) (hsure : sure) : ∃ a, x = some a ∧ P a := by
  obtain ⟨a, ha⟩ := Option.isSome_iff_exists.mp (h.returns hsure)
  exact ⟨a, ha, h.right a ha⟩

theorem mono (h : Yields sure x P) (hP : ∀ a, P a → P' a) : Yields sure x P' :=
  ⟨fun a ha => hP a (h.right a ha), h.returns⟩

theorem weaken {sure' : Prop} (h : Yields sure x P) (hsure : sure' → sure) : Yields sure' x P :=
  ⟨h.right, fun h' => h.returns (hsure h')⟩

theorem bind {f : A → Option B} (h : Yields sure x P) (hf : ∀ a, P a → Yields sure (f a) Q) :
    Yields sure (x >>= f) Q := by
  cases x with
  | none => exact ⟨fun b hb => (nomatch hb), fun hsure => (nomatch h.returns hsure)⟩
  | some a => exact hf a (h.right a rfl)

theorem bind_of_eq {a : A} {f : A → Option B} (h : x = some a) (hf : Yields sure (f a) Q) :
    Yields sure (x >>= f) Q := by
  subst h
  exact hf

theorem of_ite {c : Prop} [Decidable c] {y : Option A} (hx : c → Yields sure x P)
    (hy : ¬ c → Yields sure y P) : Yields sure (if c then x else y) P := by
  split
  · rename_i hc
    exact hx hc
  · rename_i hc
    exact hy hc

end Yields

end Sptag.Lib
