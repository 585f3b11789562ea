import Mathlib

/-! Threads in a list, of which one takes a step at a time. -/

namespace Sptag.Lib

variable {α : Type*} {p : α → Bool} {l : List α} {i : Nat} {a : α}

theorem countP_set_add (h : l[i]? = some a) (a' : α) :
    (l.set i a').countP p + (if p a then 1 else 0) = l.countP p + (if p a' then 1 else 0) := by
  obtain ⟨hlt, rfl⟩ := List.getElem?_eq_some_iff.mp h
  rw [List.countP_set hlt]
  split
  · rename_i hp
    have hpos : 0 < l.countP p := List.countP_pos_iff.mpr ⟨l[i], List.getElem_mem hlt, hp⟩
    omega
  · omega

theorem countP_set_eq {a' : α} (h : l[i]? = some a) (hp : p a' = p a) :
    (l.set i a').countP p = l.countP p := by
  have hset := countP_set_add (p := p) h a'
  rw [hp] at hset
  exact Nat.add_right_cancel hset

theorem countP_set_succ {a' : α} (h : l[i]? = some a) (hp : p a = false) (hp' : p a' = true) :
    (l.set i a').countP p = l.countP p + 1 := by
  have hset := countP_set_add (p := p) h a'
  rw [hp, hp'] at hset
  exact hset

theorem countP_set_pred {a' : α} (h : l[i]? = some a) (hp : p a = true) (hp' : p a' = false) :
    (l.set i a').countP p + 1 = l.countP p := by
  have hset := countP_set_add (p := p) h a'
  rw [hp, hp'] at hset
  exact hset

theorem map_set_eq {β : Type*} {f : α → β} {a' : α} (h : l[i]? = some a) (hf : f a' = f a) :
    (l.set i a').map f = l.map f := by
  apply List.ext_getElem?
  intro k
  rw [List.getElem?_map, List.getElem?_map]
  by_cases hk : i = k
  · rw [← hk, List.getElem?_set_self (List.getElem?_eq_some_iff.mp h).1, h]
    exact congrArg some hf
  · rw [List.getElem?_set_ne hk]

theorem getElem?_concat {x : α} (h : (l ++ [x])[i]? = some a) :
    l[i]? = some a ∨ i = l.length ∧ a = x := by
  rw [List.getElem?_append] at h
  split at h
  · exact .inl h
  · rename_i hge
    obtain ⟨hlt, rfl⟩ := List.getElem?_eq_some_iff.mp h
    have hzero : i - l.length = 0 := Nat.lt_one_iff.mp hlt
    refine .inr ⟨by omega, ?_⟩
    simp only [hzero, List.getElem_cons_zero]

end Sptag.Lib
