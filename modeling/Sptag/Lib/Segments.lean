import Sptag.Lib.Subdivide

/-! Segments of an array that are put in another order, and arrays that grow at their end. -/

namespace Sptag.Lib.Slots

variable {α : Type}

def push (s : Slots α) (x : α) : Slots α := ⟨s.size + 1, Function.update s.cell s.size x⟩

def put (s : Slots α) (i : Nat) (x : α) : Slots α := { s with cell := Function.update s.cell i x }

def sort (le : α → α → Bool) (s : Slots α) (first n : Nat) : Slots α where
  size := s.size
  cell k := if first ≤ k ∧ k < n then ((s.range first n).mergeSort le).getD (k - first) (s.cell k)
    else s.cell k

structure Reordered (first n : Nat) (s s' : Slots α) : Prop where
  size : s'.size = s.size
  outside : ∀ k, k < first ∨ n ≤ k → s'.cell k = s.cell k
  perm : (s'.range first n).Perm (s.range first n)

structure Extends (s s' : Slots α) (xs : List α) : Prop where
  size : s'.size = s.size + xs.length
  before : ∀ k < s.size, s'.cell k = s.cell k
  behind : s'.range s.size s'.size = xs

variable {s s' s'' : Slots α} {first first' n n' k : Nat} {xs ys : List α}

theorem cell_eq_of_range {i : Nat} (h : s.range first n = xs) (hi : i < xs.length) :
    s.cell (first + i) = xs[i] := by
  subst h
  simp [range]

@[simp] theorem range_self : s.range n n = [] := by
  rw [range, Nat.sub_self, List.range'_zero, List.map_nil]

theorem range_eq_cons (h : first < n) : s.range first n =
    s.cell first :: s.range (first + 1) n := by
  rw [← range_append (Nat.le_succ first) h, range_one, List.singleton_append]

theorem range_eq_concat (h : first ≤ n) : s.range first (n + 1) = s.range first n ++
    [s.cell n] := by
  rw [← range_append h (Nat.le_succ n), range_one]

namespace Reordered

theorem refl (s : Slots α) : Reordered first n s s := ⟨rfl, fun _ _ => rfl, .refl _⟩

theorem trans (h : Reordered first n s s') (h' : Reordered first n s' s'') :
    Reordered first n s s'' :=
  ⟨h'.size.trans h.size, fun k hk => (h'.outside k hk).trans (h.outside k hk), h'.perm.trans h.perm⟩

theorem range_left (h : Reordered first n s s') (hn : n' ≤ first) :
    s'.range first' n' = s.range first' n' :=
  range_congr fun k _ hk => h.outside k (.inl (hk.trans_le hn))

theorem range_right (h : Reordered first n s s') (hn : n ≤ first') :
    s'.range first' n' = s.range first' n' :=
  range_congr fun k hk _ => h.outside k (.inr (hn.trans hk))

theorem mono (h : Reordered first n s s') (hfirst : first' ≤ first) (hle : first ≤ n)
    (hn : n ≤ n') : Reordered first' n' s s' where
  size := h.size
  outside k hk := h.outside k (hk.imp (·.trans_le hfirst) hn.trans)
  perm := by
    rw [← range_append (hfirst.trans hle) hn, ← range_append hfirst hle,
      ← range_append (hfirst.trans hle) hn, ← range_append hfirst hle, h.range_left le_rfl,
      h.range_right le_rfl]
    exact (h.perm.append_left _).append_right _

theorem forall_cell {P : α → Prop} (h : Reordered first n s s') (hn : n ≤ s.size)
    (hP : ∀ k < s.size, P (s.cell k)) : ∀ k < s'.size, P (s'.cell k) := by
  intro k hk
  by_cases hin : first ≤ k ∧ k < n
  · obtain ⟨k', -, hk', heq⟩ := mem_range.mp
      (h.perm.mem_iff.mp (mem_range.mpr ⟨k, hin.1, hin.2, rfl⟩))
    exact heq ▸ hP k' (hk'.trans_le hn)
  · rw [h.outside k (by omega)]
    exact hP k (h.size ▸ hk)

end Reordered

theorem range_sort (le : α → α → Bool) (s : Slots α) (first n : Nat) :
    (s.sort le first n).range first n = (s.range first n).mergeSort le := by
  refine List.ext_getElem (by rw [List.length_mergeSort, length_range, length_range])
    fun i hi hi' => ?_
  rw [length_range] at hi
  rw [← cell_eq_of_range rfl (by rwa [length_range]), sort]
  dsimp only
  rw [if_pos (by omega), Nat.add_sub_cancel_left, List.getD_eq_getElem _ _ hi']

theorem reordered_sort (le : α → α → Bool) (s : Slots α) (first n : Nat) :
    Reordered first n s (s.sort le first n) where
  size := rfl
  outside k hk := if_neg (by omega)
  perm := by
    rw [range_sort]
    exact List.mergeSort_perm _ _

@[simp] theorem size_put {i : Nat} {x : α} : (s.put i x).size = s.size := rfl

@[simp] theorem cell_put {i : Nat} {x : α} : (s.put i x).cell i = x := Function.update_self ..

theorem cell_put_of_ne {i : Nat} {x : α} (hk : k ≠ i) : (s.put i x).cell k = s.cell k :=
  Function.update_of_ne hk ..

@[simp] theorem put_cell (s : Slots α) (i : Nat) : s.put i (s.cell i) = s := by
  rw [put, Function.update_eq_self]

@[simp] theorem put_put (s : Slots α) (i : Nat) (x y : α) : (s.put i x).put i y = s.put i y := by
  simp only [put, Function.update_idem]

@[simp] theorem size_push {x : α} : (s.push x).size = s.size + 1 := rfl

@[simp] theorem cell_push {x : α} : (s.push x).cell s.size = x := Function.update_self ..

theorem cell_push_of_lt {x : α} (hk : k < s.size) : (s.push x).cell k = s.cell k :=
  Function.update_of_ne hk.ne ..

theorem extends_push (x : α) : Extends s (s.push x) [x] where
  size := rfl
  before _ hk := cell_push_of_lt hk
  behind := by rw [size_push, range_one, cell_push]

namespace Extends

theorem refl (s : Slots α) : Extends s s [] := ⟨rfl, fun _ _ => rfl, range_self⟩

theorem size_le (h : Extends s s' xs) : s.size ≤ s'.size := h.size ▸ Nat.le_add_right ..

theorem trans (h : Extends s s' xs) (h' : Extends s' s'' ys) : Extends s s'' (xs ++ ys) where
  size := by rw [h'.size, h.size, List.length_append, Nat.add_assoc]
  before k hk := (h'.before k (hk.trans_le h.size_le)).trans (h.before k hk)
  behind := by
    rw [← range_append h.size_le h'.size_le, h'.behind,
      range_congr fun k _ hk => h'.before k hk, h.behind]

end Extends

end Sptag.Lib.Slots
