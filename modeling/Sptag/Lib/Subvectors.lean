import Sptag.Lib.Buffer

/-! Vectors cut into subvectors of one length, and their squared distance. -/

namespace Sptag.Lib

variable {T : Type*} {l : List T} {n i m : Nat}

def slice (n : Nat) (l : List T) (i : Nat) : List T := (l.drop (i * n)).take n

theorem take_drop_eq_slice : (l.drop (i * n)).take n = slice n l i := rfl

theorem slice_le (h : i < m) (hl : m * n ≤ l.length) : i * n + n ≤ l.length := by
  rw [← Nat.succ_mul]
  exact (Nat.mul_le_mul_right n h).trans hl

theorem length_slice (h : i < m) (hl : m * n ≤ l.length) : (slice n l i).length = n := by
  have hle := slice_le h hl
  rw [slice, List.length_take, List.length_drop]
  omega

theorem slice_flatMap {f : Nat → List T} (hf : ∀ i < m, (f i).length = n) (hi : i < m) :
    slice n ((List.range m).flatMap f) i = f i := by
  have hholds := holdsAt_flatMap (fun b hb => hf b (List.mem_range.mp hb)) (List.getElem?_range hi)
  obtain ⟨front, back, heq, hlen⟩ := hholds
  rw [slice, heq, ← hlen, List.append_assoc, List.drop_left, List.take_left' (hf i hi)]

section Distance

variable {R : Type*} [CommRing R] (val : T → R) {x y x' y' : List T}

def sqDist (x y : List T) : R :=
  (List.zipWith (fun a b => (val a - val b) * (val a - val b)) x y).sum

@[simp] theorem sqDist_nil : sqDist val [] y = 0 := by simp [sqDist]

@[simp] theorem sqDist_cons (a b : T) : sqDist val (a :: x) (b :: y) =
    (val a - val b) * (val a - val b) + sqDist val x y := by
  simp [sqDist]

theorem sqDist_append (h : x.length = y.length) :
    sqDist val (x ++ x') (y ++ y') = sqDist val x y + sqDist val x' y' := by
  rw [sqDist, List.zipWith_append h, List.sum_append, sqDist, sqDist]

theorem sqDist_slices (hx : m * n ≤ x.length) (hy : m * n ≤ y.length) :
    sqDist val (x.take (m * n)) (y.take (m * n)) =
      ∑ i ∈ Finset.range m, sqDist val (slice n x i) (slice n y i) := by
  induction m with
  | zero => simp
  | succ m ih =>
    have hle : m * n ≤ (m + 1) * n := Nat.mul_le_mul_right n m.le_succ
    rw [Finset.sum_range_succ, ← ih (hle.trans hx) (hle.trans hy), Nat.succ_mul, List.take_add,
      List.take_add, sqDist_append val, slice, slice]
    rw [List.length_take, List.length_take, min_eq_left (hle.trans hx), min_eq_left (hle.trans hy)]

end Distance

end Sptag.Lib
