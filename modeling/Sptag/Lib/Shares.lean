import Mathlib

/-! A range of `n` numbers cut into `k` shares of `⌈n / k⌉` numbers each, the last ones
shorter, empty, or beyond the end. -/

namespace Sptag.Lib

variable {n k i : Nat}

def share (n k : Nat) : Nat := (n + k - 1) / k

def shareStart (n k i : Nat) : Nat := i * share n k

def shareEnd (n k i : Nat) : Nat := min n ((i + 1) * share n k)

def Divides (n k : Nat) : Prop := (k - 1) * share n k ≤ n

instance (n k : Nat) : Decidable (Divides n k) := inferInstanceAs (Decidable (_ ≤ _))

theorem divides_one (n : Nat) : Divides n 1 := by
  rw [Divides, Nat.sub_self, Nat.zero_mul]
  exact Nat.zero_le n

theorem le_mul_share (hk : 0 < k) : n ≤ k * share n k := by
  have hdiv := Nat.div_add_mod (n + k - 1) k
  have hmod := Nat.mod_lt (n + k - 1) hk
  rw [share]
  omega

@[simp] theorem shareStart_zero (n k : Nat) : shareStart n k 0 = 0 := Nat.zero_mul _

theorem shareStart_le (h : Divides n k) (hi : i < k) : shareStart n k i ≤ n :=
  (Nat.mul_le_mul_right _ (Nat.le_sub_one_of_lt hi)).trans h

theorem shareStart_le_shareEnd (h : Divides n k) (hi : i < k) :
    shareStart n k i ≤ shareEnd n k i :=
  le_min (shareStart_le h hi) (Nat.mul_le_mul_right _ (Nat.le_succ i))

theorem shareEnd_le : shareEnd n k i ≤ n := min_le_left _ _

theorem shareEnd_eq (h : Divides n k) (hi : i + 1 < k) :
    shareEnd n k i = shareStart n k (i + 1) := min_eq_right (shareStart_le h hi)

theorem shareEnd_last (hk : 0 < k) : shareEnd n k (k - 1) = n := by
  rw [shareEnd, Nat.sub_add_cancel hk]
  exact min_eq_left (le_mul_share hk)

theorem range_append_range' {a c : Nat} (h : a ≤ c) :
    List.range a ++ List.range' a (c - a) = List.range c := by
  have happend := @List.range'_append_1 0 a (c - a)
  rw [Nat.zero_add, Nat.add_sub_cancel' h] at happend
  rw [List.range_eq_range', List.range_eq_range', happend]

theorem flatMap_range_shares (h : Divides n k) (hi : i < k) :
    ((List.range i).flatMap fun i =>
      List.range' (shareStart n k i) (shareEnd n k i - shareStart n k i)) =
      List.range (shareStart n k i) := by
  induction i with
  | zero => simp
  | succ i ih =>
    have hlt := Nat.lt_of_succ_lt hi
    rw [List.range_succ, List.flatMap_append, ih hlt, List.flatMap_singleton, ← shareEnd_eq h hi]
    exact range_append_range' (shareStart_le_shareEnd h hlt)

theorem flatMap_shares (h : Divides n k) (hk : 0 < k) :
    ((List.range k).flatMap fun i =>
      List.range' (shareStart n k i) (shareEnd n k i - shareStart n k i)) = List.range n := by
  obtain ⟨m, rfl⟩ := Nat.exists_eq_succ_of_ne_zero hk.ne'
  have hlast : shareEnd n (m + 1) m = n := shareEnd_last hk
  have hle := shareStart_le_shareEnd h (Nat.lt_succ_self m)
  rw [hlast] at hle
  rw [List.range_succ, List.flatMap_append, flatMap_range_shares h (Nat.lt_succ_self m),
    List.flatMap_singleton, hlast]
  exact range_append_range' hle

theorem mem_share_iff {p : Nat} (hp : p < n) (hk : 0 < k) :
    shareStart n k i ≤ p ∧ p < shareEnd n k i ↔ i = p / share n k := by
  have hpos : 0 < share n k := by
    rcases Nat.eq_zero_or_pos (share n k) with h | h
    · have := le_mul_share (n := n) hk
      rw [h] at this
      omega
    · exact h
  rw [shareStart, shareEnd, lt_min_iff, eq_comm (a := i), Nat.div_eq_iff hpos]
  rw [Nat.succ_mul]
  constructor
  · rintro ⟨hle, -, hlt⟩
    omega
  · rintro ⟨hle, hlt⟩
    omega

theorem div_share_lt {p : Nat} (hp : p < n) (hk : 0 < k) : p / share n k < k := by
  have := le_mul_share (n := n) hk
  exact Nat.div_lt_of_lt_mul (by rw [Nat.mul_comm]; omega)

end Sptag.Lib
