import Mathlib

/-! Byte strings, their bytewise order, and fixed-width little-endian integers. -/

namespace Sptag.Lib

abbrev Bytes := List UInt8

instance instLinearOrderUInt8 : LinearOrder UInt8 where
  le_refl := UInt8.le_refl
  le_trans := fun _ _ _ => UInt8.le_trans
  le_antisymm := fun _ _ => UInt8.le_antisymm
  le_total := UInt8.le_total
  lt_iff_le_not_ge := by
    intro a b
    simp only [UInt8.lt_iff_toNat_lt, UInt8.le_iff_toNat_le]
    omega
  toDecidableLE := inferInstance
  toDecidableLT := inferInstance
  toDecidableEq := inferInstance
  compare_eq_compareOfLessAndEq := by
    intro a b
    simp [compare]
  min_def := by intro a b; rfl
  max_def := by intro a b; rfl

def leBytes : Nat → Nat → Bytes
  | 0, _ => []
  | w + 1, n => UInt8.ofNat n :: leBytes w (n / 256)

def leVal : Bytes → Nat
  | [] => 0
  | b :: bs => b.toNat + 256 * leVal bs

@[simp] theorem leBytes_length (w n : Nat) : (leBytes w n).length = w := by
  induction w generalizing n with
  | zero => rfl
  | succ w ih => simp [leBytes, ih]

@[simp] theorem leVal_leBytes (w n : Nat) : leVal (leBytes w n) = n % 256 ^ w := by
  induction w generalizing n with
  | zero => simp [leBytes, leVal, Nat.mod_one]
  | succ w ih =>
    have hb : (UInt8.ofNat n).toNat = n % 256 := UInt8.toNat_ofNat'
    rw [leBytes, leVal, ih, hb, pow_succ', Nat.mod_mul]

theorem leVal_leBytes_of_lt {w n : Nat} (h : n < 256 ^ w) : leVal (leBytes w n) = n := by
  rw [leVal_leBytes, Nat.mod_eq_of_lt h]

theorem leBytes_inj {w m n : Nat} (hm : m < 256 ^ w) (hn : n < 256 ^ w) :
    leBytes w m = leBytes w n ↔ m = n := by
  constructor
  · intro h
    have := congrArg leVal h
    rwa [leVal_leBytes_of_lt hm, leVal_leBytes_of_lt hn] at this
  · rintro rfl
    rfl

theorem leBytes_zero_le (w n : Nat) : leBytes w 0 ≤ leBytes w n := by
  induction w generalizing n with
  | zero => exact le_refl _
  | succ w ih =>
    simp only [leBytes, Nat.zero_div]
    rcases UInt8.le_total (UInt8.ofNat n) 0 with h | h
    · have h0 : UInt8.ofNat n = 0 := UInt8.le_antisymm h (UInt8.le_iff_toNat_le.mpr (Nat.zero_le _))
      rw [h0]
      exact List.cons_le_cons _ (ih _)
    · rcases eq_or_lt_of_le h with h | h
      · rw [← h]
        exact List.cons_le_cons _ (ih _)
      · exact le_of_lt (List.Lex.rel h)

theorem leBytes_lt_iff_of_lt {w m n : Nat} (hm : m < 256) (hn : n < 256) :
    leBytes (w + 1) m < leBytes (w + 1) n ↔ m < n := by
  have hm' : m / 256 = 0 := Nat.div_eq_of_lt hm
  have hn' : n / 256 = 0 := Nat.div_eq_of_lt hn
  simp only [leBytes, hm', hn', List.cons_lt_cons_iff, lt_self_iff_false, and_false, or_false,
    UInt8.lt_iff_toNat_lt, UInt8.toNat_ofNat', Nat.mod_eq_of_lt hm, Nat.mod_eq_of_lt hn]

theorem leBytes_le_iff_of_lt {w m n : Nat} (hm : m < 256) (hn : n < 256) :
    leBytes (w + 1) m ≤ leBytes (w + 1) n ↔ m ≤ n := by
  rw [← not_lt, leBytes_lt_iff_of_lt hn hm, not_lt]

def beVal : Bytes → Nat
  | [] => 0
  | b :: bs => b.toNat * 256 ^ bs.length + beVal bs

theorem beVal_lt (bs : Bytes) : beVal bs < 256 ^ bs.length := by
  induction bs with
  | nil => exact Nat.one_pos
  | cons b bs ih =>
    have hb : b.toNat < 256 := b.toNat_lt
    rw [beVal, List.length_cons, pow_succ']
    nlinarith

theorem digit_lt_iff {a b x y w : Nat} (hx : x < w) (hy : y < w) :
    a * w + x < b * w + y ↔ a < b ∨ a = b ∧ x < y := by
  rcases lt_trichotomy a b with hlt | rfl | hgt
  · have hle : (a + 1) * w ≤ b * w := Nat.mul_le_mul_right w hlt
    rw [Nat.succ_mul] at hle
    exact iff_of_true (by omega) (Or.inl hlt)
  · simp
  · have hle : (b + 1) * w ≤ a * w := Nat.mul_le_mul_right w hgt
    rw [Nat.succ_mul] at hle
    exact iff_of_false (by omega) (by omega)

theorem lt_iff_beVal_lt {as bs : Bytes} (h : as.length = bs.length) :
    as < bs ↔ beVal as < beVal bs := by
  induction as generalizing bs with
  | nil =>
    cases bs with
    | nil => simp [beVal]
    | cons b bs => cases h
  | cons a as ih =>
    cases bs with
    | nil => cases h
    | cons b bs =>
      have hlen : as.length = bs.length := Nat.succ.inj h
      have ha : beVal as < 256 ^ bs.length := hlen ▸ beVal_lt as
      rw [List.cons_lt_cons_iff, ih hlen, beVal, beVal, hlen, digit_lt_iff ha (beVal_lt bs),
        UInt8.lt_iff_toNat_lt, UInt8.toNat_inj]

theorem append_lt_append_iff (p as bs : Bytes) : p ++ as < p ++ bs ↔ as < bs := by
  induction p with
  | nil => rfl
  | cons b p ih => simp [ih]

end Sptag.Lib
