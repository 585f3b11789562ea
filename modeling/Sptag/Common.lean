import Mathlib

/-! The basic vocabulary of `inc/Core/Common.h`. -/

namespace Sptag

inductive ErrorCode
  | success
  | fail
  | failedOpenFile
  | failedCreateFile
  | memoryOverFlow
  | vectorNotFound
  | emptyIndex
  | emptyData
  | dimensionSizeMismatch
  | diskIOFail
  | keyOverFlow
  | keyNotFound
  | postingOverFlow
  | postingSizeError
  | blockIDError
  deriving DecidableEq, Repr

def PageSize : Nat := 4096

def pages (n : Nat) : Nat := (n + (PageSize - 1)) / PageSize

theorem pages_eq (n : Nat) : pages n = (n + 4095) / 4096 := rfl

def toInt (n : Int) : Int := Int.bmod n (2 ^ 32)

/-- The conversion of a count to an index of type `SizeType`; a negative one is out of range. -/
def toIndex (n : Nat) : Option Nat := if toInt n < 0 then none else some (toInt n).toNat

def toSize (n : Int) : Nat := (n % 2 ^ 64).toNat

theorem toInt_eq {n : Int} (h : 0 ≤ n) (hlt : n < 2 ^ 31) : toInt n = n := by
  rw [toInt, Int.bmod_eq_of_le]
  · omega
  · omega

theorem toInt_le {n : Int} (h : 0 ≤ n) : toInt n ≤ n := by
  rw [toInt, Int.bmod]
  omega

theorem toInt_of_lt {n : Nat} (h : n < 2 ^ 31) : toInt n = n :=
  toInt_eq (Int.natCast_nonneg n) (by omega)

theorem toIndex_of_lt {n : Nat} (h : n < 2 ^ 31) : toIndex n = some n := by
  rw [toIndex, toInt_of_lt h, if_neg (Int.natCast_nonneg n).not_gt, Int.toNat_natCast]

theorem toSize_of_lt {n : Nat} (h : n < 2 ^ 64) : toSize n = n := by
  unfold toSize
  omega

end Sptag
