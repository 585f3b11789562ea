import Sptag.Lib.Subvectors

/-! `inc/Core/Common/DistanceUtils.h`: the squared distance of two vectors, over exact numbers. -/

namespace Sptag.COMMON.DistanceUtils

open Lib

variable {T R : Type} [CommRing R] (val : T → R)

def addSquares : Nat → List T → List T → R → Option (R × List T × List T)
  | 0, pX, pY, diff => some (diff, pX, pY)
  | n + 1, x :: pX, y :: pY, diff =>
    let c1 := val x - val y
    addSquares n pX pY (diff + c1 * c1)
  | _ + 1, _, _, _ => none

def computeL2Distance (pX pY : List T) (length : Nat) : Option R := do
  -- four at a time, and then one at a time
  let pEnd4 := length >>> 2 <<< 2
  let (diff, pX, pY) ← addSquares val pEnd4 pX pY 0
  let (diff, _) ← addSquares val (length - pEnd4) pX pY diff
  return diff

variable {pX pY : List T} {n : Nat}

theorem addSquares_eq (hX : n ≤ pX.length) (hY : n ≤ pY.length) (diff : R) :
    addSquares val n pX pY diff =
      some (diff + sqDist val (pX.take n) (pY.take n), pX.drop n, pY.drop n) := by
  induction n generalizing pX pY diff with
  | zero => simp [addSquares]
  | succ n ih =>
    match pX, pY, hX, hY with
    | x :: pX, y :: pY, hX, hY =>
      rw [addSquares, ih (Nat.le_of_succ_le_succ hX) (Nat.le_of_succ_le_succ hY),
        List.take_succ_cons,
        List.take_succ_cons, sqDist_cons, add_assoc]
      rfl

theorem computeL2Distance_eq (hX : n ≤ pX.length) (hY : n ≤ pY.length) :
    computeL2Distance val pX pY n = some (sqDist val (pX.take n) (pY.take n)) := by
  have hle : n >>> 2 <<< 2 ≤ n := by
    rw [Nat.shiftRight_eq_div_pow, Nat.shiftLeft_eq]
    exact Nat.div_mul_le_self ..
  have hsplit : ∀ l : List T, l.take n =
      l.take (n >>> 2 <<< 2) ++ (l.drop (n >>> 2 <<< 2)).take (n - n >>> 2 <<< 2) := fun l => by
    rw [← List.take_add, Nat.add_sub_cancel' hle]
  have hlen : (pX.take (n >>> 2 <<< 2)).length = (pY.take (n >>> 2 <<< 2)).length := by
    rw [List.length_take_of_le (hle.trans hX), List.length_take_of_le (hle.trans hY)]
  simp only [computeL2Distance, addSquares_eq val (hle.trans hX) (hle.trans hY),
    Option.bind_eq_bind, Option.bind_some]
  rw [addSquares_eq val (by rw [List.length_drop]; omega) (by rw [List.length_drop]; omega),
    Option.bind_some, hsplit pX, hsplit pY, sqDist_append val hlen, zero_add]
  rfl

end Sptag.COMMON.DistanceUtils
