import Sptag.SPANN.FileIO.Cache
import Sptag.SPANN.PageOptions

/-! Whether what passes the check of `Append` is accepted by `FileIO`: the limits of both
sides as `int`s, for any options that can be given. -/

namespace Sptag.SPANN

open Lib

namespace SizeOptions

variable (o : SizeOptions) (vectorInfoSize : Nat)

def blockLimit : Int := toInt (max o.postingPageLimit o.searchPostingPageLimit + o.bufferLength + 1)

def Admits (n : Nat) : Prop :=
  n ≤ o.postingSizeLimit vectorInfoSize + o.bufferSizeLimit vectorInfoSize

/-- A posting of `n` entries and its size have room in an array of addresses, and neither
`Put` nor `Merge` finds it too long. -/
structure Accepts (n : Nat) : Prop where
  room : (pages (n * vectorInfoSize) + 1 : Nat) ≤ o.blockLimit
  put : ∀ (opt : Options) (f : FileIO) (key : Nat) (value : Bytes),
    opt.blockLimit = o.blockLimit.toNat → value.length = n * vectorInfoSize →
      (f.put opt key value).1 ≠ .postingOverFlow
  merge : ∀ (opt : Options) (f : FileIO) (key : Nat) (value : Bytes) (checksum : Bytes → Bool)
    (a : Addresses), opt.blockLimit = o.blockLimit.toNat → f.store.at? key = some a →
      a.size.toNat + value.length = n * vectorInfoSize →
      (f.merge opt key value checksum).1 ≠ .postingOverFlow

def Fits : Prop :=
  ∀ n, (o.construct vectorInfoSize).Admits vectorInfoSize n →
    (o.construct vectorInfoSize).Accepts vectorInfoSize n

def Balanced : Prop :=
  o.postingSizeLimit vectorInfoSize + o.bufferSizeLimit vectorInfoSize < 0 ∨
    o.postingBytes + o.bufferBytes ≤ (o.blockLimit - 1) * PageSize +
      (o.postingBytes.tmod vectorInfoSize + o.bufferBytes.tmod vectorInfoSize)

end SizeOptions

section Overflow

variable {opt : Options} {key : Nat} {value : Bytes}

theorem Store.putBlocks_ne_overFlow (st : Store) :
    (st.putBlocks opt key value).1 ≠ .postingOverFlow := by
  unfold Store.putBlocks
  grind

theorem Store.resize_ne_overFlow (st : Store) (a : Addresses) :
    (st.resize opt key a value).1 ≠ .postingOverFlow := by
  unfold Store.resize
  grind

theorem Store.mergeBlocks_ne_overFlow (st : Store) (newSize : Nat) :
    (st.mergeBlocks opt key value newSize).1 ≠ .postingOverFlow := by
  unfold Store.mergeBlocks
  grind

theorem Store.mergeCached_ne_overFlow (st : Store) (newSize : Nat) :
    (st.mergeCached opt key newSize).1 ≠ .postingOverFlow := by
  unfold Store.mergeCached
  grind

theorem FileIO.put_overFlow_iff (f : FileIO) :
    (f.put opt key value).1 = .postingOverFlow ↔ opt.blockLimit ≤ pages value.length := by
  unfold FileIO.put
  split
  · rename_i hlong
    exact iff_of_true rfl hlong
  · rename_i hshort
    refine iff_of_false ?_ hshort
    simp only
    split
    · exact Store.putBlocks_ne_overFlow _
    · split
      · unfold Store.putCached
        split
        · exact Store.resize_ne_overFlow _ _
        · exact Store.resize_ne_overFlow _ _
      · exact Store.putBlocks_ne_overFlow _

theorem FileIO.merge_ne_overFlow {f : FileIO} {checksum : Bytes → Bool} {a : Addresses}
    (hat : f.store.at? key = some a)
    (hshort : pages (a.size.toNat + value.length) < opt.blockLimit) :
    (f.merge opt key value checksum).1 ≠ .postingOverFlow := by
  unfold FileIO.merge
  split
  · simp
  · simp only [hat]
    rw [if_neg (Nat.not_le.mpr hshort)]
    split
    · simp
    · split
      · exact Store.mergeBlocks_ne_overFlow _ _
      · split
        · exact Store.mergeCached_ne_overFlow _ _
        · exact Store.mergeBlocks_ne_overFlow _ _

end Overflow

theorem pages_add_one_le_iff (n : Nat) (limit : Int) :
    ((pages n + 1 : Nat) : Int) ≤ limit ↔ (n : Int) ≤ (limit - 1) * PageSize := by
  have hpage : PageSize = 4096 := rfl
  rw [pages_eq, hpage]
  omega

namespace SizeOptions

variable (o : SizeOptions) (vectorInfoSize : Nat)

theorem accepts_iff (n : Nat) : o.Accepts vectorInfoSize n ↔
    (n * vectorInfoSize : Nat) ≤ (o.blockLimit - 1) * PageSize := by
  rw [← pages_add_one_le_iff]
  constructor
  · exact fun h => h.room
  · intro hroom
    have hshort : pages (n * vectorInfoSize) < o.blockLimit.toNat := by omega
    refine ⟨hroom, fun opt f key value hlimit hlen =>
      ?_, fun opt f key value _ a hlimit hat hlen => ?_⟩
    · rw [ne_eq, FileIO.put_overFlow_iff, hlen, hlimit]
      exact Nat.not_le.mpr hshort
    · apply FileIO.merge_ne_overFlow hat
      rwa [hlen, hlimit]

theorem limits_mul : (o.postingSizeLimit vectorInfoSize + o.bufferSizeLimit vectorInfoSize) *
    vectorInfoSize + (o.postingBytes.tmod vectorInfoSize + o.bufferBytes.tmod vectorInfoSize) =
      o.postingBytes + o.bufferBytes := by
  have hposting := Int.tmod_add_tdiv_mul o.postingBytes vectorInfoSize
  have hbuffer := Int.tmod_add_tdiv_mul o.bufferBytes vectorInfoSize
  rw [postingSizeLimit, bufferSizeLimit, Int.add_mul]
  omega

theorem fits_of_balanced (h : (o.construct vectorInfoSize).Balanced vectorInfoSize) :
    o.Fits vectorInfoSize := by
  intro n hn
  have hlimits := (o.construct vectorInfoSize).limits_mul vectorInfoSize
  rw [accepts_iff, Nat.cast_mul]
  rcases h with hneg | hbytes
  · exact absurd (hn.trans_lt hneg) (Int.not_lt.mpr (Int.natCast_nonneg n))
  · have hle := Int.mul_le_mul_of_nonneg_right hn (Int.natCast_nonneg vectorInfoSize)
    omega

/-- The two checks agree exactly when the limits are balanced. -/
theorem fits_iff : o.Fits vectorInfoSize ↔
    (o.construct vectorInfoSize).Balanced vectorInfoSize := by
  refine ⟨fun h => or_iff_not_imp_left.mpr fun hmost => ?_, o.fits_of_balanced vectorInfoSize⟩
  have hlimits := (o.construct vectorInfoSize).limits_mul vectorInfoSize
  have hmost' := Int.toNat_of_nonneg (Int.not_lt.mp hmost)
  have hfull := ((o.construct vectorInfoSize).accepts_iff vectorInfoSize _).mp (h _ hmost'.le)
  rw [Nat.cast_mul, hmost'] at hfull
  omega

/-- Postings of default options, vectors of 128 bytes and a buffer of -1 pages: 93 entries
pass, and take four pages of the three that are left. -/
theorem not_fits_negativeBuffer : ¬ (⟨3, 3, 118, -1⟩ : SizeOptions).Fits (128 + metaDataSize) := by
  intro h
  have hroom := (h 93 (by unfold Admits; decide)).room
  exact absurd hroom (by decide)

theorem sub_tmod_le {a most : Int} (b : Nat) (ha : a ≤ most) (hmost : 0 ≤ most) :
    a - a.tmod b ≤ most := by
  rcases Int.le_total 0 a with hpos | hneg
  · have := Int.tmod_nonneg (b : Int) hpos
    omega
  · have hquot : (-a).tdiv b * b ≥ 0 :=
      mul_nonneg (Int.tdiv_nonneg (Int.neg_nonneg_of_nonpos hneg) (Int.natCast_nonneg b))
        (Int.natCast_nonneg b)
    have := Int.tmod_add_tdiv_mul a b
    rw [Int.neg_tdiv, Int.neg_mul] at hquot
    omega

theorem fits_of_nonneg (hposting : 0 ≤ o.postingPageLimit) (hbuffer : 0 ≤ o.bufferLength)
    (hint : (o.construct vectorInfoSize).postingPageLimit + o.bufferLength + 1 < 2 ^ 31) :
    o.Fits vectorInfoSize := by
  apply fits_of_balanced
  right
  have hpages : 0 ≤ (o.construct vectorInfoSize).postingPageLimit :=
    hposting.trans (le_max_left _ _)
  have hlimit : (o.construct vectorInfoSize).blockLimit =
      (o.construct vectorInfoSize).postingPageLimit + o.bufferLength + 1 := by
    have hmax : max (o.construct vectorInfoSize).postingPageLimit
      (o.construct vectorInfoSize).searchPostingPageLimit =
        (o.construct vectorInfoSize).postingPageLimit := max_self _
    rw [blockLimit, hmax]
    exact toInt_eq (by change 0 ≤ _ + o.bufferLength + 1; omega) hint
  have hpage : (0 : Int) ≤ PageSize := Int.natCast_nonneg _
  have hpostingBytes := sub_tmod_le vectorInfoSize (toInt_le (mul_nonneg hpages hpage))
    (mul_nonneg hpages hpage)
  have hbufferBytes := sub_tmod_le vectorInfoSize (toInt_le (mul_nonneg hbuffer hpage))
    (mul_nonneg hbuffer hpage)
  rw [hlimit, Int.add_sub_cancel, Int.add_mul]
  change _ + toInt (o.bufferLength * PageSize) ≤ _ +
    (_ + Int.tmod (toInt (o.bufferLength * PageSize)) _)
  rw [postingBytes]
  omega

end SizeOptions

end Sptag.SPANN
