import Sptag.Common

/-! The page limits of `Options.h`, and what `ExtraDynamicSearcher` makes of them when it is
constructed and when it sets up a work space. -/

namespace Sptag.SPANN

def metaDataSize : Nat := 5

structure PageOptions where
  postingPageLimit : Nat
  searchPostingPageLimit : Nat
  postingVectorLimit : Nat
  bufferLength : Nat

structure SizeOptions where
  postingPageLimit : Int
  searchPostingPageLimit : Int
  postingVectorLimit : Int
  bufferLength : Int

namespace SizeOptions

def pagesOf (o : SizeOptions) (vectorInfoSize : Nat) : Int :=
  toInt (toSize (o.postingVectorLimit * vectorInfoSize + (PageSize - 1)) / PageSize : Nat)

def construct (o : SizeOptions) (vectorInfoSize : Nat) : SizeOptions :=
  let postingPageLimit := max o.postingPageLimit
    ((toInt (o.postingVectorLimit * vectorInfoSize + (PageSize - 1))).tdiv PageSize)
  { o with postingPageLimit := postingPageLimit, searchPostingPageLimit := postingPageLimit }

def build (o : SizeOptions) (vectorInfoSize : Nat) : SizeOptions :=
  if 0 < o.postingPageLimit then
    let postingPageLimit := max o.postingPageLimit (o.pagesOf vectorInfoSize)
    { o with postingPageLimit := postingPageLimit, searchPostingPageLimit := postingPageLimit }
  else o

variable (o : SizeOptions) (vectorInfoSize : Nat)

def postingBytes : Int := toInt (o.postingPageLimit * PageSize)

def bufferBytes : Int := toInt (o.bufferLength * PageSize)

def postingSizeLimit : Int := o.postingBytes.tdiv vectorInfoSize

def bufferSizeLimit : Int := o.bufferBytes.tdiv vectorInfoSize

def cutLimit : Int :=
  if 0 < o.postingPageLimit then
    toInt (toSize (o.build vectorInfoSize).postingBytes / vectorInfoSize : Nat)
  else 2 ^ 31 - 1

theorem mul_le_of_le_postingSizeLimit (hpages : 0 ≤ o.postingPageLimit) {n : Nat}
    (hn : n ≤ o.postingSizeLimit vectorInfoSize) :
    (n * vectorInfoSize : Int) ≤ o.postingPageLimit * PageSize := by
  have hbytes : o.postingBytes ≤ o.postingPageLimit * PageSize :=
    toInt_le (mul_nonneg hpages (Int.natCast_nonneg PageSize))
  refine le_trans ?_ (max_le hbytes (mul_nonneg hpages (Int.natCast_nonneg PageSize)))
  rcases Int.le_total 0 o.postingBytes with hpos | hneg
  · have hdiv := Int.tmod_add_tdiv_mul o.postingBytes vectorInfoSize
    have hmod := Int.tmod_nonneg (vectorInfoSize : Int) hpos
    have hmul := Int.mul_le_mul_of_nonneg_right hn (Int.natCast_nonneg vectorInfoSize)
    rw [postingSizeLimit] at hmul
    exact le_max_of_le_left (by omega)
  · have hquot : 0 ≤ (-o.postingBytes).tdiv vectorInfoSize :=
      Int.tdiv_nonneg (Int.neg_nonneg_of_nonpos hneg) (Int.natCast_nonneg _)
    rw [Int.neg_tdiv] at hquot
    rw [postingSizeLimit] at hn
    obtain rfl : n = 0 := by omega
    exact le_max_of_le_right (by simp)

end SizeOptions

def SizeOptions.toPageOptions (o : SizeOptions) : PageOptions where
  postingPageLimit := o.postingPageLimit.toNat
  searchPostingPageLimit := o.searchPostingPageLimit.toNat
  postingVectorLimit := o.postingVectorLimit.toNat
  bufferLength := o.bufferLength.toNat

namespace PageOptions

def toSizeOptions (o : PageOptions) : SizeOptions :=
  ⟨o.postingPageLimit, o.searchPostingPageLimit, o.postingVectorLimit, o.bufferLength⟩

/-- What the constructor of `ExtraDynamicSearcher` makes of them where no product overflows. -/
def construct (o : PageOptions) (vectorInfoSize : Nat) : PageOptions :=
  let postingPageLimit := max o.postingPageLimit (pages (o.postingVectorLimit * vectorInfoSize))
  { o with postingPageLimit := postingPageLimit, searchPostingPageLimit := postingPageLimit }

def postingSizeLimit (o : PageOptions) (vectorInfoSize : Nat) : Nat :=
  o.postingPageLimit * PageSize / vectorInfoSize

def bufferSizeLimit (o : PageOptions) (vectorInfoSize : Nat) : Nat :=
  o.bufferLength * PageSize / vectorInfoSize

def pageBufferSize (o : PageOptions) : Nat :=
  (max o.postingPageLimit o.searchPostingPageLimit + o.bufferLength) <<< 12

theorem fits_pageBuffer (o : PageOptions) {vectorInfoSize n : Nat}
    (hn : n ≤ o.postingSizeLimit vectorInfoSize + o.bufferSizeLimit vectorInfoSize) :
    n * vectorInfoSize ≤ o.pageBufferSize :=
  calc n * vectorInfoSize
      ≤ (o.postingPageLimit * PageSize / vectorInfoSize +
          o.bufferLength * PageSize / vectorInfoSize) * vectorInfoSize := Nat.mul_le_mul_right _ hn
    _ ≤ o.postingPageLimit * PageSize + o.bufferLength * PageSize := by
        rw [Nat.add_mul]
        exact Nat.add_le_add (Nat.div_mul_le_self _ _) (Nat.div_mul_le_self _ _)
    _ = (o.postingPageLimit + o.bufferLength) * PageSize := (Nat.add_mul _ _ _).symm
    _ ≤ (max o.postingPageLimit o.searchPostingPageLimit + o.bufferLength) * PageSize :=
        Nat.mul_le_mul_right _ (Nat.add_le_add_right (Nat.le_max_left _ _) _)
    _ = o.pageBufferSize := by rw [pageBufferSize, Nat.shiftLeft_eq, PageSize]

variable (o : PageOptions) (vectorInfoSize : Nat)

theorem toSizeOptions_bytes : o.toSizeOptions.postingVectorLimit * vectorInfoSize + (PageSize - 1) =
    (o.postingVectorLimit * vectorInfoSize + (PageSize - 1) : Nat) := by
  rw [Nat.cast_add, Nat.cast_mul]
  rfl

variable {o vectorInfoSize}

theorem toSizeOptions_pagesOf (h : o.postingVectorLimit * vectorInfoSize + PageSize ≤ 2 ^ 31) :
    o.toSizeOptions.pagesOf vectorInfoSize = pages (o.postingVectorLimit * vectorInfoSize) := by
  rw [PageSize] at h
  have hlt : o.postingVectorLimit * vectorInfoSize + (PageSize - 1) < 2 ^ 64 := by
    rw [PageSize]
    omega
  rw [SizeOptions.pagesOf, toSizeOptions_bytes, toSize_of_lt hlt]
  apply toInt_of_lt
  rw [PageSize]
  omega

theorem toSizeOptions_construct (h : o.postingVectorLimit * vectorInfoSize + PageSize ≤ 2 ^ 31) :
    o.toSizeOptions.construct vectorInfoSize = (o.construct vectorInfoSize).toSizeOptions := by
  have hpages : (toInt (o.toSizeOptions.postingVectorLimit * vectorInfoSize + (PageSize - 1))).tdiv
      PageSize = pages (o.postingVectorLimit * vectorInfoSize) := by
    have hlt : o.postingVectorLimit * vectorInfoSize + (PageSize - 1) < 2 ^ 31 := by
      rw [PageSize] at h ⊢
      omega
    rw [toSizeOptions_bytes, toInt_of_lt hlt, ← Int.ofNat_tdiv]
    rfl
  rw [SizeOptions.construct, hpages]
  simp only [toSizeOptions, construct, Nat.cast_max]

theorem construct_build {vectorInfoSize' : Nat} (hle : vectorInfoSize ≤ vectorInfoSize')
    (h : o.postingVectorLimit * vectorInfoSize' + PageSize ≤ 2 ^ 31) :
    (o.toSizeOptions.build vectorInfoSize).construct vectorInfoSize' =
      (o.construct vectorInfoSize').toSizeOptions := by
  have hmul : o.postingVectorLimit * vectorInfoSize ≤ o.postingVectorLimit * vectorInfoSize' :=
    Nat.mul_le_mul_left _ hle
  rw [SizeOptions.build]
  split
  · have hpages : pages (o.postingVectorLimit * vectorInfoSize) ≤
        pages (o.postingVectorLimit * vectorInfoSize') :=
      Nat.div_le_div_right (Nat.add_le_add_right hmul _)
    have hraised := toSizeOptions_construct
      (o := { o with
        postingPageLimit := max o.postingPageLimit (pages (o.postingVectorLimit * vectorInfoSize))
        searchPostingPageLimit :=
          max o.postingPageLimit (pages (o.postingVectorLimit * vectorInfoSize)) }) h
    rw [toSizeOptions_pagesOf (by omega)]
    simp only [toSizeOptions, construct, Nat.cast_max, max_assoc,
      max_eq_right (Int.ofNat_le.mpr hpages)] at hraised ⊢
    exact hraised
  · exact toSizeOptions_construct h

variable (o vectorInfoSize)

theorem toSizeOptions_postingSizeLimit (h : o.postingPageLimit * PageSize < 2 ^ 31) :
    o.toSizeOptions.postingSizeLimit vectorInfoSize = o.postingSizeLimit vectorInfoSize := by
  rw [SizeOptions.postingSizeLimit, SizeOptions.postingBytes, toSizeOptions, ← Nat.cast_mul,
    toInt_of_lt h, ← Int.ofNat_tdiv]
  rfl

theorem toSizeOptions_bufferSizeLimit (h : o.bufferLength * PageSize < 2 ^ 31) :
    o.toSizeOptions.bufferSizeLimit vectorInfoSize = o.bufferSizeLimit vectorInfoSize := by
  rw [SizeOptions.bufferSizeLimit, SizeOptions.bufferBytes, toSizeOptions, ← Nat.cast_mul,
    toInt_of_lt h, ← Int.ofNat_tdiv]
  rfl

end PageOptions

end Sptag.SPANN
