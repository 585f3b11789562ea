import Sptag.SPANN.Dynamic.State
import Sptag.SPANN.Static.ManyFiles
import Sptag.SPANN.Static.Unsupported

/-! The copy of a static index into the store, as `ExtraDynamicSearcher::LoadIndex` makes it
when it finds one: a version is put into each record, and each posting is cut to the size
limit of the longer records. -/

namespace Sptag.SPANN.Dynamic

open COMMON Lib
open Static (loadedCount loadingPageLimit Source VID VectorOf ExtraStaticSearcher bytesOf vectorOf
  vectorBytes recordBytes
  vectorOf_vectorBytes length_vectorBytes length_recordBytes)

def vectorInfoSize (b d : Nat) : Nat := d * b + metaDataSize

def copyRecord (versionMap : VersionLabel) (vectorInfo : Bytes) : Bytes :=
  let VID := toInt (leVal (vectorInfo.take 4))
  leBytes 4 (VID % 2 ^ 32).toNat ++ versionMap.getVersion VID :: vectorInfo.drop 4

def newPosting (versionMap : VersionLabel) (vectorInfoSize postingSizeLimit : Nat)
    (tempPosting : Bytes) : Bytes :=
  let vectorNum := min (tempPosting.length / (vectorInfoSize - 1)) postingSizeLimit
  (List.range vectorNum).flatMap fun j =>
    copyRecord versionMap ((tempPosting.drop (j * (vectorInfoSize - 1))).take (vectorInfoSize - 1))

structure Copied where
  db : Nat → Option Bytes
  postingSizes : Nat → Nat
  checkSums : Nat → ChecksumType

def Copied.start : Copied := ⟨fun _ => none, fun _ => 0, fun _ => 0⟩

structure Copying where
  checkSum : Checksum
  versionMap : VersionLabel
  consistencyCheck : Bool
  put : Nat → Bytes → Bool
  check : Nat → Nat → Bool

namespace Copying

variable (c : Copying) (b d : Nat)

def updated (s : Copied) (pid : Nat) (posting : Bytes) : Copied where
  db := Function.update s.db pid (some posting)
  postingSizes := Function.update s.postingSizes pid (posting.length / vectorInfoSize b d)
  checkSums := Function.update s.checkSums pid (c.checkSum.calcChecksum posting)

def getWritePosting (s : Copied) (pid : Nat) (posting : Bytes) : Option Copied :=
  if c.put pid posting then
    let s' := c.updated b d s pid posting
    if c.consistencyCheck && !c.check pid (s'.postingSizes pid * vectorInfoSize b d) then none
    else some s'
  else none

def copyPosting (searcher : ExtraStaticSearcher) (postingSizeLimit : Int) (s : Copied)
    (index : Nat) : Option Copied := do
  let tempPosting ← searcher.getWritePosting index
  if postingSizeLimit < 0 then none
  else
    c.getWritePosting b d s index
      (newPosting c.versionMap (vectorInfoSize b d) postingSizeLimit.toNat tempPosting)

/-- The copy with the options of the constructed searcher; `order` is the order in which the
threads come to the postings. -/
def loadIndex (flags : Static.Flags) (o : SizeOptions) (files : List Bytes) (order : List Nat) :
    Option Copied := do
  let searcher ← ExtraStaticSearcher.fresh.loadIndex b d flags o.toPageOptions files
  order.foldlM (c.copyPosting b d searcher (o.postingSizeLimit (vectorInfoSize b d))) .start

end Copying

variable {b d : Nat}

def record (vectorInfo : Bytes) : Entry (VectorOf b d) where
  vid := toInt (leVal (vectorInfo.take 4))
  version := (vectorInfo.drop 4).headD 0
  vector := vectorOf (vectorInfo.drop metaDataSize)

def records (posting : Bytes) : Posting (VectorOf b d) :=
  (List.range (posting.length / vectorInfoSize b d)).map fun j =>
    record ((posting.drop (j * vectorInfoSize b d)).take (vectorInfoSize b d))

def withVersion (versionMap : VersionLabel) (e : VID × VectorOf b d) : Entry (VectorOf b d) where
  vid := e.1.toInt
  version := versionMap.getVersion e.1.toInt
  vector := e.2

section Records

variable {versionMap : VersionLabel}

theorem vectorInfoSize_eq : vectorInfoSize b d = Static.vectorInfoSize b d + 1 := rfl

theorem vectorInfoSize_pos : 0 < vectorInfoSize b d := Nat.succ_pos _

@[simp] theorem leVal_bytesOf (x : VID) : leVal (bytesOf x) = x.toNat := leVal_leBytes_of_lt x.isLt

@[simp] theorem toInt_toNat (x : VID) : toInt x.toNat = x.toInt :=
  (BitVec.toInt_eq_toNat_bmod x).symm

theorem toNat_emod (x : VID) : (x.toInt % 2 ^ 32).toNat = x.toNat := by
  have hmod : x.toInt % ((2 ^ 32 : Nat) : Int) = x.toNat % ((2 ^ 32 : Nat) : Int) := by
    rw [← toInt_toNat, toInt, Int.bmod_emod]
  have hlt : x.toNat % 2 ^ 32 = x.toNat := Nat.mod_eq_of_lt x.isLt
  push_cast at hmod
  omega

theorem copyRecord_recordBytes (e : VID × VectorOf b d) :
    copyRecord versionMap (recordBytes e) =
      bytesOf e.1 ++ versionMap.getVersion e.1.toInt :: vectorBytes e.2 := by
  have hlen : (bytesOf e.1).length = 4 := Static.length_bytesOf e.1
  rw [copyRecord, recordBytes, List.take_left' hlen, List.drop_left' hlen, leVal_bytesOf,
    toInt_toNat, toNat_emod]
  rfl

theorem length_copyRecord {vectorInfo : Bytes}
    (hlen : vectorInfo.length = Static.vectorInfoSize b d) :
    (copyRecord versionMap vectorInfo).length = vectorInfoSize b d := by
  rw [copyRecord, List.length_append, List.length_cons, leBytes_length, List.length_drop, hlen,
    vectorInfoSize, metaDataSize, Static.vectorInfoSize, Static.perVectorDataSize]
  omega

@[simp] theorem record_copyRecord (e : VID × VectorOf b d) :
    record (copyRecord versionMap (recordBytes e)) = withVersion versionMap e := by
  have hlen : (bytesOf e.1).length = 4 := Static.length_bytesOf e.1
  have hvector : (bytesOf e.1 ++ versionMap.getVersion e.1.toInt :: vectorBytes e.2).drop
      metaDataSize = vectorBytes e.2 := by
    rw [show metaDataSize = 4 + 1 from rfl, ← List.drop_drop, List.drop_left' hlen]
    rfl
  rw [copyRecord_recordBytes, record, List.take_left' hlen, List.drop_left' hlen, hvector,
    leVal_bytesOf, toInt_toNat, vectorOf_vectorBytes]
  rfl

theorem newPosting_recordBytes (versionMap : VersionLabel) (limit : Nat)
    (es : List (VID × VectorOf b d)) :
    newPosting versionMap (vectorInfoSize b d) limit (es.flatMap recordBytes) =
      (es.take limit).flatMap fun e => copyRecord versionMap (recordBytes e) := by
  have hlen : (es.flatMap recordBytes).length = es.length * Static.vectorInfoSize b d :=
    length_flatMap_of_size fun e _ => length_recordBytes e
  have hslices := congrArg (List.map (copyRecord versionMap))
    (map_slices (fun e (_ : e ∈ es) => length_recordBytes e) (min_le_left es.length limit))
  have htake : es.take (min es.length limit) = es.take limit := by
    rw [min_comm, ← List.take_take, List.take_length]
  rw [List.map_map, List.map_map, htake] at hslices
  have hpos : 0 < Static.vectorInfoSize b d := Nat.succ_pos _
  rw [newPosting, vectorInfoSize_eq, Nat.add_sub_cancel, hlen, Nat.mul_div_cancel _ hpos]
  exact congrArg List.flatten hslices

theorem records_newPosting (versionMap : VersionLabel) (limit : Nat)
    (es : List (VID × VectorOf b d)) :
    records (newPosting versionMap (vectorInfoSize b d) limit (es.flatMap recordBytes)) =
      (es.take limit).map (withVersion versionMap) := by
  have hsize : ∀ e ∈ es.take limit,
      (copyRecord versionMap (recordBytes e)).length = vectorInfoSize b d :=
    fun e _ => length_copyRecord (length_recordBytes e)
  have hslices := congrArg (List.map (record (b := b) (d := d))) (map_slices hsize (le_refl _))
  rw [List.map_map, List.take_length, List.map_map] at hslices
  rw [newPosting_recordBytes, records, length_flatMap_of_size hsize,
    Nat.mul_div_cancel _ vectorInfoSize_pos]
  exact hslices.trans (List.map_congr_left fun e _ => record_copyRecord e)

@[simp] theorem length_newPosting (versionMap : VersionLabel) (limit : Nat) (tempPosting : Bytes) :
    (newPosting versionMap (vectorInfoSize b d) limit tempPosting).length =
      min (tempPosting.length / Static.vectorInfoSize b d) limit * vectorInfoSize b d := by
  have hsize : ∀ j ∈ List.range (min (tempPosting.length / Static.vectorInfoSize b d) limit),
      (copyRecord versionMap ((tempPosting.drop (j * Static.vectorInfoSize b d)).take
        (Static.vectorInfoSize b d))).length = vectorInfoSize b d := by
    intro j hj
    apply length_copyRecord
    have hlt : j + 1 ≤ tempPosting.length / Static.vectorInfoSize b d :=
      (List.mem_range.mp hj).trans_le (min_le_left _ _)
    have hle := (Nat.le_div_iff_mul_le (Nat.succ_pos _)).mp hlt
    rw [Nat.succ_mul] at hle
    rw [List.length_take, List.length_drop]
    exact Nat.min_eq_left (Nat.le_sub_of_add_le' hle)
  rw [newPosting, vectorInfoSize_eq, Nat.add_sub_cancel, length_flatMap_of_size hsize,
    List.length_range]
  rfl

end Records

namespace Copying

variable {c : Copying} {searcher : ExtraStaticSearcher} {limit : Int}

def Served (c : Copying) : Prop := ∀ pid, (∀ posting, c.put pid posting) ∧ ∀ size, c.check pid size

theorem copyPosting_cases {s s' : Copied} {index : Nat}
    (h : c.copyPosting b d searcher limit s index = some s') :
    ∃ tempPosting, searcher.getWritePosting index = some tempPosting ∧ 0 ≤ limit ∧
      s'.db = Function.update s.db index
        (some (newPosting c.versionMap (vectorInfoSize b d) limit.toNat tempPosting)) ∧
      s'.postingSizes = Function.update s.postingSizes index
        (min (tempPosting.length / Static.vectorInfoSize b d) limit.toNat) := by
  obtain ⟨tempPosting, hget, h⟩ := Option.bind_eq_some_iff.mp h
  have hlimit : 0 ≤ limit := by
    by_contra hneg
    rw [if_pos (not_le.mp hneg)] at h
    cases h
  refine ⟨tempPosting, hget, hlimit, ?_⟩
  rw [if_neg (not_lt.mpr hlimit)] at h
  simp only [getWritePosting] at h
  split at h
  · split at h
    · cases h
    · cases h
      simp only [updated, length_newPosting, Nat.mul_div_cancel _ vectorInfoSize_pos, and_self]
  · cases h

theorem copyPosting_served (hc : c.Served) (hlimit : 0 ≤ limit) {index : Nat} {tempPosting : Bytes}
    (hget : searcher.getWritePosting index = some tempPosting) (s : Copied) :
    ∃ s', c.copyPosting b d searcher limit s index = some s' := by
  refine ⟨c.updated b d s index (newPosting c.versionMap (vectorInfoSize b d) limit.toNat
    tempPosting), ?_⟩
  simp only [copyPosting, hget, not_lt.mpr hlimit, Option.bind_eq_bind, Option.bind_some,
    getWritePosting,
    (hc index).1, (hc index).2, if_true, Bool.not_true, Bool.and_false,
      Bool.false_eq_true, if_false]

def Holds (c : Copying) (b d : Nat) (searcher : ExtraStaticSearcher) (limit : Int) (s : Copied)
    (index : Nat) : Prop :=
  ∃ tempPosting, searcher.getWritePosting index = some tempPosting ∧ 0 ≤ limit ∧
    s.db index = some (newPosting c.versionMap (vectorInfoSize b d) limit.toNat tempPosting) ∧
    s.postingSizes index = min (tempPosting.length / Static.vectorInfoSize b d) limit.toNat

theorem foldlM_copyPosting {order : List Nat} (hnodup : order.Nodup) {s s' : Copied}
    (h : order.foldlM (c.copyPosting b d searcher limit) s = some s') :
    (∀ index ∈ order, c.Holds b d searcher limit s' index) ∧
      ∀ index ∉ order, s'.db index = s.db index ∧ s'.postingSizes index = s.postingSizes index := by
  induction order generalizing s with
  | nil =>
    cases h
    exact ⟨fun index h => absurd h List.not_mem_nil, fun _ _ => ⟨rfl, rfl⟩⟩
  | cons i order ih =>
    rw [List.foldlM_cons] at h
    obtain ⟨s₁, hstep, hrest⟩ := Option.bind_eq_some_iff.mp h
    obtain ⟨hi, hnodup⟩ := List.nodup_cons.mp hnodup
    obtain ⟨hholds, hother⟩ := ih hnodup hrest
    obtain ⟨tempPosting, hget, hlimit, hdb, hsizes⟩ := copyPosting_cases hstep
    constructor
    · intro index hindex
      cases List.mem_cons.mp hindex with
      | inl heq =>
        -- this posting is not written again
        subst heq
        obtain ⟨hdb', hsizes'⟩ := hother index hi
        refine ⟨tempPosting, hget, hlimit, ?_, ?_⟩
        · rw [hdb', hdb, Function.update_self]
        · rw [hsizes', hsizes, Function.update_self]
      | inr hmem => exact hholds index hmem
    · intro index hindex
      obtain ⟨hne, hmem⟩ := not_or.mp (mt List.mem_cons.mpr hindex)
      obtain ⟨hdb', hsizes'⟩ := hother index hmem
      rw [hdb', hsizes', hdb, hsizes, Function.update_of_ne hne, Function.update_of_ne hne]
      exact ⟨rfl, rfl⟩

theorem foldlM_copyPosting_served (hc : c.Served) (hlimit : order ≠ [] → 0 ≤ limit)
    (hget : ∀ index ∈ order, ∃ tempPosting, searcher.getWritePosting index = some tempPosting)
    (s : Copied) : ∃ s', order.foldlM (c.copyPosting b d searcher limit) s = some s' := by
  induction order generalizing s with
  | nil => exact ⟨s, rfl⟩
  | cons i order ih =>
    have hnonneg := hlimit (List.cons_ne_nil i order)
    obtain ⟨tempPosting, hi⟩ := hget i List.mem_cons_self
    obtain ⟨s₁, hstep⟩ := @copyPosting_served b d c searcher limit hc hnonneg i tempPosting hi s
    obtain ⟨s', hrest⟩ := ih (fun _ => hnonneg)
      (fun index h => hget index (List.mem_cons_of_mem i h)) s₁
    refine ⟨s', ?_⟩
    rw [List.foldlM_cons, hstep]
    exact hrest

end Copying

/-- A static index that `BuildIndex` writes with the options into `files` files: a posting has the
selections of its node, up to the cut. -/
structure Built (o : PageOptions) (x : Source b d) (files : Nat) : Prop where
  files_pos : 0 < files
  plain : x.flags.Plain
  sorted : x.selections.Pairwise (·.node ≤ ·.node)
  cut : ∀ h < x.postingListSizes.length, (x.postingListSize h : Int) =
    min ((x.selections.filter fun e => e.node = h).length : Int)
      (o.toSizeOptions.cutLimit (Static.vectorInfoSize b d))
  fits : ∀ i < files, (x.partOf files i).Fits

theorem Built.valid {o : PageOptions} {x : Source b d} {files : Nat} (hx : Built o x files) :
    x.Valid where
  sorted := hx.sorted
  size_le h := by
    cases Nat.lt_or_ge h x.postingListSizes.length with
    | inl hlt =>
      have hle := (hx.cut h hlt).le.trans (min_le_left _ _)
      exact_mod_cast hle
    | inr hge =>
      rw [x.postingListSize_of_le hge]
      exact Nat.zero_le _

def constructed (b d : Nat) (o : PageOptions) : SizeOptions :=
  (o.toSizeOptions.build (Static.vectorInfoSize b d)).construct (vectorInfoSize b d)

def Preserves (c : Copying) (o : PageOptions) (x : Source b d) (files : List Bytes)
    (order : List Nat) : Prop :=
  ∃ s, c.loadIndex b d x.flags (constructed b d o) files order = some s ∧
    ∀ h < x.postingListSizes.length, ∃ posting, s.db h = some posting ∧
      records posting = (x.posting h).map (withVersion c.versionMap) ∧
      s.postingSizes h = (x.posting h).length

def Kept (o : PageOptions) (b d size : Nat) : Prop :=
  size ≤ (constructed b d o).postingSizeLimit (vectorInfoSize b d) ∧
    pages (size * Static.vectorInfoSize b d) < 2 ^ 16

instance (o : PageOptions) (b d size : Nat) : Decidable (Kept o b d size) :=
  inferInstanceAs (Decidable (_ ∧ _))

section Migration

variable {c : Copying} {o : PageOptions} {x : Source b d} {files size : Nat}
  {raw : Nat → Nat → Nat} {fs : List Bytes} {order : List Nat}

theorem constructed_nonneg (b d : Nat) (o : PageOptions) :
    0 ≤ (constructed b d o).postingPageLimit := by
  have hbuild : 0 ≤ (o.toSizeOptions.build (Static.vectorInfoSize b d)).postingPageLimit := by
    rw [SizeOptions.build]
    split
    · exact le_max_of_le_left (Int.natCast_nonneg _)
    · exact Int.natCast_nonneg _
  exact le_max_of_le_left hbuild

theorem kept_iff_of_le (hvectors : o.postingVectorLimit * vectorInfoSize b d + PageSize ≤ 2 ^ 31)
    (hpages : (o.construct (vectorInfoSize b d)).postingPageLimit * PageSize < 2 ^ 31) :
    Kept o b d size ↔
      size ≤ (o.construct (vectorInfoSize b d)).postingSizeLimit (vectorInfoSize b d) ∧
        pages (size * Static.vectorInfoSize b d) < 2 ^ 16 := by
  have hle : Static.vectorInfoSize b d ≤ vectorInfoSize b d := Nat.le_succ _
  rw [Kept, constructed, PageOptions.construct_build hle hvectors,
    PageOptions.toSizeOptions_postingSizeLimit _ _ hpages, Int.ofNat_le]

def keptCount (o : PageOptions) (b d size : Nat) : Nat :=
  loadedCount (Static.vectorInfoSize b d)
    (loadingPageLimit (constructed b d o).toPageOptions (Static.vectorInfoSize b d))
    (size * Static.vectorInfoSize b d) size

theorem Kept.keptCount_eq (h : Kept o b d size) : keptCount o b d size = size := by
  apply Static.loadedCount_eq (Nat.succ_pos _) _ h.2
  have hnonneg := constructed_nonneg b d o
  have hrecords := (constructed b d o).mul_le_of_le_postingSizeLimit _ hnonneg h.1
  have hbytes : size * Static.vectorInfoSize b d ≤
      (constructed b d o).toPageOptions.postingPageLimit * PageSize := by
    refine (Nat.mul_le_mul_left size (Nat.le_succ _)).trans ?_
    have hcast : ((constructed b d o).toPageOptions.postingPageLimit : Int) =
        (constructed b d o).postingPageLimit := Int.toNat_of_nonneg hnonneg
    rw [← hcast] at hrecords
    exact_mod_cast hrecords
  exact (Static.pages_le_iff.mpr hbytes).trans (le_max_left _ _)

theorem kept_of_le (hcount : size ≤ keptCount o b d size)
    (hlimit : size ≤ (constructed b d o).postingSizeLimit (vectorInfoSize b d)) :
    Kept o b d size := by
  refine ⟨hlimit, ?_⟩
  have hmod := Nat.mod_lt (pages (size * Static.vectorInfoSize b d)) (Nat.two_pow_pos 16)
  have hbytes := (Nat.le_div_iff_mul_le (Nat.succ_pos _)).mp (hcount.trans (Nat.min_le_right _ _))
  exact (Static.pages_le_iff.mpr (hbytes.trans
    (Nat.mul_le_mul_right _ (Nat.min_le_left _ _)))).trans_lt hmod

theorem Preserves.kept (hx : Built o x files) (hwrite : x.writeFiles files raw = some fs)
    (horder : order.Perm (List.range x.postingListSizes.length)) (h : Preserves c o x fs order) :
    ∀ h < x.postingListSizes.length, Kept o b d (x.postingListSize h) := by
  obtain ⟨s, hcopy, hkeep⟩ := h
  obtain ⟨searcher, hload, hlists⟩ := Static.getWritePosting_files (constructed b d o).toPageOptions
    hx.files_pos hx.valid hx.plain hx.fits hwrite
  rw [Copying.loadIndex, hload] at hcopy
  have hholds := (Copying.foldlM_copyPosting (horder.nodup_iff.mpr List.nodup_range) hcopy).1
  intro p hp
  obtain ⟨tempPosting, hget, hlimit, -, hsize⟩ :=
    hholds p (horder.mem_iff.mpr (List.mem_range.mpr hp))
  obtain ⟨-, -, -, hlen⟩ := hkeep p hp
  have htemp : tempPosting.length =
      keptCount o b d (x.postingListSize p) * Static.vectorInfoSize b d :=
    (hlists p hp _ rfl).1 tempPosting hget
  have hpos : 0 < Static.vectorInfoSize b d := Nat.succ_pos _
  rw [hlen, hx.valid.length_posting, htemp, Nat.mul_div_cancel _ hpos] at hsize
  refine kept_of_le (hsize.le.trans (min_le_left _ _)) ?_
  have hle := hsize.le.trans (min_le_right _ _)
  omega

theorem preserves_of_kept (hx : Built o x files) (hwrite : x.writeFiles files raw = some fs)
    (horder : order.Perm (List.range x.postingListSizes.length)) (hc : c.Served)
    (hkept : ∀ h < x.postingListSizes.length, Kept o b d (x.postingListSize h)) :
    Preserves c o x fs order := by
  obtain ⟨searcher, hload, hlists⟩ := Static.getWritePosting_files (constructed b d o).toPageOptions
    hx.files_pos hx.valid hx.plain hx.fits hwrite
  have hget : ∀ p < x.postingListSizes.length,
      searcher.getWritePosting p = some ((x.posting p).flatMap recordBytes) := by
    intro p hp
    have hcount := (hlists p hp _ (hkept p hp).keptCount_eq).2 (hkept p hp).2
    rwa [← hx.valid.length_posting, List.take_length] at hcount
  have hmem : ∀ p, p ∈ order ↔ p < x.postingListSizes.length := fun p =>
    horder.mem_iff.trans List.mem_range
  have hnonneg : order ≠ [] → 0 ≤ (constructed b d o).postingSizeLimit (vectorInfoSize b d) := by
    intro hne
    obtain ⟨p, hp⟩ := List.exists_mem_of_ne_nil order hne
    exact (Int.natCast_nonneg _).trans (hkept p ((hmem p).mp hp)).1
  obtain ⟨s, hcopy⟩ := Copying.foldlM_copyPosting_served hc hnonneg
    (fun p hp => ⟨_, hget p ((hmem p).mp hp)⟩) .start
  have hholds := (Copying.foldlM_copyPosting (horder.nodup_iff.mpr List.nodup_range) hcopy).1
  refine ⟨s, ?_, fun p hp => ?_⟩
  · rw [Copying.loadIndex, hload]
    exact hcopy
  · obtain ⟨tempPosting, htemp, -, hdb, hsize⟩ := hholds p ((hmem p).mpr hp)
    have hpos : 0 < Static.vectorInfoSize b d := Nat.succ_pos _
    have hlimit : (x.posting p).length ≤
        ((constructed b d o).postingSizeLimit (vectorInfoSize b d)).toNat := by
      rw [hx.valid.length_posting]
      have hle := (hkept p hp).1
      omega
    cases (hget p hp).symm.trans htemp
    refine ⟨_, hdb, ?_, ?_⟩
    · rw [records_newPosting, List.take_of_length_le hlimit]
    · rw [hsize, length_flatMap_of_size fun e _ => length_recordBytes e, Nat.mul_div_cancel _ hpos,
        min_eq_left hlimit]

/-- The copy keeps the postings of a static index exactly when none of them has more records
than the limit of the dynamic searcher, or more pages than 16 bits count. -/
theorem migration_preserves_iff (hx : Built o x files) (hwrite : x.writeFiles files raw = some fs)
    (horder : order.Perm (List.range x.postingListSizes.length)) (hc : c.Served) :
    Preserves c o x fs order ↔
      ∀ h < x.postingListSizes.length, Kept o b d (x.postingListSize h) :=
  ⟨fun h => h.kept hx hwrite horder, preserves_of_kept hx hwrite horder hc⟩

end Migration

def onePage : PageOptions := ⟨1, 1, 0, 0⟩

def servedCopying : Copying where
  checkSum := ⟨0, false⟩
  versionMap := .ofLabels (List.replicate 5 0) 0 5
  consistencyCheck := true
  put _ _ := true
  check _ _ := true

def pageSource (n : Nat) : Source 4 255 := Static.single 4 255 ⟨false, false, false, false⟩ n

theorem pageSource_built {n : Nat} (hn : n ≤ 4) : Built onePage (pageSource n) 1 where
  files_pos := Nat.one_pos
  plain := ⟨rfl, rfl, rfl⟩
  sorted := Static.single_valid.sorted
  cut h hh := by
    have hzero : h = 0 := Nat.lt_one_iff.mp hh
    have hlimit : onePage.toSizeOptions.cutLimit (Static.vectorInfoSize 4 255) = 4 := by decide
    rw [hzero, hlimit, pageSource, Static.filter_single, Static.postingListSize_single, if_pos rfl,
      Static.single, List.length_map, List.length_range, min_eq_left (by omega)]
  fits i hi := by
    have hnode : ∀ e ∈ (pageSource n).selections, e.node <
      (pageSource n).postingListSizes.length := by
      intro e he
      obtain ⟨_, -, rfl⟩ := List.mem_map.mp he
      exact Nat.one_pos
    rw [Nat.lt_one_iff.mp hi, Source.partOf_one hnode]
    apply Static.single_fits (by decide) (by decide) (by omega)
    have hsize : n * Static.vectorInfoSize 4 255 = n * 1024 := rfl
    rw [hsize, pages_eq]
    omega

theorem migration_preserves_three : ∃ fs, (pageSource 3).writeFiles 1 (fun _ _ => 0) = some fs ∧
    Preserves servedCopying onePage (pageSource 3) fs [0] := by
  obtain ⟨s, file, hwrite, -⟩ := (pageSource_built (n := 3) (by decide)).valid.writeFiles_spec
    (Lib.divides_one _) fun _ _ => 0
  exact ⟨_, hwrite, (migration_preserves_iff (pageSource_built (by decide)) hwrite (.refl _)
    fun _ => ⟨fun _ => rfl, fun _ => rfl⟩).mpr (by decide)⟩

theorem migration_loses_fourth : Built onePage (pageSource 4) 1 ∧
    ∃ fs, (pageSource 4).writeFiles 1 (fun _ _ => 0) = some fs ∧
      ¬ Preserves servedCopying onePage (pageSource 4) fs [0] := by
  have hbuilt := pageSource_built (n := 4) (le_refl 4)
  obtain ⟨s, file, hwrite, -⟩ := hbuilt.valid.writeFiles_spec (Lib.divides_one _) fun _ _ => 0
  refine ⟨hbuilt, _, hwrite, fun h => ?_⟩
  have hkept : Kept onePage 4 255 4 := h.kept hbuilt hwrite (.refl _) 0 Nat.one_pos
  exact absurd hkept (by decide)

end Sptag.SPANN.Dynamic
