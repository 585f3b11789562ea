import Sptag.Common.DistanceUtils
import Sptag.Lib.Repeat
import Sptag.Lib.Slots

/-! `inc/Core/Common/PQQuantizer.h`: vectors as one codeword for each subvector, and the tables that
their distances are read from. Numbers are exact. -/

namespace Sptag.COMMON

open Lib DistanceUtils

structure PQQuantizer (T R : Type) where
  m_NumSubvectors : Nat
  m_KsPerSubvector : Nat
  m_DimPerSubvector : Nat
  m_BlockSize : Nat
  m_EnableADC : Bool
  m_codebooks : List T
  m_L2DistanceTables : Slots R

/-- What a loop of `QuantizeVector` has written, and its pointers, as what they have before them. -/
structure Scan (W T : Type) where
  out : W
  subvec : List T
  subcodebooks : List T

/-- What `QuantizeVector` writes: a codeword for each subvector, or the distances to all
codewords. -/
inductive Quantized (R : Type) where
  | code (vecout : List UInt8)
  | table (ADCtable : List R)

namespace PQQuantizer

variable {T R : Type} [CommRing R]

section Source

variable (val : T → R)

def distIndexCalc (q : PQQuantizer T R) (i j k : Nat) : Nat :=
  q.m_BlockSize * i + j * q.m_KsPerSubvector + k

def distanceTables (q : PQQuantizer T R) : Option (Slots R) :=
  (List.range q.m_NumSubvectors).foldlM (fun tables i =>
    let baseIdx := i * q.m_KsPerSubvector * q.m_DimPerSubvector
    (List.range q.m_KsPerSubvector).foldlM (fun tables j =>
      (List.range q.m_KsPerSubvector).foldlM (fun tables k => do
        let dist ← computeL2Distance val (q.m_codebooks.drop (baseIdx + j * q.m_DimPerSubvector))
          (q.m_codebooks.drop (baseIdx + k * q.m_DimPerSubvector)) q.m_DimPerSubvector
        Slots.set tables (q.distIndexCalc i j k) dist) tables) tables)
    ⟨q.m_BlockSize * q.m_NumSubvectors, fun _ => 0⟩

def initializeDistanceTables (q : PQQuantizer T R) : Option (PQQuantizer T R) := do
  let tables ← q.distanceTables val
  return { q with m_L2DistanceTables := tables }

def new (NumSubvectors KsPerSubvector DimPerSubvector : Nat) (EnableADC : Bool)
    (Codebooks : List T) : Option (PQQuantizer T R) :=
  initializeDistanceTables val
    { m_NumSubvectors := NumSubvectors
      m_KsPerSubvector := KsPerSubvector
      m_DimPerSubvector := DimPerSubvector
      m_BlockSize := KsPerSubvector * KsPerSubvector
      m_EnableADC := EnableADC
      m_codebooks := Codebooks
      m_L2DistanceTables := ⟨0, fun _ => 0⟩ }

def setEnableADC (q : PQQuantizer T R) (enableADC : Bool) : PQQuantizer T R :=
  { q with m_EnableADC := enableADC }

def writeDistance (q : PQQuantizer T R) (s : Scan (List R) T) : Option (Scan (List R) T) := do
  let dist ← computeL2Distance val s.subvec s.subcodebooks q.m_DimPerSubvector
  return ⟨s.out ++ [dist], s.subvec, s.subcodebooks.drop q.m_DimPerSubvector⟩

def quantizeTable (q : PQQuantizer T R) (vec : List T) : Option (List R) := do
  let s ← (List.range q.m_NumSubvectors).foldlM (fun s _ => do
    let s ← (List.range q.m_KsPerSubvector).foldlM (fun s _ => q.writeDistance val s) s
    return ⟨s.out, s.subvec.drop q.m_DimPerSubvector, s.subcodebooks⟩) ⟨[], vec, q.m_codebooks⟩
  return s.out

/-- Without ADC the next codeword is kept where it is nearer than `minDist`, which is infinite
while there is no `bestIndex`. -/
def keepBest [LinearOrder R] (q : PQQuantizer T R) (s : Scan (Option Nat × WithTop R) T) (j : Nat) :
    Option (Scan (Option Nat × WithTop R) T) := do
  let dist ← computeL2Distance val s.subvec s.subcodebooks q.m_DimPerSubvector
  let best := if (dist : WithTop R) < s.out.2 then (some j, (dist : WithTop R)) else s.out
  return ⟨best, s.subvec, s.subcodebooks.drop q.m_DimPerSubvector⟩

def quantizeCode [LinearOrder R] (q : PQQuantizer T R) (vec : List T) : Option (List UInt8) := do
  let s ← (List.range q.m_NumSubvectors).foldlM (fun (s : Scan (List UInt8) T) _ => do
    let best ← (List.range q.m_KsPerSubvector).foldlM (q.keepBest val)
      ⟨(none, ⊤), s.subvec, s.subcodebooks⟩
    -- the assertion
    let bestIndex ← best.out.1
    return ⟨s.out ++ [UInt8.ofNat bestIndex], best.subvec.drop q.m_DimPerSubvector,
      best.subcodebooks⟩) ⟨[], vec, q.m_codebooks⟩
  return s.out

def quantizeVector [LinearOrder R] (q : PQQuantizer T R) (vec : List T) (ADC : Bool) :
    Option (Quantized R) :=
  if ADC ∧ q.m_EnableADC then (q.quantizeTable val vec).map .table
  else (q.quantizeCode val vec).map .code

def l2Distance (q : PQQuantizer T R) (pX : Quantized R) (pY : List UInt8) : Option R :=
  if q.m_EnableADC then
    match pX with
    | .table ptr => do
      let (out, _) ← (List.range q.m_NumSubvectors).foldlM (fun (out, ptr) i => do
        let y ← pY[i]?
        let dist ← ptr[y.toNat]?
        return (out + dist, ptr.drop q.m_KsPerSubvector)) (0, ptr)
      return out
    | .code _ => none
  else
    match pX with
    | .code pX => (List.range q.m_NumSubvectors).foldlM (fun out i => do
        let x ← pX[i]?
        let y ← pY[i]?
        let dist ← q.m_L2DistanceTables.get (q.distIndexCalc i x.toNat y.toNat)
        return out + dist) 0
    | .table _ => none

def reconstructVector (q : PQQuantizer T R) (qvec : List UInt8) : Option (List T) := do
  let (vecout, _) ← (List.range q.m_NumSubvectors).foldlM (fun (vecout, subcodebooks) i => do
    let code ← qvec[i]?
    let sub ← readAt subcodebooks q.m_DimPerSubvector (code.toNat * q.m_DimPerSubvector)
    return (vecout ++ sub, subcodebooks.drop (q.m_KsPerSubvector * q.m_DimPerSubvector)))
    ([], q.m_codebooks)
  return vecout

end Source

end PQQuantizer

/-- The codewords of each subvector, one after the other; the dimensions are numbers of 31 bits. -/
structure Codebook (T : Type) where
  NumSubvectors : Nat
  KsPerSubvector : Nat
  DimPerSubvector : Nat
  values : List T
  length_values : values.length = NumSubvectors * KsPerSubvector * DimPerSubvector
  Ks_pos : 0 < KsPerSubvector
  Ks_le : KsPerSubvector ≤ 256
  NumSubvectors_lt : NumSubvectors < 2 ^ 31
  DimPerSubvector_lt : DimPerSubvector < 2 ^ 31

namespace Codebook

variable {T R : Type}

def word (cb : Codebook T) (i j : Nat) : List T :=
  slice cb.DimPerSubvector cb.values (i * cb.KsPerSubvector + j)

def dim (cb : Codebook T) : Nat := cb.NumSubvectors * cb.DimPerSubvector

def sub (cb : Codebook T) (vec : List T) (i : Nat) : List T := slice cb.DimPerSubvector vec i

structure IsCode (cb : Codebook T) (code : List UInt8) : Prop where
  length : code.length = cb.NumSubvectors
  lt : ∀ i < cb.NumSubvectors, (code.getD i 0).toNat < cb.KsPerSubvector

def reconstruct (cb : Codebook T) (code : List UInt8) : List T :=
  (List.range cb.NumSubvectors).flatMap fun i => cb.word i (code.getD i 0).toNat

def quantizer (cb : Codebook T) (adc : Bool) (tables : Slots R) : PQQuantizer T R where
  m_NumSubvectors := cb.NumSubvectors
  m_KsPerSubvector := cb.KsPerSubvector
  m_DimPerSubvector := cb.DimPerSubvector
  m_BlockSize := cb.KsPerSubvector * cb.KsPerSubvector
  m_EnableADC := adc
  m_codebooks := cb.values
  m_L2DistanceTables := tables

variable {cb : Codebook T} {i j k : Nat}

section

variable {adc : Bool} {tables : Slots R}

@[simp] theorem quantizer_NumSubvectors :
    (cb.quantizer adc tables).m_NumSubvectors = cb.NumSubvectors := rfl

@[simp] theorem quantizer_KsPerSubvector :
    (cb.quantizer adc tables).m_KsPerSubvector = cb.KsPerSubvector := rfl

@[simp] theorem quantizer_DimPerSubvector :
    (cb.quantizer adc tables).m_DimPerSubvector = cb.DimPerSubvector := rfl

@[simp] theorem quantizer_EnableADC : (cb.quantizer adc tables).m_EnableADC = adc := rfl

@[simp] theorem quantizer_codebooks : (cb.quantizer adc tables).m_codebooks = cb.values := rfl

@[simp] theorem quantizer_tables : (cb.quantizer adc tables).m_L2DistanceTables = tables := rfl

@[simp] theorem quantizer_distIndexCalc (i j k : Nat) :
    (cb.quantizer adc tables).distIndexCalc i j k =
      cb.KsPerSubvector * cb.KsPerSubvector * i + j * cb.KsPerSubvector + k := rfl

end

theorem place_lt (hi : i < cb.NumSubvectors) (hj : j < cb.KsPerSubvector) :
    i * cb.KsPerSubvector + j < cb.NumSubvectors * cb.KsPerSubvector := by
  have hle := Nat.mul_le_mul_right cb.KsPerSubvector (Nat.succ_le_of_lt hi)
  rw [Nat.succ_mul] at hle
  omega

theorem length_word (hi : i < cb.NumSubvectors) (hj : j < cb.KsPerSubvector) :
    (cb.word i j).length = cb.DimPerSubvector :=
  length_slice (place_lt hi hj) cb.length_values.ge

theorem le_length_drop (hi : i < cb.NumSubvectors) (hj : j < cb.KsPerSubvector) :
    cb.DimPerSubvector ≤
      (cb.values.drop ((i * cb.KsPerSubvector + j) * cb.DimPerSubvector)).length := by
  have hle := slice_le (place_lt hi hj) cb.length_values.ge
  rw [List.length_drop]
  omega

section Tables

variable [CommRing R] (val : T → R)

def place (cb : Codebook T) (i j k : Nat) : Nat :=
  cb.KsPerSubvector * cb.KsPerSubvector * i + j * cb.KsPerSubvector + k

theorem place_eq : cb.place i j k =
    (i * cb.KsPerSubvector + j) * cb.KsPerSubvector + k := by
  unfold place
  ring

theorem place_inj {i' j' k' : Nat} (hj : j < cb.KsPerSubvector) (hk : k < cb.KsPerSubvector)
    (hj' : j' < cb.KsPerSubvector) (hk' : k' < cb.KsPerSubvector)
    (h : cb.place i j k = cb.place i' j' k') : i = i' ∧ j = j' ∧ k = k' := by
  rw [place_eq, place_eq] at h
  have hmod : ∀ {a b : Nat}, b < cb.KsPerSubvector →
    (a * cb.KsPerSubvector + b) % cb.KsPerSubvector = b :=
    fun hb => by rw [Nat.mul_add_mod', Nat.mod_eq_of_lt hb]
  obtain rfl : k = k' := by rw [← hmod hk, h, hmod hk']
  have h' := Nat.eq_of_mul_eq_mul_right cb.Ks_pos (Nat.add_right_cancel h)
  obtain rfl : j = j' := by rw [← hmod hj, h', hmod hj']
  exact ⟨Nat.eq_of_mul_eq_mul_right cb.Ks_pos (Nat.add_right_cancel h'), rfl, rfl⟩

structure Filled (cb : Codebook T) (n : Nat) (tables : Slots R) : Prop where
  size : tables.size = cb.KsPerSubvector * cb.KsPerSubvector * cb.NumSubvectors
  cell : ∀ i j k, j < cb.KsPerSubvector → k < cb.KsPerSubvector → cb.place i j k < n →
    tables.cell (cb.place i j k) = sqDist val (cb.word i j) (cb.word i k)

variable {val} {tables : Slots R}

theorem place_lt_size (hi : i < cb.NumSubvectors) (hj : j < cb.KsPerSubvector)
    (hk : k < cb.KsPerSubvector) :
    cb.place i j k < cb.KsPerSubvector * cb.KsPerSubvector * cb.NumSubvectors := by
  have hle := Nat.mul_le_mul_right cb.KsPerSubvector (Nat.succ_le_of_lt (place_lt hi hj))
  rw [Nat.succ_mul] at hle
  have hsize : cb.KsPerSubvector * cb.KsPerSubvector * cb.NumSubvectors =
      cb.NumSubvectors * cb.KsPerSubvector * cb.KsPerSubvector := by ring
  rw [place_eq, hsize]
  omega

theorem Filled.set (h : cb.Filled val (cb.place i j k) tables) (hi : i < cb.NumSubvectors)
    (hj : j < cb.KsPerSubvector) (hk : k < cb.KsPerSubvector) :
    ∃ tables', Slots.set tables (cb.place i j k) (sqDist val (cb.word i j) (cb.word i k)) =
      some tables' ∧ cb.Filled val (cb.place i j (k + 1)) tables' := by
  refine ⟨_, Slots.set_of_lt (h.size ▸ place_lt_size hi hj hk) _, h.size, ?_⟩
  intro i' j' k' hj' hk' hlt
  dsimp only
  by_cases heq : cb.place i' j' k' = cb.place i j k
  · obtain ⟨rfl, rfl, rfl⟩ := place_inj hj' hk' hj hk heq
    exact Function.update_self ..
  · rw [Function.update_of_ne heq]
    exact h.cell i' j' k' hj' hk' (Nat.lt_of_le_of_ne (Nat.le_of_lt_succ hlt) heq)

theorem distance_words (hi : i < cb.NumSubvectors) (hj : j < cb.KsPerSubvector)
    (hk : k < cb.KsPerSubvector) :
    computeL2Distance val
      (cb.values.drop (i * cb.KsPerSubvector * cb.DimPerSubvector + j * cb.DimPerSubvector))
      (cb.values.drop (i * cb.KsPerSubvector * cb.DimPerSubvector + k * cb.DimPerSubvector))
      cb.DimPerSubvector = some (sqDist val (cb.word i j) (cb.word i k)) := by
  rw [← Nat.add_mul, ← Nat.add_mul]
  exact computeL2Distance_eq val (le_length_drop hi hj) (le_length_drop hi hk)

variable (val cb) in
theorem distanceTables_spec (adc : Bool) (old : Slots R) :
    ∃ tables, (cb.quantizer adc old).distanceTables val = some tables ∧
      cb.Filled val (cb.place cb.NumSubvectors 0 0) tables := by
  refine foldlM_range_spec (fun i => cb.Filled val (cb.place i 0 0)) (fun i hi tables h => ?_)
    ⟨rfl, fun i j k _ _ hlt => absurd hlt (by simp [place])⟩
  have hrow : cb.place i cb.KsPerSubvector 0 = cb.place (i + 1) 0 0 := by
    rw [place_eq, place_eq]
    ring
  rw [← hrow]
  refine foldlM_range_spec (fun j => cb.Filled val (cb.place i j 0)) (fun j hj tables h => ?_) h
  have hline : cb.place i j cb.KsPerSubvector = cb.place i (j + 1) 0 := by
    rw [place_eq, place_eq]
    ring
  rw [← hline]
  refine foldlM_range_spec (fun k => cb.Filled val (cb.place i j k)) (fun k hk tables h => ?_) h
  obtain ⟨tables', hset, hfilled⟩ := h.set hi hj hk
  refine ⟨tables', ?_, hfilled⟩
  simp only [quantizer, distance_words hi hj hk, Option.bind_eq_bind, Option.bind_some]
  exact hset

theorem tabled_eq {adc : Bool} {old : Slots R}
    (htables : (cb.quantizer adc old).distanceTables val = some tables) :
    PQQuantizer.initializeDistanceTables val (cb.quantizer adc old) =
      some (cb.quantizer adc tables) := by
  rw [PQQuantizer.initializeDistanceTables, htables]
  rfl

end Tables

section Quantizing

variable [CommRing R] (val : T → R) {adc : Bool} {tables : Slots R} {vec : List T}

def dist (cb : Codebook T) (vec : List T) (i j : Nat) : R := sqDist val (cb.sub vec i) (cb.word i j)

theorem le_length_sub (hvec : vec.length = cb.dim) (hi : i < cb.NumSubvectors) :
    cb.DimPerSubvector ≤ (vec.drop (i * cb.DimPerSubvector)).length := by
  have hle := slice_le hi hvec.ge
  rw [List.length_drop]
  omega

theorem distance_word (hvec : vec.length = cb.dim) (hi : i < cb.NumSubvectors)
    (hj : j < cb.KsPerSubvector) :
    computeL2Distance val (vec.drop (i * cb.DimPerSubvector))
      (cb.values.drop ((i * cb.KsPerSubvector + j) * cb.DimPerSubvector)) cb.DimPerSubvector =
        some (cb.dist val vec i j) :=
  computeL2Distance_eq val (le_length_sub hvec hi) (le_length_drop hi hj)

def scan {W : Type} (cb : Codebook T) (vec : List T) (i j : Nat) (out : W) : Scan W T :=
  ⟨out, vec.drop (i * cb.DimPerSubvector),
    cb.values.drop ((i * cb.KsPerSubvector + j) * cb.DimPerSubvector)⟩

theorem scan_next {W : Type} (out : W) : (⟨out, vec.drop (i * cb.DimPerSubvector),
    (cb.values.drop ((i * cb.KsPerSubvector + j) * cb.DimPerSubvector)).drop cb.DimPerSubvector⟩ :
      Scan W T) = cb.scan vec i (j + 1) out := by
  rw [scan, List.drop_drop, ← Nat.succ_mul]
  rfl

theorem scan_nextSub {W : Type} (out : W) :
    (⟨out, (vec.drop (i * cb.DimPerSubvector)).drop cb.DimPerSubvector,
    cb.values.drop ((i * cb.KsPerSubvector + cb.KsPerSubvector) * cb.DimPerSubvector)⟩ :
      Scan W T) = cb.scan vec (i + 1) 0 out := by
  rw [scan, List.drop_drop, ← Nat.succ_mul, ← Nat.succ_mul]
  rfl

def distances (cb : Codebook T) (vec : List T) (i : Nat) : List R :=
  (List.range cb.KsPerSubvector).map fun j => cb.dist val vec i j

theorem writeDistances_eq (hvec : vec.length = cb.dim) (hi : i < cb.NumSubvectors) (out : List R) :
    (List.range cb.KsPerSubvector).foldlM
      (fun s _ => (cb.quantizer adc tables).writeDistance val s) (cb.scan vec i 0 out) =
        some (cb.scan vec i cb.KsPerSubvector (out ++ cb.distances val vec i)) := by
  have hrun := foldlM_range_eq (n := cb.KsPerSubvector)
    (f := fun s _ => (cb.quantizer adc tables).writeDistance val s)
    (fun j => cb.scan vec i j
      (out ++ (List.range j).map fun j => cb.dist val vec i j)) ?_
  · rwa [List.range_zero, List.map_nil, List.append_nil] at hrun
  · intro j hj
    simp only [PQQuantizer.writeDistance, quantizer_DimPerSubvector]
    rw [scan, distance_word val hvec hi hj]
    simp only [Option.bind_eq_bind, Option.bind_some, scan_next, List.range_succ, List.map_append,
      List.map_singleton, List.append_assoc]
    rfl

theorem quantizeTable_eq (hvec : vec.length = cb.dim) :
    (cb.quantizer adc tables).quantizeTable val vec =
      some ((List.range cb.NumSubvectors).flatMap (cb.distances val vec)) := by
  have hrun := foldlM_range_eq (n := cb.NumSubvectors)
    (f := fun s _ => do
      let s ← (List.range cb.KsPerSubvector).foldlM
        (fun s _ => (cb.quantizer adc tables).writeDistance val s) s
      return (⟨s.out, s.subvec.drop cb.DimPerSubvector, s.subcodebooks⟩ : Scan (List R) T))
    (fun i => cb.scan vec i 0 ((List.range i).flatMap (cb.distances val vec))) ?_
  · have hstart : cb.scan vec 0 0 ([] : List R) = ⟨[], vec, cb.values⟩ := by simp [scan]
    rw [List.range_zero, List.flatMap_nil, hstart] at hrun
    simp only [PQQuantizer.quantizeTable, quantizer_NumSubvectors, quantizer_KsPerSubvector,
      quantizer_DimPerSubvector, quantizer_codebooks]
    rw [hrun]
    rfl
  · intro i hi
    simp only [writeDistances_eq val hvec hi, Option.bind_eq_bind, Option.bind_some]
    rw [scan, scan_nextSub, List.range_succ, List.flatMap_append, List.flatMap_singleton]
    rfl

variable [LinearOrder R]

def IsNearest (cb : Codebook T) (vec : List T) (i n j : Nat) : Prop :=
  j < n ∧ ∀ j' < n, cb.dist val vec i j ≤ cb.dist val vec i j'

variable {val} in
theorem IsNearest.keep {n : Nat} (h : cb.IsNearest val vec i n j)
    (hle : cb.dist val vec i j ≤ cb.dist val vec i n) :
    cb.IsNearest val vec i (n + 1) j := by
  refine ⟨h.1.trans n.lt_succ_self, fun j' hj' => ?_⟩
  rcases (Nat.le_of_lt_succ hj').eq_or_lt with rfl | hlt
  · exact hle
  · exact h.2 j' hlt

variable {val} in
theorem IsNearest.replace {n : Nat} (h : cb.IsNearest val vec i n j)
    (hlt : cb.dist val vec i n < cb.dist val vec i j) :
    cb.IsNearest val vec i (n + 1) n := by
  refine ⟨n.lt_succ_self, fun j' hj' => ?_⟩
  rcases (Nat.le_of_lt_succ hj').eq_or_lt with rfl | hj'
  · exact le_rfl
  · exact hlt.le.trans (h.2 j' hj')

def Kept (cb : Codebook T) (vec : List T) (i n : Nat) (best : Option Nat × WithTop R) : Prop :=
  (n = 0 ∧ best = (none, ⊤)) ∨ ∃ j, cb.IsNearest val vec i n j ∧
    best = (some j, ((cb.dist val vec i j : R) : WithTop R))

theorem keepBest_spec (hvec : vec.length = cb.dim) (hi : i < cb.NumSubvectors)
    (hj : j < cb.KsPerSubvector) {best : Option Nat × WithTop R}
    (hkept : cb.Kept val vec i j best) :
    ∃ best', (cb.quantizer adc tables).keepBest val (cb.scan vec i j best) j =
      some (cb.scan vec i (j + 1) best') ∧ cb.Kept val vec i (j + 1) best' := by
  refine ⟨if ((cb.dist val vec i j : R) : WithTop R) < best.2 then
    (some j, ((cb.dist val vec i j : R) : WithTop R)) else best, ?_, .inr ?_⟩
  · simp only [PQQuantizer.keepBest, quantizer_DimPerSubvector]
    rw [scan, distance_word val hvec hi hj]
    simp only [Option.bind_eq_bind, Option.bind_some, scan_next]
    rfl
  · rcases hkept with ⟨rfl, rfl⟩ | ⟨b, hb, rfl⟩
    · refine ⟨0, ⟨Nat.one_pos, fun j' hj' => ?_⟩, if_pos (WithTop.coe_lt_top _)⟩
      rw [Nat.lt_one_iff.mp hj']
    · by_cases hlt : cb.dist val vec i j < cb.dist val vec i b
      · exact ⟨j, hb.replace hlt, if_pos (WithTop.coe_lt_coe.mpr hlt)⟩
      · exact ⟨b, hb.keep (not_lt.mp hlt), if_neg (mt WithTop.coe_lt_coe.mp hlt)⟩

theorem keepBest_run (adc : Bool) (tables : Slots R) (hvec : vec.length = cb.dim)
    (hi : i < cb.NumSubvectors) :
    ∃ j dist, (List.range cb.KsPerSubvector).foldlM ((cb.quantizer adc tables).keepBest val)
      (cb.scan vec i 0 (none, ⊤)) = some (cb.scan vec i cb.KsPerSubvector (some j, dist)) ∧
      cb.IsNearest val vec i cb.KsPerSubvector j := by
  obtain ⟨s, hs, best, rfl, hkept⟩ := foldlM_range_spec (n := cb.KsPerSubvector)
    (f := (cb.quantizer adc tables).keepBest val) (s := cb.scan vec i 0 (none, ⊤))
    (fun j s => ∃ best, s = cb.scan vec i j best ∧ cb.Kept val vec i j best)
    (fun j hj s => by
      rintro ⟨best, rfl, hkept⟩
      obtain ⟨best', hbest', hkept'⟩ := keepBest_spec val hvec hi hj hkept
      exact ⟨_, hbest', best', rfl, hkept'⟩)
    ⟨(none, ⊤), rfl, .inl ⟨rfl, rfl⟩⟩
  rcases hkept with ⟨hzero, -⟩ | ⟨j, hj, rfl⟩
  · exact absurd hzero cb.Ks_pos.ne'
  · exact ⟨j, _, hs, hj⟩

theorem quantizeCode_spec (adc : Bool) (tables : Slots R) (hvec : vec.length = cb.dim) :
    ∃ code, (cb.quantizer adc tables).quantizeCode val vec = some code ∧
      code.length = cb.NumSubvectors ∧ ∀ i < cb.NumSubvectors,
        cb.IsNearest val vec i cb.KsPerSubvector (code.getD i 0).toNat := by
  obtain ⟨s, hs, code, rfl, hlen, hcode⟩ := foldlM_range_spec (n := cb.NumSubvectors)
    (f := fun (s : Scan (List UInt8) T) _ => do
      let best ← (List.range cb.KsPerSubvector).foldlM ((cb.quantizer adc tables).keepBest val)
        ⟨(none, ⊤), s.subvec, s.subcodebooks⟩
      let bestIndex ← best.out.1
      return (⟨s.out ++ [UInt8.ofNat bestIndex], best.subvec.drop cb.DimPerSubvector,
        best.subcodebooks⟩ : Scan (List UInt8) T)) (s := ⟨[], vec, cb.values⟩)
    (fun i s => ∃ code, s = cb.scan vec i 0 code ∧ code.length = i ∧
      ∀ i' < i, cb.IsNearest val vec i' cb.KsPerSubvector (code.getD i' 0).toNat)
    (fun i hi s => by
      rintro ⟨code, rfl, hlen, hcode⟩
      obtain ⟨j, dist, hrun, hj⟩ := keepBest_run val adc tables hvec hi
      refine ⟨cb.scan vec (i + 1) 0 (code ++ [UInt8.ofNat j]), ?_, _, rfl, by simp [hlen], ?_⟩
      · rw [scan] at hrun
        simp only [scan, hrun, Option.bind_eq_bind, Option.bind_some]
        exact congrArg some (scan_nextSub _)
      · intro i' hi'
        rcases (Nat.le_of_lt_succ hi').eq_or_lt with rfl | hlt
        · rw [List.getD_append_right _ _ _ _ hlen.le, hlen, Nat.sub_self]
          have hbyte : (UInt8.ofNat j).toNat = j :=
            UInt8.toNat_ofNat_of_lt' (hj.1.trans_le cb.Ks_le)
          rwa [List.getD_cons_zero, hbyte]
        · rw [List.getD_append _ _ _ _ (hlen ▸ hlt)]
          exact hcode i' hlt)
    ⟨[], by simp [scan], rfl, fun i hi => absurd hi (Nat.not_lt_zero i)⟩
  refine ⟨code, ?_, hlen, hcode⟩
  simp only [PQQuantizer.quantizeCode, quantizer_NumSubvectors, quantizer_KsPerSubvector,
    quantizer_DimPerSubvector, quantizer_codebooks]
  rw [hs]
  rfl

end Quantizing

section Reconstructions

variable {adc : Bool} {tables : Slots R} {x : List UInt8}

theorem IsCode.get (hx : cb.IsCode x) (hi : i < cb.NumSubvectors) : x[i]? = some (x.getD i 0) := by
  have hlt : i < x.length := hx.length ▸ hi
  rw [List.getD_eq_getElem?_getD, List.getElem?_eq_getElem hlt, Option.getD_some]

theorem slice_reconstruct (hx : cb.IsCode x) (hi : i < cb.NumSubvectors) :
    slice cb.DimPerSubvector (cb.reconstruct x) i = cb.word i (x.getD i 0).toNat :=
  slice_flatMap (fun i hi => length_word hi (hx.lt i hi)) hi

theorem length_reconstruct (hx : cb.IsCode x) : (cb.reconstruct x).length = cb.dim := by
  rw [reconstruct, length_flatMap_of_size fun i hi =>
    length_word (List.mem_range.mp hi) (hx.lt i (List.mem_range.mp hi)), List.length_range, dim]

theorem reconstructVector_eq (hx : cb.IsCode x) :
    (cb.quantizer adc tables).reconstructVector x = some (cb.reconstruct x) := by
  have hrun := foldlM_range_eq (n := cb.NumSubvectors)
    (f := fun (s : List T × List T) i => do
      let code ← x[i]?
      let sub ← readAt s.2 cb.DimPerSubvector (code.toNat * cb.DimPerSubvector)
      return (s.1 ++ sub, s.2.drop (cb.KsPerSubvector * cb.DimPerSubvector)))
    (fun i => ((List.range i).flatMap fun i => cb.word i (x.getD i 0).toNat,
      cb.values.drop (i * (cb.KsPerSubvector * cb.DimPerSubvector)))) ?_
  · rw [List.range_zero, List.flatMap_nil, Nat.zero_mul, List.drop_zero] at hrun
    simp only [PQQuantizer.reconstructVector, quantizer_NumSubvectors, quantizer_KsPerSubvector,
      quantizer_DimPerSubvector, quantizer_codebooks]
    rw [hrun]
    rfl
  · intro i hi
    have hword : readAt (cb.values.drop (i * (cb.KsPerSubvector * cb.DimPerSubvector)))
        cb.DimPerSubvector ((x.getD i 0).toNat * cb.DimPerSubvector) =
          some (cb.word i (x.getD i 0).toNat) := by
      have hplace : i * (cb.KsPerSubvector * cb.DimPerSubvector) +
          (x.getD i 0).toNat * cb.DimPerSubvector =
            (i * cb.KsPerSubvector + (x.getD i 0).toNat) * cb.DimPerSubvector := by ring
      have hle := slice_le (place_lt hi (hx.lt i hi)) cb.length_values.ge
      rw [readAt, List.drop_drop, hplace, if_pos]
      · rfl
      · rw [List.length_drop]
        omega
    rw [hx.get hi]
    simp only [Option.bind_eq_bind, Option.bind_some, hword, List.drop_drop, ← Nat.succ_mul,
      List.range_succ, List.flatMap_append, List.flatMap_singleton]
    rfl

end Reconstructions

section Distances

variable [CommRing R] (val : T → R) {tables : Slots R} {vec : List T} {x y : List UInt8}

theorem sqDist_eq_sum {u v : List T} (hu : u.length = cb.dim) (hv : v.length = cb.dim) :
    sqDist val u v = ∑ i ∈ Finset.range cb.NumSubvectors, sqDist val (cb.sub u i) (cb.sub v i) := by
  have hsum := sqDist_slices val hu.ge hv.ge
  have htake : ∀ {l : List T}, l.length = cb.dim →
      l.take (cb.NumSubvectors * cb.DimPerSubvector) = l := fun hl => List.take_of_length_le hl.le
  rwa [htake hu, htake hv] at hsum

theorem l2Distance_codes (htables : cb.Filled val (cb.place cb.NumSubvectors 0 0) tables)
    (hx : cb.IsCode x) (hy : cb.IsCode y) :
    (cb.quantizer false tables).l2Distance (.code x) y =
      some (sqDist val (cb.reconstruct x) (cb.reconstruct y)) := by
  have hrun := foldlM_range_eq (n := cb.NumSubvectors)
    (f := fun (out : R) i => do
      let x ← x[i]?
      let y ← y[i]?
      let dist ← Slots.get tables (cb.place i x.toNat y.toNat)
      return out + dist)
    (fun i => ∑ i ∈ Finset.range i, sqDist val (cb.sub (cb.reconstruct x) i)
      (cb.sub (cb.reconstruct y) i)) ?_
  · rw [Finset.range_zero, Finset.sum_empty, ← sqDist_eq_sum val (length_reconstruct hx)
      (length_reconstruct hy)] at hrun
    exact hrun
  · intro i hi
    have hplace := place_lt_size hi (hx.lt i hi) (hy.lt i hi)
    have hlt : cb.place i (x.getD i 0).toNat (y.getD i 0).toNat <
      cb.place cb.NumSubvectors 0 0 := by
      simpa [place] using hplace
    rw [hx.get hi, hy.get hi, Finset.sum_range_succ, sub, sub, slice_reconstruct hx hi,
      slice_reconstruct hy hi, ← htables.cell i _ _ (hx.lt i hi) (hy.lt i hi) hlt]
    simp only [Option.bind_eq_bind, Option.bind_some, Slots.get_of_lt (htables.size ▸ hplace)]
    rfl

theorem l2Distance_table (hvec : vec.length = cb.dim) (hy : cb.IsCode y) :
    (cb.quantizer true tables).l2Distance
      (.table ((List.range cb.NumSubvectors).flatMap (cb.distances val vec))) y =
        some (sqDist val vec (cb.reconstruct y)) := by
  obtain ⟨table, htable⟩ : ∃ table, table =
    (List.range cb.NumSubvectors).flatMap (cb.distances val vec) := ⟨_, rfl⟩
  have hrun := foldlM_range_eq (n := cb.NumSubvectors)
    (f := fun (s : R × List R) i => do
      let y ← y[i]?
      let dist ← s.2[y.toNat]?
      return (s.1 + dist, s.2.drop cb.KsPerSubvector))
    (fun i => (∑ i ∈ Finset.range i, sqDist val (cb.sub vec i) (cb.sub (cb.reconstruct y) i),
      table.drop (i * cb.KsPerSubvector))) ?_
  · rw [Finset.range_zero, Finset.sum_empty, Nat.zero_mul, List.drop_zero,
      ← sqDist_eq_sum val hvec (length_reconstruct hy)] at hrun
    rw [← htable]
    simp only [PQQuantizer.l2Distance, quantizer_EnableADC, quantizer_NumSubvectors,
      quantizer_KsPerSubvector, if_true]
    rw [hrun]
    rfl
  · intro i hi
    have hrow : slice cb.KsPerSubvector table i = cb.distances val vec i := by
      rw [htable]
      exact slice_flatMap (fun i _ => by simp [distances]) hi
    have hentry : (table.drop (i * cb.KsPerSubvector))[(y.getD i 0).toNat]? =
        some (cb.dist val vec i (y.getD i 0).toNat) := by
      rw [← List.getElem?_take_of_lt (hy.lt i hi), take_drop_eq_slice, hrow, distances,
        List.getElem?_map, List.getElem?_range (hy.lt i hi), Option.map_some]
    rw [hy.get hi, Finset.sum_range_succ]
    simp only [Option.bind_eq_bind, Option.bind_some, hentry, List.drop_drop, ← Nat.succ_mul]
    rw [dist, ← slice_reconstruct hy hi]
    rfl

end Distances

end Codebook

end Sptag.COMMON
