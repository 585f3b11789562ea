import Sptag.Common.PQQuantizer
import Sptag.Lib.Codec

/-! `inc/Core/Common/PQQuantizer.h`: a quantizer saved and loaded, and all that it owes to its
codebook. -/

namespace Sptag.COMMON

open Lib DistanceUtils

namespace PQQuantizer

variable {T R : Type} [Fundamental T] [CommRing R]

section Source

def quantizerType : UInt8 := 1

def saveQuantizer (rtype : UInt8) (q : PQQuantizer T R) : Option Bytes :=
  let size := q.m_NumSubvectors * q.m_KsPerSubvector * q.m_DimPerSubvector
  if size ≤ q.m_codebooks.length then
    some ([quantizerType] ++ [rtype] ++ leBytes 4 q.m_NumSubvectors ++
      leBytes 4 q.m_KsPerSubvector ++ leBytes 4 q.m_DimPerSubvector ++
      (q.m_codebooks.take size).flatMap writeValue)
  else none

def empty : PQQuantizer T R where
  m_NumSubvectors := 0
  m_KsPerSubvector := 0
  m_DimPerSubvector := 0
  m_BlockSize := 0
  m_EnableADC := false
  m_codebooks := []
  m_L2DistanceTables := ⟨0, fun _ => 0⟩

variable (val : T → R)

def loadQuantizer (q : PQQuantizer T R) : Reader UInt8 (PQQuantizer T R) := do
  let m_NumSubvectors ← leVal <$> readFront 4
  let m_KsPerSubvector ← leVal <$> readFront 4
  let m_DimPerSubvector ← leVal <$> readFront 4
  let m_codebooks ← (List.range (m_NumSubvectors * m_KsPerSubvector * m_DimPerSubvector)).mapM
    fun _ => readValue T
  StateT.lift (initializeDistanceTables val { q with
    m_NumSubvectors := m_NumSubvectors
    m_KsPerSubvector := m_KsPerSubvector
    m_DimPerSubvector := m_DimPerSubvector
    m_codebooks := m_codebooks
    m_BlockSize := m_KsPerSubvector * m_KsPerSubvector })

def loadIQuantizer (rtype : UInt8) : Reader UInt8 (PQQuantizer T R) := do
  let quantizerType' ← readFront 1
  let reconstructType ← readFront 1
  if quantizerType' = [quantizerType] ∧ reconstructType = [rtype] then loadQuantizer val empty
  else failure

end Source

end PQQuantizer

namespace Codebook

variable {T R : Type} [Fundamental T] [CommRing R] (val : T → R) (rtype : UInt8)
  {cb : Codebook T} {adc : Bool} {tables : Slots R}

def payload (cb : Codebook T) : Bytes :=
  leBytes 4 cb.NumSubvectors ++ (leBytes 4 cb.KsPerSubvector ++ (leBytes 4 cb.DimPerSubvector ++
    (cb.values.flatMap writeValue ++ [])))

def bytes (cb : Codebook T) (rtype : UInt8) : Bytes :=
  [PQQuantizer.quantizerType] ++ ([rtype] ++ cb.payload)

omit [CommRing R] in
theorem saveQuantizer_eq :
    (cb.quantizer adc tables).saveQuantizer rtype = some (cb.bytes rtype) := by
  refine (if_pos cb.length_values.ge).trans ?_
  have htake := List.take_of_length_le cb.length_values.le
  simp only [quantizer_NumSubvectors, quantizer_KsPerSubvector, quantizer_DimPerSubvector,
    quantizer_codebooks, htake, bytes, payload, List.append_assoc, List.append_nil]

theorem reads_u32 {n : Nat} (hn : n < 2 ^ 31) :
    Reads (leVal <$> readFront 4) (leBytes 4 n) n := by
  have hread := (reads_readFront (leBytes_length 4 n)).map leVal
  rwa [leVal_leBytes_of_lt (hn.trans (by decide))] at hread

theorem reads_values (values : List T) {n : Nat} (hn : values.length = n) :
    Reads ((List.range n).mapM fun _ => readValue T) (values.flatMap writeValue) values := by
  have hlen : (List.range n).length = values.length := by rw [List.length_range, hn]
  have hread := reads_mapM hlen fun _ _ v _ => reads_value v
  rwa [List.map_id'] at hread

theorem reads_lift {β : Type} {o : Option β} {b : β} (h : o = some b) :
    Reads (StateT.lift o : Reader UInt8 β) [] b := by
  intro s
  rw [h]
  rfl

theorem loadIQuantizer_eq (htables :
    (cb.quantizer false ⟨0, fun _ => 0⟩).distanceTables val = some tables)
    (rest : Bytes) :
    PQQuantizer.loadIQuantizer val rtype (cb.bytes rtype ++ rest) =
      some (cb.quantizer false tables, rest) := by
  have hload : Reads (PQQuantizer.loadQuantizer val PQQuantizer.empty) cb.payload
      (cb.quantizer false tables) :=
    (reads_u32 cb.NumSubvectors_lt).bind <|
      (reads_u32 (cb.Ks_le.trans_lt (by decide))).bind <|
        (reads_u32 cb.DimPerSubvector_lt).bind <|
          (reads_values cb.values cb.length_values).bind (reads_lift (tabled_eq htables))
  have hall : Reads (PQQuantizer.loadIQuantizer val rtype) (cb.bytes rtype)
      (cb.quantizer false tables) := by
    unfold PQQuantizer.loadIQuantizer
    refine Reads.bind (b := [PQQuantizer.quantizerType]) (reads_readFront rfl) ?_
    refine Reads.bind (b := [rtype]) (reads_readFront rfl) ?_
    rw [if_pos ⟨rfl, rfl⟩]
    exact hload
  exact hall rest

structure Consistent [LinearOrder R] (cb : Codebook T) (adc : Bool)
    (q : PQQuantizer T R) : Prop where
  nearest : ∀ vec, vec.length = cb.dim → ∀ ADC, (ADC && adc) = false → ∃ code,
    q.quantizeVector val vec ADC = some (.code code) ∧ cb.IsCode code ∧
      ∀ i < cb.NumSubvectors, cb.IsNearest val vec i cb.KsPerSubvector (code.getD i 0).toNat
  symmetric : adc = false → ∀ x y, cb.IsCode x → cb.IsCode y → ∃ u v,
    q.reconstructVector x = some u ∧ q.reconstructVector y = some v ∧
      q.l2Distance (.code x) y = some (sqDist val u v)
  asymmetric : adc = true → ∀ vec y, vec.length = cb.dim → cb.IsCode y → ∃ table v,
    q.quantizeVector val vec true = some (.table table) ∧ q.reconstructVector y = some v ∧
      q.l2Distance (.table table) y = some (sqDist val vec v)
  saved : ∃ bytes, q.saveQuantizer rtype = some bytes ∧ ∀ rest, ∃ q',
    PQQuantizer.loadIQuantizer val rtype (bytes ++ rest) = some (q', rest) ∧
      q'.setEnableADC adc = q

/-- The quantizer made of a codebook is consistent. -/
theorem new_consistent [LinearOrder R] (cb : Codebook T) (adc : Bool) :
    ∃ q, PQQuantizer.new val cb.NumSubvectors cb.KsPerSubvector cb.DimPerSubvector adc cb.values =
      some q ∧ Consistent val rtype cb adc q := by
  obtain ⟨tables, htables, hfilled⟩ := distanceTables_spec cb val adc ⟨0, fun _ => 0⟩
  refine ⟨cb.quantizer adc tables, ?_, ?_, ?_, ?_, ?_⟩
  · exact tabled_eq htables
  · intro vec hvec ADC hoff
    obtain ⟨code, hcode, hlen, hnearest⟩ := quantizeCode_spec val adc tables hvec
    refine ⟨code, ?_, ⟨hlen, fun i hi => (hnearest i hi).1⟩, hnearest⟩
    have hnot : ¬ (ADC = true ∧ adc = true) := by simpa using hoff
    rw [PQQuantizer.quantizeVector, quantizer_EnableADC, if_neg hnot, hcode]
    rfl
  · rintro rfl x y hx hy
    exact ⟨_, _, reconstructVector_eq hx, reconstructVector_eq hy,
      l2Distance_codes val hfilled hx hy⟩
  · rintro rfl vec y hvec hy
    refine ⟨_, _, ?_, reconstructVector_eq hy, l2Distance_table val hvec hy⟩
    rw [PQQuantizer.quantizeVector, quantizer_EnableADC, if_pos ⟨rfl, rfl⟩,
      quantizeTable_eq val hvec]
    rfl
  · exact ⟨_, saveQuantizer_eq rtype, fun rest =>
      ⟨_, loadIQuantizer_eq val rtype htables rest, rfl⟩⟩

def pair : Codebook UInt8 where
  NumSubvectors := 2
  KsPerSubvector := 2
  DimPerSubvector := 2
  values := [0, 10, 3, 7, 1, 12, 5, 4]
  length_values := rfl
  Ks_pos := Nat.two_pos
  Ks_le := by decide
  NumSubvectors_lt := by decide
  DimPerSubvector_lt := by decide

theorem new_consistent_pair :
    ∃ q, PQQuantizer.new (fun v : UInt8 => (v.toNat : Int)) 2 2 2 true
        [0, 10, 3, 7, 1, 12, 5, 4] = some q ∧
      Consistent (fun v : UInt8 => (v.toNat : Int)) 1 pair true q :=
  new_consistent _ 1 pair true

end Codebook

end Sptag.COMMON
