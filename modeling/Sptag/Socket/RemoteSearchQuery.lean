import Sptag.Lib.Codec

/-! `RemoteSearchQuery.cpp`: the messages of client, aggregator and server in bytes, over
`SimpleSerialization.h`. -/

namespace Sptag.Socket

open Lib

namespace SimpleSerialization

variable {T : Type} [Fundamental T]

def simpleWriteBuffer (p_val : T) : Bytes := writeValue p_val

def simpleReadBuffer (T : Type) [Fundamental T] : Reader UInt8 T := readValue T

def estimateBufferSize (_p_val : T) : Nat := Fundamental.size T

def writeBytes (p_val : Bytes) : Bytes :=
  simpleWriteBuffer (UInt32.ofNat p_val.length) ++ p_val

def readBytes : Reader UInt8 Bytes := do
  let len ← simpleReadBuffer UInt32
  readFront len.toNat

def estimateBytes (p_val : Bytes) : Nat := 4 + p_val.length

@[simp] theorem write_length (p_val : T) :
    (simpleWriteBuffer p_val).length = estimateBufferSize p_val :=
  writeValue_length p_val

@[simp] theorem writeBytes_length (p_val : Bytes) : (writeBytes p_val).length =
  estimateBytes p_val := by
  rw [writeBytes, List.length_append, write_length]
  rfl

theorem reads_write (p_val : T) : Reads (simpleReadBuffer T) (simpleWriteBuffer p_val) p_val :=
  reads_value p_val

theorem reads_writeBytes {p_val : Bytes} (h : p_val.length < 2 ^ 32) :
    Reads readBytes (writeBytes p_val) p_val := by
  have hlen : p_val.length = (UInt32.ofNat p_val.length).toNat := by
    rw [UInt32.toNat_ofNat', Nat.mod_eq_of_lt h]
  exact (reads_write _).bind (reads_readFront hlen)

end SimpleSerialization

open SimpleSerialization

abbrev QueryType := UInt8

structure RemoteQuery where
  m_type : QueryType
  m_queryString : Bytes
  deriving DecidableEq

namespace RemoteQuery

def majorVersion : UInt16 := 1

def mirrorVersion : UInt16 := 0

def estimateBufferSize (q : RemoteQuery) : Nat :=
  SimpleSerialization.estimateBufferSize majorVersion +
    SimpleSerialization.estimateBufferSize mirrorVersion +
    SimpleSerialization.estimateBufferSize q.m_type + estimateBytes q.m_queryString

def write (q : RemoteQuery) : Bytes :=
  simpleWriteBuffer majorVersion ++ (simpleWriteBuffer mirrorVersion ++
    (simpleWriteBuffer q.m_type ++ writeBytes q.m_queryString))

def read (q : RemoteQuery) : Reader UInt8 (Option RemoteQuery) := do
  let majorVer ← simpleReadBuffer UInt16
  let _mirrorVer ← simpleReadBuffer UInt16
  if majorVer ≠ majorVersion then pure none
  else do
    let m_type ← simpleReadBuffer UInt8
    let m_queryString ← readBytes
    pure (some { q with m_type := m_type, m_queryString := m_queryString })

@[simp] theorem write_length (q : RemoteQuery) : q.write.length = q.estimateBufferSize := by
  simp only [write, estimateBufferSize, List.length_append, SimpleSerialization.write_length,
    writeBytes_length, Nat.add_assoc]

theorem reads_write {q : RemoteQuery} (h : q.m_queryString.length < 2 ^ 32) (this : RemoteQuery) :
    Reads this.read q.write (some q) := by
  refine (SimpleSerialization.reads_write _).bind ((SimpleSerialization.reads_write _).bind ?_)
  rw [if_neg (not_not.mpr rfl)]
  exact (SimpleSerialization.reads_write _).bind ((reads_writeBytes h).bind_pure rfl)

end RemoteQuery

structure BasicResult where
  VID : UInt32
  Dist : UInt32
  Meta : Bytes
  RelaxedMono : Bool
  deriving DecidableEq

def MaxDist : UInt32 := 0x7dcccccc

def BasicResult.new : BasicResult := ⟨0xffffffff, MaxDist, [], false⟩

structure QueryResult where
  m_target : Option Nat
  m_quantizedTarget : Option Nat
  m_quantizedSize : UInt32
  m_resultNum : Nat
  m_withMeta : Bool
  m_results : List BasicResult
  m_scanned : UInt32
  deriving DecidableEq

namespace QueryResult

def init (p_target : Option Nat) (p_resultNum : Nat) (p_withMeta : Bool) : QueryResult where
  m_target := p_target
  m_quantizedTarget := p_target
  m_quantizedSize := 0
  m_resultNum := p_resultNum
  m_withMeta := p_withMeta
  m_results := List.replicate p_resultNum BasicResult.new
  m_scanned := 0

def results (r : QueryResult) : List BasicResult := r.m_results.take r.m_resultNum

def getMetadata (r : QueryResult) (p_index : Nat) : Bytes :=
  if p_index < r.m_resultNum ∧ r.m_withMeta = true then
    (r.m_results.getD p_index BasicResult.new).Meta
  else []

def setMetadata (r : QueryResult) (p_index : Nat) (p_metadata : Bytes) : QueryResult :=
  if p_index < r.m_resultNum ∧ r.m_withMeta = true then
    { r with m_results := r.m_results.modify p_index fun res => { res with Meta := p_metadata } }
  else r

end QueryResult

structure IndexSearchResult where
  m_indexName : Bytes
  m_results : QueryResult
  deriving DecidableEq

abbrev ResultStatus := UInt8

structure RemoteSearchResult where
  m_status : ResultStatus
  m_allIndexResults : List IndexSearchResult
  deriving DecidableEq

namespace IndexSearchResult

def new : IndexSearchResult := ⟨[], ⟨none, none, 0, 0, false, [], 0⟩⟩

def estimateBufferSize (indexRes : IndexSearchResult) : Nat :=
  estimateBytes indexRes.m_indexName + 4 + 1 +
    (indexRes.m_results.results.map fun res => SimpleSerialization.estimateBufferSize res.VID +
      SimpleSerialization.estimateBufferSize res.Dist).sum +
    if indexRes.m_results.m_withMeta then
      ((List.range indexRes.m_results.m_resultNum).map fun i =>
        estimateBytes (indexRes.m_results.getMetadata i)).sum
    else 0

def write (indexRes : IndexSearchResult) : Bytes :=
  writeBytes indexRes.m_indexName ++
    (simpleWriteBuffer (UInt32.ofNat indexRes.m_results.m_resultNum) ++
    (simpleWriteBuffer indexRes.m_results.m_withMeta ++
    ((indexRes.m_results.results.flatMap fun res =>
        simpleWriteBuffer res.VID ++ simpleWriteBuffer res.Dist) ++
    if indexRes.m_results.m_withMeta then
      (List.range indexRes.m_results.m_resultNum).flatMap fun i =>
        writeBytes (indexRes.m_results.getMetadata i)
    else [])))

def readResult (res : BasicResult) : Reader UInt8 BasicResult := do
  let VID ← simpleReadBuffer UInt32
  let Dist ← simpleReadBuffer UInt32
  pure { res with VID := VID, Dist := Dist }

def readMetadata (r : QueryResult) (i : Nat) : Reader UInt8 QueryResult := do
  let entry ← readBytes
  pure (r.setMetadata i entry)

/-- A count that is negative as an `int` cannot be allocated. -/
def read (indexRes : IndexSearchResult) : Reader UInt8 IndexSearchResult := do
  let m_indexName ← readBytes
  let resNum ← simpleReadBuffer UInt32
  let withMeta ← simpleReadBuffer Bool
  if 2 ^ 31 ≤ resNum.toNat then fun _ => none
  else do
    let r := QueryResult.init none resNum.toNat withMeta
    let results ← r.results.mapM readResult
    let r := { r with m_results := results ++ r.m_results.drop r.m_resultNum }
    let r ← if withMeta then (List.range r.m_resultNum).foldlM readMetadata r else pure r
    pure { indexRes with m_indexName := m_indexName, m_results := r }

end IndexSearchResult

namespace RemoteSearchResult

def majorVersion : UInt16 := 1

def mirrorVersion : UInt16 := 0

def estimateBufferSize (m : RemoteSearchResult) : Nat :=
  SimpleSerialization.estimateBufferSize majorVersion +
    SimpleSerialization.estimateBufferSize mirrorVersion +
    SimpleSerialization.estimateBufferSize m.m_status + 4 +
    (m.m_allIndexResults.map IndexSearchResult.estimateBufferSize).sum

def write (m : RemoteSearchResult) : Bytes :=
  simpleWriteBuffer majorVersion ++ (simpleWriteBuffer mirrorVersion ++
    (simpleWriteBuffer m.m_status ++
    (simpleWriteBuffer (UInt32.ofNat m.m_allIndexResults.length) ++
    m.m_allIndexResults.flatMap IndexSearchResult.write)))

def resize (allIndexResults : List IndexSearchResult) (len : Nat) : List IndexSearchResult :=
  allIndexResults.take len ++
    List.replicate (len - allIndexResults.length) IndexSearchResult.new

def read (m : RemoteSearchResult) : Reader UInt8 (Option RemoteSearchResult) := do
  let majorVer ← simpleReadBuffer UInt16
  let _mirrorVer ← simpleReadBuffer UInt16
  if majorVer ≠ majorVersion then pure none
  else do
    let m_status ← simpleReadBuffer UInt8
    let len ← simpleReadBuffer UInt32
    let m_allIndexResults ← (resize m.m_allIndexResults len.toNat).mapM IndexSearchResult.read
    pure (some { m with m_status := m_status, m_allIndexResults := m_allIndexResults })

end RemoteSearchResult

def BasicResult.received (withMeta : Bool) (res : BasicResult) : BasicResult :=
  { BasicResult.new with
    VID := res.VID
    Dist := res.Dist
    Meta := if withMeta then res.Meta else [] }

def QueryResult.received (r : QueryResult) : QueryResult :=
  { QueryResult.init none r.m_resultNum r.m_withMeta with
    m_results := r.results.map (BasicResult.received r.m_withMeta) }

def IndexSearchResult.received (indexRes : IndexSearchResult) : IndexSearchResult :=
  { indexRes with m_results := indexRes.m_results.received }

def RemoteSearchResult.received (m : RemoteSearchResult) : RemoteSearchResult :=
  { m with m_allIndexResults := m.m_allIndexResults.map IndexSearchResult.received }

structure IndexSearchResult.Fits (indexRes : IndexSearchResult) : Prop where
  name_lt : indexRes.m_indexName.length < 2 ^ 32
  resultNum_le : indexRes.m_results.m_resultNum ≤ indexRes.m_results.m_results.length
  resultNum_lt : indexRes.m_results.m_resultNum < 2 ^ 31
  metadata_lt : ∀ i, (indexRes.m_results.getMetadata i).length < 2 ^ 32

structure RemoteSearchResult.Fits (m : RemoteSearchResult) : Prop where
  count_lt : m.m_allIndexResults.length < 2 ^ 32
  indexes : ∀ indexRes ∈ m.m_allIndexResults, indexRes.Fits

section Sizes

theorem write_ite_length (b : Bool) (x : Bytes) : (if b then x else []).length =
    if b then x.length else 0 := by
  cases b <;> rfl

@[simp] theorem IndexSearchResult.write_length (indexRes : IndexSearchResult) :
    indexRes.write.length = indexRes.estimateBufferSize := by
  simp only [write, estimateBufferSize, List.length_append, SimpleSerialization.write_length,
    writeBytes_length, List.length_flatMap, write_ite_length]
  rw [← Nat.add_assoc, ← Nat.add_assoc, ← Nat.add_assoc]
  rfl

@[simp] theorem RemoteSearchResult.write_length (m : RemoteSearchResult) :
    m.write.length = m.estimateBufferSize := by
  simp only [write, estimateBufferSize, List.length_append, SimpleSerialization.write_length,
    List.length_flatMap, IndexSearchResult.write_length, Nat.add_assoc]
  rfl

end Sizes

section Results

variable {indexRes : IndexSearchResult} {r : QueryResult}

theorem results_length (h : r.m_resultNum ≤ r.m_results.length) :
    r.results.length = r.m_resultNum := List.length_take_of_le h

theorem getMetadata_eq {i : Nat} {res : BasicResult} (hmeta : r.m_withMeta = true)
    (h : r.results[i]? = some res) : r.getMetadata i = res.Meta := by
  rw [QueryResult.results, List.getElem?_take] at h
  split at h
  · rename_i hi
    rw [QueryResult.getMetadata, if_pos ⟨hi, hmeta⟩, List.getD_eq_getElem?_getD, h]
    rfl
  · cases h

theorem reads_results (h : r.m_resultNum ≤ r.m_results.length) :
    Reads ((QueryResult.init none r.m_resultNum r.m_withMeta).results.mapM
        IndexSearchResult.readResult)
      (r.results.flatMap fun res => simpleWriteBuffer res.VID ++ simpleWriteBuffer res.Dist)
      (r.results.map (BasicResult.received false)) := by
  refine reads_mapM ?_ fun x hx res _ => ?_
  · rw [results_length h, results_length]
    · rfl
    · exact (List.length_replicate).ge
  · obtain rfl : x = BasicResult.new := List.eq_of_mem_replicate (List.mem_of_mem_take hx)
    exact (SimpleSerialization.reads_write _).bind
      ((SimpleSerialization.reads_write _).bind_pure rfl)

def stage (ys : List BasicResult) (k : Nat) : QueryResult :=
  { QueryResult.init none ys.length true with
    m_results := ys.mapIdx fun j res => res.received (decide (j < k)) }

theorem setMetadata_stage {ys : List BasicResult} {k : Nat} {res : BasicResult}
    (h : ys[k]? = some res) : (stage ys k).setMetadata k res.Meta = stage ys (k + 1) := by
  have hk : k < ys.length := (List.getElem?_eq_some_iff.mp h).1
  rw [QueryResult.setMetadata, if_pos ⟨hk, rfl⟩]
  refine congrArg (fun results => { QueryResult.init none ys.length true with
    m_results := results }) (List.ext_getElem? fun j => ?_)
  by_cases hj : k = j
  · subst hj
    simp [stage, h, BasicResult.received]
  · have hiff : (j ≤ k) = (j < k) := propext (by omega)
    simp [stage, hj, hiff]

theorem stage_length (ys : List BasicResult) : stage ys ys.length =
    { QueryResult.init none ys.length true with
      m_results := ys.map (BasicResult.received true) } := by
  refine congrArg (fun results => { QueryResult.init none ys.length true with
    m_results := results }) (List.ext_getElem? fun j => ?_)
  simp only [List.getElem?_mapIdx, List.getElem?_map]
  cases h : ys[j]? with
  | none => rfl
  | some res => simp [(List.getElem?_eq_some_iff.mp h).1]

@[simp] theorem stage_zero (ys : List BasicResult) : stage ys 0 =
    { QueryResult.init none ys.length true with
      m_results := ys.map (BasicResult.received false) } := by
  refine congrArg (fun results => { QueryResult.init none ys.length true with
    m_results := results }) (List.ext_getElem? fun j => ?_)
  simp

theorem reads_metadata (hle : r.m_resultNum ≤ r.m_results.length) (hmeta : r.m_withMeta = true)
    (hlt : ∀ i, (r.getMetadata i).length < 2 ^ 32) :
    Reads ((List.range r.m_resultNum).foldlM IndexSearchResult.readMetadata (stage r.results 0))
      ((List.range r.m_resultNum).flatMap fun i => writeBytes (r.getMetadata i))
      (stage r.results r.m_resultNum) := by
  refine @reads_foldlM _ _ _ _ (stage r.results) _ fun i hi => ?_
  obtain ⟨res, hres⟩ : ∃ res, r.results[i]? = some res :=
    ⟨_, List.getElem?_eq_getElem (by rwa [results_length hle])⟩
  refine (reads_writeBytes (hlt i)).bind_pure ?_
  rw [getMetadata_eq hmeta hres, setMetadata_stage hres]

theorem reads_index (h : indexRes.Fits) (this : IndexSearchResult) :
    Reads this.read indexRes.write indexRes.received := by
  have hnum : (UInt32.ofNat indexRes.m_results.m_resultNum).toNat =
      indexRes.m_results.m_resultNum := by
    rw [UInt32.toNat_ofNat', Nat.mod_eq_of_lt (h.resultNum_lt.trans (by decide))]
  refine (reads_writeBytes h.name_lt).bind ((SimpleSerialization.reads_write _).bind
    ((SimpleSerialization.reads_write _).bind ?_))
  rw [hnum, if_neg (Nat.not_le.mpr h.resultNum_lt)]
  refine (reads_results h.resultNum_le).bind ?_
  have hlen := results_length h.resultNum_le
  have hdrop : (QueryResult.init none indexRes.m_results.m_resultNum
      indexRes.m_results.m_withMeta).m_results.drop indexRes.m_results.m_resultNum = [] := by
    simp [QueryResult.init]
  have hreceived : indexRes.received = ⟨indexRes.m_indexName, QueryResult.received _⟩ := rfl
  rw [hreceived, QueryResult.received]
  dsimp only
  rw [show (QueryResult.init none indexRes.m_results.m_resultNum
      indexRes.m_results.m_withMeta).m_resultNum = indexRes.m_results.m_resultNum from rfl, hdrop,
    List.append_nil]
  cases hmeta : indexRes.m_results.m_withMeta with
  | false => exact reads_pure _
  | true =>
    have hread := reads_metadata h.resultNum_le hmeta h.metadata_lt
    rw [stage_zero, hlen] at hread
    have hlast := stage_length indexRes.m_results.results
    rw [hlen] at hlast
    exact hread.bind_pure (by rw [hlast]; rfl)

@[simp] theorem resize_length (allIndexResults : List IndexSearchResult) (len : Nat) :
    (RemoteSearchResult.resize allIndexResults len).length = len := by
  simp only [RemoteSearchResult.resize, List.length_append, List.length_take,
    List.length_replicate]
  omega

theorem RemoteSearchResult.reads_write {m : RemoteSearchResult} (h : m.Fits)
    (this : RemoteSearchResult) : Reads this.read m.write (some m.received) := by
  have hlen : (UInt32.ofNat m.m_allIndexResults.length).toNat = m.m_allIndexResults.length := by
    rw [UInt32.toNat_ofNat', Nat.mod_eq_of_lt h.count_lt]
  refine (SimpleSerialization.reads_write _).bind ((SimpleSerialization.reads_write _).bind ?_)
  rw [if_neg (not_not.mpr rfl)]
  refine (SimpleSerialization.reads_write _).bind ((SimpleSerialization.reads_write _).bind ?_)
  rw [hlen]
  refine (reads_mapM (resize_length _ _) fun this _ indexRes hmem => ?_).bind_pure rfl
  exact reads_index (h.indexes indexRes hmem) this

end Results

structure QueryResult.Agrees (r r' : QueryResult) : Prop where
  resultNum : r'.m_resultNum = r.m_resultNum
  withMeta : r'.m_withMeta = r.m_withMeta
  results : r'.results.map (fun res => (res.VID, res.Dist)) =
    r.results.map fun res => (res.VID, res.Dist)
  metadata : ∀ i, r'.getMetadata i = r.getMetadata i

structure RemoteSearchResult.Agrees (m m' : RemoteSearchResult) : Prop where
  status : m'.m_status = m.m_status
  indexes : m'.m_allIndexResults.map IndexSearchResult.m_indexName =
    m.m_allIndexResults.map IndexSearchResult.m_indexName
  results : List.Forall₂ QueryResult.Agrees (m.m_allIndexResults.map IndexSearchResult.m_results)
    (m'.m_allIndexResults.map IndexSearchResult.m_results)

theorem QueryResult.agrees_received {r : QueryResult} (h : r.m_resultNum ≤ r.m_results.length) :
    r.Agrees r.received := by
  have hresults : r.received.results = r.results.map (BasicResult.received r.m_withMeta) :=
    List.take_of_length_le ((List.length_map _).trans (results_length h)).le
  refine ⟨rfl, rfl, ?_, fun i => ?_⟩
  · rw [hresults, List.map_map]
    rfl
  · by_cases hi : i < r.m_resultNum ∧ r.m_withMeta = true
    · obtain ⟨res, hres⟩ : ∃ res, r.results[i]? = some res :=
        ⟨_, List.getElem?_eq_getElem (by rw [results_length h]; exact hi.1)⟩
      have hres' : r.received.results[i]? = some (res.received true) := by
        rw [hresults, List.getElem?_map, hres, hi.2]
        rfl
      rw [getMetadata_eq hi.2 hres, getMetadata_eq (r := r.received) hi.2 hres']
      rfl
    · exact (if_neg hi).trans (if_neg hi).symm

theorem RemoteSearchResult.agrees_received {m : RemoteSearchResult} (h : m.Fits) :
    m.Agrees m.received := by
  refine ⟨rfl, ?_, ?_⟩
  · rw [received, List.map_map]
    rfl
  · rw [received, List.map_map, List.forall₂_map_left_iff, List.forall₂_map_right_iff,
      List.forall₂_same]
    exact fun indexRes hmem => QueryResult.agrees_received (h.indexes indexRes hmem).resultNum_le

/-- Both messages come back from as many bytes as were estimated; of a result, its id, its
distance and its metadata do, and the rest of it is as in a new result. -/
theorem remote_codec :
    (∀ q : RemoteQuery, q.m_queryString.length < 2 ^ 32 → ∀ this rest,
      q.write.length = q.estimateBufferSize ∧
        RemoteQuery.read this (q.write ++ rest) = some (some q, rest)) ∧
    ∀ m : RemoteSearchResult, m.Fits → ∀ this rest, m.write.length = m.estimateBufferSize ∧
      RemoteSearchResult.read this (m.write ++ rest) = some (some m.received, rest) ∧
        m.Agrees m.received := by
  constructor
  · intro q h this rest
    exact ⟨q.write_length, RemoteQuery.reads_write h this rest⟩
  · intro m h this rest
    exact ⟨m.write_length, RemoteSearchResult.reads_write h this rest,
      RemoteSearchResult.agrees_received h⟩

def answer : RemoteSearchResult :=
  ⟨0, [⟨[98], ⟨some 64, some 64, 0, 2, true, [⟨3, 5, [109], true⟩, ⟨1, 7, [], false⟩], 9⟩⟩]⟩

theorem answer_fits : answer.Fits := by
  refine ⟨by decide, fun indexRes hmem => ?_⟩
  obtain rfl := List.mem_singleton.mp hmem
  refine ⟨by decide, by decide, by decide, fun i => ?_⟩
  match i with
  | 0 => decide
  | 1 => decide
  | _ + 2 =>
    rw [QueryResult.getMetadata, if_neg (by simp)]
    decide

theorem remote_codec_answer :
    RemoteQuery.read ⟨0, []⟩ (RemoteQuery.write ⟨0, [36]⟩ ++ [0]) = some (some ⟨0, [36]⟩, [0]) ∧
      RemoteSearchResult.read ⟨1, []⟩ (answer.write ++ [0]) = some (some answer.received, [0]) ∧
        answer.Agrees answer.received :=
  ⟨(remote_codec.1 ⟨0, [36]⟩ (by decide) ⟨0, []⟩ [0]).2,
    (remote_codec.2 answer answer_fits ⟨1, []⟩ [0]).2⟩

theorem remote_not_equal : ¬ ∀ m : RemoteSearchResult, m.Fits → ∀ this rest,
    RemoteSearchResult.read this (m.write ++ rest) = some (some m, rest) := by
  intro h
  have hread := h answer answer_fits ⟨1, []⟩ []
  exact absurd hread (by decide +kernel)

end Sptag.Socket
