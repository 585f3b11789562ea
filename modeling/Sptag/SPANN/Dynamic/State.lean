import Sptag.Common.VersionLabel
import Sptag.Common.Checksum
import Sptag.Lib.Triple
import Sptag.SPANN.AsyncAppend

/-! The state of `inc/Core/SPANN/ExtraDynamicSearcher.h` and of the head index, version
map and store it updates, and the calls through which it updates them. -/

namespace Sptag.SPANN.Dynamic

open COMMON Lib

variable {V D : Type}

structure Entry (V : Type) where
  vid : Int
  version : UInt8
  vector : V
  deriving DecidableEq

abbrev Posting (V : Type) := List (Entry V)

structure HeadIndex (V : Type) where
  num : Nat
  sample : Nat → V
  deleted : Nat → Bool

namespace HeadIndex

def containSample (index : HeadIndex V) (headID : Nat) : Bool :=
  decide (headID < index.num) && !index.deleted headID

def addIndexId (index : HeadIndex V) (vector : V) : HeadIndex V where
  num := index.num + 1
  sample := Function.update index.sample index.num vector
  deleted := Function.update index.deleted index.num false

def deleteIndex (index : HeadIndex V) (headID : Nat) : HeadIndex V :=
  { index with deleted := Function.update index.deleted headID true }

variable {index : HeadIndex V} {h : Nat}

theorem containSample_addIndexId (x : V) (hne : h ≠ index.num) :
    (index.addIndexId x).containSample h = index.containSample h := by
  have hlt : h < index.num + 1 ↔ h < index.num := by omega
  rw [Bool.eq_iff_iff]
  simp [containSample, addIndexId, hne, hlt]

@[simp] theorem containSample_deleteIndex_self :
    (index.deleteIndex h).containSample h = false := by
  simp [containSample, deleteIndex]

theorem containSample_deleteIndex {h' : Nat} (hne : h' ≠ h) :
    (index.deleteIndex h).containSample h' = index.containSample h' := by
  show (decide (h' < index.num) && !Function.update index.deleted h true h') = _
  rw [Function.update_of_ne hne, containSample]

end HeadIndex

structure Options where
  postingSizeLimit : Nat
  bufferSizeLimit : Nat
  mergeThreshold : Nat
  replicaCount : Nat
  internalResultNum : Nat
  reassignK : Nat
  asyncAppendQueueSize : Nat
  recordCapacity : Nat
  disableReassign : Bool
  excludehead : Bool
  oneClusterCutMax : Bool
  checksumInRead : Bool
  enableWAL : Bool

inductive Site
  | splitGet
  | splitGC
  | splitCut
  | splitSame
  | splitNew
  | splitDelete
  | collectGet
  | searchGet
  | mergeGet
  | mergeBack
  | mergeNextGet
  | mergePut
  | mergeDelete
  | mergeKeep
  | appendMerge
  | addBatch
  | refineGet
  | refinePut
  | checkGet
  | writeGet
  | writePut
  | saveVersions
  | saveSizes
  | saveChecksums
  | dbCheckpoint
  deriving DecidableEq

/-- A call that failed, a clustering with fewer than two clusters, a search without a
result, a loop that was cut off. -/
inductive Lapse
  | fault (site : Site)
  | single
  | miss
  | hang
  deriving DecidableEq

inductive Job (V : Type)
  | split (headID : Nat) (disableReassign : Bool)
  | merge (headID : Nat) (disableReassign : Bool)
  | reassign (vectorInfo : Entry V) (headPrev : Int)

inductive Assignment (V : Type)
  | insert (entry : Entry V)
  | delete (vid : Int)

structure Cluster (V : Type) where
  center : V
  rest : Posting V
  last : Entry V

def Cluster.posting (c : Cluster V) : Posting V := c.rest ++ [c.last]

inductive Clustering (V : Type)
  | one (order : Posting V)
  | two (c₀ c₁ : Cluster V)

def Clustering.all : Clustering V → Posting V
  | .one order => order
  | .two c₀ c₁ => c₀.posting ++ c₁.posting

/-- The parts the searcher is used with. The head index answers a search with heads it
contains, nearest first; k-means reorders the entries it is given. `fails` says which
calls of the store fail, `rounds` how often a loop is followed. -/
structure Env (V D : Type) where
  opt : Options
  computeDistance : V → V → D
  epsilon : D
  rngFactor : D → D
  vectorBytes : V → Bytes
  checkSum : Checksum
  priorityID : HeadIndex V → Nat → Bytes
  search : Nat → HeadIndex V → Nat → V → List Nat
  search_contained : ∀ {t index n q h}, h ∈ search t index n q → index.containSample h
  kmeans : Nat → Posting V → Clustering V
  kmeans_perm : ∀ t live, (kmeans t live).all.Perm live
  fails : Site → Nat → Bool
  rounds : Nat

/-- `translate` is `none` where the map holds `MaxSize`. `tick` counts the calls out,
`lapses` lists those that went wrong, `added` the ids `AddIndex` was given. -/
structure State (V : Type) where
  index : HeadIndex V
  db : Nat → Option (Posting V)
  postingSizes : Nat → Nat
  checkSums : Nat → ChecksumType
  records : Nat
  versionMap : VersionLabel
  translate : Nat → Option Int
  splitList : List Nat
  mergeList : List Nat
  mergeLock : Bool
  jobs : List (Job V)
  asyncAppendQueue : List (AppendPair (Posting V))
  asyncStatus : ErrorCode
  wal : List (Assignment V)
  tick : Nat
  lapses : List Lapse
  added : List Int

def State.start (index : HeadIndex V) (versionMap : VersionLabel) (translate : Nat → Option Int) :
    State V where
  index := index
  db _ := none
  postingSizes _ := 0
  checkSums _ := 0
  records := index.num
  versionMap := versionMap
  translate := translate
  splitList := []
  mergeList := []
  mergeLock := false
  jobs := []
  asyncAppendQueue := []
  asyncStatus := .success
  wal := []
  tick := 0
  lapses := []
  added := []

abbrev Upd (V : Type) := StateM (State V)

namespace State

def current (s : State V) (e : Entry V) : Bool :=
  !s.versionMap.deleted e.vid && s.versionMap.getVersion e.vid == e.version

def live (s : State V) (p : Posting V) : Posting V := p.filter s.current

def ownVector (s : State V) (headID : Nat) : Option (Entry V) :=
  match s.translate headID with
  | none => none
  | some vid =>
    if s.versionMap.deleted vid then none
    else some ⟨vid, s.versionMap.getVersion vid, s.index.sample headID⟩

def lapse (s : State V) (l : Lapse) : State V := { s with lapses := l :: s.lapses }

def setPosting (s : State V) (headID : Nat) (p : Option (Posting V)) : State V :=
  { s with db := Function.update s.db headID p }

def setRecord (s : State V) (headID size : Nat) (checksum : ChecksumType) : State V :=
  { s with
    postingSizes := Function.update s.postingSizes headID size
    checkSums := Function.update s.checkSums headID checksum }

def eraseSplit (s : State V) (headID : Nat) : State V :=
  { s with splitList := s.splitList.filter (· ≠ headID) }

def eraseMerge (s : State V) (headID : Nat) : State V :=
  { s with mergeList := s.mergeList.filter (· ≠ headID) }

def setLock (s : State V) (locked : Bool) : State V := { s with mergeLock := locked }

def deleteHead (s : State V) (headID : Nat) : State V :=
  { s with index := s.index.deleteIndex headID }

def addJob (s : State V) (j : Job V) : State V := { s with jobs := s.jobs ++ [j] }

end State

variable (env : Env V D)

def Env.serialize (e : Entry V) : Bytes :=
  leBytes 4 (e.vid % 2 ^ 32).toNat ++ e.version :: env.vectorBytes e.vector

def Env.bytesOf (p : Posting V) : Bytes := p.flatMap env.serialize

def Env.calcChecksum (p : Posting V) : ChecksumType := env.checkSum.calcChecksum (env.bytesOf p)

def Env.validate (p : Posting V) (checksum : ChecksumType) : Bool :=
  env.checkSum.validateChecksum (env.bytesOf p) checksum

/-- A call from `site`, which fails when the environment says so or the store cannot serve it. -/
def call (site : Site) (serves : State V → Bool) : Upd V Bool := fun s =>
  if env.fails site s.tick || !serves s then
    (false, { s with tick := s.tick + 1 }.lapse (.fault site))
  else (true, { s with tick := s.tick + 1 })

def dbGet (site : Site) (headID : Nat) : Upd V (Option (Posting V)) := do
  let ok ← call env site fun s => (s.db headID).isSome
  let s ← get
  return if ok then s.db headID else none

def dbPut (site : Site) (headID : Nat) (p : Posting V) : Upd V Bool := do
  let ok ← call env site fun _ => true
  whenever ok (modify (·.setPosting headID (some p)))
  return ok

def dbDelete (site : Site) (headID : Nat) : Upd V Bool := do
  let ok ← call env site fun s => (s.db headID).isSome
  whenever ok (modify (·.setPosting headID none))
  return ok

def dbMerge (site : Site) (headID : Nat) (p : Posting V) : Upd V Bool := do
  let ok ← call env site fun s => (s.db headID).any (env.validate · (s.checkSums headID))
  whenever ok (modify fun s => s.setPosting headID ((s.db headID).map (· ++ p)))
  return ok

def searchIndex (resultNum : Nat) (query : V) : Upd V (List Nat) := fun s =>
  match env.search s.tick s.index resultNum query with
  | [] => ([], { s with tick := s.tick + 1 }.lapse .miss)
  | h :: hs => (h :: hs, { s with tick := s.tick + 1 })

def kmeansClustering (live : Posting V) : Upd V (Clustering V) := fun s =>
  match env.kmeans s.tick live with
  | .one order => (.one order, { s with tick := s.tick + 1 }.lapse .single)
  | .two c₀ c₁ => (.two c₀ c₁, { s with tick := s.tick + 1 })

def reassignAsync (vectorInfo : Entry V) (headPrev : Int) : Upd V PUnit :=
  modify (·.addJob (.reassign vectorInfo headPrev))

def readPosting (site : Site) (headID : Nat) : Upd V (Except ErrorCode (Posting V)) := do
  match ← dbGet env site headID with
  | none => return .error .fail
  | some p =>
    let s ← get
    return if env.validate p (s.checkSums headID) then .ok p else .error .success

def writePosting (site : Site) (headID : Nat) (p : Posting V) : Upd V ErrorCode := do
  if ← dbPut env site headID p then
    modify (·.setRecord headID p.length (env.calcChecksum p))
    return .success
  else return .fail

def plainOptions : Options where
  postingSizeLimit := 2
  bufferSizeLimit := 1
  mergeThreshold := 0
  replicaCount := 1
  internalResultNum := 4
  reassignK := 4
  asyncAppendQueueSize := 0
  recordCapacity := 8
  disableReassign := false
  excludehead := false
  oneClusterCutMax := false
  checksumInRead := true
  enableWAL := false

def Env.plain (opt : Options) (checkSum : Checksum) : Env Unit Nat where
  opt := opt
  computeDistance _ _ := 0
  epsilon := 0
  rngFactor d := d
  vectorBytes _ := []
  checkSum := checkSum
  priorityID _ _ := []
  search _ index _ _ := (List.range index.num).filter fun h => index.containSample h
  search_contained h := (List.mem_filter.mp h).2
  kmeans _ live := .one live
  kmeans_perm _ _ := .refl _
  fails _ _ := false
  rounds := 8

end Sptag.SPANN.Dynamic
