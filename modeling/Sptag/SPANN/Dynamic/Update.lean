import Sptag.SPANN.Dynamic.State

/-! The update operations of `ExtraDynamicSearcher`: splits, merges, reassignments,
appends, and the jobs and calls they are run from. Operations are taken one at a time. -/

namespace Sptag.SPANN.Dynamic

open COMMON Lib

variable {V D : Type} [LinearOrder D] (env : Env V D)

def checkIsNeedReassign (index : HeadIndex V) (newHeads : Nat × Nat) (data : V)
    (splitHead : Nat) (isInSplitHead : Bool) (currentHead : Nat) : Bool :=
  let splitHeadDist := env.computeDistance data (index.sample splitHead)
  let currentHeadDist := env.computeDistance (index.sample currentHead) data
  let newHeadDist₁ := env.computeDistance data (index.sample newHeads.1)
  let newHeadDist₂ := env.computeDistance data (index.sample newHeads.2)
  if isInSplitHead then !decide (currentHeadDist ≤ splitHeadDist)
  else !decide (splitHeadDist ≤ newHeadDist₁ ∧ splitHeadDist ≤ newHeadDist₂) &&
    !decide (currentHeadDist ≤ newHeadDist₁ ∧ currentHeadDist ≤ newHeadDist₂)

def scanReAssign (headID : Nat) (newHeads : Nat × Nat) (isInSplitHead : Bool) :
    List (Nat × Entry V) → List Int → Upd V (List Int)
  | [], seen => pure seen
  | (head, e) :: entries, seen => do
    let s ← get
    if e.vid ∉ seen ∧ s.current e ∧
        checkIsNeedReassign env s.index newHeads e.vector headID isInSplitHead head then do
      reassignAsync e head
      scanReAssign headID newHeads isInSplitHead entries (e.vid :: seen)
    else scanReAssign headID newHeads isInSplitHead entries seen

def reassignOwn (headID : Nat) : Upd V PUnit := do
  let s ← get
  match s.ownVector headID with
  | some e => reassignAsync e (-1)
  | none => pure ⟨⟩

def nearbyHeads (newHeads : Nat × Nat) (results : List Nat) : List Nat :=
  results.foldl (fun acc vid =>
    if vid = newHeads.1 ∨ vid = newHeads.2 ∨ vid ∈ acc then acc else acc ++ [vid]) []

def tagged (lists : List (Nat × Posting V)) : List (Nat × Entry V) :=
  lists.flatMap fun l => l.2.map (l.1, ·)

def collectReAssign (headID : Nat) (new₀ new₁ : Nat × Posting V) (theSameHead : Bool) :
    Upd V ErrorCode := do
  whenever (env.opt.excludehead && !theSameHead) (reassignOwn headID)
  let newHeads := (new₀.1, new₁.1)
  let seen ← scanReAssign env headID newHeads true (tagged [new₀, new₁]) []
  if env.opt.reassignK = 0 then pure .success
  else do
    let s ← get
    let results ← searchIndex env env.opt.reassignK (s.index.sample headID)
    let prevs := nearbyHeads newHeads results
    let ok ← call env .collectGet fun s => prevs.all fun h => (s.db h).isSome
    let s ← get
    let lists := prevs.map fun h => (h, (s.db h).getD [])
    if !ok then pure .fail
    else if env.opt.checksumInRead &&
        !(lists.all fun l => env.validate l.2 (s.checkSums l.1)) then pure .success
    else do
      discard (scanReAssign env headID newHeads false (tagged lists) seen)
      pure .success

def readKnown (headID : Nat) : Upd V (Except ErrorCode (Option (Posting V))) := do
  match ← readPosting env .splitGet headID with
  | .error ret => pure (.error ret)
  | .ok p => do
    let s ← get
    pure (.ok (if p.all fun e => 0 ≤ e.vid && e.vid < s.versionMap.count then some p else none))

/-- `Retry`: the posting is read again, at most `retries` times, while one of its ids is
not in the version map. -/
def fetchPosting (headID : Nat) : Nat → Upd V (Except ErrorCode (Posting V))
  | 0 => do
    match ← readKnown env headID with
    | .error ret => pure (.error ret)
    | .ok none => pure (.error .diskIOFail)
    | .ok (some p) => pure (.ok p)
  | retries + 1 => do
    match ← readKnown env headID with
    | .error ret => pure (.error ret)
    | .ok none => fetchPosting headID retries
    | .ok (some p) => pure (.ok p)

/-- The rows of a new head: the head index gives out its id, the translate map its slot,
and with `m_excludehead` the vector the head stands for leaves its postings. -/
def State.addHead (s : State V) (c : Cluster V) : State V :=
  if env.opt.excludehead then
    { s with
      index := s.index.addIndexId c.center
      translate := Function.update s.translate s.index.num (some c.last.vid)
      versionMap := (s.versionMap.incVersion c.last.vid).2 }
  else
    { s with
      index := s.index.addIndexId c.center
      translate := Function.update s.translate s.index.num none }

section

omit [LinearOrder D]

variable {env}

@[simp] theorem addHead_index (s : State V) (c : Cluster V) :
    (s.addHead env c).index = s.index.addIndexId c.center := by
  unfold State.addHead
  split <;> rfl

@[simp] theorem addHead_db (s : State V) (c : Cluster V) : (s.addHead env c).db = s.db := by
  unfold State.addHead
  split <;> rfl

@[simp] theorem addHead_jobs (s : State V) (c : Cluster V) :
    (s.addHead env c).jobs = s.jobs := by
  unfold State.addHead
  split <;> rfl

@[simp] theorem addHead_lapses (s : State V) (c : Cluster V) :
    (s.addHead env c).lapses = s.lapses := by
  unfold State.addHead
  split <;> rfl

end

def newHead (c : Cluster V) : Upd V (Except ErrorCode Nat) := do
  let s ← get
  let begin := s.index.num
  modify (·.addHead env c)
  if !(← dbPut env .splitNew begin c.posting) then pure (.error .fail)
  else do
    let s ← get
    if env.opt.recordCapacity ≤ s.records then do
      modify (·.lapse (.fault .addBatch))
      pure (.error .memoryOverFlow)
    else do
      modify fun s =>
        { s with records := s.records + 1 }.setRecord begin c.posting.length
          (env.calcChecksum c.posting)
      pure (.ok begin)

def isSameHead (s : State V) (headID : Nat) (c : Cluster V) : Bool :=
  decide (env.computeDistance c.center (s.index.sample headID) < env.epsilon)

/-- One round of the loop over the two clusters: the head of the cluster and whether the
split head has been kept by now. -/
def placeCluster (headID : Nat) (theSameHead : Bool) (c : Cluster V) :
    Upd V (Except ErrorCode (Nat × Bool)) := do
  let s ← get
  if !theSameHead && isSameHead env s headID c then
    match ← writePosting env .splitSame headID c.posting with
    | .success => pure (.ok (headID, true))
    | ret => pure (.error ret)
  else
    match ← newHead env c with
    | .error ret => pure (.error ret)
    | .ok begin => pure (.ok (begin, theSameHead))

def retireHead (headID : Nat) (theSameHead : Bool) : Upd V ErrorCode :=
  if theSameHead then pure .success
  else do
    modify fun s => (s.deleteHead headID).setRecord headID 0 0
    if ← dbDelete env .splitDelete headID then pure .success else pure .fail

def splitTwo (headID : Nat) (reassign : Bool) (c₀ c₁ : Cluster V) : Upd V ErrorCode := do
  match ← placeCluster env headID false c₀ with
  | .error ret => pure ret
  | .ok (head₀, same₀) =>
    match ← placeCluster env headID same₀ c₁ with
    | .error ret => pure ret
    | .ok (head₁, same) => do
      match ← retireHead env headID same with
      | .success => do
        modify (·.eraseSplit headID)
        whenever reassign
          (discard (collectReAssign env headID (head₀, c₀.posting) (head₁, c₁.posting) same))
        pure .success
      | ret => pure ret

def shrinkPosting (site : Site) (headID : Nat) (p : Posting V) : Upd V ErrorCode := do
  match ← writePosting env site headID p with
  | .success => do
    modify (·.eraseSplit headID)
    pure .success
  | ret => pure ret

def split (headID : Nat) (reassign : Bool) : Upd V ErrorCode := do
  let s ← get
  if !s.index.containSample headID then pure .success
  else match ← fetchPosting env headID 3 with
    | .error ret => pure ret
    | .ok p => do
      let s ← get
      if (s.live p).length < env.opt.postingSizeLimit then
        shrinkPosting env .splitGC headID (s.live p)
      else match ← kmeansClustering env (s.live p) with
        | .one order =>
          shrinkPosting env .splitCut headID
            (order.take (if env.opt.oneClusterCutMax then env.opt.postingSizeLimit else 1))
        | .two c₀ c₁ => splitTwo env headID reassign c₀ c₁

def mergeLive (s : State V) (p q : Posting V) : Posting V :=
  s.live p ++ (s.live q).filter fun e => e.vid ∉ (s.live p).map Entry.vid

def reassignAbsorbed (survivor retired num : Nat) (absorbed : Posting V) : Upd V PUnit := do
  let s ← get
  (absorbed.take num).forM fun e =>
    if env.computeDistance (s.index.sample retired) e.vector <
        env.computeDistance (s.index.sample survivor) e.vector then
      reassignAsync e survivor
    else pure ⟨⟩
  whenever env.opt.excludehead (reassignOwn retired)

def mergeWith (headID : Nat) (reassign : Bool) (p : Posting V) (next : Nat) (q : Posting V) :
    Upd V ErrorCode := do
  let s ← get
  let merged := mergeLive s p q
  let currentLength := (s.live p).length
  let nextLength := (s.live q).length
  let keepsHead := decide (nextLength < currentLength)
  let survivor := if keepsHead then headID else next
  let retired := if keepsHead then next else headID
  modify (·.deleteHead retired)
  if !(← dbPut env .mergePut survivor merged) then do
    modify (·.setLock false)
    pure .fail
  else do
    let full := (merged.length, env.calcChecksum merged)
    let (nextRecord, headRecord) := if keepsHead then ((0, 0), full) else (full, (0, 0))
    modify fun s =>
      (s.setRecord next nextRecord.1 nextRecord.2).setRecord headID headRecord.1 headRecord.2
    if !(← dbDelete env .mergeDelete retired) then do
      modify (·.setLock false)
      pure .fail
    else do
      modify (·.setLock false)
      whenever reassign
        (reassignAbsorbed env survivor retired (if keepsHead then nextLength else currentLength)
          (if keepsHead then q else p))
      modify (·.eraseMerge headID)
      pure .success

/-- The loop over the neighbours of `headID`; without a partner its posting is put back,
and a failure of that write leaves `m_mergeLock` taken. -/
def mergeNext (headID : Nat) (reassign : Bool) (p merged : Posting V) :
    List Nat → Upd V ErrorCode
  | [] => do
    match ← writePosting env .mergeKeep headID merged with
    | .success => do
      modify fun s => (s.eraseMerge headID).setLock false
      pure .success
    | ret => pure ret
  | next :: results => do
    let s ← get
    if merged.length + s.postingSizes next < env.opt.postingSizeLimit ∧ next ∉ s.mergeList ∧
        s.index.containSample next then
      match ← readPosting env .mergeNextGet next with
      | .error ret => do
        modify (·.setLock false)
        pure ret
      | .ok q => mergeWith env headID reassign p next q
    else mergeNext headID reassign p merged results

/-- A busy `m_mergeLock` queues the merge again, with `reassign` in the place of the job's
`disableReassign`. -/
def mergePostings (headID : Nat) (reassign : Bool) : Upd V ErrorCode := do
  let s ← get
  if s.mergeLock then do
    modify (·.addJob (.merge headID reassign))
    pure .success
  else if !s.index.containSample headID then pure .success
  else do
    modify (·.setLock true)
    match ← readPosting env .mergeGet headID with
    | .error ret => do
      modify (·.setLock false)
      pure ret
    | .ok p => do
      let s ← get
      if env.opt.mergeThreshold < (s.live p).length then
        match ← writePosting env .mergeBack headID (s.live p) with
        | .success => do
          modify fun s => (s.eraseMerge headID).setLock false
          pure .success
        | ret => do
          modify (·.setLock false)
          pure ret
      else do
        let results ← searchIndex env env.opt.internalResultNum (s.index.sample headID)
        mergeNext env headID reassign p (s.live p) (results.drop 1)

def splitAsync (headID : Nat) : Upd V PUnit := modify fun s =>
  if headID ∈ s.splitList then s
  else { s with splitList := headID :: s.splitList }.addJob (.split headID env.opt.disableReassign)

def mergeAsync (headID : Nat) : Upd V PUnit := modify fun s =>
  if headID ∈ s.mergeList then s
  else { s with mergeList := headID :: s.mergeList }.addJob (.merge headID env.opt.disableReassign)

def headMiss (headID : Nat) (entries : Posting V) : Upd V PUnit := do
  let s ← get
  entries.forM fun e =>
    if s.versionMap.getVersion e.vid = e.version then reassignAsync e headID else pure ⟨⟩

/-- `rounds` bounds the jumps to `checkDeleted`. -/
def append (headID : Nat) (entries : Posting V) (reassignThreshold : Nat) :
    Nat → Upd V ErrorCode
  | 0 => do
    modify (·.lapse .hang)
    pure .fail
  | rounds + 1 => do
    let s ← get
    if !s.index.containSample headID then do
      headMiss headID entries
      pure .success
    else if env.opt.postingSizeLimit + env.opt.bufferSizeLimit <
        s.postingSizes headID + entries.length then do
      discard (split env headID (!env.opt.disableReassign))
      append headID entries reassignThreshold rounds
    else if !(← dbMerge env .appendMerge headID entries) then pure .fail
    else do
      modify fun s => s.setRecord headID (s.postingSizes headID + entries.length)
        (Checksum.appendChecksum (s.checkSums headID) (env.bytesOf entries))
      let s ← get
      whenever (env.opt.postingSizeLimit + reassignThreshold < s.postingSizes headID)
        (if reassignThreshold = 0 then splitAsync env headID
        else discard (split env headID (!env.opt.disableReassign)))
      pure .success

/-- The loop of `RNGSelection` over the search results: `false` when `checkHeadID` is
selected. -/
def rngSelection (index : HeadIndex V) (query : V) (checkHeadID : Int) :
    List Nat → List Nat → Bool × List Nat
  | [], selections => (true, selections)
  | node :: results, selections =>
    if env.opt.replicaCount ≤ selections.length then (true, selections)
    else if selections.any fun j =>
        env.rngFactor (env.computeDistance (index.sample node) (index.sample j)) ≤
          env.computeDistance query (index.sample node) then
      rngSelection index query checkHeadID results selections
    else if (node : Int) = checkHeadID then (false, selections)
    else rngSelection index query checkHeadID results (selections ++ [node])

def reassignAppend (e : Entry V) : List Nat → Upd V ErrorCode
  | [] => pure .success
  | head :: selections => do
    let s ← get
    if s.versionMap.getVersion e.vid ≠ e.version then pure .success
    else do
      let ret ← append env head [e] 3 env.rounds
      if ret ≠ .success then pure ret else reassignAppend e selections

def reassign (vectorInfo : Entry V) (headPrev : Int) : Upd V ErrorCode := do
  let s ← get
  if !s.current vectorInfo then pure .success
  else do
    let results ← searchIndex env env.opt.internalResultNum vectorInfo.vector
    let s ← get
    let (isNeedReassign, selections) :=
      rngSelection env s.index vectorInfo.vector headPrev results []
    if !isNeedReassign then pure .success
    else do
      let (version, versionMap) := s.versionMap.incVersion vectorInfo.vid
      modify fun s => { s with versionMap := versionMap }
      reassignAppend env { vectorInfo with version := version.getD vectorInfo.version } selections

/-- `AsyncAppend` over this state: the queue is the searcher's, `Append` gets its default
threshold. -/
def asyncAppendEntry (headID : Nat) (entries : Posting V) : Upd V ErrorCode := fun s =>
  let r := AsyncAppend.asyncAppend (fun s h p => append env h p 0 env.rounds s)
    (env.priorityID s.index) env.opt.asyncAppendQueueSize s.asyncAppendQueue.length
    ⟨s.asyncAppendQueue, [], s⟩ headID entries
  (r.1, { r.2.store with asyncAppendQueue := r.2.queue })

def addReplica (head : Nat) (e : Entry V) : Upd V ErrorCode :=
  if 0 < env.opt.asyncAppendQueueSize then asyncAppendEntry env head [e]
  else append env head [e] 0 env.rounds

def addReplicas (e : Entry V) : List Nat → Upd V ErrorCode
  | [] => pure .success
  | head :: selections => do
    let ret ← addReplica env head e
    if ret ≠ .success then pure ret else addReplicas e selections

def addVectors : Int → List V → Upd V ErrorCode
  | _, [] => pure .success
  | vid, vector :: vectors => do
    let results ← searchIndex env env.opt.internalResultNum vector
    let s ← get
    let selections := (rngSelection env s.index vector (-1) results []).2
    let e : Entry V := ⟨vid, s.versionMap.getVersion vid, vector⟩
    modify fun s =>
      { s with
        added := vid :: s.added
        wal := if env.opt.enableWAL then s.wal ++ [.insert e] else s.wal }
    let ret ← addReplicas env e selections
    if ret ≠ .success then pure ret else addVectors (vid + 1) vectors

def addIndex (vectors : List V) : Upd V ErrorCode := do
  let s ← get
  if vectors = [] then pure .emptyData
  else if s.versionMap.count = 0 then pure .emptyIndex
  else do
    let (ret, versionMap) := s.versionMap.addBatch vectors.length
    if ret ≠ .success then pure ret
    else do
      modify fun s => { s with versionMap := versionMap }
      addVectors env s.versionMap.count vectors

def deleteIndex (vid : Int) : Upd V ErrorCode := do
  let s ← get
  let (deleted, versionMap) := s.versionMap.delete vid
  modify fun s =>
    { s with
      versionMap := versionMap
      wal := if env.opt.enableWAL then s.wal ++ [.delete vid] else s.wal }
  pure (if deleted then .success else .vectorNotFound)

/-- The loop reads the number of heads anew in each round, so that it visits the heads its
own splits add. -/
def forceGC : Nat → Nat → Upd V PUnit
  | 0, _ => modify (·.lapse .hang)
  | rounds + 1, headID => do
    let s ← get
    if s.index.num ≤ headID then pure ⟨⟩
    else do
      whenever (s.index.containSample headID) (discard (split env headID false))
      forceGC rounds (headID + 1)

def execJob : Job V → Upd V ErrorCode
  | .split headID disableReassign => split env headID (!disableReassign)
  | .merge headID disableReassign => mergePostings env headID (!disableReassign)
  | .reassign vectorInfo headPrev => reassign env vectorInfo headPrev

def runJob (i : Nat) : Upd V PUnit := do
  let s ← get
  match s.jobs[i]? with
  | none => pure ⟨⟩
  | some j => do
    modify fun s => { s with jobs := s.jobs.eraseIdx i }
    let ret ← execJob env j
    whenever (ret ≠ .success) (modify fun s => { s with asyncStatus := ret })

inductive Op (V : Type)
  | addIndex (vectors : List V)
  | append (headID : Nat) (entries : Posting V)
  | split (headID : Nat) (reassign : Bool)
  | reassign (vectorInfo : Entry V) (headPrev : Int)
  | mergeAsync (headID : Nat)
  | job (i : Nat)
  | forceGC
  | deleteIndex (vid : Int)

def exec : Op V → Upd V PUnit
  | .addIndex vectors => discard (addIndex env vectors)
  | .append headID entries => discard (append env headID entries 0 env.rounds)
  | .split headID reassign => discard (split env headID reassign)
  | .reassign vectorInfo headPrev => discard (reassign env vectorInfo headPrev)
  | .mergeAsync headID => mergeAsync env headID
  | .job i => runJob env i
  | .forceGC => forceGC env env.rounds 0
  | .deleteIndex vid => discard (deleteIndex env vid)

def step (s : State V) (op : Op V) : State V := (exec env op s).2

end Sptag.SPANN.Dynamic
