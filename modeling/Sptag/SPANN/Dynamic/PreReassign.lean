import Sptag.SPANN.Dynamic.AppendRetry

/-! `RefineIndex` of the searcher with `p_prereassign` on: the heads are split in passes until a
pass finds none over the limit. -/

namespace Sptag.SPANN.Dynamic

open COMMON Lib

variable {V D : Type} [LinearOrder D] (env : Env V D)

namespace PreReassign

def newHead (c : Cluster V) : Upd V (Except ErrorCode Nat) := do
  let s ← get
  let begin := s.index.num
  modify (·.addHead env c)
  let s ← get
  if env.opt.recordCapacity ≤ s.records then do
    modify (·.lapse (.fault .addBatch))
    pure (.error .memoryOverFlow)
  else do
    modify fun s =>
      { s with records := s.records + 1 }.setRecord begin c.posting.length
      (env.calcChecksum c.posting)
    pure (.ok begin)

def placeCluster (headID : Nat) (theSameHead : Bool) (c : Cluster V) :
    Upd V (Except ErrorCode (Nat × Bool)) := do
  let s ← get
  if !theSameHead && isSameHead env s headID c then do
    modify (·.setRecord headID c.posting.length (env.calcChecksum c.posting))
    pure (.ok (headID, true))
  else
    match ← newHead env c with
    | .error ret => pure (.error ret)
    | .ok begin => pure (.ok (begin, theSameHead))

def splitTwo (headID : Nat) (c₀ c₁ : Cluster V) : Upd V ErrorCode := do
  match ← placeCluster env headID false c₀ with
  | .error ret => pure ret
  | .ok (_, same₀) =>
    match ← placeCluster env headID same₀ c₁ with
    | .error ret => pure ret
    | .ok (_, same) => do
      match ← retireHead env headID same with
      | .success => do
        modify (·.eraseSplit headID)
        pure .success
      | ret => pure ret

def cutSize : Nat := if env.opt.oneClusterCutMax then env.opt.postingSizeLimit else 1

def cutPosting (beyond : Nat → Nat → Entry V) (order : Posting V) (tick : Nat) : Posting V :=
  (List.range (cutSize env)).map fun j => order.getD j (beyond tick j)

/-- `Split` with `preReassign` on and `reassign` off: nothing is collected, however few entries
are live. -/
def split (beyond : Nat → Nat → Entry V) (headID : Nat) : Upd V ErrorCode := do
  let s ← get
  if !s.index.containSample headID then pure .success
  else match ← fetchPosting env headID 3 with
    | .error ret => pure ret
    | .ok p => do
      let s ← get
      match ← kmeansClustering env (s.live p) with
      | .one order => shrinkPosting env .splitCut headID (cutPosting env beyond order s.tick)
      | .two c₀ c₁ => splitTwo env headID c₀ c₁

/-- `limit` is `m_postingSizeLimit * m_preReassignRatio`; `order pass num` is the order in which
the threads take the heads of a pass. -/
structure Setting (V : Type) where
  limit : Int
  vectorInfoSize : Nat
  postingPageLimit : Nat
  order : Nat → Nat → List Nat
  order_perm : ∀ pass num, (order pass num).Perm (List.range num)
  beyond : Nat → Nat → Entry V

variable (cfg : Setting V)

def visit (headID : Nat) : Upd V Bool := do
  let s ← get
  if cfg.limit ≤ s.postingSizes headID then do
    discard (split env cfg.beyond headID)
    pure false
  else pure true

def visitAll : List Nat → Upd V Bool
  | [] => pure true
  | headID :: heads => do
    let done ← visit env cfg headID
    let rest ← visitAll heads
    pure (done && rest)

def checkpoint : Upd V ErrorCode := do
  let s ← get
  if s.asyncStatus ≠ .success then pure s.asyncStatus
  else if !(← call env .saveVersions fun _ => true) then pure .fail
  else if !(← call env .saveSizes fun _ => true) then pure .fail
  else if !(← call env .saveChecksums fun _ => true) then pure .fail
  else if !(← call env .dbCheckpoint fun _ => true) then pure .fail
  else do
    whenever env.opt.enableWAL (modify fun s => { s with wal := [] })
    pure .success

structure Distribution where
  lengths : List Nat
  sizes : List Nat
  deletedHead : Nat

def increment (histogram : List Nat) (i : Nat) : Option (List Nat) :=
  if i < histogram.length then some (histogram.modify i (· + 1)) else none

def sizeBucket (size : Nat) : Nat :=
  let bytes := toInt (size * cfg.vectorInfoSize)
  if bytes < PageSize then
    if bytes < 512 then 0
    else if bytes < 1024 then 1
    else 2
  else bytes.toNat / PageSize + 2

def countPosting (s : State V) (d : Distribution) (headID : Nat) : Option Distribution := do
  let size ← if headID < s.records then some (s.postingSizes headID) else none
  let lengths ← increment d.lengths (size / 10)
  let sizes ← increment d.sizes (sizeBucket cfg size)
  some ⟨lengths, sizes, if s.index.containSample headID then d.deletedHead else d.deletedHead + 1⟩

def calculatePostingDistribution (s : State V) : Option Distribution :=
  (List.range s.index.num).foldlM (countPosting cfg s)
    { lengths := List.replicate (env.opt.postingSizeLimit / 10 + 1) 0
      sizes := List.replicate (cfg.postingPageLimit + 3) 0
      deletedHead := 0 }

/-- One round of the loop, `none` where the histograms or the records are left; the result of
`Checkpoint` is not looked at. -/
def round (pass : Nat) : Upd V (Option Bool) := do
  let s ← get
  let done ← visitAll env cfg (cfg.order pass s.index.num)
  discard (checkpoint env)
  let s ← get
  pure ((calculatePostingDistribution env cfg s).map fun _ => done)

def refineIndex : Nat → Nat → Upd V ErrorCode
  | 0, _ => do
    modify (·.lapse .hang)
    pure .fail
  | rounds + 1, pass => do
    match ← round env cfg pass with
    | none => pure .fail
    | some true => pure .success
    | some false => refineIndex rounds (pass + 1)

abbrev Turn (V : Type) := Nat × State V

def next (t : Turn V) : Turn V := (t.1 + 1, (round env cfg t.1 t.2).2)

def Again (t : Turn V) : Prop :=
  (visitAll env cfg (cfg.order t.1 t.2.index.num) t.2).1 = false

/-- `RefineIndex` comes back, with any fuel that covers its passes. -/
def Returns (s : State V) : Prop :=
  ∃ k, ∀ rounds, k < rounds → (refineIndex env cfg rounds 0 s).1 = .success

def newHeads (s : State V) (headID : Nat) (c₀ c₁ : Cluster V) : Nat :=
  if isSameHead env s headID c₀ || isSameHead env s headID c₁ then 1 else 2

/-- The posting is read, and what becomes of it is smaller than its record: the cut, which the
store takes, or both clusters, with memory for the rows of the new heads. -/
structure Productive (headID : Nat) (s : State V) : Prop where
  contained : s.index.containSample headID = true
  smaller : ∃ p s₁, fetchPosting env headID 3 s = (.ok p, s₁) ∧
    match env.kmeans s₁.tick (s₁.live p) with
    | .one _ => env.fails .splitCut (s₁.tick + 1) = false ∧ cutSize env < s.postingSizes headID
    | .two c₀ c₁ => c₀.posting.length < s.postingSizes headID ∧
        c₁.posting.length < s.postingSizes headID ∧
        s.records + newHeads env s headID c₀ c₁ ≤ env.opt.recordCapacity

def Progresses : List Nat → State V → Prop
  | [], _ => True
  | headID :: heads, s => (cfg.limit ≤ s.postingSizes headID → Productive env headID s) ∧
      Progresses heads (visit env cfg headID s).2

def RoundProgresses (t : Turn V) : Prop :=
  Progresses env cfg (cfg.order t.1 t.2.index.num) t.2

section Sizes

variable {env cfg} {headID : Nat} {s s' : State V}

def sizes (s : State V) : List Nat := (List.range s.index.num).map s.postingSizes

def Fits (env : Env V D) (cfg : Setting V) (size : Nat) : Prop :=
  size / 10 ≤ env.opt.postingSizeLimit / 10 ∧ sizeBucket cfg size ≤ cfg.postingPageLimit + 2

structure Charted (env : Env V D) (cfg : Setting V) (s : State V) : Prop where
  rows : (sizes s).length ≤ s.records
  fits : ∀ n ∈ sizes s, Fits env cfg n

def overLimit (limit : Int) (s : State V) : Multiset Nat :=
  Multiset.filter (fun n : Nat => limit ≤ n) ↑(sizes s)

@[simp] theorem length_sizes (s : State V) : (sizes s).length = s.index.num := by simp [sizes]

@[simp] theorem getElem_sizes (h : headID < (sizes s).length) :
    (sizes s)[headID] = s.postingSizes headID := by simp [sizes]

@[simp] theorem sizes_setRecord (s : State V) (headID n : Nat) (c : ChecksumType) :
    sizes (s.setRecord headID n c) = (sizes s).set headID n := by
  refine List.ext_getElem (by simp [State.setRecord]) fun i hi _ => ?_
  rw [getElem_sizes, List.getElem_set]
  split
  · rename_i heq
    rw [← heq]
    exact Function.update_self _ _ _
  · rename_i hne
    rw [getElem_sizes]
    exact Function.update_of_ne (Ne.symm hne) _ _

theorem sizes_newHead (hnum : s'.index.num = s.index.num + 1) {n : Nat}
    (hsizes : s'.postingSizes = Function.update s.postingSizes s.index.num n) :
    sizes s' = sizes s ++ [n] := by
  rw [sizes, sizes, hnum, List.range_succ, List.map_append, hsizes]
  congr 1
  · refine List.map_congr_left fun h hh => ?_
    exact Function.update_of_ne (Nat.ne_of_lt (List.mem_range.mp hh)) _ _
  · simp

theorem sizes_of_ledger (h : s'.ledger = s.ledger) : sizes s' = sizes s := by
  have hindex : s'.index = s.index := congrArg Ledger.index h
  have hsizes : s'.postingSizes = s.postingSizes := congrArg Ledger.postingSizes h
  rw [sizes, sizes, hindex, hsizes]

omit [LinearOrder D] in
theorem call_keeps_sizes (site : Site) (serves : State V → Bool) :
    Keeps sizes (call env site serves) := by
  intro s
  unfold call
  split
  · rfl
  · rfl

omit [LinearOrder D] in
theorem dbDelete_keeps_sizes (site : Site) (headID : Nat) :
    Keeps sizes (dbDelete env site headID) :=
  (call_keeps_sizes site _).bind fun ok =>
    Keeps.bind (.whenever (.modify fun _ => rfl)) fun _ => .pure ok

omit [LinearOrder D] in
theorem checkpoint_keeps_ledger : Keeps State.ledger (checkpoint (V := V) env) := by
  have hcall : ∀ site serves, Keeps State.ledger (call (V := V) env site serves) := by
    intro site serves s
    unfold call
    split
    · rfl
    · rfl
  refine .get_bind fun s => .ite (.pure _) ?_
  refine (hcall _ _).bind fun _ => .ite (.pure _) ?_
  refine (hcall _ _).bind fun _ => .ite (.pure _) ?_
  refine (hcall _ _).bind fun _ => .ite (.pure _) ?_
  refine (hcall _ _).bind fun _ => .ite (.pure _) ?_
  exact Keeps.bind (.whenever (.modify fun _ => rfl)) fun _ => .pure _

omit [LinearOrder D] in
theorem newHead_of_room (hroom : s.records < env.opt.recordCapacity) (c : Cluster V) :
    ∃ s', newHead env c s = (.ok s.index.num, s') ∧ sizes s' = sizes s ++ [c.posting.length] ∧
      s'.records = s.records + 1 ∧
      ∀ h < s.index.num, s'.index.sample h = s.index.sample h := by
  have hindex : (s.addHead env c).index = s.index.addIndexId c.center := addHead_index s c
  have hrest : (s.addHead env c).records = s.records ∧ (s.addHead env c).postingSizes =
    s.postingSizes := by
    unfold State.addHead
    split
    · exact ⟨rfl, rfl⟩
    · exact ⟨rfl, rfl⟩
  have hroom' : ¬ env.opt.recordCapacity ≤ (s.addHead env c).records := by
    rw [hrest.1]
    exact Nat.not_le.mpr hroom
  refine ⟨{ s.addHead env c with records := (s.addHead env c).records + 1 }.setRecord s.index.num
    c.posting.length (env.calcChecksum c.posting), ?_, ?_, ?_, ?_⟩
  · rw [newHead, get_bind_apply, modify_bind_apply, get_bind_apply, if_neg hroom']
    rfl
  · refine sizes_newHead ?_ ?_
    · exact congrArg HeadIndex.num hindex
    · exact congrArg (Function.update · s.index.num c.posting.length) hrest.2
  · exact congrArg (· + 1) hrest.1
  · intro h hh
    have hsample := congrArg (fun i : HeadIndex V => i.sample h) hindex
    exact hsample.trans (Function.update_of_ne (Nat.ne_of_lt hh) _ _)

theorem placeCluster_same (same : Bool) (c : Cluster V)
    (h : (!same && isSameHead env s headID c) = true) :
    placeCluster env headID same c s =
      (.ok (headID, true), s.setRecord headID c.posting.length (env.calcChecksum c.posting)) := by
  rw [placeCluster, get_bind_apply, if_pos h]
  rfl

variable (headID) in
theorem placeCluster_new (same : Bool) (c : Cluster V)
    (h : (!same && isSameHead env s headID c) = false)
    (hroom : s.records < env.opt.recordCapacity) :
    ∃ s', placeCluster env headID same c s = (.ok (s.index.num, same), s') ∧
      sizes s' = sizes s ++ [c.posting.length] ∧ s'.records = s.records + 1 ∧
      ∀ h < s.index.num, s'.index.sample h = s.index.sample h := by
  obtain ⟨s', hnew, hsizes, hrecords, hsample⟩ := newHead_of_room hroom c
  refine ⟨s', ?_, hsizes, hrecords, hsample⟩
  rw [placeCluster, get_bind_apply, if_neg (by simp [h]), bind_eq_of_eq hnew]
  rfl

def settle (env : Env V D) (headID : Nat) (same : Bool) : Upd V ErrorCode := do
  match ← retireHead env headID same with
  | .success => do
    modify (·.eraseSplit headID)
    pure .success
  | ret => pure ret

omit [LinearOrder D] in
theorem settle_sizes (same : Bool) (s : State V) : sizes (settle env headID same s).2 =
    if same then sizes s else (sizes s).set headID 0 := by
  have hrest : ∀ ret : ErrorCode, Keeps sizes (match ret with
      | .success => (do
        modify (·.eraseSplit headID)
        pure .success : Upd V ErrorCode)
      | ret => pure ret) := by
    intro ret
    cases ret with
    | success => exact Keeps.bind (.modify fun _ => rfl) fun _ => .pure _
    | _ => exact .pure _
  refine (hrest _ _).trans ?_
  cases same with
  | true => rfl
  | false =>
    have hdelete : Keeps sizes (dbDelete env .splitDelete headID >>= fun ok =>
        if ok then pure ErrorCode.success else pure ErrorCode.fail) :=
      (dbDelete_keeps_sizes _ headID).bind fun ok => .ite (.pure _) (.pure _)
    exact (hdelete ((s.deleteHead headID).setRecord headID 0 0)).trans
      (sizes_setRecord (s.deleteHead headID) headID 0 0)

theorem splitTwo_of_placed {c₀ c₁ : Cluster V} {head₀ head₁ : Nat} {same₀ same : Bool}
    {s₁ s₂ : State V}
    (h₀ : placeCluster env headID false c₀ s = (.ok (head₀, same₀), s₁))
    (h₁ : placeCluster env headID same₀ c₁ s₁ = (.ok (head₁, same), s₂)) :
    splitTwo env headID c₀ c₁ s = settle env headID same s₂ := by
  rw [splitTwo, bind_eq_of_eq h₀]
  exact bind_eq_of_eq h₁

/-- The record of the head went down to `m`, and the new heads have the records `ms`; all of
them are below `n`. -/
def Lowered (headID n : Nat) (old new : List Nat) : Prop :=
  ∃ m ms, m < n ∧ (∀ x ∈ ms, x < n) ∧ new = old.set headID m ++ ms

theorem splitTwo_lowered {n : Nat} (hh : headID < s.index.num) {c₀ c₁ : Cluster V}
    (h₀ : c₀.posting.length < n) (h₁ : c₁.posting.length < n)
    (hroom : s.records + newHeads env s headID c₀ c₁ ≤ env.opt.recordCapacity) :
    Lowered headID n (sizes s) (sizes (splitTwo env headID c₀ c₁ s).2) := by
  have hlength : headID < (sizes s).length := by rwa [length_sizes]
  cases hsame₀ : isSameHead env s headID c₀ with
  | true =>
    have hplace₀ := placeCluster_same false c₀ hsame₀
    rw [newHeads, hsame₀, Bool.true_or, if_pos rfl] at hroom
    obtain ⟨s₂, hplace₁, hsizes, -, -⟩ := placeCluster_new headID
      (s := s.setRecord headID c₀.posting.length (env.calcChecksum c₀.posting)) true c₁ rfl hroom
    refine ⟨c₀.posting.length, [c₁.posting.length], h₀, by simpa using h₁, ?_⟩
    rw [splitTwo_of_placed hplace₀ hplace₁, settle_sizes, if_pos rfl, hsizes, sizes_setRecord]
  | false =>
    have hroom₁ : s.records < env.opt.recordCapacity := by
      refine Nat.lt_of_lt_of_le ?_ hroom
      rw [newHeads]
      split
      · omega
      · omega
    obtain ⟨s₁, hplace₀, hsizes₁, hrecords, hsample⟩ :=
      placeCluster_new headID false c₀ hsame₀ hroom₁
    have hsame : isSameHead env s₁ headID c₁ = isSameHead env s headID c₁ := by
      rw [isSameHead, isSameHead, hsample headID hh]
    cases hsame₁ : isSameHead env s headID c₁ with
    | true =>
      have hplace₁ := placeCluster_same false c₁ (hsame.trans hsame₁)
      refine ⟨c₁.posting.length, [c₀.posting.length], h₁, by simpa using h₀, ?_⟩
      rw [splitTwo_of_placed hplace₀ hplace₁, settle_sizes, if_pos rfl, sizes_setRecord, hsizes₁,
        List.set_append_left _ _ hlength]
    | false =>
      rw [newHeads, hsame₀, hsame₁, Bool.or_self, if_neg Bool.false_ne_true] at hroom
      have hroom₂ : s₁.records < env.opt.recordCapacity := by omega
      obtain ⟨s₂, hplace₁, hsizes₂, -, -⟩ :=
        placeCluster_new headID false c₁ (hsame.trans hsame₁) hroom₂
      refine ⟨0, [c₀.posting.length, c₁.posting.length], by omega, by simp [h₀, h₁], ?_⟩
      rw [splitTwo_of_placed hplace₀ hplace₁, settle_sizes, if_neg Bool.false_ne_true,
        hsizes₂, hsizes₁,
        List.append_assoc, List.set_append_left _ _ hlength]
      rfl

omit [LinearOrder D] in
@[simp] theorem length_cutPosting (beyond : Nat → Nat → Entry V) (order : Posting V) (tick : Nat) :
    (cutPosting env beyond order tick).length = cutSize env := by
  rw [cutPosting, List.length_map, List.length_range]

omit [LinearOrder D] in
theorem shrinkPosting_sizes (site : Site) (headID : Nat) (p : Posting V) (s : State V) :
    sizes (shrinkPosting env site headID p s).2 =
      if env.fails site s.tick then sizes s else (sizes s).set headID p.length := by
  cases hfails : env.fails site s.tick with
  | true =>
    have hput : dbPut env site headID p s = (false, (s.ticked 1).lapse (.fault site)) :=
      bind_eq_of_eq (Retry.call_fails hfails)
    have hwrite : writePosting env site headID p s = (.fail, (s.ticked 1).lapse (.fault site)) :=
      bind_eq_of_eq hput
    have hrun : shrinkPosting env site headID p s = (.fail, (s.ticked 1).lapse (.fault site)) :=
      bind_eq_of_eq hwrite
    rw [hrun]
    rfl
  | false =>
    have hput : dbPut env site headID p s = (true, (s.ticked 1).setPosting headID (some p)) :=
      bind_eq_of_eq (call_served hfails rfl)
    have hwrite : writePosting env site headID p s = (.success,
        ((s.ticked 1).setPosting headID (some p)).setRecord headID p.length (env.calcChecksum p)) :=
      bind_eq_of_eq hput
    have hrun : (shrinkPosting env site headID p s).2 =
        (((s.ticked 1).setPosting headID (some p)).setRecord headID p.length
          (env.calcChecksum p)).eraseSplit headID := congrArg Prod.snd (bind_eq_of_eq hwrite)
    rw [hrun]
    exact sizes_setRecord ((s.ticked 1).setPosting headID (some p)) headID p.length
      (env.calcChecksum p)

omit [LinearOrder D] in
theorem shrinkPosting_keeps_records (site : Site) (headID : Nat) (p : Posting V) :
    Keeps State.records (shrinkPosting env site headID p) := by
  have hcall : Keeps State.records (call env site fun _ => true) := by
    intro s
    unfold call
    split
    · rfl
    · rfl
  have hput : Keeps State.records (dbPut env site headID p) :=
    hcall.bind fun _ => Keeps.bind (.whenever (.modify fun _ => rfl)) fun _ => .pure _
  have hwrite : Keeps State.records (writePosting env site headID p) :=
    hput.bind fun _ => .ite (Keeps.bind (.modify fun _ => rfl) fun _ => .pure _) (.pure _)
  refine hwrite.bind fun ret => ?_
  cases ret with
  | success => exact Keeps.bind (.modify fun _ => rfl) fun _ => .pure _
  | _ => exact .pure _

def splitClusters (env : Env V D) (beyond : Nat → Nat → Entry V) (headID : Nat) (live : Posting V)
    (tick : Nat) : Upd V ErrorCode := do
  match ← kmeansClustering env live with
  | .one order => shrinkPosting env .splitCut headID (cutPosting env beyond order tick)
  | .two c₀ c₁ => splitTwo env headID c₀ c₁

theorem split_of_fetched (hc : s.index.containSample headID = true) {p : Posting V} {s₁ : State V}
    (hfetch : fetchPosting env headID 3 s = (.ok p, s₁)) (beyond : Nat → Nat → Entry V) :
    split env beyond headID s = splitClusters env beyond headID (s₁.live p) s₁.tick s₁ := by
  rw [split, get_bind_apply, if_neg (by simp [hc]), bind_eq_of_eq hfetch]
  rfl

theorem split_lowered (h : Productive env headID s) (beyond : Nat → Nat → Entry V) :
    Lowered headID (s.postingSizes headID) (sizes s) (sizes (split env beyond headID s).2) := by
  obtain ⟨hc, p, s₁, hfetch, hsmaller⟩ := h
  have hbooks : (fetchPosting env headID 3 s).2.books = s.books :=
    fetchPosting_keeps_books headID 3 s
  rw [hfetch] at hbooks
  have hledger : s₁.ledger = s.ledger := congrArg Prod.fst hbooks
  have hsizes₁ : sizes s₁ = sizes s := sizes_of_ledger hledger
  have hindex : s₁.index = s.index := congrArg Ledger.index hledger
  have hrecords : s₁.records = s.records := congrArg Ledger.records hledger
  have hh : headID < s₁.index.num := by
    rw [hindex]
    exact (HeadIndex.contain_iff.mp hc).1
  cases hkmeans : env.kmeans s₁.tick (s₁.live p) with
  | one order =>
    rw [hkmeans] at hsmaller
    have hcluster : kmeansClustering env (s₁.live p) s₁ =
      (.one order, (s₁.ticked 1).lapse .single) := by
      rw [kmeansClustering, hkmeans]
      rfl
    have hrun : split env beyond headID s = shrinkPosting env .splitCut headID
        (cutPosting env beyond order s₁.tick) ((s₁.ticked 1).lapse .single) :=
      (split_of_fetched hc hfetch beyond).trans (bind_eq_of_eq hcluster)
    refine ⟨cutSize env, [], hsmaller.2, fun x hx => absurd hx List.not_mem_nil, ?_⟩
    have hserved : env.fails .splitCut ((s₁.ticked 1).lapse .single).tick = false := hsmaller.1
    rw [hrun, shrinkPosting_sizes, hserved, length_cutPosting, List.append_nil, ← hsizes₁]
    rfl
  | two c₀ c₁ =>
    rw [hkmeans] at hsmaller
    have hcluster : kmeansClustering env (s₁.live p) s₁ = (.two c₀ c₁, s₁.ticked 1) := by
      rw [kmeansClustering, hkmeans]
      rfl
    have hrun : split env beyond headID s = splitTwo env headID c₀ c₁ (s₁.ticked 1) :=
      (split_of_fetched hc hfetch beyond).trans (bind_eq_of_eq hcluster)
    have hheads : newHeads env (s₁.ticked 1) headID c₀ c₁ = newHeads env s headID c₀ c₁ := by
      rw [newHeads, newHeads, isSameHead, isSameHead, isSameHead, isSameHead]
      rw [show (s₁.ticked 1).index = s.index from hindex]
    rw [hrun, ← hsizes₁]
    refine splitTwo_lowered (s := s₁.ticked 1) hh hsmaller.1 hsmaller.2.1 ?_
    rw [hheads, show (s₁.ticked 1).records = s.records from hrecords]
    exact hsmaller.2.2

theorem visit_of_over (h : cfg.limit ≤ s.postingSizes headID) :
    visit env cfg headID s = (false, (split env cfg.beyond headID s).2) := by
  rw [visit, get_bind_apply, if_pos h]
  rfl

theorem visit_of_below (h : ¬ cfg.limit ≤ s.postingSizes headID) : visit env cfg headID s =
    (true, s) := by
  rw [visit, get_bind_apply, if_neg h]
  rfl

theorem visitAll_of_over (h : cfg.limit ≤ s.postingSizes headID) (heads : List Nat) :
    visitAll env cfg (headID :: heads) s =
      (false, (visitAll env cfg heads (split env cfg.beyond headID s).2).2) :=
  bind_eq_of_eq (visit_of_over h)

theorem visitAll_of_below (h : ¬ cfg.limit ≤ s.postingSizes headID) (heads : List Nat) :
    visitAll env cfg (headID :: heads) s = visitAll env cfg heads s :=
  bind_eq_of_eq (visit_of_below h)

theorem visitAll_done {heads : List Nat} (h : (visitAll env cfg heads s).1 = true) :
    (∀ headID ∈ heads, ¬ cfg.limit ≤ s.postingSizes headID) ∧ (visitAll env cfg heads s).2 = s := by
  induction heads with
  | nil => exact ⟨fun _ hh => absurd hh List.not_mem_nil, rfl⟩
  | cons headID heads ih =>
    by_cases hover : cfg.limit ≤ s.postingSizes headID
    · rw [visitAll_of_over hover] at h
      cases h
    · rw [visitAll_of_below hover] at h ⊢
      obtain ⟨hbelow, hstate⟩ := ih h
      exact ⟨List.forall_mem_cons.mpr ⟨hover, hbelow⟩, hstate⟩

def Quiet (limit : Int) (s : State V) : Prop := ∀ n ∈ sizes s, ¬ limit ≤ (n : Int)

theorem quiet_iff {limit : Int} :
    Quiet limit s ↔ ∀ headID < s.index.num, ¬ limit ≤ s.postingSizes headID := by
  simp [Quiet, sizes]

variable (env) in
theorem visitAll_quiet {heads : List Nat}
    (h : ∀ headID ∈ heads, ¬ cfg.limit ≤ s.postingSizes headID) :
    visitAll env cfg heads s = (true, s) ∧ Progresses env cfg heads s := by
  induction heads with
  | nil => exact ⟨rfl, trivial⟩
  | cons headID heads ih =>
    obtain ⟨hbelow, hrest⟩ := List.forall_mem_cons.mp h
    obtain ⟨hvisit, hprogresses⟩ := ih hrest
    refine ⟨(visitAll_of_below hbelow heads).trans hvisit, fun hover => absurd hover hbelow, ?_⟩
    rwa [visit_of_below hbelow]

theorem visitAll_overLimit {heads : List Nat} (h : Progresses env cfg heads s) :
    visitAll env cfg heads s = (true, s) ∨
      Multiset.IsDershowitzMannaLT (overLimit cfg.limit (visitAll env cfg heads s).2)
        (overLimit cfg.limit s) := by
  induction heads generalizing s with
  | nil => exact .inl rfl
  | cons headID heads ih =>
    obtain ⟨hproductive, hrest⟩ := h
    by_cases hover : cfg.limit ≤ s.postingSizes headID
    · have hsplit := hproductive hover
      have hh : headID < (sizes s).length := by
        rw [length_sizes]
        exact (HeadIndex.contain_iff.mp hsplit.contained).1
      obtain ⟨m, ms, hm, hms, hsizes⟩ := split_lowered hsplit cfg.beyond
      have hlt : Multiset.IsDershowitzMannaLT
          (overLimit cfg.limit (split env cfg.beyond headID s).2) (overLimit cfg.limit s) := by
        rw [overLimit, hsizes]
        refine replaced_lt _ hh ?_ ?_ ?_
        · rwa [getElem_sizes]
        · rwa [getElem_sizes]
        · rwa [getElem_sizes]
      rw [visit_of_over hover] at hrest
      rw [visitAll_of_over hover]
      rcases ih hrest with heq | hlt'
      · rw [heq]
        exact .inr hlt
      · exact .inr (hlt'.trans hlt)
    · rw [visit_of_below hover] at hrest
      rw [visitAll_of_below hover]
      exact ih hrest

end Sizes

section Histograms

variable {env cfg} {s s' : State V}

def Counts (cfg : Setting V) (s : State V) (lengths sizes headID : Nat) : Prop :=
  headID < s.records ∧ s.postingSizes headID / 10 < lengths ∧
    sizeBucket cfg (s.postingSizes headID) < sizes

theorem countPosting_of_counts {d : Distribution} {headID : Nat}
    (h : Counts cfg s d.lengths.length d.sizes.length headID) :
    ∃ d', countPosting cfg s d headID = some d' ∧ d'.lengths.length = d.lengths.length ∧
      d'.sizes.length = d.sizes.length := by
  obtain ⟨hrow, hlength, hsize⟩ := h
  simp [countPosting, increment, hrow, hlength, hsize]

theorem countPosting_of_not_counts {d : Distribution} {headID : Nat}
    (h : ¬ Counts cfg s d.lengths.length d.sizes.length headID) :
    countPosting cfg s d headID = none := by
  unfold countPosting increment
  by_cases hrow : headID < s.records
  · by_cases hlength : s.postingSizes headID / 10 < d.lengths.length
    · have hsize : ¬ sizeBucket cfg (s.postingSizes headID) < d.sizes.length := fun hsize =>
        h ⟨hrow, hlength, hsize⟩
      simp [hrow, hlength, hsize]
    · simp [hrow, hlength]
  · simp [hrow]

theorem countPostings_isSome_iff (heads : List Nat) (d : Distribution) :
    (heads.foldlM (countPosting cfg s) d).isSome ↔
      ∀ headID ∈ heads, Counts cfg s d.lengths.length d.sizes.length headID := by
  induction heads generalizing d with
  | nil => simp
  | cons headID heads ih =>
    rw [List.foldlM_cons, List.forall_mem_cons]
    by_cases hcounts : Counts cfg s d.lengths.length d.sizes.length headID
    · obtain ⟨d', hd, hlengths, hsizes⟩ := countPosting_of_counts hcounts
      rw [hd, ← hlengths, ← hsizes]
      exact (ih d').trans (and_iff_right (by rwa [hlengths, hsizes])).symm
    · rw [countPosting_of_not_counts hcounts]
      exact iff_of_false Bool.false_ne_true fun h => hcounts h.1

omit [LinearOrder D] in
theorem distribution_isSome_iff :
    (calculatePostingDistribution env cfg s).isSome ↔ Charted env cfg s := by
  rw [calculatePostingDistribution, countPostings_isSome_iff]
  simp only [Counts, List.length_replicate, List.mem_range, Nat.lt_succ_iff]
  have hmem : ∀ headID < s.index.num, s.postingSizes headID ∈ sizes s := fun headID hh =>
    List.mem_map_of_mem (List.mem_range.mpr hh)
  constructor
  · intro h
    refine ⟨Nat.le_of_not_lt fun hlt => ?_, fun n hn => ?_⟩
    · rw [length_sizes] at hlt
      exact Nat.lt_irrefl _ (h s.records hlt).1
    · obtain ⟨headID, hh, rfl⟩ := List.mem_map.mp hn
      exact (h headID (List.mem_range.mp hh)).2
  · exact fun h headID hh =>
      ⟨hh.trans_le (length_sizes s ▸ h.rows), h.fits _ (hmem headID hh)⟩

omit [LinearOrder D] in
theorem Charted.of_ledger (h : Charted env cfg s) (hl : s'.ledger = s.ledger) :
    Charted env cfg s' := by
  have hrecords : s'.records = s.records := congrArg Ledger.records hl
  refine ⟨?_, ?_⟩
  · rw [sizes_of_ledger hl, hrecords]
    exact h.rows
  · rw [sizes_of_ledger hl]
    exact h.fits

end Histograms

section Loop

variable {env cfg} {s : State V}

@[simp] theorem mem_order {pass num headID : Nat} : headID ∈ cfg.order pass num ↔ headID < num :=
  (cfg.order_perm pass num).mem_iff.trans List.mem_range

theorem round_eq (pass : Nat) (s : State V) : round env cfg pass s =
    let r := visitAll env cfg (cfg.order pass s.index.num) s
    ((calculatePostingDistribution env cfg (checkpoint env r.2).2).map fun _ => r.1,
      (checkpoint env r.2).2) := rfl

theorem next_ledger (t : Turn V) : (next env cfg t).2.ledger =
    (visitAll env cfg (cfg.order t.1 t.2.index.num) t.2).2.ledger := checkpoint_keeps_ledger _

theorem round_of_quiet {t : Turn V} (hs : Quiet cfg.limit t.2) :
    RoundProgresses env cfg t ∧ (next env cfg t).2.ledger = t.2.ledger := by
  have hbelow : ∀ headID ∈ cfg.order t.1 t.2.index.num, ¬ cfg.limit ≤ t.2.postingSizes headID :=
    fun headID hh => quiet_iff.mp hs headID (mem_order.mp hh)
  obtain ⟨hvisit, hprogresses⟩ := visitAll_quiet env hbelow
  refine ⟨hprogresses, ?_⟩
  rw [next_ledger, hvisit]

theorem Quiet.of_ledger {s' : State V} {limit : Int} (h : Quiet limit s)
    (hl : s'.ledger = s.ledger) : Quiet limit s' := by
  rwa [Quiet, sizes_of_ledger hl]

theorem ledger_of_quiet {k : Nat} (hs : Quiet cfg.limit ((next env cfg)^[k] (0, s)).2) {j : Nat}
    (hj : k ≤ j) : ((next env cfg)^[j] (0, s)).2.ledger = ((next env cfg)^[k] (0, s)).2.ledger := by
  induction j, hj using Nat.le_induction with
  | base => rfl
  | succ j _ ih =>
    rw [Function.iterate_succ_apply']
    exact (round_of_quiet (hs.of_ledger ih)).2.trans ih

theorem quiet_of_done {t : Turn V} (h : ¬ Again env cfg t) : Quiet cfg.limit t.2 := by
  have hdone := Bool.eq_true_of_not_eq_false h
  exact quiet_iff.mpr fun headID hh => (visitAll_done hdone).1 headID (mem_order.mpr hh)

def Goes (env : Env V D) (cfg : Setting V) (t : Turn V) : Prop :=
  Again env cfg t ∧ Charted env cfg (next env cfg t).2

theorem round_of_charted {t : Turn V} (h : Charted env cfg (next env cfg t).2) :
    (round env cfg t.1 t.2).1 = some (visitAll env cfg (cfg.order t.1 t.2.index.num) t.2).1 := by
  obtain ⟨d, hd⟩ := Option.isSome_iff_exists.mp (distribution_isSome_iff.mpr h)
  have hnext : (next env cfg t).2 =
    (checkpoint env (visitAll env cfg (cfg.order t.1 t.2.index.num) t.2).2).2 := rfl
  rw [hnext] at hd
  rw [round_eq]
  simp only [hd, Option.map_some]

theorem refineIndex_again {t : Turn V} (h : Goes env cfg t) (rounds : Nat) :
    refineIndex env cfg (rounds + 1) t.1 t.2 =
      refineIndex env cfg rounds (next env cfg t).1 (next env cfg t).2 := by
  have hround : round env cfg t.1 t.2 = (some false, (next env cfg t).2) :=
    Prod.ext ((round_of_charted h.2).trans (congrArg some h.1)) rfl
  rw [refineIndex, bind_eq_of_eq hround]
  rfl

theorem refineIndex_done {t : Turn V} (h : ¬ Goes env cfg t) (rounds : Nat) :
    refineIndex env cfg (rounds + 1) t.1 t.2 =
      (if (calculatePostingDistribution env cfg (next env cfg t).2).isSome then .success else .fail,
        (next env cfg t).2) := by
  by_cases hcharted : Charted env cfg (next env cfg t).2
  · have hdone := Bool.eq_true_of_not_eq_false fun hagain => h ⟨hagain, hcharted⟩
    have hround : round env cfg t.1 t.2 = (some true, (next env cfg t).2) :=
      Prod.ext ((round_of_charted hcharted).trans (congrArg some hdone)) rfl
    rw [refineIndex, bind_eq_of_eq hround, if_pos (distribution_isSome_iff.mpr hcharted)]
    rfl
  · have hnone : calculatePostingDistribution env cfg (next env cfg t).2 = none := by
      rw [← Option.not_isSome_iff_eq_none, distribution_isSome_iff]
      exact hcharted
    have hround : round env cfg t.1 t.2 = (none, (next env cfg t).2) :=
      Prod.ext (congrArg (Option.map _) hnone) rfl
    rw [refineIndex, bind_eq_of_eq hround, hnone]
    rfl

theorem returns_iff_ends (s : State V) :
    Returns env cfg s ↔ Ends (Again env cfg) (next env cfg) (0, s) ∧
      ∀ j, Charted env cfg ((next env cfg)^[j + 1] (0, s)).2 := by
  let F : Nat → Turn V → ErrorCode × State V := fun rounds t => refineIndex env cfg rounds t.1 t.2
  have hagain : ∀ n t, Goes env cfg t → F (n + 1) t = F n (next env cfg t) :=
    fun n _ h => refineIndex_again h n
  have hdone : ∀ n t, ¬ Goes env cfg t → F (n + 1) t =
      (if (calculatePostingDistribution env cfg (next env cfg t).2).isSome then .success else .fail,
        (next env cfg t).2) := fun n _ h => refineIndex_done h n
  have hgood : ∀ t, (if (calculatePostingDistribution env cfg (next env cfg t).2).isSome then
      ErrorCode.success else .fail) = .success ↔ Charted env cfg (next env cfg t).2 := by
    intro t
    rw [← distribution_isSome_iff]
    split
    · exact iff_of_true rfl ‹_›
    · exact iff_of_false (by decide) ‹_›
  refine (fuel_good_iff (s := (0, s)) hagain (fun r => r.1 = .success) hdone
    fun _ h => by cases h).trans ?_
  simp only [hgood]
  constructor
  · rintro ⟨k, hk, hgoing, hlast⟩
    have hstop : ¬ Again env cfg ((next env cfg)^[k] (0, s)) := fun h => hk ⟨h, hlast⟩
    refine ⟨⟨k, hstop⟩, fun j => ?_⟩
    rcases Nat.lt_or_ge j k with hlt | hle
    · rw [Function.iterate_succ_apply']
      exact (hgoing j hlt).2
    · have hquiet := quiet_of_done hstop
      have hafter : (next env cfg ((next env cfg)^[k] (0, s))).2.ledger =
          ((next env cfg)^[k] (0, s)).2.ledger := (round_of_quiet hquiet).2
      exact hlast.of_ledger ((ledger_of_quiet hquiet (Nat.le_succ_of_le hle)).trans hafter.symm)
  · rintro ⟨hends, hcharted⟩
    obtain ⟨k, hk, hgoing⟩ := hends.first
    have hnext : ∀ j, Charted env cfg (next env cfg ((next env cfg)^[j] (0, s))).2 := fun j =>
      Function.iterate_succ_apply' (next env cfg) j (0, s) ▸ hcharted j
    exact ⟨k, fun h => hk h.1, fun i hi => ⟨hgoing i hi, hnext i⟩, hnext k⟩

theorem ends_iff (s : State V) : Ends (Again env cfg) (next env cfg) (0, s) ↔
    ∃ k, ∀ j ≥ k, RoundProgresses env cfg ((next env cfg)^[j] (0, s)) := by
  constructor
  · rintro ⟨k, hk⟩
    have hquiet := quiet_of_done hk
    exact ⟨k, fun j hj => (round_of_quiet (hquiet.of_ledger (ledger_of_quiet hquiet hj))).1⟩
  · rintro ⟨k, hk⟩
    refine Ends.of_iterate (k := k) ?_
    refine ends_of_wellFounded Multiset.wellFounded_isDershowitzMannaLT
      (fun t => overLimit cfg.limit t.2) fun i hi => .inr ?_
    have hprogresses : RoundProgresses env cfg
      ((next env cfg)^[i] ((next env cfg)^[k] (0, s))) := by
      rw [← Function.iterate_add_apply]
      exact hk _ (Nat.le_add_left k i)
    have hagain := hi i (Nat.le_refl i)
    rw [Function.iterate_succ_apply']
    generalize (next env cfg)^[i] ((next env cfg)^[k] (0, s)) = t at hprogresses hagain
    have hsizes : overLimit cfg.limit (next env cfg t).2 =
        overLimit cfg.limit (visitAll env cfg (cfg.order t.1 t.2.index.num) t.2).2 := by
      rw [overLimit, overLimit, sizes_of_ledger (next_ledger t)]
    rw [hsizes]
    refine (visitAll_overLimit hprogresses).resolve_left fun heq => ?_
    have hdone : (visitAll env cfg (cfg.order t.1 t.2.index.num) t.2).1 = false := hagain
    rw [heq] at hdone
    cases hdone

theorem split_single (hone : ∀ t live, ∃ order, env.kmeans t live = .one order)
    (beyond : Nat → Nat → Entry V) (headID : Nat) (s : State V) :
    (split env beyond headID s).2.records = s.records ∧
      (sizes (split env beyond headID s).2 = sizes s ∨
        sizes (split env beyond headID s).2 = (sizes s).set headID (cutSize env)) := by
  by_cases hc : s.index.containSample headID = true
  · have hbooks : (fetchPosting env headID 3 s).2.books = s.books :=
      fetchPosting_keeps_books headID 3 s
    rcases hfetch : fetchPosting env headID 3 s with ⟨r, s₁⟩
    rw [hfetch] at hbooks
    have hledger : s₁.ledger = s.ledger := congrArg Prod.fst hbooks
    have hsizes₁ : sizes s₁ = sizes s := sizes_of_ledger hledger
    have hrecords₁ : s₁.records = s.records := congrArg Ledger.records hledger
    cases r with
    | error ret =>
      have hrun : split env beyond headID s = (ret, s₁) := by
        rw [split, get_bind_apply, if_neg (by simp [hc]), bind_eq_of_eq hfetch]
        rfl
      rw [hrun]
      exact ⟨hrecords₁, .inl hsizes₁⟩
    | ok p =>
      obtain ⟨order, hkmeans⟩ := hone s₁.tick (s₁.live p)
      have hcluster : kmeansClustering env (s₁.live p) s₁ =
        (.one order, (s₁.ticked 1).lapse .single) := by
        rw [kmeansClustering, hkmeans]
        rfl
      have hrun : split env beyond headID s = shrinkPosting env .splitCut headID
          (cutPosting env beyond order s₁.tick) ((s₁.ticked 1).lapse .single) :=
        (split_of_fetched hc hfetch beyond).trans (bind_eq_of_eq hcluster)
      rw [hrun]
      refine ⟨(shrinkPosting_keeps_records _ _ _ _).trans hrecords₁, ?_⟩
      rw [shrinkPosting_sizes, length_cutPosting, ← hsizes₁]
      split
      · exact .inl rfl
      · exact .inr rfl
  · rw [split, get_bind_apply, if_pos (by simp [hc])]
    exact ⟨rfl, .inl rfl⟩

structure Stuck (env : Env V D) (cfg : Setting V) (s : State V) : Prop where
  notQuiet : ¬ Quiet cfg.limit s
  charted : Charted env cfg s

omit [LinearOrder D] in
theorem Stuck.of_sizes {s' : State V} (h : Stuck env cfg s) (hsizes : sizes s' = sizes s)
    (hrecords : s'.records = s.records) : Stuck env cfg s' := by
  refine ⟨?_, ?_, ?_⟩
  · rw [Quiet, hsizes]
    exact h.notQuiet
  · rw [hsizes, hrecords]
    exact h.charted.rows
  · rw [hsizes]
    exact h.charted.fits

theorem Stuck.split (hone : ∀ t live, ∃ order, env.kmeans t live = .one order)
    (hlimit : cfg.limit ≤ cutSize env) (hcut : Fits env cfg (cutSize env)) (h : Stuck env cfg s)
    (headID : Nat) : Stuck env cfg (split env cfg.beyond headID s).2 := by
  obtain ⟨hrecords, hsame | hset⟩ := split_single hone cfg.beyond headID s
  · exact h.of_sizes hsame hrecords
  · by_cases hh : headID < (sizes s).length
    · refine ⟨fun hall => ?_, ?_, ?_⟩
      · rw [Quiet, hset] at hall
        exact hall _ (List.mem_set hh _) hlimit
      · rw [hset, List.length_set, hrecords]
        exact h.charted.rows
      · rw [hset]
        intro n hn
        rcases List.mem_or_eq_of_mem_set hn with hn | rfl
        · exact h.charted.fits n hn
        · exact hcut
    · exact h.of_sizes (hset.trans (List.set_eq_of_length_le (Nat.not_lt.mp hh))) hrecords

theorem Stuck.visitAll (hone : ∀ t live, ∃ order, env.kmeans t live = .one order)
    (hlimit : cfg.limit ≤ cutSize env) (hcut : Fits env cfg (cutSize env)) (h : Stuck env cfg s)
    (heads : List Nat) : Stuck env cfg (visitAll env cfg heads s).2 := by
  induction heads generalizing s with
  | nil => exact h
  | cons headID heads ih =>
    by_cases hhead : cfg.limit ≤ s.postingSizes headID
    · rw [visitAll_of_over hhead]
      exact ih (h.split hone hlimit hcut headID)
    · rw [visitAll_of_below hhead]
      exact ih h

/-- With `m_oneClusterCutMax` and a limit of at most `m_postingSizeLimit`, a posting over the
limit is cut to one that is over it again. -/
theorem goes_of_single (hone : ∀ t live, ∃ order, env.kmeans t live = .one order)
    (hlimit : cfg.limit ≤ cutSize env) (hcut : Fits env cfg (cutSize env)) (h : Stuck env cfg s)
    (j : Nat) : Goes env cfg ((next env cfg)^[j] (0, s)) := by
  have hnext : ∀ t : Turn V, Stuck env cfg t.2 → Stuck env cfg (next env cfg t).2 := fun t ht =>
    (ht.visitAll hone hlimit hcut _).of_sizes (sizes_of_ledger (next_ledger t))
      (congrArg Ledger.records (next_ledger t))
  have hstuck : Stuck env cfg ((next env cfg)^[j] (0, s)).2 := by
    induction j with
    | zero => exact h
    | succ j ih =>
      rw [Function.iterate_succ_apply']
      exact hnext _ ih
  exact ⟨not_not.mp fun hagain => hstuck.notQuiet (quiet_of_done hagain), (hnext _ hstuck).charted⟩

theorem not_returns_of_goes (h : ∀ j, Goes env cfg ((next env cfg)^[j] (0, s))) :
    ¬ Returns env cfg s := by
  rw [returns_iff_ends]
  rintro ⟨⟨k, hk⟩, -⟩
  exact hk (h k).1

end Loop

def cutMax : Env Unit Nat := .plain { plainOptions with oneClusterCutMax := true } ⟨0, true⟩

def inTurn : Setting Unit where
  limit := 1
  vectorInfoSize := 5
  postingPageLimit := 1
  order _ num := List.range num
  order_perm _ _ := .refl _
  beyond _ _ := ⟨0, 0, ()⟩

def equalVectors : State Unit :=
  { State.start ⟨1, fun _ => (), fun _ => false⟩ (.ofLabels [0, 0, 0] 0 8) fun _ => none with
    db := fun _ => some [⟨0, 0, ()⟩, ⟨1, 0, ()⟩, ⟨2, 0, ()⟩]
    postingSizes := fun _ => 3 }

end PreReassign

end Sptag.SPANN.Dynamic
