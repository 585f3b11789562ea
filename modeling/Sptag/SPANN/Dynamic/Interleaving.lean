import Sptag.Lib.Run
import Sptag.SPANN.Dynamic.Refine

/-! Jobs of several threads on the postings. A step is one critical section under
`m_rwLocks`; a merge holds the lock of its head through several of them and takes that of a
neighbour only after it has read the size of its posting. -/

namespace Sptag.SPANN.Dynamic

open COMMON Lib

variable {V D : Type} [LinearOrder D] (env : Env V D)

inductive Store
  | blockFile
  | rocksDB
  | tiKV

omit [LinearOrder D] in
def Store.merge (headID : Nat) (entries : Posting V) : Store → Upd V Bool
  | .blockFile => dbMerge env .appendMerge headID entries
  | .rocksDB => do
    let ok ← call env .appendMerge fun _ => true
    whenever ok (modify fun s => s.setPosting headID (some ((s.db headID).getD [] ++ entries)))
    return ok
  | .tiKV => do
    let existing ← dbGet env .appendMerge headID
    dbPut env .appendMerge headID (existing.getD [] ++ entries)

def appendLocked (db : Store) (headID : Nat) (entries : Posting V) : Upd V ErrorCode := do
  let s ← get
  if !s.index.containSample headID then do
    headMiss headID entries
    pure .success
  else if env.opt.postingSizeLimit + env.opt.bufferSizeLimit <
      s.postingSizes headID + entries.length then do
    discard (split env headID (!env.opt.disableReassign))
    pure .success
  else if !(← db.merge env headID entries) then pure .fail
  else do
    modify fun s => s.setRecord headID (s.postingSizes headID + entries.length)
      (Checksum.appendChecksum (s.checkSums headID) (env.bytesOf entries))
    pure .success

/-- The local variables of `MergePostings`: `posting` is `currentPostingList`, `merged` the
entries of it that were live when they were read, `next` a neighbour whose size was small
enough when it was read and whose lock is not taken yet. -/
structure Merging (V : Type) where
  headID : Nat
  reassign : Bool
  posting : Posting V
  merged : Posting V
  results : List Nat
  next : Option Nat

def beginMerge (headID : Nat) (reassign : Bool) : Upd V (Option (Merging V)) := do
  let s ← get
  if s.mergeLock then do
    modify (·.addJob (.merge headID reassign))
    pure none
  else if !s.index.containSample headID then pure none
  else do
    modify (·.setLock true)
    match ← readPosting env .mergeGet headID with
    | .error _ => do
      modify (·.setLock false)
      pure none
    | .ok p => do
      let s ← get
      if env.opt.mergeThreshold < (s.live p).length then
        match ← writePosting env .mergeBack headID (s.live p) with
        | .success => do
          modify fun s => (s.eraseMerge headID).setLock false
          pure none
        | _ => do
          modify (·.setLock false)
          pure none
      else do
        let results ← searchIndex env env.opt.internalResultNum (s.index.sample headID)
        pure (some ⟨headID, reassign, p, s.live p, results.drop 1, none⟩)

namespace Merging

variable (g : Merging V)

def mergedPosting (s : State V) (q : Posting V) : Posting V :=
  g.merged ++ (s.live q).filter fun e => e.vid ∉ g.merged.map Entry.vid

def commit (next : Nat) (q : Posting V) : Upd V ErrorCode := do
  let s ← get
  let merged := g.mergedPosting s q
  let currentLength := g.merged.length
  let nextLength := (s.live q).length
  let keepsHead := decide (nextLength < currentLength)
  let survivor := if keepsHead then g.headID else next
  let retired := if keepsHead then next else g.headID
  modify (·.deleteHead retired)
  if !(← dbPut env .mergePut survivor merged) then do
    modify (·.setLock false)
    pure .fail
  else do
    let full := (merged.length, env.calcChecksum merged)
    let (nextRecord, headRecord) := if keepsHead then ((0, 0), full) else (full, (0, 0))
    modify fun s =>
      (s.setRecord next nextRecord.1 nextRecord.2).setRecord g.headID headRecord.1 headRecord.2
    if !(← dbDelete env .mergeDelete retired) then do
      modify (·.setLock false)
      pure .fail
    else do
      modify (·.setLock false)
      whenever g.reassign
        (reassignAbsorbed env survivor retired (if keepsHead then nextLength else currentLength)
          (if keepsHead then q else g.posting))
      modify (·.eraseMerge g.headID)
      pure .success

def putBack : Upd V ErrorCode := do
  match ← writePosting env .mergeKeep g.headID g.merged with
  | .success => do
    modify fun s => (s.eraseMerge g.headID).setLock false
    pure .success
  | ret => pure ret

def look (next : Nat) (results : List Nat) : Upd V (Option (Merging V)) := do
  let s ← get
  if g.merged.length + s.postingSizes next < env.opt.postingSizeLimit ∧ next ∉ s.mergeList then
    pure (some { g with results := results, next := some next })
  else pure (some { g with results := results, next := none })

def tryNext (next : Nat) : Upd V (Option (Merging V)) := do
  let s ← get
  if !s.index.containSample next then pure (some { g with next := none })
  else match ← readPosting env .mergeNextGet next with
    | .error _ => do
      modify (·.setLock false)
      pure none
    | .ok q => do
      discard (g.commit env next q)
      pure none

def move : Upd V (Option (Merging V)) :=
  match g.next, g.results with
  | none, [] => do
    discard (g.putBack env)
    pure none
  | none, next :: results => g.look env next results
  | some next, _ => g.tryNext env next

end Merging

structure Machine (V : Type) where
  base : State V
  merging : Option (Merging V)

/-- Whose section comes next. `Reassign` runs as a change of the version and appends; the
versions change without a lock, so between any two sections. -/
inductive Move (V : Type)
  | append (headID : Nat) (entries : Posting V)
  | split (headID : Nat) (reassign : Bool)
  | mergePostings (headID : Nat) (reassign : Bool)
  | merging
  | versions (versionMap : VersionLabel)

namespace Machine

variable (hash : Nat → Nat) (db : Store) (m : Machine V)

def blocked (headID : Nat) : Bool := m.merging.any fun g => hash g.headID == hash headID

def step : Move V → Machine V
  | .append headID entries =>
    if m.blocked hash headID then m
    else { m with base := (appendLocked env db headID entries m.base).2 }
  | .split headID reassign =>
    if m.blocked hash headID then m
    else { m with base := (split env headID reassign m.base).2 }
  | .mergePostings headID reassign =>
    let r := beginMerge env headID reassign m.base
    ⟨r.2, r.1 <|> m.merging⟩
  | .merging =>
    match m.merging with
    | none => m
    | some g =>
      let r := g.move env m.base
      ⟨r.2, r.1⟩
  | .versions versionMap => { m with base := { m.base with versionMap := versionMap } }

end Machine

section Alone

variable {env} {hash : Nat → Nat} {db : Store} {s : State V}

theorem Merging.commit_alone {g : Merging V} (hlive : s.live g.posting = g.merged) (next : Nat)
    (q : Posting V) :
    mergeWith env g.headID g.reassign g.posting next q s = g.commit env next q s := by
  have hmerged : mergeLive s g.posting q = g.mergedPosting s q := by
    rw [mergeLive, Merging.mergedPosting, hlive]
  rw [mergeWith, Merging.commit, get_bind_apply, get_bind_apply, hmerged, hlive]

theorem live_of_names {s' : State V} (h : s'.names = s.names) (p : Posting V) :
    s'.live p = s.live p := by
  have hversions : s'.versionMap = s.versionMap := congrArg (·.2.1) h
  unfold State.live State.current
  rw [hversions]

omit [LinearOrder D] in
theorem searchIndex_keeps_names (n : Nat) (q : V) : Keeps State.names (searchIndex env n q) := by
  intro s
  unfold searchIndex
  split <;> rfl

omit [LinearOrder D] in
theorem readPosting_keeps_names (site : Site) (h : Nat) :
    Keeps State.names (readPosting env site h) := by
  refine (dbGet_keeps_names site h).bind fun r => ?_
  cases r with
  | none => exact .pure _
  | some p => exact .get_bind fun _ => .pure _

namespace Merging

variable {g : Merging V} {next : Nat} {results : List Nat}

omit [LinearOrder D] in
theorem look_eq : look env g next results s =
    (some { g with
      results := results
      next :=
        if g.merged.length + s.postingSizes next < env.opt.postingSizeLimit ∧ next ∉ s.mergeList
        then some next else none }, s) := by
  rw [look, get_bind_apply]
  split <;> rfl

theorem tryNext_gone (hgone : ¬ s.index.containSample next = true) :
    tryNext env g next s = (some { g with next := none }, s) := by
  rw [tryNext, get_bind_apply, if_pos (by simpa using hgone)]
  rfl

theorem tryNext_alone (hlive : s.live g.posting = g.merged)
    (hcontain : s.index.containSample next = true)
    (hfits : g.merged.length + s.postingSizes next < env.opt.postingSizeLimit)
    (hfree : next ∉ s.mergeList) :
    tryNext env g next s =
      (none, (mergeNext env g.headID g.reassign g.posting g.merged (next :: results) s).2) := by
  rw [tryNext, mergeNext, get_bind_apply, get_bind_apply, if_neg (by simpa using hcontain),
    if_pos ⟨hfits, hfree, hcontain⟩]
  have hnames := @readPosting_keeps_names _ _ env .mergeNextGet next s
  obtain ⟨r, s', hread⟩ : ∃ r s', readPosting env .mergeNextGet next s = (r, s') := ⟨_, _, rfl⟩
  rw [bind_eq_of_eq hread, bind_eq_of_eq hread]
  cases r with
  | error ret => rfl
  | ok q =>
    rw [hread] at hnames
    have hlive' : s'.live g.posting = g.merged := (live_of_names hnames g.posting).trans hlive
    exact congrArg (fun r : ErrorCode × State V => (none, r.2)) (commit_alone hlive' next q).symm

end Merging

theorem mergeNext_eq_moves (g : Merging V) (results : List Nat)
    (hlive : s.live g.posting = g.merged) :
    ∃ n, run (Machine.step env hash db) ⟨s, some { g with results := results, next := none }⟩
        (List.replicate n .merging) =
      ⟨(mergeNext env g.headID g.reassign g.posting g.merged results s).2, none⟩ := by
  have hlook : ∀ next results, Machine.step env hash db
      ⟨s, some { g with results := next :: results, next := none }⟩ .merging =
      ⟨(g.look env next results s).2, (g.look env next results s).1⟩ := fun _ _ => rfl
  have htry : ∀ next results, Machine.step env hash db
      ⟨s, some { g with results := results, next := some next }⟩ .merging =
      ⟨(Merging.tryNext env { g with results := results, next := some next } next s).2,
        (Merging.tryNext env { g with results := results, next := some next } next s).1⟩ :=
    fun _ _ => rfl
  induction results with
  | nil => exact ⟨1, rfl⟩
  | cons next results ih =>
    obtain ⟨n, hn⟩ := ih
    by_cases hfits : g.merged.length + s.postingSizes next < env.opt.postingSizeLimit ∧
        next ∉ s.mergeList
    · by_cases hcontain : s.index.containSample next = true
      · refine ⟨2, ?_⟩
        rw [List.replicate_succ, List.replicate_one, run_cons, run_cons, run_nil, hlook,
          Merging.look_eq, if_pos hfits, htry]
        exact congrArg (fun r => (⟨r.2, r.1⟩ : Machine V)) (Merging.tryNext_alone
          (g := { g with results := results, next := some next }) hlive hcontain hfits.1 hfits.2)
      · refine ⟨n + 2, ?_⟩
        rw [List.replicate_succ, List.replicate_succ, run_cons, run_cons, hlook,
          Merging.look_eq, if_pos hfits, htry, Merging.tryNext_gone hcontain, hn, mergeNext,
          get_bind_apply, if_neg fun h => hcontain h.2.2]
    · refine ⟨n + 1, ?_⟩
      rw [List.replicate_succ, run_cons, hlook, Merging.look_eq, if_neg hfits, hn, mergeNext,
        get_bind_apply, if_neg fun h => hfits ⟨h.1, h.2.1⟩]

theorem mergePostings_eq_begin (env : Env V D) (s : State V) (headID : Nat) (reassign : Bool) :
    (∃ s', beginMerge env headID reassign s = (none, s') ∧
      (mergePostings env headID reassign s).2 = s') ∨
    ∃ g s', beginMerge env headID reassign s = (some g, s') ∧ g.next = none ∧
      s'.live g.posting = g.merged ∧ (mergePostings env headID reassign s).2 =
        (mergeNext env g.headID g.reassign g.posting g.merged g.results s').2 := by
  rw [beginMerge, mergePostings, get_bind_apply, get_bind_apply]
  by_cases hlock : s.mergeLock = true
  · rw [if_pos hlock, if_pos hlock]
    exact .inl ⟨_, rfl, rfl⟩
  by_cases hgone : (!s.index.containSample headID) = true
  · rw [if_neg hlock, if_neg hlock, if_pos hgone, if_pos hgone]
    exact .inl ⟨_, rfl, rfl⟩
  rw [if_neg hlock, if_neg hlock, if_neg hgone, if_neg hgone, modify_bind_apply, modify_bind_apply]
  obtain ⟨r, s₁, hread⟩ : ∃ r s₁, readPosting env .mergeGet headID (s.setLock true) = (r, s₁) :=
    ⟨_, _, rfl⟩
  rw [bind_eq_of_eq hread, bind_eq_of_eq hread]
  cases r with
  | error ret => exact .inl ⟨_, rfl, rfl⟩
  | ok p =>
    dsimp only
    rw [get_bind_apply, get_bind_apply]
    by_cases hbig : env.opt.mergeThreshold < (s₁.live p).length
    · rw [if_pos hbig, if_pos hbig]
      obtain ⟨ret, s₂, hwrite⟩ :
          ∃ ret s₂, writePosting env .mergeBack headID (s₁.live p) s₁ = (ret, s₂) := ⟨_, _, rfl⟩
      rw [bind_eq_of_eq hwrite, bind_eq_of_eq hwrite]
      cases ret <;> exact .inl ⟨_, rfl, rfl⟩
    · rw [if_neg hbig, if_neg hbig]
      obtain ⟨results, s₂, hsearch⟩ : ∃ results s₂, searchIndex env env.opt.internalResultNum
          (s₁.index.sample headID) s₁ = (results, s₂) := ⟨_, _, rfl⟩
      have hlive : s₂.live p = s₁.live p := by
        have hnames := @searchIndex_keeps_names _ _ env env.opt.internalResultNum
          (s₁.index.sample headID) s₁
        rw [hsearch] at hnames
        exact live_of_names hnames p
      rw [bind_eq_of_eq hsearch, bind_eq_of_eq hsearch]
      exact .inr ⟨_, _, rfl, rfl, hlive, rfl⟩

theorem mergePostings_eq_moves (headID : Nat) (reassign : Bool) :
    ∃ n, run (Machine.step env hash db) ⟨s, none⟩
        (.mergePostings headID reassign :: List.replicate n .merging) =
      ⟨(mergePostings env headID reassign s).2, none⟩ := by
  have hbegin : ∀ r s', beginMerge env headID reassign s = (r, s') →
      Machine.step env hash db ⟨s, none⟩ (.mergePostings headID reassign) = ⟨s', r⟩ := by
    intro r s' h
    show (⟨(beginMerge env headID reassign s).2, (beginMerge env headID reassign s).1 <|> none⟩ :
      Machine V) = _
    rw [h]
    cases r <;> rfl
  rcases mergePostings_eq_begin env s headID reassign with ⟨s', h, hs'⟩ |
    ⟨g, s', h, hnext, hlive, hs'⟩
  · exact ⟨0, (hbegin _ _ h).trans (by rw [hs'])⟩
  · obtain ⟨n, hn⟩ := @mergeNext_eq_moves _ _ _ env hash db s' g g.results hlive
    refine ⟨n, ?_⟩
    rw [run_cons, hbegin _ _ h, hs', ← hn, ← hnext]

end Alone

end Sptag.SPANN.Dynamic
