import Sptag.SPANN.Dynamic.State

/-! What the jobs `Split` and `MergePostings` leave in the lists of queued heads and in the
locks, whatever the calls they make are answered with. -/

namespace Sptag.SPANN.Dynamic.Residue

open Lib

variable {V : Type}

/-- `m_splitList`, `m_mergeList`, `m_mergeLock`, the entries of `m_rwLocks` that the thread
holds, and the jobs of `m_splitThreadPool`. -/
structure Books (V : Type) where
  splitList : List Nat
  mergeList : List Nat
  mergeLock : Bool
  rwLocks : List Nat
  jobs : List (Job V)

namespace Books

variable (b : Books V)

def eraseSplit (headID : Nat) : Books V :=
  { b with splitList := b.splitList.filter (· ≠ headID) }

def eraseMerge (headID : Nat) : Books V :=
  { b with mergeList := b.mergeList.filter (· ≠ headID) }

def setLock (locked : Bool) : Books V := { b with mergeLock := locked }

def addJob (j : Job V) : Books V := { b with jobs := b.jobs ++ [j] }

def addReassigns (entries : List (Entry V × Int)) : Books V :=
  { b with jobs := b.jobs ++ entries.map fun e => .reassign e.1 e.2 }

def takeLock (slot : Nat) : Books V := { b with rwLocks := slot :: b.rwLocks }

def releaseLock (slot : Nat) : Books V := { b with rwLocks := b.rwLocks.erase slot }

end Books

abbrev Task (V : Type) := StateM (Books V)

/-- What the calls of a job are answered with: `containSample` and `get` by the attempt they
are made in, `memoryOverFlow` by the new head, and the entries that are sent to `Reassign`
after a split of a head and after a merge of two. -/
structure Calls (V : Type) where
  opt : Options
  consistencyCheck : Bool
  hash : Nat → Nat
  containSample : Nat → Nat → Bool
  get : Nat → Nat → ErrorCode × Posting V
  validate : Nat → Posting V → Bool
  count : Nat → Nat
  current : Entry V → Bool
  kmeans : Posting V → Clustering V
  isSameHead : Nat → Cluster V → Bool
  addIndexId : Cluster V → Nat
  put : Nat → Posting V → ErrorCode
  check : Nat → Nat → ErrorCode
  delete : Nat → ErrorCode
  memoryOverFlow : Nat → Bool
  search : Nat → List Nat
  postingSize : Nat → Nat
  collectReAssign : Nat → List (Entry V × Int)
  reassignMerged : Nat → Nat → List (Entry V × Int)

/-- A scope that holds an entry of `m_rwLocks`, if it is given one; the lock object releases
it on every way out of the scope. -/
def holding {A : Type} (slot : Option Nat) (body : Task V A) : Task V A :=
  match slot with
  | none => body
  | some slot => do
    modify (·.takeLock slot)
    let r ← body
    modify (·.releaseLock slot)
    pure r

variable (c : Calls V)

namespace Calls

def live (p : Posting V) : Posting V := p.filter c.current

def read (attempt headID : Nat) : Except ErrorCode (Posting V) :=
  match c.get attempt headID with
  | (.success, p) => if c.validate headID p then .ok p else .error .success
  | (ret, _) => .error ret

def write (headID : Nat) (p : Posting V) : ErrorCode :=
  match c.put headID p with
  | .success => if c.consistencyCheck then c.check headID p.length else .success
  | ret => ret

def known (attempt : Nat) (p : Posting V) : Bool :=
  p.all fun e => 0 ≤ e.vid && e.vid < c.count attempt

/-- From the label `Retry` on: the posting, or `none` when one of its ids is not in the version
map. -/
def readKnown (headID attempt : Nat) : Except ErrorCode (Option (Posting V)) :=
  if !c.containSample attempt headID then .error .success
  else
    match c.read attempt headID with
    | .error ret => .error ret
    | .ok p => .ok (if c.known attempt p then some p else none)

def fetch (headID : Nat) : Nat → Nat → Except ErrorCode (Posting V)
  | 0, attempt =>
    match c.readKnown headID attempt with
    | .error ret => .error ret
    | .ok none => .error .diskIOFail
    | .ok (some p) => .ok p
  | retries + 1, attempt =>
    match c.readKnown headID attempt with
    | .error ret => .error ret
    | .ok none => fetch headID retries (attempt + 1)
    | .ok (some p) => .ok p

/-- One round of the loop over the two clusters: the head of the cluster and whether the
split head has been kept by now. -/
def place (headID : Nat) (theSameHead : Bool) (cluster : Cluster V) :
    Except ErrorCode (Nat × Bool) :=
  if !theSameHead && c.isSameHead headID cluster then
    match c.write headID cluster.posting with
    | .success => .ok (headID, true)
    | ret => .error ret
  else
    let begin := c.addIndexId cluster
    match c.put begin cluster.posting with
    | .success =>
      if c.memoryOverFlow begin then .error .memoryOverFlow
      else
        match if c.consistencyCheck then c.check begin cluster.posting.length else .success with
        | .success => .ok (begin, theSameHead)
        | ret => .error ret
    | ret => .error ret

def splitTwo (headID : Nat) (c₀ c₁ : Cluster V) : Except ErrorCode (Nat × Nat) :=
  match c.place headID false c₀ with
  | .error ret => .error ret
  | .ok (head₀, same₀) =>
    match c.place headID same₀ c₁ with
    | .error ret => .error ret
    | .ok (head₁, same) =>
      match if same then .success else c.delete headID with
      | .success => .ok (head₀, head₁)
      | ret => .error ret

end Calls

def shrinkPosting {A : Type} (headID : Nat) (p : Posting V) : Task V (Except ErrorCode A) := do
  match c.write headID p with
  | .success => do
    modify (·.eraseSplit headID)
    pure (.error .success)
  | ret => pure (.error ret)

/-- The part of `Split` under the lock of its head. A result `.error ret` returns `ret` from
the function. -/
def splitLocked (headID : Nat) : Task V (Except ErrorCode (Nat × Nat)) :=
  match c.fetch headID 3 0 with
  | .error ret => pure (.error ret)
  | .ok p =>
    if (c.live p).length < c.opt.postingSizeLimit then shrinkPosting c headID (c.live p)
    else
      match c.kmeans (c.live p) with
      | .one order =>
        shrinkPosting c headID
          (order.take (if c.opt.oneClusterCutMax then c.opt.postingSizeLimit else 1))
      | .two c₀ c₁ => pure (c.splitTwo headID c₀ c₁)

def split (headID : Nat) (reassign requirelock : Bool) : Task V ErrorCode := do
  match ← holding (if requirelock then some (c.hash headID) else none) (splitLocked c headID) with
  | .error ret => pure ret
  | .ok _ => do
    modify (·.eraseSplit headID)
    whenever reassign (modify (·.addReassigns (c.collectReAssign headID)))
    pure .success

namespace Calls

def merged (p q : Posting V) : Posting V :=
  c.live p ++ (c.live q).filter fun e => e.vid ∉ (c.live p).map Entry.vid

def survivor (headID next : Nat) (p q : Posting V) : Nat × Nat :=
  if (c.live q).length < (c.live p).length then (headID, next) else (next, headID)

end Calls

def mergeWith (headID : Nat) (p : Posting V) (next : Nat) :
    Task V (Option (Except ErrorCode Nat)) := do
  if !c.containSample 0 next then pure none
  else
    match c.read 0 next with
    | .error ret => do
      modify (·.setLock false)
      pure (some (.error ret))
    | .ok q =>
      let (survivor, retired) := c.survivor headID next p q
      match c.write survivor (c.merged p q) with
      | .success =>
        match c.delete retired with
        | .success => pure (some (.ok next))
        | ret => do
          modify (·.setLock false)
          pure (some (.error ret))
      | ret => do
        modify (·.setLock false)
        pure (some (.error ret))

/-- The loop over the neighbours. Without a partner the posting is put back; where that write
fails, the function returns with `m_mergeLock` taken. -/
def mergeNext (headID : Nat) (p : Posting V) : List Nat → Task V (Except ErrorCode Nat)
  | [] =>
    match c.write headID (c.live p) with
    | .success => do
      modify fun b => (b.eraseMerge headID).setLock false
      pure (.error .success)
    | ret => pure (.error ret)
  | next :: results => do
    let b ← get
    if (c.live p).length + c.postingSize next < c.opt.postingSizeLimit ∧ next ∉ b.mergeList then
      match ← holding (if c.hash next = c.hash headID then none else some (c.hash next))
          (mergeWith c headID p next) with
      | none => mergeNext headID p results
      | some r => pure r
    else mergeNext headID p results

def mergeLocked (headID : Nat) : Task V (Except ErrorCode Nat) := do
  if !c.containSample 0 headID then do
    modify (·.setLock false)
    pure (.error .success)
  else
    match c.read 0 headID with
    | .error ret => do
      modify (·.setLock false)
      pure (.error ret)
    | .ok p =>
      if c.opt.mergeThreshold < (c.live p).length then
        match c.write headID (c.live p) with
        | .success => do
          modify fun b => (b.eraseMerge headID).setLock false
          pure (.error .success)
        | ret => do
          modify (·.setLock false)
          pure (.error ret)
      else mergeNext c headID p ((c.search headID).drop 1)

/-- A busy `m_mergeLock` queues the merge again, with `reassign` in the place of the job's
`disableReassign`. -/
def mergePostings (headID : Nat) (reassign : Bool) : Task V ErrorCode := do
  let b ← get
  if b.mergeLock then do
    modify (·.addJob (.merge headID reassign))
    pure .success
  else do
    modify (·.setLock true)
    match ← holding (some (c.hash headID)) (mergeLocked c headID) with
    | .error ret => pure ret
    | .ok next => do
      modify (·.setLock false)
      whenever reassign (modify (·.addReassigns (c.reassignMerged headID next)))
      modify (·.eraseMerge headID)
      pure .success

def mergeAsync (headID : Nat) (disableReassign : Bool) : Task V PUnit := modify fun b =>
  if headID ∈ b.mergeList then b
  else { b with mergeList := headID :: b.mergeList }.addJob (.merge headID disableReassign)

def Books.SplitQueued (b : Books V) (headID : Nat) : Prop := ∃ d, Job.split headID d ∈ b.jobs

def Books.MergeQueued (b : Books V) (headID : Nat) : Prop := ∃ d, Job.merge headID d ∈ b.jobs

/-- After a `Split` the head is not listed unless a job for it is queued, and no lock is taken
that was free. -/
def SplitLeaves (headID : Nat) (b b' : Books V) : Prop :=
  (headID ∈ b'.splitList → b'.SplitQueued headID) ∧
    b'.mergeLock = b.mergeLock ∧ b'.rwLocks = b.rwLocks

def MergeLeaves (headID : Nat) (b b' : Books V) : Prop :=
  (headID ∈ b'.mergeList → b'.MergeQueued headID) ∧
    b'.mergeLock = b.mergeLock ∧ b'.rwLocks = b.rwLocks

namespace Calls

def Reads (attempt headID : Nat) (p : Posting V) : Prop :=
  c.containSample attempt headID ∧ c.get attempt headID = (.success, p) ∧ c.validate headID p

def Writes (headID : Nat) (p : Posting V) : Prop :=
  c.put headID p = .success ∧ (c.consistencyCheck → c.check headID p.length = .success)

/-- One of the attempts up to `last` reads a posting whose ids are all in the version map, and
those before it read postings too. -/
def Fetches (headID first last : Nat) (p : Posting V) : Prop :=
  ∃ n, first ≤ n ∧ n ≤ last ∧ c.Reads n headID p ∧ c.known n p ∧
    ∀ i, first ≤ i → i < n → ∃ q, c.Reads i headID q ∧ ¬ c.known i q

def Places (headID : Nat) (theSameHead : Bool) (cluster : Cluster V) : Prop :=
  if !theSameHead && c.isSameHead headID cluster then c.Writes headID cluster.posting
  else c.memoryOverFlow (c.addIndexId cluster) = false ∧
    c.Writes (c.addIndexId cluster) cluster.posting

def SplitCompletes (headID : Nat) : Prop :=
  ∃ p, c.Fetches headID 0 3 p ∧
    if (c.live p).length < c.opt.postingSizeLimit then c.Writes headID (c.live p)
    else
      match c.kmeans (c.live p) with
      | .one order =>
        c.Writes headID
          (order.take (if c.opt.oneClusterCutMax then c.opt.postingSizeLimit else 1))
      | .two c₀ c₁ =>
        c.Places headID false c₀ ∧ c.Places headID (c.isSameHead headID c₀) c₁ ∧
          (c.isSameHead headID c₀ ∨ c.isSameHead headID c₁ ∨ c.delete headID = .success)

def isPartner (b : Books V) (p : Posting V) (next : Nat) : Bool :=
  (c.live p).length + c.postingSize next < c.opt.postingSizeLimit ∧ next ∉ b.mergeList ∧
    c.containSample 0 next

def partner (b : Books V) (headID : Nat) (p : Posting V) : Option Nat :=
  ((c.search headID).drop 1).find? (c.isPartner b p)

def Absorbs (headID : Nat) (p : Posting V) (next : Nat) : Prop :=
  ∃ q, c.Reads 0 next q ∧ c.Writes (c.survivor headID next p q).1 (c.merged p q) ∧
    c.delete (c.survivor headID next p q).2 = .success

def MergeCompletes (b : Books V) (headID : Nat) : Prop :=
  ∃ p, c.Reads 0 headID p ∧
    if c.opt.mergeThreshold < (c.live p).length then c.Writes headID (c.live p)
    else
      match c.partner b headID p with
      | none => c.Writes headID (c.live p)
      | some next => c.Absorbs headID p next

/-- A short posting has no partner, and cannot be put back. -/
def PutBackFails (b : Books V) (headID : Nat) : Prop :=
  ∃ p, c.Reads 0 headID p ∧ (c.live p).length ≤ c.opt.mergeThreshold ∧
    c.partner b headID p = none ∧ ¬ c.Writes headID (c.live p)

variable {c} {headID attempt : Nat} {p : Posting V}

theorem read_eq_ok_iff (h : c.containSample attempt headID = true) :
    c.read attempt headID = .ok p ↔ c.Reads attempt headID p := by
  rw [read, Reads]
  rcases hget : c.get attempt headID with ⟨ret, q⟩
  cases ret with
  | success =>
    by_cases hvalid : c.validate headID q
    · simp only [hvalid, if_true, Except.ok.injEq, h, Prod.mk.injEq, true_and]
      constructor
      · rintro rfl
        exact ⟨rfl, hvalid⟩
      · rintro ⟨rfl, -⟩
        rfl
    · simp only [hvalid, Bool.false_eq_true, if_false, h, Prod.mk.injEq, true_and, reduceCtorEq,
        false_iff, not_and]
      rintro rfl
      exact hvalid
  | _ => simp

theorem Reads.inj {q : Posting V} (h : c.Reads attempt headID p) (h' : c.Reads attempt headID q) :
    p = q := congrArg Prod.snd (h.2.1.symm.trans h'.2.1)

theorem readKnown_cases (c : Calls V) (headID attempt : Nat) :
    (∃ p, c.Reads attempt headID p ∧ c.known attempt p ∧
      c.readKnown headID attempt = .ok (some p)) ∨
    (∃ p, c.Reads attempt headID p ∧ ¬ c.known attempt p ∧
      c.readKnown headID attempt = .ok none) ∨
    (∀ p, ¬ c.Reads attempt headID p) ∧ ∃ ret, c.readKnown headID attempt = .error ret := by
  rw [readKnown]
  cases hcontain : c.containSample attempt headID with
  | false => exact .inr (.inr ⟨fun p h => Bool.false_ne_true (hcontain ▸ h.1), .success, rfl⟩)
  | true =>
    cases hread : c.read attempt headID with
    | error ret =>
      refine .inr (.inr ⟨fun p h => ?_, ret, rfl⟩)
      rw [(read_eq_ok_iff hcontain).mpr h] at hread
      cases hread
    | ok p =>
      have hp := (read_eq_ok_iff hcontain).mp hread
      cases hknown : c.known attempt p with
      | false => exact .inr (.inl ⟨p, hp,
          by rw [hknown]; exact Bool.false_ne_true, by simp [hknown]⟩)
      | true => exact .inl ⟨p, hp, hknown, by simp [hknown]⟩

theorem write_eq_success_iff : c.write headID p = .success ↔ c.Writes headID p := by
  rw [write, Writes]
  cases c.put headID p with
  | success => cases c.consistencyCheck <;> simp
  | _ => simp

theorem fetches_self_iff : c.Fetches headID attempt attempt p ↔
    c.Reads attempt headID p ∧ c.known attempt p := by
  constructor
  · rintro ⟨n, hfirst, hlast, hreads, hknown, -⟩
    obtain rfl := Nat.le_antisymm hfirst hlast
    exact ⟨hreads, hknown⟩
  · rintro ⟨hreads, hknown⟩
    exact ⟨attempt, le_refl _, le_refl _, hreads, hknown, fun i hi hlt =>
      absurd hi (not_le.mpr hlt)⟩

theorem fetches_iff {last : Nat} (hlt : attempt < last) : c.Fetches headID attempt last p ↔
    c.Reads attempt headID p ∧ c.known attempt p ∨
      (∃ q, c.Reads attempt headID q ∧ ¬ c.known attempt q) ∧
        c.Fetches headID (attempt + 1) last p := by
  constructor
  · rintro ⟨n, hfirst, hlast, hreads, hknown, hbefore⟩
    rcases Nat.eq_or_lt_of_le hfirst with rfl | hfirst
    · exact .inl ⟨hreads, hknown⟩
    · exact .inr ⟨hbefore attempt (le_refl _) hfirst, n, hfirst, hlast, hreads, hknown,
        fun i hi => hbefore i (Nat.le_of_succ_le hi)⟩
  · rintro (⟨hreads, hknown⟩ | ⟨hattempt, n, hfirst, hlast, hreads, hknown, hbefore⟩)
    · exact ⟨attempt, le_refl _, hlt.le, hreads, hknown, fun i hi hi' => absurd hi (not_le.mpr hi')⟩
    · refine ⟨n, Nat.le_of_succ_le hfirst, hlast, hreads, hknown, fun i hi hi' => ?_⟩
      rcases Nat.eq_or_lt_of_le hi with rfl | hi
      · exact hattempt
      · exact hbefore i hi hi'

theorem fetch_eq_ok_iff {retries : Nat} :
    c.fetch headID retries attempt = .ok p ↔ c.Fetches headID attempt (attempt + retries) p := by
  induction retries generalizing attempt with
  | zero =>
    rw [Nat.add_zero, fetches_self_iff, fetch]
    obtain ⟨q, hq, hknown, hread⟩ | ⟨q, hq, hknown, hread⟩ | ⟨hnot, ret, hread⟩ :=
      c.readKnown_cases headID attempt
    · rw [hread]
      constructor
      · rintro ⟨⟩
        exact ⟨hq, hknown⟩
      · rintro ⟨hp, -⟩
        rw [hp.inj hq]
    · rw [hread]
      constructor
      · rintro ⟨⟩
      · rintro ⟨hp, hpknown⟩
        exact absurd (hp.inj hq ▸ hpknown) hknown
    · rw [hread]
      constructor
      · rintro ⟨⟩
      · rintro ⟨hp, -⟩
        exact absurd hp (hnot p)
  | succ retries ih =>
    rw [fetches_iff (Nat.lt_add_of_pos_right (Nat.succ_pos _)), fetch]
    obtain ⟨q, hq, hknown, hread⟩ | ⟨q, hq, hknown, hread⟩ | ⟨hnot, ret, hread⟩ :=
      c.readKnown_cases headID attempt
    · rw [hread]
      constructor
      · rintro ⟨⟩
        exact .inl ⟨hq, hknown⟩
      · rintro (⟨hp, -⟩ | ⟨⟨q', hq', hknown'⟩, -⟩)
        · rw [hp.inj hq]
        · exact absurd (hq'.inj hq ▸ hknown) hknown'
    · have hlast : attempt + 1 + retries = attempt + (retries + 1) := by omega
      rw [hread]
      constructor
      · intro hfetch
        exact .inr ⟨⟨q, hq, hknown⟩, hlast ▸ ih.mp hfetch⟩
      · rintro (⟨hp, hpknown⟩ | ⟨-, hfetch⟩)
        · exact absurd (hp.inj hq ▸ hpknown) hknown
        · exact ih.mpr (hlast ▸ hfetch)
    · rw [hread]
      constructor
      · rintro ⟨⟩
      · rintro (⟨hp, -⟩ | ⟨⟨q, hq, -⟩, -⟩)
        · exact absurd hp (hnot p)
        · exact absurd hq (hnot q)

theorem place_of_places {theSameHead : Bool} {cluster : Cluster V}
    (h : c.Places headID theSameHead cluster) : ∃ head,
      c.place headID theSameHead cluster =
        .ok (head, theSameHead || c.isSameHead headID cluster) := by
  rw [Places] at h
  rw [place]
  split at h
  · rename_i hsame
    have hor : (theSameHead || c.isSameHead headID cluster) = true := by
      rw [Bool.and_eq_true] at hsame
      rw [hsame.2, Bool.or_true]
    rw [if_pos hsame, write_eq_success_iff.mpr h, hor]
    exact ⟨headID, rfl⟩
  · rename_i hsame
    have hor : (theSameHead || c.isSameHead headID cluster) = theSameHead := by
      cases theSameHead <;> simp_all
    obtain ⟨hroom, hput, hcheck⟩ := h
    have hcheck' : (if c.consistencyCheck then c.check (c.addIndexId cluster) cluster.posting.length
        else .success) = ErrorCode.success := by
      split
      · exact hcheck ‹_›
      · rfl
    rw [if_neg hsame, hor]
    exact ⟨c.addIndexId cluster, by simp [hput, hroom, hcheck']⟩

theorem place_of_not_places {theSameHead : Bool} {cluster : Cluster V}
    (h : ¬ c.Places headID theSameHead cluster) :
    ∃ ret, c.place headID theSameHead cluster = .error ret := by
  rw [Places] at h
  rw [place]
  split at h
  · rename_i hsame
    rw [if_pos hsame]
    split
    · exact absurd (write_eq_success_iff.mp ‹_›) h
    · exact ⟨_, rfl⟩
  · rename_i hsame
    rw [if_neg hsame]
    dsimp only
    split
    · split
      · exact ⟨_, rfl⟩
      · split
        · rename_i hput hroom hcheck
          refine absurd ⟨by simpa using hput, ‹_›, fun hc => ?_⟩ h
          rwa [if_pos hc] at hcheck
        · exact ⟨_, rfl⟩
    · exact ⟨_, rfl⟩

end Calls

variable {c} {headID : Nat}

def Runs {A : Type} (m : Task V A) (b : Books V) (r : A) (b' : Books V) : Prop :=
  ∀ locks, m { b with rwLocks := locks } = (r, { b' with rwLocks := locks })

theorem Runs.bind {A B : Type} {m : Task V A} {f : A → Task V B} {b b' b'' : Books V}
    {r : A} {r' : B}
    (hm : Runs m b r b') (hf : Runs (f r) b' r' b'') : Runs (m >>= f) b r' b'' :=
  fun locks => (bind_eq_of_eq (hm locks)).trans (hf locks)

theorem Runs.holding {A : Type} {m : Task V A} {b b' : Books V} {r : A} (hm : Runs m b r b')
    (slot : Option Nat) : Runs (holding slot m) b r b' := by
  cases slot with
  | none => exact hm
  | some slot =>
    intro locks
    have hrelease : ({ b' with rwLocks := slot :: locks } : Books V).releaseLock slot =
        { b' with rwLocks := locks } := by
      simp [Books.releaseLock]
    show (fun a : A × Books V => (a.1, a.2.releaseLock slot))
      (m { b with rwLocks := slot :: locks }) = _
    rw [hm (slot :: locks)]
    exact congrArg (Prod.mk r) hrelease

theorem Runs.books {A : Type} {m : Task V A} {b b' : Books V} {r : A} (hm : Runs m b r b') :
    (m b).2 = { b' with rwLocks := b.rwLocks } := congrArg Prod.snd (hm b.rwLocks)

theorem splitTwo_completes {c₀ c₁ : Cluster V} (h₀ : c.Places headID false c₀)
    (h₁ : c.Places headID (c.isSameHead headID c₀) c₁)
    (hdelete : c.isSameHead headID c₀ ∨ c.isSameHead headID c₁ ∨ c.delete headID = .success) :
    ∃ heads, c.splitTwo headID c₀ c₁ = .ok heads := by
  obtain ⟨head₀, hplace₀⟩ := Calls.place_of_places h₀
  obtain ⟨head₁, hplace₁⟩ := Calls.place_of_places h₁
  rw [Bool.false_or] at hplace₀
  have hretire : (if c.isSameHead headID c₀ || c.isSameHead headID c₁ then .success
      else c.delete headID) = ErrorCode.success := by
    split
    · rfl
    · rename_i hsame
      rw [Bool.or_eq_true, not_or] at hsame
      exact (hdelete.resolve_left hsame.1).resolve_left hsame.2
  refine ⟨(head₀, head₁), ?_⟩
  simp only [Calls.splitTwo, hplace₀, hplace₁, hretire]

theorem splitTwo_fails {c₀ c₁ : Cluster V}
    (h : ¬ (c.Places headID false c₀ ∧ c.Places headID (c.isSameHead headID c₀) c₁ ∧
      (c.isSameHead headID c₀ ∨ c.isSameHead headID c₁ ∨ c.delete headID = .success))) :
    ∃ ret, c.splitTwo headID c₀ c₁ = .error ret := by
  by_cases h₀ : c.Places headID false c₀
  · obtain ⟨head₀, hplace₀⟩ := Calls.place_of_places h₀
    rw [Bool.false_or] at hplace₀
    by_cases h₁ : c.Places headID (c.isSameHead headID c₀) c₁
    · obtain ⟨head₁, hplace₁⟩ := Calls.place_of_places h₁
      have hdelete : ¬ (c.isSameHead headID c₀ ∨ c.isSameHead headID c₁ ∨
          c.delete headID = .success) := fun hd => h ⟨h₀, h₁, hd⟩
      rw [not_or, not_or] at hdelete
      obtain ⟨hsame₀, hsame₁, hret⟩ := hdelete
      have hkept : ¬ (c.isSameHead headID c₀ || c.isSameHead headID c₁) = true := by
        rw [Bool.or_eq_true, not_or]
        exact ⟨hsame₀, hsame₁⟩
      simp only [Calls.splitTwo, hplace₀, hplace₁, if_neg hkept]
      cases hcode : c.delete headID with
      | success => exact absurd hcode hret
      | _ => exact ⟨_, rfl⟩
    · obtain ⟨ret, hplace₁⟩ := Calls.place_of_not_places h₁
      exact ⟨ret, by simp only [Calls.splitTwo, hplace₀, hplace₁]⟩
  · obtain ⟨ret, hplace₀⟩ := Calls.place_of_not_places h₀
    exact ⟨ret, by simp only [Calls.splitTwo, hplace₀]⟩

theorem shrinkPosting_completes {A : Type} {p : Posting V} (h : c.Writes headID p) (b : Books V) :
    Runs (shrinkPosting (A := A) c headID p) b (.error .success) (b.eraseSplit headID) := by
  rw [shrinkPosting, Calls.write_eq_success_iff.mpr h]
  exact fun _ => rfl

theorem shrinkPosting_fails {A : Type} {p : Posting V} (h : ¬ c.Writes headID p) (b : Books V) :
    ∃ ret, Runs (shrinkPosting (A := A) c headID p) b (.error ret) b := by
  rw [shrinkPosting]
  cases hwrite : c.write headID p with
  | success => exact absurd (Calls.write_eq_success_iff.mp hwrite) h
  | _ => exact ⟨_, fun _ => rfl⟩

theorem splitLocked_completes (h : c.SplitCompletes headID) (b : Books V) :
    Runs (splitLocked c headID) b (.error .success) (b.eraseSplit headID) ∨
      ∃ heads, Runs (splitLocked c headID) b (.ok heads) b := by
  obtain ⟨p, hfetch, hrest⟩ := h
  rw [splitLocked, Calls.fetch_eq_ok_iff.mpr hfetch]
  dsimp only
  split
  · rw [if_pos ‹_›] at hrest
    exact .inl (shrinkPosting_completes hrest b)
  · rw [if_neg ‹_›] at hrest
    cases hkmeans : c.kmeans (c.live p) with
    | one order =>
      rw [hkmeans] at hrest
      exact .inl (shrinkPosting_completes hrest b)
    | two c₀ c₁ =>
      rw [hkmeans] at hrest
      obtain ⟨h₀, h₁, hdelete⟩ := hrest
      obtain ⟨heads, htwo⟩ := splitTwo_completes h₀ h₁ hdelete
      dsimp only
      rw [htwo]
      exact .inr ⟨heads, fun _ => rfl⟩

theorem splitLocked_fails (h : ¬ c.SplitCompletes headID) (b : Books V) :
    ∃ ret, Runs (splitLocked c headID) b (.error ret) b := by
  rw [splitLocked]
  cases hfetch : c.fetch headID 3 0 with
  | error ret => exact ⟨ret, fun _ => rfl⟩
  | ok p =>
    have hrest := fun hrest => h ⟨p, Calls.fetch_eq_ok_iff.mp hfetch, hrest⟩
    dsimp only
    split
    · rw [if_pos ‹_›] at hrest
      exact shrinkPosting_fails hrest b
    · rw [if_neg ‹_›] at hrest
      cases hkmeans : c.kmeans (c.live p) with
      | one order =>
        rw [hkmeans] at hrest
        exact shrinkPosting_fails hrest b
      | two c₀ c₁ =>
        rw [hkmeans] at hrest
        obtain ⟨ret, htwo⟩ := splitTwo_fails hrest
        dsimp only
        rw [htwo]
        exact ⟨ret, fun _ => rfl⟩

theorem runs_addReassigns (reassign : Bool) (entries : List (Entry V × Int)) (b : Books V) :
    ∃ sent, Runs (whenever reassign (modify (·.addReassigns entries))) b ⟨⟩
      (b.addReassigns sent) := by
  cases reassign with
  | true => exact ⟨entries, fun _ => rfl⟩
  | false => exact ⟨[], fun _ => by simp [whenever, Books.addReassigns]; rfl⟩

theorem split_completes (h : c.SplitCompletes headID) (reassign requirelock : Bool) (b : Books V) :
    ∃ entries, Runs (split c headID reassign requirelock) b .success
      ((b.eraseSplit headID).addReassigns entries) := by
  rw [split]
  obtain hlocked | ⟨heads, hlocked⟩ := splitLocked_completes h b
  · refine ⟨[], (hlocked.holding _).bind fun _ => ?_⟩
    simp [Books.addReassigns]
    rfl
  · obtain ⟨sent, hsent⟩ :=
      runs_addReassigns reassign (c.collectReAssign headID) (b.eraseSplit headID)
    have herase : Runs (modify (·.eraseSplit headID)) b ⟨⟩ (b.eraseSplit headID) := fun _ => rfl
    exact ⟨sent, (hlocked.holding _).bind (herase.bind (hsent.bind fun _ => rfl))⟩

theorem split_fails (h : ¬ c.SplitCompletes headID) (reassign requirelock : Bool) (b : Books V) :
    ∃ ret, Runs (split c headID reassign requirelock) b ret b := by
  obtain ⟨ret, hlocked⟩ := splitLocked_fails h b
  exact ⟨ret, (hlocked.holding _).bind fun _ => rfl⟩

theorem splitLeaves_iff (reassign requirelock : Bool) (b : Books V) :
    SplitLeaves headID b (split c headID reassign requirelock b).2 ↔
      c.SplitCompletes headID ∨ (headID ∈ b.splitList → b.SplitQueued headID) := by
  by_cases h : c.SplitCompletes headID
  · obtain ⟨entries, hsplit⟩ := split_completes h reassign requirelock b
    have hgone : headID ∉ ((b.eraseSplit headID).addReassigns entries).splitList := by
      simp [Books.addReassigns, Books.eraseSplit]
    rw [hsplit.books]
    exact ⟨fun _ => .inl h, fun _ => ⟨fun hmem => absurd hmem hgone, rfl, rfl⟩⟩
  · obtain ⟨ret, hsplit⟩ := split_fails h reassign requirelock b
    rw [hsplit.books]
    simp only [h, false_or, SplitLeaves, and_true]

section Merge

variable {p : Posting V} {next : Nat}

theorem mergeWith_gone (h : ¬ c.containSample 0 next) (b : Books V) :
    Runs (mergeWith c headID p next) b none b := by
  rw [mergeWith, Bool.eq_false_of_not_eq_true h]
  exact fun _ => rfl

theorem mergeWith_completes (h : c.Absorbs headID p next) (b : Books V) :
    Runs (mergeWith c headID p next) b (some (.ok next)) b := by
  obtain ⟨q, hreads, hwrites, hdelete⟩ := h
  rw [mergeWith, hreads.1, (Calls.read_eq_ok_iff hreads.1).mpr hreads]
  simp only [Calls.write_eq_success_iff.mpr hwrites, hdelete]
  exact fun _ => rfl

theorem mergeWith_fails (hcontain : c.containSample 0 next) (h : ¬ c.Absorbs headID p next)
    (b : Books V) :
    ∃ ret, Runs (mergeWith c headID p next) b (some (.error ret)) (b.setLock false) := by
  rw [mergeWith, hcontain]
  cases hread : c.read 0 next with
  | error ret => exact ⟨ret, fun _ => rfl⟩
  | ok q =>
    dsimp only
    cases hwrite : c.write (c.survivor headID next p q).1 (c.merged p q) with
    | success =>
      cases hdelete : c.delete (c.survivor headID next p q).2 with
      | success =>
        exact absurd ⟨q, (Calls.read_eq_ok_iff hcontain).mp hread,
          Calls.write_eq_success_iff.mp hwrite, hdelete⟩ h
      | _ => exact ⟨_, fun _ => rfl⟩
    | _ => exact ⟨_, fun _ => rfl⟩

theorem mergeNext_none {results : List Nat} {b b' : Books V} {r : Except ErrorCode Nat}
    (hfind : results.find? (c.isPartner b p) = none)
    (hend : Runs (mergeNext c headID p []) b r b') :
    Runs (mergeNext c headID p results) b r b' := by
  induction results with
  | nil => exact hend
  | cons next results ih =>
    have hnot : ¬ c.isPartner b p next = true := List.find?_eq_none.mp hfind next List.mem_cons_self
    rw [List.find?_cons_of_neg hnot] at hfind
    intro locks
    rw [mergeNext, get_bind_apply]
    split
    · rename_i hsmall
      have hgone : ¬ c.containSample 0 next := fun hcontain =>
        hnot (decide_eq_true ⟨hsmall.1, hsmall.2, hcontain⟩)
      exact (((mergeWith_gone hgone b).holding _).bind (ih hfind)) locks
    · exact ih hfind locks

theorem mergeNext_some {results : List Nat} {b b' : Books V} {r : Except ErrorCode Nat}
    (hfind : results.find? (c.isPartner b p) = some next)
    (hwith : Runs (mergeWith c headID p next) b (some r) b') :
    Runs (mergeNext c headID p results) b r b' := by
  induction results with
  | nil => cases hfind
  | cons next' results ih =>
    intro locks
    rw [mergeNext, get_bind_apply]
    cases hpartner : c.isPartner b p next' with
    | true =>
      rw [List.find?_cons_of_pos hpartner] at hfind
      cases hfind
      have hsmall := of_decide_eq_true hpartner
      rw [if_pos ⟨hsmall.1, hsmall.2.1⟩]
      exact bind_eq_of_eq (hwith.holding _ locks)
    | false =>
      have hnot : ¬ c.isPartner b p next' = true := by simp [hpartner]
      rw [List.find?_cons_of_neg hnot] at hfind
      split
      · rename_i hsmall
        have hgone : ¬ c.containSample 0 next' := fun hcontain =>
          hnot (decide_eq_true ⟨hsmall.1, hsmall.2, hcontain⟩)
        exact (((mergeWith_gone hgone b).holding _).bind (ih hfind)) locks
      · exact ih hfind locks

theorem putBack_completes (h : c.Writes headID (c.live p)) (b : Books V) :
    Runs (mergeNext c headID p []) b (.error .success) ((b.eraseMerge headID).setLock false) := by
  rw [mergeNext, Calls.write_eq_success_iff.mpr h]
  exact fun _ => rfl

theorem putBack_fails (h : ¬ c.Writes headID (c.live p)) (b : Books V) :
    ∃ ret, Runs (mergeNext c headID p []) b (.error ret) b := by
  rw [mergeNext]
  cases hwrite : c.write headID (c.live p) with
  | success => exact absurd (Calls.write_eq_success_iff.mp hwrite) h
  | _ => exact ⟨_, fun _ => rfl⟩

theorem mergeLocked_completes {b : Books V} (h : c.MergeCompletes b headID) :
    Runs (mergeLocked c headID) b (.error .success) ((b.eraseMerge headID).setLock false) ∨
      ∃ next, Runs (mergeLocked c headID) b (.ok next) b := by
  obtain ⟨p, hreads, hrest⟩ := h
  rw [mergeLocked, hreads.1, (Calls.read_eq_ok_iff hreads.1).mpr hreads]
  simp only [Bool.not_true, Bool.false_eq_true, if_false]
  split
  · rw [if_pos ‹_›] at hrest
    rw [Calls.write_eq_success_iff.mpr hrest]
    exact .inl fun _ => rfl
  · rw [if_neg ‹_›] at hrest
    cases hpartner : c.partner b headID p with
    | none =>
      rw [hpartner] at hrest
      exact .inl (mergeNext_none hpartner (putBack_completes hrest b))
    | some next =>
      rw [hpartner] at hrest
      exact .inr ⟨next, mergeNext_some hpartner (mergeWith_completes hrest b)⟩

theorem mergeLocked_putBackFails {b : Books V} (h : c.PutBackFails b headID) :
    ∃ ret, Runs (mergeLocked c headID) b (.error ret) b := by
  obtain ⟨p, hreads, hshort, hpartner, hwrites⟩ := h
  obtain ⟨ret, hend⟩ := putBack_fails hwrites b
  rw [mergeLocked, hreads.1, (Calls.read_eq_ok_iff hreads.1).mpr hreads]
  simp only [Bool.not_true, Bool.false_eq_true, if_false, if_neg (not_lt.mpr hshort)]
  exact ⟨ret, mergeNext_none hpartner hend⟩

theorem mergeLocked_fails {b : Books V} (h : ¬ c.MergeCompletes b headID)
    (hback : ¬ c.PutBackFails b headID) :
    ∃ ret, Runs (mergeLocked c headID) b (.error ret) (b.setLock false) := by
  rw [mergeLocked]
  cases hcontain : c.containSample 0 headID with
  | false => exact ⟨.success, fun _ => rfl⟩
  | true =>
    cases hread : c.read 0 headID with
    | error ret => exact ⟨ret, fun _ => rfl⟩
    | ok p =>
      have hreads := (Calls.read_eq_ok_iff hcontain).mp hread
      have hrest := fun hrest => h ⟨p, hreads, hrest⟩
      simp only [Bool.not_true, Bool.false_eq_true, if_false]
      split
      · rw [if_pos ‹_›] at hrest
        cases hwrite : c.write headID (c.live p) with
        | success => exact absurd (Calls.write_eq_success_iff.mp hwrite) hrest
        | _ => exact ⟨_, fun _ => rfl⟩
      · rename_i hshort
        rw [if_neg hshort] at hrest
        cases hpartner : c.partner b headID p with
        | none =>
          rw [hpartner] at hrest
          exact absurd ⟨p, hreads, not_lt.mp hshort, hpartner, hrest⟩ hback
        | some next =>
          rw [hpartner] at hrest
          have hfound : c.isPartner b p next = true := List.find?_some hpartner
          have hnext := of_decide_eq_true hfound
          obtain ⟨ret, hwith⟩ := mergeWith_fails hnext.2.2 hrest b
          exact ⟨ret, mergeNext_some hpartner hwith⟩

theorem setLock_setLock {b : Books V} (hfree : b.mergeLock = false) :
    (b.setLock true).setLock false = b := by
  rw [Books.setLock, Books.setLock, ← hfree]

theorem runs_mergePostings {b b' b'' : Books V} {reassign : Bool} {r : Except ErrorCode Nat}
    {ret : ErrorCode} (hfree : b.mergeLock = false)
    (hlocked : Runs (mergeLocked c headID) (b.setLock true) r b')
    (hrest : Runs (match r with
      | .error ret => pure ret
      | .ok next => do
        modify (·.setLock false)
        whenever reassign (modify (·.addReassigns (c.reassignMerged headID next)))
        modify (·.eraseMerge headID)
        pure .success) b' ret b'') :
    Runs (mergePostings c headID reassign) b ret b'' := by
  have hset : Runs (modify (·.setLock true)) b ⟨⟩ (b.setLock true) := fun _ => rfl
  intro locks
  rw [mergePostings, get_bind_apply,
    if_neg (fun hlock => Bool.false_ne_true (hfree.symm.trans hlock))]
  refine hset.bind ?_ locks
  exact (hlocked.holding _).bind hrest

theorem merge_completes {b : Books V} (hfree : b.mergeLock = false)
    (h : c.MergeCompletes b headID) (reassign : Bool) :
    ∃ entries, Runs (mergePostings c headID reassign) b .success
      ((b.eraseMerge headID).addReassigns entries) := by
  have hlocked : Runs (mergeLocked c headID) (b.setLock true) (.error .success)
      (((b.setLock true).eraseMerge headID).setLock false) ∨
      ∃ next, Runs (mergeLocked c headID) (b.setLock true) (.ok next) (b.setLock true) :=
    mergeLocked_completes h
  have hfree' : (b.eraseMerge headID).mergeLock = false := hfree
  have hback := setLock_setLock hfree'
  obtain hlocked | ⟨next, hlocked⟩ := hlocked
  · have hnone : (b.eraseMerge headID).addReassigns [] = b.eraseMerge headID := by
      simp [Books.addReassigns]
    refine ⟨[], runs_mergePostings hfree hlocked ?_⟩
    rw [hnone, ← hback]
    exact fun _ => rfl
  · obtain ⟨sent, hsent⟩ := runs_addReassigns reassign (c.reassignMerged headID next) b
    have hset : Runs (modify (·.setLock false)) (b.setLock true) ⟨⟩ b := by
      rw [← setLock_setLock hfree]
      exact fun _ => rfl
    have herase : Runs (modify (·.eraseMerge headID)) (b.addReassigns sent) ⟨⟩
        ((b.eraseMerge headID).addReassigns sent) := fun _ => rfl
    exact ⟨sent, runs_mergePostings hfree hlocked
      (hset.bind (hsent.bind (herase.bind fun _ => rfl)))⟩

theorem merge_fails {b : Books V} (hfree : b.mergeLock = false)
    (h : ¬ c.MergeCompletes b headID) (hback : ¬ c.PutBackFails b headID) (reassign : Bool) :
    ∃ ret, Runs (mergePostings c headID reassign) b ret b := by
  have hlocked : ∃ ret, Runs (mergeLocked c headID) (b.setLock true) (.error ret)
      ((b.setLock true).setLock false) := mergeLocked_fails h hback
  obtain ⟨ret, hlocked⟩ := hlocked
  rw [setLock_setLock hfree] at hlocked
  exact ⟨ret, runs_mergePostings hfree hlocked fun _ => rfl⟩

theorem merge_putBackFails {b : Books V} (hfree : b.mergeLock = false)
    (h : c.PutBackFails b headID) (reassign : Bool) :
    ∃ ret, Runs (mergePostings c headID reassign) b ret (b.setLock true) := by
  have hlocked : ∃ ret, Runs (mergeLocked c headID) (b.setLock true) (.error ret)
      (b.setLock true) := mergeLocked_putBackFails h
  obtain ⟨ret, hlocked⟩ := hlocked
  exact ⟨ret, runs_mergePostings hfree hlocked fun _ => rfl⟩

end Merge

theorem mergeLeaves_iff (reassign : Bool) (b : Books V) :
    MergeLeaves headID b (mergePostings c headID reassign b).2 ↔
      b.mergeLock = true ∨ c.MergeCompletes b headID ∨
        (headID ∈ b.mergeList → b.MergeQueued headID) ∧ ¬ c.PutBackFails b headID := by
  cases hlock : b.mergeLock with
  | true =>
    have hqueue : (mergePostings c headID reassign b).2 = b.addJob (.merge headID reassign) := by
      rw [mergePostings, get_bind_apply]
      simp only [hlock, if_true]
      rfl
    have hqueued : (b.addJob (.merge headID reassign)).MergeQueued headID :=
      ⟨reassign, List.mem_append_right _ (List.mem_singleton_self _)⟩
    rw [hqueue]
    exact ⟨fun _ => .inl rfl, fun _ => ⟨fun _ => hqueued, rfl, rfl⟩⟩
  | false =>
    rw [or_iff_right Bool.false_ne_true]
    by_cases h : c.MergeCompletes b headID
    · obtain ⟨entries, hmerge⟩ := merge_completes hlock h reassign
      have hgone : headID ∉ ((b.eraseMerge headID).addReassigns entries).mergeList := by
        simp [Books.addReassigns, Books.eraseMerge]
      rw [hmerge.books]
      exact ⟨fun _ => .inl h, fun _ => ⟨fun hmem => absurd hmem hgone, rfl, rfl⟩⟩
    · rw [or_iff_right h]
      by_cases hback : c.PutBackFails b headID
      · obtain ⟨ret, hmerge⟩ := merge_putBackFails hlock hback reassign
        rw [hmerge.books]
        constructor
        · rintro ⟨-, hfree, -⟩
          exact absurd (hfree.trans hlock) Bool.noConfusion
        · rintro ⟨-, hnot⟩
          exact absurd hback hnot
      · obtain ⟨ret, hmerge⟩ := merge_fails hlock h hback reassign
        rw [hmerge.books]
        simp only [MergeLeaves, hback, not_false_eq_true, and_true]

/-- A job leaves no residue exactly when it runs through, when its head was not in the list or
queued besides, or when a busy `m_mergeLock` queued it again; a merge that cannot put its
posting back always does. -/
theorem no_residue_iff (c : Calls V) (headID : Nat) (reassign requirelock : Bool) (b : Books V) :
    (SplitLeaves headID b (split c headID reassign requirelock b).2 ↔
      c.SplitCompletes headID ∨ (headID ∈ b.splitList → b.SplitQueued headID)) ∧
    (MergeLeaves headID b (mergePostings c headID reassign b).2 ↔
      b.mergeLock = true ∨ c.MergeCompletes b headID ∨
        (headID ∈ b.mergeList → b.MergeQueued headID) ∧ ¬ c.PutBackFails b headID) :=
  ⟨splitLeaves_iff reassign requirelock b, mergeLeaves_iff reassign b⟩

def listed : Books Unit := ⟨[0], [0], false, [], []⟩

def Calls.served : Calls Unit where
  opt := plainOptions
  consistencyCheck := false
  hash := id
  containSample _ _ := true
  get _ _ := (.success, [])
  validate _ _ := true
  count _ := 0
  current _ := true
  kmeans p := .one p
  isSameHead _ _ := false
  addIndexId _ := 1
  put _ _ := .success
  check _ _ := .success
  delete _ := .success
  memoryOverFlow _ := false
  search _ := []
  postingSize _ := 0
  collectReAssign _ := []
  reassignMerged _ _ := []

theorem residue_left :
    ¬ SplitLeaves 0 listed
      (split { Calls.served with containSample := fun _ _ => false } 0 true true listed).2 ∧
    ¬ MergeLeaves 0 listed
      (mergePostings { Calls.served with put := fun _ _ => .diskIOFail } 0 true listed).2 := by
  constructor
  · rintro ⟨hlisted, -⟩
    obtain ⟨d, hd⟩ := hlisted (List.mem_singleton_self 0)
    cases hd
  · rintro ⟨-, hlock, -⟩
    cases hlock

end Sptag.SPANN.Dynamic.Residue
