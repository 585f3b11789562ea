import Sptag.SPANN.Dynamic.Update

/-! `CheckPosting` and `GetWritePosting`, and what the searcher returns when a posting that
it has read fails its checksum. -/

namespace Sptag.SPANN.Dynamic

open COMMON Lib

variable {V D : Type}

section Model

variable (env : Env V D)

structure Checker (V : Type) where
  /-- `m_storage` is `TIKVIO`. -/
  tikv : Bool
  vectorInfoSize : Nat
  check : State V → Nat → Nat → ErrorCode

def checkPosting (db : Checker V) (postingID : Int) (hasWorkSpace : Bool) : Upd V ErrorCode := do
  if db.tikv then pure .success
  else do
    let s ← get
    if postingID < 0 ∨ (s.records : Int) ≤ postingID then pure .keyOverFlow
    else
      let h := postingID.toNat
      let ret := db.check s h (s.postingSizes h * db.vectorInfoSize)
      if ret ≠ .success then pure ret
      else if env.opt.checksumInRead && hasWorkSpace then
        match ← readPosting env .checkGet h with
        | .error ret => pure ret
        | .ok _ => pure .success
      else pure .success

def getWritePosting (pid : Nat) (posting : Posting V) (write : Bool) :
    Upd V (ErrorCode × Posting V) := do
  if write then
    let ret ← writePosting env .writePut pid posting
    pure (ret, posting)
  else
    match ← dbGet env .writeGet pid with
    | none => pure (.fail, posting)
    | some p => do
      let ret := ErrorCode.success
      let s ← get
      if !env.validate p (s.checkSums pid) then pure (ret, p) else pure (.success, p)

end Model

section Reads

variable {env : Env V D} {s : State V} {site : Site} {h : Nat} {p : Posting V}

def State.ticked (s : State V) (n : Nat) : State V := { s with tick := s.tick + n }

theorem call_served {serves : State V → Bool} (hok : env.fails site s.tick = false)
    (hs : serves s = true) : call env site serves s = (true, s.ticked 1) := by
  simp [call, hok, hs, State.ticked]

theorem dbGet_served (hok : env.fails site s.tick = false) (hp : s.db h = some p) :
    dbGet env site h s = (some p, s.ticked 1) := by
  have hserves : (fun s : State V => (s.db h).isSome) s = true := by simp [hp]
  exact (bind_eq_of_eq (call_served hok hserves)).trans (Prod.ext hp rfl)

theorem readPosting_served (hok : env.fails site s.tick = false) (hp : s.db h = some p) :
    readPosting env site h s =
      (if env.validate p (s.checkSums h) then .ok p else .error .success, s.ticked 1) :=
  bind_eq_of_eq (dbGet_served hok hp)

theorem searchIndex_served {n : Nat} {q : V} {results : List Nat}
    (hres : env.search s.tick s.index n q = results) (hne : results ≠ []) :
    searchIndex env n q s = (results, s.ticked 1) := by
  rw [searchIndex, hres]
  cases results with
  | nil => exact absurd rfl hne
  | cons g gs => rfl

end Reads

structure Corrupt (env : Env V D) (s : State V) (h : Nat) (p : Posting V) : Prop where
  stored : s.db h = some p
  bad : env.validate p (s.checkSums h) = false

def Reports (m : Upd V ErrorCode) (s : State V) : Prop :=
  (m s).1 ≠ .success ∧ (m s).2.db = s.db ∧ (m s).2.index = s.index

def Hides (m : Upd V ErrorCode) (s : State V) : Prop :=
  (m s).1 = .success ∧ (m s).2.db = s.db ∧ (m s).2.index = s.index

section Corrupt

variable {env : Env V D} {s : State V} {h : Nat} {p : Posting V}

theorem hides_of_eq {m : Upd V ErrorCode} {s' : State V} (hm : m s = (.success, s'))
    (hdb : s'.db = s.db) (hindex : s'.index = s.index) : Hides m s := by
  rw [Hides, hm]
  exact ⟨rfl, hdb, hindex⟩

theorem readPosting_corrupt (hc : Corrupt env s h p) {site : Site}
    (hok : env.fails site s.tick = false) :
    readPosting env site h s = (.error .success, s.ticked 1) := by
  rw [readPosting_served hok hc.stored, hc.bad]
  rfl

variable [LinearOrder D]

theorem split_hides (hc : Corrupt env s h p) (hok : env.fails .splitGet s.tick = false)
    (reassign : Bool) : Hides (split env h reassign) s := by
  rw [Hides, split, get_bind_apply]
  split
  · exact ⟨rfl, rfl, rfl⟩
  · have hknown : readKnown env h s = (.error .success, s.ticked 1) :=
      bind_eq_of_eq (readPosting_corrupt hc hok)
    have hfetch : fetchPosting env h 3 s = (.error .success, s.ticked 1) := bind_eq_of_eq hknown
    rw [bind_eq_of_eq hfetch]
    exact ⟨rfl, rfl, rfl⟩

theorem mergePostings_hides (hc : Corrupt env s h p) (hok : env.fails .mergeGet s.tick = false)
    (reassign : Bool) : Hides (mergePostings env h reassign) s := by
  have hc' : Corrupt env (s.setLock true) h p := ⟨hc.stored, hc.bad⟩
  rw [Hides, mergePostings, get_bind_apply]
  split
  · exact ⟨rfl, rfl, rfl⟩
  split
  · exact ⟨rfl, rfl, rfl⟩
  · rw [modify_bind_apply, bind_eq_of_eq (readPosting_corrupt hc' hok)]
    exact ⟨rfl, rfl, rfl⟩

def Takes (env : Env V D) (s : State V) (merged : Posting V) (next : Nat) : Prop :=
  merged.length + s.postingSizes next < env.opt.postingSizeLimit ∧ next ∉ s.mergeList ∧
    s.index.containSample next

structure ReachesNeighbour (env : Env V D) (s : State V) (headID h : Nat) (own : Posting V) :
    Prop where
  unlocked : s.mergeLock = false
  contained : s.index.containSample headID = true
  stored : s.db headID = some own
  valid : env.validate own (s.checkSums headID) = true
  small : (s.live own).length ≤ env.opt.mergeThreshold
  found : ∃ skipped rest,
    (env.search (s.tick + 1) s.index env.opt.internalResultNum (s.index.sample headID)).drop 1 =
        skipped ++ h :: rest ∧
      (∀ g ∈ skipped, ¬ Takes env s (s.live own) g) ∧ Takes env s (s.live own) h
  served : env.fails .mergeGet s.tick = false
  served_next : env.fails .mergeNextGet (s.tick + 2) = false

theorem mergeNext_hides (hc : Corrupt env s h p) (hok : env.fails .mergeNextGet s.tick = false)
    {headID : Nat} {reassign : Bool} {own merged : Posting V} (ht : Takes env s merged h)
    (rest : List Nat) : ∀ skipped, (∀ g ∈ skipped, ¬ Takes env s merged g) →
      mergeNext env headID reassign own merged (skipped ++ h :: rest) s =
        (.success, (s.ticked 1).setLock false)
  | [], _ => by
    rw [Takes] at ht
    rw [List.nil_append, mergeNext, get_bind_apply, if_pos ht,
      bind_eq_of_eq (readPosting_corrupt hc hok)]
    rfl
  | g :: skipped, hskip => by
    have hg := hskip g (.head _)
    rw [Takes] at hg
    rw [List.cons_append, mergeNext, get_bind_apply, if_neg hg]
    exact mergeNext_hides hc hok ht rest skipped fun g hg => hskip g (.tail _ hg)

theorem mergePostings_hides_neighbour (hc : Corrupt env s h p) {headID : Nat} {own : Posting V}
    (hr : ReachesNeighbour env s headID h own) (reassign : Bool) :
    Hides (mergePostings env headID reassign) s := by
  obtain ⟨skipped, rest, hsearch, hskip, htake⟩ := hr.found
  let s₁ := (s.setLock true).ticked 1
  let s₂ := (s.setLock true).ticked 2
  have hread : readPosting env .mergeGet headID (s.setLock true) = (.ok own, s₁) := by
    have hserved : readPosting env .mergeGet headID (s.setLock true) =
        (if env.validate own (s.checkSums headID) then .ok own else .error .success, s₁) :=
      readPosting_served hr.served hr.stored
    rwa [hr.valid, if_pos rfl] at hserved
  have hfound : searchIndex env env.opt.internalResultNum (s₁.index.sample headID) s₁ =
      (env.search (s.tick + 1) s.index env.opt.internalResultNum (s.index.sample headID), s₂) := by
    refine searchIndex_served rfl fun hnil => ?_
    rw [hnil] at hsearch
    simp at hsearch
  have hc' : Corrupt env s₂ h p := ⟨hc.stored, hc.bad⟩
  have hsmall : ¬ env.opt.mergeThreshold < (s₁.live own).length := Nat.not_lt.mpr hr.small
  rw [Hides, mergePostings, get_bind_apply, hr.unlocked, if_neg (by simp), hr.contained,
    if_neg (by simp), modify_bind_apply, bind_eq_of_eq hread]
  dsimp only
  have hend : mergeNext env headID reassign own (s₁.live own) (skipped ++ h :: rest) s₂ =
      (.success, (s₂.ticked 1).setLock false) :=
    mergeNext_hides hc' hr.served_next htake rest skipped hskip
  rw [get_bind_apply, if_neg hsmall, bind_eq_of_eq hfound, hsearch, hend]
  exact ⟨rfl, rfl, rfl⟩

omit [LinearOrder D] in
theorem getWritePosting_hides (hc : Corrupt env s h p) (hok : env.fails .writeGet s.tick = false)
    (posting : Posting V) : Hides (Prod.fst <$> getWritePosting env h posting false) s := by
  have hrun : getWritePosting env h posting false s = ((ErrorCode.success, p), s.ticked 1) := by
    rw [getWritePosting, if_neg (by simp), bind_eq_of_eq (dbGet_served hok hc.stored)]
    dsimp only
    rw [get_bind_apply]
    split <;> rfl
  exact hides_of_eq (congrArg (Prod.map Prod.fst id) hrun) rfl rfl

omit [LinearOrder D] in
theorem checkPosting_reports_iff (hc : Corrupt env s h p) (hok : env.fails .checkGet s.tick = false)
    (hread : env.opt.checksumInRead = true) (db : Checker V) :
    Reports (checkPosting env db h true) s ↔
      db.tikv = false ∧
        (s.records ≤ h ∨ db.check s h (s.postingSizes h * db.vectorInfoSize) ≠ .success) := by
  rw [Reports, checkPosting]
  split
  · rename_i htikv
    simp [htikv, pure, StateT.pure]
  · rename_i htikv
    rw [get_bind_apply]
    split
    · rename_i hrange
      have hle : s.records ≤ h := by omega
      simp [htikv, hle, pure, StateT.pure]
    · rename_i hrange
      have hlt : ¬ s.records ≤ h := by omega
      simp only [Int.toNat_natCast, htikv, hlt, false_or, true_and]
      split
      · rename_i hcheck
        simp [hcheck, pure, StateT.pure]
      · rename_i hcheck
        rw [hread, if_pos (by simp), bind_eq_of_eq (readPosting_corrupt hc hok)]
        simp [hcheck, pure, StateT.pure]

def State.shelf (s : State V) :
    HeadIndex V × (Nat → Option (Posting V)) × (Nat → ChecksumType) × Nat :=
  (s.index, s.db, s.checkSums, s.tick)

omit [LinearOrder D] in
theorem reassignOwn_keeps_shelf (headID : Nat) :
    Keeps State.shelf (reassignOwn (V := V) headID) := by
  refine .get_bind fun s => ?_
  cases s.ownVector headID with
  | none => exact .pure _
  | some e => exact .modify fun _ => rfl

theorem scanReAssign_keeps_shelf (headID : Nat) (newHeads : Nat × Nat) (inSplit : Bool)
    (entries : List (Nat × Entry V)) (seen : List Int) :
    Keeps State.shelf (scanReAssign env headID newHeads inSplit entries seen) := by
  induction entries generalizing seen with
  | nil => exact .pure _
  | cons e entries ih =>
    refine .get_bind fun s => .ite ?_ (ih seen)
    exact .bind (.modify fun _ => rfl) fun _ => ih _

structure ReachesNearby (env : Env V D) (s : State V) (headID : Nat) (newHeads : Nat × Nat)
    (h : Nat) : Prop where
  found : h ∈ nearbyHeads newHeads
    (env.search s.tick s.index env.opt.reassignK (s.index.sample headID))
  stored : ∀ g ∈ nearbyHeads newHeads
    (env.search s.tick s.index env.opt.reassignK (s.index.sample headID)), (s.db g).isSome
  served : env.fails .collectGet (s.tick + 1) = false

theorem collectReAssign_hides {headID : Nat} {new₀ new₁ : Nat × Posting V}
    (hr : ReachesNearby env s headID (new₀.1, new₁.1) h) (theSameHead : Bool) :
    Hides (collectReAssign env headID new₀ new₁ theSameHead) s := by
  have hshelf : ∀ {s' : State V}, s'.shelf = s.shelf →
      s'.index = s.index ∧ s'.db = s.db ∧ s'.checkSums = s.checkSums ∧ s'.tick = s.tick := by
    simp [State.shelf]
  obtain ⟨hfound, hstored, hserved⟩ := hr
  let R : ErrorCode × State V → Prop := fun r =>
    r.1 = .success ∧ r.2.db = s.db ∧ r.2.index = s.index
  refine Keeps.bind_ends (R := R) (.whenever (reassignOwn_keeps_shelf headID)) fun _ s₁ h₁ => ?_
  refine Keeps.bind_ends (R := R)
    (scanReAssign_keeps_shelf headID (new₀.1, new₁.1) true _ []) fun seen s₂ h₂ => ?_
  obtain ⟨hindex, hdb, hsums, htick⟩ := hshelf (h₂.trans h₁)
  split
  · exact ⟨rfl, hdb, hindex⟩
  generalize hres : env.search s.tick s.index env.opt.reassignK (s.index.sample headID) = results
    at hfound hstored
  have hsearch : searchIndex env env.opt.reassignK (s₂.index.sample headID) s₂ =
      (results, s₂.ticked 1) := by
    refine searchIndex_served (by rw [htick, hindex, hres]) ?_
    rintro rfl
    cases hfound
  let prevs := nearbyHeads (new₀.1, new₁.1) results
  have hcall : call env .collectGet (fun s => prevs.all fun g => (s.db g).isSome) (s₂.ticked 1) =
      (true, (s₂.ticked 1).ticked 1) := by
    refine call_served (by simpa [State.ticked, htick] using hserved) ?_
    simpa [State.ticked, hdb, prevs] using hstored
  rw [get_bind_apply, bind_eq_of_eq hsearch]
  dsimp only
  rw [bind_eq_of_eq hcall, get_bind_apply, if_neg (by simp)]
  split
  · exact ⟨rfl, hdb, hindex⟩
  · -- Without checksums in reads the postings are scanned.
    let s₃ := (s₂.ticked 1).ticked 1
    have hscan : Keeps State.shelf (scanReAssign env headID (new₀.1, new₁.1) false
        (tagged (prevs.map fun g => (g, (s₃.db g).getD []))) seen) :=
      scanReAssign_keeps_shelf _ _ _ _ _
    exact ⟨rfl, (congrArg (·.2.1) (hscan s₃)).trans hdb, (congrArg (·.1) (hscan s₃)).trans hindex⟩

/-- A read that fails its checksum is returned as `Success` by every path that makes it;
only `CheckPosting` may have found something else wrong before. -/
theorem corruption_hidden (hc : Corrupt env s h p) :
    (env.fails .splitGet s.tick = false → ∀ reassign, Hides (split env h reassign) s) ∧
    (env.fails .mergeGet s.tick = false → ∀ reassign, Hides (mergePostings env h reassign) s) ∧
    (∀ headID own, ReachesNeighbour env s headID h own →
      ∀ reassign, Hides (mergePostings env headID reassign) s) ∧
    (env.fails .checkGet s.tick = false → env.opt.checksumInRead = true → ∀ db : Checker V,
      (Reports (checkPosting env db h true) s ↔ db.tikv = false ∧
        (s.records ≤ h ∨ db.check s h (s.postingSizes h * db.vectorInfoSize) ≠ .success))) ∧
    (env.fails .writeGet s.tick = false →
      ∀ posting, Hides (Prod.fst <$> getWritePosting env h posting false) s) ∧
    ∀ headID (new₀ new₁ : Nat × Posting V), ReachesNearby env s headID (new₀.1, new₁.1) h →
      ∀ theSameHead, Hides (collectReAssign env headID new₀ new₁ theSameHead) s :=
  ⟨split_hides hc, mergePostings_hides hc, fun _ _ => mergePostings_hides_neighbour hc,
    checkPosting_reports_iff hc, getWritePosting_hides hc, fun _ _ _ => collectReAssign_hides⟩

end Corrupt

def flipped : State Unit :=
  { State.start ⟨1, fun _ => (), fun _ => false⟩ (.ofLabels [0] 0 8) fun _ => none with
    db := fun _ => some [⟨0, 0, ()⟩]
    checkSums := fun _ => 1 }

theorem corruption_hidden_flipped :
    Hides (split (Env.plain plainOptions ⟨0, false⟩) 0 true) flipped :=
  (corruption_hidden (p := [⟨0, 0, ()⟩]) ⟨rfl, by decide⟩).1 rfl true

theorem corruption_not_reported :
    ¬ Reports (split (Env.plain plainOptions ⟨0, false⟩) 0 true) flipped := by
  intro h
  exact h.1 (by decide)

end Sptag.SPANN.Dynamic
