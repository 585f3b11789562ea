import Sptag.Lib.Rises
import Sptag.SPANN.Dynamic.Update

/-! What no update takes back: head ids keep their vectors, retired heads and deleted ids stay
so, the version map and the logs only grow. -/

namespace Sptag.SPANN.Dynamic

open COMMON Lib

variable {V D : Type}

/-- Whatever was said of the ids of `s` is still true in `s'`. -/
structure State.Later (s s' : State V) : Prop where
  num : s.index.num ≤ s'.index.num
  sample : ∀ h < s.index.num, s'.index.sample h = s.index.sample h
  translate : ∀ h < s.index.num, s'.translate h = s.translate h
  retired : ∀ h < s.index.num, s.index.deleted h = true → s'.index.deleted h = true
  count : s.versionMap.count ≤ s'.versionMap.count
  capacity : s'.versionMap.capacity = s.versionMap.capacity
  dead : ∀ vid, s.versionMap.Dead vid → s'.versionMap.Dead vid
  wal : s.wal <+: s'.wal
  added : s.added <:+ s'.added
  lapses : s.lapses <:+ s'.lapses

namespace State

variable {s s' : State V}

instance : Preorder (State V) where
  le := Later
  le_refl s :=
    ⟨le_refl _, fun _ _ => rfl, fun _ _ => rfl, fun _ _ h => h, le_refl _, rfl, fun _ h => h,
      List.prefix_rfl, List.suffix_rfl, List.suffix_rfl⟩
  le_trans s₁ s₂ s₃ h h' :=
    { num := h.num.trans h'.num
      sample := fun i hi => (h'.sample i (hi.trans_le h.num)).trans (h.sample i hi)
      translate := fun i hi => (h'.translate i (hi.trans_le h.num)).trans (h.translate i hi)
      retired := fun i hi hd => h'.retired i (hi.trans_le h.num) (h.retired i hi hd)
      count := h.count.trans h'.count
      capacity := h'.capacity.trans h.capacity
      dead := fun vid hd => h'.dead vid (h.dead vid hd)
      wal := h.wal.trans h'.wal
      added := h.added.trans h'.added
      lapses := h.lapses.trans h'.lapses }

theorem Later.containSample_eq_false (h : Later s s') {headID : Nat} (hlt : headID < s.index.num)
    (hgone : s.index.containSample headID = false) : s'.index.containSample headID = false := by
  have hdeleted : s.index.deleted headID = true := by
    simpa [HeadIndex.containSample, hlt] using hgone
  simp [HeadIndex.containSample, h.retired headID hlt hdeleted]

theorem le_of_same (hindex : s'.index = s.index) (htranslate : s'.translate = s.translate)
    (hversions : s'.versionMap = s.versionMap) (hwal : s'.wal = s.wal)
    (hadded : s'.added = s.added) (hlapses : s'.lapses = s.lapses) : s ≤ s' where
  num := by rw [hindex]
  sample := by simp [hindex]
  translate := by simp [htranslate]
  retired := by simp [hindex]
  count := by rw [hversions]
  capacity := by rw [hversions]
  dead := by simp [hversions]
  wal := by rw [hwal]
  added := by rw [hadded]
  lapses := by rw [hlapses]

theorem le_lapse (s : State V) (l : Lapse) : s ≤ s.lapse l :=
  { le_refl s with lapses := List.suffix_cons l s.lapses }

theorem le_setPosting (s : State V) (headID : Nat) (p : Option (Posting V)) :
    s ≤ s.setPosting headID p := le_of_same rfl rfl rfl rfl rfl rfl

theorem le_setRecord (s : State V) (headID size : Nat) (checksum : ChecksumType) :
    s ≤ s.setRecord headID size checksum := le_of_same rfl rfl rfl rfl rfl rfl

theorem le_addRecord (s : State V) (headID size : Nat) (checksum : ChecksumType) :
    s ≤ { s with records := s.records + 1 }.setRecord headID size checksum :=
  le_of_same rfl rfl rfl rfl rfl rfl

theorem le_eraseSplit (s : State V) (headID : Nat) : s ≤ s.eraseSplit headID :=
  le_of_same rfl rfl rfl rfl rfl rfl

theorem le_eraseMerge (s : State V) (headID : Nat) : s ≤ s.eraseMerge headID :=
  le_of_same rfl rfl rfl rfl rfl rfl

theorem le_setLock (s : State V) (locked : Bool) : s ≤ s.setLock locked :=
  le_of_same rfl rfl rfl rfl rfl rfl

theorem le_addJob (s : State V) (j : Job V) : s ≤ s.addJob j :=
  le_of_same rfl rfl rfl rfl rfl rfl

theorem le_setJobs (s : State V) (jobs : List (Job V)) : s ≤ { s with jobs := jobs } :=
  le_of_same rfl rfl rfl rfl rfl rfl

theorem le_setStatus (s : State V) (ret : ErrorCode) : s ≤ { s with asyncStatus := ret } :=
  le_of_same rfl rfl rfl rfl rfl rfl

theorem le_deleteHead (s : State V) (headID : Nat) : s ≤ s.deleteHead headID :=
  { le_refl s with
    retired := fun h _ hdeleted => by
      show Function.update s.index.deleted headID true h = true
      rw [Function.update_apply, hdeleted, ite_self] }

/-- The version map changes, and takes no deletion back. -/
theorem le_versionMap (s : State V) {m : VersionLabel}
    (hcount : s.versionMap.count ≤ m.count) (hcapacity : m.capacity = s.versionMap.capacity)
    (hdead : ∀ vid, s.versionMap.Dead vid → m.Dead vid) : s ≤ { s with versionMap := m } :=
  { le_refl s with count := hcount, capacity := hcapacity, dead := hdead }

theorem le_incVersion (s : State V) (vid : Int) :
    s ≤ { s with versionMap := (s.versionMap.incVersion vid).2 } :=
  s.le_versionMap (VersionLabel.count_incVersion ..).ge (VersionLabel.capacity_incVersion ..)
    fun _ h => VersionLabel.dead_incVersion.mpr h

theorem le_delete (s : State V) (vid : Int) :
    s ≤ { s with versionMap := (s.versionMap.delete vid).2 } :=
  s.le_versionMap (VersionLabel.count_delete ..).ge (VersionLabel.capacity_delete ..)
    fun _ h => VersionLabel.dead_delete.mpr (.inl h)

theorem le_addBatch (s : State V) (num : Nat) :
    s ≤ { s with versionMap :=
      { s.versionMap with
        data := s.versionMap.data ++ List.replicate num VersionLabel.blank } } :=
  s.le_versionMap (by simp [VersionLabel.count]) rfl fun _ h => VersionLabel.dead_append.mpr h

theorem le_logged (s : State V) {added : List Int} (hadded : s.added <:+ added) {enabled : Bool}
    (a : Assignment V) :
    s ≤ { s with added := added, wal := if enabled then s.wal ++ [a] else s.wal } :=
  { le_refl s with
    added := hadded
    wal := by
      show s.wal <+: if enabled then s.wal ++ [a] else s.wal
      split
      · exact List.prefix_append _ _
      · exact List.prefix_rfl }

theorem le_addHeadRow (s : State V) (x : V) (vid : Option Int) :
    s ≤ { s with
      index := s.index.addIndexId x
      translate := Function.update s.translate s.index.num vid } :=
  { le_refl s with
    num := Nat.le_succ _
    sample := fun _ hlt => Function.update_of_ne hlt.ne _ _
    translate := fun _ hlt => Function.update_of_ne hlt.ne _ _
    retired := fun _ hlt hdeleted => (Function.update_of_ne hlt.ne _ _).trans hdeleted }

theorem le_addHead [LinearOrder D] (env : Env V D) (s : State V) (c : Cluster V) :
    s ≤ s.addHead env c := by
  unfold addHead
  split
  · exact (s.le_addHeadRow c.center _).trans (le_incVersion _ c.last.vid)
  · exact s.le_addHeadRow c.center _

end State

section Calls

variable {env : Env V D}

theorem call_rises (site : Site) (serves : State V → Bool) : Rises (call env site serves) := by
  intro s
  have htick : s ≤ { s with tick := s.tick + 1 } := State.le_of_same rfl rfl rfl rfl rfl rfl
  unfold call
  split
  · exact htick.trans (State.le_lapse _ _)
  · exact htick

theorem dbGet_rises (site : Site) (headID : Nat) : Rises (dbGet env site headID) :=
  (call_rises site _).bind fun _ => .get_bind fun _ => .pure _

theorem dbPut_rises (site : Site) (headID : Nat) (p : Posting V) :
    Rises (dbPut env site headID p) :=
  (call_rises site _).bind fun _ =>
    (Rises.whenever (.modify fun s => s.le_setPosting headID _)).bind fun _ => .pure _

theorem dbDelete_rises (site : Site) (headID : Nat) : Rises (dbDelete env site headID) :=
  (call_rises site _).bind fun _ =>
    (Rises.whenever (.modify fun s => s.le_setPosting headID _)).bind fun _ => .pure _

theorem dbMerge_rises (site : Site) (headID : Nat) (p : Posting V) :
    Rises (dbMerge env site headID p) :=
  (call_rises site _).bind fun _ =>
    (Rises.whenever (.modify fun s => s.le_setPosting headID _)).bind fun _ => .pure _

theorem searchIndex_rises (resultNum : Nat) (query : V) :
    Rises (searchIndex env resultNum query) := by
  intro s
  have htick : s ≤ { s with tick := s.tick + 1 } := State.le_of_same rfl rfl rfl rfl rfl rfl
  unfold searchIndex
  split
  · exact htick.trans (State.le_lapse _ _)
  · exact htick

theorem kmeansClustering_rises (live : Posting V) : Rises (kmeansClustering env live) := by
  intro s
  have htick : s ≤ { s with tick := s.tick + 1 } := State.le_of_same rfl rfl rfl rfl rfl rfl
  unfold kmeansClustering
  split
  · exact htick.trans (State.le_lapse _ _)
  · exact htick

theorem reassignAsync_rises (e : Entry V) (headPrev : Int) :
    Rises (reassignAsync e headPrev) := .modify fun s => s.le_addJob _

theorem readPosting_rises (site : Site) (headID : Nat) :
    Rises (readPosting env site headID) := by
  refine (dbGet_rises site headID).bind fun p? => ?_
  cases p? with
  | none => exact .pure _
  | some p => exact .get_bind fun _ => .pure _

theorem writePosting_rises (site : Site) (headID : Nat) (p : Posting V) :
    Rises (writePosting env site headID p) :=
  (dbPut_rises site headID p).bind fun _ =>
    .ite ((Rises.modify fun s => s.le_setRecord headID _ _).bind fun _ => .pure _) (.pure _)

theorem reassignOwn_rises (headID : Nat) : Rises (reassignOwn (V := V) headID) := by
  refine .get_bind fun s => ?_
  cases s.ownVector headID with
  | none => exact .pure _
  | some e => exact reassignAsync_rises e (-1)

theorem readKnown_rises (headID : Nat) : Rises (readKnown env headID) := by
  refine (readPosting_rises _ headID).bind fun r => ?_
  cases r with
  | error ret => exact .pure _
  | ok p => exact .get_bind fun _ => .pure _

theorem fetchPosting_rises (headID retries : Nat) : Rises (fetchPosting env headID retries) := by
  induction retries with
  | zero =>
    refine (readKnown_rises headID).bind fun r => ?_
    rcases r with ret | _ | p <;> exact .pure _
  | succ retries ih =>
    refine (readKnown_rises headID).bind fun r => ?_
    rcases r with ret | _ | p
    · exact .pure _
    · exact ih
    · exact .pure _

theorem retireHead_rises (headID : Nat) (theSameHead : Bool) :
    Rises (retireHead env headID theSameHead) :=
  .ite (.pure _) <| (Rises.modify fun s =>
    (s.le_deleteHead headID).trans (State.le_setRecord _ headID 0 0)).bind fun _ =>
      (dbDelete_rises _ headID).bind fun _ => .ite (.pure _) (.pure _)

theorem shrinkPosting_rises (site : Site) (headID : Nat) (p : Posting V) :
    Rises (shrinkPosting env site headID p) := by
  refine (writePosting_rises site headID p).bind fun ret => ?_
  cases ret with
  | success => exact (Rises.modify fun s => s.le_eraseSplit headID).bind fun _ => .pure _
  | _ => exact .pure _

theorem splitAsync_rises (headID : Nat) : Rises (splitAsync env headID) := by
  refine .modify fun s => ?_
  split
  · exact le_refl s
  · exact State.le_of_same rfl rfl rfl rfl rfl rfl

theorem mergeAsync_rises (headID : Nat) : Rises (mergeAsync env headID) := by
  refine .modify fun s => ?_
  split
  · exact le_refl s
  · exact State.le_of_same rfl rfl rfl rfl rfl rfl

theorem headMiss_rises (headID : Nat) (entries : Posting V) :
    Rises (headMiss headID entries) :=
  .get_bind fun _ => .forM _ fun _ => .ite (reassignAsync_rises _ _) (.pure _)

theorem deleteIndex_rises (vid : Int) : Rises (deleteIndex env vid) :=
  .get_bind_at fun s => (s.le_delete vid).trans (State.le_logged _ List.suffix_rfl (.delete vid))

end Calls

section Updates

variable [LinearOrder D] {env : Env V D}

theorem scanReAssign_rises (headID : Nat) (newHeads : Nat × Nat) (isInSplitHead : Bool)
    (entries : List (Nat × Entry V)) (seen : List Int) :
    Rises (scanReAssign env headID newHeads isInSplitHead entries seen) := by
  induction entries generalizing seen with
  | nil => exact .pure _
  | cons e entries ih =>
    exact .get_bind fun _ => .ite ((reassignAsync_rises _ _).bind fun _ => ih _) (ih _)

theorem collectReAssign_rises (headID : Nat) (new₀ new₁ : Nat × Posting V) (same : Bool) :
    Rises (collectReAssign env headID new₀ new₁ same) := by
  have hscan (inSplit : Bool) (entries : List (Nat × Entry V)) (seen : List Int) :
      Rises (scanReAssign env headID (new₀.1, new₁.1) inSplit entries seen) :=
    scanReAssign_rises headID _ inSplit entries seen
  refine (Rises.whenever (reassignOwn_rises headID)).bind fun _ =>
    (hscan true _ []).bind fun seen => .ite (.pure _) (.get_bind fun _ => ?_)
  refine (searchIndex_rises _ _).bind fun _ => (call_rises _ _).bind fun _ => .get_bind fun _ => ?_
  exact .ite (.pure _) (.ite (.pure _) ((hscan false _ seen).discard.bind fun _ => .pure _))

theorem newHead_rises (c : Cluster V) : Rises (newHead env c) := by
  refine .get_bind fun _ => (Rises.modify fun s => s.le_addHead env c).bind fun _ =>
    (dbPut_rises _ _ _).bind fun _ => .ite (.pure _) (.get_bind fun _ => .ite ?_ ?_)
  · exact (Rises.modify fun s => s.le_lapse _).bind fun _ => .pure _
  · exact (Rises.modify fun s => s.le_addRecord _ _ _).bind fun _ => .pure _

theorem placeCluster_rises (headID : Nat) (theSameHead : Bool) (c : Cluster V) :
    Rises (placeCluster env headID theSameHead c) := by
  refine .get_bind fun _ => .ite ?_ ?_
  · refine (writePosting_rises _ headID c.posting).bind fun ret => ?_
    cases ret <;> exact .pure _
  · refine (newHead_rises c).bind fun r => ?_
    cases r <;> exact .pure _

theorem splitTwo_rises (headID : Nat) (reassign : Bool) (c₀ c₁ : Cluster V) :
    Rises (splitTwo env headID reassign c₀ c₁) := by
  refine (placeCluster_rises headID false c₀).bind fun r₀ => ?_
  rcases r₀ with ret | ⟨head₀, same₀⟩
  · exact .pure _
  refine (placeCluster_rises headID same₀ c₁).bind fun r₁ => ?_
  rcases r₁ with ret | ⟨head₁, same⟩
  · exact .pure _
  refine (retireHead_rises headID same).bind fun ret => ?_
  cases ret with
  | success =>
    have hcollect : Rises
        (collectReAssign env headID (head₀, c₀.posting) (head₁, c₁.posting) same) :=
      collectReAssign_rises headID _ _ same
    exact (Rises.modify fun s => s.le_eraseSplit headID).bind fun _ =>
      (Rises.whenever hcollect.discard).bind fun _ => .pure _
  | _ => exact .pure _

theorem split_rises (headID : Nat) (reassign : Bool) : Rises (split env headID reassign) := by
  refine .get_bind fun _ => .ite (.pure _) ((fetchPosting_rises headID 3).bind fun r => ?_)
  cases r with
  | error ret => exact .pure _
  | ok p =>
    refine .get_bind fun s => .ite (shrinkPosting_rises _ headID _)
      ((kmeansClustering_rises _).bind fun c => ?_)
    cases c with
    | one order => exact shrinkPosting_rises _ headID _
    | two c₀ c₁ => exact splitTwo_rises headID reassign c₀ c₁

theorem reassignAbsorbed_rises (survivor retired num : Nat) (absorbed : Posting V) :
    Rises (reassignAbsorbed env survivor retired num absorbed) :=
  .get_bind fun _ =>
    (Rises.forM _ fun _ => .ite (reassignAsync_rises _ _) (.pure _)).bind fun _ =>
      .whenever (reassignOwn_rises retired)

theorem mergeWith_rises (headID : Nat) (reassign : Bool) (p : Posting V) (next : Nat)
    (q : Posting V) : Rises (mergeWith env headID reassign p next q) := by
  have hfail : Rises (do
      modify (State.setLock (V := V) · false)
      pure ErrorCode.fail) :=
    (Rises.modify fun s => s.le_setLock false).bind fun _ => .pure _
  refine .get_bind fun _ => (Rises.modify fun s => s.le_deleteHead _).bind fun _ =>
    (dbPut_rises _ _ _).bind fun _ => .ite hfail ?_
  refine (Rises.modify fun s => (s.le_setRecord next _ _).trans
    (State.le_setRecord _ headID _ _)).bind
    fun _ => (dbDelete_rises _ _).bind fun _ => .ite hfail ?_
  exact (Rises.modify fun s => s.le_setLock false).bind fun _ =>
    (Rises.whenever (reassignAbsorbed_rises _ _ _ _)).bind fun _ =>
      (Rises.modify fun s => s.le_eraseMerge headID).bind fun _ => .pure _

theorem mergeNext_rises (headID : Nat) (reassign : Bool) (p merged : Posting V)
    (results : List Nat) : Rises (mergeNext env headID reassign p merged results) := by
  induction results with
  | nil =>
    refine (writePosting_rises _ headID merged).bind fun ret => ?_
    cases ret with
    | success =>
      exact (Rises.modify fun s => (s.le_eraseMerge headID).trans (State.le_setLock _ false)).bind
        fun _ => .pure _
    | _ => exact .pure _
  | cons next results ih =>
    refine .get_bind fun _ => .ite ((readPosting_rises _ next).bind fun r => ?_) ih
    cases r with
    | error ret => exact (Rises.modify fun s => s.le_setLock false).bind fun _ => .pure _
    | ok q => exact mergeWith_rises headID reassign p next q

theorem mergePostings_rises (headID : Nat) (reassign : Bool) :
    Rises (mergePostings env headID reassign) := by
  refine .get_bind fun _ => .ite ?_ (.ite (.pure _) ?_)
  · exact (Rises.modify fun s => s.le_addJob _).bind fun _ => .pure _
  refine (Rises.modify fun s => s.le_setLock true).bind fun _ =>
    (readPosting_rises _ headID).bind fun r => ?_
  cases r with
  | error ret => exact (Rises.modify fun s => s.le_setLock false).bind fun _ => .pure _
  | ok p =>
    refine .get_bind fun s => .ite ((writePosting_rises _ headID _).bind fun ret => ?_) ?_
    · cases ret with
      | success =>
        exact (Rises.modify fun s => (s.le_eraseMerge headID).trans (State.le_setLock _ false)).bind
          fun _ => .pure _
      | _ => exact (Rises.modify fun s => s.le_setLock false).bind fun _ => .pure _
    · exact (searchIndex_rises _ _).bind fun _ => mergeNext_rises headID reassign p _ _

theorem append_rises (headID : Nat) (entries : Posting V) (reassignThreshold rounds : Nat) :
    Rises (append env headID entries reassignThreshold rounds) := by
  induction rounds with
  | zero => exact (Rises.modify fun s => s.le_lapse _).bind fun _ => .pure _
  | succ rounds ih =>
    refine .get_bind fun _ => .ite ((headMiss_rises headID entries).bind fun _ => .pure _) <|
      .ite ((split_rises headID _).discard.bind fun _ => ih) ?_
    refine (dbMerge_rises _ headID entries).bind fun _ => .ite (.pure _) ?_
    exact (Rises.modify fun s => s.le_setRecord headID _ _).bind fun _ => .get_bind fun _ =>
      (Rises.whenever (.ite (splitAsync_rises headID) (split_rises headID _).discard)).bind
        fun _ => .pure _

theorem reassignAppend_rises (e : Entry V) (selections : List Nat) :
    Rises (reassignAppend env e selections) := by
  induction selections with
  | nil => exact .pure _
  | cons head selections ih =>
    exact .get_bind fun _ => .ite (.pure _) <|
      (append_rises head [e] 3 _).bind fun _ => .ite (.pure _) ih

theorem reassign_rises (vectorInfo : Entry V) (headPrev : Int) :
    Rises (reassign env vectorInfo headPrev) := by
  refine .get_bind fun _ => .ite (.pure _) <|
    (searchIndex_rises _ _).bind fun results => .get_bind_at fun s => ?_
  rcases rngSelection env s.index vectorInfo.vector headPrev results [] with
    ⟨_ | _, selections⟩
  · exact le_refl s
  · exact (s.le_incVersion vectorInfo.vid).trans (reassignAppend_rises _ selections _)

/-- The queue is drained by calls of `Append`, whose states follow one another. -/
theorem drain_le {P S : Type} [Preorder S] {append : S → Nat → P → ErrorCode × S}
    (happend : ∀ s h p, s ≤ (append s h p).2) (fuel : Nat) (st : AsyncState P S) :
    st.store ≤ (AsyncAppend.drain append fuel st).2.store := by
  induction fuel generalizing st with
  | zero => exact le_refl _
  | succ fuel ih =>
    unfold AsyncAppend.drain
    cases tryPop st.queue with
    | none => exact le_refl _
    | some popped =>
      have hle := happend st.store popped.1.headID popped.1.posting
      dsimp only
      split
      · exact hle.trans (ih ⟨popped.2, _, _⟩)
      · exact hle

theorem asyncAppendEntry_rises (headID : Nat) (entries : Posting V) :
    Rises (asyncAppendEntry env headID entries) := by
  intro s
  have hqueue (s' : State V) (q : List (AppendPair (Posting V))) :
      s' ≤ { s' with asyncAppendQueue := q } := State.le_of_same rfl rfl rfl rfl rfl rfl
  refine le_trans ?_ (hqueue _ _)
  unfold AsyncAppend.asyncAppend
  split
  · split
    · exact le_refl s
    · have happend (s : State V) (h : Nat) (p : Posting V) :
          s ≤ (append env h p 0 env.rounds s).2 := append_rises h p 0 env.rounds s
      exact drain_le happend _ ⟨s.asyncAppendQueue, [], s⟩
  · exact le_refl s

theorem addReplica_rises (head : Nat) (e : Entry V) : Rises (addReplica env head e) :=
  .ite (asyncAppendEntry_rises head [e]) (append_rises head [e] 0 _)

theorem addReplicas_rises (e : Entry V) (selections : List Nat) :
    Rises (addReplicas env e selections) := by
  induction selections with
  | nil => exact .pure _
  | cons head selections ih =>
    exact (addReplica_rises head e).bind fun _ => .ite (.pure _) ih

theorem addVectors_rises (vid : Int) (vectors : List V) : Rises (addVectors env vid vectors) := by
  induction vectors generalizing vid with
  | nil => exact .pure _
  | cons vector vectors ih =>
    refine (searchIndex_rises _ _).bind fun _ => .get_bind fun _ => Rises.bind ?_ fun _ =>
      (addReplicas_rises _ _).bind fun _ => .ite (.pure _) (ih _)
    exact .modify fun s => s.le_logged (List.suffix_cons vid s.added) (.insert _)

theorem addIndex_rises (vectors : List V) : Rises (addIndex env vectors) := by
  refine .get_bind_at fun s => ?_
  split
  · exact le_refl s
  split
  · exact le_refl s
  by_cases hfits : s.versionMap.count + vectors.length ≤ s.versionMap.capacity
  · rw [VersionLabel.addBatch_of_le hfits]
    exact (s.le_addBatch vectors.length).trans (addVectors_rises _ vectors _)
  · rw [VersionLabel.addBatch_of_lt (not_le.mp hfits)]
    exact le_refl s

theorem forceGC_rises (rounds headID : Nat) : Rises (forceGC env rounds headID) := by
  induction rounds generalizing headID with
  | zero => exact .modify fun s => s.le_lapse _
  | succ rounds ih =>
    exact .get_bind fun _ => .ite (.pure _) <|
      (Rises.whenever (split_rises headID false).discard).bind fun _ => ih _

theorem execJob_rises (j : Job V) : Rises (execJob env j) := by
  cases j with
  | split headID disableReassign => exact split_rises headID _
  | merge headID disableReassign => exact mergePostings_rises headID _
  | reassign vectorInfo headPrev => exact reassign_rises vectorInfo headPrev

theorem runJob_rises (i : Nat) : Rises (runJob env i) := by
  refine .get_bind fun s => ?_
  cases s.jobs[i]? with
  | none => exact .pure _
  | some j =>
    exact (Rises.modify fun s => s.le_setJobs _).bind fun _ => (execJob_rises j).bind fun _ =>
      .whenever (.modify fun s => s.le_setStatus _)

theorem exec_rises (op : Op V) : Rises (exec env op) := by
  cases op with
  | addIndex vectors => exact (addIndex_rises vectors).discard
  | append headID entries => exact (append_rises headID entries 0 _).discard
  | split headID reassign => exact (split_rises headID reassign).discard
  | reassign vectorInfo headPrev => exact (reassign_rises vectorInfo headPrev).discard
  | mergeAsync headID => exact mergeAsync_rises headID
  | job i => exact runJob_rises i
  | forceGC => exact forceGC_rises _ 0
  | deleteIndex vid => exact (deleteIndex_rises vid).discard

end Updates

end Sptag.SPANN.Dynamic
