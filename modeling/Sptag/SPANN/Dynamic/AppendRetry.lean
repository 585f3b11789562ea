import Sptag.Lib.Repeat
import Sptag.SPANN.Dynamic.Ledger

/-! When `Append` comes back: it splits a full posting and starts again, whatever has become
of the split. -/

namespace Sptag.SPANN.Dynamic

open COMMON Lib

variable {V D : Type} [LinearOrder D] (env : Env V D) (headID : Nat)

namespace Retry

def Splits (num : Nat) (s : State V) : Prop :=
  s.index.containSample headID = true ∧
    env.opt.postingSizeLimit + env.opt.bufferSizeLimit < s.postingSizes headID + num

def retried (s : State V) : State V := (split env headID (!env.opt.disableReassign) s).2

def Progress (size : Nat) (s : State V) : Prop :=
  s.index.containSample headID = false ∨ s.postingSizes headID < size

/-- `Append` comes back after some retries, with any fuel that covers them, and each of them
was made with progress. -/
structure Returns (entries : Posting V) (reassignThreshold : Nat) (s : State V) : Prop where
  ends : ∃ k, ¬ Splits env headID entries.length ((retried env headID)^[k] s) ∧
    ∀ rounds, k < rounds →
    append env headID entries reassignThreshold rounds s =
      append env headID entries reassignThreshold 1 ((retried env headID)^[k] s)
  progress : ∀ k, Going (Splits env headID entries.length) (retried env headID) s k →
    Progress headID (((retried env headID)^[k] s).postingSizes headID)
      ((retried env headID)^[k + 1] s)

def TakesHead (tick records : Nat) : Prop :=
  env.fails .splitNew tick = false ∧ records < env.opt.recordCapacity

/-- A cluster keeps the head, is written and smaller than the posting was; or both of them get
new heads. -/
def TwoShrink (s : State V) (c₀ c₁ : Cluster V) : Prop :=
  if isSameHead env s headID c₀ then
    env.fails .splitSame s.tick = false ∧ c₀.posting.length < s.postingSizes headID
  else TakesHead env s.tick s.records ∧
    if isSameHead env s headID c₁ then
      env.fails .splitSame (s.tick + 1) = false ∧ c₁.posting.length < s.postingSizes headID
    else TakesHead env (s.tick + 1) (s.records + 1)

def ClustersShrink (live : Posting V) (s : State V) : Prop :=
  match env.kmeans s.tick live with
  | .one order => env.fails .splitCut (s.tick + 1) = false ∧
      (order.take (if env.opt.oneClusterCutMax then env.opt.postingSizeLimit else 1)).length <
        s.postingSizes headID
  | .two c₀ c₁ => TwoShrink env headID { s with tick := s.tick + 1 } c₀ c₁

def Shrinks (s : State V) : Prop :=
  ∃ p s₁, fetchPosting env headID 3 s = (.ok p, s₁) ∧
    if (s₁.live p).length < env.opt.postingSizeLimit then
      env.fails .splitGC s₁.tick = false ∧ (s₁.live p).length < s.postingSizes headID
    else ClustersShrink env headID (s₁.live p) s₁

section Steps

variable {env headID}

structure Frame (headID : Nat) (s s' : State V) : Prop where
  contained : s'.index.containSample headID = s.index.containSample headID
  sample : s'.index.sample headID = s.index.sample headID
  size : s'.postingSizes headID = s.postingSizes headID

theorem Frame.of_ledger {s s' : State V} (h : s'.ledger = s.ledger) : Frame headID s s' := by
  have hindex : s'.index = s.index := congrArg Ledger.index h
  have hsizes : s'.postingSizes = s.postingSizes := congrArg Ledger.postingSizes h
  exact ⟨by rw [hindex], by rw [hindex], by rw [hsizes]⟩

theorem Frame.of_keeps {A : Type} {m : Upd V A} (hm : Keeps State.books m) (s : State V) :
    Frame headID s (m s).2 := .of_ledger (congrArg Prod.fst (hm s))

theorem isSameHead_eq {s s' : State V} (h : Frame headID s s') (c : Cluster V) :
    isSameHead env s' headID c = isSameHead env s headID c := by
  rw [isSameHead, isSameHead, h.sample]

theorem Frame.not_progress {s s' : State V} (h : Frame headID s s')
    (hc : s.index.containSample headID = true) : ¬ Progress headID (s.postingSizes headID) s' := by
  rintro (hgone | hlt)
  · exact absurd (hgone.symm.trans (h.contained.trans hc)) Bool.false_ne_true
  · exact absurd (h.size.symm.trans_lt hlt) (Nat.lt_irrefl _)

theorem progress_iff_of_kept {s : State V} (hc : s.index.containSample headID = true) (size : Nat) :
    Progress headID size s ↔ s.postingSizes headID < size :=
  or_iff_right fun hgone => absurd (hgone.symm.trans hc) Bool.false_ne_true

variable {site : Site} {p : Posting V} {s : State V}

omit [LinearOrder D] in
theorem call_fails {serves : State V → Bool} (hfails : env.fails site s.tick = true) :
    call env site serves s = (false, (s.ticked 1).lapse (.fault site)) := by
  simp [call, hfails, State.ticked]

omit [LinearOrder D] in
theorem writePosting_cases (env : Env V D) (site : Site) (headID : Nat) (p : Posting V)
    (s : State V) :
    (env.fails site s.tick = true ∧ ∃ s', writePosting env site headID p s = (.fail, s') ∧
      Frame headID s s') ∨
    (env.fails site s.tick = false ∧ ∃ s', writePosting env site headID p s = (.success, s') ∧
      s'.index = s.index ∧ s'.postingSizes headID = p.length) := by
  cases hfails : env.fails site s.tick with
  | true =>
    have hput : dbPut env site headID p s = (false, (s.ticked 1).lapse (.fault site)) :=
      bind_eq_of_eq (call_fails hfails)
    exact .inl ⟨rfl, _, bind_eq_of_eq hput, ⟨rfl, rfl, rfl⟩⟩
  | false =>
    have hput : dbPut env site headID p s = (true, (s.ticked 1).setPosting headID (some p)) :=
      bind_eq_of_eq (call_served hfails rfl)
    exact .inr ⟨rfl, _, bind_eq_of_eq hput, rfl, Function.update_self _ _ _⟩

omit [LinearOrder D] in
theorem shrinkPosting_progress (hc : s.index.containSample headID = true) :
    Progress headID (s.postingSizes headID) (shrinkPosting env site headID p s).2 ↔
      env.fails site s.tick = false ∧ p.length < s.postingSizes headID := by
  rcases writePosting_cases env site headID p s with
    ⟨hfails, s', hwrite, hframe⟩ | ⟨hserved, s', hwrite, hindex, hsize⟩
  · have hrun : shrinkPosting env site headID p s = (.fail, s') := bind_eq_of_eq hwrite
    rw [hrun, hfails]
    exact iff_of_false (hframe.not_progress hc) fun h => Bool.false_ne_true h.1.symm
  · have hrun : shrinkPosting env site headID p s = (.success, s'.eraseSplit headID) :=
      bind_eq_of_eq hwrite
    have hc' : (s'.eraseSplit headID).index.containSample headID = true := by
      rw [← hc, ← hindex]
      rfl
    rw [hrun, progress_iff_of_kept hc', ← hsize, hserved]
    exact (and_iff_right rfl).symm

variable (env) in
omit [LinearOrder D] in
theorem newHead_cases (hc : s.index.containSample headID = true) (c : Cluster V) :
    (TakesHead env s.tick s.records ∧ ∃ begin s', newHead env c s = (.ok begin, s') ∧
      Frame headID s s' ∧ s'.tick = s.tick + 1 ∧ s'.records = s.records + 1) ∨
    (¬ TakesHead env s.tick s.records ∧ ∃ ret s', newHead env c s = (.error ret, s') ∧
      Frame headID s s') := by
  have hne : headID ≠ s.index.num := by
    rintro rfl
    simp [HeadIndex.containSample] at hc
  have hadd : Frame headID s (s.addHead env c) := by
    refine ⟨?_, ?_, ?_⟩
    · rw [addHead_index, HeadIndex.containSample_addIndexId _ hne]
    · rw [addHead_index]
      exact Function.update_of_ne hne _ _
    · unfold State.addHead
      split
      · rfl
      · rfl
  have htick : (s.addHead env c).tick = s.tick ∧ (s.addHead env c).records = s.records := by
    unfold State.addHead
    split
    · exact ⟨rfl, rfl⟩
    · exact ⟨rfl, rfl⟩
  rw [newHead, get_bind_apply, modify_bind_apply]
  cases hfails : env.fails .splitNew s.tick with
  | true =>
    have hput : dbPut env .splitNew s.index.num c.posting (s.addHead env c) =
        (false, ((s.addHead env c).ticked 1).lapse (.fault .splitNew)) :=
      bind_eq_of_eq (call_fails (by rw [htick.1, hfails]))
    rw [bind_eq_of_eq hput]
    exact .inr ⟨fun h => Bool.false_ne_true (h.1.symm.trans hfails), _, _, rfl,
      ⟨hadd.contained, hadd.sample, hadd.size⟩⟩
  | false =>
    have hput : dbPut env .splitNew s.index.num c.posting (s.addHead env c) =
        (true, ((s.addHead env c).ticked 1).setPosting s.index.num (some c.posting)) :=
      bind_eq_of_eq (call_served (by rw [htick.1, hfails]) rfl)
    rw [bind_eq_of_eq hput, if_neg (by simp), get_bind_apply]
    have hrecords : (((s.addHead env c).ticked 1).setPosting s.index.num (some c.posting)).records =
      s.records := htick.2
    rw [hrecords]
    split
    · rename_i hfull
      exact .inr ⟨fun h => Nat.not_lt.mpr hfull h.2, _, _, rfl,
        ⟨hadd.contained, hadd.sample, hadd.size⟩⟩
    · rename_i hroom
      refine .inl ⟨⟨hfails, Nat.not_le.mp hroom⟩, _, _, rfl,
        ⟨hadd.contained, hadd.sample, ?_⟩, ?_, ?_⟩
      · exact (Function.update_of_ne hne _ _).trans hadd.size
      · exact congrArg (· + 1) htick.1
      · exact congrArg (· + 1) htick.2

def settleSplit (env : Env V D) (headID : Nat) (reassign : Bool) (new₀ new₁ : Nat × Posting V)
    (same : Bool) : ErrorCode → Upd V ErrorCode
  | .success => do
    modify (·.eraseSplit headID)
    whenever reassign (discard (collectReAssign env headID new₀ new₁ same))
    pure .success
  | ret => pure ret

theorem splitTwo_eq (reassign : Bool) (c₀ c₁ : Cluster V) : splitTwo env headID reassign c₀ c₁ = (do
    match ← placeCluster env headID false c₀ with
    | .error ret => pure ret
    | .ok (head₀, same₀) =>
      match ← placeCluster env headID same₀ c₁ with
      | .error ret => pure ret
      | .ok (head₁, same) =>
        retireHead env headID same >>=
          settleSplit env headID reassign (head₀, c₀.posting) (head₁, c₁.posting) same) := by
  unfold splitTwo settleSplit
  rfl

variable (env headID) in
theorem settleSplit_keeps (reassign same : Bool) (new₀ new₁ : Nat × Posting V) (ret : ErrorCode) :
    Keeps State.ledger (settleSplit env headID reassign new₀ new₁ same ret) := by
  have hcollect : Keeps State.ledger
      (whenever reassign (discard (collectReAssign env headID new₀ new₁ same))) := by
    have hbooks : Keeps State.books (collectReAssign env headID new₀ new₁ same) :=
      collectReAssign_keeps_books headID new₀ new₁ same
    exact Keeps.whenever fun s => congrArg Prod.fst (hbooks s)
  cases ret with
  | success => exact Keeps.bind (.modify fun _ => rfl) fun _ => hcollect.bind fun _ => .pure _
  | _ => exact .pure _

variable (env headID) in
omit [LinearOrder D] in
theorem retireHead_gone (s : State V) :
    (retireHead env headID false s).2.index.containSample headID = false := by
  have hcall : Keeps State.index (call env .splitDelete fun s => (s.db headID).isSome) := by
    intro s
    unfold call
    split
    · rfl
    · rfl
  have hdelete : Keeps State.index (dbDelete env .splitDelete headID) :=
    hcall.bind fun ok => Keeps.bind (.whenever (.modify fun _ => rfl)) fun _ => .pure ok
  have hrest : Keeps State.index (dbDelete env .splitDelete headID >>= fun ok =>
      if ok then pure ErrorCode.success else pure ErrorCode.fail) :=
    hdelete.bind fun ok => .ite (.pure _) (.pure _)
  have hindex : (retireHead env headID false s).2.index = (s.deleteHead headID).index :=
    hrest ((s.deleteHead headID).setRecord headID 0 0)
  rw [hindex]
  exact HeadIndex.containSample_deleteIndex_self

variable (env headID) in
theorem settled (reassign same : Bool) (new₀ new₁ : Nat × Posting V) (s : State V) :
    let s' := ((retireHead env headID same >>=
      settleSplit env headID reassign new₀ new₁ same) s).2
    if same then Frame headID s s' else s'.index.containSample headID = false := by
  have hsettle := fun ret => settleSplit_keeps env headID reassign same new₀ new₁ ret
  cases same with
  | true => exact Frame.of_ledger (hsettle .success s)
  | false =>
    have hledger := hsettle (retireHead env headID false s).1 (retireHead env headID false s).2
    have hindex := congrArg Ledger.index hledger
    have hgone := retireHead_gone env headID s
    exact (congrArg (·.containSample headID) hindex).trans hgone

variable (env) in
theorem placeCluster_cases (hc : s.index.containSample headID = true) (same : Bool)
    (c : Cluster V) :
    ((!same && isSameHead env s headID c) = true ∧ env.fails .splitSame s.tick = false ∧
      ∃ s', placeCluster env headID same c s = (.ok (headID, true), s') ∧
        s'.index = s.index ∧ s'.postingSizes headID = c.posting.length) ∨
    ((!same && isSameHead env s headID c) = false ∧ TakesHead env s.tick s.records ∧
      ∃ begin s', placeCluster env headID same c s = (.ok (begin, same), s') ∧
        Frame headID s s' ∧ s'.tick = s.tick + 1 ∧ s'.records = s.records + 1) ∨
    (((!same && isSameHead env s headID c) = true → env.fails .splitSame s.tick = true) ∧
      ((!same && isSameHead env s headID c) = false → ¬ TakesHead env s.tick s.records) ∧
      ∃ ret s', placeCluster env headID same c s = (.error ret, s') ∧ Frame headID s s') := by
  cases hsame : (!same && isSameHead env s headID c) with
  | true =>
    rcases writePosting_cases env .splitSame headID c.posting s with
      ⟨hfails, s', hwrite, hframe⟩ | ⟨hserved, s', hwrite, hindex, hsize⟩
    · refine .inr (.inr ⟨fun _ => hfails, fun h => Bool.noConfusion h, .fail, s', ?_, hframe⟩)
      rw [placeCluster, get_bind_apply, if_pos hsame, bind_eq_of_eq hwrite]
      rfl
    · refine .inl ⟨rfl, hserved, s', ?_, hindex, hsize⟩
      rw [placeCluster, get_bind_apply, if_pos hsame, bind_eq_of_eq hwrite]
      rfl
  | false =>
    rcases newHead_cases env hc c with
      ⟨htakes, begin, s', hnew, hframe, htick, hrecords⟩ | ⟨hnot, ret, s', hnew, hframe⟩
    · refine .inr (.inl ⟨rfl, htakes, begin, s', ?_, hframe, htick, hrecords⟩)
      rw [placeCluster, get_bind_apply, if_neg (by simp [hsame]), bind_eq_of_eq hnew]
      rfl
    · refine .inr (.inr ⟨fun h => Bool.noConfusion h, fun _ => hnot, ret, s', ?_, hframe⟩)
      rw [placeCluster, get_bind_apply, if_neg (by simp [hsame]), bind_eq_of_eq hnew]
      rfl

theorem Frame.trans {s s' s'' : State V} (h : Frame headID s s') (h' : Frame headID s' s'') :
    Frame headID s s'' :=
  ⟨h'.contained.trans h.contained, h'.sample.trans h.sample, h'.size.trans h.size⟩

def secondCluster (env : Env V D) (headID : Nat) (reassign : Bool) (new₀ : Nat × Posting V)
    (c₁ : Cluster V) (same₀ : Bool) : Upd V ErrorCode := do
  match ← placeCluster env headID same₀ c₁ with
  | .error ret => pure ret
  | .ok (head₁, same) =>
    retireHead env headID same >>= settleSplit env headID reassign new₀ (head₁, c₁.posting) same

theorem splitTwo_of_placed {reassign : Bool} {c₀ c₁ : Cluster V} {head₀ : Nat} {same₀ : Bool}
    {s' : State V} (h : placeCluster env headID false c₀ s = (.ok (head₀, same₀), s')) :
    splitTwo env headID reassign c₀ c₁ s =
      secondCluster env headID reassign (head₀, c₀.posting) c₁ same₀ s' := by
  rw [splitTwo_eq]
  exact bind_eq_of_eq h

variable (env) in
theorem secondCluster_kept (hc : s.index.containSample headID = true) (reassign : Bool)
    (new₀ : Nat × Posting V) (c₁ : Cluster V) :
    Frame headID s (secondCluster env headID reassign new₀ c₁ true s).2 := by
  rcases placeCluster_cases env hc true c₁ with
    ⟨hsame, -⟩ | ⟨-, -, begin, s', hplace, hframe, -, -⟩ | ⟨-, -, ret, s', hplace, hframe⟩
  · cases hsame
  · have hrun : secondCluster env headID reassign new₀ c₁ true s =
        (retireHead env headID true >>=
          settleSplit env headID reassign new₀ (begin, c₁.posting) true) s' :=
      bind_eq_of_eq hplace
    rw [hrun]
    exact hframe.trans (settled env headID reassign true new₀ (begin, c₁.posting) s')
  · have hrun : secondCluster env headID reassign new₀ c₁ true s = (ret, s') := bind_eq_of_eq hplace
    rw [hrun]
    exact hframe

variable (env) in
theorem secondCluster_progress (hc : s.index.containSample headID = true) (reassign : Bool)
    (new₀ : Nat × Posting V) (c₁ : Cluster V) :
    Progress headID (s.postingSizes headID) (secondCluster env headID reassign new₀ c₁ false s).2 ↔
      if isSameHead env s headID c₁ then
        env.fails .splitSame s.tick = false ∧ c₁.posting.length < s.postingSizes headID
      else TakesHead env s.tick s.records := by
  rcases placeCluster_cases env hc false c₁ with
    ⟨hsame, hserved, s', hplace, hindex, hsize⟩ | ⟨hsame, htakes, begin, s', hplace, -, -, -⟩ |
    ⟨hfails, hfull, ret, s', hplace, hframe⟩
  · have hrun : secondCluster env headID reassign new₀ c₁ false s =
        (retireHead env headID true >>=
          settleSplit env headID reassign new₀ (headID, c₁.posting) true) s' :=
      bind_eq_of_eq hplace
    have hframe := settled env headID reassign true new₀ (headID, c₁.posting) s'
    have hc' := hframe.contained.trans ((congrArg (·.containSample headID) hindex).trans hc)
    have hsame' : isSameHead env s headID c₁ = true := hsame
    rw [hrun, progress_iff_of_kept hc', hframe.size, hsize, if_pos hsame', hserved]
    exact (and_iff_right rfl).symm
  · have hrun : secondCluster env headID reassign new₀ c₁ false s =
        (retireHead env headID false >>=
          settleSplit env headID reassign new₀ (begin, c₁.posting) false) s' :=
      bind_eq_of_eq hplace
    have hnot : ¬ isSameHead env s headID c₁ = true :=
      fun h => Bool.false_ne_true (hsame.symm.trans h)
    rw [hrun, if_neg hnot]
    exact iff_of_true (.inl (settled env headID reassign false new₀ (begin, c₁.posting) s')) htakes
  · have hrun : secondCluster env headID reassign new₀ c₁ false s = (ret, s') :=
      bind_eq_of_eq hplace
    rw [hrun]
    refine iff_of_false (hframe.not_progress hc) ?_
    split
    · exact fun h => Bool.false_ne_true (h.1.symm.trans (hfails ‹_›))
    · exact hfull (Bool.eq_false_of_not_eq_true ‹_›)

theorem splitTwo_progress (hc : s.index.containSample headID = true) (reassign : Bool)
    (c₀ c₁ : Cluster V) :
    Progress headID (s.postingSizes headID) (splitTwo env headID reassign c₀ c₁ s).2 ↔
      TwoShrink env headID s c₀ c₁ := by
  rw [TwoShrink]
  rcases placeCluster_cases env hc false c₀ with
    ⟨hsame, hserved, s', hplace, hindex, hsize⟩ |
    ⟨hsame, htakes, begin, s', hplace, hframe, htick, hrecords⟩ |
    ⟨hfails, hfull, ret, s', hplace, hframe⟩
  · have hc' : s'.index.containSample headID = true := by rwa [hindex]
    have hkept := secondCluster_kept env hc' reassign (headID, c₀.posting) c₁
    have hsame' : isSameHead env s headID c₀ = true := hsame
    rw [splitTwo_of_placed hplace, progress_iff_of_kept (hkept.contained.trans hc'),
      hkept.size, hsize,
      if_pos hsame', hserved]
    exact (and_iff_right rfl).symm
  · have hc' := hframe.contained.trans hc
    have hnot : ¬ isSameHead env s headID c₀ = true :=
      fun h => Bool.false_ne_true (hsame.symm.trans h)
    have hsecond := secondCluster_progress env hc' reassign (begin, c₀.posting) c₁
    rw [hframe.size, isSameHead_eq hframe, htick, hrecords] at hsecond
    rw [splitTwo_of_placed hplace, hsecond, if_neg hnot]
    exact (and_iff_right htakes).symm
  · have hrun : splitTwo env headID reassign c₀ c₁ s = (ret, s') := bind_eq_of_eq hplace
    rw [hrun]
    refine iff_of_false (hframe.not_progress hc) ?_
    split
    · exact fun h => Bool.false_ne_true (h.1.symm.trans (hfails ‹_›))
    · exact fun h => hfull (Bool.eq_false_of_not_eq_true ‹_›) h.1

def splitClusters (env : Env V D) (headID : Nat) (reassign : Bool) (live : Posting V) :
    Upd V ErrorCode := do
  match ← kmeansClustering env live with
  | .one order =>
    shrinkPosting env .splitCut headID
      (order.take (if env.opt.oneClusterCutMax then env.opt.postingSizeLimit else 1))
  | .two c₀ c₁ => splitTwo env headID reassign c₀ c₁

theorem splitClusters_progress (hc : s.index.containSample headID = true) (reassign : Bool)
    (live : Posting V) :
    Progress headID (s.postingSizes headID) (splitClusters env headID reassign live s).2 ↔
      ClustersShrink env headID live s := by
  rw [ClustersShrink]
  cases hkmeans : env.kmeans s.tick live with
  | one order =>
    have hrun : kmeansClustering env live s = (.one order, (s.ticked 1).lapse .single) := by
      rw [kmeansClustering, hkmeans]
      rfl
    rw [splitClusters, bind_eq_of_eq hrun]
    exact shrinkPosting_progress (s := (s.ticked 1).lapse .single) hc
  | two c₀ c₁ =>
    have hrun : kmeansClustering env live s = (.two c₀ c₁, s.ticked 1) := by
      rw [kmeansClustering, hkmeans]
      rfl
    rw [splitClusters, bind_eq_of_eq hrun]
    exact splitTwo_progress (s := s.ticked 1) hc reassign c₀ c₁

theorem split_of_fetched (hc : s.index.containSample headID = true) (reassign : Bool) {s₁ : State V}
    (hfetch : fetchPosting env headID 3 s = (.ok p, s₁)) :
    split env headID reassign s =
      (if (s₁.live p).length < env.opt.postingSizeLimit then
        shrinkPosting env .splitGC headID (s₁.live p)
      else splitClusters env headID reassign (s₁.live p)) s₁ := by
  rw [split, get_bind_apply, if_neg (by simp [hc]), bind_eq_of_eq hfetch]
  rfl

theorem split_progress (hc : s.index.containSample headID = true) (reassign : Bool) :
    Progress headID (s.postingSizes headID) (split env headID reassign s).2 ↔
      Shrinks env headID s := by
  have hframe : Frame headID s (fetchPosting env headID 3 s).2 :=
    Frame.of_keeps (fetchPosting_keeps_books headID 3) s
  rcases hfetch : fetchPosting env headID 3 s with ⟨r, s₁⟩
  rw [hfetch] at hframe
  cases r with
  | error ret =>
    have hrun : split env headID reassign s = (ret, s₁) := by
      rw [split, get_bind_apply, if_neg (by simp [hc]), bind_eq_of_eq hfetch]
      rfl
    rw [hrun]
    refine iff_of_false (hframe.not_progress hc) ?_
    rintro ⟨p, s₂, hok, -⟩
    rw [hfetch] at hok
    cases hok
  | ok p =>
    have hc' := hframe.contained.trans hc
    have hshrinks : Shrinks env headID s ↔
        if (s₁.live p).length < env.opt.postingSizeLimit then
          env.fails .splitGC s₁.tick = false ∧ (s₁.live p).length < s.postingSizes headID
        else ClustersShrink env headID (s₁.live p) s₁ := by
      constructor
      · rintro ⟨q, s₂, hok, hrest⟩
        rw [hfetch] at hok
        cases hok
        exact hrest
      · exact fun h => ⟨p, s₁, hfetch, h⟩
    rw [hshrinks, split_of_fetched hc reassign hfetch, ← hframe.size]
    split
    · exact shrinkPosting_progress hc'
    · exact splitClusters_progress hc' reassign _

theorem split_of_unread (hc : s.index.containSample headID = true) (reassign : Bool)
    (hfails : env.fails .splitGet s.tick = true) :
    ∃ s', split env headID reassign s = (.fail, s') ∧ Frame headID s s' := by
  have hget : dbGet env .splitGet headID s = (none, (s.ticked 1).lapse (.fault .splitGet)) :=
    bind_eq_of_eq (call_fails hfails)
  have hread : readPosting env .splitGet headID s =
      (.error .fail, (s.ticked 1).lapse (.fault .splitGet)) := bind_eq_of_eq hget
  have hknown : readKnown env headID s = (.error .fail, (s.ticked 1).lapse (.fault .splitGet)) :=
    bind_eq_of_eq hread
  have hfetch : fetchPosting env headID 3 s =
    (.error .fail, (s.ticked 1).lapse (.fault .splitGet)) :=
    bind_eq_of_eq hknown
  refine ⟨(s.ticked 1).lapse (.fault .splitGet), ?_, ⟨rfl, rfl, rfl⟩⟩
  rw [split, get_bind_apply, if_neg (by simp [hc]), bind_eq_of_eq hfetch]
  rfl

end Steps

section Append

variable {env headID} {entries : Posting V} {reassignThreshold : Nat}

theorem append_of_splits {s : State V} (h : Splits env headID entries.length s) (rounds : Nat) :
    append env headID entries reassignThreshold (rounds + 1) s =
      append env headID entries reassignThreshold rounds (retried env headID s) := by
  rw [append, get_bind_apply, if_neg (by simp [h.1]), if_pos h.2]
  rfl

theorem append_of_not_splits {s : State V} (h : ¬ Splits env headID entries.length s)
    (rounds : Nat) :
    append env headID entries reassignThreshold (rounds + 1) s =
      append env headID entries reassignThreshold 1 s := by
  rw [append, append, get_bind_apply, get_bind_apply]
  by_cases hc : s.index.containSample headID = true
  · have hfits : ¬ env.opt.postingSizeLimit + env.opt.bufferSizeLimit <
        s.postingSizes headID + entries.length := fun hlt => h ⟨hc, hlt⟩
    simp only [hc, Bool.not_true, Bool.false_eq_true, if_false, if_neg hfits]
  · simp only [Bool.eq_false_of_not_eq_true hc, Bool.not_false, if_true]

end Append

def unread : Env Unit Nat :=
  { Env.plain plainOptions ⟨0, true⟩ with fails := fun site _ => site == .splitGet }

def full : State Unit :=
  { State.start ⟨1, fun _ => (), fun _ => false⟩ (.ofLabels [0, 0, 0, 0] 0 8) fun _ => none with
    db := fun _ => some [⟨0, 0, ()⟩, ⟨1, 0, ()⟩, ⟨2, 0, ()⟩]
    postingSizes := fun _ => 3 }

end Retry

end Sptag.SPANN.Dynamic
