import Sptag.SPANN.Dynamic.Corruption
import Sptag.SPANN.Dynamic.Refine

/-! The recorded sizes and checksums against the stored postings. Every operation keeps
them in step while the calls of the store succeed and the records can grow. -/

namespace Sptag.SPANN.Dynamic

open COMMON Lib

variable {V D : Type}

structure Ledger (V : Type) where
  index : HeadIndex V
  db : Nat → Option (Posting V)
  postingSizes : Nat → Nat
  checkSums : Nat → ChecksumType
  records : Nat

def Lapse.rowless : Lapse → Bool
  | .fault .splitNew => true
  | .fault .addBatch => true
  | _ => false

namespace State

def ledger (s : State V) : Ledger V := ⟨s.index, s.db, s.postingSizes, s.checkSums, s.records⟩

def overflows (s : State V) : List Lapse := s.lapses.filter Lapse.rowless

end State

structure Ledger.Recorded (env : Env V D) (l : Ledger V) (h : Nat) (p : Posting V) : Prop where
  stored : l.db h = some p
  size : l.postingSizes h = p.length
  checksum : l.checkSums h = env.calcChecksum p

structure Ledger.Matched (env : Env V D) (l : Ledger V) : Prop where
  rows : l.records = l.index.num
  recorded : ∀ h, l.index.containSample h = true → ∃ p, l.Recorded env h p

variable {env : Env V D}

section Calls

variable {P : Ledger V → Prop} {site : Site} {h : Nat}

abbrev State.books (s : State V) : Ledger V × List Lapse := (s.ledger, s.overflows)

theorem books_lapse (s : State V) {l : Lapse} (hl : l.rowless = false) :
    (s.lapse l).books = s.books := by
  simp [State.books, State.ledger, State.overflows, State.lapse, hl]

theorem call_keeps_books (hsite : (Lapse.fault site).rowless = false) (serves : State V → Bool) :
    Keeps State.books (call env site serves) := by
  intro s
  unfold call
  split
  · exact books_lapse _ hsite
  · rfl

theorem dbGet_keeps_books (hsite : (Lapse.fault site).rowless = false) (h : Nat) :
    Keeps State.books (dbGet env site h) :=
  (call_keeps_books hsite _).bind fun _ => .get_bind fun _ => .pure _

theorem readPosting_keeps_books (hsite : (Lapse.fault site).rowless = false) (h : Nat) :
    Keeps State.books (readPosting env site h) := by
  refine (dbGet_keeps_books hsite h).bind fun r => ?_
  cases r with
  | none => exact .pure _
  | some p => exact .get_bind fun _ => .pure _

theorem searchIndex_keeps_books (n : Nat) (q : V) : Keeps State.books (searchIndex env n q) := by
  intro s
  unfold searchIndex
  split
  · exact books_lapse _ rfl
  · rfl

theorem kmeansClustering_keeps_books (live : Posting V) :
    Keeps State.books (kmeansClustering env live) := by
  intro s
  unfold kmeansClustering
  split
  · exact books_lapse _ rfl
  · rfl

theorem readKnown_keeps_books (h : Nat) : Keeps State.books (readKnown env h) := by
  refine (readPosting_keeps_books rfl h).bind fun r => ?_
  cases r with
  | error ret => exact .pure _
  | ok p => exact .get_bind fun _ => .pure _

theorem fetchPosting_keeps_books (h retries : Nat) :
    Keeps State.books (fetchPosting env h retries) := by
  induction retries with
  | zero =>
    refine (readKnown_keeps_books h).bind fun r => ?_
    match r with
    | .error _ => exact .pure _
    | .ok none => exact .pure _
    | .ok (some _) => exact .pure _
  | succ retries ih =>
    refine (readKnown_keeps_books h).bind fun r => ?_
    match r with
    | .error _ => exact .pure _
    | .ok none => exact ih
    | .ok (some _) => exact .pure _

theorem reassignAsync_keeps_books (e : Entry V) (prev : Int) :
    Keeps State.books (reassignAsync e prev) := .modify fun _ => rfl

theorem reassignOwn_keeps_books (headID : Nat) :
    Keeps State.books (reassignOwn (V := V) headID) := by
  refine .get_bind fun s => ?_
  cases s.ownVector headID with
  | none => exact .pure _
  | some e => exact reassignAsync_keeps_books e (-1)

theorem headMiss_keeps_books (headID : Nat) (entries : Posting V) :
    Keeps State.books (headMiss headID entries) :=
  .get_bind fun _ => .forM entries fun _ => .ite (reassignAsync_keeps_books _ _) (.pure _)

theorem splitAsync_keeps_books (headID : Nat) :
    Keeps State.books (splitAsync (V := V) env headID) := by
  refine .modify fun s => ?_
  split <;> rfl

theorem mergeAsync_keeps_books (headID : Nat) :
    Keeps State.books (mergeAsync (V := V) env headID) := by
  refine .modify fun s => ?_
  split <;> rfl

variable [LinearOrder D]

theorem scanReAssign_keeps_books (headID : Nat) (newHeads : Nat × Nat) (inSplit : Bool)
    (entries : List (Nat × Entry V)) (seen : List Int) :
    Keeps State.books (scanReAssign env headID newHeads inSplit entries seen) := by
  induction entries generalizing seen with
  | nil => exact .pure _
  | cons e entries ih =>
    exact .get_bind fun s => .ite ((reassignAsync_keeps_books _ _).bind fun _ => ih _) (ih seen)

theorem collectReAssign_keeps_books (headID : Nat) (new₀ new₁ : Nat × Posting V) (same : Bool) :
    Keeps State.books (collectReAssign env headID new₀ new₁ same) := by
  refine (Keeps.whenever (reassignOwn_keeps_books headID)).bind fun _ => ?_
  refine (scanReAssign_keeps_books headID _ true _ []).bind fun seen => .ite (.pure _) ?_
  refine .get_bind fun s => (searchIndex_keeps_books _ _).bind fun results => ?_
  refine (call_keeps_books rfl _).bind fun ok => .get_bind fun s => ?_
  refine .ite (.pure _) (.ite (.pure _) ?_)
  exact (scanReAssign_keeps_books headID _ false _ seen).bind fun _ => .pure _

theorem reassignAbsorbed_keeps_books (survivor retired num : Nat) (absorbed : Posting V) :
    Keeps State.books (reassignAbsorbed env survivor retired num absorbed) := by
  refine .get_bind fun s => .bind (.forM _ fun e => .ite (reassignAsync_keeps_books _ _) (.pure _))
    fun _ => ?_
  exact .whenever (reassignOwn_keeps_books retired)

end Calls

namespace Ledger

variable {l l' : Ledger V} {h : Nat} {p : Posting V}

def put (l : Ledger V) (h : Nat) (p : Posting V) : Ledger V :=
  { l with db := Function.update l.db h (some p) }

def record (l : Ledger V) (h size : Nat) (checksum : ChecksumType) : Ledger V :=
  { l with
    postingSizes := Function.update l.postingSizes h size
    checkSums := Function.update l.checkSums h checksum }

theorem Recorded.write (env : Env V D) (l : Ledger V) (h : Nat) (p : Posting V) :
    ((l.put h p).record h p.length (env.calcChecksum p)).Recorded env h p :=
  ⟨by simp [put, record], by simp [record], by simp [record]⟩

@[simp] theorem validate_calcChecksum (p : Posting V) :
  env.validate p (env.calcChecksum p) = true := by
  simp [Env.validate, Env.calcChecksum, Checksum.validateChecksum]

theorem Recorded.frame (hr : l.Recorded env h p) (hdb : l'.db h = l.db h)
    (hsize : l'.postingSizes h = l.postingSizes h) (hsum : l'.checkSums h = l.checkSums h) :
    l'.Recorded env h p :=
  ⟨hdb.trans hr.stored, hsize.trans hr.size, hsum.trans hr.checksum⟩

theorem Recorded.write_of_ne (hr : l.Recorded env h p) {h' : Nat} (hne : h ≠ h') (q : Posting V)
    (size : Nat) (c : ChecksumType) : ((l.put h' q).record h' size c).Recorded env h p :=
  hr.frame (by simp [put, record, hne]) (by simp [put, record, hne]) (by simp [put, record, hne])

theorem Matched.write (hl : l.Matched env) (h : Nat) (p : Posting V) :
    ((l.put h p).record h p.length (env.calcChecksum p)).Matched env := by
  refine ⟨hl.rows, fun h' hc => ?_⟩
  by_cases heq : h' = h
  · subst heq
    exact ⟨p, .write env l h' p⟩
  · obtain ⟨q, hq⟩ := hl.recorded h' hc
    exact ⟨q, hq.write_of_ne heq p _ _⟩

theorem Matched.retire (hl : l.Matched env) (hindex : l'.index = l.index.deleteIndex h)
    (hrecords : l'.records = l.records) (hframe : ∀ g, g ≠ h → l'.db g = l.db g ∧
      l'.postingSizes g = l.postingSizes g ∧ l'.checkSums g = l.checkSums g) :
    l'.Matched env := by
  refine ⟨by rw [hrecords, hl.rows, hindex]; rfl, fun g hc => ?_⟩
  rw [hindex] at hc
  have hne : g ≠ h := by
    rintro rfl
    simp at hc
  rw [HeadIndex.containSample_deleteIndex hne] at hc
  obtain ⟨q, hq⟩ := hl.recorded g hc
  obtain ⟨hdb, hsize, hsum⟩ := hframe g hne
  exact ⟨q, hq.frame hdb hsize hsum⟩

theorem Matched.addHead (hl : l.Matched env) (x : V) (p : Posting V) :
    Matched env
      { ((l.put l.index.num p).record l.index.num p.length (env.calcChecksum p)) with
        index := l.index.addIndexId x
        records := l.records + 1 } := by
  refine ⟨congrArg (· + 1) hl.rows, fun h hc => ?_⟩
  by_cases heq : h = l.index.num
  · subst heq
    obtain ⟨hdb, hsize, hsum⟩ := Recorded.write env l l.index.num p
    exact ⟨p, hdb, hsize, hsum⟩
  · rw [HeadIndex.containSample_addIndexId x heq] at hc
    obtain ⟨q, hq⟩ := hl.recorded h hc
    obtain ⟨hdb, hsize, hsum⟩ := hq.write_of_ne heq p p.length (env.calcChecksum p)
    exact ⟨q, hdb, hsize, hsum⟩

theorem Matched.append (hl : l.Matched env) (hp : l.db h = some p) (es : Posting V) :
    ((l.put h (p ++ es)).record h (l.postingSizes h + es.length)
      (Checksum.appendChecksum (l.checkSums h) (env.bytesOf es))).Matched env := by
  refine ⟨hl.rows, fun g hc => ?_⟩
  by_cases heq : g = h
  · subst heq
    obtain ⟨q, hdb, hsize, hsum⟩ := hl.recorded g hc
    obtain rfl : p = q := Option.some.inj (hp.symm.trans hdb)
    refine ⟨p ++ es, by simp [put, record], by simp [record, hsize, put], ?_⟩
    simp [record, put, hsum, Env.calcChecksum, Checksum.calcChecksum, Checksum.appendChecksum,
      Env.bytesOf, List.flatMap_append, List.foldl_append]
  · obtain ⟨q, hq⟩ := hl.recorded g hc
    exact ⟨q, hq.write_of_ne heq _ _ _⟩

theorem Matched.merge (hl : l.Matched env) (headID next : Nat) (merged : Posting V)
    (keepsHead : Bool) :
    Matched env
      (((Ledger.put { l with index := l.index.deleteIndex (if keepsHead then next else headID) }
        (if keepsHead then headID else next) merged).record next
          (if keepsHead then 0 else merged.length)
          (if keepsHead then 0 else env.calcChecksum merged)
        ).record headID (if keepsHead then merged.length else 0)
          (if keepsHead then env.calcChecksum merged else 0)) := by
  refine ⟨hl.rows, fun g hc => ?_⟩
  have hne : g ≠ if keepsHead then next else headID := by
    rintro rfl
    exact absurd (HeadIndex.containSample_deleteIndex_self.symm.trans hc) Bool.false_ne_true
  obtain ⟨q, hq⟩ := hl.recorded g ((HeadIndex.containSample_deleteIndex hne).symm.trans hc)
  cases keepsHead with
  | true =>
    have hne' : g ≠ next := hne
    by_cases heq : g = headID
    · subst heq
      exact ⟨merged, by simp [record, put], by simp [record], by simp [record]⟩
    · exact ⟨q, hq.frame (by simp [record, put, heq]) (by simp [record, put, heq, hne'])
        (by simp [record, put, heq, hne'])⟩
  | false =>
    have hne' : g ≠ headID := hne
    by_cases heq : g = next
    · subst heq
      exact ⟨merged, by simp [record, put], by simp [record, hne'], by simp [record, hne']⟩
    · exact ⟨q, hq.frame (by simp [record, put, heq]) (by simp [record, put, heq, hne'])
        (by simp [record, put, heq, hne'])⟩

end Ledger

section Operations

def Balanced (env : Env V D) (s : State V) : Prop := s.ledger.Matched env

variable {h : Nat} {p : Posting V} (hok : ∀ site t, env.fails site t = false)

theorem Balanced.of_keeps {A : Type} {m : Upd V A} (hm : Keeps State.books m) :
    Triple State.overflows (Balanced env) m fun _ => Balanced env :=
  hm.triple

include hok

theorem dbPut_served (site : Site) (s : State V) :
    dbPut env site h p s = (true, (s.ticked 1).setPosting h (some p)) :=
  bind_eq_of_eq (call_served (hok site s.tick) rfl)

theorem dbPut_moves {P : State V → Prop} (site : Site) :
    Triple State.overflows P (dbPut env site h p) fun ok s =>
      ok = true ∧ ∃ s', P s' ∧ s.ledger = s'.ledger.put h p := by
  intro s
  rw [dbPut_served hok]
  exact ⟨[], rfl, fun _ hs => ⟨rfl, s, hs, rfl⟩⟩

theorem writePosting_served (site : Site) (s : State V) :
    writePosting env site h p s =
      (.success, ((s.ticked 1).setPosting h (some p)).setRecord h p.length (env.calcChecksum p)) :=
  bind_eq_of_eq (dbPut_served hok site s)

theorem writePosting_balanced (site : Site) :
    Triple State.overflows (Balanced env) (writePosting env site h p) fun ret s =>
      ret = .success ∧ Balanced env s := by
  intro s
  rw [writePosting_served hok]
  exact ⟨[], rfl, fun _ hs => ⟨rfl, hs.write h p⟩⟩

omit hok in
theorem dbDelete_balanced (site : Site) (hsite : (Lapse.fault site).rowless = false) :
    Triple State.overflows (fun s => Balanced env s ∧ s.index.containSample h = false)
      (dbDelete env site h) fun _ => Balanced env := by
  have hcall : Keeps State.books (call env site fun s => (s.db h).isSome) :=
    call_keeps_books hsite _
  refine Triple.bind (Q := fun _ s => Balanced env s ∧ s.index.containSample h = false)
    (Keeps.triple (P := fun l => l.Matched env ∧ l.index.containSample h = false) hcall)
    fun ok => ?_
  refine Triple.bind (.whenever (fun _ => .modify (fun _ => rfl) ?_) fun _ s hs => hs.1)
    fun _ => .pure fun _ hs => hs
  rintro s ⟨hs, hgone⟩
  refine ⟨hs.rows, fun g hc => ?_⟩
  have hne : g ≠ h := by
    rintro rfl
    exact absurd (hgone.symm.trans hc) Bool.false_ne_true
  obtain ⟨q, hq⟩ := hs.recorded g hc
  exact ⟨q, hq.frame (by simp [State.ledger, State.setPosting, hne]) rfl rfl⟩

theorem newHead_balanced (c : Cluster V) :
    Triple State.overflows (Balanced env) (newHead env c) fun _ => Balanced env := by
  intro s
  have hput : dbPut env .splitNew s.index.num c.posting (s.addHead env c) =
      (true, ((s.addHead env c).ticked 1).setPosting s.index.num (some c.posting)) :=
    dbPut_served hok .splitNew _
  have hlog : (s.addHead env c).overflows = s.overflows := by
    unfold State.addHead
    split <;> rfl
  rw [newHead, get_bind_apply, modify_bind_apply, bind_eq_of_eq hput, if_neg (by simp),
    get_bind_apply]
  split
  · exact ⟨[.fault .addBatch], congrArg (_ :: ·) hlog, fun h => absurd h (List.cons_ne_nil _ _)⟩
  · refine ⟨[], hlog, fun _ hs => ?_⟩
    have hadd := Ledger.Matched.addHead hs c.center c.posting
    show Ledger.Matched env _
    unfold State.addHead
    split <;> exact hadd

variable [LinearOrder D]

theorem placeCluster_balanced (same : Bool) (c : Cluster V) :
    Triple State.overflows (Balanced env) (placeCluster env h same c) fun _ => Balanced env := by
  refine Triple.get_bind fun s₀ => .ite (fun _ => ?_) fun _ => ?_
  · refine Triple.bind ((writePosting_balanced hok .splitSame).pre fun s hs => hs.2) fun ret => ?_
    split
    · exact .pure fun s hs => hs.2
    · exact .pure fun s hs => hs.2
  · refine Triple.bind ((newHead_balanced hok c).pre fun s hs => hs.2) fun r => ?_
    cases r with
    | error ret => exact .pure fun s hs => hs
    | ok begin => exact .pure fun s hs => hs

omit hok [LinearOrder D] in
theorem retireHead_balanced (same : Bool) :
    Triple State.overflows (Balanced env) (retireHead env h same) fun _ => Balanced env := by
  refine Triple.ite (fun _ => .pure fun s hs => hs) fun _ => ?_
  refine Triple.bind (Q := fun _ s => Balanced env s ∧ s.index.containSample h = false)
    (.modify (fun _ => rfl) fun s hs => ⟨hs.retire rfl rfl fun g hne => ?_, ?_⟩) fun _ => ?_
  · exact ⟨rfl, by simp [State.ledger, State.setRecord, State.deleteHead, hne],
      by simp [State.ledger, State.setRecord, State.deleteHead, hne]⟩
  · exact HeadIndex.containSample_deleteIndex_self
  · refine (dbDelete_balanced .splitDelete rfl).bind fun ok => ?_
    exact .ite (fun _ => .pure fun s hs => hs) fun _ => .pure fun s hs => hs

theorem splitTwo_balanced (reassign : Bool) (c₀ c₁ : Cluster V) :
    Triple State.overflows (Balanced env) (splitTwo env h reassign c₀ c₁) fun _ =>
      Balanced env := by
  refine (placeCluster_balanced hok false c₀).bind fun r₀ => ?_
  cases r₀ with
  | error ret => exact .pure fun s hs => hs
  | ok r₀ =>
    refine (placeCluster_balanced hok r₀.2 c₁).bind fun r₁ => ?_
    cases r₁ with
    | error ret => exact .pure fun s hs => hs
    | ok r₁ =>
      refine (retireHead_balanced r₁.2).bind fun ret => ?_
      split
      · refine Triple.bind (Q := fun _ => Balanced env) (.modify (fun _ => rfl) fun s hs => hs)
          fun _ => ?_
        refine Triple.bind (.whenever (fun _ => ?_) fun _ s hs => hs) fun _ => .pure fun s hs => hs
        exact Balanced.of_keeps fun s => collectReAssign_keeps_books h _ _ _ s
      · exact .pure fun s hs => hs

omit [LinearOrder D] in
theorem shrinkPosting_balanced (site : Site) :
    Triple State.overflows (Balanced env) (shrinkPosting env site h p) fun _ => Balanced env := by
  refine (writePosting_balanced hok site).bind fun ret => ?_
  split
  · exact Triple.bind (.modify (fun _ => rfl) fun s hs => hs.2) fun _ => .pure fun s hs => hs
  · exact .pure fun s hs => hs.2

theorem split_balanced (reassign : Bool) :
    Triple State.overflows (Balanced env) (split env h reassign) fun _ => Balanced env := by
  refine Triple.get_bind fun s₀ => .ite (fun _ => .pure fun s hs => hs.2) fun _ => ?_
  refine Triple.bind ((Balanced.of_keeps (fetchPosting_keeps_books h 3)).pre fun s hs => hs.2)
    fun r => ?_
  cases r with
  | error ret => exact .pure fun s hs => hs
  | ok p =>
    refine Triple.get_bind fun s₁ => .ite (fun _ => ?_) fun _ => ?_
    · exact (shrinkPosting_balanced hok .splitGC).pre fun s hs => hs.2
    · refine Triple.bind ((Balanced.of_keeps (kmeansClustering_keeps_books _)).pre fun s hs => hs.2)
        fun r => ?_
      cases r with
      | one order => exact shrinkPosting_balanced hok .splitCut
      | two c₀ c₁ => exact splitTwo_balanced hok reassign c₀ c₁

omit hok [LinearOrder D] in
theorem modify_balanced {f : State V → State V} (hf : ∀ s, (f s).books = s.books) :
    Triple State.overflows (Balanced env) (modify f) fun _ => Balanced env :=
  Balanced.of_keeps (.modify hf)

theorem mergeWith_balanced (headID next : Nat) (reassign : Bool) (p q : Posting V) :
    Triple State.overflows (Balanced env) (mergeWith env headID reassign p next q)
      fun _ => Balanced env := by
  refine Triple.get_bind fun s₀ => ?_
  dsimp only
  generalize mergeLive s₀ p q = merged
  generalize hkeeps : decide ((s₀.live q).length < (s₀.live p).length) = keepsHead
  -- From the write of the records on the ledger is in step again.
  let Settled : State V → Prop := fun s =>
    Balanced env s ∧ s.index.containSample (if keepsHead then next else headID) = false
  refine Triple.bind (Q := fun _ s => ∃ s', Balanced env s' ∧
      s.ledger = (s'.deleteHead (if keepsHead then next else headID)).ledger)
    (.modify (fun _ => rfl) fun s hs => ⟨s, hs.2, rfl⟩) fun _ => ?_
  refine (dbPut_moves hok .mergePut).bind fun ok => ?_
  cases ok with
  | false =>
    exact Triple.bind (Q := fun _ => Balanced env)
      (.modify (fun _ => rfl) fun s hs => absurd hs.1 Bool.false_ne_true) fun _ =>
        .pure fun s hs => hs
  | true =>
    refine Triple.bind (Q := fun _ => Settled) (.modify (fun _ => rfl) ?_) fun _ => ?_
    · rintro s ⟨-, s₁, ⟨s₂, hs₂, h₂⟩, h₁⟩
      have hledger := h₁
      rw [h₂] at hledger
      refine ⟨?_, ?_⟩
      · show Ledger.Matched env ((s.ledger.record next _ _).record headID _ _)
        rw [hledger]
        have hmerged := hs₂.merge headID next merged keepsHead
        cases keepsHead <;> exact hmerged
      · have hindex : s.index = s₂.index.deleteIndex (if keepsHead then next else headID) :=
          congrArg Ledger.index hledger
        show s.index.containSample _ = false
        rw [hindex]
        exact HeadIndex.containSample_deleteIndex_self
    · refine (dbDelete_balanced .mergeDelete rfl).bind fun ok => ?_
      refine .ite (fun _ => Triple.bind (modify_balanced fun _ => rfl) fun _ => .pure fun s hs =>
        hs) fun _ => ?_
      refine Triple.bind (modify_balanced fun _ => rfl) fun _ => ?_
      refine Triple.bind (.whenever (fun _ => ?_) fun _ s hs => hs) fun _ =>
        Triple.bind (modify_balanced fun _ => rfl) fun _ => .pure fun s hs => hs
      exact Balanced.of_keeps (reassignAbsorbed_keeps_books _ _ _ _)

theorem mergeNext_balanced (headID : Nat) (reassign : Bool) (p merged : Posting V)
    (results : List Nat) :
    Triple State.overflows (Balanced env) (mergeNext env headID reassign p merged results)
      fun _ => Balanced env := by
  induction results with
  | nil =>
    refine (writePosting_balanced hok .mergeKeep).bind fun ret => ?_
    split
    · exact Triple.bind ((modify_balanced fun _ => rfl).pre fun s hs => hs.2) fun _ =>
        .pure fun s hs => hs
    · exact .pure fun s hs => hs.2
  | cons next results ih =>
    refine Triple.get_bind fun s₀ => .ite (fun _ => ?_) fun _ => ih.pre fun s hs => hs.2
    refine Triple.bind
      ((Balanced.of_keeps (readPosting_keeps_books rfl next)).pre fun s hs => hs.2)
      fun r => ?_
    cases r with
    | error ret => exact Triple.bind (modify_balanced fun _ => rfl) fun _ => .pure fun s hs => hs
    | ok q => exact mergeWith_balanced hok headID next reassign p q

theorem mergePostings_balanced (headID : Nat) (reassign : Bool) :
    Triple State.overflows (Balanced env) (mergePostings env headID reassign)
      fun _ => Balanced env := by
  refine Triple.get_bind fun s₀ => .ite (fun _ => ?_) fun _ =>
    .ite (fun _ => .pure fun s hs => hs.2) fun _ => ?_
  · exact Triple.bind (Q := fun _ => Balanced env) (.modify (fun _ => rfl) fun s hs => hs.2)
      fun _ => .pure fun s hs => hs
  refine Triple.bind (Q := fun _ => Balanced env) (.modify (fun _ => rfl) fun s hs => hs.2)
    fun _ => ?_
  refine (Balanced.of_keeps (readPosting_keeps_books rfl headID)).bind fun r => ?_
  cases r with
  | error ret => exact Triple.bind (modify_balanced fun _ => rfl) fun _ => .pure fun s hs => hs
  | ok p =>
    refine Triple.get_bind fun s₁ => .ite (fun _ => ?_) fun _ => ?_
    · refine ((writePosting_balanced hok .mergeBack).pre fun s hs => hs.2).bind fun ret => ?_
      split
      · exact Triple.bind ((modify_balanced fun _ => rfl).pre fun s hs => hs.2) fun _ =>
          .pure fun s hs => hs
      · exact Triple.bind ((modify_balanced fun _ => rfl).pre fun s hs => hs.2) fun _ =>
          .pure fun s hs => hs
    · refine ((Balanced.of_keeps (searchIndex_keeps_books _ _)).pre fun s hs => hs.2).bind
        fun results => ?_
      exact mergeNext_balanced hok headID reassign p _ _

omit [LinearOrder D] in
theorem dbMerge_appends (es : Posting V) :
    Triple State.overflows (Balanced env) (dbMerge env .appendMerge h es) fun ok s =>
      if ok then ∃ s' p, Balanced env s' ∧ s'.db h = some p ∧ s.ledger = s'.ledger.put h (p ++ es)
      else Balanced env s := by
  intro s
  cases hserves : (s.db h).any (env.validate · (s.checkSums h)) with
  | true =>
    have hcall : call env .appendMerge (fun s => (s.db h).any (env.validate · (s.checkSums h))) s =
        (true, s.ticked 1) := call_served (hok _ _) hserves
    rw [dbMerge, bind_eq_of_eq hcall]
    cases hp : s.db h with
    | none => simp [hp] at hserves
    | some p =>
      refine ⟨[], rfl, fun _ hs => ⟨s, p, hs, hp, ?_⟩⟩
      have hdb : ((s.ticked 1).db h).map (· ++ es) = some (p ++ es) := by
        rw [State.ticked, hp]
        rfl
      show State.ledger (State.setPosting (s.ticked 1) h (((s.ticked 1).db h).map (· ++ es))) = _
      rw [hdb]
      rfl
  | false =>
    have hcall : call env .appendMerge (fun s => (s.db h).any (env.validate · (s.checkSums h))) s =
        (false, (s.ticked 1).lapse (.fault .appendMerge)) := by
      simp [call, hserves, State.ticked]
    rw [dbMerge, bind_eq_of_eq hcall]
    exact ⟨[], rfl, fun _ hs => hs⟩

theorem append_balanced (entries : Posting V) (threshold rounds : Nat) :
    Triple State.overflows (Balanced env) (append env h entries threshold rounds)
      fun _ => Balanced env := by
  induction rounds with
  | zero =>
    exact Triple.bind (modify_balanced fun s => books_lapse s rfl) fun _ =>
      .pure fun s hs => hs
  | succ rounds ih =>
    refine Triple.get_bind fun s₀ => .ite (fun _ => ?_) fun _ => .ite (fun _ => ?_) fun _ => ?_
    · exact Triple.bind ((Balanced.of_keeps (headMiss_keeps_books h entries)).pre fun s hs => hs.2)
        fun _ => .pure fun s hs => hs
    · exact Triple.bind ((split_balanced hok _).pre fun s hs => hs.2) fun _ => ih
    · refine Triple.bind ((dbMerge_appends hok entries).pre fun s hs => hs.2) fun ok => ?_
      cases ok with
      | false => exact .pure fun s hs => hs
      | true =>
        refine Triple.bind (Q := fun _ => Balanced env) (.modify (fun _ => rfl) ?_) fun _ => ?_
        · rintro s ⟨s', p, hs', hp, hledger⟩
          have happ := hs'.append hp entries
          have hsize : s.postingSizes = s'.postingSizes := congrArg Ledger.postingSizes hledger
          have hsum : s.checkSums = s'.checkSums := congrArg Ledger.checkSums hledger
          show Ledger.Matched env (s.ledger.record h _ _)
          rw [hledger, hsize, hsum]
          exact happ
        · refine Triple.get_bind fun s₁ =>
            Triple.bind (.pre (.whenever (fun _ => ?_) fun _ s hs => hs)
            fun s hs => hs.2) fun _ => .pure fun s hs => hs
          refine .ite (fun _ => Balanced.of_keeps (splitAsync_keeps_books h)) fun _ => ?_
          exact (split_balanced hok _).discard

end Operations

section Refine

structure Rewritten (env : Env V D) (l₀ : Ledger V) (done : List Nat) (acc : Rewriting)
    (l : Ledger V) : Prop where
  before : l₀.Matched env
  index : l.index = l₀.index
  checkSums : l.checkSums = l₀.checkSums
  untouched : ∀ h, l₀.index.containSample h = true → h ∉ done → l.db h = l₀.db h
  written : ∀ h ∈ done, l₀.index.containSample h = true →
    ∃ q, l.db (l₀.index.newId h) = some q ∧
      acc.postingSizes (l₀.index.newId h) = q.length ∧
      acc.checkSums (l₀.index.newId h) = env.calcChecksum q
  success : acc.finalcode = .success

variable {l₀ l : Ledger V} {done : List Nat} {acc : Rewriting} {h : Nat}

theorem Rewritten.skip (hr : Rewritten env l₀ done acc l)
    (hgone : ¬ l₀.index.containSample h = true) :
    Rewritten env l₀ (h :: done) acc l where
  before := hr.before
  index := hr.index
  checkSums := hr.checkSums
  untouched g hg hn := hr.untouched g hg fun hmem => hn (.tail _ hmem)
  written g hg hc := by
    cases hg with
    | head => exact absurd hc hgone
    | tail _ hg => exact hr.written g hg hc
  success := hr.success

theorem Rewritten.write (hr : Rewritten env l₀ done acc l) (hc : l₀.index.containSample h = true)
    (hdone : h ∉ done) (q : Posting V) (merges : List Nat) :
    Rewritten env l₀ (h :: done)
      { postingSizes := Function.update acc.postingSizes (l₀.index.newId h) q.length
        checkSums := Function.update acc.checkSums (l₀.index.newId h) (env.calcChecksum q)
        mergeList := merges
        finalcode := acc.finalcode } (l.put (l₀.index.newId h) q) where
  before := hr.before
  index := hr.index
  checkSums := hr.checkSums
  untouched g hg hn := by
    rw [List.mem_cons, not_or] at hn
    have hne : g ≠ l₀.index.newId h := by
      rintro rfl
      rcases HeadIndex.newId_eq_or_deleted hc with heq | hdel
      · exact hn.1 heq
      · exact absurd (hdel.symm.trans (HeadIndex.contain_iff.mp hg).2) (by simp)
    rw [Ledger.put, ← hr.untouched g hg hn.2]
    exact Function.update_of_ne hne ..
  written g hg hcg := by
    by_cases heq : g = h
    · subst heq
      exact ⟨q, by simp [Ledger.put], by simp, by simp⟩
    · have hne : l₀.index.newId g ≠ l₀.index.newId h := fun hid =>
        heq (HeadIndex.newId_inj hcg hc hid)
      obtain ⟨q', hdb, hsize, hsum⟩ := hr.written g ((List.mem_cons.mp hg).resolve_left heq) hcg
      exact ⟨q', by simpa [Ledger.put, hne] using hdb, by simpa [hne] using hsize,
        by simpa [hne] using hsum⟩
  success := hr.success

theorem Rewritten.matched (hr : Rewritten env l₀ done acc l)
    (hall : ∀ h, l₀.index.containSample h = true → h ∈ done) :
    Ledger.Matched env
      ⟨l.index.refine, l.db, acc.postingSizes, acc.checkSums, l.index.packing.newR⟩ := by
  refine ⟨rfl, fun h hc => ?_⟩
  have hlt : h < l₀.index.packing.newR := by
    rw [← hr.index]
    exact (HeadIndex.contain_iff.mp hc).1
  obtain ⟨old, hold, rfl⟩ := HeadIndex.exists_newId hlt
  obtain ⟨q, hdb, hsize, hsum⟩ := hr.written old (hall old hold) hold
  exact ⟨q, hdb, hsize, hsum⟩

variable (hok : ∀ site t, env.fails site t = false)

include hok

theorem dbGet_reads {P : Ledger V → Prop} {site : Site}
    (hsite : (Lapse.fault site).rowless = false) :
    Triple State.overflows (fun s => P s.ledger) (dbGet env site h) fun r s =>
      r = s.db h ∧ P s.ledger := by
  intro s
  cases hdb : s.db h with
  | some p =>
    rw [dbGet_served (hok site s.tick) hdb]
    exact ⟨[], rfl, fun _ hs => ⟨hdb.symm, hs⟩⟩
  | none =>
    have hcall : call env site (fun s => (s.db h).isSome) s =
        (false, (s.ticked 1).lapse (.fault site)) := by
      simp [call, hdb, State.ticked]
    rw [dbGet, bind_eq_of_eq hcall]
    refine ⟨[], congrArg Prod.snd (books_lapse (s.ticked 1) hsite), ?_⟩
    exact fun _ hs => ⟨hdb.symm, hs⟩

theorem rewritePostings_spec (mapping : Nat → Int) (heads done : List Nat) (acc : Rewriting)
    (hnodup : (heads.reverse ++ done).Nodup) :
    Triple State.overflows (fun s => Rewritten env l₀ done acc s.ledger)
      (rewritePostings env l₀.index.newId mapping heads acc) fun acc' s =>
        Rewritten env l₀ (heads.reverse ++ done) acc' s.ledger := by
  induction heads generalizing done acc with
  | nil => exact .pure fun s hs => hs
  | cons h heads ih =>
    rw [List.reverse_cons, List.append_assoc, List.singleton_append] at hnodup ⊢
    have hdone : h ∉ done := by
      rw [List.nodup_append] at hnodup
      exact (List.nodup_cons.mp hnodup.2.1).1
    refine Triple.get_bind fun s₀ => .ite (fun hgone => ?_) fun hcontain => ?_
    · refine (ih (h :: done) acc hnodup).pre ?_
      rintro s ⟨rfl, hr⟩
      have hindex : s.index = l₀.index := hr.index
      exact hr.skip fun hc => by simp [hindex, hc] at hgone
    refine Triple.bind ((dbGet_reads hok rfl
      (P := fun l => Rewritten env l₀ done acc l ∧ l₀.index.containSample h = true)).pre ?_)
        fun read => ?_
    · rintro s ⟨rfl, hr⟩
      have hindex : s.index = l₀.index := hr.index
      exact ⟨hr, by simpa [hindex] using hcontain⟩
    refine Triple.get_bind fun s₁ => (dbPut_moves hok .refinePut).bind fun ok => ?_
    cases ok with
    | false => exact .pure fun s hs => absurd hs.1 Bool.false_ne_true
    | true =>
      refine (ih (h :: done) _ hnodup).pre ?_
      rintro s ⟨-, s₂, ⟨rfl, hread, hr, hc⟩, hledger⟩
      obtain ⟨p, hdb, -, hsum⟩ := hr.before.recorded h hc
      have hp : s₂.db h = some p := (hr.untouched h hc hdone).trans hdb
      have hsum₂ : s₂.checkSums = l₀.checkSums := hr.checkSums
      have hvalid : read.any (env.validate · (s₂.checkSums h)) = true := by
        rw [hread, hp, hsum₂, Option.any_some, hsum]
        exact Ledger.validate_calcChecksum p
      rw [hledger, hvalid, if_pos rfl]
      exact hr.write hc hdone _ _

theorem refineSearcher_balanced (r : Renaming) :
    Triple State.overflows (Balanced env) (refineSearcher env r) fun _ => Balanced env := by
  refine Triple.get_bind fun s₀ => ?_
  let start : Rewriting := ⟨fun _ => 0, fun _ => 0, [], .success⟩
  have hloop : Triple State.overflows (fun s => Rewritten env s₀.ledger [] start s.ledger)
      (rewritePostings env s₀.index.newId r.mapping (List.range s₀.index.num) start) fun acc s =>
        Rewritten env s₀.ledger ((List.range s₀.index.num).reverse ++ []) acc s.ledger :=
    rewritePostings_spec hok r.mapping _ [] start (by simpa using List.nodup_range)
  refine Triple.bind (hloop.pre ?_) fun acc => ?_
  · rintro s ⟨rfl, hs⟩
    exact ⟨hs, rfl, rfl, fun _ _ _ => rfl, fun h hh => absurd hh List.not_mem_nil, rfl⟩
  refine .ite (fun hne => .pure fun s hs => absurd hs.success hne) fun _ => ?_
  refine Triple.bind (Q := fun _ => Balanced env)
    (.modify (fun _ => rfl) fun s hs => ?_) fun _ => ?_
  · refine hs.matched fun h hc => ?_
    have hlt : h < s₀.index.num := (HeadIndex.contain_iff.mp hc).1
    simpa using hlt
  · refine Triple.bind (Balanced.of_keeps (.forM acc.mergeList mergeAsync_keeps_books)) fun _ => ?_
    exact .pure fun s hs => hs

end Refine

section Runs

inductive PostingOp (V : Type)
  | getWritePosting (pid : Nat) (posting : Posting V)
  | append (headID : Nat) (entries : Posting V) (reassignThreshold : Nat)
  | split (headID : Nat) (reassign : Bool)
  | mergePostings (headID : Nat) (reassign : Bool)
  | refineIndex (r : Renaming)

variable [LinearOrder D] (env)

def execPosting : PostingOp V → Upd V PUnit
  | .getWritePosting pid posting => discard (getWritePosting env pid posting true)
  | .append headID entries threshold => discard (append env headID entries threshold env.rounds)
  | .split headID reassign => discard (split env headID reassign)
  | .mergePostings headID reassign => discard (mergePostings env headID reassign)
  | .refineIndex r => discard (refineSearcher env r)

def stepPosting (s : State V) (op : PostingOp V) : State V := (execPosting env op s).2

def HasRoom (s : State V) (op : PostingOp V) : Prop :=
  (stepPosting env s op).overflows = s.overflows

instance (s : State V) (op : PostingOp V) : Decidable (HasRoom env s op) :=
  inferInstanceAs (Decidable ((stepPosting env s op).overflows = s.overflows))

def checkSize (s : State V) (h size : Nat) : ErrorCode :=
  match s.db h with
  | none => .keyOverFlow
  | some p => if (env.bytesOf p).length ≠ size then .postingSizeError else .success

/-- Every contained head has a row of the records, its recorded size and checksum are those
of its stored bytes, and both checks accept the posting. -/
def RecordsMatch (vectorInfoSize : Nat) (s : State V) : Prop :=
  ∀ h, s.index.containSample h = true → h < s.records ∧ ∃ p, s.db h = some p ∧
    s.postingSizes h * vectorInfoSize = (env.bytesOf p).length ∧
    s.checkSums h = env.calcChecksum p ∧
    env.validate p (s.checkSums h) = true ∧
    checkSize env s h (s.postingSizes h * vectorInfoSize) = .success

variable {env}

theorem execPosting_balanced (hok : ∀ site t, env.fails site t = false) (op : PostingOp V) :
    Triple State.overflows (Balanced env) (execPosting env op) fun _ => Balanced env := by
  cases op with
  | getWritePosting pid posting =>
    refine Triple.discard (Triple.bind (writePosting_balanced hok .writePut) fun ret => ?_)
    exact .pure fun s hs => hs.2
  | append headID entries threshold => exact (append_balanced hok entries threshold _).discard
  | split headID reassign => exact (split_balanced hok reassign).discard
  | mergePostings headID reassign => exact (mergePostings_balanced hok headID reassign).discard
  | refineIndex r => exact (refineSearcher_balanced hok r).discard

omit [LinearOrder D] in
theorem length_bytesOf {vectorInfoSize : Nat}
    (hsize : ∀ v, 4 + 1 + (env.vectorBytes v).length = vectorInfoSize) (p : Posting V) :
    (env.bytesOf p).length = p.length * vectorInfoSize := by
  induction p with
  | nil => simp [Env.bytesOf]
  | cons e p ih =>
    rw [Env.bytesOf, List.flatMap_cons, List.length_append, ← Env.bytesOf, ih, List.length_cons,
      Nat.succ_mul, Env.serialize, List.length_append, List.length_cons, leBytes_length]
    have := hsize e.vector
    omega

omit [LinearOrder D] in
theorem Balanced.recordsMatch {vectorInfoSize : Nat}
    (hsize : ∀ v, 4 + 1 + (env.vectorBytes v).length = vectorInfoSize) {s : State V}
    (hs : Balanced env s) : RecordsMatch env vectorInfoSize s := by
  intro h hc
  obtain ⟨p, hdb, hlen, hsum⟩ := hs.recorded h hc
  have hdb' : s.db h = some p := hdb
  have hlen' : s.postingSizes h * vectorInfoSize = (env.bytesOf p).length := by
    rw [length_bytesOf hsize]
    exact congrArg (· * vectorInfoSize) hlen
  refine ⟨?_, p, hdb, hlen', hsum, ?_, ?_⟩
  · exact (HeadIndex.contain_iff.mp hc).1.trans_eq hs.rows.symm
  · exact (congrArg (env.validate p) hsum).trans (Ledger.validate_calcChecksum p)
  · rw [checkSize, hdb', hlen']
    simp

end Runs

def recorded (env : Env Unit D) : State Unit :=
  let p : Posting Unit := [⟨0, 0, ()⟩, ⟨1, 0, ()⟩]
  { State.start ⟨1, fun _ => (), fun _ => false⟩ (.ofLabels [0, 0] 0 8) fun _ => none with
    db := fun _ => some p
    postingSizes := fun _ => p.length
    checkSums := fun _ => env.calcChecksum p }

theorem recorded_balanced (env : Env Unit D) : Balanced env (recorded env) :=
  ⟨rfl, fun _ _ => ⟨_, rfl, rfl, rfl⟩⟩

/-- Clusters of which the first has one entry, and never the center of the split head. -/
def Env.splitting (opt : Options) (checkSum : Checksum) : Env Unit Nat :=
  { Env.plain opt checkSum with
    kmeans := fun _ live =>
      match live with
      | a :: b :: rest => .two ⟨(), [], a⟩ ⟨(), rest, b⟩
      | live => .one live
    kmeans_perm := by
      intro t live
      match live with
      | [] => exact .refl _
      | [a] => exact .refl _
      | a :: b :: rest => exact .cons a (List.perm_append_singleton b rest) }

end Sptag.SPANN.Dynamic
