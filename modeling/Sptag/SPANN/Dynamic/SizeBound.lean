import Sptag.SPANN.PageOptions
import Sptag.SPANN.Dynamic.Interleaving
import Sptag.SPANN.Dynamic.Ledger

/-! The length of the stored postings, over every order of the sections of all threads. -/

namespace Sptag.SPANN.Dynamic

open COMMON Lib

variable {V D : Type}

def Options.sizeBound (opt : Options) : Nat := opt.postingSizeLimit + opt.bufferSizeLimit

structure Ledger.Bounded (opt : Options) (heads : Nat) (l : Ledger V) : Prop where
  heads : heads ≤ l.index.num
  fits : ∀ h p, l.db h = some p → p.length ≤ opt.sizeBound
  sized : ∀ h p, l.index.containSample h = true → l.db h = some p → p.length ≤ l.postingSizes h
  fresh : ∀ h, l.index.num ≤ h → l.db h = none

namespace Ledger

variable {opt : Options} {N : Nat} {l l' : Ledger V} {h : Nat} {p : Posting V}

def set (l : Ledger V) (h : Nat) (q : Option (Posting V)) : Ledger V :=
  { l with db := Function.update l.db h q }

theorem Bounded.write (hl : l.Bounded opt N) (hh : h < l.index.num) {q : Option (Posting V)}
    {size : Nat} (c : ChecksumType)
    (hq : ∀ p, q = some p → p.length ≤ opt.sizeBound ∧ p.length ≤ size) :
    ((l.set h q).record h size c).Bounded opt N where
  heads := hl.heads
  fits g p hp := by
    by_cases heq : g = h
    · subst heq
      exact (hq p (by simpa [set, record] using hp)).1
    · exact hl.fits g p (by simpa [set, record, heq] using hp)
  sized g p hc hp := by
    by_cases heq : g = h
    · subst heq
      simpa [set, record] using (hq p (by simpa [set, record] using hp)).2
    · simpa [set, record, heq] using hl.sized g p hc (by simpa [set, record, heq] using hp)
  fresh g hg := by
    have hne : g ≠ h := fun heq => absurd (heq ▸ hg : l.index.num ≤ h) (Nat.not_le.mpr hh)
    simpa [set, record, hne] using hl.fresh g hg

theorem Bounded.drop (hl : l.Bounded opt N) (h : Nat) : (l.set h none).Bounded opt N := by
  have hdb : ∀ g p, (l.set h none).db g = some p → l.db g = some p := by
    intro g p hp
    by_cases heq : g = h
    · subst heq
      simp [set] at hp
    · simpa [set, heq] using hp
  refine ⟨hl.heads, fun g p hp => hl.fits g p (hdb g p hp),
    fun g p hc hp => hl.sized g p hc (hdb g p hp), fun g hg => ?_⟩
  by_cases heq : g = h
  · simp [set, heq]
  · simpa [set, heq] using hl.fresh g hg

theorem Bounded.retire (hl : l.Bounded opt N) (hindex : l'.index = l.index.deleteIndex h)
    (hdb : l'.db = l.db) (hframe : ∀ g, g ≠ h → l'.postingSizes g = l.postingSizes g) :
    l'.Bounded opt N where
  heads := by
    rw [hindex]
    exact hl.heads
  fits g p hp := hl.fits g p (hdb ▸ hp)
  sized g p hc hp := by
    rw [hindex] at hc
    have hne : g ≠ h := by
      rintro rfl
      simp at hc
    rw [HeadIndex.containSample_deleteIndex hne] at hc
    rw [hframe g hne]
    exact hl.sized g p hc (hdb ▸ hp)
  fresh g hg := by
    rw [hdb]
    rw [hindex] at hg
    exact hl.fresh g hg

theorem Bounded.addHead (hl : l.Bounded opt N) (x : V) (hp : p.length ≤ opt.sizeBound)
    (c : ChecksumType) (records : Nat) :
    Bounded opt N
      { ((l.put l.index.num p).record l.index.num p.length c) with
        index := l.index.addIndexId x
        records := records } where
  heads := Nat.le_succ_of_le hl.heads
  fits g q hq := by
    by_cases heq : g = l.index.num
    · subst heq
      have hpq : p = q := by simpa [put, record] using hq
      exact hpq ▸ hp
    · exact hl.fits g q (by simpa [put, record, heq] using hq)
  sized g q hc hq := by
    by_cases heq : g = l.index.num
    · subst heq
      have hpq : p = q := by simpa [put, record] using hq
      simp [record, hpq]
    · rw [HeadIndex.containSample_addIndexId x heq] at hc
      simpa [put, record, heq] using hl.sized g q hc (by simpa [put, record, heq] using hq)
  fresh g hg := by
    have hne : g ≠ l.index.num := Nat.ne_of_gt hg
    simpa [put, record, hne] using hl.fresh g (Nat.le_of_succ_le hg)

theorem Bounded.record_gone (hl : l.Bounded opt N) (hgone : l.index.containSample h = false)
    (size : Nat) (c : ChecksumType) : (l.record h size c).Bounded opt N where
  heads := hl.heads
  fits := hl.fits
  sized g p hc hp := by
    have hne : g ≠ h := by
      rintro rfl
      exact absurd (hgone.symm.trans hc) Bool.false_ne_true
    simpa [record, hne] using hl.sized g p hc hp
  fresh := hl.fresh

theorem Bounded.mono (hl : l.Bounded opt N) {M : Nat} (hM : M ≤ N) : l.Bounded opt M :=
  { hl with heads := hM.trans hl.heads }

end Ledger

section Operations

variable {env : Env V D} {N h : Nat} {p : Posting V}

def Sized (env : Env V D) (N : Nat) (s : State V) : Prop := s.ledger.Bounded env.opt N

theorem Sized.of_keeps {A : Type} {m : Upd V A} (hm : Keeps State.books m) :
    Triple State.overflows (Sized env N) m fun _ => Sized env N :=
  hm.triple

theorem modify_sized {f : State V → State V} (hf : ∀ s, (f s).books = s.books) :
    Triple State.overflows (Sized env N) (modify f) fun _ => Sized env N :=
  Sized.of_keeps (.modify hf)

theorem dbPut_moves_or {P : Ledger V → Prop} {site : Site}
    (hsite : (Lapse.fault site).rowless = false) :
    Triple State.overflows (fun s => P s.ledger) (dbPut env site h p) fun ok s =>
      ∃ l, P l ∧ s.ledger = if ok then l.put h p else l := by
  refine Triple.bind (Keeps.triple (P := P) (call_keeps_books hsite _)) fun ok => ?_
  refine Triple.bind (Q := fun _ s => ∃ l, P l ∧ s.ledger = if ok then l.put h p else l) ?_ fun _ =>
    .pure fun s hs => hs
  refine .whenever (fun hok => ?_) fun hok s hs => ⟨s.ledger, hs, by simp [hok]⟩
  exact .modify (fun _ => rfl) fun s hs => ⟨s.ledger, hs, by rw [if_pos hok]; rfl⟩

theorem writePosting_sized {site : Site} (hsite : (Lapse.fault site).rowless = false)
    (hh : h < N) :
    Triple State.overflows (fun s => Sized env N s ∧ p.length ≤ env.opt.sizeBound)
      (writePosting env site h p) fun _ => Sized env N := by
  let P : Ledger V → Prop := fun l => l.Bounded env.opt N ∧ p.length ≤ env.opt.sizeBound
  refine Triple.bind (dbPut_moves_or (P := P) hsite) fun ok => ?_
  cases ok with
  | true =>
    refine Triple.bind (Q := fun _ => Sized env N) (.modify (fun _ => rfl) ?_) fun _ =>
      .pure fun s hs => hs
    rintro s ⟨l, ⟨hl, hp⟩, hs⟩
    show Ledger.Bounded env.opt N (s.ledger.record h _ _)
    rw [hs]
    exact hl.write (hh.trans_le hl.heads) _ fun q hq => by
      obtain rfl := Option.some.inj hq
      exact ⟨hp, le_rfl⟩
  | false =>
    refine .pure ?_
    rintro s ⟨l, ⟨hl, -⟩, hs⟩
    exact (congrArg (Ledger.Bounded env.opt N) hs).mpr hl

theorem dbDelete_sized {site : Site} (hsite : (Lapse.fault site).rowless = false) :
    Triple State.overflows (Sized env N) (dbDelete env site h) fun _ => Sized env N := by
  refine (Sized.of_keeps (call_keeps_books hsite _)).bind fun ok => ?_
  refine Triple.bind (Q := fun _ => Sized env N) ?_ fun _ => .pure fun s hs => hs
  exact .whenever (fun _ => .modify (fun _ => rfl) fun s hs => hs.drop h) fun _ s hs => hs

theorem readPosting_reads (P : Ledger V → Prop) {site : Site}
    (hsite : (Lapse.fault site).rowless = false) :
    Triple State.overflows (fun s => P s.ledger) (readPosting env site h) fun r s =>
      P s.ledger ∧ ∀ p, r = .ok p → s.db h = some p := by
  refine Triple.bind (Q := fun r s => P s.ledger ∧ ∀ p, r = some p → s.db h = some p) ?_ fun r => ?_
  · refine Triple.bind (Keeps.triple (P := P) (call_keeps_books hsite _)) fun ok => ?_
    refine Triple.get_bind fun s₀ => .pure ?_
    rintro s ⟨rfl, hs⟩
    cases ok with
    | true => exact ⟨hs, fun p hp => hp⟩
    | false => exact ⟨hs, fun p hp => by cases hp⟩
  · cases r with
    | none => exact .pure fun s hs => ⟨hs.1, fun p hp => by cases hp⟩
    | some q =>
      refine Triple.get_bind fun s₀ => .pure ?_
      rintro s ⟨rfl, hs, hq⟩
      refine ⟨hs, fun p hp => ?_⟩
      split at hp
      · obtain rfl := Except.ok.inj hp
        exact hq _ rfl
      · cases hp

theorem fetchPosting_sized (retries : Nat) :
    Triple State.overflows (Sized env N) (fetchPosting env h retries) fun r s =>
      Sized env N s ∧ ∀ p, r = .ok p → p.length ≤ env.opt.sizeBound := by
  have hknown : Triple State.overflows (Sized env N) (readKnown env h) fun r s =>
      Sized env N s ∧ ∀ p, r = .ok (some p) → p.length ≤ env.opt.sizeBound := by
    refine (readPosting_reads (fun l => l.Bounded env.opt N) rfl).bind fun r => ?_
    cases r with
    | error ret => exact .pure fun s hs => ⟨hs.1, fun p hp => by cases hp⟩
    | ok q =>
      refine Triple.get_bind fun s₀ => .pure ?_
      rintro s ⟨rfl, hs, hq⟩
      refine ⟨hs, fun p hp => ?_⟩
      split at hp
      · cases hp
        exact hs.fits h _ (hq _ rfl)
      · cases hp
  induction retries with
  | zero =>
    refine hknown.bind fun r => ?_
    match r with
    | .error ret => exact .pure fun s hs => ⟨hs.1, fun p hp => by cases hp⟩
    | .ok none => exact .pure fun s hs => ⟨hs.1, fun p hp => by cases hp⟩
    | .ok (some q) =>
      exact .pure fun s hs => ⟨hs.1, fun p hp => Except.ok.inj hp ▸ hs.2 q rfl⟩
  | succ retries ih =>
    refine hknown.bind fun r => ?_
    match r with
    | .error ret => exact .pure fun s hs => ⟨hs.1, fun p hp => by cases hp⟩
    | .ok none => exact ih.pre fun s hs => hs.1
    | .ok (some q) =>
      exact .pure fun s hs => ⟨hs.1, fun p hp => Except.ok.inj hp ▸ hs.2 q rfl⟩

theorem kmeansClustering_sized (live : Posting V) :
    Triple State.overflows (Sized env N) (kmeansClustering env live) fun r s =>
      Sized env N s ∧ r.all.Perm live := by
  intro s
  have hperm := env.kmeans_perm s.tick live
  unfold kmeansClustering
  split
  · rename_i heq
    rw [heq] at hperm
    exact ⟨[], rfl, fun _ hs => ⟨hs, hperm⟩⟩
  · rename_i heq
    rw [heq] at hperm
    exact ⟨[], rfl, fun _ hs => ⟨hs, hperm⟩⟩

theorem newHead_sized (c : Cluster V) :
    Triple State.overflows (fun s => Sized env N s ∧ c.posting.length ≤ env.opt.sizeBound)
      (newHead env c) fun _ => Sized env N := by
  intro s
  have hlog : (s.addHead env c).overflows = s.overflows := by
    unfold State.addHead
    split <;> rfl
  cases hfails : env.fails .splitNew (s.addHead env c).tick with
  | true =>
    have hput : dbPut env .splitNew s.index.num c.posting (s.addHead env c) =
        (false, ((s.addHead env c).ticked 1).lapse (.fault .splitNew)) := by
      have hcall : call env .splitNew (fun _ => true) (s.addHead env c) =
          (false, ((s.addHead env c).ticked 1).lapse (.fault .splitNew)) := by
        simp [call, hfails, State.ticked]
      exact bind_eq_of_eq hcall
    rw [newHead, get_bind_apply, modify_bind_apply, bind_eq_of_eq hput, if_pos (by simp)]
    exact ⟨[.fault .splitNew], congrArg (_ :: ·) hlog, fun h => absurd h (List.cons_ne_nil _ _)⟩
  | false =>
    have hput : dbPut env .splitNew s.index.num c.posting (s.addHead env c) =
        (true, ((s.addHead env c).ticked 1).setPosting s.index.num (some c.posting)) :=
      bind_eq_of_eq (call_served hfails rfl)
    rw [newHead, get_bind_apply, modify_bind_apply, bind_eq_of_eq hput, if_neg (by simp),
      get_bind_apply]
    split
    · exact ⟨[.fault .addBatch], congrArg (_ :: ·) hlog, fun h => absurd h (List.cons_ne_nil _ _)⟩
    · refine ⟨[], hlog, fun _ hs => ?_⟩
      have hadd := hs.1.addHead c.center hs.2 (env.calcChecksum c.posting) (s.records + 1)
      show Ledger.Bounded env.opt N _
      unfold State.addHead
      split <;> exact hadd

variable [LinearOrder D]

theorem placeCluster_sized (hh : h < N) (same : Bool) (c : Cluster V) :
    Triple State.overflows (fun s => Sized env N s ∧ c.posting.length ≤ env.opt.sizeBound)
      (placeCluster env h same c) fun _ => Sized env N := by
  refine Triple.get_bind fun s₀ => .ite (fun _ => ?_) fun _ => ?_
  · refine Triple.bind ((writePosting_sized rfl hh).pre fun s hs => hs.2) fun ret => ?_
    split
    · exact .pure fun s hs => hs
    · exact .pure fun s hs => hs
  · refine Triple.bind ((newHead_sized c).pre fun s hs => hs.2) fun r => ?_
    cases r with
    | error ret => exact .pure fun s hs => hs
    | ok begin => exact .pure fun s hs => hs

omit [LinearOrder D] in
theorem retireHead_sized (same : Bool) :
    Triple State.overflows (Sized env N) (retireHead env h same) fun _ => Sized env N := by
  refine Triple.ite (fun _ => .pure fun s hs => hs) fun _ => ?_
  refine Triple.bind (Q := fun _ => Sized env N) (.modify (fun _ => rfl) fun s hs => ?_) fun _ => ?_
  · refine Ledger.Bounded.retire hs rfl rfl fun g hne => ?_
    simp [State.ledger, State.setRecord, State.deleteHead, hne]
  · refine (dbDelete_sized rfl).bind fun ok => ?_
    exact .ite (fun _ => .pure fun s hs => hs) fun _ => .pure fun s hs => hs

theorem splitTwo_sized (hh : h < N) (reassign : Bool) (c₀ c₁ : Cluster V) :
    Triple State.overflows (fun s => Sized env N s ∧ c₀.posting.length ≤ env.opt.sizeBound ∧
        c₁.posting.length ≤ env.opt.sizeBound)
      (splitTwo env h reassign c₀ c₁) fun _ => Sized env N := by
  refine Triple.bind (((placeCluster_sized hh false c₀).pre fun s hs => ⟨hs.1, hs.2.1⟩).fact
    (c := c₁.posting.length ≤ env.opt.sizeBound) fun s hs => hs.2.2) fun r₀ => ?_
  cases r₀ with
  | error ret => exact .pure fun s hs => hs.1
  | ok r₀ =>
    refine (placeCluster_sized hh r₀.2 c₁).bind fun r₁ => ?_
    cases r₁ with
    | error ret => exact .pure fun s hs => hs
    | ok r₁ =>
      refine (retireHead_sized r₁.2).bind fun ret => ?_
      split
      · refine Triple.bind (Q := fun _ => Sized env N) (modify_sized fun _ => rfl) fun _ => ?_
        refine Triple.bind (.whenever (fun _ => ?_) fun _ s hs => hs) fun _ => .pure fun s hs => hs
        exact Sized.of_keeps fun s => collectReAssign_keeps_books h _ _ _ s
      · exact .pure fun s hs => hs

omit [LinearOrder D] in
theorem shrinkPosting_sized {site : Site} (hsite : (Lapse.fault site).rowless = false)
    (hh : h < N) :
    Triple State.overflows (fun s => Sized env N s ∧ p.length ≤ env.opt.sizeBound)
      (shrinkPosting env site h p) fun _ => Sized env N := by
  refine (writePosting_sized hsite hh).bind fun ret => ?_
  split
  · exact Triple.bind (modify_sized fun _ => rfl) fun _ => .pure fun s hs => hs
  · exact .pure fun s hs => hs

omit [LinearOrder D] in
theorem Sized.raise {A : Type} {m : Upd V A} {s₀ : State V} {Q : A → State V → Prop}
    (hm : Triple State.overflows (Sized env s₀.index.num) m Q) :
    Triple State.overflows (fun s => s = s₀ ∧ Sized env N s) m fun a s =>
      Q a s ∧ N ≤ s₀.index.num := by
  have hpre : ∀ s, s = s₀ ∧ Sized env N s → Sized env s₀.index.num s := by
    rintro s ⟨rfl, hs⟩
    exact { hs with heads := le_rfl }
  refine (hm.pre hpre).fact ?_
  rintro s ⟨rfl, hs⟩
  exact hs.heads

theorem split_sized (reassign : Bool) :
    Triple State.overflows (Sized env N) (split env h reassign) fun _ => Sized env N := by
  refine Triple.get_bind fun s₀ => .ite (fun _ => .pure fun s hs => hs.2) fun hcontain => ?_
  have hh : h < s₀.index.num := (HeadIndex.contain_iff.mp (by simpa using hcontain)).1
  refine (Sized.raise (Q := fun _ => Sized env s₀.index.num) ?_).post fun _ s hs => hs.1.mono hs.2
  refine (fetchPosting_sized 3).bind fun r => ?_
  cases r with
  | error ret => exact .pure fun s hs => hs.1
  | ok p =>
    refine Triple.get_bind fun s₁ => .ite (fun _ => ?_) fun _ => ?_
    · refine (shrinkPosting_sized rfl hh).pre fun s hs => ⟨hs.2.1, ?_⟩
      exact (List.length_filter_le _ _).trans (hs.2.2 p rfl)
    · refine Triple.bind (((kmeansClustering_sized (s₁.live p)).pre fun s hs => hs.2.1).fact
        (c := p.length ≤ env.opt.sizeBound) fun s hs => hs.2.2 p rfl) fun r => ?_
      have hlive : (s₁.live p).length ≤ p.length := List.length_filter_le _ _
      cases r with
      | one order =>
        refine (shrinkPosting_sized rfl hh).pre fun s hs => ⟨hs.1.1, ?_⟩
        exact (List.length_take_le' _ _).trans ((hs.1.2.length_eq.trans_le hlive).trans hs.2)
      | two c₀ c₁ =>
        refine (splitTwo_sized hh reassign c₀ c₁).pre fun s hs => ⟨hs.1.1, ?_⟩
        have hall : c₀.posting.length + c₁.posting.length ≤ env.opt.sizeBound := by
          rw [← List.length_append]
          exact (hs.1.2.length_eq.trans_le hlive).trans hs.2
        omega

def Appended (h : Nat) (es : Posting V) (l l' : Ledger V) : Prop :=
  ∃ q, l' = l.set h q ∧ ∀ p, q = some p → p.length ≤ ((l.db h).getD []).length + es.length

omit [LinearOrder D] in
theorem Store.merge_appends (db : Store) {P : Ledger V → Prop} (es : Posting V) :
    Triple State.overflows (fun s => P s.ledger) (db.merge env h es) fun ok s =>
      ∃ l, P l ∧ if ok then Appended h es l s.ledger else s.ledger = l := by
  have hfail : ∀ {A : Type} {m : Upd V A}, Keeps State.books m →
      Triple State.overflows (fun s => P s.ledger) m fun _ s => P s.ledger := fun hm => hm.triple
  cases db with
  | blockFile =>
    refine Triple.bind (hfail (call_keeps_books rfl _)) fun ok => ?_
    refine Triple.bind (Q := fun _ s =>
      ∃ l, P l ∧ if ok then Appended h es l s.ledger else s.ledger = l)
      ?_ fun _ => .pure fun s hs => hs
    refine .whenever (fun hok => .modify (fun _ => rfl) fun s hs => ?_) fun hok s hs =>
      ⟨s.ledger, hs, by simp [hok]⟩
    rw [hok]
    refine ⟨s.ledger, hs, (s.db h).map (· ++ es), rfl, fun p hp => ?_⟩
    obtain ⟨old, hold, rfl⟩ := Option.map_eq_some_iff.mp hp
    have hdb : s.ledger.db h = some old := hold
    simp [hdb]
  | rocksDB =>
    refine Triple.bind (hfail (call_keeps_books rfl _)) fun ok => ?_
    refine Triple.bind (Q := fun _ s =>
      ∃ l, P l ∧ if ok then Appended h es l s.ledger else s.ledger = l)
      ?_ fun _ => .pure fun s hs => hs
    refine .whenever (fun hok => .modify (fun _ => rfl) fun s hs => ?_) fun hok s hs =>
      ⟨s.ledger, hs, by simp [hok]⟩
    rw [hok]
    refine ⟨s.ledger, hs, some ((s.db h).getD [] ++ es), rfl, fun p hp => ?_⟩
    obtain rfl := Option.some.inj hp
    exact List.length_append.le
  | tiKV =>
    let P' : Option (Posting V) → Ledger V → Prop := fun r l =>
      P l ∧ (r.getD []).length ≤ ((l.db h).getD []).length
    refine Triple.bind (Q := fun r s => P' r s.ledger) ?_ fun r => ?_
    · refine Triple.bind (hfail (call_keeps_books rfl _)) fun ok => ?_
      refine Triple.get_bind fun s₀ => .pure ?_
      rintro s ⟨rfl, hs⟩
      refine ⟨hs, ?_⟩
      cases ok with
      | true => exact le_rfl
      | false => exact Nat.zero_le _
    · refine (dbPut_moves_or (P := P' r) rfl).post ?_
      rintro ok s ⟨l, ⟨hl, hlen⟩, hs⟩
      refine ⟨l, hl, ?_⟩
      cases ok with
      | true =>
        refine ⟨some (r.getD [] ++ es), hs, fun p hp => ?_⟩
        obtain rfl := Option.some.inj hp
        rw [List.length_append]
        exact Nat.add_le_add_right hlen _
      | false => exact hs

theorem appendLocked_sized (db : Store) (es : Posting V) :
    Triple State.overflows (Sized env N) (appendLocked env db h es) fun _ => Sized env N := by
  refine Triple.get_bind fun s₀ => .ite (fun _ => ?_) fun hcontain =>
    .ite (fun _ => ?_) fun hfits => ?_
  · exact Triple.bind ((Sized.of_keeps (headMiss_keeps_books h es)).pre fun s hs => hs.2) fun _ =>
      .pure fun s hs => hs
  · exact Triple.bind ((split_sized _).discard.pre fun s hs => hs.2) fun _ => .pure fun s hs => hs
  have hc : s₀.index.containSample h = true := by simpa using hcontain
  let P : Ledger V → Prop := fun l => l.Bounded env.opt N ∧ l.index.containSample h = true ∧
    l.postingSizes h + es.length ≤ env.opt.sizeBound
  refine Triple.bind (.pre (db.merge_appends es (P := P)) ?_) fun ok => ?_
  · rintro s ⟨rfl, hs⟩
    exact ⟨hs, hc, Nat.not_lt.mp hfits⟩
  cases ok with
  | false =>
    refine .pure ?_
    rintro s ⟨l, ⟨hl, -⟩, hs⟩
    exact (congrArg (Ledger.Bounded env.opt N) hs).mpr hl
  | true =>
    refine Triple.bind (Q := fun _ => Sized env N) (.modify (fun _ => rfl) ?_) fun _ =>
      .pure fun s hs => hs
    rintro s ⟨l, ⟨hl, hlc, hsize⟩, q, hs, hq⟩
    have hsizes : s.postingSizes = l.postingSizes := congrArg Ledger.postingSizes hs
    show Ledger.Bounded env.opt N (s.ledger.record h _ _)
    rw [hs, hsizes]
    refine hl.write (HeadIndex.contain_iff.mp hlc).1 _ fun p hp => ?_
    have hold : ((l.db h).getD []).length ≤ l.postingSizes h := by
      cases hdb : l.db h with
      | none => exact Nat.zero_le _
      | some old => exact hl.sized h old hlc hdb
    have hlen : p.length ≤ l.postingSizes h + es.length :=
      (hq p hp).trans (Nat.add_le_add_right hold _)
    exact ⟨hlen.trans hsize, hlen⟩

structure Merging.Held (env : Env V D) (N : Nat) (g : Merging V) : Prop where
  given : g.headID < N
  fits : g.merged.length ≤ env.opt.sizeBound

omit [LinearOrder D] in
theorem beginMerge_sized (reassign : Bool) :
    Triple State.overflows (Sized env N) (beginMerge env h reassign) fun r s =>
      Sized env N s ∧ ∀ g, r = some g → g.Held env s.index.num := by
  have hnone : ∀ {s : State V}, Sized env N s →
      Sized env N s ∧ ∀ g : Merging V, none = some g → g.Held env s.index.num :=
    fun hs => ⟨hs, fun g hg => by cases hg⟩
  refine Triple.get_bind fun s₀ => .ite (fun _ => ?_) fun _ =>
    .ite (fun _ => .pure fun s hs => hnone hs.2) fun hcontain => ?_
  · exact Triple.bind ((modify_sized fun _ => rfl).pre fun s hs => hs.2) fun _ =>
      .pure fun s hs => hnone hs
  have hh : h < s₀.index.num := (HeadIndex.contain_iff.mp (by simpa using hcontain)).1
  refine (Sized.raise (Q := fun r s => Sized env s₀.index.num s ∧
    ∀ g, r = some g → g.Held env s₀.index.num) ?_).post ?_
  swap
  · rintro r s ⟨⟨hs, hg⟩, hN⟩
    exact ⟨hs.mono hN, fun g hr => ⟨(hg g hr).given.trans_le hs.heads, (hg g hr).fits⟩⟩
  have hnone : ∀ {s : State V}, Sized env s₀.index.num s →
      Sized env s₀.index.num s ∧ ∀ g : Merging V, none = some g → g.Held env s₀.index.num :=
    fun hs => ⟨hs, fun g hg => by cases hg⟩
  refine Triple.bind (Q := fun _ => Sized env s₀.index.num) (modify_sized fun _ => rfl) fun _ => ?_
  refine (readPosting_reads (fun l => l.Bounded env.opt s₀.index.num) rfl).bind fun r => ?_
  cases r with
  | error ret =>
    exact Triple.bind (Q := fun _ => Sized env s₀.index.num)
      ((modify_sized fun _ => rfl).pre fun s hs => hs.1) fun _ => .pure fun s hs => hnone hs
  | ok p =>
    refine Triple.get_bind fun s₁ => ?_
    have hlive : (s₁.live p).length ≤ p.length := List.length_filter_le _ _
    refine Triple.pre (P := fun s => Sized env s₀.index.num s ∧
      (s₁.live p).length ≤ env.opt.sizeBound) (.ite (fun _ => ?_) fun _ => ?_) ?_
    · refine (writePosting_sized rfl hh).bind fun ret => ?_
      split
      · exact Triple.bind (Q := fun _ => Sized env s₀.index.num) (modify_sized fun _ => rfl)
          fun _ => .pure fun s hs => hnone hs
      · exact Triple.bind (Q := fun _ => Sized env s₀.index.num) (modify_sized fun _ => rfl)
          fun _ => .pure fun s hs => hnone hs
    · refine Triple.bind (((Sized.of_keeps (searchIndex_keeps_books _ _)).pre fun s hs => hs.1).fact
        (c := (s₁.live p).length ≤ env.opt.sizeBound) fun s hs => hs.2) fun results => .pure ?_
      rintro s ⟨hs, hfits⟩
      refine ⟨hs, fun g hg => ?_⟩
      obtain rfl := Option.some.inj hg
      exact ⟨hh, hfits⟩
    · rintro s ⟨rfl, hs, hp⟩
      exact ⟨hs, hlive.trans (hs.fits h p (hp p rfl))⟩

namespace Merging

variable {g : Merging V}

omit [LinearOrder D] in
theorem putBack_sized (hg : g.Held env N) :
    Triple State.overflows (Sized env N) (g.putBack env) fun _ => Sized env N := by
  refine ((writePosting_sized rfl hg.given).pre fun s hs => ⟨hs, hg.fits⟩).bind fun ret => ?_
  split
  · exact Triple.bind (modify_sized fun _ => rfl) fun _ => .pure fun s hs => hs
  · exact .pure fun s hs => hs

theorem commit_sized (hg : g.headID < N) (next : Nat) (q : Posting V) :
    Triple State.overflows (fun s => Sized env N s ∧ next < s.index.num ∧
        g.merged.length + q.length ≤ env.opt.sizeBound)
      (g.commit env next q) fun _ => Sized env N := by
  refine Triple.get_bind fun s₀ => ?_
  dsimp only
  have htotal : (g.mergedPosting s₀ q).length ≤ g.merged.length + q.length := by
    rw [mergedPosting, List.length_append]
    exact Nat.add_le_add_left ((List.length_filter_le _ _).trans (List.length_filter_le _ _)) _
  generalize g.mergedPosting s₀ q = merged at htotal
  generalize decide ((s₀.live q).length < g.merged.length) = keepsHead
  generalize hretired : (if keepsHead then next else g.headID) = retired
  let P : Ledger V → Prop := fun l => l.Bounded env.opt N ∧
    l.index.containSample retired = false ∧ next < l.index.num ∧ merged.length ≤ env.opt.sizeBound
  refine Triple.bind (Q := fun _ s => P s.ledger) (.modify (fun _ => rfl) ?_) fun _ => ?_
  · rintro s ⟨-, hs, hnext, hfits⟩
    exact ⟨hs.retire rfl rfl fun _ _ => rfl, HeadIndex.containSample_deleteIndex_self, hnext,
      htotal.trans hfits⟩
  refine (dbPut_moves_or (P := P) rfl).bind fun ok => ?_
  cases ok with
  | false =>
    refine Triple.bind (Q := fun _ => Sized env N) (.modify (fun _ => rfl) ?_) fun _ =>
      .pure fun s hs => hs
    rintro s ⟨l, hl, hs⟩
    exact (congrArg (Ledger.Bounded env.opt N) hs).mpr hl.1
  | true =>
    refine Triple.bind (Q := fun _ => Sized env N) (.modify (fun _ => rfl) ?_) fun _ => ?_
    · rintro s ⟨l, ⟨hl, hgone, hnext, hfits⟩, hs⟩
      show Ledger.Bounded env.opt N ((s.ledger.record next _ _).record g.headID _ _)
      rw [hs]
      cases keepsHead with
      | true =>
        obtain rfl : next = retired := hretired
        refine (hl.record_gone hgone 0 0).write (hg.trans_le hl.heads) _ fun p hp => ?_
        obtain rfl := Option.some.inj hp
        exact ⟨hfits, le_rfl⟩
      | false =>
        obtain rfl : g.headID = retired := hretired
        refine Ledger.Bounded.record_gone (hl.write hnext _ fun p hp => ?_) hgone 0 0
        obtain rfl := Option.some.inj hp
        exact ⟨hfits, le_rfl⟩
    · refine (dbDelete_sized rfl).bind fun ok => ?_
      refine .ite (fun _ => Triple.bind (Q := fun _ => Sized env N) (modify_sized fun _ => rfl)
        fun _ => .pure fun s hs => hs) fun _ => ?_
      refine Triple.bind (Q := fun _ => Sized env N) (modify_sized fun _ => rfl) fun _ => ?_
      refine Triple.bind (Q := fun _ => Sized env N)
        (.whenever (fun _ => ?_) fun _ s hs => hs) fun _ =>
          Triple.bind (Q := fun _ => Sized env N) (modify_sized fun _ => rfl) fun _ =>
            .pure fun s hs => hs
      exact Sized.of_keeps (reassignAbsorbed_keeps_books _ _ _ _)

theorem tryNext_sized (hg : g.headID < N) (next : Nat) :
    Triple State.overflows (fun s => Sized env N s ∧
        g.merged.length + s.postingSizes next ≤ env.opt.sizeBound)
      (g.tryNext env next) fun r s => Sized env N s ∧ ∀ g', r = some g' → g' =
      { g with next := none } := by
  refine Triple.get_bind fun s₀ => .ite (fun _ => ?_) fun hcontain => ?_
  · exact .pure fun s hs => ⟨hs.2.1, fun g' hr => (Option.some.inj hr).symm⟩
  have hc : s₀.index.containSample next = true := by simpa using hcontain
  let P : Ledger V → Prop := fun l => l.Bounded env.opt N ∧ l.index.containSample next = true ∧
    g.merged.length + l.postingSizes next ≤ env.opt.sizeBound
  refine Triple.bind (.pre (readPosting_reads P rfl) ?_) fun r => ?_
  · rintro s ⟨rfl, hs, hfits⟩
    exact ⟨hs, hc, hfits⟩
  cases r with
  | error ret =>
    exact Triple.bind (Q := fun _ => Sized env N)
      ((modify_sized fun _ => rfl).pre fun s hs => hs.1.1)
      fun _ => .pure fun s hs => ⟨hs, fun g' hr => by cases hr⟩
  | ok q =>
    refine Triple.bind ((commit_sized hg next q).discard.pre ?_) fun _ =>
      .pure fun s hs => ⟨hs, fun g' hr => by cases hr⟩
    rintro s ⟨⟨hs, hc, hfits⟩, hq⟩
    refine ⟨hs, (HeadIndex.contain_iff.mp hc).1, ?_⟩
    exact (Nat.add_le_add_left (hs.sized next q hc (hq q rfl)) _).trans hfits

end Merging

end Operations

section Runs

variable [LinearOrder D] (env : Env V D) (hash : Nat → Nat) (db : Store)

namespace Machine

def StillFits (m : Machine V) : Move V → Prop
  | .merging => ∀ g ∈ m.merging, ∀ next ∈ g.next,
      g.merged.length + m.base.postingSizes next ≤ env.opt.sizeBound
  | _ => True

instance (m : Machine V) : DecidablePred (m.StillFits env)
  | .merging => inferInstanceAs (Decidable (∀ g ∈ m.merging, ∀ next ∈ g.next,
      g.merged.length + m.base.postingSizes next ≤ env.opt.sizeBound))
  | .append _ _ => .isTrue trivial
  | .split _ _ => .isTrue trivial
  | .mergePostings _ _ => .isTrue trivial
  | .versions _ => .isTrue trivial

def KeepsRows (m : Machine V) (e : Move V) : Prop :=
  (m.step env hash db e).base.overflows = m.base.overflows

instance (m : Machine V) (e : Move V) : Decidable (m.KeepsRows env hash db e) :=
  inferInstanceAs (Decidable ((m.step env hash db e).base.overflows = m.base.overflows))

def SizesBounded (o : PageOptions) (m : Machine V) : Prop :=
  ∀ h p, m.base.db h = some p → p.length ≤ env.opt.postingSizeLimit + env.opt.bufferSizeLimit ∧
    (env.bytesOf p).length ≤ o.pageBufferSize

structure Safe (m : Machine V) : Prop where
  sized : Sized env m.base.index.num m.base
  held : ∀ g, m.merging = some g → g.Held env m.base.index.num

variable {env hash db} {m : Machine V}

omit [LinearOrder D] in
theorem Safe.section (hm : m.Safe env) {A : Type} {op : Upd V A}
    (hop : Triple State.overflows (Sized env m.base.index.num) op fun _ =>
      Sized env m.base.index.num)
    (hlog : (op m.base).2.overflows = m.base.overflows) :
    Safe env { m with base := (op m.base).2 } := by
  have hs := hop.apply hlog hm.sized
  exact ⟨{ hs with heads := le_rfl }, fun g hg =>
    ⟨(hm.held g hg).given.trans_le hs.heads, (hm.held g hg).fits⟩⟩

theorem Safe.move (hm : m.Safe env) {g : Merging V} (hg : m.merging = some g)
    (hfits : m.StillFits env .merging)
    (hlog : (g.move env m.base).2.overflows = m.base.overflows) :
    Safe env ⟨(g.move env m.base).2, (g.move env m.base).1⟩ := by
  have hheld := hm.held g hg
  obtain ⟨headID, reassign, posting, merged, results, next⟩ := g
  match next, results with
  | none, [] =>
    have hs := (Merging.putBack_sized hheld).apply hlog hm.sized
    exact ⟨{ hs with heads := le_rfl }, fun g' hr => by cases hr⟩
  | none, next :: results =>
    have hmove : Merging.move env ⟨headID, reassign, posting, merged, next :: results,
      none⟩ m.base = _ :=
      Merging.look_eq
    rw [hmove]
    refine ⟨hm.sized, fun g' hr => ?_⟩
    obtain rfl := Option.some.inj hr
    exact ⟨hheld.given, hheld.fits⟩
  | some next, results =>
    have hs := (Merging.tryNext_sized hheld.given next).apply hlog
      ⟨hm.sized, hfits _ hg next rfl⟩
    refine ⟨{ hs.1 with heads := le_rfl }, fun g' hr => ?_⟩
    rw [hs.2 g' hr]
    exact ⟨hheld.given.trans_le hs.1.heads, hheld.fits⟩

theorem Safe.step (hm : m.Safe env) (e : Move V) (hfits : m.StillFits env e)
    (hrows : m.KeepsRows env hash db e) : Safe env (m.step env hash db e) := by
  unfold KeepsRows at hrows
  cases e with
  | append headID entries =>
    have hstep : m.step env hash db (.append headID entries) =
      if m.blocked hash headID then m
      else { m with base := (appendLocked env db headID entries m.base).2 } := rfl
    rw [hstep] at hrows ⊢
    by_cases hb : m.blocked hash headID = true
    · rw [if_pos hb]
      exact hm
    · rw [if_neg hb] at hrows ⊢
      exact hm.section (appendLocked_sized db entries) hrows
  | split headID reassign =>
    have hstep : m.step env hash db (.split headID reassign) =
      if m.blocked hash headID then m
      else { m with base := (split env headID reassign m.base).2 } := rfl
    rw [hstep] at hrows ⊢
    by_cases hb : m.blocked hash headID = true
    · rw [if_pos hb]
      exact hm
    · rw [if_neg hb] at hrows ⊢
      exact hm.section (split_sized reassign) hrows
  | mergePostings headID reassign =>
    have hs := (beginMerge_sized reassign).apply hrows hm.sized
    refine ⟨{ hs.1 with heads := le_rfl }, fun g hg => ?_⟩
    have hg' : ((beginMerge env headID reassign m.base).1 <|> m.merging) = some g := hg
    cases hr : (beginMerge env headID reassign m.base).1 with
    | none =>
      have hheld := hm.held g (by rwa [hr] at hg')
      exact ⟨hheld.given.trans_le hs.1.heads, hheld.fits⟩
    | some g' =>
      rw [hr] at hg'
      exact hs.2 g (hr.trans hg')
  | merging =>
    cases hg : m.merging with
    | none =>
      have hstep : m.step env hash db .merging = m := by simp only [Machine.step, hg]
      rwa [hstep]
    | some g =>
      have hstep : m.step env hash db .merging =
        ⟨(g.move env m.base).2, (g.move env m.base).1⟩ := by
        simp only [Machine.step, hg]
      rw [hstep] at hrows ⊢
      exact hm.move hg hfits hrows
  | versions versionMap => exact ⟨hm.sized, hm.held⟩

omit [LinearOrder D] in
theorem Safe.sizesBounded (hm : m.Safe env) {o : PageOptions} {vectorInfoSize : Nat}
    (hsize : ∀ v, 4 + 1 + (env.vectorBytes v).length = vectorInfoSize)
    (hlimit : env.opt.postingSizeLimit = o.postingSizeLimit vectorInfoSize)
    (hbuffer : env.opt.bufferSizeLimit = o.bufferSizeLimit vectorInfoSize) :
    m.SizesBounded env o := by
  intro h p hp
  have hfits := hm.sized.fits h p hp
  refine ⟨hfits, ?_⟩
  rw [length_bytesOf hsize]
  apply o.fits_pageBuffer
  rwa [← hlimit, ← hbuffer]

end Machine

variable {env hash db}

end Runs

def Env.paged : Env Unit Nat :=
  { Env.plain { plainOptions with postingSizeLimit := 3, mergeThreshold := 1 } ⟨0, true⟩ with
    vectorBytes := fun _ => List.replicate 4091 0 }

theorem Env.paged_size (v : Unit) : 4 + 1 + (Env.paged.vectorBytes v).length = 4096 := by
  show 4 + 1 + (List.replicate 4091 (0 : UInt8)).length = 4096
  rw [List.length_replicate]

def pair : State Unit :=
  { State.start ⟨2, fun _ => (), fun _ => false⟩ (.ofLabels [0, 0, 0, 0, 0] 0 8) fun _ => none with
    db := fun h => if h = 0 then some [⟨0, 0, ()⟩] else if h = 1 then some [⟨1, 0, ()⟩] else none
    postingSizes := fun _ => 1 }

theorem pair_sized : Sized Env.paged 2 pair := by
  have hdb : ∀ h p, pair.db h = some p → h < 2 ∧ p.length = 1 := by
    intro h p hp
    match h with
    | 0 => exact ⟨by decide, Option.some.inj hp ▸ rfl⟩
    | 1 => exact ⟨by decide, Option.some.inj hp ▸ rfl⟩
    | h + 2 => cases hp
  refine ⟨le_rfl, fun h p hp => ?_, fun h p _ hp => (hdb h p hp).2.le, fun h hh => ?_⟩
  · rw [(hdb h p hp).2]
    decide
  · match h with
    | 0 => exact absurd hh (by decide)
    | 1 => exact absurd hh (by decide)
    | h + 2 => rfl

end Sptag.SPANN.Dynamic
