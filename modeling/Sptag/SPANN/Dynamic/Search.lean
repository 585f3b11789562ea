import Sptag.Common.QueryResultSet
import Sptag.SPANN.Dynamic.Corruption

/-! `SPANN::Index::SearchIndex` with the `SearchIndex` of a dynamic searcher. The results of
the head index are given; what is only counted for the statistics is left out. -/

namespace Sptag.SPANN.Dynamic

open COMMON Lib

variable {V D : Type} [LinearOrder D]

/-- `beyondLimit` stands for `limitDist > 0.1 && res->Dist > limitDist`, where `limitDist` is
the first distance times `m_maxDistRatio`. -/
structure SearchOptions (D : Type) where
  searchInternalResultNum : Nat
  maxDist : D
  beyondLimit : D → D → Bool
  asyncMergeInSearch : Bool

variable (env : Env V D) (so : SearchOptions D)

omit [LinearOrder D] in
def SearchOptions.blank : BasicResult D := ⟨-1, so.maxDist⟩

section Heads

variable (s : State V)

def checkValidPosting (headID : Nat) : Bool :=
  decide (headID < s.records) && decide (0 < s.postingSizes headID)

def translateHead (res : BasicResult D) : BasicResult D :=
  match s.translate res.vid.toNat with
  | none => so.blank
  | some vid => ⟨vid, res.dist⟩

def translateHeads : List (BasicResult D) → List (BasicResult D)
  | [] => []
  | res :: rs =>
    if res.vid = -1 then res :: rs else translateHead so s res :: translateHeads rs

def selectHeads (first : D) : Nat → List (BasicResult D) → List (BasicResult D) × List Nat
  | 0, rs => (translateHeads so s rs, [])
  | _ + 1, [] => ([], [])
  | rounds + 1, res :: rs =>
    if res.vid = -1 || so.beyondLimit first res.dist then (translateHeads so s (res :: rs), [])
    else
      let (rs', postingIDs) := selectHeads first rounds rs
      (translateHead so s res :: rs',
        if checkValidPosting s res.vid.toNat then res.vid.toNat :: postingIDs else postingIDs)

structure Filtering (D : Type) where
  results : Nat → BasicResult D
  head : Nat
  deduper : List Int

def filterHead (f : Filtering D) (i : Nat) : Filtering D :=
  let ri := f.results i
  if ri.vid ≠ -1 ∧ s.versionMap.deleted ri.vid = false ∧ ri.vid ∉ f.deduper then
    { results :=
        if f.head ≠ i then Function.update (Function.update f.results f.head ri) i so.blank
        else f.results
      head := f.head + 1
      deduper := ri.vid :: f.deduper }
  else { f with results := Function.update f.results i so.blank }

def filterHeads (q : QueryResultSet D) : QueryResultSet D × List Int :=
  let f := (List.range q.resultNum).foldl (filterHead so s) ⟨q.results, 0, []⟩
  ({ q with results := f.results }, f.deduper)

end Heads

structure Scan (D : Type) where
  found : QueryResultSet D
  deduper : List Int
  realNum : Nat

def scanEntry (s : State V) (query : V) (scan : Scan D) (e : Entry V) : Scan D :=
  if s.versionMap.deleted e.vid then { scan with realNum := scan.realNum - 1 }
  else if e.vid ∈ scan.deduper then scan
  else
    { scan with
      found := scan.found.addPoint e.vid (env.computeDistance query e.vector)
      deduper := e.vid :: scan.deduper }

def scanPostings (query : V) : List Nat → QueryResultSet D → List Int → Upd V (QueryResultSet D)
  | [], q, _ => pure q
  | curPostingID :: postingIDs, q, deduper => do
    let s ← get
    let p := (s.db curPostingID).getD []
    let scan := p.foldl (scanEntry env s query) ⟨q, deduper, p.length⟩
    whenever (so.asyncMergeInSearch && decide (scan.realNum ≤ env.opt.mergeThreshold))
      (mergeAsync env curPostingID)
    scanPostings query postingIDs scan.found scan.deduper

/-- `SearchIndex` of the searcher. The heads are filtered only when the first result, by then
the farthest head, is not blank. -/
def searchPostings (query : V) (postingIDs : List Nat) (q : QueryResultSet D) :
    Upd V (Except ErrorCode (QueryResultSet D)) := do
  let s ← get
  let (q, deduper) := if (q.results 0).vid ≠ -1 then filterHeads so s q else (q, [])
  let ok ← call env .searchGet fun s => postingIDs.all fun h => (s.db h).isSome
  let s ← get
  if !ok || env.opt.checksumInRead &&
      !(postingIDs.all fun h => env.validate ((s.db h).getD []) (s.checkSums h)) then
    pure (.error .diskIOFail)
  else do
    let q ← scanPostings env so query postingIDs q deduper
    pure (.ok q)

/-- The translated heads among the `resultNum` first answers and the postings to read;
`heads n` is what the head index answers when it is asked for `n` results. -/
def selection (s : State V) (heads : Nat → List (BasicResult D)) (resultNum : Nat) :
    List (BasicResult D) × List Nat :=
  let rs := heads (max resultNum so.searchInternalResultNum)
  let first := (rs.map BasicResult.dist).headD so.maxDist
  selectHeads so s first so.searchInternalResultNum rs

def spannSearch (heads : Nat → List (BasicResult D)) (query : V) (resultNum : Nat) :
    Upd V (Except ErrorCode (List (BasicResult D))) := do
  let s ← get
  let (rs, postingIDs) := selection so s heads resultNum
  match ← searchPostings env so query postingIDs (QueryResultSet.ofList so.blank rs).reverse with
  | .error ret => pure (.error ret)
  | .ok q => pure (.ok (q.sortResult.toList.take resultNum))

section Lemmas

variable {env so} {s : State V}

omit [LinearOrder D] in
theorem selectHeads_fst (first : D) (rounds : Nat) (rs : List (BasicResult D)) :
    (selectHeads so s first rounds rs).1 = translateHeads so s rs := by
  induction rounds generalizing rs with
  | zero => rfl
  | succ rounds ih =>
    cases rs with
    | nil => rfl
    | cons res rs =>
      unfold selectHeads
      split
      · rfl
      · rename_i hgo
        have hvid : res.vid ≠ -1 := fun h => hgo (by simp [h])
        rw [translateHeads, if_neg hvid, ← ih rs]

omit [LinearOrder D] in
@[simp] theorem length_translateHeads (rs : List (BasicResult D)) :
    (translateHeads so s rs).length = rs.length := by
  induction rs with
  | nil => rfl
  | cons res rs ih =>
    unfold translateHeads
    split
    · rfl
    · rw [List.length_cons, List.length_cons, ih]

omit [LinearOrder D] in
theorem eq_blank_of_translateHeads (htranslate : ∀ h vid, s.translate h = some vid → vid ≠ -1)
    {rs : List (BasicResult D)} (hblank : ∀ r ∈ rs, r.vid = -1 → r = so.blank)
    {r : BasicResult D} (hr : r ∈ translateHeads so s rs) (hvid : r.vid = -1) : r = so.blank := by
  induction rs with
  | nil => cases hr
  | cons res rs ih =>
    unfold translateHeads at hr
    split at hr
    · exact hblank r hr hvid
    · rcases List.mem_cons.mp hr with rfl | hr
      · unfold translateHead at hvid ⊢
        split at hvid
        · rfl
        · exact absurd hvid (htranslate _ _ ‹_›)
      · exact ih (fun r hr => hblank r (.tail _ hr)) hr

def fresh (env : Env V D) (versionMap : VersionLabel) (query : V) :
    List Int → Posting V → List (BasicResult D)
  | _, [] => []
  | seen, e :: es =>
    if versionMap.deleted e.vid = true ∨ e.vid ∈ seen then fresh env versionMap query seen es
    else ⟨e.vid, env.computeDistance query e.vector⟩ ::
      fresh env versionMap query (e.vid :: seen) es

def seenAfter (seen : List Int) (rs : List (BasicResult D)) : List Int :=
  (rs.map BasicResult.vid).reverse ++ seen

omit [LinearOrder D] in
theorem fresh_append (versionMap : VersionLabel) (query : V) (seen : List Int)
    (es es' : Posting V) :
    fresh env versionMap query seen (es ++ es') =
      fresh env versionMap query seen es ++
        fresh env versionMap query (seenAfter seen (fresh env versionMap query seen es)) es' := by
  induction es generalizing seen with
  | nil => rfl
  | cons e es ih =>
    rw [List.cons_append, fresh, fresh]
    split
    · exact ih seen
    · rw [ih]
      simp [seenAfter]

theorem foldl_scanEntry (env : Env V D) (s : State V) (query : V) (scan : Scan D) (es : Posting V) :
    let cs := fresh env s.versionMap query scan.deduper es
    (es.foldl (scanEntry env s query) scan).found =
        cs.foldl (fun q r => q.addPoint r.vid r.dist) scan.found ∧
      (es.foldl (scanEntry env s query) scan).deduper = seenAfter scan.deduper cs := by
  induction es generalizing scan with
  | nil => exact ⟨rfl, rfl⟩
  | cons e es ih =>
    dsimp only
    rw [List.foldl_cons, fresh]
    by_cases hdeleted : s.versionMap.deleted e.vid = true
    · rw [if_pos (.inl hdeleted), scanEntry, if_pos hdeleted]
      exact ih _
    by_cases hseen : e.vid ∈ scan.deduper
    · rw [if_pos (.inr hseen), scanEntry, if_neg hdeleted, if_pos hseen]
      exact ih _
    · rw [if_neg (by simp [hdeleted, hseen]), scanEntry, if_neg hdeleted, if_neg hseen,
        List.foldl_cons]
      obtain ⟨hfound, hdeduper⟩ := ih
        { scan with
          found := scan.found.addPoint e.vid (env.computeDistance query e.vector)
          deduper := e.vid :: scan.deduper }
      refine ⟨hfound, hdeduper.trans ?_⟩
      simp [seenAfter]

def State.entriesOf (s : State V) (postingIDs : List Nat) : Posting V :=
  postingIDs.flatMap fun h => (s.db h).getD []

theorem scanPostings_found (query : V) (postingIDs : List Nat) (q : QueryResultSet D)
    (deduper : List Int) :
    (scanPostings env so query postingIDs q deduper s).1 =
      (fresh env s.versionMap query deduper (s.entriesOf postingIDs)).foldl
        (fun q r => q.addPoint r.vid r.dist) q := by
  induction postingIDs generalizing q deduper s with
  | nil => rfl
  | cons curPostingID postingIDs ih =>
    have hfold := foldl_scanEntry env s query
      ⟨q, deduper, ((s.db curPostingID).getD []).length⟩ ((s.db curPostingID).getD [])
    have hkeeps : Keeps (fun s : State V => (s.db, s.versionMap))
      (mergeAsync env curPostingID) := by
      refine .modify fun s => ?_
      split <;> rfl
    rw [scanPostings, get_bind_apply]
    refine Keeps.bind_ends (R := fun r => r.1 = _) (.whenever hkeeps) fun _ s' hs' => ?_
    obtain ⟨hdb, hversions⟩ := Prod.mk.inj hs'
    have hentries : s'.entriesOf postingIDs = s.entriesOf postingIDs := by
      rw [State.entriesOf, hdb, State.entriesOf]
    rw [ih, hfold.1, hfold.2, hentries, hversions, ← List.foldl_append, ← fresh_append]
    rfl

omit [LinearOrder D] in
theorem mem_fresh {versionMap : VersionLabel} {query : V} {dist : Int → D} {seen : List Int}
    {es : Posting V} (hdist : ∀ e ∈ es, env.computeDistance query e.vector = dist e.vid)
    {r : BasicResult D} :
    r ∈ fresh env versionMap query seen es ↔ r.dist = dist r.vid ∧ r.vid ∉ seen ∧
      versionMap.deleted r.vid = false ∧ ∃ e ∈ es, e.vid = r.vid := by
  induction es generalizing seen with
  | nil => simp [fresh]
  | cons e es ih =>
    have hdist' : ∀ e ∈ es, env.computeDistance query e.vector = dist e.vid :=
      fun e he => hdist e (.tail _ he)
    rw [fresh]
    split
    · rename_i hskip
      refine (ih hdist').trans (and_congr_right fun _ => and_congr_right fun hseen =>
        and_congr_right fun hlive => ⟨fun ⟨e', he', hvid⟩ => ⟨e', .tail _ he', hvid⟩, ?_⟩)
      rintro ⟨e', he', hvid⟩
      rcases List.mem_cons.mp he' with rfl | he'
      · rw [hvid] at hskip
        exact absurd (hskip.resolve_right hseen) (by simp [hlive])
      · exact ⟨e', he', hvid⟩
    · rename_i hfresh
      rw [not_or] at hfresh
      rw [List.mem_cons, ih hdist', hdist e (.head _)]
      constructor
      · rintro (rfl | ⟨hr, hseen, hlive, e', he', hvid⟩)
        · exact ⟨rfl, hfresh.2, by simpa using hfresh.1, e, .head _, rfl⟩
        · exact ⟨hr, fun h => hseen (.tail _ h), hlive, e', .tail _ he', hvid⟩
      · rintro ⟨hr, hseen, hlive, e', he', hvid⟩
        by_cases heq : r.vid = e.vid
        · exact .inl (BasicResult.eq_of_vid hr rfl heq)
        · refine .inr ⟨hr, fun h => (List.mem_cons.mp h).elim heq hseen, hlive, ?_⟩
          rcases List.mem_cons.mp he' with rfl | he'
          · exact absurd hvid.symm heq
          · exact ⟨e', he', hvid⟩

omit [LinearOrder D] in
theorem nodup_fresh {versionMap : VersionLabel} {query : V} {dist : Int → D} {seen : List Int}
    {es : Posting V} (hdist : ∀ e ∈ es, env.computeDistance query e.vector = dist e.vid) :
    ((fresh env versionMap query seen es).map BasicResult.vid).Nodup := by
  induction es generalizing seen with
  | nil => exact .nil
  | cons e es ih =>
    have hdist' : ∀ e ∈ es, env.computeDistance query e.vector = dist e.vid :=
      fun e he => hdist e (.tail _ he)
    rw [fresh]
    split
    · exact ih hdist'
    · refine List.nodup_cons.mpr ⟨fun hmem => ?_, ih hdist'⟩
      obtain ⟨r, hr, hvid⟩ := List.mem_map.mp hmem
      exact ((mem_fresh hdist').mp hr).2.1 (hvid ▸ .head _)

omit [LinearOrder D] in
theorem filterHeads_keeps {q : QueryResultSet D}
    (hlive : ∀ r ∈ q.toList, r.vid ≠ -1 ∧ s.versionMap.deleted r.vid = false)
    (hnodup : (q.toList.map BasicResult.vid).Nodup) :
    filterHeads so s q = (q, (q.toList.map BasicResult.vid).reverse) := by
  have hvids : ((List.range q.resultNum).map fun i => (q.results i).vid).Nodup := by
    rwa [QueryResultSet.toList, List.map_map] at hnodup
  have hloop : ∀ n, n ≤ q.resultNum →
      (List.range n).foldl (filterHead so s) ⟨q.results, 0, []⟩ =
        ⟨q.results, n, ((List.range n).map fun i => (q.results i).vid).reverse⟩ := by
    intro n
    induction n with
    | zero => exact fun _ => rfl
    | succ n ih =>
      intro hn
      have hmem : q.results n ∈ q.toList := QueryResultSet.mem_toList.mpr ⟨n, hn, rfl⟩
      have hunseen : (q.results n).vid ∉
        ((List.range n).map fun i => (q.results i).vid).reverse := by
        intro h
        obtain ⟨i, hi, hvid⟩ := List.mem_map.mp (List.mem_reverse.mp h)
        have hi' := List.mem_range.mp hi
        exact hi'.ne (List.inj_on_of_nodup_map hvids (List.mem_range.mpr (hi'.trans hn))
          (List.mem_range.mpr hn) hvid)
      rw [List.range_succ, List.foldl_append, ih (Nat.le_of_succ_le hn), List.foldl_cons,
        List.foldl_nil,
        filterHead, if_pos ⟨(hlive _ hmem).1, (hlive _ hmem).2, hunseen⟩]
      simp
  rw [filterHeads, hloop _ le_rfl]
  simp [QueryResultSet.toList, Function.comp_def]

omit [LinearOrder D] in
theorem filterHeads_blanks {q : QueryResultSet D}
    (hgone : ∀ r ∈ q.toList, r.vid = -1 ∨ s.versionMap.deleted r.vid = true) :
    (∀ i, i < q.resultNum → (filterHeads so s q).1.results i = so.blank) ∧
      (filterHeads so s q).2 = [] := by
  have hloop : ∀ n, n ≤ q.resultNum →
      (List.range n).foldl (filterHead so s) ⟨q.results, 0, []⟩ =
        ⟨fun i => if i < n then so.blank else q.results i, 0, []⟩ := by
    intro n
    induction n with
    | zero =>
      intro _
      simp
    | succ n ih =>
      intro hn
      have hmem : q.results n ∈ q.toList := QueryResultSet.mem_toList.mpr ⟨n, hn, rfl⟩
      rw [List.range_succ, List.foldl_append, ih (Nat.le_of_succ_le hn), List.foldl_cons,
        List.foldl_nil,
        filterHead]
      have hself : (if n < n then so.blank else q.results n) = q.results n := if_neg (lt_irrefl n)
      rw [if_neg ?_]
      · congr 1
        funext i
        by_cases hi : i = n
        · subst hi
          simp
        · have hlt : i < n + 1 ↔ i < n := by omega
          simp [hi, hlt]
      · rintro ⟨hvid, hlive, -⟩
        dsimp only at hvid hlive
        rw [hself] at hvid hlive
        rcases hgone _ hmem with h | h
        · exact hvid h
        · exact absurd (hlive.symm.trans h) Bool.false_ne_true
  rw [filterHeads, hloop _ le_rfl]
  exact ⟨fun i hi => if_pos hi, rfl⟩

end Lemmas

section Nearest

def candidates (s : State V) (query : V) (rs : List (BasicResult D)) (es : Posting V) :
    Finset (BasicResult D) :=
  let kept := rs.filter fun r => decide (r.vid ≠ -1) && !s.versionMap.deleted r.vid
  let found := (es.filter fun e => !s.versionMap.deleted e.vid).map fun e =>
    (⟨e.vid, env.computeDistance query e.vector⟩ : BasicResult D)
  (kept ++ found).toFinset

structure IsTop (s : State V) (C : Finset (BasicResult D)) (n : Nat) (out : List (BasicResult D)) :
    Prop where
  smallest : out = C.sort.take n ++ List.replicate (n - (C.image BasicResult.vid).card) so.blank
  distinct : ((out.map BasicResult.vid).filter fun vid => vid ≠ -1).Nodup
  live : ∀ r ∈ out, r.vid ≠ -1 → s.versionMap.deleted r.vid = false

/-- The translated heads, reversed, are a heap that the filter leaves alone: with a blank in
front it is not run, so that nothing may be left for it to do; otherwise there is nothing to
drop, or nothing to keep. -/
def Orderly (s : State V) (rs : List (BasicResult D)) (es : Posting V) : Prop :=
  let q := (QueryResultSet.ofList so.blank rs).reverse
  if (q.results 0).vid = -1 then
    IsHeap q.results q.resultNum ∧ ((rs.map BasicResult.vid).filter fun vid => vid ≠ -1).Nodup ∧
      ∀ r ∈ rs, r.vid ≠ -1 → s.versionMap.deleted r.vid = false ∧ ∀ e ∈ es, e.vid ≠ r.vid
  else
    (IsHeap q.results q.resultNum ∧ (rs.map BasicResult.vid).Nodup ∧
      ∀ r ∈ rs, r.vid ≠ -1 ∧ s.versionMap.deleted r.vid = false) ∨
    ∀ r ∈ rs, r.vid = -1 ∨ s.versionMap.deleted r.vid = true

variable {env so} {s : State V} {query : V} {rs : List (BasicResult D)} {es : Posting V}
  {dist : Int → D}

structure Measured (env : Env V D) (so : SearchOptions D) (s : State V) (query : V)
    (rs : List (BasicResult D)) (es : Posting V) (dist : Int → D) : Prop where
  heads : ∀ r ∈ rs, r.vid ≠ -1 → r.dist = dist r.vid
  entries : ∀ e ∈ es, env.computeDistance query e.vector = dist e.vid
  named : ∀ e ∈ es, e.vid ≠ -1
  below : ∀ r ∈ candidates env s query rs es, r.dist < so.maxDist

theorem mem_candidates {r : BasicResult D} : r ∈ candidates env s query rs es ↔
    (r ∈ rs ∧ r.vid ≠ -1 ∧ s.versionMap.deleted r.vid = false) ∨
      ∃ e ∈ es, s.versionMap.deleted e.vid = false ∧
        (⟨e.vid, env.computeDistance query e.vector⟩ : BasicResult D) = r := by
  simp [candidates, and_assoc]

theorem Measured.candidate (h : Measured env so s query rs es dist) {r : BasicResult D}
    (hr : r ∈ candidates env s query rs es) :
    r.dist = dist r.vid ∧ r.vid ≠ -1 ∧ s.versionMap.deleted r.vid = false := by
  rcases mem_candidates.mp hr with ⟨hmem, hvid, hlive⟩ | ⟨e, he, hlive, rfl⟩
  · exact ⟨h.heads r hmem hvid, hvid, hlive⟩
  · exact ⟨h.entries e he, h.named e he, hlive⟩

structure Prepared (so : SearchOptions D) (s : State V) (rs : List (BasicResult D)) (es : Posting V)
    (q : QueryResultSet D) (deduper : List Int) (kept : List (BasicResult D)) : Prop where
  heap : IsHeap q.results q.resultNum
  holds : contents q.results q.resultNum =
    (kept : Multiset (BasicResult D)) + Multiset.replicate (q.resultNum - kept.length) so.blank
  room : kept.length ≤ q.resultNum
  mem : ∀ r, r ∈ kept ↔ r ∈ rs ∧ r.vid ≠ -1 ∧ s.versionMap.deleted r.vid = false
  nodup : (kept.map BasicResult.vid).Nodup
  seen : ∀ vid ∈ deduper, vid ∈ kept.map BasicResult.vid
  unseen : ∀ r ∈ kept, r.vid ∉ deduper → ∀ e ∈ es, e.vid ≠ r.vid

theorem Prepared.candidates_val {q : QueryResultSet D} {deduper : List Int}
    {kept : List (BasicResult D)}
    (hp : Prepared so s rs es q deduper kept) (hm : Measured env so s query rs es dist) :
    ((kept ++ fresh env s.versionMap query deduper es : List (BasicResult D)) : Multiset _) =
      (candidates env s query rs es).val := by
  have hnodup : ((kept ++ fresh env s.versionMap query deduper es).map BasicResult.vid).Nodup := by
    rw [List.map_append, List.nodup_append]
    refine ⟨hp.nodup, nodup_fresh hm.entries, fun vid hkept vid' hfresh heq => ?_⟩
    subst heq
    obtain ⟨r, hr, rfl⟩ := List.mem_map.mp hkept
    obtain ⟨r', hr', hvid⟩ := List.mem_map.mp hfresh
    obtain ⟨-, hseen, -, e, he, he'⟩ := (mem_fresh hm.entries).mp hr'
    exact hp.unseen r hr (hvid ▸ hseen) e he (he'.trans hvid)
  refine (Multiset.Nodup.ext (Multiset.coe_nodup.mpr (.of_map _ hnodup)) (Finset.nodup _)).mpr
    fun r => ?_
  rw [Multiset.mem_coe, List.mem_append, Finset.mem_val, mem_candidates, hp.mem,
    mem_fresh hm.entries]
  refine or_congr_right' fun hnot => ?_
  constructor
  · rintro ⟨hdist, -, hlive, e, he, hvid⟩
    exact ⟨e, he, hvid ▸ hlive, BasicResult.eq_of_vid (hm.entries e he) hdist hvid⟩
  · rintro ⟨e, he, hlive, rfl⟩
    refine ⟨hm.entries e he, fun hseen => hnot ?_, hlive, e, he, rfl⟩
    obtain ⟨r, hr, hvid⟩ := List.mem_map.mp (hp.seen _ hseen)
    have hr' := (hp.mem r).mp hr
    have heq : r = ⟨e.vid, env.computeDistance query e.vector⟩ :=
      BasicResult.eq_of_vid (hm.heads r hr'.1 hr'.2.1) (hm.entries e he) hvid
    rwa [heq] at hr'

theorem sort_candidates (hm : Measured env so s query rs es dist) (k : Nat) :
    ((candidates env s query rs es).val + Multiset.replicate k so.blank).sort =
      (candidates env s query rs es).sort ++ List.replicate k so.blank := by
  refine List.Perm.eq_of_pairwise' (Multiset.pairwise_sort _ _) ?_ ?_
  · rw [List.pairwise_append]
    refine ⟨Finset.pairwise_sort _ _, List.pairwise_replicate.mpr (.inr le_rfl),
      fun r hr b hb => ?_⟩
    obtain rfl := List.eq_of_mem_replicate hb
    exact (BasicResult.lt_iff.mpr (.inl (hm.below r ((Finset.mem_sort _).mp hr)))).le
  · rw [← Multiset.coe_eq_coe, Multiset.sort_eq, ← Multiset.coe_add, Finset.sort_eq,
      Multiset.coe_replicate]

theorem injOn_vid (hm : Measured env so s query rs es dist) :
    Set.InjOn BasicResult.vid (candidates env s query rs es : Set (BasicResult D)) :=
  fun _ hr _ hr' heq => BasicResult.eq_of_vid (hm.candidate hr).1 (hm.candidate hr').1 heq

theorem card_image_vid (hm : Measured env so s query rs es dist) :
    ((candidates env s query rs es).image BasicResult.vid).card =
      (candidates env s query rs es).card := Finset.card_image_of_injOn (injOn_vid hm)

theorem Prepared.isTop {q : QueryResultSet D} {deduper : List Int} {kept : List (BasicResult D)}
    (hp : Prepared so s rs es q deduper kept) (hm : Measured env so s query rs es dist) {n : Nat}
    (hn : n ≤ q.resultNum) (hpos : 0 < q.resultNum) :
    IsTop so s (candidates env s query rs es) n
      (((fresh env s.versionMap query deduper es).foldl (fun q r => q.addPoint r.vid r.dist)
        q).sortResult.toList.take n) := by
  have hval := hp.candidates_val hm
  have hcard : kept.length ≤ (candidates env s query rs es).card := by
    rw [Finset.card_def, ← hval, Multiset.coe_card, List.length_append]
    exact Nat.le_add_right _ _
  have hroom := hp.room
  have hsort : (contents q.results q.resultNum +
      (fresh env s.versionMap query deduper es : Multiset (BasicResult D))).sort =
      (candidates env s query rs es).sort ++
        List.replicate (q.resultNum - kept.length) so.blank := by
    rw [← sort_candidates hm, ← hval, hp.holds, ← Multiset.coe_add, add_right_comm]
  have hout : ((fresh env s.versionMap query deduper es).foldl (fun q r => q.addPoint r.vid r.dist)
      q).sortResult.toList.take n = (candidates env s query rs es).sort.take n ++
        List.replicate (n - (candidates env s query rs es).card) so.blank := by
    rw [q.sortResult_addPoints hp.heap hpos, hsort, List.take_take, Nat.min_eq_left hn,
      List.take_append, Finset.length_sort, List.take_replicate]
    congr 2
    omega
  rw [hout]
  refine ⟨by rw [card_image_vid hm], ?_, fun r hr hvid => ?_⟩
  · have hnodup : ((candidates env s query rs es).sort.map BasicResult.vid).Nodup := by
      refine (Finset.sort_nodup _ _).map_on fun r hr r' hr' heq => injOn_vid hm ?_ ?_ heq
      · exact (Finset.mem_sort _).mp hr
      · exact (Finset.mem_sort _).mp hr'
    rw [List.map_append, List.filter_append, List.map_replicate, List.filter_replicate_of_neg
      (by simp [SearchOptions.blank]), List.append_nil, List.map_take]
    exact (hnodup.sublist (List.take_sublist _ _)).filter _
  · rcases List.mem_append.mp hr with hr | hr
    · exact (hm.candidate ((Finset.mem_sort _).mp (List.mem_of_mem_take hr))).2.2
    · exact absurd (congrArg BasicResult.vid (List.eq_of_mem_replicate hr)) hvid

def SearchOptions.start (so : SearchOptions D) (s : State V) (q : QueryResultSet D) :
    QueryResultSet D × List Int :=
  if (q.results 0).vid ≠ -1 then filterHeads so s q else (q, [])

theorem Orderly.prepared (h : Orderly so s rs es) (hblank : ∀ r ∈ rs, r.vid = -1 → r = so.blank) :
    ∃ kept, Prepared so s rs es (so.start s (QueryResultSet.ofList so.blank rs).reverse).1
      (so.start s (QueryResultSet.ofList so.blank rs).reverse).2 kept := by
  unfold Orderly at h
  unfold SearchOptions.start
  have hlist := QueryResultSet.toList_reverse_ofList so.blank rs
  have hnum : (QueryResultSet.ofList so.blank rs).reverse.resultNum = rs.length := rfl
  generalize (QueryResultSet.ofList so.blank rs).reverse = q at h hlist hnum
  have hcontents : contents q.results q.resultNum = (rs : Multiset (BasicResult D)) := by
    rw [← q.coe_toList, hlist, Multiset.coe_reverse]
  dsimp only at h
  by_cases hfront : (q.results 0).vid = -1
  · rw [if_pos hfront] at h
    rw [if_neg (not_not_intro hfront)]
    obtain ⟨hheap, hnodup, hlive⟩ := h
    have hsplit : (rs : Multiset (BasicResult D)) =
        (rs.filter fun r => r.vid ≠ -1 : List (BasicResult D)) +
          Multiset.replicate (q.resultNum - (rs.filter fun r => r.vid ≠ -1).length) so.blank := by
      have hrest : (rs.filter fun r => !decide (r.vid ≠ -1)) =
          List.replicate (q.resultNum - (rs.filter fun r => r.vid ≠ -1).length) so.blank := by
        refine List.eq_replicate_iff.mpr ⟨?_, fun r hr => ?_⟩
        · have hlen := List.length_eq_length_filter_add (l := rs) fun r => decide (r.vid ≠ -1)
          rw [hnum]
          omega
        · obtain ⟨hr, hvid⟩ := List.mem_filter.mp hr
          exact hblank r hr (by simpa using hvid)
      rw [← Multiset.coe_replicate, ← hrest, Multiset.coe_add]
      exact Multiset.coe_eq_coe.mpr (List.filter_append_perm _ rs).symm
    refine ⟨rs.filter fun r => r.vid ≠ -1, hheap, hcontents.trans hsplit, ?_, fun r =>
      ?_, ?_, ?_, ?_⟩
    · exact (List.length_filter_le _ _).trans_eq hnum.symm
    · rw [List.mem_filter, decide_eq_true_iff]
      exact ⟨fun ⟨hr, hvid⟩ => ⟨hr, hvid, (hlive r hr hvid).1⟩, fun ⟨hr, hvid, _⟩ => ⟨hr, hvid⟩⟩
    · rw [List.filter_map] at hnodup
      exact hnodup
    · exact fun vid hvid => absurd hvid List.not_mem_nil
    · intro r hr _
      obtain ⟨hr, hvid⟩ := List.mem_filter.mp hr
      exact (hlive r hr (of_decide_eq_true hvid)).2
  · rw [if_neg hfront] at h
    rw [if_pos hfront]
    rcases h with ⟨hheap, hnodup, hlive⟩ | hgone
    · have hkeeps : filterHeads so s q = (q, (q.toList.map BasicResult.vid).reverse) := by
        refine filterHeads_keeps (fun r hr => ?_) ?_
        · rw [hlist, List.mem_reverse] at hr
          exact hlive r hr
        · rw [hlist, List.map_reverse, List.nodup_reverse]
          exact hnodup
      rw [hkeeps]
      refine ⟨rs, hheap, ?_, hnum.ge, fun r => ?_, hnodup, ?_, ?_⟩
      · rw [hcontents, hnum, Nat.sub_self, Multiset.replicate_zero, add_zero]
      · exact ⟨fun hr => ⟨hr, hlive r hr⟩, fun hr => hr.1⟩
      · intro vid hvid
        rwa [hlist, List.map_reverse, List.reverse_reverse] at hvid
      · intro r hr hseen
        refine absurd ?_ hseen
        rw [hlist, List.map_reverse, List.reverse_reverse]
        exact List.mem_map_of_mem hr
    · obtain ⟨hblanks, hseen⟩ := @filterHeads_blanks V D so s q fun r hr =>
        hgone r (List.mem_reverse.mp (hlist ▸ hr))
      rw [hseen]
      refine ⟨[], fun p c hc hn => ?_, ?_, Nat.zero_le _, fun r => ?_, .nil, ?_, ?_⟩
      · rw [hblanks c hn, hblanks p (hc.lt.trans hn)]
      · refine (contents_congr hblanks).trans ?_
        rw [contents, Multiset.map_const', Multiset.card_range, Multiset.coe_nil, zero_add]
        rfl
      · refine ⟨fun hr => absurd hr List.not_mem_nil, fun ⟨hr, hvid, hlive⟩ => ?_⟩
        rcases hgone r hr with h | h
        · exact absurd h hvid
        · exact absurd (hlive.symm.trans h) Bool.false_ne_true
      · exact fun vid hvid => absurd hvid List.not_mem_nil
      · exact fun r hr => absurd hr List.not_mem_nil

/-- What a search needs of the state: the head index answers with as many results as it is
asked for, and the selected postings can be read. -/
structure Searchable (env : Env V D) (so : SearchOptions D) (s : State V)
    (heads : Nat → List (BasicResult D)) (n : Nat) : Prop where
  length : (heads (max n so.searchInternalResultNum)).length = max n so.searchInternalResultNum
  blanks : ∀ r ∈ heads (max n so.searchInternalResultNum), r.vid = -1 → r = so.blank
  translated : ∀ h vid, s.translate h = some vid → vid ≠ -1
  served : env.fails .searchGet s.tick = false
  readable : ∀ h ∈ (selection so s heads n).2, ∃ p, s.db h = some p ∧
    (env.opt.checksumInRead = true → env.validate p (s.checkSums h) = true)

theorem searchPostings_served {postingIDs : List Nat} (q : QueryResultSet D)
    (hserved : env.fails .searchGet s.tick = false)
    (hread : ∀ h ∈ postingIDs, ∃ p, s.db h = some p ∧
      (env.opt.checksumInRead = true → env.validate p (s.checkSums h) = true)) :
    ∃ s', searchPostings env so query postingIDs q s =
      (.ok ((fresh env s.versionMap query (so.start s q).2 (s.entriesOf postingIDs)).foldl
        (fun q r => q.addPoint r.vid r.dist) (so.start s q).1), s') := by
  have hstored : postingIDs.all (fun h => (s.db h).isSome) = true := by
    rw [List.all_eq_true]
    intro h hh
    obtain ⟨p, hp, -⟩ := hread h hh
    rw [hp, Option.isSome_some]
  have hvalid : env.opt.checksumInRead = true →
      postingIDs.all (fun h => env.validate ((s.db h).getD []) (s.checkSums h)) = true := by
    intro hon
    rw [List.all_eq_true]
    intro h hh
    obtain ⟨p, hp, hv⟩ := hread h hh
    rw [hp, Option.getD_some]
    exact hv hon
  have hcall : call env .searchGet (fun s => postingIDs.all fun h => (s.db h).isSome) s =
      (true, s.ticked 1) := call_served hserved hstored
  have hgo : ¬ (!true || env.opt.checksumInRead && !(postingIDs.all fun h =>
      env.validate (((s.ticked 1).db h).getD []) ((s.ticked 1).checkSums h))) = true := by
    cases hon : env.opt.checksumInRead with
    | false => simp
    | true =>
      have hvalid' : postingIDs.all (fun h =>
        env.validate (((s.ticked 1).db h).getD []) ((s.ticked 1).checkSums h)) = true := hvalid hon
      rw [hvalid']
      decide
  refine ⟨(scanPostings env so query postingIDs (so.start s q).1 (so.start s q).2
    (s.ticked 1)).2, ?_⟩
  have hscan := @scanPostings_found V D _ env so (s.ticked 1) query postingIDs (so.start s q).1
    (so.start s q).2
  rw [searchPostings, get_bind_apply]
  show (call env .searchGet _ >>= _) s = _
  rw [bind_eq_of_eq hcall, get_bind_apply, if_neg hgo]
  exact Prod.ext (congrArg Except.ok hscan) rfl

end Nearest

def Env.line : Env Nat Nat where
  opt := plainOptions
  computeDistance a b := (a - b) + (b - a)
  epsilon := 0
  rngFactor d := d
  vectorBytes _ := []
  checkSum := ⟨0, true⟩
  priorityID _ _ := []
  search _ index _ _ := (List.range index.num).filter fun h => index.containSample h
  search_contained h := (List.mem_filter.mp h).2
  kmeans _ live := .one live
  kmeans_perm _ _ := .refl _
  fails _ _ := false
  rounds := 8

def lineOptions : SearchOptions Nat := ⟨2, 100, fun _ _ => false, false⟩

def line (versions : List UInt8) : State Nat :=
  { State.start ⟨2, fun h => 11 + 3 * h, fun _ => false⟩ (.ofLabels versions 0 8)
    fun h => some h with
    db := fun h => if h = 0 then some [⟨2, 0, 12⟩] else none
    postingSizes := fun h => if h = 0 then 1 else 0 }

end Sptag.SPANN.Dynamic
