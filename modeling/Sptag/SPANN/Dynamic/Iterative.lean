import Sptag.SPANN.Dynamic.Search
import Sptag.SPANN.Iterative

/-! The iterative search of `ExtraDynamicSearcher.h`: `SearchNextInPosting` goes through the heads
and the loaded postings, from the place where the call before it stopped. -/

namespace Sptag.SPANN.Dynamic.NextInPosting

open COMMON Lib Iterative

variable {V D : Type}

/-- What a search asks for, of which index: `accept` is the filter on the metadata of an id, true
without one. -/
structure Request (V D : Type) where
  env : Env V D
  state : State V
  accept : Int → Bool
  query : V

namespace Request

variable (q : Request V D)

def check (vid : Int) (deduper : List Int) : Bool × List Int :=
  if q.state.versionMap.deleted vid then (false, deduper)
  else if vid ∈ deduper then (false, deduper)
  else (q.accept vid, vid :: deduper)

def overflows (vectorID : Int) : Bool :=
  decide (vectorID < 0 ∨ (q.state.versionMap.count : Int) ≤ vectorID)

def result (e : Entry V) : BasicResult D := ⟨e.vid, q.env.computeDistance q.query e.vector⟩

/-- The loop over the records of a posting from `offset` on: its answer, if any, and its offset and
deduper then. -/
def scanRecords : Posting V → (offset : Nat) → List Int → Option (Answer D) × Nat × List Int
  | [], offset, deduper => (none, offset, deduper)
  | e :: es, offset, deduper =>
    if q.overflows e.vid then (some (.failed .keyOverFlow), offset + 1, deduper)
    else
      let (found, deduper) := q.check e.vid deduper
      if found then (some (.found (q.result e)), offset + 1, deduper)
      else scanRecords es (offset + 1) deduper

def searchLoop (heads : List (BasicResult D)) :
    Nat → ExtraWorkSpace (List (Posting V)) →
      Option (Option (Answer D) × ExtraWorkSpace (List (Posting V)))
  | rounds, ws =>
    if ws.postingIDs.length ≤ ws.pi then some (none, ws)
    else match rounds with
      | 0 => none
      | rounds + 1 =>
        match heads[ws.ri]?.filter fun head => head.vid ≠ -1 && decide (ws.ri ≤ ws.pi) with
        | some head =>
          let (found, deduper) := q.check head.vid ws.deduper
          let ws := { ws with ri := ws.ri + 1, deduper := deduper }
          if found then some (some (.found head), ws) else searchLoop heads rounds ws
        | none =>
          match ws.pages[ws.pi]? with
          | none => none
          | some posting =>
            let (reply, offset, deduper) :=
              q.scanRecords (posting.drop ws.offset) ws.offset ws.deduper
            let ws := { ws with offset := offset, deduper := deduper }
            match reply with
            | some (.failed ret) => some (some (.failed ret), ws)
            | reply =>
              let ws :=
                if offset = posting.length then { ws with pi := ws.pi + 1, offset := 0 } else ws
              if reply.isSome then some (reply, ws) else searchLoop heads rounds ws

def searchHeads : List (BasicResult D) → ExtraWorkSpace (List (Posting V)) →
    Answer D × ExtraWorkSpace (List (Posting V))
  | [], ws => (.done, ws)
  | head :: hs, ws =>
    if head.vid = -1 then (.done, ws)
    else
      let (found, deduper) := q.check head.vid ws.deduper
      let ws := { ws with ri := ws.ri + 1, deduper := deduper }
      if found then (.found head, ws) else searchHeads hs ws

def searchRest (heads : List (BasicResult D)) :
    Option (Answer D) × ExtraWorkSpace (List (Posting V)) →
      Answer D × ExtraWorkSpace (List (Posting V))
  | (some reply, ws) => (reply, ws)
  | (none, ws) => q.searchHeads (heads.drop ws.ri) ws

def searchNextInPosting : Next D (List (Posting V)) := fun heads ws =>
  (q.searchLoop heads (heads.length + ws.postingIDs.length) ws).map (q.searchRest heads)

def validatePostings (pids : List Nat) (postings : List (Posting V)) : Bool :=
  !q.env.opt.checksumInRead ||
    (pids.zip postings).all fun p => q.env.validate p.2 (q.state.checkSums p.1)

/-- `SearchIndexWithoutParsing`; `multiGet` is what the store answers the first and the second
time. -/
def searchIndexWithoutParsing (multiGet : Nat → List Nat → Except ErrorCode (List (Posting V)))
    (ws : ExtraWorkSpace (List (Posting V))) : Except ErrorCode (List (Posting V)) :=
  let ret :=
    match multiGet 0 ws.postingIDs with
    | .error _ => multiGet 1 ws.postingIDs
    | .ok postings => .ok postings
  match ret with
  | .error ret => .error ret
  | .ok postings => if q.validatePostings ws.postingIDs postings then .ok postings
      else .error .diskIOFail

def reached (hs : List (BasicResult D)) : List (BasicResult D) :=
  hs.takeWhile fun head => head.vid ≠ -1

def judgeResult (seen : List Int) (res : BasicResult D) :
    Verdict (BasicResult D) ErrorCode × List Int :=
  (if (q.check res.vid seen).1 then .emit res else .skip, (q.check res.vid seen).2)

def judge : List Int → Item D (Entry V) → Verdict (BasicResult D) ErrorCode × List Int
  | seen, .head res => q.judgeResult seen res
  | seen, .entry e =>
    if q.overflows e.vid then (.fail .keyOverFlow, seen) else q.judgeResult seen (q.result e)

end Request

section Records

variable {q : Request V D}

theorem scanRecords_spec (es : Posting V) (offset : Nat) (seen : List Int) :
    ∃ reply n seen', q.scanRecords es offset seen = (reply, offset + n, seen') ∧ n ≤ es.length ∧
      ask q.judge seen (es.map .entry) = (reply.getD .done, seen', (es.drop n).map .entry) ∧
      reply ≠ some .done ∧ (reply = none → n = es.length) := by
  induction es generalizing offset seen with
  | nil => exact ⟨none, 0, seen, rfl, Nat.le_refl _, rfl, by rintro ⟨⟩, fun _ => rfl⟩
  | cons e es ih =>
    rw [Request.scanRecords, List.map_cons, ask, Request.judge]
    by_cases hover : q.overflows e.vid = true
    · rw [if_pos hover, if_pos hover]
      exact ⟨_, 1, seen, rfl, Nat.le_add_left _ _, rfl, by rintro ⟨⟩, by rintro ⟨⟩⟩
    · rw [if_neg hover, if_neg hover, Request.judgeResult]
      have hvid : (q.result e).vid = e.vid := rfl
      rw [hvid]
      rcases q.check e.vid seen with ⟨found, deduper⟩
      cases found with
      | true => exact ⟨_, 1, deduper, rfl, Nat.le_add_left _ _, rfl, by rintro ⟨⟩, by rintro ⟨⟩⟩
      | false =>
        obtain ⟨reply, n, seen', hrun, hle, hask, hdone, hnone⟩ := ih (offset + 1) deduper
        refine ⟨reply, n + 1, seen', ?_, Nat.succ_le_succ hle, hask, hdone, fun h =>
          congrArg _ (hnone h)⟩
        rw [Nat.add_comm n 1, ← Nat.add_assoc]
        exact hrun

theorem reached_cons (head : BasicResult D) (hs : List (BasicResult D)) :
    Request.reached (head :: hs) = if head.vid = -1 then [] else head :: Request.reached hs := by
  rw [Request.reached, List.takeWhile_cons]
  by_cases hvid : head.vid = -1
  · rw [if_pos hvid, if_neg (by simpa using hvid)]
  · rw [if_neg hvid, if_pos (by simpa using hvid)]
    rfl

theorem searchHeads_spec (hs : List (BasicResult D)) (ws : ExtraWorkSpace (List (Posting V))) :
    ∃ reply n seen', q.searchHeads hs ws = (reply, { ws with ri := ws.ri + n, deduper := seen' }) ∧
      ask q.judge ws.deduper ((Request.reached hs).map .head) =
        (reply, seen', (Request.reached (hs.drop n)).map .head) := by
  induction hs generalizing ws with
  | nil => exact ⟨.done, 0, ws.deduper, rfl, rfl⟩
  | cons head hs ih =>
    rw [Request.searchHeads, reached_cons]
    by_cases hvid : head.vid = -1
    · rw [if_pos hvid, if_pos hvid]
      refine ⟨.done, 0, ws.deduper, rfl, ?_⟩
      rw [List.drop_zero, reached_cons, if_pos hvid]
      rfl
    · rw [if_neg hvid, if_neg hvid, List.map_cons, ask, Request.judge, Request.judgeResult]
      rcases q.check head.vid ws.deduper with ⟨found, deduper⟩
      cases found with
      | true => exact ⟨_, 1, deduper, rfl, rfl⟩
      | false =>
        obtain ⟨reply, n, seen', hrun, hask⟩ := ih { ws with ri := ws.ri + 1, deduper := deduper }
        refine ⟨reply, n + 1, seen', ?_, hask⟩
        rw [Nat.add_comm n 1, ← Nat.add_assoc]
        exact hrun

end Records

structure Place (heads : List (BasicResult D)) (ws : ExtraWorkSpace (List (Posting V)))
    (ps : List (Posting V)) : Prop where
  loaded : ws.loadPosting = false
  length_eq : ws.pages.length = ws.postingIDs.length
  left : ws.pages.drop ws.pi = [] ∧ ps = [] ∨
    ∃ p tail, ws.pages.drop ws.pi = p :: tail ∧ ws.offset ≤ p.length ∧ ps = p.drop ws.offset :: tail
  near : ps ≠ [] → Request.reached (heads.drop ws.ri) ≠ [] → ws.pi ≤ ws.ri ∧ ws.ri ≤ ws.pi + 1

def items (heads : List (BasicResult D)) (ws : ExtraWorkSpace (List (Posting V)))
    (ps : List (Posting V)) :
    List (Item D (Entry V)) :=
  merge (decide (ws.ri ≤ ws.pi)) (Request.reached (heads.drop ws.ri)) ps

def Left (heads : List (BasicResult D)) (ws : ExtraWorkSpace (List (Posting V))) (seen : List Int)
    (is : List (Item D (Entry V))) : Prop :=
  ws.deduper = seen ∧ ∃ ps, Place heads ws ps ∧ is = items heads ws ps

theorem Place.length_le {heads : List (BasicResult D)} {ws : ExtraWorkSpace (List (Posting V))}
    {ps : List (Posting V)} (h : Place heads ws ps) : ps.length ≤ ws.postingIDs.length := by
  rw [← h.length_eq]
  rcases h.left with ⟨-, rfl⟩ | ⟨p, tail, hpages, -, rfl⟩
  · exact Nat.zero_le _
  · have hlength := congrArg List.length hpages
    rw [List.length_drop, List.length_cons] at hlength
    rw [List.length_cons]
    omega

section Call

variable {q : Request V D} {heads : List (BasicResult D)} {ws : ExtraWorkSpace (List (Posting V))}
  {ps : List (Posting V)}

theorem reached_drop {hs : List (BasicResult D)} {ri : Nat} {head : BasicResult D}
    (h : Request.reached (heads.drop ri) = head :: hs) :
    heads[ri]? = some head ∧ head.vid ≠ -1 ∧ Request.reached (heads.drop (ri + 1)) = hs := by
  cases hdrop : heads.drop ri with
  | nil =>
    rw [hdrop] at h
    cases h
  | cons head' hs' =>
    rw [hdrop, reached_cons] at h
    split at h
    · cases h
    · rename_i hvid
      obtain ⟨rfl, rfl⟩ := List.cons.inj h
      have htail : heads.drop (ri + 1) = hs' := by rw [← List.tail_drop, hdrop, List.tail_cons]
      exact ⟨by rw [← List.head?_drop, hdrop, List.head?_cons], hvid, by rw [htail]⟩

theorem filter_eq_none (hdue : ws.ri ≤ ws.pi → Request.reached (heads.drop ws.ri) = []) :
    (heads[ws.ri]?.filter fun head => head.vid ≠ -1 && decide (ws.ri ≤ ws.pi)) = none := by
  rw [← List.head?_drop]
  cases hdrop : heads.drop ws.ri with
  | nil => rfl
  | cons head hs =>
    rw [hdrop, reached_cons] at hdue
    rw [List.head?_cons, Option.filter_some]
    refine if_neg fun h => ?_
    obtain ⟨hvid, hri⟩ := Bool.and_eq_true_iff.mp h
    have hnil := hdue (of_decide_eq_true hri)
    rw [if_neg (of_decide_eq_true hvid)] at hnil
    cases hnil

theorem Place.head {head : BasicResult D} {hs : List (BasicResult D)} (h : Place heads ws ps)
    (hreached : Request.reached (heads.drop ws.ri) = head :: hs) (hdue : ws.ri ≤ ws.pi)
    (deduper : List Int) :
    items heads ws ps = .head head :: items heads
      { ws with ri := ws.ri + 1, deduper := deduper } ps ∧
      Place heads { ws with ri := ws.ri + 1, deduper := deduper } ps := by
  obtain ⟨-, -, hnext⟩ := reached_drop hreached
  have hnear : ps ≠ [] → ws.pi ≤ ws.ri ∧ ws.ri ≤ ws.pi + 1 := fun hps =>
    h.near hps (by rw [hreached]; exact List.cons_ne_nil _ _)
  refine ⟨?_, h.loaded, h.length_eq, h.left, fun hps _ => ?_⟩
  · rw [items, items, hreached, hnext]
    cases ps with
    | nil =>
      rw [merge_end, merge_end]
      rfl
    | cons es ps =>
      have hpi := (hnear (List.cons_ne_nil _ _)).1
      rw [decide_eq_true hdue, decide_eq_false (by show ¬ ws.ri + 1 ≤ ws.pi; omega), merge_due]
  · have hpi := (hnear hps).1
    show ws.pi ≤ ws.ri + 1 ∧ ws.ri + 1 ≤ ws.pi + 1
    omega

theorem Place.next {p es : Posting V} {tail : List (Posting V)} (h : Place heads ws (es :: tail))
    (hpages : ws.pages.drop ws.pi = p :: tail)
    (hdue : ws.ri ≤ ws.pi → Request.reached (heads.drop ws.ri) = []) (deduper : List Int) :
    Place heads { ws with offset := 0, pi := ws.pi + 1, deduper := deduper } tail ∧
      items heads { ws with offset := 0, pi := ws.pi + 1, deduper := deduper } tail =
        merge true (Request.reached (heads.drop ws.ri)) tail := by
  have hnear := h.near (List.cons_ne_nil _ _)
  have htail : ws.pages.drop (ws.pi + 1) = tail := by rw [← List.tail_drop, hpages, List.tail_cons]
  refine ⟨⟨h.loaded, h.length_eq, ?_, fun _ hne => ?_⟩, ?_⟩
  · cases tail with
    | nil => exact .inl ⟨htail, rfl⟩
    | cons p' tail => exact .inr ⟨p', tail, htail, Nat.zero_le _, rfl⟩
  · have hri : ¬ ws.ri ≤ ws.pi := fun hle => hne (hdue hle)
    have := hnear hne
    show ws.pi + 1 ≤ ws.ri ∧ ws.ri ≤ ws.pi + 1 + 1
    omega
  · rw [items]
    by_cases hne : Request.reached (heads.drop ws.ri) = []
    · dsimp only
      rw [hne]
      exact merge_nil _ _ _
    · rw [decide_eq_true (hnear hne).2]

/-- The loop answers as the judge does, and leaves what the judge leaves. -/
def Serves (q : Request V D) (heads : List (BasicResult D)) (rounds : Nat)
    (ws : ExtraWorkSpace (List (Posting V))) (ps : List (Posting V)) : Prop :=
  ∃ ws', (q.searchLoop heads rounds ws).map (q.searchRest heads) =
      some ((ask q.judge ws.deduper (items heads ws ps)).1, ws') ∧
    Left heads ws' (ask q.judge ws.deduper (items heads ws ps)).2.1
      (ask q.judge ws.deduper (items heads ws ps)).2.2

theorem searchLoop_end (rounds : Nat) (h : Place heads ws []) : Serves q heads rounds ws [] := by
  have hpages : ws.pages.drop ws.pi = [] := by
    rcases h.left with ⟨hpages, -⟩ | ⟨p, tail, -, -, hps⟩
    · exact hpages
    · cases hps
  have hpi : ws.postingIDs.length ≤ ws.pi := h.length_eq ▸ List.drop_eq_nil_iff.mp hpages
  obtain ⟨reply, n, seen', hrun, hask⟩ := searchHeads_spec (q := q) (heads.drop ws.ri) ws
  have hloop : q.searchLoop heads rounds ws = some (none, ws) := by
    cases rounds with
    | zero => exact if_pos hpi
    | succ rounds => exact if_pos hpi
  rw [Serves, items, merge_end, hask, hloop, Option.map_some, Request.searchRest, hrun]
  refine ⟨_, rfl, rfl, [], ⟨h.loaded, h.length_eq, .inl ⟨hpages, rfl⟩, fun hps =>
    absurd rfl hps⟩, ?_⟩
  rw [items, merge_end, List.drop_drop]

theorem serves_posting {rounds : Nat} {p : Posting V} {tail : List (Posting V)}
    (h : Place heads ws (p.drop ws.offset :: tail)) (hpages : ws.pages.drop ws.pi = p :: tail)
    (hoffset : ws.offset ≤ p.length)
    (hdue : ws.ri ≤ ws.pi → Request.reached (heads.drop ws.ri) = [])
    (hrest : ∀ deduper,
      Place heads { ws with offset := 0, pi := ws.pi + 1, deduper := deduper } tail →
        Serves q heads rounds { ws with offset := 0, pi := ws.pi + 1, deduper := deduper } tail) :
    Serves q heads (rounds + 1) ws (p.drop ws.offset :: tail) := by
  have hpi : ¬ ws.postingIDs.length ≤ ws.pi := by
    rw [← h.length_eq, ← List.drop_eq_nil_iff, hpages]
    exact List.cons_ne_nil _ _
  have hposting : ws.pages[ws.pi]? = some p := by rw [← List.head?_drop, hpages, List.head?_cons]
  have hitems : items heads ws (p.drop ws.offset :: tail) =
      (p.drop ws.offset).map .entry ++ merge true (Request.reached (heads.drop ws.ri)) tail :=
    merge_posting fun hri => hdue (of_decide_eq_true hri)
  obtain ⟨reply, n, seen', hrun, hle, hask, hdone, hnone⟩ :=
    scanRecords_spec (q := q) (p.drop ws.offset) ws.offset ws.deduper
  rw [List.length_drop] at hle
  rw [Serves, Request.searchLoop, if_neg hpi]
  dsimp only
  rw [filter_eq_none hdue, hposting, hitems, ask_append, hask]
  dsimp only
  rw [hrun]
  have hstay : Place heads { ws with offset := ws.offset + n, deduper := seen' }
      (p.drop (ws.offset + n) :: tail) :=
    ⟨h.loaded, h.length_eq, .inr ⟨p, tail, hpages, by show ws.offset + n ≤ p.length; omega, rfl⟩,
      fun _ => h.near (List.cons_ne_nil _ _)⟩
  have hleft : items heads { ws with offset := ws.offset + n, deduper := seen' }
      (p.drop (ws.offset + n) :: tail) =
      ((p.drop ws.offset).drop n).map .entry ++
        merge true (Request.reached (heads.drop ws.ri)) tail := by
    rw [List.drop_drop]
    exact merge_posting fun hri => hdue (of_decide_eq_true hri)
  obtain ⟨hnext, hitems'⟩ := h.next hpages hdue seen'
  cases reply with
  | none =>
    have hend : ws.offset + n = p.length := by
      rw [hnone rfl, List.length_drop]
      omega
    rw [Option.getD_none]
    dsimp only
    rw [if_pos hend, ← hitems']
    exact hrest seen' hnext
  | some reply =>
    cases reply with
    | done => exact absurd rfl hdone
    | failed ret => exact ⟨_, rfl, rfl, _, hstay, hleft.symm⟩
    | found res =>
      by_cases hend : ws.offset + n = p.length
      · have hnil : (p.drop ws.offset).drop n = [] := by
          rw [List.drop_drop, hend, List.drop_length]
        rw [hnil]
        dsimp only
        rw [if_pos hend]
        exact ⟨_, rfl, rfl, _, hnext, hitems'.symm⟩
      · dsimp only
        rw [if_neg hend]
        exact ⟨_, rfl, rfl, _, hstay, hleft.symm⟩

theorem serves_head {rounds : Nat} {head : BasicResult D} {hs : List (BasicResult D)}
    (h : Place heads ws ps) (hpi : ws.pi < ws.postingIDs.length) (hri : ws.ri ≤ ws.pi)
    (hreached : Request.reached (heads.drop ws.ri) = head :: hs)
    (hrest : ∀ deduper, Place heads { ws with ri := ws.ri + 1, deduper := deduper } ps →
      Serves q heads rounds { ws with ri := ws.ri + 1, deduper := deduper } ps) :
    Serves q heads (rounds + 1) ws ps := by
  obtain ⟨hhead, hvid, hnext⟩ := reached_drop hreached
  have hfilter : (heads[ws.ri]?.filter fun head => head.vid ≠ -1 && decide (ws.ri ≤ ws.pi)) =
      some head := by
    rw [hhead, Option.filter_some]
    exact if_pos (Bool.and_eq_true_iff.mpr ⟨decide_eq_true hvid, decide_eq_true hri⟩)
  rw [Serves, Request.searchLoop, if_neg (not_le.mpr hpi)]
  dsimp only
  rw [hfilter]
  dsimp only
  rcases hcheck : q.check head.vid ws.deduper with ⟨found, deduper⟩
  obtain ⟨hitems, hplace⟩ := h.head hreached hri deduper
  rw [hitems, ask, Request.judge, Request.judgeResult, hcheck]
  cases found with
  | true => exact ⟨_, rfl, rfl, _, hplace, rfl⟩
  | false => exact hrest deduper hplace

theorem searchLoop_spec {rounds : Nat} (h : Place heads ws ps)
    (hrounds : (Request.reached (heads.drop ws.ri)).length + ps.length ≤ rounds) :
    Serves q heads rounds ws ps := by
  induction rounds generalizing ws ps with
  | zero =>
    obtain rfl : ps = [] := List.length_eq_zero_iff.mp (by omega)
    exact searchLoop_end 0 h
  | succ rounds ih =>
    rcases h.left with ⟨-, rfl⟩ | ⟨p, tail, hpages, hoffset, rfl⟩
    · exact searchLoop_end _ h
    · rw [List.length_cons] at hrounds
      by_cases hdue : ws.ri ≤ ws.pi → Request.reached (heads.drop ws.ri) = []
      · exact serves_posting h hpages hoffset hdue fun deduper hnext => ih hnext (by
          show (Request.reached (heads.drop ws.ri)).length + tail.length ≤ rounds
          omega)
      · obtain ⟨hri, hne⟩ := Classical.not_imp.mp hdue
        obtain ⟨head, hs, hreached⟩ := List.exists_cons_of_ne_nil hne
        have hpi : ws.pi < ws.postingIDs.length := by
          rw [← h.length_eq, ← not_le, ← List.drop_eq_nil_iff, hpages]
          exact List.cons_ne_nil _ _
        refine serves_head h hpi hri hreached fun deduper hplace => ih hplace ?_
        show (Request.reached (heads.drop (ws.ri + 1))).length + (tail.length + 1) ≤ rounds
        rw [(reached_drop hreached).2.2]
        rw [hreached, List.length_cons] at hrounds
        omega

end Call

/-- What is searched: the results of the head index, and the store the postings are loaded from. -/
structure Batch (V D : Type) where
  request : Request V D
  maxDist : D
  searchInternalResultNum : Nat
  multiGet : Nat → List Nat → Except ErrorCode (List (Posting V))
  results : List (BasicResult D)
  pages : List (Posting V)

namespace Batch

variable (k : Batch V D)

def index : Heads D where
  translate := k.request.state.translate
  maxDist := k.maxDist
  checkValidPosting := checkValidPosting k.request.state
  searchInternalResultNum := k.searchInternalResultNum

def heads : List (BasicResult D) := (k.index.select k.results).1

def postingIDs : List Nat := (k.index.select k.results).2

variable (postings : List (Posting V))

structure Holding : Prop where
  load_eq : k.request.searchIndexWithoutParsing k.multiGet
    (.asked k.index k.results k.pages) = .ok postings
  length_eq : postings.length = k.postingIDs.length

def entries : List (BasicResult D) := postings.flatten.map k.request.result

def Wanted (vid : Int) : Prop :=
  k.request.state.versionMap.deleted vid = false ∧ k.request.accept vid = true

def Delivers : Prop :=
  Iterative.Delivers k.index (k.request.searchIndexWithoutParsing k.multiGet)
    k.request.searchNextInPosting
    k.results k.pages k.Wanted (present k.heads ++ k.entries postings)

def Clean : Prop :=
  ∀ head ∈ present k.heads, k.Wanted head.vid →
    head.vid ∈ (Request.reached k.heads).map BasicResult.vid ∨
      head.vid ∈ (k.entries postings).map BasicResult.vid

end Batch

section Batch

variable {q : Request V D} {k : Batch V D} {postings : List (Posting V)}

def Request.candidate (q : Request V D) : Item D (Entry V) → BasicResult D
  | .head res => res
  | .entry e => q.result e

theorem deleted_of_overflows {vid : Int} (h : q.overflows vid = true) :
    q.state.versionMap.deleted vid = true := by
  rw [VersionLabel.deleted, VersionLabel.label?_eq_none_iff.mpr (of_decide_eq_true h)]

theorem sift_eq_novel (seen : List Int) (is : List (Item D (Entry V))) :
    sift q.judge seen is =
      novel BasicResult.vid q.state.versionMap.deleted q.accept seen (is.map q.candidate) := by
  induction is generalizing seen with
  | nil => rfl
  | cons i is ih =>
    have hresult : ∀ res : BasicResult D, q.candidate i = res → q.judge seen i =
      q.judgeResult seen res →
        sift q.judge seen (i :: is) =
          novel BasicResult.vid q.state.versionMap.deleted q.accept seen
            ((i :: is).map q.candidate) := by
      rintro res rfl hjudge
      rw [List.map_cons, novel, sift, hjudge, Request.judgeResult]
      by_cases hdeleted : q.state.versionMap.deleted (q.candidate i).vid = true
      · have hcheck : q.check (q.candidate i).vid seen = (false, seen) := if_pos hdeleted
        rw [hcheck]
        dsimp only
        rw [if_neg Bool.false_ne_true, if_pos (.inl hdeleted)]
        exact ih seen
      · by_cases hseen : (q.candidate i).vid ∈ seen
        · have hcheck : q.check (q.candidate i).vid seen = (false, seen) :=
            (if_neg hdeleted).trans (if_pos hseen)
          rw [hcheck]
          dsimp only
          rw [if_neg Bool.false_ne_true, if_pos (.inr hseen)]
          exact ih seen
        · have hcheck : q.check (q.candidate i).vid seen =
              (q.accept (q.candidate i).vid, (q.candidate i).vid :: seen) :=
            (if_neg hdeleted).trans (if_neg hseen)
          rw [hcheck, if_neg (not_or.mpr ⟨hdeleted, hseen⟩)]
          dsimp only
          by_cases haccept : q.accept (q.candidate i).vid = true
          · rw [if_pos haccept, if_pos haccept]
            exact congrArg _ (ih _)
          · rw [if_neg haccept, if_neg haccept]
            exact ih _
    cases i with
    | head res => exact hresult res rfl rfl
    | entry e =>
      by_cases hover : q.overflows e.vid = true
      · have hdeleted : q.state.versionMap.deleted (q.candidate (.entry (D := D) e)).vid = true :=
          deleted_of_overflows hover
        rw [List.map_cons, novel, if_pos (.inl hdeleted), sift, Request.judge, if_pos hover]
        exact ih seen
      · refine hresult (q.result e) rfl ?_
        rw [Request.judge, if_neg hover]

theorem mem_candidates_merge {hs : List (BasicResult D)} {r : BasicResult D} :
    r ∈ (merge true hs postings).map q.candidate ↔ r ∈ hs ++ postings.flatten.map q.result := by
  rw [List.mem_map, List.mem_append, List.mem_map]
  simp only [mem_iff_headsOf_entriesOf, headsOf_merge, entriesOf_merge]
  constructor
  · rintro ⟨i, ⟨res, hres, rfl⟩ | ⟨e, he, rfl⟩, rfl⟩
    · exact .inl hres
    · exact .inr ⟨e, he, rfl⟩
  · rintro (hres | ⟨e, he, rfl⟩)
    · exact ⟨.head r, .inl ⟨r, hres, rfl⟩, rfl⟩
    · exact ⟨.entry e, .inr ⟨e, he, rfl⟩, rfl⟩

namespace Batch

/-- What the calls find: the first candidate of each id that is wanted, in the order in which they
are looked at. -/
def out (k : Batch V D) (postings : List (Posting V)) : List (BasicResult D) :=
  novel BasicResult.vid k.request.state.versionMap.deleted k.request.accept []
    ((merge true (Request.reached k.heads) postings).map k.request.candidate)

theorem exhaust_eq (h : k.Holding postings) :
    ∃ calls, exhaust (searchDiskIndexIterative k.index
      (k.request.searchIndexWithoutParsing k.multiGet)
      k.request.searchNextInPosting) calls (k.results, .start k.pages) = some (k.out postings) := by
  have hleft : (postings.drop 0 = [] ∧ postings = []) ∨
      ∃ p tail, postings.drop 0 = p :: tail ∧ 0 ≤ p.length ∧ postings = p.drop 0 :: tail := by
    cases postings with
    | nil => exact .inl ⟨rfl, rfl⟩
    | cons p tail => exact .inr ⟨p, tail, rfl, Nat.zero_le _, rfl⟩
  rw [out, ← sift_eq_novel]
  refine ⟨_, exhaust_of_left (Left k.heads) (fun ws v is hleft => ?_) (fun ws b v is hleft => ?_)
    (fun ws v is hleft => ?_) h.load_eq
    ⟨rfl, postings, ⟨rfl, h.length_eq, hleft, fun _ _ => ⟨Nat.le_refl _, Nat.zero_le _⟩⟩, rfl⟩⟩
  · obtain ⟨-, ps, hplace, -⟩ := hleft
    exact hplace.loaded
  · obtain ⟨hseen, ps, hplace, his⟩ := hleft
    exact ⟨hseen, ps, ⟨hplace.loaded, hplace.length_eq, hplace.left, hplace.near⟩, his⟩
  · obtain ⟨rfl, ps, hplace, rfl⟩ := hleft
    refine searchLoop_spec hplace (Nat.add_le_add ?_ hplace.length_le)
    exact ((List.takeWhile_prefix _).length_le).trans
      (by rw [List.length_drop]; exact Nat.sub_le ..)

theorem exact_iff : Exact k.Wanted (present k.heads ++ k.entries postings) (k.out postings) ↔
    k.Clean postings := by
  have hall : ∀ vid, vid ∈ (k.out postings).map BasicResult.vid ↔ k.Wanted vid ∧
      (vid ∈ (Request.reached k.heads).map BasicResult.vid ∨
        vid ∈ (k.entries postings).map BasicResult.vid) := by
    intro vid
    have hmerge : vid ∈ ((merge true (Request.reached k.heads) postings).map
        k.request.candidate).map BasicResult.vid ↔
          vid ∈ (Request.reached k.heads ++ k.entries postings).map BasicResult.vid := by
      rw [List.mem_map, List.mem_map]
      exact exists_congr fun r => and_congr_left fun _ => mem_candidates_merge
    rw [out, mem_keys_novel, hmerge, List.map_append, List.mem_append]
    exact and_congr_left fun _ => ⟨fun h => ⟨h.1, h.2.1⟩, fun h => ⟨h.1, h.2, List.not_mem_nil⟩⟩
  have hreached : ∀ head ∈ Request.reached k.heads, head ∈ present k.heads := fun head hhead =>
    List.mem_filter.mpr ⟨(List.takeWhile_prefix _).subset hhead,
      @List.mem_takeWhile_imp _ (fun head : BasicResult D => head.vid ≠ -1) _ _ hhead⟩
  constructor
  · intro he head hhead hwanted
    refine ((hall _).mp ((he.mem_iff _).mpr ⟨hwanted, ?_⟩)).2
    exact List.mem_map_of_mem (List.mem_append_left _ hhead)
  · intro hc
    refine ⟨nodup_keys_novel, fun r hr => ?_, fun vid =>
      (hall vid).trans (and_congr_right fun hwanted => ?_)⟩
    · rcases List.mem_append.mp (mem_candidates_merge.mp (mem_of_mem_novel hr)) with hr | hr
      · exact List.mem_append_left _ (hreached r hr)
      · exact List.mem_append_right _ hr
    · rw [List.map_append, List.mem_append]
      constructor
      · refine Or.imp_left fun hvid => ?_
        obtain ⟨head, hhead, rfl⟩ := List.mem_map.mp hvid
        exact List.mem_map_of_mem (hreached head hhead)
      · rintro (hvid | hvid)
        · obtain ⟨head, hhead, rfl⟩ := List.mem_map.mp hvid
          exact hc head hhead hwanted
        · exact .inr hvid

theorem delivers_iff (h : k.Holding postings) : k.Delivers postings ↔ k.Clean postings := by
  obtain ⟨calls, hout⟩ := exhaust_eq h
  constructor
  · rintro ⟨calls', out, hout', hexact⟩
    obtain rfl := exhaust_unique hout' hout
    exact exact_iff.mp hexact
  · exact fun hclean => ⟨calls, _, hout, exact_iff.mpr hclean⟩

end Batch

end Batch

end Sptag.SPANN.Dynamic.NextInPosting
