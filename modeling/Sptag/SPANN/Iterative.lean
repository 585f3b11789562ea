import Sptag.Common
import Sptag.Common.QueryResultSet
import Sptag.Lib.Cursor

/-! The iterative search of `SPANN::Index` over one batch of heads: `SearchDiskIndexIterative`,
and the `SearchIterativeNext` that the two searchers share. -/

namespace Sptag.SPANN.Iterative

open COMMON Lib

variable {D P : Type}

/-- The place of an iterative search. `pages` are the buffers the postings are read into, the
deduper is the set of the ids it was given. -/
structure ExtraWorkSpace (P : Type) where
  postingIDs : List Nat
  pages : P
  deduper : List Int
  ri : Nat
  pi : Nat
  offset : Nat
  loadPosting : Bool
  relaxedMono : Bool
  loadedPostingNum : Nat

abbrev Answer (D : Type) := Reply (BasicResult D) ErrorCode

abbrev Next (D P : Type) :=
  List (BasicResult D) → ExtraWorkSpace P → Option (Answer D × ExtraWorkSpace P)

/-- What `SearchDiskIndexIterative` reads of the index. `translate` is `none` where the map holds
`MaxSize`, and everywhere when it has no rows. -/
structure Heads (D : Type) where
  translate : Nat → Option Int
  maxDist : D
  checkValidPosting : Nat → Bool
  searchInternalResultNum : Nat

namespace Heads

variable (index : Heads D)

def translateHead (res : BasicResult D) : BasicResult D :=
  match index.translate res.vid.toNat with
  | none => ⟨-1, index.maxDist⟩
  | some vid => ⟨vid, res.dist⟩

def select : List (BasicResult D) → List (BasicResult D) × List Nat
  | [] => ([], [])
  | res :: rs =>
    if res.vid = -1 then (res :: rs, [])
    else
      let (rs', postingIDs) := select rs
      (index.translateHead res :: rs',
        if index.checkValidPosting res.vid.toNat then res.vid.toNat :: postingIDs else postingIDs)

end Heads

def searchIterativeNext (load : ExtraWorkSpace P → Except ErrorCode P)
    (searchNextInPosting : Next D P) :
    Next D P := fun heads ws =>
  if ws.loadPosting then
    match load ws with
    | .error ret => some (.failed ret, ws)
    | .ok pages =>
      searchNextInPosting heads
        { ws with pages := pages, ri := 0, pi := 0, offset := 0, loadPosting := false }
  else searchNextInPosting heads ws

def conclude (index : Heads D) (heads : List (BasicResult D)) :
    Answer D × ExtraWorkSpace P → Answer D × List (BasicResult D) × ExtraWorkSpace P
  | (.done, ws) =>
    (.done, heads, { ws with
      relaxedMono := ws.relaxedMono || decide
        (index.searchInternalResultNum ≤ ws.loadedPostingNum) })
  | (ret, ws) => (ret, heads, ws)

def searchDiskIndexIterative (index : Heads D) (load : ExtraWorkSpace P → Except ErrorCode P)
    (searchNextInPosting : Next D P) (s : List (BasicResult D) × ExtraWorkSpace P) :
    Option (Answer D × List (BasicResult D) × ExtraWorkSpace P) :=
  if s.2.loadPosting then
    let (heads, postingIDs) := index.select s.1
    (searchIterativeNext load searchNextInPosting heads { s.2 with
      postingIDs := postingIDs
      loadedPostingNum := s.2.loadedPostingNum + postingIDs.length }).map (conclude index heads)
  else (searchIterativeNext load searchNextInPosting s.1 s.2).map (conclude index s.1)

def ExtraWorkSpace.start (pages : P) : ExtraWorkSpace P where
  postingIDs := []
  pages := pages
  deduper := []
  ri := 0
  pi := 0
  offset := 0
  loadPosting := true
  relaxedMono := false
  loadedPostingNum := 0

structure Exact (wanted : Int → Prop) (candidates out : List (BasicResult D)) : Prop where
  once : (out.map BasicResult.vid).Nodup
  own : ∀ r ∈ out, r ∈ candidates
  mem_iff : ∀ vid, vid ∈ out.map BasicResult.vid ↔ wanted vid ∧ vid ∈ candidates.map BasicResult.vid

theorem Exact.perm {wanted : Int → Prop} {candidates out out' : List (BasicResult D)}
    (h : out.Perm out') :
    Exact wanted candidates out ↔ Exact wanted candidates out' := by
  have hvids := h.map BasicResult.vid
  constructor
  · exact fun he => ⟨hvids.nodup_iff.mp he.once, fun r hr => he.own r (h.mem_iff.mpr hr),
      fun vid => hvids.mem_iff.symm.trans (he.mem_iff vid)⟩
  · exact fun he => ⟨hvids.nodup_iff.mpr he.once, fun r hr => he.own r (h.mem_iff.mp hr),
      fun vid => hvids.mem_iff.trans (he.mem_iff vid)⟩

def Delivers (index : Heads D) (load : ExtraWorkSpace P → Except ErrorCode P)
    (searchNextInPosting : Next D P) (heads : List (BasicResult D)) (pages : P)
    (wanted : Int → Prop)
    (candidates : List (BasicResult D)) : Prop :=
  ∃ calls out, exhaust (searchDiskIndexIterative index load searchNextInPosting) calls
    (heads, .start pages) = some out ∧ Exact wanted candidates out

def present (heads : List (BasicResult D)) : List (BasicResult D) :=
  heads.filter fun r => r.vid ≠ -1

inductive Item (D E : Type)
  | head (res : BasicResult D)
  | entry (e : E)

/-- Before each posting one head, and the rest of the heads behind the postings; `due` tells
whether the head of the first posting is still to come. -/
def merge {E : Type} : Bool → List (BasicResult D) → List (List E) → List (Item D E)
  | _, hs, [] => hs.map .head
  | true, [], p :: ps => p.map .entry ++ merge true [] ps
  | true, h :: hs, p :: ps => .head h :: (p.map .entry ++ merge true hs ps)
  | false, hs, p :: ps => p.map .entry ++ merge true hs ps

section Merge

variable {E : Type} {hs : List (BasicResult D)} {p : List E} {ps : List (List E)}

@[simp] theorem merge_end (due : Bool) : merge due hs ([] : List (List E)) = hs.map .head := by
  rw [merge]

theorem merge_due (h : BasicResult D) :
    merge true (h :: hs) (p :: ps) = .head h :: merge false hs (p :: ps) := rfl

theorem merge_posting {due : Bool} (h : due = true → hs = []) :
    merge due hs (p :: ps) = p.map .entry ++ merge true hs ps := by
  cases due with
  | true =>
    cases h rfl
    rfl
  | false => cases hs <;> rfl

theorem merge_nil (due due' : Bool) (ps : List (List E)) :
    merge due ([] : List (BasicResult D)) ps = merge due' [] ps := by
  cases ps with
  | nil => rfl
  | cons p ps => rw [merge_posting fun _ => rfl, merge_posting fun _ => rfl]

def headsOf : List (Item D E) → List (BasicResult D) :=
  List.filterMap fun
    | .head res => some res
    | .entry _ => none

def entriesOf : List (Item D E) → List E :=
  List.filterMap fun
    | .head _ => none
    | .entry e => some e

@[simp] theorem headsOf_posting (is : List (Item D E)) : headsOf (p.map .entry ++ is) =
  headsOf is := by
  induction p with
  | nil => rfl
  | cons e p ih => exact ih

@[simp] theorem entriesOf_posting (is : List (Item D E)) : entriesOf (p.map .entry ++ is) = p ++
  entriesOf is := by
  induction p with
  | nil => rfl
  | cons e p ih => exact congrArg (e :: ·) ih

theorem headsOf_heads (hs : List (BasicResult D)) : headsOf (hs.map (Item.head (E := E))) = hs := by
  induction hs with
  | nil => rfl
  | cons h hs ih => exact congrArg (h :: ·) ih

theorem entriesOf_heads (hs : List (BasicResult D)) :
    entriesOf (hs.map (Item.head (E := E))) = [] := by
  induction hs with
  | nil => rfl
  | cons h hs ih => exact ih

theorem mem_iff_headsOf_entriesOf {i : Item D E} {is : List (Item D E)} : i ∈ is ↔
    (∃ res ∈ headsOf is, i = .head res) ∨ ∃ e ∈ entriesOf is, i = .entry e := by
  induction is with
  | nil => exact iff_of_false List.not_mem_nil (by rintro (⟨_, h, -⟩ | ⟨_, h, -⟩) <;> cases h)
  | cons j is ih =>
    rw [List.mem_cons, ih]
    cases j with
    | head res =>
      have hheads : headsOf (Item.head res :: is) = res :: headsOf is := rfl
      have hentries : entriesOf (Item.head res :: is) = entriesOf is := rfl
      rw [hheads, hentries, List.exists_mem_cons_iff, or_assoc]
    | entry e =>
      have hheads : headsOf (Item.entry e :: is) = headsOf is := rfl
      have hentries : entriesOf (Item.entry e :: is) = e :: entriesOf is := rfl
      rw [hheads, hentries, List.exists_mem_cons_iff, or_left_comm]

theorem headsOf_merge (due : Bool) (hs : List (BasicResult D)) (ps : List (List E)) :
    headsOf (merge due hs ps) = hs := by
  induction ps generalizing due hs with
  | nil => exact headsOf_heads hs
  | cons p ps ih =>
    cases due with
    | false => rw [merge_posting fun h => Bool.noConfusion h, headsOf_posting, ih]
    | true =>
      cases hs with
      | nil => rw [merge_posting fun _ => rfl, headsOf_posting, ih]
      | cons h hs => exact congrArg (h :: ·) ((headsOf_posting _).trans (ih true hs))

theorem entriesOf_merge (due : Bool) (hs : List (BasicResult D)) (ps : List (List E)) :
    entriesOf (merge due hs ps) = ps.flatten := by
  induction ps generalizing due hs with
  | nil => exact entriesOf_heads hs
  | cons p ps ih =>
    rw [List.flatten_cons]
    cases due with
    | false => rw [merge_posting fun h => Bool.noConfusion h, entriesOf_posting, ih]
    | true =>
      cases hs with
      | nil => rw [merge_posting fun _ => rfl, entriesOf_posting, ih]
      | cons h hs => exact (entriesOf_posting _).trans (congrArg (p ++ ·) (ih true hs))

end Merge

section Exhaust

variable {E V : Type} {index : Heads D} {load : ExtraWorkSpace P → Except ErrorCode P}
  {searchNextInPosting : Next D P} {judge : V → Item D E → Verdict (BasicResult D) ErrorCode × V}
  {heads : List (BasicResult D)} {pages pages' : P}

def ExtraWorkSpace.asked (index : Heads D) (heads : List (BasicResult D)) (pages : P) :
    ExtraWorkSpace P :=
  { ExtraWorkSpace.start pages with
    postingIDs := (index.select heads).2
    loadedPostingNum := 0 + (index.select heads).2.length }

def ExtraWorkSpace.loaded (index : Heads D) (heads : List (BasicResult D)) (pages : P) :
    ExtraWorkSpace P :=
  { ExtraWorkSpace.asked index heads pages with loadPosting := false }

theorem exhaust_of_left (Left : ExtraWorkSpace P → V → List (Item D E) → Prop)
    (hplace : ∀ ws v is, Left ws v is → ws.loadPosting = false)
    (hmono : ∀ ws b v is, Left ws v is → Left { ws with relaxedMono := b } v is)
    (hstep : ∀ ws v is, Left ws v is → ∃ ws', searchNextInPosting (index.select heads).1 ws =
      some ((ask judge v is).1, ws') ∧ Left ws' (ask judge v is).2.1 (ask judge v is).2.2)
    (hload : load (.asked index heads pages) = .ok pages') {v : V} {is : List (Item D E)}
    (hstart : Left (.loaded index heads pages') v is) :
    exhaust (searchDiskIndexIterative index load searchNextInPosting) (is.length + 1)
      (heads, .start pages) = some (sift judge v is) := by
  have hnext : ∀ (s : List (BasicResult D) × ExtraWorkSpace P) v is,
      s.1 = (index.select heads).1 ∧ Left s.2 v is →
      ∃ s', searchDiskIndexIterative index load searchNextInPosting s =
        some ((ask judge v is).1, s') ∧
        s'.1 = (index.select heads).1 ∧ Left s'.2 (ask judge v is).2.1 (ask judge v is).2.2 := by
    rintro ⟨rest, ws⟩ v is ⟨rfl, hleft⟩
    obtain ⟨ws', hrun, hleft'⟩ := hstep ws v is hleft
    have hplace := Bool.eq_false_iff.mp (hplace ws v is hleft)
    rw [searchDiskIndexIterative, if_neg hplace, searchIterativeNext, if_neg hplace, hrun,
      Option.map_some]
    cases hreply : (ask judge v is).1 with
    | found a => exact ⟨(_, ws'), rfl, rfl, hleft'⟩
    | done => exact ⟨(_, _), rfl, rfl, hmono ws' _ _ _ hleft'⟩
    | failed e => exact ⟨(_, ws'), rfl, rfl, hleft'⟩
  -- the first call answers as if the postings had been loaded before it
  have hfirst : searchDiskIndexIterative index load searchNextInPosting (heads, .start pages) =
      searchDiskIndexIterative index load searchNextInPosting
        ((index.select heads).1, .loaded index heads pages') := by
    have hload' : searchIterativeNext load searchNextInPosting (index.select heads).1
        (.asked index heads pages) =
        searchNextInPosting (index.select heads).1 (.loaded index heads pages') := by
      rw [searchIterativeNext, hload]
      rfl
    exact congrArg (Option.map (conclude index (index.select heads).1)) hload'
  rw [exhaust, hfirst]
  exact exhaust_eq_sift _ hnext ⟨rfl, hstart⟩

end Exhaust

end Sptag.SPANN.Iterative
