import Sptag.Lib.Run
import Sptag.SPANN.Dynamic.Refine

/-! The threads of `RefineIndex` with `p_prereassign` off, in the steps that take a posting
id, read a posting and write one. -/

namespace Sptag.SPANN.Dynamic

open COMMON Lib

variable {V D T : Type}

section Compact

variable (s : State V) (mapping : Nat → Int)

/-- The round `j` of the loop over the records, with `postingP` and `vectorCount`: a current
record gets its new id where it stands and is copied to the front. -/
def compactRecord (acc : Posting V × Nat) (j : Nat) : Posting V × Nat :=
  match acc.1[j]? with
  | none => acc
  | some e =>
    if !s.current e then acc
    else
      let e := { e with vid := mapping e.vid.toNat }
      ((acc.1.set j e).set acc.2 e, acc.2 + 1)

def compactRecords (postingList : Posting V) : Posting V × Nat :=
  (List.range postingList.length).foldl (compactRecord s mapping) (postingList, 0)

def compact (postingList : Posting V) : Posting V :=
  (compactRecords s mapping postingList).1.take (compactRecords s mapping postingList).2

/-- The front holds the renamed records that were current among the first `j`, and those
from `j` on are as they were. -/
structure Front (postingList : Posting V) (j : Nat) (acc : Posting V × Nat) : Prop where
  count : acc.2 = (s.renamed mapping (postingList.take j)).length
  front : acc.1.take acc.2 = s.renamed mapping (postingList.take j)
  rest : acc.1.drop j = postingList.drop j

variable {s mapping} {postingList : Posting V} {j : Nat}

theorem length_renamed_le (p : Posting V) : (s.renamed mapping p).length ≤ p.length := by
  rw [State.renamed, List.length_map]
  exact List.length_filter_le _ _

theorem renamed_append_singleton (p : Posting V) (e : Entry V) :
    s.renamed mapping (p ++ [e]) =
      s.renamed mapping p ++ if s.current
        e then [{ e with vid := mapping e.vid.toNat }] else [] := by
  rw [State.renamed, State.live, List.filter_append, List.map_append]
  cases h : s.current e with
  | false => simp [State.renamed, State.live, h]
  | true => simp [State.renamed, State.live, h]

theorem Front.compactRecord {acc : Posting V × Nat} (h : Front s mapping postingList j acc)
    (hj : j < postingList.length) :
    Front s mapping postingList (j + 1) (compactRecord s mapping acc j) := by
  obtain ⟨hcount, hfront, hrest⟩ := h
  have hle : acc.2 ≤ j := by
    rw [hcount]
    exact (length_renamed_le _).trans (List.length_take_le j postingList)
  have hget : acc.1[j]? = some postingList[j] := by
    have hhead := congrArg List.head? hrest
    rwa [List.head?_drop, List.head?_drop, List.getElem?_eq_getElem hj] at hhead
  have htail : acc.1.drop (j + 1) = postingList.drop (j + 1) := by
    rw [← List.drop_drop, hrest, List.drop_drop]
  have htake : s.renamed mapping (postingList.take (j + 1)) =
      s.renamed mapping (postingList.take j) ++ if s.current postingList[j] then
        [{ postingList[j] with vid := mapping postingList[j].vid.toNat }] else [] := by
    rw [List.take_succ_eq_append_getElem hj, renamed_append_singleton]
  unfold Dynamic.compactRecord
  simp only [hget]
  cases hcur : s.current postingList[j] with
  | false =>
    simp only [hcur, Bool.false_eq_true, if_false, List.append_nil] at htake
    exact ⟨by rw [htake]; exact hcount, by rw [htake]; exact hfront, htail⟩
  | true =>
    simp only [hcur, if_true] at htake
    simp only [Bool.not_true, Bool.false_eq_true, if_false]
    have hlt : acc.2 < acc.1.length := hle.trans_lt (List.getElem?_eq_some_iff.mp hget).1
    refine ⟨?_, ?_, ?_⟩
    · rw [htake, List.length_append, ← hcount]
      rfl
    · rw [htake, ← hfront, List.take_add_one, List.take_set_of_le (Nat.le_refl _),
        List.take_set_of_le hle, List.getElem?_set_self (by rwa [List.length_set])]
      rfl
    · rw [List.drop_set_of_lt (Nat.lt_succ_of_le hle), List.drop_set_of_lt (Nat.lt_succ_self j)]
      exact htail

theorem compact_eq_renamed (postingList : Posting V) :
    compact s mapping postingList = s.renamed mapping postingList := by
  have hloop : ∀ n ≤ postingList.length, Front s mapping postingList n
      ((List.range n).foldl (compactRecord s mapping) (postingList, 0)) := by
    intro n hn
    induction n with
    | zero => exact ⟨rfl, rfl, rfl⟩
    | succ n ih =>
      rw [List.range_succ, List.foldl_append]
      exact (ih (Nat.le_of_succ_le hn)).compactRecord hn
  have hfront := (hloop postingList.length (Nat.le_refl _)).front
  rwa [List.take_length] at hfront

end Compact

inductive Refiner (V : Type)
  | fetch
  | get (index : Nat)
  | put (index : Nat) (postingList : Posting V)
  | check (index : Nat)
  | returned

def Refiner.index? : Refiner V → Option Nat
  | fetch => none
  | get index => some index
  | put index _ => some index
  | check _ => none
  | returned => none

structure Refining (V T : Type) where
  db : Nat → Option (Posting V)
  nextPostingID : Nat
  threads : T → Refiner V
  acc : Rewriting

structure Turn (T : Type) where
  who : T
  ok : Bool

namespace Refining

def start (T : Type) (s : State V) : Refining V T where
  db := s.db
  nextPostingID := 0
  threads _ := .fetch
  acc := ⟨fun _ => 0, fun _ => 0, [], .success⟩

section Steps

variable [DecidableEq T]

def setThread (w : Refining V T) (who : T) (t : Refiner V) : Refining V T :=
  { w with threads := Function.update w.threads who t }

variable (env : Env V D) (consistencyCheck : Bool) (s : State V) (mapping : Nat → Int)
  (w : Refining V T)

def fetch (who : T) : Refining V T :=
  { w with nextPostingID := w.nextPostingID + 1 }.setThread who
    (if s.index.num ≤ w.nextPostingID then .returned
    else if !s.index.containSample w.nextPostingID then .fetch
    else .get w.nextPostingID)

/-- A posting that is not read or fails its checksum is an error in the end, but what was
read is written back. -/
def get (e : Turn T) (index : Nat) : Refining V T :=
  let read := if e.ok then w.db index else none
  let valid := read.any (env.validate · (s.checkSums index))
  let postingList := compact s mapping (read.getD [])
  { w with
    acc :=
      { w.acc with
        mergeList := if postingList.length ≤ env.opt.mergeThreshold then
          w.acc.mergeList ++ [s.index.newId index] else w.acc.mergeList
        finalcode := if valid then w.acc.finalcode else .fail } }.setThread e.who
    (.put index postingList)

def abort (who : T) : Refining V T :=
  { w with acc := { w.acc with finalcode := .fail } }.setThread who .returned

def put (e : Turn T) (index : Nat) (postingList : Posting V) : Refining V T :=
  if !e.ok then w.abort e.who
  else
    { w with
      db := Function.update w.db (s.index.newId index) (some postingList)
      acc :=
        { w.acc with
          postingSizes :=
            Function.update w.acc.postingSizes (s.index.newId index) postingList.length
          checkSums := Function.update w.acc.checkSums (s.index.newId index)
            (env.calcChecksum postingList) } }.setThread e.who
      (if consistencyCheck then .check index else .fetch)

def step (e : Turn T) : Refining V T :=
  match w.threads e.who with
  | .fetch => w.fetch s e.who
  | .get index => w.get env s mapping e index
  | .put index postingList => w.put env consistencyCheck s e index postingList
  | .check _ => if !e.ok then w.abort e.who else w.setThread e.who .fetch
  | .returned => w

end Steps

variable (s : State V) (mapping : Nat → Int) (w : Refining V T)

def Served (e : Turn T) : Prop :=
  match w.threads e.who with
  | .get index => e.ok = true ∧ (w.db index).isSome = true
  | .put _ _ => e.ok = true
  | .check _ => e.ok = true
  | _ => True

instance (e : Turn T) : Decidable (w.Served e) := by
  unfold Served
  split <;> infer_instance

/-- What a thread is about to write is made of the posting that was there before the refine,
and no other thread is about to write to the same key. -/
structure Undisturbed : Prop where
  old : ∀ t index postingList, w.threads t = .put index postingList →
    ∃ p, s.db index = some p ∧ postingList = s.renamed mapping p
  apart : ∀ t t' index index' postingList postingList',
    w.threads t = .put index postingList → w.threads t' = .put index' postingList' →
    s.index.newId index = s.index.newId index' → t = t'

def Compacted : Prop :=
  ∀ headID, s.index.containSample headID = true →
    ∃ p, s.db headID = some p ∧ w.db (s.index.newId headID) = some (s.renamed mapping p)

structure Inv : Prop where
  taken : ∀ t index, (w.threads t).index? = some index →
    s.index.containSample index = true ∧ index < w.nextPostingID
  apart : ∀ t t' index, (w.threads t).index? = some index →
    (w.threads t').index? = some index → t = t'
  unread : ∀ headID, s.index.containSample headID = true →
    w.nextPostingID ≤ headID ∨ (∃ t, w.threads t = .get headID) → w.db headID = s.db headID
  old : ∀ t index postingList, w.threads t = .put index postingList →
    ∃ p, s.db index = some p ∧ postingList = s.renamed mapping p
  written : ∀ headID, s.index.containSample headID = true → headID < w.nextPostingID →
    (∃ t, (w.threads t).index? = some headID) ∨
      ∃ p, s.db headID = some p ∧ w.db (s.index.newId headID) = some (s.renamed mapping p)
  returned : ∀ t, w.threads t = .returned → s.index.num ≤ w.nextPostingID

variable {s mapping w} {who : T}

theorem inv_start : Inv s mapping (start T s) where
  taken _ _ h := nomatch h
  apart _ _ _ h := nomatch h
  unread _ _ _ := rfl
  old _ _ _ h := nomatch h
  written _ _ h := absurd h (Nat.not_lt_zero _)
  returned _ h := nomatch h

section Step

variable [DecidableEq T] {t : T} {x : Refiner V}

@[simp] theorem threads_setThread_self : (w.setThread who x).threads who = x := by
  simp only [setThread, Function.update_self]

theorem threads_setThread_of_ne (h : t ≠ who) : (w.setThread who x).threads t = w.threads t := by
  simp only [setThread, Function.update_of_ne h]

theorem Inv.move (h : Inv s mapping w) {acc : Rewriting}
    (hindex : x.index? = (w.threads who).index?) (hget : ∀ index, x ≠ .get index)
    (hput : ∀ index postingList, x = .put index postingList →
      ∃ p, s.db index = some p ∧ postingList = s.renamed mapping p)
    (hreturned : x ≠ .returned) :
    Inv s mapping ({ w with acc := acc }.setThread who x) := by
  have hsame : ∀ t, (({ w with acc := acc }.setThread who x).threads t).index? =
      (w.threads t).index? := by
    intro t
    by_cases ht : t = who
    · rw [ht, threads_setThread_self, hindex]
    · rw [threads_setThread_of_ne ht]
  refine ⟨fun t index => ?_, fun t t' index => ?_, fun headID hc hor => ?_, fun t index p ht => ?_,
    fun headID hc hlt => ?_, fun t ht => ?_⟩
  · rw [hsame]
    exact h.taken t index
  · rw [hsame, hsame]
    exact h.apart t t' index
  · refine h.unread headID hc (hor.imp_right ?_)
    rintro ⟨t, ht⟩
    by_cases htw : t = who
    · rw [htw, threads_setThread_self] at ht
      exact absurd ht (hget headID)
    · rw [threads_setThread_of_ne htw] at ht
      exact ⟨t, ht⟩
  · by_cases htw : t = who
    · rw [htw, threads_setThread_self] at ht
      exact hput index p ht
    · rw [threads_setThread_of_ne htw] at ht
      exact h.old t index p ht
  · simp only [hsame]
    exact h.written headID hc hlt
  · by_cases htw : t = who
    · rw [htw, threads_setThread_self] at ht
      exact absurd ht hreturned
    · rw [threads_setThread_of_ne htw] at ht
      exact h.returned t ht

theorem Inv.pass (h : Inv s mapping w) (hwho : (w.threads who).index? = none)
    (hindex : ∀ index, x.index? = some index ↔
      s.index.containSample index = true ∧ index = w.nextPostingID)
    (hput : ∀ index postingList, x ≠ .put index postingList)
    (hreturned : x = .returned → s.index.num ≤ w.nextPostingID) :
    Inv s mapping ({ w with nextPostingID := w.nextPostingID + 1 }.setThread who x) := by
  have hfresh : ∀ t index, (w.threads t).index? = some index → x.index? ≠ some index := by
    intro t index ht hx
    exact absurd (h.taken t index ht).2 (((hindex index).mp hx).2 ▸ Nat.lt_irrefl _)
  refine ⟨fun t index ht => ?_, fun t t' index ht ht' => ?_, fun headID hc hor => ?_,
    fun t index p ht => ?_, fun headID hc hlt => ?_, fun t ht => ?_⟩
  · by_cases htw : t = who
    · rw [htw, threads_setThread_self, hindex] at ht
      exact ⟨ht.1, ht.2 ▸ Nat.lt_succ_self _⟩
    · rw [threads_setThread_of_ne htw] at ht
      exact (h.taken t index ht).imp_right Nat.lt_succ_of_lt
  · by_cases htw : t = who
    · rw [htw, threads_setThread_self] at ht
      by_cases htw' : t' = who
      · rw [htw, htw']
      · rw [threads_setThread_of_ne htw'] at ht'
        exact absurd ht (hfresh t' index ht')
    · rw [threads_setThread_of_ne htw] at ht
      by_cases htw' : t' = who
      · rw [htw', threads_setThread_self] at ht'
        exact absurd ht' (hfresh t index ht)
      · rw [threads_setThread_of_ne htw'] at ht'
        exact h.apart t t' index ht ht'
  · refine h.unread headID hc (hor.elim (fun hle => .inl (Nat.le_of_succ_le hle)) ?_)
    rintro ⟨t, ht⟩
    by_cases htw : t = who
    · rw [htw, threads_setThread_self] at ht
      exact .inl ((hindex headID).mp (by rw [ht]; rfl)).2.ge
    · rw [threads_setThread_of_ne htw] at ht
      exact .inr ⟨t, ht⟩
  · by_cases htw : t = who
    · rw [htw, threads_setThread_self] at ht
      exact absurd ht (hput index p)
    · rw [threads_setThread_of_ne htw] at ht
      exact h.old t index p ht
  · rcases Nat.lt_succ_iff_lt_or_eq.mp hlt with hold | heq
    · refine (h.written headID hc hold).imp_left ?_
      rintro ⟨t, ht⟩
      have htw : t ≠ who := by
        rintro rfl
        rw [hwho] at ht
        cases ht
      exact ⟨t, by rwa [threads_setThread_of_ne htw]⟩
    · exact .inl ⟨who, by rw [threads_setThread_self, hindex]; exact ⟨hc, heq⟩⟩
  · by_cases htw : t = who
    · rw [htw, threads_setThread_self] at ht
      exact (hreturned ht).trans (Nat.le_succ _)
    · rw [threads_setThread_of_ne htw] at ht
      exact (h.returned t ht).trans (Nat.le_succ _)

theorem Inv.fetch (h : Inv s mapping w) (hwho : w.threads who = .fetch) :
    Inv s mapping (w.fetch s who) := by
  have hnone : (w.threads who).index? = none := by rw [hwho]; rfl
  have hcontain : s.index.containSample w.nextPostingID = true → w.nextPostingID < s.index.num :=
    fun hc => (HeadIndex.contain_iff.mp hc).1
  unfold Refining.fetch
  split
  · rename_i hle
    refine h.pass hnone (fun index => ⟨nofun, ?_⟩) nofun fun _ => hle
    rintro ⟨hc, rfl⟩
    exact absurd (hcontain hc) (not_lt.mpr hle)
  · split
    · rename_i hc
      refine h.pass hnone (fun index => ⟨nofun, ?_⟩) nofun nofun
      rintro ⟨hc', rfl⟩
      simp [hc'] at hc
    · rename_i hc
      refine h.pass hnone (fun index => ?_) nofun nofun
      simp only [Bool.not_eq_true', Bool.not_eq_false] at hc
      constructor
      · rintro ⟨⟩
        exact ⟨hc, rfl⟩
      · rintro ⟨-, rfl⟩
        rfl

theorem Inv.get (h : Inv s mapping w) (env : Env V D) {e : Turn T} {index : Nat}
    (hwho : w.threads e.who = .get index) (hok : e.ok = true) (hsome : (w.db index).isSome = true) :
    Inv s mapping (w.get env s mapping e index) := by
  have hc := (h.taken e.who index (by rw [hwho]; rfl)).1
  have hread := h.unread index hc (.inr ⟨e.who, hwho⟩)
  obtain ⟨p, hp⟩ := Option.isSome_iff_exists.mp hsome
  unfold Refining.get
  simp only [hok, if_true, hp, Option.getD_some]
  refine h.move (by rw [hwho]; rfl) nofun ?_ nofun
  rintro _ _ ⟨⟩
  exact ⟨p, hread.symm.trans hp, compact_eq_renamed p⟩

theorem Inv.put (h : Inv s mapping w) (env : Env V D) (consistencyCheck : Bool) {e : Turn T}
    {index : Nat} {postingList : Posting V} (hwho : w.threads e.who = .put index postingList)
    (hok : e.ok = true) : Inv s mapping (w.put env consistencyCheck s e index postingList) := by
  have hindex : (w.threads e.who).index? = some index := by rw [hwho]; rfl
  obtain ⟨hc, hlt⟩ := h.taken e.who index hindex
  obtain ⟨p, hp, rfl⟩ := h.old e.who index postingList hwho
  have hunread : ∀ headID, s.index.containSample headID = true →
      w.nextPostingID ≤ headID ∨ (∃ t, w.threads t = .get headID) →
      headID ≠ s.index.newId index := by
    rintro headID hhead hor rfl
    rcases HeadIndex.newId_eq_or_deleted hc with heq | hdel
    · rw [heq] at hor
      rcases hor with hle | ⟨t, ht⟩
      · exact absurd hlt (not_lt.mpr hle)
      · rw [h.apart t e.who index (by rw [ht]; rfl) hindex, hwho] at ht
        cases ht
    · rw [(HeadIndex.contain_iff.mp hhead).2] at hdel
      cases hdel
  unfold Refining.put
  rw [hok]
  simp only [Bool.not_true, Bool.false_eq_true, if_false]
  generalize hx : (if consistencyCheck then Refiner.check index else Refiner.fetch : Refiner V) = x
  have hfree : x.index? = none ∧ (∀ i, x ≠ .get i) ∧ (∀ i q, x ≠ .put i q) ∧ x ≠ .returned := by
    subst hx
    cases consistencyCheck with
    | false => exact ⟨rfl, nofun, nofun, nofun⟩
    | true => exact ⟨rfl, nofun, nofun, nofun⟩
  obtain ⟨hnone, hget, hput, hreturned⟩ := hfree
  refine ⟨fun t i ht => ?_, fun t t' i ht ht' => ?_, fun headID hhead hor => ?_,
    fun t i q ht => ?_, fun headID hhead hltn => ?_, fun t ht => ?_⟩
  · by_cases htw : t = e.who
    · rw [htw, threads_setThread_self, hnone] at ht
      cases ht
    · rw [threads_setThread_of_ne htw] at ht
      exact h.taken t i ht
  · by_cases htw : t = e.who
    · rw [htw, threads_setThread_self, hnone] at ht
      cases ht
    · by_cases htw' : t' = e.who
      · rw [htw', threads_setThread_self, hnone] at ht'
        cases ht'
      · rw [threads_setThread_of_ne htw] at ht
        rw [threads_setThread_of_ne htw'] at ht'
        exact h.apart t t' i ht ht'
  · have hold : w.nextPostingID ≤ headID ∨ ∃ t, w.threads t = .get headID := by
      refine hor.imp_right ?_
      rintro ⟨t, ht⟩
      by_cases htw : t = e.who
      · rw [htw, threads_setThread_self] at ht
        exact absurd ht (hget headID)
      · rw [threads_setThread_of_ne htw] at ht
        exact ⟨t, ht⟩
    exact (Function.update_of_ne (hunread headID hhead hold) _ _).trans (h.unread headID hhead hold)
  · by_cases htw : t = e.who
    · rw [htw, threads_setThread_self] at ht
      exact absurd ht (hput i q)
    · rw [threads_setThread_of_ne htw] at ht
      exact h.old t i q ht
  · by_cases hsame : headID = index
    · subst hsame
      exact .inr ⟨p, hp, Function.update_self _ _ _⟩
    · refine (h.written headID hhead hltn).imp ?_ ?_
      · rintro ⟨t, ht⟩
        have htw : t ≠ e.who := by
          rintro rfl
          rw [hindex] at ht
          exact hsame (Option.some.inj ht).symm
        exact ⟨t, by rwa [threads_setThread_of_ne htw]⟩
      · rintro ⟨q, hq, hdb⟩
        refine ⟨q, hq, (Function.update_of_ne (fun heq => hsame ?_) _ _).trans hdb⟩
        exact HeadIndex.newId_inj hhead hc heq
  · by_cases htw : t = e.who
    · rw [htw, threads_setThread_self] at ht
      exact absurd ht hreturned
    · rw [threads_setThread_of_ne htw] at ht
      exact h.returned t ht

theorem Inv.step (h : Inv s mapping w) (env : Env V D) (consistencyCheck : Bool) {e : Turn T}
    (hok : w.Served e) : Inv s mapping (w.step env consistencyCheck s mapping e) := by
  unfold Served at hok
  unfold Refining.step
  cases hwho : w.threads e.who with
  | fetch => exact h.fetch hwho
  | get index =>
    simp only [hwho] at hok
    exact h.get env hwho hok.1 hok.2
  | put index postingList =>
    simp only [hwho] at hok
    exact h.put env consistencyCheck hwho hok
  | check index =>
    simp only [hwho] at hok
    simp only [hok, Bool.not_true, Bool.false_eq_true, if_false]
    exact h.move (by rw [hwho]; rfl) nofun nofun nofun
  | returned => exact h

end Step

theorem Inv.undisturbed (h : Inv s mapping w) : w.Undisturbed s mapping := by
  refine ⟨h.old, fun t t' index index' p p' ht ht' heq => ?_⟩
  have hindex : (w.threads t).index? = some index := by rw [ht]; rfl
  have hindex' : (w.threads t').index? = some index' := by rw [ht']; rfl
  have hsame := HeadIndex.newId_inj (h.taken t index hindex).1 (h.taken t' index' hindex').1 heq
  exact h.apart t t' index hindex (hsame ▸ hindex')

theorem Inv.compacted [Nonempty T] (h : Inv s mapping w) (hdone : ∀ t, w.threads t = .returned) :
    w.Compacted s mapping := by
  intro headID hc
  obtain ⟨t⟩ := ‹Nonempty T›
  have hlt := (HeadIndex.contain_iff.mp hc).1.trans_le (h.returned t (hdone t))
  refine (h.written headID hc hlt).resolve_left ?_
  rintro ⟨t', ht'⟩
  rw [hdone t'] at ht'
  cases ht'

end Refining

/-- Whatever the schedule of the threads, no posting is overwritten before it is read, no two
threads write one key, and in the end each contained head has its compacted posting. -/
theorem compaction_order_independent [DecidableEq T] [Nonempty T] (env : Env V D)
    (consistencyCheck : Bool) (s : State V) (mapping : Nat → Int) (schedule : List (Turn T))
    (hserved : Along (Refining.step env consistencyCheck s mapping) Refining.Served
      (Refining.start T s) schedule) :
    Throughout (Refining.step env consistencyCheck s mapping) (Refining.Undisturbed s mapping)
        (Refining.start T s) schedule ∧
      ((∀ t, (run (Refining.step env consistencyCheck s mapping) (Refining.start T s)
          schedule).threads t = .returned) →
        (run (Refining.step env consistencyCheck s mapping) (Refining.start T s)
          schedule).Compacted s mapping) := by
  have hinv : Throughout (Refining.step env consistencyCheck s mapping)
      (Refining.Inv s mapping) (Refining.start T s) schedule :=
    hserved.throughout (fun w e hok h => h.step env consistencyCheck hok) Refining.inv_start
  exact ⟨hinv.mono fun w h => h.undisturbed, fun hdone => hinv.last.compacted hdone⟩

def threeHeads : State Unit :=
  { State.start ⟨3, fun _ => (), fun h => decide (h = 0)⟩ (.ofLabels [0, 0, 0] 0 8)
      fun h => some (h : Int) with
    db := fun h => some [⟨7, 0, ()⟩, ⟨h, 0, ()⟩] }

/-- Of two threads one takes the heads 0 and 1 and the other the head 2, which is written to
the key 0 before the posting of head 1 is. -/
def twoThreads : List (Turn Bool) :=
  [⟨true, true⟩, ⟨true, true⟩, ⟨false, true⟩, ⟨false, true⟩, ⟨true, true⟩, ⟨false, true⟩,
    ⟨true, true⟩, ⟨false, true⟩, ⟨true, true⟩]

theorem compaction_two_threads :
    (run (Refining.step (Env.plain plainOptions ⟨0, true⟩) false threeHeads (· + 10))
      (Refining.start Bool threeHeads) twoThreads).Compacted threeHeads (· + 10) := by
  refine (compaction_order_independent _ false threeHeads (· + 10) twoThreads (by decide)).2 ?_
  intro t
  cases t <;> rfl

end Sptag.SPANN.Dynamic
