import Sptag.Common.VersionLabel
import Sptag.Lib.Run
import Sptag.Lib.Threads

/-! `Delete` and `IncVersion` of `VersionLabel` in single atomic steps, with any number of
calls in progress at once. -/

namespace Sptag.COMMON.VersionLabel

open Lib

inductive Call
  | exchange (key : Int)
  | countDeleted (key : Int)
  | deleteReturned (key : Int) (answer : Bool)
  | testDeleted (key : Int)
  | loadVersion (key : Int)
  | compareExchange (key : Int) (oldVersion : UInt8)
  | incVersionReturned (key : Int) (newVersion : Option UInt8)
  deriving DecidableEq

structure World where
  map : VersionLabel
  calls : List Call

inductive Event
  | callDelete (key : Int)
  | callIncVersion (key : Int)
  | advance (call : Nat)

/-- The next atomic operation of a call. Each one looks the row up first, and an id out of
range ends the call. -/
def Call.step (m : VersionLabel) : Call → Call × VersionLabel
  | exchange key =>
    match m.label? key with
    | none => (deleteReturned key true, m)
    | some label =>
      if label = tombstone then (deleteReturned key false, m.setLabel key tombstone)
      else (countDeleted key, m.setLabel key tombstone)
  | countDeleted key => (deleteReturned key true, { m with deletedNum := m.deletedNum + 1 })
  | testDeleted key =>
    if m.deleted key then (incVersionReturned key none, m) else (loadVersion key, m)
  | loadVersion key => (compareExchange key (m.getVersion key), m)
  | compareExchange key oldVersion =>
    if m.label? key = some oldVersion then
      (incVersionReturned key (some ((oldVersion + 1) &&& 0x7f)),
        m.setLabel key ((oldVersion + 1) &&& 0x7f))
    else (testDeleted key, m)
  | deleteReturned key answer => (deleteReturned key answer, m)
  | incVersionReturned key newVersion => (incVersionReturned key newVersion, m)

def World.step (w : World) : Event → World
  | .callDelete key => { w with calls := w.calls ++ [.exchange key] }
  | .callIncVersion key => { w with calls := w.calls ++ [.testDeleted key] }
  | .advance i =>
    match w.calls[i]? with
    | none => w
    | some c => ⟨(c.step w.map).2, w.calls.set i (c.step w.map).1⟩

def Call.Idle : Call → Prop
  | deleteReturned _ _ | incVersionReturned _ _ => True
  | _ => False

/-- What the callers rely on: ids whose `Delete` has returned are deleted, and the counter is
right between the calls. -/
structure World.Sound (w : World) : Prop where
  permanent : ∀ key answer, .deleteReturned key answer ∈ w.calls → w.map.deleted key = true
  counted : (∀ c ∈ w.calls, c.Idle) → w.map.deletedNum = w.map.data.count tombstone

/-- The step does not load, as the version to increment, the mark that a `Delete` has left
since the test of the same round. -/
def World.Untorn (w : World) : Event → Prop
  | .advance i =>
    match w.calls[i]? with
    | some (.loadVersion key) => ¬ w.map.Dead key
    | _ => True
  | _ => True

def Call.finish (m : VersionLabel) (c : Call) : Nat → Call × VersionLabel
  | 0 => (c, m)
  | n + 1 => (c.step m).1.finish (c.step m).2 n

theorem finish_exchange (m : VersionLabel) (key : Int) :
    (Call.exchange key).finish m 2 = (.deleteReturned key (m.delete key).1, (m.delete key).2) := by
  cases hl : m.label? key with
  | none => simp [Call.finish, Call.step, delete, hl]
  | some label =>
    by_cases h : label = tombstone
    · simp [Call.finish, Call.step, delete, hl, h]
    · simp [Call.finish, Call.step, delete, hl, h, setLabel]

theorem finish_testDeleted (m : VersionLabel) (key : Int) :
    (Call.testDeleted key).finish m 3 =
      (.incVersionReturned key (m.incVersion key).1, (m.incVersion key).2) := by
  cases hl : m.label? key with
  | none => simp [Call.finish, Call.step, incVersion, deleted, hl]
  | some label =>
    by_cases h : label = tombstone
    · simp [Call.finish, Call.step, incVersion, deleted, hl, h]
    · simp [Call.finish, Call.step, incVersion, deleted, getVersion, hl, h]

def Call.Knows (m : VersionLabel) : Call → Prop
  | countDeleted key => m.Dead key
  | deleteReturned key _ => m.deleted key = true
  | loadVersion key => m.label? key ≠ none
  | compareExchange _ oldVersion => oldVersion ≠ tombstone
  | _ => True

def Call.pending : Call → Bool
  | countDeleted _ => true
  | _ => false

structure World.Inv (w : World) : Prop where
  knows : ∀ c ∈ w.calls, c.Knows w.map
  tally : w.map.deletedNum + w.calls.countP Call.pending = w.map.data.count tombstone

theorem deleted_iff {m : VersionLabel} {key : Int} :
    m.deleted key = true ↔ m.label? key = none ∨ m.Dead key := by
  unfold deleted Dead
  cases m.label? key with
  | none => simp
  | some label => simp

theorem Call.Knows.mono {m m' : VersionLabel} {c : Call}
    (hrows : ∀ key, m'.label? key = none ↔ m.label? key = none)
    (hdead : ∀ key, m.Dead key → m'.Dead key) (h : c.Knows m) : c.Knows m' := by
  cases c with
  | countDeleted key => exact hdead key h
  | deleteReturned key answer =>
    exact deleted_iff.mpr ((deleted_iff.mp h).imp (hrows key).mpr (hdead key))
  | compareExchange key oldVersion => exact h
  | loadVersion key => exact mt (hrows key).mp h
  | exchange key => trivial
  | testDeleted key => trivial
  | incVersionReturned key newVersion => trivial

theorem World.Inv.sound {w : World} (h : w.Inv) : w.Sound where
  permanent key answer hmem := h.knows _ hmem
  counted hidle := by
    have hzero : w.calls.countP Call.pending = 0 := by
      apply List.countP_eq_zero.mpr
      intro c hc hp
      have := hidle c hc
      cases c with
      | countDeleted key => exact this
      | _ => exact absurd hp Bool.false_ne_true
    rw [← h.tally, hzero, Nat.add_zero]

theorem count_setLabel_add {m : VersionLabel} {key : Int} {label : UInt8}
    (h : m.label? key = some label) (label' : UInt8) :
    (m.setLabel key label').data.count tombstone + (if label = tombstone then 1 else 0) =
      m.data.count tombstone + (if label' = tombstone then 1 else 0) := by
  have hget : m.data[key.toNat]? = some label := by
    unfold label? at h
    split at h
    · cases h
    · exact h
  simpa [setLabel, List.count] using countP_set_add (p := (· == tombstone)) hget label'

structure Call.Keeps (m : VersionLabel) (c c' : Call) (m' : VersionLabel) : Prop where
  rows : ∀ key, m'.label? key = none ↔ m.label? key = none
  dead : ∀ key, m.Dead key → m'.Dead key
  knows : c'.Knows m'
  tally : m.data.count tombstone + m'.deletedNum + (if c'.pending then 1 else 0) =
    m'.data.count tombstone + m.deletedNum + (if c.pending then 1 else 0)

theorem Call.Keeps.of_same {m : VersionLabel} {c c' : Call} (hknows : c'.Knows m)
    (hpending : c'.pending = c.pending) : Call.Keeps m c c' m where
  rows _ := Iff.rfl
  dead _ h := h
  knows := hknows
  tally := by rw [hpending]

theorem Call.Keeps.of_setLabel {m : VersionLabel} {c c' : Call} {key : Int}
    {label label' : UInt8} (h : m.label? key = some label)
    (hmark : label = tombstone → label' = tombstone) (hknows : c'.Knows (m.setLabel key label'))
    (htally : (if label = tombstone then 1 else 0) + (if c'.pending then 1 else 0) =
      (if label' = tombstone then 1 else 0) + (if c.pending then 1 else 0)) :
    Call.Keeps m c c' (m.setLabel key label') where
  rows key' := by
    rw [label?_setLabel _ _ _ _ (label?_eq_some_lt h)]
    split
    · rename_i heq
      rw [heq, h]
      exact iff_of_false (Option.some_ne_none _) (Option.some_ne_none _)
    · rfl
  dead key' hdead := by
    rw [Dead, label?_setLabel _ _ _ _ (label?_eq_some_lt h)]
    split
    · rename_i heq
      subst heq
      rw [Dead, h, Option.some.injEq] at hdead
      rw [hmark hdead]
    · exact hdead
  knows := hknows
  tally := by
    have hcount := count_setLabel_add h label'
    have hnum : (m.setLabel key label').deletedNum = m.deletedNum := rfl
    omega

theorem Call.keeps_step {m : VersionLabel} {c : Call} (hknows : c.Knows m)
    (huntorn : ∀ key, c = .loadVersion key → ¬ m.Dead key) :
    Call.Keeps m c (c.step m).1 (c.step m).2 := by
  cases c with
  | exchange key =>
    rw [step]
    split
    · rename_i hl
      exact .of_same (deleted_iff.mpr (Or.inl hl)) rfl
    · rename_i label hl
      have hdead : (m.setLabel key tombstone).Dead key := by
        rw [Dead, label?_setLabel _ _ _ _ (label?_eq_some_lt hl), if_pos rfl]
      split
      · rename_i htomb
        apply Call.Keeps.of_setLabel hl
        · exact fun _ => rfl
        · exact deleted_iff.mpr (Or.inr hdead)
        · rw [if_pos htomb]
          rfl
      · rename_i htomb
        apply Call.Keeps.of_setLabel hl
        · exact fun _ => rfl
        · exact hdead
        · rw [if_neg htomb]
          rfl
  | countDeleted key =>
    constructor
    · exact fun _ => Iff.rfl
    · exact fun _ h => h
    · exact deleted_iff.mpr (Or.inr hknows)
    · change m.data.count tombstone + (m.deletedNum + 1) + 0 =
        m.data.count tombstone + m.deletedNum + 1
      omega
  | deleteReturned key answer => exact .of_same hknows rfl
  | testDeleted key =>
    rw [step]
    split
    · exact .of_same trivial rfl
    · rename_i hlive
      have hrow : m.label? key ≠ none := fun h => hlive (deleted_iff.mpr (Or.inl h))
      exact .of_same hrow rfl
  | loadVersion key =>
    have hne : m.getVersion key ≠ tombstone := by
      obtain ⟨label, hl⟩ := Option.ne_none_iff_exists'.mp hknows
      intro h
      rw [getVersion, hl, Option.getD_some] at h
      exact huntorn key rfl (by rw [Dead, hl, h])
    exact .of_same hne rfl
  | compareExchange key oldVersion =>
    rw [step]
    split
    · rename_i hl
      apply Call.Keeps.of_setLabel hl
      · exact fun h => absurd h hknows
      · trivial
      · rw [if_neg hknows, if_neg (next_ne_tombstone oldVersion)]
        rfl
    · exact .of_same trivial rfl
  | incVersionReturned key newVersion => exact .of_same trivial rfl

theorem World.Inv.step {w : World} {e : Event} (huntorn : w.Untorn e) (h : w.Inv) :
    (w.step e).Inv := by
  have started (c : Call) (hknows : c.Knows w.map) (hp : c.pending = false) :
      World.Inv ⟨w.map, w.calls ++ [c]⟩ := by
    constructor
    · intro c' hc'
      rw [List.mem_append, List.mem_singleton] at hc'
      exact hc'.elim (h.knows c') fun heq => heq ▸ hknows
    · rw [List.countP_append, List.countP_singleton, hp]
      exact h.tally
  cases e with
  | callDelete key => exact started _ trivial rfl
  | callIncVersion key => exact started _ trivial rfl
  | advance i =>
    cases hget : w.calls[i]? with
    | none => simpa only [World.step, hget] using h
    | some c =>
      have hkeeps : Call.Keeps w.map c (c.step w.map).1 (c.step w.map).2 := by
        apply Call.keeps_step (h.knows c (List.mem_of_getElem? hget))
        rintro key rfl
        simpa only [World.Untorn, hget] using huntorn
      simp only [World.step, hget]
      constructor
      · intro c' hc'
        rcases List.mem_or_eq_of_mem_set hc' with hold | rfl
        · exact (h.knows c' hold).mono hkeeps.rows hkeeps.dead
        · exact hkeeps.knows
      · have htally := hkeeps.tally
        have hinv := h.tally
        have hset := countP_set_add (p := Call.pending) hget (c.step w.map).1
        dsimp only
        omega

/-- No `Delete` is undone in a run in which every version that is incremented was loaded from
a live row. -/
theorem deletes_permanent {m : VersionLabel} (hm : m.deletedNum = m.data.count tombstone)
    {es : List Event} (hes : Along World.step World.Untorn ⟨m, []⟩ es) :
    Throughout World.step World.Sound ⟨m, []⟩ es := by
  have hinit : World.Inv ⟨m, []⟩ := ⟨fun c hc => absurd hc List.not_mem_nil, hm⟩
  exact (hes.throughout (fun w e => World.Inv.step) hinit).mono fun w h => h.sound

def oneRow : VersionLabel := ⟨[0], 0, 1, by decide⟩

theorem deletes_permanent_retry :
    Throughout World.step World.Sound ⟨oneRow, []⟩
      [.callIncVersion 0, .advance 0, .advance 0, .callDelete 0, .advance 1, .advance 0,
        .advance 1, .advance 0] :=
  deletes_permanent rfl
    ⟨trivial, trivial, show ¬ oneRow.label? 0 =
      some tombstone by decide, trivial, trivial, trivial, trivial, trivial,
      trivial⟩

/-- The `Delete` falls between the test and the load of an `IncVersion`, whose
compare-exchange then brings the id back to life. -/
theorem delete_undone : ¬ ∀ (m : VersionLabel) (es : List Event),
    m.deletedNum = m.data.count tombstone → Throughout World.step World.Sound ⟨m, []⟩ es := by
  intro h
  have hsound := (h oneRow [.callIncVersion 0, .advance 0, .callDelete 0, .advance 1, .advance 1,
    .advance 0, .advance 0] rfl).last
  exact absurd (hsound.permanent 0 true (by decide)) (by decide)

end Sptag.COMMON.VersionLabel
