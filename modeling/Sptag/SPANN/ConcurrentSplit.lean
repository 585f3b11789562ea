import Sptag.Common.Dataset
import Sptag.Lib.Run

/-! Two jobs in `ExtraDynamicSearcher::Split`, in the steps that grow and write the translate
map, `m_postingSizes` and `m_checkSums`. -/

namespace Sptag.SPANN.ConcurrentSplit

open COMMON Lib

inductive Table
  | vectorTranslateMap
  | postingSizes
  | checkSums
  deriving DecidableEq

/-- What a job does next. `headID` is the posting it splits, `begin` its newest head. -/
inductive Op
  | addIndexId
  | addBatch (t : Table)
  | writeBegin (t : Table) (value : Int)
  | writeHead (t : Table) (value : Int)
  | lock
  | unlock
  | attempt
  deriving DecidableEq

/-- A cluster that keeps the head, or one with a new head: the id that `m_excludehead` writes
to the translate map (`MaxSize` without it), the size and the checksum of its posting. -/
inductive Cluster
  | sameHead (size checksum : Int)
  | newHead (vid size checksum : Int)

def Cluster.isSame : Cluster → Bool
  | sameHead .. => true
  | newHead .. => false

/-- `attempt` stands for `db->Put`, `db->Check` and `db->Delete`, whose failure ends the job. -/
def Cluster.ops : Cluster → List Op
  | sameHead size checksum =>
    [.attempt, .writeHead .postingSizes size, .writeHead .checkSums checksum, .attempt]
  | newHead vid size checksum =>
    [.addIndexId, .addBatch .vectorTranslateMap, .writeBegin .vectorTranslateMap vid, .attempt,
      .lock, .addBatch .postingSizes, .addBatch .checkSums, .writeBegin .postingSizes size,
      .writeBegin .checkSums checksum, .attempt, .unlock]

def splitOps (clusters : List Cluster) : List Op :=
  clusters.flatMap Cluster.ops ++
    if clusters.any Cluster.isSame then []
    else [.writeHead .postingSizes 0, .writeHead .checkSums 0, .attempt]

structure Job where
  headID : Nat
  begin : Int
  todo : List Op
  returned : Bool

/-- A write that was made, whether it was one of a new head's row, and whether the row had
memory. -/
structure Write where
  table : Table
  row : Int
  value : Int
  new : Bool
  allocated : Bool
  deriving DecidableEq

/-- `num` is the number of samples of the head index, which has room for `room` of them, and
`dataAddLock` names the job that holds the lock. -/
structure World where
  num : Nat
  room : Nat
  data : Table → Dataset
  jobs : Bool → Job
  dataAddLock : Option Bool
  writes : List Write

/-- A job makes its next step. `ok` says whether a call out or an allocation in it succeeds,
and `stale` is what an unset `begin` holds. -/
structure Event where
  who : Bool
  ok : Bool
  stale : Int

namespace World

variable (w : World)

def setJob (who : Bool) (j : Job) : World := { w with jobs := Function.update w.jobs who j }

def goOn (who : Bool) (ops : List Op) : World := w.setJob who { w.jobs who with todo := ops }

def setLock (holder : Option Bool) : World := { w with dataAddLock := holder }

def leave (who : Bool) : World :=
  (w.setJob who { w.jobs who with returned := true }).setLock
    (if w.dataAddLock = some who then none else w.dataAddLock)

def setData (t : Table) (d : Dataset) : World := { w with data := Function.update w.data t d }

def write (t : Table) (row value : Int) (new : Bool) : World :=
  { w.setData t ((w.data t).write row value) with
    writes := ⟨t, row, value, new, decide ((w.data t).Allocated row)⟩ :: w.writes }

def act (e : Event) (ops : List Op) : Op → World
  | .addIndexId =>
    if e.ok ∧ w.num < w.room then
      { w with num := w.num + 1 }.setJob e.who { w.jobs e.who with begin := w.num, todo := ops }
    else w.setJob e.who { w.jobs e.who with begin := e.stale, todo := ops }
  | .addBatch t =>
    let (ret, d) := (w.data t).addBatch e.ok
    -- the result for the translate map is not looked at
    if ret = .success ∨ t = .vectorTranslateMap then (w.setData t d).goOn e.who ops
    else w.leave e.who
  | .writeBegin t value => (w.write t (w.jobs e.who).begin value true).goOn e.who ops
  | .writeHead t value => (w.write t (w.jobs e.who).headID value false).goOn e.who ops
  | .lock =>
    if w.dataAddLock = none then (w.goOn e.who ops).setLock (some e.who) else w
  | .unlock => (w.goOn e.who ops).setLock none
  | .attempt => if e.ok then w.goOn e.who ops else w.leave e.who

def next (who : Bool) : List Op := if (w.jobs who).returned then [] else (w.jobs who).todo

def step (e : Event) : World :=
  match w.next e.who with
  | [] => w
  | op :: ops => w.act e ops op

structure RowsKept : Prop where
  allocated : ∀ x ∈ w.writes, x.allocated = true
  kept : ∀ x ∈ w.writes, x.new = true → (w.data x.table).content x.row = x.value

/-- The head index has room for a new head and the translate map for its row, and whenever a
new head's row is written, all rows below it and itself were added before, or it is not the
first of a block. -/
def Ordered (e : Event) : Prop :=
  match w.next e.who with
  | .addIndexId :: _ => e.ok = true ∧ w.num < w.room
  | .addBatch .vectorTranslateMap :: _ =>
    ((w.data .vectorTranslateMap).addBatch e.ok).1 = .success
  | .writeBegin t _ :: _ =>
    (w.jobs e.who).begin < (w.data t).count ∨ ¬ (w.data t).StartsBlock (w.jobs e.who).begin
  | _ => True

instance (e : Event) : Decidable (w.Ordered e) := by
  unfold Ordered
  split <;> infer_instance

structure Ready : Prop where
  formed : ∀ t, (w.data t).Formed
  count : ∀ t, (w.data t).count = w.num
  writes : w.writes = []
  head : ∀ who, (w.jobs who).headID < w.num
  todo : ∀ who, ∃ clusters, (w.jobs who).todo = splitOps clusters

end World

def awaits (p : Op → Bool) : List Op → Bool
  | [] => false
  | op :: ops => if p op then true else if op = .addIndexId then false else awaits p ops

def owes (t : Table) : List Op → Bool := awaits (· = .addBatch t)

def willWrite (t : Table) : List Op → Bool :=
  awaits fun op => match op with
    | .writeBegin t' _ => t' = t
    | _ => false

def Orderly : List Op → Prop
  | [] => True
  | op :: ops =>
    (op = .addIndexId → ∀ t, owes t ops = true) ∧
      (∀ t value, op = .writeBegin t value → owes t ops = false ∧ willWrite t ops = false) ∧
      Orderly ops

structure Settled (ops : List Op) : Prop where
  orderly : Orderly ops
  added : ∀ t, owes t ops = false
  written : ∀ t, willWrite t ops = false

theorem Settled.append {ops : List Op} (h : Settled ops) (c : Cluster) :
    Settled (c.ops ++ ops) := by
  have hadded := h.added
  have hwritten := h.written
  simp only [owes, willWrite] at hadded hwritten
  cases c with
  | sameHead size checksum =>
    constructor
    · simp [Cluster.ops, Orderly, h.orderly]
    · simp [Cluster.ops, owes, awaits, hadded]
    · simp [Cluster.ops, willWrite, awaits, hwritten]
  | newHead vid size checksum =>
    constructor
    · refine ⟨?_, ?_⟩
      · intro _ t
        cases t <;> simp [owes, awaits]
      · simp [Orderly, h.orderly, owes, willWrite, awaits, hadded, hwritten]
    · simp [Cluster.ops, owes, awaits]
    · simp [Cluster.ops, willWrite, awaits]

theorem Settled.flatMap {ops : List Op} (h : Settled ops) (clusters : List Cluster) :
    Settled (clusters.flatMap Cluster.ops ++ ops) := by
  induction clusters with
  | nil => exact h
  | cons c clusters ih =>
    rw [List.flatMap_cons, List.append_assoc]
    exact ih.append c

theorem settled_splitOps (clusters : List Cluster) : Settled (splitOps clusters) := by
  apply Settled.flatMap
  split
  · exact ⟨trivial, fun _ => rfl, fun _ => rfl⟩
  · exact ⟨by simp [Orderly], fun _ => rfl, fun _ => rfl⟩

def debt (t : Table) (j : Job) : Nat := if owes t j.todo then 1 else 0

namespace World

structure JobInv (w : World) (old : Nat) (j : Job) : Prop where
  head : j.headID < old
  orderly : Orderly j.todo
  named : ∀ t, willWrite t j.todo = true → old ≤ j.begin ∧ j.begin < w.num
  unwritten : ∀ t, willWrite t j.todo = true → ∀ x ∈ w.writes, x.table = t → x.row ≠ j.begin

structure Inv (w : World) (old : Nat) : Prop where
  old_le_num : old ≤ w.num
  formed : ∀ t, (w.data t).Formed
  old_le : ∀ t, old ≤ (w.data t).count
  rows : ∀ t who, w.num ≤ (w.data t).count + debt t (w.jobs who) + debt t (w.jobs !who)
  job : ∀ who, w.JobInv old (w.jobs who)
  apart : ∀ t who, willWrite t (w.jobs who).todo = true → willWrite t (w.jobs !who).todo = true →
    (w.jobs who).begin ≠ (w.jobs !who).begin
  below : ∀ x ∈ w.writes, x.row < w.num
  fresh : ∀ x ∈ w.writes, x.new = true → (old : Int) ≤ x.row
  there : ∀ x ∈ w.writes, (w.data x.table).Allocated x.row
  kept : w.RowsKept

theorem Ready.inv {w : World} (h : w.Ready) : w.Inv w.num where
  old_le_num := le_refl _
  formed := h.formed
  old_le t := le_of_eq (h.count t).symm
  rows t who := by
    rw [h.count t]
    omega
  job who := by
    obtain ⟨clusters, htodo⟩ := h.todo who
    constructor
    · exact h.head who
    · rw [htodo]
      exact (settled_splitOps clusters).orderly
    · intro t ht
      rw [htodo, (settled_splitOps clusters).written] at ht
      cases ht
    · intro t ht
      rw [htodo, (settled_splitOps clusters).written] at ht
      cases ht
  apart t who ht := by
    obtain ⟨clusters, htodo⟩ := h.todo who
    rw [htodo, (settled_splitOps clusters).written] at ht
    cases ht
  below x hx := absurd (h.writes ▸ hx) List.not_mem_nil
  fresh x hx := absurd (h.writes ▸ hx) List.not_mem_nil
  there x hx := absurd (h.writes ▸ hx) List.not_mem_nil
  kept := ⟨fun x hx => absurd (h.writes ▸ hx) List.not_mem_nil,
    fun x hx => absurd (h.writes ▸ hx) List.not_mem_nil⟩

@[simp] theorem setJob_self (w : World) (who : Bool) (j : Job) : (w.setJob who j).jobs who = j :=
  Function.update_self ..

@[simp] theorem setJob_not (w : World) (who : Bool) (j : Job) :
    (w.setJob who j).jobs (!who) = w.jobs !who :=
  Function.update_of_ne (Bool.not_ne_self who) ..

theorem forall_jobs {P : Bool → Prop} (who : Bool) (h : P who) (hnot : P !who) :
    ∀ who', P who' := by
  intro who'
  cases who <;> cases who' <;> assumption

variable {w : World} {old : Nat}

theorem JobInv.mono {j : Job} (h : w.JobInv old j) {n : Nat} (hn : w.num ≤ n) :
    JobInv { w with num := n } old j where
  head := h.head
  orderly := h.orderly
  named t ht := ⟨(h.named t ht).1, (h.named t ht).2.trans_le (Int.ofNat_le.mpr hn)⟩
  unwritten := h.unwritten

theorem Inv.setJob (h : w.Inv old) {n : Nat} (hn : w.num ≤ n) {who : Bool} {j : Job}
    (hjob : JobInv { w with num := n } old j)
    (hrows : ∀ t, n ≤ (w.data t).count + debt t j + debt t (w.jobs !who))
    (hapart : ∀ t, willWrite t j.todo = true → willWrite t (w.jobs !who).todo = true →
      j.begin ≠ (w.jobs !who).begin) : ({ w with num := n }.setJob who j).Inv old where
  old_le_num := h.old_le_num.trans hn
  formed := h.formed
  old_le := h.old_le
  rows t := by
    refine forall_jobs who ?_ ?_
    · rw [setJob_self, setJob_not]
      exact hrows t
    · rw [setJob_not, Bool.not_not, setJob_self]
      change n ≤ (w.data t).count + debt t (w.jobs !who) + debt t j
      have := hrows t
      omega
  job := by
    refine forall_jobs who ?_ ?_
    · rw [setJob_self]
      exact ⟨hjob.head, hjob.orderly, hjob.named, hjob.unwritten⟩
    · have hother := (h.job !who).mono hn
      rw [setJob_not]
      exact ⟨hother.head, hother.orderly, hother.named, hother.unwritten⟩
  apart t := by
    refine forall_jobs who ?_ ?_
    · rw [setJob_self, setJob_not]
      exact hapart t
    · rw [setJob_not, Bool.not_not, setJob_self]
      exact fun hnot hself => (hapart t hself hnot).symm
  below x hx := (h.below x hx).trans_le (Int.ofNat_le.mpr hn)
  fresh := h.fresh
  there := h.there
  kept := ⟨h.kept.allocated, h.kept.kept⟩

theorem Inv.write (h : w.Inv old) {t : Table} {row value : Int} {new : Bool}
    (hthere : (w.data t).Allocated row) (hnum : row < w.num) (hnew : new = true → (old : Int) ≤ row)
    (hjobs : ∀ who, willWrite t (w.jobs who).todo = true → (w.jobs who).begin ≠ row)
    (hlost : ∀ x ∈ w.writes, x.new = true → x.table = t → x.row ≠ row) :
    (w.write t row value new).Inv old := by
  have hdata (t' : Table) : (w.write t row value new).data t' =
      if t' = t then (w.data t).write row value else w.data t' := Function.update_apply ..
  constructor
  · exact h.old_le_num
  · intro t'
    rw [hdata]
    split
    · exact (h.formed t).write row value
    · exact h.formed t'
  · intro t'
    rw [hdata]
    split
    · rw [Dataset.write_count]
      exact h.old_le t
    · exact h.old_le t'
  · intro t' who
    rw [hdata]
    split
    · rename_i heq
      rw [Dataset.write_count, heq]
      exact h.rows t who
    · exact h.rows t' who
  · intro who
    refine ⟨(h.job who).head, (h.job who).orderly, (h.job who).named, ?_⟩
    intro t' ht' x hx
    rcases List.mem_cons.mp hx with rfl | hx
    · rintro rfl
      exact (hjobs who ht').symm
    · exact (h.job who).unwritten t' ht' x hx
  · exact h.apart
  · intro x hx
    rcases List.mem_cons.mp hx with rfl | hx
    · exact hnum
    · exact h.below x hx
  · intro x hx
    rcases List.mem_cons.mp hx with rfl | hx
    · exact hnew
    · exact h.fresh x hx
  · intro x hx
    rw [hdata]
    rcases List.mem_cons.mp hx with rfl | hx
    · rw [if_pos rfl, Dataset.write_allocated]
      exact hthere
    · split
      · rename_i heq
        rw [Dataset.write_allocated, ← heq]
        exact h.there x hx
      · exact h.there x hx
  · constructor
    · intro x hx
      rcases List.mem_cons.mp hx with rfl | hx
      · exact decide_eq_true hthere
      · exact h.kept.allocated x hx
    · intro x hx hxnew
      rw [hdata]
      rcases List.mem_cons.mp hx with rfl | hx
      · rw [if_pos rfl]
        exact Dataset.content_write_self hthere value
      · split
        · rename_i heq
          rw [Dataset.content_write_of_ne (hlost x hx hxnew heq), ← heq]
          exact h.kept.kept x hx hxnew
        · exact h.kept.kept x hx hxnew

theorem Inv.setData (h : w.Inv old) {t : Table} {d : Dataset} (hd : (w.data t).Extends d)
    (hcount : (w.data t).count ≤ d.count) : (w.setData t d).Inv old := by
  have hdata (t' : Table) : (w.setData t d).data t' = if t' = t then d else w.data t' :=
    Function.update_apply ..
  constructor
  · exact h.old_le_num
  · intro t'
    rw [hdata]
    split
    · exact hd.formed (h.formed t)
    · exact h.formed t'
  · intro t'
    rw [hdata]
    split
    · exact (h.old_le t).trans hcount
    · exact h.old_le t'
  · intro t' who
    rw [hdata]
    split
    · rename_i heq
      rw [heq]
      have hrows := h.rows t who
      change w.num ≤ d.count + debt t (w.jobs who) + debt t (w.jobs !who)
      omega
    · exact h.rows t' who
  · exact fun who => ⟨(h.job who).head, (h.job who).orderly, (h.job who).named,
      (h.job who).unwritten⟩
  · exact h.apart
  · exact h.below
  · exact h.fresh
  · intro x hx
    rw [hdata]
    split
    · rename_i heq
      exact hd.allocated (heq ▸ h.there x hx)
    · exact h.there x hx
  · refine ⟨h.kept.allocated, ?_⟩
    intro x hx hxnew
    rw [hdata]
    split
    · rename_i heq
      rw [hd.content _ (heq ▸ h.there x hx), ← heq]
      exact h.kept.kept x hx hxnew
    · exact h.kept.kept x hx hxnew

theorem Inv.setLock (h : w.Inv old) (holder : Option Bool) : (w.setLock holder).Inv old where
  old_le_num := h.old_le_num
  formed := h.formed
  old_le := h.old_le
  rows := h.rows
  job who := ⟨(h.job who).head, (h.job who).orderly, (h.job who).named, (h.job who).unwritten⟩
  apart := h.apart
  below := h.below
  fresh := h.fresh
  there := h.there
  kept := ⟨h.kept.allocated, h.kept.kept⟩

theorem Inv.goOn (h : w.Inv old) {who : Bool} {op : Op} {ops : List Op}
    (htodo : (w.jobs who).todo = op :: ops) (howes : ∀ t, owes t (op :: ops) = owes t ops)
    (hwrite : ∀ t, willWrite t ops = true → willWrite t (op :: ops) = true) :
    (w.goOn who ops).Inv old := by
  have hjob := h.job who
  apply h.setJob (le_refl _)
  · constructor
    · exact hjob.head
    · have horderly := hjob.orderly
      rw [htodo] at horderly
      exact horderly.2.2
    · intro t ht
      exact hjob.named t (htodo ▸ hwrite t ht)
    · intro t ht
      exact hjob.unwritten t (htodo ▸ hwrite t ht)
  · intro t
    have hrows := h.rows t who
    simpa only [debt, htodo, howes] using hrows
  · intro t ht
    exact h.apart t who (htodo ▸ hwrite t ht)

theorem Inv.leave (h : w.Inv old) (who : Bool) : (w.leave who).Inv old := by
  have hjob := h.job who
  apply Inv.setLock
  exact h.setJob (le_refl _) ⟨hjob.head, hjob.orderly, hjob.named, hjob.unwritten⟩
    (fun t => h.rows t who) (fun t => h.apart t who)

theorem Inv.allocated_begin (h : w.Inv old) {who : Bool} {t : Table} {value : Int} {ops : List Op}
    (htodo : (w.jobs who).todo = .writeBegin t value :: ops)
    (hordered : (w.jobs who).begin < (w.data t).count ∨
      ¬ (w.data t).StartsBlock (w.jobs who).begin) :
    (w.data t).Allocated (w.jobs who).begin := by
  have hjob := h.job who
  have horderly := hjob.orderly
  rw [htodo] at horderly
  have hwill : willWrite t (w.jobs who).todo = true := by simp [htodo, willWrite, awaits]
  obtain ⟨hold, hnum⟩ := hjob.named t hwill
  have hpos : 0 ≤ (w.jobs who).begin := (Int.natCast_nonneg old).trans hold
  have hpaid : debt t (w.jobs who) = 0 := by
    have hadded := (horderly.2.1 t value rfl).1
    simp only [owes] at hadded
    simp [debt, htodo, owes, awaits, hadded]
  have hother : debt t (w.jobs !who) ≤ 1 := by
    unfold debt
    split <;> omega
  have hrows := h.rows t who
  by_cases hlt : (w.jobs who).begin < (w.data t).count
  · exact (h.formed t).allocated hpos hlt
  · have heq : (w.jobs who).begin = (w.data t).count := by omega
    rw [heq] at hordered ⊢
    exact (h.formed t).allocated_count (hordered.resolve_left (lt_irrefl _))

theorem Inv.addIndexId (h : w.Inv old) {who : Bool} {ops : List Op}
    (htodo : (w.jobs who).todo = .addIndexId :: ops) :
    ({ w with num := w.num + 1 }.setJob who
      { w.jobs who with begin := w.num, todo := ops }).Inv old := by
  have hjob := h.job who
  have horderly := hjob.orderly
  rw [htodo] at horderly
  apply h.setJob (Nat.le_succ w.num)
  · constructor
    · exact hjob.head
    · exact horderly.2.2
    · intro t _
      exact ⟨Int.ofNat_le.mpr h.old_le_num, Int.ofNat_lt.mpr (Nat.lt_succ_self _)⟩
    · intro t _ x hx _
      exact (h.below x hx).ne
  · intro t
    have hrows := h.rows t who
    have hpaid : debt t (w.jobs who) = 0 := by simp [debt, htodo, owes, awaits]
    have hdebt : debt t { w.jobs who with begin := w.num, todo := ops } = 1 :=
      if_pos (horderly.1 rfl t)
    omega
  · intro t _ hother
    exact ((h.job !who).named t hother).2.ne'

theorem Inv.addBatch (h : w.Inv old) {who : Bool} {t : Table} {ops : List Op}
    (htodo : (w.jobs who).todo = .addBatch t :: ops) {d : Dataset} (hd : (w.data t).Extends d)
    (hcount : d.count = (w.data t).count + 1) : ((w.setData t d).goOn who ops).Inv old := by
  have hset : (w.setData t d).Inv old := h.setData hd (by omega)
  have hjob := hset.job who
  have horderly := hjob.orderly
  have htodo' : ((w.setData t d).jobs who).todo = .addBatch t :: ops := htodo
  rw [htodo'] at horderly
  have hwrite (t' : Table) (ht' : willWrite t' ops = true) :
      willWrite t' ((w.setData t d).jobs who).todo = true := by
    rw [htodo']
    simpa [willWrite, awaits] using ht'
  apply hset.setJob (le_refl _)
  · exact ⟨hjob.head, horderly.2.2, fun t' ht' => hjob.named t' (hwrite t' ht'),
      fun t' ht' => hjob.unwritten t' (hwrite t' ht')⟩
  · intro t'
    have hrows := h.rows t' who
    have hother : debt t' ((w.setData t d).jobs !who) = debt t' (w.jobs !who) := rfl
    have hdata : (w.setData t d).data t' = if t' = t then d else w.data t' :=
      Function.update_apply ..
    change w.num ≤ _
    rw [hdata, hother]
    split
    · rename_i heq
      subst heq
      have hdebt : debt t' (w.jobs who) ≤ 1 := by
        unfold debt
        split <;> omega
      omega
    · rename_i hne
      have howes : owes t' (w.jobs who).todo = owes t' ops := by
        simp [htodo, owes, awaits, Ne.symm hne]
      rw [debt, howes] at hrows
      exact hrows
  · exact fun t' ht' => hset.apart t' who (hwrite t' ht')

theorem Inv.writeBegin (h : w.Inv old) {who : Bool} {t : Table} {value : Int} {ops : List Op}
    (htodo : (w.jobs who).todo = .writeBegin t value :: ops)
    (hthere : (w.data t).Allocated (w.jobs who).begin) :
    ((w.write t (w.jobs who).begin value true).goOn who ops).Inv old := by
  have hjob := h.job who
  have horderly := hjob.orderly
  rw [htodo] at horderly
  have hwill : willWrite t (w.jobs who).todo = true := by simp [htodo, willWrite, awaits]
  obtain ⟨hold, hnum⟩ := hjob.named t hwill
  have hgo : (w.goOn who ops).Inv old := by
    apply h.goOn htodo
    · simp [owes, awaits]
    · intro t' ht'
      simp only [willWrite] at ht'
      simp [willWrite, awaits, ht']
  apply hgo.write hthere hnum (fun _ => hold)
  · refine forall_jobs who ?_ ?_
    · intro hself
      rw [World.goOn, setJob_self, (horderly.2.1 t value rfl).2] at hself
      cases hself
    · rw [World.goOn, setJob_not]
      exact fun hother => (h.apart t who hwill hother).symm
  · exact fun x hx _ => hjob.unwritten t hwill x hx

theorem Inv.writeHead (h : w.Inv old) {who : Bool} {t : Table} {value : Int} {ops : List Op}
    (htodo : (w.jobs who).todo = .writeHead t value :: ops) :
    ((w.write t (w.jobs who).headID value false).goOn who ops).Inv old := by
  have hhead : ((w.jobs who).headID : Int) < old := Int.ofNat_lt.mpr (h.job who).head
  have hcount : (old : Int) ≤ (w.data t).count := Int.ofNat_le.mpr (h.old_le t)
  have hnum : (old : Int) ≤ w.num := Int.ofNat_le.mpr h.old_le_num
  have hgo : (w.goOn who ops).Inv old := by
    apply h.goOn htodo
    · simp [owes, awaits]
    · simp [willWrite, awaits]
  apply hgo.write
  · exact (h.formed t).allocated (Int.natCast_nonneg _) (hhead.trans_le hcount)
  · exact hhead.trans_le hnum
  · intro hnew
    cases hnew
  · intro who' hwill
    exact (hhead.trans_le ((hgo.job who').named t hwill).1).ne'
  · intro x hx hnew _
    exact (hhead.trans_le (h.fresh x hx hnew)).ne'

theorem Inv.step {e : Event} (hordered : w.Ordered e) (h : w.Inv old) : (w.step e).Inv old := by
  rw [World.Ordered] at hordered
  rw [World.step]
  cases hnext : w.next e.who with
  | nil => exact h
  | cons op ops =>
    have htodo : (w.jobs e.who).todo = op :: ops := by
      unfold World.next at hnext
      split at hnext
      · cases hnext
      · exact hnext
    rw [hnext] at hordered
    have hjob := h.job e.who
    have horderly := hjob.orderly
    rw [htodo] at horderly
    cases op with
    | addIndexId =>
      simp only [act]
      rw [if_pos hordered]
      exact h.addIndexId htodo
    | addBatch t =>
      simp only [act]
      rcases (w.data t).addBatch_cases e.ok with hfull | ⟨d, hd, hcount, hext⟩
      · have hne : t ≠ .vectorTranslateMap := by
          rintro rfl
          simp only [hfull] at hordered
          cases hordered
        rw [hfull, if_neg (by simp [hne])]
        exact h.leave e.who
      · rw [hd, if_pos (Or.inl rfl)]
        exact h.addBatch htodo hext hcount
    | writeBegin t value => exact h.writeBegin htodo (h.allocated_begin htodo hordered)
    | writeHead t value => exact h.writeHead htodo
    | lock =>
      simp only [act]
      split
      · exact (h.goOn htodo (fun t => by simp [owes, awaits])
          (by simp [willWrite, awaits])).setLock _
      · exact h
    | unlock =>
      exact (h.goOn htodo (fun t => by simp [owes, awaits]) (by simp [willWrite, awaits])).setLock _
    | attempt =>
      simp only [act]
      split
      · exact h.goOn htodo (fun t => by simp [owes, awaits]) (by simp [willWrite, awaits])
      · exact h.leave e.who

/-- Two splits keep the rows of their new heads, in every order of their steps in which no
head's row is written ahead of the rows below it. -/
theorem rows_kept (hready : w.Ready) {es : List Event}
    (hes : Along World.step World.Ordered w es) : Throughout World.step World.RowsKept w es :=
  (hes.throughout (fun _ _ => Inv.step) hready.inv).mono fun _ h => h.kept

end World

def threeHeads : Dataset := ⟨2, 1, 1, 1, 8, fun _ => 0⟩

def twoSplits : World where
  num := 3
  room := 8
  data _ := threeHeads
  jobs who := ⟨if who then 1 else 0, 0, splitOps [.newHead 5 1 7], false⟩
  dataAddLock := none
  writes := []

theorem twoSplits_ready : twoSplits.Ready where
  formed _ := show 1 ≤ 1 * 2 ^ 1 by decide
  count _ := rfl
  writes := rfl
  head who := by cases who <;> decide
  todo _ := ⟨_, rfl⟩

def turns (whos : List Bool) : List Event := whos.map fun who => ⟨who, true, 0⟩

theorem rows_kept_in_order : Throughout World.step World.RowsKept twoSplits
    (turns ([false, true, false, true, true, false] ++ List.replicate 11 false ++
      List.replicate 11 true)) :=
  World.rows_kept twoSplits_ready (by decide)

/-- The second job adds the row of the first job's head to the translate map and writes its
own, the first of a block that nobody has allocated. -/
theorem rows_not_kept : ¬ ∀ w : World, w.Ready → ∀ es,
    Throughout World.step World.RowsKept w es := by
  intro h
  have hkept := (h twoSplits twoSplits_ready (turns [false, true, true, true])).last
  exact absurd (hkept.allocated ⟨.vectorTranslateMap, 4, 5, true, false⟩ (by decide)) (by decide)

end Sptag.SPANN.ConcurrentSplit
