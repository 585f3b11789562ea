import Sptag.SPANN.TiKVIO
import Sptag.Helper.AerospikeKeyValueIO

/-! Two clients that merge into the same key of one store, in any order of their calls. -/

namespace Sptag.SPANN

open Sptag.Lib
open Sptag.Helper

namespace ConcurrentMerge

/-- How far a client is: it holds the value its second call will store, or it has
returned `Success`. -/
inductive Phase
  | start
  | midway (x : Bytes)
  | done

structure Duo where
  phase : Bool → Phase
  value : Option Bytes

def Duo.step (first : Option Bytes → Bytes → Phase × Option Bytes) (v : Bool → Bytes)
    (s : Duo) (who : Bool) : Duo :=
  match s.phase who with
  | .start =>
    let r := first s.value (v who)
    ⟨Function.update s.phase who r.1, r.2⟩
  | .midway x => ⟨Function.update s.phase who .done, some x⟩
  | .done => s

def Duo.start (old : Option Bytes) : Duo := ⟨fun _ => .start, old⟩

def Merged (old : Bytes) (v : Bool → Bytes) (new : Bytes) : Prop :=
  ∃ a, new = old ++ v a ++ v (!a)

theorem not_merged_of_one {old : Bytes} {v : Bool → Bytes} (hv : ∀ who, v who ≠ []) (b : Bool) :
    ¬ Merged old v (old ++ v b) := by
  rintro ⟨a, h⟩
  have ha := List.length_pos_iff.mpr (hv a)
  have hb := List.length_pos_iff.mpr (hv (!a))
  have hlen := congrArg List.length h
  simp only [List.length_append] at hlen
  rcases Bool.eq_or_eq_not b a with rfl | rfl <;> omega

variable {first : Option Bytes → Bytes → Phase × Option Bytes} {v : Bool → Bytes} {s : Duo}
  {n : Bool → Nat} {who : Bool}

theorem Duo.step_start (h : s.phase who = .start) :
    s.step first v who =
      ⟨Function.update s.phase who (first s.value (v who)).1, (first s.value (v who)).2⟩ := by
  unfold Duo.step
  rw [h]

theorem Duo.step_midway {x : Bytes} (h : s.phase who = .midway x) :
    s.step first v who = ⟨Function.update s.phase who .done, some x⟩ := by
  unfold Duo.step
  rw [h]

theorem Duo.step_done (h : s.phase who = .done) : s.step first v who = s := by
  unfold Duo.step
  rw [h]

section ReadWrite

def readFirst (d : Option Bytes) (x : Bytes) : Phase × Option Bytes := (.midway (d.getD [] ++ x), d)

variable {old : Option Bytes}

inductive ReadClean (old : Option Bytes) (v : Bool → Bytes) (s : Duo) (n : Bool → Nat) : Prop
  | fresh (h : ∀ who, s.phase who = .start) (hs : s.value = old) (hn : ∀ who, n who = 0)
  | one (a : Bool) (ha : s.phase a = .midway (old.getD [] ++ v a)) (hb : s.phase (!a) = .start)
    (hs : s.value = old) (hna : n a = 1) (hnb : n (!a) = 0)
  | first (a : Bool) (ha : s.phase a = .done) (hb : s.phase (!a) = .start)
    (hs : s.value = some (old.getD [] ++ v a)) (hna : 2 ≤ n a) (hnb : n (!a) = 0)
  | second (a : Bool) (ha : s.phase a = .done)
    (hb : s.phase (!a) = .midway (old.getD [] ++ v a ++ v (!a)))
    (hs : s.value = some (old.getD [] ++ v a)) (hna : 2 ≤ n a) (hnb : n (!a) = 1)
  | both (a : Bool) (h : ∀ who, s.phase who = .done)
    (hs : s.value = some (old.getD [] ++ v a ++ v (!a))) (hn : ∀ who, 2 ≤ n who)

inductive ReadSpoiled (old : Option Bytes) (v : Bool → Bytes) (s : Duo) : Prop
  | two (h : ∀ who, s.phase who = .midway (old.getD [] ++ v who))
  | one (a : Bool) (ha : s.phase a = .done) (hb : s.phase (!a) = .midway (old.getD [] ++ v (!a)))
  | none (a : Bool) (h : ∀ who, s.phase who = .done) (hs : s.value = some (old.getD [] ++ v a))

theorem readClean_step (hs : ReadClean old v s n) (hok : Apart n who) :
    ReadClean old v (s.step readFirst v who) (tally n who) := by
  cases hs with
  | fresh h hs hn =>
    rw [Duo.step_start (h who)]
    exact .one who (by simp [readFirst, hs]) (by simp [h]) hs (by simp [hn]) (by simp [hn])
  | one a ha hb hs hna hnb =>
    rcases Bool.eq_or_eq_not who a with rfl | rfl
    · rw [Duo.step_midway ha]
      exact .first who (by simp) (by simpa using hb) rfl (by simp [hna]) (by simpa using hnb)
    · exact absurd hna (by simpa using hok hnb)
  | first a ha hb hs hna hnb =>
    rcases Bool.eq_or_eq_not who a with rfl | rfl
    · rw [Duo.step_done ha]
      exact .first who ha hb hs (by simp; omega) (by simpa using hnb)
    · rw [Duo.step_start hb]
      refine .second a ?_ ?_ hs ?_ (by simp [hnb])
      · simpa using ha
      · simp [readFirst, hs]
      · simpa [tally] using hna
  | second a ha hb hs hna hnb =>
    rcases Bool.eq_or_eq_not who a with rfl | rfl
    · rw [Duo.step_done ha]
      exact .second who ha hb hs (by simp; omega) (by simpa using hnb)
    · rw [Duo.step_midway hb]
      refine .both a (fun who => ?_) rfl fun who => ?_
      · rcases Bool.eq_or_eq_not who a with rfl | rfl
        · simpa using ha
        · simp
      · rcases Bool.eq_or_eq_not who a with rfl | rfl
        · simpa [tally] using hna
        · simp [hnb]
  | both a h hs hn =>
    rw [Duo.step_done (h who)]
    refine .both a h hs fun b => ?_
    rcases Bool.eq_or_eq_not b who with rfl | rfl
    · have := hn b
      simp
      omega
    · simpa using hn (!who)

theorem readClean_break (hs : ReadClean old v s n) (hbad : ¬ Apart n who) :
    ReadSpoiled old v (s.step readFirst v who) := by
  simp only [Apart, Classical.not_imp, not_not] at hbad
  obtain ⟨hwho, hother⟩ := hbad
  cases hs with
  | fresh h hs hn => exact absurd hother (by simp [hn])
  | one a ha hb hs hna hnb =>
    rcases Bool.eq_or_eq_not who a with rfl | rfl
    · omega
    · rw [Duo.step_start hb]
      refine .two fun b => ?_
      rcases Bool.eq_or_eq_not b a with rfl | rfl
      · simpa using ha
      · simp [readFirst, hs]
  | first a ha hb hs hna hnb =>
    rcases Bool.eq_or_eq_not who a with rfl | rfl
    · omega
    · rw [Bool.not_not] at hother
      omega
  | second a ha hb hs hna hnb =>
    rcases Bool.eq_or_eq_not who a with rfl | rfl <;> omega
  | both a h hs hn =>
    have := hn who
    omega

theorem readSpoiled_step (hs : ReadSpoiled old v s) :
    ReadSpoiled old v (s.step readFirst v who) := by
  cases hs with
  | two h =>
    rw [Duo.step_midway (h who)]
    exact .one who (by simp) (by simp [h])
  | one a ha hb =>
    rcases Bool.eq_or_eq_not who a with rfl | rfl
    · rw [Duo.step_done ha]
      exact .one who ha hb
    · rw [Duo.step_midway hb]
      refine .none (!a) (fun b => ?_) rfl
      rcases Bool.eq_or_eq_not b a with rfl | rfl
      · simpa using ha
      · simp
  | none a h hs =>
    rw [Duo.step_done (h who)]
    exact .none a h hs

theorem read_merged_iff (hv : ∀ who, v who ≠ []) (schedule : List Bool)
    (hdone : ∀ who, (run (Duo.step readFirst v) (.start old) schedule).phase who = .done) :
    Merged (old.getD []) v ((run (Duo.step readFirst v) (.start old) schedule).value.getD []) ↔
      Serial schedule := by
  obtain ⟨hclean, hspoiled⟩ := @run_clean_or_spoiled _ _ (Duo.step readFirst v) _ tally
    Apart (ReadClean old v) (fun s _ => ReadSpoiled old v s)
    (fun _ _ _ hs hok => readClean_step hs hok) (fun _ _ _ hs hbad => readClean_break hs hbad)
    (fun _ _ _ hs => readSpoiled_step hs) _ _ schedule
    (.fresh (fun _ => rfl) rfl fun _ => rfl : ReadClean old v (.start old) fun _ => 0)
  generalize run (Duo.step readFirst v) (.start old) schedule = s at hdone hclean hspoiled
  constructor
  · intro hm
    by_contra hserial
    cases hspoiled hserial with
    | two h => exact absurd ((h true).symm.trans (hdone true)) (by simp)
    | one a ha hb => exact absurd (hb.symm.trans (hdone _)) (by simp)
    | none a h hs =>
      rw [hs] at hm
      exact not_merged_of_one hv a hm
  · intro hserial
    cases hclean hserial with
    | fresh h hs hn => exact absurd ((h true).symm.trans (hdone true)) (by simp)
    | one a ha hb hs hna hnb => exact absurd (ha.symm.trans (hdone _)) (by simp)
    | first a ha hb hs hna hnb => exact absurd (hb.symm.trans (hdone _)) (by simp)
    | second a ha hb hs hna hnb => exact absurd (hb.symm.trans (hdone _)) (by simp)
    | both a h hs hn => exact ⟨a, by rw [hs, Option.getD_some]⟩

end ReadWrite

section AppendWrite

def appendFirst : Option Bytes → Bytes → Phase × Option Bytes
  | none, x => (.midway x, none)
  | some d, x => (.done, some (d ++ x))

def Duo.opened (v : Bool → Bytes) (old : Option Bytes) : Duo :=
  ⟨fun who => if v who = [] then .done else .start, old⟩

inductive Present (d : Bytes) (v : Bool → Bytes) (s : Duo) : Prop
  | fresh (h : ∀ who, s.phase who = .start) (hs : s.value = some d)
  | first (a : Bool) (ha : s.phase a = .done) (hb : s.phase (!a) = .start)
    (hs : s.value = some (d ++ v a))
  | both (a : Bool) (h : ∀ who, s.phase who = .done) (hs : s.value = some (d ++ v a ++ v (!a)))

theorem present_step {d : Bytes} (hs : Present d v s) :
    Present d v (s.step appendFirst v who) := by
  cases hs with
  | fresh h hs =>
    rw [Duo.step_start (h who), hs]
    exact .first who (by simp [appendFirst]) (by simp [h]) rfl
  | first a ha hb hs =>
    rcases Bool.eq_or_eq_not who a with rfl | rfl
    · rw [Duo.step_done ha]
      exact .first who ha hb hs
    · rw [Duo.step_start hb, hs]
      refine .both a (fun b => ?_) rfl
      rcases Bool.eq_or_eq_not b a with rfl | rfl
      · simpa using ha
      · simp [appendFirst]
  | both a h hs =>
    rw [Duo.step_done (h who)]
    exact .both a h hs

inductive Alone (old : Option Bytes) (v : Bool → Bytes) (b : Bool) (s : Duo) : Prop
  | start (ha : s.phase (!b) = .done) (hb : s.phase b = .start) (hs : s.value = old)
  | midway (ha : s.phase (!b) = .done) (hb : s.phase b = .midway (old.getD [] ++ v b))
  | done (h : ∀ who, s.phase who = .done) (hs : s.value.getD [] = old.getD [] ++ v b)

theorem alone_step {old : Option Bytes} {b : Bool} (hs : Alone old v b s) :
    Alone old v b (s.step appendFirst v who) := by
  have hdone : ∀ {d : Option Bytes}, s.phase (!b) = .done →
      ∀ c, (⟨Function.update s.phase b .done, d⟩ : Duo).phase c = .done := by
    intro d ha c
    rcases Bool.eq_or_eq_not c b with rfl | rfl
    · simp
    · simpa using ha
  cases hs with
  | start ha hb hs =>
    rcases Bool.eq_or_eq_not who b with rfl | rfl
    · rw [Duo.step_start hb, hs]
      cases old with
      | none => exact .midway (by simpa using ha) (by simp [appendFirst])
      | some d => exact .done (hdone ha) rfl
    · rw [Duo.step_done ha]
      exact .start ha hb hs
  | midway ha hb =>
    rcases Bool.eq_or_eq_not who b with rfl | rfl
    · rw [Duo.step_midway hb]
      exact .done (hdone ha) rfl
    · rw [Duo.step_done ha]
      exact .midway ha hb
  | done h hs =>
    rw [Duo.step_done (h who)]
    exact .done h hs

/-- The record is missing, and no client has started between the calls of the other. -/
inductive AbsentClean (v : Bool → Bytes) (s : Duo) (n : Bool → Nat) : Prop
  | fresh (h : ∀ who, s.phase who = .start) (hs : s.value = none) (hn : ∀ who, n who = 0)
  | one (a : Bool) (ha : s.phase a = .midway (v a)) (hb : s.phase (!a) = .start)
    (hs : s.value = none) (hna : n a = 1) (hnb : n (!a) = 0)
  | first (a : Bool) (ha : s.phase a = .done) (hb : s.phase (!a) = .start)
    (hs : s.value = some (v a)) (hna : 2 ≤ n a) (hnb : n (!a) = 0)
  | both (a : Bool) (h : ∀ who, s.phase who = .done) (hs : s.value = some (v a ++ v (!a)))
    (hn : ∀ who, 1 ≤ n who)

inductive AbsentSpoiled (v : Bool → Bytes) (s : Duo) : Prop
  | two (h : ∀ who, s.phase who = .midway (v who))
  | one (a : Bool) (ha : s.phase a = .done) (hb : s.phase (!a) = .midway (v (!a)))
  | none (a : Bool) (h : ∀ who, s.phase who = .done) (hs : s.value = some (v a))

theorem absentClean_step (hs : AbsentClean v s n) (hok : Apart n who) :
    AbsentClean v (s.step appendFirst v who) (tally n who) := by
  cases hs with
  | fresh h hs hn =>
    rw [Duo.step_start (h who), hs]
    exact .one who (by simp [appendFirst]) (by simp [h]) rfl (by simp [hn]) (by simp [hn])
  | one a ha hb hs hna hnb =>
    rcases Bool.eq_or_eq_not who a with rfl | rfl
    · rw [Duo.step_midway ha]
      exact .first who (by simp) (by simpa using hb) rfl (by simp [hna]) (by simpa using hnb)
    · exact absurd hna (by simpa using hok hnb)
  | first a ha hb hs hna hnb =>
    rcases Bool.eq_or_eq_not who a with rfl | rfl
    · rw [Duo.step_done ha]
      exact .first who ha hb hs (by simp; omega) (by simpa using hnb)
    · rw [Duo.step_start hb, hs]
      refine .both a (fun b => ?_) rfl fun b => ?_
      · rcases Bool.eq_or_eq_not b a with rfl | rfl
        · simpa using ha
        · simp [appendFirst]
      · rcases Bool.eq_or_eq_not b a with rfl | rfl
        · simp [tally]
          omega
        · simp
  | both a h hs hn =>
    rw [Duo.step_done (h who)]
    refine .both a h hs fun b => ?_
    rcases Bool.eq_or_eq_not b who with rfl | rfl
    · simp
    · simpa using hn (!who)

theorem absentClean_break (hs : AbsentClean v s n) (hbad : ¬ Apart n who) :
    AbsentSpoiled v (s.step appendFirst v who) := by
  simp only [Apart, Classical.not_imp, not_not] at hbad
  obtain ⟨hwho, hother⟩ := hbad
  cases hs with
  | fresh h hs hn => exact absurd hother (by simp [hn])
  | one a ha hb hs hna hnb =>
    rcases Bool.eq_or_eq_not who a with rfl | rfl
    · omega
    · rw [Duo.step_start hb, hs]
      refine .two fun b => ?_
      rcases Bool.eq_or_eq_not b a with rfl | rfl
      · simpa using ha
      · simp [appendFirst]
  | first a ha hb hs hna hnb =>
    rcases Bool.eq_or_eq_not who a with rfl | rfl
    · omega
    · rw [Bool.not_not] at hother
      omega
  | both a h hs hn =>
    have := hn who
    omega

theorem absentSpoiled_step (hs : AbsentSpoiled v s) :
    AbsentSpoiled v (s.step appendFirst v who) := by
  cases hs with
  | two h =>
    rw [Duo.step_midway (h who)]
    exact .one who (by simp) (by simp [h])
  | one a ha hb =>
    rcases Bool.eq_or_eq_not who a with rfl | rfl
    · rw [Duo.step_done ha]
      exact .one who ha hb
    · rw [Duo.step_midway hb]
      refine .none (!a) (fun b => ?_) rfl
      rcases Bool.eq_or_eq_not b a with rfl | rfl
      · simpa using ha
      · simp
  | none a h hs =>
    rw [Duo.step_done (h who)]
    exact .none a h hs

/-- Clients that append or put lose no value exactly when there is a record, one of them
has no value, or their calls do not overlap. -/
theorem append_merged_iff (old : Option Bytes) (schedule : List Bool)
    (hdone : ∀ who, (run (Duo.step appendFirst v) (.opened v old) schedule).phase who = .done) :
    Merged (old.getD []) v
        ((run (Duo.step appendFirst v) (.opened v old) schedule).value.getD []) ↔
      old ≠ none ∨ (∃ who, v who = []) ∨ Serial schedule := by
  by_cases hempty : ∃ who, v who = []
  · obtain ⟨a, ha⟩ := hempty
    have hstart : Alone old v (!a) (.opened v old) := by
      by_cases hb : v (!a) = []
      · refine .done (fun who => ?_) (by simp [Duo.opened, hb])
        rcases Bool.eq_or_eq_not who a with rfl | rfl <;> simp [Duo.opened, *]
      · exact .start (by simp [Duo.opened, ha]) (by simp [Duo.opened, hb]) rfl
    refine iff_of_true ?_ (.inr (.inl ⟨a, ha⟩))
    cases run_keeps (fun _ _ => alone_step) schedule hstart with
    | start h hb hs => exact absurd (hb.symm.trans (hdone _)) (by simp)
    | midway h hb => exact absurd (hb.symm.trans (hdone _)) (by simp)
    | done h hs => exact ⟨a, by rw [hs, ha, List.append_nil]⟩
  have hstart : ∀ who, (Duo.opened v old).phase who = .start :=
    fun who => if_neg fun h => hempty ⟨who, h⟩
  cases old with
  | some d =>
    refine iff_of_true ?_ (.inl (by simp))
    cases run_keeps (fun _ _ => present_step) schedule (.fresh hstart rfl : Present d v _) with
    | fresh h hs => exact absurd ((h true).symm.trans (hdone true)) (by simp)
    | first a ha hb hs => exact absurd (hb.symm.trans (hdone _)) (by simp)
    | both a h hs => exact ⟨a, by rw [hs, Option.getD_some, Option.getD_some]⟩
  | none =>
    obtain ⟨hclean, hspoiled⟩ := @run_clean_or_spoiled _ _ (Duo.step appendFirst v) _ tally
      Apart (AbsentClean v) (fun s _ => AbsentSpoiled v s)
      (fun _ _ _ hs hok => absentClean_step hs hok) (fun _ _ _ hs hbad => absentClean_break hs hbad)
      (fun _ _ _ hs => absentSpoiled_step hs) _ _ schedule
      (.fresh hstart rfl fun _ => rfl : AbsentClean v (.opened v none) fun _ => 0)
    generalize run (Duo.step appendFirst v) (.opened v none) schedule = s at hdone hclean hspoiled
    simp only [ne_eq, not_true_eq_false, hempty, false_or, Option.getD_none]
    constructor
    · intro hm
      by_contra hserial
      cases hspoiled hserial with
      | two h => exact absurd ((h true).symm.trans (hdone true)) (by simp)
      | one a ha hb => exact absurd (hb.symm.trans (hdone _)) (by simp)
      | none a h hs =>
        rw [hs] at hm
        rw [Option.getD_some, ← List.nil_append (v a)] at hm
        exact not_merged_of_one (fun who hw => hempty ⟨who, hw⟩) a hm
    · intro hserial
      cases hclean hserial with
      | fresh h hs hn => exact absurd ((h true).symm.trans (hdone true)) (by simp)
      | one a ha hb hs hna hnb => exact absurd (ha.symm.trans (hdone _)) (by simp)
      | first a ha hb hs hna hnb => exact absurd (hb.symm.trans (hdone _)) (by simp)
      | both a h hs hn => exact ⟨a, by rw [hs, Option.getD_some, List.nil_append]⟩

end AppendWrite

def tikv (io : TiKVIO) (key : UInt32) (v : Bool → Bytes) (data : Bytes → Option Bytes) :
    Shared TiKVIO.Rpc TiKVIO.Rpc.Reply ErrorCode TiKVIO.Cluster :=
  ⟨fun who => io.merge key (v who), ⟨data, []⟩⟩

def aerospike (io : AerospikeKeyValueIO) (key : UInt32) (v : Bool → Bytes)
    (data : UInt32 → Option Bytes) :
    Shared AerospikeKeyValueIO.Request (fun _ => AerospikeKeyValueIO.Status) ErrorCode
      (UInt32 → Option Bytes) :=
  ⟨fun who => io.merge key (v who), data⟩

def tikvProg (io : TiKVIO) (key : UInt32) (x : Bytes) : Phase → TiKVIO.Client ErrorCode
  | .start => io.merge key x
  | .midway y => io.put key y
  | .done => .ret .success

def aerospikeProg (io : AerospikeKeyValueIO) (key : UInt32) (x : Bytes) :
    Phase → AerospikeKeyValueIO.Client ErrorCode
  | .start => io.merge key x
  | .midway y => io.put key y
  | .done => .ret .success

theorem tikv_call_merge (io : TiKVIO) (key : UInt32) {x : Bytes} (hx : x ≠ [])
    (data : Bytes → Option Bytes) :
    (io.merge key x).call TiKVIO.Cluster.serve ⟨data, []⟩ =
      (io.put key ((data (io.makePrefixedKey key)).getD [] ++ x), ⟨data, []⟩) := by
  unfold TiKVIO.merge TiKVIO.get TiKVIO.getLoop
  rw [if_neg hx, Prog.bind, Prog.call]
  unfold TiKVIO.Cluster.serve TiKVIO.Cluster.fate
  simp only [List.headD_nil, List.tail_nil]
  cases data (io.makePrefixedKey key) <;> rfl

theorem aerospike_call_merge {io : AerospikeKeyValueIO} (hio : io.connected = true) (key : UInt32)
    {x : Bytes} (hx : x ≠ []) (data : UInt32 → Option Bytes) :
    (io.merge key x).call AerospikeKeyValueIO.serve data =
      (aerospikeProg io key x (appendFirst (data key) x).1,
        Function.update data key (appendFirst (data key) x).2) := by
  unfold AerospikeKeyValueIO.merge
  rw [hio, if_neg (by simp), if_neg hx, Prog.call]
  unfold AerospikeKeyValueIO.serve
  simp only
  cases hd : data key with
  | none => simp only [appendFirst, aerospikeProg, ← hd, Function.update_eq_self]
  | some d => rfl

def TikvRel (io : TiKVIO) (key : UInt32) (v : Bool → Bytes)
    (w : Shared TiKVIO.Rpc TiKVIO.Rpc.Reply ErrorCode TiKVIO.Cluster) (s : Duo) : Prop :=
  (∀ who, w.client who = tikvProg io key (v who) (s.phase who)) ∧
    ∃ data, w.server = ⟨data, []⟩ ∧ data (io.makePrefixedKey key) = s.value

theorem tikvRel_step {io : TiKVIO} {key : UInt32} (hv : ∀ who, v who ≠ []) (who : Bool)
    {w : Shared TiKVIO.Rpc TiKVIO.Rpc.Reply ErrorCode TiKVIO.Cluster}
    (h : TikvRel io key v w s) :
    TikvRel io key v (w.step TiKVIO.Cluster.serve who) (s.step readFirst v who) := by
  obtain ⟨hclient, data, hserver, hvalue⟩ := h
  have hupdate : ∀ ph b, Function.update w.client who (tikvProg io key (v who) ph) b =
      tikvProg io key (v b) (Function.update s.phase who ph b) := by
    intro ph b
    rcases Bool.eq_or_eq_not b who with rfl | rfl
    · simp
    · simp [hclient]
  have hwho := hclient who
  cases hph : s.phase who with
  | start =>
    rw [hph] at hwho
    rw [Duo.step_start hph, Shared.step, hwho, hserver, tikvProg, tikv_call_merge io key (hv who)]
    refine ⟨fun b => ?_, data, rfl, hvalue⟩
    rw [hvalue]
    exact hupdate (.midway _) b
  | midway x =>
    rw [hph] at hwho
    rw [Duo.step_midway hph, Shared.step, hwho, hserver]
    exact ⟨hupdate .done, Function.update data _ (some x), rfl, by simp⟩
  | done =>
    rw [hph] at hwho
    rw [Duo.step_done hph, Shared.step_of_ret hwho]
    exact ⟨hclient, data, hserver, hvalue⟩

def AerospikeRel (io : AerospikeKeyValueIO) (key : UInt32) (v : Bool → Bytes)
    (w : Shared AerospikeKeyValueIO.Request (fun _ => AerospikeKeyValueIO.Status) ErrorCode
      (UInt32 → Option Bytes)) (s : Duo) : Prop :=
  (∀ who, w.client who = aerospikeProg io key (v who) (s.phase who)) ∧
    (∀ who, s.phase who = .start → v who ≠ []) ∧ w.server key = s.value

theorem aerospikeRel_step {io : AerospikeKeyValueIO} (hio : io.connected = true) {key : UInt32}
    (who : Bool)
    {w : Shared AerospikeKeyValueIO.Request (fun _ => AerospikeKeyValueIO.Status) ErrorCode
      (UInt32 → Option Bytes)} (h : AerospikeRel io key v w s) :
    AerospikeRel io key v (w.step AerospikeKeyValueIO.serve who) (s.step appendFirst v who) := by
  obtain ⟨hclient, hv, hvalue⟩ := h
  have hupdate : ∀ ph b, Function.update w.client who (aerospikeProg io key (v who) ph) b =
      aerospikeProg io key (v b) (Function.update s.phase who ph b) := by
    intro ph b
    rcases Bool.eq_or_eq_not b who with rfl | rfl
    · simp
    · simp [hclient]
  have hkeep : ∀ ph, ph ≠ .start → ∀ b, Function.update s.phase who ph b = .start → v b ≠ [] := by
    intro ph hph b
    rcases Bool.eq_or_eq_not b who with rfl | rfl
    · simp [hph]
    · simpa using hv (!who)
  have hwho := hclient who
  cases hph : s.phase who with
  | start =>
    rw [hph] at hwho
    rw [Duo.step_start hph, Shared.step, hwho, aerospikeProg,
      aerospike_call_merge hio key (hv who hph), hvalue]
    refine ⟨hupdate _, hkeep _ ?_, by simp⟩
    cases s.value <;> simp [appendFirst]
  | midway x =>
    rw [hph, aerospikeProg, AerospikeKeyValueIO.put, hio] at hwho
    rw [Duo.step_midway hph, Shared.step, hwho]
    exact ⟨hupdate .done, hkeep _ (by simp), Function.update_self ..⟩
  | done =>
    rw [hph] at hwho
    rw [Duo.step_done hph, Shared.step_of_ret hwho]
    exact ⟨hclient, hv, hvalue⟩

theorem phase_eq_done_of_tikv {io : TiKVIO} {key : UInt32} {x : Bytes} {ph : Phase}
    (hx : x ≠ []) (h : tikvProg io key x ph = .ret .success) : ph = .done := by
  cases ph with
  | start =>
    rw [tikvProg, TiKVIO.merge, if_neg hx, TiKVIO.get, TiKVIO.getLoop, Prog.bind] at h
    cases h
  | midway y => cases h
  | done => rfl

theorem phase_eq_done_of_aerospike {io : AerospikeKeyValueIO} (hio : io.connected = true)
    {key : UInt32} {x : Bytes} {ph : Phase} (hx : ph = .start → x ≠ [])
    (h : aerospikeProg io key x ph = .ret .success) : ph = .done := by
  cases ph with
  | start =>
    rw [aerospikeProg, AerospikeKeyValueIO.merge, hio, if_neg (by simp), if_neg (hx rfl)] at h
    cases h
  | midway y =>
    rw [aerospikeProg, AerospikeKeyValueIO.put, hio, if_neg (by simp)] at h
    cases h
  | done => rfl

theorem tikv_kept_iff {io : TiKVIO} {key : UInt32} {data : Bytes → Option Bytes}
    {schedule : List Bool}
    (hw : (run (Shared.step TiKVIO.Cluster.serve) (tikv io key v data)
      schedule).Returned .success) :
    Merged ((data (io.makePrefixedKey key)).getD []) v
        (((run (Shared.step TiKVIO.Cluster.serve) (tikv io key v data) schedule).server.data
          (io.makePrefixedKey key)).getD []) ↔ Serial schedule := by
  have hv : ∀ who, v who ≠ [] := by
    intro who hempty
    have hfail : (tikv io key v data).client who = .ret .fail := by
      simp [tikv, TiKVIO.merge, hempty]
    exact absurd ((Shared.run_of_ret hfail schedule).symm.trans (hw who)) (by simp)
  have hstart : TikvRel io key v (tikv io key v data) (.start (data (io.makePrefixedKey key))) :=
    ⟨fun _ => rfl, data, rfl, rfl⟩
  obtain ⟨hclient, data', hserver, hvalue⟩ :=
    run_simulates (fun _ _ who h => tikvRel_step hv who h) schedule hstart
  rw [← read_merged_iff hv schedule fun who =>
    phase_eq_done_of_tikv (hv who) ((hclient who).symm.trans (hw who)), ← hvalue, hserver]

theorem aerospike_kept_iff {io : AerospikeKeyValueIO} {key : UInt32}
    {data : UInt32 → Option Bytes} {schedule : List Bool}
    (hw : (run (Shared.step AerospikeKeyValueIO.serve) (aerospike io key v data)
      schedule).Returned .success) :
    Merged ((data key).getD []) v
        (((run (Shared.step AerospikeKeyValueIO.serve) (aerospike io key v data)
          schedule).server key).getD []) ↔
      data key ≠ none ∨ (∃ who, v who = []) ∨ Serial schedule := by
  have hio : io.connected = true := by
    by_contra hne
    have hfail : (aerospike io key v data).client true = .ret .fail := by
      simp [aerospike, AerospikeKeyValueIO.merge, hne]
    exact absurd ((Shared.run_of_ret hfail schedule).symm.trans (hw true)) (by simp)
  have hstart : AerospikeRel io key v (aerospike io key v data) (.opened v (data key)) := by
    refine ⟨fun who => ?_, fun who h hv => ?_, rfl⟩
    · by_cases hv : v who = []
      · simp [aerospike, AerospikeKeyValueIO.merge, Duo.opened, hv, hio, aerospikeProg]
      · simp [aerospike, Duo.opened, hv, aerospikeProg]
    · simp [Duo.opened, hv] at h
  obtain ⟨hclient, hv, hvalue⟩ :=
    run_simulates (fun _ _ who h => aerospikeRel_step hio who h) schedule hstart
  rw [← append_merged_iff (data key) schedule fun who =>
    phase_eq_done_of_aerospike hio (hv who) ((hclient who).symm.trans (hw who)), ← hvalue]

/-- When both merges return `Success`: TiKV keeps both values exactly when the RPCs of the
clients do not overlap, Aerospike exactly when this holds, the record existed or one of the
values is empty. -/
theorem merges_kept_iff (schedule : List Bool) (key : UInt32) (v : Bool → Bytes) :
    (∀ (io : TiKVIO) (data : Bytes → Option Bytes),
      (run (Shared.step TiKVIO.Cluster.serve) (tikv io key v data) schedule).Returned .success →
        (Merged ((data (io.makePrefixedKey key)).getD []) v
          (((run (Shared.step TiKVIO.Cluster.serve) (tikv io key v data) schedule).server.data
            (io.makePrefixedKey key)).getD []) ↔ Serial schedule)) ∧
    ∀ (io : AerospikeKeyValueIO) (data : UInt32 → Option Bytes),
      (run (Shared.step AerospikeKeyValueIO.serve) (aerospike io key v data) schedule).Returned
        .success →
        (Merged ((data key).getD []) v
          (((run (Shared.step AerospikeKeyValueIO.serve) (aerospike io key v data)
            schedule).server key).getD []) ↔
          data key ≠ none ∨ (∃ who, v who = []) ∨ Serial schedule) :=
  ⟨fun _ _ hw => tikv_kept_iff hw, fun _ _ hw => aerospike_kept_iff hw⟩

theorem merges_kept_in_turn :
    Merged [7] (fun who => if who then [1] else [2])
      (((run (Shared.step TiKVIO.Cluster.serve)
        (tikv ⟨[]⟩ 3 (fun who => if who then [1] else [2]) fun _ => some [7])
        [true, true, false, false]).server.data <| TiKVIO.makePrefixedKey ⟨[]⟩ 3).getD []) ∧
    Merged [] (fun who => if who then [1] else [2])
      (((run (Shared.step AerospikeKeyValueIO.serve)
        (aerospike ⟨true⟩ 3 (fun who => if who then [1] else [2]) fun _ => none)
        [true, true, false, false]).server 3).getD []) := by
  have hserial : Serial [true, true, false, false] := by simp [Serial, Along, Apart, tally]
  obtain ⟨htikv, haerospike⟩ :=
    merges_kept_iff [true, true, false, false] 3 fun who => if who then [1] else [2]
  constructor
  · refine (htikv ⟨[]⟩ (fun _ => some [7]) fun who => ?_).mpr hserial
    cases who <;> rfl
  · refine (haerospike ⟨true⟩ (fun _ => none) fun who => ?_).mpr (.inr (.inr hserial))
    cases who <;> rfl

theorem merges_lost :
    (∃ w, w = run (Shared.step TiKVIO.Cluster.serve)
        (tikv ⟨[]⟩ 3 (fun who => if who then [1] else [2]) fun _ => some [7])
        [true, false, true, false] ∧ w.Returned .success ∧
      ¬ Merged [7] (fun who => if who then [1] else [2])
        ((w.server.data <| TiKVIO.makePrefixedKey ⟨[]⟩ 3).getD [])) ∧
    ∃ w, w = run (Shared.step AerospikeKeyValueIO.serve)
        (aerospike ⟨true⟩ 3 (fun who => if who then [1] else [2]) fun _ => none)
        [true, false, true, false] ∧ w.Returned .success ∧
      ¬ Merged [] (fun who => if who then [1] else [2]) ((w.server 3).getD []) := by
  refine ⟨⟨_, rfl, fun who => ?_, ?_⟩, _, rfl, fun who => ?_, ?_⟩
  · cases who <;> rfl
  · rintro ⟨a, h⟩
    cases a <;> exact absurd h (by decide)
  · cases who <;> rfl
  · rintro ⟨a, h⟩
    cases a <;> exact absurd h (by decide)

end ConcurrentMerge

end Sptag.SPANN
