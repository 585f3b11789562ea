import Sptag.Common.VersionLabel
import Sptag.Lib.Bytes
import Sptag.Lib.Run
import Sptag.SPANN.PageOptions

/-! The version map under `AddIndex`, `DeleteIndex` and `Checkpoint`, and its recovery from
the saved map and the write-ahead log as `ExtraDynamicSearcher::LoadIndex` does it. The log is
the list of its records in the order they were put. -/

namespace Sptag.SPANN

open Sptag.Lib
open Sptag.COMMON

def sizeTypeBytes (v : Int) : Bytes := leBytes 4 (v % 2 ^ 32).toNat

def sizeTypeOf (bs : Bytes) : Int := toInt (leVal (bs.take 4))

@[simp] theorem sizeTypeBytes_length (v : Int) : (sizeTypeBytes v).length = 4 :=
  leBytes_length ..

theorem sizeTypeOf_append {v : Int} (h : -2 ^ 31 ≤ v ∧ v < 2 ^ 31) (bs : Bytes) :
    sizeTypeOf (sizeTypeBytes v ++ bs) = v := by
  have htake : (sizeTypeBytes v ++ bs).take 4 = sizeTypeBytes v :=
    List.take_left' (sizeTypeBytes_length v)
  have hval : leVal (sizeTypeBytes v) = (v % 2 ^ 32).toNat :=
    leVal_leBytes_of_lt (by omega)
  have hmod : (v % 2 ^ 32).bmod (2 ^ 32) = v.bmod (2 ^ 32) := by
    exact_mod_cast Int.emod_bmod v (2 ^ 32)
  rw [sizeTypeOf, htake, hval, Int.toNat_of_nonneg (by omega), toInt, hmod]
  exact Int.bmod_eq_of_le (by omega) (by omega)

variable {d : Nat}

def vectorInfoSize (d : Nat) : Nat := metaDataSize + d

def serialize (VID : Int) (version : UInt8) (vector : Vector UInt8 d) : Bytes :=
  sizeTypeBytes VID ++ version :: vector.toList

@[simp] theorem serialize_length (VID : Int) (version : UInt8) (vector : Vector UInt8 d) :
    (serialize VID version vector).length = vectorInfoSize d := by
  simp [serialize, vectorInfoSize, metaDataSize]
  omega

namespace Recovery

structure Searcher where
  versionMap : VersionLabel
  wal : List Bytes

/-- What the replica appends of one vector came to: the code of the first that failed, and
the ids whose version the splits and reassigns they led to have raised meanwhile. -/
structure Appended where
  ret : ErrorCode
  bumps : List Int

def incVersions (m : VersionLabel) (VIDs : List Int) : VersionLabel :=
  VIDs.foldl (fun m VID => (m.incVersion VID).2) m

def addVectors (outcome : Int → Appended) :
    Int → List (Vector UInt8 d) → Searcher → ErrorCode × Searcher
  | _, [], s => (.success, s)
  | VID, vector :: vectors, s =>
    let version := s.versionMap.getVersion VID
    let wal := s.wal ++ [serialize VID version vector]
    let s := { versionMap := incVersions s.versionMap (outcome VID).bumps, wal := wal }
    if (outcome VID).ret = .success then addVectors outcome (VID + 1) vectors s
    else ((outcome VID).ret, s)

def addIndex (outcome : Int → Appended) (vectors : List (Vector UInt8 d)) (s : Searcher) :
    ErrorCode × Searcher :=
  if vectors = [] then (.emptyData, s)
  else if s.versionMap.count = 0 then (.emptyIndex, s)
  else
    match s.versionMap.addBatch vectors.length with
    | (.success, versionMap) =>
      addVectors outcome s.versionMap.count vectors { s with versionMap := versionMap }
    | _ => (.memoryOverFlow, s)

def deleteIndex (p_id : Int32) (s : Searcher) : ErrorCode × Searcher :=
  let wal := s.wal ++ [sizeTypeBytes p_id.toInt]
  match s.versionMap.delete p_id.toInt with
  | (true, versionMap) => (.success, ⟨versionMap, wal⟩)
  | (false, versionMap) => (.vectorNotFound, ⟨versionMap, wal⟩)

/-- Where `Checkpoint` returns: before the version map is saved (an asynchronous job had
failed), after it (a later file could not be written), or at its end. -/
inductive CheckpointRun
  | stopsBefore (ret : ErrorCode)
  | stopsAfter (ret : ErrorCode)
  | completes

structure Session where
  searcher : Searcher
  saved : VersionLabel
  added : List Int
  deleted : List Int

inductive Call (d : Nat)
  | add (outcome : Int → Appended) (vectors : List (Vector UInt8 d))
  | delete (p_id : Int32)
  | checkpoint (result : CheckpointRun)
  | background (bumps : List Int)

def newVIDs (m : VersionLabel) (vectors : List (Vector UInt8 d)) : List Int :=
  (List.range vectors.length).map fun i => ((m.count + i : Nat) : Int)

def checkpoint (s : Session) : CheckpointRun → Session
  | .stopsBefore _ => s
  | .stopsAfter _ => { s with saved := s.searcher.versionMap }
  | .completes =>
    { s with searcher := { s.searcher with wal := [] }, saved := s.searcher.versionMap }

def step (s : Session) : Call d → Session
  | .add outcome vectors =>
    match addIndex outcome vectors s.searcher with
    | (.success, searcher) =>
      { s with
        searcher := searcher
        added := s.added ++ newVIDs s.searcher.versionMap vectors }
    | (_, searcher) => { s with searcher := searcher }
  | .delete p_id =>
    match deleteIndex p_id s.searcher with
    | (.success, searcher) =>
      { s with searcher := searcher, deleted := s.deleted ++ [p_id.toInt] }
    | (_, searcher) => { s with searcher := searcher }
  | .checkpoint result => checkpoint s result
  | .background bumps =>
    { s with
      searcher := { s.searcher with versionMap := incVersions s.searcher.versionMap bumps } }

def start (m : VersionLabel) : Session := ⟨⟨m, []⟩, m, [], []⟩

def recordVector (r : Bytes) (h : r.length = vectorInfoSize d) : Vector UInt8 d :=
  ⟨(r.drop metaDataSize).toArray, by simp [h, vectorInfoSize]⟩

/-- One turn of the replay loop, for a record that starts with `VID`; `none` when
`LoadIndex` returns `false`. -/
def replayRecord (d : Nat) (outcome : Int → Appended) (s : Searcher) (r : Bytes) (VID : Int) :
    Option Searcher :=
  if h : r.length = vectorInfoSize d then
    if s.versionMap.count ≤ VID then
      match s.versionMap.addBatch (VID - s.versionMap.count + 1).toNat with
      | (.success, versionMap) =>
        some (addVectors outcome VID [recordVector r h] { s with versionMap := versionMap }).2
      | _ => none
    else some (addVectors outcome VID [recordVector r h] s).2
  else some { s with versionMap := (s.versionMap.delete VID).2 }

def replay (d : Nat) (outcome : Nat → Int → Appended) : Nat → List Bytes → Searcher →
    Option Searcher
  | _, [], s => some s
  | k, r :: rs, s =>
    match replayRecord d (outcome k) s r (sizeTypeOf r) with
    | some s => replay d outcome (k + 1) rs s
    | none => none

/-- `LoadIndex` after a crash: the saved map, and the records of the log replayed (and
logged again) on it. -/
def recover (d : Nat) (outcome : Nat → Int → Appended) (s : Session) : Option Searcher :=
  replay d outcome 0 s.searcher.wal ⟨s.saved, s.searcher.wal⟩

theorem incVersions_spec (m : VersionLabel) (VIDs : List Int) :
    (incVersions m VIDs).count = m.count ∧ (incVersions m VIDs).capacity = m.capacity ∧
      ∀ v, (incVersions m VIDs).Dead v ↔ m.Dead v := by
  induction VIDs generalizing m with
  | nil => exact ⟨rfl, rfl, fun _ => Iff.rfl⟩
  | cons VID VIDs ih =>
    obtain ⟨hcount, hcap, hdead⟩ := ih (m.incVersion VID).2
    refine ⟨hcount.trans (m.count_incVersion VID), hcap.trans (m.capacity_incVersion VID), ?_⟩
    intro v
    exact (hdead v).trans VersionLabel.dead_incVersion

theorem addVectors_singleton (outcome : Int → Appended) (VID : Int) (x : Vector UInt8 d)
    (s : Searcher) :
    (addVectors outcome VID [x] s).2.versionMap =
      incVersions s.versionMap (outcome VID).bumps := by
  simp only [addVectors]
  split <;> rfl

def rowsAfter (d : Nat) (n : Int) (r : Bytes) : Int :=
  if r.length = vectorInfoSize d then max n (sizeTypeOf r + 1) else n

def loggedRows (d : Nat) (saved : VersionLabel) (wal : List Bytes) : Int :=
  wal.foldl (rowsAfter d) saved.count

theorem loggedRows_concat (saved : VersionLabel) (wal : List Bytes) (r : Bytes) :
    loggedRows d saved (wal ++ [r]) = rowsAfter d (loggedRows d saved wal) r := by
  simp [loggedRows]

theorem le_rowsAfter (n : Int) (r : Bytes) : n ≤ rowsAfter d n r := by
  unfold rowsAfter
  split
  · exact le_max_left _ _
  · exact le_refl _

theorem foldl_rowsAfter_le {b : Int} {n : Int} {wal : List Bytes} :
    wal.foldl (rowsAfter d) n ≤ b ↔
      n ≤ b ∧ ∀ r ∈ wal, r.length = vectorInfoSize d → sizeTypeOf r < b := by
  induction wal generalizing n with
  | nil => simp
  | cons r wal ih =>
    rw [List.foldl_cons, ih, List.forall_mem_cons, ← and_assoc]
    refine and_congr_left fun _ => ?_
    unfold rowsAfter
    split
    · rename_i hlen
      rw [max_le_iff, Int.add_one_le_iff]
      simp [hlen]
    · rename_i hlen
      simp [hlen]

theorem replayRecord_spec (outcome : Int → Appended) (s : Searcher) (r : Bytes) (VID : Int)
    (hcap : r.length = vectorInfoSize d → VID < s.versionMap.capacity) :
    ∃ s', replayRecord d outcome s r VID = some s' ∧
      (s'.versionMap.count : Int) =
        (if r.length = vectorInfoSize d then max (s.versionMap.count : Int) (VID + 1)
          else s.versionMap.count) ∧
      s'.versionMap.capacity = s.versionMap.capacity ∧
      ∀ v, s'.versionMap.Dead v ↔ s.versionMap.Dead v ∨
        r.length ≠ vectorInfoSize d ∧ v = VID ∧ 0 ≤ v ∧ v < s.versionMap.count := by
  unfold replayRecord
  by_cases hlen : r.length = vectorInfoSize d
  · simp only [hlen, dite_true, if_true, ne_eq, not_true, false_and, or_false]
    split
    · rename_i hge
      have hle : s.versionMap.count + (VID - s.versionMap.count + 1).toNat ≤
          s.versionMap.capacity := by
        have := hcap hlen
        omega
      rw [VersionLabel.addBatch_of_le hle]
      refine ⟨_, rfl, ?_⟩
      rw [addVectors_singleton]
      obtain ⟨hcount, hc, hdead⟩ := incVersions_spec
        { s.versionMap with
          data := s.versionMap.data ++ List.replicate
            (VID - s.versionMap.count + 1).toNat VersionLabel.blank }
        (outcome VID).bumps
      refine ⟨?_, hc, fun v => (hdead v).trans VersionLabel.dead_append⟩
      rw [hcount, VersionLabel.count, List.length_append, List.length_replicate]
      rw [VersionLabel.count] at hge ⊢
      omega
    · rename_i hlt
      refine ⟨_, rfl, ?_⟩
      rw [addVectors_singleton]
      obtain ⟨hcount, hc, hdead⟩ := incVersions_spec s.versionMap (outcome VID).bumps
      refine ⟨?_, hc, hdead⟩
      rw [hcount]
      omega
  · simp only [hlen, dite_false, if_false, ne_eq, not_false_eq_true, true_and]
    refine ⟨_, rfl, by simp, by simp, fun v => ?_⟩
    rw [VersionLabel.dead_delete]
    refine or_congr_right (and_congr_right fun hv => ?_)
    rw [hv]

theorem replay_concat (outcome : Nat → Int → Appended) (k : Nat) (rs : List Bytes) (r : Bytes)
    (s : Searcher) :
    replay d outcome k (rs ++ [r]) s =
      (replay d outcome k rs s).bind fun s =>
        replayRecord d (outcome (k + rs.length)) s r (sizeTypeOf r) := by
  induction rs generalizing k s with
  | nil =>
    simp only [List.nil_append, replay, List.length_nil, Nat.add_zero, Option.bind_some]
    split <;> simp [*]
  | cons a rs ih =>
    simp only [List.cons_append, replay]
    split
    · rw [ih, List.length_cons, Nat.add_assoc, Nat.add_comm 1]
    · rfl

def Agrees (D : Int → Prop) (m : VersionLabel) : Prop :=
  ∀ v : Int, 0 ≤ v → v < m.count → (m.Dead v ↔ D v)

theorem replay_of_known {D : Int → Prop} (outcome : Nat → Int → Appended) (k : Nat)
    {rs : List Bytes} {s : Searcher} (hD : Agrees D s.versionMap)
    (hins : ∀ r ∈ rs, r.length = vectorInfoSize d → sizeTypeOf r < s.versionMap.count)
    (hcap : ∀ r ∈ rs, r.length = vectorInfoSize d → sizeTypeOf r < s.versionMap.capacity)
    (hdel : ∀ r ∈ rs, r.length ≠ vectorInfoSize d → D (sizeTypeOf r)) :
    ∃ s', replay d outcome k rs s = some s' ∧ s'.versionMap.count = s.versionMap.count ∧
      s'.versionMap.capacity = s.versionMap.capacity ∧ Agrees D s'.versionMap := by
  induction rs generalizing k s with
  | nil => exact ⟨s, rfl, rfl, rfl, hD⟩
  | cons r rs ih =>
    obtain ⟨hins1, hins⟩ := List.forall_mem_cons.mp hins
    obtain ⟨hcap1, hcap⟩ := List.forall_mem_cons.mp hcap
    obtain ⟨hdel1, hdel⟩ := List.forall_mem_cons.mp hdel
    obtain ⟨s', hs', hcount, hc, hdead⟩ := replayRecord_spec (outcome k) s r (sizeTypeOf r) hcap1
    have hsame : s'.versionMap.count = s.versionMap.count := by
      split at hcount
      · have := hins1 ‹_›
        omega
      · omega
    have hD' : Agrees D s'.versionMap := by
      intro v h0 hv
      rw [hsame] at hv
      rw [hdead, hD v h0 hv]
      refine or_iff_left_of_imp ?_
      rintro ⟨hr, hvr, -⟩
      rw [hvr]
      exact hdel1 hr
    simp only [replay, hs']
    rw [← hsame, ← hc]
    rw [← hsame] at hins
    rw [← hc] at hcap
    exact ih (k + 1) hD' hins hcap hdel

structure Inv (d : Nat) (D : Int → Prop) (cap : Nat) (s : Searcher) (saved : VersionLabel) :
    Prop where
  live : Agrees D s.versionMap
  below : ∀ v, D v → v < loggedRows d saved s.wal
  logged_le : loggedRows d saved s.wal ≤ s.versionMap.count
  capacity : s.versionMap.capacity = cap
  inserts : ∀ r ∈ s.wal, r.length = vectorInfoSize d → sizeTypeOf r < cap
  deletes : ∀ r ∈ s.wal, r.length ≠ vectorInfoSize d → D (sizeTypeOf r)
  recovers : ∀ outcome wal, ∃ s', replay d outcome 0 s.wal ⟨saved, wal⟩ = some s' ∧
    (s'.versionMap.count : Int) = loggedRows d saved s.wal ∧ s'.versionMap.capacity = cap ∧
    Agrees D s'.versionMap

variable {D : Int → Prop} {cap : Nat} {s : Searcher} {saved : VersionLabel}

theorem Inv.congr {D' : Int → Prop} (h : Inv d D cap s saved) (hD : ∀ v, D' v ↔ D v) :
    Inv d D' cap s saved := by
  have heq : D' = D := funext fun v => propext (hD v)
  exact heq ▸ h

theorem Inv.bump (h : Inv d D cap s saved) (bumps : List Int) :
    Inv d D cap { s with versionMap := incVersions s.versionMap bumps } saved := by
  obtain ⟨hcount, hcap, hdead⟩ := incVersions_spec s.versionMap bumps
  refine { h with live := ?_, logged_le := ?_, capacity := hcap.trans h.capacity }
  · intro v h0 hv
    rw [hcount] at hv
    exact (hdead v).trans (h.live v h0 hv)
  · change _ ≤ ((incVersions s.versionMap bumps).count : Int)
    rw [hcount]
    exact h.logged_le

theorem Inv.addRows (h : Inv d D cap s saved) (num : Nat) :
    Inv d D cap
      { s with
        versionMap :=
          { s.versionMap with
            data := s.versionMap.data ++ List.replicate num VersionLabel.blank } } saved := by
  have hle := h.logged_le
  refine { h with live := ?_, logged_le := ?_ }
  · intro v h0 hv
    rw [VersionLabel.dead_append]
    by_cases hold : v < s.versionMap.count
    · exact h.live v h0 hold
    · refine iff_of_false (fun hd => ?_) fun hd => ?_
      · exact hold (VersionLabel.label?_eq_some_lt hd).2
      · have := h.below v hd
        omega
  · refine hle.trans ?_
    simp only [VersionLabel.count, List.length_append]
    omega

theorem Inv.logInsert (h : Inv d D cap s saved) {VID : Int} (h0 : 0 ≤ VID)
    (hrow : VID < s.versionMap.count) (hVID : VID < cap) (hcap : cap < 2 ^ 31) (version : UInt8)
    (x : Vector UInt8 d) :
    Inv d D cap { s with wal := s.wal ++ [serialize VID version x] } saved ∧
      VID < loggedRows d saved (s.wal ++ [serialize VID version x]) := by
  have hid : sizeTypeOf (serialize VID version x) = VID := sizeTypeOf_append (by omega) _
  have hrows : loggedRows d saved (s.wal ++ [serialize VID version x]) =
      max (loggedRows d saved s.wal) (VID + 1) := by
    rw [loggedRows_concat, rowsAfter, if_pos (serialize_length ..), hid]
  refine ⟨{ h with below := ?_, logged_le := ?_, inserts := ?_, deletes := ?_, recovers := ?_ }, ?_⟩
  · intro v hv
    rw [hrows]
    have := h.below v hv
    omega
  · rw [hrows]
    have := h.logged_le
    exact max_le this hrow
  · refine List.forall_mem_append.mpr ⟨h.inserts, ?_⟩
    intro r hr _
    rw [List.mem_singleton.mp hr, hid]
    exact hVID
  · refine List.forall_mem_append.mpr ⟨h.deletes, ?_⟩
    intro r hr hlen
    rw [List.mem_singleton.mp hr] at hlen
    exact absurd (serialize_length ..) hlen
  · intro outcome wal
    obtain ⟨s', hs', hcount, hc, hD⟩ := h.recovers outcome wal
    obtain ⟨s'', hs'', hcount', hc', hdead⟩ := replayRecord_spec
      (outcome (0 + s.wal.length)) s' (serialize VID version x) VID
      (by rw [hc]; exact fun _ => hVID)
    refine ⟨s'', ?_, ?_, hc'.trans hc, ?_⟩
    · rw [replay_concat, hs', hid]
      exact hs''
    · rw [hcount', if_pos (serialize_length ..), hcount, hrows]
    · intro v hv0 hv
      have hstale : ¬ (serialize VID version x).length ≠ vectorInfoSize d :=
        not_not.mpr (serialize_length ..)
      rw [hdead, or_iff_left fun hr => hstale hr.1]
      by_cases hold : v < s'.versionMap.count
      · exact hD v hv0 hold
      · refine iff_of_false (fun hd => hold (VersionLabel.label?_eq_some_lt hd).2) fun hd => ?_
        have := h.below v hd
        omega
  · rw [hrows]
    omega

theorem addVectors_spec (hcap : cap < 2 ^ 31) (outcome : Int → Appended) (VID : Int)
    (xs : List (Vector UInt8 d)) (h : Inv d D cap s saved) (h0 : 0 ≤ VID)
    (hrow : VID + xs.length ≤ s.versionMap.count) (hle : s.versionMap.count ≤ cap) :
    Inv d D cap (addVectors outcome VID xs s).2 saved ∧
      loggedRows d saved s.wal ≤ loggedRows d saved (addVectors outcome VID xs s).2.wal ∧
      ((addVectors outcome VID xs s).1 = .success →
        ∀ v, VID ≤ v → v < VID + xs.length →
          v < loggedRows d saved (addVectors outcome VID xs s).2.wal) := by
  induction xs generalizing VID s with
  | nil =>
    refine ⟨h, le_refl _, fun _ v hv hlt => ?_⟩
    simp only [List.length_nil] at hlt
    omega
  | cons x xs ih =>
    simp only [List.length_cons] at hrow ⊢
    obtain ⟨hlog, hVID⟩ := h.logInsert h0 (by omega) (by omega) hcap
      (s.versionMap.getVersion VID) x
    have hbump := hlog.bump (outcome VID).bumps
    have hgrow : loggedRows d saved s.wal ≤
        loggedRows d saved (s.wal ++ [serialize VID (s.versionMap.getVersion VID) x]) := by
      rw [loggedRows_concat]
      exact le_rowsAfter ..
    obtain ⟨hcount, -, -⟩ := incVersions_spec s.versionMap (outcome VID).bumps
    simp only [addVectors]
    split
    · obtain ⟨hinv, hmono, hall⟩ := ih (VID + 1) hbump (by omega)
        (by rw [hcount]; omega) (by rw [hcount]; omega)
      refine ⟨hinv, hgrow.trans hmono, fun hret v hv hlt => ?_⟩
      rcases eq_or_lt_of_le hv with rfl | hlt'
      · exact lt_of_lt_of_le hVID hmono
      · exact hall hret v (by omega) (by omega)
    · rename_i hret
      exact ⟨hbump, hgrow, fun hok => absurd hok hret⟩

theorem addIndex_spec (outcome : Int → Appended) (xs : List (Vector UInt8 d))
    (hcap : cap < 2 ^ 31) (h : Inv d D cap s saved) :
    Inv d D cap (addIndex outcome xs s).2 saved ∧
      loggedRows d saved s.wal ≤ loggedRows d saved (addIndex outcome xs s).2.wal ∧
      ((addIndex outcome xs s).1 = .success →
        ∀ v ∈ newVIDs s.versionMap xs, v < loggedRows d saved (addIndex outcome xs s).2.wal) := by
  have hskip : ∀ ret : ErrorCode, ret ≠ .success →
      Inv d D cap s saved ∧ loggedRows d saved s.wal ≤ loggedRows d saved s.wal ∧
        (ret = .success → ∀ v ∈ newVIDs s.versionMap xs, v < loggedRows d saved s.wal) :=
    fun ret hret => ⟨h, le_refl _, fun hok => absurd hok hret⟩
  unfold addIndex
  split
  · exact hskip .emptyData (by decide)
  · split
    · exact hskip .emptyIndex (by decide)
    · by_cases hle : s.versionMap.count + xs.length ≤ s.versionMap.capacity
      · rw [VersionLabel.addBatch_of_le hle]
        rw [h.capacity] at hle
        have hcount : ∀ m : VersionLabel, ({ m with
            data := m.data ++ List.replicate xs.length VersionLabel.blank } : VersionLabel).count =
            m.count + xs.length := by
          simp [VersionLabel.count]
        obtain ⟨hinv, hmono, hall⟩ := addVectors_spec hcap outcome s.versionMap.count xs
          (h.addRows xs.length) (by omega) (by rw [hcount]; omega)
          (by rw [hcount]; omega)
        refine ⟨hinv, hmono, fun hret v hv => ?_⟩
        obtain ⟨i, hi, rfl⟩ := List.mem_map.mp hv
        rw [List.mem_range] at hi
        exact hall hret _ (by omega) (by omega)
      · have hfail : s.versionMap.addBatch xs.length = (.memoryOverFlow, s.versionMap) := by
          unfold VersionLabel.addBatch
          rw [if_pos (by omega)]
        rw [hfail]
        exact hskip .memoryOverFlow (by decide)

theorem deleteIndex_eq (p_id : Int32) (s : Searcher) :
    deleteIndex p_id s =
      (if (s.versionMap.delete p_id.toInt).1 then .success else .vectorNotFound,
        ⟨(s.versionMap.delete p_id.toInt).2, s.wal ++ [sizeTypeBytes p_id.toInt]⟩) := by
  unfold deleteIndex
  split <;> simp [*]

theorem deleteIndex_spec (p_id : Int32) (h : Inv d D cap s saved)
    (hp : p_id.toInt < loggedRows d saved s.wal) :
    Inv d (fun v => D v ∨ v = p_id.toInt) cap (deleteIndex p_id s).2 saved := by
  have hid : sizeTypeOf (sizeTypeBytes p_id.toInt) = p_id.toInt := by
    have hlo : -2 ^ 31 ≤ p_id.toInt := p_id.minValue_le_toInt
    have hhi : p_id.toInt ≤ 2 ^ 31 - 1 := p_id.toInt_le
    rw [← List.append_nil (sizeTypeBytes _)]
    exact sizeTypeOf_append (by omega) []
  have hlen : (sizeTypeBytes p_id.toInt).length ≠ vectorInfoSize d := by
    rw [sizeTypeBytes_length, vectorInfoSize, metaDataSize]
    omega
  have hrows : loggedRows d saved (s.wal ++ [sizeTypeBytes p_id.toInt]) =
      loggedRows d saved s.wal := by
    rw [loggedRows_concat, rowsAfter, if_neg hlen]
  -- a row marked by the call, live or replayed, is `p_id` itself
  have hagree : ∀ m : VersionLabel, Agrees D m →
      ∀ v : Int, 0 ≤ v → v < m.count →
        ((m.Dead v ∨ v = p_id.toInt ∧ 0 ≤ v ∧ v < m.count) ↔ D v ∨ v = p_id.toInt) := by
    intro m hm v h0 hv
    rw [hm v h0 hv]
    simp [h0, hv]
  rw [deleteIndex_eq]
  constructor
  case live =>
    intro v h0 hv
    rw [VersionLabel.count_delete] at hv
    refine Iff.trans ?_ (hagree _ h.live v h0 hv)
    rw [VersionLabel.dead_delete]
    refine or_congr_right (and_congr_right fun hvp => ?_)
    rw [hvp]
  case below =>
    rintro v (hv | rfl)
    · rw [hrows]
      exact h.below v hv
    · rw [hrows]
      exact hp
  case logged_le =>
    rw [hrows, VersionLabel.count_delete]
    exact h.logged_le
  case capacity =>
    rw [VersionLabel.capacity_delete]
    exact h.capacity
  case inserts =>
    refine List.forall_mem_append.mpr ⟨h.inserts, fun r hr hins => ?_⟩
    rw [List.mem_singleton.mp hr] at hins
    exact absurd hins hlen
  case deletes =>
    refine List.forall_mem_append.mpr ⟨fun r hr hdel => .inl (h.deletes r hr hdel), ?_⟩
    intro r hr _
    rw [List.mem_singleton.mp hr]
    exact .inr hid
  case recovers =>
    intro outcome wal
    obtain ⟨s', hs', hcount, hc, hD⟩ := h.recovers outcome wal
    obtain ⟨s'', hs'', hcount', hc', hdead⟩ := replayRecord_spec (d := d)
      (outcome (0 + s.wal.length)) s' (sizeTypeBytes p_id.toInt) p_id.toInt
      (fun hins => absurd hins hlen)
    rw [if_neg hlen] at hcount'
    refine ⟨s'', ?_, ?_, hc'.trans hc, ?_⟩
    · rw [replay_concat, hs', hid]
      exact hs''
    · rw [hrows, ← hcount, hcount']
    · intro v h0 hv
      rw [hcount'] at hv
      refine Iff.trans ?_ (hagree _ hD v h0 hv)
      rw [hdead]
      simp only [hlen, ne_eq, not_false_eq_true, true_and]

theorem Inv.save (h : Inv d D cap s saved) : Inv d D cap s s.versionMap := by
  have hins : ∀ r ∈ s.wal, r.length = vectorInfoSize d → sizeTypeOf r < s.versionMap.count :=
    (foldl_rowsAfter_le.mp h.logged_le).2
  have hrows : loggedRows d s.versionMap s.wal = s.versionMap.count := by
    refine le_antisymm (foldl_rowsAfter_le.mpr ⟨le_refl _, hins⟩) ?_
    exact (foldl_rowsAfter_le.mp (le_refl _)).1
  refine { h with below := ?_, logged_le := hrows.le, recovers := ?_ }
  · intro v hv
    rw [hrows]
    exact lt_of_lt_of_le (h.below v hv) h.logged_le
  · intro outcome wal
    obtain ⟨s', hs', hcount, hc, hD⟩ := replay_of_known (s := ⟨s.versionMap, wal⟩) outcome 0
      h.live hins (by rw [h.capacity]; exact h.inserts) h.deletes
    exact ⟨s', hs', by rw [hcount, hrows], hc.trans h.capacity, hD⟩

theorem Inv.saveAndClear (h : Inv d D cap s saved) :
    Inv d D cap { s with wal := [] } s.versionMap := by
  refine { h with
    below := ?_, logged_le := le_refl _, inserts := ?_, deletes := ?_, recovers := ?_ }
  · exact fun v hv => lt_of_lt_of_le (h.below v hv) h.logged_le
  · simp
  · simp
  · exact fun outcome wal => ⟨_, rfl, rfl, h.capacity, h.live⟩

def SessionInv (d : Nat) (m : VersionLabel) (s : Session) : Prop :=
  Inv d (fun v => m.Dead v ∨ v ∈ s.deleted) m.capacity s.searcher s.saved ∧
    ∀ v ∈ s.added, v < loggedRows d s.saved s.searcher.wal

/-- `DeleteIndex` is called only for ids below the rows that the saved map and the log
account for. -/
def DeletesLogged (s : Session) : Call d → Prop
  | .delete p_id => p_id.toInt < loggedRows d s.saved s.searcher.wal
  | _ => True

/-- Recovery succeeds, marks exactly the acknowledged deletions (those before the session
included) and has a row for each acknowledged insertion. -/
def Recovers (d : Nat) (m : VersionLabel) (s : Session) : Prop :=
  ∀ outcome, ∃ s', recover d outcome s = some s' ∧
    (∀ v : Int, 0 ≤ v → v < s'.versionMap.count →
      (s'.versionMap.deleted v = true ↔ m.Dead v ∨ v ∈ s.deleted)) ∧
    ∀ v ∈ s.added, v < s'.versionMap.count

theorem SessionInv.recovers {m : VersionLabel} {s : Session} (h : SessionInv d m s) :
    Recovers d m s := by
  intro outcome
  obtain ⟨s', hs', hcount, -, hD⟩ := h.1.recovers outcome s.searcher.wal
  refine ⟨s', hs', fun v h0 hv => ?_, fun v hv => ?_⟩
  · rw [VersionLabel.deleted_eq_true_iff ⟨h0, hv⟩]
    exact hD v h0 hv
  · rw [hcount]
    exact h.2 v hv

theorem sessionInv_start (m : VersionLabel) : SessionInv d m (start m) := by
  refine ⟨?_, by simp [start]⟩
  constructor
  case live => exact fun v _ _ => by simp [start]
  case below =>
    rintro v (hv | hv)
    · exact (VersionLabel.label?_eq_some_lt hv).2
    · cases hv
  case logged_le => exact le_refl _
  case capacity => rfl
  case inserts => simp [start]
  case deletes => simp [start]
  case recovers => exact fun outcome wal => ⟨_, rfl, rfl, rfl, fun v _ _ => by simp [start]⟩

theorem sessionInv_add {m : VersionLabel} {s : Session} (outcome : Int → Appended)
    (xs : List (Vector UInt8 d)) (h : SessionInv d m s) :
    SessionInv d m (step s (.add outcome xs)) := by
  obtain ⟨hinv, hadded⟩ := h
  obtain ⟨hadd, hmono, hnew⟩ := addIndex_spec outcome xs m.capacity_lt hinv
  simp only [step]
  split
  · rename_i searcher hres
    rw [hres] at hadd hmono hnew
    refine ⟨hadd, List.forall_mem_append.mpr ⟨fun v hv => ?_, hnew rfl⟩⟩
    exact lt_of_lt_of_le (hadded v hv) hmono
  · rename_i searcher hres
    rw [hres] at hadd hmono
    exact ⟨hadd, fun v hv => lt_of_lt_of_le (hadded v hv) hmono⟩

theorem sessionInv_delete {m : VersionLabel} {s : Session} {p_id : Int32}
    (hp : p_id.toInt < loggedRows d s.saved s.searcher.wal) (h : SessionInv d m s) :
    SessionInv d m (step s (.delete p_id : Call d)) := by
  obtain ⟨hinv, hadded⟩ := h
  have hdel := deleteIndex_spec p_id hinv hp
  have hmono : loggedRows d s.saved s.searcher.wal ≤
      loggedRows d s.saved (deleteIndex p_id s.searcher).2.wal := by
    rw [deleteIndex_eq, loggedRows_concat]
    exact le_rowsAfter ..
  have hadded' := fun v hv => lt_of_lt_of_le (hadded v hv) hmono
  rw [deleteIndex_eq] at hdel hadded'
  simp only [step, deleteIndex_eq]
  cases hb : (s.searcher.versionMap.delete p_id.toInt).1 with
  | true =>
    refine ⟨hdel.congr fun v => ?_, hadded'⟩
    change m.Dead v ∨ v ∈ s.deleted ++ [p_id.toInt] ↔ _
    rw [List.mem_append, List.mem_singleton, or_assoc]
  | false =>
    -- the id was deleted before, so its deletion has been acknowledged
    have hdead := VersionLabel.dead_of_delete_eq_false hb
    have hlt := VersionLabel.label?_eq_some_lt hdead
    have hknown := (hinv.live _ hlt.1 hlt.2).mp hdead
    refine ⟨hdel.congr fun v => ?_, hadded'⟩
    refine (or_iff_left_of_imp ?_).symm
    rintro rfl
    exact hknown

theorem sessionInv_checkpoint {m : VersionLabel} {s : Session} (result : CheckpointRun)
    (h : SessionInv d m s) : SessionInv d m (step s (.checkpoint result : Call d)) := by
  obtain ⟨hinv, hadded⟩ := h
  cases result with
  | stopsBefore ret => exact ⟨hinv, hadded⟩
  | stopsAfter ret =>
    refine ⟨hinv.save, fun v hv => ?_⟩
    have hle : (s.searcher.versionMap.count : Int) ≤
        loggedRows d s.searcher.versionMap s.searcher.wal :=
      (foldl_rowsAfter_le.mp (le_refl _)).1
    exact lt_of_lt_of_le (lt_of_lt_of_le (hadded v hv) hinv.logged_le) hle
  | completes =>
    exact ⟨hinv.saveAndClear, fun v hv => lt_of_lt_of_le (hadded v hv) hinv.logged_le⟩

theorem sessionInv_step {m : VersionLabel} (s : Session) (c : Call d) (hc : DeletesLogged s c)
    (h : SessionInv d m s) : SessionInv d m (step s c) := by
  cases c with
  | add outcome xs => exact sessionInv_add outcome xs h
  | delete p_id => exact sessionInv_delete hc h
  | checkpoint result => exact sessionInv_checkpoint result h
  | background bumps => exact ⟨h.1.bump bumps, h.2⟩

/-- Wherever a run that deletes only logged ids is cut off, recovery reproduces its
deletions. -/
theorem recovery_reproduces_deletions (m : VersionLabel) (calls : List (Call d))
    (h : Along step DeletesLogged (start m) calls) :
    Throughout step (Recovers d m) (start m) calls :=
  (h.throughout sessionInv_step (sessionInv_start m)).mono fun _ => SessionInv.recovers

def oneRow : VersionLabel := ⟨[VersionLabel.blank], 0, 10, by decide⟩

theorem recovery_reproduces_small :
    Throughout step (Recovers 1 oneRow) (start oneRow)
      [.add (fun _ => ⟨.success, []⟩) [#v[7]], .delete 1, .checkpoint .completes, .delete 0] := by
  refine recovery_reproduces_deletions oneRow _ ⟨trivial, ?_, trivial, ?_, trivial⟩
  · change (1 : Int) < _
    decide
  · change (0 : Int) < _
    decide

theorem recovery_forgets_early_delete :
    ¬ Recovers 1 oneRow (run step (start oneRow)
      [.delete 1, .add (fun _ => ⟨.success, []⟩) [#v[7]]]) := by
  intro h
  obtain ⟨s', hs', hdel, -⟩ := h fun _ _ => ⟨.success, []⟩
  have hrow : (recover 1 (fun _ _ => ⟨.success, []⟩) (run step (start oneRow)
      [.delete 1, .add (fun _ => ⟨.success, []⟩) [#v[7]]])).map (·.versionMap.data) =
      some [VersionLabel.blank, VersionLabel.blank] := by
    decide
  rw [hs', Option.map_some, Option.some.injEq] at hrow
  have hcount : s'.versionMap.count = 2 := by rw [VersionLabel.count, hrow]; rfl
  have hlive : s'.versionMap.deleted 1 = false := by
    rw [VersionLabel.deleted, VersionLabel.label?, hrow]
    decide
  have hdel1 := (hdel 1 (by decide) (by rw [hcount]; decide)).mpr (.inr (by decide))
  rw [hlive] at hdel1
  cases hdel1

end Recovery

end Sptag.SPANN
