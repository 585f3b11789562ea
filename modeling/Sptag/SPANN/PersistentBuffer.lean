import Sptag.SPANN.RocksDBIO
import Sptag.Lib.Run

/-! `PersistentBuffer.h`: the write-ahead log, records keyed by an integer counter. -/

namespace Sptag.SPANN

open Sptag.Lib

structure PersistentBuffer where
  db : RocksDBIO
  size : UInt32

namespace PersistentBuffer

def new (db : RocksDBIO) : PersistentBuffer := ⟨db, 0⟩

def getNewAssignmentID (pb : PersistentBuffer) : UInt32 × PersistentBuffer :=
  (pb.size, { pb with size := pb.size + 1 })

def putAssignment (pb : PersistentBuffer) (assignment : Bytes) : UInt32 × PersistentBuffer :=
  let (assignmentID, pb) := pb.getNewAssignmentID
  (assignmentID, { pb with db := pb.db.put assignmentID assignment })

def scanned (r : Option (UInt32 × Bytes) × RocksDBIO) (size : UInt32) :
    Option Bytes × PersistentBuffer :=
  match r with
  | (some (newSize, assignment), db) => (some assignment, ⟨db, newSize + 1⟩)
  | (none, db) => (none, ⟨db, size⟩)

def startToScan (pb : PersistentBuffer) : Option Bytes × PersistentBuffer :=
  scanned pb.db.startToScan pb.size

def nextToScan (pb : PersistentBuffer) : Option Bytes × PersistentBuffer :=
  scanned pb.db.nextToScan pb.size

def clearPreviousRecord (pb : PersistentBuffer) : PersistentBuffer :=
  ⟨pb.db.deleteRange 0 pb.size, 0⟩

def putAll : PersistentBuffer → List Bytes → List UInt32 × PersistentBuffer
  | pb, [] => ([], pb)
  | pb, a :: as =>
    let (id, pb) := pb.putAssignment a
    let (ids, pb) := pb.putAll as
    (id :: ids, pb)

def nextAll : Nat → PersistentBuffer → List Bytes × PersistentBuffer
  | 0, pb => ([], pb)
  | k + 1, pb =>
    match pb.nextToScan with
    | (some a, pb) => let (as, pb) := nextAll k pb; (a :: as, pb)
    | (none, pb) => ([], pb)

def scan (k : Nat) (pb : PersistentBuffer) : List Bytes × PersistentBuffer :=
  match pb.startToScan with
  | (some a, pb) => let (as, pb) := nextAll k pb; (a :: as, pb)
  | (none, pb) => ([], pb)

def scanAll (pb : PersistentBuffer) : List Bytes × PersistentBuffer :=
  pb.scan pb.db.db.entries.length

def restart (pb : PersistentBuffer) : PersistentBuffer := .new { pb.db with it := [] }

abbrev entries (pb : PersistentBuffer) : List (Bytes × Bytes) := pb.db.db.entries

def indexed : Nat → List Bytes → List (Bytes × Bytes)
  | _, [] => []
  | k, a :: as => (leBytes 4 k, a) :: indexed (k + 1) as

theorem mem_indexed {k : Nat} {as : List Bytes} {e : Bytes × Bytes} :
    e ∈ indexed k as ↔ ∃ i, ∃ h : i < as.length, e = (leBytes 4 (k + i), as[i]) := by
  induction as generalizing k with
  | nil => simp [indexed]
  | cons a as ih =>
    simp only [indexed, List.mem_cons, ih]
    constructor
    · rintro (rfl | ⟨i, h, rfl⟩)
      · exact ⟨0, by simp, rfl⟩
      · refine ⟨i + 1, by simpa using h, ?_⟩
        simp [Nat.add_assoc, Nat.add_comm 1 i]
    · rintro ⟨i, h, rfl⟩
      cases i with
      | zero => exact .inl rfl
      | succ i =>
        refine .inr ⟨i, by simpa using h, ?_⟩
        simp [Nat.add_assoc, Nat.add_comm 1 i]

@[simp] theorem indexed_length (k : Nat) (as : List Bytes) :
    (indexed k as).length = as.length := by
  induction as generalizing k with
  | nil => rfl
  | cons a as ih => simp [indexed, ih]

@[simp] theorem indexed_map_snd (k : Nat) (as : List Bytes) :
    (indexed k as).map Prod.snd = as := by
  induction as generalizing k with
  | nil => rfl
  | cons a as ih => simp [indexed, ih]

theorem indexed_append (k : Nat) (as bs : List Bytes) :
    indexed k (as ++ bs) = indexed k as ++ indexed (k + as.length) bs := by
  induction as generalizing k with
  | nil => simp [indexed]
  | cons a as ih => simp [indexed, ih, Nat.add_assoc, Nat.add_comm 1 as.length]

theorem putAll_ids (pb : PersistentBuffer) {k : Nat} (hk : pb.size = UInt32.ofNat k)
    (as : List Bytes) :
    (pb.putAll as).1 = (List.range' k as.length).map UInt32.ofNat ∧
      (pb.putAll as).2.size = UInt32.ofNat (k + as.length) := by
  induction as generalizing pb k with
  | nil => exact ⟨rfl, hk⟩
  | cons a as ih =>
    have hsucc : (pb.putAssignment a).2.size = UInt32.ofNat (k + 1) := by
      change pb.size + 1 = _
      rw [hk, UInt32.ofNat_add]
      rfl
    obtain ⟨hids, hsize⟩ := ih _ hsucc
    constructor
    · change pb.size :: ((pb.putAssignment a).2.putAll as).1 = _
      rw [hids, hk, List.length_cons, List.range'_succ, List.map_cons]
    · change ((pb.putAssignment a).2.putAll as).2.size = _
      rw [hsize, List.length_cons, Nat.add_assoc, Nat.add_comm 1]

theorem putAll_entries_perm (pb : PersistentBuffer) {k : Nat} (hk : pb.size = UInt32.ofNat k)
    {as : List Bytes} (hlen : k + as.length ≤ 2 ^ 32)
    (hold : ∀ e ∈ pb.entries, ∃ i < k, e.1 = leBytes 4 i) :
    (pb.putAll as).2.entries.Perm (pb.entries ++ indexed k as) := by
  induction as generalizing pb k with
  | nil => simp [putAll, indexed]
  | cons a as ih =>
    simp only [List.length_cons] at hlen
    have hkey : keyBytes pb.size = leBytes 4 k := by
      rw [keyBytes, hk, UInt32.toNat_ofNat', Nat.mod_eq_of_lt (by omega)]
    have hne : ∀ e ∈ pb.entries, e.1 ≠ leBytes 4 k := by
      intro e he heq
      obtain ⟨i, hi, hei⟩ := hold e he
      have hik := (leBytes_inj (w := 4) (by omega) (by omega)).mp (hei ▸ heq)
      omega
    have hperm : (pb.putAssignment a).2.entries.Perm ((leBytes 4 k, a) :: pb.entries) := by
      change (insertEntry (keyBytes pb.size) a pb.entries).Perm _
      rw [hkey]
      exact insertEntry_perm a hne
    have hold' : ∀ e ∈ (pb.putAssignment a).2.entries, ∃ i < k + 1, e.1 = leBytes 4 i := by
      intro e he
      rcases List.mem_cons.mp (hperm.mem_iff.mp he) with rfl | he
      · exact ⟨k, by omega, rfl⟩
      · obtain ⟨i, hi, hei⟩ := hold e he
        exact ⟨i, by omega, hei⟩
    have hsucc : (pb.putAssignment a).2.size = UInt32.ofNat (k + 1) := by
      change pb.size + 1 = _
      rw [hk, UInt32.ofNat_add]
      rfl
    exact (ih _ hsucc (by omega) hold').trans ((hperm.append_right _).trans List.perm_middle.symm)

theorem putAll_entries (pb : PersistentBuffer) (old as : List Bytes)
    (hsize : pb.size = UInt32.ofNat old.length) (hold : pb.entries = indexed 0 old)
    (hlen : old.length + as.length ≤ 256) :
    (pb.putAll as).2.entries = indexed 0 (old ++ as) := by
  induction as generalizing pb old with
  | nil => simpa [putAll] using hold
  | cons a as ih =>
    simp only [List.length_cons] at hlen
    have hkey : keyBytes pb.size = leBytes 4 old.length := by
      rw [keyBytes, hsize, UInt32.toNat_ofNat', Nat.mod_eq_of_lt (by omega)]
    have hlt : ∀ e ∈ pb.entries, e.1 < leBytes 4 old.length := by
      intro e he
      rw [hold] at he
      obtain ⟨i, hi, rfl⟩ := mem_indexed.mp he
      exact (leBytes_lt_iff_of_lt (by omega) (by omega)).mpr (by omega)
    have hput : (pb.putAssignment a).2.entries = indexed 0 (old ++ [a]) := by
      change insertEntry (keyBytes pb.size) a pb.entries = _
      rw [hkey, insertEntry_of_forall_lt a hlt, hold, indexed_append]
      simp [indexed]
    have hsucc : (pb.putAssignment a).2.size = UInt32.ofNat (old ++ [a]).length := by
      change pb.size + 1 = _
      rw [hsize, List.length_append, UInt32.ofNat_add]
      rfl
    have h := ih _ _ hsucc hput (by simp; omega)
    rwa [List.append_assoc, List.singleton_append] at h

def sizeAfter (size : UInt32) (es : List (Bytes × Bytes)) : UInt32 :=
  match es.getLast? with
  | some e => keyOf e.1 + 1
  | none => size

@[simp] theorem sizeAfter_cons (size : UInt32) (e : Bytes × Bytes) (es : List (Bytes × Bytes)) :
    sizeAfter size (e :: es) = sizeAfter (keyOf e.1 + 1) es := by
  cases es with
  | nil => rfl
  | cons a as =>
    simp only [sizeAfter, List.getLast?_cons_cons,
      List.getLast?_eq_some_getLast (List.cons_ne_nil a as)]

theorem nextAll_spec (k : Nat) (pb : PersistentBuffer) :
    (nextAll k pb).1 = (pb.db.it.tail.take k).map Prod.snd ∧
      (nextAll k pb).2.size = sizeAfter pb.size (pb.db.it.tail.take k) ∧
      (nextAll k pb).2.db.db = pb.db.db := by
  induction k generalizing pb with
  | zero => simp [nextAll, sizeAfter]
  | succ k ih =>
    cases hit : pb.db.it.tail with
    | nil =>
      simp [nextAll, nextToScan, RocksDBIO.nextToScan, RocksDBIO.current, scanned, hit, sizeAfter]
    | cons e es =>
      have hnext : pb.nextToScan = (some e.2, ⟨{ pb.db with it := e :: es }, keyOf e.1 + 1⟩) := by
        simp [nextToScan, RocksDBIO.nextToScan, RocksDBIO.current, scanned, hit]
      obtain ⟨h1, h2, h3⟩ := ih ⟨{ pb.db with it := e :: es }, keyOf e.1 + 1⟩
      simp only [nextAll, hnext]
      refine ⟨?_, ?_, h3⟩
      · simp [h1]
      · rw [h2, List.take_succ_cons, sizeAfter_cons]
        rfl

theorem scan_spec (k : Nat) (pb : PersistentBuffer) :
    (scan k pb).1 = (pb.entries.take (k + 1)).map Prod.snd ∧
      (scan k pb).2.size = sizeAfter pb.size (pb.entries.take (k + 1)) ∧
      (scan k pb).2.db.db = pb.db.db := by
  cases he : pb.entries with
  | nil =>
    simp [scan, startToScan, RocksDBIO.startToScan, RocksDBIO.current, scanned, he, sizeAfter]
  | cons e es =>
    have hstart : pb.startToScan = (some e.2, ⟨{ pb.db with it := e :: es }, keyOf e.1 + 1⟩) := by
      simp [startToScan, RocksDBIO.startToScan, RocksDBIO.current, scanned, he]
    obtain ⟨h1, h2, h3⟩ := nextAll_spec k ⟨{ pb.db with it := e :: es }, keyOf e.1 + 1⟩
    simp only [scan, hstart]
    refine ⟨?_, ?_, h3⟩
    · simp [h1]
    · rw [h2, List.take_succ_cons, sizeAfter_cons]
      rfl

theorem startToScan_fst (pb : PersistentBuffer) :
    pb.startToScan.1 = pb.entries.head?.map Prod.snd := by
  cases he : pb.entries <;>
    simp [startToScan, RocksDBIO.startToScan, RocksDBIO.current, scanned, he]

theorem sizeAfter_indexed {size : UInt32} {as : List Bytes} (hlen : as.length ≤ 2 ^ 32)
    (hsize : as = [] → size = 0) : sizeAfter size (indexed 0 as) = UInt32.ofNat as.length := by
  rcases List.eq_nil_or_concat as with rfl | ⟨init, a, rfl⟩
  · simpa [sizeAfter, indexed] using hsize rfl
  · simp only [List.concat_eq_append, List.length_append, List.length_singleton] at hlen
    have hkey : keyOf (leBytes 4 init.length) = UInt32.ofNat init.length := by
      have h : leBytes 4 init.length = keyBytes (UInt32.ofNat init.length) := by
        rw [keyBytes, UInt32.toNat_ofNat', Nat.mod_eq_of_lt (by omega)]
      rw [h, keyOf_keyBytes]
    simp [sizeAfter, indexed_append, indexed, hkey, UInt32.ofNat_add]

/-- After `as` is logged and the buffer restarted, a scan yields `as`, and no id handed
out afterwards is one of a stored record. The counter wraps after `2 ^ 32` records. -/
def Faithful (as : List Bytes) : Prop :=
  let logged := (new .openNew).putAll as
  let scanned := logged.2.restart.scanAll
  scanned.1 = as ∧
    ∀ bs : List Bytes, as.length + bs.length ≤ 2 ^ 32 →
      ∀ id ∈ (scanned.2.putAll bs).1, id ∉ logged.1

theorem scanAll_fst (pb : PersistentBuffer) : pb.scanAll.1 = pb.entries.map Prod.snd := by
  rw [scanAll, (scan_spec _ pb).1, List.take_of_length_le (Nat.le_succ _)]

@[simp] theorem scanAll_size (pb : PersistentBuffer) :
    pb.scanAll.2.size = sizeAfter pb.size pb.entries := by
  rw [scanAll, (scan_spec _ pb).2.1, List.take_of_length_le (Nat.le_succ _)]

theorem faithful_of_length_le {as : List Bytes} (h : as.length ≤ 256) : Faithful as := by
  have hentries : ((new .openNew).putAll as).2.restart.entries = indexed 0 as :=
    putAll_entries (new .openNew) [] as rfl rfl (by simpa using h)
  have hsize : ((new .openNew).putAll as).2.restart.scanAll.2.size =
      UInt32.ofNat as.length := by
    rw [scanAll_size, hentries]
    exact sizeAfter_indexed (by omega) fun _ => rfl
  refine ⟨?_, ?_⟩
  · rw [scanAll_fst, hentries, indexed_map_snd]
  · intro bs hbs id hid hold
    rw [(putAll_ids _ hsize bs).1] at hid
    rw [(putAll_ids (new .openNew) (k := 0) rfl as).1] at hold
    obtain ⟨i, hi, rfl⟩ := List.mem_map.mp hid
    obtain ⟨j, hj, hij⟩ := List.mem_map.mp hold
    rw [List.mem_range'_1] at hi hj
    have heq := congrArg UInt32.toNat hij
    rw [UInt32.toNat_ofNat', UInt32.toNat_ofNat', Nat.mod_eq_of_lt (by omega),
      Nat.mod_eq_of_lt (by omega)] at heq
    omega

theorem leBytes_lt_of_sorted {es : List (Bytes × Bytes)} {as : List Bytes}
    (hval : es.map Prod.snd = as) (hnodup : as.Nodup) (hperm : es.Perm (indexed 0 as))
    (hsorted : es.Pairwise fun a b => a.1 < b.1) {i j : Nat} (hij : i < j)
    (hj : j < as.length) : leBytes 4 i < leBytes 4 j := by
  have hlen : es.length = as.length := by rw [← hval, List.length_map]
  -- the values are distinct, so the entry at position `i` is the record numbered `i`
  have hkey : ∀ i (hi : i < es.length), es[i].1 = leBytes 4 i := by
    intro i hi
    have hi' : i < as.length := hlen ▸ hi
    obtain ⟨n, hn, hen⟩ := mem_indexed.mp (hperm.mem_iff.mp (List.getElem_mem hi))
    have hsnd : as[n] = as[i] := by
      simp only [← hval, List.getElem_map, hen]
    have hni : n = i := hnodup.getElem_inj_iff.mp hsnd
    rw [hen, Nat.zero_add]
    exact congrArg (leBytes 4) hni
  rw [← hkey i (by omega), ← hkey j (by omega)]
  exact List.pairwise_iff_getElem.mp hsorted i j (by omega) (by omega) hij

theorem not_faithful_of_lt {as : List Bytes} (hnodup : as.Nodup) (hlen : as.length ≤ 2 ^ 32)
    (h : 256 < as.length) : ¬ Faithful as := by
  intro hf
  have hval := hf.1
  rw [scanAll_fst] at hval
  have hperm : ((new .openNew).putAll as).2.restart.entries.Perm (indexed 0 as) :=
    putAll_entries_perm (new .openNew) (k := 0) rfl (by omega)
      (by simp [new, entries, RocksDBIO.openNew])
  have hsorted := ((new .openNew).putAll as).2.restart.db.db.sorted
  have hlt := leBytes_lt_of_sorted hval hnodup hperm hsorted (show 1 < 256 by decide) h
  exact absurd hlt (by decide)

/-- A log of at most 256 records is faithful; a longer one of distinct records is not. -/
theorem wal_faithful_iff (as : List Bytes) (hlen : as.length < 2 ^ 31) :
    (as.length ≤ 256 → Faithful as) ∧ (as.Nodup → (Faithful as ↔ as.length ≤ 256)) := by
  refine ⟨faithful_of_length_le, fun hnodup => ⟨fun hf => ?_, faithful_of_length_le⟩⟩
  by_contra hgt
  exact not_faithful_of_lt hnodup (by omega) (by omega) hf

theorem wal_faithful_two : Faithful [[1], [2]] :=
  (wal_faithful_iff [[1], [2]] (by decide)).1 (by decide)

theorem wal_unfaithful_257 : ¬ Faithful ((List.range 257).map (leBytes 4)) := by
  apply not_faithful_of_lt
  · refine (List.nodup_range).map_on ?_
    intro x hx y hy hxy
    rw [List.mem_range] at hx hy
    exact (leBytes_inj (by omega) (by omega)).mp hxy
  · simp
  · simp

inductive Call
  | put (assignment : Bytes)
  | scan (k : Nat)
  | clear

def step (pb : PersistentBuffer) : Call → PersistentBuffer
  | .put a => (pb.putAssignment a).2
  | .scan k => (pb.scan k).2
  | .clear => pb.clearPreviousRecord

def Admits (N : Nat) (pb : PersistentBuffer) : Call → Prop
  | .put _ => pb.entries.length < N
  | .scan k => pb.entries.length ≤ k + 1
  | .clear => True

def Clears (pb : PersistentBuffer) : Prop := pb.clearPreviousRecord.startToScan.1 = none

def Numbered (N : Nat) (pb : PersistentBuffer) : Prop :=
  ∃ as : List Bytes, as.length ≤ N ∧ pb.entries = indexed 0 as ∧ pb.size = UInt32.ofNat as.length

theorem clears_iff (pb : PersistentBuffer) :
    Clears pb ↔ ∀ e ∈ pb.entries, leBytes 4 0 ≤ e.1 ∧ e.1 < keyBytes pb.size := by
  rw [Clears, startToScan_fst, Option.map_eq_none_iff, List.head?_eq_none_iff]
  exact OrderedMap.eraseRange_entries_eq_nil

theorem Numbered.clears {N : Nat} (hN : N ≤ 255) {pb : PersistentBuffer} (h : Numbered N pb) :
    Clears pb := by
  obtain ⟨as, hlen, hentries, hsize⟩ := h
  rw [clears_iff, hentries, hsize, keyBytes, UInt32.toNat_ofNat',
    Nat.mod_eq_of_lt (show as.length < 2 ^ 32 by omega)]
  intro e he
  obtain ⟨i, hi, rfl⟩ := mem_indexed.mp he
  exact ⟨leBytes_zero_le 4 _, (leBytes_lt_iff_of_lt (by omega) (by omega)).mpr (by omega)⟩

theorem numbered_step {N : Nat} (hN : N ≤ 255) (pb : PersistentBuffer) (c : Call)
    (hc : Admits N pb c) (h : Numbered N pb) : Numbered N (pb.step c) := by
  have hclears := h.clears hN
  obtain ⟨as, hlen, hentries, hsize⟩ := h
  cases c with
  | put a =>
    have hlt : as.length < N := by
      have := hc
      rwa [Admits, hentries, indexed_length] at this
    refine ⟨as ++ [a], by simp; omega, ?_, ?_⟩
    · exact putAll_entries pb as [a] hsize hentries (by simp; omega)
    · change pb.size + 1 = _
      rw [hsize, List.length_append, UInt32.ofNat_add]
      rfl
  | scan k =>
    obtain ⟨-, h2, h3⟩ := scan_spec k pb
    have hall : pb.entries.take (k + 1) = pb.entries := List.take_of_length_le hc
    refine ⟨as, hlen, ?_, ?_⟩
    · change (scan k pb).2.db.db.entries = _
      rw [h3]
      exact hentries
    · change (scan k pb).2.size = _
      rw [h2, hall, hentries]
      refine sizeAfter_indexed (by omega) fun hnil => ?_
      simpa [hnil] using hsize
  | clear =>
    refine ⟨[], Nat.zero_le _, ?_, rfl⟩
    rw [clears_iff] at hclears
    exact OrderedMap.eraseRange_entries_eq_nil.mpr hclears

@[simp] theorem run_puts (pb : PersistentBuffer) (as : List Bytes) :
    run step pb (as.map .put) = (pb.putAll as).2 := by
  induction as generalizing pb with
  | nil => rfl
  | cons a as ih => exact ih _

theorem along_puts {N : Nat} (pb : PersistentBuffer) (old as : List Bytes)
    (hsize : pb.size = UInt32.ofNat old.length) (hold : pb.entries = indexed 0 old)
    (hlen : old.length + as.length ≤ 256) (hN : old.length + as.length ≤ N) :
    Along step (Admits N) pb (as.map .put) := by
  induction as generalizing pb old with
  | nil => trivial
  | cons a as ih =>
    simp only [List.length_cons] at hlen hN
    refine ⟨?_, ih _ (old ++ [a]) ?_ ?_ (by simp; omega) (by simp; omega)⟩
    · rw [Admits, hold, indexed_length]
      omega
    · change pb.size + 1 = _
      rw [hsize, List.length_append, UInt32.ofNat_add]
      rfl
    · exact putAll_entries pb old [a] hsize hold (by simp; omega)

theorem not_clears_of_length {as : List Bytes} (h : as.length = 256) :
    ¬ Clears (run step (new .openNew) (as.map .put)) := by
  have hentries := putAll_entries (new .openNew) [] as rfl rfl (by rw [h]; decide)
  have hsize := (putAll_ids (new .openNew) (k := 0) rfl as).2
  rw [clears_iff, run_puts, hsize, h]
  intro hall
  have hmem : (leBytes 4 1, as[1]) ∈ ((new .openNew).putAll as).2.entries := by
    rw [hentries]
    exact mem_indexed.mpr ⟨1, by rw [List.nil_append, h]; decide, rfl⟩
  have hlt : leBytes 4 1 < keyBytes (UInt32.ofNat (0 + 256)) := (hall _ hmem).2
  exact absurd hlt (by decide)

def RangeExact (io : RocksDBIO) (start stop : UInt32) : Prop :=
  ∀ (key : UInt32) (value : Bytes), (keyBytes key, value) ∈ (io.deleteRange start stop).db.entries ↔
    (keyBytes key, value) ∈ io.db.entries ∧ ¬(start ≤ key ∧ key < stop)

def KeysBelow (N : Nat) (io : RocksDBIO) : Prop :=
  ∀ e ∈ io.db.entries, ∃ key : UInt32, key.toNat < N ∧ e.1 = keyBytes key

theorem rangeExact_of_keysBelow {io : RocksDBIO} (hio : KeysBelow 256 io) {start stop : UInt32}
    (hle : start ≤ stop) (hstop : stop.toNat < 256) : RangeExact io start stop := by
  intro key value
  unfold RocksDBIO.deleteRange
  rw [OrderedMap.mem_eraseRange]
  refine and_congr_right fun hmem => not_congr ?_
  obtain ⟨k, hk, hkey⟩ := hio _ hmem
  have hkk : key = k := keyBytes_inj.mp hkey
  subst hkk
  have hstart : start.toNat < 256 := lt_of_le_of_lt (UInt32.le_iff_toNat_le.mp hle) hstop
  rw [keyBytes, keyBytes, keyBytes, leBytes_le_iff_of_lt hstart hk,
    leBytes_lt_iff_of_lt hk hstop, UInt32.le_iff_toNat_le, UInt32.lt_iff_toNat_lt]

def single : RocksDBIO := RocksDBIO.openNew.put 1 []

theorem not_rangeExact_256 : ¬ RangeExact single 0 256 := by
  intro h
  have hnot : ((keyBytes 1, []) : Bytes × Bytes) ∉ (single.deleteRange 0 256).db.entries :=
    fun hmem => ((h 1 []).mp hmem).2 (by decide)
  exact hnot (by decide)

/-- Logs of up to `N` records are cleared by `clearPreviousRecord`, in every state reached,
exactly for `N ≤ 255`; ranges of keys below `N` are deleted exactly for `N ≤ 256`. -/
theorem wal_clears_iff (N : Nat) (hN : N < 2 ^ 31) :
    ((∀ calls, Along step (Admits N) (new .openNew) calls →
        Throughout step Clears (new .openNew) calls) ↔ N ≤ 255) ∧
    ((∀ io start stop, KeysBelow N io → start ≤ stop → stop.toNat < N →
        RangeExact io start stop) ↔ N ≤ 256) := by
  refine ⟨⟨fun h => ?_, fun hle calls hadm => ?_⟩,
    ⟨fun h => ?_, fun hle io start stop hio hs hlt => ?_⟩⟩
  · by_contra hgt
    have hlen : (List.replicate 256 ([] : Bytes)).length = 256 := List.length_replicate
    have hadm := along_puts (N := N) (new .openNew) [] (List.replicate 256 []) rfl rfl
      (by rw [hlen]; decide) (by rw [hlen, List.length_nil]; omega)
    exact not_clears_of_length hlen (h _ hadm).last
  · refine (hadm.throughout (numbered_step hle) ?_).mono fun pb hpb => hpb.clears hle
    exact ⟨[], Nat.zero_le _, rfl, rfl⟩
  · by_contra hgt
    have hstop : (256 : UInt32).toNat = 256 := rfl
    refine not_rangeExact_256 (h single 0 256 (fun e he => ?_) (by decide) (by omega))
    have hone : (1 : UInt32).toNat = 1 := rfl
    exact ⟨1, by omega, congrArg Prod.fst (List.mem_singleton.mp he)⟩
  · refine rangeExact_of_keysBelow (fun e he => ?_) hs (by omega)
    obtain ⟨key, hkey, heq⟩ := hio e he
    exact ⟨key, by omega, heq⟩

theorem wal_clears_small :
    Throughout step Clears (new .openNew) [.put [1], .put [2], .scan 1, .clear, .put [3]] := by
  refine (wal_clears_iff 255 (by decide)).1.mpr (le_refl _) _ ⟨?_, ?_, ?_, trivial, ?_, trivial⟩
  all_goals
    simp only [Admits]
    decide

theorem wal_not_cleared_256 :
    ¬ Clears (run step (new .openNew) ((List.replicate 256 []).map .put)) ∧
      ¬ RangeExact single 0 256 :=
  ⟨not_clears_of_length List.length_replicate, not_rangeExact_256⟩

end PersistentBuffer

end Sptag.SPANN
