import Sptag.SPANN.TiKVIO.Regions

/-! `StartToScan` and `NextToScan` of `TiKVIO`: one `RawScan` of at most 4096 pairs, from the
bare prefix on. -/

namespace Sptag.SPANN.TiKVIO

open Lib

structure ScanState where
  scanResults : List (Bytes × Bytes)
  scanIndex : Nat

/-- A pair handed out, with the stored pair it was made from. `key` is `none` where the
caller's variable is left alone. -/
structure Scanned where
  stored : Bytes × Bytes
  key : Option UInt32
  value : Bytes
  deriving DecidableEq

def stripPrefix (io : TiKVIO) (prefixedKey : Bytes) : Bytes :=
  if io.keyPrefix.length + 1 < prefixedKey.length then prefixedKey.drop (io.keyPrefix.length + 1)
  else []

def scannedKey (rawKey : Bytes) : Option UInt32 :=
  if 4 ≤ rawKey.length then some (keyOf rawKey) else none

def handOut (io : TiKVIO) (e : Bytes × Bytes) : Scanned :=
  ⟨e, scannedKey (io.stripPrefix e.1), e.2⟩

def RegionMap.within (c : RegionMap) (startKey endKey : Bytes) : List (Bytes × Bytes) :=
  c.map.entries.filter fun e => startKey ≤ e.1 ∧ e.1 < endKey ∧ c.Together startKey e.1

def RegionMap.rawScan (c : RegionMap) (startKey endKey : Bytes) (limit : Nat) :
    List (Bytes × Bytes) :=
  (c.within startKey endKey).take limit

def scanEnd (io : TiKVIO) : Bytes := io.keyPrefix ++ [0xff]

def startToScan (io : TiKVIO) (c : RegionMap) (st : ScanState) : Option Scanned × ScanState :=
  match c.rawScan io.keyPrefix io.scanEnd 4096 with
  | [] => (none, st)
  | e :: kvs => (some (io.handOut e), ⟨e :: kvs, 1⟩)

def nextToScan (io : TiKVIO) (st : ScanState) : Option Scanned × ScanState :=
  match st.scanResults[st.scanIndex]? with
  | none => (none, st)
  | some e => (some (io.handOut e), { st with scanIndex := st.scanIndex + 1 })

theorem nextToScan_eq_some {io : TiKVIO} {st st' : ScanState} {y : Scanned}
    (h : io.nextToScan st = (some y, st')) :
    ∃ hlt : st.scanIndex < st.scanResults.length, y = io.handOut st.scanResults[st.scanIndex] ∧
      st' = { st with scanIndex := st.scanIndex + 1 } := by
  unfold nextToScan at h
  split at h
  · cases h
  · rename_i e he
    obtain ⟨hlt, rfl⟩ := List.getElem?_eq_some_iff.mp he
    cases h
    exact ⟨hlt, rfl, rfl⟩

def scanOn (io : TiKVIO) (st : ScanState) : List Scanned :=
  match _h : io.nextToScan st with
  | (none, _) => []
  | (some y, st') => y :: scanOn io st'
termination_by st.scanResults.length - st.scanIndex
decreasing_by
  obtain ⟨hlt, -, rfl⟩ := nextToScan_eq_some _h
  dsimp only
  omega

def scan (io : TiKVIO) (c : RegionMap) (st : ScanState) : List Scanned :=
  match io.startToScan c st with
  | (none, _) => []
  | (some y, st') => y :: io.scanOn st'

def owns (io : TiKVIO) (k : Bytes) : Bool :=
  k = io.makePrefixedKey (keyOf (k.drop (io.keyPrefix.length + 1)))

structure Enumerates (io : TiKVIO) (c : RegionMap) (st : ScanState) : Prop where
  once : ((io.scan c st).map Scanned.stored).Nodup
  all : ∀ key value, (io.makePrefixedKey key, value) ∈ c.map.entries →
    ∃ y ∈ io.scan c st, y.stored = (io.makePrefixedKey key, value)
  own : ∀ y ∈ io.scan c st, ∃ key value, (io.makePrefixedKey key, value) ∈ c.map.entries ∧
    y = ⟨(io.makePrefixedKey key, value), some key, value⟩

/-- The index has at most 4096 keys, all in the region of the bare prefix, and none of the
first 4096 keys there between the ends of the scan belongs to another index. -/
structure Scannable (io : TiKVIO) (c : RegionMap) : Prop where
  few : (c.map.entries.filter fun e => io.owns e.1).length ≤ 4096
  region : ∀ e ∈ c.map.entries, io.owns e.1 = true → c.Together io.keyPrefix e.1
  alone : ∀ e ∈ (c.within io.keyPrefix io.scanEnd).take 4096, io.owns e.1 = true

theorem scanOn_eq (io : TiKVIO) (st : ScanState) :
    io.scanOn st = (st.scanResults.drop st.scanIndex).map io.handOut := by
  fun_induction scanOn io st with
  | case1 st st' h =>
    unfold nextToScan at h
    split at h
    · rename_i hnone
      rw [List.drop_eq_nil_of_le (List.getElem?_eq_none_iff.mp hnone), List.map_nil]
    · cases h
  | case2 st y st' h ih =>
    obtain ⟨hlt, rfl, rfl⟩ := nextToScan_eq_some h
    rw [ih, List.drop_eq_getElem_cons hlt, List.map_cons]

theorem scan_eq (io : TiKVIO) (c : RegionMap) (st : ScanState) :
    io.scan c st = (c.rawScan io.keyPrefix io.scanEnd 4096).map io.handOut := by
  unfold scan startToScan
  cases c.rawScan io.keyPrefix io.scanEnd 4096 with
  | nil => rfl
  | cons e kvs =>
    dsimp only
    rw [scanOn_eq]
    rfl

@[simp] theorem drop_makePrefixedKey (io : TiKVIO) (key : UInt32) :
    (io.makePrefixedKey key).drop (io.keyPrefix.length + 1) = keyBytes key := by
  rw [makePrefixedKey, ← List.drop_drop, List.drop_left]
  rfl

theorem owns_iff {io : TiKVIO} {k : Bytes} : io.owns k = true ↔ ∃ key, k =
    io.makePrefixedKey key := by
  rw [owns, decide_eq_true_iff]
  constructor
  · exact fun h => ⟨_, h⟩
  · rintro ⟨key, rfl⟩
    rw [drop_makePrefixedKey, keyOf_keyBytes]

theorem handOut_makePrefixedKey (io : TiKVIO) (key : UInt32) (value : Bytes) :
    io.handOut (io.makePrefixedKey key, value) =
      ⟨(io.makePrefixedKey key, value), some key, value⟩ := by
  have hlen : (keyBytes key).length = 4 := leBytes_length 4 _
  have hstrip : io.stripPrefix (io.makePrefixedKey key) = keyBytes key := by
    rw [stripPrefix, if_pos, drop_makePrefixedKey]
    simp [makePrefixedKey, hlen]
  rw [handOut, hstrip, scannedKey, if_pos hlen.ge, keyOf_keyBytes]

theorem mem_within {io : TiKVIO} {c : RegionMap} {e : Bytes × Bytes} (he : e ∈ c.map.entries)
    (howns : io.owns e.1 = true) (hregion : c.Together io.keyPrefix e.1) :
    e ∈ c.within io.keyPrefix io.scanEnd := by
  obtain ⟨key, hkey⟩ := owns_iff.mp howns
  rw [RegionMap.within, List.mem_filter, decide_eq_true_iff]
  refine ⟨he, ?_, ?_, hregion⟩
  · have happend := append_lt_append_iff io.keyPrefix (0x5f :: keyBytes key) []
    rw [List.append_nil] at happend
    rw [hkey, makePrefixedKey]
    exact not_lt.mp (mt happend.mp (List.not_lt_nil _))
  · rw [hkey, makePrefixedKey, scanEnd, append_lt_append_iff, List.cons_lt_cons_iff]
    exact Or.inl (by decide)

theorem entries_nodup (c : RegionMap) : c.map.entries.Nodup :=
  c.map.sorted.imp fun h heq => absurd (heq ▸ h) (lt_irrefl _)

theorem rawScan_nodup (c : RegionMap) (startKey endKey : Bytes) (limit : Nat) :
    (c.rawScan startKey endKey limit).Nodup :=
  ((entries_nodup c).filter _).sublist (List.take_sublist _ _)

theorem stored_scan (io : TiKVIO) (c : RegionMap) (st : ScanState) :
    (io.scan c st).map Scanned.stored = c.rawScan io.keyPrefix io.scanEnd 4096 := by
  rw [scan_eq, List.map_map]
  exact List.map_id _

theorem mem_own {io : TiKVIO} {c : RegionMap} {e : Bytes × Bytes} :
    e ∈ c.map.entries.filter (fun e => io.owns e.1) ↔
      ∃ key value, e = (io.makePrefixedKey key, value) ∧ e ∈ c.map.entries := by
  rw [List.mem_filter, owns_iff]
  constructor
  · rintro ⟨he, key, hkey⟩
    exact ⟨key, e.2, Prod.ext hkey rfl, he⟩
  · rintro ⟨key, value, rfl, he⟩
    exact ⟨he, key, rfl⟩

/-- The keys of the prefix are all scanned, if those of a region with at most 4096 of them
are the only ones among the first. -/
theorem Scannable.own_mem {io : TiKVIO} {c : RegionMap} (h : Scannable io c) {e : Bytes × Bytes}
    (he : e ∈ c.map.entries.filter fun e => io.owns e.1) :
    e ∈ c.rawScan io.keyPrefix io.scanEnd 4096 := by
  have hwithin : ∀ x ∈ c.map.entries.filter (fun e => io.owns e.1),
      x ∈ c.within io.keyPrefix io.scanEnd := by
    intro x hx
    obtain ⟨hmem, howns⟩ := List.mem_filter.mp hx
    exact mem_within hmem howns (h.region x hmem howns)
  rcases le_or_gt (c.within io.keyPrefix io.scanEnd).length 4096 with hle | hgt
  · rw [RegionMap.rawScan, List.take_of_length_le hle]
    exact hwithin e he
  · -- the 4096 keys scanned are keys of the prefix, which has no more
    have hsub : c.rawScan io.keyPrefix io.scanEnd 4096 ⊆
        c.map.entries.filter fun e => io.owns e.1 := by
      intro x hx
      exact List.mem_filter.mpr ⟨(List.mem_filter.mp (List.mem_of_mem_take hx)).1, h.alone x hx⟩
    have hperm := (rawScan_nodup c io.keyPrefix io.scanEnd 4096).subperm hsub
    have hlen : (c.rawScan io.keyPrefix io.scanEnd 4096).length = 4096 := by
      rw [RegionMap.rawScan, List.length_take]
      omega
    exact (hperm.perm_of_length_le (h.few.trans hlen.ge)).mem_iff.mpr he

/-- One scan enumerates an index exactly when it fits into one request and one region, apart
from the keys of the others. -/
theorem scan_enumerates_iff (io : TiKVIO) (c : RegionMap) (st : ScanState) :
    Enumerates io c st ↔ Scannable io c := by
  constructor
  · intro h
    have hown : (c.map.entries.filter fun e => io.owns e.1) ⊆
        c.rawScan io.keyPrefix io.scanEnd 4096 := by
      intro e he
      obtain ⟨key, value, rfl, hmem⟩ := mem_own.mp he
      obtain ⟨y, hy, heq⟩ := h.all key value hmem
      rw [← stored_scan io c st, ← heq]
      exact List.mem_map_of_mem hy
    constructor
    · have hperm := ((entries_nodup c).filter _).subperm hown
      exact hperm.length_le.trans (List.length_take_le _ _)
    · intro e he howns
      have hscan := hown (List.mem_filter.mpr ⟨he, howns⟩)
      exact (decide_eq_true_iff.mp (List.mem_filter.mp (List.mem_of_mem_take hscan)).2).2.2
    · intro e he
      rw [← RegionMap.rawScan, ← stored_scan io c st] at he
      obtain ⟨y, hy, rfl⟩ := List.mem_map.mp he
      obtain ⟨key, value, -, rfl⟩ := h.own y hy
      exact owns_iff.mpr ⟨key, rfl⟩
  · intro h
    constructor
    · rw [stored_scan]
      exact rawScan_nodup ..
    · intro key value hmem
      refine ⟨io.handOut (io.makePrefixedKey key, value), ?_, rfl⟩
      rw [scan_eq]
      exact List.mem_map_of_mem (h.own_mem (mem_own.mpr ⟨key, value, rfl, hmem⟩))
    · intro y hy
      rw [scan_eq] at hy
      obtain ⟨⟨k, value⟩, he, rfl⟩ := List.mem_map.mp hy
      obtain ⟨key, rfl⟩ := owns_iff.mp (h.alone _ he)
      exact ⟨key, value, (List.mem_filter.mp (List.mem_of_mem_take he)).1,
        handOut_makePrefixedKey io key value⟩

theorem scan_not_enumerates :
    ¬ Enumerates ⟨[0x61]⟩ (holding ((⟨[0x61, 0x62]⟩ : TiKVIO).makePrefixedKey 1)) ⟨[], 0⟩ := by
  intro h
  have hscan : (⟨[0x61]⟩ : TiKVIO).scan (holding ((⟨[0x61, 0x62]⟩ : TiKVIO).makePrefixedKey 1))
      ⟨[], 0⟩ = [⟨([0x61, 0x62, 0x5f, 1, 0, 0, 0], [1]), some 0x15f, [1]⟩] := by
    rw [scan_eq]
    decide
  obtain ⟨key, value, hmem, -⟩ := h.own _ (hscan ▸ List.mem_singleton_self _)
  have heq := congrArg (List.length ∘ Prod.fst) (List.mem_singleton.mp hmem)
  simp [makePrefixedKey, keyBytes] at heq

end Sptag.SPANN.TiKVIO
