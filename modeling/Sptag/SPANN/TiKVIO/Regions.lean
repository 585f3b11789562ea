import Sptag.SPANN.TiKVIO

/-! `Delete`, `DeleteRange` and the scan of `TiKVIO`, over a cluster that is one map in the
byte order of its keys, cut into regions. -/

namespace Sptag.SPANN.TiKVIO

open Lib

structure RegionMap where
  map : OrderedMap Bytes Bytes
  splits : List Bytes

def RegionMap.Together (c : RegionMap) (a b : Bytes) : Prop :=
  ∀ split ∈ c.splits, split ≤ a ↔ split ≤ b

instance (c : RegionMap) (a b : Bytes) : Decidable (c.Together a b) :=
  inferInstanceAs (Decidable (∀ split ∈ c.splits, split ≤ a ↔ split ≤ b))

namespace RegionMap

def remove (c : RegionMap) (p : Bytes → Prop) [DecidablePred p] : RegionMap :=
  { c with map := ⟨c.map.entries.filter fun e => ¬ p e.1, c.map.sorted.filter _⟩ }

def rawDelete (c : RegionMap) (key : Bytes) : RegionMap := c.remove (· = key)

def rawDeleteRange (c : RegionMap) (startKey endKey : Bytes) : RegionMap :=
  c.remove fun k => startKey ≤ k ∧ k < endKey ∧ c.Together startKey k

@[simp] theorem mem_remove {c : RegionMap} {p : Bytes → Prop} [DecidablePred p]
    {e : Bytes × Bytes} :
    e ∈ (c.remove p).map.entries ↔ e ∈ c.map.entries ∧ ¬ p e.1 := by
  simp [remove]

end RegionMap

/-- The answer to a delete, after which nobody asks the response for a region error. -/
def deleteAnswer : Attempt Unit → ErrorCode
  | .noStub => .fail
  | .grpcError => .fail
  | .regionError => .success
  | .refused => .fail
  | .served _ => .success

def delete (io : TiKVIO) (key : UInt32) (fate : Attempt Unit) (c : RegionMap) :
    ErrorCode × RegionMap :=
  (deleteAnswer fate,
    match fate with
    | .served _ => c.rawDelete (io.makePrefixedKey key)
    | _ => c)

def deleteRange (io : TiKVIO) (start stop : UInt32) (fate : Attempt Unit) (c : RegionMap) :
    ErrorCode × RegionMap :=
  (deleteAnswer fate,
    match fate with
    | .served _ => c.rawDeleteRange (io.makePrefixedKey start) (io.makePrefixedKey stop)
    | _ => c)

section Honest

variable (io : TiKVIO) (fate : Attempt Unit) (c : RegionMap)

def Honest (done : ErrorCode × RegionMap) (p : Bytes → Prop) : Prop :=
  done.1 = .success → ∀ e, e ∈ done.2.map.entries ↔ e ∈ c.map.entries ∧ ¬ p e.1

def InRange (start stop : UInt32) (k : Bytes) : Prop :=
  ∃ key, start ≤ key ∧ key < stop ∧ k = io.makePrefixedKey key

def reversed (key : UInt32) : Nat := beVal (keyBytes key)

/-- The stored keys of the integers are between the ends when these are read in reverse, in
the region of the first; no other stored key is between the encoded ends there. -/
structure RangeFits (start stop : UInt32) : Prop where
  inside : ∀ key, start ≤ key → key < stop →
    (∃ value, (io.makePrefixedKey key, value) ∈ c.map.entries) →
      reversed start ≤ reversed key ∧ reversed key < reversed stop ∧
        c.Together (io.makePrefixedKey start) (io.makePrefixedKey key)
  outside : ∀ e ∈ c.map.entries, io.makePrefixedKey start ≤ e.1 → e.1 < io.makePrefixedKey stop →
    c.Together (io.makePrefixedKey start) e.1 → InRange io start stop e.1

end Honest

theorem makePrefixedKey_lt_iff {io : TiKVIO} {a b : UInt32} :
    io.makePrefixedKey a < io.makePrefixedKey b ↔ reversed a < reversed b := by
  rw [makePrefixedKey, makePrefixedKey, append_lt_append_iff, List.cons_lt_cons_iff]
  simp only [lt_irrefl, true_and, false_or]
  exact lt_iff_beVal_lt (by simp [keyBytes])

theorem makePrefixedKey_le_iff {io : TiKVIO} {a b : UInt32} :
    io.makePrefixedKey a ≤ io.makePrefixedKey b ↔ reversed a ≤ reversed b := by
  rw [← not_lt, makePrefixedKey_lt_iff, not_lt]

/-- A deletion that reports success has removed nothing when the store answered with a
region error, and what was asked of the region otherwise. -/
theorem honest_delete_iff {io : TiKVIO} {key : UInt32} {fate : Attempt Unit} {c : RegionMap} :
    Honest c (io.delete key fate c) (· = io.makePrefixedKey key) ↔
      fate ≠ .regionError ∨ ∀ e ∈ c.map.entries, e.1 ≠ io.makePrefixedKey key := by
  cases fate with
  | noStub => simp [Honest, delete, deleteAnswer]
  | grpcError => simp [Honest, delete, deleteAnswer]
  | regionError => simp [Honest, delete, deleteAnswer]
  | refused => simp [Honest, delete, deleteAnswer]
  | served u => simp [Honest, delete, deleteAnswer, RegionMap.rawDelete, RegionMap.mem_remove]

theorem rangeFits_iff {io : TiKVIO} {start stop : UInt32} {c : RegionMap} :
    RangeFits io c start stop ↔ ∀ e ∈ c.map.entries,
      (io.makePrefixedKey start ≤ e.1 ∧ e.1 < io.makePrefixedKey stop ∧
        c.Together (io.makePrefixedKey start) e.1) ↔ InRange io start stop e.1 := by
  constructor
  · intro h e he
    constructor
    · exact fun ⟨hle, hlt, hregion⟩ => h.outside e he hle hlt hregion
    · rintro ⟨key, hstart, hstop, heq⟩
      obtain ⟨hle, hlt, hregion⟩ := h.inside key hstart hstop ⟨e.2, heq ▸ he⟩
      rw [heq]
      exact ⟨makePrefixedKey_le_iff.mpr hle, makePrefixedKey_lt_iff.mpr hlt, hregion⟩
  · intro h
    constructor
    · rintro key hstart hstop ⟨value, hmem⟩
      obtain ⟨hle, hlt, hregion⟩ := (h _ hmem).mpr ⟨key, hstart, hstop, rfl⟩
      exact ⟨makePrefixedKey_le_iff.mp hle, makePrefixedKey_lt_iff.mp hlt, hregion⟩
    · exact fun e he hle hlt hregion => (h e he).mp ⟨hle, hlt, hregion⟩

theorem honest_deleteRange_iff {io : TiKVIO} {start stop : UInt32} {fate : Attempt Unit}
    {c : RegionMap} :
    Honest c (io.deleteRange start stop fate c) (InRange io start stop) ↔
      match fate with
      | .regionError => ∀ e ∈ c.map.entries, ¬ InRange io start stop e.1
      | .served _ => RangeFits io c start stop
      | _ => True := by
  cases fate with
  | noStub => simp [Honest, deleteRange, deleteAnswer]
  | grpcError => simp [Honest, deleteRange, deleteAnswer]
  | regionError => simp [Honest, deleteRange, deleteAnswer]
  | refused => simp [Honest, deleteRange, deleteAnswer]
  | served u =>
    simp only [Honest, deleteRange, deleteAnswer, RegionMap.rawDeleteRange, RegionMap.mem_remove,
      true_imp_iff, and_congr_right_iff, not_iff_not]
    exact rangeFits_iff.symm

/-- `Delete` and `DeleteRange` report what they did, but for region errors, and but for
ranges that the byte order of the keys or the end of a region cuts differently. -/
theorem deletes_honest_iff (io : TiKVIO) (c : RegionMap) (fate : Attempt Unit)
    (key start stop : UInt32) :
    (Honest c (io.delete key fate c) (· = io.makePrefixedKey key) ↔
      fate ≠ .regionError ∨ ∀ e ∈ c.map.entries, e.1 ≠ io.makePrefixedKey key) ∧
    (Honest c (io.deleteRange start stop fate c) (InRange io start stop) ↔
      match fate with
      | .regionError => ∀ e ∈ c.map.entries, ¬ InRange io start stop e.1
      | .served _ => RangeFits io c start stop
      | _ => True) :=
  ⟨honest_delete_iff, honest_deleteRange_iff⟩

def unnamed : TiKVIO := ⟨[]⟩

def holding (k : Bytes) : RegionMap := ⟨⟨[(k, [1])], List.pairwise_singleton _ _⟩, []⟩

/-- A region error of `Delete` is reported as `Success`, and a served `DeleteRange` from 0 to
256 spares the key 1, whose first byte is above that of 256. -/
theorem deletes_not_honest :
    let c := holding (unnamed.makePrefixedKey 1)
    ¬ Honest c (unnamed.delete 1 .regionError c) (· = unnamed.makePrefixedKey 1) ∧
      ¬ Honest c (unnamed.deleteRange 0 256 (.served ()) c) (InRange unnamed 0 256) := by
  constructor
  · intro h
    exact ((h rfl _).mp List.mem_cons_self).2 rfl
  · intro h
    have hmem := (h rfl (unnamed.makePrefixedKey 1, [1])).mp (by decide)
    exact hmem.2 ⟨1, by decide, by decide, rfl⟩

end Sptag.SPANN.TiKVIO
