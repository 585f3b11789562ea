import Sptag.Common
import Sptag.Lib.Bytes
import Sptag.Lib.OrderedMap

/-! `ExtraRocksDBController.h`: the integer-keyed calls of `RocksDBIO`, over RocksDB
as a map ordered by bytewise comparison of its keys. -/

namespace Sptag.SPANN

open Sptag.Lib

/-- The `sizeof(SizeType)` bytes of a `SizeType` in memory; a `SizeType` is given by
its 32-bit pattern. -/
def keyBytes (key : UInt32) : Bytes := leBytes 4 key.toNat

def keyOf (k : Bytes) : UInt32 := UInt32.ofNat (leVal (k.take 4))

/-- `it` holds the entry the iterator stands on and those after it, as they were
when `NewIterator` took its snapshot. -/
structure RocksDBIO where
  db : OrderedMap Bytes Bytes
  it : List (Bytes × Bytes)

namespace RocksDBIO

def openNew : RocksDBIO := ⟨.empty, []⟩

def put (io : RocksDBIO) (key : UInt32) (value : Bytes) : RocksDBIO :=
  { io with db := io.db.insert (keyBytes key) value }

def current (io : RocksDBIO) : Option (UInt32 × Bytes) :=
  io.it.head?.map fun e => (keyOf e.1, e.2)

def startToScan (io : RocksDBIO) : Option (UInt32 × Bytes) × RocksDBIO :=
  let io := { io with it := io.db.entries }
  (io.current, io)

def nextToScan (io : RocksDBIO) : Option (UInt32 × Bytes) × RocksDBIO :=
  let io := { io with it := io.it.tail }
  (io.current, io)

def deleteRange (io : RocksDBIO) (start stop : UInt32) : RocksDBIO :=
  { io with db := io.db.eraseRange (keyBytes start) (keyBytes stop) }

end RocksDBIO

theorem keyBytes_inj {a b : UInt32} : keyBytes a = keyBytes b ↔ a = b := by
  have ha : a.toNat < 256 ^ 4 := a.toNat_lt
  have hb : b.toNat < 256 ^ 4 := b.toNat_lt
  rw [keyBytes, keyBytes, leBytes_inj ha hb, UInt32.toNat_inj]

@[simp] theorem keyOf_keyBytes (key : UInt32) : keyOf (keyBytes key) = key := by
  have h : key.toNat < 256 ^ 4 := key.toNat_lt
  simp [keyOf, keyBytes, List.take_of_length_le, leVal_leBytes_of_lt h]

end Sptag.SPANN
