import Sptag.Lib.Bytes
import Sptag.Lib.Buffer

/-! The frames of `main.go`: requests as `handleConn` reads them, and responses as `writeStatus`
writes them. -/

namespace Sptag.TikvUds

open Lib

def magicReq : Nat := 0x53505447

def magicRes : Nat := 0x52535054

def opGet : Nat := 1

def opMultiGet : Nat := 2

def opPut : Nat := 3

def opDelete : Nat := 4

def opHealth : Nat := 5

abbrev Status := Int32

def statusOK : Status := 0

def statusNotFound : Status := 1

def statusTimeout : Status := 2

def statusError : Status := 3

inductive Op
  | health
  | get (keyBuf : Bytes)
  | multiGet (n : Nat) (keysRaw : Bytes)
  | put (keyBuf val : Bytes)
  | delete (keyBuf : Bytes)
  | unknown

structure Request where
  reqID : UInt64
  op : Op

def readOp (op : Nat) : Reader UInt8 Op :=
  if op = opHealth then pure .health
  else if op = opGet then .get <$> readFront 8
  else if op = opMultiGet then do
    let nBuf ← readFront 4
    guard (leVal nBuf ≤ 1000000)
    let keysRaw ← readFront (leVal nBuf * 8)
    pure (.multiGet (leVal nBuf) keysRaw)
  else if op = opPut then do
    let keyBuf ← readFront 8
    let vlenBuf ← readFront 4
    guard (leVal vlenBuf ≤ 512 <<< 20)
    let val ← readFront (leVal vlenBuf)
    pure (.put keyBuf val)
  else if op = opDelete then .delete <$> readFront 8
  else pure .unknown

def readRequest : Reader UInt8 Request := do
  let hdr ← readFront 24
  guard (leVal (hdr.take 4) = magicReq)
  let op ← readOp (leVal ((hdr.drop 4).take 2))
  pure ⟨UInt64.ofNat (leVal ((hdr.drop 8).take 8)), op⟩

def writeStatus (reqID : UInt64) (st : Status) (payload : Bytes) : List Bytes :=
  [leBytes 4 magicRes ++ leBytes 8 reqID.toNat ++ leBytes 4 st.toUInt32.toNat,
    leBytes 4 (UInt32.ofNat payload.length).toNat] ++
  if 0 < payload.length then [payload] else []

structure Frame where
  reqID : UInt64
  st : Status
  payload : Bytes
  sized : payload.length < 2 ^ 32

namespace Frame

def bytes (f : Frame) : Bytes :=
  leBytes 4 magicRes ++ leBytes 8 f.reqID.toNat ++ leBytes 4 f.st.toUInt32.toNat ++
    leBytes 4 f.payload.length ++ f.payload

@[simp] theorem bytes_length (f : Frame) : f.bytes.length = 20 + f.payload.length := by
  simp [bytes]
  omega

end Frame

theorem flatten_writeStatus (reqID : UInt64) (st : Status) (payload : Bytes) :
    (writeStatus reqID st payload).flatten =
      leBytes 4 magicRes ++ leBytes 8 reqID.toNat ++ leBytes 4 st.toUInt32.toNat ++
        leBytes 4 (UInt32.ofNat payload.length).toNat ++ payload := by
  rw [writeStatus]
  split
  · simp
  next h => simp [List.eq_nil_of_length_eq_zero (Nat.eq_zero_of_not_pos h)]

theorem flatten_writeStatus_eq (f : Frame) :
    (writeStatus f.reqID f.st f.payload).flatten = f.bytes := by
  rw [flatten_writeStatus, UInt32.toNat_ofNat_of_lt' f.sized]
  rfl

end Sptag.TikvUds
