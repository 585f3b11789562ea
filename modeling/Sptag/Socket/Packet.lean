import Sptag.Lib.Bytes
import Sptag.Lib.Buffer
import Sptag.Socket.ConnectionManager
import Sptag.Socket.ResourceManager

/-! `PacketHeader` and `Packet` of `Packet.cpp`: the header in bytes, and the buffer that a
packet shares with its copies. -/

namespace Sptag.Socket

open Lib

abbrev PacketType := UInt8

abbrev PacketProcessStatus := UInt8

structure PacketHeader where
  packetType : PacketType
  processStatus : PacketProcessStatus
  bodyLength : UInt32
  connectionID : ConnectionID
  resourceID : ResourceID
  deriving DecidableEq

namespace PacketHeader

def c_bufferSize : Nat := 16

def undefined : PacketHeader := ⟨0, 0, 0, c_invalidConnectionID, c_invalidResourceID⟩

def writeBuffer (h : PacketHeader) : Bytes :=
  [h.packetType, h.processStatus] ++ leBytes 4 h.bodyLength.toNat ++
    leBytes 4 h.connectionID.toNat ++ leBytes 4 h.resourceID.toNat

def readU32 (bs : Bytes) (off : Nat) : UInt32 := UInt32.ofNat (leVal ((bs.drop off).take 4))

def readBuffer (bs : Bytes) : PacketHeader where
  packetType := bs.getD 0 0
  processStatus := bs.getD 1 0
  bodyLength := readU32 bs 2
  connectionID := readU32 bs 6
  resourceID := readU32 bs 10

theorem writeBuffer_length (h : PacketHeader) : h.writeBuffer.length = 14 := by
  simp [writeBuffer]

theorem ofNat_leVal (n : UInt32) : UInt32.ofNat (leVal (leBytes 4 n.toNat)) = n := by
  rw [leVal_leBytes_of_lt n.toNat_lt, UInt32.ofNat_toNat]

theorem readU32_eq {pre post : Bytes} {off : Nat} (hoff : pre.length = off) (n : UInt32) :
    readU32 (pre ++ (leBytes 4 n.toNat ++ post)) off = n := by
  rw [readU32, List.drop_left' hoff, List.take_left' (leBytes_length 4 _), ofNat_leVal]

theorem readBuffer_writeBuffer (h : PacketHeader) (padding : Bytes) :
    readBuffer (h.writeBuffer ++ padding) = h := by
  have hbody : readU32 (h.writeBuffer ++ padding) 2 = h.bodyLength := by
    rw [writeBuffer, List.append_assoc, List.append_assoc, List.append_assoc]
    exact readU32_eq rfl _
  have hconnection : readU32 (h.writeBuffer ++ padding) 6 = h.connectionID := by
    rw [writeBuffer, List.append_assoc, List.append_assoc]
    exact readU32_eq (by simp) _
  have hresource : readU32 (h.writeBuffer ++ padding) 10 = h.resourceID := by
    rw [writeBuffer, List.append_assoc]
    exact readU32_eq (by simp) _
  rw [readBuffer, hbody, hconnection, hresource]
  rfl

end PacketHeader

structure Packet where
  header : PacketHeader
  buffer : Option Bytes
  bufferCapacity : UInt32
  deriving DecidableEq

namespace Packet

/-- The new bytes are not set in the code; nothing reads them before they are. -/
def allocateBuffer (p : Packet) (bodyCapacity : UInt32) : Packet :=
  let bufferCapacity := UInt32.ofNat PacketHeader.c_bufferSize + bodyCapacity
  { p with
    buffer := some (List.replicate bufferCapacity.toNat 0)
    bufferCapacity := bufferCapacity }

def body (p : Packet) : Option Bytes :=
  match p.buffer with
  | none => none
  | some buffer =>
    if PacketHeader.c_bufferSize < p.bufferCapacity.toNat then
      some (buffer.drop PacketHeader.c_bufferSize)
    else none

def writeBody (p : Packet) (bytes : Bytes) : Packet :=
  { p with buffer := p.buffer.map (storeAt · PacketHeader.c_bufferSize bytes) }

def moved (p : Packet) : Packet := { p with buffer := none }

variable {p : Packet} {bodyCapacity : UInt32}

theorem bufferCapacity_toNat (p : Packet) (bodyCapacity : UInt32) :
    (p.allocateBuffer bodyCapacity).bufferCapacity.toNat = (16 + bodyCapacity.toNat) % 2 ^ 32 :=
  UInt32.toNat_add _ _

theorem bufferCapacity_of_lt (h : 16 + bodyCapacity.toNat < 2 ^ 32) :
    (p.allocateBuffer bodyCapacity).bufferCapacity.toNat = 16 + bodyCapacity.toNat := by
  rw [bufferCapacity_toNat, Nat.mod_eq_of_lt h]

theorem body_writeBody {bytes : Bytes} (hbytes : bytes.length = bodyCapacity.toNat)
    (hpos : 0 < bodyCapacity.toNat) (h : 16 + bodyCapacity.toNat < 2 ^ 32) :
    ((p.allocateBuffer bodyCapacity).writeBody bytes).body = some bytes := by
  have hcapacity := bufferCapacity_of_lt (p := p) h
  have hlt : PacketHeader.c_bufferSize < (p.allocateBuffer bodyCapacity).bufferCapacity.toNat := by
    rw [hcapacity]
    exact Nat.lt_add_of_pos_right hpos
  have hbuffer : ((p.allocateBuffer bodyCapacity).writeBody bytes).buffer =
      some (storeAt (List.replicate (16 + bodyCapacity.toNat) 0) 16 bytes) := by
    rw [← hcapacity]
    rfl
  rw [body, hbuffer]
  refine (if_pos hlt).trans (congrArg some ?_)
  rw [storeAt, hbytes, List.drop_replicate, Nat.sub_self, List.replicate_zero, List.append_nil]
  apply List.drop_left'
  rw [List.take_replicate, List.length_replicate, PacketHeader.c_bufferSize]
  exact Nat.min_eq_left (Nat.le_add_right _ _)

end Packet

end Sptag.Socket
