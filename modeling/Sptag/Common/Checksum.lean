import Sptag.Lib.Bytes

/-! `inc/Core/Common/Checksum.h`: the exclusive or of a seed and all bytes. -/

namespace Sptag.COMMON

open Lib

abbrev ChecksumType := UInt8

structure Checksum where
  seed : UInt8
  skip : Bool

namespace Checksum

def appendChecksum (checksum : ChecksumType) (data : Bytes) : ChecksumType :=
  data.foldl (· ^^^ ·) checksum

def calcChecksum (c : Checksum) (data : Bytes) : ChecksumType := appendChecksum c.seed data

def validateChecksum (c : Checksum) (data : Bytes) (checksum : ChecksumType) : Bool :=
  c.skip || c.calcChecksum data == checksum

end Checksum

end Sptag.COMMON
