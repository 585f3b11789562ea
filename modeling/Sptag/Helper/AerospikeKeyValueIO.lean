import Sptag.Common
import Sptag.Lib.Bytes
import Sptag.Lib.Client

/-! `AerospikeKeyValueIO.cpp`: `Put` and `Merge` as programs of server calls. Records are
named by their integer keys and hold one bin of bytes. -/

namespace Sptag.Helper

open Sptag.Lib

structure AerospikeKeyValueIO where
  connected : Bool

namespace AerospikeKeyValueIO

inductive Status
  | ok
  | recordNotFound
  | other
  deriving DecidableEq

inductive Request
  /-- `aerospike_key_operate` with one append. -/
  | append (key : UInt32) (value : Bytes)
  /-- `aerospike_key_put`, which creates or replaces the record. -/
  | put (key : UInt32) (value : Bytes)

abbrev Client (A : Type) := Prog Request (fun _ => Status) A

def putRaw (key : UInt32) (value : Bytes) : Client ErrorCode :=
  .ask (.put key value) fun status => .ret (if status = .ok then .success else .fail)

def put (io : AerospikeKeyValueIO) (key : UInt32) (value : Bytes) : Client ErrorCode :=
  if !io.connected then .ret .fail else putRaw key value

def merge (io : AerospikeKeyValueIO) (key : UInt32) (value : Bytes) : Client ErrorCode :=
  if !io.connected then .ret .fail
  else if value = [] then .ret .success
  else .ask (.append key value) fun
    | .ok => .ret .success
    | .recordNotFound => io.put key value
    | .other => .ret .fail

def serve (data : UInt32 → Option Bytes) : Request → Status × (UInt32 → Option Bytes)
  | .append key value =>
    match data key with
    | none => (.recordNotFound, data)
    | some old => (.ok, Function.update data key (some (old ++ value)))
  | .put key value => (.ok, Function.update data key (some value))

end AerospikeKeyValueIO

end Sptag.Helper
