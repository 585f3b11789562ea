import Sptag.Helper.AerospikeKeyValueIO
import Sptag.Helper.DiskIO

/-! `Get`, `MultiGet` and `Delete` of `AerospikeKeyValueIO`. -/

namespace Sptag.Helper.AerospikeKeyValueIO

open Sptag.Lib

inductive Command
  | get (key : UInt32)
  | batchGet (keys : List UInt32)
  | remove (key : UInt32)

def Command.Reply : Command → Type
  | .get _ => Status × Option Bytes
  | .batchGet _ => Status × List (Status × Option Bytes)
  | .remove _ => Status

abbrev Commander (A : Type) := Prog Command Command.Reply A

def get (io : AerospikeKeyValueIO) (key : UInt32) : Commander (Except ErrorCode Bytes) :=
  if !io.connected then .ret (.error .fail)
  else .ask (.get key) fun
    | (.ok, some value) => .ret (.ok value)
    | _ => .ret (.error .fail)

def batchReadCallback : List (Status × Option Bytes) → Except ErrorCode (List Bytes)
  | [] => .ok []
  | (.ok, some value) :: results => (batchReadCallback results).map (value :: ·)
  | _ :: _ => .error .fail

def multiGet (io : AerospikeKeyValueIO) (keys : List UInt32) :
    Commander (Except ErrorCode (List Bytes)) :=
  if !io.connected then .ret (.error .fail)
  else if keys = [] then .ret (.ok [])
  else .ask (.batchGet keys) fun
    | (.ok, results) => .ret (batchReadCallback results)
    | _ => .ret (.error .fail)

def multiGetBuffers (io : AerospikeKeyValueIO) (keys : List UInt32) (values : List PageBuffer) :
    Commander (Except ErrorCode (List PageBuffer)) :=
  (io.multiGet keys).bind fun
    | .error e => .ret (.error e)
    | .ok results =>
      let values := values ++ List.replicate (results.length - values.length) ⟨0, 0, []⟩
      .ret (.ok (List.zipWith PageBuffer.copy values results ++ values.drop results.length))

def delete (io : AerospikeKeyValueIO) (key : UInt32) : Commander ErrorCode :=
  if !io.connected then .ret .fail
  else .ask (.remove key) fun
    | .ok => .ret .success
    | .recordNotFound => .ret .success
    | .other => .ret .fail

def record : Option Bytes → Status × Option Bytes
  | none => (.recordNotFound, none)
  | some value => (.ok, some value)

def obey (data : UInt32 → Option Bytes) : (q : Command) → q.Reply × (UInt32 → Option Bytes)
  | .get key => (record (data key), data)
  | .batchGet keys => ((Status.ok, keys.map fun key => record (data key)), data)
  | .remove key =>
    (match data key with
      | none => Status.recordNotFound
      | some _ => Status.ok, Function.update data key none)

theorem batchReadCallback_records {A : Type} {data : UInt32 → Option Bytes} {as : List A}
    {key : A → UInt32} {v : A → Bytes} (h : ∀ a ∈ as, data (key a) = some (v a)) :
    batchReadCallback ((as.map key).map fun key => record (data key)) = .ok (as.map v) := by
  induction as with
  | nil => rfl
  | cons a as ih =>
    obtain ⟨ha, has⟩ := List.forall_mem_cons.mp h
    rw [List.map_cons, List.map_cons, ha, record, batchReadCallback, ih has]
    rfl

section Served

variable {io : AerospikeKeyValueIO} (hio : io.connected = true) (data : UInt32 → Option Bytes)

include hio

theorem put_served (key : UInt32) (value : Bytes) :
    (io.put key value).exec serve data =
      (.success, Function.update data key (some value)) := by
  rw [put, hio]
  rfl

theorem delete_served (key : UInt32) :
    (io.delete key).exec obey data = (.success, Function.update data key none) := by
  rw [delete, hio]
  simp only [Bool.not_true, Bool.false_eq_true, if_false, Prog.exec, obey]
  cases data key <;> rfl

variable {data}

theorem merge_served {key : UInt32} {old value : Bytes} (hvalue : value ≠ [])
    (hold : data key = some old) :
    (io.merge key value).exec serve data =
      (.success, Function.update data key (some (old ++ value))) := by
  rw [merge, hio, if_neg hvalue]
  simp only [Bool.not_true, Bool.false_eq_true, if_false, Prog.exec, serve, hold]

theorem get_served {key : UInt32} {value : Bytes} (h : data key = some value) :
    (io.get key).exec obey data = (.ok value, data) := by
  rw [get, hio]
  simp only [Bool.not_true, Bool.false_eq_true, if_false, Prog.exec, obey, h, record]

variable {A : Type} {as : List A} {key : A → UInt32} {v : A → Bytes}

theorem multiGet_served (h : ∀ a ∈ as, data (key a) = some (v a)) :
    (io.multiGet (as.map key)).exec obey data = (.ok (as.map v), data) := by
  rw [multiGet, hio]
  simp only [Bool.not_true, Bool.false_eq_true, if_false]
  split
  · rename_i hnil
    rw [List.map_eq_nil_iff.mp hnil]
    rfl
  · simp only [Prog.exec, obey, batchReadCallback_records h]

theorem multiGetBuffers_served (value : A → PageBuffer)
    (h : ∀ a ∈ as, data (key a) = some (v a)) :
    (io.multiGetBuffers (as.map key) (as.map value)).exec obey data =
      (.ok (as.map fun a => (value a).copy (v a)), data) := by
  rw [multiGetBuffers, Prog.exec_bind, multiGet_served hio h]
  simp only [List.length_map, Nat.sub_self, List.replicate_zero, List.append_nil, Prog.exec,
    List.zipWith_map, List.zipWith_self]
  rw [List.drop_of_length_le (by rw [List.length_map]), List.append_nil]

end Served

end Sptag.Helper.AerospikeKeyValueIO
