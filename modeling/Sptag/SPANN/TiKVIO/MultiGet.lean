import Sptag.Helper.DiskIO
import Sptag.SPANN.TiKVIO.Regions

/-! `MultiGet` of `TiKVIO`, of strings and of page buffers, and `Delete` over a cluster that
is a map. -/

namespace Sptag.SPANN.TiKVIO

open Sptag.Helper Sptag.Lib

def multiGet (io : TiKVIO) : List UInt32 → List Bytes → Client (Except ErrorCode (List Bytes))
  | [], values => .ret (.ok values)
  | key :: keys, values => (io.get key).bind fun
    | .error _ => .ret (.error .fail)
    | .ok val => multiGet io keys (values ++ [val])

/-- The value is copied to a buffer that nobody makes larger. -/
def multiGetBuffers (io : TiKVIO) :
    List UInt32 → List PageBuffer → Client (Except ErrorCode (List PageBuffer))
  | key :: keys, value :: values => (io.get key).bind fun
    | .error _ => .ret (.error .fail)
    | .ok val =>
      if val = [] then .ret (.error .fail)
      else (multiGetBuffers io keys values).bind fun rest =>
        .ret (rest.map (value.fill val :: ·))
  | _, values => .ret (.ok values)

def Cluster.delete (c : Cluster) (io : TiKVIO) (key : UInt32) : ErrorCode × Cluster :=
  (deleteAnswer c.fate,
    match c.fate with
    | .served _ => ⟨Function.update c.data (io.makePrefixedKey key) none, c.fates.tail⟩
    | _ => { c with fates := c.fates.tail })

theorem makePrefixedKey_inj {io : TiKVIO} {a b : UInt32} :
    io.makePrefixedKey a = io.makePrefixedKey b ↔ a = b := by
  rw [makePrefixedKey, makePrefixedKey, List.append_cancel_left_eq, List.cons.injEq]
  exact (and_iff_right rfl).trans keyBytes_inj

section Served

variable (io : TiKVIO) (data : Bytes → Option Bytes)

theorem put_served (key : UInt32) (value : Bytes) :
    (io.put key value).exec Cluster.serve ⟨data, []⟩ =
      (.success, ⟨Function.update data (io.makePrefixedKey key) (some value), []⟩) := by
  rw [put, putLoop_exec]
  rfl

variable {data}

theorem get_served {key : UInt32} {value : Bytes}
    (h : data (io.makePrefixedKey key) = some value) :
    (io.get key).exec Cluster.serve ⟨data, []⟩ = (.ok value, ⟨data, []⟩) := by
  rw [get, getLoop_exec]
  simp only [h]
  rfl

theorem merge_served {key : UInt32} {old value : Bytes} (hvalue : value ≠ [])
    (hold : data (io.makePrefixedKey key) = some old) :
    (io.merge key value).exec Cluster.serve ⟨data, []⟩ =
      (.success,
        ⟨Function.update data (io.makePrefixedKey key) (some (old ++ value)), []⟩) := by
  rw [merge, if_neg hvalue, Prog.exec_bind, get_served io hold]
  exact put_served io data key (old ++ value)

variable {A : Type} {as : List A} {key : A → UInt32} {v : A → Bytes}

theorem multiGet_served (values : List Bytes)
    (h : ∀ a ∈ as, data (io.makePrefixedKey (key a)) = some (v a)) :
    (io.multiGet (as.map key) values).exec Cluster.serve ⟨data, []⟩ =
      (.ok (values ++ as.map v), ⟨data, []⟩) := by
  induction as generalizing values with
  | nil =>
    rw [List.map_nil, List.map_nil, List.append_nil]
    rfl
  | cons a as ih =>
    obtain ⟨ha, has⟩ := List.forall_mem_cons.mp h
    rw [List.map_cons, multiGet, Prog.exec_bind, get_served io ha]
    change (multiGet io (as.map key) (values ++ [v a])).exec Cluster.serve ⟨data, []⟩ = _
    rw [ih _ has, List.append_assoc]
    rfl

theorem multiGetBuffers_served (value : A → PageBuffer)
    (h : ∀ a ∈ as, data (io.makePrefixedKey (key a)) = some (v a) ∧ v a ≠ []) :
    (io.multiGetBuffers (as.map key) (as.map value)).exec Cluster.serve ⟨data, []⟩ =
      (.ok (as.map fun a => (value a).fill (v a)), ⟨data, []⟩) := by
  induction as with
  | nil => rfl
  | cons a as ih =>
    obtain ⟨⟨ha, hne⟩, has⟩ := List.forall_mem_cons.mp h
    rw [List.map_cons, List.map_cons, multiGetBuffers, Prog.exec_bind, get_served io ha]
    simp only [if_neg hne]
    rw [Prog.exec_bind, ih has]
    rfl

end Served

end Sptag.SPANN.TiKVIO
