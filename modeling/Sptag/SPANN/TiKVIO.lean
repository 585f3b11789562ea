import Sptag.Common
import Sptag.Lib.Client
import Sptag.SPANN.RocksDBIO

/-! `ExtraTiKVController.h`: `Get`, `Put` and `Merge` of `TiKVIO` as programs of RPCs, over
a cluster that is a map from keys to bytes and whose RPCs may fail. -/

namespace Sptag.SPANN

open Sptag.Lib

structure TiKVIO where
  keyPrefix : Bytes

namespace TiKVIO

inductive Attempt (A : Type)
  /-- `GetStubForKey` finds no store to ask. -/
  | noStub
  | grpcError
  | regionError
  /-- The response carries an error. -/
  | refused
  | served (a : A)

inductive Rpc
  | rawGet (key : Bytes)
  | rawPut (key value : Bytes)

def Rpc.Reply : Rpc → Type
  | .rawGet _ => Attempt (Option Bytes)
  | .rawPut _ _ => Attempt Unit

abbrev Client (A : Type) := Prog Rpc Rpc.Reply A

def makePrefixedKey (io : TiKVIO) (key : UInt32) : Bytes :=
  io.keyPrefix ++ 0x5f :: keyBytes key

def getLoop (prefixedKey : Bytes) : Nat → Client (Except ErrorCode Bytes)
  | 0 => .ret (.error .fail)
  | n + 1 => .ask (.rawGet prefixedKey) fun
    | .noStub => .ret (.error .fail)
    | .grpcError => getLoop prefixedKey n
    | .regionError => getLoop prefixedKey n
    | .refused => .ret (.error .fail)
    | .served none => .ret (.error .fail)
    | .served (some value) => .ret (.ok value)

def get (io : TiKVIO) (key : UInt32) : Client (Except ErrorCode Bytes) :=
  getLoop (io.makePrefixedKey key) 3

def putLoop (prefixedKey value : Bytes) : Nat → Client ErrorCode
  | 0 => .ret .fail
  | n + 1 => .ask (.rawPut prefixedKey value) fun
    | .noStub => .ret .fail
    | .grpcError => putLoop prefixedKey value n
    | .regionError => putLoop prefixedKey value n
    | .refused => .ret .fail
    | .served _ => .ret .success

def put (io : TiKVIO) (key : UInt32) (value : Bytes) : Client ErrorCode :=
  putLoop (io.makePrefixedKey key) value 3

def merge (io : TiKVIO) (key : UInt32) (value : Bytes) : Client ErrorCode :=
  if value = [] then .ret .fail
  else (io.get key).bind fun
    | .error _ => io.put key value
    | .ok existingValue => io.put key (existingValue ++ value)

structure Cluster where
  data : Bytes → Option Bytes
  fates : List (Attempt Unit)

namespace Cluster

def fate (c : Cluster) : Attempt Unit := c.fates.headD (.served ())

def serve (c : Cluster) : (q : Rpc) → q.Reply × Cluster
  | .rawGet key =>
    (match c.fate with
      | .noStub => Attempt.noStub
      | .grpcError => Attempt.grpcError
      | .regionError => Attempt.regionError
      | .refused => Attempt.refused
      | .served _ => Attempt.served (c.data key),
      { c with fates := c.fates.tail })
  | .rawPut key value =>
    (c.fate,
      match c.fate with
      | .served _ => ⟨Function.update c.data key (some value), c.fates.tail⟩
      | _ => { c with fates := c.fates.tail })

end Cluster

def attempts : Nat → List (Attempt Unit) → Bool × List (Attempt Unit)
  | 0, fates => (false, fates)
  | n + 1, fates =>
    match fates.headD (.served ()) with
    | .noStub => (false, fates.tail)
    | .grpcError => attempts n fates.tail
    | .regionError => attempts n fates.tail
    | .refused => (false, fates.tail)
    | .served _ => (true, fates.tail)

theorem getLoop_exec (prefixedKey : Bytes) (n : Nat) (c : Cluster) :
    (getLoop prefixedKey n).exec Cluster.serve c =
      (match (attempts n c.fates).1, c.data prefixedKey with
        | true, some value => .ok value
        | _, _ => .error .fail,
        { c with fates := (attempts n c.fates).2 }) := by
  induction n generalizing c with
  | zero => rfl
  | succ n ih =>
    rw [getLoop, Prog.exec, Cluster.serve, attempts]
    cases hfate : c.fates.headD (.served ()) with
    | noStub => simp only [Cluster.fate, hfate, Prog.exec]
    | grpcError => simp only [Cluster.fate, hfate, ih]
    | regionError => simp only [Cluster.fate, hfate, ih]
    | refused => simp only [Cluster.fate, hfate, Prog.exec]
    | served u =>
      simp only [Cluster.fate, hfate]
      cases c.data prefixedKey with
      | none => rfl
      | some value => rfl

theorem putLoop_exec (prefixedKey value : Bytes) (n : Nat) (c : Cluster) :
    (putLoop prefixedKey value n).exec Cluster.serve c =
      if (attempts n c.fates).1 then
        (.success, ⟨Function.update c.data prefixedKey (some value), (attempts n c.fates).2⟩)
      else (.fail, { c with fates := (attempts n c.fates).2 }) := by
  induction n generalizing c with
  | zero => rfl
  | succ n ih =>
    rw [putLoop, Prog.exec, Cluster.serve, attempts]
    cases hfate : c.fates.headD (.served ()) with
    | noStub => simp only [Cluster.fate, hfate, Prog.exec, Bool.false_eq_true, if_false]
    | grpcError => simp only [Cluster.fate, hfate, ih]
    | regionError => simp only [Cluster.fate, hfate, ih]
    | refused => simp only [Cluster.fate, hfate, Prog.exec, Bool.false_eq_true, if_false]
    | served u => simp only [Cluster.fate, hfate, Prog.exec, if_true]

section Merge

variable (io : TiKVIO) (key : UInt32) (value : Bytes) (c : Cluster)

/-- A merge that returns `Success` has appended the value, one that returns `Fail` has left
the key as it was. -/
def MergeCorrect : Prop :=
  let done := (io.merge key value).exec Cluster.serve c
  let k := io.makePrefixedKey key
  (done.1 = .success → done.2.data k = some ((c.data k).getD [] ++ value)) ∧
    (done.1 = .fail → done.2.data k = c.data k)

def MergeSafe : Prop :=
  (c.data (io.makePrefixedKey key)).getD [] = [] ∨ (attempts 3 c.fates).1 = true ∨
    (attempts 3 (attempts 3 c.fates).2).1 = false

end Merge

/-- `Merge` takes a value it could not read for a missing one. -/
theorem merge_correct_iff (io : TiKVIO) (key : UInt32) {value : Bytes} (hvalue : value ≠ [])
    (c : Cluster) : MergeCorrect io key value c ↔ MergeSafe io key c := by
  unfold MergeCorrect MergeSafe
  simp only [merge, if_neg hvalue, Prog.exec_bind, get, put, getLoop_exec]
  generalize io.makePrefixedKey key = k
  cases hget : (attempts 3 c.fates).1 with
  | false =>
    cases hput : (attempts 3 (attempts 3 c.fates).2).1 with
    | false => simp [putLoop_exec, hput]
    | true => simp [putLoop_exec, hput]
  | true =>
    cases hdata : c.data k with
    | none => cases hput : (attempts 3 (attempts 3 c.fates).2).1 <;>
        simp [putLoop_exec, hput, hdata]
    | some old => cases hput : (attempts 3 (attempts 3 c.fates).2).1 <;>
        simp [putLoop_exec, hput, hdata]

theorem merge_correct_third_attempt :
    MergeCorrect ⟨[]⟩ 7 [2] ⟨fun _ => some [1], [.grpcError, .regionError]⟩ :=
  (merge_correct_iff ⟨[]⟩ 7 (by decide) _).mpr (.inr (.inl rfl))

theorem merge_overwrites :
    ¬ MergeCorrect ⟨[]⟩ 7 [2] ⟨fun _ => some [1], [.grpcError, .grpcError, .regionError]⟩ := by
  intro h
  exact absurd (h.1 rfl) (by decide)

end TiKVIO

end Sptag.SPANN
