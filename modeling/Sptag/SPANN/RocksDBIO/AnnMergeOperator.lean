import Sptag.Lib.Codec

/-! `AnnMergeOperator` of `ExtraRocksDBController.h`: the two callbacks with which RocksDB
appends to a value, and the ways in which it calls them. -/

namespace Sptag.SPANN.AnnMergeOperator

open Sptag.Lib

def resize (s : Bytes) (length : Nat) : Bytes :=
  s.take length ++ List.replicate (length - s.length) 0

def totalSize (length : Nat) (operand_list : List Bytes) : Nat :=
  operand_list.foldl (fun length s => length + s.length) length

def memcpy (dest : Bytes) (start : Nat) (s : Bytes) : Option Bytes := copyAt dest start s

def copyOperands (new_value : Bytes) (start : Nat) : List Bytes → Option Bytes
  | [] => some new_value
  | s :: operand_list =>
    (memcpy new_value start s).bind fun new_value =>
      copyOperands new_value (start + s.length) operand_list

/-- `existing_value` is a pointer, and null when there is no value; `new_value` is what the
output string holds before the call. -/
def fullMergeV2 (existing_value : Option Bytes) (operand_list : List Bytes) (new_value : Bytes) :
    Option Bytes :=
  match existing_value with
  | none => none
  | some existing_value =>
    let length := totalSize existing_value.length operand_list
    (memcpy (resize new_value length) 0 existing_value).bind fun new_value =>
      copyOperands new_value existing_value.length operand_list

def partialMergeMulti (operand_list : List Bytes) (new_value : Bytes) : Option Bytes :=
  copyOperands (resize new_value (totalSize 0 operand_list)) 0 operand_list

structure Group where
  start : Nat
  count : Nat
  new_value : Bytes

def Group.merge (operands : List Bytes) (g : Group) : Option (List Bytes) :=
  (partialMergeMulti ((operands.drop g.start).take g.count) g.new_value).map fun merged =>
    operands.take g.start ++ merged :: operands.drop (g.start + g.count)

def merge (existing_value : Option Bytes) (operands : List Bytes) (groups : List Group)
    (new_value : Bytes) : Option Bytes :=
  (groups.foldlM Group.merge operands).bind (fullMergeV2 existing_value · new_value)

section Callbacks

variable {dest s new_value : Bytes} {start length : Nat} {operand_list : List Bytes}

@[simp] theorem resize_length (s : Bytes) (length : Nat) : (resize s length).length = length := by
  simp only [resize, List.length_append, List.length_take, List.length_replicate]
  omega

theorem totalSize_eq (length : Nat) (operand_list : List Bytes) :
    totalSize length operand_list = length + operand_list.flatten.length := by
  induction operand_list generalizing length with
  | nil => rfl
  | cons s operand_list ih =>
    rw [totalSize, List.foldl_cons, ← totalSize, ih, List.flatten_cons, List.length_append,
      Nat.add_assoc]

theorem memcpy_append {back : Bytes} (hback : s.length ≤ back.length) :
    memcpy (dest ++ back) dest.length s = some (dest ++ s ++ back.drop s.length) :=
  copyAt_append hback

theorem copyOperands_append {back : Bytes} (hback : back.length = operand_list.flatten.length) :
    copyOperands (dest ++ back) dest.length operand_list = some (dest ++ operand_list.flatten) := by
  induction operand_list generalizing dest back with
  | nil =>
    rw [List.eq_nil_of_length_eq_zero hback]
    rfl
  | cons s operand_list ih =>
    rw [List.flatten_cons, List.length_append] at hback
    rw [copyOperands, memcpy_append (by omega), Option.bind_some, ← List.length_append,
      ih (by rw [List.length_drop]; omega), List.flatten_cons, List.append_assoc]

@[simp] theorem partialMergeMulti_eq (operand_list : List Bytes) (new_value : Bytes) :
    partialMergeMulti operand_list new_value = some operand_list.flatten := by
  have hlen : (resize new_value (totalSize 0 operand_list)).length =
    operand_list.flatten.length := by
    rw [resize_length, totalSize_eq, Nat.zero_add]
  exact @copyOperands_append [] operand_list _ hlen

@[simp] theorem fullMergeV2_some (existing_value : Bytes) (operand_list : List Bytes)
  (new_value : Bytes) :
    fullMergeV2 (some existing_value) operand_list new_value =
      some (existing_value ++ operand_list.flatten) := by
  have hlen : (resize new_value (totalSize existing_value.length operand_list)).length =
      existing_value.length + operand_list.flatten.length := by
    rw [resize_length, totalSize_eq]
  rw [fullMergeV2]
  have hcopy := @memcpy_append [] existing_value _ (hlen ▸ Nat.le_add_right _ _)
  rw [List.nil_append, List.nil_append, List.length_nil] at hcopy
  rw [hcopy, Option.bind_some]
  exact copyOperands_append (by rw [List.length_drop, hlen, Nat.add_sub_cancel_left])

end Callbacks

variable {operands operands' : List Bytes} {groups : List Group}

theorem merge_flatten (operands : List Bytes) (g : Group) :
    ∃ operands', g.merge operands = some operands' ∧ operands'.flatten = operands.flatten := by
  refine ⟨_, by rw [Group.merge, partialMergeMulti_eq, Option.map_some], ?_⟩
  rw [List.flatten_append, List.flatten_cons, ← List.flatten_append, ← List.flatten_append,
    ← List.drop_drop, List.take_append_drop, List.take_append_drop]

theorem foldlM_merge_flatten (groups : List Group) (operands : List Bytes) :
    ∃ operands', groups.foldlM Group.merge operands = some operands' ∧
      operands'.flatten = operands.flatten := by
  induction groups generalizing operands with
  | nil => exact ⟨operands, rfl, rfl⟩
  | cons g groups ih =>
    obtain ⟨next, hnext, hflat⟩ := merge_flatten operands g
    obtain ⟨operands', hrun, hflat'⟩ := ih next
    exact ⟨operands', by rw [List.foldlM_cons, hnext]; exact hrun, hflat'.trans hflat⟩

/-- However the operands are grouped, they are appended to a value that is there; without
one, the pointer to it is followed all the same. -/
theorem merge_eq_append_iff (existing_value : Option Bytes) (operands : List Bytes)
    (groups : List Group) (new_value : Bytes) :
    merge existing_value operands groups new_value =
      some (existing_value.getD [] ++ operands.flatten) ↔ existing_value.isSome := by
  obtain ⟨operands', hrun, hflat⟩ := foldlM_merge_flatten groups operands
  rw [merge, hrun, Option.bind_some]
  cases existing_value with
  | none => exact iff_of_false (fun h => nomatch h) (fun h => nomatch h)
  | some existing_value =>
    rw [fullMergeV2_some, hflat]
    exact iff_of_true rfl rfl

theorem merge_missing_ne : ¬ ∀ (existing_value : Option Bytes) operands groups new_value,
    merge existing_value operands groups new_value =
      some (existing_value.getD [] ++ operands.flatten) := by
  intro h
  exact absurd (h none [[7]] [] []) (by decide)

end Sptag.SPANN.AnnMergeOperator
