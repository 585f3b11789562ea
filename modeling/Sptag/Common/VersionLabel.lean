import Sptag.Common

/-! `inc/Core/Common/VersionLabel.h`: one byte for each vector id, its version or the
mark of a deleted vector. -/

namespace Sptag.COMMON

structure VersionLabel where
  data : List UInt8
  deletedNum : Nat
  capacity : Nat
  capacity_lt : capacity < 2 ^ 31

namespace VersionLabel

def ofLabels (labels : List UInt8) (deletedNum capacity : Nat) : VersionLabel where
  data := labels
  deletedNum := deletedNum
  capacity := capacity % 2 ^ 31
  capacity_lt := Nat.mod_lt capacity (Nat.two_pow_pos 31)

abbrev tombstone : UInt8 := 0xfe

abbrev blank : UInt8 := 0xff

def count (m : VersionLabel) : Nat := m.data.length

/-- The label of `key`, when it is not out of range. -/
def label? (m : VersionLabel) (key : Int) : Option UInt8 :=
  if key < 0 then none else m.data[key.toNat]?

def setLabel (m : VersionLabel) (key : Int) (label : UInt8) : VersionLabel :=
  { m with data := m.data.set key.toNat label }

def deleted (m : VersionLabel) (key : Int) : Bool :=
  match m.label? key with
  | none => true
  | some label => label = tombstone

/-- An id out of range is answered with `true` as well. -/
def delete (m : VersionLabel) (key : Int) : Bool × VersionLabel :=
  match m.label? key with
  | none => (true, m)
  | some label =>
    if label = tombstone then (false, m.setLabel key tombstone)
    else (true, { m.setLabel key tombstone with deletedNum := m.deletedNum + 1 })

def getVersion (m : VersionLabel) (key : Int) : UInt8 := (m.label? key).getD tombstone

def incVersion (m : VersionLabel) (key : Int) : Option UInt8 × VersionLabel :=
  match m.label? key with
  | none => (none, m)
  | some label =>
    if label = tombstone then (none, m)
    else (some ((label + 1) &&& 0x7f), m.setLabel key ((label + 1) &&& 0x7f))

def addBatch (m : VersionLabel) (num : Nat) : ErrorCode × VersionLabel :=
  if (m.count : Int) > m.capacity - num then (.memoryOverFlow, m)
  else (.success, { m with data := m.data ++ List.replicate num blank })

def Dead (m : VersionLabel) (key : Int) : Prop := m.label? key = some tombstone

@[simp] theorem count_setLabel (m : VersionLabel) (key : Int) (label : UInt8) :
    (m.setLabel key label).count = m.count := List.length_set

@[simp] theorem capacity_setLabel (m : VersionLabel) (key : Int) (label : UInt8) :
    (m.setLabel key label).capacity = m.capacity := rfl

theorem label?_eq_none_iff {m : VersionLabel} {key : Int} :
    m.label? key = none ↔ key < 0 ∨ (m.count : Int) ≤ key := by
  unfold label?
  split
  · simp [*]
  · rw [List.getElem?_eq_none_iff, count]
    omega

theorem label?_eq_some_lt {m : VersionLabel} {key : Int} {label : UInt8}
    (h : m.label? key = some label) : 0 ≤ key ∧ key < m.count := by
  have hne : ¬ m.label? key = none := by simp [h]
  rw [label?_eq_none_iff] at hne
  omega

theorem label?_setLabel (m : VersionLabel) (key : Int) (label : UInt8) (key' : Int)
    (hkey : 0 ≤ key ∧ key < m.count) :
    (m.setLabel key label).label? key' = if key' = key then some label else m.label? key' := by
  rw [count] at hkey
  unfold label? setLabel
  rw [List.getElem?_set]
  split
  · rw [if_neg (by omega)]
  · by_cases h : key' = key
    · subst h
      rw [if_pos rfl, if_pos rfl, if_pos (by omega)]
    · rw [if_neg h, if_neg (by omega)]

theorem deleted_eq_true_iff {m : VersionLabel} {key : Int} (h : 0 ≤ key ∧ key < m.count) :
    m.deleted key = true ↔ m.Dead key := by
  unfold deleted Dead
  cases hl : m.label? key with
  | none =>
    rw [label?_eq_none_iff] at hl
    omega
  | some label => simp

theorem label?_delete (m : VersionLabel) (key key' : Int) :
    (m.delete key).2.label? key' =
      if key' = key then (m.label? key).map fun _ => tombstone else m.label? key' := by
  unfold delete
  split
  · rename_i h
    rw [h]
    split
    · rename_i heq
      rw [heq, h]
      rfl
    · rfl
  · rename_i label h
    rw [h]
    split
    · exact label?_setLabel _ _ _ _ (label?_eq_some_lt h)
    · exact label?_setLabel m _ _ _ (label?_eq_some_lt h)

@[simp] theorem count_delete (m : VersionLabel) (key : Int) :
    (m.delete key).2.count = m.count := by
  unfold delete
  split
  · rfl
  · split <;> exact count_setLabel ..

@[simp] theorem capacity_delete (m : VersionLabel) (key : Int) :
    (m.delete key).2.capacity = m.capacity := by
  unfold delete
  split
  · rfl
  · split <;> rfl

theorem dead_delete {m : VersionLabel} {key key' : Int} :
    (m.delete key).2.Dead key' ↔
      m.Dead key' ∨ key' = key ∧ 0 ≤ key ∧ key < m.count := by
  rw [Dead, label?_delete, Dead]
  by_cases h : key' = key
  · subst h
    rw [if_pos rfl]
    cases hl : m.label? key' with
    | none =>
      rw [label?_eq_none_iff] at hl
      simp only [Option.map_none, reduceCtorEq, false_or, false_iff, true_and]
      omega
    | some label => simp [label?_eq_some_lt hl]
  · simp [h]

theorem dead_of_delete_eq_false {m : VersionLabel} {key : Int} (h : (m.delete key).1 = false) :
    m.Dead key := by
  unfold delete at h
  split at h
  · cases h
  · rename_i label hl
    split at h
    · rename_i ht
      rw [Dead, hl, ht]
    · cases h

@[simp] theorem count_incVersion (m : VersionLabel) (key : Int) :
    (m.incVersion key).2.count = m.count := by
  unfold incVersion
  split
  · rfl
  · split
    · rfl
    · exact count_setLabel ..

@[simp] theorem capacity_incVersion (m : VersionLabel) (key : Int) :
    (m.incVersion key).2.capacity = m.capacity := by
  unfold incVersion
  split
  · rfl
  · split <;> rfl

theorem next_ne_tombstone (label : UInt8) : (label + 1) &&& 0x7f ≠ tombstone := by
  intro h
  have hle : ((label + 1) &&& 0x7f).toNat ≤ 127 := by
    rw [UInt8.toNat_and]
    exact Nat.and_le_right
  rw [h] at hle
  exact absurd hle (by decide)

@[simp] theorem dead_incVersion {m : VersionLabel} {key key' : Int} :
    (m.incVersion key).2.Dead key' ↔ m.Dead key' := by
  unfold incVersion
  split
  · rfl
  · rename_i label hl
    split
    · rfl
    · rename_i hne
      rw [Dead, label?_setLabel _ _ _ _ (label?_eq_some_lt hl), Dead]
      split
      · rename_i heq
        subst heq
        simp only [hl, Option.some.injEq, hne, iff_false]
        exact next_ne_tombstone label
      · rfl

theorem label?_incVersion_of_ne (m : VersionLabel) {key key' : Int} (h : key' ≠ key) :
    (m.incVersion key).2.label? key' = m.label? key' := by
  unfold incVersion
  split
  · rfl
  · rename_i label hl
    split
    · rfl
    · rw [label?_setLabel _ _ _ _ (label?_eq_some_lt hl), if_neg h]

theorem getVersion_incVersion_of_ne (m : VersionLabel) {key key' : Int} (h : key' ≠ key) :
    (m.incVersion key).2.getVersion key' = m.getVersion key' := by
  rw [getVersion, label?_incVersion_of_ne m h, getVersion]

@[simp] theorem deleted_incVersion (m : VersionLabel) (key key' : Int) :
    (m.incVersion key).2.deleted key' = m.deleted key' := by
  by_cases hkey : 0 ≤ key' ∧ key' < m.count
  · rw [Bool.eq_iff_iff, deleted_eq_true_iff hkey, deleted_eq_true_iff (by simpa using hkey)]
    exact dead_incVersion
  · have hout : m.label? key' = none := label?_eq_none_iff.mpr (by omega)
    have hout' : (m.incVersion key).2.label? key' = none :=
      label?_eq_none_iff.mpr (by rw [count_incVersion]; omega)
    rw [deleted, hout', deleted, hout]

theorem addBatch_of_le {m : VersionLabel} {num : Nat} (h : m.count + num ≤ m.capacity) :
    m.addBatch num = (.success, { m with data := m.data ++ List.replicate num blank }) :=
  if_neg (by omega)

theorem addBatch_of_lt {m : VersionLabel} {num : Nat} (h : m.capacity < m.count + num) :
    m.addBatch num = (.memoryOverFlow, m) :=
  if_pos (by omega)

theorem dead_append {m : VersionLabel} {num : Nat} {key : Int} :
    ({ m with data := m.data ++ List.replicate num blank } : VersionLabel).Dead key ↔
      m.Dead key := by
  unfold Dead label?
  split
  · rfl
  · rw [List.getElem?_append]
    split
    · rfl
    · rename_i hlt
      rw [List.getElem?_eq_none (not_lt.mp hlt)]
      simp only [reduceCtorEq, iff_false]
      intro h
      have := List.eq_of_mem_replicate (List.mem_of_getElem? h)
      exact absurd this (by decide)

end VersionLabel

end Sptag.COMMON
