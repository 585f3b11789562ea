import Sptag.Common

/-! `inc/Core/Common/Dataset.h`, with one column: the rows of `Initialize` in one array and
the rows added later in blocks. -/

namespace Sptag.COMMON

/-- `incBlocks` is the number of blocks, of `2 ^ rowsInBlockEx` rows each, and `content`
what the memory of a row holds. -/
structure Dataset where
  rows : Nat
  incRows : Nat
  incBlocks : Nat
  rowsInBlockEx : Nat
  maxRows : Nat
  content : Int → Int

namespace Dataset

variable (d : Dataset)

def count : Nat := d.rows + d.incRows

def capacity : Nat := d.rows + d.incBlocks * 2 ^ d.rowsInBlockEx

def Allocated (i : Int) : Prop := 0 ≤ i ∧ i < d.capacity

instance (i : Int) : Decidable (d.Allocated i) := inferInstanceAs (Decidable (_ ∧ _))

def write (i value : Int) : Dataset :=
  if d.Allocated i then { d with content := Function.update d.content i value } else d

def pushBlock : Dataset :=
  { d with
    incBlocks := d.incBlocks + 1
    content := fun i => if i < d.capacity then d.content i else -1 }

def addBatch (memory : Bool) : ErrorCode × Dataset :=
  if d.maxRows < d.count + 1 then (.memoryOverFlow, d)
  else if d.incBlocks ≤ d.incRows / 2 ^ d.rowsInBlockEx then
    if memory then (.success, { d.pushBlock with incRows := d.incRows + 1 })
    else (.memoryOverFlow, d)
  else (.success, { d with incRows := d.incRows + 1 })

def Formed : Prop := d.incRows ≤ d.incBlocks * 2 ^ d.rowsInBlockEx

def StartsBlock (i : Int) : Prop := d.rows ≤ i ∧ (i - d.rows) % 2 ^ d.rowsInBlockEx = 0

instance (i : Int) : Decidable (d.StartsBlock i) := inferInstanceAs (Decidable (_ ∧ _))

variable {d}

theorem Formed.allocated (h : d.Formed) {i : Int} (hpos : 0 ≤ i) (hlt : i < d.count) :
    d.Allocated i := by
  apply And.intro hpos
  rw [Formed] at h
  rw [count] at hlt
  rw [capacity]
  omega

theorem Formed.allocated_count (h : d.Formed) (hstart : ¬ d.StartsBlock d.count) :
    d.Allocated d.count := by
  have hne : d.incRows ≠ d.incBlocks * 2 ^ d.rowsInBlockEx := by
    intro heq
    apply hstart
    constructor
    · rw [count]
      omega
    · rw [count, heq]
      push_cast
      rw [add_sub_cancel_left, Int.mul_emod_left]
  apply And.intro (Int.natCast_nonneg _)
  rw [Formed] at h
  rw [count, capacity]
  omega

@[simp] theorem write_count (i value : Int) : (d.write i value).count = d.count := by
  unfold write
  split
  · rfl
  · rfl

@[simp] theorem write_allocated (i value j : Int) :
    (d.write i value).Allocated j ↔ d.Allocated j := by
  unfold write
  split
  · rfl
  · rfl

theorem Formed.write (h : d.Formed) (i value : Int) : (d.write i value).Formed := by
  unfold Dataset.write
  split
  · exact h
  · exact h

theorem content_write_self {i : Int} (h : d.Allocated i) (value : Int) :
    (d.write i value).content i = value := by
  rw [write, if_pos h]
  exact Function.update_self ..

theorem content_write_of_ne {i j : Int} (h : j ≠ i) (value : Int) :
    (d.write i value).content j = d.content j := by
  unfold write
  split
  · exact Function.update_of_ne h ..
  · rfl

structure Extends (d d' : Dataset) : Prop where
  formed : d.Formed → d'.Formed
  capacity_le : d.capacity ≤ d'.capacity
  content : ∀ i, d.Allocated i → d'.content i = d.content i

theorem Extends.allocated {d' : Dataset} (h : Extends d d') {i : Int} (hi : d.Allocated i) :
    d'.Allocated i :=
  ⟨hi.1, hi.2.trans_le (Int.ofNat_le.mpr h.capacity_le)⟩

theorem Extends.pushBlock (d : Dataset) :
    Extends d { d.pushBlock with incRows := d.incRows + 1 } where
  formed h := by
    have hpos : 0 < 2 ^ d.rowsInBlockEx := Nat.two_pow_pos _
    rw [Formed] at h ⊢
    change d.incRows + 1 ≤ (d.incBlocks + 1) * 2 ^ d.rowsInBlockEx
    rw [Nat.succ_mul]
    omega
  capacity_le := by
    change d.rows + d.incBlocks * 2 ^ d.rowsInBlockEx ≤
      d.rows + (d.incBlocks + 1) * 2 ^ d.rowsInBlockEx
    gcongr
    omega
  content i hi := if_pos hi.2

theorem Extends.addRow (d : Dataset) (hroom : ¬ d.incBlocks ≤ d.incRows / 2 ^ d.rowsInBlockEx) :
    Extends d { d with incRows := d.incRows + 1 } where
  formed _ := (Nat.div_lt_iff_lt_mul (Nat.two_pow_pos _)).mp (not_le.mp hroom)
  capacity_le := le_refl _
  content _ _ := rfl

theorem addBatch_cases (d : Dataset) (memory : Bool) :
    d.addBatch memory = (.memoryOverFlow, d) ∨
      ∃ d', d.addBatch memory = (.success, d') ∧ d'.count = d.count + 1 ∧ Extends d d' := by
  unfold addBatch
  split
  · exact Or.inl rfl
  · split
    · split
      · exact Or.inr ⟨_, rfl, rfl, .pushBlock d⟩
      · exact Or.inl rfl
    · rename_i hfull
      exact Or.inr ⟨_, rfl, rfl, .addRow d hfull⟩

end Dataset

end Sptag.COMMON
