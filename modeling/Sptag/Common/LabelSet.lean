import Sptag.Common

/-! `inc/Core/Common/LabelSet.h` over the rows of `Dataset.h`. -/

namespace Sptag.COMMON

/-- `rows` is `R()`. The byte of a key from there on lies outside of the rows and is not
followed. -/
structure LabelSet where
  contains : Int → Bool
  rows : Int
  capacity : Nat
  capacity_lt : capacity < 2 ^ 31

namespace LabelSet

def ofSize (size : Int) (capacity : Nat) (capacity_lt : capacity < 2 ^ 31) : LabelSet :=
  { contains := fun _ => false, rows := toInt size, capacity, capacity_lt }

variable (s : LabelSet)

def insert (key : Int) : Bool × LabelSet :=
  if key < s.rows then
    (!s.contains key, { s with contains := Function.update s.contains key true })
  else (true, s)

def reset (key : Int) : LabelSet :=
  if key < s.rows then { s with contains := Function.update s.contains key false } else s

def addBatch (num : Int) : LabelSet :=
  if toInt (s.capacity - toInt num) < s.rows then s
  else { s with rows := s.rows + max (toInt num) 0 }

def insertAll (keys : List Int) : LabelSet := keys.foldl (fun s key => (s.insert key).2) s

@[simp] theorem rows_insert (key : Int) : (s.insert key).2.rows = s.rows := by
  unfold insert
  split
  · rfl
  · rfl

@[simp] theorem capacity_insert (key : Int) : (s.insert key).2.capacity = s.capacity := by
  unfold insert
  split
  · rfl
  · rfl

@[simp] theorem rows_reset (key : Int) : (s.reset key).rows = s.rows := by
  unfold reset
  split
  · rfl
  · rfl

@[simp] theorem capacity_reset (key : Int) : (s.reset key).capacity = s.capacity := by
  unfold reset
  split
  · rfl
  · rfl

@[simp] theorem contains_addBatch (num : Int) : (s.addBatch num).contains = s.contains := by
  unfold addBatch
  split
  · rfl
  · rfl

@[simp] theorem capacity_addBatch (num : Int) : (s.addBatch num).capacity = s.capacity := by
  unfold addBatch
  split
  · rfl
  · rfl

@[simp] theorem contains_insert (key id : Int) :
    (s.insert key).2.contains id = true ↔ id = key ∧ key < s.rows ∨ s.contains id = true := by
  unfold insert
  split
  · by_cases h : id = key
    · simp [*]
    · simp [h]
  · simp [*]

@[simp] theorem contains_reset (key id : Int) :
    (s.reset key).contains id = true ↔ ¬ (id = key ∧ key < s.rows) ∧ s.contains id = true := by
  unfold reset
  split
  · by_cases h : id = key
    · simp [*]
    · simp [h]
  · simp [*]

@[simp] theorem rows_insertAll (keys : List Int) : (s.insertAll keys).rows = s.rows := by
  induction keys generalizing s with
  | nil => rfl
  | cons key keys ih => exact (ih _).trans (s.rows_insert key)

@[simp] theorem capacity_insertAll (keys : List Int) :
    (s.insertAll keys).capacity = s.capacity := by
  induction keys generalizing s with
  | nil => rfl
  | cons key keys ih => exact (ih _).trans (s.capacity_insert key)

@[simp] theorem contains_insertAll (keys : List Int) (id : Int) :
    (s.insertAll keys).contains id = true ↔ id ∈ keys ∧ id < s.rows ∨ s.contains id = true := by
  induction keys generalizing s with
  | nil => simp [insertAll]
  | cons key keys ih =>
    have hrest : (s.insertAll (key :: keys)) = (s.insert key).2.insertAll keys := rfl
    rw [hrest, ih, rows_insert, contains_insert, List.mem_cons]
    constructor
    · rintro (⟨hmem, hlt⟩ | ⟨rfl, hlt⟩ | h)
      · exact .inl ⟨.inr hmem, hlt⟩
      · exact .inl ⟨.inl rfl, hlt⟩
      · exact .inr h
    · rintro (⟨rfl | hmem, hlt⟩ | h)
      · exact .inr (.inl ⟨rfl, hlt⟩)
      · exact .inl ⟨hmem, hlt⟩
      · exact .inr (.inr h)

theorem insert_fresh {key : Int} (h : s.contains key = false) : (s.insert key).1 = true := by
  unfold insert
  split
  · simp [h]
  · rfl

theorem rows_le_addBatch (num : Int) : s.rows ≤ (s.addBatch num).rows := by
  unfold addBatch
  split
  · exact le_refl _
  · exact le_add_of_nonneg_right (le_max_right _ _)

theorem rows_addBatch_le {num : Int} (h : 0 ≤ num) : (s.addBatch num).rows ≤ s.rows + num := by
  have hnum := toInt_le h
  unfold addBatch
  split
  · omega
  · exact Int.add_le_add_left (max_le hnum h) _

theorem rows_addBatch_iff {num : Int} (h0 : 0 ≤ s.rows) (hn : 0 < num) :
    (s.addBatch num).rows = s.rows + num ↔ s.rows + num ≤ s.capacity := by
  have hcap := s.capacity_lt
  constructor
  · intro h
    have hnum := toInt_le hn.le
    unfold addBatch at h
    split at h
    · omega
    · rename_i hroom
      have hsum : s.rows + max (toInt num) 0 = s.rows + num := h
      have heq : toInt num = num := by omega
      rw [heq] at hroom
      have hlt : num < 2 ^ 31 := by
        unfold toInt at heq
        have := Int.bmod_lt (x := num) (m := 2 ^ 32) (by decide)
        omega
      have hsub : toInt (s.capacity - num) = s.capacity - num := by
        rw [toInt, Int.bmod_eq_of_le (by omega) (by omega)]
      omega
  · intro h
    have hnum : toInt num = num := toInt_eq hn.le (by omega)
    have hsub : toInt (s.capacity - num) = s.capacity - num := toInt_eq (by omega) (by omega)
    rw [addBatch, hnum, hsub, if_neg (by omega), max_eq_left hn.le]

/-- Only blocks of `free` have the label; all of them have it while the `total` blocks are
within the capacity. -/
structure Marks (total : Int) (free : List Int) : Prop where
  mem : ∀ id, s.contains id = true → id ∈ free ∧ id < s.rows
  full : total ≤ s.capacity → s.rows = total ∧ ∀ id ∈ free, s.contains id = true

variable {s} {total : Int} {free free' : List Int}

theorem Marks.congr (h : s.Marks total free) (hf : ∀ id, id ∈ free ↔ id ∈ free') :
    s.Marks total free' :=
  ⟨fun id hid => ⟨(hf id).mp (h.mem id hid).1, (h.mem id hid).2⟩,
    fun hle => ⟨(h.full hle).1, fun id hid => (h.full hle).2 id ((hf id).mpr hid)⟩⟩

theorem Marks.reset {key : Int} (h : s.Marks total (key :: free)) (hkey : key ∉ free) :
    (s.reset key).Marks total free := by
  refine ⟨fun id hid => ?_, fun hle => ?_⟩
  · rw [contains_reset] at hid
    obtain ⟨hmem, hlt⟩ := h.mem id hid.2
    rw [rows_reset]
    refine ⟨(List.mem_cons.mp hmem).resolve_left fun heq => hid.1 ⟨heq, heq ▸ hlt⟩, hlt⟩
  · rw [capacity_reset] at hle
    obtain ⟨hrows, hall⟩ := h.full hle
    refine ⟨(s.rows_reset key).trans hrows, fun id hid => ?_⟩
    rw [contains_reset]
    exact ⟨fun heq => hkey (heq.1 ▸ hid), hall id (List.mem_cons_of_mem _ hid)⟩

theorem Marks.insertAll {keys : List Int} (h : s.Marks total free)
    (hkeys : ∀ id ∈ keys, id < total) : (s.insertAll keys).Marks total (keys ++ free) := by
  refine ⟨fun id hid => ?_, fun hle => ?_⟩
  · rw [rows_insertAll, List.mem_append]
    rcases (s.contains_insertAll keys id).mp hid with ⟨hmem, hlt⟩ | hid
    · exact ⟨.inl hmem, hlt⟩
    · exact ⟨.inr (h.mem id hid).1, (h.mem id hid).2⟩
  · rw [capacity_insertAll] at hle
    obtain ⟨hrows, hall⟩ := h.full hle
    refine ⟨(s.rows_insertAll keys).trans hrows, fun id hid => ?_⟩
    rw [contains_insertAll, hrows]
    exact (List.mem_append.mp hid).imp (fun hmem => ⟨hmem, hkeys id hmem⟩) (hall id)

theorem Marks.insert {key : Int} (h : s.Marks total free) (hkey : key < total) :
    (s.insert key).2.Marks total (key :: free) :=
  have hkeys : ∀ id ∈ [key], id < total := fun _ hid => List.mem_singleton.mp hid ▸ hkey
  h.insertAll hkeys

theorem Marks.addBatch {num : Int} (h : s.Marks total free) (h0 : 0 ≤ total) (hn : 0 ≤ num) :
    (s.addBatch num).Marks (total + num) free := by
  refine ⟨fun id hid => ?_, fun hle => ?_⟩
  · rw [contains_addBatch] at hid
    exact ⟨(h.mem id hid).1, (h.mem id hid).2.trans_le (s.rows_le_addBatch num)⟩
  · rw [capacity_addBatch] at hle
    obtain ⟨hrows, hall⟩ := h.full (by omega)
    rw [contains_addBatch]
    refine ⟨?_, hall⟩
    rcases hn.eq_or_lt with rfl | hpos
    · exact le_antisymm (by have := s.rows_addBatch_le (le_refl 0); omega)
        (by have := s.rows_le_addBatch 0; omega)
    · have := (s.rows_addBatch_iff (by omega) hpos).mpr (by omega)
      omega

theorem Marks.ofSize {capacity : Nat} (hcap : capacity < 2 ^ 31) (h0 : 0 ≤ total) :
    (ofSize total capacity hcap).Marks total [] := by
  refine ⟨fun id hid => (Bool.false_ne_true hid).elim, fun hle => ⟨toInt_eq h0 ?_, ?_⟩⟩
  · have : total ≤ capacity := hle
    omega
  · exact fun id hid => absurd hid List.not_mem_nil

end LabelSet

end Sptag.COMMON
