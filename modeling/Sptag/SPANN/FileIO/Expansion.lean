import Sptag.SPANN.FileIO.BlockController

/-! When `GetBlocks` finds the blocks it is asked for: it expands the file by a whole growth
step or not at all, the clamp of `ExpandFile` is never reached, and a batch that the label
set refuses is taken all the same. -/

namespace Sptag.SPANN

open Sptag.Lib Sptag.COMMON

namespace BlockController

variable (opt : Options) {bc : BlockController} {used : List Int}

def space (bc : BlockController) : Int :=
  bc.blockAddresses.length + (opt.maxBlocks - bc.totalAllocatedBlocks)

/-- A request of `n` blocks is met with distinct blocks that were free or are new, each block
has a row in the label set, and the file stays below its cap. -/
structure Served (bc : BlockController) (n : Nat) : Prop where
  ok : (bc.getBlocks opt n).1.1 = true
  length : (bc.getBlocks opt n).1.2.length = n
  nodup : (bc.getBlocks opt n).1.2.Nodup
  origin : ∀ id ∈ (bc.getBlocks opt n).1.2, id ∈ bc.blockAddresses ∨
    bc.totalAllocatedBlocks ≤ id ∧ id < (bc.getBlocks opt n).2.totalAllocatedBlocks
  labelled : (bc.getBlocks opt n).2.totalAllocatedBlocks ≤ (bc.getBlocks opt n).2.available.rows
  capped : (bc.getBlocks opt n).2.totalAllocatedBlocks ≤ opt.maxBlocks

def grown (bc : BlockController) (n : Nat) : Int := bc.totalAllocatedBlocks + max opt.growthBlocks n

/-- Enough blocks are free, or a growth step fits below the cap; a step that is made is
within the capacity of the label set. -/
structure HasRoom (bc : BlockController) (n : Nat) : Prop where
  blocks : n ≤ bc.blockAddresses.length ∨ bc.grown opt n ≤ opt.maxBlocks
  rows : bc.needsExpansion opt n = true → bc.grown opt n ≤ opt.maxBlocks →
    bc.totalAllocatedBlocks < bc.grown opt n → bc.grown opt n ≤ bc.available.capacity

@[simp] theorem popBlocks_ids (n : Nat) (bc : BlockController) :
    (popBlocks n bc).1.2 = bc.blockAddresses.take n := by
  induction n generalizing bc with
  | zero => rfl
  | succ n ih =>
    unfold popBlocks
    split
    · rename_i hq
      rw [hq, List.take_nil]
    · rename_i id rest hq
      rw [hq, List.take_succ_cons]
      exact congrArg (id :: ·) (ih _)

theorem popBlocks_ok_iff (n : Nat) (bc : BlockController) :
    (popBlocks n bc).1.1 = true ↔ n ≤ bc.blockAddresses.length := by
  induction n generalizing bc with
  | zero => exact iff_of_true rfl (Nat.zero_le _)
  | succ n ih =>
    unfold popBlocks
    split
    · rename_i hq
      rw [hq]
      exact iff_of_false Bool.false_ne_true (Nat.not_succ_le_zero n)
    · rename_i id rest hq
      rw [hq, List.length_cons, Nat.succ_le_succ_iff]
      exact ih _

@[simp] theorem popBlocks_total (n : Nat) (bc : BlockController) :
    (popBlocks n bc).2.totalAllocatedBlocks = bc.totalAllocatedBlocks := by
  induction n generalizing bc with
  | zero => rfl
  | succ n ih =>
    unfold popBlocks
    split
    · rfl
    · exact ih _

@[simp] theorem popBlocks_rows (n : Nat) (bc : BlockController) :
    (popBlocks n bc).2.available.rows = bc.available.rows := by
  induction n generalizing bc with
  | zero => rfl
  | succ n ih =>
    unfold popBlocks
    split
    · rfl
    · exact (ih _).trans (LabelSet.rows_reset _ _)

theorem takeBlocks_of_expanded (expanded : Bool × BlockController)
    (hok : expanded.1 = true) (n : Nat) :
    ((takeBlocks expanded n).1.1 = true ↔ n ≤ expanded.2.blockAddresses.length) ∧
      (takeBlocks expanded n).1.2 = expanded.2.blockAddresses.take n ∧
      (takeBlocks expanded n).2.totalAllocatedBlocks = expanded.2.totalAllocatedBlocks ∧
      (takeBlocks expanded n).2.available.rows = expanded.2.available.rows := by
  have hiff := popBlocks_ok_iff n expanded.2
  have hids := popBlocks_ids n expanded.2
  have htotal := popBlocks_total n expanded.2
  have hrows := popBlocks_rows n expanded.2
  unfold takeBlocks
  simp only [hok, if_true, Int.toNat_natCast]
  split
  · exact ⟨hiff, hids, htotal, hrows⟩
  · exact ⟨hiff, hids, htotal, hrows⟩

theorem needsExpansion_of_lt {n : Nat} (hint : n < 2 ^ 31) (hlt : bc.blockAddresses.length < n) :
    bc.needsExpansion opt n = true := by
  have hsize : toSize (toInt (bc.blockAddresses.length : Nat)) = bc.blockAddresses.length := by
    rw [toInt_of_lt (hlt.trans hint), toSize_of_lt (by omega)]
  have hn : toSize (n : Int) = n := toSize_of_lt (by omega)
  rw [needsExpansion, hsize, hn, decide_eq_true hlt, Bool.or_true]

structure Grows (bc : BlockController) (n : Nat) : Prop where
  ok : (bc.prepare opt n).1 = true
  blocks : (bc.prepare opt n).2.blockAddresses =
    bc.blockAddresses ++ newBlocks bc.totalAllocatedBlocks (max opt.growthBlocks n : Nat)
  total : (bc.prepare opt n).2.totalAllocatedBlocks = bc.grown opt n
  rows : (bc.prepare opt n).2.available.rows =
    (bc.available.addBatch (max opt.growthBlocks n : Nat)).rows

theorem prepare_cases (hexpand : bc.io.expands.headD true = true) (n : Nat) :
    (bc.prepare opt n = (true, bc) ∧
      (bc.needsExpansion opt n = true → ¬ bc.grown opt n ≤ opt.maxBlocks)) ∨
    (bc.needsExpansion opt n = true ∧ bc.grown opt n ≤ opt.maxBlocks ∧ bc.Grows opt n) := by
  unfold prepare
  split
  · rename_i hneeds
    simp only
    split
    · rename_i hfits
      have hallowed : min (max (opt.growthBlocks : Int) n)
          (opt.maxBlocks - bc.totalAllocatedBlocks) = (max opt.growthBlocks n : Nat) := by
        rw [Nat.cast_max]
        exact min_eq_left (by omega)
      have hprep : bc.prepare opt n = bc.expandFile opt (max (opt.growthBlocks : Int) n) := by
        rw [prepare, if_pos hneeds]
        exact if_pos hfits
      refine .inr ⟨hneeds, by exact_mod_cast hfits, ?_⟩
      rw [expandFile] at hprep
      simp only [hallowed, hexpand, if_true] at hprep
      refine ⟨?_, ?_, ?_, ?_⟩
      · rw [hprep]
      · rw [hprep]
      · rw [hprep]
        rfl
      · rw [hprep]
        exact LabelSet.rows_insertAll _ _
    · rename_i hfits
      exact .inl ⟨rfl, fun _ h => hfits (by exact_mod_cast h)⟩
  · rename_i hneeds
    exact .inl ⟨rfl, fun h => absurd h hneeds⟩

theorem served_of_unchanged (hfree : bc.blockAddresses.Nodup)
    (hrows : bc.available.rows = bc.totalAllocatedBlocks) {n : Nat}
    (hprep : bc.prepare opt n = (true, bc)) :
    bc.Served opt n ↔ n ≤ bc.blockAddresses.length ∧ bc.totalAllocatedBlocks ≤ opt.maxBlocks := by
  obtain ⟨hok, hids, htotal, hlabelled⟩ := takeBlocks_of_expanded (true, bc) rfl n
  constructor
  · intro h
    refine ⟨hok.mp ?_, ?_⟩
    · have := h.ok
      rwa [getBlocks, hprep] at this
    · have := h.capped
      rwa [getBlocks, hprep, htotal] at this
  · rintro ⟨hle, hcap⟩
    refine ⟨?_, ?_, ?_, ?_, ?_, ?_⟩
    · rw [getBlocks, hprep]
      exact hok.mpr hle
    · rw [getBlocks, hprep, hids]
      exact List.length_take_of_le hle
    · rw [getBlocks, hprep, hids]
      exact hfree.sublist (List.take_sublist _ _)
    · rw [getBlocks, hprep, hids]
      exact fun id hid => .inl (List.mem_of_mem_take hid)
    · rw [getBlocks, hprep, htotal, hlabelled]
      exact hrows.ge
    · rw [getBlocks, hprep, htotal]
      exact hcap

theorem Grows.labelled_iff (howns : bc.Owns used)
    (hrows : bc.available.rows = bc.totalAllocatedBlocks) {n : Nat} (h : bc.Grows opt n) :
    bc.grown opt n ≤ (bc.prepare opt n).2.available.rows ↔
      (bc.totalAllocatedBlocks < bc.grown opt n → bc.grown opt n ≤ bc.available.capacity) := by
  have h0 := howns.total_nonneg
  have hle := bc.available.rows_addBatch_le (Int.natCast_nonneg (max opt.growthBlocks n))
  have hge := bc.available.rows_le_addBatch (max opt.growthBlocks n : Nat)
  rw [h.rows, grown, ← hrows]
  rcases Nat.eq_zero_or_pos (max opt.growthBlocks n) with hzero | hpos
  · refine iff_of_true ?_ fun hlt => ?_
    · omega
    · omega
  · have hiff := bc.available.rows_addBatch_iff (hrows ▸ h0) (Int.natCast_pos.mpr hpos)
    omega

theorem served_of_grown (howns : bc.Owns used)
    (hrows : bc.available.rows = bc.totalAllocatedBlocks) {n : Nat}
    (hfits : bc.grown opt n ≤ opt.maxBlocks) (h : bc.Grows opt n) :
    bc.Served opt n ↔
      (bc.totalAllocatedBlocks < bc.grown opt n → bc.grown opt n ≤ bc.available.capacity) := by
  obtain ⟨hok, hids, htotal, hlabelled⟩ := takeBlocks_of_expanded _ h.ok n
  have hpool : (bc.prepare opt n).2.blockAddresses.Nodup := by
    have h := (prepare_spec opt n howns).1.partition.nodup
    exact (List.nodup_append'.mp (List.nodup_append'.mp h).1).1
  have henough : n ≤ (bc.prepare opt n).2.blockAddresses.length := by
    rw [h.blocks, List.length_append, newBlocks, List.length_map, List.length_range]
    omega
  rw [← h.labelled_iff opt howns hrows]
  refine ⟨fun hs => ?_, fun hcap => ⟨hok.mpr henough, ?_, ?_, ?_, ?_, ?_⟩⟩
  · have := hs.labelled
    rwa [getBlocks, htotal, hlabelled, h.total] at this
  · rw [getBlocks, hids]
    exact List.length_take_of_le henough
  · rw [getBlocks, hids]
    exact hpool.sublist (List.take_sublist _ _)
  · rw [getBlocks, hids, htotal, h.total, grown]
    intro id hid
    have hmem := List.mem_of_mem_take hid
    rw [h.blocks, List.mem_append, mem_newBlocks] at hmem
    exact_mod_cast hmem
  · rwa [getBlocks, htotal, hlabelled, h.total]
  · rwa [getBlocks, htotal, h.total]

theorem getBlocks_capped (p_size : Int) (hcap : bc.totalAllocatedBlocks ≤ opt.maxBlocks) :
    (bc.getBlocks opt p_size).2.totalAllocatedBlocks ≤ opt.maxBlocks := by
  have hprepared : (bc.prepare opt p_size).2.totalAllocatedBlocks ≤ opt.maxBlocks := by
    unfold prepare expandFile
    grind
  unfold getBlocks takeBlocks
  simp only
  split
  · split
    · rwa [popBlocks_total]
    · rwa [fault, popBlocks_total]
  · exact hprepared

/-- A request is served exactly when enough blocks are free or a whole growth step fits; that
the space suffices is not enough. -/
theorem space_used_iff (howns : bc.Owns used)
    (hrows : bc.available.rows = bc.totalAllocatedBlocks) {n : Nat} (hint : n < 2 ^ 31)
    (hexpand : bc.io.expands.headD true = true) :
    bc.Served opt n ↔ bc.HasRoom opt n ∧ bc.totalAllocatedBlocks ≤ opt.maxBlocks := by
  have hfree : bc.blockAddresses.Nodup :=
    (List.nodup_append'.mp (List.nodup_append'.mp howns.partition.nodup).1).1
  rcases prepare_cases opt hexpand n with ⟨hprep, hneeds⟩ | ⟨hneeds, hfits, hgrows⟩
  · rw [served_of_unchanged opt hfree hrows hprep]
    refine and_congr_left fun _ => ⟨fun hle => ⟨.inl hle, fun hn hf => absurd hf (hneeds hn)⟩, ?_⟩
    rintro ⟨hle | hroom, -⟩
    · exact hle
    · by_contra hlt
      exact hneeds (needsExpansion_of_lt opt hint (not_le.mp hlt)) hroom
  · rw [served_of_grown opt howns hrows hfits hgrows]
    refine ⟨fun h => ⟨⟨.inr hfits, fun _ _ => h⟩, ?_⟩, fun h => h.1.rows hneeds hfits⟩
    rw [grown] at hfits
    omega

def nearlyFull : BlockController :=
  { blockAddresses := [3, 4, 5, 6, 7, 8, 9]
    blockAddressesReserve := []
    available :=
      { contains := fun id => decide (3 ≤ id ∧ id < 10)
        rows := 10
        capacity := 100
        capacity_lt := Nat.le_of_ble_eq_true rfl }
    totalAllocatedBlocks := 10
    pages := fun _ => []
    io := .reliable
    faults := 0 }

def growsByFour : Options :=
  { blockLimit := 16
    growthBlocks := 4
    maxBlocks := 12
    startNumBlocks := 10
    datasetCapacity := 100
    datasetCapacity_lt := Nat.le_of_ble_eq_true rfl
    belowThreshold := fun _ _ => false
    disableCheckpoint := false
    reqs := 16
    blockLimit_le_reqs := by decide
    cacheShards := 0
    cacheCapacity := 0
    iterate := id
    iterate_perm := fun _ => .refl _ }

theorem nearlyFull_owns : nearlyFull.Owns [0, 1, 2] := by
  refine ⟨⟨by decide, fun id => ?_⟩, ⟨fun id => ?_, fun _ => ⟨rfl, by decide⟩⟩, by decide⟩
  · simp [nearlyFull, free, InRange]
    omega
  · simp [nearlyFull, free]
    omega

theorem space_used_seven : nearlyFull.Served growsByFour 7 :=
  (space_used_iff growsByFour nearlyFull_owns rfl (by decide) rfl).mpr
    ⟨⟨.inl (by decide), by decide⟩, by decide⟩

theorem space_unused : (8 : Nat) ≤ nearlyFull.space growsByFour ∧ nearlyFull.Owns [0, 1, 2] ∧
    nearlyFull.available.rows = nearlyFull.totalAllocatedBlocks ∧
    growsByFour.maxBlocks ≤ nearlyFull.available.capacity ∧
    nearlyFull.io.expands.headD true = true ∧ nearlyFull.totalAllocatedBlocks ≤
      growsByFour.maxBlocks ∧
    ¬ nearlyFull.Served growsByFour 8 := by
  refine ⟨by decide, nearlyFull_owns, rfl, by decide, rfl, by decide, fun h => ?_⟩
  exact absurd h.ok (by decide)

end BlockController

end Sptag.SPANN
