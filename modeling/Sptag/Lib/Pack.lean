import Mathlib

/-! Packing the live ids of a range to its front: each hole is filled with the last live
id, and the range shrinks from its tail. -/

namespace Sptag.Lib

structure Packing where
  newToOld : List Nat
  mapping : Nat → Int
  newR : Nat

variable (dead : Nat → Bool)

def shrinkTail (i : Nat) : Nat → Nat
  | 0 => 0
  | r + 1 => if dead r && decide (i < r + 1) then shrinkTail i r else r + 1

/-- The scan from `i` on; `fuel` bounds its rounds. -/
def fillHoles : Nat → Nat → Packing → Packing
  | 0, _, p => p
  | fuel + 1, i, p =>
    if p.newR ≤ i then p
    else if !dead i then
      fillHoles fuel (i + 1) ⟨p.newToOld ++ [i], Function.update p.mapping i i, p.newR⟩
    else
      let r := shrinkTail dead i p.newR
      if r = i then { p with newR := r }
      else fillHoles fuel (i + 1) ⟨p.newToOld ++ [r - 1],
        Function.update p.mapping (r - 1) i, r - 1⟩

def pack (n : Nat) (old : Nat → Int) : Packing := fillHoles dead n 0 ⟨[], old, n⟩

/-- The slots below `i` are filled, with the live ids that are not between `i` and the end
of the range. -/
structure Filled (n : Nat) (old : Nat → Int) (i : Nat) (p : Packing) : Prop where
  le : i ≤ p.newR
  newR_le : p.newR ≤ n
  length_eq : p.newToOld.length = i
  nodup : p.newToOld.Nodup
  mem_iff : ∀ v, v ∈ p.newToOld ↔ v < n ∧ dead v = false ∧ (v < i ∨ p.newR ≤ v)
  mapping_of_getElem : ∀ j v : Nat, p.newToOld[j]? = some v → p.mapping v = j
  mapping_of_not_mem : ∀ v, v ∉ p.newToOld → p.mapping v = old v
  slot : ∀ j v : Nat, p.newToOld[j]? = some v → v = j ∨ dead j = true

variable {dead}

theorem shrinkTail_spec {i : Nat} : ∀ {r : Nat}, i ≤ r →
    i ≤ shrinkTail dead i r ∧ shrinkTail dead i r ≤ r ∧
      (∀ v, shrinkTail dead i r ≤ v → v < r → dead v = true) ∧
      (shrinkTail dead i r = i ∨ dead (shrinkTail dead i r - 1) = false)
  | 0, hi => ⟨hi, Nat.le_refl _, fun v h hv => absurd hv (Nat.not_lt_zero v), .inl (by
      rw [Nat.le_zero.mp hi]
      rfl)⟩
  | r + 1, hi => by
    rw [shrinkTail]
    split
    · rename_i h
      simp only [Bool.and_eq_true, decide_eq_true_eq] at h
      obtain ⟨hle, hr, hdead, hlast⟩ := shrinkTail_spec (Nat.le_of_lt_succ h.2)
      refine ⟨hle, Nat.le_succ_of_le hr, fun v hv hvr => ?_, hlast⟩
      rcases Nat.lt_succ_iff_lt_or_eq.mp hvr with hlt | rfl
      · exact hdead v hv hlt
      · exact h.1
    · rename_i h
      refine ⟨hi, Nat.le_refl _, fun v hv hvr => absurd hvr (Nat.not_lt.mpr hv), ?_⟩
      simp only [Bool.and_eq_true, decide_eq_true_eq, not_and, Nat.not_lt] at h
      cases hr : dead r with
      | false => exact .inr hr
      | true => exact .inl (Nat.le_antisymm (h hr) hi)

theorem filled_start (n : Nat) (old : Nat → Int) : Filled dead n old 0 ⟨[], old, n⟩ where
  le := Nat.zero_le n
  newR_le := Nat.le_refl n
  length_eq := rfl
  nodup := List.nodup_nil
  mem_iff v := by
    simp only [List.not_mem_nil, false_iff]
    omega
  mapping_of_getElem j v h := by simp at h
  mapping_of_not_mem _ _ := rfl
  slot j v h := by simp at h

variable {n i v r : Nat} {old : Nat → Int} {p : Packing}

theorem Filled.push (hp : Filled dead n old i p) (hir : i + 1 ≤ r) (hr : r ≤ p.newR)
    (hv : v = i ∧ r = p.newR ∨ v = r ∧ r < p.newR ∧ dead i = true) (hlive : dead v = false)
    (htail : ∀ u, r ≤ u → u < p.newR → dead u = false → u = v) :
    Filled dead n old (i + 1) ⟨p.newToOld ++ [v], Function.update p.mapping v i, r⟩ := by
  have hnr := hp.newR_le
  have hnot : v ∉ p.newToOld := by
    rw [hp.mem_iff]
    omega
  have hget : ∀ j u, (p.newToOld ++ [v])[j]? = some u → p.newToOld[j]? = some u ∨ j =
    i ∧ u = v := by
    intro j u h
    rw [List.getElem?_append, hp.length_eq] at h
    split at h
    · exact .inl h
    · rw [List.getElem?_singleton] at h
      split at h
      · refine .inr ⟨by omega, (Option.some.inj h).symm⟩
      · cases h
  refine ⟨hir, hr.trans hp.newR_le, by simp [hp.length_eq], ?_, fun u => ?_, fun j u h => ?_,
    fun u h => ?_, fun j u h => ?_⟩
  · exact List.nodup_append.mpr ⟨hp.nodup, List.nodup_singleton v, fun a ha b hb => by
      rintro rfl
      exact hnot (List.mem_singleton.mp hb ▸ ha)⟩
  · rw [List.mem_append, List.mem_singleton, hp.mem_iff]
    dsimp only
    constructor
    · rintro (⟨hu, hd, hrange⟩ | rfl)
      · exact ⟨hu, hd, by omega⟩
      · exact ⟨by omega, hlive, by omega⟩
    · rintro ⟨hu, hd, hrange⟩
      by_cases huv : u = v
      · exact .inr huv
      refine .inl ⟨hu, hd, ?_⟩
      by_contra hne
      simp only [not_or, Nat.not_lt, Nat.not_le] at hne
      rcases hrange with hlt | hge
      · rcases hv with ⟨rfl, -⟩ | ⟨-, -, hdi⟩
        · exact huv (by omega)
        · rw [show u = i by omega, hdi] at hd
          cases hd
      · exact huv (htail u hge hne.2 hd)
  · rcases hget j u h with hold | ⟨rfl, rfl⟩
    · have hne : u ≠ v := fun heq => hnot (heq ▸ List.mem_of_getElem? hold)
      simpa [hne] using hp.mapping_of_getElem j u hold
    · simp
  · rw [List.mem_append, List.mem_singleton, not_or] at h
    simpa [h.2] using hp.mapping_of_not_mem u h.1
  · rcases hget j u h with hold | ⟨rfl, rfl⟩
    · exact hp.slot j u hold
    · rcases hv with ⟨rfl, -⟩ | ⟨-, -, hdi⟩
      · exact .inl rfl
      · exact .inr hdi

theorem Filled.fillHoles {fuel : Nat} (hp : Filled dead n old i p) (hfuel : p.newR ≤ i + fuel) :
    Filled dead n old (Lib.fillHoles dead fuel i p).newR (Lib.fillHoles dead fuel i p) := by
  induction fuel generalizing i p with
  | zero =>
    have heq : i = p.newR := Nat.le_antisymm hp.le hfuel
    rwa [Lib.fillHoles, ← heq]
  | succ fuel ih =>
    rw [Lib.fillHoles]
    split
    · have heq : i = p.newR := Nat.le_antisymm hp.le ‹_›
      rwa [← heq]
    split
    · rename_i hi hlive
      refine ih (hp.push (by omega) (Nat.le_refl _) (.inl ⟨rfl, rfl⟩) (by simpa using hlive)
        fun u hu hlt => by omega) ?_
      simp only
      omega
    · rename_i hi hdead
      obtain ⟨hle, hr, htail, hlast⟩ := @shrinkTail_spec dead i p.newR hp.le
      simp only [Bool.not_eq_true', Bool.not_eq_false] at hdead
      dsimp only
      split
      · rename_i heq
        -- every id from `i` on is dead
        refine ⟨Nat.le_refl _, hr.trans hp.newR_le, hp.length_eq.trans heq.symm,
          hp.nodup, fun v => ?_,
          hp.mapping_of_getElem, hp.mapping_of_not_mem, hp.slot⟩
        rw [hp.mem_iff]
        refine and_congr_right fun hv => and_congr_right fun hd => ?_
        have hmid : ¬ (shrinkTail dead i p.newR ≤ v ∧ v < p.newR) := fun h => by
          rw [htail v h.1 h.2] at hd
          cases hd
        simp only
        omega
      · rename_i hne
        have hlive := hlast.resolve_left hne
        have hne' : shrinkTail dead i p.newR - 1 ≠ i := fun h => by
          rw [h, hdead] at hlive
          cases hlive
        refine ih (hp.push (by omega) (by omega) (.inr ⟨rfl, by omega, hdead⟩) hlive
          fun u hu hlt hd => ?_) ?_
        · by_contra hu'
          rw [htail u (by omega) hlt] at hd
          cases hd
        · simp only
          omega

theorem filled_pack (n : Nat) (old : Nat → Int) :
    Filled dead n old (pack dead n old).newR (pack dead n old) :=
  (filled_start n old).fillHoles (by simp)

section Pack

@[simp] theorem length_pack : (pack dead n old).newToOld.length = (pack dead n old).newR :=
  (filled_pack n old).length_eq

theorem nodup_pack : (pack dead n old).newToOld.Nodup := (filled_pack n old).nodup

@[simp] theorem mem_pack : v ∈ (pack dead n old).newToOld ↔ v < n ∧ dead v = false := by
  rw [(filled_pack n old).mem_iff]
  refine and_congr_right fun hv => and_iff_left_of_imp fun hd => ?_
  exact Nat.lt_or_ge v _

theorem mapping_pack (h : (pack dead n old).newToOld[i]? = some v) :
    (pack dead n old).mapping v = i := (filled_pack n old).mapping_of_getElem i v h

theorem mapping_pack_dead (h : dead v = true) : (pack dead n old).mapping v = old v := by
  refine (filled_pack n old).mapping_of_not_mem v fun hmem => ?_
  rw [mem_pack, h] at hmem
  cases hmem.2

theorem exists_slot (hv : v < n) (hlive : dead v = false) :
    ∃ j : Nat, (pack dead n old).newToOld[j]? = some v ∧ (pack dead n old).mapping v = j := by
  obtain ⟨j, hj⟩ := List.mem_iff_getElem?.mp (mem_pack.mpr ⟨hv, hlive⟩)
  exact ⟨j, hj, mapping_pack hj⟩

end Pack

section WriteRows

variable {α : Type*}

def writeRows (rows : Nat → α) (writes : List (Nat × α)) : Nat → α :=
  writes.foldl (fun rows w => Function.update rows w.1 w.2) rows

theorem writeRows_of_not_mem {k : Nat} (rows : Nat → α) {writes : List (Nat × α)}
    (h : k ∉ writes.map Prod.fst) : writeRows rows writes k = rows k := by
  induction writes generalizing rows with
  | nil => rfl
  | cons w writes ih =>
    rw [List.map_cons, List.mem_cons, not_or] at h
    rw [writeRows, List.foldl_cons, ← writeRows, ih _ h.2, Function.update_of_ne h.1]

theorem writeRows_of_mem {k : Nat} {x : α} (rows : Nat → α) {writes : List (Nat × α)}
    (hnodup : (writes.map Prod.fst).Nodup) (h : (k, x) ∈ writes) : writeRows rows writes k = x := by
  induction writes generalizing rows with
  | nil => cases h
  | cons w writes ih =>
    rw [List.map_cons, List.nodup_cons] at hnodup
    rw [writeRows, List.foldl_cons, ← writeRows]
    cases h with
    | head => rw [writeRows_of_not_mem _ hnodup.1, Function.update_self]
    | tail _ h => exact ih _ hnodup.2 h

end WriteRows

end Sptag.Lib
