import Mathlib

/-! Resources handed out from a free list: which are free, which are in use. -/

namespace Sptag.Lib

variable {α : Type*}

structure Partition (R : α → Prop) (free used : List α) : Prop where
  nodup : (free ++ used).Nodup
  mem : ∀ a ∈ free ++ used, R a

namespace Partition

variable {R : α → Prop} {free used free' used' : List α}

theorem of_perm (h : Partition R free used) (hp : (free ++ used).Perm (free' ++ used')) :
    Partition R free' used' :=
  ⟨hp.nodup_iff.mp h.nodup, fun a ha => h.mem a (hp.mem_iff.mpr ha)⟩

theorem of_used_perm (h : Partition R free used) (hp : used.Perm used') :
    Partition R free used' := h.of_perm (hp.append_left _)

theorem take {a : α} (h : Partition R (a :: free) used) : Partition R free (a :: used) :=
  h.of_perm List.perm_middle.symm

theorem give {a : α} (h : Partition R free (a :: used)) : Partition R (a :: free) used :=
  h.of_perm List.perm_middle

theorem sublist (h : Partition R free used) (hf : free'.Sublist free) (hu : used'.Sublist used) :
    Partition R free' used' :=
  ⟨h.nodup.sublist (hf.append hu), fun a ha => h.mem a ((hf.append hu).subset ha)⟩

theorem grow (h : Partition R free used) (R' : α → Prop) (new : List α) (hR : ∀ a, R a → R' a)
    (hnodup : new.Nodup) (hnew : ∀ a ∈ new, R' a ∧ ¬ R a) :
    Partition R' (free ++ new) used := by
  have hp : (new ++ (free ++ used)).Perm (free ++ new ++ used) := by
    rw [List.append_assoc]
    exact List.perm_append_comm_assoc _ _ _
  refine ⟨hp.nodup_iff.mp (List.nodup_append'.mpr ⟨hnodup, h.nodup, ?_⟩), fun a ha => ?_⟩
  · exact fun a ha ha' => (hnew a ha).2 (h.mem a ha')
  · rcases List.mem_append.mp (hp.mem_iff.mpr ha) with ha | ha
    · exact (hnew a ha).1
    · exact hR a (h.mem a ha)

theorem not_mem_free {a : α} (h : Partition R free used) (ha : a ∈ used) : a ∉ free :=
  fun hf => (List.nodup_append'.mp h.nodup).2.2 hf ha

end Partition

end Sptag.Lib
