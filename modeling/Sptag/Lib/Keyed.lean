import Sptag.Lib.Slots

/-! Heaps whose elements are compared by a key: sifting goes with taking the keys, and only moves
cells, whatever the comparison. -/

namespace Sptag.Lib.Slots

variable {α β : Type*} {s s' : Slots α} {i j n rounds parent next : Nat}

def map (f : α → β) (s : Slots α) : Slots β := ⟨s.size, f ∘ s.cell⟩

section Map

variable (f : α → β)

@[simp] theorem get_map (s : Slots α) (i : Nat) : (s.map f).get i = (s.get i).map f := by
  unfold get map
  split
  · rfl
  · rfl

theorem set_map (s : Slots α) (i : Nat) (x : α) :
    (s.map f).set i (f x) = (s.set i x).map (Slots.map f) := by
  unfold set map
  dsimp only
  split
  · rw [Option.map_some, Function.comp_update]
  · rfl

theorem swap_map (s : Slots α) (i j : Nat) : (s.map f).swap i j =
    (s.swap i j).map (Slots.map f) := by
  by_cases hi : i < s.size
  · by_cases hj : j < s.size
    · rw [swap_of_lt hi hj, swap_of_lt (s := s.map f) hi hj]
      rfl
    · have hnone : s.get j = none := if_neg hj
      simp [swap, get_map, hnone]
  · have hnone : s.get i = none := if_neg hi
    simp [swap, get_map, hnone]

variable {f} {less : α → α → Prop} [DecidableRel less] {less' : β → β → Prop} [DecidableRel less']
  (h : ∀ a b, less' (f a) (f b) ↔ less a b)
include h

theorem siftLast_map (s : Slots α) (parent next : Nat) :
    siftLast less' n (s.map f) parent next = (siftLast less n s parent next).map (Slots.map f) := by
  unfold siftLast
  split
  · rw [get_map, get_map]
    cases s.get next with
    | none => rfl
    | some child =>
      cases s.get parent with
      | none => rfl
      | some above =>
        simp only [Option.map_some, Option.bind_eq_bind, Option.bind_some, h, swap_map]
        split
        · rfl
        · rfl
  · rfl

theorem siftDown_map (rounds : Nat) (s : Slots α) (parent next : Nat) :
    siftDown less' n rounds (s.map f) parent next =
      (siftDown less n rounds s parent next).map (Slots.map f) := by
  induction rounds generalizing s parent next with
  | zero => rfl
  | succ rounds ih =>
    unfold siftDown
    split
    · rw [get_map, get_map, get_map]
      cases s.get next with
      | none => rfl
      | some left =>
        cases s.get (next + 1) with
        | none => rfl
        | some right =>
          simp only [Option.map_some, Option.bind_eq_bind, Option.bind_some, h, get_map]
          cases s.get (if less left right then next + 1 else next) with
          | none => rfl
          | some child =>
            cases s.get parent with
            | none => rfl
            | some above =>
              simp only [Option.map_some, Option.bind_some, h, swap_map]
              split
              · cases s.swap parent (if less left right then next + 1 else next) with
                | none => rfl
                | some s => exact ih s _ _
              · exact siftLast_map h s _ _
    · exact siftLast_map h s _ _

theorem siftUp_map (value : α) (rounds : Nat) (s : Slots α) (loc : Nat) :
    siftUp less' (f value) rounds (s.map f) loc =
      (siftUp less value rounds s loc).map (Slots.map f) := by
  induction rounds generalizing s loc with
  | zero => rfl
  | succ rounds ih =>
    unfold siftUp
    split
    · rw [get_map]
      cases s.get (loc / 2) with
      | none => rfl
      | some parent =>
        simp only [Option.map_some, Option.bind_eq_bind, Option.bind_some, h, set_map]
        split
        · cases s.set loc parent with
          | none => rfl
          | some s => exact ih s _
        · rfl
    · exact set_map f s loc value

end Map

theorem eq_of_get {x : α} (h : s.get i = some x) : s.cell i = x := by
  unfold get at h
  split at h
  · exact Option.some.inj h
  · exact nomatch h

theorem eq_of_set {x : α} (h : s.set i x = some s') :
    { s with cell := Function.update s.cell i x } = s' := by
  unfold set at h
  split at h
  · exact Option.some.inj h
  · exact nomatch h

structure Moved (n : Nat) (s s' : Slots α) : Prop extends Rearranged n s s' where
  zero : s'.cell 0 = s.cell 0

theorem Moved.refl (s : Slots α) : Moved n s s := ⟨.refl s, rfl⟩

theorem Moved.trans {t : Slots α} (h : Moved n s s') (h' : Moved n s' t) : Moved n s t :=
  ⟨h.toRearranged.trans h'.toRearranged, h'.zero.trans h.zero⟩

theorem moved_exchange (hi : i < n) (hj : j < n) :
    Moved n s { s with cell := exchange s.cell (i + 1) (j + 1) } :=
  ⟨rearranged_exchange hi hj, exchange_of_ne (Nat.succ_ne_zero i).symm (Nat.succ_ne_zero j).symm⟩

theorem moved_swap {p c : Nat} (hp : p < n) (hc : c < n) (h : s.swap (p + 1) (c + 1) = some s') :
    Moved n s s' := by
  by_cases hi : p + 1 < s.size
  · by_cases hj : c + 1 < s.size
    · rw [swap_of_lt hi hj] at h
      exact Option.some.inj h ▸ moved_exchange hp hc
    · have hnone : s.get (c + 1) = none := if_neg hj
      simp [swap, hnone] at h
  · have hnone : s.get (p + 1) = none := if_neg hi
    simp [swap, hnone] at h

section Sift

variable {less : α → α → Prop} [DecidableRel less] {p c : Nat}

theorem siftLast_moved (hpc : p ≤ c) (h : siftLast less n s (p + 1) (c + 1) = some s') :
    Moved n s s' := by
  unfold siftLast at h
  split at h
  · rename_i hlast
    simp only [Option.bind_eq_bind, Option.bind_eq_some_iff] at h
    obtain ⟨child, -, above, -, h⟩ := h
    split at h
    · have hc : c < n := Nat.lt_of_succ_le hlast.le
      exact moved_swap (hpc.trans_lt hc) hc h
    · exact Option.some.inj h ▸ .refl s
  · exact Option.some.inj h ▸ .refl s

theorem siftDown_moved (hpc : p ≤ c) (h : siftDown less n rounds s (p + 1) (c + 1) = some s') :
    Moved n s s' := by
  induction rounds generalizing s p c with
  | zero => exact nomatch h
  | succ rounds ih =>
    unfold siftDown at h
    split at h
    · rename_i hboth
      simp only [Option.bind_eq_bind, Option.bind_eq_some_iff] at h
      obtain ⟨left, -, right, -, child, -, above, -, h⟩ := h
      obtain ⟨d, hd, hcd, hdn⟩ : ∃ d, (if less left right then c + 1 + 1 else c + 1) = d + 1 ∧
          c ≤ d ∧ d < n := by
        split
        · exact ⟨c + 1, rfl, Nat.le_succ c, hboth⟩
        · exact ⟨c, rfl, le_rfl, Nat.lt_of_succ_lt hboth⟩
      rw [hd] at h
      split at h
      · obtain ⟨t, ht, h⟩ := Option.bind_eq_some_iff.mp h
        have hswap := moved_swap ((hpc.trans hcd).trans_lt hdn) hdn ht
        exact hswap.trans (ih (show d ≤ 2 * d + 1 by omega) h)
      · exact siftLast_moved (hpc.trans hcd) h
    · exact siftLast_moved hpc h

theorem siftUp_moved {value : α} (hp : p < n) (h : siftUp less value rounds s (p + 1) = some s') :
    Moved n { s with cell := Function.update s.cell (p + 1) value } s' := by
  induction rounds generalizing s p with
  | zero => exact nomatch h
  | succ rounds ih =>
    unfold siftUp at h
    split at h
    · rename_i hroot
      obtain ⟨q, hq⟩ : ∃ q, (p + 1) / 2 = q + 1 := Nat.exists_eq_add_one_of_ne_zero hroot.ne'
      have hqp : q < p := by omega
      rw [hq] at h
      obtain ⟨parent, hparent, h⟩ := Option.bind_eq_some_iff.mp h
      obtain rfl := eq_of_get hparent
      split at h
      · obtain ⟨t, ht, h⟩ := Option.bind_eq_some_iff.mp h
        obtain rfl := eq_of_set ht
        refine .trans ?_ (ih (hqp.trans hp) h)
        have hmoved := moved_exchange hp (hqp.trans hp)
          (s := { s with cell := Function.update s.cell (p + 1) value })
        rwa [exchange_update s.cell (Nat.succ_lt_succ hqp).ne value] at hmoved
      · exact eq_of_set h ▸ .refl _
    · exact eq_of_set h ▸ .refl _

end Sift

end Sptag.Lib.Slots
