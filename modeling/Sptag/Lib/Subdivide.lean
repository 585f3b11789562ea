import Sptag.Lib.Slots

/-! A range of cells parted by two pointers: a cell that passes the test stays, any other is
exchanged with the last cell not yet tested. -/

namespace Sptag.Lib.Slots

variable {α : Type}

def subdivide (below : Nat → α → Option Bool) :
    Nat → Slots α → Nat → Nat → Option (Slots α × Nat)
  | 0, _, _, _ => none
  | rounds + 1, s, i, e =>
    if i < e then do
      let x ← s.get i
      let passes ← below i x
      if passes then subdivide below rounds s (i + 1) e
      else
        let s ← s.swap i (e - 1)
        subdivide below rounds s i (e - 1)
    else return (s, i)

structure Shuffled (first n : Nat) (s s' : Slots α) : Prop where
  size : s'.size = s.size
  moved : ∃ σ : Equiv.Perm Nat, (∀ k, k < first ∨ n ≤ k → σ k = k) ∧
    ∀ k, s'.cell k = s.cell (σ k)

def range (s : Slots α) (first n : Nat) : List α := (List.range' first (n - first)).map s.cell

variable {s s' s'' : Slots α} {first n m i j k e p : Nat}

@[simp] theorem mem_range {x : α} :
    x ∈ s.range first n ↔ ∃ k, first ≤ k ∧ k < n ∧ s.cell k = x := by
  unfold range
  simp only [List.mem_map, List.mem_range'_1, and_assoc]
  exact exists_congr fun k => ⟨fun ⟨h, h', hx⟩ => ⟨h, by omega, hx⟩, fun ⟨h, h', hx⟩ =>
    ⟨h, by omega, hx⟩⟩

theorem range_congr (h : ∀ k, first ≤ k → k < n → s'.cell k = s.cell k) :
    s'.range first n = s.range first n := by
  refine List.map_congr_left fun k hk => ?_
  obtain ⟨hk, hk'⟩ := List.mem_range'_1.mp hk
  exact h k hk (by omega)

theorem range_append (hm : first ≤ m) (hn : m ≤ n) :
    s.range first m ++ s.range m n = s.range first n := by
  obtain ⟨l, rfl⟩ := Nat.exists_eq_add_of_le hm
  obtain ⟨l', rfl⟩ := Nat.exists_eq_add_of_le hn
  unfold range
  rw [← List.map_append, Nat.add_sub_cancel_left, Nat.add_sub_cancel_left,
    List.range'_append_1, Nat.add_assoc, Nat.add_sub_cancel_left]

@[simp] theorem range_one : s.range i (i + 1) = [s.cell i] := by
  simp [range]

@[simp] theorem length_range : (s.range first n).length = n - first := by
  simp [range]

namespace Shuffled

theorem refl (s : Slots α) : Shuffled first n s s :=
  ⟨rfl, Equiv.refl _, fun _ _ => rfl, fun _ => rfl⟩

theorem trans (h : Shuffled first n s s') (h' : Shuffled first n s' s'') :
    Shuffled first n s s'' := by
  obtain ⟨hsize, σ, hσ, hcell⟩ := h
  obtain ⟨hsize', τ, hτ, hcell'⟩ := h'
  refine ⟨hsize'.trans hsize, τ.trans σ, fun k hk => ?_, fun k => (hcell' k).trans (hcell _)⟩
  rw [Equiv.trans_apply, hτ k hk, hσ k hk]

theorem mono {first' n' : Nat} (h : Shuffled first n s s') (hfirst : first' ≤ first)
    (hn : n ≤ n') : Shuffled first' n' s s' := by
  obtain ⟨hsize, σ, hσ, hcell⟩ := h
  exact ⟨hsize, σ, fun k hk => hσ k (hk.imp (·.trans_le hfirst) hn.trans), hcell⟩

theorem outside (h : Shuffled first n s s') (hk : k < first ∨ n ≤ k) :
    s'.cell k = s.cell k := by
  obtain ⟨-, σ, hσ, hcell⟩ := h
  rw [hcell, hσ k hk]

theorem perm (h : Shuffled first n s s') : (s'.range first n).Perm (s.range first n) := by
  obtain ⟨-, σ, hσ, hcell⟩ := h
  have hinside : ∀ k, (first ≤ k ∧ k < n) ↔ first ≤ σ k ∧ σ k < n := by
    intro k
    by_cases hk : k < first ∨ n ≤ k
    · rw [hσ k hk]
    · have hk' : ¬ (σ k < first ∨ n ≤ σ k) := fun h => hk (σ.injective (hσ _ h) ▸ h)
      omega
  have hcells : s'.range first n = ((List.range' first (n - first)).map σ).map s.cell := by
    rw [List.map_map]
    exact List.map_congr_left fun k _ => hcell k
  rw [hcells]
  refine List.Perm.map _ ((List.perm_ext_iff_of_nodup
    (List.Nodup.map σ.injective List.nodup_range') List.nodup_range').mpr fun k => ?_)
  have hk := hinside (σ.symm k)
  rw [Equiv.apply_symm_apply] at hk
  simp only [List.mem_map, List.mem_range'_1]
  constructor
  · rintro ⟨k', hk', rfl⟩
    have := hinside k'
    omega
  · exact fun _ => ⟨σ.symm k, by omega, σ.apply_symm_apply k⟩

theorem exists_of_mem (h : Shuffled first n s s') (hk : first ≤ k) (hn : k < n) :
    ∃ k', first ≤ k' ∧ k' < n ∧ s'.cell k = s.cell k' := by
  have hmem := h.perm.mem_iff.mp (mem_range.mpr ⟨k, hk, hn, rfl⟩)
  obtain ⟨k', hk', hn', heq⟩ := mem_range.mp hmem
  exact ⟨k', hk', hn', heq.symm⟩

theorem forall_iff {P : α → Prop} (h : Shuffled first n s s') :
    (∀ k, first ≤ k → k < n → P (s'.cell k)) ↔ ∀ k, first ≤ k → k < n → P (s.cell k) := by
  have hall : ∀ t : Slots α, (∀ k, first ≤ k → k < n → P (t.cell k)) ↔
      ∀ x ∈ t.range first n, P x := fun t =>
    ⟨fun ht x hx => by obtain ⟨k, hk, hn, rfl⟩ := mem_range.mp hx; exact ht k hk hn,
      fun ht k hk hn => ht _ (mem_range.mpr ⟨k, hk, hn, rfl⟩)⟩
  rw [hall, hall]
  exact forall_congr' fun x => by rw [h.perm.mem_iff]

end Shuffled

theorem shuffled_exchange (hi : first ≤ i) (hin : i < n) (hj : first ≤ j) (hjn : j < n) :
    Shuffled first n s { s with cell := exchange s.cell i j } :=
  ⟨rfl, Equiv.swap i j, fun k hk => Equiv.swap_apply_of_ne_of_ne (by omega) (by omega),
    fun _ => rfl⟩

variable (below : Nat → α → Option Bool) (rounds : Nat)

theorem subdivide_const {b : Bool} (hbelow : ∀ i x, below i x = some b) (hie : i ≤ e)
    (h : subdivide below rounds s i e = some (s', m)) : m = if b then e else i := by
  induction rounds generalizing s i e with
  | zero => cases h
  | succ rounds ih =>
    unfold subdivide at h
    split at h
    · rename_i hlt
      simp only [hbelow, Option.bind_eq_bind, Option.bind_some, Option.bind_eq_some_iff] at h
      obtain ⟨_, -, h⟩ := h
      cases b with
      | true => exact (ih (i := i + 1) hlt h).trans rfl
      | false =>
        rw [if_neg Bool.false_ne_true, Option.bind_eq_some_iff] at h
        obtain ⟨_, -, h⟩ := h
        exact (ih (e := e - 1) (Nat.le_sub_one_of_lt hlt) h).trans rfl
    · cases h
      cases b with
      | true => exact hie.antisymm (by omega)
      | false => rfl

theorem subdivide_spec {P : α → Prop} [DecidablePred P]
    (hbelow : ∀ k, i ≤ k → k < e → ∀ j, i ≤ j → j < e →
      below j (s.cell k) = some (decide (P (s.cell k))))
    (hie : i ≤ e) (he : e ≤ s.size) (hrounds : e - i < rounds) :
    ∃ s' m, subdivide below rounds s i e = some (s', m) ∧ i ≤ m ∧ m ≤ e ∧ Shuffled i e s s' ∧
      (∀ k, i ≤ k → k < m → P (s'.cell k)) ∧ ∀ k, m ≤ k → k < e → ¬ P (s'.cell k) := by
  induction rounds generalizing s i e with
  | zero => exact absurd hrounds (Nat.not_lt_zero _)
  | succ rounds ih =>
    unfold subdivide
    by_cases hlt : i < e
    · rw [if_pos hlt, get_of_lt (hlt.trans_le he)]
      simp only [Option.bind_eq_bind, Option.bind_some, hbelow i le_rfl hlt i le_rfl hlt]
      by_cases hP : P (s.cell i)
      · have hrest : ∀ k, i + 1 ≤ k → k < e → ∀ j, i + 1 ≤ j → j < e →
            below j (s.cell k) = some (decide (P (s.cell k))) := fun k hk hke j hj hje =>
          hbelow k (by omega) hke j (by omega) hje
        obtain ⟨s', m, hs', him, hme, hsame, hleft, hright⟩ := ih hrest hlt he (by omega)
        refine ⟨s', m, by simp only [hP, decide_true, if_true, hs'], by omega, hme,
          hsame.mono (Nat.le_succ i) le_rfl, fun k hk hkm => ?_, hright⟩
        rcases hk.eq_or_lt with rfl | hk
        · rwa [hsame.outside (Or.inl (Nat.lt_succ_self _))]
        · exact hleft k hk hkm
      · have hswap := swap_of_lt (hlt.trans_le he) (show e - 1 < s.size by omega)
        have hmoved : Shuffled i e s { s with cell := exchange s.cell i (e - 1) } :=
          shuffled_exchange le_rfl hlt (Nat.le_sub_one_of_lt hlt) (by omega)
        have hrest : ∀ k, i ≤ k → k < e - 1 → ∀ j, i ≤ j → j < e - 1 →
            below j (exchange s.cell i (e - 1) k) =
              some (decide (P (exchange s.cell i (e - 1) k))) := by
          intro k hk hke j hj hje
          obtain ⟨k', hk', hke', heq⟩ := hmoved.exists_of_mem hk (show k < e by omega)
          dsimp only at heq
          rw [heq]
          exact hbelow k' hk' hke' j hj (by omega)
        obtain ⟨s', m, hs', him, hme, hsame, hleft, hright⟩ :=
          ih (s := { s with cell := exchange s.cell i (e - 1) }) hrest
            (Nat.le_sub_one_of_lt hlt) ((Nat.sub_le e 1).trans he) (by omega)
        refine ⟨s', m, ?_, him, by omega, hmoved.trans (hsame.mono le_rfl (Nat.sub_le e 1)), hleft,
          fun k hk hke => ?_⟩
        · simp only [hP, decide_false, Bool.false_eq_true, if_false, hswap, Option.bind_some, hs']
        · by_cases hlast : k = e - 1
          · rw [hsame.outside (Or.inr hlast.ge), hlast]
            dsimp only
            rwa [exchange_right]
          · exact hright k hk (by omega)
    · have heq : i = e := by omega
      rw [if_neg hlt]
      exact ⟨s, i, rfl, le_rfl, hie, .refl s, fun k hk hki => absurd hk (by omega),
        fun k hk hke => absurd hk (by omega)⟩

/-- A test of the place alone stops at the first place `p` that fails: what stands there goes to
the end, and what follows moves up by one, wherever it belongs. -/
theorem subdivide_place (hpass : ∀ j, i ≤ j → j < p → ∀ x, below j x = some true)
    (hfail : p < e → ∀ x, below p x = some false) (hip : i ≤ p) (hpe : p ≤ e) (he : e ≤ s.size)
    (hrounds : e - i < rounds) :
    ∃ s', subdivide below rounds s i e = some (s', p) ∧ Shuffled p e s s' ∧
      (p < e → s'.cell (e - 1) = s.cell p) ∧
      ∀ k, p ≤ k → k + 1 < e → s'.cell k = s.cell (k + 1) := by
  induction rounds generalizing s i e with
  | zero => exact absurd hrounds (Nat.not_lt_zero _)
  | succ rounds ih =>
    unfold subdivide
    by_cases hlt : i < e
    · rw [if_pos hlt, get_of_lt (hlt.trans_le he)]
      simp only [Option.bind_eq_bind, Option.bind_some]
      rcases hip.eq_or_lt with rfl | hip
      · have hswap := swap_of_lt (hlt.trans_le he) (show e - 1 < s.size by omega)
        obtain ⟨s', hs', hsame, hend, hup⟩ := ih
          (s := { s with cell := exchange s.cell i (e - 1) }) hpass (fun h => hfail hlt) le_rfl
          (Nat.le_sub_one_of_lt hlt) ((Nat.sub_le e 1).trans he) (by omega)
        refine ⟨s', ?_, .trans (shuffled_exchange le_rfl hlt (Nat.le_sub_one_of_lt hlt) (by omega))
          (hsame.mono le_rfl (Nat.sub_le e 1)), fun _ => ?_, fun k hk hke => ?_⟩
        · simp only [hfail hlt, Option.bind_some, Bool.false_eq_true, if_false, hswap, hs']
        · rw [hsame.outside (Or.inr le_rfl)]
          exact exchange_right
        · by_cases hlast : k + 1 < e - 1
          · rw [hup k hk hlast]
            exact exchange_of_ne (by omega) (by omega)
          · obtain rfl : k = e - 1 - 1 := by omega
            rw [hend (by omega), show e - 1 - 1 + 1 = e - 1 by omega]
            exact exchange_left
      · obtain ⟨s', hs', hsame, hmoved⟩ :=
          ih (fun j hj => hpass j (by omega)) hfail hip hpe he (by omega)
        refine ⟨s', ?_, hsame, hmoved⟩
        simp only [hpass i le_rfl hip, Option.bind_some, if_true, hs']
    · have heq : i = p := by omega
      rw [if_neg hlt, heq]
      exact ⟨s, rfl, .refl s, fun h => absurd h (by omega), fun k hk hke => absurd hk (by omega)⟩

end Sptag.Lib.Slots
