import Mathlib

/-! Trees whose nodes are numbers: the children of a node are those of a range. -/

namespace Sptag.Lib

def children (bounds : Nat → Nat × Nat) (k : Nat) : List Nat :=
  List.range' (bounds k).1 ((bounds k).2 - (bounds k).1)

theorem range'_append_sub {a m b : Nat} (ham : a ≤ m) (hmb : m ≤ b) :
    List.range' a (m - a) ++ List.range' m (b - m) = List.range' a (b - a) := by
  obtain ⟨k, rfl⟩ := Nat.exists_eq_add_of_le ham
  obtain ⟨l, rfl⟩ := Nat.exists_eq_add_of_le hmb
  rw [Nat.add_sub_cancel_left, Nat.add_sub_cancel_left, List.range'_append_1, Nat.add_assoc,
    Nat.add_sub_cancel_left]

theorem range'_sub_cons {a b : Nat} (hab : a < b) :
    List.range' a (b - a) = a :: List.range' (a + 1) (b - (a + 1)) := by
  rw [← range'_append_sub (Nat.le_succ a) hab, Nat.succ_sub (le_refl a), Nat.sub_self,
    List.range'_one, List.singleton_append]

/-- The nodes reached from those from `a` up to `b`, each before the nodes below it. -/
inductive Reaches (bounds : Nat → Nat × Nat) : Nat → Nat → List Nat → Prop
  | nil {a b : Nat} (h : b ≤ a) : Reaches bounds a b []
  | cons {a b : Nat} {nodes nodes' : List Nat} (lt : a < b) (after : ∀ c ∈ children bounds a, a < c)
      (below : Reaches bounds (bounds a).1 (bounds a).2 nodes)
      (rest : Reaches bounds (a + 1) b nodes') :
      Reaches bounds a b (a :: (nodes ++ nodes'))

namespace Reaches

variable {bounds bounds' : Nat → Nat × Nat} {a b m : Nat} {nodes nodes' : List Nat}

theorem congr (h : Reaches bounds a b nodes) (heq : ∀ k ∈ nodes, bounds' k = bounds k) :
    Reaches bounds' a b nodes := by
  induction h with
  | nil h => exact .nil h
  | cons lt after below rest ihbelow ihrest =>
    have ha := heq _ List.mem_cons_self
    refine .cons lt (fun c hc => after c ?_) ?_ (ihrest fun k hk => heq k ?_)
    · rwa [children, ha] at hc
    · rw [ha]
      exact ihbelow fun k hk => heq k (List.mem_cons_of_mem _ (List.mem_append_left _ hk))
    · exact List.mem_cons_of_mem _ (List.mem_append_right _ hk)

theorem append (h : Reaches bounds a m nodes) (h' : Reaches bounds m b nodes') (ham : a ≤ m)
    (hmb : m ≤ b) : Reaches bounds a b (nodes ++ nodes') := by
  induction h with
  | nil h => exact ham.antisymm h ▸ h'
  | cons lt after below rest _ ihrest =>
    rw [List.cons_append, List.append_assoc]
    exact .cons (lt.trans_le hmb) after below (ihrest h' lt hmb)

theorem leaves (h : ∀ k, a ≤ k → k < b → (bounds k).2 ≤ (bounds k).1) :
    Reaches bounds a b (List.range' a (b - a)) := by
  obtain hab | ⟨n, rfl⟩ : b ≤ a ∨ ∃ n, b = a + n := by
    rcases le_total b a with hab | hab
    · exact .inl hab
    · exact .inr (Nat.exists_eq_add_of_le hab)
  · rw [Nat.sub_eq_zero_of_le hab]
    exact .nil hab
  · rw [Nat.add_sub_cancel_left]
    induction n generalizing a with
    | zero => exact .nil le_rfl
    | succ n ih =>
      have ha := h a le_rfl (by omega)
      have hrest := ih (a := a + 1) fun k hk hk' => h k (by omega) (by omega)
      have hchildren : children bounds a = [] := by
        rw [children, Nat.sub_eq_zero_of_le ha, List.range'_zero]
      rw [Nat.add_right_comm] at hrest
      exact Reaches.cons (by omega) (fun c hc => absurd (hchildren ▸ hc) List.not_mem_nil) (.nil ha)
        hrest

theorem one (after : ∀ c ∈ children bounds a, a < c)
    (below : Reaches bounds (bounds a).1 (bounds a).2 nodes) :
    Reaches bounds a (a + 1) (a :: nodes) := by
  have h := Reaches.cons (Nat.lt_succ_self a) after below (.nil le_rfl)
  rwa [List.append_nil] at h

theorem perm (h : Reaches bounds a b nodes) :
    nodes.Perm (List.range' a (b - a) ++ nodes.flatMap (children bounds)) := by
  induction h with
  | nil h => simp [Nat.sub_eq_zero_of_le h]
  | @cons a b nodes nodes' lt after below rest ihbelow ihrest =>
    rw [range'_sub_cons lt, List.flatMap_cons, List.flatMap_append, List.cons_append]
    refine List.Perm.cons a ((ihbelow.append ihrest).trans ?_)
    simp only [← Multiset.coe_eq_coe, ← Multiset.coe_add, children]
    abel

theorem after_mem (h : Reaches bounds a b nodes) {k c : Nat} (hk : k ∈ nodes)
    (hc : c ∈ children bounds k) : k < c ∧ c ∈ nodes := by
  refine ⟨?_, h.perm.mem_iff.mpr (List.mem_append_right _ (List.mem_flatMap.mpr ⟨k, hk, hc⟩))⟩
  induction h with
  | nil _ => exact absurd hk List.not_mem_nil
  | cons _ after _ _ ihbelow ihrest =>
    rcases List.mem_cons.mp hk with rfl | hk
    · exact after c hc
    · rcases List.mem_append.mp hk with hk | hk
      · exact ihbelow hk
      · exact ihrest hk

theorem disjoint (h : Reaches bounds a b nodes) (hnodup : nodes.Nodup) {k l : Nat} (hk : k ∈ nodes)
    (hl : l ∈ nodes) (hkl : k ≠ l) : (children bounds k).Disjoint (children bounds l) := by
  have hflat := (List.nodup_append.mp (h.perm.nodup_iff.mp hnodup)).2.1
  have hpair := (List.nodup_flatMap.mp hflat).2
  have hsymm : Std.Symm (Function.onFun List.Disjoint (children bounds)) := ⟨fun _ _ h => h.symm⟩
  exact hpair.forall hk hl hkl

end Reaches

def descend (bounds : Nat → Nat × Nat) : Nat → Nat → List Nat
  | 0, _ => []
  | depth + 1, k => k :: (children bounds k).flatMap (descend bounds depth)

def Downward (bounds : Nat → Nat × Nat) (size : Nat) : Prop :=
  ∀ k < size, ∀ c ∈ children bounds k, k < c ∧ c < size

def subtree (bounds : Nat → Nat × Nat) (size k : Nat) : List Nat := descend bounds (size - k) k

variable {bounds bounds' : Nat → Nat × Nat} {size a b k : Nat} {nodes : List Nat}

theorem descend_congr (h : Downward bounds size) {depth depth' : Nat} (hk : k < size)
    (hdepth : size - k ≤ depth) (hdepth' : size - k ≤ depth') :
    descend bounds depth k = descend bounds depth' k := by
  induction depth generalizing k depth' with
  | zero => exact absurd hk (by omega)
  | succ depth ih =>
    obtain ⟨depth', rfl⟩ := Nat.exists_eq_add_one_of_ne_zero (show depth' ≠ 0 by omega)
    refine congrArg _ (List.flatMap_congr fun c hc => ?_)
    obtain ⟨hlt, hsize⟩ := h k hk c hc
    exact ih hsize (by omega) (by omega)

theorem subtree_eq (h : Downward bounds size) (hk : k < size) :
    subtree bounds size k = k :: (children bounds k).flatMap (subtree bounds size) := by
  obtain ⟨d, hd⟩ := Nat.exists_eq_add_of_lt hk
  rw [subtree, show size - k = d + 1 by omega, descend]
  refine congrArg _ (List.flatMap_congr fun c hc => ?_)
  obtain ⟨hlt, hsize⟩ := h k hk c hc
  exact descend_congr h hsize (by omega) le_rfl

theorem Reaches.eq_flatMap (hr : Reaches bounds a b nodes) (h : Downward bounds size)
    (hsize : ∀ k, a ≤ k → k < b → k < size) :
    nodes = (List.range' a (b - a)).flatMap (subtree bounds size) := by
  induction hr with
  | nil hba => rw [Nat.sub_eq_zero_of_le hba, List.range'_zero, List.flatMap_nil]
  | @cons a b nodes nodes' lt after below rest ihbelow ihrest =>
    have ha := hsize a le_rfl lt
    rw [range'_sub_cons lt, List.flatMap_cons, subtree_eq h ha, List.cons_append,
      ← ihrest fun k hk hkb => hsize k (Nat.le_of_succ_le hk) hkb]
    refine congrArg (a :: · ++ nodes') (ihbelow fun k hk hkb => (h a ha k ?_).2)
    rw [children, List.mem_range'_1]
    omega

theorem subtree_congr (h : Downward bounds size)
    (heq : ∀ k < size, children bounds' k = children bounds k) (hk : k < size) :
    subtree bounds' size k = subtree bounds size k := by
  have hdescend : ∀ depth k, k < size → descend bounds' depth k = descend bounds depth k := by
    intro depth
    induction depth with
    | zero => exact fun k _ => rfl
    | succ depth ih =>
      intro k hk
      rw [descend, descend, heq k hk]
      exact congrArg _ (List.flatMap_congr fun c hc => ih c (h k hk c hc).2)
  exact hdescend _ k hk

end Sptag.Lib
