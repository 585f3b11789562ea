import Sptag.Lib.Heap

/-! Arrays whose accesses are checked, and the binary heap in such an array with its root in
cell 1: how a cell is moved down or up, without an access outside. -/

namespace Sptag.Lib

variable {α : Type*}

structure Slots (α : Type*) where
  size : Nat
  cell : Nat → α

namespace Slots

def get (s : Slots α) (i : Nat) : Option α := if i < s.size then some (s.cell i) else none

def set (s : Slots α) (i : Nat) (x : α) : Option (Slots α) :=
  if i < s.size then some { s with cell := Function.update s.cell i x } else none

def swap (s : Slots α) (i j : Nat) : Option (Slots α) := do
  let x ← s.get i
  let y ← s.get j
  let s ← s.set i y
  s.set j x

variable {s s' : Slots α} {i j n : Nat}

theorem get_of_lt (h : i < s.size) : s.get i = some (s.cell i) := if_pos h

theorem set_of_lt (h : i < s.size) (x : α) :
    s.set i x = some { s with cell := Function.update s.cell i x } := if_pos h

theorem update_update_eq_exchange (r : Nat → α) (i j : Nat) :
    Function.update (Function.update r i (r j)) j (r i) = exchange r i j := by
  funext k
  by_cases hkj : k = j
  · subst hkj
    rw [Function.update_self, exchange_right]
  · rw [Function.update_of_ne hkj]
    by_cases hki : k = i
    · subst hki
      rw [Function.update_self, exchange_left]
    · rw [Function.update_of_ne hki, exchange_of_ne hki hkj]

theorem exchange_update (r : Nat → α) (hij : j ≠ i) (x : α) :
    exchange (Function.update r i x) i j = Function.update (Function.update r i (r j)) j x := by
  rw [← update_update_eq_exchange, Function.update_self, Function.update_idem,
    Function.update_of_ne hij]

theorem swap_of_lt (hi : i < s.size) (hj : j < s.size) :
    s.swap i j = some { s with cell := exchange s.cell i j } := by
  simp only [swap, get, set, hi, hj, if_true, Option.bind_eq_bind, Option.bind_some,
    update_update_eq_exchange]

def nodes (s : Slots α) (i : Nat) : α := s.cell (i + 1)

theorem nodes_exchange : nodes { s with cell := exchange s.cell (i + 1) (j + 1) } =
    exchange s.nodes i j := by
  funext k
  have hinj : Function.Injective fun k : Nat => k + 1 := fun _ _ h => Nat.succ.inj h
  exact congrArg s.cell (hinj.swap_apply i j k)

theorem nodes_update (x : α) : nodes { s with cell := Function.update s.cell (i + 1) x } =
    Function.update s.nodes i x := by
  funext k
  by_cases hk : k = i
  · subst hk
    simp [nodes]
  · simp [nodes, hk]

structure Rearranged (n : Nat) (s s' : Slots α) : Prop where
  size : s'.size = s.size
  contents : contents s'.nodes n = contents s.nodes n
  above : ∀ i, n ≤ i → s'.nodes i = s.nodes i

theorem Rearranged.refl (s : Slots α) : Rearranged n s s := ⟨rfl, rfl, fun _ _ => rfl⟩

theorem Rearranged.trans {t : Slots α} (h : Rearranged n s s') (h' : Rearranged n s' t) :
    Rearranged n s t :=
  ⟨h'.size.trans h.size, h'.contents.trans h.contents, fun i hi =>
    (h'.above i hi).trans (h.above i hi)⟩

theorem rearranged_exchange (hi : i < n) (hj : j < n) :
    Rearranged n s { s with cell := exchange s.cell (i + 1) (j + 1) } where
  size := rfl
  contents := by rw [nodes_exchange, contents_exchange hi hj]
  above k hk := by
    rw [nodes_exchange, exchange_of_ne (hi.trans_le hk).ne' (hj.trans_le hk).ne']

section Sift

variable (less : α → α → Prop) [DecidableRel less]

def siftLast (count : Nat) (s : Slots α) (parent next : Nat) : Option (Slots α) :=
  if next = count then do
    let child ← s.get next
    let above ← s.get parent
    if less above child then s.swap parent next else return s
  else return s

/-- The cell `parent` goes down below its larger children; the first number bounds the rounds. -/
def siftDown (count : Nat) : Nat → Slots α → Nat → Nat → Option (Slots α)
  | 0, _, _, _ => none
  | rounds + 1, s, parent, next =>
    if next < count then do
      let left ← s.get next
      let right ← s.get (next + 1)
      let next := if less left right then next + 1 else next
      let child ← s.get next
      let above ← s.get parent
      if less above child then
        let s ← s.swap parent next
        siftDown count rounds s next (2 * next)
      else siftLast less count s parent next
    else siftLast less count s parent next

def siftUp (value : α) : Nat → Slots α → Nat → Option (Slots α)
  | 0, _, _ => none
  | rounds + 1, s, loc =>
    if 0 < loc / 2 then do
      let parent ← s.get (loc / 2)
      if less parent value then
        let s ← s.set loc parent
        siftUp value rounds s (loc / 2)
      else s.set loc value
    else s.set loc value

variable {less} {p rounds parent next : Nat}

theorem siftLast_of_not_less (h : ¬ less (s.cell parent) (s.cell next)) (hp : parent < s.size)
    (hn : next < s.size) : siftLast less n s parent next = some s := by
  unfold siftLast
  by_cases heq : next = n
  · rw [if_pos heq, get_of_lt hn, get_of_lt hp]
    exact if_neg h
  · exact if_neg heq

variable [LinearOrder α] (hless : ∀ a b, less a b ↔ a < b)
include hless

theorem siftLast_spec (h : Sifting s.nodes n p) (hone : ¬ 2 * p + 2 < n) (hn : n < s.size)
    (hp : p < n) : ∃ s', siftLast less n s (p + 1) (2 * p + 2) = some s' ∧ IsHeap s'.nodes n ∧
      Rearranged n s s' := by
  have hheap := h.last hone
  unfold siftLast
  by_cases heq : 2 * p + 2 = n
  · have hnext : 2 * p + 1 + 1 < s.size := heq.trans_lt hn
    have hparent : p + 1 < s.size := (Nat.succ_le_of_lt hp).trans_lt hn
    rw [if_pos heq]
    simp only [get, hnext, hparent, if_true, Option.bind_eq_bind, Option.bind_some, hless]
    by_cases hlt : s.nodes p < s.nodes (2 * p + 1)
    · rw [if_pos ⟨heq, hlt⟩, ← nodes_exchange] at hheap
      exact ⟨_, (if_pos hlt).trans (swap_of_lt hparent hnext), hheap,
        rearranged_exchange hp (heq ▸ Nat.lt_succ_self _)⟩
    · rw [if_neg fun h => hlt h.2] at hheap
      exact ⟨s, if_neg hlt, hheap, .refl s⟩
  · rw [if_neg heq]
    rw [if_neg fun h => heq h.1] at hheap
    exact ⟨s, rfl, hheap, .refl s⟩

theorem siftDown_spec (h : Sifting s.nodes n p) (hn : n < s.size) (hp : p < n)
    (hrounds : n - p ≤ rounds) : ∃ s', siftDown less n rounds s (p + 1) (2 * p + 2) = some s' ∧
      IsHeap s'.nodes n ∧ Rearranged n s s' := by
  induction rounds generalizing s p with
  | zero => exact absurd hp (by omega)
  | succ rounds ih =>
    unfold siftDown
    by_cases hboth : 2 * p + 2 < n
    · have hleft : 2 * p + 2 < s.size := hboth.trans hn
      have hright : 2 * p + 2 + 1 < s.size := (Nat.succ_le_of_lt hboth).trans_lt hn
      have hparent : p + 1 < s.size := (Nat.succ_le_of_lt hp).trans_lt hn
      obtain ⟨c, hc, hchild, hcn, hmax⟩ := larger_child s.nodes hboth
      have hnext : (if less (s.cell (2 * p + 2)) (s.cell (2 * p + 2 + 1)) then 2 * p + 2 + 1
          else 2 * p + 2) = c + 1 := by
        rw [← hc, if_congr (hless (s.cell (2 * p + 2)) (s.cell (2 * p + 2 + 1))) rfl rfl]
        exact (apply_ite Nat.succ _ _ _).symm
      have hcsize : c + 1 < s.size := (Nat.succ_le_of_lt hcn).trans_lt hn
      rw [if_pos hboth]
      simp only [get, hleft, hright, hparent, if_true, Option.bind_eq_bind, Option.bind_some, hnext,
        hcsize]
      by_cases hlt : s.nodes p < s.nodes c
      · rw [if_pos ((hless (s.cell (p + 1)) (s.cell (c + 1))).mpr hlt), swap_of_lt hparent hcsize,
          Option.bind_some]
        have hdown := h.down hchild hcn hlt.le hmax
        rw [← nodes_exchange] at hdown
        have hpc := hchild.lt
        obtain ⟨s', hs', hheap, hsame⟩ := ih hdown hn hcn (by omega)
        exact ⟨s', hs', hheap, (rearranged_exchange hp hcn).trans hsame⟩
      · rw [if_neg (mt (hless (s.cell (p + 1)) (s.cell (c + 1))).mp hlt),
          siftLast_of_not_less (mt (hless (s.cell (p + 1)) (s.cell (c + 1))).mp hlt) hparent hcsize]
        exact ⟨s, rfl, h.stop fun d hd hdn => (hmax d hd hdn).trans (not_lt.mp hlt), .refl s⟩
    · rw [if_neg hboth]
      exact siftLast_spec hless h hboth hn hp

theorem siftDown_root (h : Sifting s.nodes n 0) (hn : n < s.size) (hrounds : n < rounds) :
    ∃ s', siftDown less n rounds s 1 2 = some s' ∧ IsHeap s'.nodes n ∧ Rearranged n s s' := by
  rcases n.eq_zero_or_pos with rfl | hpos
  · obtain ⟨rounds, rfl⟩ := Nat.exists_eq_add_one_of_ne_zero hrounds.ne'
    exact ⟨s, rfl, fun _ c _ hc => absurd hc (Nat.not_lt_zero c), .refl s⟩
  · exact siftDown_spec hless h hn hpos hrounds.le

theorem siftUp_spec {value : α} (h : Rising (Function.update s.nodes p value) n p)
    (hn : n < s.size) (hp : p < n) (hrounds : p < rounds) :
    ∃ s', siftUp less value rounds s (p + 1) = some s' ∧ IsHeap s'.nodes n ∧
      Rearranged n { s with cell := Function.update s.cell (p + 1) value } s' := by
  induction rounds generalizing s p with
  | zero => exact absurd hrounds (Nat.not_lt_zero p)
  | succ rounds ih =>
    have hloc : p + 1 < s.size := (Nat.succ_le_of_lt hp).trans_lt hn
    have hplaced : (∀ q, IsChild p q → value ≤ s.nodes q) → ∃ s', s.set (p + 1) value = some s' ∧
        IsHeap s'.nodes n ∧
        Rearranged n { s with cell := Function.update s.cell (p + 1) value } s' := by
      intro hle
      refine ⟨_, set_of_lt hloc value, ?_, .refl _⟩
      rw [nodes_update]
      refine h.stop fun q hq => ?_
      rw [Function.update_self, Function.update_of_ne hq.lt.ne]
      exact hle q hq
    unfold siftUp
    by_cases hroot : 0 < (p + 1) / 2
    · obtain ⟨q, hq⟩ : ∃ q, (p + 1) / 2 = q + 1 := Nat.exists_eq_add_one_of_ne_zero hroot.ne'
      have hchild : IsChild p q := by
        unfold IsChild
        omega
      have hparent : q + 1 < s.size := (Nat.succ_lt_succ hchild.lt).trans hloc
      rw [if_pos hroot, hq, get_of_lt hparent]
      simp only [Option.bind_eq_bind, Option.bind_some]
      by_cases hlt : s.nodes q < value
      · rw [if_pos ((hless (s.cell (q + 1)) value).mpr hlt), set_of_lt hloc, Option.bind_some]
        have hle : Function.update s.nodes p value q ≤ Function.update s.nodes p value p := by
          rw [Function.update_self, Function.update_of_ne hchild.lt.ne]
          exact hlt.le
        have hup := h.up hchild hle
        rw [exchange_update _ hchild.lt.ne] at hup
        rw [← nodes_update] at hup
        have hqr : q < rounds := hchild.lt.trans_le (Nat.le_of_lt_succ hrounds)
        obtain ⟨s', hs', hheap, hsame⟩ := ih hup hn (hchild.lt.trans hp) hqr
        have hcells := exchange_update s.cell (Nat.succ_lt_succ hchild.lt).ne value
        have hmoved := rearranged_exchange hp (hchild.lt.trans hp)
          (s := { s with cell := Function.update s.cell (p + 1) value })
        exact ⟨s', hs', hheap, .trans (hcells ▸ hmoved) hsame⟩
      · rw [if_neg (mt (hless (s.cell (q + 1)) value).mp hlt)]
        refine hplaced fun q' hq' => ?_
        rw [hq'.parent_eq hchild]
        exact not_lt.mp hlt
    · rw [if_neg hroot]
      refine hplaced fun q hq => ?_
      unfold IsChild at hq
      omega

end Sift

structure Shifted (p q : Nat) (x : α) (s s' : Slots α) : Prop where
  size : s'.size = s.size
  before : ∀ k < p, s'.cell k = s.cell k
  here : s'.cell p = x
  moved : ∀ k, p < k → k ≤ q → s'.cell k = s.cell (k - 1)
  behind : ∀ k, q < k → s'.cell k = s.cell k

variable {p q : Nat} {x : α}

theorem shifted_set (p : Nat) (x : α) (s : Slots α) :
    Shifted p p x s { s with cell := Function.update s.cell p x } where
  size := rfl
  before _ hk := Function.update_of_ne hk.ne ..
  here := Function.update_self ..
  moved _ hk hkp := absurd hk hkp.not_gt
  behind _ hk := Function.update_of_ne hk.ne' ..

theorem Shifted.step (h : Shifted p q x s s') (hpq : p ≤ q) : Shifted p (q + 1) x s
    { s' with cell := Function.update s'.cell (q + 1) (s.cell q) } where
  size := h.size
  before k hk := (Function.update_of_ne (by omega) ..).trans (h.before k hk)
  here := (Function.update_of_ne (by omega) ..).trans h.here
  moved k hk hkq := by
    dsimp only
    rcases hkq.eq_or_lt with rfl | hkq
    · exact Function.update_self ..
    · rw [Function.update_of_ne hkq.ne, h.moved k hk (Nat.le_of_lt_succ hkq)]
  behind k hk := (Function.update_of_ne (by omega) ..).trans (h.behind k (by omega))

theorem Shifted.cases (h : Shifted p q x s s') (k : Nat) : (k = p ∧ s'.cell k = x) ∨
    ∃ j, s'.cell k = s.cell j ∧ (k < p ∧ j = k ∨ p < k ∧ k ≤ q ∧ j + 1 = k ∨ q < k ∧ j = k) := by
  rcases lt_trichotomy k p with hk | rfl | hk
  · exact .inr ⟨k, h.before k hk, .inl ⟨hk, rfl⟩⟩
  · exact .inl ⟨rfl, h.here⟩
  · by_cases hkq : k ≤ q
    · exact .inr ⟨k - 1, h.moved k hk hkq, .inr (.inl ⟨hk, hkq, Nat.sub_add_cancel (by omega)⟩)⟩
    · exact .inr ⟨k, h.behind k (by omega), .inr (.inr ⟨by omega, rfl⟩)⟩

theorem Shifted.exists_cell (h : Shifted p q x s s') {j : Nat} (hj : j ≠ q) :
    ∃ k, s'.cell k = s.cell j ∧ (k = j ∨ k = j + 1 ∧ j < q) := by
  by_cases hjp : j < p
  · exact ⟨j, h.before j hjp, .inl rfl⟩
  · by_cases hjq : j < q
    · exact ⟨j + 1, h.moved (j + 1) (by omega) hjq, .inr ⟨rfl, hjq⟩⟩
    · exact ⟨j, h.behind j (by omega), .inl rfl⟩

theorem Shifted.ordered {r : α → α → Prop} {count : Nat} (h : Shifted p q x s s')
    (hr : ∀ j k, j < k → k < count → r (s.cell j) (s.cell k)) (hpq : p ≤ q)
    (hq : q ≤ count) (hbefore : ∀ j < p, r (s.cell j) x)
    (hbehind : ∀ k, p ≤ k → k < count → r x (s.cell k))
    {j k : Nat} (hjk : j < k) (hk : k < max count (q + 1)) : r (s'.cell j) (s'.cell k) := by
  rcases h.cases j with ⟨hjp, hj⟩ | ⟨j', hj, hj'⟩
  · rcases h.cases k with ⟨hkp, -⟩ | ⟨k', hk', hk''⟩
    · exact absurd hjk (by omega)
    · rw [hj, hk']
      exact hbehind k' (by omega) (by omega)
  · rcases h.cases k with ⟨hkp, hk'⟩ | ⟨k', hk', hk''⟩
    · rw [hj, hk']
      exact hbefore j' (by omega)
    · rw [hj, hk']
      exact hr j' k' (by omega) (by omega)

end Slots

end Sptag.Lib
