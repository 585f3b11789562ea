import Sptag.Lib.Buckets

/-! `inc/Core/Common/BKTree.h`: how a range of samples is put in place into one segment for each
cluster. -/

namespace Sptag.COMMON

open Lib Slots

structure KmeansArgs where
  _K : Nat
  counts : Slots Nat
  newCounts : Slots Nat
  label : Slots Nat
  clusterIdx : Slots Int

namespace KmeansArgs

section Source

def positions (args : KmeansArgs) (new : Nat → Nat) (first : Nat) : Option (Slots Nat) := do
  let pos ← Slots.set ⟨args._K, new⟩ 0 first
  (List.range' 1 (args._K - 1)).foldlM (fun pos k => do
    let before ← Slots.get pos (k - 1)
    let count ← args.newCounts.get (k - 1)
    Slots.set pos k (before + count)) pos

/-- What stands at `i` goes to its segment until the segment `k` is full; the first number bounds
the rounds. -/
def fill (pos : Slots Nat) (k i : Nat) :
    Nat → KmeansArgs → Slots Int → Option (KmeansArgs × Slots Int)
  | 0, _, _ => none
  | rounds + 1, args, indices => do
    let left ← args.newCounts.get k
    if 0 < left then do
      let l ← args.label.get i
      let place ← pos.get l
      let count ← args.newCounts.get l
      -- a count that goes below zero counts as an access out of range
      if count = 0 then none else do
        let swapid := place + count - 1
        let newCounts ← args.newCounts.set l (count - 1)
        let indices ← indices.swap i swapid
        let label ← args.label.swap i swapid
        fill pos k i rounds { args with newCounts := newCounts, label := label } indices
    else return (args, indices)

def seek (args : KmeansArgs) (indices : Slots Int) (k : Nat) : Nat → Nat → Option Nat
  | 0, _ => none
  | rounds + 1, i => do
    let id ← indices.get i
    let center ← args.clusterIdx.get k
    if id ≠ center then seek args indices k rounds (i + 1) else return i

def shuffleCluster (pos : Slots Nat) (rounds : Nat) (s : KmeansArgs × Slots Int) (k : Nat) :
    Option (KmeansArgs × Slots Int) := do
  let count ← s.1.counts.get k
  if count = 0 then return s
  else do
    let i ← pos.get k
    let (args, indices) ← fill pos k i rounds s.1 s.2
    let i ← seek args indices k rounds i
    let place ← pos.get k
    let indices ← indices.swap i (place + count - 1)
    return (args, indices)

def shuffle (rounds : Nat) (new : Nat → Nat) (args : KmeansArgs) (indices : Slots Int)
    (first : Nat) : Option (KmeansArgs × Slots Int) := do
  let pos ← args.positions new first
  (List.range args._K).foldlM (shuffleCluster pos rounds) (args, indices)

end Source

/-- The range has distinct ids with labels below `_K`, both counts are those of the labels, and
each cluster that is not empty has one of its ids as its centre. -/
structure Labelled (args : KmeansArgs) (indices : Slots Int) (first last : Nat) : Prop where
  _K : 0 < args._K
  size_counts : args._K ≤ args.counts.size
  size_newCounts : args._K ≤ args.newCounts.size
  size_clusterIdx : args._K ≤ args.clusterIdx.size
  size_label : last ≤ args.label.size
  size_indices : last ≤ indices.size
  first_le : first ≤ last
  nodup : (indices.range first last).Nodup
  label_lt : ∀ p, first ≤ p → p < last → args.label.cell p < args._K
  counts : ∀ k < args._K, args.counts.cell k = (args.label.range first last).count k
  newCounts : ∀ k < args._K, args.newCounts.cell k = (args.label.range first last).count k
  clusterIdx : ∀ k < args._K, args.counts.cell k ≠ 0 → ∃ p, first ≤ p ∧ p < last ∧
    args.label.cell p = k ∧ indices.cell p = args.clusterIdx.cell k

structure Shuffling (args : KmeansArgs) (indices : Slots Int) (first last k : Nat)
    (s : KmeansArgs × Slots Int) : Prop where
  counts : s.1.counts = args.counts
  clusterIdx : s.1.clusterIdx = args.clusterIdx
  size_newCounts : s.1.newCounts.size = args.newCounts.size
  size_label : s.1.label.size = args.label.size
  filling : Filling args._K first args.counts.cell s.1.newCounts.cell s.1.label
  shuffled : Shuffled first last indices s.2
  labelled : ∀ p, first ≤ p → p < last → ∃ q, first ≤ q ∧ q < last ∧
    s.2.cell p = indices.cell q ∧ s.1.label.cell p = args.label.cell q
  full : ∀ c < k, s.1.newCounts.cell c = 0
  center : ∀ c < k, args.counts.cell c ≠ 0 →
    s.2.cell (start args.counts.cell first (c + 1) - 1) = args.clusterIdx.cell c

variable {args : KmeansArgs} {indices : Slots Int} {first last k rounds : Nat}
  {s : KmeansArgs × Slots Int} {pos : Slots Nat}

theorem Labelled.newCounts_eq (h : Labelled args indices first last) (hk : k < args._K) :
    args.newCounts.cell k = args.counts.cell k := by
  rw [h.newCounts k hk, h.counts k hk]

theorem Labelled.start_eq (h : Labelled args indices first last) :
    start args.counts.cell first args._K = last :=
  (filling_init h.first_le h.label_lt h.counts).1

theorem Labelled.inj (h : Labelled args indices first last) {p q : Nat} (hp : first ≤ p)
    (hp' : p < last) (hq : first ≤ q) (hq' : q < last) (heq : indices.cell p = indices.cell q) :
    p = q :=
  List.inj_on_of_nodup_map h.nodup (List.mem_range'_1.mpr (by omega))
    (List.mem_range'_1.mpr (by omega)) heq

theorem Labelled.shuffling (h : Labelled args indices first last) :
    Shuffling args indices first last 0 (args, indices) where
  counts := rfl
  clusterIdx := rfl
  size_newCounts := rfl
  size_label := rfl
  filling := by
    have hfilling := (filling_init h.first_le h.label_lt h.counts).2
    exact ⟨hfilling.label_lt, hfilling.total, fun c hc => (h.newCounts_eq hc).le,
      fun c hc p hp => hfilling.filled c hc p (h.newCounts_eq hc ▸ hp)⟩
  shuffled := .refl _
  labelled p hp hp' := ⟨p, hp, hp', rfl, rfl⟩
  full _ hc := absurd hc (Nat.not_lt_zero _)
  center _ hc := absurd hc (Nat.not_lt_zero _)

structure IsPositions (args : KmeansArgs) (first : Nat) (pos : Slots Nat) : Prop where
  size : pos.size = args._K
  cell : ∀ k < args._K, pos.cell k = start args.counts.cell first k

theorem positions_spec (h : Labelled args indices first last) (new : Nat → Nat) :
    ∃ pos, args.positions new first = some pos ∧ IsPositions args first pos := by
  have hrun : ∀ n < args._K, ∃ pos : Slots Nat,
      (List.range' 1 n).foldlM (fun pos k => do
        let before ← Slots.get pos (k - 1)
        let count ← args.newCounts.get (k - 1)
        Slots.set pos k (before + count)) ⟨args._K, Function.update new 0 first⟩ = some pos ∧
      pos.size = args._K ∧ ∀ k ≤ n, pos.cell k = start args.counts.cell first k := by
    intro n hn
    induction n with
    | zero =>
      refine ⟨_, rfl, rfl, fun k hk => ?_⟩
      obtain rfl := Nat.le_zero.mp hk
      exact Function.update_self 0 first new
    | succ n ih =>
      obtain ⟨pos, hpos, hsize, hcell⟩ := ih (Nat.lt_of_succ_lt hn)
      have hcount : n < args.newCounts.size := (Nat.lt_of_succ_lt hn).trans_le h.size_newCounts
      obtain ⟨x, hx⟩ : ∃ x, x = start args.counts.cell first n + args.newCounts.cell n := ⟨_, rfl⟩
      refine ⟨{ pos with cell := Function.update pos.cell (n + 1) x }, ?_, hsize, fun k hk => ?_⟩
      · rw [List.range'_1_concat, List.foldlM_append, hpos, Nat.add_comm 1 n]
        simp only [List.foldlM_cons, List.foldlM_nil, Option.bind_eq_bind, Option.bind_some,
          Nat.add_sub_cancel, get_of_lt (hsize ▸ Nat.lt_of_succ_lt hn), get_of_lt hcount,
          hcell n le_rfl, ← hx, set_of_lt (hsize ▸ hn)]
        rfl
      · dsimp only
        rcases hk.eq_or_lt with rfl | hk
        · rw [Function.update_self, start_succ, hx, h.newCounts_eq (Nat.lt_of_succ_lt hn)]
        · rw [Function.update_of_ne hk.ne, hcell k (Nat.le_of_lt_succ hk)]
  have hK := h._K
  obtain ⟨pos, hpos, hsize, hcell⟩ := hrun (args._K - 1) (Nat.sub_one_lt hK.ne')
  refine ⟨pos, ?_, hsize, fun k hk => hcell k (Nat.le_sub_one_of_lt hk)⟩
  rw [positions, set_of_lt h._K]
  exact hpos

theorem Labelled.place_lt (h : Labelled args indices first last) (hk : k < args._K) {p : Nat}
    (hp : InSegment args.counts.cell first k p) : first ≤ p ∧ p < last :=
  ⟨hp.first_le, (hp.lt_start hk).trans_eq h.start_eq⟩

structure Exchanges (args : KmeansArgs) (first last k l q : Nat) (s : KmeansArgs × Slots Int) :
    Prop where
  label : s.1.label.cell (start args.counts.cell first k) = l
  left : start args.counts.cell first l + s.1.newCounts.cell l - 1 = q
  label_lt : l < args._K
  left_pos : 0 < s.1.newCounts.cell l
  here : InSegment args.counts.cell first k (start args.counts.cell first k)
  there : InSegment args.counts.cell first l q

theorem Shuffling.exchanges (hk : k < args._K)
    (hs : Shuffling args indices first last k s) (hleft : 0 < s.1.newCounts.cell k) :
    ∃ l q, Exchanges args first last k l q s := by
  have hin := hs.filling.start_inSegment hk hleft
  have hl := hs.filling.label_lt _ hin.first_le (hin.lt_start hk)
  have hpos := hs.filling.left_pos hk hleft
  exact ⟨_, _, rfl, rfl, hl, hpos, hin, hs.filling.last_inSegment hl hpos⟩

theorem Shuffling.place (h : Labelled args indices first last) (hk : k < args._K)
    (hs : Shuffling args indices first last k s) (hleft : 0 < s.1.newCounts.cell k) {l q : Nat}
    (he : Exchanges args first last k l q s) :
    Shuffling args indices first last k
      ({ s.1 with
          newCounts.cell := Function.update s.1.newCounts.cell l (s.1.newCounts.cell l - 1)
          label.cell := exchange s.1.label.cell (start args.counts.cell first k) q },
        { s.2 with cell := exchange s.2.cell (start args.counts.cell first k) q }) where
  counts := hs.counts
  clusterIdx := hs.clusterIdx
  size_newCounts := hs.size_newCounts
  size_label := hs.size_label
  filling := hs.filling.place hk hleft he.label he.left
  shuffled := by
    obtain ⟨hi, hi'⟩ := h.place_lt hk he.here
    obtain ⟨hq, hq'⟩ := h.place_lt he.label_lt he.there
    exact hs.shuffled.trans (shuffled_exchange hi hi' hq hq')
  labelled p hp hp' := by
    obtain ⟨hi, hi'⟩ := h.place_lt hk he.here
    obtain ⟨hq, hq'⟩ := h.place_lt he.label_lt he.there
    have hswap : first ≤ Equiv.swap (start args.counts.cell first k) q p ∧
        Equiv.swap (start args.counts.cell first k) q p < last := by
      rw [Equiv.swap_apply_def]
      split_ifs
      · exact ⟨hq, hq'⟩
      · exact ⟨hi, hi'⟩
      · exact ⟨hp, hp'⟩
    exact hs.labelled _ hswap.1 hswap.2
  full c hc := by
    have hne : c ≠ l := by
      rintro rfl
      exact he.left_pos.ne' (hs.full c hc)
    exact (Function.update_of_ne hne ..).trans (hs.full c hc)
  center c hc hcount := by
    have hlast : InSegment args.counts.cell first c _ := .last_of_pos (Nat.pos_of_ne_zero hcount)
    have hne : start args.counts.cell first (c + 1) - 1 ≠ start args.counts.cell first
      k := fun heq =>
      hc.ne ((heq ▸ hlast).unique he.here)
    have hne' : start args.counts.cell first (c + 1) - 1 ≠ q := by
      intro heq
      obtain rfl := (heq ▸ hlast).unique he.there
      exact he.left_pos.ne' (hs.full c hc)
    exact (exchange_of_ne hne hne').trans (hs.center c hc hcount)

def left (K : Nat) (args : KmeansArgs) : Nat := ∑ c ∈ Finset.range K, args.newCounts.cell c

theorem fill_spec (h : Labelled args indices first last) (hpos : IsPositions args first pos)
    (hk : k < args._K) (hs : Shuffling args indices first last k s)
    (hrounds : left args._K s.1 < rounds) :
    ∃ s', fill pos k (start args.counts.cell first k) rounds s.1 s.2 = some s' ∧
      Shuffling args indices first last k s' ∧ s'.1.newCounts.cell k = 0 := by
  induction rounds generalizing s with
  | zero => exact absurd hrounds (Nat.not_lt_zero _)
  | succ rounds ih =>
    have hsize : ∀ c < args._K, c < s.1.newCounts.size := fun c hc =>
      hs.size_newCounts ▸ hc.trans_le h.size_newCounts
    unfold fill
    rw [get_of_lt (hsize k hk)]
    simp only [Option.bind_eq_bind, Option.bind_some]
    by_cases hleft : 0 < s.1.newCounts.cell k
    · obtain ⟨l, q, he⟩ := hs.exchanges hk hleft
      obtain ⟨-, hi⟩ := h.place_lt hk he.here
      obtain ⟨-, hq⟩ := h.place_lt he.label_lt he.there
      have hlabel : last ≤ s.1.label.size := hs.size_label ▸ h.size_label
      have hindices : last ≤ s.2.size := hs.shuffled.size ▸ h.size_indices
      rw [if_pos hleft, get_of_lt (hi.trans_le hlabel), Option.bind_some, he.label,
        get_of_lt (hpos.size ▸ he.label_lt), Option.bind_some, hpos.cell l he.label_lt,
        get_of_lt (hsize l he.label_lt), Option.bind_some, if_neg he.left_pos.ne', he.left,
        set_of_lt (hsize l he.label_lt), Option.bind_some,
        swap_of_lt (hi.trans_le hindices) (hq.trans_le hindices), Option.bind_some,
        swap_of_lt (hi.trans_le hlabel) (hq.trans_le hlabel), Option.bind_some]
      refine ih (hs.place h hk hleft he) (Nat.lt_of_lt_of_le ?_ (Nat.le_of_lt_succ hrounds))
      refine Finset.sum_lt_sum (fun c _ => ?_) ⟨l, Finset.mem_range.mpr he.label_lt, ?_⟩
      · exact update_le_self_iff.mpr (Nat.sub_le ..) c
      · dsimp only
        rw [Function.update_self]
        exact Nat.sub_one_lt he.left_pos.ne'
    · rw [if_neg hleft]
      exact ⟨s, rfl, hs, Nat.eq_zero_of_not_pos hleft⟩

theorem seek_spec {i p : Nat} (hk : k < args.clusterIdx.size) (hip : i ≤ p) (hp : p < indices.size)
    (heq : indices.cell p = args.clusterIdx.cell k) (hrounds : p - i < rounds) :
    ∃ q, seek args indices k rounds i = some q ∧ i ≤ q ∧ q ≤ p ∧
      indices.cell q = args.clusterIdx.cell k := by
  induction rounds generalizing i with
  | zero => exact absurd hrounds (Nat.not_lt_zero _)
  | succ rounds ih =>
    unfold seek
    rw [get_of_lt (hip.trans_lt hp), get_of_lt hk]
    simp only [Option.bind_eq_bind, Option.bind_some]
    by_cases hi : indices.cell i = args.clusterIdx.cell k
    · rw [if_neg (not_not.mpr hi)]
      exact ⟨i, rfl, le_rfl, hip, hi⟩
    · have hlt : i < p := hip.lt_of_ne fun h => hi (h ▸ heq)
      rw [if_pos hi]
      obtain ⟨q, hq, hiq, hqp, hcenter⟩ := ih hlt (by omega)
      exact ⟨q, hq, (Nat.le_succ i).trans hiq, hqp, hcenter⟩

theorem Shuffling.exists_center (h : Labelled args indices first last) (hk : k < args._K)
    (hs : Shuffling args indices first last k s) (hfull : s.1.newCounts.cell k = 0)
    (hcount : args.counts.cell k ≠ 0) : ∃ p, InSegment args.counts.cell first k p ∧
      s.2.cell p = args.clusterIdx.cell k := by
  obtain ⟨q, hq, hq', hlabel, hid⟩ := h.clusterIdx k hk hcount
  obtain ⟨p, hp, hp', hcell⟩ := mem_range.mp (hs.shuffled.perm.mem_iff.mpr
    (mem_range.mpr ⟨q, hq, hq', rfl⟩))
  obtain ⟨q', hq1, hq2, hid', hlabel'⟩ := hs.labelled p hp hp'
  obtain rfl := h.inj hq1 hq2 hq hq' (hid'.symm.trans hcell)
  refine ⟨p, (hs.filling.full hk hfull hp (h.start_eq ▸ hp')).mp (hlabel'.trans hlabel), ?_⟩
  exact hcell.trans hid

theorem Shuffling.finish (h : Labelled args indices first last) (hk : k < args._K)
    (hs : Shuffling args indices first last k s) (hfull : s.1.newCounts.cell k = 0) {p e : Nat}
    (hp : InSegment args.counts.cell first k p) (he : InSegment args.counts.cell first k e)
    (hlast : start args.counts.cell first (k + 1) - 1 = e)
    (hcenter : s.2.cell p = args.clusterIdx.cell k) :
    Shuffling args indices first last (k + 1)
      (s.1, { s.2 with cell := exchange s.2.cell p e }) where
  counts := hs.counts
  clusterIdx := hs.clusterIdx
  size_newCounts := hs.size_newCounts
  size_label := hs.size_label
  filling := hs.filling
  shuffled := by
    obtain ⟨hp1, hp2⟩ := h.place_lt hk hp
    obtain ⟨he1, he2⟩ := h.place_lt hk he
    exact hs.shuffled.trans (shuffled_exchange hp1 hp2 he1 he2)
  labelled r hr hr' := by
    have hlabel : ∀ q, InSegment args.counts.cell first k q → s.1.label.cell q = k := fun q hq =>
      (hs.filling.full hk hfull hq.first_le (hq.lt_start hk)).mpr hq
    obtain ⟨hp1, hp2⟩ := h.place_lt hk hp
    obtain ⟨he1, he2⟩ := h.place_lt hk he
    -- the labels stay, but those of the two places are the same
    by_cases hrp : r = p
    · subst hrp
      have hq := hs.labelled e he1 he2
      rw [hlabel e he] at hq
      dsimp only
      rwa [exchange_left, hlabel r hp]
    · by_cases hre : r = e
      · subst hre
        have hq := hs.labelled p hp1 hp2
        rw [hlabel p hp] at hq
        dsimp only
        rwa [exchange_right, hlabel r he]
      · dsimp only
        rw [exchange_of_ne hrp hre]
        exact hs.labelled r hr hr'
  full c hc := by
    rcases (Nat.le_of_lt_succ hc).eq_or_lt with rfl | hc
    · exact hfull
    · exact hs.full c hc
  center c hc hcount := by
    dsimp only
    rcases (Nat.le_of_lt_succ hc).eq_or_lt with rfl | hc
    · rw [hlast, exchange_right, hcenter]
    · have hin : InSegment args.counts.cell first c _ := .last_of_pos (Nat.pos_of_ne_zero hcount)
      rw [exchange_of_ne (fun heq => hc.ne ((heq ▸ hin).unique hp))
        (fun heq => hc.ne ((heq ▸ hin).unique he))]
      exact hs.center c hc hcount

theorem shuffleCluster_spec (h : Labelled args indices first last)
    (hpos : IsPositions args first pos) (hk : k < args._K)
    (hs : Shuffling args indices first last k s) (hrounds : last - first < rounds) :
    ∃ s', shuffleCluster pos rounds s k = some s' ∧
      Shuffling args indices first last (k + 1) s' := by
  have hget : s.1.counts.get k = some (args.counts.cell k) := by
    rw [hs.counts, get_of_lt (hk.trans_le h.size_counts)]
  unfold shuffleCluster
  rw [hget]
  simp only [Option.bind_eq_bind, Option.bind_some]
  by_cases hcount : args.counts.cell k = 0
  · have hzero : s.1.newCounts.cell k = 0 := Nat.le_zero.mp (hcount ▸ hs.filling.left_le k hk)
    rw [if_pos hcount]
    refine ⟨s, rfl, { hs with full := fun c hc => ?_, center := fun c hc hne => ?_ }⟩
    · rcases (Nat.le_of_lt_succ hc).eq_or_lt with rfl | hc
      · exact hzero
      · exact hs.full c hc
    · rcases (Nat.le_of_lt_succ hc).eq_or_lt with rfl | hc
      · exact absurd hcount hne
      · exact hs.center c hc hne
  · have hposk : pos.get k = some (start args.counts.cell first k) := by
      rw [get_of_lt (hpos.size ▸ hk), hpos.cell k hk]
    have hleft : left args._K s.1 < rounds := by
      refine lt_of_le_of_lt ?_ hrounds
      rw [← h.start_eq, start, Nat.add_sub_cancel_left]
      exact Finset.sum_le_sum fun c hc => hs.filling.left_le c (Finset.mem_range.mp hc)
    obtain ⟨t, ht, hst, hfull⟩ := fill_spec h hpos hk hs hleft
    obtain ⟨p, hp, hcenter⟩ := hst.exists_center h hk hfull hcount
    have hlast : InSegment args.counts.cell first k (start args.counts.cell first (k + 1) - 1) :=
      .last_of_pos (Nat.pos_of_ne_zero hcount)
    have hindices : last ≤ t.2.size := hst.shuffled.size ▸ h.size_indices
    have hp' := h.place_lt hk hp
    have hlast' := h.place_lt hk hlast
    have hstart : first ≤ start args.counts.cell first k := first_le_start
    obtain ⟨q, hq, hqk, hqp, hcenter⟩ := seek_spec
      (hst.clusterIdx ▸ hk.trans_le h.size_clusterIdx) hp.1 (hp'.2.trans_le hindices)
      (hcenter.trans (by rw [hst.clusterIdx]))
      (show p - start args.counts.cell first k < rounds by omega)
    have hinq : InSegment args.counts.cell first k q := ⟨hqk, hqp.trans_lt hp.2⟩
    rw [hst.clusterIdx] at hcenter
    rw [if_neg hcount, hposk, Option.bind_some, ht, Option.bind_some, hq, Option.bind_some,
      Option.bind_some, ← start_succ,
      swap_of_lt ((h.place_lt hk hinq).2.trans_le hindices) (hlast'.2.trans_le hindices)]
    exact ⟨_, rfl, hst.finish h hk hfull hinq hlast rfl hcenter⟩

structure Sorted (args : KmeansArgs) (first last : Nat) (indices indices' : Slots Int) : Prop where
  shuffled : Shuffled first last indices indices'
  last_eq : start args.counts.cell first args._K = last
  segment : ∀ k < args._K, ∀ id,
    id ∈ indices'.range (start args.counts.cell first k) (start args.counts.cell first (k + 1)) ↔
      ∃ p, first ≤ p ∧ p < last ∧ args.label.cell p = k ∧ indices.cell p = id
  center : ∀ k < args._K, args.counts.cell k ≠ 0 →
    indices'.cell (start args.counts.cell first (k + 1) - 1) = args.clusterIdx.cell k

theorem Shuffling.sorted (h : Labelled args indices first last)
    (hs : Shuffling args indices first last args._K s) : Sorted args first last indices s.2 where
  shuffled := hs.shuffled
  last_eq := h.start_eq
  center := hs.center
  segment k hk id := by
    have hfull : ∀ {p}, first ≤ p → p < last → (s.1.label.cell p = k ↔
        InSegment args.counts.cell first k p) := fun hp hp' =>
      hs.filling.full hk (hs.full k hk) hp (h.start_eq ▸ hp')
    constructor
    · intro hid
      obtain ⟨p, hp, hp', rfl⟩ := mem_range.mp hid
      obtain ⟨hfirst, hlast⟩ := h.place_lt hk ⟨hp, hp'⟩
      obtain ⟨q, hq, hq', hcell, hlabel⟩ := hs.labelled p hfirst hlast
      exact ⟨q, hq, hq', hlabel.symm.trans ((hfull hfirst hlast).mpr ⟨hp, hp'⟩), hcell.symm⟩
    · rintro ⟨q, hq, hq', hlabel, rfl⟩
      obtain ⟨p, hp, hp', hcell⟩ := mem_range.mp (hs.shuffled.perm.mem_iff.mpr
        (mem_range.mpr ⟨q, hq, hq', rfl⟩))
      obtain ⟨q', hq1, hq2, hid, hlabel'⟩ := hs.labelled p hp hp'
      obtain rfl := h.inj hq1 hq2 hq hq' (hid.symm.trans hcell)
      obtain ⟨hin, hin'⟩ := (hfull hp hp').mp (hlabel'.trans hlabel)
      exact mem_range.mpr ⟨p, hin, hin', hcell⟩

/-- As many rounds as the range has ids and one more are enough, and no access is out of range. -/
theorem shuffle_sorted (h : Labelled args indices first last) (new : Nat → Nat)
    (hrounds : last - first < rounds) :
    ∃ s', shuffle rounds new args indices first = some s' ∧
      Sorted args first last indices s'.2 := by
  obtain ⟨pos, hpos, hstart⟩ := positions_spec h new
  have hrun : ∀ n ≤ args._K, ∃ s', (List.range n).foldlM (shuffleCluster pos rounds)
      (args, indices) = some s' ∧ Shuffling args indices first last n s' := by
    intro n hn
    induction n with
    | zero => exact ⟨_, rfl, h.shuffling⟩
    | succ n ih =>
      obtain ⟨s, hs, hshuffling⟩ := ih (Nat.le_of_succ_le hn)
      obtain ⟨s', hs', hnext⟩ := shuffleCluster_spec h hstart hn hshuffling hrounds
      refine ⟨s', ?_, hnext⟩
      rw [List.range_succ, List.foldlM_append, hs]
      simp only [List.foldlM_cons, List.foldlM_nil, Option.bind_eq_bind, Option.bind_some, hs']
      rfl
  obtain ⟨s', hs', hdone⟩ := hrun args._K le_rfl
  refine ⟨s', ?_, hdone.sorted h⟩
  unfold shuffle
  rw [hpos]
  exact hs'

def four : KmeansArgs where
  _K := 3
  counts := ⟨3, ([3, 0, 1].getD · 0)⟩
  newCounts := ⟨3, ([3, 0, 1].getD · 0)⟩
  label := ⟨4, ([0, 2, 0, 0].getD · 0)⟩
  clusterIdx := ⟨3, ([9, -1, 5].getD · 0)⟩

def fourIds : Slots Int := ⟨4, ([7, 5, 9, 4].getD · 0)⟩

theorem four_labelled : Labelled four fourIds 0 4 where
  _K := by decide
  size_counts := le_rfl
  size_newCounts := le_rfl
  size_clusterIdx := le_rfl
  size_label := le_rfl
  size_indices := le_rfl
  first_le := by decide
  nodup := by decide
  label_lt := by decide
  counts := by decide
  newCounts := by decide
  clusterIdx
    | 0, _, _ => ⟨2, by decide⟩
    | 1, _, h => absurd rfl h
    | 2, _, _ => ⟨1, by decide⟩

theorem shuffle_sorted_four : ∃ s', shuffle 5 (fun _ => 0) four fourIds 0 = some s' ∧
    Sorted four 0 4 fourIds s'.2 :=
  shuffle_sorted four_labelled _ (by decide)

end KmeansArgs

end Sptag.COMMON
