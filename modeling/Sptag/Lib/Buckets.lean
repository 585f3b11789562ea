import Sptag.Lib.Subdivide

/-! An array put in place into one segment for each key: every segment is filled from its end. -/

namespace Sptag.Lib

variable {count left : Nat → Nat} {K first c d p : Nat}

def start (count : Nat → Nat) (first c : Nat) : Nat := first + ∑ j ∈ Finset.range c, count j

theorem start_succ : start count first (c + 1) = start count first c + count c := by
  rw [start, Finset.sum_range_succ, ← Nat.add_assoc, start]

theorem start_mono : Monotone (start count first) :=
  monotone_nat_of_le_succ fun _ => start_succ ▸ Nat.le_add_right ..

theorem first_le_start : first ≤ start count first c := Nat.le_add_right ..

def InSegment (count : Nat → Nat) (first c p : Nat) : Prop :=
  start count first c ≤ p ∧ p < start count first (c + 1)

namespace InSegment

theorem le_of_le (h : InSegment count first c p) (h' : start count first d ≤ p) : d ≤ c := by
  by_contra hlt
  exact (h.2.trans_le ((start_mono (not_le.mp hlt)).trans h')).false

theorem unique (h : InSegment count first c p) (h' : InSegment count first d p) : c = d :=
  le_antisymm (h'.le_of_le h.1) (h.le_of_le h'.1)

theorem first_le (h : InSegment count first c p) : first ≤ p := first_le_start.trans h.1

theorem lt_start (h : InSegment count first c p) (hc : c < K) : p < start count first K :=
  h.2.trans_le (start_mono hc)

theorem of_lt {n : Nat} (h : n < count c) : InSegment count first c (start count first c + n) :=
  ⟨Nat.le_add_right .., start_succ ▸ Nat.add_lt_add_left h _⟩

theorem last_of_pos (h : 0 < count c) :
    InSegment count first c (start count first (c + 1) - 1) := by
  rw [start_succ, Nat.add_sub_assoc h]
  exact of_lt (Nat.sub_one_lt h.ne')

theorem start_of_pos (h : 0 < count c) : InSegment count first c (start count first c) := of_lt h

end InSegment

namespace Slots

structure Filling (K first : Nat) (count left : Nat → Nat) (label : Slots Nat) : Prop where
  label_lt : ∀ p, first ≤ p → p < start count first K → label.cell p < K
  total : ∀ c < K, (label.range first (start count first K)).count c = count c
  left_le : ∀ c < K, left c ≤ count c
  filled : ∀ c < K, ∀ p, start count first c + left c ≤ p → p < start count first (c + 1) →
    label.cell p = c

namespace Filling

variable {label : Slots Nat}

theorem full (h : Filling K first count left label) (hc : c < K) (hleft : left c = 0)
    (hp : first ≤ p) (hlast : p < start count first K) :
    label.cell p = c ↔ InSegment count first c p := by
  refine ⟨fun heq => ?_, fun hin => h.filled c hc p (hleft ▸ hin.1) hin.2⟩
  have hle : start count first (c + 1) ≤ start count first K := start_mono hc
  have hsplit := h.total c hc
  rw [← range_append (m := start count first c) first_le_start (start_mono hc.le),
    ← range_append (m := start count first (c + 1)) (start_mono c.le_succ) hle,
    List.count_append, List.count_append] at hsplit
  have hmid : (label.range (start count first c) (start count first (c + 1))).count
    c = count c := by
    have hall : ∀ x ∈ label.range (start count first c) (start count first (c + 1)), c = x := by
      intro x hx
      obtain ⟨q, hq, hq', rfl⟩ := mem_range.mp hx
      exact (h.filled c hc q (hleft ▸ hq) hq').symm
    rw [List.count_eq_length.mpr hall, length_range, start_succ, Nat.add_sub_cancel_left]
  have hbefore : (label.range first (start count first c)).count c = 0 := by omega
  have hbehind : (label.range (start count first (c + 1)) (start count first K)).count c = 0 := by
    omega
  constructor
  · by_contra hlt
    exact List.count_eq_zero.mp hbefore (mem_range.mpr ⟨p, hp, not_le.mp hlt, heq⟩)
  · by_contra hlt
    exact List.count_eq_zero.mp hbehind (mem_range.mpr ⟨p, not_lt.mp hlt, hlast, heq⟩)

theorem last_inSegment (h : Filling K first count left label) (hc : c < K) (hleft : 0 < left c) :
    InSegment count first c (start count first c + left c - 1) := by
  rw [Nat.add_sub_assoc hleft]
  exact .of_lt ((Nat.sub_one_lt hleft.ne').trans_le (h.left_le c hc))

theorem start_inSegment (h : Filling K first count left label) (hc : c < K) (hleft : 0 < left c) :
    InSegment count first c (start count first c) :=
  .start_of_pos (hleft.trans_le (h.left_le c hc))

theorem left_pos (h : Filling K first count left label) (hc : c < K) (hleft : 0 < left c) :
    0 < left (label.cell (start count first c)) := by
  have hin := h.start_inSegment hc hleft
  have hlast := hin.lt_start hc
  refine Nat.pos_of_ne_zero fun hzero => ?_
  have hd := h.label_lt _ hin.first_le hlast
  have hcd := hin.unique ((h.full hd hzero hin.first_le hlast).mp rfl)
  rw [← hcd] at hzero
  exact hleft.ne' hzero

theorem place (h : Filling K first count left label) (hc : c < K) (hleft : 0 < left c) {d q : Nat}
    (hd : label.cell (start count first c) = d) (hq : start count first d + left d - 1 = q) :
    Filling K first count (Function.update left d (left d - 1))
      { label with cell := exchange label.cell (start count first c) q } := by
  have hin := h.start_inSegment hc hleft
  have hdK : d < K := hd ▸ h.label_lt _ hin.first_le (hin.lt_start hc)
  have hinq : InSegment count first d q :=
    hq ▸ h.last_inSegment hdK (hd ▸ h.left_pos hc hleft)
  have hmoved : Shuffled first (start count first K) label
      { label with cell := exchange label.cell (start count first c) q } :=
    shuffled_exchange hin.first_le (hin.lt_start hc) hinq.first_le (hinq.lt_start hdK)
  refine ⟨(hmoved.forall_iff (P := (· < K))).mpr h.label_lt, fun e he => ?_, fun e he =>
    ?_, fun e he p hp hpe => ?_⟩
  · rw [hmoved.perm.count_eq, h.total e he]
  · by_cases hed : e = d
    · rw [hed, Function.update_self]
      exact (Nat.sub_le ..).trans (h.left_le d hdK)
    · rw [Function.update_of_ne hed]
      exact h.left_le e he
  · dsimp only
    by_cases hpq : p = q
    · rw [hpq, exchange_right, hd]
      have hine : InSegment count first e q := hpq ▸ ⟨(Nat.le_add_right ..).trans hp, hpe⟩
      exact hinq.unique hine
    · have hfilled : start count first e + left e ≤ p := by
        by_cases hed : e = d
        · subst hed
          rw [Function.update_self] at hp
          omega
        · rwa [Function.update_of_ne hed] at hp
      have hpc : p ≠ start count first c := by
        rintro rfl
        have hec := InSegment.unique ⟨(Nat.le_add_right ..).trans hfilled, hpe⟩ hin
        rw [hec] at hfilled
        omega
      rw [exchange_of_ne hpc hpq]
      exact h.filled e he p hfilled hpe

end Filling

theorem filling_init {label : Slots Nat} {last : Nat} (hfirst : first ≤ last)
    (hlabel : ∀ p, first ≤ p → p < last → label.cell p < K)
    (hcount : ∀ c < K, count c = (label.range first last).count c) :
    start count first K = last ∧ Filling K first count count label := by
  have hsum : ∑ c ∈ Finset.range K, count c = last - first := by
    rw [Finset.sum_congr rfl fun c hc => hcount c (Finset.mem_range.mp hc)]
    have hcard := Multiset.sum_count_eq_card (s := Finset.range K)
      (m := (label.range first last : Multiset Nat)) fun x hx => by
        obtain ⟨p, hp, hp', rfl⟩ := mem_range.mp (Multiset.mem_coe.mp hx)
        exact Finset.mem_range.mpr (hlabel p hp hp')
    simpa only [Multiset.coe_count, Multiset.coe_card, length_range] using hcard
  have hlast : start count first K = last := by
    rw [start, hsum, Nat.add_sub_cancel' hfirst]
  refine ⟨hlast, ?_, ?_, fun c _ => le_rfl, fun c _ p hp hpc => ?_⟩
  · rwa [hlast]
  · rw [hlast]
    exact fun c hc => (hcount c hc).symm
  · rw [start_succ] at hpc
    exact absurd hp hpc.not_ge

end Slots

end Sptag.Lib
