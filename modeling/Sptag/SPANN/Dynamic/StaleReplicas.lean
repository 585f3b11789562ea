import Sptag.Lib.Run
import Sptag.SPANN.Dynamic.State

/-! Entries left in postings that nobody rewrites while the versions of their vectors move
on. A version has seven bits, so it comes round after 128 calls of `IncVersion`. -/

namespace Sptag.SPANN.Dynamic

open COMMON Lib

variable {V : Type}

namespace State

def incVersion (s : State V) (vid : Int) : State V :=
  { s with versionMap := (s.versionMap.incVersion vid).2 }

def afterCalls (s : State V) (vids : List Int) (n : Nat) : State V :=
  run incVersion s (vids.take n)

def StaysStale (s : State V) (vids : List Int) (e : Entry V) : Prop :=
  ∀ i j k, i ≤ j → j ≤ k → k ≤ vids.length → (s.afterCalls vids i).current e = true →
    (s.afterCalls vids j).current e = false → (s.afterCalls vids k).current e = false

end State

def callsUntil (label version : UInt8) : Nat :=
  if label = version then 0 else (version.toNat + 255 - label.toNat) % 128 + 1

def labelAfter (label : UInt8) (n : Nat) : UInt8 := (fun l => (l + 1) &&& 0x7f)^[n] label

theorem toNat_next (label : UInt8) : ((label + 1) &&& 0x7f).toNat = (label.toNat + 1) % 128 := by
  rw [UInt8.toNat_and, UInt8.toNat_add]
  change (label.toNat + 1) % 256 &&& (2 ^ 7 - 1) = _
  rw [Nat.and_two_pow_sub_one_eq_mod]
  omega

@[simp] theorem toNat_labelAfter (label : UInt8) (n : Nat) :
    (labelAfter label (n + 1)).toNat = (label.toNat + (n + 1)) % 128 := by
  induction n with
  | zero => exact toNat_next label
  | succ n ih =>
    rw [labelAfter, Function.iterate_succ_apply', toNat_next]
    rw [labelAfter] at ih
    rw [ih]
    omega

theorem labelAfter_eq_iff {label version : UInt8} (h : version.toNat < 128) (n : Nat) :
    labelAfter label n = version ↔
      callsUntil label version ≤ n ∧ (n - callsUntil label version) % 128 = 0 := by
  have hlt := label.toNat_lt
  have hne : label = version ↔ label.toNat = version.toNat := UInt8.toNat_inj.symm
  cases n with
  | zero =>
    rw [labelAfter, Function.iterate_zero, id, callsUntil]
    split
    · simpa
    · simpa
  | succ n =>
    rw [← UInt8.toNat_inj, toNat_labelAfter, callsUntil]
    split
    · rename_i heq
      rw [hne] at heq
      omega
    · rename_i heq
      rw [hne] at heq
      omega

theorem labelAfter_ne {label version : UInt8} (h : 128 ≤ version.toNat) (n : Nat) :
    labelAfter label (n + 1) ≠ version := by
  intro heq
  have hmod := toNat_labelAfter label n
  rw [heq] at hmod
  omega

@[simp] theorem deleted_run (s : State V) (vids : List Int) (vid : Int) :
    (run State.incVersion s vids).versionMap.deleted vid = s.versionMap.deleted vid := by
  induction vids generalizing s with
  | nil => rfl
  | cons v vids ih => rw [run_cons, ih, State.incVersion, VersionLabel.deleted_incVersion]

theorem getVersion_incVersion_self {m : VersionLabel} {vid : Int} (h : m.deleted vid = false) :
    (m.incVersion vid).2.getVersion vid = (m.getVersion vid + 1) &&& 0x7f := by
  cases hl : m.label? vid with
  | none => simp [VersionLabel.deleted, hl] at h
  | some label =>
    have hne : label ≠ VersionLabel.tombstone := by simpa [VersionLabel.deleted, hl] using h
    simp only [VersionLabel.incVersion, VersionLabel.getVersion, hl, hne, if_false]
    rw [VersionLabel.label?_setLabel _ _ _ _ (VersionLabel.label?_eq_some_lt hl), if_pos rfl]
    rfl

theorem getVersion_run {s : State V} {vid : Int} (h : s.versionMap.deleted vid = false)
    (vids : List Int) : (run State.incVersion s vids).versionMap.getVersion vid =
      labelAfter (s.versionMap.getVersion vid) (vids.count vid) := by
  induction vids generalizing s with
  | nil => rfl
  | cons v vids ih =>
    rw [run_cons, ih (by rw [State.incVersion, VersionLabel.deleted_incVersion, h])]
    by_cases hv : v = vid
    · subst hv
      rw [List.count_cons_self, labelAfter, labelAfter, Function.iterate_succ_apply,
        State.incVersion, getVersion_incVersion_self h]
    · rw [List.count_cons_of_ne hv, State.incVersion,
        VersionLabel.getVersion_incVersion_of_ne _ (Ne.symm hv)]

theorem current_afterCalls {s : State V} {e : Entry V} (h : s.versionMap.deleted e.vid = false)
    (vids : List Int) (n : Nat) : (s.afterCalls vids n).current e = true ↔
      labelAfter (s.versionMap.getVersion e.vid) ((vids.take n).count e.vid) = e.version := by
  rw [State.current, State.afterCalls, deleted_run, h, getVersion_run h]
  simp

theorem exists_count_take {vids : List Int} {vid : Int} {n : Nat} (h : n ≤ vids.count vid) :
    ∃ i ≤ vids.length, (vids.take i).count vid = n := by
  induction vids generalizing n with
  | nil => exact ⟨0, Nat.le_refl 0, (Nat.le_zero.mp h).symm⟩
  | cons v vids ih =>
    cases n with
    | zero => exact ⟨0, Nat.zero_le _, rfl⟩
    | succ n =>
      by_cases hv : v = vid
      · rw [hv, List.count_cons_self] at h
        obtain ⟨i, hi, hcount⟩ := ih (Nat.le_of_succ_le_succ h)
        refine ⟨i + 1, Nat.succ_le_succ hi, ?_⟩
        rw [List.take_succ_cons, hv, List.count_cons_self, hcount]
      · rw [List.count_cons_of_ne hv] at h
        obtain ⟨i, hi, hcount⟩ := ih h
        refine ⟨i + 1, Nat.succ_le_succ hi, ?_⟩
        rw [List.take_succ_cons, List.count_cons_of_ne hv, hcount]

theorem count_take_mono (vids : List Int) (vid : Int) {i j : Nat} (h : i ≤ j) :
    (vids.take i).count vid ≤ (vids.take j).count vid :=
  (List.take_prefix_take_left h).sublist.count_le _

theorem lt_of_count_take_lt {vids : List Int} {vid : Int} {i j : Nat}
    (h : (vids.take i).count vid < (vids.take j).count vid) : i < j := by
  by_contra hle
  exact absurd (count_take_mono vids vid (not_lt.mp hle)) (not_le.mpr h)

theorem staysStale_iff_labels {s : State V} {e : Entry V}
    (h : s.versionMap.deleted e.vid = false) (vids : List Int) :
    s.StaysStale vids e ↔ ∀ i j k, i < j → j < k → k ≤ vids.count e.vid →
      labelAfter (s.versionMap.getVersion e.vid) i = e.version →
      labelAfter (s.versionMap.getVersion e.vid) j ≠ e.version →
      labelAfter (s.versionMap.getVersion e.vid) k ≠ e.version := by
  constructor
  · intro hstays i j k hij hjk hk hi hj hcur
    obtain ⟨i', -, rfl⟩ := exists_count_take (le_trans (hij.trans hjk).le hk)
    obtain ⟨j', -, rfl⟩ := exists_count_take (le_trans hjk.le hk)
    obtain ⟨k', hk', rfl⟩ := exists_count_take hk
    have hfalse := hstays i' j' k' (lt_of_count_take_lt hij).le (lt_of_count_take_lt hjk).le hk'
      ((current_afterCalls h vids i').mpr hi)
      (Bool.eq_false_iff.mpr (mt (current_afterCalls h vids j').mp hj))
    rw [(current_afterCalls h vids k').mpr hcur] at hfalse
    cases hfalse
  · intro hlabels i j k hij hjk hk hi hj
    rw [Bool.eq_false_iff, ne_eq, current_afterCalls h] at hj ⊢
    rw [current_afterCalls h] at hi
    intro hcur
    have hne : (vids.take i).count e.vid ≠ (vids.take j).count e.vid := fun heq => hj (heq ▸ hi)
    have hne' : (vids.take j).count e.vid ≠ (vids.take k).count e.vid := fun heq => hj (heq ▸ hcur)
    exact hlabels _ _ _ (lt_of_le_of_ne (count_take_mono vids e.vid hij) hne)
      (lt_of_le_of_ne (count_take_mono vids e.vid hjk) hne')
      ((List.take_sublist k vids).count_le _) hi hj hcur

/-- A stale entry stays stale exactly when the run ends before its version has come round. -/
theorem stays_stale_iff (s : State V) (vids : List Int) (e : Entry V) :
    s.StaysStale vids e ↔ s.versionMap.deleted e.vid = true ∨ 128 ≤ e.version.toNat ∨
      vids.count e.vid < callsUntil (s.versionMap.getVersion e.vid) e.version + 128 := by
  cases hdel : s.versionMap.deleted e.vid with
  | true =>
    apply iff_of_true _ (Or.inl rfl)
    intro i j k _ _ _ hi _
    rw [State.current, State.afterCalls, deleted_run, hdel] at hi
    cases hi
  | false =>
    rw [staysStale_iff_labels hdel]
    rcases lt_or_ge e.version.toNat 128 with hseven | height
    · simp only [ne_eq, labelAfter_eq_iff hseven, Bool.false_eq_true, false_or]
      generalize callsUntil (s.versionMap.getVersion e.vid) e.version = first
      constructor
      · intro h
        right
        by_contra hlt
        exact h first (first + 1) (first + 128) (by omega) (by omega) (by omega) (by omega)
          (by omega) (by omega)
      · intro h i j k hij hjk hk hi hj
        omega
    · apply iff_of_true _ (Or.inr (Or.inl height))
      intro i j k hij hjk _ _ _
      obtain ⟨n, rfl⟩ := Nat.exists_eq_succ_of_ne_zero (Nat.ne_zero_of_lt hjk)
      exact labelAfter_ne height n

theorem replica_revived : ¬ ∀ (s : State Unit) (vids : List Int) (e : Entry Unit),
    s.StaysStale vids e := by
  intro h
  have hstays := h (.start ⟨0, fun _ => (), fun _ => false⟩ ⟨[0], 0, 1, by decide⟩ fun _ => none)
    (List.replicate 128 0) ⟨0, 0, ()⟩ 0 1 128 (by decide) (by decide)
    (le_of_eq List.length_replicate.symm) (by decide) (by decide)
  exact absurd hstays (by decide +kernel)

end Sptag.SPANN.Dynamic
