import Mathlib

/-! A finite map kept as a list of bindings in increasing order of its keys, the
order in which an iterator visits them. -/

namespace Sptag.Lib

variable {K V : Type*} [LinearOrder K]

def insertEntry (k : K) (v : V) : List (K × V) → List (K × V)
  | [] => [(k, v)]
  | e :: es =>
    if k < e.1 then (k, v) :: e :: es
    else if k = e.1 then (k, v) :: es
    else e :: insertEntry k v es

theorem mem_insertEntry {k : K} {v : V} {es : List (K × V)} {e : K × V}
    (h : e ∈ insertEntry k v es) : e = (k, v) ∨ e ∈ es := by
  induction es with
  | nil => simpa [insertEntry] using h
  | cons a es ih =>
    simp only [insertEntry] at h
    split at h
    · simpa using h
    · split at h
      · rcases List.mem_cons.mp h with h | h
        · exact .inl h
        · exact .inr (List.mem_cons_of_mem _ h)
      · rcases List.mem_cons.mp h with rfl | h
        · exact .inr List.mem_cons_self
        · exact (ih h).imp_right (List.mem_cons_of_mem _)

theorem insertEntry_sorted (k : K) (v : V) {es : List (K × V)}
    (h : es.Pairwise fun a b => a.1 < b.1) :
    (insertEntry k v es).Pairwise fun a b => a.1 < b.1 := by
  induction es with
  | nil => simp [insertEntry]
  | cons a es ih =>
    obtain ⟨ha, hes⟩ := List.pairwise_cons.mp h
    simp only [insertEntry]
    split
    · rename_i hk
      refine List.pairwise_cons.mpr ⟨?_, h⟩
      intro b hb
      rcases List.mem_cons.mp hb with rfl | hb
      · exact hk
      · exact hk.trans (ha b hb)
    · rename_i hk
      split
      · rename_i hka
        exact List.pairwise_cons.mpr ⟨fun b hb => hka ▸ ha b hb, hes⟩
      · rename_i hka
        refine List.pairwise_cons.mpr ⟨?_, ih hes⟩
        intro b hb
        rcases mem_insertEntry hb with rfl | hb
        · exact lt_of_le_of_ne (not_lt.mp hk) (Ne.symm hka)
        · exact ha b hb

theorem insertEntry_of_forall_lt {k : K} {es : List (K × V)} (v : V)
    (h : ∀ e ∈ es, e.1 < k) : insertEntry k v es = es ++ [(k, v)] := by
  induction es with
  | nil => rfl
  | cons a es ih =>
    have ha : a.1 < k := h a List.mem_cons_self
    rw [insertEntry, if_neg (not_lt_of_gt ha), if_neg (ne_of_gt ha),
      ih fun e he => h e (List.mem_cons_of_mem _ he), List.cons_append]

theorem insertEntry_perm {k : K} {es : List (K × V)} (v : V) (h : ∀ e ∈ es, e.1 ≠ k) :
    (insertEntry k v es).Perm ((k, v) :: es) := by
  induction es with
  | nil => exact .refl _
  | cons a es ih =>
    have ha : k ≠ a.1 := Ne.symm (h a List.mem_cons_self)
    simp only [insertEntry, if_neg ha]
    split
    · exact .refl _
    · exact ((ih fun e he => h e (List.mem_cons_of_mem _ he)).cons a).trans (.swap _ _ _)

structure OrderedMap (K V : Type*) [LinearOrder K] where
  entries : List (K × V)
  sorted : entries.Pairwise fun a b => a.1 < b.1

namespace OrderedMap

def empty : OrderedMap K V := ⟨[], .nil⟩

def insert (m : OrderedMap K V) (k : K) (v : V) : OrderedMap K V :=
  ⟨insertEntry k v m.entries, insertEntry_sorted k v m.sorted⟩

def eraseRange (m : OrderedMap K V) (lo hi : K) : OrderedMap K V :=
  ⟨m.entries.filter fun e => ¬(lo ≤ e.1 ∧ e.1 < hi), m.sorted.filter _⟩

@[simp] theorem entries_empty : (empty : OrderedMap K V).entries = [] := rfl

@[simp] theorem mem_eraseRange (m : OrderedMap K V) (lo hi : K) (e : K × V) :
    e ∈ (m.eraseRange lo hi).entries ↔ e ∈ m.entries ∧ ¬(lo ≤ e.1 ∧ e.1 < hi) := by
  simp only [eraseRange, List.mem_filter, decide_eq_true_eq]

@[simp] theorem eraseRange_entries_eq_nil {m : OrderedMap K V} {lo hi : K} :
    (m.eraseRange lo hi).entries = [] ↔ ∀ e ∈ m.entries, lo ≤ e.1 ∧ e.1 < hi := by
  simp only [List.eq_nil_iff_forall_not_mem, mem_eraseRange, not_and_not_right]

end OrderedMap

end Sptag.Lib
