import Mathlib

/-! Tables that are filled along probe sequences: a key is stored in the first blank cell of
its sequence, and cells are never blanked one by one. -/

namespace Sptag.Lib

variable {A : Type*} [DecidableEq A] (blank : A)

inductive Probe
  | free (i : Nat)
  | hit
  | full
  deriving DecidableEq

def probe (table : List A) (key : A) : List Nat → Probe
  | [] => .full
  | i :: is =>
    if table.getD i blank = blank then .free i
    else if table.getD i blank = key then .hit
    else probe table key is

def place (probes : A → List Nat) (table : List A) (key : A) : Option (Bool × List A) :=
  match probe blank table key (probes key) with
  | .free i => some (false, table.set i key)
  | .hit => some (true, table)
  | .full => none

def placeAll (probes : A → List Nat) : List A → List A → Option (List A)
  | [], table => some table
  | key :: keys, table =>
    if key = blank then placeAll probes keys table
    else match place blank probes table key with
      | none => none
      | some (_, table) => placeAll probes keys table

def Stored (table : List A) (key : A) : Prop := key ∈ table ∧ key ≠ blank

def Findable (probes : A → List Nat) (table : List A) : Prop :=
  ∀ key, Stored blank table key → probe blank table key (probes key) = .hit

section Probe

variable {blank} {table : List A} {key key' : A} {is js : List Nat} {i : Nat}

theorem probe_append : probe blank table key (is ++ js) =
    match probe blank table key is with
    | .free i => .free i
    | .hit => .hit
    | .full => probe blank table key js := by
  induction is with
  | nil => rfl
  | cons i is ih =>
    simp only [List.cons_append, probe]
    split
    · rfl
    · split
      · rfl
      · exact ih

theorem probe_free (h : probe blank table key is = .free i) : table.getD i blank =
    blank ∧ i ∈ is := by
  induction is with
  | nil => cases h
  | cons j is ih =>
    unfold probe at h
    split at h
    · rename_i hblank
      cases h
      exact ⟨hblank, .head _⟩
    · split at h
      · cases h
      · exact ⟨(ih h).1, .tail _ (ih h).2⟩

theorem probe_hit (h : probe blank table key is = .hit) : Stored blank table key := by
  induction is with
  | nil => cases h
  | cons j is ih =>
    unfold probe at h
    split at h
    · cases h
    · rename_i hne
      split at h
      · rename_i heq
        refine ⟨?_, fun hkey => hne (heq.trans hkey)⟩
        by_cases hj : j < table.length
        · rw [List.getD_eq_getElem _ _ hj] at heq
          exact heq ▸ List.getElem_mem hj
        · exact absurd (List.getD_eq_default _ _ (Nat.not_lt.mp hj)) hne
      · exact ih h

omit [DecidableEq A] in
theorem getD_set_of_ne {j : Nat} (h : i ≠ j) : (table.set i key).getD j blank =
    table.getD j blank := by
  rw [List.getD_eq_getElem?_getD, List.getD_eq_getElem?_getD, List.getElem?_set_ne h]

omit [DecidableEq A] in
theorem getD_set_self (h : i < table.length) : (table.set i key).getD i blank = key := by
  rw [List.getD_eq_getElem?_getD, List.getElem?_set_self h, Option.getD_some]

theorem probe_set_of_hit (hblank : table.getD i blank = blank)
    (h : probe blank table key is = .hit) :
    probe blank (table.set i key') key is = .hit := by
  induction is with
  | nil => cases h
  | cons j is ih =>
    unfold probe at h
    split at h
    · cases h
    · rename_i hne
      have hij : i ≠ j := by
        rintro rfl
        exact hne hblank
      rw [probe, getD_set_of_ne hij, if_neg hne]
      split at h
      · rename_i heq
        rw [if_pos heq]
      · rename_i hother
        rw [if_neg hother]
        exact ih h

theorem probe_set_self (hlength : i < table.length) (hkey : key ≠ blank)
    (h : probe blank table key is = .free i) : probe blank (table.set i key) key is = .hit := by
  have hblank := (probe_free h).1
  induction is with
  | nil => cases h
  | cons j is ih =>
    unfold probe at h
    split at h
    · cases h
      rw [probe, getD_set_self hlength, if_neg hkey, if_pos rfl]
    · rename_i hne
      have hij : i ≠ j := by
        rintro rfl
        exact hne hblank
      rw [probe, getD_set_of_ne hij, if_neg hne]
      split at h
      · cases h
      · rename_i hother
        rw [if_neg hother]
        exact ih h

omit [DecidableEq A] in
theorem stored_set (hlength : i < table.length) (hblank : table.getD i blank = blank)
    (hkey : key ≠ blank) :
    Stored blank (table.set i key) key' ↔ key' = key ∨ Stored blank table key' := by
  constructor
  · rintro ⟨hmem, hne⟩
    rcases List.mem_or_eq_of_mem_set hmem with hmem | rfl
    · exact .inr ⟨hmem, hne⟩
    · exact .inl rfl
  · rintro (rfl | ⟨hmem, hne⟩)
    · exact ⟨List.mem_set hlength _, hkey⟩
    · refine ⟨?_, hne⟩
      obtain ⟨j, hj, rfl⟩ := List.mem_iff_getElem.mp hmem
      have hij : i ≠ j := by
        rintro rfl
        rw [List.getD_eq_getElem _ _ hj] at hblank
        exact hne hblank
      exact List.mem_iff_getElem.mpr ⟨j, by rwa [List.length_set], List.getElem_set_ne hij _⟩

end Probe

section Place

variable {blank} {probes : A → List Nat} {table table' : List A} {key : A} {seen : Bool}

theorem Findable.hit_iff (h : Findable blank probes table) :
    probe blank table key (probes key) = .hit ↔ Stored blank table key :=
  ⟨probe_hit, h key⟩

structure Placed (blank : A) (probes : A → List Nat) (table : List A) (key : A) (table' : List A) :
    Prop where
  findable : Findable blank probes table'
  stored : ∀ k, Stored blank table' k ↔ k = key ∨ Stored blank table k
  length_eq : table'.length = table.length

theorem Findable.place (h : Findable blank probes table)
    (hbound : ∀ i ∈ probes key, i < table.length)
    (hkey : key ≠ blank) (hplace : place blank probes table key = some (seen, table')) :
    (seen = true ↔ Stored blank table key) ∧ Placed blank probes table key table' := by
  unfold Lib.place at hplace
  split at hplace
  · rename_i i hfree
    obtain ⟨hblank, hmem⟩ := probe_free hfree
    have hlength := hbound i hmem
    cases hplace
    refine ⟨⟨fun hfalse => absurd hfalse Bool.false_ne_true, fun hstored => ?_⟩, fun k hk => ?_,
      fun k => stored_set hlength hblank hkey, List.length_set ..⟩
    · have hhit := h key hstored
      rw [hfree] at hhit
      cases hhit
    · rcases (stored_set hlength hblank hkey).mp hk with rfl | hstored
      · exact probe_set_self hlength hkey hfree
      · exact probe_set_of_hit hblank (h k hstored)
  · rename_i hhit
    cases hplace
    have hstored := h.hit_iff.mp hhit
    refine ⟨⟨fun _ => hstored, fun _ => rfl⟩, h, fun k => ⟨.inr, ?_⟩, rfl⟩
    rintro (rfl | hk)
    · exact hstored
    · exact hk
  · cases hplace

theorem findable_replicate (probes : A → List Nat) (n : Nat) :
    Findable blank probes (List.replicate n blank) :=
  fun _ hk => absurd (List.eq_of_mem_replicate hk.1) hk.2

omit [DecidableEq A] in
theorem not_stored_replicate {n : Nat} : ¬ Stored blank (List.replicate n blank) key :=
  fun hk => hk.2 (List.eq_of_mem_replicate hk.1)

theorem Findable.placeAll (h : Findable blank probes table) {keys : List A}
    (hbound : ∀ key ∈ keys, ∀ i ∈ probes key, i < table.length)
    (hplace : placeAll blank probes keys table = some table') :
    Findable blank probes table' ∧ table'.length = table.length ∧
      ∀ k, Stored blank table' k ↔ Stored blank keys k ∨ Stored blank table k := by
  induction keys generalizing table with
  | nil =>
    cases hplace
    refine ⟨h, rfl, fun k => ⟨.inr, ?_⟩⟩
    rintro (hk | hk)
    · exact absurd hk.1 List.not_mem_nil
    · exact hk
  | cons key keys ih =>
    unfold Lib.placeAll at hplace
    split at hplace
    · rename_i hkey
      obtain ⟨hfind, hlength, hstored⟩ := ih h (fun k hk => hbound k (.tail _ hk)) hplace
      refine ⟨hfind, hlength, fun k => (hstored k).trans (or_congr_left ?_)⟩
      constructor
      · exact fun hk => ⟨.tail _ hk.1, hk.2⟩
      · exact fun hk => ⟨(List.mem_cons.mp hk.1).resolve_left fun heq =>
          hk.2 (heq.trans hkey), hk.2⟩
    · rename_i hkey
      split at hplace
      · cases hplace
      · rename_i seen t ht
        obtain ⟨-, hfind, hstored, hlength⟩ := h.place (hbound key (.head _)) hkey ht
        obtain ⟨hfind', hlength', hstored'⟩ := ih hfind
          (fun k hk i hi => hlength ▸ hbound k (.tail _ hk) i hi) hplace
        refine ⟨hfind', hlength'.trans hlength, fun k => (hstored' k).trans ?_⟩
        rw [hstored k, ← or_assoc]
        refine or_congr_left ⟨?_, ?_⟩
        · rintro (hk | rfl)
          · exact ⟨.tail _ hk.1, hk.2⟩
          · exact ⟨.head _, hkey⟩
        · rintro ⟨hk, hne⟩
          rcases List.mem_cons.mp hk with rfl | hk
          · exact .inr rfl
          · exact .inl ⟨hk, hne⟩

end Place

end Sptag.Lib
