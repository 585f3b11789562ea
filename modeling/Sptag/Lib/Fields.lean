import Mathlib

/-! The fields of a list: what lies between the elements that separate. -/

namespace Sptag.Lib

variable {α : Type*} {p : α → Bool}

def fields (p : α → Bool) (l : List α) : List (List α) := (l.splitOnP p).filter fun t => !t.isEmpty

theorem fields_induction {P : List α → Prop} (hfield : ∀ t, (∀ a ∈ t, p a = false) → P t)
    (hsep : ∀ t a l, (∀ b ∈ t, p b = false) → p a = true → P l → P (t ++ a :: l)) (l : List α) :
    P l := by
  have hprefix : ∀ l t : List α, (∀ a ∈ t, p a = false) → P (t ++ l) := by
    intro l
    induction l with
    | nil =>
      intro t ht
      rw [List.append_nil]
      exact hfield t ht
    | cons a l ih =>
      intro t ht
      cases ha : p a with
      | true => exact hsep t a l ht ha (ih [] fun b hb => absurd hb List.not_mem_nil)
      | false =>
        rw [List.append_cons]
        refine ih (t ++ [a]) fun b hb => ?_
        rcases List.mem_append.mp hb with hb | hb
        · exact ht b hb
        · rwa [List.mem_singleton.mp hb]
  exact hprefix l [] fun b hb => absurd hb List.not_mem_nil

@[simp] theorem fields_nil : fields p [] = [] := by simp [fields]

theorem fields_sep {a : α} (h : p a = true) (l : List α) : fields p (a :: l) = fields p l := by
  simp [fields, List.splitOnP_cons_eq_if_modifyHead, h]

theorem fields_field {t : List α} (h : ∀ a ∈ t, p a = false) :
    fields p t = if t = [] then [] else [t] := by
  rw [fields, List.splitOnP_eq_singleton h]
  split_ifs with ht
  · simp [ht]
  · simp [ht]

theorem fields_field_sep {t : List α} (h : ∀ a ∈ t, p a = false) (ht : t ≠ []) {a : α}
    (ha : p a = true) (l : List α) : fields p (t ++ a :: l) = t :: fields p l := by
  rw [fields, List.splitOnP_append_cons_of_forall_mem h a ha, List.filter_cons]
  simp [ht, fields]

@[simp] theorem fields_dropWhile (l : List α) : fields p (l.dropWhile p) = fields p l := by
  induction l with
  | nil => rfl
  | cons a l ih =>
    rw [List.dropWhile_cons]
    split_ifs with h
    · rw [ih, fields_sep h]
    · rfl

theorem takeWhile_ne_nil {l : List α} (hl : l ≠ []) (h : l.dropWhile p = l) :
    (l.takeWhile fun a => !p a) ≠ [] := by
  cases l with
  | nil => exact absurd rfl hl
  | cons a l =>
    have ha : p a = false := by
      by_contra hpa
      rw [Bool.not_eq_false] at hpa
      rw [List.dropWhile_cons_of_pos hpa] at h
      have hlen := congrArg List.length h
      have hle := (List.dropWhile_suffix p : l.dropWhile p <:+ l).length_le
      rw [List.length_cons] at hlen
      omega
    rw [List.takeWhile_cons_of_pos (by rw [ha]; rfl)]
    exact List.cons_ne_nil _ _

theorem fields_takeWhile {l : List α} (hl : l ≠ []) (h : l.dropWhile p = l) :
    fields p l = (l.takeWhile fun a => !p a) :: fields p (l.dropWhile fun a => !p a) := by
  have hfield : ∀ a ∈ l.takeWhile fun a => !p a, p a = false := fun a ha => by
    simpa using List.mem_takeWhile_imp ha
  have hne := takeWhile_ne_nil hl h
  conv_lhs => rw [← @List.takeWhile_append_dropWhile _ (fun a => !p a) l]
  cases hrest : l.dropWhile fun a => !p a with
  | nil => rw [List.append_nil, fields_field hfield, if_neg hne, fields_nil]
  | cons a rest =>
    have ha : p a = true := by
      have hhead := List.head?_dropWhile_not (fun a => !p a) l
      rw [hrest] at hhead
      simpa using hhead
    rw [fields_field_sep hfield hne ha, fields_sep ha]

theorem not_sep_of_mem_fields {l t : List α} (ht : t ∈ fields p l) : ∀ a ∈ t, p a = false := by
  induction l using fields_induction (p := p) with
  | hfield u hu =>
    rw [fields_field hu] at ht
    split_ifs at ht
    · cases ht
    · rwa [List.mem_singleton.mp ht]
  | hsep u a l hu ha ih =>
    by_cases hnil : u = []
    · rw [hnil, List.nil_append, fields_sep ha] at ht
      exact ih ht
    · rw [fields_field_sep hu hnil ha, List.mem_cons] at ht
      rcases ht with rfl | ht
      · exact hu
      · exact ih ht

theorem splitOnP_map [BEq α] [LawfulBEq α] {z : α} {l : List α} (hz : z ∉ l) :
    (l.map fun a => if p a then z else a).splitOnP (· == z) = l.splitOnP p := by
  induction l with
  | nil => rfl
  | cons a l ih =>
    rw [List.mem_cons, not_or] at hz
    rw [List.map_cons, List.splitOnP_cons_eq_if_modifyHead, List.splitOnP_cons_eq_if_modifyHead,
      ih hz.2]
    cases p a with
    | true => simp
    | false => simp [Ne.symm hz.1]

end Sptag.Lib
