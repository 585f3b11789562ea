import Mathlib

/-! Cursors over a sequence of items, which are called until they have nothing left: a call
passes over items until one is worth an answer. -/

namespace Sptag.Lib

variable {S V I A E : Type*}

inductive Reply (A E : Type*)
  | found (a : A)
  | done
  | failed (e : E)

inductive Verdict (A E : Type*)
  | skip
  | emit (a : A)
  | fail (e : E)

def exhaust (next : S → Option (Reply A E × S)) : (calls : Nat) → S → Option (List A)
  | 0, _ => none
  | calls + 1, s =>
    match next s with
    | none => none
    | some (.found a, s) => (exhaust next calls s).map (a :: ·)
    | some (.done, _) => some []
    | some (.failed _, s) => exhaust next calls s

def ask (judge : V → I → Verdict A E × V) : V → List I → Reply A E × V × List I
  | v, [] => (.done, v, [])
  | v, i :: is =>
    match judge v i with
    | (.skip, v) => ask judge v is
    | (.emit a, v) => (.found a, v, is)
    | (.fail e, v) => (.failed e, v, is)

def sift (judge : V → I → Verdict A E × V) : V → List I → List A
  | _, [] => []
  | v, i :: is =>
    match judge v i with
    | (.emit a, v) => a :: sift judge v is
    | (_, v) => sift judge v is

section Exhaust

variable {next : S → Option (Reply A E × S)} {judge : V → I → Verdict A E × V}

theorem exhaust_succ {calls : Nat} {s : S} {out : List A} (h : exhaust next calls s = some out) :
    exhaust next (calls + 1) s = some out := by
  induction calls generalizing s out with
  | zero => cases h
  | succ calls ih =>
    rw [exhaust] at h ⊢
    split at h
    · cases h
    · rename_i a s' hnext
      obtain ⟨out', hout', rfl⟩ := Option.map_eq_some_iff.mp h
      rw [ih hout', Option.map_some]
    · exact h
    · exact ih h

theorem exhaust_add {calls : Nat} {s : S} {out : List A}
    (h : exhaust next calls s = some out) (k : Nat) :
    exhaust next (calls + k) s = some out := by
  induction k with
  | zero => exact h
  | succ k ih => exact exhaust_succ ih

theorem exhaust_unique {calls calls' : Nat} {s : S} {out out' : List A}
    (h : exhaust next calls s = some out)
    (h' : exhaust next calls' s = some out') : out = out' := by
  have hadd := exhaust_add h calls'
  rw [Nat.add_comm, exhaust_add h' calls] at hadd
  exact (Option.some.inj hadd).symm

theorem sift_of_ask {v v' : V} {is is' : List I} {reply : Reply A E}
    (h : ask judge v is = (reply, v', is')) :
    match reply with
    | .found a => sift judge v is = a :: sift judge v' is' ∧ is'.length < is.length
    | .done => sift judge v is = []
    | .failed _ => sift judge v is = sift judge v' is' ∧ is'.length < is.length := by
  induction is generalizing v with
  | nil =>
    cases h
    rfl
  | cons i is ih =>
    rw [ask] at h
    split at h
    · rename_i w hjudge
      have hrest := ih h
      rw [sift, hjudge]
      cases reply with
      | found a => exact ⟨hrest.1, Nat.lt_succ_of_lt hrest.2⟩
      | done => exact hrest
      | failed e => exact ⟨hrest.1, Nat.lt_succ_of_lt hrest.2⟩
    · rename_i a w hjudge
      cases h
      rw [sift, hjudge]
      exact ⟨rfl, Nat.lt_succ_self _⟩
    · rename_i e w hjudge
      cases h
      rw [sift, hjudge]
      exact ⟨rfl, Nat.lt_succ_self _⟩

theorem exhaust_eq_sift (Left : S → V → List I → Prop)
    (hstep : ∀ s v is, Left s v is → ∃ s', next s = some ((ask judge v is).1, s') ∧
      Left s' (ask judge v is).2.1 (ask judge v is).2.2)
    {s : S} {v : V} {is : List I} (h : Left s v is) :
    exhaust next (is.length + 1) s = some (sift judge v is) := by
  induction hn : is.length using Nat.strong_induction_on generalizing s v is with
  | _ n ih =>
    obtain ⟨s', hnext, hleft⟩ := hstep s v is h
    rcases hask : ask judge v is with ⟨reply, v', is'⟩
    rw [hask] at hnext hleft
    have hsift := sift_of_ask hask
    rw [exhaust, hnext]
    cases reply with
    | done => exact congrArg some hsift.symm
    | found a =>
      have hlt : is'.length + 1 ≤ n := hn ▸ hsift.2
      have hall := exhaust_add (ih is'.length hlt hleft rfl) (n - (is'.length + 1))
      rw [Nat.add_sub_cancel' hlt] at hall
      dsimp only
      rw [hall, hsift.1, Option.map_some]
    | failed e =>
      have hlt : is'.length + 1 ≤ n := hn ▸ hsift.2
      have hall := exhaust_add (ih is'.length hlt hleft rfl) (n - (is'.length + 1))
      rw [Nat.add_sub_cancel' hlt] at hall
      dsimp only
      rw [hall, hsift.1]

theorem ask_append {v : V} {is js : List I} : ask judge v (is ++ js) =
    match ask judge v is with
    | (.done, v', _) => ask judge v' js
    | (reply, v', is') => (reply, v', is' ++ js) := by
  induction is generalizing v with
  | nil => rfl
  | cons i is ih =>
    rw [List.cons_append, ask, ask]
    rcases judge v i with ⟨verdict, w⟩
    cases verdict with
    | skip => exact ih
    | emit a => rfl
    | fail e => rfl

end Exhaust

section Novel

variable {K : Type*} [DecidableEq K] (key : A → K) (skip keep : K → Bool)

def novel : List K → List A → List A
  | _, [] => []
  | seen, a :: as =>
    if skip (key a) = true ∨ key a ∈ seen then novel seen as
    else if keep (key a) then a :: novel (key a :: seen) as
    else novel (key a :: seen) as

variable {key skip keep} {seen : List K} {as : List A}

theorem mem_of_mem_novel {a : A} (h : a ∈ novel key skip keep seen as) : a ∈ as := by
  induction as generalizing seen with
  | nil => exact h
  | cons b as ih =>
    unfold novel at h
    split at h
    · exact .tail _ (ih h)
    · split at h
      · rcases List.mem_cons.mp h with rfl | h
        · exact .head _
        · exact .tail _ (ih h)
      · exact .tail _ (ih h)

theorem mem_keys_novel {k : K} : k ∈ (novel key skip keep seen as).map key ↔
    (skip k = false ∧ keep k = true ∧ k ∉ seen) ∧ k ∈ as.map key := by
  induction as generalizing seen with
  | nil => simp [novel]
  | cons a as ih =>
    have hcons : ∀ b : K, (k ∈ b :: seen) ↔ k = b ∨ k ∈ seen := fun b => List.mem_cons
    unfold novel
    rw [List.map_cons, List.mem_cons]
    split
    · rename_i hout
      rw [ih]
      refine and_congr_right fun hk => (or_iff_right ?_).symm
      rintro rfl
      rcases hout with hskip | hseen
      · exact Bool.false_ne_true (hk.1.symm.trans hskip)
      · exact hk.2.2 hseen
    · rename_i hin
      obtain ⟨hskip, hseen⟩ := not_or.mp hin
      by_cases hka : k = key a
      · subst hka
        split
        · rename_i hkeep
          exact iff_of_true (.head _) ⟨⟨Bool.eq_false_iff.mpr hskip, hkeep, hseen⟩, .inl rfl⟩
        · rename_i hkeep
          rw [ih]
          exact iff_of_false (fun h => h.1.2.2 (.head _)) fun h => hkeep h.1.2.1
      · have htail : k ∈ (novel key skip keep (key a :: seen) as).map key ↔
            (skip k = false ∧ keep k = true ∧ k ∉ seen) ∧ (k = key a ∨ k ∈ as.map key) := by
          rw [ih, hcons, or_iff_right hka, or_iff_right hka]
        split
        · rw [List.map_cons, List.mem_cons, or_iff_right hka, htail]
        · exact htail

theorem nodup_keys_novel : ((novel key skip keep seen as).map key).Nodup := by
  induction as generalizing seen with
  | nil => exact List.nodup_nil
  | cons a as ih =>
    unfold novel
    split
    · exact ih
    · split
      · rw [List.map_cons, List.nodup_cons]
        exact ⟨fun h => (mem_keys_novel.mp h).1.2.2 (.head _), ih⟩
      · exact ih

end Novel

end Sptag.Lib
