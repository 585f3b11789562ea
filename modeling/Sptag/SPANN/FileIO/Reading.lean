import Sptag.SPANN.FileIO.MultiGet
import Sptag.SPANN.FileIO.Refine

/-! `MultiGet` of keys whose value is in the cache, in the blocks of an array, or empty for want
of one; and of the keys of a `FileIO` that agrees with a map. -/

namespace Sptag.SPANN

open Sptag.Helper Sptag.Lib

namespace Target

open BlockController

theorem readAll_map {A B : Type} (read : B → Target → B) (value : A → B) (t : A → Target)
    (as : List A) :
    readAll read (as.map value) (as.map t) = as.map fun a => read (value a) (t a) := by
  induction as with
  | nil => rfl
  | cons a as ih => rw [List.map_cons, List.map_cons, readAll, ih, List.map_cons]

inductive Gives (page : Int → Bytes) : Bytes → Option Bytes → Target → Prop
  | cached (v : Bytes) : Gives page v (some v) .cached
  | absent : Gives page [] none .absent
  | array {a : Addresses} {v : Bytes} (hsize : a.postingSize = v.length)
      (hread : readPages page (a.slots.take (pages v.length)) v.length = v) :
      Gives page v none (.array a)

variable {page : Int → Bytes} {v : Bytes} {c : Option Bytes} {t : Target}

theorem Gives.requests_le (h : Gives page v c t) : t.requests ≤ pages v.length := by
  cases h with
  | cached => exact Nat.zero_le _
  | absent => exact Nat.zero_le _
  | array hsize hread => rw [requests, hsize]

theorem Gives.readString (h : Gives page v c t) : readString page (c.getD []) t = v := by
  cases h with
  | cached => rfl
  | absent => rfl
  | array hsize hread => rw [Target.readString, hsize, hread]

theorem Gives.readBuffer (h : Gives page v c t) (ht : t ≠ .absent) {value : PageBuffer}
    (hroom : pages v.length ≤ value.numPages) :
    (readBuffer page (c.elim value value.copy) t).content = (v.length, v) := by
  cases h with
  | cached => rfl
  | absent => exact absurd rfl ht
  | array hsize hread =>
    have hfits : v.length ≤ value.numPages * PageSize := by
      rw [pages_eq] at hroom
      rw [PageSize]
      omega
    rw [Option.elim_none, Target.readBuffer, hsize, min_eq_left hroom, min_eq_left hfits, hread]
    rfl

theorem Gives.available (h : Gives page v c t) {value : PageBuffer}
    (hroom : pages v.length ≤ value.numPages) :
    (Target.readBuffer page (c.elim value value.copy) t).available = (v.length, v) := by
  have hfull (ht : t ≠ .absent) :
      (Target.readBuffer page (c.elim value value.copy) t).available = (v.length, v) := by
    rw [PageBuffer.available_eq (h.readBuffer ht hroom)]
  cases h with
  | cached => exact hfull nofun
  | absent => rfl
  | array => exact hfull nofun

theorem Gives.numPages (h : Gives page v c t) {value : PageBuffer}
    (hroom : pages v.length ≤ value.numPages) :
    (c.elim value value.copy).numPages = value.numPages := by
  cases h with
  | cached => exact congrArg (· / PageSize) (PageBuffer.pageSize_copy hroom)
  | absent => rfl
  | array => rfl

end Target

namespace FileIO

open BlockController Store

variable {opt : Options} {f : FileIO} {m : Nat → Option Bytes} {key : Nat} {v : Bytes}

structure Gives (opt : Options) (f : FileIO) (key : Nat) (v : Bytes) : Prop where
  lt : key < f.store.blockMapping.length
  target : Target.Gives f.store.blockController.pages v (f.cached opt key) (f.target opt key)

theorem getCached_eq (opt : Options) (f : FileIO) (key : Nat) (value : PageBuffer) :
    f.getCached opt key value = (f.cached opt key).elim value value.copy := by
  rw [getCached]
  cases f.cached opt key <;> rfl

theorem Agrees.gives (h : Agrees opt m f) (hv : m key = some v) :
    Gives opt f key v ∧ f.target opt key ≠ .absent := by
  obtain ⟨slots, hat⟩ := h.holds.at_some hv
  unfold FileIO.target
  cases hc : f.cached opt key with
  | some v' =>
    obtain rfl : v = v' := Option.some.inj (hv.symm.trans (h.of_cached hc))
    refine ⟨⟨at?_lt_length hat, ?_⟩, nofun⟩
    unfold FileIO.target
    rw [hc]
    exact .cached v
  | none =>
    obtain ⟨ids, hat, hlen, hread⟩ := (h.holds.stored key v (by simp [hc]) hv).at_key
    have hsize : (Addresses.mk v.length ids).postingSize = v.length :=
      toSize_of_lt ((h.fits key v hv).2.trans (by decide))
    refine ⟨⟨at?_lt_length hat, ?_⟩, by rw [hat]; nofun⟩
    unfold FileIO.target
    rw [hc, hat]
    refine .array hsize ?_
    rw [List.take_of_length_le hlen.le, hread]

theorem Agrees.batchRead (h : Agrees opt m f) {n : Nat} (hn : n ≤ opt.reqs)
    (hq : (f.batchRead opt n).2.store.blockController.faults =
      f.store.blockController.faults) :
    (f.batchRead opt n).1 = true ∧ Agrees opt m (f.batchRead opt n).2 := by
  unfold FileIO.batchRead at hq ⊢
  rw [if_neg (not_lt.mpr hn)] at hq ⊢
  unfold batchReadFile at hq ⊢
  simp only at hq ⊢
  split at hq
  · rename_i hok
    rw [if_pos hok]
    exact ⟨rfl, h.holds.of_controller ⟨rfl, rfl, rfl, rfl⟩ rfl, h.caches, h.fits⟩
  · exact absurd hq (Nat.succ_ne_self _)

section Batch

variable {A : Type} {as : List A} {key : A → Nat} {v : A → Bytes}

theorem blocks_eq (hlt : ∀ a ∈ as, key a < f.store.blockMapping.length) :
    f.blocks opt (as.map key) = as.map fun a => f.target opt (key a) := by
  have hall : ∀ k ∈ as.map key, decide (k < f.store.blockMapping.length) = true :=
    List.forall_mem_map.mpr fun a ha => decide_eq_true (hlt a ha)
  unfold FileIO.blocks
  rw [List.filter_eq_self.mpr hall, List.map_map]
  rfl

theorem requests_le (hg : ∀ a ∈ as, Gives opt f (key a) (v a)) :
    ((f.blocks opt (as.map key)).map Target.requests).sum ≤
      (as.map fun a => pages (v a).length).sum := by
  rw [blocks_eq fun a ha => (hg a ha).lt, List.map_map]
  exact List.sum_le_sum fun a ha => (hg a ha).target.requests_le

theorem multiGet_eq (hg : ∀ a ∈ as, Gives opt f (key a) (v a))
    (hdone : (f.batchRead opt
      ((f.blocks opt (as.map key)).map Target.requests).sum).1 = true) :
    (f.multiGet opt (as.map key)).1 = .ok (as.map v) := by
  have hcached : ((as.map key).map fun key =>
      if key < f.store.blockMapping.length then (f.cached opt key).getD [] else []) =
      as.map fun a => (f.cached opt (key a)).getD [] := by
    rw [List.map_map]
    apply List.map_congr_left
    intro a ha
    exact if_pos (hg a ha).lt
  rw [multiGet]
  simp only [hdone, if_true, hcached]
  rw [blocks_eq fun a ha => (hg a ha).lt, Target.readAll_map]
  exact congrArg Except.ok (List.map_congr_left fun a ha => (hg a ha).target.readString)

theorem multiGetBuffers_eq {value : A → PageBuffer}
    (hg : ∀ a ∈ as, Gives opt f (key a) (v a) ∧ pages (v a).length ≤ (value a).numPages) :
    f.multiGetBuffers opt (as.map key) (as.map value) =
      let done := f.batchRead opt (as.map fun a => (value a).numPages).sum
      (if done.1 then
          .ok (as.map fun a => Target.readBuffer f.store.blockController.pages
            ((f.cached opt (key a)).elim (value a) (value a).copy) (f.target opt (key a)))
        else .error .fail, done.2) := by
  have hcached : List.zipWith (fun key (value : PageBuffer) =>
      if key < f.store.blockMapping.length then f.getCached opt key value else value)
        (as.map key) (as.map value) =
      as.map fun a => (f.cached opt (key a)).elim (value a) (value a).copy := by
    rw [List.zipWith_map, List.zipWith_self]
    apply List.map_congr_left
    intro a ha
    rw [if_pos (hg a ha).1.lt, getCached_eq]
  have hpages : as.map (PageBuffer.numPages ∘
      fun a => (f.cached opt (key a)).elim (value a) (value a).copy) =
      as.map fun a => (value a).numPages :=
    List.map_congr_left fun a ha => (hg a ha).1.target.numPages (hg a ha).2
  rw [multiGetBuffers]
  simp only [hcached, blocks_eq fun a ha => (hg a ha).1.lt, List.length_map]
  rw [List.take_of_length_le (by rw [List.length_map]), List.map_map, hpages, Target.readAll_map]

theorem Agrees.multiGet (h : Agrees opt m f) (hm : ∀ a ∈ as, m (key a) = some (v a))
    (hreqs : (as.map fun a => pages (v a).length).sum ≤ opt.reqs)
    (hq : (f.multiGet opt (as.map key)).2.store.blockController.faults =
      f.store.blockController.faults) :
    (f.multiGet opt (as.map key)).1 = .ok (as.map v) ∧
      Agrees opt m (f.multiGet opt (as.map key)).2 := by
  have hg : ∀ a ∈ as, Gives opt f (key a) (v a) := fun a ha => (h.gives (hm a ha)).1
  obtain ⟨hdone, hagrees⟩ := h.batchRead ((requests_le hg).trans hreqs) hq
  exact ⟨multiGet_eq hg hdone, hagrees⟩

theorem Agrees.multiGetBuffers (h : Agrees opt m f) {value : A → PageBuffer}
    (hm : ∀ a ∈ as, m (key a) = some (v a) ∧ pages (v a).length ≤ (value a).numPages)
    (hreqs : (as.map fun a => (value a).numPages).sum ≤ opt.reqs)
    (hq : (f.multiGetBuffers opt (as.map key) (as.map value)).2.store.blockController.faults =
      f.store.blockController.faults) :
    ((f.multiGetBuffers opt (as.map key) (as.map value)).1.toOption.map
        (·.map PageBuffer.content)) = some (as.map fun a => ((v a).length, v a)) ∧
      Agrees opt m (f.multiGetBuffers opt (as.map key) (as.map value)).2 := by
  have hg : ∀ a ∈ as, Gives opt f (key a) (v a) ∧ pages (v a).length ≤ (value a).numPages :=
    fun a ha => ⟨(h.gives (hm a ha).1).1, (hm a ha).2⟩
  rw [multiGetBuffers_eq hg] at hq ⊢
  obtain ⟨hdone, hagrees⟩ := h.batchRead hreqs hq
  refine ⟨?_, hagrees⟩
  simp only [if_pos hdone]
  apply congrArg some
  simp only [List.map_map]
  apply List.map_congr_left
  intro a ha
  exact (hg a ha).1.target.readBuffer (h.gives (hm a ha).1).2 (hg a ha).2

end Batch

end FileIO

end Sptag.SPANN
