import Sptag.SPANN.FileIO.Mapped
import Sptag.SPANN.FileIO.Reading

/-! `MultiGet` against `Get`, for keys that `Get` answers with a value or does not find. -/

namespace Sptag.SPANN

open Sptag.Helper Sptag.Lib

theorem Addresses.Shaped.nonneg {a : Addresses} (h : a.Shaped) (hsize : ¬ toInt a.size < 0) :
    0 ≤ a.size := by
  obtain hneg | hpos := h.1.eq_or_lt
  · rw [← hneg] at hsize
    exact absurd (by decide) hsize
  · exact hpos

theorem BlockController.readBlocks_eq {opt : Options} {bc : BlockController} {size : Int}
    {slots : List Int} {v : Bytes} (h : (bc.readBlocks opt size slots).1 = some v) :
    v = readPages bc.pages (slots.take (Sptag.pages size.toNat)) size.toNat := by
  rw [readBlocks] at h
  simp only at h
  split at h
  next => cases h
  next =>
    split at h
    · exact (Option.some.inj h).symm
    · cases h

namespace Store

variable {st : Store} {key : Nat}

theorem locate_ok {a : Addresses} (h : st.locate key = .ok a) :
    key < st.blockMapping.length ∧ st.at? key = some a ∧ ¬ toInt a.size < 0 := by
  rw [locate] at h
  split at h
  next => cases h
  next hlt =>
    split at h
    next => cases h
    next b hat =>
      split at h
      next => cases h
      next hsize =>
        cases h
        exact ⟨Nat.lt_of_not_le hlt, hat, hsize⟩

theorem locate_keyNotFound (h : st.locate key = .error .keyNotFound) :
    key < st.blockMapping.length ∧ st.at? key = none := by
  rw [locate] at h
  split at h
  next => cases h
  next hlt =>
    split at h
    next hat => exact ⟨Nat.lt_of_not_le hlt, hat⟩
    next =>
      split at h
      · cases h
      · cases h

end Store

namespace FileIO

open BlockController Store

variable (opt : Options) (f : FileIO) (key : Nat)

def valueOf : Bytes := (f.get opt key).1.toOption.getD []

def Readable : Prop :=
  (f.get opt key).1 = .ok (f.valueOf opt key) ∨ (f.get opt key).1 = .error .keyNotFound

instance : Decidable (Readable opt f key) := inferInstanceAs (Decidable (_ ∨ _))

variable {opt f key}

theorem valueOf_of_ok {v : Bytes} (h : (f.get opt key).1 = .ok v) : f.valueOf opt key = v := by
  rw [valueOf, h]
  rfl

theorem valueOf_of_error {e : ErrorCode} (h : (f.get opt key).1 = .error e) :
    f.valueOf opt key = [] := by
  rw [valueOf, h]
  rfl

theorem Readable.error_eq {e : ErrorCode} (h : Readable opt f key)
    (he : (f.get opt key).1 = .error e) : e = .keyNotFound := by
  obtain hok | hnone := h
  · exact absurd (he.symm.trans hok) nofun
  · exact Except.error.inj (he.symm.trans hnone)

theorem Sheltered.cached_none (h : Sheltered opt f) (hat : f.store.at? key = none) :
    f.cached opt key = none := by
  cases hc : f.cached opt key with
  | none => rfl
  | some v =>
    rw [cached] at hc
    split at hc
    next => exact absurd hc nofun
    next hs =>
      have hmapped := (h.only hs _ _ (LRUCache.mem_cache_of_find hc)).2
      rw [hat] at hmapped
      cases hmapped

theorem Sheltered.gives (h : Sheltered opt f) (hread : Readable opt f key)
    (hlength : (f.valueOf opt key).length < 2 ^ 64) :
    Gives opt f key (f.valueOf opt key) := by
  cases hlocate : f.store.locate key with
  | error e =>
    have hget : (f.get opt key).1 = .error e := by
      unfold FileIO.get
      rw [hlocate]
    obtain rfl := hread.error_eq hget
    obtain ⟨hlt, hat⟩ := locate_keyNotFound hlocate
    refine ⟨hlt, ?_⟩
    rw [valueOf_of_error hget, target, h.cached_none hat, hat]
    exact .absent
  | ok a =>
    obtain ⟨hlt, hat, hsize⟩ := locate_ok hlocate
    refine ⟨hlt, ?_⟩
    cases hc : f.cached opt key with
    | some v =>
      have hget : (f.get opt key).1 = .ok v := by
        unfold FileIO.get
        rw [hlocate, hc]
      rw [valueOf_of_ok hget, target, hc]
      exact .cached v
    | none =>
      have hget : (f.get opt key).1 = (f.store.read opt a).1 := by
        unfold FileIO.get
        rw [hlocate, hc]
      rw [target, hc, hat]
      cases hgot : (f.store.blockController.readBlocks opt a.size a.slots).1 with
      | none =>
        have hfail : (f.get opt key).1 = .error .fail := by rw [hget, Store.read, hgot]
        cases hread.error_eq hfail
      | some v =>
        have hok : (f.get opt key).1 = .ok v := by rw [hget, Store.read, hgot]
        rw [valueOf_of_ok hok] at hlength ⊢
        have hv := readBlocks_eq hgot
        have hshaped := h.shaped key a hat
        obtain ⟨size, hcast⟩ := Int.eq_ofNat_of_zero_le (hshaped.nonneg hsize)
        rw [hcast, Int.toNat_natCast] at hv
        have hlen : v.length = size := by
          have hslots := hshaped.2
          rw [hcast, Int.toNat_natCast] at hslots
          rw [hv]
          apply readPages_length_of_le
          rw [List.length_take, Nat.min_eq_left hslots, pages_eq, PageSize]
          omega
        refine .array ?_ ?_
        · rw [Addresses.postingSize, hcast, hlen, toSize_of_lt (hlen ▸ hlength)]
        · rw [hlen]
          exact hv.symm

theorem batchRead_reliable (hio : f.store.blockController.io = .reliable) {n : Nat}
    (hn : n ≤ opt.reqs) : (f.batchRead opt n).1 = true := by
  rw [batchRead, if_neg (Nat.not_lt.mpr hn), batchReadFile, hio]
  rfl

/-- In every state reached, whatever failed before, a batch of keys that `Get` answers with a
value or does not find is read at every position to what `Get` answers, and to nothing where it
does not find the key. -/
theorem multiGet_pointwise (hr : Reachable opt (fun _ _ => True) f) {es : List (Nat × PageBuffer)}
    (hread : ∀ e ∈ es, Readable opt (f.withIo .reliable) e.1 ∧
      ((f.withIo .reliable).valueOf opt e.1).length < 2 ^ 64)
    (hreqs : (es.map fun e => pages ((f.withIo .reliable).valueOf opt e.1).length).sum ≤
      opt.reqs) :
    ((f.withIo .reliable).multiGet opt (es.map (·.1))).1 =
        .ok (es.map fun e => (f.withIo .reliable).valueOf opt e.1) ∧
      ((∀ e ∈ es, pages ((f.withIo .reliable).valueOf opt e.1).length ≤ e.2.numPages) →
        (es.map fun e => e.2.numPages).sum ≤ opt.reqs →
        ((f.withIo .reliable).multiGetBuffers opt (es.map (·.1)) (es.map (·.2))).1.toOption.map
            (·.map PageBuffer.available) =
          some (es.map fun e => (((f.withIo .reliable).valueOf opt e.1).length,
            (f.withIo .reliable).valueOf opt e.1))) := by
  have hsheltered := hr.sheltered.withIo .reliable
  have hio : (f.withIo .reliable).store.blockController.io = .reliable := rfl
  generalize f.withIo .reliable = f at *
  have hg : ∀ e ∈ es, Gives opt f e.1 (f.valueOf opt e.1) := fun e he =>
    hsheltered.gives (hread e he).1 (hread e he).2
  refine ⟨?_, fun hroom hpages => ?_⟩
  · exact multiGet_eq hg (batchRead_reliable hio ((requests_le hg).trans hreqs))
  · have hg' := fun e he => And.intro (hg e he) (hroom e he)
    rw [multiGetBuffers_eq hg']
    simp only [if_pos (batchRead_reliable hio hpages)]
    apply congrArg some
    simp only [List.map_map]
    apply List.map_congr_left
    intro e he
    exact (hg e he).target.available (hroom e he)

def evicted : FileIO :=
  step twoBytes (step twoBytes (initial twoBytes) ⟨.put 1 [7], .reliable⟩)
    ⟨.put 2 [8, 9], .reliable⟩

theorem evicted_reachable : Reachable twoBytes (fun _ _ => True) evicted :=
  .step _ (.step _ .initial trivial) trivial

def onePage : PageBuffer := ⟨4096, 0, []⟩

theorem multiGet_pointwise_mixed :
    ((evicted.withIo .reliable).multiGet twoBytes [1, 0, 2, 1]).1 = .ok [[7], [], [8, 9], [7]] ∧
      ((evicted.withIo .reliable).multiGetBuffers twoBytes [1, 0, 2, 1]
          [onePage, onePage, onePage, onePage]).1.toOption.map (·.map PageBuffer.available) =
        some [(1, [7]), (0, []), (2, [8, 9]), (1, [7])] := by
  have hpointwise := @multiGet_pointwise twoBytes evicted evicted_reachable
    [(1, onePage), (0, onePage), (2, onePage), (1, onePage)] (by decide) (by decide)
  have hbuffers := hpointwise.2 (by decide) (by decide)
  exact ⟨hpointwise.1, hbuffers⟩

theorem multiGet_skips_absent :
    Reachable twoBytes (fun _ _ => True) evicted ∧
      ¬ ((∃ vs, ((evicted.withIo .reliable).multiGet twoBytes [1, 0]).1 = .ok vs) ↔
        ∀ key ∈ [1, 0], ∃ v, ((evicted.withIo .reliable).get twoBytes key).1 = .ok v) := by
  refine ⟨evicted_reachable, fun hiff => ?_⟩
  have hsucceeds : ((evicted.withIo .reliable).multiGet twoBytes [1, 0]).1 = .ok [[7], []] := by
    decide
  obtain ⟨v, hv⟩ := hiff.mp ⟨_, hsucceeds⟩ 0 (by decide)
  have hnone : ((evicted.withIo .reliable).get twoBytes 0).1 = .error .keyNotFound := by decide
  exact absurd (hnone.symm.trans hv) nofun

end FileIO

end Sptag.SPANN
