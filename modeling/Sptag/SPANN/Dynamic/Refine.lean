import Sptag.Lib.Pack
import Sptag.SPANN.Dynamic.Update

/-! `RefineIndex` of `SPANN::Index` and of the searcher: heads and vectors get the ids of
packed ranges, and the translate map, the versions and the postings are written anew. -/

namespace Sptag.SPANN.Dynamic

open COMMON Lib

variable {V D : Type}

def maxSize : Int := 2 ^ 31 - 1

def translateRow (vid : Int) : Option Int := if vid = maxSize then none else some vid

namespace HeadIndex

def packing (index : HeadIndex V) : Packing := pack index.deleted index.num fun _ => 0

def newId (index : HeadIndex V) (headID : Nat) : Nat := (index.packing.mapping headID).toNat

def refine (index : HeadIndex V) : HeadIndex V where
  num := index.packing.newR
  sample headID := index.sample (index.packing.newToOld.getD headID 0)
  deleted _ := false

end HeadIndex

structure Renaming where
  newToOld : List Nat
  mapping : Nat → Int
  newR : Nat
  translate : Nat → Option Int
  versionMap : VersionLabel

namespace State

def idPacking (s : State V) (p_mapping : List Int) : Packing :=
  pack (fun v => s.versionMap.deleted v) s.versionMap.count fun v => p_mapping.getD v 0

/-- The new row of a contained head; an id that is no row of the version map leaves it
unwritten, a deleted one is logged as an error and mapped all the same. -/
def headRow (s : State V) (mapping : Nat → Int) (headID : Nat) : Option (Option Int) :=
  match s.translate headID with
  | none => some none
  | some oldID =>
    if 0 ≤ oldID ∧ oldID < s.versionMap.count then some (translateRow (mapping oldID.toNat))
    else none

def headRows (s : State V) (mapping : Nat → Int) : List (Nat × Option Int) :=
  (List.range s.index.num).filterMap fun h =>
    if s.index.containSample h then (s.headRow mapping h).map (s.index.newId h, ·) else none

/-- Fresh rows of the translate map are filled with ones, -1 as a `SizeType`. The head
index and the translate map have the same rows. -/
def renameIds (s : State V) (p_mapping : List Int) (dataCapacity : Fin (2 ^ 31)) : Renaming :=
  let ids := s.idPacking p_mapping
  { newToOld := ids.newToOld
    mapping := ids.mapping
    newR := ids.newR
    translate := writeRows (fun _ => some (-1)) (s.headRows ids.mapping)
    versionMap :=
      { data := (List.range ids.newR).map fun i =>
        s.versionMap.getVersion (ids.newToOld.getD i 0 : Nat)
        deletedNum := 0
        capacity := dataCapacity
        capacity_lt := dataCapacity.isLt } }

def renamed (s : State V) (mapping : Nat → Int) (p : Posting V) : Posting V :=
  (s.live p).map fun e => { e with vid := mapping e.vid.toNat }

end State

structure Rewriting where
  postingSizes : Nat → Nat
  checkSums : Nat → ChecksumType
  mergeList : List Nat
  finalcode : ErrorCode

variable (env : Env V D)

/-- The loop over the heads, in one thread. A posting that is not read or fails its
checksum is an error in the end, but what was read is written back. -/
def rewritePostings (newId : Nat → Nat) (mapping : Nat → Int) :
    List Nat → Rewriting → Upd V Rewriting
  | [], acc => pure acc
  | headID :: heads, acc => do
    let s ← get
    if !s.index.containSample headID then rewritePostings newId mapping heads acc
    else do
      let read ← dbGet env .refineGet headID
      let s ← get
      let valid := read.any (env.validate · (s.checkSums headID))
      let posting := s.renamed mapping (read.getD [])
      let mergeList := if posting.length ≤ env.opt.mergeThreshold then
        acc.mergeList ++ [newId headID] else acc.mergeList
      if !(← dbPut env .refinePut (newId headID) posting) then
        pure { acc with mergeList := mergeList, finalcode := .fail }
      else
        rewritePostings newId mapping heads
          { postingSizes := Function.update acc.postingSizes (newId headID) posting.length
            checkSums := Function.update acc.checkSums (newId headID) (env.calcChecksum posting)
            mergeList := mergeList
            finalcode := if valid then acc.finalcode else .fail }

def State.reload (s : State V) (r : Renaming) (acc : Rewriting) : State V :=
  { s with
    index := s.index.refine
    postingSizes := acc.postingSizes
    checkSums := acc.checkSums
    records := s.index.packing.newR
    versionMap := r.versionMap
    translate := r.translate }

/-- `RefineIndex` of the searcher with `p_prereassign` off. Every row of the new records is
written before it is read. -/
def refineSearcher (r : Renaming) : Upd V ErrorCode := do
  let s ← get
  let acc ← rewritePostings env s.index.newId r.mapping (List.range s.index.num)
    ⟨fun _ => 0, fun _ => 0, [], .success⟩
  if acc.finalcode ≠ .success then pure acc.finalcode
  else do
    modify (·.reload r acc)
    acc.mergeList.forM (mergeAsync env)
    pure .success

/-- `Index::RefineIndex`, once all jobs are done; `p_mapping` is empty unless the caller
passes a vector. -/
def refineIndex (p_mapping : List Int) (dataCapacity : Fin (2 ^ 31)) : Upd V ErrorCode := do
  let s ← get
  if s.versionMap.count = 0 then pure .emptyIndex
  else if s.index.packing.newR = 0 then pure .emptyIndex
  else refineSearcher env (s.renameIds p_mapping dataCapacity)

namespace State

variable {env} (s : State V) (r : Renaming)

def Live (vid : Nat) : Prop := vid < s.versionMap.count ∧ s.versionMap.deleted vid = false

/-- What the head stands for under the new ids: no vector when its own is deleted. -/
def newSlot (headID : Nat) : Option Int :=
  match s.translate headID with
  | none => none
  | some vid => if s.versionMap.deleted vid then none else some (r.mapping vid.toNat)

/-- The ids a search finds after the refine: those of the new heads, -1 apart, and those of
the rewritten postings. -/
def Found (vid : Int) : Prop :=
  (∃ h < s.index.packing.newR, r.translate h = some vid ∧ vid ≠ -1) ∨
    ∃ p, ∃ e ∈ s.renamed r.mapping p, e.vid = vid

structure Renames : Prop where
  nodup : r.newToOld.Nodup
  mem_iff : ∀ v, v ∈ r.newToOld ↔ s.Live v
  newR_eq : r.newR = r.newToOld.length
  inverts : ∀ i v : Nat, r.newToOld[i]? = some v → r.mapping v = i
  versions : r.versionMap.data = r.newToOld.map fun v : Nat => s.versionMap.getVersion v
  heads : ∀ h, s.index.containSample h = true → r.translate (s.index.newId h) = s.newSlot r h
  found : ∀ vid, s.Found r vid → ∃ v, s.Live v ∧ vid = r.mapping v

end State

namespace HeadIndex

variable {index : HeadIndex V} {h h' : Nat}

theorem contain_iff : index.containSample h = true ↔ h < index.num ∧ index.deleted h = false := by
  simp [containSample]

theorem packing_newId (hc : index.containSample h = true) :
    index.packing.newToOld[index.newId h]? = some h := by
  obtain ⟨hlt, hlive⟩ := contain_iff.mp hc
  obtain ⟨j, hj, hmap⟩ := exists_slot hlt hlive
  rw [newId, packing, hmap, Int.toNat_natCast]
  exact hj

theorem newId_inj (hc : index.containSample h = true) (hc' : index.containSample h' = true)
    (heq : index.newId h = index.newId h') : h = h' := by
  have hslot := packing_newId hc
  rw [heq, packing_newId hc'] at hslot
  exact (Option.some.inj hslot).symm

theorem exists_newId (hlt : h < index.packing.newR) :
    ∃ old, index.containSample old = true ∧ index.newId old = h := by
  obtain ⟨old, hget⟩ : ∃ old, index.packing.newToOld[h]? = some old :=
    ⟨_, List.getElem?_eq_getElem (hlt.trans_eq length_pack.symm)⟩
  refine ⟨old, contain_iff.mpr (mem_pack.mp (List.mem_of_getElem? hget)), ?_⟩
  rw [newId, packing, mapping_pack hget, Int.toNat_natCast]

theorem newId_eq_or_deleted (hc : index.containSample h = true) :
    index.newId h = h ∨ index.deleted (index.newId h) = true :=
  ((filled_pack index.num fun _ => 0).slot _ _ (packing_newId hc)).imp Eq.symm id

end HeadIndex

namespace State

variable {s : State V} {p_mapping : List Int} {dataCapacity : Fin (2 ^ 31)} {h : Nat}

theorem live_iff {v : Nat} : s.Live v ↔ v ∈ (s.renameIds p_mapping dataCapacity).newToOld :=
  (@mem_pack (fun v : Nat => s.versionMap.deleted v) _ _ fun v => p_mapping.getD v 0).symm

theorem live_of_not_deleted {vid : Int} (hd : s.versionMap.deleted vid = false) :
    0 ≤ vid ∧ s.Live vid.toNat := by
  have hlabel : s.versionMap.label? vid ≠ none := fun h => by simp [VersionLabel.deleted, h] at hd
  rw [ne_eq, VersionLabel.label?_eq_none_iff] at hlabel
  have hnonneg : 0 ≤ vid := by omega
  exact ⟨hnonneg, by omega, by rwa [Int.toNat_of_nonneg hnonneg]⟩

theorem exists_mapping {v : Nat} (hv : s.Live v) :
    ∃ i : Nat, (s.renameIds p_mapping dataCapacity).newToOld[i]? = some v ∧
      (s.renameIds p_mapping dataCapacity).mapping v = i ∧ i < s.versionMap.count := by
  obtain ⟨i, hi, hmap⟩ := @exists_slot (fun v : Nat => s.versionMap.deleted v) _ _
    (fun v => p_mapping.getD v 0) hv.1 hv.2
  refine ⟨i, hi, hmap, ?_⟩
  obtain ⟨hlt, -⟩ := List.getElem?_eq_some_iff.mp hi
  exact (hlt.trans_eq length_pack).trans_le (filled_pack _ _).newR_le

theorem map_fst_headRows_nodup (mapping : Nat → Int) :
    ((s.headRows mapping).map Prod.fst).Nodup := by
  rw [headRows, List.map_filterMap]
  refine List.Nodup.filterMap (fun h h' k hk hk' => ?_) List.nodup_range
  have hkey : ∀ {h}, k ∈ ((if s.index.containSample h then
      (s.headRow mapping h).map (s.index.newId h, ·) else none).map Prod.fst : Option Nat) →
      s.index.containSample h = true ∧ s.index.newId h = k := by
    intro h hk
    split at hk
    · rename_i hc
      refine ⟨hc, ?_⟩
      cases hrow : s.headRow mapping h with
      | none => simp [hrow] at hk
      | some row => simpa [hrow] using hk
    · cases hk
  obtain ⟨hc, heq⟩ := hkey hk
  obtain ⟨hc', heq'⟩ := hkey hk'
  exact HeadIndex.newId_inj hc hc' (heq.trans heq'.symm)

theorem translate_newId (hc : s.index.containSample h = true) :
    (s.renameIds p_mapping dataCapacity).translate (s.index.newId h) =
      (s.headRow (s.renameIds p_mapping dataCapacity).mapping h).getD (some (-1)) := by
  cases hrow : s.headRow (s.renameIds p_mapping dataCapacity).mapping h with
  | some row =>
    refine writeRows_of_mem _ (map_fst_headRows_nodup _) (List.mem_filterMap.mpr ⟨h, ?_, ?_⟩)
    · exact List.mem_range.mpr (HeadIndex.contain_iff.mp hc).1
    · rw [if_pos hc]
      exact congrArg (Option.map _) hrow
  | none =>
    refine writeRows_of_not_mem _ fun hmem => ?_
    obtain ⟨w, hw, hkey⟩ := List.mem_map.mp hmem
    obtain ⟨h', -, hrow'⟩ := List.mem_filterMap.mp hw
    split at hrow'
    · rename_i hc'
      obtain ⟨row, hsome, rfl⟩ := Option.map_eq_some_iff.mp hrow'
      rw [HeadIndex.newId_inj hc' hc hkey] at hsome
      exact absurd (hsome.symm.trans hrow) (Option.some_ne_none _)
    · cases hrow'

theorem renameIds_versions :
    (s.renameIds p_mapping dataCapacity).versionMap.data =
      (s.renameIds p_mapping dataCapacity).newToOld.map fun v : Nat =>
        s.versionMap.getVersion v := by
  refine List.ext_getElem (by simp [renameIds, idPacking, length_pack]) fun i hi hi' => ?_
  rw [List.length_map] at hi'
  have hget := List.getElem?_eq_getElem hi'
  simp only [renameIds, List.getElem_map, List.getElem_range, List.getD_eq_getElem?_getD] at hget ⊢
  rw [hget, Option.getD_some]

theorem mapping_of_deleted {v : Nat} (hd : s.versionMap.deleted v = true) :
    (s.renameIds p_mapping dataCapacity).mapping v = p_mapping.getD v 0 := mapping_pack_dead hd

theorem renamed_live {mapping : Nat → Int} {p : Posting V} {e : Entry V}
    (he : e ∈ s.renamed mapping p) : ∃ v, s.Live v ∧ e.vid = mapping v := by
  obtain ⟨e', he', rfl⟩ := List.mem_map.mp he
  have hcur := (List.mem_filter.mp he').2
  simp only [current, Bool.and_eq_true, Bool.not_eq_true'] at hcur
  exact ⟨_, (live_of_not_deleted hcur.1).2, rfl⟩

/-- The rewritten row of a head is right exactly when its vector is not deleted, or the
caller's content says that it is no vector. -/
theorem translate_newId_iff (hrows : s.versionMap.count < 2 ^ 31)
    (hc : s.index.containSample h = true) :
    (s.renameIds p_mapping dataCapacity).translate (s.index.newId h) =
        s.newSlot (s.renameIds p_mapping dataCapacity) h ↔
      ∀ vid, s.translate h = some vid → s.versionMap.deleted vid = true →
        0 ≤ vid ∧ vid < s.versionMap.count ∧ p_mapping.getD vid.toNat 0 = maxSize := by
  rw [translate_newId hc, headRow, newSlot]
  cases htrans : s.translate h with
  | none => simp
  | some vid =>
    simp only [Option.some.injEq, forall_eq']
    cases hd : s.versionMap.deleted vid with
    | false =>
      obtain ⟨hnonneg, hlive⟩ := live_of_not_deleted hd
      obtain ⟨i, -, hmap, hi⟩ := @exists_mapping _ _ p_mapping dataCapacity _ hlive
      have hlt := hlive.1
      rw [if_pos (by omega), Option.getD_some, translateRow, if_neg (by rw [hmap, maxSize]; omega)]
      simp
    | true =>
      by_cases hrange : 0 ≤ vid ∧ vid < s.versionMap.count
      · have hd' : s.versionMap.deleted (vid.toNat : Int) = true := by
          rwa [Int.toNat_of_nonneg hrange.1]
        rw [if_pos hrange, Option.getD_some, mapping_of_deleted hd', translateRow]
        simp [hrange]
      · rw [if_neg hrange]
        simp only [Option.getD_none, if_true, reduceCtorEq, false_iff, forall_const]
        exact fun h => hrange ⟨h.1, h.2.1⟩

end State

/-- `RefineIndex` renames consistently exactly when no contained head stands for a deleted
vector, those apart for which the caller's `p_mapping` already holds `MaxSize`. -/
theorem renames_iff (s : State V) (hrows : s.versionMap.count < 2 ^ 31) (p_mapping : List Int)
    (dataCapacity : Fin (2 ^ 31)) :
    s.Renames (s.renameIds p_mapping dataCapacity) ↔
      ∀ h vid, s.index.containSample h = true → s.translate h = some vid →
        s.versionMap.deleted vid = true →
        0 ≤ vid ∧ vid < s.versionMap.count ∧ p_mapping.getD vid.toNat 0 = maxSize := by
  constructor
  · intro hr h vid hc htrans hd
    exact (State.translate_newId_iff hrows hc).mp (hr.heads h hc) vid htrans hd
  · intro hsafe
    have hheads : ∀ h, s.index.containSample h = true →
        (s.renameIds p_mapping dataCapacity).translate (s.index.newId h) =
          s.newSlot (s.renameIds p_mapping dataCapacity) h :=
      fun h hc => (State.translate_newId_iff hrows hc).mpr fun vid => hsafe h vid hc
    refine ⟨nodup_pack, fun v => State.live_iff.symm, length_pack.symm,
      fun i v => mapping_pack, State.renameIds_versions, hheads, ?_⟩
    rintro vid (⟨h, hlt, htrans, -⟩ | ⟨p, e, he, rfl⟩)
    · obtain ⟨old, hc, rfl⟩ := HeadIndex.exists_newId hlt
      rw [hheads old hc, State.newSlot] at htrans
      split at htrans
      · cases htrans
      · rename_i vid' hvid'
        cases hd : s.versionMap.deleted vid' with
        | true => simp [hd] at htrans
        | false =>
          simp only [hd, Bool.false_eq_true, if_false, Option.some.injEq] at htrans
          exact ⟨_, (State.live_of_not_deleted hd).2, htrans.symm⟩
    · exact State.renamed_live he

def oneHead (vid : Int) : State Unit :=
  .start ⟨1, fun _ => (), fun _ => false⟩ (.ofLabels [0, 0xfe, 3] 1 8) fun _ => some vid

theorem renames_live_head : (oneHead 2).Renames ((oneHead 2).renameIds [] 8) := by
  refine (renames_iff (oneHead 2) (by decide) [] 8).mpr fun h vid _ htrans hd => ?_
  obtain rfl : 2 = vid := Option.some.inj htrans
  exact absurd hd (by decide)

theorem not_renames_deleted_head : ¬ (oneHead 1).Renames ((oneHead 1).renameIds [] 8) := by
  intro h
  exact absurd (h.heads 0 (by decide)) (by decide)

section Refined

variable {env}

def State.names (s : State V) : HeadIndex V × VersionLabel × (Nat → Option Int) :=
  (s.index, s.versionMap, s.translate)

theorem call_keeps_names (site : Site) (serves : State V → Bool) :
    Keeps State.names (call env site serves) := by
  intro s
  unfold call
  split <;> rfl

theorem dbGet_keeps_names (site : Site) (h : Nat) : Keeps State.names (dbGet env site h) :=
  (call_keeps_names site _).bind fun _ => .get_bind fun _ => .pure _

theorem dbPut_keeps_names (site : Site) (h : Nat) (p : Posting V) :
    Keeps State.names (dbPut env site h p) :=
  (call_keeps_names site _).bind fun _ =>
    .bind (.whenever (.modify fun _ => rfl)) fun _ => .pure _

theorem rewritePostings_keeps_names (newId : Nat → Nat) (mapping : Nat → Int) (heads : List Nat)
    (acc : Rewriting) : Keeps State.names (rewritePostings env newId mapping heads acc) := by
  induction heads generalizing acc with
  | nil => exact .pure acc
  | cons h heads ih =>
    refine .get_bind fun _ => .ite (ih acc) ?_
    refine (dbGet_keeps_names _ h).bind fun _ => .get_bind fun _ => ?_
    exact (dbPut_keeps_names _ _ _).bind fun _ => .ite (.pure _) (ih _)

theorem mergeAsync_keeps_names (h : Nat) : Keeps State.names (mergeAsync (V := V) env h) := by
  refine .modify fun s => ?_
  split <;> rfl

theorem refineSearcher_names {r : Renaming} {s : State V}
    (hok : (refineSearcher env r s).1 = .success) :
    (refineSearcher env r s).2.names = (s.index.refine, r.versionMap, r.translate) := by
  let start : Rewriting := ⟨fun _ => 0, fun _ => 0, [], .success⟩
  let loop := rewritePostings env s.index.newId r.mapping (List.range s.index.num) start s
  have hloop : loop.2.index = s.index :=
    congrArg Prod.fst (rewritePostings_keeps_names _ _ _ start s)
  have hrun : refineSearcher env r s =
      (if loop.1.finalcode ≠ .success then (pure loop.1.finalcode : Upd V ErrorCode)
      else do
        modify (·.reload r loop.1)
        loop.1.mergeList.forM (mergeAsync env)
        pure .success) loop.2 := rfl
  rw [hrun] at hok ⊢
  split at hok
  · rename_i hne
    exact absurd hok hne
  · rename_i heq
    rw [if_neg heq]
    refine (Keeps.forM loop.1.mergeList mergeAsync_keeps_names (loop.2.reload r loop.1)).trans ?_
    rw [State.reload, State.names, hloop]

theorem refineIndex_names {p_mapping : List Int} {dataCapacity : Fin (2 ^ 31)} {s : State V}
    (hok : (refineIndex env p_mapping dataCapacity s).1 = .success) :
    (refineIndex env p_mapping dataCapacity s).2.names =
      (s.index.refine, (s.renameIds p_mapping dataCapacity).versionMap,
        (s.renameIds p_mapping dataCapacity).translate) := by
  have hrun : refineIndex env p_mapping dataCapacity s =
      (if s.versionMap.count = 0 then (pure .emptyIndex : Upd V ErrorCode)
      else if s.index.packing.newR = 0 then pure .emptyIndex
      else refineSearcher env (s.renameIds p_mapping dataCapacity)) s := rfl
  rw [hrun] at hok ⊢
  split at hok
  · cases hok
  · rename_i hcount
    split at hok
    · cases hok
    · rename_i hheads
      rw [if_neg hcount, if_neg hheads]
      exact refineSearcher_names hok

end Refined

end Sptag.SPANN.Dynamic
