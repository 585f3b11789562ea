import Sptag.SPANN.FileIO.MultiGet
import Sptag.SPANN.FileIO.Invariant

/-! The mapping file read back: which answers of a `FileIO` survive `Save` and `Load`. -/

namespace Sptag.SPANN.FileIO

open Sptag.Helper Sptag.Lib
open Store

inductive Query
  | get (key : Nat)
  | getBuffer (key : Nat)
  | check (key : Nat) (size : Int)
  | multiGet (keys : List Nat)
  | multiGetBuffers (keys : List Nat) (values : List PageBuffer)
  | delete (key : Nat)
  | merge (key : Nat) (value : Bytes) (checksum : Bytes → Bool)

def Query.keys : Query → List Nat
  | .get key => [key]
  | .getBuffer key => [key]
  | .check key _ => [key]
  | .multiGet keys => keys
  | .multiGetBuffers keys _ => keys
  | .delete key => [key]
  | .merge key _ _ => [key]

inductive Reply
  | code (ret : ErrorCode)
  | value (r : Except ErrorCode Bytes)
  | values (r : Except ErrorCode (List Bytes))
  | buffers (r : Except ErrorCode (List PageBuffer))

variable (opt : Options) (f : FileIO)

def reply : Query → Reply
  | .get key => .value (f.get opt key).1
  | .getBuffer key => .value (f.getBuffer opt key).1
  | .check key size => .code (f.check key size)
  | .multiGet keys => .values (f.multiGet opt keys).1
  | .multiGetBuffers keys values => .buffers (f.multiGetBuffers opt keys values).1
  | .delete key => .code (f.delete opt key).1
  | .merge key value checksum => .code (f.merge opt key value checksum).1

def lengths : Query → List Int
  | .get key => ((f.store.at? key).toList.map Addresses.size).filter (0 ≤ toInt ·)
  | .getBuffer key => ((f.store.at? key).toList.map Addresses.size).filter (0 ≤ toInt ·)
  | .check key size => ((f.store.at? key).toList.map Addresses.size).filter (· = size)
  | .multiGet keys => keys.flatMap fun key => (f.store.at? key).toList.map Addresses.size
  | .multiGetBuffers keys _ => keys.flatMap fun key => (f.store.at? key).toList.map Addresses.size
  | .delete key => ((f.store.at? key).toList.map Addresses.size).filter (0 ≤ ·)
  | .merge key _ _ => ((f.store.at? key).toList.map Addresses.size).filter (0 ≤ ·)

def reloaded : FileIO where
  store :=
    { blockMapping := f.saveMapping.map some
      buffer := bufferLimit
      blockController := f.store.blockController }
  caches := fun _ => .empty

/-- Every call for saved keys is answered after `Save` and `Load` as before, however the file
system answers, and takes no negative size for a length. -/
def RoundTrips : Prop :=
  ∀ io q, (∀ key ∈ q.keys, key < f.store.blockMapping.length) →
    (f.reloaded.withIo io).reply opt q = (f.withIo io).reply opt q ∧
      ∀ n ∈ f.lengths q ++ f.reloaded.lengths q, 0 ≤ n

variable {opt f}

theorem read_congr {st st' : Store} (hblocks : st'.blockController = st.blockController)
    (a : Addresses) : (st'.read opt a).1 = (st.read opt a).1 := by
  rw [Store.read, Store.read, hblocks]
  split <;> rfl

theorem deleteBlocks_congr {st st' : Store} {key : Nat} (hat : st'.at? key = st.at? key) :
    (st'.deleteBlocks opt key).1 = (st.deleteBlocks opt key).1 := by
  rw [deleteBlocks, deleteBlocks, hat]
  cases st.at? key with
  | none => rfl
  | some a =>
    dsimp only
    split <;> rfl

theorem mergeBlocks_congr {st st' : Store} {key : Nat} (hat : st'.at? key = st.at? key)
    (hblocks : st'.blockController = st.blockController) (value : Bytes) (newSize : Nat) :
    (st'.mergeBlocks opt key value newSize).1 = (st.mergeBlocks opt key value newSize).1 := by
  rw [mergeBlocks, mergeBlocks, hat, hblocks]
  cases st.at? key with
  | none => rfl
  | some a =>
    dsimp only
    split
    · rcases st.blockController.readBlocks opt _ _ with ⟨_ | newValue, bc⟩
      · rfl
      · have hpop (st : Store) : (st.controller bc).popBuffer.blockController = bc := rfl
        dsimp only
        rw [hpop, hpop]
        rcases allocate opt bc _ _ with ⟨ids | ids | ids, bc'⟩
        · rfl
        · rfl
        · rfl
    · rcases allocate opt st.blockController _ _ with ⟨ids | ids | ids, bc'⟩
      · rfl
      · rfl
      · rfl

theorem reply_congr (hcache : opt.cacheShards = 0) {f' : FileIO}
    (hmapping : f'.store.blockMapping = f.store.blockMapping)
    (hblocks : f'.store.blockController = f.store.blockController) (q : Query) :
    f'.reply opt q = f.reply opt q := by
  have hat (key : Nat) : f'.store.at? key = f.store.at? key := by rw [at?, at?, hmapping]
  have hcached (g : FileIO) (key : Nat) : g.cached opt key = none := if_pos hcache
  have hlocate (key : Nat) : f'.store.locate key = f.store.locate key := by
    rw [locate, locate, hmapping, hat]
  have htarget : f'.target opt = f.target opt := by
    funext key
    rw [target, target, hcached, hcached, hat]
  have hget (key : Nat) : (f'.get opt key).1 = (f.get opt key).1 := by
    unfold FileIO.get
    rw [hlocate]
    cases f.store.locate key with
    | error e => rfl
    | ok a =>
      simp only [hcached]
      exact read_congr hblocks a
  have hread (n : Nat) : (f'.batchRead opt n).1 = (f.batchRead opt n).1 := by
    rw [batchRead, batchRead, hblocks]
    split <;> rfl
  cases q with
  | get key => exact congrArg Reply.value (hget key)
  | getBuffer key => exact congrArg Reply.value (hget key)
  | check key size => simp only [reply, check, hmapping, hat, hblocks]
  | multiGet keys => simp only [reply, multiGet, blocks, hmapping, htarget, hcached, hread, hblocks]
  | multiGetBuffers keys values =>
    simp only [reply, multiGetBuffers, getCached, blocks, hmapping, htarget, hcached,
      hread, hblocks]
  | delete key =>
    simp only [reply, delete, hmapping, hcache, if_true]
    split
    · rfl
    · exact congrArg Reply.code (deleteBlocks_congr (hat key))
  | merge key value checksum =>
    simp only [reply, merge, hmapping, hcache, if_true, hat]
    split
    · rfl
    · cases f.store.at? key with
      | none => rfl
      | some a =>
        dsimp only
        split
        · rfl
        · split
          · rfl
          · exact congrArg Reply.code (mergeBlocks_congr (hat key) hblocks _ _)

theorem at?_reloaded (f : FileIO) (key : Nat) : f.reloaded.store.at? key =
    (f.store.blockMapping[key]?).map (·.getD .blank) := by
  rw [at?, reloaded, saveMapping]
  simp only [List.getElem?_map]
  cases f.store.blockMapping[key]? <;> rfl

theorem reloaded_mapping
    (h : ∀ key < f.store.blockMapping.length, ∃ a, f.store.at? key = some a) :
    f.reloaded.store.blockMapping = f.store.blockMapping := by
  have hrow : ∀ r ∈ f.store.blockMapping, some (r.getD .blank) = r := by
    intro r hr
    obtain ⟨key, hkey, rfl⟩ := List.mem_iff_getElem.mp hr
    obtain ⟨a, ha⟩ := h key hkey
    rw [at?, List.getElem?_eq_getElem hkey, Option.join_some] at ha
    rw [ha]
    rfl
  rw [reloaded, saveMapping, List.map_map]
  exact (List.map_congr_left hrow).trans (List.map_id' _)

theorem lengths_nonneg (h : ∀ key < f.store.blockMapping.length,
    ∃ a, f.store.at? key = some a ∧ 0 ≤ a.size) (q : Query)
    (hkeys : ∀ key ∈ q.keys, key < f.store.blockMapping.length) : ∀ n ∈ f.lengths q, 0 ≤ n := by
  have hsize : ∀ key ∈ q.keys, ∀ n ∈ (f.store.at? key).toList.map Addresses.size, 0 ≤ n := by
    intro key hkey n hn
    obtain ⟨a, ha, hpos⟩ := h key (hkeys key hkey)
    rw [ha] at hn
    rwa [List.mem_singleton.mp hn]
  intro n hn
  cases q with
  | get key => exact hsize key (List.mem_singleton_self _) n (List.mem_filter.mp hn).1
  | getBuffer key => exact hsize key (List.mem_singleton_self _) n (List.mem_filter.mp hn).1
  | check key size => exact hsize key (List.mem_singleton_self _) n (List.mem_filter.mp hn).1
  | multiGet keys =>
    obtain ⟨key, hkey, hn⟩ := List.mem_flatMap.mp hn
    exact hsize key hkey n hn
  | multiGetBuffers keys values =>
    obtain ⟨key, hkey, hn⟩ := List.mem_flatMap.mp hn
    exact hsize key hkey n hn
  | delete key => exact hsize key (List.mem_singleton_self _) n (List.mem_filter.mp hn).1
  | merge key value checksum =>
    exact hsize key (List.mem_singleton_self _) n (List.mem_filter.mp hn).1

theorem not_roundTrips_of_absent {key : Nat} (hkey : key < f.store.blockMapping.length)
    (hat : f.store.at? key = none) : ¬ RoundTrips opt f := by
  intro h
  have hget := (h .reliable (.get key) (by simpa [Query.keys] using hkey)).1
  have hbefore : (f.withIo .reliable).store.locate key = .error .keyNotFound := by
    have hat' : (f.withIo .reliable).store.at? key = none := hat
    have hkey' : ¬ (f.withIo .reliable).store.blockMapping.length ≤ key := not_le.mpr hkey
    rw [locate, if_neg hkey', hat']
  have hafter : (f.reloaded.withIo .reliable).store.locate key = .error .postingSizeError := by
    have hrow : f.store.blockMapping[key]? = some none := by
      rw [at?, List.getElem?_eq_getElem hkey, Option.join_some] at hat
      rw [List.getElem?_eq_getElem hkey, hat]
    have hat' : (f.reloaded.withIo .reliable).store.at? key = some .blank := by
      have hreloaded := at?_reloaded f key
      rwa [hrow] at hreloaded
    have hkey' : ¬ (f.reloaded.withIo .reliable).store.blockMapping.length ≤ key := by
      have hlen : f.reloaded.store.blockMapping.length = f.store.blockMapping.length := by
        rw [reloaded, saveMapping, List.length_map, List.length_map]
      exact not_le.mpr (hlen ▸ hkey)
    rw [locate, if_neg hkey', hat']
    rfl
  simp only [reply, FileIO.get, hbefore, hafter] at hget
  cases hget

/-- `Save` and `Load` keep the answers of a `FileIO` without a cache exactly when every row of
its mapping has an array with a size: none of its keys is deleted, or was skipped by `AddBatch`. -/
theorem mapping_round_trips_iff (hcache : opt.cacheShards = 0) (f : FileIO) :
    RoundTrips opt f ↔
      ∀ key < f.store.blockMapping.length, ∃ a, f.store.at? key = some a ∧ 0 ≤ a.size := by
  constructor
  · intro h key hkey
    cases hat : f.store.at? key with
    | none => exact absurd h (not_roundTrips_of_absent hkey hat)
    | some a =>
      refine ⟨a, rfl, (h .reliable (.multiGet [key]) (by simpa [Query.keys] using hkey)).2 _ ?_⟩
      simp [lengths, hat]
  · intro h io q hkeys
    have hmapping : f.reloaded.store.blockMapping = f.store.blockMapping :=
      reloaded_mapping fun key hkey => (h key hkey).imp fun _ ha => ha.1
    have hat (key : Nat) : f.reloaded.store.at? key = f.store.at? key := by
      rw [at?, at?, hmapping]
    have hmapping' : (f.reloaded.withIo io).store.blockMapping =
        (f.withIo io).store.blockMapping := hmapping
    have hreply : (f.reloaded.withIo io).reply opt q = (f.withIo io).reply opt q :=
      reply_congr hcache hmapping' rfl q
    refine ⟨hreply, fun n hn => ?_⟩
    rcases List.mem_append.mp hn with hn | hn
    · exact lengths_nonneg h q hkeys n hn
    · refine lengths_nonneg (f := f.reloaded) (fun key hkey => ?_) q (by rwa [hmapping]) n hn
      rw [hmapping] at hkey
      rw [hat]
      exact h key hkey

theorem mapping_round_trips_values :
    RoundTrips tenBlocks (((initial tenBlocks).put tenBlocks 0 [1]).2.put tenBlocks 1 []).2 := by
  refine (mapping_round_trips_iff rfl _).mpr fun key hkey => ?_
  match key, hkey with
  | 0, _ => exact ⟨⟨1, [0]⟩, by decide, by decide⟩
  | 1, _ => exact ⟨⟨0, []⟩, by decide, by decide⟩

theorem mapping_not_round_trips :
    ¬ RoundTrips tenBlocks (((initial tenBlocks).put tenBlocks 0 [1]).2.delete tenBlocks 0).2 := by
  have hrow : (((initial tenBlocks).put tenBlocks 0 [1]).2.delete tenBlocks 0).2.store.at? 0 =
    none := by decide
  exact not_roundTrips_of_absent (by decide) hrow

end Sptag.SPANN.FileIO
