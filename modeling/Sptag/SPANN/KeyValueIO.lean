import Sptag.Lib.Buffer
import Sptag.Helper.AerospikeKeyValueIO.MultiGet
import Sptag.SPANN.FileIO.Reading
import Sptag.SPANN.TiKVIO.MultiGet

/-! `KeyValueIO.h`: the integer-keyed calls that `FileIO`, `TiKVIO` and
`AerospikeKeyValueIO` share, and when the three of them answer alike. -/

namespace Sptag.SPANN

open Sptag.Helper Sptag.Lib

abbrev Key := Fin (2 ^ 31)

structure KeyValueIO (S : Type) where
  get : S → Key → Option Bytes × S
  multiGet : S → List Key → Option (List Bytes) × S
  multiGetBuffers : S → List (Key × PageBuffer) → Option (List PageBuffer) × S
  put : S → Key → Bytes → Bool × S
  merge : S → Key → Bytes → (Bytes → Bool) → Bool × S
  delete : S → Key → Bool × S

namespace KeyValueIO

inductive Call
  | get (key : Key)
  | multiGet (keys : List Key)
  | multiGetBuffers (es : List (Key × PageBuffer))
  | put (key : Key) (value : Bytes)
  | merge (key : Key) (value : Bytes) (checksum : Bytes → Bool)
  | delete (key : Key)

inductive Answer
  | value (v : Option Bytes)
  | values (vs : Option (List Bytes))
  | buffers (vs : Option (List (Nat × Bytes)))
  | code (ok : Bool)
  deriving DecidableEq

def exec {S : Type} (io : KeyValueIO S) (s : S) : Call → Answer × S
  | .get key => let r := io.get s key; (.value r.1, r.2)
  | .multiGet keys => let r := io.multiGet s keys; (.values r.1, r.2)
  | .multiGetBuffers es =>
    let r := io.multiGetBuffers s es
    (.buffers (r.1.map (·.map PageBuffer.content)), r.2)
  | .put key value => let r := io.put s key value; (.code r.1, r.2)
  | .merge key value checksum => let r := io.merge s key value checksum; (.code r.1, r.2)
  | .delete key => let r := io.delete s key; (.code r.1, r.2)

def overFile (opt : Options) : KeyValueIO FileIO where
  get f key := let r := f.get opt key; (r.1.toOption, r.2)
  multiGet f keys := let r := f.multiGet opt (keys.map (·.val)); (r.1.toOption, r.2)
  multiGetBuffers f es :=
    let r := f.multiGetBuffers opt (es.map (·.1.val)) (es.map (·.2)); (r.1.toOption, r.2)
  put f key value := let r := f.put opt key value; (r.1 = .success, r.2)
  merge f key value checksum := let r := f.merge opt key value checksum; (r.1 = .success, r.2)
  delete f key := let r := f.delete opt key; (r.1 = .success, r.2)

def bits (key : Key) : UInt32 := UInt32.ofNat key

def overTiKV (io : TiKVIO) : KeyValueIO TiKVIO.Cluster where
  get c key := let r := (io.get (bits key)).exec TiKVIO.Cluster.serve c; (r.1.toOption, r.2)
  multiGet c keys :=
    let r := (io.multiGet (keys.map bits) []).exec TiKVIO.Cluster.serve c; (r.1.toOption, r.2)
  multiGetBuffers c es :=
    let r := (io.multiGetBuffers (es.map fun e => bits e.1) (es.map (·.2))).exec
      TiKVIO.Cluster.serve c
    (r.1.toOption, r.2)
  put c key value :=
    let r := (io.put (bits key) value).exec TiKVIO.Cluster.serve c; (r.1 = .success, r.2)
  merge c key value _ :=
    let r := (io.merge (bits key) value).exec TiKVIO.Cluster.serve c; (r.1 = .success, r.2)
  delete c key := let r := c.delete io (bits key); (r.1 = .success, r.2)

open AerospikeKeyValueIO in
def overAerospike (io : AerospikeKeyValueIO) : KeyValueIO (UInt32 → Option Bytes) where
  get data key := let r := (io.get (bits key)).exec obey data; (r.1.toOption, r.2)
  multiGet data keys := let r := (io.multiGet (keys.map bits)).exec obey data; (r.1.toOption, r.2)
  multiGetBuffers data es :=
    let r := (io.multiGetBuffers (es.map fun e => bits e.1) (es.map (·.2))).exec obey data
    (r.1.toOption, r.2)
  put data key value :=
    let r := (io.put (bits key) value).exec AerospikeKeyValueIO.serve data; (r.1 = .success, r.2)
  merge data key value _ :=
    let r := (io.merge (bits key) value).exec AerospikeKeyValueIO.serve data
    (r.1 = .success, r.2)
  delete data key := let r := (io.delete (bits key)).exec obey data; (r.1 = .success, r.2)

def reference : KeyValueIO (Key → Option Bytes) where
  get m key := (m key, m)
  multiGet m keys := (keys.mapM m, m)
  multiGetBuffers m es := (es.mapM fun e => (m e.1).map e.2.fill, m)
  put m key value := (true, Function.update m key (some value))
  merge m key value _ := (true, Function.update m key (some ((m key).getD [] ++ value)))
  delete m key := ((m key).isSome, Function.update m key none)

def Call.keys : Call → List Key
  | .get key => [key]
  | .multiGet keys => keys
  | .multiGetBuffers es => es.map (·.1)
  | .put _ _ => []
  | .merge key _ _ => [key]
  | .delete key => [key]

variable (opt : Options)

/-- The keys that are used are there, nothing empty is merged, and every value stays below
the limit of pages. -/
structure Offered (m : Key → Option Bytes) (c : Call) : Prop where
  present : ∀ key ∈ c.keys, (m key).isSome
  nonempty : ∀ key value checksum, c = .merge key value checksum → value ≠ []
  limit : ∀ key v, (reference.exec m c).2 key = some v → pages v.length < opt.blockLimit

/-- No value reaches 2 GiB, a batch of strings takes no more pages than there are disk
requests, and a batch of page buffers has no more pages than that, with room for the value
of each key and no empty value among them. -/
structure Uniform (m : Key → Option Bytes) (c : Call) : Prop where
  small : ∀ key v, (reference.exec m c).2 key = some v → v.length < 2 ^ 31
  strings : ∀ keys, c = .multiGet keys →
    (keys.map fun key => pages ((m key).getD []).length).sum ≤ opt.reqs
  buffers : ∀ es, c = .multiGetBuffers es →
    (es.map fun e => e.2.numPages).sum ≤ opt.reqs ∧
      ∀ e ∈ es, ∀ v, m e.1 = some v → v ≠ [] ∧ pages v.length ≤ e.2.numPages

variable {opt} {m : Key → Option Bytes} {c : Call}

theorem Offered.eq_some (h : Offered opt m c) {key : Key} (hkey : key ∈ c.keys) :
    m key = some ((m key).getD []) := by
  obtain ⟨v, hv⟩ := Option.isSome_iff_exists.mp (h.present key hkey)
  rw [hv]
  rfl

theorem Offered.multiGet {keys : List Key} (h : Offered opt m (.multiGet keys)) :
    (reference.exec m (.multiGet keys)).1 =
      .values (some (keys.map fun key => (m key).getD [])) :=
  congrArg Answer.values (mapM_eq_some fun _ hkey => h.eq_some hkey)

theorem Offered.multiGetBuffers {es : List (Key × PageBuffer)}
    (h : Offered opt m (.multiGetBuffers es)) :
    (reference.exec m (.multiGetBuffers es)).1 =
      .buffers (some (es.map fun e => (((m e.1).getD []).length, (m e.1).getD []))) := by
  have hread : es.mapM (fun e => (m e.1).map e.2.fill) =
      some (es.map fun e => e.2.fill ((m e.1).getD [])) := by
    apply mapM_eq_some
    intro e he
    rw [h.eq_some (List.mem_map_of_mem he)]
    rfl
  simp only [exec, reference, hread, Option.map_some, List.map_map]
  rfl

theorem Uniform.fits_put {key : Key} {value : Bytes} (ho : Offered opt m (.put key value))
    (hu : Uniform opt m (.put key value)) : FileIO.Fits opt value :=
  ⟨ho.limit key value (Function.update_self _ _ _), hu.small key value (Function.update_self _ _ _)⟩

theorem Uniform.fits_merge {key : Key} {value : Bytes} {checksum : Bytes → Bool}
    (ho : Offered opt m (.merge key value checksum))
    (hu : Uniform opt m (.merge key value checksum)) :
    FileIO.Fits opt ((m key).getD [] ++ value) :=
  ⟨ho.limit key _ (Function.update_self _ _ _), hu.small key _ (Function.update_self _ _ _)⟩

section FileIO

open FileIO

variable {f : FileIO}

def FileHolds (opt : Options) (f : FileIO) (m : Key → Option Bytes) : Prop :=
  ∃ m', Agrees opt m' f ∧ m' ∘ Fin.val = m

theorem overFile_exec (h : FileHolds opt f m) (ho : Offered opt m c) (hu : Uniform opt m c)
    (hq : ((overFile opt).exec f c).2.store.blockController.faults =
      f.store.blockController.faults) :
    ((overFile opt).exec f c).1 = (reference.exec m c).1 ∧
      FileHolds opt ((overFile opt).exec f c).2 (reference.exec m c).2 := by
  obtain ⟨m', hagrees, rfl⟩ := h
  have hupdate (key : Key) (r : Option Bytes) :
      Function.update m' key r ∘ Fin.val = Function.update (m' ∘ Fin.val) key r :=
    Function.update_comp_eq_of_injective m' Fin.val_injective key r
  cases c with
  | get key =>
    obtain ⟨hval, hagrees'⟩ := hagrees.get hq
    exact ⟨congrArg Answer.value hval, m', hagrees', rfl⟩
  | multiGet keys =>
    obtain ⟨hval, hagrees'⟩ := hagrees.multiGet (fun key (hkey : key ∈ keys) => ho.eq_some hkey)
      (hu.strings keys rfl) hq
    rw [ho.multiGet]
    simp only [exec, overFile, hval]
    exact ⟨rfl, m', hagrees', rfl⟩
  | multiGetBuffers es =>
    obtain ⟨hreqs, hroom⟩ := hu.buffers es rfl
    obtain ⟨hval, hagrees'⟩ := hagrees.multiGetBuffers (fun e he =>
      ⟨ho.eq_some (List.mem_map_of_mem he),
        (hroom e he _ (ho.eq_some (List.mem_map_of_mem he))).2⟩) hreqs hq
    rw [ho.multiGetBuffers]
    exact ⟨congrArg Answer.buffers hval, m', hagrees', rfl⟩
  | put key value =>
    obtain ⟨hok, hagrees'⟩ := hagrees.put (hu.fits_put ho) hq
    refine ⟨?_, _, hagrees', hupdate key _⟩
    exact congrArg Answer.code (decide_eq_true hok)
  | merge key value checksum =>
    have hold := ho.eq_some (List.mem_singleton_self key)
    obtain ⟨hok, hagrees'⟩ := hagrees.merge_some hold (hu.fits_merge ho) hq
    refine ⟨?_, _, hagrees', hupdate key _⟩
    exact congrArg Answer.code (decide_eq_true hok)
  | delete key =>
    obtain ⟨hok, hagrees'⟩ := hagrees.delete key
    refine ⟨?_, _, hagrees', hupdate key _⟩
    have hold := ho.present key (List.mem_singleton_self key)
    exact congrArg Answer.code ((decide_eq_true (hok.mpr hold)).trans hold.symm)

end FileIO

theorem bits_injective : Function.Injective bits := by
  intro a b hab
  have hnat := congrArg UInt32.toNat hab
  rw [bits, bits, UInt32.toNat_ofNat', UInt32.toNat_ofNat', Nat.mod_eq_of_lt,
    Nat.mod_eq_of_lt] at hnat
  · exact Fin.ext hnat
  · exact b.isLt.trans (by decide)
  · exact a.isLt.trans (by decide)

section TiKVIO

variable (io : TiKVIO) {cluster : TiKVIO.Cluster}

def prefixedKey (key : Key) : Bytes := io.makePrefixedKey (bits key)

theorem prefixedKey_injective : Function.Injective (prefixedKey io) := fun _ _ hab =>
  bits_injective <| TiKVIO.makePrefixedKey_inj.mp hab

def ClusterHolds (cluster : TiKVIO.Cluster) (m : Key → Option Bytes) : Prop :=
  cluster.fates = [] ∧ cluster.data ∘ prefixedKey io = m

theorem overTiKV_exec (h : ClusterHolds io cluster m) (ho : Offered opt m c)
    (hu : Uniform opt m c) :
    ((overTiKV io).exec cluster c).1 = (reference.exec m c).1 ∧
      ClusterHolds io ((overTiKV io).exec cluster c).2 (reference.exec m c).2 := by
  obtain ⟨data, fates⟩ := cluster
  obtain ⟨rfl, rfl⟩ := h
  have hupdate (key : Key) (r : Option Bytes) :
      Function.update data (prefixedKey io key) r ∘ prefixedKey io =
        Function.update (data ∘ prefixedKey io) key r :=
    Function.update_comp_eq_of_injective data (prefixedKey_injective io) key r
  cases c with
  | get key =>
    have hold := ho.eq_some (List.mem_singleton_self key)
    simp only [exec, overTiKV, TiKVIO.get_served io hold]
    exact ⟨congrArg Answer.value hold.symm, rfl, rfl⟩
  | multiGet keys =>
    have hread := TiKVIO.multiGet_served io [] fun key (hkey : key ∈ keys) => ho.eq_some hkey
    rw [ho.multiGet]
    simp only [exec, overTiKV, hread, List.nil_append]
    exact ⟨rfl, rfl, rfl⟩
  | multiGetBuffers es =>
    have hread := TiKVIO.multiGetBuffers_served io (·.2) fun e he =>
      have hold := ho.eq_some (List.mem_map_of_mem he)
      ⟨hold, ((hu.buffers es rfl).2 e he _ hold).1⟩
    rw [ho.multiGetBuffers]
    simp only [exec, overTiKV, hread, Except.toOption, Option.map_some, List.map_map]
    exact ⟨rfl, rfl, rfl⟩
  | put key value =>
    have hput := TiKVIO.put_served io data (bits key) value
    simp only [exec, overTiKV, hput]
    exact ⟨rfl, rfl, hupdate key _⟩
  | merge key value checksum =>
    have hmerge := TiKVIO.merge_served io (ho.nonempty key value checksum rfl)
      (ho.eq_some (List.mem_singleton_self key))
    simp only [exec, overTiKV, hmerge]
    exact ⟨rfl, rfl, hupdate key _⟩
  | delete key =>
    refine ⟨?_, rfl, hupdate key _⟩
    exact congrArg Answer.code (ho.present key (List.mem_singleton_self key)).symm

end TiKVIO

section AerospikeKeyValueIO

variable {io : AerospikeKeyValueIO} {data : UInt32 → Option Bytes}

theorem overAerospike_exec (hio : io.connected = true) (h : data ∘ bits = m)
    (ho : Offered opt m c) :
    ((overAerospike io).exec data c).1 = (reference.exec m c).1 ∧
      ((overAerospike io).exec data c).2 ∘ bits = (reference.exec m c).2 := by
  subst h
  have hupdate (key : Key) (r : Option Bytes) :
      Function.update data (bits key) r ∘ bits = Function.update (data ∘ bits) key r :=
    Function.update_comp_eq_of_injective data bits_injective key r
  cases c with
  | get key =>
    have hold := ho.eq_some (List.mem_singleton_self key)
    simp only [exec, overAerospike, AerospikeKeyValueIO.get_served hio hold]
    exact ⟨congrArg Answer.value hold.symm, rfl⟩
  | multiGet keys =>
    have hread := AerospikeKeyValueIO.multiGet_served hio
      fun key (hkey : key ∈ keys) => ho.eq_some hkey
    rw [ho.multiGet]
    simp only [exec, overAerospike, hread]
    exact ⟨rfl, rfl⟩
  | multiGetBuffers es =>
    have hread := AerospikeKeyValueIO.multiGetBuffers_served hio (·.2) fun e (he : e ∈ es) =>
      ho.eq_some (List.mem_map_of_mem he)
    rw [ho.multiGetBuffers]
    simp only [exec, overAerospike, hread, Except.toOption, Option.map_some, List.map_map]
    exact ⟨rfl, rfl⟩
  | put key value =>
    simp only [exec, overAerospike, AerospikeKeyValueIO.put_served hio]
    exact ⟨rfl, hupdate key _⟩
  | merge key value checksum =>
    have hmerge := AerospikeKeyValueIO.merge_served hio (ho.nonempty key value checksum rfl)
      (ho.eq_some (List.mem_singleton_self key))
    simp only [exec, overAerospike, hmerge]
    exact ⟨rfl, hupdate key _⟩
  | delete key =>
    simp only [exec, overAerospike, AerospikeKeyValueIO.delete_served hio]
    refine ⟨?_, hupdate key _⟩
    exact congrArg Answer.code (ho.present key (List.mem_singleton_self key)).symm

end AerospikeKeyValueIO

structure Event where
  call : Call
  io : Io

variable (opt)

def serveFile (f : FileIO) (e : Event) : Answer × FileIO :=
  (overFile opt).exec (f.withIo e.io) e.call

def serve {S : Type} (io : KeyValueIO S) (s : S) (e : Event) : Answer × S := io.exec s e.call

structure Reliable (p : FileIO × (Key → Option Bytes)) (e : Event) : Prop where
  quiet : (serveFile opt p.1 e).2.store.blockController.faults =
    p.1.store.blockController.faults
  offered : Offered opt p.2 e.call

def AnswerAlike (io : TiKVIO) (io' : AerospikeKeyValueIO) (es : List Event) : Prop :=
  answers (serveFile opt) (.initial opt) es =
      answers (serve (overTiKV io)) ⟨fun _ => none, []⟩ es ∧
    answers (serve (overTiKV io)) ⟨fun _ => none, []⟩ es =
      answers (serve (overAerospike io')) (fun _ => none) es

theorem answer_alike (io : TiKVIO) {io' : AerospikeKeyValueIO} (hio' : io'.connected = true)
    (es : List Event)
    (h : Along (both (serveFile opt) (serve reference))
      (fun p e => Reliable opt p e ∧ Uniform opt p.2 e.call)
      (.initial opt, fun _ => none) es) : AnswerAlike opt io io' es := by
  have hfile : answers (serveFile opt) (.initial opt) es =
      answers (serve reference) (fun _ => none) es := by
    refine answers_eq (R := FileHolds opt) (fun f m e hok hf => ?_) h
      ⟨_, FileIO.initial_agrees opt, rfl⟩
    obtain ⟨m', hagrees, hm⟩ := hf
    exact overFile_exec ⟨m', hagrees.withIo e.io, hm⟩ hok.1.offered hok.2 hok.1.quiet
  have hbeside {S : Type} := h.beside (R := S)
    (fun m e => Offered opt m e.call ∧ Uniform opt m e.call) fun p e hok => ⟨hok.1.offered, hok.2⟩
  have hcluster : answers (serve (overTiKV io)) ⟨fun _ => none, []⟩ es =
      answers (serve reference) (fun _ => none) es := by
    refine answers_eq (R := ClusterHolds io) (fun c m e hok hc => ?_)
      (hbeside (serve (overTiKV io)) _) ⟨rfl, rfl⟩
    exact overTiKV_exec io hc hok.1 hok.2
  have hrecords : answers (serve (overAerospike io')) (fun _ => none) es =
      answers (serve reference) (fun _ => none) es := by
    refine answers_eq (R := fun data m => data ∘ bits = m) (fun data m e hok hd => ?_)
      (hbeside (serve (overAerospike io')) _) rfl
    exact overAerospike_exec hio' hd hok.1
  exact ⟨hfile.trans hcluster.symm, hcluster.trans hrecords.symm⟩

def twoByteReads : List Event :=
  [⟨.put 0 [1], .reliable⟩, ⟨.merge 0 [2] fun _ => true, .reliable⟩,
    ⟨.multiGetBuffers [(0, ⟨4096, 0, []⟩)], .reliable⟩]

theorem answer_alike_two_bytes : AnswerAlike FileIO.twoBytes ⟨[]⟩ ⟨true⟩ twoByteReads := by
  have hone := FileIO.length_update (m := fun _ : Key => none) (n := 2) nofun 0 [1] (by decide)
  have htwo := FileIO.length_update hone 0 [1, 2] (by decide)
  have hlimit : ∀ v : Bytes, v.length ≤ 2 → pages v.length < FileIO.twoBytes.blockLimit := by
    intro v hv
    rw [pages_eq]
    change _ < 4
    omega
  have hsmall : ∀ v : Bytes, v.length ≤ 2 → v.length < 2 ^ 31 := fun v hv => by omega
  refine answer_alike FileIO.twoBytes ⟨[]⟩ rfl twoByteReads ⟨⟨⟨by decide, ?_⟩, ?_⟩,
    ⟨⟨by decide, ?_⟩, ?_⟩, ⟨⟨by decide, ?_⟩, ?_⟩, trivial⟩
  · exact ⟨nofun, nofun, fun key v hv => hlimit v (hone key v hv)⟩
  · exact ⟨fun key v hv => hsmall v (hone key v hv), nofun, nofun⟩
  · refine ⟨List.forall_mem_singleton.mpr rfl, ?_, fun key v hv => hlimit v (htwo key v hv)⟩
    rintro _ _ _ ⟨⟩
    exact List.cons_ne_nil 2 []
  · exact ⟨fun key v hv => hsmall v (htwo key v hv), nofun, nofun⟩
  · exact ⟨List.forall_mem_singleton.mpr rfl, nofun, fun key v hv => hlimit v (htwo key v hv)⟩
  · refine ⟨fun key v hv => hsmall v (htwo key v hv), nofun, ?_⟩
    rintro _ ⟨⟩
    refine ⟨by decide, List.forall_mem_singleton.mpr ?_⟩
    rintro _ ⟨⟩
    decide

theorem not_answer_alike :
    Along (both (serveFile FileIO.tenBlocks) (serve reference)) (Reliable FileIO.tenBlocks)
        (.initial FileIO.tenBlocks, fun _ => none)
        [⟨.put 0 [], .reliable⟩, ⟨.multiGetBuffers [(0, ⟨4096, 0, []⟩)], .reliable⟩] ∧
      ¬ AnswerAlike FileIO.tenBlocks ⟨[]⟩ ⟨true⟩
        [⟨.put 0 [], .reliable⟩, ⟨.multiGetBuffers [(0, ⟨4096, 0, []⟩)], .reliable⟩] := by
  have hempty := FileIO.length_update (m := fun _ : Key => none) (n := 0) nofun 0 [] (by decide)
  have hlimit : ∀ v : Bytes, v.length ≤ 0 → pages v.length < FileIO.tenBlocks.blockLimit := by
    intro v hv
    rw [Nat.le_zero.mp hv]
    decide
  refine ⟨⟨⟨by decide, nofun, nofun, fun key v hv => hlimit v (hempty key v hv)⟩,
    ⟨by decide, List.forall_mem_singleton.mpr rfl, nofun,
      fun key v hv => hlimit v (hempty key v hv)⟩, trivial⟩, fun halike => ?_⟩
  exact absurd halike.1 (by decide)

end KeyValueIO

end Sptag.SPANN
