import Sptag.SPANN.Dynamic.Iterative
import Sptag.SPANN.Static.Iterative

/-! What an iterative search of either searcher delivers of a batch of heads. -/

namespace Sptag.SPANN.Iterative

open COMMON Lib

/-- Without compression a batch is delivered exactly if and only if the heads that a static
searcher reaches are apart from each other and from the postings, not deleted, and followed by
nothing that is wanted; with it, it is if no record lies behind one that is delivered as well. A
dynamic searcher delivers exactly what it should if and only if no blank head hides a wanted one. -/
theorem delivers_when {b d : Nat} {D V D' : Type} (k : Static.Batch b d D)
    (posting : Nat → List (Static.Record b d)) (k' : Dynamic.NextInPosting.Batch V D')
    (postings : List (Dynamic.Posting V)) :
    (k.Holding posting →
      (k.Clean posting ∧ (k.searcher.flags.enableDataCompression = true → k.Undivided posting) →
        k.Delivers posting) ∧
      (k.searcher.flags.enableDataCompression = false → k.Delivers posting → k.Clean posting)) ∧
    (k'.Holding postings → (k'.Delivers postings ↔ k'.Clean postings)) := by
  refine ⟨fun h => ⟨fun hclean => ?_, fun hc => ?_⟩, fun h => ?_⟩
  · exact Static.Batch.delivers_of_clean h hclean.1 hclean.2
  · exact Static.Batch.clean_of_delivers h hc
  · exact Dynamic.NextInPosting.Batch.delivers_iff h

def onePosting (file : Bytes) : Static.ExtraStaticSearcher where
  flags := ⟨false, false, false, true⟩
  dictBuffer := []
  listInfos := [⟨5, 1, 1, 0, 0⟩]
  indexFiles := [file]
  vectorInfoSize := 5
  dataDimension := 1
  totalListCount := 1
  listPerFile := 1

def page (e : Static.Record 1 1) : Bytes := Static.recordBytes e ++ Static.padding 4091

theorem readPages_page (e : Static.Record 1 1) :
    (onePosting (page e)).readPages ⟨5, 1, 1, 0, 0⟩ 0 = some (page e) := by
  have hfile : ∀ file, (onePosting file).readPages ⟨5, 1, 1, 0, 0⟩ 0 =
    readAt file 4096 0 := fun _ => rfl
  have hlength : (page e).length = 4096 := by
    rw [page, List.length_append, Static.length_recordBytes, Static.padding, List.length_replicate]
    rfl
  rw [hfile]
  exact (readAt_eq_some_iff hlength).mpr ⟨[], [], (List.append_nil _).symm, rfl⟩

def staticBatch (accept : Int → Bool) : Static.Batch 1 1 Nat where
  searcher := onePosting (page (2, 0))
  compressor := ⟨fun _ _ data => data, fun _ _ src _ => some src⟩
  sample _ := 0
  request := ⟨accept, fun _ => 7⟩
  translate h := some h
  maxDist := 100
  searchInternalResultNum := 2
  versionMap := .ofLabels [0, 0, 0] 0 8
  results := [⟨0, 1⟩, ⟨1, 4⟩]
  pages := ⟨[], []⟩

theorem staticBatch_holding (accept : Int → Bool) :
    (staticBatch accept).Holding fun h => if h = 0 then [(2, 0)] else [] := by
  intro pid hpid
  have hids : (staticBatch accept).postingIDs = [0] := rfl
  rw [hids, List.mem_singleton] at hpid
  subst hpid
  have hlayout : Static.layout false
    ([((2, 0) : Static.Record 1 1)].map (Static.encodeEntry false 0)) =
      Static.recordBytes (2, 0) := List.append_nil _
  refine ⟨⟨5, 1, 1, 0, 0⟩, page (2, 0), rfl, readPages_page (2, 0), rfl, fun _ => ?_, fun h =>
    Bool.noConfusion h⟩
  exact ⟨[], Static.padding 4091, congrArg (· ++ Static.padding 4091) hlayout.symm, rfl⟩

/-- The heads of `line`, the first of which stands for no vector if `blank`. -/
def dynamicBatch (blank : Bool) : Dynamic.NextInPosting.Batch Nat Nat where
  request :=
    { env := .line
      state := { Dynamic.line [0, 0, 0] with translate := fun h =>
        if blank && h == 0 then none else some h }
      accept := fun _ => true
      query := 10 }
  maxDist := 100
  searchInternalResultNum := 2
  multiGet _ _ := .ok [[⟨2, 0, 12⟩]]
  results := [⟨0, 1⟩, ⟨1, 4⟩]
  pages := []

theorem dynamicBatch_holding (blank : Bool) : (dynamicBatch blank).Holding [[⟨2, 0, 12⟩]] := by
  cases blank <;> exact ⟨rfl, rfl⟩

theorem delivers_when_small :
    (staticBatch fun _ => true).Delivers (fun h => if h = 0 then [(2, 0)] else []) ∧
      (dynamicBatch false).Delivers [[⟨2, 0, 12⟩]] := by
  have hboth := delivers_when (staticBatch fun _ => true) (fun h => if h = 0 then [(2, 0)] else [])
    (dynamicBatch false) [[⟨2, 0, 12⟩]]
  refine ⟨(hboth.1 (staticBatch_holding _)).1
    ⟨⟨by decide, by decide, by decide, by decide, fun head hhead _ => ?_⟩, fun h =>
      Bool.noConfusion h⟩,
    (hboth.2 (dynamicBatch_holding false)).mpr fun head hhead _ => ?_⟩
  · exact .inl (List.mem_map_of_mem hhead)
  · exact .inl (List.mem_map_of_mem hhead)

theorem not_delivers :
    (∃ (k : Static.Batch 1 1 Nat) (posting : Nat → List (Static.Record 1 1)),
      k.Holding posting ∧ ¬ k.Delivers posting) ∧
    ∃ (k : Dynamic.NextInPosting.Batch Nat Nat) (postings : List (Dynamic.Posting Nat)),
      k.Holding postings ∧ ¬ k.Delivers postings := by
  refine ⟨⟨staticBatch fun vid => vid ≠ 0, _, staticBatch_holding _, fun h => ?_⟩,
    dynamicBatch true, _, dynamicBatch_holding true, fun h => ?_⟩
  · have hclean := Static.Batch.clean_of_delivers (staticBatch_holding _) rfl h
    exact absurd (hclean.covered ⟨1, 4⟩ (by decide) ⟨by decide, by decide⟩) (by decide)
  · have hclean := (Dynamic.NextInPosting.Batch.delivers_iff (dynamicBatch_holding true)).mp h
    exact absurd (hclean ⟨1, 4⟩ (by decide) ⟨by decide, by decide⟩) (by decide)

end Sptag.SPANN.Iterative
