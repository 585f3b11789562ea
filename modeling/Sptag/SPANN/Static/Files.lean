import Sptag.SPANN.Static.Batches

/-! A build in any batches and files writes the postings of a build in one batch and one
file, unless a batch or a file starts beyond the end. -/

namespace Sptag.SPANN.Static

open Lib

@[simp] theorem lowerBound_cons (e : Edge) (es : List Edge) (a : Nat) :
    lowerBound (e :: es) a = if a ≤ e.node then 0 else lowerBound es a + 1 := by
  rw [lowerBound, List.findIdx_cons]
  split
  · rename_i h
    simp [h]
  · rename_i h
    simp [h, lowerBound]

theorem lowerBound_of_forall_le {es : List Edge} {a : Nat} (h : ∀ e ∈ es, a ≤ e.node) :
    lowerBound es a = 0 := by
  cases es with
  | nil => rfl
  | cons e es => rw [lowerBound_cons, if_pos (h e List.mem_cons_self)]

theorem lowerBound_mono (es : List Edge) {a c : Nat} (h : a ≤ c) :
    lowerBound es a ≤ lowerBound es c := by
  apply List.findIdx_le_findIdx
  intro e _ he
  exact decide_eq_true (h.trans (of_decide_eq_true he))

theorem take_drop_lowerBound {es : List Edge} (hsorted : es.Pairwise (·.node ≤ ·.node)) {a c : Nat}
    (h : a ≤ c) : (es.drop (lowerBound es a)).take (lowerBound es c - lowerBound es a) =
      es.filter fun e => a ≤ e.node ∧ e.node < c := by
  induction es with
  | nil => rfl
  | cons e es ih =>
    obtain ⟨hle, hsorted⟩ := List.pairwise_cons.mp hsorted
    rw [lowerBound_cons, lowerBound_cons]
    rcases Nat.lt_or_ge e.node a with hlt | hge
    · -- the edge lies before both bounds
      rw [if_neg (by omega), if_neg (by omega), List.drop_succ_cons, Nat.add_sub_add_right,
        ih hsorted, List.filter_cons_of_neg (by simp; omega)]
    · have hzero : lowerBound es a = 0 :=
        lowerBound_of_forall_le fun e' he' => hge.trans (hle e' he')
      rw [if_pos hge, List.drop_zero, Nat.sub_zero]
      rcases Nat.lt_or_ge e.node c with hlt | hend
      · -- it is the first between them
        have ih' := ih hsorted
        rw [hzero, List.drop_zero, Nat.sub_zero] at ih'
        rw [if_neg (by omega), List.take_succ_cons, ih',
          List.filter_cons_of_pos (by simp [hge, hlt])]
      · -- it lies behind both
        rw [if_pos hend, List.take_zero, eq_comm, List.filter_eq_nil_iff]
        intro e' he'
        have hnode : c ≤ e'.node := by
          rcases List.mem_cons.mp he' with rfl | he'
          · exact hend
          · exact hend.trans (hle e' he')
        simp
        omega

variable {b d : Nat} {D : Type} [LinearOrder D]

theorem sortSelections_perm (edges : List (RankedEdge D)) :
    (Build.sortSelections edges).Perm edges := List.mergeSort_perm ..

theorem sortSelections_sorted (edges : List (RankedEdge D)) :
    ((Build.sortSelections edges).map (·.toEdge)).Pairwise (·.node ≤ ·.node) := by
  have hsorted := @List.pairwise_mergeSort (RankedEdge D)
    (fun e e' => decide (Build.edgeKey e ≤ Build.edgeKey e'))
    (fun e e' e'' h h' => decide_eq_true ((of_decide_eq_true h).trans (of_decide_eq_true h')))
    (fun e e' => by simpa using le_total (Build.edgeKey e) (Build.edgeKey e')) edges
  rw [List.pairwise_map]
  exact hsorted.imp fun h => Prod.Lex.monotone_fst _ _ (of_decide_eq_true h)

namespace Build

variable (x : Build b d D)

def sorted : List Edge := (sortSelections (x.done x.fullCount)).map (·.toEdge)

theorem pairwise_sorted : x.sorted.Pairwise (·.node ≤ ·.node) := sortSelections_sorted _

def finalSize (h : Nat) : Nat := x.listSize (x.increments x.fullCount) h

def written (h : Nat) : Bytes :=
  layout x.flags.enablePostingListRearrange
    ((postingOf x.sorted x.fullVectors h (x.finalSize h)).map
      (encodeEntry x.flags.enableDeltaEncoding (x.headIndex h)))

theorem finalSize_le (h : Nat) :
    x.finalSize h ≤ (x.sorted.filter fun e => e.node = h).length := by
  have hcount := @count_counted_le _ _ _ x h x.fullCount 0 _ (x.length_blanks x.fullCount)
  have hperm : ((x.done x.fullCount).map (·.node)).Perm (x.sorted.map (·.node)) := by
    rw [sorted, List.map_map]
    exact ((sortSelections_perm _).map _).symm
  have hlen : (x.sorted.filter fun e => e.node = h).length = (x.sorted.map (·.node)).count h := by
    rw [List.count, List.countP_map, ← List.countP_eq_length_filter]
    congr 1
  rw [hlen, ← hperm.count_eq]
  exact (min_le_left _ _).trans hcount

theorem getPostingListFullData_filter {first stop h : Nat} (hfirst : first ≤ h) (hstop : h < stop) :
    getPostingListFullData x.flags.enableDeltaEncoding x.flags.enablePostingListRearrange
      (x.sorted.filter fun e => first ≤ e.node ∧ e.node < stop) x.fullVectors (x.headIndex h) h
      (x.finalSize h) = some (x.written h) := by
  have hfilter : ((x.sorted.filter fun e => first ≤ e.node ∧ e.node < stop).filter
      fun e => e.node = h) = x.sorted.filter fun e => e.node = h := by
    rw [List.filter_filter]
    congr 1
    funext e
    by_cases heq : e.node = h
    · simp [heq, hfirst, hstop]
    · simp [heq]
  have hsorted : (x.sorted.filter fun e => first ≤ e.node ∧ e.node < stop).Pairwise
      (·.node ≤ ·.node) := x.pairwise_sorted.sublist List.filter_sublist
  have hsize : x.finalSize h ≤ ((x.sorted.filter fun e => first ≤ e.node ∧ e.node < stop).filter
      fun e => e.node = h).length := by
    rw [hfilter]
    exact x.finalSize_le h
  rw [getPostingListFullData_eq hsorted hsize, written, postingOf, postingOf, hfilter]

variable {x} {files : Nat}

theorem batchOffset_eq (hdiv : Divides x.numSamples files) {i : Nat} (hi : i < files) :
    x.batchOffset files x.sorted i = lowerBound x.sorted (shareStart x.numSamples files i) := by
  cases i with
  | zero =>
    rw [shareStart_zero]
    exact (lowerBound_of_forall_le fun e _ => Nat.zero_le _).symm
  | succ i => rw [batchOffset, shareEnd_eq hdiv hi]

theorem loadBatch_lowerBound {s : Selection Edge} (hfile : s.tmpfile = x.sorted) {first stop : Nat}
    (hle : first ≤ stop) : s.loadBatch (lowerBound x.sorted first) (lowerBound x.sorted stop) =
      some ⟨x.sorted, lowerBound x.sorted first, lowerBound x.sorted stop,
        x.sorted.filter fun e => first ≤ e.node ∧ e.node < stop⟩ := by
  have hmono := lowerBound_mono x.sorted hle
  have hbound : lowerBound x.sorted first + (lowerBound x.sorted stop - lowerBound x.sorted first) ≤
      x.sorted.length := by
    rw [Nat.add_sub_cancel' hmono]
    exact List.findIdx_le_length
  rw [Selection.loadBatch, if_neg (not_lt.mpr hmono), hfile, readAt, if_pos hbound,
    take_drop_lowerBound x.pairwise_sorted hle]
  rfl

theorem writeFile_eq (hdiv : Divides x.numSamples files) {i : Nat} (hi : i < files)
    {s : Selection Edge} (hfile : 1 < files → s.tmpfile = x.sorted)
    (hone : ¬ 1 < files → s.selections = x.sorted) :
    x.writeFile files s (x.batchOffset files x.sorted) (x.increments x.fullCount) i =
      some ((List.range' (shareStart x.numSamples files i)
        (shareEnd x.numSamples files i - shareStart x.numSamples files i)).map x.written) := by
  have hle := shareStart_le_shareEnd hdiv hi
  rw [writeFile, if_neg (not_lt.mpr hle)]
  by_cases hmany : 1 < files
  · rw [if_pos hmany, batchOffset_eq hdiv hi]
    have hload := loadBatch_lowerBound (hfile hmany) hle
    simp only [batchOffset, hload, Option.bind_eq_bind, Option.bind_some]
    apply mapM_eq_some
    intro h hh
    obtain ⟨hfirst, hstop⟩ := List.mem_range'_1.mp hh
    exact x.getPostingListFullData_filter hfirst (by omega)
  · rw [if_neg hmany, Option.bind_eq_bind, Option.bind_some]
    apply mapM_eq_some
    intro h _
    rw [hone hmany]
    exact getPostingListFullData_eq x.pairwise_sorted (x.finalSize_le h)

def filesOf (x : Build b d D) (files : Nat) : List (List Bytes) :=
  (List.range files).map fun i => (List.range' (shareStart x.numSamples files i)
    (shareEnd x.numSamples files i - shareStart x.numSamples files i)).map x.written

theorem buildIndex_eq {batches : Nat} (hbatches : 0 < batches)
    (hlt : x.fullCount + batches - 1 < 2 ^ 31) (hvectors : Divides x.fullCount batches)
    (hlists : Divides x.numSamples files) :
    x.buildIndex batches files = some (x.filesOf files) := by
  obtain ⟨p, hp, hstart, hstop, hselections, hincrements⟩ :=
    searchBatches_eq hbatches hlt hvectors
  have hlen : x.sorted.length = x.fullCount * x.replicaCount := by
    rw [sorted, List.length_map, (sortSelections_perm _).length_eq, length_done]
  simp only [buildIndex, hp, Option.bind_eq_bind, Option.bind_some, hselections, hincrements,
    hstart, hstop]
  apply mapM_eq_some
  intro i hi
  apply writeFile_eq hlists (List.mem_range.mp hi)
  · intro hmany
    rw [if_pos hmany]
    simp [Selection.saveBatch, storeAt, sorted]
  · intro hone
    rw [if_neg hone]
    rfl

theorem buildIndex_eq_none {batches : Nat} (hfiles : 0 < files)
    (h : ¬ Divides x.numSamples files) : x.buildIndex batches files = none := by
  have hstart : x.numSamples < shareStart x.numSamples files (files - 1) := not_le.mp h
  have hlast (s : Selection Edge) (offset : Nat → Nat) (increments : List Nat) :
      x.writeFile files s offset increments (files - 1) = none := by
    have hstop : shareEnd x.numSamples files (files - 1) <
      shareStart x.numSamples files (files - 1) :=
      lt_of_le_of_lt (min_le_left _ _) hstart
    rw [writeFile, if_pos hstop]
  rw [buildIndex]
  cases x.searchBatches batches with
  | none => rfl
  | some p =>
    have hmem : files - 1 ∈ List.range files := List.mem_range.mpr (Nat.sub_one_lt hfiles.ne')
    exact mapM_eq_none hmem (hlast ..)

theorem flatten_filesOf (hfiles : 0 < files) (hlists : Divides x.numSamples files) :
    (x.filesOf files).flatten = (List.range x.numSamples).map x.written := by
  rw [filesOf, ← List.flatMap_def, ← flatMap_shares hlists hfiles, List.map_flatMap]

theorem fileOf_filesOf (hfiles : 0 < files) (hlists : Divides x.numSamples files) {h : Nat}
    (hh : h < x.numSamples) : fileOf (x.filesOf files) h = h / share x.numSamples files := by
  have hlen : (x.filesOf files).length = files :=
    by rw [filesOf, List.length_map, List.length_range]
  rw [fileOf, listPerFile, flatten_filesOf hfiles hlists, List.length_map, List.length_range, hlen]
  split
  · rename_i hone
    have hshare : share x.numSamples files = x.numSamples := by rw [hone, share, Nat.add_sub_cancel,
      Nat.div_one]
    rw [hshare, Nat.div_eq_of_lt hh]
  · rfl

theorem getElem?_filesOf {i h : Nat} (hi : i < files) (hfirst : shareStart x.numSamples files i ≤ h)
    (hstop : h < shareEnd x.numSamples files i) :
    ((x.filesOf files)[i]?.bind fun f => f[h - shareStart x.numSamples files i]?) =
      some (x.written h) := by
  have hrest : h - shareStart x.numSamples files i <
      shareEnd x.numSamples files i - shareStart x.numSamples files i := by omega
  rw [filesOf, List.getElem?_map, List.getElem?_range hi, Option.map_some, Option.bind_some,
    List.getElem?_map, List.getElem?_range' hrest, Option.map_some, Nat.one_mul,
    Nat.add_sub_cancel' hfirst]

theorem transparent_of_divides {batches : Nat} (hbatches : 0 < batches) (hfiles : 0 < files)
    (hlt : x.fullCount + batches - 1 < 2 ^ 31) (hvectors : Divides x.fullCount batches)
    (hlists : Divides x.numSamples files) : x.Transparent batches files := by
  have hone : x.buildIndex 1 1 = some (x.filesOf 1) :=
    buildIndex_eq Nat.one_pos x.fullCount_lt (divides_one _) (divides_one _)
  have hsingle : x.filesOf 1 = [(List.range x.numSamples).map x.written] := by
    have hflat := @flatten_filesOf _ _ _ _ x 1 Nat.one_pos (divides_one _)
    rw [← hflat]
    simp [filesOf]
  refine ⟨(List.range x.numSamples).map x.written, x.filesOf files, hone.trans (by rw [hsingle]),
    by rw [List.length_map, List.length_range], buildIndex_eq hbatches hlt hvectors hlists,
    flatten_filesOf hfiles hlists, ?_⟩
  intro h hh i
  have hmem := @mem_share_iff x.numSamples files i h hh hfiles
  have hfile := div_share_lt hh hfiles
  rw [fileOf_filesOf hfiles hlists hh]
  constructor
  · constructor
    · rintro ⟨-, hin⟩
      exact hmem.mp hin
    · rintro rfl
      exact ⟨hfile, hmem.mpr rfl⟩
  · rintro rfl
    obtain ⟨hfirst, hstop⟩ := hmem.mpr rfl
    rw [getElem?_filesOf hfile hfirst hstop, List.getElem?_map, List.getElem?_range hh]
    rfl

/-- A build in batches and files writes what a build in one batch and one file writes exactly
when no batch and no file starts beyond the end. -/
theorem transparent_iff (x : Build b d D) {batches files : Nat} (hbatches : 0 < batches)
    (hfiles : 0 < files) : x.Transparent batches files ↔
      x.fullCount + batches - 1 < 2 ^ 31 ∧ Divides x.fullCount batches ∧
        Divides x.numSamples files := by
  constructor
  · rintro ⟨-, written, -, -, hbuild, -⟩
    have hlists : Divides x.numSamples files := by
      by_contra hnot
      rw [buildIndex_eq_none hfiles hnot] at hbuild
      cases hbuild
    have hvectors : x.fullCount + batches - 1 < 2 ^ 31 ∧ Divides x.fullCount batches := by
      by_contra hnot
      rw [buildIndex, searchBatches_eq_none hbatches hnot] at hbuild
      cases hbuild
    exact ⟨hvectors.1, hvectors.2, hlists⟩
  · rintro ⟨hlt, hvectors, hlists⟩
    exact transparent_of_divides hbatches hfiles hlt hvectors hlists

def fiveVectors : Build 1 1 Nat where
  flags := ⟨false, false, false, false⟩
  fullVectors j := fun _ => j.setWidth _
  fullCount := 5
  headIndex h := fun _ => BitVec.ofNat _ h
  numSamples := 3
  headVectorIDS j := if j < 3 then some j else none
  excludehead := false
  replicaCount := 1
  postingSizeLimit := 2
  maxDist := 10
  approximateRNG _ := [(0, 1)]
  fullCount_lt := by decide
  numSamples_lt := by decide
  replicaCount_pos := by decide
  length_approximateRNG _ := by decide
  node_lt _ := by decide

theorem transparent_fiveVectors : fiveVectors.Transparent 3 2 :=
  (transparent_iff fiveVectors (by decide) (by decide)).mpr (by decide)

theorem not_transparent_fiveVectors : ¬ fiveVectors.Transparent 4 1 := by
  rintro ⟨-, written, -, -, hbuild, -⟩
  have hnone : fiveVectors.searchBatches 4 = none :=
    searchBatches_eq_none (by decide) (by decide)
  rw [buildIndex, hnone] at hbuild
  cases hbuild

end Build

end Sptag.SPANN.Static
