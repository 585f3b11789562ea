import Sptag.Lib.Shares
import Sptag.SPANN.Static.IndexFile

/-! `ExtraStaticSearcher::BuildIndex` in batches of vectors and files of posting lists: how
the selections are searched, saved, sorted and cut. -/

namespace Sptag.SPANN.Static

open Lib

structure RankedEdge (D : Type) extends Edge where
  distance : D

/-- `MaxSize`, the node of an edge that was never set. -/
def maxSize : Nat := 2 ^ 31 - 1

/-- What `BuildIndex` is given. The search for the heads of a vector answers with nodes of
the head index, at most `replicaCount` of them; `headVectorIDS` names the heads. -/
structure Build (b d : Nat) (D : Type) where
  flags : Flags
  fullVectors : VID → VectorOf b d
  fullCount : Nat
  headIndex : Nat → VectorOf b d
  numSamples : Nat
  headVectorIDS : Nat → Option Nat
  excludehead : Bool
  replicaCount : Nat
  postingSizeLimit : Nat
  maxDist : D
  approximateRNG : VectorOf b d → List (Nat × D)
  fullCount_lt : fullCount < 2 ^ 31
  numSamples_lt : numSamples < 2 ^ 31
  replicaCount_pos : 0 < replicaCount
  length_approximateRNG : ∀ v, (approximateRNG v).length ≤ replicaCount
  node_lt : ∀ v, ∀ c ∈ approximateRNG v, c.1 < numSamples

structure Selection (E : Type) where
  tmpfile : List E
  start : Nat
  stop : Nat
  selections : List E

namespace Selection

variable {E : Type}

def saveBatch (s : Selection E) : Selection E :=
  ⟨storeAt s.tmpfile s.start s.selections, 0, 0, []⟩

def loadBatch (s : Selection E) (start stop : Nat) : Option (Selection E) := do
  if stop < start then none
  else do
    let edges ← readAt s.tmpfile (stop - start) start
    some ⟨s.tmpfile, start, stop, edges⟩

end Selection

variable {b d : Nat} {D : Type}

namespace Build

variable (x : Build b d D)

def blank : RankedEdge D := ⟨⟨maxSize, BitVec.ofNat _ maxSize⟩, x.maxDist⟩

def vectorID (j : Nat) : VID := BitVec.ofNat _ j

def fillRow : List (RankedEdge D) → List (Nat × D) → List (RankedEdge D)
  | e :: es, c :: cs => { e with node := c.1, distance := c.2 } :: fillRow es cs
  | es, _ => es

def searchRow (j : Nat) (row : List (RankedEdge D)) : List (RankedEdge D) :=
  match x.headVectorIDS j with
  | some _ => row
  | none => fillRow row (x.approximateRNG (x.fullVectors (vectorID j)))

def markRow (j : Nat) : List (RankedEdge D) → List (RankedEdge D)
  | [] => []
  | e :: es =>
    if e.node = maxSize then e :: es else { e with tonode := vectorID j } :: markRow j es

def assignRow (j : Nat) (row : List (RankedEdge D)) : List (RankedEdge D) :=
  match x.headVectorIDS j with
  | none => markRow j row
  | some h =>
    if x.excludehead then row
    else
      match row with
      | [] => []
      | e :: es => { e with node := h, tonode := vectorID j } :: es

def countRow (j : Nat) (row : List (RankedEdge D)) : List Nat :=
  match x.headVectorIDS j with
  | none => (row.takeWhile fun e => e.node ≠ maxSize).map (·.node)
  | some h => if x.excludehead then [] else [h]

def onRows {E F : Type} (r : Nat) (f : Nat → List E → List F) : Nat → Nat → List E → List F
  | 0, _, _ => []
  | n + 1, j, edges => f j (edges.take r) ++ onRows r f n (j + 1) (edges.drop r)

def searched (n j : Nat) (edges : List (RankedEdge D)) : List (RankedEdge D) :=
  onRows x.replicaCount x.searchRow n j edges

def assigned (n j : Nat) (edges : List (RankedEdge D)) : List (RankedEdge D) :=
  onRows x.replicaCount x.assignRow n j (x.searched n j edges)

def counted (n j : Nat) (edges : List (RankedEdge D)) : List Nat :=
  onRows x.replicaCount x.countRow n j (x.searched n j edges)

structure Progress (D : Type) where
  selection : Selection (RankedEdge D)
  increments : List Nat

def searchBatch (batches : Nat) (p : Progress D) (i : Nat) : Option (Progress D) := do
  let batchSize := share x.fullCount batches
  let start := i * batchSize
  let stop := min (start + batchSize) x.fullCount
  let s ← if 1 < batches then
      p.selection.loadBatch (start * x.replicaCount) (stop * x.replicaCount)
    else some p.selection
  let s' := { s with selections := x.assigned (stop - start) start s.selections }
  some ⟨if 1 < batches then s'.saveBatch else s',
    p.increments ++ x.counted (stop - start) start s.selections⟩

def searchBatches (batches : Nat) : Option (Progress D) := do
  if 2 ^ 31 ≤ x.fullCount + batches - 1 then none
  else do
    let total := x.fullCount * x.replicaCount
    let s : Selection (RankedEdge D) := ⟨[], 0, total, List.replicate total x.blank⟩
    let p ← (List.range batches).foldlM (x.searchBatch batches)
      ⟨if 1 < batches then s.saveBatch else s, []⟩
    if 1 < batches then do
      let s ← p.selection.loadBatch 0 total
      some { p with selection := s }
    else some p

variable [LinearOrder D]

def edgeKey (e : RankedEdge D) : Nat ×ₗ D ×ₗ Nat :=
  toLex (e.node, toLex (e.distance, e.tonode.toNat))

def sortSelections (edges : List (RankedEdge D)) : List (RankedEdge D) :=
  edges.mergeSort fun e e' => edgeKey e ≤ edgeKey e'

def listSize (increments : List Nat) (h : Nat) : Nat := min (increments.count h) x.postingSizeLimit

def batchOffset (files : Nat) (edges : List Edge) : Nat → Nat
  | 0 => 0
  | i + 1 => lowerBound edges (shareEnd x.numSamples files i)

/-- The postings of one file, in order; a range of lists that ends before it starts throws. -/
def writeFile (files : Nat) (s : Selection Edge) (offset : Nat → Nat) (increments : List Nat)
    (i : Nat) : Option (List Bytes) := do
  let first := shareStart x.numSamples files i
  let stop := shareEnd x.numSamples files i
  if stop < first then none
  else do
    let s ← if 1 < files then s.loadBatch (offset i) (offset (i + 1)) else some s
    (List.range' first (stop - first)).mapM fun h =>
      getPostingListFullData x.flags.enableDeltaEncoding x.flags.enablePostingListRearrange
        s.selections x.fullVectors (x.headIndex h) h (x.listSize increments h)

def buildIndex (batches files : Nat) : Option (List (List Bytes)) := do
  let p ← x.searchBatches batches
  let edges := (sortSelections p.selection.selections).map (·.toEdge)
  let s : Selection Edge := ⟨[], p.selection.start, p.selection.stop, edges⟩
  (List.range files).mapM
    (x.writeFile files (if 1 < files then s.saveBatch else s) (x.batchOffset files edges)
      p.increments)

end Build

def listPerFile (files : List (List Bytes)) : Nat :=
  (files.flatten.length + files.length - 1) / files.length

def fileOf (files : List (List Bytes)) (h : Nat) : Nat :=
  if files.length = 1 then 0 else h / listPerFile files

/-- A build in batches and files comes to an end with the postings of a build in one batch
and one file, each list in the range of one file, which is the one a search reads. -/
def Build.Transparent [LinearOrder D] (x : Build b d D) (batches files : Nat) : Prop :=
  ∃ postings written, x.buildIndex 1 1 = some [postings] ∧ postings.length = x.numSamples ∧
    x.buildIndex batches files = some written ∧ written.flatten = postings ∧
    ∀ h < x.numSamples, ∀ i, (i < files ∧ shareStart x.numSamples files i ≤ h ∧
      h < shareEnd x.numSamples files i ↔ i = fileOf written h) ∧
      (i = fileOf written h →
        (written[i]?.bind fun f => f[h - shareStart x.numSamples files i]?) = postings[h]?)

namespace Build

variable (x : Build b d D)

theorem onRows_append {E F : Type} {r : Nat} {f : Nat → List E → List F} {n : Nat} {es : List E}
    (hlen : es.length = n * r) (n' j : Nat) (es' : List E) :
    onRows r f (n + n') j (es ++ es') = onRows r f n j es ++ onRows r f n' (j + n) es' := by
  induction n generalizing j es with
  | zero =>
    rw [Nat.zero_mul] at hlen
    rw [List.eq_nil_of_length_eq_zero hlen, Nat.zero_add]
    rfl
  | succ n ih =>
    rw [Nat.succ_mul] at hlen
    have hr : r ≤ es.length := by omega
    rw [Nat.succ_add, onRows, onRows, List.take_append_of_le_length hr,
      List.drop_append_of_le_length hr, ih (by rw [List.length_drop]; omega), List.append_assoc,
      Nat.add_assoc, Nat.add_comm 1]

theorem length_onRows {E F : Type} {r : Nat} {f : Nat → List E → List F}
    (hf : ∀ j row, (f j row).length = row.length) {n : Nat} {es : List E}
    (hlen : es.length = n * r) (j : Nat) : (onRows r f n j es).length = n * r := by
  induction n generalizing j es with
  | zero => rw [Nat.zero_mul]; rfl
  | succ n ih =>
    rw [Nat.succ_mul] at hlen ⊢
    rw [onRows, List.length_append, hf, ih (by rw [List.length_drop]; omega), List.length_take]
    omega

@[simp] theorem length_fillRow (row : List (RankedEdge D)) (cs : List (Nat × D)) :
    (fillRow row cs).length = row.length := by
  fun_induction fillRow row cs with
  | case1 e es c cs ih => rw [List.length_cons, List.length_cons, ih]
  | case2 => rfl

@[simp] theorem length_markRow (j : Nat) (row : List (RankedEdge D)) :
    (markRow j row).length = row.length := by
  induction row with
  | nil => rfl
  | cons e es ih =>
    rw [markRow]
    split
    · rfl
    · rw [List.length_cons, ih, List.length_cons]

@[simp] theorem length_searchRow (j : Nat) (row : List (RankedEdge D)) :
    (x.searchRow j row).length = row.length := by
  unfold searchRow
  split
  · rfl
  · exact length_fillRow ..

@[simp] theorem length_assignRow (j : Nat) (row : List (RankedEdge D)) :
    (x.assignRow j row).length = row.length := by
  unfold assignRow
  split
  · exact length_markRow ..
  · split
    · rfl
    · split
      · rfl
      · rfl

variable {x} {n j : Nat} {edges : List (RankedEdge D)}

theorem length_searched (hlen : edges.length = n * x.replicaCount) :
    (x.searched n j edges).length = n * x.replicaCount := length_onRows x.length_searchRow hlen j

theorem length_assigned (hlen : edges.length = n * x.replicaCount) :
    (x.assigned n j edges).length = n * x.replicaCount :=
  length_onRows x.length_assignRow (length_searched hlen) j

theorem searched_append (hlen : edges.length = n * x.replicaCount) (n' : Nat)
    (edges' : List (RankedEdge D)) :
    x.searched (n + n') j (edges ++ edges') =
      x.searched n j edges ++ x.searched n' (j + n) edges' := onRows_append hlen ..

theorem assigned_append (hlen : edges.length = n * x.replicaCount) (n' : Nat)
    (edges' : List (RankedEdge D)) :
    x.assigned (n + n') j (edges ++ edges') =
      x.assigned n j edges ++ x.assigned n' (j + n) edges' := by
  rw [assigned, searched_append hlen, onRows_append (length_searched hlen)]
  rfl

theorem counted_append (hlen : edges.length = n * x.replicaCount) (n' : Nat)
    (edges' : List (RankedEdge D)) :
    x.counted (n + n') j (edges ++ edges') =
      x.counted n j edges ++ x.counted n' (j + n) edges' := by
  rw [counted, searched_append hlen, onRows_append (length_searched hlen)]
  rfl

def blanks (x : Build b d D) (n : Nat) : List (RankedEdge D) :=
  List.replicate (n * x.replicaCount) x.blank

@[simp] theorem length_blanks (x : Build b d D) (n : Nat) :
    (x.blanks n).length = n * x.replicaCount := List.length_replicate

theorem blanks_add (x : Build b d D) (n n' : Nat) : x.blanks (n + n') = x.blanks n ++
    x.blanks n' := by
  rw [blanks, Nat.add_mul, List.replicate_add]
  rfl

def done (x : Build b d D) (n : Nat) : List (RankedEdge D) := x.assigned n 0 (x.blanks n)

def increments (x : Build b d D) (n : Nat) : List Nat := x.counted n 0 (x.blanks n)

@[simp] theorem length_done (x : Build b d D) (n : Nat) : (x.done n).length = n * x.replicaCount :=
  length_assigned (x.length_blanks n)

theorem done_add (x : Build b d D) (n n' : Nat) :
    x.done (n + n') = x.done n ++ x.assigned n' n (x.blanks n') := by
  rw [done, blanks_add, assigned_append (x.length_blanks n), Nat.zero_add]
  rfl

theorem increments_add (x : Build b d D) (n n' : Nat) :
    x.increments (n + n') = x.increments n ++ x.counted n' n (x.blanks n') := by
  rw [increments, blanks_add, counted_append (x.length_blanks n), Nat.zero_add]
  rfl

def saved (x : Build b d D) (n n' : Nat) : Progress D :=
  ⟨⟨x.done n ++ x.blanks n', 0, 0, []⟩, x.increments n⟩

theorem storeAt_middle {E : Type} {l m m' t : List E} {off : Nat} (hl : l.length = off)
    (hm : m'.length = m.length) : storeAt (l ++ (m ++ t)) off m' = l ++ m' ++ t := by
  subst hl
  rw [storeAt, List.take_left, ← List.drop_drop, List.drop_left, hm, List.drop_left]

theorem readAt_middle {E : Type} {l m t : List E} {n off : Nat} (hl : l.length = off)
    (hm : m.length = n) : readAt (l ++ (m ++ t)) n off = some m := by
  subst hl hm
  rw [readAt, if_pos (by simp), List.drop_left, List.take_left]

theorem searchBatch_saved {batches n m n' i : Nat} (hbatches : 1 < batches)
    (hstart : shareStart x.fullCount batches i = n)
    (hstop : min (n + share x.fullCount batches) x.fullCount = n + m) :
    x.searchBatch batches (x.saved n (m + n')) i = some (x.saved (n + m) n') := by
  have hload : (x.saved n (m + n')).selection.loadBatch (n * x.replicaCount)
      ((n + m) * x.replicaCount) = some ⟨x.done n ++ x.blanks (m + n'), n * x.replicaCount,
        (n + m) * x.replicaCount, x.blanks m⟩ := by
    rw [Selection.loadBatch, if_neg (not_lt.mpr (Nat.mul_le_mul_right _ (Nat.le_add_right n m)))]
    have hread : readAt (x.done n ++ x.blanks (m + n')) ((n + m) * x.replicaCount -
        n * x.replicaCount) (n * x.replicaCount) = some (x.blanks m) := by
      rw [blanks_add, Nat.add_mul, Nat.add_sub_cancel_left]
      exact readAt_middle (x.length_done n) (x.length_blanks m)
    simp only [saved, hread, Option.bind_eq_bind, Option.bind_some]
  have hsave : storeAt (x.done n ++ x.blanks (m + n')) (n * x.replicaCount)
      (x.assigned m n (x.blanks m)) = x.done (n + m) ++ x.blanks n' := by
    rw [blanks_add, storeAt_middle (x.length_done n), done_add]
    rw [length_assigned (x.length_blanks m), length_blanks]
  rw [shareStart] at hstart
  simp only [searchBatch, hstart, hstop, if_pos hbatches, hload, Option.bind_eq_bind,
    Option.bind_some, Nat.add_sub_cancel_left, Selection.saveBatch, hsave]
  simp only [saved, increments_add]

theorem foldlM_searchBatch {batches : Nat} (hbatches : 1 < batches)
    (hdiv : Divides x.fullCount batches) {i : Nat} (hi : i ≤ batches) :
    (List.range i).foldlM (x.searchBatch batches) (x.saved 0 x.fullCount) =
      some (x.saved (min (shareStart x.fullCount batches i) x.fullCount)
        (x.fullCount - shareStart x.fullCount batches i)) := by
  induction i with
  | zero => simp
  | succ i ih =>
    have hle : shareStart x.fullCount batches i ≤ x.fullCount := shareStart_le hdiv hi
    have hnext : shareStart x.fullCount batches (i + 1) =
      shareStart x.fullCount batches i + share x.fullCount batches := Nat.succ_mul ..
    have hmin : min (shareStart x.fullCount batches i + share x.fullCount batches) x.fullCount =
        shareStart x.fullCount batches i +
          (min (shareStart x.fullCount batches (i + 1)) x.fullCount -
            shareStart x.fullCount batches i) := by
      rw [hnext]
      omega
    have hrest : x.fullCount - shareStart x.fullCount batches i =
        (min (shareStart x.fullCount batches (i + 1)) x.fullCount -
          shareStart x.fullCount batches i) +
            (x.fullCount - shareStart x.fullCount batches (i + 1)) := by
      rw [hnext]
      omega
    rw [List.range_succ, List.foldlM_append, ih (Nat.le_of_succ_le hi), min_eq_left hle, hrest]
    simp only [Option.bind_eq_bind, Option.bind_some, List.foldlM_cons, List.foldlM_nil]
    rw [searchBatch_saved hbatches rfl hmin, Option.bind_some, ← hmin, ← hnext]
    rfl

theorem searchBatches_eq {batches : Nat} (hbatches : 0 < batches)
    (hlt : x.fullCount + batches - 1 < 2 ^ 31) (hdiv : Divides x.fullCount batches) :
    ∃ p, x.searchBatches batches = some p ∧ p.selection.start = 0 ∧
      p.selection.stop = x.fullCount * x.replicaCount ∧
      p.selection.selections = x.done x.fullCount ∧ p.increments = x.increments x.fullCount := by
  rw [searchBatches, if_neg (not_le.mpr hlt)]
  by_cases hone : 1 < batches
  · have hinit : (⟨(Selection.mk [] 0 (x.fullCount * x.replicaCount)
        (List.replicate (x.fullCount * x.replicaCount) x.blank)).saveBatch, []⟩ : Progress D) =
        x.saved 0 x.fullCount := by
      simp [Selection.saveBatch, storeAt, saved, done, assigned, onRows, increments, counted,
        blanks]
    have hfold := foldlM_searchBatch hone hdiv (le_refl batches)
    have hlast : x.fullCount ≤ shareStart x.fullCount batches batches := le_mul_share hbatches
    rw [min_eq_right hlast, Nat.sub_eq_zero_of_le hlast] at hfold
    have hload : (x.saved x.fullCount 0).selection.loadBatch 0 (x.fullCount * x.replicaCount) =
        some ⟨x.done x.fullCount ++ x.blanks 0, 0, x.fullCount * x.replicaCount,
          x.done x.fullCount⟩ := by
      have hread := @readAt_middle _ [] _ (x.blanks 0) _ 0 rfl (x.length_done x.fullCount)
      rw [List.nil_append] at hread
      rw [Selection.loadBatch, if_neg (Nat.not_lt_zero _), Nat.sub_zero]
      simp only [saved, hread, Option.bind_eq_bind, Option.bind_some]
    simp only [if_pos hone, hinit, hfold, hload, Option.bind_eq_bind, Option.bind_some]
    exact ⟨_, rfl, rfl, rfl, rfl, rfl⟩
  · have heq : batches = 1 := by omega
    subst heq
    have hshare : share x.fullCount 1 = x.fullCount := by simp [share]
    simp only [hone, if_false, List.range_one, List.foldlM_cons, List.foldlM_nil, searchBatch,
      hshare, Nat.zero_mul, Nat.zero_add, min_self, Nat.sub_zero, Option.bind_eq_bind,
      Option.bind_some, Option.pure_def]
    exact ⟨_, rfl, rfl, rfl, rfl, List.nil_append _⟩

theorem foldlM_range_eq_none {S : Type} {f : S → Nat → Option S} {k : Nat} (hk : 0 < k)
    (h : ∀ s, f s (k - 1) = none) (s : S) : (List.range k).foldlM f s = none := by
  obtain ⟨m, rfl⟩ := Nat.exists_eq_succ_of_ne_zero hk.ne'
  rw [List.range_succ, List.foldlM_append]
  cases (List.range m).foldlM f s with
  | none => rfl
  | some s' =>
    have hlast : f s' m = none := h s'
    simp [hlast]

theorem searchBatches_eq_none {batches : Nat} (hbatches : 0 < batches)
    (h : ¬ (x.fullCount + batches - 1 < 2 ^ 31 ∧ Divides x.fullCount batches)) :
    x.searchBatches batches = none := by
  rw [searchBatches]
  split
  · rfl
  · rename_i hlt
    have hdiv : x.fullCount < (batches - 1) * share x.fullCount batches := by
      by_contra hle
      exact h ⟨not_le.mp hlt, not_lt.mp hle⟩
    have hone : 1 < batches := by
      by_contra hle
      rw [Nat.sub_eq_zero_of_le (not_lt.mp hle)] at hdiv
      omega
    have hlast (p : Progress D) : x.searchBatch batches p (batches - 1) = none := by
      have hstop : min ((batches - 1) * share x.fullCount batches + share x.fullCount batches)
          x.fullCount * x.replicaCount <
            (batches - 1) * share x.fullCount batches * x.replicaCount :=
        Nat.mul_lt_mul_of_pos_right (lt_of_le_of_lt (min_le_right _ _) hdiv) x.replicaCount_pos
      have hload : p.selection.loadBatch ((batches - 1) * share x.fullCount batches *
          x.replicaCount) (min ((batches - 1) * share x.fullCount batches +
            share x.fullCount batches) x.fullCount * x.replicaCount) = none := by
        rw [Selection.loadBatch, if_pos hstop]
      simp only [searchBatch, if_pos hone, hload, Option.bind_eq_bind, Option.bind_none]
    simp only [foldlM_range_eq_none hbatches hlast, Option.bind_eq_bind, Option.bind_none]

@[simp] theorem map_node_markRow (j : Nat) (row : List (RankedEdge D)) :
    (markRow j row).map (·.node) = row.map (·.node) := by
  induction row with
  | nil => rfl
  | cons e es ih =>
    rw [markRow]
    split
    · rfl
    · rw [List.map_cons, ih, List.map_cons]

theorem count_countRow_le (x : Build b d D) (j h : Nat) {row : List (RankedEdge D)}
    (hrow : 0 < row.length) :
    (x.countRow j row).count h ≤ ((x.assignRow j row).map (·.node)).count h := by
  unfold countRow assignRow
  split
  · rw [map_node_markRow]
    exact ((List.takeWhile_sublist _).map _).count_le h
  · split
    · exact Nat.zero_le _
    · cases row with
      | nil => cases hrow
      | cons e es =>
        simp only [List.map_cons]
        exact ((List.nil_sublist _).cons_cons _).count_le h

theorem count_counted_le (h : Nat) {n j : Nat} {edges : List (RankedEdge D)}
    (hlen : edges.length = n * x.replicaCount) :
    (x.counted n j edges).count h ≤ ((x.assigned n j edges).map (·.node)).count h := by
  have hsearched := @length_searched _ _ _ x n j edges hlen
  rw [counted, assigned]
  generalize x.searched n j edges = es at hsearched
  clear hlen edges
  induction n generalizing j es with
  | zero => exact Nat.zero_le _
  | succ n ih =>
    rw [Nat.succ_mul] at hsearched
    have hpos := x.replicaCount_pos
    rw [onRows, onRows, List.count_append, List.map_append, List.count_append]
    apply Nat.add_le_add
    · exact x.count_countRow_le j h (by rw [List.length_take]; omega)
    · exact ih _ (by rw [List.length_drop]; omega)

end Build

end Sptag.SPANN.Static
