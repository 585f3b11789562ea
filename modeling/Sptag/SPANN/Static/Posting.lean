import Sptag.Lib.Buffer
import Sptag.Lib.Bytes
import Sptag.Common

/-! The postings of `ExtraStaticSearcher.h`: how `GetPostingListFullData` lays out the
records of a posting, and how a search parses them in the buffer they were read into. -/

namespace Sptag.SPANN.Static

open Lib

abbrev Value (b : Nat) := BitVec (8 * b)

abbrev VectorOf (b d : Nat) := Fin d → Value b

abbrev VID := Value 4

structure Edge where
  node : Nat
  tonode : VID
  deriving DecidableEq

variable {b d : Nat}

def bytesOf (x : Value b) : Bytes := leBytes b x.toNat

def valueOf (bs : Bytes) : Value b := BitVec.ofNat _ (leVal bs)

def vectorBytes (v : VectorOf b d) : Bytes := (List.ofFn v).flatMap bytesOf

def vectorOf (bs : Bytes) : VectorOf b d := fun j => valueOf ((bs.drop (j * b)).take b)

def perVectorDataSize (b d : Nat) : Nat := d * b

def vectorInfoSize (b d : Nat) : Nat := perVectorDataSize b d + 4

@[simp] theorem length_bytesOf (x : Value b) : (bytesOf x).length = b := leBytes_length _ _

@[simp] theorem length_vectorBytes (v : VectorOf b d) :
    (vectorBytes v).length = perVectorDataSize b d := by
  rw [vectorBytes, length_flatMap_of_size fun x _ => length_bytesOf x, List.length_ofFn,
    perVectorDataSize]

@[simp] theorem valueOf_bytesOf (x : Value b) : valueOf (bytesOf x) = x := by
  have hlt : x.toNat < 256 ^ b := by
    have := x.isLt
    rwa [pow_mul] at this
  rw [valueOf, bytesOf, leVal_leBytes_of_lt hlt, BitVec.ofNat_toNat, BitVec.setWidth_eq]

@[simp] theorem vectorOf_vectorBytes (v : VectorOf b d) : vectorOf (vectorBytes v) = v := by
  funext j
  have hj : (List.ofFn v)[(j : Nat)]? = some (v j) := by
    rw [List.getElem?_ofFn]
    simp
  have hread := (holdsAt_flatMap (fun x _ => length_bytesOf x) hj).readAt_eq
  rw [readAt, length_bytesOf] at hread
  split at hread
  · rw [vectorOf, vectorBytes, Option.some.inj hread, valueOf_bytesOf]
  · cases hread

structure PostingData where
  postingListFullData : Bytes
  vectors : Bytes
  vectorIDs : Bytes

def PostingData.append (data : PostingData) (rearrange : Bool) (vectorID vector : Bytes) :
    PostingData :=
  if rearrange then
    { data with vectorIDs := data.vectorIDs ++ vectorID, vectors := data.vectors ++ vector }
  else
    { data with postingListFullData := data.postingListFullData ++ (vectorID ++ vector) }

def encodeVector (delta : Bool) (headVector v : VectorOf b d) : VectorOf b d :=
  if delta then v - headVector else v

/-- One round of the loop over a posting; a selection of another posting throws. -/
def appendSelection (delta rearrange : Bool) (selections : List Edge)
    (fullVectors : VID → VectorOf b d) (headVector : VectorOf b d) (postingListId selectIdx : Nat)
    (data : PostingData) : Option PostingData := do
  let edge ← selections[selectIdx]?
  if edge.node = postingListId then
    some (data.append rearrange (bytesOf edge.tonode)
      (vectorBytes (encodeVector delta headVector (fullVectors edge.tonode))))
  else none

def lowerBound (selections : List Edge) (node : Nat) : Nat :=
  selections.findIdx fun e => decide (node ≤ e.node)

def appendSelections (delta rearrange : Bool) (selections : List Edge)
    (fullVectors : VID → VectorOf b d) (headVector : VectorOf b d) (postingListId : Nat) :
    Nat → Nat → PostingData → Option PostingData
  | 0, _, data => some data
  | n + 1, selectIdx, data => do
    let data ← appendSelection delta rearrange selections fullVectors headVector postingListId
      selectIdx data
    appendSelections delta rearrange selections fullVectors headVector postingListId n
      (selectIdx + 1) data

def getPostingListFullData (delta rearrange : Bool) (selections : List Edge)
    (fullVectors : VID → VectorOf b d) (headVector : VectorOf b d)
    (postingListId postingListSize : Nat) : Option Bytes := do
  let data ← appendSelections delta rearrange selections fullVectors headVector postingListId
    postingListSize (lowerBound selections postingListId) ⟨[], [], []⟩
  some (if rearrange then data.vectors ++ data.vectorIDs else data.postingListFullData)

def postingOf (selections : List Edge) (fullVectors : VID → VectorOf b d) (h size : Nat) :
    List (VID × VectorOf b d) :=
  ((selections.filter fun e => e.node = h).take size).map fun e => (e.tonode, fullVectors e.tonode)

def recordBytes (e : VID × VectorOf b d) : Bytes := bytesOf e.1 ++ vectorBytes e.2

/-- The two layouts of a posting: records one after the other, or all vectors and then
all ids. -/
def layout (rearrange : Bool) (es : List (VID × VectorOf b d)) : Bytes :=
  if rearrange then (es.flatMap fun e => vectorBytes e.2) ++ es.flatMap fun e => bytesOf e.1
  else es.flatMap recordBytes

def encodeEntry (delta : Bool) (headVector : VectorOf b d) (e : VID × VectorOf b d) :
    VID × VectorOf b d := (e.1, encodeVector delta headVector e.2)

@[simp] theorem length_recordBytes (e : VID × VectorOf b d) :
    (recordBytes e).length = vectorInfoSize b d := by
  rw [recordBytes, List.length_append, length_bytesOf, length_vectorBytes, vectorInfoSize,
    Nat.add_comm]

@[simp] theorem length_layout (rearrange : Bool) (es : List (VID × VectorOf b d)) :
    (layout rearrange es).length = es.length * vectorInfoSize b d := by
  cases rearrange with
  | false =>
    rw [layout, if_neg Bool.false_ne_true, length_flatMap_of_size fun e _ => length_recordBytes e]
  | true =>
    rw [layout, if_pos rfl, List.length_append,
      length_flatMap_of_size fun e _ => length_vectorBytes e.2,
      length_flatMap_of_size fun e _ => length_bytesOf e.1, vectorInfoSize, Nat.mul_add]

theorem filter_eq_takeWhile {selections : List Edge}
    (hsorted : selections.Pairwise (·.node ≤ ·.node))
    (h : Nat) : (selections.filter fun e => e.node = h) =
      (selections.drop (lowerBound selections h)).takeWhile fun e => e.node = h := by
  induction selections with
  | nil => rfl
  | cons e es ih =>
    obtain ⟨hle, hsorted⟩ := List.pairwise_cons.mp hsorted
    rw [lowerBound, List.findIdx_cons]
    rcases Nat.lt_trichotomy e.node h with hlt | heq | hgt
    · -- an earlier node is skipped
      rw [List.filter_cons_of_neg (by simpa using Nat.ne_of_lt hlt), ih hsorted]
      simp only [Nat.not_le.mpr hlt, decide_false, cond_false, List.drop_succ_cons]
      rfl
    · -- the first selection of the node; those after it are of this node or a later one
      have hzero : lowerBound es h = 0 := by
        cases es with
        | nil => rfl
        | cons e' es =>
          have := hle e' List.mem_cons_self
          simp [lowerBound, List.findIdx_cons, ← heq, this]
      have ih' := ih hsorted
      rw [hzero, List.drop_zero] at ih'
      rw [List.filter_cons_of_pos (by simpa using heq), ih']
      simp [heq]
    · -- all selections are of later nodes
      have hnone : (e :: es).filter (fun e => e.node = h) = [] := by
        rw [List.filter_eq_nil_iff]
        intro e' he'
        rcases List.mem_cons.mp he' with rfl | he'
        · simpa using Nat.ne_of_gt hgt
        · simpa using Nat.ne_of_gt (Nat.lt_of_lt_of_le hgt (hle e' he'))
      rw [hnone]
      simp [Nat.le_of_lt hgt, Nat.ne_of_gt hgt]

theorem getElem?_lowerBound {selections : List Edge}
    (hsorted : selections.Pairwise (·.node ≤ ·.node)) {h i : Nat} {e : Edge}
    (he : (selections.filter fun e => e.node = h)[i]? = some e) :
    selections[lowerBound selections h + i]? = some e ∧ e.node = h := by
  refine ⟨?_, by simpa using (List.mem_filter.mp (List.mem_of_getElem? he)).2⟩
  rw [filter_eq_takeWhile hsorted] at he
  rw [← List.getElem?_drop]
  exact eq_some_of_isPrefix (List.takeWhile_prefix _) he

section Written

variable {delta rearrange : Bool} {selections : List Edge} {fullVectors : VID → VectorOf b d}
  {headVector : VectorOf b d} {h : Nat}

theorem appendSelections_eq {es : List Edge} {k : Nat} {data : PostingData}
    (hes : ∀ (i : Nat) e, es[i]? = some e → selections[k + i]? = some e ∧ e.node = h) :
    appendSelections delta rearrange selections fullVectors headVector h es.length k data =
      some (es.foldl (fun data e => data.append rearrange (bytesOf e.tonode)
        (vectorBytes (encodeVector delta headVector (fullVectors e.tonode)))) data) := by
  induction es generalizing k data with
  | nil => rfl
  | cons e es ih =>
    obtain ⟨hget, hnode⟩ := hes 0 e rfl
    rw [Nat.add_zero] at hget
    have hround : appendSelection delta rearrange selections fullVectors headVector h k data =
        some (data.append rearrange (bytesOf e.tonode)
          (vectorBytes (encodeVector delta headVector (fullVectors e.tonode)))) := by
      simp only [appendSelection, hget, Option.bind_eq_bind, Option.bind_some, hnode, if_true]
    rw [List.length_cons, appendSelections, hround, Option.bind_eq_bind, Option.bind_some, ih,
      List.foldl_cons]
    intro i e' he'
    rw [Nat.add_assoc, Nat.add_comm 1]
    exact hes (i + 1) e' he'

theorem foldl_append_true (es : List (VID × VectorOf b d)) (data : PostingData) :
    es.foldl (fun data e => data.append true (bytesOf e.1) (vectorBytes e.2)) data =
      { data with
        vectors := data.vectors ++ es.flatMap fun e => vectorBytes e.2
        vectorIDs := data.vectorIDs ++ es.flatMap fun e => bytesOf e.1 } := by
  induction es generalizing data with
  | nil => simp
  | cons e es ih =>
    rw [List.foldl_cons, ih]
    simp [PostingData.append]

theorem foldl_append_false (es : List (VID × VectorOf b d)) (data : PostingData) :
    es.foldl (fun data e => data.append false (bytesOf e.1) (vectorBytes e.2)) data =
      { data with postingListFullData := data.postingListFullData ++ es.flatMap recordBytes } := by
  induction es generalizing data with
  | nil => simp
  | cons e es ih =>
    rw [List.foldl_cons, ih]
    simp [PostingData.append, recordBytes]

theorem getPostingListFullData_eq (hsorted : selections.Pairwise (·.node ≤ ·.node)) {size : Nat}
    (hsize : size ≤ (selections.filter fun e => e.node = h).length) :
    getPostingListFullData delta rearrange selections fullVectors headVector h size =
      some (layout rearrange
        ((postingOf selections fullVectors h size).map (encodeEntry delta headVector))) := by
  have hlen : ((selections.filter fun e => e.node = h).take size).length = size :=
    List.length_take_of_le hsize
  have hloop := @appendSelections_eq b d delta rearrange selections fullVectors headVector h
    ((selections.filter fun e => e.node = h).take size) (lowerBound selections h) ⟨[], [], []⟩
    fun i e he => getElem?_lowerBound hsorted (eq_some_of_isPrefix (List.take_prefix _ _) he)
  rw [hlen] at hloop
  have hmap : (postingOf selections fullVectors h size).map (encodeEntry delta headVector) =
      ((selections.filter fun e => e.node = h).take size).map fun e =>
        (e.tonode, encodeVector delta headVector (fullVectors e.tonode)) := by
    rw [postingOf, List.map_map]
    rfl
  rw [getPostingListFullData, hloop, hmap, Option.bind_eq_bind, Option.bind_some]
  rw [← @List.foldl_map _ _ _
    (fun e : Edge => (e.tonode, encodeVector delta headVector (fullVectors e.tonode)))
    fun (data : PostingData) e => data.append rearrange (bytesOf e.1) (vectorBytes e.2)]
  cases rearrange with
  | true =>
    rw [foldl_append_true]
    simp [layout]
  | false =>
    rw [foldl_append_false]
    simp [layout]

end Written

/-- The offsets of an id and of its vector; `eleCount` is the number of records the
searcher takes the posting to have. -/
def parsePostingListRearrange (vectorInfoSize i eleCount : Nat) : Nat × Nat :=
  ((vectorInfoSize - 4) * eleCount + 4 * i, (vectorInfoSize - 4) * i)

def parsePostingList (vectorInfoSize i _eleCount : Nat) : Nat × Nat :=
  (vectorInfoSize * i, vectorInfoSize * i + 4)

def parsePosting (rearrange : Bool) : Nat → Nat → Nat → Nat × Nat :=
  if rearrange then parsePostingListRearrange else parsePostingList

def parseDeltaEncoding (headVector : VectorOf b d) (buffer : Bytes) (offsetVector : Nat) :
    Option Bytes := do
  let vector ← readAt buffer (perVectorDataSize b d) offsetVector
  some (storeAt buffer offsetVector (vectorBytes (vectorOf vector + headVector)))

def parseEncoding (delta : Bool) (headVector : VectorOf b d) (buffer : Bytes) (offsetVector : Nat) :
    Option Bytes :=
  if delta then parseDeltaEncoding headVector buffer offsetVector else some buffer

def processPosting (delta rearrange : Bool) (headVector : VectorOf b d) (eleCount : Nat) :
    Nat → Nat → Bytes → Option (List (VID × VectorOf b d))
  | 0, _, _ => some []
  | n + 1, i, buffer => do
    let offset := parsePosting rearrange (vectorInfoSize b d) i eleCount
    let vectorID ← readAt buffer 4 offset.1
    let buffer ← parseEncoding delta headVector buffer offset.2
    let vector ← readAt buffer (perVectorDataSize b d) offset.2
    let rest ← processPosting delta rearrange headVector eleCount n (i + 1) buffer
    some ((valueOf vectorID, vectorOf vector) :: rest)

def Laid (rearrange : Bool) (eleCount i : Nat) (es : List (VID × VectorOf b d)) (buffer : Bytes) :
    Prop :=
  ∀ (j : Nat) e, es[j]? = some e →
    HoldsAt buffer (parsePosting rearrange (vectorInfoSize b d) (i + j) eleCount).1 (bytesOf e.1) ∧
    HoldsAt buffer (parsePosting rearrange (vectorInfoSize b d) (i + j) eleCount).2
      (vectorBytes e.2)

section Parse

variable {delta rearrange : Bool} {headVector : VectorOf b d} {eleCount i : Nat} {buffer : Bytes}

theorem offset_le_parsePosting {j : Nat} (hj : i + 1 + j < eleCount) :
    (parsePosting rearrange (vectorInfoSize b d) i eleCount).2 + perVectorDataSize b d ≤
        (parsePosting rearrange (vectorInfoSize b d) (i + 1 + j) eleCount).1 ∧
      (parsePosting rearrange (vectorInfoSize b d) i eleCount).2 + perVectorDataSize b d ≤
        (parsePosting rearrange (vectorInfoSize b d) (i + 1 + j) eleCount).2 := by
  have hvec : ∀ s : Nat, s * i + s ≤ s * (i + 1 + j) := fun s =>
    Nat.mul_succ s i ▸ Nat.mul_le_mul_left s (Nat.le_add_right _ _)
  cases rearrange with
  | true =>
    simp only [parsePosting, if_true, parsePostingListRearrange, vectorInfoSize, Nat.add_sub_cancel]
    have hele : perVectorDataSize b d * (i + 1 + j) ≤ perVectorDataSize b d * eleCount :=
      Nat.mul_le_mul_left _ (Nat.le_of_lt hj)
    exact ⟨Nat.le_add_right_of_le ((hvec _).trans hele), hvec _⟩
  | false =>
    simp only [parsePosting, Bool.false_eq_true, if_false, parsePostingList]
    have := hvec (vectorInfoSize b d)
    rw [vectorInfoSize] at *
    omega

theorem parseEncoding_spec {v : VectorOf b d} {off : Nat}
    (h : HoldsAt buffer off (vectorBytes (encodeVector delta headVector v))) :
    ∃ buffer', parseEncoding delta headVector buffer off = some buffer' ∧
      HoldsAt buffer' off (vectorBytes v) ∧
      ∀ off' x, off + perVectorDataSize b d ≤ off' → HoldsAt buffer off' x →
        HoldsAt buffer' off' x := by
  cases delta with
  | false => exact ⟨buffer, rfl, h, fun _ _ _ hx => hx⟩
  | true =>
    have hread := h.readAt_eq
    have hlen := h.le_length
    rw [length_vectorBytes] at hread hlen
    refine ⟨storeAt buffer off (vectorBytes v), ?_, holdsAt_storeAt (by simpa using hlen), ?_⟩
    · simp only [parseEncoding, if_true, parseDeltaEncoding, hread, Option.bind_eq_bind,
        Option.bind_some, vectorOf_vectorBytes, encodeVector, sub_add_cancel]
    · intro off' x hoff hx
      apply hx.storeAt
      simpa using hoff

theorem Laid.tail {e : VID × VectorOf b d} {es : List (VID × VectorOf b d)}
    (h : Laid rearrange eleCount i (e :: es) buffer) :
      Laid rearrange eleCount (i + 1) es buffer := by
  intro j e' he'
  have hnext := h (j + 1) e' he'
  rwa [show i + (j + 1) = i + 1 + j by omega] at hnext

theorem Laid.pos {es : List (VID × VectorOf b d)} (h : Laid rearrange eleCount i es buffer)
    (hne : es ≠ []) :
    0 < buffer.length := by
  obtain ⟨e, es, rfl⟩ := List.exists_cons_of_ne_nil hne
  have hle := (h 0 e rfl).1.le_length
  rw [length_bytesOf] at hle
  omega

theorem Laid.decode {e : VID × VectorOf b d} {es : List (VID × VectorOf b d)} {buffer' : Bytes}
    (hlen : i + (es.length + 1) ≤ eleCount) (h : Laid rearrange eleCount i (e :: es) buffer)
    (hrest : ∀ off' x, (parsePosting rearrange (vectorInfoSize b d) i eleCount).2 +
      perVectorDataSize b d ≤ off' →
      HoldsAt buffer off' x → HoldsAt buffer' off' x) :
    Laid rearrange eleCount (i + 1) es buffer' := by
  intro j e' he'
  have hj : j < es.length := (List.getElem?_eq_some_iff.mp he').1
  obtain ⟨hid, hvec⟩ := h.tail j e' he'
  obtain ⟨hle, hle'⟩ := @offset_le_parsePosting b d rearrange eleCount i j (by omega)
  exact ⟨hrest _ _ hle hid, hrest _ _ hle' hvec⟩

theorem processPosting_eq {es : List (VID × VectorOf b d)} (hlen : i + es.length ≤ eleCount)
    (h : Laid rearrange eleCount i (es.map (encodeEntry delta headVector)) buffer) :
    processPosting delta rearrange headVector eleCount es.length i buffer = some es := by
  induction es generalizing i buffer with
  | nil => rfl
  | cons e es ih =>
    obtain ⟨hid, hvec⟩ := h 0 (encodeEntry delta headVector e) rfl
    rw [Nat.add_zero] at hid hvec
    obtain ⟨buffer', hdecode, hvec', hrest⟩ := parseEncoding_spec hvec
    have hid' := hid.readAt_eq
    have hvec' := hvec'.readAt_eq
    rw [length_bytesOf] at hid'
    rw [length_vectorBytes] at hvec'
    rw [List.length_cons] at hlen
    have hnext := h.decode (by rwa [List.length_map]) hrest
    simp only [List.length_cons, processPosting, hid', hdecode, hvec', ih (by omega) hnext,
      Option.bind_eq_bind, Option.bind_some, encodeEntry, valueOf_bytesOf, vectorOf_vectorBytes]

theorem laid_layout {es : List (VID × VectorOf b d)} (h : HoldsAt buffer 0 (layout rearrange es)) :
    Laid rearrange es.length 0 es buffer := by
  intro j e he
  rw [Nat.zero_add]
  cases rearrange with
  | true =>
    simp only [layout, if_true] at h
    obtain ⟨hvecs, hids⟩ := holdsAt_append_iff.mp h
    have hvec := hvecs.trans (holdsAt_flatMap (fun e _ => length_vectorBytes e.2) he)
    have hid := hids.trans (holdsAt_flatMap (fun e _ => length_bytesOf e.1) he)
    rw [length_flatMap_of_size fun e _ => length_vectorBytes e.2] at hid
    simp only [parsePosting, if_true, parsePostingListRearrange, vectorInfoSize,
      Nat.add_sub_cancel]
    rw [Nat.zero_add] at hvec hid
    exact ⟨by rwa [Nat.mul_comm _ es.length, Nat.mul_comm 4], by rwa [Nat.mul_comm _ j]⟩
  | false =>
    simp only [layout, Bool.false_eq_true, if_false] at h
    have hrec := h.trans (holdsAt_flatMap (fun e _ => length_recordBytes e) he)
    rw [Nat.zero_add, recordBytes, holdsAt_append_iff, length_bytesOf, Nat.mul_comm] at hrec
    exact hrec

theorem layout_take {es : List (VID × VectorOf b d)} {k : Nat}
    (h : rearrange = false ∨ perVectorDataSize b d = 0 ∨ k = 0 ∨ es.length ≤ k) :
    layout rearrange (es.take k) <+: layout rearrange es := by
  have hflat : ∀ {γ : Type} (f : VID × VectorOf b d → List γ),
      (es.take k).flatMap f <+: es.flatMap f := by
    intro γ f
    conv => rhs; rw [← List.take_append_drop k es, List.flatMap_append]
    exact List.prefix_append _ _
  rcases h with rfl | hzero | rfl | hle
  · exact hflat recordBytes
  · cases rearrange with
    | false => exact hflat recordBytes
    | true =>
      have hnil : ∀ fs : List (VID × VectorOf b d), (fs.flatMap fun e => vectorBytes e.2) = [] := by
        intro fs
        apply List.length_eq_zero_iff.mp
        rw [length_flatMap_of_size fun e _ => length_vectorBytes e.2, hzero, Nat.mul_zero]
      simp only [layout, if_true, hnil, List.nil_append]
      exact hflat fun e => bytesOf e.1
  · cases rearrange <;> exact List.nil_prefix
  · rw [List.take_of_length_le hle]

end Parse

end Sptag.SPANN.Static
