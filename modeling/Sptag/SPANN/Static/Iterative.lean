import Sptag.Common.VersionLabel
import Sptag.SPANN.Iterative
import Sptag.SPANN.Static.Searching

/-! The iterative search of `ExtraStaticSearcher.h`: `SearchNextInPosting` goes through the heads
and the loaded postings, from the place where the call before it stopped. -/

namespace Sptag.SPANN.Static

open COMMON Lib Iterative

variable {b d : Nat} {D : Type}

structure PageBuffers where
  pageBuffers : List Bytes
  decompressBuffer : Bytes

/-- What a search asks for: `accept` is the filter on the metadata of an id, true without one. -/
structure Request (b d : Nat) (D : Type) where
  accept : Int → Bool
  computeDistance : VectorOf b d → D

variable (q : Request b d D)

/-- The loop of `ProcessPostingOffset`, for the `left` records from `offset` on: what it finds, and
its offset, data and deduper then. -/
def processPostingOffset (delta rearrange : Bool) (headVector : VectorOf b d) (eleCount : Nat) :
    (left offset : Nat) → Bytes → List Int →
      Option (Option (BasicResult D) × Nat × Bytes × List Int)
  | 0, offset, data, deduper => some (none, offset, data, deduper)
  | left + 1, offset, data, deduper => do
    let offsets := parsePosting rearrange (vectorInfoSize b d) offset eleCount
    let bytes ← readAt data 4 offsets.1
    let vectorID := (valueOf bytes : VID).toInt
    if vectorID ∈ deduper then
      processPostingOffset delta rearrange headVector eleCount left (offset + 1) data deduper
    else if q.accept vectorID then
      let data ← parseEncoding delta headVector data offsets.2
      let vector ← readAt data (perVectorDataSize b d) offsets.2
      some (some ⟨vectorID, q.computeDistance (vectorOf vector)⟩, offset + 1, data,
        vectorID :: deduper)
    else
      processPostingOffset delta rearrange headVector eleCount left (offset + 1) data
        (vectorID :: deduper)

def nextHead (heads : List (BasicResult D)) (ri : Nat) : Option (BasicResult D) :=
  heads[ri]?.filter fun head => head.vid ≠ -1 && q.accept head.vid

namespace ExtraStaticSearcher

variable (x : ExtraStaticSearcher) (compressor : Compressor) (sample : Nat → VectorOf b d)

/-- `DecompressPostingIterative`, which only logs its errors. -/
def decompressPostingIterative (listInfo : ListInfo) (buffer decompressBuffer : Bytes) :
    Option Bytes :=
  if listInfo.listEleCount = 0 then some decompressBuffer
  else do
    let src ← readAt buffer listInfo.listTotalBytes listInfo.pageOffset
    match compressor.decompress x.dictBuffer x.flags.enableDictTraining src
        (toSize (listInfo.listEleCount * x.vectorInfoSize)) with
    | none => some decompressBuffer
    | some data => some (data ++ decompressBuffer.drop data.length)

def advance (listInfo : ListInfo) (ws : ExtraWorkSpace PageBuffers) : ExtraWorkSpace PageBuffers :=
  if (ws.offset : Int) = listInfo.listEleCount then { ws with pi := ws.pi + 1, offset := 0 } else ws

/-- A round of the loop that looks into a posting. The data are decompressed when the posting is
entered, and in the pages when it is entered again. -/
def searchPostingOffset (ws : ExtraWorkSpace PageBuffers) :
    Option (Option (BasicResult D) × ExtraWorkSpace PageBuffers) := do
  let pid ← ws.postingIDs[ws.pi]?
  let listInfo ← x.listInfos[pid]?
  let buffer ← ws.pages.pageBuffers[ws.pi]?
  let process := processPostingOffset q x.flags.enableDeltaEncoding
    x.flags.enablePostingListRearrange
    (sample pid) listInfo.listEleCount.toNat (listInfo.listEleCount.toNat - ws.offset) ws.offset
  if x.flags.enableDataCompression ∧ ws.offset = 0 then
    let data ← x.decompressPostingIterative compressor listInfo buffer ws.pages.decompressBuffer
    let (found, offset, data, deduper) ← process data ws.deduper
    some (found, advance listInfo { ws with
      pages := { ws.pages with decompressBuffer := data }
      offset := offset
      deduper := deduper })
  else
    let (found, offset, data, deduper) ← process (buffer.drop listInfo.pageOffset) ws.deduper
    some (found, advance listInfo { ws with
      pages := { ws.pages with
        pageBuffers := ws.pages.pageBuffers.set ws.pi (buffer.take listInfo.pageOffset ++ data) }
      offset := offset
      deduper := deduper })

/-- The loop of `SearchNextInPosting`, with `left` postings left; it does not end when a round
finds nothing and stays at its posting. -/
def searchLoop (heads : List (BasicResult D)) :
    Nat → ExtraWorkSpace PageBuffers → Option (Option (BasicResult D) × ExtraWorkSpace PageBuffers)
  | 0, ws => some (none, ws)
  | left + 1, ws =>
    match (nextHead q heads ws.ri).filter fun _ => ws.ri ≤ ws.pi with
    | some head => some (some head, { ws with ri := ws.ri + 1 })
    | none =>
      match x.searchPostingOffset q compressor sample ws with
      | none => none
      | some (some res, ws) => some (some res, ws)
      | some (none, ws') => if ws'.pi = ws.pi then none else searchLoop heads left ws'

def searchHead (heads : List (BasicResult D)) :
    Option (BasicResult D) × ExtraWorkSpace PageBuffers → Answer D × ExtraWorkSpace PageBuffers
  | (some res, ws) => (.found res, ws)
  | (none, ws) =>
    match nextHead q heads ws.ri with
    | some head => (.found head, { ws with ri := ws.ri + 1 })
    | none => (.done, ws)

def searchNextInPosting : Next D PageBuffers := fun heads ws =>
  (x.searchLoop q compressor sample heads (ws.postingIDs.length - ws.pi) ws).map
  (searchHead q heads)

def searchIndexWithoutParsing (ws : ExtraWorkSpace PageBuffers) : Except ErrorCode PageBuffers :=
  match ws.postingIDs.mapM fun pid => do x.readPages (← x.listInfos[pid]?) pid with
  | none => .error .diskIOFail
  | some buffers => .ok { ws.pages with pageBuffers := buffers }

def checkValidPosting (pid : Nat) : Bool :=
  match x.listInfos[pid]? with
  | none => false
  | some listInfo => listInfo.listEleCount ≠ 0

end ExtraStaticSearcher

abbrev Record (b d : Nat) := VID × VectorOf b d

/-- The buffer holds the records, compressed or not; `headVector` is what the encoding refers to. -/
structure Loads (x : ExtraStaticSearcher) (compressor : Compressor) (headVector : VectorOf b d)
    (listInfo : ListInfo) (buffer : Bytes) (es : List (Record b d)) : Prop where
  count : listInfo.listEleCount = es.length
  plain : x.flags.enableDataCompression = false → HoldsAt buffer listInfo.pageOffset
    (layout x.flags.enablePostingListRearrange
      (es.map (encodeEntry x.flags.enableDeltaEncoding headVector)))
  compressed : x.flags.enableDataCompression = true → es ≠ [] →
    ∃ src, readAt buffer listInfo.listTotalBytes listInfo.pageOffset = some src ∧
      compressor.decompress x.dictBuffer x.flags.enableDictTraining src
        (toSize (listInfo.listEleCount * x.vectorInfoSize)) =
          some (layout x.flags.enablePostingListRearrange
            (es.map (encodeEntry x.flags.enableDeltaEncoding headVector)))

def Request.result (e : Record b d) : BasicResult D := ⟨e.1.toInt, q.computeDistance e.2⟩

def reached (hs : List (BasicResult D)) : List (BasicResult D) :=
  hs.takeWhile fun head => head.vid ≠ -1 && q.accept head.vid

/-- What the searcher does with an item: it takes the heads as they are. -/
def judge : List Int → Item D (Record b d) → Verdict (BasicResult D) ErrorCode × List Int
  | seen, .head res => (.emit res, seen)
  | seen, .entry e =>
    if (q.result e).vid ∈ seen then (.skip, seen)
    else if q.accept (q.result e).vid then (.emit (q.result e), (q.result e).vid :: seen)
    else (.skip, (q.result e).vid :: seen)

section Offset

variable {q} {delta rearrange : Bool} {headVector : VectorOf b d} {eleCount : Nat}

theorem processPostingOffset_spec {es : List (Record b d)} {offset : Nat} {data : Bytes}
    (seen : List Int)
    (hlength : offset + es.length = eleCount)
    (h : Laid rearrange eleCount offset (es.map (encodeEntry delta headVector)) data) :
    ∃ found offset' data' seen' es',
      processPostingOffset q delta rearrange headVector eleCount es.length offset data seen =
        some (found, offset', data', seen') ∧
      ask (judge q) seen (es.map .entry) =
        (match found with
          | some res => .found res
          | none => .done, seen', es'.map .entry) ∧
      (found = none → es' = []) ∧ offset' + es'.length = eleCount ∧
      Laid rearrange eleCount offset' (es'.map (encodeEntry delta headVector)) data' := by
  induction es generalizing offset data seen with
  | nil => exact ⟨none, offset, data, seen, [], rfl, rfl, fun _ => rfl, hlength, h⟩
  | cons e es ih =>
    rw [List.length_cons] at hlength
    obtain ⟨hid, hvec⟩ := h 0 (encodeEntry delta headVector e) rfl
    rw [Nat.add_zero] at hid hvec
    have hid' := hid.readAt_eq
    rw [length_bytesOf] at hid'
    have hvid : (valueOf (bytesOf (encodeEntry delta headVector e).1) : VID).toInt =
      (q.result e).vid := by
      rw [valueOf_bytesOf]
      rfl
    have hskip := fun seen => @ih (offset + 1) data seen (by omega) h.tail
    rw [List.length_cons, processPostingOffset, List.map_cons, ask, judge]
    simp only [hid', Option.bind_eq_bind, Option.bind_some, hvid]
    split
    · exact hskip seen
    · split
      · obtain ⟨data', hdecode, hvec', hrest⟩ := parseEncoding_spec hvec
        have hread := hvec'.readAt_eq
        rw [length_vectorBytes] at hread
        refine ⟨some (q.result e), offset + 1, data', _, es, ?_, rfl,
          (fun hnone => by cases hnone), by omega,
          h.decode (by rw [List.length_map]; omega) hrest⟩
        simp only [hdecode, hread, vectorOf_vectorBytes, Option.bind_some]
        rfl
      · exact hskip _

end Offset

/-- The buffer holds the records of a posting from an offset on; a compressed posting is only
entered at its start. -/
structure Holds (x : ExtraStaticSearcher) (compressor : Compressor) (headVector : VectorOf b d)
    (listInfo : ListInfo) (offset : Nat) (buffer : Bytes) (es : List (Record b d)) : Prop where
  count : listInfo.listEleCount = (offset + es.length : Nat)
  plain : x.flags.enableDataCompression = false →
    Laid x.flags.enablePostingListRearrange (offset + es.length) offset
      (es.map (encodeEntry x.flags.enableDeltaEncoding headVector))
      (buffer.drop listInfo.pageOffset)
  compressed : x.flags.enableDataCompression = true →
    offset = 0 ∧ Loads x compressor headVector listInfo buffer es

inductive Pending (x : ExtraStaticSearcher) (compressor : Compressor)
  (sample : Nat → VectorOf b d) :
    Nat → List Nat → List Bytes → List (List (Record b d)) → Prop
  | nil : Pending x compressor sample 0 [] [] []
  | cons {offset pid : Nat} {buffer : Bytes} {es : List (Record b d)} {pids : List Nat}
      {buffers : List Bytes} {ps : List (List (Record b d))} {listInfo : ListInfo}
      (hinfo : x.listInfos[pid]? = some listInfo)
      (h : Holds x compressor (sample pid) listInfo offset buffer es)
      (htail : Pending x compressor sample 0 pids buffers ps) :
      Pending x compressor sample offset (pid :: pids) (buffer :: buffers) (es :: ps)

def OnlyLast (seen : List Int) : List (List (Record b d)) → Prop
  | [] => True
  | es :: ps => (ask (judge q) seen (es.map .entry)).2.2 = [] ∧
      OnlyLast (ask (judge q) seen (es.map .entry)).2.1 ps

theorem getElem?_of_drop {A : Type} {l t : List A} {n : Nat} {a : A} (h : l.drop n = a :: t) :
    l[n]? = some a ∧ l.drop (n + 1) = t := by
  constructor
  · rw [← List.head?_drop, h, List.head?_cons]
  · rw [← List.tail_drop, h, List.tail_cons]

section Pending

variable {q} {x : ExtraStaticSearcher} {compressor : Compressor} {sample : Nat → VectorOf b d}

theorem Loads.holds {headVector : VectorOf b d} {listInfo : ListInfo} {buffer : Bytes}
    {es : List (Record b d)} (h : Loads x compressor headVector listInfo buffer es) :
    Holds x compressor headVector listInfo 0 buffer es where
  count := by rw [h.count, Nat.zero_add]
  plain hc := by
    have hholds := (h.plain hc).drop (Nat.le_refl _)
    rw [Nat.sub_self] at hholds
    have hlaid := laid_layout hholds
    rwa [List.length_map, ← Nat.zero_add es.length] at hlaid
  compressed _ := ⟨rfl, h⟩

theorem Loads.decompress {headVector : VectorOf b d} {listInfo : ListInfo} {buffer : Bytes}
    {es : List (Record b d)} (h : Loads x compressor headVector listInfo buffer es)
    (hc : x.flags.enableDataCompression = true) (decompressBuffer : Bytes) :
    ∃ data, x.decompressPostingIterative compressor listInfo buffer decompressBuffer = some data ∧
      Laid x.flags.enablePostingListRearrange es.length 0
        (es.map (encodeEntry x.flags.enableDeltaEncoding headVector)) data := by
  by_cases hnil : es = []
  · subst hnil
    exact ⟨decompressBuffer, if_pos h.count, fun j e he => nomatch he⟩
  · obtain ⟨src, hsrc, hdata⟩ := h.compressed hc hnil
    have hcount : listInfo.listEleCount ≠ 0 := by
      rw [h.count]
      exact fun hzero => hnil (List.length_eq_zero_iff.mp (Int.ofNat_eq_zero.mp hzero))
    have hholds : HoldsAt (layout x.flags.enablePostingListRearrange
        (es.map (encodeEntry x.flags.enableDeltaEncoding headVector)) ++
          decompressBuffer.drop (layout x.flags.enablePostingListRearrange
            (es.map (encodeEntry x.flags.enableDeltaEncoding headVector))).length) 0
        (layout x.flags.enablePostingListRearrange
          (es.map (encodeEntry x.flags.enableDeltaEncoding headVector))) := ⟨[], _, rfl, rfl⟩
    have hlaid := laid_layout hholds
    rw [List.length_map] at hlaid
    refine ⟨_, ?_, hlaid⟩
    simp only [ExtraStaticSearcher.decompressPostingIterative, if_neg hcount, hsrc, hdata,
      Option.bind_eq_bind, Option.bind_some]

/-- A round at the posting `es` answers as the judge does, and leaves what the judge leaves. -/
def Searches (q : Request b d D) (x : ExtraStaticSearcher) (compressor : Compressor)
    (sample : Nat → VectorOf b d) (ws : ExtraWorkSpace PageBuffers) (es : List (Record b d))
    (ps : List (List (Record b d))) : Prop :=
  ∃ found pages' offset' pi' seen' es' ps',
    x.searchPostingOffset q compressor sample ws =
      some (found, { ws with pages := pages', offset := offset', pi := pi', deduper := seen' }) ∧
    ask (judge q) ws.deduper (es.map .entry) =
      (match found with
        | some res => .found res
        | none => .done, seen', es'.map .entry) ∧
    (found = none → es' = []) ∧
    Pending x compressor sample offset' (ws.postingIDs.drop pi') (pages'.pageBuffers.drop pi') ps' ∧
    (es' = [] ∧ offset' = 0 ∧ pi' = ws.pi + 1 ∧ ps' = ps ∨
      es' ≠ [] ∧ pi' = ws.pi ∧ ps' = es' :: ps)

section Round

variable {ws : ExtraWorkSpace PageBuffers} {es : List (Record b d)}
  {ps : List (List (Record b d))} {pid : Nat} {pids : List Nat} {buffer : Bytes}
  {buffers : List Bytes} {listInfo : ListInfo}

theorem searches_compressed (hc : x.flags.enableDataCompression = true)
    (hpids : ws.postingIDs.drop ws.pi = pid :: pids)
    (hbuffers : ws.pages.pageBuffers.drop ws.pi = buffer :: buffers)
    (hinfo : x.listInfos[pid]? = some listInfo)
    (h : Holds x compressor (sample pid) listInfo ws.offset buffer es)
    (htail : Pending x compressor sample 0 pids buffers ps)
    (hlast : (ask (judge q) ws.deduper (es.map .entry)).2.2 = []) :
    Searches q x compressor sample ws es ps := by
  obtain ⟨hpid, hpids'⟩ := getElem?_of_drop hpids
  obtain ⟨hbuffer, hbuffers'⟩ := getElem?_of_drop hbuffers
  have hcount : listInfo.listEleCount.toNat = ws.offset + es.length := by
    rw [h.count, Int.toNat_natCast]
  have hleft : ws.offset + es.length - ws.offset = es.length := Nat.add_sub_cancel_left ..
  obtain ⟨hoffset, hloads⟩ := h.compressed hc
  obtain ⟨data, hdata, hlaid⟩ := hloads.decompress hc ws.pages.decompressBuffer
  rw [← Nat.zero_add es.length, ← hoffset] at hlaid
  obtain ⟨found, offset', data', seen', es', hrun, hask, hnone, hlength, -⟩ :=
    processPostingOffset_spec (q := q) ws.deduper rfl hlaid
  have hes' : es' = [] := by
    rw [hask] at hlast
    exact List.map_eq_nil_iff.mp hlast
  subst hes'
  have hend : (offset' : Int) = listInfo.listEleCount := by
    rw [h.count]
    exact congrArg _ hlength
  refine ⟨found, { ws.pages with decompressBuffer := data' }, 0, ws.pi + 1, seen', [], ps, ?_, hask,
    hnone, ?_, .inl ⟨rfl, rfl, rfl, rfl⟩⟩
  · rw [ExtraStaticSearcher.searchPostingOffset]
    simp only [hpid, hinfo, hbuffer, hcount, hleft, Option.bind_eq_bind, Option.bind_some,
      if_pos (And.intro hc hoffset), hdata, hrun, ExtraStaticSearcher.advance, if_pos hend]
  · rw [hpids', hbuffers']
    exact htail

theorem searches_plain (hc : ¬ x.flags.enableDataCompression = true)
    (hpids : ws.postingIDs.drop ws.pi = pid :: pids)
    (hbuffers : ws.pages.pageBuffers.drop ws.pi = buffer :: buffers)
    (hinfo : x.listInfos[pid]? = some listInfo)
    (h : Holds x compressor (sample pid) listInfo ws.offset buffer es)
    (htail : Pending x compressor sample 0 pids buffers ps) :
    Searches q x compressor sample ws es ps := by
  obtain ⟨hpid, hpids'⟩ := getElem?_of_drop hpids
  obtain ⟨hbuffer, hbuffers'⟩ := getElem?_of_drop hbuffers
  have hcount : listInfo.listEleCount.toNat = ws.offset + es.length := by
    rw [h.count, Int.toNat_natCast]
  have hleft : ws.offset + es.length - ws.offset = es.length := Nat.add_sub_cancel_left ..
  have hlaid₀ := h.plain (Bool.eq_false_iff.mpr hc)
  obtain ⟨found, offset', data', seen', es', hrun, hask, hnone, hlength, hlaid⟩ :=
    processPostingOffset_spec (q := q) ws.deduper rfl hlaid₀
  -- the decoded records are written back into the page
  let buffer' := buffer.take listInfo.pageOffset ++ data'
  by_cases hes' : es' = []
  · subst hes'
    have hend : (offset' : Int) = listInfo.listEleCount := by
      rw [h.count]
      exact congrArg _ hlength
    refine ⟨found, { ws.pages with pageBuffers := ws.pages.pageBuffers.set ws.pi buffer' }, 0,
      ws.pi + 1, seen', [], ps, ?_, hask, hnone, ?_, .inl ⟨rfl, rfl, rfl, rfl⟩⟩
    · rw [ExtraStaticSearcher.searchPostingOffset]
      simp only [hpid, hinfo, hbuffer, hcount, hleft, Option.bind_eq_bind, Option.bind_some,
        if_neg fun h => hc (And.left h), hrun, ExtraStaticSearcher.advance, if_pos hend, buffer']
    · rw [hpids', List.drop_set_of_lt (Nat.lt_succ_self _), hbuffers']
      exact htail
  · have hpos := List.length_pos_iff.mpr hes'
    have hend : (offset' : Int) ≠ listInfo.listEleCount := by
      rw [h.count]
      omega
    refine ⟨found, { ws.pages with pageBuffers := ws.pages.pageBuffers.set ws.pi buffer' }, offset',
      ws.pi, seen', es', es' :: ps, ?_, hask, hnone, ?_, .inr ⟨hes', rfl, rfl⟩⟩
    · rw [ExtraStaticSearcher.searchPostingOffset]
      simp only [hpid, hinfo, hbuffer, hcount, hleft, Option.bind_eq_bind, Option.bind_some,
        if_neg fun h => hc (And.left h), hrun, ExtraStaticSearcher.advance, if_neg hend, buffer']
    · rw [hpids, List.drop_set, if_neg (Nat.lt_irrefl _), hbuffers, Nat.sub_self,
        List.set_cons_zero]
      have hpage : listInfo.pageOffset ≤ buffer.length := by
        have hne : es ≠ [] := by
          rintro rfl
          rw [List.map_nil, ask] at hask
          exact hes' (List.map_eq_nil_iff.mp (congrArg (·.2.2) hask).symm)
        have hpos := hlaid₀.pos (mt List.map_eq_nil_iff.mp hne)
        rw [List.length_drop] at hpos
        omega
      have htake : buffer'.drop listInfo.pageOffset = data' :=
        List.drop_left' (List.length_take_of_le hpage)
      exact .cons hinfo ⟨h.count.trans (congrArg _ hlength.symm),
        fun _ => by rwa [htake, hlength], fun h => absurd h hc⟩ htail

theorem searchPostingOffset_spec
    (h : Pending x compressor sample ws.offset (ws.postingIDs.drop ws.pi)
      (ws.pages.pageBuffers.drop ws.pi) (es :: ps))
    (hlast : x.flags.enableDataCompression = true →
      (ask (judge q) ws.deduper (es.map .entry)).2.2 = []) :
    Searches q x compressor sample ws es ps := by
  generalize hoffset : ws.offset = offset at h
  generalize hpids : ws.postingIDs.drop ws.pi = pids at h
  generalize hbuffers : ws.pages.pageBuffers.drop ws.pi = buffers at h
  cases h with
  | @cons _ pid buffer _ pids buffers _ listInfo hinfo hholds htail =>
    subst hoffset
    by_cases hc : x.flags.enableDataCompression = true
    · exact searches_compressed hc hpids hbuffers hinfo hholds htail (hlast hc)
    · exact searches_plain hc hpids hbuffers hinfo hholds htail

end Round

theorem Pending.length_eq {offset : Nat} {pids : List Nat} {buffers : List Bytes}
    {ps : List (List (Record b d))} (h : Pending x compressor sample offset pids buffers ps) :
    pids.length = ps.length := by
  induction h with
  | nil => rfl
  | cons hinfo h htail ih => rw [List.length_cons, List.length_cons, ih]

end Pending

theorem nextHead_eq (heads : List (BasicResult D)) (ri : Nat) :
    nextHead q heads ri = (reached q (heads.drop ri)).head? := by
  rw [nextHead, ← List.head?_drop, reached]
  cases heads.drop ri with
  | nil => rfl
  | cons head hs =>
    rw [List.head?_cons, Option.filter_some, List.takeWhile_cons]
    split
    · rfl
    · rfl

theorem reached_succ {heads hs : List (BasicResult D)} {ri : Nat} {head : BasicResult D}
    (h : reached q (heads.drop ri) = head :: hs) : reached q (heads.drop (ri + 1)) = hs := by
  rw [reached] at h
  cases hdrop : heads.drop ri with
  | nil =>
    rw [hdrop] at h
    cases h
  | cons head' hs' =>
    rw [hdrop, List.takeWhile_cons] at h
    split at h
    · rw [(getElem?_of_drop hdrop).2, reached]
      exact (List.cons.inj h).2
    · cases h

structure Place (x : ExtraStaticSearcher) (compressor : Compressor) (sample : Nat → VectorOf b d)
    (heads : List (BasicResult D)) (ws : ExtraWorkSpace PageBuffers)
    (ps : List (List (Record b d))) :
    Prop where
  loaded : ws.loadPosting = false
  pending : Pending x compressor sample ws.offset (ws.postingIDs.drop ws.pi)
    (ws.pages.pageBuffers.drop ws.pi) ps
  near : ps ≠ [] → reached q (heads.drop ws.ri) ≠ [] → ws.pi ≤ ws.ri ∧ ws.ri ≤ ws.pi + 1
  last : x.flags.enableDataCompression = true → OnlyLast q ws.deduper ps

def items (heads : List (BasicResult D)) (ws : ExtraWorkSpace PageBuffers)
    (ps : List (List (Record b d))) :
    List (Item D (Record b d)) :=
  merge (decide (ws.ri ≤ ws.pi)) (reached q (heads.drop ws.ri)) ps

def Left (x : ExtraStaticSearcher) (compressor : Compressor) (sample : Nat → VectorOf b d)
    (heads : List (BasicResult D)) (ws : ExtraWorkSpace PageBuffers) (seen : List Int)
    (is : List (Item D (Record b d))) : Prop :=
  ws.deduper = seen ∧ ∃ ps, Place q x compressor sample heads ws ps ∧ is = items q heads ws ps

section Call

variable {q} {x : ExtraStaticSearcher} {compressor : Compressor} {sample : Nat → VectorOf b d}
  {heads : List (BasicResult D)} {ws : ExtraWorkSpace PageBuffers} {ps : List (List (Record b d))}

theorem Place.head {head : BasicResult D} {hs : List (BasicResult D)}
    (h : Place q x compressor sample heads ws ps)
    (hreached : reached q (heads.drop ws.ri) = head :: hs)
    (hdue : ps ≠ [] → ws.ri ≤ ws.pi) :
    ask (judge q) ws.deduper (items q heads ws ps) =
        (.found head, ws.deduper, items q heads { ws with ri := ws.ri + 1 } ps) ∧
      Place q x compressor sample heads { ws with ri := ws.ri + 1 } ps := by
  have hnext := reached_succ q hreached
  refine ⟨?_, h.loaded, h.pending, fun hps _ => ?_, h.last⟩
  · rw [items, items, hreached, hnext]
    cases ps with
    | nil =>
      rw [merge_end, merge_end]
      rfl
    | cons es ps =>
      have hri := hdue (List.cons_ne_nil _ _)
      have hpi := (h.near (List.cons_ne_nil _ _) (by rw [hreached]; exact List.cons_ne_nil _ _)).1
      rw [decide_eq_true hri, decide_eq_false (by show ¬ ws.ri + 1 ≤ ws.pi; omega), merge_due]
      rfl
  · have hri := hdue hps
    have hpi := (h.near hps (by rw [hreached]; exact List.cons_ne_nil _ _)).1
    show ws.pi ≤ ws.ri + 1 ∧ ws.ri + 1 ≤ ws.pi + 1
    omega

theorem Place.next {es : List (Record b d)} {pages : PageBuffers} {seen : List Int}
    (h : Place q x compressor sample heads ws (es :: ps))
    (hdue : ws.ri ≤ ws.pi → reached q (heads.drop ws.ri) = [])
    (hpending : Pending x compressor sample 0 (ws.postingIDs.drop (ws.pi + 1))
      (pages.pageBuffers.drop (ws.pi + 1)) ps)
    (hseen : (ask (judge q) ws.deduper (es.map .entry)).2.1 = seen) :
    Place q x compressor sample heads
        { ws with pages := pages, offset := 0, pi := ws.pi + 1, deduper := seen } ps ∧
      items q heads { ws with pages := pages, offset := 0, pi := ws.pi + 1, deduper := seen } ps =
        merge true (reached q (heads.drop ws.ri)) ps := by
  have hnear := h.near (List.cons_ne_nil _ _)
  refine ⟨⟨h.loaded, hpending, fun _ hne => ?_, fun hc => hseen ▸ (h.last hc).2⟩, ?_⟩
  · have hri : ¬ ws.ri ≤ ws.pi := fun hle => hne (hdue hle)
    have := hnear hne
    show ws.pi + 1 ≤ ws.ri ∧ ws.ri ≤ ws.pi + 1 + 1
    omega
  · rw [items]
    by_cases hne : reached q (heads.drop ws.ri) = []
    · dsimp only
      rw [hne]
      exact merge_nil _ _ _
    · rw [decide_eq_true (hnear hne).2]

theorem searchLoop_spec (h : Place q x compressor sample heads ws ps) :
    ∃ ws', (x.searchLoop q compressor sample heads ps.length ws).map
        (ExtraStaticSearcher.searchHead q heads) =
        some ((ask (judge q) ws.deduper (items q heads ws ps)).1, ws') ∧
      Left q x compressor sample heads ws' (ask (judge q) ws.deduper (items q heads ws ps)).2.1
        (ask (judge q) ws.deduper (items q heads ws ps)).2.2 := by
  induction ps generalizing ws with
  | nil =>
    rw [List.length_nil, ExtraStaticSearcher.searchLoop, Option.map_some,
      ExtraStaticSearcher.searchHead,
      nextHead_eq]
    cases hreached : reached q (heads.drop ws.ri) with
    | nil =>
      have hitems : items q heads ws ([] : List (List (Record b d))) = [] := by
        rw [items, hreached, merge_end, List.map_nil]
      rw [hitems]
      exact ⟨ws, rfl, rfl, [], h, hitems.symm⟩
    | cons head hs =>
      obtain ⟨hask, hplace⟩ := h.head hreached fun hne => absurd rfl hne
      rw [hask]
      exact ⟨_, rfl, rfl, [], hplace, rfl⟩
  | cons es ps ih =>
    rw [List.length_cons, ExtraStaticSearcher.searchLoop, nextHead_eq]
    by_cases hdue : ws.ri ≤ ws.pi → reached q (heads.drop ws.ri) = []
    · have hfilter : (reached q (heads.drop ws.ri)).head?.filter
        (fun _ => decide (ws.ri ≤ ws.pi)) = none := by
        by_cases hri : ws.ri ≤ ws.pi
        · rw [hdue hri, List.head?_nil, Option.filter_none]
        · rw [decide_eq_false hri]
          cases (reached q (heads.drop ws.ri)).head? <;> rfl
      have hitems : items q heads ws (es :: ps) =
          es.map .entry ++ merge true (reached q (heads.drop ws.ri)) ps :=
        merge_posting fun hri => hdue (of_decide_eq_true hri)
      obtain ⟨found, pages, offset, pi, seen, es', ps', hrun, hask, hnone, hpending, hcases⟩ :=
        searchPostingOffset_spec (q := q) h.pending fun hc => (h.last hc).1
      have hseen : (ask (judge q) ws.deduper (es.map .entry)).2.1 = seen := by rw [hask]
      rw [hfilter, hrun, hitems, ask_append, hask]
      rcases hcases with ⟨rfl, rfl, rfl, rfl⟩ | ⟨hes', rfl, rfl⟩
      · obtain ⟨hplace, hitems'⟩ := h.next hdue hpending hseen
        cases found with
        | some res => exact ⟨_, rfl, rfl, _, hplace, hitems'.symm⟩
        | none =>
          obtain ⟨ws', hloop, hleft⟩ := ih hplace
          rw [hitems'] at hloop hleft
          dsimp only
          rw [if_neg (Nat.succ_ne_self _)]
          exact ⟨ws', hloop, hleft⟩
      · cases found with
        | none => exact absurd (hnone rfl) hes'
        | some res =>
          refine ⟨_, rfl, rfl, es' :: ps,
            ⟨h.loaded, hpending, fun _ => h.near (List.cons_ne_nil _ _),
            fun hc => ?_⟩, (merge_posting fun hri => hdue (of_decide_eq_true hri)).symm⟩
          have hlast := (h.last hc).1
          rw [hask] at hlast
          exact absurd (List.map_eq_nil_iff.mp hlast) hes'
    · obtain ⟨hri, hne⟩ := Classical.not_imp.mp hdue
      obtain ⟨head, hs, hreached⟩ := List.exists_cons_of_ne_nil hne
      obtain ⟨hask, hplace⟩ := h.head hreached fun _ => hri
      rw [hask, hreached, List.head?_cons, decide_eq_true hri]
      exact ⟨_, rfl, rfl, _, hplace, rfl⟩

end Call

/-- What is searched: the results of the head index, and the postings that are loaded for them. -/
structure Batch (b d : Nat) (D : Type) where
  searcher : ExtraStaticSearcher
  compressor : Compressor
  sample : Nat → VectorOf b d
  request : Request b d D
  translate : Nat → Option Int
  maxDist : D
  searchInternalResultNum : Nat
  versionMap : VersionLabel
  results : List (BasicResult D)
  pages : PageBuffers

namespace Batch

variable (k : Batch b d D)

def index : Heads D where
  translate := k.translate
  maxDist := k.maxDist
  checkValidPosting := k.searcher.checkValidPosting
  searchInternalResultNum := k.searchInternalResultNum

def heads : List (BasicResult D) := (k.index.select k.results).1

def postingIDs : List Nat := (k.index.select k.results).2

def Holding (posting : Nat → List (Record b d)) : Prop :=
  ∀ pid ∈ k.postingIDs, ∃ listInfo buffer, k.searcher.listInfos[pid]? = some listInfo ∧
    k.searcher.readPages listInfo pid = some buffer ∧
    Loads k.searcher k.compressor (k.sample pid) listInfo buffer (posting pid)

variable (posting : Nat → List (Record b d))

def entries : List (BasicResult D) := (k.postingIDs.flatMap posting).map k.request.result

def Wanted (vid : Int) : Prop := k.versionMap.deleted vid = false ∧ k.request.accept vid = true

def Delivers : Prop :=
  Iterative.Delivers k.index k.searcher.searchIndexWithoutParsing
    (k.searcher.searchNextInPosting k.request k.compressor k.sample) k.results k.pages k.Wanted
    (present k.heads ++ k.entries posting)

/-- The heads up to the first one that is blank or not accepted are all there is to deliver of the
heads, each is delivered by itself, and nothing that is delivered is deleted. -/
structure Clean : Prop where
  once : ((reached k.request k.heads).map BasicResult.vid).Nodup
  apart : ∀ head ∈ reached k.request k.heads, head.vid ∉ (k.entries posting).map BasicResult.vid
  alive_head : ∀ head ∈ reached k.request k.heads, k.versionMap.deleted head.vid = false
  alive_entry : ∀ r ∈ k.entries posting, k.request.accept r.vid = true →
    k.versionMap.deleted r.vid = false
  covered : ∀ head ∈ present k.heads, k.Wanted head.vid →
    head.vid ∈ (reached k.request k.heads).map BasicResult.vid ∨
      head.vid ∈ (k.entries posting).map BasicResult.vid

def Undivided : Prop :=
  ∀ ps₁ ps₂ es₁ e es₂, k.postingIDs.map posting = ps₁ ++ (es₁ ++ e :: es₂) :: ps₂ →
    k.request.accept (k.request.result e).vid = true →
    (∀ e' ∈ ps₁.flatten ++ es₁, (k.request.result e').vid ≠ (k.request.result e).vid) → es₂ = []

end Batch

section Batch

variable {q} {k : Batch b d D} {posting : Nat → List (Record b d)}

theorem sift_perm (seen : List Int) (is : List (Item D (Record b d))) :
    (sift (judge q) seen is).Perm (headsOf is ++
      novel BasicResult.vid (fun _ => false) q.accept seen ((entriesOf is).map q.result)) := by
  induction is generalizing seen with
  | nil => exact .refl _
  | cons i is ih =>
    cases i with
    | head res => exact (ih seen).cons res
    | entry e =>
      have hentries : (entriesOf (Item.entry e :: is)).map q.result =
          q.result e :: (entriesOf is).map q.result := rfl
      have hheads : headsOf (Item.entry e :: is) = headsOf is := rfl
      rw [hentries, hheads, sift, judge, novel]
      by_cases hseen : (q.result e).vid ∈ seen
      · rw [if_pos hseen, if_pos (.inr hseen)]
        exact ih seen
      · rw [if_neg hseen, if_neg (not_or.mpr ⟨Bool.false_ne_true, hseen⟩)]
        by_cases haccept : q.accept (q.result e).vid = true
        · rw [if_pos haccept, if_pos haccept]
          exact ((ih _).cons _).trans List.perm_middle.symm
        · rw [if_neg haccept, if_neg haccept]
          exact ih _

theorem mem_reached {hs : List (BasicResult D)} {head : BasicResult D} (h : head ∈ reached q hs) :
    head ∈ present hs ∧ q.accept head.vid = true := by
  have hp := @List.mem_takeWhile_imp _
    (fun head : BasicResult D => head.vid ≠ -1 && q.accept head.vid) _ _ h
  obtain ⟨hvid, haccept⟩ := Bool.and_eq_true_iff.mp hp
  exact ⟨List.mem_filter.mpr ⟨(List.takeWhile_prefix _).subset h, hvid⟩, haccept⟩

theorem Batch.exact_iff {out : List (BasicResult D)}
    (h : out.Perm (reached k.request k.heads ++
      novel BasicResult.vid (fun _ => false) k.request.accept []
      (k.entries posting))) :
    Exact k.Wanted (present k.heads ++ k.entries posting) out ↔ k.Clean posting := by
  have hnovel : ∀ vid, vid ∈ (novel BasicResult.vid (fun _ => false) k.request.accept []
      (k.entries posting)).map BasicResult.vid ↔
        k.request.accept vid = true ∧ vid ∈ (k.entries posting).map BasicResult.vid := by
    intro vid
    rw [mem_keys_novel]
    exact and_congr_left fun _ => ⟨fun h => h.2.1, fun h => ⟨rfl, h, List.not_mem_nil⟩⟩
  rw [Exact.perm h]
  constructor
  · intro he
    have honce := he.once
    have hall := he.mem_iff
    simp only [List.map_append, List.mem_append] at honce hall
    obtain ⟨hheads, -, hdisjoint⟩ := List.nodup_append'.mp honce
    refine ⟨hheads, fun head hhead hentry => ?_, fun head hhead => ?_, fun r hr haccept => ?_,
      fun head hhead hwanted => ?_⟩
    · exact hdisjoint (List.mem_map_of_mem hhead) ((hnovel _).mpr ⟨(mem_reached hhead).2, hentry⟩)
    · exact ((hall _).mp (.inl (List.mem_map_of_mem hhead))).1.1
    · exact ((hall _).mp (.inr ((hnovel _).mpr ⟨haccept, List.mem_map_of_mem hr⟩))).1.1
    · exact ((hall _).mpr ⟨hwanted, .inl (List.mem_map_of_mem hhead)⟩).imp_right fun h =>
        ((hnovel _).mp h).2
  · intro hc
    refine ⟨?_, fun r hr => ?_, fun vid => ?_⟩
    · rw [List.map_append, List.nodup_append']
      refine ⟨hc.once, nodup_keys_novel, fun vid hhead hentry => ?_⟩
      obtain ⟨head, hmem, rfl⟩ := List.mem_map.mp hhead
      exact hc.apart head hmem ((hnovel _).mp hentry).2
    · rcases List.mem_append.mp hr with hr | hr
      · exact List.mem_append_left _ (mem_reached hr).1
      · exact List.mem_append_right _ (mem_of_mem_novel hr)
    · simp only [List.map_append, List.mem_append]
      constructor
      · rintro (hvid | hvid)
        · obtain ⟨head, hhead, rfl⟩ := List.mem_map.mp hvid
          obtain ⟨hpresent, haccept⟩ := mem_reached hhead
          exact ⟨⟨hc.alive_head head hhead, haccept⟩, .inl (List.mem_map_of_mem hpresent)⟩
        · obtain ⟨haccept, hentry⟩ := (hnovel _).mp hvid
          obtain ⟨r, hr, rfl⟩ := List.mem_map.mp hentry
          exact ⟨⟨hc.alive_entry r hr haccept, haccept⟩, .inr hentry⟩
      · rintro ⟨hwanted, hvid | hvid⟩
        · obtain ⟨head, hhead, rfl⟩ := List.mem_map.mp hvid
          exact (hc.covered head hhead hwanted).imp_right fun h => (hnovel _).mpr ⟨hwanted.2, h⟩
        · exact .inr ((hnovel _).mpr ⟨hwanted.2, hvid⟩)

theorem pending_of_loads {x : ExtraStaticSearcher} {compressor : Compressor}
    {sample : Nat → VectorOf b d}
    {pids : List Nat} (h : ∀ pid ∈ pids, ∃ listInfo buffer, x.listInfos[pid]? = some listInfo ∧
      x.readPages listInfo pid = some buffer ∧
        Loads x compressor (sample pid) listInfo buffer (posting pid)) :
    ∃ buffers, (pids.mapM fun pid => do x.readPages (← x.listInfos[pid]?) pid) = some buffers ∧
      Pending x compressor sample 0 pids buffers (pids.map posting) := by
  induction pids with
  | nil => exact ⟨[], rfl, .nil⟩
  | cons pid pids ih =>
    obtain ⟨listInfo, buffer, hinfo, hread, hloads⟩ := h pid (.head _)
    obtain ⟨buffers, hrest, hpending⟩ := ih fun pid hpid => h pid (.tail _ hpid)
    refine ⟨buffer :: buffers, ?_, .cons hinfo hloads.holds hpending⟩
    rw [List.mapM_cons, hrest, hinfo]
    simp only [Option.bind_eq_bind, Option.bind_some, hread]
    rfl

theorem ask_entries {es : List (Record b d)} {seen seen' : List Int} {reply : Answer D}
    {rest : List (Item D (Record b d))}
    (h : ask (judge q) seen (es.map .entry) = (reply, seen', rest)) :
    (∀ vid ∈ seen, vid ∈ seen') ∧
      (rest = [] ∧ (∀ e ∈ es, (q.result e).vid ∈ seen') ∨
        ∃ es₁ e es₂, es = es₁ ++ e :: es₂ ∧ rest = es₂.map .entry ∧
          q.accept (q.result e).vid = true ∧
          (q.result e).vid ∉ seen ∧ (∀ e' ∈ es₁, (q.result e').vid ≠ (q.result e).vid) ∧
          ∀ e' ∈ es₁ ++ [e], (q.result e').vid ∈ seen') := by
  induction es generalizing seen with
  | nil =>
    cases h
    exact ⟨fun _ hvid => hvid, .inl ⟨rfl, fun e he => absurd he List.not_mem_nil⟩⟩
  | cons e es ih =>
    rw [List.map_cons, ask, judge] at h
    by_cases hseen : (q.result e).vid ∈ seen
    · rw [if_pos hseen] at h
      obtain ⟨hkeep, hcases⟩ := ih h
      refine ⟨hkeep, hcases.imp ?_ ?_⟩
      · rintro ⟨hrest, hall⟩
        exact ⟨hrest, List.forall_mem_cons.mpr ⟨hkeep _ hseen, hall⟩⟩
      · rintro ⟨es₁, e', es₂, rfl, hrest, haccept, hnew, hother, hall⟩
        exact ⟨e :: es₁, e', es₂, rfl, hrest, haccept, hnew,
          List.forall_mem_cons.mpr ⟨fun heq => hnew (heq ▸ hseen), hother⟩,
          List.forall_mem_cons.mpr ⟨hkeep _ hseen, hall⟩⟩
    · rw [if_neg hseen] at h
      by_cases haccept : q.accept (q.result e).vid = true
      · rw [if_pos haccept] at h
        cases h
        exact ⟨fun _ hvid => .tail _ hvid, .inr ⟨[], e, es, rfl, rfl, haccept, hseen,
          fun e' he' => absurd he' List.not_mem_nil, List.forall_mem_singleton.mpr (.head _)⟩⟩
      · rw [if_neg haccept] at h
        obtain ⟨hkeep, hcases⟩ := ih h
        have he := hkeep _ (.head _)
        refine ⟨fun vid hvid => hkeep _ (.tail _ hvid), hcases.imp ?_ ?_⟩
        · rintro ⟨hrest, hall⟩
          exact ⟨hrest, List.forall_mem_cons.mpr ⟨he, hall⟩⟩
        · rintro ⟨es₁, e', es₂, rfl, hrest, haccept, hnew, hother, hall⟩
          exact ⟨e :: es₁, e', es₂, rfl, hrest, haccept, fun h => hnew (.tail _ h),
            List.forall_mem_cons.mpr ⟨fun heq => hnew (heq ▸ .head _), hother⟩,
            List.forall_mem_cons.mpr ⟨he, hall⟩⟩

theorem onlyLast_of_undivided {ps₀ ps : List (List (Record b d))} {seen : List Int}
    (hseen : ∀ e ∈ ps₀.flatten, (q.result e).vid ∈ seen)
    (h : ∀ ps₁ ps₂ es₁ e es₂, ps₀ ++ ps = ps₁ ++ (es₁ ++ e :: es₂) :: ps₂ →
      q.accept (q.result e).vid = true →
      (∀ e' ∈ ps₁.flatten ++ es₁, (q.result e').vid ≠ (q.result e).vid) → es₂ = []) :
    OnlyLast q seen ps := by
  induction ps generalizing ps₀ seen with
  | nil => trivial
  | cons es ps ih =>
    rcases hask : ask (judge q) seen (es.map .entry) with ⟨reply, seen', rest⟩
    obtain ⟨hkeep, hcases⟩ := ask_entries hask
    have hall : rest = [] ∧ ∀ e ∈ es, (q.result e).vid ∈ seen' := by
      rcases hcases with hcases | ⟨es₁, e, es₂, rfl, hrest, haccept, hnew, hother, hall⟩
      · exact hcases
      · obtain rfl := h ps₀ ps es₁ e es₂ rfl haccept fun e' he' => by
          rcases List.mem_append.mp he' with he' | he'
          · exact fun heq => hnew (heq ▸ hseen e' he')
          · exact hother e' he'
        exact ⟨hrest, hall⟩
    refine ⟨by rw [hask]; exact hall.1, ?_⟩
    rw [hask]
    refine @ih (ps₀ ++ [es]) _ (fun e he => ?_) fun ps₁ ps₂ es₁ e es₂ heq => ?_
    · rw [List.flatten_append, List.flatten_singleton] at he
      exact (List.mem_append.mp he).elim (fun he => hkeep _ (hseen e he)) (hall.2 e)
    · rw [List.append_assoc] at heq
      exact h ps₁ ps₂ es₁ e es₂ heq

namespace Batch

/-- The calls find the heads up to the first one that is not taken, and the first record of each
accepted id, in the order in which they are looked at. -/
theorem exhaust_eq (h : k.Holding posting)
    (hlast : k.searcher.flags.enableDataCompression = true →
      OnlyLast k.request [] (k.postingIDs.map posting)) :
    ∃ calls, exhaust (searchDiskIndexIterative k.index k.searcher.searchIndexWithoutParsing
      (k.searcher.searchNextInPosting k.request k.compressor k.sample)) calls
        (k.results, .start k.pages) =
        some (sift (judge k.request) []
          (merge true (reached k.request k.heads) (k.postingIDs.map posting))) := by
  obtain ⟨buffers, hbuffers, hpending⟩ := pending_of_loads h
  have hload : k.searcher.searchIndexWithoutParsing (.asked k.index k.results k.pages) =
      .ok { k.pages with pageBuffers := buffers } := by
    rw [ExtraStaticSearcher.searchIndexWithoutParsing]
    exact congrArg (fun o : Option (List Bytes) => match o with
      | none => Except.error ErrorCode.diskIOFail
      | some buffers => .ok { k.pages with pageBuffers := buffers }) hbuffers
  refine ⟨_, exhaust_of_left (Left k.request k.searcher k.compressor k.sample k.heads)
    (fun ws v is hleft => ?_) (fun ws b v is hleft => ?_) (fun ws v is hleft => ?_) hload
    ⟨rfl, _, ⟨rfl, hpending, fun _ _ => ⟨Nat.le_refl _, Nat.zero_le _⟩, hlast⟩, rfl⟩⟩
  · obtain ⟨-, ps, hplace, -⟩ := hleft
    exact hplace.loaded
  · obtain ⟨hseen, ps, hplace, his⟩ := hleft
    exact ⟨hseen, ps, ⟨hplace.loaded, hplace.pending, hplace.near, hplace.last⟩, his⟩
  · obtain ⟨rfl, ps, hplace, rfl⟩ := hleft
    have hlength := hplace.pending.length_eq
    rw [List.length_drop] at hlength
    rw [ExtraStaticSearcher.searchNextInPosting, hlength]
    exact searchLoop_spec hplace

theorem sift_merge_perm : (sift (judge k.request) []
    (merge true (reached k.request k.heads) (k.postingIDs.map posting))).Perm
      (reached k.request k.heads ++ novel BasicResult.vid (fun _ => false) k.request.accept []
        (k.entries posting)) := by
  have hperm := sift_perm (q := k.request) []
    (merge true (reached k.request k.heads) (k.postingIDs.map posting))
  rwa [headsOf_merge, entriesOf_merge, ← List.flatMap_def] at hperm

theorem delivers_of_clean (h : k.Holding posting) (hclean : k.Clean posting)
    (hundivided : k.searcher.flags.enableDataCompression = true → k.Undivided posting) :
    k.Delivers posting := by
  obtain ⟨calls, hout⟩ := exhaust_eq h fun hc =>
    @onlyLast_of_undivided _ _ _ _ [] _ _ (fun e he => absurd he List.not_mem_nil) (hundivided hc)
  exact ⟨calls, _, hout, (exact_iff sift_merge_perm).mpr hclean⟩

theorem clean_of_delivers (h : k.Holding posting)
    (hc : k.searcher.flags.enableDataCompression = false)
    (hdelivers : k.Delivers posting) : k.Clean posting := by
  obtain ⟨calls, hout⟩ := exhaust_eq h fun hc' => absurd (hc.symm.trans hc') Bool.false_ne_true
  obtain ⟨calls', out, hout', hexact⟩ := hdelivers
  obtain rfl := exhaust_unique hout' hout
  exact (exact_iff sift_merge_perm).mp hexact

end Batch

end Batch

end Sptag.SPANN.Static
