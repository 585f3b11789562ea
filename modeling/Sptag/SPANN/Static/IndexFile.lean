import Sptag.SPANN.PageOptions
import Sptag.SPANN.Static.Layout
import Sptag.SPANN.Static.Posting

/-! The SSD index file of `ExtraStaticSearcher.h`: `OutputSSDIndexFile` writes it,
`LoadingHeadInfo` reads its head, and a search reads a posting from its body. -/

namespace Sptag.SPANN.Static

open Lib

structure Flags where
  enableDeltaEncoding : Bool
  enablePostingListRearrange : Bool
  enableDataCompression : Bool
  enableDictTraining : Bool
  deriving DecidableEq

structure Compressor where
  compress : Bytes → Bool → Bytes → Bytes
  decompress : Bytes → Bool → Bytes → Nat → Option Bytes

structure Source (b d : Nat) where
  flags : Flags
  compressor : Compressor
  dictBuffer : Bytes
  postingListSizes : List Nat
  selections : List Edge
  fullVectors : VID → VectorOf b d
  vectorCount : Nat
  headIndex : Nat → VectorOf b d

variable {b d : Nat}

namespace Source

variable (x : Source b d)

def postingListSize (h : Nat) : Nat := x.postingListSizes.getD h 0

def postingListFullData (h : Nat) : Option Bytes :=
  getPostingListFullData x.flags.enableDeltaEncoding x.flags.enablePostingListRearrange x.selections
    x.fullVectors (x.headIndex h) h (x.postingListSize h)

def compress (data : Bytes) : Bytes :=
  x.compressor.compress x.dictBuffer x.flags.enableDictTraining data

def postingListByte (h : Nat) : Option Nat :=
  if x.flags.enableDataCompression then
    if x.postingListSize h = 0 then some 0
    else do
      let data ← x.postingListFullData h
      some (x.compress data).length
  else some (x.postingListSize h * vectorInfoSize b d)

def postingListBytes : Option (List Nat) :=
  (List.range x.postingListSizes.length).mapM x.postingListByte

def metaSize : Nat :=
  4 * 4 + (4 + 2 + 4 + 2) * x.postingListSizes.length +
    (if x.flags.enableDataCompression then 8 * x.postingListSizes.length else 0) +
    (if x.flags.enableDataCompression && x.flags.enableDictTraining then 8 + x.dictBuffer.length
      else 0)

end Source

/-- `PageSize - n % PageSize`, which is none of the page when `n` fills it. -/
def paddingSize (n : Nat) : Nat :=
  if PageSize - n % PageSize = PageSize then 0 else PageSize - n % PageSize

def padding (n : Nat) : Bytes := List.replicate n 0

def listPageCount (postingListByte : Nat) : Nat :=
  postingListByte / PageSize + if postingListByte % PageSize = 0 then 0 else 1

def metaEntry (compression : Bool)
    (postingListByte pageNum pageOffset listEleCount : Nat) : Bytes :=
  (if compression then leBytes 8 postingListByte else []) ++
    (leBytes 4 pageNum ++ (leBytes 2 pageOffset ++
      (leBytes 4 listEleCount ++ leBytes 2 (listPageCount postingListByte))))

namespace Source

variable (x : Source b d) (postingListBytes : List Nat) (s : Selecting)

def metaOf (h : Nat) : Bytes :=
  if 0 < x.postingListSize h then
    metaEntry x.flags.enableDataCompression (postingListBytes.getD h 0) (s.postPageNum h)
      (s.postPageOffset h) (x.postingListSize h)
  else metaEntry x.flags.enableDataCompression 0 0 0 0

def dictBytes : Bytes :=
  if x.flags.enableDataCompression && x.flags.enableDictTraining then
    leBytes 8 x.dictBuffer.length ++ x.dictBuffer
  else []

def head : Bytes :=
  leBytes 4 x.postingListSizes.length ++ (leBytes 4 x.vectorCount ++ (leBytes 4 d ++
    (leBytes 4 ((x.metaSize + paddingSize x.metaSize) / PageSize) ++
      ((List.range x.postingListSizes.length).flatMap (x.metaOf postingListBytes s) ++
        (x.dictBytes ++ padding (paddingSize x.metaSize))))))

/-- What is written for a posting with records; each size is checked against the one
computed before. -/
def postingData (h : Nat) : Option Bytes := do
  let data ← x.postingListFullData h
  if data.length ≠ x.postingListSize h * vectorInfoSize b d then none
  else if x.flags.enableDataCompression then
    if (x.compress data).length ≠ postingListBytes.getD h 0 then none else some (x.compress data)
  else some data

structure Output where
  file : Bytes
  listOffset : Nat

def writePosting (out : Output) (h : Nat) : Option Output :=
  if s.targetOffset h < out.listOffset then none
  else if PageSize < s.targetOffset h - out.listOffset then none
  else
    let file := out.file ++ padding (s.targetOffset h - out.listOffset)
    if x.postingListSize h = 0 then some ⟨file, s.targetOffset h⟩
    else do
      let data ← x.postingData postingListBytes h
      some ⟨file ++ data, s.targetOffset h + data.length⟩

def outputSSDIndexFile : Option Bytes :=
  let head := x.head postingListBytes s
  if head.length ≠ x.metaSize + paddingSize x.metaSize then none
  else do
    let out ← s.postingOrderInIndex.foldlM (x.writePosting postingListBytes s) ⟨head, 0⟩
    some (out.file ++ padding (paddingSize out.listOffset))

def write (raw : Nat → Nat) : Option Bytes := do
  let bytes ← x.postingListBytes
  let s ← selectPostingOffset raw bytes
  x.outputSSDIndexFile bytes s

end Source

structure ListInfo where
  listTotalBytes : Nat
  listEleCount : Int
  listPageCount : Nat
  listOffset : Nat
  pageOffset : Nat
  deriving DecidableEq

structure ExtraStaticSearcher where
  flags : Flags
  dictBuffer : Bytes
  listInfos : List ListInfo
  indexFiles : List Bytes
  vectorInfoSize : Int
  dataDimension : Int
  totalListCount : Int
  listPerFile : Nat

def readInt : Reader UInt8 Int := (fun bs => toInt (leVal bs)) <$> readFront 4

def readUnsigned (w : Nat) : Reader UInt8 Nat := leVal <$> readFront w

/-- The entry of a posting list. Without compression the posting is cut to the whole records
in the pages it may have. -/
def readListInfo (compression : Bool) (vectorInfoSize : Int) (postingPageLimit : Nat)
    (listPageOffset : Int) : Reader UInt8 ListInfo := do
  let listTotalBytes ← if compression then readUnsigned 8 else pure 0
  let pageNum ← readInt
  let pageOffset ← readUnsigned 2
  let listEleCount ← readInt
  let listPageCount ← readUnsigned 2
  let listOffset := toSize (toInt (listPageOffset + pageNum)) * PageSize % 2 ^ 64
  if compression then
    pure ⟨listTotalBytes, listEleCount, listPageCount, listOffset, pageOffset⟩
  else
    let kept := min listEleCount
      (((min listPageCount postingPageLimit * PageSize : Nat) : Int).tdiv vectorInfoSize)
    pure ⟨toSize (toInt (listEleCount * vectorInfoSize)), kept,
      ((vectorInfoSize * kept + pageOffset + (PageSize - 1)) / PageSize % 2 ^ 16).toNat, listOffset,
      pageOffset⟩

def readListInfos (compression : Bool) (vectorInfoSize : Int) (postingPageLimit : Nat)
    (listPageOffset : Int) : Nat → Reader UInt8 (List ListInfo)
  | 0 => pure []
  | n + 1 => do
    let listInfo ← readListInfo compression vectorInfoSize postingPageLimit listPageOffset
    let listInfos ← readListInfos compression vectorInfoSize postingPageLimit listPageOffset n
    pure (listInfo :: listInfos)

def readDict : Reader UInt8 Bytes := do
  let dictBufferSize ← readUnsigned 8
  readFront dictBufferSize

def loadingHeadInfo (b : Nat) (searcher : ExtraStaticSearcher) (postingPageLimit : Nat) :
    Reader UInt8 ExtraStaticSearcher := do
  let listCount ← readInt
  let _totalDocumentCount ← readInt
  let dataDimension ← readInt
  let listPageOffset ← readInt
  let vectorInfoSize := toInt (dataDimension * b + 4)
  if searcher.vectorInfoSize ≠ 0 ∧ searcher.vectorInfoSize ≠ vectorInfoSize ∨ listCount < 0 then
    fun _ => none
  else do
    let listInfos ← readListInfos searcher.flags.enableDataCompression vectorInfoSize
      postingPageLimit listPageOffset listCount.toNat
    let dictBuffer ←
      if searcher.flags.enableDataCompression && searcher.flags.enableDictTraining then readDict
      else pure []
    pure { searcher with
      dictBuffer := dictBuffer
      listInfos := searcher.listInfos ++ listInfos
      vectorInfoSize := vectorInfoSize
      dataDimension := dataDimension
      totalListCount := searcher.totalListCount + listCount }

def ExtraStaticSearcher.fresh : ExtraStaticSearcher where
  flags := ⟨false, false, false, true⟩
  dictBuffer := []
  listInfos := []
  indexFiles := []
  vectorInfoSize := 0
  dataDimension := 0
  totalListCount := 0
  listPerFile := 0

def loadingPageLimit (o : PageOptions) (vectorInfoSize : Nat) : Nat :=
  max o.searchPostingPageLimit (o.toSizeOptions.pagesOf vectorInfoSize).toNat

def ExtraStaticSearcher.loadIndex (b d : Nat) (searcher : ExtraStaticSearcher) (flags : Flags)
    (o : PageOptions) (files : List Bytes) : Option ExtraStaticSearcher := do
  let searcher ← files.foldlM (fun searcher file => do
    let (searcher, _) ← loadingHeadInfo b
      { searcher with indexFiles := searcher.indexFiles ++ [file] }
      (loadingPageLimit o (Static.vectorInfoSize b d)) file
    some searcher) searcher
  some { searcher with
    flags := flags
    listPerFile :=
      ((searcher.totalListCount + searcher.indexFiles.length - 1) /
        searcher.indexFiles.length).toNat }

namespace ExtraStaticSearcher

variable (searcher : ExtraStaticSearcher)

def fileid (pid : Nat) : Nat :=
  if searcher.indexFiles.length = 1 then 0 else pid / searcher.listPerFile

/-- The pages of a posting, as they are on disk. -/
def readPages (listInfo : ListInfo) (pid : Nat) : Option Bytes := do
  let file ← searcher.indexFiles[searcher.fileid pid]?
  readAt file (listInfo.listPageCount * PageSize) listInfo.listOffset

def decompressPosting (compressor : Compressor) (listInfo : ListInfo) (buffer : Bytes) :
    Option Bytes :=
  if listInfo.listEleCount = 0 then some []
  else do
    let src ← readAt buffer listInfo.listTotalBytes listInfo.pageOffset
    let size := toSize (listInfo.listEleCount * searcher.vectorInfoSize)
    let data ← compressor.decompress searcher.dictBuffer searcher.flags.enableDictTraining src size
    if data.length = size then some data else none

def searchPosting (compressor : Compressor) (sample : Nat → VectorOf b d) (pid : Nat) :
    Option (List (VID × VectorOf b d)) := do
  let listInfo ← searcher.listInfos[pid]?
  if searcher.dataDimension ≠ d then none
  else do
    let buffer ← searcher.readPages listInfo pid
    let data ←
      if searcher.flags.enableDataCompression then
        searcher.decompressPosting compressor listInfo buffer
      else some (buffer.drop listInfo.pageOffset)
    processPosting searcher.flags.enableDeltaEncoding searcher.flags.enablePostingListRearrange
      (sample pid) listInfo.listEleCount.toNat listInfo.listEleCount.toNat 0 data

end ExtraStaticSearcher

end Sptag.SPANN.Static
