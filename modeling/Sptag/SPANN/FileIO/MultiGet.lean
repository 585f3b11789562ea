import Sptag.Helper.DiskIO
import Sptag.SPANN.FileIO.Cache

/-! `MultiGet` of `FileIO`, of strings and of page buffers, and `Check`. -/

namespace Sptag.SPANN

open Sptag.Helper Sptag.Lib

def BlockController.batchReadFile (bc : BlockController) (reqcount : Nat) :
    Bool × BlockController :=
  let ok := bc.io.reads.headD true
  let bc := { bc with io := { bc.io with reads := bc.io.reads.tail } }
  if ok || reqcount = 0 then (true, bc) else (false, bc.fault)

/-- An element of `blocks` in `MultiGet`: a null pointer for a key the cache has answered, an
entry of all ones, or an array. -/
inductive Target
  | cached
  | absent
  | array (a : Addresses)

def Addresses.postingSize (a : Addresses) : Nat := toSize a.size

namespace Target

def requests : Target → Nat
  | .array a => pages a.postingSize
  | _ => 0

def readString (page : Int → Bytes) (value : Bytes) : Target → Bytes
  | .cached => value
  | .absent => []
  | .array a =>
    BlockController.readPages page (a.slots.take (pages a.postingSize)) a.postingSize

def readBuffer (page : Int → Bytes) (value : PageBuffer) : Target → PageBuffer
  | .cached => value
  | .absent => { value with availableSize := 0 }
  | .array a =>
    { value with
      availableSize := a.postingSize
      buffer := BlockController.readPages page
        (a.slots.take (min (pages a.postingSize) value.numPages))
        (min a.postingSize (value.numPages * PageSize)) }

def readAll {B : Type} (read : B → Target → B) : List B → List Target → List B
  | value :: values, t :: ts => read value t :: readAll read values ts
  | values, [] => values
  | [], _ => []

end Target

namespace FileIO

variable (opt : Options) (f : FileIO)

def target (key : Nat) : Target :=
  match f.cached opt key with
  | some _ => .cached
  | none =>
    match f.store.at? key with
    | none => .absent
    | some a => .array a

def blocks (keys : List Nat) : List Target :=
  (keys.filter (· < f.store.blockMapping.length)).map (f.target opt)

def batchRead (reqcount : Nat) : Bool × FileIO :=
  if opt.reqs < reqcount then (false, f)
  else
    let done := f.store.blockController.batchReadFile reqcount
    (done.1, { f with store := f.store.controller done.2 })

def multiGet (keys : List Nat) : Except ErrorCode (List Bytes) × FileIO :=
  let cached := keys.map fun key =>
    if key < f.store.blockMapping.length then (f.cached opt key).getD [] else []
  let done := f.batchRead opt ((f.blocks opt keys).map Target.requests).sum
  (if done.1 then
      .ok (Target.readAll (Target.readString f.store.blockController.pages) cached
        (f.blocks opt keys))
    else .error .fail, done.2)

def getCached (key : Nat) (value : PageBuffer) : PageBuffer :=
  match f.cached opt key with
  | some v => value.copy v
  | none => value

def multiGetBuffers (keys : List Nat) (values : List PageBuffer) :
    Except ErrorCode (List PageBuffer) × FileIO :=
  let cached := List.zipWith (fun key (value : PageBuffer) =>
    if key < f.store.blockMapping.length then f.getCached opt key value else value) keys values
  let done := f.batchRead opt
    ((cached.take (f.blocks opt keys).length).map PageBuffer.numPages).sum
  (if done.1 then
      .ok (Target.readAll (Target.readBuffer f.store.blockController.pages) cached
        (f.blocks opt keys))
    else .error .fail, done.2)

def check (key : Nat) (size : Int) : ErrorCode :=
  if f.store.blockMapping.length ≤ key then .keyOverFlow
  else
    match f.store.at? key with
    | none => .keyOverFlow
    | some a =>
      if a.size ≠ size then .postingSizeError
      else if (a.slots.take (pages a.size.toNat)).any fun id =>
          id < 0 || f.store.blockController.totalAllocatedBlocks ≤ id then .blockIDError
      else .success

end FileIO

end Sptag.SPANN
