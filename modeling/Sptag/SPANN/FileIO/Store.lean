import Sptag.SPANN.FileIO.BlockController

/-! `FileIO` of `ExtraFileController.h` without its cache: the block mapping, and what `Put`,
`Merge`, `Delete` and `Get` do to it and to the blocks. -/

namespace Sptag.SPANN

open Sptag.Lib

/-- An array of `AddressType`: the size of the value, then the ids of its blocks. Slots
after the last one written are never read and are left out. -/
structure Addresses where
  size : Int
  slots : List Int
  deriving DecidableEq

namespace Addresses

def blank : Addresses := ⟨-1, []⟩

def write (a : Addresses) (offset : Nat) (ids : List Int) : Addresses :=
  { a with slots := a.slots.take offset ++ ids }

def blocks (a : Addresses) : List Int :=
  if a.size < 0 then [] else a.slots.take (pages a.size.toNat)

end Addresses

structure Store where
  blockMapping : List (Option Addresses)
  buffer : Nat
  blockController : BlockController

namespace Store

def bufferLimit : Nat := 1024

variable (opt : Options) (st : Store)

def at? (key : Nat) : Option Addresses := (st.blockMapping[key]?).join

def setAt (key : Nat) (a : Option Addresses) : Store :=
  { st with blockMapping := st.blockMapping.set key a }

def controller (bc : BlockController) : Store := { st with blockController := bc }

def reach (key : Nat) : Store :=
  { st with blockMapping := st.blockMapping ++
      List.replicate (key + 1 - st.blockMapping.length) none }

def takeArray : Store :=
  if bufferLimit < st.buffer then { st with buffer := st.buffer - 1 } else st

def popBuffer : Store := { st with buffer := st.buffer - 1 }

def pushBuffer : Store := { st with buffer := st.buffer + 1 }

inductive Allocation
  /-- The blocks hold the value. -/
  | done (ids : List Int)
  /-- `GetBlocks` failed, after it had written `ids`. -/
  | dry (ids : List Int)
  /-- `WriteBlocks` failed, and `ReleaseBlocks` took the blocks back. -/
  | unwritten (ids : List Int)

def allocate (bc : BlockController) (p_size : Int) (value : Bytes) : Allocation × BlockController :=
  let got := bc.getBlocks opt p_size
  if got.1.1 then
    let wrote := got.2.writeBlocks got.1.2 p_size value
    if wrote.1 then (.done got.1.2, wrote.2)
    else (.unwritten got.1.2, wrote.2.releaseBlocks opt got.1.2)
  else (.dry got.1.2, got.2)

def putBlocks (key : Nat) (value : Bytes) : ErrorCode × Store :=
  let blocks := pages value.length
  match st.at? key with
  | none =>
    let st := st.takeArray
    match allocate opt st.blockController blocks value with
    | (.done ids, bc) => (.success, (st.controller bc).setAt key (some ⟨value.length, ids⟩))
    | (.dry _, bc) => (.diskIOFail, st.controller bc)
    | (.unwritten _, bc) => (.diskIOFail, st.controller bc)
  | some a =>
    if a.size < 0 then
      match allocate opt st.blockController blocks value with
      | (.done ids, bc) => (.success, (st.controller bc).setAt key (some ⟨value.length, ids⟩))
      | (.dry ids, bc) => (.diskIOFail, (st.controller bc).setAt key (some (a.write 0 ids)))
      -- the size is set before the write and stays when the slots are set back to -1
      | (.unwritten _, bc) =>
        (.diskIOFail,
          (st.controller bc).setAt key (some ⟨value.length, List.replicate blocks (-1)⟩))
    else
      let st := st.popBuffer
      match allocate opt st.blockController blocks value with
      | (.done ids, bc) =>
        (.success, ((st.controller (bc.releaseBlocks opt a.blocks)).setAt key
          (some ⟨value.length, ids⟩)).pushBuffer)
      | (.dry _, bc) => (.diskIOFail, (st.controller bc).pushBuffer)
      | (.unwritten _, bc) => (.diskIOFail, (st.controller bc).pushBuffer)

def put (key : Nat) (value : Bytes) : ErrorCode × Store :=
  if opt.blockLimit ≤ pages value.length then (.postingOverFlow, st)
  else (st.reach key).putBlocks opt key value

def resize (key : Nat) (a : Addresses) (value : Bytes) : ErrorCode × Store :=
  let blocks := pages value.length
  let oldblocks := if a.size < 0 then 0 else pages a.size.toNat
  if oldblocks < blocks then
    let got := st.blockController.getBlocks opt (blocks - oldblocks : Nat)
    let a := a.write oldblocks got.1.2
    if got.1.1 then
      (.success, (st.controller got.2).setAt key (some { a with size := value.length }))
    else (.diskIOFail, (st.controller got.2).setAt key (some a))
  else
    let bc := st.blockController.releaseBlocks opt ((a.slots.take oldblocks).drop blocks)
    (.success, (st.controller bc).setAt key (some { a with size := value.length }))

def putCached (key : Nat) (value : Bytes) : ErrorCode × Store :=
  match st.at? key with
  | some a => st.resize opt key a value
  | none => (st.takeArray.setAt key (some .blank)).resize opt key .blank value

def mergeBlocks (key : Nat) (value : Bytes) (newSize : Nat) : ErrorCode × Store :=
  match st.at? key with
  | none => (.keyNotFound, st)
  | some a =>
    let sizeInPage := a.size.toNat % PageSize
    let oldblocks := a.size.toNat / PageSize
    let allocblocks : Int := pages newSize - oldblocks
    if sizeInPage ≠ 0 then
      let last := a.slots.getD oldblocks (-1)
      match st.blockController.readBlocks opt sizeInPage [last] with
      | (none, bc) => (.diskIOFail, st.controller bc)
      | (some newValue, bc) =>
        let st := (st.controller bc).popBuffer
        match allocate opt st.blockController allocblocks (newValue ++ value) with
        | (.done ids, bc) =>
          (.success, ((st.controller (bc.releaseBlocks opt [last])).setAt key
            (some { a.write oldblocks ids with size := newSize })).pushBuffer)
        | (.dry _, bc) => (.diskIOFail, (st.controller bc).pushBuffer)
        | (.unwritten _, bc) => (.diskIOFail, (st.controller bc).pushBuffer)
    else
      match allocate opt st.blockController allocblocks value with
      | (.done ids, bc) =>
        (.success, (st.controller bc).setAt key
          (some { a.write oldblocks ids with size := newSize }))
      | (.dry ids, bc) => (.diskIOFail, (st.controller bc).setAt key (some (a.write oldblocks ids)))
      | (.unwritten ids, bc) =>
        (.diskIOFail, (st.controller bc).setAt key (some (a.write oldblocks ids)))

def mergeCached (key : Nat) (newSize : Nat) : ErrorCode × Store :=
  match st.at? key with
  | none => (.keyNotFound, st)
  | some a =>
    let oldblocks := pages a.size.toNat
    if oldblocks < pages newSize then
      let got := st.blockController.getBlocks opt (pages newSize - oldblocks : Nat)
      let a := a.write oldblocks got.1.2
      if got.1.1 then
        (.success, (st.controller got.2).setAt key (some { a with size := newSize }))
      else (.diskIOFail, (st.controller got.2).setAt key (some a))
    else (.success, st.setAt key (some { a with size := newSize }))

def deleteBlocks (key : Nat) : ErrorCode × Store :=
  match st.at? key with
  | none => (.keyNotFound, st)
  | some a =>
    if a.size < 0 then (.keyNotFound, st)
    else
      let bc := st.blockController.releaseBlocks opt a.blocks
      (.success, ((st.controller bc).pushBuffer).setAt key none)

def locate (key : Nat) : Except ErrorCode Addresses :=
  if st.blockMapping.length ≤ key then .error .keyOverFlow
  else
    match st.at? key with
    | none => .error .keyNotFound
    | some a => if toInt a.size < 0 then .error .postingSizeError else .ok a

def read (a : Addresses) : Except ErrorCode Bytes × Store :=
  let got := st.blockController.readBlocks opt a.size a.slots
  match got.1 with
  | some value => (.ok value, st.controller got.2)
  | none => (.error .fail, st.controller got.2)

def get (key : Nat) : Except ErrorCode Bytes × Store :=
  match st.locate key with
  | .error e => (.error e, st)
  | .ok a => st.read opt a

end Store

end Sptag.SPANN
