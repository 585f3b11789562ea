import Sptag.Common
import Sptag.Lib.Bytes

/-! `PageBuffer` of `DiskIO.h`. -/

namespace Sptag.Helper

open Sptag.Lib

structure PageBuffer where
  pageSize : Nat
  availableSize : Nat
  buffer : Bytes
  deriving DecidableEq

namespace PageBuffer

def numPages (value : PageBuffer) : Nat := value.pageSize / PageSize

def reserve (value : PageBuffer) (size : Nat) : PageBuffer :=
  { value with pageSize := max value.pageSize size }

def fill (value : PageBuffer) (v : Bytes) : PageBuffer :=
  { value with availableSize := v.length, buffer := v }

def copy (value : PageBuffer) (v : Bytes) : PageBuffer := (value.reserve v.length).fill v

def content (value : PageBuffer) : Nat × Bytes := (value.availableSize, value.buffer)

def available (value : PageBuffer) : Nat × Bytes :=
  (value.availableSize, value.buffer.take value.availableSize)

theorem available_eq {value : PageBuffer} {v : Bytes} (h : value.content = (v.length, v)) :
    value.available = (v.length, v) := by
  obtain ⟨hsize, hbuffer⟩ := Prod.mk.inj h
  rw [available, hsize, hbuffer, List.take_length]

@[simp] theorem content_fill (value : PageBuffer) (v : Bytes) :
    (value.fill v).content = (v.length, v) := rfl

@[simp] theorem content_copy (value : PageBuffer) (v : Bytes) :
    (value.copy v).content = (v.length, v) := rfl

theorem pageSize_copy {value : PageBuffer} {v : Bytes} (h : pages v.length ≤ value.numPages) :
    (value.copy v).pageSize = value.pageSize := by
  apply max_eq_left
  rw [pages_eq, numPages, PageSize] at h
  omega

end PageBuffer

end Sptag.Helper
