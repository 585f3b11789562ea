import Mathlib

/-! Writers that gather what is written in a buffer in front of a sink. -/

namespace Sptag.Lib

structure Buffered (α : Type*) where
  buffer : List α
  sink : List α

namespace Buffered

variable {α : Type*}

def content (w : Buffered α) : List α := w.sink ++ w.buffer

def flush (w : Buffered α) : Buffered α := ⟨[], w.sink ++ w.buffer⟩

/-- One turn of the loop that writes `p`, and what the next one has to write: what does not fit
goes to the sink, behind the buffer if there is something in it. -/
def write (size : Nat) (w : Buffered α) (p : List α) : Buffered α × Option (List α) :=
  let available := size - w.buffer.length
  if available < p.length then
    if w.buffer.length = 0 then (⟨w.buffer, w.sink ++ p⟩, some [])
    else (flush ⟨w.buffer ++ p.take available, w.sink⟩, some (p.drop available))
  else (⟨w.buffer ++ p, w.sink⟩, none)

variable {size : Nat} {w : Buffered α} {p : List α}

@[simp] theorem content_flush (w : Buffered α) : w.flush.content = w.content := List.append_nil _

theorem content_write (size : Nat) (w : Buffered α) (p : List α) :
    (write size w p).1.content ++ (write size w p).2.toList.flatten = w.content ++ p := by
  rw [write]
  split
  · split
    next hempty =>
      rw [List.eq_nil_of_length_eq_zero hempty]
      simp [content, List.eq_nil_of_length_eq_zero hempty]
    next => simp [content, flush]
  · simp [content]

theorem sink_prefix_write (size : Nat) (w : Buffered α) (p : List α) :
    w.sink <+: (write size w p).1.sink := by
  rw [write]
  split
  · split
    · exact List.prefix_append _ _
    · exact List.prefix_append _ _
  · exact List.prefix_rfl

end Buffered

end Sptag.Lib
