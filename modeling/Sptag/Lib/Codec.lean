import Sptag.Lib.Buffer
import Sptag.Lib.Bytes

/-! Readers that take back what a writer put: a writer gives the bytes of a value, and a
reader takes these from the front of a stream, whatever follows. -/

namespace Sptag.Lib

variable {α β γ δ : Type}

def Reads (m : Reader α β) (x : List α) (b : β) : Prop := ∀ s, m (x ++ s) = some (b, s)

theorem reads_pure (b : β) : Reads (pure b : Reader α β) [] b := fun _ => rfl

theorem reads_readFront {x : List α} {n : Nat} (hx : x.length = n) : Reads (readFront n) x x :=
  readFront_eq hx

theorem Reads.bind {m : Reader α β} {f : β → Reader α γ} {x y : List α} {b : β} {c : γ}
    (hm : Reads m x b) (hf : Reads (f b) y c) : Reads (m >>= f) (x ++ y) c := by
  intro s
  rw [List.append_assoc, reader_bind_eq (hm (y ++ s))]
  exact hf s

theorem Reads.bind_pure {m : Reader α β} {f : β → Reader α γ} {x : List α} {b : β} {c : γ}
    (hm : Reads m x b) (hf : f b = pure c) : Reads (m >>= f) x c := by
  intro s
  rw [reader_bind_eq (hm s), hf]
  rfl

theorem Reads.map {m : Reader α β} {x : List α} {b : β} (hm : Reads m x b) (f : β → γ) :
    Reads (f <$> m) x (f b) := fun s => reader_map_eq (hm s)

theorem reads_mapM {f : γ → Reader α β} {write : δ → List α} {g : δ → β} {xs : List γ}
    {ys : List δ} (hlen : xs.length = ys.length)
    (h : ∀ x ∈ xs, ∀ y ∈ ys, Reads (f x) (write y) (g y)) :
    Reads (xs.mapM f) (ys.flatMap write) (ys.map g) := by
  induction ys generalizing xs with
  | nil =>
    rw [List.eq_nil_of_length_eq_zero hlen]
    exact reads_pure []
  | cons y ys ih =>
    cases xs with
    | nil => cases hlen
    | cons x xs =>
      rw [List.mapM_cons, List.flatMap_cons]
      have hrest := ih (Nat.succ.inj hlen) fun x hx y hy =>
        h x (List.mem_cons_of_mem _ hx) y (List.mem_cons_of_mem _ hy)
      exact (h x List.mem_cons_self y List.mem_cons_self).bind (hrest.bind_pure rfl)

theorem reads_foldlM {f : γ → Nat → Reader α γ} {write : Nat → List α} {state : Nat → γ} {n : Nat}
    (h : ∀ i < n, Reads (f (state i) i) (write i) (state (i + 1))) :
    Reads ((List.range n).foldlM f (state 0)) ((List.range n).flatMap write) (state n) := by
  induction n with
  | zero => exact reads_pure _
  | succ n ih =>
    rw [List.range_succ, List.foldlM_append, List.flatMap_append]
    refine (ih fun i hi => h i (Nat.lt_succ_of_lt hi)).bind ?_
    rw [List.flatMap_cons, List.foldlM_cons]
    exact (h n (Nat.lt_succ_self n)).bind (reads_pure _)

theorem reader_bind_some {m : Reader α β} {f : β → Reader α γ} {s : List α} {r : γ × List α}
    (h : (m >>= f) s = some r) : ∃ b s', m s = some (b, s') ∧ f b s' = some r := by
  obtain ⟨⟨b, s'⟩, hm, hf⟩ := Option.bind_eq_some_iff.mp h
  exact ⟨b, s', hm, hf⟩

theorem length_of_readFront {n : Nat} {s x s' : List α} (h : readFront n s = some (x, s')) :
    x.length = n := by
  rw [readFront] at h
  split at h
  · obtain ⟨rfl, -⟩ := Prod.mk.inj (Option.some.inj h)
    exact List.length_take_of_le ‹_›
  · cases h

/-- `x` is copied over `dest` from `start` on; there is no answer past its end. -/
def copyAt (dest : List α) (start : Nat) (x : List α) : Option (List α) :=
  if start + x.length ≤ dest.length then some (storeAt dest start x) else none

theorem copyAt_append {dest back x : List α} (h : x.length ≤ back.length) :
    copyAt (dest ++ back) dest.length x = some (dest ++ x ++ back.drop x.length) := by
  rw [copyAt, if_pos (by simpa using h), storeAt, List.take_left, ← List.drop_drop,
    List.drop_left]

/-- A type whose values are `size` bytes in memory, given by the number they spell. -/
class Fundamental (T : Type) where
  size : Nat
  bits : T → Nat
  ofBits : Nat → T
  bits_lt : ∀ v, bits v < 256 ^ size
  ofBits_bits : ∀ v, ofBits (bits v) = v

instance : Fundamental UInt8 where
  size := 1
  bits := UInt8.toNat
  ofBits := UInt8.ofNat
  bits_lt := UInt8.toNat_lt
  ofBits_bits _ := UInt8.ofNat_toNat

instance : Fundamental UInt16 where
  size := 2
  bits := UInt16.toNat
  ofBits := UInt16.ofNat
  bits_lt := UInt16.toNat_lt
  ofBits_bits _ := UInt16.ofNat_toNat

instance : Fundamental UInt32 where
  size := 4
  bits := UInt32.toNat
  ofBits := UInt32.ofNat
  bits_lt := UInt32.toNat_lt
  ofBits_bits _ := UInt32.ofNat_toNat

instance : Fundamental Bool where
  size := 1
  bits := Bool.toNat
  ofBits n := decide (n ≠ 0)
  bits_lt b := (Bool.toNat_lt b).trans (by decide)
  ofBits_bits b := by cases b <;> rfl

variable {T : Type} [Fundamental T]

def writeValue (v : T) : Bytes := leBytes (Fundamental.size T) (Fundamental.bits v)

def readValue (T : Type) [Fundamental T] : Reader UInt8 T :=
  (fun bs => Fundamental.ofBits (leVal bs)) <$> readFront (Fundamental.size T)

@[simp] theorem writeValue_length (v : T) : (writeValue v).length = Fundamental.size T :=
  leBytes_length _ _

theorem reads_value (v : T) : Reads (readValue T) (writeValue v) v := by
  have h := (reads_readFront (writeValue_length v)).map
    fun bs => (Fundamental.ofBits (leVal bs) : T)
  rwa [writeValue, leVal_leBytes_of_lt (Fundamental.bits_lt v), Fundamental.ofBits_bits] at h

end Sptag.Lib
