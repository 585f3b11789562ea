import Mathlib

/-! Buffers read and written at an offset, records of one size laid side by side, and
streams read from the front. -/

namespace Sptag.Lib

variable {α β : Type*}

def HoldsAt (l : List α) (off : Nat) (x : List α) : Prop :=
  ∃ front back, l = front ++ x ++ back ∧ front.length = off

/-- `n` elements from `off` on; there is no answer past the end. -/
def readAt (l : List α) (n off : Nat) : Option (List α) :=
  if off + n ≤ l.length then some ((l.drop off).take n) else none

def storeAt (l : List α) (off : Nat) (x : List α) : List α :=
  l.take off ++ x ++ l.drop (off + x.length)

variable {l x y t : List α} {off off' n : Nat}

theorem HoldsAt.append_right (h : HoldsAt l off x) (t : List α) : HoldsAt (l ++ t) off x := by
  obtain ⟨front, back, rfl, rfl⟩ := h
  exact ⟨front, back ++ t, by simp, rfl⟩

theorem HoldsAt.append_left (h : HoldsAt t off x) (l : List α) :
    HoldsAt (l ++ t) (l.length + off) x := by
  obtain ⟨front, back, rfl, rfl⟩ := h
  exact ⟨l ++ front, back, by simp, by simp⟩

theorem holdsAt_append (l x : List α) : HoldsAt (l ++ x) l.length x := ⟨l, [], by simp, rfl⟩

theorem HoldsAt.trans (h : HoldsAt l off x) (hx : HoldsAt x off' y) :
    HoldsAt l (off + off') y := by
  obtain ⟨front, back, rfl, rfl⟩ := h
  exact (hx.append_left front).append_right back

theorem holdsAt_append_iff :
    HoldsAt l off (x ++ y) ↔ HoldsAt l off x ∧ HoldsAt l (off + x.length) y := by
  constructor
  · rintro ⟨front, back, rfl, rfl⟩
    exact ⟨⟨front, y ++ back, by simp, rfl⟩, ⟨front ++ x, back, by simp, by simp⟩⟩
  · rintro ⟨⟨front, back, rfl, rfl⟩, ⟨front', back', heq, hlen⟩⟩
    refine ⟨front, back', ?_, rfl⟩
    have hfront : front' = front ++ x := by
      have hlen' : front'.length = (front ++ x).length := by rw [hlen, List.length_append]
      have htake := congrArg (List.take (front ++ x).length) heq
      rwa [List.take_left, List.append_assoc front', List.take_left' hlen', eq_comm] at htake
    rw [heq, hfront, List.append_assoc front]

theorem HoldsAt.le_length (h : HoldsAt l off x) : off + x.length ≤ l.length := by
  obtain ⟨front, back, rfl, rfl⟩ := h
  simp only [List.length_append]
  exact Nat.le_add_right _ _

theorem HoldsAt.drop (h : HoldsAt l off x) (hn : n ≤ off) : HoldsAt (l.drop n) (off - n) x := by
  obtain ⟨front, back, rfl, rfl⟩ := h
  refine ⟨front.drop n, back, ?_, by simp⟩
  rw [List.append_assoc, List.drop_append_of_le_length hn, List.append_assoc]

theorem HoldsAt.take (h : HoldsAt l off x) (hn : off + x.length ≤ n) :
    HoldsAt (l.take n) off x := by
  obtain ⟨front, back, rfl, rfl⟩ := h
  refine ⟨front, back.take (n - (front ++ x).length), ?_, rfl⟩
  rw [List.take_append, List.take_of_length_le (by simpa using hn)]

theorem readAt_eq_some_iff (hx : x.length = n) : readAt l n off = some x ↔ HoldsAt l off x := by
  rw [readAt]
  split
  · rename_i hle
    rw [Option.some.injEq]
    constructor
    · intro h
      refine ⟨l.take off, l.drop (off + n), ?_, ?_⟩
      · rw [← h, List.append_assoc, ← List.drop_drop, List.take_append_drop, List.take_append_drop]
      · exact List.length_take_of_le (Nat.le_of_add_right_le hle)
    · rintro ⟨front, back, rfl, rfl⟩
      rw [List.append_assoc, List.drop_left, List.take_left' hx]
  · rename_i hlt
    constructor
    · intro h
      cases h
    · intro h
      exact absurd (hx ▸ h.le_length) hlt

theorem HoldsAt.readAt_eq (h : HoldsAt l off x) : readAt l x.length off = some x :=
  (readAt_eq_some_iff rfl).mpr h

theorem length_of_readAt (h : readAt l n off = some x) : x.length = n := by
  rw [readAt] at h
  split at h
  · rw [← Option.some.inj h, List.length_take, List.length_drop]
    omega
  · cases h

theorem holdsAt_storeAt (h : off + x.length ≤ l.length) : HoldsAt (storeAt l off x) off x :=
  ⟨l.take off, l.drop (off + x.length), rfl,
    List.length_take_of_le (Nat.le_of_add_right_le h)⟩

theorem HoldsAt.storeAt (h : HoldsAt l off x) {new : List α} (hle : off' + new.length ≤ off) :
    HoldsAt (storeAt l off' new) off x := by
  have hlen := h.le_length
  have hback := (h.drop hle).append_left (l.take off' ++ new)
  have hfront : (l.take off' ++ new).length = off' + new.length := by
    rw [List.length_append, List.length_take_of_le (by omega)]
  rwa [hfront, Nat.add_sub_cancel' hle] at hback

theorem eq_some_of_isPrefix (h : x <+: l) {i : Nat} {a : α} (hx : x[i]? = some a) :
    l[i]? = some a := by
  obtain ⟨back, rfl⟩ := h
  rw [List.getElem?_append_left (List.getElem?_eq_some_iff.mp hx).1, hx]

theorem mapM_eq_some {f : α → Option β} {g : α → β} {as : List α} (h : ∀ a ∈ as, f a = some (g a)) :
    as.mapM f = some (as.map g) := by
  induction as with
  | nil => rfl
  | cons a as ih =>
    rw [List.mapM_cons, h a List.mem_cons_self, ih fun a' ha' => h a' (List.mem_cons_of_mem _ ha')]
    rfl

theorem mapM_eq_none {f : α → Option β} {as : List α} {a : α} (ha : a ∈ as) (h : f a = none) :
    as.mapM f = none := by
  induction as with
  | nil => cases ha
  | cons a' as ih =>
    rw [List.mapM_cons]
    cases ha with
    | head => rw [h]; rfl
    | tail _ ha =>
      rw [ih ha]
      cases f a' with
      | none => rfl
      | some b => rfl

theorem length_flatMap_of_size {f : β → List α} {xs : List β} (hf : ∀ b ∈ xs, (f b).length = n) :
    (xs.flatMap f).length = xs.length * n := by
  rw [List.length_flatMap, List.map_congr_left hf, List.map_const', List.sum_replicate, smul_eq_mul]

theorem holdsAt_flatMap {f : β → List α} {xs : List β} (hf : ∀ b ∈ xs, (f b).length = n) {i : Nat}
    {b : β} (h : xs[i]? = some b) : HoldsAt (xs.flatMap f) (i * n) (f b) := by
  induction xs generalizing i with
  | nil => cases h
  | cons c xs ih =>
    rw [List.flatMap_cons]
    cases i with
    | zero =>
      cases h
      rw [Nat.zero_mul]
      exact ⟨[], _, rfl, rfl⟩
    | succ i =>
      rw [List.getElem?_cons_succ] at h
      have hrec := (ih (fun b hb => hf b (List.mem_cons_of_mem c hb)) h).append_left (f c)
      rwa [hf c List.mem_cons_self, Nat.add_comm, ← Nat.succ_mul] at hrec

theorem map_slices {f : β → List α} {xs : List β} (hf : ∀ b ∈ xs, (f b).length = n) {k : Nat}
    (hk : k ≤ xs.length) :
    ((List.range k).map fun i => ((xs.flatMap f).drop (i * n)).take n) = (xs.take k).map f := by
  apply List.ext_getElem?
  intro i
  rw [List.getElem?_map, List.getElem?_map]
  cases Nat.lt_or_ge i k with
  | inl hi =>
    have hget : xs[i]? = some (xs.get ⟨i, hi.trans_le hk⟩) := List.getElem?_eq_getElem _
    have hread := (holdsAt_flatMap hf hget).readAt_eq
    rw [hf _ (List.get_mem xs _), readAt] at hread
    split at hread
    · rw [List.getElem?_range hi, List.getElem?_take_of_lt hi, hget, Option.map_some, hread,
        Option.map_some]
    · cases hread
  | inr hi =>
    rw [List.getElem?_eq_none (by simpa using hi), List.getElem?_eq_none (by simp; omega)]
    rfl

section Chunks

variable (start size : Nat → Nat) (gap : Nat)

def Chained : Nat → List Nat → Prop
  | _, [] => True
  | off, i :: is => off ≤ start i ∧ start i - off ≤ gap ∧ Chained (start i + size i) is

def chainEnd : Nat → List Nat → Nat
  | off, [] => off
  | _, i :: is => chainEnd (start i + size i) is

variable {start size gap} {i off : Nat} {is : List Nat}

@[simp] theorem chainEnd_concat : chainEnd start size off (is ++ [i]) = start i + size i := by
  induction is generalizing off with
  | nil => rfl
  | cons j is ih => exact ih

theorem chained_concat : Chained start size gap off (is ++ [i]) ↔
    Chained start size gap off is ∧
      chainEnd start size off is ≤ start i ∧ start i - chainEnd start size off is ≤ gap := by
  induction is generalizing off with
  | nil => simp [Chained, chainEnd]
  | cons j is ih => simp only [List.cons_append, Chained, chainEnd, ih, and_assoc]

theorem Chained.le_chainEnd (h : Chained start size gap off is) :
    off ≤ chainEnd start size off is ∧ ∀ i ∈ is, start i + size i ≤ chainEnd start size off is := by
  induction is generalizing off with
  | nil => exact ⟨Nat.le_refl _, fun i hi => absurd hi List.not_mem_nil⟩
  | cons j is ih =>
    obtain ⟨hle, -, hrest⟩ := h
    obtain ⟨hend, hmem⟩ := ih hrest
    refine ⟨hle.trans (Nat.le_add_right _ _ |>.trans hend), fun i hi => ?_⟩
    cases hi with
    | head => exact hend
    | tail _ hi => exact hmem i hi

theorem Chained.le_start (h : Chained start size gap off is) : ∀ i ∈ is, off ≤ start i := by
  induction is generalizing off with
  | nil => exact fun i hi => absurd hi List.not_mem_nil
  | cons j is ih =>
    intro i hi
    cases hi with
    | head => exact h.1
    | tail _ hi => exact (h.1.trans (Nat.le_add_right _ _)).trans (ih h.2.2 i hi)

theorem Chained.pairwise (h : Chained start size gap off is) :
    is.Pairwise fun i j => start i + size i ≤ start j := by
  induction is generalizing off with
  | nil => exact List.Pairwise.nil
  | cons i is ih =>
    refine List.pairwise_cons.mpr ⟨fun j hj => ?_, ih h.2.2⟩
    exact h.2.2.le_start j hj

theorem Chained.isChain (h : Chained start size gap off is) :
    is.IsChain fun i j => start j ≤ start i + size i + gap := by
  induction is generalizing off with
  | nil => exact List.isChain_nil
  | cons i is ih =>
    cases is with
    | nil => exact List.isChain_singleton i
    | cons j is =>
      refine List.isChain_cons_cons.mpr ⟨?_, ih h.2.2⟩
      exact Nat.sub_le_iff_le_add'.mp h.2.2.2.1

theorem chained_congr {start' : Nat → Nat} (h : ∀ i ∈ is, start' i = start i) :
    (Chained start' size gap off is ↔ Chained start size gap off is) ∧
      chainEnd start' size off is = chainEnd start size off is := by
  induction is generalizing off with
  | nil => exact ⟨Iff.rfl, rfl⟩
  | cons j is ih =>
    have hj := h j List.mem_cons_self
    obtain ⟨hchain, hend⟩ := @ih (start j + size j) fun i hi => h i (List.mem_cons_of_mem j hi)
    simp only [Chained, chainEnd, hj, hchain, hend, and_self]

end Chunks

abbrev Reader (α : Type) := StateT (List α) Option

section Reader

variable {α β γ : Type}

def readFront (n : Nat) : Reader α (List α) := fun s =>
  if n ≤ s.length then some (s.take n, s.drop n) else none

@[simp] theorem readFront_append {x : List α} (s : List α) :
    readFront x.length (x ++ s) = some (x, s) := by
  rw [readFront, if_pos (by simp), List.take_left, List.drop_left]

theorem readFront_eq {x : List α} {n : Nat} (hx : x.length = n) (s : List α) :
    readFront n (x ++ s) = some (x, s) := by
  rw [← hx]
  exact readFront_append s

theorem reader_pure (b : β) (s : List α) : (pure b : Reader α β) s = some (b, s) := rfl

theorem reader_bind_eq {m : Reader α β} {f : β → Reader α γ} {s s' : List α} {b : β}
    (h : m s = some (b, s')) : (m >>= f) s = f b s' := by
  change (m s >>= fun p => f p.1 p.2) = _
  rw [h]
  rfl

theorem reader_map_eq {m : Reader α β} {f : β → γ} {s s' : List α} {b : β}
    (h : m s = some (b, s')) : (f <$> m) s = some (f b, s') := by
  change (m s >>= fun p => some (f p.1, p.2)) = _
  rw [h]
  rfl

end Reader

end Sptag.Lib
