import Sptag.Common
import Sptag.Lib.Blocks
import Sptag.Lib.Run

/-! `inc/Helper/LockFree.h`: a list that is only appended to, in blocks of a power of two. -/

namespace Sptag.Helper

open Lib

structure LockFreeVector (T : Type) where
  size : Nat
  maxSize : Nat
  blockSizeEx : Nat
  blocks : List (Nat → T)
  capacity : Nat

namespace LockFreeVector

variable {T : Type}

/-- `granted` is the capacity that the vector of blocks takes when it is asked for one. For an
exponent from 31 on `1 << m_blockSizeEx` leaves the range of an `int`. -/
def reserve (granted : Nat → Nat) (blocksize maxsize : Nat) : Option (LockFreeVector T) :=
  let ex := Blocks.ceilLog2 blocksize
  if 31 ≤ ex then none
  else some
    { size := 0
      maxSize := maxsize
      blockSizeEx := ex
      blocks := []
      capacity := granted (toSize (maxsize + Blocks.mask ex) >>> ex) }

def keep (grow : Nat → Nat) (v : LockFreeVector T) (blocks : List (Nat → T)) : LockFreeVector T :=
  { v with
    blocks := blocks
    capacity := if blocks.length ≤ v.capacity then v.capacity else grow blocks.length }

def append (fresh : Nat → T) (grow : Nat → Nat) (data : List T) (length : Nat)
    (v : LockFreeVector T) : Option (Bool × LockFreeVector T) :=
  (Blocks.fill (fun _ => true) fresh v.blockSizeEx v.size length (some data) (length + 1) 0
    v.blocks).map fun (ok, blocks) =>
      if ok then (true, { v.keep grow blocks with size := toSize (v.size + length) })
      else (false, v.keep grow blocks)

def assign (fresh : Nat → T) (grow : Nat → Nat) (data : List T) (v : LockFreeVector T) :
    Option (Bool × LockFreeVector T) :=
  if toSize (v.maxSize - data.length) < v.size then some (false, v)
  else v.append fresh grow data data.length

def pushBack (fresh : Nat → T) (grow : Nat → Nat) (data : T) (v : LockFreeVector T) :
    Option (Bool × LockFreeVector T) :=
  if toSize (v.maxSize - 1) < v.size then some (false, v)
  else
    (Blocks.writeAt (Blocks.grow fresh v.blockSizeEx v.size v.blocks) (v.size >>> v.blockSizeEx)
      (v.size &&& Blocks.mask v.blockSizeEx) [data]).map fun blocks =>
        (true, { v.keep grow blocks with size := toSize (v.size + 1) })

def clear (v : LockFreeVector T) : LockFreeVector T := { v with size := 0 }

def copy (v : LockFreeVector T) (offset length : Nat) : Option (List T) :=
  Blocks.readRange v.blockSizeEx offset length v.blocks (length + 1) 0

def saveBlocks (v : LockFreeVector T) : Nat → Nat → Option (List T)
  | 0, _ => some []
  | n + 1, i => do
    let block ← Blocks.readAt v.blocks i 0 (Blocks.mask v.blockSizeEx + 1)
    let rest ← v.saveBlocks n (i + 1)
    return block ++ rest

def save (v : LockFreeVector T) : Option (List T) := do
  let blockNum := v.size >>> v.blockSizeEx
  let full ← v.saveBlocks blockNum 0
  let remainNum := v.size &&& Blocks.mask v.blockSizeEx
  if 0 < remainNum then
    let rest ← Blocks.readAt v.blocks blockNum 0 remainNum
    return full ++ rest
  else return full

def limit (v : LockFreeVector T) : Nat :=
  toSize ((Blocks.mask v.blockSizeEx + 1) * v.capacity : Nat)

def load (fresh : Nat → T) (grow : Nat → Nat) (stream : List T) (length : Nat)
    (v : LockFreeVector T) : Option (Bool × LockFreeVector T) :=
  if v.limit < toSize (v.size + length) then some (false, v)
  else v.append fresh grow stream length

structure Shows (maxSize : Nat) (v : LockFreeVector T) (xs : List T) : Prop where
  maxSize_eq : v.maxSize = maxSize
  size : v.size = xs.length
  le_maxSize : xs.length ≤ v.maxSize
  maxSize_lt : v.maxSize < 2 ^ 64
  holds : Blocks.Holds v.blockSizeEx v.blocks xs

variable {v : LockFreeVector T} {xs data stream : List T} {fresh : Nat → T} {grow : Nat → Nat}
  {length m : Nat}

theorem Shows.copy (h : Shows m v xs) {offset : Nat} (hin : offset + length ≤ xs.length) :
    v.copy offset length = some ((xs.drop offset).take length) :=
  h.holds.readRange hin (Nat.zero_le length) (Nat.lt_succ_self length)

theorem Shows.save (h : Shows m v xs) : v.save = some xs := by
  have hmask : Blocks.mask v.blockSizeEx + 1 = 2 ^ v.blockSizeEx :=
    Nat.sub_add_cancel (Nat.two_pow_pos _)
  have hloop : ∀ n i, (i + n) * 2 ^ v.blockSizeEx ≤ xs.length →
      v.saveBlocks n i = some ((xs.drop (i * 2 ^ v.blockSizeEx)).take (n * 2 ^ v.blockSizeEx)) := by
    intro n
    induction n with
    | zero => exact fun i _ => by simp [saveBlocks]
    | succ n ih =>
      intro i hi
      have hnext : (i + 1 + n) * 2 ^ v.blockSizeEx ≤ xs.length := by
        rwa [Nat.add_right_comm, Nat.add_assoc]
      have hblock : i * 2 ^ v.blockSizeEx + 2 ^ v.blockSizeEx ≤ xs.length := by
        rw [← Nat.succ_mul]
        exact (Nat.mul_le_mul_right _ (by omega)).trans hi
      rw [saveBlocks, hmask, h.holds.readBlock (Nat.two_pow_pos _) le_rfl hblock, ih _ hnext]
      simp only [Option.bind_eq_bind, Option.bind_some]
      refine congrArg some ?_
      rw [Nat.succ_mul i, ← List.drop_drop, ← List.take_add, Nat.succ_mul, Nat.add_comm]
  have hdiv := Nat.div_add_mod v.size (2 ^ v.blockSizeEx)
  have hfull : v.size / 2 ^ v.blockSizeEx * 2 ^ v.blockSizeEx +
      v.size % 2 ^ v.blockSizeEx = xs.length := by
    rw [Nat.mul_comm, hdiv, h.size]
  rw [LockFreeVector.save, Nat.shiftRight_eq_div_pow, Blocks.mask, Nat.and_two_pow_sub_one_eq_mod,
    hloop _ 0 (by rw [Nat.zero_add]; omega), Nat.zero_mul, List.drop_zero]
  simp only [Option.bind_eq_bind, Option.bind_some]
  by_cases hrest : 0 < v.size % 2 ^ v.blockSizeEx
  · rw [if_pos hrest, h.holds.readBlock hrest (Nat.mod_lt _ (Nat.two_pow_pos _)).le hfull.le,
      Option.bind_some]
    refine congrArg some ?_
    rw [← List.take_add, hfull, List.take_length]
  · rw [if_neg hrest]
    refine congrArg some (List.take_of_length_le ?_)
    omega

theorem append_spec (fresh : Nat → T) (grow : Nat → Nat) (h : Shows m v xs) (data : List T)
    (length : Nat) :
    ∃ v', v.append fresh grow data length = some (decide (length ≤ data.length), v') ∧
      (length ≤ data.length → xs.length + length ≤ v.maxSize →
        Shows m v' (xs ++ data.take length)) ∧
      (¬ length ≤ data.length → Shows m v' xs) := by
  have hroom : v.size ≤ Blocks.room v.blockSizeEx v.blocks := h.size ▸ h.holds.room
  obtain ⟨ok, blocks, hblocks, hfills⟩ :=
    Blocks.fill_all (fun _ => true) fresh length (some data) hroom
  have hok : ok = decide (length ≤ data.length) := by
    refine Bool.eq_iff_iff.mpr ⟨fun hok => ?_, fun hlong => ?_⟩
    · subst hok
      exact decide_eq_true hfills.enough_data
    · refine (hfills.ok_iff fun data' hdata => ?_).mpr fun _ _ _ => .inr rfl
      obtain rfl := Option.some.inj hdata
      exact of_decide_eq_true hlong
  rw [append, hblocks, Option.map_some, ← hok]
  rw [h.size] at hfills
  cases ok with
  | true =>
    refine ⟨_, rfl, fun hlong hfits => ?_, fun hshort => absurd (of_decide_eq_true hok.symm) hshort⟩
    have hsize : toSize (v.size + length : Nat) = xs.length + length := by
      rw [h.size, toSize_of_lt (hfits.trans_lt h.maxSize_lt)]
    have hlen : (xs ++ data.take length).length = xs.length + length := by
      rw [List.length_append, List.length_take, min_eq_left hlong]
    exact ⟨h.maxSize_eq, hsize.trans hlen.symm, hlen.trans_le hfits, h.maxSize_lt,
      h.holds.append hlong hfills⟩
  | false =>
    refine ⟨_, rfl, fun hlong => absurd hlong (of_decide_eq_false hok.symm), fun _ => ?_⟩
    exact ⟨h.maxSize_eq, h.size, h.le_maxSize, h.maxSize_lt, h.holds.mono hfills.before⟩

theorem Shows.rejects_iff (h : Shows m v xs) {n : Nat} (hn : n < 2 ^ 64) :
    toSize (v.maxSize - n) < v.size ↔ n ≤ v.maxSize ∧ v.maxSize < xs.length + n := by
  have hsize := h.size
  have hle := h.le_maxSize
  have hlt := h.maxSize_lt
  unfold toSize
  omega

theorem pushBack_eq (fresh : Nat → T) (grow : Nat → Nat) (data : T) (v : LockFreeVector T) :
    v.pushBack fresh grow data = v.assign fresh grow [data] := by
  unfold pushBack assign append
  rw [List.length_singleton, Nat.cast_one, Blocks.fill_singleton fun _ => rfl, Option.map_map]
  rfl

inductive Op (T : Type) where
  | assign (data : List T)
  | pushBack (data : T)
  | clear
  | load (stream : List T) (length : Nat)

def Op.Sized : Op T → Prop
  | .assign data => data.length < 2 ^ 64
  | .load _ length => length < 2 ^ 64
  | _ => True

def step (fresh : Nat → T) (grow : Nat → Nat) (v : LockFreeVector T) :
    Op T → Option (Bool × LockFreeVector T)
  | .assign data => v.assign fresh grow data
  | .pushBack data => v.pushBack fresh grow data
  | .clear => some (true, v.clear)
  | .load stream length => v.load fresh grow stream length

def extend (maxSize : Nat) (xs more : List T) : Bool × List T :=
  if xs.length + more.length ≤ maxSize then (true, xs ++ more) else (false, xs)

def meaning (maxSize : Nat) (xs : List T) : Op T → Bool × List T
  | .assign data => extend maxSize xs data
  | .pushBack data => extend maxSize xs [data]
  | .clear => (true, [])
  | .load stream length =>
    if length ≤ stream.length then extend maxSize xs (stream.take length) else (false, xs)

/-- Where a call does what it means: what is assigned is no longer than the maximum, and a load of
what there is fits the maximum exactly where it fits the blocks. -/
def Meets (v : LockFreeVector T) : Op T → Prop
  | .assign data => data.length ≤ v.maxSize
  | .pushBack _ => 0 < v.maxSize
  | .clear => True
  | .load stream length => length ≤ stream.length →
    (toSize (v.size + length) ≤ v.limit ↔ v.size + length ≤ v.maxSize)

theorem Shows.assign (fresh : Nat → T) (grow : Nat → Nat) (h : Shows m v xs)
    (hdata : data.length < 2 ^ 64) :
    ∃ result v', v.assign fresh grow data = some (result, v') ∧
      (result = (extend m xs data).1 ↔ data.length ≤ v.maxSize) ∧
      (result = (extend m xs data).1 → Shows m v' (extend m xs data).2) := by
  obtain rfl := h.maxSize_eq
  have hiff := h.rejects_iff hdata
  by_cases hreject : toSize (v.maxSize - data.length) < v.size
  · obtain ⟨hle, hfull⟩ := hiff.mp hreject
    rw [extend, if_neg hfull.not_ge]
    exact ⟨false, v, if_pos hreject, iff_of_true rfl hle, fun _ => h⟩
  · obtain ⟨v', hv', hshows, -⟩ := append_spec fresh grow h data data.length
    rw [decide_eq_true le_rfl] at hv'
    refine ⟨true, v', (if_neg hreject).trans hv', ?_⟩
    by_cases hfits : xs.length + data.length ≤ v.maxSize
    · rw [extend, if_pos hfits]
      refine ⟨iff_of_true rfl ((Nat.le_add_left _ _).trans hfits), fun _ => ?_⟩
      simpa using hshows le_rfl hfits
    · rw [extend, if_neg hfits]
      exact ⟨iff_of_false nofun fun hle => hreject (hiff.mpr ⟨hle, not_le.mp hfits⟩), nofun⟩

theorem Shows.pushBack (fresh : Nat → T) (grow : Nat → Nat) (h : Shows m v xs)
    (hpos : 0 < v.maxSize)
    (data : T) : ∃ v', v.pushBack fresh grow data = some ((extend m xs [data]).1, v') ∧
      Shows m v' (extend m xs [data]).2 := by
  have hone : [data].length < 2 ^ 64 := List.length_singleton.trans_lt (by decide)
  obtain ⟨result, v', hv', hresult, hafter⟩ := h.assign fresh grow hone
  obtain rfl := hresult.mpr hpos
  exact ⟨v', (pushBack_eq fresh grow data v).trans hv', hafter rfl⟩

theorem Shows.load (fresh : Nat → T) (grow : Nat → Nat) (h : Shows m v xs) (stream : List T)
    (length : Nat) :
    ∃ result v', v.load fresh grow stream length = some (result, v') ∧
      (result = (meaning m xs (.load stream length)).1 ↔ Meets v (.load stream length)) ∧
      (result = (meaning m xs (.load stream length)).1 →
        Shows m v' (meaning m xs (.load stream length)).2) := by
  obtain rfl := h.maxSize_eq
  have hsize := h.size
  by_cases hstream : length ≤ stream.length
  · have hmeaning : meaning v.maxSize xs (.load stream length) =
        extend v.maxSize xs (stream.take length) := if_pos hstream
    have hlen : (stream.take length).length = length := List.length_take_of_le hstream
    rw [hmeaning, extend, hlen, Meets, iff_true_intro hstream, forall_true_left, hsize]
    by_cases hreject : v.limit < toSize (v.size + length)
    · refine ⟨false, v, if_pos hreject, ?_⟩
      rw [hsize] at hreject
      by_cases hfits : xs.length + length ≤ v.maxSize
      · rw [if_pos hfits]
        exact ⟨iff_of_false nofun fun hiff => hreject.not_ge (hiff.mpr hfits), nofun⟩
      · rw [if_neg hfits]
        exact ⟨iff_of_true rfl (iff_of_false hreject.not_ge hfits), fun _ => h⟩
    · obtain ⟨v', hv', hshows, -⟩ := append_spec fresh grow h stream length
      rw [decide_eq_true hstream] at hv'
      refine ⟨true, v', (if_neg hreject).trans hv', ?_⟩
      rw [hsize] at hreject
      by_cases hfits : xs.length + length ≤ v.maxSize
      · rw [if_pos hfits]
        exact ⟨iff_of_true rfl (iff_of_true (not_lt.mp hreject) hfits), fun _ =>
          hshows hstream hfits⟩
      · rw [if_neg hfits]
        exact ⟨iff_of_false nofun fun hiff => hfits (hiff.mp (not_lt.mp hreject)), nofun⟩
  · have hmeaning : meaning v.maxSize xs (.load stream length) = (false, xs) := if_neg hstream
    have hmeets : Meets v (.load stream length) := fun hlong => absurd hlong hstream
    rw [hmeaning]
    by_cases hreject : v.limit < toSize (v.size + length)
    · exact ⟨false, v, if_pos hreject, iff_of_true rfl hmeets, fun _ => h⟩
    · obtain ⟨v', hv', -, hshows⟩ := append_spec fresh grow h stream length
      rw [decide_eq_false hstream] at hv'
      exact ⟨false, v', (if_neg hreject).trans hv', iff_of_true rfl hmeets, fun _ => hshows hstream⟩

theorem Shows.step (fresh : Nat → T) (grow : Nat → Nat) (h : Shows m v xs) {op : Op T}
    (hop : op.Sized) :
    ∃ result v', v.step fresh grow op = some (result, v') ∧
      (result = (meaning m xs op).1 ↔ Meets v op) ∧
      (result = (meaning m xs op).1 → Shows m v' (meaning m xs op).2) := by
  cases op with
  | assign data => exact h.assign fresh grow hop
  | pushBack data =>
    have hone : [data].length < 2 ^ 64 := List.length_singleton.trans_lt (by decide)
    have hassign := h.assign fresh grow hone
    rwa [← pushBack_eq] at hassign
  | clear =>
    refine ⟨true, v.clear, rfl, iff_of_true rfl trivial, fun _ => ?_⟩
    exact ⟨h.maxSize_eq, rfl, Nat.zero_le _, h.maxSize_lt, fun i hi =>
      absurd hi (Nat.not_lt_zero i)⟩
  | load stream length => exact h.load fresh grow stream length

def next (fresh : Nat → T) (grow : Nat → Nat) (v : LockFreeVector T) (op : Op T) :
    LockFreeVector T :=
  ((v.step fresh grow op).map Prod.snd).getD v

structure Correct (m : Nat) (v : LockFreeVector T) (xs : List T) : Prop where
  size : v.size = xs.length
  size_le : v.size ≤ m
  copy : ∀ offset length, offset + length ≤ v.size →
    v.copy offset length = some ((xs.drop offset).take length)
  save : v.save = some xs

theorem Shows.correct (h : Shows m v xs) : Correct m v xs where
  size := h.size
  size_le := h.size.trans_le (h.le_maxSize.trans_eq h.maxSize_eq)
  copy _ _ hin := h.copy (h.size ▸ hin)
  save := h.save

/-- Every call returns what it means for the list, and after every call the list is what can be
seen. -/
def Agrees (fresh : Nat → T) (grow : Nat → Nat) (m : Nat) :
    LockFreeVector T → List T → List (Op T) → Prop
  | v, xs, [] => Correct m v xs
  | v, xs, op :: ops => Correct m v xs ∧ ∃ v',
    v.step fresh grow op = some ((meaning m xs op).1, v') ∧
      Agrees fresh grow m v' (meaning m xs op).2 ops

theorem Shows.agrees_iff (h : Shows m v xs) {ops : List (Op T)} (hops : ∀ op ∈ ops, op.Sized) :
    Agrees fresh grow m v xs ops ↔ Along (next fresh grow) Meets v ops := by
  induction ops generalizing v xs with
  | nil => exact iff_of_true h.correct trivial
  | cons op ops ih =>
    obtain ⟨result, v', hv', hiff, hshows⟩ := h.step fresh grow (hops op List.mem_cons_self)
    have hnext : v.next fresh grow op = v' := by
      rw [next, hv']
      rfl
    have htail := fun op hop => hops op (List.mem_cons_of_mem _ hop)
    rw [Along, hnext, ← hiff]
    constructor
    · rintro ⟨-, v'', hv'', hrest⟩
      obtain ⟨rfl, rfl⟩ := Prod.mk.inj (Option.some.inj (hv'.symm.trans hv''))
      exact ⟨rfl, (ih (hshows rfl) htail).mp hrest⟩
    · rintro ⟨rfl, hrest⟩
      exact ⟨h.correct, v', hv', (ih (hshows rfl) htail).mpr hrest⟩

theorem reserve_shows {granted : Nat → Nat} {blocksize maxsize : Nat} (hmax : maxsize < 2 ^ 64)
    (hv : reserve granted blocksize maxsize = some v) : Shows maxsize v [] := by
  unfold reserve at hv
  dsimp only at hv
  split at hv
  · exact nomatch hv
  · obtain rfl := Option.some.inj hv
    exact ⟨rfl, rfl, Nat.zero_le _, hmax, fun i hi => absurd hi (Nat.not_lt_zero i)⟩

/-- From `reserve` on the vector is the bounded list its calls mean, in every state of a run,
exactly where each call meets the condition and the block size is one that `reserve` can take. -/
theorem reserve_agrees_iff (fresh : Nat → T) (grow granted : Nat → Nat) (blocksize : Nat)
    {maxsize : Nat} (hmax : maxsize < 2 ^ 64) {ops : List (Op T)} (hops : ∀ op ∈ ops, op.Sized) :
    (∃ v, reserve granted blocksize maxsize = some v ∧ Agrees fresh grow maxsize v [] ops) ↔
      ∃ v, reserve granted blocksize maxsize = some v ∧ Along (next fresh grow) Meets v ops :=
  exists_congr fun _ => and_congr_right fun hv => (reserve_shows hmax hv).agrees_iff hops

theorem reserve_agrees_iff_small :
    (∃ v, reserve id 2 5 = some v ∧
        Agrees (fun _ => 0) id 5 v [] [.assign [1, 2, 3], .pushBack 4, .clear, .load [8, 9] 2]) ↔
      ∃ v, reserve id 2 5 = some v ∧ Along (next (fun _ => 0) id) Meets v
        [.assign [1, 2, 3], .pushBack 4, .clear, .load [8, 9] 2] :=
  reserve_agrees_iff (fun _ => 0) id id 2 (by decide) (by
    intro op hop
    fin_cases hop
    · show 3 < 2 ^ 64
      decide
    · trivial
    · trivial
    · show 2 < 2 ^ 64
      decide)

theorem not_reserve_agrees : ¬ ∃ v, reserve id 2 3 = some v ∧
    Agrees (fun _ => 0) id 3 v [] [.assign [1, 2, 3, 4]] := by
  rintro ⟨v, hv, -, v', hv', -⟩
  cases hv
  cases hv'

end LockFreeVector

end Sptag.Helper
