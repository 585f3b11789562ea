import Sptag.Lib.Probing
import Sptag.Lib.Run

/-! The visited set of a search, from `inc/Core/Common/WorkSpace.h`: a hash table of two blocks
that is probed a fixed number of times and doubled when both blocks give no place. -/

namespace Sptag.COMMON

open Lib

/-- `[0, poolSize]` is the first block of `hashTable`, the rest the second one; 0 stands for an
empty cell. -/
structure OptHashPosVector where
  secondHash : Bool
  exp : Int
  poolSize : Nat
  hashTable : List Nat

namespace OptHashPosVector

def maxLoop : Nat := 8

def rotl (x n : Nat) : Nat := (x <<< n) % 2 ^ 32 ||| x >>> (32 - n)

def hashFunc2 (idx poolSize loop : Nat) : Nat := (idx + loop) % 2 ^ 32 &&& poolSize

def hashFunc (idx poolSize : Nat) : Nat :=
  ((idx * 99991) % 2 ^ 32 + rotl idx 2 + 101) % 2 ^ 32 &&& poolSize

def bits : Nat → Nat → Nat
  | 0, _ => 0
  | n + 1, size => if size = 0 then 0 else bits n (size >>> 1) + 1

structure Setting where
  size : Nat
  exp : Int
  size_lt : size < 2 ^ 31
  nonneg : 0 ≤ bits 31 size + exp
  small : bits 31 size + exp ≤ 29

def empty (poolSize : Nat) : List Nat := List.replicate ((poolSize + 1) * 2) 0

def init (p : Setting) : OptHashPosVector :=
  let poolSize := 2 ^ (bits 31 p.size + p.exp).toNat - 1
  { secondHash := false
    exp := p.exp
    poolSize := poolSize
    hashTable := empty poolSize }

def clear (s : OptHashPosVector) : OptHashPosVector :=
  if s.secondHash then { s with secondHash := false, hashTable := empty s.poolSize }
  else { s with hashTable := List.replicate (s.poolSize + 1) 0 ++
    s.hashTable.drop (s.poolSize + 1) }

def scan (table : List Nat) (base poolSize idx : Nat) : Nat → Nat → Probe
  | 0, _ => .full
  | left + 1, index =>
    if table.getD (base + index) 0 = 0 then .free (base + index)
    else if table.getD (base + index) 0 = idx then .hit
    else scan table base poolSize idx left (hashFunc2 index poolSize (maxLoop - (left + 1)))

/-- The table `_CheckAndSet` is given: the member's, or the one that `DoubleSize` fills. -/
inductive Target
  | member
  | fresh (hashTable : List Nat) (poolSize : Nat)

namespace Target

def table (s : OptHashPosVector) : Target → List Nat
  | .member => s.hashTable
  | .fresh hashTable _ => hashTable

def poolSize (s : OptHashPosVector) : Target → Nat
  | .member => s.poolSize
  | .fresh _ poolSize => poolSize

def set (s : OptHashPosVector) (i idx : Nat) : Target → Target × OptHashPosVector
  | .member => (.member, { s with hashTable := s.hashTable.set i idx })
  | .fresh hashTable poolSize => (.fresh (hashTable.set i idx) poolSize, s)

end Target

abbrev Insert := Target → OptHashPosVector → Nat → Option (Nat × Target × OptHashPosVector)

def refill (insert : Insert) : List Nat → Target → OptHashPosVector →
    Option (Target × OptHashPosVector)
  | [], target, s => some (target, s)
  | i :: is, target, s =>
    if s.hashTable.getD i 0 = 0 then refill insert is target s
    else match insert target s (s.hashTable.getD i 0) with
      | none => none
      | some (_, target, s) => refill insert is target s

def doubled (poolSize : Nat) : Nat := (poolSize + 1) * 2 - 1

/-- `DoubleSize`; the length of a larger table than this is no `int`, and `new` throws. -/
def doubleSize (insert : Insert) (s : OptHashPosVector) : Option OptHashPosVector :=
  if 2 ^ 28 < s.poolSize + 1 then none
  else
    let new_poolSize := doubled s.poolSize
    match refill insert (List.range (new_poolSize + 1)) (.fresh (empty new_poolSize) new_poolSize)
        { s with secondHash := false } with
    | none => none
    | some (target, s) =>
      some { s with exp := s.exp + 1, poolSize := new_poolSize, hashTable := target.table s }

/-- `_CheckAndSet`: 1 for a new index, 0 for one that was there; `none` when the recursion is
deeper than the fuel. After a doubling the index goes into the member's table. -/
def checkAndSetIn : Nat → Insert
  | 0, _, _, _ => none
  | fuel + 1, target, s, idx =>
    let table := target.table s
    let poolSize := target.poolSize s
    match scan table 0 poolSize idx maxLoop (hashFunc idx poolSize) with
    | .free i => some (1, target.set s i idx)
    | .hit => some (0, target, s)
    | .full =>
      let s := { s with secondHash := true }
      match scan table (poolSize + 1) poolSize idx maxLoop (hashFunc idx poolSize) with
      | .free i => some (1, target.set s i idx)
      | .hit => some (0, target, s)
      | .full =>
        match doubleSize (fun target s idx => checkAndSetIn fuel target s idx) s with
        | none => none
        | some s =>
          match checkAndSetIn fuel .member s idx with
          | none => none
          | some (ret, _, s) => some (ret, target, s)

def checkAndSet (fuel : Nat) (s : OptHashPosVector) (idx : Nat) :
    Option (Bool × OptHashPosVector) :=
  (checkAndSetIn fuel .member s (idx + 1)).map fun r => (r.1 == 0, r.2.2)

inductive Call
  | init (p : Setting)
  | clear
  | checkAndSet (idx : Fin (2 ^ 31))

inductive Answer
  | done
  | seen (b : Bool)
  | stuck
  deriving DecidableEq

def serve (fuel : Nat) (s : OptHashPosVector) : Call → Answer × OptHashPosVector
  | .init p => (.done, init p)
  | .clear => (.done, s.clear)
  | .checkAndSet idx =>
    match s.checkAndSet fuel idx with
    | none => (.stuck, s)
    | some (b, s) => (.seen b, s)

def expected (visited : List (Fin (2 ^ 31))) : Call → Answer × List (Fin (2 ^ 31))
  | .init _ => (.done, [])
  | .clear => (.done, [])
  | .checkAndSet idx => (.seen (decide (idx ∈ visited)), idx :: visited)

def walk (poolSize : Nat) : Nat → Nat → List Nat
  | 0, _ => []
  | left + 1, index => index :: walk poolSize left (hashFunc2 index poolSize (maxLoop - (left + 1)))

def block (poolSize idx : Nat) : List Nat := walk poolSize maxLoop (hashFunc idx poolSize)

def probes (poolSize idx : Nat) : List Nat :=
  (block poolSize idx).map (0 + ·) ++ (block poolSize idx).map (poolSize + 1 + ·)

theorem scan_eq (table : List Nat) (base poolSize idx left index : Nat) :
    scan table base poolSize idx left index =
      probe 0 table idx ((walk poolSize left index).map (base + ·)) := by
  induction left generalizing index with
  | zero => rfl
  | succ left ih =>
    rw [scan, walk, List.map_cons, probe, ih]

theorem walk_le {poolSize left index i : Nat} (hindex : index ≤ poolSize)
    (hi : i ∈ walk poolSize left index) :
    i ≤ poolSize := by
  induction left generalizing index with
  | zero => exact absurd hi List.not_mem_nil
  | succ left ih =>
    rcases List.mem_cons.mp hi with rfl | hi
    · exact hindex
    · exact ih Nat.and_le_right hi

theorem block_le {poolSize idx i : Nat} (hi : i ∈ block poolSize idx) : i ≤ poolSize :=
  walk_le Nat.and_le_right hi

theorem probes_lt {poolSize idx i : Nat} (hi : i ∈ probes poolSize idx) : i <
    (poolSize + 1) * 2 := by
  rcases List.mem_append.mp hi with hi | hi
  · obtain ⟨j, hj, rfl⟩ := List.mem_map.mp hi
    have := block_le hj
    omega
  · obtain ⟨j, hj, rfl⟩ := List.mem_map.mp hi
    have := block_le hj
    omega

def Target.stored (second : Bool) (table : List Nat) (s : OptHashPosVector) :
    Target → Target × OptHashPosVector
  | .member => (.member, { s with secondHash := second, hashTable := table })
  | .fresh _ poolSize => (.fresh table poolSize, { s with secondHash := second })

/-- The flag and the second block after an index was placed: without the flag the second block
has not been touched. -/
structure Touched (poolSize : Nat) (second : Bool) (table : List Nat) (second' : Bool)
    (table' : List Nat) :
    Prop where
  flag : second' = false → second = false
  kept : second' = false → ∀ i, poolSize < i → table'.getD i 0 = table.getD i 0

theorem Touched.refl (poolSize : Nat) (second : Bool) (table : List Nat) :
    Touched poolSize second table second table := ⟨id, fun _ _ _ => rfl⟩

theorem Touched.trans {poolSize : Nat} {a b c : Bool} {t u v : List Nat}
    (h : Touched poolSize a t b u)
    (h' : Touched poolSize b u c v) : Touched poolSize a t c v :=
  ⟨fun hc => h.flag (h'.flag hc), fun hc i hi => (h'.kept hc i hi).trans (h.kept (h'.flag hc) i hi)⟩

theorem checkAndSetIn_of_place (target : Target) (s : OptHashPosVector) {idx : Nat} {seen : Bool}
    {table : List Nat}
    (h : place 0 (probes (target.poolSize s)) (target.table s) idx = some (seen, table))
    (fuel : Nat) :
    ∃ second, Touched (target.poolSize s) s.secondHash (target.table s) second table ∧
      checkAndSetIn (fuel + 1) target s idx =
        some (if seen then 0 else 1, target.stored second table s) := by
  have hfirst := scan_eq (target.table s) 0 (target.poolSize s) idx maxLoop
    (hashFunc idx (target.poolSize s))
  have hsecond := scan_eq (target.table s) (target.poolSize s + 1) (target.poolSize s) idx maxLoop
    (hashFunc idx (target.poolSize s))
  rw [place, probes, probe_append, block] at h
  rw [checkAndSetIn]
  dsimp only
  rw [hfirst, hsecond]
  cases hprobe : probe 0 (target.table s) idx
      ((walk (target.poolSize s) maxLoop (hashFunc idx (target.poolSize s))).map (0 + ·)) with
  | free i =>
    rw [hprobe] at h
    cases h
    refine ⟨s.secondHash, ⟨id, fun _ j hj => getD_set_of_ne fun hij => ?_⟩, ?_⟩
    · obtain ⟨k, hk, hki⟩ := List.mem_map.mp (probe_free hprobe).2
      have := walk_le Nat.and_le_right hk
      omega
    · cases target with
      | member => rfl
      | fresh hashTable poolSize => rfl
  | hit =>
    rw [hprobe] at h
    cases h
    refine ⟨s.secondHash, .refl _ _ _, ?_⟩
    cases target with
    | member => rfl
    | fresh hashTable poolSize => rfl
  | full =>
    rw [hprobe] at h
    refine ⟨true, ⟨fun h => (Bool.noConfusion h), fun h => (Bool.noConfusion h)⟩, ?_⟩
    dsimp only at h ⊢
    have hsame : target.table { s with secondHash := true } = target.table s := by
      cases target with
      | member => rfl
      | fresh hashTable poolSize => rfl
    cases hprobe' : probe 0 (target.table s) idx
        ((walk (target.poolSize s) maxLoop (hashFunc idx (target.poolSize s))).map
          (target.poolSize s + 1 + ·)) with
    | free i =>
      rw [hprobe'] at h
      cases h
      cases target with
      | member => rfl
      | fresh hashTable poolSize => rfl
    | hit =>
      rw [hprobe'] at h
      cases h
      cases target with
      | member => rfl
      | fresh hashTable poolSize => rfl
    | full =>
      rw [hprobe'] at h
      cases h

theorem checkAndSetIn_of_full (target : Target) (s : OptHashPosVector) {idx : Nat}
    (h : place 0 (probes (target.poolSize s)) (target.table s) idx = none) (fuel : Nat) :
    checkAndSetIn (fuel + 1) target s idx =
      match doubleSize (checkAndSetIn fuel) { s with secondHash := true } with
      | none => none
      | some s =>
        match checkAndSetIn fuel .member s idx with
        | none => none
        | some (ret, _, s) => some (ret, target, s) := by
  have hfirst := scan_eq (target.table s) 0 (target.poolSize s) idx maxLoop
    (hashFunc idx (target.poolSize s))
  have hsecond := scan_eq (target.table s) (target.poolSize s + 1) (target.poolSize s) idx maxLoop
    (hashFunc idx (target.poolSize s))
  rw [place, probes, probe_append, block] at h
  rw [checkAndSetIn]
  dsimp only
  rw [hfirst, hsecond]
  cases hprobe : probe 0 (target.table s) idx
      ((walk (target.poolSize s) maxLoop (hashFunc idx (target.poolSize s))).map (0 + ·)) with
  | free i =>
    rw [hprobe] at h
    cases h
  | hit =>
    rw [hprobe] at h
    cases h
  | full =>
    rw [hprobe] at h
    dsimp only at h ⊢
    cases hprobe' : probe 0 (target.table s) idx
        ((walk (target.poolSize s) maxLoop (hashFunc idx (target.poolSize s))).map
          (target.poolSize s + 1 + ·)) with
    | free i =>
      rw [hprobe'] at h
      cases h
    | hit =>
      rw [hprobe'] at h
      cases h
    | full => rfl

def rehash (poolSize : Nat) (table : List Nat) : Option (List Nat) :=
  placeAll 0 (probes (doubled poolSize)) table (empty (doubled poolSize))

theorem refill_eq {s : OptHashPosVector} {poolSize : Nat} {is : List Nat} {t t' : List Nat}
    (h : placeAll 0 (probes poolSize) (is.map (s.hashTable.getD · 0)) t = some t') (fuel : Nat) :
    ∃ second, Touched poolSize s.secondHash t second t' ∧
      refill (checkAndSetIn (fuel + 1)) is (.fresh t poolSize) s =
        some (.fresh t' poolSize, { s with secondHash := second }) := by
  induction is generalizing s t with
  | nil =>
    cases h
    exact ⟨s.secondHash, .refl _ _ _, rfl⟩
  | cons i is ih =>
    rw [List.map_cons, placeAll] at h
    rw [refill]
    split at h
    · rename_i hblank
      rw [if_pos hblank]
      exact ih h
    · rename_i hindex
      rw [if_neg hindex]
      split at h
      · cases h
      · rename_i seen u hplace
        obtain ⟨second, htouched, hrun⟩ :=
          checkAndSetIn_of_place (.fresh t poolSize) s hplace fuel
        obtain ⟨second', htouched', hrun'⟩ := ih (s := { s with secondHash := second }) h
        refine ⟨second', htouched.trans htouched', ?_⟩
        rw [hrun]
        exact hrun'

theorem refill_stuck {s : OptHashPosVector} {poolSize : Nat} {is : List Nat}
    {t : List Nat} {fuel : Nat}
    (hstuck : ∀ second, doubleSize (checkAndSetIn fuel) { s with secondHash := second } = none)
    (h : placeAll 0 (probes poolSize) (is.map (s.hashTable.getD · 0)) t = none) :
    refill (checkAndSetIn (fuel + 1)) is (.fresh t poolSize) s = none := by
  induction is generalizing s t with
  | nil => cases h
  | cons i is ih =>
    rw [List.map_cons, placeAll] at h
    rw [refill]
    split at h
    · rename_i hblank
      rw [if_pos hblank]
      exact ih hstuck h
    · rename_i hindex
      rw [if_neg hindex]
      split at h
      · rename_i hplace
        rw [checkAndSetIn_of_full (.fresh t poolSize) s hplace, hstuck]
      · rename_i seen u hplace
        obtain ⟨second, -, hrun⟩ :=
          checkAndSetIn_of_place (.fresh t poolSize) s hplace fuel
        rw [hrun]
        exact ih (s := { s with secondHash := second }) hstuck h

theorem refill_zero {s : OptHashPosVector} {poolSize : Nat} {is : List Nat} {t : List Nat}
    (h : placeAll 0 (probes poolSize) (is.map (s.hashTable.getD · 0)) t = none) :
    refill (checkAndSetIn 0) is (.fresh t poolSize) s = none := by
  induction is with
  | nil => cases h
  | cons i is ih =>
    rw [List.map_cons, placeAll] at h
    rw [refill]
    split at h
    · rename_i hblank
      rw [if_pos hblank]
      exact ih h
    · rename_i hindex
      rw [if_neg hindex]
      rfl

theorem map_range_getD (table : List Nat) :
    (List.range table.length).map (table.getD · 0) = table := by
  refine List.ext_getElem (by simp) fun i hi _ => ?_
  rw [List.getElem_map, List.getElem_range, List.getD_eq_getElem]

@[simp] theorem length_empty (poolSize : Nat) : (empty poolSize).length = (poolSize + 1) * 2 :=
  List.length_replicate

@[simp] theorem getD_empty (poolSize i : Nat) : (empty poolSize).getD i 0 = 0 := by
  rw [empty, List.getD_eq_getElem?_getD, List.getElem?_replicate]
  split
  · rfl
  · rfl

theorem doubled_add_one (poolSize : Nat) : doubled poolSize + 1 = (poolSize + 1) * 2 := by
  rw [doubled]
  omega

theorem entries_eq {s : OptHashPosVector} (h : s.hashTable.length = (s.poolSize + 1) * 2) :
    (List.range (doubled s.poolSize + 1)).map (s.hashTable.getD · 0) = s.hashTable := by
  rw [doubled_add_one, ← h, map_range_getD]

theorem doubleSize_eq {s : OptHashPosVector} (hlength : s.hashTable.length = (s.poolSize + 1) * 2)
    (hsize : s.poolSize + 1 ≤ 2 ^ 28) {table : List Nat}
    (h : rehash s.poolSize s.hashTable = some table)
    (fuel : Nat) :
    ∃ second, (second = false → ∀ i, doubled s.poolSize < i → table.getD i 0 = 0) ∧
      doubleSize (checkAndSetIn (fuel + 1)) s =
        some ⟨second, s.exp + 1, doubled s.poolSize, table⟩ := by
  have hplaced : placeAll 0 (probes (doubled s.poolSize))
      ((List.range (doubled s.poolSize + 1)).map (s.hashTable.getD · 0))
      (empty (doubled s.poolSize)) =
        some table := by
    rw [entries_eq hlength]
    exact h
  obtain ⟨second, htouched, hrun⟩ := refill_eq (s := { s with secondHash := false }) hplaced fuel
  refine ⟨second, fun hsecond i hi => ?_, ?_⟩
  · rw [htouched.kept hsecond i hi, getD_empty]
  · rw [doubleSize, if_neg (Nat.not_lt.mpr hsize)]
    dsimp only
    rw [hrun]
    rfl

/-- When an index finds no place in the doubled table, the doubling within starts with the table
the one around it started with. -/
theorem doubleSize_stuck {s : OptHashPosVector}
    (hlength : s.hashTable.length = (s.poolSize + 1) * 2)
    (h : rehash s.poolSize s.hashTable = none) (fuel : Nat) :
      doubleSize (checkAndSetIn fuel) s = none := by
  have hplaced : placeAll 0 (probes (doubled s.poolSize))
      ((List.range (doubled s.poolSize + 1)).map (s.hashTable.getD · 0))
      (empty (doubled s.poolSize)) =
        none := by
    rw [entries_eq hlength]
    exact h
  induction fuel generalizing s with
  | zero =>
    rw [doubleSize]
    split
    · rfl
    · dsimp only
      rw [refill_zero (s := { s with secondHash := false }) hplaced]
  | succ fuel ih =>
    rw [doubleSize]
    split
    · rfl
    · dsimp only
      rw [refill_stuck (s := { s with secondHash := false }) _ hplaced]
      exact fun second => ih (s := { s with secondHash := second }) hlength h hplaced

theorem doubleSize_large {s : OptHashPosVector} (hsize : 2 ^ 28 < s.poolSize + 1)
    (insert : Insert) :
    doubleSize insert s = none := by
  rw [doubleSize, if_pos hsize]

/-- The index finds a place, at once or after doublings that find a place for every index they
insert again. -/
inductive Settles (idx : Nat) : Nat → List Nat → Prop
  | room {poolSize : Nat} {table : List Nat} (h : place 0 (probes poolSize) table idx ≠ none) :
      Settles idx poolSize table
  | doubles {poolSize : Nat} {table table' : List Nat}
    (hfull : place 0 (probes poolSize) table idx = none)
      (hsize : poolSize + 1 ≤ 2 ^ 28) (hrehash : rehash poolSize table = some table')
      (h : Settles idx (doubled poolSize) table') :
      Settles idx poolSize table

structure Sound (s : OptHashPosVector) : Prop where
  pool_le : s.poolSize + 1 ≤ 2 ^ 29
  length_eq : s.hashTable.length = (s.poolSize + 1) * 2
  findable : Findable 0 (probes s.poolSize) s.hashTable
  unused : s.secondHash = false → ∀ i, s.poolSize < i → s.hashTable.getD i 0 = 0

structure Visited (s : OptHashPosVector) (idx : Nat) (s' : OptHashPosVector) : Prop where
  sound : Sound s'
  stored : ∀ k, Stored 0 s'.hashTable k ↔ k = idx ∨ Stored 0 s.hashTable k

theorem rehash_stored {poolSize : Nat} {table table' : List Nat}
    (h : rehash poolSize table = some table') :
    Findable 0 (probes (doubled poolSize)) table' ∧ table'.length = (doubled poolSize + 1) * 2 ∧
      ∀ k, Stored 0 table' k ↔ Stored 0 table k := by
  have hbound : ∀ key ∈ table, ∀ i ∈ probes (doubled poolSize) key, i <
    (empty (doubled poolSize)).length :=
    fun _ _ i hi => (probes_lt hi).trans_eq (length_empty _).symm
  obtain ⟨hfind, hlength, hstored⟩ := (findable_replicate _ _).placeAll hbound h
  exact ⟨hfind, hlength.trans (length_empty _),
    fun k => (hstored k).trans (or_iff_left not_stored_replicate)⟩

theorem Sound.place {s : OptHashPosVector} (hs : Sound s) {idx : Nat} (hidx : idx ≠ 0) {seen : Bool}
    {table : List Nat} (h : place 0 (probes s.poolSize) s.hashTable idx = some (seen, table))
    (fuel : Nat) :
    ∃ s', checkAndSetIn (fuel + 1) .member s idx = some (if seen then 0 else 1, .member, s') ∧
      (seen = true ↔ Stored 0 s.hashTable idx) ∧ Visited s idx s' := by
  obtain ⟨hseen, hplaced⟩ := hs.findable.place
    (fun i hi => (probes_lt hi).trans_eq hs.length_eq.symm) hidx h
  obtain ⟨second, htouched, hrun⟩ := checkAndSetIn_of_place .member s h fuel
  refine ⟨_, hrun, hseen, ⟨hs.pool_le, hplaced.length_eq.trans hs.length_eq, hplaced.findable, ?_⟩,
    hplaced.stored⟩
  intro hsecond i hi
  exact (htouched.kept hsecond i hi).trans (hs.unused (htouched.flag hsecond) i hi)

theorem Settles.checkAndSetIn {idx : Nat} (hidx : idx ≠ 0) {poolSize : Nat} {table : List Nat}
    (h : Settles idx poolSize table) {s : OptHashPosVector} (hs : Sound s)
    (hpool : s.poolSize = poolSize)
    (htable : s.hashTable = table) {fuel : Nat} (hfuel : 2 ^ 29 < (poolSize + 1) * 2 ^ fuel) :
    ∃ ret s', checkAndSetIn fuel .member s idx = some (ret, .member, s') ∧
      (ret = 0 ↔ Stored 0 s.hashTable idx) ∧ Visited s idx s' := by
  induction h generalizing s fuel with
  | @room poolSize table hroom =>
    subst hpool htable
    obtain ⟨⟨seen, table⟩, hplace⟩ := Option.ne_none_iff_exists'.mp hroom
    cases fuel with
    | zero =>
      have := hs.pool_le
      omega
    | succ fuel =>
      obtain ⟨s', hrun, hseen, hvisited⟩ := hs.place hidx hplace fuel
      refine ⟨_, s', hrun, ?_, hvisited⟩
      rw [← hseen]
      cases seen with
      | false => simp
      | true => simp
  | @doubles poolSize table table' hfull hsize hrehash h ih =>
    subst hpool htable
    obtain ⟨fuel, rfl⟩ : ∃ n, fuel = n + 2 := by
      refine ⟨fuel - 2, ?_⟩
      rcases fuel with _ | _ | fuel <;> omega
    obtain ⟨second, hunused, hdouble⟩ :=
      doubleSize_eq (s := { s with secondHash := true }) hs.length_eq
      hsize hrehash fuel
    obtain ⟨hfind, hlength, hstored⟩ := rehash_stored hrehash
    have hsound : Sound ⟨second, s.exp + 1, doubled s.poolSize, table'⟩ :=
      { pool_le := by
          rw [doubled_add_one]
          omega
        length_eq := hlength
        findable := hfind
        unused := hunused }
    have hfuel' : 2 ^ 29 < (doubled s.poolSize + 1) * 2 ^ (fuel + 1) := by
      rwa [doubled_add_one, Nat.mul_assoc, ← Nat.pow_succ']
    obtain ⟨ret, s', hrun, hret, hvisited⟩ := ih hsound rfl rfl hfuel'
    refine ⟨ret, s', ?_, hret.trans (hstored idx), hvisited.sound,
      fun k => (hvisited.stored k).trans (or_congr_right (hstored k))⟩
    rw [checkAndSetIn_of_full .member s hfull, hdouble]
    dsimp only
    rw [hrun]

theorem settles_of_returns {fuel : Nat} {s : OptHashPosVector} {idx : Nat}
    (hlength : s.hashTable.length = (s.poolSize + 1) * 2)
    (h : checkAndSetIn fuel .member s idx ≠ none) : Settles idx s.poolSize s.hashTable := by
  induction fuel generalizing s with
  | zero => exact absurd rfl h
  | succ fuel ih =>
    by_cases hfull : place 0 (probes s.poolSize) s.hashTable idx = none
    · have hstep := checkAndSetIn_of_full .member s hfull fuel
      rw [hstep] at h
      by_cases hsize : 2 ^ 28 < s.poolSize + 1
      · rw [doubleSize_large (s := { s with secondHash := true }) hsize] at h
        exact absurd rfl h
      cases hrehash : rehash s.poolSize s.hashTable with
      | none =>
        rw [doubleSize_stuck (s := { s with secondHash := true }) hlength hrehash] at h
        exact absurd rfl h
      | some table =>
        refine .doubles hfull (Nat.not_lt.mp hsize) hrehash ?_
        cases fuel with
        | zero =>
          refine absurd ?_ h
          cases doubleSize (checkAndSetIn 0) { s with secondHash := true } with
          | none => rfl
          | some s => rfl
        | succ fuel =>
          obtain ⟨second, -, hdouble⟩ := doubleSize_eq (s := { s with secondHash := true }) hlength
            (Nat.not_lt.mp hsize) hrehash fuel
          rw [hdouble] at h
          refine ih (s := ⟨second, s.exp + 1, doubled s.poolSize, table⟩)
            (rehash_stored hrehash).2.1 ?_
          intro hnone
          dsimp only at h
          rw [hnone] at h
          exact h rfl
    · exact .room hfull

structure Holds (s : OptHashPosVector) (visited : List (Fin (2 ^ 31))) : Prop where
  sound : Sound s
  visited : ∀ idx : Fin (2 ^ 31), Stored 0 s.hashTable (idx + 1) ↔ idx ∈ visited

/-- What the calls ask of the state: where `CheckAndSet` has to double the table, every index it
inserts again finds a place. -/
def Fits (s : OptHashPosVector) : Call → Prop
  | .checkAndSet idx => Settles (idx + 1) s.poolSize s.hashTable
  | _ => True

theorem holds_empty {s : OptHashPosVector} (hpool : s.poolSize + 1 ≤ 2 ^ 29)
    (htable : s.hashTable = empty s.poolSize) : Holds s [] where
  sound :=
    { pool_le := hpool
      length_eq := by rw [htable, length_empty]
      findable := by
        rw [htable]
        exact findable_replicate _ _
      unused := fun _ i _ => by rw [htable, getD_empty] }
  visited idx := by
    rw [htable]
    exact iff_of_false not_stored_replicate List.not_mem_nil

theorem holds_init (p : Setting) : Holds (init p) [] := by
  refine holds_empty ?_ rfl
  rw [init, Nat.sub_add_cancel Nat.one_le_two_pow]
  refine Nat.pow_le_pow_right (by omega) ?_
  have := p.small
  omega

theorem Sound.clear {s : OptHashPosVector} (hs : Sound s) : s.clear.hashTable =
    empty s.poolSize := by
  rw [OptHashPosVector.clear]
  split
  · rfl
  · rename_i hsecond
    -- the second block has not been touched
    have hdrop : s.hashTable.drop (s.poolSize + 1) = List.replicate (s.poolSize + 1) 0 := by
      refine List.eq_replicate_iff.mpr ⟨?_, fun b hb => ?_⟩
      · rw [List.length_drop, hs.length_eq]
        omega
      · obtain ⟨i, hi, rfl⟩ := List.mem_iff_getElem.mp hb
        rw [List.length_drop] at hi
        rw [List.getElem_drop, ← List.getD_eq_getElem _ 0 (by omega)]
        exact hs.unused (Bool.eq_false_iff.mpr hsecond) _ (by omega)
    dsimp only
    rw [hdrop, List.replicate_append_replicate, empty, Nat.mul_two]

theorem holds_clear {s : OptHashPosVector} (hs : Sound s) : Holds s.clear [] := by
  have hpool : s.clear.poolSize = s.poolSize := by
    rw [OptHashPosVector.clear]
    split
    · rfl
    · rfl
  refine holds_empty ?_ ?_
  · rw [hpool]
    exact hs.pool_le
  · rw [hpool]
    exact hs.clear

theorem Holds.checkAndSet {s : OptHashPosVector} {visited : List (Fin (2 ^ 31))}
    (hs : Holds s visited)
    {idx : Fin (2 ^ 31)} (h : Settles (idx + 1) s.poolSize s.hashTable) (fuel : Nat) :
    ∃ s', s.checkAndSet (fuel + 30) idx = some (decide (idx ∈ visited), s') ∧
      Holds s' (idx :: visited) := by
  have hfuel : 2 ^ 29 < (s.poolSize + 1) * 2 ^ (fuel + 30) :=
    calc 2 ^ 29 < 2 ^ (fuel + 30) := Nat.pow_lt_pow_right (by omega) (by omega)
      _ ≤ (s.poolSize + 1) * 2 ^ (fuel + 30) := Nat.le_mul_of_pos_left _ (Nat.succ_pos _)
  obtain ⟨ret, s', hrun, hret, hsound, hstored⟩ :=
    h.checkAndSetIn (Nat.succ_ne_zero _) hs.sound rfl rfl hfuel
  refine ⟨s', ?_, hsound, fun k => ?_⟩
  · rw [OptHashPosVector.checkAndSet, hrun, Option.map_some]
    have hseen : (ret == 0) = decide (idx ∈ visited) := by
      rw [Bool.eq_iff_iff, beq_iff_eq, decide_eq_true_iff]
      exact hret.trans (hs.visited idx)
    rw [hseen]
  · rw [hstored, hs.visited k, List.mem_cons]
    refine or_congr_left ⟨fun h => Fin.ext (Nat.succ.inj h), ?_⟩
    rintro rfl
    rfl

/-- With fuel for 29 doublings: whether an index was there is answered right, and at all, by a run
in which every doubling finds a place for what it inserts again, and by no other. -/
theorem checkAndSet_exact_iff (fuel : Nat) (p : Setting) (calls : List Call) :
    answers (serve (fuel + 30)) (init p) calls = answers expected [] calls ↔
      Along (fun s c => (serve (fuel + 30) s c).2) Fits (init p) calls := by
  refine answers_eq_iff (R := Holds) (fun s visited c hfits hs => ?_)
    (fun s visited c hfits hs => ?_) calls
    (holds_init p)
  · cases c with
    | init p => exact ⟨rfl, holds_init p⟩
    | clear => exact ⟨rfl, holds_clear hs.sound⟩
    | checkAndSet idx =>
      obtain ⟨s', hrun, hs'⟩ := hs.checkAndSet hfits fuel
      rw [serve, hrun]
      exact ⟨rfl, hs'⟩
  · cases c with
    | init p => exact absurd trivial hfits
    | clear => exact absurd trivial hfits
    | checkAndSet idx =>
      have hnone : checkAndSetIn (fuel + 30) .member s (idx + 1) = none :=
        not_ne_iff.mp fun h => hfits (settles_of_returns hs.sound.length_eq h)
      rw [serve, OptHashPosVector.checkAndSet, hnone]
      exact Answer.noConfusion

theorem run_places (fuel : Nat) (s : OptHashPosVector) (idxs : List (Fin (2 ^ 31)))
    (table : List Nat)
    (h : placeAll 0 (probes s.poolSize) (idxs.map (·.val + 1)) s.hashTable = some table) :
    (run (fun s c => (serve (fuel + 1) s c).2) s (idxs.map .checkAndSet)).poolSize = s.poolSize ∧
      (run (fun s c => (serve (fuel + 1) s c).2) s (idxs.map .checkAndSet)).hashTable = table := by
  induction idxs generalizing s with
  | nil =>
    cases h
    exact ⟨rfl, rfl⟩
  | cons idx idxs ih =>
    rw [List.map_cons, placeAll, if_neg (Nat.succ_ne_zero _)] at h
    split at h
    · cases h
    · rename_i seen t hplace
      obtain ⟨second, -, hrun⟩ := checkAndSetIn_of_place .member s hplace fuel
      have hserve : (serve (fuel + 1) s (.checkAndSet idx)).2 =
          { s with secondHash := second, hashTable := t } := by
        rw [serve, checkAndSet, hrun]
        rfl
      rw [List.map_cons, run_cons, hserve]
      exact ih { s with secondHash := second, hashTable := t } h

theorem stuck_not_mem (visited : List (Fin (2 ^ 31))) (calls : List Call) :
    .stuck ∉ answers expected visited calls := by
  induction calls generalizing visited with
  | nil => exact List.not_mem_nil
  | cons c calls ih =>
    intro h
    rcases List.mem_cons.mp h with h | h
    · cases c <;> cases h
    · exact ih _ h

local instance instNeZeroIds : NeZero (2 ^ 31) := ⟨by decide⟩

def crowd : List (Fin (2 ^ 31)) :=
  [0, 16, 32, 48, 64, 80, 96, 15, 112, 128, 144, 160, 176, 192, 208]

/-- The table of these numbers has no place for one more, and when they are inserted into a table
of twice the length one of them finds none: the doubling within that doubling starts it again. -/
theorem checkAndSet_not_exact : ∃ (p : Setting) (calls : List Call),
    ∀ fuel, answers (serve fuel) (init p) calls ≠ answers expected [] calls := by
  let p : Setting := ⟨1, 2, by decide, by decide, by decide⟩
  refine ⟨p, crowd.map .checkAndSet ++ [.checkAndSet 224], fun fuel h => ?_⟩
  refine stuck_not_mem [] (crowd.map .checkAndSet ++ [.checkAndSet 224]) ?_
  rw [← h, answers_append]
  cases fuel with
  | zero => exact .head _
  | succ fuel =>
    obtain ⟨hpool, htable⟩ := run_places fuel (init p) crowd
      [1, 17, 65, 33, 16, 97, 49, 81, 113, 129, 177, 145, 0, 209, 161, 193] (by decide)
    generalize run _ (init p) _ = s at hpool htable ⊢
    have hplace : place 0 (probes s.poolSize) s.hashTable 225 = none := by
      rw [hpool, htable]
      decide
    have hrehash : rehash s.poolSize s.hashTable = none := by
      rw [hpool, htable]
      decide
    have hstuck : ¬ Settles 225 s.poolSize s.hashTable := by
      intro hsettles
      cases hsettles with
      | room hroom => exact hroom hplace
      | doubles hfull hsize hsome =>
        rw [hrehash] at hsome
        cases hsome
    have hnone : checkAndSetIn (fuel + 1) .member s 225 = none := by
      refine not_ne_iff.mp fun hreturns => hstuck (settles_of_returns ?_ hreturns)
      rw [hpool, htable]
      decide
    have hserve : (serve (fuel + 1) s (.checkAndSet 224)).1 = .stuck := by
      have hcall : s.checkAndSet (fuel + 1) ((224 : Fin (2 ^ 31)) : Nat) = none := by
        rw [checkAndSet]
        exact congrArg _ hnone
      rw [serve, hcall]
    refine List.mem_append_right _ ?_
    rw [answers, hserve]
    exact .head _

end OptHashPosVector

end Sptag.COMMON
