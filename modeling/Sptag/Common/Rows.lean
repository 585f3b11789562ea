import Sptag.Common.Dataset
import Sptag.Lib.Blocks
import Sptag.Lib.Run

/-! `inc/Core/Common/Dataset.h`, with all its columns: the rows in a base block and in blocks that
are added, and the table they stand for. -/

namespace Sptag.COMMON.Rows

open Lib

structure Dataset (T : Type) where
  rows : Nat
  mycols : Nat
  data : Option (Nat → List T)
  incRows : Nat
  maxRows : Nat
  rowsInBlockEx : Nat
  incBlocks : List (Nat → List T)
  colStart : Nat

structure Saved (T : Type) where
  r : Nat
  c : Nat
  elements : List T

def newRow {T : Type} (fill : T) (cols : Nat) (data : Option (Nat → Nat → T)) (i : Nat) : List T :=
  match data with
  | some elements => (List.range cols).map (elements i)
  | none => List.replicate cols fill

namespace Dataset

variable {T : Type}

def empty (maxSize : Nat) : Dataset T where
  rows := 0
  mycols := 0
  data := none
  incRows := 0
  maxRows := maxSize
  rowsInBlockEx := 20
  incBlocks := []
  colStart := 0

/-- `Initialize`; `incBlocks` are blocks shared with another dataset, of which this one has
columns. -/
def init (fill : T) (rows cols rowsInBlock capacity : Nat) (data : Option (Nat → Nat → T))
    (incBlocks : List (Nat → List T)) (colStart : Nat) : Dataset T where
  rows := rows
  mycols := cols
  data := some (newRow fill cols data)
  incRows := 0
  maxRows := capacity
  rowsInBlockEx := Blocks.ceilLog2 rowsInBlock
  incBlocks := incBlocks
  colStart := colStart

def count (d : Dataset T) : Nat := d.rows + d.incRows

def setR (d : Dataset T) (R : Nat) : Dataset T :=
  if d.rows ≤ R then { d with incRows := R - d.rows } else { d with rows := R, incRows := 0 }

def rowAt (d : Dataset T) (index : Nat) : Option (List T) :=
  if d.rows ≤ index then Blocks.get? d.rowsInBlockEx d.incBlocks (index - d.rows)
  else d.data.map fun data => data index

def setRow (d : Dataset T) (index : Nat) (row : List T) : Option (Dataset T) :=
  if d.rows ≤ index then
    let incIndex := index - d.rows
    (Blocks.writeAt d.incBlocks (incIndex >>> d.rowsInBlockEx)
      (incIndex &&& Blocks.mask d.rowsInBlockEx) [row]).map fun blocks =>
        { d with incBlocks := blocks }
  else d.data.map fun data => { d with data := some (Function.update data index row) }

def write (d : Dataset T) (index col : Nat) (value : T) : Option (Dataset T) := do
  let row ← d.rowAt index
  d.setRow index (row.set col value)

def addBatch (fill : T) (alloc : Nat → Bool) (num : Nat) (pData : Option (Nat → T))
    (d : Dataset T) :
    Option (ErrorCode × Dataset T) :=
  if d.colStart ≠ 0 then some (.success, d)
  else if d.maxRows < d.count + num then some (.memoryOverFlow, d)
  else if d.data.isNone ∧ 0 < num then none
  else
    let src := pData.map fun elements => (List.range num).map
      (newRow fill d.mycols (some fun i j => elements (i * d.mycols + j)))
    (Blocks.fill alloc (fun _ => newRow fill d.mycols none 0) d.rowsInBlockEx d.incRows num src
      (num + 1) 0 d.incBlocks).map fun (ok, blocks) =>
        if ok then (.success, { d with incBlocks := blocks, incRows := d.incRows + num })
        else (.memoryOverFlow, { d with incBlocks := blocks })

def writeRows (d : Dataset T) : Nat → Nat → Option (List T)
  | 0, _ => some []
  | n + 1, i => do
    let row ← d.rowAt i
    let rest ← d.writeRows n (i + 1)
    return row ++ rest

def save (d : Dataset T) : Option (Saved T) := do
  let elements ← d.writeRows d.count 0
  return ⟨d.count, d.mycols, elements⟩

def readRows (d : Dataset T) : Nat → Nat → List T → Option (ErrorCode × Dataset T)
  | 0, _, _ => some (.success, d)
  | n + 1, i, elements => do
    let row ← d.rowAt i
    let read := elements.take d.mycols
    let d' ← d.setRow i (read ++ row.drop read.length)
    if read.length < d.mycols then return (.diskIOFail, d')
    else d'.readRows n (i + 1) (elements.drop d.mycols)

def load (fill : T) (file : Saved T) (blockSize capacity : Nat) (d : Dataset T) :
    Option (ErrorCode × Dataset T) :=
  let d := if d.data.isNone ∨ file.r ≠ d.rows + d.incRows then
      init fill file.r file.c blockSize capacity none [] 0
    else d
  d.readRows file.r 0 file.elements

end Dataset

structure Table (T : Type) where
  cols : Nat
  rows : List (List T)
  wide : ∀ row ∈ rows, row.length = cols

variable {T : Type}

def Table.saved (t : Table T) : Saved T := ⟨t.rows.length, t.cols, t.rows.flatten⟩

inductive Op (T : Type) where
  | init (rows cols rowsInBlock capacity : Nat) (data : Option (Nat → Nat → T))
    (incBlocks : List (Nat → List T)) (colStart : Nat)
  | addBatch (alloc : Nat → Bool) (num : Nat) (pData : Option (Nat → T))
  | setR (R : Nat)
  | write (index col : Nat) (value : T)
  /-- What was saved of a dataset that stands for `table` is loaded. -/
  | load (table : Table T) (blockSize capacity : Nat)

def Dataset.step (fill : T) (d : Dataset T) : Op T → Option (ErrorCode × Dataset T)
  | .init rows cols rowsInBlock capacity data incBlocks colStart =>
    some (.success, .init fill rows cols rowsInBlock capacity data incBlocks colStart)
  | .addBatch alloc num pData => d.addBatch fill alloc num pData
  | .setR R => some (.success, d.setR R)
  | .write index col value => (d.write index col value).map fun d => (.success, d)
  | .load table blockSize capacity => d.load fill table.saved blockSize capacity

@[simp] theorem length_newRow (fill : T) (cols : Nat) (data : Option (Nat → Nat → T)) (i : Nat) :
    (newRow fill cols data i).length = cols := by
  cases data with
  | none => exact List.length_replicate
  | some elements => rw [newRow, List.length_map, List.length_range]

def Table.fresh (fill : T) (cols num : Nat) (data : Option (Nat → Nat → T)) : Table T where
  cols := cols
  rows := (List.range num).map (newRow fill cols data)
  wide row hrow := by
    obtain ⟨i, -, rfl⟩ := List.mem_map.mp hrow
    exact length_newRow fill cols data i

def Table.step (fill : T) (code : ErrorCode) (t : Table T) : Op T → Table T
  | .init rows cols _ _ data _ _ => .fresh fill cols rows data
  | .addBatch _ num pData =>
    if code = .success then
      let more := fresh fill t.cols num (pData.map fun elements i j => elements (i * t.cols + j))
      { cols := t.cols
        rows := t.rows ++ more.rows
        wide := fun row hrow => (List.mem_append.mp hrow).elim (t.wide row) (more.wide row) }
    else t
  | .setR R =>
    { cols := t.cols
      rows := t.rows.take R
      wide := fun row hrow => t.wide row (List.mem_of_mem_take hrow) }
  | .write index col value =>
    { cols := t.cols
      rows := t.rows.modify index fun row => row.set col value
      wide := by
        intro row hrow
        obtain ⟨i, hi, rfl⟩ := List.mem_iff_getElem.mp hrow
        rw [List.getElem_modify]
        split
        · rw [List.length_set]
          exact t.wide _ (List.getElem_mem _)
        · exact t.wide _ (List.getElem_mem _) }
  | .load table _ _ => table

structure Represents (d : Dataset T) (t : Table T) : Prop where
  cols : d.mycols = t.cols
  count : d.count = t.rows.length
  row : ∀ i, i < d.count → d.rowAt i = t.rows[i]?

variable {d : Dataset T} {t : Table T} {i : Nat} {fill : T} {alloc : Nat → Bool}

theorem Represents.isSome (h : Represents d t) (hi : i < d.count) : (d.rowAt i).isSome := by
  rw [h.row i hi, List.getElem?_eq_getElem (h.count ▸ hi), Option.isSome_some]

theorem setRow_spec (hi : (d.rowAt i).isSome) (row : List T) :
    ∃ d', d.setRow i row = some d' ∧ d'.mycols = d.mycols ∧ d'.count = d.count ∧
      ∀ j, d'.rowAt j = if j = i then some row else d.rowAt j := by
  unfold Dataset.rowAt at hi
  unfold Dataset.setRow
  by_cases hinc : d.rows ≤ i
  · rw [if_pos hinc] at hi ⊢
    obtain ⟨blocks, hblocks, -, hget⟩ := Blocks.writeAt_spec [row]
      (Blocks.get?_isSome.mp hi) (Nat.mod_lt (i - d.rows) (Nat.two_pow_pos _))
    refine ⟨{ d with incBlocks := blocks }, ?_, rfl, rfl, fun j => ?_⟩
    · dsimp only
      rw [hblocks, Option.map_some]
    unfold Dataset.rowAt
    dsimp only
    rw [hget, List.length_singleton]
    by_cases hj : d.rows ≤ j
    · rw [if_pos hj, if_pos hj]
      by_cases heq : j = i
      · subst heq
        rw [if_pos rfl, if_pos ⟨le_rfl, Nat.lt_succ_self _⟩, Nat.sub_self]
        rfl
      · rw [if_neg heq, if_neg (by omega)]
    · rw [if_neg hj, if_neg hj, if_neg (by omega)]
  · rw [if_neg hinc] at hi ⊢
    obtain ⟨data, hdata⟩ := Option.isSome_iff_exists.mp (Option.isSome_map.symm.trans hi)
    refine ⟨{ d with data := some (Function.update data i row) },
      by rw [hdata, Option.map_some], rfl,
      rfl, fun j => ?_⟩
    unfold Dataset.rowAt
    by_cases heq : j = i
    · subst heq
      rw [if_neg hinc, if_pos rfl, Option.map_some, Function.update_self]
    · rw [if_neg heq, hdata, Option.map_some, Option.map_some, Function.update_of_ne heq]

theorem Represents.write (fill : T) (h : Represents d t) (hi : i < d.count)
    (col : Nat) (value : T) :
    ∃ d', d.write i col value = some d' ∧
      Represents d' (t.step fill .success (.write i col value)) := by
  have hrow := h.row i hi
  have hlt : i < t.rows.length := h.count ▸ hi
  rw [List.getElem?_eq_getElem hlt] at hrow
  obtain ⟨d', hd', hcols, hcount, hrows⟩ :=
    setRow_spec (h.isSome hi) (t.rows[i].set col value)
  refine ⟨d', ?_, hcols.trans h.cols, ?_, fun j hj => ?_⟩
  · rw [Dataset.write, hrow]
    exact hd'
  · rw [hcount, h.count]
    exact (List.length_modify ..).symm
  · rw [hrows, Table.step, List.getElem?_modify]
    by_cases heq : j = i
    · subst heq
      simp [List.getElem?_eq_getElem hlt]
    · rw [if_neg heq, h.row j (hcount ▸ hj)]
      simp [Ne.symm heq]

theorem Represents.setR (h : Represents d t) {R : Nat} (hR : R ≤ d.count) :
    Represents (d.setR R) (t.step fill .success (.setR R)) := by
  have hcount : (d.setR R).count = R := by
    unfold Dataset.setR Dataset.count
    split
    · exact Nat.add_sub_cancel' (by assumption)
    · rfl
  refine ⟨?_, ?_, fun j hj => ?_⟩
  · unfold Dataset.setR
    split
    · exact h.cols
    · exact h.cols
  · rw [hcount, Table.step, List.length_take, ← h.count, min_eq_left hR]
  · rw [hcount] at hj
    rw [Table.step, List.getElem?_take_of_lt hj, ← h.row j (hj.trans_le hR)]
    unfold Dataset.setR Dataset.rowAt
    by_cases hrows : d.rows ≤ R
    · rw [if_pos hrows]
    · rw [if_neg hrows]
      dsimp only
      rw [if_neg hj.not_ge, if_neg (by omega)]

theorem represents_init (fill : T) (rows cols rowsInBlock capacity : Nat)
    (data : Option (Nat → Nat → T))
    (incBlocks : List (Nat → List T)) (colStart : Nat) :
    Represents (.init fill rows cols rowsInBlock capacity data incBlocks colStart)
      (.fresh fill cols rows data) where
  cols := rfl
  count := by
    rw [Table.fresh, List.length_map, List.length_range]
    rfl
  row i hi := by
    have hlt : i < rows := hi
    simp [Dataset.rowAt, Dataset.init, Table.fresh, hlt, hlt.not_ge]

theorem Represents.save (h : Represents d t) : d.save = some t.saved := by
  have hloop : ∀ n i, i + n = d.count → d.writeRows n i = some (t.rows.drop i).flatten := by
    intro n
    induction n with
    | zero =>
      intro i hi
      have hle : t.rows.length ≤ i := by
        rw [← h.count]
        omega
      rw [List.drop_eq_nil_of_le hle]
      rfl
    | succ n ih =>
      intro i hi
      have hlt : i < t.rows.length := by
        rw [← h.count]
        omega
      rw [Dataset.writeRows, h.row i (by omega), List.getElem?_eq_getElem hlt,
        ih (i + 1) (by omega),
        List.drop_eq_getElem_cons hlt, List.flatten_cons]
      rfl
  rw [Dataset.save, hloop d.count 0 (Nat.zero_add _), List.drop_zero, h.count, h.cols]
  rfl

theorem readRows_spec {rows : List (List T)} (hrows : ∀ row ∈ rows, row.length = d.mycols)
    (hat : ∀ j, i ≤ j → j < i + rows.length → ∃ old, d.rowAt j = some old ∧ old.length = d.mycols) :
    ∃ d', d.readRows rows.length i rows.flatten = some (.success, d') ∧ d'.mycols = d.mycols ∧
      d'.count = d.count ∧
      ∀ j, d'.rowAt j = if i ≤ j ∧ j < i + rows.length then rows[j - i]? else d.rowAt j := by
  induction rows generalizing d i with
  | nil => exact ⟨d, rfl, rfl, rfl, fun j => (if_neg fun h => h.1.not_gt h.2).symm⟩
  | cons row rows ih =>
    have hrow : row.length = d.mycols := hrows row List.mem_cons_self
    obtain ⟨old, hold, hlen⟩ := hat i le_rfl (by simp)
    obtain ⟨d₁, hd₁, hcols₁, hcount₁, hrows₁⟩ := setRow_spec (by rw [hold, Option.isSome_some]) row
    obtain ⟨d', hd', hcols, hcount, hnew⟩ := ih (d := d₁) (i := i + 1)
      (fun r hr => (hrows r (List.mem_cons_of_mem _ hr)).trans hcols₁.symm) fun j hj hj' => by
        obtain ⟨old', hold', hlen'⟩ := hat j (by omega) (by rw [List.length_cons]; omega)
        exact ⟨old', by rw [hrows₁, if_neg (by omega), hold'], hlen'.trans hcols₁.symm⟩
    refine ⟨d', ?_, hcols.trans hcols₁, hcount.trans hcount₁, fun j => ?_⟩
    · rw [List.length_cons, Dataset.readRows, hold, List.flatten_cons, ← hrow, List.take_left,
        List.drop_left]
      simp only [Option.bind_eq_bind, Option.bind_some]
      rw [List.drop_eq_nil_of_le (hlen.trans hrow.symm).le, List.append_nil, hd₁, Option.bind_some,
        if_neg (lt_irrefl _), hd']
    · rw [hnew, List.length_cons]
      by_cases hj : i + 1 ≤ j ∧ j < i + 1 + rows.length
      · obtain ⟨k, hk⟩ : ∃ k, j - i = k + 1 := ⟨j - i - 1, by omega⟩
        rw [if_pos hj, if_pos (by omega), hk, List.getElem?_cons_succ]
        congr 1
        omega
      · rw [if_neg hj, hrows₁]
        by_cases heq : j = i
        · subst heq
          rw [if_pos rfl, if_pos (by omega), Nat.sub_self]
          rfl
        · rw [if_neg heq, if_neg (by omega)]

theorem Represents.width (h : Represents d t) (hi : i < d.count) :
    ∃ row, d.rowAt i = some row ∧ row.length = d.mycols := by
  have hlt : i < t.rows.length := h.count ▸ hi
  refine ⟨t.rows[i], ?_, (t.wide _ (List.getElem_mem hlt)).trans h.cols.symm⟩
  rw [h.row i hi, List.getElem?_eq_getElem hlt]

theorem Represents.readRows (h : Represents d t) (table : Table T)
    (hcount : table.rows.length = d.count)
    (hcols : table.cols = d.mycols) :
    ∃ d', d.readRows table.rows.length 0 table.rows.flatten = some (.success, d') ∧
      Represents d' table := by
  obtain ⟨d', hd', hcols', hcount', hrows⟩ := readRows_spec (d := d) (i := 0)
    (fun row hrow => (table.wide row hrow).trans hcols) fun j _ hj => h.width (by omega)
  refine ⟨d', hd', hcols'.trans hcols.symm, hcount'.trans hcount.symm, fun j hj => ?_⟩
  rw [hrows, if_pos ⟨Nat.zero_le _, by omega⟩, Nat.sub_zero]

theorem setRow_mycols {row : List T} {d' : Dataset T} (h : d.setRow i row = some d') :
    d'.mycols = d.mycols := by
  unfold Dataset.setRow at h
  split at h
  · obtain ⟨blocks, -, rfl⟩ := Option.map_eq_some_iff.mp h
    rfl
  · obtain ⟨data, -, rfl⟩ := Option.map_eq_some_iff.mp h
    rfl

theorem readRows_mycols {n : Nat} {elements : List T} {code : ErrorCode} {d' : Dataset T}
    (h : d.readRows n i elements = some (code, d')) : d'.mycols = d.mycols := by
  induction n generalizing d i elements with
  | zero =>
    obtain ⟨-, rfl⟩ := Prod.mk.inj (Option.some.inj h)
    rfl
  | succ n ih =>
    obtain ⟨row, -, h⟩ := Option.bind_eq_some_iff.mp h
    obtain ⟨d₁, hd₁, h⟩ := Option.bind_eq_some_iff.mp h
    split at h
    · obtain ⟨-, rfl⟩ := Prod.mk.inj (Option.some.inj h)
      exact setRow_mycols hd₁
    · exact (ih h).trans (setRow_mycols hd₁)

theorem Represents.load_iff {table : Table T} (h : Represents d t) (blockSize capacity : Nat) :
    (∃ code d', d.load fill table.saved blockSize capacity = some (code, d') ∧
      Represents d' table) ↔
    (d.data = none ∨ table.rows.length ≠ d.count ∨ table.cols = d.mycols) := by
  unfold Dataset.load
  by_cases hinit : d.data.isNone ∨ table.saved.r ≠ d.rows + d.incRows
  · rw [if_pos hinit]
    have hfresh := represents_init fill table.rows.length table.cols blockSize capacity none
      [] 0
    obtain ⟨d', hd', htable⟩ := hfresh.readRows table rfl rfl
    refine iff_of_true ⟨_, d', hd', htable⟩ ?_
    exact hinit.elim (fun hnone => .inl (Option.isNone_iff_eq_none.mp hnone)) fun hne =>
      .inr (.inl hne)
  · rw [if_neg hinit]
    rw [not_or, not_not] at hinit
    obtain ⟨hready, hcount⟩ := hinit
    constructor
    · rintro ⟨code, d', hd', htable⟩
      exact .inr (.inr (htable.cols.symm.trans (readRows_mycols hd')))
    · rintro (hnone | hne | hcols)
      · exact absurd (Option.isNone_iff_eq_none.mpr hnone) hready
      · exact absurd hcount hne
      · obtain ⟨d', hd', htable⟩ := h.readRows table hcount hcols
        exact ⟨_, d', hd', htable⟩

def Fits (d : Dataset T) (alloc : Nat → Bool) (num : Nat) : Prop :=
  d.count + num ≤ d.maxRows ∧ ∀ i, i < num →
    d.incRows + i < Blocks.room d.rowsInBlockEx d.incBlocks ∨
      alloc ((d.incRows + i) / 2 ^ d.rowsInBlockEx) = true

def Clean (fill : T) (d : Dataset T) (num : Nat) : Prop :=
  ∀ i, i < num → ∀ row, Blocks.get? d.rowsInBlockEx d.incBlocks (d.incRows + i) = some row →
    row = newRow fill d.mycols none i

theorem Represents.room (h : Represents d t) :
    d.incRows ≤ Blocks.room d.rowsInBlockEx d.incBlocks := by
  by_contra hlt
  have hpos : 0 < d.incRows := (Nat.zero_le _).trans_lt (not_le.mp hlt)
  have hlast : (d.rowAt (d.rows + (d.incRows - 1))).isSome :=
    h.isSome (Nat.add_lt_add_left (Nat.sub_one_lt hpos.ne') _)
  rw [Dataset.rowAt, if_pos (Nat.le_add_right _ _), Nat.add_sub_cancel_left, Blocks.get?_isSome]
    at hlast
  omega

theorem rowAt_blocks {blocks : List (Nat → List T)}
    (hbefore : ∀ k, k < d.incRows →
      Blocks.get? d.rowsInBlockEx blocks k = Blocks.get? d.rowsInBlockEx d.incBlocks k)
    (hi : i < d.count) (n : Nat) :
    ({ d with incBlocks := blocks, incRows := n } : Dataset T).rowAt i = d.rowAt i := by
  have hlt : i < d.rows + d.incRows := hi
  unfold Dataset.rowAt
  dsimp only
  split
  · exact hbefore _ (by omega)
  · rfl

theorem Represents.extend_iff (h : Represents d t) {num : Nat} {pData : Option (Nat → T)}
    {blocks : List (Nat → List T)}
    (hbefore : ∀ k, k < d.incRows →
      Blocks.get? d.rowsInBlockEx blocks k = Blocks.get? d.rowsInBlockEx d.incBlocks k) :
    Represents { d with incBlocks := blocks, incRows := d.incRows + num }
      (t.step fill .success (.addBatch alloc num pData)) ↔
    ∀ i, i < num → Blocks.get? d.rowsInBlockEx blocks (d.incRows + i) =
      some (newRow fill t.cols (pData.map fun elements i j => elements (i * t.cols + j)) i) := by
  have hcount := h.count
  unfold Dataset.count at hcount
  have hat : ∀ i, ({ d with incBlocks := blocks, incRows := d.incRows + num } : Dataset T).rowAt
      (d.count + i) = Blocks.get? d.rowsInBlockEx blocks (d.incRows + i) := by
    intro i
    unfold Dataset.rowAt Dataset.count
    dsimp only
    rw [if_pos (by omega), Nat.add_assoc, Nat.add_sub_cancel_left]
  have hmore : ∀ i, i < num → (t.step fill .success
    (.addBatch alloc num pData)).rows[d.count + i]? =
      some (newRow fill t.cols (pData.map fun elements i j => elements (i * t.cols + j)) i) := by
    intro i hi
    rw [Table.step, if_pos rfl, h.count, List.getElem?_append_right (Nat.le_add_right _ _),
      Nat.add_sub_cancel_left, Table.fresh]
    simp [hi]
  constructor
  · intro h' i hi
    rw [← hat, ← hmore i hi]
    refine h'.row _ ?_
    show d.rows + d.incRows + i < d.rows + (d.incRows + num)
    omega
  · intro hnew
    refine ⟨h.cols, ?_, fun j hj => ?_⟩
    · rw [Table.step, if_pos rfl, List.length_append, ← h.count, Table.fresh, List.length_map,
        List.length_range]
      exact (Nat.add_assoc _ _ _).symm
    · by_cases hold : j < d.count
      · rw [Table.step, if_pos rfl, List.getElem?_append_left (h.count ▸ hold), ← h.row j hold,
          rowAt_blocks hbefore hold]
      · obtain ⟨i, rfl⟩ := Nat.exists_eq_add_of_le (not_lt.mp hold)
        have hi : i < num := by
          simp only [Dataset.count] at hj
          omega
        rw [hat, hnew i hi, hmore i hi]

theorem Represents.fill_iff (h : Represents d t) {num : Nat} {pData : Option (Nat → T)}
    {alloc : Nat → Bool} {blocks : List (Nat → List T)}
    (hfills : Blocks.Fills alloc (fun _ => newRow fill d.mycols none 0)
      d.rowsInBlockEx d.incRows num
      (pData.map fun elements => (List.range num).map
        (newRow fill d.mycols (some fun i j => elements (i * d.mycols + j)))) 0 d.incBlocks true
      blocks) :
    Represents { d with incBlocks := blocks, incRows := d.incRows + num }
      (t.step fill .success (.addBatch alloc num pData)) ↔ (pData = none → Clean fill d num) := by
  rw [h.extend_iff hfills.before]
  cases pData with
  | some elements =>
    refine iff_of_true (fun i hi => ?_) nofun
    rw [hfills.range rfl i (Nat.zero_le i) hi, Blocks.filled, Option.map_some, Blocks.source,
      Option.map_some, h.cols]
    simp [hi]
  | none =>
    have hrow : ∀ i, newRow fill d.mycols none i = newRow fill d.mycols none 0 := fun _ => rfl
    simp only [forall_true_left, Clean, ← h.cols, Option.map_none]
    refine forall_congr' fun i => forall_congr' fun hi => ?_
    rw [hfills.range rfl i (Nat.zero_le i) hi, Blocks.filled, Option.map_none,
      Blocks.source, hrow i,
      Option.some_inj]
    cases Blocks.get? d.rowsInBlockEx d.incBlocks (d.incRows + i) with
    | none => simp
    | some row => simp

theorem Represents.addBatch_iff (h : Represents d t) (hready : d.data ≠ none) (alloc : Nat → Bool)
    (num : Nat) (pData : Option (Nat → T)) :
    (∃ code d', d.addBatch fill alloc num pData = some (code, d') ∧
      Represents d' (t.step fill code (.addBatch alloc num pData))) ↔
    if d.colStart = 0 then pData = none → Fits d alloc num → Clean fill d num else num = 0 := by
  unfold Dataset.addBatch
  by_cases hview : d.colStart = 0
  · rw [if_neg (not_not_intro hview), if_pos hview]
    by_cases hfull : d.maxRows < d.count + num
    · rw [if_pos hfull]
      exact iff_of_true ⟨_, d, rfl, h⟩ fun _ hfits => absurd hfits.1 hfull.not_ge
    · rw [if_neg hfull, if_neg fun hnone => hready (Option.isNone_iff_eq_none.mp hnone.1)]
      obtain ⟨ok, blocks, hblocks, hfills⟩ := Blocks.fill_all alloc
        (fun _ => newRow fill d.mycols none 0) num (pData.map fun elements =>
          (List.range num).map (newRow fill d.mycols (some fun i j => elements (i * d.mycols + j))))
        h.room
      have hfits : ok = true ↔ Fits d alloc num := by
        refine (hfills.ok_iff fun data hdata => ?_).trans ?_
        · obtain ⟨elements, -, rfl⟩ := Option.map_eq_some_iff.mp hdata
          simp
        · simp [Fits, not_lt.mp hfull]
      dsimp only
      rw [hblocks]
      cases ok with
      | true =>
        rw [iff_true_intro (hfits.mp rfl), forall_true_left, ← h.fill_iff hfills]
        constructor
        · rintro ⟨code, d', hd', htable⟩
          obtain ⟨rfl, rfl⟩ := Prod.mk.inj (Option.some.inj hd')
          exact htable
        · exact fun htable => ⟨_, _, rfl, htable⟩
      | false =>
        refine iff_of_true ⟨_, _, rfl, ?_⟩ fun _ hfit => absurd (hfits.mpr hfit) nofun
        refine ⟨h.cols, h.count, fun i hi => ?_⟩
        exact (rowAt_blocks hfills.before hi d.incRows).trans (h.row i hi)
  · rw [if_pos hview, if_neg hview]
    constructor
    · rintro ⟨code, d', hd', htable⟩
      obtain ⟨rfl, rfl⟩ := Prod.mk.inj (Option.some.inj hd')
      have hcount := htable.count
      rw [Table.step, if_pos rfl, List.length_append, ← h.count, Table.fresh, List.length_map,
        List.length_range] at hcount
      omega
    · rintro rfl
      refine ⟨_, d, rfl, h.cols, ?_, fun i hi => ?_⟩
      · simp [Table.step, Table.fresh, h.count]
      · simp [Table.step, Table.fresh, h.row i hi]

def Dataset.narrow (d : Dataset Int) : COMMON.Dataset where
  rows := d.rows
  incRows := d.incRows
  incBlocks := d.incBlocks.length
  rowsInBlockEx := d.rowsInBlockEx
  maxRows := d.maxRows
  content i := if i < 0 then -1 else ((d.rowAt i.toNat).bind fun row => row[0]?).getD (-1)

theorem fill_one {α : Type} (memory : Bool) (new : Nat → α) (e start : Nat) (bs : List (Nat → α)) :
    Blocks.fill (fun _ => memory) new e start 1 none 2 0 bs =
      if bs.length ≤ start >>> e ∧ memory = false then some (false, bs)
      else some (true, Blocks.grow new e start bs) := by
  have hwrite : min (Blocks.mask e + 1 - (start &&& Blocks.mask e)) 1 = 1 := by
    have hlt := Nat.mod_lt start (Nat.two_pow_pos e)
    have hone : Blocks.mask e + 1 = 2 ^ e := Nat.sub_add_cancel (Nat.two_pow_pos e)
    rw [hone, Blocks.mask, Nat.and_two_pow_sub_one_eq_mod]
    omega
  simp [Blocks.fill, Blocks.writeNext, hwrite]

def Dataset.growBlocks (d : Dataset Int) : Dataset Int :=
  { d with incBlocks := d.incBlocks ++ [fun _ => newRow (-1) d.mycols none 0] }

theorem rowAt_growBlocks (d : Dataset Int) (k : Nat) :
    d.growBlocks.rowAt k =
      if d.narrow.capacity ≤ k ∧ k < d.narrow.capacity + 2 ^ d.rowsInBlockEx then
        some (newRow (-1) d.mycols none 0)
      else d.rowAt k := by
  have hcapacity : d.narrow.capacity = d.rows + Blocks.room d.rowsInBlockEx d.incBlocks := rfl
  change (if d.rows ≤ k then Blocks.get? d.rowsInBlockEx
      (d.incBlocks ++ [fun _ => newRow (-1) d.mycols none 0]) (k - d.rows)
    else d.data.map fun data => data k) = _
  unfold Dataset.rowAt
  by_cases hk : d.rows ≤ k
  · rw [if_pos hk, if_pos hk]
    refine (Blocks.get?_append _ _).trans (if_congr ?_ rfl rfl)
    omega
  · rw [if_neg hk, if_neg hk, if_neg (by omega)]

theorem rowAt_of_capacity_le {d : Dataset Int} {k : Nat} (h : d.narrow.capacity ≤ k) :
    d.rowAt k = none := by
  have hcapacity : d.narrow.capacity = d.rows + Blocks.room d.rowsInBlockEx d.incBlocks := rfl
  rw [Dataset.rowAt, if_pos (by omega), Blocks.get?_of_le (by omega)]

theorem narrow_content (d : Dataset Int) (k : Nat) :
    d.narrow.content k = ((d.rowAt k).bind fun row => row[0]?).getD (-1) := by
  simp [Dataset.narrow]

theorem narrow_growBlocks (d : Dataset Int) (hcols : d.mycols = 1) :
    d.growBlocks.narrow = d.narrow.pushBlock := by
  have hcontent : d.growBlocks.narrow.content = d.narrow.pushBlock.content := by
    funext i
    unfold COMMON.Dataset.pushBlock
    dsimp only
    by_cases hneg : i < 0
    · rw [if_pos (hneg.trans_le (Int.natCast_nonneg _))]
      exact (if_pos hneg).trans (if_pos hneg).symm
    · obtain ⟨k, rfl⟩ := Int.eq_ofNat_of_zero_le (not_lt.mp hneg)
      rw [narrow_content, narrow_content, rowAt_growBlocks]
      by_cases hold : k < d.narrow.capacity
      · rw [if_neg fun h => h.1.not_gt hold, if_pos (Int.ofNat_lt.mpr hold)]
      · rw [if_neg fun h => hold (Int.ofNat_lt.mp h), rowAt_of_capacity_le (not_lt.mp hold)]
        split
        · simp [newRow, hcols]
        · rfl
  have hblocks : d.growBlocks.incBlocks.length = d.incBlocks.length + 1 := by
    rw [Dataset.growBlocks, List.length_append, List.length_singleton]
  change ({ d.narrow.pushBlock with
    incBlocks := d.growBlocks.incBlocks.length
    content := d.growBlocks.narrow.content } : COMMON.Dataset) = _
  rw [hcontent, hblocks]
  rfl

theorem narrow_addBatch {d : Dataset Int} (hview : d.colStart = 0) (hready : d.data ≠ none)
    (hcols : d.mycols = 1) (memory : Bool) :
    (d.addBatch (-1) (fun _ => memory) 1 none).map (fun (code, d) => (code, d.narrow)) =
      some (d.narrow.addBatch memory) := by
  unfold Dataset.addBatch COMMON.Dataset.addBatch
  rw [if_neg (not_not_intro hview)]
  by_cases hfull : d.maxRows < d.count + 1
  · rw [if_pos hfull]
    exact congrArg some (if_pos hfull).symm
  · rw [if_neg hfull, if_neg fun hnone => hready (Option.isNone_iff_eq_none.mp hnone.1)]
    dsimp only
    have hdiv : d.narrow.incRows / 2 ^ d.narrow.rowsInBlockEx = d.incRows >>> d.rowsInBlockEx :=
      (Nat.shiftRight_eq_div_pow ..).symm
    rw [Option.map_none, fill_one,
      if_neg (show ¬ d.narrow.maxRows < d.narrow.count + 1 from hfull), hdiv]
    change _ = some (if d.incBlocks.length ≤ _ then _ else _)
    by_cases hblock : d.incBlocks.length ≤ d.incRows >>> d.rowsInBlockEx
    · rw [if_pos hblock, Blocks.grow, if_pos hblock, ← narrow_growBlocks d hcols]
      cases memory with
      | true =>
        rw [if_neg fun h => nomatch h.2]
        rfl
      | false =>
        rw [if_pos ⟨hblock, rfl⟩]
        rfl
    · rw [if_neg fun h => hblock h.1, if_neg hblock, Blocks.grow, if_neg hblock]
      rfl

/-- Rows that exist are written, `SetR` shrinks, and rows are added to a dataset that has its
memory. -/
def Allowed (d : Dataset T) : Op T → Prop
  | .init _ _ rowsInBlock _ _ _ _ => 0 < rowsInBlock
  | .addBatch _ _ _ => d.data ≠ none
  | .setR R => R ≤ d.count
  | .write index col _ => index < d.count ∧ col < d.mycols
  | .load _ blockSize _ => 0 < blockSize

/-- Where the dataset does what the call means: rows without data go where the blocks hold nothing
else, a view of another dataset's blocks is not extended, and what is loaded has another number of
rows or the same number of columns. -/
def Meets (fill : T) (d : Dataset T) : Op T → Prop
  | .addBatch alloc num pData =>
    if d.colStart = 0 then pData = none → Fits d alloc num → Clean fill d num else num = 0
  | .load table _ _ => d.data = none ∨ table.rows.length ≠ d.count ∨ table.cols = d.mycols
  | _ => True

theorem Represents.step_iff (h : Represents d t) {op : Op T} (hop : Allowed d op) :
    (∃ code d', d.step fill op = some (code, d') ∧ Represents d' (t.step fill code op)) ↔
      Meets fill d op := by
  cases op with
  | init rows cols rowsInBlock capacity data incBlocks colStart =>
    exact iff_of_true ⟨_, _, rfl, represents_init ..⟩ trivial
  | addBatch alloc num pData => exact h.addBatch_iff hop alloc num pData
  | setR R => exact iff_of_true ⟨_, _, rfl, h.setR hop⟩ trivial
  | write index col value =>
    obtain ⟨d', hd', htable⟩ := h.write fill hop.1 col value
    exact iff_of_true ⟨_, d', congrArg (Option.map _) hd', htable⟩ trivial
  | load table blockSize capacity => exact h.load_iff blockSize capacity

def Dataset.next (fill : T) (d : Dataset T) (op : Op T) : Dataset T :=
  ((d.step fill op).map Prod.snd).getD d

/-- In every state of the run the dataset shows the table that the calls so far mean, and saves
it. -/
def Agrees (fill : T) : Dataset T → Table T → List (Op T) → Prop
  | d, t, [] => Represents d t ∧ d.save = some t.saved
  | d, t, op :: ops => (Represents d t ∧ d.save = some t.saved) ∧
    ∃ code d', d.step fill op = some (code, d') ∧ Agrees fill d' (t.step fill code op) ops

theorem Agrees.represents {ops : List (Op T)} (h : Agrees fill d t ops) : Represents d t := by
  cases ops with
  | nil => exact h.1
  | cons op ops => exact h.1.1

theorem Represents.agrees_iff (h : Represents d t) {ops : List (Op T)}
    (hops : Along (Dataset.next fill) Allowed d ops) :
    Agrees fill d t ops ↔ Along (Dataset.next fill) (Meets fill) d ops := by
  induction ops generalizing d t with
  | nil => exact iff_of_true ⟨h, h.save⟩ trivial
  | cons op ops ih =>
    have hnext : ∀ {code d'}, d.step fill op = some (code, d') → d.next fill op = d' := by
      intro code d' hd'
      rw [Dataset.next, hd']
      rfl
    constructor
    · rintro ⟨-, code, d', hd', hrest⟩
      refine ⟨(h.step_iff hops.1).mp ⟨code, d', hd', hrest.represents⟩, ?_⟩
      have htail := hops.2
      rw [hnext hd'] at htail ⊢
      exact (ih hrest.represents htail).mp hrest
    · rintro ⟨hmeets, hrest⟩
      obtain ⟨code, d', hd', h'⟩ := (h.step_iff hops.1).mpr hmeets
      refine ⟨⟨h, h.save⟩, code, d', hd', ?_⟩
      have htail := hops.2
      rw [hnext hd'] at htail hrest
      exact (ih h' htail).mpr hrest

def Table.empty : Table T := ⟨0, [], fun _ hrow => absurd hrow List.not_mem_nil⟩

theorem represents_empty (maxSize : Nat) : Represents (.empty maxSize : Dataset T) .empty where
  cols := rfl
  count := rfl
  row i hi := absurd hi (Nat.not_lt_zero i)

end Sptag.COMMON.Rows
