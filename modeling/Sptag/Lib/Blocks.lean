import Mathlib

/-! Sequences of cells in blocks of a power of two, with a block allocated when the first of its
cells is needed: what a shift and a mask find, and the loop that fills a range. -/

namespace Sptag.Lib.Blocks

variable {α : Type*} {bs bs' : List (Nat → α)} {e k : Nat}

def ceilLog2 (n : Nat) : Nat := if n ≤ 1 then 0 else Nat.log2 (n - 1) + 1

def mask (e : Nat) : Nat := 2 ^ e - 1

def get? (e : Nat) (bs : List (Nat → α)) (k : Nat) : Option α :=
  (bs[k >>> e]?).map fun block => block (k &&& mask e)

def room (e : Nat) (bs : List (Nat → α)) : Nat := bs.length * 2 ^ e

theorem get?_eq (e : Nat) (bs : List (Nat → α)) (k : Nat) :
    get? e bs k = (bs[k / 2 ^ e]?).map fun block => block (k % 2 ^ e) := by
  rw [get?, mask, Nat.shiftRight_eq_div_pow, Nat.and_two_pow_sub_one_eq_mod]

theorem div_lt_iff : k / 2 ^ e < bs.length ↔ k < room e bs :=
  Nat.div_lt_iff_lt_mul (Nat.two_pow_pos e)

theorem get?_isSome : (get? e bs k).isSome ↔ k < room e bs := by
  rw [get?_eq, Option.isSome_map, ← div_lt_iff]
  simp

theorem get?_eq_some_getD (h : k < room e bs) (d : α) : get? e bs k =
    some ((get? e bs k).getD d) := by
  obtain ⟨x, hx⟩ := Option.isSome_iff_exists.mp (get?_isSome.mpr h)
  rw [hx, Option.getD_some]

theorem get?_of_le (h : room e bs ≤ k) : get? e bs k = none := by
  rw [← Option.not_isSome_iff_eq_none, get?_isSome]
  exact h.not_gt

theorem get?_append (new : Nat → α) (k : Nat) :
    get? e (bs ++ [new]) k =
      if room e bs ≤ k ∧ k < room e bs + 2 ^ e then some (new (k % 2 ^ e)) else get? e bs k := by
  rw [get?_eq, get?_eq]
  split
  · rename_i h
    have hdiv : k / 2 ^ e = bs.length := by
      rw [Nat.div_eq_iff (Nat.two_pow_pos e)]
      unfold room at h
      omega
    rw [hdiv, List.getElem?_concat_length, Option.map_some]
  · rename_i h
    have hne : k / 2 ^ e ≠ bs.length := by
      intro heq
      rw [Nat.div_eq_iff (Nat.two_pow_pos e)] at heq
      unfold room at h
      have := Nat.two_pow_pos e
      omega
    rw [List.getElem?_append]
    split
    · rfl
    · rename_i hge
      rw [List.getElem?_eq_none (l := bs) (by omega), List.getElem?_eq_none]
      rw [List.length_singleton]
      omega

def writeAt (bs : List (Nat → α)) (i pos : Nat) (chunk : List α) : Option (List (Nat → α)) :=
  (bs[i]?).map fun block =>
    bs.set i fun p => if pos ≤ p then (chunk[p - pos]?).getD (block p) else block p

theorem div_eq_of_within {j n : Nat} (hfits : k % 2 ^ e + n ≤ 2 ^ e) (hlow : k ≤ j)
    (hhigh : j < k + n) : j / 2 ^ e = k / 2 ^ e ∧ j % 2 ^ e = k % 2 ^ e + (j - k) := by
  have hk := Nat.div_add_mod k (2 ^ e)
  refine (Nat.div_mod_unique (Nat.two_pow_pos e)).mpr ⟨?_, ?_⟩
  · omega
  · omega

theorem writeAt_spec (chunk : List α) (hk : k < room e bs)
    (hfits : k % 2 ^ e + chunk.length ≤ 2 ^ e) :
    ∃ bs', writeAt bs (k >>> e) (k &&& mask e) chunk = some bs' ∧ bs'.length = bs.length ∧
      ∀ j, get? e bs' j = if k ≤ j ∧ j < k + chunk.length then chunk[j - k]? else get? e bs j := by
  have hlt : k / 2 ^ e < bs.length := div_lt_iff.mpr hk
  rw [Nat.shiftRight_eq_div_pow, mask, Nat.and_two_pow_sub_one_eq_mod, writeAt,
    List.getElem?_eq_getElem hlt, Option.map_some]
  refine ⟨_, rfl, List.length_set, fun j => ?_⟩
  rw [get?_eq, get?_eq]
  by_cases hin : k ≤ j ∧ j < k + chunk.length
  · obtain ⟨hdiv, hmod⟩ := div_eq_of_within hfits hin.1 hin.2
    have hj : j - k < chunk.length := by omega
    rw [if_pos hin, hdiv, List.getElem?_set_self hlt, Option.map_some, hmod]
    dsimp only
    rw [if_pos (Nat.le_add_right _ _), Nat.add_sub_cancel_left, List.getElem?_eq_getElem hj,
      Option.getD_some]
  · rw [if_neg hin]
    by_cases hdiv : j / 2 ^ e = k / 2 ^ e
    · rw [hdiv, List.getElem?_set_self hlt, List.getElem?_eq_getElem hlt, Option.map_some,
        Option.map_some]
      dsimp only
      split
      · rename_i hle
        have hj := Nat.div_add_mod j (2 ^ e)
        have hk := Nat.div_add_mod k (2 ^ e)
        rw [hdiv] at hj
        rw [List.getElem?_eq_none (by omega), Option.getD_none]
      · rfl
    · rw [List.getElem?_set_ne (Ne.symm hdiv)]

theorem add_le_room {n : Nat} (hk : k < room e bs) (hfits : k % 2 ^ e + n ≤ 2 ^ e) :
    k + n ≤ room e bs := by
  have hdiv := Nat.div_add_mod k (2 ^ e)
  have hroom : (k / 2 ^ e + 1) * 2 ^ e ≤ room e bs :=
    Nat.mul_le_mul_right _ (Nat.succ_le_of_lt (div_lt_iff.mpr hk))
  rw [Nat.succ_mul, Nat.mul_comm] at hroom
  omega

def grow (new : Nat → α) (e k : Nat) (bs : List (Nat → α)) : List (Nat → α) :=
  if bs.length ≤ k >>> e then bs ++ [new] else bs

theorem grow_spec (new : Nat → α) (hk : k ≤ room e bs) :
    k < room e (grow new e k bs) ∧ room e bs ≤ room e (grow new e k bs) ∧
      (room e (grow new e k bs) = room e bs ∨
        bs.length ≤ k >>> e ∧ room e (grow new e k bs) = room e bs + 2 ^ e) ∧
      (∀ j, j < room e bs → get? e (grow new e k bs) j = get? e bs j) ∧
      ∀ j, (get? e (grow new e k bs) j).getD (new (j % 2 ^ e)) =
        (get? e bs j).getD (new (j % 2 ^ e)) := by
  have hpos := Nat.two_pow_pos e
  unfold grow
  rw [Nat.shiftRight_eq_div_pow]
  split
  · have hroom : room e (bs ++ [new]) = room e bs + 2 ^ e := by
      rw [room, room, List.length_append, List.length_singleton, Nat.succ_mul]
    rename_i hge
    refine ⟨by omega, by omega, .inr ⟨hge, hroom⟩, fun j hj => ?_, fun j => ?_⟩
    · rw [get?_append, if_neg (by omega)]
    · rw [get?_append]
      split
      · rename_i h
        rw [get?_of_le h.1, Option.getD_some, Option.getD_none]
      · rfl
  · rename_i hlt
    exact ⟨div_lt_iff.mp (not_le.mp hlt), le_rfl, .inl rfl, fun _ _ => rfl, fun _ => rfl⟩

/-- The next `n` elements of `src` go to the cells from `k` on; where there is no `src` the cells
stay. -/
def writeNext (e k written n : Nat) (src : Option (List α)) (bs : List (Nat → α)) :
    Option (Bool × List (Nat → α)) :=
  match src with
  | none => some (true, bs)
  | some data =>
    let chunk := (data.drop written).take n
    (writeAt bs (k >>> e) (k &&& mask e) chunk).map fun bs => (decide (n ≤ chunk.length), bs)

def source (src : Option (List α)) (i : Nat) (old : Option α) : Option α :=
  match src with
  | some data => data[i]?
  | none => old

theorem writeNext_spec {n : Nat} (src : Option (List α)) (written : Nat) (hk : k < room e bs)
    (hfits : k % 2 ^ e + n ≤ 2 ^ e) :
    ∃ complete bs', writeNext e k written n src bs = some (complete, bs') ∧
      bs'.length = bs.length ∧ (∀ j, j < k → get? e bs' j = get? e bs j) ∧
      (∀ j, k + n ≤ j → get? e bs' j = get? e bs j) ∧
      (complete = true → ∀ i, i < n →
        get? e bs' (k + i) = source src (written + i) (get? e bs (k + i))) ∧
      ((∀ data ∈ src, written + n ≤ data.length) → complete = true) := by
  cases src with
  | none => exact ⟨true, bs, rfl, rfl, fun _ _ => rfl, fun _ _ => rfl, fun _ _ _ =>
      rfl, fun _ => rfl⟩
  | some data =>
    have hlen : ((data.drop written).take n).length ≤ n := by simp
    obtain ⟨bs', hbs', hsize, hget⟩ := writeAt_spec ((data.drop written).take n) hk
      ((Nat.add_le_add_left hlen _).trans hfits)
    refine ⟨decide (n ≤ ((data.drop written).take n).length), bs', ?_, hsize, fun j hj => ?_,
      fun j hj => ?_, fun hcomplete i hi => ?_, fun hlong => ?_⟩
    · rw [writeNext, hbs', Option.map_some]
    · rw [hget, if_neg fun h => h.1.not_gt hj]
    · rw [hget, if_neg fun h => (hj.trans_lt' (h.2.trans_le (Nat.add_le_add_left hlen k))).false]
    · rw [hget, if_pos ⟨Nat.le_add_right _ _, by have := of_decide_eq_true hcomplete; omega⟩,
        Nat.add_sub_cancel_left, List.getElem?_take_of_lt hi, List.getElem?_drop, source]
    · have := hlong data rfl
      rw [decide_eq_true_eq, List.length_take, List.length_drop]
      omega

/-- The cells from `start` on are filled up to `length` of them, a block at a time: with `src`, or
with nothing but new blocks. The blocks that can be had are those that `alloc` says. -/
def fill (alloc : Nat → Bool) (new : Nat → α) (e start length : Nat) (src : Option (List α)) :
    Nat → Nat → List (Nat → α) → Option (Bool × List (Nat → α))
  | 0, _, _ => none
  | rounds + 1, written, bs =>
    if written < length then
      let curBlock := (start + written) >>> e
      if bs.length ≤ curBlock ∧ alloc curBlock = false then some (false, bs)
      else
        let curBlockPos := (start + written) &&& mask e
        let toWrite := min (mask e + 1 - curBlockPos) (length - written)
        (writeNext e (start + written) written toWrite src (grow new e (start + written) bs)).bind
          fun (complete, bs) =>
            if complete then fill alloc new e start length src rounds (written + toWrite) bs
            else some (false, bs)
    else some (true, bs)

def filled (new : Nat → α) (e start : Nat) (src : Option (List α)) (bs : List (Nat → α)) (i : Nat) :
    Option α :=
  source src i (some ((get? e bs (start + i)).getD (new ((start + i) % 2 ^ e))))

variable {alloc : Nat → Bool} {new : Nat → α} {start length written : Nat} {src : Option (List α)}

structure Fills (alloc : Nat → Bool) (new : Nat → α) (e start length : Nat) (src : Option (List α))
    (written : Nat) (bs : List (Nat → α)) (ok : Bool) (bs' : List (Nat → α)) : Prop where
  room : room e bs ≤ room e bs'
  before : ∀ k, k < start + written → get? e bs' k = get? e bs k
  enough : ok = true → start + length ≤ Blocks.room e bs'
  range : ok = true → ∀ i, written ≤ i → i < length →
    get? e bs' (start + i) = filled new e start src bs i
  ok_iff : (∀ data ∈ src, length ≤ data.length) →
    (ok = true ↔ ∀ i, written ≤ i → i < length →
      start + i < Blocks.room e bs ∨ alloc ((start + i) / 2 ^ e) = true)

/-- A block for the cell `k` was there or could be had. -/
structure Grown (alloc : Nat → Bool) (new : Nat → α) (e k : Nat) (bs grown : List (Nat → α)) :
    Prop where
  lt_room : k < room e grown
  le : room e bs ≤ room e grown
  old : ∀ j, j < room e bs → get? e grown j = get? e bs j
  fresh : ∀ j, (get? e grown j).getD (new (j % 2 ^ e)) = (get? e bs j).getD (new (j % 2 ^ e))
  had : ∀ j, k ≤ j → j < room e grown → j < room e bs ∨ alloc (j / 2 ^ e) = true

theorem grow_grown (hk : k ≤ room e bs)
    (hhad : ¬ (bs.length ≤ k >>> e ∧ alloc (k >>> e) = false)) :
    Grown alloc new e k bs (grow new e k bs) := by
  obtain ⟨hlt, hle, hhow, hold, hfresh⟩ := grow_spec new hk
  refine ⟨hlt, hle, hold, hfresh, fun j hj hin => ?_⟩
  rcases hhow with heq | ⟨hlen, hmore⟩
  · exact .inl (heq ▸ hin)
  have halloc : alloc (k >>> e) = true :=
    (Bool.eq_false_or_eq_true _).resolve_right fun hno => hhad ⟨hlen, hno⟩
  rw [Nat.shiftRight_eq_div_pow] at hlen halloc
  refine or_iff_not_imp_left.mpr fun hge => ?_
  -- the cells that are new are those of the block of `k`
  have hlow : bs.length ≤ j / 2 ^ e := not_lt.mp (mt div_lt_iff.mp hge)
  have hdiv : ∀ j, j < room e bs + 2 ^ e → j / 2 ^ e < bs.length + 1 := by
    intro j hj
    rwa [Nat.div_lt_iff_lt_mul (Nat.two_pow_pos e), Nat.succ_mul]
  have hj := hdiv j (hin.trans_eq hmore)
  have hk := hdiv k (hlt.trans_eq hmore)
  have heq : j / 2 ^ e = k / 2 ^ e := by omega
  rw [heq, halloc]

/-- The cells of one block are written, and then the rest. -/
theorem fills_of_chunk {n : Nat} {grown bs₁ bs' : List (Nat → α)} {ok : Bool}
    (hroom : start + written ≤ room e bs) (hg : Grown alloc new e (start + written) bs grown)
    (hfits : (start + written) % 2 ^ e + n ≤ 2 ^ e) (hroom₁ : room e bs₁ = room e grown)
    (hbelow : ∀ j, j < start + written → get? e bs₁ j = get? e grown j)
    (habove : ∀ j, start + written + n ≤ j → get? e bs₁ j = get? e grown j)
    (hrange : ∀ i, i < n → get? e bs₁ (start + written + i) =
      source src (written + i) (get? e grown (start + written + i)))
    (h : Fills alloc new e start length src (written + n) bs₁ ok bs') :
    Fills alloc new e start length src written bs ok bs' := by
  have hchunk := add_le_room hg.lt_room hfits
  refine ⟨(hg.le.trans hroom₁.ge).trans h.room, fun j hj => ?_, h.enough,
    fun hok i hi hi' => ?_, fun hlong => (h.ok_iff hlong).trans ?_⟩
  · rw [h.before j (by omega), hbelow j hj, hg.old j (hj.trans_le hroom)]
  · by_cases hin : i < written + n
    · have hlt : start + i < room e grown := by omega
      obtain ⟨i, rfl⟩ := Nat.exists_eq_add_of_le hi
      rw [h.before _ (by omega), ← Nat.add_assoc, hrange i (by omega), filled, Nat.add_assoc,
        get?_eq_some_getD hlt (new ((start + (written + i)) % 2 ^ e)), hg.fresh]
    · rw [h.range hok i (not_lt.mp hin) hi', filled, filled, habove _ (by omega), hg.fresh]
  · rw [hroom₁]
    constructor
    · intro hcells i hi hi'
      by_cases hin : i < written + n
      · exact hg.had _ (by omega) (by omega)
      · exact (hcells i (not_lt.mp hin) hi').elim (hg.had _ (by omega)) .inr
    · intro hcells i hi hi'
      exact (hcells i (by omega) hi').imp_left fun hlt => hlt.trans_le hg.le

theorem fill_spec {rounds : Nat} (hroom : start + written ≤ room e bs) (hw : written ≤ length)
    (hrounds : length - written < rounds) :
    ∃ ok bs', fill alloc new e start length src rounds written bs = some (ok, bs') ∧
      Fills alloc new e start length src written bs ok bs' := by
  induction rounds generalizing written bs with
  | zero => exact absurd hrounds (Nat.not_lt_zero _)
  | succ rounds ih =>
    unfold fill
    by_cases hmore : written < length
    · rw [if_pos hmore]
      dsimp only
      by_cases hstop : bs.length ≤ (start + written) >>> e ∧ alloc ((start + written) >>> e) = false
      · rw [if_pos hstop]
        refine ⟨false, bs, rfl, le_rfl, fun _ _ => rfl, nofun, nofun, fun _ => ⟨nofun, fun h => ?_⟩⟩
        rw [Nat.shiftRight_eq_div_pow] at hstop
        rcases h written le_rfl hmore with hlt | halloc
        · exact absurd (div_lt_iff.mpr hlt) hstop.1.not_gt
        · exact absurd (halloc.symm.trans hstop.2) nofun
      · rw [if_neg hstop]
        have hg : Grown alloc new e (start + written) bs (grow new e (start + written) bs) :=
          grow_grown hroom hstop
        generalize grow new e (start + written) bs = grown at hg ⊢
        have hpos := Nat.mod_lt (start + written) (Nat.two_pow_pos e)
        have hone : mask e + 1 = 2 ^ e := Nat.sub_add_cancel (Nat.two_pow_pos e)
        have hmask : (start + written) &&& mask e = (start + written) % 2 ^ e := by
          rw [mask, Nat.and_two_pow_sub_one_eq_mod]
        rw [hmask, hone]
        obtain ⟨n, hn⟩ : ∃ n, min (2 ^ e - (start + written) % 2 ^ e) (length - written) = n :=
          ⟨_, rfl⟩
        rw [hn]
        have hfits : (start + written) % 2 ^ e + n ≤ 2 ^ e := by omega
        obtain ⟨complete, bs₁, hbs₁, hsize, hbelow, habove, hrange, hcomplete⟩ :=
          writeNext_spec src written hg.lt_room hfits
        have hroom₁ : room e bs₁ = room e grown := by rw [room, hsize, room]
        rw [hbs₁, Option.bind_some]
        cases complete with
        | false =>
          refine ⟨false, bs₁, rfl, hg.le.trans hroom₁.ge, fun j hj => ?_, nofun, nofun,
            fun hlong => ?_⟩
          · exact (hbelow j hj).trans (hg.old j (hj.trans_le hroom))
          · refine absurd (hcomplete fun data hdata => ?_) nofun
            have := hlong data hdata
            omega
        | true =>
          have hnext : start + (written + n) ≤ room e bs₁ := by
            rw [← Nat.add_assoc, hroom₁]
            exact add_le_room hg.lt_room hfits
          obtain ⟨ok, bs', hbs', hfills⟩ := ih hnext (by omega) (by omega)
          exact ⟨ok, bs', hbs', fills_of_chunk hroom hg hfits hroom₁ hbelow habove
            (hrange rfl) hfills⟩
    · rw [if_neg hmore]
      obtain rfl : written = length := le_antisymm hw (not_lt.mp hmore)
      exact ⟨true, bs, rfl, le_rfl, fun _ _ => rfl, fun _ => hroom,
        fun _ i hi hi' => absurd hi hi'.not_ge,
        fun _ => ⟨fun _ i hi hi' => absurd hi hi'.not_ge, fun _ => rfl⟩⟩

theorem Fills.enough_data {data : List α}
    (h : Fills alloc new e start length (some data) 0 bs true bs') : length ≤ data.length := by
  by_contra hlt
  have hroom := h.enough rfl
  have hcell : (get? e bs' (start + data.length)).isSome := get?_isSome.mpr (by omega)
  rw [h.range rfl data.length (Nat.zero_le _) (not_le.mp hlt), filled, source,
    List.getElem?_eq_none le_rfl] at hcell
  exact absurd hcell nofun

theorem fill_all (alloc : Nat → Bool) (new : Nat → α) (length : Nat) (src : Option (List α))
    (hroom : start ≤ room e bs) :
    ∃ ok bs', fill alloc new e start length src (length + 1) 0 bs = some (ok, bs') ∧
      Fills alloc new e start length src 0 bs ok bs' :=
  fill_spec hroom (Nat.zero_le length) (Nat.lt_succ_self length)

theorem fill_singleton (halloc : ∀ i, alloc i = true) (new : Nat → α) (e start : Nat) (x : α)
    (bs : List (Nat → α)) :
    fill alloc new e start 1 (some [x]) 2 0 bs =
      (writeAt (grow new e start bs) (start >>> e) (start &&& mask e) [x]).map fun bs =>
      (true, bs) := by
  have hwrite : min (mask e + 1 - (start &&& mask e)) 1 = 1 := by
    have hlt := Nat.mod_lt start (Nat.two_pow_pos e)
    have hone : mask e + 1 = 2 ^ e := Nat.sub_add_cancel (Nat.two_pow_pos e)
    rw [hone, mask, Nat.and_two_pow_sub_one_eq_mod]
    omega
  cases hbs : writeAt (grow new e start bs) (start >>> e) (start &&& mask e) [x] <;>
    simp [fill, writeNext, hwrite, halloc, hbs]

def Holds (e : Nat) (bs : List (Nat → α)) (xs : List α) : Prop :=
  ∀ i, i < xs.length → get? e bs i = xs[i]?

variable {xs : List α}

theorem Holds.room (h : Holds e bs xs) : xs.length ≤ room e bs := by
  by_contra hlt
  have hpos : 0 < xs.length := (Nat.zero_le _).trans_lt (not_le.mp hlt)
  have hlast : (get? e bs (xs.length - 1)).isSome := by
    rw [h _ (Nat.sub_one_lt hpos.ne'), List.getElem?_eq_getElem (Nat.sub_one_lt hpos.ne')]
    rfl
  rw [get?_isSome] at hlast
  omega

theorem Holds.mono (h : Holds e bs xs) (hsame : ∀ k, k < xs.length → get? e bs' k = get? e bs k) :
    Holds e bs' xs := fun i hi => (hsame i hi).trans (h i hi)

theorem Holds.append {data : List α} (h : Holds e bs xs) (hlen : length ≤ data.length)
    (hfills : Fills alloc new e xs.length length (some data) 0 bs true bs') :
    Holds e bs' (xs ++ data.take length) := by
  intro i hi
  rw [List.length_append, List.length_take, min_eq_left hlen] at hi
  by_cases hold : i < xs.length
  · rw [List.getElem?_append_left hold, ← h i hold]
    exact hfills.before i hold
  · obtain ⟨k, rfl⟩ := Nat.exists_eq_add_of_le (not_lt.mp hold)
    have hk : k < length := by omega
    rw [List.getElem?_append_right (Nat.le_add_right _ _), Nat.add_sub_cancel_left,
      List.getElem?_take_of_lt hk]
    exact hfills.range rfl k (Nat.zero_le k) hk

def readAt (bs : List (Nat → α)) (i pos n : Nat) : Option (List α) :=
  (bs[i]?).map fun block => (List.range n).map fun p => block (pos + p)

theorem Holds.readAt {n : Nat} (h : Holds e bs xs) (hn : 0 < n) (hk : k + n ≤ xs.length)
    (hfits : k % 2 ^ e + n ≤ 2 ^ e) :
    readAt bs (k >>> e) (k &&& mask e) n = some ((xs.drop k).take n) := by
  have hlt : k / 2 ^ e < bs.length :=
    div_lt_iff.mpr ((Nat.lt_add_of_pos_right hn).trans_le (hk.trans h.room))
  rw [Blocks.readAt, Nat.shiftRight_eq_div_pow, mask, Nat.and_two_pow_sub_one_eq_mod,
    List.getElem?_eq_getElem hlt, Option.map_some, Option.some_inj]
  refine List.ext_getElem? fun i => ?_
  by_cases hi : i < n
  · obtain ⟨hdiv, hmod⟩ := div_eq_of_within hfits (Nat.le_add_right k i) (Nat.add_lt_add_left hi k)
    have hget := h (k + i) (by omega)
    rw [get?_eq, hdiv, hmod, Nat.add_sub_cancel_left, List.getElem?_eq_getElem hlt,
      Option.map_some] at hget
    rw [List.getElem?_take_of_lt hi, List.getElem?_drop, ← hget]
    simp [hi]
  · rw [List.getElem?_eq_none (by simp; omega), List.getElem?_eq_none (by simp; omega)]

theorem Holds.readBlock {i n : Nat} (h : Holds e bs xs) (hn : 0 < n) (hle : n ≤ 2 ^ e)
    (hin : i * 2 ^ e + n ≤ xs.length) :
    Blocks.readAt bs i 0 n = some ((xs.drop (i * 2 ^ e)).take n) := by
  have hmod : i * 2 ^ e % 2 ^ e = 0 := Nat.mul_mod_left ..
  have hread := h.readAt hn hin (by rwa [hmod, Nat.zero_add])
  rwa [mask, Nat.and_two_pow_sub_one_eq_mod, hmod, Nat.shiftRight_eq_div_pow,
    Nat.mul_div_cancel _ (Nat.two_pow_pos e)] at hread

def readRange (e start length : Nat) (bs : List (Nat → α)) : Nat → Nat → Option (List α)
  | 0, _ => none
  | rounds + 1, copied =>
    if copied < length then do
      let blockOffset := (start + copied) &&& mask e
      let toCopy := min (mask e + 1 - blockOffset) (length - copied)
      let chunk ← readAt bs ((start + copied) >>> e) blockOffset toCopy
      let rest ← readRange e start length bs rounds (copied + toCopy)
      return chunk ++ rest
    else some []

theorem Holds.readRange {rounds copied : Nat} (h : Holds e bs xs)
    (hrange : start + length ≤ xs.length)
    (hcopied : copied ≤ length) (hrounds : length - copied < rounds) :
    readRange e start length bs rounds copied =
      some ((xs.drop (start + copied)).take (length - copied)) := by
  induction rounds generalizing copied with
  | zero => exact absurd hrounds (Nat.not_lt_zero _)
  | succ rounds ih =>
    unfold Blocks.readRange
    by_cases hmore : copied < length
    · have hmask : (start + copied) &&& mask e = (start + copied) % 2 ^ e := by
        rw [mask, Nat.and_two_pow_sub_one_eq_mod]
      have hlt := Nat.mod_lt (start + copied) (Nat.two_pow_pos e)
      have hone : mask e + 1 = 2 ^ e := Nat.sub_add_cancel (Nat.two_pow_pos e)
      obtain ⟨n, hn⟩ : ∃ n, min (2 ^ e - (start + copied) % 2 ^ e) (length - copied) = n := ⟨_, rfl⟩
      have hin : start + copied + n ≤ xs.length := by omega
      have hchunk := h.readAt (by omega) hin (by omega)
      have hnext : copied + n ≤ length := by omega
      have hrest := ih hnext (by omega)
      rw [if_pos hmore]
      dsimp only
      rw [← hmask, ← hone] at hn
      rw [hn, hchunk, hrest]
      simp only [Option.bind_eq_bind, Option.bind_some]
      refine congrArg some ?_
      have hsplit : length - copied = n + (length - (copied + n)) := by omega
      rw [hsplit, List.take_add, List.drop_drop, ← Nat.add_assoc]
    · rw [if_neg hmore, Nat.sub_eq_zero_of_le (not_lt.mp hmore), List.take_zero]

end Sptag.Lib.Blocks
