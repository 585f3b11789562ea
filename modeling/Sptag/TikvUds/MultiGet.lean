import Sptag.Lib.Codec
import Sptag.TikvUds.Server

/-! The answer to a multi-get of `main.go`: the values of all batches, measured and then written
into one payload, for any setting of the batch size. -/

namespace Sptag.TikvUds

open Lib

def getenvDefault (v default : List Char) : List Char := if v = [] then default else v

def atoiDigits (s : List Char) : Option Nat :=
  if s = [] then none
  else s.foldlM (fun n c => if c.isDigit then some (10 * n + (c.toNat - 48)) else none) 0

def mustAtoi : List Char → Option Int
  | '-' :: s => (atoiDigits s).bind fun n => if n ≤ 2 ^ 63 then some (-n) else none
  | '+' :: s => (atoiDigits s).bind fun n => if n < 2 ^ 63 then some n else none
  | s => (atoiDigits s).bind fun n => if n < 2 ^ 63 then some n else none

def maxBatchOf (setting : List Char) : Option Int :=
  mustAtoi (getenvDefault setting ['2', '5', '6'])

def measure (results : List (Option Bytes)) : Nat :=
  results.foldl (fun size r =>
    let size := size + 1
    match r with
    | some val => size + (4 + val.length)
    | none => size) 4

/-- The second pass; no answer where an index is out of range. -/
def encodeFrom (payload : Bytes) (off : Nat) : List (Option Bytes) → Option Bytes
  | [] => some payload
  | some val :: results => do
    let payload ← copyAt payload off [1]
    let off := off + 1
    let payload ← copyAt payload off (leBytes 4 val.length)
    let off := off + 4
    let payload ← copyAt payload off val
    encodeFrom payload (off + val.length) results
  | none :: results => do
    let payload ← copyAt payload off [0]
    encodeFrom payload (off + 1) results

def encodeMultiGet (n : Nat) (results : List (Option Bytes)) : Option Bytes := do
  let payload := List.replicate (measure results) 0
  let payload ← copyAt payload 0 (leBytes 4 n)
  encodeFrom payload 4 results

def readResult : Reader UInt8 (Option Bytes) := do
  let flag ← readFront 1
  if flag = [1] then do
    let len ← readFront 4
    some <$> readFront (leVal len)
  else do
    guard (flag = [0])
    pure none

def readResults : Nat → Reader UInt8 (List (Option Bytes))
  | 0 => pure []
  | n + 1 => do
    let r ← readResult
    let results ← readResults n
    pure (r :: results)

def readPayload : Reader UInt8 (List (Option Bytes)) := do
  let n ← readFront 4
  readResults (leVal n)

section Batches

variable (sv : Server) (store : Bytes → Option Bytes)

def serve : Phase → Option Phase
  | .calling (.batchGet keysRaw results start stop) =>
    resume sv (.batchGet keysRaw results start stop)
      (.values (.ok (((keysRaw.drop start).take (stop - start)).map store)))
  | phase => some phase

def serveN : Nat → Option Phase → Option Phase
  | 0, phase => phase
  | k + 1, phase => serveN k (phase.bind (serve sv store))

def requestKeys (n : Nat) (keysRawBytes : Bytes) : List Bytes :=
  (List.range n).map fun i => sv.keyWithNS ((keysRawBytes.drop (i * 8)).take 8)

def found (n : Nat) (keysRawBytes : Bytes) : List (Option Bytes) :=
  (requestKeys sv n keysRawBytes).map store

/-- The handler comes to an answer, and the answer decodes to what the store has for the keys. -/
def Answers (n : Nat) (keysRawBytes : Bytes) : Prop :=
  ∃ k payload, serveN sv store k (handle sv (.multiGet n keysRawBytes)) =
      some (.locking statusOK payload) ∧
    encodeMultiGet n (found sv store n keysRawBytes) = some payload ∧
    readPayload payload = some (found sv store n keysRawBytes, [])

end Batches

section Payload

variable {results : List (Option Bytes)} {n : Nat}

def resultBytes : Option Bytes → Bytes
  | some val => 1 :: (leBytes 4 val.length ++ val)
  | none => [0]

theorem multiGetPayload_eq (n : Nat) (results : List (Option Bytes)) :
    multiGetPayload n results = leBytes 4 n ++ results.flatMap resultBytes := by
  rw [multiGetPayload]
  rfl

theorem measure_eq (results : List (Option Bytes)) :
    measure results = 4 + (results.flatMap resultBytes).length := by
  have hfold : ∀ size, results.foldl (fun size r =>
      let size := size + 1
      match r with
      | some val => size + (4 + val.length)
      | none => size) size = size + (results.flatMap resultBytes).length := by
    induction results with
    | nil => exact fun size => rfl
    | cons r results ih =>
      intro size
      rw [List.foldl_cons, ih, List.flatMap_cons, List.length_append]
      cases r with
      | none => simp [resultBytes, Nat.add_assoc]
      | some val =>
        simp [resultBytes]
        omega
  exact hfold 4

theorem encodeFrom_append {done back : Bytes}
    (h : back.length = (results.flatMap resultBytes).length) :
    encodeFrom (done ++ back) done.length results = some (done ++ results.flatMap resultBytes) := by
  induction results generalizing done back with
  | nil =>
    rw [List.eq_nil_of_length_eq_zero h]
    rfl
  | cons r results ih =>
    rw [List.flatMap_cons, List.length_append] at h
    cases r with
    | none =>
      have hlen : 1 + (results.flatMap resultBytes).length = back.length := h.symm
      rw [encodeFrom, copyAt_append (by rw [List.length_singleton]; omega)]
      have hrest := @ih (done ++ [0]) (back.drop 1) (by rw [List.length_drop]; omega)
      rw [List.length_append] at hrest
      rw [List.flatMap_cons, ← List.append_assoc]
      exact hrest
    | some val =>
      have hlen : back.length = 5 + val.length + (results.flatMap resultBytes).length := by
        rw [h]
        simp [resultBytes]
        omega
      have hflag := @copyAt_append _ done back [1] (by rw [List.length_singleton]; omega)
      have hsize := @copyAt_append _ (done ++ [1]) (back.drop 1) (leBytes 4 val.length)
        (by rw [leBytes_length, List.length_drop]; omega)
      have hval := @copyAt_append _ (done ++ [1] ++ leBytes 4 val.length)
        ((back.drop 1).drop 4) val (by simp only [List.length_drop]; omega)
      have hrest := @ih (done ++ [1] ++ leBytes 4 val.length ++ val)
        (((back.drop 1).drop 4).drop val.length) (by simp only [List.length_drop]; omega)
      simp only [List.length_append, List.length_singleton, leBytes_length] at hsize hval hrest
      rw [encodeFrom, hflag]
      simp only [Option.bind_eq_bind, Option.bind_some, List.length_singleton]
      rw [hsize]
      simp only [Option.bind_some]
      rw [hval, Option.bind_some, hrest]
      simp [resultBytes]

theorem encodeMultiGet_eq (n : Nat) (results : List (Option Bytes)) :
    encodeMultiGet n results = some (multiGetPayload n results) := by
  have hlen : (List.replicate (measure results) (0 : UInt8)).length =
      4 + (results.flatMap resultBytes).length := by rw [List.length_replicate, measure_eq]
  have hcount := @copyAt_append UInt8 [] (List.replicate (measure results) 0) (leBytes 4 n)
    (by rw [leBytes_length, hlen]; exact Nat.le_add_right _ _)
  have hrest := @encodeFrom_append results (leBytes 4 n)
    ((List.replicate (measure results) 0).drop 4)
    (by rw [List.length_drop, hlen, Nat.add_sub_cancel_left])
  simp only [List.nil_append, List.length_nil, leBytes_length] at hcount hrest
  rw [encodeMultiGet, hcount, multiGetPayload_eq]
  exact hrest

theorem reads_result {r : Option Bytes} (h : ∀ val, r = some val → val.length < 2 ^ 32) :
    Reads readResult (resultBytes r) r := by
  cases r with
  | none =>
    refine (reads_readFront (x := [0]) rfl).bind_pure ?_
    rfl
  | some val =>
    have hlen := leVal_leBytes_of_lt (w := 4) (h val rfl)
    refine (reads_readFront (x := [1]) rfl).bind ?_
    rw [if_pos rfl]
    refine (reads_readFront (leBytes_length 4 _)).bind ?_
    rw [hlen]
    exact (reads_readFront rfl).map some

theorem reads_results (h : ∀ val, some val ∈ results → val.length < 2 ^ 32) :
    Reads (readResults results.length) (results.flatMap resultBytes) results := by
  induction results with
  | nil => exact reads_pure []
  | cons r results ih =>
    rw [List.length_cons, readResults, List.flatMap_cons]
    have hr := reads_result fun val hval => h val (hval ▸ List.mem_cons_self)
    exact hr.bind ((ih fun val hval => h val (List.mem_cons_of_mem r hval)).bind_pure rfl)

theorem reads_payload (hcount : results.length < 2 ^ 32)
    (h : ∀ val, some val ∈ results → val.length < 2 ^ 32) :
    Reads readPayload (multiGetPayload results.length results) results := by
  rw [multiGetPayload_eq]
  refine (reads_readFront (leBytes_length 4 _)).bind ?_
  rw [leVal_leBytes_of_lt (w := 4) hcount]
  exact reads_results h

theorem leVal_lt (bs : Bytes) : leVal bs < 256 ^ bs.length := by
  induction bs with
  | nil => exact Nat.one_pos
  | cons b bs ih =>
    have hb : b.toNat < 256 := b.toNat_lt
    rw [leVal, List.length_cons, pow_succ']
    omega

theorem readResult_lt {s s' : Bytes} {val : Bytes} (h : readResult s = some (some val, s')) :
    val.length < 2 ^ 32 := by
  obtain ⟨flag, s1, -, hbody⟩ := reader_bind_some h
  split at hbody
  · obtain ⟨len, s2, hlen, hval⟩ := reader_bind_some hbody
    obtain ⟨⟨x, s3⟩, hx, heq⟩ := Option.bind_eq_some_iff.mp hval
    obtain ⟨hsome, -⟩ := Prod.mk.inj (Option.some.inj heq)
    cases hsome
    rw [length_of_readFront hx]
    have hlt := leVal_lt len
    rwa [length_of_readFront hlen] at hlt
  · obtain ⟨u, s2, -, hpure⟩ := reader_bind_some hbody
    cases hpure

theorem readResults_lt {s s' : Bytes} (h : readResults n s = some (results, s')) :
    ∀ val, some val ∈ results → val.length < 2 ^ 32 := by
  induction n generalizing s results with
  | zero =>
    cases h
    exact fun val hval => absurd hval List.not_mem_nil
  | succ n ih =>
    obtain ⟨r, s1, hr, hbody⟩ := reader_bind_some h
    obtain ⟨rest, s2, hrest, hpure⟩ := reader_bind_some hbody
    cases hpure
    intro val hval
    rcases List.mem_cons.mp hval with heq | hmem
    · exact readResult_lt (heq ▸ hr)
    · exact ih hrest val hmem

theorem readPayload_lt {s s' : Bytes} (h : readPayload s = some (results, s')) :
    ∀ val, some val ∈ results → val.length < 2 ^ 32 := by
  obtain ⟨count, s1, -, hbody⟩ := reader_bind_some h
  exact readResults_lt hbody

end Payload

section Run

variable {sv : Server} {store : Bytes → Option Bytes} {keysRaw : List Bytes}

def filled (store : Bytes → Option Bytes) (keysRaw : List Bytes) (start : Nat) :
    List (Option Bytes) :=
  (keysRaw.take start).map store ++ List.replicate (keysRaw.length - start) none

theorem filled_of_le {start : Nat} (h : keysRaw.length ≤ start) :
    filled store keysRaw start = keysRaw.map store := by
  rw [filled, List.take_of_length_le h, Nat.sub_eq_zero_of_le h, List.replicate_zero,
    List.append_nil]

theorem storeAt_filled {start stop : Nat} (hle : start ≤ stop) (hstop : stop ≤ keysRaw.length) :
    storeAt (filled store keysRaw start) start
      (((keysRaw.drop start).take (stop - start)).map store) = filled store keysRaw stop := by
  have hfront : ((keysRaw.take start).map store).length = start := by
    rw [List.length_map, List.length_take_of_le (hle.trans hstop)]
  have hslice : (((keysRaw.drop start).take (stop - start)).map store).length = stop - start := by
    rw [List.length_map, List.length_take_of_le]
    rw [List.length_drop]
    omega
  have htake : keysRaw.take stop = keysRaw.take start ++
    (keysRaw.drop start).take (stop - start) := by
    rw [← List.take_add, Nat.add_sub_cancel' hle]
  have hrest : keysRaw.length - start - (stop - start) = keysRaw.length - stop := by omega
  rw [storeAt, filled, List.take_left' hfront, hslice, Nat.add_sub_cancel' hle, List.drop_append,
    List.drop_of_length_le (hfront.trans_le hle), hfront, List.drop_replicate, hrest, filled, htake,
    List.map_append, List.nil_append, List.append_assoc]

theorem serve_batch {start : Nat} (stop : Nat) (hlt : start < keysRaw.length) (hm : 0 ≤ sv.maxBatch)
    (hstop : (stop : Int) = min (start + sv.maxBatch) keysRaw.length) :
    (nextBatch sv keysRaw (filled store keysRaw start) start).bind (serve sv store) =
      nextBatch sv keysRaw (filled store keysRaw stop) (start + sv.maxBatch).toNat := by
  have hle : start ≤ stop := by omega
  have hstop' : stop ≤ keysRaw.length := by omega
  have hslice : (((keysRaw.drop start).take (stop - start)).map store).length = stop - start := by
    rw [List.length_map, List.length_take_of_le]
    rw [List.length_drop]
    omega
  rw [nextBatch, if_pos hlt]
  dsimp only
  rw [← hstop, if_neg (by omega), Option.bind_some, Int.toNat_natCast, serve, resume,
    handleMultiGet, hslice, if_neg (Nat.lt_irrefl _), List.take_of_length_le hslice.le,
    storeAt_filled hle hstop']

theorem nextBatch_of_le {start : Nat} (h : keysRaw.length ≤ start) :
    nextBatch sv keysRaw (filled store keysRaw start) start =
      some (.locking statusOK (multiGetPayload keysRaw.length (keysRaw.map store))) := by
  rw [nextBatch, if_neg (Nat.not_lt.mpr h), filled_of_le h]

theorem serveN_nextBatch (hm : 1 ≤ sv.maxBatch) (start : Nat) :
    ∃ k, serveN sv store k (nextBatch sv keysRaw (filled store keysRaw start) start) =
      some (.locking statusOK (multiGetPayload keysRaw.length (keysRaw.map store))) := by
  induction hleft : keysRaw.length - start using Nat.strong_induction_on generalizing start with
  | _ left ih =>
    cases Nat.lt_or_ge start keysRaw.length with
    | inr hge => exact ⟨0, nextBatch_of_le hge⟩
    | inl hlt =>
      -- the last batch may be cut short, but the loop goes on as if it were not
      have hfill : filled store keysRaw (min (start + sv.maxBatch.toNat) keysRaw.length) =
          filled store keysRaw (start + sv.maxBatch).toNat := by
        rw [show (start + sv.maxBatch).toNat = start + sv.maxBatch.toNat by omega]
        cases Nat.le_total (start + sv.maxBatch.toNat) keysRaw.length with
        | inl hle => rw [Nat.min_eq_left hle]
        | inr hle => rw [Nat.min_eq_right hle, filled_of_le hle, filled_of_le (Nat.le_refl _)]
      obtain ⟨k, hk⟩ := ih (keysRaw.length - (start + sv.maxBatch).toNat) (by omega)
        (start + sv.maxBatch).toNat rfl
      refine ⟨k + 1, ?_⟩
      rw [serveN, serve_batch (min (start + sv.maxBatch.toNat) keysRaw.length) hlt (by omega)
        (by omega), hfill, hk]

theorem serveN_stuck (hpos : 0 < keysRaw.length) (hm : sv.maxBatch ≤ 0) (k : Nat)
    (payload : Bytes) :
    serveN sv store k (nextBatch sv keysRaw (filled store keysRaw 0) 0) ≠
      some (.locking statusOK payload) := by
  rcases hm.lt_or_eq with hneg | hzero
  · -- the slice ends before it starts
    have hnone : nextBatch sv keysRaw (filled store keysRaw 0) 0 = none := by
      rw [nextBatch, if_pos hpos]
      dsimp only
      rw [if_pos (by omega)]
    rw [hnone]
    induction k with
    | zero => rintro ⟨⟩
    | succ k ih => exact ih
  · induction k with
    | zero =>
      rw [serveN, nextBatch, if_pos hpos]
      dsimp only
      rw [if_neg (by omega)]
      rintro ⟨⟩
    | succ k ih =>
      rw [serveN, serve_batch 0 hpos hzero.ge (by omega), hzero]
      exact ih

@[simp] theorem requestKeys_length (sv : Server) (n : Nat) (keysRawBytes : Bytes) :
    (requestKeys sv n keysRawBytes).length = n := by
  rw [requestKeys, List.length_map, List.length_range]

theorem handle_multiGet {n : Nat} (hpos : 0 < n) (keysRawBytes : Bytes) :
    handle sv (.multiGet n keysRawBytes) = nextBatch sv (requestKeys sv n keysRawBytes)
      (filled store (requestKeys sv n keysRawBytes) 0) 0 := by
  rw [handle, if_neg hpos.ne', filled, requestKeys_length]
  rfl

end Run

/-- A multi-get is answered, the same for every positive batch size, and the answer decodes to
what the store has for the keys, unless a value is too long for its length field. -/
theorem answers_iff (sv : Server) (store : Bytes → Option Bytes) {n : Nat} (hn : n ≤ 1000000)
    (keysRawBytes : Bytes) : Answers sv store n keysRawBytes ↔
      n = 0 ∨ 1 ≤ sv.maxBatch ∧
        ∀ val, some val ∈ found sv store n keysRawBytes → val.length < 2 ^ 32 := by
  have hkeys := requestKeys_length sv n keysRawBytes
  have hfound : (found sv store n keysRawBytes).length = n := by
    rw [found, List.length_map, hkeys]
  have hencode := encodeMultiGet_eq n (found sv store n keysRawBytes)
  have hreads := fun h => @reads_payload (found sv store n keysRawBytes)
    (by rw [hfound]; omega) h []
  rw [hfound, List.append_nil] at hreads
  rcases Nat.eq_zero_or_pos n with rfl | hpos
  · have hnil := List.eq_nil_of_length_eq_zero hfound
    refine iff_of_true ⟨0, _, rfl, ?_, hreads fun val hval => ?_⟩ (.inl rfl)
    · rw [hencode, hnil]
      rfl
    · rw [hnil] at hval
      cases hval
  · rw [or_iff_right hpos.ne', Answers, @handle_multiGet sv store n hpos]
    constructor
    · rintro ⟨k, payload, hrun, -, hread⟩
      refine ⟨?_, readPayload_lt hread⟩
      by_contra hm
      exact serveN_stuck (by rw [hkeys]; exact hpos) (by omega) k payload hrun
    · rintro ⟨hm, hlt⟩
      obtain ⟨k, hk⟩ := @serveN_nextBatch sv store (requestKeys sv n keysRawBytes) hm 0
      rw [hkeys] at hk
      exact ⟨k, _, hk, hencode, hreads hlt⟩

theorem answers_three : Answers ⟨[115], 2⟩ (fun key => if key.getD 1 0 = 2 then some [] else none) 3
    (leBytes 8 1 ++ leBytes 8 2 ++ leBytes 8 3) := by
  refine (answers_iff _ _ (by decide) _).mpr (.inr ⟨by decide, fun val hval => ?_⟩)
  have hfound : found ⟨[115], 2⟩ (fun key => if key.getD 1 0 = 2 then some [] else none) 3
      (leBytes 8 1 ++ leBytes 8 2 ++ leBytes 8 3) = [none, some [], none] := by decide +kernel
  rw [hfound] at hval
  simp at hval
  simp [hval]

theorem not_answers : ¬ ∀ (setting : List Char) (maxBatch : Int), maxBatchOf setting =
    some maxBatch →
    ∀ ns store n keysRawBytes, n ≤ 1000000 →
      (∀ val, some val ∈ found ⟨ns, maxBatch⟩ store n keysRawBytes → val.length < 2 ^ 32) →
        Answers ⟨ns, maxBatch⟩ store n keysRawBytes := by
  intro h
  obtain ⟨k, payload, hrun, -⟩ := h ['0'] 0 (by decide +kernel) [] (fun _ => none) 1
    [0, 0, 0, 0, 0, 0, 0, 0] (by decide) (fun val hval => by simp [found] at hval)
  rw [@handle_multiGet ⟨[], 0⟩ (fun _ => none) 1 Nat.one_pos] at hrun
  refine serveN_stuck ?_ (Int.le_refl 0) k payload hrun
  rw [requestKeys_length]
  exact Nat.one_pos

end Sptag.TikvUds
