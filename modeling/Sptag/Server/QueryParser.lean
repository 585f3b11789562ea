import Sptag.Common
import Sptag.Lib.Buffer
import Sptag.Lib.Bytes
import Sptag.Lib.Fields

/-! `QueryParser.cpp`: a query is cut up in a copy of its own, and what is found in it is
exposed as pointers into that copy. -/

namespace Sptag.Server

open Lib

structure Ptr where
  holder : Nat
  offset : Nat
  deriving DecidableEq

def isspace (c : UInt8) : Bool := c == 32 || (9 ≤ c && c ≤ 13)

def isupper (c : UInt8) : Bool := 65 ≤ c && c ≤ 90

structure QueryParser where
  m_options : List (Option Ptr × Ptr)
  m_vectorElements : List Ptr
  m_vectorBase64 : Option Ptr
  m_vectorBase64Length : Int
  m_dataHolder : Bytes
  holder : Nat
  deriving DecidableEq

namespace QueryParser

def new : QueryParser := ⟨[], [], none, 0, [], 0⟩

def c_defaultVectorSeparator : Bytes := [124]

inductive State
  | optionNameBegin
  | optionName
  | optionValueBegin
  | optionValue
  | vector
  | vectorBase64
  | none
  deriving DecidableEq

structure Scan where
  currState : State
  done : Bytes
  m_options : List (Option Ptr × Ptr)
  optionName : Option Ptr
  vectorStrBegin : Option Ptr
  vectorStrEnd : Option Ptr
  estDimension : Nat
  m_vectorBase64 : Option Ptr
  m_vectorBase64Length : Int
  deriving DecidableEq

def base64Length (m_vectorBase64 : Option Ptr) (iter : Ptr) : Int :=
  toInt (iter.offset - (m_vectorBase64.elim 0 Ptr.offset : Nat))

def closeToken (s : Scan) (iter : Ptr) : Scan :=
  if s.currState = .vector then
    { s with estDimension := s.estDimension + 1, vectorStrEnd := some iter }
  else if s.currState = .vectorBase64 then
    { s with m_vectorBase64Length := base64Length s.m_vectorBase64 iter }
  else s

def step (separators : Bytes) (holder : Nat) (s : Scan) (c : UInt8) : Scan :=
  let iter : Ptr := ⟨holder, s.done.length⟩
  if isspace c then
    { closeToken s iter with currState := .none, done := s.done ++ [0] }
  else
    match s.currState with
    | .none =>
      if c = 36 then { s with currState := .optionNameBegin, done := s.done ++ [c] }
      else if c = 35 then
        { s with
          currState := .vectorBase64
          m_vectorBase64 := some ⟨holder, s.done.length + 1⟩
          done := s.done ++ [c] }
      else { s with currState := .vector, vectorStrBegin := some iter, done := s.done ++ [c] }
    | .optionNameBegin =>
      { s with optionName := some iter, currState := .optionName, done := s.done ++ [c] }
    | .optionName =>
      if c = 58 ∨ c = 61 then { s with currState := .optionValueBegin, done := s.done ++ [0] }
      else if isupper c then { s with done := s.done ++ [c ||| 0x20] }
      else { s with done := s.done ++ [c] }
    | .optionValueBegin =>
      { s with
        currState := .optionValue
        m_options := s.m_options ++ [(s.optionName, iter)]
        done := s.done ++ [c] }
    | .vector =>
      if c ∈ separators then
        { s with estDimension := s.estDimension + 1, done := s.done ++ [0] }
      else { s with done := s.done ++ [c] }
    | _ => { s with done := s.done ++ [c] }

/-- The pieces between zeros, of what lies from `offset` on; `fuel` bounds the rounds. -/
def elements (holder : Nat) : Nat → Nat → Bytes → List Ptr
  | 0, _, _ => []
  | fuel + 1, offset, text =>
    let skipped := text.takeWhile (· == 0)
    let text := text.dropWhile (· == 0)
    if text = [] then []
    else
      let piece := text.takeWhile (· != 0)
      ⟨holder, offset + skipped.length⟩ ::
        elements holder fuel (offset + skipped.length + piece.length) (text.dropWhile (· != 0))

def between (buffer : Bytes) (start stop : Nat) : Bytes := (buffer.drop start).take (stop - start)

def separatorsOf (p_vectorSeparator : Option Bytes) : Bytes :=
  (p_vectorSeparator.getD c_defaultVectorSeparator).takeWhile (· != 0)

def startScan (this : QueryParser) : Scan :=
  ⟨.none, [], [], none, none, none, 0, this.m_vectorBase64, this.m_vectorBase64Length⟩

/-- What is exposed of the copy `buffer`. A count beyond the 31 bits of `estDimension` has no
answer. -/
def expose (holder : Nat) (s : Scan) (buffer : Bytes) : Option (ErrorCode × QueryParser) :=
  let parser : QueryParser :=
    ⟨s.m_options, [], s.m_vectorBase64, s.m_vectorBase64Length, buffer, holder⟩
  if 2 ^ 31 ≤ s.estDimension then none
  else
    match s.vectorStrBegin, s.vectorStrEnd with
    | some start, some stop =>
      if s.estDimension = 0 then some (.success, parser)
      else
        let m_vectorElements := elements holder (stop.offset - start.offset) start.offset
          (between buffer start.offset stop.offset)
        let parser := { parser with m_vectorElements := m_vectorElements }
        if m_vectorElements = [] then some (.fail, parser) else some (.success, parser)
    | _, _ => some (.success, parser)

def parse (this : QueryParser) (p_query : Bytes) (p_vectorSeparator : Option Bytes) :
    Option (ErrorCode × QueryParser) :=
  let holder := this.holder + 1
  let text := p_query.takeWhile (· != 0)
  let s := text.foldl (step (separatorsOf p_vectorSeparator) holder) this.startScan
  expose holder (closeToken s ⟨holder, s.done.length⟩)
    (s.done ++ p_query.drop text.length ++ [0])

def isMark (c : UInt8) : Bool := c == 58 || c == 61

def toLower (c : UInt8) : UInt8 := if isupper c then c ||| 0x20 else c

def scannedOption : Bytes → Option (Bytes × Bytes)
  | 36 :: c :: rest =>
    match rest.dropWhile fun a => !isMark a with
    | _ :: x :: value => some (c :: (rest.takeWhile fun a => !isMark a).map toLower, x :: value)
    | _ => none
  | _ => none

def base64Token : Bytes → Option Bytes
  | 35 :: b => some b
  | _ => none

def vectorToken : Bytes → Option Bytes
  | [] => none
  | c :: r => if c = 36 ∨ c = 35 then none else some (c :: r)

def isSeparator (separators : Bytes) (c : UInt8) : Bool := decide (c ∈ separators)

def edited (separators : Bytes) : Bytes → Bytes
  | [] => []
  | c :: r => c :: r.map fun a => if isSeparator separators a then 0 else a

def counted (separators t : Bytes) : Nat := 1 + t.tail.countP (isSeparator separators)

section Step

variable {separators : Bytes} {holder : Nat} {s : Scan} {t : Bytes}

theorem foldl_step_copy (hs : s.currState = .optionValue ∨ s.currState = .vectorBase64)
    (ht : ∀ c ∈ t, isspace c = false) :
    t.foldl (step separators holder) s = { s with done := s.done ++ t } := by
  induction t generalizing s with
  | nil => simp
  | cons c t ih =>
    have hc := ht c List.mem_cons_self
    have hstep : step separators holder s c = { s with done := s.done ++ [c] } := by
      rcases hs with hs | hs <;> simp [step, hc, hs]
    rw [List.foldl_cons, hstep, ih (by exact hs) fun a ha => ht a (List.mem_cons_of_mem c ha)]
    simp

theorem foldl_step_vector (hs : s.currState = .vector) (ht : ∀ c ∈ t, isspace c = false) :
    t.foldl (step separators holder) s =
      { s with
        done := s.done ++ t.map fun a => if isSeparator separators a then 0 else a
        estDimension := s.estDimension + t.countP (isSeparator separators) } := by
  induction t generalizing s with
  | nil => simp
  | cons c t ih =>
    have hc := ht c List.mem_cons_self
    have ht' := fun a ha => ht a (List.mem_cons_of_mem c ha)
    by_cases hsep : c ∈ separators
    · have hstep : step separators holder s c =
          { s with estDimension := s.estDimension + 1, done := s.done ++ [0] } := by
        simp [step, hc, hs, hsep]
      rw [List.foldl_cons, hstep, ih (by exact hs) ht']
      simp [isSeparator, hsep, Nat.add_assoc, Nat.add_comm 1]
    · have hstep : step separators holder s c = { s with done := s.done ++ [c] } := by
        simp [step, hc, hs, hsep]
      rw [List.foldl_cons, hstep, ih (by exact hs) ht']
      simp [isSeparator, hsep]

theorem foldl_step_name (hs : s.currState = .optionName) (ht : ∀ c ∈ t, isspace c = false)
    (hmark : ∀ c ∈ t, isMark c = false) :
    t.foldl (step separators holder) s = { s with done := s.done ++ t.map toLower } := by
  induction t generalizing s with
  | nil => simp
  | cons c t ih =>
    have hc := ht c List.mem_cons_self
    have hm := hmark c List.mem_cons_self
    simp only [isMark, Bool.or_eq_false_iff, beq_eq_false_iff_ne] at hm
    have hstep : step separators holder s c = { s with done := s.done ++ [toLower c] } := by
      simp only [step, hc, hs, hm, toLower, or_self, if_false, Bool.false_eq_true]
      split <;> rfl
    rw [List.foldl_cons, hstep, ih (by exact hs) (fun a ha => ht a (List.mem_cons_of_mem c ha))
      fun a ha => hmark a (List.mem_cons_of_mem c ha)]
    simp

end Step

section Token

variable {separators : Bytes} {holder : Nat} {s : Scan} {t : Bytes}

def CStr (buffer : Bytes) (offset : Nat) (x : Bytes) : Prop :=
  HoldsAt buffer offset (x ++ [0]) ∧ 0 ∉ x

def close (holder : Nat) (s : Scan) : Scan :=
  { closeToken s ⟨holder, s.done.length⟩ with currState := .none, done := s.done ++ [0] }

def scanToken (separators : Bytes) (holder : Nat) (s : Scan) (t : Bytes) : Scan :=
  close holder (t.foldl (step separators holder) s)

theorem step_space {c : UInt8} (h : isspace c = true) :
    step separators holder s c = close holder s := if_pos h

theorem scanToken_nil (hs : s.currState = .none) :
    scanToken separators holder s [] = { s with done := s.done ++ [0] } := by
  simp [scanToken, close, closeToken, hs]

theorem scanToken_vector {c : UInt8} {r : Bytes} (hs : s.currState = .none)
    (ht : ∀ a ∈ c :: r, isspace a = false) (hc : ¬ (c = 36 ∨ c = 35)) :
    scanToken separators holder s (c :: r) =
      { s with
        done := s.done ++ (edited separators (c :: r) ++ [0])
        vectorStrBegin := some ⟨holder, s.done.length⟩
        vectorStrEnd := some ⟨holder, s.done.length + (c :: r).length⟩
        estDimension := s.estDimension + counted separators (c :: r) } := by
  obtain ⟨h36, h35⟩ := not_or.mp hc
  have hstep : step separators holder s c =
      { s with
        currState := .vector
        vectorStrBegin := some ⟨holder, s.done.length⟩
        done := s.done ++ [c] } := by
    simp [step, ht c List.mem_cons_self, hs, h36, h35]
  rw [scanToken, List.foldl_cons, hstep, foldl_step_vector rfl fun a ha =>
    ht a (List.mem_cons_of_mem c ha)]
  simp only [close, closeToken, if_true, edited, counted, hs]
  simp [Nat.add_assoc, Nat.add_comm 1]

theorem scanToken_base64 {b : Bytes} (hs : s.currState = .none)
    (ht : ∀ a ∈ b, isspace a = false) :
    scanToken separators holder s (35 :: b) =
      { s with
        done := s.done ++ (35 :: b ++ [0])
        m_vectorBase64 := some ⟨holder, s.done.length + 1⟩
        m_vectorBase64Length := toInt b.length } := by
  have hstep : step separators holder s 35 =
      { s with
        currState := .vectorBase64
        m_vectorBase64 := some ⟨holder, s.done.length + 1⟩
        done := s.done ++ [35] } := by
    simp [step, isspace, hs]
  rw [scanToken, List.foldl_cons, hstep, foldl_step_copy (.inr rfl) ht]
  simp [close, closeToken, base64Length, hs]

def Points (holder : Nat) (buffer : Bytes) (o : Option Ptr × Ptr) (nv : Bytes × Bytes) : Prop :=
  ∃ a b, o = (some ⟨holder, a⟩, ⟨holder, b⟩) ∧ CStr buffer a nv.1 ∧ CStr buffer b nv.2

theorem toLower_ne_zero {c : UInt8} (h : c ≠ 0) : toLower c ≠ 0 := by
  revert c
  decide +kernel

theorem zero_not_mem_map_toLower {n : Bytes} (h : 0 ∉ n) : 0 ∉ n.map toLower := by
  rw [List.mem_map]
  rintro ⟨a, ha, hzero⟩
  exact toLower_ne_zero (fun h0 => h (h0 ▸ ha)) hzero

theorem foldl_step_option {c : UInt8} {name : Bytes} (hs : s.currState = .none)
    (ht : ∀ a ∈ c :: name, isspace a = false) (hmark : ∀ a ∈ name, isMark a = false) :
    (36 :: c :: name).foldl (step separators holder) s =
      { s with
        currState := .optionName
        optionName := some ⟨holder, s.done.length + 1⟩
        done := s.done ++ 36 :: c :: name.map toLower } := by
  have hdollar : step separators holder s 36 =
      { s with currState := .optionNameBegin, done := s.done ++ [36] } := by
    simp [step, isspace, hs]
  have hname : step separators holder
      { s with currState := .optionNameBegin, done := s.done ++ [36] } c =
        { s with
          currState := .optionName
          optionName := some ⟨holder, s.done.length + 1⟩
          done := s.done ++ [36, c] } := by
    simp [step, ht c List.mem_cons_self]
  rw [List.foldl_cons, List.foldl_cons, hdollar, hname,
    foldl_step_name rfl (fun a ha => ht a (List.mem_cons_of_mem c ha)) hmark]
  simp

theorem step_mark {m : UInt8} (hs : s.currState = .optionName) (ht : isspace m = false)
    (hm : m = 58 ∨ m = 61) : step separators holder s m =
      { s with currState := .optionValueBegin, done := s.done ++ [0] } := by
  simp [step, ht, hs, hm]

theorem foldl_step_value {x : UInt8} {v : Bytes} (hs : s.currState = .optionValueBegin)
    (ht : ∀ a ∈ x :: v, isspace a = false) :
    (x :: v).foldl (step separators holder) s =
      { s with
        currState := .optionValue
        m_options := s.m_options ++ [(s.optionName, ⟨holder, s.done.length⟩)]
        done := s.done ++ x :: v } := by
  have hvalue : step separators holder s x =
      { s with
        currState := .optionValue
        m_options := s.m_options ++ [(s.optionName, ⟨holder, s.done.length⟩)]
        done := s.done ++ [x] } := by
    simp [step, ht x List.mem_cons_self, hs]
  rw [List.foldl_cons, hvalue,
    foldl_step_copy (.inl rfl) fun a ha => ht a (List.mem_cons_of_mem x ha)]
  simp

theorem points_option (holder : Nat) (d : Bytes) {n v : Bytes} {c : UInt8} (hn : 0 ∉ c :: n)
    (hv : 0 ∉ v) :
    Points holder (d ++ (36 :: c :: n ++ 0 :: v ++ [0]))
      (some ⟨holder, d.length + 1⟩, ⟨holder, d.length + (3 + n.length)⟩) (c :: n, v) := by
  refine ⟨_, _, rfl, ⟨⟨d ++ [36], v ++ [0], ?_, ?_⟩, hn⟩,
    ⟨⟨d ++ 36 :: c :: n ++ [0], [], ?_, ?_⟩, hv⟩⟩
  · simp
  · simp
  · simp
  · simp
    omega

/-- The name of an option is read up to its mark, and what follows from there. -/
theorem scanToken_name {c : UInt8} {rest : Bytes} (hs : s.currState = .none)
    (ht : ∀ a ∈ c :: rest, isspace a = false) :
    scanToken separators holder s (36 :: c :: rest) =
      close holder ((rest.dropWhile fun a => !isMark a).foldl (step separators holder)
        { s with
          currState := .optionName
          optionName := some ⟨holder, s.done.length + 1⟩
          done := s.done ++ 36 :: c :: (rest.takeWhile fun a => !isMark a).map toLower }) := by
  have hmark : ∀ a ∈ rest.takeWhile fun a => !isMark a, isMark a = false := fun a ha => by
    simpa using List.mem_takeWhile_imp ha
  have hname := @foldl_step_option separators holder s c _ hs (fun a ha =>
    ht a (List.cons_subset_cons c (List.takeWhile_subset _) ha)) hmark
  have hfold : (36 :: c :: rest).foldl (step separators holder) s =
      (rest.dropWhile fun a => !isMark a).foldl (step separators holder)
        ((36 :: c :: rest.takeWhile fun a => !isMark a).foldl (step separators holder) s) := by
    rw [← List.foldl_append, List.cons_append, List.cons_append, List.takeWhile_append_dropWhile]
  rw [scanToken, hfold, hname]

theorem isMark_of_dropWhile {rest v : Bytes} {m : UInt8}
    (htail : rest.dropWhile (fun a => !isMark a) = m :: v) : m = 58 ∨ m = 61 := by
  have hhead := List.head?_dropWhile_not (fun a => !isMark a) rest
  rw [htail] at hhead
  simpa [isMark, or_iff_not_imp_left] using hhead

theorem scanToken_option {u : Bytes} (hs : s.currState = .none)
    (ht : ∀ a ∈ u, isspace a = false) (hzero : 0 ∉ u) :
    ∃ e opts name, scanToken separators holder s (36 :: u) =
        { s with
          done := s.done ++ (e ++ [0])
          m_options := s.m_options ++ opts
          optionName := name } ∧
      e.length = (36 :: u).length ∧
      List.Forall₂ (Points holder (s.done ++ (e ++ [0]))) opts
        (scannedOption (36 :: u)).toList := by
  cases u with
  | nil =>
    have hstep : step separators holder s 36 =
        { s with currState := .optionNameBegin, done := s.done ++ [36] } := by
      simp [step, isspace, hs]
    refine ⟨[36], [], s.optionName, ?_, rfl, List.Forall₂.nil⟩
    rw [scanToken, List.foldl_cons, hstep]
    simp [close, closeToken, hs]
  | cons c rest =>
    have hlen := congrArg List.length
      (@List.takeWhile_append_dropWhile _ (fun a => !isMark a) rest)
    rw [scanToken_name hs ht]
    cases htail : rest.dropWhile fun a => !isMark a with
    | nil =>
      -- no mark, no option
      rw [htail, List.append_nil] at hlen
      refine ⟨36 :: c :: (rest.takeWhile fun a => !isMark a).map toLower, [],
        some ⟨holder, s.done.length + 1⟩, ?_, ?_, ?_⟩
      · simp [close, closeToken, hs]
      · simpa using hlen
      · rw [scannedOption, htail]
        exact List.Forall₂.nil
    | cons m v =>
      rw [htail] at hlen
      have hmem : ∀ a ∈ m :: v, a ∈ c :: rest := fun a ha =>
        List.mem_cons_of_mem c (List.dropWhile_subset _ (htail ▸ ha))
      rw [List.foldl_cons, step_mark rfl (ht m (hmem m List.mem_cons_self))
        (isMark_of_dropWhile htail)]
      cases v with
      | nil =>
        -- a mark and no value
        refine ⟨36 :: c :: (rest.takeWhile fun a => !isMark a).map toLower ++ [0], [],
          some ⟨holder, s.done.length + 1⟩, ?_, ?_, ?_⟩
        · simp [close, closeToken, hs]
        · simpa using hlen
        · rw [scannedOption, htail]
          exact List.Forall₂.nil
      | cons x v =>
        have hvalue : ∀ a ∈ x :: v, a ∈ c :: rest := fun a ha =>
          hmem a (List.mem_cons_of_mem m ha)
        rw [foldl_step_value rfl fun a ha => ht a (hvalue a ha)]
        refine ⟨36 :: c :: (rest.takeWhile fun a => !isMark a).map toLower ++ 0 :: x :: v,
          [(some ⟨holder, s.done.length + 1⟩, ⟨holder, s.done.length +
            (3 + (rest.takeWhile fun a => !isMark a).length)⟩)],
          some ⟨holder, s.done.length + 1⟩, ?_, ?_, ?_⟩
        · simp [close, closeToken, hs]
          omega
        · simpa using hlen
        · rw [scannedOption, htail]
          have hname0 : 0 ∉ rest.takeWhile fun a => !isMark a := fun h =>
            hzero (List.mem_cons_of_mem c (List.takeWhile_subset _ h))
          have hlower := List.not_mem_cons_of_ne_of_not_mem (List.ne_of_not_mem_cons hzero)
            (zero_not_mem_map_toLower hname0)
          have hpoints := points_option holder s.done hlower
            fun h => hzero (hvalue 0 h)
          rw [List.length_map] at hpoints
          exact List.Forall₂.cons hpoints List.Forall₂.nil

end Token

def tokens (q : Bytes) : List Bytes := q.splitOnP isspace

def Latest {F B : Type} (P : F → B → Prop) (old found : F) : Option B → Prop
  | none => found = old
  | some b => P found b

def Base64At (holder : Nat) (buffer : Bytes) (found : Option Ptr × Int) (b : Bytes) : Prop :=
  ∃ a, found = (some ⟨holder, a⟩, toInt b.length) ∧ HoldsAt buffer a (b ++ [0])

def VectorAt (separators : Bytes) (holder : Nat) (buffer : Bytes) (found : Option Ptr × Option Ptr)
    (t : Bytes) : Prop :=
  ∃ a, found = (some ⟨holder, a⟩, some ⟨holder, a + t.length⟩) ∧
    HoldsAt buffer a (edited separators t ++ [0])

/-- What has been found in the copy `buffer` when the tokens `ts` have been scanned from the
state `old` on. -/
structure Scanned (separators : Bytes) (holder : Nat) (old : Scan) (ts : List Bytes)
    (s : Scan) : Prop where
  state : s.currState = .none
  done : ∃ more, s.done = old.done ++ more
  options : ∃ opts, s.m_options = old.m_options ++ opts ∧
    List.Forall₂ (Points holder s.done) opts (ts.filterMap scannedOption)
  base64 : Latest (Base64At holder s.done) (old.m_vectorBase64, old.m_vectorBase64Length)
    (s.m_vectorBase64, s.m_vectorBase64Length) (ts.filterMap base64Token).getLast?
  vector : Latest (VectorAt separators holder s.done) (old.vectorStrBegin, old.vectorStrEnd)
    (s.vectorStrBegin, s.vectorStrEnd) (ts.filterMap vectorToken).getLast?
  dimension : s.estDimension =
    old.estDimension + ((ts.filterMap vectorToken).map (counted separators)).sum

section Scanned

variable {separators : Bytes} {holder : Nat} {s s' old : Scan} {ts ts' : List Bytes}

theorem CStr.append {buffer x : Bytes} {a : Nat} (h : CStr buffer a x) (more : Bytes) :
    CStr (buffer ++ more) a x := ⟨h.1.append_right more, h.2⟩

theorem Points.append {buffer : Bytes} {o : Option Ptr × Ptr} {nv : Bytes × Bytes}
    (h : Points holder buffer o nv) (more : Bytes) : Points holder (buffer ++ more) o nv := by
  obtain ⟨a, b, ho, hname, hvalue⟩ := h
  exact ⟨a, b, ho, hname.append more, hvalue.append more⟩

theorem Base64At.append {buffer b : Bytes} {found : Option Ptr × Int}
    (h : Base64At holder buffer found b) (more : Bytes) :
    Base64At holder (buffer ++ more) found b := by
  obtain ⟨a, hfound, hat⟩ := h
  exact ⟨a, hfound, hat.append_right more⟩

theorem VectorAt.append {buffer t : Bytes} {found : Option Ptr × Option Ptr}
    (h : VectorAt separators holder buffer found t) (more : Bytes) :
    VectorAt separators holder (buffer ++ more) found t := by
  obtain ⟨a, hfound, hat⟩ := h
  exact ⟨a, hfound, hat.append_right more⟩

theorem Latest.trans {F B : Type} {P P' : F → B → Prop} {old found found' : F} {bs bs' : List B}
    (h : Latest P old found bs.getLast?) (h' : Latest P' found found' bs'.getLast?)
    (hmono : ∀ b, P found b → P' found b) : Latest P' old found' (bs ++ bs').getLast? := by
  rw [List.getLast?_append]
  cases hlast : bs'.getLast? with
  | some b =>
    rw [hlast] at h'
    exact h'
  | none =>
    rw [hlast] at h'
    obtain rfl : found' = found := h'
    cases hold : bs.getLast? with
    | none =>
      rw [hold] at h
      exact h
    | some b =>
      rw [hold] at h
      exact hmono b h

theorem filterMap_singleton {A B : Type} (f : A → Option B) (a : A) :
    [a].filterMap f = (f a).toList := by
  cases h : f a <;> simp [h]

theorem Scanned.trans (h : Scanned separators holder old ts s)
    (h' : Scanned separators holder s ts' s') : Scanned separators holder old (ts ++ ts') s' := by
  obtain ⟨before, hbefore⟩ := h.done
  obtain ⟨more, hmore⟩ := h'.done
  obtain ⟨opts, hopts, hpoints⟩ := h.options
  obtain ⟨opts', hopts', hpoints'⟩ := h'.options
  refine ⟨h'.state, ⟨before ++ more, ?_⟩, ⟨opts ++ opts', ?_, ?_⟩, ?_, ?_, ?_⟩
  · rw [hmore, hbefore, List.append_assoc]
  · rw [hopts', hopts, List.append_assoc]
  · rw [List.filterMap_append]
    refine List.rel_append (hpoints.imp fun o nv hp => ?_) hpoints'
    rw [hmore]
    exact hp.append more
  · have hbase := h'.base64
    rw [hmore] at hbase ⊢
    rw [List.filterMap_append]
    exact h.base64.trans hbase fun b hb => hb.append more
  · have hvector := h'.vector
    rw [hmore] at hvector ⊢
    rw [List.filterMap_append]
    exact h.vector.trans hvector fun t ht => ht.append more
  · rw [h'.dimension, h.dimension, List.filterMap_append, List.map_append, List.sum_append,
      Nat.add_assoc]

theorem scanned_token {t : Bytes} (hs : s.currState = .none) (ht : ∀ a ∈ t, isspace a = false)
    (hzero : 0 ∉ t) : Scanned separators holder s [t] (scanToken separators holder s t) := by
  cases t with
  | nil =>
    rw [scanToken_nil hs]
    exact ⟨hs, ⟨_, rfl⟩, ⟨[], by simp, List.Forall₂.nil⟩, rfl, rfl, rfl⟩
  | cons c r =>
    have hr : ∀ a ∈ r, isspace a = false := fun a ha => ht a (List.mem_cons_of_mem c ha)
    rw [List.mem_cons, not_or] at hzero
    by_cases h36 : c = 36
    · subst h36
      obtain ⟨e, opts, name, hscan, -, hopts⟩ :=
        @scanToken_option separators holder s r hs hr hzero.2
      rw [hscan]
      refine ⟨hs, ⟨_, rfl⟩, ⟨opts, rfl, ?_⟩, rfl, rfl, rfl⟩
      rwa [filterMap_singleton]
    by_cases h35 : c = 35
    · subst h35
      rw [scanToken_base64 hs hr]
      have hvector : [35 :: r].filterMap vectorToken = [] := rfl
      have hbase64 : [35 :: r].filterMap base64Token = [r] := rfl
      refine ⟨hs, ⟨_, rfl⟩, ⟨[], by simp, List.Forall₂.nil⟩, ?_, ?_, ?_⟩
      · rw [hbase64]
        dsimp only [Latest, List.getLast?_singleton, Base64At]
        refine ⟨s.done.length + 1, rfl, s.done ++ [35], [], ?_, ?_⟩
        · simp
        · simp
      · rw [hvector]
        rfl
      · rw [hvector]
        rfl
    · have hvector : [c :: r].filterMap vectorToken = [c :: r] := by
        simp [vectorToken, h36, h35]
      have hoption : [c :: r].filterMap scannedOption = [] := by
        rw [filterMap_singleton, scannedOption]
        · rfl
        · intro c' rest heq
          exact h36 (List.cons.inj heq).1
      have hbase64 : [c :: r].filterMap base64Token = [] := by
        rw [filterMap_singleton, base64Token]
        · rfl
        · intro b heq
          exact h35 (List.cons.inj heq).1
      rw [scanToken_vector hs ht (not_or.mpr ⟨h36, h35⟩)]
      refine ⟨hs, ⟨_, rfl⟩, ⟨[], by simp, ?_⟩, ?_, ?_, ?_⟩
      · rw [hoption]
        exact List.Forall₂.nil
      · rw [hbase64]
        rfl
      · rw [hvector]
        exact ⟨s.done.length, rfl, s.done, [], by simp, rfl⟩
      · rw [hvector]
        rfl

theorem scanned_query (q : Bytes) (hzero : 0 ∉ q) : ∀ s : Scan, s.currState = .none →
    Scanned separators holder s (tokens q)
      (close holder (q.foldl (step separators holder) s)) := by
  induction q using fields_induction (p := isspace) with
  | hfield t ht =>
    intro s hs
    rw [tokens, List.splitOnP_eq_singleton ht]
    exact scanned_token hs ht hzero
  | hsep t a l ht ha ih =>
    intro s hs
    rw [List.mem_append, List.mem_cons, not_or, not_or] at hzero
    rw [tokens, List.splitOnP_append_cons_of_forall_mem ht a ha, List.foldl_append,
      List.foldl_cons, step_space ha]
    have htoken := @scanned_token separators holder s t hs ht hzero.1
    exact htoken.trans (ih hzero.2.2 _ htoken.state)

end Scanned

end QueryParser

end Sptag.Server
