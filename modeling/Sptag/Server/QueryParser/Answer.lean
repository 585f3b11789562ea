import Sptag.Server.QueryParser

/-! What `Parse` exposes of a query, against what the query says. -/

namespace Sptag.Server

open Lib

namespace QueryParser

section Elements

variable {holder : Nat}

theorem elements_piece {buffer text : Bytes} {offset : Nat} {next : Nat → Bytes → List Ptr}
    (hne : (text.takeWhile fun a => !(a == 0)) ≠ []) (h : HoldsAt buffer offset (text ++ [0]))
    (hnext : ∀ offset rest, rest.length < text.length → HoldsAt buffer offset (rest ++ [0]) →
      List.Forall₂ (fun p x => p.holder = holder ∧ CStr buffer p.offset x) (next offset rest)
        (fields (· == 0) rest)) :
    List.Forall₂ (fun p x => p.holder = holder ∧ CStr buffer p.offset x)
      (⟨holder, offset⟩ :: next (offset + (text.takeWhile fun a => !(a == 0)).length)
        (text.dropWhile fun a => !(a == 0)))
      ((text.takeWhile fun a => !(a == 0)) ::
        fields (· == 0) (text.dropWhile fun a => !(a == 0))) := by
  have hsplit := @List.takeWhile_append_dropWhile _ (fun a => !(a == (0 : UInt8))) text
  have hlen := congrArg List.length hsplit
  have hpos := List.length_pos_of_ne_nil hne
  rw [List.length_append] at hlen
  have hzero : 0 ∉ text.takeWhile fun a => !(a == 0) := fun hmem => by
    simpa using List.mem_takeWhile_imp hmem
  have hboth := h
  rw [← hsplit, List.append_assoc, holdsAt_append_iff] at hboth
  refine List.Forall₂.cons ⟨rfl, ?_, hzero⟩ (hnext _ _ (by omega) hboth.2)
  rw [holdsAt_append_iff]
  refine ⟨hboth.1, ?_⟩
  cases hrest : text.dropWhile fun a => !(a == 0) with
  | nil =>
    rw [hrest] at hboth
    exact hboth.2
  | cons z rest =>
    have hz : z = 0 := by
      have hhead := List.head?_dropWhile_not (fun a => !(a == (0 : UInt8))) text
      rw [hrest] at hhead
      simpa using hhead
    rw [hrest, hz, ← List.singleton_append, List.append_assoc, holdsAt_append_iff] at hboth
    exact hboth.2.1

theorem elements_spec {buffer : Bytes} (fuel : Nat) : ∀ {offset : Nat} {text : Bytes},
    text.length ≤ fuel → HoldsAt buffer offset (text ++ [0]) →
      List.Forall₂ (fun p x => p.holder = holder ∧ CStr buffer p.offset x)
        (elements holder fuel offset text) (fields (· == 0) text) := by
  induction fuel with
  | zero =>
    intro offset text hfuel h
    rw [List.eq_nil_of_length_eq_zero (Nat.le_zero.mp hfuel), fields_nil]
    exact List.Forall₂.nil
  | succ fuel ih =>
    intro offset text hfuel h
    have hsplit := @List.takeWhile_append_dropWhile _ (· == (0 : UInt8)) text
    rw [elements, ← fields_dropWhile text]
    dsimp only
    split_ifs with hnil
    · rw [hnil, fields_nil]
      exact List.Forall₂.nil
    · have hhead : (text.dropWhile (· == 0)).dropWhile (· == 0) = text.dropWhile (· == 0) :=
        List.dropWhile_idempotent _ _
      rw [← hsplit, List.append_assoc, holdsAt_append_iff] at h
      have hlen := congrArg List.length hsplit
      rw [List.length_append] at hlen
      rw [fields_takeWhile hnil hhead]
      exact elements_piece (takeWhile_ne_nil hnil hhead) h.2 fun offset rest hrest hat =>
        ih (by omega) hat

end Elements

def queryOption : Bytes → Option (Bytes × Bytes)
  | 36 :: rest =>
    match rest.takeWhile fun a => !isMark a, rest.dropWhile fun a => !isMark a with
    | c :: name, _ :: x :: value => some ((c :: name).map toLower, x :: value)
    | _, _ => none
  | _ => none

def options (q : Bytes) : List (Bytes × Bytes) := (tokens q).filterMap queryOption

def lastVector (q : Bytes) : Option Bytes := ((tokens q).filterMap vectorToken).getLast?

def pieces (separators q : Bytes) : List Bytes :=
  (lastVector q).elim [] (fields (isSeparator separators))

def lastBase64 (q : Bytes) : Option Bytes := ((tokens q).filterMap base64Token).getLast?

def Inside (parser : QueryParser) (p : Ptr) : Prop :=
  p.holder = parser.holder ∧ p.offset < parser.m_dataHolder.length

instance (parser : QueryParser) (p : Ptr) : Decidable (parser.Inside p) :=
  inferInstanceAs (Decidable (_ ∧ _))

def text (parser : QueryParser) (p : Ptr) : Option Bytes :=
  if parser.Inside p then some ((parser.m_dataHolder.drop p.offset).takeWhile (· != 0)) else none

def base64 (parser : QueryParser) (p : Ptr) : Option Bytes :=
  if parser.Inside p then
    some ((parser.m_dataHolder.drop p.offset).take parser.m_vectorBase64Length.toNat)
  else none

def Meets (this : QueryParser) (q : Bytes) (p_vectorSeparator : Option Bytes) : Prop :=
  ∃ code parser, this.parse q p_vectorSeparator = some (code, parser) ∧
    parser.m_options.map (fun o => (o.1.bind parser.text, parser.text o.2)) =
      (options q).map (fun nv => (some nv.1, some nv.2)) ∧
    parser.m_vectorElements.map parser.text =
      (pieces (separatorsOf p_vectorSeparator) q).map some ∧
    parser.m_vectorBase64.map parser.base64 = (lastBase64 q).map some

def OptionsPlain (q : Bytes) : Prop :=
  ∀ c rest, 36 :: c :: rest ∈ tokens q → 2 ≤ (rest.dropWhile fun a => !isMark a).length →
    isupper c = false ∧ isMark c = false

def VectorPlain (separators q : Bytes) : Prop :=
  (∀ c r, lastVector q = some (c :: r) → c ∉ separators) ∧
    (((tokens q).filterMap vectorToken).map (counted separators)).sum < 2 ^ 31

def Base64Plain (this : QueryParser) (q : Bytes) : Prop :=
  (∀ b, lastBase64 q = some b → b.length < 2 ^ 31) ∧
    (lastBase64 q = none → this.m_vectorBase64 = none)

section Compare

variable {separators : Bytes} {q t : Bytes}

theorem toLower_eq_iff (c : UInt8) : c = toLower c ↔ isupper c = false := by
  revert c
  decide +kernel

theorem scannedOption_eq_iff (t : Bytes) : scannedOption t = queryOption t ↔
    ∀ c rest, t = 36 :: c :: rest → 2 ≤ (rest.dropWhile fun a => !isMark a).length →
      isupper c = false ∧ isMark c = false := by
  by_cases ht : ∃ c rest, t = 36 :: c :: rest
  · obtain ⟨c, rest, rfl⟩ := ht
    have hiff : (∀ c' rest', 36 :: c :: rest = 36 :: c' :: rest' →
        2 ≤ (rest'.dropWhile fun a => !isMark a).length → isupper c' = false ∧ isMark c' = false) ↔
        (2 ≤ (rest.dropWhile fun a => !isMark a).length →
          isupper c = false ∧ isMark c = false) := by
      constructor
      · exact fun h => h c rest rfl
      · rintro h c' rest' heq
        cases heq
        exact h
    rw [hiff, scannedOption, queryOption, List.takeWhile_cons, List.dropWhile_cons]
    rcases hmark : isMark c with _ | _
    · rcases hrest : rest.dropWhile fun a => !isMark a with _ | ⟨m, _ | ⟨x, value⟩⟩
      · simp
      · simp
      · simp [← toLower_eq_iff]
    · rcases hrest : rest.dropWhile fun a => !isMark a with _ | ⟨m, _ | ⟨x, value⟩⟩
      · simp
      · simp
      · simp
  · have hscan : scannedOption t = none := by
      rw [scannedOption]
      exact fun c rest heq => ht ⟨c, rest, heq⟩
    have hquery : queryOption t = none := by
      rcases t with _ | ⟨c, _ | ⟨c', rest⟩⟩
      · rfl
      · by_cases hc : c = 36
        · subst hc
          rfl
        · rw [queryOption]
          exact fun rest heq => hc (List.cons.inj heq).1
      · rw [queryOption]
        exact fun rest' heq => ht ⟨c', rest, by rw [(List.cons.inj heq).1]⟩
    rw [hscan, hquery]
    exact iff_of_true rfl fun c rest heq => absurd ⟨c, rest, heq⟩ ht

theorem isSome_of_queryOption (h : (queryOption t).isSome) : (scannedOption t).isSome := by
  by_contra hscan
  rw [Bool.not_eq_true, Option.isSome_eq_false_iff, Option.isNone_iff_eq_none] at hscan
  have heq : scannedOption t = queryOption t :=
    (scannedOption_eq_iff t).mpr fun c rest ht hlen => by
    subst ht
    rw [scannedOption] at hscan
    rcases hrest : rest.dropWhile fun a => !isMark a with _ | ⟨m, _ | ⟨x, value⟩⟩
    · simp [hrest] at hlen
    · simp [hrest] at hlen
    · simp [hrest] at hscan
  rw [← heq, hscan] at h
  cases h

theorem filterMap_eq_iff {A B : Type} {f g : A → Option B} {as : List A}
    (h : ∀ a ∈ as, (g a).isSome → (f a).isSome) :
    as.filterMap f = as.filterMap g ↔ ∀ a ∈ as, f a = g a := by
  have hle : ∀ as : List A, (∀ a ∈ as, (g a).isSome → (f a).isSome) →
      (as.filterMap g).length ≤ (as.filterMap f).length := by
    intro as
    induction as with
    | nil => exact fun _ => Nat.le_refl _
    | cons a as ih =>
      intro has
      have hrest := ih fun b hb => has b (List.mem_cons_of_mem a hb)
      have ha := has a List.mem_cons_self
      cases hg : g a <;> cases hf : f a <;> (simp_all; try omega)
  induction as with
  | nil => simp
  | cons a as ih =>
    have hrest := fun b hb => h b (List.mem_cons_of_mem a hb)
    have ha := h a List.mem_cons_self
    have hlen := hle as hrest
    rw [List.forall_mem_cons]
    refine Iff.trans ?_ (and_congr_right' (ih hrest))
    cases hg : g a with
    | none =>
      cases hf : f a with
      | none => simp [hf, hg]
      | some b =>
        refine iff_of_false (fun heq => ?_) fun heq => nomatch heq.1
        have heq' := congrArg List.length heq
        rw [List.filterMap_cons_some hf, List.filterMap_cons_none hg, List.length_cons] at heq'
        omega
    | some b =>
      cases hf : f a with
      | none =>
        rw [hg, hf] at ha
        cases ha rfl
      | some b' => simp [hf, hg]

theorem fields_edited_iff {c : UInt8} {r : Bytes} (hzero : 0 ∉ c :: r) :
    fields (· == 0) (edited separators (c :: r)) = fields (isSeparator separators) (c :: r) ↔
      c ∉ separators := by
  have hc : c ≠ 0 := fun h => hzero (h ▸ List.mem_cons_self)
  constructor
  · intro heq hsep
    have hhead : (edited separators (c :: r)).dropWhile (· == 0) = edited separators (c :: r) := by
      rw [edited, List.dropWhile_cons_of_neg (by simpa using hc)]
    have hne : edited separators (c :: r) ≠ [] := List.cons_ne_nil _ _
    have hmem : (edited separators (c :: r)).takeWhile (fun a => !(a == 0)) ∈
        fields (isSeparator separators) (c :: r) := by
      rw [← heq, fields_takeWhile hne hhead]
      exact List.mem_cons_self
    have hnot := not_sep_of_mem_fields hmem c (by
      rw [edited, List.takeWhile_cons_of_pos (by simpa using hc)]
      exact List.mem_cons_self)
    simp [isSeparator, hsep] at hnot
  · intro hsep
    have hedited : edited separators (c :: r) =
        (c :: r).map fun a => if isSeparator separators a then 0 else a := by
      simp [edited, isSeparator, hsep]
    rw [fields, hedited, splitOnP_map hzero, fields]

end Compare

section Parse

variable {this parser : QueryParser} {q : Bytes} {p_vectorSeparator : Option Bytes}

theorem scanned_parse (hzero : 0 ∉ q) : ∃ s, this.parse q p_vectorSeparator =
      expose (this.holder + 1) s s.done ∧
    Scanned (separatorsOf p_vectorSeparator) (this.holder + 1) this.startScan (tokens q) s := by
  have htake : q.takeWhile (· != 0) = q := by
    rw [List.takeWhile_eq_self_iff]
    intro a ha
    simpa using fun h : a = 0 => hzero (h ▸ ha)
  refine ⟨_, ?_, scanned_query q hzero _ rfl⟩
  rw [parse, htake, List.drop_length, List.append_nil]
  rfl

theorem text_of_cstr {holder a : Nat} {x : Bytes} (hholder : parser.holder = holder)
    (h : CStr parser.m_dataHolder a x) : parser.text ⟨holder, a⟩ = some x := by
  obtain ⟨⟨front, back, hbuffer, rfl⟩, hx⟩ := h
  have hlt : front.length < parser.m_dataHolder.length := by
    rw [hbuffer]
    simp only [List.length_append, List.length_singleton]
    omega
  rw [text, if_pos ⟨hholder.symm, hlt⟩, hbuffer, List.append_assoc, List.drop_left,
    List.append_assoc, List.takeWhile_append_of_pos]
  · simp
  · intro a ha
    simpa using fun h : a = 0 => hx (h ▸ ha)

theorem base64_iff {holder : Nat} {b : Bytes} {p : Ptr} (hholder : parser.holder = holder)
    (h : Base64At holder parser.m_dataHolder (some p, parser.m_vectorBase64Length) b) :
    parser.base64 p = some b ↔ b.length < 2 ^ 31 := by
  obtain ⟨a, hfound, front, back, hbuffer, rfl⟩ := h
  obtain ⟨hp, hlen⟩ := Prod.mk.inj hfound
  obtain rfl := Option.some.inj hp
  have hlt : front.length < parser.m_dataHolder.length := by
    rw [hbuffer]
    simp only [List.length_append, List.length_singleton]
    omega
  rw [base64, if_pos ⟨hholder.symm, hlt⟩, hlen, hbuffer, List.append_assoc, List.drop_left,
    List.append_assoc, Option.some.injEq]
  constructor
  · intro htake
    by_contra hge
    have hcount := congrArg List.length htake
    have hsmall : (toInt b.length).toNat < b.length := by
      have hbound := Int.bmod_lt (x := (b.length : Int)) (m := 2 ^ 32) (by decide)
      rw [toInt]
      omega
    rw [List.length_take] at hcount
    omega
  · intro hlt
    rw [toInt_of_lt hlt, Int.toNat_natCast, List.take_left]

theorem map_eq_of_forall₂ {A B C : Type} {P : A → B → Prop} {f : A → C} {g : B → C} {as : List A}
    {bs : List B} (h : List.Forall₂ P as bs) (heq : ∀ a b, P a b → f a = g b) :
    as.map f = bs.map g := by
  rw [← List.forall₂_eq_eq_eq, List.forall₂_map_left_iff, List.forall₂_map_right_iff]
  exact h.imp heq

theorem exists_cons_of_lastVector {t : Bytes} (h : lastVector q = some t) :
    t ∈ tokens q ∧ ∃ c r, t = c :: r := by
  obtain ⟨u, hu, hvector⟩ := List.mem_filterMap.mp (List.mem_of_getLast? h)
  cases u with
  | nil => cases hvector
  | cons c r =>
    rw [vectorToken] at hvector
    split_ifs at hvector
    obtain rfl := Option.some.inj hvector
    exact ⟨hu, c, r, rfl⟩

theorem mem_of_mem_splitOnP {A : Type} {p : A → Bool} {l t : List A} {a : A}
    (ht : t ∈ l.splitOnP p) (ha : a ∈ t) : a ∈ l := by
  induction l using fields_induction (p := p) with
  | hfield u hu =>
    rw [List.splitOnP_eq_singleton hu, List.mem_singleton] at ht
    exact ht ▸ ha
  | hsep u c l hu hc ih =>
    rw [List.splitOnP_append_cons_of_forall_mem hu c hc, List.mem_cons] at ht
    rcases ht with rfl | ht
    · exact List.mem_append_left _ ha
    · exact List.mem_append_right _ (List.mem_cons_of_mem c (ih ht))

def scannedPieces (separators q : Bytes) : List Bytes :=
  (lastVector q).elim [] fun t => fields (· == 0) (edited separators t)

@[simp] theorem edited_length (separators t : Bytes) : (edited separators t).length = t.length := by
  cases t with
  | nil => rfl
  | cons c r => simp [edited]

theorem parse_exposes (hzero : 0 ∉ q) (hcount : (((tokens q).filterMap vectorToken).map
      (counted (separatorsOf p_vectorSeparator))).sum < 2 ^ 31) :
    ∃ code parser, this.parse q p_vectorSeparator = some (code, parser) ∧
      parser.holder = this.holder + 1 ∧
      List.Forall₂ (Points parser.holder parser.m_dataHolder) parser.m_options
        ((tokens q).filterMap scannedOption) ∧
      List.Forall₂ (fun p x => p.holder = parser.holder ∧ CStr parser.m_dataHolder p.offset x)
        parser.m_vectorElements (scannedPieces (separatorsOf p_vectorSeparator) q) ∧
      Latest (Base64At parser.holder parser.m_dataHolder)
        (this.m_vectorBase64, this.m_vectorBase64Length)
        (parser.m_vectorBase64, parser.m_vectorBase64Length) (lastBase64 q) := by
  obtain ⟨s, hparse, hscan⟩ := @scanned_parse this q p_vectorSeparator hzero
  obtain ⟨opts, hopts, hpoints⟩ := hscan.options
  obtain rfl : s.m_options = opts := hopts
  have hdim := hscan.dimension
  rw [show this.startScan.estDimension = 0 from rfl, Nat.zero_add] at hdim
  rw [hparse, expose, if_neg (by rw [hdim]; exact Nat.not_le.mpr hcount)]
  have hvector := hscan.vector
  rw [← lastVector] at hvector
  cases hlast : lastVector q with
  | none =>
    rw [hlast] at hvector
    obtain ⟨hstart, hstop⟩ := Prod.mk.inj hvector
    rw [hstart, hstop]
    refine ⟨_, _, rfl, rfl, hpoints, ?_, hscan.base64⟩
    rw [scannedPieces, hlast]
    exact List.Forall₂.nil
  | some t =>
    rw [hlast] at hvector
    obtain ⟨a, hfound, hat⟩ := hvector
    obtain ⟨hstart, hstop⟩ := Prod.mk.inj hfound
    have hpos : s.estDimension ≠ 0 := by
      have hmem := List.mem_map_of_mem (f := counted (separatorsOf p_vectorSeparator))
        (List.mem_of_getLast? hlast)
      have hle := List.le_sum_of_mem hmem
      rw [counted] at hle
      omega
    have hbetween : between s.done a (a + t.length) =
        edited (separatorsOf p_vectorSeparator) t := by
      obtain ⟨front, back, hdone, rfl⟩ := hat
      rw [between, hdone, List.append_assoc, List.drop_left, Nat.add_sub_cancel_left,
        ← edited_length (separatorsOf p_vectorSeparator) t, List.append_assoc, List.take_left]
    have helements := @elements_spec (this.holder + 1) s.done t.length a
      (edited (separatorsOf p_vectorSeparator) t) (edited_length _ t).le hat
    rw [hstart, hstop]
    dsimp only
    rw [if_neg hpos, Nat.add_sub_cancel_left, hbetween]
    have hpieces : scannedPieces (separatorsOf p_vectorSeparator) q =
        fields (· == 0) (edited (separatorsOf p_vectorSeparator) t) := by
      rw [scannedPieces, hlast]
      rfl
    rw [hpieces]
    split_ifs
    · exact ⟨_, _, rfl, rfl, hpoints, helements, hscan.base64⟩
    · exact ⟨_, _, rfl, rfl, hpoints, helements, hscan.base64⟩

theorem options_iff : (tokens q).filterMap scannedOption = options q ↔ OptionsPlain q := by
  rw [options, filterMap_eq_iff fun t _ => isSome_of_queryOption]
  constructor
  · intro h c rest hmem
    exact (scannedOption_eq_iff _).mp (h _ hmem) c rest rfl
  · intro h t ht
    rw [scannedOption_eq_iff]
    rintro c rest rfl
    exact h c rest ht

theorem pieces_iff {separators : Bytes} (hzero : 0 ∉ q) :
    scannedPieces separators q = pieces separators q ↔
      ∀ c r, lastVector q = some (c :: r) → c ∉ separators := by
  rw [scannedPieces, pieces]
  cases hlast : lastVector q with
  | none => exact iff_of_true rfl fun c r h => nomatch h
  | some t =>
    obtain ⟨hmem, c, r, rfl⟩ := exists_cons_of_lastVector hlast
    have hsub : ∀ a ∈ c :: r, a ∈ q := fun a ha => mem_of_mem_splitOnP hmem ha
    refine (fields_edited_iff fun h => hzero (hsub 0 h)).trans ⟨?_, fun h => h c r rfl⟩
    rintro h c' r' heq
    cases heq
    exact h

/-- What `Parse` answers is what the query says, exactly for the queries and objects that keep
clear of its slips. -/
theorem parse_meets_iff (this : QueryParser) {q : Bytes} (p_vectorSeparator : Option Bytes)
    (hzero : 0 ∉ q) : this.Meets q p_vectorSeparator ↔
      OptionsPlain q ∧ VectorPlain (separatorsOf p_vectorSeparator) q ∧ Base64Plain this q := by
  by_cases hcount : (((tokens q).filterMap vectorToken).map
      (counted (separatorsOf p_vectorSeparator))).sum < 2 ^ 31
  · obtain ⟨code, parser, hparse, hholder, hoptions, helements, hbase64⟩ :=
      @parse_exposes this q p_vectorSeparator hzero hcount
    have htext := map_eq_of_forall₂ (f := fun o => (o.1.bind parser.text, parser.text o.2))
      (g := fun nv => (some nv.1, some nv.2)) hoptions fun o nv ho => by
        obtain ⟨a, b, rfl, hname, hvalue⟩ := ho
        exact Prod.ext (text_of_cstr rfl hname) (text_of_cstr rfl hvalue)
    have hpieces := map_eq_of_forall₂ (f := parser.text) (g := some) helements fun p x hp => by
      obtain ⟨holder, offset⟩ := p
      exact text_of_cstr hp.1.symm hp.2
    have hbase : parser.m_vectorBase64.map parser.base64 = (lastBase64 q).map some ↔
        Base64Plain this q := by
      rw [Base64Plain]
      cases hlast : lastBase64 q with
      | none =>
        rw [hlast] at hbase64
        rw [(Prod.mk.inj hbase64).1]
        simp
      | some b =>
        rw [hlast] at hbase64
        obtain ⟨a, hfound, -⟩ := id hbase64
        rw [(Prod.mk.inj hfound).1] at hbase64 ⊢
        simp [base64_iff rfl hbase64]
    have hmeets : this.Meets q p_vectorSeparator ↔
        (tokens q).filterMap scannedOption = options q ∧
          scannedPieces (separatorsOf p_vectorSeparator) q =
            pieces (separatorsOf p_vectorSeparator) q ∧ Base64Plain this q := by
      rw [← hbase]
      constructor
      · rintro ⟨code', parser', hparse', ho, hp, hb⟩
        obtain ⟨-, rfl⟩ := Prod.mk.inj (Option.some.inj (hparse.symm.trans hparse'))
        refine ⟨List.map_injective_iff.mpr ?_ (htext.symm.trans ho),
          List.map_injective_iff.mpr (Option.some_injective _) (hpieces.symm.trans hp), hb⟩
        rintro ⟨n, v⟩ ⟨n', v'⟩ heq
        cases heq
        rfl
      · rintro ⟨ho, hp, hb⟩
        exact ⟨code, parser, hparse, by rw [htext, ho], by rw [hpieces, hp], hb⟩
    rw [hmeets, options_iff, pieces_iff hzero, VectorPlain, and_iff_left hcount]
  · refine iff_of_false ?_ fun h => hcount h.2.1.2
    rintro ⟨code, parser, hparse, -⟩
    obtain ⟨s, hexpose, hscan⟩ := @scanned_parse this q p_vectorSeparator hzero
    have hdim := hscan.dimension
    rw [show this.startScan.estDimension = 0 from rfl, Nat.zero_add] at hdim
    rw [hexpose, expose, if_pos (by rw [hdim]; exact Nat.not_lt.mp hcount)] at hparse
    cases hparse

theorem parse_meets_plain :
    new.Meets [36, 120, 58, 49, 32, 50, 124, 51, 32, 35, 65, 65] none := by
  refine (parse_meets_iff new none (by decide)).mpr
    ⟨fun c rest hmem _ => ?_, ⟨fun c r hlast => ?_, by decide⟩, fun b hlast => ?_, fun _ => rfl⟩
  · have htokens : tokens [36, 120, 58, 49, 32, 50, 124, 51, 32, 35, 65, 65] =
        [[36, 120, 58, 49], [50, 124, 51], [35, 65, 65]] := by decide +kernel
    simp only [htokens, List.mem_cons, List.cons.injEq, List.not_mem_nil, or_false] at hmem
    rcases hmem with ⟨-, rfl, -⟩ | ⟨h, -⟩ | ⟨h, -⟩
    · decide
    · exact absurd h (by decide)
    · exact absurd h (by decide)
  · have hvector : lastVector [36, 120, 58, 49, 32, 50, 124, 51, 32, 35, 65, 65] =
        some [50, 124, 51] := by decide +kernel
    rw [hvector] at hlast
    cases hlast
    decide
  · have hbase64 : lastBase64 [36, 120, 58, 49, 32, 50, 124, 51, 32, 35, 65, 65] =
        some [65, 65] := by decide +kernel
    rw [hbase64] at hlast
    cases hlast
    decide

theorem not_parse_meets : ¬ ∀ (this : QueryParser) (q : Bytes) (p_vectorSeparator : Option Bytes),
    0 ∉ q → this.Meets q p_vectorSeparator := by
  intro h
  obtain ⟨code, parser, hparse, -, hpieces, -⟩ := h new [124, 50] none (by decide)
  have hrun : new.parse [124, 50] none =
    some (.success, ⟨[], [⟨1, 0⟩], none, 0, [124, 50, 0], 1⟩) := by
    decide +kernel
  obtain ⟨-, rfl⟩ := Prod.mk.inj (Option.some.inj (hrun.symm.trans hparse))
  exact absurd hpieces (by decide +kernel)

end Parse

end QueryParser

end Sptag.Server
