import Sptag.Lib.Bytes

/-! `Base64Encode.cpp`: three bytes as four characters of an alphabet of 64, with `=` where
the bytes end. -/

namespace Sptag.Helper.Base64

open Sptag.Lib

def c_encTable : Bytes :=
  ['A', 'B', 'C', 'D', 'E', 'F', 'G', 'H', 'I', 'J', 'K', 'L', 'M', 'N', 'O', 'P',
    'Q', 'R', 'S', 'T', 'U', 'V', 'W', 'X', 'Y', 'Z', 'a', 'b', 'c', 'd', 'e', 'f',
    'g', 'h', 'i', 'j', 'k', 'l', 'm', 'n', 'o', 'p', 'q', 'r', 's', 't', 'u', 'v',
    'w', 'x', 'y', 'z', '0', '1', '2', '3', '4', '5', '6', '7', '8', '9', '+', '/'].map
      fun c => UInt8.ofNat c.toNat

def c_decTable : Bytes :=
  [64, 64, 64, 64, 64, 64, 64, 64, 64, 64, 64, 64, 64, 64, 64, 64,
    64, 64, 64, 64, 64, 64, 64, 64, 64, 64, 64, 64, 64, 64, 64, 64,
    64, 64, 64, 64, 64, 64, 64, 64, 64, 64, 64, 62, 64, 64, 64, 63,
    52, 53, 54, 55, 56, 57, 58, 59, 60, 61, 64, 64, 64, 64, 64, 64,
    64, 0, 1, 2, 3, 4, 5, 6, 7, 8, 9, 10, 11, 12, 13, 14,
    15, 16, 17, 18, 19, 20, 21, 22, 23, 24, 25, 64, 64, 64, 64, 64,
    64, 26, 27, 28, 29, 30, 31, 32, 33, 34, 35, 36, 37, 38, 39, 40,
    41, 42, 43, 44, 45, 46, 47, 48, 49, 50, 51, 64, 64, 64, 64, 64] ++ List.replicate 128 64

def c_paddingChar : UInt8 := 61

structure Output where
  p_out : Bytes
  p_outLen : Nat
  deriving DecidableEq

def Output.put (out : Output) (bytes : Bytes) : Output :=
  ⟨out.p_out ++ bytes, out.p_outLen + bytes.length⟩

def enc (i : UInt8) : UInt8 := c_encTable.getD i.toNat 0

def encodeFrom : Bytes → Output → Output
  | p0 :: p1 :: p2 :: p_in, out =>
    encodeFrom p_in (out.put [enc (p0 >>> 2),
      enc (((p0 &&& 0x03) <<< 4) ||| ((p1 &&& 0xf0) >>> 4)),
      enc (((p1 &&& 0x0f) <<< 2) ||| ((p2 &&& 0xc0) >>> 6)), enc (p2 &&& 0x3f)])
  | [p0], out =>
    out.put [enc (p0 >>> 2), enc ((p0 &&& 0x03) <<< 4), c_paddingChar, c_paddingChar]
  | [p0, p1], out =>
    out.put [enc (p0 >>> 2), enc (((p0 &&& 0x03) <<< 4) ||| ((p1 &&& 0xf0) >>> 4)),
      enc ((p1 &&& 0x0f) <<< 2), c_paddingChar]
  | [], out => out

def encode (p_in : Bytes) : Output := encodeFrom p_in ⟨[], 0⟩

/-- A `char` is signed, and `static_cast<std::size_t>` extends its sign. -/
def toIndex (c : UInt8) : Nat := if c < 128 then c.toNat else 2 ^ 64 - 256 + c.toNat

/-- There is no answer past the end of the table. -/
def dec (c : UInt8) : Option UInt8 := c_decTable[toIndex c]?

def finishLast (p2 p3 u0 u1 u2 u3 : UInt8) (out : Output) : Bool × Output :=
  if u0 > 63 ∨ u1 > 63 ∨ (c_paddingChar = p2 ∧ c_paddingChar ≠ p3) then (false, out)
  else if u2 > 63 ∧ c_paddingChar ≠ p2 then (false, out)
  else if u3 > 63 ∧ c_paddingChar ≠ p3 then (false, out)
  else
    let out := out.put [(u0 <<< 2) ||| (u1 >>> 4)]
    if c_paddingChar = p2 then (decide (u1 &&& 0x0f = 0), out)
    else
      let out := out.put [(u1 <<< 4) ||| (u2 >>> 2)]
      if c_paddingChar = p3 then (decide (u3 &&& 0x03 = 0), out)
      else (true, out.put [(u2 <<< 6) ||| u3])

/-- There is no answer past the end of `p_in`. -/
def decodeLast (p_in : Bytes) (out : Output) : Option (Bool × Output) := do
  let p0 ← p_in[0]?
  let p1 ← p_in[1]?
  let p2 ← p_in[2]?
  let p3 ← p_in[3]?
  return finishLast p2 p3 (← dec p0) (← dec p1) (← dec p2) (← dec p3) out

def decodeFrom : Bytes → Output → Option (Bool × Output)
  | p0 :: p1 :: p2 :: p3 :: p4 :: p_in, out => do
    let u0 ← dec p0
    let u1 ← dec p1
    let u2 ← dec p2
    let u3 ← dec p3
    if u0 > 63 ∨ u1 > 63 ∨ u2 > 63 ∨ u3 > 63 then return (false, out)
    decodeFrom (p4 :: p_in) (out.put [(u0 <<< 2) ||| (u1 >>> 4), (u1 <<< 4) ||| (u2 >>> 2),
      (u2 <<< 6) ||| u3])
  | p_in, out => decodeLast p_in out

/-- The length that is reported keeps its value when the length is not a multiple of four. -/
def decode (p_in : Bytes) (p_outLen : Nat) : Option (Bool × Output) :=
  if p_in.length % 4 ≠ 0 then some (false, ⟨[], p_outLen⟩) else decodeFrom p_in ⟨[], 0⟩

def capacityForDecode (p_inLen : Nat) : Nat := (p_inLen / 4) * 3 + ((p_inLen % 4) * 2) / 3

theorem toNat_or_of_lt {x y : UInt8} {n k : Nat} (hx : x.toNat = n * 2 ^ k) (hy : y.toNat < 2 ^ k) :
    (x ||| y).toNat = n * 2 ^ k + y.toNat := by
  rw [UInt8.toNat_or, hx, ← Nat.shiftLeft_eq, ← Nat.shiftLeft_add_eq_or_of_lt hy]

theorem toNat_shiftRight (b : UInt8) {k : UInt8} (hk : k.toNat < 8) :
    (b >>> k).toNat = b.toNat / 2 ^ k.toNat := by
  rw [UInt8.toNat_shiftRight, Nat.shiftRight_eq_div_pow, Nat.mod_eq_of_lt hk]

theorem toNat_shiftLeft (b : UInt8) {k : UInt8} (hk : k.toNat < 8) :
    (b <<< k).toNat = b.toNat % 2 ^ (8 - k.toNat) * 2 ^ k.toNat := by
  rw [UInt8.toNat_shiftLeft, Nat.mod_eq_of_lt hk, Nat.shiftLeft_eq, ← Nat.mul_mod_mul_right,
    ← Nat.pow_add, Nat.sub_add_cancel hk.le]

theorem toNat_mask (b : UInt8) {m : UInt8} {k : Nat} (hm : m.toNat = 2 ^ k - 1) :
    (b &&& m).toNat = b.toNat % 2 ^ k := by
  rw [UInt8.toNat_and, hm, Nat.and_two_pow_sub_one_eq_mod]

theorem toNat_high (b : UInt8) : (b >>> 2).toNat = b.toNat / 4 ∧ (b >>> 4).toNat = b.toNat / 16 ∧
    ((b &&& 0xf0) >>> 4).toNat = b.toNat / 16 ∧ ((b &&& 0xc0) >>> 6).toNat = b.toNat / 64 := by
  have hb := b.toNat_lt
  refine ⟨toNat_shiftRight b (by decide), toNat_shiftRight b (by decide), ?_, ?_⟩
  · have hmask : b.toNat / 2 ^ 4 &&& 2 ^ 4 - 1 = b.toNat / 2 ^ 4 := by
      rw [Nat.and_two_pow_sub_one_eq_mod, Nat.mod_eq_of_lt (by omega)]
    rw [UInt8.toNat_shiftRight, UInt8.toNat_and, Nat.shiftRight_and_distrib,
      Nat.shiftRight_eq_div_pow]
    exact hmask
  · have hmask : b.toNat / 2 ^ 6 &&& 2 ^ 2 - 1 = b.toNat / 2 ^ 6 := by
      rw [Nat.and_two_pow_sub_one_eq_mod, Nat.mod_eq_of_lt (by omega)]
    rw [UInt8.toNat_shiftRight, UInt8.toNat_and, Nat.shiftRight_and_distrib,
      Nat.shiftRight_eq_div_pow]
    exact hmask

theorem toNat_low (b : UInt8) : (b &&& 0x3f).toNat = b.toNat % 64 ∧
    (b &&& 0x0f).toNat = b.toNat % 16 ∧ ((b &&& 0x03) <<< 4).toNat = b.toNat % 4 * 2 ^ 4 ∧
      ((b &&& 0x0f) <<< 2).toNat = b.toNat % 16 * 2 ^ 2 := by
  have hmask : (b &&& 0x03).toNat = b.toNat % 4 := toNat_mask b (k := 2) rfl
  have hmask' : (b &&& 0x0f).toNat = b.toNat % 16 := toNat_mask b (k := 4) rfl
  refine ⟨toNat_mask b (k := 6) rfl, hmask', ?_, ?_⟩
  · have hlt : b.toNat % 4 % 2 ^ 4 = b.toNat % 4 := Nat.mod_eq_of_lt (by omega)
    rw [toNat_shiftLeft _ (by decide), hmask]
    exact congrArg (· * 2 ^ 4) hlt
  · have hlt : b.toNat % 16 % 2 ^ 6 = b.toNat % 16 := Nat.mod_eq_of_lt (by omega)
    rw [toNat_shiftLeft _ (by decide), hmask']
    exact congrArg (· * 2 ^ 2) hlt

theorem toNat_shl (b : UInt8) : (b <<< 2).toNat = b.toNat % 64 * 2 ^ 2 ∧
    (b <<< 4).toNat = b.toNat % 16 * 2 ^ 4 ∧ (b <<< 6).toNat = b.toNat % 4 * 2 ^ 6 :=
  ⟨toNat_shiftLeft b (by decide), toNat_shiftLeft b (by decide), toNat_shiftLeft b (by decide)⟩

theorem toNat_sextets (a b c : UInt8) : (a >>> 2).toNat = a.toNat / 4 ∧
    (((a &&& 0x03) <<< 4) ||| ((b &&& 0xf0) >>> 4)).toNat = a.toNat % 4 * 2 ^ 4 + b.toNat / 16 ∧
    (((b &&& 0x0f) <<< 2) ||| ((c &&& 0xc0) >>> 6)).toNat = b.toNat % 16 * 2 ^ 2 + c.toNat / 64 ∧
      (c &&& 0x3f).toNat = c.toNat % 64 := by
  obtain ⟨-, -, hb, -⟩ := toNat_high b
  obtain ⟨-, -, -, hc⟩ := toNat_high c
  have hblt := b.toNat_lt
  have hclt := c.toNat_lt
  refine ⟨(toNat_high a).1, ?_, ?_, (toNat_low c).1⟩
  · rw [toNat_or_of_lt (toNat_low a).2.2.1 (by rw [hb]; omega), hb]
  · rw [toNat_or_of_lt (toNat_low b).2.2.2 (by rw [hc]; omega), hc]

theorem toNat_octets (u0 : UInt8) {u1 u2 u3 : UInt8} (h1 : u1.toNat < 64) (h2 : u2.toNat < 64)
    (h3 : u3.toNat < 64) :
    ((u0 <<< 2) ||| (u1 >>> 4)).toNat = u0.toNat % 64 * 2 ^ 2 + u1.toNat / 16 ∧
    ((u1 <<< 4) ||| (u2 >>> 2)).toNat = u1.toNat % 16 * 2 ^ 4 + u2.toNat / 4 ∧
      ((u2 <<< 6) ||| u3).toNat = u2.toNat % 4 * 2 ^ 6 + u3.toNat := by
  have hhigh := (toNat_high u1).2.1
  have hmid := (toNat_high u2).1
  refine ⟨?_, ?_, toNat_or_of_lt (toNat_shl u2).2.2 (by omega)⟩
  · rw [toNat_or_of_lt (toNat_shl u0).1 (by omega), hhigh]
  · rw [toNat_or_of_lt (toNat_shl u1).2.1 (by omega), hmid]

theorem octets_sextets {a b c u0 u1 u2 u3 : UInt8} (h0 : u0.toNat = a.toNat / 4)
    (h1 : u1.toNat = a.toNat % 4 * 2 ^ 4 + b.toNat / 16)
    (h2 : u2.toNat = b.toNat % 16 * 2 ^ 2 + c.toNat / 64) (h3 : u3.toNat = c.toNat % 64) :
    (u0 <<< 2) ||| (u1 >>> 4) = a ∧ (u1 <<< 4) ||| (u2 >>> 2) = b ∧ (u2 <<< 6) ||| u3 = c := by
  have ha := a.toNat_lt
  have hb := b.toNat_lt
  have hc := c.toNat_lt
  obtain ⟨hout0, hout1, hout2⟩ := @toNat_octets u0 u1 u2 u3 (by omega) (by omega) (by omega)
  refine ⟨UInt8.toNat_inj.mp ?_, UInt8.toNat_inj.mp ?_, UInt8.toNat_inj.mp ?_⟩
  · omega
  · omega
  · omega

theorem sextets_octets {a b c u0 u1 u2 u3 : UInt8} (h0 : u0.toNat < 64) (h1 : u1.toNat < 64)
    (h2 : u2.toNat < 64) (h3 : u3.toNat < 64) (ha : a = (u0 <<< 2) ||| (u1 >>> 4))
    (hb : b = (u1 <<< 4) ||| (u2 >>> 2)) (hc : c = (u2 <<< 6) ||| u3) :
    a >>> 2 = u0 ∧ ((a &&& 0x03) <<< 4) ||| ((b &&& 0xf0) >>> 4) = u1 ∧
      ((b &&& 0x0f) <<< 2) ||| ((c &&& 0xc0) >>> 6) = u2 ∧ c &&& 0x3f = u3 := by
  obtain ⟨hout0, hout1, hout2⟩ := toNat_octets u0 h1 h2 h3
  rw [← ha] at hout0
  rw [← hb] at hout1
  rw [← hc] at hout2
  obtain ⟨hin0, hin1, hin2, hin3⟩ := toNat_sextets a b c
  refine ⟨UInt8.toNat_inj.mp ?_, UInt8.toNat_inj.mp ?_, UInt8.toNat_inj.mp ?_,
    UInt8.toNat_inj.mp ?_⟩
  · omega
  · omega
  · omega
  · omega

def digit (c : UInt8) : UInt8 := (dec c).getD 64

@[simp] theorem length_decTable : c_decTable.length = 256 := by
  rw [c_decTable, List.length_append, List.length_replicate]
  rfl

theorem dec_eq (c : UInt8) : dec c = if c < 128 then some (digit c) else none := by
  have hc := c.toNat_lt
  unfold digit dec toIndex
  by_cases h : c < 128
  · rw [if_pos h, if_pos h, List.getElem?_eq_getElem (length_decTable ▸ hc), Option.getD_some]
  · rw [if_neg h, if_neg h, List.getElem?_eq_none (by rw [length_decTable]; omega)]

theorem dec_of_lt {c : UInt8} (h : c < 128) : dec c = some (digit c) := by rw [dec_eq, if_pos h]

theorem enc_spec {i : UInt8} (h : i.toNat < 64) :
    digit (enc i) = i ∧ enc i < 128 ∧ enc i ≠ c_paddingChar := by
  revert i
  decide +kernel

theorem digit_eq {c : UInt8} (h : c < 128) : digit c = c_decTable.getD c.toNat 64 := by
  rw [digit, dec, toIndex, if_pos h, List.getD_eq_getElem?_getD]

theorem enc_table : ∀ n < 128, (c_decTable.getD n 64).toNat < 64 →
    c_encTable.getD (c_decTable.getD n 64).toNat 0 = UInt8.ofNat n := by
  decide +kernel

theorem enc_digit {c : UInt8} (h : (digit c).toNat < 64) : enc (digit c) = c := by
  by_cases hc : c < 128
  · rw [digit_eq hc] at h ⊢
    exact (enc_table _ hc h).trans UInt8.ofNat_toNat
  · rw [digit, dec_eq, if_neg hc] at h
    exact absurd h (lt_irrefl 64)

theorem dec_eq_some_iff {c u : UInt8} : dec c = some u ↔ c < 128 ∧ digit c = u := by
  rw [dec_eq, Option.ite_none_right_eq_some, Option.some.injEq]

theorem mem_encTable {c : UInt8} : c ∈ c_encTable ↔ ∃ i : UInt8, i.toNat < 64 ∧ enc i = c := by
  constructor
  · intro h
    obtain ⟨n, hn, hget⟩ := List.mem_iff_getElem.mp h
    have hlt : n < 64 := by simpa [c_encTable] using hn
    have hi : (UInt8.ofNat n).toNat = n := by
      rw [UInt8.toNat_ofNat']
      omega
    refine ⟨UInt8.ofNat n, by rwa [hi], ?_⟩
    rw [enc, hi, List.getD_eq_getElem _ _ hn, hget]
  · rintro ⟨i, hi, rfl⟩
    rw [enc, List.getD_eq_getElem _ _ (by simpa [c_encTable] using hi)]
    exact List.getElem_mem _

theorem digit_lt_iff {c : UInt8} : (digit c).toNat < 64 ↔ c ∈ c_encTable := by
  rw [mem_encTable]
  constructor
  · exact fun h => ⟨digit c, h, enc_digit h⟩
  · rintro ⟨i, hi, rfl⟩
    rwa [(enc_spec hi).1]

theorem digit_padding : digit c_paddingChar = 64 := rfl

section Put

variable (out : Output) (a b : Bytes)

@[simp] theorem put_p_out : (out.put a).p_out = out.p_out ++ a := rfl

@[simp] theorem put_put : (out.put a).put b = out.put (a ++ b) := by
  simp [Output.put, Nat.add_assoc]

@[simp] theorem put_nil : out.put [] = out := by simp [Output.put]

theorem init_put : Output.put ⟨[], 0⟩ a = ⟨a, a.length⟩ := by simp [Output.put]

end Put

def group (a b c : UInt8) : Bytes :=
  [enc (a >>> 2), enc (((a &&& 0x03) <<< 4) ||| ((b &&& 0xf0) >>> 4)),
    enc (((b &&& 0x0f) <<< 2) ||| ((c &&& 0xc0) >>> 6)), enc (c &&& 0x3f)]

theorem encodeFrom_eq (x : Bytes) (out : Output) :
    encodeFrom x out = out.put (encode x).p_out := by
  unfold encode
  match x with
  | [] => exact (put_nil out).symm
  | [a] => rw [encodeFrom, encodeFrom, init_put]
  | [a, b] => rw [encodeFrom, encodeFrom, init_put]
  | a :: b :: c :: x =>
    rw [encodeFrom, encodeFrom, encodeFrom_eq x, encodeFrom_eq x, put_put, put_p_out, put_p_out]
    rfl

theorem encode_cons (a b c : UInt8) (x : Bytes) :
    (encode (a :: b :: c :: x)).p_out = group a b c ++ (encode x).p_out := by
  rw [encode, encodeFrom, encodeFrom_eq, put_put, init_put, group]

theorem encode_one (a : UInt8) : (encode [a]).p_out =
    [enc (a >>> 2), enc ((a &&& 0x03) <<< 4), c_paddingChar, c_paddingChar] := by
  rw [encode, encodeFrom, init_put]

theorem encode_two (a b : UInt8) : (encode [a, b]).p_out =
    [enc (a >>> 2), enc (((a &&& 0x03) <<< 4) ||| ((b &&& 0xf0) >>> 4)),
      enc ((b &&& 0x0f) <<< 2), c_paddingChar] := by
  rw [encode, encodeFrom, init_put]

theorem encode_length (x : Bytes) : (encode x).p_out.length % 4 = 0 ∧
    ((encode x).p_out = [] ↔ x = []) := by
  match x with
  | [] => exact ⟨rfl, iff_of_true rfl rfl⟩
  | [a] =>
    rw [encode_one]
    exact ⟨by simp, iff_of_false (fun h => nomatch h) (fun h => nomatch h)⟩
  | [a, b] =>
    rw [encode_two]
    exact ⟨by simp, iff_of_false (fun h => nomatch h) (fun h => nomatch h)⟩
  | a :: b :: c :: x =>
    have ih := (encode_length x).1
    rw [encode_cons]
    refine ⟨?_, iff_of_false (fun h => nomatch h) (fun h => nomatch h)⟩
    rw [List.length_append, group]
    simp only [List.length_cons, List.length_nil]
    omega

/-- The last group ends in one `=`, although the character before it holds bits of a third
byte. -/
def Loose (p_in : Bytes) : Prop :=
  ∃ p0 p1 p2, p_in = [p0, p1, p2, c_paddingChar] ∧ p0 ∈ c_encTable ∧ p1 ∈ c_encTable ∧
    ∃ i : UInt8, i.toNat < 64 ∧ enc i = p2 ∧ i.toNat % 4 ≠ 0

/-- No character that the decoder comes to is out of ASCII, and the last group is there and
not loose. -/
def Sound : Bytes → Prop
  | p0 :: p1 :: p2 :: p3 :: p4 :: p_in => (∀ c ∈ [p0, p1, p2, p3], c < 128) ∧
    ((∀ c ∈ [p0, p1, p2, p3], c ∈ c_encTable) → Sound (p4 :: p_in))
  | p_in => p_in ≠ [] ∧ (∀ c ∈ p_in, c < 128) ∧ ¬ Loose p_in

theorem digit_gt_iff {c : UInt8} : digit c > 63 ↔ c ∉ c_encTable := by
  rw [← digit_lt_iff, gt_iff_lt, UInt8.lt_iff_toNat_lt, Nat.not_lt]
  rfl

section Last

variable {p0 p1 p2 p3 : UInt8} {out out' : Output}

theorem finishLast_length (p2 p3 u0 u1 u2 u3 : UInt8) (out : Output) :
    (finishLast p2 p3 u0 u1 u2 u3 out).2.p_out.length ≤ out.p_out.length + 3 := by
  unfold finishLast
  split_ifs <;> simp [Output.put]

theorem low_bits {u : UInt8} : (u &&& 0x0f = 0 ↔ u.toNat % 16 = 0) ∧
    (u &&& 0x03 = 0 ↔ u.toNat % 4 = 0) := by
  have hmask : (u &&& 0x0f).toNat = u.toNat % 16 := toNat_mask u (k := 4) rfl
  have hmask' : (u &&& 0x03).toNat = u.toNat % 4 := toNat_mask u (k := 2) rfl
  rw [← UInt8.toNat_inj, ← UInt8.toNat_inj, hmask, hmask']
  exact ⟨.rfl, .rfl⟩

theorem encode_of_one {u0 u1 : UInt8} (h0 : u0.toNat < 64) (h1 : u1.toNat < 64)
    (hlow : u1.toNat % 16 = 0) : (encode [(u0 <<< 2) ||| (u1 >>> 4)]).p_out =
      [enc u0, enc u1, c_paddingChar, c_paddingChar] := by
  obtain ⟨ha, -, -⟩ := @toNat_octets u0 u1 0 0 h1 (by decide) (by decide)
  have hfirst : ((u0 <<< 2) ||| (u1 >>> 4)) >>> 2 = u0 := by
    apply UInt8.toNat_inj.mp
    rw [(toNat_high _).1, ha]
    omega
  have hsecond : (((u0 <<< 2) ||| (u1 >>> 4)) &&& 0x03) <<< 4 = u1 := by
    apply UInt8.toNat_inj.mp
    rw [(toNat_low _).2.2.1, ha]
    omega
  rw [encode_one, hfirst, hsecond]

theorem encode_of_two {u0 u1 u2 : UInt8} (h0 : u0.toNat < 64) (h1 : u1.toNat < 64)
    (h2 : u2.toNat < 64) (hlow : u2.toNat % 4 = 0) :
    (encode [(u0 <<< 2) ||| (u1 >>> 4), (u1 <<< 4) ||| (u2 >>> 2)]).p_out =
      [enc u0, enc u1, enc u2, c_paddingChar] := by
  obtain ⟨hfirst, hsecond, -, -⟩ := sextets_octets h0 h1 h2 (by decide : (0 : UInt8).toNat < 64)
    rfl rfl rfl
  obtain ⟨-, hb, -⟩ := @toNat_octets u0 u1 u2 0 h1 h2 (by decide)
  have hthird : (((u1 <<< 4) ||| (u2 >>> 2)) &&& 0x0f) <<< 2 = u2 := by
    apply UInt8.toNat_inj.mp
    rw [(toNat_low _).2.2.2, hb]
    omega
  rw [encode_two, hfirst, hsecond, hthird]

theorem group_octets {u0 u1 u2 u3 : UInt8} (h0 : u0.toNat < 64) (h1 : u1.toNat < 64)
    (h2 : u2.toNat < 64) (h3 : u3.toNat < 64) :
    group ((u0 <<< 2) ||| (u1 >>> 4)) ((u1 <<< 4) ||| (u2 >>> 2)) ((u2 <<< 6) ||| u3) =
      [enc u0, enc u1, enc u2, enc u3] := by
  obtain ⟨hfirst, hsecond, hthird, hfourth⟩ := sextets_octets h0 h1 h2 h3 rfl rfl rfl
  rw [group, hfirst, hsecond, hthird, hfourth]

theorem finishLast_accept
    (h : finishLast p2 p3 (digit p0) (digit p1) (digit p2) (digit p3) out = (true, out'))
    (hloose : ¬ Loose [p0, p1, p2, p3]) :
    ∃ x, x ≠ [] ∧ out' = out.put x ∧ (encode x).p_out = [p0, p1, p2, p3] := by
  unfold finishLast at h
  simp only [digit_gt_iff] at h
  split_ifs at h with hbad hbad2 hbad3 hpad2 hpad3
  iterate 3 cases h
  all_goals
    obtain ⟨hok, rfl⟩ := Prod.mk.inj h
    simp only [not_or, not_not, not_and] at hbad hbad2 hbad3
    have hp0 := digit_lt_iff.mpr hbad.1
    have hp1 := digit_lt_iff.mpr hbad.2.1
  · have hp3 := hbad.2.2 hpad2
    refine ⟨_, List.cons_ne_nil _ _, rfl, ?_⟩
    rw [encode_of_one hp0 hp1 (low_bits.1.mp (of_decide_eq_true hok)), enc_digit hp0,
      enc_digit hp1, ← hpad2, ← hp3]
  · have hp2 := digit_lt_iff.mpr (Decidable.not_imp_comm.mp hbad2 hpad2)
    have hlow : (digit p2).toNat % 4 = 0 := by
      by_contra hne
      exact hloose ⟨p0, p1, p2, by rw [hpad3], hbad.1, hbad.2.1, digit p2, hp2, enc_digit hp2, hne⟩
    refine ⟨[_, _], List.cons_ne_nil _ _, put_put _ _ _, ?_⟩
    rw [encode_of_two hp0 hp1 hp2 hlow, enc_digit hp0,
      enc_digit hp1, enc_digit hp2, hpad3]
  · have hp2 := digit_lt_iff.mpr (Decidable.not_imp_comm.mp hbad2 hpad2)
    have hp3 := digit_lt_iff.mpr (Decidable.not_imp_comm.mp hbad3 hpad3)
    refine ⟨[_, _, _], List.cons_ne_nil _ _, by rw [put_put, put_put]; rfl, ?_⟩
    rw [encode_cons, group_octets hp0 hp1 hp2 hp3, enc_digit hp0, enc_digit hp1, enc_digit hp2,
      enc_digit hp3]
    rfl

end Last

section Groups

variable {p0 p1 p2 p3 p4 : UInt8} {p_in : Bytes} (out : Output)

theorem decodeLast_four (h : ∀ c ∈ [p0, p1, p2, p3], c < 128) : decodeFrom [p0, p1, p2, p3] out =
    some (finishLast p2 p3 (digit p0) (digit p1) (digit p2) (digit p3) out) := by
  simp only [List.forall_mem_cons] at h
  obtain ⟨h0, h1, h2, h3, -⟩ := h
  change decodeLast [p0, p1, p2, p3] out = _
  simp [decodeLast, dec_of_lt h0, dec_of_lt h1, dec_of_lt h2, dec_of_lt h3]

theorem decodeLast_four_none (h : ¬ ∀ c ∈ [p0, p1, p2, p3], c < 128) :
    decodeFrom [p0, p1, p2, p3] out = none := by
  change decodeLast [p0, p1, p2, p3] out = _
  by_contra hsome
  obtain ⟨r, hr⟩ := Option.ne_none_iff_exists'.mp hsome
  simp only [decodeLast, Option.bind_eq_bind, Option.bind_eq_some_iff, dec_eq_some_iff,
    List.getElem?_cons_zero, List.getElem?_cons_succ, Option.some.injEq] at hr
  obtain ⟨_, rfl, _, rfl, _, rfl, _, rfl, _, ⟨h0, -⟩, _, ⟨h1, -⟩, _, ⟨h2, -⟩, _, ⟨h3, -⟩, -⟩ := hr
  exact h (by simp [h0, h1, h2, h3])

theorem decodeFrom_group (h : ∀ c ∈ [p0, p1, p2, p3], c < 128) :
    decodeFrom (p0 :: p1 :: p2 :: p3 :: p4 :: p_in) out =
      if ∀ c ∈ [p0, p1, p2, p3], c ∈ c_encTable then
        decodeFrom (p4 :: p_in) (out.put [(digit p0 <<< 2) ||| (digit p1 >>> 4),
          (digit p1 <<< 4) ||| (digit p2 >>> 2), (digit p2 <<< 6) ||| digit p3])
      else some (false, out) := by
  simp only [List.forall_mem_cons] at h
  obtain ⟨h0, h1, h2, h3, -⟩ := h
  rw [decodeFrom, dec_of_lt h0, dec_of_lt h1, dec_of_lt h2, dec_of_lt h3]
  simp only [Option.bind_eq_bind, Option.bind_some, digit_gt_iff, List.forall_mem_cons]
  split_ifs <;> simp_all

theorem decodeFrom_group_none (h : ¬ ∀ c ∈ [p0, p1, p2, p3], c < 128) :
    decodeFrom (p0 :: p1 :: p2 :: p3 :: p4 :: p_in) out = none := by
  by_contra hsome
  obtain ⟨r, hr⟩ := Option.ne_none_iff_exists'.mp hsome
  simp only [decodeFrom, Option.bind_eq_bind, Option.bind_eq_some_iff, dec_eq_some_iff] at hr
  obtain ⟨_, ⟨h0, -⟩, _, ⟨h1, -⟩, _, ⟨h2, -⟩, _, ⟨h3, -⟩, -⟩ := hr
  exact h (by simp [h0, h1, h2, h3])

end Groups

theorem decodeFrom_of_sound : ∀ {p_in : Bytes} (out : Output), Sound p_in →
    p_in.length % 4 = 0 → ∃ ok out', decodeFrom p_in out = some (ok, out') ∧
      out'.p_out.length ≤ out.p_out.length + p_in.length / 4 * 3 ∧
      (ok = true → ∃ x, out' = out.put x ∧ (encode x).p_out = p_in)
  | [], _, h, _ => absurd rfl h.1
  | [p0, p1, p2, p3], out, h, _ => by
    have hle := finishLast_length p2 p3 (digit p0) (digit p1) (digit p2) (digit p3) out
    rcases hlast : finishLast p2 p3 (digit p0) (digit p1) (digit p2) (digit p3) out with ⟨ok, out'⟩
    rw [hlast] at hle
    refine ⟨ok, out', (decodeLast_four out h.2.1).trans (congrArg some hlast),
      by simpa using hle, ?_⟩
    rintro rfl
    obtain ⟨x, -, hout, hx⟩ := finishLast_accept hlast h.2.2
    exact ⟨x, hout, hx⟩
  | p0 :: p1 :: p2 :: p3 :: p4 :: p_in, out, h, hlen => by
    rw [decodeFrom_group out h.1]
    simp only [List.length_cons] at hlen ⊢
    split_ifs with hmem
    · obtain ⟨ok, out', hrun, hle, hok⟩ := decodeFrom_of_sound (out.put _) (h.2 hmem)
        (by rw [List.length_cons]; omega)
      refine ⟨ok, out', hrun, hle.trans ?_, fun htrue => ?_⟩
      · simp only [put_p_out, List.length_append, List.length_cons, List.length_nil]
        omega
      · obtain ⟨x, rfl, hx⟩ := hok htrue
        simp only [List.forall_mem_cons, ← digit_lt_iff] at hmem
        obtain ⟨h0, h1, h2, h3, -⟩ := hmem
        refine ⟨_ :: _ :: _ :: x, put_put _ _ _, ?_⟩
        rw [encode_cons, group_octets h0 h1 h2 h3, enc_digit h0, enc_digit h1, enc_digit h2,
          enc_digit h3, hx]
        rfl
    · exact ⟨false, out, rfl, Nat.le_add_right _ _, fun h => nomatch h⟩

theorem finishLast_loose {p0 p1 p2 p3 : UInt8} (h : Loose [p0, p1, p2, p3]) (out : Output) :
    (finishLast p2 p3 (digit p0) (digit p1) (digit p2) (digit p3) out).1 = true := by
  obtain ⟨q0, q1, q2, heq, h0, h1, i, hi, rfl, -⟩ := h
  obtain ⟨rfl, rfl, rfl, rfl⟩ : p0 = q0 ∧ p1 = q1 ∧ p2 = enc i ∧ p3 = c_paddingChar := by
    simpa using heq
  have hmem := mem_encTable.mpr ⟨i, hi, rfl⟩
  have hne := (enc_spec hi).2.2
  unfold finishLast
  simp only [digit_gt_iff]
  rw [if_neg (by simp [h0, h1, hne.symm]), if_neg (by simp [hmem]), if_neg (by simp),
    if_neg hne.symm, if_pos True.intro, digit_padding]
  rfl

theorem decodeFrom_of_not_sound : ∀ {p_in : Bytes} (out : Output), ¬ Sound p_in →
    p_in.length % 4 = 0 →
      decodeFrom p_in out = none ∨ ∃ out', decodeFrom p_in out = some (true, out')
  | [], _, _, _ => .inl rfl
  | [p0, p1, p2, p3], out, h, _ => by
    by_cases hascii : ∀ c ∈ [p0, p1, p2, p3], c < 128
    · have hloose : Loose [p0, p1, p2, p3] := by
        by_contra hnot
        exact h ⟨List.cons_ne_nil _ _, hascii, hnot⟩
      have hok := finishLast_loose hloose out
      rw [decodeLast_four out hascii]
      exact .inr ⟨_, congrArg some (Prod.ext hok rfl)⟩
    · exact .inl (decodeLast_four_none out hascii)
  | p0 :: p1 :: p2 :: p3 :: p4 :: p_in, out, h, hlen => by
    by_cases hascii : ∀ c ∈ [p0, p1, p2, p3], c < 128
    · obtain ⟨hmem, hrest⟩ : (∀ c ∈ [p0, p1, p2, p3], c ∈ c_encTable) ∧ ¬ Sound (p4 :: p_in) := by
        by_contra hnot
        exact h ⟨hascii, fun hmem => by_contra fun hrest => hnot ⟨hmem, hrest⟩⟩
      rw [decodeFrom_group out hascii, if_pos hmem]
      simp only [List.length_cons] at hlen
      exact decodeFrom_of_not_sound _ hrest (by rw [List.length_cons]; omega)
    · exact .inl (decodeFrom_group_none out hascii)

theorem not_gt {u : UInt8} (h : u.toNat < 64) : ¬ u > 63 := by
  rw [gt_iff_lt, UInt8.lt_iff_toNat_lt, Nat.not_lt]
  exact Nat.le_of_lt_succ h

section Finish

variable {u0 u1 u2 u3 p2 p3 : UInt8} (out : Output) (h0 : u0.toNat < 64) (h1 : u1.toNat < 64)
include h0 h1

theorem finishLast_one (hlow : u1.toNat % 16 = 0) :
    finishLast c_paddingChar c_paddingChar u0 u1 u2 u3 out =
      (true, out.put [(u0 <<< 2) ||| (u1 >>> 4)]) := by
  rw [finishLast, if_neg (by simp [not_gt h0, not_gt h1]), if_neg (by simp), if_neg (by simp),
    if_pos rfl, decide_eq_true (low_bits.1.mpr hlow)]

theorem finishLast_two (h2 : u2.toNat < 64) (hp2 : p2 ≠ c_paddingChar) :
    finishLast p2 c_paddingChar u0 u1 u2 64 out =
      (true, out.put [(u0 <<< 2) ||| (u1 >>> 4), (u1 <<< 4) ||| (u2 >>> 2)]) := by
  rw [finishLast, if_neg (by simp [not_gt h0, not_gt h1]), if_neg (by simp [not_gt h2]),
    if_neg (by simp), if_neg hp2.symm, if_pos rfl, put_put]
  rfl

theorem finishLast_three (h2 : u2.toNat < 64) (h3 : u3.toNat < 64) (hp2 : p2 ≠ c_paddingChar)
    (hp3 : p3 ≠ c_paddingChar) : finishLast p2 p3 u0 u1 u2 u3 out =
      (true, out.put
        [(u0 <<< 2) ||| (u1 >>> 4), (u1 <<< 4) ||| (u2 >>> 2), (u2 <<< 6) ||| u3]) := by
  rw [finishLast, if_neg (by simp [not_gt h0, not_gt h1, hp2.symm]), if_neg (by simp [not_gt h2]),
    if_neg (by simp [not_gt h3]), if_neg hp2.symm, if_neg hp3.symm, put_put, put_put]
  rfl

end Finish

theorem encode_one_parts (a : UInt8) : ∃ u0 u1 : UInt8,
    (encode [a]).p_out = [enc u0, enc u1, c_paddingChar, c_paddingChar] ∧
      u0.toNat < 64 ∧ u1.toNat < 64 ∧ u1.toNat % 16 = 0 ∧ (u0 <<< 2) ||| (u1 >>> 4) = a := by
  have h0 := (toNat_high a).1
  have h1 := (toNat_low a).2.2.1
  have ha := a.toNat_lt
  refine ⟨_, _, encode_one a, by omega, by omega, by omega, ?_⟩
  exact (@octets_sextets a 0 0 _ _ 0 0 h0 h1 rfl rfl).1

theorem encode_two_parts (a b : UInt8) : ∃ u0 u1 u2 : UInt8,
    (encode [a, b]).p_out = [enc u0, enc u1, enc u2, c_paddingChar] ∧
      u0.toNat < 64 ∧ u1.toNat < 64 ∧ u2.toNat < 64 ∧ u2.toNat % 4 = 0 ∧
        (u0 <<< 2) ||| (u1 >>> 4) = a ∧ (u1 <<< 4) ||| (u2 >>> 2) = b := by
  obtain ⟨h0, h1, -, -⟩ := toNat_sextets a b 0
  have h2 := (toNat_low b).2.2.2
  have ha := a.toNat_lt
  have hb := b.toNat_lt
  obtain ⟨hfirst, hsecond, -⟩ := @octets_sextets a b 0 _ _ _ 0 h0 h1 h2 rfl
  exact ⟨_, _, _, encode_two a b, by omega, by omega, by omega, by omega, hfirst, hsecond⟩

theorem group_parts (a b c : UInt8) : ∃ u0 u1 u2 u3 : UInt8,
    group a b c = [enc u0, enc u1, enc u2, enc u3] ∧
      u0.toNat < 64 ∧ u1.toNat < 64 ∧ u2.toNat < 64 ∧ u3.toNat < 64 ∧
        (u0 <<< 2) ||| (u1 >>> 4) = a ∧ (u1 <<< 4) ||| (u2 >>> 2) = b ∧
          (u2 <<< 6) ||| u3 = c := by
  obtain ⟨h0, h1, h2, h3⟩ := toNat_sextets a b c
  have ha := a.toNat_lt
  have hb := b.toNat_lt
  have hc := c.toNat_lt
  exact ⟨_, _, _, _, rfl, by omega, by omega, by omega, by omega, octets_sextets h0 h1 h2 h3⟩

theorem loose_spec {q0 q1 q2 q3 : UInt8} (h : Loose [q0, q1, q2, q3]) :
    q3 = c_paddingChar ∧ q2 ∈ c_encTable ∧ (digit q2).toNat % 4 ≠ 0 := by
  obtain ⟨p0, p1, p2, heq, -, -, i, hi, rfl, hlow⟩ := h
  obtain ⟨-, -, rfl, rfl⟩ : q0 = p0 ∧ q1 = p1 ∧ q2 = enc i ∧ q3 = c_paddingChar := by
    simpa using heq
  rw [(enc_spec hi).1]
  exact ⟨rfl, mem_encTable.mpr ⟨i, hi, rfl⟩, hlow⟩

theorem padding_lt : c_paddingChar < 128 ∧ c_paddingChar ∉ c_encTable := by
  rw [← digit_lt_iff, digit_padding]
  decide

theorem encode_sound : ∀ {x : Bytes} (out : Output), x ≠ [] →
    Sound (encode x).p_out ∧ decodeFrom (encode x).p_out out = some (true, out.put x)
  | [], _, h => absurd rfl h
  | [a], out, _ => by
    obtain ⟨u0, u1, henc, h0, h1, hlow, rfl⟩ := encode_one_parts a
    have hascii : ∀ c ∈ [enc u0, enc u1, c_paddingChar, c_paddingChar], c < 128 := by
      simp [(enc_spec h0).2.1, (enc_spec h1).2.1, padding_lt.1]
    rw [henc, decodeLast_four out hascii, (enc_spec h0).1, (enc_spec h1).1,
      finishLast_one out h0 h1 hlow]
    exact ⟨⟨List.cons_ne_nil _ _, hascii, fun hl => padding_lt.2 (loose_spec hl).2.1⟩, rfl⟩
  | [a, b], out, _ => by
    obtain ⟨u0, u1, u2, henc, h0, h1, h2, hlow, rfl, rfl⟩ := encode_two_parts a b
    have hascii : ∀ c ∈ [enc u0, enc u1, enc u2, c_paddingChar], c < 128 := by
      simp [(enc_spec h0).2.1, (enc_spec h1).2.1, (enc_spec h2).2.1, padding_lt.1]
    rw [henc, decodeLast_four out hascii, (enc_spec h0).1, (enc_spec h1).1, (enc_spec h2).1,
      digit_padding, finishLast_two out h0 h1 h2 (enc_spec h2).2.2]
    refine ⟨⟨List.cons_ne_nil _ _, hascii, fun hl => (loose_spec hl).2.2 ?_⟩, rfl⟩
    rwa [(enc_spec h2).1]
  | a :: b :: c :: x, out, _ => by
    obtain ⟨u0, u1, u2, u3, henc, h0, h1, h2, h3, rfl, rfl, rfl⟩ := group_parts a b c
    have hascii : ∀ c ∈ [enc u0, enc u1, enc u2, enc u3], c < 128 := by
      simp [(enc_spec h0).2.1, (enc_spec h1).2.1, (enc_spec h2).2.1, (enc_spec h3).2.1]
    have hmem : ∀ c ∈ [enc u0, enc u1, enc u2, enc u3], c ∈ c_encTable := by
      simp only [List.forall_mem_cons, mem_encTable]
      exact ⟨⟨u0, h0, rfl⟩, ⟨u1, h1, rfl⟩, ⟨u2, h2, rfl⟩, ⟨u3, h3, rfl⟩, fun _ h => nomatch h⟩
    rw [encode_cons, henc]
    cases x with
    | nil =>
      change Sound [_, _, _, _] ∧ decodeFrom [_, _, _, _] out = _
      rw [decodeLast_four out hascii, (enc_spec h0).1, (enc_spec h1).1, (enc_spec h2).1,
        (enc_spec h3).1, finishLast_three out h0 h1 h2 h3 (enc_spec h2).2.2 (enc_spec h3).2.2]
      exact ⟨⟨List.cons_ne_nil _ _, hascii, fun hl => (enc_spec h3).2.2 (loose_spec hl).1⟩, rfl⟩
    | cons d x =>
      obtain ⟨hsound, hrun⟩ := encode_sound (out.put _) (List.cons_ne_nil d x)
      obtain ⟨p4, p_in, hrest⟩ := List.exists_cons_of_ne_nil
        (fun h => List.cons_ne_nil d x ((encode_length (d :: x)).2.mp h))
      rw [hrest] at hsound hrun ⊢
      refine ⟨⟨hascii, fun _ => hsound⟩, ?_⟩
      rw [List.cons_append, List.cons_append, List.cons_append, List.cons_append, List.nil_append,
        decodeFrom_group out hascii, if_pos hmem, (enc_spec h0).1, (enc_spec h1).1,
        (enc_spec h2).1, (enc_spec h3).1, hrun, put_put]
      rfl

/-- Nothing is read that is not there, at most `capacityForDecode` bytes are written, and a
string is accepted exactly when it is the encoding of the bytes that come out. -/
def Meets (p_in : Bytes) : Prop :=
  ∀ p_outLen, ∃ ok out, decode p_in p_outLen = some (ok, out) ∧
    out.p_out.length ≤ capacityForDecode p_in.length ∧
    (ok = true → ∃ x, (encode x).p_out = p_in ∧ out = ⟨x, x.length⟩) ∧
    ∀ x, (encode x).p_out = p_in → ok = true ∧ out = ⟨x, x.length⟩

theorem decode_groups {p_in : Bytes} (h : p_in.length % 4 = 0) (p_outLen : Nat) :
    decode p_in p_outLen = decodeFrom p_in ⟨[], 0⟩ := if_neg (not_not.mpr h)

theorem decode_encode {x : Bytes} (h : x ≠ []) (p_outLen : Nat) :
    decode (encode x).p_out p_outLen = some (true, ⟨x, x.length⟩) := by
  rw [decode_groups (encode_length x).1, (encode_sound _ h).2, init_put]

theorem meets_of_sound {p_in : Bytes} (h : Sound p_in) (hlen : p_in.length % 4 = 0) :
    Meets p_in := by
  intro p_outLen
  obtain ⟨ok, out, hrun, hle, hok⟩ := decodeFrom_of_sound ⟨[], 0⟩ h hlen
  rw [← decode_groups hlen p_outLen] at hrun
  refine ⟨ok, out, hrun, ?_, fun htrue => ?_, fun x hx => ?_⟩
  · rw [capacityForDecode, hlen]
    simpa using hle
  · obtain ⟨x, hout, hx⟩ := hok htrue
    exact ⟨x, hx, hout.trans (init_put x)⟩
  · subst hx
    have hne : x ≠ [] := by
      rintro rfl
      exact h.1 rfl
    rw [decode_encode hne] at hrun
    obtain ⟨rfl, rfl⟩ := Prod.mk.inj (Option.some.inj hrun)
    exact ⟨rfl, rfl⟩

theorem sound_of_meets {p_in : Bytes} (h : Meets p_in) (hlen : p_in.length % 4 = 0) :
    Sound p_in := by
  obtain ⟨ok, out, hrun, -, hok, -⟩ := h 0
  rw [decode_groups hlen] at hrun
  by_contra hsound
  rcases decodeFrom_of_not_sound ⟨[], 0⟩ hsound hlen with hnone | ⟨out', hsome⟩
  · exact nomatch hnone.symm.trans hrun
  · obtain ⟨rfl, rfl⟩ := Prod.mk.inj (Option.some.inj (hrun.symm.trans hsome))
    obtain ⟨x, rfl, -⟩ := hok rfl
    apply hsound
    refine (encode_sound ⟨[], 0⟩ ?_).1
    rintro rfl
    -- the empty string is not decoded at all
    exact nomatch hrun

theorem meets_of_ragged {p_in : Bytes} (h : p_in.length % 4 ≠ 0) : Meets p_in := by
  intro p_outLen
  refine ⟨false, ⟨[], p_outLen⟩, if_pos h, Nat.zero_le _,
    fun htrue => absurd htrue Bool.false_ne_true, fun x hx => ?_⟩
  exact absurd (hx ▸ (encode_length x).1) h

/-- Bytes come back unless there are none; a string is judged right if it has no whole number
of groups, or is sound. -/
theorem codec_iff (x p_in : Bytes) :
    ((∀ p_outLen, decode (encode x).p_out p_outLen = some (true, ⟨x, x.length⟩)) ↔ x ≠ []) ∧
      (Meets p_in ↔ p_in.length % 4 ≠ 0 ∨ Sound p_in) := by
  refine ⟨⟨?_, fun hx => decode_encode hx⟩, ?_⟩
  · rintro h rfl
    exact nomatch h 0
  · by_cases hlen : p_in.length % 4 = 0
    · rw [or_iff_right (not_not.mpr hlen)]
      exact ⟨fun h => sound_of_meets h hlen, fun h => meets_of_sound h hlen⟩
    · exact iff_of_true (meets_of_ragged hlen) (.inl hlen)

theorem not_codec : ¬ ((∀ x p_outLen, decode (encode x).p_out p_outLen =
    some (true, ⟨x, x.length⟩)) ∧ ∀ p_in, Meets p_in) := by
  rintro ⟨-, h⟩
  obtain ⟨ok, out, hrun, -, hok, -⟩ := h [65, 65, 66, 61] 0
  have hdecode : decode [65, 65, 66, 61] 0 = some (true, ⟨[0, 0], 2⟩) := by decide +kernel
  obtain ⟨rfl, rfl⟩ := Prod.mk.inj (Option.some.inj (hdecode.symm.trans hrun))
  obtain ⟨x, hx, hout⟩ := hok rfl
  obtain ⟨rfl, -⟩ : x = [0, 0] ∧ True := ⟨(Output.mk.inj hout).1.symm, trivial⟩
  exact absurd hx (by decide +kernel)

end Sptag.Helper.Base64
