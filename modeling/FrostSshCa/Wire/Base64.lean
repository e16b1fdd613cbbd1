import FrostSshCa.Wire.CString

/-!
# Base64

`base64_encode` of `main.rs` and `b64_decode` of `frost_coordinator.c`. The first writes padding,
the second takes it off and reads the last group by its length.
-/

namespace FrostSshCa

/-! ## `base64_encode` -/

/-- `CHARS` -/
def b64Chars : Bytes := ascii "ABCDEFGHIJKLMNOPQRSTUVWXYZabcdefghijklmnopqrstuvwxyz0123456789+/"

def b64Char (n : Nat) : UInt8 := b64Chars.getD n 0

/-- The four characters of three bytes, of which the last two may be missing. -/
def b64EncodeGroup (b0 : UInt8) (b1 b2 : Option UInt8) : Bytes :=
  let x0 := b0.toNat
  let x1 := (b1.getD 0).toNat
  let x2 := (b2.getD 0).toNat
  [b64Char (x0 >>> 2), b64Char ((x0 &&& 3) <<< 4 ||| x1 >>> 4),
    if b1.isSome then b64Char ((x1 &&& 15) <<< 2 ||| x2 >>> 6) else 61,
    if b2.isSome then b64Char (x2 &&& 63) else 61]

/-- `base64_encode` -/
def base64Encode : Bytes → Bytes
  | [] => []
  | [b0] => b64EncodeGroup b0 none none
  | [b0, b1] => b64EncodeGroup b0 (some b1) none
  | b0 :: b1 :: b2 :: bs => b64EncodeGroup b0 (some b1) (some b2) ++ base64Encode bs

/-! ## `b64_decode` -/

/-- `b64_char_val` -/
def b64CharVal (c : UInt8) : Nat :=
  if 65 ≤ c && c ≤ 90 then c.toNat - 65
  else if 97 ≤ c && c ≤ 122 then c.toNat - 97 + 26
  else if 48 ≤ c && c ≤ 57 then c.toNat - 48 + 52
  else if c = 43 then 62
  else if c = 47 then 63
  else 0

/-- The loop that takes padding and line ends off the end. -/
def stripPad (bs : Bytes) : Bytes := (bs.reverse.dropWhile fun b => b = 61 || b = 10).reverse

/-- One pass of the loop over the characters that are left of a group. What it writes goes to
the end of `out`; the flag is `false` for `return -1`. -/
def b64DecodeGroup (max : Nat) (c0 : UInt8) (c1 c2 c3 : Option UInt8) (out : Bytes) :
    Bytes × Bool :=
  let a := b64CharVal c0
  let b := (c1.map b64CharVal).getD 0
  let c := (c2.map b64CharVal).getD 0
  let d := (c3.map b64CharVal).getD 0
  if out.length ≥ max then (out, false)
  else
    let out := out ++ [UInt8.ofNat (a <<< 2 ||| b >>> 4)]
    let out := if c2.isSome && out.length < max
      then out ++ [UInt8.ofNat ((b &&& 15) <<< 4 ||| c >>> 2)] else out
    let out := if c3.isSome && out.length < max
      then out ++ [UInt8.ofNat ((c &&& 3) <<< 6 ||| d)] else out
    (out, true)

def b64DecodeLoop (max : Nat) : Bytes → Bytes → Bytes × Bool
  | [], out => (out, true)
  | [c0], out => b64DecodeGroup max c0 none none none out
  | [c0, c1], out => b64DecodeGroup max c0 (some c1) none none out
  | [c0, c1, c2], out => b64DecodeGroup max c0 (some c1) (some c2) none out
  | c0 :: c1 :: c2 :: c3 :: cs, out =>
    let r := b64DecodeGroup max c0 (some c1) (some c2) (some c3) out
    if r.2 then b64DecodeLoop max cs r.1 else r

/-- `b64_decode`: its result and the bytes it writes at `out`. -/
def b64Decode (ins : Bytes) (max : Nat) : Int × Bytes :=
  let r := b64DecodeLoop max (stripPad (cstr ins)) []
  if r.2 then (asInt r.1.length, r.1) else (-1, r.1)

variable {max : Nat} {x out : Bytes}

/-! ## Characters -/

theorem b64CharVal_b64Char {n : Nat} (h : n < 64) : b64CharVal (b64Char n) = n := by
  have hall : ∀ n : Fin 64, b64CharVal (b64Char n) = n := by decide +kernel
  exact hall ⟨n, h⟩

/-- A byte that is neither padding nor an end nor a blank. -/
def Plain64 (b : UInt8) : Prop := b ≠ 61 ∧ b ≠ 0 ∧ b ≠ 10 ∧ b ≠ 13 ∧ b ≠ 32

theorem b64Char_plain {n : Nat} (h : n < 64) : Plain64 (b64Char n) := by
  have hall : ∀ n : Fin 64, b64Char n ≠ 61 ∧ b64Char n ≠ 0 ∧ b64Char n ≠ 10 ∧ b64Char n ≠ 13 ∧
      b64Char n ≠ 32 := by decide +kernel
  exact hall ⟨n, h⟩

/-! ## Bits -/

theorem and_three (n : Nat) : n &&& 3 = n % 4 := Nat.and_two_pow_sub_one_eq_mod n 2

theorem and_fifteen (n : Nat) : n &&& 15 = n % 16 := Nat.and_two_pow_sub_one_eq_mod n 4

theorem and_sixtyThree (n : Nat) : n &&& 63 = n % 64 := Nat.and_two_pow_sub_one_eq_mod n 6

/-- Bits put beside each other. -/
theorem shiftLeft_or {a b : Nat} (i : Nat) (h : b < 2 ^ i) : a <<< i ||| b = a * 2 ^ i + b := by
  rw [← Nat.shiftLeft_add_eq_or_of_lt h, Nat.shiftLeft_eq]

/-- The second and the third index of a group. -/
theorem sextets {p q r : Nat} (hq : q < 256) (hr : r < 256) :
    (p &&& 3) <<< 4 ||| q >>> 4 = p % 4 * 16 + q / 16 ∧
      (q &&& 15) <<< 2 ||| r >>> 6 = q % 16 * 4 + r / 64 := by
  rw [and_three, and_fifteen, Nat.shiftRight_eq_div_pow, Nat.shiftRight_eq_div_pow]
  rw [shiftLeft_or 4 (by omega), shiftLeft_or 2 (by omega)]
  omega

theorem octet_first {p q : Nat} (hq : q < 256) :
    (p >>> 2) <<< 2 ||| (p % 4 * 16 + q / 16) >>> 4 = p := by
  rw [Nat.shiftRight_eq_div_pow, Nat.shiftRight_eq_div_pow, shiftLeft_or 2 (by omega)]
  omega

theorem octet_second {p q r : Nat} (hq : q < 256) (hr : r < 256) :
    ((p % 4 * 16 + q / 16) &&& 15) <<< 4 ||| (q % 16 * 4 + r / 64) >>> 2 = q := by
  rw [and_fifteen, Nat.shiftRight_eq_div_pow, shiftLeft_or 4 (by omega)]
  omega

theorem octet_third {q r : Nat} (hr : r < 256) :
    ((q % 16 * 4 + r / 64) &&& 3) <<< 6 ||| (r &&& 63) = r := by
  rw [and_three, and_sixtyThree, shiftLeft_or 6 (by omega)]
  omega

/-! ## One group -/

section Group

variable (b0 b1 b2 : UInt8)

/-- The characters of a group, by the numbers they stand for. -/
theorem b64EncodeGroup_three : b64EncodeGroup b0 (some b1) (some b2) =
    [b64Char (b0.toNat >>> 2), b64Char (b0.toNat % 4 * 16 + b1.toNat / 16),
      b64Char (b1.toNat % 16 * 4 + b2.toNat / 64), b64Char (b2.toNat &&& 63)] := by
  obtain ⟨h1, h2⟩ := sextets (p := b0.toNat) b1.toNat_lt b2.toNat_lt
  rw [← h1, ← h2]
  rfl

theorem b64EncodeGroup_two : b64EncodeGroup b0 (some b1) none =
    [b64Char (b0.toNat >>> 2), b64Char (b0.toNat % 4 * 16 + b1.toNat / 16),
      b64Char (b1.toNat % 16 * 4), 61] := by
  obtain ⟨h1, h2⟩ := sextets (p := b0.toNat) (r := 0) b1.toNat_lt (by omega)
  rw [Nat.zero_div, Nat.add_zero] at h2
  rw [← h1, ← h2]
  rfl

theorem b64EncodeGroup_one : b64EncodeGroup b0 none none =
    [b64Char (b0.toNat >>> 2), b64Char (b0.toNat % 4 * 16), 61, 61] := by
  obtain ⟨h1, -⟩ := sextets (p := b0.toNat) (q := 0) (r := 0) (by omega) (by omega)
  rw [Nat.zero_div, Nat.add_zero] at h1
  rw [← h1]
  rfl

theorem sextet_first_lt : b0.toNat >>> 2 < 64 := by
  have := b0.toNat_lt
  rw [Nat.shiftRight_eq_div_pow]
  omega

theorem sextet_second_lt : b0.toNat % 4 * 16 + b1.toNat / 16 < 64 := by
  have := b1.toNat_lt
  omega

theorem sextet_third_lt : b1.toNat % 16 * 4 + b2.toNat / 64 < 64 := by
  have := b2.toNat_lt
  omega

theorem sextet_last_lt : b2.toNat &&& 63 < 64 := by
  rw [and_sixtyThree]
  omega

variable {b0 b1 b2} {c0 c1 c2 c3 : UInt8}

/-- Three bytes, in four characters. -/
theorem b64DecodeGroup_three (h0 : b64CharVal c0 = b0.toNat >>> 2)
    (h1 : b64CharVal c1 = b0.toNat % 4 * 16 + b1.toNat / 16)
    (h2 : b64CharVal c2 = b1.toNat % 16 * 4 + b2.toNat / 64)
    (h3 : b64CharVal c3 = b2.toNat &&& 63) (h : out.length + 3 ≤ max) :
    b64DecodeGroup max c0 (some c1) (some c2) (some c3) out = (out ++ [b0, b1, b2], true) := by
  have hfirst := octet_first (p := b0.toNat) b1.toNat_lt
  have hsecond := octet_second (p := b0.toNat) b1.toNat_lt b2.toNat_lt
  have hthird := octet_third (q := b1.toNat) b2.toNat_lt
  have hlen1 : (out ++ [b0]).length < max := by simp; omega
  have hlen2 : (out ++ [b0] ++ [b1]).length < max := by simp; omega
  unfold b64DecodeGroup
  simp only [Option.map_some, Option.getD_some, Option.isSome_some, Bool.true_and,
    decide_eq_true_eq, h0, h1, h2, h3, hfirst, hsecond, hthird, UInt8.ofNat_toNat]
  rw [if_neg (by omega), if_pos hlen1, if_pos hlen2, List.append_assoc, List.append_assoc]
  rfl

/-- Two bytes, in three characters. -/
theorem b64DecodeGroup_two (h0 : b64CharVal c0 = b0.toNat >>> 2)
    (h1 : b64CharVal c1 = b0.toNat % 4 * 16 + b1.toNat / 16)
    (h2 : b64CharVal c2 = b1.toNat % 16 * 4) (h : out.length + 2 ≤ max) :
    b64DecodeGroup max c0 (some c1) (some c2) none out = (out ++ [b0, b1], true) := by
  have hfirst := octet_first (p := b0.toNat) b1.toNat_lt
  have hsecond := octet_second (p := b0.toNat) (r := 0) b1.toNat_lt (by omega)
  have hlen1 : (out ++ [b0]).length < max := by simp; omega
  rw [Nat.zero_div, Nat.add_zero] at hsecond
  unfold b64DecodeGroup
  simp only [Option.map_some, Option.getD_some, Option.isSome_some, Option.isSome_none,
    Bool.true_and, Bool.false_and, decide_eq_true_eq, h0, h1, h2, hfirst, hsecond,
    UInt8.ofNat_toNat, Bool.false_eq_true, if_false]
  rw [if_neg (by omega), if_pos hlen1, List.append_assoc]
  rfl

/-- One byte, in two characters. -/
theorem b64DecodeGroup_one (h0 : b64CharVal c0 = b0.toNat >>> 2)
    (h1 : b64CharVal c1 = b0.toNat % 4 * 16) (h : out.length + 1 ≤ max) :
    b64DecodeGroup max c0 (some c1) none none out = (out ++ [b0], true) := by
  have hfirst := octet_first (p := b0.toNat) (q := 0) (by omega)
  rw [Nat.zero_div, Nat.add_zero] at hfirst
  unfold b64DecodeGroup
  simp only [Option.map_some, Option.getD_some, Option.isSome_none, Bool.false_and, h0, h1, hfirst,
    UInt8.ofNat_toNat, Bool.false_eq_true, if_false]
  rw [if_neg (by omega)]

end Group

/-! ## The padding -/

/-- The text without its padding. -/
def b64Unpadded : Bytes → Bytes
  | [] => []
  | [b0] => (b64EncodeGroup b0 none none).take 2
  | [b0, b1] => (b64EncodeGroup b0 (some b1) none).take 3
  | b0 :: b1 :: b2 :: bs => b64EncodeGroup b0 (some b1) (some b2) ++ b64Unpadded bs

theorem base64Encode_eq (x : Bytes) :
    ∃ k, base64Encode x = b64Unpadded x ++ List.replicate k 61 := by
  induction x using base64Encode.induct with
  | case1 => exact ⟨0, rfl⟩
  | case2 b0 => exact ⟨2, by rw [base64Encode, b64Unpadded, b64EncodeGroup_one]; rfl⟩
  | case3 b0 b1 => exact ⟨1, by rw [base64Encode, b64Unpadded, b64EncodeGroup_two]; rfl⟩
  | case4 b0 b1 b2 bs ih =>
    obtain ⟨k, hk⟩ := ih
    exact ⟨k, by rw [base64Encode, b64Unpadded, hk, List.append_assoc]⟩

theorem b64Unpadded_plain (x : Bytes) : ∀ b ∈ b64Unpadded x, Plain64 b := by
  induction x using base64Encode.induct with
  | case1 => exact List.forall_mem_nil _
  | case2 b0 =>
    have hlt : b0.toNat % 4 * 16 < 64 := by omega
    rw [b64Unpadded, b64EncodeGroup_one]
    intro b hb
    simp only [List.take_succ_cons, List.take_zero, List.mem_cons, List.not_mem_nil, or_false] at hb
    rcases hb with rfl | rfl
    · exact b64Char_plain (sextet_first_lt b0)
    · exact b64Char_plain hlt
  | case3 b0 b1 =>
    have hlt : b1.toNat % 16 * 4 < 64 := by omega
    rw [b64Unpadded, b64EncodeGroup_two]
    intro b hb
    simp only [List.take_succ_cons, List.take_zero, List.mem_cons, List.not_mem_nil, or_false] at hb
    rcases hb with rfl | rfl | rfl
    · exact b64Char_plain (sextet_first_lt b0)
    · exact b64Char_plain (sextet_second_lt b0 b1)
    · exact b64Char_plain hlt
  | case4 b0 b1 b2 bs ih =>
    rw [b64Unpadded, b64EncodeGroup_three]
    intro b hb
    rcases List.mem_append.mp hb with hb | hb
    · simp only [List.mem_cons, List.not_mem_nil, or_false] at hb
      rcases hb with rfl | rfl | rfl | rfl
      · exact b64Char_plain (sextet_first_lt b0)
      · exact b64Char_plain (sextet_second_lt b0 b1)
      · exact b64Char_plain (sextet_third_lt b1 b2)
      · exact b64Char_plain (sextet_last_lt b2)
    · exact ih b hb

/-- The text is one word. -/
theorem base64Encode_plain (x : Bytes) :
    ∀ b ∈ base64Encode x, b ≠ 0 ∧ b ≠ 10 ∧ b ≠ 13 ∧ b ≠ 32 := by
  obtain ⟨k, hk⟩ := base64Encode_eq x
  rw [hk]
  intro b hb
  rcases List.mem_append.mp hb with h | h
  · exact (b64Unpadded_plain x b h).2
  · rw [List.eq_of_mem_replicate h]
    decide

theorem length_base64Encode (x : Bytes) : (base64Encode x).length = 4 * ((x.length + 2) / 3) := by
  induction x using base64Encode.induct with
  | case1 => rfl
  | case2 b0 => simp [base64Encode, b64EncodeGroup]
  | case3 b0 b1 => simp [base64Encode, b64EncodeGroup]
  | case4 b0 b1 b2 bs ih =>
    simp only [base64Encode, b64EncodeGroup, List.length_append, List.length_cons, List.length_nil,
      ih]
    omega

/-- What the decoder strips is the padding. -/
theorem stripPad_base64Encode (x : Bytes) : stripPad (cstr (base64Encode x)) = b64Unpadded x := by
  have hnul : 0 ∉ base64Encode x := fun h => (base64Encode_plain x 0 h).1 rfl
  obtain ⟨k, hk⟩ := base64Encode_eq x
  have hpad : ∀ b ∈ List.replicate k (61 : UInt8), (b = 61 || b = 10) = true := by
    intro b hb
    rw [List.eq_of_mem_replicate hb]
    rfl
  rw [cstr_eq_self hnul, hk, stripPad, List.reverse_append, List.reverse_replicate,
    List.dropWhile_append_of_pos hpad]
  cases hr : (b64Unpadded x).reverse with
  | nil => rw [← List.reverse_reverse (b64Unpadded x), hr]; rfl
  | cons b bs =>
    have hb := b64Unpadded_plain x b (List.mem_reverse.mp (hr ▸ List.mem_cons_self ..))
    rw [List.dropWhile_cons_of_neg (by simp [hb.1, hb.2.2.1]), ← hr, List.reverse_reverse]

/-! ## The round trip -/

/-- The loop, three bytes at a time. -/
theorem b64DecodeLoop_unpadded (x : Bytes) {out : Bytes} (h : out.length + x.length ≤ max) :
    b64DecodeLoop max (b64Unpadded x) out = (out ++ x, true) := by
  induction x using base64Encode.induct generalizing out with
  | case1 => rw [List.append_nil]; rfl
  | case2 b0 =>
    have hlt : b0.toNat % 4 * 16 < 64 := by omega
    rw [b64Unpadded, b64EncodeGroup_one]
    exact b64DecodeGroup_one (b64CharVal_b64Char (sextet_first_lt b0)) (b64CharVal_b64Char hlt) h
  | case3 b0 b1 =>
    have hlt : b1.toNat % 16 * 4 < 64 := by omega
    rw [b64Unpadded, b64EncodeGroup_two]
    exact b64DecodeGroup_two (b64CharVal_b64Char (sextet_first_lt b0))
      (b64CharVal_b64Char (sextet_second_lt b0 b1)) (b64CharVal_b64Char hlt) h
  | case4 b0 b1 b2 bs ih =>
    simp only [List.length_cons] at h
    have hroom : out.length + 3 ≤ max := by omega
    have hgroup := b64DecodeGroup_three (b64CharVal_b64Char (sextet_first_lt b0))
      (b64CharVal_b64Char (sextet_second_lt b0 b1)) (b64CharVal_b64Char (sextet_third_lt b1 b2))
      (b64CharVal_b64Char (sextet_last_lt b2)) hroom
    rw [b64Unpadded, b64EncodeGroup_three]
    simp only [List.cons_append, List.nil_append]
    rw [b64DecodeLoop, hgroup, if_pos rfl, ih (by simp; omega), List.append_assoc]
    rfl

/-- **`b64_decode` undoes `base64_encode`**; the length comes back as an `int`. -/
theorem b64Decode_base64Encode (h : x.length ≤ max) :
    b64Decode (base64Encode x) max = (asInt x.length, x) := by
  unfold b64Decode
  dsimp only
  rw [stripPad_base64Encode, b64DecodeLoop_unpadded x (by simpa using h), if_pos rfl,
    List.nil_append]

end FrostSshCa
