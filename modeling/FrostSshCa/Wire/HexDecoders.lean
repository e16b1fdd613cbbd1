import FrostSshCa.Wire.CString
import FrostSshCa.Wire.Utf8

/-!
# The two hex decoders

`from_hex` of `main.rs` on any `str`, with its slices of bytes and `u8::from_str_radix`, and
`hex_to_bytes` of `frost_stubs.c`, which scans each pair with `sscanf`. The first takes a plus
sign for a digit and panics where a slice cuts a character; the second stops at a NUL.
-/

namespace FrostSshCa

/-! ## `from_hex` -/

/-- What a Rust function comes to: a value, an `Err` or a panic. -/
inductive Outcome (α : Type) where
  | ok (a : α)
  | err
  | panic
  deriving DecidableEq, Repr

/-- `Result::ok` -/
def Outcome.toOption {α : Type} : Outcome α → Option α
  | .ok a => some a
  | .err => none
  | .panic => none

/-- `is_char_boundary` at the start of these bytes. -/
def charBoundary : Bytes → Bool
  | [] => true
  | b :: _ => !(128 ≤ b && b < 192)

/-- The iterator of `from_hex`, collected: it stops at the first pair that is no byte. -/
def hexSlices : Bytes → Outcome Bytes
  | a :: b :: bs =>
    if charBoundary (a :: b :: bs) && charBoundary bs then
      match fromStrRadix a b with
      | none => .err
      | some x => match hexSlices bs with
        | .ok xs => .ok (x :: xs)
        | .err => .err
        | .panic => .panic
    else .panic
  | [_] => .ok []
  | [] => .ok []

/-- `from_hex` -/
def fromHexStr (s : List Char) : Outcome Bytes :=
  let s := trimStr s
  if (utf8 s).length % 2 ≠ 0 then .err else hexSlices (utf8 s)

/-- `{:02x}` -/
def lowerHex (b : UInt8) : List Char :=
  let ds := Nat.toDigits 16 b.toNat
  if ds.length < 2 then '0' :: ds else ds

/-- `to_hex` -/
def toHex (bs : Bytes) : List Char := bs.flatMap lowerHex

/-! ## `hex_to_bytes` -/

/-- The loop that takes line ends and blanks off the end. -/
def stripTail (bs : Bytes) : Bytes :=
  (bs.reverse.dropWhile fun b => b = 10 || b = 13 || b = 32).reverse

/-- `%1x`: blanks are skipped, and a sign fills the field. -/
def scanHex1 (bs : Bytes) : Option (Nat × Bytes) :=
  match scanWs bs with
  | [] => none
  | b :: bs => (hexVal b).map fun v => (v, bs)

/-- `sscanf(h, "%1x%1x", &hi, &lo)` -/
def scanPair (a b : UInt8) : Option UInt8 :=
  (scanHex1 (cstr [a, b])).bind fun (hi, bs) =>
    (scanHex1 bs).map fun (lo, _) => UInt8.ofNat (hi <<< 4 ||| lo)

/-- The bytes the loop writes, and whether it gets to the end. -/
def scanPairs : Bytes → Bytes × Bool
  | a :: b :: bs => match scanPair a b with
    | none => ([], false)
    | some x => (x :: (scanPairs bs).1, (scanPairs bs).2)
  | [_] => ([], true)
  | [] => ([], true)

/-- `hex_to_bytes`: its result and the bytes it writes at `out`. -/
def hexToBytes (hex : Bytes) (maxOut : Nat) : Int × Bytes :=
  let hex := stripTail (cstr hex)
  if hex.length % 2 ≠ 0 then (-1, [])
  else if hex.length / 2 > maxOut then (-1, [])
  else if (scanPairs hex).2 then (asInt (hex.length / 2), (scanPairs hex).1)
  else (-1, (scanPairs hex).1)

/-! ## What hex is -/

/-- `0`–`9`, `a`–`f`, `A`–`F` -/
def isHexDigit (c : Char) : Bool :=
  (48 ≤ c.toNat && c.toNat ≤ 57) || (97 ≤ c.toNat && c.toNat ≤ 102) ||
    (65 ≤ c.toNat && c.toNat ≤ 70)

def hexDigitVal (c : Char) : Nat :=
  if c.toNat ≤ 57 then c.toNat - 48 else if c.toNat ≤ 70 then c.toNat - 55 else c.toNat - 87

/-- An even number of hex digits. -/
def HexText (s : List Char) : Prop := s.length % 2 = 0 ∧ ∀ c ∈ s, isHexDigit c = true

/-- The bytes it spells. -/
def hexValue : List Char → Bytes
  | a :: b :: s => UInt8.ofNat (hexDigitVal a * 16 + hexDigitVal b) :: hexValue s
  | [_] => []
  | [] => []

/-- The same of bytes. -/
def HexBytes (u : Bytes) : Prop := u.length % 2 = 0 ∧ ∀ b ∈ u, (hexVal b).isSome = true

/-- A line of text, as long as the hex of a package may be. -/
structure TextLine (s : List Char) : Prop where
  unbroken : '\n' ∉ s
  size : s.length ≤ 2 * maxPayload
  trimmed : Trimmed s

/-- Both decoders accept the line if and only if it is hex, and read the same bytes. -/
structure SameLanguage (s : List Char) : Prop where
  rust : ∀ bs, fromHexStr s = .ok bs ↔ HexText s ∧ bs = hexValue s
  noPanic : fromHexStr s ≠ .panic
  c : ∀ n out, (hexToBytes (utf8 s) maxPayload = (n, out) ∧ 0 ≤ n) ↔
    fromHexStr s = .ok out ∧ n = out.length
  encoded : ∀ bs, fromHexStr s = .ok bs → toHex bs = s.map Char.toLower ∧
    bytesToHex bs = utf8 (s.map Char.toLower)

/-- The text from the first pair on that `from_hex` makes no byte of. -/
def refused : Bytes → Bytes
  | a :: b :: bs =>
    if charBoundary (a :: b :: bs) && charBoundary bs && (fromStrRadix a b).isSome then refused bs
    else a :: b :: bs
  | [a] => [a]
  | [] => []

/-- The length is odd, or the first pair that makes no byte is not cut out of a character. -/
def RustRefuses (u : Bytes) : Prop :=
  u.length % 2 ≠ 0 ∨ ∃ a b bs, refused u = a :: b :: bs ∧ charBoundary (a :: b :: bs) = true ∧
    charBoundary bs = true

/-- There is no NUL, or what stands before it is no hex. -/
def CRefuses (u : Bytes) : Prop := 0 ∈ u → ¬ HexBytes (stripTail (cstr u))

variable {s : List Char} {u : Bytes}

/-! ## Digits -/

theorem hexVal_plain {b : UInt8} (h : (hexVal b).isSome = true) :
    b.toNat < 128 ∧ b ≠ 0 ∧ isSpace b = false := by
  have hall : ∀ n : Fin 256, (hexVal (UInt8.ofNat n)).isSome = true →
      n.val < 128 ∧ UInt8.ofNat n ≠ 0 ∧ isSpace (UInt8.ofNat n) = false := by decide +kernel
  have := hall ⟨b.toNat, b.toNat_lt⟩
  simp only [UInt8.ofNat_toNat] at this
  exact this h

theorem hexVal_lt {b : UInt8} {v : Nat} (h : hexVal b = some v) : v < 16 := by
  have hall : ∀ n : Fin 256, ∀ v ∈ hexVal (UInt8.ofNat n), v < 16 := by decide +kernel
  have := hall ⟨b.toNat, b.toNat_lt⟩ v
  simp only [UInt8.ofNat_toNat] at this
  exact this h

/-- The byte of a character is a digit if the character is. -/
theorem hexVal_char {c : Char} (h : c.toNat < 128) : hexVal (UInt8.ofNat c.toNat) =
    if isHexDigit c then some (hexDigitVal c) else none := by
  have hall : ∀ n : Fin 128, hexVal (UInt8.ofNat n) =
      if isHexDigit (Char.ofNat n) then some (hexDigitVal (Char.ofNat n)) else none := by decide
  have := hall ⟨c.toNat, h⟩
  simp only [Char.ofNat_toNat] at this
  exact this

theorem isHexDigit_low {c : Char} (h : isHexDigit c = true) : c.toNat < 128 := by
  simp only [isHexDigit, Bool.or_eq_true, Bool.and_eq_true, decide_eq_true_eq] at h
  omega

/-- The pair of digits of a byte, in lower case. -/
theorem lowerHex_pair {a b : Char} (ha : isHexDigit a = true) (hb : isHexDigit b = true) :
    lowerHex (UInt8.ofNat (hexDigitVal a * 16 + hexDigitVal b)) = [a.toLower, b.toLower] := by
  have hval : ∀ n : Fin 128, isHexDigit (Char.ofNat n) = true → hexDigitVal (Char.ofNat n) < 16 ∧
      (Char.ofNat n).toLower = Nat.digitChar (hexDigitVal (Char.ofNat n)) := by decide
  have htext : ∀ i j : Fin 16, lowerHex (UInt8.ofNat (i.val * 16 + j)) =
      [Nat.digitChar i, Nat.digitChar j] := by decide
  obtain ⟨h1, h2⟩ := hval ⟨a.toNat, isHexDigit_low ha⟩ (by simpa using ha)
  obtain ⟨h3, h4⟩ := hval ⟨b.toNat, isHexDigit_low hb⟩ (by simpa using hb)
  simp only [Char.ofNat_toNat] at h1 h2 h3 h4
  rw [h2, h4]
  exact htext ⟨_, h1⟩ ⟨_, h3⟩

/-- `bytes_to_hex` and `to_hex` write the same text. -/
theorem bytesToHex_eq (bs : Bytes) : bytesToHex bs = utf8 (toHex bs) := by
  have hall : ∀ n : Fin 256, [hexDigit ((UInt8.ofNat n).toNat / 16),
      hexDigit ((UInt8.ofNat n).toNat % 16)] = utf8 (lowerHex (UInt8.ofNat n)) := by decide +kernel
  induction bs with
  | nil => rfl
  | cons b bs ih =>
    have hb := hall ⟨b.toNat, b.toNat_lt⟩
    simp only [UInt8.ofNat_toNat] at hb
    rw [toHex, List.flatMap_cons, utf8_append, ← hb, ← toHex, ← ih]
    rfl

/-! ## Pairs -/

/-- What `%1x` reads of a byte that is no digit: nothing. -/
theorem scanHex1_bad {a : UInt8} (h : hexVal a = none) (hs : isSpace a = false) (bs : Bytes) :
    scanHex1 (a :: bs) = none := by
  unfold scanHex1 scanWs
  rw [if_neg (by rw [hs]; exact Bool.false_ne_true)]
  dsimp only
  rw [h]
  rfl

theorem scanHex1_digit {a : UInt8} {v : Nat} (h : hexVal a = some v) (bs : Bytes) :
    scanHex1 (a :: bs) = some (v, bs) := by
  have hs := (hexVal_plain (b := a) (by rw [h]; rfl)).2.2
  unfold scanHex1 scanWs
  rw [if_neg (by rw [hs]; exact Bool.false_ne_true)]
  dsimp only
  rw [h]
  rfl

theorem scanHex1_one (b : UInt8) : scanHex1 (cstr [b]) = (hexVal b).map fun v => (v, []) := by
  cases h : hexVal b with
  | some v => rw [cstr_cons (hexVal_plain (by rw [h]; rfl)).2.1, scanHex1_digit h]; rfl
  | none =>
    by_cases h0 : b = 0
    · rw [h0]; rfl
    rw [cstr_cons h0]
    by_cases hs : isSpace b = true
    · unfold scanHex1 scanWs
      rw [if_pos hs]
      rfl
    · exact scanHex1_bad h (by simpa using hs) _

/-- One pair of the C loop: two digits. -/
theorem scanPair_eq (a b : UInt8) : scanPair a b =
    (hexVal a).bind fun hi => (hexVal b).map fun lo => UInt8.ofNat (hi * 16 + lo) := by
  unfold scanPair
  cases ha : hexVal a with
  | some hi =>
    rw [cstr_cons (hexVal_plain (by rw [ha]; rfl)).2.1, scanHex1_digit ha]
    simp only [Option.bind_some, scanHex1_one, Option.map_map]
    cases hb : hexVal b with
    | none => rfl
    | some lo =>
      have hor : ∀ i j : Fin 16, i.val <<< 4 ||| j.val = i.val * 16 + j.val := by decide
      exact congrArg (fun n => some (UInt8.ofNat n)) (hor ⟨hi, hexVal_lt ha⟩ ⟨lo, hexVal_lt hb⟩)
  | none =>
    by_cases h0 : a = 0
    · rw [h0]; rfl
    rw [cstr_cons h0]
    by_cases hs : isSpace a = true
    · -- the blank is skipped, and the second digit is missing
      have hskip : scanHex1 (a :: cstr [b]) = scanHex1 (cstr [b]) := by
        unfold scanHex1
        rw [scanWs, if_pos hs]
      rw [hskip, scanHex1_one]
      cases hexVal b <;> rfl
    · rw [scanHex1_bad ha (by simpa using hs)]
      rfl

theorem scanPair_isSome (a b : UInt8) :
    (scanPair a b).isSome = ((hexVal a).isSome && (hexVal b).isSome) := by
  rw [scanPair_eq]
  cases hexVal a <;> cases hexVal b <;> rfl

/-- The two decoders agree on a pair of digits. -/
theorem fromStrRadix_eq {a b : UInt8} (h : (hexVal a).isSome = true) :
    fromStrRadix a b = scanPair a b := by
  have hne : a ≠ 43 := by
    rintro rfl
    exact absurd h (by decide)
  rw [scanPair_eq]
  unfold fromStrRadix
  rw [if_neg hne]

theorem charBoundary_digit {a : UInt8} (h : (hexVal a).isSome = true) (bs : Bytes) :
    charBoundary (a :: bs) = true := by
  have := (hexVal_plain h).1
  simp only [charBoundary, Bool.not_eq_true', Bool.and_eq_false_iff, decide_eq_false_iff_not,
    UInt8.not_le, UInt8.lt_iff_toNat_lt]
  exact .inl this

/-! ## The loops -/

theorem hexBytes_cons {a b : UInt8} : HexBytes (a :: b :: u) ↔
    (hexVal a).isSome = true ∧ (hexVal b).isSome = true ∧ HexBytes u := by
  unfold HexBytes
  simp only [List.length_cons, List.forall_mem_cons]
  constructor
  · rintro ⟨h1, h2, h3, h4⟩
    exact ⟨h2, h3, by omega, h4⟩
  · rintro ⟨h2, h3, h1, h4⟩
    exact ⟨by omega, h2, h3, h4⟩

theorem HexBytes.boundary (h : HexBytes u) : charBoundary u = true := by
  cases u with
  | nil => rfl
  | cons a u => exact charBoundary_digit (h.2 a (List.mem_cons_self ..)) u

/-- The C loop gets to the end of hex only, and the Rust loop reads the same there. -/
theorem scanPairs_iff (he : u.length % 2 = 0) : (scanPairs u).2 = true ↔ HexBytes u := by
  induction u using scanPairs.induct with
  | case1 a b u h =>
    have hno : (hexVal a).isSome = true → (hexVal b).isSome = true → False := fun ha hb => by
      have := scanPair_isSome a b
      rw [h, ha, hb] at this
      exact Bool.false_ne_true this
    rw [scanPairs, h, hexBytes_cons]
    exact ⟨fun h => absurd h Bool.false_ne_true, fun h => (hno h.1 h.2.1).elim⟩
  | case2 a b u x h ih =>
    have hab := scanPair_isSome a b
    rw [h, Option.isSome_some, eq_comm, Bool.and_eq_true] at hab
    rw [scanPairs, h, hexBytes_cons]
    simp only [List.length_cons] at he
    exact (ih (by omega)).trans ⟨fun h => ⟨hab.1, hab.2, h⟩, fun h => h.2.2⟩
  | case3 a => simp at he
  | case4 => exact ⟨fun _ => ⟨rfl, fun _ h => (by cases h)⟩, fun _ => rfl⟩

theorem hexSlices_hex (h : HexBytes u) : hexSlices u = .ok (scanPairs u).1 := by
  induction u using scanPairs.induct with
  | case1 a b u hp =>
    obtain ⟨ha, hb, -⟩ := hexBytes_cons.mp h
    have := scanPair_isSome a b
    rw [hp, ha, hb] at this
    exact absurd this Bool.false_ne_true
  | case2 a b u x hp ih =>
    obtain ⟨ha, -, hu⟩ := hexBytes_cons.mp h
    rw [hexSlices, if_pos (by rw [charBoundary_digit ha, hu.boundary]; rfl), fromStrRadix_eq ha,
      hp, ih hu, scanPairs, hp]
  | case3 a => rfl
  | case4 => rfl

/-- `from_hex` fails on the pair it stops at, unless the pair cuts a character. -/
theorem hexSlices_err_iff (he : u.length % 2 = 0) : hexSlices u = .err ↔ ∃ a b bs,
    refused u = a :: b :: bs ∧ charBoundary (a :: b :: bs) = true ∧ charBoundary bs = true := by
  induction u using refused.induct with
  | case1 a b u hok ih =>
    obtain ⟨hb, hr⟩ := Bool.and_eq_true_iff.mp hok
    obtain ⟨x, hx⟩ := Option.isSome_iff_exists.mp hr
    simp only [List.length_cons] at he
    rw [refused, if_pos hok, ← ih (by omega), hexSlices, if_pos hb, hx]
    dsimp only
    cases hexSlices u <;> simp
  | case2 a b u hno =>
    rw [refused, if_neg hno, hexSlices]
    by_cases hb : (charBoundary (a :: b :: u) && charBoundary u) = true
    · have hr : fromStrRadix a b = none := by
        rw [hb, Bool.true_and] at hno
        simpa using hno
      rw [if_pos hb, hr]
      exact ⟨fun _ => ⟨a, b, u, rfl, Bool.and_eq_true_iff.mp hb⟩, fun _ => rfl⟩
    · rw [if_neg hb]
      refine ⟨fun h => (by cases h), fun ⟨a', b', u', e, h1, h2⟩ => ?_⟩
      cases e
      exact absurd (Bool.and_eq_true_iff.mpr ⟨h1, h2⟩) hb
  | case3 a => simp at he
  | case4 => exact ⟨fun h => (by cases h), fun ⟨_, _, _, e, _⟩ => (by cases e)⟩

/-! ## Text and its bytes -/

/-- Hex text is ASCII, and its bytes are hex. -/
theorem hexText_iff (s : List Char) : HexText s ↔ HexBytes (utf8 s) := by
  constructor
  · rintro ⟨h1, h2⟩
    have hlow : ∀ c ∈ s, c.toNat < 128 := fun c hc => isHexDigit_low (h2 c hc)
    rw [utf8_ascii hlow]
    refine ⟨by rw [List.length_map]; exact h1, fun b hb => ?_⟩
    obtain ⟨c, hc, rfl⟩ := List.mem_map.mp hb
    rw [hexVal_char (hlow c hc), if_pos (h2 c hc)]
    rfl
  · rintro ⟨h1, h2⟩
    have hlow : ∀ c ∈ s, c.toNat < 128 := by
      intro c hc
      by_contra hhigh
      obtain ⟨b, bs, hb⟩ := List.exists_cons_of_ne_nil (String.utf8EncodeChar_ne_nil (c := c))
      have hmem : b ∈ String.utf8EncodeChar c := by rw [hb]; exact List.mem_cons_self ..
      have := utf8EncodeChar_high hhigh b hmem
      have := (hexVal_plain (h2 b (List.mem_flatMap.mpr ⟨c, hc, hmem⟩))).1
      omega
    rw [utf8_ascii hlow] at h1 h2
    rw [List.length_map] at h1
    refine ⟨h1, fun c hc => ?_⟩
    have hd := h2 _ (List.mem_map.mpr ⟨c, hc, rfl⟩)
    rw [hexVal_char (hlow c hc)] at hd
    by_contra hno
    rw [if_neg hno] at hd
    exact Bool.false_ne_true hd

theorem scanPairs_value (h : HexText s) : (scanPairs (utf8 s)).1 = hexValue s := by
  induction s using hexValue.induct with
  | case1 a b s ih =>
    have ha := h.2 a (List.mem_cons_self ..)
    have hb := h.2 b (List.mem_cons_of_mem _ (List.mem_cons_self ..))
    have hs : HexText s := ⟨by have := h.1; simp only [List.length_cons] at this; omega,
      fun c hc => h.2 c (List.mem_cons_of_mem _ (List.mem_cons_of_mem _ hc))⟩
    rw [utf8_cons, utf8_cons, utf8EncodeChar_ascii (isHexDigit_low ha),
      utf8EncodeChar_ascii (isHexDigit_low hb), List.singleton_append, List.singleton_append,
      scanPairs, scanPair_eq, hexVal_char (isHexDigit_low ha), hexVal_char (isHexDigit_low hb),
      if_pos ha, if_pos hb]
    exact congrArg _ (ih hs)
  | case2 a => exact absurd h.1 (by simp)
  | case3 => rfl

theorem length_hexValue (s : List Char) : (hexValue s).length = s.length / 2 := by
  induction s using hexValue.induct with
  | case1 a b s ih =>
    rw [hexValue, List.length_cons, ih]
    simp only [List.length_cons]
    omega
  | case2 a => simp [hexValue]
  | case3 => rfl

theorem toHex_hexValue (h : HexText s) : toHex (hexValue s) = s.map Char.toLower := by
  induction s using hexValue.induct with
  | case1 a b s ih =>
    have ha := h.2 a (List.mem_cons_self ..)
    have hb := h.2 b (List.mem_cons_of_mem _ (List.mem_cons_self ..))
    have hs : HexText s := ⟨by have := h.1; simp only [List.length_cons] at this; omega,
      fun c hc => h.2 c (List.mem_cons_of_mem _ (List.mem_cons_of_mem _ hc))⟩
    rw [hexValue, toHex, List.flatMap_cons, lowerHex_pair ha hb, ← toHex, ih hs]
    rfl
  | case2 a => exact absurd h.1 (by simp)
  | case3 => rfl

/-! ## ASCII text -/

theorem charBoundary_ascii (h : ∀ b ∈ u, b.toNat < 128) : charBoundary u = true := by
  cases u with
  | nil => rfl
  | cons a u =>
    have ha := h a (List.mem_cons_self ..)
    simp only [charBoundary, Bool.not_eq_true', Bool.and_eq_false_iff, decide_eq_false_iff_not,
      UInt8.not_le, UInt8.lt_iff_toNat_lt]
    exact .inl ha

theorem hexSlices_ascii (h : ∀ b ∈ u, b.toNat < 128) (he : u.length % 2 = 0) :
    (hexSlices u).toOption = hexPairs u ∧ hexSlices u ≠ .panic := by
  induction u using hexPairs.induct with
  | case1 => exact ⟨rfl, fun e => (by cases e)⟩
  | case2 a => simp at he
  | case3 a b u ih =>
    have hu : ∀ x ∈ u, x.toNat < 128 := fun x hx =>
      h x (List.mem_cons_of_mem _ (List.mem_cons_of_mem _ hx))
    simp only [List.length_cons] at he
    obtain ⟨h1, h2⟩ := ih hu (by omega)
    rw [hexSlices, hexPairs, if_pos (by rw [charBoundary_ascii h, charBoundary_ascii hu]; rfl),
      ← h1]
    cases fromStrRadix a b with
    | none => exact ⟨rfl, fun e => (by cases e)⟩
    | some x =>
      cases hs : hexSlices u with
      | ok xs => exact ⟨rfl, fun e => (by cases e)⟩
      | err => exact ⟨rfl, fun e => (by cases e)⟩
      | panic => exact absurd hs h2

theorem hexPairs_odd (he : u.length % 2 ≠ 0) : hexPairs u = none := by
  induction u using hexPairs.induct with
  | case1 => simp at he
  | case2 a => rfl
  | case3 a b u ih =>
    simp only [List.length_cons] at he
    rw [hexPairs, ih (by omega)]
    cases fromStrRadix a b <;> rfl

theorem scanWs_utf8 (h : ∀ c ∈ s, c.toNat < 128) :
    scanWs (s.map fun c => UInt8.ofNat c.toNat) =
      (s.dropWhile isWhitespace).map fun c => UInt8.ofNat c.toNat := by
  have hall : ∀ n : Fin 128, isSpace (UInt8.ofNat n) = isWhitespace (Char.ofNat n) := by decide
  induction s with
  | nil => rfl
  | cons c s ih =>
    have hc := hall ⟨c.toNat, h c (List.mem_cons_self ..)⟩
    simp only [Char.ofNat_toNat] at hc
    rw [List.map_cons, scanWs, hc, List.dropWhile_cons, ih fun x hx =>
      h x (List.mem_cons_of_mem _ hx)]
    split <;> rfl

theorem mem_dropWhile_ascii (h : ∀ c ∈ s, c.toNat < 128) :
    ∀ c ∈ s.dropWhile isWhitespace, c.toNat < 128 :=
  fun c hc => h c ((List.dropWhile_suffix _).subset hc)

theorem mem_trimStr_ascii (h : ∀ c ∈ s, c.toNat < 128) : ∀ c ∈ trimStr s, c.toNat < 128 :=
  fun c hc => mem_dropWhile_ascii
    (fun x hx => mem_dropWhile_ascii h x (List.mem_reverse.mp hx)) c (List.mem_reverse.mp hc)

/-- The two trims agree. -/
theorem trim_utf8 (h : ∀ c ∈ s, c.toNat < 128) : trim (utf8 s) = utf8 (trimStr s) := by
  have hrev : ∀ c ∈ (s.dropWhile isWhitespace).reverse, c.toNat < 128 :=
    fun c hc => mem_dropWhile_ascii h c (List.mem_reverse.mp hc)
  rw [utf8_ascii h, utf8_ascii (mem_trimStr_ascii h), trim, scanWs_utf8 h, ← List.map_reverse,
    scanWs_utf8 hrev, ← List.map_reverse]
  rfl

/-- On ASCII text `from_hex` is that of `Wire.Hex`, and never panics. -/
theorem fromHexStr_ascii (h : ∀ c ∈ s, c.toNat < 128) :
    (fromHexStr s).toOption = fromHex (utf8 s) ∧ fromHexStr s ≠ .panic := by
  have hlow : ∀ b ∈ utf8 (trimStr s), b.toNat < 128 := by
    intro b hb
    rw [utf8_ascii (mem_trimStr_ascii h)] at hb
    obtain ⟨c, hc, rfl⟩ := List.mem_map.mp hb
    have := mem_trimStr_ascii h c hc
    rw [UInt8.toNat_ofNat']
    omega
  unfold fromHexStr fromHex
  dsimp only
  rw [trim_utf8 h]
  by_cases he : (utf8 (trimStr s)).length % 2 = 0
  · rw [if_neg (not_not.mpr he)]
    exact hexSlices_ascii hlow he
  · rw [if_pos he, hexPairs_odd he]
    exact ⟨rfl, fun e => (by cases e)⟩

/-! ## Both decoders on a line -/

/-- The last byte of a line is no blank either. -/
theorem stripTail_line (h : Trimmed s) : stripTail (utf8 s) = utf8 s := by
  unfold stripTail
  rw [dropWhile_eq_self, List.reverse_reverse]
  intro b hb
  rw [List.head?_reverse] at hb
  rcases List.eq_nil_or_concat s with rfl | ⟨s, c, rfl⟩
  · cases hb
  rw [List.concat_eq_append] at hb h
  have hc := h.last c (by simp)
  have hlast : (String.utf8EncodeChar c).getLast? = some b := by
    have hx := List.getLast?_eq_some_getLast (String.utf8EncodeChar_ne_nil (c := c))
    rw [utf8_append, utf8_cons, utf8_nil, List.append_nil, List.getLast?_append, hx] at hb
    rw [hx]
    exact hb
  have hmem := List.mem_of_getLast? hlast
  by_cases hlow : c.toNat < 128
  · rw [utf8EncodeChar_ascii hlow, List.mem_singleton] at hmem
    have hall : ∀ n : Fin 128, isWhitespace (Char.ofNat n) = false →
        (UInt8.ofNat n = 10 || UInt8.ofNat n = 13 || UInt8.ofNat n = 32) = false := by decide
    rw [hmem]
    exact hall ⟨c.toNat, hlow⟩ (by simpa using hc)
  · have := utf8EncodeChar_high hlow b hmem
    have hne (k : UInt8) (hk : k.toNat < 128) : b ≠ k := fun e => by subst e; omega
    simp [hne 10 (by decide), hne 13 (by decide), hne 32 (by decide)]

theorem stripTail_sublist (u : Bytes) : (stripTail u).Sublist u := by
  unfold stripTail
  rw [← List.reverse_sublist, List.reverse_reverse]
  exact (List.dropWhile_suffix _).sublist

/-- A byte that is no blank stays. -/
theorem mem_stripTail {b : UInt8} (h : b ∈ u) (hb : b ≠ 10 ∧ b ≠ 13 ∧ b ≠ 32) :
    b ∈ stripTail u := by
  rw [← List.mem_reverse, ← List.takeWhile_append_dropWhile (l := u.reverse)
    (p := fun b => b = 10 || b = 13 || b = 32), List.mem_append] at h
  rcases h with h | h
  · have := List.mem_takeWhile_imp h
    simp [hb.1, hb.2.1, hb.2.2] at this
  · exact List.mem_reverse.mpr h

/-- `hex_to_bytes` on hex. -/
theorem hexToBytes_hex {maxOut : Nat} (h : HexBytes (stripTail (cstr u)))
    (hsize : (stripTail (cstr u)).length / 2 ≤ maxOut) : hexToBytes u maxOut =
      (asInt ((stripTail (cstr u)).length / 2), (scanPairs (stripTail (cstr u))).1) := by
  unfold hexToBytes
  dsimp only
  rw [if_neg (not_not.mpr h.1), if_neg (Nat.not_lt.mpr hsize), if_pos ((scanPairs_iff h.1).mpr h)]

/-- It succeeds on hex only. -/
theorem hexBytes_of_success {maxOut : Nat} {n : Int} {out : Bytes}
    (h : hexToBytes u maxOut = (n, out)) (hn : 0 ≤ n) : HexBytes (stripTail (cstr u)) := by
  unfold hexToBytes at h
  dsimp only at h
  split at h
  · cases h; omega
  · next he =>
    split at h
    · cases h; omega
    · split at h
      · next hs => exact (scanPairs_iff (not_not.mp he)).mp hs
      · cases h; omega

theorem length_scanPairs (h : (scanPairs u).2 = true) : (scanPairs u).1.length = u.length / 2 := by
  induction u using scanPairs.induct with
  | case1 a b u hp =>
    rw [scanPairs, hp] at h
    exact absurd h Bool.false_ne_true
  | case2 a b u x hp ih =>
    rw [scanPairs, hp] at h ⊢
    simp only [List.length_cons, ih h]
    omega
  | case3 a => simp [scanPairs]
  | case4 => rfl

/-- What it returns is the number of bytes it wrote, and they fit. -/
theorem length_of_success {maxOut : Nat} (hmax : maxOut < 2 ^ 31)
    (h : 0 ≤ (hexToBytes u maxOut).1) : (hexToBytes u maxOut).1 = (hexToBytes u maxOut).2.length ∧
      (hexToBytes u maxOut).2.length ≤ maxOut := by
  unfold hexToBytes at h ⊢
  dsimp only at h ⊢
  split at h
  · dsimp only at h
    omega
  split at h
  · dsimp only at h
    omega
  split at h
  · next hodd hsize hs =>
    have hlen := length_scanPairs hs
    rw [if_neg hodd, if_neg hsize, if_pos hs]
    dsimp only
    rw [asInt_eq (by omega), hlen]
    omega
  · dsimp only at h
    omega

/-- The only other result is -1. -/
theorem failure_of_neg {maxOut : Nat} (hmax : maxOut < 2 ^ 31) (h : (hexToBytes u maxOut).1 < 0) :
    (hexToBytes u maxOut).1 = -1 := by
  unfold hexToBytes at h ⊢
  dsimp only at h ⊢
  split at h
  · next hodd => rw [if_pos hodd]
  split at h
  · next hodd hsize => rw [if_neg hodd, if_pos hsize]
  split at h
  · next hodd hsize hs =>
    dsimp only at h
    rw [asInt_eq (by omega)] at h
    omega
  · next hodd hsize hs => rw [if_neg hodd, if_neg hsize, if_neg hs]

/-- Hex before a NUL is no longer than the line. -/
theorem hexBytes_size (h : HexBytes (stripTail (cstr (utf8 s))))
    (hsize : s.length ≤ 2 * maxPayload) :
    (stripTail (cstr (utf8 s))).length / 2 ≤ maxPayload := by
  have hcount : (stripTail (cstr (utf8 s))).countP (fun b => (hexVal b).isSome) =
      (stripTail (cstr (utf8 s))).length := List.countP_eq_length.mpr h.2
  have hsub : (stripTail (cstr (utf8 s))).Sublist (utf8 s) :=
    (stripTail_sublist _).trans (List.takeWhile_prefix _).sublist
  have h1 := hsub.countP_le (p := fun b => (hexVal b).isSome)
  have h2 := countP_utf8 (p := fun b => (hexVal b).isSome) (fun b hb => (hexVal_plain hb).1) s
  omega

theorem fromHexStr_hex (ht : Trimmed s) (h : HexText s) : fromHexStr s = .ok (hexValue s) := by
  have hb := (hexText_iff s).mp h
  unfold fromHexStr
  dsimp only
  rw [ht.trimStr, if_neg (not_not.mpr hb.1), hexSlices_hex hb, scanPairs_value h]

theorem fromHexStr_err_iff (ht : Trimmed s) : fromHexStr s = .err ↔ RustRefuses (utf8 s) := by
  unfold fromHexStr RustRefuses
  dsimp only
  rw [ht.trimStr]
  by_cases he : (utf8 s).length % 2 = 0
  · rw [if_neg (not_not.mpr he), hexSlices_err_iff he]
    exact ⟨.inr, fun h => h.resolve_left (not_not.mpr he)⟩
  · rw [if_pos he]
    exact ⟨fun _ => .inl he, fun _ => rfl⟩

theorem hexToBytes_hexText (h : TextLine s) (hx : HexText s) :
    hexToBytes (utf8 s) maxPayload = (((hexValue s).length : Int), hexValue s) := by
  have hb := (hexText_iff s).mp hx
  have hnul : 0 ∉ utf8 s := fun h0 => absurd (hb.2 0 h0) (by decide)
  have hsame : stripTail (cstr (utf8 s)) = utf8 s := by
    rw [cstr_eq_self hnul, stripTail_line h.trimmed]
  have hlen : (utf8 s).length = s.length := by
    rw [utf8_ascii fun c hc => isHexDigit_low (hx.2 c hc), List.length_map]
  have hs := h.size
  unfold maxPayload at hs ⊢
  have hb' : HexBytes (stripTail (cstr (utf8 s))) := by
    rw [hsame]
    exact hb
  rw [hexToBytes_hex hb' (by rw [hsame]; omega), hsame, scanPairs_value hx, length_hexValue, hlen,
    asInt_eq (by omega)]

/-- Hex is read alike. -/
theorem HexText.sameLanguage (h : TextLine s) (hx : HexText s) : SameLanguage s := by
  have hok := fromHexStr_hex h.trimmed hx
  refine ⟨fun bs => ?_, fun e => ?_, fun n out => ?_, fun bs e => ?_⟩
  · rw [hok, Outcome.ok.injEq]
    exact ⟨fun e => ⟨hx, e.symm⟩, fun e => e.2.symm⟩
  · rw [hok] at e
    cases e
  · rw [hexToBytes_hexText h hx, hok, Outcome.ok.injEq, Prod.mk.injEq]
    constructor
    · rintro ⟨⟨rfl, rfl⟩, -⟩
      exact ⟨rfl, rfl⟩
    · rintro ⟨rfl, rfl⟩
      exact ⟨⟨rfl, rfl⟩, by omega⟩
  · rw [hok, Outcome.ok.injEq] at e
    subst e
    rw [bytesToHex_eq, toHex_hexValue hx]
    exact ⟨rfl, rfl⟩

/-- So is a line that both refuse. -/
theorem SameLanguage.of_refused (h : TextLine s) (hx : ¬ HexText s) (hr : RustRefuses (utf8 s))
    (hc : CRefuses (utf8 s)) : SameLanguage s := by
  have herr := (fromHexStr_err_iff h.trimmed).mpr hr
  refine ⟨fun bs => ?_, fun e => ?_, fun n out => ?_, fun bs e => ?_⟩
  · rw [herr]
    exact ⟨fun e => (by cases e), fun e => absurd e.1 hx⟩
  · rw [herr] at e
    cases e
  · rw [herr]
    refine ⟨fun ⟨e, hn⟩ => ?_, fun e => (by cases e.1)⟩
    have hb := hexBytes_of_success e hn
    by_cases h0 : 0 ∈ utf8 s
    · exact absurd hb (hc h0)
    · rw [cstr_eq_self h0, stripTail_line h.trimmed] at hb
      exact absurd ((hexText_iff s).mpr hb) hx
  · rw [herr] at e
    cases e

/-- **The two decoders** accept the same text as hex, except where one of them goes on with
a line that is no hex: Rust by a plus sign or by a cut character, C by a NUL. -/
theorem hex_decoders_iff (h : TextLine s) :
    SameLanguage s ↔ HexText s ∨ RustRefuses (utf8 s) ∧ CRefuses (utf8 s) := by
  constructor
  · intro hl
    by_cases hx : HexText s
    · exact .inl hx
    have herr : fromHexStr s = .err := by
      cases e : fromHexStr s with
      | ok bs => exact absurd ((hl.rust bs).mp e).1 hx
      | err => rfl
      | panic => exact absurd e hl.noPanic
    refine .inr ⟨(fromHexStr_err_iff h.trimmed).mp herr, fun _ hb => ?_⟩
    have hsize := hexBytes_size hb h.size
    have hn : 0 ≤ asInt ((stripTail (cstr (utf8 s))).length / 2) := by
      unfold maxPayload at hsize
      rw [asInt_eq (by omega)]
      omega
    have hc := ((hl.c _ _).mp ⟨hexToBytes_hex hb hsize, hn⟩).1
    rw [herr] at hc
    cases hc
  · rintro (hx | ⟨hr, hc⟩)
    · exact hx.sameLanguage h
    · by_cases hx : HexText s
      · exact hx.sameLanguage h
      · exact .of_refused h hx hr hc

/-- A plus sign is no digit to C. -/
theorem hex_decoders_plus : TextLine ['+', 'f'] ∧ ¬ SameLanguage ['+', 'f'] := by
  refine ⟨⟨by decide, by decide, ?_, ?_⟩, fun h => ?_⟩
  · exact fun c hc => by cases hc; rfl
  · exact fun c hc => by cases hc; rfl
  · have hx := ((h.rust [15]).mp (by decide)).1
    exact absurd (hx.2 '+' (by decide)) (by decide)

theorem hex_decoders_digits : SameLanguage ['0', 'A'] ↔
    HexText ['0', 'A'] ∨ RustRefuses (utf8 ['0', 'A']) ∧ CRefuses (utf8 ['0', 'A']) :=
  hex_decoders_iff ⟨by decide, by decide, fun c hc => by cases hc; rfl,
    fun c hc => by cases hc; rfl⟩

example : fromHexStr ['a', 'é', 'b'] = .panic := by decide

end FrostSshCa
