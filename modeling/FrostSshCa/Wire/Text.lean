import FrostSshCa.Wire.Frame
import Mathlib.Tactic.Ring

/-!
# Text payloads

The control messages `SIGNER <id> <n> <t>`, `ACK <id> <mode>`,
`START_… <n> <t>` and `DKG_DONE <n>` are `snprintf` text read back with
`sscanf`. This is the part of both that the code uses: `%u` on a `uint16_t`,
literal text, a blank (any run of white space) and `%hu`.
-/

namespace FrostSshCa

/-- ASCII text. -/
def ascii (s : String) : Bytes := s.toList.map fun ch => UInt8.ofNat ch.toNat

/-! ## `%u` -/

def digit (d : Nat) : UInt8 := UInt8.ofNat (48 + d)

def decimalAux : Nat → Nat → Bytes
  | 0, _ => []
  | k + 1, n => if n < 10 then [digit n] else decimalAux k (n / 10) ++ [digit (n % 10)]

/-- `%u` of a `uint16_t`: at most five digits. -/
def decimal (n : Nat) : Bytes := decimalAux 5 n

/-! ## `sscanf` -/

def isSpace (b : UInt8) : Bool := b = 32 || (9 ≤ b && b ≤ 13)

def isDigit (b : UInt8) : Bool := 48 ≤ b && b ≤ 57

/-- A blank of the format. -/
def scanWs : Bytes → Bytes
  | [] => []
  | b :: bs => if isSpace b then scanWs bs else b :: bs

/-- Literal text of the format. -/
def scanLit : Bytes → Bytes → Option Bytes
  | [], bs => some bs
  | _ :: _, [] => none
  | l :: ls, b :: bs => if l = b then scanLit ls bs else none

def scanDigits (acc : Nat) : Bytes → Nat × Bytes
  | [] => (acc, [])
  | b :: bs => if isDigit b then scanDigits (acc * 10 + (b.toNat - 48)) bs else (acc, b :: bs)

/-- An unsigned conversion: a minus sign negates the value, one that does not fit is
`ULONG_MAX` with either sign, and the low 16 bits are stored. -/
def scanUnsigned (neg : Bool) : Bytes → Option (Nat × Bytes)
  | [] => none
  | b :: bs =>
    if isDigit b then
      let r := scanDigits 0 (b :: bs)
      let v := if 2 ^ 64 ≤ r.1 then 2 ^ 64 - 1 else if neg then 2 ^ 64 - r.1 else r.1
      some (v % 65536, r.2)
    else none

/-- `%hu` -/
def scanU16 (bs : Bytes) : Option (Nat × Bytes) :=
  match scanWs bs with
  | 43 :: bs => scanUnsigned false bs
  | 45 :: bs => scanUnsigned true bs
  | bs => scanUnsigned false bs

/-- `<word> %hu %hu` on a payload copied into a 32-byte buffer. -/
def scanTwo (word payload : Bytes) : Option (Nat × Nat) :=
  (scanLit word (payload.take 31)).bind fun bs =>
  (scanU16 bs).bind fun (a, bs) =>
  (scanU16 bs).bind fun (b, _) => some (a, b)

/-- `<word> %hu %hu %hu` on a payload copied into a 64-byte buffer. -/
def scanThree (word payload : Bytes) : Option (Nat × Nat × Nat) :=
  (scanLit word (payload.take 63)).bind fun bs =>
  (scanU16 bs).bind fun (a, bs) =>
  (scanU16 bs).bind fun (b, bs) =>
  (scanU16 bs).bind fun (c, _) => some (a, b, c)

/-! ## Reading back what was printed -/

theorem isDigit_digit {d : Nat} (h : d < 10) : isDigit (digit d) = true := by
  have : d = 0 ∨ d = 1 ∨ d = 2 ∨ d = 3 ∨ d = 4 ∨ d = 5 ∨ d = 6 ∨ d = 7 ∨ d = 8 ∨ d = 9 := by omega
  rcases this with h | h | h | h | h | h | h | h | h | h <;> subst h <;> decide

theorem toNat_digit {d : Nat} (h : d < 10) : (digit d).toNat - 48 = d := by
  simp only [digit, UInt8.toNat_ofNat']
  omega

theorem scanDigits_decimalAux (r : Bytes) : ∀ {k n : Nat} (acc : Nat), n < 10 ^ k →
    scanDigits acc (decimalAux k n ++ r) =
      scanDigits (acc * 10 ^ (decimalAux k n).length + n) r := by
  intro k
  induction k generalizing r with
  | zero =>
    intro n acc h
    have : n = 0 := by simpa using h
    subst this
    simp [decimalAux]
  | succ k ih =>
    intro n acc h
    unfold decimalAux
    split
    · next hn => simp [scanDigits, isDigit_digit hn, toNat_digit hn]
    · have hk : n / 10 < 10 ^ k := by
        rw [Nat.div_lt_iff_lt_mul (by omega)]; simpa [Nat.pow_succ] using h
      have hd : n % 10 < 10 := Nat.mod_lt _ (by omega)
      rw [List.append_assoc, ih _ _ hk]
      simp only [List.singleton_append, scanDigits, isDigit_digit hd, if_true, toNat_digit hd,
        List.length_append, List.length_singleton, Nat.pow_succ]
      congr 1
      have := Nat.div_add_mod n 10
      rw [Nat.add_mul, Nat.mul_assoc]
      omega

theorem decimalAux_head {k n : Nat} : ∃ d bs, d < 10 ∧ decimalAux (k + 1) n = digit d :: bs := by
  induction k generalizing n with
  | zero =>
    unfold decimalAux
    split
    · next h => exact ⟨n, [], h, rfl⟩
    · exact ⟨n % 10, [], Nat.mod_lt _ (by omega), rfl⟩
  | succ k ih =>
    unfold decimalAux
    split
    · next h => exact ⟨n, [], h, rfl⟩
    · obtain ⟨d, bs, hd, e⟩ := ih (n := n / 10)
      exact ⟨d, bs ++ [digit (n % 10)], hd, by rw [e]; rfl⟩

theorem decimalAux_length (k n : Nat) : (decimalAux k n).length ≤ k := by
  induction k generalizing n with
  | zero => simp [decimalAux]
  | succ k ih =>
    unfold decimalAux
    split
    · simp
    · have := ih (n / 10); simp; omega

theorem decimal_length (n : Nat) : (decimal n).length ≤ 5 := decimalAux_length 5 n

/-- Digits are neither blanks nor signs. -/
theorem digit_plain {d : Nat} (h : d < 10) :
    isSpace (digit d) = false ∧ digit d ≠ 43 ∧ digit d ≠ 45 := by
  have : d = 0 ∨ d = 1 ∨ d = 2 ∨ d = 3 ∨ d = 4 ∨ d = 5 ∨ d = 6 ∨ d = 7 ∨ d = 8 ∨ d = 9 := by omega
  rcases this with h | h | h | h | h | h | h | h | h | h <;> subst h <;> decide

/-- The text that follows a printed number does not go on with a digit. -/
def Stops : Bytes → Prop
  | [] => True
  | b :: _ => isDigit b = false

theorem scanDigits_stop {bs : Bytes} (h : Stops bs) (acc : Nat) :
    scanDigits acc bs = (acc, bs) := by
  cases bs with
  | nil => rfl
  | cons b bs =>
    have hb : isDigit b = false := h
    simp [scanDigits, hb]

/-- The blank between two numbers. -/
theorem blank_spaces : ∀ b ∈ ([32] : Bytes), isSpace b = true := by
  intro b hb
  rw [List.mem_singleton.mp hb]
  decide

theorem scanU16_decimal {n : Nat} (hn : n < 65536) {r : Bytes} (hr : Stops r) (ws : Bytes)
    (hws : ∀ b ∈ ws, isSpace b = true) : scanU16 (ws ++ (decimal n ++ r)) = some (n, r) := by
  have hskip : scanWs (ws ++ (decimal n ++ r)) = decimal n ++ r := by
    induction ws with
    | nil =>
      obtain ⟨d, bs, hd, e⟩ := decimalAux_head (k := 4) (n := n)
      simp only [decimal, e, List.nil_append, List.cons_append, scanWs, (digit_plain hd).1]
      rfl
    | cons b ws ih =>
      have hb := hws b (List.mem_cons_self ..)
      simp only [List.cons_append, scanWs, hb, if_true]
      exact ih fun x hx => hws x (List.mem_cons_of_mem _ hx)
  obtain ⟨d, bs, hd, e⟩ := decimalAux_head (k := 4) (n := n)
  obtain ⟨-, h43, h45⟩ := digit_plain hd
  have hval := scanDigits_decimalAux r (k := 5) (n := n) 0 (by omega)
  rw [Nat.zero_mul, Nat.zero_add, scanDigits_stop hr] at hval
  unfold scanU16
  rw [hskip]
  unfold decimal at *
  rw [e] at hval ⊢
  split
  · next h => injection h with h; exact absurd h h43
  · next h => injection h with h; exact absurd h h45
  · simp only [List.cons_append] at hval ⊢
    simp only [scanUnsigned, isDigit_digit hd, if_true, hval, Bool.false_eq_true, if_false,
      if_neg (show ¬ 2 ^ 64 ≤ n by omega), Nat.mod_eq_of_lt hn]

theorem scanLit_append (w r : Bytes) : scanLit w (w ++ r) = some r := by
  induction w with
  | nil => rfl
  | cons b w ih => simp [scanLit, ih]

/-- `<word> <a> <b>` -/
def printTwo (word : Bytes) (a b : Nat) : Bytes :=
  word ++ [32] ++ decimal a ++ [32] ++ decimal b ++ [10]

/-- `<word> <a> <b> <c>` -/
def printThree (word : Bytes) (a b c : Nat) : Bytes :=
  word ++ [32] ++ decimal a ++ [32] ++ decimal b ++ [32] ++ decimal c ++ [10]

theorem scanTwo_printTwo {word : Bytes} (hw : word.length ≤ 14) {a b : Nat} (ha : a < 65536)
    (hb : b < 65536) : scanTwo word (printTwo word a b) = some (a, b) := by
  have hla := decimal_length a
  have hlb := decimal_length b
  have ht : (printTwo word a b).take 31 = printTwo word a b := by
    apply List.take_of_length_le
    simp only [printTwo, List.length_append, List.length_singleton]
    omega
  unfold scanTwo
  rw [ht]
  have hs : Stops ([32] ++ (decimal b ++ [10])) := by show isDigit 32 = false; decide
  have hs' : Stops [10] := by show isDigit 10 = false; decide
  have e1 := scanU16_decimal ha hs [32] blank_spaces
  have e2 := scanU16_decimal hb hs' [32] blank_spaces
  simp only [printTwo, List.append_assoc, scanLit_append, Option.bind_some, e1, e2]

theorem scanThree_printThree {word : Bytes} (hw : word.length ≤ 44) {a b c : Nat}
    (ha : a < 65536) (hb : b < 65536) (hc : c < 65536) :
    scanThree word (printThree word a b c) = some (a, b, c) := by
  have hla := decimal_length a
  have hlb := decimal_length b
  have hlc := decimal_length c
  have ht : (printThree word a b c).take 63 = printThree word a b c := by
    apply List.take_of_length_le
    simp only [printThree, List.length_append, List.length_singleton]
    omega
  unfold scanThree
  rw [ht]
  have hs (n : Nat) : Stops ([32] ++ (decimal n ++ [10])) := by show isDigit 32 = false; decide
  have hs2 : Stops ([32] ++ (decimal b ++ ([32] ++ (decimal c ++ [10])))) := by
    show isDigit 32 = false; decide
  have hs' : Stops [10] := by show isDigit 10 = false; decide
  have e1 := scanU16_decimal ha hs2 [32] blank_spaces
  have e2 := scanU16_decimal hb (hs c) [32] blank_spaces
  have e3 := scanU16_decimal hc hs' [32] blank_spaces
  simp only [printThree, List.append_assoc, scanLit_append, Option.bind_some, e1, e2, e3]

end FrostSshCa
