import FrostSshCa.Wire.Text

/-!
# Hex text

Key files and the lines exchanged with `frost_signer_core` hold bytes as hex:
`bytes_to_hex` of `frost_stubs.c` and `to_hex` of `main.rs` write the same
lower-case text, `from_hex` reads it back.
-/

namespace FrostSshCa

/-- A character of `"0123456789abcdef"`. -/
def hexDigit (d : Nat) : UInt8 := if d < 10 then digit d else UInt8.ofNat (87 + d)

/-- `bytes_to_hex` -/
def bytesToHex (bs : Bytes) : Bytes :=
  bs.flatMap fun b => [hexDigit (b.toNat / 16), hexDigit (b.toNat % 16)]

/-- A file that holds one line of hex. -/
def hexFile (bs : Bytes) : Bytes := bytesToHex bs ++ [10]

/-! ## `from_hex` -/

/-- `char::to_digit(16)` -/
def hexVal (b : UInt8) : Option Nat :=
  if isDigit b then some (b.toNat - 48)
  else if 97 ≤ b && b ≤ 102 then some (b.toNat - 87)
  else if 65 ≤ b && b ≤ 70 then some (b.toNat - 55)
  else none

/-- `u8::from_str_radix(_, 16)` of two characters: a plus sign may come first. -/
def fromStrRadix (a b : UInt8) : Option UInt8 :=
  if a = 43 then (hexVal b).map UInt8.ofNat
  else (hexVal a).bind fun hi => (hexVal b).map fun lo => UInt8.ofNat (hi * 16 + lo)

/-- The pairs of a hex string. A single character left over is an odd length. -/
def hexPairs : Bytes → Option Bytes
  | [] => some []
  | [_] => none
  | a :: b :: bs => (fromStrRadix a b).bind fun x => (hexPairs bs).map (x :: ·)

/-- `str::trim`, on ASCII text. -/
def trim (bs : Bytes) : Bytes := (scanWs (scanWs bs).reverse).reverse

/-- `from_hex` -/
def fromHex (bs : Bytes) : Option Bytes := hexPairs (trim bs)

/-! ## Lengths and characters -/

@[simp] theorem bytesToHex_nil : bytesToHex [] = [] := rfl

theorem bytesToHex_cons (b : UInt8) (bs : Bytes) : bytesToHex (b :: bs) =
    hexDigit (b.toNat / 16) :: hexDigit (b.toNat % 16) :: bytesToHex bs := rfl

@[simp] theorem length_bytesToHex (bs : Bytes) : (bytesToHex bs).length = 2 * bs.length := by
  induction bs with
  | nil => rfl
  | cons b bs ih =>
    rw [bytesToHex_cons]
    simp only [List.length_cons, ih]
    omega

@[simp] theorem length_hexFile (bs : Bytes) : (hexFile bs).length = 2 * bs.length + 1 := by
  simp [hexFile]

/-- A hex digit is read back as its value. -/
theorem hexVal_hexDigit {d : Nat} (h : d < 16) : hexVal (hexDigit d) = some d := by
  have : ∀ d : Fin 16, hexVal (hexDigit d) = some d.val := by decide
  exact this ⟨d, h⟩

/-- It is neither a blank nor a plus sign. -/
theorem hexDigit_plain {d : Nat} (h : d < 16) : isSpace (hexDigit d) = false ∧ hexDigit d ≠ 43 := by
  have : ∀ d : Fin 16, isSpace (hexDigit d) = false ∧ hexDigit d ≠ 43 := by decide
  exact this ⟨d, h⟩

theorem bytesToHex_plain {bs : Bytes} : ∀ c ∈ bytesToHex bs, isSpace c = false := by
  intro c hc
  obtain ⟨b, -, hb⟩ := List.mem_flatMap.mp hc
  have hlt := b.toNat_lt
  rcases List.mem_cons.mp hb with h | h
  · rw [h]
    exact (hexDigit_plain (by omega)).1
  · rw [List.mem_singleton.mp h]
    exact (hexDigit_plain (Nat.mod_lt _ (by omega))).1

/-! ## Reading back -/

theorem fromStrRadix_hexDigit (b : UInt8) :
    fromStrRadix (hexDigit (b.toNat / 16)) (hexDigit (b.toNat % 16)) = some b := by
  have hlt := b.toNat_lt
  have hhi : b.toNat / 16 < 16 := by omega
  have hlo : b.toNat % 16 < 16 := Nat.mod_lt _ (by omega)
  unfold fromStrRadix
  rw [if_neg (hexDigit_plain hhi).2, hexVal_hexDigit hhi, hexVal_hexDigit hlo]
  show some (UInt8.ofNat (b.toNat / 16 * 16 + b.toNat % 16)) = some b
  rw [Nat.div_add_mod', UInt8.ofNat_toNat]

theorem hexPairs_bytesToHex (bs : Bytes) : hexPairs (bytesToHex bs) = some bs := by
  induction bs with
  | nil => rfl
  | cons b bs ih =>
    rw [bytesToHex_cons]
    unfold hexPairs
    rw [fromStrRadix_hexDigit, ih]
    rfl

/-- Text that neither starts nor ends with a blank is its own `trim`. -/
theorem scanWs_eq_self {bs : Bytes} (h : ∀ b, bs.head? = some b → isSpace b = false) :
    scanWs bs = bs := by
  cases bs with
  | nil => rfl
  | cons b bs =>
    unfold scanWs
    rw [if_neg (by rw [h b rfl]; exact Bool.false_ne_true)]

theorem trim_eq_self {bs : Bytes} (h : ∀ b, bs.head? = some b → isSpace b = false)
    (h' : ∀ b, bs.getLast? = some b → isSpace b = false) : trim bs = bs := by
  unfold trim
  rw [scanWs_eq_self h, scanWs_eq_self, List.reverse_reverse]
  intro b hb
  rw [List.head?_reverse] at hb
  exact h' b hb

theorem fromHex_bytesToHex (bs : Bytes) : fromHex (bytesToHex bs) = some bs := by
  unfold fromHex
  rw [trim_eq_self, hexPairs_bytesToHex]
  · exact fun c hc => bytesToHex_plain c (List.mem_of_mem_head? hc)
  · exact fun c hc => bytesToHex_plain c (List.mem_of_getLast? hc)

end FrostSshCa
