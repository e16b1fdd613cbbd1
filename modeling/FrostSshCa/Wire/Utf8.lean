import FrostSshCa.Wire.Hex

/-!
# Rust strings

A `str` as its characters, the bytes that hold it, and `trim`, which goes by the Unicode
property `White_Space`. On ASCII text it is the `trim` of `Wire.Hex`.
-/

namespace FrostSshCa

/-- The bytes of a `str`. -/
def utf8 (s : List Char) : Bytes := s.flatMap String.utf8EncodeChar

/-- `str::from_utf8`, on the bytes of a line. -/
def utf8Decode (bs : Bytes) : Option (List Char) := bs.toByteArray.utf8Decode?.map Array.toList

/-- `char::is_whitespace` -/
def isWhitespace (c : Char) : Bool :=
  let n := c.toNat
  n = 32 || (9 ≤ n && n ≤ 13) || n = 0x85 || n = 0xa0 || n = 0x1680 || (0x2000 ≤ n && n ≤ 0x200a) ||
    n = 0x2028 || n = 0x2029 || n = 0x202f || n = 0x205f || n = 0x3000

/-- `str::trim` -/
def trimStr (s : List Char) : List Char :=
  ((s.dropWhile isWhitespace).reverse.dropWhile isWhitespace).reverse

/-- The text starts and ends with something else than white space. -/
structure Trimmed (s : List Char) : Prop where
  head : ∀ c, s.head? = some c → isWhitespace c = false
  last : ∀ c, s.getLast? = some c → isWhitespace c = false

variable {s : List Char} {c : Char}

/-! ## Bytes -/

@[simp] theorem utf8_nil : utf8 [] = [] := rfl

theorem utf8_cons (c : Char) (s : List Char) :
    utf8 (c :: s) = String.utf8EncodeChar c ++ utf8 s := rfl

theorem utf8_append (s s' : List Char) : utf8 (s ++ s') = utf8 s ++ utf8 s' := List.flatMap_append

/-- An ASCII character is a byte. -/
theorem utf8EncodeChar_ascii (h : c.toNat < 128) :
    String.utf8EncodeChar c = [UInt8.ofNat c.toNat] := by
  unfold String.utf8EncodeChar
  exact if_pos (show c.val.toNat ≤ 127 from Nat.le_of_lt_succ h)

/-- The bytes of any other are not ASCII. -/
theorem utf8EncodeChar_high (h : ¬ c.toNat < 128) :
    ∀ b ∈ String.utf8EncodeChar c, 128 ≤ b.toNat := by
  have hv : ¬ c.val.toNat ≤ 127 := fun h' => h (Nat.lt_succ_of_le h')
  intro b hb
  unfold String.utf8EncodeChar at hb
  dsimp only at hb
  rw [if_neg hv] at hb
  split at hb
  · simp only [List.mem_cons, List.not_mem_nil, or_false] at hb
    rcases hb with rfl | rfl <;> rw [UInt8.toNat_ofNat'] <;> omega
  · split at hb
    · simp only [List.mem_cons, List.not_mem_nil, or_false] at hb
      rcases hb with rfl | rfl | rfl <;> rw [UInt8.toNat_ofNat'] <;> omega
    · simp only [List.mem_cons, List.not_mem_nil, or_false] at hb
      rcases hb with rfl | rfl | rfl | rfl <;> rw [UInt8.toNat_ofNat'] <;> omega

/-- A byte of the text below 128 is one of its characters. -/
theorem mem_utf8_low {b : UInt8} (hb : b ∈ utf8 s) (h : b.toNat < 128) :
    ∃ c ∈ s, c.toNat < 128 ∧ b = UInt8.ofNat c.toNat := by
  obtain ⟨c, hc, hb⟩ := List.mem_flatMap.mp hb
  by_cases hlow : c.toNat < 128
  · rw [utf8EncodeChar_ascii hlow, List.mem_singleton] at hb
    exact ⟨c, hc, hlow, hb⟩
  · exact absurd (utf8EncodeChar_high hlow b hb) (by omega)

/-- ASCII text has a byte for each character. -/
theorem utf8_ascii (h : ∀ c ∈ s, c.toNat < 128) : utf8 s = s.map fun c => UInt8.ofNat c.toNat := by
  induction s with
  | nil => rfl
  | cons c s ih =>
    rw [utf8_cons, utf8EncodeChar_ascii (h c (List.mem_cons_self ..)),
      ih fun x hx => h x (List.mem_cons_of_mem _ hx)]
    rfl

/-- No more than one byte below 128 for each character. -/
theorem countP_utf8 {p : UInt8 → Bool} (hp : ∀ b, p b = true → b.toNat < 128) (s : List Char) :
    (utf8 s).countP p ≤ s.length := by
  induction s with
  | nil => simp
  | cons c s ih =>
    rw [utf8_cons, List.countP_append, List.length_cons]
    have hc : (String.utf8EncodeChar c).countP p ≤ 1 := by
      by_cases h : c.toNat < 128
      · rw [utf8EncodeChar_ascii h]
        exact List.countP_le_length
      · have hz : (String.utf8EncodeChar c).countP p = 0 :=
          List.countP_eq_zero.mpr fun b hb h' => by
          have := utf8EncodeChar_high h b hb
          have := hp b h'
          omega
        omega
    omega

theorem utf8Decode_utf8 (s : List Char) : utf8Decode (utf8 s) = some s := by
  have h := List.utf8Decode?_utf8Encode (l := s)
  unfold List.utf8Encode at h
  unfold utf8Decode utf8
  rw [h]
  rfl

theorem utf8Decode_eq_some {bs : Bytes} : utf8Decode bs = some s ↔ bs = utf8 s := by
  constructor
  · intro h
    obtain ⟨a, ha, rfl⟩ := Option.map_eq_some_iff.mp h
    have hsome : bs.toByteArray.utf8Decode?.isSome = true := by
      rw [ha]
      rfl
    obtain ⟨s, hs⟩ := ByteArray.isSome_utf8Decode?_iff.mp hsome
    have hbs : bs = utf8 s := by
      have := congrArg (fun b => b.data.toList) hs
      simpa [List.utf8Encode, utf8] using this
    rw [hbs] at h
    have := utf8Decode_utf8 s
    rw [this] at h
    rw [hbs, Option.some.inj h]
  · rintro rfl
    exact utf8Decode_utf8 s

theorem utf8_inj {s' : List Char} (h : utf8 s = utf8 s') : s = s' := by
  have := utf8Decode_utf8 s
  rw [h, utf8Decode_utf8] at this
  exact (Option.some.inj this).symm

/-! ## `trim` -/

theorem dropWhile_eq_self {α : Type} {p : α → Bool} {l : List α}
    (h : ∀ a, l.head? = some a → p a = false) : l.dropWhile p = l := by
  cases l with
  | nil => rfl
  | cons a l => exact List.dropWhile_cons_of_neg (by rw [h a rfl]; exact Bool.false_ne_true)

theorem Trimmed.trimStr (h : Trimmed s) : trimStr s = s := by
  unfold FrostSshCa.trimStr
  rw [dropWhile_eq_self h.head, dropWhile_eq_self, List.reverse_reverse]
  intro c hc
  rw [List.head?_reverse] at hc
  exact h.last c hc

theorem mem_of_mem_trimStr (h : c ∈ trimStr s) : c ∈ s := by
  unfold trimStr at h
  have h := (List.dropWhile_suffix _).subset (List.mem_reverse.mp h)
  exact (List.dropWhile_suffix _).subset (List.mem_reverse.mp h)

theorem head?_dropWhile {α : Type} {p : α → Bool} {l : List α} {a : α}
    (h : (l.dropWhile p).head? = some a) : p a = false := by
  induction l with
  | nil => cases h
  | cons b l ih =>
    rw [List.dropWhile_cons] at h
    split at h
    · exact ih h
    · next hb =>
      cases h
      exact Bool.eq_false_of_not_eq_true hb

/-- What is trimmed stays so. -/
theorem trimStr_trimmed (s : List Char) : Trimmed (trimStr s) := by
  refine ⟨fun c hc => ?_, fun c hc => ?_⟩
  · -- the first character is that of the text without its front blanks
    unfold trimStr at hc
    rw [List.head?_reverse] at hc
    obtain ⟨u, hu⟩ := List.dropWhile_suffix (l := (s.dropWhile isWhitespace).reverse) isWhitespace
    have hlast : ((s.dropWhile isWhitespace).reverse).getLast? = some c := by
      rw [← hu, List.getLast?_append, hc]
      rfl
    rw [List.getLast?_reverse] at hlast
    exact head?_dropWhile hlast
  · unfold trimStr at hc
    rw [List.getLast?_reverse] at hc
    exact head?_dropWhile hc

end FrostSshCa
