import FrostSshCa.Wire.Hex
import Mathlib.Data.List.TakeWhile

/-!
# C strings

Text in a `char` array ends at its first NUL; `fgets` fills such an array with one line, or with
as much of it as fits. What a function returns as `int` or stores as `uint16_t` is cut to that
many bits.
-/

namespace FrostSshCa

/-- The string that starts here, up to its NUL. -/
def cstr (bs : Bytes) : Bytes := bs.takeWhile (· ≠ 0)

/-- Conversion of a `size_t` to `int`. -/
def asInt (n : Nat) : Int := Int.bmod n (2 ^ 32)

/-- Conversion of an `int` to `uint16_t`. -/
def asUInt16 (n : Int) : Nat := (n % 2 ^ 16).toNat

/-- The bytes up to the end of the line, no more than `n` of them, and what is left. -/
def takeLine : Nat → Bytes → Bytes × Bytes
  | 0, bs => ([], bs)
  | _ + 1, [] => ([], [])
  | n + 1, b :: bs => if b = 10 then ([b], bs) else (b :: (takeLine n bs).1, (takeLine n bs).2)

/-- `fgets` into an array of `size` bytes. -/
def fgets (size : Nat) (text : Bytes) : Option (Bytes × Bytes) :=
  if text = [] then none else some (takeLine (size - 1) text)

variable {u : Bytes}

theorem cstr_cons {b : UInt8} (h : b ≠ 0) (bs : Bytes) : cstr (b :: bs) = b :: cstr bs := by
  unfold cstr
  exact List.takeWhile_cons_of_pos (by simpa using h)

theorem cstr_eq_self (h : 0 ∉ u) : cstr u = u := by
  induction u with
  | nil => rfl
  | cons b u ih =>
    rw [cstr_cons fun e => h (e ▸ List.mem_cons_self ..), ih fun hu =>
      h (List.mem_cons_of_mem _ hu)]

theorem zero_not_mem_cstr (u : Bytes) : 0 ∉ cstr u := by
  intro h
  simpa using List.mem_takeWhile_imp h

theorem asInt_eq {n : Nat} (h : n < 2 ^ 31) : asInt n = n := by
  unfold asInt
  exact Int.bmod_eq_of_le (by omega) (by omega)

theorem asUInt16_eq {n : Nat} (h : n < 2 ^ 16) : asUInt16 n = n := by
  unfold asUInt16
  omega

/-- A line that fits is read whole, with its end. -/
theorem takeLine_line {n : Nat} {l : Bytes} (h : 10 ∉ l) (hn : l.length < n) (r : Bytes) :
    takeLine n (l ++ 10 :: r) = (l ++ [10], r) := by
  induction l generalizing n with
  | nil =>
    obtain ⟨n, rfl⟩ := Nat.exists_eq_succ_of_ne_zero (Nat.ne_of_gt hn)
    exact if_pos rfl
  | cons b l ih =>
    have hb : b ≠ 10 := fun e => h (e ▸ List.mem_cons_self ..)
    obtain ⟨n, rfl⟩ := Nat.exists_eq_succ_of_ne_zero (Nat.ne_of_gt (Nat.zero_lt_of_lt hn))
    rw [List.cons_append, takeLine, if_neg hb,
      ih (fun hm => h (List.mem_cons_of_mem _ hm)) (Nat.lt_of_succ_lt_succ hn)]
    rfl

theorem fgets_line {size : Nat} {l : Bytes} (h : 10 ∉ l) (hn : l.length + 1 < size) (r : Bytes) :
    fgets size (l ++ 10 :: r) = some (l ++ [10], r) := by
  have hne : l ++ 10 :: r ≠ [] := List.append_ne_nil_of_right_ne_nil _ (List.cons_ne_nil 10 r)
  unfold fgets
  rw [if_neg hne, takeLine_line h (by omega)]

theorem cstr_cstr (u : Bytes) : cstr (cstr u) = cstr u := cstr_eq_self (zero_not_mem_cstr u)

end FrostSshCa
