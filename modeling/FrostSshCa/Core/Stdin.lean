import FrostSshCa.Wire.Hex
import FrostSshCa.Lib.Lines

/-!
# What the core is fed

The calls of `frost_signer_core` in `frost_stubs.c` through `popen_multi`: the command line and
the text on standard input, one line for each blob. A table entry is a sender and its package.
-/

namespace FrostSshCa.Core

open Lib

/-- A subprocess that is started. -/
structure Invocation where
  args : List Bytes
  stdin : Bytes
  deriving DecidableEq, Repr

/-- `FROST_CORE_BIN` -/
def coreBin : Bytes := ascii "./frost_signer_core/target/debug/frost_signer_core"

/-- The size of `stdin_buf` in `popen_multi`. -/
def stdinMax : Nat := maxPayload * maxSigners * 3

/-- `HEX_LINE_MAX` -/
def hexLineMax : Nat := maxPayload * 2 + 4

/-- `snprintf` into a buffer of `size` bytes. -/
def snprintf (size : Nat) (text : Bytes) : Bytes := text.take (size - 1)

/-! ## `popen_multi` -/

/-- The loop that gathers the input lines; it refuses the line that does not fit. -/
def fillStdin (buf : Bytes) : List Bytes → Option Bytes
  | [] => some buf
  | l :: ls => if buf.length + l.length + 2 > stdinMax then none else fillStdin (buf ++ l ++ [10]) ls

def popenMulti (args lines : List Bytes) : Option Invocation :=
  (fillStdin [] lines).map fun text => ⟨coreBin :: args, text⟩

/-! ## The calls with peer packages -/

/-- `"%u %s"` of a sender and its package in hex. -/
def peerLine (size : Nat) (p : Nat × Bytes) : Bytes :=
  snprintf size (decimal p.1 ++ 32 :: bytesToHex p.2)

def frostDkgPart2 (myId : Nat) (secret : Bytes) (r1 : List (Nat × Bytes)) : Option Invocation :=
  popenMulti [ascii "dkg_part2", ascii "--id", decimal myId, ascii "--n", decimal (r1.length + 1)]
    (bytesToHex secret :: r1.map (peerLine (hexLineMax + 8)))

def frostDkgPart3 (myId : Nat) (secret : Bytes) (r1 r2 : List (Nat × Bytes)) : Option Invocation :=
  popenMulti [ascii "dkg_part3", ascii "--id", decimal myId, ascii "--n", decimal (r1.length + 1),
      ascii "--t", ascii "0"]
    (bytesToHex secret :: r1.map (peerLine (hexLineMax + 8)) ++ r2.map (peerLine (hexLineMax + 8)))

def frostRefreshPart2 (myId : Nat) (secret : Bytes) (r1 : List (Nat × Bytes)) : Option Invocation :=
  popenMulti [ascii "refresh_part2", ascii "--id", decimal myId]
    (bytesToHex secret :: r1.map (peerLine (maxPayload * 2 + 32)))

def frostRefreshShares (n : Nat) (secret : Bytes) (r1 r2 : List (Nat × Bytes)) (key pub : Bytes) :
    Option Invocation :=
  popenMulti [ascii "refresh_shares", ascii "--n", decimal n]
    (bytesToHex secret :: r1.map (peerLine (maxPayload * 2 + 32)) ++
      r2.map (peerLine (maxPayload * 2 + 32)) ++ [bytesToHex pub, bytesToHex key])

/-! ## The calls without peer packages -/

def frostDkgPart1 (id n t : Nat) : Option Invocation :=
  popenMulti [ascii "dkg_part1", ascii "--id", decimal id, ascii "--n", decimal n, ascii "--t",
    decimal t] []

def frostRefreshPart1 (myId n t : Nat) : Option Invocation :=
  popenMulti [ascii "refresh_part1", ascii "--id", decimal myId, ascii "--n", decimal n,
    ascii "--t", decimal t] []

def frostCommit (myId : Nat) (keyPkg : Bytes) : Option Invocation :=
  popenMulti [ascii "commit", ascii "--id", decimal myId] [bytesToHex keyPkg]

def frostSign (myId : Nat) (signingPkg nonces keyPkg : Bytes) : Option Invocation :=
  popenMulti [ascii "sign", ascii "--id", decimal myId]
    [bytesToHex nonces, bytesToHex keyPkg, bytesToHex signingPkg]

/-! ## What fits -/

/-- The lines are all taken, or one of them does not fit, whichever it is. -/
theorem fillStdin_eq (ls : List Bytes) (buf : Bytes) : fillStdin buf ls =
    if ls = [] ∨ buf.length + (unlines 10 ls).length + 1 ≤ stdinMax then some (buf ++ unlines 10 ls)
    else none := by
  induction ls generalizing buf with
  | nil => rw [if_pos (.inl rfl), unlines_nil, List.append_nil, fillStdin]
  | cons l ls ih =>
    have hlen : (unlines 10 (l :: ls)).length = l.length + 1 + (unlines 10 ls).length := by
      rw [unlines_cons, List.length_append, List.length_cons]
      omega
    have hcat : buf ++ l ++ [10] ++ unlines 10 ls = buf ++ unlines 10 (l :: ls) := by
      rw [unlines_cons]
      simp only [List.append_assoc, List.singleton_append]
    have hbuf : (buf ++ l ++ [10]).length = buf.length + l.length + 1 := by
      simp only [List.length_append, List.length_singleton]
    unfold fillStdin
    rw [ih, hcat, hbuf, hlen]
    by_cases hfit : buf.length + l.length + 2 > stdinMax
    · rw [if_pos hfit, if_neg]
      rintro (h | h)
      · cases h
      · omega
    rw [if_neg hfit]
    by_cases hls : ls = []
    · rw [if_pos (.inl hls), if_pos]
      rw [hls, unlines_nil, List.length_nil]
      omega
    · have hiff : (ls = [] ∨ buf.length + l.length + 1 + (unlines 10 ls).length + 1 ≤ stdinMax) ↔
          (l :: ls = [] ∨ buf.length + (l.length + 1 + (unlines 10 ls).length) + 1 ≤ stdinMax) := by
        constructor
        · rintro (h | h)
          · exact absurd h hls
          · exact .inr (by omega)
        · rintro (h | h)
          · cases h
          · exact .inr (by omega)
      rw [if_congr hiff rfl rfl]

/-- **`popen_multi`** starts the core on exactly these lines, or does not start it. -/
theorem popenMulti_some {args ls : List Bytes} {inv : Invocation}
    (h : popenMulti args ls = some inv) : inv = ⟨coreBin :: args, unlines 10 ls⟩ := by
  unfold popenMulti at h
  rw [fillStdin_eq] at h
  split at h
  · exact (Option.some.inj h).symm
  · cases h

/-- Whether it does depends on the lengths of the lines only, not on their order. -/
theorem popenMulti_perm {args ls ms : List Bytes} (h : ls.Perm ms) :
    (popenMulti args ls).isSome = (popenMulti args ms).isSome := by
  have hlen : (unlines 10 ls).length = (unlines 10 ms).length := by
    rw [length_unlines, length_unlines]
    exact (h.map _).sum_nat
  have hnil : ls = [] ↔ ms = [] := ⟨fun e => (e ▸ h).nil_eq.symm, fun e => (e ▸ h).eq_nil⟩
  unfold popenMulti
  rw [fillStdin_eq, fillStdin_eq, hlen, if_congr (or_congr_left hnil) rfl rfl]
  split <;> rfl

/-! ## The lines -/

/-- A sender and a package that fit their fields. -/
structure Entry (p : Nat × Bytes) : Prop where
  id : p.1 < 65536
  size : 1 ≤ p.2.length ∧ p.2.length ≤ maxPayload

/-- Nothing is cut off: the buffers hold five digits, a blank and the hex. -/
theorem peerLine_eq {size : Nat} (hsize : maxPayload * 2 + 12 ≤ size) {p : Nat × Bytes}
    (h : Entry p) :
    peerLine size p = decimal p.1 ++ 32 :: bytesToHex p.2 := by
  have hd := decimal_length p.1
  have hp := h.size.2
  refine List.take_of_length_le ?_
  rw [List.length_append, List.length_cons, length_bytesToHex]
  omega

end FrostSshCa.Core
