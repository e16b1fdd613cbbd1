import FrostSshCa.Core.Stdin
import FrostSshCa.Wire.Bundle

/-!
# Requests printed into a buffer

The calls of the core that do not go through `popen_multi` print their input with `snprintf`,
line after line into one buffer, and write as many bytes to the subprocess as were to be printed.
-/

namespace FrostSshCa.Core

open Lib

/-- What the calls of `snprintf` left in the buffer, and the offset they go on from, which counts
what did not fit as well. -/
structure TextBuf where
  text : Bytes
  off : Nat
  deriving DecidableEq, Repr

/-- `off += snprintf(buf + off, size - off, ..)`, as long as `off` is within the buffer. -/
def TextBuf.print (size : Nat) (b : TextBuf) (line : Bytes) : TextBuf :=
  ⟨b.text ++ snprintf (size - b.off) line, b.off + line.length⟩

def fillText (size : Nat) (lines : List Bytes) : TextBuf := lines.foldl (TextBuf.print size) ⟨[], 0⟩

/-! ## `frost_assemble_signing_package` -/

/-- The size of `assemble_in`. -/
def assembleMax : Nat := maxSigners * (commitEntryMax * 2 + 16) + maxPayload * 2 + 32

/-- `"%u %s\n"` -/
def entryLine (id : Nat) (blob : Bytes) : Bytes := decimal id ++ 32 :: (bytesToHex blob ++ [10])

def assembleRequest (b : CommitBundle) : TextBuf :=
  fillText assembleMax ((bytesToHex b.tbs ++ 10 :: (decimal b.entries.length ++ [10])) ::
    b.entries.map fun e => entryLine e.id e.commit)

def frostAssemble (b : CommitBundle) : Invocation :=
  ⟨[coreBin, ascii "assemble"], (assembleRequest b).text⟩

/-! ## What fits -/

variable {size : Nat}

/-- Lines that fit are all printed, and the offset is at their end. -/
theorem foldl_print {lines : List Bytes} {b : TextBuf} (hb : b.off = b.text.length)
    (h : b.off + lines.flatten.length < size) :
    lines.foldl (TextBuf.print size) b =
      ⟨b.text ++ lines.flatten, b.text.length + lines.flatten.length⟩ := by
  induction lines generalizing b with
  | nil =>
    obtain ⟨text, off⟩ := b
    simp only [List.foldl_nil, List.flatten_nil, List.append_nil, List.length_nil, Nat.add_zero]
    exact congrArg _ hb
  | cons l ls ih =>
    rw [List.flatten_cons, List.length_append] at h
    have hl : snprintf (size - b.off) l = l := List.take_of_length_le (by omega)
    have hprint : b.print size l = ⟨b.text ++ l, b.off + l.length⟩ := by
      unfold TextBuf.print
      rw [hl]
    rw [List.foldl_cons, hprint, ih (by simp [hb]) (by simp only; omega)]
    simp only [List.append_assoc, List.flatten_cons, List.length_append, TextBuf.mk.injEq, true_and]
    omega

theorem fillText_eq {lines : List Bytes} (h : lines.flatten.length < size) :
    fillText size lines = ⟨lines.flatten, lines.flatten.length⟩ := by
  unfold fillText
  rw [foldl_print rfl (by simpa using h)]
  simp

end FrostSshCa.Core
