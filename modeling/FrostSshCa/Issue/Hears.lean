import FrostSshCa.Core.Answers
import FrostSshCa.Issue.Prints

/-!
# What the coordinator makes of the answers

`call_tbs`, `prepare_tbs`, `roast_try_form_session`, `roast_try_aggregate` and `call_mint`
each read the output of a subprocess line by line into a buffer of another size, cut the line
at its end and decode it. A line of hex that does not fit is cut at an odd place, so it is
not taken for another; a line of text is whole if the buffer has room left.
-/

namespace FrostSshCa.Issue

open Lib FrostSshCa.Core Stubs Coordinator

/-! ## The calls -/

variable (core : Invocation → Option Child)

/-- `call_tbs` from its lines on. -/
def readTbs (c : Child) : TbsResult :=
  match fgets hexLineMax c.text with
  | none => .noTemplate
  | some (hex, rest) =>
    match fgets maxPayload rest with
    | none => .noTemplate
    | some (cert, _) =>
      let d := cutEnd cert
      if c.status ≠ 0 ∨ cutEnd hex = [] then .template d
      else
        let r := hexToBytes (cutEnd hex) maxPayload
        if r.1 ≤ 0 then .badHex d r.2 else .ok d r.2

/-- The subprocess of `call_tbs`. -/
def frostTbs (text : Bytes) : Invocation := ⟨[coreBin, ascii "tbs"], text⟩

def callTbs (o : SignOptions) (serial va vb : Nat) : TbsResult :=
  match (tbsRequest o serial va vb).bind fun b => core (frostTbs b.text) with
  | none => .noTemplate
  | some c => readTbs c

/-- The key `prepare_tbs` patches in. -/
def callPubkey (pkg : Bytes) : Option Key :=
  (core ⟨[coreBin, ascii "pubkey"], hexFile pkg⟩).bind fun c => readCaKey c.text

/-- What `roast_try_form_session` gets. -/
def callAssemble (b : CommitBundle) : Option Bytes :=
  let r := frostAssembleSigningPackage core b ⟨[], 0⟩
  if r.1 = 0 then some (r.2.buf.take r.2.len) else none

/-- `roast_try_aggregate` from its line on. -/
def readAggregate (c : Child) : AggregateResult :=
  let line := (fgets 256 c.text).map fun r => cstr r.1
  let first := line.getD []
  let culprit := (ascii "CULPRIT:").isPrefixOf first
  if line.isSome ∧ c.status = 0 ∧ culprit = false then
    let r := hexToBytes (cutEnd first) 64
    if r.1 < 0 then .failed else .sig r.2
  else if culprit then .culprit (atoiU16 ((cutEnd first).drop 8)) else .failed

def callAggregate (a : AggregateInput) : AggregateResult :=
  ((core (frostAggregate a)).map readAggregate).getD .notRun

/-- The subprocess of `call_mint`, of a request that fits. -/
def frostMint (m : MintInput) : Invocation := ⟨[coreBin, ascii "mint"], (mintRequest m).text⟩

/-- The certificate `call_mint` writes, if the file can be written. -/
def callMint (writable : Bool) (m : MintInput) : Option Bytes :=
  (core (frostMint m)).bind fun c => (fgets maxPayload c.text).bind fun r =>
    if c.status = 0 ∧ writable = true then some (cutEnd r.1) else none

/-! ## Lines that are cut -/

variable {core} {bs line rest r : Bytes}

theorem takeLine_cut {n : Nat} {l : Bytes} (h : 10 ∉ l) (hn : n ≤ l.length) (r : Bytes) :
    takeLine n (l ++ r) = (l.take n, l.drop n ++ r) := by
  induction n generalizing l with
  | zero => rfl
  | succ n ih =>
    cases l with
    | nil => simp at hn
    | cons b l =>
      have hb : b ≠ 10 := fun e => h (e ▸ List.mem_cons_self ..)
      rw [List.cons_append, takeLine, if_neg hb,
        ih (fun hm => h (List.mem_cons_of_mem _ hm)) (Nat.le_of_succ_le_succ hn)]
      rfl

/-- A line is read whole, or as far as the buffer goes. -/
theorem fgets_println {size : Nat} {l : Bytes} (h : 10 ∉ l)
    (hg : fgets size (println l ++ r) = some (line, rest)) :
    line = l ++ [10] ∧ rest = r ∧ l.length + 1 < size ∨
      line = l.take (size - 1) ∧ size - 1 ≤ l.length := by
  have htext : println l ++ r = l ++ 10 :: r := by
    unfold println
    rw [List.append_assoc]
    rfl
  rw [htext] at hg
  by_cases hfit : l.length + 1 < size
  · rw [fgets_line h hfit] at hg
    cases hg
    exact .inl ⟨rfl, rfl, hfit⟩
  · have hcut : size - 1 ≤ l.length := by omega
    unfold fgets at hg
    rw [if_neg (by simp), takeLine_cut h hcut] at hg
    cases hg
    exact .inr ⟨rfl, hcut⟩

theorem cutEnd_plain {l : Bytes} (h : ∀ b ∈ l, b ≠ 0 ∧ b ≠ 10 ∧ b ≠ 13) : cutEnd l = l := by
  unfold cutEnd
  rw [cstr_eq_self fun h0 => (h 0 h0).1 rfl]
  refine List.takeWhile_eq_self_iff.mpr fun b hb => ?_
  simp [(h b hb).2]

/-- **A line of text** comes back if the buffer is not full. -/
theorem fgets_text {size : Nat} {l : Bytes} (h : ∀ b ∈ l, b ≠ 0 ∧ b ≠ 10 ∧ b ≠ 13)
    (hg : fgets size (println l ++ r) = some (line, rest))
    (hfit : (cutEnd line).length + 1 < size) : cutEnd line = l := by
  rcases fgets_println (fun hm => (h 10 hm).2.1 rfl) hg with ⟨rfl, -, -⟩ | ⟨rfl, hcut⟩
  · exact cutEnd_line h
  · rw [cutEnd_plain fun b hb => h b (List.mem_of_mem_take hb), List.length_take] at hfit
    omega

/-! ## Hex -/

theorem bytesToHex_digits {c : UInt8} (h : c ∈ bytesToHex bs) :
    (hexVal c).isSome = true ∧ (c ≠ 0 ∧ c ≠ 10 ∧ c ≠ 13) ∧ c ≠ 32 := by
  have hall : ∀ d : Fin 16, (hexVal (hexDigit d)).isSome = true ∧
      (hexDigit d ≠ 0 ∧ hexDigit d ≠ 10 ∧ hexDigit d ≠ 13) ∧ hexDigit d ≠ 32 := by decide
  obtain ⟨b, -, hb⟩ := List.mem_flatMap.mp h
  have hlt := b.toNat_lt
  rcases List.mem_cons.mp hb with rfl | hb
  · exact hall ⟨b.toNat / 16, by omega⟩
  · rw [List.mem_singleton.mp hb]
    exact hall ⟨b.toNat % 16, by omega⟩

theorem scanPairs_bytesToHex (bs : Bytes) : (scanPairs (bytesToHex bs)).1 = bs := by
  have hall : ∀ n : Fin 256, scanPair (hexDigit (n / 16)) (hexDigit (n % 16)) =
      some (UInt8.ofNat n) := by decide +kernel
  induction bs with
  | nil => rfl
  | cons b bs ih =>
    have hb : scanPair (hexDigit (b.toNat / 16)) (hexDigit (b.toNat % 16)) = some b := by
      have := hall ⟨b.toNat, b.toNat_lt⟩
      rwa [UInt8.ofNat_toNat] at this
    rw [bytesToHex_cons, scanPairs, hb]
    dsimp only
    rw [ih]

theorem stripTail_plain {u : Bytes} (h : ∀ b ∈ u, b ≠ 10 ∧ b ≠ 13 ∧ b ≠ 32) :
    stripTail u = u := by
  have hhead : u.reverse.dropWhile (fun b => b = 10 || b = 13 || b = 32) = u.reverse := by
    cases e : u.reverse with
    | nil => rfl
    | cons b l =>
      have hb := h b (List.mem_reverse.mp (e ▸ List.mem_cons_self ..))
      simp [hb]
  unfold stripTail
  rw [hhead, List.reverse_reverse]

/-- What `hex_to_bytes` makes of a whole line. -/
theorem hexToBytes_bytesToHex {max : Nat} (bs : Bytes)
    (hok : 0 ≤ (hexToBytes (bytesToHex bs) max).1) :
    (hexToBytes (bytesToHex bs) max).2 = bs := by
  have hsame : stripTail (cstr (bytesToHex bs)) = bytesToHex bs := by
    rw [cstr_eq_self fun h0 => (bytesToHex_digits h0).2.1.1 rfl]
    refine stripTail_plain fun b hb => ?_
    obtain ⟨-, ⟨-, h10, h13⟩, h32⟩ := bytesToHex_digits hb
    exact ⟨h10, h13, h32⟩
  unfold hexToBytes at hok ⊢
  dsimp only at hok ⊢
  rw [hsame] at hok ⊢
  split at hok
  · simp at hok
  next heven =>
  split at hok
  · simp at hok
  next hsize =>
  rw [if_neg heven, if_neg hsize]
  split <;> exact scanPairs_bytesToHex bs

/-- What it makes of a line that was cut at an odd place. -/
theorem hexToBytes_odd {max n : Nat} (hn : n ≤ (bytesToHex bs).length) (hodd : n % 2 = 1) :
    (hexToBytes ((bytesToHex bs).take n) max).1 = -1 := by
  have hdig {b : UInt8} (hb : b ∈ (bytesToHex bs).take n) :=
    bytesToHex_digits (List.mem_of_mem_take hb)
  have hsame : stripTail (cstr ((bytesToHex bs).take n)) = (bytesToHex bs).take n := by
    rw [cstr_eq_self fun h0 => (hdig h0).2.1.1 rfl]
    exact stripTail_plain fun b hb => ⟨(hdig hb).2.1.2.1, (hdig hb).2.1.2.2, (hdig hb).2.2⟩
  unfold hexToBytes
  dsimp only
  rw [hsame, if_pos]
  rw [List.length_take]
  omega

/-- **A line of hex** is decoded to what was printed, or refused. -/
theorem fgets_hex {size max : Nat} (hsize : size % 2 = 0) (hpos : 0 < size)
    (hg : fgets size (println (bytesToHex bs) ++ r) = some (line, rest))
    (hok : 0 ≤ (hexToBytes (cutEnd line) max).1) :
    rest = r ∧ cutEnd line = bytesToHex bs ∧ (hexToBytes (cutEnd line) max).2 = bs := by
  have hplain : ∀ b ∈ bytesToHex bs, b ≠ 0 ∧ b ≠ 10 ∧ b ≠ 13 :=
    fun b hb => (bytesToHex_digits hb).2.1
  rcases fgets_println (bytesToHex_unbroken bs) hg with ⟨rfl, rfl, -⟩ | ⟨rfl, hcut⟩
  · rw [cutEnd_line hplain] at hok ⊢
    exact ⟨rfl, rfl, hexToBytes_bytesToHex bs hok⟩
  · rw [cutEnd_plain fun b hb => hplain b (List.mem_of_mem_take hb),
      hexToBytes_odd hcut (by omega)] at hok
    simp at hok

end FrostSshCa.Issue
