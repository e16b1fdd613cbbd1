import FrostSshCa.Core.Signing
import FrostSshCa.Core.Protocol
import FrostSshCa.Core.Requests
import Mathlib.Data.List.Perm.Subperm

/-!
# Requests read back

What the core makes of the text of a signing request: the blobs and the map of `assemble` and
`aggregate`, as far as they read as many entries as there are, and lines of other text.
-/

namespace FrostSshCa.Core

open Lib

/-- All that was to be printed is in the buffer, so the subprocess gets it and nothing more. -/
def TextBuf.Whole (b : TextBuf) : Prop := b.off = b.text.length

variable {F : SigningFrost} {P : Type} {deserialize : Bytes → Option P} {l : List (Nat × Bytes)}
  {p : Nat × Bytes}

/-! ## Entries -/

/-- Packages of distinct signers. -/
structure Entries (l : List (Nat × Bytes)) : Prop where
  count : l.length ≤ maxSigners
  distinct : (l.map Prod.fst).Nodup
  ids : ∀ p ∈ l, 1 ≤ p.1 ∧ p.1 ≤ maxSigners
  sizes : ∀ p ∈ l, Blob p.2

/-- They are peers of nobody. -/
theorem Entries.ofPeers (h : Entries l) : OfPeers 0 (l.length + 1) l where
  count := rfl
  distinct := h.distinct
  ids := fun p hp => ⟨(h.ids p hp).1, (h.ids p hp).2, by have := (h.ids p hp).1; omega⟩
  sizes := h.sizes

theorem Entries.sublist {l' : List (Nat × Bytes)} (h : Entries l) (hs : l'.Sublist l) :
    Entries l' where
  count := hs.length_le.trans h.count
  distinct := h.distinct.sublist (hs.map Prod.fst)
  ids := fun p hp => h.ids p (hs.subset hp)
  sizes := fun p hp => h.sizes p (hs.subset hp)

theorem commitEntry_eq (h : Entry p) :
    commitEntry F (decimal p.1 ++ 32 :: bytesToHex p.2) = F.entry F.commitments p := by
  unfold commitEntry
  rw [peerLine_cut, parseU16_decimal h.id]
  simp only [Option.bind_some, fromHex_bytesToHex]
  rfl

/-- A loop that goes on after the last line fails. -/
theorem readPeers_short {F : Frost} {peer : Bytes → Option (F.Ident × P)} (hnil : peer [] = none)
    {k : Nat} {ls : List Bytes} (h : ls.length < k) (m : Packages F P) :
      readPeers peer k m ls = none := by
  induction k generalizing ls m with
  | zero => omega
  | succ k ih =>
    unfold readPeers
    cases ls with
    | nil =>
      show (peer []).bind _ = none
      rw [hnil]
      rfl
    | cons l ls =>
      cases hp : peer (readLine (l :: ls)).1 with
      | none => rfl
      | some e => exact ih (Nat.lt_of_succ_lt_succ h) _

/-- A loop over `k` lines reads the map of the first `k` entries. -/
theorem readPeers_front {F : Frost} {deserialize : Bytes → Option P} (hF : F.Lawful) (h : Entries l)
    {peer : Bytes → Option (F.Ident × P)}
    (hpeer : ∀ p, Entry p → peer (decimal p.1 ++ 32 :: bytesToHex p.2) = F.entry deserialize p)
    {k : Nat} (hk : k ≤ l.length) {m : Packages F P} {rest : List Bytes} :
    readPeers peer k (fun _ => none) (peerLines l) = some (m, rest) ↔
      F.Collects deserialize (l.take k) m ∧ peerLines (l.drop k) = rest := by
  have hsplit : peerLines l = peerLines (l.take k) ++ peerLines (l.drop k) := by
    unfold peerLines
    rw [← List.map_append, List.take_append_drop]
  have hlen : (l.take k).length + 1 - 1 = k := by
    rw [List.length_take]
    omega
  have hpeers := (h.sublist (List.take_sublist k l)).ofPeers
  rw [hsplit, ← readPeers_iff hF hpeers hpeer, hlen]

theorem readPeers_all {F : Frost} {deserialize : Bytes → Option P} (hF : F.Lawful) (h : Entries l)
    {peer : Bytes → Option (F.Ident × P)}
    (hpeer : ∀ p, Entry p → peer (decimal p.1 ++ 32 :: bytesToHex p.2) = F.entry deserialize p)
    {m : Packages F P} {rest : List Bytes} :
    readPeers peer l.length (fun _ => none) (peerLines l) = some (m, rest) ↔
      F.Collects deserialize l m ∧ [] = rest := by
  have hfront : readPeers peer l.length (fun _ => none) (peerLines l) = some (m, rest) ↔
      F.Collects deserialize (l.take l.length) m ∧ peerLines (l.drop l.length) = rest :=
    readPeers_front hF h hpeer (Nat.le_refl l.length)
  rwa [List.take_length, List.drop_length] at hfront

/-! ## Their text -/

theorem fillText_whole {size : Nat} {lines : List Bytes} (h : lines.flatten.length < size) :
    (fillText size lines).Whole := by
  rw [fillText_eq h]
  rfl

/-- A request printed in one call is whole if it fits with its NUL. -/
theorem fillText_one_whole {size : Nat} (hs : 0 < size) (text : Bytes) :
    (fillText size [text]).Whole ↔ text.length < size := by
  show 0 + text.length = ([] ++ text.take (size - 0 - 1)).length ↔ _
  rw [List.nil_append, List.length_take]
  omega

theorem entryLines_flatten (l : List (Nat × Bytes)) :
    (l.map fun p => entryLine p.1 p.2).flatten = unlines 10 (peerLines l) := by
  induction l with
  | nil => rfl
  | cons p l ih =>
    have hcons : peerLines (p :: l) = (decimal p.1 ++ 32 :: bytesToHex p.2) :: peerLines l := rfl
    rw [List.map_cons, List.flatten_cons, ih, hcons, unlines_cons]
    unfold entryLine
    simp only [List.append_assoc, List.cons_append, List.nil_append]

theorem length_entryLines {k : Nat} (h : ∀ p ∈ l, p.2.length ≤ k) :
    (l.map fun p => entryLine p.1 p.2).flatten.length ≤ l.length * (2 * k + 7) := by
  induction l with
  | nil => exact Nat.le_of_eq (Nat.zero_mul _).symm
  | cons p l ih =>
    have hp := h p (List.mem_cons_self ..)
    have hl := ih fun q hq => h q (List.mem_cons_of_mem _ hq)
    have hentry : (entryLine p.1 p.2).length ≤ 2 * k + 7 := by
      have := decimal_length p.1
      unfold entryLine
      simp only [List.length_append, List.length_cons, List.length_nil, length_bytesToHex]
      omega
    rw [List.map_cons, List.flatten_cons, List.length_append, List.length_cons, Nat.add_mul]
    omega

/-! ## `assemble` -/

theorem readLine_decimal (n : Nat) (rest : List Bytes) :
    readLine (decimal n :: rest) = (decimal n, rest) ∧ trim (decimal n) = decimal n := by
  have htrim : trim (decimal n) = decimal n :=
    trim_eq_self (fun c hc => decimal_plain (List.mem_of_mem_head? hc))
      fun c hc => decimal_plain (List.mem_of_getLast? hc)
  refine ⟨?_, htrim⟩
  show (trim (decimal n), rest) = _
  rw [htrim]

/-- **`assemble`** reads the message and the map of its entries. -/
theorem cmdAssemble_iff (hF : F.Lawful) (h : Entries l) {msg : Bytes} (hmsg : Blob msg)
    (call : SigningCall F) :
    cmdAssemble F (bytesToHex msg :: decimal l.length :: peerLines l) = some call ↔
      ∃ m, F.Collects F.commitments l m ∧ call = .assemble m msg := by
  have hloop {m : Packages F.toFrost F.Commitments} {rest : List Bytes} :
      readPeers (commitEntry F) l.length (fun _ => none) (peerLines l) = some (m, rest) ↔
        F.Collects F.commitments l m ∧ [] = rest :=
    readPeers_all hF h fun p hp => commitEntry_eq hp
  unfold cmdAssemble
  rw [readHexBlob_line hmsg, Option.bind_some]
  dsimp only
  have hcount := h.count
  unfold maxSigners at hcount
  rw [(readLine_decimal _ _).1, (readLine_decimal _ []).2, parseU16_decimal (by omega),
    Option.bind_some, Option.map_eq_some_iff]
  constructor
  · rintro ⟨⟨m, rest⟩, hm, rfl⟩
    exact ⟨m, (hloop.mp hm).1, rfl⟩
  · rintro ⟨m, hm, rfl⟩
    exact ⟨(m, []), hloop.mpr ⟨hm, rfl⟩, rfl⟩

/-- Its input, as the coordinator writes it. -/
theorem assemble_read (hF : F.Lawful) (h : Entries l) {msg : Bytes} (hmsg : Blob msg)
    (call : SigningCall F) :
    signingMain F ⟨[coreBin, ascii "assemble"],
        unlines 10 (bytesToHex msg :: decimal l.length :: peerLines l)⟩ = some call ↔
      ∃ m, F.Collects F.commitments l m ∧ call = .assemble m msg := by
  have hlines : splitLines 10 (unlines 10 (bytesToHex msg :: decimal l.length :: peerLines l)) =
      bytesToHex msg :: decimal l.length :: peerLines l := by
    refine input_eq (List.forall_mem_cons.mpr ⟨fun hd => ?_, peerLines_unbroken l⟩)
    exact absurd (decimal_plain hd) (by decide)
  rw [← cmdAssemble_iff hF h hmsg call]
  unfold signingMain
  rw [hlines]
  exact Iff.rfl

/-! ## `aggregate` -/

/-- **`aggregate`** reads both packages and the map of the first `t` shares. -/
theorem cmdAggregate_iff (hF : F.Lawful) (h : Entries l) {t : Nat} (ht : t ≤ l.length)
    {spkg pub : Bytes} (call : SigningCall F) :
    cmdAggregate F t (bytesToHex spkg :: bytesToHex pub :: peerLines l) = some call ↔
      ∃ pkg m key, F.signingPkg spkg = some pkg ∧ F.Collects F.sigShare (l.take t) m ∧
        F.pubKeyPkg pub = some key ∧ call = .aggregate pkg m key := by
  have hloop {m : Packages F.toFrost F.SigShare} {rest : List Bytes} :
      readPeers (refreshPeer F.toFrost F.sigShare) t (fun _ => none) (peerLines l) =
        some (m, rest) ↔
        F.Collects F.sigShare (l.take t) m ∧ peerLines (l.drop t) = rest :=
    readPeers_front hF h (fun p hp => refreshPeer_eq hp) ht
  unfold cmdAggregate
  rw [readTrimmed_line, Option.bind_some]
  dsimp only
  constructor
  · intro e
    obtain ⟨pkg, hpkg, e⟩ := Option.bind_eq_some_iff.mp e
    rw [readTrimmed_line, Option.bind_some] at e
    obtain ⟨key, hkey, e⟩ := Option.bind_eq_some_iff.mp e
    obtain ⟨⟨m, rest⟩, hm, e⟩ := Option.map_eq_some_iff.mp e
    exact ⟨pkg, m, key, hpkg, (hloop.mp hm).1, hkey, e.symm⟩
  · rintro ⟨pkg, m, key, hpkg, hm, hkey, rfl⟩
    rw [hpkg, Option.bind_some, readTrimmed_line, Option.bind_some]
    dsimp only
    rw [hkey, Option.bind_some, hloop.mpr ⟨hm, rfl⟩]
    rfl

/-- Its input, as the coordinator writes it. -/
theorem signingMain_aggregate {t : Nat} (ht : t < 65536) {spkg pub : Bytes} :
    signingMain F ⟨[coreBin, ascii "aggregate", ascii "--t", decimal t],
        unlines 10 (bytesToHex spkg :: bytesToHex pub :: peerLines l)⟩ =
      cmdAggregate F t (bytesToHex spkg :: bytesToHex pub :: peerLines l) := by
  have hlines : splitLines 10 (unlines 10 (bytesToHex spkg :: bytesToHex pub :: peerLines l)) =
      bytesToHex spkg :: bytesToHex pub :: peerLines l :=
    input_eq (List.forall_mem_cons.mpr ⟨bytesToHex_unbroken pub, peerLines_unbroken l⟩)
  have hflag : requireU16 [coreBin, ascii "aggregate", ascii "--t", decimal t] (ascii "--t") =
      some t := by
    rw [requireU16_next (by decide), requireU16_next (by decide), requireU16_first ht]
  show (requireU16 _ (ascii "--t")).bind _ = _
  rw [hflag, hlines]
  rfl

/-- It fails if there are fewer. -/
theorem cmdAggregate_short {t : Nat} (ht : l.length < t) {spkg pub : Bytes} :
    cmdAggregate F t (bytesToHex spkg :: bytesToHex pub :: peerLines l) = none := by
  unfold cmdAggregate
  rw [readTrimmed_line, Option.bind_some]
  dsimp only
  cases F.signingPkg spkg with
  | none => rfl
  | some pkg =>
    rw [Option.bind_some, readTrimmed_line, Option.bind_some]
    dsimp only
    cases F.pubKeyPkg pub with
    | none => rfl
    | some key =>
      have hlen : (peerLines l).length < t := by
        unfold peerLines
        rwa [List.length_map]
      rw [Option.bind_some, readPeers_short rfl hlen]
      rfl

/-- A buffer that is printed line after line, cut or not, has no more lines than were
printed. -/
theorem length_fillText_lines (size : Nat) {ls : List Bytes}
    (h : ∀ l ∈ ls, ∃ l', 10 ∉ l' ∧ l = l' ++ [10]) :
    (splitLines 10 (fillText size ls).text).length ≤ ls.length := by
  have hfold (b : TextBuf) : (splitLines 10 (ls.foldl (TextBuf.print size) b).text).length ≤
      (splitLines 10 b.text).length + ls.length := by
    induction ls generalizing b with
    | nil => exact Nat.le_refl _
    | cons l ls ih =>
      obtain ⟨⟨l', hl', rfl⟩, hls⟩ := List.forall_mem_cons.mp h
      have h1 := ih hls (b.print size (l' ++ [10]))
      have h2 : (splitLines 10 (b.text ++ snprintf (size - b.off) (l' ++ [10]))).length ≤
          (splitLines 10 b.text).length +
            (splitLines 10 (snprintf (size - b.off) (l' ++ [10]))).length :=
        length_splitLines_append _ _
      have h3 : (splitLines 10 (snprintf (size - b.off) (l' ++ [10]))).length ≤ 1 :=
        length_splitLines_take hl' _
      rw [List.foldl_cons, List.length_cons]
      unfold TextBuf.print at h1 ⊢
      dsimp only at h1 ⊢
      omega
  have := hfold ⟨[], 0⟩
  rwa [show (splitLines 10 ([] : Bytes)).length = 0 from rfl, Nat.zero_add] at this

/-- **`aggregate` reads a line for each of the `t` shares**, whatever the text is. -/
theorem cmdAggregate_lines {t : Nat} {input : List Bytes} {call : SigningCall F}
    (h : cmdAggregate F t input = some call) : t ≤ input.length - 2 := by
  unfold cmdAggregate at h
  have hrest {input : List Bytes} {bs : Bytes} {rest : List Bytes}
      (h : readTrimmed input = some (bs, rest)) : rest = input.tail := by
    obtain ⟨_, -, e⟩ := Option.map_eq_some_iff.mp h
    cases e
    cases input <;> rfl
  obtain ⟨⟨blob, rest⟩, hr, h⟩ := Option.bind_eq_some_iff.mp h
  obtain ⟨pkg, -, h⟩ := Option.bind_eq_some_iff.mp h
  obtain ⟨⟨blob', rest'⟩, hr', h⟩ := Option.bind_eq_some_iff.mp h
  obtain ⟨pub, -, h⟩ := Option.bind_eq_some_iff.mp h
  obtain ⟨⟨m, last⟩, hm, -⟩ := Option.map_eq_some_iff.mp h
  by_contra hlt
  have hlen : rest'.length < t := by
    rw [hrest hr', hrest hr, List.length_tail, List.length_tail]
    omega
  rw [readPeers_short rfl hlen] at hm
  cases hm

/-! ## Lines of other text -/

/-- Text that comes back from a line of it: UTF-8 without a line break or white space at its ends. -/
def LineText (bs : Bytes) : Prop := ∃ s, utf8 s = bs ∧ '\n' ∉ s ∧ Trimmed s

variable {bs : Bytes} {s : List Char} {input rest : List Bytes}

theorem newline_mem_utf8 : 10 ∈ utf8 s ↔ '\n' ∈ s := by
  constructor
  · intro h
    obtain ⟨c, hc, hlow, e⟩ := mem_utf8_low h (by decide)
    have hnl : c = '\n' := by
      have hn : c.toNat = 10 := by
        have := congrArg UInt8.toNat e
        rw [UInt8.toNat_ofNat'] at this
        have h10 : (10 : UInt8).toNat = 10 := rfl
        omega
      rw [← Char.ofNat_toNat c, hn]
    rwa [hnl] at hc
  · intro h
    exact List.mem_flatMap.mpr ⟨'\n', h, by decide⟩

theorem LineText.unbroken (h : LineText bs) : 10 ∉ bs := by
  obtain ⟨s, rfl, hnl, -⟩ := h
  exact fun hm => hnl (newline_mem_utf8.mp hm)

theorem readLineStr_line (h : Trimmed s) (rest : List Bytes) :
    readLineStr (utf8 s :: rest) = some (s, rest) := by
  show (utf8Decode (utf8 s)).map (fun s => (trimStr s, rest)) = _
  rw [utf8Decode_utf8, Option.map_some, h.trimStr]

/-- **What is read of a line** is such text. -/
theorem readLineStr_text (hl : ∀ l ∈ input, 10 ∉ l) (h : readLineStr input = some (s, rest)) :
    LineText (utf8 (trimStr s)) ∧ ∀ l ∈ rest, 10 ∉ l := by
  cases input with
  | nil =>
    cases h
    exact ⟨⟨[], rfl, List.not_mem_nil, trimStr_trimmed []⟩, List.forall_mem_nil _⟩
  | cons l ls =>
    obtain ⟨hline, hls⟩ := List.forall_mem_cons.mp hl
    obtain ⟨u, hu, e⟩ := Option.map_eq_some_iff.mp h
    cases e
    refine ⟨⟨_, rfl, fun hn => ?_, trimStr_trimmed _⟩, hls⟩
    rw [utf8Decode_eq_some.mp hu] at hline
    exact hline (newline_mem_utf8.mpr (mem_of_mem_trimStr (mem_of_mem_trimStr hn)))

/-! ### Numbers and hex -/

/-- ASCII without blanks around it is the text of a line. -/
theorem plain_text (h : ∀ b ∈ bs, b.toNat < 128) (ht : trim bs = bs) :
    ∃ s, utf8 s = bs ∧ Trimmed s ∧ ∀ c ∈ s, c.toNat < 128 := by
  have hchar : ∀ n : Fin 128, (Char.ofNat n).toNat = n := by decide
  have hascii : ∀ c ∈ bs.map fun b => Char.ofNat b.toNat, c.toNat < 128 := by
    intro c hc
    obtain ⟨b, hb, rfl⟩ := List.mem_map.mp hc
    rw [hchar ⟨b.toNat, h b hb⟩]
    exact h b hb
  have hbytes : utf8 (bs.map fun b => Char.ofNat b.toNat) = bs := by
    rw [utf8_ascii hascii, List.map_map]
    refine (List.map_congr_left fun b hb => ?_).trans (List.map_id bs)
    show UInt8.ofNat (Char.ofNat b.toNat).toNat = b
    rw [hchar ⟨b.toNat, h b hb⟩, UInt8.ofNat_toNat]
  refine ⟨_, hbytes, ?_, hascii⟩
  have hself : trimStr (bs.map fun b => Char.ofNat b.toNat) = bs.map fun b => Char.ofNat b.toNat := by
    refine utf8_inj ?_
    rw [← trim_utf8 hascii, hbytes, ht]
  rw [← hself]
  exact trimStr_trimmed _

theorem toHex_plain (bs : Bytes) : Trimmed (toHex bs) ∧ ∀ c ∈ toHex bs, c.toNat < 128 := by
  have hlow : ∀ b ∈ bytesToHex bs, b.toNat < 128 := by
    have hdigit : ∀ d : Fin 16, (hexDigit d).toNat < 128 := by decide
    intro b hb
    obtain ⟨x, -, hx⟩ := List.mem_flatMap.mp hb
    have h1 : x.toNat / 16 < 16 := by have := x.toNat_lt; omega
    have h2 : x.toNat % 16 < 16 := Nat.mod_lt _ (by decide)
    rcases List.mem_cons.mp hx with rfl | hx
    · exact hdigit ⟨_, h1⟩
    · rw [List.mem_singleton.mp hx]
      exact hdigit ⟨_, h2⟩
  obtain ⟨s, hs, ht, hc⟩ := plain_text hlow (trim_bytesToHex bs)
  rw [bytesToHex_eq] at hs
  rw [← utf8_inj hs]
  exact ⟨ht, hc⟩

/-- The line of a blob, and the blob again. -/
theorem readLineStr_hex (bs : Bytes) (rest : List Bytes) :
    readLineStr (bytesToHex bs :: rest) = some (toHex bs, rest) ∧
      (fromHexStr (trimStr (toHex bs))).toOption = some bs := by
  obtain ⟨ht, hc⟩ := toHex_plain bs
  constructor
  · rw [bytesToHex_eq]
    exact readLineStr_line ht rest
  · rw [ht.trimStr, (fromHexStr_ascii hc).1, ← bytesToHex_eq, fromHex_bytesToHex]

theorem toHex_inj {bs' : Bytes} (h : toHex bs = toHex bs') : bs = bs' := by
  have h1 := fromHex_bytesToHex bs
  rw [bytesToHex_eq, h, ← bytesToHex_eq, fromHex_bytesToHex] at h1
  exact (Option.some.inj h1).symm

/-! ### `%llu` -/

variable {k n : Nat}

theorem trim_decimalAux : trim (decimalAux k n) = decimalAux k n := by
  have hplain {c : UInt8} (hc : c ∈ decimalAux k n) : isSpace c = false := by
    obtain ⟨d, hd, rfl⟩ := decimalAux_digits k n c hc
    exact (digit_plain hd).1
  exact trim_eq_self (fun c hc => hplain (List.mem_of_mem_head? hc))
    fun c hc => hplain (List.mem_of_getLast? hc)

theorem decimalAux_unbroken : 10 ∉ decimalAux k n := by
  intro h
  obtain ⟨d, hd, e⟩ := decimalAux_digits k n 10 h
  have := (digit_plain hd).1
  rw [← e] at this
  cases this

theorem parseU64_decimal (hn : n < 2 ^ 64) : parseU64 (decimalAux 20 n) = some n := by
  obtain ⟨d, bs, hd, e⟩ := decimalAux_head (k := 19) (n := n)
  have hval : scanDigits 0 (decimalAux 20 n) = (n, []) := by
    have h := scanDigits_decimalAux [] (k := 20) (n := n) 0 (by omega)
    rw [List.append_nil, Nat.zero_mul, Nat.zero_add] at h
    exact h
  have hhead : (decimalAux 20 n).head? ≠ some 43 := by
    rw [e]
    exact fun h => (digit_plain hd).2.1 (Option.some.inj h)
  have hne : decimalAux 20 n ≠ [] := by
    rw [e]
    exact List.cons_ne_nil _ _
  unfold parseU64
  rw [if_neg hhead]
  dsimp only
  rw [hval, if_neg hne, if_pos ⟨rfl, hn⟩]

/-- A 64-bit number takes twenty digits at most. -/
theorem readU64_line (hn : n < 2 ^ 64) (rest : List Bytes) :
    readU64 (decimalAux 20 n :: rest) = some (n, rest) := by
  have hlow : ∀ b ∈ decimalAux 20 n, b.toNat < 128 := by
    intro b hb
    obtain ⟨d, hd, rfl⟩ := decimalAux_digits 20 n b hb
    unfold digit
    rw [UInt8.toNat_ofNat']
    omega
  obtain ⟨s, hs, ht, -⟩ := plain_text hlow trim_decimalAux
  unfold readU64
  rw [← hs, readLineStr_line ht, Option.bind_some]
  dsimp only
  rw [ht.trimStr, hs, parseU64_decimal hn]
  rfl

/-! ## `tbs`, `mint` -/

theorem readU64_rest {v : Nat} (hl : ∀ l ∈ input, 10 ∉ l) (h : readU64 input = some (v, rest)) :
    ∀ l ∈ rest, 10 ∉ l := by
  obtain ⟨⟨s, ls⟩, hs, h⟩ := Option.bind_eq_some_iff.mp h
  obtain ⟨w, -, e⟩ := Option.map_eq_some_iff.mp h
  cases e
  exact (readLineStr_text hl hs).2

theorem cmdTbs_lines {path principal : List Char} (hp : Trimmed path) (hq : Trimmed principal)
    {serial va vb : Nat} (hs : serial < 2 ^ 64) (ha : va < 2 ^ 64) (hb : vb < 2 ^ 64) :
    cmdTbs [utf8 path, decimalAux 20 serial, utf8 principal, decimalAux 20 va, decimalAux 20 vb] =
      some ⟨path, serial, principal, va, vb⟩ := by
  unfold cmdTbs
  rw [readLineStr_line hp, Option.bind_some]
  dsimp only
  rw [readU64_line hs, Option.bind_some]
  dsimp only
  rw [readLineStr_line hq, Option.bind_some]
  dsimp only
  rw [readU64_line ha, Option.bind_some]
  dsimp only
  rw [readU64_line hb, hp.trimStr, hq.trimStr]
  rfl

/-- Whatever it reads as path and principal would come back from lines of their own. -/
theorem cmdTbs_text {r : TbsInput} (hl : ∀ l ∈ input, 10 ∉ l) (h : cmdTbs input = some r) :
    LineText (utf8 r.path) ∧ LineText (utf8 r.principal) := by
  obtain ⟨⟨path, rest₁⟩, hpath, h⟩ := Option.bind_eq_some_iff.mp h
  obtain ⟨⟨serial, rest₂⟩, hserial, h⟩ := Option.bind_eq_some_iff.mp h
  obtain ⟨⟨principal, rest₃⟩, hprincipal, h⟩ := Option.bind_eq_some_iff.mp h
  obtain ⟨⟨va, rest₄⟩, -, h⟩ := Option.bind_eq_some_iff.mp h
  obtain ⟨⟨vb, rest₅⟩, -, e⟩ := Option.map_eq_some_iff.mp h
  cases e
  obtain ⟨h1, hrest⟩ := readLineStr_text hl hpath
  exact ⟨h1, (readLineStr_text (readU64_rest hrest hserial) hprincipal).1⟩

theorem cmdMint_lines {cert : List Char} (hc : Trimmed cert) {sig tbs pub : Bytes} :
    cmdMint [utf8 cert, bytesToHex sig, bytesToHex tbs, bytesToHex pub] =
      some ⟨cert, sig, toHex tbs, pub⟩ := by
  unfold cmdMint
  rw [readLineStr_line hc, Option.bind_some]
  dsimp only
  rw [(readLineStr_hex sig _).1, Option.bind_some]
  dsimp only
  rw [(readLineStr_hex tbs _).1, Option.bind_some]
  dsimp only
  rw [(readLineStr_hex pub _).1, Option.bind_some]
  dsimp only
  rw [(readLineStr_hex sig []).2, Option.bind_some, (readLineStr_hex pub []).2, hc.trimStr]
  rfl

/-- It reads line text as its template, and the text of the TBS. -/
theorem cmdMint_text {line sig tbs pub : Bytes} {r : MintRead} (hl : 10 ∉ line)
    (h : cmdMint [line, bytesToHex sig, bytesToHex tbs, bytesToHex pub] = some r) :
    LineText (utf8 r.cert) ∧ r.tbsHex = toHex tbs := by
  have hlines : ∀ l ∈ [line, bytesToHex sig, bytesToHex tbs, bytesToHex pub], 10 ∉ l := by
    simp only [List.forall_mem_cons, hl, bytesToHex_unbroken]
    exact ⟨not_false, not_false, not_false, not_false, List.forall_mem_nil _⟩
  obtain ⟨⟨cert, rest⟩, hcert, h⟩ := Option.bind_eq_some_iff.mp h
  have hrest : [bytesToHex sig, bytesToHex tbs, bytesToHex pub] = rest := by
    obtain ⟨s, -, e⟩ := Option.map_eq_some_iff.mp hcert
    exact (Prod.mk.inj e).2
  subst hrest
  dsimp only at h
  rw [(readLineStr_hex sig _).1, Option.bind_some] at h
  dsimp only at h
  rw [(readLineStr_hex tbs _).1, Option.bind_some] at h
  dsimp only at h
  rw [(readLineStr_hex pub _).1, Option.bind_some] at h
  dsimp only at h
  rw [(readLineStr_hex sig []).2, Option.bind_some, (readLineStr_hex pub []).2] at h
  cases h
  exact ⟨(readLineStr_text hlines hcert).1, rfl⟩

/-! ## A library of bytes -/

/-- A map holds the entries of no more lines than it was read from. -/
theorem Entries.length_le {F : Frost} {P : Type} {deserialize : Bytes → Option P} (hF : F.Lawful)
    (h : Entries l) {l' : List (Nat × Bytes)} {m : Packages F P} (hm : F.Collects deserialize l m)
    (hm' : F.Collects deserialize l' m) : l.length ≤ l'.length := by
  have hsub : l.map Prod.fst ⊆ l'.map Prod.fst := by
    intro id hid
    obtain ⟨q, hq, rfl⟩ := List.mem_map.mp hid
    obtain ⟨h1, h2⟩ := h.ids q hq
    unfold maxSigners at h2
    obtain ⟨i, hi⟩ := Option.isSome_iff_exists.mp (hF.defined q.1 (by omega) (by omega))
    obtain ⟨p, hp⟩ := Option.isSome_iff_exists.mp (hm.decoded q hq)
    obtain ⟨q', hq', hi', -⟩ := (hm'.entries i p).mp ((hm.entries i p).mpr ⟨q, hq, hi, hp⟩)
    rw [hF.injective _ _ _ hi hi']
    exact List.mem_map_of_mem hq'
  have hlen := (List.subperm_of_subset h.distinct hsub).length_le
  rwa [List.length_map, List.length_map] at hlen

/-- Packages are their bytes. -/
def plainSigning : SigningFrost where
  toFrost := plainFrost
  Commitments := Bytes
  SigningPkg := Bytes
  SigShare := Bytes
  commitments := some
  signingPkg := some
  sigShare := some

theorem plainSigning_collects (h : Entries l) :
    ∃ m : Packages plainFrost Bytes, plainFrost.Collects some l m := by
  have hall : ∀ p ∈ l, (plainFrost.entry some p).isSome := by
    intro p hp
    obtain ⟨h1, h2⟩ := h.ids p hp
    unfold maxSigners at h2
    obtain ⟨i, hi⟩ := Option.isSome_iff_exists.mp
      (plainFrost_lawful.defined p.1 (by omega) (by omega))
    unfold Frost.entry
    rw [hi]
    rfl
  have hgather : gather (F := plainFrost) some (fun _ => none) l = some _ :=
    (gather_eq (F := plainFrost) (P := Bytes) _ l).trans (if_pos hall)
  exact ⟨_, (gather_iff plainFrost_lawful h.ofPeers _).mp hgather⟩

end FrostSshCa.Core
