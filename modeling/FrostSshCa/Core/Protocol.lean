import FrostSshCa.Core.Main

/-!
# The text protocol

What the stubs write is what the core reads. A line is brought back to its sender and its
package, a run of lines to the map of its entries, and each of the four calls to the blobs
it was made of. The order of the lines within a table does not matter: the senders are
distinct, so the map is the same.
-/

namespace FrostSshCa.Core

open Lib

/-- What the code relies on: `Identifier::try_from` fails on 0 only, and two numbers have
two identifiers. -/
structure Frost.Lawful (F : Frost) : Prop where
  defined : ∀ id, 0 < id → id < 65536 → (F.identifier id).isSome
  injective : ∀ a b i, F.identifier a = some i → F.identifier b = some i → a = b

/-- A package of 1 to `FROST_MAX_PAYLOAD` bytes. -/
def Blob (b : Bytes) : Prop := 1 ≤ b.length ∧ b.length ≤ maxPayload

/-- Packages of `n - 1` distinct peers of signer `me`. -/
structure OfPeers (me n : Nat) (l : List (Nat × Bytes)) : Prop where
  count : l.length + 1 = n
  distinct : (l.map Prod.fst).Nodup
  ids : ∀ p ∈ l, 1 ≤ p.1 ∧ p.1 ≤ maxSigners ∧ p.1 ≠ me
  sizes : ∀ p ∈ l, Blob p.2

/-- The map of exactly the entries of `l`, each package decoded. -/
structure Frost.Collects (F : Frost) {P : Type} (deserialize : Bytes → Option P)
    (l : List (Nat × Bytes)) (m : Packages F P) : Prop where
  decoded : ∀ q ∈ l, (deserialize q.2).isSome
  entries : ∀ i p, m i = some p ↔ ∃ q ∈ l, F.identifier q.1 = some i ∧ deserialize q.2 = some p

variable {F : Frost} {P : Type} {deserialize : Bytes → Option P} {me n : Nat}
  {l : List (Nat × Bytes)} {p : Nat × Bytes}

/-! ## Numbers -/

theorem decimalAux_digits (k n : Nat) : ∀ c ∈ decimalAux k n, ∃ d, d < 10 ∧ c = digit d := by
  induction k generalizing n with
  | zero => exact nofun
  | succ k ih =>
    unfold decimalAux
    split
    · next h => exact fun c hc => ⟨n, h, List.mem_singleton.mp hc⟩
    · intro c hc
      rcases List.mem_append.mp hc with hc | hc
      · exact ih _ c hc
      · exact ⟨n % 10, Nat.mod_lt _ (by omega), List.mem_singleton.mp hc⟩

theorem decimal_digits (n : Nat) : ∀ c ∈ decimal n, ∃ d, d < 10 ∧ c = digit d :=
    decimalAux_digits 5 n

/-- A printed number holds no blank and starts with a digit. -/
theorem decimal_plain {c : UInt8} (hc : c ∈ decimal n) : isSpace c = false := by
  obtain ⟨d, hd, rfl⟩ := decimal_digits n c hc
  exact (digit_plain hd).1

theorem decimal_cons (n : Nat) : ∃ d bs, d < 10 ∧ decimal n = digit d :: bs := decimalAux_head

theorem parseU16_decimal (hn : n < 65536) : parseU16 (decimal n) = some n := by
  obtain ⟨d, bs, hd, e⟩ := decimal_cons n
  have hval : scanDigits 0 (decimal n) = (n, []) := by
    have h := scanDigits_decimalAux [] (k := 5) (n := n) 0 (by omega)
    rw [List.append_nil, Nat.zero_mul, Nat.zero_add] at h
    exact h
  have hhead : (decimal n).head? ≠ some 43 := by
    rw [e]
    exact fun h => (digit_plain hd).2.1 (Option.some.inj h)
  have hne : decimal n ≠ [] := by
    rw [e]
    exact List.cons_ne_nil _ _
  unfold parseU16
  rw [if_neg hhead]
  dsimp only
  rw [if_neg hne, hval]
  exact if_pos hn

/-! ## Lines -/

/-- A line without blanks at its ends is read as it is. -/
theorem peerLine_trim (h : Entry p) :
    trim (decimal p.1 ++ 32 :: bytesToHex p.2) = decimal p.1 ++ 32 :: bytesToHex p.2 := by
  obtain ⟨d, bs, hd, e⟩ := decimal_cons p.1
  have hne : bytesToHex p.2 ≠ [] := by
    intro hnil
    have := congrArg List.length hnil
    rw [length_bytesToHex, List.length_nil] at this
    have := h.size.1
    omega
  refine trim_eq_self (fun b hb => ?_) fun b hb => ?_
  · rw [e] at hb
    cases hb
    exact (digit_plain hd).1
  · rw [List.getLast?_append, List.getLast?_cons,
      List.getLast?_eq_some_getLast hne] at hb
    cases hb
    exact bytesToHex_plain _ (List.getLast_mem hne)

theorem peerLine_cut (p : Nat × Bytes) :
    cutAt 32 (decimal p.1 ++ 32 :: bytesToHex p.2) = (decimal p.1, some (bytesToHex p.2)) := by
  refine cutAt_append (fun h => ?_) _
  have := decimal_plain h
  exact absurd this (by decide)

theorem peerLine_unbroken (p : Nat × Bytes) : 10 ∉ decimal p.1 ++ 32 :: bytesToHex p.2 := by
  intro h
  rcases List.mem_append.mp h with h | h
  · exact absurd (decimal_plain h) (by decide)
  · rcases List.mem_cons.mp h with h | h
    · exact absurd h (by decide)
    · exact absurd (bytesToHex_plain _ h) (by decide)

theorem bytesToHex_unbroken (b : Bytes) : 10 ∉ bytesToHex b := fun h =>
  absurd (bytesToHex_plain _ h) (by decide)

theorem trim_bytesToHex (b : Bytes) : trim (bytesToHex b) = bytesToHex b :=
  trim_eq_self (fun c hc => bytesToHex_plain c (List.mem_of_mem_head? hc))
    fun c hc => bytesToHex_plain c (List.mem_of_getLast? hc)

/-- A sender and its package, decoded. -/
def Frost.entry (F : Frost) (deserialize : Bytes → Option P) (p : Nat × Bytes) :
    Option (F.Ident × P) :=
  (deserialize p.2).bind fun pkg => (F.identifier p.1).map fun i => (i, pkg)

theorem dkgPeer_eq (h : Entry p) :
    dkgPeer F deserialize (decimal p.1 ++ 32 :: bytesToHex p.2) = F.entry deserialize p := by
  have hne : decimal p.1 ++ 32 :: bytesToHex p.2 ≠ [] := by simp
  unfold dkgPeer
  rw [if_neg hne, peerLine_cut, parseU16_decimal h.id]
  simp only [Option.bind_some, fromHex_bytesToHex]
  rfl

theorem refreshPeer_eq (h : Entry p) :
    refreshPeer F deserialize (decimal p.1 ++ 32 :: bytesToHex p.2) = F.entry deserialize p := by
  unfold refreshPeer Frost.entry
  dsimp only
  rw [peerLine_trim h, peerLine_cut, parseU16_decimal h.id]
  simp only [Option.bind_some, trim_bytesToHex, fromHex_bytesToHex]
  cases F.identifier p.1 with
  | none => cases deserialize p.2 <;> rfl
  | some i => cases deserialize p.2 <;> rfl

/-! ## Tables -/

/-- The lines of a table. -/
def peerLines (l : List (Nat × Bytes)) : List Bytes :=
  l.map fun p => decimal p.1 ++ 32 :: bytesToHex p.2

/-- The entries inserted one after the other. -/
def gather (deserialize : Bytes → Option P) :
    Packages F P → List (Nat × Bytes) → Option (Packages F P)
  | m, [] => some m
  | m, p :: l => (F.entry deserialize p).bind fun e => gather deserialize (addEntry m e) l

/-- A table is read by either loop that takes a given number of lines. -/
theorem readPeers_eq {peer : Bytes → Option (F.Ident × P)}
    (hpeer : ∀ p ∈ l, peer (decimal p.1 ++ 32 :: bytesToHex p.2) = F.entry deserialize p)
    (hl : ∀ p ∈ l, Entry p) (m : Packages F P) (rest : List Bytes) :
    readPeers peer l.length m (peerLines l ++ rest) =
      (gather deserialize m l).map fun m => (m, rest) := by
  induction l generalizing m with
  | nil => rfl
  | cons p l ih =>
    have hp := List.mem_cons_self (a := p) (l := l)
    rw [List.length_cons, peerLines, List.map_cons, List.cons_append]
    unfold readPeers gather readLine
    dsimp only
    rw [peerLine_trim (hl p hp), hpeer p hp, Option.map_bind]
    refine Option.bind_congr fun e _ => ?_
    exact ih (fun q hq => hpeer q (List.mem_cons_of_mem _ hq))
      (fun q hq => hl q (List.mem_cons_of_mem _ hq)) (addEntry m e)

/-- The loop of `refresh_part2` reads them to the end. -/
theorem readUntilBlank_eq {i : F.Ident} (hi : ∀ p ∈ l, F.identifier p.1 ≠ some i)
    (hl : ∀ p ∈ l, Entry p) (m : Packages F F.R1Pkg) :
    readUntilBlank i m (peerLines l) = gather F.r1Pkg m l := by
  induction l generalizing m with
  | nil => rfl
  | cons p l ih =>
    have hp := List.mem_cons_self (a := p) (l := l)
    have hne : decimal p.1 ++ 32 :: bytesToHex p.2 ≠ [] := by simp
    rw [peerLines, List.map_cons]
    unfold readUntilBlank gather Frost.entry
    dsimp only
    rw [peerLine_trim (hl p hp), peerLine_trim (hl p hp), if_neg hne, peerLine_cut,
      parseU16_decimal (hl p hp).id]
    simp only [Option.bind_some, if_neg (hi p hp), trim_bytesToHex, fromHex_bytesToHex]
    have hrest := ih (fun q hq => hi q (List.mem_cons_of_mem _ hq))
      (fun q hq => hl q (List.mem_cons_of_mem _ hq))
    cases F.identifier p.1 with
    | none => cases F.r1Pkg p.2 <;> rfl
    | some j =>
      cases F.r1Pkg p.2 with
      | none => rfl
      | some pkg => exact hrest (addEntry m (j, pkg))

theorem gather_eq (m : Packages F P) (l : List (Nat × Bytes)) : gather deserialize m l =
    if ∀ p ∈ l, (F.entry deserialize p).isSome then
      some ((l.filterMap (F.entry deserialize)).foldl addEntry m) else none := by
  induction l generalizing m with
  | nil => rw [if_pos (by simp)]; rfl
  | cons p l ih =>
    unfold gather
    cases e : F.entry deserialize p with
    | none =>
      rw [if_neg]
      · rfl
      · intro h
        have := h p (List.mem_cons_self ..)
        rw [e] at this
        cases this
    | some x =>
      rw [Option.bind_some, ih, List.filterMap_cons_some e, List.foldl_cons]
      refine if_congr ?_ rfl rfl
      rw [List.forall_mem_cons, e]
      exact ⟨fun h => ⟨rfl, h⟩, fun h => h.2⟩

theorem entry_eq_some {i : F.Ident} {x : P} : F.entry deserialize p = some (i, x) ↔
    F.identifier p.1 = some i ∧ deserialize p.2 = some x := by
  unfold Frost.entry
  cases F.identifier p.1 <;> cases deserialize p.2 <;> simp

/-- **A table is read into the map of its entries**, if every package can be decoded. -/
theorem gather_iff (hF : F.Lawful) (hl : OfPeers me n l) (m : Packages F P) :
    gather deserialize (fun _ => none) l = some m ↔ F.Collects deserialize l m := by
  have hid {q : Nat × Bytes} (hq : q ∈ l) : ∃ i, F.identifier q.1 = some i := by
    obtain ⟨h1, h2, -⟩ := hl.ids q hq
    unfold maxSigners at h2
    exact Option.isSome_iff_exists.mp (hF.defined q.1 (by omega) (by omega))
  have hsome : (∀ q ∈ l, (F.entry deserialize q).isSome) ↔ ∀ q ∈ l, (deserialize q.2).isSome := by
    refine forall₂_congr fun q hq => ?_
    obtain ⟨i, hi⟩ := hid hq
    unfold Frost.entry
    rw [hi]
    cases deserialize q.2 <;> simp
  have hkeys : ((l.filterMap (F.entry deserialize)).map Prod.fst).Nodup := by
    refine List.pairwise_map.mpr (List.Pairwise.filterMap _ ?_ (List.pairwise_map.mp hl.distinct))
    rintro a b hab ⟨i, x⟩ hx ⟨j, y⟩ hy rfl
    exact hab (hF.injective _ _ _ (entry_eq_some.mp hx).1 (entry_eq_some.mp hy).1)
  have hmap (i : F.Ident) (x : P) :
      (l.filterMap (F.entry deserialize)).foldl addEntry (fun _ => none) i = some x ↔
        ∃ q ∈ l, F.identifier q.1 = some i ∧ deserialize q.2 = some x := by
    rw [foldl_addEntry_eq_some hkeys (fun _ _ => rfl)]
    refine ⟨fun h => ?_, fun ⟨q, hq, hi, hx⟩ => ?_⟩
    · rcases h with h | h
      · cases h
      · obtain ⟨q, hq, e⟩ := List.mem_filterMap.mp h
        exact ⟨q, hq, entry_eq_some.mp e⟩
    · exact .inr (List.mem_filterMap.mpr ⟨q, hq, entry_eq_some.mpr ⟨hi, hx⟩⟩)
  rw [gather_eq]
  constructor
  · intro h
    split at h
    · next hd =>
      cases h
      exact ⟨hsome.mp hd, hmap⟩
    · cases h
  · intro h
    rw [if_pos (hsome.mpr h.decoded), Option.some.injEq]
    funext i
    refine Option.ext fun x => ?_
    exact (hmap i x).trans (h.entries i x).symm

/-! ## Blobs and flags -/

theorem readLine_hex (b : Bytes) (rest : List Bytes) :
    readLine (bytesToHex b :: rest) = (bytesToHex b, rest) := by
  show (trim (bytesToHex b), rest) = _
  rw [trim_bytesToHex]

theorem readHexBlob_line {b : Bytes} (h : Blob b) (rest : List Bytes) :
    readHexBlob (bytesToHex b :: rest) = some (b, rest) := by
  have hne : (readLine (bytesToHex b :: rest)).1 ≠ [] := by
    rw [readLine_hex]
    intro hnil
    have hlen := congrArg List.length hnil
    rw [length_bytesToHex, List.length_nil] at hlen
    have := h.1
    omega
  unfold readHexBlob
  rw [if_neg hne, readLine_hex, fromHex_bytesToHex]
  rfl

theorem readTrimmed_line (b : Bytes) (rest : List Bytes) :
    readTrimmed (bytesToHex b :: rest) = some (b, rest) := by
  unfold readTrimmed
  rw [readLine_hex, trim_bytesToHex, fromHex_bytesToHex]
  rfl

/-- A number is no flag. -/
theorem decimal_ne_flag (n : Nat) (flag : Bytes) : decimal n ≠ 45 :: flag := by
  obtain ⟨d, bs, hd, e⟩ := decimal_cons n
  rw [e]
  exact fun h => (digit_plain hd).2.2 (List.cons.inj h).1

theorem requireU16_first {args : List Bytes} {flag : Bytes} (hn : n < 65536) :
    requireU16 (flag :: decimal n :: args) flag = some n := by
  unfold requireU16 getFlag
  rw [if_pos rfl]
  exact parseU16_decimal hn

theorem requireU16_next {a b : Bytes} {args : List Bytes} {flag : Bytes} (h : a ≠ flag) :
    requireU16 (a :: b :: args) flag = requireU16 (b :: args) flag := by
  unfold requireU16
  rw [getFlag, if_neg h]

/-- The flags of the four command lines. -/
theorem requireU16_id {cmd : Bytes} {args : List Bytes} (hcmd : cmd ≠ ascii "--id")
    (hme : me < 65536) :
    requireU16 (coreBin :: cmd :: ascii "--id" :: decimal me :: args) (ascii "--id") = some me := by
  rw [requireU16_next (by decide), requireU16_next hcmd, requireU16_first hme]

theorem requireU16_n {cmd : Bytes} {args : List Bytes} (hcmd : cmd ≠ ascii "--n")
    (hn : n < 65536) :
    requireU16 (coreBin :: cmd :: ascii "--n" :: decimal n :: args) (ascii "--n") = some n := by
  rw [requireU16_next (by decide), requireU16_next hcmd, requireU16_first hn]

theorem requireU16_idN {cmd : Bytes} {args : List Bytes} (hcmd : cmd ≠ ascii "--n")
    (hn : n < 65536) :
    requireU16 (coreBin :: cmd :: ascii "--id" :: decimal me :: ascii "--n" :: decimal n :: args)
      (ascii "--n") = some n := by
  rw [requireU16_next (by decide), requireU16_next hcmd, requireU16_next (by decide),
    requireU16_next (show decimal me ≠ ascii "--n" from decimal_ne_flag me (ascii "-n")),
    requireU16_first hn]

/-! ## The four calls -/

/-- Everything the stubs are called with. -/
structure Inputs (me n : Nat) (secret key pub : Bytes) (r1 r2 : List (Nat × Bytes)) : Prop where
  nRange : 2 ≤ n ∧ n ≤ maxSigners
  meRange : 1 ≤ me ∧ me ≤ maxSigners
  secret : Blob secret
  key : Blob key
  pub : Blob pub
  r1 : OfPeers me n r1
  r2 : OfPeers me n r2

theorem OfPeers.entry (h : OfPeers me n l) : ∀ p ∈ l, Entry p := by
  intro p hp
  have := (h.ids p hp).2.1
  unfold maxSigners at this
  exact ⟨by omega, h.sizes p hp⟩

theorem OfPeers.lines (h : OfPeers me n l) {size : Nat} (hsize : maxPayload * 2 + 12 ≤ size) :
    l.map (peerLine size) = peerLines l :=
  List.map_congr_left fun p hp => peerLine_eq hsize (h.entry p hp)

theorem peerLines_unbroken (l : List (Nat × Bytes)) : ∀ t ∈ peerLines l, 10 ∉ t := by
  intro t ht
  obtain ⟨p, -, rfl⟩ := List.mem_map.mp ht
  exact peerLine_unbroken p

/-- The core gets the lines of a call as they were written. -/
theorem input_eq {secret : Bytes} {ls : List Bytes} (h : ∀ t ∈ ls, 10 ∉ t) :
    splitLines 10 (unlines 10 (bytesToHex secret :: ls)) = bytesToHex secret :: ls := by
  refine splitLines_unlines fun t ht => ?_
  rcases List.mem_cons.mp ht with ht | ht
  · rw [ht]
    exact bytesToHex_unbroken secret
  · exact h t ht

variable {secret key pub : Bytes} {r1 r2 : List (Nat × Bytes)} {inv : Invocation}

/-- A loop over as many lines as the table has. -/
theorem readPeers_iff (hF : F.Lawful) (h : OfPeers me n l) {peer : Bytes → Option (F.Ident × P)}
    (hpeer : ∀ p, Entry p → peer (decimal p.1 ++ 32 :: bytesToHex p.2) = F.entry deserialize p)
    {m : Packages F P} {rest rest' : List Bytes} :
    readPeers peer (n - 1) (fun _ => none) (peerLines l ++ rest) = some (m, rest') ↔
      F.Collects deserialize l m ∧ rest = rest' := by
  have hcount : n - 1 = l.length := by
    have := h.count
    omega
  rw [hcount, readPeers_eq (fun p hp => hpeer p (h.entry p hp)) h.entry, Option.map_eq_some_iff]
  constructor
  · rintro ⟨m', hm, e⟩
    cases e
    exact ⟨(gather_iff hF h m).mp hm, rfl⟩
  · rintro ⟨hm, rfl⟩
    exact ⟨m, (gather_iff hF h m).mpr hm, rfl⟩

theorem cmdDkgPart2_iff (hF : F.Lawful) (h : Inputs me n secret key pub r1 r2) (call : Call F) :
    cmdDkgPart2 F n (bytesToHex secret :: peerLines r1) = some call ↔
      ∃ s m, F.r1Secret secret = some s ∧ F.Collects F.r1Pkg r1 m ∧ call = .dkgPart2 s m := by
  have first {m : Packages F F.R1Pkg} {rest : List Bytes} :
      readPeers (dkgPeer F F.r1Pkg) (n - 1) (fun _ => none) (peerLines r1) = some (m, rest) ↔
        F.Collects F.r1Pkg r1 m ∧ [] = rest := by
    rw [← readPeers_iff hF h.r1 (fun p hp => dkgPeer_eq hp), List.append_nil]
  unfold cmdDkgPart2
  rw [readHexBlob_line h.secret, Option.bind_some]
  constructor
  · intro e
    obtain ⟨s, hs, e⟩ := Option.bind_eq_some_iff.mp e
    obtain ⟨⟨m, rest⟩, hm, e⟩ := Option.map_eq_some_iff.mp e
    exact ⟨s, m, hs, (first.mp hm).1, e.symm⟩
  · rintro ⟨s, m, hs, hm, rfl⟩
    dsimp only
    rw [hs, Option.bind_some, first.mpr ⟨hm, rfl⟩]
    rfl

theorem cmdDkgPart3_iff (hF : F.Lawful) (h : Inputs me n secret key pub r1 r2) (call : Call F) :
    cmdDkgPart3 F n (bytesToHex secret :: (peerLines r1 ++ peerLines r2)) = some call ↔
      ∃ s m₁ m₂, F.r2Secret secret = some s ∧ F.Collects F.r1Pkg r1 m₁ ∧
        F.Collects F.r2Pkg r2 m₂ ∧ call = .dkgPart3 s m₁ m₂ := by
  have first {m : Packages F F.R1Pkg} {rest : List Bytes} :
      readPeers (dkgPeer F F.r1Pkg) (n - 1) (fun _ => none) (peerLines r1 ++ peerLines r2) =
        some (m, rest) ↔ F.Collects F.r1Pkg r1 m ∧ peerLines r2 = rest :=
    readPeers_iff hF h.r1 fun p hp => dkgPeer_eq hp
  have second {m : Packages F F.R2Pkg} {rest : List Bytes} :
      readPeers (dkgPeer F F.r2Pkg) (n - 1) (fun _ => none) (peerLines r2) = some (m, rest) ↔
        F.Collects F.r2Pkg r2 m ∧ [] = rest := by
    rw [← readPeers_iff hF h.r2 (fun p hp => dkgPeer_eq hp), List.append_nil]
  unfold cmdDkgPart3
  rw [readHexBlob_line h.secret, Option.bind_some]
  constructor
  · intro e
    obtain ⟨s, hs, e⟩ := Option.bind_eq_some_iff.mp e
    obtain ⟨⟨m₁, rest⟩, h1, e⟩ := Option.bind_eq_some_iff.mp e
    obtain ⟨c₁, rfl⟩ := first.mp h1
    obtain ⟨⟨m₂, rest⟩, h2, e⟩ := Option.map_eq_some_iff.mp e
    exact ⟨s, m₁, m₂, hs, c₁, (second.mp h2).1, e.symm⟩
  · rintro ⟨s, m₁, m₂, hs, h1, h2, rfl⟩
    dsimp only
    rw [hs, Option.bind_some, first.mpr ⟨h1, rfl⟩, Option.bind_some]
    dsimp only
    rw [second.mpr ⟨h2, rfl⟩]
    rfl

theorem cmdRefreshPart2_iff (hF : F.Lawful) (h : Inputs me n secret key pub r1 r2) (call : Call F) :
    cmdRefreshPart2 F me (bytesToHex secret :: peerLines r1) = some call ↔
      ∃ s m, F.r1Secret secret = some s ∧ F.Collects F.r1Pkg r1 m ∧ call = .refreshPart2 s m := by
  obtain ⟨i, hi⟩ : ∃ i, F.identifier me = some i := by
    have hme := h.meRange
    unfold maxSigners at hme
    exact Option.isSome_iff_exists.mp (hF.defined me (by omega) (by omega))
  -- nobody else has the identifier of the caller
  have hne : ∀ p ∈ r1, F.identifier p.1 ≠ some i := fun p hp e =>
    (h.r1.ids p hp).2.2 (hF.injective _ _ _ e hi)
  unfold cmdRefreshPart2
  rw [readTrimmed_line, Option.bind_some]
  simp only [hi, Option.bind_some, readUntilBlank_eq hne h.r1.entry]
  constructor
  · intro e
    obtain ⟨s, hs, e⟩ := Option.bind_eq_some_iff.mp e
    obtain ⟨m, hm, e⟩ := Option.map_eq_some_iff.mp e
    exact ⟨s, m, hs, (gather_iff hF h.r1 m).mp hm, e.symm⟩
  · rintro ⟨s, m, hs, hm, rfl⟩
    rw [hs, Option.bind_some, (gather_iff hF h.r1 m).mpr hm]
    rfl

theorem cmdRefreshShares_iff (hF : F.Lawful) (h : Inputs me n secret key pub r1 r2)
    (call : Call F) :
    cmdRefreshShares F n (bytesToHex secret ::
      (peerLines r1 ++ (peerLines r2 ++ [bytesToHex pub, bytesToHex key]))) = some call ↔
      ∃ s m₁ m₂ v k, F.r2Secret secret = some s ∧ F.Collects F.r1Pkg r1 m₁ ∧
        F.Collects F.r2Pkg r2 m₂ ∧ F.pubKeyPkg pub = some v ∧ F.keyPkg key = some k ∧
        call = .refreshShares s m₁ m₂ v k := by
  have first {m : Packages F F.R1Pkg} {rest : List Bytes} :
      readPeers (refreshPeer F F.r1Pkg) (n - 1) (fun _ => none)
        (peerLines r1 ++ (peerLines r2 ++ [bytesToHex pub, bytesToHex key])) = some (m, rest) ↔
        F.Collects F.r1Pkg r1 m ∧ peerLines r2 ++ [bytesToHex pub, bytesToHex key] = rest :=
    readPeers_iff hF h.r1 fun p hp => refreshPeer_eq hp
  have second {m : Packages F F.R2Pkg} {rest : List Bytes} :
      readPeers (refreshPeer F F.r2Pkg) (n - 1) (fun _ => none)
        (peerLines r2 ++ [bytesToHex pub, bytesToHex key]) = some (m, rest) ↔
        F.Collects F.r2Pkg r2 m ∧ [bytesToHex pub, bytesToHex key] = rest :=
    readPeers_iff hF h.r2 fun p hp => refreshPeer_eq hp
  unfold cmdRefreshShares
  rw [readTrimmed_line, Option.bind_some]
  constructor
  · intro e
    obtain ⟨s, hs, e⟩ := Option.bind_eq_some_iff.mp e
    obtain ⟨⟨m₁, rest⟩, h1, e⟩ := Option.bind_eq_some_iff.mp e
    obtain ⟨c₁, rfl⟩ := first.mp h1
    obtain ⟨⟨m₂, rest⟩, h2, e⟩ := Option.bind_eq_some_iff.mp e
    obtain ⟨c₂, rfl⟩ := second.mp h2
    dsimp only at e
    rw [readTrimmed_line, Option.bind_some] at e
    obtain ⟨v, hv, e⟩ := Option.bind_eq_some_iff.mp e
    rw [readTrimmed_line, Option.bind_some] at e
    obtain ⟨k, hk, e⟩ := Option.map_eq_some_iff.mp e
    exact ⟨s, m₁, m₂, v, k, hs, c₁, c₂, hv, hk, e.symm⟩
  · rintro ⟨s, m₁, m₂, v, k, hs, h1, h2, hv, hk, rfl⟩
    dsimp only
    rw [hs, Option.bind_some, first.mpr ⟨h1, rfl⟩, Option.bind_some]
    dsimp only
    rw [second.mpr ⟨h2, rfl⟩, Option.bind_some]
    dsimp only
    rw [readTrimmed_line, Option.bind_some]
    dsimp only
    rw [hv, Option.bind_some, readTrimmed_line, Option.bind_some]
    dsimp only
    rw [hk]
    rfl

/-! From the stub to the library: the command line, the text and the two tables. -/

/-- **Part 2** is read into the secret and the round-1 map. -/
theorem dkgPart2_read (hF : F.Lawful) (h : Inputs me n secret key pub r1 r2)
    (hinv : frostDkgPart2 me secret r1 = some inv) (call : Call F) :
    main F inv = some call ↔ ∃ s m, F.r1Secret secret = some s ∧ F.Collects F.r1Pkg r1 m ∧
      call = .dkgPart2 s m := by
  have hn := h.nRange
  have hme := h.meRange
  unfold maxSigners at hn hme
  unfold frostDkgPart2 at hinv
  rw [h.r1.lines (by unfold hexLineMax; omega), h.r1.count] at hinv
  rw [popenMulti_some hinv, ← cmdDkgPart2_iff hF h]
  unfold main
  rw [input_eq (peerLines_unbroken r1)]
  show dispatch F (ascii "dkg_part2") _ _ = _ ↔ _
  unfold dispatch
  rw [if_pos rfl, requireU16_id (by decide) (by omega), requireU16_idN (by decide) (by omega)]
  rfl

/-- **Part 3**, into the secret and both maps. -/
theorem dkgPart3_read (hF : F.Lawful) (h : Inputs me n secret key pub r1 r2)
    (hinv : frostDkgPart3 me secret r1 r2 = some inv) (call : Call F) :
    main F inv = some call ↔ ∃ s m₁ m₂, F.r2Secret secret = some s ∧ F.Collects F.r1Pkg r1 m₁ ∧
      F.Collects F.r2Pkg r2 m₂ ∧ call = .dkgPart3 s m₁ m₂ := by
  have hn := h.nRange
  unfold maxSigners at hn
  unfold frostDkgPart3 at hinv
  rw [h.r1.lines (by unfold hexLineMax; omega), h.r2.lines (by unfold hexLineMax; omega),
    h.r1.count, List.cons_append] at hinv
  rw [popenMulti_some hinv, ← cmdDkgPart3_iff hF h]
  unfold main
  rw [input_eq (List.forall_mem_append.mpr ⟨peerLines_unbroken r1, peerLines_unbroken r2⟩)]
  show dispatch F (ascii "dkg_part3") _ _ = _ ↔ _
  unfold dispatch
  rw [if_neg (by decide), if_pos rfl, requireU16_idN (by decide) (by omega)]
  rfl

/-- **Refresh part 2**, into the secret and the round-1 map. -/
theorem refreshPart2_read (hF : F.Lawful) (h : Inputs me n secret key pub r1 r2)
    (hinv : frostRefreshPart2 me secret r1 = some inv) (call : Call F) :
    main F inv = some call ↔ ∃ s m, F.r1Secret secret = some s ∧ F.Collects F.r1Pkg r1 m ∧
      call = .refreshPart2 s m := by
  have hme := h.meRange
  unfold maxSigners at hme
  unfold frostRefreshPart2 at hinv
  rw [h.r1.lines (by omega)] at hinv
  rw [popenMulti_some hinv, ← cmdRefreshPart2_iff hF h]
  unfold main
  rw [input_eq (peerLines_unbroken r1)]
  show dispatch F (ascii "refresh_part2") _ _ = _ ↔ _
  unfold dispatch
  rw [if_neg (by decide), if_neg (by decide), if_pos rfl, requireU16_id (by decide) (by omega)]
  rfl

/-- **Refresh shares**, into the secret, both maps and the old keys. -/
theorem refreshShares_read (hF : F.Lawful) (h : Inputs me n secret key pub r1 r2)
    (hinv : frostRefreshShares n secret r1 r2 key pub = some inv) (call : Call F) :
    main F inv = some call ↔ ∃ s m₁ m₂ v k, F.r2Secret secret = some s ∧
      F.Collects F.r1Pkg r1 m₁ ∧ F.Collects F.r2Pkg r2 m₂ ∧ F.pubKeyPkg pub = some v ∧
      F.keyPkg key = some k ∧ call = .refreshShares s m₁ m₂ v k := by
  have hn := h.nRange
  unfold maxSigners at hn
  unfold frostRefreshShares at hinv
  rw [h.r1.lines (by omega), h.r2.lines (by omega), List.cons_append, List.cons_append,
    List.append_assoc] at hinv
  rw [popenMulti_some hinv, ← cmdRefreshShares_iff hF h]
  have hlast : ∀ t ∈ [bytesToHex pub, bytesToHex key], 10 ∉ t := by
    intro t ht
    rcases List.mem_cons.mp ht with ht | ht
    · rw [ht]
      exact bytesToHex_unbroken pub
    · rw [List.mem_singleton.mp ht]
      exact bytesToHex_unbroken key
  unfold main
  rw [input_eq (List.forall_mem_append.mpr ⟨peerLines_unbroken r1,
    List.forall_mem_append.mpr ⟨peerLines_unbroken r2, hlast⟩⟩)]
  show dispatch F (ascii "refresh_shares") _ _ = _ ↔ _
  unfold dispatch
  rw [if_neg (by decide), if_neg (by decide), if_neg (by decide), if_pos rfl,
    requireU16_n (by decide) (by omega)]
  rfl

/-! ## Order -/

theorem OfPeers.perm {l' : List (Nat × Bytes)} (h : OfPeers me n l) (hp : l.Perm l') :
    OfPeers me n l' where
  count := hp.length_eq ▸ h.count
  distinct := (hp.map Prod.fst).nodup_iff.mp h.distinct
  ids := fun p hm => h.ids p (hp.mem_iff.mpr hm)
  sizes := fun p hm => h.sizes p (hp.mem_iff.mpr hm)

theorem Frost.Collects.perm {l' : List (Nat × Bytes)} (hp : l.Perm l') {m : Packages F P} :
    F.Collects deserialize l m ↔ F.Collects deserialize l' m := by
  have hmem {q : Nat × Bytes} : q ∈ l ↔ q ∈ l' := hp.mem_iff
  constructor
  · intro h
    exact ⟨fun q hq => h.decoded q (hmem.mpr hq), fun i p => by simp only [h.entries, hmem]⟩
  · intro h
    exact ⟨fun q hq => h.decoded q (hmem.mp hq), fun i p => by simp only [h.entries, hmem]⟩

/-- Started twice or not at all, and read as the same call. -/
theorem map_main_congr {a b : Option Invocation} {Q : Call F → Prop} (hs : a.isSome = b.isSome)
    (ha : ∀ inv, a = some inv → ∀ call, main F inv = some call ↔ Q call)
    (hb : ∀ inv, b = some inv → ∀ call, main F inv = some call ↔ Q call) :
    a.map (main F) = b.map (main F) := by
  cases a with
  | none =>
    cases b with
    | none => rfl
    | some j => cases hs
  | some i =>
    cases b with
    | none => cases hs
    | some j =>
      refine congrArg some (Option.ext fun call => ?_)
      exact (ha i rfl call).trans (hb j rfl call).symm

/-- What each call is read as, once the core is started on it. -/
structure Faithful (F : Frost) (me n : Nat) (secret key pub : Bytes) (r1 r2 : List (Nat × Bytes)) :
    Prop where
  dkgPart2 : ∀ inv, frostDkgPart2 me secret r1 = some inv → ∀ call, main F inv = some call ↔
    ∃ s m, F.r1Secret secret = some s ∧ F.Collects F.r1Pkg r1 m ∧ call = .dkgPart2 s m
  dkgPart3 : ∀ inv, frostDkgPart3 me secret r1 r2 = some inv → ∀ call, main F inv = some call ↔
    ∃ s m₁ m₂, F.r2Secret secret = some s ∧ F.Collects F.r1Pkg r1 m₁ ∧
      F.Collects F.r2Pkg r2 m₂ ∧ call = .dkgPart3 s m₁ m₂
  refreshPart2 : ∀ inv, frostRefreshPart2 me secret r1 = some inv → ∀ call,
    main F inv = some call ↔
      ∃ s m, F.r1Secret secret = some s ∧ F.Collects F.r1Pkg r1 m ∧ call = .refreshPart2 s m
  refreshShares : ∀ inv, frostRefreshShares n secret r1 r2 key pub = some inv → ∀ call,
    main F inv = some call ↔ ∃ s m₁ m₂ v k, F.r2Secret secret = some s ∧
      F.Collects F.r1Pkg r1 m₁ ∧ F.Collects F.r2Pkg r2 m₂ ∧ F.pubKeyPkg pub = some v ∧
      F.keyPkg key = some k ∧ call = .refreshShares s m₁ m₂ v k

/-- The tables `r1`, `r2` and `r1'`, `r2'` make no difference to what the library is called
with, and none to whether it is. -/
structure SameCalls (F : Frost) (me n : Nat) (secret key pub : Bytes)
    (r1 r2 r1' r2' : List (Nat × Bytes)) : Prop where
  dkgPart2 : (frostDkgPart2 me secret r1).map (main F) = (frostDkgPart2 me secret r1').map (main F)
  dkgPart3 : (frostDkgPart3 me secret r1 r2).map (main F) =
    (frostDkgPart3 me secret r1' r2').map (main F)
  refreshPart2 : (frostRefreshPart2 me secret r1).map (main F) =
    (frostRefreshPart2 me secret r1').map (main F)
  refreshShares : (frostRefreshShares n secret r1 r2 key pub).map (main F) =
    (frostRefreshShares n secret r1' r2' key pub).map (main F)

theorem faithful (hF : F.Lawful) (h : Inputs me n secret key pub r1 r2) :
    Faithful F me n secret key pub r1 r2 where
  dkgPart2 := fun _ hinv => dkgPart2_read hF h hinv
  dkgPart3 := fun _ hinv => dkgPart3_read hF h hinv
  refreshPart2 := fun _ hinv => refreshPart2_read hF h hinv
  refreshShares := fun _ hinv => refreshShares_read hF h hinv

theorem sameCalls (hF : F.Lawful) (h : Inputs me n secret key pub r1 r2)
    {r1' r2' : List (Nat × Bytes)} (h1 : r1.Perm r1') (h2 : r2.Perm r2') :
    SameCalls F me n secret key pub r1 r2 r1' r2' := by
  have hf := faithful hF h
  have hf' := faithful hF { h with r1 := h.r1.perm h1, r2 := h.r2.perm h2 }
  have m1 {size : Nat} : (r1.map (peerLine size)).Perm (r1'.map (peerLine size)) := h1.map _
  have m2 {size : Nat} : (r2.map (peerLine size)).Perm (r2'.map (peerLine size)) := h2.map _
  refine ⟨?_, ?_, ?_, ?_⟩
  · refine map_main_congr ?_ hf.dkgPart2 fun inv hinv call => ?_
    · unfold frostDkgPart2
      rw [h1.length_eq]
      exact popenMulti_perm (m1.cons _)
    · simp only [hf'.dkgPart2 inv hinv, Frost.Collects.perm h1]
  · refine map_main_congr ?_ hf.dkgPart3 fun inv hinv call => ?_
    · unfold frostDkgPart3
      rw [h1.length_eq]
      exact popenMulti_perm ((m1.cons _).append m2)
    · simp only [hf'.dkgPart3 inv hinv, Frost.Collects.perm h1, Frost.Collects.perm h2]
  · refine map_main_congr ?_ hf.refreshPart2 fun inv hinv call => ?_
    · exact popenMulti_perm (m1.cons _)
    · simp only [hf'.refreshPart2 inv hinv, Frost.Collects.perm h1]
  · refine map_main_congr ?_ hf.refreshShares fun inv hinv call => ?_
    · exact popenMulti_perm (((m1.cons _).append m2).append_right _)
    · simp only [hf'.refreshShares inv hinv, Frost.Collects.perm h1, Frost.Collects.perm h2]

/-- **The text protocol** is faithful and does not depend on the order of arrival. -/
theorem text_protocol (hF : F.Lawful) (h : Inputs me n secret key pub r1 r2)
    {r1' r2' : List (Nat × Bytes)} (h1 : r1.Perm r1') (h2 : r2.Perm r2') :
    Faithful F me n secret key pub r1 r2 ∧ SameCalls F me n secret key pub r1 r2 r1' r2' :=
  ⟨faithful hF h, sameCalls hF h h1 h2⟩

/-- A library whose packages are their bytes. -/
def plainFrost : Frost where
  Ident := Nat
  R1Secret := Bytes
  R2Secret := Bytes
  R1Pkg := Bytes
  R2Pkg := Bytes
  KeyPkg := Bytes
  PubKeyPkg := Bytes
  identifier := fun id => if id = 0 then none else some id
  r1Secret := some
  r2Secret := some
  r1Pkg := some
  r2Pkg := some
  keyPkg := some
  pubKeyPkg := some

theorem plainFrost_lawful : plainFrost.Lawful where
  defined := fun id h _ => by
    show (if id = 0 then none else some id : Option Nat).isSome = true
    rw [if_neg (by omega)]
    rfl
  injective := by
    intro a b i (ha : (if a = 0 then none else some a : Option Nat) = some i)
      (hb : (if b = 0 then none else some b : Option Nat) = some i)
    split at ha
    · cases ha
    split at hb
    · cases hb
    · exact (Option.some.inj ha).trans (Option.some.inj hb).symm

def peersOfOne : List (Nat × Bytes) := [(2, [4]), (3, [5])]

theorem peersOfOne_ofPeers : OfPeers 1 3 peersOfOne where
  count := rfl
  distinct := by decide
  ids := by decide
  sizes := by
    unfold Blob
    decide

theorem text_protocol_three :
    (frostDkgPart3 1 [9] peersOfOne peersOfOne).isSome ∧
      Faithful plainFrost 1 3 [9] [7] [8] peersOfOne peersOfOne ∧
      SameCalls plainFrost 1 3 [9] [7] [8] peersOfOne peersOfOne peersOfOne.reverse peersOfOne := by
  have hin : Inputs 1 3 [9] [7] [8] peersOfOne peersOfOne :=
    ⟨by decide, by decide, by unfold Blob; decide, by unfold Blob; decide, by unfold Blob; decide,
      peersOfOne_ofPeers, peersOfOne_ofPeers⟩
  exact ⟨by decide +kernel,
    text_protocol plainFrost_lawful hin (List.reverse_perm peersOfOne).symm (List.Perm.refl _)⟩

end FrostSshCa.Core
