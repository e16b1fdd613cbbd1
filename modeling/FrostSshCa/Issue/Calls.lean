import FrostSshCa.Issue.Hears

/-!
# The calls

What comes back from each subprocess, from the values it is called with to the values the
coordinator goes on with: whatever is accepted was computed by the library from what was
meant, however the text was cut on its way.
-/

namespace FrostSshCa.Issue

open Lib FrostSshCa.Core Stubs Coordinator

variable {F : IssuingFrost} {S : SshKey} {core : Invocation → Option Child} {c : Child}
  {o : SignOptions} {serial va vb : Nat} {d raw : Bytes}

/-! ## The program that is started -/

theorem Runs.tbs (h : Runs F S core) {text : Bytes} (hc : core (frostTbs text) = some c) :
    ∃ nonce eph, c = printTbs S nonce eph (splitLines 10 text) := by
  obtain ⟨nonce, eph, e⟩ := h.child _ _ hc
  exact ⟨nonce, eph, (Option.some.inj e).symm⟩

theorem Runs.pubkey (h : Runs F S core) {text : Bytes}
    (hc : core ⟨[coreBin, ascii "pubkey"], text⟩ = some c) :
    c = printPubkey F (splitLines 10 text) := by
  obtain ⟨_, _, e⟩ := h.child _ _ hc
  exact (Option.some.inj e).symm

theorem Runs.assemble (h : Runs F S core) {text : Bytes}
    (hc : core ⟨[coreBin, ascii "assemble"], text⟩ = some c) :
    c = printAssemble F (splitLines 10 text) := by
  obtain ⟨_, _, e⟩ := h.child _ _ hc
  exact (Option.some.inj e).symm

theorem Runs.mint (h : Runs F S core) {m : MintInput} (hc : core (frostMint m) = some c) :
    c = printMint F S (splitLines 10 (mintRequest m).text) := by
  obtain ⟨_, _, e⟩ := h.child _ _ hc
  exact (Option.some.inj e).symm

theorem Runs.aggregate (h : Runs F S core) {a : AggregateInput} (ht : a.t < 65536)
    (hc : core (frostAggregate a) = some c) :
    c = printAggregate F a.t (splitLines 10 (aggregateRequest a).text) := by
  obtain ⟨_, _, e⟩ := h.child _ _ hc
  have hflag : requireU16 (frostAggregate a).args (ascii "--t") = some a.t := by
    show (some (decimal a.t)).bind parseU16 = some a.t
    exact parseU16_decimal ht
  unfold issueMain at e
  rw [hflag] at e
  exact (Option.some.inj e).symm

/-! ## `tbs` -/

theorem OneLine.bytes {s : Text} (h : OneLine s) :
    ∀ b ∈ utf8 s, b ≠ 0 ∧ b ≠ 10 ∧ b ≠ 13 := by
  have hlow {b : UInt8} {k : Nat} (hk : k < 128) (hb : b ∈ utf8 s) (e : b = UInt8.ofNat k) :
      Char.ofNat k ∈ s := by
    have hbk : b.toNat = k := by
      rw [e, UInt8.toNat_ofNat']
      omega
    obtain ⟨ch, hch, hlt, e'⟩ := mem_utf8_low hb (by omega)
    have hcode : ch.toNat = k := by
      have h1 := congrArg UInt8.toNat e'
      rw [hbk, UInt8.toNat_ofNat'] at h1
      omega
    rw [← hcode, Char.ofNat_toNat]
    exact hch
  intro b hb
  refine ⟨fun e => ?_, fun e => ?_, fun e => ?_⟩
  · exact (h.plain _ (hlow (k := 0) (by decide) hb e)).1 rfl
  · exact (h.plain _ (hlow (k := 10) (by decide) hb e)).2.1 rfl
  · exact (h.plain _ (hlow (k := 13) (by decide) hb e)).2.2 rfl

/-- A template `cmd_tbs` made for these values, and the bytes that go with it. -/
structure Template (S : SshKey) (o : SignOptions) (serial va vb : Nat) (d raw : Bytes) :
    Prop where
  made : ∃ nonce eph path principal cert text, utf8 path = o.userKeyFile ∧
    utf8 principal = o.principal ∧
    tbsCert S nonce eph ⟨path, serial, principal, va, vb⟩ = some (raw, cert) ∧
    S.toOpenssh cert = some text ∧ utf8 text = d
  fits : raw.length ≤ maxPayload

/-- `call_tbs` succeeds only on two lines, and the status is 0. -/
theorem readTbs_ok (h : readTbs c = .ok d raw) : ∃ hex cert rest rest',
    fgets hexLineMax c.text = some (hex, rest) ∧ fgets maxPayload rest = some (cert, rest') ∧
      c.status = 0 ∧ 0 ≤ (hexToBytes (cutEnd hex) maxPayload).1 ∧
      raw = (hexToBytes (cutEnd hex) maxPayload).2 ∧ d = cutEnd cert := by
  unfold readTbs at h
  split at h
  · cases h
  next hex rest e =>
  split at h
  · cases h
  next cert rest' e' =>
  dsimp only at h
  split at h
  · cases h
  next hstop =>
  rw [not_or, not_not] at hstop
  split at h
  · cases h
  next hpos =>
  cases h
  exact ⟨hex, cert, rest, rest', e, e', hstop.1, by omega, rfl, rfl⟩

/-- **The template** `call_tbs` accepts is the one that was asked for, and the TBS is its. -/
theorem callTbs_ok (hR : Runs F S core) (hS : S.Lawful) (hp : LineText o.userKeyFile)
    (hq : LineText o.principal) (hs : serial < 2 ^ 64) (ha : va < 2 ^ 64) (hb : vb < 2 ^ 64)
    (h : callTbs core o serial va vb = .ok d raw) (hroom : d.length + 1 < maxPayload) :
    Template S o serial va vb d raw := by
  unfold callTbs at h
  rw [tbsRequest_eq] at h
  split at h
  · cases h
  next c hc =>
  obtain ⟨nonce, eph, rfl⟩ := hR.tbs hc
  obtain ⟨-, path, principal, hpath, hprincipal, hread⟩ :=
    (tbsExact_iff hs ha hb).mpr ⟨hp, hq⟩ _ (tbsRequest_eq o serial va vb)
  obtain ⟨hex, cert, rest, rest', hline, htext, hstatus, hok, rfl, rfl⟩ := readTbs_ok h
  obtain ⟨tbs, made, text, hmade, hopen, hprint⟩ := printTbs_zero hstatus
  rw [hread, Option.bind_some] at hmade
  rw [hprint] at hline
  obtain ⟨rfl, -, hbytes⟩ := fgets_hex (by decide) (by decide) hline hok
  rw [← List.append_nil (println (utf8 text))] at htext
  have hcert := fgets_text (hS.oneLine hopen).bytes htext hroom
  exact ⟨⟨nonce, eph, path, principal, made, text, hpath, hprincipal,
    by rw [hbytes]; exact hmade, hopen, hcert.symm⟩, (length_of_success (by decide) hok).2⟩

/-! ## What is sent -/

theorem foldl_print_front {size : Nat} (lines : List Bytes) (b : TextBuf) :
    ∃ t, (lines.foldl (TextBuf.print size) b).text = b.text ++ t := by
  induction lines generalizing b with
  | nil => exact ⟨[], (List.append_nil _).symm⟩
  | cons l ls ih =>
    obtain ⟨t, ht⟩ := ih (b.print size l)
    refine ⟨snprintf (size - b.off) l ++ t, ?_⟩
    rw [List.foldl_cons, ht, ← List.append_assoc]
    rfl

/-- The first lines are whole if they fit, whatever comes after. -/
theorem fillText_front {size : Nat} {ls : List Bytes} (h : ls.flatten.length < size)
    (ls' : List Bytes) : ∃ t, (fillText size (ls ++ ls')).text = ls.flatten ++ t := by
  have hfill := fillText_eq h
  unfold fillText at hfill ⊢
  rw [List.foldl_append, hfill]
  exact foldl_print_front ls' _

theorem hexFile_append (bs r : Bytes) :
    splitLines 10 (hexFile bs ++ r) = bytesToHex bs :: splitLines 10 r := by
  unfold hexFile
  rw [List.append_assoc]
  exact splitLines_line (bytesToHex_unbroken bs) r

/-! ## `pubkey` -/

theorem readHexBlob_hex {bs x : Bytes} {rest rest' : List Bytes}
    (h : readHexBlob (bytesToHex bs :: rest) = some (x, rest')) : x = bs ∧ rest' = rest := by
  unfold readHexBlob at h
  split at h
  · cases h
  · rw [readLine_hex, fromHex_bytesToHex] at h
    cases h
    exact ⟨rfl, rfl⟩

/-- **The key** that is patched in is the verifying key of the package. -/
theorem callPubkey_some (hR : Runs F S core) {pkg : Bytes} {key : Key}
    (h : callPubkey core pkg = some key) :
    ∃ pub, F.pubKeyPkg pkg = some pub ∧ F.verifyingKey pub = some key := by
  obtain ⟨c, hc, hread⟩ := Option.bind_eq_some_iff.mp h
  have hlines : splitLines 10 (hexFile pkg) = [bytesToHex pkg] := by
    have := hexFile_append pkg []
    rwa [List.append_nil] at this
  rw [hR.pubkey hc, hlines] at hread
  unfold printPubkey at hread
  split at hread
  · next key' hkey =>
    obtain ⟨pub, hpub, hver⟩ := Option.bind_eq_some_iff.mp hkey
    obtain ⟨⟨x, rest⟩, hx, hof⟩ := Option.bind_eq_some_iff.mp hpub
    obtain ⟨rfl, -⟩ := readHexBlob_hex hx
    rw [readCaKey_cmdPubkey] at hread
    cases hread
    exact ⟨pub, hof, hver⟩
  · cases hread

/-! ## `assemble` -/

theorem hexToBytes_newline {max : Nat} {l : Bytes} (h : 0 ∉ l) :
    hexToBytes (l ++ [10]) max = hexToBytes l max := by
  have hnul : 0 ∉ l ++ [10] := by
    rw [List.mem_append, List.mem_singleton]
    rintro (hl | hl)
    · exact h hl
    · exact absurd hl (by decide)
  have hchomp : chomp (l ++ [10]) = l := by
    unfold chomp
    rw [if_pos (by simp), List.dropLast_concat]
  have htail : stripTail (l ++ [10]) = stripTail l := by
    rw [← stripTail_chomp (l ++ [10]), hchomp]
  unfold hexToBytes
  rw [cstr_eq_self hnul, cstr_eq_self h, htail]

theorem hexToBytes_cutEnd {size max : Nat} {bs line rest r : Bytes}
    (hg : fgets size (println (bytesToHex bs) ++ r) = some (line, rest)) :
    hexToBytes line max = hexToBytes (cutEnd line) max := by
  have hplain : ∀ b ∈ bytesToHex bs, b ≠ 0 ∧ b ≠ 10 ∧ b ≠ 13 :=
    fun b hb => (bytesToHex_digits hb).2.1
  rcases fgets_println (bytesToHex_unbroken bs) hg with ⟨rfl, -, -⟩ | ⟨rfl, -⟩
  · rw [cutEnd_line hplain]
    exact hexToBytes_newline fun h0 => (hplain 0 h0).1 rfl
  · rw [cutEnd_plain fun b hb => hplain b (List.mem_of_mem_take hb)]

theorem assembleRequest_front {b : CommitBundle} (hb : b.tbs.length ≤ maxPayload) :
    ∃ ls, splitLines 10 (assembleRequest b).text = bytesToHex b.tbs :: ls := by
  have hfit : [bytesToHex b.tbs ++ 10 :: (decimal b.entries.length ++ [10])].flatten.length <
      assembleMax := by
    have hdec := decimal_length b.entries.length
    simp only [List.flatten_singleton, List.length_append, List.length_cons, List.length_nil,
      length_bytesToHex]
    unfold assembleMax maxPayload maxSigners commitEntryMax at *
    omega
  obtain ⟨t, ht⟩ := fillText_front hfit (b.entries.map fun e => entryLine e.id e.commit)
  refine ⟨splitLines 10 (decimal b.entries.length ++ [10] ++ t), ?_⟩
  have htext : (assembleRequest b).text =
      bytesToHex b.tbs ++ 10 :: (decimal b.entries.length ++ [10] ++ t) := by
    unfold assembleRequest
    rw [List.singleton_append] at ht
    rw [ht, List.flatten_singleton, List.append_assoc, List.cons_append]
  rw [htext]
  exact splitLines_line (bytesToHex_unbroken b.tbs) _

/-- `frost_assemble_signing_package` succeeds only on one line of hex, and the status is 0. -/
theorem callAssemble_line {b : CommitBundle} {spkg : Bytes} (h : callAssemble core b = some spkg) :
    ∃ c line rest, core (frostAssemble b) = some c ∧ fgets hexLineMax c.text = some (line, rest) ∧
      c.status = 0 ∧ 0 ≤ (hexToBytes line maxPayload).1 ∧
      spkg = (hexToBytes line maxPayload).2 := by
  unfold callAssemble frostAssembleSigningPackage at h
  split at h
  swap
  · simp at h
  next line status hline =>
  obtain ⟨c, hc, hmap⟩ := Option.bind_eq_some_iff.mp hline
  obtain ⟨⟨line', rest⟩, hg, e⟩ := Option.map_eq_some_iff.mp hmap
  cases e
  by_cases hst : c.status = 0
  swap
  · simp [hst] at h
  rw [if_neg (not_not.mpr hst)] at h
  by_cases hpos : ((⟨[], 0⟩ : Out).decode line').1 ≤ 0
  · simp [hpos] at h
  dsimp only at h
  rw [if_neg hpos, if_pos rfl] at h
  have hok : 0 ≤ (hexToBytes line' maxPayload).1 := by
    unfold Out.decode at hpos
    dsimp only at hpos
    omega
  obtain ⟨hlen, hmax⟩ := length_of_success (by decide) hok
  refine ⟨c, line', rest, hc, hg, hst, hok, ?_⟩
  have hholds := holds_write (o := ⟨[], 0⟩) hmax
  unfold Out.decode at h
  rw [hlen] at h
  dsimp only at h
  rw [hholds.len, hholds.buf] at h
  exact (Option.some.inj h).symm

theorem cmdAssemble_message {msg msg' : Bytes} {ls : List Bytes}
    {commits : Packages F.toFrost F.Commitments}
    (h : cmdAssemble F.toSigningFrost (bytesToHex msg :: ls) = some (.assemble commits msg')) :
    msg' = msg := by
  unfold cmdAssemble at h
  obtain ⟨⟨x, rest⟩, hx, h⟩ := Option.bind_eq_some_iff.mp h
  obtain ⟨n, -, h⟩ := Option.bind_eq_some_iff.mp h
  obtain ⟨q, -, h⟩ := Option.map_eq_some_iff.mp h
  cases h
  exact (readHexBlob_hex hx).1

/-- **The signing package** was made for the message of the bundle. -/
theorem callAssemble_some (hR : Runs F S core) {b : CommitBundle} {spkg : Bytes}
    (hb : b.tbs.length ≤ maxPayload) (h : callAssemble core b = some spkg) :
    (∃ commits, F.packageBytes (F.newPackage commits b.tbs) = some spkg) ∧
      spkg.length ≤ maxPayload := by
  obtain ⟨c, line, rest, hc, hg, hst, hok, rfl⟩ := callAssemble_line h
  have hmax := (length_of_success (by decide) hok).2
  obtain ⟨ls, hls⟩ := assembleRequest_front hb
  have hchild := hR.assemble hc
  rw [hchild] at hst
  obtain ⟨commits, msg, bytes, hcmd, hbytes, hprint⟩ := printAssemble_zero hst
  rw [hchild, hprint, ← List.append_nil (println (bytesToHex bytes))] at hg
  rw [hexToBytes_cutEnd hg] at hok hmax ⊢
  obtain ⟨-, -, hval⟩ := fgets_hex (by decide) (by decide) hg hok
  rw [hval] at hmax ⊢
  rw [hls] at hcmd
  exact ⟨⟨commits, cmdAssemble_message hcmd ▸ hbytes⟩, hmax⟩

/-! ## `aggregate` -/

theorem aggregateRequest_front {a : AggregateInput} (h1 : a.signingPkg.length ≤ maxPayload)
    (h2 : a.pubKeyPkg.length ≤ maxPayload) :
    ∃ ls, splitLines 10 (aggregateRequest a).text =
      bytesToHex a.signingPkg :: bytesToHex a.pubKeyPkg :: ls := by
  have hfit : [hexFile a.signingPkg, hexFile a.pubKeyPkg].flatten.length < aggregateMax := by
    simp only [List.flatten_cons, List.flatten_nil, List.append_nil, List.length_append,
      length_hexFile]
    unfold aggregateMax maxPayload maxSigners at *
    omega
  obtain ⟨t, ht⟩ := fillText_front hfit (a.shares.map fun p => entryLine p.1 p.2)
  refine ⟨splitLines 10 t, ?_⟩
  have htext : (aggregateRequest a).text =
      hexFile a.signingPkg ++ (hexFile a.pubKeyPkg ++ t) := by
    unfold aggregateRequest
    rw [show hexFile a.signingPkg :: hexFile a.pubKeyPkg ::
        (a.shares.map fun p => entryLine p.1 p.2) =
      [hexFile a.signingPkg, hexFile a.pubKeyPkg] ++
        a.shares.map fun p => entryLine p.1 p.2 from rfl, ht]
    simp only [List.flatten_cons, List.flatten_nil, List.append_nil, List.append_assoc]
  rw [htext, hexFile_append, hexFile_append]

theorem readAggregate_sig {sig : Bytes} (h : readAggregate c = .sig sig) : ∃ line rest,
    fgets 256 c.text = some (line, rest) ∧ c.status = 0 ∧
      0 ≤ (hexToBytes (cutEnd line) 64).1 ∧ sig = (hexToBytes (cutEnd line) 64).2 := by
  unfold readAggregate at h
  dsimp only at h
  split at h
  · next hok =>
    obtain ⟨⟨line, rest⟩, hg⟩ := Option.isSome_iff_exists.mp (Option.isSome_map ▸ hok.1)
    rw [hg] at h
    have hcut : cutEnd (cstr line) = cutEnd line := by
      unfold cutEnd
      rw [cstr_cstr]
    rw [Option.map_some, Option.getD_some, hcut] at h
    split at h
    · cases h
    · next hpos =>
      cases h
      exact ⟨line, rest, hg, hok.2.1, by omega, rfl⟩
  · split at h <;> cases h

theorem cmdAggregate_packages {t : Nat} {p q : Bytes} {ls : List Bytes} {pkg : F.SigningPkg}
    {shares : Packages F.toFrost F.SigShare} {pub : F.PubKeyPkg}
    (h : cmdAggregate F.toSigningFrost t (bytesToHex p :: bytesToHex q :: ls) =
      some (.aggregate pkg shares pub)) :
    F.signingPkg p = some pkg ∧ F.pubKeyPkg q = some pub := by
  unfold cmdAggregate at h
  obtain ⟨⟨x, rest₁⟩, hx, h⟩ := Option.bind_eq_some_iff.mp h
  obtain ⟨p', hp, h⟩ := Option.bind_eq_some_iff.mp h
  obtain ⟨⟨y, rest₂⟩, hy, h⟩ := Option.bind_eq_some_iff.mp h
  obtain ⟨q', hq, h⟩ := Option.bind_eq_some_iff.mp h
  obtain ⟨z, -, h⟩ := Option.map_eq_some_iff.mp h
  cases h
  rw [readTrimmed_line] at hx
  cases hx
  rw [readTrimmed_line] at hy
  cases hy
  exact ⟨hp, hq⟩

/-- **The signature** is one that `frost::aggregate` gave for both packages. -/
theorem callAggregate_sig (hR : Runs F S core) {a : AggregateInput} {sig : Bytes}
    (ht : a.t < 65536) (h1 : a.signingPkg.length ≤ maxPayload)
    (h2 : a.pubKeyPkg.length ≤ maxPayload) (h : callAggregate core a = .sig sig) :
    ∃ pkg shares pub, F.signingPkg a.signingPkg = some pkg ∧ F.pubKeyPkg a.pubKeyPkg = some pub ∧
      F.aggregate pkg shares pub = .signature (some sig) := by
  unfold callAggregate at h
  cases hc : core (frostAggregate a) with
  | none =>
    rw [hc] at h
    cases h
  | some c =>
    rw [hc] at h
    obtain ⟨line, rest, hg, hst, hok, rfl⟩ := readAggregate_sig h
    obtain ⟨ls, hls⟩ := aggregateRequest_front h1 h2
    have hchild := hR.aggregate ht hc
    rw [hchild] at hst
    obtain ⟨pkg, shares, pub, bytes, hcmd, hagg, hprint⟩ := printAggregate_zero hst
    rw [hchild, hprint, ← List.append_nil (println (bytesToHex bytes))] at hg
    obtain ⟨-, -, hval⟩ := fgets_hex (by decide) (by decide) hg hok
    rw [hls] at hcmd
    obtain ⟨hpkg, hpub⟩ := cmdAggregate_packages hcmd
    exact ⟨pkg, shares, pub, hpkg, hpub, hval ▸ hagg⟩

/-! ## `mint` -/

/-- The length of the text `call_mint` prints. -/
def mintSize (m : MintInput) : Nat :=
  m.dummyCert.length + 2 * m.sig64.length + 2 * m.tbsHex.length + 2 * m.pubKeyPkg.length + 4

theorem mintRequest_lines {m : MintInput} {text : Text} (hline : OneLine text)
    (hd : utf8 text = m.dummyCert) (hfit : mintSize m < mintMax) :
    splitLines 10 (mintRequest m).text =
      [utf8 text, bytesToHex m.sig64, bytesToHex m.tbsHex, bytesToHex m.pubKeyPkg] := by
  have hlen : (unlines 10 [m.dummyCert, bytesToHex m.sig64, bytesToHex m.tbsHex,
      bytesToHex m.pubKeyPkg] ++ []).length < mintMax := by
    rw [List.append_nil, length_unlines]
    simp only [List.map_cons, List.map_nil, List.sum_cons, List.sum_nil, length_bytesToHex]
    unfold mintSize at hfit
    omega
  unfold mintRequest
  rw [fillText_eq hlen]
  dsimp only
  rw [List.flatten_singleton, ← hd, splitLines_unlines]
  simp only [List.forall_mem_cons]
  exact ⟨fun h10 => (hline.bytes 10 h10).2.1 rfl, bytesToHex_unbroken _, bytesToHex_unbroken _,
    bytesToHex_unbroken _, List.forall_mem_nil _⟩

/-- **The certificate** that is written was minted from the template, with the verifying
key of the package and the signature. -/
theorem callMint_some (hR : Runs F S core) (hS : S.Lawful) {m : MintInput} {writable : Bool}
    {cert : Bytes} {text : Text} (hline : OneLine text) (hd : utf8 text = m.dummyCert)
    (hfit : mintSize m < mintMax) (h : callMint core writable m = some cert)
    (hroom : cert.length + 1 < maxPayload) :
    ∃ pub key minted out, F.pubKeyPkg m.pubKeyPkg = some pub ∧ F.verifyingKey pub = some key ∧
      mintCert S key text m.sig64 = some minted ∧ S.toOpenssh minted = some out ∧
        utf8 out = cert := by
  unfold callMint at h
  obtain ⟨c, hc, h⟩ := Option.bind_eq_some_iff.mp h
  obtain ⟨⟨line, rest⟩, hg, h⟩ := Option.bind_eq_some_iff.mp h
  split at h
  swap
  · cases h
  next hok =>
  cases h
  have hchild := hR.mint hc
  rw [mintRequest_lines hline hd hfit] at hchild
  rw [hchild] at hok
  obtain ⟨minted, out, hminted, hopen, hprint⟩ := printMint_zero hok.1
  have hread : cmdMint [utf8 text, bytesToHex m.sig64, bytesToHex m.tbsHex,
      bytesToHex m.pubKeyPkg] = some ⟨text, m.sig64, toHex m.tbsHex, m.pubKeyPkg⟩ :=
    cmdMint_lines hline.trimmed
  unfold mintedCert at hminted
  rw [hread, Option.bind_some] at hminted
  obtain ⟨pub, hpub, hminted⟩ := Option.bind_eq_some_iff.mp hminted
  obtain ⟨key, hkey, hminted⟩ := Option.bind_eq_some_iff.mp hminted
  rw [hchild, hprint, ← List.append_nil (println (utf8 out))] at hg
  exact ⟨pub, key, minted, out, hpub, hkey, hminted, hopen,
    (fgets_text (hS.oneLine hopen).bytes hg hroom).symm⟩

end FrostSshCa.Issue
