import FrostSshCa.Core.Readback
import FrostSshCa.Coordinator.Blacklist
import FrostSshCa.Coordinator.Copies
import FrostSshCa.Coordinator.CaKey
import FrostSshCa.Coordinator.Ledger

/-!
# The requests for a signature

`call_tbs`, `roast_try_form_session`, `roast_try_aggregate` and `call_mint` each print a request
for the core into a buffer of another size. What the core reads is what they meant, with four
exceptions: text that does not come back from a line, an empty TBS, a session whose shares are
not all there, and a certificate request longer than its buffer, whose length nobody checks.
-/

namespace FrostSshCa.Coordinator

open Lib FrostSshCa.Core

/-! ## Options -/

/-- `strncpy` of an argument into the first `n` bytes of a zeroed array. -/
def optionText (n : Nat) (arg : Bytes) : Bytes := (cstr arg).take n

/-- A string that was put into an array so. -/
structure OptionText (n : Nat) (text : Bytes) : Prop where
  fits : text.length ≤ n
  string : 0 ∉ text

theorem optionText_ok (n : Nat) (arg : Bytes) : OptionText n (optionText n arg) where
  fits := List.length_take_le ..
  string := fun h => zero_not_mem_cstr arg (List.mem_of_mem_take h)

/-- `g_user_key_file` and `g_principal`, as `main` goes on with them. -/
structure SignOptions where
  userKeyFile : Bytes
  principal : Bytes
  userKeyFile_ok : OptionText 255 userKeyFile
  principal_ok : OptionText 127 principal
  named : principal ≠ []

/-- `--user-key` and `--principal`; only the second must be given. -/
def signOptions (userKey principal : Option Bytes) : Option SignOptions :=
  let name := optionText 127 (principal.getD [])
  if h : name = [] then none
  else some ⟨optionText 255 (userKey.getD (ascii "user_key.pub")), name, optionText_ok ..,
    optionText_ok .., h⟩

/-! ## Requests -/

/-- The input of `call_tbs`, unless it gives up. -/
def tbsRequest (o : SignOptions) (serial validAfter validBefore : Nat) : Option TextBuf :=
  let b := fillText 512 [unlines 10 [o.userKeyFile, decimal64 serial, o.principal,
    decimal64 validAfter, decimal64 validBefore]]
  if b.off = 0 ∨ b.off ≥ 512 then none else some b

/-- The size of `agg_in`. -/
def aggregateMax : Nat := maxPayload * maxSigners * 3

def aggregateRequest (a : AggregateInput) : TextBuf :=
  fillText aggregateMax (hexFile a.signingPkg :: hexFile a.pubKeyPkg ::
    a.shares.map fun p => entryLine p.1 p.2)

/-- The subprocess of `roast_try_aggregate`. -/
def frostAggregate (a : AggregateInput) : Invocation :=
  ⟨[coreBin, ascii "aggregate", ascii "--t", decimal a.t], (aggregateRequest a).text⟩

/-- What `call_mint` allocates. -/
def mintMax : Nat := maxPayload * 4

/-- The input of `call_mint`. Whether it fits is not looked at. -/
def mintRequest (m : MintInput) : TextBuf :=
  fillText mintMax [unlines 10 [m.dummyCert, bytesToHex m.sig64, bytesToHex m.tbsHex,
    bytesToHex m.pubKeyPkg]]

/-! ## What is read back -/

/-- `cmd_tbs` gets the values it was called with. -/
def TbsExact (o : SignOptions) (serial va vb : Nat) : Prop :=
  ∀ b, tbsRequest o serial va vb = some b → b.Whole ∧
    ∃ path principal, utf8 path = o.userKeyFile ∧ utf8 principal = o.principal ∧
      cmdTbs (splitLines 10 b.text) = some ⟨path, serial, principal, va, vb⟩

/-- `cmd_assemble` gets the message and the commitment of each signer. -/
def AssembleExact (b : CommitBundle) : Prop :=
  (assembleRequest b).Whole ∧ ∀ F : SigningFrost, F.Lawful → ∀ call,
    signingMain F (frostAssemble b) = some call ↔
      ∃ m, F.Collects F.commitments (b.entries.map fun e => (e.id, e.commit)) m ∧
        call = .assemble m b.tbs

/-- `cmd_aggregate`, if it is started, gets both packages and all shares of the session. -/
def AggregateExact (c : Coord) (k : Fin maxSessions) : Prop :=
  ∀ a, aggregateStdin c k = some a → (aggregateRequest a).Whole ∧
    ∀ F : SigningFrost, F.Lawful → ∀ call, signingMain F (frostAggregate a) = some call ↔
      ∃ pkg m key, F.signingPkg (c.sessions k).signingPkg = some pkg ∧
        F.Collects F.sigShare a.shares m ∧ F.pubKeyPkg c.pubKeyPkg = some key ∧
        call = .aggregate pkg m key

/-- `cmd_mint` gets the template, the signature, the TBS that was signed and the package. -/
def MintExact (c : Coord) (sig : Vector UInt8 64) : Prop :=
  let b := mintRequest ⟨c.dummyCert, sig.toList, c.tbsHex, c.pubKeyPkg⟩
  b.Whole ∧ ∃ cert, utf8 cert = c.dummyCert ∧
    cmdMint (splitLines 10 b.text) = some ⟨cert, sig.toList, toHex c.tbs, c.pubKeyPkg⟩

/-! ## What the coordinator admits -/

/-- A line of `tbs`, cut at its end, in `g_dummy_cert`. -/
structure TemplateLine (line : Bytes) : Prop where
  fits : line.length < maxPayload
  plain : ∀ b ∈ line, b ≠ 0 ∧ b ≠ 10 ∧ b ≠ 13

/-- What the options, a `HELLO` and `call_tbs` leave. -/
structure Limits (c : Coord) : Prop where
  threshold : c.t < 65536
  serial : c.serial < 2 ^ 64
  template : TemplateLine c.dummyCert

structure Admitted (c : Coord) : Prop extends Limits c where
  signers : IdList c.signers
  sess : SessIds c
  stored : Stored c
  tbs : c.tbs.length ≤ maxPayload

variable {c : Coord} {o : SignOptions} {va vb : Nat} {k : Fin maxSessions}

/-! ## Reached states are admitted -/

theorem length_takeLine (n : Nat) (bs : Bytes) : (takeLine n bs).1.length ≤ n := by
  induction n generalizing bs with
  | zero => exact Nat.le_refl 0
  | succ n ih =>
    cases bs with
    | nil => exact Nat.zero_le _
    | cons b bs =>
      unfold takeLine
      split
      · exact Nat.succ_le_succ (Nat.zero_le n)
      · exact Nat.succ_le_succ (ih bs)

/-- The line `fgets` puts into `g_dummy_cert`, after `strcspn`. -/
theorem templateLine_fgets {text line rest : Bytes}
    (h : fgets maxPayload text = some (line, rest)) :
    TemplateLine (cutEnd line) := by
  unfold fgets at h
  split at h
  · cases h
  have hline : line = (takeLine (maxPayload - 1) text).1 :=
    (congrArg Prod.fst (Option.some.inj h)).symm
  constructor
  · have hlen := length_takeLine (maxPayload - 1) text
    have h1 : (cutEnd line).length ≤ (cstr line).length := (List.takeWhile_sublist _).length_le
    have h2 : (cstr line).length ≤ line.length := (List.takeWhile_sublist _).length_le
    rw [hline] at h1 h2 ⊢
    unfold maxPayload at *
    omega
  · intro b hb
    have hcut := List.mem_takeWhile_imp hb
    simp only [Bool.and_eq_true, decide_eq_true_eq] at hcut
    refine ⟨fun hz => ?_, hcut.2, hcut.1⟩
    rw [hz] at hb
    exact zero_not_mem_cstr line ((List.takeWhile_sublist _).subset hb)

/-- Every template that `call_tbs` reads is such a line. -/
def TbsResult.Fits : TbsResult → Prop
  | .noTemplate => True
  | .template d | .badHex d _ | .ok d _ => TemplateLine d

def Event.Fits : Event → Prop
  | .loopHead env => ∀ serial va vb, (env.callTbs serial va vb).Fits
  | _ => True

theorem prepareTbs_limits (h : Limits c) {env : TbsEnv} (he : (askTbs c env).Fits) :
    Limits (prepareTbs c env).1 := by
  have withTemplate {d : Bytes} (hd : TemplateLine d) {c' : Coord} (ht : c'.t = c.t)
      (hs : c'.serial = c.serial) (hd' : c'.dummyCert = d) : Limits c' :=
    ⟨ht ▸ h.threshold, hs ▸ h.serial, hd' ▸ hd⟩
  unfold prepareTbs patchAndClear
  split
  · exact h
  · next d e =>
    rw [e] at he
    exact withTemplate he rfl rfl rfl
  · next d p e =>
    rw [e] at he
    exact withTemplate he rfl rfl rfl
  · next d tbs e =>
    rw [e] at he
    split
    · exact withTemplate he rfl rfl rfl
    split
    · exact withTemplate he rfl rfl rfl
    split <;> exact withTemplate he rfl rfl rfl

theorem Limits.congr {c' : Coord} (h : Limits c) (ht : c'.t = c.t) (hs : c'.serial = c.serial)
    (hd : c'.dummyCert = c.dummyCert) : Limits c' :=
  ⟨ht ▸ h.threshold, hs ▸ h.serial, hd ▸ h.template⟩

theorem Limits.loopHead (h : Limits c) {env : TbsEnv}
    (he : ∀ serial va vb, (env.callTbs serial va vb).Fits) : Limits (loopHead c env) := by
  have hexit : Limits (exitIfQuiet c) := by
    unfold exitIfQuiet
    split
    · exact h.congr rfl rfl rfl
    · exact h
  unfold Coordinator.loopHead
  split
  · exact hexit
  split
  · split
    · have hnext : Limits (advanceSerial c) :=
        ⟨h.threshold, Nat.mod_lt _ (by decide), h.template⟩
      obtain ⟨_, e⟩ := broadcastSignReq_sgOnly (resume (prepareTbs (advanceSerial c) env).1)
      unfold nextMint
      rw [e]
      exact (prepareTbs_limits hnext (he ..)).congr rfl rfl rfl
    · exact hexit
  split
  · exact hexit
  · exact h

/-- **One event** keeps within the limits. -/
theorem Limits.step (h : Limits c) {e : Event} (he : e.Fits) : Limits (step c e) := by
  have roast {c' : Coord} (hr : RoastOnly c c') : Limits c' := by
    obtain ⟨_, _, _, _, _, _, _, _, _, _, rfl⟩ := hr
    exact h.congr rfl rfl rfl
  unfold Coordinator.step
  split; · exact h
  cases e with
  | loopHead env => exact h.loopHead he
  | expire now env =>
    dsimp only
    split
    · exact roast (roastExpireSessions_roastOnly c now env)
    · exact h
  | hello env payload =>
    dsimp only
    rcases onHello_cases c env payload with e | ⟨pid, pn, pt, hp, -, hnt⟩
    · rw [e]
      exact h
    · have hclaim : Limits { c with n := pn, t := pt } := by
        have := parseHello_some hp
        unfold maxSigners at this
        exact ⟨show pt < 65536 by omega, h.serial, h.template⟩
      rcases hnt with e | ⟨-, e, -⟩
      · rw [e]
        exact hclaim
      · obtain ⟨_, _, hflow⟩ := promote_flowOnly { c with n := pn, t := pt } pid
        rw [e, hflow]
        exact hclaim.congr rfl rfl rfl
  | drain i =>
    dsimp only
    split
    · exact h.congr rfl rfl rfl
    · exact h
  | disconnect i =>
    dsimp only
    split
    · exact h.congr rfl rfl rfl
    · exact h
  | frame i f env =>
    dsimp only
    split
    · cases hs : MsgType.signing f.type with
      | true => exact roast (processSignerFrame_roastOnly c env i f hs)
      | false =>
        obtain ⟨_, _, _, _, _, _, e⟩ := processSignerFrame_ceremonyOnly c env i f hs
        rw [e]
        exact h.congr rfl rfl rfl
    · exact h

theorem Started.limits (h : Started c) (ht : TemplateLine c.dummyCert) : Limits c := by
  cases h with
  | dkg _ _ _ _ _ _ _ ht' hs => exact ⟨ht', hs, ht⟩
  | refresh _ _ _ _ _ _ _ ht' hs => exact ⟨ht', hs, ht⟩
  | sign n t serial secs toMint file env _ ht' hs _ _ hp =>
    have hfst :
        (prepareTbs (Coord.boot .sign n t serial secs toMint file (some file)) env).1 = c := by
      rw [hp]
    refine ⟨?_, ?_, ht⟩ <;> rw [← hfst] <;>
      obtain ⟨d, tbs, hex, e | e⟩ :=
        prepareTbs_cases (Coord.boot .sign n t serial secs toMint file (some file)) env
    · rw [e]; exact ht'
    · rw [e]; exact ht'
    · rw [e]; exact hs
    · rw [e]; exact hs

/-- **Every state reached** is admitted. -/
theorem run_admitted (h0 : Started c) (hp : c.pubKeyPkg.length ≤ maxPayload)
    (ht : TemplateLine c.dummyCert) (es : List Event)
    (hes : ∀ e ∈ es, (e.Received ∧ e.Decodes) ∧ e.Fits) : Admitted (run step c es) := by
  have hlimits : Limits (run step c es) :=
    Along.invariant (C := fun _ e => Event.Fits e) (I := Limits) (fun _ _ h he => h.step he)
      (h0.limits ht) (Along.of_mem fun e he _ => (hes e he).2)
  have hbars : Bars (run step c es) := run_invariant (I := Bars) (fun _ e hb => hb.step e) h0.bars
  have hfounded : Founded (run step c es) :=
    run_invariant (I := Founded) (fun _ e hf => hf.step e) h0.founded
  exact ⟨hlimits, hbars.signers, hbars.sess, run_stored h0 hp fun e he => (hes e he).1,
    hfounded.fits⟩

/-! ## `tbs` -/

/-- The five lines of the request. -/
def tbsLines (o : SignOptions) (serial va vb : Nat) : List Bytes :=
  [o.userKeyFile, decimal64 serial, o.principal, decimal64 va, decimal64 vb]

theorem tbsLines_fit (o : SignOptions) (serial va vb : Nat) :
    (unlines 10 (tbsLines o serial va vb)).length < 512 := by
  have h1 := o.userKeyFile_ok.fits
  have h2 := o.principal_ok.fits
  have hdec (n : Nat) : (decimal64 n).length ≤ 20 := decimalAux_length 20 n
  have hs := hdec serial
  have ha := hdec va
  have hb := hdec vb
  unfold tbsLines
  simp only [length_unlines, List.map_cons, List.map_nil, List.sum_cons, List.sum_nil]
  omega

theorem tbsRequest_eq (o : SignOptions) (serial va vb : Nat) : tbsRequest o serial va vb =
    some ⟨unlines 10 (tbsLines o serial va vb), (unlines 10 (tbsLines o serial va vb)).length⟩ := by
  have hfit := tbsLines_fit o serial va vb
  have hne : (unlines 10 (tbsLines o serial va vb)).length ≠ 0 := by
    unfold tbsLines
    simp only [length_unlines, List.map_cons, List.sum_cons]
    omega
  have hflat : [unlines 10 (tbsLines o serial va vb)].flatten =
      unlines 10 (tbsLines o serial va vb) := List.append_nil _
  have hfill : fillText 512 [unlines 10 (tbsLines o serial va vb)] = ⟨_, _⟩ :=
    fillText_eq (hflat.symm ▸ hfit)
  rw [hflat] at hfill
  unfold tbsRequest
  dsimp only
  rw [tbsLines] at hfill hne hfit
  rw [hfill, if_neg (by dsimp only; omega)]
  rfl

theorem tbsExact_iff {serial : Nat} (hs : serial < 2 ^ 64) (ha : va < 2 ^ 64) (hb : vb < 2 ^ 64) :
    TbsExact o serial va vb ↔ LineText o.userKeyFile ∧ LineText o.principal := by
  unfold TbsExact
  rw [tbsRequest_eq]
  constructor
  · intro h
    obtain ⟨-, path, principal, hp, hq, hread⟩ := h _ rfl
    rw [← hp, ← hq]
    exact cmdTbs_text sep_not_mem_line hread
  · rintro ⟨hp, hq⟩ b hb'
    cases hb'
    have hlines : ∀ l ∈ tbsLines o serial va vb, 10 ∉ l := by
      unfold tbsLines
      simp only [List.forall_mem_cons]
      exact ⟨hp.unbroken, decimalAux_unbroken, hq.unbroken, decimalAux_unbroken,
        decimalAux_unbroken, List.forall_mem_nil _⟩
    obtain ⟨path, hpath, -, htp⟩ := hp
    obtain ⟨principal, hprincipal, -, htq⟩ := hq
    refine ⟨rfl, path, principal, hpath, hprincipal, ?_⟩
    rw [splitLines_unlines hlines, tbsLines, ← hpath, ← hprincipal]
    exact cmdTbs_lines htp htq hs ha hb

/-! ## `assemble` -/

/-- The commitments by their senders. -/
def commitsOf (b : CommitBundle) : List (Nat × Bytes) := b.entries.map fun e => (e.id, e.commit)

theorem commitsOf_entries (h : Admitted c) {b : CommitBundle}
    (hb : buildBundle c (chooseSigners c) = some b) : Entries (commitsOf b) := by
  have hchosen : IdList (chooseSigners c) :=
    ⟨chooseSigners_nodup c h.signers.distinct, fun id hid =>
      h.signers.range id (mem_chooseSigners c hid).1⟩
  have hsmall := buildBundle_small hb
  have hids : (commitsOf b).map Prod.fst = chooseSigners c := by
    rw [(buildBundle_some hb).2]
    simp only [commitsOf, List.map_map]
    exact List.map_id _
  refine ⟨?_, hids ▸ hchosen.distinct, fun p hp => ?_, fun p hp => ?_⟩
  · rw [← List.length_map (f := Prod.fst), hids]
    exact hchosen.length_le
  · exact hchosen.range p.1 (hids ▸ List.mem_map_of_mem hp)
  · obtain ⟨e, he, rfl⟩ := List.mem_map.mp hp
    have hmax := hsmall e he
    rw [(buildBundle_some hb).2] at he
    obtain ⟨id, hid, rfl⟩ := List.mem_map.mp he
    have hpos : 0 < (c.sg id).commit.length := by
      rcases (mem_chooseSigners c hid).2 with hok | hok
      · simp only [reliable, Bool.and_eq_true, decide_eq_true_eq] at hok
        exact hok.1.2
      · simp only [suspected, Bool.and_eq_true, decide_eq_true_eq] at hok
        exact hok.1.1.2
    unfold commitEntryMax at hmax
    unfold Blob maxPayload
    dsimp only at hmax ⊢
    omega

/-- The request is printed whole. -/
theorem assembleRequest_eq (h : Admitted c) {b : CommitBundle}
    (hb : buildBundle c (chooseSigners c) = some b) : (assembleRequest b).Whole ∧
      frostAssemble b = ⟨[coreBin, ascii "assemble"],
        unlines 10 (bytesToHex c.tbs :: decimal (commitsOf b).length ::
          peerLines (commitsOf b))⟩ := by
  have htbs : b.tbs = c.tbs := by rw [(buildBundle_some hb).2]
  have hmap : (b.entries.map fun e => entryLine e.id e.commit) =
      (commitsOf b).map fun p => entryLine p.1 p.2 := by
    unfold commitsOf
    rw [List.map_map]
    rfl
  have hcount : b.entries.length = (commitsOf b).length := (List.length_map ..).symm
  have hflat : ((bytesToHex b.tbs ++ 10 :: (decimal b.entries.length ++ [10])) ::
      b.entries.map fun e => entryLine e.id e.commit).flatten =
        unlines 10 (bytesToHex c.tbs :: decimal (commitsOf b).length ::
          peerLines (commitsOf b)) := by
    rw [List.flatten_cons, hmap, entryLines_flatten, htbs, hcount, unlines_cons, unlines_cons]
    simp only [List.append_assoc, List.cons_append, List.nil_append]
  have hfit : ((bytesToHex b.tbs ++ 10 :: (decimal b.entries.length ++ [10])) ::
      b.entries.map fun e => entryLine e.id e.commit).flatten.length < assembleMax := by
    have hlen : ∀ p ∈ commitsOf b, p.2.length ≤ commitEntryMax := by
      intro p hp
      obtain ⟨e, he, rfl⟩ := List.mem_map.mp hp
      exact buildBundle_small hb e he
    have hentries := length_entryLines hlen
    have hmax := (commitsOf_entries h hb).count
    have hdec := decimal_length b.entries.length
    have htbs' := h.tbs
    rw [List.flatten_cons, hmap, htbs]
    simp only [List.length_append, List.length_cons, List.length_nil, length_bytesToHex]
    unfold assembleMax commitEntryMax maxPayload maxSigners at *
    omega
  refine ⟨fillText_whole hfit, ?_⟩
  unfold frostAssemble assembleRequest
  rw [fillText_eq hfit, hflat]

theorem assembleExact_iff (h : Admitted c) {b : CommitBundle}
    (hb : buildBundle c (chooseSigners c) = some b) : AssembleExact b ↔ c.tbs ≠ [] := by
  have hentries := commitsOf_entries h hb
  obtain ⟨hwhole, hinv⟩ := assembleRequest_eq h hb
  have htbs : b.tbs = c.tbs := by rw [(buildBundle_some hb).2]
  unfold AssembleExact
  rw [hinv, htbs]
  constructor
  · rintro ⟨-, hread⟩ hempty
    obtain ⟨m, hm⟩ := plainSigning_collects hentries
    have hcall := (hread plainSigning plainFrost_lawful (.assemble m c.tbs)).mpr ⟨m, hm, rfl⟩
    rw [hempty] at hcall
    cases hcall
  · intro hne
    have hmsg : Blob c.tbs := ⟨List.length_pos_iff.mpr hne, h.tbs⟩
    exact ⟨hwhole, fun F hF call => assemble_read hF hentries hmsg call⟩

/-! ## `aggregate` -/

/-- The share in slot `i`, if there is one. -/
def slotShare (s : RoastSession) (i : Nat) : Option (Nat × Bytes) :=
  if (s.shares i).length = 0 then none else (s.signerIds[i]?).map fun id => (id, s.shares i)

theorem slotShare_some {s : RoastSession} {i : Nat} {p : Nat × Bytes} (h : slotShare s i = some p) :
    s.signerIds[i]? = some p.1 ∧ p.2 = s.shares i ∧ (s.shares i).length ≠ 0 := by
  unfold slotShare at h
  split at h
  · cases h
  · next hlen =>
    obtain ⟨id, hid, rfl⟩ := Option.map_eq_some_iff.mp h
    exact ⟨hid, rfl, hlen⟩

theorem aggregateInput_shares (c : Coord) (s : RoastSession) : (aggregateInput c s).shares =
    (List.range s.signerIds.length).filterMap (slotShare s) := rfl

theorem shares_length (c : Coord) (s : RoastSession) :
    (aggregateInput c s).shares.length = s.filled := by
  rw [aggregateInput_shares, List.length_filterMap_eq_countP]
  refine List.countP_congr fun i hi => ?_
  have hlt := List.mem_range.mp hi
  unfold slotShare
  rw [List.getElem?_eq_getElem hlt]
  by_cases hlen : (s.shares i).length = 0
  · simp [hlen]
  · rw [if_neg hlen]
    simp
    omega

theorem shares_entries (h : Admitted c) (hk : (c.sessions k).state = .awaitingShares) :
    Entries (aggregateInput c (c.sessions k)).shares := by
  have hids := h.sess k hk
  have hstored := (h.stored.session k).shares
  have hmem {p : Nat × Bytes} (hp : p ∈ (aggregateInput c (c.sessions k)).shares) :
      ∃ i, slotShare (c.sessions k) i = some p := by
    obtain ⟨i, -, hi⟩ := List.mem_filterMap.mp hp
    exact ⟨i, hi⟩
  refine ⟨?_, ?_, fun p hp => ?_, fun p hp => ?_⟩
  · have hle : (aggregateInput c (c.sessions k)).shares.length ≤
        (c.sessions k).signerIds.length := by
      have := List.length_filterMap_le (slotShare (c.sessions k))
        (List.range (c.sessions k).signerIds.length)
      rwa [List.length_range] at this
    exact hle.trans hids.length_le
  · refine List.pairwise_map.mpr (List.Pairwise.filterMap _ ?_ List.nodup_range)
    intro i j hij p hp q hq e
    obtain ⟨hp, -, -⟩ := slotShare_some hp
    obtain ⟨hq, -, -⟩ := slotShare_some hq
    obtain ⟨hlt, -⟩ := List.getElem?_eq_some_iff.mp hp
    exact hij ((List.getElem?_inj hlt hids.distinct).mp (by rw [hp, hq, e]))
  · obtain ⟨i, hi⟩ := hmem hp
    exact hids.range p.1 (List.mem_of_getElem? (slotShare_some hi).1)
  · obtain ⟨i, hi⟩ := hmem hp
    obtain ⟨-, e, hne⟩ := slotShare_some hi
    have hmax := hstored i
    unfold Blob
    rw [e]
    omega

theorem aggregateRequest_eq (h : Admitted c) (hk : (c.sessions k).state = .awaitingShares) :
    (aggregateRequest (aggregateInput c (c.sessions k))).Whole ∧
      frostAggregate (aggregateInput c (c.sessions k)) =
        ⟨[coreBin, ascii "aggregate", ascii "--t", decimal c.t],
          unlines 10 (bytesToHex (c.sessions k).signingPkg :: bytesToHex c.pubKeyPkg ::
            peerLines (aggregateInput c (c.sessions k)).shares)⟩ := by
  have hentries := shares_entries h hk
  generalize hsh : (aggregateInput c (c.sessions k)).shares = l at hentries
  have hflat : (hexFile (c.sessions k).signingPkg :: hexFile c.pubKeyPkg ::
      l.map fun p => entryLine p.1 p.2).flatten =
        unlines 10 (bytesToHex (c.sessions k).signingPkg :: bytesToHex c.pubKeyPkg ::
          peerLines l) := by
    rw [List.flatten_cons, List.flatten_cons, entryLines_flatten, unlines_cons, unlines_cons]
    unfold hexFile
    simp only [List.append_assoc, List.cons_append, List.nil_append]
  have hfit : (hexFile (c.sessions k).signingPkg :: hexFile c.pubKeyPkg ::
      l.map fun p => entryLine p.1 p.2).flatten.length < aggregateMax := by
    have hlen := length_entryLines fun p hp => (hentries.sizes p hp).2
    have hmax := hentries.count
    have hs := (h.stored.session k).signingPkg
    have hp := h.stored.pubKeyPkg
    simp only [List.flatten_cons, List.length_append, length_hexFile]
    unfold aggregateMax maxPayload maxSigners at *
    omega
  have hreq : aggregateRequest (aggregateInput c (c.sessions k)) = fillText aggregateMax
      (hexFile (c.sessions k).signingPkg :: hexFile c.pubKeyPkg ::
        l.map fun p => entryLine p.1 p.2) := by
    rw [← hsh]
    rfl
  unfold frostAggregate
  rw [hreq]
  refine ⟨fillText_whole hfit, ?_⟩
  rw [fillText_eq hfit, hflat]
  rfl

theorem aggregateStdin_some {a : AggregateInput} : aggregateStdin c k = some a ↔
    (c.t ≤ (c.sessions k).nShares ∧ c.signingDone = false) ∧
      aggregateInput c (c.sessions k) = a := by
  unfold aggregateStdin
  by_cases hstop : ((c.sessions k).nShares < c.t || c.signingDone) = true
  · rw [if_pos hstop]
    rw [Bool.or_eq_true, decide_eq_true_eq] at hstop
    constructor
    · intro e
      cases e
    · rintro ⟨⟨h1, h2⟩, -⟩
      rcases hstop with hlt | hdone
      · omega
      · rw [h2] at hdone
        cases hdone
  · rw [if_neg hstop]
    rw [Bool.or_eq_true, decide_eq_true_eq, not_or, Bool.not_eq_true] at hstop
    rw [Option.some.injEq]
    exact ⟨fun e => ⟨⟨by omega, hstop.2⟩, e⟩, fun e => e.2⟩

theorem aggregateExact_iff (h : Admitted c) (hk : (c.sessions k).state = .awaitingShares) :
    AggregateExact c k ↔ (c.t ≤ (c.sessions k).nShares → c.signingDone = false →
      (c.sessions k).filled = c.t) := by
  have hentries := shares_entries h hk
  obtain ⟨hwhole, hinv⟩ := aggregateRequest_eq h hk
  have hfilled := shares_length c (c.sessions k)
  constructor
  · intro hex hn hd
    obtain ⟨-, hread⟩ := hex _ (aggregateStdin_some.mpr ⟨⟨hn, hd⟩, rfl⟩)
    rw [hinv] at hread
    obtain ⟨m, hm⟩ := plainSigning_collects hentries
    have hcall := (hread plainSigning plainFrost_lawful
      (.aggregate (c.sessions k).signingPkg m c.pubKeyPkg)).mpr ⟨_, m, _, rfl, hm, rfl, rfl⟩
    rw [signingMain_aggregate h.threshold] at hcall
    rcases Nat.lt_or_ge (c.sessions k).filled c.t with hlt | hge
    · rw [cmdAggregate_short (hfilled ▸ hlt)] at hcall
      cases hcall
    · obtain ⟨pkg, m', key, hpkg, hm', hkey, e⟩ :=
        (cmdAggregate_iff plainFrost_lawful hentries (hfilled ▸ hge) _).mp hcall
      cases e
      have hle := hentries.length_le plainFrost_lawful hm hm'
      rw [List.length_take] at hle
      omega
  · intro hfull a ha
    obtain ⟨⟨hn, hd⟩, rfl⟩ := aggregateStdin_some.mp ha
    have hlen : (aggregateInput c (c.sessions k)).shares.length = c.t := hfilled.trans (hfull hn hd)
    refine ⟨hwhole, fun F hF call => ?_⟩
    rw [hinv, signingMain_aggregate h.threshold, cmdAggregate_iff hF hentries hlen.ge, ← hlen,
      List.take_length]

/-! ## `mint` -/

/-- The length of the text `call_mint` prints. -/
def mintLength (c : Coord) : Nat :=
  c.dummyCert.length + 2 * c.tbsHex.length + 2 * c.pubKeyPkg.length + 132

theorem mintExact_iff (h : Admitted c) (sig : Vector UInt8 64) : MintExact c sig ↔
    LineText c.dummyCert ∧ c.tbsHex = c.tbs ∧ mintLength c < mintMax := by
  have hbreak : 10 ∉ c.dummyCert := fun hm => (h.template.plain 10 hm).2.1 rfl
  have hlines : ∀ l ∈ [c.dummyCert, bytesToHex sig.toList, bytesToHex c.tbsHex,
      bytesToHex c.pubKeyPkg], 10 ∉ l := by
    simp only [List.forall_mem_cons]
    exact ⟨hbreak, bytesToHex_unbroken _, bytesToHex_unbroken _, bytesToHex_unbroken _,
      List.forall_mem_nil _⟩
  have hlen : (unlines 10 [c.dummyCert, bytesToHex sig.toList, bytesToHex c.tbsHex,
      bytesToHex c.pubKeyPkg]).length = mintLength c := by
    simp only [length_unlines, List.map_cons, List.map_nil, List.sum_cons, List.sum_nil,
      length_bytesToHex, Vector.length_toList]
    unfold mintLength
    omega
  have hwhole : (mintRequest ⟨c.dummyCert, sig.toList, c.tbsHex, c.pubKeyPkg⟩).Whole ↔
      mintLength c < mintMax := by
    rw [← hlen]
    exact fillText_one_whole (by decide) _
  have htext (hfit : mintLength c < mintMax) :
      splitLines 10 (mintRequest ⟨c.dummyCert, sig.toList, c.tbsHex, c.pubKeyPkg⟩).text =
        [c.dummyCert, bytesToHex sig.toList, bytesToHex c.tbsHex, bytesToHex c.pubKeyPkg] := by
    have hflat : (unlines 10 [c.dummyCert, bytesToHex sig.toList, bytesToHex c.tbsHex,
        bytesToHex c.pubKeyPkg] ++ []).length < mintMax := by
      rw [List.append_nil, hlen]
      exact hfit
    unfold mintRequest
    rw [fillText_eq hflat]
    dsimp only
    rw [List.flatten_singleton, splitLines_unlines hlines]
  unfold MintExact
  dsimp only
  rw [hwhole]
  constructor
  · rintro ⟨hfit, cert, hcert, hread⟩
    rw [htext hfit] at hread
    obtain ⟨hline, htbs⟩ := cmdMint_text hbreak hread
    rw [hcert] at hline
    exact ⟨hline, (toHex_inj htbs).symm, hfit⟩
  · rintro ⟨⟨cert, hcert, -, htrim⟩, htbs, hfit⟩
    refine ⟨hfit, cert, hcert, ?_⟩
    rw [htext hfit, ← hcert, htbs]
    exact cmdMint_lines htrim

/-! ## The four together -/

/-- **What the core reads.** The request for the TBS comes back if its two strings do from lines of
their own, the one for a signing package if there is a TBS, the one for a signature if the session
has as many shares as are counted, and the one for the certificate if its template comes back,
`g_tbs_hex` belongs to `g_tbs` and all of it fits the buffer. -/
theorem requests_read_back (h : Admitted c) (o : SignOptions) (ha : va < 2 ^ 64)
    (hb : vb < 2 ^ 64) (sig : Vector UInt8 64) :
    (TbsExact o c.serial va vb ↔ LineText o.userKeyFile ∧ LineText o.principal) ∧
    (∀ b, buildBundle c (chooseSigners c) = some b → (AssembleExact b ↔ c.tbs ≠ [])) ∧
    (∀ k, (c.sessions k).state = .awaitingShares → (AggregateExact c k ↔
      (c.t ≤ (c.sessions k).nShares → c.signingDone = false → (c.sessions k).filled = c.t))) ∧
    (MintExact c sig ↔ LineText c.dummyCert ∧ c.tbsHex = c.tbs ∧ mintLength c < mintMax) :=
  ⟨tbsExact_iff h.serial ha hb, fun _ => assembleExact_iff h, fun _ => aggregateExact_iff h,
    mintExact_iff h sig⟩

/-! ## A certificate request that is too long -/

theorem prepareTbs_ok (c : Coord) {d tbs : Bytes} (key : Vector UInt8 32) (h32 : 32 ≤ tbs.length)
    (hmax : tbs.length ≤ maxPayload) : prepareTbs c ⟨0, fun _ _ _ => .ok d tbs, some key⟩ =
      ({ c with
        dummyCert := d, tbs := patchTbs tbs key, tbsHex := patchTbs tbs key,
        sessions := fun _ => RoastSession.zero }, true) := by
  unfold prepareTbs askTbs patchAndClear
  dsimp only
  rw [if_neg (by omega), if_neg (by omega)]

/-- A coordinator in sign mode with this key package, template and TBS. -/
def readyStart (pkg d tbs : Bytes) (key : Vector UInt8 32) : Coord :=
  { Coord.boot .sign 2 2 1 86400 1 pkg (some pkg) with
    dummyCert := d
    tbs := patchTbs tbs key
    tbsHex := patchTbs tbs key }

section Ready

variable {pkg d tbs : Bytes} {key : Vector UInt8 32} (h32 : 32 ≤ tbs.length)

include h32

theorem readyStart_started (hp : pkg ≠ []) (hmax : tbs.length ≤ maxPayload) :
    Started (readyStart pkg d tbs key) :=
  .sign 2 2 1 86400 1 pkg ⟨0, fun _ _ _ => .ok d tbs, some key⟩ (by decide) (by decide)
    (by decide) (by decide) hp
    (prepareTbs_ok _ key h32 hmax)

theorem readyStart_admitted (hp : pkg ≠ []) (hpkg : pkg.length ≤ maxPayload)
    (hmax : tbs.length ≤ maxPayload) (hd : TemplateLine d) : Admitted (readyStart pkg d tbs key) :=
  run_admitted (readyStart_started h32 hp hmax) hpkg hd [] (List.forall_mem_nil _)

theorem mintLength_readyStart : mintLength (readyStart pkg d tbs key) =
    d.length + 2 * tbs.length + 2 * pkg.length + 132 := by
  show d.length + 2 * (patchTbs tbs key).length + 2 * pkg.length + 132 = _
  rw [patchTbs_length h32]

end Ready

/-- The longest key package, with a template and a TBS that leave room for a session of two. -/
def longStart : Coord :=
  readyStart (List.replicate maxPayload 1) (List.replicate 20000 65) (List.replicate 14000 0)
    (Vector.replicate 32 0)

/-- `call_mint` hands over more bytes than it has printed. -/
theorem mint_request_overrun : Admitted longStart ∧
    ¬ MintExact longStart (Vector.replicate 64 0) := by
  have htbs : (List.replicate 14000 (0 : UInt8)).length = 14000 := List.length_replicate
  have hd : (List.replicate 20000 (65 : UInt8)).length = 20000 := List.length_replicate
  have hpkg : (List.replicate maxPayload (1 : UInt8)).length = maxPayload := List.length_replicate
  have hmax : maxPayload = 24000 := rfl
  have hline : TemplateLine (List.replicate 20000 65) := by
    refine ⟨by omega, fun b hb => ?_⟩
    rw [List.eq_of_mem_replicate hb]
    decide
  have hne : List.replicate maxPayload (1 : UInt8) ≠ [] := List.length_pos_iff.mp (by omega)
  have hadmitted : Admitted longStart :=
    readyStart_admitted (by omega) hne (by omega) (by omega) hline
  refine ⟨hadmitted, fun hexact => ?_⟩
  obtain ⟨-, -, hfit⟩ := (mintExact_iff hadmitted _).mp hexact
  unfold longStart at hfit
  rw [mintLength_readyStart (by omega), hd, htbs, hpkg] at hfit
  exact absurd hfit (by decide)

/-! ## A short one -/

theorem lineText_plain {bs : Bytes} (h : (bs.all fun b => b.toNat < 128) = true)
    (ht : trim bs = bs) (hn : 10 ∉ bs) : LineText bs := by
  have hlow : ∀ b ∈ bs, b.toNat < 128 := fun b hb => by simpa using List.all_eq_true.mp h b hb
  obtain ⟨s, rfl, hs, -⟩ := plain_text hlow ht
  exact ⟨s, rfl, fun hm => hn (newline_mem_utf8.mpr hm), hs⟩

def shortOptions : SignOptions where
  userKeyFile := ascii "user_key.pub"
  principal := ascii "root"
  userKeyFile_ok := ⟨by decide, by decide⟩
  principal_ok := ⟨by decide, by decide⟩
  named := by decide

example : signOptions none (some (ascii "root")) = some shortOptions := rfl

/-- A template, a TBS of 40 bytes and a package, as `call_tbs` left them. -/
def shortStart : Coord :=
  readyStart [1] (ascii "ssh-ed25519-cert") (List.replicate 40 7) (Vector.replicate 32 9)

/-- A frame with a payload of one byte, as it arrives. -/
def arrives (type : MsgType) (b : UInt8) : Nat → UInt8
  | 0 => type.code
  | 2 => 1
  | 3 => 1
  | 261 => b
  | _ => 0

/-- Both signers commit, and `assemble` is refused. -/
def refusedRun : List Event :=
  [joins 1 2 2, joins 2 2 2, sends 1 .commit [1],
    .frame 2 ⟨.commit, List.replicate frameSigSize 0, [2]⟩
      { quietEnv with assemble := fun _ => none }]

/-- Both members of a session answer, and `aggregate` cannot be started. -/
def unheardRun : List Event :=
  openingRun ++ [sends 1 .sigShare [8], .frame 2 ⟨.sigShare, List.replicate frameSigSize 0, [9]⟩
    { quietEnv with aggregate := fun _ => .notRun }]

theorem shortStart_admitted {es : List Event}
    (hes : ∀ e ∈ es, (e.Received ∧ e.Decodes) ∧ e.Fits) : Admitted (run step shortStart es) := by
  have hlong : 32 ≤ (List.replicate 40 (7 : UInt8)).length := by decide
  exact run_admitted (readyStart_started hlong (by decide) (by decide)) (by decide)
    ⟨by decide, by decide +kernel⟩ es hes

theorem sends_admitted {type : MsgType} {b : UInt8} {env : Env} {id : Nat} (henv : env.Decodes)
    (h : acceptFrame (arrives type b) 262 = some ⟨type, List.replicate frameSigSize 0, [b]⟩) :
    let e : Event := .frame id ⟨type, List.replicate frameSigSize 0, [b]⟩ env
    (e.Received ∧ e.Decodes) ∧ e.Fits :=
  ⟨⟨⟨_, 262, by decide, h⟩, henv⟩, trivial⟩

theorem quietEnv_decodes : quietEnv.Decodes := fun _ spkg h => by
  cases h
  exact Nat.zero_le _

/-- The bundle of two that was refused, the request for the two shares, and a certificate request
with a template. -/
theorem requests_read_back_short :
    let c := run step shortStart refusedRun
    let d := run step shortStart unheardRun
    TbsExact shortOptions c.serial 0 3600 ∧
      (∃ b, buildBundle c (chooseSigners c) = some b ∧ b.entries.length = 2 ∧ AssembleExact b) ∧
      ((aggregateStdin d firstSlot).map fun a => a.shares.length) = some 2 ∧
      AggregateExact d firstSlot ∧ MintExact c (Vector.replicate 64 0) := by
  have hc : Admitted (run step shortStart refusedRun) := by
    refine shortStart_admitted fun e he => ?_
    simp only [refusedRun, List.mem_cons, List.not_mem_nil, or_false] at he
    rcases he with rfl | rfl | rfl | rfl
    · exact ⟨⟨trivial, trivial⟩, trivial⟩
    · exact ⟨⟨trivial, trivial⟩, trivial⟩
    · exact sends_admitted quietEnv_decodes (by decide +kernel)
    · exact sends_admitted (fun _ _ h => nomatch h) (by decide +kernel)
  have hd : Admitted (run step shortStart unheardRun) := by
    refine shortStart_admitted fun e he => ?_
    simp only [unheardRun, openingRun, List.cons_append, List.nil_append, List.mem_cons,
      List.not_mem_nil, or_false] at he
    rcases he with rfl | rfl | rfl | rfl | rfl | rfl
    · exact ⟨⟨trivial, trivial⟩, trivial⟩
    · exact ⟨⟨trivial, trivial⟩, trivial⟩
    · exact sends_admitted quietEnv_decodes (by decide +kernel)
    · exact sends_admitted quietEnv_decodes (by decide +kernel)
    · exact sends_admitted quietEnv_decodes (by decide +kernel)
    · exact sends_admitted (fun b spkg h => quietEnv_decodes b spkg h) (by decide +kernel)
  obtain ⟨htbs, hassemble, -, hmint⟩ := requests_read_back hc shortOptions
    (show 0 < 2 ^ 64 by decide) (show 3600 < 2 ^ 64 by decide) (Vector.replicate 64 0)
  obtain ⟨-, -, haggregate, -⟩ := requests_read_back hd shortOptions
    (show 0 < 2 ^ 64 by decide) (show 3600 < 2 ^ 64 by decide) (Vector.replicate 64 0)
  have hbundle : ((buildBundle (run step shortStart refusedRun)
      (chooseSigners (run step shortStart refusedRun))).map fun b => b.entries.length) =
        some 2 := by decide +kernel
  obtain ⟨b, hb, htwo⟩ := Option.map_eq_some_iff.mp hbundle
  refine ⟨htbs.mpr ⟨lineText_plain (by decide) (by decide) (by decide),
      lineText_plain (by decide) (by decide) (by decide)⟩,
    ⟨b, hb, htwo, (hassemble b hb).mpr (by decide +kernel)⟩, by decide +kernel,
    (haggregate firstSlot (by decide +kernel)).mpr (by decide +kernel), hmint.mpr ⟨?_, ?_, ?_⟩⟩
  · exact lineText_plain (by decide +kernel) (by decide +kernel) (by decide +kernel)
  · decide +kernel
  · decide +kernel

end FrostSshCa.Coordinator
