import FrostSshCa.Coordinator.Warrant
import FrostSshCa.Coordinator.Outbox
import FrostSshCa.Issue.Calls

/-!
# Every certificate is valid

From the options to the certificate file: each file holds a certificate of the user key and
the principal that were given, with the serial of the file, signed with the key of the
package over exactly the bytes that are to be signed.
-/

namespace FrostSshCa.Issue

open Lib FrostSshCa.Core Stubs Coordinator

/-! ## How a certificate comes -/

/-- The request in hand and the certificates written. -/
def handView (c : Coord) : Nat × Nat × OutputFile × Bytes × Bytes × List (OutputFile × Bytes) :=
  (c.validitySecs, c.serial, c.outputFile, c.dummyCert, c.tbs, c.certs)

/-- An event away from the head of the loop writes nothing, or the certificate of a session
that has got its signature. -/
inductive Writes (c : Coord) : Event → Coord → Prop where
  | same {e : Event} {d : Coord} (h : handView d = handView c) : Writes c e d
  | written {i : Nat} {f : Frame} {env : Coordinator.Env} {k : Fin maxSessions} {slot : Nat}
      {bytes cert : Bytes} {d : Coord} (htgt : ShareTarget c i f k slot)
      (hsig : answerOf (fileShare c k slot i f.payload) env k = .sig bytes)
      (hlen : bytes.length = 64)
      (hmint : env.mint ⟨c.dummyCert, bytes, c.tbsHex, c.pubKeyPkg⟩ = some cert)
      (h : handView d = (c.validitySecs, c.serial, c.outputFile, c.dummyCert, c.tbs,
        c.certs ++ [(c.outputFile, cert)])) : Writes c (.frame i f env) d

section Writes

variable {c c' : Coord} {env : Coordinator.Env} {k : Fin maxSessions}

theorem recOnly_hand (h : RecOnly c c') : handView c' = handView c := by
  obtain ⟨_, _, _, rfl⟩ := h
  rfl

theorem tryForm_hand (c : Coord) (env : Coordinator.Env) :
    handView (tryForm c env) = handView c := by
  rcases tryForm_cases c env with e | ⟨k, spkg, wire, -, e⟩
  · rw [e]
  · rw [e, recOnly_hand (openSession_sgOnly c k (chooseSigners c) spkg wire env.now).recOnly]
    rfl

theorem expireSlot_hand (c : Coord) (now : Nat) (env : Coordinator.Env) (k : Fin maxSessions) :
    handView (expireSlot c now env k) = handView c := by
  unfold expireSlot
  split; · rfl
  split; · rfl
  rw [tryForm_hand, recOnly_hand (expireMembers_recOnly c k)]
  rfl

theorem blacklistSession_hand (c : Coord) (k : Fin maxSessions) :
    handView (blacklistSession c k) = handView c := by
  have h : handView (blacklistMembers c k) = handView c :=
    (recOnly_hand (blacklistMembers_recOnly c k)).trans rfl
  unfold blacklistSession
  dsimp only
  rw [recOnly_hand (broadcastSignReq_sgOnly _).recOnly, ← h]
  split <;> rfl

theorem roastFailCulprit_hand (c : Coord) (env : Coordinator.Env) (k : Fin maxSessions)
    (culprit : Nat) : handView (roastFailCulprit c env k culprit) = handView c := by
  show handView (tryForm (culpritReset c k culprit) env) = _
  rw [tryForm_hand, recOnly_hand (culpritReset_recOnly c k culprit)]
  rfl

theorem aggregateOk_none {bytes : Bytes} (k : Fin maxSessions)
    (h : env.mint ⟨c.dummyCert, bytes, c.tbsHex, c.pubKeyPkg⟩ = none) :
    handView (aggregateOk c env k bytes) = handView c := by
  have hcall : Coordinator.callMint (finishSession c k) env bytes = none := congrArg _ h
  unfold aggregateOk
  rw [hcall]
  rfl

theorem aggregateOk_some {bytes cert : Bytes} (k : Fin maxSessions)
    (h : env.mint ⟨c.dummyCert, bytes, c.tbsHex, c.pubKeyPkg⟩ = some cert) :
    handView (aggregateOk c env k bytes) = (c.validitySecs, c.serial, c.outputFile, c.dummyCert,
      c.tbs, c.certs ++ [(c.outputFile, cert)]) := by
  have hcall : Coordinator.callMint (finishSession c k) env bytes =
      some (countCert (finishSession c k) cert) := congrArg _ h
  unfold aggregateOk
  rw [hcall]
  exact recOnly_hand (broadcast_sgOnly ..).recOnly

/-- What the answer of `aggregate` leads to. -/
theorem onAggregate_writes {i slot : Nat} {f : Frame} (htgt : ShareTarget c i f k slot)
    {r : AggregateResult} (hr : answerOf (fileShare c k slot i f.payload) env k = r) :
    Writes c (.frame i f env) (onAggregate (fileShare c k slot i f.payload) env k r) := by
  have hfile : handView (fileShare c k slot i f.payload) = handView c := rfl
  cases r with
  | notRun => exact .same rfl
  | sig bytes =>
    dsimp only [onAggregate]
    split
    · exact .same ((blacklistSession_hand ..).trans hfile)
    next hlen =>
    cases hm : env.mint ⟨c.dummyCert, bytes, c.tbsHex, c.pubKeyPkg⟩ with
    | none =>
      refine .same (Eq.trans (aggregateOk_none k ?_) hfile)
      exact hm
    | some cert => exact .written htgt hr (not_not.mp hlen) hm (aggregateOk_some k hm)
  | culprit id =>
    dsimp only [onAggregate]
    split
    · exact .same ((roastFailCulprit_hand ..).trans hfile)
    · exact .same ((blacklistSession_hand ..).trans hfile)
  | failed => exact .same ((blacklistSession_hand ..).trans hfile)

theorem onSigShare_writes (c : Coord) (env : Coordinator.Env) (i : Nat) (f : Frame) :
    Writes c (.frame i f env) (onSigShare c env i f) := by
  unfold onSigShare
  cases hst : shareTarget c i f with
  | none => exact .same rfl
  | some p =>
    obtain ⟨k, slot⟩ := p
    dsimp only
    split
    · unfold roastTryAggregate
      cases hin : aggregateStdin (fileShare c k slot i f.payload) k with
      | none => exact .same rfl
      | some stdin =>
        have hstdin : stdin = aggregateInput (fileShare c k slot i f.payload)
            ((fileShare c k slot i f.payload).sessions k) := by
          unfold aggregateStdin at hin
          split at hin
          · cases hin
          · exact (Option.some.inj hin).symm
        subst hstdin
        exact onAggregate_writes (shareTarget_some c hst) rfl
    · exact .same rfl

theorem frame_writes (hx : c.exited = false) {i : Nat} (hi : i ∈ c.signers) (f : Frame)
    (env : Coordinator.Env) : Writes c (.frame i f env) (step c (.frame i f env)) := by
  have hstep : step c (.frame i f env) = processSignerFrame c env i f :=
    step_frame_of_mem hx hi f env
  cases hs : MsgType.signing f.type with
  | false =>
    obtain ⟨_, _, _, _, _, _, e⟩ := processSignerFrame_ceremonyOnly c env i f hs
    rw [hstep, e]
    exact .same rfl
  | true =>
    cases e : f.type with
    | commit =>
      rw [hstep]
      unfold processSignerFrame
      rw [e]
      dsimp only
      rcases onCommit_cases c env i f with e' | ⟨-, e'⟩
      · rw [e']
        exact .same rfl
      · rw [e']
        exact .same (tryForm_hand ..)
    | sigShare =>
      rw [hstep]
      unfold processSignerFrame
      rw [e]
      exact onSigShare_writes c env i f
    | shareLoadFail =>
      rw [hstep]
      unfold processSignerFrame
      rw [e]
      exact .same rfl
    | _ => rw [e] at hs; cases hs

theorem step_writes (c : Coord) {e : Event} (he : ∀ env, e ≠ .loopHead env) :
    Writes c e (step c e) := by
  cases hx : c.exited with
  | true =>
    rw [step_exited hx]
    exact .same rfl
  | false =>
    cases e with
    | loopHead env => exact absurd rfl (he env)
    | expire now env =>
      rw [step_expire hx]
      split
      · exact .same (foldl_frame handView (fun d k _ => expireSlot_hand d now (env k) k) c)
      · exact .same rfl
    | hello env payload =>
      rw [step_hello hx]
      rcases onHello_taken c env payload with e | ⟨pid, pn, pt, -, -, e | ⟨-, e⟩⟩
      · rw [e]
        exact .same rfl
      · rw [e]
        exact .same rfl
      · obtain ⟨_, _, hshape⟩ := promote_flowOnly { c with n := pn, t := pt } pid
        rw [e, hshape]
        exact .same rfl
    | drain i =>
      rw [step_drain hx]
      split <;> exact .same rfl
    | disconnect i =>
      rw [step_disconnect hx]
      split <;> exact .same rfl
    | frame i f env =>
      by_cases hi : i ∈ c.signers
      · exact frame_writes hx hi f env
      · rw [step_frame hx, if_neg hi]
        exact .same rfl

end Writes

/-! ## What a certificate must be -/

variable (F : IssuingFrost) (S : SshKey)

/-- The bytes of a certificate for the given options, valid from `now`, with the verifying
key of the package and a signature of this key over what is to be signed. -/
structure ValidCert (o : SignOptions) (secs : Nat) (pkg : Bytes) (serial now : Nat)
    (bytes : Bytes) : Prop where
  cert : ∃ text cert pub path principal, utf8 text = bytes ∧ S.parse text = some cert ∧
    F.pubKeyPkg pkg = some pub ∧ F.verifyingKey pub = some (S.signatureKey cert) ∧
    F.verifies (S.signatureKey cert) (S.toBeSigned (S.fields cert) (S.signatureKey cert))
      (S.signature cert) ∧
    utf8 path = o.userKeyFile ∧ utf8 principal = o.principal ∧
    Asked S ⟨path, serial, principal, now, validBefore secs now⟩ (S.fields cert)

variable {F S} {core : Invocation → Option Child} {o : SignOptions} {secs : Nat}
  {pkg d raw : Bytes} {serial va vb : Nat}

/-- With the CA's key in place, the TBS is that of the template under this key. -/
theorem patchTbs_toBeSigned (hS : S.Lawful) (f : Fields S.Subject) (old key : Key) :
    patchTbs (S.toBeSigned f old) key = S.toBeSigned f key := by
  obtain ⟨front, hfront⟩ := hS.keyLast f
  unfold patchTbs
  rw [hfront old, hfront key, List.length_append, Vector.length_toList, Nat.add_sub_cancel,
    List.take_left]

/-- **From the calls to the certificate**: what `mint` makes of a template, its TBS with the
key of the package, and a signature of a package for this TBS. -/
theorem valid_of_calls (hR : Runs F S core) (hS : S.Lawful) (hF : F.Sound)
    {now : Nat} (hd : Template S o serial now (validBefore secs now) d raw) {key : Key}
    (hkey : callPubkey core pkg = some key)
    {b : CommitBundle} (hb : b.tbs = patchTbs raw key) (hmax : b.tbs.length ≤ maxPayload)
    {a : AggregateInput} (hasm : callAssemble core b = some a.signingPkg)
    (hpkg : a.pubKeyPkg = pkg) (hfit : pkg.length ≤ maxPayload) (ht : a.t < 65536) {sig : Bytes}
    (hsig : callAggregate core a = .sig sig) {m : MintInput} (hm : m.dummyCert = d)
    (hmsig : m.sig64 = sig) (hmpkg : m.pubKeyPkg = pkg) (hsize : mintSize m < mintMax)
    {writable : Bool} {cert : Bytes} (hcert : callMint core writable m = some cert)
    (hroom : cert.length + 1 < maxPayload) : ValidCert F S o secs pkg serial now cert := by
  obtain ⟨nonce, eph, path, principal, dummy, text, hpath, hprincipal, htbs, hopen, hutf⟩ :=
    hd.made
  obtain ⟨hasked, hraw⟩ := tbsCert_asked hS htbs
  obtain ⟨pub, hpub, hver⟩ := callPubkey_some hR hkey
  obtain ⟨⟨commits, hbytes⟩, hlen⟩ := callAssemble_some hR hmax hasm
  obtain ⟨spkg, shares, pub', hspkg, hpub', hagg⟩ :=
    callAggregate_sig hR ht hlen (hpkg ▸ hfit) hsig
  rw [hpkg, hpub] at hpub'
  cases hpub'
  rw [hF.package hbytes] at hspkg
  cases hspkg
  have hverified : F.verifies key b.tbs sig := hF.message commits b.tbs ▸ hF.verified hagg hver
  obtain ⟨pub'', key', minted, out, hpub'', hver', hminted, hout, hbs⟩ :=
    callMint_some hR hS (hS.oneLine hopen) (hutf.trans hm.symm) hsize hcert hroom
  rw [hmpkg, hpub] at hpub''
  cases hpub''
  rw [hver] at hver'
  cases hver'
  have hparse : S.parse (trimStr text) = some dummy := by
    rw [(hS.oneLine hopen).trimmed.trimStr]
    exact hS.parse hopen
  obtain ⟨hfields, hsigned, hsignature⟩ := mintCert_fields hS hparse hminted
  refine ⟨out, minted, pub, path, principal, hbs, hS.parse hout, hpub, ?_, ?_, hpath,
    hprincipal, ?_⟩
  · rw [hsigned]
    exact hver
  · rw [hsigned, hsignature, hfields, hmsig, ← patchTbs_toBeSigned hS _ eph.key, ← hraw, ← hb]
    exact hverified
  · rw [hfields]
    exact hasked

/-! ## Along a run -/

/-- The calls of `roast_try_form_session` and `roast_try_aggregate` go to the subprocess. -/
structure Answers (core : Invocation → Option Child) (env : Coordinator.Env) : Prop where
  assemble : env.assemble = callAssemble core
  aggregate : env.aggregate = callAggregate core
  mint : ∃ writable, env.mint = callMint core writable

/-- And those of `prepare_tbs`; the template leaves room in its buffer. -/
structure AnswersTbs (core : Invocation → Option Child) (o : SignOptions) (c : Coord)
    (env : TbsEnv) : Prop where
  clock : env.now < 2 ^ 64
  tbs : env.callTbs = callTbs core o
  caKey : env.caKey = callPubkey core c.pubKeyPkg
  room : ∀ d raw, askTbs c env = .ok d raw → d.length + 1 < maxPayload

/-- `call_mint` has room for its request and for the certificate. -/
structure MintRoom (c : Coord) (env : Coordinator.Env) : Prop where
  request : mintLength c < mintMax
  cert : ∀ bytes cert, env.mint ⟨c.dummyCert, bytes, c.tbsHex, c.pubKeyPkg⟩ = some cert →
    cert.length + 1 < maxPayload

def Served (core : Invocation → Option Child) (o : SignOptions) (c : Coord) : Event → Prop
  | .loopHead env => AnswersTbs core o (advanceSerial c) env
  | .frame _ _ env => Answers core env ∧ MintRoom c env
  | .expire _ env => ∀ k, Answers core (env k)
  | _ => True

/-- The key package stays, and a restart gets what it asks for. -/
structure Supplied (core : Invocation → Option Child) (o : SignOptions) (pkg : Bytes) (c : Coord)
    (e : Event) : Prop where
  served : Served core o c e
  clean : RestartsClean c e
  package : c.pubKeyPkg = pkg

/-- What the subprocesses answer. -/
def coreGiven (core : Invocation → Option Child) : Given where
  template := fun _ _ _ _ _ => True
  caKey := fun _ => True
  assembled := fun b spkg => callAssemble core b = some spkg
  aggregated := fun a sig => callAggregate core a = .sig sig
  minted := fun _ _ => True
  sent := fun _ _ => True

theorem Answers.given {env : Coordinator.Env} (h : Answers core env) :
    (coreGiven core).Env env :=
  ⟨fun b _ e => (congrFun h.assemble b).symm.trans e,
    fun a _ e => (congrFun h.aggregate a).symm.trans e, fun _ _ _ => trivial⟩

theorem Served.given {c : Coord} {e : Event} (h : Served core o c e) :
    (coreGiven core).Event e := by
  refine ⟨fun _ _ => ⟨fun _ _ _ _ _ _ => trivial, fun _ _ => trivial⟩, ?_, fun _ _ _ _ _ => trivial⟩
  cases e with
  | frame i f env => exact h.1.given
  | expire now env => exact fun k => (h k).given
  | _ => trivial

/-- The serial of the certificate in a file. -/
def fileSerial (s₀ : Nat) : OutputFile → Nat
  | .option => s₀
  | .serial k => k

/-- The loop is about to begin the next certificate. -/
def Restarting (c : Coord) : Prop :=
  c.exited = false ∧ c.roastFail = false ∧ (c.signingDone = true ∧ c.mode = .sign) ∧ c.toMint > 0

/-- The serials `prepare_tbs` runs for along a run, and when: the first before the loop,
each other in a restart. -/
inductive PreparedAt (s₀ now₀ : Nat) (c₀ : Coord) (es : List Event) : Nat → Nat → Prop where
  | start : PreparedAt s₀ now₀ c₀ es s₀ now₀
  | restart (pre : List Event) (env : TbsEnv) (post : List Event)
      (he : es = pre ++ .loopHead env :: post) (hr : Restarting (run Coordinator.step c₀ pre)) :
      PreparedAt s₀ now₀ c₀ es (advanceSerial (run Coordinator.step c₀ pre)).serial env.now

variable (F S core o secs pkg)

/-- What is assumed of the program and the libraries, of the options and of the package. -/
structure Setup : Prop where
  runs : Runs F S core
  lawful : S.Lawful
  sound : F.Sound
  userKey : LineText o.userKeyFile
  principal : LineText o.principal
  package : pkg.length ≤ maxPayload

/-- A certificate for the serial, valid from the time at which `prepare_tbs` ran for it. -/
def Valid (P : Nat → Nat → Prop) (serial : Nat) (bytes : Bytes) : Prop :=
  ∃ now, P serial now ∧ ValidCert F S o secs pkg serial now bytes

/-- The TBS in hand is that of the template under the CA's key, the template is for the
serial of the file and the time at which it was asked for, and what has been written is
valid. -/
structure Issuing (P : Nat → Nat → Prop) (s₀ : Nat) (c : Coord) : Prop where
  hand : ∃ now raw key, P c.serial now ∧
    Template S o c.serial now (validBefore secs now) c.dummyCert raw ∧
    callPubkey core pkg = some key ∧ c.tbs = patchTbs raw key
  file : fileSerial s₀ c.outputFile = c.serial
  serial : c.serial < 2 ^ 64
  validity : c.validitySecs = secs
  certs : ∀ q ∈ c.certs, Valid F S o secs pkg P (fileSerial s₀ q.1) q.2

/-- The coordinator of sign mode after its first `prepare_tbs`, at `now₀`. -/
structure Opened (s₀ now₀ : Nat) (c₀ : Coord) : Prop where
  started : ∃ n t toMint env, n < 65536 ∧ t < 65536 ∧ s₀ < 2 ^ 64 ∧ toMint < 2 ^ 64 ∧ pkg ≠ [] ∧
    AnswersTbs core o (Coord.boot .sign n t s₀ secs toMint pkg (some pkg)) env ∧
    env.now = now₀ ∧
      prepareTbs (Coord.boot .sign n t s₀ secs toMint pkg (some pkg)) env = (c₀, true)

variable {F S core o secs pkg} {P : Nat → Nat → Prop} {s₀ now₀ : Nat} {c c' : Coord}

theorem Template.tbs_length (hS : S.Lawful) (h : Template S o serial va vb d raw) (key : Key) :
    (patchTbs raw key).length ≤ maxPayload := by
  obtain ⟨_, eph, _, _, dummy, _, -, -, htbs, -⟩ := h.made
  obtain ⟨front, hfront⟩ := hS.keyLast (S.fields dummy)
  have hraw : raw = front ++ eph.key.toList := (tbsCert_asked hS htbs).2.trans (hfront eph.key)
  have h32 : 32 ≤ raw.length := by
    rw [hraw, List.length_append, Vector.length_toList]
    omega
  rw [patchTbs_length h32]
  exact h.fits

/-- The request in hand stays, and what is written is valid. -/
theorem Issuing.update (h : Issuing F S core o secs pkg P s₀ c) {certs : List (OutputFile × Bytes)}
    (hv : handView c' = (c.validitySecs, c.serial, c.outputFile, c.dummyCert, c.tbs, certs))
    (hcerts : ∀ q ∈ certs, Valid F S o secs pkg P (fileSerial s₀ q.1) q.2) :
    Issuing F S core o secs pkg P s₀ c' := by
  simp only [handView, Prod.mk.injEq] at hv
  obtain ⟨h0, h1, h2, h3, h4, rfl⟩ := hv
  refine ⟨?_, ?_, ?_, h0.trans h.validity, hcerts⟩
  · rw [h1, h3, h4]
    exact h.hand
  · rw [h1, h2]
    exact h.file
  · rw [h1]
    exact h.serial

theorem Issuing.congr (h : Issuing F S core o secs pkg P s₀ c) (hv : handView c' = handView c) :
    Issuing F S core o secs pkg P s₀ c' := h.update hv h.certs

/-- A request that is prepared. -/
theorem Issuing.prepared (hU : Setup F S core o pkg)
    (hfile : fileSerial s₀ c.outputFile = c.serial) (hserial : c.serial < 2 ^ 64)
    (hsecs : c.validitySecs = secs)
    (hcerts : ∀ q ∈ c.certs, Valid F S o secs pkg P (fileSerial s₀ q.1) q.2)
    (hpkg : c.pubKeyPkg = pkg) {env : TbsEnv} (hP : P c.serial env.now)
    (he : AnswersTbs core o c env) (h : (prepareTbs c env).2 = true) :
    Issuing F S core o secs pkg P s₀ (prepareTbs c env).1 := by
  obtain ⟨d, raw, key, hcall, hkey, e⟩ := prepareTbs_true h
  have hbefore : validBefore secs env.now < 2 ^ 64 := Nat.mod_lt _ (by decide)
  have hasked : callTbs core o c.serial env.now (validBefore secs env.now) = .ok d raw := by
    rw [← he.tbs, ← hsecs]
    exact hcall
  have htemplate : Template S o c.serial env.now (validBefore secs env.now) d raw :=
    callTbs_ok hU.runs hU.lawful hU.userKey hU.principal hserial he.clock hbefore hasked
      (he.room d raw hcall)
  have hca : callPubkey core pkg = some key := by
    rw [← hpkg, ← he.caKey]
    exact hkey
  rw [e]
  exact ⟨⟨env.now, raw, key, hP, htemplate, hca, rfl⟩, hfile, hserial, hsecs, hcerts⟩

theorem Issuing.head (hU : Setup F S core o pkg) (h : Issuing F S core o secs pkg P s₀ c)
    (hx : c.exited = false) {env : TbsEnv} (he : Supplied core o pkg c (.loopHead env))
    (hP : Restarting c → P (advanceSerial c).serial env.now) :
    Issuing F S core o secs pkg P s₀ (loopHead c env) := by
  have hexit : Issuing F S core o secs pkg P s₀ (exitIfQuiet c) := by
    unfold exitIfQuiet
    split
    · exact h.congr rfl
    · exact h
  unfold loopHead
  split; · exact hexit
  next hf =>
  split
  · next hd =>
    split
    · next hmint =>
      have hok : (prepareTbs (advanceSerial c) env).2 = true :=
        he.clean (by simpa using hf) hd.1 hmint
      have hserved : AnswersTbs core o (advanceSerial c) env := he.served
      have hasked : P (advanceSerial c).serial env.now := hP ⟨hx, by simpa using hf, hd, hmint⟩
      have hserial : (advanceSerial c).serial < 2 ^ 64 := Nat.mod_lt _ (by decide)
      have hfile : fileSerial s₀ (advanceSerial c).outputFile = (advanceSerial c).serial := rfl
      have hnext : Issuing F S core o secs pkg P s₀ (prepareTbs (advanceSerial c) env).1 :=
        Issuing.prepared hU hfile hserial h.validity h.certs he.package hasked hserved hok
      unfold nextMint
      refine Issuing.congr ?_ (recOnly_hand (broadcastSignReq_sgOnly _).recOnly)
      exact hnext.congr rfl
    · exact hexit
  split
  · exact hexit
  · exact h

/-- A certificate is written for the request in hand. -/
theorem Issuing.written (hU : Setup F S core o pkg) (h : Issuing F S core o secs pkg P s₀ c)
    {g : History} (hw : Warranted (coreGiven core) (fun _ _ _ => True) (c, g)) {i slot : Nat}
    {f : Frame} {env : Coordinator.Env} {k : Fin maxSessions} {bytes cert : Bytes}
    (htgt : ShareTarget c i f k slot)
    (hsig : answerOf (fileShare c k slot i f.payload) env k = .sig bytes)
    (hlen : bytes.length = 64)
    (hmint : env.mint ⟨c.dummyCert, bytes, c.tbsHex, c.pubKeyPkg⟩ = some cert)
    (he : Supplied core o pkg c (.frame i f env)) :
    Valid F S o secs pkg P c.serial cert := by
  obtain ⟨hans, hroom⟩ := he.served
  obtain ⟨writable, hcall⟩ := hans.mint
  obtain ⟨now, raw, key, hasked, htemplate, hkey, htbs⟩ := h.hand
  -- the session the share is filed in came from a bundle for the TBS in hand
  have hopen : ((fileShare c k slot i f.payload).sessions k).state = .awaitingShares := by
    rw [fileShare_session]
    exact htgt.open'
  obtain ⟨b, -, hseal⟩ := (hw.fileShare htgt fun _ _ => trivial).session k hopen
  have hb : b.tbs = patchTbs raw key := hseal.message.trans htbs
  have hmax : b.tbs.length ≤ maxPayload := hb ▸ htemplate.tbs_length hU.lawful key
  have hsize : mintSize ⟨c.dummyCert, bytes, c.tbsHex, c.pubKeyPkg⟩ < mintMax := by
    have hreq := hroom.request
    unfold mintLength at hreq
    unfold mintSize
    dsimp only
    omega
  have hasm : callAssemble core b = some (aggregateInput (fileShare c k slot i f.payload)
      ((fileShare c k slot i f.payload).sessions k)).signingPkg := hseal.package
  have hagg : callAggregate core (aggregateInput (fileShare c k slot i f.payload)
      ((fileShare c k slot i f.payload).sessions k)) = .sig bytes := by
    rw [← hans.aggregate]
    exact hsig
  exact ⟨now, hasked, valid_of_calls hU.runs hU.lawful hU.sound htemplate hkey hb hmax hasm
    he.package hU.package hw.small hagg rfl rfl he.package hsize (hcall ▸ hmint)
    (hroom.cert bytes cert hmint)⟩

/-- **Every step keeps the request in hand and the certificates.** -/
theorem Issuing.step (hU : Setup F S core o pkg) (h : Issuing F S core o secs pkg P s₀ c)
    {g : History} (hw : Warranted (coreGiven core) (fun _ _ _ => True) (c, g)) {e : Event}
    (he : Supplied core o pkg c e)
    (hP : ∀ env, e = .loopHead env → Restarting c → P (advanceSerial c).serial env.now) :
    Issuing F S core o secs pkg P s₀ (step c e) := by
  by_cases hl : ∃ env, e = .loopHead env
  · obtain ⟨env, rfl⟩ := hl
    cases hx : c.exited with
    | true =>
      rw [step_exited hx]
      exact h
    | false =>
      rw [step_loopHead hx]
      exact h.head hU hx he (hP env rfl)
  · cases step_writes c fun env e' => hl ⟨env, e'⟩ with
    | same hv => exact h.congr hv
    | written htgt hsig hlen hmint hv =>
      have hvalid := h.written hU hw htgt hsig hlen hmint he
      refine h.update hv fun q hq => ?_
      rcases List.mem_append.mp hq with hq | hq
      · exact h.certs q hq
      · rw [List.mem_singleton.mp hq, h.file]
        exact hvalid

theorem Opened.launched {c₀ : Coord} (h : Opened core o secs pkg s₀ now₀ c₀) :
    Launched (coreGiven core) c₀ := by
  obtain ⟨n, t, toMint, env, hn, ht, hs, hm, hne, -, -, hprep⟩ := h.started
  have hgiven : (coreGiven core).Tbs env := ⟨fun _ _ _ _ _ _ => trivial, fun _ _ => trivial⟩
  exact ⟨n, t, s₀, secs, toMint, pkg, env, hn, ht, hs, hm, hne, hgiven, hprep⟩

theorem Opened.issuing (hU : Setup F S core o pkg) {c₀ : Coord}
    (h : Opened core o secs pkg s₀ now₀ c₀) (hP : P s₀ now₀) :
    Issuing F S core o secs pkg P s₀ c₀ := by
  obtain ⟨n, t, toMint, env, -, -, hs, -, -, henv, hnow, hprep⟩ := h.started
  have hnone : ∀ q ∈ (Coord.boot .sign n t s₀ secs toMint pkg (some pkg)).certs,
      Valid F S o secs pkg P (fileSerial s₀ q.1) q.2 := by
    intro q hq
    cases hq
  have hstart : Issuing F S core o secs pkg P s₀
      (prepareTbs (Coord.boot .sign n t s₀ secs toMint pkg (some pkg)) env).1 :=
    Issuing.prepared hU rfl hs rfl hnone rfl (hnow ▸ hP) henv (congrArg Prod.snd hprep)
  rwa [hprep] at hstart

/-- **Every certificate is valid.** In every run of sign mode whose subprocesses are the
program, whose restarts get what they ask for and whose buffers have room, whatever the
signers send: each file that is written holds a certificate for the user key and the
principal of the options, with the serial of the file, valid for the seconds asked for from
the time at which `prepare_tbs` ran for that serial, that carries the verifying key of the
package and a signature of this key over exactly the bytes to be signed. -/
theorem certificates_valid (hU : Setup F S core o pkg) {c₀ : Coord}
    (h₀ : Opened core o secs pkg s₀ now₀ c₀) {es : List Event}
    (hes : Along Coordinator.step (Supplied core o pkg) c₀ es) :
    ∀ q ∈ (run Coordinator.step c₀ es).certs,
      Valid F S o secs pkg (PreparedAt s₀ now₀ c₀ es) (fileSerial s₀ q.1) q.2 := by
  have hall : Along traceStep (fun p e => Supplied core o pkg p.1 e) (c₀, fun _ => none) es :=
    (along_map (C := Supplied core o pkg) traceStep_fst _ es).mpr hes
  have hstate (es : List Event) : (run traceStep (c₀, fun _ => none) es).1 =
      run Coordinator.step c₀ es := run_map traceStep_fst _ es
  have hinv := hall.positions.invariant (I := fun p => (Signing p.1 ∧ Unclaimed p.1) ∧
      Warranted (coreGiven core) (fun _ _ _ => True) p ∧
      Issuing F S core o secs pkg (PreparedAt s₀ now₀ c₀ es) s₀ p.1)
    (fun p e hi ⟨hc, pre, post, he, hp⟩ => ⟨⟨hi.1.1.step e, hi.1.2.step hi.1.1 e⟩,
      hi.2.1.step hi.1.1 hi.1.2 hc.served.given hc.clean fun _ _ _ _ _ _ _ _ _ _ _ => trivial,
      hi.2.2.step hU hi.2.1 hc fun env hl hr => by
        rw [hp, hstate] at hr ⊢
        exact .restart pre env post (hl ▸ he) hr⟩)
    ⟨⟨h₀.launched.signing, h₀.launched.unclaimed⟩, h₀.launched.warranted, h₀.issuing hU .start⟩
  rw [← hstate]
  exact hinv.2.2.certs

/-! ## A run with two certificates -/

def toyEphemeral : Ephemeral := ⟨Vector.replicate 32 0, fun _ => []⟩

def toyKey : Key := Vector.replicate 32 7

def toySig : Bytes := List.replicate 64 1

def toyFields (serial now : Nat) : Fields Unit where
  nonce := []
  subject := ()
  validAfter := now
  validBefore := now + 3600
  serial := serial
  keyId := "frost-ca".toList
  certType := .user
  validPrincipals := ["root".toList]
  extensions := userExtensions.foldl SortedMap.insert .empty
  criticalOptions := .empty
  comment := []

abbrev ToyCert := Fields Unit × Key × Bytes

def toyTemplate (serial now : Nat) : ToyCert := (toyFields serial now, toyEphemeral.key, [])

def toyMinted (serial now : Nat) : ToyCert := (toyFields serial now, toyKey, toySig)

/-- The certificates that have a text, and its letter. -/
def toyLetters : List (ToyCert × Char) :=
  [(toyTemplate 1 100, 't'), (toyMinted 1 100, 'c'), (toyTemplate 2 200, 'u'),
    (toyMinted 2 200, 'd')]

def toyText (cert : ToyCert) : Option Text :=
  (toyLetters.find? fun p => p.1 = cert).map fun p => [p.2]

def toyParse (s : Text) : Option ToyCert :=
  (toyLetters.find? fun p => [p.2] = s).map Prod.fst

/-- A certificate is its fields, its key and its signature. -/
def toySsh : SshKey where
  Subject := Unit
  Builder := Fields Unit
  Cert := ToyCert
  readOpensshFile := fun _ => some ()
  new := fun nonce subject va vb => some (.new nonce subject va vb)
  serial := fun n b => some { b with serial := n }
  keyId := fun s b => some { b with keyId := s }
  certType := fun t b => some { b with certType := t }
  validPrincipal := fun s b => some { b with validPrincipals := b.validPrincipals ++ [s] }
  extension := fun e b => some { b with extensions := b.extensions.insert e }
  criticalOption := fun e b => some { b with criticalOptions := b.criticalOptions.insert e }
  comment := fun s b => some { b with comment := s }
  sign := fun b key => some (key.toList, fun sig => some (b, key, sig))
  toOpenssh := toyText
  parse := toyParse
  fields := fun cert => cert.1
  signatureKey := fun cert => cert.2.1
  signature := fun cert => cert.2.2
  toBeSigned := fun _ key => key.toList
  view := id

theorem toyText_some {cert : ToyCert} {s : Text} (h : toyText cert = some s) :
    ∃ p ∈ toyLetters, p.1 = cert ∧ [p.2] = s := by
  obtain ⟨p, hp, hs⟩ := Option.map_eq_some_iff.mp h
  have hcert := List.find?_some hp
  exact ⟨p, List.mem_of_find?_eq_some hp, of_decide_eq_true hcert, hs⟩

theorem oneLine_letter {ch : Char} (hw : isWhitespace ch = false)
    (h : ch ≠ '\x00' ∧ ch ≠ '\n' ∧ ch ≠ '\r') : OneLine [ch] where
  trimmed := ⟨fun _ e => Option.some.inj e ▸ hw, fun _ e => Option.some.inj e ▸ hw⟩
  nonempty := nofun
  plain := fun _ hx => List.mem_singleton.mp hx ▸ h

theorem toySsh_lawful : toySsh.Lawful where
  new h := (Option.some.inj h).symm
  serial h := (Option.some.inj h).symm
  keyId h := (Option.some.inj h).symm
  certType h := (Option.some.inj h).symm
  validPrincipal h := (Option.some.inj h).symm
  extension h := (Option.some.inj h).symm
  criticalOption h := (Option.some.inj h).symm
  comment h := (Option.some.inj h).symm
  message h := (congrArg Prod.fst (Option.some.inj h)).symm
  signed h h' := by
    cases h
    cases h'
    exact ⟨rfl, rfl, rfl⟩
  keyLast _ := ⟨[], fun _ => rfl⟩
  parse h := by
    obtain ⟨p, hp, rfl, rfl⟩ := toyText_some h
    have hall : ∀ p ∈ toyLetters, toyParse [p.2] = some p.1 := by decide +kernel
    exact hall p hp
  oneLine h := by
    obtain ⟨p, hp, -, rfl⟩ := toyText_some h
    have hall : ∀ p ∈ toyLetters, isWhitespace p.2 = false ∧
        p.2 ≠ '\x00' ∧ p.2 ≠ '\n' ∧ p.2 ≠ '\r' := by decide +kernel
    obtain ⟨hw, hplain⟩ := hall p hp
    exact oneLine_letter hw hplain

/-- One key, and one signature for everything. -/
def toyFrost : IssuingFrost where
  toFrost := plainFrost
  Commitments := Bytes
  SigningPkg := Bytes
  SigShare := Bytes
  commitments := some
  signingPkg := some
  sigShare := some
  newPackage := fun _ msg => msg
  packageBytes := some
  message := id
  aggregate := fun _ _ _ => .signature (some toySig)
  verifyingKey := fun _ => some toyKey
  verifies := fun key _ sig => key = toyKey ∧ sig = toySig

theorem toyFrost_sound : toyFrost.Sound where
  package h := h.symm
  message _ _ := rfl
  verified h hkey := by
    cases h
    cases hkey
    exact ⟨rfl, rfl⟩

def toyCore : Invocation → Option Child := issueMain toyFrost toySsh [] toyEphemeral

theorem toyCore_runs : Runs toyFrost toySsh toyCore := ⟨fun _ _ h => ⟨[], toyEphemeral, h⟩⟩

theorem toySetup : Setup toyFrost toySsh toyCore shortOptions [1] where
  runs := toyCore_runs
  lawful := toySsh_lawful
  sound := toyFrost_sound
  userKey := lineText_plain (by decide) (by decide) (by decide)
  principal := lineText_plain (by decide) (by decide) (by decide)
  package := by decide

def toyTbs (now : Nat) : TbsEnv where
  now := now
  callTbs := callTbs toyCore shortOptions
  caKey := callPubkey toyCore [1]

def toyEnv : Coordinator.Env where
  assemble := callAssemble toyCore
  aggregate := callAggregate toyCore
  mint := callMint toyCore true
  pubPkgWritable := true
  now := 0

/-- Two certificates are asked for; the clock shows 100. -/
def toyStart : Coord :=
  (prepareTbs (Coord.boot .sign 2 2 1 3600 2 [1] (some [1])) (toyTbs 100)).1

def toySends (i : Nat) (t : MsgType) (payload : Bytes) : Event :=
  .frame i ⟨t, List.replicate frameSigSize 0, payload⟩ toyEnv

/-- One session, one certificate. -/
def toySession : List Event :=
  [toySends 1 .commit [1], toySends 2 .commit [2], toySends 1 .sigShare [9],
    toySends 2 .sigShare [8]]

def toyFirst : List Event := [joins 1 2 2, joins 2 2 2] ++ toySession

/-- Two signers join, and sign again when the clock shows 200. -/
def toyRun : List Event := toyFirst ++ .loopHead (toyTbs 200) :: toySession

theorem toyMint_room {writable : Bool} {m : MintInput} {cert : Bytes}
    (h : callMint toyCore writable m = some cert) : cert.length + 1 < maxPayload := by
  unfold callMint at h
  obtain ⟨c, hc, h⟩ := Option.bind_eq_some_iff.mp h
  obtain ⟨⟨line, rest⟩, hg, h⟩ := Option.bind_eq_some_iff.mp h
  split at h
  swap
  · cases h
  next hok =>
  cases h
  have hchild := toyCore_runs.mint hc
  rw [hchild] at hok
  obtain ⟨minted, text, -, htext, hprint⟩ := printMint_zero hok.1
  rw [hchild, hprint] at hg
  have hletter : fgets maxPayload (println (utf8 text)) = some (utf8 text ++ [10], []) ∧
      (cutEnd (utf8 text ++ [10])).length = 1 := by
    obtain ⟨p, hp, -, rfl⟩ := toyText_some htext
    have hall : ∀ p ∈ toyLetters, fgets maxPayload (println (utf8 [p.2])) =
        some (utf8 [p.2] ++ [10], []) ∧ (cutEnd (utf8 [p.2] ++ [10])).length = 1 := by
      decide +kernel
    exact hall p hp
  cases hletter.1.symm.trans hg
  rw [hletter.2]
  decide

theorem toyFirst_supplied {c : Coord} {e : Event} (he : e ∈ toyFirst)
    (h : c.pubKeyPkg = [1] ∧ mintLength c < mintMax) : Supplied toyCore shortOptions [1] c e := by
  obtain ⟨hp, hm⟩ := h
  have joins (id n t : Nat) : Supplied toyCore shortOptions [1] c (joins id n t) :=
    ⟨trivial, trivial, hp⟩
  have sends (i : Nat) (t : MsgType) (payload : Bytes) :
      Supplied toyCore shortOptions [1] c (toySends i t payload) :=
    ⟨⟨⟨rfl, rfl, true, rfl⟩, hm, fun _ _ h => toyMint_room h⟩, trivial, hp⟩
  have hall : ∀ e ∈ toyFirst, Supplied toyCore shortOptions [1] c e := by
    unfold toyFirst toySession
    simp only [List.cons_append, List.nil_append, List.forall_mem_cons]
    exact ⟨joins _ _ _, joins _ _ _, sends _ _ _, sends _ _ _, sends _ _ _, sends _ _ _,
      List.forall_mem_nil _⟩
  exact hall e he

/-- A run of such events whose states have the key and room for the request. -/
theorem along_supplied {c : Coord} {es : List Event} (hes : ∀ e ∈ es, e ∈ toyFirst)
    (h : Along Coordinator.step (fun c _ => c.pubKeyPkg = [1] ∧ mintLength c < mintMax) c es) :
    Along Coordinator.step (Supplied toyCore shortOptions [1]) c es :=
  (h.and (Along.of_mem (C := fun _ e => e ∈ toyFirst) fun e he _ => hes e he)).mono
    fun _ _ h => toyFirst_supplied h.2 h.1

theorem toyStart_opened : Opened toyCore shortOptions 3600 [1] 1 100 toyStart where
  started := by
    have hok : callTbs toyCore shortOptions 1 100 3700 =
        .ok [116] (List.replicate 32 0) := by decide +kernel
    refine ⟨2, 2, 2, toyTbs 100, by decide, by decide, by decide, by decide, nofun, ?_, rfl, ?_⟩
    · refine ⟨by decide, rfl, rfl, fun d raw h => ?_⟩
      cases hok.symm.trans h
      decide
    · exact Prod.ext rfl (by decide +kernel)

/-- The restart gets the second template. -/
theorem toyRestart_supplied : Supplied toyCore shortOptions [1]
    (run Coordinator.step toyStart toyFirst) (.loopHead (toyTbs 200)) := by
  have hstate : let c := run Coordinator.step toyStart toyFirst
      c.pubKeyPkg = [1] ∧
        askTbs (advanceSerial c) (toyTbs 200) = .ok [117] (List.replicate 32 0) ∧
        (prepareTbs (advanceSerial c) (toyTbs 200)).2 = true := by decide +kernel
  generalize run Coordinator.step toyStart toyFirst = c at hstate ⊢
  obtain ⟨hpkg, hok, hclean⟩ := hstate
  refine ⟨⟨by decide, rfl, ?_, fun d raw h => ?_⟩, fun _ _ _ => hclean, hpkg⟩
  · show callPubkey toyCore [1] = callPubkey toyCore (advanceSerial _).pubKeyPkg
    rw [show (advanceSerial c).pubKeyPkg = [1] from hpkg]
  · cases hok.symm.trans h
    decide

theorem certificates_valid_run :
    let c := run Coordinator.step toyStart toyRun
    c.certs = [(.option, ascii "c"), (.serial 2, ascii "d")] ∧ ∀ q ∈ c.certs,
      Valid toyFrost toySsh shortOptions 3600 [1] (PreparedAt 1 100 toyStart toyRun)
        (fileSerial 1 q.1) q.2 := by
  have hes : Along Coordinator.step (Supplied toyCore shortOptions [1]) toyStart toyRun :=
    (along_append _ _ _).mpr ⟨along_supplied (fun _ he => he) (by decide +kernel),
      toyRestart_supplied,
      along_supplied (fun _ he => List.mem_append_right _ he) (by decide +kernel)⟩
  exact ⟨by decide +kernel, certificates_valid toySetup toyStart_opened hes⟩

end FrostSshCa.Issue
