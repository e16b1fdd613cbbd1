import FrostSshCa.Coordinator.State
import Mathlib.Algebra.GroupWithZero.Nat

/-!
# ROAST session management

The signing side of `frost_coordinator.c`: session formation, aggregation with
its three ways to fail (named culprit, unknown failure, expiry), and the
resets each of them makes.
-/

namespace FrostSshCa.Coordinator

variable (c : Coord)

/-! ## Strikes and the blacklist -/

def getStrikes (id : Nat) : Nat := if 1 ≤ id ∧ id ≤ maxSigners then c.strikes id else 0

def addStrike (id : Nat) : Coord :=
  if 1 ≤ id ∧ id ≤ maxSigners then
    { c with strikes := Function.update c.strikes id (c.strikes id + 1) }
  else c

def isBlacklisted (id : Nat) : Bool := id ∈ c.blacklist

def blacklistSigner (id : Nat) : Coord :=
  if c.blacklist.length ≥ maxSigners || isBlacklisted c id then c
  else { c with blacklist := c.blacklist ++ [id] }

/-! ## The session table -/

def roastAlloc : Option (Fin maxSessions) :=
  (List.finRange maxSessions).find? fun k => (c.sessions k).state = .empty

def roastActiveCount : Nat :=
  (List.finRange maxSessions).countP fun k => (c.sessions k).state = .awaitingShares

def roastFind (sid : Nat) : Option (Fin maxSessions) :=
  (List.finRange maxSessions).find? fun k => (c.sessions k).id = sid

/-- The first slot `i < n_signers` of signer `id`. -/
def roastSignerSlot (s : RoastSession) (id : Nat) : Option Nat := s.signerIds.findIdx? (· = id)

/-! ## Sign requests -/

/-- Set `sign_phase` on the record of `id`, if it is registered. -/
def setPhase (id : Nat) (p : SPhase) : Coord :=
  if id ∈ c.signers then c.setSg id fun r => { r with signPhase := p } else c

/-- Reset a record to phase `p` and re-issue `SIGN_REQ`. -/
def requestCommit (p : SPhase) (id : Nat) : Coord :=
  (c.setSg id fun r => { r with signPhase := p, commit := [], sessionId := 0 }).signerSend id
    .signReq [] c.tbs

def broadcastSignReq : Coord :=
  c.signers.foldl (fun c id =>
    if isBlacklisted c id || (c.sg id).signPhase = .noKey then c else requestCommit c .init id) c

/-- Registered signers that are neither blacklisted nor without a key. -/
def remainingSigners : Nat :=
  c.signers.countP fun id => !isBlacklisted c id && (c.sg id).signPhase ≠ .noKey

def roastDoNoEligibleRemain : Bool := remainingSigners c < c.t

/-! ## Forming a session -/

/-- One pass of the selection: walk the signer list, appending eligible ids
while fewer than `t` are chosen. -/
def selectPass (t : Nat) (ok : List Nat → Nat → Bool) : List Nat → List Nat → List Nat
  | [], chosen => chosen
  | id :: ids, chosen =>
    if chosen.length ≥ t then chosen
    else selectPass t ok ids (if ok chosen id then chosen ++ [id] else chosen)

/-- Pass 1: committed, zero strikes. -/
def reliable (id : Nat) : Bool :=
  (c.sg id).signPhase = .committed && !isBlacklisted c id && 0 < (c.sg id).commit.length &&
    getStrikes c id = 0

/-- Pass 2: committed or suspect, with strikes. -/
def suspected (id : Nat) : Bool :=
  ((c.sg id).signPhase = .committed || (c.sg id).signPhase = .suspect) &&
    0 < (c.sg id).commit.length && !isBlacklisted c id && 0 < getStrikes c id

/-- `chosen` after both passes. -/
def chooseSigners : List Nat :=
  selectPass c.t (fun chosen id => suspected c id && !chosen.contains id) c.signers
    (selectPass c.t (fun _ id => reliable c id) c.signers [])

/-- The number of list nodes pass 1 visits, the one it stops at included. -/
def numSigners : Nat → List Nat → Nat → Nat
  | _, [], _ => 0
  | t, id :: ids, chosen =>
    if chosen ≥ t then 1 else 1 + numSigners t ids (if reliable c id then chosen + 1 else chosen)

/-- The bundle relayed to the chosen signers, or `none` when a commitment does
not fit an entry. -/
def buildBundle (chosen : List Nat) : Option CommitBundle :=
  if chosen.any fun id => (c.sg id).commit.length > commitEntryMax then none
  else if c.tbs.length > maxPayload then none
  else some ⟨chosen.map fun id => ⟨id, (c.sg id).commit, (c.sg id).commitSig⟩, c.tbs⟩

/-- The record of a session formed from `chosen`. -/
def newSession (chosen : List Nat) (spkg : Bytes) (now : Nat) : RoastSession where
  id := c.nextSessionId
  state := .awaitingShares
  deadline := now + sessionTimeout
  signerIds := chosen
  signingPkg := spkg
  shares := fun _ => []
  nShares := 0

/-- Assign a chosen signer to session `sid` and relay the bundle to it. -/
def assignMember (sid : Nat) (wire : Bytes) (id : Nat) : Coord :=
  (c.setSg id fun r => { r with signPhase := .inSession, sessionId := sid }).signerSend id
    .relayCommit [] wire

/-- Fill slot `k` with the session of `chosen`, under the next session id. -/
def fillSlot (k : Fin maxSessions) (chosen : List Nat) (spkg : Bytes) (now : Nat) : Coord :=
  { c.setSession k (fun _ => newSession c chosen spkg now) with
    nextSessionId := (c.nextSessionId + 1) % 2 ^ 32 }

/-- The tail of `roast_try_form_session`, once nothing can fail. -/
def openSession (k : Fin maxSessions) (chosen : List Nat) (spkg wire : Bytes) (now : Nat) : Coord :=
  chosen.foldl (fun c' id => assignMember c' c.nextSessionId wire id) (fillSlot c k chosen spkg now)

def roastTryFormSession (env : Env) : Coord :=
  if c.signingDone then c
  else
    let chosen := chooseSigners c
    if numSigners c c.t c.signers 0 < c.t then c
    else if chosen.length < c.t then c
    else match roastAlloc c with
      | none => c
      | some k => match buildBundle c chosen with
        | none => c
        | some bundle => match env.assemble bundle with
          | none => c
          | some spkg => match packCommitBundle commitBundleWireMax bundle with
            | none => c
            | some wire =>
              if wire.length > maxPayload then c else openSession c k chosen spkg wire env.now

/-- Every caller guards the attempt with the same test. -/
def tryForm (env : Env) : Coord :=
  if !c.signingDone && roastActiveCount c < maxSessions then roastTryFormSession c env else c

/-! ## Named culprit -/

def Coord.closeSession (k : Fin maxSessions) (st : RSessState) : Coord :=
  c.setSession k fun s => { s with state := st }

/-- `roast_fail_culprit` up to the formation attempt: fail the session,
blacklist the culprit, re-issue `SIGN_REQ` to its other members. -/
def culpritReset (k : Fin maxSessions) (culprit : Nat) : Coord :=
  (c.sessions k).signerIds.foldl
    (fun c id => if id ≠ culprit ∧ id ∈ c.signers then requestCommit c .init id else c)
    (setPhase (blacklistSigner (c.closeSession k .failed) culprit) culprit .blacklisted)

def roastFailCulprit (env : Env) (k : Fin maxSessions) (culprit : Nat) : Coord :=
  let c := tryForm (culpritReset c k culprit) env
  { c with roastFail := roastDoNoEligibleRemain c }

/-! ## Aggregation -/

/-- Stdin of `aggregate`: the slots that hold a share, in slot order. -/
def aggregateInput (s : RoastSession) : AggregateInput where
  t := c.t
  signingPkg := s.signingPkg
  pubKeyPkg := c.pubKeyPkg
  shares := (List.range s.signerIds.length).filterMap fun i =>
    if (s.shares i).length = 0 then none else (s.signerIds[i]?).map fun id => (id, s.shares i)

/-- The certificate is written: count it. `g_to_mint` is unsigned. -/
def countCert (cert : Bytes) : Coord :=
  { c with
    certs := c.certs ++ [(c.outputFile, cert)]
    numMinted := c.numMinted + 1
    toMint := (c.toMint + (2 ^ 64 - 1)) % 2 ^ 64 }

/-- `call_mint` -/
def callMint (env : Env) (sig64 : Bytes) : Option Coord :=
  (env.mint ⟨c.dummyCert, sig64, c.tbsHex, c.pubKeyPkg⟩).map (countCert c)

/-- The session is complete and signing is done, whatever `call_mint` does. -/
def finishSession (k : Fin maxSessions) : Coord :=
  { c.closeSession k .complete with signingDone := true }

def aggregateOk (env : Env) (k : Fin maxSessions) (sig64 : Bytes) : Coord :=
  match callMint (finishSession c k) env sig64 with
  | none => finishSession c k
  | some c => c.broadcast .certOutput []

/-- The fallback of `roast_try_aggregate`, first half: fail the session and
blacklist all of it. -/
def blacklistMembers (k : Fin maxSessions) : Coord :=
  (c.sessions k).signerIds.foldl (fun c id => setPhase (blacklistSigner c id) id .blacklisted)
    (c.closeSession k .failed)

/-- The fallback, second half: `g_signing_done` is set when too few remain, and
`SIGN_REQ` is re-issued in any case. -/
def blacklistSession (k : Fin maxSessions) : Coord :=
  let c := blacklistMembers c k
  broadcastSignReq (if roastDoNoEligibleRemain c then { c with signingDone := true } else c)

/-- The stdin `roast_try_aggregate` starts `aggregate` with, if it gets that far. -/
def aggregateStdin (k : Fin maxSessions) : Option AggregateInput :=
  if (c.sessions k).nShares < c.t || c.signingDone then none
  else some (aggregateInput c (c.sessions k))

/-- What `roast_try_aggregate` does with the answer. -/
def onAggregate (env : Env) (k : Fin maxSessions) : AggregateResult → Coord
  | .notRun => c
  | .sig bytes => if bytes.length ≠ 64 then blacklistSession c k else aggregateOk c env k bytes
  | .culprit id =>
    if 0 < id ∧ id ≤ maxSigners then roastFailCulprit c env k id else blacklistSession c k
  | .failed => blacklistSession c k

def roastTryAggregate (env : Env) (k : Fin maxSessions) : Coord :=
  match aggregateStdin c k with
  | none => c
  | some stdin => onAggregate c env k (env.aggregate stdin)

/-! ## Expiry -/

/-- What expiry does to the member in slot `i` of session `k`. -/
def expireMember (k : Fin maxSessions) (i id : Nat) : Coord :=
  if id ∈ c.signers then
    if 0 < ((c.sessions k).shares i).length then requestCommit c .init id
    else
      let c := addStrike c id
      if getStrikes c id ≥ maxStrikes then setPhase (blacklistSigner c id) id .blacklisted
      else requestCommit c .suspect id
  else c

/-- A session whose deadline has passed fails, member by member. -/
def expireMembers (k : Fin maxSessions) : Coord :=
  (c.sessions k).signerIds.zipIdx.foldl (fun c p => expireMember c k p.2 p.1)
    (c.closeSession k .failed)

/-- One slot of the scan of `roast_expire_sessions`. -/
def expireSlot (now : Nat) (env : Env) (k : Fin maxSessions) : Coord :=
  if (c.sessions k).state ≠ .awaitingShares then c
  else if now < (c.sessions k).deadline then c
  else tryForm (expireMembers c k) env

/-- `roast_expire_sessions`; `env k` answers the formation attempt after slot
`k`. -/
def roastExpireSessions (now : Nat) (env : Fin maxSessions → Env) : Coord :=
  (List.finRange maxSessions).foldl (fun c k => expireSlot c now (env k) k) c

/-! ## Frames of sign mode -/

def onShareLoadFail (i : Nat) : Coord := c.setSg i fun r => { r with signPhase := .noKey }

def onCommit (env : Env) (i : Nat) (f : Frame) : Coord :=
  if c.mode ≠ .sign then c
  else if (c.sg i).signPhase ≠ .init ∧ (c.sg i).signPhase ≠ .suspect then c
  else if f.payload.length > maxPayload ∨ f.payload.length > commitEntryMax then c
  else if f.sig.length ≠ frameSigSize then c
  else tryForm (c.setSg i fun r =>
    { r with commit := f.payload, commitSig := f.sig, signPhase := .committed }) env

/-- File a share in slot `slot` of session `k`. -/
def fileShare (k : Fin maxSessions) (slot i : Nat) (share : Bytes) : Coord :=
  (c.setSession k fun s =>
    { s with shares := Function.update s.shares slot share, nShares := s.nShares + 1 }).setSg i
    fun r => { r with signPhase := .shared }

/-- The guards of `SIG_SHARE`: the session the sender was last assigned to, if
it still awaits shares, and the sender's slot in it. -/
def shareTarget (i : Nat) (f : Frame) : Option (Fin maxSessions × Nat) :=
  if c.mode ≠ .sign then none
  else if f.payload.length > maxPayload then none
  else match roastFind c (c.sg i).sessionId with
    | none => none
    | some k =>
      if (c.sessions k).state ≠ .awaitingShares then none
      else match roastSignerSlot (c.sessions k) i with
        | none => none
        | some slot => some (k, slot)

def onSigShare (env : Env) (i : Nat) (f : Frame) : Coord :=
  match shareTarget c i f with
  | none => c
  | some (k, slot) =>
    let c := fileShare c k slot i f.payload
    if (c.sessions k).nShares ≥ c.t then roastTryAggregate c env k else c

end FrostSshCa.Coordinator
