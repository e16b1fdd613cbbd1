import FrostSshCa.Signer.State
import FrostSshCa.Wire.Text

/-!
# Frame dispatch of a signer

`process_coord_frame`, one definition for each case, and the block of the event
loop that computes a commitment ahead of the next request. No fault flag is set.
-/

namespace FrostSshCa.Signer

variable (keys : Keys) (env : Env) (s : Node)

/-! ## Registration -/

/-- `ACK <id> <mode>`: the mode letter is `D` when there is none. -/
def parseAck (payload : Bytes) : Option (Nat × UInt8) :=
  (scanLit (ascii "ACK") (payload.take 31)).bind fun bs =>
  (scanU16 bs).bind fun (id, bs) => some (id, (scanWs bs).head?.getD 68)

def ackMode (letter : UInt8) : CoordMode :=
  if letter = 83 then .sign else if letter = 82 then .refresh else .dkg

/-- Load the key share, or report that there is none. -/
def loadOrFail : Node × Bool :=
  match loadKeyMaterial s env with
  | (s, true) => (s, true)
  | (s, false) => (queueToCoord keys s .shareLoadFail [], false)

def onHelloAck (f : Frame) : Node :=
  match parseAck f.payload with
  | none => s
  | some (id, letter) =>
    if id ≠ s.myId then { s with exited := true }
    else
      let s := { s with idConfirmed := true, coordMode := ackMode letter }
      if s.coordMode = .dkg then s else (loadOrFail keys env s).1

/-! ## DKG -/

def onStartDkg (f : Frame) : Node :=
  match scanTwo (ascii "START_DKG") f.payload with
  | none => s
  | some (pn, pt) =>
    let s := { s with n := pn, t := pt, state := .collectingR1 }
    match env.dkgPart1 s.myId s.n s.t with
    | .error written =>
      { s with r1Secret := overwrite s.r1Secret written, asked := s.asked ++ [.dkgPart1 none] }
    | .ok (secret, pkg) =>
      let s := { s with r1Secret := secret, asked := s.asked ++ [.dkgPart1 (some pkg)] }
      queueToCoord keys s .round1Pkg pkg

/-- `[sender id][r1_pkg]`: the sender and the package, once the sender's
signature over the package is verified. -/
def openR1 (f : Frame) : Option (Nat × Bytes) :=
  match f.payload with
  | hi :: lo :: pkg => if keys.verify (ofBe16 hi lo) pkg f.sig then some (ofBe16 hi lo, pkg) else none
  | _ => none

/-- `[src][dst][ciphertext]`: the sender and the ciphertext, once the sender's
signature over the whole payload is verified. The destination is not looked at. -/
def openR2 (f : Frame) : Option (Nat × Bytes) :=
  match f.payload with
  | hi :: lo :: _ :: _ :: ct =>
    if keys.verify (ofBe16 hi lo) f.payload f.sig then some (ofBe16 hi lo, ct) else none
  | _ => none

/-- One pass of the loop that sends round-2 packages: encrypt to the target. -/
def sendR2 (type : MsgType) (s : Node) (p : (Nat × Bytes) × Nat) : Node :=
  match env.encrypt p.2 p.1.1 p.1.2 with
  | none => s
  | some ct =>
    if ct.length > 256 then s
    else queueToCoord keys s type (be16 s.myId ++ be16 p.1.1 ++ ct)

def sendAllR2 (type : MsgType) (out : List (Nat × Bytes)) : Node :=
  out.zipIdx.foldl (sendR2 keys env type) s

def onRelayR1 (f : Frame) : Node :=
  match openR1 keys f with
  | none => s
  | some p =>
    if s.peerR1.length ≥ maxSigners then s
    else
      let s := { s with peerR1 := s.peerR1 ++ [p] }
      if s.peerR1.length + 1 < s.n then s
      else
        let s := { s with state := .collectingR2 }
        match frostDkgPart2 s env with
        | .error left =>
          { s with
            r2Secret := left.into s.r2Secret
            asked := s.asked ++ [.dkgPart2 s.peerR1 none] }
        | .ok (secret, out) =>
          let s :=
            { s with r2Secret := secret, asked := s.asked ++ [.dkgPart2 s.peerR1 (some out)] }
          sendAllR2 keys env s .round2Pkg out

/-- The id notice of both round-2 completions. -/
def notice : Bytes := be16 s.myId

/-- What follows a successful `frost_dkg_part3`. -/
def finishDkg (key pub : Bytes) : Node :=
  let s := { s with keyPkg := key, pubKeyPkg := pub, state := .complete }
  let s := queueToCoord keys s .r2Complete (notice s)
  queueToCoord keys (saveKeyMaterial s env).1 .pubKeyPkg s.pubKeyPkg

/-- The slot is taken before the package is decrypted; one that does not decrypt
stays zero. -/
def onRelayR2 (f : Frame) : Node :=
  match openR2 keys f with
  | none => s
  | some (sender, ct) =>
    if s.peerR2.length ≥ maxSigners then s
    else match keys.decrypt s.myId ct with
      | none => { s with peerR2 := s.peerR2 ++ [(0, [])] }
      | some pkg =>
        let s := { s with peerR2 := s.peerR2 ++ [(sender, pkg)] }
        if s.peerR2.length + 1 < s.n then s
        else match frostDkgPart3 s env with
          | .error written =>
            { s with
              keyPkg := overwrite s.keyPkg written
              asked := s.asked ++ [.dkgPart3 s.peerR1 s.peerR2 none] }
          | .ok (key, pub) =>
            let s := { s with asked := s.asked ++ [.dkgPart3 s.peerR1 s.peerR2 (some pub)] }
            finishDkg keys env s key pub

/-! ## Refresh -/

def onStartRefresh (f : Frame) : Node :=
  match scanTwo (ascii "START_REFRESH") f.payload with
  | none => s
  | some (pn, pt) =>
    let s := { s with n := pn, t := pt }
    match env.refreshPart1 s.myId s.n s.t with
    | .error written =>
      { s with
        refR1Secret := overwrite s.refR1Secret written
        asked := s.asked ++ [.refreshPart1 none] }
    | .ok (secret, pkg) =>
      let s := { s with refR1Secret := secret, asked := s.asked ++ [.refreshPart1 (some pkg)] }
      queueToCoord keys s .refreshR1 pkg

def onRelayRefreshR1 (f : Frame) : Node :=
  match openR1 keys f with
  | none => s
  | some p =>
    if s.refPeerR1.length ≥ maxSigners then s
    else
      let s := { s with refPeerR1 := s.refPeerR1 ++ [p] }
      if s.refPeerR1.length + 1 < s.n then s
      else match frostRefreshPart2 s env with
        | .error left =>
          { s with
            refR2Secret := left.into s.refR2Secret
            asked := s.asked ++ [.refreshPart2 s.refPeerR1 none] }
        | .ok (secret, out) =>
          let s :=
            { s with
              refR2Secret := secret
              asked := s.asked ++ [.refreshPart2 s.refPeerR1 (some out)] }
          let s := sendAllR2 keys env s .refreshR2 out
          queueToCoord keys s .refreshR2Complete (notice s)

def onRelayRefreshR2 (f : Frame) : Node :=
  match openR2 keys f with
  | none => s
  | some (sender, ct) =>
    if s.refPeerR2.length ≥ maxSigners then s
    else match keys.decrypt s.myId ct with
      | none => { s with refPeerR2 := s.refPeerR2 ++ [(0, [])] }
      | some pkg => { s with refPeerR2 := s.refPeerR2 ++ [(sender, pkg)] }

/-- What follows a successful `frost_refresh_shares`. -/
def finishRefresh (key pub : Bytes) : Node :=
  match saveKeyMaterial { s with keyPkg := key, pubKeyPkg := pub } env with
  | (s, false) => s
  | (s, true) => queueToCoord keys s .refreshComplete pub

def onRefreshFinalize : Node :=
  if s.refPeerR2.length + 1 ≠ s.n then s
  else match frostRefreshShares s env with
    | none => { s with asked := s.asked ++ [.refreshShares s.refPeerR1 s.refPeerR2 none] }
    | some (key, pub) =>
      let s := { s with asked := s.asked ++ [.refreshShares s.refPeerR1 s.refPeerR2 (some pub)] }
      finishRefresh keys env s key pub

/-! ## Signing -/

/-- The key share is in memory, or is loaded again. -/
def ensureKey : Node × Bool :=
  if s.keyPkg.length = 0 then loadOrFail keys env s else (s, true)

/-- The tail of `SIGN_REQ`: bind the commitment to the message and send it. -/
def sendCommit : Node :=
  match buildCommitSignBuf s.tbs s.commit signBufMax with
  | none => s
  | some buf =>
    { queueToCoordSigned keys s .commit (buf.take (buf.length % 2 ^ 16)) s.commit with
      commitIsPrecomputed := false }

/-- `SIGN_REQ` once a key is there: take the message, use the precomputed
commitment or make one, and send it. -/
def acceptRequest (tbs : Bytes) : Node :=
  let s := { s with tbs := tbs, state := .signing }
  if s.commitIsPrecomputed then sendCommit keys s
  else match freshCommit s env.commit with
    | (s, false) => s
    | (s, true) => sendCommit keys s

def onSignReq (f : Frame) : Node :=
  match ensureKey keys env s with
  | (s, false) => s
  | (s, true) => if f.payload.length > maxPayload then s else acceptRequest keys env s f.payload

/-- Check (b) and the signature part of (c) for one entry. -/
def entryVerified (tbs : Bytes) (e : CommitEntry) : Bool :=
  match buildCommitSignBuf tbs e.commit signBufMax with
  | none => false
  | some buf => keys.verify e.id buf e.commitSig

/-- Checks (a) to (d) of `RELAY_COMMIT`. -/
def bundleAccepted (b : CommitBundle) : Bool :=
  b.entries.length = s.t && (b.entries.map (·.id)).Nodup &&
    b.entries.all (fun e => entryVerified keys b.tbs e && (e.id ≠ s.myId || e.commit = s.commit)) &&
    b.entries.any (·.id = s.myId) && b.tbs = s.tbs

/-- The bundle of a `RELAY_COMMIT` that passes every check. -/
def acceptedBundle (payload : Bytes) : Option CommitBundle :=
  if s.keyPkg.length = 0 then none
  else (unpackCommitBundle payload).bind fun r =>
    if bundleAccepted keys s r.1 then some r.1 else none

/-- Queue a share and wipe the nonces. -/
def sendShare (b : CommitBundle) (spkg share : Bytes) : Node :=
  let s := { s with log := s.log ++ [.shared s.nonces b spkg] }
  { queueToCoord keys s .sigShare share with nonces := [], state := .complete }

/-- What follows the checks. -/
def signBundle (b : CommitBundle) : Node :=
  match env.assemble b with
  | none => s
  | some spkg => match frostSign s env spkg with
    | none => s
    | some share => sendShare keys s b spkg share

def onRelayCommit (f : Frame) : Node :=
  match acceptedBundle keys s f.payload with
  | none => s
  | some b => signBundle keys env s b

/-! ## Dispatch -/

def onError : Node := if s.idConfirmed then s else { s with exited := true }

/-- `process_coord_frame`. The cases left out only print, or write a file no
signer reads. -/
def processCoordFrame (f : Frame) : Node :=
  match f.type with
  | .helloAck => onHelloAck keys env s f
  | .startDkg => onStartDkg keys env s f
  | .relayR1 => onRelayR1 keys env s f
  | .relayR2 => onRelayR2 keys env s f
  | .startRefresh => onStartRefresh keys env s f
  | .relayRefreshR1 => onRelayRefreshR1 keys env s f
  | .relayRefreshR2 => onRelayRefreshR2 keys s f
  | .refreshFinalize => onRefreshFinalize keys env s
  | .signReq => onSignReq keys env s f
  | .relayCommit => onRelayCommit keys env s f
  | .error => onError s
  | _ => s

/-- The commitment made ahead of the next request. -/
def precompute : Node :=
  if s.coordMode = .sign ∧ (s.state = .idle ∨ s.state = .complete) ∧
    s.commitIsPrecomputed = false then
    match freshCommit s env.precommit with
    | (s, false) => s
    | (s, true) => { s with commitIsPrecomputed := true }
  else s

/-- A frame larger than the input buffer: `gnutls_record_recv` is then called
with no room left and fails. -/
def tooLarge (f : Frame) : Bool := f.sig.length + f.payload.length > frameSigSize + maxPayload

/-- The event loop's pass that completes a frame. -/
def step (e : Frame × Env) : Node :=
  if s.exited then s
  else if tooLarge e.1 then { s with exited := true }
  else
    let s := processCoordFrame keys e.2 s e.1
    if s.exited then s else precompute e.2 s

/-! ## Start -/

def helloText (id n t : Nat) : Bytes := printThree (ascii "SIGNER") id n t

/-- The globals before the connection. -/
def Node.boot (id n t : Nat) : Node where
  myId := id
  idConfirmed := false
  n := n
  t := t
  state := .idle
  coordMode := .dkg
  r1Secret := []
  r2Secret := []
  keyPkg := []
  pubKeyPkg := []
  nonces := []
  commit := []
  commitIsPrecomputed := false
  tbs := []
  peerR1 := []
  peerR2 := []
  refR1Secret := []
  refR2Secret := []
  refPeerR1 := []
  refPeerR2 := []
  outq := []
  savedKey := none
  exited := false
  log := []
  asked := []

/-- The state `main` enters its loop in: `HELLO` is queued. -/
def Node.start (id n t : Nat) : Node :=
  queueToCoord keys (Node.boot id n t) .hello (helloText id n t)

/-- What `main` checks of its arguments. -/
structure Args (id n t : Nat) : Prop where
  idRange : 1 ≤ id ∧ id ≤ n
  nRange : 2 ≤ n ∧ n ≤ maxSigners
  tRange : 1 ≤ t ∧ t ≤ n

instance (id n t : Nat) : Decidable (Args id n t) :=
  decidable_of_iff ((1 ≤ id ∧ id ≤ n) ∧ (2 ≤ n ∧ n ≤ maxSigners) ∧ 1 ≤ t ∧ t ≤ n)
    ⟨fun ⟨h1, h2, h3⟩ => ⟨h1, h2, h3⟩, fun ⟨h1, h2, h3⟩ => ⟨h1, h2, h3⟩⟩

/-- The process of signer `id` is started again: its globals are new, but the RSA key it
loads and the key file it wrote are the same. The history goes on. -/
def Node.restart (id n t : Nat) : Node :=
  if Args id n t then
    { Node.start keys id n t with
      savedKey := s.savedKey
      log := s.log ++ (Node.start keys id n t).log
      asked := s.asked }
  else { s with exited := true }

end FrostSshCa.Signer
