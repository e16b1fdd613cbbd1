import FrostSshCa.Wire.Bundle
import FrostSshCa.Wire.Hex

/-!
# State of a signer

The globals of `frost_signer.c`, what its subprocesses, files and keys answer,
and the two functions that queue a frame. A buffer and its length are one byte
list; the `g_peer_*` arrays are lists of the slots filled so far, which are
never emptied again.
-/

namespace FrostSshCa.Signer

/-- What the signer has done that others, or its own later steps, can depend on. -/
inductive Act where
  /-- A successful `frost_commit`. -/
  | generated (nonces commit : Bytes)
  /-- `queue_to_coord_signed` of `payload` with a signature over `signBuf`. -/
  | queued (type : MsgType) (signBuf payload : Bytes)
  /-- A `frost_sign` on `nonces` and the package `spkg` assembled from `bundle`,
  whose share is queued. -/
  | shared (nonces : Bytes) (bundle : CommitBundle) (spkg : Bytes)
  deriving DecidableEq, Repr

/-- A call of the Rust core in a ceremony, with what it is given of the peers and the
packages it answers: the signer's own of round 1, those of round 2 with their targets, or
the `PublicKeyPackage`. A call that fails answers none. -/
inductive Ask where
  | dkgPart1 (pkg : Option Bytes)
  | dkgPart2 (r1 : List (Nat × Bytes)) (out : Option (List (Nat × Bytes)))
  | dkgPart3 (r1 r2 : List (Nat × Bytes)) (pub : Option Bytes)
  | refreshPart1 (pkg : Option Bytes)
  | refreshPart2 (r1 : List (Nat × Bytes)) (out : Option (List (Nat × Bytes)))
  | refreshShares (r1 r2 : List (Nat × Bytes)) (pub : Option Bytes)
  deriving DecidableEq, Repr

structure Node where
  myId : Nat
  idConfirmed : Bool
  n : Nat
  t : Nat
  state : DkgState
  coordMode : CoordMode
  r1Secret : Bytes
  r2Secret : Bytes
  keyPkg : Bytes
  pubKeyPkg : Bytes
  nonces : Bytes
  commit : Bytes
  commitIsPrecomputed : Bool
  tbs : Bytes
  /-- `g_peer_r1_ids` and `g_peer_r1`. -/
  peerR1 : List (Nat × Bytes)
  peerR2 : List (Nat × Bytes)
  refR1Secret : Bytes
  refR2Secret : Bytes
  refPeerR1 : List (Nat × Bytes)
  refPeerR2 : List (Nat × Bytes)
  outq : List Frame
  /-- The text of `shares/signer_<id>.keypkg`, as last written. -/
  savedKey : Option Bytes
  /-- The process has ended. -/
  exited : Bool
  /-- History: what happened so far, oldest first. -/
  log : List Act
  /-- History: the calls in the ceremonies, oldest first. -/
  asked : List Ask

/-! ## Keys, subprocesses and files -/

/-- The RSA keys of all signers: `gnutls_privkey_sign_data2` under the key of an
id, `gnutls_pubkey_verify_data2` under its certificate (`false` where no key is
cached) and `gnutls_privkey_decrypt_data` under its OAEP key. -/
structure Keys where
  sign : Nat → Bytes → Bytes
  verify : Nat → Bytes → Bytes → Bool
  decrypt : Nat → Bytes → Option Bytes

/-- A hex file or a hex line: nothing to read, a line that stops decoding after
`written`, or its bytes. -/
inductive HexLine where
  | absent
  | bad (written : Bytes)
  | ok (bytes : Bytes)
  deriving DecidableEq, Repr

/-- `frost_commit` fails before it writes anything, or after it has decoded some
of its output over `g_nonces` and `commit`; the lengths are set on success only. -/
inductive CommitResult where
  | failed (commit : Bytes)
  | ok (nonces commit : Bytes)
  deriving DecidableEq, Repr

/-- What part 2 has done to the buffer of the round-2 secret when it fails: a first line
that stops decoding has gone over its front, a peer line that does not decode comes after
the secret is stored. -/
inductive Left where
  | front (written : Bytes)
  | stored (secret : Bytes)
  deriving DecidableEq, Repr

def Left.into (buf : Bytes) : Left → Bytes
  | .front written => overwrite buf written
  | .stored secret => secret

/-- The key file when it is written: `fopen` fails, or it truncates the file and
`m` bytes or all of the text get there. Neither `fprintf` nor `fclose` is checked. -/
inductive KeyWrite where
  | noOpen
  | cut (m : Nat)
  | whole
  deriving DecidableEq, Repr

/-- `frost_signer_core`, the key files and the random bits of OAEP during the
handling of one frame. `encrypt k` answers the loop's pass `k`. A call that decodes
straight into a global and fails answers what it has written there. -/
structure Env where
  dkgPart1 : Nat → Nat → Nat → Except Bytes (Bytes × Bytes)
  dkgPart2 : Bytes → List (Nat × Bytes) → Except Left (Bytes × List (Nat × Bytes))
  dkgPart3 : Bytes → List (Nat × Bytes) → List (Nat × Bytes) → Except Bytes (Bytes × Bytes)
  refreshPart1 : Nat → Nat → Nat → Except Bytes (Bytes × Bytes)
  refreshPart2 : Bytes → List (Nat × Bytes) → Except Left (Bytes × List (Nat × Bytes))
  refreshShares : Nat → Bytes → List (Nat × Bytes) → List (Nat × Bytes) → Bytes → Bytes →
    Option (Bytes × Bytes)
  encrypt : Nat → Nat → Bytes → Option Bytes
  commit : Bytes → CommitResult
  /-- The `frost_commit` of the event loop, after the frame. -/
  precommit : Bytes → CommitResult
  assemble : CommitBundle → Option Bytes
  sign : Bytes → Bytes → Bytes → Option Bytes
  keyFile : HexLine
  pubFile : HexLine
  keyWrite : KeyWrite

variable (keys : Keys) (s : Node)

/-! ## `load_key_material` and `save_key_material` -/

/-- What reading the `PublicKeyPackage` file leaves in `g_pub_key_pkg`. -/
def readPubKeyPkg (old : Bytes) : HexLine → Bytes
  | .absent => old
  | .bad written => overwrite old written
  | .ok bytes => if bytes.length = 0 then old else bytes

/-- The flag is `true` where the code returns 0. -/
def loadKeyMaterial (env : Env) : Node × Bool :=
  match env.keyFile with
  | .absent => (s, false)
  | .bad written => ({ s with keyPkg := overwrite s.keyPkg written }, false)
  | .ok key =>
    if key.length = 0 then (s, false)
    else ({ s with keyPkg := key, pubKeyPkg := readPubKeyPkg s.pubKeyPkg env.pubFile }, true)

def saveKeyMaterial (env : Env) : Node × Bool :=
  match env.keyWrite with
  | .noOpen => (s, false)
  | .cut m => ({ s with savedKey := some ((hexFile s.keyPkg).take m) }, true)
  | .whole => ({ s with savedKey := some (hexFile s.keyPkg) }, true)

/-! ## Queueing -/

/-- `queue_to_coord_signed` -/
def queueToCoordSigned (type : MsgType) (signBuf payload : Bytes) : Node :=
  { s with
    outq := s.outq ++ [⟨type, keys.sign s.myId signBuf, payload⟩]
    log := s.log ++ [.queued type signBuf payload] }

/-- `queue_to_coord` -/
def queueToCoord (type : MsgType) (payload : Bytes) : Node :=
  queueToCoordSigned keys s type payload payload

/-! ## The Rust core's own checks

`read_hex_blob` in `main.rs` fails on an empty line. Without all its lines of output a
call fails before it writes anything. -/

/-- One output line for each of the `n` peer lines. -/
def peerLines (n : Nat) (r : Bytes × List (Nat × Bytes)) :
    Except Left (Bytes × List (Nat × Bytes)) :=
  if r.2.length < n then .error (.front []) else .ok (r.1, r.2.take n)

def frostDkgPart2 (env : Env) : Except Left (Bytes × List (Nat × Bytes)) :=
  if s.r1Secret.length = 0 then .error (.front [])
  else (env.dkgPart2 s.r1Secret s.peerR1).bind (peerLines s.peerR1.length)

def frostDkgPart3 (env : Env) : Except Bytes (Bytes × Bytes) :=
  if s.r2Secret.length = 0 then .error [] else env.dkgPart3 s.r2Secret s.peerR1 s.peerR2

def frostRefreshPart2 (env : Env) : Except Left (Bytes × List (Nat × Bytes)) :=
  (env.refreshPart2 s.refR1Secret s.refPeerR1).bind (peerLines s.refPeerR1.length)

def frostRefreshShares (env : Env) : Option (Bytes × Bytes) :=
  env.refreshShares s.n s.refR2Secret s.refPeerR1 s.refPeerR2 s.keyPkg s.pubKeyPkg

/-- `hex_to_bytes` refuses a line longer than the buffer before it writes. -/
def fits (bytes : Bytes) : Bool := bytes.length ≤ maxPayload

/-- `frost_commit` with `g_nonces` zeroed before it. -/
def freshCommit (answer : Bytes → CommitResult) : Node × Bool :=
  if s.keyPkg.length = 0 then ({ s with nonces := [] }, false)
  else match answer s.keyPkg with
    | .failed written => ({ s with nonces := [], commit := overwrite s.commit written }, false)
    | .ok nonces commit =>
      if fits nonces && fits commit then
        ({ s with nonces := nonces, commit := commit, log := s.log ++ [.generated nonces commit] },
          true)
      else
        ({ s with
            nonces := []
            commit := if fits commit then overwrite s.commit commit else s.commit },
          false)

def frostSign (env : Env) (spkg : Bytes) : Option Bytes :=
  if s.nonces.length = 0 ∨ s.keyPkg.length = 0 ∨ spkg.length = 0 then none
  else env.sign spkg s.nonces s.keyPkg

end FrostSshCa.Signer
