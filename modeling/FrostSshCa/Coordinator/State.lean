import FrostSshCa.Wire.Bundle
import Mathlib.Logic.Function.Basic

/-!
# State of the coordinator

The globals of `frost_coordinator.c` and its per-connection `struct signer`.

`main` admits a signer only under an id no registered signer holds, so a record
is addressed by its id: `signers` is the list of registered ids in list order
(`LIST_INSERT_HEAD`, newest first) and `sg i` the record of id `i`. A buffer
and its length are one byte list. `msgq` is the outgoing queue of a signer.
-/

namespace FrostSshCa.Coordinator

/-- `sphase_t` -/
inductive SPhase where
  | init | noKey | committed | inSession | shared | blacklisted | suspect
  deriving DecidableEq, Repr

/-- `rsess_state_t` -/
inductive RSessState where
  | empty | awaitingShares | complete | failed
  deriving DecidableEq, Repr

/-- `struct roast_session`; `n_signers` is the length of `signerIds` and
`share_lens[i]` the length of `shares i`. -/
structure RoastSession where
  id : Nat
  state : RSessState
  deadline : Nat
  signerIds : List Nat
  signingPkg : Bytes
  shares : Nat → Bytes
  nShares : Nat

/-- A zeroed slot. -/
def RoastSession.zero : RoastSession where
  id := 0
  state := .empty
  deadline := 0
  signerIds := []
  signingPkg := []
  shares := fun _ => []
  nShares := 0

/-- `struct signer` -/
structure SignerRec where
  /-- The whole buffer: the relays send all of it. -/
  r1Sig : Bytes
  r1Pkg : Bytes
  r2Complete : Bool
  pubKeyPkg : Bytes
  commit : Bytes
  commitSig : Bytes
  signPhase : SPhase
  sessionId : Nat
  msgq : List Frame

/-- The record `main` makes when it promotes a staged connection. The buffer it
does not initialise stands here with zeros. -/
def SignerRec.new : SignerRec where
  r1Sig := List.replicate frameSigSize 0
  r1Pkg := []
  r2Complete := false
  pubKeyPkg := []
  commit := []
  commitSig := []
  signPhase := .init
  sessionId := 0
  msgq := []

/-- `g_output_file`: the path given by the options, or the one `main` derives
from the serial for each further certificate. -/
inductive OutputFile where
  | option
  | serial (k : Nat)
  deriving DecidableEq, Repr

structure Coord where
  mode : CoordMode
  dkgState : DkgState
  n : Nat
  t : Nat
  pubKeyPkg : Bytes
  /-- `pub_key_pkg.hex`: the package whose hex the file holds. -/
  pubPkgHex : Option Bytes
  tbs : Bytes
  /-- `g_tbs_hex`: the bytes it is the hex of. -/
  tbsHex : Bytes
  dummyCert : Bytes
  sessions : Fin maxSessions → RoastSession
  nextSessionId : Nat
  signingDone : Bool
  roastFail : Bool
  /-- `g_blacklist[0 .. g_n_blacklisted)` -/
  blacklist : List Nat
  strikes : Nat → Nat
  serial : Nat
  validitySecs : Nat
  outputFile : OutputFile
  numMinted : Nat
  toMint : Nat
  /-- The certificate files written so far. -/
  certs : List (OutputFile × Bytes)
  refreshCompleteCount : Nat
  signers : List Nat
  sg : Nat → SignerRec
  /-- The event loop has been left. -/
  exited : Bool

/-! ## What the outside world answers -/

/-- The stdin of `frost_signer_core aggregate --t <t>`, one share per line. -/
structure AggregateInput where
  t : Nat
  signingPkg : Bytes
  pubKeyPkg : Bytes
  shares : List (Nat × Bytes)

/-- What `roast_try_aggregate` sees of the subprocess: it was not started, its
first line decoded (to any length), it named a culprit, or anything else. -/
inductive AggregateResult where
  | notRun
  | sig (bytes : Bytes)
  | culprit (id : Nat)
  | failed
  deriving DecidableEq, Repr

structure MintInput where
  dummyCert : Bytes
  sig64 : Bytes
  tbsHex : Bytes
  pubKeyPkg : Bytes

/-- The subprocesses, files and clock during the handling of one frame. -/
structure Env where
  assemble : CommitBundle → Option Bytes
  aggregate : AggregateInput → AggregateResult
  mint : MintInput → Option Bytes
  pubPkgWritable : Bool
  now : Nat

/-- How far `call_tbs` gets: no template line; a template line, then a failure;
a template line and a hex line that stops decoding after `written`; two lines. -/
inductive TbsResult where
  | noTemplate
  | template (dummyCert : Bytes)
  | badHex (dummyCert written : Bytes)
  | ok (dummyCert tbs : Bytes)
  deriving DecidableEq, Repr

/-- The clock and the `tbs` and `pubkey` subprocesses during one `prepare_tbs`. What `tbs`
answers depends on the serial and the two dates it is given; the path and the principal of
the options stay. -/
structure TbsEnv where
  now : Nat
  callTbs : (serial validAfter validBefore : Nat) → TbsResult
  caKey : Option (Vector UInt8 32)

/-! ## Record updates -/

variable (c : Coord)

def Coord.setSg (i : Nat) (f : SignerRec → SignerRec) : Coord :=
  { c with sg := Function.update c.sg i (f (c.sg i)) }

def Coord.setSession (k : Fin maxSessions) (f : RoastSession → RoastSession) : Coord :=
  { c with sessions := Function.update c.sessions k (f (c.sessions k)) }

variable {c}

@[simp] theorem Coord.setSg_self (i : Nat) (f : SignerRec → SignerRec) :
    (c.setSg i f).sg i = f (c.sg i) := Function.update_self ..

theorem Coord.setSg_of_ne {i j : Nat} (h : j ≠ i) (f : SignerRec → SignerRec) :
    (c.setSg i f).sg j = c.sg j := Function.update_of_ne h ..

@[simp] theorem Coord.setSession_self (k : Fin maxSessions) (f : RoastSession → RoastSession) :
    (c.setSession k f).sessions k = f (c.sessions k) := Function.update_self ..

theorem Coord.setSession_of_ne {k j : Fin maxSessions} (h : j ≠ k)
    (f : RoastSession → RoastSession) : (c.setSession k f).sessions j = c.sessions j :=
  Function.update_of_ne h ..

variable (c)

/-- `signer_send`. Sending to an id that is not registered cannot happen. -/
def Coord.signerSend (i : Nat) (type : MsgType) (sig payload : Bytes) : Coord :=
  c.setSg i fun r => { r with msgq := r.msgq ++ [{ type := type, sig := sig, payload := payload }] }

/-- `signer_send` to every registered signer. -/
def Coord.broadcast (type : MsgType) (payload : Bytes) : Coord :=
  c.signers.foldl (fun c i => c.signerSend i type [] payload) c

end FrostSshCa.Coordinator
