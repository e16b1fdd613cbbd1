import FrostSshCa.Coordinator.Ceremony
import FrostSshCa.Coordinator.Roast

/-!
# The coordinator's event loop

`process_signer_frame`, `prepare_tbs`, the registration of a staged connection
and the blocks at the head of the loop, put together as a total step function.
An event is one pass through one of these blocks; the loop runs them in a fixed
order around `select`, and a run here may take them in any order.
-/

namespace FrostSshCa.Coordinator

variable (c : Coord)

/-- `process_signer_frame` for a frame of signer `i`. -/
def processSignerFrame (env : Env) (i : Nat) (f : Frame) : Coord :=
  match f.type with
  | .round1Pkg => onRound1Pkg c i f
  | .round2Pkg => onRound2Pkg c f
  | .r2Complete => onR2Complete c i
  | .refreshR1 => onRefreshR1 c i f
  | .refreshR2 => onRefreshR2 c f
  | .refreshR2Complete => onRefreshR2Complete c i
  | .refreshComplete => onRefreshComplete c env i f
  | .pubKeyPkg => onPubKeyPkg c env i f
  | .shareLoadFail => onShareLoadFail c i
  | .commit => onCommit c env i f
  | .sigShare => onSigShare c env i f
  | _ => c

/-! ## `prepare_tbs` -/

/-- Overwrite the last 32 bytes. -/
def patchTbs (tbs : Bytes) (key : Vector UInt8 32) : Bytes :=
  tbs.take (tbs.length - 32) ++ key.toList

/-- The part of `prepare_tbs` after `call_tbs` succeeded. -/
def patchAndClear (key : Option (Vector UInt8 32)) : Coord × Bool :=
  if c.tbs.length < 32 then (c, false)
  else match key with
    | none => (c, false)
    | some k => ({ c with
        tbs := patchTbs c.tbs k, tbsHex := patchTbs c.tbs k,
        sessions := fun _ => RoastSession.zero }, true)

/-- `now + g_validity_secs` -/
def validBefore (secs now : Nat) : Nat := (now + secs) % 2 ^ 64

/-- The call of `call_tbs` in `prepare_tbs`. -/
def askTbs (env : TbsEnv) : TbsResult :=
  env.callTbs c.serial env.now (validBefore c.validitySecs env.now)

/-- `prepare_tbs`; the flag is `true` for `EXIT_SUCCESS`. A hex line that stops
decoding has overwritten the front of `g_tbs` and left `g_tbs_len`; one that is
empty or too long leaves both. -/
def prepareTbs (env : TbsEnv) : Coord × Bool :=
  match askTbs c env with
  | .noTemplate => (c, false)
  | .template d => ({ c with dummyCert := d }, false)
  | .badHex d p =>
    ({ c with dummyCert := d, tbs := (p ++ c.tbs.drop p.length).take c.tbs.length }, false)
  | .ok d tbs =>
    if tbs.length = 0 ∨ tbs.length > maxPayload then ({ c with dummyCert := d }, false)
    else patchAndClear { c with dummyCert := d, tbs := tbs, tbsHex := tbs } env.caKey

/-! ## Registration -/

/-- What the certificate store and the TLS session say about a claimed id. -/
structure HelloEnv where
  pubkeyCached : Nat → Bool
  identityOk : Nat → Bool

def helloWord : Bytes := ascii "SIGNER"

/-- The fields of a `HELLO` that passes the range checks. -/
def parseHello (payload : Bytes) : Option (Nat × Nat × Nat) :=
  match scanThree helloWord payload with
  | none => none
  | some (pid, pn, pt) =>
    if pid < 1 || pid > maxSigners || pn < 2 || pt < 1 || pt > pn || pn > maxSigners ||
      pid > pn then
      none
    else some (pid, pn, pt)

/-- The mode letter of `HELLO_ACK`. -/
def CoordMode.letter : CoordMode → UInt8
  | .dkg => 68
  | .sign => 83
  | .refresh => 82

def ackText (id : Nat) (mode : CoordMode) : Bytes :=
  ascii "ACK " ++ decimal id ++ [32, CoordMode.letter mode, 10]

/-- A fresh record at the head of the list. -/
def enroll (pid : Nat) : Coord :=
  { c with signers := pid :: c.signers, sg := Function.update c.sg pid SignerRec.new }

/-- The first frames of a new signer. -/
def welcome (pid : Nat) : Coord :=
  match c.mode with
  | .dkg => maybeStartDkg c
  | .refresh => maybeStartRefresh c
  | .sign => c.signerSend pid .signReq [] c.tbs

/-- Promote a staged connection to signer `pid`. -/
def promote (pid : Nat) : Coord :=
  welcome ((enroll c pid).signerSend pid .helloAck [] (ackText pid c.mode)) pid

/-- A complete `HELLO` on a staged connection; `.error` is the text sent back
before the connection is closed. The first well-formed `HELLO` fixes `g_n` and
`g_t`, whatever becomes of it. -/
def onHello (env : HelloEnv) (payload : Bytes) : Coord × Except Bytes Nat :=
  match parseHello payload with
  | none => (c, .error (ascii "bad HELLO"))
  | some (pid, pn, pt) =>
    if c.n ≠ 0 ∧ (pn ≠ c.n ∨ pt ≠ c.t) then (c, .error (ascii "n/t mismatch"))
    else
      let c := if c.n = 0 then { c with n := pn, t := pt } else c
      if !env.pubkeyCached pid then
        (c, .error (ascii "no certs/signer" ++ decimal pid ++ ascii ".crt on coordinator"))
      else if !env.identityOk pid then
        (c, .error (ascii "TLS certificate does not match claimed id"))
      else if pid ∈ c.signers then
        (c, .error (ascii "ID " ++ decimal pid ++ ascii " already registered"))
      else (promote c pid, .ok pid)

/-- `remove_signer` -/
def removeSigner (i : Nat) : Coord := { c with signers := c.signers.filter (· ≠ i) }

/-- `drain_signer_write`, when it completes the frame at the head of the queue. -/
def drainSignerWrite (i : Nat) : Coord := c.setSg i fun r => { r with msgq := r.msgq.tail }

/-! ## The head of the loop -/

def allQuiet : Bool := c.signers.all fun i => (c.sg i).msgq.isEmpty

def advanceSerial : Coord :=
  { c with serial := (c.serial + 1) % 2 ^ 64, outputFile := .serial ((c.serial + 1) % 2 ^ 64) }

/-- `g_signing_done = 0` -/
def resume : Coord := { c with signingDone := false }

/-- The next certificate: its serial, its file, its TBS. The result of
`prepare_tbs` is not looked at. -/
def nextMint (env : TbsEnv) : Coord :=
  broadcastSignReq (resume (prepareTbs (advanceSerial c) env).1)

def exitIfQuiet : Coord := if allQuiet c then { c with exited := true } else c

/-- The two blocks at the head of the loop. -/
def loopHead (env : TbsEnv) : Coord :=
  if c.roastFail then exitIfQuiet c
  else if c.signingDone ∧ c.mode = .sign then
    if c.toMint > 0 then nextMint c env else exitIfQuiet c
  else if c.dkgState = .complete ∧ c.signingDone then exitIfQuiet c
  else c

/-! ## Events -/

inductive Event where
  | loopHead (env : TbsEnv)
  | expire (now : Nat) (env : Fin maxSessions → Env)
  | hello (env : HelloEnv) (payload : Bytes)
  | drain (i : Nat)
  | disconnect (i : Nat)
  | frame (i : Nat) (f : Frame) (env : Env)

/-- One event. Frames, writes and disconnections are of registered signers. -/
def step (c : Coord) (e : Event) : Coord :=
  if c.exited then c
  else match e with
    | .loopHead env => loopHead c env
    | .expire now env =>
      if c.mode = .sign ∧ c.signingDone = false then roastExpireSessions c now env else c
    | .hello env payload => (onHello c env payload).1
    | .drain i => if i ∈ c.signers then drainSignerWrite c i else c
    | .disconnect i => if i ∈ c.signers then removeSigner c i else c
    | .frame i f env => if i ∈ c.signers then processSignerFrame c env i f else c

section Step

variable {c : Coord}

theorem step_exited (hx : c.exited = true) (e : Event) : step c e = c := if_pos hx

theorem step_loopHead (hx : c.exited = false) (env : TbsEnv) :
    step c (.loopHead env) = loopHead c env := by
  simp only [step, hx, Bool.false_eq_true, if_false]

theorem step_expire (hx : c.exited = false) (now : Nat) (env : Fin maxSessions → Env) :
    step c (.expire now env) =
      if c.mode = .sign ∧ c.signingDone = false then roastExpireSessions c now env else c := by
  simp only [step, hx, Bool.false_eq_true, if_false]

theorem step_hello (hx : c.exited = false) (env : HelloEnv) (payload : Bytes) :
    step c (.hello env payload) = (onHello c env payload).1 := by
  simp only [step, hx, Bool.false_eq_true, if_false]

theorem step_drain (hx : c.exited = false) (i : Nat) :
    step c (.drain i) = if i ∈ c.signers then drainSignerWrite c i else c := by
  simp only [step, hx, Bool.false_eq_true, if_false]

theorem step_disconnect (hx : c.exited = false) (i : Nat) :
    step c (.disconnect i) = if i ∈ c.signers then removeSigner c i else c := by
  simp only [step, hx, Bool.false_eq_true, if_false]

theorem step_frame (hx : c.exited = false) (i : Nat) (f : Frame) (env : Env) :
    step c (.frame i f env) = if i ∈ c.signers then processSignerFrame c env i f else c := by
  simp only [step, hx, Bool.false_eq_true, if_false]

theorem step_drain_of_mem (hx : c.exited = false) {i : Nat} (hi : i ∈ c.signers) :
    step c (.drain i) = drainSignerWrite c i := (step_drain hx i).trans (if_pos hi)

theorem step_frame_of_mem (hx : c.exited = false) {i : Nat} (hi : i ∈ c.signers) (f : Frame)
    (env : Env) : step c (.frame i f env) = processSignerFrame c env i f :=
  (step_frame hx i f env).trans (if_pos hi)

theorem drainSignerWrite_self {i : Nat} {f : Frame} {fs : List Frame}
    (hq : (c.sg i).msgq = f :: fs) :
    (drainSignerWrite c i).sg i = { c.sg i with msgq := fs } := by
  unfold drainSignerWrite
  rw [Coord.setSg_self, hq]
  rfl

end Step

/-! ## Starting states -/

/-- The globals before the options are read. -/
def Coord.boot (mode : CoordMode) (n t serial validitySecs toMint : Nat) (pubKeyPkg : Bytes)
    (pubPkgHex : Option Bytes) : Coord where
  mode := mode
  dkgState := .idle
  n := n
  t := t
  pubKeyPkg := pubKeyPkg
  pubPkgHex := pubPkgHex
  tbs := []
  tbsHex := []
  dummyCert := []
  sessions := fun _ => RoastSession.zero
  nextSessionId := 1
  signingDone := false
  roastFail := false
  blacklist := []
  strikes := fun _ => 0
  serial := serial
  validitySecs := validitySecs
  outputFile := .option
  numMinted := 0
  toMint := toMint
  certs := []
  refreshCompleteCount := 0
  signers := []
  sg := fun _ => SignerRec.new
  exited := false

/-- The state `main` enters its loop in: in sign mode a non-empty package has
been loaded and `prepare_tbs` has succeeded. `--n` and `--t` are read with
`%hu`. -/
inductive Started : Coord → Prop where
  | dkg (n t serial secs toMint : Nat) (file : Option Bytes) (hn : n < 65536) (ht : t < 65536)
      (hs : serial < 2 ^ 64) (hm : toMint < 2 ^ 64) :
      Started (Coord.boot .dkg n t serial secs toMint [] file)
  | refresh (n t serial secs toMint : Nat) (file : Bytes) (hn : n < 65536) (ht : t < 65536)
      (hs : serial < 2 ^ 64) (hm : toMint < 2 ^ 64) :
      Started (Coord.boot .refresh n t serial secs toMint [] (some file))
  | sign (n t serial secs toMint : Nat) (file : Bytes) (env : TbsEnv) {c : Coord} (hn : n < 65536)
      (ht : t < 65536) (hs : serial < 2 ^ 64) (hm : toMint < 2 ^ 64) (hf : file ≠ [])
      (h : prepareTbs (Coord.boot .sign n t serial secs toMint file (some file)) env = (c, true)) :
      Started c

end FrostSshCa.Coordinator
