import FrostSshCa.Coordinator.State
import FrostSshCa.Wire.Text

/-!
# DKG and refresh helpers of the coordinator

The relays and the completion checks of the two ceremonies. They share
`g_dkg_state`, the round-1 buffers and the `r2_complete` flags, and differ in
the message types they send.
-/

namespace FrostSshCa.Coordinator

variable (c : Coord)

/-- Number of registered signers with property `p`. -/
def Coord.count (p : SignerRec → Bool) : Nat := c.signers.countP fun i => p (c.sg i)

/-- The body shared by `maybe_start_dkg` and `maybe_start_refresh`. -/
def Coord.maybeStart (type : MsgType) (word : Bytes) : Coord :=
  if c.dkgState ≠ .idle then c
  else if c.signers.length < c.n then c
  else ({ c with dkgState := .collectingR1 } : Coord).broadcast type (printTwo word c.n c.t)

def maybeStartDkg : Coord := c.maybeStart .startDkg (ascii "START_DKG")

def maybeStartRefresh : Coord := c.maybeStart .startRefresh (ascii "START_REFRESH")

/-- `relay_r1_to_all` and `relay_refresh_r1_to_all`: `[sender id][r1_pkg]` under
the sender's own signature to every other registered signer. -/
def Coord.relayR1 (type : MsgType) (sender : Nat) : Coord :=
  c.signers.foldl (fun c i =>
    if i ≠ sender then
      c.signerSend i type (c.sg sender).r1Sig (be16 sender ++ (c.sg sender).r1Pkg)
    else c) c

def relayR1ToAll (sender : Nat) : Coord := c.relayR1 .relayR1 sender

def relayRefreshR1ToAll (sender : Nat) : Coord := c.relayR1 .relayRefreshR1 sender

/-- `relay_r2_to_target` and the routing loop of `REFRESH_R2`. -/
def Coord.relayR2 (type : MsgType) (target : Nat) (sig payload : Bytes) : Coord :=
  if target ∈ c.signers then c.signerSend target type sig payload else c

def relayR2ToTarget (target : Nat) (sig payload : Bytes) : Coord :=
  c.relayR2 .relayR2 target sig payload

/-- The body shared by `check_r1_complete` and `check_refresh_r1_complete`. -/
def Coord.checkR1 (relay : Coord → Nat → Coord) : Coord :=
  if c.count (fun r => 0 < r.r1Pkg.length) < c.n then c
  else c.signers.foldl relay { c with dkgState := .collectingR2 }

def checkR1Complete : Coord := c.checkR1 relayR1ToAll

def checkRefreshR1Complete : Coord := c.checkR1 relayRefreshR1ToAll

/-- The body shared by `check_r2_complete` and `check_refresh_r2_complete`. -/
def Coord.checkR2 (type : MsgType) (payload : Bytes) : Coord :=
  if c.count (·.r2Complete) < c.n then c
  else { c.broadcast type payload with dkgState := .complete }

def checkR2Complete : Coord := c.checkR2 .dkgDone (ascii "DKG_DONE " ++ decimal c.n ++ [10])

def checkRefreshR2Complete : Coord := c.checkR2 .refreshFinalize []

def checkRefreshAllConfirmed : Coord :=
  if c.refreshCompleteCount < c.n then c
  else { c.broadcast .refreshConfirmed [] with signingDone := true }

/-! ## Frames of the two ceremonies -/

/-- `ROUND1_PKG` and `REFRESH_R1` once their guards have passed. -/
def storeR1 (check : Coord → Coord) (i : Nat) (f : Frame) : Coord :=
  if f.payload.length > maxPayload then c
  else check (c.setSg i fun r => { r with r1Sig := overwrite r.r1Sig f.sig, r1Pkg := f.payload })

/-- The destination field of a round-2 payload `[src][dst][…]`. -/
def r2Target : Bytes → Option Nat
  | _ :: _ :: hi :: lo :: _ => some (ofBe16 hi lo)
  | _ => none

def onRound1Pkg (i : Nat) (f : Frame) : Coord :=
  if c.dkgState ≠ .collectingR1 then c else storeR1 c checkR1Complete i f

/-- `ROUND2_PKG`: no test of the mode or the state. -/
def onRound2Pkg (f : Frame) : Coord :=
  match r2Target f.payload with
  | none => c
  | some target => relayR2ToTarget c target f.sig f.payload

def onR2Complete (i : Nat) : Coord :=
  if (c.sg i).r2Complete then c
  else checkR2Complete (c.setSg i fun r => { r with r2Complete := true })

def onRefreshR1 (i : Nat) (f : Frame) : Coord :=
  if c.mode ≠ .refresh || c.dkgState ≠ .collectingR1 then c
  else storeR1 c checkRefreshR1Complete i f

def onRefreshR2 (f : Frame) : Coord :=
  if c.mode ≠ .refresh then c
  else match r2Target f.payload with
    | none => c
    | some target => c.relayR2 .relayRefreshR2 target f.sig f.payload

def onRefreshR2Complete (i : Nat) : Coord :=
  if c.mode ≠ .refresh || (c.sg i).r2Complete then c
  else checkRefreshR2Complete (c.setSg i fun r => { r with r2Complete := true })

/-- The head of `REFRESH_COMPLETE` and `PUB_KEY_PKG`: file the report, count it. -/
def fileReport (i : Nat) (f : Frame) : Coord :=
  { c.setSg i (fun r => { r with pubKeyPkg := f.payload }) with
    refreshCompleteCount := c.refreshCompleteCount + 1 }

/-- What the comparison loop can find between neighbours of the signer list. -/
inductive PubKeyMismatch where
  | noPkg (id : Nat)
  | lengths (id id' : Nat)
  | bytes (id id' : Nat)
  deriving DecidableEq, Repr

/-- The comparison loop of both cases, from its neighbour `p`. It only prints
what it finds: its `break`s leave the loop and not the case, and the code after
it goes on as if all packages were identical. -/
def comparePkgs (p : Nat) : List Nat → Option PubKeyMismatch
  | [] => none
  | i :: is =>
    if (c.sg i).pubKeyPkg.length = 0 then some (.noPkg i)
    else if (c.sg p).pubKeyPkg.length ≠ (c.sg i).pubKeyPkg.length then some (.lengths p i)
    else if (c.sg p).pubKeyPkg ≠ (c.sg i).pubKeyPkg then some (.bytes p i)
    else comparePkgs i is

def pubKeyMismatch : Option PubKeyMismatch :=
  match c.signers with
  | [] => none
  | p :: is => comparePkgs c p is

/-- Set `g_pub_key_pkg` and write `pub_key_pkg.hex` if it can be opened. -/
def storePubKeyPkg (env : Env) (pkg : Bytes) : Coord :=
  { c with pubKeyPkg := pkg, pubPkgHex := if env.pubPkgWritable then some pkg else c.pubPkgHex }

def onRefreshComplete (env : Env) (i : Nat) (f : Frame) : Coord :=
  let c := fileReport c i f
  if c.refreshCompleteCount < c.n then c
  else
    let c := if c.pubKeyPkg.length = 0 ∧ 0 < f.payload.length then storePubKeyPkg c env f.payload
      else c
    checkRefreshAllConfirmed c

def onPubKeyPkg (env : Env) (i : Nat) (f : Frame) : Coord :=
  let c := fileReport c i f
  if c.refreshCompleteCount < c.n then c
  else if f.payload.length > maxPayload then c
  else { storePubKeyPkg c env f.payload with signingDone := true }

end FrostSshCa.Coordinator
