import FrostSshCa.Coordinator.Link
import FrostSshCa.Signer.Nonce

/-!
# The coordinator and its signers

One coordinator, the signer processes and the TLS channels between them. The
frames for signer `i` wait in its `msgq` at the coordinator, then in `down i`;
those of `i` wait in its `outq` until the coordinator reads them. Both ways are
FIFO, and an event moves one frame or runs one block of the event loop.
-/

namespace FrostSshCa.System

open Coordinator Signer Lib

structure Sys where
  coord : Coord
  node : Nat → Node
  down : Nat → List Frame

/-- What can happen next. A signer that does not follow the code is not run: its
frames are forged. -/
inductive Event where
  | loopHead (env : TbsEnv)
  | expire (now : Nat) (env : Fin maxSessions → Coordinator.Env)
  /-- `frost_signer` is started as signer `i` and connects. -/
  | launch (i n t : Nat)
  /-- The coordinator completes a write to signer `i`. -/
  | write (i : Nat)
  /-- Signer `i` completes the read of a frame. -/
  | deliver (i : Nat) (env : Signer.Env)
  /-- The coordinator completes the read of a frame of signer `i`. -/
  | receive (i : Nat) (hello : HelloEnv) (env : Coordinator.Env)
  /-- The coordinator reads any frame at all from the holder of `i`'s TLS key. -/
  | forge (i : Nat) (f : Frame) (hello : HelloEnv) (env : Coordinator.Env)
  /-- The connection of signer `i` ends, and with it the process. -/
  | leave (i : Nat)

variable (keys : Keys) (s : Sys)

def Sys.setNode (i : Nat) (x : Node) : Sys := { s with node := Function.update s.node i x }

def Sys.setDown (i : Nat) (fs : List Frame) : Sys := { s with down := Function.update s.down i fs }

/-- The TLS certificate of `i` matches no other id. -/
def ownId (i : Nat) (hello : HelloEnv) : HelloEnv :=
  { hello with identityOk := fun pid => pid = i && hello.identityOk pid }

/-- The process ends. -/
def stopNode (x : Node) : Node := { x with exited := true }

/-- A frame on a staged connection: a `HELLO` that is refused, or any other
frame, ends it. -/
def Sys.stage (i : Nat) (f : Frame) (hello : HelloEnv) : Sys :=
  if f.type = .hello then
    let s' : Sys := { s with coord := Coordinator.step s.coord (.hello (ownId i hello) f.payload) }
    if i ∈ s'.coord.signers then s' else s'.setNode i (stopNode (s'.node i))
  else s.setNode i (stopNode (s.node i))

/-- The connection of `i` ends, and its process with it. What the coordinator
wrote before its own end can still be read. -/
def Sys.drop (i : Nat) : Sys :=
  if s.coord.exited then s.setNode i (stopNode (s.node i))
  else
    (({ s with coord := Coordinator.step s.coord (.disconnect i) } : Sys).setNode i
      { stopNode (s.node i) with outq := [] }).setDown i []

/-- The coordinator reads `f` from `i`. A payload over the limit leaves
`gnutls_record_recv` no room, and the connection is closed. -/
def Sys.read (i : Nat) (f : Frame) (hello : HelloEnv) (env : Coordinator.Env) : Sys :=
  if s.coord.exited then s
  else if f.payload.length > maxPayload then s.drop i
  else if i ∈ s.coord.signers then { s with coord := Coordinator.step s.coord (.frame i f env) }
  else s.stage i f hello

/-- One event; what cannot happen changes nothing. -/
def step (s : Sys) : Event → Sys
  | .loopHead env => { s with coord := Coordinator.step s.coord (.loopHead env) }
  | .expire now env => { s with coord := Coordinator.step s.coord (.expire now env) }
  | .launch i n t =>
    if Args i n t ∧ (s.node i).exited ∧ i ∉ s.coord.signers then
      (s.setNode i (Node.start keys i n t)).setDown i []
    else s
  | .write i =>
    match (s.coord.sg i).msgq with
    | [] => s
    | f :: _ =>
      if s.coord.exited || i ∉ s.coord.signers then s
      else ({ s with coord := Coordinator.step s.coord (.drain i) } : Sys).setDown i
        (s.down i ++ [f])
  | .deliver i env =>
    match s.down i with
    | [] => s
    | f :: fs =>
      if (s.node i).exited then s
      else (s.setNode i (Signer.step keys (s.node i) (f, env))).setDown i fs
  | .receive i hello env =>
    match (s.node i).outq with
    | [] => s
    | f :: fs => (s.setNode i { s.node i with outq := fs }).read i f hello env
  | .forge i f hello env => s.read i f hello env
  | .leave i => s.drop i

/-- Nobody is connected yet. -/
def Sys.boot (c : Coord) : Sys where
  coord := c
  node := fun i => stopNode (Node.boot i 0 0)
  down := fun _ => []

/-- The frames on their way to signer `i`, next one first. -/
def Sys.queue (i : Nat) : List Frame := s.down i ++ (s.coord.sg i).msgq

/-! ## Frames of sign mode -/

def isReq (f : Frame) : Bool := f.type = .signReq

def isRelay (f : Frame) : Bool := f.type = .relayCommit

def isCommit (f : Frame) : Bool := f.type = .commit

/-- The requests of signer `i` that are not answered yet, and the answers the
coordinator has not read. -/
def Sys.unanswered (i : Nat) : Nat :=
  (s.queue i).countP isReq + (s.node i).outq.countP isCommit

end FrostSshCa.System
