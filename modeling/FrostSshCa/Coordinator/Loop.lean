import FrostSshCa.Lib.Refine
import FrostSshCa.Wire.PubKeys
import FrostSshCa.Wire.Transport
import FrostSshCa.Coordinator.Options
import FrostSshCa.Coordinator.Outgoing

/-!
# A pass of the event loop

The loop of `main` down to what `select`, `gnutls_record_recv` and
`gnutls_record_send` return: the buffers and flags of each connection, the staged
connections and the key cache beside the state of the coordinator. A pass serves
every connection that is ready; seen from the coordinator it is a run of events.
-/

namespace FrostSshCa.Coordinator

open Lib

/-! ## Connections -/

/-- What `gnutls_record_recv` returns; `writes` is `gnutls_record_get_direction`. -/
inductive Recv where
  | again (writes : Bool)
  | ended
  | bytes (bs : Bytes)

/-- What `gnutls_record_send` returns. -/
inductive Send where
  | again (writes : Bool)
  | failed
  | wrote (k : Nat)

/-- A session with its socket: `inbuf` up to `inptr`, `want_write`, and `sent` of the
message at the head of its queue. -/
structure Conn where
  sockfd : Nat
  peer : Peer
  buf : Bytes
  wantWrite : Bool
  sent : Nat

def Conn.fresh (sockfd : Nat) (peer : Peer) : Conn := ⟨sockfd, peer, [], false, 0⟩

/-- The memory from `inbuf` on: what has been received, then what was there before. -/
def inbufAt (got : Bytes) (stale : Nat → UInt8) (k : Nat) : UInt8 := (got[k]?).getD (stale k)

/-- A read of the loop: `none` where the connection is removed, else what becomes of it
and the frame in its buffer, once that is whole. -/
def Conn.recv (x : Conn) (stale : Nat → UInt8) : Recv → Option (Conn × Option Frame)
  | .again d => some ({ x with wantWrite := d }, none)
  | .ended => none
  | .bytes bs =>
    let got := bs.take (frameMax - x.buf.length)
    if got = [] then none
    else match acceptFrame (inbufAt (x.buf ++ got) stale) (x.buf ++ got).length with
    | none => some ({ x with buf := x.buf ++ got }, none)
    | some f => some ({ x with buf := [] }, some f)

/-- A write of a message of `len` bytes; the flag is set with its last byte. -/
def Conn.send (x : Conn) (len : Nat) : Send → Option (Conn × Bool)
  | .again d => some ({ x with wantWrite := d }, false)
  | .failed => none
  | .wrote k =>
    let sent := x.sent + min k (len - x.sent)
    if sent ≥ len then some ({ x with wantWrite := false, sent := 0 }, true)
    else some ({ x with wantWrite := false, sent := sent }, false)

/-- `struct staged_conn` -/
structure Staged extends Conn where
  msgq : List Frame

/-! ## The state of the loop -/

structure Loop (Key : Type) where
  coord : Coord
  staged : List Staged
  /-- The connection of each registered signer. -/
  conn : Nat → Conn
  cache : KeyCache Key
  /-- Control is past the loop. -/
  left : Bool

/-- Before the first pass. -/
def Loop.boot {Key : Type} (c : Coord) : Loop Key where
  coord := c
  staged := []
  conn := fun _ => .fresh 0 ⟨false, []⟩
  cache := .empty
  left := false

/-- `select`; the sets it returns are tested with `FD_ISSET`. -/
inductive Select where
  | interrupted
  | failed
  | timeout
  | ready (read write : Nat → Bool)

/-- What the outside answers in one pass, by socket or by signer. -/
structure World where
  tbs : TbsEnv
  select : Select
  /-- The clock and the subprocesses of `roast_expire_sessions`. -/
  now : Nat
  scan : Fin maxSessions → Env
  /-- A connection that got through `accept` and the handshake. -/
  accepted : Option (Nat × Peer)
  recv : Nat → Recv
  send : Nat → Send
  /-- What lies in an input buffer beyond the bytes received, and behind it. -/
  stale : Nat → Nat → UInt8
  /-- The certificate files, when a `HELLO` of this socket is checked. -/
  files : Nat → Files
  /-- The subprocesses while a frame of this signer is processed. -/
  env : Nat → Env

/-- The two `fd_set`s after `select`. -/
structure Sets where
  read : Nat → Bool
  write : Nat → Bool

def waitsToWrite (x : Conn) (msgq : List Frame) : Bool := x.wantWrite || !msgq.isEmpty

section Pass

variable {Cert Key : Type} (tls : Gnutls Cert Key) (w : World) (sets : Sets) (l : Loop Key)

/-- Each socket with the set it is put in: `true` is `writeset`. -/
def Loop.interest : List (Nat × Bool) :=
  (l.coord.signers.map fun i =>
    ((l.conn i).sockfd, waitsToWrite (l.conn i) (l.coord.sg i).msgq)) ++
  l.staged.map fun st => (st.sockfd, waitsToWrite st.toConn st.msgq)

def Loop.fdSets (read write : Nat → Bool) : Sets where
  read fd := (fd, false) ∈ l.interest && read fd
  write fd := (fd, true) ∈ l.interest && write fd

def Loop.setConn (i : Nat) (x : Conn) : Loop Key :=
  { l with conn := Function.update l.conn i x }

/-- A staged connection that stays. -/
def Loop.keep (st : Staged) : Loop Key := { l with staged := l.staged ++ [st] }

/-- The two identity checks of a `HELLO`. -/
def helloEnv (files : Files) (cache : KeyCache Key) (peer : Peer) : HelloEnv where
  pubkeyCached pid := (ensureSignerPubkeyCached tls files cache pid).2
  identityOk pid := verifyPeerTlsIdentity tls (ensureSignerPubkeyCached tls files cache pid).1 peer
    pid

/-- The cache after a `HELLO`: it is filled when `n` and `t` have been agreed on. -/
def cacheAfter (files : Files) (cache : KeyCache Key) (c : Coord) (payload : Bytes) :
    KeyCache Key :=
  match parseHello payload with
  | none => cache
  | some (pid, pn, pt) =>
    if c.n ≠ 0 ∧ (pn ≠ c.n ∨ pt ≠ c.t) then cache
    else (ensureSignerPubkeyCached tls files cache pid).1

/-- A whole frame on a staged connection. Any but a `HELLO` ends it, and so does the
answer to one that is refused, once it is written. -/
def onStagedFrame (st : Staged) (f : Frame) : Loop Key :=
  if f.type ≠ .hello then l
  else
    let files := w.files st.sockfd
    let cache := cacheAfter tls files l.cache l.coord f.payload
    match onHello l.coord (helloEnv tls files l.cache st.peer) f.payload with
    | (c, .error text) => ({ l with coord := c, cache := cache } : Loop Key).keep
        { st with msgq := st.msgq ++ [⟨.error, [], text⟩] }
    | (c, .ok pid) =>
      ({ l with coord := c, cache := cache } : Loop Key).setConn pid (.fresh st.sockfd st.peer)

/-- `drain_staged_write`: a message written whole closes the connection. -/
def drainStagedWrite (st : Staged) : Loop Key :=
  match st.msgq with
  | [] => l.keep st
  | m :: _ => match st.send m.bytes.length (w.send st.sockfd) with
    | none => l
    | some (x, false) => l.keep { st with toConn := x }
    | some (_, true) => l

/-- The loop over the staged connections; each is put back or left out. -/
def serviceStaged (st : Staged) : Loop Key :=
  if sets.write st.sockfd then drainStagedWrite w l st
  else if !sets.read st.sockfd then l.keep st
  else match st.recv (w.stale st.sockfd) (w.recv st.sockfd) with
    | none => l
    | some (x, none) => l.keep { st with toConn := x }
    | some (x, some f) => onStagedFrame tls w l { st with toConn := x } f

/-- `drain_signer_write` -/
def drainSigner (i : Nat) : Loop Key :=
  match (l.coord.sg i).msgq with
  | [] => l
  | m :: _ => match (l.conn i).send m.bytes.length (w.send (l.conn i).sockfd) with
    | none => { l with coord := removeSigner l.coord i }
    | some (x, false) => l.setConn i x
    | some (x, true) => { l.setConn i x with coord := drainSignerWrite l.coord i }

/-- The loop over the registered signers. -/
def serviceSigner (i : Nat) : Loop Key :=
  if sets.write (l.conn i).sockfd then drainSigner w l i
  else if !sets.read (l.conn i).sockfd then l
  else match (l.conn i).recv (w.stale (l.conn i).sockfd) (w.recv (l.conn i).sockfd) with
    | none => { l with coord := removeSigner l.coord i }
    | some (x, none) => l.setConn i x
    | some (x, some f) =>
      { l.setConn i x with coord := processSignerFrame l.coord (w.env i) i f }

/-- Expired sessions, once `select` has returned. -/
def Loop.expire : Loop Key :=
  if l.coord.mode = .sign ∧ l.coord.signingDone = false then
    { l with coord := roastExpireSessions l.coord w.now w.scan }
  else l

def Loop.accept : Loop Key :=
  match w.accepted with
  | none => l
  | some (fd, peer) => { l with staged := ⟨.fresh fd peer, []⟩ :: l.staged }

/-- Both service loops. -/
def Loop.service : Loop Key :=
  let l := l.staged.foldl (serviceStaged tls w sets) { l with staged := [] }
  l.coord.signers.foldl (serviceSigner w sets) l

/-- One pass of `for (;;)`. -/
def pass (l : Loop Key) (w : World) : Loop Key :=
  if l.left then l
  else
    let l := { l with coord := loopHead l.coord w.tbs }
    if l.coord.exited then { l with left := true }
    else match w.select with
    | .interrupted => l
    | .failed => { l with left := true }
    | .timeout => l.expire w
    | .ready read write => ((l.expire w).accept w).service tls w (l.fdSets read write)

end Pass

end FrostSshCa.Coordinator
