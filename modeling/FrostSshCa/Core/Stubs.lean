import FrostSshCa.Core.Requests
import FrostSshCa.Wire.HexDecoders

/-!
# What the stubs make of the core's answer

The second half of `popen_multi` and of the stubs of `frost_stubs.c`: the lines read from the
subprocess, each decoded into an output buffer, and the length stored beside it.
-/

namespace FrostSshCa.Stubs

open Lib FrostSshCa.Core

/-- What a subprocess writes, and the status `pclose` returns. -/
structure Child where
  text : Bytes
  status : Nat
  deriving DecidableEq, Repr

/-- An output buffer and the `uint16_t` with its length. -/
structure Out where
  buf : Bytes
  len : Nat
  deriving DecidableEq, Repr

/-- A peer's output buffer and the id beside it. -/
structure PeerOut extends Out where
  id : Nat
  deriving DecidableEq, Repr

/-! ## `popen_multi` -/

/-- The trailing line end is taken off. -/
def chomp (line : Bytes) : Bytes := if line.getLast? = some 10 then line.dropLast else line

/-- What stands in the line's buffer after `fgets`. -/
def heard (line : Bytes) : Bytes := chomp (cstr line)

/-- The loop over the output lines. -/
def readLines : List Nat → Bytes → Option (List Bytes)
  | [], _ => some []
  | size :: sizes, text =>
    (fgets size text).bind fun (line, rest) =>
      if (ascii "ERROR:").isPrefixOf (heard line) then none
      else (readLines sizes rest).map (heard line :: ·)

/-- `popen_multi`, once its input is written; `none` is its `-1`. -/
def popenMulti (child : Option Child) (sizes : List Nat) : Option (List Bytes) :=
  child.bind fun c => (readLines sizes c.text).bind fun lines =>
    if c.status = 0 then some lines else none

/-! ## Decoding -/

/-- The bytes stored at the start of the buffer. -/
def Out.write (o : Out) (bs : Bytes) : Out := { o with buf := bs ++ o.buf.drop bs.length }

/-- `hex_to_bytes(line, buf, FROST_MAX_PAYLOAD)` -/
def Out.decode (o : Out) (line : Bytes) : Int × Out :=
  ((hexToBytes line maxPayload).1, o.write (hexToBytes line maxPayload).2)

/-- `*len = (uint16_t)n` -/
def Out.setLen (o : Out) (n : Int) : Out := { o with len := asUInt16 n }

/-- `(uint16_t)atoi(..)`: out of range, `strtol` answers the end of the range. -/
def atoiU16 (bs : Bytes) : Nat :=
  let bs := scanWs bs
  let neg := bs.head? = some 45
  let v := (scanDigits 0 (if neg ∨ bs.head? = some 43 then bs.tail else bs)).1
  if neg then (2 ^ 16 - min v (2 ^ 63) % 2 ^ 16) % 2 ^ 16 else min v (2 ^ 63 - 1) % 2 ^ 16

/-- `sscanf(line, "%u", &tid)` on a `tid` of 0, as a `uint16_t`. -/
def scanTid (bs : Bytes) : Nat := ((scanU16 bs).map Prod.fst).getD 0

/-! ## The stubs -/

variable (core : Invocation → Option Child)

/-- Two lines, both decoded before either is looked at. -/
def twoBlobs (inv : Option Invocation) (a b : Out) : Int × Out × Out :=
  match popenMulti (inv.bind core) [hexLineMax, hexLineMax] with
  | some [la, lb] =>
    let ra := a.decode la
    let rb := b.decode lb
    if ra.1 < 0 ∨ rb.1 < 0 then (-1, ra.2, rb.2) else (0, ra.2.setLen ra.1, rb.2.setLen rb.1)
  | _ => (-1, a, b)

def frostDkgPart1 (id n t : Nat) (secret pkg : Out) : Int × Out × Out :=
  twoBlobs core (Core.frostDkgPart1 id n t) secret pkg

def frostRefreshPart1 (myId n t : Nat) (r1Secret r1Pkg : Out) : Int × Out × Out :=
  twoBlobs core (Core.frostRefreshPart1 myId n t) r1Secret r1Pkg

def frostRefreshShares (n : Nat) (r2Secret : Bytes) (r1 r2 : List (Nat × Bytes))
    (oldKey oldPub : Bytes) (newKey newPub : Out) : Int × Out × Out :=
  twoBlobs core (Core.frostRefreshShares n r2Secret r1 r2 oldKey oldPub) newKey newPub

def frostCommit (myId : Nat) (keyPkg : Bytes) (nonces commit : Out) : Int × Out × Out :=
  twoBlobs core (Core.frostCommit myId keyPkg) nonces commit

/-- The first length is stored before the second line is decoded, and what that comes to is
stored as it is. -/
def frostDkgPart3 (myId : Nat) (r2Secret : Bytes) (r1 r2 : List (Nat × Bytes)) (key pub : Out) :
    Int × Out × Out :=
  match popenMulti ((Core.frostDkgPart3 myId r2Secret r1 r2).bind core)
    [hexLineMax, hexLineMax] with
  | some [lk, lp] =>
    let rk := key.decode lk
    if rk.1 < 0 then (-1, rk.2, pub)
    else
      let rp := pub.decode lp
      (0, rk.2.setLen rk.1, rp.2.setLen rp.1)
  | _ => (-1, key, pub)

def frostSign (myId : Nat) (signingPkg nonces keyPkg : Bytes) (share : Out) : Int × Out :=
  match popenMulti ((Core.frostSign myId signingPkg nonces keyPkg).bind core) [hexLineMax] with
  | some [l] =>
    let r := share.decode l
    if r.1 < 0 then (-1, r.2) else (0, r.2.setLen r.1)
  | _ => (-1, share)

/-- The loop over the peer lines, from row `i` on; the flag is `false` for `return -1`. -/
def readPeers (parseId : Bytes → Nat) : Nat → List Bytes → (Nat → PeerOut) → Bool × (Nat → PeerOut)
  | _, [], ps => (true, ps)
  | i, line :: lines, ps => match cutAt 32 line with
    | (_, none) => (false, ps)
    | (tid, some hex) =>
      let r := (ps i).toOut.decode hex
      if r.1 < 0 then (false, Function.update ps i ⟨r.2, parseId tid⟩)
      else readPeers parseId (i + 1) lines (Function.update ps i ⟨r.2.setLen r.1, parseId tid⟩)

/-- The secret on the first line, then a line for each peer. -/
def secretAndPeers (parseId : Bytes → Nat) (inv : Option Invocation) (size n : Nat) (secret : Out)
    (peers : Nat → PeerOut) : Int × Out × (Nat → PeerOut) :=
  match popenMulti (inv.bind core) (List.replicate (n + 1) size) with
  | some (l :: lines) =>
    let r := secret.decode l
    if r.1 < 0 then (-1, r.2, peers)
    else
      let p := readPeers parseId 0 lines peers
      (if p.1 then 0 else -1, r.2.setLen r.1, p.2)
  | _ => (-1, secret, peers)

def frostDkgPart2 (myId : Nat) (r1Secret : Bytes) (r1 : List (Nat × Bytes)) (r2Secret : Out)
    (peers : Nat → PeerOut) : Int × Out × (Nat → PeerOut) :=
  secretAndPeers core scanTid (Core.frostDkgPart2 myId r1Secret r1) (hexLineMax + 8) r1.length
    r2Secret peers

def frostRefreshPart2 (myId : Nat) (r1Secret : Bytes) (r1 : List (Nat × Bytes)) (r2Secret : Out)
    (peers : Nat → PeerOut) : Int × Out × (Nat → PeerOut) :=
  secretAndPeers core atoiU16 (Core.frostRefreshPart2 myId r1Secret r1) hexLineMax r1.length
    r2Secret peers

/-- One line, straight from `fgets`. -/
def frostAssembleSigningPackage (b : CommitBundle) (spkg : Out) : Int × Out :=
  match (core (frostAssemble b)).bind fun c => (fgets hexLineMax c.text).map fun r => (r.1, c.status) with
  | some (line, status) =>
    if status ≠ 0 then (-1, spkg)
    else
      let r := spkg.decode line
      if r.1 ≤ 0 then (-1, r.2) else (0, r.2.setLen r.1)
  | none => (-1, spkg)

/-! ## What a report is worth -/

/-- The bytes a line of hex stands for. -/
def blob (line : Bytes) : Option Bytes :=
  if 0 ≤ (hexToBytes line maxPayload).1 then some (hexToBytes line maxPayload).2 else none

/-- The bytes of a line with an id before them. -/
def peerBlob (line : Bytes) : Option Bytes := (cutAt 32 (cstr line)).2.bind blob

/-- A secret, then peers. -/
def secretThenPeers (i : Nat) : Bytes → Option Bytes := if i = 0 then blob else peerBlob

/-- The buffer holds these bytes, and its length is theirs. -/
structure Out.Holds (o : Out) (bs : Bytes) : Prop where
  len : o.len = bs.length
  size : bs.length ≤ maxPayload
  buf : o.buf.take bs.length = bs

/-- What a stub returns is true of its buffers: after a 0 each holds the decoding of its line of
the output, after a -1 no length is another. -/
structure Report (child : Option Child) (dec : Nat → Bytes → Option Bytes) (before : List Out)
    (ret : Int) (after : List Out) : Prop where
  success : ret = 0 → ∃ c, child = some c ∧ c.status = 0 ∧ ∀ i o, after[i]? = some o →
    ∃ line bs, (splitLines 10 c.text)[i]? = some line ∧ dec i line = some bs ∧ o.Holds bs
  failure : ret = -1 → after.map Out.len = before.map Out.len

/-- So for every stub with one output, whatever its buffer held. -/
def Reports (child : Option Child) (stub : Out → Int × Out) : Prop :=
  ∀ o, Report child (fun _ => blob) [o] (stub o).1 [(stub o).2]

def ReportsTwo (child : Option Child) (stub : Out → Out → Int × Out × Out) : Prop :=
  ∀ a b, Report child (fun _ => blob) [a, b] (stub a b).1 [(stub a b).2.1, (stub a b).2.2]

/-- The rows of the peers. -/
def rows (n : Nat) (ps : Nat → PeerOut) : List Out := (List.range n).map fun i => (ps i).toOut

def ReportsPeers (n : Nat) (child : Option Child)
    (stub : Out → (Nat → PeerOut) → Int × Out × (Nat → PeerOut)) : Prop :=
  ∀ o ps, Report child secretThenPeers (o :: rows n ps) (stub o ps).1
    ((stub o ps).2.1 :: rows n (stub o ps).2.2)

/-! ## The text a stub reads -/

/-- The text as `fgets` cuts it: at the line ends, and where a buffer is full. -/
def pieces : List Nat → Bytes → Option (List Bytes)
  | [], _ => some []
  | size :: sizes, text =>
    (fgets size text).bind fun (line, rest) => (pieces sizes rest).map (heard line :: ·)

/-- The core succeeds, and its text has as many pieces as there are buffers, none of them an
error message. -/
structure Delivered (sizes : List Nat) (c : Child) (ps : List Bytes) : Prop where
  status : c.status = 0
  cut : pieces sizes c.text = some ps
  noError : ∀ p ∈ ps, (ascii "ERROR:").isPrefixOf p = false

def Decodes (dec : Nat → Bytes → Option Bytes) (ps : List Bytes) : Prop :=
  ∀ i p, ps[i]? = some p → (dec i p).isSome = true

/-- Each piece stands for the line in its place. -/
def InPlace (dec : Nat → Bytes → Option Bytes) (text : Bytes) (ps : List Bytes) : Prop :=
  ∀ i p, ps[i]? = some p → ∃ line, (splitLines 10 text)[i]? = some line ∧ dec i line = dec i p

/-- Pieces that all decode are what the lines are. -/
def Placed (dec : Nat → Bytes → Option Bytes) (sizes : List Nat) (child : Option Child) : Prop :=
  ∀ c ps, child = some c → Delivered sizes c ps → Decodes dec ps → InPlace dec c.text ps

/-- If the first piece decodes, all do. -/
def Whole (dec : Nat → Bytes → Option Bytes) (sizes : List Nat) (child : Option Child) : Prop :=
  ∀ c ps, child = some c → Delivered sizes c ps →
    (∀ p, ps[0]? = some p → (dec 0 p).isSome = true) → Decodes dec ps

end FrostSshCa.Stubs
