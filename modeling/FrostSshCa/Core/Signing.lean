import FrostSshCa.Core.Main
import FrostSshCa.Wire.HexDecoders

/-!
# What the core reads for a signature

The subcommands `assemble`, `aggregate`, `tbs` and `mint` of `main.rs`, up to the point where
they call a library. The first two are fed hex and numbers and are read as in `Core.Main`; the
other two take lines of any text, which must be UTF-8.
-/

namespace FrostSshCa.Core

open Lib

/-- The library with its packages of the signing rounds. -/
structure SigningFrost extends Frost where
  Commitments : Type
  SigningPkg : Type
  SigShare : Type
  commitments : Bytes → Option Commitments
  signingPkg : Bytes → Option SigningPkg
  sigShare : Bytes → Option SigShare

/-- What `SigningPackage::new` and `aggregate` are called with. -/
inductive SigningCall (F : SigningFrost) where
  | assemble (commitments : Packages F.toFrost F.Commitments) (msg : Bytes)
  | aggregate (pkg : F.SigningPkg) (shares : Packages F.toFrost F.SigShare) (pub : F.PubKeyPkg)

variable (F : SigningFrost)

/-! ## `assemble`, `aggregate` -/

/-- A commitment line of `assemble`. -/
def commitEntry (line : Bytes) : Option (F.Ident × F.Commitments) :=
  (parseU16 (cutAt 32 line).1).bind fun id =>
    (cutAt 32 line).2.bind fun hex =>
    (fromHex hex).bind fun bytes =>
    (F.commitments bytes).bind fun commit =>
    (F.identifier id).map fun i => (i, commit)

def cmdAssemble (input : List Bytes) : Option (SigningCall F) :=
  (readHexBlob input).bind fun (msg, input) =>
  (parseU16 (trim (readLine input).1)).bind fun t =>
  (readPeers (commitEntry F) t (fun _ => none) (readLine input).2).map fun (commits, _) =>
    .assemble commits msg

/-- A share line is read as a peer line of `refresh_shares` is. -/
def cmdAggregate (t : Nat) (input : List Bytes) : Option (SigningCall F) :=
  (readTrimmed input).bind fun (blob, input) =>
  (F.signingPkg blob).bind fun pkg =>
  (readTrimmed input).bind fun (blob, input) =>
  (F.pubKeyPkg blob).bind fun pub =>
  (readPeers (refreshPeer F.toFrost F.sigShare) t (fun _ => none) input).map fun (shares, _) =>
    .aggregate pkg shares pub

/-- The `match` of `main` on these two. -/
def signingMain (inv : Invocation) : Option (SigningCall F) :=
  (inv.args[1]?).bind fun cmd =>
    if cmd = ascii "assemble" then cmdAssemble F (splitLines 10 inv.stdin)
    else if cmd = ascii "aggregate" then
      (requireU16 inv.args (ascii "--t")).bind fun t => cmdAggregate F t (splitLines 10 inv.stdin)
    else none

/-! ## `tbs`, `mint` -/

/-- `read_line`, of any bytes. -/
def readLineStr : List Bytes → Option (List Char × List Bytes)
  | [] => some ([], [])
  | l :: ls => (utf8Decode l).map fun s => (trimStr s, ls)

/-- `str::parse::<u64>` -/
def parseU64 (bs : Bytes) : Option Nat :=
  let ds := if bs.head? = some 43 then bs.tail else bs
  let r := scanDigits 0 ds
  if ds = [] then none else if r.2 = [] ∧ r.1 < 2 ^ 64 then some r.1 else none

/-- `read_line(..)?.trim().parse()` -/
def readU64 (input : List Bytes) : Option (Nat × List Bytes) :=
  (readLineStr input).bind fun (s, input) =>
    (parseU64 (utf8 (trimStr s))).map fun v => (v, input)

/-- What `cmd_tbs` reads. -/
structure TbsInput where
  path : List Char
  serial : Nat
  principal : List Char
  validAfter : Nat
  validBefore : Nat
  deriving DecidableEq, Repr

def cmdTbs (input : List Bytes) : Option TbsInput :=
  (readLineStr input).bind fun (path, input) =>
  (readU64 input).bind fun (serial, input) =>
  (readLineStr input).bind fun (principal, input) =>
  (readU64 input).bind fun (validAfter, input) =>
  (readU64 input).map fun (validBefore, _) =>
    ⟨trimStr path, serial, trimStr principal, validAfter, validBefore⟩

/-- What `cmd_mint` reads; it does not decode the TBS. -/
structure MintRead where
  cert : List Char
  sig : Bytes
  tbsHex : List Char
  pubKeyPkg : Bytes
  deriving DecidableEq, Repr

def cmdMint (input : List Bytes) : Option MintRead :=
  (readLineStr input).bind fun (cert, input) =>
  (readLineStr input).bind fun (sig, input) =>
  (readLineStr input).bind fun (tbs, input) =>
  (readLineStr input).bind fun (pub, _) =>
  (fromHexStr (trimStr sig)).toOption.bind fun sig =>
  (fromHexStr (trimStr pub)).toOption.map fun pub =>
    ⟨trimStr cert, sig, tbs, pub⟩

end FrostSshCa.Core
