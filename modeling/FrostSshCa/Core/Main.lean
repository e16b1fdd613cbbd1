import FrostSshCa.Core.Stdin
import FrostSshCa.Lib.Lines

/-!
# What the core reads

The subcommands of `main.rs` that take peer packages, up to the point where they call the
FROST library. The library's types, its deserializers and its identifiers are a parameter:
a deserializer sees the decoded bytes and nothing else. An error of any kind is `none`.
-/

namespace FrostSshCa.Core

open Lib

/-- The FROST library: `Identifier::try_from` of a `u16` and one `deserialize` for each
kind of package. -/
structure Frost where
  Ident : Type
  R1Secret : Type
  R2Secret : Type
  R1Pkg : Type
  R2Pkg : Type
  KeyPkg : Type
  PubKeyPkg : Type
  [decIdent : DecidableEq Ident]
  identifier : Nat → Option Ident
  r1Secret : Bytes → Option R1Secret
  r2Secret : Bytes → Option R2Secret
  r1Pkg : Bytes → Option R1Pkg
  r2Pkg : Bytes → Option R2Pkg
  keyPkg : Bytes → Option KeyPkg
  pubKeyPkg : Bytes → Option PubKeyPkg

instance (F : Frost) : DecidableEq F.Ident := F.decIdent

/-- A `BTreeMap` of packages. -/
abbrev Packages (F : Frost) (P : Type) := F.Ident → Option P

/-- What the library is called with. -/
inductive Call (F : Frost) where
  | dkgPart2 (secret : F.R1Secret) (r1 : Packages F F.R1Pkg)
  | dkgPart3 (secret : F.R2Secret) (r1 : Packages F F.R1Pkg) (r2 : Packages F F.R2Pkg)
  | refreshPart2 (secret : F.R1Secret) (r1 : Packages F F.R1Pkg)
  | refreshShares (secret : F.R2Secret) (r1 : Packages F F.R1Pkg) (r2 : Packages F F.R2Pkg)
      (pub : F.PubKeyPkg) (key : F.KeyPkg)

variable (F : Frost)

/-! ## Standard input, line by line -/

/-- `read_line`: at the end of the input it answers an empty line. -/
def readLine : List Bytes → Bytes × List Bytes
  | [] => ([], [])
  | l :: ls => (trim l, ls)

/-- `read_hex_blob` -/
def readHexBlob (input : List Bytes) : Option (Bytes × List Bytes) :=
  if (readLine input).1 = [] then none
  else (fromHex (readLine input).1).map fun blob => (blob, (readLine input).2)

/-- `from_hex(read_line(..)?.trim())` -/
def readTrimmed (input : List Bytes) : Option (Bytes × List Bytes) :=
  (fromHex (trim (readLine input).1)).map fun blob => (blob, (readLine input).2)

/-- `str::parse::<u16>` -/
def parseU16 (bs : Bytes) : Option Nat :=
  let ds := if bs.head? = some 43 then bs.tail else bs
  if ds = [] then none
  else match scanDigits 0 ds with
    | (v, []) => if v < 65536 then some v else none
    | _ => none

/-- A peer line of `dkg_part2` and `dkg_part3`. -/
def dkgPeer {P : Type} (deserialize : Bytes → Option P) (line : Bytes) : Option (F.Ident × P) :=
  if line = [] then none
  else (parseU16 (cutAt 32 line).1).bind fun id =>
    (cutAt 32 line).2.bind fun hex =>
    (fromHex hex).bind fun bytes =>
    (deserialize bytes).bind fun pkg =>
    (F.identifier id).map fun i => (i, pkg)

/-- A peer line of `refresh_shares`, which is trimmed again. -/
def refreshPeer {P : Type} (deserialize : Bytes → Option P) (line : Bytes) : Option (F.Ident × P) :=
  let line := trim line
  (cutAt 32 line).2.bind fun hex =>
    (parseU16 (cutAt 32 line).1).bind fun id =>
    (F.identifier id).bind fun i =>
    (fromHex (trim hex)).bind fun bytes =>
    (deserialize bytes).map fun pkg => (i, pkg)

variable {F}

/-- The loop over `0..(n - 1)`: one line, one entry. -/
def readPeers {P : Type} (peer : Bytes → Option (F.Ident × P)) :
    Nat → Packages F P → List Bytes → Option (Packages F P × List Bytes)
  | 0, m, input => some (m, input)
  | k + 1, m, input =>
    (peer (readLine input).1).bind fun e => readPeers peer k (addEntry m e) (readLine input).2

/-- The loop of `refresh_part2`: to the first empty line, the end of the input or, and
passing over the entries of `me`. -/
def readUntilBlank (me : F.Ident) : Packages F F.R1Pkg → List Bytes → Option (Packages F F.R1Pkg)
  | m, [] => some m
  | m, l :: ls =>
    let line := trim (trim l)
    if line = [] then some m
    else (cutAt 32 line).2.bind fun hex =>
      (parseU16 (cutAt 32 line).1).bind fun id =>
      if F.identifier id = some me then readUntilBlank me m ls
      else (F.identifier id).bind fun i =>
        (fromHex (trim hex)).bind fun bytes =>
        (F.r1Pkg bytes).bind fun pkg => readUntilBlank me (addEntry m (i, pkg)) ls

variable (F)

/-! ## Subcommands -/

def cmdDkgPart2 (n : Nat) (input : List Bytes) : Option (Call F) :=
  (readHexBlob input).bind fun (blob, input) =>
  (F.r1Secret blob).bind fun secret =>
  (readPeers (dkgPeer F F.r1Pkg) (n - 1) (fun _ => none) input).map fun (r1, _) =>
    .dkgPart2 secret r1

def cmdDkgPart3 (n : Nat) (input : List Bytes) : Option (Call F) :=
  (readHexBlob input).bind fun (blob, input) =>
  (F.r2Secret blob).bind fun secret =>
  (readPeers (dkgPeer F F.r1Pkg) (n - 1) (fun _ => none) input).bind fun (r1, input) =>
  (readPeers (dkgPeer F F.r2Pkg) (n - 1) (fun _ => none) input).map fun (r2, _) =>
    .dkgPart3 secret r1 r2

def cmdRefreshPart2 (myId : Nat) (input : List Bytes) : Option (Call F) :=
  (readTrimmed input).bind fun (blob, input) =>
  (F.r1Secret blob).bind fun secret =>
  (F.identifier myId).bind fun me =>
  (readUntilBlank me (fun _ => none) input).map fun r1 => .refreshPart2 secret r1

def cmdRefreshShares (n : Nat) (input : List Bytes) : Option (Call F) :=
  (readTrimmed input).bind fun (blob, input) =>
  (F.r2Secret blob).bind fun secret =>
  (readPeers (refreshPeer F F.r1Pkg) (n - 1) (fun _ => none) input).bind fun (r1, input) =>
  (readPeers (refreshPeer F F.r2Pkg) (n - 1) (fun _ => none) input).bind fun (r2, input) =>
  (readTrimmed input).bind fun (blob, input) =>
  (F.pubKeyPkg blob).bind fun pub =>
  (readTrimmed input).bind fun (blob, _) =>
  (F.keyPkg blob).map fun key => .refreshShares secret r1 r2 pub key

/-! ## `main` -/

/-- `get_flag` -/
def getFlag (flag : Bytes) : List Bytes → Option Bytes
  | a :: b :: args => if a = flag then some b else getFlag flag (b :: args)
  | _ => none

/-- `require_u16` -/
def requireU16 (args : List Bytes) (flag : Bytes) : Option Nat := (getFlag flag args).bind parseU16

/-- The `match` on the subcommand; the others take no peer packages. -/
def dispatch (cmd : Bytes) (args input : List Bytes) : Option (Call F) :=
  if cmd = ascii "dkg_part2" then
    (requireU16 args (ascii "--id")).bind fun _ =>
    (requireU16 args (ascii "--n")).bind fun n => cmdDkgPart2 F n input
  else if cmd = ascii "dkg_part3" then
    (requireU16 args (ascii "--n")).bind fun n => cmdDkgPart3 F n input
  else if cmd = ascii "refresh_part2" then
    (requireU16 args (ascii "--id")).bind fun id => cmdRefreshPart2 F id input
  else if cmd = ascii "refresh_shares" then
    (requireU16 args (ascii "--n")).bind fun n => cmdRefreshShares F n input
  else none

def main (inv : Invocation) : Option (Call F) :=
  (inv.args[1]?).bind fun cmd => dispatch F cmd inv.args (splitLines 10 inv.stdin)

end FrostSshCa.Core
