import FrostSshCa.Core.Stubs
import FrostSshCa.Coordinator.Requests
import FrostSshCa.Issue.SshKey

/-!
# What the core prints

The subcommands `assemble`, `aggregate`, `pubkey`, `tbs` and `mint` of `main.rs` from their
input to their output and exit status. Signatures, packages and keys are those of the FROST
library, a parameter as before.
-/

namespace FrostSshCa.Issue

open Lib FrostSshCa.Core Stubs

/-- What `frost::aggregate` answers; a signature that does not serialize is `none`. -/
inductive Aggregation (Ident : Type) where
  | signature (bytes : Option Bytes)
  | culprits (ids : List Ident)
  | error

/-- The library with what it computes of packages and shares. -/
structure IssuingFrost extends SigningFrost where
  newPackage : Packages toFrost Commitments → Bytes → SigningPkg
  packageBytes : SigningPkg → Option Bytes
  message : SigningPkg → Bytes
  aggregate : SigningPkg → Packages toFrost SigShare → PubKeyPkg → Aggregation Ident
  verifyingKey : PubKeyPkg → Option Key
  verifies : Key → Bytes → Bytes → Prop

/-- What the code relies on: `aggregate` checks the signature it gives. -/
structure IssuingFrost.Sound (F : IssuingFrost) : Prop where
  package : ∀ {pkg bytes}, F.packageBytes pkg = some bytes → F.signingPkg bytes = some pkg
  message : ∀ commits msg, F.message (F.newPackage commits msg) = msg
  verified : ∀ {pkg shares pub sig key}, F.aggregate pkg shares pub = .signature (some sig) →
    F.verifyingKey pub = some key → F.verifies key (F.message pkg) sig

/-- `println!` -/
def println (text : Bytes) : Bytes := text ++ [10]

/-- The status `pclose` returns after `process::exit(1)`. -/
def exitOne : Nat := 256

def failed (printed : Bytes) : Child := ⟨printed, exitOne⟩

variable (F : IssuingFrost) (S : SshKey)

/-- `id_to_signer`, filled beside the shares. -/
def idToSigner (t : Nat) (input : List Bytes) : F.Ident → Option Nat :=
  let entry (line : Bytes) : Option (F.Ident × Nat) :=
    (parseU16 (cutAt 32 (trim line)).1).bind fun id => (F.identifier id).map fun i => (i, id)
  ((readPeers entry t (fun _ => none) (input.drop 2)).map Prod.fst).getD fun _ => none

def printAggregate (t : Nat) (input : List Bytes) : Child :=
  match cmdAggregate F.toSigningFrost t input with
  | some (.aggregate pkg shares pub) =>
    match F.aggregate pkg shares pub with
    | .signature (some bytes) => ⟨println (bytesToHex bytes), 0⟩
    | .signature none => failed []
    | .culprits ids =>
      -- the first culprit, by the order of the set
      match ids.head?.bind (idToSigner F t input) with
      | some id => failed (println (ascii "CULPRIT:" ++ decimal id))
      | none => failed []
    | .error => failed []
  | _ => failed []

def printAssemble (input : List Bytes) : Child :=
  match cmdAssemble F.toSigningFrost input with
  | some (.assemble commits msg) =>
    match F.packageBytes (F.newPackage commits msg) with
    | some bytes => ⟨println (bytesToHex bytes), 0⟩
    | none => failed []
  | _ => failed []

def printPubkey (input : List Bytes) : Child :=
  match ((readHexBlob input).bind fun r => F.pubKeyPkg r.1).bind F.verifyingKey with
  | some key => ⟨Coordinator.cmdPubkey key, 0⟩
  | none => failed []

/-- The hex of the TBS is out before the template is encoded. -/
def printTbs (nonce : Bytes) (eph : Ephemeral) (input : List Bytes) : Child :=
  match (cmdTbs input).bind (tbsCert S nonce eph) with
  | some (tbs, cert) =>
    match S.toOpenssh cert with
    | some text => ⟨println (bytesToHex tbs) ++ println (utf8 text), 0⟩
    | none => failed (println (bytesToHex tbs))
  | none => failed []

def mintedCert (input : List Bytes) : Option S.Cert :=
  (cmdMint input).bind fun r =>
  (F.pubKeyPkg r.pubKeyPkg).bind fun pub =>
  (F.verifyingKey pub).bind fun key => mintCert S key r.cert r.sig

def printMint (input : List Bytes) : Child :=
  match (mintedCert F S input).bind S.toOpenssh with
  | some text => ⟨println (utf8 text), 0⟩
  | none => failed []

/-! ## What status 0 says -/

section Status

variable {F S} {input : List Bytes} {t : Nat} {nonce : Bytes} {eph : Ephemeral}

theorem printAggregate_zero (h : (printAggregate F t input).status = 0) :
    ∃ pkg shares pub bytes,
      cmdAggregate F.toSigningFrost t input = some (.aggregate pkg shares pub) ∧
      F.aggregate pkg shares pub = .signature (some bytes) ∧
      printAggregate F t input = ⟨println (bytesToHex bytes), 0⟩ := by
  unfold printAggregate at h ⊢
  split at h
  swap
  · cases h
  next pkg shares pub hcmd =>
  split at h
  · next bytes e => exact ⟨pkg, shares, pub, bytes, hcmd, e, rfl⟩
  · cases h
  · split at h <;> cases h
  · cases h

theorem printAssemble_zero (h : (printAssemble F input).status = 0) : ∃ commits msg bytes,
    cmdAssemble F.toSigningFrost input = some (.assemble commits msg) ∧
      F.packageBytes (F.newPackage commits msg) = some bytes ∧
      printAssemble F input = ⟨println (bytesToHex bytes), 0⟩ := by
  unfold printAssemble at h ⊢
  split at h
  swap
  · cases h
  next commits msg hcmd =>
  split at h
  · next bytes e => exact ⟨commits, msg, bytes, hcmd, e, rfl⟩
  · cases h

theorem printTbs_zero (h : (printTbs S nonce eph input).status = 0) : ∃ tbs cert text,
    (cmdTbs input).bind (tbsCert S nonce eph) = some (tbs, cert) ∧
      S.toOpenssh cert = some text ∧ printTbs S nonce eph input =
        ⟨println (bytesToHex tbs) ++ println (utf8 text), 0⟩ := by
  unfold printTbs at h ⊢
  split at h
  swap
  · cases h
  next tbs cert hmade =>
  split at h
  · next text e => exact ⟨tbs, cert, text, hmade, e, rfl⟩
  · cases h

theorem printMint_zero (h : (printMint F S input).status = 0) : ∃ cert text,
    mintedCert F S input = some cert ∧ S.toOpenssh cert = some text ∧
      printMint F S input = ⟨println (utf8 text), 0⟩ := by
  unfold printMint at h ⊢
  split at h
  · next text e =>
    obtain ⟨cert, hcert, htext⟩ := Option.bind_eq_some_iff.mp e
    exact ⟨cert, text, hcert, htext, rfl⟩
  · cases h

end Status

/-- The `match` of `main` on these. -/
def issueMain (nonce : Bytes) (eph : Ephemeral) (inv : Invocation) : Option Child :=
  let input := splitLines 10 inv.stdin
  (inv.args[1]?).bind fun cmd =>
    if cmd = ascii "aggregate" then
      some (((requireU16 inv.args (ascii "--t")).map fun t => printAggregate F t input).getD
        (failed []))
    else if cmd = ascii "assemble" then some (printAssemble F input)
    else if cmd = ascii "pubkey" then some (printPubkey F input)
    else if cmd = ascii "tbs" then some (printTbs S nonce eph input)
    else if cmd = ascii "mint" then some (printMint F S input)
    else none

/-- Every child that is started is this program, with some nonce and some throw-away key. -/
structure Runs (core : Invocation → Option Child) : Prop where
  child : ∀ inv c, core inv = some c → ∃ nonce eph, issueMain F S nonce eph inv = some c

end FrostSshCa.Issue
