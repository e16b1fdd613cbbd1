import FrostSshCa.Core.Signing
import FrostSshCa.Lib.SortedMap

/-!
# The template and the certificate

`cmd_tbs` builds a certificate with a throw-away CA key to get at the bytes to be signed;
`cmd_mint` builds it again from the template, with the real CA key and the signature that
was made. The `ssh_key` library is a parameter: a builder holds the fields it was given, and
the certificate it signs has them.
-/

namespace FrostSshCa.Issue

open Lib FrostSshCa.Core

abbrev Text := List Char

/-- A raw Ed25519 key. -/
abbrev Key := Vector UInt8 32

inductive CertType where
  | user
  | host
  deriving DecidableEq, Repr

/-- A certificate without the CA's key and signature; the options are `BTreeMap`s. -/
structure Fields (Subject : Type) where
  nonce : Bytes
  subject : Subject
  validAfter : Nat
  validBefore : Nat
  serial : Nat
  keyId : Text
  certType : CertType
  validPrincipals : List Text
  extensions : SortedMap Text Text
  criticalOptions : SortedMap Text Text
  comment : Text
  deriving DecidableEq

/-- `Builder::new`: the rest has its default. -/
def Fields.new {Subject : Type} (nonce : Bytes) (subject : Subject)
    (validAfter validBefore : Nat) : Fields Subject where
  nonce := nonce
  subject := subject
  validAfter := validAfter
  validBefore := validBefore
  serial := 0
  keyId := []
  certType := .user
  validPrincipals := []
  extensions := .empty
  criticalOptions := .empty
  comment := []

/-- The `ssh_key` library. `sign` hands out the message to be signed and goes on when it
gets the signature; `view` is what a builder holds. -/
structure SshKey where
  Subject : Type
  Builder : Type
  Cert : Type
  readOpensshFile : Text → Option Subject
  new : Bytes → Subject → Nat → Nat → Option Builder
  serial : Nat → Builder → Option Builder
  keyId : Text → Builder → Option Builder
  certType : CertType → Builder → Option Builder
  validPrincipal : Text → Builder → Option Builder
  extension : Text × Text → Builder → Option Builder
  criticalOption : Text × Text → Builder → Option Builder
  comment : Text → Builder → Option Builder
  sign : Builder → Key → Option (Bytes × (Bytes → Option Cert))
  toOpenssh : Cert → Option Text
  parse : Text → Option Cert
  fields : Cert → Fields Subject
  signatureKey : Cert → Key
  signature : Cert → Bytes
  toBeSigned : Fields Subject → Key → Bytes
  view : Builder → Fields Subject

/-- A text that is one line, read back as it was printed. -/
structure OneLine (s : Text) : Prop where
  trimmed : Trimmed s
  nonempty : s ≠ []
  plain : ∀ ch ∈ s, ch ≠ '\x00' ∧ ch ≠ '\n' ∧ ch ≠ '\r'

/-- What the code relies on. -/
structure SshKey.Lawful (S : SshKey) : Prop where
  new : ∀ {nonce subject va vb b}, S.new nonce subject va vb = some b →
    S.view b = .new nonce subject va vb
  serial : ∀ {n b b'}, S.serial n b = some b' → S.view b' = { S.view b with serial := n }
  keyId : ∀ {s b b'}, S.keyId s b = some b' → S.view b' = { S.view b with keyId := s }
  certType : ∀ {t b b'}, S.certType t b = some b' → S.view b' = { S.view b with certType := t }
  validPrincipal : ∀ {s b b'}, S.validPrincipal s b = some b' →
    S.view b' = { S.view b with validPrincipals := (S.view b).validPrincipals ++ [s] }
  extension : ∀ {e b b'}, S.extension e b = some b' →
    S.view b' = { S.view b with extensions := (S.view b).extensions.insert e }
  criticalOption : ∀ {e b b'}, S.criticalOption e b = some b' →
    S.view b' = { S.view b with criticalOptions := (S.view b).criticalOptions.insert e }
  comment : ∀ {s b b'}, S.comment s b = some b' → S.view b' = { S.view b with comment := s }
  message : ∀ {b key msg finish}, S.sign b key = some (msg, finish) →
    msg = S.toBeSigned (S.view b) key
  signed : ∀ {b key msg finish sig cert}, S.sign b key = some (msg, finish) →
    finish sig = some cert →
      S.fields cert = S.view b ∧ S.signatureKey cert = key ∧ S.signature cert = sig
  /-- The CA's key comes last, and nothing before it depends on it. -/
  keyLast : ∀ f, ∃ front, ∀ key : Key, S.toBeSigned f key = front ++ key.toList
  parse : ∀ {cert s}, S.toOpenssh cert = some s → S.parse s = some cert
  oneLine : ∀ {cert s}, S.toOpenssh cert = some s → OneLine s

/-- `DalekKey::generate` -/
structure Ephemeral where
  key : Key
  sign : Bytes → Bytes

variable (S : SshKey)

/-! ## `cmd_tbs` -/

/-- What every certificate may be used for. -/
def userExtensions : List (Text × Text) :=
  [("permit-agent-forwarding".toList, []), ("permit-port-forwarding".toList, []),
    ("permit-pty".toList, []), ("permit-user-rc".toList, [])]

def tbsBuilder (nonce : Bytes) (i : TbsInput) : Option S.Builder :=
  (S.readOpensshFile i.path).bind fun subject =>
  (S.new nonce subject i.validAfter i.validBefore).bind fun b =>
  (S.serial i.serial b).bind fun b =>
  (S.keyId "frost-ca".toList b).bind fun b =>
  (S.certType .user b).bind fun b =>
  (S.validPrincipal i.principal b).bind fun b =>
  userExtensions.foldlM (fun b e => S.extension e b) b

/-- The bytes `TbsCapture` saw, and the certificate it signed. -/
def tbsCert (nonce : Bytes) (eph : Ephemeral) (i : TbsInput) : Option (Bytes × S.Cert) :=
  (tbsBuilder S nonce i).bind fun b =>
  (S.sign b eph.key).bind fun (msg, finish) =>
  (finish (eph.sign msg)).map fun cert => (msg, cert)

/-! ## `cmd_mint` -/

/-- The builder is given the fields of the template again. -/
def mintBuilder (f : Fields S.Subject) : Option S.Builder :=
  (S.new f.nonce f.subject f.validAfter f.validBefore).bind fun b =>
  (S.serial f.serial b).bind fun b =>
  (S.keyId f.keyId b).bind fun b =>
  (S.certType f.certType b).bind fun b =>
  (f.validPrincipals.foldlM (fun b p => S.validPrincipal p b) b).bind fun b =>
  (f.extensions.entries.foldlM (fun b e => S.extension e b) b).bind fun b =>
  (f.criticalOptions.entries.foldlM (fun b e => S.criticalOption e b) b).bind fun b =>
  if f.comment = [] then some b else S.comment f.comment b

/-- `FrostInject` passes the signature through, whatever the message. -/
def mintCert (key : Key) (template : Text) (sig : Bytes) : Option S.Cert :=
  (S.parse (trimStr template)).bind fun dummy =>
  (mintBuilder S (S.fields dummy)).bind fun b => (S.sign b key).bind fun r => r.2 sig

/-! ## What a builder holds -/

variable {S}

/-- A loop of builder calls adds up what they do. -/
theorem foldlM_view {α β : Type} {call : S.Builder → α → Option S.Builder}
    (get : Fields S.Subject → β) (put : β → Fields S.Subject → Fields S.Subject)
    (add : β → α → β) (hcall : ∀ {b x b'}, call b x = some b' →
      S.view b' = put (add (get (S.view b)) x) (S.view b))
    (hget : ∀ y f, get (put y f) = y) (hput : ∀ y z f, put y (put z f) = put y f)
    (hself : ∀ f, put (get f) f = f) {l : List α} {b b' : S.Builder}
    (h : l.foldlM call b = some b') :
    S.view b' = put (l.foldl add (get (S.view b))) (S.view b) := by
  induction l generalizing b with
  | nil =>
    rw [List.foldlM_nil] at h
    cases h
    exact (hself _).symm
  | cons x l ih =>
    rw [List.foldlM_cons] at h
    obtain ⟨b₁, hx, hl⟩ := Option.bind_eq_some_iff.mp h
    rw [ih hl, hcall hx, hget, hput]
    rfl

theorem principals_view (hS : S.Lawful) {l : List Text} {b b' : S.Builder}
    (h : l.foldlM (fun b p => S.validPrincipal p b) b = some b') :
    S.view b' = { S.view b with validPrincipals := (S.view b).validPrincipals ++ l } := by
  have hview := foldlM_view Fields.validPrincipals
    (fun y f => { f with validPrincipals := y }) (fun y p => y ++ [p]) hS.validPrincipal
    (fun _ _ => rfl) (fun _ _ _ => rfl) (fun _ => rfl) h
  rw [List.foldl_append_eq_append] at hview
  rw [hview]
  simp [← List.flatMap_def]

theorem extensions_view (hS : S.Lawful) {l : List (Text × Text)} {b b' : S.Builder}
    (h : l.foldlM (fun b e => S.extension e b) b = some b') :
    S.view b' = { S.view b with extensions := l.foldl SortedMap.insert (S.view b).extensions } :=
  foldlM_view Fields.extensions (fun y f => { f with extensions := y }) SortedMap.insert
    hS.extension (fun _ _ => rfl) (fun _ _ _ => rfl) (fun _ => rfl) h

theorem criticalOptions_view (hS : S.Lawful) {l : List (Text × Text)} {b b' : S.Builder}
    (h : l.foldlM (fun b e => S.criticalOption e b) b = some b') :
    S.view b' = { S.view b with
      criticalOptions := l.foldl SortedMap.insert (S.view b).criticalOptions } :=
  foldlM_view Fields.criticalOptions (fun y f => { f with criticalOptions := y })
    SortedMap.insert hS.criticalOption (fun _ _ => rfl) (fun _ _ _ => rfl) (fun _ => rfl) h

/-- **The template's fields come back**: nothing is lost between the two builders. -/
theorem mintBuilder_view (hS : S.Lawful) {f : Fields S.Subject} {b : S.Builder}
    (h : mintBuilder S f = some b) : S.view b = f := by
  unfold mintBuilder at h
  obtain ⟨b₁, h1, h⟩ := Option.bind_eq_some_iff.mp h
  obtain ⟨b₂, h2, h⟩ := Option.bind_eq_some_iff.mp h
  obtain ⟨b₃, h3, h⟩ := Option.bind_eq_some_iff.mp h
  obtain ⟨b₄, h4, h⟩ := Option.bind_eq_some_iff.mp h
  obtain ⟨b₅, h5, h⟩ := Option.bind_eq_some_iff.mp h
  obtain ⟨b₆, h6, h⟩ := Option.bind_eq_some_iff.mp h
  obtain ⟨b₇, h7, h⟩ := Option.bind_eq_some_iff.mp h
  have hview : S.view b₇ = { f with comment := [] } := by
    rw [criticalOptions_view hS h7, extensions_view hS h6, principals_view hS h5,
      hS.certType h4, hS.keyId h3, hS.serial h2, hS.new h1]
    simp only [Fields.new, List.nil_append, SortedMap.foldl_insert]
  split at h
  · next hc =>
    cases h
    rw [hview, ← hc]
  · rw [hS.comment h, hview]

/-- What a certificate must say that was asked for so. -/
structure Asked (S : SshKey) (i : TbsInput) (f : Fields S.Subject) : Prop where
  subject : S.readOpensshFile i.path = some f.subject
  validity : f.validAfter = i.validAfter ∧ f.validBefore = i.validBefore
  serial : f.serial = i.serial
  keyId : f.keyId = "frost-ca".toList
  certType : f.certType = .user
  principals : f.validPrincipals = [i.principal]
  extensions : f.extensions = userExtensions.foldl SortedMap.insert .empty
  criticalOptions : f.criticalOptions = .empty

theorem tbsBuilder_asked (hS : S.Lawful) {nonce : Bytes} {i : TbsInput} {b : S.Builder}
    (h : tbsBuilder S nonce i = some b) : Asked S i (S.view b) := by
  unfold tbsBuilder at h
  obtain ⟨subject, hsub, h⟩ := Option.bind_eq_some_iff.mp h
  obtain ⟨b₁, h1, h⟩ := Option.bind_eq_some_iff.mp h
  obtain ⟨b₂, h2, h⟩ := Option.bind_eq_some_iff.mp h
  obtain ⟨b₃, h3, h⟩ := Option.bind_eq_some_iff.mp h
  obtain ⟨b₄, h4, h⟩ := Option.bind_eq_some_iff.mp h
  obtain ⟨b₅, h5, h⟩ := Option.bind_eq_some_iff.mp h
  rw [extensions_view hS h, hS.validPrincipal h5, hS.certType h4, hS.keyId h3, hS.serial h2,
    hS.new h1]
  exact ⟨hsub, ⟨rfl, rfl⟩, rfl, rfl, rfl, rfl, rfl, rfl⟩

/-- The template is what was asked for, and the bytes are those of its fields. -/
theorem tbsCert_asked (hS : S.Lawful) {nonce msg : Bytes} {eph : Ephemeral} {i : TbsInput}
    {cert : S.Cert} (h : tbsCert S nonce eph i = some (msg, cert)) :
    Asked S i (S.fields cert) ∧ msg = S.toBeSigned (S.fields cert) eph.key := by
  unfold tbsCert at h
  obtain ⟨b, hb, h⟩ := Option.bind_eq_some_iff.mp h
  obtain ⟨⟨m, finish⟩, hsign, h⟩ := Option.bind_eq_some_iff.mp h
  obtain ⟨c, hfin, h⟩ := Option.map_eq_some_iff.mp h
  cases h
  obtain ⟨hfields, -, -⟩ := hS.signed hsign hfin
  rw [hfields]
  exact ⟨tbsBuilder_asked hS hb, hS.message hsign⟩

/-- **What is minted from a template** has its fields, the CA's key and the signature. -/
theorem mintCert_fields (hS : S.Lawful) {key : Key} {template : Text} {sig : Bytes}
    {cert dummy : S.Cert} (hparse : S.parse (trimStr template) = some dummy)
    (h : mintCert S key template sig = some cert) :
    S.fields cert = S.fields dummy ∧ S.signatureKey cert = key ∧ S.signature cert = sig := by
  unfold mintCert at h
  rw [hparse, Option.bind_some] at h
  obtain ⟨b, hb, h⟩ := Option.bind_eq_some_iff.mp h
  obtain ⟨⟨m, finish⟩, hsign, h⟩ := Option.bind_eq_some_iff.mp h
  obtain ⟨hfields, hkey, hsig⟩ := hS.signed hsign h
  exact ⟨hfields.trans (mintBuilder_view hS hb), hkey, hsig⟩

end FrostSshCa.Issue
