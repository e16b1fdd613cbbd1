import FrostSshCa.Wire.Text
import Mathlib.Logic.Function.Basic

/-!
# The signers' certificates

`g_pubkey_cache` and `g_pubkey_cache_oaep` of `frost_stubs.c`, filled from
`certs/signer<id>.crt` and `certs/signer<id>_oaep.crt`, and the two checks of an
identity against them. What gnutls makes of a certificate is a parameter.
-/

namespace FrostSshCa

/-- gnutls on certificates: the two imports, the public key of a certificate and
the DER encoding of a key. -/
structure Gnutls (Cert Key : Type) where
  importPem : Bytes → Option Cert
  importDer : Bytes → Option Cert
  pubkey : Cert → Option Key
  exportDer : Key → Option Bytes

/-- What `gnutls_load_file` finds under a path. -/
abbrev Files := Bytes → Option Bytes

/-- The two caches; `none` is `NULL`. -/
structure KeyCache (Key : Type) where
  pub : Nat → Option Key
  oaep : Nat → Option Key

/-- The certificates the other side of a session has presented, leaf first. -/
structure Peer where
  isX509 : Bool
  certs : List Bytes
  deriving DecidableEq

def KeyCache.empty {Key : Type} : KeyCache Key := ⟨fun _ => none, fun _ => none⟩

/-- `certs/signer%u.crt` -/
def signerCrt (id : Nat) : Bytes := ascii "certs/signer" ++ decimal id ++ ascii ".crt"

/-- `certs/signer%u_oaep.crt` -/
def signerOaepCrt (id : Nat) : Bytes := ascii "certs/signer" ++ decimal id ++ ascii "_oaep.crt"

section Functions

variable {Cert Key : Type} (tls : Gnutls Cert Key)

/-- The key in a certificate file. -/
def Gnutls.fileKey (files : Files) (path : Bytes) : Option Key :=
  (files path).bind fun pem => (tls.importPem pem).bind tls.pubkey

/-- `load_signer_pubkey`; the flag is `true` where it returns 0. -/
def loadSignerPubkey (files : Files) (cache : KeyCache Key) (id : Nat) : KeyCache Key × Bool :=
  match tls.fileKey files (signerCrt id), tls.fileKey files (signerOaepCrt id) with
  | some p, some q =>
    (⟨Function.update cache.pub id (some p), Function.update cache.oaep id (some q)⟩, true)
  | _, _ => (cache, false)

/-- `ensure_signer_pubkey_cached` -/
def ensureSignerPubkeyCached (files : Files) (cache : KeyCache Key) (id : Nat) :
    KeyCache Key × Bool :=
  if id < 1 ∨ id > maxSigners then (cache, false)
  else if (cache.pub id).isSome then (cache, true)
  else loadSignerPubkey tls files cache id

/-- `get_signer_pubkey` -/
def getSignerPubkey (cache : KeyCache Key) (id : Nat) : Option Key :=
  if id > maxSigners then none else cache.pub id

/-- The DER encodings agree. -/
def Gnutls.sameKey (a b : Key) : Bool :=
  match tls.exportDer a, tls.exportDer b with
  | some x, some y => x = y
  | _, _ => false

/-- `verify_peer_tls_identity`; `true` where it returns 0. -/
def verifyPeerTlsIdentity (cache : KeyCache Key) (sess : Peer) (claimedId : Nat) : Bool :=
  if !sess.isX509 then false
  else match sess.certs with
  | [] => false
  | leaf :: _ =>
    match (tls.importDer leaf).bind tls.pubkey, getSignerPubkey cache claimedId with
    | some peer, some expected => tls.sameKey peer expected
    | _, _ => false

end Functions

section Spec

variable {Cert Key : Type} {tls : Gnutls Cert Key} {cache : KeyCache Key} {files : Files}

/-- Two keys with one DER encoding. -/
theorem sameKey_iff {a b : Key} : tls.sameKey a b = true ↔
    ∃ der, tls.exportDer a = some der ∧ tls.exportDer b = some der := by
  unfold Gnutls.sameKey
  cases tls.exportDer a with
  | none => simp
  | some x =>
    cases tls.exportDer b with
    | none => simp
    | some y => simp [eq_comm]

/-- The peer's leaf certificate holds `key`. -/
def Presents (tls : Gnutls Cert Key) (sess : Peer) (key : Key) : Prop :=
  sess.isX509 = true ∧ ∃ leaf rest k, sess.certs = leaf :: rest ∧
    (tls.importDer leaf).bind tls.pubkey = some k ∧ tls.sameKey k key = true

theorem verifyPeer_iff {sess : Peer} {id : Nat} : verifyPeerTlsIdentity tls cache sess id = true ↔
    id ≤ maxSigners ∧ ∃ key, cache.pub id = some key ∧ Presents tls sess key := by
  unfold verifyPeerTlsIdentity Presents getSignerPubkey
  cases hx : sess.isX509 with
  | false => simp
  | true =>
    cases hc : sess.certs with
    | nil => simp
    | cons leaf rest =>
      by_cases hid : id > maxSigners
      · have hno : ¬ id ≤ maxSigners := by omega
        cases (tls.importDer leaf).bind tls.pubkey <;> simp [hid, hno]
      · have hyes : id ≤ maxSigners := by omega
        cases hk : (tls.importDer leaf).bind tls.pubkey with
        | none => simp [hid, hk]
        | some k =>
          cases hp : cache.pub id with
          | none => simp [hid]
          | some key => simp [hid, hyes, hk]

/-- An entry that is there stays. -/
theorem ensure_keeps {id j : Nat} {key : Key} (h : cache.pub j = some key) :
    (ensureSignerPubkeyCached tls files cache id).1.pub j = some key := by
  unfold ensureSignerPubkeyCached
  split
  · exact h
  split
  · exact h
  next hnone =>
  have hne : j ≠ id := by
    rintro rfl
    simp [h] at hnone
  unfold loadSignerPubkey
  split
  · simpa [Function.update_of_ne hne] using h
  · exact h

/-- A new entry is the key in the certificate file of its id. -/
theorem ensure_new {id j : Nat} {key : Key} (h0 : cache.pub j = none)
    (h : (ensureSignerPubkeyCached tls files cache id).1.pub j = some key) :
    tls.fileKey files (signerCrt j) = some key := by
  unfold ensureSignerPubkeyCached at h
  split at h
  · simp [h0] at h
  split at h
  · simp [h0] at h
  unfold loadSignerPubkey at h
  split at h
  · next p q hp hq =>
    by_cases hj : j = id
    · subst hj
      simp at h
      rw [hp, h]
    · simp [Function.update_of_ne hj, h0] at h
  · simp [h0] at h

end Spec

end FrostSshCa
