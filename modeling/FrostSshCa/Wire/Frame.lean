import Mathlib.Data.Nat.Notation

/-!
# Frames

The message layer shared by the coordinator and the signers (`frost_common.h`):
the message types, the frame sizes and the big-endian 16-bit fields. A frame is
kept as its three parts; `sig` is empty where the code passes a `NULL`
signature.
-/

namespace FrostSshCa

abbrev Bytes := List UInt8

/-- `FROST_MAX_PAYLOAD` -/
def maxPayload : Nat := 24000

/-- `FROST_FRAME_HDR` -/
def frameHdr : Nat := 5

/-- `FROST_FRAME_SIG_SIZE`: the size of an RSA-2048 signature. -/
def frameSigSize : Nat := 256

/-- `FROST_MAX_SIGNERS` -/
def maxSigners : Nat := 64

/-- `ROAST_MAX_SESSIONS` -/
def maxSessions : Nat := 64

/-- `ROAST_SESSION_TIMEOUT_SEC` -/
def sessionTimeout : Nat := 10

/-- `FROST_MAX_STRIKES` -/
def maxStrikes : Nat := 2

/-- `FROST_COMMIT_ENTRY_MAX` -/
def commitEntryMax : Nat := 256

/-- `frost_msg_t`; a byte that is no enumerator is `unknown`. -/
inductive MsgType where
  | hello | round1Pkg | round2Pkg | commit | sigShare | r2Complete | pubKeyPkg | shareLoadFail
  | helloAck | startDkg | relayR1 | relayR2 | signReq | relayCommit | finalSig | dkgDone
  | certOutput
  | startRefresh | relayRefreshR1 | relayRefreshR2 | refreshFinalize | refreshConfirmed
  | refreshR1 | refreshR2 | refreshR2Complete | refreshComplete
  | error
  | unknown (code : UInt8)
  deriving DecidableEq, Repr

/-- One frame: `[type][payload_len][sig_len][signature][payload]`. -/
structure Frame where
  type : MsgType
  sig : Bytes
  payload : Bytes
  deriving DecidableEq, Repr

/-- `coord_mode_t` -/
inductive CoordMode where
  | dkg | sign | refresh
  deriving DecidableEq, Repr

/-- `dkg_state_t` -/
inductive DkgState where
  | idle | collectingR1 | collectingR2 | complete | signing | signSent
  deriving DecidableEq, Repr

/-! ## Buffers -/

/-- Bytes written over the front of a buffer whose length stays; what is longer than the
buffer ends beyond it and is not part of it. -/
def overwrite (buf written : Bytes) : Bytes := (written ++ buf.drop written.length).take buf.length

@[simp] theorem length_overwrite (buf written : Bytes) :
    (overwrite buf written).length = buf.length := by
  unfold overwrite
  rw [List.length_take, List.length_append, List.length_drop]
  omega

@[simp] theorem overwrite_nil (buf : Bytes) : overwrite buf [] = buf := List.take_length

@[simp] theorem nil_overwrite (written : Bytes) : overwrite [] written = [] := List.take_zero

theorem overwrite_all {buf written : Bytes} (h : buf.length = written.length) :
    overwrite buf written = written := by
  unfold overwrite
  rw [List.drop_eq_nil_of_le (Nat.le_of_eq h), List.append_nil,
    List.take_of_length_le (Nat.le_of_eq h.symm)]

/-! ## Big-endian 16-bit fields -/

/-- The two bytes of a `uint16_t`, high byte first. -/
def be16 (n : Nat) : Bytes := [UInt8.ofNat (n / 256), UInt8.ofNat n]

/-- The `uint16_t` a high and a low byte stand for. -/
def ofBe16 (hi lo : UInt8) : Nat := hi.toNat * 256 + lo.toNat

@[simp] theorem length_be16 (n : Nat) : (be16 n).length = 2 := rfl

theorem ofBe16_be16 {n : Nat} (h : n < 65536) :
    ofBe16 (UInt8.ofNat (n / 256)) (UInt8.ofNat n) = n := by
  simp only [ofBe16, UInt8.toNat_ofNat']
  omega

theorem ofBe16_lt (hi lo : UInt8) : ofBe16 hi lo < 65536 := by
  have := hi.toNat_lt; have := lo.toNat_lt
  simp only [ofBe16]; omega

theorem ofBe16_inj {a b c d : UInt8} (h : ofBe16 a b = ofBe16 c d) : a = c ∧ b = d := by
  have h1 := a.toNat_lt; have h2 := b.toNat_lt; have h3 := c.toNat_lt; have h4 := d.toNat_lt
  simp only [ofBe16] at h
  exact ⟨UInt8.toNat_inj.mp (by omega), UInt8.toNat_inj.mp (by omega)⟩

end FrostSshCa
