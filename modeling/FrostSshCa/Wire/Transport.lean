import FrostSshCa.Lib.Channel
import FrostSshCa.Wire.Frame
import Mathlib.Data.List.GetD
import Mathlib.Data.Option.Basic

/-!
# Frames on the wire

`frost_encode_frame`, `frost_decode_header`, the drain functions and the read
loops of the two programs. A channel is a `Lib.Channel` of bytes: a drain writes
part of the frame at the head of its queue, a read returns part of one such
write. The two read loops differ in where they look for the payload: a signer
goes by the signature length in the header, the coordinator assumes 256 bytes.
-/

namespace FrostSshCa

open Lib

/-- `FROST_FRAME_MAX`, the size of every input buffer. -/
def frameMax : Nat := frameHdr + frameSigSize + maxPayload

/-! ## Message types as bytes -/

def MsgType.code : MsgType → UInt8
  | .hello => 0x01
  | .round1Pkg => 0x02
  | .round2Pkg => 0x03
  | .commit => 0x04
  | .sigShare => 0x05
  | .r2Complete => 0x06
  | .pubKeyPkg => 0x07
  | .shareLoadFail => 0x08
  | .helloAck => 0x10
  | .startDkg => 0x11
  | .relayR1 => 0x12
  | .relayR2 => 0x13
  | .signReq => 0x14
  | .relayCommit => 0x15
  | .finalSig => 0x16
  | .dkgDone => 0x17
  | .certOutput => 0x18
  | .startRefresh => 0x30
  | .relayRefreshR1 => 0x31
  | .relayRefreshR2 => 0x32
  | .refreshFinalize => 0x33
  | .refreshConfirmed => 0x34
  | .refreshR1 => 0x38
  | .refreshR2 => 0x39
  | .refreshR2Complete => 0x3A
  | .refreshComplete => 0x3B
  | .error => 0xFF
  | .unknown c => c

/-- The enumerators of `frost_msg_t`. -/
def MsgType.all : List MsgType :=
  [.hello, .round1Pkg, .round2Pkg, .commit, .sigShare, .r2Complete, .pubKeyPkg, .shareLoadFail,
    .helloAck, .startDkg, .relayR1, .relayR2, .signReq, .relayCommit, .finalSig, .dkgDone,
    .certOutput, .startRefresh, .relayRefreshR1, .relayRefreshR2, .refreshFinalize,
    .refreshConfirmed, .refreshR1, .refreshR2, .refreshR2Complete, .refreshComplete, .error]

/-- The type a byte of the header stands for. -/
def MsgType.ofCode (c : UInt8) : MsgType :=
  (MsgType.all.find? fun t => t.code = c).getD (.unknown c)

theorem MsgType.ofCode_code : ∀ t ∈ MsgType.all, MsgType.ofCode t.code = t := by decide

/-! ## Encoding -/

/-- The bytes of a frame. -/
def Frame.bytes (f : Frame) : Bytes :=
  f.type.code :: (be16 f.payload.length ++ be16 f.sig.length ++ f.sig ++ f.payload)

/-- `frost_encode_frame`; `none` for a payload over the limit. -/
def encodeFrame (f : Frame) : Option Bytes :=
  if f.payload.length > maxPayload then none else some f.bytes

/-- `frost_decode_header`: the type, the signature length and the payload length. -/
def decodeHeader (buf : Bytes) : MsgType × Nat × Nat :=
  (MsgType.ofCode (buf.getD 0 0), ofBe16 (buf.getD 3 0) (buf.getD 4 0),
    ofBe16 (buf.getD 1 0) (buf.getD 2 0))

/-! ## Receiving -/

/-- The end of a read loop: the frame in the buffer, once it is complete.
`payloadOff` is where the loop looks for the payload, given the signature length. -/
def completeFrame (payloadOff : Nat → Nat) (buf : Bytes) : Option Frame :=
  if buf.length < frameHdr then none
  else
    let (type, slen, plen) := decodeHeader buf
    if buf.length < payloadOff slen + plen then none
    else some {
      type := type
      sig := (buf.drop frameHdr).take slen
      payload := (buf.drop (payloadOff slen)).take plen }

/-- The read loop of the coordinator, on staged and on registered connections. -/
def coordComplete : Bytes → Option Frame := completeFrame fun _ => frameHdr + frameSigSize

/-- The read loop of a signer. -/
def signerComplete : Bytes → Option Frame := completeFrame fun slen => frameHdr + slen

/-- From a signer to the coordinator: `drain_outq` writes, the coordinator reads. -/
def upStep : Channel UInt8 Frame → Channel.Event UInt8 → Channel UInt8 Frame :=
  Channel.step frameMax coordComplete

/-- From the coordinator to a signer: `drain_signer_write` writes, the signer
reads. -/
def downStep : Channel UInt8 Frame → Channel.Event UInt8 → Channel UInt8 Frame :=
  Channel.step frameMax signerComplete

/-- What the programs queue: an enumerator, a payload within the limit, and a
signature of one of the lengths in use. -/
structure Frame.Sendable (sigLen : Nat → Prop) (f : Frame) : Prop where
  type : f.type ∈ MsgType.all
  payload : f.payload.length ≤ maxPayload
  sig : sigLen f.sig.length

/-- Every frame of a signer is signed. -/
def Frame.FromSigner : Frame → Prop := Frame.Sendable (· = frameSigSize)

/-- The coordinator relays signatures and adds none of its own. -/
def Frame.FromCoord : Frame → Prop := Frame.Sendable fun n => n = 0 ∨ n = frameSigSize

/-! ## The framing -/

theorem Frame.length_bytes (f : Frame) :
    f.bytes.length = frameHdr + f.sig.length + f.payload.length := by
  simp only [Frame.bytes, frameHdr, List.length_cons, List.length_append, length_be16]
  omega

theorem encodeFrame_of_le {f : Frame} (h : f.payload.length ≤ maxPayload) :
    encodeFrame f = some f.bytes := if_neg (by omega)

/-- A header is read from any prefix that holds it. -/
theorem decodeHeader_prefix {p r : Bytes} (h : frameHdr ≤ p.length) :
    decodeHeader (p ++ r) = decodeHeader p := by
  unfold frameHdr at h
  have get (i : Nat) (hi : i < 5) : (p ++ r).getD i 0 = p.getD i 0 :=
    List.getD_append _ _ _ _ (by omega)
  simp only [decodeHeader, get 0 (by omega), get 1 (by omega), get 2 (by omega), get 3 (by omega),
    get 4 (by omega)]

theorem decodeHeader_bytes {f : Frame} (ht : f.type ∈ MsgType.all) (hs : f.sig.length < 65536)
    (hp : f.payload.length < 65536) :
    decodeHeader f.bytes = (f.type, f.sig.length, f.payload.length) := by
  show (MsgType.ofCode f.type.code, ofBe16 _ _, ofBe16 _ _) = _
  rw [MsgType.ofCode_code _ ht]
  refine Prod.ext rfl (Prod.ext ?_ ?_)
  · exact ofBe16_be16 hs
  · exact ofBe16_be16 hp

/-- A read loop that looks for the payload where the frame has it recognises the
frame when it is complete and not before. -/
theorem framing_of_off {payloadOff : Nat → Nat} {f : Frame} {P : Nat → Prop}
    (h : f.Sendable P) (hs : f.sig.length ≤ frameSigSize)
    (hoff : payloadOff f.sig.length = frameHdr + f.sig.length) :
    Channel.Framing frameMax (completeFrame payloadOff) Frame.bytes f := by
  have hp := h.payload
  have hlen := f.length_bytes
  have hhdr : decodeHeader f.bytes = (f.type, f.sig.length, f.payload.length) :=
    decodeHeader_bytes h.type (by unfold frameSigSize at hs; omega)
      (by unfold maxPayload at hp; omega)
  refine ⟨List.cons_ne_nil _ _, ?_, ?_, ?_⟩
  · unfold frameMax
    omega
  · have hsplit : f.bytes = (f.type.code :: (be16 f.payload.length ++ be16 f.sig.length)) ++
        (f.sig ++ f.payload) := by
      simp only [Frame.bytes, List.cons_append, List.append_assoc]
    have hl : (f.type.code :: (be16 f.payload.length ++ be16 f.sig.length)).length = frameHdr := rfl
    have h1 : f.bytes.drop frameHdr = f.sig ++ f.payload := by
      rw [hsplit, ← hl, List.drop_left]
    have h2 : f.bytes.drop (frameHdr + f.sig.length) = f.payload := by
      rw [← List.drop_drop, h1, List.drop_left]
    unfold completeFrame
    rw [if_neg (by omega), hhdr]
    dsimp only
    rw [hoff, if_neg (by omega), h1, h2, List.take_left, List.take_length]
  · intro p r e hr
    have hpos := List.length_pos_iff.mpr hr
    have hpl := congrArg List.length e
    rw [List.length_append, hlen] at hpl
    unfold completeFrame
    by_cases hshort : p.length < frameHdr
    · rw [if_pos hshort]
    · rw [if_neg hshort, ← decodeHeader_prefix (r := r) (Nat.le_of_not_lt hshort), e, hhdr]
      dsimp only
      rw [hoff, if_pos (by omega)]

/-- The bytes queued are those of the frames. -/
theorem pushed_bytes {P : Nat → Prop} {es : List (Channel.Event UInt8)} {fs : List Frame}
    (hf : ∀ f ∈ fs, f.Sendable P) (hq : (Channel.pushed es).map some = fs.map encodeFrame) :
    Channel.pushed es = fs.map Frame.bytes := by
  have e : fs.map encodeFrame = (fs.map Frame.bytes).map some := by
    rw [List.map_map]
    exact List.map_congr_left fun f h => encodeFrame_of_le (hf f h).payload
  rw [e] at hq
  exact List.map_injective_iff.mpr (Option.some_injective _) hq

/-- **Frame transport.** In either direction, the frames one side queues, cut by
its drain function and by the other side's reads in any way, are dispatched in
order and once each: what was dispatched is always a prefix of what was queued,
it is all of it once no byte is under way, some writes and reads bring it there,
and the read loop never runs out of room. -/
theorem frame_transport (es : List (Channel.Event UInt8)) (fs : List Frame)
    (hq : (Channel.pushed es).map some = fs.map encodeFrame) :
    ((∀ f ∈ fs, f.FromSigner) →
      let s := run upStep Channel.empty es
      s.closed = false ∧ s.buf.length < frameMax ∧ s.out <+: fs ∧
        (s.queue = [] → s.records = [] → s.out = fs) ∧
        ∃ es', Channel.pushed es' = [] ∧ (run upStep s es').out = fs) ∧
    ((∀ f ∈ fs, f.FromCoord) →
      let s := run downStep Channel.empty es
      s.closed = false ∧ s.buf.length < frameMax ∧ s.out <+: fs ∧
        (s.queue = [] → s.records = [] → s.out = fs) ∧
        ∃ es', Channel.pushed es' = [] ∧ (run downStep s es').out = fs) := by
  have hcap : 0 < frameMax := by decide
  constructor
  · intro hf
    refine Channel.channel_exact hcap (pushed_bytes hf hq) fun f h => ?_
    have hs : f.sig.length = frameSigSize := (hf f h).sig
    exact framing_of_off (hf f h) (by omega) (by rw [hs])
  · intro hf
    refine Channel.channel_exact hcap (pushed_bytes hf hq) fun f h => ?_
    have hs : f.sig.length ≤ frameSigSize := by
      rcases (hf f h).sig with e | e
      · rw [e]; exact Nat.zero_le _
      · exact Nat.le_of_eq e
    exact framing_of_off (hf f h) hs rfl

/-- A share with its signature, and a request without one. -/
def shareFrame : Frame := ⟨.sigShare, List.replicate 256 7, [1, 2, 3]⟩

def requestFrame : Frame := ⟨.signReq, [], [4, 5]⟩

/-- Writes and reads that cut a frame in the header, in the signature and in the
payload. -/
def splitRun (f : Frame) : List (Channel.Event UInt8) :=
  [.push f.bytes, .send 3, .recv 2, .recv 0, .send 0, .recv 9, .send 258, .recv 200, .recv 200,
    .send 100, .recv 1, .recv 100]

theorem frame_transport_split :
    (run upStep Channel.empty (splitRun shareFrame)).out = [shareFrame] ∧
      (run downStep Channel.empty (splitRun requestFrame)).out = [requestFrame] := by
  constructor
  · have hf : ∀ f ∈ [shareFrame], f.FromSigner := by
      intro f h
      rw [List.mem_singleton.mp h]
      exact ⟨by decide, by decide, List.length_replicate⟩
    refine ((frame_transport (splitRun shareFrame) [shareFrame] ?_).1 hf).2.2.2.1 ?_ ?_
    · decide +kernel
    · decide +kernel
    · decide +kernel
  · have hf : ∀ f ∈ [requestFrame], f.FromCoord := by
      intro f h
      rw [List.mem_singleton.mp h]
      exact ⟨by decide, by decide, .inl rfl⟩
    refine ((frame_transport (splitRun requestFrame) [requestFrame] ?_).2 hf).2.2.2.1 ?_ ?_
    · decide +kernel
    · decide +kernel
    · decide +kernel

end FrostSshCa
