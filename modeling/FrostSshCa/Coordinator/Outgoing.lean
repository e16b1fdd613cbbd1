import FrostSshCa.Coordinator.Roster
import FrostSshCa.Wire.Transport

/-!
# What leaves the coordinator

`signer_send` sizes its buffer before `frost_encode_frame` looks at the lengths, and
does not look at the answer. What the coordinator composes itself always fits; what it
relays fits unless a package grows over the limit by the sender's id, or a sender gives
its round-2 package a signature length that is not in use.
-/

namespace FrostSshCa

/-! ## Buffers -/

/-- What `signer_send` queues: the frame, or, where `frost_encode_frame` refuses, what
`malloc` left in the buffer. -/
def sentBuffer (junk : Bytes) (f : Frame) : Bytes := (encodeFrame f).getD junk

/-- The complete encoding of one frame, which the receiving signer can assemble. -/
structure WellFormed (b : Bytes) : Prop where
  length : b.length = frameHdr + (decodeHeader b).2.1 + (decodeHeader b).2.2
  sig : (decodeHeader b).2.1 = 0 ∨ (decodeHeader b).2.1 = frameSigSize
  payload : (decodeHeader b).2.2 ≤ maxPayload
  total : b.length ≤ frameMax

/-- The length `signer_send` gives the buffer. -/
def Frame.room (f : Frame) : Nat := frameHdr + f.sig.length + f.payload.length

theorem Frame.FromCoord.wellFormed {f : Frame} (h : f.FromCoord) (junk : Bytes) :
    WellFormed (sentBuffer junk f) := by
  have hp := h.payload
  have hs256 : frameSigSize = 256 := rfl
  have hs : f.sig.length ≤ frameSigSize := by
    rcases h.sig with e | e <;> omega
  have hm : maxPayload = 24000 := rfl
  have hhdr : decodeHeader f.bytes = (f.type, f.sig.length, f.payload.length) :=
    decodeHeader_bytes h.type (by omega) (by omega)
  unfold sentBuffer
  rw [encodeFrame_of_le hp]
  refine ⟨?_, ?_, ?_, ?_⟩
  · rw [Option.getD_some, hhdr, f.length_bytes]
  · rw [Option.getD_some, hhdr]
    exact h.sig
  · rw [Option.getD_some, hhdr]
    exact hp
  · rw [Option.getD_some, f.length_bytes]
    unfold frameMax
    omega

/-- A frame of the wrong lengths is no frame to its receiver, whatever the buffer held.
A payload over the limit comes with a full signature. -/
theorem not_wellFormed {f : Frame} (ht : f.type ∈ MsgType.all) (hs : f.sig.length < 65536)
    (hfull : maxPayload < f.payload.length → f.sig.length = frameSigSize)
    (h : ¬ f.FromCoord) {junk : Bytes} (hj : junk.length = f.room) :
    ¬ WellFormed (sentBuffer junk f) := by
  intro hw
  by_cases hp : f.payload.length ≤ maxPayload
  · have hm : maxPayload = 24000 := rfl
    have hhdr : decodeHeader f.bytes = (f.type, f.sig.length, f.payload.length) :=
      decodeHeader_bytes ht hs (by omega)
    have hsig := hw.sig
    unfold sentBuffer at hsig
    rw [encodeFrame_of_le hp, Option.getD_some, hhdr] at hsig
    exact h ⟨ht, hp, hsig⟩
  · have htotal := hw.total
    have hnone : encodeFrame f = none := if_pos (Nat.lt_of_not_le hp)
    unfold sentBuffer at htotal
    rw [hnone, Option.getD_none, hj] at htotal
    have := hfull (Nat.lt_of_not_le hp)
    unfold Frame.room frameMax at htotal
    omega

namespace Coordinator

open Lib

variable {c : Coord} {i : Nat} {f : Frame} {P : Frame → Prop}

/-! ## Accepting a frame -/

/-- The frame `main` hands to `process_signer_frame`: `mem` is the memory from
`sg->inbuf` on, of which `got` bytes have been received. The signature is as long as
the header says, and the payload is looked for behind 256 bytes of it. -/
def acceptFrame (mem : Nat → UInt8) (got : Nat) : Option Frame :=
  if got < frameHdr then none
  else if got < frameHdr + frameSigSize + ofBe16 (mem 1) (mem 2) then none
  else some {
    type := MsgType.ofCode (mem 0)
    sig := (List.range (ofBe16 (mem 3) (mem 4))).map fun k => mem (frameHdr + k)
    payload := (List.range (ofBe16 (mem 1) (mem 2))).map fun k =>
      mem (frameHdr + frameSigSize + k) }

/-- The input buffer takes `FROST_FRAME_MAX` bytes. -/
def Accepted (f : Frame) : Prop := ∃ mem got, got ≤ frameMax ∧ acceptFrame mem got = some f

theorem Accepted.sizes (h : Accepted f) : f.sig.length < 65536 ∧ f.payload.length ≤ maxPayload := by
  obtain ⟨mem, got, hgot, h⟩ := h
  unfold acceptFrame at h
  split at h; · cases h
  split at h; · cases h
  next hlen =>
  cases h
  have := ofBe16_lt (mem 3) (mem 4)
  unfold frameMax at hgot
  simp only [List.length_map, List.length_range]
  omega

/-! ## What is relayed fits -/

/-- The round-1 package of `j` once that of `i` is filed. -/
def packageOf (c : Coord) (i : Nat) (f : Frame) (j : Nat) : Bytes :=
  if j = i then f.payload else (c.sg j).r1Pkg

/-- If `f` is the last round-1 package, each of them leaves room for its sender's id. -/
def FirstFits (c : Coord) (i : Nat) (f : Frame) : Prop :=
  c.dkgState = .collectingR1 → c.n ≤ c.signers.countP (fun j => 0 < (packageOf c i f j).length) →
    ∀ j ∈ c.signers, (packageOf c i f j).length + 2 ≤ maxPayload

/-- If there is somebody to relay `f` to, its signature has one of the lengths in use. -/
def SecondFits (c : Coord) (f : Frame) : Prop :=
  ∀ dst ∈ r2Target f.payload, dst ∈ c.signers → f.sig.length = 0 ∨ f.sig.length = frameSigSize

/-- What an event has the coordinator relay fits into a frame. -/
def RelayFits (c : Coord) : Event → Prop
  | .frame i f _ => c.exited = false → i ∈ c.signers → match f.type with
    | .round1Pkg => FirstFits c i f
    | .refreshR1 => c.mode = .refresh → FirstFits c i f
    | .round2Pkg => SecondFits c f
    | .refreshR2 => c.mode = .refresh → SecondFits c f
    | _ => True
  | _ => True

theorem fileR1_pkg (j : Nat) : ((fileR1 c i f).sg j).r1Pkg = packageOf c i f j := by
  unfold fileR1 packageOf
  by_cases e : j = i
  · rw [if_pos e, e, Coord.setSg_self]
  · rw [if_neg e, Coord.setSg_of_ne e]

theorem fileR1_count : (fileR1 c i f).count (fun r => 0 < r.r1Pkg.length) =
    c.signers.countP fun j => 0 < (packageOf c i f j).length := by
  unfold Coord.count
  refine List.countP_congr fun j _ => ?_
  dsimp only
  rw [fileR1_pkg]

theorem fileR1_room (h : ∀ j, (c.sg j).r1Sig.length = frameSigSize) (j : Nat) :
    ((fileR1 c i f).sg j).r1Sig.length = frameSigSize :=
  ((fileR1_sends (P := fun _ => True) i f).room j).trans (h j)

theorem relay_first {type : MsgType} (h : MsgType.relaysR1 type = true) : type ∈ MsgType.all := by
  cases type <;> first | decide | cases h

theorem relayFrame_fromCoord (h : ∀ j, (c.sg j).r1Sig.length = frameSigSize) {type : MsgType}
    (ht : MsgType.relaysR1 type = true) (j : Nat) :
    (relayFrame (fileR1 c i f) type j).FromCoord ↔ (packageOf c i f j).length + 2 ≤ maxPayload := by
  have hlen : (relayFrame (fileR1 c i f) type j).payload.length =
      (packageOf c i f j).length + 2 := by
    show (be16 j ++ ((fileR1 c i f).sg j).r1Pkg).length = _
    rw [fileR1_pkg, List.length_append, length_be16]
    omega
  refine ⟨fun hf => hlen ▸ hf.payload, fun hf => ⟨?_, hlen ▸ hf, .inr (fileR1_room h j)⟩⟩
  exact relay_first ht

/-! ## What the coordinator composes fits -/

theorem fromCoord_of_short {type : MsgType} (ht : type ∈ MsgType.all) {payload : Bytes}
    (h : payload.length ≤ maxPayload) : Frame.FromCoord ⟨type, [], payload⟩ := ⟨ht, h, .inl rfl⟩

theorem texts_fromCoord : Texts Frame.FromCoord where
  done n := by
    refine fromCoord_of_short (by decide) ?_
    have := decimal_length n
    have hw : (ascii "DKG_DONE ").length = 9 := by decide
    have hm : maxPayload = 24000 := rfl
    simp only [List.length_append, List.length_singleton]
    omega
  finalize := fromCoord_of_short (by decide) (Nat.zero_le _)
  confirmed := fromCoord_of_short (by decide) (Nat.zero_le _)
  cert := fromCoord_of_short (by decide) (Nat.zero_le _)
  bundle _ h := fromCoord_of_short (by decide) h
  request _ h := fromCoord_of_short (by decide) h

theorem printTwo_fits {word : Bytes} (hw : word.length ≤ 13) (n t : Nat) :
    (printTwo word n t).length ≤ maxPayload := by
  have h1 := decimal_length n
  have h2 := decimal_length t
  have hm : maxPayload = 24000 := rfl
  simp only [printTwo, List.length_append, List.length_singleton]
  omega

theorem greetings_fromCoord : Greetings Frame.FromCoord where
  ack pid m := by
    refine fromCoord_of_short (by decide) ?_
    have := decimal_length pid
    have hm : maxPayload = 24000 := rfl
    have hw : (ascii "ACK ").length = 4 := by decide
    simp only [ackText, List.length_append, List.length_cons, List.length_nil]
    omega
  start n t := ⟨fromCoord_of_short (by decide) (printTwo_fits (by decide) n t),
    fromCoord_of_short (by decide) (printTwo_fits (by decide) n t)⟩
  request _ h := fromCoord_of_short (by decide) h

/-! ## One event -/

/-- What any queue can hold: a payload over the limit was made by adding an id. -/
structure Plausible (f : Frame) : Prop where
  type : f.type ∈ MsgType.all
  sig : f.sig.length < 65536
  full : maxPayload < f.payload.length → f.sig.length = frameSigSize

theorem plausible_of_fromCoord (h : f.FromCoord) : Plausible f := by
  have hp := h.payload
  refine ⟨h.type, ?_, fun hlt => by omega⟩
  rcases h.sig with e | e <;> rw [e] <;> decide

/-- An event that the receive loop can bring. -/
def Event.Received : Event → Prop
  | .frame _ f _ => Accepted f
  | _ => True

/-- What the coordinator keeps of its buffers. -/
structure Outgoing (c : Coord) : Prop where
  founded : Founded c
  room : ∀ j, (c.sg j).r1Sig.length = frameSigSize
  queue : ∀ j, ∀ f ∈ (c.sg j).msgq, Plausible f

/-- Every frame in the queue of a registered signer fits. -/
def QueuesFit (c : Coord) : Prop := ∀ j ∈ c.signers, ∀ f ∈ (c.sg j).msgq, f.FromCoord

theorem kept_subset (e : Event) (j : Nat) : kept c e j ⊆ (c.sg j).msgq := by
  unfold kept
  cases e with
  | hello env payload =>
    dsimp only
    split
    · exact List.nil_subset _
    · exact List.Subset.refl _
  | drain i =>
    dsimp only
    split
    · exact List.tail_subset _
    · exact List.Subset.refl _
  | _ => exact List.Subset.refl _

/-- A queue that is kept belongs to a signer who was there. -/
theorem kept_registered {e : Event} {j : Nat} (hj : j ∈ (step c e).signers) (hf : f ∈ kept c e j) :
    j ∈ c.signers := by
  cases he : e.moves with
  | false =>
    have hs : (step c e).signers = c.signers := congrArg (fun v => v.2.1) (step_rosterView he)
    exact hs ▸ hj
  | true =>
    cases e with
    | hello env payload =>
      by_contra hno
      have hnil : kept c (.hello env payload) j = [] := if_pos ⟨hno, hj⟩
      rw [hnil] at hf
      cases hf
    | disconnect i =>
      unfold step at hj
      split at hj; · exact hj
      dsimp only at hj
      split at hj
      · exact List.mem_of_mem_filter hj
      · exact hj
    | _ => cases he

/-- **One event** sends what `P` allows, a `HELLO` too. -/
theorem sent_of (hP : Texts P) (hG : Greetings P) (h : Founded c) {e : Event}
    (hf : ForwardsAt P c e) :
    Sent P c e := by
  cases e with
  | hello env payload => exact hello_sends hG h.fits env payload
  | _ => exact step_sends hP h.roster.distinct h.fits (fun _ _ he => by cases he) hf

theorem relay_second {type : MsgType} (h : f.type = .round2Pkg ∧ type = .relayR2 ∨
    f.type = .refreshR2 ∧ c.mode = .refresh ∧ type = .relayRefreshR2) : type ∈ MsgType.all := by
  rcases h with ⟨-, rfl⟩ | ⟨-, -, rfl⟩ <;> decide

theorem plausible_texts : Texts Plausible where
  done n := plausible_of_fromCoord (texts_fromCoord.done n)
  finalize := plausible_of_fromCoord texts_fromCoord.finalize
  confirmed := plausible_of_fromCoord texts_fromCoord.confirmed
  cert := plausible_of_fromCoord texts_fromCoord.cert
  bundle wire h := plausible_of_fromCoord (texts_fromCoord.bundle wire h)
  request tbs h := plausible_of_fromCoord (texts_fromCoord.request tbs h)

theorem plausible_greetings : Greetings Plausible where
  ack pid m := plausible_of_fromCoord (greetings_fromCoord.ack pid m)
  start n t := ⟨plausible_of_fromCoord (greetings_fromCoord.start n t).1,
    plausible_of_fromCoord (greetings_fromCoord.start n t).2⟩
  request tbs h := plausible_of_fromCoord (greetings_fromCoord.request tbs h)

/-- An accepted frame is relayed as something plausible. -/
theorem plausible_forwards (hr : ∀ j, (c.sg j).r1Sig.length = frameSigSize) {e : Event}
    (he : e.Received) : ForwardsAt Plausible c e := by
  cases e with
  | frame i f env =>
    intro _
    have hsizes := Accepted.sizes he
    refine ⟨fun type _ h _ s _ => ⟨relay_first h.relay, ?_, fun _ => fileR1_room hr s⟩,
      fun type h _ _ _ => ⟨relay_second h, hsizes.1, fun hlt => ?_⟩⟩
    · show ((fileR1 c i f).sg s).r1Sig.length < 65536
      rw [fileR1_room hr s]
      decide
    · exact absurd hsizes.2 (Nat.not_le_of_lt hlt)
  | _ => trivial

theorem Outgoing.step (h : Outgoing c) {e : Event} (he : e.Received) : Outgoing (step c e) := by
  have hs := sent_of plausible_texts plausible_greetings h.founded (plausible_forwards h.room he)
  refine ⟨h.founded.step e, fun j => hs.room j (h.room j), fun j f hf => ?_⟩
  obtain ⟨fs, e', hfs⟩ := hs.queue j
  rw [e'] at hf
  rcases List.mem_append.mp hf with hf | hf
  · exact h.queue j f (kept_subset e j hf)
  · exact hfs f hf

/-- What fits is relayed as what fits. -/
theorem RelayFits.forwards (hr : ∀ j, (c.sg j).r1Sig.length = frameSigSize) (hx : c.exited = false)
    {e : Event} (he : e.Received) (h : RelayFits c e) : ForwardsAt Frame.FromCoord c e := by
  cases e with
  | frame i f env =>
    intro hi
    have h := h hx hi
    refine ⟨fun type _ hrel hm s hs => ?_, fun type htype dst hdst hmem =>
      ⟨relay_second htype, ?_, ?_⟩⟩
    · refine (relayFrame_fromCoord hr hrel.relay s).mpr ?_
      have hall := hrel.all
      rw [fileR1_count] at hall
      rcases hrel.frame with e | e
      · rw [e] at h
        exact h hrel.early hall s hs
      · rw [e] at h
        exact h (hm e) hrel.early hall s hs
    · exact (Accepted.sizes he).2
    · rcases htype with ⟨e, -⟩ | ⟨e, hm, -⟩
      · rw [e] at h
        exact h dst hdst hmem
      · rw [e] at h
        exact h hm dst hdst hmem
  | _ => trivial

/-- **What fits keeps the queues fit.** -/
theorem RelayFits.queuesFit (ho : Outgoing c) (hq : QueuesFit c) {e : Event} (he : e.Received)
    (h : RelayFits c e) : QueuesFit (Coordinator.step c e) := by
  cases hx : c.exited with
  | true => rw [step_exited hx]; exact hq
  | false =>
    have hs := sent_of texts_fromCoord greetings_fromCoord ho.founded (h.forwards ho.room hx he)
    intro j hj f hf
    obtain ⟨fs, e', hfs⟩ := hs.queue j
    rw [e'] at hf
    rcases List.mem_append.mp hf with hf | hf
    · exact hq j (kept_registered hj hf) f (kept_subset e j hf)
    · exact hfs f hf

/-- The last round-1 package is relayed: every package is queued for somebody else. -/
theorem relays_queued (h : Roster c) (hi : i ∈ c.signers) {type : MsgType} {c' : Coord}
    (hr : Relays c i f type c') {s : Nat} (hs : s ∈ c.signers) :
    ∃ j ∈ c'.signers, relayFrame (fileR1 c i f) type s ∈ (c'.sg j).msgq := by
  obtain ⟨_, hshape⟩ := relayAll_sgOnly { fileR1 c i f with dkgState := .collectingR2 } type
  have hsig : c'.signers = c.signers := by rw [hr.eq, hshape]; rfl
  -- `n` is at least two, so there is another signer
  have h2 : 2 ≤ c.n := (h.size (List.ne_nil_of_mem hi)).1
  have hlen : c.n ≤ c.signers.length := by
    have hall := hr.all
    rw [fileR1_count] at hall
    exact hall.trans List.countP_le_length
  obtain ⟨j, hj, hne⟩ : ∃ j ∈ c.signers, j ≠ s := by
    by_contra hno
    have hone : c.signers ⊆ [s] := fun j hj => by
      by_contra hjs
      exact hno ⟨j, hj, fun e => hjs (List.mem_singleton.mpr e)⟩
    have := (List.subperm_of_subset h.distinct hone).length_le
    rw [List.length_singleton] at this
    omega
  refine ⟨j, hsig ▸ hj, ?_⟩
  have hin : j ∈ ({ fileR1 c i f with dkgState := .collectingR2 } : Coord).signers := hj
  rw [hr.eq, relayAll_sg (c := { fileR1 c i f with dkgState := .collectingR2 }) h.distinct,
    if_pos hin,
    SignerRec.push_msgq]
  refine List.mem_append_right _ (List.mem_map.mpr ⟨s, List.mem_filter.mpr ⟨hs, ?_⟩, rfl⟩)
  exact decide_eq_true hne.symm

/-- A round-2 package is queued for its target. -/
theorem second_queued (type : MsgType) {dst : Nat} (hmem : dst ∈ c.signers) (sig payload : Bytes) :
    ⟨type, sig, payload⟩ ∈ ((c.relayR2 type dst sig payload).sg dst).msgq ∧
      (c.relayR2 type dst sig payload).signers = c.signers := by
  unfold Coord.relayR2
  rw [if_pos hmem, signerSend_sg, if_pos rfl]
  exact ⟨List.mem_append_right _ (List.mem_singleton.mpr rfl), rfl⟩

/-- The package that is missing is filed, and everything is relayed. -/
theorem storeR1_relays {type : MsgType} (ht : MsgType.relaysR1 type = true)
    (hf : f.type = .round1Pkg ∨ f.type = .refreshR1) (hsize : f.payload.length ≤ maxPayload)
    (hst : c.dkgState = .collectingR1)
    (hall : c.n ≤ c.signers.countP fun j => 0 < (packageOf c i f j).length) :
    Relays c i f type (storeR1 c (fun c => c.checkR1 fun c s => c.relayR1 type s) i f) := by
  have hcount : ¬ (fileR1 c i f).count (fun r => 0 < r.r1Pkg.length) < c.n := by
    rw [fileR1_count]
    exact Nat.not_lt_of_le hall
  refine ⟨hst, hf, hsize, ht, Nat.le_of_not_lt hcount, ?_⟩
  unfold storeR1 Coord.checkR1
  rw [if_neg (Nat.not_lt_of_le hsize)]
  exact if_neg hcount

/-- **Queues that fit were made by what fits.** -/
theorem QueuesFit.relayFits (ho : Outgoing c) {e : Event} (he : e.Received)
    (h : QueuesFit (Coordinator.step c e)) : RelayFits c e := by
  cases e with
  | frame i f env =>
    intro hx hi
    have hstep : Coordinator.step c (.frame i f env) = processSignerFrame c env i f :=
      step_frame_of_mem hx hi f env
    rw [hstep] at h
    have hsize := (Accepted.sizes he).2
    have first (type : MsgType) (hr : Relays c i f type (processSignerFrame c env i f)) :
        ∀ s ∈ c.signers, (packageOf c i f s).length + 2 ≤ maxPayload := by
      intro s hs
      obtain ⟨j, hj, hmem⟩ := relays_queued ho.founded.roster hi hr hs
      exact (relayFrame_fromCoord ho.room hr.relay s).mp (h j hj _ hmem)
    have second (type : MsgType) {dst : Nat} (hmem : dst ∈ c.signers)
        (hr : processSignerFrame c env i f = c.relayR2 type dst f.sig f.payload) :
        f.sig.length = 0 ∨ f.sig.length = frameSigSize := by
      obtain ⟨hq, hsame⟩ := second_queued (c := c) type hmem f.sig f.payload
      rw [hr] at h
      exact (h dst (hsame ▸ hmem) _ hq).sig
    cases e : f.type with
    | round1Pkg =>
      intro hst hall
      refine first .relayR1 ?_
      have hpf : processSignerFrame c env i f = storeR1 c checkR1Complete i f := by
        unfold processSignerFrame
        rw [e]
        exact if_neg (not_not.mpr hst)
      rw [hpf]
      exact storeR1_relays rfl (.inl e) hsize hst hall
    | refreshR1 =>
      intro hm hst hall
      refine first .relayRefreshR1 ?_
      have hpf : processSignerFrame c env i f = storeR1 c checkRefreshR1Complete i f := by
        unfold processSignerFrame
        rw [e]
        exact if_neg (by simp [hm, hst])
      rw [hpf]
      exact storeR1_relays rfl (.inr e) hsize hst hall
    | round2Pkg =>
      intro dst hdst hmem
      refine second .relayR2 hmem ?_
      unfold processSignerFrame
      rw [e]
      dsimp only
      unfold onRound2Pkg
      rw [Option.mem_def.mp hdst]
      rfl
    | refreshR2 =>
      intro hm dst hdst hmem
      refine second .relayRefreshR2 hmem ?_
      unfold processSignerFrame
      rw [e]
      dsimp only
      unfold onRefreshR2
      rw [if_neg (not_not.mpr hm), Option.mem_def.mp hdst]
    | _ => trivial
  | _ => trivial

theorem Started.queues (h : Started c) (j : Nat) : (c.sg j).msgq = [] := by
  rw [h.unused.sg]
  rfl

theorem Started.outgoing (h : Started c) : Outgoing c := by
  refine ⟨h.founded, fun j => ?_, fun j f hf => ?_⟩
  · rw [h.unused.sg]
    exact List.length_replicate
  · rw [h.queues j] at hf
    cases hf

/-! ## Runs -/

/-- **Only well-formed frames leave the coordinator** if and only if whatever it relays
fits into a frame. -/
theorem outgoing_wellFormed (h0 : Started c) (es : List Event) (hes : ∀ e ∈ es, e.Received) :
    Along Coordinator.step RelayFits c es ↔ ∀ es₁ es₂, es = es₁ ++ es₂ →
      ∀ j ∈ (run Coordinator.step c es₁).signers, ∀ f ∈ ((run Coordinator.step c es₁).sg j).msgq,
        ∀ junk : Bytes, junk.length = f.room → WellFormed (sentBuffer junk f) := by
  have hfit : QueuesFit c := fun j _ f hf => by
    rw [h0.queues j] at hf
    cases hf
  have hruns : Along Coordinator.step RelayFits c es ↔
      ∀ es₁ es₂, es = es₁ ++ es₂ → QueuesFit (run Coordinator.step c es₁) := along_iff_forall
    (fun _ _ ho he => ho.step he)
    (fun _ _ ho he hq => ⟨fun h => h.queuesFit ho hq he, fun h => h.relayFits ho he⟩)
      hes h0.outgoing hfit
  rw [hruns]
  constructor
  · intro h es₁ es₂ e j hj f hf junk _
    exact (h es₁ es₂ e j hj f hf).wellFormed junk
  · intro h es₁ es₂ e j hj f hf
    have ho : Outgoing (run Coordinator.step c es₁) :=
      Along.invariant (C := fun _ e => Event.Received e) (I := Outgoing)
        (fun s e hi he => hi.step he) h0.outgoing
        (Along.of_mem fun x hx _ => hes x (e ▸ List.mem_append_left _ hx))
    have hp := ho.queue j f hf
    by_contra hno
    have hroom : (List.replicate f.room (0 : UInt8)).length = f.room := List.length_replicate
    exact not_wellFormed hp.type hp.sig hp.full hno hroom (h es₁ es₂ e j hj f hf _ hroom)

/-- Signer 1 sends signer 2 a round-2 package, with a signature of `sigLen` bytes. -/
def secondPackage (sigLen : Nat) : Frame :=
  ⟨.round2Pkg, List.replicate sigLen 0, [0, 1, 0, 2]⟩

def secondRun (sigLen : Nat) : List Event :=
  [joins 1 2 2, joins 2 2 2, .frame 1 (secondPackage sigLen) quietEnv]

/-- The bytes that bring it: the package lies behind 256 bytes of signature. -/
def secondBytes (hi lo : UInt8) : Nat → UInt8
  | 0 => MsgType.round2Pkg.code
  | 2 => 4
  | 3 => hi
  | 4 => lo
  | 262 => 1
  | 264 => 2
  | _ => 0

/-- A signature of one byte is relayed to signer 2 under its own length. -/
theorem short_signature_relayed : Started (dkgStart 2 2) ∧ (∀ e ∈ secondRun 1, e.Received) ∧
    2 ∈ (run Coordinator.step (dkgStart 2 2) (secondRun 1)).signers ∧
    ∃ f ∈ ((run Coordinator.step (dkgStart 2 2) (secondRun 1)).sg 2).msgq,
      ∀ junk : Bytes, junk.length = f.room → ¬ WellFormed (sentBuffer junk f) := by
  refine ⟨dkgStart_started, fun e he => ?_, by decide +kernel,
    ⟨.relayR2, [0], [0, 1, 0, 2]⟩, by decide +kernel, fun junk _ h => ?_⟩
  · simp only [secondRun, List.mem_cons, List.not_mem_nil, or_false] at he
    rcases he with rfl | rfl | rfl
    · trivial
    · trivial
    · exact ⟨secondBytes 0 1, 265, by decide, by decide +kernel⟩
  · have hlen := h.sig
    unfold sentBuffer at hlen
    rw [encodeFrame_of_le (by decide), Option.getD_some,
      decodeHeader_bytes (by decide) (by decide) (by decide)] at hlen
    exact absurd hlen (by decide)

/-- With a full signature all frames of the run are well formed. -/
theorem outgoing_wellFormed_run : (∀ e ∈ secondRun 256, e.Received) ∧
    ∀ es₁ es₂, secondRun 256 = es₁ ++ es₂ →
      ∀ j ∈ (run Coordinator.step (dkgStart 2 2) es₁).signers,
        ∀ f ∈ ((run Coordinator.step (dkgStart 2 2) es₁).sg j).msgq,
          ∀ junk : Bytes, junk.length = f.room → WellFormed (sentBuffer junk f) := by
  have hes : ∀ e ∈ secondRun 256, e.Received := by
    intro e he
    simp only [secondRun, List.mem_cons, List.not_mem_nil, or_false] at he
    rcases he with rfl | rfl | rfl
    · trivial
    · trivial
    · exact ⟨secondBytes 1 0, 265, by decide, by decide +kernel⟩
  refine ⟨hes, (outgoing_wellFormed dkgStart_started (secondRun 256) hes).mp ?_⟩
  exact ⟨trivial, trivial, fun _ _ _ _ _ => .inr List.length_replicate, trivial⟩

end Coordinator

end FrostSshCa
