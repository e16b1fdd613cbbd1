import FrostSshCa.Coordinator.Round1

/-!
# What an event queues

`Sends P c c'`: the frames queued on the way from `c` to `c'` satisfy `P`, and the TBS
is the same. An event other than a `HELLO` sends what the coordinator composes itself
(`Texts`), a request with the TBS, and what it relays of the frame it reads
(`Forwards`).
-/

namespace FrostSshCa.Coordinator

open Lib

/-- Frames that satisfy `P` may have been queued, behind what there was. -/
structure Sends (P : Frame → Prop) (c c' : Coord) : Prop where
  tbs : c'.tbs = c.tbs
  /-- The signature buffers have a size, not a length. -/
  room : ∀ j, (c'.sg j).r1Sig.length = (c.sg j).r1Sig.length
  queue : ∀ j, ∃ fs : List Frame, (c'.sg j).msgq = (c.sg j).msgq ++ fs ∧ ∀ f ∈ fs, P f

/-- `P` allows what the coordinator composes after the registration. -/
structure Texts (P : Frame → Prop) : Prop where
  done : ∀ n, P ⟨.dkgDone, [], ascii "DKG_DONE " ++ decimal n ++ [10]⟩
  finalize : P ⟨.refreshFinalize, [], []⟩
  confirmed : P ⟨.refreshConfirmed, [], []⟩
  cert : P ⟨.certOutput, [], []⟩
  bundle : ∀ wire : Bytes, wire.length ≤ maxPayload → P ⟨.relayCommit, [], wire⟩
  request : ∀ tbs : Bytes, tbs.length ≤ maxPayload → P ⟨.signReq, [], tbs⟩

variable {P : Frame → Prop} {c c' c'' : Coord}

theorem Sends.of_sg_eq (ht : c'.tbs = c.tbs) (h : c'.sg = c.sg) : Sends P c c' :=
  ⟨ht, fun j => by rw [h], fun j => ⟨[], by rw [h, List.append_nil], nofun⟩⟩

theorem Sends.refl (c : Coord) : Sends P c c := .of_sg_eq rfl rfl

theorem Sends.trans (h : Sends P c c') (h' : Sends P c' c'') : Sends P c c'' := by
  refine ⟨h'.tbs.trans h.tbs, fun j => (h'.room j).trans (h.room j), fun j => ?_⟩
  obtain ⟨fs, e, hf⟩ := h.queue j
  obtain ⟨gs, e', hg⟩ := h'.queue j
  refine ⟨fs ++ gs, by rw [e', e, List.append_assoc], fun f hmem => ?_⟩
  rcases List.mem_append.mp hmem with hmem | hmem
  · exact hf f hmem
  · exact hg f hmem

theorem Sends.foldl {α : Type} {g : Coord → α → Coord} {l : List α}
    (h : ∀ d, d.tbs = c.tbs → ∀ a ∈ l, Sends P d (g d a)) : Sends P c (l.foldl g c) :=
  foldl_invariant (I := Sends P c) (fun d a ha hd => hd.trans (h d hd.tbs a ha)) (.refl c)

/-- A record update that keeps the queue. -/
theorem Sends.setSg {i : Nat} {g : SignerRec → SignerRec} (h : (g (c.sg i)).msgq = (c.sg i).msgq)
    (hr : (g (c.sg i)).r1Sig.length = (c.sg i).r1Sig.length) : Sends P c (c.setSg i g) := by
  refine ⟨rfl, fun j => ?_, fun j => ⟨[], ?_, nofun⟩⟩
  · by_cases e : j = i
    · rw [e, Coord.setSg_self, hr]
    · rw [Coord.setSg_of_ne e]
  · rw [List.append_nil]
    by_cases e : j = i
    · rw [e, Coord.setSg_self, h]
    · rw [Coord.setSg_of_ne e]

theorem signerSend_sends {type : MsgType} {sig payload : Bytes} (h : P ⟨type, sig, payload⟩)
    (i : Nat) :
    Sends P c (c.signerSend i type sig payload) := by
  refine ⟨rfl, fun j => ?_, fun j => ?_⟩
  · rw [signerSend_sg]
    split <;> rfl
  rw [signerSend_sg]
  by_cases e : j = i
  · rw [if_pos e]
    refine ⟨[⟨type, sig, payload⟩], rfl, fun f hf => ?_⟩
    rw [List.mem_singleton.mp hf]
    exact h
  · rw [if_neg e]
    exact ⟨[], (List.append_nil _).symm, nofun⟩

theorem broadcast_sends {type : MsgType} {payload : Bytes} (h : P ⟨type, [], payload⟩) :
    Sends P c (c.broadcast type payload) := .foldl fun _ _ i _ => signerSend_sends h i

/-! ## Sign mode -/

theorem setPhase_sends (id : Nat) (p : SPhase) : Sends P c (setPhase c id p) := by
  unfold setPhase
  split
  · exact .setSg rfl rfl
  · exact .refl c

theorem blacklistSigner_sends (id : Nat) : Sends P c (blacklistSigner c id) := by
  unfold blacklistSigner
  split
  · exact .refl c
  · exact .of_sg_eq rfl rfl

theorem addStrike_sends (id : Nat) : Sends P c (addStrike c id) := by
  unfold addStrike
  split
  · exact .of_sg_eq rfl rfl
  · exact .refl c

section Sign

variable (hP : Texts P)

include hP

theorem requestCommit_sends (ht : c.tbs.length ≤ maxPayload) (p : SPhase) (id : Nat) :
    Sends P c (requestCommit c p id) :=
  Sends.trans (.setSg rfl rfl) (signerSend_sends (hP.request _ ht) id)

theorem broadcastSignReq_sends (ht : c.tbs.length ≤ maxPayload) :
    Sends P c (broadcastSignReq c) := by
  refine .foldl fun d hd id _ => ?_
  split
  · exact .refl d
  · exact requestCommit_sends hP (hd ▸ ht) .init id

theorem tryForm_sends (env : Env) : Sends P c (tryForm c env) := by
  rcases tryForm_cases c env with e | ⟨k, spkg, wire, hf, e⟩
  · rw [e]; exact .refl c
  · rw [e]
    have h : Sends P c (fillSlot c k (chooseSigners c) spkg env.now) := .of_sg_eq rfl rfl
    refine h.trans (.foldl fun d _ id _ => ?_)
    exact Sends.trans (.setSg rfl rfl) (signerSend_sends (hP.bundle wire hf.fits) id)

theorem roastFailCulprit_sends (ht : c.tbs.length ≤ maxPayload) (env : Env) (k : Fin maxSessions)
    (culprit : Nat) : Sends P c (roastFailCulprit c env k culprit) := by
  have h0 : Sends P c (c.closeSession k .failed) := .of_sg_eq rfl rfl
  have h1 := h0.trans ((blacklistSigner_sends culprit).trans (setPhase_sends culprit .blacklisted))
  have h2 : Sends P c (culpritReset c k culprit) := by
    refine h1.trans (.foldl fun d hd id _ => ?_)
    split
    · exact requestCommit_sends hP (by rw [hd, h1.tbs]; exact ht) .init id
    · exact .refl d
  exact (h2.trans (tryForm_sends hP env)).trans (.of_sg_eq rfl rfl)

theorem blacklistSession_sends (ht : c.tbs.length ≤ maxPayload) (k : Fin maxSessions) :
    Sends P c (blacklistSession c k) := by
  have h0 : Sends P c (c.closeSession k .failed) := .of_sg_eq rfl rfl
  have h1 : Sends P c (blacklistMembers c k) := h0.trans (.foldl fun d _ id _ =>
    (blacklistSigner_sends id).trans (setPhase_sends id .blacklisted))
  have h2 : Sends P c (if roastDoNoEligibleRemain (blacklistMembers c k) then
      { blacklistMembers c k with signingDone := true } else blacklistMembers c k) := by
    split
    · exact h1.trans (.of_sg_eq rfl rfl)
    · exact h1
  exact h2.trans (broadcastSignReq_sends hP (by rw [h2.tbs]; exact ht))

theorem aggregateOk_sends (env : Env) (k : Fin maxSessions) (sig64 : Bytes) :
    Sends P c (aggregateOk c env k sig64) := by
  unfold aggregateOk callMint
  have h : Sends P c (finishSession c k) := .of_sg_eq rfl rfl
  split
  · exact h
  · next d hd =>
    obtain ⟨cert, -, rfl⟩ := Option.map_eq_some_iff.mp hd
    have h' : Sends P c (countCert (finishSession c k) cert) := h.trans (.of_sg_eq rfl rfl)
    exact h'.trans (broadcast_sends hP.cert)

theorem onAggregate_sends (ht : c.tbs.length ≤ maxPayload) (env : Env) (k : Fin maxSessions)
    (r : AggregateResult) : Sends P c (onAggregate c env k r) := by
  unfold onAggregate
  split
  · exact .refl c
  · split
    · exact blacklistSession_sends hP ht k
    · exact aggregateOk_sends hP env k _
  · split
    · exact roastFailCulprit_sends hP ht env k _
    · exact blacklistSession_sends hP ht k
  · exact blacklistSession_sends hP ht k

theorem onSigShare_sends (ht : c.tbs.length ≤ maxPayload) (env : Env) (i : Nat) (f : Frame) :
    Sends P c (onSigShare c env i f) := by
  unfold onSigShare
  split
  · exact .refl c
  next k slot _ =>
  have h0 (g : RoastSession → RoastSession) : Sends P c (c.setSession k g) := .of_sg_eq rfl rfl
  have h : Sends P c (fileShare c k slot i f.payload) := (h0 _).trans (.setSg rfl rfl)
  dsimp only
  split
  · unfold roastTryAggregate
    split
    · exact h
    · exact h.trans (onAggregate_sends hP (by rw [h.tbs]; exact ht) env k _)
  · exact h

theorem onCommit_sends (env : Env) (i : Nat) (f : Frame) : Sends P c (onCommit c env i f) := by
  unfold onCommit
  split; · exact .refl c
  split; · exact .refl c
  split; · exact .refl c
  split; · exact .refl c
  exact Sends.trans (.setSg rfl rfl) (tryForm_sends hP env)

theorem expireMember_sends (ht : c.tbs.length ≤ maxPayload) (k : Fin maxSessions) (i id : Nat) :
    Sends P c (expireMember c k i id) := by
  unfold expireMember
  split
  · split
    · exact requestCommit_sends hP ht .init id
    · have h : Sends P c (addStrike c id) := addStrike_sends id
      dsimp only
      split
      · exact h.trans ((blacklistSigner_sends id).trans (setPhase_sends id .blacklisted))
      · exact h.trans (requestCommit_sends hP (by rw [h.tbs]; exact ht) .suspect id)
  · exact .refl c

theorem roastExpireSessions_sends (ht : c.tbs.length ≤ maxPayload) (now : Nat)
    (env : Fin maxSessions → Env) : Sends P c (roastExpireSessions c now env) := by
  refine .foldl fun d hd k _ => ?_
  unfold expireSlot
  split; · exact .refl d
  split; · exact .refl d
  have h : Sends P d (expireMembers d k) := by
    have h0 : Sends P d (d.closeSession k .failed) := .of_sg_eq rfl rfl
    refine h0.trans (.foldl fun x hx p _ => ?_)
    exact expireMember_sends hP (by rw [hx]; exact hd ▸ ht) k p.2 p.1
  exact h.trans (tryForm_sends hP (env k))

end Sign

/-! ## The ceremonies -/

/-- `P` allows what the coordinator relays of a frame. -/
structure Forwards (P : Frame → Prop) (c : Coord) (i : Nat) (f : Frame) : Prop where
  /-- The last round-1 package has every package relayed. -/
  first : ∀ type c', Relays c i f type c' → (f.type = .refreshR1 → c.mode = .refresh) →
    ∀ s ∈ c.signers, P (relayFrame (fileR1 c i f) type s)
  second : ∀ type, f.type = .round2Pkg ∧ type = .relayR2 ∨
    f.type = .refreshR2 ∧ c.mode = .refresh ∧ type = .relayRefreshR2 →
    ∀ dst ∈ r2Target f.payload, dst ∈ c.signers → P ⟨type, f.sig, f.payload⟩

theorem fileR1_sends (i : Nat) (f : Frame) : Sends P c (fileR1 c i f) :=
  .setSg rfl (length_overwrite _ _)

theorem relays_sends (hd : c.signers.Nodup) {i : Nat} {f : Frame} {type : MsgType}
    (h : ∀ s ∈ c.signers, P (relayFrame (fileR1 c i f) type s)) :
    Sends P c (relayAll { fileR1 c i f with dkgState := .collectingR2 } type) := by
  have hset := fileR1_sends (P := P) (c := c) i f
  have hfile : Sends P c { fileR1 c i f with dkgState := .collectingR2 } :=
    hset.trans (.of_sg_eq rfl rfl)
  refine hfile.trans ⟨?_, fun j => ?_, fun j => ?_⟩
  · obtain ⟨_, e⟩ := relayAll_sgOnly { fileR1 c i f with dkgState := .collectingR2 } type
    rw [e]
  · rw [relayAll_sg (c := { fileR1 c i f with dkgState := .collectingR2 }) hd]
    split <;> rfl
  · rw [relayAll_sg (c := { fileR1 c i f with dkgState := .collectingR2 }) hd]
    split
    · refine ⟨_, SignerRec.push_msgq _ _, fun g hg => ?_⟩
      obtain ⟨s, hs, rfl⟩ := List.mem_map.mp hg
      exact h s (List.mem_of_mem_filter hs)
    · exact ⟨[], (List.append_nil _).symm, nofun⟩

theorem storeR1_sends (type : MsgType) (hd : c.signers.Nodup) {i : Nat} {f : Frame}
    (hst : c.dkgState = .collectingR1) (ht : MsgType.relaysR1 type = true)
    (hf : f.type = .round1Pkg ∨ f.type = .refreshR1)
    (hm : f.type = .refreshR1 → c.mode = .refresh) (h : Forwards P c i f) :
    Sends P c (storeR1 c (fun c => c.checkR1 fun c s => c.relayR1 type s) i f) := by
  unfold storeR1
  split; · exact .refl c
  next hsize =>
  unfold Coord.checkR1
  dsimp only
  split
  · exact fileR1_sends i f
  · next hall =>
    have hr : Relays c i f type (relayAll { fileR1 c i f with dkgState := .collectingR2 } type) :=
      ⟨hst, hf, by omega, ht, by exact Nat.le_of_not_lt hall, rfl⟩
    exact relays_sends hd (h.first type _ hr hm)

theorem fileReport_sends (i : Nat) (f : Frame) : Sends P c (fileReport c i f) := by
  have h : Sends P c (c.setSg i fun r => { r with pubKeyPkg := f.payload }) := .setSg rfl rfl
  exact h.trans (.of_sg_eq rfl rfl)

theorem checkR2_sends {type : MsgType} {payload : Bytes} (h : P ⟨type, [], payload⟩) :
    Sends P c (c.checkR2 type payload) := by
  unfold Coord.checkR2
  split
  · exact .refl c
  · exact (broadcast_sends h).trans (.of_sg_eq rfl rfl)

theorem onRefreshComplete_sends (hP : Texts P) (env : Env) (i : Nat) (f : Frame) :
    Sends P c (onRefreshComplete c env i f) := by
  unfold onRefreshComplete
  refine (fileReport_sends i f).trans ?_
  dsimp only
  split; · exact .refl _
  have hall (d : Coord) : Sends P d (checkRefreshAllConfirmed d) := by
    unfold checkRefreshAllConfirmed
    split
    · exact .refl _
    · exact (broadcast_sends hP.confirmed).trans (.of_sg_eq rfl rfl)
  refine Sends.trans ?_ (hall _)
  split
  · exact .of_sg_eq rfl rfl
  · exact .refl _

theorem onPubKeyPkg_sends (env : Env) (i : Nat) (f : Frame) :
    Sends P c (onPubKeyPkg c env i f) := by
  unfold onPubKeyPkg
  refine (fileReport_sends i f).trans ?_
  dsimp only
  split; · exact .refl _
  split; · exact .refl _
  exact .of_sg_eq rfl rfl

/-- **A frame** has the coordinator send what it composes, and what it forwards. -/
theorem processSignerFrame_sends (hP : Texts P) (hd : c.signers.Nodup)
    (ht : c.tbs.length ≤ maxPayload)
    (env : Env) (i : Nat) (f : Frame) (hf : Forwards P c i f) :
    Sends P c (processSignerFrame c env i f) := by
  have relayed {type : MsgType} (hw : f.type = .round2Pkg ∧ type = .relayR2 ∨
      f.type = .refreshR2 ∧ c.mode = .refresh ∧ type = .relayRefreshR2) {dst : Nat}
      (hdst : dst ∈ r2Target f.payload) : Sends P c (c.relayR2 type dst f.sig f.payload) := by
    unfold Coord.relayR2
    split
    · next hmem => exact signerSend_sends (hf.second type hw dst hdst hmem) dst
    · exact .refl c
  have flagged {type : MsgType} {payload : Bytes} (h : P ⟨type, [], payload⟩) :
      Sends P c ((c.setSg i fun r => { r with r2Complete := true }).checkR2 type payload) :=
    Sends.trans (.setSg rfl rfl) (checkR2_sends h)
  unfold processSignerFrame
  cases e : f.type with
  | round1Pkg =>
    dsimp only
    unfold onRound1Pkg
    split
    · exact .refl c
    · next hst =>
      have hm : f.type = .refreshR1 → c.mode = .refresh := fun e' => by rw [e] at e'; cases e'
      exact storeR1_sends .relayR1 hd (not_not.mp hst) rfl (.inl e) hm hf
  | refreshR1 =>
    dsimp only
    unfold onRefreshR1
    split
    · exact .refl c
    · next hst =>
      simp only [Bool.or_eq_true, decide_eq_true_eq, not_or, not_not] at hst
      exact storeR1_sends .relayRefreshR1 hd hst.2 rfl (.inr e) (fun _ => hst.1) hf
  | round2Pkg =>
    dsimp only
    rcases onRound2Pkg_cases c f with e' | ⟨dst, hdst, e'⟩
    · rw [e']; exact .refl c
    · rw [e']; exact relayed (.inl ⟨e, rfl⟩) hdst
  | refreshR2 =>
    dsimp only
    rcases onRefreshR2_cases c f with e' | ⟨hm, dst, hdst, e'⟩
    · rw [e']; exact .refl c
    · rw [e']; exact relayed (.inr ⟨e, hm, rfl⟩) hdst
  | r2Complete =>
    dsimp only
    unfold onR2Complete
    split
    · exact .refl c
    · exact flagged (hP.done _)
  | refreshR2Complete =>
    dsimp only
    unfold onRefreshR2Complete
    split
    · exact .refl c
    · exact flagged hP.finalize
  | refreshComplete => exact onRefreshComplete_sends hP env i f
  | pubKeyPkg => exact onPubKeyPkg_sends env i f
  | shareLoadFail => exact .setSg rfl rfl
  | commit => exact onCommit_sends hP env i f
  | sigShare => exact onSigShare_sends hP ht env i f
  | _ => exact .refl c

/-! ## The TBS -/

theorem patchTbs_length {tbs : Bytes} (h : 32 ≤ tbs.length) (key : Vector UInt8 32) :
    (patchTbs tbs key).length = tbs.length := by
  unfold patchTbs
  rw [List.length_append, List.length_take, Vector.length_toList]
  omega

theorem prepareTbs_fits (h : c.tbs.length ≤ maxPayload) (env : TbsEnv) :
    (prepareTbs c env).1.tbs.length ≤ maxPayload := by
  unfold prepareTbs
  split
  · exact h
  · exact h
  · show (List.take c.tbs.length _).length ≤ maxPayload
    rw [List.length_take]
    omega
  · next d tbs _ =>
    split
    · exact h
    · next hlen =>
      unfold patchAndClear
      dsimp only
      split
      · show tbs.length ≤ maxPayload
        omega
      · next h32 =>
        split
        · show tbs.length ≤ maxPayload
          omega
        · show (patchTbs tbs _).length ≤ maxPayload
          rw [patchTbs_length (Nat.le_of_not_lt h32)]
          omega

theorem prepareTbs_sg (c : Coord) (env : TbsEnv) : (prepareTbs c env).1.sg = c.sg := by
  obtain ⟨d, tbs, hex, e | e⟩ := prepareTbs_cases c env <;> rw [e]

/-! ## One event -/

/-- What the event reads may be forwarded. -/
def ForwardsAt (P : Frame → Prop) (c : Coord) : Event → Prop
  | .frame i f _ => i ∈ c.signers → Forwards P c i f
  | _ => True

/-- What an event leaves: the frames it queues satisfy `P`, and the buffers keep their
sizes. -/
structure Sent (P : Frame → Prop) (c : Coord) (e : Event) : Prop where
  fits : (step c e).tbs.length ≤ maxPayload
  room : ∀ j, (c.sg j).r1Sig.length = frameSigSize → ((step c e).sg j).r1Sig.length = frameSigSize
  queue : ∀ j, ∃ fs, ((step c e).sg j).msgq = kept c e j ++ fs ∧ ∀ f ∈ fs, P f

theorem Sends.sent (ht : c.tbs.length ≤ maxPayload) {e : Event} (h : Sends P c (step c e))
    (hk : ∀ j, kept c e j = (c.sg j).msgq) : Sent P c e :=
  ⟨by rw [h.tbs]; exact ht, fun j hj => (h.room j).trans hj, fun j => by rw [hk]; exact h.queue j⟩

/-- **One event** but a `HELLO` queues what the coordinator composes and forwards. -/
theorem step_sends (hP : Texts P) (hd : c.signers.Nodup) (ht : c.tbs.length ≤ maxPayload)
    {e : Event}
    (he : ∀ env payload, e ≠ .hello env payload) (hf : ForwardsAt P c e) : Sent P c e := by
  cases hx : c.exited with
  | true =>
    have hstep : step c e = c := by
      rw [step_exited hx]
    refine Sends.sent ht (by rw [hstep]; exact .refl c) fun j => ?_
    · cases e with
      | hello env payload => exact absurd rfl (he env payload)
      | drain i =>
        show (if _ then _ else _) = _
        rw [if_neg fun h => by rw [hx] at h; exact absurd h.2.2 (by decide)]
      | _ => rfl
  | false =>
    have hexit : Sends P c (exitIfQuiet c) := by
      unfold exitIfQuiet
      split
      · exact .of_sg_eq rfl rfl
      · exact .refl c
    cases e with
    | hello env payload => exact absurd rfl (he env payload)
    | loopHead env =>
      have hstep : step c (.loopHead env) = loopHead c env :=
        step_loopHead hx env
      by_cases hn : c.roastFail = false ∧ (c.signingDone = true ∧ c.mode = .sign) ∧ 0 < c.toMint
      · -- the TBS is replaced before the requests go out
        have hnext : loopHead c env = nextMint c env := by
          unfold loopHead
          rw [hn.1, if_neg Bool.false_ne_true, if_pos hn.2.1, if_pos hn.2.2]
        have hfit : (resume (prepareTbs (advanceSerial c) env).1).tbs.length ≤ maxPayload :=
          prepareTbs_fits (c := advanceSerial c) ht env
        have hsg : (resume (prepareTbs (advanceSerial c) env).1).sg = c.sg :=
          prepareTbs_sg (advanceSerial c) env
        have h := broadcastSignReq_sends hP hfit
        refine ⟨?_, fun j hj => ?_, fun j => ?_⟩
        · rw [hstep, hnext]
          unfold nextMint
          rw [h.tbs]
          exact hfit
        · rw [hstep, hnext]
          exact (h.room j).trans (by rw [hsg]; exact hj)
        · have hq := h.queue j
          rw [hsg] at hq
          rw [hstep, hnext]
          exact hq
      · refine Sends.sent ht ?_ fun _ => rfl
        rw [hstep]
        unfold loopHead
        split; · exact hexit
        next hfail =>
        split
        · next hsign =>
          split
          · next hmint => exact absurd ⟨by simpa using hfail, hsign, hmint⟩ hn
          · exact hexit
        split
        · exact hexit
        · exact .refl c
    | expire now env =>
      refine Sends.sent ht ?_ fun _ => rfl
      rw [step_expire hx]
      split
      · exact roastExpireSessions_sends hP ht now env
      · exact .refl c
    | drain i =>
      have hstep : step c (.drain i) = if i ∈ c.signers then drainSignerWrite c i else c :=
        step_drain hx i
      refine ⟨by rw [hstep]; split <;> exact ht, fun j hj => ?_,
        fun j => ⟨[], ?_, List.forall_mem_nil _⟩⟩
      · rw [hstep]
        split
        · unfold drainSignerWrite
          by_cases e : j = i
          · rw [e, Coord.setSg_self]
            exact e ▸ hj
          · rw [Coord.setSg_of_ne e, hj]
        · exact hj
      · rw [List.append_nil]
        exact kept_drain hx i j
    | disconnect i =>
      refine Sends.sent ht ?_ fun _ => rfl
      rw [step_disconnect hx]
      split
      · exact .of_sg_eq rfl rfl
      · exact .refl c
    | frame i f env =>
      refine Sends.sent ht ?_ fun _ => rfl
      rw [step_frame hx]
      split
      · next hi => exact processSignerFrame_sends hP hd ht env i f (hf hi)
      · exact .refl c

/-! ## Registration -/

/-- `P` allows what a new signer is sent. -/
structure Greetings (P : Frame → Prop) : Prop where
  ack : ∀ pid m, P ⟨.helloAck, [], ackText pid m⟩
  start : ∀ n t, P ⟨.startDkg, [], printTwo (ascii "START_DKG") n t⟩ ∧
    P ⟨.startRefresh, [], printTwo (ascii "START_REFRESH") n t⟩
  request : ∀ tbs : Bytes, tbs.length ≤ maxPayload → P ⟨.signReq, [], tbs⟩

theorem maybeStart_sends {type : MsgType} {word : Bytes} (h : P ⟨type, [], printTwo word c.n c.t⟩) :
    Sends P c (c.maybeStart type word) := by
  unfold Coord.maybeStart
  split; · exact .refl c
  split; · exact .refl c
  have h0 : Sends P c { c with dkgState := .collectingR1 } := .of_sg_eq rfl rfl
  exact h0.trans (broadcast_sends h)

theorem promote_sends (hP : Greetings P) (ht : c.tbs.length ≤ maxPayload) (pid : Nat) :
    Sends P (enroll c pid) (promote c pid) := by
  have h := signerSend_sends (c := enroll c pid) (hP.ack pid c.mode) pid
  refine h.trans ?_
  show Sends P _ (welcome (Coord.signerSend (enroll c pid) pid .helloAck [] _) pid)
  unfold welcome
  split
  · exact maybeStart_sends (hP.start _ _).1
  · exact maybeStart_sends (hP.start _ _).2
  · exact signerSend_sends (hP.request _ ht) pid

/-- **A `HELLO`** queues what a new signer is sent. -/
theorem hello_sends (hP : Greetings P) (ht : c.tbs.length ≤ maxPayload) (env : HelloEnv)
    (payload : Bytes) : Sent P c (.hello env payload) := by
  have idle (hs : (step c (.hello env payload)).signers = c.signers)
      (h : Sends P c (step c (.hello env payload))) : Sent P c (.hello env payload) :=
    h.sent ht (kept_hello_same hs)
  cases hx : c.exited with
  | true =>
    have hstep : step c (.hello env payload) = c := by
      rw [step_exited hx]
    exact idle (by rw [hstep]) (by rw [hstep]; exact .refl c)
  | false =>
    have hstep : step c (.hello env payload) = (onHello c env payload).1 :=
      step_hello hx env payload
    rcases onHello_taken c env payload with e | ⟨pid, pn, pt, hp, hnt, e | ⟨hr, e⟩⟩
    · rw [← hstep] at e
      exact idle (by rw [e]) (by rw [e]; exact .refl c)
    · rw [← hstep] at e
      exact idle (by rw [e]) (by rw [e]; exact .of_sg_eq rfl rfl)
    rw [← hstep] at e
    have h := promote_sends (c := { c with n := pn, t := pt }) hP ht pid
    refine ⟨by rw [e, h.tbs]; exact ht, fun j hj => ?_, fun j => ?_⟩
    · rw [e, h.room j, enroll_sg]
      split
      · exact List.length_replicate
      · exact hj
    · rw [kept_hello hr.new e j, e]
      exact h.queue j

end FrostSshCa.Coordinator
