import FrostSshCa.Coordinator.Outgoing
import FrostSshCa.Coordinator.Blacklist

/-!
# What the buffers hold

Whatever a reached coordinator has stored of frames and of subprocess output fits the
buffer it is in: the round-1 packages, the packages and shares of the sessions, and
`g_pub_key_pkg`.
-/

namespace FrostSshCa.Coordinator

open Lib

variable {c c' : Coord} {i : Nat} {f : Frame} {env : Env}

/-- The buffers of a session, `signing_pkg` and the rows of `shares`. -/
structure RoastSession.Stored (s : RoastSession) : Prop where
  signingPkg : s.signingPkg.length ≤ maxPayload
  shares : ∀ i, (s.shares i).length ≤ maxPayload

structure Stored (c : Coord) : Prop where
  r1Pkg : ∀ j, (c.sg j).r1Pkg.length ≤ maxPayload
  session : ∀ k, (c.sessions k).Stored
  pubKeyPkg : c.pubKeyPkg.length ≤ maxPayload

/-- `frost_assemble_signing_package` decodes its answer with `hex_to_bytes`, into
`FROST_MAX_PAYLOAD` bytes. -/
def Env.Decodes (env : Env) :
    Prop := ∀ b spkg, env.assemble b = some spkg → spkg.length ≤ maxPayload

/-- The answers during an event are such. -/
def Event.Decodes : Event → Prop
  | .frame _ _ env => env.Decodes
  | .expire _ env => ∀ k, (env k).Decodes
  | _ => True

theorem RoastSession.zero_stored :
    RoastSession.zero.Stored := ⟨Nat.zero_le _, fun _ => Nat.zero_le _⟩

theorem newSession_stored (chosen : List Nat) {spkg : Bytes} (h : spkg.length ≤ maxPayload)
    (now : Nat) :
    (newSession c chosen spkg now).Stored := ⟨h, fun _ => Nat.zero_le _⟩

/-! ## Single updates -/

theorem Stored.congr (h : Stored c) (hsg : c'.sg = c.sg) (hs : c'.sessions = c.sessions)
    (hp : c'.pubKeyPkg = c.pubKeyPkg) : Stored c' :=
  ⟨hsg ▸ h.r1Pkg, hs ▸ h.session, hp ▸ h.pubKeyPkg⟩

theorem Stored.setSg (h : Stored c) {g : SignerRec → SignerRec}
    (hg : (g (c.sg i)).r1Pkg.length ≤ maxPayload) : Stored (c.setSg i g) := by
  refine ⟨fun j => ?_, h.session, h.pubKeyPkg⟩
  by_cases e : j = i
  · subst e
    rw [Coord.setSg_self]
    exact hg
  · rw [Coord.setSg_of_ne e]
    exact h.r1Pkg j

/-- A record update that keeps the round-1 package. -/
theorem Stored.setSg_keep (h : Stored c) {g : SignerRec → SignerRec}
    (hg : (g (c.sg i)).r1Pkg = (c.sg i).r1Pkg) : Stored (c.setSg i g) :=
  h.setSg (by rw [hg]; exact h.r1Pkg i)

theorem Stored.setSession (h : Stored c) {k : Fin maxSessions} {g : RoastSession → RoastSession}
    (hg : (g (c.sessions k)).Stored) : Stored (c.setSession k g) := by
  refine ⟨h.r1Pkg, fun j => ?_, h.pubKeyPkg⟩
  by_cases e : j = k
  · subst e
    rw [Coord.setSession_self]
    exact hg
  · rw [Coord.setSession_of_ne e]
    exact h.session j

theorem Stored.send (h : Stored c) (i : Nat) (type : MsgType) (sig payload : Bytes) :
    Stored (c.signerSend i type sig payload) :=
  h.setSg_keep (i := i) (g := fun r => { r with msgq := r.msgq ++ [⟨type, sig, payload⟩] }) rfl

theorem Stored.broadcast (h : Stored c) (type : MsgType) (payload : Bytes) :
    Stored (c.broadcast type payload) :=
  foldl_invariant (I := Stored) (fun _ i _ hd => hd.send i type [] payload) h

theorem Stored.setPhase (h : Stored c) (i : Nat) (p : SPhase) : Stored (setPhase c i p) := by
  unfold Coordinator.setPhase
  split
  · exact h.setSg_keep rfl
  · exact h

theorem Stored.black (h : Stored c) (i : Nat) :
    Stored (Coordinator.setPhase (blacklistSigner c i) i .blacklisted) := by
  obtain ⟨bl, e⟩ := blacklistSigner_shape c i
  have hlist : Stored { c with blacklist := bl } := h.congr rfl rfl rfl
  rw [e]
  exact hlist.setPhase i .blacklisted

theorem Stored.strike (h : Stored c) (i : Nat) : Stored (addStrike c i) := by
  unfold addStrike
  split
  · exact h.congr rfl rfl rfl
  · exact h

theorem Stored.request (h : Stored c) (p : SPhase) (i : Nat) : Stored (requestCommit c p i) := by
  have h1 : Stored (c.setSg i fun r => { r with signPhase := p, commit := [], sessionId := 0 }) :=
    h.setSg_keep rfl
  exact h1.send ..

theorem Stored.restart (h : Stored c) : Stored (broadcastSignReq c) := by
  refine foldl_invariant (I := Stored) (fun d i _ hd => ?_) h
  split
  · exact hd
  · exact hd.request .init i

theorem Stored.close (h : Stored c) (k : Fin maxSessions) (st : RSessState) :
    Stored (c.closeSession k st) :=
  h.setSession (g := fun s => { s with state := st }) ⟨(h.session k).signingPkg,
    (h.session k).shares⟩

/-! ## Sign mode -/

theorem Stored.tryForm (h : Stored c) (henv : env.Decodes) : Stored (tryForm c env) := by
  rcases tryForm_cases c env with e | ⟨k, spkg, wire, hf, e⟩
  · rw [e]; exact h
  · obtain ⟨b, -, hspkg, -⟩ := hf.bundle
    have hnew : Stored (c.setSession k fun _ => newSession c (chooseSigners c) spkg env.now) :=
      h.setSession (newSession_stored _ (henv b spkg hspkg) env.now)
    have hfill : Stored (fillSlot c k (chooseSigners c) spkg env.now) := hnew.congr rfl rfl rfl
    rw [e]
    refine foldl_invariant (I := Stored) (fun d id _ hd => ?_) hfill
    have h1 : Stored (d.setSg id fun r =>
        { r with signPhase := .inSession, sessionId := c.nextSessionId }) := hd.setSg_keep rfl
    exact h1.send ..

theorem Stored.culpritReset (h : Stored c) (k : Fin maxSessions) (x : Nat) :
    Stored (culpritReset c k x) := by
  refine foldl_invariant (I := Stored) (fun d i _ hd => ?_) ((h.close k .failed).black x)
  split
  · exact hd.request .init i
  · exact hd

theorem Stored.blacklistSession (h : Stored c) (k : Fin maxSessions) :
    Stored (blacklistSession c k) := by
  have hm : Stored (blacklistMembers c k) :=
    foldl_invariant (I := Stored) (fun _ i _ hd => hd.black i) (h.close k .failed)
  unfold Coordinator.blacklistSession
  dsimp only
  refine Stored.restart ?_
  split
  · exact hm.congr rfl rfl rfl
  · exact hm

theorem Stored.finish (h : Stored c) (k : Fin maxSessions) : Stored (finishSession c k) :=
  (h.close k .complete).congr rfl rfl rfl

theorem Stored.aggregateOk (h : Stored c) (env : Env) (k : Fin maxSessions) (sig64 : Bytes) :
    Stored (aggregateOk c env k sig64) := by
  have hfin := h.finish k
  unfold Coordinator.aggregateOk callMint
  split
  · exact hfin
  · next d hd =>
    obtain ⟨cert, -, rfl⟩ := Option.map_eq_some_iff.mp hd
    have hcount : Stored (countCert (finishSession c k) cert) := hfin.congr rfl rfl rfl
    exact hcount.broadcast .certOutput []

theorem Stored.onAggregate (h : Stored c) (henv : env.Decodes) (k : Fin maxSessions)
    (r : AggregateResult) : Stored (onAggregate c env k r) := by
  cases r with
  | notRun => exact h
  | sig bytes =>
    dsimp only [Coordinator.onAggregate]
    split
    · exact h.blacklistSession k
    · exact h.aggregateOk env k bytes
  | culprit x =>
    dsimp only [Coordinator.onAggregate]
    split
    · exact ((h.culpritReset k x).tryForm henv).congr rfl rfl rfl
    · exact h.blacklistSession k
  | failed => exact h.blacklistSession k

theorem Stored.fileShare (h : Stored c) (k : Fin maxSessions) (slot i : Nat) {share : Bytes}
    (hs : share.length ≤ maxPayload) : Stored (fileShare c k slot i share) := by
  refine Stored.setSg_keep (h.setSession ⟨(h.session k).signingPkg, fun j => ?_⟩) rfl
  show (Function.update (c.sessions k).shares slot share j).length ≤ maxPayload
  by_cases e : j = slot
  · subst e
    rw [Function.update_self]
    exact hs
  · rw [Function.update_of_ne e]
    exact (h.session k).shares j

theorem Stored.expireSlot (h : Stored c) (now : Nat) (henv : env.Decodes) (k : Fin maxSessions) :
    Stored (expireSlot c now env k) := by
  unfold Coordinator.expireSlot
  split; · exact h
  split; · exact h
  refine Stored.tryForm (foldl_invariant (I := Stored) (fun d p _ hd => ?_)
    (h.close k .failed)) henv
  unfold expireMember
  split
  swap
  · exact hd
  split
  · exact hd.request .init p.1
  dsimp only
  split
  · exact (hd.strike p.1).black p.1
  · exact (hd.strike p.1).request .suspect p.1

/-! ## The ceremonies -/

theorem Stored.fileR1 (h : Stored c) (hf : f.payload.length ≤ maxPayload) (i : Nat) :
    Stored (fileR1 c i f) := h.setSg hf

theorem Stored.relayAll (h : Stored c) (type : MsgType) : Stored (relayAll c type) := by
  refine foldl_invariant (I := Stored) (fun d s _ hd => ?_) h
  refine foldl_invariant (I := Stored) (fun x j _ hx => ?_) hd
  split
  · exact hx.send ..
  · exact hx

theorem Stored.storeR1 (h : Stored c) (type : MsgType) (i : Nat) (f : Frame) :
    Stored (storeR1 c (fun c => c.checkR1 fun c s => c.relayR1 type s) i f) := by
  unfold Coordinator.storeR1
  split; · exact h
  next hsize =>
  have hfile : Stored (Coordinator.fileR1 c i f) := h.fileR1 (Nat.le_of_not_lt hsize) i
  unfold Coord.checkR1
  dsimp only
  split
  · exact hfile
  · have hmove : Stored { Coordinator.fileR1 c i f with dkgState := .collectingR2 } :=
      hfile.congr rfl rfl rfl
    exact hmove.relayAll type

theorem Stored.relayR2 (h : Stored c) (type : MsgType) (dst : Nat) (sig payload : Bytes) :
    Stored (c.relayR2 type dst sig payload) := by
  unfold Coord.relayR2
  split
  · exact h.send ..
  · exact h

theorem Stored.checkR2 (h : Stored c) (type : MsgType) (payload : Bytes) :
    Stored (c.checkR2 type payload) := by
  unfold Coord.checkR2
  split
  · exact h
  · exact (h.broadcast type payload).congr rfl rfl rfl

theorem Stored.fileReport (h : Stored c) (i : Nat) (f : Frame) : Stored (fileReport c i f) := by
  have hset : Stored (c.setSg i fun r => { r with pubKeyPkg := f.payload }) := h.setSg_keep rfl
  exact hset.congr rfl rfl rfl

theorem Stored.storePubKeyPkg (h : Stored c) (env : Env) {pkg : Bytes}
    (hp : pkg.length ≤ maxPayload) :
    Stored (storePubKeyPkg c env pkg) := ⟨h.r1Pkg, h.session, hp⟩

theorem Stored.onRefreshComplete (h : Stored c) (hf : f.payload.length ≤ maxPayload) (env : Env)
    (i : Nat) :
    Stored (onRefreshComplete c env i f) := by
  have hfile := h.fileReport i f
  unfold Coordinator.onRefreshComplete
  dsimp only
  split
  · exact hfile
  have hall {d : Coord} (hd : Stored d) : Stored (checkRefreshAllConfirmed d) := by
    unfold checkRefreshAllConfirmed
    split
    · exact hd
    · exact (hd.broadcast .refreshConfirmed []).congr rfl rfl rfl
  refine hall ?_
  split
  · exact hfile.storePubKeyPkg env hf
  · exact hfile

theorem Stored.onPubKeyPkg (h : Stored c) (env : Env) (i : Nat) (f : Frame) :
    Stored (onPubKeyPkg c env i f) := by
  have hfile := h.fileReport i f
  unfold Coordinator.onPubKeyPkg
  dsimp only
  split; · exact hfile
  split; · exact hfile
  next hsize => exact (hfile.storePubKeyPkg env (Nat.le_of_not_lt hsize)).congr rfl rfl rfl

/-! ## One event -/

theorem Stored.frame (h : Stored c) (henv : env.Decodes) (hf : f.payload.length ≤ maxPayload)
    (i : Nat) :
    Stored (processSignerFrame c env i f) := by
  have flagged : Stored (c.setSg i fun r => { r with r2Complete := true }) := h.setSg_keep rfl
  unfold processSignerFrame
  split
  · unfold onRound1Pkg
    split
    · exact h
    · exact h.storeR1 .relayR1 i f
  · rcases onRound2Pkg_cases c f with e | ⟨dst, -, e⟩
    · rw [e]; exact h
    · rw [e]; exact h.relayR2 ..
  · unfold onR2Complete
    split
    · exact h
    · exact flagged.checkR2 ..
  · unfold onRefreshR1
    split
    · exact h
    · exact h.storeR1 .relayRefreshR1 i f
  · rcases onRefreshR2_cases c f with e | ⟨-, dst, -, e⟩
    · rw [e]; exact h
    · rw [e]; exact h.relayR2 ..
  · unfold onRefreshR2Complete
    split
    · exact h
    · exact flagged.checkR2 ..
  · exact h.onRefreshComplete hf env i
  · exact h.onPubKeyPkg env i f
  · exact h.setSg_keep rfl
  · rcases onCommit_cases c env i f with e | ⟨-, e⟩
    · rw [e]; exact h
    · rw [e]
      exact Stored.tryForm (h.setSg_keep rfl) henv
  · rcases onSigShare_cases c env i f with e | ⟨k, slot, -, e | ⟨stdin, -, -, e⟩⟩
    · rw [e]; exact h
    · rw [e]; exact h.fileShare k slot i hf
    · rw [e]
      exact (h.fileShare k slot i hf).onAggregate henv k _
  · exact h

theorem Stored.loopHead (h : Stored c) (env : TbsEnv) : Stored (loopHead c env) := by
  have hexit : Stored (exitIfQuiet c) := by
    unfold exitIfQuiet
    split
    · exact h.congr rfl rfl rfl
    · exact h
  unfold Coordinator.loopHead
  split
  · exact hexit
  split
  · split
    · unfold nextMint
      refine Stored.restart ?_
      obtain ⟨t, tbs, hex, e | e⟩ := prepareTbs_cases (advanceSerial c) env
      · rw [e]
        exact h.congr rfl rfl rfl
      · rw [e]
        exact ⟨h.r1Pkg, fun _ => RoastSession.zero_stored, h.pubKeyPkg⟩
    · exact hexit
  split
  · exact hexit
  · exact h

theorem Stored.promote (h : Stored c) (pid : Nat) : Stored (promote c pid) := by
  have hroll : Stored (enroll c pid) := by
    refine ⟨fun j => ?_, h.session, h.pubKeyPkg⟩
    rw [enroll_sg]
    split
    · exact Nat.zero_le _
    · exact h.r1Pkg j
  have hack := hroll.send pid .helloAck [] (ackText pid c.mode)
  have start {d : Coord} (hd : Stored d) (type : MsgType) (word : Bytes) :
      Stored (d.maybeStart type word) := by
    unfold Coord.maybeStart
    split; · exact hd
    split; · exact hd
    have hmove : Stored { d with dkgState := .collectingR1 } := hd.congr rfl rfl rfl
    exact hmove.broadcast ..
  unfold Coordinator.promote welcome
  split
  · exact start hack ..
  · exact start hack ..
  · exact hack.send ..

/-- **One event** stores what fits. -/
theorem Stored.step (h : Stored c) {e : Event} (hr : e.Received) (hd : e.Decodes) :
    Stored (step c e) := by
  unfold Coordinator.step
  split; · exact h
  cases e with
  | loopHead env => exact h.loopHead env
  | expire now env =>
    dsimp only
    split
    · exact foldl_invariant (I := Stored) (fun d k _ hs => hs.expireSlot now (hd k) k) h
    · exact h
  | hello env payload =>
    dsimp only
    rcases onHello_taken c env payload with e | ⟨pid, pn, pt, -, -, e | ⟨-, e⟩⟩
    · rw [e]; exact h
    · rw [e]; exact h.congr rfl rfl rfl
    · have hclaim : Stored { c with n := pn, t := pt } := h.congr rfl rfl rfl
      rw [e]
      exact hclaim.promote pid
  | drain i =>
    dsimp only
    split
    · exact h.setSg_keep rfl
    · exact h
  | disconnect i =>
    dsimp only
    split
    · exact h.congr rfl rfl rfl
    · exact h
  | frame i f env =>
    dsimp only
    split
    · exact h.frame hd (Accepted.sizes hr).2 i
    · exact h

theorem Unused.stored (h : Unused c) (hp : c.pubKeyPkg.length ≤ maxPayload) : Stored c := by
  refine ⟨fun j => ?_, fun k => ?_, hp⟩
  · rw [h.sg]
    exact Nat.zero_le _
  · rw [h.sessions]
    exact RoastSession.zero_stored

/-- **What is stored fits**, after every run from a key package that did. -/
theorem run_stored (h0 : Started c) (hp : c.pubKeyPkg.length ≤ maxPayload) {es : List Event}
    (hes : ∀ e ∈ es, e.Received ∧ e.Decodes) : Stored (run Coordinator.step c es) :=
  Along.invariant (C := fun _ e => e.Received ∧ e.Decodes) (I := Stored)
    (fun _ _ hs he => hs.step he.1 he.2) (h0.unused.stored hp) (Along.of_mem fun e he _ => hes e he)

end FrostSshCa.Coordinator
