import FrostSshCa.Coordinator.Spec

/-!
# Steps of sign mode, taken apart

Every block of sign mode is a chain of a few elementary changes: idle ones,
closing a session, blacklisting and striking a signer, asking it for a
commitment, forming a session, restarting for the next certificate. `Link S` is
one such change within the scope `S`.
-/

namespace FrostSshCa.Coordinator

open Lib

/-- What a signer of sign mode is sent besides requests and bundles. -/
def MsgType.idle : MsgType → Bool
  | .certOutput | .relayR2 | .dkgDone | .refreshConfirmed => true
  | _ => false

/-- The signing side is the same, and idle frames may have been queued. -/
structure RecIdle (r r' : SignerRec) : Prop where
  view : r'.signView = r.signView
  queue : ∃ fs : List Frame, r'.msgq = r.msgq ++ fs ∧ ∀ f ∈ fs, MsgType.idle f.type

/-- Nothing the signing rounds depend on differs. -/
structure Idle (c c' : Coord) : Prop where
  mode : c'.mode = c.mode
  n : c'.n = c.n
  t : c'.t = c.t
  tbs : c'.tbs = c.tbs
  signers : c'.signers = c.signers
  sessions : c'.sessions = c.sessions
  nextSessionId : c'.nextSessionId = c.nextSessionId
  blacklist : c'.blacklist = c.blacklist
  strikes : c'.strikes = c.strikes
  /-- Only the end of the DKG's second round moves its state. -/
  dkgState : c'.dkgState = c.dkgState ∨ c'.dkgState = .complete
  sg : ∀ i, RecIdle (c.sg i) (c'.sg i)

/-- The state a restart asks for commitments in. -/
structure Restart (c c' : Coord) : Prop where
  mode : c'.mode = c.mode
  n : c'.n = c.n
  t : c'.t = c.t
  signers : c'.signers = c.signers
  sg : c'.sg = c.sg
  blacklist : c'.blacklist = c.blacklist
  strikes : c'.strikes = c.strikes
  dkgState : c'.dkgState = c.dkgState
  nextSessionId : c'.nextSessionId = c.nextSessionId
  sessions : c'.sessions = c.sessions ∨ c'.sessions = fun _ => RoastSession.zero

/-- Who may be blacklisted or struck, who may be asked in the present sessions,
and what answers the attempts to form one. -/
structure Scope where
  black : Nat → Prop
  ask : (Fin maxSessions → RoastSession) → Nat → Prop
  env : Env → Prop

/-- No limits. -/
def Scope.all : Scope := ⟨fun _ => True, fun _ _ => True, fun _ => True⟩

inductive Link (S : Scope) : Coord → Coord → Prop where
  | idle {c c' : Coord} (h : Idle c c') : Link S c c'
  | close {c : Coord} {k : Fin maxSessions} (hk : (c.sessions k).state = .awaitingShares)
      {st : RSessState} (h : st = .failed ∨ st = .complete) : Link S c (c.closeSession k st)
  | black {c : Coord} {id : Nat} (h : S.black id) :
      Link S c (setPhase (blacklistSigner c id) id .blacklisted)
  | strike {c : Coord} {id : Nat} (h : S.black id) : Link S c (addStrike c id)
  | request {c : Coord} {p : SPhase} {id : Nat} (hp : p = .init ∨ p = .suspect ∧ S.black id)
      (hid : id ∈ c.signers) (h : S.ask c.sessions id) : Link S c (requestCommit c p id)
  | form {c : Coord} {env : Env} {k : Fin maxSessions} {spkg wire : Bytes} (he : S.env env)
      (h : Forms c env k spkg wire) :
      Link S c (openSession c k (chooseSigners c) spkg wire env.now)
  | restart {c c' : Coord} (h : Restart c c') (hQ : ∀ id ∈ c.signers, S.ask c'.sessions id) :
      Link S c (broadcastSignReq c')

/-- A chain of such changes. -/
def Chain (S : Scope) : Coord → Coord → Prop := Relation.ReflTransGen (Link S)

variable {S : Scope}
variable {c c' c'' : Coord}

/-! ## Idle changes -/

theorem RecIdle.refl (r : SignerRec) : RecIdle r r := ⟨rfl, [], by simp, nofun⟩

theorem RecIdle.trans {r r' r'' : SignerRec} (h : RecIdle r r') (h' : RecIdle r' r'') :
    RecIdle r r'' := by
  obtain ⟨hv, fs, hq, hf⟩ := h
  obtain ⟨hv', fs', hq', hf'⟩ := h'
  refine ⟨hv'.trans hv, fs ++ fs', ?_, ?_⟩
  · rw [hq', hq, List.append_assoc]
  · intro f hmem
    rcases List.mem_append.mp hmem with hmem | hmem
    · exact hf f hmem
    · exact hf' f hmem

theorem Idle.of_sg_eq (hm : c'.mode = c.mode) (hn : c'.n = c.n) (ht : c'.t = c.t)
    (htbs : c'.tbs = c.tbs) (hs : c'.signers = c.signers) (hse : c'.sessions = c.sessions)
    (hid : c'.nextSessionId = c.nextSessionId) (hb : c'.blacklist = c.blacklist)
    (hst : c'.strikes = c.strikes) (hd : c'.dkgState = c.dkgState ∨ c'.dkgState = .complete)
    (hsg : c'.sg = c.sg) : Idle c c' :=
  ⟨hm, hn, ht, htbs, hs, hse, hid, hb, hst, hd, fun _ => hsg ▸ RecIdle.refl _⟩

theorem Idle.refl (c : Coord) : Idle c c :=
  .of_sg_eq rfl rfl rfl rfl rfl rfl rfl rfl rfl (.inl rfl) rfl

theorem Idle.trans (h : Idle c c') (h' : Idle c' c'') : Idle c c'' where
  mode := h'.mode.trans h.mode
  n := h'.n.trans h.n
  t := h'.t.trans h.t
  tbs := h'.tbs.trans h.tbs
  signers := h'.signers.trans h.signers
  sessions := h'.sessions.trans h.sessions
  nextSessionId := h'.nextSessionId.trans h.nextSessionId
  blacklist := h'.blacklist.trans h.blacklist
  strikes := h'.strikes.trans h.strikes
  dkgState := by
    rcases h'.dkgState with e | e
    · rw [e]; exact h.dkgState
    · exact .inr e
  sg := fun i => (h.sg i).trans (h'.sg i)

theorem Idle.foldl {g : Coord → Nat → Coord} (h : ∀ c i, Idle c (g c i)) (l : List Nat)
    (c : Coord) : Idle c (l.foldl g c) :=
  foldl_invariant (I := Idle c) (fun s i _ hs => hs.trans (h s i)) (.refl c)

/-- A record update of idle kind. -/
theorem setSg_idle {i : Nat} {g : SignerRec → SignerRec} (h : RecIdle (c.sg i) (g (c.sg i))) :
    Idle c (c.setSg i g) := by
  refine ⟨rfl, rfl, rfl, rfl, rfl, rfl, rfl, rfl, rfl, .inl rfl, fun j => ?_⟩
  by_cases e : j = i
  · subst e; rw [Coord.setSg_self]; exact h
  · rw [Coord.setSg_of_ne e]; exact RecIdle.refl _

theorem signerSend_idle {type : MsgType} (h : MsgType.idle type) (c : Coord) (i : Nat)
    (sig payload : Bytes) : Idle c (c.signerSend i type sig payload) :=
  setSg_idle ⟨rfl, _, rfl, fun _ hf => List.mem_singleton.mp hf ▸ h⟩

theorem broadcast_idle {type : MsgType} (h : MsgType.idle type) (c : Coord) (payload : Bytes) :
    Idle c (c.broadcast type payload) :=
  .foldl (fun c i => signerSend_idle h c i [] payload) _ c

theorem relayR2_idle (c : Coord) (target : Nat) (sig payload : Bytes) :
    Idle c (c.relayR2 .relayR2 target sig payload) := by
  unfold Coord.relayR2
  split
  · exact signerSend_idle rfl ..
  · exact .refl c

theorem checkR2Complete_idle (c : Coord) : Idle c (checkR2Complete c) := by
  unfold checkR2Complete Coord.checkR2
  split
  · exact .refl c
  · exact (broadcast_idle rfl c _).trans
      (.of_sg_eq rfl rfl rfl rfl rfl rfl rfl rfl rfl (.inr rfl) rfl)

theorem fileReport_idle (c : Coord) (i : Nat) (f : Frame) : Idle c (fileReport c i f) := by
  have h : Idle c (c.setSg i fun r => { r with pubKeyPkg := f.payload }) :=
    setSg_idle ⟨rfl, [], by simp, nofun⟩
  exact h.trans (.of_sg_eq rfl rfl rfl rfl rfl rfl rfl rfl rfl (.inl rfl) rfl)

theorem onRefreshComplete_idle (c : Coord) (env : Env) (i : Nat) (f : Frame) :
    Idle c (onRefreshComplete c env i f) := by
  unfold onRefreshComplete
  refine (fileReport_idle c i f).trans ?_
  dsimp only
  split; · exact .refl _
  have hall (d : Coord) : Idle d (checkRefreshAllConfirmed d) := by
    unfold checkRefreshAllConfirmed
    split
    · exact .refl d
    · exact (broadcast_idle rfl d _).trans
        (.of_sg_eq rfl rfl rfl rfl rfl rfl rfl rfl rfl (.inl rfl) rfl)
  refine Idle.trans ?_ (hall _)
  split
  · exact .of_sg_eq rfl rfl rfl rfl rfl rfl rfl rfl rfl (.inl rfl) rfl
  · exact .refl _

/-- In sign mode, with no DKG under way, a ceremony frame is idle. -/
theorem ceremony_idle (hm : c.mode = .sign) (hd : c.dkgState ≠ .collectingR1) (env : Env) (i : Nat)
    (f : Frame) (hs : MsgType.signing f.type = false) : Idle c (processSignerFrame c env i f) := by
  unfold processSignerFrame
  cases e : f.type with
  | round1Pkg =>
    dsimp only
    unfold onRound1Pkg
    rw [if_pos hd]
    exact .refl c
  | round2Pkg =>
    dsimp only
    unfold onRound2Pkg
    split
    · exact .refl c
    · exact relayR2_idle ..
  | r2Complete =>
    dsimp only
    unfold onR2Complete
    split
    · exact .refl c
    · have h : Idle c (c.setSg i fun r => { r with r2Complete := true }) :=
        setSg_idle ⟨rfl, [], by simp, nofun⟩
      exact h.trans (checkR2Complete_idle _)
  | refreshR1 =>
    dsimp only
    unfold onRefreshR1
    rw [hm]
    exact .refl c
  | refreshR2 =>
    dsimp only
    unfold onRefreshR2
    rw [hm]
    exact .refl c
  | refreshR2Complete =>
    dsimp only
    unfold onRefreshR2Complete
    rw [hm]
    exact .refl c
  | refreshComplete => exact onRefreshComplete_idle c env i f
  | pubKeyPkg =>
    dsimp only
    unfold onPubKeyPkg
    refine (fileReport_idle c i f).trans ?_
    dsimp only
    split; · exact .refl _
    split; · exact .refl _
    exact .of_sg_eq rfl rfl rfl rfl rfl rfl rfl rfl rfl (.inl rfl) rfl
  | shareLoadFail => rw [e] at hs; cases hs
  | commit => rw [e] at hs; cases hs
  | sigShare => rw [e] at hs; cases hs
  | _ => exact .refl c

/-! ## Chains -/

theorem Chain.refl (c : Coord) : Chain S c c := Relation.ReflTransGen.refl

theorem Link.chain (h : Link S c c') : Chain S c c' := .single h

theorem Chain.trans (h : Chain S c c') (h' : Chain S c' c'') : Chain S c c'' :=
  Relation.ReflTransGen.trans h h'

theorem Idle.chain (h : Idle c c') : Chain S c c' := (Link.idle h).chain

/-- **The chain rule**: what every link keeps, a chain keeps. -/
theorem Chain.invariant {I : Coord → Prop} (h : Chain S c c')
    (hlink : ∀ c c', Link S c c' → I c → I c') (hi : I c) : I c' := by
  induction h with
  | refl => exact hi
  | tail _ hl ih => exact hlink _ _ hl ih

/-- A fold of chains, under an invariant of the intermediate states. -/
theorem Chain.foldl {α : Type} {g : Coord → α → Coord} {l : List α} (I : Coord → Prop)
    (hg : ∀ c, ∀ a ∈ l, I c → Chain S c (g c a) ∧ I (g c a)) (hi : I c) :
    Chain S c (l.foldl g c) := by
  have h : Chain S c (l.foldl g c) ∧ I (l.foldl g c) := by
    refine foldl_invariant (I := fun s => Chain S c s ∧ I s) ?_ ⟨.refl c, hi⟩
    intro s a ha ⟨hs, his⟩
    obtain ⟨h1, h2⟩ := hg s a ha his
    exact ⟨hs.trans h1, h2⟩
  exact h.1

theorem tryForm_chain (c : Coord) {env : Env} (he : S.env env) : Chain S c (tryForm c env) := by
  rcases tryForm_cases c env with e | ⟨k, spkg, wire, hf, e⟩
  · rw [e]; exact .refl c
  · rw [e]; exact (Link.form he hf).chain

theorem requestCommit_sessions (c : Coord) (p : SPhase) (id : Nat) :
    (requestCommit c p id).sessions = c.sessions ∧ (requestCommit c p id).signers = c.signers := by
  obtain ⟨_, e⟩ := requestCommit_sgOnly c p id
  rw [e]
  exact ⟨rfl, rfl⟩

theorem blacklist_sessions (c : Coord) (id : Nat) :
    (setPhase (blacklistSigner c id) id .blacklisted).sessions = c.sessions ∧
      (setPhase (blacklistSigner c id) id .blacklisted).signers = c.signers := by
  obtain ⟨_, e⟩ := setPhase_sgOnly (blacklistSigner c id) id .blacklisted
  obtain ⟨_, _, _, e'⟩ := blacklistSigner_recOnly c id
  rw [e, e']
  exact ⟨rfl, rfl⟩

theorem culpritReset_chain {k : Fin maxSessions} (hk : (c.sessions k).state = .awaitingShares)
    {culprit : Nat} (hB : S.black culprit)
    (hQ : ∀ id ∈ (c.sessions k).signerIds, id ≠ culprit →
      S.ask (c.closeSession k .failed).sessions id) : Chain S c (culpritReset c k culprit) := by
  refine ((Link.close hk (.inl rfl)).chain.trans (Link.black hB).chain).trans ?_
  refine Chain.foldl (fun d => d.sessions = (c.closeSession k .failed).sessions) ?_
    (blacklist_sessions _ culprit).1
  intro d id hid hd
  split
  · next h =>
    refine ⟨(Link.request (.inl rfl) h.2 ?_).chain, ?_⟩
    · rw [hd]; exact hQ id hid h.1
    · rw [(requestCommit_sessions d .init id).1]; exact hd
  · exact ⟨.refl d, hd⟩

/-- A broadcast of requests is a restart that changes nothing else. -/
theorem broadcastSignReq_chain (c : Coord) (hQ : ∀ id ∈ c.signers, S.ask c.sessions id) :
    Chain S c (broadcastSignReq c) :=
  (Link.restart ⟨rfl, rfl, rfl, rfl, rfl, rfl, rfl, rfl, rfl, .inl rfl⟩ hQ).chain

theorem blacklistMembers_chain {k : Fin maxSessions} (hk : (c.sessions k).state = .awaitingShares)
    (hB : ∀ id ∈ (c.sessions k).signerIds, S.black id) : Chain S c (blacklistMembers c k) := by
  refine (Link.close hk (.inl rfl)).chain.trans ?_
  exact Chain.foldl (fun _ => True) (fun d id hid _ => ⟨(Link.black (hB id hid)).chain, trivial⟩)
    trivial

theorem blacklistSession_chain {k : Fin maxSessions} (hk : (c.sessions k).state = .awaitingShares)
    (hB : ∀ id ∈ (c.sessions k).signerIds, S.black id)
    (hQ : ∀ id ∈ c.signers, S.ask (c.closeSession k .failed).sessions id) :
    Chain S c (blacklistSession c k) := by
  obtain ⟨_, _, _, e⟩ := blacklistMembers_recOnly c k
  have h1 := blacklistMembers_chain (S := S) hk hB
  have hidle : Idle (blacklistMembers c k) (if roastDoNoEligibleRemain (blacklistMembers c k) then
      { blacklistMembers c k with signingDone := true } else blacklistMembers c k) := by
    split
    · exact .of_sg_eq rfl rfl rfl rfl rfl rfl rfl rfl rfl (.inl rfl) rfl
    · exact .refl _
  refine (h1.trans hidle.chain).trans (broadcastSignReq_chain _ ?_)
  intro id hid
  rw [hidle.signers, e] at hid
  rw [hidle.sessions, e]
  exact hQ id hid

theorem aggregateOk_chain {k : Fin maxSessions} (hk : (c.sessions k).state = .awaitingShares)
    (env : Env) (sig64 : Bytes) :
    Chain S c (aggregateOk c env k sig64) := by
  have hdone : Idle (c.closeSession k .complete) (finishSession c k) :=
    .of_sg_eq rfl rfl rfl rfl rfl rfl rfl rfl rfl (.inl rfl) rfl
  have h1 : Chain S c (finishSession c k) :=
    (Link.close hk (.inr rfl)).chain.trans hdone.chain
  unfold aggregateOk callMint
  cases env.mint _ with
  | none => exact h1
  | some cert =>
    have h2 : Idle (finishSession c k) (countCert (finishSession c k) cert) :=
      .of_sg_eq rfl rfl rfl rfl rfl rfl rfl rfl rfl (.inl rfl) rfl
    exact h1.trans (h2.trans (broadcast_idle rfl _ _)).chain

theorem roastFailCulprit_chain {k : Fin maxSessions} (hk : (c.sessions k).state = .awaitingShares)
    {env : Env} (he : S.env env) {culprit : Nat} (hB : S.black culprit)
    (hQ : ∀ id ∈ (c.sessions k).signerIds, id ≠ culprit →
      S.ask (c.closeSession k .failed).sessions id) : Chain S c
        (roastFailCulprit c env k culprit) := by
  have hfail : Idle (tryForm (culpritReset c k culprit) env) (roastFailCulprit c env k culprit) :=
    .of_sg_eq rfl rfl rfl rfl rfl rfl rfl rfl rfl (.inl rfl) rfl
  exact ((culpritReset_chain hk hB hQ).trans (tryForm_chain _ he)).trans hfail.chain

/-- Whom an answer of `aggregate` blacklists: the named culprit, or the session. -/
def Blames (r : AggregateResult) (members : List Nat) (id : Nat) : Prop :=
  match r with
  | .notRun => False
  | .sig bytes => bytes.length ≠ 64 ∧ id ∈ members
  | .culprit x => if 0 < x ∧ x ≤ maxSigners then id = x else id ∈ members
  | .failed => id ∈ members

/-- Does the answer bring the whole session down? -/
def Unattributed (r : AggregateResult) : Prop :=
  match r with
  | .notRun => False
  | .sig bytes => bytes.length ≠ 64
  | .culprit x => ¬ (0 < x ∧ x ≤ maxSigners)
  | .failed => True

theorem onAggregate_chain {k : Fin maxSessions} (hk : (c.sessions k).state = .awaitingShares)
    {env : Env} (he : S.env env) (r : AggregateResult)
    (hB : ∀ id, Blames r (c.sessions k).signerIds id → S.black id)
    (hQ : ∀ id ∈ (c.sessions k).signerIds, S.ask (c.closeSession k .failed).sessions id)
    (hQ' : Unattributed r → ∀ id ∈ c.signers, S.ask (c.closeSession k .failed).sessions id) :
    Chain S c (onAggregate c env k r) := by
  cases r with
  | notRun => exact .refl c
  | sig bytes =>
    dsimp only [onAggregate]
    split
    · next h => exact blacklistSession_chain hk (fun id hid => hB id ⟨h, hid⟩) (hQ' h)
    · exact aggregateOk_chain hk env bytes
  | culprit x =>
    dsimp only [onAggregate]
    split
    · next h =>
      refine roastFailCulprit_chain hk he (hB x ?_) fun id hid _ => hQ id hid
      show if _ then _ else _
      rw [if_pos h]
    · next h =>
      refine blacklistSession_chain hk (fun id hid => hB id ?_) (hQ' h)
      show if _ then _ else _
      rw [if_neg h]
      exact hid
  | failed => exact blacklistSession_chain hk hB (hQ' trivial)

theorem addStrike_sessions (c : Coord) (id : Nat) :
    (addStrike c id).sessions = c.sessions ∧ (addStrike c id).signers = c.signers := by
  obtain ⟨_, _, _, e⟩ := addStrike_recOnly c id
  rw [e]
  exact ⟨rfl, rfl⟩

theorem expireMember_chain (c : Coord) (k : Fin maxSessions) {i id : Nat}
    (hB : ((c.sessions k).shares i).length = 0 → S.black id) (hQ : S.ask c.sessions id) :
    Chain S c (expireMember c k i id) := by
  unfold expireMember
  split
  · next hid =>
    split
    · exact (Link.request (.inl rfl) hid hQ).chain
    · next hlen =>
      have hb := hB (by omega)
      obtain ⟨hses, hsig⟩ := addStrike_sessions c id
      refine (Link.strike hb).chain.trans ?_
      dsimp only
      split
      · exact (Link.black hb).chain
      · refine (Link.request (.inr ⟨rfl, hb⟩) ?_ ?_).chain
        · rw [hsig]; exact hid
        · rw [hses]; exact hQ
  · exact .refl c

theorem expireMembers_chain {k : Fin maxSessions} (hk : (c.sessions k).state = .awaitingShares)
    (hB : ∀ p ∈ (c.sessions k).signerIds.zipIdx,
      ((c.sessions k).shares p.2).length = 0 → S.black p.1)
    (hQ : ∀ id ∈ (c.sessions k).signerIds, S.ask (c.closeSession k .failed).sessions id) :
    Chain S c (expireMembers c k) := by
  refine (Link.close hk (.inl rfl)).chain.trans ?_
  refine Chain.foldl (fun d => d.sessions = (c.closeSession k .failed).sessions) ?_ rfl
  intro d p hp hd
  have hsh : (d.sessions k).shares p.2 = (c.sessions k).shares p.2 := by
    rw [hd]; exact congrArg (fun s => s.shares p.2) (Coord.setSession_self k _)
  refine ⟨expireMember_chain d k (fun hlen => hB p hp (hsh ▸ hlen)) ?_, ?_⟩
  · rw [hd]; exact hQ p.1 (List.fst_mem_of_mem_zipIdx hp)
  · obtain ⟨_, _, _, e⟩ := expireMember_recOnly d k p.2 p.1
    rw [e]; exact hd

/-- `loop_head` in sign mode: it exits, restarts, or waits. -/
theorem loopHead_chain (c : Coord) (env : TbsEnv)
    (hQ : ∀ id ∈ c.signers, S.ask (prepareTbs (advanceSerial c) env).1.sessions id) :
    Chain S c (loopHead c env) := by
  have hexit (d : Coord) : Chain S d (exitIfQuiet d) := by
    unfold exitIfQuiet
    split
    · have h : Idle d { d with exited := true } :=
        .of_sg_eq rfl rfl rfl rfl rfl rfl rfl rfl rfl (.inl rfl) rfl
      exact h.chain
    · exact .refl d
  unfold loopHead
  split
  · exact hexit c
  split
  · split
    · unfold nextMint
      refine (Link.restart (c := c) ?_ ?_).chain
      · obtain ⟨d, tbs, hex, e | e⟩ := prepareTbs_cases (advanceSerial c) env
        · rw [e]; exact ⟨rfl, rfl, rfl, rfl, rfl, rfl, rfl, rfl, rfl, .inl rfl⟩
        · rw [e]; exact ⟨rfl, rfl, rfl, rfl, rfl, rfl, rfl, rfl, rfl, .inr rfl⟩
      · exact hQ
    · exact hexit c
  split
  · exact hexit c
  · exact .refl c

/-- The scan for expired sessions, under an invariant that says whom each of
them may strike and ask. -/
theorem roastExpireSessions_chain (I : Coord → Prop)
    (hlink : ∀ c c', Link S c c' → I c → I c') {now : Nat}
    (hslot : ∀ c k, I c → (c.sessions k).state = .awaitingShares → (c.sessions k).deadline ≤ now →
      (∀ p ∈ (c.sessions k).signerIds.zipIdx, ((c.sessions k).shares p.2).length = 0 →
        S.black p.1) ∧
        ∀ id ∈ (c.sessions k).signerIds, S.ask (c.closeSession k .failed).sessions id)
    {env : Fin maxSessions → Env} (he : ∀ k, S.env (env k)) (hi : I c) :
    Chain S c (roastExpireSessions c now env) := by
  refine Chain.foldl I ?_ hi
  intro d k _ hd
  have h : Chain S d (expireSlot d now (env k) k) := by
    unfold expireSlot
    split; · exact .refl d
    next hst =>
    split; · exact .refl d
    next hdl =>
    obtain ⟨h1, h2⟩ := hslot d k hd (not_not.mp hst) (by omega)
    exact (expireMembers_chain (not_not.mp hst) h1 h2).trans (tryForm_chain _ (he k))
  exact ⟨h, h.invariant hlink hd⟩

/-! ## Frames of sign mode -/

/-- A record once its `COMMIT` is accepted. -/
def storeCommit (c : Coord) (i : Nat) (f : Frame) : Coord :=
  c.setSg i fun r => { r with commit := f.payload, commitSig := f.sig, signPhase := .committed }

/-- What the guards of `COMMIT` establish. -/
structure TakesCommit (c : Coord) (i : Nat) (f : Frame) : Prop where
  phase : (c.sg i).signPhase = .init ∨ (c.sg i).signPhase = .suspect
  size : f.payload.length ≤ commitEntryMax
  sigSize : f.sig.length = frameSigSize

theorem onCommit_cases (c : Coord) (env : Env) (i : Nat) (f : Frame) : onCommit c env i f = c ∨
    TakesCommit c i f ∧ onCommit c env i f = tryForm (storeCommit c i f) env := by
  unfold onCommit
  split; · exact .inl rfl
  split; · exact .inl rfl
  next hp =>
  split; · exact .inl rfl
  next hlen =>
  split; · exact .inl rfl
  next hsig =>
  refine .inr ⟨⟨?_, by omega, not_not.mp hsig⟩, rfl⟩
  by_cases h : (c.sg i).signPhase = .init
  · exact .inl h
  · exact .inr (by_contra fun h' => hp ⟨h, h'⟩)

theorem onSigShare_cases (c : Coord) (env : Env) (i : Nat) (f : Frame) : onSigShare c env i f = c ∨
    ∃ k slot, shareTarget c i f = some (k, slot) ∧
      (onSigShare c env i f = fileShare c k slot i f.payload ∨
        ∃ stdin, aggregateStdin (fileShare c k slot i f.payload) k = some stdin ∧
          c.t ≤ ((fileShare c k slot i f.payload).sessions k).nShares ∧ onSigShare c env i f =
            onAggregate (fileShare c k slot i f.payload) env k (env.aggregate stdin)) := by
  unfold onSigShare
  split
  · exact .inl rfl
  next k slot hst =>
  refine .inr ⟨k, slot, hst, ?_⟩
  dsimp only
  split
  · next hn =>
    unfold roastTryAggregate
    split
    · exact .inl rfl
    · next stdin hstdin => exact .inr ⟨stdin, hstdin, hn, rfl⟩
  · exact .inl rfl

end FrostSshCa.Coordinator
