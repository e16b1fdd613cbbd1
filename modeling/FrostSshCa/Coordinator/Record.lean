import FrostSshCa.Coordinator.Link

/-!
# What a link does to one signer

The record of one registered signer through a `Link`: idle frames, a request, an
assignment or the blacklist. A restart passes over the blacklisted and the
keyless, whose records stay while the message changes.
-/

namespace FrostSshCa.Coordinator

open Lib

/-- A record after `requestCommit`. -/
def SignerRec.asked (r : SignerRec) (p : SPhase) (tbs : Bytes) : SignerRec :=
  { r with
    signPhase := p, commit := [], sessionId := 0, msgq := r.msgq ++ [⟨.signReq, [], tbs⟩] }

/-- A record after `assignMember`. -/
def SignerRec.assigned (r : SignerRec) (sid : Nat) (wire : Bytes) : SignerRec :=
  { r with
    signPhase := .inSession, sessionId := sid, msgq := r.msgq ++ [⟨.relayCommit, [], wire⟩] }

/-- The change of signer `i`. -/
inductive RecLink (S : Scope) (i : Nat) (c c' : Coord) : Prop where
  | idle (h : RecIdle (c.sg i) (c'.sg i)) (tbs : c'.tbs = c.tbs)
  | black (h : S.black i) (e : c'.sg i = { c.sg i with signPhase := .blacklisted })
    (tbs : c'.tbs = c.tbs)
  | request {p : SPhase} (hp : p = .init ∨ p = .suspect ∧ S.black i) (h : S.ask c'.sessions i)
      (e : c'.sg i = (c.sg i).asked p c'.tbs)
  | assign {env : Env} {k : Fin maxSessions} {spkg wire : Bytes} (h : Forms c env k spkg wire)
      (hi : i ∈ chooseSigners c) (e : c'.sg i = (c.sg i).assigned c.nextSessionId wire)
      (tbs : c'.tbs = c.tbs)
  | skipped (h : isBlacklisted c i = true ∨ (c.sg i).signPhase = .noKey) (e : c'.sg i = c.sg i)

variable {S : Scope}
variable {c c' : Coord} {i : Nat}

/-! ## Folds, one record at a time -/

/-- In a fold whose updates each change their own record, and this by `F`. -/
theorem foldl_sg {g : Coord → Nat → Coord} {F : SignerRec → SignerRec} (I : Coord → Prop)
    (hother : ∀ c j, I c → j ≠ i → (g c j).sg i = c.sg i)
    (hself : ∀ c, I c → (g c i).sg i = F (c.sg i))
    (hI : ∀ c j, I c → I (g c j)) : ∀ {l : List Nat} {c : Coord}, I c → l.Nodup →
    (l.foldl g c).sg i = if i ∈ l then F (c.sg i) else c.sg i
  | [], c, _, _ => by simp
  | j :: l, c, hi, hl => by
    obtain ⟨hj, hl⟩ := List.nodup_cons.mp hl
    rw [List.foldl_cons, foldl_sg I hother hself hI (hI c j hi) hl]
    by_cases e : j = i
    · subst e
      rw [if_neg hj, if_pos (List.mem_cons_self ..), hself c hi]
    · rw [hother c j hi e]
      have hmem : i ∈ j :: l ↔ i ∈ l := by simp [Ne.symm e]
      simp only [hmem]

theorem requestCommit_self (c : Coord) (p : SPhase) (i : Nat) :
    (requestCommit c p i).sg i = (c.sg i).asked p c.tbs := by
  unfold requestCommit Coord.signerSend
  rw [Coord.setSg_self, Coord.setSg_self]
  rfl

theorem requestCommit_of_ne {p : SPhase} {j : Nat} (h : i ≠ j) :
    (requestCommit c p j).sg i = c.sg i := by
  unfold requestCommit Coord.signerSend
  rw [Coord.setSg_of_ne h, Coord.setSg_of_ne h]

theorem assignMember_self (c : Coord) (sid : Nat) (wire : Bytes) (i : Nat) :
    (assignMember c sid wire i).sg i = (c.sg i).assigned sid wire := by
  unfold assignMember Coord.signerSend
  rw [Coord.setSg_self, Coord.setSg_self]
  rfl

theorem assignMember_of_ne {sid : Nat} {wire : Bytes} {j : Nat} (h : i ≠ j) :
    (assignMember c sid wire j).sg i = c.sg i := by
  unfold assignMember Coord.signerSend
  rw [Coord.setSg_of_ne h, Coord.setSg_of_ne h]

theorem broadcastSignReq_sg (hd : c.signers.Nodup) (i : Nat) : (broadcastSignReq c).sg i =
    if i ∈ c.signers ∧ isBlacklisted c i = false ∧ (c.sg i).signPhase ≠ .noKey then
      (c.sg i).asked .init c.tbs else c.sg i := by
  let F (r : SignerRec) : SignerRec :=
    if isBlacklisted c i = true ∨ r.signPhase = .noKey then r else r.asked .init c.tbs
  have h := foldl_sg (i := i) (F := F) (l := c.signers)
    (g := fun c id => if isBlacklisted c id || (c.sg id).signPhase = .noKey then c
      else requestCommit c .init id)
    (fun d => d.blacklist = c.blacklist ∧ d.tbs = c.tbs) ?_ ?_ ?_ (c := c) ⟨rfl, rfl⟩ hd
  · unfold broadcastSignReq
    rw [h]
    by_cases hi : i ∈ c.signers
    · simp only [hi, if_true, true_and, F]
      split <;> split <;> simp_all
    · simp [hi]
  · intro d j _ hne
    split
    · rfl
    · exact requestCommit_of_ne (Ne.symm hne)
  · intro d ⟨hb, ht⟩
    have hbl : isBlacklisted d i = isBlacklisted c i := by unfold isBlacklisted; rw [hb]
    simp only [Bool.or_eq_true, decide_eq_true_eq, hbl, F]
    split
    · rfl
    · rw [requestCommit_self, ht]
  · intro d j hd
    split
    · exact hd
    · obtain ⟨_, e⟩ := requestCommit_sgOnly d .init j
      rw [e]; exact hd

theorem openSession_sg {chosen : List Nat} (hd : chosen.Nodup) (k : Fin maxSessions)
    (spkg wire : Bytes) (now i : Nat) : (openSession c k chosen spkg wire now).sg i =
      if i ∈ chosen then (c.sg i).assigned c.nextSessionId wire else c.sg i := by
  unfold openSession
  rw [foldl_sg (F := fun r => r.assigned c.nextSessionId wire) (fun _ => True)
    (fun d j _ hne => assignMember_of_ne (Ne.symm hne)) (fun d _ => assignMember_self d _ _ i)
    (fun _ _ _ => trivial) trivial hd]
  rfl

/-! ## Links -/

theorem buildBundle_some {chosen : List Nat} {b : CommitBundle}
    (h : buildBundle c chosen = some b) :
    c.tbs.length ≤ maxPayload ∧
      b = ⟨chosen.map fun id => ⟨id, (c.sg id).commit, (c.sg id).commitSig⟩, c.tbs⟩ := by
  unfold buildBundle at h
  split at h; · cases h
  split at h; · cases h
  next hlen => exact ⟨by omega, (Option.some.inj h).symm⟩

theorem blacklist_sg (c : Coord) (id i : Nat) :
    (setPhase (blacklistSigner c id) id .blacklisted).sg i =
      if i = id ∧ id ∈ c.signers then { c.sg i with signPhase := .blacklisted } else c.sg i := by
  have hsg : (blacklistSigner c id).sg = c.sg ∧ (blacklistSigner c id).signers = c.signers := by
    unfold blacklistSigner
    split <;> exact ⟨rfl, rfl⟩
  unfold setPhase
  rw [hsg.2]
  split
  · next hid =>
    by_cases e : i = id
    · subst e
      rw [Coord.setSg_self, hsg.1, if_pos ⟨rfl, hid⟩]
    · rw [Coord.setSg_of_ne e, hsg.1, if_neg fun h => e h.1]
  · next hid => rw [hsg.1, if_neg fun h => hid h.2]

/-- Nothing happens to a signer outside the session the fallback fails. -/
theorem blacklistMembers_outside (c : Coord) {k : Fin maxSessions} {j : Nat}
    (hj : j ∉ (c.sessions k).signerIds) : (blacklistMembers c k).sg j = c.sg j ∧
      isBlacklisted (blacklistMembers c k) j = isBlacklisted c j := by
  unfold blacklistMembers
  refine foldl_invariant (I := fun d => d.sg j = c.sg j ∧ isBlacklisted d j = isBlacklisted c j)
    (s := c.closeSession k .failed) (fun d id hid hd => ?_) ⟨rfl, rfl⟩
  have hne : j ≠ id := fun e => hj (e ▸ hid)
  refine ⟨?_, ?_⟩
  · rw [blacklist_sg, if_neg fun h => hne h.1]
    exact hd.1
  · rw [← hd.2]
    obtain ⟨_, e'⟩ := setPhase_sgOnly (blacklistSigner d id) id .blacklisted
    rw [e']
    unfold blacklistSigner
    split
    · rfl
    · simp [isBlacklisted, hne]

theorem addStrike_sg (c : Coord) (id : Nat) : (addStrike c id).sg = c.sg := by
  unfold addStrike
  split <;> rfl

/-- What a chain never changes. -/
structure Framed (c c' : Coord) : Prop where
  mode : c'.mode = c.mode
  n : c'.n = c.n
  t : c'.t = c.t
  signers : c'.signers = c.signers
  dkgState : c'.dkgState = c.dkgState ∨ c'.dkgState = .complete
  blacklist : ∀ i, isBlacklisted c i = true → isBlacklisted c' i = true

theorem Framed.trans {c'' : Coord} (h : Framed c c') (h' : Framed c' c'') : Framed c c'' where
  mode := h'.mode.trans h.mode
  n := h'.n.trans h.n
  t := h'.t.trans h.t
  signers := h'.signers.trans h.signers
  dkgState := by
    rcases h'.dkgState with e | e
    · rw [e]; exact h.dkgState
    · exact .inr e
  blacklist := fun i hi => h'.blacklist i (h.blacklist i hi)

/-- The collection of round-1 packages is never started. -/
theorem Framed.notCollecting (h : Framed c c') (hd : c.dkgState ≠ .collectingR1) :
    c'.dkgState ≠ .collectingR1 := by
  rcases h.dkgState with e | e
  · rw [e]; exact hd
  · rw [e]; exact nofun

theorem SgOnly.framed (h : SgOnly c c') : Framed c c' := by
  obtain ⟨_, rfl⟩ := h
  exact ⟨rfl, rfl, rfl, rfl, .inl rfl, fun _ h => h⟩

theorem blacklistSigner_framed (c : Coord) (id : Nat) : Framed c (blacklistSigner c id) := by
  unfold blacklistSigner
  split
  · exact ⟨rfl, rfl, rfl, rfl, .inl rfl, fun _ h => h⟩
  · refine ⟨rfl, rfl, rfl, rfl, .inl rfl, fun i h => ?_⟩
    simp only [isBlacklisted, decide_eq_true_eq] at h ⊢
    exact List.mem_append_left _ h

theorem Link.framed (h : Link S c c') : Framed c c' := by
  have heq {d : Coord} (hb : d.blacklist = c.blacklist) (i : Nat) (hi : isBlacklisted c i = true) :
      isBlacklisted d i = true := by
    unfold isBlacklisted at hi ⊢
    rw [hb]; exact hi
  cases h with
  | idle h => exact ⟨h.mode, h.n, h.t, h.signers, h.dkgState, heq h.blacklist⟩
  | close _ _ => exact ⟨rfl, rfl, rfl, rfl, .inl rfl, heq rfl⟩
  | black _ => exact (blacklistSigner_framed c _).trans (setPhase_sgOnly ..).framed
  | strike _ =>
    unfold addStrike
    split <;> exact ⟨rfl, rfl, rfl, rfl, .inl rfl, heq rfl⟩
  | request _ _ _ => exact (requestCommit_sgOnly ..).framed
  | form _ _ =>
    have h1 : ∀ k spkg now, Framed c (fillSlot c k (chooseSigners c) spkg now) := fun _ _ _ =>
      ⟨rfl, rfl, rfl, rfl, .inl rfl, heq rfl⟩
    exact (h1 _ _ _).trans (openSession_sgOnly ..).framed
  | restart h _ =>
    have h1 : Framed c _ := ⟨h.mode, h.n, h.t, h.signers, .inl h.dkgState, heq h.blacklist⟩
    exact h1.trans (broadcastSignReq_sgOnly _).framed

theorem Chain.framed (h : Chain S c c') : Framed c c' :=
  h.invariant (I := Framed c) (fun _ _ hl hi => hi.trans hl.framed)
    ⟨rfl, rfl, rfl, rfl, .inl rfl, fun _ h => h⟩

/-- **Every link, seen from one registered signer.** -/
theorem Link.record (h : Link S c c') (hd : c.signers.Nodup) (hi : i ∈ c.signers) :
    RecLink S i c c' := by
  cases h with
  | idle h => exact .idle (h.sg i) h.tbs
  | close _ _ => exact .idle (.refl _) rfl
  | @black id hB =>
    obtain ⟨_, _, _, e⟩ := (blacklistSigner_recOnly c id).trans
      (setPhase_sgOnly _ id .blacklisted).recOnly
    have htbs : (setPhase (blacklistSigner c id) id .blacklisted).tbs = c.tbs := by rw [e]
    by_cases hid : i = id
    · subst hid
      refine .black hB ?_ htbs
      rw [blacklist_sg, if_pos ⟨rfl, hi⟩]
    · refine .idle ?_ htbs
      rw [blacklist_sg, if_neg fun h => hid h.1]
      exact .refl _
  | strike _ =>
    refine .idle ?_ ?_
    · rw [addStrike_sg]; exact .refl _
    · obtain ⟨_, _, _, e⟩ := addStrike_recOnly c _
      rw [e]
  | @request p id hp hid hQ =>
    obtain ⟨_, e⟩ := requestCommit_sgOnly c p id
    by_cases hne : i = id
    · subst hne
      refine .request hp ?_ ?_
      · rw [e]; exact hQ
      · rw [requestCommit_self, e]
    · refine .idle ?_ ?_
      · rw [requestCommit_of_ne hne]; exact .refl _
      · rw [e]
  | @form env k spkg wire _ hf =>
    have htbs : (openSession c k (chooseSigners c) spkg wire env.now).tbs = c.tbs := by
      obtain ⟨_, e⟩ := openSession_sgOnly c k (chooseSigners c) spkg wire env.now
      rw [e]; rfl
    by_cases hin : i ∈ chooseSigners c
    · refine .assign hf hin ?_ htbs
      rw [openSession_sg (chooseSigners_nodup c hd), if_pos hin]
    · refine .idle ?_ htbs
      rw [openSession_sg (chooseSigners_nodup c hd), if_neg hin]
      exact .refl _
  | @restart d h hQ =>
    obtain ⟨_, e⟩ := broadcastSignReq_sgOnly d
    have hsg := broadcastSignReq_sg (c := d) (h.signers ▸ hd) i
    have hbl : isBlacklisted d i = isBlacklisted c i := by unfold isBlacklisted; rw [h.blacklist]
    rw [h.signers, hbl, h.sg] at hsg
    split at hsg
    · refine .request (.inl rfl) ?_ ?_
      · rw [e]; exact hQ i hi
      · rw [hsg, e]
    · next hno =>
      refine .skipped ?_ hsg
      by_cases hb : isBlacklisted c i = true
      · exact .inl hb
      · exact .inr (by_contra fun hk => hno ⟨hi, by simpa using hb, hk⟩)

/-! ## What a link does to the open sessions -/

/-- No open session has the member `id`. -/
def Free (sessions : Fin maxSessions → RoastSession) (id : Nat) : Prop :=
  ∀ k, (sessions k).state = .awaitingShares → id ∉ (sessions k).signerIds

theorem fillSlot_self (c : Coord) (k : Fin maxSessions) (chosen : List Nat) (spkg : Bytes)
    (now : Nat) : (fillSlot c k chosen spkg now).sessions k = newSession c chosen spkg now := by
  show Function.update c.sessions k _ k = _
  rw [Function.update_self]

theorem fillSlot_of_ne {k j : Fin maxSessions} (h : j ≠ k) (chosen : List Nat) (spkg : Bytes)
    (now : Nat) : (fillSlot c k chosen spkg now).sessions j = c.sessions j := by
  show Function.update c.sessions k _ j = _
  rw [Function.update_of_ne h]

/-- The sessions of `openSession`. -/
theorem openSession_sessions (c : Coord) (k : Fin maxSessions) (chosen : List Nat)
    (spkg wire : Bytes) (now : Nat) :
    (openSession c k chosen spkg wire now).sessions k = newSession c chosen spkg now ∧
      ∀ j, j ≠ k → (openSession c k chosen spkg wire now).sessions j = c.sessions j := by
  obtain ⟨_, e⟩ := openSession_sgOnly c k chosen spkg wire now
  rw [e]
  exact ⟨fillSlot_self .., fun j hj => fillSlot_of_ne hj ..⟩

/-- The open sessions are among those there were. -/
def NoneOpened (c c' : Coord) : Prop :=
  ∀ k, (c'.sessions k).state = .awaitingShares → c'.sessions k = c.sessions k

theorem NoneOpened.free (h : NoneOpened c c') {id : Nat} (hf : Free c.sessions id) :
    Free c'.sessions id := by
  intro k hk
  have e := h k hk
  rw [e] at hk ⊢
  exact hf k hk

theorem closeSession_noneOpened (c : Coord) (k : Fin maxSessions) (st : RSessState)
    (h : st ≠ .awaitingShares) : NoneOpened c (c.closeSession k st) := by
  intro j hj
  by_cases e : j = k
  · subst e
    unfold Coord.closeSession at hj
    rw [Coord.setSession_self] at hj
    exact absurd hj h
  · exact Coord.setSession_of_ne e _

/-- **A link opens no session, or forms one.** -/
theorem Link.opened (hl : Link S c c') : NoneOpened c c' ∨ ∃ env k spkg wire, S.env env ∧
    Forms c env k spkg wire ∧ c' = openSession c k (chooseSigners c) spkg wire env.now := by
  have hsame (e : c'.sessions = c.sessions) : NoneOpened c c' := fun k _ => congrFun e k
  cases hl with
  | idle hi => exact .inl (hsame hi.sessions)
  | close _ hst =>
    refine .inl (closeSession_noneOpened c _ _ ?_)
    rcases hst with rfl | rfl <;> exact nofun
  | black _ => exact .inl (hsame (blacklist_sessions c _).1)
  | strike _ => exact .inl (hsame (addStrike_sessions c _).1)
  | request _ _ _ => exact .inl (hsame (requestCommit_sessions c _ _).1)
  | @form env k spkg wire he hf => exact .inr ⟨env, k, spkg, wire, he, hf, rfl⟩
  | @restart d hr _ =>
    left
    obtain ⟨_, e⟩ := broadcastSignReq_sgOnly d
    intro k hk
    rw [e] at hk ⊢
    rcases hr.sessions with e' | e'
    · exact congrFun e' k
    · rw [e'] at hk
      cases hk

/-! ## A new signer -/

/-- The first two frames of a new signer. -/
theorem promote_sg (hm : c.mode = .sign) (i : Nat) : (promote c i).sg i = { SignerRec.new with
    msgq := [⟨.helloAck, [], ackText i c.mode⟩, ⟨.signReq, [], c.tbs⟩] } := by
  unfold promote welcome Coord.signerSend
  rw [show ((enroll c i).setSg i _).mode = .sign from hm]
  dsimp only
  rw [Coord.setSg_self, Coord.setSg_self]
  simp [enroll, SignerRec.new, Coord.setSg]

theorem promote_sg_of_ne {j : Nat} (hm : c.mode = .sign) (hne : j ≠ i) :
    (promote c i).sg j = c.sg j := by
  unfold promote welcome Coord.signerSend
  rw [show ((enroll c i).setSg i _).mode = .sign from hm]
  dsimp only
  rw [Coord.setSg_of_ne hne, Coord.setSg_of_ne hne]
  exact Function.update_of_ne hne ..

theorem promote_shape (hm : c.mode = .sign) (i : Nat) :
    ∃ sg, promote c i = { c with signers := i :: c.signers, sg := sg } := by
  unfold promote welcome Coord.signerSend
  rw [show ((enroll c i).setSg i _).mode = .sign from hm]
  exact ⟨_, rfl⟩

/-! ## The start -/

/-- What `main` has before the first connection. -/
structure Unused (c : Coord) : Prop where
  signers : c.signers = []
  sg : c.sg = fun _ => SignerRec.new
  dkgState : c.dkgState = .idle
  blacklist : c.blacklist = []
  strikes : c.strikes = fun _ => 0
  sessions : c.sessions = fun _ => RoastSession.zero
  nextSessionId : c.nextSessionId = 1
  signingDone : c.signingDone = false
  exited : c.exited = false

theorem Started.unused (h : Started c) : Unused c := by
  cases h with
  | dkg => exact ⟨rfl, rfl, rfl, rfl, rfl, rfl, rfl, rfl, rfl⟩
  | refresh => exact ⟨rfl, rfl, rfl, rfl, rfl, rfl, rfl, rfl, rfl⟩
  | sign n t serial secs toMint file env hn ht _ _ _ hp =>
    have hfst :
        (prepareTbs (Coord.boot .sign n t serial secs toMint file (some file)) env).1 = c := by
      rw [hp]
    obtain ⟨d, tbs, hex, e | e⟩ :=
        prepareTbs_cases (Coord.boot .sign n t serial secs toMint file (some file)) env <;>
      · rw [← hfst, e]
        exact ⟨rfl, rfl, rfl, rfl, rfl, rfl, rfl, rfl, rfl⟩

end FrostSshCa.Coordinator
