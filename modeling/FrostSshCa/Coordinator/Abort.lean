import FrostSshCa.Coordinator.Eligible

/-!
# The abort decision

Signing is possible as long as `g_t` of the ids `1..g_n` are eligible. Of the
steps that can take eligible ids away only the handling of a named culprit looks
at what is left, and it counts connected signers. So the decision is right as
long as the other paths leave enough ids and the culprit path finds them
connected.
-/

namespace FrostSshCa.Coordinator

open Lib

/-- The types other than `SIGN_REQ`. -/
def NotReq (type : MsgType) : Prop := type ≠ .signReq

/-! ## The conditions -/

/-- The members of a session. -/
def members (c : Coord) (k : Fin maxSessions) (id : Nat) : Bool :=
  decide (id ∈ (c.sessions k).signerIds)

/-- What is left when the fallback blacklists session `k`. -/
def afterFallback (c : Coord) (k : Fin maxSessions) : Finset Nat :=
  eligibleBut c (members c k) (members c k)

/-- What is left when `culprit` is blacklisted and the rest of session `k` reset. -/
def afterCulprit (c : Coord) (k : Fin maxSessions) (culprit : Nat) : Finset Nat :=
  eligibleBut c (fun id => decide (id = culprit))
    (fun id => decide (id = culprit ∨ id ∈ (c.sessions k).signerIds))

/-- What is left when session `k` expires. -/
def afterExpiry (c : Coord) (k : Fin maxSessions) : Finset Nat :=
  eligibleBut c (struckIn c k (c.sessions k).signerIds.zipIdx) (members c k)

/-- The fallback leaves enough ids; with too few to begin with it finds nobody
to send a request to. -/
structure FallbackOk (c : Coord) (k : Fin maxSessions) : Prop where
  enough : c.t ≤ (eligible c).card → c.t ≤ (afterFallback c k).card
  silent : (eligible c).card < c.t → ∀ id ∈ afterFallback c k, id ∉ c.signers

/-- If too few of the ids left are connected, too few are left. With too few before or
after, the session has nobody else to send a request to. -/
structure CulpritOk (c : Coord) (k : Fin maxSessions) (culprit : Nat) : Prop where
  connected : ((afterCulprit c k culprit).filter (· ∈ c.signers)).card < c.t →
    (afterCulprit c k culprit).card < c.t
  silent : (eligible c).card < c.t ∨ (afterCulprit c k culprit).card < c.t →
    ∀ id ∈ (c.sessions k).signerIds, id = culprit ∨ id ∉ c.signers

/-- The expiry of session `k` leaves enough ids; with too few to begin with it
strikes out every member that is connected. -/
structure ExpiryOk (c : Coord) (k : Fin maxSessions) : Prop where
  enough : c.t ≤ (eligible c).card → c.t ≤ (afterExpiry c k).card
  silent : (eligible c).card < c.t → ∀ p ∈ (c.sessions k).signerIds.zipIdx, p.1 ∈ c.signers →
    struckOut c k p.2 p.1 = true

/-- The condition on a failed aggregation. -/
def FailureOk (c : Coord) (k : Fin maxSessions) : AggregateResult → Prop
  | .notRun => True
  | .sig bytes => bytes.length ≠ 64 → FallbackOk c k
  | .culprit id => if 0 < id ∧ id ≤ maxSigners then CulpritOk c k id else FallbackOk c k
  | .failed => FallbackOk c k

/-- The condition on one slot of the scan. -/
def SlotOk (now : Nat) (c : Coord) (k : Fin maxSessions) : Prop :=
  (c.sessions k).state = .awaitingShares → (c.sessions k).deadline ≤ now → ExpiryOk c k

/-- No fallback, expiry or load failure takes the eligible ids below `g_t`, a
culprit is decided upon with enough of them connected and not with too few and others to
ask, and once there are too few no registration, fallback, culprit or expiry asks for
commitments. -/
def AbortOk (c : Coord) : Event → Prop
  | .hello env payload => (eligible c).card < c.t → ∀ id, (onHello c env payload).2 ≠ .ok id
  | .expire now env => c.signingDone = false →
      Along (fun c k => expireSlot c now (env k) k) (SlotOk now) c (List.finRange maxSessions)
  | .frame i f env =>
      (i ∈ c.signers → f.type = .shareLoadFail → c.t ≤ (eligible c).card →
        c.t ≤ ((eligible c).erase i).card) ∧
      ∀ k stdin, aggregateCall c (.frame i f env) = some (k, stdin) →
        FailureOk c k (env.aggregate stdin)
  | _ => True

/-! ## The invariant -/

def SessIds (c : Coord) : Prop :=
  ∀ k, (c.sessions k).state = .awaitingShares → IdList (c.sessions k).signerIds

structure AbortInv (c : Coord) : Prop where
  mode : c.mode = .sign
  le : c.t ≤ c.n
  ids : IdList c.signers
  range : ∀ id ∈ c.signers, id ≤ c.n
  /-- Nobody registers when `--n` is too large. -/
  room : c.n ≤ maxSigners ∨ c.signers = [] ∧ ∀ k, (c.sessions k).state ≠ .awaitingShares
  fresh : c.n = 0 → c.blacklist = [] ∧ ∀ k, (c.sessions k).state ≠ .awaitingShares
  black : IdList c.blacklist
  sess : SessIds c
  decided : (eligible c).card < c.t → c.roastFail = true

/-- Some signer has registered. -/
def Live (c : Coord) : Prop := c.n ≠ 0 ∧ c.n ≤ maxSigners

/-- Frames may have been written from the front of a queue, and frames of the types in
`T` put behind the rest. -/
def Feeds (T : MsgType → Prop) (c c' : Coord) : Prop :=
  ∀ j, ∃ (n : Nat) (fs : List Frame), (c'.sg j).msgq = (c.sg j).msgq.drop n ++ fs ∧
    ∀ f ∈ fs, T f.type

/-- No serial is taken and no request queued. -/
def Stops (c c' : Coord) : Prop := c'.serial = c.serial ∧ Feeds NotReq c c'

/-- What is asked of a step. -/
structure Decides (c c' : Coord) : Prop where
  inv : AbortInv c'
  stops : (eligible c).card < c.t ∨ (eligible c').card < c'.t → Stops c c'
  only : c.roastFail = false → c'.roastFail = true → (eligible c').card < c'.t

variable {c c' : Coord}

theorem Feeds.refl {T : MsgType → Prop} (c : Coord) : Feeds T c c :=
  fun j => ⟨0, [], by simp, nofun⟩

theorem Feeds.trans {T : MsgType → Prop} {c'' : Coord} (h : Feeds T c c') (h' : Feeds T c' c'') :
    Feeds T c c'' := by
  intro j
  obtain ⟨n, fs, e, ht⟩ := h j
  obtain ⟨n', fs', e', ht'⟩ := h' j
  refine ⟨n + n', fs.drop (n' - ((c.sg j).msgq.drop n).length) ++ fs', ?_, fun f hf => ?_⟩
  · rw [e', e, List.drop_append, List.drop_drop, List.append_assoc]
  · rcases List.mem_append.mp hf with hf | hf
    · exact ht f (List.mem_of_mem_drop hf)
    · exact ht' f hf

theorem Appends.feeds {T : MsgType → Prop} (h : Appends T c c') : Feeds T c c' := fun j =>
  have ⟨fs, e, ht⟩ := h j
  ⟨0, fs, e, ht⟩

theorem Stops.refl (c : Coord) : Stops c c := ⟨rfl, .refl c⟩

theorem Stops.trans {c'' : Coord} (h : Stops c c') (h' : Stops c' c'') : Stops c c'' :=
  ⟨h'.1.trans h.1, h.2.trans h'.2⟩

theorem SessIds.congr (h : SessIds c) (hs : c'.sessions = c.sessions) : SessIds c' := by
  unfold SessIds
  rw [hs]
  exact h

theorem SessIds.setSession (h : SessIds c) {k : Fin maxSessions} {f : RoastSession → RoastSession}
    (hk : (f (c.sessions k)).state = .awaitingShares → IdList (f (c.sessions k)).signerIds) :
    SessIds (c.setSession k f) := by
  intro j hj
  by_cases e : j = k
  · subst e
    rw [Coord.setSession_self] at hj ⊢
    exact hk hj
  · rw [Coord.setSession_of_ne e] at hj ⊢
    exact h j hj

theorem SessIds.recOnly (h : SessIds c) (hr : RecOnly c c') : SessIds c' := by
  obtain ⟨_, _, _, rfl⟩ := hr; exact h.congr rfl

theorem SessIds.closeSession (h : SessIds c) (k : Fin maxSessions) {p : RSessState}
    (hp : p ≠ .awaitingShares) : SessIds (c.closeSession k p) :=
  h.setSession fun hk => absurd hk hp

theorem tryForm_sessIds (h : SessIds c) (hs : IdList c.signers) (env : Env) :
    SessIds (tryForm c env) := by
  rcases tryForm_cases c env with e | ⟨k, spkg, wire, -, e⟩
  · rw [e]; exact h
  rw [e]
  have h1 : SessIds (c.setSession k fun _ => newSession c (chooseSigners c) spkg env.now) :=
    h.setSession fun _ => ⟨chooseSigners_nodup c hs.distinct, fun id hid =>
      hs.range id (mem_chooseSigners c hid).1⟩
  have h2 : SessIds (fillSlot c k (chooseSigners c) spkg env.now) := h1.congr rfl
  exact h2.recOnly (openSession_sgOnly ..).recOnly

theorem Moves.card_eq (h : Moves (fun _ => false) (fun _ => false) c c') (hn : c.n ≤ maxSigners) :
    eligible c' = eligible c := by
  rw [h.eligible_eq hn]
  ext id
  simp [mem_eligible, mem_eligibleBut]

/-- The invariant after a step that moves eligible ids. -/
theorem AbortInv.moves {out back : Nat → Bool} (h : AbortInv c) (hn : Live c)
    (hm : Moves out back c c') (hmode : c'.mode = c.mode) (hb : IdList c'.blacklist)
    (hs : SessIds c') (hd : (eligibleBut c out back).card < c.t → c'.roastFail = true) :
    AbortInv c' := by
  refine ⟨hmode.trans h.mode, ?_, ?_, ?_, ?_, fun h0 => absurd (hm.n ▸ h0) hn.1, hb, hs, ?_⟩
  · rw [hm.t, hm.n]; exact h.le
  · rw [hm.signers]; exact h.ids
  · rw [hm.signers, hm.n]; exact h.range
  · rw [hm.n]; exact .inl hn.2
  · rw [hm.eligible_eq hn.2, hm.t]; exact hd

/-- The invariant after a step that moves none. -/
theorem AbortInv.still (h : AbortInv c) (hn : Live c)
    (hm : Moves (fun _ => false) (fun _ => false) c c') (hmode : c'.mode = c.mode)
    (hb : IdList c'.blacklist) (hs : SessIds c') (hf : c'.roastFail = c.roastFail) :
    AbortInv c' := by
  refine h.moves hn hm hmode hb hs fun hlt => ?_
  rw [hf]
  refine h.decided ?_
  rwa [← hm.eligible_eq hn.2, hm.card_eq hn.2] at hlt

/-! ## Sending nothing -/

theorem blacklistSigner_appends (T : MsgType → Prop) (id : Nat) :
    Appends T c (blacklistSigner c id) := by
  unfold blacklistSigner
  split
  · exact .refl c
  · exact .of_sg_eq rfl

theorem setPhase_appends (T : MsgType → Prop) (id : Nat) (p : SPhase) :
    Appends T c (setPhase c id p) := by
  unfold setPhase
  split
  · exact .setSg_keep rfl
  · exact .refl c

theorem fileShare_appends (T : MsgType → Prop) (k : Fin maxSessions) (slot i : Nat)
    (share : Bytes) : Appends T c (fileShare c k slot i share) := by
  have h : Appends T c (c.setSession k fun s =>
    { s with shares := Function.update s.shares slot share, nShares := s.nShares + 1 }) :=
    .of_sg_eq rfl
  exact h.trans (.setSg_keep rfl)

theorem blacklistMembers_appends (T : MsgType → Prop) (k : Fin maxSessions) :
    Appends T c (blacklistMembers c k) := by
  have h : Appends T c (c.closeSession k .failed) := .of_sg_eq rfl
  exact h.trans (.foldl (fun _ id _ => (blacklistSigner_appends T id).trans
    (setPhase_appends T id _))
    _)

/-- With nobody eligible connected, `broadcast_sign_req` does nothing. -/
theorem broadcastSignReq_eq (h : ∀ id ∈ c.signers, id ∈ c.blacklist ∨ Keyless c id) :
    broadcastSignReq c = c := by
  unfold broadcastSignReq
  refine foldl_invariant (I := fun d => d = c) (fun d id hid hd => ?_) rfl
  rw [hd, if_pos]
  rcases h id hid with h | h
  · simp [isBlacklisted, h]
  · simp [h.2]

theorem broadcastSignReq_moves :
    Moves (fun _ => false) (fun _ => false) c (broadcastSignReq c) := by
  unfold broadcastSignReq
  refine foldl_invariant (I := fun d => Moves (fun _ => false) (fun _ => false) c d)
    (fun d id _ hd => ?_) (.refl c)
  split
  · exact hd
  · next hc =>
    have hk : ¬ Keyless d id := fun hk => hc (by simp [hk.2])
    have hr : Moves (fun _ => false) (fun _ => false) d (requestCommit d .init id) :=
      (requestCommit_moves (p := .init) nofun id).back_none fun j hj => by
        rw [of_decide_eq_true hj]; exact hk
    exact (hd.trans hr).congr (fun _ => rfl) fun _ => rfl

theorem expireAll_appends (k : Fin maxSessions) : ∀ {l : List (Nat × Nat)} {c : Coord},
    IdList (l.map Prod.fst) →
    (∀ p ∈ l, p.1 ∈ c.signers → struckOut c k p.2 p.1 = true) →
    Appends NotReq c (l.foldl (fun c p => expireMember c k p.2 p.1) c)
  | [], c, _, _ => .refl c
  | p :: l, c, hl, h => by
    obtain ⟨h1, h2⟩ := hl.range p.1 (by simp)
    obtain ⟨hnot, hnd⟩ := List.nodup_cons.mp hl.distinct
    have hp : Appends NotReq c (expireMember c k p.2 p.1) := by
      unfold expireMember
      split
      · next hid =>
        have hs := h p (List.mem_cons_self ..) hid
        simp only [struckOut, Bool.and_eq_true, decide_eq_true_eq] at hs
        rw [if_neg (by omega)]
        dsimp only
        rw [if_pos (by rw [getStrikes_addStrike h1 h2, if_pos rfl]; exact hs.2)]
        have ha : Appends NotReq c (addStrike c p.1) := by
          unfold addStrike
          split
          · exact .of_sg_eq rfl
          · exact .refl c
        exact (ha.trans (blacklistSigner_appends _ _)).trans (setPhase_appends _ _ _)
      · exact .refl c
    refine hp.trans (expireAll_appends k ⟨hnd, fun x hx => hl.range x (List.mem_cons_of_mem _ hx)⟩
      fun q hq hid => ?_)
    have hne : q.1 ≠ p.1 := fun e => hnot (e ▸ List.mem_map_of_mem hq)
    rw [struckOut_expireMember k p.2 q.2 h1 h2 hne]
    refine h q (List.mem_cons_of_mem _ hq) ?_
    obtain ⟨_, _, _, e⟩ := expireMember_recOnly c k p.2 p.1
    rw [e] at hid
    exact hid

/-! ## A filed share -/

theorem fileShare_moves (k : Fin maxSessions) (slot i : Nat) (share : Bytes) :
    Moves (fun _ => false) (fun j => decide (j = i)) c (fileShare c k slot i share) := by
  have h : Moves (fun _ => false) (fun _ => false) c (c.setSession k fun s =>
      { s with shares := Function.update s.shares slot share, nShares := s.nShares + 1 }) :=
    ⟨rfl, rfl, rfl, fun _ _ _ => by simp [Coord.setSession], fun _ => by
      simp [Keyless, Coord.setSession]⟩
  have hkey : SPhase.shared ≠ .noKey := by decide
  exact (h.trans (setSg_moves_back (g := fun r => { r with signPhase := .shared }) hkey)).congr
    (by simp) (by simp)

theorem fileShare_members (k : Fin maxSessions) (slot i : Nat) (share : Bytes) :
    ((fileShare c k slot i share).sessions k).signerIds = (c.sessions k).signerIds := by
  rw [fileShare_session]

theorem fileShare_sessIds (h : SessIds c) (k : Fin maxSessions) (slot i : Nat) (share : Bytes) :
    SessIds (fileShare c k slot i share) := by
  have h1 : SessIds (c.setSession k fun s =>
      { s with shares := Function.update s.shares slot share, nShares := s.nShares + 1 }) :=
    h.setSession fun hk => h k hk
  exact h1.recOnly (setSg_sgOnly ..).recOnly

/-- The sender is a member, so that forgiving it again forgives nobody else. -/
theorem Moves.after_share {out back : Nat → Bool} {k : Fin maxSessions} {slot i : Nat}
    {share : Bytes} (h : Moves out back (fileShare c k slot i share) c') (hi : back i = true) :
    Moves out back c c' := by
  refine ((fileShare_moves k slot i share).trans h).congr (by simp) fun j => ?_
  by_cases e : j = i
  · subst e; simp [hi]
  · simp [e]

theorem fallback_decides (h : AbortInv c) (hn : Live c) {i : Nat} {f : Frame}
    {k : Fin maxSessions} {slot : Nat} (ht : ShareTarget c i f k slot) (hok : FallbackOk c k) :
    Decides c (blacklistSession (fileShare c k slot i f.payload) k) := by
  have hids := h.sess k ht.open'
  have hmem : i ∈ (c.sessions k).signerIds := List.mem_of_getElem? ht.slot
  obtain ⟨hb, hm⟩ := blacklistMembers_moves (c := fileShare c k slot i f.payload) h.black k
    (by rw [fileShare_members]; exact hids.range)
  rw [fileShare_members] at hm
  have hm := hm.after_share (by simpa using hmem)
  have hrec := blacklistMembers_recOnly (fileShare c k slot i f.payload) k
  have hsess : SessIds (blacklistMembers (fileShare c k slot i f.payload) k) :=
    ((fileShare_sessIds h.sess k slot i f.payload).closeSession k (p := .failed) nofun).recOnly hrec
  have hpush : Appends NotReq c (blacklistMembers (fileShare c k slot i f.payload) k) :=
    (fileShare_appends NotReq k slot i f.payload).trans (blacklistMembers_appends NotReq k)
  obtain ⟨sg, bl, st, e⟩ := hrec
  have hmode : (blacklistMembers (fileShare c k slot i f.payload) k).mode = c.mode := by rw [e]; rfl
  have hfail : (blacklistMembers (fileShare c k slot i f.payload) k).roastFail = c.roastFail := by
    rw [e]; rfl
  have hserial : (blacklistMembers (fileShare c k slot i f.payload) k).serial = c.serial := by
    rw [e]; rfl
  clear e
  unfold blacklistSession
  dsimp only
  generalize blacklistMembers (fileShare c k slot i f.payload) k = b at *
  -- the success flag is not looked at
  have hset : ∃ d, (if roastDoNoEligibleRemain b then { b with signingDone := true } else b) =
      { b with signingDone := d } := by
    split
    · exact ⟨true, rfl⟩
    · exact ⟨b.signingDone, rfl⟩
  obtain ⟨d, hset⟩ := hset
  rw [hset]
  have hm' : Moves (members c k) (members c k) c { b with signingDone := d } :=
    hm.congrSg rfl rfl rfl rfl rfl
  have hfinal : Moves (members c k) (members c k)
      c (broadcastSignReq { b with signingDone := d }) :=
    (hm'.trans broadcastSignReq_moves).congr (by simp) (by simp)
  obtain ⟨sg', e'⟩ := broadcastSignReq_sgOnly { b with signingDone := d }
  refine ⟨h.moves hn hfinal (by rw [e']; exact hmode) (by rw [e']; exact hb)
    (SessIds.congr hsess (by rw [e'])) fun hlt => ?_, fun hlt => ?_, fun h1 h2 => ?_⟩
  · rw [e']
    refine hfail.trans (h.decided ?_)
    by_contra hge
    have := hok.enough (by omega)
    exact absurd hlt (by show ¬ (afterFallback c k).card < c.t; omega)
  · have hlow : (eligible c).card < c.t := by
      refine hlt.elim id fun hafter => ?_
      rw [hfinal.eligible_eq hn.2, hfinal.t] at hafter
      by_contra hge
      have := hok.enough (by omega)
      exact absurd hafter (by show ¬ (afterFallback c k).card < c.t; omega)
    refine ⟨by rw [e']; exact hserial, ?_⟩
    have hnone : ∀ id ∈ c.signers, id ∈ b.blacklist ∨ Keyless b id := fun id hid => by
      by_contra hcon
      rw [not_or] at hcon
      have hin : id ∈ eligible b := mem_eligible.mpr
        ⟨⟨(h.ids.range id hid).1, by rw [hm.n]; exact h.range id hid⟩, hcon⟩
      rw [hm.eligible_eq hn.2] at hin
      exact hok.silent hlow id hin hid
    rw [broadcastSignReq_eq (c := { b with signingDone := d }) (fun id hid => by
      refine hnone id ?_
      rw [← hm.signers]
      exact hid)]
    exact (hpush.trans (.of_sg_eq rfl)).feeds
  · rw [e'] at h2
    have : c.roastFail = true := hfail.symm.trans h2
    rw [h1] at this
    cases this

/-! ## A named culprit -/

theorem culpritReset_appends {k : Fin maxSessions} {culprit : Nat}
    (h : ∀ id ∈ (c.sessions k).signerIds, id = culprit ∨ id ∉ c.signers) :
    Appends NotReq c (culpritReset c k culprit) := by
  have h1 : Appends NotReq c (c.closeSession k .failed) := .of_sg_eq rfl
  have h2 := (h1.trans (blacklistSigner_appends NotReq culprit)).trans
    (setPhase_appends NotReq culprit .blacklisted)
  have hs : (setPhase (blacklistSigner (c.closeSession k .failed) culprit) culprit
      .blacklisted).signers = c.signers := by
    obtain ⟨_, _, _, e⟩ := (blacklistSigner_recOnly (c.closeSession k .failed) culprit).trans
      (setPhase_sgOnly _ culprit .blacklisted).recOnly
    rw [e]; rfl
  unfold culpritReset
  generalize setPhase (blacklistSigner (c.closeSession k .failed) culprit) culprit
    .blacklisted = d at h2 hs
  refine foldl_invariant (I := fun e => Appends NotReq c e ∧ e.signers = c.signers)
    (fun e id hid he => ?_) ⟨h2, hs⟩ |>.1
  have hnot : ¬ (id ≠ culprit ∧ id ∈ e.signers) := by
    rw [he.2]
    rcases h id hid with h | h
    · exact fun hc => hc.1 h
    · exact fun hc => h hc.2
  rw [if_neg hnot]
  exact he

/-- What forming a session leaves alone. -/
theorem tryForm_rest (c : Coord) (env : Env) : (tryForm c env).mode = c.mode ∧
    (tryForm c env).serial = c.serial ∧ (tryForm c env).roastFail = c.roastFail ∧
    (tryForm c env).blacklist = c.blacklist := by
  rcases tryForm_cases c env with e | ⟨k, spkg, wire, -, e⟩
  · rw [e]; exact ⟨rfl, rfl, rfl, rfl⟩
  · obtain ⟨_, e'⟩ := openSession_sgOnly c k (chooseSigners c) spkg wire env.now
    rw [e, e']
    exact ⟨rfl, rfl, rfl, rfl⟩

theorem culprit_decides (h : AbortInv c) (hn : Live c) (env : Env) {i : Nat} {f : Frame}
    {k : Fin maxSessions} {slot culprit : Nat} (ht : ShareTarget c i f k slot) (h1 : 0 < culprit)
    (h2 : culprit ≤ maxSigners) (hok : CulpritOk c k culprit) :
    Decides c (roastFailCulprit (fileShare c k slot i f.payload) env k culprit) := by
  have hmem : i ∈ (c.sessions k).signerIds := List.mem_of_getElem? ht.slot
  obtain ⟨hb, hm⟩ := culpritReset_moves (c := fileShare c k slot i f.payload) h.black k h1 h2
  rw [fileShare_members] at hm
  have hm := hm.after_share (by simpa using .inr hmem)
  have hrec := culpritReset_recOnly (fileShare c k slot i f.payload) k culprit
  have hsess : SessIds (culpritReset (fileShare c k slot i f.payload) k culprit) :=
    ((fileShare_sessIds h.sess k slot i f.payload).closeSession k (p := .failed) nofun).recOnly hrec
  have hpush : (eligible c).card < c.t ∨ (afterCulprit c k culprit).card < c.t →
      Appends NotReq c (culpritReset (fileShare c k slot i f.payload) k culprit) := fun hlt =>
    (fileShare_appends NotReq k slot i f.payload).trans (culpritReset_appends (by
      rw [fileShare_members]; exact hok.silent hlt))
  obtain ⟨sg, bl, st, e⟩ := hrec
  have hmode : (culpritReset (fileShare c k slot i f.payload) k culprit).mode = c.mode := by
    rw [e]; rfl
  have hserial : (culpritReset (fileShare c k slot i f.payload) k culprit).serial = c.serial := by
    rw [e]; rfl
  clear e
  unfold roastFailCulprit
  generalize culpritReset (fileShare c k slot i f.payload) k culprit = b at *
  have hmr : Moves (fun id => decide (id = culprit))
      (fun id => decide (id = culprit ∨ id ∈ (c.sessions k).signerIds)) c (tryForm b env) :=
    (hm.trans (tryForm_moves env)).congr (by simp) (by simp)
  have hidsb : IdList b.signers := by rw [hm.signers]; exact h.ids
  have hsr := tryForm_sessIds hsess hidsb env
  have hpr : Appends NotReq b (tryForm b env) := (tryForm_appends b nofun env)
  obtain ⟨hmode', hserial', -, hbr⟩ := tryForm_rest b env
  have hcount : remainingSigners (tryForm b env) =
      ((afterCulprit c k culprit).filter (· ∈ c.signers)).card := by
    rw [remainingSigners_eq (by rw [hmr.signers]; exact h.ids.distinct) (fun id hid => by
      rw [hmr.signers] at hid
      rw [hmr.n]
      exact ⟨(h.ids.range id hid).1, h.range id hid⟩), hmr.eligible_eq hn.2, hmr.signers]
    rfl
  have hnt := hmr.t
  generalize tryForm b env = r at *
  have hfinal : Moves (fun id => decide (id = culprit))
      (fun id => decide (id = culprit ∨ id ∈ (c.sessions k).signerIds)) c
      { r with roastFail := roastDoNoEligibleRemain r } := hmr.congrSg rfl rfl rfl rfl rfl
  have hdo : roastDoNoEligibleRemain r = true ↔
      ((afterCulprit c k culprit).filter (· ∈ c.signers)).card < c.t := by
    unfold roastDoNoEligibleRemain
    rw [decide_eq_true_eq, hcount, hnt]
  refine ⟨h.moves hn hfinal (hmode'.trans hmode) (by exact hbr ▸ hb) (hsr.congr rfl) fun hlt => ?_,
    fun hlt => ⟨hserial'.trans hserial, ?_⟩, fun _ h4 => ?_⟩
  rotate_left
  · rw [hfinal.eligible_eq hn.2, hfinal.t] at hlt
    exact (((hpush hlt).trans hpr).trans (.of_sg_eq rfl)).feeds
  · rw [hfinal.eligible_eq hn.2, hfinal.t]
    exact hok.connected (hdo.mp h4)
  · refine hdo.mpr (lt_of_le_of_lt ?_ hlt)
    exact Finset.card_le_card (Finset.filter_subset _ _)

/-! ## The other frames -/

theorem Decides.of_still (h : AbortInv c) (hn : Live c)
    (hm : Moves (fun _ => false) (fun _ => false) c c') (hmode : c'.mode = c.mode)
    (hb : c'.blacklist = c.blacklist) (hs : SessIds c') (hf : c'.roastFail = c.roastFail)
    (hserial : c'.serial = c.serial) (hp : Appends NotReq c c') : Decides c c' := by
  refine ⟨h.still hn hm hmode (by rw [hb]; exact h.black) hs hf, fun _ => ⟨hserial, hp.feeds⟩,
    fun h1 h2 => ?_⟩
  rw [hf, h1] at h2
  cases h2

theorem Decides.refl (h : AbortInv c) : Decides c c :=
  ⟨h, fun _ => .refl c, fun h1 h2 => by rw [h1] at h2; cases h2⟩

/-- The share of a member is filed and nothing else happens. -/
theorem fileShare_decides (h : AbortInv c) (hn : Live c) {i : Nat} {f : Frame}
    {k : Fin maxSessions} {slot : Nat} :
    Decides c (fileShare c k slot i f.payload) := by
  refine ⟨h.moves hn (fileShare_moves k slot i f.payload) rfl h.black
    (fileShare_sessIds h.sess k slot i f.payload) fun hlt => ?_,
    fun _ => ⟨rfl, (fileShare_appends NotReq k slot i f.payload).feeds⟩, fun h1 h2 => ?_⟩
  · refine h.decided (lt_of_le_of_lt (Finset.card_le_card fun id hid => ?_) hlt)
    obtain ⟨hr, hb, hk⟩ := mem_eligible.mp hid
    exact mem_eligibleBut.mpr ⟨hr, hb, rfl, fun h => hk h.1⟩
  · have : c.roastFail = true := h2
    rw [h1] at this
    cases this

theorem aggregateOk_decides (h : AbortInv c) (hn : Live c) (env : Env) {i : Nat}
    {f : Frame} {k : Fin maxSessions} {slot : Nat} (sig64 : Bytes) :
    Decides c (aggregateOk (fileShare c k slot i f.payload) env k sig64) := by
  have hnd : Live (fileShare c k slot i f.payload) := hn
  have hd : Decides c (fileShare c k slot i f.payload) := fileShare_decides h hn
  generalize fileShare c k slot i f.payload = d at hd hnd
  have hfin : Moves (fun _ => false) (fun _ => false) d (finishSession d k) :=
    (closeSession_moves d k .complete).congrSg rfl rfl rfl rfl rfl
  have hs : SessIds (finishSession d k) :=
    (hd.inv.sess.closeSession k (p := .complete) nofun).congr rfl
  -- a completed session, and perhaps a certificate
  have hall : ∃ e, aggregateOk d env k sig64 = e ∧
      Moves (fun _ => false) (fun _ => false) d e ∧ SessIds e ∧ Appends NotReq d e ∧
      e.mode = d.mode ∧ e.blacklist = d.blacklist ∧ e.roastFail = d.roastFail ∧
      e.serial = d.serial := by
    unfold aggregateOk callMint
    cases env.mint _ with
    | none => exact ⟨_, rfl, hfin, hs, .of_sg_eq rfl, rfl, rfl, rfl, rfl⟩
    | some cert =>
      have hc : Moves (fun _ => false) (fun _ => false) d (countCert (finishSession d k) cert) :=
        hfin.congrSg rfl rfl rfl rfl rfl
      have hb : Moves (fun _ => false) (fun _ => false) (countCert (finishSession d k) cert)
          ((countCert (finishSession d k) cert).broadcast .certOutput []) :=
        foldl_invariant (I := fun e => Moves (fun _ => false) (fun _ => false)
          (countCert (finishSession d k) cert) e) (fun e i _ he =>
            (he.trans (signerSend_moves i .certOutput [] [])).congr (fun _ => rfl) fun _ => rfl)
          (.refl _)
      have hp : Appends NotReq d (countCert (finishSession d k) cert) := .of_sg_eq rfl
      have hs' : SessIds (countCert (finishSession d k) cert) := hs.congr rfl
      have hr := broadcast_sgOnly (countCert (finishSession d k) cert) .certOutput []
      refine ⟨_, rfl, (hc.trans hb).congr (fun _ => rfl) fun _ => rfl, hs'.recOnly hr.recOnly,
        hp.trans (broadcast_appends nofun []), ?_⟩
      obtain ⟨_, e⟩ := hr
      refine ⟨?_, ?_, ?_, ?_⟩ <;> · dsimp only [Option.map_some]; rw [e]; rfl
  obtain ⟨e, he, hm, hse, hp, hmode, hb, hf, hser⟩ := hall
  rw [he]
  exact ⟨hd.inv.still hnd hm hmode (by rw [hb]; exact hd.inv.black) hse hf,
    fun hlt => (hd.stops (hlt.imp_right fun h => by rwa [hm.card_eq hnd.2, hm.t] at h)).trans
      ⟨hser, hp.feeds⟩, fun h1 h2 => by
      rw [hf] at h2
      rw [hm.card_eq hnd.2, hm.t]
      exact hd.only h1 h2⟩

/-! ## A scan -/

theorem expireMembers_appends {k : Fin maxSessions} (hs : IdList (c.sessions k).signerIds)
    (h : ∀ p ∈ (c.sessions k).signerIds.zipIdx, p.1 ∈ c.signers → struckOut c k p.2 p.1 = true) :
    Appends NotReq c (expireMembers c k) := by
  have h1 : Appends NotReq c (c.closeSession k .failed) := .of_sg_eq rfl
  refine h1.trans (expireAll_appends k (by simpa using hs) fun p hp hid => ?_)
  rw [struckOut_closeSession]
  exact h p hp hid

/-- A slot of the scan; it leaves too few eligible ids exactly where there were too few. -/
theorem expireSlot_decides (h : AbortInv c) {now : Nat} (env : Env) {k : Fin maxSessions}
    (hok : SlotOk now c k) : Decides c (expireSlot c now env k) ∧
      ((eligible c).card < c.t ↔ (eligible (expireSlot c now env k)).card <
        (expireSlot c now env k).t) := by
  unfold expireSlot
  split; · exact ⟨.refl h, Iff.rfl⟩
  next hst =>
  split; · exact ⟨.refl h, Iff.rfl⟩
  next hdl =>
  have hst : (c.sessions k).state = .awaitingShares := by simpa using hst
  have hok := hok hst (by omega)
  have hn : Live c := by
    refine ⟨fun h0 => (h.fresh h0).2 k hst, ?_⟩
    rcases h.room with h | ⟨-, hk⟩
    · exact h
    · exact absurd hst (hk k)
  have hids := h.sess k hst
  obtain ⟨hb, hm⟩ := expireMembers_moves h.black k hids
  have hrec := expireMembers_recOnly c k
  have hsess : SessIds (expireMembers c k) :=
    (h.sess.closeSession k (p := .failed) nofun).recOnly hrec
  have hpush : (eligible c).card < c.t → Appends NotReq c (expireMembers c k) := fun hlt =>
    expireMembers_appends hids (hok.silent hlt)
  obtain ⟨_, _, _, e⟩ := hrec
  have hmode : (expireMembers c k).mode = c.mode := by rw [e]; rfl
  have hserial : (expireMembers c k).serial = c.serial := by rw [e]; rfl
  have hfail : (expireMembers c k).roastFail = c.roastFail := by rw [e]; rfl
  clear e
  have hmr : Moves (struckIn c k (c.sessions k).signerIds.zipIdx) (members c k) c
      (tryForm (expireMembers c k) env) :=
    (hm.trans (tryForm_moves env)).congr (by simp) (by simp [members])
  have hsr := tryForm_sessIds hsess (by rw [hm.signers]; exact h.ids) env
  have hpr : Appends NotReq (expireMembers c k) (tryForm (expireMembers c k) env) :=
    (tryForm_appends _ nofun env)
  obtain ⟨hmode', hserial', hfail', hbl'⟩ := tryForm_rest (expireMembers c k) env
  have hlow : (eligible c).card < c.t → (afterExpiry c k).card < c.t := fun hlt => by
    refine lt_of_le_of_lt (Finset.card_le_card fun id hid => ?_) hlt
    obtain ⟨hr, hnb, hout, hk⟩ := mem_eligibleBut.mp hid
    refine mem_eligible.mpr ⟨hr, hnb, fun hkey => ?_⟩
    -- a key-less member would have been struck out
    by_cases hmem : members c k id = true
    · have hmem' : id ∈ (c.sessions k).signerIds := of_decide_eq_true hmem
      obtain ⟨j, hj⟩ := List.mem_iff_getElem?.mp hmem'
      have hp : (id, j) ∈ (c.sessions k).signerIds.zipIdx := by
        rw [List.mem_zipIdx_iff_getElem?]
        exact hj
      have hstr := hok.silent hlt (id, j) hp hkey.1
      have : struckIn c k (c.sessions k).signerIds.zipIdx id = true := by
        unfold struckIn
        rw [List.any_eq_true]
        exact ⟨(id, j), hp, by simpa using hstr⟩
      rw [this] at hout
      cases hout
    · exact hk ⟨hkey, by simpa using hmem⟩
  have hback : (afterExpiry c k).card < c.t → (eligible c).card < c.t := fun hlt => by
    by_contra hge
    have := hok.enough (by omega)
    omega
  have hiff : (eligible c).card < c.t ↔
      (eligible (tryForm (expireMembers c k) env)).card < (tryForm (expireMembers c k) env).t := by
    rw [hmr.eligible_eq hn.2, hmr.t]
    exact ⟨hlow, hback⟩
  refine ⟨⟨h.moves hn hmr (hmode'.trans hmode) (by rw [hbl']; exact hb) hsr fun hlt => ?_,
    fun hlt => ⟨hserial'.trans hserial, ((hpush (hlt.elim id hiff.mpr)).trans hpr).feeds⟩,
    fun h1 h2 => ?_⟩, hiff⟩
  · rw [hfail', hfail]
    exact h.decided (hback hlt)
  · rw [hfail', hfail, h1] at h2
    cases h2

theorem expireSlot_roastFail (c : Coord) (now : Nat) (env : Env) (k : Fin maxSessions) :
    (expireSlot c now env k).roastFail = c.roastFail := by
  unfold expireSlot
  split; · rfl
  split; · rfl
  have h1 : (expireMembers c k).roastFail = c.roastFail := by
    obtain ⟨_, _, _, e⟩ := expireMembers_recOnly c k
    rw [e]; rfl
  exact (tryForm_rest (expireMembers c k) env).2.2.1.trans h1

theorem scan_decides {now : Nat} (env : Fin maxSessions → Env) :
    ∀ {l : List (Fin maxSessions)} {c : Coord}, AbortInv c →
      Along (fun c k => expireSlot c now (env k) k) (SlotOk now) c l →
      Decides c (l.foldl (fun c k => expireSlot c now (env k) k) c) ∧
      ((eligible c).card < c.t ↔
        (eligible (l.foldl (fun c k => expireSlot c now (env k) k) c)).card <
          (l.foldl (fun c k => expireSlot c now (env k) k) c).t)
  | [], _, h, _ => ⟨.refl h, Iff.rfl⟩
  | k :: l, c, h, hl => by
    obtain ⟨hd, hslot⟩ := expireSlot_decides h (env k) hl.1
    obtain ⟨ih, hrest⟩ := scan_decides env hd.inv hl.2
    refine ⟨⟨ih.inv, fun hlt => ?_, fun h1 h2 => ?_⟩, hslot.trans hrest⟩
    · have hlow : (eligible c).card < c.t := hlt.elim id (hslot.trans hrest).mpr
      exact (hd.stops (.inl hlow)).trans (ih.stops (.inl (hslot.mp hlow)))
    · by_cases hf : (expireSlot c now (env k) k).roastFail = true
      · -- expiry never sets the flag
        exfalso
        have : (expireSlot c now (env k) k).roastFail = c.roastFail := expireSlot_roastFail ..
        rw [this, h1] at hf
        cases hf
      · exact ih.only (by simpa using hf) h2

/-! ## Steps -/

theorem eligible_congr (hn : c'.n = c.n) (hb : c'.blacklist = c.blacklist)
    (hk : ∀ id, Keyless c' id ↔ Keyless c id) : eligible c' = eligible c := by
  ext id
  rw [mem_eligible, mem_eligible, hn, hb, hk]

/-- The invariant after a step that changes neither the ids nor their marks. -/
theorem AbortInv.congr (h : AbortInv c) (hmode : c'.mode = c.mode) (hn : c'.n = c.n)
    (ht : c'.t = c.t) (hsi : c'.signers = c.signers) (hb : c'.blacklist = c.blacklist)
    (hf : c'.roastFail = c.roastFail) (hk : ∀ id, Keyless c' id ↔ Keyless c id)
    (hs : SessIds c') (hq : ∀ k, (c'.sessions k).state = .awaitingShares →
      (c.sessions k).state = .awaitingShares) : AbortInv c' := by
  refine ⟨hmode.trans h.mode, ?_, ?_, ?_, ?_, fun h0 => ⟨?_, fun k hst => ?_⟩, ?_, hs, ?_⟩
  · rw [ht, hn]; exact h.le
  · rw [hsi]; exact h.ids
  · rw [hsi, hn]; exact h.range
  · rw [hn, hsi]
    rcases h.room with h | ⟨h1, h2⟩
    · exact .inl h
    · exact .inr ⟨h1, fun k hst => h2 k (hq k hst)⟩
  · rw [hb]; exact (h.fresh (hn ▸ h0)).1
  · exact (h.fresh (hn ▸ h0)).2 k (hq k hst)
  · rw [hb]; exact h.black
  · rw [eligible_congr hn hb hk, ht, hf]; exact h.decided

theorem SameSign.keyless (h : SameSign c c') (hs : c'.signers = c.signers) (id : Nat) :
    Keyless c' id ↔ Keyless c id := by
  have hp : (c'.sg id).signPhase = (c.sg id).signPhase :=
    congrArg (fun v => v.2.2.1) (h.view id)
  unfold Keyless
  rw [hs, hp]

/-- A frame of the two ceremonies touches neither the ids nor their marks. -/
theorem ceremony_decides (h : AbortInv c) (env : Env) (i : Nat) (f : Frame)
    (hs : MsgType.signing f.type = false) : Decides c (processSignerFrame c env i f) := by
  have hsame := processSignerFrame_sameSign (c := c) env i f hs
  have hpush : Appends NotReq c (processSignerFrame c env i f) := by
    have hround : ∀ type ∈ roundTypes, NotReq type := fun type ht => by
      unfold NotReq
      rintro rfl
      exact absurd ht (by decide)
    by_cases hr : MsgType.reports f.type = false
    · exact (processSignerFrame_round_appends hround env i f hs hr)
    unfold processSignerFrame
    cases e : f.type with
    | refreshComplete => exact (onRefreshComplete_appends nofun env i f)
    | pubKeyPkg => exact (onPubKeyPkg_appends env i f)
    | _ => rw [e] at hr; exact absurd rfl hr
  have hc := processSignerFrame_ceremonyOnly c env i f hs
  generalize processSignerFrame c env i f = d at *
  obtain ⟨_, _, _, _, _, _, rfl⟩ := hc
  refine ⟨h.congr rfl rfl rfl rfl rfl rfl (hsame.keyless rfl) h.sess fun _ hk => hk,
    fun _ => ⟨rfl, hpush.feeds⟩, fun h1 h2 => ?_⟩
  have : c.roastFail = true := h2
  rw [h1] at this
  cases this

theorem commit_decides (h : AbortInv c) (hn : Live c) (env : Env) (i : Nat) (f : Frame) :
    Decides c (onCommit c env i f) := by
  unfold onCommit
  split; · exact .refl h
  split; · exact .refl h
  next hph =>
  split; · exact .refl h
  split; · exact .refl h
  have hm : Moves (fun _ => false) (fun _ => false) c (c.setSg i fun r =>
      { r with commit := f.payload, commitSig := f.sig, signPhase := .committed }) := by
    refine Moves.back_none (setSg_moves_back (g := fun r =>
      { r with commit := f.payload, commitSig := f.sig, signPhase := .committed }) nofun)
      fun id hid hk => hph ?_
    obtain rfl := of_decide_eq_true hid
    rw [hk.2]
    decide
  have hp : Appends NotReq c (c.setSg i fun r =>
      { r with commit := f.payload, commitSig := f.sig, signPhase := .committed }) :=
        .setSg_keep rfl
  have hs := h.sess.recOnly (setSg_sgOnly c i fun r =>
    { r with commit := f.payload, commitSig := f.sig, signPhase := .committed }).recOnly
  obtain ⟨sg, e⟩ := setSg_sgOnly c i fun r =>
    { r with commit := f.payload, commitSig := f.sig, signPhase := .committed }
  generalize c.setSg i _ = d at *
  subst e
  have hr := tryForm_rest { c with sg := sg } env
  exact .of_still h hn ((hm.trans (tryForm_moves env)).congr (by simp) (by simp)) hr.1 hr.2.2.2
    (tryForm_sessIds hs h.ids env) hr.2.2.1 hr.2.1 (hp.trans (tryForm_appends _ nofun env))

/-- What a `SIG_SHARE` does, by whether it starts `aggregate`. -/
theorem step_sigShare_cases {i : Nat} {f : Frame} {env : Env} (hx : c.exited = false)
    (hi : i ∈ c.signers) (hty : f.type = .sigShare) :
    step c (.frame i f env) = c ∨ ∃ k slot, ShareTarget c i f k slot ∧
      (step c (.frame i f env) = fileShare c k slot i f.payload ∨
        ∃ stdin, aggregateCall c (.frame i f env) = some (k, stdin) ∧
          step c (.frame i f env) =
            onAggregate (fileShare c k slot i f.payload) env k (env.aggregate stdin)) := by
  have hstep : step c (.frame i f env) = onSigShare c env i f := by
    simp only [step, hx, hi, processSignerFrame, hty, if_true, Bool.false_eq_true, if_false]
  rw [hstep]
  unfold onSigShare aggregateCall
  dsimp only
  rw [if_neg (by simp [hx, hi, hty])]
  cases ht : shareTarget c i f with
  | none => exact .inl rfl
  | some p =>
    obtain ⟨k, slot⟩ := p
    refine .inr ⟨k, slot, shareTarget_some c ht, ?_⟩
    dsimp only
    by_cases hge : ((fileShare c k slot i f.payload).sessions k).nShares ≥
        (fileShare c k slot i f.payload).t
    · rw [if_pos hge, if_pos hge]
      unfold roastTryAggregate
      cases hst : aggregateStdin (fileShare c k slot i f.payload) k with
      | none => exact .inl rfl
      | some stdin => exact .inr ⟨stdin, rfl, rfl⟩
    · rw [if_neg hge]
      exact .inl rfl

theorem frame_decides (h : AbortInv c) {i : Nat} {f : Frame} {env : Env} (hx : c.exited = false)
    (hi : i ∈ c.signers) (hok : AbortOk c (.frame i f env)) :
    Decides c (step c (.frame i f env)) := by
  have hn : Live c := by
    refine ⟨fun h0 => ?_, ?_⟩
    · have := h.range i hi
      have := (h.ids.range i hi).1
      omega
    · rcases h.room with h | ⟨hs, -⟩
      · exact h
      · rw [hs] at hi; cases hi
  have hstep : step c (.frame i f env) = processSignerFrame c env i f :=
    step_frame_of_mem hx hi f env
  by_cases hs : MsgType.signing f.type = false
  · rw [hstep]; exact ceremony_decides h env i f hs
  cases e : f.type with
  | commit =>
    rw [hstep]
    unfold processSignerFrame
    rw [e]
    exact commit_decides h hn env i f
  | shareLoadFail =>
    rw [hstep]
    unfold processSignerFrame
    rw [e]
    have hke : eligible (onShareLoadFail c i) = (eligible c).erase i := by
      ext id
      rw [Finset.mem_erase, mem_eligible, mem_eligible]
      show (_ ∧ id ∉ c.blacklist ∧ ¬ Keyless (c.setSg i _) id) ↔ _
      rw [keyless_setSg]
      by_cases ei : id = i
      · subst ei; simp [hi]
      · simp [ei, Keyless, onShareLoadFail, Coord.setSg]
    have hok := hok.1 hi e
    refine ⟨⟨h.mode, h.le, h.ids, h.range, h.room, h.fresh, h.black,
      h.sess.recOnly (setSg_sgOnly ..).recOnly, fun hlt => ?_⟩,
      fun _ => ⟨rfl, (Appends.setSg_keep rfl).feeds⟩, fun h1 h2 => ?_⟩
    · refine h.decided ?_
      by_contra hge
      have := hok (by omega)
      rw [← hke] at this
      exact absurd hlt (by show ¬ (eligible (onShareLoadFail c i)).card < c.t; omega)
    · have : c.roastFail = true := h2
      rw [h1] at this
      cases this
  | sigShare =>
    rcases step_sigShare_cases hx hi e with he | ⟨k, slot, ht, he | ⟨stdin, hcall, he⟩⟩
    · rw [he]; exact .refl h
    · rw [he]; exact fileShare_decides h hn
    · rw [he]
      have hok := hok.2 k stdin hcall
      cases hr : env.aggregate stdin with
      | notRun => exact fileShare_decides h hn
      | sig bytes =>
        rw [hr] at hok
        dsimp only [onAggregate]
        split
        · next hl => exact fallback_decides h hn ht (hok hl)
        · exact aggregateOk_decides h hn env bytes
      | culprit id =>
        rw [hr] at hok
        dsimp only [onAggregate, FailureOk] at hok ⊢
        split
        · next hl =>
          rw [if_pos hl] at hok
          exact culprit_decides h hn env ht hl.1 hl.2 hok
        · next hl =>
          rw [if_neg hl] at hok
          exact fallback_decides h hn ht hok
      | failed =>
        rw [hr] at hok
        exact fallback_decides h hn ht hok
  | _ => rw [e] at hs; exact absurd rfl hs

theorem exitIfQuiet_decides (h : AbortInv c) : Decides c (exitIfQuiet c) := by
  unfold exitIfQuiet
  split
  · refine ⟨h.congr rfl rfl rfl rfl rfl rfl (fun _ => Iff.rfl) h.sess fun _ hk => hk,
      fun _ => ⟨rfl, (Appends.of_sg_eq rfl).feeds⟩, fun h1 h2 => ?_⟩
    have : c.roastFail = true := h2
    rw [h1] at this
    cases this
  · exact .refl h

/-- A restart takes no id away. -/
theorem nextMint_eligible (c : Coord) (env : TbsEnv) :
    eligible (nextMint c env) = eligible c ∧ (nextMint c env).t = c.t := by
  have hb := broadcastSignReq_moves (c := resume (prepareTbs (advanceSerial c) env).1)
  obtain ⟨sg, e⟩ := broadcastSignReq_sgOnly (resume (prepareTbs (advanceSerial c) env).1)
  unfold nextMint
  rw [e] at hb ⊢
  obtain ⟨d, tbs, hex, e' | e'⟩ := prepareTbs_cases (advanceSerial c) env <;>
  · rw [e'] at hb ⊢
    exact ⟨eligible_congr rfl rfl fun id =>
      (hb.keyless id).trans (by simp [Keyless, resume, advanceSerial]), rfl⟩

/-- The next certificate is begun only where the decision was not to abort. -/
theorem loopHead_decides (h : AbortInv c) (env : TbsEnv) : Decides c (loopHead c env) := by
  unfold loopHead
  split
  · exact exitIfQuiet_decides h
  next hf =>
  split
  · split
    · have hge : ¬ (eligible c).card < c.t := fun hlt => hf (h.decided hlt)
      have hlow : (eligible (nextMint c env)).card < (nextMint c env).t →
          (eligible c).card < c.t := by
        rw [(nextMint_eligible c env).1, (nextMint_eligible c env).2]
        exact id
      have hb := broadcastSignReq_moves (c := resume (prepareTbs (advanceSerial c) env).1)
      obtain ⟨sg, e⟩ := broadcastSignReq_sgOnly (resume (prepareTbs (advanceSerial c) env).1)
      unfold nextMint at hlow ⊢
      rw [e] at hb hlow ⊢
      obtain ⟨d, tbs, hex, e' | e'⟩ := prepareTbs_cases (advanceSerial c) env <;>
      · rw [e'] at hb hlow ⊢
        refine ⟨h.congr rfl rfl rfl rfl rfl rfl (fun id => ?_) ?_ ?_,
          fun hlt => absurd (hlt.elim id hlow) hge, fun h1 h2 => ?_⟩
        · exact (hb.keyless id).trans (by simp [Keyless, resume, advanceSerial])
        · first
            | exact h.sess
            | (intro k hk; cases hk)
        · first
            | exact fun _ hk => hk
            | (intro k hk; cases hk)
        · have : c.roastFail = true := h2
          rw [h1] at this
          cases this
    · exact exitIfQuiet_decides h
  split
  · exact exitIfQuiet_decides h
  · exact .refl h

/-- A registration changes nobody's mark; the first well-formed `HELLO` fixes
`g_n` and `g_t`. -/
theorem hello_decides (h : AbortInv c) {env : HelloEnv} {payload : Bytes}
    (hok : AbortOk c (.hello env payload)) : Decides c (onHello c env payload).1 := by
  rcases onHello_cases c env payload with e | ⟨pid, pn, pt, hp, hnt, e⟩
  · rw [e]; exact .refl h
  obtain ⟨h1, h2, h3, h4, h5, h6⟩ := parseHello_some hp
  have hset : AbortInv { c with n := pn, t := pt } ∧
      ((eligible { c with n := pn, t := pt }).card < pt → (eligible c).card < c.t) := by
    rcases hnt with h0 | ⟨rfl, rfl⟩
    · obtain ⟨hb, hk⟩ := h.fresh h0
      have hs : c.signers = [] := by
        refine List.eq_nil_iff_forall_not_mem.mpr fun id hid => ?_
        have := h.range id hid
        have := (h.ids.range id hid).1
        omega
      have he : eligible { c with n := pn, t := pt } = Finset.Icc 1 pn := by
        ext id
        rw [mem_eligible, Finset.mem_Icc]
        simp [hb, Keyless, hs]
      have hfull : ¬ (eligible { c with n := pn, t := pt }).card < pt := by
        rw [he, Nat.card_Icc]
        omega
      refine ⟨⟨h.mode, h6, h.ids, fun id hid => ?_, .inl h4, fun h0 => ?_, h.black, h.sess,
        fun hlt => absurd hlt hfull⟩, fun hlt => absurd hlt hfull⟩
      · rw [hs] at hid; cases hid
      · have : pn = 0 := h0
        omega
    · exact ⟨h, id⟩
  obtain ⟨hset, hlow⟩ := hset
  rcases e with e | ⟨hnew, e, hid⟩
  · rw [e]
    refine ⟨hset, fun _ => ⟨rfl, (Appends.of_sg_eq rfl).feeds⟩, fun hf hf' => ?_⟩
    have : c.roastFail = true := hf'
    rw [hf] at this
    cases this
  · have hge : ¬ (eligible c).card < c.t := fun hlt => hok hlt pid hid
    rw [e]
    have hw : ∃ sg, promote { c with n := pn, t := pt } pid =
        { c with n := pn, t := pt, signers := pid :: c.signers, sg := sg } ∧
        ∀ j, (sg j).signPhase = if j = pid then .init else (c.sg j).signPhase := by
      have hs1 := signerSend_sameSign (c := enroll { c with n := pn, t := pt } pid) pid .helloAck []
        (ackText pid c.mode)
      have hs2 := signerSend_sameSign (c := (enroll { c with n := pn, t := pt } pid).signerSend pid
        .helloAck [] (ackText pid c.mode)) pid .signReq [] c.tbs
      have hpro : promote { c with n := pn, t := pt } pid =
          ((enroll { c with n := pn, t := pt } pid).signerSend pid .helloAck []
            (ackText pid c.mode)).signerSend pid .signReq [] c.tbs := by
        unfold promote welcome
        split
        · next hm => cases h.mode.symm.trans hm
        · next hm => cases h.mode.symm.trans hm
        · rfl
      refine ⟨_, hpro, fun j => ?_⟩
      have hv := congrArg (fun v : Bytes × Bytes × SPhase × Nat => v.2.2.1)
        ((hs1.trans hs2).view j)
      refine hv.trans ?_
      show ((enroll { c with n := pn, t := pt } pid).sg j).signPhase = _
      unfold enroll
      dsimp only
      rw [Function.update_apply]
      split
      · rfl
      · rfl
    obtain ⟨sg, hpr, hph⟩ := hw
    rw [hpr]
    have hk : ∀ id, Keyless { c with n := pn, t := pt, signers := pid :: c.signers, sg := sg } id ↔
        Keyless c id := fun id => by
      unfold Keyless
      dsimp only
      rw [hph]
      by_cases ei : id = pid
      · subst ei; simp [hnew]
      · simp [ei]
    have he : eligible { c with n := pn, t := pt, signers := pid :: c.signers, sg := sg } =
        eligible { c with n := pn, t := pt } := eligible_congr rfl rfl hk
    refine ⟨⟨h.mode, hset.le, ⟨List.nodup_cons.mpr ⟨hnew, h.ids.distinct⟩, fun id hid => ?_⟩,
      fun id hid => ?_, .inl h4, fun h0 => ?_, h.black, h.sess, fun hlt => ?_⟩,
      fun hlt => absurd (hlt.elim id fun hlt => hlow (by rwa [he] at hlt)) hge, fun hf hf' => ?_⟩
    · rcases List.mem_cons.mp hid with rfl | hid
      · exact ⟨h1, h2.trans h4⟩
      · exact h.ids.range id hid
    · rcases List.mem_cons.mp hid with rfl | hid
      · exact h2
      · exact hset.range id hid
    · have : pn = 0 := h0
      omega
    · rw [he] at hlt
      exact hset.decided hlt
    · have : c.roastFail = true := hf'
      rw [hf] at this
      cases this

theorem drainSignerWrite_feeds {T : MsgType → Prop} (i : Nat) :
    Feeds T c (drainSignerWrite c i) := by
  intro j
  by_cases e : j = i
  · subst e
    exact ⟨1, [], by simp [drainSignerWrite], nofun⟩
  · exact ⟨0, [], by simp [drainSignerWrite, Coord.setSg_of_ne e], nofun⟩

theorem step_decides (h : AbortInv c) {e : Event} (hok : AbortOk c e) : Decides c (step c e) := by
  by_cases hx : c.exited = true
  · have : step c e = c := by unfold step; rw [if_pos hx]
    rw [this]; exact .refl h
  have hx : c.exited = false := by simpa using hx
  cases e with
  | loopHead env =>
    have : step c (.loopHead env) = loopHead c env := by simp [step, hx]
    rw [this]; exact loopHead_decides h env
  | expire now env =>
    by_cases hd : c.signingDone = false
    · have : step c (.expire now env) = roastExpireSessions c now env := by
        simp [step, hx, hd, h.mode]
      rw [this]
      exact (scan_decides env h (hok hd)).1
    · have : step c (.expire now env) = c := by simp [step, hx, hd]
      rw [this]; exact .refl h
  | hello env payload =>
    have : step c (.hello env payload) = (onHello c env payload).1 := by simp [step, hx]
    rw [this]; exact hello_decides h hok
  | drain i =>
    by_cases hi : i ∈ c.signers
    · have : step c (.drain i) = drainSignerWrite c i := by simp [step, hx, hi]
      rw [this]
      have hm : Moves (fun _ => false) (fun _ => false) c (drainSignerWrite c i) :=
        setSg_moves_none Iff.rfl
      refine ⟨h.congr rfl rfl rfl rfl rfl rfl (fun id => ?_) h.sess fun _ hk => hk,
        fun _ => ⟨rfl, drainSignerWrite_feeds i⟩, fun h1 h2 => ?_⟩
      · exact (hm.keyless id).trans (by simp)
      · have : c.roastFail = true := h2
        rw [h1] at this
        cases this
    · have : step c (.drain i) = c := by simp [step, hx, hi]
      rw [this]; exact .refl h
  | disconnect i =>
    by_cases hi : i ∈ c.signers
    · have : step c (.disconnect i) = removeSigner c i := by simp [step, hx, hi]
      rw [this]
      have hmem (id : Nat) : id ∈ (removeSigner c i).signers → id ∈ c.signers := fun hid =>
        (List.mem_filter.mp hid).1
      have hsub : eligible c ⊆ eligible (removeSigner c i) := fun id hid => by
        obtain ⟨hr, hb, hk⟩ := mem_eligible.mp hid
        exact mem_eligible.mpr ⟨hr, hb, fun hk' => hk ⟨hmem id hk'.1, hk'.2⟩⟩
      refine ⟨⟨h.mode, h.le, ⟨h.ids.distinct.filter _, fun id hid => h.ids.range id (hmem id hid)⟩,
        fun id hid => h.range id (hmem id hid), ?_, h.fresh, h.black, h.sess, fun hlt => ?_⟩,
        fun _ => ⟨rfl, (Appends.of_sg_eq rfl).feeds⟩, fun h1 h2 => ?_⟩
      · rcases h.room with hn | ⟨hs, hk⟩
        · exact .inl hn
        · rw [hs] at hi; cases hi
      · exact h.decided (lt_of_le_of_lt (Finset.card_le_card hsub) hlt)
      · have : c.roastFail = true := h2
        rw [h1] at this
        cases this
    · have : step c (.disconnect i) = c := by simp [step, hx, hi]
      rw [this]; exact .refl h
  | frame i f env =>
    by_cases hi : i ∈ c.signers
    · exact frame_decides h hx hi hok
    · have : step c (.frame i f env) = c := by simp [step, hx, hi]
      rw [this]; exact .refl h

theorem started_abortInv (h : Started c) (hm : c.mode = .sign) (ht : c.t ≤ c.n) : AbortInv c := by
  cases h with
  | dkg => cases hm
  | refresh => cases hm
  | sign n t serial secs toMint file env _ _ _ _ _ hp =>
    obtain ⟨d, tbs, hex, e | e⟩ :=
      prepareTbs_cases (Coord.boot .sign n t serial secs toMint file (some file)) env <;>
    · rw [hp] at e
      obtain rfl : c = _ := e
      have hids : IdList [] := ⟨List.nodup_nil, List.forall_mem_nil _⟩
      have hzero (k : Fin maxSessions) : (RoastSession.zero).state ≠ .awaitingShares := by decide
      refine ⟨rfl, ht, hids, List.forall_mem_nil _, .inr ⟨rfl, hzero⟩, fun _ => ⟨rfl, hzero⟩, hids,
        fun k hk => absurd hk (hzero k), fun hlt => ?_⟩
      have he : eligible (Coord.boot .sign n t serial secs toMint file (some file)) =
          Finset.Icc 1 n := by
        ext id
        rw [mem_eligible, Finset.mem_Icc]
        simp [Coord.boot, Keyless]
      have hcard :
          (eligible (Coord.boot .sign n t serial secs toMint file (some file))).card < t := hlt
      rw [he, Nat.card_Icc] at hcard
      have : t ≤ n := ht
      omega

/-- **The abort decision.** Along every run of sign mode that starts with
`g_t ≤ g_n` and meets the condition: with too few eligible ids after a step
`g_roast_fail` is set, and the step queues no `SIGN_REQ` and advances no serial;
with too few before a step it does neither as well; and `g_roast_fail` is set only
with too few. -/
theorem abort_exact {c₀ : Coord} (h0 : Started c₀) (hm : c₀.mode = .sign) (ht : c₀.t ≤ c₀.n)
    {es : List Event} {e : Event} (hes : Along step AbortOk c₀ (es ++ [e])) :
    let c := run step c₀ es
    let c' := step c e
    ((eligible c').card < c'.t → c'.roastFail = true ∧ Stops c c') ∧
      ((eligible c).card < c.t → Stops c c') ∧
      (c.roastFail = false → c'.roastFail = true → (eligible c').card < c'.t) := by
  obtain ⟨hes, hlast⟩ := (along_concat _ es e).mp hes
  have hinv : AbortInv (run step c₀ es) :=
    Along.invariant (I := AbortInv) (fun _ _ h hok => (step_decides h hok).inv)
      (started_abortInv h0 hm ht) hes
  have hd := step_decides hinv hlast
  exact ⟨fun hlt => ⟨hd.inv.decided hlt, hd.stops (.inr hlt)⟩, fun hlt => hd.stops (.inl hlt),
    hd.only⟩

/-! ## Runs -/

/-- `aggregate` names this signer. -/
def culpritEnv (id : Nat) : Env := { quietEnv with aggregate := fun _ => .culprit id }

def lastShare (culprit : Nat) : Event :=
  .frame 2 ⟨.sigShare, List.replicate frameSigSize 0, [8]⟩ (culpritEnv culprit)

/-- An unknown failure leaves nobody eligible: the success flag is set, not
`g_roast_fail`, and the next certificate is begun. With signer 3 yet to connect,
a named culprit among the first two aborts although two ids are left. And with one of
two ids left after a culprit the other is asked for a commitment once more. -/
theorem abort_decision_wrong :
    let c := run step (signStart 2 2 1)
      (openingRun ++ [sends 1 .sigShare [9], sends 2 .sigShare [8]])
    let d := run step (signStart 3 2 1) ([joins 1 3 2, joins 2 3 2, sends 1 .commit [1],
      sends 2 .commit [2], sends 1 .sigShare [9]] ++ [lastShare 1])
    let b := run step (signStart 2 2 1) (openingRun ++ [sends 1 .sigShare [9]])
    let b' := step b (lastShare 1)
    (Started (signStart 2 2 1) ∧ (eligible c).card < c.t ∧ c.roastFail = false ∧
      c.signingDone = true ∧ (step c (.loopHead sampleTbs)).serial ≠ c.serial) ∧
    (Started (signStart 3 2 1) ∧ d.roastFail = true ∧ ¬ (eligible d).card < d.t) ∧
    (eligible b').card < b'.t ∧ (b'.sg 2).msgq = (b.sg 2).msgq ++ [⟨.signReq, [], b.tbs⟩] :=
  ⟨⟨signStart_started (by decide) (by decide) (by decide), by decide +kernel⟩,
    ⟨signStart_started (by decide) (by decide) (by decide), by decide +kernel⟩, by decide +kernel⟩

/-- Of two signers one has gone and the other is the culprit: the coordinator gives up. -/
theorem abort_exact_run :
    let c := run step (signStart 2 2 1)
      (openingRun ++ [sends 1 .sigShare [9], .disconnect 1])
    (eligible c).card = 2 ∧ (step c (lastShare 2)).roastFail = true ∧
      Stops c (step c (lastShare 2)) := by
  have hquiet {c : Coord} {i : Nat} {type : MsgType} {p : Bytes} (ht : type ≠ .shareLoadFail)
      (hc : (aggregateCall c (sends i type p)).isNone = true) : AbortOk c (sends i type p) := by
    refine ⟨fun _ h => absurd h ht, fun k stdin h => ?_⟩
    have h' : aggregateCall c (sends i type p) = some (k, stdin) := h
    rw [h'] at hc
    cases hc
  have hrun : Along step AbortOk (signStart 2 2 1)
      (openingRun ++ [sends 1 .sigShare [9], .disconnect 1]) :=
    ⟨fun hlt => absurd hlt (by decide +kernel), fun hlt => absurd hlt (by decide +kernel),
      hquiet nofun (by decide +kernel), hquiet nofun (by decide +kernel),
      hquiet nofun (by decide +kernel), trivial, trivial⟩
  have hlast : AbortOk (run step (signStart 2 2 1)
      (openingRun ++ [sends 1 .sigShare [9], .disconnect 1])) (lastShare 2) := by
    refine ⟨fun _ h => absurd h nofun, fun k stdin h => ?_⟩
    have hk : (aggregateCall (run step (signStart 2 2 1) (openingRun ++
        [sends 1 .sigShare [9], .disconnect 1])) (lastShare 2)).map Prod.fst =
        some firstSlot := by decide +kernel
    rw [show aggregateCall _ (lastShare 2) = some (k, stdin) from h] at hk
    obtain rfl : k = firstSlot := Option.some.inj hk
    dsimp only [culpritEnv, FailureOk]
    rw [if_pos (by decide)]
    exact ⟨by decide +kernel, fun _ => by decide +kernel⟩
  exact ⟨by decide +kernel, (abort_exact (signStart_started (by decide) (by decide) (by decide))
    (by decide +kernel) (by decide +kernel) ((along_concat _ _ _).mpr ⟨hrun, hlast⟩)).1
      (by decide +kernel)⟩

end FrostSshCa.Coordinator
