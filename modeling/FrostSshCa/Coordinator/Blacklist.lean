import FrostSshCa.Coordinator.Abort
import FrostSshCa.Coordinator.Attempts
import FrostSshCa.Coordinator.Roster

/-!
# The blacklist

`g_blacklist` and the strikes survive reconnections, failed sessions and restarts. The
list only grows, holds no id twice and only ids of `1..FROST_MAX_SIGNERS`, so that it
always has room for one more; whoever has had its strikes is on it, and the selection
passes over it.
-/

namespace FrostSshCa.Coordinator

open Lib

variable {c c' d : Coord}

/-! ## The invariant -/

structure Bars (c : Coord) : Prop where
  signers : IdList c.signers
  black : IdList c.blacklist
  struck : ∀ id, maxStrikes ≤ getStrikes c id → id ∈ c.blacklist
  sess : SessIds c

/-- A list of distinct ids is never longer than the array. -/
theorem IdList.length_le {ids : List Nat} (h : IdList ids) : ids.length ≤ maxSigners := by
  have hsub : ids ⊆ List.range' 1 maxSigners := fun id hid => by
    have := h.range id hid
    rw [List.mem_range'_1]
    omega
  have := (List.subperm_of_subset h.distinct hsub).length_le
  rwa [List.length_range'] at this

theorem Bars.congr (h : Bars c) (hs : c'.signers = c.signers) (hb : c'.blacklist = c.blacklist)
    (hst : c'.strikes = c.strikes) (hse : SessIds c') : Bars c' := by
  have hget (id : Nat) : getStrikes c' id = getStrikes c id := by
    unfold getStrikes
    rw [hst]
  refine ⟨hs ▸ h.signers, hb ▸ h.black, fun id hid => ?_, hse⟩
  rw [hget] at hid
  rw [hb]
  exact h.struck id hid

theorem Bars.sgOnly (h : Bars c) (hr : SgOnly c c') : Bars c' := by
  obtain ⟨_, rfl⟩ := hr
  exact h.congr rfl rfl rfl (h.sess.congr rfl)

theorem Bars.ceremonyOnly (h : Bars c) (hr : CeremonyOnly c c') : Bars c' := by
  obtain ⟨_, _, _, _, _, _, rfl⟩ := hr
  exact h.congr rfl rfl rfl (h.sess.congr rfl)

theorem Bars.close (h : Bars c) (k : Fin maxSessions) {p : RSessState} (hp : p ≠ .awaitingShares) :
    Bars (c.closeSession k p) := h.congr rfl rfl rfl (h.sess.closeSession k hp)

theorem Bars.tryForm (h : Bars c) (env : Env) : Bars (tryForm c env) := by
  have hse := tryForm_sessIds h.sess h.signers env
  rcases tryForm_cases c env with e | ⟨k, spkg, wire, -, e⟩
  · rw [e]; exact h
  · obtain ⟨_, hshape⟩ := openSession_sgOnly c k (chooseSigners c) spkg wire env.now
    refine h.congr ?_ ?_ ?_ hse <;> rw [e, hshape] <;> rfl

/-! ## Blacklisting -/

/-- **There is room for every id.** -/
theorem mem_blacklistSigner (hb : IdList c.blacklist) {id : Nat} (h1 : 1 ≤ id)
    (h2 : id ≤ maxSigners) :
    id ∈ (blacklistSigner c id).blacklist :=
  ((blacklistSigner_moves hb id h1 h2).blacklist id h1 h2).mpr (.inr (decide_eq_true rfl))

theorem blacklistSigner_prefix (c : Coord) (id : Nat) :
    c.blacklist <+: (blacklistSigner c id).blacklist := by
  unfold blacklistSigner
  split
  · exact List.prefix_refl _
  · exact List.prefix_append _ _

theorem blacklistSigner_shape (c : Coord) (id : Nat) :
    ∃ bl, blacklistSigner c id = { c with blacklist := bl } := by
  unfold blacklistSigner
  split
  · exact ⟨_, rfl⟩
  · exact ⟨_, rfl⟩

theorem Bars.blacklistSigner (h : Bars c) {id : Nat} (h1 : 1 ≤ id) (h2 : id ≤ maxSigners) :
    Bars (blacklistSigner c id) := by
  have hb := blacklistSigner_idList h.black h1 h2
  have hp := blacklistSigner_prefix c id
  obtain ⟨bl, e⟩ := blacklistSigner_shape c id
  rw [e] at hb hp ⊢
  exact ⟨h.signers, hb, fun j hj => hp.subset (h.struck j hj), h.sess.congr rfl⟩

theorem Bars.exclude (h : Bars c) {id : Nat} (h1 : 1 ≤ id) (h2 : id ≤ maxSigners) :
    Bars (setPhase (Coordinator.blacklistSigner c id) id .blacklisted) :=
  (h.blacklistSigner h1 h2).sgOnly (setPhase_sgOnly ..)

theorem Bars.blacklistMembers (h : Bars c) {k : Fin maxSessions}
    (hk : (c.sessions k).state = .awaitingShares) :
    Bars (blacklistMembers c k) := by
  have hr := (h.sess k hk).range
  exact foldl_invariant (I := Bars) (fun d id hid hd => hd.exclude (hr id hid).1 (hr id hid).2)
    (h.close k (p := .failed) nofun)

theorem Bars.culpritReset (h : Bars c) (k : Fin maxSessions) {x : Nat} (h1 : 1 ≤ x)
    (h2 : x ≤ maxSigners) :
    Bars (culpritReset c k x) := by
  refine foldl_invariant (I := Bars) (fun d id _ hd => ?_)
    ((h.close k (p := .failed) nofun).exclude h1 h2)
  split
  · exact hd.sgOnly (requestCommit_sgOnly ..)
  · exact hd

/-- **A strike** blacklists once there are enough of them. -/
theorem Bars.expireMember (h : Bars c) (k : Fin maxSessions) (i id : Nat) :
    Bars (expireMember c k i id) := by
  unfold Coordinator.expireMember
  split
  swap
  · exact h
  next hid =>
  obtain ⟨h1, h2⟩ := h.signers.range id hid
  split
  · exact h.sgOnly (requestCommit_sgOnly ..)
  dsimp only
  -- all is as before but the strikes of `id`
  have hget := fun j => getStrikes_addStrike (c := c) (j := j) h1 h2
  obtain ⟨st, e⟩ : ∃ st, addStrike c id = { c with strikes := st } := by
    unfold addStrike
    rw [if_pos ⟨h1, h2⟩]
    exact ⟨_, rfl⟩
  have hstruck : ∀ j ≠ id, maxStrikes ≤ getStrikes (addStrike c id) j → j ∈ c.blacklist := by
    intro j hj hm
    rw [hget, if_neg hj] at hm
    exact h.struck j hm
  split
  · have hblack : IdList (addStrike c id).blacklist := by rw [e]; exact h.black
    have hp := blacklistSigner_prefix (addStrike c id) id
    have hmem := mem_blacklistSigner hblack h1 h2
    have hids := blacklistSigner_idList hblack h1 h2
    obtain ⟨bl, e'⟩ := blacklistSigner_shape (addStrike c id) id
    refine Bars.sgOnly ?_ (setPhase_sgOnly ..)
    refine ⟨by rw [e', e]; exact h.signers, hids, fun j hj => ?_, h.sess.congr (by rw [e', e])⟩
    have hsame : getStrikes (Coordinator.blacklistSigner (addStrike c id) id) j =
        getStrikes (addStrike c id) j := by
      unfold getStrikes
      rw [e']
    by_cases hji : j = id
    · rw [hji]
      exact hmem
    · refine hp.subset ?_
      rw [e]
      exact hstruck j hji (hsame ▸ hj)
  · next hfew =>
    refine Bars.sgOnly ?_ (requestCommit_sgOnly ..)
    refine ⟨by rw [e]; exact h.signers, by rw [e]; exact h.black, fun j hj => ?_, h.sess.congr (by rw [e])⟩
    by_cases hji : j = id
    · rw [hji] at hj
      exact absurd hj hfew
    · rw [e]
      exact hstruck j hji hj

theorem Bars.expireSlot (h : Bars c) (now : Nat) (env : Env) (k : Fin maxSessions) :
    Bars (expireSlot c now env k) := by
  unfold Coordinator.expireSlot
  split; · exact h
  split; · exact h
  refine Bars.tryForm ?_ env
  exact foldl_invariant (I := Bars) (fun d p _ hd => hd.expireMember k p.2 p.1)
    (h.close k (p := .failed) nofun)

/-! ## The answer of `aggregate` -/

/-- The ids an answer of `aggregate` on session `k` has blacklisted. -/
def condemned (c : Coord) (k : Fin maxSessions) : AggregateResult → List Nat
  | .notRun => []
  | .sig bytes => if bytes.length ≠ 64 then (c.sessions k).signerIds else []
  | .culprit x => if 0 < x ∧ x ≤ maxSigners then [x] else (c.sessions k).signerIds
  | .failed => (c.sessions k).signerIds

theorem tryForm_blacklist (c : Coord) (env : Env) : (tryForm c env).blacklist = c.blacklist := by
  rcases tryForm_cases c env with e | ⟨k, spkg, wire, -, e⟩
  · rw [e]
  · obtain ⟨_, hshape⟩ := openSession_sgOnly c k (chooseSigners c) spkg wire env.now
    rw [e, hshape]
    rfl

theorem blacklistSession_shape (c : Coord) (k : Fin maxSessions) : ∃ sg done,
    blacklistSession c k = { blacklistMembers c k with sg := sg, signingDone := done } := by
  unfold blacklistSession
  dsimp only
  split
  · obtain ⟨_, e⟩ := broadcastSignReq_sgOnly { blacklistMembers c k with signingDone := true }
    exact ⟨_, _, e⟩
  · obtain ⟨_, e⟩ := broadcastSignReq_sgOnly (blacklistMembers c k)
    exact ⟨_, _, e⟩

/-- **Whoever is condemned** is on the list afterwards. -/
theorem Bars.onAggregate (h : Bars c) {k : Fin maxSessions}
    (hk : (c.sessions k).state = .awaitingShares)
    (env : Env) (r : AggregateResult) : Bars (onAggregate c env k r) ∧
      ∀ id ∈ condemned c k r, id ∈ (onAggregate c env k r).blacklist := by
  have hr := (h.sess k hk).range
  have fallback : Bars (blacklistSession c k) ∧
      ∀ id ∈ (c.sessions k).signerIds, id ∈ (blacklistSession c k).blacklist := by
    have hb := h.blacklistMembers hk
    have hm := (blacklistMembers_moves h.black k hr).2
    obtain ⟨sg, done, e⟩ := blacklistSession_shape c k
    rw [e]
    refine ⟨hb.congr rfl rfl rfl (hb.sess.congr rfl), fun id hid => ?_⟩
    exact (hm.blacklist id (hr id hid).1 (hr id hid).2).mpr (.inr (decide_eq_true hid))
  cases r with
  | notRun => exact ⟨h, nofun⟩
  | sig bytes =>
    dsimp only [Coordinator.onAggregate, condemned]
    split
    · exact fallback
    · refine ⟨?_, nofun⟩
      have hfin : Bars (finishSession c k) := h.congr rfl rfl rfl (h.sess.closeSession k nofun)
      unfold aggregateOk callMint
      split
      · exact hfin
      · next d hd =>
        obtain ⟨cert, -, rfl⟩ := Option.map_eq_some_iff.mp hd
        have hcount : Bars (countCert (finishSession c k) cert) :=
          hfin.congr rfl rfl rfl (hfin.sess.congr rfl)
        exact hcount.sgOnly (broadcast_sgOnly ..)
  | culprit x =>
    dsimp only [Coordinator.onAggregate, condemned]
    split
    · next hx =>
      have hb := (h.culpritReset k hx.1 hx.2).tryForm env
      refine ⟨hb.congr rfl rfl rfl (hb.sess.congr rfl), fun id hid => ?_⟩
      rw [List.mem_singleton.mp hid]
      show x ∈ (Coordinator.tryForm (Coordinator.culpritReset c k x) env).blacklist
      rw [tryForm_blacklist]
      exact ((culpritReset_moves h.black k hx.1 hx.2).2.blacklist x hx.1 hx.2).mpr
        (.inr (decide_eq_true rfl))
    · exact fallback
  | failed => exact fallback

/-! ## One event -/

theorem Bars.fileShare (h : Bars c) (k : Fin maxSessions) (slot i : Nat) (share : Bytes) :
    Bars (fileShare c k slot i share) :=
  h.congr rfl rfl rfl (fileShare_sessIds h.sess k slot i share)

theorem Bars.frame (h : Bars c) (env : Env) (i : Nat) (f : Frame) :
    Bars (processSignerFrame c env i f) := by
  by_cases hs : MsgType.signing f.type = true
  · unfold processSignerFrame
    cases e : f.type with
    | commit =>
      dsimp only
      rcases onCommit_cases c env i f with e' | ⟨-, e'⟩
      · rw [e']; exact h
      · rw [e']
        exact Bars.tryForm (h.sgOnly (setSg_sgOnly ..)) env
    | sigShare =>
      dsimp only
      rcases onSigShare_cases c env i f with e' | ⟨k, slot, hst, e' | ⟨stdin, -, -, e'⟩⟩
      · rw [e']; exact h
      · rw [e']; exact h.fileShare k slot i _
      · have hk : ((Coordinator.fileShare c k slot i f.payload).sessions k).state =
            .awaitingShares := by
          rw [fileShare_session]
          exact (shareTarget_some c hst).open'
        rw [e']
        exact ((h.fileShare k slot i f.payload).onAggregate hk env _).1
    | shareLoadFail => exact h.sgOnly (setSg_sgOnly ..)
    | _ => rw [e] at hs; cases hs
  · exact h.ceremonyOnly (processSignerFrame_ceremonyOnly c env i f (by simpa using hs))

theorem Bars.loopHead (h : Bars c) (env : TbsEnv) : Bars (loopHead c env) := by
  have hexit : Bars (exitIfQuiet c) := by
    unfold exitIfQuiet
    split
    · exact h.congr rfl rfl rfl (h.sess.congr rfl)
    · exact h
  unfold Coordinator.loopHead
  split
  · exact hexit
  split
  · split
    · unfold nextMint
      refine Bars.sgOnly ?_ (broadcastSignReq_sgOnly _)
      obtain ⟨t, tbs, hex, e | e⟩ := prepareTbs_cases (advanceSerial c) env
      · rw [e]
        exact h.congr rfl rfl rfl (h.sess.congr rfl)
      · rw [e]
        refine h.congr rfl rfl rfl fun k hk => ?_
        cases hk
    · exact hexit
  split
  · exact hexit
  · exact h

theorem Bars.hello (h : Bars c) (env : HelloEnv) (payload : Bytes) :
    Bars (onHello c env payload).1 := by
  rcases onHello_taken c env payload with e | ⟨pid, pn, pt, hp, hnt, e | ⟨hr, e⟩⟩
  · rw [e]; exact h
  · rw [e]; exact h.congr rfl rfl rfl (h.sess.congr rfl)
  · obtain ⟨h1, h2, -, h4, -, -⟩ := parseHello_some hp
    obtain ⟨_, _, hshape⟩ := promote_flowOnly { c with n := pn, t := pt } pid
    rw [e, hshape]
    refine ⟨⟨List.nodup_cons.mpr ⟨hr.new, h.signers.distinct⟩, fun id hid => ?_⟩, h.black, h.struck,
      h.sess.congr rfl⟩
    rcases List.mem_cons.mp hid with rfl | hid
    · exact ⟨h1, h2.trans h4⟩
    · exact h.signers.range id hid

/-- **One event** keeps the invariant. -/
theorem Bars.step (h : Bars c) (e : Event) : Bars (step c e) := by
  unfold Coordinator.step
  split; · exact h
  cases e with
  | loopHead env => exact h.loopHead env
  | expire now env =>
    dsimp only
    split
    · exact foldl_invariant (I := Bars) (fun d k _ hd => hd.expireSlot now (env k) k) h
    · exact h
  | hello env payload => exact h.hello env payload
  | drain i =>
    dsimp only
    split
    · exact h.sgOnly (setSg_sgOnly ..)
    · exact h
  | disconnect i =>
    dsimp only
    split
    · exact ⟨⟨h.signers.distinct.filter _, fun id hid =>
        h.signers.range id (List.mem_of_mem_filter hid)⟩,
        h.black, h.struck, h.sess.congr rfl⟩
    · exact h
  | frame i f env =>
    dsimp only
    split
    · exact h.frame env i f
    · exact h

theorem Started.bars (h : Started c) : Bars c := by
  have hu := h.unused
  refine ⟨?_, ?_, fun id hid => ?_, fun k hk => ?_⟩
  · rw [hu.signers]; exact ⟨List.nodup_nil, nofun⟩
  · rw [hu.blacklist]; exact ⟨List.nodup_nil, nofun⟩
  · unfold getStrikes at hid
    rw [hu.strikes] at hid
    split at hid <;> exact absurd hid (Nat.not_succ_le_zero 1)
  · rw [hu.sessions] at hk
    cases hk

/-! ## Permanence -/

theorem Link.blacklist {S : Scope} (h : Link S c c') : c.blacklist <+: c'.blacklist := by
  have hsame {x y : Coord} (e : y.blacklist = x.blacklist) : x.blacklist <+: y.blacklist :=
    e ▸ List.prefix_refl _
  cases h with
  | idle h => exact hsame h.blacklist
  | close _ _ => exact List.prefix_refl _
  | @black id _ =>
    obtain ⟨_, e⟩ := setPhase_sgOnly (blacklistSigner c id) id .blacklisted
    rw [e]
    exact blacklistSigner_prefix c id
  | strike _ =>
    unfold addStrike
    split <;> exact List.prefix_refl _
  | @request p id _ _ _ =>
    obtain ⟨_, e⟩ := requestCommit_sgOnly c p id
    exact hsame (by rw [e])
  | @form env k spkg wire _ _ =>
    obtain ⟨_, e⟩ := openSession_sgOnly c k (chooseSigners c) spkg wire env.now
    exact hsame (by rw [e]; rfl)
  | @restart d h _ =>
    obtain ⟨_, e⟩ := broadcastSignReq_sgOnly d
    exact hsame (by rw [e]; exact h.blacklist)

theorem Chain.blacklist {S : Scope} (h : Chain S c c') : c.blacklist <+: c'.blacklist := by
  induction h with
  | refl => exact List.prefix_refl _
  | tail _ hl ih => exact ih.trans hl.blacklist

theorem Taken.blacklist {e : Event} (h : Taken c e d) : d.blacklist = c.blacklist := by
  cases h with
  | @signer env payload pid pn pt _ _ _ =>
    obtain ⟨_, _, hshape⟩ := promote_flowOnly { c with n := pn, t := pt } pid
    rw [hshape]
    rfl
  | _ => rfl

/-! ## The members of a new session -/

/-- What the history knows of the sessions opened since `c`. -/
def Knows (c : Coord) (p : Coord × History) : Prop :=
  ∀ k, (c.sessions k).state = .empty → (p.1.sessions k).state = .empty ∨
    ∃ b, p.2 k = some b ∧ (p.1.sessions k).signerIds = b.entries.map CommitEntry.id

/-- A link that opens no session empties the table or keeps it but for states. -/
theorem Link.shut_sessions (h : Link .shut c c') (k : Fin maxSessions) :
    (c'.sessions k).state = .empty ∨ ((c'.sessions k).signerIds = (c.sessions k).signerIds ∧
      ((c.sessions k).state = .empty → (c'.sessions k).state = .empty)) := by
  have hsame {d : Coord} (e : d.sessions = c.sessions) : (d.sessions k).state = .empty ∨
      ((d.sessions k).signerIds = (c.sessions k).signerIds ∧
        ((c.sessions k).state = .empty → (d.sessions k).state = .empty)) := by
    rw [e]
    exact .inr ⟨rfl, id⟩
  cases h with
  | idle h => exact hsame h.sessions
  | @close k' hk st _ =>
    right
    by_cases e : k = k'
    · subst e
      unfold Coord.closeSession
      rw [Coord.setSession_self]
      exact ⟨rfl, fun h0 => by rw [hk] at h0; cases h0⟩
    · unfold Coord.closeSession
      rw [Coord.setSession_of_ne e]
      exact ⟨rfl, id⟩
  | @black id _ =>
    obtain ⟨_, _, _, e⟩ := (blacklistSigner_recOnly c id).trans
      (setPhase_sgOnly _ id .blacklisted).recOnly
    exact hsame (by rw [e])
  | strike _ =>
    unfold addStrike
    split <;> exact hsame rfl
  | @request p id _ _ _ =>
    obtain ⟨_, e⟩ := requestCommit_sgOnly c p id
    exact hsame (by rw [e])
  | form he _ => exact he.elim
  | @restart d h _ =>
    obtain ⟨_, e⟩ := broadcastSignReq_sgOnly d
    rcases h.sessions with e' | e'
    · exact hsame (by rw [e]; exact e')
    · left
      rw [e]
      show (d.sessions k).state = .empty
      rw [e']
      rfl

theorem Knows.noted {p q : Coord × History} (hn : Noted p q) (h : Knows c p) : Knows c q := by
  intro k hk
  cases hn with
  | shut hl =>
    rcases hl.shut_sessions k with e | ⟨e1, e2⟩
    · exact .inl e
    · exact (h k hk).imp e2 fun ⟨b, hb, hm⟩ => ⟨b, hb, e1.trans hm⟩
  | @form x g env k' b spkg wire hf hb _ =>
    have hses := (openSession_sessions x k' (chooseSigners x) spkg wire env.now)
    by_cases e : k = k'
    · subst e
      right
      refine ⟨b, Function.update_self .., ?_⟩
      rw [hses.1, (buildBundle_some hb).2, List.map_map]
      exact (List.map_id _).symm
    · dsimp only
      rw [hses.2 k e, Function.update_of_ne e]
      exact h k hk

theorem Knows.notes {p q : Coord × History} (hn : Notes p q) (h : Knows c p) : Knows c q := by
  induction hn with
  | refl => exact h
  | tail _ hl ih => exact ih.noted hl

/-- What a history knows it knew, or was told. -/
theorem mem_of_note {l : List (Fin maxSessions × CommitBundle)} {k : Fin maxSessions}
    {b : CommitBundle} :
    ∀ {g : History}, note g l k = some b → g k = some b ∨ (k, b) ∈ l := by
  induction l with
  | nil => exact fun h => .inl h
  | cons p l ih =>
    intro g h
    rcases ih h with h' | h'
    · dsimp only at h'
      by_cases e : k = p.1
      · subst e
        rw [Function.update_self] at h'
        cases h'
        exact .inr (List.mem_cons_self ..)
      · rw [Function.update_of_ne e] at h'
        exact .inl h'
    · exact .inr (List.mem_cons_of_mem _ h')

theorem Taken.sessions {e : Event} (h : Taken c e d) (k : Fin maxSessions) :
    (d.sessions k).state = (c.sessions k).state := by
  cases h with
  | @signer env payload pid pn pt _ _ _ =>
    obtain ⟨_, _, hshape⟩ := promote_flowOnly { c with n := pn, t := pt } pid
    rw [hshape]
    rfl
  | @share i f _ k' slot _ _ _ =>
    by_cases hk : k = k'
    · rw [hk, fileShare_session]
    · rw [fileShare_session_of_ne hk]
  | _ => rfl

theorem opening_members {env : Env} {k : Fin maxSessions} {b : CommitBundle}
    (h : opening d env = some (k, b)) : b.entries.map CommitEntry.id = chooseSigners d := by
  unfold opening at h
  obtain ⟨j, -, h⟩ := Option.bind_eq_some_iff.mp h
  split at h
  · obtain ⟨b', hb, e⟩ := Option.map_eq_some_iff.mp h
    cases e
    rw [(buildBundle_some hb).2, List.map_map]
    exact List.map_id _
  · cases h

/-- The selection passes over the blacklist. -/
theorem chooseSigners_allowed {id : Nat} (h : id ∈ chooseSigners d) : id ∉ d.blacklist := by
  intro hin
  have hb : isBlacklisted d id = true := decide_eq_true hin
  rcases (mem_chooseSigners d h).2 with hok | hok
  · simp [reliable, hb] at hok
  · simp [suspected, hb] at hok

/-- **A session that appears** was formed in one of the attempts of the event, out of
signers that were not blacklisted then. -/
theorem session_formed (h : Signing c) {e : Event} {k : Fin maxSessions}
    (h0 : (c.sessions k).state = .empty) (h1 : ((step c e).sessions k).state ≠ .empty) :
    ∃ d env, (d, env) ∈ attempts c e ∧ c.blacklist <+: d.blacklist ∧
      ((step c e).sessions k).signerIds = chooseSigners d := by
  obtain ⟨x, ht, hn⟩ := step_notes h.mode h.dkgState e fun _ => none
  have hstart : Knows x (x, fun _ => none) := fun _ hk => .inl hk
  have hknows := hstart.notes hn
  have hempty : (x.sessions k).state = .empty := (ht.sessions k).trans h0
  rcases hknows k hempty with hk | ⟨b, hb, hids⟩
  · exact absurd hk h1
  rcases mem_of_note hb with hb | hb
  · cases hb
  rw [openings_eq] at hb
  obtain ⟨⟨d, env⟩, ha, hop⟩ := List.mem_filterMap.mp hb
  obtain ⟨y, hty, hcy⟩ := attempts_chain ha
  exact ⟨d, env, ha, hty.blacklist ▸ hcy.blacklist, hids.trans (opening_members hop)⟩

/-! ## Runs -/

theorem step_blacklist (h : Signing c) (e : Event) : c.blacklist <+: (step c e).blacklist := by
  obtain ⟨x, ht, hc⟩ := step_taken h.mode h.dkgState e
  exact ht.blacklist ▸ hc.blacklist

theorem run_blacklist (es : List Event) : ∀ {c : Coord}, Signing c →
    c.blacklist <+: (run step c es).blacklist := by
  induction es with
  | nil => exact fun _ => List.prefix_refl _
  | cons e es ih => exact fun h => (step_blacklist h e).trans (ih (h.step e))

/-- **Blacklisting is permanent and complete.** The list only grows, holds distinct ids
and has room for all; whoever has had its strikes and whoever a failed aggregation
condemns is on it, and no session formed from then on has such a member. -/
theorem blacklisting {c₀ : Coord} (h0 : Started c₀) (hm : c₀.mode = .sign) (es : List Event) :
    let c := run step c₀ es
    (∀ es₁ es₂, es = es₁ ++ es₂ → (run step c₀ es₁).blacklist <+: c.blacklist) ∧
    (c.blacklist.Nodup ∧ c.blacklist.length ≤ maxSigners) ∧
    (∀ id, maxStrikes ≤ getStrikes c id → id ∈ c.blacklist) ∧
    (∀ i f env k stdin, aggregateCall c (.frame i f env) = some (k, stdin) →
      ∀ id ∈ condemned c k (env.aggregate stdin), id ∈ (step c (.frame i f env)).blacklist) ∧
    ∀ e k, (c.sessions k).state = .empty → ((step c e).sessions k).state ≠ .empty →
      ∃ d env, (d, env) ∈ attempts c e ∧ c.blacklist <+: d.blacklist ∧
        ((step c e).sessions k).signerIds = chooseSigners d ∧
        ∀ id ∈ ((step c e).sessions k).signerIds, id ∉ d.blacklist := by
  intro c
  have hsign (es : List Event) : Signing (run step c₀ es) :=
    run_invariant (I := Signing) (fun _ e h => h.step e) (h0.signing hm)
  have hbars : Bars c := run_invariant (I := Bars) (fun _ e h => h.step e) h0.bars
  refine ⟨fun es₁ es₂ e => ?_, ⟨hbars.black.distinct, hbars.black.length_le⟩, hbars.struck, ?_, ?_⟩
  · show _ <+: (run step c₀ es).blacklist
    rw [e, run_append]
    exact run_blacklist es₂ (hsign es₁)
  · intro i f env k stdin hcall id hid
    obtain ⟨slot, hst, hstep⟩ := step_of_aggregateCall hcall
    have hk : ((fileShare c k slot i f.payload).sessions k).state = .awaitingShares := by
      rw [fileShare_session]
      exact (shareTarget_some c hst).open'
    have hsame : ((fileShare c k slot i f.payload).sessions k).signerIds =
        (c.sessions k).signerIds := by
      rw [fileShare_session]
    rw [hstep]
    refine ((hbars.fileShare k slot i f.payload).onAggregate hk env (env.aggregate stdin)).2 id ?_
    unfold condemned at hid ⊢
    rw [hsame]
    exact hid
  · intro e k he hne
    obtain ⟨d, env, ha, hp, hids⟩ := session_formed (hsign es) he hne
    refine ⟨d, env, ha, hp, hids, fun id hid => ?_⟩
    rw [hids] at hid
    exact chooseSigners_allowed hid

/-- Signer 1 is named as the culprit and barred. -/
theorem blacklisting_run :
    1 ∈ (step (run step (signStart 2 2 1) (openingRun ++ [sends 1 .sigShare [9]]))
      (lastShare 1)).blacklist := by
  have hk : (aggregateCall (run step (signStart 2 2 1) (openingRun ++ [sends 1 .sigShare [9]]))
      (lastShare 1)).map Prod.fst = some firstSlot := by decide +kernel
  obtain ⟨⟨k, stdin⟩, hcall, -⟩ := Option.map_eq_some_iff.mp hk
  refine (blacklisting (signStart_started (by decide) (by decide) (by decide)) rfl
    (openingRun ++ [sends 1 .sigShare [9]])).2.2.2.1 2 _ (culpritEnv 1) k stdin hcall 1 ?_
  dsimp only [condemned, culpritEnv]
  rw [if_pos (by decide)]
  exact List.mem_singleton.mpr rfl

end FrostSshCa.Coordinator
