import FrostSshCa.Coordinator.Apart
import FrostSshCa.Coordinator.Blame
import FrostSshCa.Coordinator.Blocks
import FrostSshCa.Coordinator.Eager
import Mathlib.Combinatorics.Enumerative.DoubleCounting

/-!
# How many sessions can fail

A session fails because a registered member owes its share past the deadline, because
`aggregate` names one, or because it fails without naming anybody. As long as the
members of open sessions stay connected and no signer is in two of them, each failure
costs a signer that had not had its strikes yet one of them: `f` signers that misbehave
make `MAX_STRIKES * f` sessions fail and no more, whatever the others commit and sign.
-/

namespace FrostSshCa.Coordinator

open Lib

variable {c c' : Coord} {k : Fin maxSessions} {id : Nat}

/-- What the bound asks of an event. A restart gets its TBS, the clock does not go back,
members of open sessions stay, and a call of `aggregate` runs, names only a signer whose
share it was given, and fails without a name only where nobody it has asked again is in
another open session. -/
def Steady (c : Coord) : Event → Prop
  | .loopHead env => c.roastFail = false → c.signingDone = true → c.toMint > 0 →
      (prepareTbs (advanceSerial c) env).2 = true
  | .expire now env => ∀ k, now ≤ (env k).now
  | .disconnect i => Free c.sessions i
  | .frame i f env => ∀ k stdin, aggregateCall c (.frame i f env) = some (k, stdin) →
      env.aggregate stdin ≠ .notRun ∧
        (∀ x, env.aggregate stdin = .culprit x → x ∈ stdin.shares.map Prod.fst) ∧
        (Unattributed (env.aggregate stdin) →
          ∀ j, j ∉ (c.sessions k).signerIds → Asked c j → Free c.sessions j)
  | _ => True

/-- The sessions that fail in the event. -/
def failures (c : Coord) (e : Event) : Nat :=
  (Finset.univ.filter fun k => (c.sessions k).state = .awaitingShares ∧
    ((step c e).sessions k).state = .failed).card

/-! ## Open sessions -/

/-- Open sessions have `g_t` registered members, none of them blacklisted. -/
structure Staffed (c : Coord) : Prop where
  registered : ∀ k, (c.sessions k).state = .awaitingShares →
    ∀ i ∈ (c.sessions k).signerIds, i ∈ c.signers
  unlisted : ∀ k, (c.sessions k).state = .awaitingShares →
    ∀ i ∈ (c.sessions k).signerIds, i ∉ c.blacklist
  size : ∀ k, (c.sessions k).state = .awaitingShares → (c.sessions k).signerIds.length = c.t
  counted : ∀ k, (c.sessions k).state = .awaitingShares →
    (c.sessions k).filled ≤ (c.sessions k).nShares

/-- A share of session `k` is missing, or signing is done. -/
def Owes (c : Coord) (k : Fin maxSessions) : Prop :=
  c.signingDone = false → (c.sessions k).filled < c.t

/-- Every open session waits for a share. -/
def Owing (c : Coord) : Prop := ∀ k, (c.sessions k).state = .awaitingShares → Owes c k

theorem Staffed.still (h : Staffed c) (hs : c'.signers = c.signers) (ht : c'.t = c.t)
    (hse : NoneOpened c c')
    (hb : ∀ k, (c'.sessions k).state = .awaitingShares → ∀ i ∈ (c'.sessions k).signerIds,
      i ∈ c'.blacklist → i ∈ c.blacklist) : Staffed c' := by
  have hold {k : Fin maxSessions} (hk : (c'.sessions k).state = .awaitingShares) :
      (c.sessions k).state = .awaitingShares := hse k hk ▸ hk
  refine ⟨fun k hk => ?_, fun k hk i hi hbl => ?_, fun k hk => ?_, fun k hk => ?_⟩
  · rw [hs, hse k hk]
    exact h.registered k (hold hk)
  · have hi' := hb k hk i hi hbl
    rw [hse k hk] at hi
    exact h.unlisted k (hold hk) i hi hi'
  · rw [ht, hse k hk]
    exact h.size k (hold hk)
  · rw [hse k hk]
    exact h.counted k (hold hk)

theorem Owing.still (h : ∀ j, j ≠ k → (c.sessions j).state = .awaitingShares → Owes c j)
    (ht : c'.t = c.t) (hd : c'.signingDone = false → c.signingDone = false)
    (hse : NoneOpened c c') (hk : (c'.sessions k).state ≠ .awaitingShares) : Owing c' := by
  intro j hj hd'
  have hjk : j ≠ k := fun e => hk (e ▸ hj)
  have e := hse j hj
  rw [e, ht]
  exact h j hjk (e ▸ hj) (hd hd')

theorem filled_newSession (chosen : List Nat) (spkg : Bytes) (now : Nat) :
    (newSession c chosen spkg now).filled = 0 := List.countP_eq_zero.mpr fun _ _ => by
  simp [newSession]

theorem Staffed.form (h : Staffed c) (env : Env) : Staffed (tryForm c env) := by
  rcases tryForm_cases c env with e | ⟨j, spkg, wire, hf, e⟩
  · rw [e]
    exact h
  obtain ⟨_, hshape⟩ := openSession_sgOnly c j (chooseSigners c) spkg wire env.now
  obtain ⟨hself, hother⟩ := openSession_sessions c j (chooseSigners c) spkg wire env.now
  have hsame : (tryForm c env).signers = c.signers ∧ (tryForm c env).t = c.t ∧
      (tryForm c env).blacklist = c.blacklist := by
    rw [e, hshape]
    exact ⟨rfl, rfl, rfl⟩
  -- the new session is of eligible signers, and has no share yet
  have hnew (l : Fin maxSessions) (hl : ((tryForm c env).sessions l).state = .awaitingShares) :
      (tryForm c env).sessions l = c.sessions l ∧ (c.sessions l).state = .awaitingShares ∨
        (tryForm c env).sessions l = newSession c (chooseSigners c) spkg env.now := by
    by_cases hlj : l = j
    · rw [e, hlj]
      exact .inr hself
    · have hsl : (tryForm c env).sessions l = c.sessions l := by
        rw [e]
        exact hother l hlj
      exact .inl ⟨hsl, hsl ▸ hl⟩
  refine ⟨fun l hl => ?_, fun l hl => ?_, fun l hl => ?_, fun l hl => ?_⟩
  · rw [hsame.1]
    rcases hnew l hl with ⟨e', hl'⟩ | e' <;> rw [e']
    · exact h.registered l hl'
    · exact fun i hi => (mem_chooseSigners c hi).1
  · rw [hsame.2.2]
    rcases hnew l hl with ⟨e', hl'⟩ | e' <;> rw [e']
    · exact h.unlisted l hl'
    · exact fun i hi => chooseSigners_allowed hi
  · rw [hsame.2.1]
    rcases hnew l hl with ⟨e', hl'⟩ | e' <;> rw [e']
    · exact h.size l hl'
    · exact Nat.le_antisymm (chooseSigners_length_le c) hf.enough
  · rcases hnew l hl with ⟨e', hl'⟩ | e' <;> rw [e']
    · exact h.counted l hl'
    · rw [filled_newSession]
      exact Nat.zero_le _

theorem Owing.form (h : Owing c) (ht : c.signingDone = false → 1 ≤ c.t) (env : Env) :
    Owing (tryForm c env) := by
  rcases tryForm_cases c env with e | ⟨j, spkg, wire, hf, e⟩
  · rw [e]
    exact h
  obtain ⟨_, hshape⟩ := openSession_sgOnly c j (chooseSigners c) spkg wire env.now
  obtain ⟨hself, hother⟩ := openSession_sessions c j (chooseSigners c) spkg wire env.now
  have ht' : (tryForm c env).t = c.t := by
    rw [e, hshape]
    rfl
  intro l hl _
  rw [ht']
  rw [e] at hl ⊢
  by_cases hlj : l = j
  · rw [hlj, hself, filled_newSession]
    exact ht hf.notDone
  · rw [hother l hlj] at hl ⊢
    exact h l hl hf.notDone

/-! ## The blocks -/

/-- Whoever is put on the list was in the session that is closed, hence in no other. -/
theorem Staffed.closed (h : Staffed c) (hap : Apart c)
    (hk : (c.sessions k).state = .awaitingShares) (hs : c'.signers = c.signers) (ht : c'.t = c.t)
    (hse : c'.sessions = (c.closeSession k .failed).sessions)
    (hb : ∀ id, 1 ≤ id → id ≤ maxSigners → id ∈ c'.blacklist →
      id ∈ c.blacklist ∨ id ∈ (c.sessions k).signerIds) (hr : Bars c) : Staffed c' := by
  have hno : NoneOpened c c' := fun j hj => by
    rw [hse] at hj ⊢
    exact closeSession_noneOpened c k .failed nofun j hj
  refine h.still hs ht hno fun j hj i hi hbl => ?_
  have hjk : j ≠ k := by
    rintro rfl
    rw [hse] at hj
    unfold Coord.closeSession at hj
    rw [Coord.setSession_self] at hj
    cases hj
  have ej := hno j hj
  rw [ej] at hj hi
  obtain ⟨h1, h2⟩ := (hr.sess j hj).range i hi
  refine (hb i h1 h2 hbl).resolve_right fun hik => hjk ?_
  exact hap.disjoint j k hj hk i hi hik

theorem closed_state (hse : c'.sessions = (c.closeSession k .failed).sessions) :
    (c'.sessions k).state = .failed := by
  rw [hse]
  unfold Coord.closeSession
  rw [Coord.setSession_self]

theorem Owing.closed (h : ∀ j, j ≠ k → (c.sessions j).state = .awaitingShares → Owes c j)
    (ht : c'.t = c.t) (hd : c'.signingDone = false → c.signingDone = false)
    (hse : c'.sessions = (c.closeSession k .failed).sessions) : Owing c' := by
  refine Owing.still h ht hd (fun j hj => ?_) (by rw [closed_state hse]; exact nofun)
  rw [hse] at hj ⊢
  exact closeSession_noneOpened c k .failed nofun j hj

theorem Staffed.expireMembers (h : Staffed c) (hr : Bars c) (hap : Apart c)
    (hk : (c.sessions k).state = .awaitingShares) : Staffed (expireMembers c k) := by
  obtain ⟨_, _, _, e⟩ := expireMembers_recOnly c k
  refine h.closed hap hk (by rw [e]; rfl) (by rw [e]; rfl) (by rw [e]) (fun id _ _ hid => ?_) hr
  have hst := expireMembers_standing hr hk id
  by_cases hs : silent c k id = true
  · right
    unfold silent at hs
    simp only [Bool.and_eq_true, List.any_eq_true, decide_eq_true_eq] at hs
    obtain ⟨-, p, hp, rfl, -⟩ := hs
    exact List.fst_mem_of_mem_zipIdx hp
  · left
    rw [if_neg hs] at hst
    have hb : isBlacklisted (Coordinator.expireMembers c k) id = isBlacklisted c id :=
      congrArg Prod.snd hst
    have hid' : isBlacklisted (Coordinator.expireMembers c k) id = true := decide_eq_true hid
    rw [hb] at hid'
    exact of_decide_eq_true hid'

theorem Staffed.culpritReset (h : Staffed c) (hr : Bars c) (hap : Apart c)
    (hk : (c.sessions k).state = .awaitingShares) {x : Nat} (h1 : 1 ≤ x) (h2 : x ≤ maxSigners)
    (hx : x ∈ (c.sessions k).signerIds) : Staffed (culpritReset c k x) := by
  obtain ⟨_, _, _, e⟩ := culpritReset_recOnly c k x
  refine h.closed hap hk (by rw [e]; rfl) (by rw [e]; rfl) (by rw [e]) (fun id l1 l2 hid => ?_) hr
  refine ((culpritReset_moves hr.black k h1 h2).2.blacklist id l1 l2).mp hid |>.imp_right ?_
  intro hid
  rw [of_decide_eq_true hid]
  exact hx

theorem Staffed.fallback (h : Staffed c) (hr : Bars c) (hap : Apart c)
    (hk : (c.sessions k).state = .awaitingShares) (env : Env) :
    Staffed (blacklistSession c k) := by
  obtain ⟨_, _, e⟩ := blacklistSession_shape c k
  obtain ⟨_, _, _, e'⟩ := blacklistMembers_recOnly c k
  exact h.closed hap hk (by rw [e, e']; rfl) (by rw [e, e']; rfl) (by rw [e, e'])
    (fun id l1 l2 => (onAggregate_blacklist hr hk env .failed l1 l2).mp) hr

/-! ## The answer of `aggregate` -/

theorem DoneKept.back (h : DoneKept c c') (hd : c'.signingDone = false) :
    c.signingDone = false := by
  cases e : c.signingDone with
  | false => rfl
  | true =>
    rw [h e] at hd
    cases hd

theorem aggregateOk_shape (c : Coord) (env : Env) (k : Fin maxSessions) (bytes : Bytes) :
    (aggregateOk c env k bytes).signers = c.signers ∧ (aggregateOk c env k bytes).t = c.t ∧
      (aggregateOk c env k bytes).blacklist = c.blacklist ∧
      (aggregateOk c env k bytes).sessions = (c.closeSession k .complete).sessions := by
  unfold aggregateOk callMint
  split
  · exact ⟨rfl, rfl, rfl, rfl⟩
  · next d hd =>
    obtain ⟨cert, -, rfl⟩ := Option.map_eq_some_iff.mp hd
    obtain ⟨_, e⟩ := broadcast_sgOnly (countCert (finishSession c k) cert) .certOutput []
    rw [e]
    exact ⟨rfl, rfl, rfl, rfl⟩

/-- **The answer closes the session**, and keeps the others as they should be. -/
theorem Staffed.answer (h : Staffed c) (hr : Bars c) (hap : Apart c)
    (hk : (c.sessions k).state = .awaitingShares) (env : Env) {r : AggregateResult}
    (hx : ∀ x, r = .culprit x → x ∈ (c.sessions k).signerIds) :
    Staffed (onAggregate c env k r) := by
  cases r with
  | notRun => exact h
  | sig bytes =>
    dsimp only [onAggregate]
    split
    · exact h.fallback hr hap hk env
    · obtain ⟨h1, h2, h3, h4⟩ := aggregateOk_shape c env k bytes
      refine h.still h1 h2 (fun j hj => ?_) (by rw [h3]; exact fun _ _ _ _ hb => hb)
      rw [h4] at hj ⊢
      exact closeSession_noneOpened c k .complete nofun j hj
  | culprit x =>
    have hmem := hx x rfl
    obtain ⟨h1, h2⟩ := (hr.sess k hk).range x hmem
    dsimp only [onAggregate]
    rw [if_pos ⟨h1, h2⟩]
    have h3 := (h.culpritReset hr hap hk h1 h2 hmem).form env
    exact ⟨h3.registered, h3.unlisted, h3.size, h3.counted⟩
  | failed => exact h.fallback hr hap hk env

theorem Owing.answer (h : ∀ j, j ≠ k → (c.sessions j).state = .awaitingShares → Owes c j)
    (ht : 1 ≤ c.t) (env : Env) {r : AggregateResult} (hrun : r ≠ .notRun) :
    Owing (onAggregate c env k r) := by
  have hfall : Owing (blacklistSession c k) := by
    obtain ⟨_, _, e⟩ := blacklistSession_shape c k
    obtain ⟨_, _, _, e'⟩ := blacklistMembers_recOnly c k
    exact Owing.closed h (by rw [e, e']; rfl) (onAggregate_doneKept c env k .failed).back
      (by rw [e, e'])
  cases r with
  | notRun => exact absurd rfl hrun
  | sig bytes =>
    have hback := (onAggregate_doneKept c env k (.sig bytes)).back
    dsimp only [onAggregate] at hback ⊢
    split
    · exact hfall
    · next hlen =>
      rw [if_neg hlen] at hback
      obtain ⟨-, h2, -, h4⟩ := aggregateOk_shape c env k bytes
      refine Owing.still h h2 hback (fun j hj => ?_) ?_
      · rw [h4] at hj ⊢
        exact closeSession_noneOpened c k .complete nofun j hj
      · rw [h4]
        unfold Coord.closeSession
        rw [Coord.setSession_self]
        exact nofun
  | culprit x =>
    dsimp only [onAggregate]
    split
    · obtain ⟨_, _, _, e⟩ := culpritReset_recOnly c k x
      have h1 : Owing (Coordinator.culpritReset c k x) :=
        Owing.closed h (by rw [e]; rfl) (culpritReset_recOnly c k x).doneKept.back (by rw [e])
      have h2 := h1.form (fun _ => by rw [e]; exact ht) env
      exact h2
    · exact hfall
  | failed => exact hfall

/-! ## The scan -/

theorem Apart.expireMembers (h : Apart c) (hk : (c.sessions k).state = .awaitingShares) :
    Apart (expireMembers c k) :=
  h.chain (expireMembers_chain hk (fun _ _ _ => trivial) (h.members_free hk .failed nofun))

/-- What a scan starts from, slot by slot. -/
structure Poised (c : Coord) : Prop where
  apart : Apart c
  bars : Bars c
  staffed : Staffed c
  owing : Owing c

theorem Poised.expireSlot (h : Poised c) (now : Nat) (env : Env) (k : Fin maxSessions) :
    Poised (expireSlot c now env k) := by
  have hbars := h.bars.expireSlot now env k
  unfold Coordinator.expireSlot at hbars ⊢
  split; · exact h
  next hk =>
  rw [if_neg hk] at hbars
  split; · exact h
  next hd =>
  rw [if_neg hd] at hbars
  have hk := not_not.mp hk
  have hsame : (Coordinator.expireMembers c k).t = c.t ∧
      (Coordinator.expireMembers c k).signingDone = c.signingDone := by
    obtain ⟨_, _, _, e⟩ := expireMembers_recOnly c k
    rw [e]
    exact ⟨rfl, rfl⟩
  obtain ⟨_, _, _, e⟩ := expireMembers_recOnly c k
  refine ⟨(h.apart.expireMembers hk).form env, hbars,
    (h.staffed.expireMembers h.bars h.apart hk).form env, Owing.form ?_ ?_ env⟩
  · exact Owing.closed (fun j _ hj => h.owing j hj) hsame.1 (by rw [hsame.2]; exact id) (by rw [e])
  · intro hd
    have := h.owing k hk (hsame.2 ▸ hd)
    omega

theorem Poised.expire (h : Poised c) (now : Nat) (env : Fin maxSessions → Env) :
    Poised (roastExpireSessions c now env) :=
  foldl_invariant (I := Poised) (fun _ k _ h => h.expireSlot now (env k) k) h

/-! ## A share -/

theorem Staffed.file (h : Staffed c) {i slot : Nat} {f : Frame} (ht : ShareTarget c i f k slot) :
    Staffed (fileShare c k slot i f.payload) := by
  have hsame (j : Fin maxSessions) := fileShare_open c k j slot i f.payload
  refine ⟨fun j hj => ?_, fun j hj => ?_, fun j hj => ?_, fun j hj => ?_⟩ <;>
    rw [(hsame j).1] at hj
  · rw [(hsame j).2.1]
    exact h.registered j hj
  · rw [(hsame j).2.1]
    exact h.unlisted j hj
  · rw [(hsame j).2.1]
    exact h.size j hj
  · by_cases e : j = k
    · subst e
      have hcount := h.counted j hj
      rw [fileShare_session]
      by_cases hnew : f.payload ≠ [] ∧ (c.sessions j).shares slot = []
      · rw [filled_update ht.slot hnew.1 hnew.2]
        exact Nat.succ_le_succ hcount
      · have hno : f.payload = [] ∨ (c.sessions j).shares slot ≠ [] := by tauto
        have hle := filled_update_le hno ((c.sessions j).nShares + 1)
        exact hle.trans (hcount.trans (Nat.le_succ _))
    · rw [fileShare_session_of_ne e]
      exact h.counted j hj

/-- Where `aggregate` is not started, a share is missing still, or signing is done. -/
theorem owes_of_no_call {i slot : Nat} {f : Frame} {env : Env} (hx : c.exited = false)
    (hi : i ∈ c.signers) (hf : f.type = .sigShare) (hst : shareTarget c i f = some (k, slot))
    (h : Staffed (fileShare c k slot i f.payload))
    (hcall : aggregateCall c (.frame i f env) = none) :
    Owes (fileShare c k slot i f.payload) k := by
  intro hd
  have hk : ((fileShare c k slot i f.payload).sessions k).state = .awaitingShares := by
    rw [(fileShare_open c k k slot i f.payload).1]
    exact (shareTarget_some c hst).open'
  refine lt_of_le_of_lt (h.counted k hk) ?_
  by_contra hge
  unfold aggregateCall at hcall
  dsimp only at hcall
  rw [if_neg (by simp [hx, hi, hf]), hst] at hcall
  dsimp only at hcall
  rw [if_pos (Nat.le_of_not_lt hge)] at hcall
  unfold aggregateStdin at hcall
  rw [if_neg (by simp only [hd, Bool.or_false, decide_eq_true_eq]; exact hge)] at hcall
  cases hcall

/-- The answer to a call of `aggregate`, and the state it is given to. -/
theorem Poised.called (h : Poised c) {i : Nat} {f : Frame} {env : Env} {stdin : AggregateInput}
    (hcall : aggregateCall c (.frame i f env) = some (k, stdin)) :
    ∃ slot, step c (.frame i f env) =
        onAggregate (fileShare c k slot i f.payload) env k (env.aggregate stdin) ∧
      Staffed (fileShare c k slot i f.payload) ∧ Bars (fileShare c k slot i f.payload) ∧
      Apart (fileShare c k slot i f.payload) ∧ (c.sessions k).state = .awaitingShares ∧
      c.signingDone = false ∧ (∀ p ∈ stdin.shares, p.1 ∈ (c.sessions k).signerIds) ∧
      (∀ j, j ≠ k → (c.sessions j).state = .awaitingShares →
        Owes (fileShare c k slot i f.payload) j) := by
  obtain ⟨slot, hst, hstep⟩ := step_of_aggregateCall hcall
  obtain ⟨_, _, _, slot', he, hat, hin⟩ := aggregateCall_some hcall
  cases he
  have ht := shareTarget_some c hst
  refine ⟨slot, hstep, h.staffed.file ht, h.bars.fileShare k slot i f.payload,
    h.apart.file k slot i f.payload, ht.open', hat.notDone, fun p hp => ?_, fun j hj hopen => ?_⟩
  · rw [hin] at hp
    obtain ⟨l, -, hl⟩ := List.mem_filterMap.mp hp
    split at hl; · cases hl
    obtain ⟨id, hid, rfl⟩ := Option.map_eq_some_iff.mp hl
    rw [(fileShare_open c k k slot' i f.payload).2.1] at hid
    exact List.mem_of_getElem? hid
  · intro hd
    rw [fileShare_session_of_ne hj]
    exact h.owing j hopen hd

theorem Steady.keepsApart (h : Staffed c) {e : Event} (hs : Steady c e) : KeepsApart c e := by
  cases e with
  | hello env payload =>
    intro pid hr k hk hmem
    exact hr.new (h.registered k hk pid hmem)
  | loopHead env => exact fun h1 h2 h3 => .inl (hs h1 h2 h3)
  | frame i f env => exact fun k stdin hcall => (hs k stdin hcall).2.2
  | _ => trivial

/-- **A frame** of a registered signer. -/
theorem Poised.frame (h : Poised c) (hroster : Roster c) {i : Nat} {f : Frame}
    {env : Env} (hx : c.exited = false) (hi : i ∈ c.signers) (hs : Steady c (.frame i f env)) :
    Staffed (step c (.frame i f env)) ∧ Owing (step c (.frame i f env)) := by
  have ht1 : 1 ≤ c.t := (hroster.size (List.ne_nil_of_mem hi)).2.2.1
  have hstep : step c (.frame i f env) = processSignerFrame c env i f :=
    step_frame_of_mem hx hi f env
  by_cases hty : f.type = .sigShare
  · cases hcall : aggregateCall c (.frame i f env) with
    | some p =>
      obtain ⟨k, stdin⟩ := p
      obtain ⟨slot, hst, h1, h2, h3, hk, -, hmem, howe⟩ := h.called hcall
      obtain ⟨hrun, hname, -⟩ := hs k stdin hcall
      have hopen (j : Fin maxSessions) := fileShare_open c k j slot i f.payload
      rw [hst]
      refine ⟨h1.answer h2 h3 (((hopen k).1).trans hk) env fun x hr => ?_,
        Owing.answer (fun j hj hj' => howe j hj ((hopen j).1 ▸ hj')) ht1 env hrun⟩
      obtain ⟨p, hp, rfl⟩ := List.mem_map.mp (hname x hr)
      rw [(hopen k).2.1]
      exact hmem p hp
    | none =>
      have hon : processSignerFrame c env i f = onSigShare c env i f := by
        unfold processSignerFrame
        rw [hty]
      rw [hstep, hon]
      rcases onSigShare_cases c env i f with e | ⟨k, slot, hst, e | ⟨stdin, hin, hn, -⟩⟩
      · rw [e]
        exact ⟨h.staffed, h.owing⟩
      · have hfile := h.staffed.file (shareTarget_some c hst)
        rw [e]
        refine ⟨hfile, fun j hj => ?_⟩
        by_cases ej : j = k
        · rw [ej]
          exact owes_of_no_call hx hi hty hst hfile hcall
        · intro hd
          rw [fileShare_session_of_ne ej] at hj ⊢
          exact h.owing j hj hd
      · unfold aggregateCall at hcall
        dsimp only at hcall
        rw [if_neg (by simp [hx, hi, hty]), hst] at hcall
        dsimp only at hcall
        rw [if_pos (show _ ≥ (fileShare c k slot i f.payload).t from hn), hin] at hcall
        cases hcall
  rw [hstep]
  have hback := (processSignerFrame_doneKept c env i f).back
  by_cases hsign : MsgType.signing f.type = true
  · unfold processSignerFrame at hback ⊢
    cases e : f.type with
    | commit =>
      dsimp only
      rcases onCommit_cases c env i f with e' | ⟨-, e'⟩
      · rw [e']
        exact ⟨h.staffed, h.owing⟩
      · rw [e']
        have h1 : Staffed (storeCommit c i f) :=
          ⟨h.staffed.registered, h.staffed.unlisted, h.staffed.size, h.staffed.counted⟩
        have h2 : Owing (storeCommit c i f) := h.owing
        exact ⟨h1.form env, h2.form (fun _ => ht1) env⟩
    | sigShare => exact absurd e hty
    | shareLoadFail =>
      exact ⟨⟨h.staffed.registered, h.staffed.unlisted, h.staffed.size, h.staffed.counted⟩, h.owing⟩
    | _ => rw [e] at hsign; cases hsign
  · obtain ⟨_, _, _, _, _, _, e⟩ :=
      processSignerFrame_ceremonyOnly c env i f (by simpa using hsign)
    rw [e] at hback ⊢
    exact ⟨⟨h.staffed.registered, h.staffed.unlisted, h.staffed.size, h.staffed.counted⟩,
      fun j hj hd => h.owing j hj (hback hd)⟩

/-! ## Every event -/

theorem Poised.head (h : Poised c) (env : TbsEnv)
    (hs : Steady c (.loopHead env)) : Staffed (loopHead c env) ∧ Owing (loopHead c env) := by
  have hexit : Staffed (exitIfQuiet c) ∧ Owing (exitIfQuiet c) := by
    unfold exitIfQuiet
    split
    · exact ⟨⟨h.staffed.registered, h.staffed.unlisted, h.staffed.size, h.staffed.counted⟩, h.owing⟩
    · exact ⟨h.staffed, h.owing⟩
  unfold loopHead
  split; · exact hexit
  next hfail =>
  split
  · next hdone =>
    split
    · next hmint =>
      -- the table is empty
      have hclear := prepareTbs_clears (hs (by simpa using hfail) hdone.1 hmint)
      obtain ⟨_, e⟩ := broadcastSignReq_sgOnly (resume (prepareTbs (advanceSerial c) env).1)
      have hempty (k : Fin maxSessions) :
          ((nextMint c env).sessions k).state ≠ .awaitingShares := by
        unfold nextMint
        rw [e]
        show ((prepareTbs (advanceSerial c) env).1.sessions k).state ≠ _
        rw [hclear]
        exact nofun
      exact ⟨⟨fun k hk => absurd hk (hempty k), fun k hk => absurd hk (hempty k),
        fun k hk => absurd hk (hempty k), fun k hk => absurd hk (hempty k)⟩,
        fun k hk => absurd hk (hempty k)⟩
    · exact hexit
  split
  · exact hexit
  · exact ⟨h.staffed, h.owing⟩

theorem Poised.hello (h : Poised c) (hsig : Signing c) (hu : Unclaimed c) (env : HelloEnv)
    (payload : Bytes) : Staffed (onHello c env payload).1 ∧ Owing (onHello c env payload).1 := by
  rcases onHello_taken c env payload with e | ⟨pid, pn, pt, hp, hnt, hcase⟩
  · rw [e]
    exact ⟨h.staffed, h.owing⟩
  -- an open session fixes `g_n` and `g_t`
  have hsize (k : Fin maxSessions) (hk : (c.sessions k).state = .awaitingShares) : pt = c.t :=
    (hnt.resolve_left (hu.of_open hk)).2.symm
  have hclaim : Staffed { c with n := pn, t := pt } ∧ Owing { c with n := pn, t := pt } := by
    refine ⟨⟨h.staffed.registered, h.staffed.unlisted, fun k hk => ?_, h.staffed.counted⟩,
      fun k hk hd => ?_⟩
    · exact (h.staffed.size k hk).trans (hsize k hk).symm
    · exact lt_of_lt_of_eq (h.owing k hk hd) (hsize k hk).symm
  rcases hcase with e | ⟨-, e⟩
  · rw [e]
    exact hclaim
  · have hm : ({ c with n := pn, t := pt } : Coord).mode = .sign := hsig.mode
    obtain ⟨_, hshape⟩ := promote_shape hm pid
    rw [e, hshape]
    exact ⟨⟨fun k hk i hi => List.mem_cons_of_mem _ (hclaim.1.registered k hk i hi),
      hclaim.1.unlisted, hclaim.1.size, hclaim.1.counted⟩, hclaim.2⟩

theorem Poised.step (h : Poised c) (hsig : Signing c) (hroster : Roster c) (hu : Unclaimed c)
    {e : Event} (hs : Steady c e) : Poised (step c e) := by
  have hrest : Staffed (Coordinator.step c e) ∧ Owing (Coordinator.step c e) := by
    cases hx : c.exited with
    | true =>
      rw [step_exited hx]
      exact ⟨h.staffed, h.owing⟩
    | false =>
      cases e with
      | loopHead env =>
        rw [step_loopHead hx]
        exact h.head env hs
      | expire now env =>
        rw [step_expire hx]
        split
        · exact ⟨(h.expire now env).staffed, (h.expire now env).owing⟩
        · exact ⟨h.staffed, h.owing⟩
      | hello env payload =>
        rw [step_hello hx]
        exact h.hello hsig hu env payload
      | drain i =>
        rw [step_drain hx]
        split
        · exact ⟨⟨h.staffed.registered, h.staffed.unlisted, h.staffed.size, h.staffed.counted⟩,
            h.owing⟩
        · exact ⟨h.staffed, h.owing⟩
      | disconnect i =>
        rw [step_disconnect hx]
        split
        · refine ⟨⟨fun k hk j hj => ?_, h.staffed.unlisted, h.staffed.size, h.staffed.counted⟩,
            h.owing⟩
          refine List.mem_filter.mpr ⟨h.staffed.registered k hk j hj, decide_eq_true ?_⟩
          rintro rfl
          exact hs k hk hj
        · exact ⟨h.staffed, h.owing⟩
      | frame i f env =>
        by_cases hi : i ∈ c.signers
        · exact h.frame hroster hx hi hs
        · rw [step_frame hx, if_neg hi]
          exact ⟨h.staffed, h.owing⟩
  exact ⟨h.apart.step e (hs.keepsApart h.staffed), h.bars.step e, hrest.1, hrest.2⟩

/-! ## What a failure costs -/

/-- The strikes a signer may still get. -/
def worth (s : Nat × Bool) : Nat := if s.2 then 0 else maxStrikes - s.1

def worths (F : Finset Nat) (c : Coord) : Nat := ∑ id ∈ F, worth (standing c id)

theorem worth_of_listed (h : id ∈ c.blacklist) : worth (standing c id) = 0 :=
  if_pos (decide_eq_true h)

theorem worth_of_unlisted (h : id ∉ c.blacklist) :
    worth (standing c id) = maxStrikes - getStrikes c id :=
  if_neg fun h' => h (of_decide_eq_true h')

/-- Whoever is not on the list has a strike left. -/
theorem Bars.worth_pos (h : Bars c) (hid : id ∉ c.blacklist) : 1 ≤ worth (standing c id) := by
  rw [worth_of_unlisted hid]
  by_contra hlt
  exact hid (h.struck id (by omega))

/-- **What an event takes from a signer**: a strike for each session that it owes, and
all of them when it is condemned. -/
theorem worth_step (h : Bars c) (hsig : Signing c) {e : Event} (hclock : e.Clock) (h1 : 1 ≤ id)
    (h2 : id ≤ maxSigners) : worth (standing (step c e) id) ≤ worth (standing c id) ∧
      (id ∉ c.blacklist → (0 < silences id c e ∨ Condemns id c e) →
        worth (standing (step c e) id) + 1 ≤ worth (standing c id)) := by
  obtain ⟨hst, hbl⟩ := step_standing h hsig hclock h1 h2
  by_cases hlisted : id ∈ (step c e).blacklist
  · rw [worth_of_listed hlisted]
    exact ⟨Nat.zero_le _, fun hid _ => by have := h.worth_pos hid; omega⟩
  have hno : id ∉ c.blacklist := fun hid => hlisted (hbl.mpr (.inl hid))
  have hpos := h.worth_pos hno
  rw [worth_of_unlisted hlisted, worth_of_unlisted hno, hst]
  rw [worth_of_unlisted hno] at hpos
  refine ⟨by omega, fun _ hcharged => ?_⟩
  have hsil : 0 < silences id c e :=
    hcharged.resolve_right fun hc => hlisted (hbl.mpr (.inr (.inl hc)))
  omega

/-- The signers whom the event costs a strike. -/
def Charges (c : Coord) (e : Event) (id : Nat) : Prop :=
  id ∉ c.blacklist ∧ (0 < silences id c e ∨ Condemns id c e)

open Classical in
theorem worths_step (h : Bars c) (hsig : Signing c) {e : Event} (hclock : e.Clock)
    {F : Finset Nat} (hF : ∀ id ∈ F, 1 ≤ id ∧ id ≤ maxSigners) :
    (F.filter (Charges c e)).card + worths F (step c e) ≤ worths F c := by
  rw [Finset.card_filter, worths, worths, ← Finset.sum_add_distrib]
  refine Finset.sum_le_sum fun id hid => ?_
  obtain ⟨h1, h2⟩ := worth_step h hsig hclock (hF id hid).1 (hF id hid).2
  split
  · next hc =>
    have := h2 hc.1 hc.2
    omega
  · omega

/-- Only signers of `F` are late or condemned in the event. -/
def Confined (F : Finset Nat) (c : Coord) (e : Event) : Prop :=
  ∀ id, 1 ≤ id → id ≤ maxSigners → 0 < silences id c e ∨ Condemns id c e → id ∈ F

/-- An overdue session has a member that owes its share. -/
theorem Poised.debtor (h : Poised c) (hd : c.signingDone = false)
    (hk : (c.sessions k).state = .awaitingShares) :
    ∃ id ∈ (c.sessions k).signerIds, silent c k id = true := by
  have hlt := h.owing k hk hd
  rw [← h.staffed.size k hk] at hlt
  have hsome : ∃ i ∈ List.range (c.sessions k).signerIds.length,
      ¬ 0 < ((c.sessions k).shares i).length := by
    by_contra hall
    have hfull : (c.sessions k).filled = (List.range (c.sessions k).signerIds.length).length := by
      refine List.countP_eq_length.mpr fun i hi => decide_eq_true ?_
      by_contra hno
      exact hall ⟨i, hi, hno⟩
    rw [List.length_range] at hfull
    omega
  obtain ⟨i, hi, hlen⟩ := hsome
  have hi := List.mem_range.mp hi
  have hmem : (c.sessions k).signerIds[i] ∈ (c.sessions k).signerIds := List.getElem_mem hi
  refine ⟨_, hmem, ?_⟩
  unfold silent
  simp only [Bool.and_eq_true, List.any_eq_true, decide_eq_true_eq]
  have hzero : ((c.sessions k).shares i).length = 0 := by omega
  refine ⟨h.staffed.registered k hk _ hmem, ((c.sessions k).signerIds[i], i), ?_, rfl, hzero⟩
  exact List.mem_zipIdx_iff_getElem?.mpr (List.getElem?_eq_getElem hi)

theorem mem_of_silent (h : silent c k id = true) : id ∈ (c.sessions k).signerIds := by
  unfold silent at h
  simp only [Bool.and_eq_true, List.any_eq_true, decide_eq_true_eq] at h
  obtain ⟨-, p, hp, rfl, -⟩ := h
  exact List.fst_mem_of_mem_zipIdx hp

open Classical in
/-- **The scan**: each session that fails costs a signer of its own. -/
theorem Poised.expire_charges (h : Poised c) (hsig : Signing c) {now : Nat}
    {env : Fin maxSessions → Env} {F : Finset Nat} (hs : Steady c (.expire now env))
    (hF : Confined F c (.expire now env)) :
    failures c (.expire now env) ≤ (F.filter (Charges c (.expire now env))).card := by
  by_cases hrun : c.exited = false ∧ c.signingDone = false
  swap
  · have hsame : Coordinator.step c (.expire now env) = c := by
      cases hx : c.exited with
      | true => exact step_exited hx _
      | false => rw [step_expire hx, if_neg fun h' => hrun ⟨hx, h'.2⟩]
    refine le_of_eq_of_le (Finset.card_eq_zero.mpr ?_) (Nat.zero_le _)
    refine Finset.filter_eq_empty_iff.mpr fun k _ hk => ?_
    rw [hsame, hk.1] at hk
    cases hk.2
  obtain ⟨hx, hd⟩ := hrun
  have hstep : Coordinator.step c (.expire now env) = roastExpireSessions c now env := by
    rw [step_expire hx, if_pos ⟨hsig.mode, hd⟩]
  have hscan : Scanned now c (roastExpireSessions c now env) (List.finRange maxSessions) :=
    (Scanned.all h.bars hs (List.nodup_finRange maxSessions)).1
  unfold failures
  rw [hstep]
  refine Finset.card_le_card_of_forall_subsingleton (fun k id => silent c k id = true)
    (fun k hk => ?_) fun id _ k hk l hl => ?_
  · obtain ⟨-, hopen, hfail⟩ := Finset.mem_filter.mp hk
    have hover : overdue c now k = true := by
      have hused := hscan.used k (by rw [hopen]; exact nofun)
      rw [hused] at hfail
      by_contra hno
      rw [if_neg fun h' => hno h'.2, hopen] at hfail
      cases hfail
    obtain ⟨id, hmem, hsil⟩ := h.debtor hd hopen
    obtain ⟨h1, h2⟩ := (h.bars.sess k hopen).range id hmem
    have hboth : (overdue c now k && silent c k id) = true := by simp [hover, hsil]
    have hpos : 0 < silences id c (.expire now env) := by
      have hsum : silences id c (.expire now env) = (List.finRange maxSessions).countP fun k =>
          overdue c now k && silent c k id := if_pos ⟨hx, hd⟩
      rw [hsum, List.countP_pos_iff]
      exact ⟨k, List.mem_finRange k, hboth⟩
    exact ⟨id, Finset.mem_filter.mpr ⟨hF id h1 h2 (.inl hpos),
      h.staffed.unlisted k hopen id hmem, .inl hpos⟩, hsil⟩
  · obtain ⟨hk, hsk⟩ := hk
    obtain ⟨hl, hsl⟩ := hl
    exact h.apart.disjoint k l (Finset.mem_filter.mp hk).2.1 (Finset.mem_filter.mp hl).2.1 id
      (mem_of_silent hsk) (mem_of_silent hsl)

/-- What the answer of `aggregate` fails is the session it is about. -/
theorem onAggregate_failed {env : Env} {r : AggregateResult} {j : Fin maxSessions}
    (hj : (c.sessions j).state = .awaitingShares)
    (hfail : ((onAggregate c env k r).sessions j).state = .failed) :
    j = k ∧ (Unattributed r ∨ ∃ x, r = .culprit x) := by
  have hclosed {c' : Coord} {p : RSessState} (hse : c'.sessions = (c.closeSession k p).sessions)
      (hf : (c'.sessions j).state = .failed) : j = k ∧ p = .failed := by
    rw [hse] at hf
    unfold Coord.closeSession at hf
    by_cases e : j = k
    · rw [e, Coord.setSession_self] at hf
      exact ⟨e, hf⟩
    · rw [Coord.setSession_of_ne e, hj] at hf
      cases hf
  have hfall (hf : ((blacklistSession c k).sessions j).state = .failed) : j = k := by
    obtain ⟨_, _, e⟩ := blacklistSession_shape c k
    obtain ⟨_, _, _, e'⟩ := blacklistMembers_recOnly c k
    exact (hclosed (p := .failed) (by rw [e, e']) hf).1
  cases r with
  | notRun => rw [show onAggregate c env k .notRun = c from rfl, hj] at hfail; cases hfail
  | sig bytes =>
    dsimp only [onAggregate] at hfail
    split at hfail
    · next hlen => exact ⟨hfall hfail, .inl hlen⟩
    · cases (hclosed (aggregateOk_shape c env k bytes).2.2.2 hfail).2
  | culprit x =>
    refine ⟨?_, .inr ⟨x, rfl⟩⟩
    dsimp only [onAggregate] at hfail
    split at hfail
    · have hfail : ((tryForm (culpritReset c k x) env).sessions j).state = .failed := hfail
      rcases (tryForm_slots (culpritReset c k x) env).2 j with e | ⟨-, e, -⟩
      · rw [e] at hfail
        obtain ⟨_, _, _, e'⟩ := culpritReset_recOnly c k x
        exact (hclosed (p := .failed) (by rw [e']) hfail).1
      · rw [e] at hfail
        cases hfail
    · exact hfall hfail
  | failed => exact ⟨hfall hfail, .inl trivial⟩

theorem condemned_all {r : AggregateResult} (h : Unattributed r) :
    condemned c k r = (c.sessions k).signerIds := by
  cases r with
  | notRun => cases h
  | sig bytes => exact if_pos h
  | culprit x => exact if_neg h
  | failed => rfl

open Classical in
/-- **A share**: the session that fails costs whom `aggregate` condemns. -/
theorem Poised.frame_charges (h : Poised c) (hroster : Roster c) {i : Nat} {f : Frame} {env : Env}
    {F : Finset Nat} {stdin : AggregateInput} (hs : Steady c (.frame i f env))
    (hF : Confined F c (.frame i f env))
    (hcall : aggregateCall c (.frame i f env) = some (k, stdin)) :
    failures c (.frame i f env) ≤ (F.filter (Charges c (.frame i f env))).card := by
  obtain ⟨slot, hstep, -, -, -, hk, -, hmem, -⟩ := h.called hcall
  obtain ⟨-, hname, -⟩ := hs k stdin hcall
  have hi : i ∈ c.signers := by
    obtain ⟨_, _, _, _, e, hat, -⟩ := aggregateCall_some hcall
    cases e
    exact hat.registered
  have hopen (j : Fin maxSessions) := fileShare_open c k j slot i f.payload
  by_cases hnone : failures c (.frame i f env) = 0
  · rw [hnone]
    exact Nat.zero_le _
  have hsub : (Finset.univ.filter fun j => (c.sessions j).state = .awaitingShares ∧
      ((Coordinator.step c (.frame i f env)).sessions j).state = .failed) ⊆ {k} := by
    intro j hj
    obtain ⟨-, hj1, hj2⟩ := Finset.mem_filter.mp hj
    rw [hstep] at hj2
    exact Finset.mem_singleton.mpr (onAggregate_failed ((hopen j).1.trans hj1) hj2).1
  obtain ⟨j, hj⟩ := Finset.card_pos.mp (Nat.pos_of_ne_zero hnone)
  obtain ⟨-, hj1, hj2⟩ := Finset.mem_filter.mp hj
  rw [hstep] at hj2
  obtain ⟨-, hwhy⟩ := onAggregate_failed ((hopen j).1.trans hj1) hj2
  -- somebody of the session is condemned
  obtain ⟨x, hx, hcond⟩ : ∃ x ∈ (c.sessions k).signerIds,
      x ∈ condemned c k (env.aggregate stdin) := by
    have hfirst : ∃ x, x ∈ (c.sessions k).signerIds := by
      refine List.exists_mem_of_length_pos ?_
      rw [h.staffed.size k hk]
      exact (hroster.size (List.ne_nil_of_mem hi)).2.2.1
    rcases hwhy with hun | ⟨x, hr⟩
    · obtain ⟨x, hx⟩ := hfirst
      exact ⟨x, hx, condemned_all hun ▸ hx⟩
    · obtain ⟨p, hp, rfl⟩ := List.mem_map.mp (hname x hr)
      have hin := hmem p hp
      obtain ⟨h1, h2⟩ := (h.bars.sess k hk).range p.1 hin
      have hone : condemned c k (.culprit p.1) = [p.1] := if_pos ⟨h1, h2⟩
      exact ⟨p.1, hin, by rw [hr, hone]; exact List.mem_singleton_self _⟩
  obtain ⟨h1, h2⟩ := (h.bars.sess k hk).range x hx
  have hc : Condemns x c (.frame i f env) := ⟨i, f, env, k, stdin, rfl, hcall, hcond⟩
  have hin : x ∈ F.filter (Charges c (.frame i f env)) :=
    Finset.mem_filter.mpr ⟨hF x h1 h2 (.inr hc), h.staffed.unlisted k hk x hx, .inr hc⟩
  exact (Finset.card_le_card hsub).trans
    ((Finset.card_singleton k).trans_le (Finset.card_pos.mpr ⟨x, hin⟩))

/-- Nothing fails in any other event. -/
theorem failures_aside (hsig : Signing c) {e : Event} (hexp : ∀ now env, e ≠ .expire now env)
    (hcall : aggregateCall c e = none) : failures c e = 0 := by
  have hnone (hkeep : ∀ k, (c.sessions k).state = .awaitingShares →
      ((step c e).sessions k).state ≠ .failed) : failures c e = 0 :=
    Finset.card_eq_zero.mpr (Finset.filter_eq_empty_iff.mpr fun k _ hk => hkeep k hk.1 hk.2)
  have hsame (hse : (step c e).sessions = c.sessions) : failures c e = 0 :=
    hnone fun k hk => by rw [hse, hk]; exact nofun
  cases hx : c.exited with
  | true => exact hsame (by rw [step_exited hx])
  | false =>
  cases e with
  | expire now env => exact absurd rfl (hexp now env)
  | loopHead env =>
    have hexit : (exitIfQuiet c).sessions = c.sessions := by
      unfold exitIfQuiet
      split <;> rfl
    have hhead : (loopHead c env).sessions = c.sessions ∨
        (loopHead c env).sessions = fun _ => RoastSession.zero := by
      unfold loopHead
      split; · exact .inl hexit
      split
      · split
        · obtain ⟨_, e⟩ := broadcastSignReq_sgOnly (resume (prepareTbs (advanceSerial c) env).1)
          unfold nextMint
          rw [e]
          obtain ⟨_, _, _, e' | e'⟩ := prepareTbs_cases (advanceSerial c) env
          · rw [e']; exact .inl rfl
          · rw [e']; exact .inr rfl
        · exact .inl hexit
      split
      · exact .inl hexit
      · exact .inl rfl
    rcases hhead with e | e
    · exact hsame (by rw [step_loopHead hx, e])
    · exact hnone fun k _ => by rw [step_loopHead hx, e]; exact nofun
  | hello env payload =>
    refine hsame ?_
    rw [step_hello hx]
    rcases onHello_taken c env payload with e | ⟨pid, pn, pt, -, -, e | ⟨-, e⟩⟩
    · rw [e]
    · rw [e]
    · have hm : ({ c with n := pn, t := pt } : Coord).mode = .sign := hsig.mode
      obtain ⟨_, hshape⟩ := promote_shape hm pid
      rw [e, hshape]
  | drain i =>
    refine hsame ?_
    rw [step_drain hx]
    split <;> rfl
  | disconnect i =>
    refine hsame ?_
    rw [step_disconnect hx]
    split <;> rfl
  | frame i f env =>
    by_cases hi : i ∈ c.signers
    swap
    · exact hsame (by rw [step_frame hx, if_neg hi])
    have hstep := step_frame_of_mem hx hi f env
    by_cases hsign : MsgType.signing f.type = true
    · unfold processSignerFrame at hstep
      cases e : f.type with
      | commit =>
        rw [e] at hstep
        dsimp only at hstep
        rcases onCommit_cases c env i f with e' | ⟨-, e'⟩
        · exact hsame (by rw [hstep, e'])
        · refine hnone fun k hk => ?_
          rw [hstep, e']
          rcases (tryForm_slots (storeCommit c i f) env).2 k with e'' | ⟨hempty, -⟩
          · rw [e'', show (storeCommit c i f).sessions = c.sessions from rfl, hk]
            exact nofun
          · rw [show (storeCommit c i f).sessions = c.sessions from rfl, hk] at hempty
            cases hempty
      | sigShare =>
        rcases @step_sigShare_cases c i f env hx hi e with e' | ⟨k, slot, -, e' | ⟨_, h', -⟩⟩
        · exact hsame (by rw [e'])
        · refine hnone fun j hj => ?_
          rw [e', (fileShare_open c k j slot i f.payload).1, hj]
          exact nofun
        · rw [hcall] at h'
          cases h'
      | shareLoadFail =>
        rw [e] at hstep
        exact hsame (by rw [hstep]; rfl)
      | _ => rw [e] at hsign; cases hsign
    · refine hsame ?_
      rw [hstep]
      exact (ceremony_idle hsig.mode hsig.dkgState env i f (by simpa using hsign)).sessions

/-! ## Every run -/

theorem Steady.clock {e : Event} (h : Steady c e) : e.Clock := by
  cases e with
  | expire now env => exact h
  | _ => trivial

open Classical in
theorem Poised.charges (h : Poised c) (hsig : Signing c) (hroster : Roster c) {e : Event}
    {F : Finset Nat} (hs : Steady c e) (hF : Confined F c e) :
    failures c e ≤ (F.filter (Charges c e)).card := by
  cases e with
  | expire now env => exact h.expire_charges hsig hs hF
  | frame i f env =>
    cases hcall : aggregateCall c (.frame i f env) with
    | none =>
      rw [failures_aside hsig (by simp) hcall]
      exact Nat.zero_le _
    | some p => exact h.frame_charges hroster hs hF hcall
  | _ =>
    rw [failures_aside hsig (by simp) rfl]
    exact Nat.zero_le _

theorem Started.poised {c₀ : Coord} (h₀ : Started c₀) (hm : c₀.mode = .sign) : Poised c₀ := by
  have hun := h₀.unused
  have hempty (k : Fin maxSessions) : (c₀.sessions k).state ≠ .awaitingShares := by
    rw [hun.sessions]
    exact nofun
  exact ⟨hun.apart hm, h₀.bars, ⟨fun k hk => absurd hk (hempty k), fun k hk => absurd hk (hempty k),
    fun k hk => absurd hk (hempty k), fun k hk => absurd hk (hempty k)⟩,
    fun k hk => absurd hk (hempty k)⟩

/-- **Robustness.** Along every run of sign mode in which members of open sessions stay
connected, `aggregate` runs and names members only, and a failure without a name finds
nobody else in a session: if only signers of `F` miss deadlines or are condemned, at most
`MAX_STRIKES` sessions fail for each of them, in all certificates of the run together. -/
theorem roast_robust {c₀ : Coord} (h₀ : Started c₀) (hm : c₀.mode = .sign) {F : Finset Nat}
    {es : List Event} (hes : Along step (fun c e => Steady c e ∧ Confined F c e) c₀ es) :
    total step failures c₀ es ≤ maxStrikes * F.card := by
  classical
  let G := F.filter fun id => 1 ≤ id ∧ id ≤ maxSigners
  have hG : ∀ id ∈ G, 1 ≤ id ∧ id ≤ maxSigners := fun id hid => (Finset.mem_filter.mp hid).2
  have hstart : Poised c₀ ∧ Signing c₀ ∧ Roster c₀ ∧ Unclaimed c₀ := by
    refine ⟨h₀.poised hm, h₀.signing hm, h₀.roster, fun _ => ?_⟩
    have hun := h₀.unused
    exact ⟨hun.signers, fun k => by rw [hun.sessions]; exact nofun⟩
  have hbound : total step failures c₀ es + worths G (run step c₀ es) ≤
      worths G c₀ + total step (fun _ _ => 0 * 0) c₀ es := by
    refine total_le_of_potential failures (fun _ _ => 0 * 0) (worths G)
      (I := fun c => Poised c ∧ Signing c ∧ Roster c ∧ Unclaimed c) (fun c e hi hc => ?_)
      (fun c e hi hc => ?_) hstart hes
    · exact ⟨hi.1.step hi.2.1 hi.2.2.1 hi.2.2.2 hc.1, hi.2.1.step e, hi.2.2.1.step e,
        hi.2.2.2.step hi.2.1 e⟩
    · have hconf : Confined G c e := fun id h1 h2 hid =>
        Finset.mem_filter.mpr ⟨hc.2 id h1 h2 hid, h1, h2⟩
      have h1 := hi.1.charges hi.2.1 hi.2.2.1 hc.1 hconf
      have h2 := worths_step hi.1.bars hi.2.1 hc.1.clock hG
      omega
  rw [total_mul, Nat.zero_mul, Nat.add_zero] at hbound
  have hworth : worths G c₀ ≤ maxStrikes * F.card := by
    refine (Finset.sum_le_card_nsmul G _ maxStrikes fun id _ => ?_).trans ?_
    · unfold worth
      split
      · exact Nat.zero_le _
      · exact Nat.sub_le _ _
    · rw [nsmul_eq_mul, Nat.cast_id, Nat.mul_comm]
      exact Nat.mul_le_mul_left _ (Finset.card_filter_le _ _)
  omega

/-- An event without a call of `aggregate` condemns nobody. -/
theorem not_condemns {e : Event} (h : (aggregateCall c e).isNone = true) : ¬ Condemns id c e := by
  rintro ⟨i, f, env, k, stdin, rfl, hcall, -⟩
  rw [hcall] at h
  cases h

theorem Steady.uncalled {i : Nat} {f : Frame} {env : Env}
    (h : (aggregateCall c (.frame i f env)).isNone = true) : Steady c (.frame i f env) := by
  intro k stdin hcall
  rw [hcall] at h
  cases h

/-- Signer 2 misses the deadline of the one session. -/
def lateRun : List Event := openingRun ++ [sends 1 .sigShare [9]] ++
  [.expire sessionTimeout fun _ => { quietEnv with now := sessionTimeout }]

theorem roast_robust_run :
    total step failures (signStart 2 2 1) lateRun = 1 ∧
      total step failures (signStart 2 2 1) lateRun ≤
        maxStrikes * ({2} : Finset Nat).card := by
  have hcalls : Along step (fun c e => (aggregateCall c e).isNone = true) (signStart 2 2 1)
      lateRun := by decide +kernel
  have hlate : Along step (fun c e => ∀ id ∈ List.range' 1 maxSigners,
      0 < silences id c e → id = 2) (signStart 2 2 1) lateRun := by decide +kernel
  have hkind : Along step (fun _ e => (∃ i, e = joins i 2 2) ∨ (∃ i type p, e = sends i type p) ∨
      e = .expire sessionTimeout fun _ => { quietEnv with now := sessionTimeout })
      (signStart 2 2 1) lateRun := by
    refine .of_mem fun e he s => ?_
    simp only [lateRun, openingRun, List.mem_append, List.mem_cons, List.not_mem_nil,
      or_false] at he
    rcases he with ((rfl | rfl | rfl | rfl) | rfl) | rfl
    · exact .inl ⟨1, rfl⟩
    · exact .inl ⟨2, rfl⟩
    · exact .inr (.inl ⟨1, _, _, rfl⟩)
    · exact .inr (.inl ⟨2, _, _, rfl⟩)
    · exact .inr (.inl ⟨1, _, _, rfl⟩)
    · exact .inr (.inr rfl)
  have hes := ((hcalls.and hlate).and hkind).mono
    (D := fun c e => Steady c e ∧ Confined {2} c e) fun c e h => by
      refine ⟨?_, fun id h1 h2 hcharged => ?_⟩
      · rcases h.2 with ⟨i, rfl⟩ | ⟨i, type, p, rfl⟩ | rfl
        · trivial
        · exact .uncalled h.1.1
        · exact fun _ => Nat.le_refl _
      · have hsil := hcharged.resolve_right (not_condemns h.1.1)
        exact Finset.mem_singleton.mpr
          (h.1.2 id (List.mem_range'_1.mpr ⟨h1, by omega⟩) hsil)
  exact ⟨by decide +kernel,
    roast_robust (signStart_started (by decide) (by decide) (by decide)) rfl hes⟩

end FrostSshCa.Coordinator
