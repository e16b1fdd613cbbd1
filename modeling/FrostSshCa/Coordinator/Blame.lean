import FrostSshCa.Lib.Amortised
import FrostSshCa.Coordinator.Expiry

/-!
# Why a signer is blacklisted

Over a whole run the strikes of a signer are the overdue sessions that owed an answer of
it, and it is blacklisted for two of them or because an answer of `aggregate` condemned
it: nothing else puts an id on the list, and nothing takes one off.
-/

namespace FrostSshCa.Coordinator

open Lib

variable {c d : Coord} {id : Nat}

/-- The overdue sessions that owe an answer of `id` when the event is handled. -/
def silences (id : Nat) (c : Coord) : Event → Nat
  | .expire now _ =>
    if c.exited = false ∧ c.signingDone = false then
      (List.finRange maxSessions).countP fun k => overdue c now k && silent c k id
    else 0
  | _ => 0

/-- The event has `aggregate` condemn `id`. -/
def Condemns (id : Nat) (c : Coord) (e : Event) : Prop :=
  ∃ i f env k stdin, e = .frame i f env ∧ aggregateCall c e = some (k, stdin) ∧
    id ∈ condemned c k (env.aggregate stdin)

/-! ## The answer of `aggregate` -/

/-- No strike is given but by the scan. -/
theorem onAggregate_strikes (c : Coord) (env : Env) (k : Fin maxSessions) (r : AggregateResult) :
    (onAggregate c env k r).strikes = c.strikes := by
  have hsg {c c' : Coord} (h : SgOnly c c') : c'.strikes = c.strikes := by
    obtain ⟨_, rfl⟩ := h
    rfl
  have hbl (c : Coord) (x : Nat) :
      (setPhase (blacklistSigner c x) x .blacklisted).strikes = c.strikes := by
    obtain ⟨_, e⟩ := blacklistSigner_shape c x
    rw [hsg (setPhase_sgOnly ..), e]
  have hsession : (blacklistSession c k).strikes = c.strikes := by
    obtain ⟨_, _, e⟩ := blacklistSession_shape c k
    rw [e]
    exact foldl_frame Coord.strikes (fun d x _ => hbl d x) (c.closeSession k .failed)
  cases r with
  | notRun => rfl
  | sig bytes =>
    dsimp only [onAggregate]
    split
    · exact hsession
    · unfold aggregateOk callMint
      split
      · rfl
      · next d hd =>
        obtain ⟨cert, -, rfl⟩ := Option.map_eq_some_iff.mp hd
        rw [hsg (broadcast_sgOnly (countCert (finishSession c k) cert) .certOutput [])]
        rfl
  | culprit x =>
    dsimp only [onAggregate]
    split
    · have hreset : (culpritReset c k x).strikes = c.strikes := by
        have h1 := hbl (c.closeSession k .failed) x
        refine Eq.trans (foldl_frame Coord.strikes (fun d y _ => ?_) _) h1
        split
        · exact hsg (requestCommit_sgOnly ..)
        · rfl
      show (tryForm (culpritReset c k x) env).strikes = c.strikes
      rcases tryForm_cases (culpritReset c k x) env with e | ⟨j, spkg, wire, -, e⟩
      · rw [e, hreset]
      · obtain ⟨_, hshape⟩ := openSession_sgOnly (culpritReset c k x) j
          (chooseSigners (culpritReset c k x)) spkg wire env.now
        rw [e, hshape]
        exact hreset
    · exact hsession
  | failed => exact hsession

/-- **Who is condemned is blacklisted, and nobody else.** -/
theorem onAggregate_blacklist (h : Bars c) {k : Fin maxSessions}
    (hk : (c.sessions k).state = .awaitingShares) (env : Env) (r : AggregateResult)
    (h1 : 1 ≤ id) (h2 : id ≤ maxSigners) :
    id ∈ (onAggregate c env k r).blacklist ↔ id ∈ c.blacklist ∨ id ∈ condemned c k r := by
  have hr := (h.sess k hk).range
  have hsession : id ∈ (blacklistSession c k).blacklist ↔
      id ∈ c.blacklist ∨ id ∈ (c.sessions k).signerIds := by
    obtain ⟨_, _, e⟩ := blacklistSession_shape c k
    rw [e]
    exact ((blacklistMembers_moves h.black k hr).2.blacklist id h1 h2).trans
      (or_congr_right decide_eq_true_iff)
  cases r with
  | notRun => simp [onAggregate, condemned]
  | sig bytes =>
    dsimp only [onAggregate, condemned]
    split
    · exact hsession
    · have hsame : (aggregateOk c env k bytes).blacklist = c.blacklist := by
        unfold aggregateOk callMint
        split
        · rfl
        · next d hd =>
          obtain ⟨cert, -, rfl⟩ := Option.map_eq_some_iff.mp hd
          obtain ⟨_, e⟩ := broadcast_sgOnly (countCert (finishSession c k) cert) .certOutput []
          rw [e]
          rfl
      rw [hsame]
      simp
  | culprit x =>
    dsimp only [onAggregate, condemned]
    split
    · next hx =>
      show id ∈ (tryForm (culpritReset c k x) env).blacklist ↔ _
      rw [tryForm_blacklist, (culpritReset_moves h.black k hx.1 hx.2).2.blacklist id h1 h2]
      simp
    · exact hsession
  | failed => exact hsession

/-! ## Every event -/

/-- An event that has neither to do with: everything but a share and the scan. -/
theorem step_aside {e : Event} (hs : ∀ now env, e ≠ .expire now env)
    (hf : ∀ i f env, e = .frame i f env → f.type ≠ .sigShare) :
    (step c e).strikes = c.strikes ∧ (step c e).blacklist = c.blacklist := by
  cases hx : c.exited with
  | true =>
    rw [step_exited hx]
    exact ⟨rfl, rfl⟩
  | false =>
    cases e with
    | expire now env => exact absurd rfl (hs now env)
    | loopHead env =>
      have hexit : (exitIfQuiet c).strikes = c.strikes ∧
          (exitIfQuiet c).blacklist = c.blacklist := by
        unfold exitIfQuiet
        split <;> exact ⟨rfl, rfl⟩
      rw [step_loopHead hx]
      unfold loopHead
      split; · exact hexit
      split
      · split
        · obtain ⟨_, hshape⟩ := broadcastSignReq_sgOnly
            (resume (prepareTbs (advanceSerial c) env).1)
          unfold nextMint
          rw [hshape]
          obtain ⟨_, _, _, e | e⟩ := prepareTbs_cases (advanceSerial c) env <;> rw [e] <;>
            exact ⟨rfl, rfl⟩
        · exact hexit
      split
      · exact hexit
      · exact ⟨rfl, rfl⟩
    | hello env payload =>
      rw [step_hello hx]
      rcases onHello_taken c env payload with e | ⟨pid, pn, pt, -, -, e | ⟨-, e⟩⟩
      · rw [e]
        exact ⟨rfl, rfl⟩
      · rw [e]
        exact ⟨rfl, rfl⟩
      · obtain ⟨_, _, hshape⟩ := promote_flowOnly { c with n := pn, t := pt } pid
        rw [e, hshape]
        exact ⟨rfl, rfl⟩
    | drain i =>
      rw [step_drain hx]
      split <;> exact ⟨rfl, rfl⟩
    | disconnect i =>
      rw [step_disconnect hx]
      split <;> exact ⟨rfl, rfl⟩
    | frame i f env =>
      by_cases hi : i ∈ c.signers
      swap
      · rw [step_frame hx, if_neg hi]
        exact ⟨rfl, rfl⟩
      rw [step_frame_of_mem hx hi]
      by_cases hsig : MsgType.signing f.type = true
      · unfold processSignerFrame
        cases e : f.type with
        | commit =>
          dsimp only
          rcases onCommit_cases c env i f with e' | ⟨-, e'⟩
          · rw [e']
            exact ⟨rfl, rfl⟩
          · rw [e', tryForm_blacklist]
            rcases tryForm_cases (storeCommit c i f) env with e'' | ⟨j, spkg, wire, -, e''⟩
            · rw [e'']
              exact ⟨rfl, rfl⟩
            · obtain ⟨_, hshape⟩ := openSession_sgOnly (storeCommit c i f) j
                (chooseSigners (storeCommit c i f)) spkg wire env.now
              rw [e'', hshape]
              exact ⟨rfl, rfl⟩
        | sigShare => exact absurd e (hf i f env rfl)
        | shareLoadFail => exact ⟨rfl, rfl⟩
        | _ => rw [e] at hsig; cases hsig
      · obtain ⟨_, _, _, _, _, _, e⟩ :=
          processSignerFrame_ceremonyOnly c env i f (by simpa using hsig)
        rw [e]
        exact ⟨rfl, rfl⟩

/-- What a share leads to: nothing for the lists, or the answer of `aggregate`. -/
theorem step_share (h : Bars c) {i : Nat} {f : Frame} {env : Env}
    (hf : f.type = .sigShare) (h1 : 1 ≤ id) (h2 : id ≤ maxSigners) :
    (step c (.frame i f env)).strikes = c.strikes ∧
      (id ∈ (step c (.frame i f env)).blacklist ↔
        id ∈ c.blacklist ∨ Condemns id c (.frame i f env)) := by
  cases hcall : aggregateCall c (.frame i f env) with
  | some p =>
    obtain ⟨k, stdin⟩ := p
    obtain ⟨slot, hst, hstep⟩ := step_of_aggregateCall hcall
    have hk : ((fileShare c k slot i f.payload).sessions k).state = .awaitingShares := by
      rw [fileShare_session]
      exact (shareTarget_some c hst).open'
    have hsame : ((fileShare c k slot i f.payload).sessions k).signerIds =
        (c.sessions k).signerIds := by
      rw [fileShare_session]
    have hcond : condemned (fileShare c k slot i f.payload) k (env.aggregate stdin) =
        condemned c k (env.aggregate stdin) := by
      unfold condemned
      rw [hsame]
    rw [hstep]
    refine ⟨onAggregate_strikes .., (onAggregate_blacklist (h.fileShare k slot i f.payload) hk env
      _ h1 h2).trans (or_congr_right ?_)⟩
    rw [hcond]
    constructor
    · exact fun hmem => ⟨i, f, env, k, stdin, rfl, hcall, hmem⟩
    · rintro ⟨_, _, _, k', stdin', e, hcall', hmem⟩
      cases e
      rw [hcall] at hcall'
      cases hcall'
      exact hmem
  | none =>
    have hno : ¬ Condemns id c (.frame i f env) := by
      rintro ⟨_, _, _, _, _, _, hcall', -⟩
      rw [hcall] at hcall'
      cases hcall'
    have hlists : (step c (.frame i f env)).strikes = c.strikes ∧
        (step c (.frame i f env)).blacklist = c.blacklist := by
      cases hx : c.exited with
      | true =>
        rw [step_exited hx]
        exact ⟨rfl, rfl⟩
      | false =>
        by_cases hi : i ∈ c.signers
        swap
        · rw [step_frame hx, if_neg hi]
          exact ⟨rfl, rfl⟩
        rw [step_frame_of_mem hx hi]
        unfold processSignerFrame
        rw [hf]
        dsimp only
        rcases onSigShare_cases c env i f with e | ⟨k, slot, hst, e | ⟨stdin, hin, hn, e⟩⟩
        · rw [e]
          exact ⟨rfl, rfl⟩
        · rw [e]
          exact ⟨rfl, rfl⟩
        · -- the subprocess would have been started
          exfalso
          unfold aggregateCall at hcall
          dsimp only at hcall
          rw [if_neg (by simp [hx, hi, hf]), hst] at hcall
          dsimp only at hcall
          rw [if_pos (show _ ≥ (fileShare c k slot i f.payload).t from hn), hin] at hcall
          cases hcall
    rw [hlists.1, hlists.2]
    exact ⟨rfl, (or_iff_left hno).symm⟩

theorem iterate_strike (m n : Nat) (b : Bool) (h : maxStrikes ≤ n → b = true) :
    strike^[m] (n, b) = (n + m, b || maxStrikes ≤ n + m) := by
  induction m with
  | zero =>
    by_cases hn : maxStrikes ≤ n
    · simp [h hn]
    · simp [hn]
  | succ m ih =>
    rw [Function.iterate_succ_apply', ih]
    unfold strike
    by_cases hm : maxStrikes ≤ n + m
    · have hm' : maxStrikes ≤ n + (m + 1) := by omega
      simp [hm, hm', Nat.add_assoc]
    · simp [hm, Nat.add_assoc]

/-- **One event** of sign mode. -/
theorem step_standing (h : Bars c) (hs : Signing c) {e : Event} (hclock : e.Clock) (h1 : 1 ≤ id)
    (h2 : id ≤ maxSigners) : getStrikes (step c e) id = getStrikes c id + silences id c e ∧
      (id ∈ (step c e).blacklist ↔ id ∈ c.blacklist ∨ Condemns id c e ∨
        maxStrikes ≤ getStrikes (step c e) id) := by
  -- where no strike is given, those who had theirs are on the list already
  have haside (e : Event) (hst : (step c e).strikes = c.strikes) (hsil : silences id c e = 0)
      (hbl : id ∈ (step c e).blacklist ↔ id ∈ c.blacklist ∨ Condemns id c e) :
      getStrikes (step c e) id = getStrikes c id + silences id c e ∧
        (id ∈ (step c e).blacklist ↔ id ∈ c.blacklist ∨ Condemns id c e ∨
          maxStrikes ≤ getStrikes (step c e) id) := by
    have hget : getStrikes (step c e) id = getStrikes c id := by
      unfold getStrikes
      rw [hst]
    refine ⟨by rw [hget, hsil]; rfl, hbl.trans ?_⟩
    rw [hget]
    constructor
    · exact fun h' => h'.imp_right .inl
    · rintro (h' | h' | h')
      · exact .inl h'
      · exact .inr h'
      · exact .inl (h.struck id h')
  have hnever {e : Event} (he : ∀ i f env, e = .frame i f env → f.type ≠ .sigShare) :
      ¬ Condemns id c e := by
    rintro ⟨i, f, env, k, stdin, rfl, hcall, -⟩
    obtain ⟨_, _, _, _, e, hat, -⟩ := aggregateCall_some hcall
    cases e
    exact he i f env rfl hat.type
  have hquiet (e : Event) (hexp : ∀ now env, e ≠ .expire now env)
      (hf : ∀ i f env, e = .frame i f env → f.type ≠ .sigShare) (hsil : silences id c e = 0) := by
    obtain ⟨h3, h4⟩ := step_aside (c := c) hexp hf
    exact haside e h3 hsil (by rw [h4]; exact (or_iff_left (hnever hf)).symm)
  cases e with
  | expire now env =>
    by_cases hrun : c.exited = false ∧ c.signingDone = false
    swap
    · have hsil : silences id c (.expire now env) = 0 := if_neg hrun
      have hsame : step c (.expire now env) = c := by
        cases hx : c.exited with
        | true => exact step_exited hx _
        | false =>
          rw [step_expire hx, if_neg fun h' => hrun ⟨hx, h'.2⟩]
      refine haside _ (by rw [hsame]) hsil ?_
      rw [hsame]
      refine (or_iff_left (hnever ?_)).symm
      intro _ _ _ h'
      cases h'
    · have hscan := (Scanned.all h hclock (List.nodup_finRange maxSessions)).1
      have hstep : step c (.expire now env) = roastExpireSessions c now env := by
        rw [step_expire hrun.1, if_pos ⟨hs.mode, hrun.2⟩]
      have hsil : silences id c (.expire now env) = (List.finRange maxSessions).countP fun k =>
          overdue c now k && silent c k id := if_pos hrun
      have hstand := hscan.standing id
      rw [← hsil] at hstand
      unfold standing at hstand
      have hold (hm : maxStrikes ≤ getStrikes c id) : isBlacklisted c id = true :=
        decide_eq_true (h.struck id hm)
      rw [iterate_strike _ _ _ hold] at hstand
      obtain ⟨e1, e2⟩ := Prod.mk.inj hstand
      rw [hstep]
      refine ⟨e1, ?_⟩
      have hcond : ¬ Condemns id c (.expire now env) := by
        refine hnever ?_
        intro _ _ _ h'
        cases h'
      show id ∈ (roastExpireSessions c now env).blacklist ↔ _ ∨ _ ∨
        maxStrikes ≤ getStrikes (roastExpireSessions c now env) id
      rw [show getStrikes (roastExpireSessions c now env) id = _ from e1, or_iff_right hcond]
      unfold isBlacklisted at e2
      rw [← Bool.decide_or, decide_eq_decide] at e2
      exact e2
  | frame i f env =>
    by_cases hf : f.type = .sigShare
    · obtain ⟨h3, h4⟩ := step_share h hf h1 h2
      exact haside _ h3 rfl h4
    · refine hquiet _ ?_ ?_ rfl
      · intro _ _ h'
        cases h'
      · intro _ _ _ h'
        cases h'
        exact hf
  | loopHead env => exact hquiet _ (by simp) (by simp) rfl
  | hello env payload => exact hquiet _ (by simp) (by simp) rfl
  | drain i => exact hquiet _ (by simp) (by simp) rfl
  | disconnect i => exact hquiet _ (by simp) (by simp) rfl

/-! ## Every run -/

/-- **Blame is exact.** Over every run of sign mode with a clock that does not go back, the
strikes of a signer are the overdue sessions that owed an answer of it, and it is
blacklisted if and only if these are `MAX_STRIKES` or an answer of `aggregate` condemned
it. -/
theorem blame_exact {c₀ : Coord} (h₀ : Started c₀) (hm : c₀.mode = .sign) {es : List Event}
    (hclock : ∀ e ∈ es, e.Clock) {id : Nat} (h1 : 1 ≤ id) (h2 : id ≤ maxSigners) :
    let c := run step c₀ es
    getStrikes c id = total step (silences id) c₀ es ∧
      (id ∈ c.blacklist ↔ maxStrikes ≤ total step (silences id) c₀ es ∨
        ∃ es₁ e es₂, es = es₁ ++ e :: es₂ ∧ Condemns id (run step c₀ es₁) e) := by
  induction es using List.reverseRecOn with
  | nil =>
    have hun := h₀.unused
    have hzero : getStrikes c₀ id = 0 := by
      unfold getStrikes
      rw [hun.strikes, ite_self]
    refine ⟨hzero, ?_⟩
    show id ∈ c₀.blacklist ↔ _
    rw [hun.blacklist]
    constructor
    · exact fun h => absurd h List.not_mem_nil
    · rintro (h | ⟨es₁, e, es₂, h, -⟩)
      · have hpos : 0 < maxStrikes := by decide
        rw [total_nil] at h
        omega
      · exact absurd h (by simp)
  | append_singleton es e ih =>
    obtain ⟨ih1, ih2⟩ := ih fun e he => hclock e (List.mem_append_left _ he)
    have hbars : Bars (run step c₀ es) :=
      run_invariant (I := Bars) (fun _ e h => h.step e) h₀.bars
    have hsign : Signing (run step c₀ es) :=
      run_invariant (I := Signing) (fun _ e h => h.step e) (h₀.signing hm)
    obtain ⟨h3, h4⟩ := step_standing hbars hsign
      (hclock e (List.mem_append_right _ (List.mem_singleton_self e))) h1 h2
    have htotal : total step (silences id) c₀ (es ++ [e]) =
        total step (silences id) c₀ es + silences id (run step c₀ es) e := by
      rw [total_append, total_cons, total_nil, Nat.add_zero]
    intro c
    have hc : c = step (run step c₀ es) e := run_concat c₀ es e
    have hstrikes : getStrikes c id = total step (silences id) c₀ (es ++ [e]) := by
      rw [hc, h3, ih1, htotal]
    refine ⟨hstrikes, ?_⟩
    rw [← hstrikes, hc, h4, ih2, ← ih1]
    constructor
    · rintro ((h | ⟨es₁, e', es₂, rfl, h⟩) | h | h)
      · exact .inl (by omega)
      · exact .inr ⟨es₁, e', es₂ ++ [e], by simp, h⟩
      · exact .inr ⟨es, e, [], rfl, h⟩
      · exact .inl h
    · rintro (h | ⟨es₁, e', es₂, he, h⟩)
      · exact .inr (.inr h)
      · rcases List.eq_nil_or_concat es₂ with rfl | ⟨es₂, e'', rfl⟩
        · obtain ⟨rfl, h'⟩ := List.append_inj' he rfl
          cases h'
          exact .inr (.inl h)
        · rw [List.concat_eq_append, ← List.cons_append, ← List.append_assoc] at he
          obtain ⟨rfl, -⟩ := List.append_inj' he rfl
          exact .inl (.inr ⟨es₁, e', es₂, rfl, h⟩)

/-- Signer 2 misses one deadline. -/
theorem blame_exact_run :
    let es := openingRun ++ [sends 1 .sigShare [9]] ++
      [.expire sessionTimeout fun _ => { quietEnv with now := sessionTimeout }]
    let c := run step (signStart 2 2 1) es
    getStrikes c 2 = 1 ∧ getStrikes c 2 = total step (silences 2) (signStart 2 2 1) es ∧
      (2 ∈ c.blacklist ↔ maxStrikes ≤ total step (silences 2) (signStart 2 2 1) es ∨
        ∃ es₁ e es₂, es = es₁ ++ e :: es₂ ∧
          Condemns 2 (run step (signStart 2 2 1) es₁) e) := by
  refine ⟨by decide +kernel, blame_exact (signStart_started (by decide) (by decide) (by decide))
    rfl ?_ (by decide) (by decide)⟩
  have hlast : ∀ e ∈ [Event.expire sessionTimeout
      fun _ => { quietEnv with now := sessionTimeout }], e.Clock :=
    List.forall_mem_singleton.mpr fun _ => Nat.le_refl _
  refine List.forall_mem_append.mpr ⟨?_, hlast⟩
  simp [openingRun, joins, sends, Event.Clock]

end FrostSshCa.Coordinator
