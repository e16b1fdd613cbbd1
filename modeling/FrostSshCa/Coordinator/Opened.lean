import FrostSshCa.Coordinator.Shares
import FrostSshCa.Coordinator.Table

/-!
# The bundle of each session

A session keeps the package made of its bundle, not the bundle. `openings` lists
the sessions a step opens with the bundles sent to their members, and `note` keeps
the last bundle of each slot; a step is then a chain that opens just these.
-/

namespace FrostSshCa.Coordinator

open Lib

/-- The bundle last sent for each slot. -/
abbrev History := Fin maxSessions → Option CommitBundle

/-- The session `tryForm` opens, if it does: its slot and its bundle. -/
def opening (c : Coord) (env : Env) : Option (Fin maxSessions × CommitBundle) :=
  (roastAlloc c).bind fun k =>
    if ((tryForm c env).sessions k).state = .awaitingShares then
      (buildBundle c (chooseSigners c)).map (k, ·)
    else none

instance (c : Coord) (i : Nat) (f : Frame) : Decidable (TakesCommit c i f) :=
  decidable_of_iff (((c.sg i).signPhase = .init ∨ (c.sg i).signPhase = .suspect) ∧
      f.payload.length ≤ commitEntryMax ∧ f.sig.length = frameSigSize)
    ⟨fun ⟨h1, h2, h3⟩ => ⟨h1, h2, h3⟩, fun ⟨h1, h2, h3⟩ => ⟨h1, h2, h3⟩⟩

/-- The sessions the scan for expired ones opens. -/
def expireOpenings (now : Nat) (env : Fin maxSessions → Env) :
    Coord → List (Fin maxSessions) → List (Fin maxSessions × CommitBundle)
  | _, [] => []
  | c, k :: ks =>
    (if (c.sessions k).state = .awaitingShares ∧ (c.sessions k).deadline ≤ now then
      (opening (expireMembers c k) (env k)).toList else []) ++
    expireOpenings now env (expireSlot c now (env k) k) ks

/-- The session opened after an answer of `aggregate` on session `k`. -/
def aggregateOpenings (c : Coord) (env : Env) (k : Fin maxSessions) :
    AggregateResult → List (Fin maxSessions × CommitBundle)
  | .culprit x => if 0 < x ∧ x ≤ maxSigners then (opening (culpritReset c k x) env).toList else []
  | _ => []

/-- The sessions an event opens in sign mode, first to last. -/
def openings (c : Coord) (e : Event) : List (Fin maxSessions × CommitBundle) :=
  if c.exited then []
  else match e with
    | .expire now env =>
      if c.signingDone = false then expireOpenings now env c (List.finRange maxSessions) else []
    | .frame i f env =>
      if i ∉ c.signers then []
      else match f.type with
        | .commit => if TakesCommit c i f then (opening (storeCommit c i f) env).toList else []
        | .sigShare =>
          match aggregateCall c (.frame i f env), shareTarget c i f with
          | some (k, stdin), some (_, slot) =>
            aggregateOpenings (fileShare c k slot i f.payload) env k (env.aggregate stdin)
          | _, _ => []
        | _ => []
    | _ => []

def note (g : History) (l : List (Fin maxSessions × CommitBundle)) : History :=
  l.foldl (fun g p => Function.update g p.1 (some p.2)) g

/-- A history that knows more knows more after the same step. -/
theorem note_mono {g g' : History} (h : ∀ k b, g k = some b → g' k = some b)
    (l : List (Fin maxSessions × CommitBundle)) :
    ∀ k b, note g l k = some b → note g' l k = some b := by
  induction l generalizing g g' with
  | nil => exact h
  | cons p l ih =>
    refine ih fun k b hk => ?_
    dsimp only at hk ⊢
    by_cases e : k = p.1
    · subst e
      rw [Function.update_self] at hk ⊢
      exact hk
    · rw [Function.update_of_ne e] at hk ⊢
      exact h k b hk

/-! ## Chains that note what they open -/

/-- Links that open no session. -/
def Scope.shut : Scope := ⟨fun _ => True, fun _ _ => True, fun _ => False⟩

/-- A link and the bundle it sends. -/
inductive Noted : Coord × History → Coord × History → Prop where
  | shut {c c' : Coord} {g : History} (h : Link .shut c c') : Noted (c, g) (c', g)
  | form {c : Coord} {g : History} {env : Env} {k : Fin maxSessions} {b : CommitBundle}
      {spkg wire : Bytes} (h : Forms c env k spkg wire)
      (hb : buildBundle c (chooseSigners c) = some b)
      (hw : packCommitBundle commitBundleWireMax b = some wire) :
      Noted (c, g) (openSession c k (chooseSigners c) spkg wire env.now,
        Function.update g k (some b))

/-- The links of a step. -/
def Notes : Coord × History → Coord × History → Prop := Relation.ReflTransGen Noted

variable {c c' d : Coord} {g : History}

/-- A link that opens no session leaves a registered signer idle, blacklists it or asks it. -/
theorem Link.shut_record (hl : Link .shut c c') (hd : c.signers.Nodup) (i : Nat) :
    RecIdle (c.sg i) (c'.sg i) ∨ c'.sg i = { c.sg i with signPhase := .blacklisted } ∨
      ∃ p, (p = .init ∨ p = .suspect) ∧ c'.sg i = (c.sg i).asked p c'.tbs := by
  cases hl with
  | idle h => exact .inl (h.sg i)
  | close _ _ => exact .inl (.refl _)
  | @black id _ =>
    rw [blacklist_sg]
    split
    · exact .inr (.inl rfl)
    · exact .inl (.refl _)
  | strike _ =>
    rw [addStrike_sg]
    exact .inl (.refl _)
  | @request p id hp _ _ =>
    by_cases e : i = id
    · subst e
      obtain ⟨_, e'⟩ := requestCommit_sgOnly c p i
      have htbs : (requestCommit c p i).tbs = c.tbs := by rw [e']
      refine .inr (.inr ⟨p, hp.imp_right And.left, ?_⟩)
      rw [requestCommit_self, htbs]
    · rw [requestCommit_of_ne e]
      exact .inl (.refl _)
  | form he _ => exact he.elim
  | @restart d hr _ =>
    obtain ⟨_, e⟩ := broadcastSignReq_sgOnly d
    have htbs : (broadcastSignReq d).tbs = d.tbs := by rw [e]
    rw [broadcastSignReq_sg (hr.signers ▸ hd) i, hr.sg, htbs]
    split
    · exact .inr (.inr ⟨.init, .inl rfl, rfl⟩)
    · exact .inl (.refl _)

theorem Link.shut_noneOpened (hl : Link .shut c c') : NoneOpened c c' := by
  rcases hl.opened with h | ⟨_, _, _, _, he, -, -⟩
  · exact h
  · exact he.elim

theorem note_append (g : History) (l l' : List (Fin maxSessions × CommitBundle)) :
    note g (l ++ l') = note (note g l) l' := List.foldl_append ..

theorem Chain.notes (h : Chain .shut c c') : Notes (c, g) (c', g) := by
  induction h with
  | refl => exact .refl
  | tail _ hl ih => exact ih.tail (.shut hl)

/-- An attempt to form a session. -/
theorem tryForm_notes (c : Coord) (env : Env) (g : History) :
    Notes (c, g) (tryForm c env, note g (opening c env).toList) := by
  unfold opening
  rcases tryForm_cases c env with e | ⟨k, spkg, wire, hf, e⟩
  · rw [e]
    -- the slot that would be taken is empty
    have hnone : ((roastAlloc c).bind fun k =>
        if (c.sessions k).state = .awaitingShares then
          (buildBundle c (chooseSigners c)).map (k, ·) else none) = none := by
      cases hk : roastAlloc c with
      | none => rfl
      | some k =>
        rw [Option.bind_some, (roastAlloc_some hk).1]
        rfl
    rw [hnone]
    exact .refl
  · rw [e]
    obtain ⟨b, hb, -, hw⟩ := hf.bundle
    have hopen : ((openSession c k (chooseSigners c) spkg wire env.now).sessions k).state =
        .awaitingShares := by
      rw [(openSession_sessions c k (chooseSigners c) spkg wire env.now).1]
      rfl
    rw [hf.slot, Option.bind_some, if_pos hopen, hb]
    exact .single (.form hf hb hw)

theorem expireSlot_notes (c : Coord) (now : Nat) (env : Env) (k : Fin maxSessions) (g : History) :
    Notes (c, g) (expireSlot c now env k, note g
      (if (c.sessions k).state = .awaitingShares ∧ (c.sessions k).deadline ≤ now then
        (opening (expireMembers c k) env).toList else [])) := by
  unfold expireSlot
  split
  · next h =>
    rw [if_neg fun h' => h h'.1]
    exact .refl
  next h =>
  split
  · next h' =>
    rw [if_neg fun h'' => absurd h''.2 (by omega)]
    exact .refl
  next h' =>
  rw [if_pos ⟨not_not.mp h, by omega⟩]
  have h1 : Chain .shut c (expireMembers c k) :=
    expireMembers_chain (not_not.mp h) (fun _ _ _ => trivial) fun _ _ => trivial
  exact h1.notes.trans (tryForm_notes _ env g)

theorem expire_notes (now : Nat) (env : Fin maxSessions → Env) :
    ∀ (ks : List (Fin maxSessions)) (c : Coord) (g : History),
      Notes (c, g) (ks.foldl (fun c k => expireSlot c now (env k) k) c,
        note g (expireOpenings now env c ks))
  | [], _, _ => .refl
  | k :: ks, c, g => by
    have h1 := expireSlot_notes c now (env k) k g
    have h2 := expire_notes now env ks (expireSlot c now (env k) k) (note g
      (if (c.sessions k).state = .awaitingShares ∧ (c.sessions k).deadline ≤ now then
        (opening (expireMembers c k) (env k)).toList else []))
    rw [expireOpenings, note_append]
    exact h1.trans h2

theorem onCommit_takes {i : Nat} {f : Frame} (hm : c.mode = .sign) (h : TakesCommit c i f)
    (env : Env) : onCommit c env i f = tryForm (storeCommit c i f) env := by
  have hlen : f.payload.length ≤ maxPayload := by
    have := h.size
    unfold commitEntryMax at this
    unfold maxPayload
    omega
  have hp : ¬ ((c.sg i).signPhase ≠ .init ∧ (c.sg i).signPhase ≠ .suspect) := by
    rcases h.phase with h' | h'
    · exact fun hne => hne.1 h'
    · exact fun hne => hne.2 h'
  have hs := h.size
  unfold onCommit
  rw [if_neg (by rw [hm]; exact fun h => h rfl), if_neg hp, if_neg (by omega),
    if_neg (not_not.mpr h.sigSize)]
  rfl

/-- The answer of `aggregate`: only a named culprit leads to a new session. -/
theorem onAggregate_notes {k : Fin maxSessions} (hk : (c.sessions k).state = .awaitingShares)
    (env : Env) (r : AggregateResult) (g : History) :
    Notes (c, g) (onAggregate c env k r, note g (aggregateOpenings c env k r)) := by
  cases r with
  | notRun => exact .refl
  | sig bytes =>
    dsimp only [onAggregate]
    split
    · exact (blacklistSession_chain hk (fun _ _ => trivial) fun _ _ => trivial).notes
    · exact (aggregateOk_chain hk env bytes).notes
  | culprit x =>
    dsimp only [onAggregate, aggregateOpenings]
    split
    · have hfail : Idle (tryForm (culpritReset c k x) env) (roastFailCulprit c env k x) :=
        .of_sg_eq rfl rfl rfl rfl rfl rfl rfl rfl rfl (.inl rfl) rfl
      have h1 : Chain .shut c (culpritReset c k x) :=
        culpritReset_chain hk trivial fun _ _ _ => trivial
      exact (h1.notes.trans (tryForm_notes _ env g)).trans hfail.chain.notes
    · exact (blacklistSession_chain hk (fun _ _ => trivial) fun _ _ => trivial).notes
  | failed =>
    exact (blacklistSession_chain hk (fun _ _ => trivial) fun _ _ => trivial).notes

theorem sigShare_notes {i : Nat} {f : Frame} {env : Env} (hx : c.exited = false)
    (hi : i ∈ c.signers) (hf : f.type = .sigShare) :
    ∃ d, Taken c (.frame i f env) d ∧ Notes (d, g) (step c (.frame i f env), note g
      (match aggregateCall c (.frame i f env), shareTarget c i f with
        | some (k, stdin), some (_, slot) =>
          aggregateOpenings (fileShare c k slot i f.payload) env k (env.aggregate stdin)
        | _, _ => [])) := by
  have hstep : step c (.frame i f env) = onSigShare c env i f := by
    rw [step_frame_of_mem hx hi]
    unfold processSignerFrame
    rw [hf]
  rw [hstep]
  unfold onSigShare aggregateCall
  dsimp only
  rw [if_neg (by simp [hx, hi, hf])]
  cases hst : shareTarget c i f with
  | none => exact ⟨c, .nothing _, .refl⟩
  | some p =>
    obtain ⟨k, slot⟩ := p
    have ht := shareTarget_some c hst
    have hk : ((fileShare c k slot i f.payload).sessions k).state = .awaitingShares := by
      rw [fileShare_session]
      exact ht.open'
    refine ⟨_, .share hi hf ht, ?_⟩
    dsimp only
    split
    · unfold roastTryAggregate
      cases hin : aggregateStdin (fileShare c k slot i f.payload) k with
      | none => exact .refl
      | some stdin =>
        exact onAggregate_notes hk env (env.aggregate stdin) g
    · exact .refl

/-- **A step opens the sessions listed, with the bundles listed.** -/
theorem step_notes (hm : c.mode = .sign) (hd : c.dkgState ≠ .collectingR1) (e : Event)
    (g : History) : ∃ d, Taken c e d ∧ Notes (d, g) (step c e, note g (openings c e)) := by
  unfold openings
  cases hx : c.exited with
  | true =>
    rw [step_exited hx, if_pos rfl]
    exact ⟨c, .nothing e, .refl⟩
  | false =>
    rw [if_neg Bool.false_ne_true]
    cases e with
    | loopHead env =>
      rw [step_loopHead hx]
      exact ⟨c, .nothing _, (loopHead_chain c env fun _ _ => trivial).notes⟩
    | expire now env =>
      rw [step_expire hx]
      refine ⟨c, .nothing _, ?_⟩
      dsimp only
      by_cases hs : c.signingDone = false
      · rw [if_pos ⟨hm, hs⟩, if_pos hs]
        exact expire_notes now env _ c g
      · rw [if_neg fun h => hs h.2, if_neg hs]
        exact .refl
    | hello env payload =>
      rw [step_hello hx]
      rcases onHello_taken c env payload with e | ⟨pid, pn, pt, hp, hnt, e | ⟨hr, e⟩⟩
      · rw [e]; exact ⟨c, .nothing _, .refl⟩
      · rw [e]; exact ⟨_, .claim hp hnt, .refl⟩
      · rw [e]; exact ⟨_, .signer hp hnt hr, .refl⟩
    | drain i =>
      rw [step_drain hx]
      split
      · next hi => exact ⟨_, .drained hi, .refl⟩
      · exact ⟨c, .nothing _, .refl⟩
    | disconnect i =>
      rw [step_disconnect hx]
      split
      · next hi => exact ⟨_, .gone hi, .refl⟩
      · exact ⟨c, .nothing _, .refl⟩
    | frame i f env =>
      by_cases hi : i ∈ c.signers
      · have hstep : step c (.frame i f env) = processSignerFrame c env i f :=
          step_frame_of_mem hx hi f env
        rw [hstep]
        dsimp only
        rw [if_neg (not_not.mpr hi)]
        by_cases hs : MsgType.signing f.type = true
        · cases e : f.type with
          | commit =>
            have hf : processSignerFrame c env i f = onCommit c env i f := by
              unfold processSignerFrame
              rw [e]
            rw [hf]
            dsimp only
            by_cases ht : TakesCommit c i f
            · rw [onCommit_takes hm ht, if_pos ht]
              exact ⟨_, .commit hi e ht, tryForm_notes _ env g⟩
            · rw [if_neg ht]
              rcases onCommit_cases c env i f with e' | ⟨ht', -⟩
              · rw [e']; exact ⟨c, .nothing _, .refl⟩
              · exact absurd ht' ht
          | sigShare =>
            rw [← hstep]
            dsimp only
            exact sigShare_notes hx hi e
          | shareLoadFail =>
            have hf : processSignerFrame c env i f = onShareLoadFail c i := by
              unfold processSignerFrame
              rw [e]
            rw [hf]
            exact ⟨_, .keyless hi e, .refl⟩
          | _ => rw [e] at hs; cases hs
        · have hidle : Chain .shut c (processSignerFrame c env i f) :=
            (ceremony_idle hm hd env i f (by simpa using hs)).chain
          refine ⟨c, .nothing _, ?_⟩
          cases e : f.type with
          | commit => rw [e] at hs; exact absurd rfl hs
          | sigShare => rw [e] at hs; exact absurd rfl hs
          | _ => exact hidle.notes
      · simp only [step, hx, hi, if_false, Bool.false_eq_true, not_false_eq_true, if_true]
        exact ⟨c, .nothing _, .refl⟩

end FrostSshCa.Coordinator
