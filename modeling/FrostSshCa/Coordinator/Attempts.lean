import FrostSshCa.Coordinator.Opened

/-!
# Where sessions are formed

`attempts` lists the states in which an event calls `roast_try_form_session`. Each of
them is reached by a chain of links from what the event writes, and the sessions an
event opens are the ones these calls open.
-/

namespace FrostSshCa.Coordinator

open Lib

/-- The calls of the scan for expired sessions, one after each session that fails. -/
def expireAttempts (now : Nat) (env : Fin maxSessions → Env) :
    Coord → List (Fin maxSessions) → List (Coord × Env)
  | _, [] => []
  | c, k :: ks =>
    (if (c.sessions k).state = .awaitingShares ∧ (c.sessions k).deadline ≤ now then
      [(expireMembers c k, env k)] else []) ++
    expireAttempts now env (expireSlot c now (env k) k) ks

/-- The call after an answer of `aggregate` on session `k`. -/
def aggregateAttempts (c : Coord) (env : Env) (k : Fin maxSessions) :
    AggregateResult → List (Coord × Env)
  | .culprit x => if 0 < x ∧ x ≤ maxSigners then [(culpritReset c k x, env)] else []
  | _ => []

/-- The states in which an event of sign mode tries to form a session, with the answers
the attempt gets. -/
def attempts (c : Coord) (e : Event) : List (Coord × Env) :=
  if c.exited then []
  else match e with
    | .expire now env =>
      if c.signingDone = false then expireAttempts now env c (List.finRange maxSessions) else []
    | .frame i f env =>
      if i ∉ c.signers then []
      else match f.type with
        | .commit => if TakesCommit c i f then [(storeCommit c i f, env)] else []
        | .sigShare =>
          match aggregateCall c (.frame i f env), shareTarget c i f with
          | some (k, stdin), some (_, slot) =>
            aggregateAttempts (fileShare c k slot i f.payload) env k (env.aggregate stdin)
          | _, _ => []
        | _ => []
    | _ => []

/-- What the attempts of a list open. -/
def opened (l : List (Coord × Env)) : List (Fin maxSessions × CommitBundle) :=
  l.filterMap fun p => opening p.1 p.2

variable {c d : Coord} {env : Env}

theorem opened_append (l l' : List (Coord × Env)) : opened (l ++ l') = opened l ++ opened l' :=
  List.filterMap_append ..

theorem opened_single (c : Coord) (env : Env) : opened [(c, env)] = (opening c env).toList := by
  unfold opened
  cases h : opening c env <;> simp [h]

theorem expireOpenings_eq (now : Nat) (env : Fin maxSessions → Env) (ks : List (Fin maxSessions)) :
    ∀ c : Coord, expireOpenings now env c ks = opened (expireAttempts now env c ks) := by
  induction ks with
  | nil => exact fun _ => rfl
  | cons k ks ih =>
    intro c
    rw [expireOpenings, expireAttempts, opened_append, ih]
    congr 1
    split
    · exact (opened_single _ _).symm
    · rfl

theorem aggregateOpenings_eq (c : Coord) (env : Env) (k : Fin maxSessions) (r : AggregateResult) :
    aggregateOpenings c env k r = opened (aggregateAttempts c env k r) := by
  cases r with
  | culprit x =>
    dsimp only [aggregateOpenings, aggregateAttempts]
    split
    · exact (opened_single _ _).symm
    · rfl
  | _ => rfl

/-- **The sessions an event opens** are the ones its attempts open. -/
theorem openings_eq (c : Coord) (e : Event) : openings c e = opened (attempts c e) := by
  unfold openings attempts
  split; · rfl
  cases e with
  | expire now env =>
    dsimp only
    split
    · exact expireOpenings_eq now env _ c
    · rfl
  | frame i f env =>
    dsimp only
    split; · rfl
    cases f.type with
    | commit =>
      dsimp only
      split
      · exact (opened_single _ _).symm
      · rfl
    | sigShare =>
      dsimp only
      cases aggregateCall c (.frame i f env) with
      | none => rfl
      | some p =>
        cases shareTarget c i f with
        | none => rfl
        | some q => exact aggregateOpenings_eq _ _ _ _
    | _ => rfl
  | _ => rfl

/-! ## How an attempt is reached -/

theorem expireSlot_chain (c : Coord) (now : Nat) (env : Env) (k : Fin maxSessions) :
    Chain .all c (expireSlot c now env k) := by
  unfold expireSlot
  split; · exact .refl c
  next hk =>
  split; · exact .refl c
  exact (expireMembers_chain (not_not.mp hk) (fun _ _ _ => trivial) fun _ _ => trivial).trans
    (tryForm_chain _ trivial)

theorem expireAttempts_chain (now : Nat) (envs : Fin maxSessions → Env)
    (ks : List (Fin maxSessions)) :
    ∀ {c : Coord}, (d, env) ∈ expireAttempts now envs c ks → Chain .all c d := by
  induction ks with
  | nil => exact fun h => nomatch h
  | cons k ks ih =>
    intro c h
    rw [expireAttempts] at h
    rcases List.mem_append.mp h with h | h
    · split at h
      · next hk =>
        cases List.mem_singleton.mp h
        exact expireMembers_chain hk.1 (fun _ _ _ => trivial) fun _ _ => trivial
      · cases h
    · exact (expireSlot_chain c now (envs k) k).trans (ih h)

/-- **Every attempt** is made after a chain of links from what the event writes. -/
theorem attempts_chain {e : Event} (h : (d, env) ∈ attempts c e) :
    ∃ x, Taken c e x ∧ Chain .all x d := by
  unfold attempts at h
  split at h; · cases h
  cases e with
  | expire now envs =>
    dsimp only at h
    split at h
    · exact ⟨c, .nothing _, expireAttempts_chain now envs _ h⟩
    · cases h
  | frame i f env' =>
    dsimp only at h
    split at h; · cases h
    next hi =>
    have hi := not_not.mp hi
    cases hf : f.type with
    | commit =>
      rw [hf] at h
      dsimp only at h
      split at h
      · next ht =>
        cases List.mem_singleton.mp h
        exact ⟨_, .commit hi hf ht, .refl _⟩
      · cases h
    | sigShare =>
      rw [hf] at h
      dsimp only at h
      split at h
      · next k stdin k' slot hcall hst =>
        obtain ⟨_, _, _, _, heq, hat, -⟩ := aggregateCall_some hcall
        cases heq
        cases hat.target.symm.trans hst
        have ht := shareTarget_some c hst
        have hk : ((fileShare c k slot i f.payload).sessions k).state = .awaitingShares := by
          rw [fileShare_session]
          exact ht.open'
        refine ⟨_, .share hi hf ht, ?_⟩
        unfold aggregateAttempts at h
        split at h
        · split at h
          · cases List.mem_singleton.mp h
            exact culpritReset_chain hk trivial fun _ _ _ => trivial
          · cases h
        · cases h
      · cases h
    | _ => rw [hf] at h; cases h
  | _ => cases h

/-! ## The states of sign mode -/

/-- What holds in sign mode, between two events and where an event tries to form a
session. -/
structure Signing (c : Coord) : Prop where
  mode : c.mode = .sign
  dkgState : c.dkgState ≠ .collectingR1
  table : Table c
  /-- Whoever is asked again under suspicion has no commitment left. -/
  suspect : ∀ i ∈ c.signers, (c.sg i).signPhase = .suspect → (c.sg i).commit = []

theorem Signing.link {S : Scope} (hl : Link S c d) (h : Signing c) : Signing d := by
  have hf := hl.framed
  refine ⟨hf.mode.trans h.mode, hf.notCollecting h.dkgState, h.table.link hl, fun i hi hp => ?_⟩
  have hi : i ∈ c.signers := hf.signers ▸ hi
  cases hl.record h.table.ids.distinct hi with
  | idle hr _ =>
    have hv := hr.view
    simp only [SignerRec.signView, Prod.mk.injEq] at hv
    rw [hv.1]
    exact h.suspect i hi (hv.2.2.1 ▸ hp)
  | black _ e _ => rw [e] at hp; cases hp
  | request _ _ e => rw [e]; rfl
  | assign _ _ e _ => rw [e] at hp; cases hp
  | skipped _ e =>
    rw [e] at hp ⊢
    exact h.suspect i hi hp

theorem Signing.chain {S : Scope} (hc : Chain S c d) (h : Signing c) : Signing d :=
  hc.invariant (fun _ _ hl hi => hi.link hl) h

/-- A record update that suspects nobody. -/
theorem Signing.setSg (h : Signing c) {i : Nat} {g : SignerRec → SignerRec}
    (ht : Table (c.setSg i g))
    (hg : i ∈ c.signers → (g (c.sg i)).signPhase = .suspect →
      (c.sg i).signPhase = .suspect ∧ (g (c.sg i)).commit = (c.sg i).commit) : Signing
        (c.setSg i g) := by
  refine ⟨h.mode, h.dkgState, ht, fun j hj hp => ?_⟩
  by_cases e : j = i
  · subst e
    rw [Coord.setSg_self] at hp ⊢
    obtain ⟨h1, h2⟩ := hg hj hp
    rw [h2]
    exact h.suspect j hj h1
  · rw [Coord.setSg_of_ne e] at hp ⊢
    exact h.suspect j hj hp

theorem Signing.taken {e : Event} (ht : Taken c e d) (h : Signing c) : Signing d := by
  have htab := h.table.taken h.mode ht
  cases ht with
  | nothing => exact h
  | claim _ _ => exact ⟨h.mode, h.dkgState, htab, h.suspect⟩
  | @signer _ _ pid pn pt _ _ _ =>
    have hm : ({ c with n := pn, t := pt } : Coord).mode = .sign := h.mode
    obtain ⟨_, e⟩ := promote_shape hm pid
    refine ⟨by rw [e]; exact hm, by rw [e]; exact h.dkgState, htab, fun i hi hp => ?_⟩
    by_cases hne : i = pid
    · subst hne
      rw [promote_sg hm] at hp
      cases hp
    · rw [promote_sg_of_ne hm hne] at hp ⊢
      rw [e] at hi
      rcases List.mem_cons.mp hi with rfl | hi
      · exact absurd rfl hne
      · exact h.suspect i hi hp
  | drained _ => exact h.setSg htab fun _ hp => ⟨hp, rfl⟩
  | gone _ => exact ⟨h.mode, h.dkgState, htab, fun i hi hp =>
    h.suspect i (List.mem_of_mem_filter hi) hp⟩
  | commit _ _ _ => exact h.setSg htab fun _ hp => (by cases hp)
  | @share i f _ k slot _ _ _ =>
    have hset : Signing (c.setSession k fun s =>
        { s with shares := Function.update s.shares slot f.payload, nShares := s.nShares + 1 }) :=
      ⟨h.mode, h.dkgState, h.table.setSession k rfl Iff.rfl fun hk => ⟨hk, rfl⟩, h.suspect⟩
    exact hset.setSg htab fun _ hp => (by cases hp)
  | keyless _ _ => exact h.setSg htab fun _ hp => (by cases hp)

theorem Signing.step (h : Signing c) (e : Event) : Signing (step c e) := by
  obtain ⟨x, ht, hc⟩ := step_taken h.mode h.dkgState e
  exact Signing.chain hc (Signing.taken ht h)

/-- **Where an event tries to form a session**, the invariant holds too. -/
theorem Signing.attempt (h : Signing c) {e : Event} (ha : (d, env) ∈ attempts c e) : Signing d := by
  obtain ⟨x, ht, hc⟩ := attempts_chain ha
  exact Signing.chain hc (Signing.taken ht h)

theorem Started.signing (h : Started c) (hm : c.mode = .sign) : Signing c := by
  have hu := h.unused
  refine ⟨hm, by rw [hu.dkgState]; exact nofun, hu.table, fun i hi => ?_⟩
  rw [hu.signers] at hi
  cases hi

end FrostSshCa.Coordinator
