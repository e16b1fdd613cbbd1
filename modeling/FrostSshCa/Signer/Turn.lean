import FrostSshCa.Signer.Nonce

/-!
# The moves of a signing round

A pass of a signer's loop as a few moves: a pair is drawn or given up, a
commitment or a share is queued, and everything else is `Plain`. A bundle is
answered only while the nonces of its commitment are there.
-/

namespace FrostSshCa.Signer

/-- Not a frame of the signing round. -/
def Aside (m : MsgType) (_ : Bytes) : Prop := m ≠ .commit ∧ m ≠ .sigShare

/-- `frost_commit` answers with a commitment never drawn before. -/
def FreshCommits (log : List Act) (answer : Bytes → CommitResult) : Prop :=
  ∀ key n c, answer key = .ok n c → c ∉ generatedCommits log

/-- The signer answered `b` with `share`: the `frost_sign` and the frame it queued. -/
def Computed (log : List Act) (b : CommitBundle) (share : Bytes) : Prop :=
  ∃ nonces spkg, [.shared nonces b spkg, .queued .sigShare share share] <:+: log

/-- The fields of the signing round. -/
def roundView (x : Node) : Nat × Bytes × Bytes × Bool × List Act × List Frame :=
  (x.myId, x.nonces, x.commit, x.commitIsPrecomputed, x.log, x.outq)

/-- One move over the frame `f`. -/
inductive Turn (keys : Keys) (f : Frame) (x : Node) : Node → Prop where
  | plain {x' : Node} (h : Plain keys Aside x x') : Turn keys f x x'
  | still {x' : Node} (h : roundView x' = roundView x) : Turn keys f x x'
  /-- A pair is drawn; its commitment stays here. -/
  | draw {x' : Node} {n c : Bytes} {p : Bool} (hc : c ∉ generatedCommits x.log)
      (h : roundView x' = (x.myId, n, c, p, x.log ++ [.generated n c], x.outq)) : Turn keys f x x'
  /-- A pair is drawn for the request, and its commitment is sent. -/
  | answer {x' : Node} {n c buf sig : Bytes} (hc : c ∉ generatedCommits x.log)
      (h : roundView x' = (x.myId, n, c, false, x.log ++ [.generated n c] ++ [.queued .commit buf c],
        x.outq ++ [⟨.commit, sig, c⟩])) : Turn keys f x x'
  /-- The commitment made ahead is sent. -/
  | send {x' : Node} {buf sig : Bytes} (hp : x.commitIsPrecomputed = true)
      (h : roundView x' = (x.myId, x.nonces, x.commit, false, x.log ++ [.queued .commit buf x.commit],
        x.outq ++ [⟨.commit, sig, x.commit⟩])) : Turn keys f x x'
  /-- No pair could be drawn. -/
  | giveUp {x' : Node} {c : Bytes} (h : roundView x' = (x.myId, [], c, false, x.log, x.outq)) :
      Turn keys f x x'
  | share {x' : Node} {b : CommitBundle} {spkg share sig : Bytes} (hf : f.type = .relayCommit)
      (hb : acceptedBundle keys x f.payload = some b) (hn : x.nonces ≠ [])
      (h : roundView x' = (x.myId, [], x.commit, x.commitIsPrecomputed,
        x.log ++ [.shared x.nonces b spkg] ++ [.queued .sigShare share share],
        x.outq ++ [⟨.sigShare, sig, share⟩])) : Turn keys f x x'

/-- The moves of one pass. -/
def Turns (keys : Keys) (f : Frame) : Node → Node → Prop := Relation.ReflTransGen (Turn keys f)

variable {keys : Keys} {env : Env} {f : Frame} {x x' : Node}

theorem Plain.commits (hp : Plain keys Aside x x') :
    generatedCommits x'.log = generatedCommits x.log := by
  obtain ⟨ps, hps, hlog, -⟩ := hp.sent
  have := sameRound_queued (fun p hp => (hps p hp).1) x.log
  rw [hlog]
  exact this.commits

theorem Computed.append {log : List Act} {b : CommitBundle} {share : Bytes}
    (h : Computed log b share) (as : List Act) : Computed (log ++ as) b share := by
  obtain ⟨n, spkg, hin⟩ := h
  exact ⟨n, spkg, hin.trans (List.infix_append' [] log as)⟩

/-- The fields of the round after a move. -/
theorem roundView_eq {i : Nat} {n c : Bytes} {p : Bool} {log : List Act} {q : List Frame}
    (h : roundView x = (i, n, c, p, log, q)) : x.myId = i ∧ x.nonces = n ∧ x.commit = c ∧
      x.commitIsPrecomputed = p ∧ x.log = log ∧ x.outq = q := by
  unfold roundView at h
  simpa only [Prod.mk.injEq] using h

/-- What every move keeps, and what it adds. -/
theorem Turn.grows (ht : Turn keys f x x') : x'.myId = x.myId ∧ (∃ as, x'.log = x.log ++ as) ∧
    (∀ c ∈ generatedCommits x.log, c ∈ generatedCommits x'.log) ∧
    ∃ fs, x'.outq = x.outq ++ fs := by
  have hgen {as : List Act} (e : x'.log = x.log ++ as) (c : Bytes)
      (hc : c ∈ generatedCommits x.log) : c ∈ generatedCommits x'.log := by
    rw [e]
    unfold generatedCommits at hc ⊢
    rw [List.filterMap_append]
    exact List.mem_append_left _ hc
  cases ht with
  | plain hp =>
    obtain ⟨ps, -, hlog, hout⟩ := hp.sent
    exact ⟨hp.myId, ⟨_, hlog⟩, hgen hlog, _, hout⟩
  | still h =>
    obtain ⟨h1, -, -, -, h5, h6⟩ := roundView_eq h
    have h5' : x'.log = x.log ++ [] := by rw [h5, List.append_nil]
    exact ⟨h1, ⟨_, h5'⟩, hgen h5', [], by rw [h6, List.append_nil]⟩
  | draw _ h =>
    obtain ⟨h1, -, -, -, h5, h6⟩ := roundView_eq h
    exact ⟨h1, ⟨_, h5⟩, hgen h5, [], by rw [h6, List.append_nil]⟩
  | answer _ h =>
    obtain ⟨h1, -, -, -, h5, h6⟩ := roundView_eq h
    rw [List.append_assoc] at h5
    exact ⟨h1, ⟨_, h5⟩, hgen h5, _, h6⟩
  | send _ h =>
    obtain ⟨h1, -, -, -, h5, h6⟩ := roundView_eq h
    exact ⟨h1, ⟨_, h5⟩, hgen h5, _, h6⟩
  | giveUp h =>
    obtain ⟨h1, -, -, -, h5, h6⟩ := roundView_eq h
    have h5' : x'.log = x.log ++ [] := by rw [h5, List.append_nil]
    exact ⟨h1, ⟨_, h5'⟩, hgen h5', [], by rw [h6, List.append_nil]⟩
  | share _ _ _ h =>
    obtain ⟨h1, -, -, -, h5, h6⟩ := roundView_eq h
    rw [List.append_assoc] at h5
    exact ⟨h1, ⟨_, h5⟩, hgen h5, _, h6⟩

/-- Frames other than shares are queued, or one share of an accepted bundle. -/
theorem Turn.queues (ht : Turn keys f x x') :
    (∃ fs : List Frame, x'.outq = x.outq ++ fs ∧ ∀ g ∈ fs, g.type ≠ .sigShare) ∨
    ∃ b share sig, f.type = .relayCommit ∧ acceptedBundle keys x f.payload = some b ∧
      x.nonces ≠ [] ∧ x'.outq = x.outq ++ [⟨.sigShare, sig, share⟩] ∧ Computed x'.log b share := by
  have hnone (e : x'.outq = x.outq) :
      ∃ fs : List Frame, x'.outq = x.outq ++ fs ∧ ∀ g ∈ fs, g.type ≠ .sigShare :=
    ⟨[], by rw [e, List.append_nil], nofun⟩
  have hone {sig p : Bytes} (e : x'.outq = x.outq ++ [⟨.commit, sig, p⟩]) :
      ∃ fs : List Frame, x'.outq = x.outq ++ fs ∧ ∀ g ∈ fs, g.type ≠ .sigShare := by
    refine ⟨_, e, fun g hg => ?_⟩
    rw [List.mem_singleton.mp hg]
    exact nofun
  cases ht with
  | plain hp =>
    obtain ⟨ps, hps, -, hout⟩ := hp.sent
    refine .inl ⟨_, hout, fun g hg => ?_⟩
    obtain ⟨p, hmem, rfl⟩ := List.mem_map.mp hg
    exact (hps p hmem).2
  | still e => exact .inl (hnone (roundView_eq e).2.2.2.2.2)
  | draw _ e => exact .inl (hnone (roundView_eq e).2.2.2.2.2)
  | answer _ e => exact .inl (hone (roundView_eq e).2.2.2.2.2)
  | send _ e => exact .inl (hone (roundView_eq e).2.2.2.2.2)
  | giveUp e => exact .inl (hnone (roundView_eq e).2.2.2.2.2)
  | @share b spkg share sig hf hb hn e =>
    obtain ⟨-, -, -, -, h5, h6⟩ := roundView_eq e
    refine .inr ⟨b, share, sig, hf, hb, hn, h6, x.nonces, spkg, ?_⟩
    rw [h5, List.append_assoc]
    exact ⟨x.log, [], by simp⟩

/-! ## The pieces -/

theorem freshCommit_turn {answer : Bytes → CommitResult} (hf : FreshCommits x.log answer) :
    (∃ n c, c ∉ generatedCommits x.log ∧ freshCommit x answer =
      ({ x with nonces := n, commit := c, log := x.log ++ [.generated n c] }, true)) ∨
    ∃ c, freshCommit x answer = ({ x with nonces := [], commit := c }, false) := by
  rcases freshCommit_cases x answer with ⟨n, c, ha, -, e⟩ | ⟨c, -, e⟩
  · exact .inl ⟨n, c, hf _ n c ha, e⟩
  · exact .inr ⟨c, e⟩

/-- `COMMIT` is queued, or the buffers are too small. -/
theorem sendCommit_cases (keys : Keys) (x : Node) : sendCommit keys x = x ∨ ∃ buf sig,
    roundView (sendCommit keys x) = (x.myId, x.nonces, x.commit, false,
      x.log ++ [.queued .commit buf x.commit], x.outq ++ [⟨.commit, sig, x.commit⟩]) := by
  unfold sendCommit
  split
  · exact .inl rfl
  · exact .inr ⟨_, _, rfl⟩

theorem acceptRequest_turn (hf : FreshCommits x.log env.commit) (tbs : Bytes) :
    Turn keys f x (acceptRequest keys env x tbs) := by
  unfold acceptRequest
  dsimp only
  split
  · next hp =>
    rcases sendCommit_cases keys { x with tbs := tbs, state := .signing } with
      e | ⟨buf, sig, e⟩
    · rw [e]
      exact .still rfl
    · exact .send hp e
  next hp =>
  have hf' : FreshCommits ({ x with tbs := tbs, state := .signing } : Node).log env.commit := hf
  rcases freshCommit_turn hf' with ⟨n, c, hc, e⟩ | ⟨c, e⟩
  · rw [e]
    dsimp only
    rcases sendCommit_cases keys { x with
      tbs := tbs, state := .signing, nonces := n, commit := c, log := x.log ++ [.generated n c] }
      with e' | ⟨buf, sig, e'⟩
    · rw [e']
      exact .draw hc rfl
    · exact .answer hc e'
  · rw [e]
    refine .giveUp (c := c) ?_
    unfold roundView
    simp [hp]

theorem precompute_turn (hf : FreshCommits x.log env.precommit) :
    Turn keys f x (precompute env x) := by
  unfold precompute
  split
  · next hp =>
    rcases freshCommit_turn hf with ⟨n, c, hc, e⟩ | ⟨c, e⟩
    · rw [e]
      exact .draw hc rfl
    · rw [e]
      refine .giveUp (c := c) ?_
      unfold roundView
      simp [hp.2.2]
  · exact .still rfl

theorem signBundle_turn {b : CommitBundle} (hf : f.type = .relayCommit)
    (hb : acceptedBundle keys x f.payload = some b) : Turn keys f x (signBundle keys env x b) := by
  rcases signBundle_cases keys env x b with e | ⟨spkg, share, -, hs, e⟩
  · rw [e]
    exact .still rfl
  · rw [e]
    exact .share hf hb (frostSign_some hs).1 rfl

/-! ## A pass -/

/-- No other frame asks for a share: what `frost_sign` would answer is not looked at. -/
theorem process_unsigned (hf : f.type ≠ .relayCommit) : processCoordFrame keys env x f =
    processCoordFrame keys { env with sign := fun _ _ _ => none } x f := by
  unfold processCoordFrame
  cases e : f.type with
  | relayCommit => exact absurd e hf
  | _ => rfl

theorem allows_aside (myId : Nat) (env : Env) :
    Allows Aside myId { env with sign := fun _ _ _ => none } where
  shareLoadFail := ⟨nofun, nofun⟩
  round1 := fun _ _ _ _ _ _ => ⟨nofun, nofun⟩
  refreshR1 := fun _ _ _ _ _ _ => ⟨nofun, nofun⟩
  round2 := fun _ _ _ _ _ _ => ⟨⟨nofun, nofun⟩, ⟨nofun, nofun⟩⟩
  notices := ⟨⟨nofun, nofun⟩, ⟨nofun, nofun⟩⟩
  pubKeyPkg := fun _ _ _ _ _ _ => ⟨nofun, nofun⟩
  refreshComplete := fun _ _ _ _ _ _ _ _ _ => ⟨nofun, nofun⟩
  share := nofun

/-- The moves of `process_coord_frame`; none of them draws what the loop may draw after it. -/
theorem process_turns (keys : Keys) (f : Frame) (hc : FreshCommits x.log env.commit)
    (hp : FreshCommits x.log env.precommit) :
    Turns keys f x (processCoordFrame keys env x f) ∧
      (FreshCommits (processCoordFrame keys env x f).log env.precommit ∨
        (processCoordFrame keys env x f).state = .signing) := by
  by_cases hr : f.type = .relayCommit
  · have e : processCoordFrame keys env x f = onRelayCommit keys env x f := by
      unfold processCoordFrame
      rw [hr]
    rw [e]
    unfold onRelayCommit
    split
    · exact ⟨.refl, .inl hp⟩
    next b hb =>
    refine ⟨.single (signBundle_turn hr hb), .inl fun key n c ha => ?_⟩
    have hcommits : generatedCommits (signBundle keys env x b).log = generatedCommits x.log := by
      rcases signBundle_cases keys env x b with e' | ⟨spkg, share, -, -, e'⟩
      · rw [e']
      · rw [e']
        show generatedCommits (x.log ++ [.shared x.nonces b spkg] ++
          [.queued .sigShare share share]) = _
        rw [generatedCommits_concat, generatedCommits_concat]
        simp [Act.commit?]
    rw [hcommits]
    exact hp key n c ha
  rw [process_unsigned hr]
  generalize e : processCoordFrame keys { env with sign := fun _ _ _ => none } x f = x'
  have ho : Outcome keys Aside x f { env with sign := fun _ _ _ => none } x' :=
    e ▸ process_outcome (allows_aside x.myId env) f
  cases ho with
  | plain h =>
    refine ⟨.single (.plain h), .inl fun key n c ha => ?_⟩
    rw [h.commits]
    exact hp key n c ha
  | request _ hl _ =>
    refine ⟨.tail (.single (.plain hl)) (acceptRequest_turn (fun key n c ha => ?_) f.payload),
      .inr (acceptRequest_state ..)⟩
    rw [hl.commits]
    exact hc key n c ha
  | share h' _ => exact absurd h' hr

/-- **A pass of the loop is a sequence of moves.** -/
theorem step_turns (hc : FreshCommits x.log env.commit) (hp : FreshCommits x.log env.precommit) :
    Turns keys f x (step keys x (f, env)) := by
  unfold step
  split
  · exact .refl
  split
  · exact .single (.still rfl)
  obtain ⟨h1, h2⟩ := process_turns keys f hc hp
  dsimp only
  split
  · exact h1
  · rcases h2 with h2 | h2
    · exact h1.tail (precompute_turn h2)
    · rw [precompute_signing h2]
      exact h1

end FrostSshCa.Signer
