import FrostSshCa.Signer.Nonce

/-!
# A signer between its commitment and the bundle

`Armed s tbs commit`: the signer has sent `commit` for `tbs` and waits for the
bundle. Only the next request or an accepted bundle ends this; `step_reaction`
sorts what any frame of sign mode does to a signer, armed or not.
-/

namespace FrostSshCa.Signer

structure Armed (s : Node) (tbs commit : Bytes) : Prop where
  state : s.state = .signing
  key : s.keyPkg ≠ []
  short : tbs.length ≤ maxPayload
  tbs : s.tbs = tbs
  commit : s.commit = commit

/-- The frames a coordinator in sign mode sends. -/
def signFrame : MsgType → Bool
  | .helloAck | .signReq | .relayCommit | .certOutput | .relayR2 | .dkgDone | .refreshConfirmed =>
    true
  | _ => false

/-- A signer that has taken part in no ceremony. -/
structure Settled (i n t : Nat) (s : Node) : Prop where
  myId : s.myId = i
  n : s.n = n
  t : s.t = t
  r2Secret : s.r2Secret = []
  commit : s.commit.length ≤ maxPayload

/-- The frame of a `COMMIT` for `tbs`. -/
def commitFrame (keys : Keys) (i : Nat) (tbs commit : Bytes) : Frame :=
  ⟨.commit, keys.sign i (commitBuf tbs commit), commit⟩

/-- The queue has grown by frames other than `COMMIT`. -/
def QueuesOther (s s' : Node) : Prop :=
  ∃ fs : List Frame, s'.outq = s.outq ++ fs ∧ ∀ f ∈ fs, f.type ≠ .commit

/-- At most a `SHARE_LOAD_FAIL` is queued. -/
def Fails (s s' : Node) : Prop :=
  s'.outq = s.outq ∨ ∃ g : Frame, s'.outq = s.outq ++ [g] ∧ g.type = .shareLoadFail

/-- The signing round of `s` is still that of `s'`. -/
structure Keeps (s s' : Node) : Prop where
  state : s'.state = s.state
  key : s.keyPkg ≠ [] → s'.keyPkg ≠ []
  n : s'.n = s.n
  t : s'.t = s.t
  r2Secret : s'.r2Secret = s.r2Secret

variable (keys : Keys) (env : Env) {s s' s'' : Node} {i n t : Nat}

/-! ## Plain frames of sign mode -/

theorem Keeps.refl (s : Node) : Keeps s s := ⟨rfl, id, rfl, rfl, rfl⟩

theorem Keeps.trans (h : Keeps s s') (h' : Keeps s' s'') : Keeps s s'' :=
  ⟨h'.state.trans h.state, fun hk => h'.key (h.key hk), h'.n.trans h.n, h'.t.trans h.t,
    h'.r2Secret.trans h.r2Secret⟩

theorem Armed.keeps {tbs c : Bytes} (h : Armed s tbs c) (hk : Keeps s s') (ht : s'.tbs = s.tbs)
    (hc : s'.commit = s.commit) : Armed s' tbs c :=
  ⟨hk.state.trans h.state, hk.key h.key, h.short, ht.trans h.tbs, hc.trans h.commit⟩

theorem Settled.keeps (h : Settled i n t s) (hk : Keeps s s') (hi : s'.myId = s.myId)
    (hc : s'.commit = s.commit) : Settled i n t s' :=
  ⟨hi.trans h.myId, hk.n.trans h.n, hk.t.trans h.t, hk.r2Secret.trans h.r2Secret, hc ▸ h.commit⟩

theorem loadKeyMaterial_keeps (s : Node) : Keeps s (loadKeyMaterial s env).1 := by
  unfold loadKeyMaterial
  split
  · exact .refl s
  · next written _ =>
    refine ⟨rfl, fun h => ?_, rfl, rfl, rfl⟩
    have hlen : (overwrite s.keyPkg written).length = s.keyPkg.length := length_overwrite _ _
    intro h0
    have h1 : (overwrite s.keyPkg written).length = 0 := List.length_eq_zero_iff.mpr h0
    exact h (List.length_eq_zero_iff.mp (hlen.symm.trans h1))
  · split
    · exact .refl s
    · next h => exact ⟨rfl, fun _ h0 => h (List.length_eq_zero_iff.mpr h0), rfl, rfl, rfl⟩

theorem loadKeyMaterial_key (h : (loadKeyMaterial s env).2 = true) :
    (loadKeyMaterial s env).1.keyPkg ≠ [] := by
  unfold loadKeyMaterial at h ⊢
  split at h
  · cases h
  · cases h
  · split at h
    · cases h
    · next hlen =>
      rw [if_neg hlen]
      exact fun h0 => hlen (List.length_eq_zero_iff.mpr h0)

theorem loadOrFail_keeps (s : Node) : Keeps s (loadOrFail keys env s).1 := by
  have h := loadKeyMaterial_keeps env s
  unfold loadOrFail
  split
  · next e => rw [e] at h; exact h
  · next e => rw [e] at h; exact h.trans ⟨rfl, id, rfl, rfl, rfl⟩

theorem ensureKey_keeps (s : Node) : Keeps s (ensureKey keys env s).1 := by
  unfold ensureKey
  split
  · exact loadOrFail_keeps keys env s
  · exact .refl s

theorem ensureKey_key (h : (ensureKey keys env s).2 = true) :
    (ensureKey keys env s).1.keyPkg ≠ [] := by
  unfold ensureKey at h ⊢
  split
  · next h0 =>
    rw [if_pos h0] at h
    unfold loadOrFail at h ⊢
    split at h
    · next e =>
      have := loadKeyMaterial_key env (s := s) (by rw [e])
      rw [e] at this
      exact this
    · cases h
  · next h0 => exact fun h' => h0 (List.length_eq_zero_iff.mpr h')

/-- Part 3 is refused the empty secret before it writes anything. -/
theorem frostDkgPart3_empty (h : s.r2Secret = []) : frostDkgPart3 s env = .error [] :=
  if_pos (List.length_eq_zero_iff.mpr h)

/-- A frame of sign mode that is neither a request nor a bundle, for a signer
without a round-2 secret. -/
theorem process_keeps {f : Frame} (hf : signFrame f.type = true) (hq : f.type ≠ .signReq)
    (hr : f.type ≠ .relayCommit) (h2 : s.r2Secret = []) :
    Keeps s (processCoordFrame keys env s f) := by
  unfold processCoordFrame
  cases e : f.type with
  | helloAck =>
    dsimp only
    unfold onHelloAck
    split; · exact .refl s
    next letter _ =>
    split; · exact ⟨rfl, id, rfl, rfl, rfl⟩
    dsimp only
    split
    · exact ⟨rfl, id, rfl, rfl, rfl⟩
    · have h1 : Keeps s { s with idConfirmed := true, coordMode := ackMode letter } :=
        ⟨rfl, id, rfl, rfl, rfl⟩
      exact h1.trans (loadOrFail_keeps keys env _)
  | relayR2 =>
    dsimp only
    unfold onRelayR2
    split; · exact .refl s
    split; · exact .refl s
    split; · exact ⟨rfl, id, rfl, rfl, rfl⟩
    dsimp only
    split; · exact ⟨rfl, id, rfl, rfl, rfl⟩
    -- part 3 fails on the empty secret
    rw [frostDkgPart3_empty env (by exact h2)]
    refine ⟨rfl, fun h => ?_, rfl, rfl, rfl⟩
    show overwrite s.keyPkg [] ≠ []
    rw [overwrite_nil]
    exact h
  | signReq => exact absurd e hq
  | relayCommit => exact absurd e hr
  | certOutput => exact .refl s
  | dkgDone => exact .refl s
  | refreshConfirmed => exact .refl s
  | _ => rw [e] at hf; cases hf

theorem loadKeyMaterial_outq (s : Node) : (loadKeyMaterial s env).1.outq = s.outq := by
  unfold loadKeyMaterial
  split
  · rfl
  · rfl
  · split <;> rfl

theorem loadOrFail_fails (s : Node) : Fails s (loadOrFail keys env s).1 := by
  have h := loadKeyMaterial_outq env s
  unfold loadOrFail
  split
  · next e => rw [e] at h; exact .inl h
  · next s₁ e =>
    rw [e] at h
    refine .inr ⟨⟨.shareLoadFail, keys.sign s₁.myId [], []⟩, ?_, rfl⟩
    show s₁.outq ++ _ = _
    rw [h]

theorem ensureKey_fails (s : Node) : Fails s (ensureKey keys env s).1 := by
  unfold ensureKey
  split
  · exact loadOrFail_fails keys env s
  · exact .inl rfl

/-- Only a `HELLO_ACK` of these frames makes the signer queue anything. -/
theorem process_fails {f : Frame} (hf : signFrame f.type = true) (hq : f.type ≠ .signReq)
    (hr : f.type ≠ .relayCommit) (h2 : s.r2Secret = []) :
    (processCoordFrame keys env s f).outq = s.outq ∨
      f.type = .helloAck ∧ Fails s (processCoordFrame keys env s f) := by
  unfold processCoordFrame
  cases e : f.type with
  | helloAck =>
    dsimp only
    refine .inr ⟨rfl, ?_⟩
    unfold onHelloAck
    split; · exact .inl rfl
    next letter _ =>
    split; · exact .inl rfl
    dsimp only
    split
    · exact .inl rfl
    · exact loadOrFail_fails keys env { s with idConfirmed := true, coordMode := ackMode letter }
  | relayR2 =>
    refine .inl ?_
    dsimp only
    unfold onRelayR2
    split; · rfl
    split; · rfl
    split; · rfl
    dsimp only
    split; · rfl
    rw [frostDkgPart3_empty env (by exact h2)]
  | signReq => exact absurd e hq
  | relayCommit => exact absurd e hr
  | certOutput => exact .inl rfl
  | dkgDone => exact .inl rfl
  | refreshConfirmed => exact .inl rfl
  | _ => rw [e] at hf; cases hf

theorem Fails.queuesOther (h : Fails s s') : QueuesOther s s' := by
  rcases h with h | ⟨g, h, hg⟩
  · exact ⟨[], by rw [h]; simp, nofun⟩
  · refine ⟨[g], h, fun f hf => ?_⟩
    rw [List.mem_singleton.mp hf, hg]
    exact nofun

theorem QueuesOther.refl (s : Node) : QueuesOther s s := ⟨[], by simp, nofun⟩

theorem QueuesOther.trans (h : QueuesOther s s') (h' : QueuesOther s' s'') : QueuesOther s s'' := by
  obtain ⟨fs, e, hf⟩ := h
  obtain ⟨fs', e', hf'⟩ := h'
  refine ⟨fs ++ fs', by rw [e', e, List.append_assoc], fun f hmem => ?_⟩
  rcases List.mem_append.mp hmem with hmem | hmem
  · exact hf f hmem
  · exact hf' f hmem

/-! ## The commitment ahead -/

/-- Drawing a commitment ahead, or trying to, while no bundle is awaited. -/
theorem precompute_settled (h : Settled i n t s) : Settled i n t (precompute env s) ∧
    (precompute env s).outq = s.outq := by
  unfold precompute
  split
  · rcases freshCommit_cases s env.precommit with ⟨n', c, -, hlen, e⟩ | ⟨c, hlen, e⟩
    · rw [e]; exact ⟨⟨h.myId, h.n, h.t, h.r2Secret, hlen⟩, rfl⟩
    · rw [e]; exact ⟨⟨h.myId, h.n, h.t, h.r2Secret, hlen h.commit⟩, rfl⟩
  · exact ⟨h, rfl⟩

/-! ## What a frame does -/

/-- The effect of a frame on the signing round. -/
inductive Reaction (keys : Keys) (i : Nat) (s : Node) (f : Frame) (s' : Node) : Prop where
  /-- It goes on as before. -/
  | quiet (type : f.type ≠ .signReq) (armed : ∀ tbs c, Armed s tbs c → Armed s' tbs c)
      (queued : s'.outq = s.outq ∨ f.type = .helloAck ∧ Fails s s')
  /-- The request is answered. -/
  | commit (type : f.type = .signReq) (armed : Armed s' f.payload s'.commit)
      (queued : s'.outq = s.outq ++ [commitFrame keys i f.payload s'.commit])
  /-- The request is not answered with a commitment. -/
  | refused (type : f.type = .signReq) (queued : Fails s s')
  /-- The bundle is answered. -/
  | share (type : f.type = .relayCommit) (queued : QueuesOther s s')

theorem sendCommit_armed (h : Settled i n t s) (hst : s.state = .signing) (hk : s.keyPkg ≠ [])
    (ht : s.tbs.length ≤ maxPayload) : Settled i n t (sendCommit keys s) ∧
      Armed (sendCommit keys s) s.tbs (sendCommit keys s).commit ∧
      (sendCommit keys s).outq = s.outq ++ [commitFrame keys i s.tbs
        (sendCommit keys s).commit] := by
  rw [sendCommit_eq ht h.commit]
  refine ⟨⟨h.myId, h.n, h.t, h.r2Secret, h.commit⟩, ⟨hst, hk, ht, rfl, rfl⟩, ?_⟩
  show s.outq ++ _ = _
  rw [h.myId]
  rfl

theorem acceptRequest_reaction (h : Settled i n t s) (hk : s.keyPkg ≠ []) {tbs : Bytes}
    (ht : tbs.length ≤ maxPayload) : Settled i n t (acceptRequest keys env s tbs) ∧
      ((acceptRequest keys env s tbs).outq = s.outq ∨
        Armed (acceptRequest keys env s tbs) tbs (acceptRequest keys env s tbs).commit ∧
        (acceptRequest keys env s tbs).outq =
          s.outq ++ [commitFrame keys i tbs (acceptRequest keys env s tbs).commit]) := by
  have h' : Settled i n t { s with tbs := tbs, state := .signing } :=
    ⟨h.myId, h.n, h.t, h.r2Secret, h.commit⟩
  unfold acceptRequest
  dsimp only
  split
  · obtain ⟨h1, h2⟩ := sendCommit_armed keys h' rfl hk ht
    exact ⟨h1, .inr h2⟩
  rcases freshCommit_cases { s with tbs := tbs, state := .signing } env.commit with
    ⟨nonces, c, -, hlen, e⟩ | ⟨c, hlen, e⟩
  · have h'' : Settled i n t { s with
        tbs := tbs, state := .signing, nonces := nonces, commit := c,
        log := s.log ++ [.generated nonces c] } := ⟨h.myId, h.n, h.t, h.r2Secret, hlen⟩
    rw [e]
    obtain ⟨h1, h2⟩ := sendCommit_armed keys h'' rfl hk ht
    exact ⟨h1, .inr h2⟩
  · rw [e]
    exact ⟨⟨h.myId, h.n, h.t, h.r2Secret, hlen h.commit⟩, .inl rfl⟩

/-- After a request the signer is as it was but for a failed key load, or is in
the signing state. -/
theorem onSignReq_reaction (h : Settled i n t s) (f : Frame) :
    Settled i n t (onSignReq keys env s f) ∧ (Fails s (onSignReq keys env s f) ∨
      Armed (onSignReq keys env s f) f.payload (onSignReq keys env s f).commit ∧
      (onSignReq keys env s f).outq =
        s.outq ++ [commitFrame keys i f.payload (onSignReq keys env s f).commit]) := by
  have hp : Plain keys (fun m _ => m ≠ .commit) s (ensureKey keys env s).1 :=
    ensureKey_plain (allows_other s.myId env).shareLoadFail s
  have hs : Settled i n t (ensureKey keys env s).1 :=
    h.keeps (ensureKey_keeps keys env s) hp.myId hp.commit
  have hkey := ensureKey_key keys env (s := s)
  have hfail := ensureKey_fails keys env s
  -- a key that is there costs no frame
  have hq : (ensureKey keys env s).2 = true → (ensureKey keys env s).1.outq = s.outq := by
    unfold ensureKey loadOrFail
    split
    · split
      · next e =>
        intro _
        have h1 := loadKeyMaterial_outq env s
        rw [e] at h1
        exact h1
      · intro h0; cases h0
    · exact fun _ => rfl
  unfold onSignReq
  split
  · next s₁ e =>
    rw [e] at hs hfail
    exact ⟨hs, .inl hfail⟩
  · next s₁ e =>
    rw [e] at hs hfail hkey hq
    split
    · exact ⟨hs, .inl hfail⟩
    · next hlen =>
      have ht : f.payload.length ≤ maxPayload := by omega
      obtain ⟨h1, h2⟩ := acceptRequest_reaction keys env hs (hkey rfl) ht
      rw [hq rfl] at h2
      refine ⟨h1, ?_⟩
      rcases h2 with h2 | h2
      · exact .inl (.inl h2)
      · exact .inr h2

theorem onRelayCommit_settled (h : Settled i n t s) (f : Frame) :
    Settled i n t (onRelayCommit keys env s f) ∧ QueuesOther s (onRelayCommit keys env s f) := by
  unfold onRelayCommit
  split
  · exact ⟨h, .refl s⟩
  next b _ =>
  rcases signBundle_cases keys env s b with e | ⟨spkg, share, -, -, e⟩
  · rw [e]; exact ⟨h, .refl s⟩
  · rw [e]
    exact ⟨⟨h.myId, h.n, h.t, h.r2Secret, h.commit⟩, [_], rfl, by simp⟩

theorem process_reaction (h : Settled i n t s) {f : Frame} (hf : signFrame f.type = true) :
    Settled i n t (processCoordFrame keys env s f) ∧
      Reaction keys i s f (processCoordFrame keys env s f) := by
  by_cases hq : f.type = .signReq
  · have e : processCoordFrame keys env s f = onSignReq keys env s f := by
      unfold processCoordFrame; rw [hq]
    rw [e]
    obtain ⟨h1, h2 | ⟨h2, h3⟩⟩ := onSignReq_reaction keys env h f
    · exact ⟨h1, .refused hq h2⟩
    · exact ⟨h1, .commit hq h2 h3⟩
  by_cases hr : f.type = .relayCommit
  · have e : processCoordFrame keys env s f = onRelayCommit keys env s f := by
      unfold processCoordFrame; rw [hr]
    rw [e]
    obtain ⟨h1, h2⟩ := onRelayCommit_settled keys env h f
    exact ⟨h1, .share hr h2⟩
  have hk := process_keeps keys env hf hq hr h.r2Secret
  have hp : Plain keys (fun m _ => m ≠ .commit) s (processCoordFrame keys env s f) := by
    generalize e : processCoordFrame keys env s f = s'
    have ho : Outcome keys (fun m _ => m ≠ .commit) s f env s' :=
      e ▸ process_outcome (allows_other s.myId env) f
    cases ho with
    | plain hp => exact hp
    | request hq' _ _ => exact absurd hq' hq
    | share hr' _ => exact absurd hr' hr
  exact ⟨h.keeps hk hp.myId hp.commit, .quiet hq (fun _ _ ha => ha.keeps hk hp.tbs hp.commit)
    (process_fails keys env hf hq hr h.r2Secret)⟩

/-- **Every pass of a signer's loop over a frame of sign mode.** -/
theorem step_reaction (h : Settled i n t s) {f : Frame} (hf : signFrame f.type = true) :
    Settled i n t (step keys s (f, env)) ∧ Reaction keys i s f (step keys s (f, env)) := by
  have hstop (x : Bool) : Settled i n t { s with exited := x } ∧
      Reaction keys i s f { s with exited := x } := by
    refine ⟨⟨h.myId, h.n, h.t, h.r2Secret, h.commit⟩, ?_⟩
    by_cases hq : f.type = .signReq
    · exact .refused hq (.inl rfl)
    · exact .quiet hq (fun _ _ ha => ⟨ha.state, ha.key, ha.short, ha.tbs, ha.commit⟩) (.inl rfl)
  unfold step
  split
  · exact hstop s.exited
  split
  · exact hstop true
  obtain ⟨h1, h2⟩ := process_reaction keys env h hf
  dsimp only
  split
  · exact ⟨h1, h2⟩
  obtain ⟨h3, hout⟩ := precompute_settled env h1
  -- nothing is drawn ahead while a bundle is awaited
  have harm {tbs c : Bytes} (ha : Armed (processCoordFrame keys env s f) tbs c) :
      precompute env (processCoordFrame keys env s f) = processCoordFrame keys env s f :=
    precompute_signing ha.state
  refine ⟨h3, ?_⟩
  cases h2 with
  | quiet hq ha hqu =>
    refine .quiet hq (fun tbs c ha' => ?_) ?_
    · have := ha tbs c ha'
      rw [harm this]
      exact this
    · unfold Fails at hqu ⊢
      rw [hout]
      exact hqu
  | commit hq ha hqu =>
    rw [harm ha]
    exact .commit hq ha hqu
  | refused hq hqu =>
    unfold Fails at hqu
    rw [← hout] at hqu
    exact .refused hq hqu
  | share hr hqu =>
    obtain ⟨fs, e, hfs⟩ := hqu
    exact .share hr ⟨fs, hout.trans e, hfs⟩

end FrostSshCa.Signer
