import FrostSshCa.Signer.Frame

/-!
# What a frame does to a signer

Every case of `process_coord_frame` but the two of the signing round leaves the
nonces, the commitment and the message alone and queues some payloads, each
signed as it is: it is `Plain`. `process_outcome` sorts a processed frame into
plain ones, requests that are accepted and bundles that are accepted.
-/

namespace FrostSshCa.Signer

/-- The step queues payloads that satisfy `P`, each under a signature over
itself, and leaves the signing round alone. -/
structure Plain (keys : Keys) (P : MsgType → Bytes → Prop) (s s' : Node) : Prop where
  myId : s'.myId = s.myId
  nonces : s'.nonces = s.nonces
  commit : s'.commit = s.commit
  precomputed : s'.commitIsPrecomputed = s.commitIsPrecomputed
  tbs : s'.tbs = s.tbs
  sent : ∃ ps : List (MsgType × Bytes), (∀ p ∈ ps, P p.1 p.2) ∧
    s'.log = s.log ++ ps.map (fun p => .queued p.1 p.2 p.2) ∧
    s'.outq = s.outq ++ ps.map fun p => ⟨p.1, keys.sign s.myId p.2, p.2⟩

/-- `P` holds of every payload the signer can queue outside `COMMIT`, given what
its subprocesses answer. -/
structure Allows (P : MsgType → Bytes → Prop) (myId : Nat) (env : Env) : Prop where
  shareLoadFail : P .shareLoadFail []
  round1 : ∀ i n t secret pkg, env.dkgPart1 i n t = .ok (secret, pkg) → P .round1Pkg pkg
  refreshR1 : ∀ i n t secret pkg, env.refreshPart1 i n t = .ok (secret, pkg) → P .refreshR1 pkg
  round2 : ∀ k dst pkg ct, env.encrypt k dst pkg = some ct → ct.length ≤ 256 →
    P .round2Pkg (be16 myId ++ be16 dst ++ ct) ∧ P .refreshR2 (be16 myId ++ be16 dst ++ ct)
  notices : P .r2Complete (be16 myId) ∧ P .refreshR2Complete (be16 myId)
  pubKeyPkg : ∀ secret r1 r2 key pub, env.dkgPart3 secret r1 r2 = .ok (key, pub) → P .pubKeyPkg pub
  refreshComplete : ∀ n secret r1 r2 key pub key' pub',
    env.refreshShares n secret r1 r2 key pub = some (key', pub') → P .refreshComplete pub'
  share : ∀ spkg nonces key share, env.sign spkg nonces key = some share → P .sigShare share

variable {keys : Keys} {P : MsgType → Bytes → Prop} {env : Env} {s s' s'' : Node}

/-! ## Plain steps -/

theorem Plain.refl (s : Node) : Plain keys P s s :=
  ⟨rfl, rfl, rfl, rfl, rfl, [], nofun, by simp, by simp⟩

theorem Plain.trans (h : Plain keys P s s') (h' : Plain keys P s' s'') : Plain keys P s s'' := by
  obtain ⟨i, a, b, c, d, ps, hps, hlog, hout⟩ := h
  obtain ⟨i', a', b', c', d', qs, hqs, hlog', hout'⟩ := h'
  refine ⟨i'.trans i, a'.trans a, b'.trans b, c'.trans c, d'.trans d, ps ++ qs, ?_, ?_, ?_⟩
  · intro p hp
    rcases List.mem_append.mp hp with hp | hp
    · exact hps p hp
    · exact hqs p hp
  · rw [hlog', hlog, List.map_append, List.append_assoc]
  · rw [hout', hout, i, List.map_append, List.append_assoc]

/-- An update of any other field. -/
theorem Plain.of_eq (hi : s'.myId = s.myId) (hn : s'.nonces = s.nonces) (hc : s'.commit = s.commit)
    (hp : s'.commitIsPrecomputed = s.commitIsPrecomputed) (ht : s'.tbs = s.tbs)
    (hl : s'.log = s.log) (ho : s'.outq = s.outq) : Plain keys P s s' :=
  ⟨hi, hn, hc, hp, ht, [], nofun, by simp [hl], by simp [ho]⟩

/-- A plain step after such an update. -/
theorem Plain.after (h : Plain keys P s' s'') (hi : s'.myId = s.myId) (hn : s'.nonces = s.nonces)
    (hc : s'.commit = s.commit) (hp : s'.commitIsPrecomputed = s.commitIsPrecomputed)
    (ht : s'.tbs = s.tbs) (hl : s'.log = s.log) (ho : s'.outq = s.outq) : Plain keys P s s'' :=
  (Plain.of_eq hi hn hc hp ht hl ho).trans h

theorem queueToCoord_plain {type : MsgType} {payload : Bytes} (h : P type payload) (s : Node) :
    Plain keys P s (queueToCoord keys s type payload) :=
  ⟨rfl, rfl, rfl, rfl, rfl, [(type, payload)], by simpa using h, rfl, rfl⟩

theorem loadKeyMaterial_plain (s : Node) (env : Env) :
    Plain keys P s (loadKeyMaterial s env).1 := by
  unfold loadKeyMaterial
  split
  · exact Plain.refl s
  · exact Plain.of_eq rfl rfl rfl rfl rfl rfl rfl
  · split
    · exact Plain.refl s
    · exact Plain.of_eq rfl rfl rfl rfl rfl rfl rfl

theorem saveKeyMaterial_plain (s : Node) (env : Env) :
    Plain keys P s (saveKeyMaterial s env).1 := by
  unfold saveKeyMaterial
  cases env.keyWrite with
  | noOpen => exact Plain.refl s
  | cut m => exact Plain.of_eq rfl rfl rfl rfl rfl rfl rfl
  | whole => exact Plain.of_eq rfl rfl rfl rfl rfl rfl rfl

theorem loadOrFail_plain (hP : P .shareLoadFail []) (s : Node) :
    Plain keys P s (loadOrFail keys env s).1 := by
  have h : Plain keys P s (loadKeyMaterial s env).1 := loadKeyMaterial_plain s env
  unfold loadOrFail
  split
  · next e => rw [e] at h; exact h
  · next e => rw [e] at h; exact h.trans (queueToCoord_plain hP _)

theorem onHelloAck_plain (h : Allows P s.myId env) (f : Frame) :
    Plain keys P s (onHelloAck keys env s f) := by
  unfold onHelloAck
  split
  · exact Plain.refl s
  split
  · exact Plain.of_eq rfl rfl rfl rfl rfl rfl rfl
  dsimp only
  split
  · exact Plain.of_eq rfl rfl rfl rfl rfl rfl rfl
  · exact (loadOrFail_plain h.shareLoadFail _).after rfl rfl rfl rfl rfl rfl rfl

/-- `START_DKG` and `START_REFRESH` queue what part 1 answers. -/
theorem onStartDkg_plain (h : Allows P s.myId env) (f : Frame) :
    Plain keys P s (onStartDkg keys env s f) := by
  unfold onStartDkg
  split
  · exact Plain.refl s
  dsimp only
  split
  · exact Plain.of_eq rfl rfl rfl rfl rfl rfl rfl
  · next e =>
    exact (queueToCoord_plain (h.round1 _ _ _ _ _ e) _).after rfl rfl rfl rfl rfl rfl rfl

theorem onStartRefresh_plain (h : Allows P s.myId env) (f : Frame) :
    Plain keys P s (onStartRefresh keys env s f) := by
  unfold onStartRefresh
  split
  · exact Plain.refl s
  dsimp only
  split
  · exact Plain.of_eq rfl rfl rfl rfl rfl rfl rfl
  · next e =>
    exact (queueToCoord_plain (h.refreshR1 _ _ _ _ _ e) _).after rfl rfl rfl rfl rfl rfl rfl

/-- The round-2 loop, for a type whose payloads all satisfy `P`. -/
theorem sendAllR2_plain {m : MsgType} (h : ∀ k dst pkg ct, env.encrypt k dst pkg = some ct →
    ct.length ≤ 256 → P m (be16 s.myId ++ be16 dst ++ ct)) (out : List (Nat × Bytes)) :
    Plain keys P s (sendAllR2 keys env s m out) := by
  unfold sendAllR2
  generalize out.zipIdx = l
  induction l generalizing s with
  | nil => exact Plain.refl s
  | cons p l ih =>
    have h1 : Plain keys P s (sendR2 keys env m s p) := by
      unfold sendR2
      split
      · exact Plain.refl s
      · next ct e =>
        split
        · exact Plain.refl s
        · exact queueToCoord_plain (h _ _ _ ct e (by omega)) s
    refine h1.trans (ih ?_)
    intro k dst pkg ct e hlen
    rw [h1.myId]
    exact h k dst pkg ct e hlen

/-- The loop changes the queue and the log only. -/
theorem sendAllR2_eq (type : MsgType) (out : List (Nat × Bytes)) (s : Node) :
    ∃ q l, sendAllR2 keys env s type out = { s with outq := q, log := l } := by
  unfold sendAllR2
  generalize out.zipIdx = ps
  induction ps generalizing s with
  | nil => exact ⟨s.outq, s.log, rfl⟩
  | cons p ps ih =>
    rw [List.foldl_cons]
    unfold sendR2
    split
    · exact ih s
    · split
      · exact ih s
      · exact ih _

theorem sendAllR2_myId (type : MsgType) (out : List (Nat × Bytes)) (s : Node) :
    (sendAllR2 keys env s type out).myId = s.myId :=
  (sendAllR2_plain (P := fun _ _ => True) (fun _ _ _ _ _ _ => trivial) out).myId

theorem onRelayR1_plain (h : Allows P s.myId env) (f : Frame) :
    Plain keys P s (onRelayR1 keys env s f) := by
  unfold onRelayR1
  split
  · exact Plain.refl s
  split
  · exact Plain.refl s
  dsimp only
  split
  · exact Plain.of_eq rfl rfl rfl rfl rfl rfl rfl
  split
  · exact Plain.of_eq rfl rfl rfl rfl rfl rfl rfl
  next secret out e =>
  refine (sendAllR2_plain (m := .round2Pkg) ?_ out).after rfl rfl rfl rfl rfl rfl rfl
  exact fun k dst pkg ct e hlen => (h.round2 k dst pkg ct e hlen).1

theorem onRelayRefreshR1_plain (h : Allows P s.myId env) (f : Frame) :
    Plain keys P s (onRelayRefreshR1 keys env s f) := by
  unfold onRelayRefreshR1
  split
  · exact Plain.refl s
  split
  · exact Plain.refl s
  dsimp only
  split
  · exact Plain.of_eq rfl rfl rfl rfl rfl rfl rfl
  split
  · exact Plain.of_eq rfl rfl rfl rfl rfl rfl rfl
  next secret out e =>
  refine (Plain.trans (sendAllR2_plain (m := .refreshR2) ?_ out)
    (queueToCoord_plain ?_ _)).after rfl rfl rfl rfl rfl rfl rfl
  · exact fun k dst pkg ct e hlen => (h.round2 k dst pkg ct e hlen).2
  · unfold notice
    rw [sendAllR2_myId]
    exact h.notices.2

theorem finishDkg_plain (h : Allows P s.myId env) (key : Bytes) {pub : Bytes}
    (hp : P .pubKeyPkg pub) : Plain keys P s (finishDkg keys env s key pub) := by
  unfold finishDkg
  dsimp only
  refine (((queueToCoord_plain h.notices.1 _).trans (saveKeyMaterial_plain _ env)).trans
    (queueToCoord_plain ?_ _)).after rfl rfl rfl rfl rfl rfl rfl
  exact hp

theorem onRelayR2_plain (h : Allows P s.myId env) (f : Frame) :
    Plain keys P s (onRelayR2 keys env s f) := by
  unfold onRelayR2
  split
  · exact Plain.refl s
  split
  · exact Plain.refl s
  split
  · exact Plain.of_eq rfl rfl rfl rfl rfl rfl rfl
  dsimp only
  split
  · exact Plain.of_eq rfl rfl rfl rfl rfl rfl rfl
  split
  · exact Plain.of_eq rfl rfl rfl rfl rfl rfl rfl
  next key pub e =>
  unfold frostDkgPart3 at e
  split at e
  · cases e
  refine (finishDkg_plain ?_ key (h.pubKeyPkg _ _ _ _ _ e)).after rfl rfl rfl rfl rfl rfl rfl
  exact h

theorem onRelayRefreshR2_plain (f : Frame) : Plain keys P s (onRelayRefreshR2 keys s f) := by
  unfold onRelayRefreshR2
  split
  · exact Plain.refl s
  split
  · exact Plain.refl s
  split <;> exact Plain.of_eq rfl rfl rfl rfl rfl rfl rfl

theorem finishRefresh_plain (key : Bytes) {pub : Bytes} (hp : P .refreshComplete pub) :
    Plain keys P s (finishRefresh keys env s key pub) := by
  have h : Plain keys P s (saveKeyMaterial { s with keyPkg := key, pubKeyPkg := pub } env).1 :=
    (saveKeyMaterial_plain _ env).after rfl rfl rfl rfl rfl rfl rfl
  unfold finishRefresh
  split
  · next e => rw [e] at h; exact h
  · next e => rw [e] at h; exact h.trans (queueToCoord_plain hp _)

theorem onRefreshFinalize_plain (h : Allows P s.myId env) :
    Plain keys P s (onRefreshFinalize keys env s) := by
  unfold onRefreshFinalize
  split
  · exact Plain.refl s
  dsimp only
  split
  · exact Plain.of_eq rfl rfl rfl rfl rfl rfl rfl
  · next key pub e =>
    exact (finishRefresh_plain key (h.refreshComplete _ _ _ _ _ _ _ _ e)).after
      rfl rfl rfl rfl rfl rfl rfl

/-! ## The three outcomes -/

/-- What `process_coord_frame` makes of a frame. -/
inductive Outcome (keys : Keys) (P : MsgType → Bytes → Prop) (s : Node) (f : Frame) (env : Env) :
    Node → Prop where
  | plain {s₁ : Node} (h : Plain keys P s s₁) : Outcome keys P s f env s₁
  | request {s₁ : Node} (type : f.type = .signReq) (load : Plain keys P s s₁)
      (short : f.payload.length ≤ maxPayload) :
      Outcome keys P s f env (acceptRequest keys env s₁ f.payload)
  | share {b : CommitBundle} (type : f.type = .relayCommit)
      (accepted : acceptedBundle keys s f.payload = some b) :
      Outcome keys P s f env (signBundle keys env s b)

theorem ensureKey_plain (hP : P .shareLoadFail []) (s : Node) :
    Plain keys P s (ensureKey keys env s).1 := by
  unfold ensureKey
  split
  · exact loadOrFail_plain hP s
  · exact Plain.refl s

theorem onSignReq_outcome (h : Allows P s.myId env) {f : Frame} (hf : f.type = .signReq) :
    Outcome keys P s f env (onSignReq keys env s f) := by
  have hk : Plain keys P s (ensureKey keys env s).1 := ensureKey_plain h.shareLoadFail s
  unfold onSignReq
  split
  · next e => rw [e] at hk; exact .plain hk
  · next e =>
    rw [e] at hk
    split
    · exact .plain hk
    · exact .request hf hk (by omega)

theorem onRelayCommit_outcome {f : Frame} (hf : f.type = .relayCommit) :
    Outcome keys P s f env (onRelayCommit keys env s f) := by
  unfold onRelayCommit
  split
  · exact .plain (Plain.refl s)
  · next b e => exact .share hf e

theorem onError_plain : Plain keys P s (onError s) := by
  unfold onError
  split
  · exact Plain.refl s
  · exact Plain.of_eq rfl rfl rfl rfl rfl rfl rfl

/-- **Every frame is plain, an accepted request or an accepted bundle.** -/
theorem process_outcome (h : Allows P s.myId env) (f : Frame) :
    Outcome keys P s f env (processCoordFrame keys env s f) := by
  unfold processCoordFrame
  cases e : f.type with
  | helloAck => exact .plain (onHelloAck_plain h f)
  | startDkg => exact .plain (onStartDkg_plain h f)
  | relayR1 => exact .plain (onRelayR1_plain h f)
  | relayR2 => exact .plain (onRelayR2_plain h f)
  | startRefresh => exact .plain (onStartRefresh_plain h f)
  | relayRefreshR1 => exact .plain (onRelayRefreshR1_plain h f)
  | relayRefreshR2 => exact .plain (onRelayRefreshR2_plain f)
  | refreshFinalize => exact .plain (onRefreshFinalize_plain h)
  | signReq => exact onSignReq_outcome h e
  | relayCommit => exact onRelayCommit_outcome e
  | error => exact .plain onError_plain
  | _ => exact .plain (Plain.refl s)

/-- A pass of the event loop is such an outcome, with or without the commitment
made ahead. -/
theorem step_outcome (keys : Keys) (h : Allows P s.myId env) (f : Frame) :
    ∃ s', Outcome keys P s f env s' ∧
    (step keys s (f, env) = s' ∨ step keys s (f, env) = precompute env s') := by
  unfold step
  split
  · exact ⟨s, .plain (Plain.refl s), .inl rfl⟩
  split
  · exact ⟨{ s with exited := true }, .plain (Plain.of_eq rfl rfl rfl rfl rfl rfl rfl), .inl rfl⟩
  refine ⟨_, process_outcome h f, ?_⟩
  dsimp only
  split
  · exact .inl rfl
  · exact .inr rfl

/-! ## The pieces of the signing round -/

/-- `frost_commit` draws a pair, or leaves no nonces. -/
theorem freshCommit_cases (s : Node) (answer : Bytes → CommitResult) :
    (∃ n c, answer s.keyPkg = .ok n c ∧ c.length ≤ maxPayload ∧ freshCommit s answer =
      ({ s with nonces := n, commit := c, log := s.log ++ [.generated n c] }, true)) ∨
    ∃ c, (s.commit.length ≤ maxPayload → c.length ≤ maxPayload) ∧
      freshCommit s answer = ({ s with nonces := [], commit := c }, false) := by
  have hov (w : Bytes) : (overwrite s.commit w).length ≤ s.commit.length := by
    simp [overwrite]
  unfold freshCommit
  split
  · exact .inr ⟨s.commit, id, rfl⟩
  cases e : answer s.keyPkg with
  | failed w => exact .inr ⟨_, fun h => (hov w).trans h, rfl⟩
  | ok n c =>
    dsimp only
    split
    · next hfit =>
      simp only [fits, Bool.and_eq_true, decide_eq_true_eq] at hfit
      exact .inl ⟨n, c, rfl, hfit.2, rfl⟩
    · refine .inr ⟨_, fun h => ?_, rfl⟩
      split
      · exact (hov c).trans h
      · exact h

/-- The buffer a `COMMIT` signs. -/
def commitBuf (tbs commit : Bytes) : Bytes := be16 tbs.length ++ tbs ++ commit

/-- Sizes that fit the buffers are signed whole. -/
theorem sendCommit_eq (ht : s.tbs.length ≤ maxPayload) (hc : s.commit.length ≤ maxPayload) :
    sendCommit keys s = { queueToCoordSigned keys s .commit (commitBuf s.tbs s.commit) s.commit with
      commitIsPrecomputed := false } := by
  unfold sendCommit
  rw [buildCommitSignBuf_some ht hc]
  dsimp only
  have hlen : (be16 s.tbs.length ++ s.tbs ++ s.commit).length < 2 ^ 16 := by
    simp only [List.length_append, length_be16]
    unfold maxPayload at ht hc
    omega
  rw [Nat.mod_eq_of_lt hlen, List.take_length]
  rfl

theorem acceptedBundle_some {payload : Bytes} {b : CommitBundle}
    (h : acceptedBundle keys s payload = some b) :
    (∃ k, unpackCommitBundle payload = some (b, k)) ∧ bundleAccepted keys s b := by
  unfold acceptedBundle at h
  split at h
  · cases h
  obtain ⟨⟨b', k⟩, e, h⟩ := Option.bind_eq_some_iff.mp h
  dsimp only at h
  split at h
  · next hb => cases h; exact ⟨⟨k, e⟩, hb⟩
  · cases h

/-- Checks (a) to (d), one by one. -/
structure Accepted (keys : Keys) (s : Node) (b : CommitBundle) : Prop where
  size : b.entries.length = s.t
  distinct : (b.entries.map (·.id)).Nodup
  signed : ∀ e ∈ b.entries, entryVerified keys b.tbs e
  own : ∀ e ∈ b.entries, e.id = s.myId → e.commit = s.commit
  self : ∃ e ∈ b.entries, e.id = s.myId
  tbs : b.tbs = s.tbs

theorem bundleAccepted_iff {b : CommitBundle} : bundleAccepted keys s b ↔ Accepted keys s b := by
  unfold bundleAccepted
  simp only [Bool.and_eq_true, decide_eq_true_eq, List.all_eq_true, List.any_eq_true,
    Bool.or_eq_true]
  constructor
  · rintro ⟨⟨⟨⟨h1, h2⟩, h3⟩, h4⟩, h5⟩
    refine ⟨h1, h2, fun e he => (h3 e he).1, fun e he hid => ?_, h4, h5⟩
    exact (h3 e he).2.resolve_left fun hne => hne hid
  · rintro ⟨h1, h2, h3, h4, h5, h6⟩
    refine ⟨⟨⟨⟨h1, h2⟩, fun e he => ⟨h3 e he, ?_⟩⟩, h5⟩, h6⟩
    by_cases hid : e.id = s.myId
    · exact .inr (h4 e he hid)
    · exact .inl hid

/-- The bundle an unpacked payload yields has entries and a message that fit. -/
theorem entryVerified_iff {tbs : Bytes} {e : CommitEntry} (ht : tbs.length ≤ maxPayload)
    (hc : e.commit.length ≤ maxPayload) :
    entryVerified keys tbs e ↔ keys.verify e.id (commitBuf tbs e.commit) e.commitSig := by
  unfold entryVerified
  rw [buildCommitSignBuf_some ht hc]
  rfl

/-- A bundle is signed with a share, or nothing happens. -/
theorem signBundle_cases (keys : Keys) (env : Env) (s : Node) (b : CommitBundle) :
    signBundle keys env s b = s ∨
    ∃ spkg share, env.assemble b = some spkg ∧ frostSign s env spkg = some share ∧
      signBundle keys env s b = sendShare keys s b spkg share := by
  unfold signBundle
  split
  · exact .inl rfl
  next spkg e =>
  split
  · exact .inl rfl
  next share e' => exact .inr ⟨spkg, share, e, e', rfl⟩

theorem frostSign_some {spkg share : Bytes} (h : frostSign s env spkg = some share) :
    s.nonces ≠ [] ∧ env.sign spkg s.nonces s.keyPkg = some share := by
  unfold frostSign at h
  split at h
  · cases h
  next hne =>
  refine ⟨fun h0 => hne (.inl (by rw [h0]; rfl)), h⟩

end FrostSshCa.Signer
