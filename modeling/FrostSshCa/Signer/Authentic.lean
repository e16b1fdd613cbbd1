import FrostSshCa.Signer.Nonce

/-!
# Whose commitments a signer accepts

A group of signers with a coordinator that sends what it likes. All payloads of
a signer are signed under one RSA key, which outlives its processes, and nothing in the
signed bytes says what they are. A bundle's entry is checked against `[tbs_len][tbs][commit]`; what it
proves depends on whether another payload of its owner can be read that way.
-/

namespace FrostSshCa.Signer

open Lib

/-! ## Payloads that read as a signed commitment -/

/-- The bytes read as `[tbs_len][tbs][commit]` with fields a bundle can hold. -/
def ReadsAsCommit (p : Bytes) : Prop :=
  ∃ tbs c, tbs.length ≤ maxPayload ∧ c.length ≤ commitEntryMax ∧ p = commitBuf tbs c

theorem readsAsCommit_iff {p : Bytes} : ReadsAsCommit p ↔ ∃ hi lo rest, p = hi :: lo :: rest ∧
    ofBe16 hi lo ≤ maxPayload ∧ ofBe16 hi lo ≤ rest.length ∧
    rest.length ≤ ofBe16 hi lo + commitEntryMax := by
  constructor
  · rintro ⟨tbs, c, ht, hc, rfl⟩
    have hlt : tbs.length < 65536 := by unfold maxPayload at ht; omega
    refine ⟨_, _, tbs ++ c, rfl, ?_⟩
    rw [ofBe16_be16 hlt, List.length_append]
    omega
  · rintro ⟨hi, lo, rest, rfl, hmax, hle, hlen⟩
    refine ⟨rest.take (ofBe16 hi lo), rest.drop (ofBe16 hi lo), ?_, ?_, ?_⟩
    · rw [List.length_take]; omega
    · rw [List.length_drop]; omega
    · have e : be16 (rest.take (ofBe16 hi lo)).length = [hi, lo] := by
        rw [List.length_take, Nat.min_eq_left hle]
        have hb := ofBe16_be16 (ofBe16_lt hi lo)
        obtain ⟨h1, h2⟩ := ofBe16_inj hb
        simp only [be16, h1, h2]
      unfold commitBuf
      rw [e, List.append_assoc, List.take_append_drop]
      rfl

instance (p : Bytes) : Decidable (ReadsAsCommit p) :=
  match p with
  | hi :: lo :: rest => decidable_of_iff (ofBe16 hi lo ≤ maxPayload ∧ ofBe16 hi lo ≤ rest.length ∧
      rest.length ≤ ofBe16 hi lo + commitEntryMax) (by
        rw [readsAsCommit_iff]
        constructor
        · intro h; exact ⟨hi, lo, rest, rfl, h⟩
        · rintro ⟨_, _, _, e, h⟩; cases e; exact h)
  | [] | [_] => isFalse (by rw [readsAsCommit_iff]; rintro ⟨_, _, _, e, -⟩; cases e)

/-- The id notices are two bytes that announce at least one more. -/
theorem notice_not_readsAsCommit {i : Nat} (h0 : 1 ≤ i) (h : i < 65536) :
    ¬ ReadsAsCommit (be16 i) := by
  rw [readsAsCommit_iff]
  rintro ⟨hi, lo, rest, e, -, hle, -⟩
  cases e
  rw [ofBe16_be16 h, List.length_nil] at hle
  omega

/-- `HELLO` starts with `SI`, a length no `HELLO` has. -/
theorem hello_not_readsAsCommit (id n t : Nat) : ¬ ReadsAsCommit (helloText id n t) := by
  have h1 := decimal_length id; have h2 := decimal_length n; have h3 := decimal_length t
  have e : helloText id n t = 83 :: 73 :: ([71, 78, 69, 82] ++ [32] ++ decimal id ++ [32] ++
      decimal n ++ [32] ++ decimal t ++ [10]) := rfl
  rw [readsAsCommit_iff, e]
  rintro ⟨hi, lo, rest, e, -, hle, -⟩
  cases e
  have h83 : ofBe16 83 73 = 21321 := rfl
  rw [h83] at hle
  simp only [List.length_append, List.length_cons, List.length_nil] at hle
  omega

/-- A round-2 payload `[src][dst][ct]` reads as a message of `src` bytes: with a
256-byte ciphertext it does for every source but 1. -/
theorem round2_readsAsCommit_iff {src : Nat} (h : src ≤ maxPayload) (dst : Nat) (ct : Bytes) :
    ReadsAsCommit (be16 src ++ be16 dst ++ ct) ↔
      src ≤ ct.length + 2 ∧ ct.length + 2 ≤ src + commitEntryMax := by
  have hlt : src < 65536 := by unfold maxPayload at h; omega
  have hlen : (be16 dst ++ ct).length = ct.length + 2 := by
    rw [List.length_append, length_be16, Nat.add_comm]
  rw [readsAsCommit_iff, List.append_assoc, ← hlen]
  constructor
  · rintro ⟨hi, lo, rest, e, -, h1, h2⟩
    cases e
    rw [ofBe16_be16 hlt] at h1 h2
    exact ⟨h1, h2⟩
  · rintro ⟨h1, h2⟩
    refine ⟨_, _, _, rfl, ?_⟩
    rw [ofBe16_be16 hlt]
    exact ⟨h, h1, h2⟩

/-! ## One signer -/

/-- Nothing the subprocesses of signer `i` answer makes it sign, outside
`COMMIT`, bytes that read as a signed commitment. -/
structure Separated (i : Nat) (env : Env) : Prop where
  round1 : ∀ id n t secret pkg, env.dkgPart1 id n t = .ok (secret, pkg) → ¬ ReadsAsCommit pkg
  refreshR1 : ∀ id n t secret pkg, env.refreshPart1 id n t = .ok (secret, pkg) →
    ¬ ReadsAsCommit pkg
  round2 : ∀ k dst pkg ct, env.encrypt k dst pkg = some ct → ct.length ≤ 256 →
    ct.length + 2 < i ∨ i + commitEntryMax < ct.length + 2
  pubKeyPkg : ∀ secret r1 r2 key pub, env.dkgPart3 secret r1 r2 = .ok (key, pub) →
    ¬ ReadsAsCommit pub
  refreshComplete : ∀ n secret r1 r2 key pub key' pub',
    env.refreshShares n secret r1 r2 key pub = some (key', pub') → ¬ ReadsAsCommit pub'
  share : ∀ spkg nonces key share, env.sign spkg nonces key = some share → ¬ ReadsAsCommit share

/-- What a signer signed is the `COMMIT` it sent, or does not read as one. -/
structure SignedInv (i : Nat) (s : Node) : Prop where
  myId : s.myId = i
  tbs_le : s.tbs.length ≤ maxPayload
  commit_le : s.commit.length ≤ maxPayload
  signed : ∀ type buf payload, .queued type buf payload ∈ s.log →
    (type = .commit ∧ ∃ tbs, tbs.length ≤ maxPayload ∧ buf = commitBuf tbs payload) ∨
      ¬ ReadsAsCommit buf

variable {keys : Keys} {env : Env} {s s' : Node} {i : Nat}

theorem Separated.allows (h : Separated i env) (h1 : 1 ≤ i) (hi : i ≤ maxSigners) :
    Allows (fun _ p => ¬ ReadsAsCommit p) i env where
  shareLoadFail := by decide
  round1 := h.round1
  refreshR1 := h.refreshR1
  round2 := by
    intro k dst pkg ct e hlen
    have hno : ¬ ReadsAsCommit (be16 i ++ be16 dst ++ ct) := by
      rw [round2_readsAsCommit_iff (by unfold maxSigners at hi; unfold maxPayload; omega)]
      have := h.round2 k dst pkg ct e hlen
      omega
    exact ⟨hno, hno⟩
  notices := by
    have hno := notice_not_readsAsCommit h1 (by unfold maxSigners at hi; omega)
    exact ⟨hno, hno⟩
  pubKeyPkg := h.pubKeyPkg
  refreshComplete := h.refreshComplete
  share := h.share

theorem SignedInv.plain (h : SignedInv i s)
    (hp : Plain keys (fun _ p => ¬ ReadsAsCommit p) s s') : SignedInv i s' := by
  obtain ⟨ps, hps, hlog, -⟩ := hp.sent
  refine ⟨hp.myId.trans h.myId, hp.tbs ▸ h.tbs_le, hp.commit ▸ h.commit_le, ?_⟩
  intro type buf payload hq
  rw [hlog] at hq
  rcases List.mem_append.mp hq with hq | hq
  · exact h.signed type buf payload hq
  · obtain ⟨p, hp, e⟩ := List.mem_map.mp hq
    cases e
    exact .inr (hps p hp)

theorem freshCommit_signedInv (h : SignedInv i s) (answer : Bytes → CommitResult) :
    SignedInv i (freshCommit s answer).1 := by
  rcases freshCommit_cases s answer with ⟨n, c, -, hlen, e⟩ | ⟨c, hlen, e⟩
  · rw [e]
    refine ⟨h.myId, h.tbs_le, hlen, ?_⟩
    intro type buf payload hq
    rcases List.mem_append.mp hq with hq | hq
    · exact h.signed type buf payload hq
    · cases List.mem_singleton.mp hq
  · rw [e]
    exact ⟨h.myId, h.tbs_le, hlen h.commit_le, h.signed⟩

theorem sendCommit_signedInv (h : SignedInv i s) : SignedInv i (sendCommit keys s) := by
  rw [sendCommit_eq h.tbs_le h.commit_le]
  refine ⟨h.myId, h.tbs_le, h.commit_le, ?_⟩
  intro type buf payload hq
  rcases List.mem_append.mp hq with hq | hq
  · exact h.signed type buf payload hq
  · cases List.mem_singleton.mp hq
    exact .inl ⟨rfl, s.tbs, h.tbs_le, rfl⟩

theorem acceptRequest_signedInv (h : SignedInv i s) {tbs : Bytes} (ht : tbs.length ≤ maxPayload) :
    SignedInv i (acceptRequest keys env s tbs) := by
  have h1 : SignedInv i { s with tbs := tbs, state := .signing } :=
    ⟨h.myId, ht, h.commit_le, h.signed⟩
  unfold acceptRequest
  dsimp only
  split
  · exact sendCommit_signedInv h1
  have h2 := freshCommit_signedInv h1 env.commit
  split
  · next e => rw [e] at h2; exact h2
  · next e => rw [e] at h2; exact sendCommit_signedInv h2

theorem signBundle_signedInv (h : SignedInv i s) (hs : Separated i env) (b : CommitBundle) :
    SignedInv i (signBundle keys env s b) := by
  rcases signBundle_cases keys env s b with e | ⟨spkg, share, -, hsg, e⟩
  · rw [e]; exact h
  rw [e]
  refine ⟨h.myId, h.tbs_le, h.commit_le, ?_⟩
  intro type buf payload hq
  rcases List.mem_append.mp hq with hq | hq
  · rcases List.mem_append.mp hq with hq | hq
    · exact h.signed type buf payload hq
    · cases List.mem_singleton.mp hq
  · cases List.mem_singleton.mp hq
    exact .inr (hs.share _ _ _ _ (frostSign_some hsg).2)

theorem precompute_signedInv (h : SignedInv i s) : SignedInv i (precompute env s) := by
  unfold precompute
  split
  · have h2 := freshCommit_signedInv h env.precommit
    split
    · next e => rw [e] at h2; exact h2
    · next e => rw [e] at h2; exact ⟨h2.myId, h2.tbs_le, h2.commit_le, h2.signed⟩
  · exact h

theorem step_signedInv (f : Frame) (h : SignedInv i s) (hs : Separated i env) (h1 : 1 ≤ i)
    (hi : i ≤ maxSigners) : SignedInv i (step keys s (f, env)) := by
  have hal : Allows (fun _ p => ¬ ReadsAsCommit p) s.myId env := h.myId ▸ hs.allows h1 hi
  obtain ⟨s', ho, hstep⟩ := step_outcome keys hal f
  have h' : SignedInv i s' := by
    cases ho with
    | plain hp => exact h.plain hp
    | request type load short => exact acceptRequest_signedInv (h.plain load) short
    | share type accepted => exact signBundle_signedInv h hs _
  rcases hstep with e | e
  · rw [e]; exact h'
  · rw [e]; exact precompute_signedInv h'

/-! ## The group -/

/-- Signer `i` processes a frame, or its process is started again with other sizes. -/
inductive GroupEvent where
  | frame (i : Nat) (f : Frame) (env : Env)
  | restart (i n t : Nat)

def groupStep (keys : Keys) (g : Nat → Node) : GroupEvent → Nat → Node
  | .frame i f env => Function.update g i (step keys (g i) (f, env))
  | .restart i n t => Function.update g i ((g i).restart keys i n t)

/-- The honest signers `H` start as `main` starts them, with keys that have signed nothing. -/
def GroupStart (keys : Keys) (H : Nat → Prop) (g : Nat → Node) : Prop :=
  ∀ i, H i → ∃ n t, Args i n t ∧ g i = Node.start keys i n t

/-- Honest signers meet `Separated` in every step. -/
def GroupSeparated (H : Nat → Prop) (_ : Nat → Node) : GroupEvent → Prop
  | .frame i _ env => H i → Separated i env
  | .restart .. => True

/-- Every entry of an honest owner that verifies verifies bytes the owner signed, in
whatever process. -/
def Unforged (keys : Keys) (H : Nat → Prop) (g : Nat → Node) (b : CommitBundle) : Prop :=
  ∀ en ∈ b.entries, H en.id → keys.verify en.id (commitBuf b.tbs en.commit) en.commitSig →
    ∃ type payload, .queued type (commitBuf b.tbs en.commit) payload ∈ (g en.id).log

/-- Every entry of an honest owner was sent in a `COMMIT` for the bundle's message. -/
def Authentic (H : Nat → Prop) (g : Nat → Node) (b : CommitBundle) : Prop :=
  ∀ en ∈ b.entries, H en.id →
    .queued .commit (commitBuf b.tbs en.commit) en.commit ∈ (g en.id).log

theorem start_signedInv (i n t : Nat) : SignedInv i (Node.start keys i n t) := by
  refine ⟨rfl, Nat.zero_le _, Nat.zero_le _, ?_⟩
  intro type buf payload hq
  cases List.mem_singleton.mp hq
  exact .inr (hello_not_readsAsCommit i n t)

/-- A new process goes on signing with the key of the old one. -/
theorem SignedInv.restart (h : SignedInv i s) (n t : Nat) :
    SignedInv i (s.restart keys i n t) := by
  unfold Node.restart
  split
  · refine ⟨rfl, Nat.zero_le _, Nat.zero_le _, fun type buf payload hq => ?_⟩
    rcases List.mem_append.mp hq with hq | hq
    · exact h.signed type buf payload hq
    · have hstart : SignedInv i (Node.start keys i n t) := start_signedInv i n t
      exact hstart.signed type buf payload hq
  · exact ⟨h.myId, h.tbs_le, h.commit_le, h.signed⟩

/-- What all honest signers have signed, in whatever process. -/
def GroupSigned (H : Nat → Prop) (g : Nat → Node) : Prop :=
  ∀ i, H i → SignedInv i (g i) ∧ 1 ≤ i ∧ i ≤ maxSigners

theorem GroupSigned.start {H : Nat → Prop} {g : Nat → Node} (h : GroupStart keys H g) :
    GroupSigned H g := by
  intro i hi
  obtain ⟨n, t, hargs, e⟩ := h i hi
  have := hargs.idRange; have := hargs.nRange
  rw [e]
  exact ⟨start_signedInv i n t, by omega, by omega⟩

theorem GroupSigned.step {H : Nat → Prop} {g : Nat → Node} {e : GroupEvent}
    (h : GroupSigned H g) (hsep : GroupSeparated H g e) : GroupSigned H (groupStep keys g e) := by
  intro j hj
  obtain ⟨hinv, h1, hmax⟩ := h j hj
  refine ⟨?_, h1, hmax⟩
  cases e with
  | frame i f env =>
    show SignedInv j (Function.update g i _ j)
    by_cases hij : j = i
    · subst hij
      rw [Function.update_self]
      exact step_signedInv f hinv (hsep hj) h1 hmax
    · rw [Function.update_of_ne hij]
      exact hinv
  | restart i n t =>
    show SignedInv j (Function.update g i _ j)
    by_cases hij : j = i
    · subst hij
      rw [Function.update_self]
      exact hinv.restart n t
    · rw [Function.update_of_ne hij]
      exact hinv

/-- Where all the owner signed is separated, a verified entry was sent. -/
theorem SignedInv.sent (h : SignedInv i s) {type : MsgType} {tbs c payload : Bytes}
    (ht : tbs.length ≤ maxPayload) (hc : c.length ≤ commitEntryMax)
    (hq : .queued type (commitBuf tbs c) payload ∈ s.log) :
    .queued .commit (commitBuf tbs c) c ∈ s.log := by
  rcases h.signed _ _ _ hq with ⟨rfl, tbs', ht', e⟩ | hno
  · have hlt : tbs.length < 65536 := by unfold maxPayload at ht; omega
    have hlt' : tbs'.length < 65536 := by unfold maxPayload at ht'; omega
    obtain ⟨-, rfl⟩ := signBuf_inj hlt hlt' e
    exact hq
  · exact absurd ⟨tbs, c, ht, hc, rfl⟩ hno

/-- **Accepted commitments are authentic** in every run, over any number of processes, in
which no honest signer is made to sign a payload that reads as a commitment. -/
theorem commit_authentic (keys : Keys) (H : Nat → Prop) {g₀ : Nat → Node}
    (h0 : GroupStart keys H g₀) {es : List GroupEvent}
    (hes : Along (groupStep keys) (GroupSeparated H) g₀ es) (i : Nat) (payload : Bytes)
    (b : CommitBundle)
    (hb : acceptedBundle keys (run (groupStep keys) g₀ es i) payload = some b)
    (hu : Unforged keys H (run (groupStep keys) g₀ es) b) :
    Authentic H (run (groupStep keys) g₀ es) b := by
  have hinv : GroupSigned H (run (groupStep keys) g₀ es) :=
    Along.invariant (fun g e hg hsep => hg.step hsep) (GroupSigned.start h0) hes
  obtain ⟨⟨k, hun⟩, hacc⟩ := acceptedBundle_some hb
  obtain ⟨ht, hc⟩ := unpackCommitBundle_le hun
  intro en hen hH
  have hcm : en.commit.length ≤ maxPayload := by
    have := hc en hen
    unfold commitEntryMax at this
    unfold maxPayload
    omega
  have hv := (entryVerified_iff ht hcm).mp ((bundleAccepted_iff.mp hacc).signed en hen)
  obtain ⟨type, p, hq⟩ := hu en hen hH hv
  exact (hinv en.id hH).1.sent ht (hc en hen) hq

/-! A run that breaks it: two signers hold a DKG, are started again to sign, and signer 1
is asked to sign the two bytes that name signer 2 in the DKG. -/

def startFrame : Frame := ⟨.startDkg, [], printTwo (ascii "START_DKG") 2 2⟩

/-- The 256 bytes every encryption answers. -/
def sampleCt : Bytes := List.replicate 256 9

def dkgEnv (pkg : Bytes) : Env :=
  { plainEnv with
    dkgPart1 := fun _ _ _ => .ok ([3], pkg)
    dkgPart2 := fun _ _ => .ok ([4], [(1, [4])])
    encrypt := fun _ _ _ => some sampleCt
    commit := fun _ => .ok [161] [193] }

def crossRun : List GroupEvent :=
  [.frame 1 startFrame (dkgEnv [1]),
    .frame 2 startFrame (dkgEnv [2]),
    .frame 2 ⟨.relayR1, toySign 1 [1], [0, 1, 1]⟩ (dkgEnv []),
    .restart 1 2 2,
    .restart 2 2 2,
    .frame 1 ackFrame plainEnv,
    .frame 1 (requestFrame [0, 1]) (dkgEnv [])]

/-- The round-2 package of signer 2, passed off as its commitment. -/
def crossBundle : CommitBundle where
  entries := [⟨1, [193], toySign 1 (commitBuf [0, 1] [193])⟩,
    ⟨2, sampleCt, toySign 2 ([0, 2, 0, 1] ++ sampleCt)⟩]
  tbs := [0, 1]

def crossPayload : Bytes := (packCommitBundle commitBundleWireMax crossBundle).getD []

/-- Signer 2 has sent no `COMMIT` at all, and signer 1 accepts one of it. -/
theorem round2_accepted_as_commit :
    let g₀ := fun i => Node.start toyKeys i 2 2
    let g := run (groupStep toyKeys) g₀ crossRun
    GroupStart toyKeys (fun i => i = 1 ∨ i = 2) g₀ ∧
      acceptedBundle toyKeys (g 1) crossPayload = some crossBundle ∧
      Unforged toyKeys (fun i => i = 1 ∨ i = 2) g crossBundle ∧
      ¬ Authentic (fun i => i = 1 ∨ i = 2) g crossBundle := by
  have h1 : .queued .commit (commitBuf [0, 1] [193]) [193] ∈
      (run (groupStep toyKeys) (fun i => Node.start toyKeys i 2 2) crossRun 1).log := by
    decide +kernel
  have h2 : .queued .round2Pkg (commitBuf [0, 1] sampleCt) ([0, 2, 0, 1] ++ sampleCt) ∈
      (run (groupStep toyKeys) (fun i => Node.start toyKeys i 2 2) crossRun 2).log := by
    decide +kernel
  refine ⟨?_, by decide +kernel, ?_, ?_⟩
  · rintro i (rfl | rfl)
    · exact ⟨2, 2, ⟨by decide, by decide, by decide⟩, rfl⟩
    · exact ⟨2, 2, ⟨by decide, by decide, by decide⟩, rfl⟩
  · intro en hen _ _
    rcases List.mem_cons.mp hen with rfl | hen
    · exact ⟨_, _, h1⟩
    · cases List.mem_singleton.mp hen
      exact ⟨_, _, h2⟩
  · intro h
    have h3 := h ⟨2, sampleCt, toySign 2 ([0, 2, 0, 1] ++ sampleCt)⟩ (by simp [crossBundle])
      (.inr rfl)
    revert h3
    decide +kernel

/-- The events of the solo run, in a second process of the signer. -/
def againRun : List GroupEvent := .restart 1 2 1 :: soloRun.map fun e => .frame 1 e.1 e.2

/-- A run without other payloads: the commitment accepted is the one sent. -/
theorem commit_authentic_run : Authentic (· = 1)
    (run (groupStep toyKeys) (fun i => Node.start toyKeys i 2 1) againRun) soloBundle := by
  have hsep (answer : Bytes → CommitResult) :
      Separated 1 { plainEnv with precommit := answer } := by
    refine ⟨nofun, nofun, nofun, nofun, nofun, ?_⟩
    intro spkg nonces key share e
    cases e
    decide
  have hes : Along (groupStep toyKeys) (GroupSeparated (· = 1))
      (fun i => Node.start toyKeys i 2 1) againRun :=
    ⟨trivial, fun _ => hsep _, fun _ => hsep _, fun _ => hsep _, trivial⟩
  refine commit_authentic toyKeys (· = 1) ?_ hes 1 bundleFrame.payload soloBundle
    (by decide +kernel) ?_
  · rintro i rfl
    exact ⟨2, 1, ⟨by decide, by decide, by decide⟩, rfl⟩
  · intro en hen _ _
    cases List.mem_singleton.mp hen
    exact ⟨.commit, [193], by decide +kernel⟩

end FrostSshCa.Signer
