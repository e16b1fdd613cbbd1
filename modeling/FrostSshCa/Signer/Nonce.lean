import FrostSshCa.Signer.Spec
import FrostSshCa.Lib.Run
import FrostSshCa.Lib.Count
import Mathlib.Data.List.Nodup

/-!
# Nonces are used once and for one message

The nonces of the current commitment live in globals that `SIGN_REQ`,
`RELAY_COMMIT` and the event loop write under different flags. `NonceInv` says
what they can hold at any time, whatever the coordinator sends: nonces that no
share has used, and, where the flag says so, a commitment that has not been sent.
-/

namespace FrostSshCa.Signer

open Lib

/-! ## What the history says -/

def Act.nonces? : Act → Option Bytes
  | .generated n _ => some n
  | _ => none

def Act.commit? : Act → Option Bytes
  | .generated _ c => some c
  | _ => none

/-- The commitment an act sends in a `COMMIT`. -/
def Act.sent? : Act → Option Bytes
  | .queued .commit _ payload => some payload
  | _ => none

/-- The nonces of a `frost_sign` whose share is queued. -/
def Act.used? : Act → Option Bytes
  | .shared n _ _ => some n
  | _ => none

/-- The bundle a queued share answers. -/
def Act.bundle? : Act → Option CommitBundle
  | .shared _ b _ => some b
  | _ => none

def generatedNonces (log : List Act) : List Bytes := log.filterMap Act.nonces?

def generatedCommits (log : List Act) : List Bytes := log.filterMap Act.commit?

def sentCommits (log : List Act) : List Bytes := log.filterMap Act.sent?

def usedNonces (log : List Act) : List Bytes := log.filterMap Act.used?

@[simp] theorem generatedNonces_concat (log : List Act) (a : Act) :
    generatedNonces (log ++ [a]) = generatedNonces log ++ a.nonces?.toList := by
  cases h : a.nonces? <;> simp [generatedNonces, h]

@[simp] theorem generatedCommits_concat (log : List Act) (a : Act) :
    generatedCommits (log ++ [a]) = generatedCommits log ++ a.commit?.toList := by
  cases h : a.commit? <;> simp [generatedCommits, h]

@[simp] theorem sentCommits_concat (log : List Act) (a : Act) :
    sentCommits (log ++ [a]) = sentCommits log ++ a.sent?.toList := by
  cases h : a.sent? <;> simp [sentCommits, h]

@[simp] theorem usedNonces_concat (log : List Act) (a : Act) :
    usedNonces (log ++ [a]) = usedNonces log ++ a.used?.toList := by
  cases h : a.used? <;> simp [usedNonces, h]

/-! ## The assumptions -/

/-- `frost_commit` answers with nonces and a commitment never seen before. -/
def Fresh (log : List Act) (answer : Bytes → CommitResult) : Prop :=
  ∀ key n c, answer key = .ok n c → n ∉ generatedNonces log ∧ c ∉ generatedCommits log

/-- A buffer that ends in a commitment of its signer is that commitment's `COMMIT`. -/
def Act.Binds : Act → Act → Prop
  | .queued type buf payload, .generated _ c => c <:+ buf → type = .commit ∧ payload = c
  | _, _ => True

instance : ∀ a g, Decidable (Act.Binds a g)
  | .queued type buf payload, .generated _ c =>
    inferInstanceAs (Decidable (c <:+ buf → type = .commit ∧ payload = c))
  | .queued .., .queued .. | .queued .., .shared .. | .generated .., _ | .shared .., _ =>
    inferInstanceAs (Decidable True)

/-- What is assumed of one pass: fresh commitments, `assemble` keeps the
message, a signature that verifies under the own key was made before, and the
own key signs a buffer ending in an own commitment in its `COMMIT` only. -/
structure Assumed (keys : Keys) (msgOf : Bytes → Bytes) (s : Node) (e : Frame × Env) : Prop where
  freshCommit : Fresh s.log e.2.commit
  freshPrecommit : Fresh s.log e.2.precommit
  assembled : ∀ b spkg, e.2.assemble b = some spkg → msgOf spkg = b.tbs
  unforged : e.1.type = .relayCommit → ∀ b k, unpackCommitBundle e.1.payload = some (b, k) →
    ∀ en ∈ b.entries, en.id = s.myId →
      keys.verify s.myId (commitBuf b.tbs en.commit) en.commitSig →
        ∃ type payload, .queued type (commitBuf b.tbs en.commit) payload ∈ s.log
  ownKey : ∀ a ∈ s.log, ∀ g ∈ s.log, Act.Binds a g

/-! ## The invariant -/

structure NonceInv (msgOf : Bytes → Bytes) (s : Node) : Prop where
  tbs_le : s.tbs.length ≤ maxPayload
  commit_le : s.commit.length ≤ maxPayload
  nonces : (generatedNonces s.log).Nodup
  commits : (generatedCommits s.log).Nodup
  sent : (sentCommits s.log).Nodup
  /-- What a `COMMIT` sends was generated, and is signed with one message. -/
  bound : ∀ buf c, .queued .commit buf c ∈ s.log → (∃ n, .generated n c ∈ s.log) ∧
    ∃ tbs, tbs.length ≤ maxPayload ∧ buf = commitBuf tbs c
  /-- The current nonces belong to the current commitment and are unused. -/
  current : s.nonces ≠ [] → .generated s.nonces s.commit ∈ s.log ∧ s.nonces ∉ usedNonces s.log
  /-- A commitment made ahead has not been sent. -/
  ahead : s.commitIsPrecomputed → (∃ n, .generated n s.commit ∈ s.log) ∧
    s.commit ∉ sentCommits s.log
  used : (usedNonces s.log).Nodup
  shares : ∀ n b spkg, .shared n b spkg ∈ s.log → ∃ c, .generated n c ∈ s.log ∧
    .queued .commit (commitBuf b.tbs c) c ∈ s.log ∧ msgOf spkg = b.tbs

variable {keys : Keys} {msgOf : Bytes → Bytes} {env : Env} {s s' : Node}

theorem mem_generatedNonces {log : List Act} {n : Bytes} :
    n ∈ generatedNonces log ↔ ∃ c, .generated n c ∈ log := by
  simp only [generatedNonces, List.mem_filterMap]
  constructor
  · rintro ⟨a, ha, h⟩
    cases a with
    | generated n' c => cases h; exact ⟨c, ha⟩
    | _ => cases h
  · rintro ⟨c, h⟩
    exact ⟨_, h, rfl⟩

theorem mem_generatedCommits {log : List Act} {c : Bytes} :
    c ∈ generatedCommits log ↔ ∃ n, .generated n c ∈ log := by
  simp only [generatedCommits, List.mem_filterMap]
  constructor
  · rintro ⟨a, ha, h⟩
    cases a with
    | generated n c' => cases h; exact ⟨n, ha⟩
    | _ => cases h
  · rintro ⟨n, h⟩
    exact ⟨_, h, rfl⟩

theorem mem_sentCommits {log : List Act} {c : Bytes} :
    c ∈ sentCommits log ↔ ∃ buf, .queued .commit buf c ∈ log := by
  simp only [sentCommits, List.mem_filterMap]
  constructor
  · rintro ⟨a, ha, h⟩
    unfold Act.sent? at h
    split at h
    · cases h; exact ⟨_, ha⟩
    · cases h
  · rintro ⟨buf, h⟩
    exact ⟨_, h, rfl⟩

/-- A log extended by acts that are neither commitments nor shares. -/
structure SameRound (log log' : List Act) : Prop where
  nonces : generatedNonces log' = generatedNonces log
  commits : generatedCommits log' = generatedCommits log
  sent : sentCommits log' = sentCommits log
  used : usedNonces log' = usedNonces log
  keeps : ∀ a ∈ log, a ∈ log'
  adds : ∀ a ∈ log', a ∈ log ∨ ∃ type buf payload, a = .queued type buf payload ∧ type ≠ .commit

theorem sent?_queued {type : MsgType} (h : type ≠ .commit) (buf payload : Bytes) :
    Act.sent? (.queued type buf payload) = none := by
  unfold Act.sent?
  split
  · next e => cases e; exact absurd rfl h
  · rfl

theorem sameRound_queued {ps : List (MsgType × Bytes)} (h : ∀ p ∈ ps, p.1 ≠ .commit)
    (log : List Act) : SameRound log (log ++ ps.map fun p => .queued p.1 p.2 p.2) := by
  have hnone (g : Act → Option Bytes) (hg : ∀ p ∈ ps, g (.queued p.1 p.2 p.2) = none) :
      (ps.map fun p => Act.queued p.1 p.2 p.2).filterMap g = [] := by
    rw [List.filterMap_map, List.filterMap_eq_nil_iff]
    exact hg
  refine ⟨?_, ?_, ?_, ?_, fun a ha => List.mem_append_left _ ha, ?_⟩
  · rw [generatedNonces, List.filterMap_append, hnone _ fun _ _ => rfl, List.append_nil]; rfl
  · rw [generatedCommits, List.filterMap_append, hnone _ fun _ _ => rfl, List.append_nil]; rfl
  · rw [sentCommits, List.filterMap_append, hnone _ fun p hp => sent?_queued (h p hp) _ _,
      List.append_nil]
    rfl
  · rw [usedNonces, List.filterMap_append, hnone _ fun _ _ => rfl, List.append_nil]; rfl
  · intro a ha
    rcases List.mem_append.mp ha with ha | ha
    · exact .inl ha
    · obtain ⟨p, hp, rfl⟩ := List.mem_map.mp ha
      exact .inr ⟨_, _, _, rfl, h p hp⟩

theorem NonceInv.sameRound (h : NonceInv msgOf s) (ht : s'.tbs = s.tbs) (hc : s'.commit = s.commit)
    (hn : s'.nonces = s.nonces) (hp : s'.commitIsPrecomputed = s.commitIsPrecomputed)
    (hl : SameRound s.log s'.log) : NonceInv msgOf s' := by
  constructor
  · rw [ht]; exact h.tbs_le
  · rw [hc]; exact h.commit_le
  · rw [hl.nonces]; exact h.nonces
  · rw [hl.commits]; exact h.commits
  · rw [hl.sent]; exact h.sent
  · intro buf c hmem
    rcases hl.adds _ hmem with hmem | ⟨_, _, _, e, hne⟩
    · obtain ⟨⟨n, hn⟩, ht⟩ := h.bound buf c hmem
      exact ⟨⟨n, hl.keeps _ hn⟩, ht⟩
    · cases e; exact absurd rfl hne
  · rw [hn, hc, hl.used]
    intro hne
    obtain ⟨hg, hu⟩ := h.current hne
    exact ⟨hl.keeps _ hg, hu⟩
  · rw [hp, hc, hl.sent]
    intro hpre
    obtain ⟨⟨n, hg⟩, hs⟩ := h.ahead hpre
    exact ⟨⟨n, hl.keeps _ hg⟩, hs⟩
  · rw [hl.used]; exact h.used
  · intro n b spkg hmem
    rcases hl.adds _ hmem with hmem | ⟨_, _, _, e, -⟩
    · obtain ⟨c, hg, hq, hm⟩ := h.shares n b spkg hmem
      exact ⟨c, hl.keeps _ hg, hl.keeps _ hq, hm⟩
    · cases e

/-- Payloads of other types leave the invariant alone. -/
theorem Plain.sameRound (hp : Plain keys (fun m _ => m ≠ .commit) s s') :
    SameRound s.log s'.log := by
  obtain ⟨ps, hps, hlog, -⟩ := hp.sent
  rw [hlog]
  exact sameRound_queued hps s.log

theorem NonceInv.plain (h : NonceInv msgOf s) (hp : Plain keys (fun m _ => m ≠ .commit) s s') :
    NonceInv msgOf s' :=
  h.sameRound hp.tbs hp.commit hp.nonces hp.precomputed hp.sameRound

/-! ## Drawing a commitment -/

/-- A fresh pair replaces the current one. -/
theorem NonceInv.draw (h : NonceInv msgOf s) {n c : Bytes} (hn : n ∉ generatedNonces s.log)
    (hc : c ∉ generatedCommits s.log) (hlen : c.length ≤ maxPayload)
    (hp : s.commitIsPrecomputed = false) : NonceInv msgOf
      { s with nonces := n, commit := c, log := s.log ++ [.generated n c] } := by
  have hsent : sentCommits (s.log ++ [.generated n c]) = sentCommits s.log := by simp [Act.sent?]
  have hused : usedNonces (s.log ++ [.generated n c]) = usedNonces s.log := by simp [Act.used?]
  have hmem (a : Act) (ha : a ∈ s.log) : a ∈ s.log ++ [.generated n c] :=
    List.mem_append_left _ ha
  constructor
  · exact h.tbs_le
  · exact hlen
  · show (generatedNonces (s.log ++ [.generated n c])).Nodup
    rw [generatedNonces_concat]
    exact h.nonces.append (List.nodup_singleton n) (by simpa [Act.nonces?] using hn)
  · show (generatedCommits (s.log ++ [.generated n c])).Nodup
    rw [generatedCommits_concat]
    exact h.commits.append (List.nodup_singleton c) (by simpa [Act.commit?] using hc)
  · rw [hsent]; exact h.sent
  · intro buf c' hq
    rcases List.mem_append.mp hq with hq | hq
    · obtain ⟨⟨n', hg⟩, ht⟩ := h.bound buf c' hq
      exact ⟨⟨n', hmem _ hg⟩, ht⟩
    · cases List.mem_singleton.mp hq
  · intro _
    refine ⟨List.mem_append_right _ (List.mem_singleton.mpr rfl), ?_⟩
    rw [hused]
    intro hu
    -- used nonces were generated, and these were not
    obtain ⟨a, ha, e⟩ := List.mem_filterMap.mp hu
    cases a with
    | shared n' b spkg =>
      cases e
      obtain ⟨c', hg, -⟩ := h.shares _ _ _ ha
      exact hn (mem_generatedNonces.mpr ⟨c', hg⟩)
    | _ => cases e
  · intro hpre
    rw [show ({ s with nonces := n, commit := c, log := s.log ++ [.generated n c] } :
      Node).commitIsPrecomputed = false from hp] at hpre
    cases hpre
  · rw [hused]; exact h.used
  · intro n' b spkg hs
    rcases List.mem_append.mp hs with hs | hs
    · obtain ⟨c', hg, hq, hm⟩ := h.shares n' b spkg hs
      exact ⟨c', hmem _ hg, hmem _ hq, hm⟩
    · cases List.mem_singleton.mp hs

/-- A failed `frost_commit` leaves no nonces behind. -/
theorem NonceInv.wipe (h : NonceInv msgOf s) {c : Bytes} (hlen : c.length ≤ maxPayload)
    (hp : s.commitIsPrecomputed = false) : NonceInv msgOf { s with nonces := [], commit := c } := by
  obtain ⟨h1, -, h3, h4, h5, h6, -, -, h9, h10⟩ := h
  refine ⟨h1, hlen, h3, h4, h5, h6, fun hne => absurd rfl hne, ?_, h9, h10⟩
  intro hpre
  rw [show ({ s with nonces := [], commit := c } : Node).commitIsPrecomputed = false from hp] at hpre
  cases hpre

/-- What a successful `frost_commit` guarantees besides the invariant. -/
theorem freshCommit_nonceInv (h : NonceInv msgOf s) {answer : Bytes → CommitResult}
    (hf : Fresh s.log answer) (hp : s.commitIsPrecomputed = false) :
    NonceInv msgOf (freshCommit s answer).1 ∧ ((freshCommit s answer).2 →
      (∃ n, .generated n (freshCommit s answer).1.commit ∈ (freshCommit s answer).1.log) ∧
        (freshCommit s answer).1.commit ∉ sentCommits (freshCommit s answer).1.log) := by
  rcases freshCommit_cases s answer with ⟨n, c, ha, hlen, e⟩ | ⟨c, hlen, e⟩
  · rw [e]
    obtain ⟨hn, hc⟩ := hf _ n c ha
    refine ⟨h.draw hn hc hlen hp, fun _ => ⟨⟨n, ?_⟩, ?_⟩⟩
    · exact List.mem_append_right _ (List.mem_singleton.mpr rfl)
    · intro hs
      obtain ⟨buf, hq⟩ := mem_sentCommits.mp hs
      rcases List.mem_append.mp hq with hq | hq
      · exact hc (mem_generatedCommits.mpr (h.bound buf c hq).1)
      · cases List.mem_singleton.mp hq
  · rw [e]
    exact ⟨h.wipe (hlen h.commit_le) hp, nofun⟩

/-! ## The three places that touch the round -/

/-- Sending a commitment that was generated and not sent yet. -/
theorem sendCommit_nonceInv (h : NonceInv msgOf s) (hg : ∃ n, .generated n s.commit ∈ s.log)
    (hs : s.commit ∉ sentCommits s.log) : NonceInv msgOf (sendCommit keys s) := by
  rw [sendCommit_eq h.tbs_le h.commit_le]
  have hmem (a : Act) (ha : a ∈ s.log) :
      a ∈ s.log ++ [.queued .commit (commitBuf s.tbs s.commit) s.commit] :=
    List.mem_append_left _ ha
  constructor
  · exact h.tbs_le
  · exact h.commit_le
  · show (generatedNonces (s.log ++ _)).Nodup
    rw [generatedNonces_concat]
    simpa [Act.nonces?] using h.nonces
  · show (generatedCommits (s.log ++ _)).Nodup
    rw [generatedCommits_concat]
    simpa [Act.commit?] using h.commits
  · show (sentCommits (s.log ++ _)).Nodup
    rw [sentCommits_concat]
    exact h.sent.append (List.nodup_singleton s.commit) (by simpa [Act.sent?] using hs)
  · intro buf c hq
    rcases List.mem_append.mp hq with hq | hq
    · obtain ⟨⟨n, hn⟩, ht⟩ := h.bound buf c hq
      exact ⟨⟨n, hmem _ hn⟩, ht⟩
    · cases List.mem_singleton.mp hq
      obtain ⟨n, hn⟩ := hg
      exact ⟨⟨n, hmem _ hn⟩, s.tbs, h.tbs_le, rfl⟩
  · intro hne
    obtain ⟨hcur, hu⟩ := h.current hne
    refine ⟨hmem _ hcur, ?_⟩
    show s.nonces ∉ usedNonces (s.log ++ _)
    rw [usedNonces_concat]
    simpa [Act.used?] using hu
  · nofun
  · show (usedNonces (s.log ++ _)).Nodup
    rw [usedNonces_concat]
    simpa [Act.used?] using h.used
  · intro n b spkg hsh
    rcases List.mem_append.mp hsh with hsh | hsh
    · obtain ⟨c, hc, hq, hm⟩ := h.shares n b spkg hsh
      exact ⟨c, hmem _ hc, hmem _ hq, hm⟩
    · cases List.mem_singleton.mp hsh

/-- `SIGN_REQ`: the message may change, but every commitment sent is a new one. -/
theorem acceptRequest_nonceInv (h : NonceInv msgOf s) (hf : Fresh s.log env.commit) {tbs : Bytes}
    (ht : tbs.length ≤ maxPayload) : NonceInv msgOf (acceptRequest keys env s tbs) := by
  have h1 : NonceInv msgOf { s with tbs := tbs, state := .signing } :=
    ⟨ht, h.commit_le, h.nonces, h.commits, h.sent, h.bound, h.current, h.ahead, h.used, h.shares⟩
  unfold acceptRequest
  dsimp only
  split
  · next hp =>
    obtain ⟨hg, hs⟩ := h.ahead hp
    exact sendCommit_nonceInv h1 hg hs
  next hp =>
  obtain ⟨h2, h3⟩ := freshCommit_nonceInv h1 hf (Bool.not_eq_true _ ▸ hp)
  split
  · next e => rw [e] at h2; exact h2
  · next e =>
    rw [e] at h2 h3
    obtain ⟨hg, hs⟩ := h3 rfl
    exact sendCommit_nonceInv h2 hg hs

/-- `RELAY_COMMIT`: the own entry's signature is that of the `COMMIT` that sent
the current commitment, and the nonces are wiped with their first share. -/
theorem signBundle_nonceInv (h : NonceInv msgOf s) {f : Frame} {b : CommitBundle}
    (hA : Assumed keys msgOf s (f, env)) (hf : f.type = .relayCommit)
    (hb : acceptedBundle keys s f.payload = some b) : NonceInv msgOf (signBundle keys env s b) := by
  rcases signBundle_cases keys env s b with e | ⟨spkg, share, has, hsg, e⟩
  · rw [e]; exact h
  rw [e]
  obtain ⟨⟨k, hun⟩, hacc⟩ := acceptedBundle_some hb
  have hacc := bundleAccepted_iff.mp hacc
  obtain ⟨hne, -⟩ := frostSign_some hsg
  obtain ⟨hcur, hunused⟩ := h.current hne
  -- the `COMMIT` of the current commitment, with the message of the bundle
  have hsent : .queued .commit (commitBuf b.tbs s.commit) s.commit ∈ s.log := by
    obtain ⟨en, hen, hid⟩ := hacc.self
    have hc : en.commit = s.commit := hacc.own en hen hid
    have hv := hacc.signed en hen
    rw [entryVerified_iff (hacc.tbs ▸ h.tbs_le) (hc ▸ h.commit_le), hid] at hv
    obtain ⟨type, payload, hq⟩ := hA.unforged hf b k hun en hen hid hv
    rw [hc] at hq
    have hbind := hA.ownKey _ hq _ hcur
    obtain ⟨rfl, rfl⟩ := hbind ⟨be16 b.tbs.length ++ b.tbs, rfl⟩
    exact hq
  have h1 : NonceInv msgOf { s with nonces := [], log := s.log ++ [.shared s.nonces b spkg] } := by
    have hmem (a : Act) (ha : a ∈ s.log) : a ∈ s.log ++ [.shared s.nonces b spkg] :=
      List.mem_append_left _ ha
    constructor
    · exact h.tbs_le
    · exact h.commit_le
    · show (generatedNonces (s.log ++ _)).Nodup
      rw [generatedNonces_concat]
      simpa [Act.nonces?] using h.nonces
    · show (generatedCommits (s.log ++ _)).Nodup
      rw [generatedCommits_concat]
      simpa [Act.commit?] using h.commits
    · show (sentCommits (s.log ++ _)).Nodup
      rw [sentCommits_concat]
      simpa [Act.sent?] using h.sent
    · intro buf c hq
      rcases List.mem_append.mp hq with hq | hq
      · obtain ⟨⟨n, hn⟩, ht⟩ := h.bound buf c hq
        exact ⟨⟨n, hmem _ hn⟩, ht⟩
      · cases List.mem_singleton.mp hq
    · exact fun hne => absurd rfl hne
    · intro hp
      obtain ⟨⟨n, hn⟩, hs⟩ := h.ahead hp
      refine ⟨⟨n, hmem _ hn⟩, ?_⟩
      show s.commit ∉ sentCommits (s.log ++ _)
      rw [sentCommits_concat]
      simpa [Act.sent?] using hs
    · show (usedNonces (s.log ++ _)).Nodup
      rw [usedNonces_concat]
      exact h.used.append (List.nodup_singleton _) (by simpa [Act.used?] using hunused)
    · intro n b' spkg' hsh
      rcases List.mem_append.mp hsh with hsh | hsh
      · obtain ⟨c, hc, hq, hm⟩ := h.shares n b' spkg' hsh
        exact ⟨c, hmem _ hc, hmem _ hq, hm⟩
      · cases List.mem_singleton.mp hsh
        exact ⟨s.commit, hmem _ hcur, hmem _ hsent, hA.assembled b spkg has⟩
  have hshare : ∀ p ∈ [(MsgType.sigShare, share)], p.1 ≠ .commit := by
    intro p hp
    cases List.mem_singleton.mp hp
    nofun
  exact h1.sameRound rfl rfl rfl rfl (sameRound_queued hshare _)

theorem precompute_nonceInv (h : NonceInv msgOf s) (hf : Fresh s.log env.precommit) :
    NonceInv msgOf (precompute env s) := by
  unfold precompute
  split
  next hc =>
    obtain ⟨h2, h3⟩ := freshCommit_nonceInv h hf hc.2.2
    split
    · next e => rw [e] at h2; exact h2
    · next e =>
      rw [e] at h2 h3
      obtain ⟨a1, a2, a3, a4, a5, a6, a7, -, a9, a10⟩ := h2
      exact ⟨a1, a2, a3, a4, a5, a6, a7, fun _ => h3 rfl, a9, a10⟩
  · exact h

/-! ## One pass, and every run -/

theorem Fresh.sameRound {log log' : List Act} {answer : Bytes → CommitResult} (h : Fresh log answer)
    (hl : SameRound log log') : Fresh log' answer := by
  intro key n c e
  rw [hl.nonces, hl.commits]
  exact h key n c e

theorem sendCommit_state (s : Node) : (sendCommit keys s).state = s.state := by
  unfold sendCommit
  split <;> rfl

theorem freshCommit_state (s : Node) (answer : Bytes → CommitResult) :
    (freshCommit s answer).1.state = s.state := by
  rcases freshCommit_cases s answer with ⟨n, c, -, -, e⟩ | ⟨c, -, e⟩ <;> rw [e]

/-- After a request no commitment is made ahead. -/
theorem acceptRequest_state (s : Node) (tbs : Bytes) :
    (acceptRequest keys env s tbs).state = .signing := by
  unfold acceptRequest
  dsimp only
  split
  · exact sendCommit_state _
  have h := freshCommit_state { s with tbs := tbs, state := .signing } env.commit
  split
  · next e => rw [e] at h; exact h
  · next e => rw [e] at h; rw [sendCommit_state]; exact h

theorem precompute_signing (h : s.state = .signing) : precompute env s = s := by
  unfold precompute
  rw [if_neg]
  rw [h]
  simp

theorem signBundle_fresh (s : Node) (b : CommitBundle)
    (hf : Fresh s.log env.precommit) : Fresh (signBundle keys env s b).log env.precommit := by
  rcases signBundle_cases keys env s b with e | ⟨spkg, share, -, -, e⟩
  · rw [e]; exact hf
  rw [e]
  intro key n c ha
  have hn : generatedNonces (s.log ++ [.shared s.nonces b spkg] ++ [.queued .sigShare share share]) =
      generatedNonces s.log := by
    simp [generatedNonces, Act.nonces?]
  have hc : generatedCommits (s.log ++ [.shared s.nonces b spkg] ++ [.queued .sigShare share share]) =
      generatedCommits s.log := by
    simp [generatedCommits, Act.commit?]
  obtain ⟨h1, h2⟩ := hf key n c ha
  exact ⟨fun h => h1 (hn ▸ h), fun h => h2 (hc ▸ h)⟩

/-- No handler but `SIGN_REQ` queues a `COMMIT`. -/
theorem allows_other (myId : Nat) (env : Env) : Allows (fun m _ => m ≠ .commit) myId env where
  shareLoadFail := nofun
  round1 := nofun
  refreshR1 := nofun
  round2 := fun _ _ _ _ _ _ => ⟨nofun, nofun⟩
  notices := ⟨nofun, nofun⟩
  pubKeyPkg := nofun
  refreshComplete := nofun
  share := nofun

theorem step_nonceInv (e : Frame × Env) (h : NonceInv msgOf s) (hA : Assumed keys msgOf s e) :
    NonceInv msgOf (step keys s e) := by
  obtain ⟨f, env⟩ := e
  obtain ⟨s', ho, hs⟩ := step_outcome keys (allows_other s.myId env) f
  cases ho with
  | plain hp =>
    rcases hs with hs | hs
    · rw [hs]; exact h.plain hp
    · rw [hs]
      exact precompute_nonceInv (h.plain hp) (hA.freshPrecommit.sameRound hp.sameRound)
  | request type load short =>
    have h1 : NonceInv msgOf (acceptRequest keys env _ f.payload) :=
      acceptRequest_nonceInv (h.plain load) (hA.freshCommit.sameRound load.sameRound) short
    rw [precompute_signing (acceptRequest_state ..), or_self] at hs
    rw [hs]; exact h1
  | share type accepted =>
    have h1 := signBundle_nonceInv h hA type accepted
    rcases hs with hs | hs
    · rw [hs]; exact h1
    · rw [hs]
      exact precompute_nonceInv h1 (signBundle_fresh s _ hA.freshPrecommit)

/-! ## The claim, and a run -/

/-- What the history of a signer shows. -/
structure SingleUse (msgOf : Bytes → Bytes) (log : List Act) : Prop where
  /-- No commitment is sent twice, -/
  sentOnce : (sentCommits log).Nodup
  /-- and the buffer signed with it holds one message. -/
  signed : ∀ buf c, .queued .commit buf c ∈ log → (∃ n, .generated n c ∈ log) ∧
    ∃ tbs, buf = commitBuf tbs c ∧ ∀ buf', .queued .commit buf' c ∈ log → buf' = commitBuf tbs c
  /-- No nonces enter two shares. -/
  usedOnce : (usedNonces log).Nodup
  /-- A share signs the message of the `COMMIT` of its nonces' commitment. -/
  bound : ∀ n b spkg, .shared n b spkg ∈ log → ∃ c,
    (∀ c', .generated n c' ∈ log ↔ c' = c) ∧
    ∀ buf, .queued .commit buf c ∈ log ↔ buf = commitBuf (msgOf spkg) c

theorem NonceInv.singleUse (h : NonceInv msgOf s) : SingleUse msgOf s.log := by
  have hone (buf buf' c : Bytes) (hq : Act.queued .commit buf c ∈ s.log)
      (hq' : Act.queued .commit buf' c ∈ s.log) : buf = buf' := by
    have := eq_of_filterMap_nodup h.sent hq hq' (x := c) rfl rfl
    cases this; rfl
  refine ⟨h.sent, fun buf c hq => ?_, h.used, fun n b spkg hs => ?_⟩
  · obtain ⟨hg, tbs, -, rfl⟩ := h.bound buf c hq
    exact ⟨hg, tbs, rfl, fun buf' hq' => hone _ _ c hq' hq⟩
  · obtain ⟨c, hg, hq, hm⟩ := h.shares n b spkg hs
    refine ⟨c, fun c' => ⟨fun hg' => ?_, fun e => e ▸ hg⟩, fun buf => ⟨fun hq' => ?_, fun e => ?_⟩⟩
    · have := eq_of_filterMap_nodup h.nonces hg' hg (x := n) rfl rfl
      cases this; rfl
    · rw [hm]; exact hone _ _ c hq' hq
    · rw [e, hm]; exact hq

theorem start_nonceInv (keys : Keys) (msgOf : Bytes → Bytes) (id n t : Nat) :
    NonceInv msgOf (Node.start keys id n t) where
  tbs_le := Nat.zero_le _
  commit_le := Nat.zero_le _
  nonces := List.nodup_nil
  commits := List.nodup_nil
  sent := List.nodup_nil
  bound := fun _ _ h => by cases List.mem_singleton.mp h
  current := fun h => absurd rfl h
  ahead := nofun
  used := List.nodup_nil
  shares := fun _ _ _ h => by cases List.mem_singleton.mp h

/-- **Nonces are used once and for one message**, whatever frames arrive and
whichever calls of the core fail. -/
theorem nonce_single_use (keys : Keys) (msgOf : Bytes → Bytes) (id n t : Nat)
    {es : List (Frame × Env)}
    (h : Along (step keys) (Assumed keys msgOf) (Node.start keys id n t) es) :
    SingleUse msgOf (run (step keys) (Node.start keys id n t) es).log :=
  (Along.invariant (fun _ e hi hA => step_nonceInv e hi hA) (start_nonceInv keys msgOf id n t)
    h).singleUse

/-! A signer of one: registered, asked, and handed its own commitment. -/

/-- Signatures of the right size: the signer and a sum of the bytes. -/
def toySign (id : Nat) (data : Bytes) : Bytes :=
  List.replicate 254 0 ++ [UInt8.ofNat id, data.foldl (· + ·) 0]

def toyKeys : Keys where
  sign := toySign
  verify := fun id data sig => sig = toySign id data
  decrypt := fun _ ct => some ct

/-- Everything fails but the key file, `assemble` and `sign`. -/
def plainEnv : Env where
  dkgPart1 := fun _ _ _ => .error []
  dkgPart2 := fun _ _ => .error (.front [])
  dkgPart3 := fun _ _ _ => .error []
  refreshPart1 := fun _ _ _ => .error []
  refreshPart2 := fun _ _ => .error (.front [])
  refreshShares := fun _ _ _ _ _ _ => none
  encrypt := fun _ _ _ => none
  commit := fun _ => .failed []
  precommit := fun _ => .failed []
  assemble := fun b => some b.tbs
  sign := fun _ _ _ => some [9]
  keyFile := .ok [5]
  pubFile := .absent
  keyWrite := .whole

def ackFrame : Frame := ⟨.helloAck, [], ascii "ACK 1 S\n"⟩

def requestFrame (tbs : Bytes) : Frame := ⟨.signReq, [], tbs⟩

def soloBundle : CommitBundle := ⟨[⟨1, [193], toySign 1 (commitBuf [7] [193])⟩], [7]⟩

def bundleFrame : Frame :=
  ⟨.relayCommit, [], (packCommitBundle commitBundleWireMax soloBundle).getD []⟩

def soloRun : List (Frame × Env) :=
  [(ackFrame, { plainEnv with precommit := fun _ => .ok [161] [193] }),
    (requestFrame [7], plainEnv),
    (bundleFrame, plainEnv)]

theorem fresh_ok {log : List Act} {n c : Bytes} (hn : n ∉ generatedNonces log)
    (hc : c ∉ generatedCommits log) : Fresh log fun _ => .ok n c := by
  intro key n' c' e
  cases e
  exact ⟨hn, hc⟩

theorem fresh_failed (log : List Act) (w : Bytes) : Fresh log fun _ => .failed w := nofun

theorem soloRun_assumed : Along (step toyKeys) (Assumed toyKeys id)
    (Node.start toyKeys 1 2 1) soloRun := by
  have hasm : ∀ b spkg, plainEnv.assemble b = some spkg → id spkg = b.tbs :=
    fun b spkg e => (Option.some.inj e).symm
  refine ⟨⟨fresh_failed _ _, fresh_ok (by decide) (by decide), hasm, nofun, ?_⟩,
    ⟨fresh_failed _ _, fresh_failed _ _, hasm, nofun, ?_⟩,
    ⟨fresh_failed _ _, fresh_failed _ _, hasm, fun _ b k hun en hen _ _ => ?_, ?_⟩, trivial⟩
  · decide +kernel
  · decide +kernel
  · have hb : unpackCommitBundle bundleFrame.payload = some (soloBundle, 266) := by decide +kernel
    rw [show _ = _ from hb] at hun
    cases hun
    cases List.mem_singleton.mp hen
    exact ⟨.commit, [193], by decide +kernel⟩
  · decide +kernel

/-- The share of that run signs what its commitment was sent for. -/
theorem nonce_single_use_run :
    .shared [161] soloBundle [7] ∈ (run (step toyKeys) (Node.start toyKeys 1 2 1) soloRun).log ∧
      SingleUse id (run (step toyKeys) (Node.start toyKeys 1 2 1) soloRun).log :=
  ⟨by decide +kernel, nonce_single_use toyKeys id 1 2 1 soloRun_assumed⟩

end FrostSshCa.Signer
