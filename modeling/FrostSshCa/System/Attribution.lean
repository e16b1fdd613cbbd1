import FrostSshCa.Coordinator.Opened
import FrostSshCa.Signer.Turn
import FrostSshCa.System.State

/-!
# Whose bundle a share answers

A `SIG_SHARE` names no session and is filed under the session the record of its
sender names. Signer `h` follows the code. Its frames are read in the order it
sent them, it answers a bundle only while its last commitment is the one in the
bundle, and it never draws a commitment twice: so a share of `h` can no longer be
under way once the coordinator has read a later commitment of `h`.
-/

namespace FrostSshCa.System

open Coordinator Signer Lib

/-- The commitments of signer `h` in the bundle of a frame. -/
def ownCommits (h : Nat) (f : Frame) : List Bytes :=
  match unpackCommitBundle f.payload with
  | none => []
  | some (b, _) => (b.entries.filter fun e => e.id = h).map (·.commit)

/-- `v` was drawn, and the signer will answer no bundle with it any more. -/
def Dead (x : Node) (v : Bytes) : Prop :=
  v ∈ generatedCommits x.log ∧ (x.nonces ≠ [] → x.commit ≠ v)

/-- `v` was drawn and sent, and every `COMMIT` sent up to it has been read. -/
def Passed (x : Node) (v : Bytes) : Prop :=
  v ∈ generatedCommits x.log ∧
    (x.nonces ≠ [] → x.commit = v → (∀ f ∈ x.outq, f.type ≠ .commit) ∧
      x.commitIsPrecomputed = false)

/-- What a signer has still to be read of. -/
structure Outbox (x : Node) : Prop where
  /-- No share follows a commitment. -/
  order : x.outq.Pairwise fun f f' => f.type = .commit → f'.type ≠ .sigShare
  known : ∀ f ∈ x.outq, f.type = .commit → f.payload ∈ generatedCommits x.log
  /-- Of several commitments the current one is the last. -/
  latest : x.nonces ≠ [] →
    x.outq.Pairwise fun f f' => f.type = .commit → f'.type = .commit → f.payload ≠ x.commit
  unsent : x.commitIsPrecomputed = true → x.nonces ≠ [] →
    ∀ f ∈ x.outq, f.type = .commit → f.payload ≠ x.commit
  ahead : x.commitIsPrecomputed = true → x.commit ∈ generatedCommits x.log

variable {keys : Keys} {x x' : Node} {f : Frame} {v : Bytes}

/-! ## The signer's side -/

/-- What an accepted bundle says of the signer's own commitment. -/
theorem accepted_own {b : CommitBundle} (hb : acceptedBundle keys x f.payload = some b) :
    (∃ n, unpackCommitBundle f.payload = some (b, n)) ∧ x.commit ∈ ownCommits x.myId f := by
  obtain ⟨⟨n, hun⟩, hacc⟩ := acceptedBundle_some hb
  have hacc := bundleAccepted_iff.mp hacc
  obtain ⟨e, he, hid⟩ := hacc.self
  refine ⟨⟨n, hun⟩, ?_⟩
  unfold ownCommits
  rw [hun]
  exact List.mem_map.mpr ⟨e, List.mem_filter.mpr ⟨he, by simpa using hid⟩, hacc.own e he hid⟩

theorem Passed.turn (hp : Passed x v) (ht : Turn keys f x x') : Passed x' v := by
  refine ⟨ht.grows.2.2.1 v hp.1, fun hn hv => ?_⟩
  cases ht with
  | plain h =>
    obtain ⟨ps, hps, -, hout⟩ := h.sent
    rw [h.nonces] at hn
    rw [h.commit] at hv
    obtain ⟨h1, h2⟩ := hp.2 hn hv
    refine ⟨fun g hg => ?_, h.precomputed.trans h2⟩
    rw [hout] at hg
    rcases List.mem_append.mp hg with hg | hg
    · exact h1 g hg
    · obtain ⟨p, hmem, rfl⟩ := List.mem_map.mp hg
      exact (hps p hmem).1
  | still h =>
    obtain ⟨-, h2, h3, h4, -, h6⟩ := roundView_eq h
    rw [h2] at hn
    rw [h3] at hv
    rw [h4, h6]
    exact hp.2 hn hv
  | draw hc h =>
    obtain ⟨-, -, h3, -, -, -⟩ := roundView_eq h
    rw [h3] at hv
    exact absurd hp.1 (hv ▸ hc)
  | answer hc h =>
    obtain ⟨-, -, h3, -, -, -⟩ := roundView_eq h
    rw [h3] at hv
    exact absurd hp.1 (hv ▸ hc)
  | send hpre h =>
    obtain ⟨-, h2, h3, -, -, -⟩ := roundView_eq h
    rw [h2] at hn
    rw [h3] at hv
    rw [(hp.2 hn hv).2] at hpre
    cases hpre
  | giveUp h => exact absurd (roundView_eq h).2.1 hn
  | share _ _ _ h => exact absurd (roundView_eq h).2.1 hn

theorem Dead.turn (hd : Dead x v) (ht : Turn keys f x x') : Dead x' v := by
  refine ⟨ht.grows.2.2.1 v hd.1, fun hn hv => ?_⟩
  cases ht with
  | plain h => exact hd.2 (h.nonces ▸ hn) (h.commit ▸ hv)
  | still h =>
    obtain ⟨-, h2, h3, -, -, -⟩ := roundView_eq h
    exact hd.2 (h2 ▸ hn) (h3 ▸ hv)
  | draw hc h =>
    obtain ⟨-, -, h3, -, -, -⟩ := roundView_eq h
    rw [h3] at hv
    exact hc (hv ▸ hd.1)
  | answer hc h =>
    obtain ⟨-, -, h3, -, -, -⟩ := roundView_eq h
    rw [h3] at hv
    exact hc (hv ▸ hd.1)
  | send _ h =>
    obtain ⟨-, h2, h3, -, -, -⟩ := roundView_eq h
    exact hd.2 (h2 ▸ hn) (h3 ▸ hv)
  | giveUp h => exact hn (roundView_eq h).2.1
  | share _ _ _ h => exact hn (roundView_eq h).2.1

/-- Frames that are no commitments at the end of the queue. -/
theorem Outbox.aside (ho : Outbox x) (fs : List Frame) (hq : x'.outq = x.outq ++ fs)
    (hlog : ∀ c ∈ generatedCommits x.log, c ∈ generatedCommits x'.log)
    (hfs : ∀ g ∈ fs, g.type ≠ .commit)
    (hshare : ∀ g ∈ x.outq, g.type = .commit → ∀ g' ∈ fs, g'.type ≠ .sigShare)
    (hsent : x'.nonces ≠ [] → x.outq.Pairwise fun g g' =>
      g.type = .commit → g'.type = .commit → g.payload ≠ x'.commit)
    (hun : x'.commitIsPrecomputed = true → x'.nonces ≠ [] →
      ∀ g ∈ x.outq, g.type = .commit → g.payload ≠ x'.commit)
    (hah : x'.commitIsPrecomputed = true → x'.commit ∈ generatedCommits x'.log) : Outbox x' := by
  have hmem {g : Frame} (hg : g ∈ x.outq ++ fs) (ht : g.type = .commit) : g ∈ x.outq :=
    (List.mem_append.mp hg).resolve_right fun h => hfs g h ht
  refine ⟨?_, ?_, fun hn => ?_, fun hp hn => ?_, hah⟩ <;> rw [hq]
  · refine List.pairwise_append.mpr ⟨ho.order, ?_, fun g hg g' hg' ht => hshare g hg ht g' hg'⟩
    exact List.pairwise_of_forall_mem_list fun g hg _ _ ht => absurd ht (hfs g hg)
  · exact fun g hg ht => hlog _ (ho.known g (hmem hg ht) ht)
  · refine List.pairwise_append.mpr ⟨hsent hn, ?_, fun g _ g' hg' _ ht => absurd ht (hfs g' hg')⟩
    exact List.pairwise_of_forall_mem_list fun g hg _ _ ht => absurd ht (hfs g hg)
  · exact fun g hg ht => hun hp hn g (hmem hg ht) ht

/-- The current commitment, sent behind commitments that differ from it. -/
theorem Outbox.commit (ho : Outbox x) {g : Frame} (hq : x'.outq = x.outq ++ [g])
    (hlog : ∀ c ∈ generatedCommits x.log, c ∈ generatedCommits x'.log) (hg : g.type = .commit)
    (hgen : g.payload ∈ generatedCommits x'.log) (hp : x'.commitIsPrecomputed = false)
    (hold : x'.nonces ≠ [] → ∀ g ∈ x.outq, g.type = .commit → g.payload ≠ x'.commit) :
    Outbox x' := by
  refine ⟨?_, ?_, fun hn => ?_, fun h' => ?_, fun h' => ?_⟩
  · rw [hq]
    refine List.pairwise_append.mpr ⟨ho.order, List.pairwise_singleton .., fun a _ b hb _ => ?_⟩
    rw [List.mem_singleton.mp hb, hg]
    exact nofun
  · rw [hq]
    intro f hf ht
    rcases List.mem_append.mp hf with hf | hf
    · exact hlog _ (ho.known f hf ht)
    · rw [List.mem_singleton.mp hf]
      exact hgen
  · rw [hq]
    have h := hold hn
    refine List.pairwise_append.mpr ⟨?_, List.pairwise_singleton .., fun a ha _ _ ht _ => h a ha ht⟩
    exact List.pairwise_of_forall_mem_list fun a ha _ _ ht _ => h a ha ht
  · rw [hp] at h'
    cases h'
  · rw [hp] at h'
    cases h'

/-- **A move keeps the outbox in order**, where a share is queued behind no commitment. -/
theorem Outbox.turn (ho : Outbox x) (ht : Turn keys f x x')
    (hshare : ∀ b, f.type = .relayCommit → acceptedBundle keys x f.payload = some b →
      x.nonces ≠ [] → ∀ g ∈ x.outq, g.type ≠ .commit) : Outbox x' := by
  obtain ⟨-, -, hlog, -⟩ := ht.grows
  -- a fresh commitment is none of those in the queue
  have hfresh {c : Bytes} (hc : c ∉ generatedCommits x.log) (g : Frame) (hg : g ∈ x.outq)
      (ht : g.type = .commit) : g.payload ≠ c := fun e => hc (e ▸ ho.known g hg ht)
  cases ht with
  | plain h =>
    obtain ⟨ps, hps, -, hout⟩ := h.sent
    have hfs (g : Frame) (hg : g ∈ ps.map fun p => (⟨p.1, keys.sign x.myId p.2, p.2⟩ : Frame)) :
        g.type ≠ .commit ∧ g.type ≠ .sigShare := by
      obtain ⟨p, hp, rfl⟩ := List.mem_map.mp hg
      exact hps p hp
    refine ho.aside _ hout hlog (fun g hg => (hfs g hg).1) (fun _ _ _ g hg => (hfs g hg).2) ?_ ?_ ?_
    · rw [h.nonces, h.commit]
      exact ho.latest
    · rw [h.precomputed, h.nonces, h.commit]
      exact ho.unsent
    · rw [h.precomputed, h.commit]
      exact fun hp => hlog _ (ho.ahead hp)
  | still h =>
    obtain ⟨-, h2, h3, h4, -, h6⟩ := roundView_eq h
    refine ho.aside [] (by rw [h6, List.append_nil]) hlog (List.forall_mem_nil _)
      (fun _ _ _ => List.forall_mem_nil _) ?_ ?_ ?_
    · rw [h2, h3]
      exact ho.latest
    · rw [h4, h2, h3]
      exact ho.unsent
    · rw [h4, h3]
      exact fun hp => hlog _ (ho.ahead hp)
  | draw hc h =>
    obtain ⟨-, -, h3, -, h5, h6⟩ := roundView_eq h
    refine ho.aside [] (by rw [h6, List.append_nil]) hlog (List.forall_mem_nil _)
      (fun _ _ _ => List.forall_mem_nil _)
      (fun _ => ?_) (fun _ _ => ?_) fun _ => ?_
    · rw [h3]
      exact List.pairwise_of_forall_mem_list fun g hg _ _ ht _ => hfresh hc g hg ht
    · rw [h3]
      exact hfresh hc
    · rw [h3, h5]
      simp [Act.commit?]
  | answer hc h =>
    obtain ⟨-, -, h3, h4, h5, h6⟩ := roundView_eq h
    refine ho.commit h6 hlog rfl ?_ h4 fun _ => ?_
    · rw [h5, generatedCommits_concat, generatedCommits_concat]
      simp [Act.commit?]
    · rw [h3]
      exact hfresh hc
  | send hp h =>
    obtain ⟨-, h2, h3, h4, -, h6⟩ := roundView_eq h
    refine ho.commit h6 hlog rfl (hlog _ (ho.ahead hp)) h4 fun hn => ?_
    rw [h3]
    exact ho.unsent hp (h2 ▸ hn)
  | giveUp h =>
    obtain ⟨-, h2, -, h4, -, h6⟩ := roundView_eq h
    refine ho.aside [] (by rw [h6, List.append_nil]) hlog (List.forall_mem_nil _)
      (fun _ _ _ => List.forall_mem_nil _)
      (fun hn => absurd h2 hn) (fun _ hn => absurd h2 hn) fun hp => ?_
    rw [h4] at hp
    cases hp
  | share hf hb hn h =>
    obtain ⟨-, h2, h3, h4, -, h6⟩ := roundView_eq h
    refine ho.aside _ h6 hlog ?_ (fun g hg ht => absurd ht (hshare _ hf hb hn g hg))
      (fun hn => absurd h2 hn) (fun _ hn => absurd h2 hn) fun hp => ?_
    · intro g hg
      rw [List.mem_singleton.mp hg]
      intro ht
      cases ht
    · rw [h4] at hp
      rw [h3]
      exact hlog _ (ho.ahead hp)

/-- The head is read. -/
theorem Outbox.pop (ho : Outbox x) {fs : List Frame} (e : x.outq = f :: fs) :
    Outbox { x with outq := fs } := by
  obtain ⟨h1, h2, h3, h4, h5⟩ := ho
  rw [e] at h1 h2 h3 h4
  exact ⟨(List.pairwise_cons.mp h1).2, fun g hg => h2 g (List.mem_cons_of_mem _ hg),
    fun hn => (List.pairwise_cons.mp (h3 hn)).2,
    fun hp hn g hg => h4 hp hn g (List.mem_cons_of_mem _ hg), h5⟩

/-! ## Signer `h` and the coordinator -/

/-- The record of signer `h`, its process `x` and the frames `q` on their way to it
agree on the commitments and on the bundle of its session. -/
structure Attr (h : Nat) (c : Coord) (g : History) (x : Node) (q : List Frame) : Prop where
  outbox : Outbox x
  relays : ∀ f ∈ q, f.type = .relayCommit → ∀ v ∈ ownCommits h f, Passed x v
  suspect : (c.sg h).signPhase = .suspect → (c.sg h).commit = []
  /-- Behind a stored commitment nothing of an earlier round is under way. -/
  committed : (c.sg h).signPhase = .committed → Passed x (c.sg h).commit ∧
    (∀ f ∈ x.outq, f.type ≠ .sigShare) ∧
    ∀ f ∈ q, f.type = .relayCommit → ∀ v ∈ ownCommits h f, Dead x v
  /-- What is under way from the session the record names comes of its bundle. -/
  assigned : (c.sg h).sessionId ≠ 0 → ∀ k, (c.sessions k).state = .awaitingShares →
    (c.sessions k).id = (c.sg h).sessionId → h ∈ (c.sessions k).signerIds → ∃ b, g k = some b ∧
      (∀ f ∈ x.outq, f.type = .sigShare → Computed x.log b f.payload) ∧
      ∀ f ∈ q, f.type = .relayCommit → (∃ n, unpackCommitBundle f.payload = some (b, n)) ∨
        ∀ v ∈ ownCommits h f, Dead x v

variable {h : Nat} {c c' : Coord} {g g' : History} {q : List Frame}

/-- While a bundle can be answered no commitment waits to be read. -/
theorem Attr.answerable (ha : Attr h c g x q) (hx : x.myId = h) (hf : f ∈ q) {b : CommitBundle}
    (hr : f.type = .relayCommit) (hb : acceptedBundle keys x f.payload = some b)
    (hn : x.nonces ≠ []) :
    ∀ g ∈ x.outq, g.type ≠ .commit :=
  ((ha.relays f hf hr _ (hx ▸ (accepted_own hb).2)).2 hn rfl).1

/-- **A move of the signer over a frame of its queue.** -/
theorem Attr.turn (ha : Attr h c g x q) (hx : x.myId = h) (hf : f ∈ q) (ht : Turn keys f x x') :
    Attr h c g x' q := by
  obtain ⟨-, ⟨as, hlog⟩, -, -⟩ := ht.grows
  refine ⟨ha.outbox.turn ht fun b hr hb hn => ha.answerable hx hf hr hb hn,
    fun f hf hr v hv => (ha.relays f hf hr v hv).turn ht, ha.suspect, fun hp => ?_,
    fun hs k hk hid hm => ?_⟩
  · obtain ⟨h1, h2, h3⟩ := ha.committed hp
    refine ⟨h1.turn ht, fun g hg hty => ?_, fun f hf hr v hv => (h3 f hf hr v hv).turn ht⟩
    rcases ht.queues with ⟨fs, hq, hfs⟩ | ⟨b, share, sig, hr, hb, hn, -, -⟩
    · rw [hq] at hg
      rcases List.mem_append.mp hg with hg | hg
      · exact h2 g hg hty
      · exact hfs g hg hty
    · exact (h3 f hf hr _ (hx ▸ (accepted_own hb).2)).2 hn rfl
  · obtain ⟨b, hb, h2, h3⟩ := ha.assigned hs k hk hid hm
    refine ⟨b, hb, fun g hg hty => ?_, fun f hf hr => (h3 f hf hr).imp id fun hd v hv =>
      (hd v hv).turn ht⟩
    have hold (hg : g ∈ x.outq) : Computed x'.log b g.payload := hlog ▸ (h2 g hg hty).append as
    rcases ht.queues with ⟨fs, hq, hfs⟩ | ⟨b', share, sig, hr, hb', hn, hq, hc⟩
    · rw [hq] at hg
      rcases List.mem_append.mp hg with hg | hg
      · exact hold hg
      · exact absurd hty (hfs g hg)
    · rw [hq] at hg
      rcases List.mem_append.mp hg with hg | hg
      · exact hold hg
      obtain ⟨⟨n, hun⟩, hown⟩ := accepted_own hb'
      rw [List.mem_singleton.mp hg]
      -- the bundle is that of the session: any other is dead
      rcases h3 f hf hr with ⟨n', hun'⟩ | hdead
      · rw [hun] at hun'
        cases hun'
        exact hc
      · exact absurd rfl ((hdead _ (hx ▸ hown)).2 hn)

theorem Attr.turns (ha : Attr h c g x q) (hx : x.myId = h) (hf : f ∈ q) (ht : Turns keys f x x') :
    Attr h c g x' q ∧ x'.myId = h := by
  induction ht with
  | refl => exact ⟨ha, hx⟩
  | tail _ hl ih => exact ⟨ih.1.turn ih.2 hf hl, hl.grows.1.trans ih.2⟩

/-- Fewer frames are on their way to the signer. -/
theorem Attr.shrink {q' : List Frame} (ha : Attr h c g x q) (hq : ∀ f ∈ q', f ∈ q) :
    Attr h c g x q' := by
  refine ⟨ha.outbox, fun f hf => ha.relays f (hq f hf), ha.suspect, fun hp => ?_,
    fun hs k hk hid hm => ?_⟩
  · obtain ⟨h1, h2, h3⟩ := ha.committed hp
    exact ⟨h1, h2, fun f hf => h3 f (hq f hf)⟩
  · obtain ⟨b, hb, h2, h3⟩ := ha.assigned hs k hk hid hm
    exact ⟨b, hb, h2, fun f hf => h3 f (hq f hf)⟩

theorem Passed.pop (hp : Passed x v) {fs : List Frame} (e : x.outq = f :: fs) :
    Passed { x with outq := fs } v :=
  ⟨hp.1, fun hn hv => ⟨fun g hg => (hp.2 hn hv).1 g (e ▸ List.mem_cons_of_mem _ hg),
    (hp.2 hn hv).2⟩⟩

/-- The coordinator reads a frame. -/
theorem Attr.pop (ha : Attr h c g x q) {fs : List Frame} (e : x.outq = f :: fs) :
    Attr h c g { x with outq := fs } q := by
  have hmem (g : Frame) (hg : g ∈ fs) : g ∈ x.outq := e ▸ List.mem_cons_of_mem _ hg
  refine ⟨ha.outbox.pop e, fun f hf hr v hv => (ha.relays f hf hr v hv).pop e, ha.suspect,
    fun hp => ?_, fun hs k hk hid hm => ?_⟩
  · obtain ⟨h1, h2, h3⟩ := ha.committed hp
    exact ⟨h1.pop e, fun g hg => h2 g (hmem g hg), h3⟩
  · obtain ⟨b, hb, h2, h3⟩ := ha.assigned hs k hk hid hm
    exact ⟨b, hb, fun g hg => h2 g (hmem g hg), h3⟩

/-- A change of the coordinator that leaves the record's round and its open sessions. -/
theorem Attr.congr (ha : Attr h c g x q) (hv : (c'.sg h).signView = (c.sg h).signView)
    (hse : ∀ k, (c'.sessions k).state = .awaitingShares → (c.sessions k).state = .awaitingShares ∧
      (c'.sessions k).id = (c.sessions k).id ∧
        (c'.sessions k).signerIds = (c.sessions k).signerIds) :
    Attr h c' g x q := by
  simp only [SignerRec.signView, Prod.mk.injEq] at hv
  obtain ⟨h1, -, h3, h4⟩ := hv
  refine ⟨ha.outbox, ha.relays, ?_, ?_, fun hs k hk hid hm => ?_⟩
  · rw [h1, h3]
    exact ha.suspect
  · rw [h1, h3]
    exact ha.committed
  · obtain ⟨e1, e2, e3⟩ := hse k hk
    exact ha.assigned (h4 ▸ hs) k e1 (e2.symm.trans (hid.trans h4)) (e3 ▸ hm)

/-! ## The links of the coordinator -/

/-- Frames that are no bundles at the end of the queue. -/
theorem Attr.queue (ha : Attr h c g x q) {fs : List Frame} (hfs : ∀ f ∈ fs, f.type ≠ .relayCommit) :
    Attr h c g x (q ++ fs) := by
  have hold {f : Frame} (hf : f ∈ q ++ fs) (hr : f.type = .relayCommit) : f ∈ q :=
    (List.mem_append.mp hf).resolve_right fun h' => hfs f h' hr
  refine ⟨ha.outbox, fun f hf hr => ha.relays f (hold hf hr) hr, ha.suspect, fun hp => ?_,
    fun hs k hk hid hm => ?_⟩
  · obtain ⟨h1, h2, h3⟩ := ha.committed hp
    exact ⟨h1, h2, fun f hf hr => h3 f (hold hf hr) hr⟩
  · obtain ⟨b, hb, h2, h3⟩ := ha.assigned hs k hk hid hm
    exact ⟨b, hb, h2, fun f hf hr => h3 f (hold hf hr) hr⟩

/-- The record leaves the phases a session is formed from, or is asked anew. -/
theorem Attr.leave (ha : Attr h c g x q) (hp : (c'.sg h).signPhase ≠ .committed)
    (hs : (c'.sg h).signPhase = .suspect → (c'.sg h).commit = [])
    (hid : (c'.sg h).sessionId = 0 ∨ (c'.sg h).sessionId = (c.sg h).sessionId)
    (hse : ∀ k, (c'.sessions k).state = .awaitingShares → (c.sessions k).state = .awaitingShares ∧
      (c'.sessions k).id = (c.sessions k).id ∧
        (c'.sessions k).signerIds = (c.sessions k).signerIds) :
    Attr h c' g x q := by
  refine ⟨ha.outbox, ha.relays, hs, fun h' => absurd h' hp, fun hne k hk hkid hm => ?_⟩
  rcases hid with hid | hid
  · exact absurd hid hne
  · obtain ⟨e1, e2, e3⟩ := hse k hk
    exact ha.assigned (hid ▸ hne) k e1 (e2.symm.trans (hkid.trans hid)) (e3 ▸ hm)

/-- A link that opens no session. -/
theorem Attr.shut {d : List Frame} (ha : Attr h c g x (d ++ (c.sg h).msgq)) (hl : Link .shut c c')
    (hd : c.signers.Nodup) : Attr h c' g x (d ++ (c'.sg h).msgq) := by
  have hse (k : Fin maxSessions) (hk : (c'.sessions k).state = .awaitingShares) :
      (c.sessions k).state = .awaitingShares ∧ (c'.sessions k).id = (c.sessions k).id ∧
        (c'.sessions k).signerIds = (c.sessions k).signerIds := by
    have e := hl.shut_noneOpened k hk
    rw [e] at hk ⊢
    exact ⟨hk, rfl, rfl⟩
  rcases hl.shut_record hd h with ⟨hv, fs, hq, hfs⟩ | e | ⟨p, hp, e⟩
  · rw [hq, ← List.append_assoc]
    refine (ha.queue fun f hf hr => ?_).congr hv hse
    have := hfs f hf
    rw [hr] at this
    cases this
  · rw [show (c'.sg h).msgq = (c.sg h).msgq by rw [e]]
    exact ha.leave (by rw [e]; exact nofun) (by rw [e]; exact nofun) (.inr (by rw [e])) hse
  · rw [show (c'.sg h).msgq = (c.sg h).msgq ++ [⟨.signReq, [], c'.tbs⟩] by rw [e]; rfl,
      ← List.append_assoc]
    have hphase : (c'.sg h).signPhase = p := by rw [e]; rfl
    refine (ha.queue fun f hf => ?_).leave ?_ (fun _ => by rw [e]; rfl) (.inl (by rw [e]; rfl)) hse
    · rw [List.mem_singleton.mp hf]
      exact nofun
    · rw [hphase]
      rcases hp with rfl | rfl <;> exact nofun

/-- A chosen signer has committed: a suspect has no commitment to be chosen for. -/
theorem Attr.chosen (ha : Attr h c g x q) (hi : h ∈ chooseSigners c) :
    (c.sg h).signPhase = .committed := by
  obtain ⟨-, h' | h'⟩ := mem_chooseSigners c hi
  · simp only [reliable, Bool.and_eq_true, decide_eq_true_eq] at h'
    exact h'.1.1.1
  · simp only [suspected, Bool.and_eq_true, Bool.or_eq_true, decide_eq_true_eq] at h'
    obtain ⟨⟨⟨hp, hlen⟩, -⟩, -⟩ := h'
    refine hp.resolve_right fun hs => ?_
    rw [ha.suspect hs] at hlen
    exact absurd hlen (Nat.lt_irrefl 0)

/-- The bundle of a new session holds the stored commitment of each member. -/
theorem ownCommits_new {b : CommitBundle} {wire : Bytes} {n : Nat}
    (hb : buildBundle c (chooseSigners c) = some b) (hun : unpackCommitBundle wire = some (b, n))
    (hv : v ∈ ownCommits h ⟨.relayCommit, [], wire⟩) : v = (c.sg h).commit := by
  obtain ⟨-, rfl⟩ := buildBundle_some hb
  unfold ownCommits at hv
  rw [hun] at hv
  obtain ⟨e, he, rfl⟩ := List.mem_map.mp hv
  obtain ⟨he, hid⟩ := List.mem_filter.mp he
  obtain ⟨j, -, rfl⟩ := List.mem_map.mp he
  obtain rfl : j = h := by simpa using hid
  rfl

/-- **A session is formed**, with the signer or without it. -/
theorem Attr.form {d : List Frame} (ha : Attr h c g x (d ++ (c.sg h).msgq)) (ht : Table c)
    {env : Coordinator.Env} {k : Fin maxSessions} {b : CommitBundle} {spkg wire : Bytes}
    (hf : Forms c env k spkg wire) (hb : buildBundle c (chooseSigners c) = some b)
    (hw : packCommitBundle commitBundleWireMax b = some wire) :
    Attr h (openSession c k (chooseSigners c) spkg wire env.now) (Function.update g k (some b)) x
      (d ++ ((openSession c k (chooseSigners c) spkg wire env.now).sg h).msgq) := by
  obtain ⟨hself, hother⟩ := openSession_sessions c k (chooseSigners c) spkg wire env.now
  have hsg := openSession_sg (c := c) (chooseSigners_nodup c ht.ids.distinct) k spkg wire env.now h
  have htable := ht.form hf
  generalize openSession c k (chooseSigners c) spkg wire env.now = c' at *
  by_cases hin : h ∈ chooseSigners c
  · rw [if_pos hin] at hsg
    obtain ⟨n, hun⟩ := ht.unpacks hb hw
    obtain ⟨h1, h2, h3⟩ := ha.committed (ha.chosen hin)
    have hphase : (c'.sg h).signPhase = .inSession := by rw [hsg]; rfl
    rw [show (c'.sg h).msgq = (c.sg h).msgq ++ [⟨.relayCommit, [], wire⟩] by rw [hsg]; rfl,
      ← List.append_assoc]
    refine ⟨ha.outbox, fun f hm hr v hv => ?_, fun hp => ?_, fun hp => ?_, fun _ j hj hid _ => ?_⟩
    · rcases List.mem_append.mp hm with hm | hm
      · exact ha.relays f hm hr v hv
      · rw [List.mem_singleton.mp hm] at hv
        rw [ownCommits_new hb hun hv]
        exact h1
    · rw [hphase] at hp
      cases hp
    · rw [hphase] at hp
      cases hp
    · -- the session the record names is the new one
      obtain ⟨u, hu⟩ := htable.slots
      have hjk : j = k := by
        refine hu.inj (by rw [hj]; exact nofun) (by rw [hself]; exact nofun) (hid.trans ?_)
        rw [hsg, hself]
        rfl
      subst hjk
      refine ⟨b, Function.update_self .., fun f hm hty => absurd hty (h2 f hm), fun f hm hr => ?_⟩
      rcases List.mem_append.mp hm with hm | hm
      · exact .inr (h3 f hm hr)
      · rw [List.mem_singleton.mp hm]
        exact .inl ⟨n, hun⟩
  · rw [if_neg hin] at hsg
    rw [hsg]
    refine ⟨ha.outbox, ha.relays, by rw [hsg]; exact ha.suspect, by rw [hsg]; exact ha.committed,
      fun hs j hj hid hm => ?_⟩
    rw [hsg] at hs hid
    have hjk : j ≠ k := by
      rintro rfl
      rw [hself] at hm
      exact hin hm
    rw [Function.update_of_ne hjk]
    rw [hother j hjk] at hj hid hm
    exact ha.assigned hs j hj hid hm

/-! ## What an event writes -/

/-- The coordinator takes a commitment of the signer, the next frame of its queue. -/
theorem Attr.accept (ha : Attr h c g x q) {fs : List Frame} (e : x.outq = f :: fs)
    (hf : f.type = .commit) : Attr h (storeCommit c h f) g { x with outq := fs } q := by
  have hsg : (storeCommit c h f).sg h =
      { c.sg h with commit := f.payload, commitSig := f.sig, signPhase := .committed } :=
    Coord.setSg_self ..
  have hp := ha.pop e
  have hin : f ∈ x.outq := by rw [e]; exact List.mem_cons_self ..
  obtain ⟨o1, o2, o3, o4, -⟩ := ha.outbox
  rw [e] at o1 o3
  refine ⟨hp.outbox, hp.relays, ?_, fun _ => ⟨⟨?_, fun hn hc => ⟨fun f' hf' ht => ?_, ?_⟩⟩, ?_,
    ?_⟩, ?_⟩
  · rw [hsg]
    exact nofun
  · rw [hsg]
    exact o2 f hin hf
  · rw [hsg] at hc
    exact (List.pairwise_cons.mp (o3 hn)).1 f' hf' hf ht hc.symm
  · rw [hsg] at hc
    by_contra hpre
    exact o4 (by simpa using hpre) hn f hin hf hc.symm
  · exact fun f' hf' => (List.pairwise_cons.mp o1).1 f' hf' hf
  · intro r hr hty v hv
    obtain ⟨h1, h2⟩ := ha.relays r hr hty v hv
    exact ⟨h1, fun hn hc => (h2 hn hc).1 f hin hf⟩
  · rw [hsg]
    exact hp.assigned

theorem Attr.share (ha : Attr h c g x q) (k : Fin maxSessions) (slot i : Nat) (share : Bytes) :
    Attr h (fileShare c k slot i share) g x q := by
  have hse (j : Fin maxSessions) (hj : ((fileShare c k slot i share).sessions j).state =
      .awaitingShares) :
      (c.sessions j).state = .awaitingShares ∧
        ((fileShare c k slot i share).sessions j).id = (c.sessions j).id ∧
        ((fileShare c k slot i share).sessions j).signerIds = (c.sessions j).signerIds := by
    by_cases e : j = k
    · subst e
      rw [fileShare_session] at hj ⊢
      exact ⟨hj, rfl, rfl⟩
    · rw [fileShare_session_of_ne e] at hj ⊢
      exact ⟨hj, rfl, rfl⟩
  by_cases e : h = i
  · subst e
    have hsg : (fileShare c k slot h share).sg h = { c.sg h with signPhase := .shared } :=
      Coord.setSg_self ..
    exact ha.leave (by rw [hsg]; exact nofun) (by rw [hsg]; exact nofun) (.inr (by rw [hsg])) hse
  · have hsg : (fileShare c k slot i share).sg h = c.sg h := Coord.setSg_of_ne e _
    exact ha.congr (by rw [hsg]) hse

/-! ## The invariant -/

/-- Signer `h`, registered or not, with the frames `d` already written to it. -/
structure Held (h : Nat) (c : Coord) (g : History) (x : Node) (d : List Frame) : Prop where
  mode : c.mode = .sign
  dkgState : c.dkgState ≠ .collectingR1
  table : Table c
  myId : x.myId = h
  here : h ∈ c.signers → Attr h c g x (d ++ (c.sg h).msgq)
  /-- A process that is not registered has said nothing but `HELLO`. -/
  away : h ∉ c.signers → d = [] ∧ Outbox x ∧ ∀ f ∈ x.outq, f.type = .hello

variable {d : List Frame}

theorem Held.noted {p p' : Coord × History} (hn : Noted p p') (hh : Held h p.1 p.2 x d) :
    Held h p'.1 p'.2 x d := by
  cases hn with
  | @shut c c' g hl =>
    have hf := hl.framed
    refine ⟨hf.mode.trans hh.mode, hf.notCollecting hh.dkgState, hh.table.link hl, hh.myId,
      fun hi => ?_, fun hi => hh.away (hf.signers ▸ hi)⟩
    exact (hh.here (hf.signers ▸ hi)).shut hl hh.table.ids.distinct
  | @form c g env k b spkg wire hform hb hw =>
    have hl : Link .all c (openSession c k (chooseSigners c) spkg wire env.now) :=
      .form trivial hform
    have hf := hl.framed
    refine ⟨hf.mode.trans hh.mode, hf.notCollecting hh.dkgState, hh.table.link hl, hh.myId,
      fun hi => ?_, fun hi => hh.away (hf.signers ▸ hi)⟩
    exact (hh.here (hf.signers ▸ hi)).form hh.table hform hb hw

theorem Held.notes {p p' : Coord × History} (hn : Notes p p') (hh : Held h p.1 p.2 x d) :
    Held h p'.1 p'.2 x d := by
  induction hn with
  | refl => exact hh
  | tail _ hl ih => exact ih.noted hl

/-- A `HELLO` registers a signer, `h` or another. -/
theorem Held.signer (hh : Held h c g x d) {pid n t : Nat} (hnew : pid ∉ c.signers)
    (htable : Table (promote { c with n := n, t := t } pid)) :
    Held h (promote { c with n := n, t := t } pid) g x d := by
  have hm : ({ c with n := n, t := t } : Coord).mode = .sign := hh.mode
  obtain ⟨_, e⟩ := promote_shape hm pid
  have hself := promote_sg hm pid
  have hother (hne : h ≠ pid) := promote_sg_of_ne (c := { c with n := n, t := t }) hm hne
  have hs : (promote { c with n := n, t := t } pid).signers = pid :: c.signers := by rw [e]
  have hse : (promote { c with n := n, t := t } pid).sessions = c.sessions := by rw [e]
  refine ⟨by rw [e]; exact hh.mode, by rw [e]; exact hh.dkgState, htable, hh.myId, fun hi => ?_,
    fun hi => hh.away fun h' => hi (by rw [hs]; exact List.mem_cons_of_mem _ h')⟩
  rw [hs] at hi
  by_cases hpid : h = pid
  · subst hpid
    obtain ⟨rfl, ho, hhello⟩ := hh.away hnew
    have hnone (f : Frame) (hf : f ∈ [] ++ ((promote { c with n := n, t := t } h).sg h).msgq)
        (hr : f.type = .relayCommit) : False := by
      rw [hself] at hf
      rcases List.mem_pair.mp hf with rfl | rfl <;> cases hr
    refine ⟨ho, fun f hf hr => (hnone f hf hr).elim, ?_, ?_, ?_⟩
    · rw [hself]
      exact nofun
    · rw [hself]
      exact nofun
    · rw [hself]
      exact fun h' => absurd rfl h'
  · have hi : h ∈ c.signers := (List.mem_cons.mp hi).resolve_left hpid
    rw [hother hpid]
    exact (hh.here hi).congr (by rw [hother hpid]) fun k hk => by
      rw [hse] at hk ⊢
      exact ⟨hk, rfl, rfl⟩

/-- An event of the coordinator that signer `h` has no part in. -/
def Foreign (h : Nat) : Coordinator.Event → Prop
  | .drain i | .disconnect i | .frame i _ _ => i ≠ h
  | _ => True

/-- **Whatever the others do.** -/
theorem Held.other (hh : Held h c g x d) {e : Coordinator.Event} (hne : Foreign h e) :
    Held h (Coordinator.step c e) (note g (openings c e)) x d := by
  obtain ⟨c', ht, hn⟩ := step_notes hh.mode hh.dkgState e g
  refine Held.notes hn ?_
  have htable := hh.table.taken hh.mode ht
  have hset {i : Nat} (hne : i ≠ h) (F : SignerRec → SignerRec) (ht : Table (c.setSg i F)) :
      Held h (c.setSg i F) g x d := by
    have hsg : (c.setSg i F).sg h = c.sg h := Coord.setSg_of_ne hne.symm _
    refine ⟨hh.mode, hh.dkgState, ht, hh.myId, fun hi => ?_, hh.away⟩
    rw [hsg]
    exact (hh.here hi).congr (by rw [hsg]) fun k hk => ⟨hk, rfl, rfl⟩
  cases ht with
  | nothing => exact hh
  | claim _ _ =>
    exact ⟨hh.mode, hh.dkgState, htable, hh.myId,
      fun hi => (hh.here hi).congr rfl fun k hk => ⟨hk, rfl, rfl⟩, hh.away⟩
  | @signer env payload pid pn pt hp hnt hr => exact hh.signer hr.new htable
  | drained _ => exact hset hne _ htable
  | @gone i _ =>
    have hne : i ≠ h := hne
    refine ⟨hh.mode, hh.dkgState, htable, hh.myId, fun hi => ?_, fun hi => hh.away fun h' => hi ?_⟩
    · exact (hh.here (List.mem_of_mem_filter hi)).congr rfl fun k hk => ⟨hk, rfl, rfl⟩
    · exact List.mem_filter.mpr ⟨h', by simpa using hne.symm⟩
  | commit _ _ _ => exact hset hne _ htable
  | @share i f env k slot _ _ _ =>
    have hsg : (fileShare c k slot i f.payload).sg h = c.sg h := Coord.setSg_of_ne (Ne.symm hne) _
    refine ⟨hh.mode, hh.dkgState, htable, hh.myId, fun hi => ?_, hh.away⟩
    rw [hsg]
    exact (hh.here hi).share k slot i f.payload
  | keyless _ _ => exact hset hne _ htable

/-- A frame of the signer is read. -/
theorem Held.pop (hh : Held h c g x d) {fs : List Frame} (e : x.outq = f :: fs) :
    Held h c g { x with outq := fs } d := by
  refine ⟨hh.mode, hh.dkgState, hh.table, hh.myId, fun hi => (hh.here hi).pop e, fun hi => ?_⟩
  obtain ⟨h1, h2, h3⟩ := hh.away hi
  exact ⟨h1, h2.pop e, fun g hg => h3 g (e ▸ List.mem_cons_of_mem _ hg)⟩

/-- **The coordinator handles a frame of the signer**, the next of its queue. -/
theorem Held.frame (hh : Held h c g x d) {fs : List Frame} (e : x.outq = f :: fs)
    (env : Coordinator.Env) : Held h (Coordinator.step c (.frame h f env))
      (note g (openings c (.frame h f env))) { x with outq := fs } d := by
  obtain ⟨c', ht, hn⟩ := step_notes hh.mode hh.dkgState (.frame h f env) g
  have htable := hh.table.taken hh.mode ht
  have hp := hh.pop e
  refine Held.notes hn ?_
  cases ht with
  | nothing => exact hp
  | commit hi hf _ =>
    have hq : ((storeCommit c h f).sg h).msgq = (c.sg h).msgq := by
      unfold storeCommit
      rw [Coord.setSg_self]
    refine ⟨hh.mode, hh.dkgState, htable, hh.myId, fun _ => ?_, fun h' => absurd hi h'⟩
    rw [hq]
    exact (hh.here hi).accept e hf
  | @share _ _ _ k slot hi _ _ =>
    have hq : ((fileShare c k slot h f.payload).sg h).msgq = (c.sg h).msgq := by
      unfold fileShare
      rw [Coord.setSg_self]
      rfl
    refine ⟨hh.mode, hh.dkgState, htable, hh.myId, fun _ => ?_, fun h' => absurd hi h'⟩
    rw [hq]
    exact (hp.here hi).share k slot h f.payload
  | keyless hi _ =>
    have hsg : (onShareLoadFail c h).sg h = { c.sg h with signPhase := .noKey } :=
      Coord.setSg_self ..
    refine ⟨hh.mode, hh.dkgState, htable, hh.myId, fun _ => ?_, fun h' => absurd hi h'⟩
    rw [hsg]
    exact (hp.here hi).leave (by rw [hsg]; exact nofun) (by rw [hsg]; exact nofun)
      (.inr (by rw [hsg])) fun k hk => ⟨hk, rfl, rfl⟩

/-- The coordinator writes the next frame to the signer. -/
theorem Held.written (hh : Held h c g x d) {fs : List Frame} (e : (c.sg h).msgq = f :: fs)
    (hi : h ∈ c.signers) : Held h (drainSignerWrite c h) g x (d ++ [f]) := by
  have hsg : (drainSignerWrite c h).sg h = { c.sg h with msgq := fs } := by
    unfold drainSignerWrite
    rw [Coord.setSg_self, e]
    rfl
  refine ⟨hh.mode, hh.dkgState, hh.table.setSg_keep rfl rfl, hh.myId, fun _ => ?_,
    fun h' => absurd hi h'⟩
  have ha := hh.here hi
  rw [hsg, List.append_assoc]
  rw [e] at ha
  exact ha.congr (by rw [hsg]; rfl) fun k hk => ⟨hk, rfl, rfl⟩

/-- The signer handles the next frame written to it. -/
theorem Held.deliver (hh : Held h c g x (f :: d)) {env : Signer.Env}
    (hc : FreshCommits x.log env.commit) (hp : FreshCommits x.log env.precommit) :
    Held h c g (Signer.step keys x (f, env)) d := by
  have hi : h ∈ c.signers := by
    by_contra hi
    cases (hh.away hi).1
  obtain ⟨h1, h2⟩ := (hh.here hi).turns hh.myId (List.mem_cons_self ..) (step_turns hc hp)
  exact ⟨hh.mode, hh.dkgState, hh.table, h2, fun _ => h1.shrink fun f hf =>
    List.mem_cons_of_mem _ hf,
    fun h' => absurd hi h'⟩

theorem Outbox.stop (ho : Outbox x) : Outbox (stopNode x) :=
  ⟨ho.order, ho.known, ho.latest, ho.unsent, ho.ahead⟩

/-- The process ends. -/
theorem Held.stop (hh : Held h c g x d) : Held h c g (stopNode x) d := by
  refine ⟨hh.mode, hh.dkgState, hh.table, hh.myId, fun hi => ?_, fun hi => ?_⟩
  · have ha := hh.here hi
    exact ⟨ha.outbox.stop, ha.relays, ha.suspect, ha.committed, ha.assigned⟩
  · obtain ⟨h1, h2, h3⟩ := hh.away hi
    exact ⟨h1, h2.stop, h3⟩

/-- The connection ends, and what was under way on it is lost. -/
theorem Held.gone (hh : Held h c g x d) :
    Held h (removeSigner c h) g { stopNode x with outq := [] } [] := by
  have ho : Outbox x := by
    by_cases hi : h ∈ c.signers
    · exact (hh.here hi).outbox
    · exact (hh.away hi).2.1
  obtain ⟨u, hu⟩ := hh.table.slots
  refine ⟨hh.mode, hh.dkgState, ⟨⟨hh.table.ids.distinct.filter _, fun j hj =>
    hh.table.ids.range j (List.mem_of_mem_filter hj)⟩, hh.table.sizes, hh.table.members, u,
    hu.congr rfl rfl⟩, hh.myId, fun hi => ?_, fun _ => ⟨rfl, ⟨.nil, nofun, fun _ => .nil,
    fun _ _ => nofun, ho.ahead⟩, nofun⟩⟩
  have := (List.mem_filter.mp hi).2
  simp at this

/-! ## Runs with their bundles -/

/-- What the coordinator makes of a frame it reads from `i`. -/
def readEvent (c : Coord) (i : Nat) (f : Frame) (hello : HelloEnv) (env : Coordinator.Env) :
    Option Coordinator.Event :=
  if f.payload.length > maxPayload then some (.disconnect i)
  else if i ∈ c.signers then some (.frame i f env)
  else if f.type = .hello then some (.hello (ownId i hello) f.payload)
  else none

/-- The event of the coordinator in an event of the system. -/
def coordEvent (s : Sys) : Event → Option Coordinator.Event
  | .loopHead env => some (.loopHead env)
  | .expire now env => some (.expire now env)
  | .write i => match (s.coord.sg i).msgq with
    | [] => none
    | _ :: _ => some (.drain i)
  | .receive i hello env => match (s.node i).outq with
    | [] => none
    | f :: _ => readEvent s.coord i f hello env
  | .forge i f hello env => readEvent s.coord i f hello env
  | .leave i => some (.disconnect i)
  | _ => none

/-- The coordinator after its event, if there is one. -/
def coordAfter (c : Coord) : Option Coordinator.Event → Coord
  | none => c
  | some e => Coordinator.step c e

def opened (c : Coord) : Option Coordinator.Event → List (Fin maxSessions × CommitBundle)
  | none => []
  | some e => openings c e

/-- A step of the system and the bundles it sends. -/
def trace (keys : Keys) (p : Sys × History) (e : Event) : Sys × History :=
  (step keys p.1 e, note p.2 (opened p.1.coord (coordEvent p.1 e)))

theorem coordAfter_exited (hx : c.exited = true) (e : Option Coordinator.Event) :
    coordAfter c e = c := by
  cases e with
  | none => rfl
  | some e =>
    show Coordinator.step c e = c
    exact step_exited hx e

theorem opened_exited (hx : c.exited = true) (e : Option Coordinator.Event) : opened c e = [] := by
  cases e with
  | none => rfl
  | some e =>
    show openings c e = []
    unfold openings
    rw [if_pos hx]

/-- The end of a connection is an event of the coordinator, and others see nothing of it. -/
theorem drop_coord (s : Sys) (i : Nat) :
    (s.drop i).coord = coordAfter s.coord (some (.disconnect i)) ∧
      ∀ j, j ≠ i → (s.drop i).node j = s.node j ∧ (s.drop i).down j = s.down j := by
  unfold Sys.drop
  by_cases hx : s.coord.exited = true
  · rw [if_pos hx, coordAfter_exited hx]
    exact ⟨rfl, fun j hj => ⟨Function.update_of_ne hj .., rfl⟩⟩
  · rw [if_neg hx]
    exact ⟨rfl, fun j hj => ⟨Function.update_of_ne hj .., Function.update_of_ne hj ..⟩⟩

/-- So is a frame of `i` that is read. -/
theorem read_coord (s : Sys) (i : Nat) (f : Frame) (hello : HelloEnv) (env : Coordinator.Env) :
    (s.read i f hello env).coord = coordAfter s.coord (readEvent s.coord i f hello env) ∧
      ∀ j, j ≠ i → (s.read i f hello env).node j = s.node j ∧
        (s.read i f hello env).down j = s.down j := by
  have hset (x : Node) (j : Nat) (hj : j ≠ i) : (s.setNode i x).node j = s.node j :=
    Function.update_of_ne hj ..
  unfold Sys.read
  by_cases hx : s.coord.exited = true
  · rw [if_pos hx, coordAfter_exited hx]
    exact ⟨rfl, fun _ _ => ⟨rfl, rfl⟩⟩
  rw [if_neg hx]
  unfold readEvent
  by_cases hlen : f.payload.length > maxPayload
  · rw [if_pos hlen, if_pos hlen]
    exact drop_coord s i
  rw [if_neg hlen, if_neg hlen]
  by_cases hi : i ∈ s.coord.signers
  · rw [if_pos hi, if_pos hi]
    exact ⟨rfl, fun _ _ => ⟨rfl, rfl⟩⟩
  rw [if_neg hi, if_neg hi]
  unfold Sys.stage
  by_cases hf : f.type = .hello
  · rw [if_pos hf, if_pos hf]
    dsimp only
    split
    · exact ⟨rfl, fun _ _ => ⟨rfl, rfl⟩⟩
    · exact ⟨rfl, fun j hj => ⟨Function.update_of_ne hj .., rfl⟩⟩
  · rw [if_neg hf, if_neg hf]
    exact ⟨rfl, fun j hj => ⟨hset _ j hj, rfl⟩⟩

theorem readEvent_foreign {i : Nat} (hi : i ≠ h) {hello : HelloEnv} {env : Coordinator.Env}
    {e : Coordinator.Event} (he : readEvent c i f hello env = some e) : Foreign h e := by
  unfold readEvent at he
  split at he
  · cases he; exact hi
  split at he
  · cases he; exact hi
  split at he
  · cases he; exact trivial
  · cases he

theorem Held.after (hh : Held h c g x d) {e : Option Coordinator.Event}
    (he : ∀ e', e = some e' → Foreign h e') :
    Held h (coordAfter c e) (note g (opened c e)) x d := by
  cases e with
  | none => exact hh
  | some e => exact hh.other (he e rfl)

/-- The connection of the signer ends. -/
theorem Held.drop {s : Sys} (hh : Held h s.coord g (s.node h) (s.down h)) :
    Held h (s.drop h).coord (note g (opened s.coord (some (.disconnect h)))) ((s.drop h).node h)
      ((s.drop h).down h) := by
  have hopen : opened s.coord (some (.disconnect h)) = [] := by
    show openings s.coord (.disconnect h) = []
    unfold openings
    split <;> rfl
  rw [hopen]
  unfold Sys.drop
  by_cases hx : s.coord.exited = true
  · rw [if_pos hx]
    show Held h s.coord g (Function.update s.node h _ h) (s.down h)
    rw [Function.update_self]
    exact hh.stop
  · rw [if_neg hx]
    show Held h (Coordinator.step s.coord (.disconnect h)) g (Function.update s.node h _ h)
      (Function.update s.down h _ h)
    rw [Function.update_self, Function.update_self]
    unfold Coordinator.step
    rw [if_neg hx]
    dsimp only
    split
    · exact hh.gone
    · next hi =>
      obtain ⟨-, ho, -⟩ := hh.away hi
      exact ⟨hh.mode, hh.dkgState, hh.table, hh.myId, fun h' => absurd h' hi, fun _ => ⟨rfl,
        ⟨.nil, nofun, fun _ => .nil, fun _ _ => nofun, ho.ahead⟩, nofun⟩⟩

/-- **A frame of the signer is read**, on whatever connection it has. -/
theorem Held.read {s : Sys} (hh : Held h s.coord g (s.node h) (s.down h)) {fs : List Frame}
    (e : (s.node h).outq = f :: fs) (hello : HelloEnv) (env : Coordinator.Env) :
    let s' := (s.setNode h { s.node h with outq := fs }).read h f hello env
    Held h s'.coord (note g (opened s.coord (readEvent s.coord h f hello env))) (s'.node h)
      (s'.down h) := by
  have hnode : (s.setNode h { s.node h with outq := fs }).node h = { s.node h with outq := fs } :=
    Function.update_self ..
  have hpop : Held h (s.setNode h { s.node h with outq := fs }).coord g
      ((s.setNode h { s.node h with outq := fs }).node h)
      ((s.setNode h { s.node h with outq := fs }).down h) := by
    rw [hnode]
    exact hh.pop e
  have hcoord : (s.setNode h { s.node h with outq := fs }).coord = s.coord := rfl
  have hdown : (s.setNode h { s.node h with outq := fs }).down h = s.down h := rfl
  generalize s.setNode h { s.node h with outq := fs } = s₁ at *
  dsimp only
  unfold Sys.read
  by_cases hx : s₁.coord.exited = true
  · rw [if_pos hx, opened_exited (hcoord ▸ hx)]
    exact hpop
  rw [if_neg hx]
  unfold readEvent
  by_cases hlen : f.payload.length > maxPayload
  · rw [if_pos hlen, if_pos hlen, ← hcoord]
    exact hpop.drop
  rw [if_neg hlen, if_neg hlen]
  by_cases hi : h ∈ s₁.coord.signers
  · rw [if_pos hi, if_pos (hcoord ▸ hi)]
    show Held h (Coordinator.step s₁.coord (.frame h f env))
      (note g (openings s.coord (.frame h f env))) (s₁.node h) (s₁.down h)
    rw [hcoord, hnode, hdown]
    exact hh.frame e env
  rw [if_neg hi, if_neg (hcoord ▸ hi)]
  unfold Sys.stage
  by_cases hf : f.type = .hello
  · rw [if_pos hf, if_pos hf, ← hcoord]
    have h1 : Held h (Coordinator.step s₁.coord (.hello (ownId h hello) f.payload))
        (note g (openings s₁.coord (.hello (ownId h hello) f.payload))) (s₁.node h) (s₁.down h) :=
      hpop.other trivial
    dsimp only
    split
    · exact h1
    · show Held h _ _ (Function.update s₁.node h _ h) _
      rw [Function.update_self]
      exact h1.stop
  · rw [if_neg hf, if_neg hf]
    show Held h s₁.coord g (Function.update s₁.node h _ h) _
    rw [Function.update_self]
    exact hpop.stop

/-! ## Every step, and every run -/

/-- The frame is not the code's. -/
def Event.Forges (h : Nat) : Event → Prop
  | .forge i _ _ _ => i = h
  | _ => False

/-- What `frost_commit` draws for signer `h` was never drawn by its process before. -/
def DrawsFresh (h : Nat) (s : Sys) : Event → Prop
  | .deliver i env => i = h → FreshCommits (s.node h).log env.commit ∧
      FreshCommits (s.node h).log env.precommit
  | _ => True

/-- **A step keeps the invariant.** -/
theorem Held.step {p : Sys × History} (hh : Held h p.1.coord p.2 (p.1.node h) (p.1.down h))
    {e : Event} (hf : ¬ e.Forges h) (hd : DrawsFresh h p.1 e) :
    Held h (trace keys p e).1.coord (trace keys p e).2 ((trace keys p e).1.node h)
      ((trace keys p e).1.down h) := by
  obtain ⟨s, g⟩ := p
  dsimp only [trace] at hh hd ⊢
  cases e with
  | loopHead env => exact hh.other (e := .loopHead env) trivial
  | expire now env => exact hh.other (e := .expire now env) trivial
  | launch i n t =>
    unfold System.step
    dsimp only
    split
    · next hg =>
      by_cases hi : h = i
      · subst hi
        show Held h s.coord g (Function.update s.node h _ h) (Function.update s.down h _ h)
        rw [Function.update_self, Function.update_self]
        have hhello : ∀ f ∈ (Node.start keys h n t).outq, f.type = .hello := fun f hf => by
          rw [List.mem_singleton.mp hf]
        refine ⟨hh.mode, hh.dkgState, hh.table, rfl, fun h' => absurd h' hg.2.2, fun _ => ⟨rfl,
          ⟨?_, fun f hf ht => ?_, fun hn => absurd rfl hn, nofun, nofun⟩, hhello⟩⟩
        · exact List.pairwise_singleton ..
        · rw [hhello f hf] at ht
          cases ht
      · show Held h s.coord g (Function.update s.node i _ h) (Function.update s.down i _ h)
        rw [Function.update_of_ne hi, Function.update_of_ne hi]
        exact hh
    · exact hh
  | write i =>
    unfold System.step coordEvent
    dsimp only
    cases hq : (s.coord.sg i).msgq with
    | nil => exact hh
    | cons f fs =>
      dsimp only
      have hopen : opened s.coord (some (.drain i)) = [] := by
        show openings s.coord (.drain i) = []
        unfold openings
        split <;> rfl
      rw [hopen]
      by_cases hg : (s.coord.exited || decide (i ∉ s.coord.signers)) = true
      · rw [if_pos hg]
        exact hh
      rw [if_neg hg]
      simp only [Bool.or_eq_true, decide_eq_true_eq, not_or, not_not] at hg
      have hstep : Coordinator.step s.coord (.drain i) = drainSignerWrite s.coord i :=
        step_drain_of_mem (by simpa using hg.1) hg.2
      show Held h (Coordinator.step s.coord (.drain i)) g (s.node h) (Function.update s.down i _ h)
      by_cases hi : h = i
      · subst hi
        rw [hstep, Function.update_self]
        exact hh.written hq hg.2
      · rw [Function.update_of_ne hi]
        have h1 := hh.other (e := .drain i) (Ne.symm hi)
        rw [show openings s.coord (.drain i) = [] from hopen] at h1
        exact h1
  | deliver i env =>
    unfold System.step coordEvent
    dsimp only
    cases hq : s.down i with
    | nil => exact hh
    | cons f fs =>
      dsimp only
      split
      · exact hh
      show Held h s.coord g (Function.update s.node i _ h) (Function.update s.down i _ h)
      by_cases hi : h = i
      · subst hi
        rw [Function.update_self, Function.update_self]
        obtain ⟨h1, h2⟩ := hd rfl
        rw [hq] at hh
        exact hh.deliver h1 h2
      · rw [Function.update_of_ne hi, Function.update_of_ne hi]
        exact hh
  | receive i hello env =>
    unfold System.step coordEvent
    dsimp only
    cases hq : (s.node i).outq with
    | nil => exact hh
    | cons f fs =>
      dsimp only
      by_cases hi : h = i
      · subst hi
        exact hh.read hq hello env
      · obtain ⟨h1, h2⟩ := read_coord (s.setNode i { s.node i with outq := fs }) i f hello env
        obtain ⟨h3, h4⟩ := h2 h hi
        rw [h1, h3, h4]
        show Held h (coordAfter s.coord _) _ (Function.update s.node i _ h) (s.down h)
        rw [Function.update_of_ne hi]
        exact hh.after fun e' => readEvent_foreign (Ne.symm hi)
  | forge i f hello env =>
    have hi : i ≠ h := hf
    obtain ⟨h1, h2⟩ := read_coord s i f hello env
    obtain ⟨h3, h4⟩ := h2 h hi.symm
    show Held h (s.read i f hello env).coord _ ((s.read i f hello env).node h)
      ((s.read i f hello env).down h)
    rw [h1, h3, h4]
    exact hh.after fun e' => readEvent_foreign hi
  | leave i =>
    by_cases hi : h = i
    · subst hi
      exact hh.drop
    · obtain ⟨h1, h2⟩ := drop_coord s i
      obtain ⟨h3, h4⟩ := h2 h hi
      show Held h (s.drop i).coord _ ((s.drop i).node h) ((s.drop i).down h)
      rw [h1, h3, h4]
      refine hh.after fun e' he' => ?_
      cases he'
      exact Ne.symm hi

theorem boot_held (h0 : Started c) (hm : c.mode = .sign) (h : Nat) :
    Held h (Sys.boot c).coord (fun _ => none) ((Sys.boot c).node h) ((Sys.boot c).down h) := by
  have hu := h0.unused
  refine ⟨hm, by show c.dkgState ≠ _; rw [hu.dkgState]; exact nofun, hu.table, rfl, fun hi => ?_,
    fun _ => ⟨rfl, ⟨.nil, nofun, fun _ => .nil, fun _ _ => nofun, nofun⟩, nofun⟩⟩
  have hi : h ∈ c.signers := hi
  rw [hu.signers] at hi
  cases hi

end FrostSshCa.System
