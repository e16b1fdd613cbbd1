import FrostSshCa.Coordinator.Record
import FrostSshCa.Coordinator.Shares
import FrostSshCa.Signer.Armed
import FrostSshCa.System.State

/-!
# Commitments are fresh while requests do not overlap

A `COMMIT` says nothing about the request it answers. As long as no signer that
is still to commit has two requests, or a request and an answer, under way
(`Calm`), the coordinator never takes an old commitment for a new one: each
`RELAY_COMMIT` finds its signer `Armed` for it and is accepted.
-/

namespace FrostSshCa.System

open Coordinator Signer Lib

variable (keys : Keys)

/-- The coordinator would take a `COMMIT` of signer `i` for its answer. -/
def Live (c : Coord) (i : Nat) : Prop :=
  isBlacklisted c i = false ∧ ((c.sg i).signPhase = .init ∨ (c.sg i).signPhase = .suspect)

instance (c : Coord) (i : Nat) : Decidable (Live c i) := inferInstanceAs (Decidable (_ ∧ _))

/-- No signer that is to commit has more than one request to answer or answer to
be read. -/
def Calm (s : Sys) : Prop := ∀ i ∈ s.coord.signers, Live s.coord i → s.unanswered i ≤ 1

instance (s : Sys) : Decidable (Calm s) := inferInstanceAs (Decidable (∀ i ∈ _, _))

/-- What the bundle of a `RELAY_COMMIT` is to its signer: its own commitment and
message are the current ones, and every entry is signed for the message. -/
structure Current (x : Node) (b : CommitBundle) : Prop where
  tbs : b.tbs = x.tbs
  self : ∃ e ∈ b.entries, e.id = x.myId
  own : ∀ e ∈ b.entries, e.id = x.myId → e.commit = x.commit
  signed : ∀ e ∈ b.entries, e.commitSig = keys.sign e.id (commitBuf b.tbs e.commit)

/-- The signer takes the bundle. -/
def Taken (x : Node) (f : Frame) : Prop :=
  tooLarge f = false ∧ ∃ b, acceptedBundle keys x f.payload = some b ∧ Current keys x b

/-- `f` carries the bundle `x` waits for. -/
structure Ready (x : Node) (f : Frame) : Prop where
  sig : f.sig = []
  size : f.payload.length ≤ maxPayload
  bundle : ∃ b k, unpackCommitBundle f.payload = some (b, k) ∧ b.entries.length = x.t ∧
    (b.entries.map (·.id)).Nodup ∧
    (∀ e ∈ b.entries, (1 ≤ e.id ∧ e.id ≤ maxSigners) ∧ e.commit.length ≤ maxPayload ∧
      e.commitSig = keys.sign e.id (commitBuf b.tbs e.commit)) ∧
    ∃ e ∈ b.entries, e.id = x.myId ∧ Armed x b.tbs e.commit

/-- The coordinator holds the current commitment of signer `i`, and nothing of
the round is under way. -/
structure Ripe (c : Coord) (i : Nat) (x : Node) (q : List Frame) : Prop where
  quiet : ∀ f ∈ q, f.type ≠ .signReq ∧ f.type ≠ .relayCommit
  silent : ∀ f ∈ x.outq, f.type ≠ .commit
  armed : Armed x c.tbs (c.sg i).commit
  sig : (c.sg i).commitSig = keys.sign i (commitBuf c.tbs (c.sg i).commit)
  size : (c.sg i).commit.length ≤ commitEntryMax
  sigSize : (c.sg i).commitSig.length = frameSigSize

/-- A bundle is on its way to `x`: only requests follow it. -/
structure Bundled (x : Node) (q : List Frame) (f : Frame) : Prop where
  next : ∃ reqs, q.filter (fun g => isReq g || isRelay g) = f :: reqs ∧
    ∀ g ∈ reqs, g.type = .signReq
  silent : ∀ g ∈ x.outq, g.type ≠ .commit
  ready : Ready keys x f

/-- Signer `i`, its process and the frames `q` on their way to it agree. -/
structure Linked (c : Coord) (i : Nat) (x : Node) (q : List Frame) : Prop where
  args : Args i c.n c.t
  node : Settled i c.n c.t x
  frames : ∀ f ∈ q, signFrame f.type = true
  suspect : (c.sg i).signPhase = .suspect → (c.sg i).commit = []
  asked : Live c i → q.countP isReq + x.outq.countP isCommit ≤ 1 →
    (∀ f ∈ q, f.type = .signReq → f.payload = c.tbs) ∧
      ∀ f ∈ x.outq, f.type = .commit →
        Armed x c.tbs f.payload ∧ f = commitFrame keys i c.tbs f.payload
  committed : isBlacklisted c i = false → (c.sg i).signPhase = .committed → Ripe keys c i x q
  relay : ∀ f ∈ q, f.type = .relayCommit → Bundled keys x q f

variable {keys} {c c' : Coord} {i : Nat} {x x' : Node} {q : List Frame} {f : Frame}

/-! ## What a ready bundle gives -/

theorem Ready.taken (hk : ∀ j d, 1 ≤ j → j ≤ maxSigners → keys.verify j d (keys.sign j d) = true)
    (h : Ready keys x f) : Taken keys x f := by
  obtain ⟨hsig, hsize, b, k, hun, hlen, hnd, hsigned, e, he, hid, ha⟩ := h
  have hown : ∀ e' ∈ b.entries, e'.id = x.myId → e'.commit = x.commit := by
    intro e' he' hid'
    have : e' = e := List.inj_on_of_nodup_map hnd he' he (hid'.trans hid.symm)
    rw [this, ha.commit]
  refine ⟨?_, b, ?_, ha.tbs.symm, ⟨e, he, hid⟩, hown, fun e' he' => (hsigned e' he').2.2⟩
  · simp only [tooLarge, hsig, List.length_nil, decide_eq_false_iff_not]
    omega
  have hacc : bundleAccepted keys x b := by
    rw [bundleAccepted_iff]
    refine ⟨hlen, hnd, fun e' he' => ?_, hown, ⟨e, he, hid⟩, ha.tbs.symm⟩
    obtain ⟨hrange, h1, h2⟩ := hsigned e' he'
    rw [entryVerified_iff ha.short h1, h2]
    exact hk _ _ hrange.1 hrange.2
  unfold acceptedBundle
  rw [if_neg (fun h0 => ha.key (List.length_eq_zero_iff.mp h0)), hun, Option.bind_some, if_pos hacc]

theorem Ready.keeps (h : Ready keys x f) (hi : x'.myId = x.myId) (ht : x'.t = x.t)
    (ha : ∀ tbs c, Armed x tbs c → Armed x' tbs c) : Ready keys x' f := by
  obtain ⟨hsig, hsize, b, k, hun, hlen, hnd, hsigned, e, he, hid, har⟩ := h
  exact ⟨hsig, hsize, b, k, hun, hlen.trans ht.symm, hnd, hsigned, e, he, hid.trans hi.symm,
    ha _ _ har⟩

/-! ## The coordinator's side -/

/-- Only the signing side of the record and the shared message matter. -/
theorem Linked.congr (h : Linked keys c i x q) (hn : c'.n = c.n) (ht : c'.t = c.t)
    (htbs : c'.tbs = c.tbs) (hbl : isBlacklisted c' i = isBlacklisted c i)
    (hv : (c'.sg i).signView = (c.sg i).signView) : Linked keys c' i x q := by
  simp only [SignerRec.signView, Prod.mk.injEq] at hv
  obtain ⟨h1, h2, h3, h4⟩ := hv
  have hlive : Live c' i ↔ Live c i := by unfold Live; rw [hbl, h3]
  refine ⟨hn ▸ ht ▸ h.args, hn ▸ ht ▸ h.node, h.frames, ?_, ?_, ?_, h.relay⟩
  · rw [h1, h3]; exact h.suspect
  · rw [hlive, htbs]; exact h.asked
  · rw [hbl, h3]
    intro hb hp
    obtain ⟨a1, a2, a3, a4, a5, a6⟩ := h.committed hb hp
    exact ⟨a1, a2, by rw [htbs, h1]; exact a3, by rw [htbs, h1, h2]; exact a4, by rw [h1]; exact a5,
      by rw [h2]; exact a6⟩

/-- Frames of other kinds at the end of the queue. -/
theorem Linked.queue_idle (h : Linked keys c i x q) {fs : List Frame}
    (hfs : ∀ f ∈ fs, MsgType.idle f.type = true) : Linked keys c i x (q ++ fs) := by
  have hother (f : Frame) (hf : f ∈ fs) : f.type ≠ .signReq ∧ f.type ≠ .relayCommit ∧
      signFrame f.type = true := by
    have := hfs f hf
    revert this
    cases f.type <;> simp [MsgType.idle, signFrame]
  have hnone : fs.countP isReq = 0 := by
    rw [List.countP_eq_zero]
    intro f hf
    simpa [isReq] using (hother f hf).1
  have hfil : fs.filter (fun g => isReq g || isRelay g) = [] := by
    rw [List.filter_eq_nil_iff]
    intro f hf
    simpa [isReq, isRelay] using ⟨(hother f hf).1, (hother f hf).2.1⟩
  refine ⟨h.args, h.node, ?_, h.suspect, ?_, ?_, ?_⟩
  · intro f hf
    rcases List.mem_append.mp hf with hf | hf
    · exact h.frames f hf
    · exact (hother f hf).2.2
  · intro hl hc
    rw [List.countP_append, hnone] at hc
    obtain ⟨h1, h2⟩ := h.asked hl hc
    refine ⟨fun f hf ht => ?_, h2⟩
    rcases List.mem_append.mp hf with hf | hf
    · exact h1 f hf ht
    · exact absurd ht (hother f hf).1
  · intro hb hp
    obtain ⟨a1, a2, a3, a4, a5, a6⟩ := h.committed hb hp
    refine ⟨fun f hf => ?_, a2, a3, a4, a5, a6⟩
    rcases List.mem_append.mp hf with hf | hf
    · exact a1 f hf
    · exact ⟨(hother f hf).1, (hother f hf).2.1⟩
  · intro f hf ht
    rcases List.mem_append.mp hf with hf | hf
    · obtain ⟨⟨reqs, hq, hr⟩, h2, h3⟩ := h.relay f hf ht
      exact ⟨⟨reqs, by rw [List.filter_append, hfil, List.append_nil]; exact hq, hr⟩, h2, h3⟩
    · exact absurd ht (hother f hf).2.1

/-- A request at the end of the queue. -/
theorem Linked.queue_request (h : Linked keys c i x q) {p : SPhase} (hp : p ≠ .committed)
    (hn : c'.n = c.n) (ht : c'.t = c.t) (he : c'.sg i = (c.sg i).asked p c'.tbs) :
    Linked keys c' i x (q ++ [⟨.signReq, [], c'.tbs⟩]) := by
  have hphase : (c'.sg i).signPhase = p := by rw [he]; rfl
  refine ⟨hn ▸ ht ▸ h.args, hn ▸ ht ▸ h.node, ?_, ?_, ?_, ?_, ?_⟩
  · intro f hf
    rcases List.mem_append.mp hf with hf | hf
    · exact h.frames f hf
    · rw [List.mem_singleton.mp hf]; rfl
  · intro _; rw [he]; rfl
  · intro _ hcalm
    rw [List.countP_append, List.countP_singleton, show isReq ⟨.signReq, [], c'.tbs⟩ =
      true from rfl,
      if_pos rfl] at hcalm
    have h1 : q.countP isReq = 0 := by omega
    have h2 : x.outq.countP isCommit = 0 := by omega
    refine ⟨fun f hf htype => ?_, fun f hf htype => ?_⟩
    · rcases List.mem_append.mp hf with hf | hf
      · exact absurd htype (by simpa [isReq] using List.countP_eq_zero.mp h1 f hf)
      · rw [List.mem_singleton.mp hf]
    · exact absurd htype (by simpa [isCommit] using List.countP_eq_zero.mp h2 f hf)
  · intro _ hp'
    exact absurd (hphase.symm.trans hp') hp
  · intro f hf htype
    have hmem : f ∈ q := by
      rcases List.mem_append.mp hf with hf | hf
      · exact hf
      · rw [List.mem_singleton.mp hf] at htype; cases htype
    obtain ⟨⟨reqs, hq, hr⟩, h2, h3⟩ := h.relay f hmem htype
    refine ⟨⟨reqs ++ [⟨.signReq, [], c'.tbs⟩], ?_, ?_⟩, h2, h3⟩
    · rw [List.filter_append, hq]; rfl
    · intro g hg
      rcases List.mem_append.mp hg with hg | hg
      · exact hr g hg
      · rw [List.mem_singleton.mp hg]

/-- An assignment at the end of the queue. -/
theorem Linked.queue_relay (h : Linked keys c i x q) (hb : isBlacklisted c i = false)
    (hp : (c.sg i).signPhase = .committed) {sid : Nat} {wire : Bytes} (hn : c'.n = c.n)
    (ht : c'.t = c.t) (he : c'.sg i = (c.sg i).assigned sid wire)
    (hr : Ready keys x ⟨.relayCommit, [], wire⟩) :
    Linked keys c' i x (q ++ [⟨.relayCommit, [], wire⟩]) := by
  have hripe := h.committed hb hp
  have hphase : (c'.sg i).signPhase = .inSession := by rw [he]; rfl
  refine ⟨hn ▸ ht ▸ h.args, hn ▸ ht ▸ h.node, ?_, ?_, ?_, ?_, ?_⟩
  · intro f hf
    rcases List.mem_append.mp hf with hf | hf
    · exact h.frames f hf
    · rw [List.mem_singleton.mp hf]; rfl
  · intro hp'; cases hphase.symm.trans hp'
  · intro hl
    rcases hl.2 with hp' | hp' <;> cases hphase.symm.trans hp'
  · intro _ hp'; cases hphase.symm.trans hp'
  · intro f hf htype
    have hf' : f = ⟨.relayCommit, [], wire⟩ := by
      rcases List.mem_append.mp hf with hf | hf
      · exact absurd htype (hripe.quiet f hf).2
      · exact List.mem_singleton.mp hf
    subst hf'
    refine ⟨⟨[], ?_, nofun⟩, hripe.silent, hr⟩
    have : q.filter (fun g => isReq g || isRelay g) = [] := by
      rw [List.filter_eq_nil_iff]
      intro g hg
      simpa [isReq, isRelay] using hripe.quiet g hg
    rw [List.filter_append, this]
    rfl

/-- The record leaves the phases a `COMMIT` or a session starts from. -/
theorem Linked.retire (h : Linked keys c i x q) {p : SPhase}
    (hp : p = .blacklisted ∨ p = .noKey ∨ p = .shared) (hn : c'.n = c.n) (ht : c'.t = c.t)
    (he : c'.sg i = { c.sg i with signPhase := p }) : Linked keys c' i x q := by
  have hphase : (c'.sg i).signPhase = p := by rw [he]
  refine ⟨hn ▸ ht ▸ h.args, hn ▸ ht ▸ h.node, h.frames, ?_, ?_, ?_, h.relay⟩
  · intro hp'
    rw [hphase] at hp'
    rcases hp with rfl | rfl | rfl <;> cases hp'
  · intro hl
    unfold Live at hl
    rw [hphase] at hl
    rcases hp with rfl | rfl | rfl <;> rcases hl.2 with hp' | hp' <;> cases hp'
  · intro _ hp'
    rw [hphase] at hp'
    rcases hp with rfl | rfl | rfl <;> cases hp'

/-! ## All signers at once -/

/-- Every registered signer is linked. -/
structure AllLinked (keys : Keys) (c : Coord) (node : Nat → Node) (down : Nat → List Frame) :
    Prop where
  mode : c.mode = .sign
  dkgState : c.dkgState ≠ .collectingR1
  distinct : c.signers.Nodup
  linked : ∀ i ∈ c.signers, Linked keys c i (node i) (down i ++ (c.sg i).msgq)

variable {node : Nat → Node} {down : Nat → List Frame}

/-- A chosen signer has committed: a suspect has no commitment to be chosen for. -/
theorem Linked.chosen (h : Linked keys c i x q) (hi : i ∈ chooseSigners c) :
    isBlacklisted c i = false ∧ (c.sg i).signPhase = .committed := by
  obtain ⟨-, h' | h'⟩ := mem_chooseSigners c hi
  · simp only [reliable, Bool.and_eq_true, decide_eq_true_eq, Bool.not_eq_true'] at h'
    exact ⟨h'.1.1.2, h'.1.1.1⟩
  · simp only [suspected, Bool.and_eq_true, Bool.or_eq_true, decide_eq_true_eq,
      Bool.not_eq_true'] at h'
    obtain ⟨⟨⟨hp, hlen⟩, hb⟩, -⟩ := h'
    refine ⟨hb, hp.resolve_right fun hs => ?_⟩
    rw [h.suspect hs] at hlen
    exact absurd hlen (Nat.lt_irrefl 0)

/-- The bundle of a new session is what each of its members waits for. -/
theorem AllLinked.ready (h : AllLinked keys c node down) {env : Coordinator.Env}
    {k : Fin maxSessions} {spkg wire : Bytes} (hf : Forms c env k spkg wire)
    (hi : i ∈ chooseSigners c) : Ready keys (node i) ⟨.relayCommit, [], wire⟩ := by
  obtain ⟨b, hb, -, hpack⟩ := hf.bundle
  obtain ⟨htbs, rfl⟩ := buildBundle_some hb
  have hmem (j : Nat) (hj : j ∈ chooseSigners c) := (mem_chooseSigners c hj).1
  have hripe (j : Nat) (hj : j ∈ chooseSigners c) :
      Ripe keys c j (node j) (down j ++ (c.sg j).msgq) :=
    have hl := h.linked j (hmem j hj)
    hl.committed (hl.chosen hj).1 (hl.chosen hj).2
  have hli := h.linked i (hmem i hi)
  have hsize : (chooseSigners c).length = c.t :=
    Nat.le_antisymm (chooseSigners_length_le c) hf.enough
  have hwf : CommitBundle.Wf
      ⟨(chooseSigners c).map fun id => ⟨id, (c.sg id).commit, (c.sg id).commitSig⟩, c.tbs⟩ := by
    refine ⟨fun e he => ?_, ?_, htbs⟩
    · obtain ⟨j, hj, rfl⟩ := List.mem_map.mp he
      have hargs := (h.linked j (hmem j hj)).args
      refine ⟨?_, (hripe j hj).size, (hripe j hj).sigSize⟩
      have := hargs.idRange; have := hargs.nRange
      show j < 65536
      unfold maxSigners at this
      omega
    · rw [List.length_map, hsize]
      have := hli.args.tRange; have := hli.args.nRange
      omega
  have hun := unpackCommitBundle_pack hwf hpack []
  rw [List.append_nil] at hun
  refine ⟨rfl, hf.fits, _, _, hun, ?_, ?_, fun e he => ?_, ?_⟩
  · rw [List.length_map, hsize, hli.node.t]
  · rw [List.map_map]
    have : (chooseSigners c).map ((fun e : CommitEntry => e.id) ∘ fun id =>
        ⟨id, (c.sg id).commit, (c.sg id).commitSig⟩) = chooseSigners c := by
      rw [show ((fun e : CommitEntry => e.id) ∘ fun id =>
        ⟨id, (c.sg id).commit, (c.sg id).commitSig⟩) = id from rfl, List.map_id]
    rw [this]
    exact chooseSigners_nodup c h.distinct
  · obtain ⟨j, hj, rfl⟩ := List.mem_map.mp he
    have hargs := (h.linked j (hmem j hj)).args
    refine ⟨⟨hargs.idRange.1, hargs.idRange.2.trans hargs.nRange.2⟩, ?_, (hripe j hj).sig⟩
    have := (hripe j hj).size
    show (c.sg j).commit.length ≤ maxPayload
    unfold commitEntryMax at this
    unfold maxPayload
    omega
  · exact ⟨_, List.mem_map.mpr ⟨i, hi, rfl⟩, hli.node.myId.symm, (hripe i hi).armed⟩

/-- **Every link of the coordinator keeps its signers linked.** -/
theorem AllLinked.link {S : Scope} (hl : Link S c c') (h : AllLinked keys c node down) :
    AllLinked keys c' node down := by
  have hfr := hl.framed
  refine ⟨hfr.mode.trans h.mode, ?_, hfr.signers ▸ h.distinct, fun i hi => ?_⟩
  · rcases hfr.dkgState with e | e
    · rw [e]; exact h.dkgState
    · rw [e]; exact nofun
  rw [hfr.signers] at hi
  have hi' := h.linked i hi
  have hunbl (hb : isBlacklisted c' i = false) : isBlacklisted c i = false := by
    by_contra hne
    rw [hfr.blacklist i (by simpa using hne)] at hb
    cases hb
  -- the blacklist only grows, so every promise about an unlisted signer stays
  have hsame {q : List Frame} (hq : Linked keys c i (node i) q) (htbs : c'.tbs = c.tbs)
      (hv : (c'.sg i).signView = (c.sg i).signView) : Linked keys c' i (node i) q := by
    by_cases hb : isBlacklisted c' i = isBlacklisted c i
    · exact hq.congr hfr.n hfr.t htbs hb hv
    · have hb' : isBlacklisted c' i = true := by
        cases e : isBlacklisted c' i with
        | true => rfl
        | false => exact absurd (e.trans (hunbl e).symm) hb
      simp only [SignerRec.signView, Prod.mk.injEq] at hv
      refine ⟨hfr.n ▸ hfr.t ▸ hq.args, hfr.n ▸ hfr.t ▸ hq.node, hq.frames, ?_, ?_, ?_, hq.relay⟩
      · rw [hv.1, hv.2.2.1]; exact hq.suspect
      · intro hl; rw [hl.1] at hb'; cases hb'
      · intro h0; rw [h0] at hb'; cases hb'
  cases hl.record h.distinct hi with
  | idle hr htbs =>
    obtain ⟨hv, fs, hq, hfs⟩ := hr
    rw [hq, ← List.append_assoc]
    exact hsame (hi'.queue_idle hfs) htbs hv
  | black _ he _ =>
    rw [show (c'.sg i).msgq = (c.sg i).msgq by rw [he]]
    exact hi'.retire (.inl rfl) hfr.n hfr.t he
  | request hp _ he =>
    rw [show (c'.sg i).msgq = (c.sg i).msgq ++ [⟨.signReq, [], c'.tbs⟩] by rw [he]; rfl,
      ← List.append_assoc]
    refine hi'.queue_request ?_ hfr.n hfr.t he
    rcases hp with rfl | ⟨rfl, -⟩ <;> exact nofun
  | assign hf hin he _ =>
    rw [show (c'.sg i).msgq = (c.sg i).msgq ++ [⟨.relayCommit, [], _⟩] by rw [he]; rfl,
      ← List.append_assoc]
    obtain ⟨hb, hp⟩ := hi'.chosen hin
    exact hi'.queue_relay hb hp hfr.n hfr.t he (h.ready hf hin)
  | skipped hskip he =>
    rw [he]
    refine ⟨hfr.n ▸ hfr.t ▸ hi'.args, hfr.n ▸ hfr.t ▸ hi'.node, hi'.frames, ?_, ?_, ?_, hi'.relay⟩
    · rw [he]; exact hi'.suspect
    · intro hlive
      rcases hskip with hb | hp
      · rw [hunbl hlive.1] at hb; cases hb
      · have := hlive.2
        rw [he, hp] at this
        rcases this with h' | h' <;> cases h'
    · intro hb' hp'
      rcases hskip with hb | hp
      · rw [hunbl hb'] at hb; cases hb
      · rw [he, hp] at hp'; cases hp'

/-! ## The signer's side -/

theorem countP_isReq_zero {q : List Frame} (h : q.countP isReq = 0) : ∀ f ∈ q, f.type ≠ .signReq :=
  fun f hf => by simpa [isReq] using List.countP_eq_zero.mp h f hf

theorem countP_isCommit_zero {q : List Frame} (h : q.countP isCommit = 0) :
    ∀ f ∈ q, f.type ≠ .commit :=
  fun f hf => by simpa [isCommit] using List.countP_eq_zero.mp h f hf

theorem countP_isCommit_other {fs : List Frame} (h : ∀ f ∈ fs, f.type ≠ .commit) :
    fs.countP isCommit = 0 :=
  List.countP_eq_zero.mpr fun f hf => by simpa [isCommit] using h f hf

/-- What is queued besides commitments adds none. -/
theorem queuesOther_commits (h : QueuesOther x x') :
    x'.outq.countP isCommit = x.outq.countP isCommit ∧
    ∀ f ∈ x'.outq, f.type = .commit → f ∈ x.outq := by
  obtain ⟨fs, e, hfs⟩ := h
  rw [e]
  refine ⟨by rw [List.countP_append, countP_isCommit_other hfs, Nat.add_zero], fun f hf ht => ?_⟩
  rcases List.mem_append.mp hf with hf | hf
  · exact hf
  · exact absurd ht (hfs f hf)

/-- Nothing but requests follows a bundle that is first in the queue, and only
idle frames stand before one that is not. -/
theorem Bundled.tail {g : Frame} (h : Bundled keys x (f :: q) g) (hg : g ∈ q)
    (ht : g.type = .relayCommit) : f.type ≠ .signReq ∧ f.type ≠ .relayCommit ∧
      ∃ reqs, q.filter (fun g => isReq g || isRelay g) = g :: reqs ∧
        ∀ g ∈ reqs, g.type = .signReq := by
  obtain ⟨reqs, hq, hr⟩ := h.next
  by_cases hp : f.type = .signReq ∨ f.type = .relayCommit
  · rw [List.filter_cons_of_pos (by simpa [isReq, isRelay] using hp)] at hq
    obtain ⟨rfl, hq'⟩ := List.cons.inj hq
    have hmem : f ∈ q.filter fun g => isReq g || isRelay g :=
      List.mem_filter.mpr ⟨hg, by simp [isRelay, ht]⟩
    rw [hq'] at hmem
    exact absurd ((hr f hmem).symm.trans ht) nofun
  · have hp' := not_or.mp hp
    rw [List.filter_cons_of_neg (by simpa [isReq, isRelay] using hp')] at hq
    exact ⟨hp'.1, hp'.2, reqs, hq, hr⟩

/-- A signer processes the next frame of its queue. -/
theorem Linked.deliver (h : Linked keys c i x (f :: q))
    (hcalm : Live c i → (f :: q).countP isReq + x.outq.countP isCommit ≤ 1) (env : Signer.Env) :
    Linked keys c i (Signer.step keys x (f, env)) q := by
  obtain ⟨hset, hre⟩ := step_reaction keys env h.node (h.frames f (List.mem_cons_self ..))
  generalize Signer.step keys x (f, env) = x' at hset hre
  have hframes : ∀ g ∈ q, signFrame g.type = true := fun g hg =>
    h.frames g (List.mem_cons_of_mem _ hg)
  -- a request in front leaves no bundle behind it, and no commitment at the coordinator
  have hreq (ht : f.type = .signReq) : (∀ g ∈ q, g.type ≠ .relayCommit) ∧
      ¬ (isBlacklisted c i = false ∧ (c.sg i).signPhase = .committed) := by
    refine ⟨fun g hg htype => ?_, fun ⟨hb, hp⟩ => ?_⟩
    · have hbun := h.relay g (List.mem_cons_of_mem _ hg) htype
      exact (hbun.tail hg htype).1 ht
    · exact ((h.committed hb hp).quiet f (List.mem_cons_self ..)).1 ht
  have hcount (ht : f.type = .signReq) : (f :: q).countP isReq = q.countP isReq + 1 :=
    List.countP_cons_of_pos (by simp [isReq, ht])
  have hcount' (ht : f.type ≠ .signReq) : (f :: q).countP isReq = q.countP isReq :=
    List.countP_cons_of_neg (by simp [isReq, ht])
  cases hre with
  | quiet ht harm hqu =>
    have hother : QueuesOther x x' := by
      rcases hqu with e | ⟨-, hfail⟩
      · exact Fails.queuesOther (.inl e)
      · exact hfail.queuesOther
    obtain ⟨hcq, hmem⟩ := queuesOther_commits hother
    refine ⟨h.args, hset, hframes, h.suspect, fun hl hc => ?_, fun hb hp => ?_,
      fun g hg htype => ?_⟩
    · rw [hcq, ← hcount' ht] at hc
      obtain ⟨h1, h2⟩ := h.asked hl hc
      refine ⟨fun g hg => h1 g (List.mem_cons_of_mem _ hg), fun g hg htype => ?_⟩
      obtain ⟨h3, h4⟩ := h2 g (hmem g hg htype) htype
      exact ⟨harm _ _ h3, h4⟩
    · obtain ⟨a1, a2, a3, a4⟩ := h.committed hb hp
      exact ⟨fun g hg => a1 g (List.mem_cons_of_mem _ hg),
        fun g hg htype => a2 g (hmem g hg htype) htype, harm _ _ a3, a4, ‹_›, ‹_›⟩
    · have hbun := h.relay g (List.mem_cons_of_mem _ hg) htype
      exact ⟨(hbun.tail hg htype).2.2, fun g hg htype => hbun.silent g (hmem g hg htype) htype,
        hbun.ready.keeps (hset.myId.trans h.node.myId.symm) (hset.t.trans h.node.t.symm) harm⟩
  | commit ht harm hqu =>
    refine ⟨h.args, hset, hframes, h.suspect, fun hl _ => ?_,
      fun hb hp => absurd ⟨hb, hp⟩ (hreq ht).2, fun g hg htype => absurd htype ((hreq ht).1 g hg)⟩
    have hc := hcalm hl
    obtain ⟨h1, -⟩ := h.asked hl hc
    rw [hcount ht] at hc
    have htbs : f.payload = c.tbs := h1 f (List.mem_cons_self ..) ht
    refine ⟨fun g hg htype => absurd htype (countP_isReq_zero (by omega) g hg),
      fun g hg htype => ?_⟩
    rw [hqu] at hg
    rcases List.mem_append.mp hg with hg | hg
    · exact absurd htype (countP_isCommit_zero (by omega) g hg)
    · rw [List.mem_singleton.mp hg, ← htbs]
      exact ⟨harm, rfl⟩
  | refused ht hqu =>
    obtain ⟨-, hmem⟩ := queuesOther_commits hqu.queuesOther
    refine ⟨h.args, hset, hframes, h.suspect, fun hl _ => ?_,
      fun hb hp => absurd ⟨hb, hp⟩ (hreq ht).2, fun g hg htype => absurd htype ((hreq ht).1 g hg)⟩
    have hc := hcalm hl
    rw [hcount ht] at hc
    exact ⟨fun g hg htype => absurd htype (countP_isReq_zero (by omega) g hg),
      fun g hg htype => absurd htype (countP_isCommit_zero (by omega) g (hmem g hg htype))⟩
  | share ht hqu =>
    obtain ⟨hcq, hmem⟩ := queuesOther_commits hqu
    have hbun := h.relay f (List.mem_cons_self ..) ht
    refine ⟨h.args, hset, hframes, h.suspect, fun hl hc => ?_, fun hb hp => ?_,
      fun g hg htype => ?_⟩
    · rw [hcq, ← hcount' (by rw [ht]; exact nofun)] at hc
      obtain ⟨h1, -⟩ := h.asked hl hc
      exact ⟨fun g hg => h1 g (List.mem_cons_of_mem _ hg),
        fun g hg htype => absurd htype (hbun.silent g (hmem g hg htype))⟩
    · exact absurd ht ((h.committed hb hp).quiet f (List.mem_cons_self ..)).2
    · have hbun' := h.relay g (List.mem_cons_of_mem _ hg) htype
      exact absurd ht (hbun'.tail hg htype).2.1

/-! ## A frame read by the coordinator -/

/-- The signer's process is asked nothing about its output. -/
theorem armed_outq {fs : List Frame} {tbs commit : Bytes} (h : Armed x tbs commit) :
    Armed { x with outq := fs } tbs commit := ⟨h.state, h.key, h.short, h.tbs, h.commit⟩

theorem Linked.pop (h : Linked keys c i x q) {fs : List Frame} (e : x.outq = f :: fs)
    (hcalm : Live c i → q.countP isReq + x.outq.countP isCommit ≤ 1) :
    Linked keys c i { x with outq := fs } q := by
  have hmem (g : Frame) (hg : g ∈ fs) : g ∈ x.outq := e ▸ List.mem_cons_of_mem _ hg
  refine ⟨h.args, ⟨h.node.myId, h.node.n, h.node.t, h.node.r2Secret, h.node.commit⟩, h.frames,
    h.suspect, fun hl _ => ?_, fun hb hp => ?_, fun g hg htype => ?_⟩
  · obtain ⟨h1, h2⟩ := h.asked hl (hcalm hl)
    refine ⟨h1, fun g hg htype => ?_⟩
    obtain ⟨h3, h4⟩ := h2 g (hmem g hg) htype
    exact ⟨armed_outq h3, h4⟩
  · obtain ⟨a1, a2, a3, a4, a5, a6⟩ := h.committed hb hp
    exact ⟨a1, fun g hg => a2 g (hmem g hg), armed_outq a3, a4, a5, a6⟩
  · obtain ⟨h1, h2, h3⟩ := h.relay g hg htype
    exact ⟨h1, fun g hg => h2 g (hmem g hg), h3.keeps rfl rfl fun _ _ => armed_outq⟩

/-- An accepted `COMMIT` is ripe: with one request at most, it answers the last. -/
theorem Linked.accept (h : Linked keys c i x q) {fs : List Frame} (e : x.outq = f :: fs)
    (hf : f.type = .commit) (hcalm : Live c i → q.countP isReq + x.outq.countP isCommit ≤ 1)
    (ht : TakesCommit c i f) : Linked keys (storeCommit c i f) i { x with outq := fs } q := by
  have hpop := h.pop e hcalm
  have hin : f ∈ x.outq := by rw [e]; exact List.mem_cons_self ..
  have hsg : (storeCommit c i f).sg i =
      { c.sg i with commit := f.payload, commitSig := f.sig, signPhase := .committed } :=
    Coord.setSg_self ..
  refine ⟨hpop.args, hpop.node, hpop.frames, ?_, ?_, ?_, hpop.relay⟩
  · intro hp; rw [hsg] at hp; cases hp
  · intro hl
    have := hl.2
    rw [hsg] at this
    rcases this with h' | h' <;> cases h'
  · intro hb _
    have hl : Live c i := ⟨hb, ht.phase⟩
    have hc := hcalm hl
    obtain ⟨-, h2⟩ := h.asked hl hc
    obtain ⟨harm, hframe⟩ := h2 f hin hf
    rw [e, List.countP_cons_of_pos (by simp [isCommit, hf])] at hc
    refine ⟨fun g hg => ⟨countP_isReq_zero (by omega) g hg, fun htype => ?_⟩,
      countP_isCommit_zero (q := fs) (by omega), ?_, ?_, ?_, ?_⟩
    · exact (h.relay g hg htype).silent f hin hf
    · rw [hsg]; exact armed_outq harm
    · rw [hsg]
      show f.sig = _
      rw [hframe]
      rfl
    · rw [hsg]; exact ht.size
    · rw [hsg]; exact ht.sigSize

/-! ## The whole system -/

/-- A process that is not registered has said nothing but `HELLO`. -/
def Joining (i : Nat) (x : Node) : Prop :=
  ∀ f ∈ x.outq, ∃ n t, Args i n t ∧ f.type = .hello ∧ f.payload = helloText i n t ∧ Settled i n t x

structure Inv (keys : Keys) (s : Sys) : Prop where
  all : AllLinked keys s.coord s.node s.down
  joining : ∀ i, i ∉ s.coord.signers → s.down i = [] ∧ Joining i (s.node i)

/-- Not a forged frame. -/
def Event.honest : Event → Bool
  | .forge _ _ _ _ => false
  | _ => true

variable {s : Sys}

theorem Inv.chain (h : Inv keys s) (hc : Chain Scope.all s.coord c') :
    Inv keys { s with coord := c' } := by
  have hall : AllLinked keys c' s.node s.down :=
    hc.invariant (I := fun d => AllLinked keys d s.node s.down)
    (fun _ _ hl hi => AllLinked.link hl hi) h.all
  refine ⟨hall, fun i hi => h.joining i ?_⟩
  rwa [hc.framed.signers] at hi

/-- A change of one record of the coordinator. -/
theorem AllLinked.setSg (h : AllLinked keys c node down) {i : Nat} {g : SignerRec → SignerRec}
    (hi : i ∈ c.signers → Linked keys (c.setSg i g) i (node i) (down i ++ (g (c.sg i)).msgq)) :
    AllLinked keys (c.setSg i g) node down := by
  refine ⟨h.mode, h.dkgState, h.distinct, fun j hj => ?_⟩
  by_cases e : j = i
  · subst e
    rw [Coord.setSg_self]
    exact hi hj
  · rw [Coord.setSg_of_ne e]
    exact (h.linked j hj).congr rfl rfl rfl rfl (by rw [Coord.setSg_of_ne e])

/-- The sessions are the coordinator's own business. -/
theorem AllLinked.setSession (h : AllLinked keys c node down) (k : Fin maxSessions)
    (g : RoastSession → RoastSession) : AllLinked keys (c.setSession k g) node down :=
  ⟨h.mode, h.dkgState, h.distinct, fun j hj => (h.linked j hj).congr rfl rfl rfl rfl rfl⟩

/-- A frame of a registered signer, read off its output. -/
theorem Inv.frame (h : Inv keys s) {fs : List Frame} (hi : i ∈ s.coord.signers)
    (e : (s.node i).outq = f :: fs) (hcalm : Live s.coord i → s.unanswered i ≤ 1)
    (hpop : Inv keys (s.setNode i { s.node i with outq := fs })) (env : Coordinator.Env) :
    Inv keys { s.setNode i { s.node i with outq := fs } with
      coord := processSignerFrame s.coord env i f } := by
  have hli := h.all.linked i hi
  -- an update of the sender's own record, then a chain
  have hown {g : SignerRec → SignerRec} {c' : Coord}
      (hg : Linked keys (s.coord.setSg i g) i { s.node i with outq := fs }
        (s.down i ++ (g (s.coord.sg i)).msgq))
      (hc : Chain Scope.all (s.coord.setSg i g) c') :
      Inv keys { s.setNode i { s.node i with outq := fs } with coord := c' } := by
    have h1 : Inv keys { s.setNode i { s.node i with outq := fs }
        with coord := s.coord.setSg i g } := by
      refine ⟨hpop.all.setSg fun _ => ?_, hpop.joining⟩
      show Linked keys _ i (Function.update s.node i _ i) _
      rw [Function.update_self]
      exact hg
    exact h1.chain hc
  cases ht : f.type with
  | commit =>
    have hf : processSignerFrame s.coord env i f = onCommit s.coord env i f := by
      unfold processSignerFrame; rw [ht]
    rw [hf]
    rcases onCommit_cases s.coord env i f with hsame | ⟨htakes, hnew⟩
    · rw [hsame]; exact hpop
    · rw [hnew]
      exact hown (hli.accept e ht hcalm htakes) (tryForm_chain _ trivial)
  | shareLoadFail =>
    have hf : processSignerFrame s.coord env i f = onShareLoadFail s.coord i := by
      unfold processSignerFrame; rw [ht]
    rw [hf]
    have hsg := Coord.setSg_self (c := s.coord) i fun r => { r with signPhase := .noKey }
    have hl : Linked keys (onShareLoadFail s.coord i) i { s.node i with outq := fs }
        (s.down i ++ (s.coord.sg i).msgq) :=
      (hli.pop e hcalm).retire (.inr (.inl rfl)) rfl rfl hsg
    exact hown (g := fun r => { r with signPhase := .noKey }) hl (.refl _)
  | sigShare =>
    have hf : processSignerFrame s.coord env i f = onSigShare s.coord env i f := by
      unfold processSignerFrame; rw [ht]
    rw [hf]
    rcases onSigShare_cases s.coord env i f with hsame | ⟨k, slot, htgt, hnew⟩
    · rw [hsame]; exact hpop
    have hfile : Inv keys { s.setNode i { s.node i with outq := fs } with
        coord := fileShare s.coord k slot i f.payload } := by
      let c₁ := s.coord.setSession k fun r =>
        { r with shares := Function.update r.shares slot f.payload, nShares := r.nShares + 1 }
      have h₁ : AllLinked keys c₁ (s.setNode i { s.node i with outq := fs }).node s.down :=
        hpop.all.setSession k _
      have hsg := Coord.setSg_self (c := c₁) i fun r => { r with signPhase := .shared }
      refine ⟨AllLinked.setSg (i := i) (g := fun r =>
        { r with signPhase := .shared }) h₁ fun _ => ?_,
        hpop.joining⟩
      show Linked keys _ i (Function.update s.node i _ i) _
      rw [Function.update_self]
      exact (hli.pop e hcalm).retire (.inr (.inr rfl)) rfl rfl hsg
    rcases hnew with hnew | ⟨stdin, -, -, hnew⟩
    · rw [hnew]; exact hfile
    · rw [hnew]
      have hopen : ((fileShare s.coord k slot i f.payload).sessions k).state = .awaitingShares := by
        rw [fileShare_session]; exact (shareTarget_some s.coord htgt).open'
      exact hfile.chain (onAggregate_chain hopen trivial _ (fun _ _ => trivial) (fun _ _ => trivial)
        fun _ _ _ => trivial)
  | _ =>
    refine hpop.chain (Idle.chain (ceremony_idle h.all.mode h.all.dkgState env i f ?_))
    rw [ht]
    rfl

/-- The process of an unregistered signer may be replaced by any that has said
nothing but `HELLO`. -/
theorem Inv.setNode (h : Inv keys s) {i : Nat} (hi : i ∉ s.coord.signers) {x : Node}
    (hx : Joining i x) : Inv keys (s.setNode i x) := by
  refine ⟨⟨h.all.mode, h.all.dkgState, h.all.distinct, fun j hj => ?_⟩, fun j hj => ?_⟩
  · have hne : j ≠ i := fun e => hi (e ▸ hj)
    show Linked keys _ j (Function.update s.node i x j) _
    rw [Function.update_of_ne hne]
    exact h.all.linked j hj
  · refine ⟨(h.joining j hj).1, ?_⟩
    show Joining j (Function.update s.node i x j)
    by_cases e : j = i
    · subst e; rw [Function.update_self]; exact hx
    · rw [Function.update_of_ne e]; exact (h.joining j hj).2

/-- The coordinator forgets signer `i`. -/
theorem Inv.forget (h : Inv keys s) {i : Nat} {x : Node} (hx : Joining i x) :
    Inv keys ((({ s with coord := removeSigner s.coord i } : Sys).setNode i x).setDown i []) := by
  refine ⟨⟨h.all.mode, h.all.dkgState, h.all.distinct.filter _, fun j hj => ?_⟩, fun j hj => ?_⟩
  · obtain ⟨hj, hne⟩ := List.mem_filter.mp hj
    have hne : j ≠ i := by simpa using hne
    show Linked keys _ j (Function.update s.node i x j) (Function.update s.down i [] j ++ _)
    rw [Function.update_of_ne hne, Function.update_of_ne hne]
    exact (h.all.linked j hj).congr rfl rfl rfl rfl rfl
  · show Function.update s.down i [] j = [] ∧ Joining j (Function.update s.node i x j)
    by_cases e : j = i
    · subst e; rw [Function.update_self, Function.update_self]; exact ⟨rfl, hx⟩
    · rw [Function.update_of_ne e, Function.update_of_ne e]
      refine h.joining j fun hin => hj (List.mem_filter.mpr ⟨hin, by simpa using e⟩)

/-- A process stops where it is. -/
theorem Inv.stop (h : Inv keys s) (i : Nat) : Inv keys (s.setNode i (stopNode (s.node i))) := by
  have harm {tbs commit : Bytes} (ha : Armed (s.node i) tbs commit) :
      Armed (stopNode (s.node i)) tbs commit := ⟨ha.state, ha.key, ha.short, ha.tbs, ha.commit⟩
  have hset {j n t : Nat} (hs : Settled j n t (s.node i)) : Settled j n t (stopNode (s.node i)) :=
    ⟨hs.myId, hs.n, hs.t, hs.r2Secret, hs.commit⟩
  by_cases hi : i ∈ s.coord.signers
  · refine ⟨⟨h.all.mode, h.all.dkgState, h.all.distinct, fun j hj => ?_⟩, fun j hj => ?_⟩
    · show Linked keys _ j (Function.update s.node i _ j) _
      by_cases e : j = i
      · subst e
        rw [Function.update_self]
        obtain ⟨h1, h2, h3, h4, h5, h6, h7⟩ := h.all.linked j hj
        refine ⟨h1, hset h2, h3, h4, fun hl hc => ?_, fun hb hp => ?_, fun f hf ht => ?_⟩
        · obtain ⟨h8, h9⟩ := h5 hl hc
          exact ⟨h8, fun f hf ht => ⟨harm (h9 f hf ht).1, (h9 f hf ht).2⟩⟩
        · obtain ⟨a1, a2, a3, a4, a5, a6⟩ := h6 hb hp
          exact ⟨a1, a2, harm a3, a4, a5, a6⟩
        · obtain ⟨a1, a2, a3⟩ := h7 f hf ht
          exact ⟨a1, a2, a3.keeps rfl rfl fun _ _ => harm⟩
      · rw [Function.update_of_ne e]
        exact h.all.linked j hj
    · refine ⟨(h.joining j hj).1, ?_⟩
      show Joining j (Function.update s.node i _ j)
      rw [Function.update_of_ne fun e : j = i => hj (e ▸ hi)]
      exact (h.joining j hj).2
  · refine h.setNode hi fun f hf => ?_
    obtain ⟨n, t, h1, h2, h3, h4⟩ := (h.joining i hi).2 f hf
    exact ⟨n, t, h1, h2, h3, hset h4⟩

/-- A connection that ends takes its record, its process and its frames along. -/
theorem Inv.drop (h : Inv keys s) (i : Nat) : Inv keys (s.drop i) := by
  have hempty : Joining i { stopNode (s.node i) with outq := [] } := nofun
  unfold Sys.drop
  split
  · exact h.stop i
  next hx =>
  unfold Coordinator.step
  rw [if_neg hx]
  dsimp only
  split
  · exact h.forget hempty
  · next hi =>
    have h1 := h.setNode hi hempty
    refine ⟨⟨h1.all.mode, h1.all.dkgState, h1.all.distinct, fun j hj => ?_⟩, fun j hj => ?_⟩
    · show Linked keys _ j _ (Function.update s.down i [] j ++ _)
      rw [Function.update_of_ne fun e : j = i => hi (e ▸ hj)]
      exact h1.all.linked j hj
    · refine ⟨?_, (h1.joining j hj).2⟩
      show Function.update s.down i [] j = []
      by_cases e : j = i
      · subst e; exact Function.update_self ..
      · rw [Function.update_of_ne e]; exact (h.joining j hj).1

/-! ## Registration -/

theorem parseHello_helloText {n t : Nat} (h : Args i n t) :
    parseHello (helloText i n t) = some (i, n, t) := by
  obtain ⟨⟨h1, h2⟩, ⟨h3, h4⟩, h5, h6⟩ := h
  have hm : maxSigners < 65536 := by decide
  have hscan : scanThree helloWord (helloText i n t) = some (i, n, t) :=
    scanThree_printThree (by decide) (by omega) (by omega) (by omega)
  unfold parseHello
  rw [hscan]
  dsimp only
  rw [if_neg]
  simp only [Bool.or_eq_true, decide_eq_true_eq, not_or]
  omega

/-- `g_n` and `g_t` are only ever set while nobody is registered. -/
theorem AllLinked.setSize (h : AllLinked keys c node down) {n t : Nat}
    (hnt : c.n = 0 ∨ c.n = n ∧ c.t = t) : AllLinked keys { c with n := n, t := t } node down := by
  rcases hnt with h0 | ⟨rfl, rfl⟩
  · refine ⟨h.mode, h.dkgState, h.distinct, fun j hj => ?_⟩
    have := (h.linked j hj).args.nRange
    omega
  · exact h

theorem Inv.enter (h : Inv keys s) (hi : i ∉ s.coord.signers)
    (hargs : Args i s.coord.n s.coord.t) (hset : Settled i s.coord.n s.coord.t (s.node i))
    (hout : ∀ f ∈ (s.node i).outq, f.type ≠ .commit) :
    Inv keys { s with coord := promote s.coord i } := by
  have hm := h.all.mode
  obtain ⟨sg, e⟩ := promote_shape hm i
  have hsigners : (promote s.coord i).signers = i :: s.coord.signers := by rw [e]
  have hbl (j : Nat) : isBlacklisted (promote s.coord i) j = isBlacklisted s.coord j := by
    unfold isBlacklisted; rw [e]
  have hself := promote_sg hm i
  refine ⟨⟨by rw [e]; exact hm, by rw [e]; exact h.all.dkgState, ?_, fun j hj => ?_⟩,
    fun j hj => h.joining j fun hin => hj ?_⟩
  · rw [hsigners]; exact List.nodup_cons.mpr ⟨hi, h.all.distinct⟩
  · rw [hsigners] at hj
    have hn : (promote s.coord i).n = s.coord.n := by rw [e]
    have ht : (promote s.coord i).t = s.coord.t := by rw [e]
    have htbs : (promote s.coord i).tbs = s.coord.tbs := by rw [e]
    by_cases hji : j = i
    · subst hji
      rw [hself, (h.joining j hi).1, List.nil_append]
      refine ⟨hn ▸ ht ▸ hargs, hn ▸ ht ▸ hset, ?_, ?_, fun _ _ => ⟨?_, ?_⟩, ?_, ?_⟩
      · intro f hf
        rcases List.mem_pair.mp hf with rfl | rfl <;> rfl
      · intro hp; rw [hself] at hp; cases hp
      · intro f hf htype
        rcases List.mem_pair.mp hf with rfl | rfl
        · cases htype
        · exact htbs.symm
      · intro f hf htype; exact absurd htype (hout f hf)
      · intro _ hp; rw [hself] at hp; cases hp
      · intro f hf htype
        rcases List.mem_pair.mp hf with rfl | rfl <;> cases htype
    · have hj := (List.mem_cons.mp hj).resolve_left hji
      have hsg := promote_sg_of_ne (c := s.coord) hm hji
      rw [hsg]
      exact (h.all.linked j hj).congr hn ht htbs (hbl j) (by rw [hsg])
  · rw [hsigners]; exact List.mem_cons_of_mem _ hin

/-- A process that is not registered is read on a staged connection. -/
theorem Inv.stage (h : Inv keys s) (hx : s.coord.exited = false) (hi : i ∉ s.coord.signers)
    {n t : Nat} (hargs : Args i n t) (hset : Settled i n t (s.node i)) (hf : f.type = .hello)
    (hp : f.payload = helloText i n t) (hello : HelloEnv) : Inv keys (s.stage i f hello) := by
  have hstep : Coordinator.step s.coord (.hello (ownId i hello) f.payload) =
      (onHello s.coord (ownId i hello) f.payload).1 := step_hello hx ..
  have hout : ∀ g ∈ (s.node i).outq, g.type ≠ .commit := by
    intro g hg
    obtain ⟨_, _, -, ht, -⟩ := (h.joining i hi).2 g hg
    rw [ht]; exact nofun
  unfold Sys.stage
  rw [if_pos hf]
  dsimp only
  rw [hstep]
  rcases onHello_cases s.coord (ownId i hello) f.payload with
    e | ⟨pid, pn, pt, hparse, hnt, e | ⟨-, e, -⟩⟩
  · rw [e, if_neg hi]
    exact h.stop i
  all_goals
    rw [hp, parseHello_helloText hargs] at hparse
    cases hparse
    have hsize : Inv keys { s with coord := { s.coord with n := n, t := t } } :=
      ⟨h.all.setSize hnt, h.joining⟩
  · rw [e, if_neg hi]
    exact hsize.stop i
  · rw [e]
    have hprom := hsize.enter hi hargs hset hout
    split
    · exact hprom
    · exact hprom.stop i

/-! ## Every step, and every run -/

theorem Inv.loopHead (h : Inv keys s) (env : TbsEnv) :
    Inv keys (step keys s (.loopHead env)) := by
  refine h.chain ?_
  unfold Coordinator.step
  split
  · exact .refl _
  · exact loopHead_chain _ env fun _ _ => trivial

theorem Inv.expire (h : Inv keys s) (now : Nat) (env : Fin maxSessions → Coordinator.Env) :
    Inv keys (step keys s (.expire now env)) := by
  refine h.chain ?_
  unfold Coordinator.step
  split
  · exact .refl _
  dsimp only
  split
  · exact roastExpireSessions_chain (fun _ => True) (fun _ _ _ _ => trivial)
      (fun _ _ _ _ _ => ⟨fun _ _ _ => trivial, fun _ _ => trivial⟩) (fun _ => trivial) trivial
  · exact .refl _

/-- A process starts. -/
theorem Inv.launch (h : Inv keys s) (i n t : Nat) : Inv keys (step keys s (.launch i n t)) := by
  show Inv keys (if Args i n t ∧ (s.node i).exited ∧ i ∉ s.coord.signers then _ else s)
  split
  · next hg =>
    obtain ⟨hargs, -, hi⟩ := hg
    have hjoin : Joining i (Node.start keys i n t) := by
      intro f hf
      rw [List.mem_singleton.mp hf]
      exact ⟨n, t, hargs, rfl, rfl, rfl, rfl, rfl, rfl, Nat.zero_le _⟩
    have h1 := h.setNode hi hjoin
    refine ⟨⟨h1.all.mode, h1.all.dkgState, h1.all.distinct, fun j hj => ?_⟩, fun j hj => ?_⟩
    · show Linked keys _ j _ (Function.update s.down i [] j ++ _)
      rw [Function.update_of_ne fun e : j = i => hi (e ▸ hj)]
      exact h1.all.linked j hj
    · refine ⟨?_, (h1.joining j hj).2⟩
      show Function.update s.down i [] j = []
      by_cases e : j = i
      · subst e; exact Function.update_self ..
      · rw [Function.update_of_ne e]; exact (h.joining j hj).1
  · exact h

/-- A frame leaves the coordinator. -/
theorem Inv.write (h : Inv keys s) (i : Nat) : Inv keys (step keys s (.write i)) := by
  rw [step]
  split
  · exact h
  next f fs hq =>
  split
  · exact h
  next hg =>
  simp only [Bool.or_eq_true, decide_eq_true_eq, not_or, not_not] at hg
  obtain ⟨hx, hi⟩ := hg
  rw [step_drain_of_mem (Bool.eq_false_of_not_eq_true hx) hi]
  have hsg := drainSignerWrite_self hq
  refine ⟨⟨h.all.mode, h.all.dkgState, h.all.distinct, fun j hj => ?_⟩, fun j hj => ?_⟩
  · show Linked keys (drainSignerWrite s.coord i) j (s.node j)
      (Function.update s.down i (s.down i ++ [f]) j ++ ((drainSignerWrite s.coord i).sg j).msgq)
    by_cases e : j = i
    · subst e
      -- the frame moves from one half of the queue to the other
      have hqueue : s.down j ++ [f] ++ ((drainSignerWrite s.coord j).sg j).msgq =
          s.down j ++ (s.coord.sg j).msgq := by
        rw [hsg, hq, List.append_assoc]
        rfl
      rw [Function.update_self, hqueue]
      exact (h.all.linked j hj).congr rfl rfl rfl rfl (by rw [hsg]; rfl)
    · have hne : (drainSignerWrite s.coord i).sg j = s.coord.sg j := Coord.setSg_of_ne e _
      rw [Function.update_of_ne e, hne]
      exact (h.all.linked j hj).congr rfl rfl rfl rfl (by rw [hne])
  · show Function.update s.down i _ j = [] ∧ Joining j (s.node j)
    rw [Function.update_of_ne fun e : j = i => hj (e ▸ hi)]
    exact h.joining j hj

/-- A frame reaches a signer. -/
theorem Inv.deliver (h : Inv keys s) (hcalm : Calm s) (i : Nat) (env : Signer.Env) :
    Inv keys (step keys s (.deliver i env)) := by
  rw [step]
  split
  · exact h
  next f fs hd =>
  split
  · exact h
  have hi : i ∈ s.coord.signers := by
    by_contra hi
    rw [(h.joining i hi).1] at hd
    cases hd
  have hli := h.all.linked i hi
  rw [hd, List.cons_append] at hli
  refine ⟨⟨h.all.mode, h.all.dkgState, h.all.distinct, fun j hj => ?_⟩, fun j hj => ?_⟩
  · show Linked keys _ j (Function.update s.node i _ j) (Function.update s.down i fs j ++ _)
    by_cases e : j = i
    · subst e
      rw [Function.update_self, Function.update_self]
      refine hli.deliver (fun hl => ?_) env
      have := hcalm j hi hl
      unfold Sys.unanswered Sys.queue at this
      rwa [hd] at this
    · rw [Function.update_of_ne e, Function.update_of_ne e]
      exact h.all.linked j hj
  · show Function.update s.down i fs j = [] ∧ Joining j (Function.update s.node i _ j)
    have e : j ≠ i := fun e => hj (e ▸ hi)
    rw [Function.update_of_ne e, Function.update_of_ne e]
    exact h.joining j hj

/-- A frame leaves a signer. -/
theorem Inv.popped (h : Inv keys s) (hi : i ∈ s.coord.signers) {f : Frame} {fs : List Frame}
    (ho : (s.node i).outq = f :: fs) (hc : Live s.coord i → s.unanswered i ≤ 1) :
    Inv keys (s.setNode i { s.node i with outq := fs }) := by
  refine ⟨⟨h.all.mode, h.all.dkgState, h.all.distinct, fun j hj => ?_⟩, fun j hj => ?_⟩
  · show Linked keys _ j (Function.update s.node i _ j) _
    by_cases e : j = i
    · subst e
      rw [Function.update_self]
      exact (h.all.linked j hj).pop ho hc
    · rw [Function.update_of_ne e]
      exact h.all.linked j hj
  · refine ⟨(h.joining j hj).1, ?_⟩
    show Joining j (Function.update s.node i _ j)
    rw [Function.update_of_ne fun e : j = i => hj (e ▸ hi)]
    exact (h.joining j hj).2

/-- A frame reaches the coordinator. -/
theorem Inv.receive (h : Inv keys s) (hcalm : Calm s) (i : Nat) (hello : HelloEnv)
    (env : Coordinator.Env) : Inv keys (step keys s (.receive i hello env)) := by
  rw [step]
  split
  · exact h
  next f fs ho =>
  have hin : f ∈ (s.node i).outq := by rw [ho]; exact List.mem_cons_self ..
  by_cases hi : i ∈ s.coord.signers
  · have hc (hl : Live s.coord i) : s.unanswered i ≤ 1 := hcalm i hi hl
    have hpop := h.popped hi ho hc
    unfold Sys.read
    split; · exact hpop
    next hx =>
    split; · exact hpop.drop i
    split
    · have hstep : Coordinator.step (s.setNode i { s.node i with outq := fs }).coord
          (.frame i f env) = processSignerFrame s.coord env i f :=
        step_frame_of_mem (Bool.eq_false_of_not_eq_true hx) hi f env
      rw [hstep]
      exact h.frame hi ho hc hpop env
    · next hno => exact absurd hi hno
  · obtain ⟨n, t, hargs, ht, hp, hset⟩ := (h.joining i hi).2 f hin
    have hset' : Settled i n t { s.node i with outq := fs } :=
      ⟨hset.myId, hset.n, hset.t, hset.r2Secret, hset.commit⟩
    have hpop : Inv keys (s.setNode i { s.node i with outq := fs }) := by
      refine h.setNode hi fun g hg => ?_
      obtain ⟨n', t', h1, h2, h3, h4⟩ := (h.joining i hi).2 g
        (by rw [ho]; exact List.mem_cons_of_mem _ hg)
      exact ⟨n', t', h1, h2, h3, h4.myId, h4.n, h4.t, h4.r2Secret, h4.commit⟩
    unfold Sys.read
    split; · exact hpop
    next hx =>
    split; · exact hpop.drop i
    split
    · next hno => exact absurd hno hi
    · refine hpop.stage (by simpa using hx) hi hargs ?_ ht hp hello
      show Settled i n t (Function.update s.node i _ i)
      rw [Function.update_self]
      exact hset'

/-- **A step of honest signers from a calm state.** -/
theorem Inv.next (h : Inv keys s) (hcalm : Calm s) {e : Event} (he : e.honest = true) :
    Inv keys (step keys s e) := by
  cases e with
  | loopHead env => exact h.loopHead env
  | expire now env => exact h.expire now env
  | launch i n t => exact h.launch i n t
  | write i => exact h.write i
  | deliver i env => exact h.deliver hcalm i env
  | receive i hello env => exact h.receive hcalm i hello env
  | forge i f hello env => cases he
  | leave i => exact h.drop i

theorem boot_inv (h0 : Started c) (hm : c.mode = .sign) : Inv keys (Sys.boot c) := by
  have hs := h0.unused
  refine ⟨⟨hm, by show c.dkgState ≠ _; rw [hs.dkgState]; exact nofun, ?_, fun i hi => ?_⟩,
    fun i _ => ⟨rfl, nofun⟩⟩
  · show c.signers.Nodup
    rw [hs.signers]; exact List.nodup_nil
  · have hi : i ∈ c.signers := hi
    rw [hs.signers] at hi; cases hi

/-- If the next event is a signer processing a `RELAY_COMMIT`, it takes the bundle. -/
def TakesBundle (keys : Keys) (s : Sys) : Event → Prop
  | .deliver i _ => ∀ f fs, s.down i = f :: fs → (s.node i).exited = false →
      f.type = .relayCommit → Taken keys (s.node i) f
  | _ => True

theorem Inv.takesBundle
    (hk : ∀ j d, 1 ≤ j → j ≤ maxSigners → keys.verify j d (keys.sign j d) = true)
    (h : Inv keys s) (e : Event) : TakesBundle keys s e := by
  cases e with
  | deliver i env =>
    intro f fs hd _ ht
    have hi : i ∈ s.coord.signers := by
      by_contra hi
      rw [(h.joining i hi).1] at hd
      cases hd
    have hin : f ∈ s.down i ++ (s.coord.sg i).msgq := by rw [hd]; exact List.mem_cons_self ..
    exact ((h.all.linked i hi).relay f hin ht).ready.taken hk
  | _ => trivial

/-- **Commitment freshness.** In a run of honest signers whose steps all start
calm, every `RELAY_COMMIT` a signer processes is on its current commitment and
message, signed by every member, and accepted. -/
theorem commitment_freshness (keys : Keys)
    (hk : ∀ j d, 1 ≤ j → j ≤ maxSigners → keys.verify j d (keys.sign j d) = true)
    {c₀ : Coord} (h0 : Started c₀) (hm : c₀.mode = .sign) {es : List Event}
    (h : Along (step keys) (fun s e => e.honest = true ∧ Calm s) (Sys.boot c₀) es) :
    Along (step keys) (TakesBundle keys) (Sys.boot c₀) es := by
  have hinv := Along.strengthen (I := Inv keys)
    (fun s e hi hc => hi.next hc.2 hc.1) (boot_inv h0 hm) h
  exact hinv.mono fun s e hs => hs.1.takesBundle hk e

/-! ## A slow signer outside the winning session

Signers 1 and 2 sign the first certificate before the coordinator reads the
commitment of signer 3. -/

def pairEnv : Coordinator.Env :=
  { quietEnv with
    assemble := fun _ => some [1], aggregate := fun _ => .sig (List.replicate 64 7)
    mint := fun _ => some [1] }

def anyId : HelloEnv := ⟨fun _ => true, fun _ => true⟩

def nextTbs : TbsEnv where
  now := 0
  callTbs := fun _ _ _ => .ok [] (9 :: List.replicate 32 0)
  caKey := some (Vector.replicate 32 0)

/-- `frost_commit` draws `x`. -/
def draws (x : UInt8) : Signer.Env := { plainEnv with commit := fun _ => .ok [x] [x] }

/-- Signer `i` registers and processes its `HELLO_ACK`. -/
def joinRun (i n t : Nat) : List Event :=
  [.launch i n t, .receive i anyId pairEnv, .write i, .deliver i plainEnv]

/-- Signer `i` is handed its next frame. -/
def handsOver (i : Nat) (x : UInt8) : List Event := [.write i, .deliver i (draws x)]

def hearsFrom (i : Nat) : Event := .receive i anyId pairEnv

/-- Three signers commit, the first two are read and a session of them opens. -/
def pairRun : List Event :=
  joinRun 1 3 2 ++ joinRun 2 3 2 ++ joinRun 3 3 2 ++ handsOver 1 11 ++ handsOver 2 12 ++
    handsOver 3 13 ++ [hearsFrom 1, hearsFrom 2]

/-- The session signs, the next certificate starts, and the commitment of signer
3 for the first one is read; signer 1 commits anew. -/
def straggleRun : List Event :=
  pairRun ++ handsOver 1 0 ++ handsOver 2 0 ++
    [hearsFrom 1, hearsFrom 2, .loopHead nextTbs, hearsFrom 3] ++ handsOver 1 0 ++ handsOver 1 21 ++ [hearsFrom 1, .write 1]

/-- Signer `i` is about to process a `RELAY_COMMIT` and to refuse it. -/
def refuses (keys : Keys) (s : Sys) (i : Nat) : Bool :=
  match s.down i with
  | [] => false
  | f :: _ => !(s.node i).exited && decide (f.type = .relayCommit) &&
      (acceptedBundle keys (s.node i) f.payload).isNone

theorem refuses_not_taken (h : refuses keys s i = true) (env : Signer.Env) :
    ¬ TakesBundle keys s (.deliver i env) := by
  intro ht
  unfold refuses at h
  split at h
  · cases h
  next f fs hd =>
  simp only [Bool.and_eq_true, Bool.not_eq_true', decide_eq_true_eq, Option.isNone_iff_eq_none] at h
  obtain ⟨⟨hx, htype⟩, hnone⟩ := h
  obtain ⟨-, b, hb, -⟩ := ht f fs hd hx htype
  rw [hnone] at hb
  cases hb

theorem toyKeys_verify (j : Nat) (d : Bytes) : toyKeys.verify j d (toyKeys.sign j d) = true := by
  simp [toyKeys]

/-- Signer 1 refuses a bundle in which the commitment of signer 3 is signed for
the certificate before. -/
theorem stale_commit_taken :
    Started (signStart 3 2 2) ∧ (signStart 3 2 2).mode = .sign ∧
      (∀ j d, toyKeys.verify j d (toyKeys.sign j d) = true) ∧
      (∀ e ∈ straggleRun ++ [.deliver 1 plainEnv], e.honest = true) ∧
      ¬ Along (step toyKeys) (TakesBundle toyKeys) (Sys.boot (signStart 3 2 2))
        (straggleRun ++ [.deliver 1 plainEnv]) := by
  refine ⟨signStart_started (by decide) (by decide) (by decide), by decide, toyKeys_verify,
    by decide, fun h => ?_⟩
  have hlast := ((along_concat _ _ _).mp h).2
  refine refuses_not_taken ?_ _ hlast
  decide +kernel

/-- The first session of that run is calm, and signer 1 takes its bundle. -/
theorem commitment_freshness_run :
    (((run (step toyKeys) (Sys.boot (signStart 3 2 2)) (pairRun ++ [.write 1])).down 1).map
        (·.type)) = [.relayCommit] ∧
      Along (step toyKeys) (TakesBundle toyKeys) (Sys.boot (signStart 3 2 2))
        (pairRun ++ [.write 1] ++ [.deliver 1 plainEnv]) := by
  refine ⟨by decide +kernel, commitment_freshness toyKeys (fun j d _ _ => toyKeys_verify j d)
    (signStart_started (by decide) (by decide) (by decide)) (by decide) ?_⟩
  decide +kernel

end FrostSshCa.System
