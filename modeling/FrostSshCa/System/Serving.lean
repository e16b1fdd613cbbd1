import FrostSshCa.Coordinator.Table
import FrostSshCa.Signer.Armed
import FrostSshCa.System.State

/-!
# One signer that follows the code, among any others

`Serving` ties the phase of signer `h` at the coordinator to what is still under
way between the two: a committed signer has nothing under way, a signer of an
open session has the bundle or its share under way, or has its share filed. The
other signers send what they like.
-/

namespace FrostSshCa.System

open Coordinator Signer Lib

/-- What the Rust core is assumed to compute, the same in every process: the
package of a bundle, and whether a share of a signer is valid for a package
under a `PublicKeyPackage`. -/
structure Core where
  assemble : CommitBundle → Option Bytes
  valid : Bytes → Bytes → Nat → Bytes → Prop

/-- `aggregate` names only a signer whose share it was given and is invalid. -/
structure Core.Answers (core : Core) (env : Coordinator.Env) : Prop where
  assemble : env.assemble = core.assemble
  culprit : ∀ stdin x, env.aggregate stdin = .culprit x → ∃ share, (x, share) ∈ stdin.shares ∧
    ¬ core.valid stdin.signingPkg stdin.pubKeyPkg x share

/-- The frames of the signing rounds. -/
def isToken (f : Frame) : Bool :=
  match f.type with
  | .helloAck | .signReq | .relayCommit | .commit | .sigShare | .shareLoadFail => true
  | _ => false

/-- A request, or its answer. -/
def isAsk (f : Frame) : Bool := isReq f || isCommit f

/-- What is under way between signer and coordinator, first what is nearest to
the coordinator. Each frame to the signer stands for the one that answers it. -/
def pipe (x : Node) (q : List Frame) : List Frame := (x.outq ++ q).filter isToken

def upFrame : MsgType → Bool
  | .hello | .commit | .sigShare | .shareLoadFail => true
  | _ => false

variable (core : Core) (pub : Bytes) (h : Nat)

/-- A share that counts for the package `spkg`. -/
structure Counts (spkg share : Bytes) : Prop where
  nonempty : share ≠ []
  size : share.length ≤ maxPayload
  valid : core.valid spkg pub h share

/-- The frame is the bundle of the package `spkg`, or a share for it. -/
def Due (spkg : Bytes) (f : Frame) : Prop :=
  f.type = .relayCommit ∧ (∃ b k, unpackCommitBundle f.payload = some (b, k) ∧
    core.assemble b = some spkg) ∨ f.type = .sigShare ∧ Counts core pub h spkg f.payload

/-- What a member of the open session `s` has done: the bundle or the share is
under way, or the share is filed. -/
inductive Member (r : SignerRec) (s : RoastSession) (p : List Frame) : Prop where
  | due (phase : r.signPhase = .inSession) (empty : ∀ i, s.signerIds[i]? = some h → s.shares i = [])
      (f : Frame) (under : p = [f]) (due : Due core pub h s.signingPkg f)
  | filed (phase : r.signPhase = .shared)
      (share : ∀ i, s.signerIds[i]? = some h → Counts core pub h s.signingPkg (s.shares i))

/-- The phase of signer `h` at the coordinator, its process `x` and the frames
`q` on their way to it agree. -/
structure Serving (c : Coord) (x : Node) (q : List Frame) : Prop where
  settled : ∃ n t, Settled h n t x
  ups : ∀ f ∈ x.outq, upFrame f.type = true
  frames : ∀ f ∈ q, signFrame f.type = true
  unlisted : isBlacklisted c h = false
  strikes : getStrikes c h = 0
  phase : (c.sg h).signPhase ≠ .suspect ∧ (c.sg h).signPhase ≠ .blacklisted
  free : (c.sg h).signPhase ≠ .inSession → (c.sg h).signPhase ≠ .shared → Free c.sessions h
  asked : (c.sg h).signPhase = .init → (pipe x q).countP isAsk ≤ 1 →
    ∀ f ∈ (pipe x q).dropLast, isAsk f = false
  committed : (c.sg h).signPhase = .committed → pipe x q = []
  inSession : (c.sg h).signPhase = .inSession →
    pipe x q = [] ∨ ∃ f, pipe x q = [f] ∧ (f.type = .relayCommit ∨ f.type = .sigShare)
  shared : (c.sg h).signPhase = .shared → pipe x q = []
  member : ∀ k, (c.sessions k).state = .awaitingShares → h ∈ (c.sessions k).signerIds →
    (c.sg h).sessionId = (c.sessions k).id ∧ Member core pub h (c.sg h) (c.sessions k) (pipe x q)

variable {core pub h} {c c' : Coord} {x x' : Node} {q q' : List Frame} {now : Nat}

/-! ## Frames at the end of the queue -/

theorem pipe_append (x : Node) (q fs : List Frame) :
    pipe x (q ++ fs) = pipe x q ++ fs.filter isToken := by
  unfold pipe
  rw [← List.append_assoc, List.filter_append]

theorem pipe_idle (x : Node) (q : List Frame) {fs : List Frame}
    (hfs : ∀ f ∈ fs, MsgType.idle f.type = true) : pipe x (q ++ fs) = pipe x q := by
  rw [pipe_append, List.filter_eq_nil_iff.mpr, List.append_nil]
  intro f hf
  have := hfs f hf
  revert this
  unfold isToken
  cases f.type <;> simp [MsgType.idle]

theorem idle_signFrame {f : Frame} (hf : MsgType.idle f.type = true) : signFrame f.type = true := by
  revert hf
  cases f.type <;> simp [MsgType.idle, signFrame]

/-- Idle frames are sent, sessions may close, and nothing else that `Serving`
reads of the coordinator changes. -/
theorem Serving.quiet (hs : Serving core pub h c x q) {fs : List Frame}
    (hfs : ∀ f ∈ fs, MsgType.idle f.type = true) (hbl : isBlacklisted c' h = false)
    (hst : getStrikes c' h = 0)
    (hse : ∀ k, (c'.sessions k).state = .awaitingShares → c'.sessions k = c.sessions k)
    (hv : (c'.sg h).signView = (c.sg h).signView) : Serving core pub h c' x (q ++ fs) := by
  simp only [SignerRec.signView, Prod.mk.injEq] at hv
  obtain ⟨-, -, hp, hid⟩ := hv
  have hpipe := pipe_idle x q hfs
  refine ⟨hs.settled, hs.ups, fun f hf => ?_, hbl, hst, ?_, ?_, ?_, ?_, ?_, ?_, ?_⟩
  · rcases List.mem_append.mp hf with hf | hf
    · exact hs.frames f hf
    · exact idle_signFrame (hfs f hf)
  · rw [hp]; exact hs.phase
  · rw [hp]
    intro h1 h2 k hk
    have e := hse k hk
    rw [e] at hk ⊢
    exact hs.free h1 h2 k hk
  · rw [hp, hpipe]; exact hs.asked
  · rw [hp, hpipe]; exact hs.committed
  · rw [hp, hpipe]; exact hs.inSession
  · rw [hp, hpipe]; exact hs.shared
  · intro k hk hmem
    have e := hse k hk
    rw [e] at hk hmem ⊢
    obtain ⟨h1, h2⟩ := hs.member k hk hmem
    rw [hpipe]
    refine ⟨hid.trans h1, ?_⟩
    cases h2 with
    | due a b f d e => exact .due (hp.trans a) b f d e
    | filed a b => exact .filed (hp.trans a) b

/-- A request, while no open session has the signer. -/
theorem Serving.request (hs : Serving core pub h c x q) (hbl : isBlacklisted c' h = false)
    (hst : getStrikes c' h = 0) (hfree : Free c'.sessions h)
    (he : c'.sg h = (c.sg h).asked .init c'.tbs) :
    Serving core pub h c' x (q ++ [⟨.signReq, [], c'.tbs⟩]) := by
  have hp : (c'.sg h).signPhase = .init := by rw [he]; rfl
  have hpipe : pipe x (q ++ [⟨.signReq, [], c'.tbs⟩]) = pipe x q ++ [⟨.signReq, [], c'.tbs⟩] :=
    pipe_append ..
  refine ⟨hs.settled, hs.ups, fun f hf => ?_, hbl, hst, ?_, fun _ _ => hfree, ?_, ?_, ?_, ?_, ?_⟩
  · rcases List.mem_append.mp hf with hf | hf
    · exact hs.frames f hf
    · rw [List.mem_singleton.mp hf]; rfl
  · rw [hp]; exact ⟨nofun, nofun⟩
  · -- with one request at most, the new one is the only one
    rw [hpipe, List.dropLast_concat]
    intro _ hcalm f hf
    rw [List.countP_append, List.countP_singleton,
      show isAsk ⟨.signReq, [], c'.tbs⟩ = true from rfl, if_pos rfl] at hcalm
    have hnone : (pipe x q).countP isAsk = 0 := by omega
    simpa using List.countP_eq_zero.mp hnone f hf
  · intro h'; rw [hp] at h'; cases h'
  · intro h'; rw [hp] at h'; cases h'
  · intro h'; rw [hp] at h'; cases h'
  · intro k hk hmem; exact absurd hmem (hfree k hk)

/-- The signer is chosen for a new session. -/
theorem Serving.assign (hs : Serving core pub h c x q) (hp : (c.sg h).signPhase = .committed)
    (hbl : isBlacklisted c' h = false) (hst : getStrikes c' h = 0) {k : Fin maxSessions}
    {chosen : List Nat} {spkg wire : Bytes} {now : Nat}
    (hk : c'.sessions k = newSession c chosen spkg now)
    (hother : ∀ j, j ≠ k → c'.sessions j = c.sessions j)
    (he : c'.sg h = (c.sg h).assigned c.nextSessionId wire)
    (hwire : ∃ b n, unpackCommitBundle wire = some (b, n) ∧ core.assemble b = some spkg) :
    Serving core pub h c' x (q ++ [⟨.relayCommit, [], wire⟩]) := by
  have hp' : (c'.sg h).signPhase = .inSession := by rw [he]; rfl
  have hpipe : pipe x (q ++ [⟨.relayCommit, [], wire⟩]) = [⟨.relayCommit, [], wire⟩] := by
    rw [pipe_append, hs.committed hp]
    rfl
  have hfree : Free c.sessions h :=
    hs.free (by rw [hp]; exact nofun) (by rw [hp]; exact nofun)
  refine ⟨hs.settled, hs.ups, fun f hf => ?_, hbl, hst, ?_, ?_, ?_, ?_, ?_, ?_, ?_⟩
  · rcases List.mem_append.mp hf with hf | hf
    · exact hs.frames f hf
    · rw [List.mem_singleton.mp hf]; rfl
  · rw [hp']; exact ⟨nofun, nofun⟩
  · intro h1; exact absurd hp' h1
  · intro h1; rw [hp'] at h1; cases h1
  · intro h1; rw [hp'] at h1; cases h1
  · intro _; exact .inr ⟨_, hpipe, .inl rfl⟩
  · intro h1; rw [hp'] at h1; cases h1
  · intro j hj hmem
    by_cases e : j = k
    · subst e
      rw [hk, he]
      exact ⟨rfl, .due rfl (fun _ _ => rfl) _ hpipe (.inl ⟨rfl, hwire⟩)⟩
    · rw [hother j e] at hj hmem
      exact absurd hmem (hfree j hj)

/-- A new session without the signer. -/
theorem Serving.bystander (hs : Serving core pub h c x q) (hbl : isBlacklisted c' h = false)
    (hst : getStrikes c' h = 0) {k : Fin maxSessions} {chosen : List Nat} {spkg : Bytes} {now : Nat}
    (hk : c'.sessions k = newSession c chosen spkg now) (hnot : h ∉ chosen)
    (hother : ∀ j, j ≠ k → c'.sessions j = c.sessions j) (he : c'.sg h = c.sg h) :
    Serving core pub h c' x q := by
  refine ⟨hs.settled, hs.ups, hs.frames, hbl, hst, ?_, ?_, ?_, ?_, ?_, ?_, ?_⟩
  · rw [he]; exact hs.phase
  · rw [he]
    intro h1 h2 j hj
    by_cases e : j = k
    · subst e; rw [hk]; exact hnot
    · rw [hother j e] at hj ⊢; exact hs.free h1 h2 j hj
  · rw [he]; exact hs.asked
  · rw [he]; exact hs.committed
  · rw [he]; exact hs.inSession
  · rw [he]; exact hs.shared
  · intro j hj hmem
    by_cases e : j = k
    · subst e; rw [hk] at hmem; exact absurd hmem hnot
    · rw [hother j e] at hj hmem ⊢
      rw [he]
      exact hs.member j hj hmem

/-! ## The links of the coordinator -/

/-- Only others are struck or blacklisted, the signer is asked when it is free,
and sessions are formed with the packages of the core, no earlier than `now`. -/
def others (core : Core) (h now : Nat) : Scope where
  black := fun id => id ≠ h
  ask := fun sessions id => id = h → Free sessions h
  env := fun env => core.Answers env ∧ now ≤ env.now

theorem newBundle_unpacks (ht : Table c) {env : Coordinator.Env} {k : Fin maxSessions}
    {spkg wire : Bytes} (hc : core.Answers env) (hf : Forms c env k spkg wire) :
    ∃ b n, unpackCommitBundle wire = some (b, n) ∧ core.assemble b = some spkg := by
  obtain ⟨b, hb, hasm, hpack⟩ := hf.bundle
  obtain ⟨n, hun⟩ := ht.unpacks hb hpack
  exact ⟨b, n, hun, by rw [← hc.assemble]; exact hasm⟩

theorem getStrikes_congr (e : c'.strikes = c.strikes) (i : Nat) :
    getStrikes c' i = getStrikes c i := by
  unfold getStrikes; rw [e]

theorem isBlacklisted_congr (e : c'.blacklist = c.blacklist) (i : Nat) :
    isBlacklisted c' i = isBlacklisted c i := by
  unfold isBlacklisted; rw [e]

theorem blacklistSigner_other {id : Nat} (hne : h ≠ id) :
    isBlacklisted (blacklistSigner c id) h = isBlacklisted c h := by
  unfold blacklistSigner
  split
  · rfl
  · simp [isBlacklisted, hne]

theorem addStrike_other {id : Nat} (hne : h ≠ id) :
    getStrikes (addStrike c id) h = getStrikes c h := by
  unfold addStrike
  split
  · unfold getStrikes
    simp [Function.update_of_ne hne]
  · rfl

/-- What a link that spares `h` does to its standing: nothing. -/
theorem standing_link (hl : Link (others core h now) c c') :
    isBlacklisted c' h = isBlacklisted c h ∧ getStrikes c' h = getStrikes c h := by
  cases hl with
  | idle hid => exact ⟨isBlacklisted_congr hid.blacklist h, getStrikes_congr hid.strikes h⟩
  | close _ _ => exact ⟨rfl, rfl⟩
  | @black id hB =>
    have hne : h ≠ id := fun e => hB e.symm
    obtain ⟨_, e⟩ := setPhase_sgOnly (blacklistSigner c id) id .blacklisted
    refine ⟨(isBlacklisted_congr (by rw [e]) h).trans (blacklistSigner_other hne), ?_⟩
    refine getStrikes_congr (c := c) ?_ h
    rw [e]
    unfold blacklistSigner
    split <;> rfl
  | @strike id hB =>
    refine ⟨isBlacklisted_congr ?_ h, addStrike_other fun e => hB e.symm⟩
    unfold addStrike
    split <;> rfl
  | request _ _ _ =>
    obtain ⟨_, e⟩ := requestCommit_sgOnly c _ _
    rw [e]; exact ⟨rfl, rfl⟩
  | form _ _ =>
    obtain ⟨_, e⟩ := openSession_sgOnly c _ (chooseSigners c) _ _ _
    rw [e]; exact ⟨rfl, rfl⟩
  | @restart d hr _ =>
    obtain ⟨_, e⟩ := broadcastSignReq_sgOnly d
    rw [e]; exact ⟨isBlacklisted_congr hr.blacklist h, getStrikes_congr hr.strikes h⟩

/-- What a link that spares `h` does to it and to the open sessions. -/
inductive Spare (core : Core) (h now : Nat) (c c' : Coord) : Prop where
  | still (record : RecIdle (c.sg h) (c'.sg h)) (sessions : NoneOpened c c')
  | request (hi : h ∈ c.signers) (free : Free c'.sessions h)
      (record : c'.sg h = (c.sg h).asked .init c'.tbs)
  | opened {env : Coordinator.Env} {k : Fin maxSessions} {spkg wire : Bytes}
      (answers : core.Answers env) (clock : now ≤ env.now) (forms : Forms c env k spkg wire)
      (eq : c' = openSession c k (chooseSigners c) spkg wire env.now)

theorem spare_link (hl : Link (others core h now) c c') (hd : c.signers.Nodup) :
    Spare core h now c c' := by
  have hsame (e : c'.sessions = c.sessions) : NoneOpened c c' := fun k _ => congrFun e k
  cases hl with
  | idle hid => exact .still (hid.sg h) (hsame hid.sessions)
  | @close k hk st hst =>
    refine .still (.refl _) fun j hj => ?_
    by_cases e : j = k
    · subst e
      unfold Coord.closeSession at hj
      rw [Coord.setSession_self] at hj
      rcases hst with rfl | rfl <;> cases hj
    · exact Coord.setSession_of_ne e _
  | @black id hB =>
    refine .still ?_ (hsame (blacklist_sessions c id).1)
    rw [blacklist_sg, if_neg fun h' => hB h'.1.symm]
    exact .refl _
  | @strike id _ =>
    refine .still ?_ (hsame (addStrike_sessions c id).1)
    rw [addStrike_sg]
    exact .refl _
  | @request p id hp hid hQ =>
    by_cases hne : h = id
    · subst hne
      have hp : p = .init := hp.resolve_right fun h' => h'.2 rfl
      obtain ⟨_, e⟩ := requestCommit_sgOnly c p h
      refine .request hid ?_ ?_
      · rw [e]; exact hQ rfl
      · rw [requestCommit_self, e, hp]
    · refine .still ?_ (hsame (requestCommit_sessions c p id).1)
      rw [requestCommit_of_ne hne]
      exact .refl _
  | form hE hf => exact .opened hE.1 hE.2 hf rfl
  | @restart d hr hQ =>
    obtain ⟨_, e⟩ := broadcastSignReq_sgOnly d
    have hsg := broadcastSignReq_sg (c := d) (hr.signers ▸ hd) h
    rw [hr.sg] at hsg
    split at hsg
    · next hin =>
      have hi : h ∈ c.signers := hr.signers ▸ hin.1
      refine .request hi ?_ ?_
      · rw [e]; exact hQ h hi rfl
      · rw [hsg, e]
    · refine .still (by rw [hsg]; exact .refl _) fun k hk => ?_
      have hse : (broadcastSignReq d).sessions = d.sessions := by rw [e]
      rw [hse] at hk ⊢
      rcases hr.sessions with e' | e'
      · rw [e']
      · rw [e'] at hk; cases hk

/-- **Every link that spares the signer keeps it served.** -/
theorem Serving.link {d : List Frame} (hl : Link (others core h now) c c') (ht : Table c)
    (hs : Serving core pub h c x (d ++ (c.sg h).msgq)) :
    Serving core pub h c' x (d ++ (c'.sg h).msgq) := by
  obtain ⟨hb, hst⟩ := standing_link hl
  have hbl := hb.trans hs.unlisted
  have hstr := hst.trans hs.strikes
  cases spare_link hl ht.ids.distinct with
  | still hr hse =>
    obtain ⟨hv, fs, hq, hfs⟩ := hr
    rw [hq, ← List.append_assoc]
    exact hs.quiet hfs hbl hstr hse hv
  | request _ hfree he =>
    rw [show (c'.sg h).msgq = (c.sg h).msgq ++ [⟨.signReq, [], c'.tbs⟩] by rw [he]; rfl,
      ← List.append_assoc]
    exact hs.request hbl hstr hfree he
  | @opened env k spkg wire hE _ hf e =>
    subst e
    obtain ⟨hself, hother⟩ := openSession_sessions c k (chooseSigners c) spkg wire env.now
    have hsg := openSession_sg (c := c) (chooseSigners_nodup c ht.ids.distinct)
        k spkg wire env.now h
    by_cases hin : h ∈ chooseSigners c
    · rw [if_pos hin] at hsg
      rw [show ((openSession c k (chooseSigners c) spkg wire env.now).sg h).msgq = (c.sg h).msgq ++
        [⟨.relayCommit, [], wire⟩] by rw [hsg]; rfl, ← List.append_assoc]
      refine hs.assign ?_ hbl hstr hself hother hsg (newBundle_unpacks ht hE hf)
      obtain ⟨-, hok | hok⟩ := mem_chooseSigners c hin
      · simp only [reliable, Bool.and_eq_true, decide_eq_true_eq] at hok
        exact hok.1.1.1
      · simp only [suspected, Bool.and_eq_true, decide_eq_true_eq, hs.strikes] at hok
        exact absurd hok.2 (Nat.lt_irrefl 0)
    · rw [if_neg hin] at hsg
      rw [hsg]
      exact hs.bystander hbl hstr hself hin hother hsg

/-- A signer that is not registered has no standing to lose. -/
structure Absent (h : Nat) (c : Coord) : Prop where
  unlisted : isBlacklisted c h = false
  strikes : getStrikes c h = 0
  free : Free c.sessions h

theorem Absent.link (hl : Link (others core h now) c c') (ht : Table c) (hi : h ∉ c.signers)
    (ha : Absent h c) : Absent h c' := by
  obtain ⟨hb, hst⟩ := standing_link hl
  refine ⟨hb.trans ha.unlisted, hst.trans ha.strikes, fun k hk => ?_⟩
  cases spare_link hl ht.ids.distinct with
  | still _ hse =>
    have e := hse k hk
    rw [e] at hk ⊢
    exact ha.free k hk
  | request hin _ _ => exact absurd hin hi
  | @opened env j spkg wire hE _ hf e =>
    subst e
    obtain ⟨hself, hother⟩ := openSession_sessions c j (chooseSigners c) spkg wire env.now
    by_cases e : k = j
    · subst e
      rw [hself]
      exact fun hin => hi (mem_chooseSigners c hin).1
    · rw [hother k e] at hk ⊢
      exact ha.free k hk

end FrostSshCa.System
