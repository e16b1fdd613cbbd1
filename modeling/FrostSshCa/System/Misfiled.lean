import FrostSshCa.Coordinator.Eager
import FrostSshCa.System.Attribution
import FrostSshCa.System.Fresh

/-!
# Shares and the session they are filed under

A share of a signer that follows the code is filed under the session whose bundle it
answers, as long as no open session has id 0, which is what a record says that stands
in no session. Session ids have 32 bits: the run at the end uses them all up, and a
share is filed under the wrong bundle.
-/

namespace FrostSshCa.System

open Coordinator Signer Lib

variable {c : Coord}

/-- The event files `share` in slot `slot` of session `k` for signer `h`. -/
structure Files (h : Nat) (s : Sys) (e : Event) (k : Fin maxSessions) (slot : Nat) (share : Bytes) :
    Prop where
  frame : ∃ f env, coordEvent s e = some (.frame h f env) ∧ f.type = .sigShare ∧
    shareTarget s.coord h f = some (k, slot) ∧ f.payload = share
  running : s.coord.exited = false
  registered : h ∈ s.coord.signers

/-- A share filed for `h` was computed by it from the bundle of the session. -/
def Attributed (h : Nat) (p : Sys × History) (e : Event) : Prop :=
  ∀ k slot share, Files h p.1 e k slot share →
    ∃ b, p.2 k = some b ∧ Computed (p.1.node h).log b share

/-- No open session has the id that stands for no session. -/
def NonzeroIds (c : Coord) : Prop :=
  ∀ k, (c.sessions k).state = .awaitingShares → (c.sessions k).id ≠ 0

theorem Held.attributed {p : Sys × History} (hh : Held h p.1.coord p.2 (p.1.node h) (p.1.down h))
    {e : Event} (hf : ¬ e.Forges h) (hz : NonzeroIds p.1.coord) : Attributed h p e := by
  obtain ⟨s, g⟩ := p
  rintro k slot share ⟨⟨f, env, hce, hty, ht, rfl⟩, -, hi⟩
  dsimp only at hh hce ht hi hz ⊢
  have htgt := shareTarget_some s.coord ht
  -- the frame is the next one of the signer itself
  have hin : f ∈ (s.node h).outq := by
    have hread {i : Nat} {f' : Frame} {hello : HelloEnv} {env' : Coordinator.Env}
        (he : readEvent s.coord i f' hello env' = some (.frame h f env)) : i = h ∧ f' = f := by
      unfold readEvent at he
      split at he
      · cases he
      split at he
      · cases he
        exact ⟨rfl, rfl⟩
      split at he <;> cases he
    cases e with
    | receive i hello env' =>
      unfold coordEvent at hce
      dsimp only at hce
      split at hce
      · cases hce
      next f' fs hq =>
      obtain ⟨rfl, rfl⟩ := hread hce
      rw [hq]
      exact List.mem_cons_self ..
    | forge i f' hello env' => exact absurd (hread hce).1 hf
    | write i =>
      unfold coordEvent at hce
      dsimp only at hce
      split at hce <;> cases hce
    | loopHead _ => cases hce
    | expire _ _ => cases hce
    | launch _ _ _ => cases hce
    | deliver _ _ => cases hce
    | leave _ => cases hce
  have hid : (s.coord.sessions k).id = (s.coord.sg h).sessionId := by
    have := List.find?_some htgt.found
    simpa using this
  obtain ⟨b, hb, hcomp, -⟩ := (hh.here hi).assigned (hid ▸ hz k htgt.open') k htgt.open' hid
    (List.mem_of_getElem? htgt.slot)
  exact ⟨b, hb, hcomp f hin hty⟩

/-- **Share attribution.** Along every run of sign mode in which no open session has
id 0, a share filed for a signer that follows the code was computed by it from the
bundle of that session. -/
theorem share_attribution (keys : Keys) {c₀ : Coord} (h0 : Started c₀) (hm : c₀.mode = .sign)
    {h : Nat} {es : List Event}
    (hes : Along (trace keys) (fun p e => ¬ e.Forges h ∧ DrawsFresh h p.1 e ∧ NonzeroIds p.1.coord)
      (Sys.boot c₀, fun _ => none) es) :
    Along (trace keys) (Attributed h) (Sys.boot c₀, fun _ => none) es := by
  have hinv := Along.strengthen
    (I := fun p : Sys × History => Held h p.1.coord p.2 (p.1.node h) (p.1.down h))
    (fun p e hi hc => hi.step hc.1 hc.2.1) (boot_held h0 hm h) hes
  exact hinv.mono fun p e hp => hp.1.attributed hp.2.1 hp.2.2.2

theorem trace_fst (keys : Keys) (p : Sys × History) (e : Event) :
    (trace keys p e).1 = step keys p.1 e := rfl

/-! ## One share filed -/

/-- Every aggregation succeeds and no certificate is written. -/
def mintless : Coordinator.Env := { pairEnv with mint := fun _ => none }

def forged (i : Nat) (f : Frame) : Event := .forge i f anyId mintless

def forgedHello (i : Nat) : Event := forged i ⟨.hello, [], printThree helloWord i 4 2⟩

/-- Signer 1 is not forged, and draws a new commitment. -/
def Follows (s : Sys) (e : Event) : Prop := ¬ e.Forges 1 ∧ DrawsFresh 1 s e

theorem draws_fresh {s : Sys} {i : Nat} {x : UInt8} (h : [x] ∉ generatedCommits (s.node i).log)
    (j : Nat) : DrawsFresh i s (.deliver j (draws x)) := by
  refine fun _ => ⟨fun key n c e => ?_, fun key n c e => ?_⟩
  · cases e
    exact h
  · cases e

/-- Reading a share that finds its session. -/
theorem heard_files {s : Sys} {i slot : Nat} {f : Frame} {k : Fin maxSessions}
    (hout : (s.node i).outq = [f]) (hx : s.coord.exited = false) (hi : i ∈ s.coord.signers)
    (hty : f.type = .sigShare) (hlen : f.payload.length ≤ maxPayload)
    (ht : shareTarget s.coord i f = some (k, slot)) : Files i s (hearsFrom i) k slot f.payload := by
  refine ⟨⟨f, pairEnv, ?_, hty, ht, rfl⟩, hx, hi⟩
  unfold hearsFrom coordEvent
  dsimp only
  rw [hout]
  dsimp only
  unfold readEvent
  rw [if_neg (by omega), if_pos hi]

/-- Signer 1 and a stranger are chosen, and signer 1 answers. -/
def answerRun : List Event :=
  [forgedHello 2] ++ joinRun 1 4 2 ++ [.write 1] ++
    [.deliver 1 (draws 11)] ++ [hearsFrom 1,
      forged 2 (commitFrame toyKeys 2 (signStart 4 2 2).tbs [2]), .write 1, .deliver 1 plainEnv]

instance (c : Coord) : Decidable (NonzeroIds c) := inferInstanceAs (Decidable (∀ _, _))

theorem Follows.draws {s : Sys} {x : UInt8} (h : [x] ∉ generatedCommits (s.node 1).log) :
    Along (step toyKeys) Follows s [.deliver 1 (draws x)] := ⟨⟨id, draws_fresh h 1⟩, trivial⟩

theorem Follows.join : ∀ e ∈ joinRun 1 4 2 ++ [.write 1], ∀ s, Follows s e := by
  simp [Follows, joinRun, Event.Forges, DrawsFresh, FreshCommits, plainEnv]

theorem answerRun_follows :
    Along (step toyKeys) Follows (Sys.boot (signStart 4 2 2)) (answerRun ++ [hearsFrom 1]) := by
  have hsplit : answerRun ++ [hearsFrom 1] = [forgedHello 2] ++ (joinRun 1 4 2 ++ [.write 1]) ++
      [.deliver 1 (draws 11)] ++ [hearsFrom 1,
        forged 2 (commitFrame toyKeys 2 (signStart 4 2 2).tbs [2]), .write 1, .deliver 1 plainEnv,
        hearsFrom 1] := rfl
  rw [hsplit]
  refine (along_append _ _ _).mpr ⟨(along_append _ _ _).mpr ⟨(along_append _ _ _).mpr
    ⟨⟨⟨(by decide : ¬ 2 = 1), trivial⟩, trivial⟩, Along.of_mem Follows.join⟩, Follows.draws ?_⟩,
    Along.of_mem ?_⟩
  · decide +kernel
  · simp [Follows, hearsFrom, forged, Event.Forges, DrawsFresh, FreshCommits, plainEnv]

/-- The share of signer 1 is filed, and it was computed from the bundle of the session. -/
theorem share_attribution_run :
    Files 1 (run (step toyKeys) (Sys.boot (signStart 4 2 2)) answerRun) (hearsFrom 1) firstSlot 0
        [9] ∧
      Along (trace toyKeys) (Attributed 1) (Sys.boot (signStart 4 2 2), fun _ => none)
        (answerRun ++ [hearsFrom 1]) := by
  refine ⟨heard_files (f := ⟨.sigShare, toySign 1 [9], [9]⟩) (by decide +kernel) (by decide +kernel)
    (by decide +kernel) rfl (by decide) (by decide +kernel), share_attribution toyKeys
      (signStart_started (by decide) (by decide) (by decide)) rfl ?_⟩
  refine (along_map (C := fun s e => ¬ e.Forges 1 ∧ DrawsFresh 1 s e ∧ NonzeroIds s.coord)
    (trace_fst toyKeys) (Sys.boot (signStart 4 2 2), fun _ => none)
      (answerRun ++ [hearsFrom 1])).mpr ?_
  have hids : Along (step toyKeys) (fun s _ => NonzeroIds s.coord) (Sys.boot (signStart 4 2 2))
      (answerRun ++ [hearsFrom 1]) := by decide +kernel
  exact (answerRun_follows.and hids).mono fun s e h => ⟨h.1.1, h.1.2, h.2⟩

/-! ## Strangers alone

Until a signer is started every event is one of the coordinator. -/

theorem Sys.eq_boot {s : Sys} (hc : s.coord = c) (hn : ∀ i, s.node i = (Sys.boot c).node i)
    (hd : ∀ i, s.down i = []) : s = Sys.boot c := by
  obtain ⟨d, node, down⟩ := s
  cases hc
  cases funext hn
  cases funext hd
  rfl

theorem Sys.setNode_boot (i : Nat) {x : Node} (hx : x = stopNode (Node.boot i 0 0)) :
    (Sys.boot c).setNode i x = Sys.boot c := by
  refine Sys.eq_boot rfl (fun j => ?_) fun _ => rfl
  show Function.update (Sys.boot c).node i x j = _
  by_cases h : j = i
  · rw [h, Function.update_self, hx]
    rfl
  · exact Function.update_of_ne h ..

theorem Sys.setDown_boot (i : Nat) : (Sys.boot c).setDown i [] = Sys.boot c := by
  refine Sys.eq_boot rfl (fun _ => rfl) fun j => ?_
  show Function.update (Sys.boot c).down i [] j = _
  by_cases h : j = i
  · rw [h, Function.update_self]
  · exact Function.update_of_ne h ..

theorem drop_boot (i : Nat) :
    (Sys.boot c).drop i = Sys.boot (coordAfter c (some (.disconnect i))) := by
  unfold Sys.drop
  split
  · next hx =>
    rw [coordAfter_exited (show c.exited = true from hx)]
    exact Sys.setNode_boot i rfl
  · exact (congrArg (Sys.setDown · i []) (Sys.setNode_boot i rfl)).trans (Sys.setDown_boot i)

theorem read_boot (i : Nat) (f : Frame) (hello : HelloEnv) (env : Coordinator.Env) :
    (Sys.boot c).read i f hello env = Sys.boot (coordAfter c (readEvent c i f hello env)) := by
  unfold Sys.read
  split
  · next hx =>
    rw [coordAfter_exited (c := c) hx]
  unfold readEvent
  split
  · exact drop_boot i
  split
  · next hi =>
    rw [if_pos (show i ∈ c.signers from hi)]
    rfl
  next hi =>
  rw [if_neg (show i ∉ c.signers from hi)]
  unfold Sys.stage
  split
  · have hstop := Sys.setNode_boot (c := Coordinator.step c (.hello (ownId i hello) f.payload)) i
      (x := stopNode (stopNode (Node.boot i 0 0))) rfl
    exact (congrArg (ite _ _) hstop).trans (ite_self _)
  · exact Sys.setNode_boot i rfl

/-! ## Id 0 comes back

Signers 2 and 3 are strangers. Each certificate they sign fails in `mint`, and
they leave and register again. -/

def plainCommit : Frame := ⟨.commit, List.replicate frameSigSize 0, [1]⟩

def plainShare : Frame := ⟨.sigShare, [], [9]⟩

/-- The coordinator at the start of a certificate, with signers 2 and 3 registered anew. -/
def idle (x s : Nat) (o : OutputFile) : Coord :=
  { signStart 4 2 2 with
    nextSessionId := x, serial := s, outputFile := o, signers := [3, 2],
    sg := fun i =>
      if i = 2 ∨ i = 3 then { SignerRec.new with msgq := [⟨.helloAck, [], ackText i .sign⟩,
        ⟨.signReq, [], (signStart 4 2 2).tbs⟩] }
      else SignerRec.new }

/-- One certificate whose `mint` fails. -/
def mintCycle : List Event :=
  [forged 2 plainCommit, forged 3 plainCommit, forged 2 plainShare, forged 3 plainShare,
    .loopHead sampleTbs, .leave 2, .leave 3, forgedHello 2, forgedHello 3]

theorem forged_frame {i : Nat} {f : Frame} (hx : c.exited = false) (hi : i ∈ c.signers)
    (hf : f.payload.length ≤ maxPayload) (keys : Keys) :
    step keys (Sys.boot c) (forged i f) = Sys.boot (processSignerFrame c mintless i f) := by
  have hre : readEvent c i f anyId mintless = some (.frame i f mintless) := by
    unfold readEvent
    rw [if_neg (by omega), if_pos hi]
  refine (read_boot i f anyId mintless).trans ?_
  rw [hre]
  show Sys.boot (Coordinator.step c (.frame i f mintless)) = _
  rw [step_frame_of_mem hx hi]

theorem forged_commit {i : Nat} (hx : c.exited = false) (hm : c.mode = .sign) (hi : i ∈ c.signers)
    (hp : (c.sg i).signPhase = .init) (keys : Keys) :
    step keys (Sys.boot c) (forged i plainCommit) =
      Sys.boot (tryForm (storeCommit c i plainCommit) mintless) :=
  (forged_frame hx hi (by decide) keys).trans
    (congrArg Sys.boot (onCommit_takes hm ⟨.inl hp, by decide, List.length_replicate ..⟩ mintless))

/-- A share that finds its session. -/
def takeShare (c : Coord) (i slot : Nat) : Coord :=
  let c := fileShare c firstSlot slot i [9]
  if (c.sessions firstSlot).nShares ≥ c.t then roastTryAggregate c mintless firstSlot else c

theorem roastFind_firstSlot {sid : Nat} (h : (c.sessions firstSlot).id = sid) :
    roastFind c sid = some firstSlot := by
  have hl : List.finRange maxSessions = firstSlot :: (List.finRange maxSessions).tail := by decide
  unfold roastFind
  rw [hl]
  exact List.find?_cons_of_pos (decide_eq_true h)

theorem forged_share {i : Nat} (slot : Nat) (hx : c.exited = false) (hm : c.mode = .sign)
    (hi : i ∈ c.signers) (hid : (c.sessions firstSlot).id = (c.sg i).sessionId)
    (hs : (c.sessions firstSlot).state = .awaitingShares)
    (hslot : roastSignerSlot (c.sessions firstSlot) i = some slot) (keys : Keys) :
    step keys (Sys.boot c) (forged i plainShare) = Sys.boot (takeShare c i slot) := by
  have ht : shareTarget c i plainShare = some (firstSlot, slot) := by
    unfold shareTarget
    rw [if_neg (not_not.mpr hm), if_neg (by decide), roastFind_firstSlot hid]
    dsimp only
    rw [if_neg (not_not.mpr hs), hslot]
  refine (forged_frame hx hi (by decide) keys).trans (congrArg Sys.boot ?_)
  show onSigShare c mintless i plainShare = _
  unfold onSigShare
  rw [ht]
  rfl

theorem left_step {i : Nat} (hx : c.exited = false) (hi : i ∈ c.signers) (keys : Keys) :
    step keys (Sys.boot c) (.leave i) = Sys.boot (removeSigner c i) := by
  refine (drop_boot i).trans (congrArg Sys.boot ?_)
  show Coordinator.step c (.disconnect i) = _
  exact (step_disconnect hx i).trans (if_pos hi)

theorem forged_hello {i : Nat} (hx : c.exited = false) (hn : c.n = 4) (ht : c.t = 2)
    (hi : i = 2 ∨ i = 3) (hnew : i ∉ c.signers) (keys : Keys) :
    step keys (Sys.boot c) (forgedHello i) = Sys.boot (promote c i) := by
  have hp : parseHello (printThree helloWord i 4 2) = some (i, 4, 2) := by
    rcases hi with rfl | rfl <;> decide
  have hre : readEvent c i ⟨.hello, [], printThree helloWord i 4 2⟩ anyId mintless =
      some (.hello (ownId i anyId) (printThree helloWord i 4 2)) := by
    unfold readEvent
    rw [if_neg, if_neg hnew, if_pos rfl]
    rcases hi with rfl | rfl <;> decide
  refine (read_boot i _ anyId mintless).trans ?_
  rw [hre]
  refine congrArg Sys.boot ?_
  show Coordinator.step c (.hello (ownId i anyId) (printThree helloWord i 4 2)) = _
  unfold Coordinator.step onHello
  rw [hx, if_neg Bool.false_ne_true]
  dsimp only
  rw [hp]
  dsimp only
  rw [if_neg (by rw [hn, ht]; decide), if_neg (show ¬ c.n = 0 by omega),
    if_neg (show ¬ (!(ownId i anyId).pubkeyCached i) = true from Bool.false_ne_true),
    if_neg (show ¬ (!(ownId i anyId).identityOk i) = true by simp [ownId, anyId]), if_neg hnew]

/-- A state equal to `idle` in its records and in the rest. -/
theorem eq_idle {x s : Nat} {o : OutputFile} (hsg : ∀ i, c.sg i = (idle x s o).sg i)
    (h : ({ c with sg := fun _ => SignerRec.new } : Coord) =
      { idle x s o with sg := fun _ => SignerRec.new }) : c = idle x s o := by
  obtain ⟨⟩ := c
  simp only [Coord.mk.injEq] at h
  have hsg := funext hsg
  dsimp only at hsg h
  simp only [idle, Coord.mk.injEq] at h hsg ⊢
  simp [h, hsg]

theorem boot_idle : run (step toyKeys) (Sys.boot (signStart 4 2 2)) [forgedHello 2, forgedHello 3] =
    Sys.boot (idle 1 1 .option) := by
  rw [run_cons, forged_hello rfl rfl rfl (.inl rfl) (show 2 ∉ [] by decide), run_cons,
    forged_hello rfl rfl rfl (.inr rfl) (show 3 ∉ [2] by decide), run_nil]
  refine congrArg Sys.boot (eq_idle (fun i => ?_) rfl)
  match i with
  | 0 | 1 | 2 | 3 => rfl
  | n + 4 => rfl

theorem rejoin_idle (x s : Nat) (o : OutputFile) {g : Nat → SignerRec}
    (hg : ∀ i, i ≠ 2 → i ≠ 3 → g i = SignerRec.new) :
    run (step toyKeys) (Sys.boot { idle x s o with sg := g })
      [.leave 2, .leave 3, forgedHello 2, forgedHello 3] = Sys.boot (idle x s o) := by
  rw [run_cons, left_step rfl (show 2 ∈ [3, 2] by decide), run_cons,
    left_step rfl (show 3 ∈ [3] by decide), run_cons,
    forged_hello rfl rfl rfl (.inl rfl) (show 2 ∉ [] by decide), run_cons,
    forged_hello rfl rfl rfl (.inr rfl) (show 3 ∉ [2] by decide), run_nil]
  refine congrArg Sys.boot (eq_idle (fun i => ?_) rfl)
  match i with
  | 0 => exact hg 0 (by decide) (by decide)
  | 1 => exact hg 1 (by decide) (by decide)
  | 2 | 3 => rfl
  | n + 4 => exact hg (n + 4) (by omega) (by omega)

/-- Signers 2 and 3 have committed. -/
def committed (x s : Nat) (o : OutputFile) : Coord :=
  storeCommit (storeCommit (idle x s o) 2 plainCommit) 3 plainCommit

def strangersBundle : CommitBundle :=
  ⟨[⟨3, [1], List.replicate frameSigSize 0⟩, ⟨2, [1], List.replicate frameSigSize 0⟩],
    (signStart 4 2 2).tbs⟩

def strangersWire : Bytes := (packCommitBundle commitBundleWireMax strangersBundle).getD []

theorem committed_forms (x s : Nat) (o : OutputFile) :
    Forms (committed x s o) mintless firstSlot [1] strangersWire := by
  refine ⟨rfl, Nat.le_refl 2, rfl, ⟨strangersBundle, rfl, rfl, ?_⟩, by decide +kernel⟩
  have h : (packCommitBundle commitBundleWireMax strangersBundle).isSome = true := by decide +kernel
  obtain ⟨w, hw⟩ := Option.isSome_iff_exists.mp h
  unfold strangersWire
  rw [hw]
  rfl

/-- Their session is open, and answered. -/
def answeredBoth (x s : Nat) (o : OutputFile) : Coord :=
  takeShare (takeShare (openSession (committed x s o) firstSlot [3, 2] [1] strangersWire 0) 2 1) 3 0

theorem answered_next (x s : Nat) (o : OutputFile) : ∃ g : Nat → SignerRec,
    (∀ i, i ≠ 2 → i ≠ 3 → g i = SignerRec.new) ∧
    Coordinator.step (answeredBoth x s o) (.loopHead sampleTbs) =
      { idle ((x + 1) % 2 ^ 32) ((s + 1) % 2 ^ 64) (.serial ((s + 1) % 2 ^ 64)) with sg := g } := by
  have hstep : Coordinator.step (answeredBoth x s o) (.loopHead sampleTbs) =
      nextMint (answeredBoth x s o) sampleTbs := by
    show loopHead (answeredBoth x s o) sampleTbs = _
    unfold loopHead
    rw [if_neg (show ¬ (answeredBoth x s o).roastFail = true from Bool.false_ne_true),
      if_pos (show (answeredBoth x s o).signingDone = true ∧
        (answeredBoth x s o).mode = .sign from ⟨rfl, rfl⟩)]
    exact if_pos (show 2 > 0 by decide)
  refine ⟨(nextMint (answeredBoth x s o) sampleTbs).sg, fun i h2 h3 => ?_, ?_⟩
  · match i with
    | 0 | 1 => rfl
    | 2 => exact absurd rfl h2
    | 3 => exact absurd rfl h3
    | n + 4 => rfl
  · rw [hstep]
    unfold nextMint
    obtain ⟨g, hg⟩ := broadcastSignReq_sgOnly
      (c := resume (prepareTbs (advanceSerial (answeredBoth x s o)) sampleTbs).1)
    rw [hg]
    rfl

/-- **One certificate later the next session id is one higher.** -/
theorem mintCycle_idle (x s : Nat) (o : OutputFile) :
    run (step toyKeys) (Sys.boot (idle x s o)) mintCycle =
      Sys.boot (idle ((x + 1) % 2 ^ 32) ((s + 1) % 2 ^ 64) (.serial ((s + 1) % 2 ^ 64))) := by
  obtain ⟨g, hg, hnext⟩ := answered_next x s o
  unfold mintCycle
  rw [run_cons, forged_commit rfl rfl (show 2 ∈ [3, 2] by decide) rfl]
  rw [run_cons, show tryForm (storeCommit (idle x s o) 2 plainCommit) mintless =
      storeCommit (idle x s o) 2 plainCommit from rfl,
    forged_commit rfl rfl (show 3 ∈ [3, 2] by decide) rfl,
    show storeCommit (storeCommit (idle x s o) 2 plainCommit) 3 plainCommit =
      committed x s o from rfl,
    (committed_forms x s o).tryForm (show [3, 2].Nodup by decide)]
  rw [run_cons, forged_share 1 rfl rfl (show 2 ∈ [3, 2] by decide) rfl rfl rfl,
    run_cons, forged_share 0 rfl rfl (show 3 ∈ [3, 2] by decide) rfl rfl rfl, run_cons]
  show run (step toyKeys)
    (Sys.boot (Coordinator.step (answeredBoth x s o) (.loopHead sampleTbs))) _ = _
  rw [hnext]
  exact rejoin_idle _ _ _ hg

/-- `k` certificates. -/
def mintCycles (k : Nat) : List Event := (List.replicate k mintCycle).flatten

theorem mintCycles_idle (k : Nat) : run (step toyKeys) (Sys.boot (idle 1 1 .option))
    (mintCycles (k + 1)) =
    Sys.boot (idle ((k + 2) % 2 ^ 32) ((k + 2) % 2 ^ 64) (.serial ((k + 2) % 2 ^ 64))) := by
  induction k with
  | zero =>
    rw [show mintCycles (0 + 1) = mintCycle from List.append_nil _, mintCycle_idle]
  | succ k ih =>
    have hsnoc : mintCycles (k + 2) = mintCycles (k + 1) ++ mintCycle := by
      unfold mintCycles
      rw [List.replicate_succ' (n := k + 1), List.flatten_append, List.flatten_singleton]
    rw [hsnoc, run_append, ih, mintCycle_idle]
    have h32 : ((k + 2) % 2 ^ 32 + 1) % 2 ^ 32 = (k + 1 + 2) % 2 ^ 32 := by omega
    have h64 : ((k + 2) % 2 ^ 64 + 1) % 2 ^ 64 = (k + 1 + 2) % 2 ^ 64 := by omega
    rw [h32, h64]

/-- Every id has been used once. -/
def wrapRun : List Event := [forgedHello 2, forgedHello 3] ++ mintCycles (2 ^ 32 - 2 + 1)

def wrapped : Coord := idle 0 (2 ^ 32) (.serial (2 ^ 32))

theorem wrapRun_wrapped : run (step toyKeys)
    (Sys.boot (signStart 4 2 2)) wrapRun = Sys.boot wrapped := by
  unfold wrapRun
  rw [run_append, boot_idle, mintCycles_idle]
  rfl

/-- Signer 1 connects, commits and is chosen for the session of id 0; it connects
again, commits, is chosen for the next one and answers it; a third session fails
and everybody is asked anew. -/
def lateShare : List Event :=
  joinRun 1 4 2 ++ handsOver 1 11 ++ [hearsFrom 1, forged 2 plainCommit, .leave 1] ++
    joinRun 1 4 2 ++ handsOver 1 12 ++ [hearsFrom 1, forgedHello 4,
      forged 4 (commitFrame toyKeys 4 (signStart 4 2 2).tbs [4]), .write 1, .deliver 1 plainEnv,
      .leave 2, forgedHello 2, forged 2 plainCommit, forged 3 plainCommit, forged 2 plainShare,
      .forge 3 plainShare anyId quietEnv]

theorem wrapRun_follows : ∀ e ∈ wrapRun, ∀ s, Follows s e := by
  have hforged {i : Nat} (hi : i ≠ 1) (f : Frame) (s : Sys) :
      Follows s (forged i f) := ⟨hi, trivial⟩
  have hc : ∀ e ∈ mintCycle, ∀ s, Follows s e := by
    unfold mintCycle
    simp only [List.mem_cons, List.not_mem_nil, or_false]
    rintro e (rfl | rfl | rfl | rfl | rfl | rfl | rfl | rfl | rfl)
    · exact hforged (by decide) _
    · exact hforged (by decide) _
    · exact hforged (by decide) _
    · exact hforged (by decide) _
    · exact fun _ => ⟨id, trivial⟩
    · exact fun _ => ⟨id, trivial⟩
    · exact fun _ => ⟨id, trivial⟩
    · exact hforged (by decide) _
    · exact hforged (by decide) _
  intro e he
  unfold wrapRun mintCycles at he
  rcases List.mem_append.mp he with he | he
  · simp only [List.mem_cons, List.not_mem_nil, or_false] at he
    rcases he with rfl | rfl
    · exact hforged (by decide) _
    · exact hforged (by decide) _
  · obtain ⟨l, hl, he⟩ := List.mem_flatten.mp he
    rw [List.eq_of_mem_replicate hl] at he
    exact hc e he

theorem trace_mono (keys : Keys) {g g' : History} (h : ∀ k b, g k = some b → g' k = some b)
    (s : Sys) (es : List Event) : ∀ k b, (run (trace keys) (s, g) es).2 k = some b →
      (run (trace keys) (s, g') es).2 k = some b := by
  induction es generalizing s g g' with
  | nil => exact h
  | cons e es ih => exact ih (note_mono h _) _

theorem lateShare_follows : Along (step toyKeys) Follows (Sys.boot wrapped) lateShare := by
  have hleave : ∀ e ∈ [hearsFrom 1, forged 2 plainCommit, .leave 1], ∀ s, Follows s e := by
    simp [Follows, hearsFrom, forged, Event.Forges, DrawsFresh]
  have hsplit : lateShare = (joinRun 1 4 2 ++ [.write 1]) ++ [.deliver 1 (draws 11)] ++
      ([hearsFrom 1, forged 2 plainCommit, .leave 1] ++ (joinRun 1 4 2 ++ [.write 1])) ++
      [.deliver 1 (draws 12)] ++ [hearsFrom 1, forgedHello 4,
        forged 4 (commitFrame toyKeys 4 (signStart 4 2 2).tbs [4]), .write 1, .deliver 1 plainEnv,
        .leave 2, forgedHello 2, forged 2 plainCommit, forged 3 plainCommit, forged 2 plainShare,
        .forge 3 plainShare anyId quietEnv] := rfl
  rw [hsplit]
  refine (along_append _ _ _).mpr ⟨(along_append _ _ _).mpr ⟨(along_append _ _ _).mpr
    ⟨(along_append _ _ _).mpr ⟨Along.of_mem Follows.join, Follows.draws ?_⟩,
      Along.of_mem fun e he => ?_⟩, Follows.draws ?_⟩, Along.of_mem ?_⟩
  · decide +kernel
  · exact (List.mem_append.mp he).elim (hleave e) (Follows.join e)
  · decide +kernel
  · simp [Follows, hearsFrom, forgedHello, forged, Event.Forges, DrawsFresh, FreshCommits, plainEnv]

/-- The share in the outbox of signer 1. -/
def lateFrame : Frame := ⟨.sigShare, toySign 1 [9], [9]⟩

/-- **A share filed under another bundle.** After 2^32 - 1 sessions, signer 1 has its
share of one session filed in another, which has id 0. -/
theorem late_share_misfiled :
    let start : Sys × History := (Sys.boot (signStart 4 2 2), fun _ => none)
    let es := wrapRun ++ lateShare ++ [hearsFrom 1]
    Started (signStart 4 2 2) ∧ (signStart 4 2 2).mode = .sign ∧
      Along (trace toyKeys) (fun p e => ¬ e.Forges 1 ∧ DrawsFresh 1 p.1 e) start es ∧
      ¬ Along (trace toyKeys) (Attributed 1) start es := by
  intro start es
  refine ⟨signStart_started (by decide) (by decide) (by decide), rfl, ?_, fun h => ?_⟩
  · refine (along_map (C := Follows) (trace_fst toyKeys) start es).mpr ?_
    refine (along_append _ _ _).mpr ⟨(along_append _ _ _).mpr
      ⟨Along.of_mem wrapRun_follows, ?_⟩, ⟨id, trivial⟩, trivial⟩
    show Along _ _ (run (step toyKeys) (Sys.boot (signStart 4 2 2)) wrapRun) _
    rw [wrapRun_wrapped]
    exact lateShare_follows
  · have hlast := ((along_concat _ _ _).mp h).2
    rw [run_append] at hlast
    obtain ⟨⟨s, g⟩, hp⟩ : ∃ p, p = run (trace toyKeys) start wrapRun := ⟨_, rfl⟩
    have hs : s = Sys.boot wrapped := by
      have := run_map (trace_fst toyKeys) start wrapRun
      rw [← hp] at this
      exact this.trans wrapRun_wrapped
    rw [← hp] at hlast
    subst hs
    -- what the last session of slot 0 was given
    obtain ⟨b, hb, hcommits⟩ : ∃ b, (run (trace toyKeys) (Sys.boot wrapped, fun _ => none) lateShare).2
        firstSlot = some b ∧ b.entries.map (·.commit) = [[11], [1]] := by
      have : ((run (trace toyKeys) (Sys.boot wrapped, fun _ => none) lateShare).2 firstSlot).map
          (fun b => b.entries.map (·.commit)) = some [[11], [1]] := by decide +kernel
      exact Option.map_eq_some_iff.mp this
    have hb : (run (trace toyKeys) (Sys.boot wrapped, g) lateShare).2 firstSlot = some b :=
      trace_mono toyKeys (fun _ _ h => by cases h) _ _ _ _ hb
    have hrun : (run (trace toyKeys) (Sys.boot wrapped, g) lateShare).1 =
        run (step toyKeys) (Sys.boot wrapped) lateShare := run_map (trace_fst toyKeys) _ _
    have hfiles : Files 1 (run (step toyKeys) (Sys.boot wrapped) lateShare) (hearsFrom 1)
        firstSlot 0 lateFrame.payload :=
      heard_files (by decide +kernel) (by decide +kernel) (by decide +kernel) rfl (by decide)
        (by decide +kernel)
    unfold Attributed at hlast
    rw [hrun] at hlast
    obtain ⟨b', hb', hcomp⟩ := hlast firstSlot 0 _ hfiles
    rw [hb] at hb'
    cases hb'
    obtain ⟨n, spkg, hin⟩ := hcomp
    have hmem := hin.subset (List.mem_cons_self ..)
    have hnone : (((run (step toyKeys) (Sys.boot wrapped) lateShare).node 1).log.filterMap
        Act.bundle?).all (fun b => b.entries.map (·.commit) ≠ [[11], [1]]) = true := by
      decide +kernel
    have := List.all_eq_true.mp hnone _ (List.mem_filterMap.mpr ⟨_, hmem, rfl⟩)
    simp [hcommits] at this

end FrostSshCa.System
