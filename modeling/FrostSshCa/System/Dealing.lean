import FrostSshCa.System.Rounds

/-!
# Whole ceremonies

Along every run of honest signers, without disconnections and with every call
succeeding, each package of a ceremony is used once, by the signer it is for: part 2
and part 3 have one package of each peer, and the end of a refresh never overtakes a
round-2 package.
-/

namespace FrostSshCa.System

open Coordinator Signer Lib

variable {keys : Keys} {k : Ceremony} {p : Sys × (Nat → Nat)} {i : Nat}

/-! ## A step is a move -/

/-- Nothing to read. -/
theorem Setup.readNothing (h : Setup keys k p) {hello : HelloEnv} {env : Coordinator.Env}
    (ho : (p.1.node i).outq = []) :
    Setup keys k (record keys k p (.receive i hello env)) ∧
      view keys k (record keys k p (.receive i hello env)) = view keys k p := by
  have hstep : step keys p.1 (.receive i hello env) = p.1 := by
    rw [step, ho]
  have hce : coordEvent p.1 (.receive i hello env) = none := by
    rw [coordEvent, ho]
  rw [record_eq hstep (toldBy_none hce)]
  exact ⟨h, rfl⟩

/-- Nothing to deliver. -/
theorem Setup.deliverNothing (h : Setup keys k p) {env : Signer.Env} (hd : p.1.down i = []) :
    Setup keys k (record keys k p (.deliver i env)) ∧
      view keys k (record keys k p (.deliver i env)) = view keys k p := by
  have hstep : step keys p.1 (.deliver i env) = p.1 := by
    rw [step, hd]
  rw [record_eq hstep (toldBy_none rfl)]
  exact ⟨h, rfl⟩

/-- **Every smooth step is a move of the net**, or two, or nothing. -/
theorem Setup.next (hk : Honest keys) (h : Setup keys k p)
    (hs : Rounds.Sound k.eager (view keys k p))
    {e : Event} (he : Smooth keys p.1 e) :
    Setup keys k (record keys k p e) ∧
      Relation.ReflTransGen (Rounds.Move k.eager) (view keys k p)
        (view keys k (record keys k p e)) := by
  have hsame {p' : Sys × (Nat → Nat)} (h' : Setup keys k p' ∧ view keys k p' = view keys k p) :
      Setup keys k p' ∧ Relation.ReflTransGen (Rounds.Move k.eager) (view keys k p)
        (view keys k p') :=
    ⟨h'.1, by rw [h'.2]⟩
  have hone {p' : Sys × (Nat → Nat)}
      (h' : Setup keys k p' ∧ Rounds.Move k.eager (view keys k p) (view keys k p')) :
      Setup keys k p' ∧ Relation.ReflTransGen (Rounds.Move k.eager) (view keys k p)
        (view keys k p') :=
    ⟨h'.1, .single h'.2⟩
  cases e with
  | loopHead env => exact hsame (h.loopHead env)
  | expire now env => exact hsame (h.expire now env)
  | launch i n t => exact hsame (h.launch i n t)
  | write i => exact hsame (h.write i)
  | forge i f hello env => exact he.elim
  | leave i => exact he.elim
  | deliver i env =>
    cases hd : p.1.down i with
    | nil => exact hsame (h.deliverNothing hd)
    | cons f fs =>
      have hi : i ∈ p.1.coord.signers := by
        by_contra hi
        rw [(h.away i hi).1] at hd
        cases hd
      have hw : Works keys (p.1.node i) f env := by
        rw [Smooth, hd] at he
        exact he
      exact hone (h.deliver hk hs hi hd hw)
  | receive i hello env =>
    cases ho : (p.1.node i).outq with
    | nil => exact hsame (h.readNothing ho)
    | cons f fs =>
      cases hx : p.1.coord.exited with
      | true => exact hsame (h.readExited hs hx ho)
      | false =>
        by_cases hi : i ∈ p.1.coord.signers
        · cases hf : openUp keys k f with
          | none => exact hsame (h.readAside hi hx ho hf)
          | some u =>
            cases u with
            | first pkg => exact hone (h.readFirst hk hi hx ho hf)
            | second dst src q => exact hone (h.readSecond hi hx ho hf)
            | done => exact hone (h.readDone hi hx ho hf)
        · -- the only frame of a process that is not registered is its `HELLO`
          rcases (h.away i hi).2.1.outq with hnil | ⟨n, t, sig, hargs, hq, hrun⟩
          · rw [hnil] at ho
            cases ho
          · exact h.readHello hs hi hx hargs hrun hq

theorem sound_run {eager : Bool} {N N' : Rounds.Net Nat Bytes Bytes} (h : Rounds.Sound eager N)
    (hm : Relation.ReflTransGen (Rounds.Move eager) N N') : Rounds.Sound eager N' := by
  induction hm with
  | refl => exact h
  | tail _ hm ih => exact ih.move hm

/-! ## Whole runs -/

/-- What holds along every smooth run. -/
structure Underway (keys : Keys) (k : Ceremony) (p : Sys × (Nat → Nat)) : Prop where
  setup : Setup keys k p
  sound : Rounds.Sound k.eager (view keys k p)

theorem Underway.next (hk : Honest keys) (h : Underway keys k p) {e : Event}
    (he : Smooth keys p.1 e) :
    Underway keys k (record keys k p e) := by
  obtain ⟨h1, h2⟩ := h.setup.next hk h.sound he
  exact ⟨h1, sound_run h.sound h2⟩

variable {c : Coord}

theorem started_working (h : Started c) : c.roastFail = false := by
  cases h with
  | dkg => rfl
  | refresh => rfl
  | sign n t serial secs toMint file env hn ht _ _ _ hp =>
    have hfst :
        (prepareTbs (Coord.boot .sign n t serial secs toMint file (some file)) env).1 = c := by
      rw [hp]
    obtain ⟨d, tbs, hex, e | e⟩ :=
        prepareTbs_cases (Coord.boot .sign n t serial secs toMint file (some file)) env <;>
      · rw [← hfst, e]
        rfl

/-- The system at the start: nobody has been told anything. -/
def unwritten (c : Coord) : Sys × (Nat → Nat) := (Sys.boot c, fun _ => 0)

theorem boot_underway (h0 : Started c) (hm : c.mode = k.mode) : Underway keys k (unwritten c) := by
  have hu := h0.unused
  have hmode : c.mode ≠ .sign := by rw [hm]; cases k <;> exact nofun
  have hview : view keys k (unwritten c) =
      { size := c.n, stage := .joining, members := [], party := fun _ => .blank } := by
    unfold view unwritten Sys.boot
    dsimp only
    rw [hu.signers, hu.dkgState]
    rfl
  refine ⟨⟨h0.cast hmode, hm, ?_, ?_, fun i hi => ?_, fun i hi =>
    ⟨rfl, ⟨⟨rfl, rfl, rfl, rfl, rfl⟩, .inl rfl⟩, rfl⟩⟩, ?_⟩
  · exact started_working h0
  · intro hx
    exact absurd (hu.exited.symm.trans hx) Bool.false_ne_true
  · have hi : i ∈ c.signers := hi
    rw [hu.signers] at hi
    cases hi
  · rw [hview]
    refine ⟨⟨List.nodup_nil, fun _ _ => rfl, fun _ => ⟨fun _ => rfl, .inl rfl⟩, fun h =>
      absurd rfl h, nofun,
      nofun, fun h => absurd rfl h, nofun⟩, nofun, fun _ => rfl⟩

theorem record_fst (p : Sys × (Nat → Nat)) (e : Event) :
    (record keys k p e).1 = step keys p.1 e := rfl

theorem run_underway (hk : Honest keys) (h0 : Started c) (hm : c.mode = k.mode) {es : List Event}
    (hes : Along (step keys) (Smooth keys) (Sys.boot c) es) :
    Along (record keys k) (fun p e => Underway keys k p ∧ Smooth keys p.1 e) (unwritten c) es ∧
      Underway keys k (run (record keys k) (unwritten c) es) := by
  have hes' : Along (record keys k) (fun p e => Smooth keys p.1 e) (unwritten c) es :=
    (along_map record_fst _ _).mpr hes
  exact ⟨hes'.strengthen (fun p e h he => h.next hk he) (boot_underway h0 hm),
    hes'.invariant (fun p e h he => h.next hk he) (boot_underway h0 hm)⟩

/-! ## Complete inputs -/

/-- The other signers of a ceremony of `n`. -/
def peers (n i : Nat) : List Nat := (List.range' 1 n).filter (· ≠ i)

/-- One round-1 package of each peer: the only one it has made. -/
def RoundOne (k : Ceremony) (s : Sys) (i : Nat) (firsts : List (Nat × Bytes)) : Prop :=
  (firsts.map Prod.fst).Perm (peers s.coord.n i) ∧ ∀ q ∈ firsts, ownOf k (s.node q.1) = [q.2]

/-- One round-2 package of each peer: one it has made for signer `i`. -/
def RoundTwo (k : Ceremony) (s : Sys) (i : Nat) (seconds : List (Nat × Bytes)) : Prop :=
  (seconds.map Prod.fst).Perm (peers s.coord.n i) ∧
    ∀ q ∈ seconds, ∃ firsts made, .mix firsts made ∈ callsOf k (s.node q.1) ∧ (i, q.2) ∈ made

/-- Everybody is registered, and every frame has been read. -/
structure AtRest (s : Sys) : Prop where
  full : s.coord.signers.length = s.coord.n
  two : 2 ≤ s.coord.n
  read : ∀ i ∈ s.coord.signers, s.queue i = [] ∧ (s.node i).outq = []

theorem peers_length {n i : Nat} (h1 : 1 ≤ i) (h2 : i ≤ n) : (peers n i).length + 1 = n := by
  have hmem : i ∈ List.range' 1 n := by
    rw [List.mem_range'_1]
    omega
  have e : peers n i = (List.range' 1 n).erase i := by
    rw [List.Nodup.erase_eq_filter List.nodup_range']
    unfold peers
    congr 1
    funext j
    by_cases h : j = i <;> simp [h]
  rw [e, List.length_erase_of_mem hmem, List.length_range']
  omega

theorem members_perm (hc : Cast c) (hn : c.signers.length = c.n) (i : Nat) :
    (c.signers.filter (· ≠ i)).Perm (peers c.n i) :=
  (perm_range hc.distinct hc.range (Nat.le_of_eq hn.symm)).filter _

/-- What the net shows of the history of a signer, registered or not. -/
theorem Setup.history (h : Setup keys k p) (i : Nat) :
    ((view keys k p).party i).own = ownOf k (p.1.node i) ∧
      ((view keys k p).party i).calls = callsOf k (p.1.node i) ∧
      ((view keys k p).party i).told = p.2 i := by
  by_cases hi : i ∈ p.1.coord.signers
  · rw [view_party hi]
    exact ⟨rfl, rfl, rfl⟩
  · obtain ⟨-, hw, ht⟩ := h.away i hi
    unfold ownOf callsOf
    rw [ht, hw.fresh.2.2.2.2, show (view keys k p).party i = .blank from if_neg hi]
    exact ⟨rfl, rfl, rfl⟩

theorem Underway.calls_once (h : Underway keys k p) (i : Nat) :
    (callsOf k (p.1.node i)).countP Rounds.Call.isMix ≤ 1 ∧
      (callsOf k (p.1.node i)).countP Rounds.Call.isLast ≤ 1 := by
  rw [← (h.setup.history i).2.1]
  exact h.sound.inv.calls_once i

/-- Part 2 is called with complete inputs. -/
theorem Underway.mix_call (h : Underway keys k p) {firsts made : List (Nat × Bytes)}
    (hc : .mix firsts made ∈ callsOf k (p.1.node i)) : RoundOne k p.1 i firsts := by
  rw [← (h.setup.history i).2.1] at hc
  obtain ⟨-, hfull, hids, hfiled⟩ := h.sound.inv.mix_call hc
  refine ⟨?_, fun q hq => ?_⟩
  · rw [hids]
    exact members_perm h.setup.cast hfull i
  · rw [← (h.setup.history q.1).1]
    exact h.sound.own (hfiled q hq)

/-- Part 3 is called with complete inputs. -/
theorem Underway.last_call (h : Underway keys k p) {firsts seconds : List (Nat × Bytes)}
    (hc : .last firsts seconds ∈ callsOf k (p.1.node i)) :
    (∃ made, .mix firsts made ∈ callsOf k (p.1.node i)) ∧ RoundTwo k p.1 i seconds := by
  rw [← (h.setup.history i).2.1] at hc ⊢
  obtain ⟨⟨made, hmix⟩, hids, hmade⟩ := h.sound.inv.last_call hc
  have hfull := (h.sound.inv.mix_call hmix).2.1
  refine ⟨⟨made, hmix⟩, hids.trans (members_perm h.setup.cast hfull i), fun q hq => ?_⟩
  rw [← (h.setup.history q.1).2.1]
  exact hmade q hq

theorem Underway.told_once (h : Underway keys k p) (i : Nat) : p.2 i ≤ 1 := by
  rw [← (h.setup.history i).2.2]
  exact h.sound.inv.told_once i

theorem Underway.rest (h : Underway keys k p) (hr : AtRest p.1) (hi : i ∈ p.1.coord.signers) :
    (callsOf k (p.1.node i)).countP Rounds.Call.isMix = 1 := by
  rw [← (h.setup.history i).2.1]
  refine h.sound.rest ⟨hr.full, hr.two, fun j hj => ?_, fun j hj => ?_⟩ hi
  · rw [view_party hj]
    show (p.1.node j).outq.filterMap (openUp keys k) = []
    rw [(hr.read j hj).2]
    rfl
  · rw [view_party hj]
    show (p.1.queue j).filterMap (openDown keys k j) = []
    rw [(hr.read j hj).1]
    rfl

/-- **A DKG of honest signers**: part 2 and part 3 are called once and with complete
inputs, and `DKG_DONE` is broadcast once, when everybody has run part 3. -/
theorem dkg_rounds (hk : Honest keys) (h0 : Started c) (hm : c.mode = .dkg) (es : List Event)
    (hes : Along (step keys) (Smooth keys) (Sys.boot c) es) :
    let p := run (record keys .dkg) (unwritten c) es
    p.1 = run (step keys) (Sys.boot c) es ∧
      ∀ i, ((callsOf .dkg (p.1.node i)).countP Rounds.Call.isMix ≤ 1 ∧
        (callsOf .dkg (p.1.node i)).countP Rounds.Call.isLast ≤ 1) ∧
        (AtRest p.1 → 1 ≤ i → i ≤ p.1.coord.n →
          (callsOf .dkg (p.1.node i)).countP Rounds.Call.isMix = 1) ∧
        (∀ firsts made, .mix firsts made ∈ callsOf .dkg (p.1.node i) → RoundOne .dkg p.1 i firsts) ∧
        (∀ firsts seconds, .last firsts seconds ∈ callsOf .dkg (p.1.node i) →
          (∃ made, .mix firsts made ∈ callsOf .dkg (p.1.node i)) ∧ RoundTwo .dkg p.1 i seconds) ∧
        p.2 i ≤ 1 ∧
        (0 < p.2 i → ∀ j, 1 ≤ j → j ≤ p.1.coord.n →
          ∃ firsts seconds, .last firsts seconds ∈ callsOf .dkg (p.1.node j)) := by
  intro p
  obtain ⟨-, h⟩ := run_underway (k := .dkg) hk h0 hm hes
  have hmem {j : Nat} (hfull : p.1.coord.signers.length = p.1.coord.n) (h1 : 1 ≤ j)
      (h2 : j ≤ p.1.coord.n) : j ∈ p.1.coord.signers := by
    refine (h.setup.cast.everyone (p := fun _ => true) ?_).1 j h1 h2
    unfold Coord.count
    rw [List.countP_true]
    exact Nat.le_of_eq hfull.symm
  refine ⟨run_map record_fst _ _, fun i => ⟨h.calls_once i, fun hr h1 h2 => ?_,
    fun firsts made hc =>
    h.mix_call hc, fun firsts seconds hc => h.last_call hc, h.told_once i, fun ht j h1 h2 => ?_⟩⟩
  · exact h.rest hr (hmem hr.full h1 h2)
  · have ht' := ht
    rw [← (h.setup.history i).2.2] at ht'
    obtain ⟨hfull, hall⟩ := h.sound.inv.told_all ht'
    obtain ⟨firsts, seconds, hc⟩ := (hall j (hmem hfull h1 h2)).2 rfl
    exact ⟨firsts, seconds, by rw [← (h.setup.history j).2.1]; exact hc⟩

/-- Each call answers, part 2 with one package for each peer. -/
def exchangeEnv : Signer.Env :=
  { plainEnv with
    dkgPart1 := fun i _ _ => .ok ([3], [UInt8.ofNat i])
    dkgPart2 := fun _ ps => .ok ([4], ps.map fun p => (p.1, [7]))
    dkgPart3 := fun _ _ _ => .ok ([5], [6])
    refreshPart1 := fun i _ _ => .ok ([3], [UInt8.ofNat i])
    refreshPart2 := fun _ ps => .ok ([4], ps.map fun p => (p.1, [7]))
    refreshShares := fun _ _ _ _ _ _ => some ([5], [6])
    encrypt := fun _ _ pkg => some pkg }

theorem toyKeys_honest : Honest toyKeys := by
  refine ⟨fun i d _ _ => toyKeys_verify i d, fun i d _ _ => ?_⟩
  show (List.replicate 254 (0 : UInt8) ++ [_, _]).length = 256
  rw [List.length_append, List.length_replicate]
  rfl

/-- Signers 1 and 2 are each handed a frame and answer it. -/
def exchange : List Event :=
  [.write 1, .deliver 1 exchangeEnv, .write 2, .deliver 2 exchangeEnv, hearsFrom 1, hearsFrom 2]

def pairUp : List Event := [.launch 1 2 2, hearsFrom 1, .launch 2 2 2, hearsFrom 2]

/-- A DKG of two, to its end. -/
def dkgRun : List Event :=
  pairUp ++ exchange ++ exchange ++ exchange ++ exchange ++ [hearsFrom 1, hearsFrom 2] ++ exchange

theorem dkg_rounds_run :
    let p := run (record toyKeys .dkg) (unwritten (Coord.boot .dkg 2 2 0 86400 0 [] none)) dkgRun
    AtRest p.1 ∧ (callsOf .dkg (p.1.node 1)).map Rounds.Call.isMix = [true, false] ∧ p.2 2 = 1 ∧
      ((callsOf .dkg (p.1.node 1)).countP Rounds.Call.isMix = 1 ∧
        ∀ firsts seconds, .last firsts seconds ∈ callsOf .dkg (p.1.node 1) →
          (∃ made, .mix firsts made ∈ callsOf .dkg (p.1.node 1)) ∧
            RoundTwo .dkg p.1 1 seconds) := by
  intro p
  have hs : Started (Coord.boot .dkg 2 2 0 86400 0 [] none) :=
    .dkg 2 2 0 86400 0 none (by decide) (by decide) (by decide) (by decide)
  have hrest : AtRest p.1 := ⟨by decide +kernel, by decide +kernel, by decide +kernel⟩
  have hp : run (record toyKeys .dkg) (unwritten (Coord.boot .dkg 2 2 0 86400 0 [] none)) dkgRun =
    p := rfl
  obtain ⟨-, hall⟩ := dkg_rounds toyKeys_honest hs rfl dkgRun (by decide +kernel)
  rw [hp] at hall
  obtain ⟨-, honce, -, hlast, -⟩ := hall 1
  exact ⟨hrest, by decide +kernel, by decide +kernel,
    honce hrest (by decide) (by decide +kernel), hlast⟩

/-- A signer that processes `REFRESH_FINALIZE` holds one package of each round of each
peer, and calls `frost_refresh_shares` with them. -/
def HoldsAll (keys : Keys) (s : Sys) : Event → Prop
  | .deliver i env => match s.down i with
    | [] => True
    | f :: _ => f.type = .refreshFinalize →
      RoundOne .refresh s i (s.node i).refPeerR1 ∧ RoundTwo .refresh s i (s.node i).refPeerR2 ∧
        ∃ pub, asks keys (s.node i) f env =
          [.refreshShares (s.node i).refPeerR1 (s.node i).refPeerR2 pub]
  | _ => True

/-- `frost_refresh_shares` is called when every peer's package is there. -/
theorem asks_finalize {x : Node} {n : Nat} {f : Frame} (env : Signer.Env) (h : Running i n x)
    (ht : tooLarge f = false) (hf : f.type = .refreshFinalize)
    (hn : x.refPeerR2.length + 1 = n) :
    ∃ pub, asks keys x f env = [.refreshShares x.refPeerR1 x.refPeerR2 pub] := by
  have hn : ¬ x.refPeerR2.length + 1 ≠ x.n := by rw [h.n]; exact not_not.mpr hn
  have hproc : processCoordFrame keys env x f = onRefreshFinalize keys env x := by
    unfold processCoordFrame
    rw [hf]
  unfold onRefreshFinalize at hproc
  rw [if_neg hn] at hproc
  cases hr : frostRefreshShares x env with
  | none =>
    rw [hr] at hproc
    exact ⟨none, asks_eq h ht (by rw [hproc])⟩
  | some answer =>
    rw [hr] at hproc
    refine ⟨some answer.2, asks_eq h ht ?_⟩
    rw [hproc]
    dsimp only
    unfold finishRefresh saveKeyMaterial
    cases env.keyWrite <;> rfl

theorem Underway.holdsAll (h : Underway keys .refresh p) (e : Event) : HoldsAll keys p.1 e := by
  cases e with
  | deliver i env =>
    unfold HoldsAll
    dsimp only
    cases hd : p.1.down i with
    | nil => trivial
    | cons f fs =>
      dsimp only
      intro hf
      have hi : i ∈ p.1.coord.signers := by
        by_contra hi
        rw [(h.setup.away i hi).1] at hd
        cases hd
      have hdown : ((view keys .refresh p).party i).down =
          .finish :: (fs ++ (p.1.coord.sg i).msgq).filterMap (openDown keys .refresh i) := by
        rw [view_party hi]
        show (p.1.down i ++ (p.1.coord.sg i).msgq).filterMap (openDown keys .refresh i) = _
        rw [hd, List.cons_append, List.filterMap_cons_some]
        unfold openDown
        rw [hf]
        rfl
      obtain ⟨hover, hmixed, hids, -⟩ := h.sound.inv.at_finish hi hdown
      have hs : (view keys .refresh p).stage ≠ .joining := by rw [hover]; exact nofun
      have hparty : (view keys .refresh p).party i = _ := view_party hi
      have hseat := h.setup.seated i hi
      rw [hparty] at hids
      have hperm : ((p.1.node i).refPeerR2.map Prod.fst).Perm (peers p.1.coord.n i) :=
        hids.trans (members_perm h.setup.cast (h.sound.inv.full hs).1 i)
      refine ⟨?_, ⟨hperm, fun q hq => ?_⟩, asks_finalize env hseat.running ?_ hf ?_⟩
      · obtain ⟨made, -, hcalls⟩ := (h.sound.inv.course hs i hi).calls hmixed
        have hmix : .mix (p.1.node i).refPeerR1 made ∈ callsOf .refresh (p.1.node i) := by
          rw [← (h.setup.history i).2.1, hcalls, hparty]
          exact List.mem_cons_self ..
        exact h.mix_call hmix
      · rw [← (h.setup.history q.1).2.1]
        refine h.sound.inv.second_made hs hi ?_
        rw [hparty]
        exact hq
      · refine (hseat.orders f ?_).size
        rw [queue_head hd]
        exact List.mem_cons_self ..
      · have hlen := hperm.length_eq
        rw [List.length_map] at hlen
        rw [hlen]
        exact peers_length hseat.args.idRange.1 hseat.args.idRange.2
  | _ => trivial

/-- **A refresh of honest signers**: whoever processes `REFRESH_FINALIZE` has complete
inputs and calls `frost_refresh_shares` with them, no signer calls it twice, and
`REFRESH_FINALIZE` is broadcast once. -/
theorem refresh_rounds (hk : Honest keys) (h0 : Started c) (hm : c.mode = .refresh)
    (es : List Event)
    (hes : Along (step keys) (Smooth keys) (Sys.boot c) es) :
    let p := run (record keys .refresh) (unwritten c) es
    p.1 = run (step keys) (Sys.boot c) es ∧
      Along (step keys) (HoldsAll keys) (Sys.boot c) es ∧
      ∀ i, (callsOf .refresh (p.1.node i)).countP Rounds.Call.isLast ≤ 1 ∧
        (∀ firsts seconds, .last firsts seconds ∈ callsOf .refresh (p.1.node i) →
          RoundOne .refresh p.1 i firsts ∧ RoundTwo .refresh p.1 i seconds) ∧
        p.2 i ≤ 1 := by
  intro p
  obtain ⟨hall, h⟩ := run_underway (k := .refresh) hk h0 hm hes
  have hholds : Along (record keys .refresh) (fun p e => HoldsAll keys p.1 e) (unwritten c) es :=
    hall.mono fun p e h => h.1.holdsAll e
  refine ⟨run_map record_fst _ _, (along_map record_fst _ _).mp hholds, fun i =>
    ⟨(h.calls_once i).2, fun firsts seconds hc => ?_, h.told_once i⟩⟩
  obtain ⟨⟨made, hmix⟩, h2⟩ := h.last_call hc
  exact ⟨h.mix_call hmix, h2⟩

/-- A refresh of two, to its end. -/
def refreshRun : List Event :=
  pairUp ++ exchange ++ exchange ++ exchange ++ [hearsFrom 1, hearsFrom 2] ++ exchange ++ exchange

theorem refresh_rounds_run :
    let p := run (record toyKeys .refresh)
      (unwritten (Coord.boot .refresh 2 2 0 86400 0 [] (some [1]))) refreshRun
    (callsOf .refresh (p.1.node 1)).map Rounds.Call.isMix = [true, false] ∧ p.2 1 = 1 ∧
      Along (step toyKeys) (HoldsAll toyKeys)
        (Sys.boot (Coord.boot .refresh 2 2 0 86400 0 [] (some [1]))) refreshRun := by
  intro p
  have hs : Started (Coord.boot .refresh 2 2 0 86400 0 [] (some [1])) :=
    .refresh 2 2 0 86400 0 [1] (by decide) (by decide) (by decide) (by decide)
  obtain ⟨-, hall, -⟩ := refresh_rounds toyKeys_honest hs rfl refreshRun (by decide +kernel)
  exact ⟨by decide +kernel, by decide +kernel, hall⟩

end FrostSshCa.System
