import FrostSshCa.Coordinator.Copies

/-!
# Mode isolation

Which frames of another mode's ceremony `process_signer_frame` ignores. The
refresh rounds and the two signing frames test `g_mode`; the DKG frames, the
report of a finished refresh and `SHARE_LOAD_FAIL` do not. What a frame writes beyond
a buffer is not part of the state, so that it writes nothing there is said apart.
-/

namespace FrostSshCa.Coordinator

open Lib

/-- The modes whose ceremony sends a type. -/
def MsgType.homes : MsgType → List CoordMode
  | .round1Pkg | .round2Pkg | .r2Complete | .pubKeyPkg => [.dkg]
  | .startDkg | .relayR1 | .relayR2 | .dkgDone => [.dkg]
  | .refreshR1 | .refreshR2 | .refreshR2Complete | .refreshComplete => [.refresh]
  | .startRefresh | .relayRefreshR1 | .relayRefreshR2 | .refreshFinalize | .refreshConfirmed =>
    [.refresh]
  | .commit | .sigShare | .signReq | .relayCommit | .finalSig | .certOutput => [.sign]
  | .shareLoadFail => [.sign, .refresh]
  | .hello | .helloAck | .error | .unknown _ => [.dkg, .sign, .refresh]

/-- The type belongs only to ceremonies of other modes. -/
def Foreign (m : CoordMode) (type : MsgType) : Prop := m ∉ MsgType.homes type

instance (m : CoordMode) (type : MsgType) : Decidable (Foreign m type) :=
  inferInstanceAs (Decidable (m ∉ MsgType.homes type))

/-- Nothing is changed: neither the state, nor what lies behind a buffer that is
written. -/
structure Ignored (c : Coord) (env : Env) (i : Nat) (f : Frame) : Prop where
  state : processSignerFrame c env i f = c
  within : ∀ got, AllLand (dispatchCopies c env i f got)

/-- The foreign frames that meet a guard, or repeat what is on file, and fit the buffers
they are copied to on the way. -/
def Harmless (c : Coord) (i : Nat) (f : Frame) : Prop :=
  match f.type with
  | .round1Pkg => c.dkgState ≠ .collectingR1 ∨ f.payload.length > maxPayload ∨
      (overwrite (c.sg i).r1Sig f.sig = (c.sg i).r1Sig ∧ (c.sg i).r1Pkg = f.payload) ∧
        c.count (fun r => 0 < r.r1Pkg.length) < c.n ∧ f.sig.length ≤ frameSigSize
  | .round2Pkg => ∀ target ∈ r2Target f.payload,
      target ∉ c.signers ∧ 2 * f.payload.length + 1 ≤ maxPayload
  | .r2Complete => (c.sg i).r2Complete = true
  | .pubKeyPkg | .refreshComplete => False
  | .shareLoadFail => (c.sg i).signPhase = .noKey
  | _ => True

/-- The foreign frame a step handles, if it handles one, is harmless. -/
def HarmlessAt (c : Coord) : Event → Prop
  | .frame i f _ => i ∈ c.signers → Foreign c.mode f.type → Harmless c i f
  | _ => True

variable {c : Coord}

/-! ## Each unguarded frame -/

theorem setSg_eq_self_iff {i : Nat} {g : SignerRec → SignerRec} :
    c.setSg i g = c ↔ g (c.sg i) = c.sg i := by
  constructor
  · intro h
    have := congrArg (fun d => Coord.sg d i) h
    simpa [Coord.setSg] using this
  · intro h
    unfold Coord.setSg
    rw [h, Function.update_eq_self]

theorem signerSend_ne (i : Nat) (type : MsgType) (sig payload : Bytes) :
    c.signerSend i type sig payload ≠ c := by
  intro h
  have := congrArg (fun r => r.msgq.length) (setSg_eq_self_iff.mp h)
  simp at this

theorem fileR1_eq_iff {i : Nat} {f : Frame} : fileR1 c i f = c ↔
    overwrite (c.sg i).r1Sig f.sig = (c.sg i).r1Sig ∧ (c.sg i).r1Pkg = f.payload := by
  unfold fileR1
  rw [setSg_eq_self_iff]
  constructor
  · intro h
    exact ⟨congrArg SignerRec.r1Sig h, (congrArg SignerRec.r1Pkg h).symm⟩
  · rintro ⟨h1, h2⟩
    rw [h1, ← h2]

theorem onRound1Pkg_eq_iff {i : Nat} {f : Frame} : onRound1Pkg c i f = c ↔
    c.dkgState ≠ .collectingR1 ∨ f.payload.length > maxPayload ∨
      fileR1 c i f = c ∧ c.count (fun r => 0 < r.r1Pkg.length) < c.n := by
  unfold onRound1Pkg storeR1
  by_cases hst : c.dkgState ≠ .collectingR1
  · rw [if_pos hst]; exact ⟨fun _ => .inl hst, fun _ => rfl⟩
  rw [if_neg hst]
  by_cases hp : f.payload.length > maxPayload
  · rw [if_pos hp]; exact ⟨fun _ => .inr (.inl hp), fun _ => rfl⟩
  rw [if_neg hp]
  show checkR1Complete (fileR1 c i f) = c ↔ _
  constructor
  · intro h
    refine .inr (.inr ?_)
    unfold checkR1Complete Coord.checkR1 at h
    split at h
    · next hlt =>
      rw [h] at hlt
      exact ⟨h, hlt⟩
    · -- the ceremony moves on to round 2
      exfalso
      have hd := congrArg Coord.dkgState h
      obtain ⟨_, e⟩ := SgOnly.foldl (fun c i => relayR1_sgOnly c .relayR1 i) (fileR1 c i f).signers
        { fileR1 c i f with dkgState := .collectingR2 }
      unfold relayR1ToAll at hd
      rw [e] at hd
      rw [not_not] at hst
      rw [hst] at hd
      cases hd
  · rintro (h | h | ⟨h, hlt⟩)
    · exact absurd h hst
    · exact absurd h hp
    · rw [h]
      unfold checkR1Complete Coord.checkR1
      rw [if_pos hlt]

theorem onRound2Pkg_eq_iff {f : Frame} :
    onRound2Pkg c f = c ↔ ∀ target ∈ r2Target f.payload, target ∉ c.signers := by
  unfold onRound2Pkg relayR2ToTarget Coord.relayR2
  cases r2Target f.payload with
  | none => simp
  | some target =>
    by_cases ht : target ∈ c.signers
    · simp [ht, signerSend_ne]
    · simp [ht]

theorem broadcast_r2Complete (i : Nat) (type : MsgType) (payload : Bytes) :
    ((c.broadcast type payload).sg i).r2Complete = (c.sg i).r2Complete := by
  refine foldl_frame (fun d : Coord => (d.sg i).r2Complete) (fun d j _ => ?_) c
  by_cases e : i = j
  · subst e; simp [Coord.signerSend, Coord.setSg]
  · simp [Coord.signerSend, Coord.setSg, Function.update_of_ne e]

theorem onR2Complete_eq_iff {i : Nat} : onR2Complete c i = c ↔ (c.sg i).r2Complete = true := by
  unfold onR2Complete
  split
  · next h => exact ⟨fun _ => h, fun _ => rfl⟩
  next hf =>
  refine ⟨fun h => ?_, fun h => absurd h hf⟩
  have h' := congrArg (fun d => (Coord.sg d i).r2Complete) h
  have hset : ((c.setSg i fun r => { r with r2Complete := true }).sg i).r2Complete = true := by
    simp [Coord.setSg]
  unfold checkR2Complete Coord.checkR2 at h'
  split at h'
  · exact h'.symm.trans hset
  · have hb := broadcast_r2Complete (c := c.setSg i fun r => { r with r2Complete := true }) i
      .dkgDone (ascii "DKG_DONE " ++ decimal c.n ++ [10])
    exact h'.symm.trans (hb.trans hset)

theorem onShareLoadFail_eq_iff {i : Nat} :
    onShareLoadFail c i = c ↔ (c.sg i).signPhase = .noKey := by
  unfold onShareLoadFail
  rw [setSg_eq_self_iff]
  constructor
  · intro h; rw [← h]
  · intro h; rw [← h]

theorem KeyAfter.ne {c' : Coord} {w : Option Bytes} (h : KeyAfter c c' w) : c' ≠ c := by
  rintro rfl
  have := h.2.1
  omega

/-! ## What is written on the way -/

/-- A frame that is copied nowhere. -/
theorem ignored_iff_of_nil {env : Env} {i : Nat} {f : Frame}
    (h : ∀ got, dispatchCopies c env i f got = []) :
    Ignored c env i f ↔ processSignerFrame c env i f = c :=
  ⟨Ignored.state, fun hs => ⟨hs, fun got => by rw [h got]; exact allLand_nil⟩⟩

/-- The signature is filed at the length its sender gives. -/
theorem storeR1Copies_land {i got : Nat} {f : Frame} (hp : f.payload.length ≤ maxPayload)
    (hfile : fileR1 c i f = c) (hlt : c.count (fun r => 0 < r.r1Pkg.length) < c.n) :
    AllLand (storeR1Copies c i f got) ↔ f.sig.length ≤ frameSigSize := by
  unfold storeR1Copies
  rw [if_neg (Nat.not_lt_of_le hp), hfile]
  unfold checkR1Copies
  rw [if_pos hlt]
  simp [hp]

theorem round1Pkg_ignored_iff {env : Env} {i : Nat} {f : Frame} (e : f.type = .round1Pkg) :
    Ignored c env i f ↔ c.dkgState ≠ .collectingR1 ∨ f.payload.length > maxPayload ∨
      fileR1 c i f = c ∧ c.count (fun r => 0 < r.r1Pkg.length) < c.n ∧
        f.sig.length ≤ frameSigSize := by
  have hstep : processSignerFrame c env i f = onRound1Pkg c i f := by
    unfold processSignerFrame
    rw [e]
  have hcopies (got : Nat) : dispatchCopies c env i f got =
      if c.dkgState ≠ .collectingR1 then [] else storeR1Copies c i f got := by
    unfold dispatchCopies
    rw [e]
  by_cases hst : c.dkgState ≠ .collectingR1
  · rw [ignored_iff_of_nil fun got => (hcopies got).trans (if_pos hst), hstep, onRound1Pkg_eq_iff]
    exact ⟨fun _ => .inl hst, fun _ => .inl hst⟩
  by_cases hlong : f.payload.length > maxPayload
  · have hnone (got : Nat) : dispatchCopies c env i f got = [] := by
      rw [hcopies, if_neg hst]
      exact if_pos hlong
    rw [ignored_iff_of_nil hnone, hstep, onRound1Pkg_eq_iff]
    exact ⟨fun _ => .inr (.inl hlong), fun _ => .inr (.inl hlong)⟩
  have hp : f.payload.length ≤ maxPayload := Nat.le_of_not_lt hlong
  constructor
  · rintro ⟨hstate, hwithin⟩
    rw [hstep, onRound1Pkg_eq_iff] at hstate
    obtain ⟨hfile, hlt⟩ := (hstate.resolve_left hst).resolve_left hlong
    have hland := hwithin 0
    rw [hcopies, if_neg hst, storeR1Copies_land hp hfile hlt] at hland
    exact .inr (.inr ⟨hfile, hlt, hland⟩)
  · intro h
    obtain ⟨hfile, hlt, hsig⟩ := (h.resolve_left hst).resolve_left hlong
    refine ⟨?_, fun got => ?_⟩
    · rw [hstep, onRound1Pkg_eq_iff]
      exact .inr (.inr ⟨hfile, hlt⟩)
    · rw [hcopies, if_neg hst, storeR1Copies_land hp hfile hlt]
      exact hsig

/-- The dump is made before the target is looked up. -/
theorem secondCopies_land {f : Frame} {got : Nat}
    (ht : ∀ target ∈ r2Target f.payload, target ∉ c.signers) :
    AllLand (secondCopies c f got) ↔
      ∀ target ∈ r2Target f.payload, 2 * f.payload.length + 1 ≤ maxPayload := by
  unfold secondCopies
  cases e : r2Target f.payload with
  | none => simp
  | some target =>
    dsimp only
    rw [if_neg (ht target e)]
    simp [printBytesAsHex, hexCopy, Copy.Lands]

theorem round2Pkg_ignored_iff {env : Env} {i : Nat} {f : Frame} (e : f.type = .round2Pkg) :
    Ignored c env i f ↔ ∀ target ∈ r2Target f.payload,
      target ∉ c.signers ∧ 2 * f.payload.length + 1 ≤ maxPayload := by
  have hstep : processSignerFrame c env i f = onRound2Pkg c f := by
    unfold processSignerFrame
    rw [e]
  have hcopies (got : Nat) : dispatchCopies c env i f got = secondCopies c f got := by
    unfold dispatchCopies
    rw [e]
  constructor
  · rintro ⟨hstate, hwithin⟩
    rw [hstep, onRound2Pkg_eq_iff] at hstate
    have hland := hwithin 0
    rw [hcopies, secondCopies_land hstate] at hland
    exact fun target ht => ⟨hstate target ht, hland target ht⟩
  · intro h
    have hout : ∀ target ∈ r2Target f.payload, target ∉ c.signers :=
      fun target ht => (h target ht).1
    refine ⟨?_, fun got => ?_⟩
    · rw [hstep, onRound2Pkg_eq_iff]
      exact hout
    · rw [hcopies, secondCopies_land hout]
      exact fun target ht => (h target ht).2

theorem r2Complete_ignored_iff {env : Env} {i : Nat} {f : Frame} (e : f.type = .r2Complete) :
    Ignored c env i f ↔ (c.sg i).r2Complete = true := by
  have hstep : processSignerFrame c env i f = onR2Complete c i := by
    unfold processSignerFrame
    rw [e]
  constructor
  · rintro ⟨hstate, -⟩
    rwa [hstep, onR2Complete_eq_iff] at hstate
  · intro hset
    refine (ignored_iff_of_nil fun got => ?_).mpr (by rw [hstep, onR2Complete_eq_iff]; exact hset)
    unfold dispatchCopies
    rw [e]
    exact if_pos hset

/-- **Exactly the harmless foreign frames are ignored.** -/
theorem foreign_frame_ignored_iff (env : Env) (i : Nat) {f : Frame} (h : Foreign c.mode f.type) :
    Ignored c env i f ↔ Harmless c i f := by
  unfold Foreign at h
  unfold Harmless
  cases e : f.type with
  | round1Pkg =>
    rw [round1Pkg_ignored_iff e, fileR1_eq_iff]
  | round2Pkg => exact round2Pkg_ignored_iff e
  | r2Complete => exact r2Complete_ignored_iff e
  | pubKeyPkg =>
    refine ⟨fun hi => ?_, False.elim⟩
    have hstate := hi.state
    unfold processSignerFrame at hstate
    rw [e] at hstate
    exact (onPubKeyPkg_keyAfter env i f).ne hstate
  | refreshComplete =>
    refine ⟨fun hi => ?_, False.elim⟩
    have hstate := hi.state
    unfold processSignerFrame at hstate
    rw [e] at hstate
    exact (onRefreshComplete_keyAfter env i f).ne hstate
  | shareLoadFail =>
    rw [ignored_iff_of_nil fun got => by unfold dispatchCopies; rw [e]]
    unfold processSignerFrame
    rw [e]
    exact onShareLoadFail_eq_iff
  | refreshR1 =>
    have hm : c.mode ≠ .refresh := by simpa [e, MsgType.homes] using h
    rw [ignored_iff_of_nil fun got => by simp [dispatchCopies, e, hm]]
    simp [processSignerFrame, e, onRefreshR1, hm]
  | refreshR2 =>
    have hm : c.mode ≠ .refresh := by simpa [e, MsgType.homes] using h
    rw [ignored_iff_of_nil fun got => by simp [dispatchCopies, e, hm]]
    simp [processSignerFrame, e, onRefreshR2, hm]
  | refreshR2Complete =>
    have hm : c.mode ≠ .refresh := by simpa [e, MsgType.homes] using h
    rw [ignored_iff_of_nil fun got => by simp [dispatchCopies, e, hm]]
    simp [processSignerFrame, e, onRefreshR2Complete, hm]
  | commit =>
    have hm : c.mode ≠ .sign := by simpa [e, MsgType.homes] using h
    rw [ignored_iff_of_nil fun got => by simp [dispatchCopies, e, onCommitCopies, hm]]
    simp [processSignerFrame, e, onCommit, hm]
  | sigShare =>
    have hm : c.mode ≠ .sign := by simpa [e, MsgType.homes] using h
    rw [ignored_iff_of_nil fun got => by
      simp [dispatchCopies, e, onSigShareCopies, shareTarget, hm]]
    simp [processSignerFrame, e, onSigShare, shareTarget, hm]
  | _ =>
    rw [ignored_iff_of_nil fun got => by unfold dispatchCopies; rw [e]]
    unfold processSignerFrame
    simp [e]

/-! ## Sign mode -/

/-- The globals of the two ceremonies. -/
def ceremonyView (c : Coord) : CoordMode × Bytes × Option Bytes × Nat × DkgState :=
  (c.mode, c.pubKeyPkg, c.pubPkgHex, c.refreshCompleteCount, c.dkgState)

theorem SgOnly.ceremonyView {c' : Coord} (h : SgOnly c c') : ceremonyView c' = ceremonyView c := by
  obtain ⟨_, rfl⟩ := h; rfl

theorem RoastOnly.ceremonyView {c' : Coord} (h : RoastOnly c c') :
    ceremonyView c' = ceremonyView c := by
  obtain ⟨_, _, _, _, _, _, _, _, _, _, rfl⟩ := h; rfl

theorem loopHead_ceremonyView (env : TbsEnv) : ceremonyView (loopHead c env) = ceremonyView c := by
  have hexit (c : Coord) : ceremonyView (exitIfQuiet c) = ceremonyView c := by
    unfold exitIfQuiet
    split <;> rfl
  unfold loopHead
  split
  · exact hexit c
  split
  · split
    · unfold nextMint
      rw [(broadcastSignReq_sgOnly _).ceremonyView]
      obtain ⟨d, tbs, hex, e | e⟩ := prepareTbs_cases (advanceSerial c) env <;>
        · rw [e]; rfl
    · exact hexit c
  split
  · exact hexit c
  · rfl

theorem promote_ceremonyView (pid : Nat) (hm : c.mode = .sign) :
    ceremonyView (promote c pid) = ceremonyView c := by
  have h : SgOnly (enroll c pid) (promote c pid) := by
    refine (signerSend_sgOnly (enroll c pid) pid .helloAck [] (ackText pid c.mode)).trans ?_
    unfold promote welcome
    split
    · next h => exact absurd (hm.symm.trans h) nofun
    · next h => exact absurd (hm.symm.trans h) nofun
    · exact signerSend_sgOnly ..
  exact h.ceremonyView

/-- In sign mode a step whose foreign frame is harmless touches neither the key
nor the DKG state. -/
theorem step_ceremonyView (e : Event) (hm : c.mode = .sign) (h : HarmlessAt c e) :
    ceremonyView (step c e) = ceremonyView c := by
  unfold step
  split; · rfl
  cases e with
  | loopHead env => exact loopHead_ceremonyView env
  | expire now env =>
    dsimp only
    split
    · exact (roastExpireSessions_roastOnly c now env).ceremonyView
    · rfl
  | hello env payload =>
    dsimp only
    rcases onHello_cases c env payload with e | ⟨pid, pn, pt, -, -, e | ⟨-, e, -⟩⟩
    · rw [e]
    · rw [e]; rfl
    · rw [e, promote_ceremonyView pid (by exact hm)]; rfl
  | drain i =>
    dsimp only
    split
    · exact (setSg_sgOnly ..).ceremonyView
    · rfl
  | disconnect i => dsimp only; split <;> rfl
  | frame i f env =>
    dsimp only
    split
    · next hi =>
      by_cases hf : Foreign c.mode f.type
      · rw [((foreign_frame_ignored_iff env i hf).mpr (h hi hf)).state]
      · by_cases hs : MsgType.signing f.type = true
        · exact (processSignerFrame_roastOnly c env i f hs).ceremonyView
        · have hd : processSignerFrame c env i f = c := by
            unfold processSignerFrame
            unfold Foreign at hf
            rw [hm] at hf
            cases e : f.type <;> first
              | rfl
              | exact absurd (by rw [e]; decide) hf
              | exact absurd (by rw [e]; rfl) hs
          rw [hd]
    · rfl

/-- **Mode isolation.** In every state, a frame that belongs to another mode is ignored, and
nothing written beyond a buffer, exactly when it is harmless; along a run of sign mode whose
foreign frames are harmless the key, its file and the DKG state stay as they were. -/
theorem mode_isolation {c₀ : Coord} (h0 : Started c₀) (es : List Event) :
    let c := run step c₀ es
    (∀ env i f, i ∈ c.signers → Foreign c.mode f.type →
      (Ignored c env i f ↔ Harmless c i f)) ∧
    (c₀.mode = .sign → Along step HarmlessAt c₀ es →
      c.pubKeyPkg = c₀.pubKeyPkg ∧ c.pubPkgHex = c₀.pubPkgHex ∧ c.dkgState = .idle) := by
  refine ⟨fun env i f _ hf => foreign_frame_ignored_iff env i hf, fun hm hes => ?_⟩
  have hinv : ceremonyView (run step c₀ es) = ceremonyView c₀ :=
    Along.invariant (I := fun c => ceremonyView c = ceremonyView c₀) (fun c e h he => by
      have hmc : c.mode = .sign := (congrArg Prod.fst h).trans hm
      rw [step_ceremonyView e hmc he, h]) rfl hes
  have hidle : c₀.dkgState = .idle := by
    cases h0 with
    | dkg => rfl
    | refresh => rfl
    | sign n t serial secs toMint file env _ _ _ _ _ hp =>
      obtain ⟨d, tbs, hex, e | e⟩ :=
        prepareTbs_cases (Coord.boot .sign n t serial secs toMint file (some file)) env <;>
        · rw [hp] at e
          rw [show c₀ = _ from e]
          rfl
  simp only [ceremonyView, Prod.mk.injEq] at hinv
  exact ⟨hinv.2.1, hinv.2.2.1, hinv.2.2.2.2.trans hidle⟩

/-! ## Runs -/

/-- In sign mode signer 1 installs a key of its own with two DKG reports, which
also end the certificate; a DKG frame routes into its neighbour's queue. -/
theorem dkg_frames_in_sign_mode :
    let c := run step (signStart 2 2 1) (openingRun ++ [sends 1 .pubKeyPkg [7]])
    let f : Frame := ⟨.pubKeyPkg, List.replicate frameSigSize 0, [7]⟩
    let c' := processSignerFrame c quietEnv 1 f
    Started (signStart 2 2 1) ∧ c.mode = .sign ∧ 1 ∈ c.signers ∧ Foreign c.mode f.type ∧
      c.pubPkgHex = some [1] ∧ c'.pubPkgHex = some [7] ∧ c'.pubKeyPkg = [7] ∧
      c.signingDone = false ∧ c'.signingDone = true ∧
      ((processSignerFrame c quietEnv 1 ⟨.round2Pkg, [], [0, 1, 0, 2]⟩).sg 2).msgq.length =
        (c.sg 2).msgq.length + 1 :=
  ⟨signStart_started (by decide) (by decide) (by decide), by decide +kernel⟩

/-- A run of sign mode in which a refresh frame is sent and ignored. -/
theorem mode_isolation_run :
    let c := run step (signStart 2 2 1) (openingRun ++ [sends 1 .refreshR2Complete []])
    Ignored c quietEnv 2 ⟨.refreshR1, [], [1]⟩ ∧ c.pubPkgHex = some [1] := by
  have h := mode_isolation (signStart_started (n := 2) (t := 2) (by decide) (by decide)
    (by decide : (1 : Nat) < 2 ^ 64)) (openingRun ++ [sends 1 .refreshR2Complete []])
  refine ⟨(h.1 quietEnv 2 ⟨.refreshR1, [], [1]⟩ (by decide +kernel) (by decide +kernel)).mpr
    trivial,
    (h.2 (by decide +kernel) ?_).2.1⟩
  refine ⟨trivial, trivial, fun _ hf => ?_, fun _ hf => ?_, fun _ _ => trivial, trivial⟩
  · exact absurd hf (by decide +kernel)
  · exact absurd hf (by decide +kernel)

end FrostSshCa.Coordinator
