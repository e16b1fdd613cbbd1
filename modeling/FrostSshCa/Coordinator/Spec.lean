import FrostSshCa.Lib.Run
import FrostSshCa.Coordinator.Main

/-!
# What the operations can change

`SgOnly c c'`: only signer records differ. `RecOnly c c'`: only signer records,
the blacklist and the strikes differ. Every helper of the coordinator below the
session table is one or the other, and the three that open, close or restart
sessions have a lemma each that says what they can do.
-/

namespace FrostSshCa.Coordinator

open Lib

/-- Nothing but signer records differs. -/
def SgOnly (c c' : Coord) : Prop := ∃ sg, c' = { c with sg := sg }

/-- Nothing but signer records, the blacklist and the strikes differs. -/
def RecOnly (c c' : Coord) : Prop :=
  ∃ sg bl st, c' = { c with sg := sg, blacklist := bl, strikes := st }

section Relations

variable {c c' c'' : Coord}

theorem SgOnly.refl (c : Coord) : SgOnly c c := ⟨c.sg, rfl⟩

theorem SgOnly.trans (h : SgOnly c c') (h' : SgOnly c' c'') : SgOnly c c'' := by
  obtain ⟨sg, rfl⟩ := h; obtain ⟨sg', rfl⟩ := h'; exact ⟨sg', rfl⟩

theorem SgOnly.foldl {α : Type} {f : Coord → α → Coord} (h : ∀ c a, SgOnly c (f c a)) (l : List α)
    (c : Coord) : SgOnly c (l.foldl f c) :=
  foldl_invariant (I := SgOnly c) (fun s a _ hs => hs.trans (h s a)) (.refl c)

theorem SgOnly.recOnly (h : SgOnly c c') : RecOnly c c' := by
  obtain ⟨sg, rfl⟩ := h; exact ⟨sg, c.blacklist, c.strikes, rfl⟩

theorem RecOnly.refl (c : Coord) : RecOnly c c := (SgOnly.refl c).recOnly

theorem RecOnly.trans (h : RecOnly c c') (h' : RecOnly c' c'') : RecOnly c c'' := by
  obtain ⟨sg, bl, st, rfl⟩ := h; obtain ⟨sg', bl', st', rfl⟩ := h'; exact ⟨sg', bl', st', rfl⟩

theorem RecOnly.foldl {α : Type} {f : Coord → α → Coord} (h : ∀ c a, RecOnly c (f c a))
    (l : List α) (c : Coord) : RecOnly c (l.foldl f c) :=
  foldl_invariant (I := RecOnly c) (fun s a _ hs => hs.trans (h s a)) (.refl c)

end Relations

variable (c : Coord)

/-! ## Helpers that only touch records -/

theorem setSg_sgOnly (i : Nat) (f : SignerRec → SignerRec) : SgOnly c (c.setSg i f) := ⟨_, rfl⟩

theorem signerSend_sgOnly (i : Nat) (type : MsgType) (sig payload : Bytes) :
    SgOnly c (c.signerSend i type sig payload) := setSg_sgOnly ..

theorem broadcast_sgOnly (type : MsgType) (payload : Bytes) : SgOnly c (c.broadcast type payload) :=
  .foldl (fun c i => signerSend_sgOnly c i type [] payload) _ c

theorem setPhase_sgOnly (id : Nat) (p : SPhase) : SgOnly c (setPhase c id p) := by
  unfold setPhase
  split
  · exact setSg_sgOnly ..
  · exact .refl c

theorem requestCommit_sgOnly (p : SPhase) (id : Nat) : SgOnly c (requestCommit c p id) :=
  (setSg_sgOnly c id _).trans (signerSend_sgOnly ..)

theorem broadcastSignReq_sgOnly : SgOnly c (broadcastSignReq c) := by
  refine .foldl (fun c id => ?_) _ c
  split
  · exact .refl c
  · exact requestCommit_sgOnly ..

theorem relayR1_sgOnly (type : MsgType) (sender : Nat) : SgOnly c (c.relayR1 type sender) := by
  refine .foldl (fun c i => ?_) _ c
  split
  · exact signerSend_sgOnly ..
  · exact .refl c

theorem relayR2_sgOnly (type : MsgType) (target : Nat) (sig payload : Bytes) :
    SgOnly c (c.relayR2 type target sig payload) := by
  unfold Coord.relayR2
  split
  · exact signerSend_sgOnly ..
  · exact .refl c

theorem assignMember_sgOnly (sid : Nat) (wire : Bytes) (id : Nat) :
    SgOnly c (assignMember c sid wire id) :=
  (setSg_sgOnly c id _).trans (signerSend_sgOnly ..)

theorem blacklistSigner_recOnly (id : Nat) : RecOnly c (blacklistSigner c id) := by
  unfold blacklistSigner
  split
  · exact .refl c
  · exact ⟨c.sg, _, c.strikes, rfl⟩

theorem addStrike_recOnly (id : Nat) : RecOnly c (addStrike c id) := by
  unfold addStrike
  split
  · exact ⟨c.sg, c.blacklist, _, rfl⟩
  · exact .refl c

theorem expireMember_recOnly (k : Fin maxSessions) (i id : Nat) :
    RecOnly c (expireMember c k i id) := by
  unfold expireMember
  split
  · split
    · exact (requestCommit_sgOnly ..).recOnly
    · refine (addStrike_recOnly c id).trans ?_
      dsimp only
      split
      · exact (blacklistSigner_recOnly ..).trans (setPhase_sgOnly ..).recOnly
      · exact (requestCommit_sgOnly ..).recOnly
  · exact .refl c

/-! ## The resets -/

theorem culpritReset_recOnly (k : Fin maxSessions) (culprit : Nat) :
    RecOnly (c.closeSession k .failed) (culpritReset c k culprit) := by
  refine ((blacklistSigner_recOnly _ culprit).trans
    (setPhase_sgOnly _ culprit .blacklisted).recOnly).trans ?_
  refine .foldl (fun c id => ?_) _ _
  split
  · exact (requestCommit_sgOnly ..).recOnly
  · exact .refl c

theorem blacklistMembers_recOnly (k : Fin maxSessions) :
    RecOnly (c.closeSession k .failed) (blacklistMembers c k) :=
  .foldl (fun c id => (blacklistSigner_recOnly c id).trans
    (setPhase_sgOnly _ id .blacklisted).recOnly) _ _

theorem expireMembers_recOnly (k : Fin maxSessions) :
    RecOnly (c.closeSession k .failed) (expireMembers c k) :=
  .foldl (fun c (p : Nat × Nat) => expireMember_recOnly c k p.2 p.1) _ _

/-! ## The frames of the two ceremonies -/

/-- Nothing but signer records and `g_dkg_state` differs. -/
def FlowOnly (c c' : Coord) : Prop := ∃ sg st, c' = { c with sg := sg, dkgState := st }

/-- Nothing but what a DKG or refresh frame may touch differs. -/
def CeremonyOnly (c c' : Coord) : Prop :=
  ∃ sg st pk hex done cnt, c' = { c with
    sg := sg, dkgState := st, pubKeyPkg := pk, pubPkgHex := hex, signingDone := done,
    refreshCompleteCount := cnt }

section Ceremony

variable {c c' c'' : Coord}

theorem FlowOnly.refl (c : Coord) : FlowOnly c c := ⟨_, _, rfl⟩

theorem FlowOnly.trans (h : FlowOnly c c') (h' : FlowOnly c' c'') : FlowOnly c c'' := by
  obtain ⟨_, _, rfl⟩ := h; obtain ⟨sg, st, rfl⟩ := h'; exact ⟨sg, st, rfl⟩

theorem SgOnly.flowOnly (h : SgOnly c c') : FlowOnly c c' := by
  obtain ⟨sg, rfl⟩ := h; exact ⟨sg, _, rfl⟩

theorem setDkgState_flowOnly (c : Coord) (st : DkgState) : FlowOnly c { c with dkgState := st } :=
  ⟨_, _, rfl⟩

theorem CeremonyOnly.refl (c : Coord) : CeremonyOnly c c := ⟨_, _, _, _, _, _, rfl⟩

theorem CeremonyOnly.trans (h : CeremonyOnly c c') (h' : CeremonyOnly c' c'') :
    CeremonyOnly c c'' := by
  obtain ⟨_, _, _, _, _, _, rfl⟩ := h
  obtain ⟨sg, st, pk, hex, done, cnt, rfl⟩ := h'
  exact ⟨sg, st, pk, hex, done, cnt, rfl⟩

theorem FlowOnly.ceremonyOnly (h : FlowOnly c c') : CeremonyOnly c c' := by
  obtain ⟨sg, st, rfl⟩ := h; exact ⟨sg, st, _, _, _, _, rfl⟩

theorem SgOnly.ceremonyOnly (h : SgOnly c c') : CeremonyOnly c c' := h.flowOnly.ceremonyOnly

variable (c)

theorem maybeStart_flowOnly (type : MsgType) (word : Bytes) :
    FlowOnly c (c.maybeStart type word) := by
  unfold Coord.maybeStart
  split; · exact .refl c
  split; · exact .refl c
  exact (setDkgState_flowOnly c .collectingR1).trans (broadcast_sgOnly ..).flowOnly

theorem checkR1_flowOnly {relay : Coord → Nat → Coord} (hr : ∀ c i, SgOnly c (relay c i)) :
    FlowOnly c (c.checkR1 relay) := by
  unfold Coord.checkR1
  split; · exact .refl c
  exact (setDkgState_flowOnly c .collectingR2).trans (SgOnly.foldl hr _ _).flowOnly

theorem checkR2_flowOnly (type : MsgType) (payload : Bytes) :
    FlowOnly c (c.checkR2 type payload) := by
  unfold Coord.checkR2
  split; · exact .refl c
  exact (broadcast_sgOnly c type payload).flowOnly.trans (setDkgState_flowOnly _ .complete)

theorem storeR1_flowOnly {check : Coord → Coord} (hc : ∀ c, FlowOnly c (check c)) (i : Nat)
    (f : Frame) : FlowOnly c (storeR1 c check i f) := by
  unfold storeR1
  split; · exact .refl c
  exact (setSg_sgOnly c i _).flowOnly.trans (hc _)

theorem onR2Complete_flowOnly (i : Nat) : FlowOnly c (onR2Complete c i) := by
  unfold onR2Complete
  split; · exact .refl c
  exact (setSg_sgOnly c i _).flowOnly.trans (checkR2_flowOnly ..)

theorem onRefreshR2Complete_flowOnly (i : Nat) : FlowOnly c (onRefreshR2Complete c i) := by
  unfold onRefreshR2Complete
  split; · exact .refl c
  exact (setSg_sgOnly c i _).flowOnly.trans (checkR2_flowOnly ..)

/-- A round-2 package is relayed, or nothing happens. -/
theorem onRound2Pkg_cases (f : Frame) : onRound2Pkg c f = c ∨
    ∃ dst ∈ r2Target f.payload, onRound2Pkg c f = c.relayR2 .relayR2 dst f.sig f.payload := by
  unfold onRound2Pkg relayR2ToTarget
  cases r2Target f.payload with
  | none => exact .inl rfl
  | some dst => exact .inr ⟨dst, rfl, rfl⟩

theorem onRefreshR2_cases (f : Frame) : onRefreshR2 c f = c ∨ c.mode = .refresh ∧
    ∃ dst ∈ r2Target f.payload, onRefreshR2 c f =
      c.relayR2 .relayRefreshR2 dst f.sig f.payload := by
  unfold onRefreshR2
  by_cases hm : c.mode = .refresh
  · rw [if_neg (not_not.mpr hm)]
    cases r2Target f.payload with
    | none => exact .inl rfl
    | some dst => exact .inr ⟨hm, dst, rfl, rfl⟩
  · rw [if_pos hm]
    exact .inl rfl

theorem onRound2Pkg_sgOnly (f : Frame) : SgOnly c (onRound2Pkg c f) := by
  rcases onRound2Pkg_cases c f with e | ⟨dst, -, e⟩
  · rw [e]; exact .refl c
  · rw [e]; exact relayR2_sgOnly ..

theorem onRefreshR2_sgOnly (f : Frame) : SgOnly c (onRefreshR2 c f) := by
  rcases onRefreshR2_cases c f with e | ⟨-, dst, -, e⟩
  · rw [e]; exact .refl c
  · rw [e]; exact relayR2_sgOnly ..

/-- The frames that are about signing. -/
def MsgType.signing : MsgType → Bool
  | .commit | .sigShare | .shareLoadFail => true
  | _ => false

/-- The frames that carry a `PublicKeyPackage`. -/
def MsgType.reports : MsgType → Bool
  | .refreshComplete | .pubKeyPkg => true
  | _ => false

/-- The rounds of a ceremony only move packages and `g_dkg_state`. -/
theorem processSignerFrame_flowOnly (env : Env) (i : Nat) (f : Frame)
    (hs : MsgType.signing f.type = false) (hr : MsgType.reports f.type = false) :
    FlowOnly c (processSignerFrame c env i f) := by
  unfold processSignerFrame
  cases e : f.type with
  | round1Pkg =>
    dsimp only
    unfold onRound1Pkg
    split; · exact .refl c
    exact storeR1_flowOnly c (fun c => checkR1_flowOnly c fun c => relayR1_sgOnly c _) i f
  | round2Pkg => exact (onRound2Pkg_sgOnly c f).flowOnly
  | r2Complete => exact onR2Complete_flowOnly c i
  | refreshR1 =>
    dsimp only
    unfold onRefreshR1
    split; · exact .refl c
    exact storeR1_flowOnly c (fun c => checkR1_flowOnly c fun c => relayR1_sgOnly c _) i f
  | refreshR2 => exact (onRefreshR2_sgOnly c f).flowOnly
  | refreshR2Complete => exact onRefreshR2Complete_flowOnly c i
  | refreshComplete => rw [e] at hr; cases hr
  | pubKeyPkg => rw [e] at hr; cases hr
  | shareLoadFail => rw [e] at hs; cases hs
  | commit => rw [e] at hs; cases hs
  | sigShare => rw [e] at hs; cases hs
  | _ => exact .refl c

theorem storePubKeyPkg_ceremonyOnly (env : Env) (pkg : Bytes) :
    CeremonyOnly c (storePubKeyPkg c env pkg) := ⟨_, _, _, _, _, _, rfl⟩

theorem fileReport_ceremonyOnly (i : Nat) (f : Frame) : CeremonyOnly c (fileReport c i f) :=
  ⟨_, _, _, _, _, _, rfl⟩

theorem checkRefreshAllConfirmed_ceremonyOnly : CeremonyOnly c (checkRefreshAllConfirmed c) := by
  unfold checkRefreshAllConfirmed
  split; · exact .refl c
  refine (broadcast_sgOnly c .refreshConfirmed []).ceremonyOnly.trans ?_
  exact ⟨_, _, _, _, _, _, rfl⟩

theorem onRefreshComplete_ceremonyOnly (env : Env) (i : Nat) (f : Frame) :
    CeremonyOnly c (onRefreshComplete c env i f) := by
  unfold onRefreshComplete
  refine (fileReport_ceremonyOnly c i f).trans ?_
  dsimp only
  split; · exact .refl _
  refine .trans ?_ (checkRefreshAllConfirmed_ceremonyOnly _)
  split
  · exact storePubKeyPkg_ceremonyOnly ..
  · exact .refl _

theorem onPubKeyPkg_ceremonyOnly (env : Env) (i : Nat) (f : Frame) :
    CeremonyOnly c (onPubKeyPkg c env i f) := by
  unfold onPubKeyPkg
  refine (fileReport_ceremonyOnly c i f).trans ?_
  dsimp only
  split; · exact .refl _
  split; · exact .refl _
  exact ⟨_, _, _, _, _, _, rfl⟩

/-- No frame of the two ceremonies reaches the sessions, the TBS, the
blacklist or the certificate counters. -/
theorem processSignerFrame_ceremonyOnly (env : Env) (i : Nat) (f : Frame)
    (h : MsgType.signing f.type = false) : CeremonyOnly c (processSignerFrame c env i f) := by
  by_cases hr : MsgType.reports f.type = false
  · exact (processSignerFrame_flowOnly c env i f h hr).ceremonyOnly
  unfold processSignerFrame
  cases e : f.type with
  | refreshComplete => exact onRefreshComplete_ceremonyOnly c env i f
  | pubKeyPkg => exact onPubKeyPkg_ceremonyOnly c env i f
  | _ => rw [e] at hr; exact absurd rfl hr

end Ceremony

/-! ## What is queued -/

/-- Every frame queued in `c'` was queued in `c` or is of a type in `T`. -/
def Pushes (T : MsgType → Prop) (c c' : Coord) : Prop :=
  ∀ j, ∀ f ∈ (c'.sg j).msgq, f ∈ (c.sg j).msgq ∨ T f.type

section Pushes

variable {T : MsgType → Prop} {c c' c'' : Coord}

theorem Pushes.of_sg_eq (h : c'.sg = c.sg) : Pushes T c c' := fun _ _ hf => .inl (h ▸ hf)

theorem Pushes.refl (c : Coord) : Pushes T c c := .of_sg_eq rfl

theorem Pushes.trans (h : Pushes T c c') (h' : Pushes T c' c'') : Pushes T c c'' := by
  intro j f hf
  rcases h' j f hf with hf | hf
  · exact h j f hf
  · exact .inr hf

theorem Pushes.foldl {α : Type} {g : Coord → α → Coord} {l : List α}
    (h : ∀ c, ∀ a ∈ l, Pushes T c (g c a)) (c : Coord) : Pushes T c (l.foldl g c) :=
  foldl_invariant (I := Pushes T c) (fun s a ha hs => hs.trans (h s a ha)) (.refl c)

theorem Pushes.setSg {i : Nat} {g : SignerRec → SignerRec}
    (h : ∀ f ∈ (g (c.sg i)).msgq, f ∈ (c.sg i).msgq ∨ T f.type) : Pushes T c (c.setSg i g) := by
  intro j f hf
  by_cases e : j = i
  · subst e
    rw [Coord.setSg_self] at hf
    exact h f hf
  · rw [Coord.setSg_of_ne e] at hf
    exact .inl hf

/-- A record update that keeps the queue. -/
theorem Pushes.setSg_keep {i : Nat} {g : SignerRec → SignerRec}
    (h : (g (c.sg i)).msgq = (c.sg i).msgq) : Pushes T c (c.setSg i g) :=
  .setSg fun _ hf => .inl (h ▸ hf)

/-- Frames of the types in `T` may have been queued, behind what there was. -/
def Appends (T : MsgType → Prop) (c c' : Coord) : Prop :=
  ∀ j, ∃ fs : List Frame, (c'.sg j).msgq = (c.sg j).msgq ++ fs ∧ ∀ f ∈ fs, T f.type

theorem Appends.pushes (h : Appends T c c') : Pushes T c c' := by
  intro j f hf
  obtain ⟨fs, e, ht⟩ := h j
  rw [e] at hf
  rcases List.mem_append.mp hf with hf | hf
  · exact .inl hf
  · exact .inr (ht f hf)

theorem Appends.of_sg_eq (h : c'.sg = c.sg) :
    Appends T c c' := fun j => ⟨[], by rw [h]; simp, nofun⟩

theorem Appends.refl (c : Coord) : Appends T c c := .of_sg_eq rfl

theorem Appends.trans (h : Appends T c c') (h' : Appends T c' c'') : Appends T c c'' := by
  intro j
  obtain ⟨fs, e, ht⟩ := h j
  obtain ⟨fs', e', ht'⟩ := h' j
  refine ⟨fs ++ fs', by rw [e', e, List.append_assoc], fun f hf => ?_⟩
  rcases List.mem_append.mp hf with hf | hf
  · exact ht f hf
  · exact ht' f hf

theorem Appends.foldl {α : Type} {g : Coord → α → Coord} {l : List α}
    (h : ∀ c, ∀ a ∈ l, Appends T c (g c a)) (c : Coord) : Appends T c (l.foldl g c) :=
  foldl_invariant (I := Appends T c) (fun s a ha hs => hs.trans (h s a ha)) (.refl c)

/-- A record update that keeps the queue. -/
theorem Appends.setSg_keep {i : Nat} {g : SignerRec → SignerRec}
    (h : (g (c.sg i)).msgq = (c.sg i).msgq) : Appends T c (c.setSg i g) := by
  intro j
  refine ⟨[], ?_, nofun⟩
  rw [List.append_nil]
  by_cases e : j = i
  · subst e
    rw [Coord.setSg_self]
    exact h
  · rw [Coord.setSg_of_ne e]

theorem signerSend_appends {type : MsgType} (h : T type) (i : Nat) (sig payload : Bytes) :
    Appends T c (c.signerSend i type sig payload) := by
  intro j
  by_cases e : j = i
  · subst e
    refine ⟨[⟨type, sig, payload⟩], ?_, fun f hf => ?_⟩
    · unfold Coord.signerSend
      rw [Coord.setSg_self]
    · obtain rfl := List.mem_singleton.mp hf
      exact h
  · refine ⟨[], ?_, nofun⟩
    unfold Coord.signerSend
    rw [Coord.setSg_of_ne e, List.append_nil]

theorem broadcast_appends {type : MsgType} (h : T type) (payload : Bytes) :
    Appends T c (c.broadcast type payload) :=
  .foldl (fun _ i _ => signerSend_appends h i [] payload) c

theorem maybeStart_appends {type : MsgType} (h : T type) (word : Bytes) :
    Appends T c (c.maybeStart type word) := by
  unfold Coord.maybeStart
  split; · exact .refl c
  split; · exact .refl c
  exact Appends.trans (.of_sg_eq rfl) (broadcast_appends h _)

theorem relayR1_appends {type : MsgType} (h : T type) (sender : Nat) :
    Appends T c (c.relayR1 type sender) := by
  refine .foldl (fun c i _ => ?_) c
  split
  · exact signerSend_appends h _ _ _
  · exact .refl c

theorem relayR2_appends {type : MsgType} (h : T type) (target : Nat) (sig payload : Bytes) :
    Appends T c (c.relayR2 type target sig payload) := by
  unfold Coord.relayR2
  split
  · exact signerSend_appends h _ _ _
  · exact .refl c

theorem checkR1_appends {relay : Coord → Nat → Coord} (h : ∀ c i, Appends T c (relay c i)) :
    Appends T c (c.checkR1 relay) := by
  unfold Coord.checkR1
  split; · exact .refl c
  exact Appends.trans (.of_sg_eq rfl) (.foldl (fun c i _ => h c i) _)

theorem checkR2_appends {type : MsgType} (h : T type) (payload : Bytes) :
    Appends T c (c.checkR2 type payload) := by
  unfold Coord.checkR2
  split; · exact .refl c
  exact (broadcast_appends h payload).trans (.of_sg_eq rfl)

theorem storeR1_appends {check : Coord → Coord} (h : ∀ c, Appends T c (check c)) (i : Nat)
    (f : Frame) : Appends T c (storeR1 c check i f) := by
  unfold storeR1
  split; · exact .refl c
  exact Appends.trans (.setSg_keep rfl) (h _)

theorem fileReport_appends (i : Nat) (f : Frame) : Appends T c (fileReport c i f) := by
  have h : Appends T c (c.setSg i fun r => { r with pubKeyPkg := f.payload }) := .setSg_keep rfl
  exact h.trans (.of_sg_eq rfl)

/-- The types the rounds of the two ceremonies queue. -/
def roundTypes : List MsgType :=
  [.relayR1, .relayR2, .dkgDone, .relayRefreshR1, .relayRefreshR2, .refreshFinalize]

theorem processSignerFrame_round_appends (hT : ∀ type ∈ roundTypes, T type) (env : Env) (i : Nat)
    (f : Frame) (hs : MsgType.signing f.type = false) (hr : MsgType.reports f.type = false) :
    Appends T c (processSignerFrame c env i f) := by
  unfold processSignerFrame
  cases e : f.type with
  | round1Pkg =>
    dsimp only
    unfold onRound1Pkg
    split; · exact .refl c
    exact storeR1_appends (fun _ => checkR1_appends fun _ _ =>
      relayR1_appends (hT .relayR1 (by decide)) _) i f
  | round2Pkg =>
    dsimp only
    rcases onRound2Pkg_cases c f with e' | ⟨dst, -, e'⟩
    · rw [e']; exact .refl c
    · rw [e']; exact relayR2_appends (hT .relayR2 (by decide)) dst _ _
  | r2Complete =>
    dsimp only
    unfold onR2Complete
    split; · exact .refl c
    exact Appends.trans (.setSg_keep rfl) (checkR2_appends (hT .dkgDone (by decide)) _)
  | refreshR1 =>
    dsimp only
    unfold onRefreshR1
    split; · exact .refl c
    exact storeR1_appends (fun _ => checkR1_appends fun _ _ =>
      relayR1_appends (hT .relayRefreshR1 (by decide)) _) i f
  | refreshR2 =>
    dsimp only
    rcases onRefreshR2_cases c f with e' | ⟨-, dst, -, e'⟩
    · rw [e']; exact .refl c
    · rw [e']; exact relayR2_appends (hT .relayRefreshR2 (by decide)) dst _ _
  | refreshR2Complete =>
    dsimp only
    unfold onRefreshR2Complete
    split; · exact .refl c
    exact Appends.trans (.setSg_keep rfl) (checkR2_appends (hT .refreshFinalize (by decide)) _)
  | refreshComplete => rw [e] at hr; cases hr
  | pubKeyPkg => rw [e] at hr; cases hr
  | shareLoadFail => rw [e] at hs; cases hs
  | commit => rw [e] at hs; cases hs
  | sigShare => rw [e] at hs; cases hs
  | _ => exact .refl c

theorem onRefreshComplete_appends (hT : T .refreshConfirmed) (env : Env) (i : Nat) (f : Frame) :
    Appends T c (onRefreshComplete c env i f) := by
  unfold onRefreshComplete
  refine (fileReport_appends i f).trans ?_
  dsimp only
  split; · exact .refl _
  have hall (d : Coord) : Appends T d (checkRefreshAllConfirmed d) := by
    unfold checkRefreshAllConfirmed
    split
    · exact .refl _
    · exact (broadcast_appends hT []).trans (.of_sg_eq rfl)
  refine Appends.trans ?_ (hall _)
  split
  · exact .of_sg_eq rfl
  · exact .refl _

theorem onPubKeyPkg_appends (env : Env) (i : Nat) (f : Frame) :
    Appends T c (onPubKeyPkg c env i f) := by
  unfold onPubKeyPkg
  refine (fileReport_appends i f).trans ?_
  dsimp only
  split; · exact .refl _
  split; · exact .refl _
  exact .of_sg_eq rfl

end Pushes

/-! ## The signing side of the records -/

/-- The fields of a record that only sign mode uses. -/
def SignerRec.signView (r : SignerRec) : Bytes × Bytes × SPhase × Nat :=
  (r.commit, r.commitSig, r.signPhase, r.sessionId)

/-- The signing side of every record is as it was. -/
structure SameSign (c c' : Coord) : Prop where
  view : ∀ j, (c'.sg j).signView = (c.sg j).signView

section SameSign

variable {c c' c'' : Coord}

theorem SameSign.of_sg_eq (h : c'.sg = c.sg) : SameSign c c' := ⟨fun j => by rw [h]⟩

theorem SameSign.refl (c : Coord) : SameSign c c := .of_sg_eq rfl

theorem SameSign.trans (h : SameSign c c') (h' : SameSign c' c'') : SameSign c c'' :=
  ⟨fun j => (h'.view j).trans (h.view j)⟩

theorem SameSign.foldl {α : Type} {g : Coord → α → Coord} {l : List α}
    (h : ∀ c a, SameSign c (g c a)) (c : Coord) : SameSign c (l.foldl g c) :=
  foldl_invariant (I := SameSign c) (fun s a _ hs => hs.trans (h s a)) (.refl c)

theorem SameSign.setSg {i : Nat} {g : SignerRec → SignerRec}
    (h : (g (c.sg i)).signView = (c.sg i).signView) : SameSign c (c.setSg i g) := by
  refine ⟨fun j => ?_⟩
  by_cases e : j = i
  · subst e; rw [Coord.setSg_self]; exact h
  · rw [Coord.setSg_of_ne e]

theorem signerSend_sameSign (i : Nat) (type : MsgType) (sig payload : Bytes) :
    SameSign c (c.signerSend i type sig payload) := .setSg rfl

theorem broadcast_sameSign (type : MsgType) (payload : Bytes) :
    SameSign c (c.broadcast type payload) :=
  .foldl (fun _ i => signerSend_sameSign i type [] payload) c

theorem relayR1_sameSign (type : MsgType) (sender : Nat) : SameSign c (c.relayR1 type sender) := by
  refine .foldl (fun c i => ?_) c
  split
  · exact signerSend_sameSign ..
  · exact .refl c

theorem relayR2_sameSign (type : MsgType) (target : Nat) (sig payload : Bytes) :
    SameSign c (c.relayR2 type target sig payload) := by
  unfold Coord.relayR2
  split
  · exact signerSend_sameSign ..
  · exact .refl c

theorem checkR1_sameSign {relay : Coord → Nat → Coord} (h : ∀ c i, SameSign c (relay c i)) :
    SameSign c (c.checkR1 relay) := by
  unfold Coord.checkR1
  split; · exact .refl c
  have h1 : SameSign c { c with dkgState := .collectingR2 } := .of_sg_eq rfl
  exact h1.trans (.foldl h _)

theorem checkR2_sameSign (type : MsgType) (payload : Bytes) :
    SameSign c (c.checkR2 type payload) := by
  unfold Coord.checkR2
  split; · exact .refl c
  exact (broadcast_sameSign type payload).trans (.of_sg_eq rfl)

theorem storeR1_sameSign {check : Coord → Coord} (h : ∀ c, SameSign c (check c)) (i : Nat)
    (f : Frame) : SameSign c (storeR1 c check i f) := by
  unfold storeR1
  split; · exact .refl c
  exact SameSign.trans (.setSg rfl) (h _)

theorem fileReport_sameSign (i : Nat) (f : Frame) : SameSign c (fileReport c i f) := by
  have h : SameSign c (c.setSg i fun r => { r with pubKeyPkg := f.payload }) := .setSg rfl
  exact h.trans (.of_sg_eq rfl)

theorem onRefreshComplete_sameSign (env : Env) (i : Nat) (f : Frame) :
    SameSign c (onRefreshComplete c env i f) := by
  unfold onRefreshComplete
  refine (fileReport_sameSign i f).trans ?_
  dsimp only
  split; · exact .refl _
  have hall (d : Coord) : SameSign d (checkRefreshAllConfirmed d) := by
    unfold checkRefreshAllConfirmed
    split
    · exact .refl _
    · exact (broadcast_sameSign ..).trans (.of_sg_eq rfl)
  refine SameSign.trans ?_ (hall _)
  split
  · exact .of_sg_eq rfl
  · exact .refl _

/-- No frame of the two ceremonies reaches the signing side of a record. -/
theorem processSignerFrame_sameSign (env : Env) (i : Nat) (f : Frame)
    (hs : MsgType.signing f.type = false) : SameSign c (processSignerFrame c env i f) := by
  unfold processSignerFrame
  cases e : f.type with
  | round1Pkg =>
    dsimp only
    unfold onRound1Pkg
    split; · exact .refl c
    exact storeR1_sameSign (fun _ => checkR1_sameSign fun _ _ => relayR1_sameSign ..) i f
  | round2Pkg =>
    dsimp only
    rcases onRound2Pkg_cases c f with e' | ⟨dst, -, e'⟩
    · rw [e']; exact .refl c
    · rw [e']; exact relayR2_sameSign ..
  | r2Complete =>
    dsimp only
    unfold onR2Complete
    split; · exact .refl c
    exact SameSign.trans (.setSg rfl) (checkR2_sameSign ..)
  | refreshR1 =>
    dsimp only
    unfold onRefreshR1
    split; · exact .refl c
    exact storeR1_sameSign (fun _ => checkR1_sameSign fun _ _ => relayR1_sameSign ..) i f
  | refreshR2 =>
    dsimp only
    rcases onRefreshR2_cases c f with e' | ⟨-, dst, -, e'⟩
    · rw [e']; exact .refl c
    · rw [e']; exact relayR2_sameSign ..
  | refreshR2Complete =>
    dsimp only
    unfold onRefreshR2Complete
    split; · exact .refl c
    exact SameSign.trans (.setSg rfl) (checkR2_sameSign ..)
  | refreshComplete => exact onRefreshComplete_sameSign env i f
  | pubKeyPkg =>
    dsimp only
    unfold onPubKeyPkg
    refine (fileReport_sameSign i f).trans ?_
    dsimp only
    split; · exact .refl _
    split; · exact .refl _
    exact .of_sg_eq rfl
  | shareLoadFail => rw [e] at hs; cases hs
  | commit => rw [e] at hs; cases hs
  | sigShare => rw [e] at hs; cases hs
  | _ => exact .refl c

end SameSign

/-! ## Opening a session -/

/-- What `roast_try_form_session` has established when it opens a session. -/
structure Forms (env : Env) (k : Fin maxSessions) (spkg wire : Bytes) : Prop where
  notDone : c.signingDone = false
  enough : c.t ≤ (chooseSigners c).length
  slot : roastAlloc c = some k
  bundle : ∃ b, buildBundle c (chooseSigners c) = some b ∧ env.assemble b = some spkg ∧
    packCommitBundle commitBundleWireMax b = some wire
  fits : wire.length ≤ maxPayload

theorem roastTryFormSession_cases (env : Env) : roastTryFormSession c env = c ∨
    ∃ k spkg wire, Forms c env k spkg wire ∧
      roastTryFormSession c env = openSession c k (chooseSigners c) spkg wire env.now := by
  unfold roastTryFormSession
  split; · exact .inl rfl
  next hd =>
  dsimp only
  split; · exact .inl rfl
  split; · exact .inl rfl
  next hlen =>
  split; · exact .inl rfl
  next k hk =>
  split; · exact .inl rfl
  next b hb =>
  split; · exact .inl rfl
  next spkg hs =>
  split; · exact .inl rfl
  next wire hw =>
  split
  · exact .inl rfl
  · next hfit =>
    exact .inr ⟨k, spkg, wire, ⟨by simpa using hd, by omega, hk, ⟨b, hb, hs, hw⟩, by omega⟩, rfl⟩

theorem tryForm_cases (env : Env) : tryForm c env = c ∨
    ∃ k spkg wire, Forms c env k spkg wire ∧
      tryForm c env = openSession c k (chooseSigners c) spkg wire env.now := by
  unfold tryForm
  split
  · exact roastTryFormSession_cases c env
  · exact .inl rfl

theorem openSession_sgOnly (k : Fin maxSessions) (chosen : List Nat) (spkg wire : Bytes)
    (now : Nat) : SgOnly (fillSlot c k chosen spkg now) (openSession c k chosen spkg wire now) :=
  .foldl (fun c' id => assignMember_sgOnly c' c.nextSessionId wire id) _ _

theorem assignMember_appends {T : MsgType → Prop} (h : T .relayCommit) (sid : Nat) (wire : Bytes)
    (id : Nat) : Appends T c (assignMember c sid wire id) :=
  Appends.trans (.setSg_keep rfl) (signerSend_appends h id [] wire)

theorem tryForm_appends {T : MsgType → Prop} (h : T .relayCommit) (env : Env) :
    Appends T c (tryForm c env) := by
  rcases tryForm_cases c env with e | ⟨k, spkg, wire, -, e⟩
  · rw [e]; exact .refl c
  · rw [e]
    have h1 : Appends T c (fillSlot c k (chooseSigners c) spkg env.now) := .of_sg_eq rfl
    exact h1.trans (.foldl (fun c' id _ => assignMember_appends c' h c.nextSessionId wire id) _)

/-! ## The chosen signers -/

section Select

variable {t : Nat} {ok : List Nat → Nat → Bool}

theorem selectPass_length_le : ∀ {l ch : List Nat}, ch.length ≤ t →
    (selectPass t ok l ch).length ≤ t
  | [], _, h => h
  | id :: l, ch, h => by
    unfold selectPass
    split
    · exact h
    · refine selectPass_length_le ?_
      split
      · simp; omega
      · exact h

theorem mem_selectPass {x : Nat} : ∀ {l ch : List Nat}, x ∈ selectPass t ok l ch →
    x ∈ ch ∨ x ∈ l ∧ ∃ ch', ok ch' x = true
  | [], _, h => .inl h
  | id :: l, ch, h => by
    unfold selectPass at h
    split at h
    · exact .inl h
    rcases mem_selectPass h with h | ⟨hl, hok⟩
    · split at h
      · next hid =>
        rcases List.mem_append.mp h with h | h
        · exact .inl h
        · obtain rfl : x = id := by simpa using h
          exact .inr ⟨List.mem_cons_self .., ch, hid⟩
      · exact .inl h
    · exact .inr ⟨List.mem_cons_of_mem _ hl, hok⟩

/-- A pass over distinct ids adds no id twice, if none of them was chosen
before or the test excludes what is chosen. -/
theorem selectPass_nodup : ∀ {l ch : List Nat}, l.Nodup → ch.Nodup →
    (∀ x ∈ l, x ∈ ch → ∀ ch', ch ⊆ ch' → ok ch' x = false) → (selectPass t ok l ch).Nodup
  | [], _, _, h, _ => h
  | id :: l, ch, hl, hch, hex => by
    obtain ⟨hid, hl⟩ := List.nodup_cons.mp hl
    unfold selectPass
    split
    · exact hch
    by_cases hok : ok ch id = true
    · rw [if_pos hok]
      have hni : id ∉ ch := fun hmem => by
        have := hex id (List.mem_cons_self ..) hmem ch (fun _ h => h)
        rw [this] at hok; cases hok
      refine selectPass_nodup hl ?_ fun x hx hxc ch' hsub => ?_
      · rw [List.nodup_append]
        refine ⟨hch, by simp, fun a ha b hb => ?_⟩
        obtain rfl : b = id := by simpa using hb
        exact fun e => hni (e ▸ ha)
      · have hne : x ≠ id := fun e => hid (e ▸ hx)
        have hxch : x ∈ ch := by simpa [hne] using hxc
        exact hex x (List.mem_cons_of_mem _ hx) hxch ch' fun y hy => hsub (by simp [hy])
    · rw [if_neg hok]
      exact selectPass_nodup hl hch fun x hx => hex x (List.mem_cons_of_mem _ hx)

end Select

theorem chooseSigners_length_le : (chooseSigners c).length ≤ c.t :=
  selectPass_length_le (selectPass_length_le (Nat.zero_le _))

theorem mem_chooseSigners {x : Nat} (h : x ∈ chooseSigners c) :
    x ∈ c.signers ∧ (reliable c x = true ∨ suspected c x = true) := by
  rcases mem_selectPass h with h | ⟨hl, ch, hok⟩
  · rcases mem_selectPass h with h | ⟨hl, -, hok⟩
    · cases h
    · exact ⟨hl, .inl hok⟩
  · rw [Bool.and_eq_true] at hok
    exact ⟨hl, .inr hok.1⟩

theorem chooseSigners_nodup (h : c.signers.Nodup) : (chooseSigners c).Nodup := by
  refine selectPass_nodup h (selectPass_nodup h List.nodup_nil fun _ _ hx => nomatch hx) ?_
  intro x _ hx ch' hsub
  simp [hsub hx]

/-! ## Shares -/

theorem roastSignerSlot_some {s : RoastSession} {id slot : Nat}
    (h : roastSignerSlot s id = some slot) : s.signerIds[slot]? = some id := by
  unfold roastSignerSlot at h
  obtain ⟨hlt, hp, -⟩ := List.findIdx?_eq_some_iff_getElem.mp h
  rw [List.getElem?_eq_getElem hlt]
  simpa using hp

/-- What the guards of `SIG_SHARE` have established. -/
structure ShareTarget (i : Nat) (f : Frame) (k : Fin maxSessions) (slot : Nat) : Prop where
  mode : c.mode = .sign
  size : f.payload.length ≤ maxPayload
  found : roastFind c (c.sg i).sessionId = some k
  open' : (c.sessions k).state = .awaitingShares
  slot : (c.sessions k).signerIds[slot]? = some i

theorem shareTarget_some {i : Nat} {f : Frame} {k : Fin maxSessions} {slot : Nat}
    (h : shareTarget c i f = some (k, slot)) : ShareTarget c i f k slot := by
  unfold shareTarget at h
  split at h; · cases h
  next hm =>
  split at h; · cases h
  next hp =>
  split at h; · cases h
  next k' hk =>
  split at h; · cases h
  next hst =>
  split at h; · cases h
  next slot' hs =>
  cases h
  exact ⟨by simpa using hm, by omega, hk, by simpa using hst, roastSignerSlot_some hs⟩

theorem fileShare_session (k : Fin maxSessions) (slot i : Nat) (share : Bytes) :
    (fileShare c k slot i share).sessions k = { c.sessions k with
      shares := Function.update (c.sessions k).shares slot share,
      nShares := (c.sessions k).nShares + 1 } :=
  Function.update_self ..

theorem fileShare_session_of_ne {c : Coord} {k j : Fin maxSessions} (h : j ≠ k) (slot i : Nat)
    (share : Bytes) :
    (fileShare c k slot i share).sessions j = c.sessions j := Function.update_of_ne h ..

/-! ## The frames of sign mode -/

/-- Nothing but what a frame of sign mode or the scan may touch differs. -/
def RoastOnly (c c' : Coord) : Prop :=
  ∃ sg ses nid done fail bl st certs minted todo, c' = { c with
    sg := sg, sessions := ses, nextSessionId := nid, signingDone := done, roastFail := fail,
    blacklist := bl, strikes := st, certs := certs, numMinted := minted, toMint := todo }

section Roast

variable {c c' c'' : Coord}

theorem RoastOnly.refl (c : Coord) : RoastOnly c c := ⟨_, _, _, _, _, _, _, _, _, _, rfl⟩

theorem RoastOnly.trans (h : RoastOnly c c') (h' : RoastOnly c' c'') : RoastOnly c c'' := by
  obtain ⟨_, _, _, _, _, _, _, _, _, _, rfl⟩ := h
  obtain ⟨sg, ses, nid, done, fail, bl, st, certs, minted, todo, rfl⟩ := h'
  exact ⟨sg, ses, nid, done, fail, bl, st, certs, minted, todo, rfl⟩

theorem RecOnly.roastOnly (h : RecOnly c c') : RoastOnly c c' := by
  obtain ⟨sg, bl, st, rfl⟩ := h; exact ⟨sg, _, _, _, _, bl, st, _, _, _, rfl⟩

theorem SgOnly.roastOnly (h : SgOnly c c') : RoastOnly c c' := h.recOnly.roastOnly

variable (c)

theorem setSession_roastOnly (k : Fin maxSessions) (f : RoastSession → RoastSession) :
    RoastOnly c (c.setSession k f) := ⟨_, _, _, _, _, _, _, _, _, _, rfl⟩

theorem tryForm_roastOnly (env : Env) : RoastOnly c (tryForm c env) := by
  rcases tryForm_cases c env with e | ⟨k, spkg, wire, -, e⟩
  · rw [e]; exact .refl c
  · rw [e]
    have h : RoastOnly c (fillSlot c k (chooseSigners c) spkg env.now) :=
      ⟨_, _, _, _, _, _, _, _, _, _, rfl⟩
    exact h.trans (openSession_sgOnly ..).roastOnly

theorem roastFailCulprit_roastOnly (env : Env) (k : Fin maxSessions) (culprit : Nat) :
    RoastOnly c (roastFailCulprit c env k culprit) := by
  have h1 := (setSession_roastOnly c k _).trans (culpritReset_recOnly c k culprit).roastOnly
  refine (h1.trans (tryForm_roastOnly _ env)).trans ?_
  exact ⟨_, _, _, _, _, _, _, _, _, _, rfl⟩

theorem blacklistSession_roastOnly (k : Fin maxSessions) :
    RoastOnly c (blacklistSession c k) := by
  have h1 := (setSession_roastOnly c k _).trans (blacklistMembers_recOnly c k).roastOnly
  refine h1.trans (RoastOnly.trans ?_ (broadcastSignReq_sgOnly _).roastOnly)
  split
  · exact ⟨_, _, _, _, _, _, _, _, _, _, rfl⟩
  · exact .refl _

theorem aggregateOk_roastOnly (env : Env) (k : Fin maxSessions) (sig64 : Bytes) :
    RoastOnly c (aggregateOk c env k sig64) := by
  have h1 : RoastOnly c (finishSession c k) := ⟨_, _, _, _, _, _, _, _, _, _, rfl⟩
  unfold aggregateOk callMint
  cases env.mint _ with
  | none => exact h1
  | some cert =>
    have h2 : RoastOnly (finishSession c k) (countCert (finishSession c k) cert) :=
      ⟨_, _, _, _, _, _, _, _, _, _, rfl⟩
    exact (h1.trans h2).trans (broadcast_sgOnly ..).roastOnly

theorem onAggregate_roastOnly (env : Env) (k : Fin maxSessions) (r : AggregateResult) :
    RoastOnly c (onAggregate c env k r) := by
  cases r with
  | notRun => exact .refl c
  | sig bytes =>
    dsimp only [onAggregate]
    split
    · exact blacklistSession_roastOnly c k
    · exact aggregateOk_roastOnly c env k bytes
  | culprit id =>
    dsimp only [onAggregate]
    split
    · exact roastFailCulprit_roastOnly c env k id
    · exact blacklistSession_roastOnly c k
  | failed => exact blacklistSession_roastOnly c k

theorem onSigShare_roastOnly (env : Env) (i : Nat) (f : Frame) :
    RoastOnly c (onSigShare c env i f) := by
  unfold onSigShare
  split
  · exact .refl c
  next k slot _ =>
  have h : RoastOnly c (fileShare c k slot i f.payload) :=
    (setSession_roastOnly c k _).trans (setSg_sgOnly ..).roastOnly
  dsimp only
  split
  · refine h.trans ?_
    unfold roastTryAggregate
    split
    · exact .refl _
    · exact onAggregate_roastOnly ..
  · exact h

theorem onCommit_roastOnly (env : Env) (i : Nat) (f : Frame) :
    RoastOnly c (onCommit c env i f) := by
  unfold onCommit
  split; · exact .refl c
  split; · exact .refl c
  split; · exact .refl c
  split; · exact .refl c
  exact (setSg_sgOnly c i _).roastOnly.trans (tryForm_roastOnly ..)

theorem processSignerFrame_roastOnly (env : Env) (i : Nat) (f : Frame)
    (h : MsgType.signing f.type = true) : RoastOnly c (processSignerFrame c env i f) := by
  unfold processSignerFrame
  cases e : f.type with
  | commit => exact onCommit_roastOnly c env i f
  | sigShare => exact onSigShare_roastOnly c env i f
  | shareLoadFail => exact (setSg_sgOnly c i _).roastOnly
  | _ => rw [e] at h; cases h

theorem expireSlot_roastOnly (now : Nat) (env : Env) (k : Fin maxSessions) :
    RoastOnly c (expireSlot c now env k) := by
  unfold expireSlot
  split; · exact .refl c
  split; · exact .refl c
  exact ((setSession_roastOnly c k _).trans (expireMembers_recOnly c k).roastOnly).trans
    (tryForm_roastOnly ..)

theorem roastExpireSessions_roastOnly (now : Nat) (env : Fin maxSessions → Env) :
    RoastOnly c (roastExpireSessions c now env) := by
  unfold roastExpireSessions
  exact foldl_invariant (I := RoastOnly c)
    (fun c' k _ h => h.trans (expireSlot_roastOnly c' now (env k) k)) (.refl c)

end Roast

/-! ## The rest of the loop -/

/-- `prepare_tbs` leaves the sessions alone or clears them all. -/
theorem prepareTbs_cases (env : TbsEnv) : ∃ d tbs hex,
    (prepareTbs c env).1 = { c with dummyCert := d, tbs := tbs, tbsHex := hex } ∨
    (prepareTbs c env).1 = { c with
      dummyCert := d, tbs := tbs, tbsHex := hex, sessions := fun _ => RoastSession.zero } := by
  unfold prepareTbs patchAndClear
  split
  · exact ⟨_, _, _, .inl rfl⟩
  · exact ⟨_, _, _, .inl rfl⟩
  · exact ⟨_, _, _, .inl rfl⟩
  split
  · exact ⟨_, _, _, .inl rfl⟩
  split
  · exact ⟨_, _, _, .inl rfl⟩
  split
  · exact ⟨_, _, _, .inl rfl⟩
  · exact ⟨_, _, _, .inr rfl⟩

theorem welcome_flowOnly (pid : Nat) : FlowOnly c (welcome c pid) := by
  unfold welcome
  split
  · exact maybeStart_flowOnly ..
  · exact maybeStart_flowOnly ..
  · exact (signerSend_sgOnly ..).flowOnly

theorem promote_flowOnly (pid : Nat) : FlowOnly (enroll c pid) (promote c pid) :=
  (signerSend_sgOnly ..).flowOnly.trans (welcome_flowOnly ..)

theorem parseHello_some {payload : Bytes} {pid pn pt : Nat}
    (h : parseHello payload = some (pid, pn, pt)) :
    1 ≤ pid ∧ pid ≤ pn ∧ 2 ≤ pn ∧ pn ≤ maxSigners ∧ 1 ≤ pt ∧ pt ≤ pn := by
  unfold parseHello at h
  split at h; · cases h
  split at h; · cases h
  next hr =>
  cases h
  simp only [Bool.or_eq_true, decide_eq_true_eq, not_or] at hr
  omega

theorem onHello_cases (env : HelloEnv) (payload : Bytes) :
    (onHello c env payload).1 = c ∨ ∃ pid pn pt, parseHello payload = some (pid, pn, pt) ∧
      (c.n = 0 ∨ c.n = pn ∧ c.t = pt) ∧
      ((onHello c env payload).1 = { c with n := pn, t := pt } ∨ pid ∉ c.signers ∧
        (onHello c env payload).1 = promote { c with n := pn, t := pt } pid ∧
        (onHello c env payload).2 = .ok pid) := by
  unfold onHello
  split
  · exact .inl rfl
  next pid pn pt hp =>
  split
  · exact .inl rfl
  next hnt =>
  have hset : (if c.n = 0 then { c with n := pn, t := pt } else c) =
      { c with n := pn, t := pt } := by
    split
    · rfl
    · next h0 =>
      have : pn = c.n ∧ pt = c.t := by
        by_contra h; exact hnt ⟨h0, by omega⟩
      rw [this.1, this.2]
  have hor : c.n = 0 ∨ c.n = pn ∧ c.t = pt := by
    by_cases h0 : c.n = 0
    · exact .inl h0
    · by_contra h; exact hnt ⟨h0, by omega⟩
  refine .inr ⟨pid, pn, pt, hp, hor, ?_⟩
  rw [hset]
  dsimp only
  split; · exact .inl rfl
  split; · exact .inl rfl
  split; · exact .inl rfl
  next hmem => exact .inr ⟨hmem, rfl, rfl⟩

/-! ## What a step leaves alone -/

/-- The mode, the key and the report count, which only the two report frames touch. -/
def keyView : CoordMode × Bytes × Option Bytes × Nat :=
  (c.mode, c.pubKeyPkg, c.pubPkgHex, c.refreshCompleteCount)

theorem FlowOnly.keyView {c c' : Coord} (h : FlowOnly c c') : keyView c' = keyView c := by
  obtain ⟨_, _, rfl⟩ := h; rfl

theorem RoastOnly.keyView {c c' : Coord} (h : RoastOnly c c') : keyView c' = keyView c := by
  obtain ⟨_, _, _, _, _, _, _, _, _, _, rfl⟩ := h; rfl

theorem loopHead_keyView (env : TbsEnv) : keyView (loopHead c env) = keyView c := by
  have hexit (c : Coord) : keyView (exitIfQuiet c) = keyView c := by
    unfold exitIfQuiet
    split <;> rfl
  unfold loopHead
  split
  · exact hexit c
  split
  · split
    · unfold nextMint
      rw [(broadcastSignReq_sgOnly _).flowOnly.keyView]
      obtain ⟨d, tbs, hex, e | e⟩ := prepareTbs_cases (advanceSerial c) env <;>
        · rw [e]; rfl
    · exact hexit c
  split
  · exact hexit c
  · rfl

theorem onHello_keyView (env : HelloEnv) (payload : Bytes) :
    keyView (onHello c env payload).1 = keyView c := by
  rcases onHello_cases c env payload with e | ⟨pid, pn, pt, -, -, e | ⟨-, e, -⟩⟩
  · rw [e]
  · rw [e]; rfl
  · rw [e, (promote_flowOnly _ pid).keyView]; rfl

/-- Is the event a frame that carries a `PublicKeyPackage`, from a registered signer? -/
def isReport (c : Coord) : Event → Bool
  | .frame i f _ => !c.exited && decide (i ∈ c.signers) && MsgType.reports f.type
  | _ => false

theorem step_keyView (e : Event) (h : isReport c e = false) : keyView (step c e) = keyView c := by
  unfold step
  split; · rfl
  next hx =>
  cases e with
  | loopHead env => exact loopHead_keyView c env
  | expire now env =>
    dsimp only
    split
    · exact (roastExpireSessions_roastOnly c now env).keyView
    · rfl
  | hello env payload => exact onHello_keyView c env payload
  | drain i =>
    dsimp only
    split
    · exact (setSg_sgOnly ..).flowOnly.keyView
    · rfl
  | disconnect i => dsimp only; split <;> rfl
  | frame i f env =>
    dsimp only
    split
    · next hi =>
      have hr : MsgType.reports f.type = false := by simpa [isReport, hx, hi] using h
      by_cases hs : MsgType.signing f.type = true
      · exact (processSignerFrame_roastOnly c env i f hs).keyView
      · exact (processSignerFrame_flowOnly c env i f (by simpa using hs) hr).keyView
    · rfl

end FrostSshCa.Coordinator
