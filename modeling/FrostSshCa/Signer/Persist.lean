import FrostSshCa.Signer.Nonce

/-!
# Saving a new key

Two frames give a signer a new key: the `RELAY_R2` that completes part 3 and
`REFRESH_FINALIZE`. Each replaces the key in memory, writes the key file and queues a
report, in an order of its own, and neither looks at how much of the file was written:
`finishDkg` ignores the result of the save, `finishRefresh` has replaced the key in
memory when it sees it. Part 3 decodes into the key in memory itself, so one that fails
can spoil it.
-/

namespace FrostSshCa.Signer

open Lib

variable {keys : Keys} {env : Env} {s x : Node} {f : Frame} {key : Bytes}

/-- The messages that tell the coordinator of a new key. -/
def IsReport (m : MsgType) : Prop := m = .r2Complete ∨ m = .pubKeyPkg ∨ m = .refreshComplete

/-- One of them was queued between two states. -/
def Reported (s s' : Node) : Prop := ∃ g ∈ s'.outq.drop s.outq.length, IsReport g.type

/-- A report stands for a key that is completely on disk, and without one memory and disk
are what they were. -/
structure Persists (s s' : Node) : Prop where
  reported : Reported s s' → s'.savedKey = some (hexFile s'.keyPkg)
  silent : ¬ Reported s s' → s'.keyPkg = s.keyPkg ∧ s'.savedKey = s.savedKey

/-- What part 3 or the refresh answers, where the frame gets that far: the new key, or
what it has written over the old one before it failed. -/
def keyAnswer (keys : Keys) (env : Env) (s : Node) (f : Frame) : Option (Except Bytes Bytes) :=
  match f.type with
  | .relayR2 =>
    (openR2 keys f).bind fun r =>
    if s.peerR2.length ≥ maxSigners then none
    else (keys.decrypt s.myId r.2).bind fun pkg =>
      let s := { s with peerR2 := s.peerR2 ++ [(r.1, pkg)] }
      if s.peerR2.length + 1 < s.n then none else some ((frostDkgPart3 s env).map (·.1))
  | .refreshFinalize =>
    if s.refPeerR2.length + 1 ≠ s.n then none
    else some ((frostRefreshShares s env).elim (.error []) fun r => .ok r.1)
  | _ => none

/-- The key file is written to its end. Where it cannot be opened, a DKG needs the file to
hold the new key already, a refresh the key to be the old one. What a part 3 that fails has
written is what was there. -/
structure Stored (keys : Keys) (env : Env) (s : Node) (f : Frame) : Prop where
  file : ∀ key, keyAnswer keys env s f = some (.ok key) → match env.keyWrite with
    | .whole => True
    | .cut m => (hexFile key).length ≤ m
    | .noOpen => if f.type = .relayR2 then s.savedKey = some (hexFile key) else key = s.keyPkg
  unspoilt : ∀ written, keyAnswer keys env s f = some (.error written) →
    overwrite s.keyPkg written = s.keyPkg

/-! ## What is on disk -/

/-- The key file after a write of `text`. -/
def KeyWrite.leaves (w : KeyWrite) (text : Bytes) (old : Option Bytes) : Option Bytes :=
  match w with
  | .noOpen => old
  | .cut m => some (text.take m)
  | .whole => some text

theorem saveKeyMaterial_fst (x : Node) (env : Env) : (saveKeyMaterial x env).1 =
    { x with savedKey := env.keyWrite.leaves (hexFile x.keyPkg) x.savedKey } := by
  unfold saveKeyMaterial KeyWrite.leaves
  cases env.keyWrite <;> rfl

theorem take_eq_self_iff (m : Nat) (text : Bytes) : text.take m = text ↔ text.length ≤ m := by
  constructor
  · intro h
    have := congrArg List.length h
    simp only [List.length_take] at this
    omega
  · exact List.take_of_length_le

/-! ## What the two frames do -/

/-- The sizes of the group and the key, in memory and on disk. -/
def vault (s : Node) : Nat × Nat × Bytes × Option Bytes := (s.n, s.t, s.keyPkg, s.savedKey)

/-- A frame that does not get to part 3 or the refresh reports and replaces nothing. -/
theorem keyAnswer_none (hf : f.type = .relayR2 ∨ f.type = .refreshFinalize)
    (e : keyAnswer keys env s f = none) :
    (processCoordFrame keys env s f).outq = s.outq ∧
      vault (processCoordFrame keys env s f) = vault s := by
  unfold processCoordFrame
  unfold keyAnswer at e
  rcases hf with hf | hf
  · rw [hf] at e ⊢
    dsimp only at e ⊢
    unfold onRelayR2
    cases ho : openR2 keys f with
    | none => exact ⟨rfl, rfl⟩
    | some r =>
      rw [ho, Option.bind_some] at e
      dsimp only
      by_cases hroom : s.peerR2.length ≥ maxSigners
      · rw [if_pos hroom]
        exact ⟨rfl, rfl⟩
      rw [if_neg hroom] at e ⊢
      cases hd : keys.decrypt s.myId r.2 with
      | none => exact ⟨rfl, rfl⟩
      | some pkg =>
        rw [hd, Option.bind_some] at e
        dsimp only at e ⊢
        split
        · exact ⟨rfl, rfl⟩
        · next hlt =>
          rw [if_neg hlt] at e
          cases e
  · rw [hf] at e ⊢
    dsimp only at e ⊢
    unfold onRefreshFinalize
    by_cases hn : s.refPeerR2.length + 1 ≠ s.n
    · rw [if_pos hn]
      exact ⟨rfl, rfl⟩
    · rw [if_neg hn] at e
      cases e

theorem keyAnswer_type {r : Except Bytes Bytes} (e : keyAnswer keys env s f = some r) :
    f.type = .relayR2 ∨ f.type = .refreshFinalize := by
  unfold keyAnswer at e
  split at e
  · next h => exact .inl h
  · next h => exact .inr h
  · cases e

/-- A DKG that gets to part 3 calls it with the two tables. -/
theorem keyAnswer_dkg {r : Except Bytes Bytes} (hf : f.type = .relayR2)
    (e : keyAnswer keys env s f = some r) :
    ∃ (x : Node) (a : Option Bytes → List Ask),
      (frostDkgPart3 x env).map (·.1) = r ∧ x.outq = s.outq ∧ vault x = vault s ∧
      processCoordFrame keys env s f = match frostDkgPart3 x env with
        | .error written => { x with keyPkg := overwrite x.keyPkg written, asked := a none }
        | .ok (key, pub) => finishDkg keys env { x with asked := a (some pub) } key pub := by
  unfold processCoordFrame
  unfold keyAnswer at e
  rw [hf] at e ⊢
  obtain ⟨p, ho, e⟩ := Option.bind_eq_some_iff.mp e
  split at e
  · cases e
  next hroom =>
  obtain ⟨pkg, hd, e⟩ := Option.bind_eq_some_iff.mp e
  dsimp only at e
  split at e
  · cases e
  next hlt =>
  refine ⟨{ s with peerR2 := s.peerR2 ++ [(p.1, pkg)] },
    fun pub => s.asked ++ [.dkgPart3 s.peerR1 (s.peerR2 ++ [(p.1, pkg)]) pub],
    Option.some.inj e, rfl, rfl, ?_⟩
  dsimp only
  unfold onRelayR2
  rw [ho]
  dsimp only
  rw [if_neg hroom, hd]
  exact if_neg hlt

/-- A DKG that is through ends in `finishDkg`. -/
theorem keyAnswer_dkg_ok (hf : f.type = .relayR2) (e : keyAnswer keys env s f = some (.ok key)) :
    ∃ x pub, processCoordFrame keys env s f = finishDkg keys env x key pub ∧
      x.outq = s.outq ∧ vault x = vault s := by
  obtain ⟨x, a, hr, hq, hv, hx⟩ := keyAnswer_dkg hf e
  cases h3 : frostDkgPart3 x env with
  | error written => rw [h3] at hr; cases hr
  | ok r =>
    rw [h3] at hr hx
    cases hr
    exact ⟨_, r.2, hx, hq, hv⟩

/-- A refresh that gets to its call leaves the key alone unless it is answered one. -/
theorem keyAnswer_refresh {r : Except Bytes Bytes} (hf : f.type = .refreshFinalize)
    (e : keyAnswer keys env s f = some r) :
    ∃ a : Option Bytes → List Ask,
      (frostRefreshShares s env).elim (.error []) (fun r => .ok r.1) = r ∧
      processCoordFrame keys env s f = match frostRefreshShares s env with
        | none => { s with asked := a none }
        | some (key, pub) => finishRefresh keys env { s with asked := a (some pub) } key pub := by
  unfold processCoordFrame
  unfold keyAnswer at e
  rw [hf] at e ⊢
  dsimp only at e ⊢
  split at e
  · cases e
  next hn =>
  refine ⟨fun pub => s.asked ++ [.refreshShares s.refPeerR1 s.refPeerR2 pub],
    Option.some.inj e, ?_⟩
  unfold onRefreshFinalize
  exact if_neg hn

theorem keyAnswer_refresh_ok (hf : f.type = .refreshFinalize)
    (e : keyAnswer keys env s f = some (.ok key)) :
    ∃ x pub, processCoordFrame keys env s f = finishRefresh keys env x key pub ∧
      x.outq = s.outq ∧ vault x = vault s := by
  obtain ⟨a, hr, hx⟩ := keyAnswer_refresh hf e
  cases h3 : frostRefreshShares s env with
  | none => rw [h3] at hr; cases hr
  | some r =>
    rw [h3] at hr hx
    cases hr
    exact ⟨_, r.2, hx, rfl, rfl⟩

/-- A call that fails reports nothing; the key has its front written over. -/
theorem keyAnswer_error {written : Bytes} (hf : f.type = .relayR2 ∨ f.type = .refreshFinalize)
    (e : keyAnswer keys env s f = some (.error written)) :
    (processCoordFrame keys env s f).outq = s.outq ∧
      vault (processCoordFrame keys env s f) =
        (s.n, s.t, overwrite s.keyPkg written, s.savedKey) := by
  rcases hf with hf | hf
  · obtain ⟨x, a, hr, hq, hv, hx⟩ := keyAnswer_dkg hf e
    simp only [vault, Prod.mk.injEq] at hv
    cases h3 : frostDkgPart3 x env with
    | error w =>
      rw [h3] at hr hx
      obtain rfl : w = written := by cases hr; rfl
      rw [hx]
      refine ⟨hq, ?_⟩
      show (x.n, x.t, overwrite x.keyPkg w, x.savedKey) = _
      rw [hv.1, hv.2.1, hv.2.2.1, hv.2.2.2]
    | ok r => rw [h3] at hr; cases hr
  · obtain ⟨a, hr, hx⟩ := keyAnswer_refresh hf e
    cases h3 : frostRefreshShares s env with
    | none =>
      rw [h3] at hr hx
      cases hr
      rw [hx, overwrite_nil]
      exact ⟨rfl, rfl⟩
    | some r => rw [h3] at hr; cases hr

/-! ## Reports -/

/-- Frames queued at the end are what is new. -/
theorem reported_append {s' : Node} {gs : List Frame} (h : s'.outq = s.outq ++ gs) :
    Reported s s' ↔ ∃ g ∈ gs, IsReport g.type := by
  unfold Reported
  rw [h, List.drop_left]

theorem finishDkg_outq (pub : Bytes) : (finishDkg keys env x key pub).outq = x.outq ++
    [⟨.r2Complete, keys.sign x.myId (be16 x.myId), be16 x.myId⟩,
      ⟨.pubKeyPkg, keys.sign x.myId pub, pub⟩] := by
  unfold finishDkg
  dsimp only
  rw [saveKeyMaterial_fst]
  exact List.append_assoc ..

theorem finishDkg_reported (hq : x.outq = s.outq) (pub : Bytes) :
    Reported s (finishDkg keys env x key pub) := by
  have h : (finishDkg keys env x key pub).outq = _ := finishDkg_outq pub
  rw [hq] at h
  exact (reported_append h).mpr ⟨_, List.mem_cons_self .., .inl rfl⟩

theorem finishDkg_vault (pub : Bytes) : vault (finishDkg keys env x key pub) =
    (x.n, x.t, key, env.keyWrite.leaves (hexFile key) x.savedKey) := by
  unfold finishDkg
  dsimp only
  rw [saveKeyMaterial_fst]
  rfl

theorem finishRefresh_vault (pub : Bytes) : vault (finishRefresh keys env x key pub) =
    (x.n, x.t, key, env.keyWrite.leaves (hexFile key) x.savedKey) := by
  unfold finishRefresh saveKeyMaterial KeyWrite.leaves
  cases env.keyWrite <;> rfl

/-- Either frame leaves the new key in memory and what the write left on disk. -/
theorem keyAnswer_vault (e : keyAnswer keys env s f = some (.ok key)) :
    vault (processCoordFrame keys env s f) =
      (s.n, s.t, key, env.keyWrite.leaves (hexFile key) s.savedKey) := by
  by_cases hf : f.type = .relayR2
  · obtain ⟨x, pub, hx, -, hv⟩ := keyAnswer_dkg_ok hf e
    simp only [vault, Prod.mk.injEq] at hv
    rw [hx, finishDkg_vault, hv.1, hv.2.1, hv.2.2.2]
  have hf : f.type = .refreshFinalize := (keyAnswer_type e).resolve_left hf
  obtain ⟨x, pub, hx, -, hv⟩ := keyAnswer_refresh_ok hf e
  simp only [vault, Prod.mk.injEq] at hv
  rw [hx, finishRefresh_vault, hv.1, hv.2.1, hv.2.2.2]

/-- After a report only the file is left to check. -/
theorem persists_reported {s' : Node} (h : Reported s s') :
    Persists s s' ↔ s'.savedKey = some (hexFile s'.keyPkg) :=
  ⟨fun hp => hp.reported h, fun he => ⟨fun _ => he, fun hn => absurd h hn⟩⟩

theorem persists_silent {s' : Node} (h : ¬ Reported s s') :
    Persists s s' ↔ s'.keyPkg = s.keyPkg ∧ s'.savedKey = s.savedKey :=
  ⟨fun hp => hp.silent h, fun he => ⟨fun hr => absurd hr h, fun _ => he⟩⟩

theorem not_reported {s' : Node} (h : s'.outq = s.outq) : ¬ Reported s s' := fun hr =>
  absurd ((reported_append (h.trans (List.append_nil _).symm)).mp hr) nofun

/-- A DKG that is through reports whatever the write did. -/
theorem finishDkg_persists_iff (hq : x.outq = s.outq) (hv : vault x = vault s) (pub : Bytes) :
    Persists s (finishDkg keys env x key pub) ↔ match env.keyWrite with
      | .whole => True
      | .cut m => (hexFile key).length ≤ m
      | .noOpen => s.savedKey = some (hexFile key) := by
  have hfin : vault (finishDkg keys env x key pub) =
    (x.n, x.t, key, env.keyWrite.leaves (hexFile key) x.savedKey) := finishDkg_vault pub
  simp only [vault, Prod.mk.injEq] at hfin hv
  rw [persists_reported (finishDkg_reported hq pub), hfin.2.2.1, hfin.2.2.2, hv.2.2.2]
  cases env.keyWrite with
  | noOpen => exact Iff.rfl
  | cut m =>
    show some ((hexFile key).take m) = some (hexFile key) ↔ (hexFile key).length ≤ m
    rw [Option.some.injEq, take_eq_self_iff]
  | whole => exact ⟨fun _ => trivial, fun _ => rfl⟩

/-- A refresh that is through reports a file that was opened, whatever got there. -/
theorem finishRefresh_persists_iff (hq : x.outq = s.outq) (hv : vault x = vault s) (pub : Bytes) :
    Persists s (finishRefresh keys env x key pub) ↔ match env.keyWrite with
      | .whole => True
      | .cut m => (hexFile key).length ≤ m
      | .noOpen => key = s.keyPkg := by
  simp only [vault, Prod.mk.injEq] at hv
  unfold finishRefresh saveKeyMaterial
  have opened {saved : Option Bytes} : Reported s (queueToCoord keys
      { x with keyPkg := key, pubKeyPkg := pub, savedKey := saved } .refreshComplete pub) := by
    refine (reported_append ?_).mpr
      ⟨⟨.refreshComplete, keys.sign x.myId pub, pub⟩, List.mem_singleton_self _, .inr (.inr rfl)⟩
    show x.outq ++ _ = _
    rw [hq]
  cases env.keyWrite with
  | noOpen =>
    show Persists s { x with keyPkg := key, pubKeyPkg := pub } ↔ _
    have hr : ¬ Reported s { x with keyPkg := key, pubKeyPkg := pub } := not_reported (s := s) hq
    exact (persists_silent hr).trans ⟨fun h => h.1, fun h => ⟨h, hv.2.2.2⟩⟩
  | cut m =>
    refine (persists_reported opened).trans ?_
    show some ((hexFile key).take m) = some (hexFile key) ↔ (hexFile key).length ≤ m
    rw [Option.some.injEq, take_eq_self_iff]
  | whole => exact (persists_reported opened).trans ⟨fun _ => trivial, fun _ => rfl⟩

/-- The file takes the new key and no old one is spoilt, where the call succeeds and where it
fails. -/
theorem Stored.ok_iff (e : keyAnswer keys env s f = some (.ok key)) :
    Stored keys env s f ↔ match env.keyWrite with
      | .whole => True
      | .cut m => (hexFile key).length ≤ m
      | .noOpen =>
        if f.type = .relayR2 then s.savedKey = some (hexFile key) else key = s.keyPkg := by
  refine ⟨fun h => h.file key e, fun hfile => ⟨fun k h => ?_, fun _ h => ?_⟩⟩
  · rw [e] at h
    cases h
    exact hfile
  · rw [e] at h
    cases h

theorem Stored.error_iff {written : Bytes} (e : keyAnswer keys env s f = some (.error written)) :
    Stored keys env s f ↔ overwrite s.keyPkg written = s.keyPkg := by
  refine ⟨fun h => h.unspoilt written e, fun hw => ⟨fun _ h => ?_, fun _ h => ?_⟩⟩
  · rw [e] at h
    cases h
  · rw [e] at h
    cases h
    exact hw

theorem Stored.of_none (e : keyAnswer keys env s f = none) : Stored keys env s f := by
  refine ⟨fun _ h => ?_, fun _ h => ?_⟩ <;>
  · rw [e] at h
    cases h

/-- **Persist before report**, exactly where the key file takes the new key whole and a
call that fails spoils nothing. -/
theorem persists_iff (keys : Keys) (env : Env) (s : Node) {f : Frame}
    (hf : f.type = .relayR2 ∨ f.type = .refreshFinalize) :
    Persists s (processCoordFrame keys env s f) ↔ Stored keys env s f := by
  cases e : keyAnswer keys env s f with
  | none =>
    obtain ⟨hq, hv⟩ := keyAnswer_none hf e
    simp only [vault, Prod.mk.injEq] at hv
    rw [persists_silent (not_reported hq)]
    exact ⟨fun _ => .of_none e, fun _ => hv.2.2⟩
  | some r =>
    cases r with
    | error written =>
      obtain ⟨hq, hv⟩ := keyAnswer_error hf e
      simp only [vault, Prod.mk.injEq] at hv
      rw [persists_silent (not_reported hq), hv.2.2.1, Stored.error_iff e]
      exact ⟨fun hp => hp.1, fun hw => ⟨hw, hv.2.2.2⟩⟩
    | ok key =>
      rw [Stored.ok_iff e]
      rcases hf with hf | hf
      · obtain ⟨x, pub, hx, hq, hv⟩ := keyAnswer_dkg_ok hf e
        rw [hx, finishDkg_persists_iff hq hv, if_pos hf]
      · obtain ⟨x, pub, hx, hq, hv⟩ := keyAnswer_refresh_ok hf e
        rw [hx, finishRefresh_persists_iff hq hv, if_neg (by rw [hf]; exact nofun)]

/-! A DKG of two signers, all of whose calls succeed. -/

def dealEnv : Env :=
  { plainEnv with
    dkgPart1 := fun _ _ _ => .ok ([11], [12])
    dkgPart2 := fun _ _ => .ok ([13], [(2, [14])])
    dkgPart3 := fun _ _ _ => .ok ([7], [8]) }

/-- A package of signer 2, relayed with its signature. -/
def peerFrame (m : MsgType) (payload signed : Bytes) : Frame := ⟨m, toySign 2 signed, payload⟩

def dealRun : List (Frame × Env) :=
  [(⟨.helloAck, [], ascii "ACK 1 D\n"⟩, dealEnv),
    (⟨.startDkg, [], ascii "START_DKG 2 2\n"⟩, dealEnv),
    (peerFrame .relayR1 [0, 2, 15] [15], dealEnv)]

def dealLast : Frame := peerFrame .relayR2 [0, 2, 0, 1, 16] [0, 2, 0, 1, 16]

theorem persists_iff_deal :
    Stored toyKeys dealEnv (run (step toyKeys) (Node.start toyKeys 1 2 2) dealRun) dealLast ∧
      Persists (run (step toyKeys) (Node.start toyKeys 1 2 2) dealRun)
        (processCoordFrame toyKeys dealEnv (run (step toyKeys) (Node.start toyKeys 1 2 2) dealRun)
          dealLast) := by
  have hk : keyAnswer toyKeys dealEnv (run (step toyKeys) (Node.start toyKeys 1 2 2) dealRun)
      dealLast = some (.ok [7]) := by decide +kernel
  have h : Stored toyKeys dealEnv (run (step toyKeys) (Node.start toyKeys 1 2 2) dealRun)
      dealLast := (Stored.ok_iff hk).mpr trivial
  exact ⟨h, (persists_iff toyKeys dealEnv _ (.inl rfl)).mpr h⟩

/-- Where `shares/` cannot be written the DKG is reported and no key is on disk. -/
theorem unsaved_key_reported :
    ¬ Persists (run (step toyKeys) (Node.start toyKeys 1 2 2) dealRun)
      (processCoordFrame toyKeys { dealEnv with keyWrite := .noOpen }
        (run (step toyKeys) (Node.start toyKeys 1 2 2) dealRun) dealLast) := by
  intro h
  have hq : (⟨.pubKeyPkg, toySign 1 [8], [8]⟩ : Frame) ∈
      (processCoordFrame toyKeys { dealEnv with keyWrite := .noOpen }
        (run (step toyKeys) (Node.start toyKeys 1 2 2) dealRun) dealLast).outq.drop
        (run (step toyKeys) (Node.start toyKeys 1 2 2) dealRun).outq.length := by decide +kernel
  exact absurd (h.reported ⟨_, hq, .inr (.inl rfl)⟩) (by decide +kernel)

/-- A part 3 that stops decoding after two bytes replaces the front of the key. -/
example :
    let s := run (step toyKeys) (Node.start toyKeys 1 2 2) dealRun
    (processCoordFrame toyKeys { dealEnv with dkgPart3 := fun _ _ _ => .error [1, 2] }
      { s with keyPkg := [170, 187, 204, 221] } dealLast).keyPkg = [1, 2, 204, 221] := by
  decide +kernel

end FrostSshCa.Signer
