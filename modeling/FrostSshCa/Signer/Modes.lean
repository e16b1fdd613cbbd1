import FrostSshCa.Signer.Persist

/-!
# A signer in SIGN mode

`g_coord_mode` is set by `HELLO_ACK` and read again only where a commitment is made
ahead. The DKG and refresh cases share the sizes, the key and its file with signing and
do not look at the mode. A signer that signs keeps what it signs with as long as no start
message names other sizes and no ceremony gets as far as to another key, or as to a part 3
that fails after it has written over this one.
-/

namespace FrostSshCa.Signer

open Lib

variable {keys : Keys} {env : Env} {s : Node} {f : Frame} {n t : Nat}

/-- The sizes a start message names. -/
def newSizes (f : Frame) : Option (Nat × Nat) :=
  match f.type with
  | .startDkg => scanTwo (ascii "START_DKG") f.payload
  | .startRefresh => scanTwo (ascii "START_REFRESH") f.payload
  | _ => none

/-- What was done is logged, and shares among it are of `t` commitments. -/
def Adds (t : Nat) (s s' : Node) : Prop :=
  ∃ acts, s'.log = s.log ++ acts ∧
    ∀ nonces b spkg, .shared nonces b spkg ∈ acts → b.entries.length = t

/-- A step keeps the sizes `n` and `t` and the key. A signer without a key may load the one
of its file, and the file may be written again with the same key. -/
structure Kept (n t : Nat) (s s' : Node) (env : Env) : Prop where
  size : s'.n = n ∧ s'.t = t
  memory : s'.keyPkg = s.keyPkg ∨ s.keyPkg = [] ∧ env.keyFile = .ok s'.keyPkg
  file : s'.savedKey = s.savedKey ∨ s'.savedKey = some (hexFile s'.keyPkg)
  shares : Adds t s s'

/-- The frame names no other sizes, leads to no other key and spoils none. -/
structure Idle (keys : Keys) (env : Env) (s : Node) (f : Frame) : Prop where
  size : ∀ p, newSizes f = some p → p = (s.n, s.t)
  memory : ∀ key, keyAnswer keys env s f = some (.ok key) →
    key = s.keyPkg ∨ s.keyPkg = [] ∧ env.keyFile = .ok key
  file : ∀ key, keyAnswer keys env s f = some (.ok key) →
    env.keyWrite.leaves (hexFile key) s.savedKey = s.savedKey ∨
      env.keyWrite.leaves (hexFile key) s.savedKey = some (hexFile key)
  unspoilt : ∀ written, keyAnswer keys env s f = some (.error written) →
    overwrite s.keyPkg written = s.keyPkg

/-- A frame that is processed is such a frame. -/
def Confined (keys : Keys) (s : Node) (e : Frame × Env) : Prop :=
  s.exited = false → tooLarge e.1 = false → Idle keys e.2 s e.1

/-! ## What a frame does to the sizes and the key -/

theorem sendAllR2_vault (m : MsgType) (out : List (Nat × Bytes)) (s : Node) :
    vault (sendAllR2 keys env s m out) = vault s := by
  obtain ⟨q, l, e⟩ : ∃ q l, sendAllR2 keys env s m out = { s with outq := q, log := l } :=
    sendAllR2_eq m out s
  rw [e]
  rfl

theorem onRelayR1_vault (f : Frame) : vault (onRelayR1 keys env s f) = vault s := by
  unfold onRelayR1
  split
  · rfl
  split
  · rfl
  dsimp only
  split
  · rfl
  split
  · rfl
  · exact sendAllR2_vault ..

theorem onRelayRefreshR1_vault (f : Frame) : vault (onRelayRefreshR1 keys env s f) = vault s := by
  unfold onRelayRefreshR1
  split
  · rfl
  split
  · rfl
  dsimp only
  split
  · rfl
  split
  · rfl
  · exact sendAllR2_vault ..

theorem onRelayRefreshR2_vault (f : Frame) : vault (onRelayRefreshR2 keys s f) = vault s := by
  unfold onRelayRefreshR2
  split
  · rfl
  split
  · rfl
  split <;> rfl

theorem onRelayCommit_vault (f : Frame) : vault (onRelayCommit keys env s f) = vault s := by
  unfold onRelayCommit
  split
  · rfl
  unfold signBundle
  split
  · rfl
  split <;> rfl

theorem freshCommit_vault (s : Node) (answer : Bytes → CommitResult) :
    vault (freshCommit s answer).1 = vault s := by
  rcases freshCommit_cases s answer with ⟨_, _, -, -, e⟩ | ⟨_, -, e⟩
  · rw [e]
    rfl
  · rw [e]
    rfl

theorem sendCommit_vault (s : Node) : vault (sendCommit keys s) = vault s := by
  unfold sendCommit
  split <;> rfl

theorem acceptRequest_vault (tbs : Bytes) : vault (acceptRequest keys env s tbs) = vault s := by
  have h := freshCommit_vault { s with tbs := tbs, state := .signing } env.commit
  unfold acceptRequest
  dsimp only
  split
  · exact sendCommit_vault _
  split
  · next e => rw [e] at h; exact h
  · next e => rw [e] at h; exact (sendCommit_vault _).trans h

theorem precompute_vault : vault (precompute env s) = vault s := by
  have h := freshCommit_vault s env.precommit
  unfold precompute
  split
  · split
    · next e => rw [e] at h; exact h
    · next e => rw [e] at h; exact h
  · rfl

/-- A start message sets the sizes and nothing else. -/
theorem start_vault {p : Nat × Nat} (h : newSizes f = some p) :
    vault (processCoordFrame keys env s f) = (p.1, p.2, s.keyPkg, s.savedKey) ∧
      keyAnswer keys env s f = none := by
  unfold newSizes at h
  unfold processCoordFrame keyAnswer
  split at h
  · next hf =>
    rw [hf]
    refine ⟨?_, rfl⟩
    show vault (onStartDkg keys env s f) = _
    unfold onStartDkg
    rw [h]
    dsimp only
    split <;> rfl
  · next hf =>
    rw [hf]
    refine ⟨?_, rfl⟩
    show vault (onStartRefresh keys env s f) = _
    unfold onStartRefresh
    rw [h]
    dsimp only
    split <;> rfl
  · cases h

/-- A signer loads the key of its file only when it has none. -/
theorem ensureKey_vault (keys : Keys) (env : Env) (s : Node) :
    ∃ key, vault (ensureKey keys env s).1 = (s.n, s.t, key, s.savedKey) ∧
      (key = s.keyPkg ∨ s.keyPkg = [] ∧ env.keyFile = .ok key) := by
  unfold ensureKey
  split
  · next h0 =>
    have h0 : s.keyPkg = [] := List.eq_nil_of_length_eq_zero h0
    have hload : ∃ key, vault (loadKeyMaterial s env).1 = (s.n, s.t, key, s.savedKey) ∧
        (key = s.keyPkg ∨ s.keyPkg = [] ∧ env.keyFile = .ok key) := by
      unfold loadKeyMaterial
      cases hk : env.keyFile with
      | absent => exact ⟨s.keyPkg, rfl, .inl rfl⟩
      | bad written =>
        -- a line that stops decoding leaves the length at 0
        refine ⟨overwrite s.keyPkg written, rfl, .inl ?_⟩
        rw [h0]
        simp [overwrite]
      | ok key =>
        dsimp only
        split
        · exact ⟨s.keyPkg, rfl, .inl rfl⟩
        · exact ⟨key, rfl, .inr ⟨h0, rfl⟩⟩
    unfold loadOrFail
    split
    · next e => rw [e] at hload; exact hload
    · next e => rw [e] at hload; exact hload
  · exact ⟨s.keyPkg, rfl, .inl rfl⟩

theorem onSignReq_vault (f : Frame) :
    ∃ key, vault (onSignReq keys env s f) = (s.n, s.t, key, s.savedKey) ∧
      (key = s.keyPkg ∨ s.keyPkg = [] ∧ env.keyFile = .ok key) := by
  obtain ⟨key, hv, hkey⟩ := ensureKey_vault keys env s
  refine ⟨key, ?_, hkey⟩
  unfold onSignReq
  split
  · next e => rw [e] at hv; exact hv
  · next e =>
    rw [e] at hv
    split
    · exact hv
    · exact (acceptRequest_vault _).trans hv

/-- Any other frame but `HELLO_ACK` leaves them alone, or loads the key of the file. -/
theorem other_vault (hf : f.type ≠ .helloAck) (hs : newSizes f = none)
    (hk : keyAnswer keys env s f = none) :
    ∃ key, vault (processCoordFrame keys env s f) = (s.n, s.t, key, s.savedKey) ∧
      (key = s.keyPkg ∨ s.keyPkg = [] ∧ env.keyFile = .ok key) := by
  have same (h : vault (processCoordFrame keys env s f) = vault s) :
      ∃ key, vault (processCoordFrame keys env s f) = (s.n, s.t, key, s.savedKey) ∧
        (key = s.keyPkg ∨ s.keyPkg = [] ∧ env.keyFile = .ok key) := ⟨s.keyPkg, h, .inl rfl⟩
  by_cases hnew : f.type = .relayR2 ∨ f.type = .refreshFinalize
  · exact same (keyAnswer_none hnew hk).2
  unfold newSizes at hs
  cases e : f.type with
  | helloAck => exact absurd e hf
  | relayR2 => exact absurd (.inl e) hnew
  | refreshFinalize => exact absurd (.inr e) hnew
  | signReq =>
    unfold processCoordFrame
    rw [e]
    exact onSignReq_vault f
  | startDkg =>
    rw [e] at hs
    refine same ?_
    unfold processCoordFrame
    rw [e]
    show vault (onStartDkg keys env s f) = _
    unfold onStartDkg
    rw [show scanTwo (ascii "START_DKG") f.payload = none from hs]
  | startRefresh =>
    rw [e] at hs
    refine same ?_
    unfold processCoordFrame
    rw [e]
    show vault (onStartRefresh keys env s f) = _
    unfold onStartRefresh
    rw [show scanTwo (ascii "START_REFRESH") f.payload = none from hs]
  | relayR1 => exact same (by unfold processCoordFrame; rw [e]; exact onRelayR1_vault f)
  | relayRefreshR1 => exact same (by
    unfold processCoordFrame; rw [e]; exact onRelayRefreshR1_vault f)
  | relayRefreshR2 => exact same (by
    unfold processCoordFrame; rw [e]; exact onRelayRefreshR2_vault f)
  | relayCommit => exact same (by unfold processCoordFrame; rw [e]; exact onRelayCommit_vault f)
  | error =>
    refine same ?_
    unfold processCoordFrame
    rw [e]
    show vault (onError s) = _
    unfold onError
    split <;> rfl
  | _ => exact same (by unfold processCoordFrame; rw [e])

/-- A processed frame does to the vault what `processCoordFrame` does. -/
theorem step_vault {e : Frame × Env} (hx : s.exited = false) (hl : tooLarge e.1 = false) :
    vault (step keys s e) = vault (processCoordFrame keys e.2 s e.1) := by
  unfold step
  rw [if_neg (by rw [hx]; exact Bool.false_ne_true), if_neg (by rw [hl]; exact Bool.false_ne_true)]
  dsimp only
  split
  · rfl
  · exact precompute_vault

theorem step_stopped {e : Frame × Env} (h : s.exited = true ∨ tooLarge e.1 = true) :
    vault (step keys s e) = vault s := by
  unfold step
  split
  · rfl
  next hx =>
  rw [if_pos (h.resolve_left hx)]
  rfl

/-! ## Shares -/

theorem Adds.refl (t : Nat) (s : Node) : Adds t s s := ⟨[], by simp, nofun⟩

theorem Adds.trans {s' s'' : Node} (h : Adds t s s') (h' : Adds t s' s'') : Adds t s s'' := by
  obtain ⟨as, ha, hs⟩ := h
  obtain ⟨bs, hb, hs'⟩ := h'
  refine ⟨as ++ bs, by rw [hb, ha, List.append_assoc], fun nonces b spkg hm => ?_⟩
  rcases List.mem_append.mp hm with hm | hm
  · exact hs _ _ _ hm
  · exact hs' _ _ _ hm

/-- Anything but a share may be logged. -/
theorem Adds.single {s' : Node} {a : Act} (h : s'.log = s.log ++ [a])
    (ha : ∀ nonces b spkg, a ≠ .shared nonces b spkg) : Adds t s s' :=
  ⟨[a], h, fun _ _ _ hm => absurd (List.mem_singleton.mp hm).symm (ha _ _ _)⟩

theorem Plain.adds {P : MsgType → Bytes → Prop} {s' : Node} (h : Plain keys P s s') :
    Adds t s s' := by
  obtain ⟨ps, -, hlog, -⟩ := h.sent
  refine ⟨_, hlog, fun _ _ _ hm => ?_⟩
  obtain ⟨p, -, e⟩ := List.mem_map.mp hm
  cases e

theorem freshCommit_adds (s : Node) (answer : Bytes → CommitResult) :
    Adds t s (freshCommit s answer).1 := by
  rcases freshCommit_cases s answer with ⟨_, _, -, -, e⟩ | ⟨_, -, e⟩
  · rw [e]
    exact .single rfl nofun
  · rw [e]
    exact ⟨[], (List.append_nil _).symm, nofun⟩

theorem sendCommit_adds (s : Node) : Adds t s (sendCommit keys s) := by
  unfold sendCommit
  split
  · exact .refl t s
  · exact .single rfl nofun

theorem acceptRequest_adds (tbs : Bytes) : Adds t s (acceptRequest keys env s tbs) := by
  have hset : Adds t s { s with tbs := tbs, state := .signing } := .refl t s
  have h : Adds t { s with tbs := tbs, state := .signing } _ :=
    freshCommit_adds { s with tbs := tbs, state := .signing } env.commit
  unfold acceptRequest
  dsimp only
  split
  · exact hset.trans (sendCommit_adds _)
  split
  · next e => rw [e] at h; exact hset.trans h
  · next e => rw [e] at h; exact (hset.trans h).trans (sendCommit_adds _)

theorem precompute_adds : Adds t s (precompute env s) := by
  have h : Adds t s _ := freshCommit_adds s env.precommit
  unfold precompute
  split
  · split
    · next e => rw [e] at h; exact h
    · next e => rw [e] at h; exact h
  · exact .refl t s

/-- A share is made for an accepted bundle, which has `t` entries. -/
theorem signBundle_adds {payload : Bytes} {b : CommitBundle}
    (h : acceptedBundle keys s payload = some b) : Adds s.t s (signBundle keys env s b) := by
  have hsize : b.entries.length = s.t := (bundleAccepted_iff.mp (acceptedBundle_some h).2).size
  rcases signBundle_cases keys env s b with e | ⟨spkg, share, -, -, e⟩
  · rw [e]
    exact .refl _ s
  rw [e]
  refine ⟨[.shared s.nonces b spkg, .queued .sigShare share share], ?_, fun _ _ _ hm => ?_⟩
  · show s.log ++ _ ++ _ = _
    rw [List.append_assoc]
    rfl
  · rcases List.mem_cons.mp hm with hm | hm
    · cases hm
      exact hsize
    · cases List.mem_singleton.mp hm

theorem step_adds (keys : Keys) (s : Node) (e : Frame × Env) : Adds s.t s (step keys s e) := by
  have hall : Allows (fun _ _ => True) s.myId e.2 :=
    ⟨trivial, fun _ _ _ _ _ _ => trivial, fun _ _ _ _ _ _ => trivial, fun _ _ _ _ _ _ =>
      ⟨trivial, trivial⟩,
      ⟨trivial, trivial⟩, fun _ _ _ _ _ _ => trivial, fun _ _ _ _ _ _ _ _ _ => trivial,
      fun _ _ _ _ _ => trivial⟩
  obtain ⟨s', ho, hs⟩ := step_outcome keys hall e.1
  have h : Adds s.t s s' := by
    cases ho with
    | plain h => exact h.adds
    | request type load short => exact load.adds.trans (acceptRequest_adds _)
    | share type accepted => exact signBundle_adds accepted
  rcases hs with hs | hs
  · rw [show step keys s e = s' from hs]
    exact h
  · rw [show step keys s e = _ from hs]
    exact h.trans precompute_adds

/-! ## Isolation -/

/-- The rest of `Kept`, read off the vault. -/
theorem kept_iff_vault {s' : Node} (h : Adds t s s') : Kept n t s s' env ↔
    (s'.n = n ∧ s'.t = t) ∧ (s'.keyPkg = s.keyPkg ∨ s.keyPkg = [] ∧ env.keyFile = .ok s'.keyPkg) ∧
      (s'.savedKey = s.savedKey ∨ s'.savedKey = some (hexFile s'.keyPkg)) :=
  ⟨fun h => ⟨h.size, h.memory, h.file⟩, fun hk => ⟨hk.1, hk.2.1, hk.2.2, h⟩⟩

/-- A frame that gets as far as no call is idle if it names no other sizes. -/
theorem Idle.of_none (hk : keyAnswer keys env s f = none)
    (hsize : ∀ p, newSizes f = some p → p = (s.n, s.t)) : Idle keys env s f := by
  refine ⟨hsize, fun key h => ?_, fun key h => ?_, fun w h => ?_⟩ <;>
  · rw [hk] at h
    cases h

/-- **One frame**: a signer of the sizes `n` and `t` keeps them and its key if and only if
the frame is idle. -/
theorem step_kept_iff {e : Frame × Env} (hn : s.n = n) (ht : s.t = t) (hf : e.1.type ≠ .helloAck) :
    Kept n t s (step keys s e) e.2 ↔ Confined keys s e := by
  rw [kept_iff_vault (ht ▸ step_adds keys s e)]
  by_cases hrun : s.exited = true ∨ tooLarge e.1 = true
  · have hv : vault (step keys s e) = vault s := step_stopped hrun
    simp only [vault, Prod.mk.injEq] at hv
    rw [hv.1, hv.2.1, hv.2.2.1, hv.2.2.2]
    refine ⟨fun _ hx hl => ?_, fun _ => ⟨⟨hn, ht⟩, .inl rfl, .inl rfl⟩⟩
    rcases hrun with h | h
    · rw [hx] at h
      cases h
    · rw [hl] at h
      cases h
  obtain ⟨hx, hl⟩ : s.exited = false ∧ tooLarge e.1 = false := by
    simpa only [not_or, Bool.not_eq_true] using hrun
  have hc : Confined keys s e ↔ Idle keys e.2 s e.1 := ⟨fun h => h hx hl, fun h _ _ => h⟩
  rw [hc]
  have hv : vault (step keys s e) = _ := step_vault hx hl
  cases hs : newSizes e.1 with
  | some p =>
    obtain ⟨hp, hk⟩ : vault (processCoordFrame keys e.2 s e.1) = _ ∧
        keyAnswer keys e.2 s e.1 = none := start_vault hs
    rw [hp] at hv
    simp only [vault, Prod.mk.injEq] at hv
    rw [hv.1, hv.2.1, hv.2.2.1, hv.2.2.2]
    constructor
    · rintro ⟨⟨h1, h2⟩, -⟩
      refine .of_none hk fun q hq => ?_
      rw [hs] at hq
      cases hq
      rw [hn, ht, ← h1, ← h2]
    · intro h
      have hq := h.size p hs
      rw [hq]
      exact ⟨⟨hn, ht⟩, .inl rfl, .inl rfl⟩
  | none =>
    have hsize : ∀ p, newSizes e.1 = some p → p = (s.n, s.t) := fun p h => by rw [hs] at h; cases h
    cases hk : keyAnswer keys e.2 s e.1 with
    | some r =>
      have hnew : e.1.type = .relayR2 ∨ e.1.type = .refreshFinalize := keyAnswer_type hk
      cases r with
      | ok key =>
        rw [keyAnswer_vault hk] at hv
        simp only [vault, Prod.mk.injEq] at hv
        rw [hv.1, hv.2.1, hv.2.2.1, hv.2.2.2]
        constructor
        · rintro ⟨-, hm, hfile⟩
          refine ⟨hsize, fun k h => ?_, fun k h => ?_, fun w h => ?_⟩ <;> rw [hk] at h <;> cases h
          · exact hm
          · exact hfile
        · exact fun h => ⟨⟨hn, ht⟩, h.memory key hk, h.file key hk⟩
      | error written =>
        rw [(keyAnswer_error hnew hk).2] at hv
        simp only [vault, Prod.mk.injEq] at hv
        rw [hv.1, hv.2.1, hv.2.2.1, hv.2.2.2]
        constructor
        · rintro ⟨-, hm, -⟩
          refine ⟨hsize, fun k h => ?_, fun k h => ?_, fun w h => ?_⟩ <;> rw [hk] at h <;> cases h
          rcases hm with hm | ⟨h0, -⟩
          · exact hm
          · rw [h0, nil_overwrite]
        · exact fun h => ⟨⟨hn, ht⟩, .inl (h.unspoilt written hk), .inl rfl⟩
    | none =>
      obtain ⟨key, hv', hkey⟩ : ∃ key, vault (processCoordFrame keys e.2 s e.1) = _ ∧ _ :=
        other_vault hf hs hk
      rw [hv'] at hv
      simp only [vault, Prod.mk.injEq] at hv
      rw [hv.1, hv.2.1, hv.2.2.1, hv.2.2.2]
      exact ⟨fun _ => .of_none hk hsize, fun _ => ⟨⟨hn, ht⟩, hkey, .inl rfl⟩⟩

/-- **SIGN mode is isolated** exactly along idle frames: whatever was processed so far, the
signer still has the sizes of its command line and keeps them, its key and its file from
here on, if and only if it has them here and every later frame is idle. -/
theorem isolation_iff (keys : Keys) (id n t : Nat) (past : List (Frame × Env))
    {later : List (Frame × Env)} (hlater : ∀ e ∈ later, e.1.type ≠ .helloAck) :
    let a := run (step keys) (Node.start keys id n t) past
    ((a.n = n ∧ a.t = t) ∧
      Along (step keys) (fun s e => Kept n t s (step keys s e) e.2) a later) ↔
    (a.n = n ∧ a.t = t) ∧ Along (step keys) (Confined keys) a later := by
  intro a
  refine and_congr_right fun ha => ?_
  refine along_congr (I := fun s : Node => s.n = n ∧ s.t = t) ?_ ?_ hlater ha
  · exact fun s e hi he => step_kept_iff hi.1 hi.2 he
  · exact fun s e hi he hc => ((step_kept_iff hi.1 hi.2 he).mpr hc).size

/-! A signer of three, two of which have to sign, in SIGN mode. -/

def ackEvent : Frame × Env := (ackFrame, { plainEnv with precommit := fun _ => .ok [161] [193] })

def askRun : List (Frame × Env) := [(requestFrame [7], plainEnv), (bundleFrame, plainEnv)]

theorem isolation_iff_ask :
    (run (step toyKeys) (Node.start toyKeys 1 3 2) [ackEvent]).coordMode = .sign ∧
      Along (step toyKeys) (fun s e => Kept 3 2 s (step toyKeys s e) e.2)
        (run (step toyKeys) (Node.start toyKeys 1 3 2) [ackEvent]) askRun := by
  have idle {s : Node} {e : Frame × Env} (he : e ∈ askRun) : Confined toyKeys s e := by
    intro _ _
    have hs : newSizes e.1 = none ∧ keyAnswer toyKeys e.2 s e.1 = none := by
      rcases List.mem_cons.mp he with h | h
      · rw [h]
        exact ⟨rfl, rfl⟩
      · rw [List.mem_singleton.mp h]
        exact ⟨rfl, rfl⟩
    refine .of_none hs.2 fun p h => ?_
    rw [hs.1] at h
    cases h
  have hlater : ∀ e ∈ askRun, e.1.type ≠ .helloAck := by decide
  refine ⟨by decide +kernel, ((isolation_iff toyKeys 1 3 2 [ackEvent] hlater).mpr ⟨?_, ?_⟩).2⟩
  · exact ⟨by decide +kernel, by decide +kernel⟩
  · exact Along.of_mem fun e he s => idle he

/-- `START_DKG 3 1` in SIGN mode: the threshold is 1, and a share is made for a bundle of
one commitment. -/
theorem threshold_lowered :
    ¬ Along (step toyKeys) (fun s e => Kept 3 2 s (step toyKeys s e) e.2)
        (run (step toyKeys) (Node.start toyKeys 1 3 2) [ackEvent])
        ((⟨.startDkg, [], ascii "START_DKG 3 1\n"⟩, plainEnv) :: askRun) ∧
      .shared [161] soloBundle [7] ∈ (run (step toyKeys) (Node.start toyKeys 1 3 2)
        (ackEvent :: (⟨.startDkg, [], ascii "START_DKG 3 1\n"⟩, plainEnv) :: askRun)).log := by
  refine ⟨fun h => ?_, by decide +kernel⟩
  have hk : Kept 3 2 _ _ _ := h.1
  exact absurd hk.size.2 (by decide +kernel)

end FrostSshCa.Signer
