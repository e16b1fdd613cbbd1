import FrostSshCa.Coordinator.Spec
import FrostSshCa.Lib.Count

/-!
# Share accounting

`n_shares` counts the `SIG_SHARE` frames filed in a session, `share_lens` says
which slots hold a share. The two agree as long as no frame files an empty
share and none is filed twice; then `aggregate` gets one line for each member.
-/

namespace FrostSshCa.Coordinator

open Lib

/-- Number of slots `i < n_signers` with `share_lens[i] > 0`. -/
def RoastSession.filled (s : RoastSession) : Nat :=
  (List.range s.signerIds.length).countP fun i => 0 < (s.shares i).length

/-- A session of `t` distinct members whose shares are counted right. -/
structure SessOk (t : Nat) (s : RoastSession) : Prop where
  size : s.signerIds.length = t
  distinct : s.signerIds.Nodup
  counted : s.nShares = s.filled

structure ShareInv (c : Coord) : Prop where
  distinct : c.signers.Nodup
  /-- Before the first `HELLO` fixed `g_n` and `g_t` nothing has happened. -/
  fresh : c.n = 0 → c.signers = [] ∧ ∀ k, (c.sessions k).state ≠ .awaitingShares
  sess : ∀ k, (c.sessions k).state = .awaitingShares → SessOk c.t (c.sessions k)

/-- A share filed by the step is non-empty and the first of its sender. -/
def FilesOnce (c : Coord) : Event → Prop
  | .frame i f _ => i ∈ c.signers → f.type = .sigShare → ∀ p ∈ shareTarget c i f,
      f.payload ≠ [] ∧ (c.sessions p.1).shares p.2 = []
  | _ => True

instance (c : Coord) : ∀ e, Decidable (FilesOnce c e)
  | .frame i f _ => inferInstanceAs (Decidable (i ∈ c.signers → f.type = .sigShare →
      ∀ p ∈ shareTarget c i f, f.payload ≠ [] ∧ (c.sessions p.1).shares p.2 = []))
  | .loopHead _ | .expire _ _ | .hello _ _ | .drain _ | .disconnect _ =>
    inferInstanceAs (Decidable True)

variable {c c' : Coord}

/-! ## What keeps the accounting -/

theorem ShareInv.congr (h : ShareInv c) (hn : c'.n = c.n) (ht : c'.t = c.t)
    (hs : c'.signers = c.signers) (hse : c'.sessions = c.sessions) : ShareInv c' := by
  obtain ⟨h1, h2, h3⟩ := h
  refine ⟨?_, ?_, ?_⟩
  · rw [hs]; exact h1
  · rw [hn, hs, hse]; exact h2
  · rw [ht, hse]; exact h3

theorem ShareInv.recOnly (h : ShareInv c) (hr : RecOnly c c') : ShareInv c' := by
  obtain ⟨_, _, _, rfl⟩ := hr; exact h.congr rfl rfl rfl rfl

theorem ShareInv.ceremonyOnly (h : ShareInv c) (hr : CeremonyOnly c c') : ShareInv c' := by
  obtain ⟨_, _, _, _, _, _, rfl⟩ := hr; exact h.congr rfl rfl rfl rfl

/-- Replacing one session by one that is counted right, or no longer awaits shares. -/
theorem ShareInv.setSession (h : ShareInv c) (k : Fin maxSessions)
    {f : RoastSession → RoastSession}
    (hk : (f (c.sessions k)).state = .awaitingShares →
      c.n ≠ 0 ∧ SessOk c.t (f (c.sessions k))) : ShareInv (c.setSession k f) := by
  refine ⟨h.distinct, fun hn => ⟨(h.fresh hn).1, fun j hj => ?_⟩, fun j hj => ?_⟩
  · by_cases e : j = k
    · subst e; rw [Coord.setSession_self] at hj; exact (hk hj).1 hn
    · rw [Coord.setSession_of_ne e] at hj; exact (h.fresh hn).2 j hj
  · by_cases e : j = k
    · subst e; rw [Coord.setSession_self] at hj ⊢; exact (hk hj).2
    · rw [Coord.setSession_of_ne e] at hj ⊢; exact h.sess j hj

theorem ShareInv.closeSession (h : ShareInv c) (k : Fin maxSessions) {p : RSessState}
    (hp : p ≠ .awaitingShares) : ShareInv (c.closeSession k p) :=
  h.setSession k fun hk => absurd hk hp

theorem filled_new (chosen : List Nat) (spkg : Bytes) (now : Nat) :
    (newSession c chosen spkg now).filled = 0 := by
  simp [RoastSession.filled, newSession]

theorem tryForm_shareInv (h : ShareInv c) (hn : c.n ≠ 0) (env : Env) :
    ShareInv (tryForm c env) := by
  rcases tryForm_cases c env with e | ⟨k, spkg, wire, hf, e⟩
  · rw [e]; exact h
  rw [e]
  have h1 : ShareInv (c.setSession k fun _ => newSession c (chooseSigners c) spkg env.now) :=
    h.setSession k fun _ => ⟨hn, Nat.le_antisymm (chooseSigners_length_le c) hf.enough,
      chooseSigners_nodup c h.distinct, (filled_new ..).symm⟩
  have h2 : ShareInv (fillSlot c k (chooseSigners c) spkg env.now) := h1.congr rfl rfl rfl rfl
  exact h2.recOnly (openSession_sgOnly ..).recOnly

theorem recOnly_n {c'' : Coord} (h : RecOnly c c') (e : c'' = c') : c''.n = c.n := by
  obtain ⟨_, _, _, rfl⟩ := h; rw [e]

theorem roastFailCulprit_shareInv (h : ShareInv c) (hn : c.n ≠ 0) (env : Env)
    (k : Fin maxSessions) (culprit : Nat) : ShareInv (roastFailCulprit c env k culprit) := by
  have hr := culpritReset_recOnly c k culprit
  have h1 := (h.closeSession k (p := .failed) nofun).recOnly hr
  have h2 : (culpritReset c k culprit).n ≠ 0 := by rw [recOnly_n hr rfl]; exact hn
  exact (tryForm_shareInv h1 h2 env).congr rfl rfl rfl rfl

theorem blacklistSession_shareInv (h : ShareInv c) (k : Fin maxSessions) :
    ShareInv (blacklistSession c k) := by
  have h1 := (h.closeSession k (p := .failed) nofun).recOnly (blacklistMembers_recOnly c k)
  refine ShareInv.recOnly ?_ (broadcastSignReq_sgOnly _).recOnly
  split
  · exact h1.congr rfl rfl rfl rfl
  · exact h1

theorem aggregateOk_shareInv (h : ShareInv c) (env : Env) (k : Fin maxSessions) (sig64 : Bytes) :
    ShareInv (aggregateOk c env k sig64) := by
  have h1 : ShareInv (finishSession c k) :=
    (h.closeSession k (p := .complete) nofun).congr rfl rfl rfl rfl
  unfold aggregateOk callMint
  cases env.mint _ with
  | none => exact h1
  | some cert =>
    have h2 : ShareInv (countCert (finishSession c k) cert) := h1.congr rfl rfl rfl rfl
    exact h2.recOnly (broadcast_sgOnly ..).recOnly

theorem onAggregate_shareInv (h : ShareInv c) (hn : c.n ≠ 0) (env : Env) (k : Fin maxSessions)
    (r : AggregateResult) : ShareInv (onAggregate c env k r) := by
  cases r with
  | notRun => exact h
  | sig bytes =>
    dsimp only [onAggregate]
    split
    · exact blacklistSession_shareInv h k
    · exact aggregateOk_shareInv h env k bytes
  | culprit id =>
    dsimp only [onAggregate]
    split
    · exact roastFailCulprit_shareInv h hn env k id
    · exact blacklistSession_shareInv h k
  | failed => exact blacklistSession_shareInv h k

theorem roastTryAggregate_shareInv (h : ShareInv c) (hn : c.n ≠ 0) (env : Env)
    (k : Fin maxSessions) : ShareInv (roastTryAggregate c env k) := by
  unfold roastTryAggregate
  split
  · exact h
  · exact onAggregate_shareInv h hn env k _

theorem expireSlot_shareInv (h : ShareInv c) (now : Nat) (env : Env) (k : Fin maxSessions) :
    ShareInv (expireSlot c now env k) := by
  unfold expireSlot
  split
  · exact h
  next hst =>
  split
  · exact h
  have hr := expireMembers_recOnly c k
  have hn : (expireMembers c k).n ≠ 0 := by
    rw [recOnly_n hr rfl]
    exact fun h0 => (h.fresh h0).2 k (by simpa using hst)
  exact tryForm_shareInv ((h.closeSession k (p := .failed) nofun).recOnly hr) hn env

theorem roastExpireSessions_shareInv (h : ShareInv c) (now : Nat) (env : Fin maxSessions → Env) :
    ShareInv (roastExpireSessions c now env) := by
  unfold roastExpireSessions
  exact foldl_invariant (I := ShareInv) (fun _ k _ h => expireSlot_shareInv h now (env k) k) h

/-! ## Filing a share -/

/-- A first, non-empty share fills one more slot. -/
theorem filled_update {s : RoastSession} {slot i : Nat} {share : Bytes}
    (hs : s.signerIds[slot]? = some i) (hne : share ≠ []) (he : s.shares slot = []) (n : Nat) :
    ({ s with shares := Function.update s.shares slot share, nShares := n } : RoastSession).filled =
      s.filled + 1 := by
  have hlt : slot < s.signerIds.length := by
    obtain ⟨h, -⟩ := List.getElem?_eq_some_iff.mp hs
    exact h
  refine countP_add_one (a := slot) List.nodup_range (List.mem_range.mpr hlt) ?_ ?_ ?_
  · simp [he]
  · simpa [List.length_pos_iff] using hne
  · intro b _ hb
    simp [Function.update_of_ne hb]

/-- Any other share fills no further slot. -/
theorem filled_update_le {s : RoastSession} {slot : Nat} {share : Bytes}
    (h : share = [] ∨ s.shares slot ≠ []) (n : Nat) :
    ({ s with shares := Function.update s.shares slot share, nShares := n } : RoastSession).filled ≤
      s.filled := by
  refine List.countP_mono_left fun j _ hj => ?_
  simp only [decide_eq_true_eq] at hj ⊢
  by_cases e : j = slot
  · subst e
    rw [Function.update_self] at hj
    rcases h with h | h
    · rw [h] at hj; cases hj
    · exact List.length_pos_iff.mpr h
  · rwa [Function.update_of_ne e] at hj

/-- In a session counted right, exactly the first, non-empty shares keep the count right. -/
theorem fileShare_counted_iff {i : Nat} {f : Frame} {k : Fin maxSessions} {slot : Nat}
    (h : (c.sessions k).nShares = (c.sessions k).filled) (ht : ShareTarget c i f k slot) :
    ((fileShare c k slot i f.payload).sessions k).nShares =
        ((fileShare c k slot i f.payload).sessions k).filled ↔
      f.payload ≠ [] ∧ (c.sessions k).shares slot = [] := by
  rw [fileShare_session]
  constructor
  · intro heq
    by_contra hno
    have hor : f.payload = [] ∨ (c.sessions k).shares slot ≠ [] := by tauto
    have hle := filled_update_le hor ((c.sessions k).nShares + 1)
    rw [← heq] at hle
    have : (c.sessions k).nShares + 1 ≤ (c.sessions k).filled := hle
    omega
  · rintro ⟨hne, he⟩
    rw [filled_update ht.slot hne he, ← h]

theorem fileShare_shareInv (h : ShareInv c) {i : Nat} {f : Frame} {k : Fin maxSessions}
    {slot : Nat} (ht : ShareTarget c i f k slot) (hne : f.payload ≠ [])
    (he : (c.sessions k).shares slot = []) : ShareInv (fileShare c k slot i f.payload) := by
  refine ShareInv.recOnly (h.setSession k fun hk => ⟨?_, ?_⟩) (setSg_sgOnly ..).recOnly
  · exact fun h0 => (h.fresh h0).2 k ht.open'
  · obtain ⟨hsize, hnd, hcount⟩ := h.sess k ht.open'
    refine ⟨hsize, hnd, ?_⟩
    rw [filled_update ht.slot hne he]
    show (c.sessions k).nShares + 1 = _
    rw [hcount]

theorem onSigShare_shareInv (h : ShareInv c) (env : Env) {i : Nat} {f : Frame}
    (hf : ∀ p ∈ shareTarget c i f, f.payload ≠ [] ∧ (c.sessions p.1).shares p.2 = []) :
    ShareInv (onSigShare c env i f) := by
  unfold onSigShare
  split
  · exact h
  next k slot e =>
  have ht := shareTarget_some c e
  obtain ⟨hne, he⟩ := hf (k, slot) e
  have h1 := fileShare_shareInv h ht hne he
  dsimp only
  split
  · exact roastTryAggregate_shareInv h1 (fun h0 => (h.fresh h0).2 k ht.open') env k
  · exact h1

/-! ## Steps and runs -/

theorem processSignerFrame_shareInv (h : ShareInv c) (env : Env) {i : Nat} {f : Frame}
    (hi : i ∈ c.signers) (hf : FilesOnce c (.frame i f env)) :
    ShareInv (processSignerFrame c env i f) := by
  have hn : c.n ≠ 0 := fun h0 => by rw [(h.fresh h0).1] at hi; cases hi
  by_cases hs : MsgType.signing f.type = false
  · exact h.ceremonyOnly (processSignerFrame_ceremonyOnly c env i f hs)
  unfold processSignerFrame
  cases e : f.type with
  | commit =>
    dsimp only
    unfold onCommit
    split; · exact h
    split; · exact h
    split; · exact h
    split; · exact h
    have hr := (setSg_sgOnly c i fun r =>
      { r with commit := f.payload, commitSig := f.sig, signPhase := .committed }).recOnly
    exact tryForm_shareInv (h.recOnly hr) (by rw [recOnly_n hr rfl]; exact hn) env
  | sigShare => exact onSigShare_shareInv h env (hf hi e)
  | shareLoadFail => exact h.recOnly (setSg_sgOnly ..).recOnly
  | _ => rw [e] at hs; exact absurd rfl hs

theorem prepareTbs_shareInv (h : ShareInv c) (env : TbsEnv) : ShareInv (prepareTbs c env).1 := by
  obtain ⟨d, tbs, hex, e | e⟩ := prepareTbs_cases c env
  · rw [e]; exact h.congr rfl rfl rfl rfl
  · rw [e]
    refine ⟨h.distinct, fun h0 => ⟨(h.fresh h0).1, fun k hk => ?_⟩, fun k hk => ?_⟩ <;> cases hk

theorem exitIfQuiet_shareInv (h : ShareInv c) : ShareInv (exitIfQuiet c) := by
  unfold exitIfQuiet
  split
  · exact h.congr rfl rfl rfl rfl
  · exact h

theorem loopHead_shareInv (h : ShareInv c) (env : TbsEnv) : ShareInv (loopHead c env) := by
  unfold loopHead
  split
  · exact exitIfQuiet_shareInv h
  split
  · split
    · have h1 : ShareInv (advanceSerial c) := h.congr rfl rfl rfl rfl
      have h2 : ShareInv (resume (prepareTbs (advanceSerial c) env).1) :=
        (prepareTbs_shareInv h1 env).congr rfl rfl rfl rfl
      exact h2.recOnly (broadcastSignReq_sgOnly _).recOnly
    · exact exitIfQuiet_shareInv h
  split
  · exact exitIfQuiet_shareInv h
  · exact h

theorem onHello_shareInv (h : ShareInv c) (env : HelloEnv) (payload : Bytes) :
    ShareInv (onHello c env payload).1 := by
  rcases onHello_cases c env payload with e | ⟨pid, pn, pt, hp, hnt, e⟩
  · rw [e]; exact h
  have h1 : ShareInv { c with n := pn, t := pt } := by
    rcases hnt with h0 | ⟨rfl, rfl⟩
    · obtain ⟨hs, hk⟩ := h.fresh h0
      exact ⟨h.distinct, fun _ => ⟨hs, hk⟩, fun k hst => absurd hst (hk k)⟩
    · exact h
  rcases e with e | ⟨hnew, e, -⟩
  · rw [e]; exact h1
  rw [e]
  refine ShareInv.ceremonyOnly ?_ (promote_flowOnly _ pid).ceremonyOnly
  have hpn : pn ≠ 0 := by
    intro h0
    subst h0
    unfold parseHello at hp
    split at hp
    · cases hp
    split at hp
    · cases hp
    · next hr => cases hp; simp at hr
  refine ⟨List.nodup_cons.mpr ⟨hnew, h.distinct⟩, fun h0 => absurd h0 hpn, h1.sess⟩

/-- **The accounting is kept** by every step that files first, non-empty shares. -/
theorem step_shareInv (e : Event) (h : ShareInv c) (hf : FilesOnce c e) : ShareInv (step c e) := by
  unfold step
  split; · exact h
  cases e with
  | loopHead env => exact loopHead_shareInv h env
  | expire now env =>
    dsimp only
    split
    · exact roastExpireSessions_shareInv h now env
    · exact h
  | hello env payload => exact onHello_shareInv h env payload
  | drain i =>
    dsimp only
    split
    · exact h.recOnly (setSg_sgOnly ..).recOnly
    · exact h
  | disconnect i =>
    dsimp only
    split
    · refine ⟨h.distinct.filter _, fun h0 => ⟨?_, (h.fresh h0).2⟩, h.sess⟩
      show c.signers.filter _ = []
      rw [(h.fresh h0).1]; rfl
    · exact h
  | frame i f env =>
    dsimp only
    split
    · next hi => exact processSignerFrame_shareInv h env hi hf
    · exact h

theorem started_shareInv (h : Started c) : ShareInv c := by
  have hboot (mode : CoordMode) (n t serial secs toMint : Nat) (pk : Bytes) (file : Option Bytes) :
      ShareInv (Coord.boot mode n t serial secs toMint pk file) :=
    ⟨List.nodup_nil, fun _ => ⟨rfl, fun _ h => nomatch h⟩, fun _ h => nomatch h⟩
  cases h with
  | dkg => exact hboot ..
  | refresh => exact hboot ..
  | sign n t serial secs toMint file env _ _ _ _ _ hp =>
    have := prepareTbs_shareInv (hboot .sign n t serial secs toMint file (some file)) env
    rw [hp] at this
    exact this

/-! ## What `aggregate` reads -/

/-- The session whose shares a step hands to `aggregate`, and the stdin. -/
def aggregateCall (c : Coord) : Event → Option (Fin maxSessions × AggregateInput)
  | .frame i f _ =>
    if c.exited ∨ i ∉ c.signers ∨ f.type ≠ .sigShare then none
    else match shareTarget c i f with
      | none => none
      | some (k, slot) =>
        let c := fileShare c k slot i f.payload
        if (c.sessions k).nShares ≥ c.t then (aggregateStdin c k).map (k, ·) else none
  | _ => none

/-- What holds where a call is made. -/
structure CallAt (c : Coord) (i : Nat) (f : Frame) (k : Fin maxSessions) (slot : Nat) : Prop where
  running : ¬ c.exited
  registered : i ∈ c.signers
  type : f.type = .sigShare
  target : shareTarget c i f = some (k, slot)
  enough : ((fileShare c k slot i f.payload).sessions k).nShares ≥ c.t
  notDone : c.signingDone = false

theorem aggregateCall_some {e : Event} {k : Fin maxSessions} {stdin : AggregateInput}
    (h : aggregateCall c e = some (k, stdin)) : ∃ i f env slot, e = .frame i f env ∧
      CallAt c i f k slot ∧
      stdin = aggregateInput c ((fileShare c k slot i f.payload).sessions k) := by
  cases e with
  | frame i f env =>
    unfold aggregateCall at h
    dsimp only at h
    split at h; · cases h
    next hg =>
    simp only [not_or, not_not] at hg
    split at h; · cases h
    next k' slot e =>
    split at h
    · next hge =>
      obtain ⟨st, hst, heq⟩ := Option.map_eq_some_iff.mp h
      cases heq
      unfold aggregateStdin at hst
      split at hst; · cases hst
      next hd =>
      cases hst
      rw [Bool.not_eq_true, Bool.or_eq_false_iff] at hd
      exact ⟨i, f, env, slot, rfl, ⟨hg.1, hg.2.1, hg.2.2, e, hge, hd.2⟩, rfl⟩
    · cases h
  | _ => cases h

/-- Where a call is made, its answer decides what the step does. -/
theorem step_of_aggregateCall {i : Nat} {f : Frame} {env : Env} {k : Fin maxSessions}
    {stdin : AggregateInput} (h : aggregateCall c (.frame i f env) = some (k, stdin)) :
    ∃ slot, shareTarget c i f = some (k, slot) ∧ step c (.frame i f env) =
      onAggregate (fileShare c k slot i f.payload) env k (env.aggregate stdin) := by
  obtain ⟨i', f', env', slot, heq, hat, rfl⟩ := aggregateCall_some h
  cases heq
  refine ⟨slot, hat.target, ?_⟩
  have hst : aggregateStdin (fileShare c k slot i f.payload) k =
      some (aggregateInput c ((fileShare c k slot i f.payload).sessions k)) := by
    unfold aggregateStdin
    rw [if_neg]
    · rfl
    · have hge := hat.enough
      have hd : (fileShare c k slot i f.payload).signingDone = false := hat.notDone
      rw [hd, Bool.or_false, decide_eq_true_eq]
      show ¬ _ < c.t
      omega
  unfold step processSignerFrame onSigShare roastTryAggregate
  simp only [hat.running, hat.registered, hat.type, hat.target, hst]
  exact if_pos hat.enough

theorem aggregateInput_share_ne {s : RoastSession} {p : Nat × Bytes}
    (h : p ∈ (aggregateInput c s).shares) : p.2 ≠ [] := by
  obtain ⟨j, -, hj⟩ := List.mem_filterMap.mp h
  split at hj; · cases hj
  next hlen =>
  obtain ⟨id, -, rfl⟩ := Option.map_eq_some_iff.mp hj
  intro h
  exact hlen (congrArg List.length h)

/-- A session counted right that holds `t` shares hands over one line for each member. -/
theorem aggregateInput_full {s : RoastSession} (h : SessOk c.t s) (ht : c.t ≤ s.nShares) :
    (aggregateInput c s).shares.map Prod.fst = s.signerIds := by
  have hall : ∀ i ∈ List.range s.signerIds.length, 0 < (s.shares i).length := by
    have hle : s.filled ≤ s.signerIds.length := by
      have := List.countP_le_length (p := fun i => decide (0 < (s.shares i).length))
        (l := List.range s.signerIds.length)
      rwa [List.length_range] at this
    have heq : s.filled = (List.range s.signerIds.length).length := by
      have := h.size; have := h.counted
      rw [List.length_range]; omega
    intro i hi
    simpa using List.countP_eq_length.mp heq i hi
  calc (aggregateInput c s).shares.map Prod.fst
      = (List.range s.signerIds.length).filterMap (fun i => s.signerIds[i]?) := by
        show ((List.range s.signerIds.length).filterMap _).map _ = _
        rw [List.map_filterMap]
        refine List.filterMap_congr fun i hi => ?_
        rw [if_neg (by have := hall i hi; omega)]
        cases s.signerIds[i]? <;> rfl
    _ = s.signerIds := filterMap_getElem?_range _

/-! ## The claim, and a run that breaks it -/

/-- **Share accounting.** Along every run whose filed shares are non-empty and
first of their sender, `n_shares` of an open session counts its filled slots,
and `aggregate` reads one share of each of `g_t` distinct members. The next
share that is not so breaks the count. -/
theorem share_accounting {c₀ : Coord} (h0 : Started c₀) {es : List Event}
    (hes : Along step FilesOnce c₀ es) :
    (∀ k, ((run step c₀ es).sessions k).state = .awaitingShares →
      ((run step c₀ es).sessions k).nShares = ((run step c₀ es).sessions k).filled) ∧
    (∀ e k stdin, FilesOnce (run step c₀ es) e →
      aggregateCall (run step c₀ es) e = some (k, stdin) →
      stdin.shares.length = (run step c₀ es).t ∧ (stdin.shares.map Prod.fst).Nodup ∧
        ∀ p ∈ stdin.shares, p.1 ∈ ((run step c₀ es).sessions k).signerIds ∧ p.2 ≠ []) ∧
    ∀ i f k slot, shareTarget (run step c₀ es) i f = some (k, slot) →
      (((fileShare (run step c₀ es) k slot i f.payload).sessions k).nShares =
          ((fileShare (run step c₀ es) k slot i f.payload).sessions k).filled ↔
        f.payload ≠ [] ∧ ((run step c₀ es).sessions k).shares slot = []) := by
  have hinv : ShareInv (run step c₀ es) :=
    Along.invariant (fun c e h hf => step_shareInv e h hf) (started_shareInv h0) hes
  generalize run step c₀ es = c at hinv
  refine ⟨fun k hk => (hinv.sess k hk).counted, fun e k stdin hf hcall => ?_,
    fun i f k slot e => ?_⟩
  rotate_left
  · have ht := shareTarget_some c e
    exact fileShare_counted_iff (hinv.sess k ht.open').counted ht
  obtain ⟨i, f, env, slot, rfl, hat, rfl⟩ := aggregateCall_some hcall
  have htgt := shareTarget_some c hat.target
  obtain ⟨hne, hemp⟩ := hf hat.registered hat.type (k, slot) hat.target
  have hopen : ((fileShare c k slot i f.payload).sessions k).state = .awaitingShares := by
    rw [fileShare_session]; exact htgt.open'
  have hids : ((fileShare c k slot i f.payload).sessions k).signerIds =
      (c.sessions k).signerIds := by rw [fileShare_session]
  have hok := (fileShare_shareInv hinv htgt hne hemp).sess k hopen
  have hfull : (aggregateInput c ((fileShare c k slot i f.payload).sessions k)).shares.map
      Prod.fst =
      ((fileShare c k slot i f.payload).sessions k).signerIds :=
    aggregateInput_full hok hat.enough
  refine ⟨?_, ?_, fun p hp => ⟨?_, aggregateInput_share_ne hp⟩⟩
  · calc _ = ((aggregateInput c _).shares.map Prod.fst).length := (List.length_map ..).symm
      _ = c.t := by rw [hfull]; exact hok.size
  · rw [hfull]; exact hok.distinct
  · rw [← hids, ← hfull]; exact List.mem_map_of_mem hp

/-! A small ceremony to run: subprocesses that answer the same every time. -/

def quietEnv : Env where
  assemble := fun _ => some []
  aggregate := fun _ => .failed
  mint := fun _ => none
  pubPkgWritable := true
  now := 0

def sampleTbs : TbsEnv where
  now := 0
  callTbs := fun _ _ _ => .ok [] (List.replicate 32 0)
  caKey := some (Vector.replicate 32 0)

/-- The coordinator at the head of its loop in sign mode. -/
def signStart (n t toMint : Nat) : Coord :=
  (prepareTbs (Coord.boot .sign n t 1 86400 toMint [1] (some [1])) sampleTbs).1

theorem signStart_started {n t toMint : Nat} (hn : n < 65536) (ht : t < 65536)
    (hm : toMint < 2 ^ 64) : Started (signStart n t toMint) :=
  .sign n t 1 86400 toMint [1] sampleTbs hn ht (by decide) hm (by decide) rfl

def joins (id n t : Nat) :
    Event := .hello ⟨fun _ => true, fun _ => true⟩ (printThree helloWord id n t)

def sends (id : Nat) (type : MsgType) (payload : Bytes) : Event :=
  .frame id ⟨type, List.replicate frameSigSize 0, payload⟩ quietEnv

/-- Signers 1 and 2 register and commit; a session opens. -/
def openingRun : List Event :=
  [joins 1 2 2, joins 2 2 2, sends 1 .commit [1], sends 2 .commit [2]]

def firstSlot : Fin maxSessions := ⟨0, by decide⟩

/-- Signer 1 answers twice: two shares counted, one slot filled, and `aggregate`
is started with one line where it reads two. An empty share does the same. -/
theorem duplicate_share_miscounted :
    let c := run step (signStart 2 2 1) (openingRun ++ [sends 1 .sigShare [9]])
    let c' := run step (signStart 2 2 1) (openingRun ++ [sends 1 .sigShare []])
    Started (signStart 2 2 1) ∧ c.mode = .sign ∧ c.t = 2 ∧
      (aggregateCall c (sends 1 .sigShare [9])).map (fun p => p.2.shares.length) = some 1 ∧
      c'.mode = .sign ∧ (c'.sessions firstSlot).state = .awaitingShares ∧
      (c'.sessions firstSlot).nShares ≠ (c'.sessions firstSlot).filled :=
  ⟨signStart_started (by decide) (by decide) (by decide), by decide +kernel⟩

/-- Two different members answer once each. -/
theorem share_accounting_run :
    let c := run step (signStart 2 2 1) (openingRun ++ [sends 1 .sigShare [9]])
    (c.sessions firstSlot).nShares = (c.sessions firstSlot).filled ∧
      (aggregateCall c (sends 2 .sigShare [8])).map (fun p => p.2.shares.length) = some c.t := by
  have hrun : Along step FilesOnce (signStart 2 2 1) (openingRun ++ [sends 1 .sigShare [9]]) := by
    decide +kernel
  have h := share_accounting (signStart_started (by decide) (by decide) (by decide)) hrun
  exact ⟨h.1 firstSlot (by decide +kernel), by decide +kernel⟩

end FrostSshCa.Coordinator
