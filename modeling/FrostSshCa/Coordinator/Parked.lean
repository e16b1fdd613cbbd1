import FrostSshCa.Coordinator.Table

/-!
# Where the signers of a session are

A signer the coordinator waits for, or has a share of, is a member of the session
its record names, and that session is open or complete. Signer records and
session records are separate tables, linked by ids only: closing a session leaves
its members behind until the same block of the code has reset or blacklisted each
of them. `Places B u X` is the invariant with the exceptions `X`.
-/

namespace FrostSshCa.Coordinator

open Lib

/-! ## Numbering -/

/-- The first `u` slots are used, by the sessions formed after the first `B`. -/
structure Numbered (c : Coord) (B u : Nat) : Prop where
  slots : UsedTo c u
  bound : u ≤ maxSessions
  ids : ∀ k, k.val < u → (c.sessions k).id = (B + k.val + 1) % 2 ^ 32
  zero : ∀ k, ¬ k.val < u → (c.sessions k).id = 0
  next : c.nextSessionId = (B + u + 1) % 2 ^ 32

/-- The sessions a step forms: the slots it fills. -/
def formed (c : Coord) (e : Event) : Nat :=
  (List.finRange maxSessions).countP fun k =>
    (c.sessions k).state = .empty && ((step c e).sessions k).state ≠ .empty

/-- The sessions formed along a run. -/
def sessionsFormed : Coord → List Event → Nat
  | _, [] => 0
  | c, e :: es => formed c e + sessionsFormed (step c e) es

variable {c c' : Coord} {B u : Nat}

theorem Numbered.congr (h : Numbered c B u) (hs : c'.sessions = c.sessions)
    (hn : c'.nextSessionId = c.nextSessionId) : Numbered c' B u := by
  refine ⟨h.slots.congr hs hn, h.bound, ?_, ?_, ?_⟩
  · rw [hs]; exact h.ids
  · rw [hs]; exact h.zero
  · rw [hn]; exact h.next

theorem Numbered.setSession (h : Numbered c B u) (k : Fin maxSessions)
    {g : RoastSession → RoastSession} (hid : (g (c.sessions k)).id = (c.sessions k).id)
    (hst : (g (c.sessions k)).state ≠ .empty ↔ (c.sessions k).state ≠ .empty) :
    Numbered (c.setSession k g) B u := by
  have hid' (j : Fin maxSessions) : ((c.setSession k g).sessions j).id = (c.sessions j).id := by
    by_cases e : j = k
    · subst e; rw [Coord.setSession_self]; exact hid
    · rw [Coord.setSession_of_ne e]
  refine ⟨h.slots.setSession k hid hst, h.bound, fun j hj => ?_, fun j hj => ?_, h.next⟩
  · rw [hid']; exact h.ids j hj
  · rw [hid']; exact h.zero j hj

theorem Numbered.fill (h : Numbered c B u) {k : Fin maxSessions} (hk : roastAlloc c = some k)
    (chosen : List Nat) (spkg : Bytes) (now : Nat) :
    Numbered (fillSlot c k chosen spkg now) B (u + 1) := by
  have hku := h.slots.alloc hk
  have hlt := k.isLt
  have hval {j : Fin maxSessions} (e : j ≠ k) :
      j.val ≠ u := fun e' => e (Fin.ext (e'.trans hku.symm))
  refine ⟨h.slots.fill hk chosen spkg now, by omega, fun j hj => ?_, fun j hj => ?_, ?_⟩
  · by_cases e : j = k
    · subst e
      rw [fillSlot_self, hku]
      exact h.next
    · have := hval e
      rw [fillSlot_of_ne e]
      exact h.ids j (by omega)
  · have hne : j ≠ k := by
      rintro rfl
      omega
    rw [fillSlot_of_ne hne]
    exact h.zero j (by omega)
  · show (c.nextSessionId + 1) % 2 ^ 32 = _
    rw [h.next]
    omega

/-- Below 2^32 sessions, an id of a used slot is the id of no other slot. -/
theorem Numbered.unique (h : Numbered c B u) (hN : B + u < 2 ^ 32) {j k : Fin maxSessions}
    (hk : (c.sessions k).state ≠ .empty) (e : (c.sessions j).id = (c.sessions k).id) : j = k := by
  have hku := (h.slots.used k).mp hk
  by_cases hju : j.val < u
  · exact h.slots.inj ((h.slots.used j).mpr hju) hk e
  · have h1 := h.ids k hku
    rw [h.zero j hju] at e
    omega

/-- Where the table has only grown, the slots filled are the difference. -/
theorem Numbered.formed_eq {e : Event} {u' : Nat} (h : Numbered c B u)
    (h' : Numbered (step c e) B u') : formed c e = u' - u := by
  have hp (k : Fin maxSessions) : ((c.sessions k).state = .empty &&
      ((step c e).sessions k).state ≠ .empty) = decide (u ≤ k.val ∧ k.val < u') := by
    have h1 := h.slots.used k
    have h2 := h'.slots.used k
    by_cases e1 : (c.sessions k).state = .empty
    · by_cases e2 : ((step c e).sessions k).state = .empty
      · simp only [e1, e2, ne_eq, not_true_eq_false, false_iff] at h1 h2 ⊢
        simp [h2]
      · simp only [e1, e2, ne_eq, not_true_eq_false, false_iff, not_false_eq_true,
          true_iff] at h1 h2 ⊢
        simp [h2]; omega
    · simp only [e1, ne_eq, not_false_eq_true, true_iff] at h1
      simp [e1]; omega
  have hcount := countP_finRange_between u u' maxSessions
  unfold formed
  rw [List.countP_congr fun k _ => by rw [hp k]]
  have hb := h.bound
  have hb' := h'.bound
  rw [Nat.min_eq_left hb, Nat.min_eq_left hb'] at hcount
  exact hcount

/-! ## The invariant and its exceptions -/

/-- The coordinator waits for a share of this signer, or has one. -/
def SignerRec.Parked (r : SignerRec) : Prop := r.signPhase = .inSession ∨ r.signPhase = .shared

/-- Session `k` is the one `i` was last assigned to; it lists `i` and is not dead. -/
structure InSession (c : Coord) (i : Nat) (k : Fin maxSessions) : Prop where
  id : (c.sessions k).id = (c.sg i).sessionId
  member : i ∈ (c.sessions k).signerIds
  live : (c.sessions k).state = .awaitingShares ∨ (c.sessions k).state = .complete

/-- In sign mode, with `u₀` slots or more in use: every registered signer is in a
session if it is parked, the blacklisted and those of `X` excepted. -/
structure Places (B u₀ : Nat) (X : Nat → Prop) (c : Coord) : Prop where
  mode : c.mode = .sign
  dkgState : c.dkgState ≠ .collectingR1
  distinct : c.signers.Nodup
  slots : ∃ u, u₀ ≤ u ∧ Numbered c B u
  placed : ∀ i ∈ c.signers, ¬ X i → isBlacklisted c i = false → (c.sg i).Parked →
    ∃ k, InSession c i k

variable {u₀ : Nat} {X Y : Nat → Prop}

/-- Same sessions, and every record keeps its place or is parked no more. -/
theorem Places.quiet (h : Places B u₀ X c) (hf : Framed c c') (hs : c'.sessions = c.sessions)
    (hn : c'.nextSessionId = c.nextSessionId)
    (hsg : ∀ i ∈ c.signers, ¬ Y i → (c'.sg i).Parked →
      ¬ X i ∧ (c.sg i).Parked ∧ (c'.sg i).sessionId = (c.sg i).sessionId) : Places B u₀ Y c' := by
  obtain ⟨u, hu, hnum⟩ := h.slots
  refine ⟨hf.mode.trans h.mode, hf.notCollecting h.dkgState, hf.signers ▸ h.distinct,
    ⟨u, hu, hnum.congr hs hn⟩, fun i hi hY hb hp => ?_⟩
  rw [hf.signers] at hi
  obtain ⟨hX, hp', hid⟩ := hsg i hi hY hp
  have hb' : isBlacklisted c i = false := by
    cases e : isBlacklisted c i with
    | false => rfl
    | true => rw [hf.blacklist i e] at hb; cases hb
  obtain ⟨k, hk⟩ := h.placed i hi hX hb' hp'
  refine ⟨k, ?_, ?_, ?_⟩
  · rw [hs, hid]; exact hk.id
  · rw [hs]; exact hk.member
  · rw [hs]; exact hk.live

theorem Places.mono (h : Places B u₀ X c) (hXY : ∀ i, X i → Y i) : Places B u₀ Y c :=
  ⟨h.mode, h.dkgState, h.distinct, h.slots, fun i hi hY => h.placed i hi fun hX => hY (hXY i hX)⟩

theorem RecIdle.parked {r r' : SignerRec} (h : RecIdle r r') :
    (r'.Parked → r.Parked) ∧ r'.sessionId = r.sessionId := by
  have hv := h.view
  simp only [SignerRec.signView, Prod.mk.injEq] at hv
  exact ⟨fun hp => by unfold SignerRec.Parked at hp ⊢; rwa [hv.2.2.1] at hp, hv.2.2.2⟩

theorem Places.idle (h : Places B u₀ X c) (hi : Idle c c') : Places B u₀ X c' := by
  refine h.quiet (Link.framed (S := .all) (.idle hi)) hi.sessions hi.nextSessionId ?_
  intro i _ hX hp
  obtain ⟨h1, h2⟩ := (hi.sg i).parked
  exact ⟨hX, h1 hp, h2⟩

/-- A signer that is asked again is no exception any more. -/
theorem Places.request (h : Places B u₀ X c) (id : Nat) {p : SPhase}
    (hp : p = .init ∨ p = .suspect) : Places B u₀ (fun i => X i ∧ i ≠ id)
    (requestCommit c p id) := by
  obtain ⟨_, e⟩ := requestCommit_sgOnly c p id
  refine h.quiet (requestCommit_sgOnly c p id).framed (by rw [e]) (by rw [e]) ?_
  intro i _ hX hpk
  by_cases hid : i = id
  · subst hid
    rw [requestCommit_self] at hpk
    rcases hp with rfl | rfl <;> rcases hpk with hpk | hpk <;> cases hpk
  · rw [requestCommit_of_ne hid] at hpk ⊢
    exact ⟨fun hXi => hX ⟨hXi, hid⟩, hpk, rfl⟩

/-- Nor is one that is blacklisted. -/
theorem Places.black (h : Places B u₀ X c) (id : Nat) : Places B u₀ (fun i => X i ∧ i ≠ id)
    (setPhase (blacklistSigner c id) id .blacklisted) := by
  obtain ⟨_, _, _, e⟩ := (blacklistSigner_recOnly c id).trans
    (setPhase_sgOnly _ id .blacklisted).recOnly
  refine h.quiet (Link.framed (S := .all) (.black trivial)) (by rw [e]) (by rw [e]) ?_
  intro i hi hX hpk
  rw [blacklist_sg] at hpk ⊢
  by_cases hid : i = id
  · subst hid
    rw [if_pos ⟨rfl, hi⟩] at hpk
    rcases hpk with hpk | hpk <;> cases hpk
  · have hne : ¬ (i = id ∧ id ∈ c.signers) := fun h => hid h.1
    rw [if_neg hne] at hpk ⊢
    exact ⟨fun hXi => hX ⟨hXi, hid⟩, hpk, rfl⟩

/-- An id that is not registered is no exception. -/
theorem Places.absent (h : Places B u₀ X c) {id : Nat} (hid : id ∉ c.signers) :
    Places B u₀ (fun i => X i ∧ i ≠ id) c :=
  ⟨h.mode, h.dkgState, h.distinct, h.slots, fun i hi hX => h.placed i hi fun hXi =>
    hX ⟨hXi, fun e => hid (e ▸ hi)⟩⟩

theorem Places.strike (h : Places B u₀ X c) (id : Nat) : Places B u₀ X (addStrike c id) := by
  obtain ⟨_, _, _, e⟩ := addStrike_recOnly c id
  refine h.quiet (Link.framed (S := .all) (.strike trivial)) (by rw [e]) (by rw [e]) ?_
  intro i _ hX hp
  rw [addStrike_sg] at hp ⊢
  exact ⟨hX, hp, rfl⟩

/-- A fold that takes care of one member after the other leaves no exception. The
exceptions are among `P` throughout. -/
theorem Places.clear {α : Type} {g : Coord → α → Coord} {m : α → Nat} {P : Nat → Prop}
    {l : List α} (hg : ∀ c, ∀ a ∈ l, ∀ X : Nat → Prop, (∀ i, X i → P i) → Places B u₀ X c →
      Places B u₀ (fun i => X i ∧ i ≠ m a) (g c a))
    (h : Places B u₀ X c) (hP : ∀ i, X i → P i) (hX : ∀ i, X i → i ∈ l.map m) :
    Places B u₀ (fun _ => False) (l.foldl g c) := by
  induction l generalizing c X with
  | nil => exact h.mono fun i hi => nomatch hX i hi
  | cons a l ih =>
    refine ih (fun c b hb => hg c b (List.mem_cons_of_mem _ hb))
      (hg c a (List.mem_cons_self ..) X hP h) (fun i hi => hP i hi.1) ?_
    intro i ⟨hi, hne⟩
    rcases List.mem_cons.mp (hX i hi) with e | hmem
    · exact absurd e hne
    · exact hmem

/-! ## The session blocks -/

/-- Failing an open session makes its members exceptions. -/
theorem Places.fail (h : Places B u₀ X c) {k : Fin maxSessions}
    (hk : (c.sessions k).state = .awaitingShares) :
    Places B u₀ (fun i => X i ∨ i ∈ (c.sessions k).signerIds) (c.closeSession k .failed) := by
  obtain ⟨u, hu, hnum⟩ := h.slots
  refine ⟨h.mode, h.dkgState, h.distinct, ⟨u, hu, hnum.setSession k rfl ?_⟩,
    fun i hi hX hb hp => ?_⟩
  · rw [hk]
    exact ⟨fun _ => nofun, fun _ => nofun⟩
  obtain ⟨j, hj⟩ := h.placed i hi (fun hXi => hX (.inl hXi)) hb hp
  have hne : j ≠ k := fun e => hX (.inr (e ▸ hj.member))
  have hses : (c.closeSession k .failed).sessions j = c.sessions j := Coord.setSession_of_ne hne _
  refine ⟨j, ?_, ?_, ?_⟩
  · rw [hses]; exact hj.id
  · rw [hses]; exact hj.member
  · rw [hses]; exact hj.live

theorem Places.complete (h : Places B u₀ X c) {k : Fin maxSessions}
    (hk : (c.sessions k).state = .awaitingShares) : Places B u₀ X (c.closeSession k .complete) := by
  obtain ⟨u, hu, hnum⟩ := h.slots
  refine ⟨h.mode, h.dkgState, h.distinct, ⟨u, hu, hnum.setSession k rfl ?_⟩,
    fun i hi hX hb hp => ?_⟩
  · rw [hk]
    exact ⟨fun _ => nofun, fun _ => nofun⟩
  obtain ⟨j, hj⟩ := h.placed i hi hX hb hp
  refine ⟨j, ?_⟩
  by_cases e : j = k
  · subst e
    have hses : (c.closeSession j .complete).sessions j =
        { c.sessions j with state := .complete } :=
      Coord.setSession_self j _
    refine ⟨?_, ?_, .inr ?_⟩
    · rw [hses]; exact hj.id
    · rw [hses]; exact hj.member
    · rw [hses]
  · have hses : (c.closeSession k .complete).sessions j = c.sessions j := Coord.setSession_of_ne e _
    refine ⟨?_, ?_, ?_⟩
    · rw [hses]; exact hj.id
    · rw [hses]; exact hj.member
    · rw [hses]; exact hj.live

/-- A new session takes an unused slot and lists all it is assigned to. -/
theorem Places.form (h : Places B u₀ X c) (env : Env) : Places B u₀ X (tryForm c env) := by
  rcases tryForm_cases c env with e | ⟨k, spkg, wire, hf, e⟩
  · rw [e]; exact h
  rw [e]
  obtain ⟨u, hu, hnum⟩ := h.slots
  obtain ⟨hempty, -⟩ := roastAlloc_some hf.slot
  obtain ⟨_, eo⟩ := openSession_sgOnly (c := c) k (chooseSigners c) spkg wire env.now
  have hses : (openSession c k (chooseSigners c) spkg wire env.now).sessions =
      (fillSlot c k (chooseSigners c) spkg env.now).sessions := by rw [eo]
  have hsg := fun i => openSession_sg (c := c)
      (chooseSigners_nodup c h.distinct) k spkg wire env.now i
  refine ⟨?_, ?_, ?_, ⟨u + 1, by omega, ?_⟩, fun i hi hX hb hp => ?_⟩
  · rw [eo]; exact h.mode
  · rw [eo]; exact h.dkgState
  · rw [eo]; exact h.distinct
  · exact (hnum.fill hf.slot (chooseSigners c) spkg env.now).congr hses (by rw [eo])
  by_cases hin : i ∈ chooseSigners c
  · refine ⟨k, ?_, ?_, .inl ?_⟩
    · rw [hses, fillSlot_self, hsg, if_pos hin]; rfl
    · rw [hses, fillSlot_self]; exact hin
    · rw [hses, fillSlot_self]; rfl
  · have hi' : i ∈ c.signers := by rw [eo] at hi; exact hi
    have hb' : isBlacklisted c i = false := by rw [eo] at hb; exact hb
    rw [hsg, if_neg hin] at hp
    obtain ⟨j, hj⟩ := h.placed i hi' hX hb' hp
    have hne : j ≠ k := by
      rintro rfl
      rcases hj.live with e' | e' <;> rw [e'] at hempty <;> cases hempty
    refine ⟨j, ?_, ?_, ?_⟩
    · rw [hses, fillSlot_of_ne hne, hsg, if_neg hin]; exact hj.id
    · rw [hses, fillSlot_of_ne hne]; exact hj.member
    · rw [hses, fillSlot_of_ne hne]; exact hj.live

/-- After a broadcast of requests only the blacklisted and the keyless are not in
phase `init`. -/
theorem broadcastSignReq_parked (hd : c.signers.Nodup) {i : Nat} (hi : i ∈ c.signers)
    (hb : isBlacklisted c i = false) : ¬ ((broadcastSignReq c).sg i).Parked := by
  rw [broadcastSignReq_sg hd]
  by_cases hk : (c.sg i).signPhase = .noKey
  · rw [if_neg fun h => h.2.2 hk]
    rintro (e | e) <;> rw [hk] at e <;> cases e
  · rw [if_pos ⟨hi, hb, hk⟩]
    rintro (e | e) <;> cases e

theorem Places.ask (h : Places B u₀ X c) : Places B u₀ (fun _ => False) (broadcastSignReq c) := by
  obtain ⟨_, e⟩ := broadcastSignReq_sgOnly c
  obtain ⟨u, hu, hnum⟩ := h.slots
  refine ⟨?_, ?_, ?_, ⟨u, hu, hnum.congr (by rw [e]) (by rw [e])⟩, fun i hi _ hb hp => ?_⟩
  · rw [e]; exact h.mode
  · rw [e]; exact h.dkgState
  · rw [e]; exact h.distinct
  · have hi' : i ∈ c.signers := by rw [e] at hi; exact hi
    have hb' : isBlacklisted c i = false := by rw [e] at hb; exact hb
    exact absurd hp (broadcastSignReq_parked h.distinct hi' hb')

/-! ## Failures and success -/

theorem Places.culprit (h : Places B u₀ (fun _ => False) c) {k : Fin maxSessions}
    (hk : (c.sessions k).state = .awaitingShares) (env : Env) (culprit : Nat) :
    Places B u₀ (fun _ => False) (roastFailCulprit c env k culprit) := by
  have h1 := (h.fail hk).black culprit
  have h2 : Places B u₀ (fun _ => False) (culpritReset c k culprit) := by
    refine h1.clear (m := id) (P := (· ≠ culprit)) ?_ (fun i hi => hi.2) ?_
    · intro d id _ Y hY hd
      split
      · exact hd.request id (.inl rfl)
      · next hno =>
        by_cases hreg : id ∈ d.signers
        · have hid : id = culprit := by_contra fun hne => hno ⟨hne, hreg⟩
          exact hd.mono fun i hi => ⟨hi, hid ▸ hY i hi⟩
        · exact hd.absent hreg
    · intro i ⟨hi, _⟩
      rw [List.map_id]
      exact hi.resolve_left id
  exact (h2.form env).idle (.of_sg_eq rfl rfl rfl rfl rfl rfl rfl rfl rfl (.inl rfl) rfl)

theorem Places.fallback (h : Places B u₀ (fun _ => False) c) {k : Fin maxSessions}
    (hk : (c.sessions k).state = .awaitingShares) :
    Places B u₀ (fun _ => False) (blacklistSession c k) := by
  have h1 : Places B u₀ (fun _ => False) (blacklistMembers c k) := by
    refine (h.fail hk).clear (m := id) (P := fun _ => True) ?_ (fun _ _ => trivial) ?_
    · intro d id _ Y _ hd
      exact hd.black id
    · intro i hi
      rw [List.map_id]
      exact hi.resolve_left id
  unfold blacklistSession
  dsimp only
  split
  · have hdone : Idle (blacklistMembers c k) { blacklistMembers c k with signingDone := true } :=
      .of_sg_eq rfl rfl rfl rfl rfl rfl rfl rfl rfl (.inl rfl) rfl
    exact (h1.idle hdone).ask
  · exact h1.ask

theorem Places.finish (h : Places B u₀ X c) {k : Fin maxSessions}
    (hk : (c.sessions k).state = .awaitingShares) (env : Env) (sig64 : Bytes) :
    Places B u₀ X (aggregateOk c env k sig64) := by
  have h1 : Places B u₀ X (finishSession c k) :=
    (h.complete hk).idle (.of_sg_eq rfl rfl rfl rfl rfl rfl rfl rfl rfl (.inl rfl) rfl)
  unfold aggregateOk callMint
  cases env.mint _ with
  | none => exact h1
  | some cert =>
    have h2 : Places B u₀ X (countCert (finishSession c k) cert) :=
      h1.idle (.of_sg_eq rfl rfl rfl rfl rfl rfl rfl rfl rfl (.inl rfl) rfl)
    exact h2.idle (broadcast_idle rfl _ _)

theorem Places.answer (h : Places B u₀ (fun _ => False) c) {k : Fin maxSessions}
    (hk : (c.sessions k).state = .awaitingShares) (env : Env) (r : AggregateResult) :
    Places B u₀ (fun _ => False) (onAggregate c env k r) := by
  cases r with
  | notRun => exact h
  | sig bytes =>
    dsimp only [onAggregate]
    split
    · exact h.fallback hk
    · exact h.finish hk env bytes
  | culprit id =>
    dsimp only [onAggregate]
    split
    · exact h.culprit hk env id
    · exact h.fallback hk
  | failed => exact h.fallback hk

theorem Places.expireMember (h : Places B u₀ X c) (k : Fin maxSessions) (i id : Nat) :
    Places B u₀ (fun j => X j ∧ j ≠ id) (expireMember c k i id) := by
  unfold Coordinator.expireMember
  split
  · split
    · exact h.request id (.inl rfl)
    · dsimp only
      split
      · exact (h.strike id).black id
      · exact (h.strike id).request id (.inr rfl)
  · next hid => exact h.absent hid

theorem Places.expire (h : Places B u₀ (fun _ => False) c) (now : Nat)
    (env : Fin maxSessions → Env) :
    Places B u₀ (fun _ => False) (roastExpireSessions c now env) := by
  refine foldl_invariant (I := Places B u₀ fun _ => False) (fun d k _ hd => ?_) h
  unfold expireSlot
  split; · exact hd
  next hst =>
  split; · exact hd
  refine Places.form ?_ (env k)
  refine (hd.fail (not_not.mp hst)).clear (m := Prod.fst) (P := fun _ => True) ?_
    (fun _ _ => trivial) ?_
  · intro d' p _ Y _ hd'
    exact hd'.expireMember k p.2 p.1
  · intro i hi
    rw [List.zipIdx_map_fst]
    exact hi.resolve_left id

/-! ## Frames and the other events -/

/-- A share is filed where its sender is listed. -/
theorem Places.file (h : Places B u₀ X c) {i slot : Nat} {f : Frame} {k : Fin maxSessions}
    (ht : ShareTarget c i f k slot) (share : Bytes) :
    Places B u₀ X (fileShare c k slot i share) := by
  obtain ⟨u, hu, hnum⟩ := h.slots
  have hopen := ht.open'
  have hid : (c.sessions k).id = (c.sg i).sessionId := by
    have := List.find?_some ht.found
    simpa using this
  -- the session keeps its id, its members and its state
  have hses (j : Fin maxSessions) : ((fileShare c k slot i share).sessions j).id =
      (c.sessions j).id ∧
      ((fileShare c k slot i share).sessions j).signerIds = (c.sessions j).signerIds ∧
      ((fileShare c k slot i share).sessions j).state = (c.sessions j).state := by
    by_cases e : j = k
    · subst e
      rw [fileShare_session]
      exact ⟨rfl, rfl, rfl⟩
    · rw [fileShare_session_of_ne e]
      exact ⟨rfl, rfl, rfl⟩
  refine ⟨h.mode, h.dkgState, h.distinct, ⟨u, hu, ?_⟩, fun j hj hX hb hp => ?_⟩
  · refine (hnum.setSession k (g := fun s =>
      { s with shares := Function.update s.shares slot share, nShares := s.nShares + 1 })
        rfl ?_).congr
      rfl rfl
    exact Iff.rfl
  by_cases e : j = i
  · subst e
    refine ⟨k, ?_, ?_, .inl ?_⟩
    · rw [(hses k).1]
      unfold fileShare
      rw [Coord.setSg_self]
      exact hid
    · rw [(hses k).2.1]
      exact List.mem_of_getElem? ht.slot
    · rw [(hses k).2.2]
      exact hopen
  · have hsg : (fileShare c k slot i share).sg j = c.sg j := Coord.setSg_of_ne e _
    rw [hsg] at hp
    obtain ⟨l, hl⟩ := h.placed j hj hX hb hp
    refine ⟨l, ?_, ?_, ?_⟩
    · rw [(hses l).1, hsg]; exact hl.id
    · rw [(hses l).2.1]; exact hl.member
    · rw [(hses l).2.2]; exact hl.live

/-- A record update that does not park the signer. -/
theorem Places.setSg (h : Places B u₀ X c) (i : Nat) {g : SignerRec → SignerRec}
    (hg : ¬ (g (c.sg i)).Parked) : Places B u₀ X (c.setSg i g) := by
  refine h.quiet (setSg_sgOnly c i g).framed rfl rfl ?_
  intro j _ hX hp
  by_cases e : j = i
  · subst e
    rw [Coord.setSg_self] at hp
    exact absurd hp hg
  · rw [Coord.setSg_of_ne e] at hp ⊢
    exact ⟨hX, hp, rfl⟩

theorem Places.frame (h : Places B u₀ (fun _ => False) c) (env : Env) (i : Nat) (f : Frame) :
    Places B u₀ (fun _ => False) (processSignerFrame c env i f) := by
  by_cases hs : MsgType.signing f.type = true
  · unfold processSignerFrame
    cases e : f.type with
    | commit =>
      dsimp only
      rcases onCommit_cases c env i f with e' | ⟨-, e'⟩
      · rw [e']; exact h
      · rw [e']
        refine Places.form (h.setSg i ?_) env
        rintro (hp | hp) <;> cases hp
    | sigShare =>
      dsimp only
      rcases onSigShare_cases c env i f with e' | ⟨k, slot, ht, e' | ⟨stdin, -, -, e'⟩⟩
      · rw [e']; exact h
      · rw [e']; exact h.file (shareTarget_some c ht) _
      · have ht' := shareTarget_some c ht
        have hopen : ((fileShare c k slot i f.payload).sessions k).state = .awaitingShares := by
          rw [fileShare_session]
          exact ht'.open'
        rw [e']
        exact (h.file ht' _).answer hopen env _
    | shareLoadFail =>
      dsimp only
      refine h.setSg i ?_
      rintro (hp | hp) <;> cases hp
    | _ => rw [e] at hs; cases hs
  · exact h.idle (ceremony_idle h.mode h.dkgState env i f (by simpa using hs))

theorem Places.hello (h : Places B u₀ (fun _ => False) c) (env : HelloEnv) (payload : Bytes) :
    Places B u₀ (fun _ => False) (onHello c env payload).1 := by
  rcases onHello_cases c env payload with e | ⟨pid, pn, pt, -, -, e⟩
  · rw [e]; exact h
  have h1 : Places B u₀ (fun _ => False) { c with n := pn, t := pt } :=
    ⟨h.mode, h.dkgState, h.distinct, h.slots.imp fun u hu => ⟨hu.1, hu.2.congr rfl rfl⟩,
      fun i hi hX hb hp => (h.placed i hi hX hb hp).imp fun k hk => ⟨hk.id, hk.member, hk.live⟩⟩
  rcases e with e | ⟨hnew, e, -⟩
  · rw [e]; exact h1
  rw [e]
  obtain ⟨_, hshape⟩ := promote_shape h1.mode pid
  obtain ⟨u, hu, hnum⟩ := h1.slots
  have hses : (promote { c with n := pn, t := pt } pid).sessions = c.sessions := by rw [hshape]
  refine ⟨?_, ?_, ?_, ⟨u, hu, hnum.congr hses (by rw [hshape])⟩, fun i hi hX hb hp => ?_⟩
  · rw [hshape]; exact h.mode
  · rw [hshape]; exact h.dkgState
  · rw [hshape]; exact List.nodup_cons.mpr ⟨hnew, h.distinct⟩
  by_cases e' : i = pid
  · subst e'
    rw [promote_sg h1.mode] at hp
    rcases hp with hp | hp <;> cases hp
  · have hsg : (promote { c with n := pn, t := pt } pid).sg i = c.sg i :=
      promote_sg_of_ne h1.mode e'
    have hi' : i ∈ c.signers := by
      rw [hshape] at hi
      exact (List.mem_cons.mp hi).resolve_left e'
    have hb' : isBlacklisted c i = false := by rw [hshape] at hb; exact hb
    rw [hsg] at hp
    obtain ⟨k, hk⟩ := h.placed i hi' hX hb' hp
    refine ⟨k, ?_, ?_, ?_⟩
    · rw [hses, hsg]; exact hk.id
    · rw [hses]; exact hk.member
    · rw [hses]; exact hk.live

/-- A table just emptied. -/
theorem Numbered.emptied (h : Numbered c B u) (hs : c'.sessions = fun _ => RoastSession.zero)
    (hn : c'.nextSessionId = c.nextSessionId) : Numbered c' (B + u) 0 := by
  have hsmall : c'.nextSessionId < 2 ^ 32 := by rw [hn]; exact h.slots.next
  refine ⟨⟨?_, ?_, ?_, hsmall⟩, Nat.zero_le _, ?_, ?_, ?_⟩
  · intro k
    rw [hs]
    exact ⟨fun hne => absurd rfl hne, fun hlt => absurd hlt (Nat.not_lt_zero _)⟩
  · exact fun k hk => absurd hk (Nat.not_lt_zero _)
  · intro k
    rw [hs]
    exact Nat.two_pow_pos 32
  · exact fun k hk => absurd hk (Nat.not_lt_zero _)
  · intro k _
    rw [hs]
    rfl
  · rw [hn, Nat.add_zero]
    exact h.next

/-- The head of the loop exits, waits, or starts the next certificate, with its
table kept or emptied. -/
theorem Places.head (h : Places B u₀ (fun _ => False) c) (env : TbsEnv) :
    Places B u₀ (fun _ => False) (loopHead c env) ∨
      (loopHead c env).sessions = (fun _ => RoastSession.zero) ∧
        ∀ u, Numbered c B u → Places (B + u) 0 (fun _ => False) (loopHead c env) := by
  have hexit (d : Coord) (hd : Places B u₀ (fun _ => False) d) :
      Places B u₀ (fun _ => False) (exitIfQuiet d) := by
    unfold exitIfQuiet
    split
    · exact hd.idle (.of_sg_eq rfl rfl rfl rfl rfl rfl rfl rfl rfl (.inl rfl) rfl)
    · exact hd
  unfold loopHead
  split
  · exact .inl (hexit c h)
  split
  · split
    · unfold nextMint
      obtain ⟨u₁, hu₁, hnum⟩ := h.slots
      obtain ⟨d, tbs, hex, e | e⟩ := prepareTbs_cases (advanceSerial c) env
      · left
        have h1 : Places B u₀ (fun _ => False) (resume (prepareTbs (advanceSerial c) env).1) := by
          rw [e]
          exact ⟨h.mode, h.dkgState, h.distinct, ⟨u₁, hu₁, hnum.congr rfl rfl⟩, fun i hi hX hb hp =>
            (h.placed i hi hX hb hp).imp fun k hk => ⟨hk.id, hk.member, hk.live⟩⟩
        exact h1.ask
      · right
        obtain ⟨_, eq⟩ := broadcastSignReq_sgOnly (resume (prepareTbs (advanceSerial c) env).1)
        refine ⟨by rw [eq, e]; rfl, fun u hu => ?_⟩
        have h1 : Places (B + u) 0 (fun _ => True)
            (resume (prepareTbs (advanceSerial c) env).1) := by
          rw [e]
          exact ⟨h.mode, h.dkgState, h.distinct, ⟨0, Nat.le_refl _, hu.emptied rfl rfl⟩,
            fun i _ hX => absurd trivial hX⟩
        exact h1.ask
    · exact .inl (hexit c h)
  split
  · exact .inl (hexit c h)
  · exact .inl h

/-- **One step**: every parked signer stays in a session, and the numbering
counts the sessions formed. -/
theorem Places.step (e : Event) (h : Places B 0 (fun _ => False) c) (hu : Numbered c B u) :
    ∃ B' u', Places B' 0 (fun _ => False) (step c e) ∧ Numbered (step c e) B' u' ∧
      B' + u' = B + u + formed c e := by
  -- where the table only grows, the number of new slots is the number of sessions formed
  have grown (h' : Places B u (fun _ => False) (Coordinator.step c e)) :
      ∃ B' u', Places B' 0 (fun _ => False) (Coordinator.step c e) ∧
        Numbered (Coordinator.step c e) B' u' ∧ B' + u' = B + u + formed c e := by
    obtain ⟨u', hle, hnum⟩ := h'.slots
    refine ⟨B, u', ⟨h'.mode, h'.dkgState, h'.distinct, ⟨u', Nat.zero_le _, hnum⟩, h'.placed⟩,
      hnum, ?_⟩
    rw [hu.formed_eq hnum]
    omega
  have hB : Places B u (fun _ => False) c :=
    ⟨h.mode, h.dkgState, h.distinct, ⟨u, Nat.le_refl _, hu⟩, h.placed⟩
  cases hx : c.exited with
  | true =>
    apply grown
    rw [step_exited hx]
    exact hB
  | false =>
    cases e with
    | loopHead env =>
      have hstep : Coordinator.step c (.loopHead env) = loopHead c env :=
        step_loopHead hx env
      rcases hB.head env with h' | ⟨hempty, h'⟩
      · exact grown (hstep ▸ h')
      · have hz : formed c (.loopHead env) = 0 := by
          unfold formed
          rw [hstep, hempty]
          exact List.countP_eq_zero.mpr fun k _ => by simp [RoastSession.zero]
        have h'' := h' u hu
        obtain ⟨u', -, hnum⟩ := h''.slots
        have hu0 : u' = 0 := by
          by_contra hne
          have hlt : 0 < u' := by omega
          have := (hnum.slots.used ⟨0, by decide⟩).mpr hlt
          rw [hempty] at this
          exact this rfl
        subst hu0
        exact ⟨B + u, 0, hstep ▸ h'', hstep ▸ hnum, by rw [hz]⟩
    | expire now env =>
      apply grown
      rw [step_expire hx]
      split
      · exact hB.expire now env
      · exact hB
    | hello env payload =>
      apply grown
      rw [step_hello hx]
      exact hB.hello env payload
    | drain i =>
      apply grown
      rw [step_drain hx]
      split
      · refine hB.quiet (setSg_sgOnly ..).framed rfl rfl fun j _ hX hp => ?_
        unfold drainSignerWrite at hp ⊢
        by_cases ej : j = i
        · subst ej
          rw [Coord.setSg_self] at hp ⊢
          exact ⟨hX, hp, rfl⟩
        · rw [Coord.setSg_of_ne ej] at hp ⊢
          exact ⟨hX, hp, rfl⟩
      · exact hB
    | disconnect i =>
      apply grown
      rw [step_disconnect hx]
      split
      · exact ⟨hB.mode, hB.dkgState, hB.distinct.filter _, ⟨u, Nat.le_refl _, hu.congr rfl rfl⟩,
          fun j hj hX hb hp => (hB.placed j (List.mem_of_mem_filter hj) hX hb hp).imp
            fun k hk => ⟨hk.id, hk.member, hk.live⟩⟩
      · exact hB
    | frame i f env =>
      apply grown
      rw [step_frame hx]
      split
      · exact hB.frame env i f
      · exact hB

theorem Unused.places (h : Unused c) (hm : c.mode = .sign) :
    Places 0 0 (fun _ => False) c ∧ Numbered c 0 0 := by
  have hnum : Numbered c 0 0 := by
    refine ⟨⟨?_, ?_, ?_, ?_⟩, Nat.zero_le _, ?_, ?_, ?_⟩
    · intro k
      rw [h.sessions]
      exact ⟨fun hne => absurd rfl hne, fun hlt => absurd hlt (Nat.not_lt_zero _)⟩
    · exact fun k hk => absurd hk (Nat.not_lt_zero _)
    · intro k
      rw [h.sessions]
      exact Nat.two_pow_pos 32
    · rw [h.nextSessionId]
      decide
    · exact fun k hk => absurd hk (Nat.not_lt_zero _)
    · intro k _
      rw [h.sessions]
      rfl
    · rw [h.nextSessionId]
      rfl
  refine ⟨⟨hm, by rw [h.dkgState]; exact nofun, by rw [h.signers]; exact List.nodup_nil,
    ⟨0, Nat.le_refl _, hnum⟩, fun i hi => ?_⟩, hnum⟩
  rw [h.signers] at hi
  cases hi

/-- Along a run, the numbering counts the sessions formed. -/
theorem Places.run (es : List Event) : ∀ {c : Coord} {B u : Nat}, Places B 0 (fun _ => False) c →
    Numbered c B u → ∃ B' u', Places B' 0 (fun _ => False) (Lib.run Coordinator.step c es) ∧
      Numbered (Lib.run Coordinator.step c es) B' u' ∧ B' + u' = B + u + sessionsFormed c es := by
  induction es with
  | nil => exact fun {c B u} h hu => ⟨B, u, h, hu, rfl⟩
  | cons e es ih =>
    intro c B u h hu
    obtain ⟨B₁, u₁, h₁, hu₁, e₁⟩ := h.step e hu
    obtain ⟨B₂, u₂, h₂, hu₂, e₂⟩ := ih h₁ hu₁
    refine ⟨B₂, u₂, h₂, hu₂, ?_⟩
    rw [e₂, e₁]
    show _ = B + u + (formed c e + sessionsFormed (Coordinator.step c e) es)
    omega

/-- **No eligible signer is parked in a dead session.** After any run of sign mode
that forms fewer than 2^32 sessions: the session id of every registered signer that
is not blacklisted and is in phase `inSession` or `shared` is the id of exactly one
session record, which lists the signer and is open or complete. -/
theorem no_parked_signer {c₀ : Coord} {es : List Event} (h₀ : Started c₀) (hm : c₀.mode = .sign)
    (hN : sessionsFormed c₀ es < 2 ^ 32) {i : Nat} (hi : i ∈ (run step c₀ es).signers)
    (hb : isBlacklisted (run step c₀ es) i = false)
    (hp : ((run step c₀ es).sg i).signPhase = .inSession ∨
      ((run step c₀ es).sg i).signPhase = .shared) :
    ∃ k, (∀ j, ((run step c₀ es).sessions j).id = ((run step c₀ es).sg i).sessionId ↔ j = k) ∧
      i ∈ ((run step c₀ es).sessions k).signerIds ∧
      (((run step c₀ es).sessions k).state = .awaitingShares ∨
        ((run step c₀ es).sessions k).state = .complete) := by
  obtain ⟨h, hnum⟩ := h₀.unused.places hm
  obtain ⟨B, u, h, hnum, hcount⟩ := h.run es hnum
  obtain ⟨k, hk⟩ := h.placed i hi (fun h => h) hb hp
  refine ⟨k, fun j => ⟨fun e => ?_, ?_⟩, hk.member, hk.live⟩
  · have hne : ((run step c₀ es).sessions k).state ≠ .empty := by
      rcases hk.live with e | e <;> rw [e] <;> exact nofun
    exact hnum.unique (by omega) hne (e.trans hk.id.symm)
  · rintro rfl
    exact hk.id

/-- Signer 1 has shared, and is in the session of both. -/
theorem no_parked_signer_run :
    let c := run step (signStart 2 2 1) (openingRun ++ [sends 1 .sigShare [9]])
    (c.sg 1).signPhase = .shared ∧ ∃ k, (∀ j, (c.sessions j).id = (c.sg 1).sessionId ↔ j = k) ∧
      1 ∈ (c.sessions k).signerIds ∧
      ((c.sessions k).state = .awaitingShares ∨ (c.sessions k).state = .complete) := by
  have hp : ((run step (signStart 2 2 1) (openingRun ++ [sends 1 .sigShare [9]])).sg 1).signPhase =
      .shared := by decide +kernel
  refine ⟨hp, no_parked_signer ?_ ?_ ?_ ?_ ?_ (.inr hp)⟩
  · exact signStart_started (by decide) (by decide) (by decide)
  · rfl
  · decide +kernel
  · decide +kernel
  · decide +kernel

end FrostSshCa.Coordinator
