import FrostSshCa.Coordinator.Blacklist

/-!
# The scan for expired sessions

`roast_expire_sessions` goes over the slots once, and forms new sessions while it does.
With a clock that does not go back it fails the sessions whose deadline had passed when
it started, no other, and leaves none behind; each silent member gets one strike for
each of them.
-/

namespace FrostSshCa.Coordinator

open Lib

variable {c c' d : Coord} {now : Nat} {k : Fin maxSessions} {id : Nat}

/-- The session in slot `k` is open past its deadline. -/
def overdue (c : Coord) (now : Nat) (k : Fin maxSessions) : Bool :=
  (c.sessions k).state = .awaitingShares && (c.sessions k).deadline ≤ now

/-- The session owes an answer of the registered signer `id`. -/
def silent (c : Coord) (k : Fin maxSessions) (id : Nat) : Bool :=
  id ∈ c.signers &&
    (c.sessions k).signerIds.zipIdx.any fun p => p.1 = id && ((c.sessions k).shares p.2).length = 0

/-- The strikes of `id`, and whether it is blacklisted. -/
def standing (c : Coord) (id : Nat) : Nat × Bool := (getStrikes c id, isBlacklisted c id)

/-- One strike more. -/
def strike (s : Nat × Bool) : Nat × Bool := (s.1 + 1, s.2 || maxStrikes ≤ s.1 + 1)

/-- The clock does not go back while the event is handled. -/
def Event.Clock : Event → Prop
  | .expire now env => ∀ k, now ≤ (env k).now
  | _ => True

theorem overdue_iff : overdue c now k = true ↔
    (c.sessions k).state = .awaitingShares ∧ (c.sessions k).deadline ≤ now := by
  unfold overdue
  simp

/-! ## One member, one session -/

theorem standing_congr (hs : c'.strikes = c.strikes) (hb : c'.blacklist = c.blacklist) (id : Nat) :
    standing c' id = standing c id := by
  unfold standing getStrikes isBlacklisted
  rw [hs, hb]

theorem SgOnly.standing (h : SgOnly c c') (id : Nat) : standing c' id = standing c id := by
  obtain ⟨_, rfl⟩ := h
  exact standing_congr rfl rfl id

theorem mem_blacklistSigner_iff (hb : IdList c.blacklist) {x : Nat} (h1 : 1 ≤ x)
    (h2 : x ≤ maxSigners) :
    id ∈ (blacklistSigner c x).blacklist ↔ id ∈ c.blacklist ∨ id = x := by
  constructor
  · intro h
    unfold blacklistSigner at h
    split at h
    · exact .inl h
    · rcases List.mem_append.mp h with h | h
      · exact .inl h
      · exact .inr (List.mem_singleton.mp h)
  · rintro (h | rfl)
    · have hp := blacklistSigner_prefix c x
      exact hp.subset h
    · exact mem_blacklistSigner hb h1 h2

/-- **One member**: whoever owes a share gets a strike, and nobody else does. -/
theorem expireMember_standing (h : Bars c) (k : Fin maxSessions) (j x : Nat) :
    standing (expireMember c k j x) id =
      if x = id ∧ id ∈ c.signers ∧ ((c.sessions k).shares j).length = 0 then
        strike (standing c id) else standing c id := by
  unfold expireMember
  by_cases hx : x ∈ c.signers
  swap
  · have hno : ¬ (x = id ∧ id ∈ c.signers ∧ ((c.sessions k).shares j).length = 0) := by
      rintro ⟨rfl, h, -⟩
      exact hx h
    rw [if_neg hx, if_neg hno]
  rw [if_pos hx]
  obtain ⟨h1, h2⟩ := h.signers.range x hx
  by_cases hlen : 0 < ((c.sessions k).shares j).length
  · rw [if_pos hlen, if_neg fun h => by omega]
    exact (requestCommit_sgOnly ..).standing id
  rw [if_neg hlen]
  have hget (y : Nat) := getStrikes_addStrike (c := c) (j := y) h1 h2
  have hblack : (addStrike c x).blacklist = c.blacklist := by
    unfold addStrike
    split <;> rfl
  have hadd : standing (addStrike c x) id =
      (getStrikes c id + if id = x then 1 else 0, isBlacklisted c id) := by
    unfold standing isBlacklisted
    rw [hget, hblack]
  dsimp only
  by_cases hmax : getStrikes (addStrike c x) x ≥ maxStrikes
  · rw [if_pos hmax, (setPhase_sgOnly ..).standing id]
    obtain ⟨bl, e⟩ := blacklistSigner_shape (addStrike c x) x
    have hstrikes : getStrikes (blacklistSigner (addStrike c x) x) id =
        getStrikes (addStrike c x) id := by
      unfold getStrikes
      rw [e]
    have hmem : isBlacklisted (blacklistSigner (addStrike c x) x) id =
        (isBlacklisted c id || decide (id = x)) := by
      unfold isBlacklisted
      rw [← Bool.decide_or, decide_eq_decide,
        mem_blacklistSigner_iff (hblack ▸ h.black) h1 h2, hblack]
    unfold standing
    rw [hstrikes, hmem, hget]
    by_cases e : x = id
    · subst e
      rw [hget, if_pos rfl] at hmax
      rw [if_pos rfl, if_pos ⟨rfl, hx, by omega⟩]
      unfold strike
      simp [hmax]
    · rw [if_neg (Ne.symm e), if_neg fun h => e h.1]
      simp [Ne.symm e]
  · rw [if_neg hmax, (requestCommit_sgOnly ..).standing id, hadd]
    by_cases e : x = id
    · subst e
      rw [hget, if_pos rfl] at hmax
      rw [if_pos rfl, if_pos ⟨rfl, hx, by omega⟩]
      unfold strike standing
      simp [hmax]
    · rw [if_neg (Ne.symm e), if_neg fun h => e h.1]
      rfl

/-- **One session**: each member that owes a share gets one strike. -/
theorem expireMembers_standing (h : Bars c) (hk : (c.sessions k).state = .awaitingShares)
    (id : Nat) : standing (expireMembers c k) id =
      if silent c k id then strike (standing c id) else standing c id := by
  have hclose : Bars (c.closeSession k .failed) := h.close k nofun
  have hself : (c.closeSession k .failed).sessions k =
      { c.sessions k with state := .failed } := Coord.setSession_self ..
  -- the members are distinct, so the pass strikes once
  have hfold (l : List (Nat × Nat)) (hd : (l.map Prod.fst).Nodup) (d : Coord) (hb : Bars d) :
      standing (l.foldl (fun c p => expireMember c k p.2 p.1) d) id =
        if id ∈ d.signers ∧ ∃ p ∈ l, p.1 = id ∧ ((d.sessions k).shares p.2).length = 0 then
          strike (standing d id) else standing d id := by
    induction l generalizing d with
    | nil => simp
    | cons p l ih =>
      obtain ⟨hn, hd⟩ := List.nodup_cons.mp hd
      obtain ⟨_, _, _, e⟩ := expireMember_recOnly d k p.2 p.1
      have hsame : (expireMember d k p.2 p.1).signers = d.signers ∧
          (expireMember d k p.2 p.1).sessions = d.sessions := by rw [e]; exact ⟨rfl, rfl⟩
      rw [List.foldl_cons, ih hd _ (hb.expireMember k p.2 p.1), hsame.1, hsame.2,
        expireMember_standing hb]
      by_cases hp : p.1 = id ∧ id ∈ d.signers ∧ ((d.sessions k).shares p.2).length = 0
      · have hrest : ¬ (id ∈ d.signers ∧
            ∃ q ∈ l, q.1 = id ∧ ((d.sessions k).shares q.2).length = 0) := by
          rintro ⟨-, q, hq, hid, -⟩
          exact hn (hp.1 ▸ hid ▸ List.mem_map_of_mem hq)
        rw [if_pos hp, if_neg hrest, if_pos ⟨hp.2.1, p, List.mem_cons_self .., hp.1, hp.2.2⟩]
      · rw [if_neg hp]
        refine if_congr (and_congr_right fun hreg => ?_) rfl rfl
        constructor
        · rintro ⟨q, hq, hid⟩
          exact ⟨q, List.mem_cons_of_mem _ hq, hid⟩
        · rintro ⟨q, hq, hid⟩
          rcases List.mem_cons.mp hq with rfl | hq
          · exact absurd ⟨hid.1, hreg, hid.2⟩ hp
          · exact ⟨q, hq, hid⟩
  have hids : ((c.sessions k).signerIds.zipIdx.map Prod.fst).Nodup := by
    rw [List.zipIdx_map_fst]
    exact (h.sess k hk).distinct
  have hmain := hfold _ hids _ hclose
  have hsil : silent c k id = true ↔ id ∈ (c.closeSession k .failed).signers ∧
      ∃ p ∈ (c.sessions k).signerIds.zipIdx, p.1 = id ∧
        (((c.closeSession k .failed).sessions k).shares p.2).length = 0 := by
    rw [hself]
    unfold silent
    simp only [Bool.and_eq_true, List.any_eq_true, decide_eq_true_eq]
    exact Iff.rfl
  have hold : standing (c.closeSession k .failed) id = standing c id := standing_congr rfl rfl id
  unfold expireMembers
  rw [hmain, hold]
  exact if_congr hsil.symm rfl rfl

/-! ## The scan -/

/-- The slots `ks` have been scanned. -/
structure Scanned (now : Nat) (c d : Coord) (ks : List (Fin maxSessions)) : Prop where
  signers : d.signers = c.signers
  used : ∀ k, (c.sessions k).state ≠ .empty → d.sessions k =
    if k ∈ ks ∧ overdue c now k then { c.sessions k with state := .failed } else c.sessions k
  fresh : ∀ k, (c.sessions k).state = .empty → d.sessions k = c.sessions k ∨
    (d.sessions k).state = .awaitingShares ∧ now < (d.sessions k).deadline
  standing : ∀ id, standing d id =
    strike^[ks.countP fun k => overdue c now k && silent c k id] (standing c id)

theorem Scanned.start (now : Nat) (c : Coord) : Scanned now c c [] :=
  ⟨rfl, fun _ _ => by simp, fun _ _ => .inl rfl, fun _ => rfl⟩

/-- An attempt to form a session fills an empty slot, or none. -/
theorem tryForm_slots (c : Coord) (env : Env) :
    ((tryForm c env).signers = c.signers ∧ ∀ id, standing (tryForm c env) id = standing c id) ∧
      ∀ k, (tryForm c env).sessions k = c.sessions k ∨ (c.sessions k).state = .empty ∧
        ((tryForm c env).sessions k).state = .awaitingShares ∧
          ((tryForm c env).sessions k).deadline = env.now + sessionTimeout := by
  rcases tryForm_cases c env with e | ⟨j, spkg, wire, hf, e⟩
  · rw [e]
    exact ⟨⟨rfl, fun _ => rfl⟩, fun _ => .inl rfl⟩
  rw [e]
  obtain ⟨_, hshape⟩ := openSession_sgOnly c j (chooseSigners c) spkg wire env.now
  obtain ⟨hself, hother⟩ := openSession_sessions c j (chooseSigners c) spkg wire env.now
  refine ⟨⟨by rw [hshape]; rfl, fun id => ?_⟩, fun k => ?_⟩
  · rw [hshape]
    exact standing_congr rfl rfl id
  · by_cases hk : k = j
    · subst hk
      rw [hself]
      exact .inr ⟨(roastAlloc_some hf.slot).1, rfl, rfl⟩
    · exact .inl (hother k hk)

theorem silent_congr (hs : d.signers = c.signers) (hk : d.sessions k = c.sessions k) :
    silent d k id = silent c k id := by
  unfold silent
  rw [hs, hk]

/-- A slot that is not overdue is left alone. -/
theorem Scanned.pass {ks : List (Fin maxSessions)} (h : Scanned now c d ks)
    (hk : overdue c now k = false) : Scanned now c d (ks ++ [k]) := by
  refine ⟨h.signers, fun j hj => ?_, h.fresh, fun id => ?_⟩
  · rw [h.used j hj]
    refine if_congr ?_ rfl rfl
    rw [List.mem_append, List.mem_singleton]
    constructor
    · exact fun ⟨h1, h2⟩ => ⟨.inl h1, h2⟩
    · rintro ⟨h1 | rfl, h2⟩
      · exact ⟨h1, h2⟩
      · rw [hk] at h2
        cases h2
  · rw [h.standing id, List.countP_append]
    simp [hk]

/-- **The next slot.** -/
theorem Scanned.slot {ks : List (Fin maxSessions)} (h : Scanned now c d ks) (hb : Bars d)
    (hk : k ∉ ks) {env : Env} (hclock : now ≤ env.now) :
    Scanned now c (expireSlot d now env k) (ks ++ [k]) := by
  cases ho : overdue c now k with
  | false =>
    have hsame : expireSlot d now env k = d := by
      unfold expireSlot
      by_cases hempty : (c.sessions k).state = .empty
      · rcases h.fresh k hempty with e | ⟨-, hlate⟩
        · rw [e, if_pos (by rw [hempty]; exact nofun)]
        · rw [if_pos hlate, ite_self]
      · have hdk : d.sessions k = c.sessions k := by rw [h.used k hempty, if_neg fun h' => hk h'.1]
        rw [hdk]
        by_cases hst : (c.sessions k).state = .awaitingShares
        · have hnot : ¬ (c.sessions k).deadline ≤ now := fun hd => by
            rw [overdue_iff.mpr ⟨hst, hd⟩] at ho
            cases ho
          rw [if_neg (not_not.mpr hst), if_pos (by omega)]
        · rw [if_pos hst]
    rw [hsame]
    exact h.pass ho
  | true =>
    obtain ⟨hst, hdl⟩ := overdue_iff.mp ho
    have hne : (c.sessions k).state ≠ .empty := by rw [hst]; exact nofun
    have hdk : d.sessions k = c.sessions k := by rw [h.used k hne, if_neg fun h' => hk h'.1]
    have hslot : expireSlot d now env k = tryForm (expireMembers d k) env := by
      unfold expireSlot
      rw [hdk, if_neg (not_not.mpr hst), if_neg (by omega)]
    obtain ⟨_, _, _, e⟩ := expireMembers_recOnly d k
    have hclose : (expireMembers d k).sessions = (d.closeSession k .failed).sessions := by rw [e]
    have hsess (j : Fin maxSessions) : (expireMembers d k).sessions j =
        if j = k then { c.sessions k with state := .failed } else d.sessions j := by
      rw [hclose]
      by_cases hj : j = k
      · rw [hj, if_pos rfl, ← hdk]
        exact Coord.setSession_self ..
      · rw [if_neg hj]
        exact Coord.setSession_of_ne hj _
    have hsigners : (expireMembers d k).signers = c.signers := by
      rw [e]
      exact h.signers
    obtain ⟨⟨h1, h2⟩, h3⟩ := tryForm_slots (expireMembers d k) env
    rw [hslot]
    refine ⟨h1.trans hsigners, fun j hj => ?_, fun j hj => ?_, fun id => ?_⟩
    · -- a slot that is used is not filled
      have hkeep : (tryForm (expireMembers d k) env).sessions j =
          (expireMembers d k).sessions j := by
        refine (h3 j).resolve_right fun ⟨hempty, _⟩ => ?_
        rw [hsess] at hempty
        split at hempty
        · cases hempty
        · rw [h.used j hj] at hempty
          split at hempty
          · cases hempty
          · exact hj hempty
      rw [hkeep, hsess]
      by_cases hjk : j = k
      · subst hjk
        rw [if_pos rfl, if_pos ⟨List.mem_append_right _ (List.mem_singleton_self _), ho⟩]
      · rw [if_neg hjk, h.used j hj]
        refine if_congr (and_congr_left fun _ => ?_) rfl rfl
        rw [List.mem_append, List.mem_singleton]
        exact ⟨.inl, fun h' => h'.resolve_right hjk⟩
    · have hjk : j ≠ k := fun e' => hne (e' ▸ hj)
      rcases h3 j with e' | ⟨-, hopen, hd⟩
      · rw [e', hsess, if_neg hjk]
        exact h.fresh j hj
      · refine .inr ⟨hopen, ?_⟩
        rw [hd]
        have : 0 < sessionTimeout := by decide
        omega
    · have hopen : (d.sessions k).state = .awaitingShares := by rw [hdk, hst]
      rw [h2, expireMembers_standing hb hopen, h.standing id, silent_congr h.signers hdk,
        List.countP_append, List.countP_singleton, ho, Bool.true_and]
      split
      · rw [Nat.add_comm, Function.iterate_add_apply]
        rfl
      · rfl

/-- **The scan.** -/
theorem Scanned.all (hb : Bars c) {env : Fin maxSessions → Env} (hclock : ∀ k, now ≤ (env k).now)
    {ks : List (Fin maxSessions)} (hd : ks.Nodup) :
    Scanned now c (ks.foldl (fun c k => expireSlot c now (env k) k) c) ks ∧
      Bars (ks.foldl (fun c k => expireSlot c now (env k) k) c) := by
  induction ks using List.reverseRecOn with
  | nil => exact ⟨.start now c, hb⟩
  | append_singleton ks k ih =>
    obtain ⟨hnd, -, hdis⟩ := List.nodup_append.mp hd
    obtain ⟨h1, h2⟩ := ih hnd
    have hk : k ∉ ks := fun h => hdis k h k (List.mem_singleton_self _) rfl
    rw [List.foldl_append]
    exact ⟨h1.slot h2 hk (hclock k), h2.expireSlot now (env k) k⟩

/-- **The scan for expired sessions** in every reached state, with a clock that does not
go back: no session is left open past its deadline, the overdue ones have failed and the
others are as they were, and each signer has one strike more for each overdue session
that owes an answer of it; whoever has had its strikes by one of these is blacklisted. -/
theorem expiry_scan {c₀ : Coord} (h₀ : Started c₀) (hm : c₀.mode = .sign) (es : List Event)
    {now : Nat} {env : Fin maxSessions → Env} (hclock : ∀ k, now ≤ (env k).now) :
    let c := run step c₀ es
    let d := step c (.expire now env)
    c.exited = false → c.signingDone = false →
      (∀ k, overdue d now k = false) ∧ Scanned now c d (List.finRange maxSessions) := by
  intro c d hx hdone
  have hbars : Bars c := run_invariant (I := Bars) (fun _ e h => h.step e) h₀.bars
  have hmode : c.mode = .sign :=
    (run_invariant (I := Signing) (fun _ e h => h.step e) (h₀.signing hm)).mode
  have hd : d = roastExpireSessions c now env := by
    show step c (.expire now env) = _
    rw [step_expire hx, if_pos ⟨hmode, hdone⟩]
  have hscan : Scanned now c d (List.finRange maxSessions) := by
    rw [hd]
    exact (Scanned.all hbars hclock (List.nodup_finRange _)).1
  refine ⟨fun k => ?_, hscan⟩
  rw [← Bool.not_eq_true, overdue_iff]
  rintro ⟨hst, hdl⟩
  by_cases hempty : (c.sessions k).state = .empty
  · rcases hscan.fresh k hempty with e | ⟨-, hlate⟩
    · rw [e, hempty] at hst
      cases hst
    · omega
  · rw [hscan.used k hempty] at hst hdl
    split at hst
    · cases hst
    · next hno =>
      rw [if_neg hno] at hdl
      exact hno ⟨List.mem_finRange k, overdue_iff.mpr ⟨hst, hdl⟩⟩

/-- Signer 2 does not answer in time. -/
theorem expiry_scan_run :
    let es := openingRun ++ [sends 1 .sigShare [9]]
    let c := run step (signStart 2 2 1) es
    let d := step c (.expire sessionTimeout fun _ => { quietEnv with now := sessionTimeout })
    (overdue c sessionTimeout firstSlot = true ∧ standing d 1 = (0, false) ∧
      standing d 2 = (1, false)) ∧
    (∀ k, overdue d sessionTimeout k = false) ∧
      Scanned sessionTimeout c d (List.finRange maxSessions) :=
  ⟨by decide +kernel, expiry_scan (signStart_started (by decide) (by decide) (by decide)) rfl _
    (fun _ => Nat.le_refl _) (by decide +kernel) (by decide +kernel)⟩

end FrostSshCa.Coordinator
