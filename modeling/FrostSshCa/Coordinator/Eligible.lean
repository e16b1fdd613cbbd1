import FrostSshCa.Coordinator.Reports
import Mathlib.Order.Interval.Finset.Nat

/-!
# Eligible signers

The ids of `1..g_n` that are neither blacklisted nor known to hold no key, and
what each reset does to them: who is blacklisted (`out`), whose key-less mark is
dropped (`back`).
-/

namespace FrostSshCa.Coordinator

open Lib

/-- A registered signer that has reported `SHARE_LOAD_FAIL`. -/
def Keyless (c : Coord) (id : Nat) : Prop := id ∈ c.signers ∧ (c.sg id).signPhase = .noKey

instance (c : Coord) (id : Nat) : Decidable (Keyless c id) :=
  inferInstanceAs (Decidable (_ ∧ _))

/-- The ids of `1..g_n` that are neither blacklisted nor key-less, those in
`out` left aside and those in `back` forgiven. -/
def eligibleBut (c : Coord) (out back : Nat → Bool) : Finset Nat :=
  (Finset.Icc 1 c.n).filter fun id =>
    id ∉ c.blacklist ∧ out id = false ∧ ¬ (Keyless c id ∧ back id = false)

def eligible (c : Coord) : Finset Nat :=
  (Finset.Icc 1 c.n).filter fun id => id ∉ c.blacklist ∧ ¬ Keyless c id

variable {c c' : Coord}

theorem mem_eligible {id : Nat} :
    id ∈ eligible c ↔ (1 ≤ id ∧ id ≤ c.n) ∧ id ∉ c.blacklist ∧ ¬ Keyless c id := by
  simp [eligible]

theorem mem_eligibleBut {out back : Nat → Bool} {id : Nat} : id ∈ eligibleBut c out back ↔
    (1 ≤ id ∧ id ≤ c.n) ∧ id ∉ c.blacklist ∧ out id = false ∧
      ¬ (Keyless c id ∧ back id = false) := by
  simp [eligibleBut]

/-- What a step does to the eligible ids: `out` are blacklisted, `back` lose
the key-less mark. -/
structure Moves (out back : Nat → Bool) (c c' : Coord) : Prop where
  n : c'.n = c.n
  t : c'.t = c.t
  signers : c'.signers = c.signers
  blacklist : ∀ id, 1 ≤ id → id ≤ maxSigners →
    (id ∈ c'.blacklist ↔ id ∈ c.blacklist ∨ out id = true)
  keyless : ∀ id, Keyless c' id ↔ Keyless c id ∧ back id = false

/-- Ids that stand for signers, no id twice. -/
structure IdList (ids : List Nat) : Prop where
  distinct : ids.Nodup
  range : ∀ id ∈ ids, 1 ≤ id ∧ id ≤ maxSigners

theorem Moves.eligible_eq {out back : Nat → Bool} (h : Moves out back c c')
    (hn : c.n ≤ maxSigners) : eligible c' = eligibleBut c out back := by
  ext id
  rw [mem_eligible, mem_eligibleBut, h.n, h.keyless]
  constructor
  · rintro ⟨hr, hb, hk⟩
    rw [h.blacklist id hr.1 (hr.2.trans hn), not_or, Bool.not_eq_true] at hb
    exact ⟨hr, hb.1, hb.2, hk⟩
  · rintro ⟨hr, hb, ho, hk⟩
    refine ⟨hr, ?_, hk⟩
    rw [h.blacklist id hr.1 (hr.2.trans hn), not_or, Bool.not_eq_true]
    exact ⟨hb, ho⟩

theorem Moves.refl (c : Coord) : Moves (fun _ => false) (fun _ => false) c c :=
  ⟨rfl, rfl, rfl, by simp, by simp⟩

theorem Moves.trans {out back out' back' : Nat → Bool} {c'' : Coord} (h : Moves out back c c')
    (h' : Moves out' back' c' c'') :
    Moves (fun id => out id || out' id) (fun id => back id || back' id) c c'' := by
  refine ⟨h'.n.trans h.n, h'.t.trans h.t, h'.signers.trans h.signers, fun id h1 h2 => ?_,
    fun id => ?_⟩
  · rw [h'.blacklist id h1 h2, h.blacklist id h1 h2, Bool.or_eq_true, or_assoc]
  · rw [h'.keyless, h.keyless, Bool.or_eq_false_iff, and_assoc]

theorem Moves.congr {out back out' back' : Nat → Bool} (h : Moves out back c c')
    (ho : ∀ id, out' id = out id) (hb : ∀ id, back' id = back id) : Moves out' back' c c' :=
  ⟨h.n, h.t, h.signers, fun id h1 h2 => by rw [ho]; exact h.blacklist id h1 h2,
    fun id => by rw [hb]; exact h.keyless id⟩

/-! ## The helpers -/

theorem keyless_setSg {i : Nat} {g : SignerRec → SignerRec} {id : Nat} :
    Keyless (c.setSg i g) id ↔ id ∈ c.signers ∧
      (if id = i then g (c.sg i) else c.sg id).signPhase = .noKey := by
  unfold Keyless Coord.setSg
  simp only [Function.update_apply]

/-- A record update that leaves the phase alone. -/
theorem setSg_moves_none {i : Nat} {g : SignerRec → SignerRec}
    (h : (g (c.sg i)).signPhase = .noKey ↔ (c.sg i).signPhase = .noKey) :
    Moves (fun _ => false) (fun _ => false) c (c.setSg i g) := by
  refine ⟨rfl, rfl, rfl, fun id _ _ => by simp [Coord.setSg], fun id => ?_⟩
  rw [keyless_setSg]
  by_cases e : id = i
  · subst e
    rw [if_pos rfl, h]
    simp [Keyless]
  · rw [if_neg e]
    simp [Keyless]

/-- A record update to a phase other than `noKey`. -/
theorem setSg_moves_back {i : Nat} {g : SignerRec → SignerRec}
    (h : (g (c.sg i)).signPhase ≠ .noKey) :
    Moves (fun _ => false) (fun id => decide (id = i)) c (c.setSg i g) := by
  refine ⟨rfl, rfl, rfl, fun id _ _ => by simp [Coord.setSg], fun id => ?_⟩
  rw [keyless_setSg]
  by_cases e : id = i
  · subst e
    simp [h]
  · simp [e, Keyless]

theorem signerSend_moves (i : Nat) (type : MsgType) (sig payload : Bytes) :
    Moves (fun _ => false) (fun _ => false) c (c.signerSend i type sig payload) :=
  setSg_moves_none Iff.rfl

theorem Moves.congrSg {out back : Nat → Bool} {c'' : Coord} (h : Moves out back c c')
    (hn : c''.n = c'.n) (ht : c''.t = c'.t) (hs : c''.signers = c'.signers)
    (hb : c''.blacklist = c'.blacklist) (hg : c''.sg = c'.sg) : Moves out back c c'' := by
  refine ⟨hn.trans h.n, ht.trans h.t, hs.trans h.signers, fun id h1 h2 => ?_, fun id => ?_⟩
  · rw [hb]; exact h.blacklist id h1 h2
  · rw [← h.keyless]
    unfold Keyless
    rw [hs, hg]

theorem requestCommit_moves {p : SPhase} (hp : p ≠ .noKey) (id : Nat) :
    Moves (fun _ => false) (fun j => decide (j = id)) c (requestCommit c p id) := by
  have h1 : Moves (fun _ => false) (fun j => decide (j = id)) c
      (c.setSg id fun r => { r with signPhase := p, commit := [], sessionId := 0 }) :=
    setSg_moves_back hp
  exact (h1.trans (signerSend_moves id .signReq [] c.tbs)).congr (by simp) (by simp)

theorem setPhase_moves {p : SPhase} (hp : p ≠ .noKey) (id : Nat) :
    Moves (fun _ => false) (fun j => decide (j = id)) c (setPhase c id p) := by
  unfold setPhase
  split
  · exact setSg_moves_back hp
  · next hid =>
    refine ⟨rfl, rfl, rfl, by simp, fun j => ?_⟩
    refine ⟨fun h => ⟨h, ?_⟩, fun h => h.1⟩
    have : j ≠ id := fun e => hid (e ▸ h.1)
    simpa using this

/-- There is always room for one more id. -/
theorem blacklistSigner_moves (hb : IdList c.blacklist) (id : Nat) (h1 : 1 ≤ id)
    (h2 : id ≤ maxSigners) :
    Moves (fun j => decide (j = id)) (fun _ => false) c (blacklistSigner c id) := by
  have hkeep (hin : id ∈ c.blacklist) : Moves (fun j => decide (j = id)) (fun _ => false) c c := by
    refine ⟨rfl, rfl, rfl, fun j _ _ => ?_, by simp⟩
    constructor
    · exact .inl
    · rintro (h | h)
      · exact h
      · rw [of_decide_eq_true h]; exact hin
  unfold blacklistSigner
  by_cases hin : id ∈ c.blacklist
  · rw [if_pos (by simp [isBlacklisted, hin])]
    exact hkeep hin
  by_cases hfull : c.blacklist.length ≥ maxSigners
  · -- a full blacklist holds every id
    exfalso
    have hsub : c.blacklist.toFinset ⊆ Finset.Icc 1 maxSigners := fun x hx => by
      rw [Finset.mem_Icc]
      exact hb.range x (List.mem_toFinset.mp hx)
    have hcard : (Finset.Icc 1 maxSigners).card ≤ c.blacklist.toFinset.card := by
      rw [List.toFinset_card_of_nodup hb.distinct, Nat.card_Icc]
      exact hfull
    have heq := Finset.eq_of_subset_of_card_le hsub hcard
    have : id ∈ c.blacklist.toFinset := by
      rw [heq, Finset.mem_Icc]
      exact ⟨h1, h2⟩
    exact hin (List.mem_toFinset.mp this)
  · rw [if_neg (by simp [isBlacklisted, hin]; omega)]
    exact ⟨rfl, rfl, rfl, fun j _ _ => by simp, by simp [Keyless]⟩

theorem blacklistSigner_idList (hb : IdList c.blacklist) {id : Nat} (h1 : 1 ≤ id)
    (h2 : id ≤ maxSigners) : IdList (blacklistSigner c id).blacklist := by
  unfold blacklistSigner
  split
  · exact hb
  next hc =>
  have hin : id ∉ c.blacklist := fun h => hc (by simp [isBlacklisted, h])
  refine ⟨?_, fun x hx => ?_⟩
  · show (c.blacklist ++ [id]).Nodup
    rw [List.nodup_append]
    refine ⟨hb.distinct, by simp, fun a ha b hb => ?_⟩
    obtain rfl := List.mem_singleton.mp hb
    exact fun e => hin (e ▸ ha)
  · rcases List.mem_append.mp hx with hx | hx
    · exact hb.range x hx
    · obtain rfl := List.mem_singleton.mp hx
      exact ⟨h1, h2⟩

/-! ## The failure paths -/

/-- `setPhase … .blacklisted` of a blacklisted id, for each id of a list. -/
theorem blacklistAll_moves : ∀ {ids : List Nat} {c : Coord}, IdList c.blacklist →
    (∀ id ∈ ids, 1 ≤ id ∧ id ≤ maxSigners) →
    IdList (ids.foldl (fun c id => setPhase (blacklistSigner c id) id .blacklisted) c).blacklist ∧
      Moves (fun id => decide (id ∈ ids)) (fun id => decide (id ∈ ids)) c
        (ids.foldl (fun c id => setPhase (blacklistSigner c id) id .blacklisted) c)
  | [], c, hb, _ => ⟨hb, (Moves.refl c).congr (by simp) (by simp)⟩
  | id :: ids, c, hb, hr => by
    obtain ⟨h1, h2⟩ := hr id (List.mem_cons_self ..)
    have hm := (blacklistSigner_moves hb id h1 h2).trans
      (setPhase_moves (p := .blacklisted) nofun id)
    have hb' : IdList (setPhase (blacklistSigner c id) id .blacklisted).blacklist := by
      obtain ⟨_, e⟩ := setPhase_sgOnly (blacklistSigner c id) id .blacklisted
      rw [e]
      exact blacklistSigner_idList hb h1 h2
    obtain ⟨hb'', hm'⟩ := blacklistAll_moves hb' fun x hx => hr x (List.mem_cons_of_mem _ hx)
    refine ⟨hb'', (hm.trans hm').congr (fun j => ?_) fun j => ?_⟩ <;> simp

theorem closeSession_moves (c : Coord) (k : Fin maxSessions) (p : RSessState) :
    Moves (fun _ => false) (fun _ => false) c (c.closeSession k p) :=
  ⟨rfl, rfl, rfl, by simp [Coord.closeSession, Coord.setSession],
    by simp [Keyless, Coord.closeSession, Coord.setSession]⟩

theorem blacklistMembers_moves (hb : IdList c.blacklist) (k : Fin maxSessions)
    (hr : ∀ id ∈ (c.sessions k).signerIds, 1 ≤ id ∧ id ≤ maxSigners) :
    IdList (blacklistMembers c k).blacklist ∧
      Moves (fun id => decide (id ∈ (c.sessions k).signerIds))
        (fun id => decide (id ∈ (c.sessions k).signerIds)) c (blacklistMembers c k) := by
  obtain ⟨h1, h2⟩ := blacklistAll_moves (c := c.closeSession k .failed) hb hr
  exact ⟨h1, ((closeSession_moves c k .failed).trans h2).congr (by simp) (by simp)⟩

/-- Re-issuing `SIGN_REQ` to the other members of a session. -/
theorem reissue_moves (culprit : Nat) : ∀ (ids : List Nat) (c : Coord),
    Moves (fun _ => false) (fun id => decide (id ∈ ids ∧ id ≠ culprit)) c
      (ids.foldl (fun c id =>
        if id ≠ culprit ∧ id ∈ c.signers then requestCommit c .init id else c) c)
  | [], c => (Moves.refl c).congr (by simp) (by simp)
  | id :: ids, c => by
    have h1 : Moves (fun _ => false) (fun j => decide (j = id ∧ id ≠ culprit)) c
        (if id ≠ culprit ∧ id ∈ c.signers then requestCommit c .init id else c) := by
      split
      · next hc =>
        exact (requestCommit_moves (p := .init) nofun id).congr (by simp) (by simp [hc.1])
      · next hc =>
        refine ⟨rfl, rfl, rfl, by simp, fun j => ⟨fun h => ⟨h, ?_⟩, fun h => h.1⟩⟩
        have : ¬ (j = id ∧ id ≠ culprit) := fun ⟨e, hne⟩ => hc ⟨hne, e ▸ h.1⟩
        simpa using this
    refine (h1.trans (reissue_moves culprit ids _)).congr (by simp) fun j => ?_
    by_cases e : j = id
    · subst e; simp
    · simp [e]

theorem culpritReset_moves (hb : IdList c.blacklist) (k : Fin maxSessions) {culprit : Nat}
    (h1 : 1 ≤ culprit) (h2 : culprit ≤ maxSigners) :
    IdList (culpritReset c k culprit).blacklist ∧
      Moves (fun id => decide (id = culprit))
        (fun id => decide (id = culprit ∨ id ∈ (c.sessions k).signerIds)) c
        (culpritReset c k culprit) := by
  have hm := ((closeSession_moves c k .failed).trans
    (blacklistSigner_moves (c := c.closeSession k .failed) hb culprit h1 h2)).trans
    (setPhase_moves (p := .blacklisted) nofun culprit)
  have hb1 := blacklistSigner_idList (c := c.closeSession k .failed) hb h1 h2
  constructor
  · obtain ⟨_, e⟩ := setPhase_sgOnly (blacklistSigner (c.closeSession k .failed) culprit) culprit
      .blacklisted
    obtain ⟨_, e'⟩ := SgOnly.foldl (f := fun c id =>
      if id ≠ culprit ∧ id ∈ c.signers then requestCommit c .init id else c) (fun c id => by
        split
        · exact requestCommit_sgOnly ..
        · exact .refl c) (c.sessions k).signerIds
      (setPhase (blacklistSigner (c.closeSession k .failed) culprit) culprit .blacklisted)
    unfold culpritReset
    rw [e', e]
    exact hb1
  · refine (hm.trans (reissue_moves culprit (c.sessions k).signerIds _)).congr (by simp) fun j => ?_
    by_cases e : j = culprit
    · simp [e]
    · simp [e]

/-! ## Expiry -/

/-- Expiry strikes out the member `id` in slot `i`: no share, and no strike left. -/
def struckOut (c : Coord) (k : Fin maxSessions) (i id : Nat) : Bool :=
  decide (id ∈ c.signers) && decide (((c.sessions k).shares i).length = 0) &&
    decide (maxStrikes ≤ getStrikes c id + 1)

theorem getStrikes_addStrike {id j : Nat} (h1 : 1 ≤ id) (h2 : id ≤ maxSigners) :
    getStrikes (addStrike c id) j = getStrikes c j + if j = id then 1 else 0 := by
  unfold addStrike
  rw [if_pos ⟨h1, h2⟩]
  unfold getStrikes
  by_cases e : j = id
  · subst e
    simp [h1, h2]
  · simp [e]

theorem expireMember_moves (hb : IdList c.blacklist) (k : Fin maxSessions) (i : Nat) {id : Nat}
    (h1 : 1 ≤ id) (h2 : id ≤ maxSigners) :
    IdList (expireMember c k i id).blacklist ∧
      Moves (fun j => decide (j = id) && struckOut c k i id) (fun j => decide (j = id)) c
        (expireMember c k i id) := by
  unfold expireMember struckOut
  by_cases hid : id ∈ c.signers
  · rw [if_pos hid]
    by_cases hs : 0 < ((c.sessions k).shares i).length
    · rw [if_pos hs]
      obtain ⟨_, e⟩ := requestCommit_sgOnly c .init id
      refine ⟨by rw [e]; exact hb, (requestCommit_moves (p := .init) nofun id).congr (fun j => ?_)
        fun j => rfl⟩
      have : ¬ ((c.sessions k).shares i).length = 0 := by omega
      simp [this]
    rw [if_neg hs]
    have hz : ((c.sessions k).shares i).length = 0 := by omega
    have hst : getStrikes (addStrike c id) id = getStrikes c id + 1 := by
      rw [getStrikes_addStrike h1 h2, if_pos rfl]
    have hadd : Moves (fun _ => false) (fun _ => false) c (addStrike c id) := by
      unfold addStrike
      split
      · exact ⟨rfl, rfl, rfl, by simp, by simp [Keyless]⟩
      · exact .refl c
    have hb' : IdList (addStrike c id).blacklist := by
      unfold addStrike
      split
      · exact hb
      · exact hb
    dsimp only
    rw [hst]
    by_cases hge : getStrikes c id + 1 ≥ maxStrikes
    · rw [if_pos hge]
      have hm := (hadd.trans (blacklistSigner_moves hb' id h1 h2)).trans
        (setPhase_moves (p := .blacklisted) nofun id)
      obtain ⟨_, e⟩ := setPhase_sgOnly (blacklistSigner (addStrike c id) id) id .blacklisted
      refine ⟨by rw [e]; exact blacklistSigner_idList hb' h1 h2, hm.congr (fun j => ?_) fun j => ?_⟩
      · have : maxStrikes ≤ getStrikes c id + 1 := hge
        simp [hz, this, hid]
      · simp
    · rw [if_neg hge]
      obtain ⟨_, e⟩ := requestCommit_sgOnly (addStrike c id) .suspect id
      have hm := hadd.trans (requestCommit_moves (p := .suspect) nofun id)
      refine ⟨by rw [e]; exact hb', hm.congr (fun j => ?_) fun j => ?_⟩
      · have : ¬ maxStrikes ≤ getStrikes c id + 1 := hge
        simp [this]
      · simp
  · rw [if_neg hid]
    refine ⟨hb, rfl, rfl, rfl, fun j _ _ => by simp [hid], fun j =>
      ⟨fun h => ⟨h, ?_⟩, fun h => h.1⟩⟩
    have : j ≠ id := fun e => hid (e ▸ h.1)
    simpa using this

/-- Another member's expiry does not strike out `id`. -/
theorem struckOut_expireMember (k : Fin maxSessions) (i i' : Nat) {id id' : Nat} (h1 : 1 ≤ id)
    (h2 : id ≤ maxSigners) (hne : id' ≠ id) :
    struckOut (expireMember c k i id) k i' id' = struckOut c k i' id' := by
  have hg : getStrikes (expireMember c k i id) id' = getStrikes c id' := by
    have hsend (c : Coord) (p : SPhase) :
        getStrikes (requestCommit c p id) id' = getStrikes c id' := rfl
    have hadd : getStrikes (addStrike c id) id' = getStrikes c id' := by
      rw [getStrikes_addStrike h1 h2, if_neg hne, Nat.add_zero]
    unfold expireMember
    split
    · split
      · exact hsend c .init
      · dsimp only
        split
        · obtain ⟨_, e⟩ := setPhase_sgOnly (blacklistSigner (addStrike c id) id) id .blacklisted
          rw [e]
          have : (blacklistSigner (addStrike c id) id).strikes = (addStrike c id).strikes := by
            unfold blacklistSigner
            split <;> rfl
          rw [← hadd]
          unfold getStrikes
          dsimp only
          rw [this]
        · exact (hsend _ .suspect).trans hadd
    · rfl
  obtain ⟨_, _, _, e⟩ := expireMember_recOnly c k i id
  unfold struckOut
  rw [hg]
  congr 1
  rw [e]

/-- The members struck out by the expiry of a whole session. -/
def struckIn (c : Coord) (k : Fin maxSessions) (l : List (Nat × Nat)) (id : Nat) : Bool :=
  l.any fun p => decide (id = p.1) && struckOut c k p.2 p.1

theorem expireAll_moves (k : Fin maxSessions) : ∀ {l : List (Nat × Nat)} {c : Coord},
    IdList c.blacklist → IdList (l.map Prod.fst) →
    IdList (l.foldl (fun c p => expireMember c k p.2 p.1) c).blacklist ∧
      Moves (struckIn c k l) (fun id => decide (id ∈ l.map Prod.fst)) c
        (l.foldl (fun c p => expireMember c k p.2 p.1) c)
  | [], c, hb, _ => ⟨hb, (Moves.refl c).congr (by simp [struckIn]) (by simp)⟩
  | p :: l, c, hb, hl => by
    obtain ⟨h1, h2⟩ := hl.range p.1 (by simp)
    obtain ⟨hnot, hnd⟩ := List.nodup_cons.mp hl.distinct
    obtain ⟨hb', hm⟩ := expireMember_moves hb k p.2 h1 h2
    obtain ⟨hb'', hm'⟩ := expireAll_moves k hb'
      ⟨hnd, fun x hx => hl.range x (List.mem_cons_of_mem _ hx)⟩
    refine ⟨hb'', (hm.trans hm').congr (fun j => ?_) fun j => ?_⟩
    · have htail : struckIn (expireMember c k p.2 p.1) k l j = struckIn c k l j := by
        unfold struckIn
        rw [Bool.eq_iff_iff, List.any_eq_true, List.any_eq_true]
        refine exists_congr fun q => and_congr_right fun hq => ?_
        have hne : q.1 ≠ p.1 := fun e => hnot (e ▸ List.mem_map_of_mem hq)
        rw [struckOut_expireMember k p.2 q.2 h1 h2 hne]
      rw [htail]
      simp [struckIn]
    · simp only [List.map_cons, List.mem_cons, Bool.decide_or]

theorem struckOut_closeSession (k : Fin maxSessions) (p : RSessState) (i id : Nat) :
    struckOut (c.closeSession k p) k i id = struckOut c k i id := by
  have : ((c.closeSession k p).sessions k).shares = (c.sessions k).shares := by
    simp [Coord.closeSession, Coord.setSession]
  unfold struckOut
  rw [this]
  rfl

theorem expireMembers_moves (hb : IdList c.blacklist) (k : Fin maxSessions)
    (hs : IdList (c.sessions k).signerIds) :
    IdList (expireMembers c k).blacklist ∧
      Moves (struckIn c k (c.sessions k).signerIds.zipIdx)
        (fun id => decide (id ∈ (c.sessions k).signerIds)) c (expireMembers c k) := by
  have hmap : (c.sessions k).signerIds.zipIdx.map Prod.fst = (c.sessions k).signerIds := by
    simp
  obtain ⟨h1, h2⟩ := expireAll_moves k (c := c.closeSession k .failed)
    (l := (c.sessions k).signerIds.zipIdx) hb (by rw [hmap]; exact hs)
  refine ⟨h1, ((closeSession_moves c k .failed).trans h2).congr (fun j => ?_) fun j => ?_⟩
  · rw [Bool.false_or]
    unfold struckIn
    simp only [struckOut_closeSession]
  · rw [hmap, Bool.false_or]

/-! ## Forming a session -/

/-- A forgiven id that was not key-less is not forgiven. -/
theorem Moves.back_none {out back : Nat → Bool} (h : Moves out back c c')
    (hk : ∀ id, back id = true → ¬ Keyless c id) : Moves out (fun _ => false) c c' := by
  refine ⟨h.n, h.t, h.signers, h.blacklist, fun id => ?_⟩
  rw [h.keyless]
  constructor
  · exact fun h => ⟨h.1, rfl⟩
  · refine fun ⟨h1, _⟩ => ⟨h1, ?_⟩
    by_contra hb
    exact hk id (by simpa using hb) h1

theorem assignAll_moves (sid : Nat) (wire : Bytes) : ∀ (ids : List Nat) (c : Coord),
    Moves (fun _ => false) (fun id => decide (id ∈ ids)) c
      (ids.foldl (fun c id => assignMember c sid wire id) c)
  | [], c => (Moves.refl c).congr (by simp) (by simp)
  | id :: ids, c => by
    have h1 : Moves (fun _ => false) (fun j => decide (j = id)) c
        (c.setSg id fun r => { r with signPhase := .inSession, sessionId := sid }) :=
      setSg_moves_back nofun
    have h2 : Moves (fun _ => false) (fun j => decide (j = id)) c (assignMember c sid wire id) :=
      (h1.trans (signerSend_moves id .relayCommit [] wire)).congr (by simp) (by simp)
    exact (h2.trans (assignAll_moves sid wire ids _)).congr (by simp) (by simp)

theorem tryForm_moves (env : Env) :
    Moves (fun _ => false) (fun _ => false) c (tryForm c env) := by
  rcases tryForm_cases c env with e | ⟨k, spkg, wire, -, e⟩
  · rw [e]; exact .refl c
  rw [e]
  have h1 : Moves (fun _ => false) (fun _ => false) c
      (fillSlot c k (chooseSigners c) spkg env.now) :=
    ⟨rfl, rfl, rfl, by simp [fillSlot, Coord.setSession],
      by simp [Keyless, fillSlot, Coord.setSession]⟩
  refine Moves.back_none ((h1.trans (assignAll_moves c.nextSessionId wire _ _)).congr
    (fun _ => rfl) fun _ => rfl) fun id hid hk => ?_
  have hmem : id ∈ chooseSigners c := by simpa using hid
  have hp := hk.2
  rcases (mem_chooseSigners c hmem).2 with hr | hr
  · simp [reliable, hp] at hr
  · simp [suspected, hp] at hr

/-! ## The count -/

/-- `roast_do_no_eligible_remain` counts the eligible ids that are connected. -/
theorem remainingSigners_eq (hs : c.signers.Nodup) (hr : ∀ id ∈ c.signers, 1 ≤ id ∧ id ≤ c.n) :
    remainingSigners c = ((eligible c).filter (· ∈ c.signers)).card := by
  unfold remainingSigners
  rw [List.countP_eq_length_filter, ← List.toFinset_card_of_nodup (hs.filter _)]
  congr 1
  ext id
  simp only [List.mem_toFinset, List.mem_filter, Finset.mem_filter, mem_eligible, isBlacklisted,
    Keyless]
  constructor
  · rintro ⟨hm, hb⟩
    simp only [Bool.and_eq_true, Bool.not_eq_true', decide_eq_false_iff_not,
      decide_eq_true_eq] at hb
    exact ⟨⟨hr id hm, hb.1, fun hk => hb.2 hk.2⟩, hm⟩
  · rintro ⟨⟨-, hb, hk⟩, hm⟩
    refine ⟨hm, ?_⟩
    simp only [Bool.and_eq_true, Bool.not_eq_true', decide_eq_false_iff_not, decide_eq_true_eq]
    exact ⟨hb, fun h => hk ⟨hm, h⟩⟩

end FrostSshCa.Coordinator
