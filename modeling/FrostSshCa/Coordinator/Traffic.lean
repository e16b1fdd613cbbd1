import FrostSshCa.Lib.Amortised
import FrostSshCa.Coordinator.Blocks
import FrostSshCa.Coordinator.Round1
import FrostSshCa.Coordinator.Ledger

/-!
# What a signer can be sent

Each `SIGN_REQ` a signer is sent after its registration is paid for: by a session that
closes or by the restart for the next certificate. Each bundle is paid for by the slot
its session takes. No slot is used twice before the table is emptied, and only a
restart empties it: so what the signers send can not make the coordinator send more.
-/

namespace FrostSshCa.Coordinator

open Lib

def isRequest (f : Frame) : Bool := f.type = .signReq

def isBundle (f : Frame) : Bool := f.type = .relayCommit

variable {c c' c'' : Coord} {i : Nat}

/-! ## Queues -/

/-- Behind the frames for `i` at most `r` requests and `b` bundles were queued. -/
def Queues (i r b : Nat) (c c' : Coord) : Prop :=
  ∃ fs : List Frame, (c'.sg i).msgq = (c.sg i).msgq ++ fs ∧ fs.countP isRequest ≤ r ∧
    fs.countP isBundle ≤ b

theorem Queues.of_eq {r b : Nat} (h : (c'.sg i).msgq = (c.sg i).msgq) : Queues i r b c c' :=
  ⟨[], by rw [h, List.append_nil], Nat.zero_le _, Nat.zero_le _⟩

theorem Queues.trans {r b r' b' : Nat} (h : Queues i r b c c') (h' : Queues i r' b' c' c'') :
    Queues i (r + r') (b + b') c c'' := by
  obtain ⟨fs, e, h1, h2⟩ := h
  obtain ⟨fs', e', h1', h2'⟩ := h'
  refine ⟨fs ++ fs', by rw [e', e, List.append_assoc], ?_, ?_⟩ <;>
    rw [List.countP_append] <;> omega

theorem Queues.mono {r b r' b' : Nat} (h : Queues i r b c c') (hr : r ≤ r') (hb : b ≤ b') :
    Queues i r' b' c c' := by
  obtain ⟨fs, e, h1, h2⟩ := h
  exact ⟨fs, e, h1.trans hr, h2.trans hb⟩

theorem Queues.after {r b : Nat} (h : Queues i 0 0 c c') (h' : Queues i r b c' c'') :
    Queues i r b c c'' := by
  have := h.trans h'
  rwa [Nat.zero_add, Nat.zero_add] at this

theorem Queues.setSg {r b : Nat} {j : Nat} {g : SignerRec → SignerRec} {l : List Frame}
    (hg : (g (c.sg j)).msgq = (c.sg j).msgq ++ l) (hr : l.countP isRequest ≤ r)
    (hb : l.countP isBundle ≤ b) : Queues i r b c (c.setSg j g) := by
  by_cases e : i = j
  · subst e
    exact ⟨l, by rw [Coord.setSg_self, hg], hr, hb⟩
  · exact .of_eq (by rw [Coord.setSg_of_ne e])

theorem Queues.setSg_of_ne {r b : Nat} {j : Nat} {g : SignerRec → SignerRec} (h : i ≠ j) :
    Queues i r b c (c.setSg j g) := .of_eq (by rw [Coord.setSg_of_ne h])

/-- **A pass over distinct ids** queues for `i` what its own turn does. -/
theorem Queues.foldl {α : Type} {f : Coord → α → Coord} {t : α → Nat} {r b : Nat}
    (hother : ∀ c a, t a ≠ i → Queues i 0 0 c (f c a)) (hown : ∀ c a, Queues i r b c (f c a))
    {l : List α} (hd : (l.map t).Nodup) (c : Coord) : Queues i r b c (l.foldl f c) := by
  have hnone {l : List α} (hl : ∀ a ∈ l, t a ≠ i) (c : Coord) :
      Queues i 0 0 c (l.foldl f c) := by
    induction l generalizing c with
    | nil => exact .of_eq rfl
    | cons a l ih =>
      exact (hother c a (hl a (List.mem_cons_self ..))).trans
        (ih (fun a ha => hl a (List.mem_cons_of_mem _ ha)) (f c a))
  induction l generalizing c with
  | nil => exact .of_eq rfl
  | cons a l ih =>
    obtain ⟨hn, hd⟩ := List.nodup_cons.mp hd
    rw [List.foldl_cons]
    by_cases ha : t a = i
    · refine (hown c a).trans (hnone (fun a' ha' e => ?_) (f c a))
      exact hn (ha.trans e.symm ▸ List.mem_map_of_mem ha')
    · exact (hother c a ha).after (ih hd (f c a))

/-! ## Slots -/

/-- The slots that no session of this request has used. -/
def vacant (s : Fin maxSessions → RoastSession) : Nat :=
  (Finset.univ.filter fun k => (s k).state = .empty).card

/-- The slots whose session has not been closed. -/
def unclosed (s : Fin maxSessions → RoastSession) : Nat :=
  (Finset.univ.filter fun k => (s k).state = .empty ∨ (s k).state = .awaitingShares).card

theorem vacant_le (s : Fin maxSessions → RoastSession) : vacant s ≤ maxSessions :=
  (Finset.card_filter_le ..).trans_eq (Finset.card_fin maxSessions)

theorem unclosed_le (s : Fin maxSessions → RoastSession) : unclosed s ≤ maxSessions :=
  (Finset.card_filter_le ..).trans_eq (Finset.card_fin maxSessions)

/-- A slot leaves the set, and nothing joins it. -/
theorem card_filter_lt {p q : Fin maxSessions → Prop} [DecidablePred p] [DecidablePred q]
    {k : Fin maxSessions} (hk : p k) (hk' : ¬ q k) (h : ∀ j, q j → p j) :
    (Finset.univ.filter q).card + 1 ≤ (Finset.univ.filter p).card := by
  refine Finset.card_lt_card (Finset.ssubset_iff.mpr ⟨k, by simpa using hk', fun j hj => ?_⟩)
  rcases Finset.mem_insert.mp hj with rfl | hj
  · simpa using hk
  · have := (Finset.mem_filter.mp hj).2
    simpa using h j this

variable {k : Fin maxSessions}

theorem closeSession_unclosed (hk : (c.sessions k).state = .awaitingShares) {st : RSessState}
    (hst : st = .failed ∨ st = .complete) :
    unclosed (c.closeSession k st).sessions + 1 ≤ unclosed c.sessions ∧
      vacant (c.closeSession k st).sessions ≤ vacant c.sessions := by
  have hself : ((c.closeSession k st).sessions k).state = st := by
    unfold Coord.closeSession
    rw [Coord.setSession_self]
  have hother (j : Fin maxSessions) (hj : j ≠ k) : (c.closeSession k st).sessions j =
      c.sessions j := Coord.setSession_of_ne hj _
  constructor
  · refine card_filter_lt (.inr hk) ?_ fun j hj => ?_
    · rw [hself]
      rcases hst with rfl | rfl <;> simp
    · by_cases e : j = k
      · exact e ▸ .inr hk
      · rwa [hother j e] at hj
  · refine Finset.card_le_card fun j hj => ?_
    simp only [Finset.mem_filter, Finset.mem_univ, true_and] at hj ⊢
    by_cases e : j = k
    · subst e
      rw [hself] at hj
      rcases hst with rfl | rfl <;> cases hj
    · rwa [hother j e] at hj

/-! ## What the blocks cost -/

/-- The frames queued for `i` are paid for with slots. -/
structure Pays (i : Nat) (c c' : Coord) : Prop where
  queue : ∃ fs : List Frame, (c'.sg i).msgq = (c.sg i).msgq ++ fs ∧
    fs.countP isRequest + unclosed c'.sessions ≤ unclosed c.sessions ∧
    fs.countP isBundle + vacant c'.sessions ≤ vacant c.sessions

theorem Queues.pays {r b : Nat} (h : Queues i r b c c')
    (hr : r + unclosed c'.sessions ≤ unclosed c.sessions)
    (hb : b + vacant c'.sessions ≤ vacant c.sessions) : Pays i c c' := by
  obtain ⟨fs, e, h1, h2⟩ := h
  exact ⟨fs, e, by omega, by omega⟩

theorem Queues.pays_same (h : Queues i 0 0 c c') (hs : c'.sessions = c.sessions) : Pays i c c' :=
  h.pays (by rw [hs]; omega) (by rw [hs]; omega)

/-- A session is closed, and each id is asked once at most. -/
theorem Queues.pays_closed (h : Queues i 1 0 c c') (hk : (c.sessions k).state = .awaitingShares)
    {st : RSessState} (hst : st = .failed ∨ st = .complete)
    (hs : c'.sessions = (c.closeSession k st).sessions) : Pays i c c' := by
  obtain ⟨h1, h2⟩ := closeSession_unclosed hk hst
  exact h.pays (by rw [hs]; omega) (by rw [hs]; omega)

theorem Pays.trans (h : Pays i c c') (h' : Pays i c' c'') : Pays i c c'' := by
  obtain ⟨fs, e, h1, h2⟩ := h
  obtain ⟨fs', e', h1', h2'⟩ := h'
  refine ⟨fs ++ fs', by rw [e', e, List.append_assoc], ?_, ?_⟩ <;>
    rw [List.countP_append] <;> omega

theorem signerSend_queues {r b : Nat} (c : Coord) (id : Nat) {type : MsgType} {sig payload : Bytes}
    (hr : [(⟨type, sig, payload⟩ : Frame)].countP isRequest ≤ r)
    (hb : [(⟨type, sig, payload⟩ : Frame)].countP isBundle ≤ b) :
    Queues i r b c (c.signerSend id type sig payload) := .setSg rfl hr hb

theorem signerSend_queues_of_ne {id : Nat} (h : id ≠ i) {type : MsgType} {sig payload : Bytes} :
    Queues i 0 0 c (c.signerSend id type sig payload) := .setSg_of_ne h.symm

theorem requestCommit_queues (c : Coord) (p : SPhase) (id : Nat) :
    Queues i 1 0 c (requestCommit c p id) := by
  have h : Queues i 0 0 c (c.setSg id fun r =>
      { r with signPhase := p, commit := [], sessionId := 0 }) :=
    .setSg (List.append_nil _).symm (Nat.le_refl 0) (Nat.le_refl 0)
  unfold requestCommit
  exact h.after (signerSend_queues _ id (Nat.le_refl 1) (Nat.le_refl 0))

theorem requestCommit_queues_of_ne {p : SPhase} {id : Nat} (h : id ≠ i) :
    Queues i 0 0 c (requestCommit c p id) := by
  have h1 : Queues i 0 0 c (c.setSg id fun r =>
      { r with signPhase := p, commit := [], sessionId := 0 }) := .setSg_of_ne h.symm
  unfold requestCommit
  exact h1.after (signerSend_queues_of_ne h)

theorem blacklisted_queues (c : Coord) (id : Nat) :
    Queues i 0 0 c (setPhase (blacklistSigner c id) id .blacklisted) := by
  have h1 : (blacklistSigner c id).sg = c.sg := by
    unfold blacklistSigner
    split <;> rfl
  refine .of_eq ?_
  rw [← h1]
  unfold setPhase
  split
  · by_cases e : i = id
    · rw [e, Coord.setSg_self]
    · rw [Coord.setSg_of_ne e]
  · rfl

theorem broadcastSignReq_queues (hd : c.signers.Nodup) : Queues i 1 0 c (broadcastSignReq c) := by
  refine Queues.foldl (t := fun id => id) (fun c j hj => ?_) (fun c j => ?_) (by rwa [List.map_id']) c
  · split
    · exact .of_eq rfl
    · exact requestCommit_queues_of_ne hj
  · split
    · exact .of_eq rfl
    · exact requestCommit_queues c .init j

theorem culpritReset_queues {x : Nat} (hd : (c.sessions k).signerIds.Nodup) :
    Queues i 1 0 c (culpritReset c k x) := by
  have h0 : Queues i 0 0 c (setPhase (blacklistSigner (c.closeSession k .failed) x) x
      .blacklisted) := blacklisted_queues (c.closeSession k .failed) x
  refine h0.after (Queues.foldl (t := fun id => id) (fun c j hj => ?_) (fun c j => ?_)
    (by rwa [List.map_id']) _)
  · split
    · exact requestCommit_queues_of_ne hj
    · exact .of_eq rfl
  · split
    · exact requestCommit_queues c .init j
    · exact .of_eq rfl

theorem expireMember_queues (c : Coord) (k : Fin maxSessions) (j id : Nat) :
    Queues i 1 0 c (expireMember c k j id) ∧ (id ≠ i → Queues i 0 0 c (expireMember c k j id)) := by
  have hs : Queues i 0 0 c (addStrike c id) := .of_eq (by rw [addStrike_sg])
  unfold expireMember
  split
  · split
    · exact ⟨requestCommit_queues c .init id, requestCommit_queues_of_ne⟩
    · dsimp only
      split
      · have h := hs.after (blacklisted_queues (addStrike c id) id)
        exact ⟨h.mono (Nat.zero_le 1) (Nat.le_refl 0), fun _ => h⟩
      · exact ⟨hs.after (requestCommit_queues (addStrike c id) .suspect id),
          fun h => hs.after (requestCommit_queues_of_ne h)⟩
  · exact ⟨.of_eq rfl, fun _ => .of_eq rfl⟩

theorem expireMembers_queues (hd : (c.sessions k).signerIds.Nodup) :
    Queues i 1 0 c (expireMembers c k) := by
  have h : Queues i 1 0 (c.closeSession k .failed) (expireMembers c k) := by
    refine Queues.foldl (t := Prod.fst) (fun c p hp => (expireMember_queues c k p.2 p.1).2 hp)
      (fun c p => (expireMember_queues c k p.2 p.1).1) ?_ _
    rwa [List.zipIdx_map_fst]
  exact h

theorem tryForm_pays (hd : c.signers.Nodup) (env : Env) : Pays i c (tryForm c env) := by
  rcases tryForm_cases c env with e | ⟨k, spkg, wire, hf, e⟩
  · rw [e]
    exact (Queues.of_eq rfl).pays_same rfl
  rw [e]
  obtain ⟨hself, hother⟩ := openSession_sessions c k (chooseSigners c) spkg wire env.now
  have hempty := (roastAlloc_some hf.slot).1
  have hq : Queues i 0 1 c (openSession c k (chooseSigners c) spkg wire env.now) := by
    have h : Queues i 0 1 (fillSlot c k (chooseSigners c) spkg env.now)
        (openSession c k (chooseSigners c) spkg wire env.now) := by
      refine Queues.foldl (t := fun id => id) (fun d j hj => ?_) (fun d j => ?_)
        (by rw [List.map_id']; exact chooseSigners_nodup c hd) _
      · exact .of_eq (by rw [assignMember_of_ne (Ne.symm hj)])
      · by_cases e : j = i
        · subst e
          refine ⟨[⟨.relayCommit, [], wire⟩], ?_, Nat.le_refl 0, Nat.le_refl 1⟩
          rw [assignMember_self]
          rfl
        · exact .of_eq (by rw [assignMember_of_ne (Ne.symm e)])
    exact h
  have hstate (j : Fin maxSessions) (hj : j ≠ k) :=
    congrArg RoastSession.state (hother j hj)
  refine hq.pays ?_ ?_
  · rw [Nat.zero_add]
    refine Finset.card_le_card fun j hj => ?_
    simp only [Finset.mem_filter, Finset.mem_univ, true_and] at hj ⊢
    by_cases e : j = k
    · exact e ▸ .inl hempty
    · rwa [hstate j e] at hj
  · rw [Nat.add_comm]
    refine card_filter_lt hempty ?_ fun j hj => ?_
    · rw [hself]
      exact nofun
    · by_cases e : j = k
      · exact e ▸ hempty
      · rwa [hstate j e] at hj

theorem Idle.pays (h : Idle c c') : Pays i c c' := by
  obtain ⟨fs, e, hfs⟩ := (h.sg i).queue
  refine Queues.pays_same ⟨fs, e, ?_, ?_⟩ h.sessions
  · refine (List.countP_eq_zero.mpr fun f hf => ?_).le
    have := hfs f hf
    unfold isRequest
    intro ht
    rw [of_decide_eq_true ht] at this
    cases this
  · refine (List.countP_eq_zero.mpr fun f hf => ?_).le
    have := hfs f hf
    unfold isBundle
    intro ht
    rw [of_decide_eq_true ht] at this
    cases this

theorem RecOnly.sessions_eq (h : RecOnly c c') : c'.sessions = c.sessions := by
  obtain ⟨_, _, _, rfl⟩ := h
  rfl

theorem pays_blocks (i : Nat) : Blocks (fun _ => True) fun p q => Pays i p.1 q.1 where
  refl := fun _ => (Queues.of_eq rfl).pays_same rfl
  trans := Pays.trans
  ceremony := fun hi _ => hi.pays
  form := fun h _ => tryForm_pays h.signing.table.ids.distinct _
  certify := by
    intro c g env k bytes h _ hk _ _
    have hfin : Queues i 0 0 c (finishSession c k) := .of_eq rfl
    unfold aggregateOk
    cases hm : callMint (finishSession c k) env bytes with
    | none => exact (hfin.mono (Nat.zero_le 1) (Nat.le_refl 0)).pays_closed hk (.inr rfl) rfl
    | some d =>
      obtain ⟨cert, -, rfl⟩ := Option.map_eq_some_iff.mp hm
      have hq : Queues i 0 0 (countCert (finishSession c k) cert)
          ((countCert (finishSession c k) cert).broadcast .certOutput []) := by
        refine Queues.foldl (t := fun id => id) (fun d j hj => ?_) (fun d j => ?_)
          (by rw [List.map_id']; exact h.signing.table.ids.distinct) _
        · exact signerSend_queues_of_ne hj
        · exact signerSend_queues d j (Nat.le_refl 0) (Nat.le_refl 0)
      obtain ⟨_, hshape⟩ := broadcast_sgOnly (countCert (finishSession c k) cert) .certOutput []
      have hcount : Queues i 0 0 c (countCert (finishSession c k) cert) := .of_eq rfl
      refine ((hcount.after hq).mono (Nat.zero_le 1) (Nat.le_refl 0)).pays_closed hk (.inr rfl) ?_
      rw [hshape]
      rfl
  abandon := by
    intro c g env k h _ hk _
    have hm : Queues i 0 0 c (blacklistMembers c k) := by
      have h1 : Queues i 0 0 (c.closeSession k .failed) (blacklistMembers c k) :=
        Queues.foldl (t := fun id => id) (fun d j _ => blacklisted_queues d j) blacklisted_queues
          (by rw [List.map_id']; exact (h.signing.table.members k hk).distinct) _
      exact h1
    have hrec := blacklistMembers_recOnly c k
    have hsig : (blacklistMembers c k).signers.Nodup := by
      obtain ⟨_, _, _, e⟩ := hrec
      rw [e]
      exact h.signing.table.ids.distinct
    unfold blacklistSession
    dsimp only
    have hb {d : Coord} (hd : d.signers = (blacklistMembers c k).signers)
        (hs : d.sessions = (blacklistMembers c k).sessions)
        (hsg : d.sg = (blacklistMembers c k).sg) : Pays i c (broadcastSignReq d) := by
      have h1 : Queues i 0 0 c d := by
        obtain ⟨fs, e, h2⟩ := hm
        exact ⟨fs, by rw [hsg, e], h2⟩
      obtain ⟨_, hshape⟩ := broadcastSignReq_sgOnly d
      refine (h1.after (broadcastSignReq_queues (hd ▸ hsig))).pays_closed hk (.inl rfl) ?_
      rw [hshape]
      exact hs.trans hrec.sessions_eq
    split <;> exact hb rfl rfl rfl
  blame := fun h _ hk _ _ _ => (culpritReset_queues
    (h.signing.table.members _ hk).distinct).pays_closed hk (.inl rfl)
      (culpritReset_recOnly _ _ _).sessions_eq
  decide := by
    intro c g b
    have h : Queues i 0 0 c { c with roastFail := b } := .of_eq rfl
    exact h.pays_same rfl
  expire := fun h hk => (expireMembers_queues
    (h.signing.table.members _ hk).distinct).pays_closed hk (.inl rfl)
      (expireMembers_recOnly _ _).sessions_eq

/-! ## Every event -/

/-- `i` is registered by the event. -/
def joined (i : Nat) (c : Coord) (e : Event) : Nat :=
  if i ∉ c.signers ∧ i ∈ (step c e).signers then 1 else 0

/-- The event begins the next certificate. -/
def restarted (c : Coord) : Event → Nat
  | .loopHead _ =>
    if c.exited = false ∧ c.roastFail = false ∧ c.signingDone = true ∧ 0 < c.toMint then 1 else 0
  | _ => 0

/-- What an event that queues `fs` for `i` may cost. -/
structure Charged (i : Nat) (c : Coord) (e : Event) : Prop where
  requests : (queuedBy c e i).countP isRequest + unclosed (step c e).sessions ≤
    unclosed c.sessions + (joined i c e + 65 * restarted c e)
  bundles : (queuedBy c e i).countP isBundle + vacant (step c e).sessions ≤
    vacant c.sessions + 64 * restarted c e

theorem Pays.charged {e : Event} (h : Pays i c (step c e)) (hk : kept c e i = (c.sg i).msgq) :
    Charged i c e := by
  obtain ⟨fs, hq, hr, hb⟩ := h
  rw [← hk] at hq
  constructor <;> rw [queuedBy_eq hq] <;> omega

theorem unclosed_congr {s s' : Fin maxSessions → RoastSession}
    (h : ∀ k, (s' k).state = (s k).state) : unclosed s' = unclosed s ∧ vacant s' = vacant s := by
  unfold unclosed vacant
  simp only [h, and_self]

theorem Taken.pays {e : Event} {d : Coord} (ht : Taken c e d)
    (hhello : ∀ env payload, e ≠ .hello env payload) (hdrain : ∀ j, e ≠ .drain j) :
    Pays i c d := by
  have hset {j : Nat} {g : SignerRec → SignerRec} (hg : (g (c.sg j)).msgq = (c.sg j).msgq) :
      Queues i 0 0 c (c.setSg j g) :=
    .setSg (l := []) (by rw [hg, List.append_nil]) (Nat.le_refl 0) (Nat.le_refl 0)
  cases ht with
  | nothing => exact (Queues.of_eq rfl).pays_same rfl
  | claim => exact absurd rfl (hhello _ _)
  | signer => exact absurd rfl (hhello _ _)
  | drained => exact absurd rfl (hdrain _)
  | @gone j _ =>
    have h : Queues i 0 0 c (removeSigner c j) := .of_eq rfl
    exact h.pays_same rfl
  | commit _ _ _ => exact (hset rfl).pays_same rfl
  | keyless _ _ => exact (hset rfl).pays_same rfl
  | @share j f env k slot _ _ _ =>
    have hstate (l : Fin maxSessions) : ((fileShare c k slot j f.payload).sessions l).state =
        (c.sessions l).state := by
      by_cases e : l = k
      · rw [e, fileShare_session]
      · rw [fileShare_session_of_ne e]
    obtain ⟨h1, h2⟩ := unclosed_congr hstate
    have h : Queues i 0 0 c (fileShare c k slot j f.payload) := by
      refine .of_eq ?_
      unfold fileShare
      by_cases e : i = j
      · rw [e, Coord.setSg_self]
        rfl
      · rw [Coord.setSg_of_ne e]
        rfl
    exact h.pays (by omega) (by omega)

/-- The head of the loop. -/
theorem loopHead_charged (h : Signing c) (hx : c.exited = false) (env : TbsEnv) :
    Charged i c (.loopHead env) := by
  have hstep : step c (.loopHead env) = loopHead c env := step_loopHead hx env
  by_cases hr : c.exited = false ∧ c.roastFail = false ∧ c.signingDone = true ∧ 0 < c.toMint
  · obtain ⟨-, hfail, hdone, hmint⟩ := hr
    have hone : restarted c (.loopHead env) = 1 := if_pos ⟨hx, hfail, hdone, hmint⟩
    have hnext : loopHead c env = nextMint c env := by
      unfold loopHead
      rw [hfail, if_neg Bool.false_ne_true, if_pos ⟨hdone, h.mode⟩, if_pos hmint]
    obtain ⟨d, tbs, hex, e⟩ := prepareTbs_cases (advanceSerial c) env
    have hprep : (resume (prepareTbs (advanceSerial c) env).1).sg = c.sg ∧
        (resume (prepareTbs (advanceSerial c) env).1).signers = c.signers := by
      rcases e with e | e <;> rw [e] <;> exact ⟨rfl, rfl⟩
    have hq := broadcastSignReq_queues (i := i) (c := resume (prepareTbs (advanceSerial c) env).1)
      (hprep.2 ▸ h.table.ids.distinct)
    obtain ⟨fs, hfs, h1, h2⟩ := hq
    rw [hprep.1] at hfs
    have hqueue : queuedBy c (.loopHead env) i = fs := queuedBy_eq (by
      rw [hstep, hnext]
      exact hfs)
    have hu := unclosed_le (step c (.loopHead env)).sessions
    have hv := vacant_le (step c (.loopHead env)).sessions
    unfold maxSessions at hu hv
    constructor <;> rw [hqueue, hone] <;> omega
  · refine Pays.charged ?_ rfl
    rw [hstep]
    have hexit : Pays i c (exitIfQuiet c) := by
      unfold exitIfQuiet
      split
      · have h : Queues i 0 0 c { c with exited := true } := .of_eq rfl
        exact h.pays_same rfl
      · exact (Queues.of_eq rfl).pays_same rfl
    unfold loopHead
    split; · exact hexit
    next hfail =>
    split
    · next hdone =>
      split
      · next hmint => exact absurd ⟨hx, by simpa using hfail, hdone.1, hmint⟩ hr
      · exact hexit
    split
    · exact hexit
    · exact (Queues.of_eq rfl).pays_same rfl

/-- A `HELLO`. -/
theorem hello_charged (h : Signing c) (hx : c.exited = false) (env : HelloEnv) (payload : Bytes) :
    Charged i c (.hello env payload) := by
  have hstep := step_hello hx env payload
  rcases onHello_taken c env payload with e | ⟨pid, pn, pt, -, -, e | ⟨hr, e⟩⟩
  · rw [← hstep] at e
    refine Pays.charged ?_ (kept_hello_same (by rw [e]) i)
    rw [e]
    exact (Queues.of_eq rfl).pays_same rfl
  · rw [← hstep] at e
    refine Pays.charged ?_ (kept_hello_same (by rw [e]) i)
    have hq : Queues i 0 0 c (step c (.hello env payload)) := .of_eq (by rw [e])
    exact hq.pays_same (by rw [e])
  rw [← hstep] at e
  have hm : ({ c with n := pn, t := pt } : Coord).mode = .sign := h.mode
  obtain ⟨_, hshape⟩ := promote_shape hm pid
  have hse : (step c (.hello env payload)).sessions = c.sessions := by rw [e, hshape]
  have hk := kept_hello hr.new e i
  rw [enroll_sg] at hk
  by_cases hpid : i = pid
  · subst hpid
    rw [if_pos rfl] at hk
    have hqueue : queuedBy c (.hello env payload) i =
        [⟨.helloAck, [], ackText i c.mode⟩, ⟨.signReq, [], c.tbs⟩] := by
      refine queuedBy_eq ?_
      rw [hk, e, promote_sg hm]
      rfl
    have hjoin : joined i c (.hello env payload) = 1 := by
      refine if_pos ⟨hr.new, ?_⟩
      rw [e, promote_signers]
      exact List.mem_cons_self ..
    constructor <;> rw [hqueue, hse]
    · rw [hjoin]
      have : [(⟨.helloAck, [], ackText i c.mode⟩ : Frame), ⟨.signReq, [], c.tbs⟩].countP
        isRequest = 1 := rfl
      omega
    · have : [(⟨.helloAck, [], ackText i c.mode⟩ : Frame), ⟨.signReq, [], c.tbs⟩].countP
        isBundle = 0 := rfl
      omega
  · rw [if_neg hpid] at hk
    refine Pays.charged ?_ hk
    have hq : Queues i 0 0 c (step c (.hello env payload)) :=
      .of_eq (by rw [e, promote_sg_of_ne hm hpid])
    exact hq.pays_same hse

/-- **Every event is paid for.** -/
theorem step_charged (h : Signing c) (hu : Unclaimed c) (e : Event) : Charged i c e := by
  cases hx : c.exited with
  | true =>
    have hsame : step c e = c := step_exited hx e
    have hk : kept c e i = (c.sg i).msgq := by
      cases e with
      | hello env payload => exact kept_hello_same (by rw [hsame]) i
      | drain j => exact if_neg fun h' => by rw [hx] at h'; exact Bool.noConfusion h'.2.2
      | _ => rfl
    refine Pays.charged ?_ hk
    rw [hsame]
    exact (Queues.of_eq rfl).pays_same rfl
  | false =>
    have hblock (e : Event) (hhello : ∀ env payload, e ≠ .hello env payload)
        (hdrain : ∀ j, e ≠ .drain j) (hhead : ∀ env, e ≠ .loopHead env) : Pays i c (step c e) :=
      (pays_blocks i).step (g := fun _ => none) h hu e.answered_true
        (fun d ht => ht.pays hhello hdrain) fun env he => absurd he (hhead env)
    cases e with
    | loopHead env => exact loopHead_charged h hx env
    | hello env payload => exact hello_charged h hx env payload
    | drain j =>
      have hq : queuedBy c (.drain j) i = [] :=
        queuedBy_eq (by rw [kept_drain hx j i, List.append_nil])
      have hse : (step c (.drain j)).sessions = c.sessions := by
        rw [step_drain hx]
        split <;> rfl
      constructor <;> rw [hq, hse, List.countP_nil] <;> omega
    | expire now env => exact (hblock (.expire now env) nofun nofun nofun).charged rfl
    | disconnect j => exact (hblock (.disconnect j) nofun nofun nofun).charged rfl
    | frame j f env => exact (hblock (.frame j f env) nofun nofun nofun).charged rfl

/-! ## Every run -/

theorem queued_countP (p : Frame → Bool) (i : Nat) (es : List Event) : ∀ c : Coord,
    (queued c es i).countP p = total step (fun c e => (queuedBy c e i).countP p) c es := by
  induction es with
  | nil => exact fun _ => rfl
  | cons e es ih =>
    intro c
    show (queuedBy c e i ++ queued (step c e) es i).countP p = _
    rw [List.countP_append, ih, total_cons]

/-- **Traffic is bounded.** Over every run of sign mode, whatever the signers send, signer
`i` is sent no more requests than it registers and 65 for each certificate begun, and no
more bundles than 64 for each. What is left of the table is left of the bound. -/
theorem sign_traffic {c₀ : Coord} (h₀ : Started c₀) (hm : c₀.mode = .sign) (i : Nat)
    (es : List Event) :
    (queued c₀ es i).countP isRequest + unclosed (run step c₀ es).sessions ≤
        64 + total step (joined i) c₀ es + 65 * total step restarted c₀ es ∧
      (queued c₀ es i).countP isBundle + vacant (run step c₀ es).sessions ≤
        64 + 64 * total step restarted c₀ es := by
  have hstart : Signing c₀ ∧ Unclaimed c₀ := by
    refine ⟨h₀.signing hm, fun _ => ?_⟩
    have hun := h₀.unused
    refine ⟨hun.signers, fun k hk => ?_⟩
    rw [hun.sessions] at hk
    cases hk
  have hsteps : Along step (fun _ _ => True) c₀ es := .of_forall fun _ _ => trivial
  have hinv (c : Coord) (e : Event) (hi : Signing c ∧ Unclaimed c) (_ : True) :
      Signing (step c e) ∧ Unclaimed (step c e) := ⟨hi.1.step e, hi.2.step hi.1 e⟩
  have hu := unclosed_le c₀.sessions
  have hv := vacant_le c₀.sessions
  unfold maxSessions at hu hv
  constructor
  · have h := total_le_of_potential (fun c e => (queuedBy c e i).countP isRequest)
      (fun c e => joined i c e + 65 * restarted c e) (fun c => unclosed c.sessions)
      hinv (fun c e hi _ => (step_charged hi.1 hi.2 e).requests) hstart hsteps
    rw [← queued_countP, total_add, total_mul] at h
    omega
  · have h := total_le_of_potential (fun c e => (queuedBy c e i).countP isBundle)
      (fun c e => 64 * restarted c e) (fun c => vacant c.sessions)
      hinv (fun c e hi _ => (step_charged hi.1 hi.2 e).bundles) hstart hsteps
    rw [← queued_countP, total_mul] at h
    omega

/-- One certificate of two: signer 1 is asked twice and gets one bundle. -/
theorem sign_traffic_run :
    let es := openingRun ++ mintRun ++ [.loopHead sampleTbs]
    let c := run step (signStart 2 2 2) es
    ((queued (signStart 2 2 2) es 1).countP isRequest = 2 ∧
      (queued (signStart 2 2 2) es 1).countP isBundle = 1) ∧
    (queued (signStart 2 2 2) es 1).countP isRequest + unclosed c.sessions ≤
        64 + total step (joined 1) (signStart 2 2 2) es +
          65 * total step restarted (signStart 2 2 2) es ∧
      (queued (signStart 2 2 2) es 1).countP isBundle + vacant c.sessions ≤
        64 + 64 * total step restarted (signStart 2 2 2) es :=
  ⟨by decide +kernel,
    sign_traffic (signStart_started (by decide) (by decide) (by decide)) rfl 1 _⟩

end FrostSshCa.Coordinator
