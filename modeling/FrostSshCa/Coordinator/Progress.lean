import FrostSshCa.Coordinator.Parked
import FrostSshCa.Coordinator.Robust

/-!
# How long signing takes

While `g_t` registered signers have answered and signing is not done, some session is
open: nobody is parked in a dead one, and those that wait would have formed another.
A scan that finds every open session overdue therefore fails one, and for `f` signers
that misbehave there are `MAX_STRIKES * f` of these scans and no more. The 64 slots of a
certificate must be enough for the sessions that fail.
-/

namespace FrostSshCa.Coordinator

open Lib

variable {valid : Bytes → Bool} {c c' : Coord} {k : Fin maxSessions}

/-! ## The life of a session -/

/-- The states a session record goes through, with the success flag afterwards. -/
inductive Ages (done : Bool) : RSessState → RSessState → Prop
  | stays (s : RSessState) : Ages done s s
  | opens : Ages done .empty .awaitingShares
  | fails : Ages done .awaitingShares .failed
  | completes (h : done = true) : Ages done .awaitingShares .complete

/-- Every session record goes at most one state further, and the flag stays set. -/
structure Aged (c c' : Coord) : Prop where
  flag : DoneKept c c'
  slots : ∀ k, Ages c'.signingDone (c.sessions k).state (c'.sessions k).state

theorem Aged.still (hf : DoneKept c c') (hs : c'.sessions = c.sessions) : Aged c c' :=
  ⟨hf, fun k => by rw [hs]; exact .stays _⟩

theorem Aged.closed {p : RSessState} (hf : DoneKept c c')
    (hk : (c.sessions k).state = .awaitingShares)
    (hs : c'.sessions = (c.closeSession k p).sessions)
    (hp : p = .failed ∨ p = .complete ∧ c'.signingDone = true) : Aged c c' := by
  refine ⟨hf, fun j => ?_⟩
  rw [hs]
  unfold Coord.closeSession
  by_cases hj : j = k
  · rw [hj, Coord.setSession_self, hk]
    rcases hp with rfl | ⟨rfl, hd⟩
    · exact .fails
    · exact .completes hd
  · rw [Coord.setSession_of_ne hj]
    exact .stays _

theorem tryForm_done (c : Coord) (env : Env) : (tryForm c env).signingDone = c.signingDone := by
  rcases tryForm_cases c env with e | ⟨k, spkg, wire, -, e⟩
  · rw [e]
  · obtain ⟨_, e'⟩ := openSession_sgOnly c k (chooseSigners c) spkg wire env.now
    rw [e, e']
    rfl

/-- An attempt to form a session fills a slot that was empty all along. -/
theorem Aged.form (h : Aged c c') (env : Env) : Aged c (tryForm c' env) := by
  refine ⟨fun hd => tryForm_doneKept c' env (h.flag hd), fun k => ?_⟩
  have hk := h.slots k
  rw [tryForm_done]
  rcases (tryForm_slots c' env).2 k with e | ⟨hempty, hopen, -⟩
  · rw [e]
    exact hk
  · rw [hempty] at hk
    rw [hopen]
    cases hk' : (c.sessions k).state with
    | empty => exact .opens
    | _ => rw [hk'] at hk; cases hk

/-- The answer of `aggregate`. -/
theorem Aged.answer (hk : (c.sessions k).state = .awaitingShares) (env : Env)
    (r : AggregateResult) : Aged c (onAggregate c env k r) := by
  have hfall (hd : DoneKept c (blacklistSession c k)) : Aged c (blacklistSession c k) := by
    obtain ⟨_, _, e⟩ := blacklistSession_shape c k
    obtain ⟨_, _, _, e'⟩ := blacklistMembers_recOnly c k
    exact .closed (p := .failed) hd hk (by rw [e, e']) (.inl rfl)
  have hdone := onAggregate_doneKept c env k r
  cases r with
  | notRun => exact .still hdone rfl
  | sig bytes =>
    dsimp only [onAggregate] at hdone ⊢
    split
    · next hlen =>
      rw [if_pos hlen] at hdone
      exact hfall hdone
    · next hlen =>
      rw [if_neg hlen] at hdone
      refine .closed (p := .complete) hdone hk (aggregateOk_shape c env k bytes).2.2.2
        (.inr ⟨rfl, ?_⟩)
      unfold aggregateOk callMint
      split
      · rfl
      · next d hd =>
        obtain ⟨cert, -, rfl⟩ := Option.map_eq_some_iff.mp hd
        obtain ⟨_, e⟩ := broadcast_sgOnly (countCert (finishSession c k) cert) .certOutput []
        rw [e]
        rfl
  | culprit x =>
    dsimp only [onAggregate] at hdone ⊢
    split
    · obtain ⟨_, _, _, e⟩ := culpritReset_recOnly c k x
      have hclosed : Aged c (culpritReset c k x) :=
        .closed (p := .failed) (culpritReset_recOnly c k x).doneKept hk (by rw [e]) (.inl rfl)
      have hform := hclosed.form env
      exact ⟨hform.flag, hform.slots⟩
    · next hx =>
      rw [if_neg hx] at hdone
      exact hfall hdone
  | failed => exact hfall hdone

theorem loopHead_aged {env : TbsEnv} (hst : Steady c (.loopHead env)) :
    Aged c (loopHead c env) ∨ (loopHead c env).sessions = fun _ => RoastSession.zero := by
  have hexit : Aged c (exitIfQuiet c) := by
    unfold exitIfQuiet
    split <;> exact .still (.of_eq rfl) rfl
  unfold loopHead
  split; · exact .inl hexit
  next hrf =>
  split
  · next hdone =>
    split
    · next hmint =>
      right
      obtain ⟨_, e⟩ := broadcastSignReq_sgOnly (resume (prepareTbs (advanceSerial c) env).1)
      unfold nextMint
      rw [e]
      exact prepareTbs_clears (hst (by simpa using hrf) hdone.1 hmint)
    · exact .inl hexit
  split
  · exact .inl hexit
  · exact .inl (.still (fun h => h) rfl)

/-- A scan fails what is overdue and opens what was empty. -/
theorem Scanned.aged {now : Nat} (hd : c.signingDone = false)
    (h : Scanned now c c' (List.finRange maxSessions)) : Aged c c' := by
  refine ⟨fun hd' => absurd hd' (by rw [hd]; simp), fun k => ?_⟩
  by_cases hempty : (c.sessions k).state = .empty
  · rcases h.fresh k hempty with e | ⟨hopen, -⟩
    · rw [e]
      exact .stays _
    · rw [hempty, hopen]
      exact .opens
  · rw [h.used k hempty]
    split
    · next hover =>
      rw [(overdue_iff.mp hover.2).1]
      exact .fails
    · exact .stays _

theorem onHello_aged (hs : Signing c) (env : HelloEnv) (payload : Bytes) :
    Aged c (onHello c env payload).1 := by
  rcases onHello_taken c env payload with e | ⟨pid, pn, pt, -, -, e | ⟨-, e⟩⟩
  · rw [e]
    exact .still (.of_eq rfl) rfl
  · rw [e]
    exact .still (.of_eq rfl) rfl
  · have hm : ({ c with n := pn, t := pt } : Coord).mode = .sign := hs.mode
    obtain ⟨_, hshape⟩ := promote_shape hm pid
    rw [e, hshape]
    exact .still (.of_eq rfl) rfl

theorem onCommit_aged (c : Coord) (env : Env) (i : Nat) (f : Frame) :
    Aged c (onCommit c env i f) := by
  rcases onCommit_cases c env i f with e | ⟨-, e⟩
  · rw [e]
    exact .still (fun h => h) rfl
  · have hstored : Aged c (storeCommit c i f) := .still (.of_eq rfl) rfl
    rw [e]
    exact hstored.form env

theorem sigShare_aged (hx : c.exited = false) {i : Nat} (hi : i ∈ c.signers) {f : Frame}
    (hf : f.type = .sigShare) (env : Env) : Aged c (step c (.frame i f env)) := by
  rcases @step_sigShare_cases c i f env hx hi hf with e | ⟨k, slot, hst, e | ⟨stdin, -, e⟩⟩
  · rw [e]
    exact .still (fun h => h) rfl
  · rw [e]
    refine ⟨.of_eq rfl, fun j => ?_⟩
    rw [(fileShare_open c k j slot i f.payload).1]
    exact .stays _
  · have hopen (j : Fin maxSessions) := (fileShare_open c k j slot i f.payload).1
    have h := Aged.answer ((hopen k).trans hst.open') env (env.aggregate stdin)
    rw [e]
    refine ⟨h.flag, fun j => ?_⟩
    rw [← hopen j]
    exact h.slots j

theorem frame_aged (hs : Signing c) (hx : c.exited = false) {i : Nat} (hi : i ∈ c.signers)
    (f : Frame) (env : Env) : Aged c (step c (.frame i f env)) := by
  cases hsign : MsgType.signing f.type with
  | false =>
    rw [step_frame_of_mem hx hi]
    exact .still (processSignerFrame_doneKept c env i f)
      (ceremony_idle hs.mode hs.dkgState env i f hsign).sessions
  | true =>
    cases e : f.type with
    | commit =>
      rw [step_frame_of_mem hx hi]
      unfold processSignerFrame
      rw [e]
      exact onCommit_aged c env i f
    | sigShare => exact sigShare_aged hx hi e env
    | shareLoadFail =>
      rw [step_frame_of_mem hx hi]
      unfold processSignerFrame
      rw [e]
      exact .still (.of_eq rfl) rfl
    | _ => rw [e] at hsign; cases hsign

/-- **One event**: no session record skips a state, or the restart clears them all. -/
theorem step_aged (hb : Bars c) (hs : Signing c) {e : Event} (hst : Steady c e) :
    Aged c (step c e) ∨ (step c e).sessions = fun _ => RoastSession.zero := by
  have hsame : Aged c c := .still (fun h => h) rfl
  cases hx : c.exited with
  | true =>
    rw [step_exited hx]
    exact .inl hsame
  | false =>
  cases e with
  | loopHead env =>
    rw [step_loopHead hx]
    exact loopHead_aged hst
  | expire now env =>
    left
    rw [step_expire hx]
    split
    · next hrun => exact (Scanned.all hb hst (List.nodup_finRange maxSessions)).1.aged hrun.2
    · exact hsame
  | hello env payload =>
    left
    rw [step_hello hx]
    exact onHello_aged hs env payload
  | drain i =>
    left
    rw [step_drain hx]
    split <;> exact .still (.of_eq rfl) rfl
  | disconnect i =>
    left
    rw [step_disconnect hx]
    split <;> exact .still (.of_eq rfl) rfl
  | frame i f env =>
    left
    by_cases hi : i ∈ c.signers
    · exact frame_aged hs hx hi f env
    · rw [step_frame hx, if_neg hi]
      exact hsame

/-! ## Nobody waits for nothing -/

/-- The sessions of the certificate that have failed. -/
def fallen (c : Coord) : Nat := (Finset.univ.filter fun k => (c.sessions k).state = .failed).card

theorem fallen_zero (h : c.sessions = fun _ => RoastSession.zero) : fallen c = 0 := by
  unfold fallen
  rw [h]
  simp [RoastSession.zero]

theorem fallen_step (hb : Bars c) (hs : Signing c) {e : Event} (hst : Steady c e) :
    fallen (step c e) ≤ fallen c + failures c e := by
  rcases step_aged hb hs hst with h | hz
  · refine le_trans (Finset.card_le_card fun k hk => ?_) (Finset.card_union_le _ _)
    have hk' := (Finset.mem_filter.mp hk).2
    have hage := h.slots k
    rw [hk'] at hage
    cases hck : (c.sessions k).state with
    | failed => exact Finset.mem_union_left _ (Finset.mem_filter.mpr ⟨Finset.mem_univ k, hck⟩)
    | awaitingShares =>
      exact Finset.mem_union_right _ (Finset.mem_filter.mpr ⟨Finset.mem_univ k, hck, hk'⟩)
    | _ => rw [hck] at hage; cases hage
  · rw [fallen_zero hz]
    exact Nat.zero_le _

/-- A complete session is the signature of the certificate. -/
def Crowned (c : Coord) : Prop :=
  ∀ k, (c.sessions k).state = .complete → c.signingDone = true

theorem Crowned.step (h : Crowned c) (hb : Bars c) (hs : Signing c) {e : Event}
    (hst : Steady c e) : Crowned (step c e) := by
  intro k hk
  rcases step_aged hb hs hst with hage | hz
  · have hslot := hage.slots k
    rw [hk] at hslot
    cases hck : (c.sessions k).state with
    | complete => exact hage.flag (h k hck)
    | awaitingShares =>
      rw [hck] at hslot
      cases hslot with
      | completes hd => exact hd
    | _ => rw [hck] at hslot; cases hslot
  · rw [hz] at hk
    cases hk

instance (r : SignerRec) : Decidable r.Parked := inferInstanceAs (Decidable (_ ∨ _))

/-- Not blacklisted, and either in a session or ready for one. -/
def answered (valid : Bytes → Bool) (c : Coord) (id : Nat) : Bool :=
  !isBlacklisted c id && decide (c.sg id).Parked || ready valid c id

/-- Signing is not done, and `g_t` registered signers have answered. -/
def Manned (valid : Bytes → Bool) (c : Coord) : Prop :=
  c.exited = false ∧ c.signingDone = false ∧ 0 < c.t ∧ c.t ≤ c.signers.countP (answered valid c)

instance : Decidable (Manned valid c) := inferInstanceAs (Decidable (_ ∧ _))

/-- What every state of the run has. -/
structure Lively (valid : Bytes → Bool) (c : Coord) : Prop where
  poised : Poised c
  signing : Signing c
  roster : Roster c
  unclaimed : Unclaimed c
  eager : Eager valid c
  request : c.tbs ≠ []
  placed : ∃ B u, Places B 0 (fun _ => False) c ∧ Numbered c B u
  crowned : Crowned c

theorem Started.lively {c₀ : Coord} (h₀ : Started c₀) (hm : c₀.mode = .sign) :
    Lively valid c₀ := by
  have hun := h₀.unused
  refine ⟨h₀.poised hm, h₀.signing hm, h₀.roster, fun _ => ⟨hun.signers, fun k => ?_⟩,
    hun.eager hm, h₀.request hm, ⟨0, 0, hun.places hm⟩, fun k hk => ?_⟩
  · rw [hun.sessions]
    simp [RoastSession.zero]
  · rw [hun.sessions] at hk
    cases hk

theorem Lively.step (h : Lively valid c) (hempty : valid [] = false) {e : Event}
    (hst : Steady c e) (hgood : TakesGood valid c e) (hcore : CoreRuns valid e) :
    Lively valid (step c e) := by
  obtain ⟨B, u, hplaces, hnum⟩ := h.placed
  obtain ⟨B', u', hplaces', hnum', -⟩ := hplaces.step e hnum
  exact ⟨h.poised.step h.signing h.roster h.unclaimed hst, h.signing.step e, h.roster.step e,
    h.unclaimed.step h.signing e, h.eager.step e hempty h.request hgood hcore,
    step_request h.request e, ⟨B', u', hplaces', hnum'⟩,
    h.crowned.step h.poised.bars h.signing hst⟩

/-- **Some session is open**: with none, whoever has answered waits, and `g_t` that wait
would have been put in a session. -/
theorem Lively.open' (h : Lively valid c) (hman : Manned valid c) (hfits : Fits valid c)
    (hslots : fallen c < maxSessions) : ∃ k, (c.sessions k).state = .awaitingShares := by
  obtain ⟨-, hdone, ht, hcount⟩ := hman
  by_contra hno
  have hopen (k : Fin maxSessions) : (c.sessions k).state ≠ .awaitingShares :=
    fun hk => hno ⟨k, hk⟩
  have hcomplete (k : Fin maxSessions) : (c.sessions k).state ≠ .complete := by
    intro hk
    rw [h.crowned k hk] at hdone
    cases hdone
  have hslot : ∃ k, (c.sessions k).state = .empty := by
    by_contra hfull
    have hall : (Finset.univ.filter fun k => (c.sessions k).state = .failed) = Finset.univ := by
      refine Finset.filter_true_of_mem fun k _ => ?_
      cases hk : (c.sessions k).state with
      | failed => rfl
      | empty => exact absurd ⟨k, hk⟩ hfull
      | awaitingShares => exact absurd hk (hopen k)
      | complete => exact absurd hk (hcomplete k)
    unfold fallen at hslots
    rw [hall, Finset.card_univ, Fintype.card_fin] at hslots
    omega
  have hwait : c.signers.countP (answered valid c) ≤ waiting valid c := by
    refine List.countP_mono_left fun i hi hans => ?_
    unfold answered at hans
    rw [Bool.or_eq_true, Bool.and_eq_true, Bool.not_eq_true', decide_eq_true_eq] at hans
    refine hans.resolve_left fun ⟨hunlisted, hparked⟩ => ?_
    obtain ⟨_, _, hplaces, -⟩ := h.placed
    obtain ⟨k, hk⟩ := hplaces.placed i hi (fun h => h) hunlisted hparked
    rcases hk.live with hlive | hlive
    · exact hopen k hlive
    · exact hcomplete k hlive
  have hfew := h.eager.few hdone hslot hfits ht
  omega

/-! ## Every run -/

/-- A scan that finds every open session overdue, while `g_t` signers have answered. -/
def timeouts (valid : Bytes → Bool) (c : Coord) : Event → Nat
  | .expire now _ =>
    if Manned valid c ∧ ∀ k, (c.sessions k).state = .awaitingShares →
      (c.sessions k).deadline ≤ now then 1 else 0
  | _ => 0

/-- Such a scan fails a session. -/
theorem Lively.timeouts_le (h : Lively valid c) {e : Event} (hst : Steady c e)
    (hfits : Fits valid c) (hslots : fallen c < maxSessions) :
    timeouts valid c e ≤ failures c e := by
  cases e with
  | expire now env =>
    by_cases hout : Manned valid c ∧ ∀ k, (c.sessions k).state = .awaitingShares →
        (c.sessions k).deadline ≤ now
    swap
    · rw [show timeouts valid c (.expire now env) = 0 from if_neg hout]
      exact Nat.zero_le _
    rw [show timeouts valid c (.expire now env) = 1 from if_pos hout]
    obtain ⟨hman, hlate⟩ := hout
    obtain ⟨k, hk⟩ := h.open' hman hfits hslots
    have hscan : Scanned now c (roastExpireSessions c now env) (List.finRange maxSessions) :=
      (Scanned.all h.poised.bars hst (List.nodup_finRange maxSessions)).1
    have hstep : Coordinator.step c (.expire now env) = roastExpireSessions c now env := by
      rw [step_expire hman.1, if_pos ⟨h.signing.mode, hman.2.1⟩]
    have hover : overdue c now k = true := overdue_iff.mpr ⟨hk, hlate k hk⟩
    have hfail : ((Coordinator.step c (.expire now env)).sessions k).state = .failed := by
      have hused := hscan.used k (by rw [hk]; simp)
      rw [if_pos ⟨List.mem_finRange k, hover⟩] at hused
      rw [hstep, hused]
    exact Finset.card_pos.mpr ⟨k, Finset.mem_filter.mpr ⟨Finset.mem_univ k, hk, hfail⟩⟩
  | _ => exact Nat.zero_le _

theorem worths_le (F : Finset Nat) (c : Coord) : worths F c ≤ maxStrikes * F.card := by
  have hone (id : Nat) : worth (standing c id) ≤ maxStrikes := by
    unfold worth
    split
    · exact Nat.zero_le _
    · exact Nat.sub_le _ _
  have hsum := Finset.sum_le_card_nsmul F (fun id => worth (standing c id)) maxStrikes
    fun id _ => hone id
  rw [nsmul_eq_mul, Nat.cast_id, Nat.mul_comm] at hsum
  exact hsum

/-- What the bound asks of an event and of the state it meets. -/
def Promising (valid : Bytes → Bool) (F : Finset Nat) (c : Coord) (e : Event) : Prop :=
  Steady c e ∧ Confined F c e ∧ TakesGood valid c e ∧ CoreRuns valid e ∧ Fits valid c

/-- **Signing does not stall.** Along every run of sign mode in which members of open
sessions stay connected, good commitments are taken first and the core answers, and in
which only signers of `F` miss deadlines or are condemned: as long as signing is not done
and `g_t` registered signers have answered, a session is open, and no more than
`MAX_STRIKES` times for each signer of `F` does a scan find all of them overdue. -/
theorem timeouts_bounded {c₀ : Coord} (h₀ : Started c₀) (hm : c₀.mode = .sign)
    (hempty : valid [] = false) {F : Finset Nat} (hF : maxStrikes * F.card < maxSessions)
    {es : List Event} (hes : Along step (Promising valid F) c₀ es) :
    (Manned valid (run step c₀ es) → Fits valid (run step c₀ es) →
      ∃ k, ((run step c₀ es).sessions k).state = .awaitingShares) ∧
    total step (timeouts valid) c₀ es ≤ maxStrikes * F.card := by
  classical
  let G := F.filter fun id => 1 ≤ id ∧ id ≤ maxSigners
  have hG : ∀ id ∈ G, 1 ≤ id ∧ id ≤ maxSigners := fun id hid => (Finset.mem_filter.mp hid).2
  let I := fun c => Lively valid c ∧ fallen c + worths G c ≤ maxStrikes * F.card
  -- a failure takes from the worths what it adds to the sessions that have failed
  have hpay {c : Coord} {e : Event} (h : Lively valid c) (hc : Promising valid F c e) :
      failures c e + worths G (step c e) ≤ worths G c := by
    have hconf : Confined G c e := fun id h1 h2 hid =>
      Finset.mem_filter.mpr ⟨hc.2.1 id h1 h2 hid, h1, h2⟩
    have h1 := h.poised.charges h.signing h.roster hc.1 hconf
    have h2 := worths_step h.poised.bars h.signing hc.1.clock hG
    omega
  have hI (c : Coord) (e : Event) (h : I c) (hc : Promising valid F c e) : I (step c e) := by
    refine ⟨h.1.step hempty hc.1 hc.2.2.1 hc.2.2.2.1, ?_⟩
    have h1 := fallen_step h.1.poised.bars h.1.signing hc.1
    have h2 := hpay h.1 hc
    have h3 := h.2
    omega
  have hstart : I c₀ := by
    refine ⟨h₀.lively hm, ?_⟩
    rw [fallen_zero h₀.unused.sessions, Nat.zero_add]
    exact (worths_le G c₀).trans (Nat.mul_le_mul_left _ (Finset.card_filter_le _ _))
  constructor
  · intro hman hfits
    have hend := hes.invariant hI hstart
    have hbound := hend.2
    exact hend.1.open' hman hfits (by omega)
  · have hbound := total_le_of_potential (timeouts valid) (fun _ _ => 0 * 0) (worths G) hI
      (fun c e h hc => ?_) hstart hes
    · rw [total_mul, Nat.zero_mul, Nat.add_zero] at hbound
      have hworth := hstart.2
      omega
    · have h1 := h.1.timeouts_le hc.1 hc.2.2.2.2 (by have := h.2; omega)
      have h2 := hpay h.1 hc
      omega

/-- Both have committed, only signer 1 answers. -/
def halfRun : List Event := [joins 1 2 2, joins 2 2 2, commits 1 [1], commits 2 [2],
  .frame 1 ⟨.sigShare, List.replicate frameSigSize 0, [9]⟩ pickyEnv,
  .expire sessionTimeout fun _ => { pickyEnv with now := sessionTimeout }]

theorem timeouts_bounded_run :
    total step (timeouts oneByte) (signStart 2 2 1) halfRun = 1 ∧
      (Manned oneByte (run step (signStart 2 2 1) halfRun) →
        Fits oneByte (run step (signStart 2 2 1) halfRun) →
        ∃ k, ((run step (signStart 2 2 1) halfRun).sessions k).state = .awaitingShares) ∧
      total step (timeouts oneByte) (signStart 2 2 1) halfRun ≤
        maxStrikes * ({2} : Finset Nat).card := by
  have hcalls : Along step (fun c e => (aggregateCall c e).isNone = true) (signStart 2 2 1)
      halfRun := by decide +kernel
  have hlate : Along step (fun c e => ∀ id ∈ List.range' 1 maxSigners,
      0 < silences id c e → id = 2) (signStart 2 2 1) halfRun := by decide +kernel
  have hsize : Along step (fun c _ => c.t ≤ maxSigners ∧
      4 + c.t * (2 + 2 + commitEntryMax + frameSigSize) + c.tbs.length ≤ maxPayload)
      (signStart 2 2 1) halfRun := by decide +kernel
  have hgood : Along step (TakesGood oneByte) (signStart 2 2 1) halfRun := by
    refine ⟨trivial, trivial, fun _ _ hmany => ?_, fun _ _ _ => ?_, fun h => ?_, trivial, trivial⟩
    · exact absurd hmany (by decide +kernel)
    · decide +kernel
    · cases h
  have hkind : Along step (fun _ e => CoreRuns oneByte e ∧ ((∃ i, e = joins i 2 2) ∨
      (∃ i f, e = .frame i f pickyEnv) ∨
      e = .expire sessionTimeout fun _ => { pickyEnv with now := sessionTimeout }))
      (signStart 2 2 1) halfRun := by
    refine .of_mem fun e he s => ?_
    simp only [halfRun, List.mem_cons, List.not_mem_nil, or_false] at he
    rcases he with rfl | rfl | rfl | rfl | rfl | rfl
    · exact ⟨trivial, .inl ⟨1, rfl⟩⟩
    · exact ⟨trivial, .inl ⟨2, rfl⟩⟩
    · exact ⟨pickyEnv_assembles, .inr (.inl ⟨1, _, rfl⟩)⟩
    · exact ⟨pickyEnv_assembles, .inr (.inl ⟨2, _, rfl⟩)⟩
    · exact ⟨pickyEnv_assembles, .inr (.inl ⟨1, _, rfl⟩)⟩
    · exact ⟨trivial, .inr (.inr rfl)⟩
  have hes := ((((hcalls.and hlate).and hsize).and hgood).and hkind).mono
    (D := Promising oneByte {2}) fun c e h => by
      obtain ⟨⟨⟨⟨hcall, hsilent⟩, hfits⟩, htakes⟩, hcore, hkind⟩ := h
      refine ⟨?_, fun id h1 h2 hcharged => ?_, htakes, hcore, Fits.of_size hfits.1 hfits.2⟩
      · rcases hkind with ⟨i, rfl⟩ | ⟨i, f, rfl⟩ | rfl
        · trivial
        · exact .uncalled hcall
        · exact fun _ => Nat.le_refl _
      · have hsil := hcharged.resolve_right (not_condemns hcall)
        refine Finset.mem_singleton.mpr (hsilent id (List.mem_range'_1.mpr ⟨h1, ?_⟩) hsil)
        omega
  exact ⟨by decide +kernel,
    timeouts_bounded (signStart_started (by decide) (by decide) (by decide)) rfl (by decide)
      (by decide) hes⟩

end FrostSshCa.Coordinator
