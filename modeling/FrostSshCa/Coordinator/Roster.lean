import FrostSshCa.Coordinator.Outbox
import FrostSshCa.Coordinator.Reports
import FrostSshCa.Wire.Ceremony

/-!
# Who is registered, and when a ceremony starts

A `HELLO` registers an id nobody holds, within the sizes the first well-formed one
fixed, and nothing else registers. So a count of `g_n` registered signers is all of
`1..g_n`, and the count is what starts a ceremony, once.
-/

namespace FrostSshCa.Coordinator

open Lib

variable {c c' : Coord} {i : Nat}

/-! ## The roster -/

structure Roster (c : Coord) : Prop where
  distinct : c.signers.Nodup
  range : ∀ i ∈ c.signers, 1 ≤ i ∧ i ≤ c.n
  size : c.signers ≠ [] → 2 ≤ c.n ∧ c.n ≤ maxSigners ∧ 1 ≤ c.t ∧ c.t ≤ c.n

/-- What the registration reads and writes. -/
def rosterView (c : Coord) : CoordMode × List Nat × Nat × Nat := (c.mode, c.signers, c.n, c.t)

theorem Roster.congr (h : Roster c) (e : rosterView c' = rosterView c) : Roster c' := by
  have hs : c'.signers = c.signers := congrArg (fun v => v.2.1) e
  have hn : c'.n = c.n := congrArg (fun v => v.2.2.1) e
  have ht : c'.t = c.t := congrArg (fun v => v.2.2.2) e
  exact ⟨by rw [hs]; exact h.distinct, by rw [hs, hn]; exact h.range, by
    rw [hs, hn, ht]; exact h.size⟩

theorem FlowOnly.rosterView (h : FlowOnly c c') : rosterView c' = rosterView c := by
  obtain ⟨_, _, rfl⟩ := h
  rfl

theorem RoastOnly.rosterView (h : RoastOnly c c') : rosterView c' = rosterView c := by
  obtain ⟨_, _, _, _, _, _, _, _, _, _, rfl⟩ := h
  rfl

theorem CeremonyOnly.rosterView (h : CeremonyOnly c c') : rosterView c' = rosterView c := by
  obtain ⟨_, _, _, _, _, _, rfl⟩ := h
  rfl

theorem loopHead_rosterView (env : TbsEnv) : rosterView (loopHead c env) = rosterView c := by
  have hexit (d : Coord) : rosterView (exitIfQuiet d) = rosterView d := by
    unfold exitIfQuiet
    split <;> rfl
  unfold loopHead
  split
  · exact hexit c
  split
  · split
    · unfold nextMint
      rw [(broadcastSignReq_sgOnly _).flowOnly.rosterView]
      obtain ⟨d, tbs, hex, e | e⟩ := prepareTbs_cases (advanceSerial c) env <;>
        · rw [e]; rfl
    · exact hexit c
  split
  · exact hexit c
  · rfl

/-- Sizes may be fixed while they are not. -/
theorem Roster.claim (h : Roster c) {n t : Nat} (hnt : c.n = 0 ∨ c.n = n ∧ c.t = t) :
    Roster { c with n := n, t := t } := by
  rcases hnt with h0 | ⟨rfl, rfl⟩
  · have hnil : c.signers = [] := by
      refine List.eq_nil_iff_forall_not_mem.mpr fun j hj => ?_
      have := h.range j hj
      omega
    refine ⟨h.distinct, fun j hj => ?_, fun hne => absurd hnil hne⟩
    have hj : j ∈ c.signers := hj
    rw [hnil] at hj
    cases hj
  · exact h

theorem Roster.hello (h : Roster c) (env : HelloEnv) (payload : Bytes) :
    Roster (onHello c env payload).1 := by
  rcases onHello_taken c env payload with e | ⟨pid, pn, pt, hp, hnt, hcase⟩
  · rw [e]; exact h
  obtain ⟨h1, h2, h3, h4, h5, h6⟩ := parseHello_some hp
  rcases hcase with e | ⟨hr, e⟩
  · rw [e]; exact h.claim hnt
  · have hc := h.claim hnt
    rw [e]
    refine Roster.congr (c := enroll { c with n := pn, t := pt } pid)
      ⟨List.nodup_cons.mpr ⟨hr.new, hc.distinct⟩, fun i hi => ?_, fun _ => ⟨h3, h4, h5, h6⟩⟩
      (promote_flowOnly _ pid).rosterView
    rcases List.mem_cons.mp hi with rfl | hi
    · exact ⟨h1, h2⟩
    · exact hc.range i hi

/-- Who comes and who goes. -/
def Event.moves : Event → Bool
  | .hello _ _ | .disconnect _ => true
  | _ => false

theorem step_rosterView {e : Event} (he : e.moves = false) :
    rosterView (step c e) = rosterView c := by
  unfold step
  split; · rfl
  cases e with
  | loopHead env => exact loopHead_rosterView env
  | expire now env =>
    dsimp only
    split
    · exact (roastExpireSessions_roastOnly c now env).rosterView
    · rfl
  | hello env payload => cases he
  | drain i =>
    dsimp only
    split
    · exact (setSg_sgOnly ..).flowOnly.rosterView
    · rfl
  | disconnect i => cases he
  | frame i f env =>
    dsimp only
    split
    · by_cases hs : MsgType.signing f.type = true
      · exact (processSignerFrame_roastOnly c env i f hs).rosterView
      · exact (processSignerFrame_ceremonyOnly c env i f (by simpa using hs)).rosterView
    · rfl

/-- **One event** keeps the roster. -/
theorem Roster.step (h : Roster c) (e : Event) : Roster (step c e) := by
  cases he : e.moves with
  | false => exact h.congr (step_rosterView he)
  | true =>
    unfold Coordinator.step
    split; · exact h
    cases e with
    | hello env payload => exact h.hello env payload
    | disconnect i =>
      dsimp only
      split
      · refine ⟨h.distinct.filter _, fun j hj => h.range j (List.mem_of_mem_filter hj), fun hne =>
          h.size ?_⟩
        intro e
        refine hne ?_
        show c.signers.filter (· ≠ i) = []
        rw [e]
        rfl
      · exact h
    | _ => cases he

theorem step_mode (e : Event) : (step c e).mode = c.mode := by
  cases he : e.moves with
  | false => exact congrArg Prod.fst (step_rosterView he)
  | true =>
    unfold Coordinator.step
    split; · rfl
    cases e with
    | hello env payload =>
      dsimp only
      rcases onHello_taken c env payload with e | ⟨pid, pn, pt, -, -, e | ⟨-, e⟩⟩
      · rw [e]
      · rw [e]
      · obtain ⟨_, _, hshape⟩ := promote_flowOnly { c with n := pn, t := pt } pid
        rw [e, hshape]
        rfl
    | disconnect i => dsimp only; split <;> rfl
    | _ => cases he

theorem Started.roster (h : Started c) : Roster c := by
  have hs := h.unused.signers
  refine ⟨by rw [hs]; exact List.nodup_nil, fun i hi => ?_, fun hne => absurd hs hne⟩
  rw [hs] at hi
  cases hi

/-- Distinct ids of `1..n`, as many as there are. -/
theorem perm_range {l : List Nat} {n : Nat} (hd : l.Nodup) (hr : ∀ i ∈ l, 1 ≤ i ∧ i ≤ n)
    (hn : n ≤ l.length) : l.Perm (List.range' 1 n) := by
  refine (List.subperm_of_subset hd fun i hi => ?_).perm_of_length_le ?_
  · have := hr i hi
    rw [List.mem_range'_1]
    omega
  · rw [List.length_range']
    exact hn

/-! ## The start of a ceremony -/

def MsgType.starts : MsgType → Bool
  | .startDkg | .startRefresh => true
  | _ => false

/-- The event queues the start of a ceremony for a registered signer. -/
def announces (c : Coord) (e : Event) : Bool :=
  (step c e).signers.any fun j => (queuedBy c e j).any fun f => MsgType.starts f.type

/-- The number of events of a run that do. -/
def announcements : Coord → List Event → Nat
  | _, [] => 0
  | c, e :: es => (if announces c e then 1 else 0) + announcements (step c e) es

/-- Neither start is composed after a registration. -/
def NoStart (f : Frame) : Prop := MsgType.starts f.type = false

theorem noStart_texts :
    Texts NoStart := ⟨fun _ => rfl, rfl, rfl, rfl, fun _ _ => rfl, fun _ _ => rfl⟩

theorem noStart_forwards (c : Coord) (e : Event) : ForwardsAt NoStart c e := by
  cases e with
  | frame i f env =>
    refine fun _ => ⟨fun type c' h _ s _ => ?_, fun type h _ _ _ => ?_⟩
    · have ht := h.relay
      show MsgType.starts type = false
      cases type <;> first | rfl | cases ht
    · rcases h with ⟨-, rfl⟩ | ⟨-, -, rfl⟩ <;> rfl
  | _ => trivial

theorem announces_eq_false {e : Event}
    (h : ∀ j, ∃ fs, ((step c e).sg j).msgq = kept c e j ++ fs ∧ ∀ f ∈ fs, NoStart f) :
    announces c e = false := by
  unfold announces
  refine List.any_eq_false.mpr fun j _ => ?_
  obtain ⟨fs, hfs, hno⟩ := h j
  rw [queuedBy_eq hfs]
  have hany : (fs.any fun f => MsgType.starts f.type) = false :=
    List.any_eq_false.mpr fun f hf => Bool.eq_false_iff.mp (hno f hf)
  rw [hany]
  exact Bool.false_ne_true

/-- What `maybe_start_dkg` and `maybe_start_refresh` do. -/
theorem maybeStart_cases (hd : c.signers.Nodup) (type : MsgType) (word : Bytes) :
    c.maybeStart type word = c ∨ c.dkgState = .idle ∧ c.n ≤ c.signers.length ∧
      (c.maybeStart type word).dkgState = .collectingR1 ∧
      ∀ j, (c.maybeStart type word).sg j =
        if j ∈ c.signers then (c.sg j).push [⟨type, [], printTwo word c.n c.t⟩] else c.sg j := by
  unfold Coord.maybeStart
  split; · exact .inl rfl
  next hidle =>
  split; · exact .inl rfl
  next hfull =>
  refine .inr ⟨not_not.mp hidle, Nat.le_of_not_lt hfull, ?_, fun j => ?_⟩
  · obtain ⟨_, e⟩ := broadcast_sgOnly { c with dkgState := .collectingR1 }
      type (printTwo word c.n c.t)
    rw [e]
  · exact broadcast_sg (c := { c with dkgState := .collectingR1 }) hd type _

/-- The first frames of a new signer, in a ceremony. -/
theorem promote_eq {k : Ceremony} (hm : c.mode = k.mode) : promote c i =
    ((enroll c i).signerSend i .helloAck [] (ackText i k.mode)).maybeStart k.start k.word := by
  unfold promote welcome
  rw [hm]
  split
  · next hd =>
    have hd : c.mode = .dkg := hd
    cases k with
    | dkg => rfl
    | refresh => cases hm.symm.trans hd
  · next hr =>
    have hr : c.mode = .refresh := hr
    cases k with
    | dkg => cases hm.symm.trans hr
    | refresh => rfl
  · next hs =>
    have hs : c.mode = .sign := hs
    cases k <;> cases hm.symm.trans hs

theorem ceremony_of_mode (h : c.mode ≠ .sign) : ∃ k : Ceremony, c.mode = k.mode := by
  cases e : c.mode with
  | dkg => exact ⟨.dkg, rfl⟩
  | refresh => exact ⟨.refresh, rfl⟩
  | sign => exact absurd e h

/-- The event starts the ceremony: everybody is there, and everybody is told once. -/
structure Starting (c : Coord) (e : Event) (k : Ceremony) : Prop where
  mode : c.mode = k.mode
  idle : c.dkgState = .idle
  begun : (step c e).dkgState = .collectingR1
  full : (step c e).n ≤ (step c e).signers.length
  sent : ∀ j ∈ (step c e).signers, (queuedBy c e j).filter (MsgType.starts ·.type) =
    [⟨k.start, [], printTwo k.word (step c e).n (step c e).t⟩]

/-- A registration tells nobody, or starts the ceremony. -/
theorem promote_starts {k : Ceremony} (hm : c.mode = k.mode) (hd : (enroll c i).signers.Nodup) :
    (Appends (MsgType.starts · = false) (enroll c i) (promote c i) ∧
      (promote c i).dkgState = c.dkgState) ∨
    c.dkgState = .idle ∧ c.n ≤ c.signers.length + 1 ∧ (promote c i).dkgState = .collectingR1 ∧
      ∀ j ∈ i :: c.signers, ∃ fs, ((promote c i).sg j).msgq = ((enroll c i).sg j).msgq ++ fs ∧
        fs.filter (MsgType.starts ·.type) = [⟨k.start, [], printTwo k.word c.n c.t⟩] := by
  have hstart : MsgType.starts k.start = true := by cases k <;> rfl
  have hack : Appends (MsgType.starts · = false) (enroll c i)
      ((enroll c i).signerSend i .helloAck [] (ackText i k.mode)) :=
    signerSend_appends (T := (MsgType.starts · = false)) rfl i [] _
  rw [promote_eq hm]
  rcases maybeStart_cases (c := (enroll c i).signerSend i .helloAck [] (ackText i k.mode))
    hd k.start
    k.word with e | ⟨hidle, hfull, hbegun, hsg⟩
  · rw [e]
    exact .inl ⟨hack, rfl⟩
  · refine .inr ⟨hidle, hfull, hbegun, fun j hj => ?_⟩
    obtain ⟨fs, hfs, hno⟩ := hack j
    refine ⟨fs ++ [⟨k.start, [], printTwo k.word c.n c.t⟩], ?_, ?_⟩
    · rw [hsg j]
      refine (congrArg SignerRec.msgq (if_pos hj)).trans ?_
      rw [SignerRec.push_msgq, hfs, List.append_assoc]
      rfl
    · rw [List.filter_append, List.filter_eq_nil_iff.mpr fun f hf => by
        rw [hno f hf]; exact Bool.false_ne_true]
      exact List.filter_cons_of_pos (p := fun f : Frame => MsgType.starts f.type) hstart

/-- What holds along every run. -/
structure Founded (c : Coord) : Prop where
  roster : Roster c
  fits : c.tbs.length ≤ maxPayload

/-- **A `HELLO`** announces nothing, or starts the ceremony. -/
theorem hello_announces (h : Founded c) (env : HelloEnv) (payload : Bytes) :
    (announces c (.hello env payload) = false ∧
        (step c (.hello env payload)).dkgState = c.dkgState) ∨
      ∃ k, Starting c (.hello env payload) k := by
  have quiet (hsame : (step c (.hello env payload)).signers = c.signers)
      (hsg : (step c (.hello env payload)).sg = c.sg) :
        announces c (.hello env payload) = false := by
    refine announces_eq_false fun j => ⟨[], ?_, nofun⟩
    rw [kept_hello_same hsame, hsg, List.append_nil]
  cases hx : c.exited with
  | true =>
    have hstep : step c (.hello env payload) = c := by
      rw [step_exited hx]
    exact .inl ⟨quiet (by rw [hstep]) (by rw [hstep]), by rw [hstep]⟩
  | false =>
    have hstep : step c (.hello env payload) = (onHello c env payload).1 :=
      step_hello hx env payload
    rcases onHello_taken c env payload with e | ⟨pid, pn, pt, hp, hnt, e | ⟨hr, e⟩⟩
    · rw [← hstep] at e
      exact .inl ⟨quiet (by rw [e]) (by rw [e]), by rw [e]⟩
    · rw [← hstep] at e
      exact .inl ⟨quiet (by rw [e]) (by rw [e]), by rw [e]⟩
    rw [← hstep] at e
    have hkept := kept_hello hr.new e
    by_cases hs : c.mode = .sign
    · -- a signer of sign mode is asked for a commitment
      have hsend : promote { c with n := pn, t := pt } pid =
          ((enroll { c with n := pn, t := pt } pid).signerSend pid .helloAck []
            (ackText pid c.mode)).signerSend pid .signReq [] c.tbs := by
        show welcome (Coord.signerSend (enroll { c with n := pn, t := pt } pid) pid .helloAck []
          (ackText pid c.mode)) pid = _
        unfold welcome
        rw [show (Coord.signerSend (enroll { c with n := pn, t := pt } pid) pid .helloAck []
          (ackText pid c.mode)).mode = .sign from hs]
        rfl
      refine .inl ⟨announces_eq_false fun j => ?_, by rw [e, hsend]; rfl⟩
      rw [hkept j, e, hsend]
      have h1 : Sends NoStart (enroll { c with n := pn, t := pt } pid) _ :=
        signerSend_sends (show NoStart ⟨.helloAck, [], ackText pid c.mode⟩ from rfl) pid
      exact (h1.trans (signerSend_sends (show NoStart ⟨.signReq, [], c.tbs⟩ from rfl) pid)).queue j
    · obtain ⟨k, hk⟩ := ceremony_of_mode hs
      have hd : (enroll { c with n := pn, t := pt } pid).signers.Nodup :=
        List.nodup_cons.mpr ⟨hr.new, h.roster.distinct⟩
      have hview := (promote_flowOnly { c with n := pn, t := pt } pid).rosterView
      have hn : (promote { c with n := pn, t := pt } pid).n = pn :=
        congrArg (fun v => v.2.2.1) hview
      have ht : (promote { c with n := pn, t := pt } pid).t = pt :=
        congrArg (fun v => v.2.2.2) hview
      rcases promote_starts (c := { c with n := pn, t := pt }) (i := pid) hk hd with
        ⟨hno, hst⟩ | ⟨hidle, hfull, hbegun, hsent⟩
      · refine .inl ⟨announces_eq_false fun j => ?_, by rw [e, hst]⟩
        rw [hkept j, e]
        exact hno j
      · refine .inr ⟨k, hk, hidle, by rw [e]; exact hbegun, ?_, fun j hj => ?_⟩
        · rw [e, hn, promote_signers]
          exact hfull
        · rw [e, promote_signers] at hj
          obtain ⟨fs, hfs, hstart⟩ := hsent j hj
          have hq : queuedBy c (.hello env payload) j = fs :=
            queuedBy_eq (by rw [hkept j, e]; exact hfs)
          rw [hq, hstart, e, hn, ht]

/-- **One event** announces nothing, or is the registration that starts the ceremony. -/
theorem step_announces (h : Founded c) (e : Event) :
    announces c e = false ∨ ∃ k, Starting c e k := by
  cases e with
  | hello env payload => exact (hello_announces h env payload).imp_left And.left
  | _ =>
    refine .inl (announces_eq_false ?_)
    exact (step_sends noStart_texts h.roster.distinct h.fits (fun _ _ he => by cases he)
      (noStart_forwards c _)).queue

theorem Founded.step (h : Founded c) (e : Event) : Founded (step c e) := by
  refine ⟨h.roster.step e, ?_⟩
  cases e with
  | hello env payload =>
    exact (hello_sends (P := fun _ => True) ⟨fun _ _ => trivial, fun _ _ => ⟨trivial, trivial⟩,
      fun _ _ => trivial⟩ h.fits env payload).fits
  | _ => exact (step_sends noStart_texts h.roster.distinct h.fits (fun _ _ he => by cases he)
      (noStart_forwards c _)).fits

theorem Started.founded (h : Started c) : Founded c := by
  refine ⟨h.roster, ?_⟩
  cases h with
  | dkg => exact Nat.zero_le _
  | refresh => exact Nat.zero_le _
  | sign n t serial secs toMint file env _ _ _ _ _ hp =>
    have := prepareTbs_fits (c := Coord.boot .sign n t serial secs toMint file (some file))
        (Nat.zero_le _) env
    rw [hp] at this
    exact this

/-- A ceremony that has begun does not begin again. -/
theorem step_begun (hm : c.mode ≠ .sign) (h : Founded c) (hb : c.dkgState ≠ .idle) (e : Event) :
    (step c e).dkgState ≠ .idle := by
  cases hx : c.exited with
  | true =>
    rw [step_exited hx]
    exact hb
  | false =>
    have hexit : (exitIfQuiet c).dkgState ≠ .idle := by
      unfold exitIfQuiet
      split <;> exact hb
    cases e with
    | hello env payload =>
      rcases hello_announces h env payload with ⟨-, hst⟩ | ⟨k, hs⟩
      · rw [hst]; exact hb
      · exact absurd hs.idle hb
    | loopHead env =>
      rw [step_loopHead hx]
      unfold loopHead
      split; · exact hexit
      rw [if_neg fun hd => hm hd.2]
      split
      · exact hexit
      · exact hb
    | expire now env =>
      rw [step_expire hx]
      rw [if_neg fun hd => hm hd.1]
      exact hb
    | drain i =>
      rw [step_drain hx]
      split <;> exact hb
    | disconnect i =>
      rw [step_disconnect hx]
      split <;> exact hb
    | frame i f env =>
      rw [step_frame hx]
      split
      · rcases processSignerFrame_r1 hm env i f with hc | ⟨type, hr⟩
        · rcases hc.state with e | e
          · rw [e]; exact hb
          · rw [e]; decide
        · obtain ⟨_, e⟩ := relayAll_sgOnly { fileR1 c i f with dkgState := .collectingR2 } type
          rw [hr.eq, e]
          intro hidle
          cases hidle
      · exact hb

/-! ## Runs -/

/-- No start follows. -/
theorem announcements_begun (es : List Event) : ∀ {c : Coord}, Founded c →
    c.mode ≠ .sign → c.dkgState ≠ .idle → announcements c es = 0 := by
  induction es with
  | nil => exact fun _ _ _ => rfl
  | cons e es ih =>
    intro c h hm hb
    have hno : announces c e = false := by
      rcases step_announces h e with hno | ⟨k, hs⟩
      · exact hno
      · exact absurd hs.idle hb
    show (if announces c e then 1 else 0) + announcements (step c e) es = 0
    rw [hno, ih (h.step e) (by rw [step_mode]; exact hm) (step_begun hm h hb e)]
    rfl

theorem announcements_once (es : List Event) :
    ∀ {c : Coord}, Founded c → announcements c es ≤ 1 := by
  induction es with
  | nil => exact fun _ => Nat.zero_le 1
  | cons e es ih =>
    intro c h
    show (if announces c e then 1 else 0) + announcements (step c e) es ≤ 1
    rcases step_announces h e with hno | ⟨k, hs⟩
    · rw [hno]
      have := ih (h.step e)
      simpa using this
    · have hm : c.mode ≠ .sign := by rw [hs.mode]; cases k <;> exact nofun
      have hb : (step c e).dkgState ≠ .idle := by rw [hs.begun]; exact nofun
      rw [announcements_begun es (h.step e) (by rw [step_mode]; exact hm) hb]
      split <;> omega

/-- **Registration and the start of a ceremony.** In every state reached the registered
ids are distinct ids of `1..g_n`, with `g_t` and `g_n` in range; the start is queued in
at most one event, and there everybody of `1..g_n` is registered and told once. -/
theorem registration (h0 : Started c) (es : List Event) :
    Roster (run step c es) ∧ announcements c es ≤ 1 ∧
      ∀ es₁ e es₂, es = es₁ ++ e :: es₂ → announces (run step c es₁) e = true →
        (∃ k, Starting (run step c es₁) e k) ∧
        (step (run step c es₁) e).signers.Perm (List.range' 1 (step (run step c es₁) e).n) := by
  have hrun (es : List Event) : Founded (run step c es) :=
    run_invariant (fun _ e h => h.step e) h0.founded
  refine ⟨(hrun es).roster, announcements_once es h0.founded, fun es₁ e es₂ _ ha => ?_⟩
  rcases step_announces (hrun es₁) e with hno | ⟨k, hs⟩
  · rw [hno] at ha
    cases ha
  · have hr := ((hrun es₁).step e).roster
    exact ⟨⟨k, hs⟩, perm_range hr.distinct hr.range hs.full⟩

/-- The second of two registrations starts the DKG. -/
theorem registration_run :
    announcements (dkgStart 2 2) [joins 1 2 2, joins 2 2 2] = 1 ∧
      (step (run step (dkgStart 2 2) [joins 1 2 2]) (joins 2 2 2)).signers.Perm [1, 2] :=
  ⟨by decide +kernel, ((registration dkgStart_started [joins 1 2 2, joins 2 2 2]).2.2 [joins 1 2 2]
    (joins 2 2 2) [] rfl (by decide +kernel)).2⟩

end FrostSshCa.Coordinator
