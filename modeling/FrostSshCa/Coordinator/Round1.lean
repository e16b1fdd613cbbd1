import FrostSshCa.Coordinator.Cast
import FrostSshCa.Coordinator.Shares

/-!
# The round-1 broadcast

The state of a ceremony leaves `COLLECTING_R1` once and does not come back, and
the relays are queued on the way out, when `g_n` packages are on file. `queued`
is the log of all frames queued for an id in a run, whatever became of the
connection they were queued on.
-/

namespace FrostSshCa.Coordinator

open Lib

variable {c c' c'' : Coord} {i : Nat}

/-! ## The log of queued frames -/

/-- The queue of id `i` after event `e`, without what `e` queues: a new
connection starts with none, a completed write removes the head. -/
def kept (c : Coord) (e : Event) (i : Nat) : List Frame :=
  match e with
  | .hello _ _ => if i ∉ c.signers ∧ i ∈ (step c e).signers then [] else (c.sg i).msgq
  | .drain j => if j = i ∧ i ∈ c.signers ∧ c.exited = false then (c.sg i).msgq.tail
    else (c.sg i).msgq
  | _ => (c.sg i).msgq

/-- What event `e` queues for id `i`. -/
def queuedBy (c : Coord) (e : Event) (i : Nat) : List Frame :=
  ((step c e).sg i).msgq.drop (kept c e i).length

/-- All frames a run queues for id `i`. -/
def queued : Coord → List Event → Nat → List Frame
  | _, [], _ => []
  | c, e :: es, i => queuedBy c e i ++ queued (step c e) es i

theorem queued_append (es fs : List Event) : ∀ c : Coord,
    queued c (es ++ fs) i = queued c es i ++ queued (run step c es) fs i := by
  induction es with
  | nil => exact fun _ => rfl
  | cons e es ih =>
    intro c
    show queuedBy c e i ++ queued (step c e) (es ++ fs) i = _
    rw [ih, ← List.append_assoc]
    rfl

theorem queuedBy_eq {e : Event} {fs : List Frame}
    (h : ((step c e).sg i).msgq = kept c e i ++ fs) : queuedBy c e i = fs := by
  unfold queuedBy
  rw [h, List.drop_left]

/-! ## Relays -/

def MsgType.relaysR1 : MsgType → Bool
  | .relayR1 | .relayRefreshR1 => true
  | _ => false

/-- The sender whose package a round-1 relay carries. -/
def relayOf (f : Frame) : Option Nat :=
  if MsgType.relaysR1 f.type then (take16 f.payload).map Prod.fst else none

def NotR1 (type : MsgType) : Prop := MsgType.relaysR1 type = false

theorem relayOf_none {f : Frame} (h : NotR1 f.type) : relayOf f = none := by
  unfold relayOf
  rw [show MsgType.relaysR1 f.type = false from h]
  rfl

theorem relayOf_relayFrame {type : MsgType} (h : MsgType.relaysR1 type = true) {s : Nat}
    (hs : s < 65536) : relayOf (relayFrame c type s) = some s := by
  unfold relayOf relayFrame
  rw [if_pos h, take16_be16 hs]
  rfl

/-- The collection of round-1 packages is over. -/
def Late (c : Coord) : Prop := c.dkgState = .collectingR2 ∨ c.dkgState = .complete

/-- No relay is queued, and only the end of round 2 moves the state. -/
structure Calm (c c' : Coord) : Prop where
  queue : Appends NotR1 c c'
  state : c'.dkgState = c.dkgState ∨ c'.dkgState = .complete
  signers : c'.signers = c.signers

theorem Calm.refl (c : Coord) : Calm c c := ⟨.refl c, .inl rfl, rfl⟩

theorem Calm.of_sg_eq (hsg : c'.sg = c.sg) (hd : c'.dkgState = c.dkgState)
    (hs : c'.signers = c.signers) : Calm c c' := ⟨.of_sg_eq hsg, .inl hd, hs⟩

theorem Calm.trans (h : Calm c c') (h' : Calm c' c'') : Calm c c'' := by
  refine ⟨h.queue.trans h'.queue, ?_, h'.signers.trans h.signers⟩
  rcases h'.state with e | e
  · rw [e]; exact h.state
  · exact .inr e

theorem SgOnly.calm (h : SgOnly c c') (hq : Appends NotR1 c c') : Calm c c' := by
  obtain ⟨_, rfl⟩ := h
  exact ⟨hq, .inl rfl, rfl⟩

theorem checkR2_calm (c : Coord) {type : MsgType} (ht : NotR1 type) (payload : Bytes) :
    Calm c (c.checkR2 type payload) := by
  refine ⟨checkR2_appends ht payload, ?_, ?_⟩
  · unfold Coord.checkR2
    split
    · exact .inl rfl
    · exact .inr rfl
  · obtain ⟨_, _, e⟩ := checkR2_flowOnly c type payload
    rw [e]

/-- A record once its round-1 package is filed. -/
def fileR1 (c : Coord) (i : Nat) (f : Frame) : Coord :=
  c.setSg i fun r => { r with r1Sig := overwrite r.r1Sig f.sig, r1Pkg := f.payload }

/-- The frame of `i` is the last package missing: everything is relayed. -/
structure Relays (c : Coord) (i : Nat) (f : Frame) (type : MsgType) (c' : Coord) : Prop where
  early : c.dkgState = .collectingR1
  frame : f.type = .round1Pkg ∨ f.type = .refreshR1
  size : f.payload.length ≤ maxPayload
  relay : MsgType.relaysR1 type = true
  all : c.n ≤ (fileR1 c i f).count fun r => 0 < r.r1Pkg.length
  eq : c' = relayAll { fileR1 c i f with dkgState := .collectingR2 } type

/-- `ROUND1_PKG` and `REFRESH_R1`, past their guards. -/
theorem storeR1_cases (hst : c.dkgState = .collectingR1) (type : MsgType)
    (ht : MsgType.relaysR1 type = true) {f : Frame}
    (hf : f.type = .round1Pkg ∨ f.type = .refreshR1) :
    Calm c (storeR1 c (fun c => c.checkR1 fun c s => c.relayR1 type s) i f) ∨
      Relays c i f type (storeR1 c (fun c => c.checkR1 fun c s => c.relayR1 type s) i f) := by
  unfold storeR1
  split
  · exact .inl (.refl c)
  next hsize =>
  have hfile : Calm c (fileR1 c i f) := (setSg_sgOnly c i _).calm (.setSg_keep rfl)
  unfold Coord.checkR1
  dsimp only
  split
  · exact .inl hfile
  · next hall => exact .inr ⟨hst, hf, by omega, ht, by exact Nat.le_of_not_lt hall, rfl⟩

/-- **A frame of a ceremony** queues no relay, or is the last package missing. -/
theorem processSignerFrame_r1 (hm : c.mode ≠ .sign) (env : Env) (i : Nat) (f : Frame) :
    Calm c (processSignerFrame c env i f) ∨
      ∃ type, Relays c i f type (processSignerFrame c env i f) := by
  have relayed {type : MsgType} (ht : NotR1 type) (dst : Nat) :
      Calm c (c.relayR2 type dst f.sig f.payload) :=
    (relayR2_sgOnly c _ _ _ _).calm (relayR2_appends ht _ _ _)
  have reported : Calm c (fileReport c i f) := by
    refine ⟨fileReport_appends i f, .inl rfl, rfl⟩
  have confirmed (d : Coord) : Calm d (checkRefreshAllConfirmed d) := by
    unfold checkRefreshAllConfirmed
    split
    · exact .refl d
    · have hq : Appends NotR1 d (d.broadcast .refreshConfirmed []) :=
        broadcast_appends (show NotR1 .refreshConfirmed from rfl) []
      exact ((broadcast_sgOnly d .refreshConfirmed []).calm hq).trans (.of_sg_eq rfl rfl rfl)
  have flagged (type : MsgType) (ht : NotR1 type) (payload : Bytes) :
      Calm c ((c.setSg i fun r => { r with r2Complete := true }).checkR2 type payload) :=
    ((setSg_sgOnly c i _).calm (.setSg_keep rfl)).trans (checkR2_calm _ ht payload)
  unfold processSignerFrame
  cases e : f.type with
  | round1Pkg =>
    dsimp only
    unfold onRound1Pkg
    split
    · exact .inl (.refl c)
    · next hst =>
      exact (storeR1_cases (not_not.mp hst) .relayR1 rfl (.inl e)).imp_right
        fun h => ⟨_, h⟩
  | refreshR1 =>
    dsimp only
    unfold onRefreshR1
    split
    · exact .inl (.refl c)
    · next hst =>
      simp only [Bool.or_eq_true, decide_eq_true_eq, not_or, not_not] at hst
      exact (storeR1_cases hst.2 .relayRefreshR1 rfl (.inr e)).imp_right
        fun h => ⟨_, h⟩
  | round2Pkg =>
    left
    dsimp only
    rcases onRound2Pkg_cases c f with e' | ⟨dst, -, e'⟩
    · rw [e']; exact .refl c
    · rw [e']; exact relayed (show NotR1 .relayR2 from rfl) dst
  | r2Complete =>
    dsimp only
    unfold onR2Complete
    split
    · exact .inl (.refl c)
    · exact .inl (flagged .dkgDone rfl _)
  | refreshR2 =>
    left
    dsimp only
    rcases onRefreshR2_cases c f with e' | ⟨-, dst, -, e'⟩
    · rw [e']; exact .refl c
    · rw [e']; exact relayed (show NotR1 .relayRefreshR2 from rfl) dst
  | refreshR2Complete =>
    dsimp only
    unfold onRefreshR2Complete
    split
    · exact .inl (.refl c)
    · exact .inl (flagged .refreshFinalize rfl _)
  | refreshComplete =>
    left
    dsimp only
    unfold onRefreshComplete
    dsimp only
    split; · exact reported
    refine reported.trans (Calm.trans ?_ (confirmed _))
    split
    · exact .of_sg_eq rfl rfl rfl
    · exact .refl _
  | pubKeyPkg =>
    left
    dsimp only
    unfold onPubKeyPkg
    dsimp only
    split; · exact reported
    split; · exact reported
    exact reported.trans (.of_sg_eq rfl rfl rfl)
  | shareLoadFail => exact .inl ((setSg_sgOnly c i _).calm (.setSg_keep rfl))
  | commit =>
    left
    dsimp only
    unfold onCommit
    rw [if_pos hm]
    exact .refl c
  | sigShare =>
    left
    dsimp only
    unfold onSigShare shareTarget
    rw [if_pos hm]
    exact .refl c
  | _ => exact .inl (.refl c)

/-! ## One event -/

/-- The event queues no round-1 relay. -/
def Silent (c : Coord) (e : Event) : Prop :=
  ∀ i, ∃ fs, ((step c e).sg i).msgq = kept c e i ++ fs ∧ ∀ f ∈ fs, NotR1 f.type

/-- A new connection, in a ceremony. -/
theorem promote_shape' (hm : c.mode ≠ .sign) (pid : Nat) :
    (promote c pid).signers = pid :: c.signers ∧ Appends NotR1 (enroll c pid) (promote c pid) ∧
      (Late c → (promote c pid).dkgState = c.dkgState) := by
  have hsend : Appends NotR1 (enroll c pid)
      ((enroll c pid).signerSend pid .helloAck [] (ackText pid c.mode)) :=
    signerSend_appends (show NotR1 .helloAck from rfl) pid [] _
  have start (d : Coord) (type : MsgType) (ht : NotR1 type) (word : Bytes) :
      (d.maybeStart type word).signers = d.signers ∧ Appends NotR1 d (d.maybeStart type word) ∧
        (Late d → (d.maybeStart type word).dkgState = d.dkgState) := by
    refine ⟨?_, maybeStart_appends ht word, fun hl => ?_⟩
    · obtain ⟨_, _, e⟩ := maybeStart_flowOnly d type word
      rw [e]
    · unfold Coord.maybeStart
      rw [if_pos (by rcases hl with e | e <;> rw [e] <;> exact nofun)]
  unfold promote welcome
  split
  · obtain ⟨h1, h2, h3⟩ := start ((enroll c pid).signerSend pid .helloAck [] (ackText pid c.mode))
      .startDkg rfl (ascii "START_DKG")
    exact ⟨h1, hsend.trans h2, h3⟩
  · obtain ⟨h1, h2, h3⟩ := start ((enroll c pid).signerSend pid .helloAck [] (ackText pid c.mode))
      .startRefresh rfl (ascii "START_REFRESH")
    exact ⟨h1, hsend.trans h2, h3⟩
  · next h => exact absurd h hm

theorem Calm.late (h : Calm c c') (hl : Late c) : Late c' := by
  rcases h.state with e | e
  · unfold Late
    rw [e]
    exact hl
  · exact .inr e

theorem Calm.silent {e : Event} (h : Calm c (step c e)) (hk : ∀ i, kept c e i = (c.sg i).msgq) :
    Silent c e ∧ (Late c → Late (step c e)) := by
  refine ⟨fun i => ?_, h.late⟩
  rw [hk]
  exact h.queue i

theorem promote_signers (c : Coord) (pid : Nat) : (promote c pid).signers = pid :: c.signers := by
  obtain ⟨_, _, e⟩ := promote_flowOnly c pid
  rw [e]
  rfl

/-- A registration that leaves the list of signers alone keeps every queue. -/
theorem kept_hello_same {env : HelloEnv} {payload : Bytes}
    (h : (step c (.hello env payload)).signers = c.signers) (i : Nat) :
    kept c (.hello env payload) i = (c.sg i).msgq := by
  show (if _ then _ else _) = _
  rw [h, if_neg fun h => h.1 h.2]

/-- A new connection starts with an empty queue. -/
theorem kept_hello {env : HelloEnv} {payload : Bytes} {pid n t : Nat} (hnew : pid ∉ c.signers)
    (h : step c (.hello env payload) = promote { c with n := n, t := t } pid) (i : Nat) :
    kept c (.hello env payload) i = ((enroll { c with n := n, t := t } pid).sg i).msgq := by
  show (if _ then _ else _) = _
  rw [h, promote_signers, enroll_sg]
  by_cases e : i = pid
  · rw [if_pos e, e, if_pos ⟨hnew, List.mem_cons_self ..⟩]
    rfl
  · rw [if_neg e, if_neg fun h => h.1 (List.mem_of_ne_of_mem e h.2)]

/-- A completed write takes the head of the queue. -/
theorem kept_drain (hx : c.exited = false) (i j : Nat) :
    ((step c (.drain i)).sg j).msgq = kept c (.drain i) j := by
  have hstep : step c (.drain i) = if i ∈ c.signers then drainSignerWrite c i else c :=
    step_drain hx i
  show _ = if i = j ∧ j ∈ c.signers ∧ c.exited = false then (c.sg j).msgq.tail else (c.sg j).msgq
  rw [hstep]
  by_cases hi : i ∈ c.signers
  · rw [if_pos hi]
    unfold drainSignerWrite
    by_cases e : j = i
    · subst e
      rw [Coord.setSg_self, if_pos ⟨rfl, hi, hx⟩]
    · rw [Coord.setSg_of_ne e, if_neg fun h => e h.1.symm]
  · have hno : ¬ (i = j ∧ j ∈ c.signers ∧ c.exited = false) := fun h => hi (h.1 ▸ h.2.1)
    rw [if_neg hi, if_neg hno]

/-- **One event** of a ceremony queues no relay and does not reopen round 1, or
it brings the last package missing. -/
theorem step_r1 (hm : c.mode ≠ .sign) (e : Event) : (Silent c e ∧ (Late c → Late (step c e))) ∨
    ∃ i f env type, e = .frame i f env ∧ i ∈ c.signers ∧ Relays c i f type (step c e) := by
  cases hx : c.exited with
  | true =>
    have hstep : step c e = c := by
      rw [step_exited hx]
    left
    refine Calm.silent (by rw [hstep]; exact .refl c) fun i => ?_
    cases e with
    | hello env payload =>
      show (if _ then _ else _) = _
      rw [hstep, if_neg fun h => h.1 h.2]
    | drain j =>
      show (if _ then _ else _) = _
      rw [if_neg fun h => by rw [hx] at h; exact absurd h.2.2 (by decide)]
    | _ => rfl
  | false =>
    have hexit : Calm c (exitIfQuiet c) := by
      unfold exitIfQuiet
      split
      · exact .of_sg_eq rfl rfl rfl
      · exact .refl c
    cases e with
    | loopHead env =>
      left
      refine Calm.silent ?_ fun _ => rfl
      rw [step_loopHead hx]
      unfold loopHead
      split; · exact hexit
      rw [if_neg fun h => hm h.2]
      split
      · exact hexit
      · exact .refl c
    | expire now env =>
      left
      refine Calm.silent ?_ fun _ => rfl
      rw [step_expire hx]
      rw [if_neg fun h => hm h.1]
      exact .refl c
    | hello env payload =>
      left
      have hstep : step c (.hello env payload) = (onHello c env payload).1 :=
        step_hello hx env payload
      have unchanged (h : Calm c (step c (.hello env payload))) :
          Silent c (.hello env payload) ∧ (Late c → Late (step c (.hello env payload))) := by
        exact h.silent (kept_hello_same h.signers)
      rcases onHello_taken c env payload with e | ⟨pid, pn, pt, -, -, e | ⟨hr, e⟩⟩
      · exact unchanged (by rw [hstep, e]; exact .refl c)
      · exact unchanged (by rw [hstep, e]; exact .of_sg_eq rfl rfl rfl)
      obtain ⟨hs, hq, hd⟩ := promote_shape' (c := { c with n := pn, t := pt }) hm pid
      refine ⟨fun i => ?_, fun hl => ?_⟩
      · rw [kept_hello hr.new (hstep.trans e), hstep, e]
        exact hq i
      · unfold Late
        rw [hstep, e, hd hl]
        exact hl
    | drain j =>
      left
      have hstep : step c (.drain j) = if j ∈ c.signers then drainSignerWrite c j else c :=
        step_drain hx j
      refine ⟨fun i => ⟨[], ?_, List.forall_mem_nil _⟩, fun hl => ?_⟩
      · rw [List.append_nil]
        exact kept_drain hx j i
      · rw [hstep]
        split <;> exact hl
    | disconnect j =>
      left
      refine ⟨fun i => ⟨[], ?_, List.forall_mem_nil _⟩, fun hl => ?_⟩
      · rw [step_disconnect hx]
        rw [List.append_nil]
        split <;> rfl
      · rw [step_disconnect hx]
        split <;> exact hl
    | frame j f env =>
      by_cases hj : j ∈ c.signers
      · have hstep : step c (.frame j f env) = processSignerFrame c env j f :=
          step_frame_of_mem hx hj f env
        rcases processSignerFrame_r1 hm env j f with h | ⟨type, h⟩
        · exact .inl (Calm.silent (hstep ▸ h) fun _ => rfl)
        · exact .inr ⟨j, f, env, type, rfl, hj, hstep ▸ h⟩
      · left
        refine Calm.silent ?_ fun _ => rfl
        simp only [step, hx, hj, if_false, Bool.false_eq_true]
        exact .refl c

/-! ## Runs -/

/-- No frame a run queues is a round-1 relay. -/
def NoRelay (c : Coord) (es : List Event) : Prop := ∀ i, ∀ g ∈ queued c es i, NotR1 g.type

theorem Silent.queuedBy {e : Event} (h : Silent c e) {g : Frame}
    (hg : g ∈ queuedBy c e i) : NotR1 g.type := by
  obtain ⟨fs, hfs, hn⟩ := h i
  rw [queuedBy_eq hfs] at hg
  exact hn g hg

theorem Silent.cons {e : Event} {es : List Event} (h : Silent c e) (hes : NoRelay (step c e) es) :
    NoRelay c (e :: es) := by
  intro i g hg
  rcases List.mem_append.mp hg with hg | hg
  · exact h.queuedBy hg
  · exact hes i g hg

/-- Once round 1 is over it stays over. -/
theorem Late.noRelay (es : List Event) : ∀ {c : Coord}, Cast c → Late c → NoRelay c es := by
  induction es with
  | nil => exact fun _ _ i g hg => nomatch hg
  | cons e es ih =>
    intro c hc hl
    rcases step_r1 hc.mode e with ⟨hs, hlate⟩ | ⟨i, f, env, type, -, -, hr⟩
    · exact hs.cons (ih (hc.step e) (hlate hl))
    · have he := hr.early
      rcases hl with h | h <;>
      · rw [h] at he
        cases he

/-- The run in which round 1 was relayed, cut where the last package came. -/
structure Broadcast (c₀ : Coord) (es₁ : List Event) (i : Nat) (f : Frame) (env : Env)
    (es₂ : List Event) (type : MsgType) : Prop where
  before : NoRelay c₀ es₁
  cast : Cast (run step c₀ es₁)
  sender : i ∈ (run step c₀ es₁).signers
  relays : Relays (run step c₀ es₁) i f type (step (run step c₀ es₁) (.frame i f env))
  after : NoRelay (step (run step c₀ es₁) (.frame i f env)) es₂

/-- **Round 1 is relayed once at most.** -/
theorem run_r1 (es : List Event) : ∀ {c : Coord}, Cast c → NoRelay c es ∨
    ∃ es₁ i f env es₂ type, es = es₁ ++ .frame i f env :: es₂ ∧
      Broadcast c es₁ i f env es₂ type := by
  induction es with
  | nil => exact fun _ => .inl fun i g hg => nomatch hg
  | cons e es ih =>
    intro c hc
    rcases step_r1 hc.mode e with ⟨hs, -⟩ | ⟨i, f, env, type, rfl, hi, hr⟩
    · rcases ih (hc.step e) with h | ⟨es₁, i, f, env, es₂, type, rfl, h⟩
      · exact .inl (hs.cons h)
      · exact .inr ⟨e :: es₁, i, f, env, es₂, type, rfl, hs.cons h.before, h.cast, h.sender,
          h.relays, h.after⟩
    · have hlate : Late (step c (.frame i f env)) := by
        obtain ⟨_, e⟩ := relayAll_sgOnly { fileR1 c i f with dkgState := .collectingR2 } type
        rw [hr.eq, e]
        exact .inl rfl
      exact .inr ⟨[], i, f, env, es, type, rfl, (fun _ _ hg => nomatch hg), hc, hi, hr,
        Late.noRelay es (hc.step _) hlate⟩

section Broadcast

variable {c₀ : Coord} {es₁ es₂ : List Event} {s : Nat} {f : Frame} {env : Env} {type : MsgType}

/-- The relays of the broadcast, in one queue. -/
theorem Broadcast.queuedBy (h : Broadcast c₀ es₁ s f env es₂ type) :
    queuedBy (run step c₀ es₁) (.frame s f env) i = if i ∈ (run step c₀ es₁).signers then
      ((run step c₀ es₁).signers.filter (· ≠ i)).map
        (relayFrame (fileR1 (run step c₀ es₁) s f) type) else [] := by
  refine queuedBy_eq ?_
  rw [h.relays.eq, relayAll_sg (by exact h.cast.distinct)]
  have hq : ((fileR1 (run step c₀ es₁) s f).sg i).msgq = ((run step c₀ es₁).sg i).msgq := by
    unfold fileR1
    by_cases e : i = s
    · subst e
      rw [Coord.setSg_self]
    · rw [Coord.setSg_of_ne e]
  show ((if _ then _ else _ : SignerRec)).msgq = _
  split
  · next hi =>
    rw [if_pos (by exact hi)]
    show ((fileR1 (run step c₀ es₁) s f).sg i).msgq ++ _ = _
    rw [hq]
    rfl
  · next hi =>
    rw [if_neg (by exact hi), List.append_nil]
    exact hq

/-- A relay in the log is one of the broadcast. -/
theorem Broadcast.mem (h : Broadcast c₀ es₁ s f env es₂ type) {g : Frame} {j : Nat}
    (hg : g ∈ queued c₀ (es₁ ++ .frame s f env :: es₂) i) (hj : relayOf g = some j) :
    j ∈ (run step c₀ es₁).signers ∧ j ≠ i ∧ g = relayFrame (fileR1 (run step c₀ es₁) s f)
      type j := by
  have hno (hn : NotR1 g.type) : False := by
    rw [relayOf_none hn] at hj
    cases hj
  rw [queued_append] at hg
  rcases List.mem_append.mp hg with hg | hg
  · exact (hno (h.before i g hg)).elim
  rcases List.mem_append.mp hg with hg | hg
  · rw [h.queuedBy] at hg
    split at hg
    · obtain ⟨x, hx, rfl⟩ := List.mem_map.mp hg
      have hx := List.mem_filter.mp hx
      have hr := h.cast.range x hx.1
      have hsmall := h.cast.small
      rw [relayOf_relayFrame h.relays.relay (by omega)] at hj
      cases hj
      exact ⟨hx.1, by simpa using hx.2, rfl⟩
    · cases hg
  · exact (hno (h.after i g hg)).elim

theorem Broadcast.filter_eq (h : Broadcast c₀ es₁ s f env es₂ type) (j : Nat) :
    (queued c₀ (es₁ ++ .frame s f env :: es₂) i).filter (fun g => relayOf g = some j) =
      (Coordinator.queuedBy (run step c₀ es₁) (.frame s f env) i).filter (fun g => relayOf g = some j) := by
  have none {l : List Frame} (hl : ∀ g ∈ l, NotR1 g.type) :
      l.filter (fun g => relayOf g = some j) = [] := by
    refine List.filter_eq_nil_iff.mpr fun g hg => ?_
    simp [relayOf_none (hl g hg)]
  show ((queued c₀ (es₁ ++ .frame s f env :: es₂) i).filter fun g => relayOf g = some j) = _
  rw [queued_append, List.filter_append, none (h.before i), List.nil_append]
  show ((Coordinator.queuedBy _ _ i ++ queued (step _ _) es₂ i).filter fun g => relayOf g = some j) = _
  rw [List.filter_append, none (h.after i), List.append_nil]

theorem Broadcast.once (h : Broadcast c₀ es₁ s f env es₂ type) (j : Nat) :
    ((queued c₀ (es₁ ++ .frame s f env :: es₂) i).filter fun g => relayOf g = some j).length ≤ 1 := by
  rw [h.filter_eq, h.queuedBy]
  split
  · rw [List.filter_map, List.length_map]
    have hnd : (((run step c₀ es₁).signers.filter (· ≠ i)).filter
        ((fun g => decide (relayOf g = some j)) ∘
          relayFrame (fileR1 (run step c₀ es₁) s f) type)).Nodup :=
      (h.cast.distinct.filter _).filter _
    refine (hnd.subperm ?_ : List.Subperm _ [j]).length_le
    intro x hx
    have hx := List.mem_filter.mp hx
    have hin := (List.mem_filter.mp hx.1).1
    have hr := h.cast.range x hin
    have hsmall := h.cast.small
    have hof := hx.2
    simp only [Function.comp_apply, decide_eq_true_eq] at hof
    rw [relayOf_relayFrame h.relays.relay (by omega)] at hof
    cases hof
    exact List.mem_singleton.mpr rfl
  · exact Nat.zero_le _

/-- With the last package filed, every id of `1..g_n` is registered and has one. -/
theorem Broadcast.complete (h : Broadcast c₀ es₁ s f env es₂ type) {id : Nat} (h1 : 1 ≤ id)
    (h2 : id ≤ (run step c₀ es₁).n) : id ∈ (run step c₀ es₁).signers ∧
      ((fileR1 (run step c₀ es₁) s f).sg id).r1Pkg ≠ [] := by
  have hcast : Cast (fileR1 (run step c₀ es₁) s f) := h.cast.congr rfl rfl rfl
  obtain ⟨hall, hpkg⟩ := hcast.everyone h.relays.all
  have hin := hall id h1 h2
  refine ⟨hin, fun e => ?_⟩
  have := hpkg id hin
  rw [e] at this
  exact absurd this (by decide)

end Broadcast

/-- **Consistent round-1 broadcast.** In any run of the DKG or the refresh and for all
ids: one round-1 relay of `j` at most is queued for `i`; none of its own; all
receivers of `j` get the same frame; and relays are queued only by the event that
completes the packages of `1..g_n`, then for all pairs. -/
theorem round1_broadcast {c₀ : Coord} (h₀ : Started c₀) (hm : c₀.mode ≠ .sign) (es : List Event) :
    (∀ i j, ((queued c₀ es i).filter fun g => relayOf g = some j).length ≤ 1) ∧
    (∀ i, ∀ g ∈ queued c₀ es i, relayOf g ≠ some i) ∧
    (∀ i i' j, ∀ g ∈ queued c₀ es i, ∀ g' ∈ queued c₀ es i', relayOf g = some j →
      relayOf g' = some j → g = g') ∧
    ((∀ i, ∀ g ∈ queued c₀ es i, relayOf g = none) ∨
      ∃ es₁ s f env es₂, es = es₁ ++ .frame s f env :: es₂ ∧
        (∀ i, ∀ g ∈ queued c₀ es₁ i, relayOf g = none) ∧
        let c := fileR1 (run step c₀ es₁) s f
        (∀ id, 1 ≤ id → id ≤ c.n → id ∈ c.signers ∧ (c.sg id).r1Pkg ≠ []) ∧
        ∀ i j, 1 ≤ i → i ≤ c.n → 1 ≤ j → j ≤ c.n → i ≠ j →
          ∃ g ∈ queuedBy (run step c₀ es₁) (.frame s f env) i, relayOf g = some j ∧
            g.payload = be16 j ++ (c.sg j).r1Pkg ∧ g.sig = (c.sg j).r1Sig) := by
  rcases run_r1 es (h₀.cast hm) with h | ⟨es₁, s, f, env, es₂, type, rfl, h⟩
  · have hnone : ∀ i, ∀ g ∈ queued c₀ es i, relayOf g = none :=
      fun i g hg => relayOf_none (h i g hg)
    refine ⟨fun i j => ?_, fun i g hg => ?_, fun i _ j g hg _ _ hj => ?_, .inl hnone⟩
    · rw [List.filter_eq_nil_iff.mpr fun g hg => by simp [hnone i g hg]]
      exact Nat.zero_le _
    · rw [hnone i g hg]
      exact nofun
    · rw [hnone i g hg] at hj
      cases hj
  · refine ⟨fun i j => h.once j, fun i g hg hi => (h.mem hg hi).2.1 rfl,
      fun i i' j g hg g' hg' hj hj' => ?_, .inr ⟨es₁, s, f, env, es₂, rfl,
        fun i g hg => relayOf_none (h.before i g hg), fun id h1 h2 => h.complete h1 h2, ?_⟩⟩
    · rw [(h.mem hg hj).2.2, (h.mem hg' hj').2.2]
    · intro i j hi1 hi2 hj1 hj2 hne
      have hin := (h.complete hi1 hi2).1
      have hjn := (h.complete hj1 hj2).1
      have hsmall := h.cast.small
      have hr := h.cast.range j hjn
      refine ⟨relayFrame (fileR1 (run step c₀ es₁) s f) type j, ?_,
        relayOf_relayFrame h.relays.relay (by omega), rfl, rfl⟩
      rw [h.queuedBy, if_pos hin]
      exact List.mem_map_of_mem (List.mem_filter.mpr ⟨hjn, by simpa using Ne.symm hne⟩)

def round1Start : Coord := Coord.boot .dkg 0 0 1 86400 1 [] none

/-- Two signers; the first sends its package twice. -/
def round1Run : List Event :=
  [joins 1 2 2, joins 2 2 2, sends 1 .round1Pkg [5], sends 1 .round1Pkg [6],
    sends 2 .round1Pkg [7]]

/-- Its second package is relayed, once, and to the other signer only. -/
theorem round1_broadcast_run :
    ((queued round1Start round1Run 2).filter fun g => relayOf g = some 1).length ≤ 1 ∧
      (∀ g ∈ queued round1Start round1Run 1, relayOf g ≠ some 1) ∧
      (queued round1Start round1Run 2).map Frame.payload =
        [ackText 2 .dkg, printTwo (ascii "START_DKG") 2 2, [0, 1, 6]] := by
  have hstart : Started round1Start :=
    .dkg 0 0 1 86400 1 none (by decide) (by decide) (by decide) (by decide)
  have h := round1_broadcast hstart (by decide) round1Run
  exact ⟨h.1 2 1, h.2.1 1, by decide +kernel⟩

end FrostSshCa.Coordinator
