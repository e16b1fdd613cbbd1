import FrostSshCa.Coordinator.Outgoing
import FrostSshCa.Coordinator.Ledger
import FrostSshCa.Coordinator.Eager

/-!
# What has been done when the coordinator exits

The queue of a signer is first in, first out: what was queued since the signer registered
is what was written to its connection, and then the queue. The loop is left at its head
only, with all queues empty, so everything was written then; and a loop of sign mode that
is left without a failure has written every certificate it was asked for.
-/

namespace FrostSshCa.Coordinator

open Lib

variable {c c' d : Coord} {i : Nat}

/-! ## What was written to a signer -/

/-- The frame that event `e` completes on the connection of `i`. -/
def wroteBy (c : Coord) (e : Event) (i : Nat) : List Frame :=
  match e with
  | .drain j => if j = i ∧ i ∈ c.signers ∧ c.exited = false then (c.sg i).msgq.take 1 else []
  | _ => []

/-- Event `e` registers `i`. -/
def Enters (c : Coord) (e : Event) (i : Nat) : Prop := i ∉ c.signers ∧ i ∈ (step c e).signers

instance (c : Coord) (e : Event) (i : Nat) : Decidable (Enters c e i) :=
  inferInstanceAs (Decidable (_ ∧ _))

/-- The frames queued for a connection, and those written to it. -/
structure Log where
  queued : List Frame
  written : List Frame
deriving DecidableEq

def Log.empty : Log := ⟨[], []⟩

def Log.next (l : Log) (c : Coord) (e : Event) (i : Nat) : Log :=
  let l := if Enters c e i then Log.empty else l
  ⟨l.queued ++ queuedBy c e i, l.written ++ wroteBy c e i⟩

/-- The log of the last connection of `i` in a run. -/
def logOf (i : Nat) : Coord → List Event → Log → Log
  | _, [], l => l
  | c, e :: es, l => logOf i (step c e) es (l.next c e i)

/-- A `HELLO` is what registers, and it starts with an empty queue. -/
theorem Enters.hello {e : Event} (h : Enters c e i) :
    (∃ env payload, e = .hello env payload) ∧ kept c e i = [] := by
  obtain ⟨hno, hin⟩ := h
  cases he : e.moves with
  | false =>
    have hs : (step c e).signers = c.signers := congrArg (fun v => v.2.1) (step_rosterView he)
    rw [hs] at hin
    exact absurd hin hno
  | true =>
    cases e with
    | hello env payload => exact ⟨⟨env, payload, rfl⟩, if_pos ⟨hno, hin⟩⟩
    | disconnect j =>
      unfold step at hin
      split at hin; · exact absurd hin hno
      dsimp only at hin
      split at hin
      · exact absurd (List.mem_of_mem_filter hin) hno
      · exact absurd hin hno
    | _ => cases he

theorem wroteBy_kept {e : Event} (h : ¬ Enters c e i) :
    wroteBy c e i ++ kept c e i = (c.sg i).msgq := by
  cases e with
  | hello env payload =>
    have h' : ¬ (i ∉ c.signers ∧ i ∈ (step c (.hello env payload)).signers) := h
    show [] ++ (if _ then _ else _) = _
    rw [if_neg h', List.nil_append]
  | drain j =>
    show (if _ then _ else _) ++ (if _ then _ else _) = _
    by_cases hj : j = i ∧ i ∈ c.signers ∧ c.exited = false
    · rw [if_pos hj, if_pos hj, ← List.drop_one]
      apply List.take_append_drop
    · rw [if_neg hj, if_neg hj, List.nil_append]
  | _ => rfl

/-- **One event** keeps the log of a connection: what is queued goes to the end, what is
written comes from the front. -/
theorem Log.next_queue (h : Founded c) {l : Log} (hl : l.queued = l.written ++ (c.sg i).msgq)
    (e : Event) :
    (l.next c e i).queued = (l.next c e i).written ++ ((step c e).sg i).msgq := by
  have htrue : Texts fun _ => True :=
    ⟨fun _ => trivial, trivial, trivial, trivial, fun _ _ => trivial, fun _ _ => trivial⟩
  have hgreet : Greetings fun _ => True :=
    ⟨fun _ _ => trivial, fun _ _ => ⟨trivial, trivial⟩, fun _ _ => trivial⟩
  have hfor : ForwardsAt (fun _ => True) c e := by
    cases e with
    | frame j f env => exact fun _ => ⟨fun _ _ _ _ _ _ => trivial, fun _ _ _ _ _ => trivial⟩
    | _ => trivial
  obtain ⟨fs, hfs, -⟩ := (sent_of htrue hgreet h hfor).queue i
  unfold Log.next
  rw [queuedBy_eq hfs, hfs]
  by_cases hin : Enters c e i
  · obtain ⟨⟨env, payload, rfl⟩, hk⟩ := hin.hello
    rw [if_pos hin, hk]
    rfl
  · have hw := wroteBy_kept hin
    rw [if_neg hin]
    dsimp only
    rw [hl, ← hw]
    simp only [List.append_assoc]

theorem logOf_queue (es : List Event) : ∀ {c : Coord} {l : Log}, Founded c →
    l.queued = l.written ++ (c.sg i).msgq →
    (logOf i c es l).queued = (logOf i c es l).written ++ ((run step c es).sg i).msgq := by
  induction es with
  | nil => exact fun _ hl => hl
  | cons e es ih => exact fun h hl => ih (h.step e) (Log.next_queue h hl e)

/-! ## The certificates still to write -/

/-- How a step moves the count of the certificates to write. -/
inductive Tally (c d : Coord) : Prop where
  | same (left : d.toMint = c.toMint) (certs : d.certs.length = c.certs.length)
      (done : DoneKept c d)
  | written (open' : c.signingDone = false) (left : d.toMint = (c.toMint + (2 ^ 64 - 1)) % 2 ^ 64)
      (certs : d.certs.length = c.certs.length + 1) (done : d.signingDone = true)
  | resumed (more : 0 < c.toMint) (left : d.toMint = c.toMint)
      (certs : d.certs.length = c.certs.length)

theorem Tally.of_ledger (h : ledgerView d = ledgerView c) : Tally c d := by
  simp only [ledgerView, Prod.mk.injEq] at h
  exact .same h.2.2.2.1 (by rw [h.2.2.2.2.1]) (.of_eq h.2.2.2.2.2)

theorem onAggregate_tally (hd : c.signingDone = false) (env : Env) (k : Fin maxSessions)
    (r : AggregateResult) : Tally c (onAggregate c env k r) := by
  have hfall : Tally c (blacklistSession c k) := by
    have hb : ledgerView (blacklistMembers c k) = ledgerView c :=
      (blacklistMembers_recOnly c k).ledger
    simp only [ledgerView, Prod.mk.injEq] at hb
    have hset : (blacklistSession c k).toMint = (blacklistMembers c k).toMint ∧
        (blacklistSession c k).certs = (blacklistMembers c k).certs := by
      unfold blacklistSession
      obtain ⟨_, e⟩ := broadcastSignReq_sgOnly (if roastDoNoEligibleRemain (blacklistMembers c k)
        then { blacklistMembers c k with signingDone := true } else blacklistMembers c k)
      rw [e]
      dsimp only
      split <;> exact ⟨rfl, rfl⟩
    apply Tally.same
    · rw [hset.1, hb.2.2.2.1]
    · rw [hset.2, hb.2.2.2.2.1]
    · exact onAggregate_doneKept c env k .failed
  cases r with
  | notRun => exact .of_ledger rfl
  | sig bytes =>
    dsimp only [onAggregate]
    split
    · exact hfall
    · unfold aggregateOk callMint
      cases hm : env.mint _ with
      | none => exact .same rfl rfl fun _ => rfl
      | some cert =>
        have hview := (broadcast_sgOnly (countCert (finishSession c k) cert) .certOutput []).ledger
        simp only [ledgerView, Prod.mk.injEq] at hview
        refine .written hd hview.2.2.2.1 ?_ hview.2.2.2.2.2
        show (Coord.broadcast _ _ _).certs.length = _
        rw [hview.2.2.2.2.1]
        exact List.length_append
  | culprit id =>
    dsimp only [onAggregate]
    split
    · exact .of_ledger (roastFailCulprit_ledger c env k id)
    · exact hfall
  | failed => exact hfall

theorem frame_tally (hx : c.exited = false) {i : Nat} (hi : i ∈ c.signers) (f : Frame) (env : Env) :
    Tally c (step c (.frame i f env)) := by
  have hstep : step c (.frame i f env) = processSignerFrame c env i f :=
    step_frame_of_mem hx hi f env
  by_cases hs : MsgType.signing f.type = true
  · cases e : f.type with
    | commit =>
      rw [hstep]
      unfold processSignerFrame
      rw [e]
      dsimp only
      rcases onCommit_cases c env i f with e' | ⟨-, e'⟩
      · rw [e']; exact .of_ledger rfl
      · rw [e']; exact .of_ledger (tryForm_ledger ..)
    | sigShare =>
      rcases @step_sigShare_cases c i f env hx hi e with e' | ⟨k, slot, ht, e' | ⟨stdin, hcall, e'⟩⟩
      · rw [e']; exact .of_ledger rfl
      · rw [e']; exact .of_ledger rfl
      · obtain ⟨_, _, _, _, heq, hat, -⟩ := aggregateCall_some hcall
        cases heq
        rw [e']
        -- filing the share moves none of the books
        cases onAggregate_tally (c := fileShare c k slot i f.payload) hat.notDone env k
            (env.aggregate stdin) with
        | same h1 h2 h3 => exact .same h1 h2 h3
        | written h1 h2 h3 h4 => exact .written h1 h2 h3 h4
        | resumed h1 h2 h3 => exact .resumed h1 h2 h3
    | shareLoadFail =>
      rw [hstep]
      unfold processSignerFrame
      rw [e]
      exact .of_ledger rfl
    | _ => rw [e] at hs; cases hs
  · rw [hstep]
    obtain ⟨_, _, _, _, _, _, e⟩ := processSignerFrame_ceremonyOnly c env i f (by simpa using hs)
    have hdone := processSignerFrame_doneKept c env i f
    rw [e] at hdone ⊢
    exact .same rfl rfl hdone

/-- **One event** leaves the count, enters one certificate, or begins the next. -/
theorem step_tally (c : Coord) (e : Event) : Tally c (step c e) := by
  cases hx : c.exited with
  | true =>
    rw [step_exited hx]
    exact .of_ledger rfl
  | false =>
    have hexit : ledgerView (exitIfQuiet c) = ledgerView c := by
      unfold exitIfQuiet
      split <;> rfl
    cases e with
    | loopHead env =>
      rw [step_loopHead hx]
      unfold loopHead
      split; · exact .of_ledger hexit
      split
      · split
        · next hmint =>
          unfold nextMint
          obtain ⟨_, e⟩ := broadcastSignReq_sgOnly (resume (prepareTbs (advanceSerial c) env).1)
          obtain ⟨d, tbs, hex, e' | e'⟩ := prepareTbs_cases (advanceSerial c) env <;>
            · rw [e, e']
              exact .resumed hmint rfl rfl
        · exact .of_ledger hexit
      split
      · exact .of_ledger hexit
      · exact .of_ledger rfl
    | expire now env =>
      rw [step_expire hx]
      split
      · exact .of_ledger (foldl_frame ledgerView (fun d k _ => expireSlot_ledger d now (env k) k) c)
      · exact .of_ledger rfl
    | hello env payload =>
      rw [step_hello hx]
      rcases onHello_taken c env payload with e | ⟨pid, pn, pt, -, -, e | ⟨-, e⟩⟩
      · rw [e]; exact .of_ledger rfl
      · rw [e]; exact .of_ledger rfl
      · rw [e]; exact .of_ledger (promote_flowOnly _ pid).ledger
    | drain i =>
      rw [step_drain hx]
      split <;> exact .of_ledger rfl
    | disconnect i =>
      rw [step_disconnect hx]
      split <;> exact .of_ledger rfl
    | frame i f env =>
      by_cases hi : i ∈ c.signers
      · exact frame_tally hx hi f env
      · rw [step_frame hx, if_neg hi]
        exact .of_ledger rfl

/-- Of `m` certificates, those written and those left; one is left while signing goes on. -/
structure Counting (m : Nat) (c : Coord) : Prop where
  total : c.toMint + c.certs.length = m
  more : c.signingDone = false → 0 < c.toMint

theorem Counting.step {m : Nat} (h : Counting m c) (hm : m < 2 ^ 64) (e : Event) :
    Counting m (step c e) := by
  have ht := h.total
  cases step_tally c e with
  | same left certs done =>
    refine ⟨by omega, fun hd => ?_⟩
    rw [left]
    apply h.more
    cases hc : c.signingDone with
    | false => rfl
    | true => rw [done hc] at hd; cases hd
  | written open' left certs done =>
    have hpos := h.more open'
    have hmod : (c.toMint + (2 ^ 64 - 1)) % 2 ^ 64 = c.toMint - 1 := by
      rw [show c.toMint + (2 ^ 64 - 1) = c.toMint - 1 + 2 ^ 64 by omega, Nat.add_mod_right]
      apply Nat.mod_eq_of_lt
      omega
    refine ⟨by omega, fun hd => ?_⟩
    rw [done] at hd
    cases hd
  | resumed more left certs => exact ⟨by omega, fun _ => by omega⟩

/-! ## The end of the loop -/

/-- Why the loop is left: a failure, or the work is done. -/
def Over (c : Coord) : Prop :=
  c.roastFail = true ∨
    c.signingDone = true ∧ if c.mode = .sign then c.toMint = 0 else c.dkgState = .complete

instance (c : Coord) : Decidable (Over c) := inferInstanceAs (Decidable (_ ∨ _ ∧ _))

/-- What has been done by a coordinator that has exited. -/
structure Ended (c : Coord) : Prop where
  quiet : allQuiet c = true
  finished : Over c

theorem step_exited_kept (hx : c.exited = false) {e : Event} (he : ∀ env, e ≠ .loopHead env) :
    (step c e).exited = false := by
  cases e with
  | loopHead env => exact absurd rfl (he env)
  | expire now env =>
    rw [step_expire hx]
    split
    · obtain ⟨_, _, _, _, _, _, _, _, _, _, e⟩ := roastExpireSessions_roastOnly c now env
      rw [e]
      exact hx
    · exact hx
  | hello env payload =>
    rw [step_hello hx]
    rcases onHello_taken c env payload with e | ⟨pid, pn, pt, -, -, e | ⟨-, e⟩⟩
    · rw [e]; exact hx
    · rw [e]; exact hx
    · obtain ⟨_, _, e'⟩ := promote_flowOnly { c with n := pn, t := pt } pid
      rw [e, e']
      exact hx
  | drain i =>
    rw [step_drain hx]
    split <;> exact hx
  | disconnect i =>
    rw [step_disconnect hx]
    split <;> exact hx
  | frame i f env =>
    rw [step_frame hx]
    split
    · by_cases hs : MsgType.signing f.type = true
      · obtain ⟨_, _, _, _, _, _, _, _, _, _, e⟩ := processSignerFrame_roastOnly c env i f hs
        rw [e]
        exact hx
      · obtain ⟨_, _, _, _, _, _, e⟩ :=
          processSignerFrame_ceremonyOnly c env i f (by simpa using hs)
        rw [e]
        exact hx
    · exact hx

theorem exitIfQuiet_eq (c : Coord) :
    exitIfQuiet c = { c with exited := c.exited || allQuiet c } := by
  unfold exitIfQuiet
  cases hq : allQuiet c with
  | true => simp
  | false => simp

theorem Ended.loopHead (h : Ended c) (env : TbsEnv) :
    loopHead c env = { c with exited := true } := by
  have hexit : exitIfQuiet c = { c with exited := true } := if_pos h.quiet
  unfold Coordinator.loopHead
  by_cases hf : c.roastFail = true
  · rw [if_pos hf, hexit]
  obtain ⟨hdone, hwhy⟩ := h.finished.resolve_left hf
  rw [if_neg hf]
  by_cases hm : c.mode = .sign
  · rw [if_pos hm] at hwhy
    rw [if_pos ⟨hdone, hm⟩, if_neg (by omega), hexit]
  · rw [if_neg hm] at hwhy
    rw [if_neg fun h => hm h.2, if_pos ⟨hwhy, hdone⟩, hexit]

/-- **The loop is left** at its head only, when the work is over and every queue empty. -/
theorem step_exits_iff (hx : c.exited = false) (e : Event) :
    (step c e).exited = true ↔ (∃ env, e = .loopHead env) ∧ Ended c := by
  have hexit : (exitIfQuiet c).exited = true ↔ allQuiet c = true := by
    rw [exitIfQuiet_eq]
    simp [hx]
  cases e with
  | loopHead env =>
    rw [step_loopHead hx]
    unfold loopHead
    constructor
    · intro h
      refine ⟨⟨env, rfl⟩, ?_⟩
      split at h
      · next hf => exact ⟨hexit.mp h, .inl hf⟩
      split at h
      · next hdone =>
        split at h
        · have hkept : (nextMint c env).exited = c.exited := by
            unfold nextMint
            obtain ⟨_, e⟩ := broadcastSignReq_sgOnly (resume (prepareTbs (advanceSerial c) env).1)
            obtain ⟨d, tbs, hex, e' | e'⟩ := prepareTbs_cases (advanceSerial c) env <;>
              · rw [e, e']
                rfl
          rw [hkept, hx] at h
          cases h
        · next hzero =>
          refine ⟨hexit.mp h, .inr ⟨hdone.1, ?_⟩⟩
          rw [if_pos hdone.2]
          omega
      next hno =>
      split at h
      · next hcomp =>
        refine ⟨hexit.mp h, .inr ⟨hcomp.2, ?_⟩⟩
        rw [if_neg fun hm => hno ⟨hcomp.2, hm⟩]
        exact hcomp.1
      · rw [hx] at h
        cases h
    · rintro ⟨-, hend⟩
      have e := hend.loopHead env
      unfold loopHead at e
      rw [e]
  | _ =>
    refine iff_of_false ?_ ?_
    · rw [step_exited_kept hx (by simp)]
      decide
    · rintro ⟨⟨_, h⟩, -⟩
      cases h

/-- A coordinator that has exited has all its queues empty, and its work is over. -/
theorem ended_step (h : c.exited = true → Ended c) (e : Event)
    (hx : (step c e).exited = true) : Ended (step c e) := by
  cases hc : c.exited with
  | true =>
    rw [step_exited hc]
    exact h hc
  | false =>
    obtain ⟨⟨env, rfl⟩, hend⟩ := (step_exits_iff hc e).mp hx
    rw [step_loopHead hc, hend.loopHead env]
    exact ⟨hend.quiet, hend.finished⟩

/-! ## A run -/

theorem Started.counting (h : Started c) (hm : 0 < c.toMint) :
    Counting c.toMint c ∧ c.toMint < 2 ^ 64 := by
  cases h with
  | dkg n t serial secs toMint file _ _ _ hlt => exact ⟨⟨rfl, fun _ => hm⟩, hlt⟩
  | refresh n t serial secs toMint file _ _ _ hlt => exact ⟨⟨rfl, fun _ => hm⟩, hlt⟩
  | sign n t serial secs toMint file env _ _ _ hlt _ hp =>
    obtain ⟨d, tbs, hex, e | e⟩ := prepareTbs_cases
      (Coord.boot .sign n t serial secs toMint file (some file)) env <;>
    · rw [hp] at e
      obtain rfl : c = _ := e
      exact ⟨⟨rfl, fun _ => hm⟩, hlt⟩

/-- **Graceful exit**: in every run, what was queued for a signer since it registered was
written to it, in order, but for what is queued now. The loop is left when a failure is
decided or the work is done, with nothing queued: then every frame queued for a registered
signer was written, and without a failure sign mode has written every certificate. -/
theorem graceful_exit {c₀ : Coord} (h₀ : Started c₀) (es : List Event) :
    let c := run step c₀ es
    (∀ i, (logOf i c₀ es .empty).queued = (logOf i c₀ es .empty).written ++ (c.sg i).msgq) ∧
      (0 < c₀.toMint → c.certs.length ≤ c₀.toMint) ∧
      (∀ e, c.exited = false →
        ((step c e).exited = true ↔ (∃ env, e = .loopHead env) ∧ Ended c)) ∧
      (c.exited = true →
        (∀ i ∈ c.signers, (logOf i c₀ es .empty).written = (logOf i c₀ es .empty).queued) ∧
        Over c ∧ (c.mode = .sign → c.roastFail = false → 0 < c₀.toMint →
          c.certs.length = c₀.toMint)) := by
  have hlog (i : Nat) := logOf_queue (i := i) es (l := .empty) h₀.founded
    (by rw [h₀.queues i]; rfl)
  have hcount (hpos : 0 < c₀.toMint) : Counting c₀.toMint (run step c₀ es) := by
    obtain ⟨hstart, hlt⟩ := h₀.counting hpos
    exact run_invariant (fun c e h => h.step hlt e) hstart
  refine ⟨hlog, fun hpos => ?_, fun e hx => step_exits_iff hx e, fun hx => ?_⟩
  · have := (hcount hpos).total
    omega
  have hend : Ended (run step c₀ es) := by
    refine run_invariant (I := fun c => c.exited = true → Ended c)
      (fun c e h => ended_step h e) (fun h => ?_) hx
    rw [h₀.unused.exited] at h
    cases h
  refine ⟨fun i hi => ?_, hend.finished, fun hm hf hpos => ?_⟩
  · have hq := List.all_eq_true.mp hend.quiet i hi
    rw [hlog i, List.isEmpty_iff.mp hq, List.append_nil]
  · have hwhy := (hend.finished.resolve_left (by simp [hf])).2
    rw [if_pos hm] at hwhy
    have := (hcount hpos).total
    omega

/-- One certificate: the frames queued are written, and the loop is left. -/
def lastFrames : List Event :=
  (List.replicate 4 (.drain 1) ++ List.replicate 4 (.drain 2)) ++
    [.loopHead ⟨0, fun _ _ _ => .noTemplate, none⟩]

theorem graceful_exit_run :
    let es := openingRun ++ mintRun ++ lastFrames
    let c := run step (signStart 2 2 1) es
    c.exited = true ∧ ((logOf 1 (signStart 2 2 1) es .empty).queued.map (·.type) =
      [.helloAck, .signReq, .relayCommit, .certOutput]) ∧ c.certs.length = 1 := by
  have h := graceful_exit (@signStart_started 2 2 1 (by decide) (by decide) (by decide))
    (openingRun ++ mintRun ++ lastFrames)
  have hx : (run step (signStart 2 2 1) (openingRun ++ mintRun ++ lastFrames)).exited = true := by
    decide +kernel
  refine ⟨hx, by decide +kernel, ?_⟩
  exact (h.2.2.2 hx).2.2 (by decide +kernel) (by decide +kernel) (by decide +kernel)

end FrostSshCa.Coordinator
