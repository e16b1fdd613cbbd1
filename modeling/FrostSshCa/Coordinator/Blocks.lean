import FrostSshCa.Coordinator.Attempts

/-!
# The blocks of a step

An event writes what it brings and runs a few blocks of sign mode one after another. A
relation between states that is reflexive and transitive, holds of what the event writes
and of every block, holds of the whole step; the history of bundles goes along.
-/

namespace FrostSshCa.Coordinator

open Lib

/-- What `aggregate` answers for session `k`. -/
def answerOf (c : Coord) (env : Env) (k : Fin maxSessions) : AggregateResult :=
  env.aggregate (aggregateInput c (c.sessions k))

variable {c : Coord} {g : History}

/-- Sign mode with `g_n` set: what the blocks run in. -/
structure Claimed (c : Coord) : Prop where
  signing : Signing c
  claimed : c.n ≠ 0

/-- While `g_n` is not set there is nobody, and no session. -/
def Unclaimed (c : Coord) : Prop :=
  c.n = 0 → c.signers = [] ∧ ∀ k, (c.sessions k).state ≠ .awaitingShares

theorem Unclaimed.of_ne (h : c.n ≠ 0) : Unclaimed c := fun h' => absurd h' h

theorem Claimed.unclaimed (h : Claimed c) : Unclaimed c := .of_ne h.claimed

theorem Unclaimed.of_open (h : Unclaimed c) {k : Fin maxSessions}
    (hk : (c.sessions k).state = .awaitingShares) : c.n ≠ 0 := fun h0 => (h h0).2 k hk

theorem Unclaimed.of_mem (h : Unclaimed c) {i : Nat} (hi : i ∈ c.signers) : c.n ≠ 0 := by
  intro h0
  rw [(h h0).1] at hi
  cases hi

theorem Claimed.chain {c' : Coord} (h : Claimed c) (hc : Chain .all c c') : Claimed c' :=
  ⟨h.signing.chain hc, hc.framed.n ▸ h.claimed⟩

/-- `R` holds of every block of sign mode; `A` is known of what answers the
subprocesses. -/
structure Blocks (A : Env → Prop) (R : Coord × History → Coord × History → Prop) : Prop where
  refl : ∀ p, R p p
  trans : ∀ {p q r}, R p q → R q r → R p r
  ceremony : ∀ {c c' : Coord} {g : History}, Idle c c' → CeremonyOnly c c' → R (c, g) (c', g)
  form : ∀ {c : Coord} {g : History} {env : Env}, Claimed c → A env →
    R (c, g) (tryForm c env, note g (opening c env).toList)
  certify : ∀ {c : Coord} {g : History} {env : Env} {k : Fin maxSessions} {bytes : Bytes},
    Claimed c → A env → (c.sessions k).state = .awaitingShares →
    answerOf c env k = .sig bytes → bytes.length = 64 → R (c, g) (aggregateOk c env k bytes, g)
  abandon : ∀ {c : Coord} {g : History} {env : Env} {k : Fin maxSessions}, Claimed c → A env →
    (c.sessions k).state = .awaitingShares → Unattributed (answerOf c env k) →
    R (c, g) (blacklistSession c k, g)
  blame : ∀ {c : Coord} {g : History} {env : Env} {k : Fin maxSessions} {x : Nat}, Claimed c →
    A env → (c.sessions k).state = .awaitingShares → answerOf c env k = .culprit x → 0 < x →
    x ≤ maxSigners → R (c, g) (culpritReset c k x, g)
  decide : ∀ {c : Coord} {g : History} (b : Bool), R (c, g) ({ c with roastFail := b }, g)
  expire : ∀ {c : Coord} {g : History} {k : Fin maxSessions}, Claimed c →
    (c.sessions k).state = .awaitingShares → R (c, g) (expireMembers c k, g)

variable {A : Env → Prop} {R : Coord × History → Coord × History → Prop}

theorem Claimed.culpritReset (h : Claimed c) {k : Fin maxSessions}
    (hk : (c.sessions k).state = .awaitingShares) (x : Nat) : Claimed (culpritReset c k x) :=
  h.chain (culpritReset_chain hk trivial fun _ _ _ => trivial)

theorem Claimed.expireMembers (h : Claimed c) {k : Fin maxSessions}
    (hk : (c.sessions k).state = .awaitingShares) : Claimed (expireMembers c k) :=
  h.chain (expireMembers_chain hk (fun _ _ _ => trivial) fun _ _ => trivial)

/-- An attempt to form a session: nothing happens, or one is opened with its bundle. -/
theorem opening_cases (c : Coord) (env : Env) : tryForm c env = c ∧ opening c env = none ∨
    ∃ k b spkg wire, Forms c env k spkg wire ∧ buildBundle c (chooseSigners c) = some b ∧
      env.assemble b = some spkg ∧ opening c env = some (k, b) ∧
      tryForm c env = openSession c k (chooseSigners c) spkg wire env.now := by
  unfold opening
  rcases tryForm_cases c env with e | ⟨k, spkg, wire, hf, e⟩
  · refine .inl ⟨e, ?_⟩
    rw [e]
    cases hk : roastAlloc c with
    | none => rfl
    | some k =>
      -- the slot that would be taken is empty
      rw [Option.bind_some, (roastAlloc_some hk).1]
      rfl
  · obtain ⟨b, hb, ha, -⟩ := hf.bundle
    have hopen : ((openSession c k (chooseSigners c) spkg wire env.now).sessions k).state =
        .awaitingShares := by
      rw [(openSession_sessions c k (chooseSigners c) spkg wire env.now).1]
      rfl
    refine .inr ⟨k, b, spkg, wire, hf, hb, ha, ?_, e⟩
    rw [hf.slot, Option.bind_some, e, if_pos hopen, hb]
    rfl

theorem NoneOpened.trans {c' c'' : Coord} (h : NoneOpened c c') (h' : NoneOpened c' c'') :
    NoneOpened c c'' := by
  intro k hk
  have e := h' k hk
  rw [e] at hk ⊢
  exact h k hk

/-- A chain that opens no session. -/
theorem Chain.noneOpened {c' : Coord} (h : Chain .shut c c') : NoneOpened c c' :=
  h.invariant (fun _ _ hl hi => hi.trans hl.shut_noneOpened) fun _ _ => rfl

theorem Blocks.expireSlot (hB : Blocks A R) (h : Signing c) (hu : Unclaimed c) (now : Nat)
    {env : Env} (hA : A env) (k : Fin maxSessions) : R (c, g) (expireSlot c now env k, note g
      (if (c.sessions k).state = .awaitingShares ∧ (c.sessions k).deadline ≤ now then
        (opening (Coordinator.expireMembers c k) env).toList else [])) := by
  unfold Coordinator.expireSlot
  split
  · next hk =>
    rw [if_neg fun h' => hk h'.1]
    exact hB.refl _
  next hk =>
  have hk := not_not.mp hk
  split
  · next hd =>
    rw [if_neg fun h' => absurd h'.2 (by omega)]
    exact hB.refl _
  next hd =>
  rw [if_pos ⟨hk, by omega⟩]
  have hlive : Claimed c := ⟨h, hu.of_open hk⟩
  exact hB.trans (hB.expire hlive hk) (hB.form (hlive.expireMembers hk) hA)

theorem Unclaimed.expireSlot (hu : Unclaimed c) (now : Nat) (env : Env) (k : Fin maxSessions) :
    Unclaimed (expireSlot c now env k) := by
  have hn := (expireSlot_chain c now env k).framed.n
  unfold Coordinator.expireSlot at hn ⊢
  split; · exact hu
  next hk =>
  rw [if_neg hk] at hn
  split; · exact hu
  next hd =>
  rw [if_neg hd] at hn
  exact .of_ne (hn ▸ hu.of_open (not_not.mp hk))

theorem Blocks.expireSlots (hB : Blocks A R) (now : Nat) {env : Fin maxSessions → Env}
    (hA : ∀ k, A (env k)) (ks : List (Fin maxSessions)) :
    ∀ {c : Coord} {g : History}, Signing c → Unclaimed c →
      R (c, g) (ks.foldl (fun c k => Coordinator.expireSlot c now (env k) k) c,
        note g (expireOpenings now env c ks)) := by
  induction ks with
  | nil => exact fun _ _ => hB.refl _
  | cons k ks ih =>
    intro c g h hu
    rw [expireOpenings, note_append]
    exact hB.trans (hB.expireSlot h hu now (hA k) k)
      (ih (Signing.chain (expireSlot_chain c now (env k) k) h) (hu.expireSlot now (env k) k))

theorem Blocks.answer (hB : Blocks A R) (h : Claimed c) {env : Env} (hA : A env)
    {k : Fin maxSessions} (hk : (c.sessions k).state = .awaitingShares) :
    R (c, g) (onAggregate c env k (answerOf c env k),
      note g (aggregateOpenings c env k (answerOf c env k))) := by
  cases hr : answerOf c env k with
  | notRun => exact hB.refl _
  | sig bytes =>
    dsimp only [onAggregate]
    split
    · next hlen => exact hB.abandon h hA hk (by rw [hr]; exact hlen)
    · next hlen => exact hB.certify h hA hk hr (not_not.mp hlen)
  | culprit x =>
    dsimp only [onAggregate, aggregateOpenings]
    split
    · next hx =>
      have h1 : R (c, g) (Coordinator.culpritReset c k x, g) := hB.blame h hA hk hr hx.1 hx.2
      exact hB.trans (hB.trans h1 (hB.form (h.culpritReset hk x) hA)) (hB.decide _)
    · next hx => exact hB.abandon h hA hk (by rw [hr]; exact hx)
  | failed => exact hB.abandon h hA hk (by rw [hr]; trivial)

theorem Claimed.share (h : Claimed c) {e : Event} {k : Fin maxSessions} {slot i : Nat} {p : Bytes}
    (ht : Taken c e (fileShare c k slot i p)) : Claimed (fileShare c k slot i p) :=
  ⟨Signing.taken ht h.signing, h.claimed⟩

theorem Claimed.commit (h : Claimed c) {e : Event} {i : Nat} {f : Frame}
    (ht : Taken c e (storeCommit c i f)) : Claimed (storeCommit c i f) :=
  ⟨Signing.taken ht h.signing, h.claimed⟩

/-- A share and what it leads to. -/
theorem Blocks.sigShare (hB : Blocks A R) (h : Claimed c) {env : Env} (hA : A env) (i : Nat)
    (f : Frame) (hx : c.exited = false) (hi : i ∈ c.signers) (hf : f.type = .sigShare)
    (ht : ∀ d, Taken c (.frame i f env) d → R (c, g) (d, g)) :
    R (c, g) (onSigShare c env i f, note g
      (match aggregateCall c (.frame i f env), shareTarget c i f with
        | some (k, stdin), some (_, slot) =>
          aggregateOpenings (fileShare c k slot i f.payload) env k (env.aggregate stdin)
        | _, _ => [])) := by
  unfold onSigShare aggregateCall
  dsimp only
  rw [if_neg (by simp [hx, hi, hf])]
  cases hst : shareTarget c i f with
  | none => exact hB.refl _
  | some p =>
    obtain ⟨k, slot⟩ := p
    have hshare := shareTarget_some c hst
    have hk : ((fileShare c k slot i f.payload).sessions k).state = .awaitingShares := by
      rw [fileShare_session]
      exact hshare.open'
    have htaken : Taken c (.frame i f env) (fileShare c k slot i f.payload) := .share hi hf hshare
    have hfile : R (c, g) (fileShare c k slot i f.payload, g) := ht _ htaken
    dsimp only
    split
    · unfold roastTryAggregate
      cases hin : aggregateStdin (fileShare c k slot i f.payload) k with
      | none => exact hfile
      | some stdin =>
        have hstdin : stdin = aggregateInput (fileShare c k slot i f.payload)
            ((fileShare c k slot i f.payload).sessions k) := by
          unfold aggregateStdin at hin
          split at hin
          · cases hin
          · exact (Option.some.inj hin).symm
        subst hstdin
        exact hB.trans hfile (hB.answer (h.share htaken) hA hk)
    · exact hfile

/-- A frame of a registered signer. -/
theorem Blocks.frame (hB : Blocks A R) (h : Claimed c) {env : Env} (hA : A env) (i : Nat)
    (f : Frame) (hx : c.exited = false) (hi : i ∈ c.signers)
    (ht : ∀ d, Taken c (.frame i f env) d → R (c, g) (d, g)) :
    R (c, g) (processSignerFrame c env i f, note g (openings c (.frame i f env))) := by
  unfold openings
  rw [hx, if_neg Bool.false_ne_true]
  dsimp only
  rw [if_neg (not_not.mpr hi)]
  by_cases hs : MsgType.signing f.type = true
  · cases e : f.type with
    | commit =>
      have hf : processSignerFrame c env i f = onCommit c env i f := by
        unfold processSignerFrame
        rw [e]
      rw [hf]
      dsimp only
      by_cases htc : TakesCommit c i f
      · have htaken : Taken c (.frame i f env) (storeCommit c i f) := .commit hi e htc
        rw [onCommit_takes h.signing.mode htc, if_pos htc]
        exact hB.trans (ht _ htaken) (hB.form (h.commit htaken) hA)
      · rw [if_neg htc]
        rcases onCommit_cases c env i f with e' | ⟨htc', -⟩
        · rw [e']
          exact hB.refl _
        · exact absurd htc' htc
    | sigShare =>
      have hf : processSignerFrame c env i f = onSigShare c env i f := by
        unfold processSignerFrame
        rw [e]
      rw [hf]
      exact hB.sigShare h hA i f hx hi e ht
    | shareLoadFail =>
      have hf : processSignerFrame c env i f = onShareLoadFail c i := by
        unfold processSignerFrame
        rw [e]
      rw [hf]
      exact ht _ (.keyless hi e)
    | _ => rw [e] at hs; cases hs
  · have hs : MsgType.signing f.type = false := by simpa using hs
    have hb : R (c, g) (processSignerFrame c env i f, g) :=
      hB.ceremony (ceremony_idle h.signing.mode h.signing.dkgState env i f hs)
        (processSignerFrame_ceremonyOnly c env i f hs)
    cases e : f.type with
    | commit => rw [e] at hs; cases hs
    | sigShare => rw [e] at hs; cases hs
    | _ => exact hb

/-- What is known of the answers during an event. -/
def Event.Answered (A : Env → Prop) : Event → Prop
  | .expire _ env => ∀ k, A (env k)
  | .frame _ _ env => A env
  | _ => True

/-- **The block rule**: a step is what the event writes, followed by blocks. The head of
the loop is a block of its own. -/
theorem Blocks.step (hB : Blocks A R) (h : Signing c) (hu : Unclaimed c) {e : Event}
    (hA : e.Answered A)
    (ht : ∀ d, Taken c e d → R (c, g) (d, g))
    (hl : ∀ env, e = .loopHead env → R (c, g) (loopHead c env, g)) :
    R (c, g) (step c e, note g (openings c e)) := by
  cases hx : c.exited with
  | true =>
    unfold openings
    rw [step_exited hx, hx, if_pos rfl]
    exact hB.refl _
  | false =>
    have hnone (l : List (Fin maxSessions × CommitBundle)) :
        (if c.exited = true then [] else l) = l := if_neg (by rw [hx]; exact Bool.false_ne_true)
    cases e with
    | frame i f env =>
      by_cases hi : i ∈ c.signers
      · rw [step_frame_of_mem hx hi]
        exact hB.frame ⟨h, hu.of_mem hi⟩ hA i f hx hi ht
      · unfold openings
        rw [step_frame hx, if_neg hi, hnone]
        dsimp only
        rw [if_pos hi]
        exact hB.refl _
    | expire now env =>
      unfold openings
      rw [step_expire hx, hnone]
      dsimp only
      by_cases hd : c.signingDone = false
      · rw [if_pos ⟨h.mode, hd⟩, if_pos hd]
        exact hB.expireSlots now hA _ h hu
      · rw [if_neg fun h' => hd h'.2, if_neg hd]
        exact hB.refl _
    | loopHead env =>
      unfold openings
      rw [step_loopHead hx, hnone]
      exact hl env rfl
    | hello env payload =>
      unfold openings
      rw [step_hello hx, hnone]
      rcases onHello_taken c env payload with e | ⟨pid, pn, pt, hp, hnt, e | ⟨hr, e⟩⟩
      · rw [e]
        exact hB.refl _
      · rw [e]
        exact ht _ (.claim hp hnt)
      · rw [e]
        exact ht _ (.signer hp hnt hr)
    | drain i =>
      unfold openings
      rw [step_drain hx, hnone]
      split
      · next hi => exact ht _ (.drained hi)
      · exact hB.refl _
    | disconnect i =>
      unfold openings
      rw [step_disconnect hx, hnone]
      split
      · next hi => exact ht _ (.gone hi)
      · exact hB.refl _

/-! ## `g_n` and `g_t` are claimed once -/

theorem Unclaimed.framed {c' : Coord} (hu : Unclaimed c) (hf : Framed c c')
    (hs : NoneOpened c c') : Unclaimed c' := by
  intro h0
  obtain ⟨h1, h2⟩ := hu (hf.n ▸ h0)
  refine ⟨hf.signers.trans h1, fun k hk => ?_⟩
  have e := hs k hk
  rw [e] at hk
  exact h2 k hk

theorem Unclaimed.taken (hu : Unclaimed c) {e : Event} {d : Coord} (ht : Taken c e d) :
    Unclaimed d := by
  have hhello {pn : Nat} {payload : Bytes} {pid pt : Nat}
      (hp : parseHello payload = some (pid, pn, pt)) : pn ≠ 0 := by
    have := (parseHello_some hp).2.2.1
    omega
  cases ht with
  | nothing => exact hu
  | claim hp _ => exact .of_ne (hhello hp)
  | @signer _ _ pid pn pt hp _ _ =>
    obtain ⟨_, _, hshape⟩ := promote_flowOnly { c with n := pn, t := pt } pid
    rw [hshape]
    exact .of_ne (hhello hp)
  | drained hi => exact .of_ne (hu.of_mem hi)
  | gone hi => exact .of_ne (hu.of_mem hi)
  | commit hi _ _ => exact .of_ne (hu.of_mem hi)
  | share hi _ _ => exact .of_ne (hu.of_mem hi)
  | keyless hi _ => exact .of_ne (hu.of_mem hi)

theorem unclaimed_blocks : Blocks (fun _ => True) fun p q => Unclaimed p.1 → Unclaimed q.1 where
  refl := fun _ h => h
  trans := fun h h' hp => h' (h hp)
  ceremony := fun hi _ h h0 => by
    obtain ⟨h1, h2⟩ := h (hi.n ▸ h0)
    exact ⟨hi.signers.trans h1, fun k => hi.sessions ▸ h2 k⟩
  form := fun h _ _ => (h.chain (tryForm_chain _ trivial)).unclaimed
  certify := fun h _ hk _ _ _ => (h.chain (aggregateOk_chain hk _ _)).unclaimed
  abandon := fun h _ hk _ _ =>
    (h.chain (blacklistSession_chain hk (fun _ _ => trivial) fun _ _ => trivial)).unclaimed
  blame := fun h _ hk _ _ _ _ => (h.culpritReset hk _).unclaimed
  decide := fun _ h => h
  expire := fun h hk _ => (h.expireMembers hk).unclaimed

theorem Event.answered_true (e : Event) : e.Answered fun _ => True := by
  cases e with
  | expire now env => exact fun _ => trivial
  | _ => trivial

theorem Unclaimed.step (hu : Unclaimed c) (h : Signing c) (e : Event) :
    Unclaimed (step c e) := by
  refine unclaimed_blocks.step (g := fun _ => none) h hu e.answered_true (fun d ht h => h.taken ht)
    ?_ hu
  intro env _ h
  have hc : Chain .shut c (loopHead c env) := loopHead_chain c env fun _ _ => trivial
  exact h.framed hc.framed hc.noneOpened

end FrostSshCa.Coordinator
