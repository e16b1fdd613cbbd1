import FrostSshCa.Coordinator.Record

/-!
# One event of sign mode

What an event writes itself, before the chain of changes it sets off: the record
of a new signer, a commitment, a share.
-/

namespace FrostSshCa.Coordinator

open Lib

variable {c c' : Coord}

/-- The claim of a `HELLO` that registers `pid`. -/
structure Registers (c : Coord) (env : HelloEnv) (payload : Bytes) (pid : Nat) : Prop where
  claim : ∃ pn pt, parseHello payload = some (pid, pn, pt) ∧ (c.n = 0 ∨ c.n = pn ∧ c.t = pt)
  cached : env.pubkeyCached pid = true
  identity : env.identityOk pid = true
  new : pid ∉ c.signers

/-- A `HELLO` that is accepted has passed every test of the registration. -/
theorem onHello_registers {env : HelloEnv} {payload : Bytes} {pid : Nat}
    (h : (onHello c env payload).2 = .ok pid) : Registers c env payload pid := by
  unfold onHello at h
  split at h; · cases h
  next pid' pn pt hp =>
  split at h; · cases h
  next hnt =>
  generalize hd : (if c.n = 0 then { c with n := pn, t := pt } else c) = d at h
  have hs : d.signers = c.signers := by
    rw [← hd]
    split <;> rfl
  dsimp only at h
  split at h; · cases h
  next hcached =>
  split at h; · cases h
  next hident =>
  split at h; · cases h
  next hnew =>
  cases h
  refine ⟨⟨pn, pt, hp, ?_⟩, by simpa using hcached, by simpa using hident, hs ▸ hnew⟩
  by_cases h0 : c.n = 0
  · exact .inl h0
  · by_contra hne
    exact hnt ⟨h0, by omega⟩

/-- A `HELLO` leaves the coordinator alone, fixes `g_n` and `g_t`, or registers. -/
theorem onHello_taken (c : Coord) (env : HelloEnv) (payload : Bytes) :
    (onHello c env payload).1 = c ∨ ∃ pid pn pt, parseHello payload = some (pid, pn, pt) ∧
      (c.n = 0 ∨ c.n = pn ∧ c.t = pt) ∧
      ((onHello c env payload).1 = { c with n := pn, t := pt } ∨
        Registers c env payload pid ∧
          (onHello c env payload).1 = promote { c with n := pn, t := pt } pid) := by
  rcases onHello_cases c env payload with e | ⟨pid, pn, pt, hp, hnt, e | ⟨-, e, hok⟩⟩
  · exact .inl e
  · exact .inr ⟨pid, pn, pt, hp, hnt, .inl e⟩
  · exact .inr ⟨pid, pn, pt, hp, hnt, .inr ⟨onHello_registers hok, e⟩⟩

/-- What an event of sign mode writes before its blocks run. -/
inductive Taken (c : Coord) : Event → Coord → Prop where
  | nothing (e : Event) : Taken c e c
  | claim {env : HelloEnv} {payload : Bytes} {pid pn pt : Nat}
      (hp : parseHello payload = some (pid, pn, pt)) (hnt : c.n = 0 ∨ c.n = pn ∧ c.t = pt) :
      Taken c (.hello env payload) { c with n := pn, t := pt }
  | signer {env : HelloEnv} {payload : Bytes} {pid pn pt : Nat}
      (hp : parseHello payload = some (pid, pn, pt)) (hnt : c.n = 0 ∨ c.n = pn ∧ c.t = pt)
      (hr : Registers c env payload pid) :
      Taken c (.hello env payload) (promote { c with n := pn, t := pt } pid)
  | drained {i : Nat} (hi : i ∈ c.signers) : Taken c (.drain i) (drainSignerWrite c i)
  | gone {i : Nat} (hi : i ∈ c.signers) : Taken c (.disconnect i) (removeSigner c i)
  | commit {i : Nat} {f : Frame} {env : Env} (hi : i ∈ c.signers) (hf : f.type = .commit)
      (ht : TakesCommit c i f) : Taken c (.frame i f env) (storeCommit c i f)
  | share {i : Nat} {f : Frame} {env : Env} {k : Fin maxSessions} {slot : Nat} (hi : i ∈ c.signers)
      (hf : f.type = .sigShare) (ht : ShareTarget c i f k slot) :
      Taken c (.frame i f env) (fileShare c k slot i f.payload)
  | keyless {i : Nat} {f : Frame} {env : Env} (hi : i ∈ c.signers) (hf : f.type = .shareLoadFail) :
      Taken c (.frame i f env) (onShareLoadFail c i)

/-- **An event of sign mode** writes what it brings, and a chain follows. -/
theorem step_taken (hm : c.mode = .sign) (hd : c.dkgState ≠ .collectingR1) (e : Event) :
    ∃ d, Taken c e d ∧ Chain .all d (step c e) := by
  cases hx : c.exited with
  | true =>
    rw [step_exited hx]
    exact ⟨c, .nothing e, .refl c⟩
  | false =>
    cases e with
    | loopHead env =>
      rw [step_loopHead hx]
      exact ⟨c, .nothing _, loopHead_chain c env fun _ _ => trivial⟩
    | expire now env =>
      rw [step_expire hx]
      refine ⟨c, .nothing _, ?_⟩
      split
      · exact roastExpireSessions_chain (fun _ => True) (fun _ _ _ _ => trivial)
          (fun _ _ _ _ _ => ⟨fun _ _ _ => trivial, fun _ _ => trivial⟩) (fun _ => trivial) trivial
      · exact .refl c
    | hello env payload =>
      rw [step_hello hx]
      rcases onHello_taken c env payload with e | ⟨pid, pn, pt, hp, hnt, e | ⟨hr, e⟩⟩
      · rw [e]; exact ⟨c, .nothing _, .refl c⟩
      · rw [e]; exact ⟨_, .claim hp hnt, .refl _⟩
      · rw [e]; exact ⟨_, .signer hp hnt hr, .refl _⟩
    | drain i =>
      rw [step_drain hx]
      split
      · next hi => exact ⟨_, .drained hi, .refl _⟩
      · exact ⟨c, .nothing _, .refl c⟩
    | disconnect i =>
      rw [step_disconnect hx]
      split
      · next hi => exact ⟨_, .gone hi, .refl _⟩
      · exact ⟨c, .nothing _, .refl c⟩
    | frame i f env =>
      rw [step_frame hx]
      split
      · next hi =>
        by_cases hs : MsgType.signing f.type = true
        · cases e : f.type with
          | commit =>
            unfold processSignerFrame
            rw [e]
            dsimp only
            rcases onCommit_cases c env i f with e' | ⟨ht, e'⟩
            · rw [e']; exact ⟨c, .nothing _, .refl c⟩
            · rw [e']; exact ⟨_, .commit hi e ht, tryForm_chain _ trivial⟩
          | sigShare =>
            unfold processSignerFrame
            rw [e]
            dsimp only
            rcases onSigShare_cases c env i f with e' | ⟨k, slot, hst, e' | ⟨stdin, -, -, e'⟩⟩
            · rw [e']; exact ⟨c, .nothing _, .refl c⟩
            · rw [e']; exact ⟨_, .share hi e (shareTarget_some c hst), .refl _⟩
            · have ht := shareTarget_some c hst
              have hk : ((fileShare c k slot i f.payload).sessions k).state = .awaitingShares := by
                rw [fileShare_session]
                exact ht.open'
              rw [e']
              exact ⟨_, .share hi e ht, onAggregate_chain hk trivial _ (fun _ _ => trivial)
                (fun _ _ => trivial) (fun _ _ _ => trivial)⟩
          | shareLoadFail =>
            unfold processSignerFrame
            rw [e]
            exact ⟨_, .keyless hi e, .refl _⟩
          | _ => rw [e] at hs; cases hs
        · exact ⟨c, .nothing _, (ceremony_idle hm hd env i f (by simpa using hs)).chain⟩
      · exact ⟨c, .nothing _, .refl c⟩

end FrostSshCa.Coordinator
