import FrostSshCa.Coordinator.Attempts
import FrostSshCa.Coordinator.Eager

/-!
# Forming a session

`roast_try_form_session` has nine ways out. All but the last leave everything as it was;
the last fills one empty slot and assigns to it the first `g_t` candidates.
-/

namespace FrostSshCa.Coordinator

open Lib

/-- `roast_try_form_session` with its result. -/
def formSession (c : Coord) (env : Env) : Coord × Bool :=
  if c.signingDone then (c, false)
  else
    let chosen := chooseSigners c
    if numSigners c c.t c.signers 0 < c.t then (c, false)
    else if chosen.length < c.t then (c, false)
    else match roastAlloc c with
      | none => (c, false)
      | some k => match buildBundle c chosen with
        | none => (c, false)
        | some bundle => match env.assemble bundle with
          | none => (c, false)
          | some spkg => match packCommitBundle commitBundleWireMax bundle with
            | none => (c, false)
            | some wire =>
              if wire.length > maxPayload then (c, false)
              else (openSession c k chosen spkg wire env.now, true)

variable {c c' d : Coord} {env : Env} {k : Fin maxSessions}

/-- The attempt is the one the callers make. -/
theorem formSession_fst (c : Coord) (env : Env) :
    (formSession c env).1 = roastTryFormSession c env := by
  unfold formSession roastTryFormSession
  by_cases hd : c.signingDone = true
  · rw [if_pos hd, if_pos hd]
  rw [if_neg hd, if_neg hd]
  dsimp only
  by_cases hn : numSigners c c.t c.signers 0 < c.t
  · rw [if_pos hn, if_pos hn]
  rw [if_neg hn, if_neg hn]
  by_cases ht : (chooseSigners c).length < c.t
  · rw [if_pos ht, if_pos ht]
  rw [if_neg ht, if_neg ht]
  cases roastAlloc c with
  | none => rfl
  | some k =>
  cases buildBundle c (chooseSigners c) with
  | none => rfl
  | some bundle =>
  dsimp only
  cases env.assemble bundle with
  | none => rfl
  | some spkg =>
  cases packCommitBundle commitBundleWireMax bundle with
  | none => rfl
  | some wire =>
  dsimp only
  split <;> rfl

theorem formSession_cases (c : Coord) (env : Env) : formSession c env = (c, false) ∨
    ∃ k spkg wire, Forms c env k spkg wire ∧
      formSession c env = (openSession c k (chooseSigners c) spkg wire env.now, true) := by
  unfold formSession
  split; · exact .inl rfl
  next hd =>
  dsimp only
  split; · exact .inl rfl
  split; · exact .inl rfl
  next hlen =>
  split; · exact .inl rfl
  next k hk =>
  split; · exact .inl rfl
  next b hb =>
  split; · exact .inl rfl
  next spkg hs =>
  split; · exact .inl rfl
  next wire hw =>
  split
  · exact .inl rfl
  · next hfit =>
    exact .inr ⟨k, spkg, wire, ⟨by simpa using hd, by omega, hk, ⟨b, hb, hs, hw⟩, by omega⟩, rfl⟩

/-! ## What is formed -/

/-- Each member's own commitment and signature, and the TBS. -/
def bundleOf (c : Coord) (ids : List Nat) : CommitBundle :=
  ⟨ids.map fun id => ⟨id, (c.sg id).commit, (c.sg id).commitSig⟩, c.tbs⟩

/-- A registered signer that may be chosen. -/
structure Candidate (c : Coord) (i : Nat) : Prop where
  registered : i ∈ c.signers
  allowed : i ∉ c.blacklist
  phase : (c.sg i).signPhase = .committed
  commit : (c.sg i).commit ≠ []

/-- The session of `ids` is formed in slot `k` on the way from `c` to `c'`. -/
structure Formed (c : Coord) (env : Env) (k : Fin maxSessions) (ids : List Nat) (c' : Coord) :
    Prop where
  slot : (c.sessions k).state = .empty
  session : ∃ spkg, env.assemble (bundleOf c ids) = some spkg ∧ c'.sessions k =
    { id := c.nextSessionId
      state := .awaitingShares
      deadline := env.now + sessionTimeout
      signerIds := ids
      signingPkg := spkg
      shares := fun _ => []
      nShares := 0 }
  /-- No session in the table has the id, and `roast_find` finds the new one by it. -/
  fresh : ∀ j, (c.sessions j).state ≠ .empty → (c.sessions j).id ≠ c.nextSessionId
  found : roastFind c' c.nextSessionId = some k
  size : ids.length = c.t
  distinct : ids.Nodup
  candidates : ∀ i ∈ ids, Candidate c i
  priority : ∀ i ∈ ids, 0 < getStrikes c i → ∀ j, Candidate c j → getStrikes c j = 0 → j ∈ ids
  /-- The members, and nobody else, are assigned and sent the bundle. -/
  records : ∀ i, c'.sg i = if i ∈ ids then { c.sg i with
      signPhase := .inSession
      sessionId := c.nextSessionId
      msgq := (c.sg i).msgq ++ [⟨.relayCommit, [], (bundleOf c ids).encode⟩] }
    else c.sg i
  others : ∀ j, j ≠ k → c'.sessions j = c.sessions j
  rest : c' = { c with
    sg := c'.sg, sessions := c'.sessions, nextSessionId := (c.nextSessionId + 1) % 2 ^ 32 }

/-- The next id is in no used slot. -/
theorem UsedTo.fresh {u : Nat} (h : UsedTo c u) (hk : roastAlloc c = some k) {j : Fin maxSessions}
    (hj : (c.sessions j).state ≠ .empty) : (c.sessions j).id ≠ c.nextSessionId := by
  intro e
  have hu := h.alloc hk
  have hju := (h.used j).mp hj
  have hid := h.ids j hju
  have hm : maxSessions = 64 := rfl
  have hlt := k.isLt
  have hnext := h.next
  rw [e] at hid
  omega

theorem candidate_iff {i : Nat} (hi : i ∈ c.signers) : candidate c i = true ↔ Candidate c i := by
  unfold candidate isBlacklisted
  rw [Bool.and_eq_true, Bool.and_eq_true, Bool.not_eq_true', decide_eq_true_eq,
    decide_eq_false_iff_not,
    decide_eq_true_eq, List.length_pos_iff]
  exact ⟨fun ⟨⟨h1, h2⟩, h3⟩ => ⟨hi, h2, h1, h3⟩, fun h => ⟨⟨h.phase, h.allowed⟩, h.commit⟩⟩

/-- Whoever is chosen is a candidate, and the reliable come first. -/
theorem mem_inOrder_take {i : Nat} (h : i ∈ (inOrder c).take c.t) : Candidate c i ∧
    (0 < getStrikes c i → ∀ j, Candidate c j → getStrikes c j = 0 → j ∈ (inOrder c).take c.t) := by
  unfold inOrder at h ⊢
  have hcand : Candidate c i := by
    rcases List.mem_append.mp (List.mem_of_mem_take h) with h' | h'
    all_goals
      obtain ⟨hi, hp⟩ := List.mem_filter.mp h'
      rw [Bool.and_eq_true] at hp
      exact (candidate_iff hi).mp hp.1
  refine ⟨hcand, fun hs j hj h0 => ?_⟩
  have hj' : j ∈ c.signers.filter fun id => candidate c id && getStrikes c id = 0 := by
    refine List.mem_filter.mpr ⟨hj.registered, ?_⟩
    rw [Bool.and_eq_true, decide_eq_true_eq]
    exact ⟨(candidate_iff hj.registered).mpr hj, h0⟩
  -- one of the second pass is taken, so the first pass is taken whole
  rw [List.take_append] at h ⊢
  rcases List.mem_append.mp h with h' | h'
  · have hp := (List.mem_filter.mp (List.mem_of_mem_take h')).2
    rw [Bool.and_eq_true, decide_eq_true_eq] at hp
    omega
  · refine List.mem_append_left _ ?_
    rw [List.take_of_length_le]
    · exact hj'
    · by_contra hlt
      rw [show c.t - _ = 0 by omega, List.take_zero] at h'
      cases h'

theorem Signing.form (h : Signing c) {spkg wire : Bytes} (hf : Forms c env k spkg wire) :
    Formed c env k (chooseSigners c) (openSession c k (chooseSigners c) spkg wire env.now) := by
  have hnd := chooseSigners_nodup c h.table.ids.distinct
  have hin := chooseSigners_eq h.table.ids.distinct h.suspect
  obtain ⟨b, hb, hs, hw⟩ := hf.bundle
  have hbundle : b = bundleOf c (chooseSigners c) := (buildBundle_some hb).2
  have hwire : wire = b.encode := by
    have hwf := h.table.bundle_wf hb
    have := packCommitBundle_of_le hwf hwf.length_encode_le
    rw [hw] at this
    exact Option.some.inj this
  have hses := openSession_sessions c k (chooseSigners c) spkg wire env.now
  have htab := (Signing.link (Link.form (S := .all) trivial hf) h).table
  obtain ⟨u, hu⟩ := h.table.slots
  have hslot := (roastAlloc_some hf.slot).1
  refine ⟨hslot, ⟨spkg, hbundle ▸ hs, hses.1⟩, fun j hj => hu.fresh hf.slot hj, ?_,
    Nat.le_antisymm (chooseSigners_length_le c) hf.enough, hnd, fun i hi => ?_, fun i hi => ?_, fun i => ?_,
    hses.2, ?_⟩
  · have hopen : ((openSession c k (chooseSigners c) spkg wire env.now).sessions k).state =
        .awaitingShares := by
      rw [hses.1]
      rfl
    have hfind := htab.find hopen
    rw [hses.1] at hfind
    exact hfind
  · rw [hin] at hi
    exact (mem_inOrder_take hi).1
  · rw [hin] at hi ⊢
    exact (mem_inOrder_take hi).2
  · rw [openSession_sg hnd, hwire, hbundle]
    rfl
  · obtain ⟨_, e⟩ := openSession_sgOnly c k (chooseSigners c) spkg wire env.now
    rw [e]
    rfl

/-! ## Every attempt -/

/-- **All or nothing.** Wherever in a run of sign mode a session may be formed, after an
event or within one, the attempt either succeeds and forms it as it should be, or leaves
everything as it was. -/
theorem session_all_or_nothing {c₀ : Coord} (h0 : Started c₀) (hm : c₀.mode = .sign)
    (es : List Event)
    (d : Coord) (hd : d = run step c₀ es ∨ ∃ e env, (d, env) ∈ attempts (run step c₀ es) e)
    (env : Env) :
    ((formSession d env).2 = true → ∃ k ids, Formed d env k ids (formSession d env).1) ∧
      ((formSession d env).2 = false → (formSession d env).1 = d) := by
  have hrun : Signing (run step c₀ es) :=
    run_invariant (I := Signing) (fun _ e h => h.step e) (h0.signing hm)
  have hsign : Signing d := by
    rcases hd with rfl | ⟨e, env', ha⟩
    · exact hrun
    · exact hrun.attempt ha
  rcases formSession_cases d env with e | ⟨k, spkg, wire, hf, e⟩
  · rw [e]
    exact ⟨nofun, fun _ => rfl⟩
  · rw [e]
    exact ⟨fun _ => ⟨k, _, hsign.form hf⟩, nofun⟩

/-- A commitment that is taken is followed by an attempt. -/
theorem attempts_commit {i : Nat} {f : Frame} (hx : c.exited = false) (hi : i ∈ c.signers)
    (hf : f.type = .commit) (ht : TakesCommit c i f) :
    (storeCommit c i f, env) ∈ attempts c (.frame i f env) := by
  unfold attempts
  rw [hx, if_neg Bool.false_ne_true]
  dsimp only
  rw [if_neg (not_not.mpr hi), hf]
  dsimp only
  rw [if_pos ht]
  exact List.mem_singleton.mpr rfl

def lastCommit : Frame := ⟨.commit, List.replicate frameSigSize 0, [2]⟩

/-- The second of two commitments forms a session. -/
theorem session_all_or_nothing_run :
    let c := run step (signStart 2 2 1) (openingRun.take 3)
    ∃ k ids, Formed (storeCommit c 2 lastCommit) quietEnv k ids
      (formSession (storeCommit c 2 lastCommit) quietEnv).1 := by
  intro c
  have ha : (storeCommit c 2 lastCommit, quietEnv) ∈ attempts c (.frame 2 lastCommit quietEnv) :=
    attempts_commit (by decide +kernel) (by decide +kernel) rfl (by decide +kernel)
  exact (session_all_or_nothing (signStart_started (by decide) (by decide) (by decide)) rfl
    (openingRun.take 3) _ (.inr ⟨_, _, ha⟩) quietEnv).1 (by decide +kernel)

end FrostSshCa.Coordinator
