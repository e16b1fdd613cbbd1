import FrostSshCa.Coordinator.Warrant
import FrostSshCa.System.Misfiled

/-!
# Who consented to a certificate

`aggregate` reads as many share lines as the threshold says, and the shares it is given
are of distinct members of one bundle. Those of signers that follow the code were
computed by them from that bundle, which names the message the certificate is for: so
no certificate comes about without the consent of the threshold, but for the signers
that do not follow the code.
-/

namespace FrostSshCa.System

open Coordinator Signer Lib FrostSshCa.Core

variable {keys : Keys} {w : Given} {H : Nat → Prop}

/-! ## Enough shares -/

theorem entryLine_line (p : Nat × Bytes) : ∃ l, 10 ∉ l ∧ entryLine p.1 p.2 = l ++ [10] := by
  refine ⟨_, peerLine_unbroken p, ?_⟩
  unfold entryLine
  rw [← List.cons_append, List.append_assoc]

/-- **A signature means `t` shares**: that of a subprocess that has read its input. -/
theorem shares_enough {F : SigningFrost} {a : AggregateInput} {call : SigningCall F}
    (h : signingMain F (frostAggregate a) = some call) (ht : a.t < 65536) :
    a.t ≤ a.shares.length := by
  have hflag : requireU16 [coreBin, ascii "aggregate", ascii "--t", decimal a.t] (ascii "--t") =
      some a.t := by
    rw [requireU16_next (by decide), requireU16_next (by decide), requireU16_first ht]
  have hcmd : cmdAggregate F a.t (splitLines 10 (aggregateRequest a).text) = some call := by
    have h' : (requireU16 [coreBin, ascii "aggregate", ascii "--t", decimal a.t]
      (ascii "--t")).bind (fun t => cmdAggregate F t (splitLines 10 (aggregateRequest a).text)) =
        some call := h
    rwa [hflag, Option.bind_some] at h'
  have hlines : (splitLines 10 (aggregateRequest a).text).length ≤ a.shares.length + 2 := by
    have hline : ∀ l ∈ hexFile a.signingPkg :: hexFile a.pubKeyPkg ::
        a.shares.map fun p => entryLine p.1 p.2, ∃ l', 10 ∉ l' ∧ l = l' ++ [10] := by
      intro l hl
      rcases List.mem_cons.mp hl with rfl | hl
      · exact ⟨_, bytesToHex_unbroken _, rfl⟩
      rcases List.mem_cons.mp hl with rfl | hl
      · exact ⟨_, bytesToHex_unbroken _, rfl⟩
      obtain ⟨p, -, rfl⟩ := List.mem_map.mp hl
      exact entryLine_line p
    have hl := length_fillText_lines aggregateMax hline
    rw [List.length_cons, List.length_cons, List.length_map] at hl
    exact hl
  have := cmdAggregate_lines hcmd
  omega

/-! ## The runs -/

/-- In the run of `es` signer `h` computed `share` from the bundle `b`. -/
def Consents (keys : Keys) (s₀ : Sys) (es : List Event) (b : CommitBundle) (h : Nat)
    (share : Bytes) : Prop :=
  ∃ es₁ es₂, es = es₁ ++ es₂ ∧ Computed ((run (step keys) s₀ es₁).node h).log b share

/-- The signers of `H` follow the code, and the subprocesses of the coordinator answer
as they do. -/
structure Orderly (w : Given) (H : Nat → Prop) (s : Sys) (e : Event) : Prop where
  honest : ∀ h, H h → ¬ e.Forges h ∧ DrawsFresh h s e
  ids : NonzeroIds s.coord
  answered : ∀ ce, coordEvent s e = some ce → w.Event ce ∧ RestartsClean s.coord ce

/-- What is known along such a run. -/
structure Attested (w : Given) (H : Nat → Prop) (V : CommitBundle → Nat → Bytes → Prop)
    (p : Sys × History) : Prop where
  held : ∀ h, H h → Held h p.1.coord p.2 (p.1.node h) (p.1.down h)
  signing : Signing p.1.coord
  unclaimed : Unclaimed p.1.coord
  warranted : Warranted w V (p.1.coord, p.2)

theorem step_coord (s : Sys) (e : Event) :
    (step keys s e).coord = coordAfter s.coord (coordEvent s e) := by
  cases e with
  | loopHead env => rfl
  | expire now env => rfl
  | launch i n t =>
    unfold step
    dsimp only
    split <;> rfl
  | write i =>
    unfold step coordEvent
    dsimp only
    cases (s.coord.sg i).msgq with
    | nil => rfl
    | cons f fs =>
      dsimp only
      by_cases hg : (s.coord.exited || decide (i ∉ s.coord.signers)) = true
      · rw [if_pos hg]
        rcases Bool.or_eq_true_iff.mp hg with hx | hi
        · exact (coordAfter_exited hx _).symm
        · cases hx : s.coord.exited with
          | true => exact (coordAfter_exited hx _).symm
          | false =>
            show s.coord = Coordinator.step s.coord (.drain i)
            rw [step_drain hx, if_neg (by simpa using hi)]
      · rw [if_neg hg]
        rfl
  | deliver i env =>
    unfold step
    dsimp only
    cases s.down i with
    | nil => rfl
    | cons f fs =>
      dsimp only
      split <;> rfl
  | receive i hello env =>
    unfold step coordEvent
    dsimp only
    cases (s.node i).outq with
    | nil => rfl
    | cons f fs => exact (read_coord _ i f hello env).1
  | forge i f hello env => exact (read_coord s i f hello env).1
  | leave i => exact (drop_coord s i).1

theorem Attested.warrantedStep {V : CommitBundle → Nat → Bytes → Prop} {p : Sys × History}
    (ha : Attested w H V p) (keys : Keys) {e : Event} (ho : Orderly w H p.1 e)
    (hV : ∀ b h share, (H h → Computed (p.1.node h).log b share) → V b h share) :
    Signing (trace keys p e).1.coord ∧ Unclaimed (trace keys p e).1.coord ∧
      Warranted w V ((trace keys p e).1.coord, (trace keys p e).2) := by
  show Signing (step keys p.1 e).coord ∧ Unclaimed (step keys p.1 e).coord ∧
    Warranted w V ((step keys p.1 e).coord, note p.2 (opened p.1.coord (coordEvent p.1 e)))
  rw [step_coord]
  by_cases hx : p.1.coord.exited = true
  · rw [coordAfter_exited hx, opened_exited hx]
    exact ⟨ha.signing, ha.unclaimed, ha.warranted⟩
  cases hce : coordEvent p.1 e with
  | none => exact ⟨ha.signing, ha.unclaimed, ha.warranted⟩
  | some ce =>
    obtain ⟨hw, hr⟩ := ho.answered ce hce
    refine ⟨ha.signing.step ce, ha.unclaimed.step ha.signing ce,
      ha.warranted.step ha.signing ha.unclaimed hw hr ?_⟩
    rintro i f env k slot b rfl hf hi ht hb
    refine hV b i f.payload fun hi' => ?_
    -- the coordinator reads the frame from the signer itself
    obtain ⟨b', hb', hc⟩ := (ha.held i hi').attributed (ho.honest i hi').1 ho.ids k slot f.payload
      ⟨⟨f, env, hce, hf, ht.eq (ha.signing.table.members k ht.open').distinct, rfl⟩,
        by simpa using hx, hi⟩
    rw [show p.2 k = some b from hb] at hb'
    cases hb'
    exact hc

theorem Attested.step {V : CommitBundle → Nat → Bytes → Prop} {p : Sys × History}
    (ha : Attested w H V p) {e : Event} (ho : Orderly w H p.1 e)
    (hV : ∀ b h share, (H h → Computed (p.1.node h).log b share) → V b h share) :
    Attested w H V (trace keys p e) := by
  obtain ⟨h1, h2, h3⟩ := ha.warrantedStep keys ho hV
  exact ⟨fun h hh => (ha.held h hh).step (ho.honest h hh).1 (ho.honest h hh).2, h1, h2, h3⟩

/-- **Threshold consent.** Along every run of sign mode in which the signers of `H`
follow the code and draw new commitments, no open session has id 0, a restart gets
what it asks for, and `aggregate` gives a signature only after it has read its input:
behind every certificate stands a bundle over its TBS and at least `g_t` shares of
distinct members, and each share of a signer of `H` was computed by that signer from
that bundle. -/
theorem threshold_consent (keys : Keys) (w : Given) (F : SigningFrost) (H : Nat → Prop)
    {c₀ : Coord} (h₀ : Launched w c₀)
    (hread : ∀ a sig, w.aggregated a sig → ∃ call, signingMain F (frostAggregate a) = some call)
    {es : List Event} (hes : Along (step keys) (Orderly w H) (Sys.boot c₀) es) :
    let c := (run (step keys) (Sys.boot c₀) es).coord
    ∀ q ∈ c.certs, ∃ m stdin b,
      Evidence w (fun b h share => H h → Consents keys (Sys.boot c₀) es b h share) c.t q.2 m
        stdin b ∧ stdin.t ≤ stdin.shares.length := by
  obtain ⟨n, t, serial, secs, toMint, file, env, hn, ht, hs, hm, hf, -, e⟩ := h₀.started
  have hstarted : Started c₀ := .sign n t serial secs toMint file env hn ht hs hm hf e
  have htrace : Along (trace keys) (fun p e => Orderly w H p.1 e) (Sys.boot c₀, fun _ => none) es :=
    (along_map (trace_fst keys) (Sys.boot c₀, fun _ => none) es).mpr hes
  have hinv := htrace.positions.invariant
    (I := Attested w H fun b h share => H h → Consents keys (Sys.boot c₀) es b h share)
    (fun p e ha ⟨ho, pre, post, he, hp⟩ => ha.step ho fun b h share hc hh =>
      ⟨pre, e :: post, he, by
        rw [← run_map (trace_fst keys) (Sys.boot c₀, fun _ => none) pre, ← hp]
        exact hc hh⟩)
    ⟨fun h _ => boot_held hstarted h₀.signing.mode h, h₀.signing, h₀.unclaimed, h₀.warranted⟩
  intro c q hq
  have hrun : (run (trace keys) (Sys.boot c₀, fun _ => none) es).1.coord = c :=
    congrArg Sys.coord (run_map (trace_fst keys) (Sys.boot c₀, fun _ => none) es)
  obtain ⟨m, stdin, b, hev⟩ := hinv.warranted.certs q (hrun ▸ hq)
  dsimp only at hev
  rw [hrun] at hev
  refine ⟨m, stdin, b, hev, ?_⟩
  obtain ⟨call, hcall⟩ := hread _ _ hev.signature
  refine shares_enough hcall ?_
  rw [hev.threshold, ← hrun]
  exact hinv.warranted.small

/-! ## A certificate of two signers -/

/-- `aggregate` succeeds when its input can be read. -/
def readEnv : Coordinator.Env :=
  { pairEnv with aggregate := fun a =>
      if (signingMain plainSigning (frostAggregate a)).isSome then .sig (List.replicate 64 0)
      else .failed }

def consentGiven : Given where
  template := fun _ _ _ d _ => d = []
  caKey := fun key => key = Vector.replicate 32 0
  assembled := fun _ spkg => spkg = [1]
  aggregated := fun a _ => ∃ call, signingMain plainSigning (frostAggregate a) = some call
  minted := fun _ cert => cert = [1]
  sent := fun _ _ => True

theorem readEnv_given : consentGiven.Env readEnv := by
  refine ⟨fun _ _ h => (Option.some.inj h).symm, fun a sig h => ?_,
    fun _ _ h => (Option.some.inj h).symm⟩
  have h : (if (signingMain plainSigning (frostAggregate a)).isSome then
      AggregateResult.sig (List.replicate 64 0) else .failed) = .sig sig := h
  split at h
  · next hsome => exact Option.isSome_iff_exists.mp hsome
  · cases h

def reads (i : Nat) : Event := .receive i anyId readEnv

def enters (i : Nat) : List Event := [.launch i 2 2, reads i, .write i, .deliver i plainEnv]

def answers (i : Nat) : List Event := [.write i, .deliver i plainEnv]

/-- Both commit, both sign. -/
def consentRun : List Event :=
  (enters 1 ++ enters 2 ++ [.write 1]) ++ [.deliver 1 (draws 11)] ++ [.write 2] ++
    [.deliver 2 (draws 12)] ++ ([reads 1, reads 2] ++ answers 1 ++ answers 2 ++ [reads 1, reads 2])

theorem reads_answered {s : Sys} {i : Nat} {ce : Coordinator.Event}
    (h : coordEvent s (reads i) = some ce) : consentGiven.Event ce ∧ RestartsClean s.coord ce := by
  unfold reads coordEvent at h
  dsimp only at h
  split at h; · cases h
  unfold readEvent at h
  split at h
  · cases h
    exact ⟨consentGiven.disconnect i, trivial⟩
  split at h
  · cases h
    exact ⟨readEnv_given.frame fun _ => trivial, trivial⟩
  split at h
  · cases h
    exact ⟨consentGiven.hello _ _, trivial⟩
  · cases h

theorem consentRun_answered {s : Sys} {e : Event} (he : e ∈ consentRun) {ce : Coordinator.Event}
    (h : coordEvent s e = some ce) : consentGiven.Event ce ∧ RestartsClean s.coord ce := by
  cases e with
  | receive i hello env =>
    have hread : Event.receive i hello env = reads i := by
      simp only [consentRun, enters, answers, reads, List.mem_append, List.mem_cons,
        List.not_mem_nil, or_false, Event.receive.injEq, reduceCtorEq, false_or] at he ⊢
      tauto
    rw [hread] at h
    exact reads_answered h
  | write i =>
    unfold coordEvent at h
    dsimp only at h
    split at h
    · cases h
    · cases h
      exact ⟨consentGiven.drain i, trivial⟩
  | launch i n t => cases h
  | deliver i env => cases h
  | _ => simp [consentRun, enters, answers, reads] at he

theorem consentRun_follows : ∀ e ∈ consentRun, ∀ h, ¬ e.Forges h := by
  simp [consentRun, enters, answers, reads, Event.Forges]

/-- Signer `i` is not started again, and draws `x` for the first time. -/
theorem draws_alone {s : Sys} {i : Nat} {x : UInt8} (h : [x] ∉ generatedCommits (s.node i).log)
    (j : Nat) : DrawsFresh j s (.deliver i (draws x)) := by
  by_cases e : i = j
  · subst e
    exact draws_fresh h i
  · exact fun e' => absurd e' e

theorem quiet_fresh {e : Event} (he : e ∈ enters 1 ++ enters 2 ++ [.write 1] ++ [.write 2] ++
    ([reads 1, reads 2] ++ answers 1 ++ answers 2 ++ [reads 1, reads 2])) (s : Sys) (h : Nat) :
    DrawsFresh h s e := by
  simp only [enters, answers, reads, List.mem_append, List.mem_cons, List.not_mem_nil, or_false]
    at he
  rcases he with (((((rfl | rfl | rfl | rfl) | rfl | rfl | rfl | rfl) | rfl) | rfl) |
    ((((rfl | rfl) | rfl | rfl) | rfl | rfl) | rfl | rfl)) <;>
    simp [DrawsFresh, FreshCommits, plainEnv]

/-- Each draw of the run is new. -/
theorem consentRun_fresh : Along (step toyKeys) (fun s e => ∀ h, DrawsFresh h s e)
    (Sys.boot (signStart 2 2 1)) consentRun := by
  have hpart {l : List Event} (hl : ∀ e ∈ l, e ∈ enters 1 ++ enters 2 ++ [.write 1] ++ [.write 2] ++
      ([reads 1, reads 2] ++ answers 1 ++ answers 2 ++ [reads 1, reads 2])) (s : Sys) :
      Along (step toyKeys) (fun s e => ∀ h, DrawsFresh h s e) s l :=
    .of_mem fun e he s h => quiet_fresh (hl e he) s h
  refine (along_append _ _ _).mpr ⟨(along_append _ _ _).mpr ⟨(along_append _ _ _).mpr
    ⟨(along_append _ _ _).mpr ⟨?_, ⟨?_, trivial⟩⟩, ?_⟩, ⟨?_, trivial⟩⟩, ?_⟩
  · exact hpart (fun e he => List.mem_append_left _ (List.mem_append_left _ he)) _
  · exact draws_alone (by decide +kernel)
  · exact hpart (fun e he => List.mem_append_left _ (List.mem_append_right _ he)) _
  · exact draws_alone (by decide +kernel)
  · exact hpart (fun e he => List.mem_append_right _ he) _

theorem threshold_consent_run :
    let c := (run (step toyKeys) (Sys.boot (signStart 2 2 1)) consentRun).coord
    c.certs.length = 1 ∧ ∀ q ∈ c.certs, ∃ m stdin b, Evidence consentGiven (fun b h share =>
      (h = 1 ∨ h = 2) → Consents toyKeys (Sys.boot (signStart 2 2 1)) consentRun b h share)
        c.t q.2 m stdin b ∧ stdin.t ≤ stdin.shares.length := by
  have hids : Along (step toyKeys) (fun s _ => NonzeroIds s.coord) (Sys.boot (signStart 2 2 1))
      consentRun := by decide +kernel
  have hes : Along (step toyKeys) (Orderly consentGiven fun h => h = 1 ∨ h = 2)
      (Sys.boot (signStart 2 2 1)) consentRun := by
    refine ((consentRun_fresh.and hids).and (Along.of_mem (C := fun _ e => e ∈ consentRun)
      fun e he _ => he)).mono fun s e h => ⟨fun i _ => ⟨?_, h.1.1 i⟩, h.1.2, fun ce hce => ?_⟩
    · exact consentRun_follows e h.2 i
    · exact consentRun_answered h.2 hce
  have hw : consentGiven.Tbs sampleTbs :=
    ⟨fun _ _ _ _ _ h => (TbsResult.ok.inj h).1.symm, fun _ h => (Option.some.inj h).symm⟩
  exact ⟨by decide +kernel, threshold_consent toyKeys consentGiven plainSigning
    (fun h => h = 1 ∨ h = 2) (signStart_launched hw (by decide) (by decide) (by decide))
    (fun _ _ h => h) hes⟩

end FrostSshCa.System
