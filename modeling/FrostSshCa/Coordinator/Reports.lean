import FrostSshCa.Coordinator.Shares
import Mathlib.Data.Finset.Card

/-!
# Reports of the group public key

`PUB_KEY_PKG` and `REFRESH_COMPLETE` share one counter, and from the `g_n`-th
report on each report is acted upon. The counter counts frames: who sent them
and whether the packages agree is compared and printed, nothing more. So the
key is the agreed one when the reports that are counted come from different
signers and carry the same bytes.
-/

namespace FrostSshCa.Coordinator

open Lib

/-- One report: `confirms` for `REFRESH_COMPLETE`. -/
structure Report where
  confirms : Bool
  id : Nat
  pkg : Bytes
  deriving DecidableEq, Repr

/-- The report an event hands to `process_signer_frame`. -/
def reportOf (c : Coord) : Event → Option Report
  | .frame i f _ =>
    if c.exited ∨ i ∉ c.signers then none
    else match f.type with
      | .refreshComplete => some ⟨true, i, f.payload⟩
      | .pubKeyPkg => some ⟨false, i, f.payload⟩
      | _ => none
  | _ => none

/-- The coordinator together with the reports it has handled, oldest first. -/
structure Ledger where
  coord : Coord
  reports : List Report

def Ledger.step (s : Ledger) (e : Event) : Ledger :=
  ⟨Coordinator.step s.coord e, s.reports ++ (reportOf s.coord e).toList⟩

/-! ## What a report does -/

/-- The package a step stores and writes to `pub_key_pkg.hex`. -/
def pkgWritten (c : Coord) (e : Event) : Option Bytes :=
  match reportOf c e with
  | none => none
  | some r =>
    if c.refreshCompleteCount + 1 < c.n then none
    else if r.confirms then
      if c.pubKeyPkg.length = 0 ∧ 0 < r.pkg.length then some r.pkg else none
    else if r.pkg.length > maxPayload then none
    else some r.pkg

/-- The step broadcasts `REFRESH_CONFIRMED`. -/
def confirmsAll (c : Coord) (e : Event) : Bool :=
  match reportOf c e with
  | none => false
  | some r => r.confirms && decide (c.n ≤ c.refreshCompleteCount + 1)

variable {c : Coord}

theorem reportOf_frame {e : Event} {r : Report} (h : reportOf c e = some r) :
    ∃ f env, e = .frame r.id f env ∧ c.exited = false ∧ r.id ∈ c.signers ∧ r.pkg = f.payload ∧
      (r.confirms = true ∧ f.type = .refreshComplete ∨
        r.confirms = false ∧ f.type = .pubKeyPkg) := by
  cases e with
  | frame i f env =>
    unfold reportOf at h
    dsimp only at h
    split at h; · cases h
    next hg =>
    obtain ⟨hx, hi⟩ := not_or.mp hg
    rw [not_not] at hi
    split at h
    · next ht => cases h; exact ⟨f, env, rfl, by simpa using hx, hi, rfl, .inl ⟨rfl, ht⟩⟩
    · next ht => cases h; exact ⟨f, env, rfl, by simpa using hx, hi, rfl, .inr ⟨rfl, ht⟩⟩
    · cases h
  | _ => cases h

theorem isReport_iff (e : Event) : isReport c e = true ↔ (reportOf c e).isSome = true := by
  cases e with
  | frame i f env =>
    unfold isReport reportOf
    by_cases hx : c.exited = true <;> by_cases hi : i ∈ c.signers <;>
      cases ht : f.type <;> simp [hx, hi, ht, MsgType.reports]
  | _ => exact Iff.rfl

theorem step_of_refreshComplete {i : Nat} {f : Frame} {env : Env} (hx : c.exited = false)
    (hi : i ∈ c.signers) (ht : f.type = .refreshComplete) :
    step c (.frame i f env) = onRefreshComplete c env i f := by
  simp only [step, hx, hi, processSignerFrame, ht, if_true, Bool.false_eq_true, if_false]

theorem step_of_pubKeyPkg {i : Nat} {f : Frame} {env : Env} (hx : c.exited = false)
    (hi : i ∈ c.signers) (ht : f.type = .pubKeyPkg) :
    step c (.frame i f env) = onPubKeyPkg c env i f := by
  simp only [step, hx, hi, processSignerFrame, ht, if_true, Bool.false_eq_true, if_false]

theorem checkRefreshAllConfirmed_keyView (c : Coord) :
    keyView (checkRefreshAllConfirmed c) = keyView c := by
  unfold checkRefreshAllConfirmed
  split
  · rfl
  · exact (broadcast_sgOnly c .refreshConfirmed []).flowOnly.keyView

/-- The key, the file and the count once `w` says what was written. -/
def KeyAfter (c c' : Coord) (w : Option Bytes) : Prop :=
  c'.mode = c.mode ∧ c'.refreshCompleteCount = c.refreshCompleteCount + 1 ∧
    match w with
    | none => c'.pubKeyPkg = c.pubKeyPkg ∧ c'.pubPkgHex = c.pubPkgHex
    | some pkg => c'.pubKeyPkg = pkg ∧ (c'.pubPkgHex = some pkg ∨ c'.pubPkgHex = c.pubPkgHex)

theorem KeyAfter.congr {c' c'' : Coord} {w : Option Bytes} (h : KeyAfter c c' w)
    (e : keyView c'' = keyView c') : KeyAfter c c'' w := by
  simp only [keyView, Prod.mk.injEq] at e
  obtain ⟨h1, h2, h3, h4⟩ := e
  unfold KeyAfter
  rw [h1, h2, h3, h4]
  exact h

theorem fileReport_keyAfter (i : Nat) (f : Frame) : KeyAfter c (fileReport c i f) none :=
  ⟨rfl, rfl, rfl, rfl⟩

theorem storePubKeyPkg_keyAfter (env : Env) (i : Nat) (f : Frame) (pkg : Bytes) :
    KeyAfter c (storePubKeyPkg (fileReport c i f) env pkg) (some pkg) := by
  refine ⟨rfl, rfl, rfl, ?_⟩
  show (if env.pubPkgWritable then some pkg else c.pubPkgHex) = _ ∨
    (if env.pubPkgWritable then some pkg else c.pubPkgHex) = _
  split
  · exact .inl rfl
  · exact .inr rfl

theorem onRefreshComplete_keyAfter (env : Env) (i : Nat) (f : Frame) :
    KeyAfter c (onRefreshComplete c env i f) (if c.refreshCompleteCount + 1 < c.n then none
      else if c.pubKeyPkg.length = 0 ∧ 0 < f.payload.length then some f.payload else none) := by
  unfold onRefreshComplete
  dsimp only
  show KeyAfter c (if c.refreshCompleteCount + 1 < c.n then _ else _) _
  by_cases hlt : c.refreshCompleteCount + 1 < c.n
  · rw [if_pos hlt, if_pos hlt]
    exact fileReport_keyAfter i f
  rw [if_neg hlt, if_neg hlt]
  refine KeyAfter.congr ?_ (checkRefreshAllConfirmed_keyView _)
  show KeyAfter c (if c.pubKeyPkg.length = 0 ∧ 0 < f.payload.length then _ else _) _
  split
  · exact storePubKeyPkg_keyAfter env i f _
  · exact fileReport_keyAfter i f

theorem onPubKeyPkg_keyAfter (env : Env) (i : Nat) (f : Frame) :
    KeyAfter c (onPubKeyPkg c env i f) (if c.refreshCompleteCount + 1 < c.n then none
      else if f.payload.length > maxPayload then none else some f.payload) := by
  unfold onPubKeyPkg
  dsimp only
  show KeyAfter c (if c.refreshCompleteCount + 1 < c.n then _ else _) _
  split
  · exact fileReport_keyAfter i f
  split
  · exact fileReport_keyAfter i f
  · exact (storePubKeyPkg_keyAfter env i f f.payload).congr rfl

/-- **What a report does to the key**: it changes exactly where `pkgWritten`
says so, and the count goes up by one. -/
theorem step_report {e : Event} {r : Report} (h : reportOf c e = some r) :
    KeyAfter c (step c e) (pkgWritten c e) := by
  unfold pkgWritten
  rw [h]
  obtain ⟨f, env, rfl, hx, hi, hpkg, ⟨hc, ht⟩ | ⟨hc, ht⟩⟩ := reportOf_frame h
  · rw [step_of_refreshComplete hx hi ht]
    have := onRefreshComplete_keyAfter (c := c) env r.id f
    simpa only [hpkg, hc, if_true] using this
  · rw [step_of_pubKeyPkg hx hi ht]
    have := onPubKeyPkg_keyAfter (c := c) env r.id f
    simpa only [hpkg, hc, Bool.false_eq_true, if_false] using this

/-- Without a report nothing happens to the key. -/
theorem step_no_report {e : Event} (h : reportOf c e = none) :
    pkgWritten c e = none ∧ keyView (step c e) = keyView c := by
  refine ⟨by unfold pkgWritten; rw [h], step_keyView c e ?_⟩
  by_contra hr
  have := (isReport_iff e).mp (by simpa using hr)
  rw [h] at this
  cases this

/-! ## `REFRESH_CONFIRMED` -/

/-- The types other than `REFRESH_CONFIRMED`. -/
def Other (type : MsgType) : Prop := type ≠ .refreshConfirmed

theorem processSignerFrame_pushes_other (env : Env) (i : Nat) (f : Frame) (hm : c.mode ≠ .sign)
    (hr : f.type = .refreshComplete → c.refreshCompleteCount + 1 < c.n) :
    Pushes Other c (processSignerFrame c env i f) := by
  have hround : ∀ type ∈ roundTypes, Other type := fun type ht => by
    unfold Other
    rintro rfl
    exact absurd ht (by decide)
  by_cases hs : MsgType.signing f.type = false
  · by_cases hrep : MsgType.reports f.type = false
    · exact (processSignerFrame_round_appends hround env i f hs hrep).pushes
    unfold processSignerFrame
    cases e : f.type with
    | refreshComplete =>
      dsimp only
      unfold onRefreshComplete
      dsimp only
      rw [if_pos (by exact hr e)]
      exact (fileReport_appends i f).pushes
    | pubKeyPkg => exact (onPubKeyPkg_appends env i f).pushes
    | _ => rw [e] at hrep; exact absurd rfl hrep
  unfold processSignerFrame
  cases e : f.type with
  | shareLoadFail => exact Pushes.setSg_keep rfl
  | commit =>
    dsimp only
    unfold onCommit
    rw [if_pos hm]
    exact .refl c
  | sigShare =>
    dsimp only
    unfold onSigShare shareTarget
    rw [if_pos hm]
    exact .refl c
  | _ => rw [e] at hs; exact absurd rfl hs

theorem promote_pushes_other (pid : Nat) (hm : c.mode ≠ .sign) :
    Pushes Other (enroll c pid) (promote c pid) := by
  have hack : Other .helloAck := nofun
  unfold promote
  refine (signerSend_appends hack pid [] (ackText pid c.mode)).pushes.trans ?_
  unfold welcome
  split
  · exact (maybeStart_appends nofun _).pushes
  · exact (maybeStart_appends nofun _).pushes
  · next h => exact absurd h hm

/-- Outside sign mode only `confirmsAll` queues a `REFRESH_CONFIRMED`. -/
theorem step_pushes_other (e : Event) (hm : c.mode ≠ .sign) (h : confirmsAll c e = false) :
    Pushes Other c (step c e) := by
  unfold step
  split; · exact .refl c
  next hx =>
  have hexit (c : Coord) : Pushes Other c (exitIfQuiet c) := by
    unfold exitIfQuiet
    split
    · exact .of_sg_eq rfl
    · exact .refl c
  cases e with
  | loopHead env =>
    dsimp only
    unfold loopHead
    split; · exact hexit c
    rw [if_neg (by tauto)]
    split
    · exact hexit c
    · exact .refl c
  | expire now env =>
    dsimp only
    rw [if_neg (by tauto)]
    exact .refl c
  | hello env payload =>
    dsimp only
    rcases onHello_cases c env payload with e | ⟨pid, pn, pt, -, -, e | ⟨-, e, -⟩⟩
    · rw [e]; exact .refl c
    · rw [e]; exact .of_sg_eq rfl
    · rw [e]
      refine Pushes.trans ?_ (promote_pushes_other pid (by exact hm))
      intro j f hf
      by_cases ej : j = pid
      · subst ej
        simp [enroll, SignerRec.new] at hf
      · exact .inl (by simpa [enroll, Function.update_of_ne ej] using hf)
  | drain i =>
    dsimp only
    split
    · exact .setSg fun f hf => .inl (List.mem_of_mem_tail hf)
    · exact .refl c
  | disconnect i =>
    dsimp only
    split
    · exact .of_sg_eq rfl
    · exact .refl c
  | frame i f env =>
    dsimp only
    split
    · next hi =>
      refine processSignerFrame_pushes_other env i f hm fun ht => ?_
      have hrep : reportOf c (.frame i f env) = some ⟨true, i, f.payload⟩ := by
        unfold reportOf
        simp [hx, hi, ht]
      unfold confirmsAll at h
      rw [hrep] at h
      simpa using h
    · exact .refl c

/-! ## Agreement on the key -/

/-- `n` distinct signers have reported, each of them nothing but `pkg`. -/
def Agreed (n : Nat) (rs : List Report) (pkg : Bytes) : Prop :=
  ∃ S : Finset Nat, S.card = n ∧ (∀ i ∈ S, ∃ r ∈ rs, r.id = i) ∧ ∀ r ∈ rs, r.id ∈ S → r.pkg = pkg

/-- `n` distinct signers have sent `REFRESH_COMPLETE`. -/
def Confirmed (n : Nat) (rs : List Report) : Prop :=
  ∃ S : Finset Nat, S.card = n ∧ ∀ i ∈ S, ∃ r ∈ rs, r.id = i ∧ r.confirms = true

/-- The first `n` reports come from different signers, are `REFRESH_COMPLETE`s
in refresh mode, and all reports carry the same bytes. -/
structure Settled (mode : CoordMode) (n : Nat) (rs : List Report) : Prop where
  distinct : ((rs.take n).map Report.id).Nodup
  confirm : mode = .refresh → ∀ r ∈ rs.take n, r.confirms = true
  same : ∀ r ∈ rs, ∀ r' ∈ rs, r.pkg = r'.pkg

/-- When the step handles the `n`-th or a later report, the reports are settled. -/
def SettledAt (s : Ledger) (e : Event) : Prop :=
  ∀ r ∈ reportOf s.coord e, s.coord.n ≤ s.reports.length + 1 →
    Settled s.coord.mode s.coord.n (s.reports ++ [r])

theorem Settled.agreed {mode : CoordMode} {n : Nat} {rs : List Report} (h : Settled mode n rs)
    (hn : n ≤ rs.length) {r : Report} (hr : r ∈ rs) : Agreed n rs r.pkg := by
  refine ⟨((rs.take n).map Report.id).toFinset, ?_, fun i hi => ?_, fun r' hr' _ => ?_⟩
  · rw [List.toFinset_card_of_nodup h.distinct, List.length_map, List.length_take]
    omega
  · obtain ⟨r', hr', rfl⟩ := List.mem_map.mp (List.mem_toFinset.mp hi)
    exact ⟨r', List.mem_of_mem_take hr', rfl⟩
  · exact h.same r' hr' r hr

theorem Settled.confirmed {n : Nat} {rs : List Report} (h : Settled .refresh n rs)
    (hn : n ≤ rs.length) : Confirmed n rs := by
  refine ⟨((rs.take n).map Report.id).toFinset, ?_, fun i hi => ?_⟩
  · rw [List.toFinset_card_of_nodup h.distinct, List.length_map, List.length_take]
    omega
  · obtain ⟨r, hr, rfl⟩ := List.mem_map.mp (List.mem_toFinset.mp hi)
    exact ⟨r, List.mem_of_mem_take hr, rfl, h.confirm rfl r hr⟩

/-- Agreement needs `n` different senders. -/
theorem Agreed.card_le {n : Nat} {rs : List Report} {pkg : Bytes} (h : Agreed n rs pkg) :
    n ≤ (rs.map Report.id).toFinset.card := by
  obtain ⟨S, hS, hrep, -⟩ := h
  rw [← hS]
  refine Finset.card_le_card fun i hi => ?_
  obtain ⟨r, hr, rfl⟩ := hrep i hi
  exact List.mem_toFinset.mpr (List.mem_map_of_mem hr)

/-- The counter counts the reports. -/
def Counts (s : Ledger) : Prop := s.coord.refreshCompleteCount = s.reports.length

theorem step_counts {s : Ledger} (e : Event) (h : Counts s) : Counts (s.step e) := by
  unfold Counts Ledger.step at *
  cases hr : reportOf s.coord e with
  | none =>
    have := (step_no_report hr).2
    simp only [keyView, Prod.mk.injEq] at this
    simpa [this.2.2.2] using h
  | some r =>
    have := (step_report hr).2.1
    simp [this, h]

theorem pkgWritten_some {e : Event} {pkg : Bytes} (h : pkgWritten c e = some pkg) :
    ∃ r, reportOf c e = some r ∧ r.pkg = pkg ∧ c.n ≤ c.refreshCompleteCount + 1 := by
  unfold pkgWritten at h
  split at h; · cases h
  next r hr =>
  split at h; · cases h
  next hlt =>
  refine ⟨r, hr, ?_, by omega⟩
  split at h
  · split at h
    · exact Option.some.inj h
    · cases h
  · split at h
    · cases h
    · exact Option.some.inj h

theorem confirmsAll_true {e : Event} (h : confirmsAll c e = true) :
    ∃ r, reportOf c e = some r ∧ c.n ≤ c.refreshCompleteCount + 1 := by
  unfold confirmsAll at h
  split at h; · cases h
  next r hr =>
  rw [Bool.and_eq_true, decide_eq_true_eq] at h
  exact ⟨r, hr, h.2⟩

theorem started_counts (h : Started c) : Counts ⟨c, []⟩ := by
  cases h with
  | dkg => rfl
  | refresh => rfl
  | sign n t serial secs toMint file env _ _ _ _ _ hp =>
    obtain ⟨d, tbs, hex, e | e⟩ :=
      prepareTbs_cases (Coord.boot .sign n t serial secs toMint file (some file)) env <;>
      · rw [hp] at e
        show c.refreshCompleteCount = 0
        rw [show c = _ from e]
        rfl

/-- **Agreement on the key.** Along every run in which the `n`-th and later
reports find the reports settled, a step sets `g_pub_key_pkg` and writes `pub_key_pkg.hex`,
if it can be opened, only with the package `n` distinct signers have reported, and broadcasts
`REFRESH_CONFIRMED` in refresh mode only when `n` distinct signers have reported
`REFRESH_COMPLETE`. -/
theorem key_agreement {c₀ : Coord} (h0 : Started c₀) (hm : c₀.mode ≠ .sign) {es : List Event}
    {e : Event} (hes : Along Ledger.step SettledAt ⟨c₀, []⟩ (es ++ [e])) :
    let s := run Ledger.step ⟨c₀, []⟩ es
    let s' := s.step e
    (∀ pkg, pkgWritten s.coord e = some pkg → Agreed s.coord.n s'.reports pkg ∧
      s'.coord.pubKeyPkg = pkg ∧
      (s'.coord.pubPkgHex = some pkg ∨ s'.coord.pubPkgHex = s.coord.pubPkgHex)) ∧
      (pkgWritten s.coord e = none →
        s'.coord.pubKeyPkg = s.coord.pubKeyPkg ∧ s'.coord.pubPkgHex = s.coord.pubPkgHex) ∧
      (s.coord.mode = .refresh → confirmsAll s.coord e = true →
        Confirmed s.coord.n s'.reports) ∧
      (confirmsAll s.coord e = false → Pushes Other s.coord s'.coord) := by
  obtain ⟨-, hlast⟩ := (along_concat _ es e).mp hes
  have hcount : Counts (run Ledger.step ⟨c₀, []⟩ es) :=
    run_invariant (fun s e h => step_counts e h) (started_counts h0)
  have hmode : (run Ledger.step ⟨c₀, []⟩ es).coord.mode ≠ .sign := by
    refine run_invariant (I := fun s : Ledger => s.coord.mode ≠ .sign) (fun s e h => ?_) hm
    show (step s.coord e).mode ≠ .sign
    cases hr : reportOf s.coord e with
    | none =>
      have := (step_no_report hr).2
      simp only [keyView, Prod.mk.injEq] at this
      rw [this.1]; exact h
    | some r => rw [(step_report hr).1]; exact h
  generalize run Ledger.step ⟨c₀, []⟩ es = s at hlast hcount hmode
  unfold Counts at hcount
  have hreports {r : Report} (hr : reportOf s.coord e = some r) :
      (s.step e).reports = s.reports ++ [r] := by
    unfold Ledger.step; rw [hr]; rfl
  have hlen (r : Report) : (s.reports ++ [r]).length = s.reports.length + 1 := by simp
  refine ⟨fun pkg hw => ?_, fun hw => ?_, fun href hc => ?_, fun hc => ?_⟩
  · obtain ⟨r, hr, rfl, hn⟩ := pkgWritten_some hw
    rw [hcount] at hn
    have hafter := step_report hr
    rw [hw] at hafter
    rw [hreports hr]
    exact ⟨(hlast r hr hn).agreed (by rw [hlen]; exact hn) (by simp), hafter.2.2⟩
  · cases hr : reportOf s.coord e with
    | none =>
      have := (step_no_report hr).2
      simp only [keyView, Prod.mk.injEq] at this
      exact ⟨this.2.1, this.2.2.1⟩
    | some r =>
      have := step_report hr
      rw [hw] at this
      exact this.2.2
  · obtain ⟨r, hr, hn⟩ := confirmsAll_true hc
    rw [hcount] at hn
    rw [hreports hr]
    have hs := hlast r hr hn
    rw [href] at hs
    exact hs.confirmed (by rw [hlen]; exact hn)
  · exact step_pushes_other e hmode hc

/-! ## Runs -/

def dkgStart (n t : Nat) : Coord := Coord.boot .dkg n t 1 86400 1 [] none

def refreshStart (n t : Nat) : Coord := Coord.boot .refresh n t 1 86400 1 [] (some [1])

/-- Two signers register and the first one reports. -/
def firstReport (type : MsgType) : List Event :=
  [joins 1 2 2, joins 2 2 2, sends 1 type [7]]

theorem dkgStart_started : Started (dkgStart 2 2) :=
  .dkg 2 2 1 86400 1 none (by decide) (by decide) (by decide) (by decide)

theorem refreshStart_started : Started (refreshStart 2 2) :=
  .refresh 2 2 1 86400 1 [1] (by decide) (by decide) (by decide) (by decide)

/-- Signer 1 reports twice and its package becomes the key; reports that differ
are found to differ and the last one becomes the key; one signer confirms a
refresh for both. -/
theorem one_signer_sets_key :
    let s := run Ledger.step ⟨dkgStart 2 2, []⟩ (firstReport .pubKeyPkg)
    let s' := s.step (sends 1 .pubKeyPkg [7])
    let d := run Ledger.step ⟨refreshStart 2 2, []⟩ (firstReport .refreshComplete)
    let d' := d.step (sends 1 .refreshComplete [7])
    (Started (dkgStart 2 2) ∧ s'.coord.pubPkgHex = some [7] ∧
      pkgWritten s.coord (sends 1 .pubKeyPkg [7]) = some [7] ∧ ¬ Agreed 2 s'.reports [7]) ∧
    (pubKeyMismatch (s.step (sends 2 .pubKeyPkg [8])).coord = some (.bytes 2 1) ∧
      (s.step (sends 2 .pubKeyPkg [8])).coord.pubPkgHex = some [8]) ∧
    (Started (refreshStart 2 2) ∧ d.coord.mode = .refresh ∧
      confirmsAll d.coord (sends 1 .refreshComplete [7]) = true ∧ ¬ Confirmed 2 d'.reports) := by
  refine ⟨⟨dkgStart_started, by decide +kernel, by decide +kernel, fun h => ?_⟩,
    ⟨by decide +kernel, by decide +kernel⟩,
    refreshStart_started, by decide +kernel, by decide +kernel, fun ⟨S, hS, h⟩ => ?_⟩
  · exact absurd h.card_le (by decide +kernel)
  · have hsub : S ⊆ {1} := fun i hi => by
      obtain ⟨r, hr, rfl, -⟩ := h i hi
      have : ∀ r ∈ (run Ledger.step ⟨refreshStart 2 2, []⟩
        (firstReport .refreshComplete ++ [sends 1 .refreshComplete [7]])).reports, r.id = 1 := by
        decide +kernel
      simpa using this r hr
    have := Finset.card_le_card hsub
    rw [hS] at this
    exact absurd this (by decide)

/-- Both signers report the same package, and both confirm the refresh of it. -/
theorem key_agreement_run :
    let s := run Ledger.step ⟨dkgStart 2 2, []⟩ (firstReport .pubKeyPkg)
    let s' := s.step (sends 2 .pubKeyPkg [7])
    let d := run Ledger.step ⟨refreshStart 2 2, []⟩ (firstReport .refreshComplete)
    let d' := d.step (sends 2 .refreshComplete [7])
    (Agreed 2 s'.reports [7] ∧ s'.coord.pubKeyPkg = [7]) ∧
      Agreed 2 d'.reports [7] ∧ d'.coord.pubKeyPkg = [7] ∧ Confirmed 2 d'.reports := by
  have hdkg : Along Ledger.step SettledAt ⟨dkgStart 2 2, []⟩
      (firstReport .pubKeyPkg ++ [sends 2 .pubKeyPkg [7]]) := by
    refine ⟨nofun, nofun, fun r hr hn => ?_, fun r hr hn => ?_, trivial⟩
    · exact absurd hn (by decide +kernel)
    · obtain rfl : (⟨false, 2, [7]⟩ : Report) = r := by
        have : reportOf (run Ledger.step ⟨dkgStart 2 2, []⟩ (firstReport .pubKeyPkg)).coord
          (sends 2 .pubKeyPkg [7]) = some ⟨false, 2, [7]⟩ := by decide +kernel
        exact Option.some.inj (this.symm.trans hr)
      exact ⟨by decide +kernel, by decide +kernel, by decide +kernel⟩
  have hrefresh : Along Ledger.step SettledAt ⟨refreshStart 2 2, []⟩
      (firstReport .refreshComplete ++ [sends 2 .refreshComplete [7]]) := by
    refine ⟨nofun, nofun, fun r hr hn => ?_, fun r hr hn => ?_, trivial⟩
    · exact absurd hn (by decide +kernel)
    · obtain rfl : (⟨true, 2, [7]⟩ : Report) = r := by
        have : reportOf (run Ledger.step ⟨refreshStart 2 2, []⟩
          (firstReport .refreshComplete)).coord (sends 2 .refreshComplete [7]) =
            some ⟨true, 2, [7]⟩ := by decide +kernel
        exact Option.some.inj (this.symm.trans hr)
      exact ⟨by decide +kernel, by decide +kernel, by decide +kernel⟩
  obtain ⟨hkey, -, -, -⟩ := key_agreement dkgStart_started (by decide) hdkg
  obtain ⟨hkey', -, hconfirm, -⟩ := key_agreement refreshStart_started (by decide) hrefresh
  obtain ⟨h1, h2, -⟩ := hkey [7] (by decide +kernel)
  obtain ⟨h1', h2', -⟩ := hkey' [7] (by decide +kernel)
  exact ⟨⟨h1, h2⟩, h1', h2', hconfirm (by decide +kernel) (by decide +kernel)⟩

end FrostSshCa.Coordinator
