import FrostSshCa.Coordinator.Abort
import FrostSshCa.Coordinator.Event

/-!
# The certificates written

Each certificate is to take one serial and one file. The restart advances both
when `g_signing_done` is set, whoever set it, and goes on with the old template
when `prepare_tbs` fails. `Accounted` says that only a written certificate sets the
flag and that each restart brings a template.
-/

namespace FrostSshCa.Coordinator

open Lib

variable {c c' : Coord}

/-! ## Paths -/

/-- `%lu` of a `uint64_t`: at most twenty digits. -/
def decimal64 (n : Nat) : Bytes := decimalAux 20 n

/-- The path `main` derives from a serial. -/
def certPath (k : Nat) : Bytes := ascii "./output/user_key-cert-" ++ decimal64 k ++ ascii ".pub"

/-- `g_output_file`, with the path the options gave. -/
def OutputFile.path (opt : Bytes) : OutputFile → Bytes
  | .option => opt
  | .serial k => certPath k

theorem decimal64_inj {a b : Nat} (ha : a < 2 ^ 64) (hb : b < 2 ^ 64)
    (h : decimal64 a = decimal64 b) : a = b := by
  have read {n : Nat} (hn : n < 2 ^ 64) : (scanDigits 0 (decimal64 n ++ [])).1 = n := by
    unfold decimal64
    rw [scanDigits_decimalAux [] 0 (by omega)]
    simp [scanDigits]
  have h1 := read ha
  rw [h, read hb] at h1
  exact h1.symm

theorem certPath_inj {a b : Nat} (ha : a < 2 ^ 64) (hb : b < 2 ^ 64)
    (h : certPath a = certPath b) : a = b := by
  unfold certPath at h
  exact decimal64_inj ha hb (List.append_cancel_left (List.append_cancel_right h))

/-! ## What a step writes -/

/-- The fields the accounting is about. -/
def ledgerView (c : Coord) : Nat × OutputFile × Bytes × Nat × List (OutputFile × Bytes) × Bool :=
  (c.serial, c.outputFile, c.dummyCert, c.toMint, c.certs, c.signingDone)

/-- The template line of the `tbs` command, if it came. -/
def TbsResult.cert : TbsResult → Option Bytes
  | .noTemplate => none
  | .template d | .badHex d _ | .ok d _ => some d

theorem prepareTbs_dummyCert (c : Coord) (env : TbsEnv) :
    (prepareTbs c env).1.dummyCert = (askTbs c env).cert.getD c.dummyCert := by
  unfold prepareTbs patchAndClear
  split <;> rename_i h <;> rw [h]
  · rfl
  · rfl
  · rfl
  · split
    · rfl
    split
    · rfl
    split <;> rfl

theorem prepareTbs_true_cert {env : TbsEnv} (h : (prepareTbs c env).2 = true) :
    ∃ d, (askTbs c env).cert = some d := by
  cases e : askTbs c env with
  | noTemplate => simp [prepareTbs, e] at h
  | template d => exact ⟨d, rfl⟩
  | badHex d p => exact ⟨d, rfl⟩
  | ok d tbs => exact ⟨d, rfl⟩

/-- The registered signers outside session `k` that can still sign reach `g_t`. -/
def EnoughOutside (c : Coord) (k : Fin maxSessions) : Prop :=
  c.t ≤ c.signers.countP fun id =>
    !decide (id ∈ (c.sessions k).signerIds) && !isBlacklisted c id && (c.sg id).signPhase ≠ .noKey

instance (c : Coord) (k : Fin maxSessions) : Decidable (EnoughOutside c k) :=
  inferInstanceAs (Decidable (_ ≤ _))

/-- A restart gets its template, `mint` succeeds on every signature, a failure
nobody is named for leaves enough signers, and no report of a ceremony ends the
signing. -/
def Accounted (c : Coord) : Event → Prop
  | .loopHead env => c.roastFail = false → c.signingDone = true → c.toMint > 0 →
      (askTbs (advanceSerial c) env).cert ≠ none
  | .frame i f env =>
    (c.signingDone = false → i ∈ c.signers → MsgType.reports f.type = true →
      (f.type = .pubKeyPkg → f.payload.length ≤ maxPayload) → c.refreshCompleteCount + 1 < c.n) ∧
    ∀ k stdin, aggregateCall c (.frame i f env) = some (k, stdin) →
      (∀ bytes, env.aggregate stdin = .sig bytes → bytes.length = 64 →
        (env.mint ⟨c.dummyCert, bytes, c.tbsHex, c.pubKeyPkg⟩).isSome = true) ∧
      (Unattributed (env.aggregate stdin) → EnoughOutside c k)
  | _ => True

/-- How a step moves the books. -/
inductive Books (c : Coord) : Event → Coord → Prop where
  | same {e : Event} {d : Coord} (h : ledgerView d = ledgerView c) : Books c e d
  | written {i : Nat} {f : Frame} {env : Env} {bytes cert : Bytes} {d : Coord}
      (hd : c.signingDone = false)
      (hmint : env.mint ⟨c.dummyCert, bytes, c.tbsHex, c.pubKeyPkg⟩ = some cert)
      (h : ledgerView d = (c.serial, c.outputFile, c.dummyCert,
        (c.toMint + (2 ^ 64 - 1)) % 2 ^ 64, c.certs ++ [(c.outputFile, cert)], true)) :
      Books c (.frame i f env) d
  | restarted {env : TbsEnv} {tmpl : Bytes} {d : Coord} (hd : c.signingDone = true)
      (hmint : c.toMint > 0) (htmpl : (askTbs (advanceSerial c) env).cert = some tmpl)
      (h : ledgerView d = ((c.serial + 1) % 2 ^ 64, .serial ((c.serial + 1) % 2 ^ 64), tmpl,
        c.toMint, c.certs, false)) : Books c (.loopHead env) d

theorem RecOnly.ledger (h : RecOnly c c') : ledgerView c' = ledgerView c := by
  obtain ⟨_, _, _, rfl⟩ := h
  rfl

theorem FlowOnly.ledger (h : FlowOnly c c') : ledgerView c' = ledgerView c := by
  obtain ⟨_, _, rfl⟩ := h
  rfl

theorem SgOnly.ledger (h : SgOnly c c') : ledgerView c' = ledgerView c := h.flowOnly.ledger

theorem tryForm_ledger (c : Coord) (env : Env) : ledgerView (tryForm c env) = ledgerView c := by
  rcases tryForm_cases c env with e | ⟨k, spkg, wire, -, e⟩
  · rw [e]
  · rw [e, (openSession_sgOnly c k (chooseSigners c) spkg wire env.now).ledger]
    rfl

theorem expireSlot_ledger (c : Coord) (now : Nat) (env : Env) (k : Fin maxSessions) :
    ledgerView (expireSlot c now env k) = ledgerView c := by
  unfold expireSlot
  split; · rfl
  split; · rfl
  rw [tryForm_ledger, (expireMembers_recOnly c k).ledger]
  rfl

theorem roastFailCulprit_ledger (c : Coord) (env : Env) (k : Fin maxSessions) (culprit : Nat) :
    ledgerView (roastFailCulprit c env k culprit) = ledgerView c := by
  show ledgerView (tryForm (culpritReset c k culprit) env) = _
  rw [tryForm_ledger, (culpritReset_recOnly c k culprit).ledger]
  rfl

/-- The fallback does not end the signing where enough are left outside. -/
theorem blacklistSession_ledger {k : Fin maxSessions} (hd : EnoughOutside c k) :
    ledgerView (blacklistSession c k) = ledgerView c := by
  have hrest : roastDoNoEligibleRemain (blacklistMembers c k) = false := by
    obtain ⟨_, _, _, e⟩ := blacklistMembers_recOnly c k
    have hs : (blacklistMembers c k).signers = c.signers := by rw [e]; rfl
    have ht : (blacklistMembers c k).t = c.t := by rw [e]; rfl
    have hle : c.t ≤ remainingSigners (blacklistMembers c k) := by
      refine hd.trans ?_
      unfold remainingSigners
      rw [hs]
      refine List.countP_mono_left fun id _ h => ?_
      simp only [Bool.and_eq_true, Bool.not_eq_true', decide_eq_true_eq,
        decide_eq_false_iff_not] at h ⊢
      obtain ⟨h1, h2⟩ := blacklistMembers_outside c h.1.1
      rw [h1, h2]
      exact ⟨h.1.2, h.2⟩
    unfold roastDoNoEligibleRemain
    rw [ht]
    simpa using hle
  unfold blacklistSession
  dsimp only
  rw [hrest, if_neg (by decide), (broadcastSignReq_sgOnly _).ledger,
    (blacklistMembers_recOnly c k).ledger]
  rfl

theorem aggregateOk_ledger {env : Env} {bytes cert : Bytes} (k : Fin maxSessions)
    (h : env.mint ⟨c.dummyCert, bytes, c.tbsHex, c.pubKeyPkg⟩ = some cert) :
    ledgerView (aggregateOk c env k bytes) = (c.serial, c.outputFile, c.dummyCert,
      (c.toMint + (2 ^ 64 - 1)) % 2 ^ 64, c.certs ++ [(c.outputFile, cert)], true) := by
  have hcall : callMint (finishSession c k) env bytes =
      some (countCert (finishSession c k) cert) := congrArg _ h
  unfold aggregateOk
  rw [hcall]
  exact (broadcast_sgOnly ..).ledger

theorem onAggregate_books {i : Nat} {f : Frame} {env : Env} {k : Fin maxSessions} {slot : Nat}
    (hd : c.signingDone = false) (r : AggregateResult)
    (hmint : ∀ bytes, r = .sig bytes → bytes.length = 64 →
      (env.mint ⟨c.dummyCert, bytes, c.tbsHex, c.pubKeyPkg⟩).isSome = true)
    (hrest : Unattributed r → EnoughOutside c k)
    (hslot : (c.sessions k).signerIds[slot]? = some i) :
    Books c (.frame i f env) (onAggregate (fileShare c k slot i f.payload) env k r) := by
  have hfile : ledgerView (fileShare c k slot i f.payload) = ledgerView c := rfl
  -- the sender is a member, and nobody else's record has changed
  have hout (h : EnoughOutside c k) : EnoughOutside (fileShare c k slot i f.payload) k := by
    refine (show c.t ≤ _ from h).trans (List.countP_mono_left fun id _ hid => ?_)
    simp only [Bool.and_eq_true, Bool.not_eq_true', decide_eq_true_eq,
      decide_eq_false_iff_not] at hid ⊢
    have hne : id ≠ i := fun e => hid.1.1 (e ▸ List.mem_of_getElem? hslot)
    have hsg : (fileShare c k slot i f.payload).sg id = c.sg id := Coord.setSg_of_ne hne _
    rw [hsg, fileShare_session]
    exact hid
  cases r with
  | notRun => exact .same rfl
  | sig bytes =>
    dsimp only [onAggregate]
    split
    · next hlen => exact .same ((blacklistSession_ledger (hout (hrest hlen))).trans hfile)
    · next hlen =>
      have hlen : bytes.length = 64 := not_not.mp hlen
      obtain ⟨cert, hcert⟩ := Option.isSome_iff_exists.mp (hmint bytes rfl hlen)
      exact .written hd hcert (aggregateOk_ledger k hcert)
  | culprit id =>
    dsimp only [onAggregate]
    split
    · exact .same ((roastFailCulprit_ledger ..).trans hfile)
    · next hid => exact .same ((blacklistSession_ledger (hout (hrest hid))).trans hfile)
  | failed => exact .same ((blacklistSession_ledger (hout (hrest trivial))).trans hfile)

/-- The report frames, where they do not end the signing. -/
theorem report_ledger {env : Env} {i : Nat} {f : Frame} (hr : MsgType.reports f.type = true)
    (h : c.signingDone = false → (f.type = .pubKeyPkg → f.payload.length ≤ maxPayload) →
      c.refreshCompleteCount + 1 < c.n) :
    ledgerView (processSignerFrame c env i f) = ledgerView c := by
  have hfile : ledgerView (fileReport c i f) = ledgerView c := rfl
  have done (d : Coord) (hd : ledgerView d = ledgerView c) (hc : c.signingDone = true) :
      ledgerView { d with signingDone := true } = ledgerView c := by
    have hdone : d.signingDone = true := (congrArg (·.2.2.2.2.2) hd).trans hc
    refine Eq.trans ?_ hd
    unfold ledgerView
    rw [hdone]
  unfold processSignerFrame
  cases e : f.type with
  | refreshComplete =>
    dsimp only
    unfold onRefreshComplete
    dsimp only
    split
    · exact hfile
    next hn =>
    have hc : c.signingDone = true := by
      cases hd : c.signingDone with
      | true => rfl
      | false => exact absurd (h hd fun h' => by rw [e] at h'; cases h') hn
    have hall (d : Coord) (hd : ledgerView d = ledgerView c) :
        ledgerView (checkRefreshAllConfirmed d) = ledgerView c := by
      unfold checkRefreshAllConfirmed
      split
      · exact hd
      · exact done _ ((broadcast_sgOnly ..).ledger.trans hd) hc
    refine hall _ ?_
    split <;> exact hfile
  | pubKeyPkg =>
    dsimp only
    unfold onPubKeyPkg
    dsimp only
    split
    · exact hfile
    next hn =>
    split
    · exact hfile
    next hlen =>
    have hc : c.signingDone = true := by
      cases hd : c.signingDone with
      | true => rfl
      | false => exact absurd (h hd fun _ => by omega) hn
    exact done (storePubKeyPkg (fileReport c i f) env f.payload) rfl hc
  | _ => simp [e, MsgType.reports] at hr

/-- **One event**: the books stay, one certificate is entered, or the next is begun. -/
theorem step_books (e : Event) (h : Accounted c e) : Books c e (step c e) := by
  cases hx : c.exited with
  | true =>
    rw [step_exited hx]
    exact .same rfl
  | false =>
    have hexit : ledgerView (exitIfQuiet c) = ledgerView c := by
      unfold exitIfQuiet
      split <;> rfl
    cases e with
    | loopHead env =>
      rw [step_loopHead hx]
      unfold loopHead
      split; · exact .same hexit
      next hf =>
      split
      · next hdone =>
        split
        · next hmint =>
          obtain ⟨d, hd⟩ := Option.ne_none_iff_exists'.mp (h (by simpa using hf) hdone.1 hmint)
          refine .restarted hdone.1 hmint hd ?_
          unfold nextMint
          rw [(broadcastSignReq_sgOnly _).ledger]
          have hdummy := prepareTbs_dummyCert (advanceSerial c) env
          rw [hd] at hdummy
          obtain ⟨d', tbs, hex, e | e⟩ := prepareTbs_cases (advanceSerial c) env <;>
          · rw [e] at hdummy ⊢
            obtain rfl : d' = d := hdummy
            rfl
        · exact .same hexit
      split
      · exact .same hexit
      · exact .same rfl
    | expire now env =>
      rw [step_expire hx]
      split
      · exact .same (foldl_frame ledgerView (fun d k _ => expireSlot_ledger d now (env k) k) c)
      · exact .same rfl
    | hello env payload =>
      rw [step_hello hx]
      rcases onHello_taken c env payload with e | ⟨pid, pn, pt, -, -, e | ⟨-, e⟩⟩
      · rw [e]; exact .same rfl
      · rw [e]; exact .same rfl
      · rw [e]; exact .same (promote_flowOnly _ pid).ledger
    | drain i =>
      rw [step_drain hx]
      split <;> exact .same rfl
    | disconnect i =>
      rw [step_disconnect hx]
      split <;> exact .same rfl
    | frame i f env =>
      by_cases hi : i ∈ c.signers
      · have hstep : step c (.frame i f env) = processSignerFrame c env i f :=
          step_frame_of_mem hx hi f env
        by_cases hs : MsgType.signing f.type = true
        · cases e : f.type with
          | commit =>
            rw [hstep]
            unfold processSignerFrame
            rw [e]
            dsimp only
            rcases onCommit_cases c env i f with e' | ⟨-, e'⟩
            · rw [e']; exact .same rfl
            · rw [e']; exact .same (tryForm_ledger ..)
          | sigShare =>
            have hcases := @step_sigShare_cases c i f env hx hi e
            rcases hcases with e' | ⟨k, slot, ht, e' | ⟨stdin, hcall, e'⟩⟩
            · rw [e']; exact .same rfl
            · rw [e']; exact .same rfl
            · obtain ⟨_, _, _, _, heq, hat, -⟩ := aggregateCall_some hcall
              cases heq
              obtain ⟨h1, h2⟩ := h.2 k stdin hcall
              rw [e']
              exact onAggregate_books hat.notDone _ h1 h2 ht.slot
          | shareLoadFail =>
            rw [hstep]
            unfold processSignerFrame
            rw [e]
            exact .same rfl
          | _ => rw [e] at hs; cases hs
        · by_cases hr : MsgType.reports f.type = true
          · rw [hstep]
            exact .same (report_ledger hr fun hd hlen => h.1 hd hi hr hlen)
          · rw [hstep]
            exact .same (processSignerFrame_flowOnly c env i f (by simpa using hs)
              (by simpa using hr)).ledger
      · simp only [step, hx, hi, if_false, Bool.false_eq_true]
        exact .same rfl

/-! ## Along a run -/

/-- `tbs` puts the serial it is given into its template. -/
def TbsEnv.Echoes (serialOf : Bytes → Nat) (env : TbsEnv) : Prop :=
  ∀ k < 2 ^ 64, ∀ va vb d, (env.callTbs k va vb).cert = some d → serialOf d = k

/-- And `mint` writes a certificate with the serial of the template. -/
def KeepsSerial (serialOf : Bytes → Nat) : Event → Prop
  | .loopHead env => env.Echoes serialOf
  | .frame _ _ env => ∀ i cert, env.mint i = some cert → serialOf cert = serialOf i.dummyCert
  | _ => True

/-- The file of certificate `j`, counted from 0. -/
def fileOf (s j : Nat) : OutputFile := if j = 0 then .option else .serial (s + j)

/-- The books of a run begun with serial `s` and `m` certificates to mint. -/
structure Entered (serialOf : Bytes → Nat) (s m : Nat) (c : Coord) : Prop where
  written : ∀ j p, c.certs[j]? = some p → p.1 = fileOf s j ∧ serialOf p.2 = s + j
  left : c.toMint + c.certs.length = m
  current : ∃ r < m, c.certs.length = (if c.signingDone = true then r + 1 else r) ∧
    c.serial = s + r ∧ c.outputFile = fileOf s r ∧ serialOf c.dummyCert = s + r

variable {serialOf : Bytes → Nat} {s m : Nat} {d : Coord}

theorem Entered.same (h : Entered serialOf s m c) (e : ledgerView d = ledgerView c) :
    Entered serialOf s m d := by
  simp only [ledgerView, Prod.mk.injEq] at e
  obtain ⟨e1, e2, e3, e4, e5, e6⟩ := e
  refine ⟨by rw [e5]; exact h.written, by rw [e4, e5]; exact h.left, ?_⟩
  rw [e1, e2, e3, e5, e6]
  exact h.current

/-- A certificate takes the serial and the file in hand. -/
theorem Entered.enter (h : Entered serialOf s m c) (hm : m < 2 ^ 64) {cert : Bytes}
    (hd : c.signingDone = false) (hcert : serialOf cert = serialOf c.dummyCert)
    (e : ledgerView d = (c.serial, c.outputFile, c.dummyCert, (c.toMint + (2 ^ 64 - 1)) % 2 ^ 64,
      c.certs ++ [(c.outputFile, cert)], true)) : Entered serialOf s m d := by
  simp only [ledgerView, Prod.mk.injEq] at e
  obtain ⟨e1, e2, e3, e4, e5, e6⟩ := e
  obtain ⟨r, hr, hlen, hserial, hfile, hdummy⟩ := h.current
  rw [hd, if_neg (by decide)] at hlen
  have hleft := h.left
  refine ⟨fun j p hp => ?_, ?_, r, hr, ?_, ?_, ?_, ?_⟩
  · rw [e5] at hp
    by_cases hj : j < c.certs.length
    · rw [List.getElem?_append_left hj] at hp
      exact h.written j p hp
    · obtain ⟨hj', hp'⟩ := List.getElem?_eq_some_iff.mp hp
      have hjr : j = c.certs.length := by
        rw [List.length_append, List.length_singleton] at hj'
        omega
      subst hjr
      rw [List.getElem_concat_length rfl] at hp'
      rw [← hp', hlen]
      exact ⟨hfile, hcert.trans hdummy⟩
  · rw [e4, e5, List.length_append, List.length_singleton]
    omega
  · rw [e5, e6, if_pos rfl, List.length_append, List.length_singleton, hlen]
  · rw [e1, hserial]
  · rw [e2, hfile]
  · rw [e3, hdummy]

/-- A restart takes the next serial, where one is left. -/
theorem Entered.restart (h : Entered serialOf s m c) (hs : s + m < 2 ^ 64) {tmpl : Bytes}
    (hd : c.signingDone = true) (hmint : c.toMint > 0)
    (htmpl : serialOf tmpl = (c.serial + 1) % 2 ^ 64)
    (e : ledgerView d = ((c.serial + 1) % 2 ^ 64, .serial ((c.serial + 1) % 2 ^ 64), tmpl,
      c.toMint, c.certs, false)) : Entered serialOf s m d := by
  simp only [ledgerView, Prod.mk.injEq] at e
  obtain ⟨e1, e2, e3, e4, e5, e6⟩ := e
  obtain ⟨r, hr, hlen, hserial, -, -⟩ := h.current
  rw [hd, if_pos rfl] at hlen
  have hleft := h.left
  have hnext : (c.serial + 1) % 2 ^ 64 = s + (r + 1) := by
    rw [hserial, Nat.mod_eq_of_lt (by omega)]
    omega
  rw [hnext] at e1 e2 htmpl
  refine ⟨by rw [e5]; exact h.written, by rw [e4, e5]; exact hleft, r + 1, by omega, ?_, e1, ?_, ?_⟩
  · rw [e5, e6, if_neg (by decide), hlen]
  · rw [e2, fileOf, if_neg (by omega)]
  · rw [e3, htmpl]

/-- **One step** keeps the books. -/
theorem Entered.step (h : Entered serialOf s m c) (hs : s + m < 2 ^ 64) {e : Event}
    (hC : Accounted c e ∧ KeepsSerial serialOf e) :
    Entered serialOf s m (Coordinator.step c e) := by
  obtain ⟨hacc, hkeep⟩ := hC
  generalize hd : Coordinator.step c e = d
  have hb := step_books e hacc
  rw [hd] at hb
  cases hb with
  | same e' => exact h.same e'
  | written hdone hmint e' => exact h.enter (by omega) hdone (hkeep _ _ hmint) e'
  | restarted hdone hleft htmpl e' =>
    exact h.restart hs hdone hleft (hkeep _ (Nat.mod_lt _ (by decide)) _ _ _ htmpl) e'

theorem Entered.start {n t secs : Nat} {file : Bytes} {env : TbsEnv}
    (h : prepareTbs (Coord.boot .sign n t s secs m file (some file)) env = (c, true)) (hm : 1 ≤ m)
    (hs : s + m < 2 ^ 64) (hkeep : env.Echoes serialOf) : Entered serialOf s m c := by
  have hview : ledgerView c = (s, .option,
      (askTbs (Coord.boot .sign n t s secs m file (some file)) env).cert.getD [], m, [], false) := by
    have hdummy := prepareTbs_dummyCert (Coord.boot .sign n t s secs m file (some file)) env
    rw [h] at hdummy
    obtain ⟨d, tbs, hex, e | e⟩ := prepareTbs_cases
      (Coord.boot .sign n t s secs m file (some file)) env <;>
    · rw [h] at e
      obtain rfl : c = _ := e
      exact congrArg (fun d => (s, OutputFile.option, d, m, [], false)) hdummy
  have hd : serialOf
      ((askTbs (Coord.boot .sign n t s secs m file (some file)) env).cert.getD []) = s := by
    obtain ⟨d, hd⟩ := prepareTbs_true_cert (congrArg Prod.snd h)
    rw [hd]
    exact hkeep s (by omega) _ _ d hd
  simp only [ledgerView, Prod.mk.injEq] at hview
  obtain ⟨e1, e2, e3, e4, e5, e6⟩ := hview
  refine ⟨fun j p hp => ?_, by rw [e4, e5]; rfl, 0, hm, by rw [e5, e6]; rfl, e1, e2, ?_⟩
  · rw [e5] at hp
    cases hp
  · rw [e3]
    exact hd

/-- No two entries share a serial. -/
theorem Entered.serials_nodup (h : Entered serialOf s m c) :
    (c.certs.map fun p => serialOf p.2).Nodup := by
  rw [List.nodup_iff_getElem?_ne_getElem?]
  intro i j hij hj he
  rw [List.length_map] at hj
  rw [List.getElem?_map, List.getElem?_map, List.getElem?_eq_getElem (hij.trans hj),
    List.getElem?_eq_getElem hj, Option.map_some, Option.map_some, Option.some.injEq,
    (h.written i _ (List.getElem?_eq_getElem _)).2,
      (h.written j _ (List.getElem?_eq_getElem _)).2] at he
  omega

/-- No two entries share a path, where `--output` is none of the paths `main` derives. -/
theorem Entered.paths_nodup (h : Entered serialOf s m c) (hs : s + m < 2 ^ 64) {opt : Bytes}
    (hopt : ∀ k, s < k → k < s + m → opt ≠ certPath k) :
    (c.certs.map fun p => p.1.path opt).Nodup := by
  have hle : c.certs.length ≤ m := by
    have := h.left
    omega
  rw [List.nodup_iff_getElem?_ne_getElem?]
  intro i j hij hj he
  rw [List.length_map] at hj
  rw [List.getElem?_map, List.getElem?_map, List.getElem?_eq_getElem (hij.trans hj),
    List.getElem?_eq_getElem hj, Option.map_some, Option.map_some, Option.some.injEq,
    (h.written i _ (List.getElem?_eq_getElem _)).1, (h.written j _ (List.getElem?_eq_getElem _)).1,
    fileOf, fileOf, if_neg (by omega : j ≠ 0)] at he
  by_cases hi : i = 0
  · rw [if_pos hi] at he
    exact hopt (s + j) (by omega) (by omega) he
  · rw [if_neg hi] at he
    have := certPath_inj (by omega) (by omega) he
    omega

/-- **Certificate accounting**: along every run of sign mode for `m ≥ 1` certificates
from serial `s` whose steps keep the books, at most `m` are written, the `j`-th (from 0)
carries serial `s + j`, and no two share a serial or a path. -/
theorem certificate_accounting {n t s secs m : Nat} {file : Bytes} (opt : Bytes) {env : TbsEnv}
    {c₀ : Coord} {serialOf : Bytes → Nat} {es : List Event}
    (h₀ : prepareTbs (Coord.boot .sign n t s secs m file (some file)) env = (c₀, true))
    (hs : s + m < 2 ^ 64) (hm : 1 ≤ m) (hopt : ∀ k, s < k → k < s + m → opt ≠ certPath k)
    (hC : Along step Accounted c₀ es)
    (hkeep₀ : env.Echoes serialOf) (hkeep : ∀ e ∈ es, KeepsSerial serialOf e) :
    let certs := (run step c₀ es).certs
    certs.length ≤ m ∧ (∀ j p, certs[j]? = some p → serialOf p.2 = s + j) ∧
      (certs.map fun p => serialOf p.2).Nodup ∧ (certs.map fun p => p.1.path opt).Nodup := by
  have h : Entered serialOf s m (run step c₀ es) :=
    (hC.and (.of_mem fun e he _ => hkeep e he)).invariant (fun _ _ h hC => h.step hs hC)
      (Entered.start h₀ hm hs hkeep₀)
  refine ⟨?_, fun j p hp => (h.written j p hp).2, h.serials_nodup, h.paths_nodup hs hopt⟩
  have := h.left
  omega

/-! ## One certificate, and three -/

/-- A template of as many bytes as its serial counts. -/
def echoTbs : TbsEnv where
  now := 0
  callTbs := fun serial _ _ => .ok (List.replicate serial 0) (List.replicate 32 0)
  caKey := some (Vector.replicate 32 0)

def echoStart (toMint : Nat) : Coord :=
  (prepareTbs (Coord.boot .sign 2 2 1 86400 toMint [1] (some [1])) echoTbs).1

theorem echoStart_started {toMint : Nat} (h : toMint < 2 ^ 64) : Started (echoStart toMint) :=
  .sign 2 2 1 86400 toMint [1] echoTbs (by decide) (by decide) (by decide) h (by decide) rfl

theorem echoTbs_echoes : echoTbs.Echoes List.length := by
  rintro k - va vb d h
  obtain rfl : List.replicate k 0 = d := Option.some.inj h
  exact List.length_replicate

def mintEnv : Env :=
  { quietEnv with
    aggregate := fun _ => .sig (List.replicate 64 0)
    mint := fun i => some i.dummyCert }

/-- Signer 2 sends the last share, and `aggregate` and `mint` succeed. -/
def lastSigns : Event := .frame 2 ⟨.sigShare, List.replicate frameSigSize 0, [8]⟩ mintEnv

def mintRun : List Event := [sends 1 .sigShare [9], lastSigns]

/-- The round after a restart. -/
def restartRun (env : TbsEnv) : List Event :=
  [.loopHead env, sends 1 .commit [3], sends 2 .commit [4]] ++ mintRun

def twiceRun : List Event := openingRun ++ mintRun ++ restartRun echoTbs

/-- No step of it loses a certificate. -/
theorem twiceRun_accounted : Along step Accounted (echoStart 2) twiceRun := by
  have hquiet {c : Coord} {i : Nat} {type : MsgType} {p : Bytes}
      (ht : MsgType.reports type = false) (hc : (aggregateCall c (sends i type p)).isNone = true) :
      Accounted c (sends i type p) := by
    refine ⟨fun _ _ hr => ?_, fun k stdin h => ?_⟩
    · rw [show MsgType.reports type = true from hr] at ht
      cases ht
    · rw [show aggregateCall c (sends i type p) = some (k, stdin) from h] at hc
      cases hc
  have hlast (c : Coord) : Accounted c lastSigns := by
    refine ⟨fun _ _ hr => ?_, fun k stdin _ => ⟨fun _ _ _ => rfl, fun hu => absurd rfl hu⟩⟩
    cases hr
  have hrestart (c : Coord) : Accounted c (.loopHead echoTbs) := fun _ _ _ => nofun
  exact ⟨trivial, trivial, hquiet rfl (by decide +kernel), hquiet rfl (by decide +kernel),
    hquiet rfl (by decide +kernel), hlast _, hrestart _, hquiet rfl (by decide +kernel),
    hquiet rfl (by decide +kernel), hquiet rfl (by decide +kernel), hlast _, trivial⟩

theorem twiceRun_keepsSerial : ∀ e ∈ twiceRun, KeepsSerial List.length e := by
  have hquiet {i : Nat} {type : MsgType} {p : Bytes} : KeepsSerial List.length (sends i type p) :=
    nofun
  have hlast : KeepsSerial List.length lastSigns := fun i cert h => by
    obtain rfl : i.dummyCert = cert := Option.some.inj h
    rfl
  simp only [twiceRun, openingRun, mintRun, restartRun, List.cons_append, List.nil_append,
    List.forall_mem_cons]
  exact ⟨trivial, trivial, hquiet, hquiet, hquiet, hlast, echoTbs_echoes, hquiet, hquiet, hquiet,
    hlast, nofun⟩

/-- Two certificates of two, with a restart between them: serials 1 and 2. -/
theorem certificate_accounting_run :
    let certs := (run step (echoStart 2) twiceRun).certs
    certs.length = 2 ∧ ∀ j p, certs[j]? = some p → p.2.length = 1 + j := by
  have hstart : prepareTbs (Coord.boot .sign 2 2 1 86400 2 [1] (some [1])) echoTbs =
      (echoStart 2, true) := rfl
  have h := certificate_accounting [] hstart (by decide) (by decide)
    (fun k _ _ => by simp [certPath, ascii]) twiceRun_accounted echoTbs_echoes twiceRun_keepsSerial
  exact ⟨by decide +kernel, h.2.1⟩

/-- `--mass-mint 0` mints a certificate; a restart whose `tbs` yields nothing mints
the old serial again, into the next file. -/
theorem accounting_fails :
    let c := run step (echoStart 0) (openingRun ++ mintRun)
    let d := run step (echoStart 2)
      (openingRun ++ mintRun ++ restartRun ⟨0, fun _ _ _ => .noTemplate, none⟩)
    (Started (echoStart 0) ∧ c.certs.length = 1) ∧
      Started (echoStart 2) ∧ d.certs.map (fun p => p.2.length) = [1, 1] :=
  ⟨⟨echoStart_started (by decide), by decide +kernel⟩, echoStart_started (by decide),
    by decide +kernel⟩

end FrostSshCa.Coordinator
