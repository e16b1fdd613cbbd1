import FrostSshCa.Coordinator.Abort
import FrostSshCa.Coordinator.Table

/-!
# Signers of open sessions

No signer should be in two open sessions. A named culprit and an expiry close
their session before they ask its members again. The fallback does not: it asks
every signer, those of the other open sessions too. Nor does a reconnection, nor
a restart whose `prepare_tbs` fails and leaves the table as it was. `KeepsApart`
is what rules the three out, and along runs that meet it the sessions stay apart.
-/

namespace FrostSshCa.Coordinator

open Lib

/-- A broadcast of requests asks signer `i`. -/
structure Asked (c : Coord) (i : Nat) : Prop where
  registered : i ∈ c.signers
  unlisted : isBlacklisted c i = false
  keyed : (c.sg i).signPhase ≠ .noKey

/-- The signers a step asks, besides those of a session it closes, are in no open
session: a signer that registers was not left in one, a restart empties the table
or finds nobody there, and so does a failure nobody is named for. -/
def KeepsApart (c : Coord) : Event → Prop
  | .hello env payload => ∀ pid, Registers c env payload pid → Free c.sessions pid
  | .loopHead env => c.roastFail = false → c.signingDone = true → c.toMint > 0 →
      (prepareTbs (advanceSerial c) env).2 = true ∨ ∀ i, Asked c i → Free c.sessions i
  | .frame i f env => ∀ k stdin, aggregateCall c (.frame i f env) = some (k, stdin) →
      Unattributed (env.aggregate stdin) →
        ∀ j, j ∉ (c.sessions k).signerIds → Asked c j → Free c.sessions j
  | _ => True

/-- The signer may be taken into a session, at once or after its next commitment. -/
def SignerRec.Open (r : SignerRec) : Prop :=
  r.signPhase = .init ∨ r.signPhase = .committed ∨ r.signPhase = .suspect

/-- The open sessions have no member in common, and nobody who may be taken into
a session is in one. -/
structure Apart (c : Coord) : Prop where
  mode : c.mode = .sign
  dkgState : c.dkgState ≠ .collectingR1
  distinct : c.signers.Nodup
  disjoint : ∀ j k, (c.sessions j).state = .awaitingShares →
    (c.sessions k).state = .awaitingShares →
    ∀ i ∈ (c.sessions j).signerIds, i ∈ (c.sessions k).signerIds → j = k
  free : ∀ i ∈ c.signers, isBlacklisted c i = false → (c.sg i).Open → Free c.sessions i

/-- Links that ask nobody of an open session. -/
def Scope.apart : Scope := ⟨fun _ => True, Free, fun _ => True⟩

variable {c c' : Coord}

/-- Framed, with no session opened, and nobody made eligible who is not free. -/
theorem Apart.still (h : Apart c) (hf : Framed c c') (hs : NoneOpened c c')
    (hsg : ∀ i ∈ c.signers, isBlacklisted c' i = false → (c'.sg i).Open →
      (c.sg i).Open ∨ Free c'.sessions i) : Apart c' := by
  refine ⟨hf.mode.trans h.mode, hf.notCollecting h.dkgState, hf.signers ▸ h.distinct,
    fun j k hj hk i hij hik => ?_, fun i hi hb ho => ?_⟩
  · have ej := hs j hj
    have ek := hs k hk
    rw [ej] at hj hij
    rw [ek] at hk hik
    exact h.disjoint j k hj hk i hij hik
  · rw [hf.signers] at hi
    have hb' : isBlacklisted c i = false := by
      cases e : isBlacklisted c i with
      | false => rfl
      | true => rw [hf.blacklist i e] at hb; cases hb
    rcases hsg i hi hb ho with ho' | hfree
    · exact hs.free (h.free i hi hb' ho')
    · exact hfree

theorem RecIdle.open' {r r' : SignerRec} (h : RecIdle r r') : r'.Open → r.Open := by
  have hv := h.view
  simp only [SignerRec.signView, Prod.mk.injEq] at hv
  intro ho
  unfold SignerRec.Open at ho ⊢
  rwa [hv.2.2.1] at ho

/-- **Every link that asks nobody of an open session keeps them apart.** -/
theorem Apart.link (hl : Link .apart c c') (h : Apart c) : Apart c' := by
  rcases hl.opened with hs | ⟨env, k, spkg, wire, -, hf, rfl⟩
  · refine h.still hl.framed hs fun i hi hb ho => ?_
    cases hl.record h.distinct hi with
    | idle hr _ => exact .inl (hr.open' ho)
    | black _ e _ =>
      rw [e] at ho
      rcases ho with ho | ho | ho <;> cases ho
    | request _ hfree _ => exact .inr hfree
    | assign _ _ e _ =>
      rw [e] at ho
      rcases ho with ho | ho | ho <;> cases ho
    | skipped hno e =>
      rw [e] at ho
      exact .inl ho
  · -- the chosen are eligible, hence free before the session is opened
    obtain ⟨hself, hother⟩ := openSession_sessions c k (chooseSigners c) spkg wire env.now
    obtain ⟨_, eo⟩ := openSession_sgOnly (c := c) k (chooseSigners c) spkg wire env.now
    have hsg (i : Nat) := openSession_sg (c := c)
        (chooseSigners_nodup c h.distinct) k spkg wire env.now i
    have hmem : ∀ i ∈ chooseSigners c, Free c.sessions i := by
      intro i hi
      obtain ⟨hreg, hok | hok⟩ := mem_chooseSigners c hi
      · simp only [reliable, Bool.and_eq_true, Bool.not_eq_true', decide_eq_true_eq] at hok
        exact h.free i hreg hok.1.1.2 (.inr (.inl hok.1.1.1))
      · simp only [suspected, Bool.and_eq_true, Bool.or_eq_true, Bool.not_eq_true',
          decide_eq_true_eq] at hok
        exact h.free i hreg hok.1.2 (.inr hok.1.1.1)
    refine ⟨?_, ?_, ?_, fun j l hj hl i hij hil => ?_, fun i hi hb ho => ?_⟩
    · rw [eo]; exact h.mode
    · rw [eo]; exact h.dkgState
    · rw [eo]; exact h.distinct
    · by_cases ej : j = k
      · subst ej
        by_cases el : l = j
        · exact el.symm
        · rw [hself] at hij
          rw [hother l el] at hl hil
          exact absurd hil (hmem i hij l hl)
      · rw [hother j ej] at hj hij
        by_cases el : l = k
        · subst el
          rw [hself] at hil
          exact absurd hij (hmem i hil j hj)
        · rw [hother l el] at hl hil
          exact h.disjoint j l hj hl i hij hil
    · by_cases hin : i ∈ chooseSigners c
      · rw [hsg, if_pos hin] at ho
        rcases ho with ho | ho | ho <;> cases ho
      · rw [hsg, if_neg hin] at ho
        have hi' : i ∈ c.signers := by rw [eo] at hi; exact hi
        have hb' : isBlacklisted c i = false := by rw [eo] at hb; exact hb
        intro l hl
        by_cases el : l = k
        · subst el
          rw [hself]
          exact hin
        · rw [hother l el] at hl ⊢
          exact h.free i hi' hb' ho l hl

theorem Apart.chain (hc : Chain .apart c c') (h : Apart c) : Apart c' :=
  hc.invariant (fun _ _ hl hi => hi.link hl) h

/-- A broadcast keeps the sessions apart where it asks nobody of an open one. -/
theorem Apart.broadcast (h : Apart c) (hask : ∀ i, Asked c i → Free c.sessions i) :
    Apart (broadcastSignReq c) := by
  obtain ⟨_, e⟩ := broadcastSignReq_sgOnly c
  refine h.still (broadcastSignReq_sgOnly c).framed (fun k _ => by rw [e]) fun i hi hb ho => ?_
  have hb' : isBlacklisted c i = false := by rw [e] at hb; exact hb
  have hse : (broadcastSignReq c).sessions = c.sessions := by rw [e]
  rw [broadcastSignReq_sg h.distinct] at ho
  split at ho
  · next hin =>
    right
    rw [hse]
    exact hask i ⟨hin.1, hin.2.1, hin.2.2⟩
  · exact .inl ho

/-- The members of a session that is closed are in no other. -/
theorem Apart.members_free (h : Apart c) {k : Fin maxSessions}
    (hk : (c.sessions k).state = .awaitingShares) (st : RSessState) (hst : st ≠ .awaitingShares) :
    ∀ i ∈ (c.sessions k).signerIds, Free (c.closeSession k st).sessions i := by
  intro i hi j hj
  by_cases e : j = k
  · subst e
    unfold Coord.closeSession at hj
    rw [Coord.setSession_self] at hj
    exact absurd hj hst
  · have hses : (c.closeSession k st).sessions j = c.sessions j := Coord.setSession_of_ne e _
    rw [hses] at hj ⊢
    exact fun hij => e (h.disjoint j k hj hk i hij hi)

/-! ## The blocks of sign mode -/

theorem Apart.idle (h : Apart c) (hi : Idle c c') : Apart c' := h.link (.idle hi)

theorem Apart.form (h : Apart c) (env : Env) : Apart (tryForm c env) :=
  h.chain (tryForm_chain c trivial)

/-- A record update that does not make the signer eligible. -/
theorem Apart.setSg (h : Apart c) (i : Nat) {g : SignerRec → SignerRec}
    (hg : (g (c.sg i)).Open → (c.sg i).Open) : Apart (c.setSg i g) := by
  refine h.still (setSg_sgOnly c i g).framed (fun _ _ => rfl) fun j _ _ ho => .inl ?_
  by_cases e : j = i
  · subst e
    rw [Coord.setSg_self] at ho
    exact hg ho
  · rwa [Coord.setSg_of_ne e] at ho

theorem fileShare_open (c : Coord) (k j : Fin maxSessions) (slot i : Nat) (share : Bytes) :
    ((fileShare c k slot i share).sessions j).state = (c.sessions j).state ∧
      ((fileShare c k slot i share).sessions j).signerIds = (c.sessions j).signerIds ∧
      ((fileShare c k slot i share).sessions j).id = (c.sessions j).id := by
  by_cases e : j = k
  · subst e
    rw [fileShare_session]
    exact ⟨rfl, rfl, rfl⟩
  · rw [fileShare_session_of_ne e]
    exact ⟨rfl, rfl, rfl⟩

theorem free_congr {s s' : Fin maxSessions → RoastSession}
    (h : ∀ k, (s' k).state = (s k).state ∧ (s' k).signerIds = (s k).signerIds) {id : Nat} :
    Free s' id ↔ Free s id := by
  unfold Free
  simp only [(h _).1, (h _).2]

/-- The sender's share is filed; it is eligible no more. -/
theorem Apart.file (h : Apart c) (k : Fin maxSessions) (slot i : Nat) (share : Bytes) :
    Apart (fileShare c k slot i share) := by
  have hses (j : Fin maxSessions) := fileShare_open c k j slot i share
  refine ⟨h.mode, h.dkgState, h.distinct, fun j l hj hl x hxj hxl => ?_, fun x hx hb ho => ?_⟩
  · rw [(hses j).1] at hj
    rw [(hses l).1] at hl
    rw [(hses j).2.1] at hxj
    rw [(hses l).2.1] at hxl
    exact h.disjoint j l hj hl x hxj hxl
  · rw [free_congr fun j => ⟨(hses j).1, (hses j).2.1⟩]
    refine h.free x hx hb ?_
    by_cases e : x = i
    · subst e
      have hsg : ((fileShare c k slot x share).sg x).signPhase = .shared := by
        unfold fileShare
        rw [Coord.setSg_self]
      rcases ho with ho | ho | ho <;> rw [hsg] at ho <;> cases ho
    · have hsg : (fileShare c k slot i share).sg x = c.sg x := Coord.setSg_of_ne e _
      rwa [hsg] at ho

/-- The fallback asks everyone left, and keeps the sessions apart where those of
the other open sessions are not left. -/
theorem Apart.fallback (h : Apart c) {k : Fin maxSessions}
    (hk : (c.sessions k).state = .awaitingShares)
    (hask : ∀ j, j ∉ (c.sessions k).signerIds → Asked c j → Free c.sessions j) :
    Apart (blacklistSession c k) := by
  have hch : Chain .apart c (blacklistMembers c k) := blacklistMembers_chain hk fun _ _ => trivial
  have hclosed := closeSession_noneOpened c k .failed nofun
  have h1 := h.chain hch
  obtain ⟨_, _, _, e⟩ := blacklistMembers_recOnly c k
  have hask' (j : Nat) (hj : Asked (blacklistMembers c k) j) :
      Free (blacklistMembers c k).sessions j := by
    have hses : (blacklistMembers c k).sessions = (c.closeSession k .failed).sessions := by rw [e]
    rw [hses]
    by_cases hin : j ∈ (c.sessions k).signerIds
    · exact h.members_free hk .failed nofun j hin
    refine hclosed.free (hask j hin ?_)
    have hsg := blacklistMembers_outside c hin
    refine ⟨?_, ?_, ?_⟩
    · have := hj.registered
      rw [e] at this
      exact this
    · rw [← hsg.2]; exact hj.unlisted
    · rw [← hsg.1]; exact hj.keyed
  unfold blacklistSession
  dsimp only
  split
  · have h2 : Apart { blacklistMembers c k with signingDone := true } :=
      h1.idle (.of_sg_eq rfl rfl rfl rfl rfl rfl rfl rfl rfl (.inl rfl) rfl)
    exact h2.broadcast fun j hj => hask' j ⟨hj.registered, hj.unlisted, hj.keyed⟩
  · exact h1.broadcast hask'

theorem Apart.answer (h : Apart c) {k : Fin maxSessions}
    (hk : (c.sessions k).state = .awaitingShares) (env : Env) (r : AggregateResult)
    (hask : Unattributed r → ∀ j, j ∉ (c.sessions k).signerIds → Asked c j → Free c.sessions j) :
    Apart (onAggregate c env k r) := by
  cases r with
  | notRun => exact h
  | sig bytes =>
    dsimp only [onAggregate]
    split
    · next hlen => exact h.fallback hk (hask hlen)
    · exact h.chain (aggregateOk_chain hk env bytes)
  | culprit id =>
    dsimp only [onAggregate]
    split
    · exact h.chain (roastFailCulprit_chain (S := .apart) hk trivial trivial
        fun j hj _ => h.members_free hk .failed nofun j hj)
    · next hid => exact h.fallback hk (hask hid)
  | failed => exact h.fallback hk (hask trivial)

theorem Apart.expire (h : Apart c) (now : Nat) (env : Fin maxSessions → Env) :
    Apart (roastExpireSessions c now env) := by
  have hch : Chain .apart c (roastExpireSessions c now env) := by
    refine roastExpireSessions_chain Apart (fun _ _ hl hi => hi.link hl) ?_ (fun _ => trivial) h
    intro d k hd hk _
    exact ⟨fun _ _ _ => trivial, hd.members_free hk .failed nofun⟩
  exact h.chain hch

/-! ## Events -/

theorem Apart.frame (h : Apart c) {env : Env} {i : Nat} {f : Frame} (hx : c.exited = false)
    (hi : i ∈ c.signers) (hap : KeepsApart c (.frame i f env)) :
    Apart (processSignerFrame c env i f) := by
  have hstep : step c (.frame i f env) = processSignerFrame c env i f :=
    step_frame_of_mem hx hi f env
  by_cases hs : MsgType.signing f.type = true
  · cases e : f.type with
    | commit =>
      unfold processSignerFrame
      rw [e]
      dsimp only
      rcases onCommit_cases c env i f with e' | ⟨ht, e'⟩
      · rw [e']; exact h
      · rw [e']
        refine Apart.form (h.setSg i fun _ => ?_) env
        rcases ht.phase with hp | hp
        · exact .inl hp
        · exact .inr (.inr hp)
    | sigShare =>
      rw [← hstep]
      rcases step_sigShare_cases hx hi e with e' | ⟨k, slot, ht, e' | ⟨stdin, hcall, e'⟩⟩
      · rw [e']; exact h
      · rw [e']; exact h.file ..
      · rw [e']
        have hses (j : Fin maxSessions) := fileShare_open c k j slot i f.payload
        refine (h.file k slot i f.payload).answer ((hses k).1.trans ht.open') env _ ?_
        intro hun j hj hasked
        rw [(hses k).2.1] at hj
        rw [free_congr fun l => ⟨(hses l).1, (hses l).2.1⟩]
        refine hap k stdin hcall hun j hj ⟨hasked.registered, hasked.unlisted, ?_⟩
        have hne : j ≠ i := by
          rintro rfl
          exact hj (List.mem_of_getElem? ht.slot)
        have hsg : (fileShare c k slot i f.payload).sg j = c.sg j := Coord.setSg_of_ne hne _
        rw [← hsg]
        exact hasked.keyed
    | shareLoadFail =>
      unfold processSignerFrame
      rw [e]
      refine h.setSg i ?_
      rintro (ho | ho | ho) <;> cases ho
    | _ => rw [e] at hs; cases hs
  · exact h.idle (ceremony_idle h.mode h.dkgState env i f (by simpa using hs))

/-- Once `prepare_tbs` succeeds the session table is empty. -/
theorem prepareTbs_clears {env : TbsEnv} (hok : (prepareTbs c env).2 = true) :
    (prepareTbs c env).1.sessions = fun _ => RoastSession.zero := by
  unfold prepareTbs patchAndClear at hok ⊢
  split at hok
  · cases hok
  · cases hok
  · cases hok
  split at hok
  · cases hok
  · next hlen =>
    rw [if_neg hlen]
    split at hok
    · cases hok
    · next h32 =>
      rw [if_neg h32]
      split at hok
      · cases hok
      · rfl

theorem Apart.head (h : Apart c) {env : TbsEnv} (hap : KeepsApart c (.loopHead env)) :
    Apart (loopHead c env) := by
  have hexit (d : Coord) (hd : Apart d) : Apart (exitIfQuiet d) := by
    unfold exitIfQuiet
    split
    · exact hd.idle (.of_sg_eq rfl rfl rfl rfl rfl rfl rfl rfl rfl (.inl rfl) rfl)
    · exact hd
  unfold loopHead
  split
  · exact hexit c h
  next hrf =>
  split
  · next hdone =>
    split
    · next hmint =>
      unfold nextMint
      -- the table is kept or emptied, the records stay until the broadcast
      obtain ⟨d, tbs, hex, e | e⟩ := prepareTbs_cases (advanceSerial c) env
      · have h1 : Apart (resume (prepareTbs (advanceSerial c) env).1) := by
          rw [e]
          exact ⟨h.mode, h.dkgState, h.distinct, h.disjoint, h.free⟩
        refine h1.broadcast fun i hi => ?_
        rcases hap (by simpa using hrf) hdone.1 hmint with hok | hask
        · intro k hk
          have hz : (resume (prepareTbs (advanceSerial c) env).1).sessions =
              fun _ => RoastSession.zero := prepareTbs_clears hok
          rw [hz] at hk
          cases hk
        · rw [e] at hi ⊢
          exact hask i ⟨hi.registered, hi.unlisted, hi.keyed⟩
      · have h1 : Apart (resume (prepareTbs (advanceSerial c) env).1) := by
          rw [e]
          refine ⟨h.mode, h.dkgState, h.distinct, fun j k hj => ?_, fun i _ _ _ k hk => ?_⟩
          · cases hj
          · cases hk
        refine h1.broadcast fun i _ k hk => ?_
        rw [e] at hk
        cases hk
    · exact hexit c h
  split
  · exact hexit c h
  · exact h

theorem Apart.hello (h : Apart c) {env : HelloEnv} {payload : Bytes}
    (hap : KeepsApart c (.hello env payload)) : Apart (onHello c env payload).1 := by
  rcases onHello_cases c env payload with e | ⟨pid, pn, pt, -, -, e | ⟨hnew, e, hok⟩⟩
  · rw [e]; exact h
  · rw [e]
    exact ⟨h.mode, h.dkgState, h.distinct, h.disjoint, h.free⟩
  have hfree : Free c.sessions pid := hap pid (onHello_registers hok)
  have h1 : Apart { c with n := pn, t := pt } :=
    ⟨h.mode, h.dkgState, h.distinct, h.disjoint, h.free⟩
  have hsg {j : Nat} (hne : j ≠ pid) := promote_sg_of_ne (c := { c with n := pn, t := pt })
      h1.mode hne
  obtain ⟨_, hshape⟩ := promote_shape (c := { c with n := pn, t := pt }) h1.mode pid
  have hsigners : (promote { c with n := pn, t := pt } pid).signers = pid :: c.signers := by
    rw [hshape]
  have hses : (promote { c with n := pn, t := pt } pid).sessions = c.sessions := by rw [hshape]
  rw [e]
  refine ⟨by rw [hshape]; exact h.mode, by rw [hshape]; exact h.dkgState, ?_, ?_,
    fun i hi hb ho => ?_⟩
  · rw [hsigners]
    exact List.nodup_cons.mpr ⟨hnew, h.distinct⟩
  · rw [hses]
    exact h.disjoint
  · rw [hses]
    by_cases ei : i = pid
    · subst ei
      exact hfree
    · rw [hsg ei] at ho
      rw [hsigners] at hi
      have hb' : isBlacklisted c i = false := by rw [hshape] at hb; exact hb
      exact h.free i (List.mem_of_ne_of_mem ei hi) hb' ho

/-- **One step** that asks nobody of an open session keeps the sessions apart. -/
theorem Apart.step (e : Event) (h : Apart c) (hap : KeepsApart c e) :
    Apart (Coordinator.step c e) := by
  cases hx : c.exited with
  | true =>
    rw [step_exited hx]
    exact h
  | false =>
    cases e with
    | loopHead env =>
      rw [step_loopHead hx]
      exact h.head hap
    | expire now env =>
      rw [step_expire hx]
      split
      · exact h.expire now env
      · exact h
    | hello env payload =>
      rw [step_hello hx]
      exact h.hello hap
    | drain i =>
      rw [step_drain hx]
      split
      · exact h.setSg i fun ho => ho
      · exact h
    | disconnect i =>
      rw [step_disconnect hx]
      split
      · exact ⟨h.mode, h.dkgState, h.distinct.filter _, h.disjoint,
          fun j hj => h.free j (List.mem_of_mem_filter hj)⟩
      · exact h
    | frame i f env =>
      by_cases hi : i ∈ c.signers
      · have hstep : Coordinator.step c (.frame i f env) = processSignerFrame c env i f :=
          step_frame_of_mem hx hi f env
        rw [hstep]
        exact h.frame hx hi hap
      · simp only [Coordinator.step, hx, hi, if_false, Bool.false_eq_true]
        exact h

theorem Unused.apart (h : Unused c) (hm : c.mode = .sign) : Apart c := by
  refine ⟨hm, by rw [h.dkgState]; exact nofun, by rw [h.signers]; exact List.nodup_nil,
    fun j k hj => ?_, fun i hi => ?_⟩
  · rw [h.sessions] at hj
    cases hj
  · rw [h.signers] at hi
    cases hi

/-- **Concurrent sessions are disjoint**: along a run of sign mode whose steps ask
nobody of an open session, no id is listed in two sessions that await shares. -/
theorem sessions_disjoint {c₀ : Coord} {es : List Event} (h₀ : Started c₀) (hm : c₀.mode = .sign)
    (hC : Along step KeepsApart c₀ es) {j k : Fin maxSessions} (hne : j ≠ k)
    (hj : ((run step c₀ es).sessions j).state = .awaitingShares)
    (hk : ((run step c₀ es).sessions k).state = .awaitingShares) :
    ((run step c₀ es).sessions j).signerIds.Disjoint ((run step c₀ es).sessions k).signerIds := by
  have hap : Apart (run step c₀ es) :=
    hC.invariant (fun _ e h hap => h.step e hap) (h₀.unused.apart hm)
  exact fun i hij hik => hne (hap.disjoint j k hj hk i hij hik)

def secondSlot : Fin maxSessions := ⟨1, by decide⟩

def fourJoin : List Event := [joins 1 4 2, joins 2 4 2, joins 3 4 2, joins 4 4 2]

def fourCommit : List Event :=
  [sends 1 .commit [1], sends 2 .commit [2], sends 3 .commit [3], sends 4 .commit [4]]

/-- Four signers in two open sessions. -/
theorem sessions_disjoint_run :
    let c := run step (signStart 4 2 1) (fourJoin ++ fourCommit)
    (c.sessions firstSlot).signerIds.Disjoint (c.sessions secondSlot).signerIds := by
  have hjoin {c : Coord} {i : Nat} (hz : ∀ k, (c.sessions k).state ≠ .awaitingShares) :
      KeepsApart c (joins i 4 2) := fun _ _ k hk => absurd hk (hz k)
  have hcommit {c : Coord} {i : Nat} {p : Bytes} : KeepsApart c (sends i .commit p) :=
    fun k stdin h => by
      simp [aggregateCall] at h
  have hrun : Along step KeepsApart (signStart 4 2 1) (fourJoin ++ fourCommit) :=
    ⟨hjoin (by decide +kernel), hjoin (by decide +kernel), hjoin (by decide +kernel),
      hjoin (by decide +kernel), hcommit, hcommit, hcommit, hcommit, trivial⟩
  exact sessions_disjoint (signStart_started (by decide) (by decide) (by decide)) rfl hrun
    (by decide) (by decide +kernel) (by decide +kernel)

/-- Both members of an open session reconnect and commit again: a second session
lists them both while the first is still open. -/
theorem reconnected_in_two_sessions :
    let c := run step (signStart 2 2 1) (openingRun ++ [.disconnect 1, .disconnect 2,
      joins 1 2 2, joins 2 2 2, sends 1 .commit [3], sends 2 .commit [4]])
    Started (signStart 2 2 1) ∧ c.mode = .sign ∧ (c.sessions firstSlot).state = .awaitingShares ∧
      (c.sessions secondSlot).state = .awaitingShares ∧
      1 ∈ (c.sessions firstSlot).signerIds ∧ 1 ∈ (c.sessions secondSlot).signerIds :=
  ⟨signStart_started (by decide) (by decide) (by decide), by decide +kernel⟩

end FrostSshCa.Coordinator
