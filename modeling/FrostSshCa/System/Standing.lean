import FrostSshCa.Coordinator.Apart
import FrostSshCa.System.Consent
import FrostSshCa.System.Serving

/-!
# A signer that does its part is not blacklisted

The other signers send any frames at all. As long as signer `h` answers the bundles it
is sent with valid shares and in time, and the coordinator neither asks it twice for one
commitment nor fails a session of it without a culprit, no path of the coordinator
strikes it or puts it on `g_blacklist`.
-/

namespace FrostSshCa.System

open Coordinator Signer Lib

variable {core : Core} {pub : Bytes} {h : Nat} {keys : Keys} {c c' : Coord} {x : Node}
variable {q : List Frame} {now : Nat} {s : Sys}

/-! ## The coordinator -/

/-- What the coordinator keeps about `h`: its standing while it is registered, and a clean
slate before. -/
structure Stands (core : Core) (pub : Bytes) (h : Nat) (c : Coord) (x : Node) (d : List Frame) :
    Prop where
  signing : Signing c
  here : h ∈ c.signers → Serving core pub h c x (d ++ (c.sg h).msgq)
  away : h ∉ c.signers → Absent h c

theorem Stands.link {d : List Frame} (hs : Stands core pub h c x d)
    (hl : Link (others core h now) c c') : Stands core pub h c' x d := by
  have hsig : c'.signers = c.signers := hl.framed.signers
  refine ⟨hs.signing.link hl, fun hin => ?_, fun hout => ?_⟩
  · exact (hs.here (hsig ▸ hin)).link hl hs.signing.table
  · rw [hsig] at hout
    exact (hs.away hout).link hl hs.signing.table hout

theorem Stands.chain {w : Nat} {d : List Frame} (hs : Stands core pub h c x d)
    (hc : Chain (others core h w) c c') : Stands core pub h c' x d :=
  hc.invariant (I := fun c => Stands core pub h c x d) (fun _ _ hl hi => Stands.link hi hl) hs

/-- Signer `h` is in good standing, registered or not. -/
theorem Stands.clean {d : List Frame} (hs : Stands core pub h c x d) :
    isBlacklisted c h = false ∧ getStrikes c h = 0 := by
  by_cases hin : h ∈ c.signers
  · exact ⟨(hs.here hin).unlisted, (hs.here hin).strikes⟩
  · exact ⟨(hs.away hin).unlisted, (hs.away hin).strikes⟩

/-- A member of an open session is registered. -/
theorem Stands.member {d : List Frame} (hs : Stands core pub h c x d) {k : Fin maxSessions}
    (hk : (c.sessions k).state = .awaitingShares) (hmem : h ∈ (c.sessions k).signerIds) :
    h ∈ c.signers ∧ (c.sg h).sessionId = (c.sessions k).id ∧
      Member core pub h (c.sg h) (c.sessions k) (pipe x (d ++ (c.sg h).msgq)) := by
  by_cases hreg : h ∈ c.signers
  · exact ⟨hreg, (hs.here hreg).member k hk hmem⟩
  · exact absurd hmem ((hs.away hreg).free k hk)

/-- Once its session is closed, `h` is in none. -/
theorem Stands.free_closed {d : List Frame} (hs : Stands core pub h c x d) {k : Fin maxSessions}
    (hk : (c.sessions k).state = .awaitingShares) (hmem : h ∈ (c.sessions k).signerIds) :
    Free (c.closeSession k .failed).sessions h := by
  intro j hj hin
  have hne : j ≠ k := by
    rintro rfl
    unfold Coord.closeSession at hj
    rw [Coord.setSession_self] at hj
    cases hj
  have hsame : (c.closeSession k .failed).sessions j = c.sessions j := Coord.setSession_of_ne hne _
  rw [hsame] at hj hin
  -- the session id of `h` names one open session
  have h1 := (hs.member hj hin).2.1
  have h2 := (hs.member hk hmem).2.1
  have hf1 := hs.signing.table.find hj
  have hf2 := hs.signing.table.find hk
  rw [← h1] at hf1
  rw [← h2, hf1] at hf2
  exact hne (Option.some.inj hf2)

/-- What is asked of an answer of `aggregate` for session `k`. -/
structure Spares (core : Core) (pub : Bytes) (h : Nat) (c : Coord) (k : Fin maxSessions)
    (stdin : AggregateInput) (env : Coordinator.Env) : Prop where
  pub : stdin.pubKeyPkg = pub
  /-- No session fails without a culprit while `h` is in one. -/
  attributed : Unattributed (env.aggregate stdin) → Free c.sessions h

/-- No answer of `aggregate` that keeps to this harms `h`. -/
theorem Stands.aggregate {w : Nat} {d : List Frame} (hs : Stands core pub h c x d)
    {env : Coordinator.Env} (henv : core.Answers env) (hnow : w ≤ env.now) {k : Fin maxSessions}
    (hk : (c.sessions k).state = .awaitingShares)
    (hsp : Spares core pub h c k (aggregateInput c (c.sessions k)) env) :
    Stands core pub h (onAggregate c env k (env.aggregate (aggregateInput c (c.sessions k)))) x
      d := by
  have hscope : (others core h w).env env := ⟨henv, hnow⟩
  refine hs.chain (onAggregate_chain hk hscope _ (fun id hb => ?_)
    (fun id hid => ?_) fun hu id _ => ?_)
  · -- whom the answer blames is not `h`
    rintro rfl
    have hun (hu : Unattributed (env.aggregate (aggregateInput c (c.sessions k))))
        (hmem : id ∈ (c.sessions k).signerIds) : False := hsp.attributed hu k hk hmem
    generalize hr : env.aggregate (aggregateInput c (c.sessions k)) = r at hb hun
    cases r with
    | notRun => exact hb
    | sig bytes => exact hun hb.1 hb.2
    | failed => exact hun trivial hb
    | culprit y =>
      unfold Blames at hb
      dsimp only at hb
      split at hb
      · subst hb
        obtain ⟨share, hshare, hbad⟩ := henv.culprit _ _ hr
        obtain ⟨i, hi⟩ := aggregateInput_mem hshare
        obtain ⟨hslot, hsh, hne⟩ := slotShare_some hi
        have hslot : (c.sessions k).signerIds[i]? = some id := hslot
        cases (hs.member hk (List.mem_of_getElem? hslot)).2.2 with
        | due _ hempty => exact hne (List.length_eq_zero_iff.mpr (hempty i hslot))
        | filed _ hfiled =>
          have hvalid := (hfiled i hslot).valid
          rw [hsp.pub] at hbad
          have hsh : share = (c.sessions k).shares i := hsh
          rw [hsh] at hbad
          exact hbad hvalid
      · next hno => exact hun hno hb
  · rintro rfl
    exact hs.free_closed hk hid
  · rintro rfl
    intro j hj hin
    by_cases e : j = k
    · subst e
      unfold Coord.closeSession at hj
      rw [Coord.setSession_self] at hj
      cases hj
    · have hsame : (c.closeSession k .failed).sessions j = c.sessions j :=
        Coord.setSession_of_ne e _
      rw [hsame] at hj hin
      exact hsp.attributed hu j hj hin

/-! ## One frame leaves the pipe, and its answer takes its place -/

/-- A bundle or a share. -/
def isRound (f : Frame) : Bool :=
  match f.type with
  | .relayCommit | .sigShare => true
  | _ => false

/-- Neither end moves a frame of the signing rounds. -/
theorem Serving.same (hs : Serving core pub h c x q) {x' : Node} {q' : List Frame}
    (hset : ∃ n t, Settled h n t x') (hups : ∀ f ∈ x'.outq, upFrame f.type = true)
    (hframes : ∀ f ∈ q', signFrame f.type = true) (hp : pipe x' q' = pipe x q) :
    Serving core pub h c x' q' := by
  refine ⟨hset, hups, hframes, hs.unlisted, hs.strikes, hs.phase, hs.free, ?_, ?_, ?_, ?_, ?_⟩
  · rw [hp]; exact hs.asked
  · rw [hp]; exact hs.committed
  · rw [hp]; exact hs.inSession
  · rw [hp]; exact hs.shared
  · rw [hp]; exact hs.member

/-- Of a list with no request but the last, a part is replaced by what asks no more. -/
theorem calm_swap {A B gs : List Frame} {f : Frame} (hgs : gs.length ≤ 1)
    (hask : ∀ g ∈ gs, isAsk g = true → isAsk f = true)
    (hcalm : ∀ g ∈ (A ++ f :: B).dropLast, isAsk g = false) :
    ∀ g ∈ (A ++ gs ++ B).dropLast, isAsk g = false := by
  rw [List.dropLast_append_of_ne_nil (List.cons_ne_nil f B)] at hcalm
  have hA : ∀ g ∈ A, isAsk g = false := fun g hg => hcalm g (List.mem_append_left _ hg)
  intro g hg
  cases B with
  | nil =>
    rw [List.append_nil] at hg
    cases gs with
    | nil =>
      rw [List.append_nil] at hg
      exact hA g (List.dropLast_subset _ hg)
    | cons g' l =>
      have hl : l = [] := by
        apply List.length_eq_zero_iff.mp
        simp only [List.length_cons] at hgs
        omega
      subst hl
      rw [List.dropLast_concat] at hg
      exact hA g hg
  | cons b B =>
    rw [List.dropLast_append_of_ne_nil (List.cons_ne_nil b B)] at hg
    rcases List.mem_append.mp hg with hg | hg
    · rcases List.mem_append.mp hg with hg | hg
      · exact hA g hg
      · have hf : isAsk f = false := hcalm f (by simp)
        cases hask' : isAsk g with
        | false => rfl
        | true =>
          have := hask g hg hask'
          rw [hf] at this
          cases this
    · exact hcalm g (List.mem_append_right _ (by simpa using .inr hg))

/-- **The frame `f` of the pipe is answered** with at most one frame that stands for it. -/
theorem Serving.swap (hs : Serving core pub h c x q) {x' : Node} {q' A B G : List Frame}
    {f : Frame} (hset : ∃ n t, Settled h n t x') (hups : ∀ f ∈ x'.outq, upFrame f.type = true)
    (hframes : ∀ f ∈ q', signFrame f.type = true) (hp : pipe x q = A ++ f :: B)
    (hp' : pipe x' q' = A ++ G ++ B) (hgs : G.length ≤ 1)
    (hask : ∀ g ∈ G, isAsk g = true → isAsk f = true)
    (hkind : isRound f = true → ∀ g ∈ G, isRound g = true)
    (hcalm : (c.sg h).signPhase = .init → (pipe x q).countP isAsk ≤ 1)
    (hdue : ∀ k, (c.sessions k).state = .awaitingShares → h ∈ (c.sessions k).signerIds →
      Due core pub h (c.sessions k).signingPkg f →
      ∃ g, G = [g] ∧ Due core pub h (c.sessions k).signingPkg g) :
    Serving core pub h c x' q' := by
  have hne : pipe x q ≠ [] := by rw [hp]; simp
  refine ⟨hset, hups, hframes, hs.unlisted, hs.strikes, hs.phase, hs.free, fun hi _ => ?_,
    fun hc => absurd (hs.committed hc) hne, fun hi => ?_,
    fun hsh => absurd (hs.shared hsh) hne, fun k hk hmem => ?_⟩
  · have hlast := hs.asked hi (hcalm hi)
    rw [hp] at hlast
    rw [hp']
    exact calm_swap hgs hask hlast
  · -- the only frame of the pipe is the one that is answered
    obtain ⟨f', hone, hround⟩ := (hs.inSession hi).resolve_left hne
    rw [hp, List.append_eq_singleton_iff] at hone
    rw [hp']
    rcases hone with ⟨rfl, hone⟩ | ⟨-, hone⟩
    · obtain ⟨rfl, rfl⟩ := List.cons.inj hone
      have hrf : isRound f = true := by
        unfold isRound
        rcases hround with e | e <;> rw [e]
      cases G with
      | nil => exact .inl rfl
      | cons g l =>
        have hl : l = [] := by
          apply List.length_eq_zero_iff.mp
          simp only [List.length_cons] at hgs
          omega
        subst hl
        refine .inr ⟨g, rfl, ?_⟩
        have hg := hkind hrf g (List.mem_singleton_self g)
        unfold isRound at hg
        cases e : g.type with
        | relayCommit => exact .inl rfl
        | sigShare => exact .inr rfl
        | _ => rw [e] at hg; cases hg
    · cases hone
  · obtain ⟨hid, hm⟩ := hs.member k hk hmem
    refine ⟨hid, ?_⟩
    cases hm with
    | due phase empty f' under due =>
      rw [hp, List.append_eq_singleton_iff] at under
      rcases under with ⟨rfl, under⟩ | ⟨-, under⟩
      · obtain ⟨rfl, rfl⟩ := List.cons.inj under
        obtain ⟨g, rfl, hg⟩ := hdue k hk hmem due
        exact .due phase empty g hp' hg
      · cases under
    | filed phase share => exact .filed phase share

/-! ## Frames of others -/

/-- As far as `h` is concerned the slot is the one it was. -/
structure SameFor (h : Nat) (r r' : RoastSession) : Prop where
  open' : r.state = .awaitingShares
  id : r'.id = r.id
  members : r'.signerIds = r.signerIds
  package : r'.signingPkg = r.signingPkg
  share : ∀ i, r.signerIds[i]? = some h → r'.shares i = r.shares i

/-- The record of `h` is untouched, and the open sessions are the same for it. -/
theorem Serving.aside (hs : Serving core pub h c x q) (hb : c'.blacklist = c.blacklist)
    (hst : c'.strikes = c.strikes) (hsg : c'.sg h = c.sg h)
    (hse : ∀ k, (c'.sessions k).state = .awaitingShares →
      SameFor h (c.sessions k) (c'.sessions k)) : Serving core pub h c' x q := by
  refine ⟨hs.settled, hs.ups, hs.frames, (isBlacklisted_congr hb h).trans hs.unlisted,
    (getStrikes_congr hst h).trans hs.strikes, ?_, ?_, ?_, ?_, ?_, ?_, fun k hk hmem => ?_⟩
  · rw [hsg]; exact hs.phase
  · rw [hsg]
    intro h1 h2 k hk
    rw [(hse k hk).members]
    exact hs.free h1 h2 k (hse k hk).open'
  · rw [hsg]; exact hs.asked
  · rw [hsg]; exact hs.committed
  · rw [hsg]; exact hs.inSession
  · rw [hsg]; exact hs.shared
  · have hsame := hse k hk
    rw [hsame.members] at hmem
    obtain ⟨hid, hm⟩ := hs.member k hsame.open' hmem
    rw [hsg, hsame.id]
    refine ⟨hid, ?_⟩
    cases hm with
    | due phase empty f under due =>
      refine .due phase (fun i hi => ?_) f under (hsame.package ▸ due)
      rw [hsame.members] at hi
      rw [hsame.share i hi, empty i hi]
    | filed phase share =>
      refine .filed phase fun i hi => ?_
      rw [hsame.members] at hi
      rw [hsame.share i hi, hsame.package]
      exact share i hi

theorem Stands.aside {d : List Frame} (hs : Stands core pub h c x d) (hsig : Signing c')
    (hsigners : h ∈ c'.signers ↔ h ∈ c.signers) (hb : c'.blacklist = c.blacklist)
    (hst : c'.strikes = c.strikes) (hsg : c'.sg h = c.sg h)
    (hse : ∀ k, (c'.sessions k).state = .awaitingShares →
      SameFor h (c.sessions k) (c'.sessions k)) : Stands core pub h c' x d := by
  refine ⟨hsig, fun hin => ?_, fun hout => ?_⟩
  · rw [hsg]
    exact (hs.here (hsigners.mp hin)).aside hb hst hsg hse
  · have ha := hs.away fun hin => hout (hsigners.mpr hin)
    refine ⟨(isBlacklisted_congr hb h).trans ha.unlisted,
      (getStrikes_congr hst h).trans ha.strikes, fun k hk => ?_⟩
    rw [(hse k hk).members]
    exact ha.free k (hse k hk).open'

theorem SameFor.refl {r : RoastSession} (hr : r.state = .awaitingShares) : SameFor h r r :=
  ⟨hr, rfl, rfl, rfl, fun _ _ => rfl⟩

/-- A share of another signer is filed beside that of `h`. -/
theorem fileShare_sameFor {i slot : Nat} {share : Bytes} {k : Fin maxSessions} (hne : i ≠ h)
    (hslot : (c.sessions k).signerIds[slot]? = some i) (j : Fin maxSessions)
    (hj : ((fileShare c k slot i share).sessions j).state = .awaitingShares) :
    SameFor h (c.sessions j) ((fileShare c k slot i share).sessions j) := by
  by_cases e : j = k
  · subst e
    rw [fileShare_session] at hj ⊢
    refine ⟨hj, rfl, rfl, rfl, fun i' hi' => Function.update_of_ne ?_ ..⟩
    rintro rfl
    rw [hslot] at hi'
    exact hne (Option.some.inj hi')
  · rw [fileShare_session_of_ne e] at hj ⊢
    exact .refl hj

/-- What is asked of the subprocesses while the coordinator reads `f` from `i`. -/
structure ReadsFair (core : Core) (pub : Bytes) (h : Nat) (c : Coord) (i : Nat) (f : Frame)
    (env : Coordinator.Env) : Prop where
  answers : core.Answers env
  call : ∀ k stdin, aggregateCall c (.frame i f env) = some (k, stdin) →
    Spares core pub h c k stdin env

/-- The sessions are open where they were, with the members they had. -/
theorem free_fileShare {i slot : Nat} {share : Bytes} {k : Fin maxSessions}
    (hf : Free c.sessions h) : Free (fileShare c k slot i share).sessions h := by
  intro j hj
  by_cases e : j = k
  · subst e
    rw [fileShare_session] at hj ⊢
    exact hf j hj
  · rw [fileShare_session_of_ne e] at hj ⊢
    exact hf j hj

/-- What a share that is let in sets off. -/
theorem step_filed (env : Coordinator.Env) {i : Nat} {f : Frame} {k : Fin maxSessions} {slot : Nat}
    (hx : c.exited = false) (hi : i ∈ c.signers) (ht : f.type = .sigShare)
    (hst : shareTarget c i f = some (k, slot)) :
    Coordinator.step c (.frame i f env) = fileShare c k slot i f.payload ∨
      ∃ stdin, aggregateCall c (.frame i f env) = some (k, stdin) ∧
        stdin = aggregateInput (fileShare c k slot i f.payload)
          ((fileShare c k slot i f.payload).sessions k) ∧
        Coordinator.step c (.frame i f env) =
          onAggregate (fileShare c k slot i f.payload) env k (env.aggregate stdin) := by
  have hstep : Coordinator.step c (.frame i f env) = onSigShare c env i f := by
    rw [step_frame_of_mem hx hi]
    unfold processSignerFrame
    rw [ht]
  have hcall : aggregateCall c (.frame i f env) =
      if ((fileShare c k slot i f.payload).sessions k).nShares ≥ (fileShare c k slot i f.payload).t
      then (aggregateStdin (fileShare c k slot i f.payload) k).map (k, ·) else none := by
    unfold aggregateCall
    dsimp only
    rw [if_neg (by simp [hx, hi, ht]), hst]
  rw [hstep, hcall]
  unfold onSigShare
  rw [hst]
  dsimp only
  split
  · unfold roastTryAggregate
    cases hin : aggregateStdin (fileShare c k slot i f.payload) k with
    | none => exact .inl rfl
    | some stdin =>
      refine .inr ⟨stdin, rfl, ?_, rfl⟩
      unfold aggregateStdin at hin
      split at hin
      · cases hin
      · exact (Option.some.inj hin).symm
  · exact .inl rfl

/-- **A share is read**: it is refused, or filed, and then what `aggregate` answers leaves
`h` alone. -/
theorem Stands.share {d : List Frame} {x' : Node} {i : Nat} {f : Frame} {env : Coordinator.Env}
    (hx : c.exited = false) (hi : i ∈ c.signers) (ht : f.type = .sigShare)
    (hr : ReadsFair core pub h c i f env)
    (hnone : shareTarget c i f = none → Stands core pub h c x' d)
    (hfile : ∀ k slot, ShareTarget c i f k slot →
      Stands core pub h (fileShare c k slot i f.payload) x' d) :
    Stands core pub h (Coordinator.step c (.frame i f env)) x' d := by
  cases hst : shareTarget c i f with
  | none =>
    have hstep : Coordinator.step c (.frame i f env) = c := by
      rw [step_frame_of_mem hx hi]
      unfold processSignerFrame
      rw [ht]
      dsimp only
      unfold onSigShare
      rw [hst]
    rw [hstep]
    exact hnone hst
  | some p =>
    obtain ⟨k, slot⟩ := p
    have htgt := shareTarget_some c hst
    have hfiled := hfile k slot htgt
    rcases step_filed env hx hi ht hst with e | ⟨stdin, hcall, hstdin, e⟩
    · rw [e]; exact hfiled
    · have hsp := hr.call k stdin hcall
      rw [e]
      subst hstdin
      refine hfiled.aggregate (w := 0) hr.answers (Nat.zero_le _) ?_
        ⟨hsp.pub, fun hu => free_fileShare (hsp.attributed hu)⟩
      rw [fileShare_session]
      exact htgt.open'

/-- **A frame of another signer.** -/
theorem Stands.other {d : List Frame} (hs : Stands core pub h c x d) {i : Nat} {f : Frame}
    {env : Coordinator.Env} (hne : i ≠ h) (hr : ReadsFair core pub h c i f env) :
    Stands core pub h (Coordinator.step c (.frame i f env)) x d := by
  have hscope : (others core h 0).env env := ⟨hr.answers, Nat.zero_le _⟩
  have hself {g : SignerRec → SignerRec} : (c.setSg i g).sg h = c.sg h :=
    Coord.setSg_of_ne (Ne.symm hne) _
  cases hx : c.exited with
  | true => rw [step_exited hx]; exact hs
  | false =>
  by_cases hi : i ∈ c.signers
  · have hsigned {e : Coord} (ht : Coordinator.Taken c (.frame i f env) e) : Signing e :=
      Signing.taken ht hs.signing
    by_cases hty : MsgType.signing f.type = true
    · cases e : f.type with
      | commit =>
        rw [step_frame_of_mem hx hi]
        unfold processSignerFrame
        rw [e]
        dsimp only
        rcases onCommit_cases c env i f with e' | ⟨htake, e'⟩
        · rw [e']; exact hs
        · rw [e']
          have hstored : Stands core pub h (storeCommit c i f) x d :=
            hs.aside (hsigned (.commit hi e htake)) Iff.rfl rfl rfl hself fun k hk => .refl hk
          exact hstored.chain (tryForm_chain _ hscope)
      | sigShare =>
        refine Stands.share hx hi e hr (fun _ => hs) fun k slot htgt => ?_
        refine hs.aside (hsigned (.share hi e htgt)) Iff.rfl rfl rfl ?_
          (fileShare_sameFor hne htgt.slot)
        exact Coord.setSg_of_ne (Ne.symm hne) _
      | shareLoadFail =>
        rw [step_frame_of_mem hx hi]
        unfold processSignerFrame
        rw [e]
        exact hs.aside (hsigned (.keyless hi e)) Iff.rfl rfl rfl hself fun k hk => .refl hk
      | _ => rw [e] at hty; cases hty
    · rw [step_frame_of_mem hx hi]
      have hidle := ceremony_idle hs.signing.mode hs.signing.dkgState env i f (by simpa using hty)
      exact hs.chain (w := 0) hidle.chain
  · rw [step_frame hx, if_neg hi]
    exact hs

/-! ## Frames of the signer itself -/

theorem Due.round {spkg : Bytes} {f : Frame} (hd : Due core pub h spkg f) : isRound f = true := by
  unfold isRound
  rcases hd with ⟨e, -⟩ | ⟨e, -⟩ <;> rw [e]

theorem pipe_cons {f : Frame} {fs : List Frame} (ho : x.outq = f :: fs) (q : List Frame) :
    pipe x q = if isToken f = true then f :: pipe { x with outq := fs } q
      else pipe { x with outq := fs } q := by
  unfold pipe
  rw [ho, List.cons_append, List.filter_cons]

theorem settled_popped (fs : List Frame) (hset : ∃ n t, Settled h n t x) :
    ∃ n t, Settled h n t { x with outq := fs } := by
  obtain ⟨n, t, h1⟩ := hset
  exact ⟨n, t, h1.myId, h1.n, h1.t, h1.r2Secret, h1.commit⟩

/-- A frame is read and nothing comes of it; an open session is owed no less. -/
theorem Serving.popped (hs : Serving core pub h c x q) {f : Frame} {fs : List Frame}
    (ho : x.outq = f :: fs) (hcalm : (c.sg h).signPhase = .init → (pipe x q).countP isAsk ≤ 1)
    (hlost : isRound f = true → Free c.sessions h) :
    Serving core pub h c { x with outq := fs } q := by
  have hset := settled_popped fs hs.settled
  have hups : ∀ g ∈ fs, upFrame g.type = true := fun g hg =>
    hs.ups g (by rw [ho]; exact List.mem_cons_of_mem _ hg)
  have hcons := pipe_cons ho q
  by_cases htok : isToken f = true
  · rw [if_pos htok] at hcons
    refine hs.swap (A := []) (G := []) hset hups hs.frames hcons rfl (Nat.zero_le _) (by simp)
      (by simp) hcalm fun k hk hmem hdue => ?_
    exact absurd hmem (hlost hdue.round k hk)
  · rw [if_neg htok] at hcons
    exact hs.same hset hups hs.frames hcons.symm

/-- A `COMMIT` that is taken was the last frame under way. -/
theorem Serving.accept (hs : Serving core pub h c x q) {f : Frame} {fs : List Frame}
    (ho : x.outq = f :: fs) (ht : f.type = .commit)
    (hcalm : (c.sg h).signPhase = .init → (pipe x q).countP isAsk ≤ 1)
    (htake : TakesCommit c h f) :
    Serving core pub h (storeCommit c h f) { x with outq := fs } q := by
  have hinit : (c.sg h).signPhase = .init := htake.phase.resolve_right hs.phase.1
  have hpop := hs.popped ho hcalm fun hr => by
    unfold isRound at hr
    rw [ht] at hr
    cases hr
  have hsg : (storeCommit c h f).sg h =
      { c.sg h with commit := f.payload, commitSig := f.sig, signPhase := .committed } :=
    Coord.setSg_self ..
  have hp : ((storeCommit c h f).sg h).signPhase = .committed := by rw [hsg]
  have hfree : Free c.sessions h :=
    hs.free (by simp [hinit]) (by simp [hinit])
  have hnil : pipe { x with outq := fs } q = [] := by
    have hcons := pipe_cons ho q
    have hask : isAsk f = true := by simp [isAsk, isCommit, ht]
    rw [if_pos (by unfold isToken; rw [ht])] at hcons
    have hlast := hs.asked hinit (hcalm hinit)
    rw [hcons] at hlast
    cases hq : pipe { x with outq := fs } q with
    | nil => rfl
    | cons g l =>
      rw [hq] at hlast
      have := hlast f (by simp)
      rw [hask] at this
      cases this
  refine ⟨hpop.settled, hpop.ups, hpop.frames, hs.unlisted, hs.strikes, ?_, fun _ _ => hfree,
    ?_, fun _ => hnil, ?_, fun _ => hnil, fun k hk hmem => absurd hmem (hfree k hk)⟩
  · simp [hp]
  · intro h'; rw [hp] at h'; cases h'
  · intro h'; rw [hp] at h'; cases h'

/-- A failed key load, before the signer has committed. -/
theorem Serving.keyless (hs : Serving core pub h c x q) {f : Frame} {fs : List Frame}
    (ho : x.outq = f :: fs) (ht : f.type = .shareLoadFail)
    (hcalm : (c.sg h).signPhase = .init → (pipe x q).countP isAsk ≤ 1) :
    Serving core pub h (onShareLoadFail c h) { x with outq := fs } q := by
  have hpop := hs.popped ho hcalm fun hr => by
    unfold isRound at hr
    rw [ht] at hr
    cases hr
  have hcons := pipe_cons ho q
  rw [if_pos (by unfold isToken; rw [ht])] at hcons
  have hsg : (onShareLoadFail c h).sg h = { c.sg h with signPhase := .noKey } :=
    Coord.setSg_self ..
  have hp : ((onShareLoadFail c h).sg h).signPhase = .noKey := by rw [hsg]
  have hfree : Free c.sessions h := by
    refine hs.free (fun hi => ?_) fun hsh => ?_
    · rcases hs.inSession hi with e | ⟨g, e, hg⟩
      · rw [hcons] at e; cases e
      · rw [hcons] at e
        obtain ⟨rfl, -⟩ := List.cons.inj e
        rw [ht] at hg
        rcases hg with hg | hg <;> cases hg
    · have e := hs.shared hsh
      rw [hcons] at e
      cases e
  refine ⟨hpop.settled, hpop.ups, hpop.frames, hs.unlisted, hs.strikes, ?_, fun _ _ => hfree,
    ?_, ?_, ?_, ?_, fun k hk hmem => absurd hmem (hfree k hk)⟩
  · simp [hp]
  · intro h'; rw [hp] at h'; cases h'
  · intro h'; rw [hp] at h'; cases h'
  · intro h'; rw [hp] at h'; cases h'
  · intro h'; rw [hp] at h'; cases h'

/-- Where a session is open for `h`, its share is let in and answers for it. -/
theorem Serving.filed (hs : Serving core pub h c x q) (hsig : Signing c) {f : Frame}
    {fs : List Frame} (ho : x.outq = f :: fs) (ht : f.type = .sigShare) {k : Fin maxSessions}
    {slot : Nat} (htgt : ShareTarget c h f k slot) :
    Serving core pub h (fileShare c k slot h f.payload) { x with outq := fs } q := by
  have hmem := List.mem_of_getElem? htgt.slot
  obtain ⟨hid, hm⟩ := hs.member k htgt.open' hmem
  have hcons := pipe_cons ho q
  rw [if_pos (by unfold isToken; rw [ht])] at hcons
  have hsg : (fileShare c k slot h f.payload).sg h = { c.sg h with signPhase := .shared } :=
    Coord.setSg_self ..
  have hp : ((fileShare c k slot h f.payload).sg h).signPhase = .shared := by rw [hsg]
  cases hm with
  | filed phase _ =>
    have e := hs.shared phase
    rw [hcons] at e
    cases e
  | due phase empty g under due =>
    rw [hcons] at under
    obtain ⟨rfl, hnil⟩ := List.cons.inj under
    have hcounts : Counts core pub h (c.sessions k).signingPkg f.payload := by
      rcases due with ⟨e, -⟩ | ⟨-, hc⟩
      · rw [ht] at e; cases e
      · exact hc
    refine ⟨settled_popped _ hs.settled, fun g hg => hs.ups g ?_, hs.frames, hs.unlisted,
      hs.strikes, ?_, fun _ h' => absurd hp h', ?_, ?_, ?_, fun _ => hnil, fun j hj hin => ?_⟩
    · rw [ho]; exact List.mem_cons_of_mem _ hg
    · simp [hp]
    · intro h'; rw [hp] at h'; cases h'
    · intro h'; rw [hp] at h'; cases h'
    · intro h'; rw [hp] at h'; cases h'
    · by_cases e : j = k
      · subst e
        rw [fileShare_session] at hj hin ⊢
        rw [hsg]
        refine ⟨hid, .filed rfl fun i hi => ?_⟩
        -- `h` has one slot
        have hi : (c.sessions j).signerIds[i]? = some h := hi
        have heq : i = slot := by
          have hnd := (hsig.table.members j htgt.open').distinct
          obtain ⟨h1, h2⟩ := List.getElem?_eq_some_iff.mp hi
          obtain ⟨h3, h4⟩ := List.getElem?_eq_some_iff.mp htgt.slot
          exact (List.Nodup.getElem_inj_iff hnd).mp (h2.trans h4.symm)
        subst heq
        show Counts core pub h (c.sessions j).signingPkg
          (Function.update (c.sessions j).shares i f.payload i)
        rw [Function.update_self]
        exact hcounts
      · rw [fileShare_session_of_ne e] at hj hin
        have h1 := (hs.member j hj hin).1
        have hf1 := hsig.table.find hj
        have hf2 := hsig.table.find htgt.open'
        rw [← h1] at hf1
        rw [← hid, hf1] at hf2
        exact absurd (Option.some.inj hf2) e

/-- A share of `h` is refused only where no open session has `h`. -/
theorem Serving.refused (hs : Serving core pub h c x q) (hsig : Signing c) {f : Frame}
    {fs : List Frame} (ho : x.outq = f :: fs) (ht : f.type = .sigShare)
    (hnone : shareTarget c h f = none) : Free c.sessions h := by
  intro k hk hmem
  obtain ⟨hid, hm⟩ := hs.member k hk hmem
  have hcons := pipe_cons ho q
  rw [if_pos (by unfold isToken; rw [ht])] at hcons
  have hsize : f.payload.length ≤ maxPayload := by
    cases hm with
    | filed phase _ =>
      have e := hs.shared phase
      rw [hcons] at e
      cases e
    | due _ _ g under due =>
      rw [hcons] at under
      obtain ⟨rfl, -⟩ := List.cons.inj under
      rcases due with ⟨e, -⟩ | ⟨-, hc⟩
      · rw [ht] at e; cases e
      · exact hc.size
  have hfind : roastFind c (c.sg h).sessionId = some k := by
    rw [hid]
    exact hsig.table.find hk
  unfold shareTarget at hnone
  rw [if_neg (not_not.mpr hsig.mode), if_neg (by omega), hfind] at hnone
  dsimp only at hnone
  rw [if_neg (not_not.mpr hk)] at hnone
  cases hslot : roastSignerSlot (c.sessions k) h with
  | some slot => rw [hslot] at hnone; cases hnone
  | none =>
    have hno := List.findIdx?_eq_none_iff.mp hslot h hmem
    simp at hno

/-- **A frame of `h` itself.** -/
theorem Stands.own {d : List Frame} (hs : Stands core pub h c x d) {f : Frame} {fs : List Frame}
    {env : Coordinator.Env} (hx : c.exited = false) (hi : h ∈ c.signers)
    (ho : x.outq = f :: fs) (hr : ReadsFair core pub h c h f env)
    (hcalm : (c.sg h).signPhase = .init →
      (pipe x (d ++ (c.sg h).msgq)).countP isAsk ≤ 1) :
    Stands core pub h (Coordinator.step c (.frame h f env)) { x with outq := fs } d := by
  have hscope : (others core h 0).env env := ⟨hr.answers, Nat.zero_le _⟩
  have hserv := hs.here hi
  have hsigned {e : Coord} (ht : Coordinator.Taken c (.frame h f env) e) : Signing e :=
    Signing.taken ht hs.signing
  have hquiet (hf : isRound f = true → Free c.sessions h) :
      Stands core pub h c { x with outq := fs } d :=
    ⟨hs.signing, fun _ => hserv.popped ho hcalm hf, hs.away⟩
  by_cases hty : MsgType.signing f.type = true
  · cases e : f.type with
    | commit =>
      rw [step_frame_of_mem hx hi]
      unfold processSignerFrame
      rw [e]
      dsimp only
      rcases onCommit_cases c env h f with e' | ⟨htake, e'⟩
      · rw [e']
        refine hquiet fun hround => ?_
        unfold isRound at hround
        rw [e] at hround
        cases hround
      · rw [e']
        have hsg : (storeCommit c h f).sg h =
            { c.sg h with commit := f.payload, commitSig := f.sig, signPhase := .committed } :=
          Coord.setSg_self ..
        have hstored : Stands core pub h (storeCommit c h f) { x with outq := fs } d := by
          refine ⟨hsigned (.commit hi e htake), fun _ => ?_, fun hout => absurd hi hout⟩
          rw [hsg]
          exact hserv.accept ho e hcalm htake
        exact hstored.chain (tryForm_chain _ hscope)
    | sigShare =>
      refine Stands.share hx hi e hr (fun hnone => ?_) fun k slot htgt => ?_
      · exact hquiet fun _ => hserv.refused hs.signing ho e hnone
      · have hsg : (fileShare c k slot h f.payload).sg h = { c.sg h with signPhase := .shared } :=
          Coord.setSg_self ..
        refine ⟨hsigned (.share hi e htgt), fun _ => ?_, fun hout => absurd hi hout⟩
        rw [hsg]
        exact hserv.filed hs.signing ho e htgt
    | shareLoadFail =>
      rw [step_frame_of_mem hx hi]
      unfold processSignerFrame
      rw [e]
      have hsg : (onShareLoadFail c h).sg h = { c.sg h with signPhase := .noKey } :=
        Coord.setSg_self ..
      refine ⟨hsigned (.keyless hi e), fun _ => ?_, fun hout => absurd hi hout⟩
      show Serving core pub h (onShareLoadFail c h) _ (d ++ ((onShareLoadFail c h).sg h).msgq)
      rw [hsg]
      exact hserv.keyless ho e hcalm
    | _ => rw [e] at hty; cases hty
  · rw [step_frame_of_mem hx hi]
    have hidle := ceremony_idle hs.signing.mode hs.signing.dkgState env h f (by simpa using hty)
    refine Stands.chain (w := 0) (hquiet fun hround => ?_) hidle.chain
    unfold isRound at hround
    have hup := hserv.ups f (by rw [ho]; exact List.mem_cons_self ..)
    cases e : f.type with
    | sigShare => rw [e] at hty; exact absurd rfl hty
    | relayCommit => rw [e] at hup; cases hup
    | _ => rw [e] at hround; cases hround

/-! ## The other events of the coordinator -/

/-- The head of the loop: a restart has emptied the session table before it asks. -/
theorem Stands.head {d : List Frame} (hs : Stands core pub h c x d) {env : TbsEnv}
    (hok : c.roastFail = false → c.signingDone = true → 0 < c.toMint →
      (prepareTbs (advanceSerial c) env).2 = true) : Stands core pub h (loopHead c env) x d := by
  by_cases hmint : c.roastFail = false ∧ c.signingDone = true ∧ 0 < c.toMint
  · have hempty := prepareTbs_clears (hok hmint.1 hmint.2.1 hmint.2.2)
    refine hs.chain (w := 0) (loopHead_chain c env fun id _ => ?_)
    rintro rfl
    rw [hempty]
    intro k hk
    cases hk
  · have hidle : Idle c (loopHead c env) := by
      have hexit (b : Coord) : Idle b (exitIfQuiet b) := by
        unfold exitIfQuiet
        split
        · exact .of_sg_eq rfl rfl rfl rfl rfl rfl rfl rfl rfl (.inl rfl) rfl
        · exact .refl b
      unfold loopHead
      split
      · exact hexit c
      next hf =>
      split
      · next hdone =>
        rw [if_neg fun hpos => hmint ⟨by simpa using hf, hdone.1, hpos⟩]
        exact hexit c
      split
      · exact hexit c
      · exact .refl c
    exact hs.chain (w := 0) hidle.chain

/-- The share of `h` is there in every overdue session of `h`. -/
def InTime (h now : Nat) (c : Coord) : Prop :=
  ∀ k, (c.sessions k).state = .awaitingShares → (c.sessions k).deadline ≤ now →
    ∀ i, (c.sessions k).signerIds[i]? = some h → (c.sessions k).shares i ≠ []

/-- **The scan for expired sessions.** -/
theorem Stands.scan {d : List Frame} (hs : Stands core pub h c x d) {now : Nat}
    {env : Fin maxSessions → Coordinator.Env}
    (henv : ∀ k, core.Answers (env k) ∧ now ≤ (env k).now) (hin : InTime h now c) :
    Stands core pub h (roastExpireSessions c now env) x d := by
  refine Stands.chain (w := now) hs (roastExpireSessions_chain
    (fun b => Stands core pub h b x d ∧ InTime h now b) (fun b b' hl hi => ?_)
    (fun b k hi hk hdl => ⟨fun p hp hlen => ?_, fun id hid => ?_⟩) henv ⟨hs, hin⟩)
  · refine ⟨hi.1.link hl, fun k hk hdl => ?_⟩
    -- a session formed in the scan is due later
    rcases hl.opened with hno | ⟨env', j, spkg, wire, hE, hf, rfl⟩
    · have e := hno k hk
      rw [e] at hk hdl ⊢
      exact hi.2 k hk hdl
    · obtain ⟨hself, hother⟩ := openSession_sessions b j (chooseSigners b) spkg wire env'.now
      have hclock : now ≤ env'.now := hE.2
      by_cases e : k = j
      · subst e
        rw [hself] at hdl
        have : env'.now + sessionTimeout ≤ now := hdl
        unfold sessionTimeout at this
        omega
      · rw [hother k e] at hk hdl ⊢
        exact hi.2 k hk hdl
  · rintro rfl
    have hslot := List.mem_zipIdx_iff_getElem?.mp hp
    exact hi.2 k hk hdl p.2 hslot (List.length_eq_zero_iff.mp hlen)
  · rintro rfl
    exact hi.1.free_closed hk hid

/-- A `HELLO` that cannot register `h`. -/
theorem Stands.hello {d : List Frame} (hs : Stands core pub h c x d) {env : HelloEnv}
    (hown : env.identityOk h = false) (payload : Bytes) :
    Stands core pub h (Coordinator.step c (.hello env payload)) x d := by
  have hsame (k : Fin maxSessions) (hk : (c.sessions k).state = .awaitingShares) :
      SameFor h (c.sessions k) (c.sessions k) := .refl hk
  cases hx : c.exited with
  | true => rw [step_exited hx]; exact hs
  | false =>
  rw [step_hello hx]
  rcases onHello_taken c env payload with e | ⟨pid, pn, pt, hp, hnt, e | ⟨hreg, e⟩⟩
  · rw [e]; exact hs
  · rw [e]
    have htaken : Coordinator.Taken c (.hello env payload) { c with n := pn, t := pt } :=
      .claim hp hnt
    exact hs.aside (Signing.taken htaken hs.signing) Iff.rfl rfl rfl rfl hsame
  · have hne : h ≠ pid := by
      rintro rfl
      have := hreg.identity
      rw [hown] at this
      cases this
    have hm : ({ c with n := pn, t := pt } : Coord).mode = .sign := hs.signing.mode
    have hsg := promote_sg_of_ne hm hne
    obtain ⟨_, hshape⟩ := promote_shape hm pid
    rw [e]
    refine hs.aside (Signing.taken (.signer hp hnt hreg) hs.signing) ?_ (by rw [hshape])
      (by rw [hshape]) hsg fun k hk => ?_
    · rw [promote_signers]
      exact ⟨fun hin => List.mem_of_ne_of_mem hne hin, List.mem_cons_of_mem _⟩
    · rw [hshape] at hk ⊢
      exact .refl hk

/-- Another signer is gone. -/
theorem Stands.gone {d : List Frame} (hs : Stands core pub h c x d) {i : Nat} (hne : i ≠ h) :
    Stands core pub h (Coordinator.step c (.disconnect i)) x d := by
  cases hx : c.exited with
  | true => rw [step_exited hx]; exact hs
  | false =>
  rw [step_disconnect hx]
  split
  · next hi =>
    refine hs.aside (Signing.taken (.gone hi) hs.signing) ?_ rfl rfl rfl fun k hk => .refl hk
    simp [removeSigner, Ne.symm hne]
  · exact hs

/-- **Signer `h` registers**: the acknowledgement and a request are under way. -/
theorem Stands.enter (hs : Stands core pub h c x []) (hout : h ∉ c.signers) {f : Frame}
    {fs : List Frame} (hj : Joining h x) (ho : x.outq = f :: fs) (env : HelloEnv) :
    Stands core pub h (Coordinator.step c (.hello env f.payload)) { x with outq := fs } [] := by
  have habs := hs.away hout
  have hpop : Stands core pub h c { x with outq := fs } [] :=
    ⟨hs.signing, fun hin => absurd hin hout, hs.away⟩
  obtain ⟨n, t, hargs, -, hpay, hset⟩ := hj f (by rw [ho]; exact List.mem_cons_self ..)
  cases hx : c.exited with
  | true => rw [step_exited hx]; exact hpop
  | false =>
  rw [step_hello hx]
  rcases onHello_taken c env f.payload with e | ⟨pid, pn, pt, hp, hnt, hcase⟩
  · rw [e]; exact hpop
  have hp' := hp
  rw [hpay, parseHello_helloText hargs] at hp'
  cases hp'
  rcases hcase with e | ⟨hreg, e⟩
  · rw [e]
    have htaken : Coordinator.Taken c (.hello env f.payload) { c with n := n, t := t } :=
      .claim hp hnt
    exact hpop.aside (Signing.taken htaken hs.signing) Iff.rfl rfl rfl rfl fun k hk => .refl hk
  · have hm : ({ c with n := n, t := t } : Coord).mode = .sign := hs.signing.mode
    have hself := promote_sg hm h
    obtain ⟨_, hshape⟩ := promote_shape hm h
    have hsig := Signing.taken (.signer hp hnt hreg) hs.signing
    rw [e]
    generalize hd : promote { c with n := n, t := t } h = d at hself hshape hsig
    have hph : (d.sg h).signPhase = .init := by rw [hself]; rfl
    have hses : d.sessions = c.sessions := by rw [hshape]
    have hfree : Free d.sessions h := by rw [hses]; exact habs.free
    have hquiet : fs.filter isToken = [] := by
      refine List.filter_eq_nil_iff.mpr fun g hg => ?_
      obtain ⟨_, _, -, htype, -⟩ := hj g (by rw [ho]; exact List.mem_cons_of_mem _ hg)
      unfold isToken
      rw [htype]
      exact Bool.false_ne_true
    have hpipe : pipe { x with outq := fs } ([] ++ (d.sg h).msgq) = (d.sg h).msgq := by
      unfold pipe
      rw [List.nil_append, List.filter_append, hquiet, hself]
      rfl
    refine ⟨hsig, fun _ => ⟨?_, fun g hg => ?_, fun g hg => ?_, ?_, ?_, ?_, fun _ _ => hfree,
      fun _ _ => ?_, ?_, ?_, ?_, fun k hk hmem => absurd hmem (hfree k hk)⟩, fun hno => ?_⟩
    · exact settled_popped _ ⟨n, t, hset⟩
    · obtain ⟨_, _, -, htype, -⟩ := hj g (by rw [ho]; exact List.mem_cons_of_mem _ hg)
      rw [htype]
      rfl
    · rw [hself] at hg
      rcases List.mem_pair.mp hg with rfl | rfl <;> rfl
    · exact (isBlacklisted_congr (by rw [hshape]) h).trans habs.unlisted
    · exact (getStrikes_congr (by rw [hshape]) h).trans habs.strikes
    · simp [hph]
    · rw [hpipe, hself]
      intro g hg
      have hg : g ∈ ([⟨.helloAck, [], ackText h .sign⟩] : List Frame) := by
        have := hs.signing.mode
        simpa [this] using hg
      rw [List.mem_singleton.mp hg]
      rfl
    · intro h'; rw [hph] at h'; cases h'
    · intro h'; rw [hph] at h'; cases h'
    · intro h'; rw [hph] at h'; cases h'
    · refine absurd ?_ hno
      rw [← hd, promote_signers]
      exact List.mem_cons_self ..

/-! ## The signer -/

/-- The signer takes the bundle `f`, and its answer is a valid share for it. -/
def Replies (keys : Keys) (core : Core) (pub : Bytes) (h : Nat) (x : Node) (f : Frame)
    (env : Signer.Env) : Prop :=
  ∃ g, (Signer.step keys x (f, env)).outq = x.outq ++ [g] ∧ g.type = .sigShare ∧
    ∀ b k spkg, unpackCommitBundle f.payload = some (b, k) → core.assemble b = some spkg →
      Counts core pub h spkg g.payload

/-- What stands for `f` once it is processed: nothing, or one frame of the signing rounds. -/
theorem Serving.answer {f : Frame} (hs : Serving core pub h c x (f :: q)) {x' : Node}
    {G : List Frame} (hset : ∃ n t, Settled h n t x') (ho : x'.outq = x.outq ++ G)
    (hups : ∀ g ∈ G, upFrame g.type = true ∧ isToken g = true)
    (htok : G ≠ [] → isToken f = true) (hgs : G.length ≤ 1)
    (hask : ∀ g ∈ G, isAsk g = true → isAsk f = true)
    (hkind : isRound f = true → ∀ g ∈ G, isRound g = true)
    (hcalm : (c.sg h).signPhase = .init → (pipe x (f :: q)).countP isAsk ≤ 1)
    (hdue : ∀ k, (c.sessions k).state = .awaitingShares → h ∈ (c.sessions k).signerIds →
      Due core pub h (c.sessions k).signingPkg f →
      ∃ g, G = [g] ∧ Due core pub h (c.sessions k).signingPkg g) :
    Serving core pub h c x' q := by
  have hups' : ∀ g ∈ x'.outq, upFrame g.type = true := by
    intro g hg
    rw [ho] at hg
    rcases List.mem_append.mp hg with hg | hg
    · exact hs.ups g hg
    · exact (hups g hg).1
  have hframes : ∀ g ∈ q, signFrame g.type = true := fun g hg =>
    hs.frames g (List.mem_cons_of_mem _ hg)
  by_cases hf : isToken f = true
  · have hp : pipe x (f :: q) = x.outq.filter isToken ++ f :: q.filter isToken := by
      unfold pipe
      rw [List.filter_append, List.filter_cons_of_pos hf]
    have hall : G.filter isToken = G := List.filter_eq_self.mpr fun g hg => (hups g hg).2
    have hp' : pipe x' q = x.outq.filter isToken ++ G ++ q.filter isToken := by
      unfold pipe
      rw [ho, List.filter_append, List.filter_append, hall]
    exact hs.swap hset hups' hframes hp hp' hgs hask hkind hcalm hdue
  · have hnil : G = [] := by
      by_contra hne
      exact hf (htok hne)
    subst hnil
    refine hs.same hset hups' hframes ?_
    unfold pipe
    rw [ho, List.append_nil, List.filter_append, List.filter_append, List.filter_cons_of_neg hf]

/-- **The signer processes the next frame of its queue.** -/
theorem Serving.deliver {f : Frame} (hs : Serving core pub h c x (f :: q)) {env : Signer.Env}
    (hcalm : (c.sg h).signPhase = .init → (pipe x (f :: q)).countP isAsk ≤ 1)
    (hreply : f.type = .relayCommit → Replies keys core pub h x f env) :
    Serving core pub h c (Signer.step keys x (f, env)) q := by
  obtain ⟨n, t, hset⟩ := hs.settled
  obtain ⟨hset', hre⟩ := step_reaction keys env hset (hs.frames f (List.mem_cons_self ..))
  have hset' : ∃ n t, Settled h n t (Signer.step keys x (f, env)) := ⟨n, t, hset'⟩
  by_cases hrelay : f.type = .relayCommit
  · obtain ⟨g, ho, hg, hcounts⟩ := hreply hrelay
    refine hs.answer hset' ho ?_ (fun _ => by unfold isToken; rw [hrelay]) (Nat.le_refl 1) ?_ ?_
      hcalm fun k hk hmem hdue => ⟨g, rfl, ?_⟩
    · intro g' hg'
      rw [List.mem_singleton.mp hg']
      exact ⟨by unfold upFrame; rw [hg], by unfold isToken; rw [hg]⟩
    · intro g' hg' hask
      rw [List.mem_singleton.mp hg'] at hask
      simp [isAsk, isReq, isCommit, hg] at hask
    · intro _ g' hg'
      rw [List.mem_singleton.mp hg']
      unfold isRound
      rw [hg]
    · rcases hdue with ⟨-, b, m, hun, hasm⟩ | ⟨e, -⟩
      · exact .inr ⟨hg, hcounts b m _ hun hasm⟩
      · rw [hrelay] at e; cases e
  have hround : isRound f = false := by
    have hdown := hs.frames f (List.mem_cons_self ..)
    unfold isRound
    cases e : f.type with
    | relayCommit => exact absurd e hrelay
    | sigShare => rw [e] at hdown; cases hdown
    | _ => rfl
  have hkind {gs : List Frame} : isRound f = true → ∀ g ∈ gs, isRound g = true := by
    rw [hround]
    exact fun h' => by cases h'
  have hdue {gs : List Frame} (k : Fin maxSessions)
      (hd : Due core pub h (c.sessions k).signingPkg f) :
      ∃ g, gs = [g] ∧ Due core pub h (c.sessions k).signingPkg g := by
    have := hd.round
    rw [hround] at this
    cases this
  have hnone (ho : (Signer.step keys x (f, env)).outq = x.outq) :
      Serving core pub h c (Signer.step keys x (f, env)) q :=
    hs.answer (G := []) hset' (by rw [ho, List.append_nil]) (by simp) (fun h' => absurd rfl h')
      (Nat.zero_le 1) (by simp) hkind hcalm fun k _ _ hd => hdue k hd
  -- a failed key load answers an acknowledgement or a request
  have hfails (hf : Fails x (Signer.step keys x (f, env))) (htok : isToken f = true) :
      Serving core pub h c (Signer.step keys x (f, env)) q := by
    rcases hf with ho | ⟨g, ho, hg⟩
    · exact hnone ho
    · refine hs.answer hset' ho ?_ (fun _ => htok) (Nat.le_refl 1) ?_ hkind hcalm
        fun k _ _ hd => hdue k hd
      · intro g' hg'
        rw [List.mem_singleton.mp hg']
        exact ⟨by unfold upFrame; rw [hg], by unfold isToken; rw [hg]⟩
      · intro g' hg' hask
        rw [List.mem_singleton.mp hg'] at hask
        simp [isAsk, isReq, isCommit, hg] at hask
  cases hre with
  | quiet _ _ hq =>
    rcases hq with ho | ⟨hack, hf⟩
    · exact hnone ho
    · exact hfails hf (by unfold isToken; rw [hack])
  | commit ht _ ho =>
    refine hs.answer hset' ho ?_ (fun _ => by unfold isToken; rw [ht]) (Nat.le_refl 1) ?_ hkind
      hcalm fun k _ _ hd => hdue k hd
    · intro g' hg'
      rw [List.mem_singleton.mp hg']
      exact ⟨rfl, rfl⟩
    · intro _ _ _
      simp [isAsk, isReq, ht]
  | refused ht hf => exact hfails hf (by unfold isToken; rw [ht])
  | share ht _ => exact absurd ht hrelay

/-! ## The system -/

/-- What is asked of the environment in a step. -/
def FairTo (keys : Keys) (core : Core) (pub : Bytes) (h : Nat) (s : Sys) : Event → Prop
  | .loopHead env => s.coord.roastFail = false → s.coord.signingDone = true → 0 < s.coord.toMint →
      (prepareTbs (advanceSerial s.coord) env).2 = true
  | .expire now env => (∀ k, core.Answers (env k) ∧ now ≤ (env k).now) ∧ InTime h now s.coord
  | .deliver i env => i = h → ∀ f fs, s.down h = f :: fs → (s.node h).exited = false →
      f.type = .relayCommit → Replies keys core pub h (s.node h) f env
  | .receive i _ env => ∀ f fs, (s.node i).outq = f :: fs → ReadsFair core pub h s.coord i f env
  | .forge i f _ env => i ≠ h ∧ ReadsFair core pub h s.coord i f env
  | _ => True

/-- Signer `h` does its part: it stays connected, is asked once for each commitment, and
the step is fair to it. -/
structure DoesPart (keys : Keys) (core : Core) (pub : Bytes) (h : Nat) (s : Sys) (e : Event) :
    Prop where
  stays : h ∈ s.coord.signers → h ∈ (step keys s e).coord.signers
  calm : h ∈ s.coord.signers → Live s.coord h → s.unanswered h ≤ 1
  fair : FairTo keys core pub h s e

structure Kept (core : Core) (pub : Bytes) (h : Nat) (s : Sys) : Prop where
  stands : Stands core pub h s.coord (s.node h) (s.down h)
  idle : h ∉ s.coord.signers → s.down h = [] ∧ Joining h (s.node h)

/-- The requests and answers under way are those of the pipe. -/
theorem Serving.asks (hs : Serving core pub h c x q) :
    (pipe x q).countP isAsk = q.countP isReq + x.outq.countP isCommit := by
  have htok (f : Frame) (hf : isAsk f = true) : isToken f = true := by
    simp only [isAsk, isReq, isCommit, Bool.or_eq_true, decide_eq_true_eq] at hf
    unfold isToken
    rcases hf with e | e <;> rw [e]
  have hfilter (l : List Frame) : (l.filter isToken).countP isAsk = l.countP isAsk := by
    rw [List.countP_filter]
    refine List.countP_congr fun f _ => ?_
    simp only [Bool.and_eq_true, and_iff_left_iff_imp]
    exact htok f
  have hup : x.outq.countP isAsk = x.outq.countP isCommit := by
    refine List.countP_congr fun f hf => ?_
    have hf := hs.ups f hf
    unfold isAsk isReq isCommit
    cases e : f.type with
    | signReq => rw [e] at hf; cases hf
    | _ => simp
  have hdown : q.countP isAsk = q.countP isReq := by
    refine List.countP_congr fun f hf => ?_
    have hf := hs.frames f hf
    unfold isAsk isReq isCommit
    cases e : f.type with
    | commit => rw [e] at hf; cases hf
    | _ => simp
  unfold pipe
  rw [hfilter, List.countP_append, hup, hdown]
  omega

theorem Kept.calm (hk : Kept core pub h s) (hi : h ∈ s.coord.signers)
    (hcalm : Live s.coord h → s.unanswered h ≤ 1)
    (hp : (s.coord.sg h).signPhase = .init) :
    (pipe (s.node h) (s.down h ++ (s.coord.sg h).msgq)).countP isAsk ≤ 1 := by
  have hserv := hk.stands.here hi
  rw [hserv.asks]
  exact hcalm ⟨hserv.unlisted, .inl hp⟩

/-! ## Steps of others -/

theorem mem_signers_frame (c : Coord) (j i : Nat) (f : Frame) (env : Coordinator.Env) :
    j ∈ (Coordinator.step c (.frame i f env)).signers ↔ j ∈ c.signers := by
  have hv : rosterView (Coordinator.step c (.frame i f env)) = rosterView c := step_rosterView rfl
  rw [show (Coordinator.step c (.frame i f env)).signers = c.signers from
    congrArg (fun v => v.2.1) hv]

theorem mem_signers_hello {env : HelloEnv} (hown : env.identityOk h = false) (payload : Bytes) :
    h ∈ (Coordinator.step c (.hello env payload)).signers ↔ h ∈ c.signers := by
  cases hx : c.exited with
  | true => rw [step_exited hx]
  | false =>
    rw [step_hello hx]
    rcases onHello_taken c env payload with e | ⟨pid, pn, pt, -, -, e | ⟨hreg, e⟩⟩
    · rw [e]
    · rw [e]
    · have hne : h ≠ pid := by
        rintro rfl
        have := hreg.identity
        rw [hown] at this
        cases this
      rw [e, promote_signers]
      simp [hne]

theorem mem_signers_gone {i : Nat} (hne : i ≠ h) :
    h ∈ (Coordinator.step c (.disconnect i)).signers ↔ h ∈ c.signers := by
  cases hx : c.exited with
  | true => rw [step_exited hx]
  | false =>
    rw [step_disconnect hx]
    split
    · simp [removeSigner, Ne.symm hne]
    · rfl

/-- The process and the channel of `h` are as they were. -/
theorem Kept.beside (hk : Kept core pub h s) {s' : Sys}
    (hs : Stands core pub h s'.coord (s.node h) (s.down h)) (hn : s'.node h = s.node h)
    (hd : s'.down h = s.down h) (hmem : h ∈ s'.coord.signers ↔ h ∈ s.coord.signers) :
    Kept core pub h s' := by
  refine ⟨by rw [hn, hd]; exact hs, fun hout => ?_⟩
  rw [hn, hd]
  exact hk.idle fun hin => hout (hmem.mpr hin)

theorem Kept.setNode (hk : Kept core pub h s) {i : Nat} (hne : i ≠ h) (y : Node) :
    Kept core pub h (s.setNode i y) :=
  hk.beside hk.stands (Function.update_of_ne (Ne.symm hne) ..) rfl Iff.rfl

/-- The connection of another signer ends. -/
theorem Kept.drop (hk : Kept core pub h s) {i : Nat} (hne : i ≠ h) :
    Kept core pub h (s.drop i) := by
  unfold Sys.drop
  split
  · exact hk.setNode hne _
  · exact hk.beside (hk.stands.gone hne) (Function.update_of_ne (Ne.symm hne) ..)
      (Function.update_of_ne (Ne.symm hne) ..) (mem_signers_gone hne)

/-- The coordinator reads a frame of another signer. -/
theorem Kept.read (hk : Kept core pub h s) {i : Nat} (hne : i ≠ h) {f : Frame} (hello : HelloEnv)
    {env : Coordinator.Env} (hr : ReadsFair core pub h s.coord i f env) :
    Kept core pub h (s.read i f hello env) := by
  unfold Sys.read
  split; · exact hk
  split; · exact hk.drop hne
  split
  · exact hk.beside (hk.stands.other hne hr) rfl rfl (mem_signers_frame ..)
  unfold Sys.stage
  split
  · have hown : (ownId i hello).identityOk h = false := by
      simp [ownId, Ne.symm hne]
    have hread : Kept core pub h
        { s with coord := Coordinator.step s.coord (.hello (ownId i hello) f.payload) } :=
      hk.beside (hk.stands.hello hown f.payload) rfl rfl (mem_signers_hello hown f.payload)
    dsimp only
    split
    · exact hread
    · exact hread.setNode hne _
  · exact hk.setNode hne _

/-! ## Steps of the signer -/

theorem Serving.stopped (hs : Serving core pub h c x q) : Serving core pub h c (stopNode x) q := by
  obtain ⟨n, t, h1⟩ := hs.settled
  exact hs.same ⟨n, t, h1.myId, h1.n, h1.t, h1.r2Secret, h1.commit⟩ hs.ups hs.frames rfl

theorem Joining.stopped {i : Nat} (hj : Joining i x) : Joining i (stopNode x) := by
  intro f hf
  obtain ⟨n, t, h1, h2, h3, h4⟩ := hj f hf
  exact ⟨n, t, h1, h2, h3, h4.myId, h4.n, h4.t, h4.r2Secret, h4.commit⟩

/-- The process of `h` stops where it is. -/
theorem Kept.stop (hk : Kept core pub h s) :
    Kept core pub h (s.setNode h (stopNode (s.node h))) := by
  have hn : (s.setNode h (stopNode (s.node h))).node h = stopNode (s.node h) :=
    Function.update_self ..
  refine ⟨?_, fun hout => ?_⟩
  · rw [hn]
    exact ⟨hk.stands.signing, fun hin => (hk.stands.here hin).stopped, hk.stands.away⟩
  · rw [hn]
    exact ⟨(hk.idle hout).1, (hk.idle hout).2.stopped⟩

/-- The connection of `h` ends, before it is registered. -/
theorem Kept.leave (hk : Kept core pub h s) (hx : s.coord.exited = false)
    (hstay : h ∈ s.coord.signers → h ∈ (s.drop h).coord.signers) : Kept core pub h (s.drop h) := by
  have hcoord : (s.drop h).coord = Coordinator.step s.coord (.disconnect h) := by
    unfold Sys.drop
    rw [hx]
    rfl
  by_cases hin : h ∈ s.coord.signers
  · have := hstay hin
    rw [hcoord, step_disconnect hx, if_pos hin] at this
    simp [removeSigner] at this
  · have hsame : (s.drop h).coord = s.coord := by
      rw [hcoord, step_disconnect hx, if_neg hin]
    refine ⟨?_, fun _ => ?_⟩
    · rw [hsame]
      exact ⟨hk.stands.signing, fun h' => absurd h' hin, hk.stands.away⟩
    · unfold Sys.drop
      rw [hx]
      refine ⟨Function.update_self .., ?_⟩
      show Joining h (Function.update s.node h _ h)
      rw [Function.update_self]
      exact nofun

/-- **The coordinator reads a frame of `h`.** -/
theorem Kept.receive (hk : Kept core pub h s) (hx : s.coord.exited = false) {hello : HelloEnv}
    {env : Coordinator.Env} (hd : DoesPart keys core pub h s (.receive h hello env)) :
    Kept core pub h (step keys s (.receive h hello env)) := by
  have hfair : ∀ f fs, (s.node h).outq = f :: fs → ReadsFair core pub h s.coord h f env := hd.fair
  have hstay := hd.stays
  rw [step] at hstay ⊢
  cases ho : (s.node h).outq with
  | nil => exact hk
  | cons f fs =>
    rw [ho] at hstay
    dsimp only at hstay ⊢
    have hnode : (s.setNode h { s.node h with outq := fs }).node h = { s.node h with outq := fs } :=
      Function.update_self ..
    by_cases hin : h ∈ s.coord.signers
    · unfold Sys.read at hstay ⊢
      rw [if_neg (show ¬ (s.setNode h _).coord.exited = true by simp [Sys.setNode, hx])] at hstay ⊢
      split at hstay
      · -- an oversize frame would have cost `h` its connection
        have hgone := hstay hin
        unfold Sys.drop at hgone
        rw [if_neg (show ¬ (s.setNode h _).coord.exited = true by simp [Sys.setNode, hx])] at hgone
        have hgone : h ∈ (Coordinator.step s.coord (.disconnect h)).signers := hgone
        rw [step_disconnect hx, if_pos hin] at hgone
        simp [removeSigner] at hgone
      · next hsize =>
        rw [if_neg hsize, if_pos (show h ∈ (s.setNode h _).coord.signers from hin)]
        have hown := hk.stands.own hx hin ho (hfair f fs ho) (hk.calm hin (hd.calm hin))
        refine ⟨?_, fun hout => absurd ?_ hout⟩
        · show Stands core pub h _ ((s.setNode h { s.node h with outq := fs }).node h) (s.down h)
          rw [hnode]
          exact hown
        · exact (mem_signers_frame ..).mpr hin
    · obtain ⟨hdown, hjoin⟩ := hk.idle hin
      have hpop : Kept core pub h (s.setNode h { s.node h with outq := fs }) := by
        refine ⟨⟨hk.stands.signing, fun h' => absurd h' hin, hk.stands.away⟩, fun _ =>
          ⟨hdown, ?_⟩⟩
        rw [hnode]
        intro g hg
        obtain ⟨n, t, h1, h2, h3, h4⟩ := hjoin g (by rw [ho]; exact List.mem_cons_of_mem _ hg)
        exact ⟨n, t, h1, h2, h3, h4.myId, h4.n, h4.t, h4.r2Secret, h4.commit⟩
      unfold Sys.read
      rw [if_neg (show ¬ (s.setNode h _).coord.exited = true by simp [Sys.setNode, hx])]
      split
      · exact hpop.leave hx fun h' => absurd h' hin
      rw [if_neg (show ¬ h ∈ (s.setNode h _).coord.signers from hin)]
      obtain ⟨n, t, -, htype, -, -⟩ := hjoin f (by rw [ho]; exact List.mem_cons_self ..)
      unfold Sys.stage
      rw [if_pos htype]
      dsimp only
      have henter : Stands core pub h (Coordinator.step s.coord (.hello (ownId h hello) f.payload))
          { s.node h with outq := fs } [] := by
        have hst := hk.stands
        rw [hdown] at hst
        exact hst.enter hin hjoin ho (ownId h hello)
      have hread : Kept core pub h { s.setNode h { s.node h with outq := fs } with
          coord := Coordinator.step s.coord (.hello (ownId h hello) f.payload) } := by
        refine ⟨?_, fun _ => hpop.idle hin⟩
        show Stands core pub h _ ((s.setNode h { s.node h with outq := fs }).node h) (s.down h)
        rw [hnode, hdown]
        exact henter
      split
      · exact hread
      · exact hread.stop

/-- **The signer processes a frame.** -/
theorem Kept.deliver (hk : Kept core pub h s) {env : Signer.Env}
    (hd : DoesPart keys core pub h s (.deliver h env)) :
    Kept core pub h (step keys s (.deliver h env)) := by
  have hfair : h = h → ∀ f fs, s.down h = f :: fs → (s.node h).exited = false →
      f.type = .relayCommit → Replies keys core pub h (s.node h) f env := hd.fair
  rw [step]
  cases hq : s.down h with
  | nil => exact hk
  | cons f fs =>
    dsimp only
    split
    · exact hk
    next hrun =>
    have hin : h ∈ s.coord.signers := by
      by_contra hin
      rw [(hk.idle hin).1] at hq
      cases hq
    have hserv := hk.stands.here hin
    have hcalm := hk.calm hin (hd.calm hin)
    rw [hq, List.cons_append] at hserv hcalm
    have hnode : ((s.setNode h (Signer.step keys (s.node h) (f, env))).setDown h fs).node h =
        Signer.step keys (s.node h) (f, env) := Function.update_self ..
    have hdown : ((s.setNode h (Signer.step keys (s.node h) (f, env))).setDown h fs).down h = fs :=
      Function.update_self ..
    refine ⟨⟨hk.stands.signing, fun _ => ?_, hk.stands.away⟩, fun hout => absurd hin hout⟩
    rw [hnode, hdown]
    exact hserv.deliver hcalm (hfair rfl f fs hq (by simpa using hrun))

/-- A frame leaves the coordinator, for `h` or another. -/
theorem Kept.write (hk : Kept core pub h s) (i : Nat) :
    Kept core pub h (step keys s (.write i)) := by
  rw [step]
  split
  · exact hk
  next f fs hq =>
  split
  · exact hk
  next hg =>
  simp only [Bool.or_eq_true, decide_eq_true_eq, not_or, not_not] at hg
  obtain ⟨hx, hi⟩ := hg
  rw [step_drain_of_mem (Bool.eq_false_of_not_eq_true hx) hi]
  have hsig : Signing (drainSignerWrite s.coord i) := Signing.taken (.drained hi) hk.stands.signing
  by_cases hne : i = h
  · subst hne
    have hsg := drainSignerWrite_self hq
    refine ⟨⟨hsig, fun _ => ?_, fun hout => absurd hi hout⟩, fun hout => absurd hi hout⟩
    show Serving core pub i (drainSignerWrite s.coord i) (s.node i)
      (Function.update s.down i (s.down i ++ [f]) i ++ ((drainSignerWrite s.coord i).sg i).msgq)
    have hserv := hk.stands.here hi
    -- the frame moves from one half of the queue to the other
    have hqueue : s.down i ++ [f] ++ ((drainSignerWrite s.coord i).sg i).msgq =
        s.down i ++ (s.coord.sg i).msgq ++ [] := by
      rw [hsg, hq]
      simp
    rw [Function.update_self, hqueue]
    exact hserv.quiet (by simp) hserv.unlisted hserv.strikes (fun _ _ => rfl) (by rw [hsg]; rfl)
  · refine hk.beside (hk.stands.aside hsig Iff.rfl rfl rfl ?_ fun k hk => .refl hk) rfl
      (Function.update_of_ne (Ne.symm hne) ..) Iff.rfl
    show (drainSignerWrite s.coord i).sg h = s.coord.sg h
    exact Coord.setSg_of_ne (Ne.symm hne) _

theorem Kept.launch (hk : Kept core pub h s) (i n t : Nat) :
    Kept core pub h (step keys s (.launch i n t)) := by
  show Kept core pub h (if Args i n t ∧ (s.node i).exited ∧ i ∉ s.coord.signers then _ else s)
  split
  · next hg =>
    obtain ⟨hargs, -, hout⟩ := hg
    by_cases hne : i = h
    · subst hne
      refine ⟨⟨hk.stands.signing, fun h' => absurd h' hout, hk.stands.away⟩, fun _ =>
        ⟨Function.update_self .., ?_⟩⟩
      show Joining i (Function.update s.node i _ i)
      rw [Function.update_self]
      intro f hf
      rw [List.mem_singleton.mp hf]
      exact ⟨n, t, hargs, rfl, rfl, rfl, rfl, rfl, rfl, Nat.zero_le _⟩
    · exact hk.beside hk.stands (Function.update_of_ne (Ne.symm hne) ..)
        (Function.update_of_ne (Ne.symm hne) ..) Iff.rfl
  · exact hk

/-! ## Every step, and every run -/

/-- **A step in which `h` does its part.** -/
theorem Kept.next (hk : Kept core pub h s) (hx : s.coord.exited = false) {e : Event}
    (hd : DoesPart keys core pub h s e) : Kept core pub h (step keys s e) := by
  have hfair := hd.fair
  cases e with
  | loopHead env =>
    have hstep : (step keys s (.loopHead env)).coord = loopHead s.coord env := step_loopHead hx env
    have hv : rosterView (step keys s (.loopHead env)).coord = rosterView s.coord := by
      rw [hstep]
      exact loopHead_rosterView env
    refine hk.beside ?_ rfl rfl ?_
    · rw [hstep]
      exact hk.stands.head hfair
    · rw [show (step keys s (.loopHead env)).coord.signers = s.coord.signers from
        congrArg (fun v => v.2.1) hv]
  | expire now env =>
    have hstep : (step keys s (.expire now env)).coord =
        if s.coord.mode = .sign ∧ s.coord.signingDone = false then
          roastExpireSessions s.coord now env else s.coord := step_expire hx now env
    have hv : rosterView (step keys s (.expire now env)).coord = rosterView s.coord :=
      step_rosterView rfl
    refine hk.beside ?_ rfl rfl ?_
    · rw [hstep]
      split
      · exact hk.stands.scan hfair.1 hfair.2
      · exact hk.stands
    · rw [show (step keys s (.expire now env)).coord.signers = s.coord.signers from
        congrArg (fun v => v.2.1) hv]
  | launch i n t => exact hk.launch i n t
  | write i => exact hk.write i
  | deliver i env =>
    by_cases hne : i = h
    · subst hne
      exact hk.deliver hd
    · rw [step]
      split
      · exact hk
      split
      · exact hk
      · exact hk.beside hk.stands (Function.update_of_ne (Ne.symm hne) ..)
          (Function.update_of_ne (Ne.symm hne) ..) Iff.rfl
  | receive i hello env =>
    by_cases hne : i = h
    · subst hne
      exact hk.receive hx hd
    · rw [step]
      split
      · exact hk
      · next f fs ho => exact (hk.setNode hne _).read hne hello (hfair f fs ho)
  | forge i f hello env => exact hk.read hfair.1 hello hfair.2
  | leave i =>
    by_cases hne : i = h
    · subst hne
      exact hk.leave hx hd.stays
    · exact hk.drop hne

theorem boot_kept (h0 : Started c) (hm : c.mode = .sign) (core : Core) (pub : Bytes) (h : Nat) :
    Kept core pub h (Sys.boot c) := by
  have hun := h0.unused
  have hout : h ∉ c.signers := by
    rw [hun.signers]
    exact List.not_mem_nil
  refine ⟨⟨h0.signing hm, fun hin => absurd hin hout, fun _ => ⟨?_, ?_, fun k hk => ?_⟩⟩,
    fun _ => ⟨rfl, nofun⟩⟩
  · show isBlacklisted c h = false
    unfold isBlacklisted
    rw [hun.blacklist]
    rfl
  · show getStrikes c h = 0
    unfold getStrikes
    rw [hun.strikes]
    split <;> rfl
  · have hk : (c.sessions k).state = .awaitingShares := hk
    rw [hun.sessions] at hk
    cases hk

/-- What the coordinator holds against `h`: nothing, and no share that is not valid. -/
structure Clean (core : Core) (pub : Bytes) (h : Nat) (c : Coord) : Prop where
  unlisted : isBlacklisted c h = false
  strikes : getStrikes c h = 0
  shares : ∀ k, (c.sessions k).state = .awaitingShares →
    ∀ i, (c.sessions k).signerIds[i]? = some h →
    (c.sessions k).shares i = [] ∨
      core.valid (c.sessions k).signingPkg pub h ((c.sessions k).shares i)

theorem Kept.clean (hk : Kept core pub h s) : Clean core pub h s.coord := by
  obtain ⟨h1, h2⟩ := hk.stands.clean
  refine ⟨h1, h2, fun k hopen i hi => ?_⟩
  cases (hk.stands.member hopen (List.mem_of_getElem? hi)).2.2 with
  | due _ hempty => exact .inl (hempty i hi)
  | filed _ hfiled => exact .inr (hfiled i hi).valid

/-- **A signer that does its part is never struck or blacklisted**, whatever frames the
others send and in whatever order the frames travel, as long as `aggregate` is given the
one package `pub`; and no share filed for it in an open session is other than valid. -/
theorem honest_standing (keys : Keys) (core : Core) (pub : Bytes) (h : Nat) {c₀ : Coord}
    (h₀ : Started c₀) (hm : c₀.mode = .sign) {es : List Event}
    (hes : Along (step keys) (DoesPart keys core pub h) (Sys.boot c₀) es) :
    Clean core pub h (run (step keys) (Sys.boot c₀) es).coord := by
  have hstep (s : Sys) (e : Event)
      (hi : Clean core pub h s.coord ∧ (s.coord.exited = false → Kept core pub h s))
      (hd : DoesPart keys core pub h s e) : Clean core pub h (step keys s e).coord ∧
        ((step keys s e).coord.exited = false → Kept core pub h (step keys s e)) := by
    cases hx : s.coord.exited with
    | true =>
      -- the coordinator is not there to hold anything against anyone
      have hsame : (step keys s e).coord = s.coord := by
        rw [step_coord, coordAfter_exited hx]
      rw [hsame]
      exact ⟨hi.1, fun h' => by rw [hx] at h'; cases h'⟩
    | false =>
      have hk := (hi.2 hx).next hx hd
      exact ⟨hk.clean, fun _ => hk⟩
  have hboot := boot_kept h₀ hm core pub h
  exact (hes.invariant (I := fun s => Clean core pub h s.coord ∧
    (s.coord.exited = false → Kept core pub h s)) hstep ⟨hboot.clean, fun _ => hboot⟩).1

/-! ## A silent signer beside one that does its part -/

def anyCore : Core := ⟨fun _ => some [1], fun _ _ _ _ => True⟩

def lateEnv : Coordinator.Env := { pairEnv with now := sessionTimeout }

/-- Signers 1 and 2 open a session, signer 1 answers its bundle, signer 2 never does. -/
def silentRun : List Event :=
  joinRun 1 2 2 ++ joinRun 2 2 2 ++ handsOver 1 11 ++ handsOver 2 12 ++
    [hearsFrom 1, hearsFrom 2] ++ handsOver 1 0 ++ [hearsFrom 1, .expire sessionTimeout fun _ => lateEnv]

/-- Signer 1 answers the bundle that is next in its queue with a share. -/
def sharesNext (s : Sys) (env : Signer.Env) : Bool :=
  match s.down 1 with
  | [] => true
  | f :: _ => decide (f.type ≠ .relayCommit) ||
    match (Signer.step toyKeys (s.node 1) (f, env)).outq.getLast? with
    | none => false
    | some g => decide ((Signer.step toyKeys (s.node 1) (f, env)).outq = (s.node 1).outq ++ [g] ∧
        g.type = .sigShare ∧ g.payload ≠ [] ∧ g.payload.length ≤ maxPayload)

/-- What is checked of each step: signer 1 shares, no `aggregate` is started, and no session
of signer 1 is overdue without its share. -/
def easyStep (s : Sys) : Event → Bool
  | .deliver i env => decide (i ≠ 1) || sharesNext s env
  | .receive i _ env => match (s.node i).outq with
    | [] => true
    | f :: _ => (aggregateCall s.coord (.frame i f env)).isNone
  | .expire now _ => (List.finRange maxSessions).all fun k =>
      decide ((s.coord.sessions k).state = .awaitingShares ∧
        (s.coord.sessions k).deadline ≤ now →
        ∀ i ∈ List.range (s.coord.sessions k).signerIds.length,
          (s.coord.sessions k).signerIds[i]? = some 1 → (s.coord.sessions k).shares i ≠ [])
  | .forge _ _ _ _ => false
  | .loopHead _ => false
  | _ => true

theorem anyCore_answers (now : Nat) : anyCore.Answers { pairEnv with now := now } :=
  ⟨rfl, fun _ _ h => by cases h⟩

theorem sharesNext_replies {env : Signer.Env} (hs : sharesNext s env = true) {f : Frame}
    {fs : List Frame} (hd : s.down 1 = f :: fs) (ht : f.type = .relayCommit) :
    Replies toyKeys anyCore [1] 1 (s.node 1) f env := by
  unfold sharesNext at hs
  rw [hd] at hs
  dsimp only at hs
  rw [Bool.or_eq_true] at hs
  rcases hs with hs | hs
  · simp [ht] at hs
  · split at hs
    · cases hs
    · next g _ =>
      obtain ⟨ho, hg, hne, hlen⟩ := of_decide_eq_true hs
      exact ⟨g, ho, hg, fun _ _ _ _ _ => ⟨hne, hlen, trivial⟩⟩

theorem easyStep_fair {e : Event} (hs : easyStep s e = true) (he : e ∈ silentRun) :
    FairTo toyKeys anyCore [1] 1 s e := by
  cases e with
  | deliver i env =>
    rintro rfl f fs hd _ ht
    have hs : (decide (1 ≠ 1) || sharesNext s env) = true := hs
    exact sharesNext_replies (by simpa using hs) hd ht
  | receive i hello env =>
    have henv : env = pairEnv := by
      simp only [silentRun, joinRun, handsOver, hearsFrom, List.mem_append, List.mem_cons,
        List.not_mem_nil, or_false, Event.receive.injEq, reduceCtorEq, false_or] at he
      tauto
    subst henv
    intro f fs ho
    refine ⟨anyCore_answers 0, fun k stdin hcall => ?_⟩
    unfold easyStep at hs
    dsimp only at hs
    rw [ho] at hs
    dsimp only at hs
    rw [hcall] at hs
    cases hs
  | expire now env =>
    have henv : now = sessionTimeout ∧ env = fun _ => lateEnv := by
      simp only [silentRun, joinRun, handsOver, hearsFrom, List.mem_append, List.mem_cons,
        List.not_mem_nil, or_false, Event.expire.injEq, reduceCtorEq, false_or] at he
      exact he
    obtain ⟨rfl, rfl⟩ := henv
    refine ⟨fun _ => ⟨anyCore_answers _, Nat.le_refl _⟩, fun k hk hdl i hi => ?_⟩
    have hall := of_decide_eq_true (List.all_eq_true.mp hs k (List.mem_finRange k))
    refine hall ⟨hk, hdl⟩ i (List.mem_range.mpr ?_) hi
    exact (List.getElem?_eq_some_iff.mp hi).1
  | loopHead env => cases hs
  | forge i f hello env => cases hs
  | _ => trivial

theorem honest_standing_run :
    getStrikes (run (step toyKeys) (Sys.boot (signStart 2 2 1)) silentRun).coord 2 = 1 ∧
      Clean anyCore [1] 1 (run (step toyKeys) (Sys.boot (signStart 2 2 1)) silentRun).coord := by
  have hstay : Along (step toyKeys) (fun s e => 1 ∈ s.coord.signers →
      1 ∈ (step toyKeys s e).coord.signers) (Sys.boot (signStart 2 2 1)) silentRun := by
    decide +kernel
  have hcalm : Along (step toyKeys) (fun s _ => 1 ∈ s.coord.signers → Live s.coord 1 →
      s.unanswered 1 ≤ 1) (Sys.boot (signStart 2 2 1)) silentRun := by decide +kernel
  have heasy : Along (step toyKeys) (fun s e => easyStep s e = true)
      (Sys.boot (signStart 2 2 1)) silentRun := by decide +kernel
  have hmem : Along (step toyKeys) (fun _ e => e ∈ silentRun) (Sys.boot (signStart 2 2 1))
      silentRun := .of_mem fun e he _ => he
  have hes := ((hstay.and hcalm).and (heasy.and hmem)).mono
    (D := DoesPart toyKeys anyCore [1] 1) fun s e h =>
      ⟨h.1.1, h.1.2, easyStep_fair h.2.1 h.2.2⟩
  exact ⟨by decide +kernel, honest_standing toyKeys anyCore [1] 1
    (signStart_started (by decide) (by decide) (by decide)) (by decide) hes⟩

end FrostSshCa.System
