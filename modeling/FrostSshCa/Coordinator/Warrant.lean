import FrostSshCa.Coordinator.Blocks
import FrostSshCa.Coordinator.Requests

/-!
# What stands behind a certificate

A certificate is minted from the signature of one session, the template and the TBS of
one request. `Warranted` carries from block to block where each of them came from: the
package of an open session was assembled from the bundle its members were sent, over
the TBS of the current request, and that TBS belongs to the current template.
-/

namespace FrostSshCa.Coordinator

open Lib

/-- What the subprocesses are known to have answered, and the signers to have sent. -/
structure Given where
  template : (serial validAfter validBefore : Nat) → Bytes → Bytes → Prop
  caKey : Vector UInt8 32 → Prop
  assembled : CommitBundle → Bytes → Prop
  aggregated : AggregateInput → Bytes → Prop
  minted : MintInput → Bytes → Prop
  sent : Nat → Bytes → Prop

/-- The answers of the `tbs` and `pubkey` subprocesses are among them. -/
structure Given.Tbs (w : Given) (env : TbsEnv) : Prop where
  template : ∀ serial va vb d raw, env.callTbs serial va vb = .ok d raw →
    w.template serial va vb d raw
  caKey : ∀ key, env.caKey = some key → w.caKey key

/-- And those of the others. -/
structure Given.Env (w : Given) (env : Coordinator.Env) : Prop where
  assembled : ∀ b spkg, env.assemble b = some spkg → w.assembled b spkg
  aggregated : ∀ i sig, env.aggregate i = .sig sig → w.aggregated i sig
  minted : ∀ m cert, env.mint m = some cert → w.minted m cert

/-- All answers during an event, and the share it brings. -/
structure Given.Event (w : Given) (e : Coordinator.Event) : Prop where
  tbs : ∀ env, e = .loopHead env → w.Tbs env
  answered : e.Answered w.Env
  share : ∀ i f env, e = .frame i f env → f.type = .sigShare → w.sent i f.payload

theorem Given.hello (w : Given) (env : HelloEnv) (payload : Bytes) :
    w.Event (.hello env payload) := by
  refine ⟨fun _ h => ?_, trivial, fun _ _ _ h => ?_⟩ <;> cases h

theorem Given.drain (w : Given) (i : Nat) : w.Event (.drain i) := by
  refine ⟨fun _ h => ?_, trivial, fun _ _ _ h => ?_⟩ <;> cases h

theorem Given.disconnect (w : Given) (i : Nat) : w.Event (.disconnect i) := by
  refine ⟨fun _ h => ?_, trivial, fun _ _ _ h => ?_⟩ <;> cases h

theorem Given.Env.frame {w : Given} {env : Coordinator.Env} (h : w.Env env) {i : Nat} {f : Frame}
    (hs : f.type = .sigShare → w.sent i f.payload) : w.Event (.frame i f env) := by
  refine ⟨fun _ h => ?_, h, fun _ _ _ h' hf => ?_⟩
  · cases h
  · cases h'
    exact hs hf

/-- A restart gets its template, its TBS and its key. -/
def RestartsClean (c : Coord) : Event → Prop
  | .loopHead env => c.roastFail = false → c.signingDone = true → c.toMint > 0 →
      (prepareTbs (advanceSerial c) env).2 = true
  | _ => True

/-- The TBS in hand is that of the template, with the CA key in place. -/
structure Requested (w : Given) (dummyCert tbs : Bytes) : Prop where
  call : ∃ serial va vb raw key, w.template serial va vb dummyCert raw ∧ w.caKey key ∧
    tbs = patchTbs raw key

/-- **What stands behind a certificate**: it was minted from `m`, whose signature
`aggregate` gave for `stdin`, with the threshold `t`. The package in it was assembled from
the bundle `b`; the bundle is for the TBS of the template, and the shares are of distinct
members of it, each of which answers for its own. -/
structure Evidence (w : Given) (V : CommitBundle → Nat → Bytes → Prop) (t : Nat) (cert : Bytes)
    (m : MintInput) (stdin : AggregateInput) (b : CommitBundle) : Prop where
  minted : w.minted m cert
  request : Requested w m.dummyCert m.tbsHex
  signature : w.aggregated stdin m.sig64
  sameKey : stdin.pubKeyPkg = m.pubKeyPkg
  threshold : stdin.t = t
  package : w.assembled b stdin.signingPkg
  message : b.tbs = m.tbsHex
  distinct : (stdin.shares.map Prod.fst).Nodup
  members : ∀ p ∈ stdin.shares, p.1 ∈ b.entries.map CommitEntry.id
  shares : ∀ p ∈ stdin.shares, V b p.1 p.2

/-- The bundle a session came from, and the shares it has of it. -/
structure Sealed (w : Given) (V : CommitBundle → Nat → Bytes → Prop) (tbs : Bytes)
    (s : RoastSession) (b : CommitBundle) : Prop where
  package : w.assembled b s.signingPkg
  message : b.tbs = tbs
  members : b.entries.map CommitEntry.id = s.signerIds
  shares : ∀ i id, s.signerIds[i]? = some id → (s.shares i).length ≠ 0 → V b id (s.shares i)

/-- Behind every certificate stands some request and some session. -/
def Certified (w : Given) (V : CommitBundle → Nat → Bytes → Prop) (c : Coord) : Prop :=
  ∀ q ∈ c.certs, ∃ m stdin b, Evidence w V c.t q.2 m stdin b

structure Warranted (w : Given) (V : CommitBundle → Nat → Bytes → Prop)
    (p : Coord × History) : Prop where
  hex : p.1.tbsHex = p.1.tbs
  request : Requested w p.1.dummyCert p.1.tbs
  session : ∀ k, (p.1.sessions k).state = .awaitingShares →
    ∃ b, p.2 k = some b ∧ Sealed w V p.1.tbs (p.1.sessions k) b
  certs : Certified w V p.1
  blank : p.1.n = 0 → p.1.certs = []
  small : p.1.t < 65536

/-- The request in hand and what has been written. -/
def mintView (c : Coord) : Nat × Nat × Bytes × Bytes × Bytes × List (OutputFile × Bytes) :=
  (c.n, c.t, c.tbs, c.tbsHex, c.dummyCert, c.certs)

variable {w : Given} {V : CommitBundle → Nat → Bytes → Prop} {c c' : Coord} {g : History}

/-! ## Blocks that open nothing -/

theorem Warranted.keep {g' : History} (h : Warranted w V (c, g)) (hv : mintView c' = mintView c)
    (hs : ∀ k, (c'.sessions k).state = .awaitingShares →
      ∃ b, g' k = some b ∧ Sealed w V c.tbs (c'.sessions k) b) : Warranted w V (c', g') := by
  simp only [mintView, Prod.mk.injEq] at hv
  obtain ⟨h1, h2, h3, h4, h5, h6⟩ := hv
  refine ⟨?_, ?_, ?_, ?_, ?_, h2 ▸ h.small⟩
  · dsimp only
    rw [h3, h4]
    exact h.hex
  · dsimp only
    rw [h3, h5]
    exact h.request
  · dsimp only
    rw [h3]
    exact hs
  · unfold Certified
    dsimp only
    rw [h6, h2]
    exact h.certs
  · dsimp only
    rw [h1, h6]
    exact h.blank

theorem Warranted.still (h : Warranted w V (c, g)) (hv : mintView c' = mintView c)
    (hs : NoneOpened c c') : Warranted w V (c', g) := by
  refine h.keep hv fun k hk => ?_
  have e := hs k hk
  rw [e] at hk ⊢
  exact h.session k hk

theorem RecOnly.mintView (h : RecOnly c c') : mintView c' = mintView c := by
  obtain ⟨_, _, _, rfl⟩ := h
  rfl

/-! ## A session is opened -/

theorem Warranted.form (h : Warranted w V (c, g)) {env : Env} (hA : w.Env env) :
    Warranted w V (tryForm c env, note g (opening c env).toList) := by
  rcases opening_cases c env with ⟨e, e'⟩ | ⟨k, b, spkg, wire, hf, hb, ha, e', e⟩
  · rw [e, e']
    exact h
  rw [e, e']
  obtain ⟨sg, hshape⟩ := openSession_sgOnly c k (chooseSigners c) spkg wire env.now
  refine h.keep ?_ fun j hj => ?_
  · rw [hshape]
    rfl
  obtain ⟨hk, hne⟩ := openSession_sessions c k (chooseSigners c) spkg wire env.now
  by_cases hjk : j = k
  · subst hjk
    refine ⟨b, Function.update_self .., ?_⟩
    rw [hk]
    refine ⟨hA.assembled b spkg ha, ?_, ?_, fun _ _ _ hlen => absurd rfl hlen⟩
    · exact congrArg CommitBundle.tbs (buildBundle_some hb).2
    · rw [(buildBundle_some hb).2, List.map_map]
      exact List.map_id _
  · rw [hne j hjk] at hj ⊢
    refine (h.session j hj).imp fun b' hb' => ⟨?_, hb'.2⟩
    exact (Function.update_of_ne hjk (some b) g).trans hb'.1

/-! ## A certificate is written -/

theorem aggregateInput_mem {s : RoastSession} {p : Nat × Bytes}
    (h : p ∈ (aggregateInput c s).shares) : ∃ i, slotShare s i = some p := by
  obtain ⟨i, -, hi⟩ := List.mem_filterMap.mp h
  exact ⟨i, hi⟩

/-- The lines of `aggregate` come in the order of the slots. -/
theorem aggregateInput_sublist (c : Coord) (s : RoastSession) :
    ((aggregateInput c s).shares.map Prod.fst).Sublist s.signerIds := by
  have hsub : ∀ l : List Nat, ((l.filterMap fun i =>
      if (s.shares i).length = 0 then none
      else (s.signerIds[i]?).map fun id => (id, s.shares i)).map Prod.fst).Sublist
        (l.filterMap fun i => s.signerIds[i]?) := by
    intro l
    induction l with
    | nil => exact .slnil
    | cons i l ih =>
      rw [List.filterMap_cons, List.filterMap_cons]
      cases hi : s.signerIds[i]? with
      | none =>
        simp only [Option.map_none, ite_self]
        exact ih
      | some id =>
        by_cases hlen : (s.shares i).length = 0
        · simp only [hlen, if_true]
          exact ih.cons _
        · simp only [hlen, if_false, Option.map_some]
          exact ih.cons_cons _
  have h := hsub (List.range s.signerIds.length)
  rw [filterMap_getElem?_range] at h
  exact h

theorem Warranted.evidence (h : Warranted w V (c, g)) (hs : Signing c) {env : Env}
    (hA : w.Env env) {k : Fin maxSessions} (hk : (c.sessions k).state = .awaitingShares)
    {bytes cert : Bytes} (hr : answerOf c env k = .sig bytes)
    (hm : env.mint ⟨c.dummyCert, bytes, c.tbsHex, c.pubKeyPkg⟩ = some cert) :
    ∃ b, Evidence w V c.t cert ⟨c.dummyCert, bytes, c.tbsHex, c.pubKeyPkg⟩
      (aggregateInput c (c.sessions k)) b := by
  obtain ⟨b, -, hseal⟩ := h.session k hk
  refine ⟨b, hA.minted _ _ hm, ?_, hA.aggregated _ _ hr, rfl, rfl, hseal.package, ?_, ?_, ?_, ?_⟩
  · exact h.hex ▸ h.request
  · exact hseal.message.trans h.hex.symm
  · exact (aggregateInput_sublist c _).nodup (hs.table.members k hk).distinct
  · intro p hp
    obtain ⟨i, hi⟩ := aggregateInput_mem hp
    rw [hseal.members]
    exact List.mem_of_getElem? (slotShare_some hi).1
  · intro p hp
    obtain ⟨i, hi⟩ := aggregateInput_mem hp
    obtain ⟨hid, e, hlen⟩ := slotShare_some hi
    rw [e]
    exact hseal.shares i p.1 hid hlen

theorem Warranted.certify (h : Warranted w V (c, g)) (hs : Claimed c) {env : Env}
    (hA : w.Env env) {k : Fin maxSessions} (hk : (c.sessions k).state = .awaitingShares)
    {bytes : Bytes} (hr : answerOf c env k = .sig bytes) :
    Warranted w V (aggregateOk c env k bytes, g) := by
  have hfin : Warranted w V (finishSession c k, g) :=
    h.still rfl (closeSession_noneOpened c k .complete nofun)
  unfold aggregateOk
  cases hm : env.mint ⟨c.dummyCert, bytes, c.tbsHex, c.pubKeyPkg⟩ with
  | none =>
    rw [show callMint (finishSession c k) env bytes = none from congrArg _ hm]
    exact hfin
  | some cert =>
    rw [show callMint (finishSession c k) env bytes =
      some (countCert (finishSession c k) cert) from congrArg _ hm]
    obtain ⟨b, hev⟩ := h.evidence hs.signing hA hk hr hm
    have hcount : Warranted w V (countCert (finishSession c k) cert, g) := by
      refine ⟨hfin.hex, hfin.request, hfin.session, fun q hq => ?_,
        fun h0 => absurd h0 hs.claimed, hfin.small⟩
      rcases List.mem_append.mp hq with hq | hq
      · exact hfin.certs q hq
      · rw [List.mem_singleton.mp hq]
        exact ⟨_, _, b, hev⟩
    obtain ⟨sg, hshape⟩ := broadcast_sgOnly (countCert (finishSession c k) cert) .certOutput []
    dsimp only
    rw [hshape]
    exact hcount.still rfl fun _ _ => rfl

/-! ## Every step -/

theorem warranted_blocks : Blocks w.Env fun p q => Warranted w V p → Warranted w V q where
  refl := fun _ h => h
  trans := fun h h' hp => h' (h hp)
  ceremony := by
    intro c c' g hi hc h
    obtain ⟨_, _, _, _, _, _, rfl⟩ := hc
    exact h.still rfl fun k _ => congrFun hi.sessions k
  form := fun _ hA h => h.form hA
  certify := fun hs hA hk hr _ h => h.certify hs hA hk hr
  abandon := by
    intro c g env k _ _ hk _ h
    refine h.still ?_ (blacklistSession_chain hk (fun _ _ => trivial) fun _ _ => trivial).noneOpened
    have h1 : mintView (blacklistMembers c k) = mintView c :=
      (blacklistMembers_recOnly c k).mintView
    unfold blacklistSession
    dsimp only
    rw [(broadcastSignReq_sgOnly _).recOnly.mintView, ← h1]
    split <;> rfl
  blame := fun {_ _ _ _ x} _ _ hk _ _ _ h => h.still (culpritReset_recOnly _ _ x).mintView
    (culpritReset_chain hk trivial fun _ _ _ => trivial).noneOpened
  decide := fun _ h => h.still rfl fun _ _ => rfl
  expire := fun _ hk h => h.still (expireMembers_recOnly _ _).mintView
    (expireMembers_chain hk (fun _ _ _ => trivial) fun _ _ => trivial).noneOpened

/-- `prepare_tbs` succeeds with both its answers. -/
theorem prepareTbs_true {env : TbsEnv} (h : (prepareTbs c env).2 = true) : ∃ d raw key,
    askTbs c env = .ok d raw ∧ env.caKey = some key ∧ (prepareTbs c env).1 = { c with
      dummyCert := d, tbs := patchTbs raw key, tbsHex := patchTbs raw key,
      sessions := fun _ => RoastSession.zero } := by
  unfold prepareTbs patchAndClear at h ⊢
  split at h; · cases h
  · cases h
  · cases h
  next d raw hcall =>
  split at h; · cases h
  next hlen =>
  rw [if_neg hlen]
  split at h; · cases h
  next h32 =>
  rw [if_neg h32]
  split at h
  · cases h
  · next key hkey => exact ⟨d, raw, key, hcall, hkey, rfl⟩

/-- A new request, with an empty table. -/
theorem Certified.prepared (hc : Certified w V c) (h0 : c.n = 0 → c.certs = [])
    (ht : c.t < 65536) {env : TbsEnv} (hw : w.Tbs env) (h : (prepareTbs c env).2 = true) :
    Warranted w V ((prepareTbs c env).1, g) := by
  obtain ⟨d, raw, key, hcall, hkey, e⟩ := prepareTbs_true h
  rw [e]
  exact ⟨rfl, ⟨_, _, _, raw, key, hw.template _ _ _ d raw hcall, hw.caKey key hkey, rfl⟩, nofun, hc,
    h0, ht⟩

theorem Warranted.head (h : Warranted w V (c, g)) {env : TbsEnv} (hw : w.Tbs env)
    (hr : RestartsClean c (.loopHead env)) : Warranted w V (loopHead c env, g) := by
  have hexit : Warranted w V (exitIfQuiet c, g) := by
    unfold exitIfQuiet
    split
    · exact h.still rfl fun _ _ => rfl
    · exact h
  unfold loopHead
  split; · exact hexit
  next hf =>
  split
  · next hd =>
    split
    · next hmint =>
      have hp : Warranted w V (resume (prepareTbs (advanceSerial c) env).1, g) := by
        have hcerts : Certified w V (advanceSerial c) := h.certs
        have h1 : Warranted w V ((prepareTbs (advanceSerial c) env).1, g) :=
          hcerts.prepared h.blank h.small hw (hr (by simpa using hf) hd.1 hmint)
        exact h1.still rfl fun _ _ => rfl
      obtain ⟨sg, hshape⟩ := broadcastSignReq_sgOnly
        (resume (prepareTbs (advanceSerial c) env).1)
      unfold nextMint
      rw [hshape]
      exact hp.still rfl fun _ _ => rfl
    · exact hexit
  split
  · exact hexit
  · exact h

/-- A step and the bundles it sends. -/
def traceStep (p : Coord × History) (e : Event) : Coord × History :=
  (step p.1 e, note p.2 (openings p.1 e))

theorem traceStep_fst (p : Coord × History) (e : Event) : (traceStep p e).1 = step p.1 e := rfl

/-- `g_t` may change while there is no certificate yet. -/
theorem Warranted.claim (h : Warranted w V (c, g)) {pn pt : Nat}
    (hnt : c.n = 0 ∨ c.n = pn ∧ c.t = pt) {payload : Bytes} {pid : Nat}
    (hp : parseHello payload = some (pid, pn, pt)) :
    Warranted w V ({ c with n := pn, t := pt }, g) := by
  obtain ⟨-, -, h2, hmax, -, hpt⟩ := parseHello_some hp
  have hsmall : pt < 65536 := (hpt.trans hmax).trans_lt (by decide)
  have hne : pn ≠ 0 := by omega
  refine ⟨h.hex, h.request, h.session, fun q hq => ?_, fun h0 => absurd h0 hne, hsmall⟩
  rcases hnt with h0 | ⟨-, e⟩
  · have hq : q ∈ c.certs := hq
    rw [h.blank h0] at hq
    cases hq
  · rw [← e]
    exact h.certs q hq

/-- Signer `i` answers for the share that is filed. -/
def ShareVouched (V : CommitBundle → Nat → Bytes → Prop) (p : Coord × History) (e : Event) :
    Prop :=
  ∀ i f env k slot b, e = .frame i f env → f.type = .sigShare → i ∈ p.1.signers →
    ShareTarget p.1 i f k slot → p.2 k = some b → V b i f.payload

theorem ShareTarget.eq {i slot : Nat} {f : Frame} {k : Fin maxSessions}
    (h : ShareTarget c i f k slot) (hd : (c.sessions k).signerIds.Nodup) :
    shareTarget c i f = some (k, slot) := by
  have hslot : roastSignerSlot (c.sessions k) i = some slot := by
    obtain ⟨hlt, hi⟩ := List.getElem?_eq_some_iff.mp h.slot
    refine List.findIdx?_eq_some_iff_getElem.mpr ⟨hlt, by simpa using hi, fun j hj => ?_⟩
    have hne : (c.sessions k).signerIds[j] ≠ (c.sessions k).signerIds[slot] := fun e =>
      absurd ((List.Nodup.getElem_inj_iff hd).mp e) (by omega)
    simpa [hi] using hne
  unfold shareTarget
  rw [if_neg (not_not.mpr h.mode), if_neg (Nat.not_lt.mpr h.size), h.found]
  dsimp only
  rw [if_neg (not_not.mpr h.open'), hslot]

theorem Warranted.fileShare (h : Warranted w V (c, g)) {k : Fin maxSessions} {slot i : Nat}
    {f : Frame} (ht : ShareTarget c i f k slot)
    (hv : ∀ b, g k = some b → V b i f.payload) :
    Warranted w V (fileShare c k slot i f.payload, g) := by
  refine h.keep rfl fun j hj => ?_
  by_cases e : j = k
  · subst e
    rw [fileShare_session] at hj ⊢
    obtain ⟨b, hb, hseal⟩ := h.session j hj
    refine ⟨b, hb, hseal.package, hseal.message, hseal.members, fun s id hid hlen => ?_⟩
    dsimp only at hid hlen ⊢
    by_cases es : s = slot
    · subst es
      rw [Function.update_self]
      rw [ht.slot] at hid
      exact Option.some.inj hid ▸ hv b hb
    · rw [Function.update_of_ne es] at hlen ⊢
      exact hseal.shares s id hid hlen
  · rw [fileShare_session_of_ne e] at hj ⊢
    exact h.session j hj

theorem Warranted.taken (h : Warranted w V (c, g)) {e : Event} {d : Coord} (ht : Taken c e d)
    (hv : ShareVouched V (c, g) e) : Warranted w V (d, g) := by
  cases ht with
  | claim hp hnt => exact h.claim hnt hp
  | @signer _ _ pid pn pt hp hnt _ =>
    have h1 := h.claim hnt hp
    obtain ⟨_, _, hshape⟩ := promote_flowOnly { c with n := pn, t := pt } pid
    rw [hshape]
    exact h1.still rfl fun _ _ => rfl
  | share hi hf htgt => exact h.fileShare htgt fun b hb => hv _ _ _ _ _ b rfl hf hi htgt hb
  | _ => exact h.still rfl fun _ _ => rfl

/-- **Every step keeps what stands behind the sessions and the certificates.** -/
theorem Warranted.step {p : Coord × History} (h : Warranted w V p) (hs : Signing p.1)
    (hu : Unclaimed p.1) {e : Event} (hw : w.Event e) (hr : RestartsClean p.1 e)
    (hv : ShareVouched V p e) : Warranted w V (traceStep p e) := by
  refine warranted_blocks.step hs hu hw.answered (fun d ht h => h.taken ht hv) ?_ h
  rintro env rfl h
  exact h.head (hw.tbs env rfl) hr

/-- The coordinator of sign mode after a successful `prepare_tbs`. -/
structure Launched (w : Given) (c₀ : Coord) : Prop where
  started : ∃ n t serial secs toMint file env, n < 65536 ∧ t < 65536 ∧ serial < 2 ^ 64 ∧
    toMint < 2 ^ 64 ∧ file ≠ [] ∧ w.Tbs env ∧
    prepareTbs (Coord.boot .sign n t serial secs toMint file (some file)) env = (c₀, true)

theorem Launched.signing {c₀ : Coord} (h : Launched w c₀) : Signing c₀ := by
  obtain ⟨n, t, serial, secs, toMint, file, env, hn, ht, hs, hm, hf, -, e⟩ := h.started
  refine (Started.sign n t serial secs toMint file env hn ht hs hm hf e).signing ?_
  obtain ⟨_, _, _, -, -, e'⟩ := prepareTbs_true (congrArg Prod.snd e)
  rw [e] at e'
  rw [show c₀ = _ from e']
  rfl

theorem Launched.unclaimed {c₀ : Coord} (h : Launched w c₀) : Unclaimed c₀ := by
  obtain ⟨n, t, serial, secs, toMint, file, env, -, -, -, -, -, -, e⟩ := h.started
  obtain ⟨_, _, _, -, -, e'⟩ := prepareTbs_true (congrArg Prod.snd e)
  rw [e] at e'
  rw [show c₀ = _ from e']
  exact fun _ => ⟨rfl, nofun⟩

theorem Launched.warranted {c₀ : Coord} (h : Launched w c₀) :
    Warranted w V (c₀, fun _ => none) := by
  obtain ⟨n, t, serial, secs, toMint, file, env, -, ht, -, -, -, hw, e⟩ := h.started
  have hnone : Certified w V (Coord.boot .sign n t serial secs toMint file (some file)) := nofun
  have := hnone.prepared (g := fun _ => none) (fun _ => rfl) ht hw (congrArg Prod.snd e)
  rwa [e] at this

/-- **Certificate soundness.** Along every run of sign mode whose restarts get their
template, their TBS and their key, whatever the signers send: behind every certificate
written stands a mint request whose signature `aggregate` gave for a package that was
assembled from one bundle, over exactly the TBS the certificate is minted with; this TBS
and the template come from one call of `tbs`; and each share came in a `SIG_SHARE` of
a member of that bundle, no member twice. -/
theorem certificate_sound (w : Given) {c₀ : Coord} (h₀ : Launched w c₀) {es : List Event}
    (hes : Along step (fun c e => w.Event e ∧ RestartsClean c e) c₀ es) :
    Certified w (fun _ i share => w.sent i share) (run step c₀ es) := by
  have hall : Along traceStep (fun p e => w.Event e ∧ RestartsClean p.1 e) (c₀, fun _ => none) es :=
    (along_map (C := fun c e => w.Event e ∧ RestartsClean c e) traceStep_fst _ es).mpr hes
  have hinv := hall.invariant (I := fun p => (Signing p.1 ∧ Unclaimed p.1) ∧
      Warranted w (fun _ i share => w.sent i share) p)
    (fun p e hi hc => ⟨⟨hi.1.1.step e, hi.1.2.step hi.1.1 e⟩,
      hi.2.step hi.1.1 hi.1.2 hc.1 hc.2 fun i f env _ _ _ he hf _ _ _ => hc.1.share i f env he hf⟩)
    ⟨⟨h₀.signing, h₀.unclaimed⟩, h₀.warranted⟩
  have hrun : (run traceStep (c₀, fun _ => none) es).1 = run step c₀ es :=
    run_map traceStep_fst _ es
  rw [← hrun]
  exact hinv.2.certs

/-- What the subprocesses and the signers of one run answer. -/
def mintGiven : Given where
  template := fun _ _ _ d _ => d = []
  caKey := fun key => key = Vector.replicate 32 0
  assembled := fun _ spkg => spkg = []
  aggregated := fun _ sig => sig = List.replicate 64 0
  minted := fun m cert => cert = m.dummyCert
  sent := fun _ share => share ≠ []

theorem quietEnv_given : mintGiven.Env quietEnv :=
  ⟨fun _ _ h => (Option.some.inj h).symm, nofun, nofun⟩

theorem mintEnv_given : mintGiven.Env mintEnv :=
  ⟨fun _ _ h => (Option.some.inj h).symm, fun _ _ h => (AggregateResult.sig.inj h).symm,
    fun _ _ h => (Option.some.inj h).symm⟩

theorem signStart_launched (hw : w.Tbs sampleTbs) {n t toMint : Nat} (hn : n < 65536)
    (ht : t < 65536) (hm : toMint < 2 ^ 64) : Launched w (signStart n t toMint) :=
  ⟨n, t, 1, 86400, toMint, [1], sampleTbs, hn, ht, by decide, hm, nofun, hw, rfl⟩

/-- Two signers, one session, one certificate. -/
theorem certificate_sound_run :
    let c := run step (signStart 2 2 1) (openingRun ++ mintRun)
    c.certs.length = 1 ∧ Certified mintGiven (fun _ i share => mintGiven.sent i share) c := by
  have hes : Along step (fun c e => mintGiven.Event e ∧ RestartsClean c e) (signStart 2 2 1)
      (openingRun ++ mintRun) := by
    have hframe {i : Nat} {f : Frame} {env : Env} (hA : mintGiven.Env env) (hf : f.payload ≠ []) :
        mintGiven.Event (.frame i f env) := hA.frame fun _ => hf
    exact ⟨⟨mintGiven.hello _ _, trivial⟩, ⟨mintGiven.hello _ _, trivial⟩,
      ⟨hframe quietEnv_given nofun, trivial⟩, ⟨hframe quietEnv_given nofun, trivial⟩,
      ⟨hframe quietEnv_given nofun, trivial⟩, ⟨hframe mintEnv_given nofun, trivial⟩, trivial⟩
  have hw : mintGiven.Tbs sampleTbs :=
    ⟨fun _ _ _ _ _ h => (TbsResult.ok.inj h).1.symm, fun _ h => (Option.some.inj h).symm⟩
  exact ⟨by decide +kernel, certificate_sound mintGiven
    (signStart_launched hw (by decide) (by decide) (by decide)) hes⟩

end FrostSshCa.Coordinator
