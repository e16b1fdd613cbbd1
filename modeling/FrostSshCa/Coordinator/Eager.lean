import FrostSshCa.Coordinator.Abort
import FrostSshCa.Coordinator.Table

/-!
# Eager formation

A session should be formed as soon as `g_t` signers hold a good commitment. The
selection takes the first eligible signers whatever they sent, and gives up when
the core refuses one commitment: `TakesGood` says that the first `g_t` in the
order of choice are good whenever `g_t` good ones are there. Along runs that meet
it fewer than `g_t` are left waiting.
-/

namespace FrostSshCa.Coordinator

open Lib

variable {valid : Bytes → Bool}
variable {c c' : Coord}

/-! ## Who waits -/

/-- Not blacklisted, committed, with a commitment the core can deserialize. -/
def ready (valid : Bytes → Bool) (c : Coord) (id : Nat) : Bool :=
  !isBlacklisted c id && decide ((c.sg id).signPhase = .committed) && valid (c.sg id).commit

/-- The number of registered signers that wait for a session. -/
def waiting (valid : Bytes → Bool) (c : Coord) : Nat := c.signers.countP (ready valid c)

/-- Any `g_t` good commitments and the message fit one bundle. -/
def Fits (valid : Bytes → Bool) (c : Coord) : Prop :=
  ∀ b : CommitBundle, b.tbs = c.tbs → b.entries.length = c.t →
    (∀ e ∈ b.entries, e.Wf ∧ valid e.commit = true) →
    ∃ wire, packCommitBundle commitBundleWireMax b = some wire ∧ wire.length ≤ maxPayload

/-- The core assembles every bundle of good commitments for a message that fits a frame. -/
def Assembles (valid : Bytes → Bool) (env : Env) : Prop :=
  ∀ b : CommitBundle, b.tbs ≠ [] → IdList (b.entries.map CommitEntry.id) →
    (∀ e ∈ b.entries, valid e.commit = true) →
    (∃ wire, packCommitBundle commitBundleWireMax b = some wire ∧ wire.length ≤ maxPayload) →
    (env.assemble b).isSome = true

/-- A bound under which any commitments fit. -/
theorem Fits.of_size (ht : c.t ≤ maxSigners)
    (h : 4 + c.t * (2 + 2 + commitEntryMax + frameSigSize) + c.tbs.length ≤ maxPayload) :
    Fits valid c := by
  intro b hb hlen hwf
  have hW : b.Wf := ⟨fun e he => (hwf e he).1, hlen ▸ ht, by rw [hb]; omega⟩
  refine ⟨b.encode, packCommitBundle_of_le hW hW.length_encode_le, ?_⟩
  have := flatMap_encode_length_le hW.entries
  rw [hlen] at this
  simp only [CommitBundle.encode, List.length_append, length_be16, hb]
  omega

/-! ## The order of choice -/

/-- Committed, with anything stored, and not blacklisted. -/
def candidate (c : Coord) (id : Nat) : Bool :=
  (c.sg id).signPhase = .committed && !isBlacklisted c id && 0 < (c.sg id).commit.length

/-- The candidates in the order of choice: first those without a strike, each
time the newest connection first. -/
def inOrder (c : Coord) : List Nat :=
  (c.signers.filter fun id => candidate c id && getStrikes c id = 0) ++
    c.signers.filter fun id => candidate c id && 0 < getStrikes c id

/-- When a commitment makes `g_t` good ones, the first `g_t` candidates are good. -/
def TakesGood (valid : Bytes → Bool) (c : Coord) : Event → Prop
  | .frame i f _ => f.type = .commit → TakesCommit c i f →
      c.t ≤ waiting valid (storeCommit c i f) →
      ∀ id ∈ (inOrder (storeCommit c i f)).take c.t,
        valid ((storeCommit c i f).sg id).commit = true
  | _ => True

/-- The core answers the attempts this event makes. -/
def CoreRuns (valid : Bytes → Bool) : Event → Prop
  | .frame _ _ env => Assembles valid env
  | _ => True

theorem selectPass_eq {t : Nat} {ok : List Nat → Nat → Bool} {p : Nat → Bool}
    (hno : ∀ ch x, p x = false → ok ch x = false)
    (hyes : ∀ ch x, x ∉ ch → p x = true → ok ch x = true) :
    ∀ {l ch : List Nat}, l.Nodup → (∀ x ∈ l, p x = true → x ∉ ch) → ch.length ≤ t →
      selectPass t ok l ch = ch ++ (l.filter p).take (t - ch.length)
  | [], ch, _, _, _ => by simp [selectPass]
  | x :: l, ch, hl, hdis, hle => by
    obtain ⟨hx, hl⟩ := List.nodup_cons.mp hl
    unfold selectPass
    by_cases hfull : ch.length ≥ t
    · rw [if_pos hfull, show t - ch.length = 0 by omega]
      simp
    rw [if_neg hfull]
    cases hp : p x with
    | false =>
      rw [hno ch x hp, List.filter_cons_of_neg (by simp [hp])]
      exact selectPass_eq hno hyes hl (fun y hy => hdis y (List.mem_cons_of_mem _ hy)) hle
    | true =>
      have hxc : x ∉ ch := hdis x (List.mem_cons_self ..) hp
      have hlen : (ch ++ [x]).length = ch.length + 1 := by simp
      rw [hyes ch x hxc hp, if_pos rfl, List.filter_cons_of_pos hp]
      rw [selectPass_eq hno hyes hl ?_ (by omega), hlen, List.append_assoc]
      · rw [show t - ch.length = (t - (ch.length + 1)) + 1 by omega, List.take_succ_cons]
        rfl
      · intro y hy hpy
        have hne : y ≠ x := fun e => hx (e ▸ hy)
        have hyc := hdis y (List.mem_cons_of_mem _ hy) hpy
        simp [hne, hyc]

/-- A signer that is asked again has no commitment stored. -/
def SuspectsClean (c : Coord) : Prop :=
  ∀ i ∈ c.signers, (c.sg i).signPhase = .suspect → (c.sg i).commit = []

/-- **The two passes choose the first `g_t` candidates.** -/
theorem chooseSigners_eq (hd : c.signers.Nodup) (hs : SuspectsClean c) :
    chooseSigners c = (inOrder c).take c.t := by
  have h1 : selectPass c.t (fun _ id => reliable c id) c.signers [] =
      (c.signers.filter (reliable c)).take c.t := by
    rw [selectPass_eq (p := reliable c) (fun _ _ h => h) (fun _ _ _ h => h) hd
      (fun _ _ _ => List.not_mem_nil) (Nat.zero_le _)]
    rfl
  have hlen : ((c.signers.filter (reliable c)).take c.t).length ≤ c.t := by
    rw [List.length_take]
    omega
  unfold chooseSigners
  rw [h1, selectPass_eq (p := suspected c) ?_ ?_ hd ?_ hlen]
  · -- a suspect is no candidate: what it sent before it was struck is cleared
    have e1 : c.signers.filter (reliable c) =
        c.signers.filter fun id => candidate c id && getStrikes c id = 0 :=
      List.filter_congr fun x _ => rfl
    have e2 : c.signers.filter (suspected c) =
        c.signers.filter fun id => candidate c id && 0 < getStrikes c id := by
      refine List.filter_congr fun x hx => ?_
      unfold suspected candidate
      by_cases hp : (c.sg x).signPhase = .suspect
      · simp [hp, hs x hx hp]
      · simp [hp]
        grind
    unfold inOrder
    rw [e1, e2, List.take_append, List.length_take]
    congr 2
    omega
  · intro ch x hx
    simp [hx]
  · intro ch x hx hpx
    simp [hx, hpx]
  · intro x _ hx hmem
    have hrel := (List.mem_filter.mp (List.mem_of_mem_take hmem)).2
    simp only [reliable, suspected, Bool.and_eq_true, decide_eq_true_eq] at hx hrel
    omega

/-- Pass 1 visits `g_t` nodes, or all there are. -/
theorem numSigners_ge (c : Coord) (t : Nat) : ∀ (l : List Nat) (n : Nat),
    min (t - n) l.length ≤ numSigners c t l n
  | [], n => by simp
  | x :: l, n => by
    unfold numSigners
    split
    · next h =>
      rw [show t - n = 0 by omega]
      omega
    · next h =>
      have ih := numSigners_ge c t l (if reliable c x then n + 1 else n)
      rw [List.length_cons]
      by_cases hr : reliable c x = true
      · rw [if_pos hr] at ih ⊢
        omega
      · rw [if_neg hr] at ih ⊢
        omega

theorem ready_candidate (hempty : valid [] = false) {id : Nat} (h : ready valid c id = true) :
    candidate c id = true := by
  unfold ready at h
  unfold candidate
  simp only [Bool.and_eq_true, Bool.not_eq_true', decide_eq_true_eq] at h ⊢
  refine ⟨⟨h.1.2, h.1.1⟩, List.length_pos_iff.mpr fun e => ?_⟩
  rw [e, hempty] at h
  exact absurd h.2 (by decide)

/-- Whoever waits is a candidate. -/
theorem waiting_le_inOrder (hempty : valid [] = false) : waiting valid c ≤ (inOrder c).length := by
  have hle : waiting valid c ≤ c.signers.countP (candidate c) :=
    List.countP_mono_left fun id _ h => ready_candidate hempty h
  refine hle.trans ?_
  unfold inOrder
  rw [List.length_append, ← List.countP_eq_length_filter, ← List.countP_eq_length_filter,
    List.countP_eq_countP_filter_add c.signers (candidate c) (fun id => getStrikes c id = 0),
    List.countP_filter, List.countP_filter]
  refine Nat.add_le_add (Nat.le_refl _) (List.countP_mono_left fun id _ h => ?_)
  simp only [Bool.and_eq_true, Bool.not_eq_true', decide_eq_true_eq, decide_eq_false_iff_not] at h ⊢
  exact ⟨h.1, Nat.pos_of_ne_zero h.2⟩

/-! ## An attempt with good commitments -/

theorem roastAlloc_isSome (h : ∃ k, (c.sessions k).state = .empty) :
    ∃ k, roastAlloc c = some k := by
  obtain ⟨k, hk⟩ := h
  refine Option.isSome_iff_exists.mp (List.find?_isSome.mpr ⟨k, List.mem_finRange k, ?_⟩)
  simpa using hk

theorem roastActiveCount_lt (h : ∃ k, (c.sessions k).state = .empty) :
    roastActiveCount c < maxSessions := by
  obtain ⟨k, hk⟩ := h
  have hlt : roastActiveCount c < (List.finRange maxSessions).length :=
    List.countP_lt_length_iff.mpr ⟨k, List.mem_finRange k, by simp [hk]⟩
  rwa [List.length_finRange] at hlt

/-- **A session is formed when nothing stands against it.** -/
theorem Forms.tryForm {env : Env} {k : Fin maxSessions} {spkg wire : Bytes} (hd : c.signers.Nodup)
    (h : Forms c env k spkg wire) :
    tryForm c env = openSession c k (chooseSigners c) spkg wire env.now := by
  obtain ⟨hdone, hlen, hk, ⟨b, hbuild, hspkg, hwire⟩, hfits⟩ := h
  have hslot : (c.sessions k).state = .empty := by simpa using List.find?_some hk
  have hnum : c.t ≤ numSigners c c.t c.signers 0 := by
    have h1 := numSigners_ge c c.t c.signers 0
    have h2 : (chooseSigners c).length ≤ c.signers.length :=
      ((chooseSigners_nodup c hd).subperm fun id hid => (mem_chooseSigners c hid).1).length_le
    omega
  unfold Coordinator.tryForm roastTryFormSession
  rw [hdone, if_pos (by simpa using roastActiveCount_lt ⟨k, hslot⟩), if_neg (by decide)]
  dsimp only
  rw [if_neg (by omega), if_neg (by omega), hk]
  dsimp only
  rw [hbuild]
  dsimp only
  rw [hspkg]
  dsimp only
  rw [hwire]
  dsimp only
  rw [if_neg (by omega)]

/-- **With `g_t` good candidates in front, a session is formed of them.** -/
theorem tryForm_forms (hempty : valid [] = false) (ht : Table c) (hs : SuspectsClean c) {env : Env}
    (hcore : Assembles valid env) (hreq : c.tbs ≠ []) (hdone : c.signingDone = false)
    (hslot : ∃ k, (c.sessions k).state = .empty) (hfits : Fits valid c)
    (hmany : c.t ≤ waiting valid c)
    (hgood : ∀ id ∈ (inOrder c).take c.t, valid (c.sg id).commit = true) :
    ∃ k spkg wire, tryForm c env = openSession c k (chooseSigners c) spkg wire env.now := by
  have hch := chooseSigners_eq ht.ids.distinct hs
  have hlen : (chooseSigners c).length = c.t := by
    rw [hch, List.length_take]
    have := waiting_le_inOrder (c := c) hempty
    omega
  obtain ⟨k, hk⟩ := roastAlloc_isSome hslot
  have hval : ∀ id ∈ chooseSigners c, valid (c.sg id).commit = true := fun id hid =>
    hgood id (hch ▸ hid)
  have hsize : ∀ id ∈ chooseSigners c, (c.sg id).commit.length ≤ commitEntryMax ∧
      (c.sg id).commitSig.length = frameSigSize := by
    intro id hid
    refine ht.sizes id fun e => ?_
    have := hval id hid
    rw [e, hempty] at this
    cases this
  -- the bundle of the chosen, and what the helpers make of it
  let b : CommitBundle := ⟨(chooseSigners c).map fun id =>
    ⟨id, (c.sg id).commit, (c.sg id).commitSig⟩, c.tbs⟩
  have hids : b.entries.map CommitEntry.id = chooseSigners c := by
    rw [List.map_map]
    exact List.map_id _
  have hentries : ∀ e ∈ b.entries, e.Wf ∧ valid e.commit = true := by
    intro e he
    obtain ⟨id, hid, rfl⟩ := List.mem_map.mp he
    have hr := ht.ids.range id (mem_chooseSigners c hid).1
    have hm : maxSigners = 64 := rfl
    exact ⟨⟨show id < 65536 by omega, (hsize id hid).1, (hsize id hid).2⟩, hval id hid⟩
  obtain ⟨wire, hwire, hle⟩ := hfits b rfl (by rw [List.length_map, hlen]) hentries
  obtain ⟨-, -, htbs, -⟩ := packCommitBundle_eq hwire
  have htbs : c.tbs.length ≤ maxPayload := htbs
  have hbuild : buildBundle c (chooseSigners c) = some b := by
    unfold buildBundle
    rw [if_neg, if_neg (by omega : ¬ c.tbs.length > maxPayload)]
    intro hany
    obtain ⟨id, hid, hbig⟩ := List.any_eq_true.mp hany
    have := (hsize id hid).1
    simp only [decide_eq_true_eq] at hbig
    omega
  obtain ⟨spkg, hspkg⟩ := Option.isSome_iff_exists.mp (hcore b hreq
    (hids ▸ ⟨chooseSigners_nodup c ht.ids.distinct, fun id hid =>
      ht.ids.range id (mem_chooseSigners c hid).1⟩)
    (fun e he => (hentries e he).2) ⟨wire, hwire, hle⟩)
  exact ⟨k, spkg, wire, Forms.tryForm ht.ids.distinct
    ⟨hdone, by omega, hk, ⟨b, hbuild, hspkg, hwire⟩, hle⟩⟩

/-! ## Through the links -/

theorem ready_eq_false {id : Nat} (h : (c.sg id).signPhase ≠ .committed) :
    ready valid c id = false := by
  simp [ready, h]

/-- No link makes a signer ready. -/
theorem Link.ready {S : Scope} (hl : Link S c c') (hd : c.signers.Nodup) {i : Nat}
    (hi : i ∈ c.signers) (h : ready valid c' i = true) : ready valid c i = true := by
  have hb : isBlacklisted c i = false := by
    cases e : isBlacklisted c i with
    | false => rfl
    | true =>
      have := hl.framed.blacklist i e
      simp [Coordinator.ready, this] at h
  cases hl.record hd hi with
  | idle hr _ =>
    have hv := hr.view
    simp only [SignerRec.signView, Prod.mk.injEq] at hv
    simp only [Coordinator.ready, hv.1, hv.2.2.1, Bool.and_eq_true, Bool.not_eq_true'] at h ⊢
    exact ⟨⟨hb, h.1.2⟩, h.2⟩
  | black _ e _ =>
    rw [ready_eq_false (by rw [e]; intro hp; cases hp)] at h
    cases h
  | request hp _ e =>
    rw [ready_eq_false] at h
    · cases h
    · rw [e]
      rcases hp with rfl | ⟨rfl, -⟩ <;> (intro hp; cases hp)
  | assign _ _ e _ =>
    rw [ready_eq_false (by rw [e]; intro hp; cases hp)] at h
    cases h
  | skipped _ e =>
    simp only [Coordinator.ready, e, Bool.and_eq_true, Bool.not_eq_true'] at h ⊢
    exact ⟨⟨hb, h.1.2⟩, h.2⟩

theorem SuspectsClean.link {S : Scope} (hl : Link S c c') (hd : c.signers.Nodup)
    (h : SuspectsClean c) : SuspectsClean c' := by
  intro i hi hp
  rw [hl.framed.signers] at hi
  cases hl.record hd hi with
  | idle hr _ =>
    have hv := hr.view
    simp only [SignerRec.signView, Prod.mk.injEq] at hv
    rw [hv.2.2.1] at hp
    rw [hv.1]
    exact h i hi hp
  | black _ e _ => rw [e] at hp; cases hp
  | request _ _ e => rw [e]; rfl
  | assign _ _ e _ => rw [e] at hp; cases hp
  | skipped _ e =>
    rw [e] at hp ⊢
    exact h i hi hp

/-- Nobody waits right after a broadcast of requests. -/
theorem broadcastSignReq_waiting (hd : c.signers.Nodup) :
    waiting valid (broadcastSignReq c) = 0 := by
  obtain ⟨_, e⟩ := broadcastSignReq_sgOnly c
  refine List.countP_eq_zero.mpr fun i hi hr => ?_
  have hi' : i ∈ c.signers := by rw [e] at hi; exact hi
  have hbl : isBlacklisted (broadcastSignReq c) i = isBlacklisted c i := by rw [e]; rfl
  unfold ready at hr
  rw [hbl] at hr
  rw [broadcastSignReq_sg hd] at hr
  split at hr
  · simp [SignerRec.asked] at hr
  · next hno =>
    simp only [Bool.and_eq_true, Bool.not_eq_true', decide_eq_true_eq] at hr
    exact hno ⟨hi', hr.1.1, by rw [hr.1.2]; exact nofun⟩

/-- What a chain does to the waiting: everybody is asked anew, or no more wait,
for the same message, and no slot is freed. -/
inductive Settles (valid : Bytes → Bool) (c c' : Coord) : Prop where
  | anew (h : waiting valid c' = 0)
  | fewer (h : waiting valid c' ≤ waiting valid c) (t : c'.t = c.t) (tbs : c'.tbs = c.tbs)
      (slots : (∃ k, (c'.sessions k).state = .empty) → ∃ k, (c.sessions k).state = .empty)

theorem Settles.refl (c : Coord) : Settles valid c c := .fewer (Nat.le_refl _) rfl rfl fun h => h

theorem Settles.trans {c'' : Coord} (h : Settles valid c c') (h' : Settles valid c' c'') :
    Settles valid c c'' := by
  cases h' with
  | anew h0 => exact .anew h0
  | fewer h1 t1 b1 s1 =>
    cases h with
    | anew h0 => exact .anew (by omega)
    | fewer h2 t2 b2 s2 =>
      exact .fewer (h1.trans h2) (t1.trans t2) (b1.trans b2) fun h => s2 (s1 h)

theorem Link.settles {S : Scope} (hl : Link S c c') (hd : c.signers.Nodup) :
    Settles valid c c' := by
  have hle : waiting valid c' ≤ waiting valid c := by
    unfold waiting
    rw [hl.framed.signers]
    exact List.countP_mono_left fun i hi h => hl.ready hd hi h
  have same (e : c'.sessions = c.sessions) :
      (∃ k, (c'.sessions k).state = .empty) → ∃ k, (c.sessions k).state = .empty := fun h => e ▸ h
  cases hl with
  | idle hi => exact .fewer hle hi.t hi.tbs (same hi.sessions)
  | @close k hk st hst =>
    refine .fewer hle rfl rfl ?_
    rintro ⟨j, hj⟩
    refine ⟨j, ?_⟩
    by_cases e : j = k
    · subst e
      unfold Coord.closeSession at hj
      rw [Coord.setSession_self] at hj
      rcases hst with rfl | rfl <;> cases hj
    · rwa [show (c.closeSession k st).sessions j = c.sessions j from Coord.setSession_of_ne e _] at hj
  | @black id _ =>
    obtain ⟨_, _, _, e⟩ := (blacklistSigner_recOnly c id).trans
      (setPhase_sgOnly _ id .blacklisted).recOnly
    exact .fewer hle (by rw [e]) (by rw [e]) (same (blacklist_sessions c id).1)
  | @strike id _ =>
    obtain ⟨_, _, _, e⟩ := addStrike_recOnly c id
    exact .fewer hle (by rw [e]) (by rw [e]) (same (addStrike_sessions c id).1)
  | @request p id _ _ _ =>
    obtain ⟨_, e⟩ := requestCommit_sgOnly c p id
    exact .fewer hle (by rw [e]) (by rw [e]) (same (requestCommit_sessions c p id).1)
  | @form env k spkg wire _ hf =>
    obtain ⟨_, e⟩ := openSession_sgOnly c k (chooseSigners c) spkg wire env.now
    obtain ⟨hself, hother⟩ := openSession_sessions c k (chooseSigners c) spkg wire env.now
    refine .fewer hle (by rw [e]; rfl) (by rw [e]; rfl) ?_
    rintro ⟨j, hj⟩
    refine ⟨j, ?_⟩
    by_cases ej : j = k
    · subst ej
      rw [hself] at hj
      cases hj
    · rwa [hother j ej] at hj
  | @restart d hr _ => exact .anew (broadcastSignReq_waiting (hr.signers ▸ hd))

theorem Chain.settles {S : Scope} (hc : Chain S c c') (valid : Bytes → Bool) (hd : c.signers.Nodup)
    (hs : SuspectsClean c) : Settles valid c c' ∧ SuspectsClean c' ∧ c'.signers.Nodup := by
  refine hc.invariant (I := fun d => Settles valid c d ∧ SuspectsClean d ∧ d.signers.Nodup)
    (fun d d' hl ⟨h1, h2, h3⟩ => ?_) ⟨.refl c, hs, hd⟩
  exact ⟨h1.trans (hl.settles h3), h2.link hl h3, hl.framed.signers ▸ h3⟩

/-- The chosen of a formed session wait no more. -/
theorem openSession_waiting (valid : Bytes → Bool) (hd : c.signers.Nodup) (k : Fin maxSessions)
    (spkg wire : Bytes)
    (now : Nat) (hready : ∀ id ∈ chooseSigners c, ready valid c id = true) :
    waiting valid (openSession c k (chooseSigners c) spkg wire now) + (chooseSigners c).length ≤
      waiting valid c := by
  obtain ⟨_, e⟩ := openSession_sgOnly c k (chooseSigners c) spkg wire now
  have hsg (i : Nat) := openSession_sg (c := c) (chooseSigners_nodup c hd) k spkg wire now i
  have hsigners : (openSession c k (chooseSigners c) spkg wire now).signers = c.signers := by
    rw [e]; rfl
  have hbl (i : Nat) : isBlacklisted (openSession c k (chooseSigners c) spkg wire now) i =
      isBlacklisted c i := by rw [e]; rfl
  unfold waiting
  rw [hsigners, List.countP_eq_countP_filter_add c.signers (ready valid c)
    (fun i => decide (i ∈ chooseSigners c)), Nat.add_comm]
  refine Nat.add_le_add ?_ ?_
  · rw [List.countP_filter, List.countP_eq_length_filter]
    refine ((chooseSigners_nodup c hd).subperm fun i hi => ?_).length_le
    exact List.mem_filter.mpr ⟨(mem_chooseSigners c hi).1, by simp [hready i hi, hi]⟩
  · rw [List.countP_filter]
    refine List.countP_mono_left fun i _ h => ?_
    unfold ready at h ⊢
    rw [hbl, hsg] at h
    by_cases hin : i ∈ chooseSigners c
    · rw [if_pos hin] at h
      simp [SignerRec.assigned] at h
    · rw [if_neg hin] at h
      simpa [hin] using h

/-! ## The success flag -/

/-- Only the restart clears `g_signing_done`. -/
def DoneKept (c c' : Coord) : Prop := c.signingDone = true → c'.signingDone = true

theorem DoneKept.of_eq (h : c'.signingDone = c.signingDone) : DoneKept c c' := fun hd => h.trans hd

theorem RecOnly.doneKept (h : RecOnly c c') : DoneKept c c' := by
  obtain ⟨_, _, _, rfl⟩ := h
  exact .of_eq rfl

theorem tryForm_doneKept (c : Coord) (env : Env) : DoneKept c (tryForm c env) := by
  rcases tryForm_cases c env with e | ⟨k, spkg, wire, -, e⟩
  · rw [e]; exact .of_eq rfl
  · obtain ⟨_, e'⟩ := openSession_sgOnly c k (chooseSigners c) spkg wire env.now
    exact .of_eq (by rw [e, e']; rfl)

theorem onAggregate_doneKept (c : Coord) (env : Env) (k : Fin maxSessions) (r : AggregateResult) :
    DoneKept c (onAggregate c env k r) := by
  have hfall : DoneKept c (blacklistSession c k) := by
    intro hd
    have h1 : (blacklistMembers c k).signingDone = true :=
      (blacklistMembers_recOnly c k).doneKept hd
    unfold blacklistSession
    dsimp only
    refine (broadcastSignReq_sgOnly _).recOnly.doneKept ?_
    split
    · rfl
    · exact h1
  cases r with
  | notRun => exact .of_eq rfl
  | sig bytes =>
    dsimp only [onAggregate]
    split
    · exact hfall
    · intro _
      unfold aggregateOk callMint
      cases env.mint _ with
      | none => rfl
      | some cert => exact (broadcast_sgOnly ..).recOnly.doneKept rfl
  | culprit id =>
    dsimp only [onAggregate]
    split
    · intro hd
      exact tryForm_doneKept _ env ((culpritReset_recOnly c k id).doneKept hd)
    · exact hfall
  | failed => exact hfall

theorem expireSlot_doneKept (c : Coord) (now : Nat) (env : Env) (k : Fin maxSessions) :
    DoneKept c (expireSlot c now env k) := by
  unfold expireSlot
  split; · exact .of_eq rfl
  split; · exact .of_eq rfl
  exact fun hd => tryForm_doneKept _ env ((expireMembers_recOnly c k).doneKept hd)

theorem processSignerFrame_doneKept (c : Coord) (env : Env) (i : Nat) (f : Frame) :
    DoneKept c (processSignerFrame c env i f) := by
  by_cases hs : MsgType.signing f.type = false
  · by_cases hr : MsgType.reports f.type = false
    · obtain ⟨_, _, e⟩ := processSignerFrame_flowOnly c env i f hs hr
      exact .of_eq (by rw [e])
    unfold processSignerFrame
    cases e : f.type with
    | refreshComplete =>
      have hall (d : Coord) : DoneKept d (checkRefreshAllConfirmed d) := by
        unfold checkRefreshAllConfirmed
        split
        · exact .of_eq rfl
        · exact fun _ => rfl
      intro hd
      show (onRefreshComplete c env i f).signingDone = true
      unfold onRefreshComplete
      dsimp only
      split
      · exact hd
      · refine hall _ ?_
        split <;> exact hd
    | pubKeyPkg =>
      intro hd
      show (onPubKeyPkg c env i f).signingDone = true
      unfold onPubKeyPkg
      dsimp only
      split
      · exact hd
      split
      · exact hd
      · rfl
    | _ => rw [e] at hr; exact absurd rfl hr
  unfold processSignerFrame
  cases e : f.type with
  | commit =>
    dsimp only
    rcases onCommit_cases c env i f with e | ⟨-, e⟩
    · rw [e]; exact .of_eq rfl
    · rw [e]; exact fun hd => tryForm_doneKept _ env hd
  | sigShare =>
    dsimp only
    rcases onSigShare_cases c env i f with e | ⟨k, slot, -, e | ⟨stdin, -, -, e⟩⟩
    · rw [e]; exact .of_eq rfl
    · rw [e]; exact .of_eq rfl
    · rw [e]; exact fun hd => onAggregate_doneKept _ env k _ hd
  | shareLoadFail => exact .of_eq rfl
  | _ => rw [e] at hs; exact absurd rfl hs

/-! ## The message -/

theorem patchTbs_ne_nil (tbs : Bytes) (key : Vector UInt8 32) : patchTbs tbs key ≠ [] := by
  intro h
  have hlen := congrArg List.length h
  unfold patchTbs at hlen
  rw [List.length_append, Vector.length_toList] at hlen
  simp at hlen

/-- A TBS gives way to another only. -/
theorem prepareTbs_request (h : c.tbs ≠ []) (env : TbsEnv) : (prepareTbs c env).1.tbs ≠ [] := by
  have hpos : 0 < c.tbs.length := List.length_pos_iff.mpr h
  unfold prepareTbs patchAndClear
  split
  · exact h
  · exact h
  · refine List.length_pos_iff.mp ?_
    dsimp only
    rw [List.length_take, List.length_append, List.length_drop]
    omega
  · next d tbs _ =>
    split
    · exact h
    next hlen =>
    have htbs : tbs ≠ [] := fun e => hlen (.inl (by rw [e]; rfl))
    split
    · exact htbs
    split
    · exact htbs
    · exact patchTbs_ne_nil _ _

theorem step_request (h : c.tbs ≠ []) (e : Event) : (step c e).tbs ≠ [] := by
  have hexit : (exitIfQuiet c).tbs = c.tbs := by
    unfold exitIfQuiet
    split <;> rfl
  have roast {d : Coord} (hr : RoastOnly c d) : d.tbs ≠ [] := by
    obtain ⟨_, _, _, _, _, _, _, _, _, _, rfl⟩ := hr
    exact h
  cases hx : c.exited with
  | true =>
    rw [step_exited hx]
    exact h
  | false =>
    cases e with
    | loopHead env =>
      rw [step_loopHead hx]
      unfold loopHead
      split; · rw [hexit]; exact h
      split
      · split
        · obtain ⟨_, e⟩ := broadcastSignReq_sgOnly (resume (prepareTbs (advanceSerial c) env).1)
          unfold nextMint
          rw [e]
          exact prepareTbs_request (c := advanceSerial c) h env
        · rw [hexit]
          exact h
      split
      · rw [hexit]
        exact h
      · exact h
    | expire now env =>
      rw [step_expire hx]
      split
      · exact roast (roastExpireSessions_roastOnly c now env)
      · exact h
    | hello env payload =>
      rw [step_hello hx]
      rcases onHello_taken c env payload with e | ⟨pid, pn, pt, -, -, e | ⟨-, e⟩⟩
      · rw [e]; exact h
      · rw [e]; exact h
      · obtain ⟨_, _, e'⟩ := promote_flowOnly { c with n := pn, t := pt } pid
        rw [e, e']
        exact h
    | drain i =>
      rw [step_drain hx]
      split <;> exact h
    | disconnect i =>
      rw [step_disconnect hx]
      split <;> exact h
    | frame i f env =>
      rw [step_frame hx]
      split
      · cases hs : MsgType.signing f.type with
        | true => exact roast (processSignerFrame_roastOnly c env i f hs)
        | false =>
          obtain ⟨_, _, _, _, _, _, e⟩ := processSignerFrame_ceremonyOnly c env i f hs
          rw [e]
          exact h
      · exact h

/-- The loop is entered with a TBS. -/
theorem Started.request (h : Started c) (hm : c.mode = .sign) : c.tbs ≠ [] := by
  cases h with
  | dkg => cases hm
  | refresh => cases hm
  | sign n t serial secs toMint file env _ _ _ _ _ hp =>
    unfold prepareTbs patchAndClear at hp
    split at hp; · cases hp
    · cases hp
    · cases hp
    split at hp; · cases hp
    split at hp; · cases hp
    split at hp
    · cases hp
    · cases hp
      exact patchTbs_ne_nil _ _

/-! ## The invariant -/

/-- Fewer than `g_t` wait while a session can be formed. -/
structure Eager (valid : Bytes → Bool) (c : Coord) : Prop where
  mode : c.mode = .sign
  dkgState : c.dkgState ≠ .collectingR1
  table : Table c
  clean : SuspectsClean c
  unset : c.n = 0 → c.signers = []
  few : c.signingDone = false → (∃ k, (c.sessions k).state = .empty) → Fits valid c → 0 < c.t →
    waiting valid c < c.t

theorem fits_congr (ht : c'.t = c.t) (hb : c'.tbs = c.tbs) : Fits valid c' ↔ Fits valid c := by
  unfold Fits
  rw [ht, hb]

/-- What follows an event keeps the invariant, where it does not clear the flag
with signers waiting. -/
theorem Eager.chain {S : Scope} (h : Eager valid c) (hc : Chain S c c')
    (hdone : c'.signingDone = false → c.signingDone = false ∨ waiting valid c' = 0) :
    Eager valid c' := by
  obtain ⟨hset, hclean, -⟩ := hc.settles valid h.table.ids.distinct h.clean
  have hf := hc.framed
  refine ⟨hf.mode.trans h.mode, hf.notCollecting h.dkgState,
    hc.invariant (fun _ _ hl hi => hi.link hl) h.table, hclean, fun h0 => ?_,
    fun hd hslot hfits hpos => ?_⟩
  · rw [hf.signers]
    exact h.unset (hf.n ▸ h0)
  · rcases hset with h0 | ⟨hle, ht, hb, hslots⟩
    · omega
    rcases hdone hd with hd' | h0
    · have := h.few hd' (hslots hslot) ((fits_congr ht hb).mp hfits) (ht ▸ hpos)
      omega
    · omega

/-- The first well-formed `HELLO` fixes `g_t` while nobody is registered. -/
theorem Eager.claim (h : Eager valid c) {payload : Bytes} {pid pn pt : Nat}
    (hp : parseHello payload = some (pid, pn, pt)) (hnt : c.n = 0 ∨ c.n = pn ∧ c.t = pt) :
    Eager valid { c with n := pn, t := pt } := by
  obtain ⟨-, -, h3, -⟩ := parseHello_some hp
  rcases hnt with h0 | ⟨rfl, rfl⟩
  · have hs := h.unset h0
    refine ⟨h.mode, h.dkgState, h.table.congr rfl (fun _ => ⟨rfl, rfl⟩) rfl rfl, h.clean,
      fun _ => hs, fun _ _ _ hpos => ?_⟩
    unfold waiting
    rw [show ({ c with n := pn, t := pt } : Coord).signers = [] from hs]
    exact hpos
  · exact h

theorem storeCommit_waiting (valid : Bytes → Bool) (hd : c.signers.Nodup) (i : Nat) (f : Frame) :
    waiting valid (storeCommit c i f) ≤ waiting valid c + 1 := by
  refine countP_le_add_one hd (a := i) fun x _ hne hx => ?_
  unfold ready at hx ⊢
  rwa [show (storeCommit c i f).sg x = c.sg x from Coord.setSg_of_ne hne _] at hx

/-- **A commitment**: the one that makes `g_t` good ones is followed by a session. -/
theorem Eager.commit (h : Eager valid c) (hempty : valid [] = false) {i : Nat} {f : Frame}
    {env : Env} (hf : f.type = .commit) (htk : TakesCommit c i f)
    (hgood : TakesGood valid c (.frame i f env)) (hcore : Assembles valid env)
    (hreq : c.tbs ≠ []) :
    Eager valid (tryForm (storeCommit c i f) env) := by
  have htable : Table (storeCommit c i f) := h.table.setSg fun _ => ⟨htk.size, htk.sigSize⟩
  have hclean : SuspectsClean (storeCommit c i f) := by
    intro j hj hp
    by_cases e : j = i
    · subst e
      unfold storeCommit at hp
      rw [Coord.setSg_self] at hp
      cases hp
    · rw [show (storeCommit c i f).sg j = c.sg j from Coord.setSg_of_ne e _] at hp ⊢
      exact h.clean j hj hp
  have hch : Chain .all (storeCommit c i f) (tryForm (storeCommit c i f) env) :=
    tryForm_chain _ trivial
  obtain ⟨hset, hclean', -⟩ := hch.settles valid htable.ids.distinct hclean
  have hfr := hch.framed
  refine ⟨hfr.mode.trans h.mode, hfr.notCollecting h.dkgState,
    hch.invariant (fun _ _ hl hi => hi.link hl) htable, hclean', fun h0 => ?_,
    fun hd hslot hfits hpos => ?_⟩
  · rw [hfr.signers]
    exact h.unset (hfr.n ▸ h0)
  · rcases hset with h0 | ⟨hle, ht, hb, hslots⟩
    · omega
    have hd' : (storeCommit c i f).signingDone = false := by
      cases e : (storeCommit c i f).signingDone with
      | false => rfl
      | true =>
        rw [tryForm_doneKept _ env e] at hd
        cases hd
    have hfits' : Fits valid (storeCommit c i f) := (fits_congr ht hb).mp hfits
    have hfew : waiting valid c < c.t := h.few hd' (hslots hslot) hfits' (ht ▸ hpos)
    have hone := storeCommit_waiting valid h.table.ids.distinct i f
    by_cases hmany : c.t ≤ waiting valid (storeCommit c i f)
    · -- the last of them has come: they are chosen
      have hfirst := hgood hf htk hmany
      obtain ⟨k, spkg, wire, e⟩ := tryForm_forms hempty htable hclean hcore hreq hd'
        (hslots hslot)
        hfits' hmany hfirst
      have hch := chooseSigners_eq htable.ids.distinct hclean
      have hlen : (chooseSigners (storeCommit c i f)).length = c.t := by
        rw [hch, List.length_take]
        have := waiting_le_inOrder (c := storeCommit c i f) hempty
        have ht' : (storeCommit c i f).t = c.t := rfl
        omega
      have hw := openSession_waiting valid htable.ids.distinct k spkg wire env.now
        fun id hid => ?_
      · rw [← e] at hw
        omega
      · rw [hch] at hid
        have hval := hfirst id hid
        have hcand : candidate (storeCommit c i f) id = true := by
          have hin := List.mem_of_mem_take hid
          unfold inOrder at hin
          rcases List.mem_append.mp hin with hin | hin <;>
          · have := (List.mem_filter.mp hin).2
            rw [Bool.and_eq_true] at this
            exact this.1
        unfold candidate at hcand
        unfold ready
        simp only [Bool.and_eq_true, Bool.not_eq_true', decide_eq_true_eq] at hcand ⊢
        exact ⟨⟨hcand.1.2, hcand.1.1⟩, hval⟩
    · have ht' : (tryForm (storeCommit c i f) env).t = c.t := ht
      omega

/-- Nothing but records changes, and none of them gets ready. -/
theorem Eager.records {d : Coord} (h : Eager valid c) (hsg : SgOnly c d) (htable : Table d)
    (hclean : SuspectsClean d)
    (hready : ∀ i ∈ c.signers, ready valid d i = true → ready valid c i = true) :
    Eager valid d ∧ d.signingDone = c.signingDone := by
  obtain ⟨_, rfl⟩ := hsg
  refine ⟨⟨h.mode, h.dkgState, htable, hclean, h.unset, fun hd hslot hfits hpos => ?_⟩, rfl⟩
  exact lt_of_le_of_lt (List.countP_mono_left fun i hi hr => hready i hi hr)
    (h.few hd hslot hfits hpos)

/-- A new signer has sent nothing yet. -/
theorem Eager.signer (h : Eager valid c) {env : HelloEnv} {payload : Bytes} {pid pn pt : Nat}
    (hp : parseHello payload = some (pid, pn, pt)) (hnt : c.n = 0 ∨ c.n = pn ∧ c.t = pt)
    (hr : Registers c env payload pid) (htable : Table (promote { c with n := pn, t := pt } pid)) :
    Eager valid (promote { c with n := pn, t := pt } pid) ∧
      (promote { c with n := pn, t := pt } pid).signingDone = c.signingDone := by
  have h1 := h.claim hp hnt
  obtain ⟨_, e⟩ := promote_shape (c := { c with n := pn, t := pt }) h.mode pid
  have hsg {j : Nat} (hne : j ≠ pid) :
      (promote { c with n := pn, t := pt } pid).sg j = c.sg j :=
    promote_sg_of_ne (c := { c with n := pn, t := pt }) h.mode hne
  have hnew : ((promote { c with n := pn, t := pt } pid).sg pid).signPhase = .init := by
    rw [promote_sg (c := { c with n := pn, t := pt }) h.mode]
    rfl
  obtain ⟨-, h2, h3, -⟩ := parseHello_some hp
  refine ⟨⟨?_, ?_, htable, fun j hj hpj => ?_, fun h0 => ?_, fun hd hslot hfits hpos => ?_⟩, ?_⟩
  · rw [e]; exact h.mode
  · rw [e]; exact h.dkgState
  · by_cases ej : j = pid
    · subst ej
      rw [hnew] at hpj
      cases hpj
    · rw [hsg ej] at hpj ⊢
      rw [e] at hj
      exact h.clean j (List.mem_of_ne_of_mem ej hj) hpj
  · rw [e] at h0
    have : pn = 0 := h0
    omega
  · have hw : waiting valid (promote { c with n := pn, t := pt } pid) ≤
        waiting valid { c with n := pn, t := pt } := by
      unfold waiting
      rw [show (promote { c with n := pn, t := pt } pid).signers = pid :: c.signers by rw [e],
        List.countP_cons_of_neg (by rw [ready_eq_false (by rw [hnew]; exact nofun)]; decide)]
      refine List.countP_mono_left fun i hi hri => ?_
      have hne : i ≠ pid := fun ei => hr.new (ei ▸ hi)
      have hbl : isBlacklisted (promote { c with n := pn, t := pt } pid) i =
          isBlacklisted c i := by
        rw [e]; rfl
      unfold ready at hri ⊢
      rwa [hsg hne, hbl] at hri
    have ht : (promote { c with n := pn, t := pt } pid).t = pt := by rw [e]
    rw [ht] at hpos ⊢
    refine lt_of_le_of_lt hw (h1.few (by rw [e] at hd; exact hd) ?_ ?_ hpos)
    · rw [e] at hslot; exact hslot
    · rw [e] at hfits; exact hfits
  · rw [e]

theorem Eager.drained (h : Eager valid c) {i : Nat} (hi : i ∈ c.signers) :
    Eager valid (drainSignerWrite c i) ∧
      (drainSignerWrite c i).signingDone = c.signingDone := by
  refine h.records (setSg_sgOnly ..) (h.table.taken h.mode (.drained hi)) (fun j hj hp => ?_)
    fun j _ hr => ?_
  · unfold drainSignerWrite at hp ⊢
    by_cases ej : j = i
    · subst ej
      rw [Coord.setSg_self] at hp ⊢
      exact h.clean j hj hp
    · rw [Coord.setSg_of_ne ej] at hp ⊢
      exact h.clean j hj hp
  · unfold ready drainSignerWrite at hr
    by_cases ej : j = i
    · subst ej
      rwa [Coord.setSg_self] at hr
    · rwa [Coord.setSg_of_ne ej] at hr

theorem Eager.gone (h : Eager valid c) {i : Nat} (htable : Table (removeSigner c i)) :
    Eager valid (removeSigner c i) ∧ (removeSigner c i).signingDone = c.signingDone := by
  refine ⟨⟨h.mode, h.dkgState, htable, fun j hj => h.clean j (List.mem_of_mem_filter hj),
    fun h0 => ?_, fun hd hslot hfits hpos => ?_⟩, rfl⟩
  · show c.signers.filter _ = []
    rw [h.unset h0]
    rfl
  · refine lt_of_le_of_lt ?_ (h.few hd hslot hfits hpos)
    exact (List.filter_sublist).countP_le

/-- A signer that has sent its share has no commitment to offer. -/
theorem Eager.share (h : Eager valid c) {i : Nat} {f : Frame} {k : Fin maxSessions} {slot : Nat}
    (htable : Table (fileShare c k slot i f.payload)) :
    Eager valid (fileShare c k slot i f.payload) ∧
      (fileShare c k slot i f.payload).signingDone = c.signingDone := by
  have hsg {j : Nat} (hne : j ≠ i) : (fileShare c k slot i f.payload).sg j = c.sg j :=
    Coord.setSg_of_ne hne _
  have hself : ((fileShare c k slot i f.payload).sg i).signPhase = .shared := by
    unfold fileShare
    rw [Coord.setSg_self]
  refine ⟨⟨h.mode, h.dkgState, htable, fun j hj hp => ?_, h.unset,
    fun hd hslot hfits hpos => ?_⟩, rfl⟩
  · by_cases ej : j = i
    · subst ej
      rw [hself] at hp
      cases hp
    · rw [hsg ej] at hp ⊢
      exact h.clean j hj hp
  · have hslot' : ∃ j, (c.sessions j).state = .empty := by
      obtain ⟨j, hj⟩ := hslot
      refine ⟨j, ?_⟩
      by_cases ej : j = k
      · subst ej
        rw [fileShare_session] at hj
        exact hj
      · rwa [fileShare_session_of_ne ej] at hj
    refine lt_of_le_of_lt (List.countP_mono_left fun j _ hr => ?_)
      (h.few hd hslot' hfits hpos)
    by_cases ej : j = i
    · subst ej
      rw [ready_eq_false (by rw [hself]; exact nofun)] at hr
      cases hr
    · unfold ready at hr ⊢
      rwa [hsg ej] at hr

theorem Eager.keyless (h : Eager valid c) {i : Nat} (htable : Table (onShareLoadFail c i)) :
    Eager valid (onShareLoadFail c i) ∧ (onShareLoadFail c i).signingDone = c.signingDone := by
  refine h.records (setSg_sgOnly ..) htable (fun j hj hp => ?_) fun j _ hr => ?_
  · unfold onShareLoadFail at hp ⊢
    by_cases ej : j = i
    · subst ej
      rw [Coord.setSg_self] at hp
      cases hp
    · rw [Coord.setSg_of_ne ej] at hp ⊢
      exact h.clean j hj hp
  · unfold ready onShareLoadFail at hr
    by_cases ej : j = i
    · subst ej
      rw [Coord.setSg_self] at hr
      simp at hr
    · rwa [Coord.setSg_of_ne ej] at hr

/-- The other things an event brings make nobody ready. -/
theorem Eager.taken {e : Event} {d : Coord} (h : Eager valid c) (ht : Taken c e d)
    (hno : ∀ i f env, e = .frame i f env → f.type = .commit → ¬ TakesCommit c i f) :
    Eager valid d ∧ d.signingDone = c.signingDone := by
  have htable := h.table.taken h.mode ht
  cases ht with
  | nothing => exact ⟨h, rfl⟩
  | claim hp hnt => exact ⟨h.claim hp hnt, rfl⟩
  | signer hp hnt hr => exact h.signer hp hnt hr htable
  | drained hi => exact h.drained hi
  | gone _ => exact h.gone htable
  | @commit i f env _ hf htk => exact absurd htk (hno i f env rfl hf)
  | share _ _ _ => exact h.share htable
  | keyless _ _ => exact h.keyless htable

/-- Where an event clears the success flag, it asks everybody. -/
theorem step_done (hd : c.signers.Nodup) (e : Event) (h : (step c e).signingDone = false) :
    c.signingDone = false ∨ waiting valid (step c e) = 0 := by
  have kept (hk : DoneKept c (step c e)) : c.signingDone = false ∨
      waiting valid (step c e) = 0 := by
    left
    cases hc : c.signingDone with
    | false => rfl
    | true =>
      rw [hk hc] at h
      cases h
  cases hx : c.exited with
  | true =>
    apply kept
    rw [step_exited hx]
    exact .of_eq rfl
  | false =>
    cases e with
    | loopHead env =>
      have hstep : step c (.loopHead env) = loopHead c env :=
        step_loopHead hx env
      have hexit : DoneKept c (exitIfQuiet c) := by
        unfold exitIfQuiet
        split <;> exact .of_eq rfl
      rw [hstep] at h kept ⊢
      unfold loopHead at h kept ⊢
      split
      · next hf =>
        rw [if_pos hf] at h kept
        exact kept hexit
      next hf =>
      rw [if_neg hf] at h kept
      split
      · next hdone =>
        rw [if_pos hdone] at h kept
        split
        · -- the restart
          right
          unfold nextMint
          refine broadcastSignReq_waiting ?_
          obtain ⟨d, tbs, hex, e | e⟩ := prepareTbs_cases (advanceSerial c) env <;>
          · rw [e]; exact hd
        · next hmint =>
          rw [if_neg hmint] at h kept
          exact kept hexit
      next hdone =>
      rw [if_neg hdone] at h kept
      split
      · next hcomp =>
        rw [if_pos hcomp] at h kept
        exact kept hexit
      · next hcomp =>
        rw [if_neg hcomp] at h kept
        exact kept (.of_eq rfl)
    | expire now env =>
      apply kept
      rw [step_expire hx]
      split
      · exact foldl_invariant (I := DoneKept c) (s := c)
          (fun d k _ hk hc => expireSlot_doneKept d now (env k) k (hk hc)) fun hc => hc
      · exact .of_eq rfl
    | hello env payload =>
      apply kept
      rw [step_hello hx]
      rcases onHello_taken c env payload with e | ⟨pid, pn, pt, -, -, e | ⟨-, e⟩⟩
      · rw [e]; exact .of_eq rfl
      · rw [e]; exact .of_eq rfl
      · obtain ⟨_, _, e'⟩ := promote_flowOnly { c with n := pn, t := pt } pid
        rw [e, e']
        exact .of_eq rfl
    | drain i =>
      apply kept
      rw [step_drain hx]
      split <;> exact .of_eq rfl
    | disconnect i =>
      apply kept
      rw [step_disconnect hx]
      split <;> exact .of_eq rfl
    | frame i f env =>
      apply kept
      rw [step_frame hx]
      split
      · exact processSignerFrame_doneKept c env i f
      · exact .of_eq rfl

/-- **One event** keeps the invariant. -/
theorem Eager.step (e : Event) (h : Eager valid c) (hempty : valid [] = false)
    (hreq : c.tbs ≠ []) (hgood : TakesGood valid c e) (hcore : CoreRuns valid e) :
    Eager valid (Coordinator.step c e) := by
  have hd := h.table.ids.distinct
  by_cases hcom : ∃ i f env, e = .frame i f env ∧ f.type = .commit ∧ TakesCommit c i f
  · obtain ⟨i, f, env, rfl, hf, htk⟩ := hcom
    have hstep : Coordinator.step c (.frame i f env) = c ∨
        Coordinator.step c (.frame i f env) = tryForm (storeCommit c i f) env := by
      unfold Coordinator.step
      split; · exact .inl rfl
      dsimp only
      split
      · unfold processSignerFrame
        rw [hf]
        rcases onCommit_cases c env i f with e | ⟨-, e⟩
        · exact .inl e
        · exact .inr e
      · exact .inl rfl
    rcases hstep with e | e
    · rw [e]; exact h
    · rw [e]; exact h.commit hempty hf htk hgood hcore hreq
  · obtain ⟨d, ht, hc⟩ := step_taken h.mode h.dkgState e
    obtain ⟨hE, hdone⟩ := h.taken ht fun i f env he hf htk => hcom ⟨i, f, env, he, hf, htk⟩
    refine hE.chain hc fun hfalse => ?_
    rw [hdone]
    exact step_done hd e hfalse

theorem Unused.eager (h : Unused c) (hm : c.mode = .sign) : Eager valid c := by
  refine ⟨hm, by rw [h.dkgState]; exact nofun, h.table, fun i hi => ?_, fun _ => h.signers,
    fun _ _ _ hpos => ?_⟩
  · rw [h.signers] at hi
    cases hi
  · unfold waiting
    rw [h.signers]
    exact hpos

/-- **Sessions form eagerly**: after any run of sign mode that takes good commitments
first, with a slot left and any `g_t` good commitments fitting one bundle, fewer than
`g_t` registered signers wait with a commitment the core can deserialize. -/
theorem sessions_form_eagerly {c₀ : Coord} {es : List Event} (h₀ : Started c₀)
    (hm : c₀.mode = .sign) (hempty : valid [] = false) (hcore : ∀ e ∈ es, CoreRuns valid e)
    (hC : Along step (TakesGood valid) c₀ es) (hdone : (run step c₀ es).signingDone = false)
    (hslot : ∃ k, ((run step c₀ es).sessions k).state = .empty)
    (hfits : Fits valid (run step c₀ es))
    (ht : 0 < (run step c₀ es).t) : waiting valid (run step c₀ es) < (run step c₀ es).t := by
  have hruns : Along step (fun _ e => CoreRuns valid e) c₀ es :=
    Along.of_mem fun e he _ => hcore e he
  have hE : Eager valid (run step c₀ es) :=
    ((hC.and hruns).invariant (I := fun c => Eager valid c ∧ c.tbs ≠ [])
      (fun _ e h hc => ⟨h.1.step e hempty h.2 hc.1 hc.2, step_request h.2 e⟩)
      ⟨h₀.unused.eager hm, h₀.request hm⟩).1
  exact hE.few hdone hslot hfits ht

/-! ## A bad commitment in front -/

/-- A toy core: a commitment is one byte. -/
def oneByte (commit : Bytes) : Bool := commit.length = 1

def pickyEnv : Env :=
  { quietEnv with
    assemble := fun b => if b.entries.all fun e => oneByte e.commit then some [] else none }

theorem pickyEnv_assembles : Assembles oneByte pickyEnv := by
  intro b _ _ hb _
  have hall : (b.entries.all fun e => oneByte e.commit) = true := List.all_eq_true.mpr hb
  show (if _ then some [] else none : Option Bytes).isSome = true
  rw [if_pos hall]
  rfl

def commits (id : Nat) (commit : Bytes) : Event :=
  .frame id ⟨.commit, List.replicate frameSigSize 0, commit⟩ pickyEnv

def threeJoin : List Event := [joins 1 3 2, joins 2 3 2, joins 3 3 2]

theorem threeJoin_coreRuns {es : List Event} (h : ∀ e ∈ es, ∃ i b, e = commits i b) :
    ∀ e ∈ threeJoin ++ es, CoreRuns oneByte e := by
  intro e he
  rcases List.mem_append.mp he with he | he
  · simp only [threeJoin, List.mem_cons, List.not_mem_nil, or_false] at he
    rcases he with rfl | rfl | rfl <;> trivial
  · obtain ⟨i, b, rfl⟩ := h e he
    exact pickyEnv_assembles

/-- Signer 1, the first to connect, has sent two bytes: the two behind it are chosen. -/
theorem sessions_form_eagerly_run :
    let c := run step (signStart 3 2 1) (threeJoin ++ [commits 1 [0, 0], commits 3 [1],
      commits 2 [2]])
    (c.sessions firstSlot).signerIds = [3, 2] ∧ waiting oneByte c < c.t := by
  refine ⟨by decide +kernel,
    sessions_form_eagerly (signStart_started (by decide) (by decide) (by decide)) rfl
      (by decide) (threeJoin_coreRuns ?_) ⟨trivial, trivial, trivial, ?_, ?_, ?_, trivial⟩ ?_
      ⟨⟨1, by decide⟩, ?_⟩ (Fits.of_size ?_ ?_) ?_⟩
  · intro e he
    simp only [List.mem_cons, List.not_mem_nil, or_false] at he
    rcases he with rfl | rfl | rfl <;> exact ⟨_, _, rfl⟩
  · exact fun _ _ hmany => absurd hmany (by decide +kernel)
  · exact fun _ _ hmany => absurd hmany (by decide +kernel)
  · exact fun _ _ _ => by decide +kernel
  · decide +kernel
  · decide +kernel
  · decide +kernel
  · decide +kernel
  · decide +kernel

/-- Signer 3, the last to connect, sends two bytes; 1 and 2 commit properly and
are left waiting, with every slot free. -/
theorem bad_commitment_blocks :
    let es := threeJoin ++ [commits 3 [0, 0], commits 1 [1], commits 2 [2]]
    let c := run step (signStart 3 2 1) es
    Started (signStart 3 2 1) ∧ (signStart 3 2 1).mode = .sign ∧ oneByte [] = false ∧
      (∀ e ∈ es, CoreRuns oneByte e) ∧ c.signingDone = false ∧
      (c.sessions firstSlot).state = .empty ∧ Fits oneByte c ∧ 0 < c.t ∧
      ¬ waiting oneByte c < c.t := by
  refine ⟨signStart_started (by decide) (by decide) (by decide), rfl, by decide,
    threeJoin_coreRuns ?_, ?_, ?_, Fits.of_size ?_ ?_, ?_, ?_⟩
  · intro e he
    simp only [List.mem_cons, List.not_mem_nil, or_false] at he
    rcases he with rfl | rfl | rfl <;> exact ⟨_, _, rfl⟩
  · decide +kernel
  · decide +kernel
  · decide +kernel
  · decide +kernel
  · decide +kernel
  · decide +kernel

end FrostSshCa.Coordinator
