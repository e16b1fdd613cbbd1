import FrostSshCa.Coordinator.Event
import FrostSshCa.Coordinator.Eligible

/-!
# The session table and the stored commitments

Slots are taken from the front and emptied all at once, so the used ones are a
prefix, and their ids count up to `g_next_session_id` modulo 2^32: no two used
slots share an id, and `roast_find` finds the session it is asked for.
-/

namespace FrostSshCa.Coordinator

open Lib

/-- The used slots are the first `u`, with consecutive ids below the next one. -/
structure UsedTo (c : Coord) (u : Nat) : Prop where
  used : ∀ k, (c.sessions k).state ≠ .empty ↔ k.val < u
  ids : ∀ k, k.val < u → ((c.sessions k).id + (u - k.val)) % 2 ^ 32 = c.nextSessionId
  small : ∀ k, (c.sessions k).id < 2 ^ 32
  next : c.nextSessionId < 2 ^ 32

structure Table (c : Coord) : Prop where
  ids : IdList c.signers
  /-- A stored commitment has passed the checks of `COMMIT`. -/
  sizes : ∀ i, (c.sg i).commit ≠ [] →
    (c.sg i).commit.length ≤ commitEntryMax ∧ (c.sg i).commitSig.length = frameSigSize
  members : ∀ k, (c.sessions k).state = .awaitingShares → IdList (c.sessions k).signerIds
  slots : ∃ u, UsedTo c u

variable {c c' : Coord} {S : Scope}

/-! ## Slots -/

theorem UsedTo.congr {u : Nat} (h : UsedTo c u) (hs : c'.sessions = c.sessions)
    (hn : c'.nextSessionId = c.nextSessionId) : UsedTo c' u := by
  refine ⟨?_, ?_, ?_, ?_⟩
  · rw [hs]; exact h.used
  · rw [hs, hn]; exact h.ids
  · rw [hs]; exact h.small
  · rw [hn]; exact h.next

/-- A used slot keeps its id and stays used. -/
theorem UsedTo.setSession {u : Nat} (h : UsedTo c u) (k : Fin maxSessions)
    {g : RoastSession → RoastSession} (hid : (g (c.sessions k)).id = (c.sessions k).id)
    (hst : (g (c.sessions k)).state ≠ .empty ↔ (c.sessions k).state ≠ .empty) :
    UsedTo (c.setSession k g) u := by
  have hid' (j : Fin maxSessions) : ((c.setSession k g).sessions j).id = (c.sessions j).id := by
    by_cases e : j = k
    · subst e; rw [Coord.setSession_self]; exact hid
    · rw [Coord.setSession_of_ne e]
  refine ⟨fun j => ?_, fun j hj => ?_, fun j => ?_, h.next⟩
  · by_cases e : j = k
    · subst e; rw [Coord.setSession_self]; exact hst.trans (h.used j)
    · rw [Coord.setSession_of_ne e]; exact h.used j
  · rw [hid']; exact h.ids j hj
  · rw [hid']; exact h.small j

theorem roastAlloc_some {k : Fin maxSessions} (h : roastAlloc c = some k) :
    (c.sessions k).state = .empty ∧ ∀ j < k, (c.sessions j).state ≠ .empty := by
  unfold roastAlloc at h
  obtain ⟨hp, as, bs, hl, has⟩ := List.find?_eq_some_iff_append.mp h
  refine ⟨by simpa using hp, fun j hj => ?_⟩
  have hmem : j ∈ as := by
    have hsorted := List.sortedLT_finRange maxSessions
    have hin : j ∈ as ++ k :: bs := hl ▸ List.mem_finRange j
    rcases List.mem_append.mp hin with hin | hin
    · exact hin
    · rw [hl] at hsorted
      have hpw := (List.pairwise_append.mp hsorted.pairwise).2.1
      rcases List.mem_cons.mp hin with rfl | hin
      · exact absurd hj (lt_irrefl _)
      · exact absurd (hj.trans ((List.pairwise_cons.mp hpw).1 j hin)) (lt_irrefl _)
  simpa using has j hmem

/-- The slot `roast_alloc` gives is the first unused one. -/
theorem UsedTo.alloc {u : Nat} (h : UsedTo c u) {k : Fin maxSessions} (hk : roastAlloc c = some k) :
    k.val = u := by
  obtain ⟨h1, h2⟩ := roastAlloc_some hk
  have hge : ¬ k.val < u := fun hlt => (h.used k).mpr hlt h1
  by_contra hne
  have hlt : u < k.val := by omega
  have hbound : u < maxSessions := hlt.trans k.isLt
  have := (h.used ⟨u, hbound⟩).mp (h2 ⟨u, hbound⟩ hlt)
  exact absurd this (lt_irrefl _)

theorem UsedTo.fill {u : Nat} (h : UsedTo c u) {k : Fin maxSessions} (hk : roastAlloc c = some k)
    (chosen : List Nat) (spkg : Bytes) (now : Nat) :
    UsedTo (fillSlot c k chosen spkg now) (u + 1) := by
  have hku := h.alloc hk
  have hval {j : Fin maxSessions} (e : j ≠ k) :
      j.val ≠ u := fun e' => e (Fin.ext (e'.trans hku.symm))
  have hnext : (fillSlot c k chosen spkg now).nextSessionId = (c.nextSessionId + 1) % 2 ^ 32 := rfl
  refine ⟨fun j => ?_, fun j hj => ?_, fun j => ?_, ?_⟩
  · by_cases e : j = k
    · subst e
      rw [fillSlot_self]
      exact ⟨fun _ => by omega, fun _ => nofun⟩
    · rw [fillSlot_of_ne e]
      have := hval e
      exact (h.used j).trans (by omega)
  · rw [hnext]
    by_cases e : j = k
    · subst e
      rw [fillSlot_self]
      show (c.nextSessionId + _) % _ = _
      rw [show u + 1 - j.val = 1 by omega]
    · rw [fillSlot_of_ne e]
      have hj' : j.val < u := by have := hval e; omega
      rw [← h.ids j hj', show u + 1 - j.val = u - j.val + 1 by omega]
      omega
  · by_cases e : j = k
    · subst e; rw [fillSlot_self]; exact h.next
    · rw [fillSlot_of_ne e]; exact h.small j
  · rw [hnext]; exact Nat.mod_lt _ (by decide)

/-- Used slots with one id are one slot. -/
theorem UsedTo.inj {u : Nat} (h : UsedTo c u) {j k : Fin maxSessions}
    (hj : (c.sessions j).state ≠ .empty) (hk : (c.sessions k).state ≠ .empty)
    (e : (c.sessions j).id = (c.sessions k).id) : j = k := by
  have hju := (h.used j).mp hj
  have hku := (h.used k).mp hk
  have h1 := h.ids j hju
  have h2 := h.ids k hku
  have hm : maxSessions = 64 := rfl
  have hjm := j.isLt
  have hkm := k.isLt
  rw [e] at h1
  apply Fin.ext
  omega

/-- `roast_find` finds an open session by its id. -/
theorem Table.find (h : Table c) {k : Fin maxSessions}
    (hk : (c.sessions k).state = .awaitingShares) :
    roastFind c (c.sessions k).id = some k := by
  obtain ⟨u, hu⟩ := h.slots
  have hne : (c.sessions k).state ≠ .empty := by rw [hk]; exact nofun
  cases e : roastFind c (c.sessions k).id with
  | none =>
    have := List.find?_eq_none.mp e k (List.mem_finRange k)
    exact absurd (decide_eq_true rfl) this
  | some j =>
    unfold roastFind at e
    obtain ⟨hp, as, bs, hl, has⟩ := List.find?_eq_some_iff_append.mp e
    have hid : (c.sessions j).id = (c.sessions k).id := by simpa using hp
    -- nothing before `j` has the id, so `k` is not before `j`, and `j` is used
    have hle : j ≤ k := by
      by_contra hlt
      have hlt : k < j := lt_of_not_ge hlt
      have hsorted := List.sortedLT_finRange maxSessions
      have hin : k ∈ as ++ j :: bs := hl ▸ List.mem_finRange k
      have hmem : k ∈ as := by
        rcases List.mem_append.mp hin with hin | hin
        · exact hin
        · rw [hl] at hsorted
          have hpw := (List.pairwise_append.mp hsorted.pairwise).2.1
          rcases List.mem_cons.mp hin with rfl | hin
          · exact absurd hlt (lt_irrefl _)
          · exact absurd (hlt.trans ((List.pairwise_cons.mp hpw).1 k hin)) (lt_irrefl _)
      have := has k hmem
      simp at this
    have hj : (c.sessions j).state ≠ .empty :=
      (hu.used j).mpr (lt_of_le_of_lt hle ((hu.used k).mp hne))
    exact congrArg some (hu.inj hj hne hid)

/-! ## The table through the links -/

theorem Table.congr (h : Table c) (hs : c'.signers = c.signers)
    (hsg : ∀ i, (c'.sg i).commit = (c.sg i).commit ∧ (c'.sg i).commitSig = (c.sg i).commitSig)
    (hse : c'.sessions = c.sessions) (hn : c'.nextSessionId = c.nextSessionId) : Table c' := by
  obtain ⟨u, hu⟩ := h.slots
  refine ⟨hs ▸ h.ids, fun i hi => ?_, ?_, u, hu.congr hse hn⟩
  · rw [(hsg i).1] at hi ⊢
    rw [(hsg i).2]
    exact h.sizes i hi
  · rw [hse]; exact h.members

/-- A record whose commitment is kept, dropped, or checked. -/
theorem Table.setSg (h : Table c) {i : Nat} {g : SignerRec → SignerRec}
    (hg : (g (c.sg i)).commit ≠ [] → (g (c.sg i)).commit.length ≤ commitEntryMax ∧
      (g (c.sg i)).commitSig.length = frameSigSize) : Table (c.setSg i g) := by
  obtain ⟨u, hu⟩ := h.slots
  refine ⟨h.ids, fun j hj => ?_, h.members, u, hu.congr rfl rfl⟩
  by_cases e : j = i
  · subst e; rw [Coord.setSg_self] at hj ⊢; exact hg hj
  · rw [Coord.setSg_of_ne e] at hj ⊢; exact h.sizes j hj

theorem Table.setSg_keep (h : Table c) {i : Nat} {g : SignerRec → SignerRec}
    (h1 : (g (c.sg i)).commit = (c.sg i).commit)
    (h2 : (g (c.sg i)).commitSig = (c.sg i).commitSig) :
    Table (c.setSg i g) := by
  refine h.setSg fun hne => ?_
  rw [h1] at hne ⊢
  rw [h2]
  exact h.sizes i hne

theorem Table.send (h : Table c) (i : Nat) (type : MsgType) (sig payload : Bytes) :
    Table (c.signerSend i type sig payload) :=
  h.setSg_keep (i := i) (g := fun r => { r with msgq := r.msgq ++ [⟨type, sig, payload⟩] }) rfl rfl

theorem Table.request (h : Table c) (p : SPhase) (i : Nat) : Table (requestCommit c p i) := by
  have h1 : Table (c.setSg i fun r => { r with signPhase := p, commit := [], sessionId := 0 }) :=
    h.setSg fun hne => absurd rfl hne
  exact h1.send ..

theorem Table.setPhase (h : Table c) (i : Nat) (p : SPhase) : Table (setPhase c i p) := by
  unfold Coordinator.setPhase
  split
  · exact h.setSg_keep rfl rfl
  · exact h

/-- A session that keeps its id and its members, and is not opened. -/
theorem Table.setSession (h : Table c) (k : Fin maxSessions) {g : RoastSession → RoastSession}
    (hid : (g (c.sessions k)).id = (c.sessions k).id)
    (hst : (g (c.sessions k)).state ≠ .empty ↔ (c.sessions k).state ≠ .empty)
    (hmem : (g (c.sessions k)).state = .awaitingShares → (c.sessions k).state = .awaitingShares ∧
      (g (c.sessions k)).signerIds = (c.sessions k).signerIds) : Table (c.setSession k g) := by
  obtain ⟨u, hu⟩ := h.slots
  refine ⟨h.ids, h.sizes, fun j hj => ?_, u, hu.setSession k hid hst⟩
  by_cases e : j = k
  · subst e
    rw [Coord.setSession_self] at hj ⊢
    obtain ⟨h1, h2⟩ := hmem hj
    rw [h2]
    exact h.members j h1
  · rw [Coord.setSession_of_ne e] at hj ⊢
    exact h.members j hj

theorem Table.form (h : Table c) {env : Env} {k : Fin maxSessions} {spkg wire : Bytes}
    (hf : Forms c env k spkg wire) :
    Table (openSession c k (chooseSigners c) spkg wire env.now) := by
  obtain ⟨u, hu⟩ := h.slots
  have hfill : Table (fillSlot c k (chooseSigners c) spkg env.now) := by
    refine ⟨h.ids, h.sizes, fun j hj => ?_, u + 1, hu.fill hf.slot ..⟩
    by_cases e : j = k
    · subst e
      rw [fillSlot_self]
      exact ⟨chooseSigners_nodup c h.ids.distinct, fun id hid =>
        h.ids.range id (mem_chooseSigners c hid).1⟩
    · rw [fillSlot_of_ne e] at hj ⊢
      exact h.members j hj
  refine foldl_invariant (I := Table) (fun d id _ hd => ?_) hfill
  have h1 : Table (d.setSg id fun r =>
      { r with signPhase := .inSession, sessionId := c.nextSessionId }) := hd.setSg_keep rfl rfl
  exact h1.send ..

theorem RecIdle.commit {r r' : SignerRec} (h : RecIdle r r') :
    r'.commit = r.commit ∧ r'.commitSig = r.commitSig := by
  have hv := h.view
  simp only [SignerRec.signView, Prod.mk.injEq] at hv
  exact ⟨hv.1, hv.2.1⟩

/-- **Every link keeps the table.** -/
theorem Table.link (hl : Link S c c') (h : Table c) : Table c' := by
  cases hl with
  | idle hi => exact h.congr hi.signers (fun i => (hi.sg i).commit) hi.sessions hi.nextSessionId
  | @close k hk st hst =>
    refine h.setSession k rfl ?_ ?_
    · exact ⟨fun _ => by rw [hk]; exact nofun,
        fun _ => by rcases hst with rfl | rfl <;> exact nofun⟩
    · intro hopen; rcases hst with rfl | rfl <;> cases hopen
  | @black id _ =>
    refine Table.setPhase ?_ id .blacklisted
    unfold blacklistSigner
    split
    · exact h
    · exact h.congr rfl (fun _ => ⟨rfl, rfl⟩) rfl rfl
  | @strike id _ =>
    unfold addStrike
    split
    · exact h.congr rfl (fun _ => ⟨rfl, rfl⟩) rfl rfl
    · exact h
  | request _ _ _ => exact h.request ..
  | form _ hf => exact h.form hf
  | @restart d hr _ =>
    obtain ⟨u, hu⟩ := h.slots
    have hd : Table d := by
      rcases hr.sessions with e | e
      · exact h.congr hr.signers (fun _ => by rw [hr.sg]; exact ⟨rfl, rfl⟩) e hr.nextSessionId
      · refine ⟨hr.signers ▸ h.ids, ?_, ?_, 0, ?_, ?_, ?_, ?_⟩
        · rw [hr.sg]; exact h.sizes
        · intro k hk; rw [e] at hk; cases hk
        · intro k; rw [e]; exact ⟨fun hne => absurd rfl hne, fun hlt => absurd hlt (Nat.not_lt_zero _)⟩
        · intro k hk; exact absurd hk (Nat.not_lt_zero _)
        · intro k; rw [e]; exact Nat.two_pow_pos 32
        · rw [hr.nextSessionId]; exact hu.next
    refine foldl_invariant (I := Table) (fun d' id _ hd' => ?_) hd
    split
    · exact hd'
    · exact hd'.request ..

/-- The bundle of a session fits its struct. -/
theorem Table.bundle_wf (ht : Table c) {b : CommitBundle}
    (hb : buildBundle c (chooseSigners c) = some b) : b.Wf := by
  obtain ⟨htbs, hb'⟩ := buildBundle_some hb
  have hmem (j : Nat) (hj : j ∈ chooseSigners c) := mem_chooseSigners c hj
  rw [hb']
  refine ⟨fun e he => ?_, ?_, htbs⟩
  · obtain ⟨j, hj, rfl⟩ := List.mem_map.mp he
    obtain ⟨hin, hok⟩ := hmem j hj
    have hne : (c.sg j).commit ≠ [] := by
      have hlen : 0 < (c.sg j).commit.length := by
        rcases hok with hok | hok
        · simp only [reliable, Bool.and_eq_true, decide_eq_true_eq] at hok
          exact hok.1.2
        · simp only [suspected, Bool.and_eq_true, decide_eq_true_eq] at hok
          exact hok.1.1.2
      exact List.length_pos_iff.mp hlen
    have hr := (ht.ids.range j hin).2
    have hm : maxSigners < 65536 := by decide
    exact ⟨by show j < 65536; omega, (ht.sizes j hne).1, (ht.sizes j hne).2⟩
  · rw [List.length_map]
    -- distinct ids of signers
    have hnd := chooseSigners_nodup c ht.ids.distinct
    have hsub : chooseSigners c ⊆ (List.range maxSigners).map (· + 1) := by
      intro j hj
      have := ht.ids.range j (hmem j hj).1
      exact List.mem_map.mpr ⟨j - 1, List.mem_range.mpr (by omega), by omega⟩
    have := (hnd.subperm hsub).length_le
    simpa using this

/-- A member unpacks the bundle that was packed. -/
theorem Table.unpacks (ht : Table c) {b : CommitBundle} {wire : Bytes}
    (hb : buildBundle c (chooseSigners c) = some b)
    (hw : packCommitBundle commitBundleWireMax b = some wire) :
    ∃ n, unpackCommitBundle wire = some (b, n) := by
  have hun := unpackCommitBundle_pack (ht.bundle_wf hb) hw []
  rw [List.append_nil] at hun
  exact ⟨_, hun⟩

/-! ## The table over runs -/

theorem Table.file (h : Table c) {k : Fin maxSessions} (slot i : Nat) (share : Bytes) :
    Table (fileShare c k slot i share) :=
  (h.setSession k (g := fun s =>
    { s with shares := Function.update s.shares slot share, nShares := s.nShares + 1 })
    rfl Iff.rfl fun hk => ⟨hk, rfl⟩).setSg_keep rfl rfl

theorem Table.promote (h : Table c) (hm : c.mode = .sign) {i : Nat} (hnew : i ∉ c.signers)
    (hr : 1 ≤ i ∧ i ≤ maxSigners) : Table (promote c i) := by
  obtain ⟨_, e⟩ := promote_shape hm i
  obtain ⟨u, hu⟩ := h.slots
  have hses : (Coordinator.promote c i).sessions = c.sessions := by rw [e]
  refine ⟨⟨?_, fun j hj => ?_⟩, fun j hj => ?_, fun k hk => ?_, u, hu.congr hses (by rw [e])⟩
  · rw [e]
    exact List.nodup_cons.mpr ⟨hnew, h.ids.distinct⟩
  · rw [e] at hj
    rcases List.mem_cons.mp hj with rfl | hj
    · exact hr
    · exact h.ids.range j hj
  · by_cases ej : j = i
    · subst ej
      rw [promote_sg hm] at hj
      exact absurd rfl hj
    · rw [promote_sg_of_ne hm ej] at hj ⊢
      exact h.sizes j hj
  · rw [hses] at hk ⊢
    exact h.members k hk

theorem Table.taken {e : Event} {d : Coord} (h : Table c) (hm : c.mode = .sign)
    (ht : Taken c e d) : Table d := by
  cases ht with
  | nothing => exact h
  | claim _ _ => exact h.congr rfl (fun _ => ⟨rfl, rfl⟩) rfl rfl
  | @signer _ _ pid pn pt hp _ hr =>
    have h1 : Table { c with n := pn, t := pt } := h.congr rfl (fun _ => ⟨rfl, rfl⟩) rfl rfl
    obtain ⟨h0, h2, -, h3, -⟩ := parseHello_some hp
    exact h1.promote hm hr.new ⟨h0, h2.trans h3⟩
  | drained _ => exact h.setSg_keep rfl rfl
  | @gone i _ =>
    obtain ⟨u, hu⟩ := h.slots
    exact ⟨⟨h.ids.distinct.filter _, fun j hj => h.ids.range j (List.mem_of_mem_filter hj)⟩,
      h.sizes, h.members, u, hu.congr rfl rfl⟩
  | commit _ _ ht => exact h.setSg fun _ => ⟨ht.size, ht.sigSize⟩
  | share _ _ _ => exact h.file ..
  | keyless _ _ => exact h.setSg_keep rfl rfl

/-- **The table in every reached state of sign mode.** -/
theorem Table.step (h : Table c) (hm : c.mode = .sign) (hd : c.dkgState ≠ .collectingR1)
    (e : Event) : Table (step c e) := by
  obtain ⟨d, ht, hc⟩ := step_taken hm hd e
  exact hc.invariant (fun _ _ hl hi => hi.link hl) (h.taken hm ht)

theorem Unused.table (h : Unused c) : Table c := by
  refine ⟨⟨?_, fun i hi => ?_⟩, fun i hi => ?_, fun k hk => ?_, 0, ?_, ?_, ?_, ?_⟩
  · rw [h.signers]; exact List.nodup_nil
  · rw [h.signers] at hi; cases hi
  · rw [h.sg] at hi; exact absurd rfl hi
  · rw [h.sessions] at hk; cases hk
  · intro k
    rw [h.sessions]
    exact ⟨fun hne => absurd rfl hne, fun hlt => absurd hlt (Nat.not_lt_zero _)⟩
  · exact fun k hk => absurd hk (Nat.not_lt_zero _)
  · intro k
    rw [h.sessions]
    exact Nat.two_pow_pos 32
  · rw [h.nextSessionId]
    decide

end FrostSshCa.Coordinator
