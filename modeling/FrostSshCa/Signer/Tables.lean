import FrostSshCa.Signer.Nonce

/-!
# The tables of peer packages

`RELAY_R1`, `RELAY_R2`, `RELAY_REFRESH_R1` and `RELAY_REFRESH_R2` each append to a table of
their own and compare its length with `g_n - 1`. A slot is filled once the signature of the
frame is verified: nobody looks at the ids that are there already or at the signer's own,
and a round-2 slot is taken before its package is decrypted. The tables are what they are
meant to be along the frames that arrive as the protocol has them, and no others.
-/

namespace FrostSshCa.Signer

open Lib

/-- The four tables. -/
inductive PeerTable where
  | r1 | r2 | refR1 | refR2
  deriving DecidableEq, Repr

namespace PeerTable

/-- The frame that fills a table. -/
def msg : PeerTable → MsgType
  | r1 => .relayR1
  | r2 => .relayR2
  | refR1 => .relayRefreshR1
  | refR2 => .relayRefreshR2

/-- The slots filled so far. -/
def of : PeerTable → Node → List (Nat × Bytes)
  | r1, s => s.peerR1
  | r2, s => s.peerR2
  | refR1, s => s.refPeerR1
  | refR2, s => s.refPeerR2

/-- The package of a frame that passes every check of its case. -/
def opened (T : PeerTable) (keys : Keys) (i : Nat) (f : Frame) : Option (Nat × Bytes) :=
  match T with
  | r1 | refR1 => openR1 keys f
  | r2 | refR2 => (openR2 keys f).bind fun r => (keys.decrypt i r.2).map fun pkg => (r.1, pkg)

/-- What a frame with a good signature leaves in its slot. -/
def slot (T : PeerTable) (keys : Keys) (i : Nat) (f : Frame) : Option (Nat × Bytes) :=
  match T with
  | r1 | refR1 => openR1 keys f
  | r2 | refR2 => (openR2 keys f).map fun r =>
      ((keys.decrypt i r.2).map fun pkg => (r.1, pkg)).getD (0, [])

end PeerTable

variable {keys : Keys} {env : Env} {s s' : Node} {f : Frame} {T : PeerTable}

/-- The slot the frame fills, where there is one left. -/
def filed (T : PeerTable) (keys : Keys) (s : Node) (f : Frame) : List (Nat × Bytes) :=
  if f.type = T.msg ∧ (T.of s).length < maxSigners then (T.slot keys s.myId f).toList else []

/-- The table as the frame leaves it, where that makes `n - 1` packages or more. -/
def completed (T : PeerTable) (keys : Keys) (s : Node) (f : Frame) : Option (List (Nat × Bytes)) :=
  (T.opened keys s.myId f).bind fun p =>
    if (T.of s).length ≥ maxSigners then none
    else if (T.of s ++ [p]).length + 1 < s.n then none
    else some (T.of s ++ [p])

/-- The tables that `frost_dkg_part2`, `frost_dkg_part3`, `frost_refresh_part2` and
`frost_refresh_shares` are called with on a frame. -/
def handed (keys : Keys) (s : Node) (f : Frame) : List (List (Nat × Bytes)) :=
  match f.type with
  | .relayR1 => (completed .r1 keys s f).toList
  | .relayR2 => (completed .r2 keys s f).elim [] fun l => [s.peerR1, l]
  | .relayRefreshR1 => (completed .refR1 keys s f).toList
  | .refreshFinalize =>
    if s.refPeerR2.length + 1 ≠ s.n then [] else [s.refPeerR1, s.refPeerR2]
  | _ => []

/-! ## What is meant -/

/-- Packages of distinct peers of signer `i`. -/
structure OfPeers (i : Nat) (l : List (Nat × Bytes)) : Prop where
  distinct : (l.map Prod.fst).Nodup
  others : i ∉ l.map Prod.fst

/-- Each table holds authentic packages of distinct peers. -/
structure Genuine (keys : Keys) (s : Node) : Prop where
  peers : ∀ T : PeerTable, OfPeers s.myId (T.of s)
  authentic : ∀ T : PeerTable, ∀ p ∈ T.of s, ∃ f, T.opened keys s.myId f = some p

/-- A frame for table `T` that does not get in: a check fails, or the table is full. -/
def Rejected (T : PeerTable) (keys : Keys) (s : Node) (f : Frame) : Prop :=
  f.type = T.msg ∧ (T.opened keys s.myId f = none ∨ (T.of s).length ≥ maxSigners)

/-- A rejected frame leaves the tables alone, the tables stay genuine, and a round is
started with one package from each of `n - 1` peers. -/
structure Proper (keys : Keys) (s : Node) (f : Frame) (s' : Node) : Prop where
  rejected : ∀ T, Rejected T keys s f → ∀ T' : PeerTable, T'.of s' = T'.of s
  genuine : Genuine keys s'
  rounds : ∀ l ∈ handed keys s f, l.length + 1 = s.n ∧ OfPeers s.myId l

/-- The frame arrives as the protocol has it: a package with a good signature decrypts, is
of a peer not heard before and not of one too many, and the second round ends after the
first. -/
structure Orderly (keys : Keys) (s : Node) (f : Frame) : Prop where
  entry : ∀ T : PeerTable, f.type = T.msg → (T.of s).length < maxSigners →
    T.slot keys s.myId f ≠ none → ∃ p, T.opened keys s.myId f = some p ∧
      p.1 ≠ s.myId ∧ p.1 ∉ (T.of s).map Prod.fst ∧ (T ≠ .refR2 → (T.of s).length + 2 ≤ s.n)
  last : f.type = .relayR2 → s.peerR2.length < maxSigners →
    PeerTable.r2.opened keys s.myId f ≠ none → s.peerR2.length + 2 = s.n →
      s.peerR1.length + 1 = s.n
  finalize : f.type = .refreshFinalize → s.refPeerR2.length + 1 = s.n →
    s.refPeerR1.length + 1 = s.n

/-! ## What a frame does to the tables -/

/-- All four at once, and whose they are. -/
def tables (s : Node) := (s.myId, s.peerR1, s.peerR2, s.refPeerR1, s.refPeerR2)

theorem of_eq_of_tables (h : tables s' = tables s) (T : PeerTable) : T.of s' = T.of s := by
  simp only [tables, Prod.mk.injEq] at h
  cases T with
  | r1 => exact h.2.1
  | r2 => exact h.2.2.1
  | refR1 => exact h.2.2.2.1
  | refR2 => exact h.2.2.2.2

theorem sendAllR2_tables (m : MsgType) (out : List (Nat × Bytes)) (s : Node) :
    tables (sendAllR2 keys env s m out) = tables s := by
  obtain ⟨q, l, e⟩ : ∃ q l, sendAllR2 keys env s m out = { s with outq := q, log := l } :=
    sendAllR2_eq m out s
  rw [e]
  rfl

theorem saveKeyMaterial_tables (s : Node) (env : Env) :
    tables (saveKeyMaterial s env).1 = tables s := by
  unfold saveKeyMaterial
  cases env.keyWrite <;> rfl

theorem filed_none (h : T.slot keys s.myId f = none) : filed T keys s f = [] := by
  unfold filed
  rw [h]
  exact ite_self _

theorem filed_full (h : (T.of s).length ≥ maxSigners) : filed T keys s f = [] :=
  if_neg fun hr => absurd hr.2 (Nat.not_lt.mpr h)

theorem filed_room {p : Nat × Bytes} (hf : f.type = T.msg) (h : ¬ (T.of s).length ≥ maxSigners)
    (hp : T.slot keys s.myId f = some p) : filed T keys s f = [p] := by
  unfold filed
  rw [if_pos ⟨hf, Nat.lt_of_not_le h⟩, hp]
  rfl

theorem filed_other (hf : f.type ≠ T.msg) : filed T keys s f = [] :=
  if_neg fun hr => hf hr.1

theorem onRelayR1_tables (hf : f.type = .relayR1) : tables (onRelayR1 keys env s f) =
    (s.myId, s.peerR1 ++ filed .r1 keys s f, s.peerR2, s.refPeerR1, s.refPeerR2) := by
  unfold onRelayR1
  cases ho : openR1 keys f with
  | none =>
    rw [filed_none (show PeerTable.slot .r1 keys s.myId f = none from ho), List.append_nil]
    rfl
  | some p =>
    dsimp only
    by_cases hroom : s.peerR1.length ≥ maxSigners
    · rw [if_pos hroom, filed_full (show (PeerTable.of .r1 s).length ≥ maxSigners from hroom),
        List.append_nil]
      rfl
    rw [if_neg hroom, filed_room hf (show ¬ (PeerTable.of .r1 s).length ≥ maxSigners from hroom) ho]
    split
    · rfl
    split
    · rfl
    · exact sendAllR2_tables ..

theorem onRelayRefreshR1_tables (hf : f.type = .relayRefreshR1) :
    tables (onRelayRefreshR1 keys env s f) =
    (s.myId, s.peerR1, s.peerR2, s.refPeerR1 ++ filed .refR1 keys s f, s.refPeerR2) := by
  unfold onRelayRefreshR1
  cases ho : openR1 keys f with
  | none =>
    rw [filed_none (show PeerTable.slot .refR1 keys s.myId f = none from ho), List.append_nil]
    rfl
  | some p =>
    dsimp only
    by_cases hroom : s.refPeerR1.length ≥ maxSigners
    · rw [if_pos hroom, filed_full (show (PeerTable.of .refR1 s).length ≥ maxSigners from hroom),
        List.append_nil]
      rfl
    rw [if_neg hroom, filed_room hf (show ¬ (PeerTable.of .refR1 s).length ≥ maxSigners from hroom)
      ho]
    split
    · rfl
    split
    · rfl
    · exact sendAllR2_tables ..

theorem finishDkg_tables (key pub : Bytes) (s : Node) :
    tables (finishDkg keys env s key pub) = tables s := by
  unfold finishDkg
  exact saveKeyMaterial_tables _ env

theorem onRelayR2_tables (hf : f.type = .relayR2) : tables (onRelayR2 keys env s f) =
    (s.myId, s.peerR1, s.peerR2 ++ filed .r2 keys s f, s.refPeerR1, s.refPeerR2) := by
  unfold onRelayR2
  cases ho : openR2 keys f with
  | none =>
    rw [filed_none (show PeerTable.slot .r2 keys s.myId f = none by simp [PeerTable.slot, ho]),
      List.append_nil]
    rfl
  | some r =>
    have hslot : PeerTable.slot .r2 keys s.myId f =
        some (((keys.decrypt s.myId r.2).map fun pkg => (r.1, pkg)).getD (0, [])) := by
      simp [PeerTable.slot, ho]
    dsimp only
    by_cases hroom : s.peerR2.length ≥ maxSigners
    · rw [if_pos hroom, filed_full (show (PeerTable.of .r2 s).length ≥ maxSigners from hroom),
        List.append_nil]
      rfl
    rw [if_neg hroom, filed_room hf (show ¬ (PeerTable.of .r2 s).length ≥ maxSigners from hroom)
      hslot]
    cases keys.decrypt s.myId r.2 with
    | none => rfl
    | some pkg =>
      dsimp only
      split
      · rfl
      split
      · rfl
      · exact finishDkg_tables ..

theorem onRelayRefreshR2_tables (hf : f.type = .relayRefreshR2) :
    tables (onRelayRefreshR2 keys s f) =
    (s.myId, s.peerR1, s.peerR2, s.refPeerR1, s.refPeerR2 ++ filed .refR2 keys s f) := by
  unfold onRelayRefreshR2
  cases ho : openR2 keys f with
  | none =>
    rw [filed_none (show PeerTable.slot .refR2 keys s.myId f = none by simp [PeerTable.slot, ho]),
      List.append_nil]
    rfl
  | some r =>
    have hslot : PeerTable.slot .refR2 keys s.myId f =
        some (((keys.decrypt s.myId r.2).map fun pkg => (r.1, pkg)).getD (0, [])) := by
      simp [PeerTable.slot, ho]
    dsimp only
    by_cases hroom : s.refPeerR2.length ≥ maxSigners
    · rw [if_pos hroom, filed_full (show (PeerTable.of .refR2 s).length ≥ maxSigners from hroom),
        List.append_nil]
      rfl
    rw [if_neg hroom, filed_room hf (show ¬ (PeerTable.of .refR2 s).length ≥ maxSigners from hroom)
      hslot]
    cases keys.decrypt s.myId r.2 with
    | none => rfl
    | some pkg =>
      rfl

/-! Every other frame leaves them alone. -/

theorem loadOrFail_tables (s : Node) : tables (loadOrFail keys env s).1 = tables s := by
  have h : tables (loadKeyMaterial s env).1 = tables s := by
    unfold loadKeyMaterial
    split
    · rfl
    · rfl
    · split <;> rfl
  unfold loadOrFail
  split
  · next e => rw [e] at h; exact h
  · next e => rw [e] at h; exact h

theorem onHelloAck_tables (f : Frame) : tables (onHelloAck keys env s f) = tables s := by
  unfold onHelloAck
  split
  · rfl
  split
  · rfl
  dsimp only
  split
  · rfl
  · exact loadOrFail_tables _

theorem onStartDkg_tables (f : Frame) : tables (onStartDkg keys env s f) = tables s := by
  unfold onStartDkg
  split
  · rfl
  dsimp only
  split <;> rfl

theorem onStartRefresh_tables (f : Frame) : tables (onStartRefresh keys env s f) = tables s := by
  unfold onStartRefresh
  split
  · rfl
  dsimp only
  split <;> rfl

theorem finishRefresh_tables (s : Node) (key pub : Bytes) :
    tables (finishRefresh keys env s key pub) = tables s := by
  have h : tables (saveKeyMaterial { s with keyPkg := key, pubKeyPkg := pub } env).1 = tables s :=
    saveKeyMaterial_tables _ env
  unfold finishRefresh
  split
  · next e => rw [e] at h; exact h
  · next e => rw [e] at h; exact h

theorem onRefreshFinalize_tables : tables (onRefreshFinalize keys env s) = tables s := by
  unfold onRefreshFinalize
  split
  · rfl
  dsimp only
  split
  · rfl
  · exact finishRefresh_tables _ _ _

theorem freshCommit_tables (s : Node) (answer : Bytes → CommitResult) :
    tables (freshCommit s answer).1 = tables s := by
  rcases freshCommit_cases s answer with ⟨_, _, -, -, e⟩ | ⟨_, -, e⟩
  · rw [e]
    rfl
  · rw [e]
    rfl

theorem sendCommit_tables (s : Node) : tables (sendCommit keys s) = tables s := by
  unfold sendCommit
  split <;> rfl

theorem onSignReq_tables (f : Frame) : tables (onSignReq keys env s f) = tables s := by
  have hk : tables (ensureKey keys env s).1 = tables s := by
    unfold ensureKey
    split
    · exact loadOrFail_tables s
    · rfl
  have ha (s : Node) : tables (acceptRequest keys env s f.payload) = tables s := by
    have h := freshCommit_tables { s with tbs := f.payload, state := .signing } env.commit
    unfold acceptRequest
    dsimp only
    split
    · exact sendCommit_tables _
    split
    · next e => rw [e] at h; exact h
    · next e => rw [e] at h; exact (sendCommit_tables _).trans h
  unfold onSignReq
  split
  · next e => rw [e] at hk; exact hk
  · next e =>
    rw [e] at hk
    split
    · exact hk
    · exact (ha _).trans hk

theorem onRelayCommit_tables (f : Frame) : tables (onRelayCommit keys env s f) = tables s := by
  unfold onRelayCommit
  split
  · rfl
  unfold signBundle
  split
  · rfl
  split <;> rfl

theorem onError_tables : tables (onError s) = tables s := by
  unfold onError
  split <;> rfl

theorem precompute_tables : tables (precompute env s) = tables s := by
  have h := freshCommit_tables s env.precommit
  unfold precompute
  split
  · split
    · next e => rw [e] at h; exact h
    · next e => rw [e] at h; exact h
  · rfl

theorem process_myId (keys : Keys) (env : Env) (s : Node) (f : Frame) :
    (processCoordFrame keys env s f).myId = s.myId := by
  have first {x : Node} {r : List (Nat × Bytes) × List (Nat × Bytes) × List (Nat × Bytes) ×
      List (Nat × Bytes)} (h : tables x = (s.myId, r)) : x.myId = s.myId := (Prod.mk.inj h).1
  unfold processCoordFrame
  cases e : f.type with
  | relayR1 => exact first (onRelayR1_tables e)
  | relayR2 => exact first (onRelayR2_tables e)
  | relayRefreshR1 => exact first (onRelayRefreshR1_tables e)
  | relayRefreshR2 => exact first (onRelayRefreshR2_tables e)
  | helloAck => exact first (onHelloAck_tables f)
  | startDkg => exact first (onStartDkg_tables f)
  | startRefresh => exact first (onStartRefresh_tables f)
  | refreshFinalize => exact first onRefreshFinalize_tables
  | signReq => exact first (onSignReq_tables f)
  | relayCommit => exact first (onRelayCommit_tables f)
  | error => exact first onError_tables
  | _ => rfl

/-- **One table, one case**: a frame appends its slot to its own table. -/
theorem process_table (keys : Keys) (env : Env) (s : Node) (f : Frame) (T : PeerTable) :
    T.of (processCoordFrame keys env s f) = T.of s ++ filed T keys s f := by
  -- a frame of none of the four types
  have other (hf : ∀ T : PeerTable, f.type ≠ T.msg)
      (h : tables (processCoordFrame keys env s f) = tables s) :
      T.of (processCoordFrame keys env s f) = T.of s ++ filed T keys s f := by
    rw [filed_other (hf T), List.append_nil]
    exact of_eq_of_tables h T
  -- a frame of table `U`
  have own {U : PeerTable} (hf : f.type = U.msg)
      (h : ∀ T, T.of (processCoordFrame keys env s f) =
        if T = U then T.of s ++ filed T keys s f else T.of s) :
      T.of (processCoordFrame keys env s f) = T.of s ++ filed T keys s f := by
    rw [h T]
    split
    · rfl
    next hne =>
    rw [filed_other (fun h => hne ?_), List.append_nil]
    rw [hf] at h
    cases T <;> cases U <;> first | rfl | cases h
  unfold processCoordFrame at other own ⊢
  cases e : f.type with
  | relayR1 =>
    rw [e] at own
    refine own (U := .r1) rfl fun T => ?_
    have h : tables (onRelayR1 keys env s f) = _ := onRelayR1_tables e
    simp only [tables, Prod.mk.injEq] at h
    cases T <;> simp [PeerTable.of, h]
  | relayR2 =>
    rw [e] at own
    refine own (U := .r2) rfl fun T => ?_
    have h : tables (onRelayR2 keys env s f) = _ := onRelayR2_tables e
    simp only [tables, Prod.mk.injEq] at h
    cases T <;> simp [PeerTable.of, h]
  | relayRefreshR1 =>
    rw [e] at own
    refine own (U := .refR1) rfl fun T => ?_
    have h : tables (onRelayRefreshR1 keys env s f) = _ := onRelayRefreshR1_tables e
    simp only [tables, Prod.mk.injEq] at h
    cases T <;> simp [PeerTable.of, h]
  | relayRefreshR2 =>
    rw [e] at own
    refine own (U := .refR2) rfl fun T => ?_
    have h : tables (onRelayRefreshR2 keys s f) = _ := onRelayRefreshR2_tables e
    simp only [tables, Prod.mk.injEq] at h
    cases T <;> simp [PeerTable.of, h]
  | helloAck =>
    rw [e] at other
    exact other (fun T => by cases T <;> exact nofun) (onHelloAck_tables f)
  | startDkg =>
    rw [e] at other
    exact other (fun T => by cases T <;> exact nofun) (onStartDkg_tables f)
  | startRefresh =>
    rw [e] at other
    exact other (fun T => by cases T <;> exact nofun) (onStartRefresh_tables f)
  | refreshFinalize =>
    rw [e] at other
    exact other (fun T => by cases T <;> exact nofun) onRefreshFinalize_tables
  | signReq =>
    rw [e] at other
    exact other (fun T => by cases T <;> exact nofun) (onSignReq_tables f)
  | relayCommit =>
    rw [e] at other
    exact other (fun T => by cases T <;> exact nofun) (onRelayCommit_tables f)
  | error =>
    rw [e] at other
    exact other (fun T => by cases T <;> exact nofun) onError_tables
  | _ =>
    rw [e] at other
    exact other (fun T => by cases T <;> exact nofun) rfl

/-! ## What is handed on -/

/-- The frame is processed. -/
def Live (s : Node) (f : Frame) : Prop := s.exited = false ∧ tooLarge f = false

theorem step_live {e : Frame × Env} (h : Live s e.1) : tables (step keys s e) =
    tables (processCoordFrame keys e.2 s e.1) := by
  unfold step
  rw [if_neg (by rw [h.1]; exact Bool.false_ne_true),
    if_neg (by rw [h.2]; exact Bool.false_ne_true)]
  dsimp only
  split
  · rfl
  · exact precompute_tables

theorem step_stopped_tables {e : Frame × Env} (h : ¬ Live s e.1) :
    tables (step keys s e) = tables s := by
  unfold step
  split
  · rfl
  next hx =>
  split
  · rfl
  next hl => exact absurd ⟨Bool.not_eq_true _ ▸ hx, Bool.not_eq_true _ ▸ hl⟩ h

theorem step_table {e : Frame × Env} (h : Live s e.1) (T : PeerTable) :
    T.of (step keys s e) = T.of s ++ filed T keys s e.1 := by
  rw [of_eq_of_tables (step_live h), process_table]

theorem step_myId (keys : Keys) (s : Node) (e : Frame × Env) : (step keys s e).myId = s.myId := by
  by_cases hl : Live s e.1
  · have h : tables (step keys s e) = tables (processCoordFrame keys e.2 s e.1) := step_live hl
    rw [(Prod.mk.inj h).1, process_myId]
  · have h : tables (step keys s e) = tables s := step_stopped_tables hl
    exact (Prod.mk.inj h).1

theorem slot_of_opened {i : Nat} {p : Nat × Bytes} (h : T.opened keys i f = some p) :
    T.slot keys i f = some p := by
  have r2 (h : ((openR2 keys f).bind fun r => (keys.decrypt i r.2).map fun pkg => (r.1, pkg)) =
      some p) : ((openR2 keys f).map fun r =>
        ((keys.decrypt i r.2).map fun pkg => (r.1, pkg)).getD (0, [])) = some p := by
    obtain ⟨r, ho, hd⟩ := Option.bind_eq_some_iff.mp h
    rw [ho, Option.map_some, hd, Option.getD_some]
  cases T with
  | r1 => exact h
  | r2 => exact r2 h
  | refR1 => exact h
  | refR2 => exact r2 h

theorem filed_cases (T : PeerTable) (keys : Keys) (s : Node) (f : Frame) : filed T keys s f = [] ∨
    ∃ p, f.type = T.msg ∧ (T.of s).length < maxSigners ∧ T.slot keys s.myId f = some p ∧
      filed T keys s f = [p] := by
  by_cases hr : f.type = T.msg ∧ (T.of s).length < maxSigners
  · cases hs : T.slot keys s.myId f with
    | none => exact .inl (filed_none hs)
    | some p => exact .inr ⟨p, hr.1, hr.2, rfl, filed_room hr.1 (Nat.not_le.mpr hr.2) hs⟩
  · exact .inl (if_neg hr)

theorem completed_iff {l : List (Nat × Bytes)} : completed T keys s f = some l ↔
    ∃ p, T.opened keys s.myId f = some p ∧ (T.of s).length < maxSigners ∧
      s.n ≤ (T.of s).length + 2 ∧ l = T.of s ++ [p] := by
  unfold completed
  rw [Option.bind_eq_some_iff]
  refine exists_congr fun p => and_congr_right fun _ => ?_
  rw [List.length_append, List.length_singleton]
  by_cases hroom : (T.of s).length ≥ maxSigners
  · rw [if_pos hroom]
    exact ⟨nofun, fun h => absurd h.1 (Nat.not_lt.mpr hroom)⟩
  rw [if_neg hroom]
  split
  · next hlt => exact ⟨nofun, fun h => absurd h.2.1 (by omega)⟩
  · next hlt =>
    rw [Option.some.injEq]
    exact ⟨fun h => ⟨Nat.lt_of_not_le hroom, by omega, h.symm⟩, fun h => h.2.2.symm⟩

/-- A package that completes a first table or a DKG's second one is handed on. -/
theorem handed_of_completed {l : List (Nat × Bytes)} (hT : T ≠ .refR2) (hf : f.type = T.msg)
    (h : completed T keys s f = some l) : l ∈ handed keys s f := by
  unfold handed
  rw [hf]
  cases T with
  | r1 =>
    show l ∈ (completed .r1 keys s f).toList
    rw [h]
    exact List.mem_singleton_self l
  | r2 =>
    show l ∈ (completed .r2 keys s f).elim [] _
    rw [h]
    exact List.mem_cons_of_mem _ (List.mem_singleton_self l)
  | refR1 =>
    show l ∈ (completed .refR1 keys s f).toList
    rw [h]
    exact List.mem_singleton_self l
  | refR2 => exact absurd rfl hT

/-- Nothing else is, but the first table along with the second. -/
theorem handed_cases {l : List (Nat × Bytes)} (h : l ∈ handed keys s f) :
    (∃ T : PeerTable, T ≠ .refR2 ∧ f.type = T.msg ∧ completed T keys s f = some l) ∨
    (f.type = .relayR2 ∧ l = s.peerR1 ∧ ∃ l', completed .r2 keys s f = some l') ∨
    f.type = .refreshFinalize ∧ s.refPeerR2.length + 1 = s.n ∧
      (l = s.refPeerR1 ∨ l = s.refPeerR2) := by
  unfold handed at h
  cases e : f.type with
  | relayR1 =>
    rw [e] at h
    exact .inl ⟨.r1, nofun, rfl, Option.mem_toList.mp h⟩
  | relayR2 =>
    rw [e] at h
    cases hc : completed .r2 keys s f with
    | none =>
      rw [hc] at h
      cases h
    | some l' =>
      rw [hc] at h
      rcases List.mem_cons.mp h with h | h
      · exact .inr (.inl ⟨rfl, h, l', rfl⟩)
      · exact .inl ⟨.r2, nofun, rfl, by rw [List.mem_singleton.mp h]; exact hc⟩
  | relayRefreshR1 =>
    rw [e] at h
    exact .inl ⟨.refR1, nofun, rfl, Option.mem_toList.mp h⟩
  | refreshFinalize =>
    rw [e] at h
    dsimp only at h
    split at h
    · cases h
    next hn =>
    refine .inr (.inr ⟨rfl, not_not.mp hn, ?_⟩)
    rcases List.mem_cons.mp h with h | h
    · exact .inl h
    · exact .inr (List.mem_singleton.mp h)
  | _ =>
    rw [e] at h
    cases h

/-! ## What the rounds are asked -/

/-- The rounds of the core answer otherwise. -/
def Env.answering (env : Env) (part2 refresh2 : Bytes → List (Nat × Bytes) →
    Except Left (Bytes × List (Nat × Bytes))) (part3 : Bytes → List (Nat × Bytes) →
    List (Nat × Bytes) → Except Bytes (Bytes × Bytes)) (shares : Nat → Bytes → List (Nat × Bytes) →
    List (Nat × Bytes) → Bytes → Bytes → Option (Bytes × Bytes)) : Env :=
  { env with
    dkgPart2 := part2, refreshPart2 := refresh2, dkgPart3 := part3, refreshShares := shares }

variable {part2 refresh2 : Bytes → List (Nat × Bytes) → Except Left (Bytes × List (Nat × Bytes))}
  {part3 : Bytes → List (Nat × Bytes) → List (Nat × Bytes) → Except Bytes (Bytes × Bytes)}
  {shares : Nat → Bytes → List (Nat × Bytes) → List (Nat × Bytes) → Bytes → Bytes →
    Option (Bytes × Bytes)}

/-- **The rounds are asked about the tables handed on** and about nothing else: what they
would answer to other tables makes no difference. -/
theorem process_asks (h2 : ∀ l ∈ handed keys s f, ∀ x, part2 x l = env.dkgPart2 x l)
    (hr : ∀ l ∈ handed keys s f, ∀ x, refresh2 x l = env.refreshPart2 x l)
    (h3 : ∀ l ∈ handed keys s f, ∀ l' ∈ handed keys s f, ∀ x, part3 x l l' = env.dkgPart3 x l l')
    (hs : ∀ l ∈ handed keys s f, ∀ l' ∈ handed keys s f, ∀ n x key pub,
      shares n x l l' key pub = env.refreshShares n x l l' key pub) :
    processCoordFrame keys (env.answering part2 refresh2 part3 shares) s f =
      processCoordFrame keys env s f := by
  unfold processCoordFrame
  cases e : f.type with
  | relayR1 =>
    have hT : PeerTable.r1 ≠ .refR2 := nofun
    show onRelayR1 keys _ s f = onRelayR1 keys env s f
    unfold onRelayR1
    cases ho : openR1 keys f with
    | none => rfl
    | some p =>
      dsimp only
      split
      · rfl
      next hroom =>
      split
      · rfl
      next hn =>
      have hc : completed .r1 keys s f = some (s.peerR1 ++ [p]) :=
        completed_iff.mpr ⟨p, ho, Nat.lt_of_not_le hroom, by
          rw [List.length_append, List.length_singleton] at hn
          exact Nat.le_of_not_lt hn, rfl⟩
      have hask := h2 _ (handed_of_completed hT e hc)
      unfold frostDkgPart2
      dsimp only [Env.answering]
      rw [hask]
      rfl
  | relayR2 =>
    have hT : PeerTable.r2 ≠ .refR2 := nofun
    show onRelayR2 keys _ s f = onRelayR2 keys env s f
    unfold onRelayR2
    cases ho : openR2 keys f with
    | none => rfl
    | some r =>
      dsimp only
      split
      · rfl
      next hroom =>
      cases hd : keys.decrypt s.myId r.2 with
      | none => rfl
      | some pkg =>
        dsimp only
        split
        · rfl
        next hn =>
        have hopen : PeerTable.r2.opened keys s.myId f = some (r.1, pkg) := by
          simp [PeerTable.opened, ho, hd]
        have hc : completed .r2 keys s f = some (s.peerR2 ++ [(r.1, pkg)]) :=
          completed_iff.mpr ⟨_, hopen, Nat.lt_of_not_le hroom, by
            rw [List.length_append, List.length_singleton] at hn
            exact Nat.le_of_not_lt hn, rfl⟩
        have hfirst : s.peerR1 ∈ handed keys s f := by
          unfold handed
          rw [e]
          show _ ∈ (completed .r2 keys s f).elim [] _
          rw [hc]
          exact List.mem_cons_self ..
        have hask := h3 _ hfirst _ (handed_of_completed hT e hc)
        unfold frostDkgPart3
        dsimp only [Env.answering]
        rw [hask]
        rfl
  | relayRefreshR1 =>
    have hT : PeerTable.refR1 ≠ .refR2 := nofun
    show onRelayRefreshR1 keys _ s f = onRelayRefreshR1 keys env s f
    unfold onRelayRefreshR1
    cases ho : openR1 keys f with
    | none => rfl
    | some p =>
      dsimp only
      split
      · rfl
      next hroom =>
      split
      · rfl
      next hn =>
      have hc : completed .refR1 keys s f = some (s.refPeerR1 ++ [p]) :=
        completed_iff.mpr ⟨p, ho, Nat.lt_of_not_le hroom, by
          rw [List.length_append, List.length_singleton] at hn
          exact Nat.le_of_not_lt hn, rfl⟩
      have hask := hr _ (handed_of_completed hT e hc)
      unfold frostRefreshPart2
      dsimp only [Env.answering]
      rw [hask]
      rfl
  | refreshFinalize =>
    show onRefreshFinalize keys _ s = onRefreshFinalize keys env s
    unfold onRefreshFinalize
    split
    · rfl
    next hn =>
    have hmem : handed keys s f = [s.refPeerR1, s.refPeerR2] := by
      unfold handed
      rw [e]
      exact if_neg hn
    have hask := hs s.refPeerR1 (by rw [hmem]; exact List.mem_cons_self ..) s.refPeerR2
      (by rw [hmem]; exact List.mem_cons_of_mem _ (List.mem_singleton_self _))
    unfold frostRefreshShares
    dsimp only [Env.answering]
    rw [hask]
    rfl
  | _ => rfl

/-! ## Orderly frames and proper steps -/

/-- One package more, of a peer not heard before. -/
theorem OfPeers.append_iff {i : Nat} {l : List (Nat × Bytes)} (h : OfPeers i l) (p : Nat × Bytes) :
    OfPeers i (l ++ [p]) ↔ p.1 ≠ i ∧ p.1 ∉ l.map Prod.fst := by
  have hnd : ((l ++ [p]).map Prod.fst).Nodup ↔ p.1 ∉ l.map Prod.fst := by
    rw [List.map_append, List.nodup_append]
    simp only [List.map_cons, List.map_nil, List.mem_singleton, List.nodup_singleton, true_and]
    constructor
    · exact fun hn hm => hn.2 _ hm _ rfl rfl
    · exact fun hn => ⟨h.distinct, fun a ha b hb e => hn (by rw [← hb, ← e]; exact ha)⟩
  constructor
  · intro hl
    refine ⟨fun e => hl.others ?_, hnd.mp hl.distinct⟩
    rw [List.map_append, ← e]
    exact List.mem_append_right _ (List.mem_singleton_self _)
  · rintro ⟨hne, hnew⟩
    refine ⟨hnd.mpr hnew, fun hm => ?_⟩
    rw [List.map_append] at hm
    rcases List.mem_append.mp hm with hm | hm
    · exact h.others hm
    · exact hne (List.mem_singleton.mp hm).symm

/-- An orderly frame keeps the tables genuine. -/
theorem Orderly.genuine (h : Orderly keys s f) (hg : Genuine keys s) (hid : s'.myId = s.myId)
    (ht : ∀ T : PeerTable, T.of s' = T.of s ++ filed T keys s f) : Genuine keys s' := by
  have entered (T : PeerTable) : filed T keys s f = [] ∨ ∃ p, filed T keys s f = [p] ∧
      T.opened keys s.myId f = some p ∧ p.1 ≠ s.myId ∧ p.1 ∉ (T.of s).map Prod.fst := by
    rcases filed_cases T keys s f with e | ⟨p, hf, hroom, hs, e⟩
    · exact .inl e
    obtain ⟨q, ho, hne, hnew, -⟩ := h.entry T hf hroom (by rw [hs]; exact nofun)
    have hpq : p = q := Option.some.inj (hs.symm.trans (slot_of_opened ho))
    exact .inr ⟨p, e, hpq ▸ ho, hpq ▸ hne, hpq ▸ hnew⟩
  refine ⟨fun T => ?_, fun T p hp => ?_⟩ <;> rw [hid]
  · rw [ht T]
    rcases entered T with e | ⟨p, e, -, hne, hnew⟩
    · rw [e, List.append_nil]
      exact hg.peers T
    · rw [e]
      exact ((hg.peers T).append_iff p).mpr ⟨hne, hnew⟩
  · rw [ht T] at hp
    rcases List.mem_append.mp hp with hp | hp
    · exact hg.authentic T p hp
    · rcases entered T with e | ⟨q, e, ho, -⟩
      · rw [e] at hp
        cases hp
      · rw [e] at hp
        rw [List.mem_singleton.mp hp]
        exact ⟨f, ho⟩

/-- **One frame**: from genuine tables a frame is handled as it should be if and only if it
is orderly. -/
theorem proper_iff (hg : Genuine keys s) (hid : s'.myId = s.myId)
    (ht : ∀ T : PeerTable, T.of s' = T.of s ++ filed T keys s f) :
    Proper keys s f s' ↔ Orderly keys s f := by
  constructor
  · intro h
    refine ⟨fun T hf hroom hs => ?_, fun hf hroom ho hn => ?_, fun hf hn => ?_⟩
    · obtain ⟨p, hs⟩ := Option.ne_none_iff_exists'.mp hs
      have hT : T.of s' = T.of s ++ [p] := by
        rw [ht T, filed_room hf (Nat.not_le.mpr hroom) hs]
      cases ho : T.opened keys s.myId f with
      | none =>
        -- the slot was taken by a package that does not decrypt
        have hsame := h.rejected T ⟨hf, .inl ho⟩ T
        rw [hT] at hsame
        exact absurd (List.append_right_eq_self.mp hsame) (List.cons_ne_nil _ _)
      | some q =>
        have hpq : p = q := Option.some.inj (hs.symm.trans (slot_of_opened ho))
        have hpeers : OfPeers s.myId (T.of s ++ [p]) := hT ▸ hid ▸ h.genuine.peers T
        obtain ⟨hne, hnew⟩ := ((hg.peers T).append_iff p).mp hpeers
        refine ⟨q, rfl, hpq ▸ hne, hpq ▸ hnew, fun hT2 => ?_⟩
        by_contra hlt
        have hc : completed T keys s f = some (T.of s ++ [q]) :=
          completed_iff.mpr ⟨q, ho, hroom, by omega, rfl⟩
        have hn := (h.rounds _ (handed_of_completed hT2 hf hc)).1
        rw [List.length_append, List.length_singleton] at hn
        omega
    · obtain ⟨p, ho⟩ := Option.ne_none_iff_exists'.mp ho
      have hc : completed .r2 keys s f = some (s.peerR2 ++ [p]) :=
        completed_iff.mpr ⟨p, ho, hroom, Nat.le_of_eq hn.symm, rfl⟩
      refine (h.rounds s.peerR1 ?_).1
      unfold handed
      rw [hf]
      show _ ∈ (completed .r2 keys s f).elim [] _
      rw [hc]
      exact List.mem_cons_self ..
    · refine (h.rounds s.refPeerR1 ?_).1
      unfold handed
      rw [hf]
      show _ ∈ ite _ _ _
      rw [if_neg (not_not.mpr hn)]
      exact List.mem_cons_self ..
  · intro h
    have hg' : Genuine keys s' := h.genuine hg hid ht
    refine ⟨fun T hr T' => ?_, hg', fun l hl => ?_⟩
    · have hnil : filed T' keys s f = [] := by
        rcases filed_cases T' keys s f with e | ⟨p, hf, hroom, hs, -⟩
        · exact e
        have hTT : T' = T := by
          have := hf.symm.trans hr.1
          cases T <;> cases T' <;> first | rfl | cases this
        obtain ⟨q, ho, -⟩ := h.entry T' hf hroom (by rw [hs]; exact nofun)
        rw [hTT] at ho hroom
        rcases hr.2 with hn | hfull
        · rw [hn] at ho
          cases ho
        · omega
      rw [ht T', hnil, List.append_nil]
    · -- a completed table has `n - 1` packages, of the peers of the next state
      have whole {T : PeerTable} {l : List (Nat × Bytes)} (hT : T ≠ .refR2) (hf : f.type = T.msg)
          (hc : completed T keys s f = some l) :
          (T.of s).length + 2 = s.n ∧ l.length + 1 = s.n ∧ OfPeers s.myId l := by
        obtain ⟨p, ho, hroom, hn, rfl⟩ := completed_iff.mp hc
        have hs := slot_of_opened ho
        obtain ⟨-, -, -, -, hle⟩ := h.entry T hf hroom (by rw [hs]; exact nofun)
        have hle := hle hT
        refine ⟨by omega, by rw [List.length_append, List.length_singleton]; omega, ?_⟩
        have := hg'.peers T
        rwa [ht T, filed_room hf (Nat.not_le.mpr hroom) hs, hid] at this
      rcases handed_cases hl with ⟨T, hT, hf, hc⟩ | ⟨hf, rfl, l', hc⟩ | ⟨hf, hn, rfl | rfl⟩
      · exact (whole hT hf hc).2
      · obtain ⟨p, ho, hroom, -⟩ := completed_iff.mp hc
        have hn := (whole (T := .r2) nofun hf hc).1
        exact ⟨h.last hf hroom (by rw [ho]; exact nofun) hn, hg.peers .r1⟩
      · exact ⟨h.finalize hf hn, hg.peers .refR1⟩
      · exact ⟨hn, hg.peers .refR2⟩

theorem start_genuine (keys : Keys) (id n t : Nat) : Genuine keys (Node.start keys id n t) := by
  have hnil (T : PeerTable) : T.of (Node.start keys id n t) = [] := by cases T <;> rfl
  refine ⟨fun T => ?_, fun T p hp => ?_⟩
  · rw [hnil T]
    exact ⟨List.nodup_nil, nofun⟩
  · rw [hnil T] at hp
    cases hp

/-- **The peer tables** of a signer hold one authentic package of each of distinct peers, and
a round starts with `n - 1` of them, along the runs of orderly frames and no others. -/
theorem tables_iff (keys : Keys) (id n t : Nat) (es : List (Frame × Env)) :
    Along (step keys) (fun s e => Live s e.1 → Proper keys s e.1 (step keys s e))
      (Node.start keys id n t) es ↔
    Along (step keys) (fun s e => Live s e.1 → Orderly keys s e.1) (Node.start keys id n t) es := by
  refine along_congr (I := Genuine keys) (E := fun _ => True) (fun s e hg _ => ?_)
    (fun s e hg _ ho => ?_) (fun _ _ => trivial) (start_genuine keys id n t)
  · refine forall_congr' fun hl => ?_
    exact proper_iff hg (step_myId keys s e) (step_table hl)
  · by_cases hl : Live s e.1
    · exact (ho hl).genuine hg (step_myId keys s e) (step_table hl)
    · have hsame := of_eq_of_tables (show tables (step keys s e) =
          tables s from step_stopped_tables hl)
      refine ⟨fun T => ?_, fun T p hp => ?_⟩ <;> rw [step_myId]
      · rw [hsame T]
        exact hg.peers T
      · rw [hsame T] at hp
        exact hg.authentic T p hp

/-- Signer 1 of three hears the round-1 package of signer 2. -/
def heardEvent : Frame × Env := (⟨.relayR1, toySign 2 [15], [0, 2, 15]⟩, plainEnv)

/-- Relayed twice, the package of one peer stands for both, and part 2 is started with it. -/
theorem package_counted_twice :
    ¬ Along (step toyKeys) (fun s e => Live s e.1 → Proper toyKeys s e.1 (step toyKeys s e))
        (Node.start toyKeys 1 3 2) [heardEvent, heardEvent] ∧
      [(2, [15]), (2, [15])] ∈ handed toyKeys (run (step toyKeys) (Node.start toyKeys 1 3 2)
        [heardEvent]) heardEvent.1 := by
  refine ⟨fun h => ?_, by decide +kernel⟩
  obtain ⟨-, h, -⟩ := h
  have hp : Proper toyKeys _ _ _ := h ⟨by decide +kernel, by decide +kernel⟩
  exact absurd (hp.genuine.peers .r1).distinct (by decide +kernel)

end FrostSshCa.Signer
