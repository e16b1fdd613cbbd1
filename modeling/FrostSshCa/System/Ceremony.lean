import FrostSshCa.Lib.Rounds
import FrostSshCa.System.State
import FrostSshCa.Wire.Ceremony

/-!
# The signer's part in a ceremony

What the frames of a ceremony mean, what it takes for the calls of a signer to succeed,
and what hearing one frame does to a signer: it moves as a party of `Lib.Rounds`. The
calls are read off the signer's own history.
-/

namespace FrostSshCa.System

open Coordinator Signer Lib

/-! ## Frames -/

/-- What the coordinator can hear. -/
abbrev UpMsg := Rounds.Up Nat Bytes Bytes

/-- What a signer can hear. -/
abbrev DownMsg := Rounds.Down Nat Bytes Bytes

/-- A call of `frost_dkg_part2` or `frost_refresh_part2` (`mix`), with the packages it
answers, or of `frost_dkg_part3` or `frost_refresh_shares` (`last`). -/
abbrev Call := Rounds.Call Nat Bytes Bytes

variable (keys : Keys) (k : Ceremony)

/-- A frame of a signer: its round-2 packages as their target decrypts them. -/
def openUp (f : Frame) : Option UpMsg :=
  if f.type = k.round1 then some (.first f.payload)
  else if f.type = k.round2 then
    (r2Target f.payload).bind fun dst =>
      (openR2 keys f).bind fun p => (keys.decrypt dst p.2).map (.second dst p.1 ·)
  else if f.type = k.complete then some .done
  else none

/-- A frame for signer `i`. -/
def openDown (i : Nat) (f : Frame) : Option DownMsg :=
  if f.type = k.start then some .start
  else if f.type = k.relayR1 then (openR1 keys f).map fun p => .first p.1 p.2
  else if f.type = k.relayR2 then
    (openR2 keys f).bind fun p => (keys.decrypt i p.2).map (.second p.1 ·)
  else if f.type = k.finish then some .finish
  else none

/-! ## The signer -/

def heardR1 (x : Node) : List (Nat × Bytes) :=
  match k with
  | .dkg => x.peerR1
  | .refresh => x.refPeerR1

def heardR2 (x : Node) : List (Nat × Bytes) :=
  match k with
  | .dkg => x.peerR2
  | .refresh => x.refPeerR2

/-- The round-1 package that part 1 of the ceremony has answered. -/
def madeBy : Ask → Option Bytes
  | .dkgPart1 pkg => if k = .dkg then pkg else none
  | .refreshPart1 pkg => if k = .refresh then pkg else none
  | _ => none

/-- A call of the later parts of the ceremony. -/
def callOf : Ask → Option Call
  | .dkgPart2 r1 out => if k = .dkg then some (.mix r1 (out.getD [])) else none
  | .dkgPart3 r1 r2 _ => if k = .dkg then some (.last r1 r2) else none
  | .refreshPart2 r1 out => if k = .refresh then some (.mix r1 (out.getD [])) else none
  | .refreshShares r1 r2 _ => if k = .refresh then some (.last r1 r2) else none
  | _ => none

/-- The round-1 packages a signer has made. -/
def ownOf (x : Node) : List Bytes := x.asked.filterMap (madeBy k)

def callsOf (x : Node) : List Call := x.asked.filterMap (callOf k)

/-- The calls that the signer makes on frame `f`. -/
def asks (x : Node) (f : Frame) (env : Signer.Env) : List Ask :=
  (Signer.step keys x (f, env)).asked.drop x.asked.length

/-- A call that succeeds: part 2 answers one package for each peer, a ciphertext is one RSA
block that its target decrypts, and the packages fit. -/
def Succeeds (env : Signer.Env) : Ask → Prop
  | .dkgPart1 pkg | .refreshPart1 pkg => ∃ p ∈ pkg, p ≠ [] ∧ p.length + 2 ≤ maxPayload
  | .dkgPart2 r1 out | .refreshPart2 r1 out => ∃ l ∈ out, (l.map Prod.fst).Perm (r1.map Prod.fst) ∧
    ∀ p ∈ l.zipIdx, ∃ ct ∈ env.encrypt p.2 p.1.1 p.1.2,
      ct.length ≤ 256 ∧ keys.decrypt p.1.1 ct = some p.1.2
  | .dkgPart3 _ _ pub | .refreshShares _ _ pub => ∃ p ∈ pub, p.length ≤ maxPayload

instance (env : Signer.Env) (a : Ask) : Decidable (Succeeds keys env a) := by
  cases a <;> unfold Succeeds <;> infer_instance

/-- Every call that `f` makes the signer do succeeds. -/
def Works (x : Node) (f : Frame) (env : Signer.Env) : Prop :=
  ∀ a ∈ asks keys x f env, Succeeds keys env a

instance (x : Node) (f : Frame) (env : Signer.Env) : Decidable (Works keys x f env) :=
  inferInstanceAs (Decidable (∀ a ∈ asks keys x f env, _))

/-- The party signer `i` is: its process, its record, the frames on their way to it and how
often it has been told that all is done. -/
def seat (i : Nat) (x : Node) (r : SignerRec) (q : List Frame) (told : Nat) :
    Rounds.Party Nat Bytes Bytes where
  own := ownOf k x
  firsts := heardR1 k x
  seconds := heardR2 k x
  calls := callsOf k x
  filed := if r.r1Pkg = [] then none else some r.r1Pkg
  flagged := r.r2Complete
  up := x.outq.filterMap (openUp keys k)
  down := q.filterMap (openDown keys k i)
  told := told

/-! ## Reading frames back -/

variable {keys k} {i : Nat} {f : Frame}

theorem openDown_first {s : Nat} {p : Bytes} (h : openDown keys k i f = some (.first s p)) :
    f.type = k.relayR1 ∧ openR1 keys f = some (s, p) := by
  unfold openDown at h
  split at h; · cases h
  split at h
  · next ht =>
    obtain ⟨⟨s', p'⟩, ho, e⟩ := Option.map_eq_some_iff.mp h
    cases e
    exact ⟨ht, ho⟩
  split at h
  · obtain ⟨r, -, hr⟩ := Option.bind_eq_some_iff.mp h
    obtain ⟨q, -, e⟩ := Option.map_eq_some_iff.mp hr
    cases e
  split at h <;> cases h

theorem openDown_second {s : Nat} {q : Bytes} (h : openDown keys k i f = some (.second s q)) :
    f.type = k.relayR2 ∧ ∃ ct, openR2 keys f = some (s, ct) ∧ keys.decrypt i ct = some q := by
  unfold openDown at h
  split at h; · cases h
  split at h
  · obtain ⟨p, -, e⟩ := Option.map_eq_some_iff.mp h
    cases e
  split at h
  · next ht =>
    obtain ⟨⟨s', ct⟩, ho, hr⟩ := Option.bind_eq_some_iff.mp h
    obtain ⟨q', hq, e⟩ := Option.map_eq_some_iff.mp hr
    cases e
    exact ⟨ht, ct, ho, hq⟩
  split at h <;> cases h

theorem openDown_start (h : openDown keys k i f = some .start) : f.type = k.start := by
  unfold openDown at h
  split at h
  · next ht => exact ht
  split at h
  · obtain ⟨p, -, e⟩ := Option.map_eq_some_iff.mp h
    cases e
  split at h
  · obtain ⟨r, -, hr⟩ := Option.bind_eq_some_iff.mp h
    obtain ⟨q, -, e⟩ := Option.map_eq_some_iff.mp hr
    cases e
  split at h <;> cases h

theorem openDown_finish (h : openDown keys k i f = some .finish) : f.type = k.finish := by
  unfold openDown at h
  split at h; · cases h
  split at h
  · obtain ⟨p, -, e⟩ := Option.map_eq_some_iff.mp h
    cases e
  split at h
  · obtain ⟨r, -, hr⟩ := Option.bind_eq_some_iff.mp h
    obtain ⟨q, -, e⟩ := Option.map_eq_some_iff.mp hr
    cases e
  split at h
  · next ht => exact ht
  · cases h

/-- The frame a round-2 package travels in. -/
def r2Frame (keys : Keys) (type : MsgType) (i dst : Nat) (ct : Bytes) : Frame :=
  ⟨type, keys.sign i (be16 i ++ be16 dst ++ ct), be16 i ++ be16 dst ++ ct⟩

/-- What is assumed of the RSA keys of the signers: a signature verifies, and has the
length of a frame's signature field. -/
structure Honest (keys : Keys) : Prop where
  verify : ∀ i d, 1 ≤ i → i ≤ maxSigners → keys.verify i d (keys.sign i d) = true
  length : ∀ i d, 1 ≤ i → i ≤ maxSigners → (keys.sign i d).length = frameSigSize

/-- An id a signer can have. -/
def Ranged (i : Nat) : Prop := 1 ≤ i ∧ i ≤ maxSigners

theorem Ranged.lt {i : Nat} (h : Ranged i) : i < 65536 := by
  have := h.2
  unfold maxSigners at this
  omega

theorem openR1_relay {s : Nat} (hs : s < 65536) {type : MsgType} {sig pkg : Bytes}
    (hv : keys.verify s pkg sig = true) :
    openR1 keys ⟨type, sig, be16 s ++ pkg⟩ = some (s, pkg) := by
  show (if keys.verify (ofBe16 _ _) pkg sig then some (ofBe16 _ _, pkg) else none) = _
  rw [ofBe16_be16 hs, if_pos hv]

theorem openR2_frame (hk : Honest keys) (hi : Ranged i) (type : MsgType) (dst : Nat) (ct : Bytes) :
    openR2 keys (r2Frame keys type i dst ct) = some (i, ct) := by
  show (if keys.verify (ofBe16 _ _) _ _ then some (ofBe16 _ _, ct) else none) = _
  rw [ofBe16_be16 hi.lt]
  exact if_pos (hk.verify _ _ hi.1 hi.2)

theorem r2Target_frame {dst : Nat} (hd : dst < 65536) (type : MsgType) (ct : Bytes) :
    r2Target (r2Frame keys type i dst ct).payload = some dst := by
  show some (ofBe16 _ _) = _
  rw [ofBe16_be16 hd]

theorem openUp_round1 (sig p : Bytes) :
    openUp keys k ⟨k.round1, sig, p⟩ = some (.first p) := if_pos rfl

theorem openUp_round2 (hk : Honest keys) {dst : Nat} (hi : Ranged i) (hd : dst < 65536)
    {ct q : Bytes}
    (hq : keys.decrypt dst ct = some q) :
    openUp keys k (r2Frame keys k.round2 i dst ct) = some (.second dst i q) := by
  have hne : (r2Frame keys k.round2 i dst ct).type ≠ k.round1 := by
    cases k <;> exact nofun
  unfold openUp
  rw [if_neg hne, if_pos (show (r2Frame keys k.round2 i dst ct).type = k.round2 from rfl),
    r2Target_frame hd, openR2_frame hk hi, Option.bind_some, Option.bind_some]
  dsimp only
  rw [hq]
  rfl

theorem openUp_complete (sig p : Bytes) : openUp keys k ⟨k.complete, sig, p⟩ = some .done := by
  cases k <;> rfl

/-! ## Frames on their way -/

/-- A frame signer `i` queues in a ceremony. -/
structure Answer (keys : Keys) (k : Ceremony) (i : Nat) (f : Frame) : Prop where
  size : f.payload.length ≤ maxPayload
  opens : (openUp keys k f).isSome = true ∨
    f.type = .hello ∨ f.type = .pubKeyPkg ∨ f.type = .refreshComplete ∨ f.type = .shareLoadFail
  round1 : f.type = k.round1 → f.payload ≠ [] ∧ f.payload.length + 2 ≤ maxPayload ∧
    f.sig = keys.sign i f.payload
  round2 : f.type = k.round2 → f.sig.length = frameSigSize

/-- A frame the coordinator queues for signer `i` in a ceremony of `n` and `t`. -/
structure Order (keys : Keys) (k : Ceremony) (n t i : Nat) (f : Frame) : Prop where
  size : tooLarge f = false
  opens : (openDown keys k i f).isSome = true ∨
    f.type = .helloAck ∧ f.payload = ackText i k.mode ∨ f.type = .refreshConfirmed
  start : f.type = k.start → f.payload = printTwo k.word n t

/-- A frame that says nothing in the ceremony. -/
theorem answer_aside {type : MsgType} {sig p : Bytes} (hp : p.length ≤ maxPayload)
    (ht : type = .hello ∨ type = .pubKeyPkg ∨ type = .refreshComplete ∨ type = .shareLoadFail) :
    Answer keys k i ⟨type, sig, p⟩ ∧ openUp keys k ⟨type, sig, p⟩ = none := by
  have hne : type ≠ k.round1 ∧ type ≠ k.round2 ∧ type ≠ k.complete := by
    rcases ht with rfl | rfl | rfl | rfl <;> cases k <;> exact ⟨nofun, nofun, nofun⟩
  refine ⟨⟨hp, .inr ht, fun e => absurd e hne.1, fun e => absurd e hne.2.1⟩, ?_⟩
  unfold openUp
  rw [if_neg hne.1, if_neg hne.2.1, if_neg hne.2.2]

theorem answer_round1 {pkg : Bytes} (h0 : pkg ≠ []) (hlen : pkg.length + 2 ≤ maxPayload) :
    Answer keys k i ⟨k.round1, keys.sign i pkg, pkg⟩ := by
  refine ⟨by dsimp only; omega, .inl (by rw [openUp_round1]; rfl), fun _ =>
    ⟨h0, hlen, rfl⟩, fun e => ?_⟩
  cases k <;> cases e

theorem answer_round2 (hk : Honest keys) {dst : Nat} (hi : Ranged i) (hd : dst < 65536)
    {ct q : Bytes}
    (hct : ct.length ≤ 256) (hq : keys.decrypt dst ct = some q) :
    Answer keys k i (r2Frame keys k.round2 i dst ct) := by
  refine ⟨?_, .inl (by rw [openUp_round2 hk hi hd hq]; rfl), fun e => ?_,
    fun _ => hk.length _ _ hi.1 hi.2⟩
  · show (be16 i ++ be16 dst ++ ct).length ≤ maxPayload
    rw [List.length_append, show (be16 i ++ be16 dst).length = 4 from rfl]
    unfold maxPayload
    omega
  · cases k <;> cases e

theorem answer_complete (sig : Bytes) (x : Node) : Answer keys k i ⟨k.complete, sig, notice x⟩ := by
  refine ⟨?_, .inl (by rw [openUp_complete]; rfl), fun e => ?_, fun e => ?_⟩
  · show 2 ≤ maxPayload
    decide
  · cases k <;> cases e
  · cases k <;> cases e

/-! ## Hearing a frame -/

/-- A signer at work in a ceremony of `n`. -/
structure Running (i n : Nat) (x : Node) : Prop where
  myId : x.myId = i
  n : x.n = n
  running : x.exited = false
  mode : x.coordMode ≠ .sign

/-- What hearing `f` adds to a signer: packages of both rounds, frames it queues, a
package it makes and its calls. -/
structure Hears (keys : Keys) (k : Ceremony) (i n : Nat) (x : Node) (f : Frame) (env : Signer.Env)
    (ps qs : List (Nat × Bytes)) (out : List Frame) (own : List Bytes) (cs : List Call) : Prop where
  running : Running i n (Signer.step keys x (f, env))
  heardR1 : heardR1 k (Signer.step keys x (f, env)) = heardR1 k x ++ ps
  heardR2 : heardR2 k (Signer.step keys x (f, env)) = heardR2 k x ++ qs
  outq : (Signer.step keys x (f, env)).outq = x.outq ++ out
  answers : ∀ g ∈ out, Answer keys k i g
  made : ownOf k (Signer.step keys x (f, env)) = ownOf k x ++ own
  calls : callsOf k (Signer.step keys x (f, env)) = callsOf k x ++ cs

variable {n t : Nat} {x x' : Node} {env : Signer.Env}

/-- Outside sign mode nothing is computed ahead. -/
theorem step_eq (h : Running i n x) (ht : tooLarge f = false)
    (e : processCoordFrame keys env x f = x') (h' : Running i n x') :
    Signer.step keys x (f, env) = x' := by
  have hpre : precompute env x' = x' := by
    unfold precompute
    rw [if_neg fun hc => h'.mode hc.1]
  unfold Signer.step
  rw [if_neg (by rw [h.running]; decide), if_neg (by rw [ht]; decide)]
  dsimp only
  rw [e, if_neg (by rw [h'.running]; decide), hpre]

theorem freshCommit_asked (x : Node) (answer : Bytes → CommitResult) :
    (freshCommit x answer).1.asked = x.asked := by
  rcases freshCommit_cases x answer with ⟨_, _, -, -, e⟩ | ⟨_, -, e⟩ <;> rw [e]

theorem precompute_asked (x : Node) (env : Signer.Env) : (precompute env x).asked = x.asked := by
  have h := freshCommit_asked x env.precommit
  unfold precompute
  split
  · split
    · next e => rw [e] at h; exact h
    · next e => rw [e] at h; exact h
  · rfl

/-- The calls are those of `process_coord_frame`. -/
theorem asks_eq (h : Running i n x) (ht : tooLarge f = false) {as : List Ask}
    (e : (processCoordFrame keys env x f).asked = x.asked ++ as) : asks keys x f env = as := by
  have hstep : (Signer.step keys x (f, env)).asked = (processCoordFrame keys env x f).asked := by
    unfold Signer.step
    rw [if_neg (by rw [h.running]; decide), if_neg (by rw [ht]; decide)]
    dsimp only
    split
    · rfl
    · exact precompute_asked _ _
  unfold asks
  rw [hstep, e, List.drop_left]

/-- A call that is made succeeds. -/
theorem Works.succeeds (hw : Works keys x f env) (h : Running i n x) (ht : tooLarge f = false)
    {a : Ask} (e : (processCoordFrame keys env x f).asked = x.asked ++ [a]) :
    Succeeds keys env a := by
  refine hw a ?_
  rw [asks_eq h ht e]
  exact List.mem_singleton_self a

/-- What one call adds. -/
theorem ownOf_ask {x' : Node} (a : Ask) (e : x'.asked = x.asked ++ [a]) :
    ownOf k x' = ownOf k x ++ (madeBy k a).toList := by
  unfold ownOf
  rw [e, List.filterMap_append]
  congr 1

theorem callsOf_ask {x' : Node} (a : Ask) (e : x'.asked = x.asked ++ [a]) :
    callsOf k x' = callsOf k x ++ (callOf k a).toList := by
  unfold callsOf
  rw [e, List.filterMap_append]
  congr 1

/-- Without a call both are what they were. -/
theorem ownOf_same {x' : Node} (e : x'.asked = x.asked) : ownOf k x' = ownOf k x ++ [] := by
  unfold ownOf
  rw [e, List.append_nil]

theorem callsOf_same {x' : Node} (e : x'.asked = x.asked) : callsOf k x' = callsOf k x ++ [] := by
  unfold callsOf
  rw [e, List.append_nil]

/-- `START_DKG` and `START_REFRESH`. -/
theorem hears_start (h : Running i n x) (ht : tooLarge f = false) (hf : f.type = k.start)
    (hp : f.payload = printTwo k.word n t) (hn : n < 65536) (htt : t < 65536)
    (hw : Works keys x f env) :
    ∃ pkg, Hears keys k i n x f env [] [] [⟨k.round1, keys.sign i pkg, pkg⟩] [pkg] [] := by
  have hscan : scanTwo k.word f.payload = some (n, t) := by
    rw [hp]
    exact scanTwo_printTwo (by cases k <;> decide) hn htt
  have hanswer {pkg : Bytes} (h0 : pkg ≠ []) (hlen : pkg.length + 2 ≤ maxPayload) :
      ∀ g ∈ [(⟨k.round1, keys.sign i pkg, pkg⟩ : Frame)], Answer keys k i g := by
    intro g hg
    rw [List.mem_singleton.mp hg]
    exact answer_round1 h0 hlen
  cases k with
  | dkg =>
    have hproc : processCoordFrame keys env x f = onStartDkg keys env x f := by
      unfold processCoordFrame
      rw [hf]
      rfl
    unfold onStartDkg at hproc
    rw [show scanTwo (ascii "START_DKG") f.payload = some (n, t) from hscan] at hproc
    dsimp only at hproc
    cases hr : env.dkgPart1 x.myId n t with
    | error written =>
      rw [hr] at hproc
      obtain ⟨_, hno, -⟩ := hw.succeeds (a := .dkgPart1 none) h ht (by rw [hproc])
      cases hno
    | ok answer =>
      obtain ⟨secret, pkg⟩ := answer
      rw [hr] at hproc
      obtain ⟨_, hpkg, h0, hlen⟩ := hw.succeeds (a := .dkgPart1 (some pkg)) h ht
        (by rw [hproc]; rfl)
      cases hpkg
      have hstep := step_eq h ht hproc ⟨h.myId, rfl, h.running, h.mode⟩
      refine ⟨pkg, by rw [hstep]; exact ⟨h.myId, rfl, h.running, h.mode⟩, ?_, ?_, ?_,
        hanswer h0 hlen, ?_, ?_⟩ <;> rw [hstep]
      · exact (List.append_nil _).symm
      · exact (List.append_nil _).symm
      · rw [← h.myId]
        rfl
      · exact ownOf_ask (.dkgPart1 (some pkg)) rfl
      · exact callsOf_ask (.dkgPart1 (some pkg)) rfl
  | refresh =>
    have hproc : processCoordFrame keys env x f = onStartRefresh keys env x f := by
      unfold processCoordFrame
      rw [hf]
      rfl
    unfold onStartRefresh at hproc
    rw [show scanTwo (ascii "START_REFRESH") f.payload = some (n, t) from hscan] at hproc
    dsimp only at hproc
    cases hr : env.refreshPart1 x.myId n t with
    | error written =>
      rw [hr] at hproc
      obtain ⟨_, hno, -⟩ := hw.succeeds (a := .refreshPart1 none) h ht (by rw [hproc])
      cases hno
    | ok answer =>
      obtain ⟨secret, pkg⟩ := answer
      rw [hr] at hproc
      obtain ⟨_, hpkg, h0, hlen⟩ := hw.succeeds (a := .refreshPart1 (some pkg)) h ht
        (by rw [hproc]; rfl)
      cases hpkg
      have hstep := step_eq h ht hproc ⟨h.myId, rfl, h.running, h.mode⟩
      refine ⟨pkg, by rw [hstep]; exact ⟨h.myId, rfl, h.running, h.mode⟩, ?_, ?_, ?_,
        hanswer h0 hlen, ?_, ?_⟩ <;> rw [hstep]
      · exact (List.append_nil _).symm
      · exact (List.append_nil _).symm
      · rw [← h.myId]
        rfl
      · exact ownOf_ask (.refreshPart1 (some pkg)) rfl
      · exact callsOf_ask (.refreshPart1 (some pkg)) rfl

/-- The loop that sends the round-2 packages, when every encryption succeeds. -/
theorem sendAll_eq (hk : Honest keys) (hi : Ranged i) (l : List ((Nat × Bytes) × Nat)) :
    ∀ x : Node, x.myId = i →
    (∀ p ∈ l, p.1.1 < 65536 ∧ ∃ ct ∈ env.encrypt p.2 p.1.1 p.1.2,
      ct.length ≤ 256 ∧ keys.decrypt p.1.1 ct = some p.1.2) →
    ∃ fs log, l.foldl (sendR2 keys env k.round2) x =
      { x with outq := x.outq ++ fs, log := x.log ++ log } ∧
      (∀ g ∈ fs, Answer keys k i g) ∧
      fs.filterMap (openUp keys k) = l.map fun p => .second p.1.1 i p.1.2 := by
  induction l with
  | nil => exact fun x _ _ => ⟨[], [], by simp, nofun, rfl⟩
  | cons p l ih =>
    intro x hx hl
    obtain ⟨hdst, ct, hct, hlen, hdec⟩ := hl p (List.mem_cons_self ..)
    have hct : env.encrypt p.2 p.1.1 p.1.2 = some ct := hct
    have hsend : sendR2 keys env k.round2 x p =
        queueToCoord keys x k.round2 (be16 i ++ be16 p.1.1 ++ ct) := by
      unfold sendR2
      rw [hct]
      dsimp only
      rw [if_neg (by omega), hx]
    obtain ⟨fs, log, e, hans, hup⟩ := ih (queueToCoord keys x k.round2 (be16 i ++ be16 p.1.1 ++ ct)) hx
      fun q hq => hl q (List.mem_cons_of_mem _ hq)
    refine ⟨r2Frame keys k.round2 i p.1.1 ct :: fs,
      .queued k.round2 (be16 i ++ be16 p.1.1 ++ ct) (be16 i ++ be16 p.1.1 ++ ct) :: log, ?_, ?_, ?_⟩
    · rw [List.foldl_cons, hsend, e]
      unfold queueToCoord queueToCoordSigned r2Frame
      simp only [hx, List.append_assoc, List.singleton_append]
    · intro g hg
      rcases List.mem_cons.mp hg with rfl | hg
      · exact answer_round2 hk hi hdst hlen hdec
      · exact hans g hg
    · rw [List.filterMap_cons_some (openUp_round2 hk hi hdst hdec), hup]
      rfl

/-- A round-1 package before the last one. -/
theorem hears_first (env : Signer.Env) (h : Running i n x) (ht : tooLarge f = false)
    (hf : f.type = k.relayR1)
    {p : Nat × Bytes} (ho : openR1 keys f = some p) (hroom : (heardR1 k x).length < maxSigners)
    (hlt : (heardR1 k x).length + 2 < n) : Hears keys k i n x f env [p] [] [] [] [] := by
  cases k with
  | dkg =>
    have hroom' : ¬ x.peerR1.length ≥ maxSigners := Nat.not_le.mpr hroom
    have hlt' : (x.peerR1 ++ [p]).length + 1 < x.n := by rw [List.length_append, h.n]; exact hlt
    have hproc : processCoordFrame keys env x f = { x with peerR1 := x.peerR1 ++ [p] } := by
      unfold processCoordFrame
      rw [hf]
      show onRelayR1 keys env x f = _
      unfold onRelayR1
      rw [ho]
      dsimp only
      rw [if_neg hroom', if_pos hlt']
    have hrun : Running i n { x with peerR1 := x.peerR1 ++ [p] } := ⟨h.myId, h.n, h.running, h.mode⟩
    have hstep := step_eq h ht hproc hrun
    refine ⟨by rw [hstep]; exact hrun, ?_, ?_, ?_, nofun, ?_, ?_⟩ <;> rw [hstep]
    · rfl
    · exact (List.append_nil _).symm
    · exact (List.append_nil _).symm
    · exact ownOf_same rfl
    · exact callsOf_same rfl
  | refresh =>
    have hroom' : ¬ x.refPeerR1.length ≥ maxSigners := Nat.not_le.mpr hroom
    have hlt' : (x.refPeerR1 ++ [p]).length + 1 < x.n := by rw [List.length_append, h.n]; exact hlt
    have hproc : processCoordFrame keys env x f = { x with refPeerR1 := x.refPeerR1 ++ [p] } := by
      unfold processCoordFrame
      rw [hf]
      show onRelayRefreshR1 keys env x f = _
      unfold onRelayRefreshR1
      rw [ho]
      dsimp only
      rw [if_neg hroom', if_pos hlt']
    have hrun : Running i n { x with refPeerR1 := x.refPeerR1 ++ [p] } :=
      ⟨h.myId, h.n, h.running, h.mode⟩
    have hstep := step_eq h ht hproc hrun
    refine ⟨by rw [hstep]; exact hrun, ?_, ?_, ?_, nofun, ?_, ?_⟩ <;> rw [hstep]
    · rfl
    · exact (List.append_nil _).symm
    · exact (List.append_nil _).symm
    · exact ownOf_same rfl
    · exact callsOf_same rfl

/-- Packages for peers with ids of two bytes, each encrypted for its target. -/
theorem encrypted_all {ids out : List (Nat × Bytes)} (hids : ∀ q ∈ ids, q.1 < 65536)
    (hperm : (out.map Prod.fst).Perm (ids.map Prod.fst))
    (henc : ∀ q ∈ out.zipIdx, ∃ ct ∈ env.encrypt q.2 q.1.1 q.1.2,
      ct.length ≤ 256 ∧ keys.decrypt q.1.1 ct = some q.1.2) :
    ∀ q ∈ out.zipIdx, q.1.1 < 65536 ∧ ∃ ct ∈ env.encrypt q.2 q.1.1 q.1.2,
      ct.length ≤ 256 ∧ keys.decrypt q.1.1 ct = some q.1.2 := by
  refine fun q hq => ⟨?_, henc q hq⟩
  have hmem : q.1 ∈ out := List.fst_mem_of_mem_zipIdx hq
  obtain ⟨q', hq', e⟩ := List.mem_map.mp (hperm.subset (List.mem_map_of_mem (f := Prod.fst) hmem))
  rw [← e]
  exact hids q' hq'

theorem seconds_zipIdx (i : Nat) (out : List (Nat × Bytes)) :
    (out.zipIdx.map fun q => (.second q.1.1 i q.1.2 : UpMsg)) =
      out.map fun y => .second y.1 i y.2 := by
  have := congrArg (List.map fun y : Nat × Bytes => (.second y.1 i y.2 : UpMsg))
    (List.zipIdx_map_fst 0 out)
  rw [List.map_map] at this
  exact this

/-- The last round-1 package of a DKG: part 2, and a package to every peer. -/
theorem hears_firstLastDkg (hk : Honest keys) (h : Running i n x) (hi : Ranged i)
    (ht : tooLarge f = false) (hf : f.type = Ceremony.relayR1 .dkg) {p : Nat × Bytes}
    (ho : openR1 keys f = some p) (hroom : (heardR1 .dkg x).length < maxSigners)
    (hlt : ¬ (heardR1 .dkg x).length + 2 < n) (hids : ∀ q ∈ heardR1 .dkg x ++ [p], q.1 < 65536)
    (hw : Works keys x f env) :
    ∃ out fs, Hears keys .dkg i n x f env [p] [] fs [] [.mix (heardR1 .dkg x ++ [p]) out] ∧
      (out.map Prod.fst).Perm ((heardR1 .dkg x ++ [p]).map Prod.fst) ∧
      fs.filterMap (openUp keys .dkg) =
        (out.map fun y => .second y.1 i y.2) ++ [] := by
  have hroom' : ¬ x.peerR1.length ≥ maxSigners := Nat.not_le.mpr hroom
  have hlt' : ¬ (x.peerR1 ++ [p]).length + 1 < x.n := by rw [List.length_append, h.n]; exact hlt
  have hproc : processCoordFrame keys env x f = onRelayR1 keys env x f := by
    unfold processCoordFrame
    rw [hf]
    rfl
  unfold onRelayR1 at hproc
  rw [ho] at hproc
  dsimp only at hproc
  rw [if_neg hroom', if_neg hlt'] at hproc
  cases hr : frostDkgPart2 { x with peerR1 := x.peerR1 ++ [p], state := .collectingR2 } env with
  | error left =>
    rw [hr] at hproc
    obtain ⟨_, hno, -⟩ := hw.succeeds (a := .dkgPart2 (x.peerR1 ++ [p]) none) h ht (by rw [hproc])
    cases hno
  | ok answer =>
    obtain ⟨secret, out⟩ := answer
    rw [hr] at hproc
    let y : Node := { x with
      peerR1 := x.peerR1 ++ [p], state := .collectingR2, r2Secret := secret,
      asked := x.asked ++ [.dkgPart2 (x.peerR1 ++ [p]) (some out)] }
    have hproc : processCoordFrame keys env x f = sendAllR2 keys env y .round2Pkg out := hproc
    obtain ⟨_, hout, hperm, henc⟩ :=
      hw.succeeds (a := .dkgPart2 (x.peerR1 ++ [p]) (some out)) h ht (by
        have hsent : ∃ q l, sendAllR2 keys env y .round2Pkg out = { y with outq := q, log := l } :=
          sendAllR2_eq .round2Pkg out y
        obtain ⟨_, _, e⟩ := hsent
        rw [hproc, e])
    cases hout
    obtain ⟨fs, log, e, hans, hup⟩ := sendAll_eq (k := .dkg) hk hi out.zipIdx y h.myId
      (encrypted_all hids hperm henc)
    have e : sendAllR2 keys env y .round2Pkg out = _ := e
    rw [e] at hproc
    have hrun : Running i n { y with outq := y.outq ++ fs, log := y.log ++ log } :=
      ⟨h.myId, h.n, h.running, h.mode⟩
    have hstep := step_eq h ht hproc hrun
    refine ⟨out, fs, ⟨by rw [hstep]; exact hrun, ?_, ?_, ?_, hans, ?_, ?_⟩, hperm, ?_⟩
    · rw [hstep]; rfl
    · rw [hstep]; exact (List.append_nil _).symm
    · rw [hstep]
    · rw [hstep]; exact ownOf_ask (.dkgPart2 (x.peerR1 ++ [p]) (some out)) rfl
    · rw [hstep]; exact callsOf_ask (.dkgPart2 (x.peerR1 ++ [p]) (some out)) rfl
    · rw [hup, seconds_zipIdx]
      exact (List.append_nil _).symm

/-- And of a refresh, where the notice that all are sent follows. -/
theorem hears_firstLastRefresh (hk : Honest keys) (h : Running i n x) (hi : Ranged i)
    (ht : tooLarge f = false) (hf : f.type = Ceremony.relayR1 .refresh) {p : Nat × Bytes}
    (ho : openR1 keys f = some p) (hroom : (heardR1 .refresh x).length < maxSigners)
    (hlt : ¬ (heardR1 .refresh x).length + 2 < n)
    (hids : ∀ q ∈ heardR1 .refresh x ++ [p], q.1 < 65536)
    (hw : Works keys x f env) :
    ∃ out fs, Hears keys .refresh i n x f env [p] [] fs [] [.mix (heardR1 .refresh x ++ [p]) out] ∧
      (out.map Prod.fst).Perm ((heardR1 .refresh x ++ [p]).map Prod.fst) ∧
      fs.filterMap (openUp keys .refresh) =
        (out.map fun y => .second y.1 i y.2) ++ [.done] := by
  have hroom' : ¬ x.refPeerR1.length ≥ maxSigners := Nat.not_le.mpr hroom
  have hlt' : ¬ (x.refPeerR1 ++ [p]).length + 1 < x.n := by rw [List.length_append, h.n]; exact hlt
  have hproc : processCoordFrame keys env x f = onRelayRefreshR1 keys env x f := by
    unfold processCoordFrame
    rw [hf]
    rfl
  unfold onRelayRefreshR1 at hproc
  rw [ho] at hproc
  dsimp only at hproc
  rw [if_neg hroom', if_neg hlt'] at hproc
  cases hr : frostRefreshPart2 { x with refPeerR1 := x.refPeerR1 ++ [p] } env with
  | error left =>
    rw [hr] at hproc
    obtain ⟨_, hno, -⟩ := hw.succeeds (a := .refreshPart2 (x.refPeerR1 ++ [p]) none) h ht
      (by rw [hproc])
    cases hno
  | ok answer =>
    obtain ⟨secret, out⟩ := answer
    rw [hr] at hproc
    let y : Node := { x with
      refPeerR1 := x.refPeerR1 ++ [p], refR2Secret := secret,
      asked := x.asked ++ [.refreshPart2 (x.refPeerR1 ++ [p]) (some out)] }
    have hproc : processCoordFrame keys env x f = queueToCoord keys
        (sendAllR2 keys env y .refreshR2 out) .refreshR2Complete
        (notice (sendAllR2 keys env y .refreshR2 out)) := hproc
    obtain ⟨_, hout, hperm, henc⟩ :=
      hw.succeeds (a := .refreshPart2 (x.refPeerR1 ++ [p]) (some out)) h ht (by
        have hsent : ∃ q l, sendAllR2 keys env y .refreshR2 out = { y with outq := q, log := l } :=
          sendAllR2_eq .refreshR2 out y
        obtain ⟨_, _, e⟩ := hsent
        rw [hproc, e]
        rfl)
    cases hout
    obtain ⟨fs, log, e, hans, hup⟩ := sendAll_eq (k := .refresh) hk hi out.zipIdx y h.myId
      (encrypted_all hids hperm henc)
    have e : sendAllR2 keys env y .refreshR2 out = _ := e
    rw [e] at hproc
    have hrun : Running i n (queueToCoord keys { y with outq := y.outq ++ fs, log := y.log ++ log }
        .refreshR2Complete (notice { y with outq := y.outq ++ fs, log := y.log ++ log })) :=
      ⟨h.myId, h.n, h.running, h.mode⟩
    have hstep := step_eq h ht hproc hrun
    refine ⟨out, fs ++ [⟨.refreshR2Complete, keys.sign y.myId (notice y), notice y⟩],
      ⟨by rw [hstep]; exact hrun, ?_, ?_, ?_, fun g hg => ?_, ?_, ?_⟩, hperm, ?_⟩
    · rw [hstep]; rfl
    · rw [hstep]; exact (List.append_nil _).symm
    · rw [hstep]
      exact List.append_assoc ..
    · rcases List.mem_append.mp hg with hg | hg
      · exact hans g hg
      · rw [List.mem_singleton.mp hg]
        exact answer_complete (k := .refresh) _ y
    · rw [hstep]; exact ownOf_ask (.refreshPart2 (x.refPeerR1 ++ [p]) (some out)) rfl
    · rw [hstep]; exact callsOf_ask (.refreshPart2 (x.refPeerR1 ++ [p]) (some out)) rfl
    · rw [List.filterMap_append, hup, seconds_zipIdx]
      rfl

/-- The last round-1 package: part 2, and a package to every peer. -/
theorem hears_firstLast (hk : Honest keys) (h : Running i n x) (hi : Ranged i)
    (ht : tooLarge f = false) (hf : f.type = k.relayR1) {p : Nat × Bytes}
    (ho : openR1 keys f = some p) (hroom : (heardR1 k x).length < maxSigners)
    (hlt : ¬ (heardR1 k x).length + 2 < n) (hids : ∀ q ∈ heardR1 k x ++ [p], q.1 < 65536)
    (hw : Works keys x f env) :
    ∃ out fs, Hears keys k i n x f env [p] [] fs [] [.mix (heardR1 k x ++ [p]) out] ∧
      (out.map Prod.fst).Perm ((heardR1 k x ++ [p]).map Prod.fst) ∧
      fs.filterMap (openUp keys k) =
        (out.map fun y => .second y.1 i y.2) ++ if k.eager = true then [.done] else [] := by
  cases k with
  | dkg => exact hears_firstLastDkg hk h hi ht hf ho hroom hlt hids hw
  | refresh => exact hears_firstLastRefresh hk h hi ht hf ho hroom hlt hids hw

/-- A round-2 package; in a refresh nothing follows from it. -/
theorem hears_second (env : Signer.Env) (h : Running i n x) (ht : tooLarge f = false)
    (hf : f.type = k.relayR2) {s : Nat}
    {ct q : Bytes} (ho : openR2 keys f = some (s, ct)) (hq : keys.decrypt i ct = some q)
    (hroom : (heardR2 k x).length < maxSigners)
    (hlt : k.eager = true ∨ (heardR2 k x).length + 2 < n) :
    Hears keys k i n x f env [] [(s, q)] [] [] [] := by
  have hq : keys.decrypt x.myId ct = some q := by rw [h.myId]; exact hq
  cases k with
  | dkg =>
    have hroom' : ¬ x.peerR2.length ≥ maxSigners := Nat.not_le.mpr hroom
    have hlt' : (x.peerR2 ++ [(s, q)]).length + 1 < x.n := by
      rw [List.length_append, h.n]
      exact hlt.resolve_left Bool.false_ne_true
    have hproc : processCoordFrame keys env x f = { x with peerR2 := x.peerR2 ++ [(s, q)] } := by
      unfold processCoordFrame
      rw [hf]
      show onRelayR2 keys env x f = _
      unfold onRelayR2
      rw [ho]
      dsimp only
      rw [if_neg hroom', hq]
      exact if_pos hlt'
    have hrun : Running i n { x with peerR2 := x.peerR2 ++ [(s, q)] } :=
      ⟨h.myId, h.n, h.running, h.mode⟩
    have hstep := step_eq h ht hproc hrun
    refine ⟨by rw [hstep]; exact hrun, ?_, ?_, ?_, nofun, ?_, ?_⟩ <;> rw [hstep]
    · exact (List.append_nil _).symm
    · rfl
    · exact (List.append_nil _).symm
    · exact ownOf_same rfl
    · exact callsOf_same rfl
  | refresh =>
    have hroom' : ¬ x.refPeerR2.length ≥ maxSigners := Nat.not_le.mpr hroom
    have hproc : processCoordFrame keys env x f =
        { x with refPeerR2 := x.refPeerR2 ++ [(s, q)] } := by
      unfold processCoordFrame
      rw [hf]
      show onRelayRefreshR2 keys x f = _
      unfold onRelayRefreshR2
      rw [ho]
      dsimp only
      rw [if_neg hroom', hq]
    have hrun : Running i n { x with refPeerR2 := x.refPeerR2 ++ [(s, q)] } :=
      ⟨h.myId, h.n, h.running, h.mode⟩
    have hstep := step_eq h ht hproc hrun
    refine ⟨by rw [hstep]; exact hrun, ?_, ?_, ?_, nofun, ?_, ?_⟩ <;> rw [hstep]
    · exact (List.append_nil _).symm
    · rfl
    · exact (List.append_nil _).symm
    · exact ownOf_same rfl
    · exact callsOf_same rfl

theorem saveKeyMaterial_eq (x : Node) (env : Signer.Env) :
    ∃ saved, (saveKeyMaterial x env).1 = { x with savedKey := saved } := by
  unfold saveKeyMaterial
  cases env.keyWrite with
  | noOpen => exact ⟨x.savedKey, rfl⟩
  | cut m => exact ⟨_, rfl⟩
  | whole => exact ⟨_, rfl⟩

/-- The last round-2 package of a DKG: part 3, the notice and the group key. -/
theorem hears_secondLast (h : Running i n x) (ht : tooLarge f = false) (hf : f.type = .relayR2)
    {s : Nat} {ct q : Bytes} (ho : openR2 keys f = some (s, ct)) (hq : keys.decrypt i ct = some q)
    (hroom : x.peerR2.length < maxSigners) (hlt : ¬ x.peerR2.length + 2 < n)
    (hw : Works keys x f env) :
    ∃ fs, Hears keys .dkg i n x f env [] [(s, q)] fs [] [.last x.peerR1 (x.peerR2 ++ [(s, q)])] ∧
      fs.filterMap (openUp keys .dkg) = [.done] := by
  have hq : keys.decrypt x.myId ct = some q := by rw [h.myId]; exact hq
  have hroom' : ¬ x.peerR2.length ≥ maxSigners := Nat.not_le.mpr hroom
  have hlt' : ¬ (x.peerR2 ++ [(s, q)]).length + 1 < x.n := by rw [List.length_append, h.n]; exact hlt
  have hproc : processCoordFrame keys env x f = onRelayR2 keys env x f := by
    unfold processCoordFrame
    rw [hf]
  unfold onRelayR2 at hproc
  rw [ho] at hproc
  dsimp only at hproc
  rw [if_neg hroom', hq] at hproc
  dsimp only at hproc
  rw [if_neg hlt'] at hproc
  cases hr : frostDkgPart3 { x with peerR2 := x.peerR2 ++ [(s, q)] } env with
  | error written =>
    rw [hr] at hproc
    obtain ⟨_, hno, -⟩ := hw.succeeds (a := .dkgPart3 x.peerR1 (x.peerR2 ++ [(s, q)]) none) h ht
      (by rw [hproc])
    cases hno
  | ok answer =>
    obtain ⟨key, pub⟩ := answer
    rw [hr] at hproc
    let y : Node := { x with
      peerR2 := x.peerR2 ++ [(s, q)], keyPkg := key, pubKeyPkg := pub, state := .complete,
      asked := x.asked ++ [.dkgPart3 x.peerR1 (x.peerR2 ++ [(s, q)]) (some pub)] }
    obtain ⟨saved, hsave⟩ := saveKeyMaterial_eq (queueToCoord keys y .r2Complete (notice y)) env
    have hproc : processCoordFrame keys env x f = queueToCoord keys
        { queueToCoord keys y .r2Complete (notice y) with savedKey := saved } .pubKeyPkg pub := by
      rw [hproc, ← hsave]
      rfl
    obtain ⟨_, hpub, hlen⟩ := hw.succeeds
      (a := .dkgPart3 x.peerR1 (x.peerR2 ++ [(s, q)]) (some pub)) h ht (by rw [hproc]; rfl)
    cases hpub
    have hrun : Running i n (queueToCoord keys
        { queueToCoord keys y .r2Complete (notice y) with savedKey := saved } .pubKeyPkg pub) :=
      ⟨h.myId, h.n, h.running, h.mode⟩
    have hstep := step_eq h ht hproc hrun
    have haside : Answer keys .dkg i ⟨.pubKeyPkg, keys.sign y.myId pub, pub⟩ ∧
        openUp keys .dkg ⟨.pubKeyPkg, keys.sign y.myId pub, pub⟩ = none :=
      answer_aside hlen (.inr (.inl rfl))
    refine ⟨[⟨.r2Complete, keys.sign y.myId (notice y), notice y⟩,
      ⟨.pubKeyPkg, keys.sign y.myId pub, pub⟩],
      ⟨by rw [hstep]; exact hrun, ?_, ?_, ?_, fun g hg => ?_, ?_, ?_⟩, ?_⟩
    · rw [hstep]
      exact (List.append_nil _).symm
    · rw [hstep]
      rfl
    · rw [hstep]
      exact List.append_assoc ..
    · rcases List.mem_pair.mp hg with rfl | rfl
      · exact answer_complete (k := .dkg) _ y
      · exact haside.1
    · rw [hstep]
      exact ownOf_ask (.dkgPart3 x.peerR1 (x.peerR2 ++ [(s, q)]) (some pub)) rfl
    · rw [hstep]
      exact callsOf_ask (.dkgPart3 x.peerR1 (x.peerR2 ++ [(s, q)]) (some pub)) rfl
    · have hdone : openUp keys .dkg ⟨.r2Complete, keys.sign y.myId (notice y), notice y⟩ =
          some .done :=
        openUp_complete (k := .dkg) _ _
      rw [List.filterMap_cons_some hdone, List.filterMap_cons_none haside.2]
      rfl

/-- A frame that changes nothing. -/
theorem hears_nothing (h : Running i n x) (ht : tooLarge f = false)
    (hproc : processCoordFrame keys env x f = x) : Hears keys k i n x f env [] [] [] [] [] := by
  have hstep := step_eq h ht hproc h
  refine ⟨by rw [hstep]; exact h, ?_, ?_, ?_, nofun, ?_, ?_⟩ <;> rw [hstep] <;>
    exact (List.append_nil _).symm

/-- The end of a DKG says nothing to a signer. -/
theorem hears_dkgDone (env : Signer.Env) (h : Running i n x) (ht : tooLarge f = false)
    (hf : f.type = .dkgDone) :
    Hears keys .dkg i n x f env [] [] [] [] [] := by
  refine hears_nothing h ht ?_
  unfold processCoordFrame
  rw [hf]

/-- `REFRESH_FINALIZE` before every round-2 package is there: a refresh stops. -/
theorem hears_finalizeEarly (env : Signer.Env) (h : Running i n x) (ht : tooLarge f = false)
    (hf : f.type = .refreshFinalize) (hn : x.refPeerR2.length + 1 ≠ n) :
    Hears keys .refresh i n x f env [] [] [] [] [] := by
  refine hears_nothing h ht ?_
  unfold processCoordFrame
  rw [hf]
  exact if_pos (by rw [h.n]; exact hn)

/-- A refresh ends with a report, or, where the file cannot be opened, without one. -/
theorem finishRefresh_cases (env : Signer.Env) (x : Node) (key pub : Bytes) :
    (∃ saved, finishRefresh keys env x key pub =
      queueToCoord keys { x with keyPkg := key, pubKeyPkg := pub, savedKey := saved }
        .refreshComplete pub) ∨
      finishRefresh keys env x key pub = { x with keyPkg := key, pubKeyPkg := pub } := by
  unfold finishRefresh saveKeyMaterial
  cases env.keyWrite with
  | noOpen => exact .inr rfl
  | cut m => exact .inl ⟨_, rfl⟩
  | whole => exact .inl ⟨_, rfl⟩

/-- `REFRESH_FINALIZE`: the new share is computed and reported. -/
theorem hears_finalize (h : Running i n x) (ht : tooLarge f = false)
    (hf : f.type = .refreshFinalize)
    (hn : x.refPeerR2.length + 1 = n) (hw : Works keys x f env) :
    ∃ fs, Hears keys .refresh i n x f env [] [] fs [] [.last x.refPeerR1 x.refPeerR2] ∧
      fs.filterMap (openUp keys .refresh) = [] := by
  have hn : ¬ x.refPeerR2.length + 1 ≠ x.n := by rw [h.n]; exact not_not.mpr hn
  have hproc : processCoordFrame keys env x f = onRefreshFinalize keys env x := by
    unfold processCoordFrame
    rw [hf]
  unfold onRefreshFinalize at hproc
  rw [if_neg hn] at hproc
  cases hr : frostRefreshShares x env with
  | none =>
    rw [hr] at hproc
    obtain ⟨_, hno, -⟩ := hw.succeeds (a := .refreshShares x.refPeerR1 x.refPeerR2 none) h ht
      (by rw [hproc])
    cases hno
  | some answer =>
    obtain ⟨key, pub⟩ := answer
    rw [hr] at hproc
    let y : Node := { x with
      keyPkg := key, pubKeyPkg := pub,
      asked := x.asked ++ [.refreshShares x.refPeerR1 x.refPeerR2 (some pub)] }
    have hend : (∃ saved, processCoordFrame keys env x f =
          queueToCoord keys { y with savedKey := saved } .refreshComplete pub) ∨
        processCoordFrame keys env x f = y := by
      rw [hproc]
      exact finishRefresh_cases env _ key pub
    have hlen : pub.length ≤ maxPayload := by
      obtain ⟨_, hpub, hlen⟩ := hw.succeeds
        (a := .refreshShares x.refPeerR1 x.refPeerR2 (some pub)) h ht (by
          rcases hend with ⟨saved, e⟩ | e
          · rw [e]
            rfl
          · rw [e])
      cases hpub
      exact hlen
    have haside : Answer keys .refresh i ⟨.refreshComplete, keys.sign y.myId pub, pub⟩ ∧
        openUp keys .refresh ⟨.refreshComplete, keys.sign y.myId pub, pub⟩ = none :=
      answer_aside hlen (.inr (.inr (.inl rfl)))
    rcases hend with ⟨saved, hproc⟩ | hproc
    · have hrun : Running i n
          (queueToCoord keys { y with savedKey := saved } .refreshComplete pub) :=
        ⟨h.myId, h.n, h.running, h.mode⟩
      have hstep := step_eq h ht hproc hrun
      refine ⟨[⟨.refreshComplete, keys.sign y.myId pub, pub⟩],
        ⟨by rw [hstep]; exact hrun, ?_, ?_, ?_, fun g hg => ?_, ?_, ?_⟩, ?_⟩
      · rw [hstep]
        exact (List.append_nil _).symm
      · rw [hstep]
        exact (List.append_nil _).symm
      · rw [hstep]
        rfl
      · rw [List.mem_singleton.mp hg]
        exact haside.1
      · rw [hstep]
        exact ownOf_ask (.refreshShares x.refPeerR1 x.refPeerR2 (some pub)) rfl
      · rw [hstep]
        exact callsOf_ask (.refreshShares x.refPeerR1 x.refPeerR2 (some pub)) rfl
      · rw [List.filterMap_cons_none haside.2]
        rfl
    · have hrun : Running i n y := ⟨h.myId, h.n, h.running, h.mode⟩
      have hstep := step_eq h ht hproc hrun
      refine ⟨[], ⟨by rw [hstep]; exact hrun, ?_, ?_, ?_, nofun, ?_, ?_⟩, rfl⟩ <;> rw [hstep]
      · exact (List.append_nil _).symm
      · exact (List.append_nil _).symm
      · exact (List.append_nil _).symm
      · exact ownOf_ask (.refreshShares x.refPeerR1 x.refPeerR2 (some pub)) rfl
      · exact callsOf_ask (.refreshShares x.refPeerR1 x.refPeerR2 (some pub)) rfl

theorem parseAck_ackText {i : Nat} (hi : i < 65536) (m : CoordMode) :
    parseAck (ackText i m) = some (i, CoordMode.letter m) := by
  have hlen := decimal_length i
  have htake : (ackText i m).take 31 = ackText i m := by
    refine List.take_of_length_le ?_
    unfold ackText
    rw [List.length_append, List.length_append]
    show 4 + (decimal i).length + 3 ≤ 31
    omega
  have hstop : Stops [32, CoordMode.letter m, 10] := by
    show isDigit 32 = false
    decide
  have hword : ackText i m = ascii "ACK" ++ ([32] ++
      (decimal i ++ [32, CoordMode.letter m, 10])) := by
    unfold ackText
    rw [show ascii "ACK " = ascii "ACK" ++ [32] by decide, List.append_assoc, List.append_assoc]
  unfold parseAck
  rw [htake, hword, scanLit_append, Option.bind_some, scanU16_decimal hi hstop [32] blank_spaces]
  cases m <;> rfl

theorem loadOrFail_eq (keys : Keys) (env : Signer.Env) (x : Node) :
    ∃ key pub fs log, (loadOrFail keys env x).1 =
    { x with keyPkg := key, pubKeyPkg := pub, outq := x.outq ++ fs, log := x.log ++ log } ∧
    ∀ g ∈ fs, g = ⟨.shareLoadFail, keys.sign x.myId [], []⟩ := by
  have hload : ∃ key pub, (loadKeyMaterial x env).1 =
      { x with keyPkg := key, pubKeyPkg := pub } := by
    unfold loadKeyMaterial
    split
    · exact ⟨x.keyPkg, x.pubKeyPkg, rfl⟩
    · exact ⟨_, x.pubKeyPkg, rfl⟩
    · split
      · exact ⟨x.keyPkg, x.pubKeyPkg, rfl⟩
      · exact ⟨_, _, rfl⟩
  obtain ⟨key, pub, e⟩ := hload
  unfold loadOrFail
  split
  · next s he =>
    rw [he] at e
    refine ⟨key, pub, [], [], ?_, nofun⟩
    rw [List.append_nil, List.append_nil]
    exact e
  · next s he =>
    rw [he] at e
    refine ⟨key, pub, [⟨.shareLoadFail, keys.sign x.myId [], []⟩],
      [.queued .shareLoadFail [] []], ?_,
      fun g hg => List.mem_singleton.mp hg⟩
    dsimp only at e ⊢
    rw [e]
    rfl

/-- The acknowledgement and the confirmation: a refresh loads its key share. -/
theorem hears_aside (env : Signer.Env) (h : Running i n x) (hi : i < 65536)
    (ht : tooLarge f = false)
    (hf : f.type = .helloAck ∧ f.payload = ackText i k.mode ∨ f.type = .refreshConfirmed) :
    ∃ fs, Hears keys k i n x f env [] [] fs [] [] ∧ fs.filterMap (openUp keys k) = [] := by
  -- nothing of the ceremony changes, and at most a failure is reported
  have hquiet {a b : Bytes} {c : Bool} {m : CoordMode} {g : List Frame} {l : List Act}
      (hproc : processCoordFrame keys env x f = { x with
        idConfirmed := c, coordMode := m, keyPkg := a, pubKeyPkg := b,
        outq := x.outq ++ g, log := x.log ++ l })
      (hm : m ≠ .sign) (hg : ∀ f ∈ g, Answer keys k i f ∧ openUp keys k f = none) :
      ∃ fs, Hears keys k i n x f env [] [] fs [] [] ∧ fs.filterMap (openUp keys k) = [] := by
    have hrun : Running i n { x with
        idConfirmed := c, coordMode := m, keyPkg := a, pubKeyPkg := b,
        outq := x.outq ++ g, log := x.log ++ l } := ⟨h.myId, h.n, h.running, hm⟩
    have hstep := step_eq h ht hproc hrun
    refine ⟨g, ⟨by rw [hstep]; exact hrun, ?_, ?_, by rw [hstep], fun f hf =>
      (hg f hf).1, ?_, ?_⟩,
      List.filterMap_eq_nil_iff.mpr fun f hf => (hg f hf).2⟩ <;>
      rw [hstep, List.append_nil] <;> cases k <;> rfl
  rcases hf with ⟨hf, hp⟩ | hf
  · have hack : processCoordFrame keys env x f =
        if ackMode (CoordMode.letter k.mode) = .dkg then
          { x with idConfirmed := true, coordMode := ackMode (CoordMode.letter k.mode) }
        else (loadOrFail keys env
          { x with idConfirmed := true, coordMode := ackMode (CoordMode.letter k.mode) }).1 := by
      unfold processCoordFrame
      rw [hf]
      show onHelloAck keys env x f = _
      unfold onHelloAck
      rw [hp, parseAck_ackText hi]
      dsimp only
      rw [if_neg (not_not.mpr h.myId.symm)]
    cases k with
    | dkg =>
      refine hquiet (a := x.keyPkg) (b := x.pubKeyPkg) (c := true) (m := .dkg) (g := []) (l := [])
        ?_ nofun nofun
      rw [hack, List.append_nil, List.append_nil]
      rfl
    | refresh =>
      obtain ⟨key, pub, fs, log, e, hfs⟩ := loadOrFail_eq keys env
        { x with idConfirmed := true, coordMode := .refresh }
      refine hquiet (c := true) (m := .refresh) (hack.trans e) nofun fun g hg => ?_
      rw [hfs g hg]
      exact answer_aside (Nat.zero_le _) (.inr (.inr (.inr rfl)))
  · refine hquiet (a := x.keyPkg) (b := x.pubKeyPkg) (c := x.idConfirmed) (m := x.coordMode)
      (g := [])
      (l := []) ?_ h.mode nofun
    rw [List.append_nil, List.append_nil]
    unfold processCoordFrame
    rw [hf]

/-! ## The party -/

variable {r : SignerRec} {q : List Frame} {told : Nat}

/-- The party after its process has heard a frame. -/
theorem seat_hears {ps qs : List (Nat × Bytes)} {out : List Frame} {own : List Bytes}
    {cs : List Call}
    (h : Hears keys k i n x f env ps qs out own cs) :
    seat keys k i (Signer.step keys x (f, env)) r q told =
      { seat keys k i x r (f :: q) told with
        own := ownOf k x ++ own
        firsts := heardR1 k x ++ ps
        seconds := heardR2 k x ++ qs
        calls := callsOf k x ++ cs
        up := x.outq.filterMap (openUp keys k) ++ out.filterMap (openUp keys k)
        down := q.filterMap (openDown keys k i) } := by
  unfold seat
  rw [h.heardR1, h.heardR2, h.outq, h.made, h.calls, List.filterMap_append]

end FrostSshCa.System
