import FrostSshCa.Coordinator.Event
import Mathlib.Order.Interval.Finset.Nat

/-!
# The cast of a ceremony

The registered ids are distinct and lie in `1..g_n`, so `g_n` packages on file are
one of each id. What the broadcasts and the relays of a ceremony append to each
queue.
-/

namespace FrostSshCa.Coordinator

open Lib

variable {c c' : Coord} {i : Nat}

/-! ## Queues -/

/-- The record with frames appended to its queue. -/
def SignerRec.push (r : SignerRec) (fs : List Frame) : SignerRec := { r with msgq := r.msgq ++ fs }

@[simp] theorem SignerRec.push_nil (r : SignerRec) : r.push [] = r := by simp [SignerRec.push]

@[simp] theorem SignerRec.push_push (r : SignerRec) (fs gs : List Frame) :
    (r.push fs).push gs = r.push (fs ++ gs) := by simp [SignerRec.push]

@[simp] theorem SignerRec.push_msgq (r : SignerRec) (fs : List Frame) :
    (r.push fs).msgq = r.msgq ++ fs := rfl

@[simp] theorem SignerRec.push_r1Sig (r : SignerRec) (fs : List Frame) :
    (r.push fs).r1Sig = r.r1Sig := rfl

@[simp] theorem SignerRec.push_r1Pkg (r : SignerRec) (fs : List Frame) :
    (r.push fs).r1Pkg = r.r1Pkg := rfl

@[simp] theorem SignerRec.push_r2Complete (r : SignerRec) (fs : List Frame) :
    (r.push fs).r2Complete = r.r2Complete := rfl

theorem signerSend_sg (j : Nat) (type : MsgType) (sig payload : Bytes) :
    (c.signerSend j type sig payload).sg i =
      if i = j then (c.sg i).push [⟨type, sig, payload⟩] else c.sg i := by
  unfold Coord.signerSend
  by_cases e : i = j
  · subst e
    rw [Coord.setSg_self, if_pos rfl]
    rfl
  · rw [Coord.setSg_of_ne e, if_neg e]

theorem enroll_sg (c : Coord) (pid i : Nat) :
    (enroll c pid).sg i = if i = pid then SignerRec.new else c.sg i := by
  show Function.update c.sg pid SignerRec.new i = _
  rw [Function.update_apply]

theorem broadcast_sg (hd : c.signers.Nodup) (type : MsgType) (payload : Bytes) :
    (c.broadcast type payload).sg i =
      if i ∈ c.signers then (c.sg i).push [⟨type, [], payload⟩] else c.sg i := by
  refine foldl_sg (i := i) (F := fun r => r.push [⟨type, [], payload⟩]) (l := c.signers)
    (fun _ => True) ?_ ?_ (fun _ _ _ => trivial) (c := c) trivial hd
  · intro d j _ hne
    rw [signerSend_sg, if_neg (Ne.symm hne)]
  · intro d _
    rw [signerSend_sg, if_pos rfl]

/-- The round-1 relay of sender `s`. -/
def relayFrame (c : Coord) (type : MsgType) (s : Nat) : Frame :=
  ⟨type, (c.sg s).r1Sig, be16 s ++ (c.sg s).r1Pkg⟩

theorem relayR1_sg (hd : c.signers.Nodup) (type : MsgType) (s : Nat) :
    (c.relayR1 type s).sg i =
      if i ∈ c.signers ∧ i ≠ s then (c.sg i).push [relayFrame c type s] else c.sg i := by
  have h := foldl_sg (i := i) (F := fun r => if i ≠ s then r.push [relayFrame c type s] else r)
    (l := c.signers)
    (g := fun c i => if i ≠ s then
      c.signerSend i type (c.sg s).r1Sig (be16 s ++ (c.sg s).r1Pkg) else c)
    (fun d => d.sg s = c.sg s) ?_ ?_ ?_ (c := c) rfl hd
  · unfold Coord.relayR1
    rw [h]
    by_cases hi : i ∈ c.signers
    · simp [hi]
    · simp [hi]
  · intro d j _ hne
    split
    · rw [signerSend_sg, if_neg (Ne.symm hne)]
    · rfl
  · intro d hs
    split
    · rw [signerSend_sg, if_pos rfl, hs]
      rfl
    · rfl
  · intro d j hs
    split
    · next hj => rw [signerSend_sg, if_neg (Ne.symm hj), hs]
    · exact hs

/-- Every registered signer's package to every other. -/
def relayAll (c : Coord) (type : MsgType) : Coord :=
  c.signers.foldl (fun c s => c.relayR1 type s) c

theorem relayFold_sg (hd : c.signers.Nodup) (type : MsgType) : ∀ (l : List Nat) (d : Coord),
    d.signers = c.signers → (∀ s, relayFrame d type s = relayFrame c type s) →
    (l.foldl (fun c s => c.relayR1 type s) d).sg i =
      if i ∈ c.signers then (d.sg i).push ((l.filter (· ≠ i)).map (relayFrame c type)) else d.sg i
  | [], d, _, _ => by simp
  | s :: l, d, hs, hr => by
    have hsig : (d.relayR1 type s).signers = c.signers := by
      obtain ⟨_, e⟩ := relayR1_sgOnly d type s
      rw [e]
      exact hs
    have hsg (j : Nat) : (d.relayR1 type s).sg j =
        if j ∈ c.signers ∧ j ≠ s then (d.sg j).push [relayFrame c type s] else d.sg j := by
      rw [relayR1_sg (hs ▸ hd), hs, hr]
    have hframe (x : Nat) : relayFrame (d.relayR1 type s) type x = relayFrame c type x := by
      rw [← hr x]
      unfold relayFrame
      rw [hsg]
      split <;> rfl
    rw [List.foldl_cons, relayFold_sg hd type l _ hsig hframe, hsg]
    by_cases hi : i ∈ c.signers
    · by_cases e : s = i
      · subst e
        simp [hi]
      · simp [hi, e, Ne.symm e]
    · simp [hi]

theorem relayAll_sg (hd : c.signers.Nodup) (type : MsgType) : (relayAll c type).sg i =
    if i ∈ c.signers then
      (c.sg i).push ((c.signers.filter (· ≠ i)).map (relayFrame c type)) else c.sg i :=
  relayFold_sg hd type c.signers c rfl fun _ => rfl

/-- What relaying all stored packages queues for signer `j`. -/
def relayQueue (c : Coord) (type : MsgType) (j : Nat) : List Frame :=
  if j ∈ c.signers then (c.signers.filter (· ≠ j)).map (relayFrame c type) else []

theorem relayQueue_self {type : MsgType} {j : Nat} (hj : j ∈ c.signers) :
    relayQueue c type j = (c.signers.filter (· ≠ j)).map (relayFrame c type) := if_pos hj

theorem mem_relayQueue {type : MsgType} {j : Nat} {g : Frame} (hg : g ∈ relayQueue c type j) :
    ∃ s ∈ c.signers, g = relayFrame c type s := by
  unfold relayQueue at hg
  split at hg
  · obtain ⟨s, hs, rfl⟩ := List.mem_map.mp hg
    exact ⟨s, List.mem_of_mem_filter hs, rfl⟩
  · cases hg

theorem relayAll_push (hd : c.signers.Nodup) (type : MsgType) (j : Nat) :
    (relayAll c type).sg j = (c.sg j).push (relayQueue c type j) := by
  rw [relayAll_sg hd]
  unfold relayQueue
  split
  · rfl
  · exact (SignerRec.push_nil _).symm

theorem relayAll_sgOnly (c : Coord) (type : MsgType) : SgOnly c (relayAll c type) :=
  .foldl (fun c s => relayR1_sgOnly c type s) _ c

/-! ## The cast -/

/-- Who may be registered in a ceremony. -/
structure Cast (c : Coord) : Prop where
  mode : c.mode ≠ .sign
  distinct : c.signers.Nodup
  range : ∀ i ∈ c.signers, 1 ≤ i ∧ i ≤ c.n
  small : c.n < 65536

theorem Cast.congr (h : Cast c) (hm : c'.mode = c.mode) (hs : c'.signers = c.signers)
    (hn : c'.n = c.n) : Cast c' :=
  ⟨hm ▸ h.mode, hs ▸ h.distinct, by rw [hs, hn]; exact h.range, hn ▸ h.small⟩

theorem FlowOnly.cast (hf : FlowOnly c c') (h : Cast c) : Cast c' := by
  obtain ⟨_, _, rfl⟩ := hf
  exact h.congr rfl rfl rfl

theorem Cast.frame (h : Cast c) (env : Env) (f : Frame) : Cast (processSignerFrame c env i f) := by
  by_cases hs : MsgType.signing f.type = false
  · obtain ⟨_, _, _, _, _, _, e⟩ := processSignerFrame_ceremonyOnly c env i f hs
    exact h.congr (by rw [e]) (by rw [e]) (by rw [e])
  · obtain ⟨_, _, _, _, _, _, _, _, _, _, e⟩ :=
      processSignerFrame_roastOnly c env i f (by simpa using hs)
    exact h.congr (by rw [e]) (by rw [e]) (by rw [e])

/-- A registration is under an id nobody holds, within the range the first fixed. -/
theorem Cast.hello (h : Cast c) (env : HelloEnv) (payload : Bytes) :
    Cast (onHello c env payload).1 := by
  rcases onHello_taken c env payload with e | ⟨pid, pn, pt, hp, hnt, hcase⟩
  · rw [e]; exact h
  obtain ⟨h1, h2, h3, h4, -⟩ := parseHello_some hp
  have hm : maxSigners = 64 := rfl
  have hset : Cast { c with n := pn, t := pt } := by
    refine ⟨h.mode, h.distinct, fun i hi => ?_, show pn < 65536 by omega⟩
    have hr := h.range i hi
    rcases hnt with h0 | ⟨rfl, rfl⟩
    · omega
    · exact hr
  rcases hcase with e | ⟨hr, e⟩
  · rw [e]; exact hset
  · have henroll : Cast (enroll { c with n := pn, t := pt } pid) := by
      refine ⟨h.mode, List.nodup_cons.mpr ⟨hr.new, h.distinct⟩, fun i hi => ?_, hset.small⟩
      rcases List.mem_cons.mp hi with rfl | hi
      · exact ⟨h1, h2⟩
      · exact hset.range i hi
    rw [e]
    exact (promote_flowOnly _ pid).cast henroll

theorem Cast.step (h : Cast c) (e : Event) : Cast (step c e) := by
  cases hx : c.exited with
  | true =>
    rw [step_exited hx]
    exact h
  | false =>
    have hexit : Cast (exitIfQuiet c) := by
      unfold exitIfQuiet
      split
      · exact h.congr rfl rfl rfl
      · exact h
    cases e with
    | loopHead env =>
      rw [step_loopHead hx]
      unfold loopHead
      split; · exact hexit
      rw [if_neg fun hd => h.mode hd.2]
      split
      · exact hexit
      · exact h
    | expire now env =>
      rw [step_expire hx]
      rw [if_neg fun hd => h.mode hd.1]
      exact h
    | hello env payload =>
      rw [step_hello hx]
      exact h.hello env payload
    | drain i =>
      rw [step_drain hx]
      split
      · exact h.congr rfl rfl rfl
      · exact h
    | disconnect i =>
      rw [step_disconnect hx]
      split
      · exact ⟨h.mode, h.distinct.filter _, fun j hj =>
          h.range j (List.mem_of_mem_filter hj), h.small⟩
      · exact h
    | frame i f env =>
      rw [step_frame hx]
      split
      · exact h.frame env f
      · exact h

theorem Started.cast (h : Started c) (hm : c.mode ≠ .sign) : Cast c := by
  cases h with
  | dkg n t serial secs toMint file hn => exact ⟨hm, List.nodup_nil, nofun, hn⟩
  | refresh n t serial secs toMint file hn => exact ⟨hm, List.nodup_nil, nofun, hn⟩
  | sign n t serial secs toMint file env _ _ _ _ _ hp =>
    have hfst :
        (prepareTbs (Coord.boot .sign n t serial secs toMint file (some file)) env).1 = c := by
      rw [hp]
    obtain ⟨_, _, _, e | e⟩ :=
        prepareTbs_cases (Coord.boot .sign n t serial secs toMint file (some file)) env <;>
      · rw [← hfst, e] at hm
        exact absurd rfl hm

/-- **Counting**: where `g_n` registered signers have a property, every id of
`1..g_n` is registered and has it. -/
theorem Cast.everyone (h : Cast c) {p : SignerRec → Bool} (hcount : c.n ≤ c.count p) :
    (∀ id, 1 ≤ id → id ≤ c.n → id ∈ c.signers) ∧ ∀ id ∈ c.signers, p (c.sg id) = true := by
  have hsub : c.signers.toFinset ⊆ Finset.Icc 1 c.n := fun id hid =>
    Finset.mem_Icc.mpr (h.range id (List.mem_toFinset.mp hid))
  have hcard : c.signers.toFinset.card = c.signers.length :=
    List.toFinset_card_of_nodup h.distinct
  have hIcc : (Finset.Icc 1 c.n).card = c.n := by rw [Nat.card_Icc]; omega
  have hle : c.signers.length ≤ c.n := by
    rw [← hcard, ← hIcc]
    exact Finset.card_le_card hsub
  have hcle : c.count p ≤ c.signers.length := List.countP_le_length
  constructor
  · intro id h1 h2
    have heq : c.signers.toFinset = Finset.Icc 1 c.n :=
      Finset.eq_of_subset_of_card_le hsub (by rw [hIcc, hcard]; omega)
    exact List.mem_toFinset.mp (heq ▸ Finset.mem_Icc.mpr ⟨h1, h2⟩)
  · exact List.countP_eq_length.mp (by unfold Coord.count at hcount hcle; omega)

end FrostSshCa.Coordinator
