import FrostSshCa.Coordinator.Roster
import FrostSshCa.System.Attribution
import FrostSshCa.System.Ceremony
import FrostSshCa.System.Fresh

/-!
# A ceremony of honest signers

The coordinator and signers that follow the code are a net of `Lib.Rounds`: every
step of the system, with no forged frame, no disconnection and every call succeeding,
is a move of the net, or nothing. So no signer starts its second round, or is told
that all is done, before it has one package of each peer.
-/

namespace FrostSshCa.System

open Coordinator Signer Lib

variable (keys : Keys) (k : Ceremony)

/-! ## Runs -/

/-- How often the end is queued for signer `i` in an event. -/
def toldBy (s : Sys) (e : Event) (i : Nat) : Nat :=
  match coordEvent s e with
  | none => 0
  | some e' => (queuedBy s.coord e' i).countP fun f => f.type = k.finish

/-- A step of the system, with how often each signer has been told that all is done. -/
def record (p : Sys × (Nat → Nat)) (e : Event) : Sys × (Nat → Nat) :=
  (step keys p.1 e, fun i => p.2 i + toldBy k p.1 e i)

/-- Nobody interferes, nobody leaves, and every call succeeds. -/
def Smooth (s : Sys) : Event → Prop
  | .deliver i env => match s.down i with
    | [] => True
    | f :: _ => Works keys (s.node i) f env
  | .forge _ _ _ _ => False
  | .leave _ => False
  | _ => True

instance (s : Sys) : ∀ e, Decidable (Smooth keys s e)
  | .deliver i env => by
    unfold Smooth
    dsimp only
    split <;> infer_instance
  | .forge _ _ _ _ => instDecidableFalse
  | .leave _ => instDecidableFalse
  | .loopHead _ => instDecidableTrue
  | .expire _ _ => instDecidableTrue
  | .launch _ _ _ => instDecidableTrue
  | .write _ => instDecidableTrue
  | .receive _ _ _ => instDecidableTrue

/-! ## The net -/

def stageOf : DkgState → Rounds.Stage
  | .idle => .joining
  | .collectingR1 => .first
  | .collectingR2 => .second
  | _ => .ended

def seatOf (p : Sys × (Nat → Nat)) (i : Nat) : Rounds.Party Nat Bytes Bytes :=
  seat keys k i (p.1.node i) (p.1.coord.sg i) (p.1.queue i) (p.2 i)

/-- The net the system is. -/
def view (p : Sys × (Nat → Nat)) : Rounds.Net Nat Bytes Bytes where
  size := p.1.coord.n
  stage := stageOf p.1.coord.dkgState
  members := p.1.coord.signers
  party := fun i => if i ∈ p.1.coord.signers then seatOf keys k p i else .blank

/-- A registered signer, the frames on their way to it and its record. -/
structure Seated (n t i : Nat) (x : Node) (q : List Frame) (r : SignerRec) : Prop where
  args : Args i n t
  running : Running i n x
  answers : ∀ f ∈ x.outq, Answer keys k i f
  orders : ∀ f ∈ q, Order keys k n t i f
  sigSize : r.r1Sig.length = frameSigSize
  filed : r.r1Pkg ≠ [] → keys.verify i r.r1Pkg r.r1Sig = true ∧ r.r1Pkg.length + 2 ≤ maxPayload

/-- A process that is not registered. -/
structure Waiting (i : Nat) (x : Node) : Prop where
  fresh : x.peerR1 = [] ∧ x.peerR2 = [] ∧ x.refPeerR1 = [] ∧ x.refPeerR2 = [] ∧ x.asked = []
  outq : x.outq = [] ∨ ∃ n t sig, Args i n t ∧ x.outq = [⟨.hello, sig, helloText i n t⟩] ∧
    Running i n x

/-- What the net does not show. -/
structure Setup (p : Sys × (Nat → Nat)) : Prop where
  cast : Cast p.1.coord
  mode : p.1.coord.mode = k.mode
  fail : p.1.coord.roastFail = false
  ended : p.1.coord.exited = true → p.1.coord.dkgState = .complete
  seated : ∀ i ∈ p.1.coord.signers, Seated keys k p.1.coord.n p.1.coord.t i (p.1.node i)
    (p.1.queue i) (p.1.coord.sg i)
  away : ∀ i, i ∉ p.1.coord.signers → p.1.down i = [] ∧ Waiting i (p.1.node i) ∧ p.2 i = 0

variable {keys k} {p p' : Sys × (Nat → Nat)} {i : Nat}

/-- A change at one registered signer. -/
theorem view_set (hi : i ∈ p.1.coord.signers) (hs : p'.1.coord.signers = p.1.coord.signers)
    (hn : p'.1.coord.n = p.1.coord.n) (hd : p'.1.coord.dkgState = p.1.coord.dkgState)
    (hj : ∀ j, j ≠ i → seatOf keys k p' j = seatOf keys k p j) :
    view keys k p' = (view keys k p).set i (seatOf keys k p' i) := by
  unfold view Rounds.Net.set
  rw [hs, hn, hd]
  congr 1
  funext j
  dsimp only
  by_cases e : j = i
  · rw [e, Function.update_self, if_pos hi]
  · rw [Function.update_of_ne e]
    by_cases hm : j ∈ p.1.coord.signers
    · rw [if_pos hm, if_pos hm, hj j e]
    · rw [if_neg hm, if_neg hm]

theorem view_party (hi : i ∈ p.1.coord.signers) : (view keys k p).party i = seatOf keys k p i :=
  if_pos hi

/-- No change anywhere. -/
theorem view_same (hs : p'.1.coord.signers = p.1.coord.signers) (hn : p'.1.coord.n = p.1.coord.n)
    (hd : p'.1.coord.dkgState = p.1.coord.dkgState)
    (hj : ∀ j ∈ p.1.coord.signers, seatOf keys k p' j = seatOf keys k p j) :
    view keys k p' = view keys k p := by
  unfold view
  rw [hs, hn, hd]
  congr 1
  funext j
  by_cases hm : j ∈ p.1.coord.signers
  · rw [if_pos hm, if_pos hm, hj j hm]
  · rw [if_neg hm, if_neg hm]

/-! ## A signer hears a frame -/

variable {f : Frame} {fs : List Frame} {env : Signer.Env}

theorem step_deliver (keys : Keys) (env : Signer.Env) (hd : p.1.down i = f :: fs)
    (hx : (p.1.node i).exited = false) :
    step keys p.1 (.deliver i env) =
      (p.1.setNode i (Signer.step keys (p.1.node i) (f, env))).setDown i fs := by
  show (match p.1.down i with | [] => p.1 | f :: fs => _) = _
  rw [hd]
  exact if_neg (by rw [hx]; decide)

/-- What it hears is what changes. -/
theorem Setup.heard (h : Setup keys k p) (hi : i ∈ p.1.coord.signers) (hd : p.1.down i = f :: fs)
    {ps qs : List (Nat × Bytes)} {out : List Frame} {own : List Bytes} {cs : List Call}
    (hh : Hears keys k i p.1.coord.n (p.1.node i) f env ps qs out own cs) :
    Setup keys k (record keys k p (.deliver i env)) ∧
      view keys k (record keys k p (.deliver i env)) = (view keys k p).set i
        { (view keys k p).party i with
          own := ((view keys k p).party i).own ++ own
          firsts := ((view keys k p).party i).firsts ++ ps
          seconds := ((view keys k p).party i).seconds ++ qs
          calls := ((view keys k p).party i).calls ++ cs
          up := ((view keys k p).party i).up ++ out.filterMap (openUp keys k)
          down := (fs ++ (p.1.coord.sg i).msgq).filterMap (openDown keys k i) } := by
  have hseat := h.seated i hi
  have hstep := step_deliver keys env hd hseat.running.running
  have hrec : record keys k p (.deliver i env) =
      ((p.1.setNode i (Signer.step keys (p.1.node i) (f, env))).setDown i fs, p.2) := by
    unfold record
    rw [hstep]
    rfl
  have hqueue : p.1.queue i = f :: (fs ++ (p.1.coord.sg i).msgq) := by
    unfold Sys.queue
    rw [hd]
    rfl
  have hnode : ((p.1.setNode i (Signer.step keys (p.1.node i) (f, env))).setDown i fs).node i =
      Signer.step keys (p.1.node i) (f, env) := Function.update_self ..
  have hqueue' : ((p.1.setNode i (Signer.step keys (p.1.node i) (f, env))).setDown i fs).queue i =
      fs ++ (p.1.coord.sg i).msgq := by
    show Function.update p.1.down i fs i ++ _ = _
    rw [Function.update_self]
    rfl
  have hother (j : Nat) (hj : j ≠ i) :
      ((p.1.setNode i (Signer.step keys (p.1.node i) (f, env))).setDown i fs).node j = p.1.node j ∧
      ((p.1.setNode i (Signer.step keys (p.1.node i) (f, env))).setDown i fs).down j = p.1.down j :=
    ⟨Function.update_of_ne hj .., Function.update_of_ne hj ..⟩
  rw [hrec]
  constructor
  · refine ⟨h.cast, h.mode, h.fail, h.ended, fun j hj => ?_, fun j hj => ?_⟩
    · dsimp only
      by_cases e : j = i
      · subst e
        rw [hnode, hqueue']
        refine ⟨hseat.args, hh.running, fun g hg => ?_, fun g hg =>
          hseat.orders g ?_, hseat.sigSize,
          hseat.filed⟩
        · rw [hh.outq] at hg
          rcases List.mem_append.mp hg with hg | hg
          · exact hseat.answers g hg
          · exact hh.answers g hg
        · rw [hqueue]
          exact List.mem_cons_of_mem _ hg
      · obtain ⟨h1, h2⟩ := hother j e
        unfold Sys.queue
        rw [h1, h2]
        exact h.seated j hj
    · dsimp only
      have e : j ≠ i := fun e => hj (e ▸ hi)
      obtain ⟨h1, h2⟩ := hother j e
      rw [h1, h2]
      exact h.away j hj
  · refine (view_set hi ?_ ?_ ?_ fun j hj => ?_).trans ?_
    · rfl
    · rfl
    · rfl
    · obtain ⟨h1, h2⟩ := hother j hj
      unfold seatOf Sys.queue
      dsimp only
      rw [h1, h2]
      rfl
    · congr 1
      rw [view_party hi]
      unfold seatOf
      dsimp only
      rw [hnode, hqueue', hqueue]
      exact seat_hears hh

theorem args_small {i n t : Nat} (h : Args i n t) : i < 65536 ∧ n < 65536 ∧ t < 65536 := by
  obtain ⟨h1, h2, h3⟩ := h
  unfold maxSigners at h2
  omega

theorem args_ranged {i n t : Nat} (h : Args i n t) : Ranged i := by
  obtain ⟨h1, h2, -⟩ := h
  exact ⟨h1.1, by omega⟩

/-- Nothing changes where nothing is added. -/
theorem set_same {N : Rounds.Net Nat Bytes Bytes} {x : Rounds.Party Nat Bytes Bytes}
    (h : x = N.party i) : N.set i x = N := by
  unfold Rounds.Net.set
  rw [h, Function.update_eq_self]

theorem queue_head (hd : p.1.down i = f :: fs) :
    p.1.queue i = f :: (fs ++ (p.1.coord.sg i).msgq) := by
  unfold Sys.queue
  rw [hd]
  rfl

theorem Setup.order_head (h : Setup keys k p) (hi : i ∈ p.1.coord.signers)
    (hd : p.1.down i = f :: fs) : Order keys k p.1.coord.n p.1.coord.t i f :=
  (h.seated i hi).orders f (by rw [queue_head hd]; exact List.mem_cons_self ..)

/-- What is on its way to `i` when the head of its pipe says `d`. -/
theorem down_head (hi : i ∈ p.1.coord.signers) (hd : p.1.down i = f :: fs)
    {d : Rounds.Down Nat Bytes Bytes} (e : openDown keys k i f = some d) :
    ((view keys k p).party i).down =
      d :: (fs ++ (p.1.coord.sg i).msgq).filterMap (openDown keys k i) := by
  rw [view_party hi]
  show (p.1.queue i).filterMap (openDown keys k i) = _
  rw [queue_head hd, List.filterMap_cons_some e]

theorem view_firsts (hi : i ∈ p.1.coord.signers) :
    ((view keys k p).party i).firsts = heardR1 k (p.1.node i) := by
  rw [view_party hi]
  rfl

theorem view_seconds (hi : i ∈ p.1.coord.signers) :
    ((view keys k p).party i).seconds = heardR2 k (p.1.node i) := by
  rw [view_party hi]
  rfl

/-- A frame that says nothing in the rounds. -/
theorem Setup.hearAside (h : Setup keys k p) (hi : i ∈ p.1.coord.signers)
    (hd : p.1.down i = f :: fs) (e : openDown keys k i f = none) (env : Signer.Env) :
    Setup keys k (record keys k p (.deliver i env)) ∧
      Rounds.Move k.eager (view keys k p) (view keys k (record keys k p (.deliver i env))) := by
  have hseat := h.seated i hi
  have horder := h.order_head hi hd
  have hdown : ((view keys k p).party i).down =
      (fs ++ (p.1.coord.sg i).msgq).filterMap (openDown keys k i) := by
    rw [view_party hi]
    show (p.1.queue i).filterMap (openDown keys k i) = _
    rw [queue_head hd, List.filterMap_cons_none e]
  have haside := horder.opens.resolve_left (by rw [e]; exact Bool.false_ne_true)
  obtain ⟨out, hh, hout⟩ := hears_aside env hseat.running (args_small hseat.args).1 horder.size haside
  obtain ⟨h1, h2⟩ := h.heard hi hd hh
  refine ⟨h1, ?_⟩
  rw [h2, set_same (by simp only [hout, List.append_nil, ← hdown])]
  exact .none

/-- `START`: the first package is made and sent. -/
theorem Setup.hearStart (h : Setup keys k p) (hi : i ∈ p.1.coord.signers)
    (hd : p.1.down i = f :: fs) (hw : Works keys (p.1.node i) f env)
    (e : openDown keys k i f = some .start) :
    Setup keys k (record keys k p (.deliver i env)) ∧
      Rounds.Move k.eager (view keys k p) (view keys k (record keys k p (.deliver i env))) := by
  have hseat := h.seated i hi
  have horder := h.order_head hi hd
  obtain ⟨-, hn16, ht16⟩ := args_small hseat.args
  obtain ⟨pkg, hh⟩ := hears_start (t := p.1.coord.t) hseat.running horder.size (openDown_start e)
    (horder.start (openDown_start e)) hn16 ht16 hw
  obtain ⟨h1, h2⟩ := h.heard hi hd hh
  refine ⟨h1, ?_⟩
  rw [h2]
  simp only [List.append_nil]
  rw [List.filterMap_cons_some (openUp_round1 _ _)]
  exact .start i pkg _ hi (down_head hi hd e)

/-- The first packages a signer has and is about to have come from registered signers. -/
theorem Setup.firsts_small (h : Setup keys k p) (hs : Rounds.Sound k.eager (view keys k p))
    (hi : i ∈ p.1.coord.signers) (hd : p.1.down i = f :: fs) {s : Nat} {pkg : Bytes}
    (e : openDown keys k i f = some (.first s pkg)) :
    ∀ q ∈ heardR1 k (p.1.node i) ++ [(s, pkg)], q.1 < 65536 := by
  intro q hq
  have hdown := down_head hi hd e
  have hstage := hs.inv.begun (i := i) (.inl (by rw [hdown]; nofun))
  have hc := (hs.inv.course hstage i hi).firsts
  have hin : q ∈ ((view keys k p).party i).firsts ++
      ((view keys k p).party i).down.filterMap Rounds.Down.asFirst := by
    rw [view_firsts hi, hdown, List.filterMap_cons_some
      (show Rounds.Down.asFirst (.first s pkg) = some (s, pkg) from rfl)]
    rcases List.mem_append.mp hq with hq | hq
    · exact List.mem_append_left _ hq
    · rw [List.mem_singleton.mp hq]
      exact List.mem_append_right _ (List.mem_cons_self ..)
  rw [hc] at hin
  split at hin
  · obtain ⟨j, hj, he⟩ := List.mem_filterMap.mp hin
    obtain ⟨_, -, rfl⟩ := Option.map_eq_some_iff.mp he
    exact (args_small (h.seated j (List.mem_of_mem_filter hj)).args).1
  · cases hin

/-- A relayed round-1 package is counted; the last one starts the second round. -/
theorem Setup.hearFirst (hk : Honest keys) (h : Setup keys k p)
    (hs : Rounds.Sound k.eager (view keys k p)) (hi : i ∈ p.1.coord.signers)
    (hd : p.1.down i = f :: fs) (hw : Works keys (p.1.node i) f env) {s : Nat} {pkg : Bytes}
    (e : openDown keys k i f = some (.first s pkg)) :
    Setup keys k (record keys k p (.deliver i env)) ∧
      Rounds.Move k.eager (view keys k p) (view keys k (record keys k p (.deliver i env))) := by
  have hseat := h.seated i hi
  have horder := h.order_head hi hd
  have hdown := down_head hi hd e
  have hfirsts : ((view keys k p).party i).firsts = heardR1 k (p.1.node i) := view_firsts hi
  have hstage := hs.inv.begun (i := i) (.inl (by rw [hdown]; nofun))
  obtain ⟨hf, ho⟩ := openDown_first e
  -- a party counts no further than `n`
  have hsize : (view keys k p).size ≤ maxSigners := hseat.args.nRange.2
  have hlen := hs.inv.firsts_length hstage hi
  rw [hdown, List.filterMap_cons_some
    (show Rounds.Down.asFirst (.first s pkg) = some (s, pkg) from rfl),
    List.length_cons, hfirsts] at hlen
  have hroom : (heardR1 k (p.1.node i)).length < maxSigners := by omega
  by_cases hlt : (heardR1 k (p.1.node i)).length + 2 < p.1.coord.n
  · obtain ⟨h1, h2⟩ := h.heard hi hd (hears_first env hseat.running horder.size hf ho hroom hlt)
    refine ⟨h1, ?_⟩
    have hmove : Rounds.Move k.eager (view keys k p) _ := .first i (s, pkg) _
      ((((view keys k p).party i).firsts ++ [(s, pkg)]).map fun y => (y.1, [])) hi hdown
      (by rw [List.map_map]; exact .refl _)
    unfold Rounds.Party.hearFirst at hmove
    rw [if_pos (by rw [hfirsts]; exact hlt)] at hmove
    rw [h2]
    simp only [List.append_nil, List.filterMap_nil]
    exact hmove
  · obtain ⟨out, fs', hh, hperm, hup⟩ := hears_firstLast hk hseat.running
      (args_ranged hseat.args) horder.size hf ho hroom hlt (h.firsts_small hs hi hd e) hw
    obtain ⟨h1, h2⟩ := h.heard hi hd hh
    refine ⟨h1, ?_⟩
    have hmove : Rounds.Move k.eager (view keys k p) _ := .first i (s, pkg) _ out hi hdown
      (by rw [hfirsts]; exact hperm)
    unfold Rounds.Party.hearFirst at hmove
    rw [if_neg (by rw [hfirsts]; exact hlt)] at hmove
    rw [h2]
    simp only [List.append_nil, hup, ← List.append_assoc, ← hfirsts]
    exact hmove

/-- A relayed round-2 package is counted; in a DKG the last one gives the key. -/
theorem Setup.hearSecond (h : Setup keys k p) (hs : Rounds.Sound k.eager (view keys k p))
    (hi : i ∈ p.1.coord.signers) (hd : p.1.down i = f :: fs)
    (hw : Works keys (p.1.node i) f env) {s : Nat} {pkg : Bytes}
    (e : openDown keys k i f = some (.second s pkg)) :
    Setup keys k (record keys k p (.deliver i env)) ∧
      Rounds.Move k.eager (view keys k p) (view keys k (record keys k p (.deliver i env))) := by
  have hseat := h.seated i hi
  have horder := h.order_head hi hd
  have hdown := down_head hi hd e
  have hfirsts : ((view keys k p).party i).firsts = heardR1 k (p.1.node i) := view_firsts hi
  have hseconds : ((view keys k p).party i).seconds = heardR2 k (p.1.node i) := view_seconds hi
  have hstage := hs.inv.begun (i := i) (.inl (by rw [hdown]; nofun))
  obtain ⟨hf, ct, ho, hq⟩ := openDown_second e
  have hsize : (view keys k p).size ≤ maxSigners := hseat.args.nRange.2
  have hlen := hs.inv.inbox_length hstage hi
  rw [hdown, List.filterMap_cons_some
    (show Rounds.Down.asSecond (.second s pkg) = some (s, pkg) from rfl),
    List.length_cons, hseconds] at hlen
  have hroom : (heardR2 k (p.1.node i)).length < maxSigners := by omega
  have hmove : Rounds.Move k.eager (view keys k p) _ := .second i (s, pkg) _ hi hdown
  unfold Rounds.Party.hearSecond at hmove
  by_cases hlt : k.eager = true ∨ (heardR2 k (p.1.node i)).length + 2 < p.1.coord.n
  · obtain ⟨h1, h2⟩ := h.heard hi hd (hears_second env hseat.running horder.size hf ho hq hroom hlt)
    refine ⟨h1, ?_⟩
    rw [if_pos (by rw [hseconds]; exact hlt)] at hmove
    rw [h2]
    simp only [List.append_nil, List.filterMap_nil]
    exact hmove
  · rw [if_neg (by rw [hseconds]; exact hlt)] at hmove
    cases k with
    | refresh => exact absurd (.inl rfl) hlt
    | dkg =>
      obtain ⟨fs', hh, hup⟩ := hears_secondLast hseat.running horder.size hf ho hq hroom
        (fun hc => hlt (.inr hc)) hw
      obtain ⟨h1, h2⟩ := h.heard hi hd hh
      refine ⟨h1, ?_⟩
      rw [h2]
      simp only [List.append_nil, hup]
      rw [hfirsts, hseconds] at hmove
      rw [hfirsts, hseconds]
      exact hmove

/-- The notice that ends the ceremony; in a refresh it gives the key. -/
theorem Setup.hearFinish (h : Setup keys k p) (hi : i ∈ p.1.coord.signers)
    (hd : p.1.down i = f :: fs) (hw : Works keys (p.1.node i) f env)
    (e : openDown keys k i f = some .finish) :
    Setup keys k (record keys k p (.deliver i env)) ∧
      Rounds.Move k.eager (view keys k p) (view keys k (record keys k p (.deliver i env))) := by
  have hseat := h.seated i hi
  have horder := h.order_head hi hd
  have hfirsts : ((view keys k p).party i).firsts = heardR1 k (p.1.node i) := view_firsts hi
  have hseconds : ((view keys k p).party i).seconds = heardR2 k (p.1.node i) := view_seconds hi
  have hf := openDown_finish e
  have hmove : Rounds.Move k.eager (view keys k p) _ := .finish i _ hi (down_head hi hd e)
  unfold Rounds.Party.hearFinish at hmove
  cases k with
  | dkg =>
    have hh : Hears keys .dkg i p.1.coord.n (p.1.node i) f env [] [] [] [] [] :=
      hears_dkgDone env hseat.running horder.size hf
    obtain ⟨h1, h2⟩ := h.heard hi hd hh
    refine ⟨h1, ?_⟩
    rw [if_neg fun hc => Bool.false_ne_true hc.1] at hmove
    rw [h2]
    simp only [List.append_nil, List.filterMap_nil]
    exact hmove
  | refresh =>
    by_cases hfull : (p.1.node i).refPeerR2.length + 1 = p.1.coord.n
    · obtain ⟨fs', hh, hup⟩ := hears_finalize hseat.running horder.size hf hfull hw
      obtain ⟨h1, h2⟩ := h.heard hi hd hh
      refine ⟨h1, ?_⟩
      rw [if_pos ⟨rfl, by rw [hseconds]; exact hfull⟩] at hmove
      rw [h2]
      simp only [List.append_nil, hup]
      rw [hfirsts, hseconds] at hmove
      rw [hfirsts, hseconds]
      exact hmove
    · have hh : Hears keys .refresh i p.1.coord.n (p.1.node i) f env [] [] [] [] [] :=
        hears_finalizeEarly env hseat.running horder.size hf hfull
      obtain ⟨h1, h2⟩ := h.heard hi hd hh
      refine ⟨h1, ?_⟩
      rw [if_neg fun hc => hfull (by have := hc.2; rw [hseconds] at this; exact this)] at hmove
      rw [h2]
      simp only [List.append_nil, List.filterMap_nil]
      exact hmove

/-- **A signer that hears a frame moves as a party.** -/
theorem Setup.deliver (hk : Honest keys) (h : Setup keys k p)
    (hs : Rounds.Sound k.eager (view keys k p)) (hi : i ∈ p.1.coord.signers)
    (hd : p.1.down i = f :: fs) (hw : Works keys (p.1.node i) f env) :
    Setup keys k (record keys k p (.deliver i env)) ∧
      Rounds.Move k.eager (view keys k p) (view keys k (record keys k p (.deliver i env))) := by
  cases e : openDown keys k i f with
  | none => exact h.hearAside hi hd e env
  | some d =>
    cases d with
    | start => exact h.hearStart hi hd hw e
    | first s pkg => exact h.hearFirst hk hs hi hd hw e
    | second s pkg => exact h.hearSecond hs hi hd hw e
    | finish => exact h.hearFinish hi hd hw e

/-! ## The coordinator reads a frame -/

variable {c' : Coord} {hello : HelloEnv} {env' : Coordinator.Env}

theorem ceremonyOnly_same {c c' : Coord} (h : CeremonyOnly c c') : c'.n = c.n ∧ c'.t = c.t ∧
    c'.signers = c.signers ∧ c'.mode = c.mode ∧ c'.roastFail = c.roastFail ∧
      c'.exited = c.exited := by
  obtain ⟨_, _, _, _, _, _, rfl⟩ := h
  exact ⟨rfl, rfl, rfl, rfl, rfl, rfl⟩

/-- What reading a frame of a ceremony does to the coordinator: `fs j` is queued for
signer `j`. -/
structure Reads (keys : Keys) (k : Ceremony) (c c' : Coord) (fs : Nat → List Frame) : Prop where
  only : CeremonyOnly c c'
  queue : ∀ j, (c'.sg j).msgq = (c.sg j).msgq ++ fs j
  outside : ∀ j, j ∉ c.signers → fs j = []
  orders : ∀ j ∈ c.signers, ∀ f ∈ fs j, Order keys k c.n c.t j f
  sigSize : ∀ j ∈ c.signers, (c'.sg j).r1Sig.length = frameSigSize
  filed : ∀ j ∈ c.signers, (c'.sg j).r1Pkg ≠ [] →
    keys.verify j (c'.sg j).r1Pkg (c'.sg j).r1Sig = true ∧ (c'.sg j).r1Pkg.length + 2 ≤ maxPayload

/-- A party whose hub has changed. -/
def hubSeat (keys : Keys) (k : Ceremony) (x : Rounds.Party Nat Bytes Bytes) (r : SignerRec)
    (j : Nat)
    (fs : List Frame) : Rounds.Party Nat Bytes Bytes :=
  { x with
    filed := if r.r1Pkg = [] then none else some r.r1Pkg
    flagged := r.r2Complete
    down := x.down ++ fs.filterMap (openDown keys k j)
    told := x.told + fs.countP fun f => f.type = k.finish }

theorem view_eq {N : Rounds.Net Nat Bytes Bytes} (hn : N.size = p.1.coord.n)
    (hs : N.stage = stageOf p.1.coord.dkgState) (hm : N.members = p.1.coord.signers)
    (hin : ∀ j ∈ p.1.coord.signers, N.party j = seatOf keys k p j)
    (hout : ∀ j, j ∉ p.1.coord.signers → N.party j = .blank) : view keys k p = N := by
  obtain ⟨size, stage, members, party⟩ := N
  cases hn
  cases hs
  cases hm
  unfold view
  congr 1
  funext j
  by_cases hj : j ∈ p.1.coord.signers
  · rw [if_pos hj]
    exact (hin j hj).symm
  · rw [if_neg hj]
    exact (hout j hj).symm

/-- The frame is off the signer's queue, and the coordinator has handled it. -/
theorem Setup.read (h : Setup keys k p) (hello : HelloEnv) (hi : i ∈ p.1.coord.signers)
    (hx : p.1.coord.exited = false) (ho : (p.1.node i).outq = f :: fs)
    (hc : processSignerFrame p.1.coord env' i f = c') {gs : Nat → List Frame}
    (hr : Reads keys k p.1.coord c' gs) :
    Setup keys k (record keys k p (.receive i hello env')) ∧
      (record keys k p (.receive i hello env')).1.coord = c' ∧
      ∀ j ∈ p.1.coord.signers, seatOf keys k (record keys k p (.receive i hello env')) j =
        hubSeat keys k
          (if j = i then { seatOf keys k p i with up := fs.filterMap (openUp keys k) } else seatOf keys k p j)
          (c'.sg j) j (gs j) := by
  have hseat := h.seated i hi
  have hsize := (hseat.answers f (by rw [ho]; exact List.mem_cons_self ..)).size
  obtain ⟨hn, ht, hsigners, hmode, hfail, hexited⟩ := ceremonyOnly_same hr.only
  have hcoord : Coordinator.step p.1.coord (.frame i f env') = c' :=
    (step_frame_of_mem hx hi f env').trans hc
  have hstep : step keys p.1 (.receive i hello env') =
      { p.1.setNode i { p.1.node i with outq := fs } with coord := c' } := by
    show (match (p.1.node i).outq with | [] => p.1 | f :: fs => _) = _
    rw [ho]
    show Sys.read _ i f hello env' = _
    unfold Sys.read
    rw [if_neg (by show ¬ p.1.coord.exited = true; rw [hx]; decide), if_neg (by omega)]
    refine (if_pos hi).trans ?_
    show ({ p.1.setNode i { p.1.node i with outq := fs } with
      coord := Coordinator.step p.1.coord (.frame i f env') } : Sys) = _
    rw [hcoord]
  have htold (j : Nat) : toldBy k p.1 (.receive i hello env') j =
      (gs j).countP fun f => f.type = k.finish := by
    have hce : coordEvent p.1 (.receive i hello env') = some (.frame i f env') := by
      show (match (p.1.node i).outq with | [] => none | f :: _ => _) = _
      rw [ho]
      unfold readEvent
      dsimp only
      rw [if_neg (by omega), if_pos hi]
    unfold toldBy
    rw [hce]
    dsimp only
    have hq : ((Coordinator.step p.1.coord (.frame i f env')).sg j).msgq =
        kept p.1.coord (.frame i f env') j ++ gs j := by
      rw [hcoord, hr.queue]
      rfl
    rw [queuedBy_eq hq]
  have hrec : record keys k p (.receive i hello env') =
      ({ p.1.setNode i { p.1.node i with outq := fs } with coord := c' },
        fun j => p.2 j + (gs j).countP fun f => f.type = k.finish) := by
    unfold record
    rw [hstep]
    refine Prod.ext rfl ?_
    funext j
    dsimp only
    rw [htold]
  have hnode (j : Nat) (hj : j ≠ i) :
      (p.1.setNode i { p.1.node i with outq := fs }).node j = p.1.node j :=
        Function.update_of_ne hj ..
  have hnode' : (p.1.setNode i { p.1.node i with outq := fs }).node i =
      { p.1.node i with outq := fs } :=
    Function.update_self ..
  have hqueue (j : Nat) : p.1.down j ++ (c'.sg j).msgq = p.1.queue j ++ gs j := by
    rw [hr.queue, ← List.append_assoc]
    rfl
  rw [hrec]
  refine ⟨⟨h.cast.congr hmode hsigners hn, hmode.trans h.mode, hfail.trans h.fail, fun he => ?_,
    fun j hj => ?_, fun j hj => ?_⟩, rfl, fun j hj => ?_⟩
  · have he : c'.exited = true := he
    rw [hexited, hx] at he
    cases he
  · have hj' : j ∈ c'.signers := hj
    rw [hsigners] at hj'
    have hsj := h.seated j hj'
    show Seated keys k c'.n c'.t j _ (p.1.down j ++ (c'.sg j).msgq) (c'.sg j)
    rw [hn, ht, hqueue]
    have horders : ∀ g ∈ p.1.queue j ++ gs j, Order keys k p.1.coord.n p.1.coord.t j g := by
      intro g hg
      rcases List.mem_append.mp hg with hg | hg
      · exact hsj.orders g hg
      · exact hr.orders j hj' g hg
    by_cases e : j = i
    · subst e
      dsimp only
      rw [hnode']
      refine ⟨hsj.args, ⟨hsj.running.myId, hsj.running.n, hsj.running.running, hsj.running.mode⟩,
        fun g hg => hsj.answers g ?_, horders, hr.sigSize j hj', hr.filed j hj'⟩
      rw [ho]
      exact List.mem_cons_of_mem _ hg
    · dsimp only
      rw [hnode j e]
      exact ⟨hsj.args, hsj.running, hsj.answers, horders, hr.sigSize j hj', hr.filed j hj'⟩
  · have hj' : j ∉ c'.signers := hj
    rw [hsigners] at hj'
    have e : j ≠ i := fun e => hj' (e ▸ hi)
    obtain ⟨h1, h2, h3⟩ := h.away j hj'
    dsimp only
    rw [hnode j e, h3, hr.outside j hj']
    exact ⟨h1, h2, rfl⟩
  · show seat keys k j ((p.1.setNode i { p.1.node i with outq := fs }).node j) (c'.sg j)
      (p.1.down j ++ (c'.sg j).msgq) _ = _
    rw [hqueue]
    by_cases e : j = i
    · subst e
      rw [hnode', if_pos rfl]
      unfold hubSeat seatOf seat
      rw [List.filterMap_append]
      cases k <;> rfl
    · rw [hnode j e, if_neg e]
      unfold hubSeat seatOf seat
      rw [List.filterMap_append]

/-! ## What the coordinator makes of each frame -/

variable {c : Coord}

/-- The text of the last broadcast. -/
def finishText (k : Ceremony) (n : Nat) : Bytes :=
  match k with
  | .dkg => ascii "DKG_DONE " ++ decimal n ++ [10]
  | .refresh => []

theorem process_round1 (env' : Coordinator.Env) (i : Nat) (hm : c.mode = k.mode)
    (hf : f.type = k.round1) (hsz : f.payload.length ≤ maxPayload) :
    processSignerFrame c env' i f = if c.dkgState ≠ .collectingR1 then c
      else (fileR1 c i f).checkR1 fun c s => c.relayR1 k.relayR1 s := by
  have hstore (check : Coord → Coord) : storeR1 c check i f = check (fileR1 c i f) := by
    unfold storeR1
    exact if_neg (by omega)
  unfold processSignerFrame
  rw [hf]
  cases k with
  | dkg =>
    show onRound1Pkg c i f = _
    unfold onRound1Pkg
    rw [hstore]
    rfl
  | refresh =>
    have hm : c.mode = .refresh := hm
    show onRefreshR1 c i f = _
    unfold onRefreshR1
    rw [hm, hstore]
    simp only [ne_eq, not_true_eq_false, decide_false, Bool.false_or, decide_eq_true_eq]
    rfl

theorem process_round2 (env' : Coordinator.Env) (i : Nat) (hm : c.mode = k.mode)
    (hf : f.type = k.round2) {dst : Nat}
    (hd : r2Target f.payload = some dst) :
    processSignerFrame c env' i f = c.relayR2 k.relayR2 dst f.sig f.payload := by
  unfold processSignerFrame
  rw [hf]
  cases k with
  | dkg =>
    show onRound2Pkg c f = _
    unfold onRound2Pkg
    rw [hd]
    rfl
  | refresh =>
    have hm : c.mode = .refresh := hm
    show onRefreshR2 c f = _
    unfold onRefreshR2
    rw [if_neg (not_not.mpr hm), hd]
    rfl

theorem process_complete (env' : Coordinator.Env) (i : Nat) (hm : c.mode = k.mode)
    (hf : f.type = k.complete) :
    processSignerFrame c env' i f = if (c.sg i).r2Complete = true then c
      else (c.setSg i fun r => { r with r2Complete := true }).checkR2 k.finish
        (finishText k c.n) := by
  unfold processSignerFrame
  rw [hf]
  cases k with
  | dkg => rfl
  | refresh =>
    have hm : c.mode = .refresh := hm
    show onRefreshR2Complete c i = _
    unfold onRefreshR2Complete
    rw [hm]
    simp only [ne_eq, not_true_eq_false, decide_false, Bool.false_or]
    rfl

/-- Nothing of the rounds changes, and at most the confirmation is queued. -/
structure Undisturbed (c c' : Coord) (b : Bool) : Prop where
  only : CeremonyOnly c c'
  state : c'.dkgState = c.dkgState
  record : ∀ j, (c'.sg j).r1Sig = (c.sg j).r1Sig ∧ (c'.sg j).r1Pkg = (c.sg j).r1Pkg ∧
    (c'.sg j).r2Complete = (c.sg j).r2Complete
  queue : ∀ j, (c'.sg j).msgq = (c.sg j).msgq ++
    if b = true ∧ j ∈ c.signers then [⟨.refreshConfirmed, [], []⟩] else []

theorem Undisturbed.of_sg (ho : CeremonyOnly c c') (hs : c'.dkgState = c.dkgState)
    (hsg : ∀ j, (c'.sg j).r1Sig = (c.sg j).r1Sig ∧ (c'.sg j).r1Pkg = (c.sg j).r1Pkg ∧
      (c'.sg j).r2Complete = (c.sg j).r2Complete)
    (hq : ∀ j, (c'.sg j).msgq = (c.sg j).msgq) : Undisturbed c c' false :=
  ⟨ho, hs, hsg, fun j => by rw [hq, if_neg fun hc => Bool.false_ne_true hc.1, List.append_nil]⟩

theorem Undisturbed.refl (c : Coord) : Undisturbed c c false :=
  .of_sg (.refl c) rfl (fun _ => ⟨rfl, rfl, rfl⟩) fun _ => rfl

theorem Undisturbed.trans {c'' : Coord} {b : Bool} (h : Undisturbed c c' false)
    (h' : Undisturbed c' c'' b) :
    Undisturbed c c'' b := by
  refine ⟨h.only.trans h'.only, h'.state.trans h.state, fun j => ?_, fun j => ?_⟩
  · obtain ⟨h1, h2, h3⟩ := h.record j
    obtain ⟨h4, h5, h6⟩ := h'.record j
    exact ⟨h4.trans h1, h5.trans h2, h6.trans h3⟩
  · rw [h'.queue, h.queue, if_neg fun hc => Bool.false_ne_true hc.1, List.append_nil,
      (ceremonyOnly_same h.only).2.2.1]

/-- An update of a record that concerns neither round. -/
theorem setSg_undisturbed (i : Nat) (g : SignerRec → SignerRec)
    (hg : ∀ r, (g r).r1Sig = r.r1Sig ∧ (g r).r1Pkg = r.r1Pkg ∧ (g r).r2Complete = r.r2Complete ∧
      (g r).msgq = r.msgq) : Undisturbed c (c.setSg i g) false := by
  have hsg (j : Nat) : (c.setSg i g).sg j = c.sg j ∨ (c.setSg i g).sg j = g (c.sg j) := by
    by_cases e : j = i
    · rw [e]
      exact .inr (Coord.setSg_self ..)
    · exact .inl (Coord.setSg_of_ne e g)
  refine .of_sg (setSg_sgOnly c i g).ceremonyOnly rfl (fun j => ?_) fun j => ?_
  · rcases hsg j with e | e
    · rw [e]
      exact ⟨rfl, rfl, rfl⟩
    · rw [e]
      exact ⟨(hg _).1, (hg _).2.1, (hg _).2.2.1⟩
  · rcases hsg j with e | e
    · rw [e]
    · rw [e]
      exact (hg _).2.2.2

theorem fileReport_undisturbed (i : Nat) (f : Frame) : Undisturbed c (fileReport c i f) false :=
  (setSg_undisturbed i (fun r => { r with pubKeyPkg := f.payload }) fun _ =>
    ⟨rfl, rfl, rfl, rfl⟩).trans
    (.of_sg ⟨_, _, _, _, _, _, rfl⟩ rfl (fun _ => ⟨rfl, rfl, rfl⟩) fun _ => rfl)

theorem storePubKeyPkg_undisturbed (env' : Coordinator.Env) (pkg : Bytes) :
    Undisturbed c (storePubKeyPkg c env' pkg) false :=
  .of_sg ⟨_, _, _, _, _, _, rfl⟩ rfl (fun _ => ⟨rfl, rfl, rfl⟩) fun _ => rfl

theorem confirm_undisturbed (hd : c.signers.Nodup) :
    ∃ b, Undisturbed c (checkRefreshAllConfirmed c) b := by
  unfold checkRefreshAllConfirmed
  split
  · exact ⟨false, .refl c⟩
  · have hsg (j : Nat) := broadcast_sg (i := j) hd .refreshConfirmed []
    refine ⟨true, ⟨(broadcast_sgOnly c .refreshConfirmed []).ceremonyOnly.trans
      ⟨_, _, _, _, _, _, rfl⟩, ?_, fun j => ?_, fun j => ?_⟩⟩
    · obtain ⟨_, e⟩ := broadcast_sgOnly c .refreshConfirmed []
      dsimp only
      rw [e]
    · dsimp only
      rw [hsg]
      split <;> exact ⟨rfl, rfl, rfl⟩
    · dsimp only
      rw [hsg]
      by_cases hj : j ∈ c.signers
      · rw [if_pos hj, if_pos ⟨rfl, hj⟩]
        rfl
      · rw [if_neg hj, if_neg fun hc => hj hc.2, List.append_nil]

theorem process_aside (env' : Coordinator.Env) (i : Nat) (hd : c.signers.Nodup)
    (hf : f.type = .hello ∨ f.type = .pubKeyPkg ∨
    f.type = .refreshComplete ∨ f.type = .shareLoadFail) :
    ∃ b, Undisturbed c (processSignerFrame c env' i f) b := by
  unfold processSignerFrame
  rcases hf with hf | hf | hf | hf <;> rw [hf] <;> dsimp only
  · exact ⟨false, .refl c⟩
  · unfold onPubKeyPkg
    dsimp only
    split; · exact ⟨false, fileReport_undisturbed i f⟩
    split; · exact ⟨false, fileReport_undisturbed i f⟩
    refine ⟨false, (fileReport_undisturbed i f).trans
      ((storePubKeyPkg_undisturbed env' f.payload).trans ?_)⟩
    exact .of_sg ⟨_, _, _, _, _, _, rfl⟩ rfl (fun _ => ⟨rfl, rfl, rfl⟩) fun _ => rfl
  · unfold onRefreshComplete
    dsimp only
    split; · exact ⟨false, fileReport_undisturbed i f⟩
    split
    · have h1 := (fileReport_undisturbed (c := c) i f).trans
          (storePubKeyPkg_undisturbed env' f.payload)
      obtain ⟨b, h2⟩ := confirm_undisturbed (c := storePubKeyPkg (fileReport c i f) env' f.payload) hd
      exact ⟨b, h1.trans h2⟩
    · obtain ⟨b, h2⟩ := confirm_undisturbed (c := fileReport c i f) hd
      exact ⟨b, (fileReport_undisturbed i f).trans h2⟩
  · exact ⟨false, setSg_undisturbed i _ fun _ => ⟨rfl, rfl, rfl, rfl⟩⟩

/-! ## A signer's frame is read -/

theorem openUp_first {pkg : Bytes} (h : openUp keys k f = some (.first pkg)) :
    f.type = k.round1 ∧ f.payload = pkg := by
  unfold openUp at h
  split at h
  · next ht =>
    cases h
    exact ⟨ht, rfl⟩
  split at h
  · obtain ⟨_, -, h⟩ := Option.bind_eq_some_iff.mp h
    obtain ⟨_, -, h⟩ := Option.bind_eq_some_iff.mp h
    obtain ⟨_, -, e⟩ := Option.map_eq_some_iff.mp h
    cases e
  split at h <;> cases h

theorem openUp_second {dst src : Nat} {pkg : Bytes}
    (h : openUp keys k f = some (.second dst src pkg)) :
    f.type = k.round2 ∧ r2Target f.payload = some dst ∧
      ∃ ct, openR2 keys f = some (src, ct) ∧ keys.decrypt dst ct = some pkg := by
  unfold openUp at h
  split at h; · cases h
  split at h
  · next ht =>
    obtain ⟨dst', hd, h⟩ := Option.bind_eq_some_iff.mp h
    obtain ⟨⟨src', ct⟩, ho, h⟩ := Option.bind_eq_some_iff.mp h
    obtain ⟨q, hq, e⟩ := Option.map_eq_some_iff.mp h
    cases e
    exact ⟨ht, hd, ct, ho, hq⟩
  split at h <;> cases h

theorem openUp_done (h : openUp keys k f = some .done) : f.type = k.complete := by
  unfold openUp at h
  split at h; · cases h
  split at h
  · obtain ⟨_, -, h⟩ := Option.bind_eq_some_iff.mp h
    obtain ⟨_, -, h⟩ := Option.bind_eq_some_iff.mp h
    obtain ⟨_, -, e⟩ := Option.map_eq_some_iff.mp h
    cases e
  split at h
  · next ht => exact ht
  · cases h

/-- Everybody has a property when `g_n` records have it. -/
theorem Cast.count_iff (hc : Cast c) (g : SignerRec → Bool) :
    c.n ≤ c.count g ↔ c.n ≤ c.signers.length ∧ ∀ j ∈ c.signers, g (c.sg j) = true := by
  constructor
  · intro h
    exact ⟨h.trans List.countP_le_length, (hc.everyone h).2⟩
  · rintro ⟨h, hall⟩
    unfold Coord.count
    rw [List.countP_eq_length.mpr hall]
    exact h

/-- The rest of a queue whose head says nothing. -/
theorem up_aside (ho : (p.1.node i).outq = f :: fs) (e : openUp keys k f = none) :
    fs.filterMap (openUp keys k) = (seatOf keys k p i).up := by
  show _ = (p.1.node i).outq.filterMap (openUp keys k)
  rw [ho, List.filterMap_cons_none e]

/-- A frame that says nothing in the rounds. -/
theorem Setup.readAside (h : Setup keys k p) (hi : i ∈ p.1.coord.signers)
    (hx : p.1.coord.exited = false) (ho : (p.1.node i).outq = f :: fs)
    (e : openUp keys k f = none) :
    Setup keys k (record keys k p (.receive i hello env')) ∧
      view keys k (record keys k p (.receive i hello env')) = view keys k p := by
  have hf := ((h.seated i hi).answers f (by rw [ho]; exact List.mem_cons_self ..)).opens.resolve_left
    (by rw [e]; exact Bool.false_ne_true)
  obtain ⟨b, hu⟩ := process_aside (c := p.1.coord) env' i h.cast.distinct hf
  have hconf : tooLarge ⟨.refreshConfirmed, [], []⟩ = false := by decide
  have hnone (j : Nat) : openDown keys k j ⟨.refreshConfirmed, [], []⟩ = none := by cases k <;> rfl
  have hr : Reads keys k p.1.coord (processSignerFrame p.1.coord env' i f)
      fun j => if b = true ∧ j ∈ p.1.coord.signers then [⟨.refreshConfirmed, [], []⟩] else [] := by
    refine ⟨hu.only, hu.queue, fun j hj => if_neg fun hc =>
      hj hc.2, fun j hj g hg => ?_, fun j hj => ?_,
      fun j hj => ?_⟩
    · split at hg
      · rw [List.mem_singleton.mp hg]
        exact ⟨hconf, .inr (.inr rfl), fun hs => by cases k <;> cases hs⟩
      · cases hg
    · rw [(hu.record j).1]
      exact (h.seated j hj).sigSize
    · rw [(hu.record j).1, (hu.record j).2.1]
      exact (h.seated j hj).filed
  obtain ⟨h1, h2, h3⟩ := h.read hello hi hx ho rfl hr
  obtain ⟨hn, -, hsigners, -⟩ := ceremonyOnly_same hu.only
  refine ⟨h1, view_same (by rw [h2, hsigners]) (by rw [h2, hn])
    (by rw [h2, hu.state]) fun j hj => ?_⟩
  rw [h3 j hj]
  have hfs : (if b = true ∧ j ∈ p.1.coord.signers then [(⟨.refreshConfirmed, [], []⟩ : Frame)]
      else []).filterMap (openDown keys k j) = [] := by
    split
    · exact List.filterMap_cons_none (hnone j)
    · rfl
  have hcount : (if b = true ∧ j ∈ p.1.coord.signers then [(⟨.refreshConfirmed, [], []⟩ : Frame)]
      else []).countP (fun f => f.type = k.finish) = 0 := by
    split
    · cases k <;> rfl
    · rfl
  unfold hubSeat
  rw [hfs, hcount, (hu.record j).2.1, (hu.record j).2.2]
  by_cases e' : j = i
  · rw [if_pos e', e', up_aside ho e]
    simp only [List.append_nil, Nat.add_zero]
    rfl
  · rw [if_neg e']
    simp only [List.append_nil, Nat.add_zero]
    rfl

/-- The rounds when the head of `i`'s queue is gone and the coordinator has yet to act on it. -/
def popped (keys : Keys) (k : Ceremony) (p : Sys × (Nat → Nat)) (i : Nat) (fs : List Frame) :
    Rounds.Net Nat Bytes Bytes :=
  (view keys k p).set i { (view keys k p).party i with up := fs.filterMap (openUp keys k) }

theorem popped_party (hi : i ∈ p.1.coord.signers) {j : Nat} (hj : j ∈ p.1.coord.signers) :
    (popped keys k p i fs).party j =
      if j = i then { seatOf keys k p i with up := fs.filterMap (openUp keys k) }
      else seatOf keys k p j := by
  unfold popped
  by_cases e : j = i
  · rw [if_pos e, e, Rounds.set_self, view_party hi]
  · rw [if_neg e, Rounds.set_of_ne e, view_party hj]

theorem view_set_outside (hi : i ∈ p.1.coord.signers) {j : Nat} (hj : j ∉ p.1.coord.signers)
    (x : Rounds.Party Nat Bytes Bytes) : ((view keys k p).set i x).party j = .blank := by
  rw [Rounds.set_of_ne fun e : j = i => hj (e ▸ hi)]
  exact if_neg hj

@[simp] theorem hubSeat_nil (x : Rounds.Party Nat Bytes Bytes) (r : SignerRec) (j : Nat) :
    hubSeat keys k x r j [] =
      { x with filed := if r.r1Pkg = [] then none else some r.r1Pkg, flagged := r.r2Complete } := by
  unfold hubSeat
  simp only [List.filterMap_nil, List.append_nil, List.countP_nil, Nat.add_zero]

theorem hubSeat_queued (x : Rounds.Party Nat Bytes Bytes) (r : SignerRec) (j : Nat)
    (fs : List Frame) : hubSeat keys k x r j fs = { hubSeat keys k x r j [] with
      down := x.down ++ fs.filterMap (openDown keys k j)
      told := x.told + fs.countP fun f => f.type = k.finish } := by
  rw [hubSeat_nil]
  rfl

/-- A hub that keeps package and notice. -/
theorem hubSeat_kept (hi : i ∈ p.1.coord.signers) {j : Nat} (hj : j ∈ p.1.coord.signers)
    {r : SignerRec} (h1 : r.r1Pkg = (p.1.coord.sg j).r1Pkg)
    (h2 : r.r2Complete = (p.1.coord.sg j).r2Complete) :
    hubSeat keys k ((popped keys k p i fs).party j) r j [] = (popped keys k p i fs).party j := by
  rw [hubSeat_nil, h1, h2, popped_party hi hj]
  split
  · next e => rw [e]; rfl
  · rfl

/-- What the rounds are once a frame has been read. -/
theorem Setup.readTo (h : Setup keys k p) (hello : HelloEnv) (hi : i ∈ p.1.coord.signers)
    (hx : p.1.coord.exited = false) (ho : (p.1.node i).outq = f :: fs)
    (hc : processSignerFrame p.1.coord env' i f = c') {gs : Nat → List Frame}
    (hr : Reads keys k p.1.coord c' gs) {N : Rounds.Net Nat Bytes Bytes}
    (hn : N.size = p.1.coord.n) (hs : N.stage = stageOf c'.dkgState)
    (hm : N.members = p.1.coord.signers)
    (hin : ∀ j ∈ p.1.coord.signers,
      hubSeat keys k ((popped keys k p i fs).party j) (c'.sg j) j (gs j) = N.party j)
    (hout : ∀ j, j ∉ p.1.coord.signers → N.party j = .blank) :
    Setup keys k (record keys k p (.receive i hello env')) ∧
      view keys k (record keys k p (.receive i hello env')) = N := by
  obtain ⟨h1, h2, h3⟩ := h.read hello hi hx ho hc hr
  obtain ⟨hn', -, hsigners, -⟩ := ceremonyOnly_same hr.only
  refine ⟨h1, view_eq (by rw [h2, hn', hn]) (by rw [h2, hs]) (by rw [h2, hsigners, hm])
    (fun j hj => ?_) fun j hj => ?_⟩
  · rw [h2, hsigners] at hj
    rw [h3 j hj, ← hin j hj, popped_party hi hj]
  · rw [h2, hsigners] at hj
    exact hout j hj

/-- The frame is gone, and the coordinator has let it pass. -/
theorem Setup.readStray (h : Setup keys k p) (hello : HelloEnv) (hi : i ∈ p.1.coord.signers)
    (hx : p.1.coord.exited = false) (ho : (p.1.node i).outq = f :: fs)
    (hc : processSignerFrame p.1.coord env' i f = p.1.coord) :
    Setup keys k (record keys k p (.receive i hello env')) ∧
      view keys k (record keys k p (.receive i hello env')) = popped keys k p i fs := by
  have hr : Reads keys k p.1.coord p.1.coord fun _ => [] :=
    ⟨.refl _, fun _ => (List.append_nil _).symm, fun _ _ => rfl, fun _ _ => nofun,
      fun j hj => (h.seated j hj).sigSize, fun j hj => (h.seated j hj).filed⟩
  exact h.readTo hello hi hx ho hc hr rfl rfl rfl (fun j hj => hubSeat_kept hi hj rfl rfl)
    fun j hj => view_set_outside hi hj _

/-- The queue of `i` when its head says `u`. -/
theorem up_head (hi : i ∈ p.1.coord.signers) (ho : (p.1.node i).outq = f :: fs)
    {u : Rounds.Up Nat Bytes Bytes} (e : openUp keys k f = some u) :
    ((view keys k p).party i).up = u :: fs.filterMap (openUp keys k) := by
  rw [view_party hi]
  show (p.1.node i).outq.filterMap (openUp keys k) = _
  rw [ho, List.filterMap_cons_some e]

/-- A relayed round-2 package says the same to its receiver. -/
theorem openDown_relayR2 {dst src : Nat} {ct pkg : Bytes} (hopen : openR2 keys f = some (src, ct))
    (hq : keys.decrypt dst ct = some pkg) :
    openDown keys k dst ⟨k.relayR2, f.sig, f.payload⟩ = some (.second src pkg) := by
  have hr2 : openR2 keys ⟨k.relayR2, f.sig, f.payload⟩ = some (src, ct) := hopen
  have h1 : k.relayR2 ≠ k.start := by cases k <;> exact nofun
  have h2 : k.relayR2 ≠ k.relayR1 := by cases k <;> exact nofun
  unfold openDown
  rw [if_neg h1, if_neg h2, if_pos rfl, hr2, Option.bind_some]
  dsimp only
  rw [hq]
  rfl

/-- Queueing a round-2 package for its receiver. -/
theorem Setup.reads_relayR2 (h : Setup keys k p) (ha : Answer keys k i f) (hf : f.type = k.round2)
    {dst src : Nat} {pkg : Bytes} (hdst : dst ∈ p.1.coord.signers)
    (hrelay : openDown keys k dst ⟨k.relayR2, f.sig, f.payload⟩ = some (.second src pkg)) :
    Reads keys k p.1.coord (p.1.coord.signerSend dst k.relayR2 f.sig f.payload)
      fun j => if j = dst then [⟨k.relayR2, f.sig, f.payload⟩] else [] := by
  have hsg (j : Nat) := signerSend_sg (c := p.1.coord) (i := j) dst k.relayR2 f.sig f.payload
  refine ⟨(signerSend_sgOnly ..).ceremonyOnly, fun j => ?_, fun j hj => ?_, fun j hj g hg => ?_,
    fun j hj => ?_, fun j hj => ?_⟩
  · rw [hsg]
    split
    · rfl
    · exact (List.append_nil _).symm
  · exact if_neg fun e : j = dst => hj (e ▸ hdst)
  · split at hg
    · next e =>
      rw [List.mem_singleton.mp hg, e]
      refine ⟨?_, .inl (by rw [hrelay]; rfl), fun hs => by cases k <;> cases hs⟩
      have h1 := ha.round2 hf
      have h2 := ha.size
      unfold tooLarge
      rw [decide_eq_false_iff_not]
      dsimp only
      omega
    · cases hg
  · rw [hsg]
    split <;> exact (h.seated j hj).sigSize
  · rw [hsg]
    split <;> exact (h.seated j hj).filed

/-- A round-2 package is passed on. -/
theorem Setup.readSecond (h : Setup keys k p) (hi : i ∈ p.1.coord.signers)
    (hx : p.1.coord.exited = false) (ho : (p.1.node i).outq = f :: fs) {dst src : Nat} {pkg : Bytes}
    (e : openUp keys k f = some (.second dst src pkg)) :
    Setup keys k (record keys k p (.receive i hello env')) ∧
      Rounds.Move k.eager (view keys k p)
        (view keys k (record keys k p (.receive i hello env'))) := by
  obtain ⟨hf, hd, ct, hopen, hq⟩ := openUp_second e
  have hans := (h.seated i hi).answers f (by rw [ho]; exact List.mem_cons_self ..)
  have hup := up_head hi ho e
  have hmem : i ∈ (view keys k p).members := hi
  have hproc := process_round2 env' i h.mode hf hd
  by_cases hdst : dst ∈ p.1.coord.signers
  · have hsend : p.1.coord.relayR2 k.relayR2 dst f.sig f.payload =
        p.1.coord.signerSend dst k.relayR2 f.sig f.payload := if_pos hdst
    rw [hsend] at hproc
    have hrelay := openDown_relayR2 (k := k) hopen hq
    have hmove : Rounds.Move k.eager (view keys k p) _ := .route i dst src pkg _ hmem hup hdst
    refine (h.readTo hello hi hx ho hproc (h.reads_relayR2 hans hf hdst hrelay)
      (N := (popped keys k p i fs).set dst { (popped keys k p i fs).party dst with
        down := ((popped keys k p i fs).party dst).down ++ [.second src pkg] })
      rfl rfl rfl (fun j hj => ?_) fun j hj => ?_).imp_right fun h2 => by rw [h2]; exact hmove
    · have hrec : ((p.1.coord.signerSend dst k.relayR2 f.sig f.payload).sg j).r1Pkg =
          (p.1.coord.sg j).r1Pkg ∧
          ((p.1.coord.signerSend dst k.relayR2 f.sig f.payload).sg j).r2Complete =
          (p.1.coord.sg j).r2Complete := by
        rw [signerSend_sg]
        split <;> exact ⟨rfl, rfl⟩
      have hkept : hubSeat keys k ((popped keys k p i fs).party j) _ j [] = _ :=
        hubSeat_kept hi hj hrec.1 hrec.2
      by_cases ed : j = dst
      · subst ed
        rw [if_pos rfl, Rounds.set_self, hubSeat_queued, hkept, List.filterMap_cons_some hrelay]
        cases k <;> rfl
      · rw [if_neg ed, Rounds.set_of_ne ed]
        exact hkept
    · rw [Rounds.set_of_ne fun e : j = dst => hj (e ▸ hdst)]
      exact view_set_outside hi hj _
  · have hsame : p.1.coord.relayR2 k.relayR2 dst f.sig f.payload = p.1.coord := if_neg hdst
    rw [hsame] at hproc
    obtain ⟨h1, h2⟩ := h.readStray hello hi hx ho hproc
    exact ⟨h1, h2 ▸ .lost i dst src pkg _ hmem hup hdst⟩

theorem fileR1_sg (j : Nat) : (fileR1 c i f).sg j = if j = i then
    { c.sg i with
      r1Sig := overwrite (c.sg i).r1Sig f.sig, r1Pkg := f.payload } else c.sg j := by
  unfold fileR1
  by_cases e : j = i
  · rw [if_pos e, e, Coord.setSg_self]
  · rw [if_neg e, Coord.setSg_of_ne e]

/-- The records once the package is filed. -/
theorem Setup.filed (hk : Honest keys) (h : Setup keys k p) (ha : Answer keys k i f)
    (hf : f.type = k.round1) {j : Nat} (hj : j ∈ p.1.coord.signers) :
    ((fileR1 p.1.coord i f).sg j).r1Sig.length = frameSigSize ∧
      (((fileR1 p.1.coord i f).sg j).r1Pkg ≠ [] →
        keys.verify j ((fileR1 p.1.coord i f).sg j).r1Pkg ((fileR1 p.1.coord i f).sg j).r1Sig = true ∧
          ((fileR1 p.1.coord i f).sg j).r1Pkg.length + 2 ≤ maxPayload) := by
  obtain ⟨-, hlen, hsig⟩ := ha.round1 hf
  rw [fileR1_sg]
  by_cases e : j = i
  · subst e
    obtain ⟨h1, h2⟩ := args_ranged (h.seated j hj).args
    have hfull : overwrite (p.1.coord.sg j).r1Sig f.sig = keys.sign j f.payload := by
      rw [overwrite_all, hsig]
      rw [(h.seated j hj).sigSize, hsig, hk.length j _ h1 h2]
    rw [if_pos rfl]
    dsimp only
    rw [hfull]
    exact ⟨hk.length j _ h1 h2, fun _ => ⟨hk.verify j _ h1 h2, hlen⟩⟩
  · rw [if_neg e]
    exact ⟨(h.seated j hj).sigSize, (h.seated j hj).filed⟩

/-- The package was the last one missing. -/
theorem Setup.all_filed (h : Setup keys k p) (h0 : f.payload ≠ []) :
    p.1.coord.n ≤ (fileR1 p.1.coord i f).count (fun r => 0 < r.r1Pkg.length) ↔
      (view keys k p).others i fun x => x.filed.isSome = true := by
  have hc : Cast (fileR1 p.1.coord i f) := h.cast.congr rfl rfl rfl
  refine (Cast.count_iff hc _).trans (and_congr_right fun _ => ?_)
  have hstored (j : Nat) (hj : j ∈ p.1.coord.signers) :
      ((view keys k p).party j).filed.isSome = true ↔ 0 < (p.1.coord.sg j).r1Pkg.length := by
    rw [view_party hj]
    show (if (p.1.coord.sg j).r1Pkg = [] then none else some (p.1.coord.sg j).r1Pkg).isSome =
      true ↔ _
    rw [List.length_pos_iff]
    split
    · next he => simp [he]
    · next he => simp [he]
  constructor
  · intro hall j hj hne
    have hj' : j ∈ p.1.coord.signers := hj
    have := hall j hj
    rw [fileR1_sg, if_neg hne] at this
    exact (hstored j hj').mpr (of_decide_eq_true this)
  · intro hall j hj
    have hj' : j ∈ p.1.coord.signers := hj
    rw [fileR1_sg, decide_eq_true_eq]
    by_cases e : j = i
    · rw [if_pos e]
      exact List.length_pos_iff.mpr h0
    · rw [if_neg e]
      exact (hstored j hj').mp (hall j hj' e)

theorem fileR1_msgq (j : Nat) : ((fileR1 c i f).sg j).msgq = (c.sg j).msgq := by
  rw [fileR1_sg]
  split
  · next e => rw [e]
  · rfl

/-- Storing the package. -/
theorem Setup.reads_file (hk : Honest keys) (h : Setup keys k p) (ha : Answer keys k i f)
    (hf : f.type = k.round1) : Reads keys k p.1.coord (fileR1 p.1.coord i f) fun _ => [] :=
  ⟨(setSg_sgOnly p.1.coord i _).ceremonyOnly,
    fun j => (fileR1_msgq j).trans (List.append_nil _).symm, fun _ _ => rfl, fun _ _ => nofun,
    fun _ hj => (h.filed hk ha hf hj).1, fun _ hj => (h.filed hk ha hf hj).2⟩

/-- The party of each signer once the package is stored. -/
theorem seat_filed (hi : i ∈ p.1.coord.signers) (h0 : f.payload ≠ []) {j : Nat}
    (hj : j ∈ p.1.coord.signers) :
    hubSeat keys k ((popped keys k p i fs).party j) ((fileR1 p.1.coord i f).sg j) j [] =
      ((view keys k p).set i { (view keys k p).party i with
        up := fs.filterMap (openUp keys k), filed := some f.payload }).party j := by
  rw [hubSeat_nil, popped_party hi hj, fileR1_sg]
  by_cases e : j = i
  · rw [if_pos e, if_pos e, e, Rounds.set_self, view_party hi]
    dsimp only
    rw [if_neg h0]
    rfl
  · rw [if_neg e, if_neg e, Rounds.set_of_ne e, view_party hj]
    rfl

/-- A relayed package says to everyone what its sender said. -/
theorem Setup.relay_opens (hk : Honest keys) (h : Setup keys k p) (ha : Answer keys k i f)
    (hf : f.type = k.round1) {s : Nat} (hs : s ∈ p.1.coord.signers)
    (hpos : ((fileR1 p.1.coord i f).sg s).r1Pkg ≠ []) (j : Nat) :
    openDown keys k j (relayFrame (fileR1 p.1.coord i f) k.relayR1 s) =
      some (.first s ((fileR1 p.1.coord i f).sg s).r1Pkg) := by
  have h1 : k.relayR1 ≠ k.start := by cases k <;> exact nofun
  have hs16 := (args_small (h.seated s hs).args).1
  have hv := ((h.filed hk ha hf hs).2 hpos).1
  have hopen : openR1 keys ⟨k.relayR1, _, _⟩ = _ := openR1_relay hs16 hv
  unfold openDown relayFrame
  rw [if_neg h1, if_pos rfl, hopen]
  rfl

/-- Relaying all that is stored. -/
theorem Setup.reads_relays (hk : Honest keys) (h : Setup keys k p) (ha : Answer keys k i f)
    (hf : f.type = k.round1)
    (hpos : ∀ s ∈ p.1.coord.signers, ((fileR1 p.1.coord i f).sg s).r1Pkg ≠ []) :
    Reads keys k p.1.coord
      (relayAll { fileR1 p.1.coord i f with dkgState := .collectingR2 } k.relayR1)
      (relayQueue (fileR1 p.1.coord i f) k.relayR1) := by
  have hsg (j : Nat) : (relayAll { fileR1 p.1.coord i f with dkgState := .collectingR2 }
      k.relayR1).sg j =
      ((fileR1 p.1.coord i f).sg j).push (relayQueue (fileR1 p.1.coord i f) k.relayR1 j) :=
    relayAll_push (c := { fileR1 p.1.coord i f with dkgState := .collectingR2 })
      h.cast.distinct k.relayR1 j
  refine ⟨?_, fun j => ?_, fun j hj => if_neg hj, fun j hj g hg => ?_, fun j hj => ?_,
    fun j hj => ?_⟩
  · exact ((setSg_sgOnly p.1.coord i _).flowOnly.trans ((setDkgState_flowOnly _ .collectingR2).trans
      (relayAll_sgOnly _ k.relayR1).flowOnly)).ceremonyOnly
  · rw [hsg, SignerRec.push_msgq, fileR1_msgq]
  · obtain ⟨s, hs, rfl⟩ := mem_relayQueue hg
    have hs : s ∈ p.1.coord.signers := hs
    obtain ⟨hsig, hpkg⟩ := h.filed hk ha hf hs
    have hsize := (hpkg (hpos s hs)).2
    refine ⟨?_, .inl (by rw [h.relay_opens hk ha hf hs (hpos s hs)]; rfl),
      fun ht => by cases k <;> cases ht⟩
    unfold tooLarge relayFrame
    rw [decide_eq_false_iff_not]
    dsimp only
    rw [List.length_append, show (be16 s).length = 2 from rfl]
    omega
  · rw [hsg]
    exact (h.filed hk ha hf hj).1
  · rw [hsg]
    exact (h.filed hk ha hf hj).2

/-- The relays say to `j` what the others said. -/
theorem Setup.relays_open (hk : Honest keys) (h : Setup keys k p) (ha : Answer keys k i f)
    (hf : f.type = k.round1) (hi : i ∈ p.1.coord.signers) (h0 : f.payload ≠ [])
    (hpos : ∀ s ∈ p.1.coord.signers, ((fileR1 p.1.coord i f).sg s).r1Pkg ≠ [])
    {j : Nat} (hj : j ∈ p.1.coord.signers) :
    (relayQueue (fileR1 p.1.coord i f) k.relayR1 j).filterMap (openDown keys k j) =
      (((view keys k p).set i { (view keys k p).party i with
        up := fs.filterMap (openUp keys k), filed := some f.payload }).relays j).map
        fun p => .first p.1 p.2 := by
  rw [relayQueue_self (c := fileR1 p.1.coord i f) hj, List.filterMap_map]
  unfold Rounds.Net.relays
  rw [List.map_filterMap]
  refine List.filterMap_congr fun s hs => ?_
  have hs : s ∈ p.1.coord.signers := List.mem_of_mem_filter hs
  rw [← seat_filed hi h0 hs, hubSeat_nil]
  show openDown keys k j (relayFrame _ _ s) = Option.map _ (Option.map _
    (if ((fileR1 p.1.coord i f).sg s).r1Pkg = [] then none else some _))
  rw [h.relay_opens hk ha hf hs (hpos s hs), if_neg (hpos s hs)]
  rfl

/-- No relay is the notice that ends the ceremony. -/
theorem relayQueue_finish (c : Coord) (j : Nat) :
    (relayQueue c k.relayR1 j).countP (fun f => f.type = k.finish) = 0 := by
  refine List.countP_eq_zero.mpr fun g hg => ?_
  obtain ⟨s, -, rfl⟩ := mem_relayQueue hg
  cases k <;> exact nofun

/-- A round-1 package is stored; the last one sets off the relays. -/
theorem Setup.readFirst (hk : Honest keys) (h : Setup keys k p) (hi : i ∈ p.1.coord.signers)
    (hx : p.1.coord.exited = false) (ho : (p.1.node i).outq = f :: fs) {pkg : Bytes}
    (e : openUp keys k f = some (.first pkg)) :
    Setup keys k (record keys k p (.receive i hello env')) ∧
      Rounds.Move k.eager (view keys k p)
        (view keys k (record keys k p (.receive i hello env'))) := by
  have hup := up_head hi ho e
  obtain ⟨hf, rfl⟩ := openUp_first e
  have hans := (h.seated i hi).answers f (by rw [ho]; exact List.mem_cons_self ..)
  have h0 := (hans.round1 hf).1
  have hmem : i ∈ (view keys k p).members := hi
  have hproc := process_round1 env' i h.mode hf hans.size
  by_cases hst : p.1.coord.dkgState = .collectingR1
  · have hstage : (view keys k p).stage = .first := by
      show stageOf p.1.coord.dkgState = _
      rw [hst]
      rfl
    rw [if_neg (not_not.mpr hst)] at hproc
    have hiff := h.all_filed (i := i) h0
    by_cases hall : p.1.coord.n ≤ (fileR1 p.1.coord i f).count fun r => 0 < r.r1Pkg.length
    · have hrelay : (fileR1 p.1.coord i f).checkR1 (fun c s => c.relayR1 k.relayR1 s) =
          relayAll { fileR1 p.1.coord i f with dkgState := .collectingR2 } k.relayR1 :=
        if_neg (Nat.not_lt.mpr hall)
      rw [hrelay] at hproc
      have hc : Cast (fileR1 p.1.coord i f) := h.cast.congr rfl rfl rfl
      have hpos (s : Nat) (hs : s ∈ p.1.coord.signers) : ((fileR1 p.1.coord i f).sg s).r1Pkg ≠ [] :=
        List.length_pos_iff.mp (of_decide_eq_true (((Cast.count_iff hc _).mp hall).2 s hs))
      have hmove : Rounds.Move k.eager (view keys k p) _ :=
        .relay i f.payload _ hmem hup hstage (hiff.mp hall)
      obtain ⟨_, hshape⟩ := relayAll_sgOnly { fileR1 p.1.coord i f with dkgState := .collectingR2 }
        k.relayR1
      refine (h.readTo hello hi hx ho hproc (h.reads_relays hk hans hf hpos)
        (N := ((view keys k p).set i { (view keys k p).party i with
          up := fs.filterMap (openUp keys k), filed := some f.payload }).relayed)
        rfl (by rw [hshape]; rfl) rfl (fun j hj => ?_) fun j hj => ?_).imp_right
          fun h2 => by rw [h2]; exact hmove
      · refine Eq.trans ?_ (if_pos hj).symm
        rw [relayAll_push (c := { fileR1 p.1.coord i f with dkgState := .collectingR2 })
          h.cast.distinct,
          ← seat_filed hi h0 hj, ← h.relays_open hk hans hf hi h0 hpos hj, hubSeat_queued,
            hubSeat_nil,
          hubSeat_nil, relayQueue_finish]
        rfl
      · exact (if_neg hj).trans (view_set_outside hi hj _)
    · have hfile : (fileR1 p.1.coord i f).checkR1 (fun c s => c.relayR1 k.relayR1 s) =
          fileR1 p.1.coord i f :=
        if_pos (Nat.lt_of_not_le hall)
      rw [hfile] at hproc
      have hmove : Rounds.Move k.eager (view keys k p) _ :=
        .file i f.payload _ hmem hup hstage fun ho => hall (hiff.mpr ho)
      exact (h.readTo hello hi hx ho hproc (h.reads_file hk hans hf)
        (N := (view keys k p).set i { (view keys k p).party i with
          up := fs.filterMap (openUp keys k), filed := some f.payload })
        rfl rfl rfl (fun j hj => seat_filed hi h0 hj) fun j hj =>
          view_set_outside hi hj _).imp_right
          fun h2 => by rw [h2]; exact hmove
  · have hstage : (view keys k p).stage ≠ .first := by
      show stageOf p.1.coord.dkgState ≠ _
      cases e' : p.1.coord.dkgState with
      | collectingR1 => exact absurd e' hst
      | _ => exact nofun
    rw [if_pos hst] at hproc
    obtain ⟨h1, h2⟩ := h.readStray hello hi hx ho hproc
    exact ⟨h1, h2 ▸ .stray i f.payload _ hmem hup hstage⟩

theorem openDown_finishFrame (j : Nat) (text : Bytes) :
    openDown keys k j ⟨k.finish, [], text⟩ = some .finish := by
  cases k <;> rfl

theorem finishText_length (k : Ceremony) (n : Nat) : (finishText k n).length ≤ 15 := by
  have := decimal_length n
  cases k with
  | dkg =>
    show (ascii "DKG_DONE " ++ decimal n ++ [10]).length ≤ 15
    rw [List.length_append, List.length_append]
    show 9 + _ + 1 ≤ 15
    omega
  | refresh => exact Nat.zero_le _

/-- The notice was the last one missing. -/
theorem Setup.all_flagged (h : Setup keys k p) :
    p.1.coord.n ≤ (p.1.coord.setSg i fun r => { r with r2Complete := true }).count (·.r2Complete) ↔
      (view keys k p).others i fun x => x.flagged = true := by
  have hc : Cast (p.1.coord.setSg i fun r => { r with r2Complete := true }) :=
    h.cast.congr rfl rfl rfl
  refine (Cast.count_iff hc _).trans (and_congr_right fun _ => ?_)
  have hflag (j : Nat) (hj : j ∈ p.1.coord.signers) :
      ((view keys k p).party j).flagged = (p.1.coord.sg j).r2Complete := by
    rw [view_party hj]
    rfl
  constructor
  · intro hall j hj hne
    have := hall j hj
    rw [Coord.setSg_of_ne hne] at this
    rw [hflag j hj]
    exact this
  · intro hall j hj
    by_cases e : j = i
    · rw [e, Coord.setSg_self]
    · rw [Coord.setSg_of_ne e]
      exact (hflag j hj).symm.trans (hall j hj e)

theorem setDone_sg (j : Nat) : (c.setSg i fun r => { r with r2Complete := true }).sg j =
    if j = i then { c.sg i with r2Complete := true } else c.sg j := by
  by_cases e : j = i
  · rw [if_pos e, e, Coord.setSg_self]
  · rw [if_neg e, Coord.setSg_of_ne e]

/-- Counting a notice leaves queue and package as they were. -/
theorem setDone_kept (j : Nat) :
    ((c.setSg i fun r => { r with r2Complete := true }).sg j).msgq = (c.sg j).msgq ∧
      ((c.setSg i fun r => { r with r2Complete := true }).sg j).r1Sig = (c.sg j).r1Sig ∧
      ((c.setSg i fun r => { r with r2Complete := true }).sg j).r1Pkg = (c.sg j).r1Pkg := by
  rw [setDone_sg]
  split
  · next e => rw [e]; exact ⟨rfl, rfl, rfl⟩
  · exact ⟨rfl, rfl, rfl⟩

/-- Counting a notice. -/
theorem Setup.reads_flag (h : Setup keys k p) :
    Reads keys k p.1.coord (p.1.coord.setSg i fun r => { r with r2Complete := true })
      fun _ => [] := by
  have hkeep (j : Nat) := setDone_kept (c := p.1.coord) (i := i) j
  refine ⟨(setSg_sgOnly p.1.coord i _).ceremonyOnly, fun j => ?_, fun _ _ => rfl, fun _ _ => nofun,
    fun j hj => ?_, fun j hj => ?_⟩
  · rw [(hkeep j).1, List.append_nil]
  · rw [(hkeep j).2.1]
    exact (h.seated j hj).sigSize
  · rw [(hkeep j).2.1, (hkeep j).2.2]
    exact (h.seated j hj).filed

/-- What the end of the ceremony queues for signer `j`. -/
def finishQueue (k : Ceremony) (c : Coord) (j : Nat) : List Frame :=
  if j ∈ c.signers then [⟨k.finish, [], finishText k c.n⟩] else []

theorem finish_push (hd : c.signers.Nodup) (j : Nat) :
    (((c.setSg i fun r => { r with r2Complete := true }).broadcast k.finish
      (finishText k c.n)).sg j) =
      ((c.setSg i fun r => { r with r2Complete := true }).sg j).push (finishQueue k c j) := by
  rw [broadcast_sg (c := c.setSg i fun r => { r with r2Complete := true }) hd]
  unfold finishQueue
  by_cases hj : j ∈ c.signers
  · rw [if_pos hj]
    exact if_pos hj
  · rw [if_neg hj, SignerRec.push_nil]
    exact if_neg hj

/-- Telling everyone that all is done. -/
theorem Setup.reads_finish (h : Setup keys k p) :
    Reads keys k p.1.coord
      { (p.1.coord.setSg i fun r => { r with r2Complete := true }).broadcast k.finish
          (finishText k p.1.coord.n) with dkgState := .complete } (finishQueue k p.1.coord) := by
  have hkeep (j : Nat) := setDone_kept (c := p.1.coord) (i := i) j
  have hsg (j : Nat) := finish_push (i := i) (k := k) h.cast.distinct j
  refine ⟨?_, fun j => ?_, fun j hj => if_neg hj, fun j hj g hg => ?_, fun j hj => ?_,
    fun j hj => ?_⟩
  · exact ((setSg_sgOnly p.1.coord i _).flowOnly.trans ((broadcast_sgOnly _ k.finish
      (finishText k p.1.coord.n)).flowOnly.trans (setDkgState_flowOnly _ .complete))).ceremonyOnly
  · dsimp only
    rw [hsg, SignerRec.push_msgq, (hkeep j).1]
  · unfold finishQueue at hg
    rw [if_pos hj] at hg
    rw [List.mem_singleton.mp hg]
    refine ⟨?_, .inl (by rw [openDown_finishFrame]; rfl), fun ht => by cases k <;> cases ht⟩
    have := finishText_length k p.1.coord.n
    unfold tooLarge frameSigSize maxPayload
    rw [decide_eq_false_iff_not]
    dsimp only [List.length_nil]
    omega
  · dsimp only
    rw [hsg, SignerRec.push_r1Sig, (hkeep j).2.1]
    exact (h.seated j hj).sigSize
  · dsimp only
    rw [hsg, SignerRec.push_r1Sig, SignerRec.push_r1Pkg, (hkeep j).2.1, (hkeep j).2.2]
    exact (h.seated j hj).filed

/-- The party of each signer once the notice is counted. -/
theorem seat_flagged (hi : i ∈ p.1.coord.signers) {j : Nat} (hj : j ∈ p.1.coord.signers) :
    hubSeat keys k ((popped keys k p i fs).party j)
      ((p.1.coord.setSg i fun r => { r with r2Complete := true }).sg j) j [] =
      ((view keys k p).set i { (view keys k p).party i with
        up := fs.filterMap (openUp keys k), flagged := true }).party j := by
  rw [hubSeat_nil, popped_party hi hj, setDone_sg]
  by_cases e : j = i
  · rw [if_pos e, if_pos e, e, Rounds.set_self, view_party hi]
    rfl
  · rw [if_neg e, if_neg e, Rounds.set_of_ne e, view_party hj]
    rfl

/-- A notice is counted; the last one ends the ceremony. -/
theorem Setup.readDone (h : Setup keys k p) (hi : i ∈ p.1.coord.signers)
    (hx : p.1.coord.exited = false) (ho : (p.1.node i).outq = f :: fs)
    (e : openUp keys k f = some .done) :
    Setup keys k (record keys k p (.receive i hello env')) ∧
      Rounds.Move k.eager (view keys k p)
        (view keys k (record keys k p (.receive i hello env'))) := by
  have hup := up_head hi ho e
  have hmem : i ∈ (view keys k p).members := hi
  have hflag : ((view keys k p).party i).flagged = (p.1.coord.sg i).r2Complete := by
    rw [view_party hi]
    rfl
  have hproc := process_complete env' i h.mode (openUp_done e)
  by_cases hdone : (p.1.coord.sg i).r2Complete = true
  · rw [if_pos hdone] at hproc
    obtain ⟨h1, h2⟩ := h.readStray hello hi hx ho hproc
    exact ⟨h1, h2 ▸ .again i _ hmem hup (hflag.trans hdone)⟩
  rw [if_neg hdone] at hproc
  have hnew : ((view keys k p).party i).flagged = false := by
    rw [hflag]
    simpa using hdone
  have hiff := h.all_flagged (i := i)
  by_cases hall : p.1.coord.n ≤
      (p.1.coord.setSg i fun r => { r with r2Complete := true }).count (·.r2Complete)
  · have hend : (p.1.coord.setSg i fun r => { r with r2Complete := true }).checkR2 k.finish
        (finishText k p.1.coord.n) =
        { (p.1.coord.setSg i fun r => { r with r2Complete := true }).broadcast k.finish
            (finishText k p.1.coord.n) with dkgState := .complete } := if_neg (Nat.not_lt.mpr hall)
    rw [hend] at hproc
    have hmove : Rounds.Move k.eager (view keys k p) _ := .flagLast i _ hmem hup hnew (hiff.mp hall)
    refine (h.readTo hello hi hx ho hproc h.reads_finish
      (N := ((view keys k p).set i { (view keys k p).party i with
        up := fs.filterMap (openUp keys k), flagged := true }).finished)
      rfl rfl rfl (fun j hj => ?_) fun j hj => ?_).imp_right fun h2 => by rw [h2]; exact hmove
    · refine Eq.trans ?_ (if_pos hj).symm
      have hqueue : finishQueue k p.1.coord j = [⟨k.finish, [], finishText k p.1.coord.n⟩] :=
        if_pos hj
      dsimp only
      rw [finish_push h.cast.distinct, ← seat_flagged hi hj, hqueue, hubSeat_queued, hubSeat_nil,
        hubSeat_nil, List.filterMap_cons_some (openDown_finishFrame j _),
        List.countP_cons_of_pos (by simp)]
      rfl
    · exact (if_neg hj).trans (view_set_outside hi hj _)
  · have hwait : (p.1.coord.setSg i fun r => { r with r2Complete := true }).checkR2 k.finish
        (finishText k p.1.coord.n) = p.1.coord.setSg i fun r => { r with r2Complete := true } :=
      if_pos (Nat.lt_of_not_le hall)
    rw [hwait] at hproc
    have hmove : Rounds.Move k.eager (view keys k p) _ :=
      .flag i _ hmem hup hnew fun ho => hall (hiff.mpr ho)
    exact (h.readTo hello hi hx ho hproc h.reads_flag
      (N := (view keys k p).set i { (view keys k p).party i with
        up := fs.filterMap (openUp keys k), flagged := true })
      rfl rfl rfl (fun j hj => seat_flagged hi hj) fun j hj => view_set_outside hi hj _).imp_right
        fun h2 => by rw [h2]; exact hmove

/-! ## Registration -/

/-- The record of each signer once `i` is greeted. -/
theorem greet_sg (j : Nat) : ((enroll c i).signerSend i .helloAck [] (ackText i k.mode)).sg j =
    if j = i then SignerRec.new.push [⟨.helloAck, [], ackText i k.mode⟩] else c.sg j := by
  rw [signerSend_sg, enroll_sg]
  split <;> rfl

/-- What a new signer and the others are sent: `start` is queued for all when `i` is
the last one to come. -/
def greeting (k : Ceremony) (c : Coord) (i : Nat) (last : Bool) (j : Nat) : List Frame :=
  (if j = i then [⟨.helloAck, [], ackText i k.mode⟩] else []) ++
    if last then [⟨k.start, [], printTwo k.word c.n c.t⟩] else []

theorem ack_order {n t : Nat} : Order keys k n t i ⟨.helloAck, [], ackText i k.mode⟩ := by
  refine ⟨?_, .inr (.inl ⟨rfl, rfl⟩), fun h => by cases k <;> cases h⟩
  have := decimal_length i
  unfold tooLarge
  rw [decide_eq_false_iff_not]
  unfold ackText frameSigSize maxPayload
  rw [List.length_nil, List.length_append, List.length_append]
  show ¬ 0 + (4 + (decimal i).length + 3) > 256 + 24000
  omega

theorem openDown_startFrame (j : Nat) (text : Bytes) :
    openDown keys k j ⟨k.start, [], text⟩ = some .start := if_pos rfl

theorem start_order {n t : Nat} : Order keys k n t i ⟨k.start, [], printTwo k.word n t⟩ := by
  refine ⟨?_, .inl (by rw [openDown_startFrame]; rfl), fun _ => rfl⟩
  have h1 := decimal_length n
  have h2 := decimal_length t
  have h3 : k.word.length ≤ 14 := by cases k <;> decide
  unfold tooLarge
  rw [decide_eq_false_iff_not]
  unfold printTwo frameSigSize maxPayload
  simp only [List.length_append, List.length_singleton, List.length_nil]
  omega

/-- The last one to come completes `1..g_n`. -/
theorem Setup.room (h : Setup keys k p) (hi : i ∉ p.1.coord.signers)
    (hr : 1 ≤ i ∧ i ≤ p.1.coord.n) : p.1.coord.signers.length < p.1.coord.n := by
  by_contra hno
  have hcount : p.1.coord.n ≤ p.1.coord.count fun _ => true := by
    unfold Coord.count
    rw [List.countP_eq_length.mpr fun _ _ => rfl]
    omega
  exact hi ((h.cast.everyone hcount).1 i hr.1 hr.2)

/-- The coordinator once `i` is registered; `last` when that completes `1..g_n`. -/
structure Greeted (k : Ceremony) (c c' : Coord) (i : Nat) (last : Bool) : Prop where
  complete : last = true ↔ ¬ c.signers.length + 1 < c.n
  signers : c'.signers = i :: c.signers
  n : c'.n = c.n
  t : c'.t = c.t
  mode : c'.mode = c.mode
  fail : c'.roastFail = c.roastFail
  exited : c'.exited = c.exited
  state : c'.dkgState = if last then .collectingR1 else .idle
  record : ∀ j ∈ i :: c.signers, c'.sg j =
    (if j = i then SignerRec.new else c.sg j).push (greeting k c i last j)

theorem promote_greeted (hm : c.mode = k.mode) (hd : c.signers.Nodup) (hi : i ∉ c.signers)
    (hidle : c.dkgState = .idle) : ∃ last, Greeted k c (promote c i) i last := by
  rw [promote_eq hm]
  unfold Coord.maybeStart
  rw [if_neg (by
    show ¬ c.dkgState ≠ .idle
    exact not_not.mpr hidle)]
  by_cases hlt : c.signers.length + 1 < c.n
  · rw [if_pos (by exact hlt)]
    refine ⟨false, ⟨fun e => (by cases e), fun hno => absurd hlt hno⟩, rfl, rfl, rfl, rfl, rfl,
      rfl, hidle, fun j _ => ?_⟩
    rw [greet_sg]
    unfold greeting
    by_cases e : j = i
    · rw [if_pos e, if_pos e, if_pos e]
      rfl
    · rw [if_neg e, if_neg e, if_neg e]
      exact (SignerRec.push_nil _).symm
  · rw [if_neg (by exact hlt)]
    generalize hgen : ({ (enroll c i).signerSend i .helloAck [] (ackText i k.mode) with
      dkgState := .collectingR1 } : Coord) = d
    obtain ⟨_, e⟩ := broadcast_sgOnly d k.start (printTwo k.word c.n c.t)
    have hn : ((enroll c i).signerSend i .helloAck [] (ackText i k.mode)).n = c.n := rfl
    have ht : ((enroll c i).signerSend i .helloAck [] (ackText i k.mode)).t = c.t := rfl
    rw [hn, ht]
    refine ⟨true, ⟨fun _ => hlt, fun _ => rfl⟩, by rw [e, ← hgen]; rfl, by rw [e, ← hgen]; rfl,
      by rw [e, ← hgen]; rfl, by rw [e, ← hgen]; rfl, by rw [e, ← hgen]; rfl,
      by rw [e, ← hgen]; rfl, by rw [e, ← hgen]; rfl, fun j hj => ?_⟩
    have hdist : d.signers.Nodup := by
      rw [← hgen]
      exact List.nodup_cons.mpr ⟨hi, hd⟩
    have hj' : j ∈ d.signers := by
      rw [← hgen]
      exact hj
    rw [broadcast_sg hdist, if_pos hj', ← hgen]
    show (((enroll c i).signerSend i .helloAck [] (ackText i k.mode)).sg j).push _ = _
    rw [greet_sg]
    unfold greeting
    by_cases e' : j = i
    · rw [if_pos e', if_pos e', if_pos e']
      exact SignerRec.push_push ..
    · rw [if_neg e', if_neg e', if_neg e']
      rfl

theorem greeting_orders (last : Bool) (j : Nat) :
    ∀ f ∈ greeting k c i last j, Order keys k c.n c.t j f := by
  intro f hf
  unfold greeting at hf
  rcases List.mem_append.mp hf with hf | hf
  · split at hf
    · next e =>
      rw [List.mem_singleton.mp hf, e]
      exact ack_order
    · cases hf
  · split at hf
    · rw [List.mem_singleton.mp hf]
      exact start_order
    · cases hf

/-- In the rounds a greeting says `start`, or nothing. -/
theorem greeting_opens (last : Bool) (j : Nat) :
    (greeting k c i last j).filterMap (openDown keys k j) = if last then [.start] else [] := by
  have hack : (if j = i then [(⟨.helloAck, [], ackText i k.mode⟩ : Frame)] else []).filterMap
      (openDown keys k j) = [] := by
    split
    · exact List.filterMap_cons_none (by cases k <;> rfl)
    · rfl
  unfold greeting
  rw [List.filterMap_append, hack, List.nil_append]
  split
  · exact List.filterMap_cons_some (openDown_startFrame j _)
  · rfl

/-- A process that is registered: the coordinator has greeted it, and nothing else has changed. -/
structure Entered (k : Ceremony) (p p' : Sys × (Nat → Nat)) (i : Nat) (last : Bool) : Prop where
  greeted : Greeted k p.1.coord p'.1.coord i last
  node : ∀ j, j ≠ i → p'.1.node j = p.1.node j
  down : p'.1.down = p.1.down
  told : p'.2 = p.2
  running : Running i p.1.coord.n (p'.1.node i)
  fresh : heardR1 k (p'.1.node i) = [] ∧ heardR2 k (p'.1.node i) = [] ∧ (p'.1.node i).asked = []
  silent : (p'.1.node i).outq = []

variable {p' : Sys × (Nat → Nat)} {last : Bool}

theorem Entered.queue (h : Setup keys k p) (he : Entered k p p' i last)
    (hi : i ∉ p.1.coord.signers) {j : Nat} (hj : j ∈ i :: p.1.coord.signers) : p'.1.queue j =
      (if j = i then [] else p.1.queue j) ++ greeting k p.1.coord i last j := by
  unfold Sys.queue
  rw [he.down, he.greeted.record j hj, SignerRec.push_msgq]
  by_cases e : j = i
  · rw [if_pos e, if_pos e, e, (h.away i hi).1]
    rfl
  · rw [if_neg e, if_neg e, List.append_assoc]

theorem Entered.setup (h : Setup keys k p) (he : Entered k p p' i last)
    (hi : i ∉ p.1.coord.signers) (hargs : Args i p.1.coord.n p.1.coord.t)
    (hx : p.1.coord.exited = false) (hcast : Cast p'.1.coord) : Setup keys k p' := by
  have hg := he.greeted
  refine ⟨hcast, hg.mode.trans h.mode, hg.fail.trans h.fail, fun he => ?_, fun j hj => ?_,
    fun j hj => ?_⟩
  · rw [hg.exited, hx] at he
    cases he
  · rw [hg.signers] at hj
    rw [hg.n, hg.t, he.queue h hi hj, hg.record j hj]
    by_cases e : j = i
    · subst e
      rw [if_pos rfl, if_pos rfl]
      refine ⟨hargs, he.running, ?_, fun f hf => greeting_orders last j f (by simpa using hf), ?_,
        fun h0 => absurd rfl h0⟩
      · rw [he.silent]
        exact nofun
      · exact List.length_replicate
    · rw [if_neg e, if_neg e, he.node j e]
      have hs := h.seated j ((List.mem_cons.mp hj).resolve_left e)
      refine ⟨hs.args, hs.running, hs.answers, fun f hf => ?_, hs.sigSize, hs.filed⟩
      rcases List.mem_append.mp hf with hf | hf
      · exact hs.orders f hf
      · exact greeting_orders last j f hf
  · rw [hg.signers] at hj
    rw [he.down, he.told, he.node j fun e => hj (e ▸ List.mem_cons_self ..)]
    exact h.away j fun hin => hj (List.mem_cons_of_mem _ hin)

/-- The party of each signer once `i` has come. -/
theorem Entered.party (h : Setup keys k p) (he : Entered k p p' i last)
    (hi : i ∉ p.1.coord.signers) {j : Nat} (hj : j ∈ i :: p.1.coord.signers) :
    seatOf keys k p' j = { (view keys k p).party j with
      down := ((view keys k p).party j).down ++ if last then [.start] else [] } := by
  have hparty : (view keys k p).party j =
      if j = i then Rounds.Party.blank else seatOf keys k p j := by
    by_cases e : j = i
    · rw [if_pos e, e]
      exact if_neg hi
    · rw [if_neg e]
      exact view_party ((List.mem_cons.mp hj).resolve_left e)
  rw [hparty]
  unfold seatOf seat
  rw [he.queue h hi hj, he.greeted.record j hj, he.told, List.filterMap_append, greeting_opens]
  by_cases e : j = i
  · subst e
    unfold ownOf callsOf
    rw [if_pos rfl, if_pos rfl, if_pos rfl, he.fresh.1, he.fresh.2.1, he.fresh.2.2, he.silent,
      (h.away j hi).2.2]
    rfl
  · rw [if_neg e, if_neg e, if_neg e, he.node j e]
    rfl

theorem Entered.joined (h : Setup keys k p) (he : Entered k p p' i last)
    (hi : i ∉ p.1.coord.signers) (hidle : p.1.coord.dkgState = .idle) :
    view keys k p' = (view keys k p).joined i := by
  have hg := he.greeted
  unfold Rounds.Net.joined
  by_cases hlt : p.1.coord.signers.length + 1 < p.1.coord.n
  · have hl : last = false := by
      cases last with
      | false => rfl
      | true => exact absurd hlt (hg.complete.mp rfl)
    rw [if_pos (by exact hlt)]
    refine view_eq hg.n.symm (by rw [hg.state, hl]; exact congrArg stageOf hidle)
      hg.signers.symm (fun j hj => ?_) fun j hj => ?_
    · rw [hg.signers] at hj
      rw [he.party h hi hj, hl]
      simp
    · rw [hg.signers] at hj
      exact if_neg fun hin => hj (List.mem_cons_of_mem _ hin)
  · have hl : last = true := hg.complete.mpr hlt
    rw [if_neg (by exact hlt)]
    refine view_eq hg.n.symm (by rw [hg.state, hl]; rfl) hg.signers.symm (fun j hj => ?_)
      fun j hj => ?_
    · rw [hg.signers] at hj
      rw [he.party h hi hj, hl]
      exact if_pos hj
    · rw [hg.signers] at hj
      exact (if_neg hj).trans (if_neg fun hin => hj (List.mem_cons_of_mem _ hin))

/-- A process that is registered joins the net. -/
theorem Setup.enter (h : Setup keys k p) (p' : Sys × (Nat → Nat)) (hi : i ∉ p.1.coord.signers)
    (hargs : Args i p.1.coord.n p.1.coord.t) (hx : p.1.coord.exited = false)
    (hidle : p.1.coord.dkgState = .idle) (hcast : Cast p'.1.coord)
    (hcoord : p'.1.coord = promote p.1.coord i) (hnode : ∀ j, j ≠ i → p'.1.node j = p.1.node j)
    (hdown : p'.1.down = p.1.down) (htold : p'.2 = p.2)
    (hrun : Running i p.1.coord.n (p'.1.node i))
    (hfresh : heardR1 k (p'.1.node i) = [] ∧ heardR2 k (p'.1.node i) = [] ∧
      (p'.1.node i).asked = [])
    (hout : (p'.1.node i).outq = []) :
    Setup keys k p' ∧ view keys k p' = (view keys k p).joined i := by
  obtain ⟨last, hg⟩ := promote_greeted h.mode h.cast.distinct hi hidle
  have he : Entered k p p' i last :=
    ⟨hcoord ▸ hg, hnode, hdown, htold, hrun, hfresh, hout⟩
  exact ⟨he.setup h hi hargs hx hcast, he.joined h hi hidle⟩

/-! ## Every step -/

/-- Of a record the rounds use the package, its signature and the flag. -/
theorem Seated.congr {n t : Nat} {x : Node} {q : List Frame} {r r' : SignerRec}
    (h : Seated keys k n t i x q r) (h1 : r'.r1Sig = r.r1Sig) (h2 : r'.r1Pkg = r.r1Pkg) :
    Seated keys k n t i x q r' :=
  ⟨h.args, h.running, h.answers, h.orders, by rw [h1]; exact h.sigSize, by
    rw [h1, h2]; exact h.filed⟩

theorem seat_congr {x : Node} {q : List Frame} {d : Nat} {r r' : SignerRec}
    (h1 : r'.r1Pkg = r.r1Pkg) (h2 : r'.r2Complete = r.r2Complete) :
    seat keys k i x r' q d = seat keys k i x r q d := by
  unfold seat
  rw [h1, h2]

/-- An event in which nobody is told that all is done. -/
theorem record_eq {e : Event} {s' : Sys} (hs : step keys p.1 e = s')
    (ht : ∀ j, toldBy k p.1 e j = 0) : record keys k p e = (s', p.2) := by
  unfold record
  rw [hs]
  refine Prod.ext rfl ?_
  funext j
  dsimp only
  rw [ht]
  rfl

theorem toldBy_none {e : Event} (h : coordEvent p.1 e = none) (j : Nat) : toldBy k p.1 e j = 0 := by
  unfold toldBy
  rw [h]

theorem toldBy_other {e : Event} {e' : Coordinator.Event} (h : coordEvent p.1 e = some e') {j : Nat}
    {fs : List Frame} (hq : ((Coordinator.step p.1.coord e').sg j).msgq = kept p.1.coord e' j ++ fs)
    (hfs : ∀ f ∈ fs, f.type ≠ k.finish) : toldBy k p.1 e j = 0 := by
  unfold toldBy
  rw [h]
  dsimp only
  rw [queuedBy_eq hq]
  exact List.countP_eq_zero.mpr fun f hf => by simpa using hfs f hf

theorem toldBy_kept {e : Event} {e' : Coordinator.Event} (h : coordEvent p.1 e = some e') {j : Nat}
    (hq : ((Coordinator.step p.1.coord e').sg j).msgq = kept p.1.coord e' j) :
    toldBy k p.1 e j = 0 :=
  toldBy_other h (hq.trans (List.append_nil _).symm) nofun

/-- The coordinator ends, or does nothing. -/
theorem Setup.exit (h : Setup keys k p) {c' : Coord}
    (hc : c' = p.1.coord ∨ p.1.coord.dkgState = .complete ∧
      c' = { p.1.coord with exited := true }) :
    Setup keys k ({ p.1 with coord := c' }, p.2) ∧
      view keys k ({ p.1 with coord := c' }, p.2) = view keys k p := by
  rcases hc with rfl | ⟨hd, rfl⟩
  · exact ⟨h, rfl⟩
  · exact ⟨⟨h.cast.congr rfl rfl rfl, h.mode, h.fail, fun _ => hd, h.seated, h.away⟩, rfl⟩

theorem Setup.loopHead (h : Setup keys k p) (env : TbsEnv) :
    Setup keys k (record keys k p (.loopHead env)) ∧
      view keys k (record keys k p (.loopHead env)) = view keys k p := by
  have hexit : exitIfQuiet p.1.coord = p.1.coord ∨
      exitIfQuiet p.1.coord = { p.1.coord with exited := true } := by
    unfold exitIfQuiet
    split
    · exact .inr rfl
    · exact .inl rfl
  have hc : Coordinator.step p.1.coord (.loopHead env) = p.1.coord ∨
      p.1.coord.dkgState = .complete ∧
      Coordinator.step p.1.coord (.loopHead env) = { p.1.coord with exited := true } := by
    unfold Coordinator.step
    split
    · exact .inl rfl
    dsimp only
    unfold Coordinator.loopHead
    rw [if_neg (by rw [h.fail]; decide), if_neg fun hd => h.cast.mode hd.2]
    split
    · next hd => exact hexit.imp_right fun e => ⟨hd.1, e⟩
    · exact .inl rfl
  have hq (j : Nat) : ((Coordinator.step p.1.coord (.loopHead env)).sg j).msgq =
      kept p.1.coord (.loopHead env) j := by
    rcases hc with e | ⟨-, e⟩ <;> rw [e] <;> rfl
  rw [record_eq rfl fun j => toldBy_kept rfl (hq j)]
  exact h.exit hc

theorem Setup.expire (h : Setup keys k p) (now : Nat) (env : Fin maxSessions → Coordinator.Env) :
    Setup keys k (record keys k p (.expire now env)) ∧
      view keys k (record keys k p (.expire now env)) = view keys k p := by
  have hc : Coordinator.step p.1.coord (.expire now env) = p.1.coord := by
    unfold Coordinator.step
    split
    · rfl
    · exact if_neg fun hd => h.cast.mode hd.1
  have hq (j : Nat) : ((Coordinator.step p.1.coord (.expire now env)).sg j).msgq =
      kept p.1.coord (.expire now env) j := by
    rw [hc]
    rfl
  rw [record_eq rfl fun j => toldBy_kept rfl (hq j)]
  exact h.exit (.inl hc)

theorem write_empty {s : Sys} (hq : (s.coord.sg i).msgq = []) :
    step keys s (.write i) = s ∧ coordEvent s (.write i) = none := by
  constructor
  · show (match (s.coord.sg i).msgq with | [] => s | f :: _ => _) = _
    rw [hq]
  · show (match (s.coord.sg i).msgq with | [] => none | _ :: _ => _) = _
    rw [hq]

theorem coordEvent_write {s : Sys} (hq : (s.coord.sg i).msgq = f :: fs) :
    coordEvent s (.write i) = some (.drain i) := by
  show (match (s.coord.sg i).msgq with | [] => none | _ :: _ => _) = _
  rw [hq]

/-- A coordinator that has ended writes nothing, and one that runs writes to its signers only. -/
theorem record_unwritten (hq : (p.1.coord.sg i).msgq = f :: fs)
    (hg : p.1.coord.exited = true ∨ i ∉ p.1.coord.signers) :
    record keys k p (.write i) = p := by
  have hstep : step keys p.1 (.write i) = p.1 := by
    show (match (p.1.coord.sg i).msgq with | [] => p.1 | f :: _ => _) = _
    rw [hq]
    exact if_pos (by simpa using hg)
  have hsame : Coordinator.step p.1.coord (.drain i) = p.1.coord := by
    cases hx : p.1.coord.exited with
    | true => exact step_exited hx _
    | false =>
      rw [step_drain hx]
      exact if_neg (hg.resolve_left (by rw [hx]; exact Bool.false_ne_true))
  refine record_eq hstep fun j => toldBy_kept (coordEvent_write hq) ?_
  rw [hsame]
  refine (if_neg fun hc => ?_).symm
  rcases hg with hx | hi
  · rw [hx] at hc
    exact absurd hc.2.2 (by decide)
  · exact hi (hc.1 ▸ hc.2.1)

/-- The frame moves from one half of the queue to the other. -/
theorem record_written (hq : (p.1.coord.sg i).msgq = f :: fs) (hx : p.1.coord.exited = false)
    (hi : i ∈ p.1.coord.signers) : record keys k p (.write i) =
      (({ p.1 with coord := drainSignerWrite p.1.coord i } : Sys).setDown i (p.1.down i ++ [f]),
        p.2) := by
  have hdrain := step_drain_of_mem hx hi
  have hstep : step keys p.1 (.write i) =
      ({ p.1 with coord := drainSignerWrite p.1.coord i } : Sys).setDown i
        (p.1.down i ++ [f]) := by
    show (match (p.1.coord.sg i).msgq with | [] => p.1 | f :: _ => _) = _
    rw [hq]
    refine (if_neg (by simp [hx, hi])).trans ?_
    rw [hdrain]
  exact record_eq hstep fun j =>
    toldBy_kept (coordEvent_write hq) (kept_drain hx i j)

/-- The coordinator completes a write. -/
theorem Setup.write (h : Setup keys k p) (i : Nat) : Setup keys k (record keys k p (.write i)) ∧
    view keys k (record keys k p (.write i)) = view keys k p := by
  cases hq : (p.1.coord.sg i).msgq with
  | nil =>
    obtain ⟨hstep, hce⟩ : step keys p.1 (.write i) = p.1 ∧ _ := write_empty hq
    rw [record_eq hstep (toldBy_none hce)]
    exact ⟨h, rfl⟩
  | cons f fs =>
    by_cases hg : p.1.coord.exited = true ∨ i ∉ p.1.coord.signers
    · rw [record_unwritten hq hg]
      exact ⟨h, rfl⟩
    obtain ⟨hx, hi⟩ := not_or.mp hg
    have hi := not_not.mp hi
    rw [record_written hq (by simpa using hx) hi]
    have hsg := drainSignerWrite_self hq
    have hne (j : Nat) (hj : j ≠ i) : (drainSignerWrite p.1.coord i).sg j = p.1.coord.sg j :=
      Coord.setSg_of_ne hj _
    have hqueue (j : Nat) : ((({ p.1 with coord := drainSignerWrite p.1.coord i } : Sys).setDown i
        (p.1.down i ++ [f])).queue j) = p.1.queue j := by
      unfold Sys.queue
      show Function.update p.1.down i _ j ++ ((drainSignerWrite p.1.coord i).sg j).msgq = _
      by_cases e : j = i
      · subst e
        rw [Function.update_self, hsg, hq, List.append_assoc]
        rfl
      · rw [Function.update_of_ne e, hne j e]
    have hrec (j : Nat) : ((drainSignerWrite p.1.coord i).sg j).r1Sig = (p.1.coord.sg j).r1Sig ∧
        ((drainSignerWrite p.1.coord i).sg j).r1Pkg = (p.1.coord.sg j).r1Pkg ∧
        ((drainSignerWrite p.1.coord i).sg j).r2Complete = (p.1.coord.sg j).r2Complete := by
      by_cases e : j = i
      · rw [e, hsg]
        exact ⟨rfl, rfl, rfl⟩
      · rw [hne j e]
        exact ⟨rfl, rfl, rfl⟩
    refine ⟨⟨h.cast.congr rfl rfl rfl, h.mode, h.fail, h.ended, fun j hj => ?_, fun j hj => ?_⟩,
      view_same rfl rfl rfl fun j hj => ?_⟩
    · have hs := h.seated j hj
      dsimp only
      rw [hqueue]
      exact hs.congr (hrec j).1 (hrec j).2.1
    · obtain ⟨h1, h2, h3⟩ := h.away j hj
      refine ⟨?_, h2, h3⟩
      show Function.update p.1.down i _ j = []
      rw [Function.update_of_ne fun e : j = i => hj (e ▸ hi)]
      exact h1
    · unfold seatOf
      dsimp only
      rw [hqueue]
      exact seat_congr (hrec j).2.1 (hrec j).2.2

/-- Nothing is on its way to a process that changes. -/
theorem setDown_same {s : Sys} (hd : s.down i = []) (x : Node) :
    (s.setNode i x).setDown i [] = s.setNode i x := by
  unfold Sys.setDown
  rw [show (s.setNode i x).down = s.down from rfl, ← hd, Function.update_eq_self]
  rfl

/-- A process that is not registered changes on its own. -/
theorem Setup.setNode (h : Setup keys k p) {i : Nat} (hi : i ∉ p.1.coord.signers) {x : Node}
    (hx : Waiting i x) : Setup keys k ((p.1.setNode i x).setDown i [], p.2) ∧
      view keys k ((p.1.setNode i x).setDown i [], p.2) = view keys k p := by
  have hne {j : Nat} (hj : j ∈ p.1.coord.signers) : j ≠ i := fun e => hi (e ▸ hj)
  have hnode {j : Nat} (hj : j ≠ i) : ((p.1.setNode i x).setDown i []).node j = p.1.node j :=
    Function.update_of_ne hj ..
  have hdown {j : Nat} (hj : j ≠ i) : ((p.1.setNode i x).setDown i []).down j = p.1.down j :=
    Function.update_of_ne hj ..
  refine ⟨⟨h.cast, h.mode, h.fail, h.ended, fun j hj => ?_, fun j hj => ?_⟩,
    view_same rfl rfl rfl fun j hj => ?_⟩
  · unfold Sys.queue
    dsimp only
    rw [hnode (hne hj), hdown (hne hj)]
    exact h.seated j hj
  · dsimp only
    by_cases e : j = i
    · subst e
      refine ⟨Function.update_self .., ?_, (h.away j hj).2.2⟩
      have : ((p.1.setNode j x).setDown j []).node j = x := Function.update_self ..
      rw [this]
      exact hx
    · rw [hnode e, hdown e]
      exact h.away j hj
  · unfold seatOf Sys.queue
    dsimp only
    rw [hnode (hne hj), hdown (hne hj)]
    rfl

theorem Setup.launch (h : Setup keys k p) (i n t : Nat) :
    Setup keys k (record keys k p (.launch i n t)) ∧
      view keys k (record keys k p (.launch i n t)) = view keys k p := by
  rw [record_eq rfl (toldBy_none rfl)]
  show Setup keys k (if Args i n t ∧ (p.1.node i).exited ∧
    i ∉ p.1.coord.signers then _ else p.1, p.2) ∧ _
  by_cases hg : Args i n t ∧ (p.1.node i).exited ∧ i ∉ p.1.coord.signers
  · have hstep : step keys p.1 (.launch i n t) =
        (p.1.setNode i (Node.start keys i n t)).setDown i [] :=
      if_pos hg
    rw [if_pos hg, hstep]
    exact h.setNode hg.2.2 ⟨⟨rfl, rfl, rfl, rfl, rfl⟩, .inr ⟨n, t, _, hg.1, rfl, rfl, rfl, rfl, nofun⟩⟩
  · have hstep : step keys p.1 (.launch i n t) = p.1 := if_neg hg
    rw [if_neg hg, hstep]
    exact ⟨h, rfl⟩

theorem kept_exited (hx : c.exited = true) (e : Coordinator.Event) (j : Nat) :
    ((Coordinator.step c e).sg j).msgq = kept c e j := by
  have hstep : Coordinator.step c e = c := by
    unfold Coordinator.step
    rw [if_pos hx]
  cases e with
  | hello env payload =>
    show _ = if j ∉ c.signers ∧ j ∈ (Coordinator.step c (.hello env payload)).signers then _ else _
    rw [hstep, if_neg fun hc => hc.1 hc.2]
  | drain l =>
    rw [hstep]
    refine (if_neg fun hc => ?_).symm
    rw [hx] at hc
    exact absurd hc.2.2 (by decide)
  | _ => rw [hstep]; rfl

/-- What the coordinator no longer reads says nothing: the ceremony is over. -/
theorem Setup.readExited (h : Setup keys k p) (hs : Rounds.Sound k.eager (view keys k p))
    (hx : p.1.coord.exited = true) (ho : (p.1.node i).outq = f :: fs) :
    Setup keys k (record keys k p (.receive i hello env')) ∧
      view keys k (record keys k p (.receive i hello env')) = view keys k p := by
  have hstep : step keys p.1 (.receive i hello env') =
      p.1.setNode i { p.1.node i with outq := fs } := by
    show (match (p.1.node i).outq with | [] => p.1 | f :: fs => _) = _
    rw [ho]
    exact if_pos hx
  have ht (j : Nat) : toldBy k p.1 (.receive i hello env') j = 0 := by
    cases hce : coordEvent p.1 (.receive i hello env') with
    | none => exact toldBy_none hce j
    | some e' => exact toldBy_kept hce (kept_exited hx e' j)
  rw [record_eq hstep ht]
  have hnode {j : Nat} (hj : j ≠ i) :
      (p.1.setNode i { p.1.node i with outq := fs }).node j = p.1.node j :=
        Function.update_of_ne hj ..
  have hself : (p.1.setNode i { p.1.node i with outq := fs }).node i =
      { p.1.node i with outq := fs } :=
    Function.update_self ..
  by_cases hi : i ∈ p.1.coord.signers
  · have hmem : i ∈ (view keys k p).members := hi
    have hover : (view keys k p).stage = .ended := by
      show stageOf p.1.coord.dkgState = _
      rw [h.ended hx]
      rfl
    have hstage : (view keys k p).stage ≠ .joining := by rw [hover]; exact nofun
    have hup : ((view keys k p).party i).up = (f :: fs).filterMap (openUp keys k) := by
      rw [view_party hi, ← ho]
      rfl
    -- whatever was to be said has been heard
    have hnone : openUp keys k f = none := by
      cases e : openUp keys k f with
      | none => rfl
      | some u =>
        rw [List.filterMap_cons_some e] at hup
        have hc := hs.inv.course hstage i hmem
        cases u with
        | first pkg => exact absurd (hs.inv.no_stray hmem hup) (by rw [hover]; exact nofun)
        | second dst src pkg =>
          have := hc.quiet (hs.inv.all hover i hmem) (.second dst src pkg)
              (by rw [hup]; exact List.mem_cons_self ..)
          cases this
        | done =>
          have := hs.inv.no_again hmem hup
          rw [hs.inv.all hover i hmem] at this
          cases this
    refine ⟨⟨h.cast, h.mode, h.fail, h.ended, fun j hj => ?_, fun j hj => ?_⟩,
      view_same rfl rfl rfl fun j hj => ?_⟩
    · dsimp only
      by_cases e : j = i
      · subst e
        have hseat := h.seated j hj
        rw [hself]
        refine ⟨hseat.args, ⟨hseat.running.myId, hseat.running.n, hseat.running.running,
          hseat.running.mode⟩,
          fun g hg => hseat.answers g ?_, hseat.orders, hseat.sigSize, hseat.filed⟩
        rw [ho]
        exact List.mem_cons_of_mem _ hg
      · rw [hnode e]
        exact h.seated j hj
    · dsimp only
      rw [hnode fun e : j = i => hj (e ▸ hi)]
      exact h.away j hj
    · unfold seatOf
      dsimp only
      by_cases e : j = i
      · subst e
        rw [hself]
        unfold seat
        rw [ho, List.filterMap_cons_none hnone]
        cases k <;> rfl
      · rw [hnode e]
        rfl
  · obtain ⟨hd, hw, -⟩ := h.away i hi
    have hfs : fs = [] := by
      rcases hw.outq with e | ⟨_, _, _, -, e, -⟩
      · rw [e] at ho
        cases ho
      · rw [e] at ho
        cases ho
        rfl
    have hwait : Waiting i { p.1.node i with outq := fs } := ⟨hw.fresh, .inl hfs⟩
    have := h.setNode hi hwait
    rw [setDown_same hd] at this
    exact this

/-- `g_n` and `g_t` are fixed while nobody is registered. -/
theorem Setup.resize (h : Setup keys k p) {n t : Nat} (hn : n < 65536)
    (hnt : p.1.coord.n = 0 ∨ p.1.coord.n = n ∧ p.1.coord.t = t)
    (hs : Rounds.Sound k.eager (view keys k p)) :
    Setup keys k ({ p.1 with coord := { p.1.coord with n := n, t := t } }, p.2) ∧
      Rounds.Move k.eager (view keys k p)
        (view keys k ({ p.1 with coord := { p.1.coord with n := n, t := t } }, p.2)) := by
  rcases hnt with h0 | ⟨rfl, rfl⟩
  · have hnil : p.1.coord.signers = [] := by
      refine List.eq_nil_iff_forall_not_mem.mpr fun j hj => ?_
      have := h.cast.range j hj
      omega
    have hstage : (view keys k p).stage = .joining := by
      by_contra hno
      have htwo := (hs.inv.full hno).2
      have : (view keys k p).size = 0 := h0
      omega
    have hmem {j : Nat} (hj : j ∈ p.1.coord.signers) : False := by
      rw [hnil] at hj
      cases hj
    refine ⟨⟨⟨h.cast.mode, h.cast.distinct, fun j hj => (hmem hj).elim, hn⟩, h.mode, h.fail,
      h.ended,
      fun j hj => (hmem hj).elim, h.away⟩, ?_⟩
    exact .size n hnil hstage
  · exact ⟨h, .none⟩

theorem idle_of_joining (h : (view keys k p).stage = .joining) : p.1.coord.dkgState = .idle := by
  have h : stageOf p.1.coord.dkgState = .joining := h
  cases e : p.1.coord.dkgState with
  | idle => rfl
  | _ => rw [e] at h; cases h

/-- A process that is refused ends. -/
theorem Setup.refuse (h : Setup keys k p) (p' : Sys × (Nat → Nat)) {i : Nat}
    (hi : i ∉ p.1.coord.signers) {x : Node}
    (hx : x = p.1.node i) (hq : p' = (p.1.setNode i (stopNode { x with outq := [] }), p.2)) :
    Setup keys k p' ∧ view keys k p' = view keys k p := by
  obtain ⟨hd, hw, -⟩ := h.away i hi
  have hwait : Waiting i (stopNode { x with outq := [] }) := ⟨by rw [hx]; exact hw.fresh, .inl rfl⟩
  have := h.setNode hi hwait
  rw [setDown_same hd, ← hq] at this
  exact this

theorem helloText_fits (i n t : Nat) : ¬ (helloText i n t).length > maxPayload := by
  have h1 := decimal_length i
  have h2 := decimal_length n
  have h3 := decimal_length t
  have h4 : (ascii "SIGNER").length = 6 := by decide
  unfold helloText printThree maxPayload
  simp only [List.length_append, List.length_singleton]
  omega

section Hello

variable {n t : Nat} {sig : Bytes}

/-- What the coordinator is told by a `HELLO` on a staged connection. -/
theorem coordEvent_hello (hi : i ∉ p.1.coord.signers)
    (ho : (p.1.node i).outq = [⟨.hello, sig, helloText i n t⟩]) :
    coordEvent p.1 (.receive i hello env') =
      some (.hello (ownId i hello) (helloText i n t)) := by
  show (match (p.1.node i).outq with | [] => none | f :: _ => _) = _
  rw [ho]
  unfold readEvent
  dsimp only
  rw [if_neg (helloText_fits i n t), if_neg hi]
  rfl

/-- The process stays if it is registered, and ends if not. -/
theorem step_receiveHello (hi : i ∉ p.1.coord.signers) (hx : p.1.coord.exited = false)
    (ho : (p.1.node i).outq = [⟨.hello, sig, helloText i n t⟩])
    (hc : (onHello p.1.coord (ownId i hello) (helloText i n t)).1 = c') :
    step keys p.1 (.receive i hello env') =
      if i ∈ c'.signers then { p.1.setNode i { p.1.node i with outq := [] } with coord := c' }
      else { p.1.setNode i (stopNode { p.1.node i with outq := [] }) with coord := c' } := by
  have hhello := (step_hello hx (ownId i hello) (helloText i n t)).trans hc
  show (match (p.1.node i).outq with | [] => p.1 | f :: fs => _) = _
  rw [ho]
  refine (if_neg (by show ¬ p.1.coord.exited = true; rw [hx]; decide)).trans ?_
  refine (if_neg (helloText_fits i n t)).trans ((if_neg hi).trans ?_)
  unfold Sys.stage
  rw [if_pos rfl]
  dsimp only
  rw [show (p.1.setNode i { p.1.node i with outq := [] }).coord = p.1.coord from rfl, hhello]
  by_cases hin : i ∈ c'.signers
  · rw [if_pos hin, if_pos hin]
  · rw [if_neg hin, if_neg hin]
    unfold Sys.setNode
    dsimp only
    rw [Function.update_self, Function.update_idem]

/-- A refused process ends, and nothing is queued. -/
theorem record_refused (hi : i ∉ p.1.coord.signers) (hx : p.1.coord.exited = false)
    (ho : (p.1.node i).outq = [⟨.hello, sig, helloText i n t⟩])
    (hc : (onHello p.1.coord (ownId i hello) (helloText i n t)).1 = c')
    (hsg : c'.sg = p.1.coord.sg) (hsi : c'.signers = p.1.coord.signers) :
    record keys k p (.receive i hello env') =
      ({ p.1.setNode i (stopNode { p.1.node i with outq := [] }) with coord := c' }, p.2) := by
  have hhello := (step_hello hx (ownId i hello) (helloText i n t)).trans hc
  refine record_eq (by rw [step_receiveHello hi hx ho hc, if_neg (by rw [hsi]; exact hi)])
    fun j => toldBy_kept (coordEvent_hello hi ho) ?_
  show _ = if j ∉ p.1.coord.signers ∧ j ∈ (Coordinator.step p.1.coord _).signers then [] else _
  rw [hhello, hsi, if_neg fun hc => hc.1 hc.2, hsg]

/-- Nobody is told that all is done when a signer is registered. -/
theorem promote_appends (hm : c.mode = k.mode) (i : Nat) :
    Appends (fun type => type ≠ k.finish) (enroll c i) (promote c i) := by
  have hack : (.helloAck : MsgType) ≠ k.finish := by cases k <;> exact nofun
  have hstart : k.start ≠ k.finish := by cases k <;> exact nofun
  rw [promote_eq hm]
  exact (signerSend_appends (T := fun type => type ≠ k.finish) hack i [] _).trans
    (maybeStart_appends (T := fun type => type ≠ k.finish) hstart _)

theorem record_promoted (h : Setup keys k p) (hi : i ∉ p.1.coord.signers)
    (hx : p.1.coord.exited = false) (ho : (p.1.node i).outq = [⟨.hello, sig, helloText i n t⟩])
    (hc : (onHello p.1.coord (ownId i hello) (helloText i n t)).1 = c')
    (e : c' = promote { p.1.coord with n := n, t := t } i) :
    record keys k p (.receive i hello env') =
      ({ p.1.setNode i { p.1.node i with outq := [] } with coord := c' }, p.2) := by
  have hhello := (step_hello hx (ownId i hello) (helloText i n t)).trans hc
  have hmode : ({ p.1.coord with n := n, t := t } : Coord).mode = k.mode := h.mode
  obtain ⟨hsigners, -, -⟩ := promote_shape' (c := { p.1.coord with n := n, t := t }) h.cast.mode i
  have hin : i ∈ c'.signers := by
    rw [e, hsigners]
    exact List.mem_cons_self ..
  refine record_eq (by rw [step_receiveHello hi hx ho hc, if_pos hin]) fun j => ?_
  obtain ⟨fs', hfs', hno⟩ := promote_appends hmode i j
  refine toldBy_other (coordEvent_hello hi ho) ?_ hno
  rw [hhello, e, hfs']
  congr 1
  show _ = if j ∉ p.1.coord.signers ∧ j ∈ (Coordinator.step p.1.coord _).signers then [] else _
  rw [hhello, e, hsigners, enroll_sg]
  by_cases ej : j = i
  · rw [if_pos ej, if_pos ⟨by rw [ej]; exact hi, by rw [ej]; exact List.mem_cons_self ..⟩]
    rfl
  · rw [if_neg ej, if_neg fun hc => hc.1 (List.mem_of_ne_of_mem ej hc.2)]

/-- A `HELLO` on a staged connection. -/
theorem Setup.readHello (h : Setup keys k p) (hs : Rounds.Sound k.eager (view keys k p))
    (hi : i ∉ p.1.coord.signers) (hx : p.1.coord.exited = false)
    (hargs : Args i n t) (hrun : Running i n (p.1.node i))
    (ho : (p.1.node i).outq = [⟨.hello, sig, helloText i n t⟩]) :
    Setup keys k (record keys k p (.receive i hello env')) ∧
      Relation.ReflTransGen (Rounds.Move k.eager) (view keys k p)
        (view keys k (record keys k p (.receive i hello env'))) := by
  generalize hc : (onHello p.1.coord (ownId i hello) (helloText i n t)).1 = c'
  rcases onHello_taken p.1.coord (ownId i hello) (helloText i n t) with
    e | ⟨pid, pn, pt, hparse, hnt, hcase⟩
  · rw [hc] at e
    rw [record_refused hi hx ho hc (by rw [e]) (by rw [e])]
    obtain ⟨h1, h2⟩ := h.refuse ({ p.1.setNode i (stopNode { p.1.node i with outq := [] }) with
      coord := c' }, p.2) hi rfl (by rw [e]; rfl)
    exact ⟨h1, by rw [h2]⟩
  rw [parseHello_helloText hargs] at hparse
  cases hparse
  have hn16 : n < 65536 := (args_small hargs).2.1
  obtain ⟨h1, hm1⟩ := h.resize hn16 hnt hs
  have hs1 := hs.move hm1
  rcases hcase with e | ⟨-, e⟩
  · rw [hc] at e
    rw [record_refused hi hx ho hc (by rw [e]) (by rw [e])]
    obtain ⟨h2, h3⟩ := h1.refuse ({ p.1.setNode i (stopNode { p.1.node i with outq := [] }) with
      coord := c' }, p.2) hi rfl (by rw [e]; rfl)
    exact ⟨h2, by rw [h3]; exact .single hm1⟩
  · rw [hc] at e
    have hroom := h1.room hi hargs.idRange
    have hidle : p.1.coord.dkgState = .idle := by
      have hjoin : (view keys k p).stage = .joining := by
        by_contra hno
        exact absurd (hs1.inv.full hno).1 (Nat.ne_of_lt hroom)
      exact idle_of_joining hjoin
    have hself : (p.1.setNode i { p.1.node i with outq := [] }).node i =
        { p.1.node i with outq := [] } :=
      Function.update_self ..
    obtain ⟨hf1, hf2, hf3, hf4, hf5⟩ := (h.away i hi).2.1.fresh
    have hcast : Cast c' := by
      rw [← hc]
      exact h.cast.hello _ _
    have henter := h1.enter ({ p.1.setNode i { p.1.node i with outq := [] } with coord := c' }, p.2)
      hi hargs hx hidle hcast e (fun j hj => Function.update_of_ne hj ..) rfl rfl
      (by
        show Running i n ((p.1.setNode i { p.1.node i with outq := [] }).node i)
        rw [hself]
        exact ⟨hrun.myId, hrun.n, hrun.running, hrun.mode⟩)
      (by
        show heardR1 k ((p.1.setNode i { p.1.node i with outq := [] }).node i) = [] ∧
          heardR2 k ((p.1.setNode i { p.1.node i with outq := [] }).node i) = [] ∧
          ((p.1.setNode i { p.1.node i with outq := [] }).node i).asked = []
        rw [hself]
        cases k
        · exact ⟨hf1, hf2, hf5⟩
        · exact ⟨hf3, hf4, hf5⟩)
      (by
        show ((p.1.setNode i { p.1.node i with outq := [] }).node i).outq = []
        rw [hself])
    rw [record_promoted h hi hx ho hc e]
    refine ⟨henter.1, ?_⟩
    rw [henter.2]
    refine .tail (.single hm1) (.join i ?_ hi hargs.nRange.1 hroom)
    show stageOf p.1.coord.dkgState = _
    rw [hidle]
    rfl

end Hello

end FrostSshCa.System
