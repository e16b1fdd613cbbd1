import FrostSshCa.Coordinator.Exit
import FrostSshCa.Coordinator.Loop

/-!
# The loop refines the events

What each block of a pass does to the coordinator is an event that can happen
there, so a pass is a run of events and so is the life of the process. The
connections are kept beside it: a signer is registered on the connection that has
presented its certificate, and on no other.
-/

namespace FrostSshCa.Coordinator

open Lib

/-- An event, where the loop can bring it. -/
def Occurs (c : Coord) (e : Event) : Prop :=
  c.exited = false ∧ match e with
  | .frame i f _ => i ∈ c.signers ∧ Accepted f
  | .drain i => i ∈ c.signers ∧ (c.sg i).msgq ≠ []
  | .disconnect i => i ∈ c.signers
  | .expire _ _ => c.mode = .sign ∧ c.signingDone = false
  | .loopHead _ | .hello _ _ => True

variable {Cert Key : Type} {tls : Gnutls Cert Key} {w : World} {sets : Sets} {l l' : Loop Key}

/-- Each registered signer's connection has presented the key cached for its id. -/
def Bound (tls : Gnutls Cert Key) (l : Loop Key) : Prop :=
  ∀ i ∈ l.coord.signers, ∃ key, l.cache.pub i = some key ∧ Presents tls (l.conn i).peer key

/-- What holds between two blocks of the loop. -/
structure Sound (tls : Gnutls Cert Key) (l : Loop Key) : Prop where
  roster : Roster l.coord
  bound : Bound tls l
  running : l.left = false → l.coord.exited = false

/-- The cache has lost nothing, and what is new in it comes from the file of its id. -/
structure Grows (tls : Gnutls Cert Key) (w : World) (a b : KeyCache Key) : Prop where
  kept : ∀ i key, a.pub i = some key → b.pub i = some key
  new : ∀ i key, b.pub i = some key →
    a.pub i = some key ∨ ∃ fd, tls.fileKey (w.files fd) (signerCrt i) = some key

/-- What a block of the loop, or all of a pass, has done. -/
structure Advanced (tls : Gnutls Cert Key) (w : World) (l l' : Loop Key) : Prop where
  sound : Sound tls l'
  reaches : Reaches step Occurs l.coord l'.coord
  grows : Grows tls w l.cache l'.cache

/-- A block of the loop. -/
def Block (tls : Gnutls Cert Key) (w : World) (l l' : Loop Key) : Prop :=
  Sound tls l → l.left = false → l'.left = false ∧ Advanced tls w l l'

/-! ## Reading and writing -/

/-- What one service does to a connection: never whose it is. -/
def Conn.Same (x y : Conn) : Prop := x.sockfd = y.sockfd ∧ x.peer = y.peer

theorem Conn.recv_some {x y : Conn} {stale : Nat → UInt8} {r : Recv} {f : Option Frame}
    (h : x.recv stale r = some (y, f)) : y.Same x ∧ ∀ f' ∈ f, Accepted f' := by
  unfold Conn.recv at h
  cases r with
  | again d =>
    cases h
    exact ⟨⟨rfl, rfl⟩, by simp⟩
  | ended => cases h
  | bytes bs =>
    dsimp only at h
    split at h
    · cases h
    next hne =>
    split at h
    · cases h
      exact ⟨⟨rfl, rfl⟩, by simp⟩
    · next f' hacc =>
      cases h
      refine ⟨⟨rfl, rfl⟩, fun g hg => ?_⟩
      cases hg
      refine ⟨_, _, ?_, hacc⟩
      -- something was received, so there was room
      have hroom : x.buf.length < frameMax := by
        by_contra hfull
        apply hne
        rw [Nat.sub_eq_zero_of_le (by omega), List.take_zero]
      rw [List.length_append, List.length_take]
      omega

theorem Conn.send_some {x y : Conn} {len : Nat} {r : Send} {b : Bool}
    (h : x.send len r = some (y, b)) : y.Same x := by
  unfold Conn.send at h
  cases r with
  | again d => cases h; exact ⟨rfl, rfl⟩
  | failed => cases h
  | wrote k =>
    dsimp only at h
    split at h <;> cases h <;> exact ⟨rfl, rfl⟩

/-! ## Blocks that are events -/

theorem Grows.refl (a : KeyCache Key) : Grows tls w a a :=
  ⟨fun _ _ h => h, fun _ _ h => .inl h⟩

theorem Grows.trans {a b c : KeyCache Key} (h : Grows tls w a b) (h' : Grows tls w b c) :
    Grows tls w a c := by
  refine ⟨fun i key hk => h'.kept i key (h.kept i key hk), fun i key hk => ?_⟩
  rcases h'.new i key hk with hb | hf
  · exact h.new i key hb
  · exact .inr hf

theorem Advanced.trans {l'' : Loop Key} (h : Advanced tls w l l') (h' : Advanced tls w l' l'') :
    Advanced tls w l l'' :=
  ⟨h'.sound, h.reaches.trans h'.reaches, h.grows.trans h'.grows⟩

theorem Block.refl : Block tls w l l := fun hs hl => ⟨hl, hs, .refl _, .refl _⟩

theorem Block.trans {l'' : Loop Key} (h : Block tls w l l') (h' : Block tls w l' l'') :
    Block tls w l l'' := by
  intro hs hl
  obtain ⟨hl', ha⟩ := h hs hl
  obtain ⟨hl'', ha'⟩ := h' ha.sound hl'
  exact ⟨hl'', ha.trans ha'⟩

/-- A block that leaves coordinator, connections and cache alone. -/
theorem Block.aside (hcoord : l'.coord = l.coord) (hconn : l'.conn = l.conn)
    (hcache : l'.cache = l.cache) (hleft : l'.left = l.left) : Block tls w l l' := by
  intro hs hl
  refine ⟨by rw [hleft, hl], ⟨hcoord ▸ hs.roster, ?_, fun _ => hcoord ▸ hs.running hl⟩,
    .of_eq hcoord, hcache ▸ .refl _⟩
  unfold Bound
  rw [hcoord, hconn, hcache]
  exact hs.bound

/-- Connections change their buffers and flags only. -/
theorem Bound.setConn (h : Bound tls l) {i : Nat} {x : Conn} (hx : x.Same (l.conn i)) :
    Bound tls (l.setConn i x) := by
  intro j hj
  obtain ⟨key, hkey, hp⟩ := h j hj
  refine ⟨key, hkey, ?_⟩
  show Presents tls ((Function.update l.conn i x) j).peer key
  by_cases hji : j = i
  · subst hji
    rw [Function.update_self, hx.2]
    exact hp
  · rwa [Function.update_of_ne hji]

theorem Block.setConn {i : Nat} {x : Conn} (hx : x.Same (l.conn i)) :
    Block tls w l (l.setConn i x) :=
  fun hs hl => ⟨hl, ⟨hs.roster, hs.bound.setConn hx, hs.running⟩, .refl _, .refl _⟩

/-- One event that registers nobody. -/
theorem Block.event {c : Coord} {e : Event} (hocc : l.coord.exited = false → Occurs l.coord e)
    (hc : c = step l.coord e) (hhead : ∀ env, e ≠ .loopHead env)
    (hsig : ∀ i ∈ c.signers, i ∈ l.coord.signers) : Block tls w l { l with coord := c } := by
  intro hs hl
  have hx := hs.running hl
  subst hc
  exact ⟨hl, ⟨hs.roster.step e, fun i hi => hs.bound i (hsig i hi),
    fun _ => step_exited_kept hx hhead⟩, .single (hocc hx), .refl _⟩

/-! ## The registered signers -/

theorem removeSigner_block {i : Nat} (hi : i ∈ l.coord.signers) :
    Block tls w l { l with coord := removeSigner l.coord i } := by
  intro hs hl
  have hx := hs.running hl
  refine Block.event (e := .disconnect i) (fun hx => ⟨hx, hi⟩) ?_ (fun env => by simp)
    (fun j hj => List.mem_of_mem_filter hj) hs hl
  rw [step_disconnect hx, if_pos hi]

theorem signers_of_view {c c' : Coord} (h : rosterView c' = rosterView c) :
    c'.signers = c.signers := congrArg (fun v => v.2.1) h

theorem processSignerFrame_signers (c : Coord) (env : Env) (i : Nat) (f : Frame) :
    (processSignerFrame c env i f).signers = c.signers := by
  have hview : rosterView (processSignerFrame c env i f) = rosterView c := by
    by_cases hs : MsgType.signing f.type = true
    · exact (processSignerFrame_roastOnly c env i f hs).rosterView
    · exact (processSignerFrame_ceremonyOnly c env i f (by simpa using hs)).rosterView
  exact signers_of_view hview

theorem serviceSigner_block {i : Nat} (hi : i ∈ l.coord.signers) :
    Block tls w l (serviceSigner w sets l i) := by
  unfold serviceSigner
  split
  · unfold drainSigner
    split
    · exact .refl
    next m ms hq =>
    split
    · exact removeSigner_block hi
    · next x hsend => exact .setConn (Conn.send_some hsend)
    · next x hsend =>
      refine (Block.setConn (Conn.send_some hsend)).trans fun hs hl => ?_
      have hx : l.coord.exited = false := hs.running hl
      refine Block.event (l := l.setConn i x) (e := .drain i) (fun hx => ⟨hx, hi, ?_⟩)
        (step_drain_of_mem hx hi).symm (fun env => by simp) (fun j hj => hj) hs hl
      show (l.coord.sg i).msgq ≠ []
      rw [hq]
      simp
  split
  · exact .refl
  split
  · exact removeSigner_block hi
  · next x hrecv => exact .setConn (Conn.recv_some hrecv).1
  · next x f hrecv =>
    obtain ⟨hsame, hf⟩ := Conn.recv_some hrecv
    refine (Block.setConn hsame).trans fun hs hl => ?_
    have hx : l.coord.exited = false := hs.running hl
    refine Block.event (l := l.setConn i x) (e := .frame i f (w.env i))
      (fun hx => ⟨hx, hi, hf f rfl⟩) (step_frame_of_mem hx hi f _).symm (fun env => by simp)
      (fun j hj => ?_) hs hl
    rwa [processSignerFrame_signers] at hj

/-- Nobody else is removed. -/
theorem serviceSigner_others (w : World) (sets : Sets) (l : Loop Key) {i j : Nat} (hne : j ≠ i)
    (hj : j ∈ l.coord.signers) : j ∈ (serviceSigner w sets l i).coord.signers := by
  have hremove : j ∈ (removeSigner l.coord i).signers := by
    refine List.mem_filter.mpr ⟨hj, ?_⟩
    simpa using hne
  unfold serviceSigner drainSigner
  split
  · split
    · exact hj
    split
    · exact hremove
    · exact hj
    · exact hj
  split
  · exact hj
  split
  · exact hremove
  · exact hj
  · show j ∈ (processSignerFrame _ _ _ _).signers
    rwa [processSignerFrame_signers]

/-- The loop over the signers: each is still registered when its turn comes. -/
theorem serviceSigners_block {is : List Nat} : ∀ {l : Loop Key}, is.Nodup →
    (∀ i ∈ is, i ∈ l.coord.signers) → Block tls w l (is.foldl (serviceSigner w sets) l) := by
  induction is with
  | nil => exact fun _ _ => .refl
  | cons i is ih =>
    intro l hd hin
    obtain ⟨hi, hd⟩ := List.nodup_cons.mp hd
    refine (serviceSigner_block (hin i (List.mem_cons_self ..))).trans (ih hd fun j hj => ?_)
    refine serviceSigner_others w sets l ?_ (hin j (List.mem_cons_of_mem _ hj))
    rintro rfl
    exact hi hj

/-! ## The staged connections -/

theorem keep_block (st : Staged) : Block tls w l (l.keep st) := .aside rfl rfl rfl rfl

theorem Bound.grow (h : Bound tls l) {cache : KeyCache Key} (hg : Grows tls w l.cache cache) :
    Bound tls { l with cache := cache } := by
  intro i hi
  obtain ⟨key, hkey, hp⟩ := h i hi
  exact ⟨key, hg.kept i key hkey, hp⟩

theorem cacheAfter_grows (w : World) (fd : Nat) (cache : KeyCache Key) (c : Coord)
    (payload : Bytes) : Grows tls w cache (cacheAfter tls (w.files fd) cache c payload) := by
  unfold cacheAfter
  split
  · exact .refl _
  split
  · exact .refl _
  next pid pn pt _ _ =>
  refine ⟨fun i key h => ensure_keeps h, fun i key h => ?_⟩
  cases h0 : cache.pub i with
  | none => exact .inr ⟨fd, ensure_new h0 h⟩
  | some k =>
    rw [ensure_keeps h0] at h
    exact .inl h

/-- A `HELLO` that registers `pid` was checked against the key now cached for it. -/
theorem registers_presents {files : Files} {cache : KeyCache Key} {peer : Peer} {c : Coord}
    {payload : Bytes} {pid : Nat}
    (h : Registers c (helloEnv tls files cache peer) payload pid) :
    ∃ key, (cacheAfter tls files cache c payload).pub pid = some key ∧ Presents tls peer key := by
  obtain ⟨⟨pn, pt, hp, hnt⟩, -, hid, -⟩ := h
  obtain ⟨-, key, hkey, hpres⟩ := verifyPeer_iff.mp hid
  refine ⟨key, ?_, hpres⟩
  unfold cacheAfter
  rw [hp]
  dsimp only
  rw [if_neg (by omega)]
  exact hkey

/-- Who is registered after a `HELLO`, by its answer. -/
theorem onHello_signers (c : Coord) (env : HelloEnv) (payload : Bytes) :
    (∀ text, (onHello c env payload).2 = .error text →
      (onHello c env payload).1.signers = c.signers) ∧
    ∀ pid, (onHello c env payload).2 = .ok pid →
      (onHello c env payload).1.signers = pid :: c.signers := by
  unfold onHello
  split
  · simp
  next pid pn pt _ =>
  split
  · simp
  generalize hd : (if c.n = 0 then { c with n := pn, t := pt } else c) = d
  have hs : d.signers = c.signers := by
    rw [← hd]
    split <;> rfl
  dsimp only
  split
  · simp [hs]
  split
  · simp [hs]
  split
  · simp [hs]
  · simp [promote_signers, hs]

theorem onStagedFrame_block (st : Staged) (f : Frame) :
    Block tls w l (onStagedFrame tls w l st f) := by
  unfold onStagedFrame
  split
  · exact .refl
  dsimp only
  intro hs hl
  have hx := hs.running hl
  have hfile : Grows tls w l.cache
      (cacheAfter tls (w.files st.sockfd) l.cache l.coord f.payload) := cacheAfter_grows ..
  generalize w.files st.sockfd = files at *
  have hstep : step l.coord (.hello (helloEnv tls files l.cache st.peer) f.payload) =
      (onHello l.coord (helloEnv tls files l.cache st.peer) f.payload).1 := step_hello hx _ _
  have hreach : Reaches step Occurs l.coord
      (onHello l.coord (helloEnv tls files l.cache st.peer) f.payload).1 := by
    rw [← hstep]
    exact .single ⟨hx, trivial⟩
  have hroster := hs.roster.step (.hello (helloEnv tls files l.cache st.peer) f.payload)
  have hrun := step_exited_kept hx
    (e := .hello (helloEnv tls files l.cache st.peer) f.payload) fun env => by simp
  rw [hstep] at hroster hrun
  have hgrow := hs.bound.grow hfile
  have hsigners := onHello_signers l.coord (helloEnv tls files l.cache st.peer) f.payload
  have hreg (pid : Nat) :
      (onHello l.coord (helloEnv tls files l.cache st.peer) f.payload).2 = .ok pid →
        Registers l.coord (helloEnv tls files l.cache st.peer) f.payload pid := onHello_registers
  generalize onHello l.coord (helloEnv tls files l.cache st.peer) f.payload = r at *
  obtain ⟨c, res⟩ := r
  cases res with
  | error text =>
    refine ⟨hl, ⟨hroster, fun i hi => hgrow i ?_, fun _ => hrun⟩, hreach, hfile⟩
    have hsig := hsigners.1 text rfl
    exact hsig ▸ hi
  | ok pid =>
    obtain ⟨key, hkey, hpres⟩ := registers_presents (hreg pid rfl)
    refine ⟨hl, ⟨hroster, fun i hi => ?_, fun _ => hrun⟩, hreach, hfile⟩
    have hmem : i ∈ pid :: l.coord.signers := hsigners.2 pid rfl ▸ hi
    show ∃ k, _ ∧ Presents tls ((Function.update l.conn pid (.fresh st.sockfd st.peer)) i).peer k
    by_cases hip : i = pid
    · subst hip
      rw [Function.update_self]
      exact ⟨key, hkey, hpres⟩
    · rw [Function.update_of_ne hip]
      exact hgrow i ((List.mem_cons.mp hmem).resolve_left hip)

theorem serviceStaged_block (st : Staged) : Block tls w l (serviceStaged tls w sets l st) := by
  unfold serviceStaged
  split
  · unfold drainStagedWrite
    split
    · exact keep_block st
    split
    · exact .refl
    · exact keep_block _
    · exact .refl
  split
  · exact keep_block st
  split
  · exact .refl
  · exact keep_block _
  · exact onStagedFrame_block _ _

theorem serviceStaged_all (sets : Sets) (sts : List Staged) : ∀ {l : Loop Key},
    Block tls w l (sts.foldl (serviceStaged tls w sets) l) := by
  induction sts with
  | nil => exact .refl
  | cons st sts ih => exact (serviceStaged_block st).trans ih

/-! ## A pass -/

theorem service_block : Block tls w l (l.service tls w sets) := by
  have hcleared : Block tls w l { l with staged := [] } := .aside rfl rfl rfl rfl
  have hstaged := hcleared.trans (serviceStaged_all sets l.staged)
  refine hstaged.trans fun hs hl => ?_
  exact serviceSigners_block hs.roster.distinct (fun i hi => hi) hs hl

theorem accept_block : Block tls w l (l.accept w) := by
  unfold Loop.accept
  split
  · exact .refl
  · exact .aside rfl rfl rfl rfl

theorem expire_block : Block tls w l (l.expire w) := by
  unfold Loop.expire
  split
  · next h =>
    intro hs hl
    have hx := hs.running hl
    refine Block.event (e := .expire w.now w.scan) (fun hx => ⟨hx, h⟩) ?_ (fun env => by simp)
      (fun i hi => ?_) hs hl
    · rw [step_expire hx, if_pos h]
    · have hview := (roastExpireSessions_roastOnly l.coord w.now w.scan).rosterView
      exact signers_of_view hview ▸ hi
  · exact .refl

/-- **One pass** is a run of events. It is the last one if the loop is left at its head, or
if `select` fails. -/
theorem pass_advanced (hs : Sound tls l) (w : World) : Advanced tls w l (pass tls l w) ∧
    ((pass tls l w).left = true →
      l.left = true ∨ (pass tls l w).coord.exited = true ∨ w.select = .failed) := by
  unfold pass
  split
  · next hl => exact ⟨⟨hs, .refl _, .refl _⟩, fun _ => .inl hl⟩
  next hl =>
  have hl : l.left = false := by simpa using hl
  have hx := hs.running hl
  have hstep : step l.coord (.loopHead w.tbs) = loopHead l.coord w.tbs := step_loopHead hx _
  have hreach : Reaches step Occurs l.coord (loopHead l.coord w.tbs) := by
    rw [← hstep]
    exact .single ⟨hx, trivial⟩
  have hview := loopHead_rosterView (c := l.coord) w.tbs
  have hsig := signers_of_view hview
  have hroster := hs.roster.congr hview
  have hbound : ∀ b : Bool, Bound tls { l with coord := loopHead l.coord w.tbs, left := b } :=
    fun b i hi => hs.bound i (hsig ▸ hi)
  dsimp only
  generalize loopHead l.coord w.tbs = c at *
  split
  · next hout =>
    exact ⟨⟨⟨hroster, hbound true, fun h => by cases h⟩, hreach, .refl _⟩,
      fun _ => .inr (.inl hout)⟩
  next hout =>
  have hout : c.exited = false := by simpa using hout
  have hhead : Advanced tls w l { l with coord := c } :=
    ⟨⟨hroster, by simpa [hl] using hbound false, fun _ => hout⟩, hreach, .refl _⟩
  have hthen {l' : Loop Key} (h : Block tls w { l with coord := c } l') : Advanced tls w l l' ∧
      (l'.left = true → l.left = true ∨ l'.coord.exited = true ∨ w.select = .failed) := by
    obtain ⟨hleft, ha⟩ := h hhead.sound hl
    exact ⟨hhead.trans ha, fun h' => by rw [hleft] at h'; cases h'⟩
  cases hsel : w.select with
  | interrupted => exact ⟨hhead, fun h => .inl h⟩
  | failed =>
    exact ⟨⟨⟨hroster, hbound true, fun h => by cases h⟩, hreach, .refl _⟩,
      fun _ => .inr (.inr rfl)⟩
  | timeout => simpa [hsel] using hthen expire_block
  | ready read write =>
    simpa [hsel] using hthen (expire_block.trans (accept_block.trans service_block))

/-! ## The life of the process -/

theorem Started.sound {c : Coord} (h : Started c) : Sound tls (Loop.boot c : Loop Key) where
  roster := h.roster
  bound := fun i hi => by
    have hi : i ∈ c.signers := hi
    rw [h.unused.signers] at hi
    cases hi
  running := fun _ => h.unused.exited

theorem run_sound (hs : Sound tls l) (ws : List World) : Sound tls (run (pass tls) l ws) :=
  run_invariant (I := Sound tls) (fun _ w h => (pass_advanced h w).1.sound) hs

theorem run_left (hs : Sound tls l) (ws : List World) (h : (run (pass tls) l ws).left = true) :
    l.left = true ∨ (run (pass tls) l ws).coord.exited = true ∨ ∃ w ∈ ws, w.select = .failed := by
  induction ws using List.reverseRecOn with
  | nil => exact .inl h
  | append_singleton ws w ih =>
    rw [run_concat] at h ⊢
    rcases (pass_advanced (run_sound hs ws) w).2 h with hl | hx | hf
    · rcases ih hl with h0 | hx | ⟨w', hw', hf⟩
      · exact .inl h0
      · right
        left
        -- nothing happens once the loop is left
        have hstay : pass tls (run (pass tls) l ws) w = run (pass tls) l ws := if_pos hl
        rw [hstay]
        exact hx
      · exact .inr (.inr ⟨w', List.mem_append_left _ hw', hf⟩)
    · exact .inr (.inl hx)
    · exact .inr (.inr ⟨w, by simp, hf⟩)

def plainTls : Gnutls Bytes Bytes := ⟨some, some, some, some⟩

def sampleArgs : List Bytes := [ascii "sign", ascii "--principal", ascii "a"]

def sampleStart : StartEnv := ⟨some (ascii "01"), sampleTbs, true⟩

/-- A pass in which socket 7 can be read. -/
def sampleWorld (accepted : Option (Nat × Peer)) (r : Recv) : World where
  tbs := sampleTbs
  select := .ready (fun fd => fd = 7) fun _ => false
  now := 0
  scan := fun _ => quietEnv
  accepted := accepted
  recv := fun _ => r
  send := fun _ => .failed
  stale := fun _ _ => 0
  files := fun _ path =>
    if path = signerCrt 1 ∨ path = signerOaepCrt 1 then some [1] else none
  env := fun _ => quietEnv

/-- The `HELLO` comes in two pieces. -/
def sampleWorlds : List World :=
  let hello : Frame := ⟨.hello, List.replicate frameSigSize 0, printThree helloWord 1 2 2⟩
  [sampleWorld (some (7, ⟨true, [[1]]⟩)) .ended, sampleWorld none (.bytes (hello.bytes.take 100)),
    sampleWorld none (.bytes (hello.bytes.drop 100))]

/-- The start and the first passes. -/
def sampleCoord : Coord :=
  (prepareTbs (Coord.boot .sign 0 0 1 86400 1 [1] (some [1])) sampleTbs).1

theorem run_grows (hs : Sound tls l) (ws : List World) :
    (∀ i key, l.cache.pub i = some key → (run (pass tls) l ws).cache.pub i = some key) ∧
    ∀ i key, (run (pass tls) l ws).cache.pub i = some key → l.cache.pub i = some key ∨
      ∃ w ∈ ws, ∃ fd, tls.fileKey (w.files fd) (signerCrt i) = some key := by
  induction ws using List.reverseRecOn with
  | nil => exact ⟨fun _ _ h => h, fun _ _ h => .inl h⟩
  | append_singleton ws w ih =>
    have hg := (pass_advanced (run_sound hs ws) w).1.grows
    rw [run_concat]
    refine ⟨fun i key h => hg.kept i key (ih.1 i key h), fun i key h => ?_⟩
    rcases hg.new i key h with hk | ⟨fd, hfd⟩
    · rcases ih.2 i key hk with h0 | ⟨w', hw', fd, hfd⟩
      · exact .inl h0
      · exact .inr ⟨w', List.mem_append_left _ hw', fd, hfd⟩
    · exact .inr ⟨w, by simp, fd, hfd⟩

/-- One leaf certificate holds one key. -/
theorem Presents.same {sess : Peer} {a b : Key} (ha : Presents tls sess a)
    (hb : Presents tls sess b) : tls.sameKey a b = true := by
  obtain ⟨-, leaf, rest, k, hc, hk, hka⟩ := ha
  obtain ⟨-, leaf', rest', k', hc', hk', hkb⟩ := hb
  rw [hc] at hc'
  cases hc'
  rw [hk] at hk'
  cases hk'
  obtain ⟨d, h1, h2⟩ := sameKey_iff.mp hka
  obtain ⟨d', h1', h2'⟩ := sameKey_iff.mp hkb
  rw [h1] at h1'
  cases h1'
  exact sameKey_iff.mpr ⟨d, h2, h2'⟩

/-- The key that a claim of `id` is checked against. -/
def CheckedKey (tls : Gnutls Cert Key) (files : Files) (cache : KeyCache Key) (id : Nat)
    (key : Key) : Prop :=
  cache.pub id = some key ∨ cache.pub id = none ∧ tls.fileKey files (signerCrt id) = some key ∧
    (tls.fileKey files (signerOaepCrt id)).isSome = true

theorem ensure_iff {files : Files} {cache : KeyCache Key} {id : Nat} (hid : 1 ≤ id)
    (hmax : id ≤ maxSigners) {key : Key} :
    (ensureSignerPubkeyCached tls files cache id).2 = true ∧
      (ensureSignerPubkeyCached tls files cache id).1.pub id = some key ↔
    CheckedKey tls files cache id key := by
  unfold ensureSignerPubkeyCached CheckedKey loadSignerPubkey
  rw [if_neg (by omega)]
  cases hc : cache.pub id with
  | some k => simp [hc]
  | none =>
    cases tls.fileKey files (signerCrt id) with
    | none => simp [hc]
    | some p =>
      cases tls.fileKey files (signerOaepCrt id) with
      | none => simp [hc]
      | some q => simp

/-- **A `HELLO` registers** exactly if it is well formed and of this ceremony, its id is free,
and the connection has presented the key on file for it. -/
theorem registers_iff {files : Files} {cache : KeyCache Key} {peer : Peer} {c : Coord}
    {payload : Bytes} {pid : Nat} :
    (onHello c (helloEnv tls files cache peer) payload).2 = .ok pid ↔
      (∃ pn pt, parseHello payload = some (pid, pn, pt) ∧ (c.n = 0 ∨ c.n = pn ∧ c.t = pt)) ∧
      pid ∉ c.signers ∧ ∃ key, CheckedKey tls files cache pid key ∧ Presents tls peer key := by
  constructor
  · intro h
    obtain ⟨⟨pn, pt, hp, hnt⟩, hcached, hid, hnew⟩ := onHello_registers h
    obtain ⟨h1, h2, -, h4, -, -⟩ := parseHello_some hp
    obtain ⟨-, key, hkey, hpres⟩ := verifyPeer_iff.mp hid
    exact ⟨⟨pn, pt, hp, hnt⟩, hnew, key,
      (ensure_iff h1 (by omega)).mp ⟨hcached, hkey⟩, hpres⟩
  · rintro ⟨⟨pn, pt, hp, hnt⟩, hnew, key, hkey, hpres⟩
    obtain ⟨h1, h2, -, h4, -, -⟩ := parseHello_some hp
    have hmax : pid ≤ maxSigners := by omega
    obtain ⟨hcached, hentry⟩ := (ensure_iff h1 hmax).mpr hkey
    have hyes : (helloEnv tls files cache peer).pubkeyCached pid = true := hcached
    have hid : (helloEnv tls files cache peer).identityOk pid = true :=
      verifyPeer_iff.mpr ⟨hmax, key, hentry, hpres⟩
    unfold onHello
    rw [hp]
    dsimp only
    rw [if_neg (by omega)]
    generalize hd : (if c.n = 0 then { c with n := pn, t := pt } else c) = d
    have hs : d.signers = c.signers := by
      rw [← hd]
      split <;> rfl
    simp only [hyes, hid, Bool.not_true, Bool.false_eq_true, if_false]
    rw [if_neg (hs ▸ hnew)]

/-- **Identity.** In every state the loop reaches, each registered signer is on a connection
whose leaf certificate holds the key on file for its id. That key was read from the
certificate file of this id and is never replaced. One certificate stands for two
registered signers only if their keys on file are the same, and a `HELLO` registers
exactly the id whose key its connection has presented. -/
theorem identity_binding (tls : Gnutls Cert Key) {c : Coord} (h0 : Started c) (ws : List World) :
    let l := run (pass tls) (Loop.boot c) ws
    (∀ i ∈ l.coord.signers, ∃ key, l.cache.pub i = some key ∧
      Presents tls (l.conn i).peer key) ∧
    (∀ i key, l.cache.pub i = some key →
      (∃ w ∈ ws, ∃ fd, tls.fileKey (w.files fd) (signerCrt i) = some key) ∧
      ∀ ws', (run (pass tls) l ws').cache.pub i = some key) ∧
    (∀ i ∈ l.coord.signers, ∀ j ∈ l.coord.signers, (l.conn i).peer = (l.conn j).peer →
      ∀ a b, l.cache.pub i = some a → l.cache.pub j = some b → tls.sameKey a b = true) ∧
    ∀ files peer payload pid,
      (onHello l.coord (helloEnv tls files l.cache peer) payload).2 = .ok pid ↔
        (∃ pn pt, parseHello payload = some (pid, pn, pt) ∧
          (l.coord.n = 0 ∨ l.coord.n = pn ∧ l.coord.t = pt)) ∧
        pid ∉ l.coord.signers ∧
        ∃ key, CheckedKey tls files l.cache pid key ∧ Presents tls peer key := by
  have hs : Sound tls (Loop.boot c) := h0.sound
  have hl := run_sound hs ws
  refine ⟨hl.bound, fun i key h => ⟨?_, fun ws' => (run_grows hl ws').1 i key h⟩,
    fun i hi j hj hpeer a b ha hb => ?_, fun files peer payload pid => registers_iff⟩
  · rcases (run_grows hs ws).2 i key h with hempty | hfile
    · cases hempty
    · exact hfile
  · obtain ⟨ki, hki, hpi⟩ := hl.bound i hi
    obtain ⟨kj, hkj, hpj⟩ := hl.bound j hj
    rw [ha] at hki
    cases hki
    rw [hb] at hkj
    cases hkj
    rw [← hpeer] at hpj
    exact Presents.same hpi hpj

/-! Two signers with one certificate, whose keys on file differ but in what is not in their
encoding. -/

def headTls : Gnutls Bytes Bytes := { plainTls with exportDer := fun key => some (key.take 1) }

/-- A pass in which one socket can be read, with two keys on file. -/
def pairWorld (fd : Nat) (accepted : Option (Nat × Peer)) (r : Recv) : World :=
  { sampleWorld accepted r with
    select := .ready (fun x => x = fd) fun _ => false
    files := fun _ path =>
      if path = signerCrt 1 ∨ path = signerOaepCrt 1 then some [1, 1]
      else if path = signerCrt 2 ∨ path = signerOaepCrt 2 then some [1, 2]
      else none }

def pairWorlds : List World :=
  let hello (i : Nat) : Frame :=
    ⟨.hello, List.replicate frameSigSize 0, printThree helloWord i 2 2⟩
  [pairWorld 7 (some (7, ⟨true, [[1, 0]]⟩)) .ended, pairWorld 7 none (.bytes (hello 1).bytes),
    pairWorld 8 (some (8, ⟨true, [[1, 0]]⟩)) .ended, pairWorld 8 none (.bytes (hello 2).bytes)]

theorem identity_binding_run :
    let l := run (pass headTls) (Loop.boot sampleCoord) pairWorlds
    (∀ i ∈ ([1, 2] : List Nat), i ∈ l.coord.signers ∧
      l.cache.pub i = some [1, UInt8.ofNat i] ∧
      Presents headTls (l.conn i).peer [1, UInt8.ofNat i]) ∧
    headTls.sameKey [1, 1] [1, 2] = true := by
  have h0 : Started sampleCoord := .sign 0 0 1 86400 1 [1] sampleTbs (by decide) (by decide)
    (by decide) (by decide) (by decide) rfl
  obtain ⟨hbound, -, hsame, -⟩ := identity_binding headTls h0 pairWorlds
  have hin : ∀ i ∈ ([1, 2] : List Nat),
      i ∈ (run (pass headTls) (Loop.boot sampleCoord) pairWorlds).coord.signers := by
    decide +kernel
  have hcache : ∀ i ∈ ([1, 2] : List Nat),
      (run (pass headTls) (Loop.boot sampleCoord) pairWorlds).cache.pub i =
        some [1, UInt8.ofNat i] := by decide +kernel
  have hpeer : ((run (pass headTls) (Loop.boot sampleCoord) pairWorlds).conn 1).peer =
      ((run (pass headTls) (Loop.boot sampleCoord) pairWorlds).conn 2).peer := by
    decide +kernel
  refine ⟨fun i hi => ⟨hin i hi, hcache i hi, ?_⟩, ?_⟩
  · obtain ⟨key, hkey, hpres⟩ := hbound i (hin i hi)
    rw [hcache i hi] at hkey
    cases hkey
    exact hpres
  · exact hsame 1 (hin 1 (by decide)) 2 (hin 2 (by decide)) hpeer _ _ (hcache 1 (by decide))
      (hcache 2 (by decide))

end FrostSshCa.Coordinator
