import FrostSshCa.Lib.Run
import Mathlib.Data.List.Basic
import Mathlib.Algebra.GroupWithZero.Nat

/-!
# Messages over a record channel

A sender writes the messages of a FIFO piece by piece; each write becomes a
record of the channel, and one read returns bytes of a single record. The
receiver collects what it reads in a buffer of capacity `cap` and, when the
buffer is a message (`parse`), hands it on and starts over with an empty buffer.

`Channel.Inv` relates the two sides: no record crosses the end of a message.
It makes the receiver's discarding of the buffer harmless, and `channel_exact`
follows: what is handed on is what was sent, in order and once each.
-/

namespace FrostSshCa.Lib

universe u v

variable {β : Type u} {α : Type v}

/-- A message being sent: its bytes, and how many are gone. -/
structure OutMsg (β : Type u) where
  data : List β
  sent : Nat
  deriving DecidableEq

structure Channel (β : Type u) (α : Type v) where
  /-- The sender's FIFO. -/
  queue : List (OutMsg β)
  /-- The records under way, with what is left of the first. -/
  records : List (List β)
  /-- What the receiver has of the message to come. -/
  buf : List β
  /-- What the receiver has handed on. -/
  out : List α
  /-- A read with no room left has closed the channel. -/
  closed : Bool

inductive Channel.Event (β : Type u) where
  /-- Queue a message. -/
  | push (data : List β)
  /-- A write that takes `k` bytes of the first message; none for "try again". -/
  | send (k : Nat)
  /-- A read that returns `k` bytes; none for "try again". -/
  | recv (k : Nat)

namespace Channel

def empty : Channel β α := ⟨[], [], [], [], false⟩

/-- A write takes what is there of the first message and at most that. -/
def doSend (k : Nat) (s : Channel β α) : Channel β α :=
  match s.queue with
  | [] => s
  | m :: ms =>
    let chunk := (m.data.drop m.sent).take k
    if chunk.length = 0 then s
    else { s with
      records := s.records ++ [chunk]
      queue := if m.sent + chunk.length ≥ m.data.length then ms
        else { m with sent := m.sent + chunk.length } :: ms }

/-- What is left of a record after `k` bytes of it were read. -/
def remainder (r : List β) (k : Nat) (rs : List (List β)) : List (List β) :=
  if (r.drop k).length = 0 then rs else r.drop k :: rs

/-- A read returns at most what there is room for, out of the first record. -/
def doRecv (cap : Nat) (parse : List β → Option α) (k : Nat) (s : Channel β α) : Channel β α :=
  match s.records with
  | [] => s
  | r :: rs =>
    if cap ≤ s.buf.length then { s with closed := true }
    else
      let chunk := r.take (min k (cap - s.buf.length))
      if chunk.length = 0 then s
      else
        let s := { s with buf := s.buf ++ chunk, records := remainder r chunk.length rs }
        match parse s.buf with
        | none => s
        | some a => { s with buf := [], out := s.out ++ [a] }

def step (cap : Nat) (parse : List β → Option α) (s : Channel β α) : Event β → Channel β α
  | .push data => { s with queue := s.queue ++ [⟨data, 0⟩] }
  | .send k => s.doSend k
  | .recv k => if s.closed then s else s.doRecv cap parse k

/-- The messages queued along a run. -/
def pushed : List (Event β) → List (List β)
  | [] => []
  | .push data :: es => data :: pushed es
  | _ :: es => pushed es

/-- Bytes still to be written count twice, those still to be read once. -/
def outstanding (s : Channel β α) : Nat :=
  2 * (s.queue.map fun m => m.data.length - m.sent).sum + (s.records.map List.length).sum

/-! ## Framing -/

/-- `parse` recognises the encodings of `msg` at their full length and not
before, and the buffer has room for them. -/
structure Framing (cap : Nat) (parse : List β → Option α) (enc : α → List β) (a : α) : Prop where
  nonempty : enc a ≠ []
  fits : (enc a).length ≤ cap
  whole : parse (enc a) = some a
  early : ∀ p r, p ++ r = enc a → r ≠ [] → parse p = none

/-- The rest of the channel, from the receiver's buffer on, carries the messages
`as`: `buf` and the records up to a boundary make up a message each, and the
last of them may be in the sender's queue in part. -/
def Carries (enc : α → List β) (queue : List (OutMsg β)) :
    List β → List (List β) → List α → Prop
  | buf, [], [] => buf = [] ∧ queue = []
  | buf, [], a :: as => buf.length < (enc a).length ∧
      queue = ⟨enc a, buf.length⟩ :: as.map (fun a => ⟨enc a, 0⟩) ∧ (enc a).take buf.length = buf
  | _, _ :: _, [] => False
  | buf, r :: rs, a :: as => r ≠ [] ∧
      ((∃ q, q ≠ [] ∧ buf ++ r ++ q = enc a ∧ Carries enc queue (buf ++ r) rs (a :: as)) ∨
        (buf ++ r = enc a ∧ Carries enc queue [] rs as))

/-- What was pushed is what came out and what the channel still carries. -/
structure Inv (cap : Nat) (parse : List β → Option α) (enc : α → List β) (msgs : List α)
    (s : Channel β α) : Prop where
  open_ : s.closed = false
  carried : ∃ rest, msgs = s.out ++ rest ∧ Carries enc s.queue s.buf s.records rest ∧
    ∀ a ∈ rest, Framing cap parse enc a

/-! ## What an event does to the carried messages -/

variable {cap : Nat} {parse : List β → Option α} {enc : α → List β}
variable {queue : List (OutMsg β)} {msgs : List α} {s : Channel β α}

theorem carries_idle (h : ∀ a ∈ msgs, enc a ≠ []) :
    Carries enc (msgs.map fun a => ⟨enc a, 0⟩) [] [] msgs := by
  cases msgs with
  | nil => exact ⟨rfl, rfl⟩
  | cons a as => exact ⟨List.length_pos_iff.mpr (h a (List.mem_cons_self ..)), rfl, rfl⟩

theorem Carries.push {a : α} (ha : enc a ≠ []) {rs : List (List β)} :
    ∀ {buf : List β} {as : List α}, Carries enc queue buf rs as →
      Carries enc (queue ++ [⟨enc a, 0⟩]) buf rs (as ++ [a]) := by
  induction rs with
  | nil =>
    intro buf as h
    cases as with
    | nil =>
      obtain ⟨rfl, rfl⟩ := h
      exact ⟨List.length_pos_iff.mpr ha, rfl, rfl⟩
    | cons b as =>
      obtain ⟨h1, rfl, h3⟩ := h
      exact ⟨h1, by simp, h3⟩
  | cons r rs ih =>
    intro buf as h
    cases as with
    | nil => exact h.elim
    | cons b as =>
      obtain ⟨hr, ⟨q, hq, e, h⟩ | ⟨e, h⟩⟩ := h
      · exact ⟨hr, .inl ⟨q, hq, e, ih h⟩⟩
      · exact ⟨hr, .inr ⟨e, ih h⟩⟩

/-- A write appends a record that ends where the message does, or before. -/
theorem Carries.send {m : OutMsg β} {ms : List (OutMsg β)} {k : Nat}
    (hk : ((m.data.drop m.sent).take k) ≠ []) {rs : List (List β)} :
    ∀ {buf : List β} {as : List α}, (∀ a ∈ as, enc a ≠ []) → Carries enc (m :: ms) buf rs as →
      Carries enc (if m.sent + ((m.data.drop m.sent).take k).length ≥ m.data.length then ms
        else { m with sent := m.sent + ((m.data.drop m.sent).take k).length } :: ms) buf
        (rs ++ [(m.data.drop m.sent).take k]) as := by
  induction rs with
  | nil =>
    intro buf as hne h
    cases as with
    | nil => cases h.2
    | cons a as =>
      obtain ⟨hlt, hq, htake⟩ := h
      obtain ⟨rfl, rfl⟩ := List.cons.inj hq
      have hsplit : buf ++ ((enc a).drop buf.length).take k ++
          ((enc a).drop buf.length).drop k = enc a := by
        rw [List.append_assoc, List.take_append_drop]
        nth_rewrite 1 [← htake]
        exact List.take_append_drop ..
      have hlen := congrArg List.length hsplit
      simp only [List.length_append] at hlen
      refine ⟨hk, ?_⟩
      dsimp only
      by_cases hend : buf.length + (((enc a).drop buf.length).take k).length ≥ (enc a).length
      · rw [if_pos hend]
        have hnil : ((enc a).drop buf.length).drop k = [] :=
          List.eq_nil_of_length_eq_zero (by omega)
        rw [hnil, List.append_nil] at hsplit
        exact .inr ⟨hsplit, carries_idle fun b hb => hne b (List.mem_cons_of_mem _ hb)⟩
      · rw [if_neg hend]
        have hl : (buf ++ ((enc a).drop buf.length).take k).length < (enc a).length := by
          rw [List.length_append]; omega
        refine .inl ⟨((enc a).drop buf.length).drop k, ?_, hsplit,
          hl, by rw [List.length_append], ?_⟩
        · intro hnil
          rw [hnil, List.length_nil] at hlen
          omega
        · nth_rewrite 2 [← hsplit]
          exact List.take_left' rfl
  | cons r rs ih =>
    intro buf as hne h
    cases as with
    | nil => exact h.elim
    | cons a as =>
      obtain ⟨hr, ⟨q, hq, e, h⟩ | ⟨e, h⟩⟩ := h
      · exact ⟨hr, .inl ⟨q, hq, e, ih hne h⟩⟩
      · exact ⟨hr, .inr ⟨e, ih (fun b hb => hne b (List.mem_cons_of_mem _ hb)) h⟩⟩

/-- A read either leaves the message at hand incomplete or ends it exactly. -/
theorem Carries.recv {buf r : List β} {rs : List (List β)} {as : List α} {n : Nat} (hn : 0 < n)
    (hnr : n ≤ r.length) (h : Carries enc queue buf (r :: rs) as) :
    ∃ a as', as = a :: as' ∧
      ((∃ q, q ≠ [] ∧ buf ++ r.take n ++ q = enc a ∧
          Carries enc queue (buf ++ r.take n) (remainder r n rs) (a :: as')) ∨
        (buf ++ r.take n = enc a ∧ Carries enc queue [] (remainder r n rs) as')) := by
  cases as with
  | nil => exact h.elim
  | cons a as =>
    refine ⟨a, as, rfl, ?_⟩
    obtain ⟨-, h⟩ := h
    by_cases hall : n = r.length
    · subst hall
      have hrem : remainder r r.length rs = rs := if_pos (by simp)
      rw [hrem, List.take_length]
      exact h
    · have hdrop : r.drop n ≠ [] := by
        intro e
        have := congrArg List.length e
        rw [List.length_drop, List.length_nil] at this
        omega
      have hrem : remainder r n rs = r.drop n :: rs :=
        if_neg fun e => hdrop (List.eq_nil_of_length_eq_zero e)
      have hsplit : buf ++ r.take n ++ r.drop n = buf ++ r := by
        rw [List.append_assoc, List.take_append_drop]
      rw [hrem]
      obtain ⟨q, hq, e, h⟩ | ⟨e, h⟩ := h
      · refine .inl ⟨r.drop n ++ q, by simp [hq], ?_, hdrop, .inl ⟨q, hq, ?_, ?_⟩⟩
        · rw [← List.append_assoc, hsplit, e]
        · rw [hsplit, e]
        · rw [hsplit]; exact h
      · refine .inl ⟨r.drop n, hdrop, by rw [hsplit, e], hdrop, .inr ⟨by rw [hsplit, e], h⟩⟩

/-- The buffer holds less than the message it is part of. -/
theorem Carries.buf_lt {buf : List β} {rs : List (List β)} {as : List α}
    (h : Carries enc queue buf rs as) : buf = [] ∨ ∃ a ∈ as, buf.length < (enc a).length := by
  match rs, as, h with
  | [], [], h => exact .inl h.1
  | [], a :: as, h => exact .inr ⟨a, List.mem_cons_self .., h.1⟩
  | r :: rs, [], h => exact h.elim
  | r :: rs, a :: as, h =>
    obtain ⟨hr, h⟩ := h
    have hpos := List.length_pos_iff.mpr hr
    refine .inr ⟨a, List.mem_cons_self .., ?_⟩
    obtain ⟨q, -, e, -⟩ | ⟨e, -⟩ := h
    · rw [← e, List.length_append, List.length_append]
      omega
    · rw [← e, List.length_append]
      omega

/-! ## The invariant -/

theorem Inv.start : Inv cap parse enc [] (empty : Channel β α) :=
  ⟨rfl, [], rfl, ⟨rfl, rfl⟩, nofun⟩

/-- There is always room to read. -/
theorem Inv.room (hcap : 0 < cap) (h : Inv cap parse enc msgs s) : s.buf.length < cap := by
  obtain ⟨-, rest, -, hc, hf⟩ := h
  rcases hc.buf_lt with e | ⟨a, ha, hlt⟩
  · rw [e]
    exact hcap
  · have := (hf a ha).fits
    omega

theorem Inv.push (h : Inv cap parse enc msgs s) {a : α} (ha : Framing cap parse enc a) :
    Inv cap parse enc (msgs ++ [a]) (step cap parse s (.push (enc a))) := by
  obtain ⟨ho, rest, e, hc, hf⟩ := h
  refine ⟨ho, rest ++ [a], by rw [e, List.append_assoc]; rfl, hc.push ha.nonempty, ?_⟩
  intro b hb
  rcases List.mem_append.mp hb with hb | hb
  · exact hf b hb
  · rw [List.mem_singleton.mp hb]
    exact ha

theorem Inv.send (h : Inv cap parse enc msgs s) (k : Nat) :
    Inv cap parse enc msgs (step cap parse s (.send k)) := by
  obtain ⟨ho, rest, e, hc, hf⟩ := h
  show Inv cap parse enc msgs (s.doSend k)
  unfold doSend
  split
  · exact ⟨ho, rest, e, hc, hf⟩
  · next m ms hq =>
    rw [hq] at hc
    dsimp only
    split
    · exact ⟨ho, rest, e, hq ▸ hc, hf⟩
    · next hk =>
      have hk' : (m.data.drop m.sent).take k ≠ [] := fun e => hk (by rw [e]; rfl)
      exact ⟨ho, rest, e, hc.send hk' fun a ha => (hf a ha).nonempty, hf⟩

theorem Inv.recv (hcap : 0 < cap) (h : Inv cap parse enc msgs s) (k : Nat) :
    Inv cap parse enc msgs (step cap parse s (.recv k)) := by
  have hroom := h.room hcap
  obtain ⟨ho, rest, e, hc, hf⟩ := h
  simp only [step, ho, Bool.false_eq_true, if_false]
  unfold doRecv
  split
  · exact ⟨ho, rest, e, hc, hf⟩
  · next r rs hr =>
    rw [hr] at hc
    rw [if_neg (by omega)]
    dsimp only
    split
    · exact ⟨ho, rest, e, hr ▸ hc, hf⟩
    · next hn =>
      have hlen := List.length_take_le (min k (cap - s.buf.length)) r
      have hle := List.length_take_le' (min k (cap - s.buf.length)) r
      have hchunk : r.take (min k (cap - s.buf.length)) =
          r.take (r.take (min k (cap - s.buf.length))).length := by
        rw [List.length_take]
        exact List.take_eq_take_min
      generalize (r.take (min k (cap - s.buf.length))).length = n at *
      rw [hchunk]
      obtain ⟨a, as, rfl, ⟨q, hq, eq, hc⟩ | ⟨eq, hc⟩⟩ := hc.recv (Nat.pos_of_ne_zero hn) hle
      · rw [(hf a (List.mem_cons_self ..)).early _ _ eq hq]
        exact ⟨ho, a :: as, e, hc, hf⟩
      · rw [eq, (hf a (List.mem_cons_self ..)).whole]
        refine ⟨ho, as, ?_, hc, fun b hb => hf b (List.mem_cons_of_mem _ hb)⟩
        rw [e, List.append_assoc]
        rfl

/-- **The run rule**: messages of the framing keep the invariant, however they
are cut into writes and reads. -/
theorem Inv.run (hcap : 0 < cap) {es : List (Event β)} :
    ∀ {msgs ms : List α} {s : Channel β α}, Inv cap parse enc msgs s → pushed es = ms.map enc →
      (∀ a ∈ ms, Framing cap parse enc a) →
      Inv cap parse enc (msgs ++ ms) (Lib.run (step cap parse) s es) := by
  induction es with
  | nil =>
    intro msgs ms s h hp _
    have hms : ms = [] := List.map_eq_nil_iff.mp hp.symm
    rw [hms, List.append_nil]
    exact h
  | cons e es ih =>
    intro msgs ms s h hp hf
    cases e with
    | push data =>
      cases ms with
      | nil => cases hp
      | cons a ms =>
        obtain ⟨rfl, hp'⟩ := List.cons.inj hp
        have h' := ih (h.push (hf a (List.mem_cons_self ..))) hp'
          fun b hb => hf b (List.mem_cons_of_mem _ hb)
        rw [List.append_assoc] at h'
        exact h'
    | send k => exact ih (h.send k) hp hf
    | recv k => exact ih (h.recv hcap k) hp hf

/-- Nothing is under way: everything has come out. -/
theorem Inv.settled (h : Inv cap parse enc msgs s) (hq : s.queue = []) (hr : s.records = []) :
    s.out = msgs := by
  obtain ⟨-, rest, e, hc, -⟩ := h
  rw [hq, hr] at hc
  cases rest with
  | nil => rw [e, List.append_nil]
  | cons a as => cases hc.2.1

/-! ## Progress -/

theorem sum_remainder (r : List β) (k : Nat) (rs : List (List β)) :
    ((remainder r k rs).map List.length).sum = r.length - k + (rs.map List.length).sum := by
  unfold remainder
  split
  · next h =>
    rw [List.length_drop] at h
    omega
  · rw [List.map_cons, List.sum_cons, List.length_drop]

theorem Carries.queue_pos {m : OutMsg β} {ms : List (OutMsg β)} {rs : List (List β)} :
    ∀ {buf : List β} {as : List α}, (∀ a ∈ as, enc a ≠ []) → Carries enc (m :: ms) buf rs as →
      m.sent < m.data.length := by
  induction rs with
  | nil =>
    intro buf as _ h
    cases as with
    | nil => cases h.2
    | cons a as =>
      obtain ⟨hlt, hq, -⟩ := h
      obtain ⟨rfl, -⟩ := List.cons.inj hq
      exact hlt
  | cons r rs ih =>
    intro buf as hne h
    cases as with
    | nil => exact h.elim
    | cons a as =>
      obtain ⟨-, ⟨q, -, -, h⟩ | ⟨-, h⟩⟩ := h
      · exact ih hne h
      · exact ih (fun b hb => hne b (List.mem_cons_of_mem _ hb)) h

theorem Carries.record_ne {buf r : List β} {rs : List (List β)} {as : List α}
    (h : Carries enc queue buf (r :: rs) as) : r ≠ [] := by
  cases as with
  | nil => exact h.elim
  | cons a as => exact h.1

/-- A write of one byte gets the channel nearer to its end. -/
theorem Inv.send_lt (h : Inv cap parse enc msgs s) (hq : s.queue ≠ []) :
    (step cap parse s (.send 1)).outstanding < s.outstanding := by
  obtain ⟨-, rest, -, hc, hf⟩ := h
  show (s.doSend 1).outstanding < _
  unfold doSend
  split
  · next e => exact absurd e hq
  · next m ms e =>
    rw [e] at hc
    have hlt := hc.queue_pos fun a ha => (hf a ha).nonempty
    have hlen : ((m.data.drop m.sent).take 1).length = 1 := by
      rw [List.length_take, List.length_drop]
      omega
    dsimp only
    rw [hlen, if_neg (by omega)]
    simp only [outstanding, e, List.map_append, List.sum_append, List.map_cons, List.sum_cons,
      List.map_nil, List.sum_nil, hlen]
    split
    · omega
    · rw [List.map_cons, List.sum_cons]
      dsimp only
      omega

/-- A read of one byte does as well. -/
theorem Inv.recv_lt (hcap : 0 < cap) (h : Inv cap parse enc msgs s) (hr : s.records ≠ []) :
    (step cap parse s (.recv 1)).outstanding < s.outstanding := by
  have hroom := h.room hcap
  obtain ⟨ho, rest, -, hc, -⟩ := h
  simp only [step, ho, Bool.false_eq_true, if_false]
  unfold doRecv
  split
  · next e => exact absurd e hr
  · next r rs e =>
    rw [e] at hc
    have hpos := List.length_pos_iff.mpr hc.record_ne
    have hmin : min 1 (cap - s.buf.length) = 1 := by omega
    have hlen : (r.take 1).length = 1 := by
      rw [List.length_take]
      omega
    have hsum := sum_remainder r 1 rs
    rw [if_neg (by omega), hmin]
    dsimp only
    rw [hlen, if_neg (by omega)]
    split
    · simp only [outstanding, e, hsum, List.map_cons, List.sum_cons]
      omega
    · simp only [outstanding, e, hsum, List.map_cons, List.sum_cons]
      omega

/-- **No channel is stuck**: some writes and reads bring everything out. -/
theorem Inv.completes (hcap : 0 < cap) {n : Nat} :
    ∀ {s : Channel β α}, s.outstanding < n → Inv cap parse enc msgs s →
      ∃ es : List (Event β), pushed es = [] ∧ (Lib.run (step cap parse) s es).out = msgs := by
  induction n with
  | zero => intro s hlt; omega
  | succ n ih =>
    intro s hlt h
    by_cases hq : s.queue = []
    · by_cases hr : s.records = []
      · exact ⟨[], rfl, h.settled hq hr⟩
      · have hdec := h.recv_lt hcap hr
        obtain ⟨es, hp, e⟩ := ih (by omega) (h.recv hcap 1)
        exact ⟨.recv 1 :: es, hp, e⟩
    · have hdec := h.send_lt hq
      obtain ⟨es, hp, e⟩ := ih (by omega) (h.send 1)
      exact ⟨.send 1 :: es, hp, e⟩

/-- **A channel is exact.** After any run that queues the messages `msgs`: the
read side is open and has room, what came out is a prefix of `msgs`, it is all of
`msgs` once nothing is under way, and it can be brought to that. -/
theorem channel_exact (hcap : 0 < cap) {es : List (Event β)} (hp : pushed es = msgs.map enc)
    (hf : ∀ a ∈ msgs, Framing cap parse enc a) :
    let s := Lib.run (step cap parse) empty es
    s.closed = false ∧ s.buf.length < cap ∧ s.out <+: msgs ∧
      (s.queue = [] → s.records = [] → s.out = msgs) ∧
      ∃ es' : List (Event β), pushed es' = [] ∧ (Lib.run (step cap parse) s es').out = msgs := by
  have h := Inv.run hcap Inv.start hp hf
  rw [List.nil_append] at h
  obtain ⟨rest, e, -⟩ := h.carried
  exact ⟨h.open_, h.room hcap, ⟨rest, e.symm⟩, h.settled, h.completes hcap (Nat.lt_succ_self _)⟩

end Channel

end FrostSshCa.Lib
