import FrostSshCa.Core.Stubs

/-!
# When a stub's report is true

Each stub of `frost_stubs.c` that decodes an answer of the core, for every text and exit status:
what it returns is true of its buffers exactly where its pieces of the text stand for the lines,
and, for the two stubs of a second round and for `frost_dkg_part3`, where the lines after the
first decode if the first does.
-/

namespace FrostSshCa.Stubs

open Lib FrostSshCa.Core

variable {child : Option Child} {sizes : List Nat} {ps : List Bytes} {line bs : Bytes} {o a b : Out}
  {dec : Nat → Bytes → Option Bytes}

/-! ## Decoding -/

theorem decode_some (h : blob line = some bs) : o.decode line = ((bs.length : Int), o.write bs) ∧
    bs.length ≤ maxPayload := by
  unfold blob at h
  split at h
  · next h0 =>
    obtain ⟨hlen, hsize⟩ := length_of_success (by decide) h0
    cases h
    unfold Out.decode
    exact ⟨by rw [hlen], hsize⟩
  · cases h

theorem decode_none (h : blob line = none) : (o.decode line).1 = -1 := by
  unfold blob at h
  split at h
  · cases h
  · next h0 => exact failure_of_neg (by decide) (Int.not_le.mp h0)

theorem decode_neg (h : blob line = none) : (o.decode line).1 < 0 := by
  rw [decode_none h]
  decide

/-- A buffer that was written holds what was written. -/
theorem holds_write (h : bs.length ≤ maxPayload) : ((o.write bs).setLen bs.length).Holds bs where
  len := asUInt16_eq (by unfold maxPayload at h; omega)
  size := h
  buf := List.take_left ..

theorem Out.Holds.eq {bs' : Bytes} (h : o.Holds bs) (h' : o.Holds bs') : bs = bs' := by
  have hlen : bs.length = bs'.length := h.len.symm.trans h'.len
  rw [← h.buf, ← h'.buf, hlen]

/-! ## Lists by index -/

theorem forall_getElem?_nil {α : Type} {Q : Nat → α → Prop} :
    ∀ i a, ([] : List α)[i]? = some a → Q i a := fun i a h => by cases h

theorem forall_getElem?_cons {α : Type} {Q : Nat → α → Prop} {a : α} {l : List α} :
    (∀ i x, (a :: l)[i]? = some x → Q i x) ↔ Q 0 a ∧ ∀ i x, l[i]? = some x → Q (i + 1) x := by
  constructor
  · intro h
    exact ⟨h 0 a rfl, fun i x hx => h (i + 1) x hx⟩
  · rintro ⟨h0, h⟩ i x hx
    cases i with
    | zero => cases hx; exact h0
    | succ i => exact h i x hx

theorem forall_getElem?_rows {Q : Nat → Out → Prop} {n : Nat} {qs : Nat → PeerOut} :
    (∀ i x, (rows n qs)[i]? = some x → Q i x) ↔ ∀ i, i < n → Q i (qs i).toOut := by
  unfold rows
  constructor
  · intro h i hi
    exact h i _ (by simp [hi])
  · intro h i x hx
    have hi : i < n := by simpa using (List.getElem?_eq_some_iff.mp hx).1
    rw [List.getElem?_map, List.getElem?_range hi] at hx
    cases hx
    exact h i hi

/-! ## The lines -/

theorem readLines_eq_some {text : Bytes} : readLines sizes text = some ps ↔
    pieces sizes text = some ps ∧ ∀ p ∈ ps, (ascii "ERROR:").isPrefixOf p = false := by
  induction sizes generalizing text ps with
  | nil =>
    unfold readLines pieces
    constructor
    · intro h
      cases h
      exact ⟨rfl, List.forall_mem_nil _⟩
    · exact fun h => h.1
  | cons size sizes ih =>
    unfold readLines pieces
    cases fgets size text with
    | none => simp
    | some r =>
      obtain ⟨line, rest⟩ := r
      simp only [Option.bind_some]
      by_cases he : (ascii "ERROR:").isPrefixOf (heard line) = true
      · rw [if_pos he]
        refine ⟨fun h => (by cases h), fun ⟨h, hne⟩ => ?_⟩
        obtain ⟨qs, -, rfl⟩ := Option.map_eq_some_iff.mp h
        rw [hne _ (List.mem_cons_self ..)] at he
        exact absurd he Bool.false_ne_true
      · rw [if_neg he]
        simp only [Option.map_eq_some_iff, ih]
        constructor
        · rintro ⟨qs, ⟨h1, h2⟩, rfl⟩
          exact ⟨⟨qs, h1, rfl⟩, List.forall_mem_cons.mpr ⟨Bool.eq_false_of_not_eq_true he, h2⟩⟩
        · rintro ⟨⟨qs, h1, rfl⟩, h2⟩
          exact ⟨qs, ⟨h1, (List.forall_mem_cons.mp h2).2⟩, rfl⟩

theorem popenMulti_eq_some : popenMulti child sizes = some ps ↔
    ∃ c, child = some c ∧ Delivered sizes c ps := by
  unfold popenMulti
  cases child with
  | none => simp
  | some c =>
    simp only [Option.bind_some, Option.some.injEq]
    constructor
    · intro h
      obtain ⟨qs, hq, h⟩ := Option.bind_eq_some_iff.mp h
      split at h
      · next h0 =>
        cases h
        obtain ⟨h1, h2⟩ := readLines_eq_some.mp hq
        exact ⟨c, rfl, h0, h1, h2⟩
      · cases h
    · rintro ⟨_, rfl, h⟩
      rw [readLines_eq_some.mpr ⟨h.cut, h.noError⟩, Option.bind_some, if_pos h.status]

theorem length_pieces {text : Bytes} (h : pieces sizes text = some ps) :
    ps.length = sizes.length := by
  induction sizes generalizing text ps with
  | nil =>
    cases h
    rfl
  | cons size sizes ih =>
    unfold pieces at h
    obtain ⟨r, -, h⟩ := Option.bind_eq_some_iff.mp h
    obtain ⟨qs, hq, rfl⟩ := Option.map_eq_some_iff.mp h
    rw [List.length_cons, ih hq, List.length_cons]

theorem length_popenMulti (h : popenMulti child sizes = some ps) : ps.length = sizes.length := by
  obtain ⟨c, -, hd⟩ := popenMulti_eq_some.mp h
  exact length_pieces hd.cut

/-- The two conditions, once the lines are read. -/
theorem conditions_of_read (h : popenMulti child sizes = some ps) :
    ∃ c, child = some c ∧ c.status = 0 ∧
      (∀ dec, Placed dec sizes child ↔ (Decodes dec ps → InPlace dec c.text ps)) ∧
      (∀ dec, Whole dec sizes child ↔
        ((∀ p, ps[0]? = some p → (dec 0 p).isSome = true) → Decodes dec ps)) := by
  obtain ⟨c, hc, hd⟩ := popenMulti_eq_some.mp h
  have hsame {c' : Child} {qs : List Bytes} (hc' : child = some c') (hd' : Delivered sizes c' qs) :
      c' = c ∧ qs = ps := by
    rw [hc] at hc'
    cases hc'
    have := hd'.cut
    rw [hd.cut] at this
    cases this
    exact ⟨rfl, rfl⟩
  refine ⟨c, hc, hd.status, fun dec => ⟨fun hp => hp c ps hc hd, fun hp c' qs hc' hd' => ?_⟩,
    fun dec => ⟨fun hw => hw c ps hc hd, fun hw c' qs hc' hd' => ?_⟩⟩
  · obtain ⟨rfl, rfl⟩ := hsame hc' hd'
    exact hp
  · obtain ⟨rfl, rfl⟩ := hsame hc' hd'
    exact hw

theorem conditions_of_unread (h : popenMulti child sizes = none) :
    Placed dec sizes child ∧ Whole dec sizes child := by
  have hno {c : Child} {qs : List Bytes} (hc : child = some c) (hd : Delivered sizes c qs) :
      False := by
    have := popenMulti_eq_some.mpr ⟨c, hc, hd⟩
    rw [h] at this
    cases this
  exact ⟨fun c qs hc hd => (hno hc hd).elim, fun c qs hc hd => (hno hc hd).elim⟩

/-! ## Stubs of plain lines -/

/-- A -1 that stored no length. -/
theorem report_failed {before after : List Out} (h : after.map Out.len = before.map Out.len) :
    Report child dec before (-1) after :=
  ⟨fun h => absurd h (by decide), fun _ => h⟩

theorem list_two {α : Type} {l : List α} (h : l.length = 2) : ∃ a b, l = [a, b] := by
  obtain ⟨a, l, rfl⟩ := List.exists_cons_of_length_eq_add_one h
  obtain ⟨b, l, rfl⟩ := List.exists_cons_of_length_eq_add_one (Nat.succ.inj h)
  exact ⟨a, b, congrArg _ (congrArg _ (List.eq_nil_of_length_eq_zero (by simpa using h)))⟩

/-- Two lines that both decode, in two buffers. -/
theorem report_two_iff {c : Child} {la lb x y : Bytes} (hc : child = some c) (hs : c.status = 0)
    (hx : blob la = some x) (hy : blob lb = some y) {before : List Out} :
    Report child (fun _ => blob) before 0
        [(a.write x).setLen x.length, (b.write y).setLen y.length] ↔
      InPlace (fun _ => blob) c.text [la, lb] := by
  have hax := holds_write (o := a) (decode_some (o := a) hx).2
  have hby := holds_write (o := b) (decode_some (o := b) hy).2
  unfold InPlace
  simp only [forall_getElem?_cons, hx, hy]
  constructor
  · intro h
    obtain ⟨c', hc', -, hall⟩ := h.success rfl
    rw [hc] at hc'
    cases hc'
    simp only [forall_getElem?_cons] at hall
    obtain ⟨⟨line, bs, hl, hb, hh⟩, ⟨line', bs', hl', hb', hh'⟩, -⟩ := hall
    exact ⟨⟨line, hl, by rw [hb, hh.eq hax]⟩, ⟨line', hl', by rw [hb', hh'.eq hby]⟩,
      forall_getElem?_nil⟩
  · rintro ⟨⟨line, hl, hb⟩, ⟨line', hl', hb'⟩, -⟩
    refine ⟨fun _ => ⟨c, hc, hs, ?_⟩, fun h => absurd h (by decide)⟩
    simp only [forall_getElem?_cons]
    exact ⟨⟨line, x, hl, hb, hax⟩, ⟨line', y, hl', hb', hby⟩, forall_getElem?_nil⟩

theorem decodes_two {la lb : Bytes} : Decodes (fun _ => blob) [la, lb] ↔
    (blob la).isSome = true ∧ (blob lb).isSome = true := by
  unfold Decodes
  simp only [forall_getElem?_cons]
  exact ⟨fun h => ⟨h.1, h.2.1⟩, fun h => ⟨h.1, h.2, forall_getElem?_nil⟩⟩

variable (core : Invocation → Option Child) (inv : Option Invocation)

section TwoBlobs

variable {core inv} {la lb x y : Bytes}
  (h : popenMulti (inv.bind core) [hexLineMax, hexLineMax] = some [la, lb])

include h

theorem twoBlobs_ok (hx : blob la = some x) (hy : blob lb = some y) : twoBlobs core inv a b =
    (0, (a.write x).setLen x.length, (b.write y).setLen y.length) := by
  unfold twoBlobs
  rw [h]
  dsimp only
  rw [(decode_some hx).1, (decode_some hy).1]
  exact if_neg (by dsimp only; omega)

theorem twoBlobs_bad (hbad : blob la = none ∨ blob lb = none) : twoBlobs core inv a b =
    (-1, (a.decode la).2, (b.decode lb).2) := by
  unfold twoBlobs
  rw [h]
  exact if_pos (hbad.imp (fun h => decode_neg h) fun h => decode_neg h)

end TwoBlobs

/-- `frost_dkg_part1` and its like. -/
theorem reportsTwo_twoBlobs : ReportsTwo (inv.bind core) (twoBlobs core inv) ↔
    Placed (fun _ => blob) [hexLineMax, hexLineMax] (inv.bind core) := by
  unfold ReportsTwo
  cases h : popenMulti (inv.bind core) [hexLineMax, hexLineMax] with
  | none =>
    refine ⟨fun _ => (conditions_of_unread h).1, fun _ a b => ?_⟩
    unfold twoBlobs
    rw [h]
    exact report_failed rfl
  | some ps =>
    obtain ⟨la, lb, rfl⟩ := list_two (length_popenMulti h)
    obtain ⟨c, hc, hs, hplaced, -⟩ := conditions_of_read h
    rw [hplaced, decodes_two]
    by_cases hbad : blob la = none ∨ blob lb = none
    · refine ⟨fun _ hd => ?_, fun _ a b => ?_⟩
      · rcases hbad with hb | hb
        · rw [hb] at hd
          exact absurd hd.1 Bool.false_ne_true
        · rw [hb] at hd
          exact absurd hd.2 Bool.false_ne_true
      · rw [twoBlobs_bad h hbad]
        exact report_failed rfl
    · obtain ⟨hla, hlb⟩ := not_or.mp hbad
      obtain ⟨x, hx⟩ := Option.ne_none_iff_exists'.mp hla
      obtain ⟨y, hy⟩ := Option.ne_none_iff_exists'.mp hlb
      simp only [twoBlobs_ok h hx hy, report_two_iff hc hs hx hy, hx, hy, Option.isSome_some,
        and_self, true_implies]
      exact ⟨fun h => h ⟨[], 0⟩ ⟨[], 0⟩, fun h _ _ => h⟩

/-- `frost_dkg_part3` counts the first line only: after it, the result is 0 in any case. -/
theorem reportsTwo_dkgPart3 (myId : Nat) (r2Secret : Bytes) (r1 r2 : List (Nat × Bytes)) :
    ReportsTwo ((Core.frostDkgPart3 myId r2Secret r1 r2).bind core)
        (frostDkgPart3 core myId r2Secret r1 r2) ↔
      Placed (fun _ => blob) [hexLineMax, hexLineMax]
          ((Core.frostDkgPart3 myId r2Secret r1 r2).bind core) ∧
        Whole (fun _ => blob) [hexLineMax, hexLineMax]
          ((Core.frostDkgPart3 myId r2Secret r1 r2).bind core) := by
  unfold ReportsTwo frostDkgPart3
  cases h : popenMulti ((Core.frostDkgPart3 myId r2Secret r1 r2).bind core)
      [hexLineMax, hexLineMax] with
  | none => exact ⟨fun _ => conditions_of_unread h, fun _ a b => report_failed rfl⟩
  | some ps =>
    obtain ⟨la, lb, rfl⟩ := list_two (length_popenMulti h)
    obtain ⟨c, hc, hs, hplaced, hwhole⟩ := conditions_of_read h
    have hfirst : (∀ p, [la, lb][0]? = some p → (blob p).isSome = true) ↔ (blob la).isSome = true :=
      ⟨fun h => h la rfl, fun h p hp => by cases hp; exact h⟩
    rw [hplaced, hwhole, decodes_two, hfirst]
    dsimp only
    cases hx : blob la with
    | none =>
      refine ⟨fun _ => ⟨fun hd => absurd hd.1 Bool.false_ne_true,
        fun hd => absurd hd Bool.false_ne_true⟩, fun _ a b => ?_⟩
      rw [if_pos (decode_neg hx)]
      exact report_failed rfl
    | some x =>
      have hpos (a : Out) : ¬ (a.decode la).1 < 0 := by
        rw [(decode_some hx).1]
        exact Int.not_lt.mpr (Int.natCast_nonneg _)
      simp only [if_neg (hpos _), Option.isSome_some, true_and, true_implies]
      cases hy : blob lb with
      | none =>
        -- the second length is stored as 65535
        refine ⟨fun hr => ?_, fun hr => absurd hr.2 Bool.false_ne_true⟩
        obtain ⟨_, -, -, hall⟩ := (hr ⟨[], 0⟩ ⟨[], 0⟩).success rfl
        obtain ⟨_, bs, -, -, hh⟩ := hall 1 _ rfl
        have hlen : 65535 = bs.length := by
          rw [← hh.len, decode_none hy]
          rfl
        have hsize := hh.size
        unfold maxPayload at hsize
        omega
      | some y =>
        simp only [(decode_some hx).1, (decode_some hy).1, report_two_iff hc hs hx hy,
          Option.isSome_some, true_implies, and_true]
        exact ⟨fun h => h ⟨[], 0⟩ ⟨[], 0⟩, fun h _ _ => h⟩

/-! ## Stubs of one line -/

/-- A line that decodes, in its buffer. -/
theorem report_one_iff {c : Child} {l x : Bytes} (hc : child = some c) (hs : c.status = 0)
    (hx : blob l = some x) {before : List Out} :
    Report child (fun _ => blob) before 0 [(a.write x).setLen x.length] ↔
      ∃ line, (splitLines 10 c.text)[0]? = some line ∧ blob line = some x := by
  have hax := holds_write (o := a) (decode_some (o := a) hx).2
  constructor
  · intro h
    obtain ⟨c', hc', -, hall⟩ := h.success rfl
    rw [hc] at hc'
    cases hc'
    obtain ⟨line, bs, hl, hb, hh⟩ := hall 0 _ rfl
    exact ⟨line, hl, by rw [hb, hh.eq hax]⟩
  · rintro ⟨line, hl, hb⟩
    refine ⟨fun _ => ⟨c, hc, hs, ?_⟩, fun h => absurd h (by decide)⟩
    rw [forall_getElem?_cons]
    exact ⟨⟨line, x, hl, hb, hax⟩, forall_getElem?_nil⟩

theorem decodes_one {d : Bytes → Option Bytes} {p : Bytes} :
    Decodes (fun _ => d) [p] ↔ (d p).isSome = true := by
  unfold Decodes
  rw [forall_getElem?_cons]
  exact ⟨fun h => h.1, fun h => ⟨h, forall_getElem?_nil⟩⟩

theorem inPlace_one {d : Bytes → Option Bytes} {text p : Bytes} :
    InPlace (fun _ => d) text [p] ↔ ∃ line, (splitLines 10 text)[0]? = some line ∧
      d line = d p := by
  unfold InPlace
  rw [forall_getElem?_cons]
  exact ⟨fun h => h.1, fun h => ⟨h, forall_getElem?_nil⟩⟩

theorem reports_sign (myId : Nat) (signingPkg nonces keyPkg : Bytes) :
    Reports ((Core.frostSign myId signingPkg nonces keyPkg).bind core)
        (frostSign core myId signingPkg nonces keyPkg) ↔
      Placed (fun _ => blob) [hexLineMax] ((Core.frostSign myId signingPkg nonces keyPkg).bind core) := by
  unfold Reports frostSign
  cases h : popenMulti ((Core.frostSign myId signingPkg nonces keyPkg).bind core) [hexLineMax] with
  | none => exact ⟨fun _ => (conditions_of_unread h).1, fun _ a => report_failed rfl⟩
  | some ps =>
    obtain ⟨l, rfl⟩ := List.length_eq_one_iff.mp (length_popenMulti h)
    obtain ⟨c, hc, hs, hplaced, -⟩ := conditions_of_read h
    rw [hplaced, decodes_one, inPlace_one]
    dsimp only
    cases hx : blob l with
    | none =>
      refine ⟨fun _ hd => absurd hd Bool.false_ne_true, fun _ a => ?_⟩
      rw [if_pos (decode_neg hx)]
      exact report_failed rfl
    | some x =>
      have hrun (a : Out) : (if (a.decode l).1 < 0 then ((-1 : Int), (a.decode l).2)
          else (0, (a.decode l).2.setLen (a.decode l).1)) = (0, (a.write x).setLen x.length) := by
        rw [(decode_some hx).1]
        exact if_neg (Int.not_lt.mpr (Int.natCast_nonneg _))
      simp only [hrun, report_one_iff hc hs hx, Option.isSome_some, true_implies]
      exact ⟨fun h => h ⟨[], 0⟩, fun h _ => h⟩

/-! ## Stubs of peer lines -/

section Peers

variable (parseId : Bytes → Nat) (i : Nat) (lines : List Bytes) (qs : Nat → PeerOut)

theorem peerBlob_eq (hnul : cstr line = line) : peerBlob line = (cutAt 32 line).2.bind blob := by
  unfold peerBlob
  rw [hnul]

/-- One line that decodes: the loop goes on with its row filled. -/
theorem readPeers_cons_some (hnul : cstr line = line) (h : peerBlob line = some bs) :
    ∃ p : PeerOut, p.toOut = ((qs i).toOut.write bs).setLen bs.length ∧
      readPeers parseId i (line :: lines) qs =
        readPeers parseId (i + 1) lines (Function.update qs i p) := by
  rw [peerBlob_eq hnul] at h
  obtain ⟨hex, hcut, hhex⟩ := Option.bind_eq_some_iff.mp h
  have hpair : cutAt 32 line = ((cutAt 32 line).1, some hex) := Prod.ext rfl hcut
  refine ⟨⟨((qs i).toOut.write bs).setLen bs.length, parseId (cutAt 32 line).1⟩, rfl, ?_⟩
  rw [readPeers, hpair]
  dsimp only
  rw [(decode_some hhex).1]
  exact if_neg (Int.not_lt.mpr (Int.natCast_nonneg _))

/-- One that does not: it returns. -/
theorem readPeers_cons_none (hnul : cstr line = line) (h : peerBlob line = none) :
    (readPeers parseId i (line :: lines) qs).1 = false := by
  rw [peerBlob_eq hnul] at h
  rw [readPeers]
  cases hcut : (cutAt 32 line).2 with
  | none =>
    have hpair : cutAt 32 line = ((cutAt 32 line).1, none) := Prod.ext rfl hcut
    rw [hpair]
  | some hex =>
    have hpair : cutAt 32 line = ((cutAt 32 line).1, some hex) := Prod.ext rfl hcut
    rw [hcut, Option.bind_some] at h
    rw [hpair]
    dsimp only
    rw [if_pos (decode_neg h)]

variable {lines}

/-- The loop gets to the end if every line decodes, and then every row is filled. -/
theorem readPeers_all (hnul : ∀ l ∈ lines, cstr l = l)
    (h : ∀ (j : Nat) (l : Bytes), lines[j]? = some l → (peerBlob l).isSome = true) :
    (readPeers parseId i lines qs).1 = true ∧
      (∀ k < i, (readPeers parseId i lines qs).2 k = qs k) ∧
      ∀ (j : Nat) (l : Bytes), lines[j]? = some l → ∀ bs, peerBlob l = some bs →
        ((readPeers parseId i lines qs).2 (i + j)).toOut.Holds bs := by
  induction lines generalizing i qs with
  | nil => exact ⟨rfl, fun _ _ => rfl, forall_getElem?_nil⟩
  | cons line lines ih =>
    rw [forall_getElem?_cons] at h
    obtain ⟨bs, hbs⟩ := Option.isSome_iff_exists.mp h.1
    have hline := hnul line (List.mem_cons_self ..)
    obtain ⟨p, hp, hrun⟩ := readPeers_cons_some parseId i lines qs hline hbs
    obtain ⟨h1, h2, h3⟩ := ih (i + 1) (Function.update qs i p)
      (fun l hl => hnul l (List.mem_cons_of_mem _ hl)) h.2
    rw [hrun]
    refine ⟨h1, fun k hk => ?_, forall_getElem?_cons.mpr ⟨fun bs' hbs' => ?_,
      fun j l hl bs' hbs' => ?_⟩⟩
    · rw [h2 k (by omega), Function.update_of_ne (by omega)]
    · rw [hbs] at hbs'
      cases hbs'
      show ((readPeers parseId (i + 1) lines (Function.update qs i p)).2 i).toOut.Holds bs
      rw [h2 i (Nat.lt_succ_self i), Function.update_self, hp]
      rw [peerBlob_eq hline] at hbs
      obtain ⟨hex, -, hhex⟩ := Option.bind_eq_some_iff.mp hbs
      exact holds_write (decode_some (o := ⟨[], 0⟩) hhex).2
    · have := h3 j l hl bs' hbs'
      rw [Nat.add_right_comm] at this
      exact this

/-- It does not if one of them does not. -/
theorem readPeers_stops {j : Nat} {l : Bytes} (hnul : ∀ l ∈ lines, cstr l = l)
    (hj : lines[j]? = some l) (h : peerBlob l = none) :
      (readPeers parseId i lines qs).1 = false := by
  induction lines generalizing i qs j with
  | nil => cases hj
  | cons line lines ih =>
    have hline := hnul line (List.mem_cons_self ..)
    have hrest : ∀ l ∈ lines, cstr l = l := fun l hl => hnul l (List.mem_cons_of_mem _ hl)
    cases hb : peerBlob line with
    | none => exact readPeers_cons_none parseId i lines qs hline hb
    | some bs =>
      obtain ⟨p, -, hrun⟩ := readPeers_cons_some parseId i lines qs hline hb
      rw [hrun]
      cases j with
      | zero =>
        cases hj
        rw [h] at hb
        cases hb
      | succ j => exact ih _ _ hrest hj

end Peers

theorem cstr_heard (line : Bytes) : cstr (heard line) = heard line := by
  refine cstr_eq_self fun h => zero_not_mem_cstr line ?_
  unfold heard chomp at h
  split at h
  · exact (List.dropLast_sublist _).subset h
  · exact h

theorem cstr_pieces {text : Bytes} (h : pieces sizes text = some ps) : ∀ p ∈ ps, cstr p = p := by
  induction sizes generalizing text ps with
  | nil =>
    cases h
    exact List.forall_mem_nil _
  | cons size sizes ih =>
    unfold pieces at h
    obtain ⟨r, -, h⟩ := Option.bind_eq_some_iff.mp h
    obtain ⟨qs, hq, rfl⟩ := Option.map_eq_some_iff.mp h
    exact List.forall_mem_cons.mpr ⟨cstr_heard _, ih hq⟩

/-- A secret and its peers, in their buffers. -/
theorem report_peers_iff {c : Child} {l x : Bytes} {lines : List Bytes} {n : Nat}
    {qs : Nat → PeerOut} (hc : child = some c) (hs : c.status = 0) (hx : blob l = some x)
    (hn : lines.length = n) (hall : ∀ (j : Nat) (p : Bytes), lines[j]? = some p →
      (peerBlob p).isSome = true)
    (hrows : ∀ (j : Nat) (p : Bytes), lines[j]? = some p → ∀ bs, peerBlob p = some bs →
      (qs j).toOut.Holds bs) {before : List Out} :
    Report child secretThenPeers before 0 ((a.write x).setLen x.length :: rows n qs) ↔
      InPlace secretThenPeers c.text (l :: lines) := by
  have hax := holds_write (o := a) (decode_some (o := a) hx).2
  have hrow {j : Nat} (hj : j < n) : ∃ p bs, lines[j]? = some p ∧ peerBlob p = some bs ∧
      (qs j).toOut.Holds bs := by
    have hp : lines[j]? = some lines[j] := List.getElem?_eq_getElem (hn ▸ hj)
    obtain ⟨bs, hbs⟩ := Option.isSome_iff_exists.mp (hall j _ hp)
    exact ⟨_, bs, hp, hbs, hrows j _ hp bs hbs⟩
  have hlt {j : Nat} {p : Bytes} (hp : lines[j]? = some p) : j < n :=
    hn ▸ (List.getElem?_eq_some_iff.mp hp).1
  unfold InPlace
  rw [forall_getElem?_cons]
  constructor
  · intro h
    obtain ⟨c', hc', -, hout⟩ := h.success rfl
    rw [hc] at hc'
    cases hc'
    rw [forall_getElem?_cons, forall_getElem?_rows] at hout
    obtain ⟨⟨line, bs, hl, hb, hh⟩, hpeers⟩ := hout
    refine ⟨⟨line, hl, ?_⟩, fun j p hp => ?_⟩
    · rw [hb, hh.eq hax]
      exact hx.symm
    · obtain ⟨line', bs', hl', hb', hh'⟩ := hpeers j (hlt hp)
      obtain ⟨p', bs, hp', hbs, hh⟩ := hrow (hlt hp)
      rw [hp] at hp'
      cases hp'
      exact ⟨line', hl', by rw [hb', hh'.eq hh]; exact hbs.symm⟩
  · rintro ⟨⟨line, hl, hb⟩, hpeers⟩
    refine ⟨fun _ => ⟨c, hc, hs, ?_⟩, fun h => absurd h (by decide)⟩
    rw [forall_getElem?_cons, forall_getElem?_rows]
    refine ⟨⟨line, x, hl, hb.trans hx, hax⟩, fun j hj => ?_⟩
    obtain ⟨p, bs, hp, hbs, hh⟩ := hrow hj
    obtain ⟨line', hl', hb'⟩ := hpeers j p hp
    exact ⟨line', bs, hl', hb'.trans hbs, hh⟩

/-- `frost_dkg_part2` and `frost_refresh_part2` store the secret's length before they look at
the peers. -/
theorem reportsPeers_secretAndPeers (parseId : Bytes → Nat) (size n : Nat) :
    ReportsPeers n (inv.bind core) (secretAndPeers core parseId inv size n) ↔
      Placed secretThenPeers (List.replicate (n + 1) size) (inv.bind core) ∧
        Whole secretThenPeers (List.replicate (n + 1) size) (inv.bind core) := by
  unfold ReportsPeers secretAndPeers
  cases h : popenMulti (inv.bind core) (List.replicate (n + 1) size) with
  | none => exact ⟨fun _ => conditions_of_unread h, fun _ a qs => report_failed rfl⟩
  | some ps =>
    have hlen := length_popenMulti h
    rw [List.length_replicate] at hlen
    obtain ⟨l, lines, rfl⟩ := List.exists_cons_of_length_eq_add_one hlen
    have hn : lines.length = n := Nat.succ.inj hlen
    have hnul : ∀ p ∈ lines, cstr p = p := by
      obtain ⟨_, -, hd⟩ := popenMulti_eq_some.mp h
      exact (List.forall_mem_cons.mp (cstr_pieces hd.cut)).2
    obtain ⟨c, hc, hs, hplaced, hwhole⟩ := conditions_of_read h
    have hfirst : (∀ p, (l :: lines)[0]? = some p → (secretThenPeers 0 p).isSome = true) ↔
        (blob l).isSome = true := ⟨fun h => h l rfl, fun h p hp => by cases hp; exact h⟩
    have hdecodes : Decodes secretThenPeers (l :: lines) ↔ (blob l).isSome = true ∧
        ∀ (j : Nat) (p : Bytes), lines[j]? = some p → (peerBlob p).isSome = true := by
      unfold Decodes
      rw [forall_getElem?_cons]
      exact Iff.rfl
    rw [hplaced, hwhole, hdecodes, hfirst]
    dsimp only
    cases hx : blob l with
    | none =>
      refine ⟨fun _ => ⟨fun hd => absurd hd.1 Bool.false_ne_true,
        fun hd => absurd hd Bool.false_ne_true⟩, fun _ a qs => ?_⟩
      rw [if_pos (decode_neg hx)]
      exact report_failed rfl
    | some x =>
      have hpos (a : Out) : ¬ (a.decode l).1 < 0 := by
        rw [(decode_some hx).1]
        exact Int.not_lt.mpr (Int.natCast_nonneg _)
      simp only [if_neg (hpos _)]
      simp only [(decode_some hx).1, Option.isSome_some, true_and, true_implies]
      by_cases hall : ∀ (j : Nat) (p : Bytes), lines[j]? = some p → (peerBlob p).isSome = true
      · have hread (qs : Nat → PeerOut) := readPeers_all parseId 0 qs hnul hall
        have hrows (qs : Nat → PeerOut) : ∀ (j : Nat) (p : Bytes), lines[j]? = some p →
            ∀ bs, peerBlob p = some bs → ((readPeers parseId 0 lines qs).2 j).toOut.Holds bs := by
          intro j p hp bs hbs
          have := (hread qs).2.2 j p hp bs hbs
          rwa [Nat.zero_add] at this
        simp only [(hread _).1, if_true,
          report_peers_iff hc hs hx hn hall (hrows _)]
        exact ⟨fun h => ⟨fun _ => h ⟨[], 0⟩ (fun _ => ⟨⟨[], 0⟩, 0⟩), hall⟩, fun h _ _ => h.1 hall⟩
      · -- the length of the secret is there, and the stub fails
        refine ⟨fun hr => ?_, fun hr => absurd hr.2 hall⟩
        push Not at hall
        obtain ⟨j, p, hp, hbad⟩ := hall
        have hstop := readPeers_stops parseId 0 (fun _ => ⟨⟨[], 0⟩, 0⟩) hnul hp
          (Option.not_isSome_iff_eq_none.mp hbad)
        have hr := (hr ⟨[], x.length + 1⟩ fun _ => ⟨⟨[], 0⟩, 0⟩).failure (by rw [hstop]; rfl)
        have hlen : asUInt16 x.length = x.length + 1 := (List.cons.inj hr).1
        have hsize := (decode_some (o := ⟨[], 0⟩) hx).2
        unfold maxPayload at hsize
        rw [asUInt16_eq (by omega)] at hlen
        omega

/-! ## `frost_assemble_signing_package` -/

/-- Hex is no error message. -/
theorem noError_of_blob (hnul : cstr line = line) (h : (blob line).isSome = true) :
    (ascii "ERROR:").isPrefixOf line = false := by
  by_contra hpre
  obtain ⟨rest, hrest⟩ := List.isPrefixOf_iff_prefix.mp (Bool.eq_true_of_not_eq_false hpre)
  have hpos : 0 ≤ (hexToBytes line maxPayload).1 := by
    unfold blob at h
    split at h
    · assumption
    · cases h
  have hhex := hexBytes_of_success rfl hpos
  rw [hnul] at hhex
  have hmem : 82 ∈ line := by
    rw [← hrest]
    exact List.mem_append_left _ (by decide)
  exact absurd (hhex.2 82 (mem_stripTail hmem (by decide))) (by decide)

theorem stripTail_chomp (u : Bytes) : stripTail (chomp u) = stripTail u := by
  unfold chomp
  split
  · next h =>
    obtain ⟨v, rfl⟩ := List.getLast?_eq_some_iff.mp h
    rw [List.dropLast_concat]
    simp [stripTail]
  · rfl

theorem blob_heard (line : Bytes) : blob (heard line) = blob line := by
  have hsame : hexToBytes (heard line) maxPayload = hexToBytes line maxPayload := by
    unfold hexToBytes
    rw [cstr_heard, heard, stripTail_chomp]
  unfold blob
  rw [hsame]

/-- A package is not empty. -/
def package (line : Bytes) : Option Bytes := (blob line).filter (· ≠ [])

theorem package_some {x : Bytes} : package line = some x ↔ blob line = some x ∧ x ≠ [] := by
  unfold package
  rw [Option.filter_eq_some_iff]
  simp

theorem reports_assemble (b : CommitBundle) :
    Reports (core (frostAssemble b)) (frostAssembleSigningPackage core b) ↔
      Placed (fun _ => package) [hexLineMax] (core (frostAssemble b)) := by
  unfold Reports frostAssembleSigningPackage
  cases hcore : core (frostAssemble b) with
  | none => exact ⟨fun _ _ _ h => (by cases h), fun _ _ => report_failed rfl⟩
  | some c =>
    simp only [Option.bind_some]
    cases hline : fgets hexLineMax c.text with
    | none =>
      refine ⟨fun _ c' ps h hd => ?_, fun _ _ => report_failed rfl⟩
      cases h
      have := hd.cut
      rw [pieces, hline] at this
      cases this
    | some r =>
      obtain ⟨line, rest⟩ := r
      have hcut : pieces [hexLineMax] c.text = some [heard line] := by
        rw [pieces, hline]
        rfl
      simp only [Option.map_some]
      by_cases hs : c.status = 0
      · have hpack : package (heard line) = package line := by
          unfold package
          rw [blob_heard]
        have hplaced : Placed (fun _ => package) [hexLineMax] (some c) ↔
            ∀ x, package line = some x →
            ∃ l, (splitLines 10 c.text)[0]? = some l ∧ blob l = some x := by
          constructor
          · intro hp x hx
            have hblob : (blob (heard line)).isSome = true := by
              rw [blob_heard, (package_some.mp hx).1]
              rfl
            have hd : Delivered [hexLineMax] c [heard line] := ⟨hs, hcut, fun p hp => by
              rw [List.mem_singleton.mp hp]
              exact noError_of_blob (cstr_heard line) hblob⟩
            have hin := hp c [heard line] rfl hd
            rw [decodes_one, inPlace_one, hpack, hx] at hin
            obtain ⟨l, hl, he⟩ := hin rfl
            exact ⟨l, hl, (package_some.mp he).1⟩
          · intro h c' ps e hd
            cases e
            have hps := hd.cut
            rw [hcut] at hps
            cases hps
            rw [decodes_one, inPlace_one, hpack]
            intro hdec
            obtain ⟨x, hx⟩ := Option.isSome_iff_exists.mp hdec
            obtain ⟨l, hl, hb⟩ := h x hx
            refine ⟨l, hl, ?_⟩
            rw [hx]
            exact package_some.mpr ⟨hb, (package_some.mp hx).2⟩
        have hstatus : ¬ c.status ≠ 0 := not_not.mpr hs
        rw [hplaced]
        simp only [if_neg hstatus]
        cases hx : package line with
        | none =>
          refine ⟨fun _ _ h => (by cases h), fun _ a => ?_⟩
          have hle : (a.decode line).1 ≤ 0 := by
            cases hb : blob line with
            | none => exact Int.le_of_lt (decode_neg hb)
            | some x =>
              have he : x = [] := by
                by_contra hne
                rw [package_some.mpr ⟨hb, hne⟩] at hx
                cases hx
              rw [(decode_some hb).1, he]
              exact Int.le_refl 0
          rw [if_pos hle]
          exact report_failed rfl
        | some x =>
          obtain ⟨hb, hne⟩ := package_some.mp hx
          have hrun (a : Out) : (if (a.decode line).1 ≤ 0 then ((-1 : Int), (a.decode line).2)
              else (0, (a.decode line).2.setLen (a.decode line).1)) =
              (0, (a.write x).setLen x.length) := by
            have hpos := List.length_pos_of_ne_nil hne
            rw [(decode_some hb).1]
            exact if_neg (by dsimp only; omega)
          simp only [hrun, report_one_iff rfl hs hb, Option.some.injEq, forall_eq']
          exact ⟨fun h => h ⟨[], 0⟩, fun h _ => h⟩
      · refine ⟨fun _ c' ps h hd => ?_, fun _ a => ?_⟩
        · cases h
          exact absurd hd.status hs
        · rw [if_pos hs]
          exact report_failed rfl

/-! ## All of them -/

/-- **A stub's report** is true of its buffers, for every text and exit status of the core, if and
only if its pieces of the text stand for the lines; `frost_dkg_part3` and the two stubs that
write a row for each peer need besides that all lines decode where the first does. -/
theorem stub_reports :
    (∀ id n t, ReportsTwo ((Core.frostDkgPart1 id n t).bind core) (frostDkgPart1 core id n t) ↔
      Placed (fun _ => blob) [hexLineMax, hexLineMax] ((Core.frostDkgPart1 id n t).bind core)) ∧
    (∀ myId secret r1, ReportsPeers r1.length ((Core.frostDkgPart2 myId secret r1).bind core)
        (frostDkgPart2 core myId secret r1) ↔
      Placed secretThenPeers (List.replicate (r1.length + 1) (hexLineMax + 8))
          ((Core.frostDkgPart2 myId secret r1).bind core) ∧
        Whole secretThenPeers (List.replicate (r1.length + 1) (hexLineMax + 8))
          ((Core.frostDkgPart2 myId secret r1).bind core)) ∧
    (∀ myId secret r1 r2, ReportsTwo ((Core.frostDkgPart3 myId secret r1 r2).bind core)
        (frostDkgPart3 core myId secret r1 r2) ↔
      Placed (fun _ => blob) [hexLineMax, hexLineMax]
          ((Core.frostDkgPart3 myId secret r1 r2).bind core) ∧
        Whole (fun _ => blob) [hexLineMax, hexLineMax]
          ((Core.frostDkgPart3 myId secret r1 r2).bind core)) ∧
    (∀ myId n t, ReportsTwo ((Core.frostRefreshPart1 myId n t).bind core)
        (frostRefreshPart1 core myId n t) ↔
      Placed (fun _ => blob) [hexLineMax, hexLineMax]
        ((Core.frostRefreshPart1 myId n t).bind core)) ∧
    (∀ myId secret r1, ReportsPeers r1.length ((Core.frostRefreshPart2 myId secret r1).bind core)
        (frostRefreshPart2 core myId secret r1) ↔
      Placed secretThenPeers (List.replicate (r1.length + 1) hexLineMax)
          ((Core.frostRefreshPart2 myId secret r1).bind core) ∧
        Whole secretThenPeers (List.replicate (r1.length + 1) hexLineMax)
          ((Core.frostRefreshPart2 myId secret r1).bind core)) ∧
    (∀ n secret r1 r2 key pub,
      ReportsTwo ((Core.frostRefreshShares n secret r1 r2 key pub).bind core)
        (frostRefreshShares core n secret r1 r2 key pub) ↔
      Placed (fun _ => blob) [hexLineMax, hexLineMax]
        ((Core.frostRefreshShares n secret r1 r2 key pub).bind core)) ∧
    (∀ b, Reports (core (frostAssemble b)) (frostAssembleSigningPackage core b) ↔
      Placed (fun _ => package) [hexLineMax] (core (frostAssemble b))) ∧
    (∀ myId keyPkg, ReportsTwo ((Core.frostCommit myId keyPkg).bind core)
        (frostCommit core myId keyPkg) ↔
      Placed (fun _ => blob) [hexLineMax, hexLineMax] ((Core.frostCommit myId keyPkg).bind core)) ∧
    (∀ myId spkg nonces keyPkg, Reports ((Core.frostSign myId spkg nonces keyPkg).bind core)
        (frostSign core myId spkg nonces keyPkg) ↔
      Placed (fun _ => blob) [hexLineMax] ((Core.frostSign myId spkg nonces keyPkg).bind core)) :=
  ⟨fun _ _ _ => reportsTwo_twoBlobs core _,
    fun _ _ _ => reportsPeers_secretAndPeers core _ scanTid _ _,
    reportsTwo_dkgPart3 core,
    fun _ _ _ => reportsTwo_twoBlobs core _,
    fun _ _ _ => reportsPeers_secretAndPeers core _ atoiU16 _ _,
    fun _ _ _ _ _ _ => reportsTwo_twoBlobs core _,
    reports_assemble core,
    fun _ _ => reportsTwo_twoBlobs core _,
    reports_sign core⟩

/-- A core that answers a key and no hex after it. -/
def halfCore (_ : Invocation) : Option Child := some ⟨ascii "00" ++ [10] ++ ascii "zz" ++ [10], 0⟩

/-- `frost_dkg_part3` returns 0 with a length of 65535 then. -/
theorem stub_reports_half : ¬ ReportsTwo ((Core.frostDkgPart3 1 [5] [(2, [6])] [(2, [7])]).bind
    halfCore)
    (frostDkgPart3 halfCore 1 [5] [(2, [6])] [(2, [7])]) := by
  intro h
  have hret : (frostDkgPart3 halfCore 1 [5] [(2, [6])] [(2, [7])] ⟨[], 0⟩ ⟨[], 0⟩).1 = 0 := by
    decide +kernel
  have hlen : (frostDkgPart3 halfCore 1 [5] [(2, [6])] [(2, [7])] ⟨[], 0⟩ ⟨[], 0⟩).2.2.len =
      65535 := by
    decide +kernel
  obtain ⟨_, -, -, hall⟩ := (h ⟨[], 0⟩ ⟨[], 0⟩).success hret
  obtain ⟨_, bs, -, -, hh⟩ := hall 1 _ rfl
  have h1 := hh.len
  have h2 := hh.size
  rw [hlen] at h1
  unfold maxPayload at h2
  omega

end FrostSshCa.Stubs
