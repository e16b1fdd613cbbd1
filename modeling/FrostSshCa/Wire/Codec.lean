import FrostSshCa.Wire.Bundle
import FrostSshCa.Wire.Hex

/-!
# The bundle codec on its buffers

`frost_pack_commit_bundle` and `frost_unpack_commit_bundle` as they run: over a
`struct frost_commit_bundle` of fixed arrays with 16-bit lengths, a source of
known length and a destination of known capacity. An access outside a buffer is
a `fault`, so that "no byte beyond the source is read" is a statement about the
result. `BundleBuf.toBundle` is the bundle a struct stands for; the codec on
buffers refines the one on lists (`Wire.Bundle`), which the rest of the
development uses.
-/

namespace FrostSshCa

/-- `struct frost_commit_entry` -/
structure EntryBuf where
  id : UInt16
  commitLen : UInt16
  commit : Vector UInt8 commitEntryMax
  commitSig : Vector UInt8 frameSigSize

/-- `struct frost_commit_bundle` -/
structure BundleBuf where
  nEntries : UInt16
  entries : Vector EntryBuf maxSigners
  tbsLen : UInt16
  tbs : Vector UInt8 maxPayload

/-- What the struct says: each array up to its length. -/
def EntryBuf.toEntry (e : EntryBuf) : CommitEntry where
  id := e.id.toNat
  commit := e.commit.toList.take e.commitLen.toNat
  commitSig := e.commitSig.toList

def BundleBuf.toBundle (b : BundleBuf) : CommitBundle where
  entries := (b.entries.toList.take b.nEntries.toNat).map EntryBuf.toEntry
  tbs := b.tbs.toList.take b.tbsLen.toNat

/-- The lengths stay within the arrays. -/
structure BundleBuf.Fits (b : BundleBuf) : Prop where
  count : b.nEntries.toNat ≤ maxSigners
  commit : ∀ e ∈ b.entries.toList.take b.nEntries.toNat, e.commitLen.toNat ≤ commitEntryMax
  tbs : b.tbsLen.toNat ≤ maxPayload

/-- Why a function of the codec stops: `return -1`, or an access outside a
buffer. -/
inductive Stop where
  | reject | fault
  deriving DecidableEq, Repr

/-! ## Memory accesses -/

/-- `src[i]` -/
def byteAt (src : Bytes) (i : Nat) : Except Stop UInt8 :=
  match src[i]? with
  | some b => .ok b
  | none => .error .fault

/-- A big-endian `uint16_t` at `off`. -/
def u16At (src : Bytes) (off : Nat) : Except Stop UInt16 :=
  (byteAt src off).bind fun hi =>
  (byteAt src (off + 1)).bind fun lo => .ok (UInt16.ofNat (ofBe16 hi lo))

/-- `memcpy` of `len` bytes at `off` over the front of an array. -/
def memcpyIn {k : Nat} (dst : Vector UInt8 k) (src : Bytes) (off len : Nat) :
    Except Stop (Vector UInt8 k) :=
  if h : len ≤ k ∧ off + len ≤ src.length then
    .ok ⟨((src.drop off).take len ++ dst.toList.drop len).toArray, by simp; omega⟩
  else .error .fault

/-- The first `len` bytes of an array. -/
def memcpyOut {k : Nat} (src : Vector UInt8 k) (len : Nat) : Except Stop Bytes :=
  if len ≤ k then .ok (src.toList.take len) else .error .fault

/-- Write at the end of what has been written to a buffer of capacity `cap`. -/
def put (cap : Nat) (dst bs : Bytes) : Except Stop Bytes :=
  if dst.length + bs.length ≤ cap then .ok (dst ++ bs) else .error .fault

/-! ## Packing -/

/-- One pass of the loop of `frost_pack_commit_bundle`. -/
def packEntryBuf (cap : Nat) (dst : Bytes) (e : EntryBuf) : Except Stop Bytes :=
  if dst.length + 2 + 2 > cap then .error .reject
  else
    (put cap dst (be16 e.id.toNat)).bind fun dst =>
    (put cap dst (be16 e.commitLen.toNat)).bind fun dst =>
    if e.commitLen.toNat > commitEntryMax then .error .reject
    else if dst.length + e.commitLen.toNat > cap then .error .reject
    else
      (memcpyOut e.commit e.commitLen.toNat).bind fun commit =>
      (put cap dst commit).bind fun dst =>
      if dst.length + frameSigSize > cap then .error .reject
      else put cap dst e.commitSig.toList

/-- The loop, from entry `i`, with `k` entries to go. -/
def packLoop (cap : Nat) (entries : Vector EntryBuf maxSigners) :
    Nat → Nat → Bytes → Except Stop Bytes
  | 0, _, dst => .ok dst
  | k + 1, i, dst =>
    match entries[i]? with
    | none => .error .fault
    | some e => (packEntryBuf cap dst e).bind (packLoop cap entries k (i + 1))

/-- `frost_pack_commit_bundle`: the bytes it leaves at the front of `dst`. -/
def BundleBuf.pack (cap : Nat) (b : BundleBuf) : Except Stop Bytes :=
  if 2 > cap then .error .reject
  else
    (put cap [] (be16 b.nEntries.toNat)).bind fun dst =>
    (packLoop cap b.entries b.nEntries.toNat 0 dst).bind fun dst =>
    if dst.length + 2 > cap then .error .reject
    else
      (put cap dst (be16 b.tbsLen.toNat)).bind fun dst =>
      if b.tbsLen.toNat > maxPayload || dst.length + b.tbsLen.toNat > cap then .error .reject
      else (memcpyOut b.tbs b.tbsLen.toNat).bind (put cap dst)

/-! ## Unpacking -/

/-- One pass of the loop of `frost_unpack_commit_bundle`, over entry `e`. -/
def unpackEntryBuf (src : Bytes) (off : Nat) (e : EntryBuf) : Except Stop (EntryBuf × Nat) :=
  if off + 4 > src.length then .error .reject
  else
    (u16At src off).bind fun id =>
    (u16At src (off + 2)).bind fun len =>
    if len.toNat > commitEntryMax then .error .reject
    else if off + 4 + len.toNat > src.length then .error .reject
    else
      (memcpyIn e.commit src (off + 4) len.toNat).bind fun commit =>
      if off + 4 + len.toNat + frameSigSize > src.length then .error .reject
      else
        (memcpyIn e.commitSig src (off + 4 + len.toNat) frameSigSize).bind fun sig =>
        .ok ({ id := id, commitLen := len, commit := commit, commitSig := sig },
          off + 4 + len.toNat + frameSigSize)

/-- The loop, from entry `i` and offset `off`, with `k` entries to go. -/
def unpackLoop (src : Bytes) :
    Nat → Nat → Nat → Vector EntryBuf maxSigners →
      Except Stop (Vector EntryBuf maxSigners × Nat)
  | 0, _, off, entries => .ok (entries, off)
  | k + 1, i, off, entries =>
    match entries[i]? with
    | none => .error .fault
    | some e => (unpackEntryBuf src off e).bind fun r =>
        unpackLoop src k (i + 1) r.2 (entries.setIfInBounds i r.1)

/-- `frost_unpack_commit_bundle` into the struct `b`: what the struct then holds
and the offset returned. -/
def BundleBuf.unpack (src : Bytes) (b : BundleBuf) : Except Stop (BundleBuf × Nat) :=
  if 2 > src.length then .error .reject
  else
    (u16At src 0).bind fun n =>
    if n.toNat > maxSigners then .error .reject
    else
      (unpackLoop src n.toNat 0 2 b.entries).bind fun r =>
      if r.2 + 2 > src.length then .error .reject
      else
        (u16At src r.2).bind fun len =>
        if len.toNat > maxPayload || r.2 + 2 + len.toNat > src.length then .error .reject
        else
          (memcpyIn b.tbs src (r.2 + 2) len.toNat).bind fun tbs =>
          .ok ({ nEntries := n, entries := r.1, tbsLen := len, tbs := tbs },
            r.2 + 2 + len.toNat)

/-! ## What `assemble` is fed -/

/-- The text `frost_assemble_signing_package` hands to `assemble`. -/
def assembleIn (b : BundleBuf) : Bytes :=
  bytesToHex (b.tbs.toList.take b.tbsLen.toNat) ++ [10] ++ decimal b.nEntries.toNat ++ [10] ++
    (b.entries.toList.take b.nEntries.toNat).flatMap fun e =>
      decimal e.id.toNat ++ [32] ++ bytesToHex (e.commit.toList.take e.commitLen.toNat) ++ [10]

/-! ## The accesses, in bounds -/

variable {src dst : Bytes}

theorem byteAt_of_lt {i : Nat} (h : i < src.length) : byteAt src i = .ok src[i] := by
  unfold byteAt
  rw [List.getElem?_eq_getElem h]

/-- In bounds, a `uint16_t` at `off` is what `take16` reads there. -/
theorem u16At_of_le (src : Bytes) (off : Nat) (h : off + 2 ≤ src.length) :
    ∃ n : UInt16, u16At src off = .ok n ∧
      take16 (src.drop off) = some (n.toNat, src.drop (off + 2)) := by
  have h0 : off < src.length := by omega
  have h1 : off + 1 < src.length := by omega
  refine ⟨UInt16.ofNat (ofBe16 src[off] src[off + 1]), ?_, ?_⟩
  · unfold u16At
    rw [byteAt_of_lt h0, byteAt_of_lt h1]
    rfl
  · have hlt := ofBe16_lt src[off] src[off + 1]
    rw [List.drop_eq_getElem_cons h0, List.drop_eq_getElem_cons h1, take16,
      UInt16.toNat_ofNat_of_lt' hlt]

theorem take16_drop_none {off : Nat} (h : off + 2 > src.length) : take16 (src.drop off) = none := by
  have hl : (src.drop off).length < 2 := by rw [List.length_drop]; omega
  match src.drop off, hl with
  | [], _ => rfl
  | [_], _ => rfl

theorem takeN_drop {off n : Nat} (h : off + n ≤ src.length) :
    takeN n (src.drop off) = some ((src.drop off).take n, src.drop (off + n)) := by
  unfold takeN
  rw [if_neg (by rw [List.length_drop]; omega), List.drop_drop]

theorem takeN_drop_none {off n : Nat} (h0 : off ≤ src.length) (h : off + n > src.length) :
    takeN n (src.drop off) = none := by
  unfold takeN
  rw [if_pos (by rw [List.length_drop]; omega)]

/-- In bounds, `memcpy` sets the front of the array, whatever it held before. -/
theorem memcpyIn_of_le {k off len : Nat} (dst : Vector UInt8 k) (hk : len ≤ k)
    (h : off + len ≤ src.length) :
    ∃ v, memcpyIn dst src off len = .ok v ∧ v.toList.take len = (src.drop off).take len := by
  unfold memcpyIn
  rw [dif_pos ⟨hk, h⟩]
  refine ⟨_, rfl, ?_⟩
  show List.take len ((src.drop off).take len ++ dst.toList.drop len) = _
  apply List.take_left'
  rw [List.length_take, List.length_drop]
  omega

theorem put_of_le {cap : Nat} {bs : Bytes} (h : dst.length + bs.length ≤ cap) :
    put cap dst bs = .ok (dst ++ bs) := if_pos h

theorem memcpyOut_of_le {k len : Nat} (v : Vector UInt8 k) (h : len ≤ k) :
    memcpyOut v len = .ok (v.toList.take len) := if_pos h

/-! ## Unpacking refines the list unpacker -/

/-- One pass of `unpackEntries`. -/
def unpackEntry (bs : Bytes) : Option (CommitEntry × Bytes) :=
  (take16 bs).bind fun (id, bs) =>
  (take16 bs).bind fun (len, bs) =>
  if len > commitEntryMax then none
  else
    (takeN len bs).bind fun (commit, bs) =>
    (takeN frameSigSize bs).bind fun (sig, bs) =>
    some ({ id := id, commit := commit, commitSig := sig }, bs)

theorem unpackEntries_succ (n : Nat) (bs : Bytes) : unpackEntries (n + 1) bs =
    (unpackEntry bs).bind fun r =>
      (unpackEntries n r.2).bind fun q => some (r.1 :: q.1, q.2) := by
  rw [unpackEntries, unpackEntry]
  cases take16 bs with
  | none => rfl
  | some p =>
    rw [Option.bind_some, Option.bind_some]
    dsimp only
    cases take16 p.2 with
    | none => rfl
    | some q =>
      rw [Option.bind_some, Option.bind_some]
      split
      · rfl
      · simp only [Option.bind_assoc, Option.bind_some]

/-- One entry: rejected by both, or read alike. -/
theorem unpackEntryBuf_cases (src : Bytes) (off : Nat) (e : EntryBuf) :
    (unpackEntryBuf src off e = .error .reject ∧ unpackEntry (src.drop off) = none) ∨
    ∃ e' off', unpackEntryBuf src off e = .ok (e', off') ∧ off' ≤ src.length ∧
      e'.commitLen.toNat ≤ commitEntryMax ∧
      unpackEntry (src.drop off) = some (e'.toEntry, src.drop off') := by
  unfold unpackEntryBuf unpackEntry
  by_cases h4 : off + 4 > src.length
  · rw [if_pos h4]
    refine .inl ⟨rfl, ?_⟩
    by_cases h2 : off + 2 > src.length
    · rw [take16_drop_none h2]
      rfl
    · obtain ⟨id, -, hid⟩ := u16At_of_le src off (by omega)
      rw [hid, Option.bind_some]
      dsimp only
      rw [take16_drop_none (by omega)]
      rfl
  obtain ⟨id, eid, hid⟩ := u16At_of_le src off (by omega)
  obtain ⟨len, elen, hlen⟩ := u16At_of_le src (off + 2) (by omega)
  rw [if_neg h4, eid, elen, hid]
  dsimp only [Except.bind, Option.bind_some]
  rw [hlen]
  dsimp only [Option.bind_some]
  by_cases hmax : len.toNat > commitEntryMax
  · rw [if_pos hmax, if_pos hmax]
    exact .inl ⟨rfl, rfl⟩
  rw [if_neg hmax, if_neg hmax]
  by_cases hc : off + 4 + len.toNat > src.length
  · rw [if_pos hc, takeN_drop_none (by omega) hc]
    exact .inl ⟨rfl, rfl⟩
  obtain ⟨v, ev, hv⟩ := memcpyIn_of_le e.commit (Nat.le_of_not_gt hmax) (Nat.le_of_not_gt hc)
  rw [if_neg hc, takeN_drop (Nat.le_of_not_gt hc), ev]
  dsimp only [Option.bind_some]
  by_cases hs : off + 4 + len.toNat + frameSigSize > src.length
  · rw [if_pos hs, takeN_drop_none (by omega) hs]
    exact .inl ⟨rfl, rfl⟩
  obtain ⟨w, ew, hw⟩ := memcpyIn_of_le e.commitSig (Nat.le_refl _) (Nat.le_of_not_gt hs)
  rw [if_neg hs, takeN_drop (Nat.le_of_not_gt hs), ew]
  refine .inr ⟨_, _, rfl, Nat.le_of_not_gt hs, Nat.le_of_not_gt hmax, ?_⟩
  have hw' : w.toList = (src.drop (off + 4 + len.toNat)).take frameSigSize := by
    rw [← hw, List.take_of_length_le (by rw [Vector.length_toList])]
  simp only [Option.bind_some, EntryBuf.toEntry, hv, hw']

/-- The loop reads the entries `i`, …, `i + k - 1` and keeps those before. -/
theorem unpackLoop_cases (src : Bytes) (k : Nat) :
    ∀ (i off : Nat) (entries : Vector EntryBuf maxSigners), i + k ≤ maxSigners → off ≤ src.length →
    (unpackLoop src k i off entries = .error .reject ∧ unpackEntries k (src.drop off) = none) ∨
    ∃ entries' off', unpackLoop src k i off entries = .ok (entries', off') ∧
      off' ≤ src.length ∧ entries'.toList.take i = entries.toList.take i ∧
      (∀ e ∈ (entries'.toList.drop i).take k, e.commitLen.toNat ≤ commitEntryMax) ∧
      unpackEntries k (src.drop off) =
        some (((entries'.toList.drop i).take k).map EntryBuf.toEntry, src.drop off') := by
  induction k with
  | zero =>
    intro i off entries _ hoff
    exact .inr ⟨entries, off, rfl, hoff, rfl, by simp, by simp [unpackEntries]⟩
  | succ k ih =>
    intro i off entries hi hoff
    have hlt : i < maxSigners := by omega
    have hget : entries[i]? = some entries[i] := Vector.getElem?_eq_getElem hlt
    unfold unpackLoop
    rw [hget]
    dsimp only
    rcases unpackEntryBuf_cases src off entries[i] with
      ⟨e1, e2⟩ | ⟨e', off1, e1, hoff1, hmax, e2⟩
    · rw [e1, unpackEntries_succ, e2]
      exact .inl ⟨rfl, rfl⟩
    rw [e1, unpackEntries_succ, e2]
    dsimp only [Except.bind, Option.bind_some]
    rcases ih (i + 1) off1 (entries.setIfInBounds i e') (by omega) hoff1 with
      ⟨e3, e4⟩ | ⟨entries', off', e3, hoff', hkeep, hle, e4⟩
    · rw [e4]
      exact .inl ⟨e3, rfl⟩
    rw [e4]
    -- entry `i` is the one just read, and those before it are as they were
    have hlen : entries'.toList.length = maxSigners := Vector.length_toList
    have hlen0 : entries.toList.length = maxSigners := Vector.length_toList
    have hset : (entries.setIfInBounds i e').toList = entries.toList.set i e' :=
      Vector.toList_setIfInBounds
    rw [hset] at hkeep
    have hith : entries'.toList[i]? = some e' := by
      have h := congrArg (fun l : List EntryBuf => l[i]?) hkeep
      simp only [List.getElem?_take, Nat.lt_succ_self, if_true] at h
      rw [h, List.getElem?_set_self (by omega)]
    have hdrop : (entries'.toList.drop i).take (k + 1) =
        e' :: (entries'.toList.drop (i + 1)).take k := by
      obtain ⟨hi', hi''⟩ := List.getElem?_eq_some_iff.mp hith
      rw [List.drop_eq_getElem_cons hi', hi'', List.take_succ_cons]
    refine .inr ⟨entries', off', e3, hoff', ?_, ?_, ?_⟩
    · have h := congrArg (List.take i) hkeep
      rw [List.take_take, List.take_take, Nat.min_eq_left (Nat.le_succ i),
        List.take_set_of_le (Nat.le_refl i)] at h
      exact h
    · rw [hdrop]
      intro e he
      rcases List.mem_cons.mp he with rfl | he
      · exact hmax
      · exact hle e he
    · rw [hdrop]
      rfl

/-- **The unpacker on buffers refines the one on lists**: it never reads or
writes outside a buffer, and rejects or accepts alike whatever the struct held. -/
theorem BundleBuf.unpack_cases (src : Bytes) (b : BundleBuf) :
    (b.unpack src = .error .reject ∧ unpackCommitBundle src = none) ∨
    ∃ b' off, b.unpack src = .ok (b', off) ∧ b'.Fits ∧ off ≤ src.length ∧
      unpackCommitBundle src = some (b'.toBundle, off) := by
  unfold BundleBuf.unpack unpackCommitBundle
  by_cases h2 : 2 > src.length
  · have h : take16 (src.drop 0) = none := take16_drop_none (by omega)
    rw [List.drop_zero] at h
    rw [if_pos h2, h]
    exact .inl ⟨rfl, rfl⟩
  obtain ⟨n, en, hn⟩ := u16At_of_le src 0 (by omega)
  rw [List.drop_zero, Nat.zero_add] at hn
  rw [if_neg h2, en, hn]
  dsimp only [Except.bind, Option.bind_some]
  by_cases hcount : n.toNat > maxSigners
  · rw [if_pos hcount, if_pos hcount]
    exact .inl ⟨rfl, rfl⟩
  rw [if_neg hcount, if_neg hcount]
  rcases unpackLoop_cases src n.toNat 0 2 b.entries (by omega) (by omega) with
    ⟨e1, e2⟩ | ⟨entries', off, e1, hoff, -, hle, e2⟩
  · rw [e1, e2]
    exact .inl ⟨rfl, rfl⟩
  rw [e1, e2, List.drop_zero]
  rw [List.drop_zero] at hle
  dsimp only [Option.bind_some]
  by_cases h3 : off + 2 > src.length
  · rw [if_pos h3, take16_drop_none h3]
    exact .inl ⟨rfl, rfl⟩
  obtain ⟨len, elen, hlen⟩ := u16At_of_le src off (Nat.le_of_not_gt h3)
  rw [if_neg h3, elen, hlen]
  dsimp only [Option.bind_some]
  by_cases hmax : len.toNat > maxPayload
  · rw [if_pos (by simp [hmax]), if_pos hmax]
    exact .inl ⟨rfl, rfl⟩
  rw [if_neg hmax]
  by_cases h4 : off + 2 + len.toNat > src.length
  · rw [if_pos (by simp [h4]), takeN_drop_none (by omega) h4]
    exact .inl ⟨rfl, rfl⟩
  obtain ⟨v, ev, hv⟩ := memcpyIn_of_le b.tbs (Nat.le_of_not_gt hmax) (Nat.le_of_not_gt h4)
  rw [if_neg (by simp only [Bool.or_eq_true, decide_eq_true_eq, not_or]; exact ⟨hmax, h4⟩),
    takeN_drop (Nat.le_of_not_gt h4), ev]
  refine .inr ⟨_, _, rfl, ⟨Nat.le_of_not_gt hcount, hle, Nat.le_of_not_gt hmax⟩,
    Nat.le_of_not_gt h4, ?_⟩
  simp only [Option.bind_some, BundleBuf.toBundle, hv, List.length_drop, Option.some.injEq,
    Prod.mk.injEq, true_and]
  omega

/-! ## Packing refines the list packer -/

theorem EntryBuf.toEntry_wf {e : EntryBuf} (h : e.commitLen.toNat ≤ commitEntryMax) :
    e.toEntry.Wf ∧ e.toEntry.commit.length = e.commitLen.toNat := by
  have hlen : (e.commit.toList.take e.commitLen.toNat).length = e.commitLen.toNat := by
    rw [List.length_take, Vector.length_toList]
    omega
  refine ⟨⟨e.id.toNat_lt, ?_, Vector.length_toList⟩, hlen⟩
  show (e.commit.toList.take e.commitLen.toNat).length ≤ _
  omega

theorem BundleBuf.Fits.length_entries {b : BundleBuf} (h : b.Fits) :
    b.toBundle.entries.length = b.nEntries.toNat := by
  have := h.count
  simp only [toBundle, List.length_map, List.length_take, Vector.length_toList]
  omega

theorem BundleBuf.Fits.length_tbs {b : BundleBuf} (h : b.Fits) :
    b.toBundle.tbs.length = b.tbsLen.toNat := by
  have := h.tbs
  simp only [toBundle, List.length_take, Vector.length_toList]
  omega

theorem BundleBuf.Fits.wf {b : BundleBuf} (h : b.Fits) : b.toBundle.Wf where
  entries := by
    intro x hx
    obtain ⟨e, he, rfl⟩ := List.mem_map.mp hx
    exact (EntryBuf.toEntry_wf (h.commit e he)).1
  count := by rw [h.length_entries]; exact h.count
  tbs := by rw [h.length_tbs]; exact h.tbs

/-- An entry that fits is written out in full. -/
theorem packEntryBuf_of_le {cap : Nat} {e : EntryBuf} (h : e.commitLen.toNat ≤ commitEntryMax)
    (hcap : dst.length + e.toEntry.encode.length ≤ cap) :
    packEntryBuf cap dst e = .ok (dst ++ e.toEntry.encode) := by
  obtain ⟨hwf, hlen⟩ := EntryBuf.toEntry_wf h
  have hsig : e.commitSig.toList.length = frameSigSize := Vector.length_toList
  have hc : (e.commit.toList.take e.commitLen.toNat).length = e.commitLen.toNat := hlen
  rw [hwf.length_encode, hlen] at hcap
  unfold packEntryBuf
  rw [if_neg (by omega), put_of_le (by rw [length_be16]; omega)]
  dsimp only [Except.bind]
  rw [put_of_le (by simp only [List.length_append, length_be16]; omega)]
  dsimp only [Except.bind]
  simp only [List.length_append, length_be16]
  rw [if_neg (by omega), if_neg (by omega), memcpyOut_of_le _ h]
  dsimp only [Except.bind]
  rw [put_of_le (by simp only [List.length_append, length_be16, hc]; omega)]
  dsimp only [Except.bind]
  rw [if_neg (by simp only [List.length_append, length_be16, hc]; omega),
    put_of_le (by simp only [List.length_append, length_be16, hc, hsig]; omega)]
  simp only [CommitEntry.encode, hlen, List.append_assoc]
  rfl

/-- The loop writes the entries `i`, …, `i + k - 1`. -/
theorem packLoop_of_le (cap : Nat) (entries : Vector EntryBuf maxSigners) (k : Nat) :
    ∀ (i : Nat) (dst : Bytes), i + k ≤ maxSigners →
    (∀ e ∈ (entries.toList.drop i).take k, e.commitLen.toNat ≤ commitEntryMax) →
    dst.length + ((((entries.toList.drop i).take k).map EntryBuf.toEntry).flatMap
      CommitEntry.encode).length ≤ cap →
    packLoop cap entries k i dst = .ok (dst ++
      (((entries.toList.drop i).take k).map EntryBuf.toEntry).flatMap CommitEntry.encode) := by
  induction k with
  | zero => intro i dst _ _ _; simp [packLoop]
  | succ k ih =>
    intro i dst hi hle hcap
    have hlt : i < maxSigners := by omega
    have hdrop : (entries.toList.drop i).take (k + 1) =
        entries[i] :: (entries.toList.drop (i + 1)).take k := by
      rw [List.drop_eq_getElem_cons (by rw [Vector.length_toList]; exact hlt),
        List.take_succ_cons, Vector.getElem_toList]
    rw [hdrop] at hle hcap ⊢
    have he := hle entries[i] (List.mem_cons_self ..)
    rw [List.map_cons, List.flatMap_cons, List.length_append] at hcap
    unfold packLoop
    rw [Vector.getElem?_eq_getElem hlt]
    dsimp only
    rw [packEntryBuf_of_le he (by omega)]
    dsimp only [Except.bind]
    rw [ih _ _ (by omega) (fun e h => hle e (List.mem_cons_of_mem _ h))
      (by rw [List.length_append]; omega), List.map_cons, List.flatMap_cons, List.append_assoc]

/-- **The packer on buffers writes the wire form**, whenever it fits. -/
theorem BundleBuf.Fits.pack_of_le {cap : Nat} {b : BundleBuf} (h : b.Fits)
    (hcap : b.toBundle.encode.length ≤ cap) : b.pack cap = .ok b.toBundle.encode := by
  have hn := h.length_entries
  have ht := h.length_tbs
  have htbs := h.tbs
  have hlen : (b.tbs.toList.take b.tbsLen.toNat).length = b.tbsLen.toNat := ht
  simp only [CommitBundle.encode, List.length_append, length_be16, ht] at hcap
  have hloop := packLoop_of_le cap b.entries b.nEntries.toNat 0 (be16 b.nEntries.toNat)
    (by have := h.count; omega)
    (by rw [List.drop_zero]; exact h.commit)
    (by rw [List.drop_zero, length_be16]; show 2 + (b.toBundle.entries.flatMap _).length ≤ _; omega)
  rw [List.drop_zero] at hloop
  have hes : (b.toBundle.entries.flatMap CommitEntry.encode).length + 4 + b.tbsLen.toNat ≤ cap := by
    omega
  change packLoop cap b.entries b.nEntries.toNat 0 (be16 b.nEntries.toNat) =
    .ok (be16 b.nEntries.toNat ++ b.toBundle.entries.flatMap CommitEntry.encode) at hloop
  unfold BundleBuf.pack
  rw [if_neg (by omega), put_of_le (by simp only [List.length_nil, length_be16]; omega)]
  dsimp only [Except.bind, List.nil_append]
  rw [hloop]
  dsimp only
  rw [if_neg (by simp only [List.length_append, length_be16]; omega),
    put_of_le (by simp only [List.length_append, length_be16]; omega)]
  dsimp only
  rw [if_neg (by
    simp only [Bool.or_eq_true, decide_eq_true_eq, not_or, List.length_append, length_be16]
    omega), memcpyOut_of_le _ htbs]
  dsimp only
  rw [put_of_le (by simp only [List.length_append, length_be16, hlen]; omega)]
  simp only [CommitBundle.encode, hn, ht]
  rfl

/-! ## The codec -/

/-- `assemble` is fed the bundle and nothing else of the struct. -/
theorem assembleIn_eq {b b' : BundleBuf} (h : b.Fits) (h' : b'.Fits)
    (e : b'.toBundle = b.toBundle) : assembleIn b' = assembleIn b := by
  have text {b : BundleBuf} (h : b.Fits) : assembleIn b =
      bytesToHex b.toBundle.tbs ++ [10] ++ decimal b.toBundle.entries.length ++ [10] ++
        b.toBundle.entries.flatMap fun e =>
          decimal e.id ++ [32] ++ bytesToHex e.commit ++ [10] := by
    rw [h.length_entries]
    simp only [assembleIn, BundleBuf.toBundle, List.flatMap_map]
    rfl
  rw [text h', text h, e]

/-- **The commit bundle codec.** A struct whose lengths stay within its arrays is
packed, and unpacking the result, whatever follows it and whatever the
destination held, gives the same length, entries and message, and so the same
text for `assemble`. Conversely the unpacker never leaves its source, and what it
accepts packs, in a buffer of the length it reports, to the bytes it read. -/
theorem commitBundle_codec :
    (∀ b : BundleBuf, b.Fits → ∃ w, b.pack commitBundleWireMax = .ok w ∧
      ∀ (rest : Bytes) (d : BundleBuf), ∃ d', d.unpack (w ++ rest) = .ok (d', w.length) ∧
        d'.toBundle = b.toBundle ∧ assembleIn d' = assembleIn b) ∧
    ∀ (src : Bytes) (d : BundleBuf), d.unpack src ≠ .error .fault ∧
      ∀ d' off, d.unpack src = .ok (d', off) →
        off ≤ src.length ∧ d'.pack off = .ok (src.take off) := by
  constructor
  · intro b h
    refine ⟨_, h.pack_of_le h.wf.length_encode_le, fun rest d => ?_⟩
    have hround := unpackCommitBundle_pack h.wf
      (packCommitBundle_of_le h.wf h.wf.length_encode_le) rest
    rcases BundleBuf.unpack_cases (b.toBundle.encode ++ rest) d with ⟨-, e⟩ | ⟨d', off, e, hd', -, e'⟩
    · rw [hround] at e
      cases e
    · rw [hround] at e'
      simp only [Option.some.injEq, Prod.mk.injEq] at e'
      obtain ⟨hb, rfl⟩ := e'
      exact ⟨d', e, hb.symm, assembleIn_eq h hd' hb.symm⟩
  · intro src d
    rcases BundleBuf.unpack_cases src d with ⟨e, -⟩ | ⟨d', off, e, hd', hoff, e'⟩
    · rw [e]
      exact ⟨nofun, nofun⟩
    · rw [e]
      refine ⟨nofun, fun d₂ off₂ h₂ => ?_⟩
      cases h₂
      obtain ⟨-, r, hsrc, hlen⟩ := unpackCommitBundle_encode e'
      refine ⟨hoff, ?_⟩
      rw [hd'.pack_of_le (Nat.le_of_eq hlen.symm), hsrc, hlen, List.take_left]

/-- A struct with two entries, one of them without a commitment; the other slots are unused. -/
def pairBuf : BundleBuf where
  nEntries := 2
  entries := Vector.ofFn fun i =>
    if i.val = 0 then ⟨3, 2, Vector.replicate _ 7, Vector.replicate _ 9⟩
    else ⟨5, 0, Vector.replicate _ 8, Vector.replicate _ 6⟩
  tbsLen := 4
  tbs := Vector.replicate _ 5

theorem commitBundle_codec_pair : (pairBuf.Fits ∧ pairBuf.toBundle.entries.length = 2) ∧
    ∃ w d, pairBuf.pack commitBundleWireMax = .ok w ∧ pairBuf.unpack w = .ok (d, w.length) ∧
      d.toBundle = pairBuf.toBundle ∧ d.pack w.length = .ok (w.take w.length) := by
  have hf : pairBuf.Fits := by
    refine ⟨by decide, ?_, by decide⟩
    intro e he
    have h := List.mem_of_mem_take he
    simp only [pairBuf, Vector.toList_ofFn, List.mem_ofFn] at h
    obtain ⟨i, rfl⟩ := h
    split <;> decide
  have htwo : pairBuf.toBundle.entries.length = 2 := by decide +kernel
  obtain ⟨w, hw, h⟩ := commitBundle_codec.1 pairBuf hf
  obtain ⟨d, hd, e, -⟩ := h [] pairBuf
  rw [List.append_nil] at hd
  exact ⟨⟨hf, htwo⟩, w, d, hw, hd, e, ((commitBundle_codec.2 w pairBuf).2 d w.length hd).2⟩

end FrostSshCa
