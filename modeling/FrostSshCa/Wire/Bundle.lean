import FrostSshCa.Wire.Frame
import Mathlib.Tactic.Common
import Mathlib.Order.Basic

/-!
# The authenticated commit bundle

`frost_pack_commit_bundle` and `frost_unpack_commit_bundle`. A `RELAY_COMMIT`
payload is `[n_entries]`, the entries `[id][commit_len][commit][commit_sig]`,
then `[tbs_len][tbs]`. The packer threads the write offset through its
capacity checks; the unpacker consumes the source from the front, so
"`off + k > src_len`" reads "fewer than `k` bytes are left".

`buildCommitSignBuf` is the byte string a commitment's RSA signature covers.
-/

namespace FrostSshCa

/-- `struct frost_commit_entry`; `commit_len` is the length of `commit`. -/
structure CommitEntry where
  id : Nat
  commit : Bytes
  commitSig : Bytes
  deriving DecidableEq, Repr

/-- `struct frost_commit_bundle`; `n_entries` and `tbs_len` are the lengths. -/
structure CommitBundle where
  entries : List CommitEntry
  tbs : Bytes
  deriving DecidableEq, Repr

/-- `FROST_COMMIT_BUNDLE_WIRE_MAX` -/
def commitBundleWireMax : Nat :=
  2 + maxSigners * (2 + 2 + commitEntryMax + frameSigSize) + 2 + maxPayload

/-! ## Packing -/

def CommitEntry.encode (e : CommitEntry) : Bytes :=
  be16 e.id ++ be16 e.commit.length ++ e.commit ++ e.commitSig

/-- The entry loop of `frost_pack_commit_bundle`, from write offset `off`. -/
def packEntries (dstCap : Nat) : Nat → List CommitEntry → Option Bytes
  | _, [] => some []
  | off, e :: es =>
    if off + 2 + 2 > dstCap then none
    else if e.commit.length > commitEntryMax then none
    else if off + 4 + e.commit.length > dstCap then none
    else if off + 4 + e.commit.length + frameSigSize > dstCap then none
    else (e.encode ++ ·) <$> packEntries dstCap (off + 4 + e.commit.length + frameSigSize) es

def packCommitBundle (dstCap : Nat) (b : CommitBundle) : Option Bytes :=
  if 2 > dstCap then none
  else match packEntries dstCap 2 b.entries with
    | none => none
    | some es =>
      if 2 + es.length + 2 > dstCap then none
      else if b.tbs.length > maxPayload || 2 + es.length + 2 + b.tbs.length > dstCap then none
      else some (be16 b.entries.length ++ es ++ be16 b.tbs.length ++ b.tbs)

/-! ## Unpacking -/

def take16 : Bytes → Option (Nat × Bytes)
  | hi :: lo :: r => some (ofBe16 hi lo, r)
  | _ => none

def takeN (n : Nat) (bs : Bytes) : Option (Bytes × Bytes) :=
  if bs.length < n then none else some (bs.take n, bs.drop n)

/-- The entry loop of `frost_unpack_commit_bundle`. -/
def unpackEntries : Nat → Bytes → Option (List CommitEntry × Bytes)
  | 0, bs => some ([], bs)
  | n + 1, bs =>
    (take16 bs).bind fun (id, bs) =>
    (take16 bs).bind fun (len, bs) =>
    if len > commitEntryMax then none
    else
      (takeN len bs).bind fun (commit, bs) =>
      (takeN frameSigSize bs).bind fun (sig, bs) =>
      (unpackEntries n bs).bind fun (es, bs) =>
      some ({ id := id, commit := commit, commitSig := sig } :: es, bs)

/-- The bundle read from the front of `src` and the offset reached. -/
def unpackCommitBundle (src : Bytes) : Option (CommitBundle × Nat) :=
  (take16 src).bind fun (n, bs) =>
  if n > maxSigners then none
  else
    (unpackEntries n bs).bind fun (es, bs) =>
    (take16 bs).bind fun (len, bs) =>
    if len > maxPayload then none
    else (takeN len bs).bind fun (tbs, bs) =>
      some ({ entries := es, tbs := tbs }, src.length - bs.length)

/-! ## Round trip -/

@[simp] theorem take16_be16 {n : Nat} (h : n < 65536) (r : Bytes) :
    take16 (be16 n ++ r) = some (n, r) := by
  simp [be16, take16, ofBe16_be16 h]

@[simp] theorem takeN_append (bs r : Bytes) : takeN bs.length (bs ++ r) = some (bs, r) := by
  simp [takeN]

theorem takeN_append_of_length {n : Nat} {bs : Bytes} (h : bs.length = n) (r : Bytes) :
    takeN n (bs ++ r) = some (bs, r) := by
  subst h; exact takeN_append bs r

/-- The fields fit their wire slots. -/
structure CommitEntry.Wf (e : CommitEntry) : Prop where
  id : e.id < 65536
  commit : e.commit.length ≤ commitEntryMax
  sig : e.commitSig.length = frameSigSize

structure CommitBundle.Wf (b : CommitBundle) : Prop where
  entries : ∀ e ∈ b.entries, e.Wf
  count : b.entries.length ≤ maxSigners
  tbs : b.tbs.length ≤ maxPayload

theorem unpackEntries_pack {cap : Nat} {es : List CommitEntry} (hwf : ∀ e ∈ es, e.Wf) :
    ∀ {off : Nat} {w : Bytes}, packEntries cap off es = some w → ∀ r : Bytes,
      unpackEntries es.length (w ++ r) = some (es, r) := by
  induction es with
  | nil =>
    intro off w h r
    simp only [packEntries, Option.some.injEq] at h
    subst h
    rfl
  | cons e es ih =>
    intro off w h r
    obtain ⟨hid, hlen, hsig⟩ := hwf e (List.mem_cons_self ..)
    have hlen' : ¬ e.commit.length > commitEntryMax := by omega
    have hl16 : e.commit.length < 65536 := by unfold commitEntryMax at hlen; omega
    simp only [packEntries, if_neg hlen'] at h
    split at h; · cases h
    split at h; · cases h
    split at h; · cases h
    rw [Option.map_eq_map, Option.map_eq_some_iff] at h
    obtain ⟨w', hw', rfl⟩ := h
    have ih' := ih (fun x hx => hwf x (List.mem_cons_of_mem _ hx)) hw' r
    simp only [CommitEntry.encode, List.append_assoc, List.length_cons, unpackEntries,
      take16_be16 hid, take16_be16 hl16, Option.bind_some, if_neg hlen', takeN_append,
      takeN_append_of_length hsig, ih']

theorem packCommitBundle_eq {cap : Nat} {b : CommitBundle} {w : Bytes}
    (h : packCommitBundle cap b = some w) : ∃ es, packEntries cap 2 b.entries = some es ∧
      b.tbs.length ≤ maxPayload ∧ w = be16 b.entries.length ++ es ++ be16 b.tbs.length ++
        b.tbs := by
  simp only [packCommitBundle] at h
  split at h; · cases h
  split at h
  · cases h
  · next es hes =>
    split at h; · cases h
    split at h
    · cases h
    · next hb =>
      simp only [Bool.or_eq_true, decide_eq_true_eq, not_or] at hb
      exact ⟨es, hes, by omega, (Option.some.inj h).symm⟩

/-- **Unpacking inverts packing**, whatever follows the packed bytes. -/
theorem unpackCommitBundle_pack {cap : Nat} {b : CommitBundle} {w : Bytes} (hwf : b.Wf)
    (h : packCommitBundle cap b = some w) (r : Bytes) :
    unpackCommitBundle (w ++ r) = some (b, w.length) := by
  obtain ⟨es, hes, htbs, rfl⟩ := packCommitBundle_eq h
  have hn : b.entries.length < 65536 := by have := hwf.count; unfold maxSigners at this; omega
  have hn' : ¬ b.entries.length > maxSigners := by have := hwf.count; omega
  have ht : b.tbs.length < 65536 := by unfold maxPayload at htbs; omega
  have ht' : ¬ b.tbs.length > maxPayload := by omega
  simp only [unpackCommitBundle, List.append_assoc, take16_be16 hn, Option.bind_some, if_neg hn',
    unpackEntries_pack hwf.entries hes, take16_be16 ht, if_neg ht', takeN_append]
  simp only [List.length_append, length_be16, Option.some.injEq, Prod.mk.injEq, true_and]
  omega

/-! ## The wire form

What the packer writes is `encode`, and what the unpacker accepts begins with the
`encode` of what it returns. -/

def CommitBundle.encode (b : CommitBundle) : Bytes :=
  be16 b.entries.length ++ b.entries.flatMap CommitEntry.encode ++ be16 b.tbs.length ++ b.tbs

theorem CommitEntry.Wf.length_encode {e : CommitEntry} (h : e.Wf) :
    e.encode.length = 4 + e.commit.length + frameSigSize := by
  simp only [CommitEntry.encode, List.length_append, length_be16, h.sig]

theorem packEntries_of_le {cap : Nat} {es : List CommitEntry} (hwf : ∀ e ∈ es, e.Wf) :
    ∀ {off : Nat}, off + (es.flatMap CommitEntry.encode).length ≤ cap →
      packEntries cap off es = some (es.flatMap CommitEntry.encode) := by
  induction es with
  | nil => intro off _; rfl
  | cons e es ih =>
    intro off h
    have he := hwf e (List.mem_cons_self ..)
    have hlen := he.length_encode
    have hc := he.commit
    rw [List.flatMap_cons, List.length_append, hlen] at h
    have ih' : packEntries cap (off + 4 + e.commit.length + frameSigSize) es = _ :=
      ih (fun x hx => hwf x (List.mem_cons_of_mem _ hx)) (by omega)
    unfold packEntries
    rw [if_neg (by omega), if_neg (by omega), if_neg (by omega), if_neg (by omega), ih']
    rfl

/-- Packing succeeds as soon as the wire form fits. -/
theorem packCommitBundle_of_le {cap : Nat} {b : CommitBundle} (hwf : b.Wf)
    (h : b.encode.length ≤ cap) : packCommitBundle cap b = some b.encode := by
  simp only [CommitBundle.encode, List.length_append, length_be16] at h
  have ht := hwf.tbs
  have hes : packEntries cap 2 b.entries = _ := packEntries_of_le hwf.entries (by omega)
  unfold packCommitBundle
  rw [if_neg (by omega), hes]
  dsimp only
  rw [if_neg (by omega), if_neg]
  · rfl
  · simp only [Bool.or_eq_true, decide_eq_true_eq, not_or]
    omega

theorem flatMap_encode_length_le {es : List CommitEntry} (hwf : ∀ e ∈ es, e.Wf) :
    (es.flatMap CommitEntry.encode).length ≤
      es.length * (2 + 2 + commitEntryMax + frameSigSize) := by
  induction es with
  | nil => simp
  | cons e es ih =>
    have he := hwf e (List.mem_cons_self ..)
    have hlen := he.length_encode
    have hc := he.commit
    have ih' := ih fun x hx => hwf x (List.mem_cons_of_mem _ hx)
    rw [List.flatMap_cons, List.length_append, hlen, List.length_cons, Nat.add_mul]
    omega

/-- Any well-formed bundle fits the buffer its callers provide. -/
theorem CommitBundle.Wf.length_encode_le {b : CommitBundle} (hwf : b.Wf) :
    b.encode.length ≤ commitBundleWireMax := by
  have h1 := flatMap_encode_length_le hwf.entries
  have h2 : b.entries.length * (2 + 2 + commitEntryMax + frameSigSize) ≤
      maxSigners * (2 + 2 + commitEntryMax + frameSigSize) := Nat.mul_le_mul_right _ hwf.count
  have h3 := hwf.tbs
  simp only [CommitBundle.encode, List.length_append, length_be16, commitBundleWireMax]
  omega

theorem be16_ofBe16 (hi lo : UInt8) : be16 (ofBe16 hi lo) = [hi, lo] := by
  have h1 := hi.toNat_lt; have h2 := lo.toNat_lt
  simp only [be16, ofBe16, List.cons.injEq, and_true]
  constructor
  · apply UInt8.toNat_inj.mp
    rw [UInt8.toNat_ofNat']
    omega
  · apply UInt8.toNat_inj.mp
    rw [UInt8.toNat_ofNat']
    omega

theorem take16_some {bs r : Bytes} {n : Nat} (h : take16 bs = some (n, r)) :
    n < 65536 ∧ bs = be16 n ++ r := by
  match bs, h with
  | hi :: lo :: r', h =>
    simp only [take16, Option.some.injEq, Prod.mk.injEq] at h
    obtain ⟨rfl, rfl⟩ := h
    exact ⟨ofBe16_lt hi lo, by rw [be16_ofBe16]; rfl⟩

theorem takeN_some {n : Nat} {bs x r : Bytes} (h : takeN n bs = some (x, r)) :
    x.length = n ∧ bs = x ++ r := by
  unfold takeN at h
  split at h
  · cases h
  · next hn =>
    cases h
    exact ⟨by rw [List.length_take]; omega, (List.take_append_drop n bs).symm⟩

theorem unpackEntries_encode {n : Nat} : ∀ {bs r : Bytes} {es : List CommitEntry},
    unpackEntries n bs = some (es, r) →
      es.length = n ∧ (∀ e ∈ es, e.Wf) ∧ bs = es.flatMap CommitEntry.encode ++ r := by
  induction n with
  | zero =>
    intro bs r es h
    cases h
    exact ⟨rfl, nofun, rfl⟩
  | succ n ih =>
    intro bs r es h
    unfold unpackEntries at h
    obtain ⟨⟨id, b1⟩, h1, h⟩ := Option.bind_eq_some_iff.mp h
    obtain ⟨⟨len, b2⟩, h2, h⟩ := Option.bind_eq_some_iff.mp h
    dsimp only at h
    split at h; · cases h
    next hlen =>
    obtain ⟨⟨c, b3⟩, h3, h⟩ := Option.bind_eq_some_iff.mp h
    obtain ⟨⟨sg, b4⟩, h4, h⟩ := Option.bind_eq_some_iff.mp h
    obtain ⟨⟨es', b5⟩, h5, h⟩ := Option.bind_eq_some_iff.mp h
    cases h
    obtain ⟨hid, rfl⟩ := take16_some h1
    obtain ⟨-, rfl⟩ := take16_some h2
    obtain ⟨rfl, rfl⟩ := takeN_some h3
    obtain ⟨hsg, rfl⟩ := takeN_some h4
    obtain ⟨rfl, hwf, rfl⟩ := ih h5
    refine ⟨rfl, ?_, ?_⟩
    · intro e he
      rcases List.mem_cons.mp he with rfl | he
      · exact ⟨hid, Nat.le_of_not_gt hlen, hsg⟩
      · exact hwf e he
    · simp only [List.flatMap_cons, CommitEntry.encode, List.append_assoc]

/-- **What is accepted is in wire form**: the source begins with the `encode` of
the bundle read, of the length reported. -/
theorem unpackCommitBundle_encode {src : Bytes} {b : CommitBundle} {k : Nat}
    (h : unpackCommitBundle src = some (b, k)) :
    b.Wf ∧ ∃ r, src = b.encode ++ r ∧ k = b.encode.length := by
  unfold unpackCommitBundle at h
  obtain ⟨⟨n, b1⟩, h1, h⟩ := Option.bind_eq_some_iff.mp h
  dsimp only at h
  split at h; · cases h
  next hn =>
  obtain ⟨⟨es, b2⟩, h2, h⟩ := Option.bind_eq_some_iff.mp h
  obtain ⟨⟨len, b3⟩, h3, h⟩ := Option.bind_eq_some_iff.mp h
  dsimp only at h
  split at h; · cases h
  next hlen =>
  obtain ⟨⟨tbs, b4⟩, h4, h⟩ := Option.bind_eq_some_iff.mp h
  cases h
  obtain ⟨-, rfl⟩ := take16_some h1
  obtain ⟨rfl, hwf, rfl⟩ := unpackEntries_encode h2
  obtain ⟨-, rfl⟩ := take16_some h3
  obtain ⟨rfl, rfl⟩ := takeN_some h4
  refine ⟨⟨hwf, Nat.le_of_not_gt hn, Nat.le_of_not_gt hlen⟩, b4, ?_, ?_⟩
  · simp only [CommitBundle.encode, List.append_assoc]
  · simp only [CommitBundle.encode, List.length_append]
    omega

/-- The fields of an unpacked bundle fit. -/
theorem unpackCommitBundle_le {src : Bytes} {b : CommitBundle} {k : Nat}
    (h : unpackCommitBundle src = some (b, k)) :
    b.tbs.length ≤ maxPayload ∧ ∀ e ∈ b.entries, e.commit.length ≤ commitEntryMax := by
  have hwf := (unpackCommitBundle_encode h).1
  exact ⟨hwf.tbs, fun e he => (hwf.entries e he).commit⟩

/-! ## The signed buffer -/

/-- `build_commit_sign_buf`: `[tbs_len][tbs][commit]`, or `none` when `out` is
too small for it. -/
def buildCommitSignBuf (tbs commit : Bytes) (outMax : Nat) : Option Bytes :=
  if 2 + tbs.length + commit.length > outMax then none
  else some (be16 tbs.length ++ tbs ++ commit)

/-- The size of `sign_buf` and `verify_buf`. -/
def signBufMax : Nat := 2 * maxPayload + 4

theorem buildCommitSignBuf_some {tbs commit : Bytes} (ht : tbs.length ≤ maxPayload)
    (hc : commit.length ≤ maxPayload) :
    buildCommitSignBuf tbs commit signBufMax = some (be16 tbs.length ++ tbs ++ commit) := by
  unfold buildCommitSignBuf signBufMax
  rw [if_neg (by omega)]

/-- The length prefix fixes where the message ends. -/
theorem signBuf_inj {t t' c c' : Bytes} (ht : t.length < 65536) (ht' : t'.length < 65536)
    (h : be16 t.length ++ t ++ c = be16 t'.length ++ t' ++ c') : t = t' ∧ c = c' := by
  have e := congrArg take16 h
  rw [List.append_assoc, List.append_assoc, take16_be16 ht, take16_be16 ht'] at e
  simp only [Option.some.injEq, Prod.mk.injEq] at e
  exact List.append_inj e.2 e.1

end FrostSshCa
