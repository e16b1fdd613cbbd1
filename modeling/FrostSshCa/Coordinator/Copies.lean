import FrostSshCa.Lib.Copy
import FrostSshCa.Coordinator.Buffers
import Mathlib.Data.List.TakeWhile

/-!
# The copies of a dispatch

Every `memcpy` and every hex conversion made while `process_signer_frame` handles a
frame, with the bytes that may be read and the room there is. The handlers store what
they have bounded and the rest of the code copies what is stored; what comes straight
from the frame is bounded by the receive loop as far as the payload goes, and for a
signature by nobody.
-/

namespace FrostSshCa.Coordinator

open Lib

/-! ## Copying helpers -/

/-- `bytes_to_hex`: two characters a byte, and the terminator. -/
def hexCopy (n valid room : Nat) : Copy := ⟨n, valid, 2 * n + 1, room⟩

/-- `print_bytes_as_hex` -/
def printBytesAsHex (n valid : Nat) : Copy := hexCopy n valid maxPayload

/-- The room in row `i` of an array of `rows` buffers. -/
def rowRoom (i rows room : Nat) : Nat := if i < rows then room else 0

/-- `signer_send`: `frost_encode_frame` fills a buffer of its size, or refuses. -/
def sendCopies (slen sigValid plen valid : Nat) : List Copy :=
  if plen > maxPayload then []
  else (if slen = 0 then [] else [.move slen sigValid (slen + plen)]) ++
    if plen = 0 then [] else [.move plen valid plen]

variable (c : Coord)

/-- `signer_send` to every registered signer. -/
def broadcastCopies (plen valid : Nat) :
    List Copy := c.signers.flatMap fun _ => sendCopies 0 0 plen valid

/-! ## The ceremonies -/

/-- `relay_r1_to_all`: the package goes behind the id, and out of that buffer to all others. -/
def relayR1Copies (sender : Nat) : List Copy :=
  .move (c.sg sender).r1Pkg.length maxPayload maxPayload ::
    c.signers.flatMap fun i => if i ≠ sender then
      sendCopies frameSigSize frameSigSize ((c.sg sender).r1Pkg.length + 2) (maxPayload + 2)
    else []

def checkR1Copies : List Copy :=
  if c.count (fun r => 0 < r.r1Pkg.length) < c.n then [] else c.signers.flatMap (relayR1Copies c)

/-- `ROUND1_PKG` and `REFRESH_R1`: the signature is copied at the length its sender gives. -/
def storeR1Copies (i : Nat) (f : Frame) (got : Nat) : List Copy :=
  if f.payload.length > maxPayload then []
  else .move f.sig.length (got - frameHdr) frameSigSize ::
    .move f.payload.length (got - (frameHdr + frameSigSize)) maxPayload ::
    checkR1Copies (fileR1 c i f)

/-- `ROUND2_PKG` and `REFRESH_R2`: the package is printed, and relayed if its target is there. -/
def secondCopies (f : Frame) (got : Nat) : List Copy :=
  match r2Target f.payload with
  | none => []
  | some target =>
    printBytesAsHex f.payload.length (got - (frameHdr + frameSigSize)) ::
      if target ∈ c.signers then
        sendCopies f.sig.length (got - frameHdr) f.payload.length (got - (frameHdr + frameSigSize))
      else []

/-- The text of `DKG_DONE` is in a buffer of 32 bytes, `REFRESH_FINALIZE` has none. -/
def checkR2Copies (payload : Bytes) : List Copy :=
  if c.count (·.r2Complete) < c.n then [] else broadcastCopies c payload.length 32

def fileReportCopies (f : Frame) (got : Nat) : Copy :=
  .move f.payload.length (got - (frameHdr + frameSigSize)) maxPayload

/-- `g_pub_key_pkg` and the line of hex for `pub_key_pkg.hex`. -/
def storePubKeyPkgCopies (f : Frame) (got : Nat) : List Copy :=
  [.move f.payload.length (got - (frameHdr + frameSigSize)) maxPayload,
    hexCopy f.payload.length maxPayload (2 * maxPayload + 2)]

def onRefreshCompleteCopies (i : Nat) (f : Frame) (got : Nat) : List Copy :=
  let c' := fileReport c i f
  fileReportCopies f got ::
    if c'.refreshCompleteCount < c'.n then []
    else if c'.pubKeyPkg.length = 0 ∧ 0 < f.payload.length then storePubKeyPkgCopies f got
    else []

def onPubKeyPkgCopies (i : Nat) (f : Frame) (got : Nat) : List Copy :=
  let c' := fileReport c i f
  fileReportCopies f got ::
    if c'.refreshCompleteCount < c'.n then []
    else if f.payload.length > maxPayload then []
    else storePubKeyPkgCopies f got

/-! ## Forming a session -/

/-- The entries of the bundle, as far as the commitments fit them. -/
def entryCopies (chosen : List Nat) : List Copy :=
  (chosen.zipIdx.takeWhile fun p => (c.sg p.1).commit.length ≤ commitEntryMax).flatMap fun p =>
    [.move (c.sg p.1).commit.length maxPayload (rowRoom p.2 maxSigners commitEntryMax),
      .move frameSigSize frameSigSize (rowRoom p.2 maxSigners frameSigSize)]

/-- `frost_assemble_signing_package`: the TBS and each commitment as hex. -/
def assembleCopies (b : CommitBundle) : List Copy :=
  hexCopy b.tbs.length maxPayload (2 * maxPayload + 2) ::
    b.entries.map fun e => hexCopy e.commit.length commitEntryMax (2 * commitEntryMax + 2)

/-- The entry loop of `frost_pack_commit_bundle`. -/
def packEntryCopies (dstCap : Nat) : Nat → List CommitEntry → List Copy
  | _, [] => []
  | off, e :: es =>
    if off + 2 + 2 > dstCap then []
    else if e.commit.length > commitEntryMax then []
    else if off + 4 + e.commit.length > dstCap then []
    else .move e.commit.length commitEntryMax (dstCap - (off + 4)) ::
      if off + 4 + e.commit.length + frameSigSize > dstCap then []
      else .move frameSigSize frameSigSize (dstCap - (off + 4 + e.commit.length)) ::
        packEntryCopies dstCap (off + 4 + e.commit.length + frameSigSize) es

def packCopies (dstCap : Nat) (b : CommitBundle) : List Copy :=
  packEntryCopies dstCap 2 b.entries ++ match packEntries dstCap 2 b.entries with
    | none => []
    | some es =>
      if 2 + es.length + 2 > dstCap then []
      else if b.tbs.length > maxPayload || 2 + es.length + 2 + b.tbs.length > dstCap then []
      else [.move b.tbs.length maxPayload (dstCap - (2 + es.length + 2))]

/-- The session record, then the bundle to each member. An id takes two bytes. -/
def openCopies (chosen : List Nat) (spkg wire : Bytes) : List Copy :=
  .move spkg.length maxPayload maxPayload ::
    .move (2 * chosen.length) (2 * maxSigners) (2 * maxSigners) ::
    chosen.flatMap fun _ => sendCopies 0 0 wire.length commitBundleWireMax

/-- `roast_try_form_session` -/
def formCopies (env : Env) : List Copy :=
  if c.signingDone then []
  else
    let chosen := chooseSigners c
    if numSigners c c.t c.signers 0 < c.t then []
    else if chosen.length < c.t then []
    else match roastAlloc c with
      | none => []
      | some _ => entryCopies c chosen ++ match buildBundle c chosen with
        | none => []
        | some bundle =>
          .move bundle.tbs.length maxPayload maxPayload :: assembleCopies bundle ++
            match env.assemble bundle with
            | none => []
            | some spkg => packCopies commitBundleWireMax bundle ++
              match packCommitBundle commitBundleWireMax bundle with
              | none => []
              | some wire => if wire.length > maxPayload then [] else openCopies chosen spkg wire

def tryFormCopies (env : Env) : List Copy :=
  if !c.signingDone && roastActiveCount c < maxSessions then formCopies c env else []

/-! ## Aggregation -/

/-- A `SIGN_REQ` with `g_tbs`. -/
def requestCopies : List Copy := sendCopies 0 0 c.tbs.length maxPayload

def broadcastSignReqCopies : List Copy :=
  c.signers.flatMap fun id =>
    if isBlacklisted c id || (c.sg id).signPhase = .noKey then [] else requestCopies c

def failCulpritCopies (env : Env) (k : Fin maxSessions) (culprit : Nat) : List Copy :=
  ((c.sessions k).signerIds.flatMap fun id =>
    if id ≠ culprit ∧ id ∈ c.signers then requestCopies c else []) ++
    tryFormCopies (culpritReset c k culprit) env

/-- `call_mint`: the signature and the key as hex. -/
def mintCopies : List Copy :=
  [hexCopy 64 64 (64 * 2 + 4), hexCopy c.pubKeyPkg.length maxPayload (2 * maxPayload + 4)]

/-- The stdin of `aggregate`: the signing package, the key, and each share there is. -/
def aggregateStdinCopies (k : Fin maxSessions) : List Copy :=
  hexCopy (c.sessions k).signingPkg.length maxPayload (2 * maxPayload + 2) ::
    hexCopy c.pubKeyPkg.length maxPayload (2 * maxPayload + 2) ::
    (List.range (c.sessions k).signerIds.length).flatMap fun i =>
      if ((c.sessions k).shares i).length = 0 then []
      else [hexCopy ((c.sessions k).shares i).length (rowRoom i maxSigners maxPayload)
        (2 * maxPayload + 2)]

def onAggregateCopies (env : Env) (k : Fin maxSessions) : AggregateResult → List Copy
  | .notRun => []
  | .sig bytes =>
    if bytes.length ≠ 64 then broadcastSignReqCopies (blacklistMembers c k) else mintCopies c
  | .culprit id =>
    if 0 < id ∧ id ≤ maxSigners then failCulpritCopies c env k id
    else broadcastSignReqCopies (blacklistMembers c k)
  | .failed => broadcastSignReqCopies (blacklistMembers c k)

/-- `roast_try_aggregate` -/
def aggregateCopies (env : Env) (k : Fin maxSessions) : List Copy :=
  match aggregateStdin c k with
  | none => []
  | some stdin => aggregateStdinCopies c k ++ onAggregateCopies c env k (env.aggregate stdin)

/-! ## Frames of sign mode -/

def onCommitCopies (env : Env) (i : Nat) (f : Frame) (got : Nat) : List Copy :=
  if c.mode ≠ .sign then []
  else if (c.sg i).signPhase ≠ .init ∧ (c.sg i).signPhase ≠ .suspect then []
  else if f.payload.length > maxPayload ∨ f.payload.length > commitEntryMax then []
  else if f.sig.length ≠ frameSigSize then []
  else .move f.payload.length (got - (frameHdr + frameSigSize)) maxPayload ::
    .move f.sig.length (got - frameHdr) frameSigSize ::
    tryFormCopies (c.setSg i fun r =>
      { r with commit := f.payload, commitSig := f.sig, signPhase := .committed }) env

def onSigShareCopies (env : Env) (i : Nat) (f : Frame) (got : Nat) : List Copy :=
  match shareTarget c i f with
  | none => []
  | some (k, slot) =>
    let c' := fileShare c k slot i f.payload
    .move f.payload.length (got - (frameHdr + frameSigSize)) (rowRoom slot maxSigners maxPayload) ::
      if (c'.sessions k).nShares ≥ c'.t then aggregateCopies c' env k else []

/-- `process_signer_frame` for a frame of signer `i` of which `got` bytes have been
received, header included. -/
def dispatchCopies (env : Env) (i : Nat) (f : Frame) (got : Nat) : List Copy :=
  match f.type with
  | .round1Pkg => if c.dkgState ≠ .collectingR1 then [] else storeR1Copies c i f got
  | .round2Pkg => secondCopies c f got
  | .r2Complete =>
    if (c.sg i).r2Complete then []
    else checkR2Copies (c.setSg i fun r => { r with r2Complete := true })
      (ascii "DKG_DONE " ++ decimal c.n ++ [10])
  | .refreshR1 =>
    if c.mode ≠ .refresh || c.dkgState ≠ .collectingR1 then [] else storeR1Copies c i f got
  | .refreshR2 => if c.mode ≠ .refresh then [] else secondCopies c f got
  | .refreshR2Complete =>
    if c.mode ≠ .refresh || (c.sg i).r2Complete then []
    else checkR2Copies (c.setSg i fun r => { r with r2Complete := true }) []
  | .refreshComplete => onRefreshCompleteCopies c i f got
  | .pubKeyPkg => onPubKeyPkgCopies c i f got
  | .commit => onCommitCopies c env i f got
  | .sigShare => onSigShareCopies c env i f got
  | _ => []

variable {c} {env : Env} {i got : Nat} {f : Frame}

/-! ## What is sent fits -/

@[simp] theorem hexCopy_fits {n valid room : Nat} :
    (hexCopy n valid room).Fits ↔ n ≤ valid ∧ 2 * n + 1 ≤ room := Iff.rfl

/-- The buffer of a frame has its size; what is read from must hold it. -/
theorem sendCopies_fit_iff {slen sigValid plen valid : Nat} (hmax : plen ≤ maxPayload)
    (hp : plen ≤ valid) :
    AllFit (sendCopies slen sigValid plen valid) ↔ slen ≤ sigValid := by
  unfold sendCopies
  rw [if_neg (Nat.not_lt_of_le hmax), allFit_append]
  have hpay : AllFit (if plen = 0 then [] else [.move plen valid plen]) :=
    AllFit.ite fun _ => by simp [hp]
  by_cases h0 : slen = 0
  · rw [if_pos h0, h0]
    exact ⟨fun _ => Nat.zero_le _, fun _ => ⟨allFit_nil, hpay⟩⟩
  · rw [if_neg h0]
    simp [hpay]

theorem sendCopies_fit {slen sigValid plen valid : Nat} (hs : slen ≤ sigValid)
    (hp : plen ≤ maxPayload → plen ≤ valid) : AllFit (sendCopies slen sigValid plen valid) := by
  by_cases hmax : plen ≤ maxPayload
  · exact (sendCopies_fit_iff hmax (hp hmax)).mpr hs
  · unfold sendCopies
    rw [if_pos (Nat.lt_of_not_le hmax)]
    exact allFit_nil

theorem broadcastCopies_fit {plen valid : Nat} (h : plen ≤ valid) :
    AllFit (broadcastCopies c plen valid) :=
  AllFit.flatMap fun _ _ => sendCopies_fit (Nat.le_refl 0) fun _ => h

theorem requestCopies_fit (c : Coord) :
    AllFit (requestCopies c) := sendCopies_fit (Nat.le_refl 0) id

theorem broadcastSignReqCopies_fit (c : Coord) : AllFit (broadcastSignReqCopies c) :=
  AllFit.flatMap fun _ _ => AllFit.ite fun _ => requestCopies_fit c

/-! ## What is stored fits -/

theorem checkR1Copies_fit (h : ∀ j, (c.sg j).r1Pkg.length ≤ maxPayload) :
    AllFit (checkR1Copies c) := by
  unfold checkR1Copies
  refine AllFit.ite fun _ => AllFit.flatMap fun s _ => allFit_cons.mpr ⟨⟨h s, h s⟩, ?_⟩
  refine AllFit.flatMap fun j _ => ?_
  split
  · exact sendCopies_fit (Nat.le_refl _) fun _ => Nat.add_le_add_right (h s) 2
  · exact allFit_nil

theorem checkR2Copies_fit {payload : Bytes} (h : payload.length ≤ 32) :
    AllFit (checkR2Copies c payload) := by
  unfold checkR2Copies
  exact AllFit.ite fun _ => broadcastCopies_fit h

/-- Distinct ids fill no more rows than there are. -/
theorem entryCopies_fit {chosen : List Nat} (h : chosen.length ≤ maxSigners) :
    AllFit (entryCopies c chosen) := by
  refine AllFit.flatMap fun p hp => ?_
  have hfit : (c.sg p.1).commit.length ≤ commitEntryMax := by
    simpa using List.mem_takeWhile_imp hp
  have hrow : p.2 < maxSigners := by
    have hin := (List.takeWhile_sublist _).subset hp
    have := List.snd_lt_of_mem_zipIdx hin
    omega
  have hm : commitEntryMax ≤ maxPayload := by decide
  simp only [allFit_cons, allFit_nil, move_fits, rowRoom, if_pos hrow, and_true]
  exact ⟨⟨hfit.trans hm, hfit⟩, Nat.le_refl _, Nat.le_refl _⟩

theorem buildBundle_small {chosen : List Nat} {b : CommitBundle}
    (h : buildBundle c chosen = some b) :
    ∀ e ∈ b.entries, e.commit.length ≤ commitEntryMax := by
  have hb := (buildBundle_some h).2
  unfold buildBundle at h
  split at h; · cases h
  next hany =>
  rw [hb]
  intro e he
  obtain ⟨j, hj, rfl⟩ := List.mem_map.mp he
  by_contra hlt
  exact hany (List.any_eq_true.mpr ⟨j, hj, decide_eq_true (Nat.lt_of_not_le hlt)⟩)

theorem assembleCopies_fit {b : CommitBundle} (ht : b.tbs.length ≤ maxPayload)
    (he : ∀ e ∈ b.entries, e.commit.length ≤ commitEntryMax) : AllFit (assembleCopies b) := by
  refine allFit_cons.mpr ⟨⟨ht, ?_⟩, AllFit.map fun e hmem => ⟨he e hmem, ?_⟩⟩
  · show 2 * b.tbs.length + 1 ≤ 2 * maxPayload + 2
    omega
  · have := he e hmem
    show 2 * e.commit.length + 1 ≤ 2 * commitEntryMax + 2
    omega

/-- The packer looks at its capacity before each copy. -/
theorem packEntryCopies_fit {cap : Nat} {es : List CommitEntry} :
    ∀ {off : Nat}, AllFit (packEntryCopies cap off es) := by
  induction es with
  | nil => exact allFit_nil
  | cons e es ih =>
    intro off
    unfold packEntryCopies
    refine AllFit.ite fun h1 => AllFit.ite fun h2 => AllFit.ite fun h3 => ?_
    refine allFit_cons.mpr ⟨⟨?_, ?_⟩, AllFit.ite fun h4 => allFit_cons.mpr ⟨⟨?_, ?_⟩, ih⟩⟩
    · exact Nat.le_of_not_lt h2
    · show e.commit.length ≤ cap - (off + 4)
      omega
    · exact Nat.le_refl frameSigSize
    · show frameSigSize ≤ cap - (off + 4 + e.commit.length)
      omega

theorem packCopies_fit {cap : Nat} {b : CommitBundle} : AllFit (packCopies cap b) := by
  refine allFit_append.mpr ⟨packEntryCopies_fit, ?_⟩
  split
  · exact allFit_nil
  · refine AllFit.ite fun h1 => AllFit.ite fun h2 => ?_
    simp only [Bool.or_eq_true, decide_eq_true_eq, not_or, not_lt] at h2
    simp only [allFit_cons, allFit_nil, move_fits, and_true]
    omega

theorem openCopies_fit {chosen : List Nat} {spkg wire : Bytes} (hc : chosen.length ≤ maxSigners)
    (hs : spkg.length ≤ maxPayload) : AllFit (openCopies chosen spkg wire) := by
  have hids : 2 * chosen.length ≤ 2 * maxSigners := Nat.mul_le_mul_left 2 hc
  refine allFit_cons.mpr ⟨⟨hs, hs⟩, allFit_cons.mpr ⟨⟨hids, hids⟩, ?_⟩⟩
  refine AllFit.flatMap fun _ _ => sendCopies_fit (Nat.le_refl 0) fun hw => hw.trans ?_
  decide

theorem tryFormCopies_fit (hs : IdList c.signers) (henv : env.Decodes) :
    AllFit (tryFormCopies c env) := by
  have hchosen : (chooseSigners c).length ≤ maxSigners :=
    IdList.length_le ⟨chooseSigners_nodup c hs.distinct, fun id hid =>
      hs.range id (mem_chooseSigners c hid).1⟩
  unfold tryFormCopies
  split
  swap
  · exact allFit_nil
  unfold formCopies
  refine AllFit.ite fun _ => AllFit.ite fun _ => AllFit.ite fun _ => ?_
  split
  · exact allFit_nil
  refine allFit_append.mpr ⟨entryCopies_fit hchosen, ?_⟩
  split
  · exact allFit_nil
  next b hb =>
  have htbs : b.tbs.length ≤ maxPayload := by
    rw [(buildBundle_some hb).2]
    exact (buildBundle_some hb).1
  refine allFit_cons.mpr ⟨⟨htbs, htbs⟩, ?_⟩
  refine allFit_append.mpr ⟨assembleCopies_fit htbs (buildBundle_small hb), ?_⟩
  split
  · exact allFit_nil
  next spkg hspkg =>
  refine allFit_append.mpr ⟨packCopies_fit, ?_⟩
  split
  · exact allFit_nil
  · exact AllFit.ite fun _ => openCopies_fit hchosen (henv b spkg hspkg)

/-! ## Aggregation -/

/-- A session of the table has rows for its members. -/
theorem aggregateStdinCopies_fit (hs : Stored c) {k : Fin maxSessions}
    (hk : (c.sessions k).signerIds.length ≤ maxSigners) : AllFit (aggregateStdinCopies c k) := by
  have hhex {n : Nat} (h : n ≤ maxPayload) : 2 * n + 1 ≤ 2 * maxPayload + 2 := by omega
  have hpkg := (hs.session k).signingPkg
  refine allFit_cons.mpr ⟨⟨hpkg, hhex hpkg⟩, allFit_cons.mpr
    ⟨⟨hs.pubKeyPkg, hhex hs.pubKeyPkg⟩, ?_⟩⟩
  refine AllFit.flatMap fun j hj => AllFit.ite fun _ => ?_
  have hrow : j < maxSigners := (List.mem_range.mp hj).trans_le hk
  have hshare := (hs.session k).shares j
  refine allFit_cons.mpr ⟨⟨?_, hhex hshare⟩, allFit_nil⟩
  show ((c.sessions k).shares j).length ≤ rowRoom j maxSigners maxPayload
  unfold rowRoom
  rw [if_pos hrow]
  exact hshare

theorem mintCopies_fit (hs : Stored c) : AllFit (mintCopies c) := by
  have hkey := hs.pubKeyPkg
  simp only [mintCopies, allFit_cons, allFit_nil, hexCopy_fits, and_true]
  omega

theorem failCulpritCopies_fit (hb : Bars c) (henv : env.Decodes) (k : Fin maxSessions) {x : Nat}
    (h1 : 0 < x) (h2 : x ≤ maxSigners) : AllFit (failCulpritCopies c env k x) := by
  refine allFit_append.mpr ⟨AllFit.flatMap fun id _ => ?_, ?_⟩
  · split
    · exact requestCopies_fit c
    · exact allFit_nil
  · exact tryFormCopies_fit (hb.culpritReset k h1 h2).signers henv

theorem aggregateCopies_fit (hs : Stored c) (hb : Bars c) (henv : env.Decodes) {k : Fin maxSessions}
    (hk : (c.sessions k).state = .awaitingShares) : AllFit (aggregateCopies c env k) := by
  have hrequest := broadcastSignReqCopies_fit (blacklistMembers c k)
  unfold aggregateCopies
  split
  · exact allFit_nil
  refine allFit_append.mpr ⟨aggregateStdinCopies_fit hs (hb.sess k hk).length_le, ?_⟩
  unfold onAggregateCopies
  split
  · exact allFit_nil
  · split
    · exact hrequest
    · exact mintCopies_fit hs
  · split
    · next h => exact failCulpritCopies_fit hb henv k h.1 h.2
    · exact hrequest
  · exact hrequest

/-! ## What comes from the frame -/

/-- The receive loop has the whole payload. -/
structure Arrived (f : Frame) (got : Nat) : Prop where
  payload : frameHdr + frameSigSize + f.payload.length ≤ got
  max : f.payload.length ≤ maxPayload

theorem arrived {mem : Nat → UInt8} (hgot : got ≤ frameMax) (h : acceptFrame mem got = some f) :
    Arrived f got := by
  refine ⟨?_, (Accepted.sizes ⟨mem, got, hgot, h⟩).2⟩
  unfold acceptFrame at h
  split at h; · cases h
  split at h; · cases h
  cases h
  rw [List.length_map, List.length_range]
  omega

theorem Arrived.valid (h : Arrived f got) : f.payload.length ≤ got - (frameHdr + frameSigSize) :=
  Nat.le_sub_of_add_le' h.payload

theorem onCommitCopies_fit (hb : Bars c) (henv : env.Decodes) (h : Arrived f got) (i : Nat) :
    AllFit (onCommitCopies c env i f got) := by
  unfold onCommitCopies
  refine AllFit.ite fun _ => AllFit.ite fun _ => AllFit.ite fun _ => AllFit.ite fun hsig => ?_
  have hsig := not_not.mp hsig
  have hgot := h.payload
  have hstore := hb.sgOnly (setSg_sgOnly c i fun r =>
    { r with commit := f.payload, commitSig := f.sig, signPhase := .committed })
  refine allFit_cons.mpr ⟨⟨h.valid, h.max⟩, allFit_cons.mpr ⟨⟨?_, hsig.le⟩, ?_⟩⟩
  · show f.sig.length ≤ got - frameHdr
    omega
  · exact tryFormCopies_fit hstore.signers henv

theorem onSigShareCopies_fit (hs : Stored c) (hb : Bars c) (henv : env.Decodes) (h : Arrived f got)
    (i : Nat) : AllFit (onSigShareCopies c env i f got) := by
  unfold onSigShareCopies
  split
  · exact allFit_nil
  next k slot hst =>
  have ht := shareTarget_some c hst
  have hk : ((fileShare c k slot i f.payload).sessions k).state = .awaitingShares := by
    rw [fileShare_session]
    exact ht.open'
  have hrow : slot < maxSigners := by
    have := (List.getElem?_eq_some_iff.mp ht.slot).1
    have := (hb.sess k ht.open').length_le
    omega
  dsimp only
  refine allFit_cons.mpr ⟨⟨h.valid, ?_⟩, ?_⟩
  · show f.payload.length ≤ rowRoom slot maxSigners maxPayload
    unfold rowRoom
    rw [if_pos hrow]
    exact h.max
  · split
    · exact aggregateCopies_fit (hs.fileShare k slot i h.max)
        (hb.fileShare k slot i f.payload) henv hk
    · exact allFit_nil

theorem storePubKeyPkgCopies_fit (h : Arrived f got) : AllFit (storePubKeyPkgCopies f got) := by
  have hmax := h.max
  have hvalid := h.valid
  simp only [storePubKeyPkgCopies, allFit_cons, allFit_nil, move_fits, hexCopy_fits, and_true]
  omega

theorem onRefreshCompleteCopies_fit (h : Arrived f got) (i : Nat) :
    AllFit (onRefreshCompleteCopies c i f got) := by
  unfold onRefreshCompleteCopies
  refine allFit_cons.mpr ⟨⟨h.valid, h.max⟩, AllFit.ite fun _ => ?_⟩
  split
  · exact storePubKeyPkgCopies_fit h
  · exact allFit_nil

theorem onPubKeyPkgCopies_fit (h : Arrived f got) (i : Nat) :
    AllFit (onPubKeyPkgCopies c i f got) := by
  unfold onPubKeyPkgCopies
  exact allFit_cons.mpr ⟨⟨h.valid, h.max⟩, AllFit.ite fun _ => AllFit.ite fun _ =>
    storePubKeyPkgCopies_fit h⟩

/-- The signature of a round-1 package is the one copy that need not fit. -/
theorem storeR1Copies_fit_iff (hs : Stored c) (h : Arrived f got) :
    AllFit (storeR1Copies c i f got) ↔ f.sig.length ≤ frameSigSize := by
  have hgot := h.payload
  have hrest : AllFit (checkR1Copies (fileR1 c i f)) := checkR1Copies_fit (hs.fileR1 h.max i).r1Pkg
  unfold storeR1Copies
  rw [if_neg (Nat.not_lt_of_le h.max)]
  constructor
  · intro hall
    exact (allFit_cons.mp hall).1.2
  · intro hsig
    refine allFit_cons.mpr ⟨⟨?_, hsig⟩, allFit_cons.mpr ⟨⟨h.valid, h.max⟩, hrest⟩⟩
    show f.sig.length ≤ got - frameHdr
    omega

/-- A round-2 package: its hex is printed, and its signature relayed as long as it says. -/
def SecondCopiesFit (c : Coord) (f : Frame) (got : Nat) : Prop :=
  ∀ dst ∈ r2Target f.payload, 2 * f.payload.length + 1 ≤ maxPayload ∧
    (dst ∈ c.signers → frameHdr + f.sig.length ≤ got)

theorem secondCopies_fit_iff (h : Arrived f got) :
    AllFit (secondCopies c f got) ↔ SecondCopiesFit c f got := by
  have hgot := h.payload
  have hsig : f.sig.length ≤ got - frameHdr ↔ frameHdr + f.sig.length ≤ got := by omega
  unfold secondCopies SecondCopiesFit
  cases r2Target f.payload with
  | none =>
    refine ⟨fun _ dst hdst => ?_, fun _ => allFit_nil⟩
    cases hdst
  | some target =>
    have hprint : (printBytesAsHex f.payload.length (got - (frameHdr + frameSigSize))).Fits ↔
        2 * f.payload.length + 1 ≤ maxPayload := and_iff_right h.valid
    dsimp only
    rw [allFit_cons, hprint]
    by_cases hmem : target ∈ c.signers
    · rw [if_pos hmem, sendCopies_fit_iff h.max h.valid, hsig]
      constructor
      · rintro ⟨h1, h2⟩ dst hdst
        cases hdst
        exact ⟨h1, fun _ => h2⟩
      · intro hall
        have hdst := hall target rfl
        exact ⟨hdst.1, hdst.2 hmem⟩
    · rw [if_neg hmem]
      constructor
      · rintro ⟨h1, -⟩ dst hdst
        cases hdst
        exact ⟨h1, fun hin => absurd hin hmem⟩
      · exact fun hall => ⟨(hall target rfl).1, allFit_nil⟩

/-! ## One dispatch -/

/-- Where a length that is not checked is small enough. -/
def CopiesFit (c : Coord) (f : Frame) (got : Nat) : Prop :=
  match f.type with
  | .round1Pkg => c.dkgState = .collectingR1 → f.sig.length ≤ frameSigSize
  | .refreshR1 => c.mode = .refresh → c.dkgState = .collectingR1 → f.sig.length ≤ frameSigSize
  | .round2Pkg => SecondCopiesFit c f got
  | .refreshR2 => c.mode = .refresh → SecondCopiesFit c f got
  | _ => True

theorem dispatchCopies_fit_iff (hs : Stored c) (hb : Bars c) (henv : env.Decodes)
    (h : Arrived f got)
    (i : Nat) : AllFit (dispatchCopies c env i f got) ↔ CopiesFit c f got := by
  have always {ks : List Copy} (hks : AllFit ks) : AllFit ks ↔ True := iff_true_intro hks
  have guarded {p : Prop} [Decidable p] {ks : List Copy} {q : Prop} (hks : AllFit ks ↔ q) :
      AllFit (if p then [] else ks) ↔ (¬ p → q) := by
    by_cases hp : p
    · rw [if_pos hp]
      exact ⟨fun _ hn => absurd hp hn, fun _ => allFit_nil⟩
    · rw [if_neg hp, hks]
      exact ⟨fun hq _ => hq, fun hq => hq hp⟩
  unfold dispatchCopies CopiesFit
  cases f.type with
  | round1Pkg => exact (guarded (storeR1Copies_fit_iff hs h)).trans (by rw [not_not])
  | round2Pkg => exact secondCopies_fit_iff h
  | r2Complete =>
    have htext : (ascii "DKG_DONE " ++ decimal c.n ++ [10]).length ≤ 32 := by
      have := decimal_length c.n
      have hw : (ascii "DKG_DONE ").length = 9 := by decide
      simp only [List.length_append, List.length_singleton]
      omega
    exact always (AllFit.ite fun _ => checkR2Copies_fit htext)
  | refreshR1 =>
    refine (guarded (storeR1Copies_fit_iff hs h)).trans ?_
    simp only [Bool.or_eq_true, decide_eq_true_eq, not_or, not_not, and_imp]
  | refreshR2 => exact (guarded (secondCopies_fit_iff h)).trans (by rw [not_not])
  | refreshR2Complete => exact always (AllFit.ite fun _ => checkR2Copies_fit (Nat.zero_le 32))
  | refreshComplete => exact always (onRefreshCompleteCopies_fit h i)
  | pubKeyPkg => exact always (onPubKeyPkgCopies_fit h i)
  | commit => exact always (onCommitCopies_fit hb henv h i)
  | sigShare => exact always (onSigShareCopies_fit hs hb henv h i)
  | _ => exact always allFit_nil

/-- **Copies stay within their buffers.** In every state reached, all that is copied
while a received frame is handled fits what has been received and what it is copied to,
if and only if the frame's signature and hex do. -/
theorem copies_fit_iff {c₀ : Coord} (h0 : Started c₀) (hp : c₀.pubKeyPkg.length ≤ maxPayload)
    {es : List Event} (hes : ∀ e ∈ es, e.Received ∧ e.Decodes) (henv : env.Decodes)
    {mem : Nat → UInt8} (hgot : got ≤ frameMax) (hf : acceptFrame mem got = some f) (i : Nat) :
    AllFit (dispatchCopies (run step c₀ es) env i f got) ↔ CopiesFit (run step c₀ es) f got :=
  have hb : Bars (run step c₀ es) := run_invariant (I := Bars) (fun _ e h => h.step e) h0.bars
  dispatchCopies_fit_iff (run_stored h0 hp hes) hb henv (arrived hgot hf) i

/-- A round-1 package of one byte, with a signature length of its sender's choice. -/
def firstBytes (hi lo : UInt8) : Nat → UInt8
  | 0 => MsgType.round1Pkg.code
  | 2 => 1
  | 3 => hi
  | 4 => lo
  | _ => 0

/-- A round-2 package of 12000 bytes to signer 2. -/
def longBytes : Nat → UInt8
  | 0 => MsgType.round2Pkg.code
  | 1 => 46
  | 2 => 224
  | 264 => 2
  | _ => 0

/-- A signature of 257 bytes is written over the end of `r1_sig`, one of 300 relayed out
of 265 bytes received, and the hex of 12000 bytes written over the end of its buffer. -/
theorem unchecked_lengths :
    let c := run step (dkgStart 2 2) [joins 1 2 2, joins 2 2 2]
    Started (dkgStart 2 2) ∧ 1 ∈ c.signers ∧
      (acceptFrame (firstBytes 1 1) 262).any (fun f =>
        ¬ AllFit (dispatchCopies c quietEnv 1 f 262)) = true ∧
      (acceptFrame (secondBytes 1 44) 265).any (fun f =>
        ¬ AllFit (dispatchCopies c quietEnv 1 f 265)) = true ∧
      (acceptFrame longBytes 12261).any (fun f =>
        ¬ AllFit (dispatchCopies c quietEnv 1 f 12261)) = true :=
  ⟨dkgStart_started, by decide +kernel, by decide +kernel, by decide +kernel, by decide +kernel⟩

/-- A round-1 package with a signature of 256 bytes. -/
def firstFrame : Frame := ⟨.round1Pkg, List.replicate 256 0, [0]⟩

/-- All that is copied of it fits. -/
theorem copies_fit_run : acceptFrame (firstBytes 1 0) 262 = some firstFrame ∧
    AllFit (dispatchCopies (run step (dkgStart 2 2) [joins 1 2 2, joins 2 2 2]) quietEnv 1
      firstFrame 262) := by
  have hf : acceptFrame (firstBytes 1 0) 262 = some firstFrame := by decide +kernel
  have henv : quietEnv.Decodes := fun _ spkg h => by
    cases h
    exact Nat.zero_le _
  refine ⟨hf, (copies_fit_iff dkgStart_started (Nat.zero_le _) ?_ henv (by decide) hf 1).mpr ?_⟩
  · intro e he
    simp only [List.mem_cons, List.not_mem_nil, or_false] at he
    rcases he with rfl | rfl <;> exact ⟨trivial, trivial⟩
  · intro _
    exact List.length_replicate.le

end FrostSshCa.Coordinator
