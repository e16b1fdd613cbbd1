import FrostSshCa.Coordinator.Main
import FrostSshCa.Wire.Base64
import FrostSshCa.Lib.Lines

/-!
# The CA key

`cmd_pubkey` of `main.rs` prints the verifying key as an OpenSSH line, and `prepare_tbs` takes
the key out of that line again to put it at the end of the TBS.
-/

namespace FrostSshCa.Coordinator

open Lib

/-! ## `cmd_pubkey` -/

/-- `to_be_bytes` of a `u32`. -/
def be32 (n : Nat) : Bytes :=
  [UInt8.ofNat (n / 2 ^ 24), UInt8.ofNat (n / 2 ^ 16), UInt8.ofNat (n / 2 ^ 8), UInt8.ofNat n]

def keyAlgo : Bytes := ascii "ssh-ed25519"

/-- The key with its algorithm, each after its length. -/
def keyWire (key : Vector UInt8 32) : Bytes :=
  be32 keyAlgo.length ++ keyAlgo ++ be32 key.toList.length ++ key.toList

/-- What `cmd_pubkey` prints. -/
def cmdPubkey (key : Vector UInt8 32) : Bytes :=
  ascii "ssh-ed25519 " ++ base64Encode (keyWire key) ++ ascii " frost-ca" ++ [10]

/-! ## `prepare_tbs` -/

/-- `pk_line[strcspn(pk_line, "\\r\\n")] = '\\0'` -/
def cutEnd (line : Bytes) : Bytes := (cstr line).takeWhile fun b => b ≠ 13 && b ≠ 10

/-- The 32 bytes from `wire + 4 + 11 + 4` on. -/
def wireKey (wire : Bytes) : Vector UInt8 32 := Vector.ofFn fun i => wire.getD (4 + 11 + 4 + i) 0

/-- The part of `prepare_tbs` that reads the output of `pubkey`. -/
def readCaKey (output : Bytes) : Option (Vector UInt8 32) :=
  (fgets 512 output).bind fun (line, _) =>
    (cutAt 32 (cutEnd line)).2.bind fun b64 =>
      let r := b64Decode (cutAt 32 b64).1 256
      if r.1 < 4 + 11 + 4 + 32 then none else some (wireKey r.2)

variable {key : Vector UInt8 32}

/-! ## The key comes back -/

theorem keyWire_eq (key : Vector UInt8 32) : keyWire key =
    [0, 0, 0, 11, 115, 115, 104, 45, 101, 100, 50, 53, 53, 49, 57, 0, 0, 0, 32] ++ key.toList := by
  have h1 : be32 keyAlgo.length ++ keyAlgo =
      [0, 0, 0, 11, 115, 115, 104, 45, 101, 100, 50, 53, 53, 49, 57] := by decide
  have h2 : be32 32 = [0, 0, 0, 32] := by decide
  unfold keyWire
  rw [h1, Vector.length_toList, h2]
  rfl

theorem length_keyWire (key : Vector UInt8 32) : (keyWire key).length = 51 := by
  rw [keyWire_eq, List.length_append, Vector.length_toList]
  rfl

theorem wireKey_keyWire (key : Vector UInt8 32) : wireKey (keyWire key) = key := by
  refine Vector.ext fun i hi => ?_
  have hskip : (keyWire key).getD (4 + 11 + 4 + i) 0 = key.toList.getD i 0 := by
    rw [keyWire_eq, List.getD_eq_getElem?_getD, List.getD_eq_getElem?_getD,
      List.getElem?_append_right (by simp)]
    simp
  unfold wireKey
  rw [Vector.getElem_ofFn, hskip]
  simp [hi]

/-- The line is cut where its end was. -/
theorem cutEnd_line {l : Bytes} (h : ∀ b ∈ l, b ≠ 0 ∧ b ≠ 10 ∧ b ≠ 13) : cutEnd (l ++ [10]) = l := by
  have hnul : 0 ∉ l ++ [10] := by
    rw [List.mem_append]
    rintro (hl | hl)
    · exact (h 0 hl).1 rfl
    · exact absurd (List.mem_singleton.mp hl) (by decide)
  unfold cutEnd
  rw [cstr_eq_self hnul, List.takeWhile_append_of_pos]
  · exact List.append_nil l
  · intro b hb
    simp [(h b hb).2]

/-- The line without its end: three words. -/
def pubkeyLine (key : Vector UInt8 32) : Bytes :=
  keyAlgo ++ 32 :: (base64Encode (keyWire key) ++ 32 :: ascii "frost-ca")

theorem cmdPubkey_eq (key : Vector UInt8 32) : cmdPubkey key = pubkeyLine key ++ [10] := by
  have h1 : ascii "ssh-ed25519 " = keyAlgo ++ [32] := by decide
  have h2 : ascii " frost-ca" = 32 :: ascii "frost-ca" := by decide
  unfold cmdPubkey pubkeyLine
  rw [h1, h2]
  simp only [List.append_assoc, List.cons_append, List.nil_append]

theorem keyAlgo_plain : ∀ b ∈ keyAlgo, b ≠ 0 ∧ b ≠ 10 ∧ b ≠ 13 ∧ b ≠ 32 := by
  have hall : (keyAlgo.all fun b => b ≠ 0 ∧ b ≠ 10 ∧ b ≠ 13 ∧ b ≠ 32) = true := by decide
  exact fun b hb => of_decide_eq_true (List.all_eq_true.mp hall b hb)

theorem pubkeyLine_plain (key : Vector UInt8 32) :
    ∀ b ∈ pubkeyLine key, b ≠ 0 ∧ b ≠ 10 ∧ b ≠ 13 := by
  have hcomment : ((ascii "frost-ca").all fun b => b ≠ 0 ∧ b ≠ 10 ∧ b ≠ 13) = true := by decide
  have htail : ∀ b ∈ ascii "frost-ca", b ≠ 0 ∧ b ≠ 10 ∧ b ≠ 13 :=
    fun b hb => of_decide_eq_true (List.all_eq_true.mp hcomment b hb)
  intro b hb
  simp only [pubkeyLine, List.mem_append, List.mem_cons] at hb
  rcases hb with hb | rfl | hb | rfl | hb
  · obtain ⟨h0, h10, h13, -⟩ := keyAlgo_plain b hb
    exact ⟨h0, h10, h13⟩
  · decide
  · obtain ⟨h0, h10, h13, -⟩ := base64Encode_plain _ b hb
    exact ⟨h0, h10, h13⟩
  · decide
  · exact htail b hb

theorem length_pubkeyLine (key : Vector UInt8 32) : (pubkeyLine key).length = 89 := by
  have h1 : keyAlgo.length = 11 := by decide
  have h2 : (ascii "frost-ca").length = 8 := by decide
  unfold pubkeyLine
  simp only [List.length_append, List.length_cons, length_base64Encode, length_keyWire, h1, h2]

/-- **The CA key** that `cmd_pubkey` prints is the one `prepare_tbs` reads. -/
theorem readCaKey_cmdPubkey (key : Vector UInt8 32) : readCaKey (cmdPubkey key) = some key := by
  have hplain := pubkeyLine_plain key
  have hsize := length_pubkeyLine key
  have hblank : 32 ∉ keyAlgo := fun h => (keyAlgo_plain 32 h).2.2.2 rfl
  have hword : 32 ∉ base64Encode (keyWire key) := fun h => (base64Encode_plain _ 32 h).2.2.2 rfl
  have hdecode : b64Decode (base64Encode (keyWire key)) 256 = (51, keyWire key) := by
    rw [b64Decode_base64Encode (by rw [length_keyWire]; omega), length_keyWire]
    rfl
  unfold readCaKey
  rw [cmdPubkey_eq, fgets_line (fun h => (hplain 10 h).2.1 rfl) (by omega)]
  simp only [Option.bind_some]
  rw [cutEnd_line hplain, pubkeyLine, cutAt_append hblank]
  simp only [Option.bind_some]
  rw [cutAt_append hword, hdecode]
  dsimp only
  rw [if_neg (by omega), wireKey_keyWire]

/-! ## The patch -/

/-- The TBS is patched: all but its last 32 bytes stay, and those are the key. -/
structure Patched (key : Vector UInt8 32) (tbs tbs' : Bytes) : Prop where
  length : tbs'.length = tbs.length
  front : tbs'.take (tbs.length - 32) = tbs.take (tbs.length - 32)
  tail : tbs'.drop (tbs.length - 32) = key.toList

theorem patchTbs_patched {tbs : Bytes} (h : 32 ≤ tbs.length) :
    Patched key tbs (patchTbs tbs key) := by
  have hfront : (tbs.take (tbs.length - 32)).length = tbs.length - 32 := by simp
  have hkey : key.toList.length = 32 := Vector.length_toList
  unfold patchTbs
  constructor
  · rw [List.length_append, hfront, hkey]
    omega
  · rw [List.take_append_of_le_length (by omega), List.take_of_length_le (by omega)]
  · rw [List.drop_append_of_le_length (by omega), List.drop_of_length_le (by omega),
      List.nil_append]

/-- **CA key patching**: base64 comes back for every byte string whose length is an `int`, and so
the line `cmd_pubkey` prints puts exactly its key at the end of the TBS. -/
theorem ca_key_patching :
    (∀ (x : Bytes) (max : Nat), x.length ≤ max → x.length < 2 ^ 31 →
      b64Decode (base64Encode x) max = ((x.length : Int), x)) ∧
    ∀ (c : Coord) (key : Vector UInt8 32), 32 ≤ c.tbs.length →
      ∃ c', patchAndClear c (readCaKey (cmdPubkey key)) = (c', true) ∧
        Patched key c.tbs c'.tbs ∧ c'.tbsHex = c'.tbs := by
  refine ⟨fun x max hmax hint => ?_, fun c key h => ?_⟩
  · rw [b64Decode_base64Encode hmax, asInt_eq hint]
  · unfold patchAndClear
    rw [if_neg (Nat.not_lt.mpr h), readCaKey_cmdPubkey]
    exact ⟨_, rfl, patchTbs_patched h, rfl⟩

/-- Two bytes come back, and the last 32 of 40 bytes become the key. -/
theorem ca_key_patching_small : b64Decode (base64Encode [1, 2]) 2 = (2, [1, 2]) ∧
    ∃ c', patchAndClear { Coord.boot .sign 3 2 1 86400 1 [] none with tbs := List.replicate 40 7 }
        (readCaKey (cmdPubkey (Vector.replicate 32 9))) = (c', true) ∧
      Patched (Vector.replicate 32 9) (List.replicate 40 7) c'.tbs ∧ c'.tbsHex = c'.tbs :=
  ⟨ca_key_patching.1 [1, 2] 2 (by decide) (by decide), ca_key_patching.2 _ _ (by decide)⟩

/-- A longer string comes back with a negative length. -/
theorem ca_key_int : ¬ ∀ (x : Bytes) (max : Nat), x.length ≤ max →
    b64Decode (base64Encode x) max = ((x.length : Int), x) := by
  intro h
  have hlen : (List.replicate (2 ^ 31) (0 : UInt8)).length = 2 ^ 31 := List.length_replicate
  have hx := h (List.replicate (2 ^ 31) 0) (2 ^ 31) (by rw [hlen])
  rw [b64Decode_base64Encode (by rw [hlen]), hlen] at hx
  exact absurd (congrArg Prod.fst hx) (by decide)

end FrostSshCa.Coordinator
