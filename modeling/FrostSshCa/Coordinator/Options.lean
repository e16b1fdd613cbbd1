import FrostSshCa.Coordinator.Requests
import FrostSshCa.Wire.HexDecoders

/-!
# The start of the coordinator

`main` before its loop: the mode, the options, the second scan for `--fault`, the
`PublicKeyPackage` of an earlier key generation and the first `prepare_tbs`. The
loop is entered in a `Started` state or not at all.
-/

namespace FrostSshCa.Coordinator

open Lib

/-! ## Options -/

/-- What the options write. `none` leaves the text `main` starts with. -/
structure Options where
  n : Nat
  t : Nat
  userKey : Option Bytes
  principal : Option Bytes
  output : Option Bytes
  serial : Nat
  validitySecs : Nat
  toMint : Nat

/-- The globals as they are initialised. -/
def Options.defaults : Options where
  n := 0
  t := 0
  userKey := none
  principal := none
  output := none
  serial := 1
  validitySecs := 86400
  toMint := 1

/-- `(uint64_t)atol(text)`; `strtol` saturates. -/
def atolU64 (text : Bytes) : Nat :=
  match scanWs text with
  | 43 :: bs => min (scanDigits 0 bs).1 (2 ^ 63 - 1)
  | 45 :: bs => (2 ^ 64 - min (scanDigits 0 bs).1 (2 ^ 63)) % 2 ^ 64
  | bs => min (scanDigits 0 bs).1 (2 ^ 63 - 1)

/-- `sscanf(text, "%hu", &old)` -/
def scanInto (old : Nat) (text : Bytes) : Nat := ((scanU16 text).map Prod.fst).getD old

/-- One option with its value. -/
def setOption (o : Options) (name value : Bytes) : Option Options :=
  if name = ascii "--n" then some { o with n := scanInto o.n value }
  else if name = ascii "--t" then some { o with t := scanInto o.t value }
  else if name = ascii "--user-key" then some { o with userKey := some value }
  else if name = ascii "--principal" then some { o with principal := some value }
  else if name = ascii "--output" then some { o with output := some value }
  else if name = ascii "--serial" then some { o with serial := atolU64 value }
  else if name = ascii "--validity" then some { o with validitySecs := atolU64 value }
  else if name = ascii "--mass-mint" then some { o with toMint := atolU64 value }
  else if name = ascii "--fault" then some o
  else none

/-- The first loop over `argv`. An option without a value is an unknown one. -/
def readOptions (o : Options) : List Bytes → Option Options
  | [] => some o
  | [_] => none
  | name :: value :: args => (setOption o name value).bind fun o => readOptions o args

/-- `g_fault` -/
inductive Fault where
  | none | replaceTbs
  deriving DecidableEq, Repr

/-- The second loop over `argv`: it does not know which words are values. -/
def readFault (fault : Fault) : List Bytes → Option Fault
  | [] => some fault
  | [_] => some fault
  | a :: b :: args =>
    if a = ascii "--fault" then
      if b = ascii "replace-tbs" then readFault .replaceTbs args else Option.none
    else readFault fault (b :: args)

/-- The mode word. -/
def readMode (word : Bytes) : Option CoordMode :=
  if word = ascii "dkg" then some .dkg
  else if word = ascii "sign" then some .sign
  else if word = ascii "refresh" then some .refresh
  else none

/-! ## The way to the loop -/

/-- What `main` finds: the text of `pub_key_pkg.hex` if it can be read, the
subprocesses of `prepare_tbs`, and whether certificate, key and socket are in order. -/
structure StartEnv where
  pubPkgFile : Option Bytes
  tbs : TbsEnv
  listening : Bool

/-- The first line of `pub_key_pkg.hex`, as `hex_to_bytes` takes it. -/
def readPubPkg (text : Bytes) : Int × Bytes :=
  match fgets (maxPayload * 2 + 4) text with
  | none => (-1, [])
  | some (line, _) => hexToBytes line maxPayload

/-- The state before the loop, in sign mode. -/
def startSign (o : Options) (env : StartEnv) : Option Coord :=
  (signOptions o.userKey o.principal).bind fun _ =>
  env.pubPkgFile.bind fun text =>
  let (plen, pkg) := readPubPkg text
  if plen ≤ 0 then none
  else
    let (c, ok) := prepareTbs (Coord.boot .sign o.n o.t o.serial o.validitySecs o.toMint pkg
      (some pkg)) env.tbs
    if ok then some c else none

/-- In refresh mode the old package is read and forgotten. -/
def startRefresh (o : Options) (env : StartEnv) : Option Coord :=
  env.pubPkgFile.map fun text =>
    Coord.boot .refresh o.n o.t o.serial o.validitySecs o.toMint []
      (some (readPubPkg text).2)

def startDkg (o : Options) (env : StartEnv) : Coord :=
  Coord.boot .dkg o.n o.t o.serial o.validitySecs o.toMint []
    (env.pubPkgFile.map fun text => (readPubPkg text).2)

/-- `main` up to its loop, on the arguments after the program's name. -/
def startup (argv : List Bytes) (env : StartEnv) : Option (Fault × Coord) :=
  match argv with
  | [] => none
  | word :: args =>
    (readMode word).bind fun mode =>
    (readOptions .defaults args).bind fun o =>
    (readFault .none args).bind fun fault =>
    (match mode with
      | .dkg => some (startDkg o env)
      | .sign => startSign o env
      | .refresh => startRefresh o env).bind fun c =>
    if env.listening then some (fault, c) else none

/-! ## The options fit their types -/

structure Options.Typed (o : Options) : Prop where
  n : o.n < 65536
  t : o.t < 65536
  serial : o.serial < 2 ^ 64
  toMint : o.toMint < 2 ^ 64

theorem scanUnsigned_lt {neg : Bool} {bs rest : Bytes} {v : Nat}
    (h : scanUnsigned neg bs = some (v, rest)) : v < 65536 := by
  unfold scanUnsigned at h
  split at h
  · cases h
  · split at h
    · cases h
      exact Nat.mod_lt _ (by decide)
    · cases h

theorem scanU16_lt {bs rest : Bytes} {v : Nat} (h : scanU16 bs = some (v, rest)) : v < 65536 := by
  unfold scanU16 at h
  split at h <;> exact scanUnsigned_lt h

theorem scanInto_lt {old : Nat} (h : old < 65536) (text : Bytes) : scanInto old text < 65536 := by
  unfold scanInto
  cases hs : scanU16 text with
  | none => exact h
  | some p =>
    obtain ⟨v, rest⟩ := p
    exact scanU16_lt hs

theorem atolU64_lt (text : Bytes) : atolU64 text < 2 ^ 64 := by
  unfold atolU64
  split <;> omega

theorem Options.defaults_typed : Options.defaults.Typed := by constructor <;> decide

theorem Options.Typed.set {o o' : Options} (h : o.Typed) {name value : Bytes}
    (hs : setOption o name value = some o') : o'.Typed := by
  obtain ⟨hn, ht, hserial, hmint⟩ := h
  have h16 (old : Nat) (ho : old < 65536) := scanInto_lt ho value
  have h64 := atolU64_lt value
  unfold setOption at hs
  split_ifs at hs <;> cases hs
  all_goals constructor <;> simp_all

theorem Options.Typed.read {args : List Bytes} : ∀ {o o' : Options}, o.Typed →
    readOptions o args = some o' → o'.Typed := by
  induction args using List.twoStepInduction with
  | nil =>
    intro o o' h hr
    cases hr
    exact h
  | singleton a =>
    intro o o' h hr
    cases hr
  | cons_cons a b args ih _ =>
    intro o o' h hr
    obtain ⟨o₁, h1, h2⟩ := Option.bind_eq_some_iff.mp hr
    exact ih (h.set h1) h2

/-! ## The loop is entered in a starting state -/

theorem startSign_started {o : Options} {env : StartEnv} {c : Coord} (h : o.Typed)
    (hs : startSign o env = some c) : Started c ∧ c.mode = .sign := by
  unfold startSign at hs
  obtain ⟨_, _, hs⟩ := Option.bind_eq_some_iff.mp hs
  obtain ⟨text, _, hs⟩ := Option.bind_eq_some_iff.mp hs
  dsimp only at hs
  split at hs
  · cases hs
  next hpos =>
  split at hs
  · next hok =>
    have hne : (readPubPkg text).2 ≠ [] := by
      intro he
      apply hpos
      unfold readPubPkg at he ⊢
      split at he
      · simp
      · next line rest _ =>
        by_cases hn : 0 ≤ (hexToBytes line maxPayload).1
        · rw [(length_of_success (by decide) hn).1, he]
          simp
        · omega
    cases hs
    refine ⟨.sign o.n o.t o.serial o.validitySecs o.toMint _ env.tbs h.n h.t h.serial h.toMint hne
      (Prod.ext rfl hok), ?_⟩
    obtain ⟨d, tbs, hex, e | e⟩ := prepareTbs_cases (c := Coord.boot .sign o.n o.t o.serial
      o.validitySecs o.toMint (readPubPkg text).2 (some (readPubPkg text).2)) env.tbs
    all_goals rw [e]; rfl
  · cases hs

/-- **The loop is entered in a starting state**, of the mode named first. -/
theorem startup_started {argv : List Bytes} {env : StartEnv} {fault : Fault} {c : Coord}
    (h : startup argv env = some (fault, c)) :
    Started c ∧ argv.head?.bind readMode = some c.mode := by
  unfold startup at h
  cases argv with
  | nil => cases h
  | cons word args =>
    obtain ⟨mode, hm, h⟩ := Option.bind_eq_some_iff.mp h
    obtain ⟨o, ho, h⟩ := Option.bind_eq_some_iff.mp h
    obtain ⟨f, hf, h⟩ := Option.bind_eq_some_iff.mp h
    obtain ⟨c', hc, h⟩ := Option.bind_eq_some_iff.mp h
    have ht := Options.defaults_typed.read ho
    have hcc : c' = c := by
      split at h
      · cases h; rfl
      · cases h
    subst hcc
    show Started c' ∧ readMode word = some c'.mode
    cases mode with
    | dkg =>
      cases hc
      exact ⟨.dkg _ _ _ _ _ _ ht.n ht.t ht.serial ht.toMint, hm⟩
    | refresh =>
      obtain ⟨text, _, rfl⟩ := Option.map_eq_some_iff.mp hc
      exact ⟨.refresh _ _ _ _ _ _ ht.n ht.t ht.serial ht.toMint, hm⟩
    | sign =>
      obtain ⟨hst, hmode⟩ := startSign_started ht hc
      exact ⟨hst, by rw [hmode]; exact hm⟩

end FrostSshCa.Coordinator
