import FrostSshCa.Lib.Run
import Mathlib.Data.List.Nodup
import Mathlib.Data.List.Perm.Subperm

/-!
# Two rounds through a hub

Each of `size` parties sends one package to all others and then one package to each
other, over FIFO links to a hub that stores the first ones until it has them all and
forwards the second ones. Nobody checks whom a package is from: a party starts its
second round when it has counted `size - 1` packages, and the hub counts notices to
tell when everybody is done. A party is done when its own packages are out (`eager`)
or when it has counted those of the others.

`Inv` holds along every run of `Move`s. The packages of a round-2 pair are, at any
time, those received, those on the way down and those on the way up, in this order.
-/

namespace FrostSshCa.Lib.Rounds

universe u v w

variable {ι : Type u} {P : Type v} {Q : Type w}

/-- A message to the hub. -/
inductive Up (ι : Type u) (P : Type v) (Q : Type w) where
  | first (p : P)
  | second (dst src : ι) (q : Q)
  | done

/-- A message of the hub. -/
inductive Down (ι : Type u) (P : Type v) (Q : Type w) where
  | start
  | first (src : ι) (p : P)
  | second (src : ι) (q : Q)
  | finish

/-- What a party computes: its second packages from the first ones of the others,
and its result from all it has received. -/
inductive Call (ι : Type u) (P : Type v) (Q : Type w) where
  | mix (firsts : List (ι × P)) (made : List (ι × Q))
  | last (firsts : List (ι × P)) (seconds : List (ι × Q))

/-- A party, what the hub keeps for it, and its two links. -/
structure Party (ι : Type u) (P : Type v) (Q : Type w) where
  /-- The first packages it has made. -/
  own : List P
  firsts : List (ι × P)
  seconds : List (ι × Q)
  calls : List (Call ι P Q)
  filed : Option P
  flagged : Bool
  up : List (Up ι P Q)
  down : List (Down ι P Q)
  /-- How often the hub has told it that everybody is done. -/
  told : Nat

def Party.blank : Party ι P Q where
  own := []
  firsts := []
  seconds := []
  calls := []
  filed := none
  flagged := false
  up := []
  down := []
  told := 0

inductive Stage where
  | joining | first | second | ended
  deriving DecidableEq

structure Net (ι : Type u) (P : Type v) (Q : Type w) where
  size : Nat
  stage : Stage
  members : List ι
  party : ι → Party ι P Q

/-! ## Messages -/

def Down.isStart : Down ι P Q → Bool
  | .start => true
  | _ => false

def Down.isFinish : Down ι P Q → Bool
  | .finish => true
  | _ => false

def Down.asFirst : Down ι P Q → Option (ι × P)
  | .first s p => some (s, p)
  | _ => none

def Down.asSecond : Down ι P Q → Option (ι × Q)
  | .second s q => some (s, q)
  | _ => none

/-- The order in which the hub sends. -/
def Down.rank : Down ι P Q → Nat
  | .start => 0
  | .first _ _ => 1
  | .second _ _ => 2
  | .finish => 3

def Up.isFirst : Up ι P Q → Bool
  | .first _ => true
  | _ => false

def Up.isDone : Up ι P Q → Bool
  | .done => true
  | _ => false

def Up.isSecond : Up ι P Q → Bool
  | .second _ _ _ => true
  | _ => false

variable [DecidableEq ι]

/-- What a list of packages has under a name. -/
def pick {α : Type*} (k : ι) (l : List (ι × α)) : List α :=
  l.filterMap fun p => if p.1 = k then some p.2 else none

/-- The package a message to the hub has for `i`. -/
def Up.toward (i : ι) : Up ι P Q → Option Q
  | .second d _ q => if d = i then some q else none
  | _ => none

def Up.asFirst : Up ι P Q → Option P
  | .first p => some p
  | _ => none

def Call.isMix : Call ι P Q → Bool
  | .mix _ _ => true
  | .last _ _ => false

def Call.isLast : Call ι P Q → Bool
  | .mix _ _ => false
  | .last _ _ => true

def Call.made : Call ι P Q → List (ι × Q)
  | .mix _ made => made
  | .last _ _ => []

/-- The second packages the party has made. -/
def Party.made (x : Party ι P Q) : List (ι × Q) := x.calls.flatMap Call.made

def Net.set (N : Net ι P Q) (i : ι) (x : Party ι P Q) : Net ι P Q :=
  { N with party := Function.update N.party i x }

def Net.late (N : Net ι P Q) : Bool := N.stage = .second ∨ N.stage = .ended

/-- The first packages of all others, in the order the hub relays them. -/
def Net.relays (N : Net ι P Q) (i : ι) : List (ι × P) :=
  (N.members.filter (· ≠ i)).filterMap fun s => (N.party s).filed.map (s, ·)

/-- Every member but `i` satisfies `p`, and nobody is missing. -/
def Net.others (N : Net ι P Q) (i : ι) (p : Party ι P Q → Prop) : Prop :=
  N.size ≤ N.members.length ∧ ∀ j ∈ N.members, j ≠ i → p (N.party j)

/-! ## Moves -/

/-- `i` joins; the last one to join starts the first round. -/
def Net.joined (N : Net ι P Q) (i : ι) : Net ι P Q :=
  if N.members.length + 1 < N.size then { N with members := i :: N.members }
  else { N with
    stage := .first
    members := i :: N.members
    party := fun j =>
      if j ∈ i :: N.members then { N.party j with down := (N.party j).down ++ [.start] }
      else N.party j }

/-- Every member is sent the packages of all others. -/
def Net.relayed (N : Net ι P Q) : Net ι P Q :=
  { N with
    stage := .second
    party := fun j =>
      if j ∈ N.members then
        { N.party j with
          down := (N.party j).down ++ (N.relays j).map fun p => .first p.1 p.2 }
      else N.party j }

/-- Every member is told that all are done. -/
def Net.finished (N : Net ι P Q) : Net ι P Q :=
  { N with
    stage := .ended
    party := fun j =>
      if j ∈ N.members then
        { N.party j with down := (N.party j).down ++ [.finish], told := (N.party j).told + 1 }
      else N.party j }

/-- A party counts a first package, with the answer `out` of its second round. -/
def Party.hearFirst (x : Party ι P Q) (eager : Bool) (size : Nat) (i : ι) (p : ι × P)
    (out : List (ι × Q)) : Party ι P Q :=
  if x.firsts.length + 2 < size then { x with firsts := x.firsts ++ [p] }
  else { x with
    firsts := x.firsts ++ [p]
    calls := x.calls ++ [.mix (x.firsts ++ [p]) out]
    up := x.up ++ (out.map fun y => .second y.1 i y.2) ++ if eager then [.done] else [] }

/-- A party counts a second package. -/
def Party.hearSecond (x : Party ι P Q) (eager : Bool) (size : Nat) (p : ι × Q) : Party ι P Q :=
  if eager ∨ x.seconds.length + 2 < size then { x with seconds := x.seconds ++ [p] }
  else { x with
    seconds := x.seconds ++ [p]
    calls := x.calls ++ [.last x.firsts (x.seconds ++ [p])]
    up := x.up ++ [.done] }

/-- A party is told that all are done. -/
def Party.hearFinish (x : Party ι P Q) (eager : Bool) (size : Nat) : Party ι P Q :=
  if eager ∧ x.seconds.length + 1 = size then
    { x with calls := x.calls ++ [.last x.firsts x.seconds] }
  else x

/-- One move of a party or of the hub. -/
inductive Move (eager : Bool) (N : Net ι P Q) : Net ι P Q → Prop where
  | none : Move eager N N
  | size (n : Nat) (h : N.members = []) (hs : N.stage = .joining) :
    Move eager N { N with size := n }
  | join (i : ι) (hs : N.stage = .joining) (hi : i ∉ N.members) (hn : 2 ≤ N.size)
      (hl : N.members.length < N.size) : Move eager N (N.joined i)
  | start (i : ι) (p : P) (ds : List (Down ι P Q)) (hi : i ∈ N.members)
      (h : (N.party i).down = .start :: ds) :
      Move eager N (N.set i { N.party i with
        own := (N.party i).own ++ [p], down := ds, up := (N.party i).up ++ [.first p] })
  | first (i : ι) (p : ι × P) (ds : List (Down ι P Q)) (out : List (ι × Q)) (hi : i ∈ N.members)
      (h : (N.party i).down = .first p.1 p.2 :: ds)
      (hout : (out.map Prod.fst).Perm (((N.party i).firsts ++ [p]).map Prod.fst)) :
      Move eager N (N.set i { (N.party i).hearFirst eager N.size i p out with down := ds })
  | second (i : ι) (p : ι × Q) (ds : List (Down ι P Q)) (hi : i ∈ N.members)
      (h : (N.party i).down = .second p.1 p.2 :: ds) :
      Move eager N (N.set i { (N.party i).hearSecond eager N.size p with down := ds })
  | finish (i : ι) (ds : List (Down ι P Q)) (hi : i ∈ N.members)
      (h : (N.party i).down = .finish :: ds) :
      Move eager N (N.set i { (N.party i).hearFinish eager N.size with down := ds })
  | file (i : ι) (p : P) (us : List (Up ι P Q)) (hi : i ∈ N.members)
      (h : (N.party i).up = .first p :: us) (hs : N.stage = .first)
      (hn : ¬ N.others i fun x => x.filed.isSome) :
      Move eager N (N.set i { N.party i with up := us, filed := some p })
  | relay (i : ι) (p : P) (us : List (Up ι P Q)) (hi : i ∈ N.members)
      (h : (N.party i).up = .first p :: us) (hs : N.stage = .first)
      (hn : N.others i fun x => x.filed.isSome) :
      Move eager N (N.set i { N.party i with up := us, filed := some p }).relayed
  | stray (i : ι) (p : P) (us : List (Up ι P Q)) (hi : i ∈ N.members)
      (h : (N.party i).up = .first p :: us) (hs : N.stage ≠ .first) :
      Move eager N (N.set i { N.party i with up := us })
  | route (i dst src : ι) (q : Q) (us : List (Up ι P Q)) (hi : i ∈ N.members)
      (h : (N.party i).up = .second dst src q :: us) (hd : dst ∈ N.members) :
      Move eager N (((N.set i { N.party i with up := us }).set dst
        { (N.set i { N.party i with up := us }).party dst with
          down := ((N.set i { N.party i with up := us }).party dst).down ++ [.second src q] }))
  | lost (i dst src : ι) (q : Q) (us : List (Up ι P Q)) (hi : i ∈ N.members)
      (h : (N.party i).up = .second dst src q :: us) (hd : dst ∉ N.members) :
      Move eager N (N.set i { N.party i with up := us })
  | again (i : ι) (us : List (Up ι P Q)) (hi : i ∈ N.members) (h : (N.party i).up = .done :: us)
      (hf : (N.party i).flagged = true) : Move eager N (N.set i { N.party i with up := us })
  | flag (i : ι) (us : List (Up ι P Q)) (hi : i ∈ N.members) (h : (N.party i).up = .done :: us)
      (hf : (N.party i).flagged = false) (hn : ¬ N.others i fun x => x.flagged) :
      Move eager N (N.set i { N.party i with up := us, flagged := true })
  | flagLast (i : ι) (us : List (Up ι P Q)) (hi : i ∈ N.members) (h : (N.party i).up = .done :: us)
      (hf : (N.party i).flagged = false) (hn : N.others i fun x => x.flagged) :
      Move eager N (N.set i { N.party i with up := us, flagged := true }).finished

/-! ## The invariant -/

/-- The party has its first packages, and has made its second ones. -/
def Party.mixed (size : Nat) (x : Party ι P Q) : Prop := size ≤ x.firsts.length + 1

/-- The party has its second packages. -/
def Party.served (size : Nat) (x : Party ι P Q) : Prop := size ≤ x.seconds.length + 1

/-- The party has sent its notice. -/
def Party.through (eager : Bool) (size : Nat) (x : Party ι P Q) : Prop :=
  if eager then x.mixed size else x.served size

instance (size : Nat) (x : Party ι P Q) : Decidable (x.mixed size) :=
    inferInstanceAs (Decidable (_ ≤ _))

instance (size : Nat) (x : Party ι P Q) : Decidable (x.served size) :=
    inferInstanceAs (Decidable (_ ≤ _))

instance (eager : Bool) (size : Nat) (x : Party ι P Q) : Decidable (x.through eager size) := by
  unfold Party.through
  split <;> infer_instance

omit [DecidableEq ι] in
theorem Party.through_eager {size : Nat} {x : Party ι P Q} {eager : Bool} (h : eager = true) :
    x.through eager size ↔ x.mixed size := by
  unfold Party.through
  rw [if_pos h]

omit [DecidableEq ι] in
theorem Party.through_slow {size : Nat} {x : Party ι P Q} {eager : Bool} (h : ¬ eager = true) :
    x.through eager size ↔ x.served size := by
  unfold Party.through
  rw [if_neg h]

/-- The call for the result. -/
def Party.lasts (eager : Bool) (size : Nat) (x : Party ι P Q) : List (Call ι P Q) :=
  if eager then List.replicate (x.told - x.down.countP Down.isFinish) (.last x.firsts x.seconds)
  else if x.served size then [.last x.firsts x.seconds] else []

/-- How far party `i` is, once the rounds have begun. -/
structure Course (eager : Bool) (N : Net ι P Q) (i : ι) (x : Party ι P Q) : Prop where
  /-- Its first package is still to be made, on its way, or stored. -/
  opening : x.down.countP Down.isStart + x.up.countP Up.isFirst +
    (if x.filed.isSome then 1 else 0) = 1
  sorted : x.down.Pairwise fun a b => a.rank ≤ b.rank
  firsts : x.firsts ++ x.down.filterMap Down.asFirst = if N.late then N.relays i else []
  senders : ∀ p ∈ x.seconds ++ x.down.filterMap Down.asSecond, p.1 ∈ N.members ∧ p.1 ≠ i
  targets : ∀ dst src q, .second dst src q ∈ x.up → src = i ∧ dst ∈ N.members
  calls : x.mixed N.size → ∃ made, (made.map Prod.fst).Perm (x.firsts.map Prod.fst) ∧
    x.calls = .mix x.firsts made :: x.lasts eager N.size
  idle : ¬ x.mixed N.size → x.calls = []
  notice : x.up.countP Up.isDone + (if x.flagged then 1 else 0) =
    if x.through eager N.size then 1 else 0
  doneLast : x.up.Pairwise fun a b => a.isDone = true → b.isSecond = false
  quiet : x.flagged = true → ∀ u ∈ x.up, u.isSecond = false
  told : x.told = if N.stage = .ended then 1 else 0
  finish : x.down.countP Down.isFinish ≤ x.told
  /-- First packages come before second ones, and these before the end. -/
  inOrder : x.seconds ≠ [] → x.down.filterMap Down.asFirst = []
  closed : x.down.countP Down.isFinish < x.told → x.down.filterMap Down.asSecond = []

/-- What a party has been sent of the second round, received or not. -/
def Party.inbox (x : Party ι P Q) : List (ι × Q) := x.seconds ++ x.down.filterMap Down.asSecond

structure Inv (eager : Bool) (N : Net ι P Q) : Prop where
  distinct : N.members.Nodup
  outside : ∀ j ∉ N.members, N.party j = .blank
  idle : N.stage = .joining → (∀ j, N.party j = .blank) ∧
    (N.members = [] ∨ N.members.length < N.size)
  full : N.stage ≠ .joining → N.members.length = N.size ∧ 2 ≤ N.size
  stored : N.late = true → ∀ j ∈ N.members, (N.party j).filed.isSome = true
  all : N.stage = .ended → ∀ j ∈ N.members, (N.party j).flagged = true
  course : N.stage ≠ .joining → ∀ i ∈ N.members, Course eager N i (N.party i)
  /-- The packages from `j` to `i`, oldest first, are those `j` made. -/
  pair : ∀ i ∈ N.members, ∀ j ∈ N.members,
    pick j (N.party i).inbox ++ (N.party j).up.filterMap (Up.toward i) = pick i (N.party j).made

variable {eager : Bool} {N N' : Net ι P Q} {i : ι}

/-! ## Names and packages -/

@[simp] theorem pick_nil {α : Type*} (k : ι) : pick k ([] : List (ι × α)) = [] := rfl

theorem pick_append {α : Type*} (k : ι) (l m : List (ι × α)) :
    pick k (l ++ m) = pick k l ++ pick k m :=
  List.filterMap_append

theorem pick_self {α : Type*} (k : ι) (a : α) : pick k [(k, a)] = [a] :=
  List.filterMap_cons_some (if_pos rfl)

theorem pick_of_ne {α : Type*} {j k : ι} (h : j ≠ k) (a : α) : pick k [(j, a)] = [] :=
  List.filterMap_cons_none (if_neg h)

theorem toward_self (i s : ι) (q : Q) (us : List (Up ι P Q)) :
    (.second i s q :: us : List (Up ι P Q)).filterMap (Up.toward i) =
      q :: us.filterMap (Up.toward i) := List.filterMap_cons_some (if_pos rfl)

theorem toward_of_ne {d i : ι} (h : d ≠ i) (s : ι) (q : Q) (us : List (Up ι P Q)) :
    (.second d s q :: us : List (Up ι P Q)).filterMap (Up.toward i) =
      us.filterMap (Up.toward i) := List.filterMap_cons_none (if_neg h)

/-- As many packages as the name occurs. -/
theorem pick_length {α : Type*} (k : ι) (l : List (ι × α)) :
    (pick k l).length = (l.map Prod.fst).count k := by
  induction l with
  | nil => rfl
  | cons p l ih =>
    unfold pick at ih ⊢
    by_cases h : p.1 = k
    · rw [List.filterMap_cons_some (by rw [if_pos h]), List.length_cons, ih, List.map_cons, h,
        List.count_cons_self]
    · rw [List.filterMap_cons_none (by rw [if_neg h]), ih, List.map_cons, List.count_cons_of_ne h]

theorem mem_pick {α : Type*} {k : ι} {l : List (ι × α)} {a : α} : a ∈ pick k l ↔ (k, a) ∈ l := by
  unfold pick
  rw [List.mem_filterMap]
  constructor
  · rintro ⟨⟨k', b⟩, hb, he⟩
    dsimp only at he
    split at he
    · next hk =>
      cases he
      exact hk ▸ hb
    · cases he
  · exact fun h => ⟨(k, a), h, if_pos rfl⟩

theorem filter_ne_length {l : List ι} (hd : l.Nodup) (hi : i ∈ l) :
    (l.filter (· ≠ i)).length + 1 = l.length := by
  have h := List.length_erase_of_mem hi
  rw [hd.erase_eq_filter] at h
  have hpos := List.length_pos_of_mem hi
  have heq : l.filter (fun j => j != i) = l.filter (· ≠ i) := by
    refine List.filter_congr fun j _ => ?_
    by_cases hj : j = i <;> simp [hj]
  rw [heq] at h
  omega

theorem relays_fst (h : ∀ j ∈ N.members, (N.party j).filed.isSome = true) (i : ι) :
    (N.relays i).map Prod.fst = N.members.filter (· ≠ i) := by
  unfold Net.relays
  have hsub : ∀ j ∈ N.members.filter (· ≠ i), (N.party j).filed.isSome = true :=
    fun j hj => h j (List.mem_of_mem_filter hj)
  generalize N.members.filter (· ≠ i) = l at hsub
  induction l with
  | nil => rfl
  | cons j l ih =>
    obtain ⟨p, hp⟩ := Option.isSome_iff_exists.mp (hsub j (List.mem_cons_self ..))
    rw [List.filterMap_cons_some (by rw [hp]; rfl), List.map_cons,
      ih fun k hk => hsub k (List.mem_cons_of_mem _ hk)]

/-! ## What the invariant says of a party -/

theorem relays_length_lt (hd : N.members.Nodup) (hi : i ∈ N.members) :
    (N.relays i).length + 1 ≤ N.members.length := by
  have h1 := filter_ne_length hd hi
  have h2 : (N.relays i).length ≤ (N.members.filter (· ≠ i)).length := List.length_filterMap_le ..
  omega

/-- A party never gets more first packages than it waits for. -/
theorem Inv.firsts_length (h : Inv eager N) (hs : N.stage ≠ .joining) (hi : i ∈ N.members) :
    (N.party i).firsts.length + ((N.party i).down.filterMap Down.asFirst).length + 1 ≤ N.size := by
  obtain ⟨hlen, hn⟩ := h.full hs
  have hf := congrArg List.length (h.course hs i hi).firsts
  rw [List.length_append] at hf
  have hr := relays_length_lt h.distinct hi
  split at hf
  · omega
  · rw [List.length_nil] at hf
    omega

/-- A party in its second round has all first packages, and there are no more. -/
theorem Inv.of_mixed (h : Inv eager N) (hs : N.stage ≠ .joining) (hi : i ∈ N.members)
    (hm : (N.party i).mixed N.size) : N.late = true ∧ (N.party i).down.filterMap Down.asFirst = [] ∧
      (N.party i).firsts = N.relays i ∧ (N.party i).firsts.map Prod.fst = N.members.filter (· ≠ i) := by
  have hlen := h.firsts_length hs hi
  obtain ⟨-, hn⟩ := h.full hs
  unfold Party.mixed at hm
  have hnil : (N.party i).down.filterMap Down.asFirst = [] := List.length_eq_zero_iff.mp (by omega)
  have hf := (h.course hs i hi).firsts
  rw [hnil, List.append_nil] at hf
  have hlate : N.late = true := by
    by_contra hl
    rw [if_neg hl] at hf
    rw [hf, List.length_nil] at hm
    omega
  rw [if_pos hlate] at hf
  refine ⟨hlate, hnil, hf, ?_⟩
  rw [hf]
  exact relays_fst (h.stored hlate) i

/-- What a party has made is one package for each other, or nothing. -/
theorem Inv.made_names (h : Inv eager N) (hs : N.stage ≠ .joining) (hi : i ∈ N.members) :
    (N.party i).made = [] ∧ ¬ (N.party i).mixed N.size ∨
      (N.party i).mixed N.size ∧
        ((N.party i).made.map Prod.fst).Perm (N.members.filter (· ≠ i)) := by
  have hc := h.course hs i hi
  by_cases hm : (N.party i).mixed N.size
  · obtain ⟨made, hperm, hcalls⟩ := hc.calls hm
    refine .inr ⟨hm, ?_⟩
    have hmade : (N.party i).made = made := by
      unfold Party.made
      rw [hcalls, List.flatMap_cons]
      have : ((N.party i).lasts eager N.size).flatMap Call.made = [] := by
        rw [List.flatMap_eq_nil_iff]
        unfold Party.lasts
        intro c hc
        split at hc
        · rw [List.eq_of_mem_replicate hc]
          rfl
        · split at hc
          · rw [List.mem_singleton.mp hc]
            rfl
          · cases hc
      rw [this, List.append_nil]
      rfl
    rw [hmade]
    exact hperm.trans (.of_eq (h.of_mixed hs hi hm).2.2.2)
  · exact .inl ⟨by unfold Party.made; rw [hc.idle hm]; rfl, hm⟩

/-- One package for each other. -/
theorem Inv.made_count (h : Inv eager N) (hs : N.stage ≠ .joining) {j : ι} (hi : i ∈ N.members)
    (hj : j ∈ N.members) : (pick i (N.party j).made).length =
      if (N.party j).mixed N.size ∧ i ≠ j then 1 else 0 := by
  rcases h.made_names hs hj with ⟨hnil, hm⟩ | ⟨hm, hperm⟩
  · rw [hnil, if_neg fun hc => hm hc.1]
    rfl
  · rw [pick_length, hperm.count_eq]
    by_cases hij : i = j
    · rw [if_neg fun hc => hc.2 hij]
      refine List.count_eq_zero.mpr fun hmem => ?_
      have := (List.mem_filter.mp hmem).2
      simp [hij] at this
    · rw [if_pos ⟨hm, hij⟩]
      exact List.count_eq_one_of_mem (h.distinct.filter _)
        (List.mem_filter.mpr ⟨hi, by simpa using hij⟩)

/-- A party is sent at most one second package of each other. -/
theorem Inv.inbox_names (h : Inv eager N) (hs : N.stage ≠ .joining) (hi : i ∈ N.members) :
    ((N.party i).inbox.map Prod.fst).Nodup ∧
      ∀ k ∈ (N.party i).inbox.map Prod.fst, k ∈ N.members ∧ k ≠ i := by
  have hsend := (h.course hs i hi).senders
  have hmem : ∀ k ∈ (N.party i).inbox.map Prod.fst, k ∈ N.members ∧ k ≠ i := by
    intro k hk
    obtain ⟨p, hp, rfl⟩ := List.mem_map.mp hk
    exact hsend p hp
  refine ⟨List.nodup_iff_count_le_one.mpr fun k => ?_, hmem⟩
  by_cases hk : k ∈ (N.party i).inbox.map Prod.fst
  · have hkm := (hmem k hk).1
    have hp := congrArg List.length (h.pair i hi k hkm)
    rw [List.length_append, pick_length, h.made_count hs hi hkm] at hp
    split at hp <;> omega
  · rw [List.count_eq_zero.mpr hk]
    omega

theorem Inv.inbox_subperm (h : Inv eager N) (hs : N.stage ≠ .joining) (hi : i ∈ N.members) :
    ((N.party i).inbox.map Prod.fst).Subperm (N.members.filter (· ≠ i)) := by
  obtain ⟨hnd, hmem⟩ := h.inbox_names hs hi
  refine hnd.subperm fun k hk => List.mem_filter.mpr ⟨(hmem k hk).1, ?_⟩
  simpa using (hmem k hk).2

/-- A party never gets more second packages than it waits for. -/
theorem Inv.inbox_length (h : Inv eager N) (hs : N.stage ≠ .joining) (hi : i ∈ N.members) :
    (N.party i).seconds.length + ((N.party i).down.filterMap Down.asSecond).length + 1 ≤
      N.size := by
  have h1 := (h.inbox_subperm hs hi).length_le
  have h2 := filter_ne_length h.distinct hi
  have h3 := (h.full hs).1
  unfold Party.inbox at h1
  rw [List.length_map, List.length_append] at h1
  omega

/-- A party that has counted its second packages has one of each other. -/
theorem Inv.of_served (h : Inv eager N) (hs : N.stage ≠ .joining) (hi : i ∈ N.members)
    (hv : (N.party i).served N.size) :
    ((N.party i).seconds.map Prod.fst).Perm (N.members.filter (· ≠ i)) ∧
      (N.party i).down.filterMap Down.asSecond = [] := by
  have hlen := h.inbox_length hs hi
  unfold Party.served at hv
  have hnil : (N.party i).down.filterMap Down.asSecond = [] := List.length_eq_zero_iff.mp (by omega)
  refine ⟨?_, hnil⟩
  have hsub := h.inbox_subperm hs hi
  unfold Party.inbox at hsub
  rw [hnil, List.append_nil] at hsub
  refine hsub.perm_of_length_le ?_
  have h2 := filter_ne_length h.distinct hi
  have h3 := (h.full hs).1
  rw [List.length_map]
  omega

/-- A second package was made by the party it names, for the party that has it. -/
theorem Inv.made_by (h : Inv eager N) (hs : N.stage ≠ .joining) (hi : i ∈ N.members) {p : ι × Q}
    (hp : p ∈ (N.party i).inbox) : (i, p.2) ∈ (N.party p.1).made ∧ (N.party p.1).mixed N.size := by
  have hj := ((h.course hs i hi).senders p hp).1
  have hin : p.2 ∈ pick i (N.party p.1).made := by
    rw [← h.pair i hi p.1 hj]
    exact List.mem_append_left _ (mem_pick.mpr hp)
  refine ⟨mem_pick.mp hin, ?_⟩
  rcases h.made_names hs hj with ⟨hnil, -⟩ | ⟨hm, -⟩
  · rw [hnil] at hin
    cases hin
  · exact hm

/-! ## Moves of one party -/

theorem set_self (N : Net ι P Q) (i : ι) (x : Party ι P Q) : (N.set i x).party i = x :=
  Function.update_self ..

theorem set_of_ne {j : ι} (h : j ≠ i) (N : Net ι P Q) (x : Party ι P Q) :
    (N.set i x).party j = N.party j := Function.update_of_ne h ..

/-- A party's own package is not relayed to it. -/
theorem set_relays_self (N : Net ι P Q) (i : ι) (x : Party ι P Q) :
    (N.set i x).relays i = N.relays i := by
  refine List.filterMap_congr fun j hj => ?_
  have : j ≠ i := by simpa using (List.mem_filter.mp hj).2
  rw [set_of_ne this]

theorem set_relays {x : Party ι P Q} (hx : x.filed = (N.party i).filed) (j : ι) :
    (N.set i x).relays j = N.relays j := by
  refine List.filterMap_congr fun k _ => ?_
  by_cases hk : k = i
  · rw [hk, set_self, hx]
  · rw [set_of_ne hk]

/-- Of the net a party's course depends on the stage, the cast and the relays. -/
theorem Course.congr {x : Party ι P Q} (h : Course eager N i x) (hz : N'.size = N.size)
    (hs : N'.stage = N.stage) (hm : N'.members = N.members)
    (hr : N.late = true → N'.relays i = N.relays i) : Course eager N' i x := by
  have hl : N'.late = N.late := by
    unfold Net.late
    rw [hs]
  refine ⟨h.opening, h.sorted, ?_, hm ▸ h.senders, hm ▸ h.targets, hz ▸ h.calls, hz ▸ h.idle,
    hz ▸ h.notice,
    h.doneLast, h.quiet, hs ▸ h.told, h.finish, h.inOrder, h.closed⟩
  rw [h.firsts, hl]
  split
  · next hlate => rw [hr hlate]
  · rfl

/-- A move of one party that sends `out` to the others and keeps what it was sent. -/
theorem Inv.set (h : Inv eager N) (hs : N.stage ≠ .joining) (hi : i ∈ N.members) {x : Party ι P Q}
    (hfiled : N.late = true → x.filed = (N.party i).filed)
    (hflag : (N.party i).flagged = true → x.flagged = true) (hc : Course eager N i x)
    (hin : x.inbox = (N.party i).inbox) (out : List (ι × Q))
    (hup : ∀ a, x.up.filterMap (Up.toward a) =
      (N.party i).up.filterMap (Up.toward a) ++ pick a out)
    (hmade : x.made = (N.party i).made ++ out) : Inv eager (N.set i x) := by
  have hinbox (j : ι) : ((N.set i x).party j).inbox = (N.party j).inbox := by
    by_cases hj : j = i
    · rw [hj, set_self, hin]
    · rw [set_of_ne hj]
  refine ⟨h.distinct, fun j hj => ?_, fun hs' => absurd hs' hs, h.full, fun hl j hj => ?_,
    fun ho j hj => ?_, fun _ j hj => ?_, fun a ha b hb => ?_⟩
  · have hne : j ≠ i := fun e => hj (e ▸ hi)
    rw [set_of_ne hne]
    exact h.outside j hj
  · by_cases e : j = i
    · rw [e, set_self, hfiled hl]
      exact h.stored hl i hi
    · rw [set_of_ne e]
      exact h.stored hl j hj
  · by_cases e : j = i
    · rw [e, set_self]
      exact hflag (h.all ho i hi)
    · rw [set_of_ne e]
      exact h.all ho j hj
  · by_cases e : j = i
    · rw [e, set_self]
      exact hc.congr rfl rfl rfl fun _ => set_relays_self ..
    · rw [set_of_ne e]
      exact (h.course hs j hj).congr rfl rfl rfl fun hl => set_relays (hfiled hl) j
  · rw [hinbox]
    by_cases e : b = i
    · subst e
      rw [set_self, hup, hmade, ← List.append_assoc, h.pair a ha b hb, pick_append]
    · rw [set_of_ne e]
      exact h.pair a ha b hb

/-- Nothing is under way while the parties join. -/
theorem Inv.begun (h : Inv eager N) (hd : (N.party i).down ≠ [] ∨ (N.party i).up ≠ []) :
    N.stage ≠ .joining := by
  intro hs
  rw [(h.idle hs).1 i] at hd
  rcases hd with hd | hd
  · exact hd rfl
  · exact hd rfl

theorem pairwise_snoc {α : Type*} {r : α → α → Prop} {l : List α} {a : α} (h : l.Pairwise r)
    (ha : ∀ b ∈ l, r b a) : (l ++ [a]).Pairwise r := by
  refine List.pairwise_append.mpr ⟨h, List.pairwise_singleton _ _, fun b hb c hc => ?_⟩
  rw [List.mem_singleton.mp hc]
  exact ha b hb

theorem Inv.start (h : Inv eager N) {p : P} {ds : List (Down ι P Q)} (hi : i ∈ N.members)
    (hd : (N.party i).down = .start :: ds) :
    Inv eager (N.set i { N.party i with
      own := (N.party i).own ++ [p], down := ds, up := (N.party i).up ++ [.first p] }) := by
  have hs := h.begun (.inl (by rw [hd]; nofun))
  have hc := h.course hs i hi
  have hsorted := hc.sorted
  have hopening := hc.opening
  have hfirsts := hc.firsts
  have hsenders := hc.senders
  have hfinish := hc.finish
  have hinOrder := hc.inOrder
  have hclosed := hc.closed
  rw [hd] at hsorted hopening hfirsts hsenders hfinish hinOrder hclosed
  refine h.set hs hi (fun _ => rfl) id ⟨?_, (List.pairwise_cons.mp hsorted).2, hfirsts,
    hsenders, ?_,
    ?_, hc.idle, ?_, ?_, ?_, hc.told, hfinish, hinOrder, hclosed⟩ ?_ [] ?_ ?_
  · simp only [List.countP_cons, List.countP_append, List.countP_nil, Down.isStart, Up.isFirst,
      if_true] at hopening ⊢
    omega
  · intro dst src q hq
    rcases List.mem_append.mp hq with hq | hq
    · exact hc.targets dst src q hq
    · cases List.mem_singleton.mp hq
  · have hl : Party.lasts eager N.size { N.party i with
        own := (N.party i).own ++ [p], down := ds, up := (N.party i).up ++ [.first p] } =
        (N.party i).lasts eager N.size := by
      unfold Party.lasts
      rw [hd]
      rfl
    rw [hl]
    exact hc.calls
  · rw [List.countP_append]
    exact hc.notice
  · exact pairwise_snoc hc.doneLast fun _ _ _ => rfl
  · intro hf u hu
    rcases List.mem_append.mp hu with hu | hu
    · exact hc.quiet hf u hu
    · rw [List.mem_singleton.mp hu]
      rfl
  · unfold Party.inbox
    rw [hd]
    rfl
  · intro a
    rw [pick_nil, List.append_nil, List.filterMap_append]
    exact List.append_nil _
  · rw [List.append_nil]
    rfl

/-- A second package on its way: the first round is over. -/
theorem Inv.of_second (h : Inv eager N) (hs : N.stage ≠ .joining) (hi : i ∈ N.members) {p : ι × Q}
    (hp : p ∈ (N.party i).inbox) : N.late = true :=
  have hj := ((h.course hs i hi).senders p hp).1
  (h.of_mixed hs hj (h.made_by hs hi hp).2).1

omit [DecidableEq ι] in
theorem no_firsts {d : Down ι P Q} {ds : List (Down ι P Q)} (h : ∀ a ∈ ds, d.rank ≤ a.rank)
    (hd : 1 < d.rank) : ds.filterMap Down.asFirst = [] := by
  refine List.filterMap_eq_nil_iff.mpr fun a ha => ?_
  cases a with
  | first s p =>
    have : d.rank ≤ 1 := h _ ha
    omega
  | _ => rfl

omit [DecidableEq ι] in
theorem no_seconds {d : Down ι P Q} {ds : List (Down ι P Q)} (h : ∀ a ∈ ds, d.rank ≤ a.rank)
    (hd : 2 < d.rank) : ds.filterMap Down.asSecond = [] := by
  refine List.filterMap_eq_nil_iff.mpr fun a ha => ?_
  cases a with
  | second s q =>
    have : d.rank ≤ 2 := h _ ha
    omega
  | _ => rfl

theorem toward_sent (a i : ι) (out : List (ι × Q)) :
    ((out.map fun y => (.second y.1 i y.2 : Up ι P Q)).filterMap (Up.toward a)) = pick a out := by
  rw [List.filterMap_map]
  rfl

/-- A party that is yet to count a first package: it has sent no second package and no
notice, and has got none. -/
structure Waiting (eager : Bool) (size : Nat) (x : Party ι P Q) : Prop where
  unmixed : ¬ x.mixed size
  seconds : x.seconds = []
  through : ¬ x.through eager size
  flagged : x.flagged = false
  told : x.told = 0
  silent : ∀ u ∈ x.up, u.isDone = false

theorem Inv.waiting (h : Inv eager N) (hs : N.stage ≠ .joining) (hi : i ∈ N.members)
    (hd : (N.party i).down.filterMap Down.asFirst ≠ []) : Waiting eager N.size (N.party i) := by
  have hc := h.course hs i hi
  have hsize := (h.full hs).2
  have hlen := h.firsts_length hs hi
  have hpos := List.length_pos_of_ne_nil hd
  have hunmixed : ¬ (N.party i).mixed N.size := by
    unfold Party.mixed
    omega
  have hseconds : (N.party i).seconds = [] := by
    by_contra hne
    exact hd (hc.inOrder hne)
  have hthrough : ¬ (N.party i).through eager N.size := by
    unfold Party.through
    split
    · exact hunmixed
    · unfold Party.served
      rw [hseconds, List.length_nil]
      omega
  have hnotice := hc.notice
  rw [if_neg hthrough] at hnotice
  have hflag : (N.party i).flagged = false := by
    cases e : (N.party i).flagged with
    | false => rfl
    | true =>
      rw [e, if_pos rfl] at hnotice
      omega
  have hover : N.stage ≠ .ended := fun ho => by
    rw [h.all ho i hi] at hflag
    cases hflag
  refine ⟨hunmixed, hseconds, hthrough, hflag, ?_, fun u hu => ?_⟩
  · rw [hc.told, if_neg hover]
  · by_contra hne
    have : 0 < (N.party i).up.countP Up.isDone :=
      List.countP_pos_iff.mpr ⟨u, hu, by simpa using hne⟩
    omega

/-- A first package about to be counted: the hub has relayed, and the others are on their
way. -/
theorem Inv.at_first (h : Inv eager N) {p : ι × P} {ds : List (Down ι P Q)} (hi : i ∈ N.members)
    (hd : (N.party i).down = .first p.1 p.2 :: ds) :
    N.late = true ∧
      ((N.party i).firsts ++ [p]) ++ ds.filterMap Down.asFirst = N.relays i ∧
      (N.party i).firsts.length + (ds.filterMap Down.asFirst).length + 2 ≤ N.size := by
  have hs := h.begun (.inl (by rw [hd]; nofun))
  have hlen := h.firsts_length hs hi
  have hfirsts := (h.course hs i hi).firsts
  rw [hd] at hfirsts hlen
  rw [show (Down.first p.1 p.2 :: ds : List (Down ι P Q)).filterMap Down.asFirst =
    p :: ds.filterMap Down.asFirst from rfl] at hfirsts hlen
  rw [List.length_cons] at hlen
  have hlate : N.late = true := by
    by_contra hl
    rw [if_neg hl] at hfirsts
    exact absurd (List.append_eq_nil_iff.mp hfirsts).2 (by nofun)
  rw [if_pos hlate] at hfirsts
  refine ⟨hlate, ?_, by omega⟩
  rw [List.append_assoc]
  exact hfirsts

/-- A first package is counted, and there are more to come. -/
theorem Inv.first_more (h : Inv eager N) {p : ι × P} {ds : List (Down ι P Q)}
    (hi : i ∈ N.members) (hd : (N.party i).down = .first p.1 p.2 :: ds)
    (hlt : (N.party i).firsts.length + 2 < N.size) :
    Inv eager (N.set i { N.party i with firsts := (N.party i).firsts ++ [p], down := ds }) := by
  have hs := h.begun (.inl (by rw [hd]; nofun))
  have hc := h.course hs i hi
  obtain ⟨hlate, hrel, -⟩ := h.at_first hi hd
  obtain ⟨hunmixed, hseconds, hthrough, -, -, -⟩ := h.waiting hs hi (by rw [hd]; nofun)
  have hsorted := hc.sorted
  have hopening := hc.opening
  have hsenders := hc.senders
  have hfinish := hc.finish
  have hclosed := hc.closed
  rw [hd] at hsorted hopening hsenders hfinish hclosed
  have hcalls := hc.idle hunmixed
  have hstill : ¬ N.size ≤ ((N.party i).firsts ++ [p]).length + 1 := by
    rw [List.length_append, List.length_singleton]
    omega
  refine h.set hs hi (fun _ => rfl) id ⟨hopening, (List.pairwise_cons.mp hsorted).2, ?_, hsenders,
    hc.targets, fun hm => absurd hm hstill, fun _ => hcalls, ?_, hc.doneLast, hc.quiet, hc.told,
    hfinish, fun hne => absurd hseconds hne, hclosed⟩ ?_ [] ?_ ?_
  · rw [if_pos hlate]
    exact hrel
  · refine hc.notice.trans ?_
    rw [if_neg hthrough, if_neg]
    unfold Party.through Party.mixed Party.served
    split
    · rw [List.length_append, List.length_singleton]
      omega
    · rw [hseconds, List.length_nil]
      omega
  · unfold Party.inbox
    rw [hd]
    rfl
  · exact fun a => (List.append_nil _).symm
  · exact (List.append_nil _).symm

omit [DecidableEq ι] in
/-- Of what a party sends as it starts its second round, only the notice is no package. -/
theorem countP_sent (f : Up ι P Q → Bool) (hf : ∀ d s q, f (.second d s q) = false) (i : ι)
    (out : List (ι × Q)) : (out.map fun y => (.second y.1 i y.2 : Up ι P Q)).countP f = 0 := by
  rw [List.countP_eq_zero]
  intro u hu
  obtain ⟨y, -, rfl⟩ := List.mem_map.mp hu
  rw [hf]
  exact Bool.false_ne_true

omit [DecidableEq ι] in
/-- The notice is said after the packages of the second round. -/
theorem doneLast_sent {us : List (Up ι P Q)} (hnone : ∀ u ∈ us, u.isDone = false) (i : ι)
    (out : List (ι × Q)) :
    List.Pairwise (fun a b : Up ι P Q => a.isDone = true → b.isSecond = false)
      (us ++ (out.map fun y => .second y.1 i y.2) ++ if eager then [.done] else []) := by
  have hquiet : ∀ u ∈ us ++ out.map (fun y => (.second y.1 i y.2 : Up ι P Q)), u.isDone = false := by
    intro u hu
    rcases List.mem_append.mp hu with hu | hu
    · exact hnone u hu
    · obtain ⟨y, -, rfl⟩ := List.mem_map.mp hu
      rfl
  refine List.pairwise_append.mpr ⟨?_, ?_, ?_⟩
  · refine List.pairwise_of_forall_mem_list fun u hu _ _ hdone => ?_
    rw [hquiet u hu] at hdone
    cases hdone
  · split
    · exact List.pairwise_singleton _ _
    · exact .nil
  · intro u hu _ _ hdone
    rw [hquiet u hu] at hdone
    cases hdone

/-- The last first package: the second round starts. -/
theorem Inv.first_last (h : Inv eager N) {p : ι × P} {ds : List (Down ι P Q)} {out : List (ι × Q)}
    (hi : i ∈ N.members) (hd : (N.party i).down = .first p.1 p.2 :: ds)
    (hout : (out.map Prod.fst).Perm (((N.party i).firsts ++ [p]).map Prod.fst))
    (hlt : ¬ (N.party i).firsts.length + 2 < N.size) :
    Inv eager (N.set i { N.party i with
      firsts := (N.party i).firsts ++ [p]
      calls := (N.party i).calls ++ [.mix ((N.party i).firsts ++ [p]) out]
      up := (N.party i).up ++ (out.map fun y => .second y.1 i y.2) ++
        if eager then [.done] else []
      down := ds }) := by
  have hs := h.begun (.inl (by rw [hd]; nofun))
  have hc := h.course hs i hi
  have hsize := (h.full hs).2
  obtain ⟨hlate, hrel, hlen⟩ := h.at_first hi hd
  obtain ⟨hunmixed, hseconds, -, hflag, htold, hnone⟩ := h.waiting hs hi (by rw [hd]; nofun)
  have hsorted := hc.sorted
  have hopening := hc.opening
  have hsenders := hc.senders
  have hfinish := hc.finish
  have hclosed := hc.closed
  rw [hd] at hsorted hopening hsenders hfinish hclosed
  have hcalls := hc.idle hunmixed
  have hnil : ds.filterMap Down.asFirst = [] := List.length_eq_zero_iff.mp (by omega)
  rw [hnil, List.append_nil] at hrel
  have hmembers : ∀ y ∈ out, y.1 ∈ N.members := by
    intro y hy
    have hmem := hout.mem_iff.mp (List.mem_map_of_mem hy)
    rw [hrel, relays_fst (h.stored hlate) i] at hmem
    exact List.mem_of_mem_filter hmem
  have hmixed : N.size ≤ ((N.party i).firsts ++ [p]).length + 1 := by
    rw [List.length_append, List.length_singleton]
    omega
  have hunserved : ¬ N.size ≤ (N.party i).seconds.length + 1 := by
    rw [hseconds, List.length_nil]
    omega
  refine h.set hs hi (fun _ => rfl) id ⟨?_, (List.pairwise_cons.mp hsorted).2, ?_, hsenders, ?_,
    fun _ => ⟨out, hout, ?_⟩, fun hm => absurd hmixed hm, ?_, doneLast_sent hnone i out, ?_, hc.told,
    hfinish, fun hne => absurd hseconds hne, hclosed⟩ ?_ out ?_ ?_
  · have h1 : (if eager then [Up.done] else [] : List (Up ι P Q)).countP Up.isFirst = 0 := by
      split <;> rfl
    dsimp only
    rw [List.countP_append, List.countP_append, countP_sent _ fun _ _ _ => rfl, h1]
    exact hopening
  · rw [if_pos hlate, hnil, List.append_nil]
    exact hrel
  · intro dst src q hq
    rcases List.mem_append.mp hq with hq | hq
    · rcases List.mem_append.mp hq with hq | hq
      · exact hc.targets dst src q hq
      · obtain ⟨y, hy, he⟩ := List.mem_map.mp hq
        cases he
        exact ⟨rfl, hmembers y hy⟩
    · split at hq
      · cases List.mem_singleton.mp hq
      · cases hq
  · dsimp only
    rw [hcalls]
    refine congrArg (List.cons _) (Eq.symm ?_)
    unfold Party.lasts
    split
    · dsimp only
      rw [htold, Nat.zero_sub]
      rfl
    · exact if_neg hunserved
  · have hup : (N.party i).up.countP Up.isDone = 0 :=
      List.countP_eq_zero.mpr fun u hu => by rw [hnone u hu]; exact Bool.false_ne_true
    dsimp only
    rw [List.countP_append, List.countP_append, countP_sent _ fun _ _ _ => rfl, hup, hflag]
    by_cases he : eager = true
    · rw [if_pos he]
      refine (if_pos ?_).symm
      exact (Party.through_eager he).mpr hmixed
    · rw [if_neg he]
      refine (if_neg (mt (Party.through_slow he).mp ?_)).symm
      exact hunserved
  · intro hf
    exact absurd (hf : (N.party i).flagged = true) (by rw [hflag]; exact Bool.false_ne_true)
  · unfold Party.inbox
    rw [hd]
    rfl
  · intro a
    dsimp only
    rw [List.filterMap_append, List.filterMap_append, toward_sent]
    have : (if eager then [Up.done] else [] : List (Up ι P Q)).filterMap (Up.toward a) = [] := by
      split <;> rfl
    rw [this, List.append_nil]
  · unfold Party.made
    dsimp only
    rw [List.flatMap_append]
    exact congrArg (_ ++ ·) (List.append_nil _)

theorem Inv.first (h : Inv eager N) {p : ι × P} {ds : List (Down ι P Q)} {out : List (ι × Q)}
    (hi : i ∈ N.members) (hd : (N.party i).down = .first p.1 p.2 :: ds)
    (hout : (out.map Prod.fst).Perm (((N.party i).firsts ++ [p]).map Prod.fst)) :
    Inv eager (N.set i { (N.party i).hearFirst eager N.size i p out with down := ds }) := by
  unfold Party.hearFirst
  by_cases hlt : (N.party i).firsts.length + 2 < N.size
  · rw [if_pos hlt]
    exact h.first_more hi hd hlt
  · rw [if_neg hlt]
    exact h.first_last hi hd hout hlt

/-- A second package about to be counted: the first ones are complete, and the end has not
been announced. -/
structure Receiving (eager : Bool) (N : Net ι P Q) (i : ι) (p : ι × Q) (ds : List (Down ι P Q)) :
    Prop where
  late : N.late = true
  mixed : (N.party i).mixed N.size
  unserved : ¬ (N.party i).served N.size
  firsts : ds.filterMap Down.asFirst = []
  senders : ∀ q ∈ ((N.party i).seconds ++ [p]) ++ ds.filterMap Down.asSecond,
    q.1 ∈ N.members ∧ q.1 ≠ i
  told : (N.party i).told - ds.countP Down.isFinish = 0
  lasts : (N.party i).lasts eager N.size = []

theorem Inv.at_second (h : Inv eager N) {p : ι × Q} {ds : List (Down ι P Q)} (hi : i ∈ N.members)
    (hd : (N.party i).down = .second p.1 p.2 :: ds) : Receiving eager N i p ds := by
  have hs := h.begun (.inl (by rw [hd]; nofun))
  have hc := h.course hs i hi
  have hinbox : (N.party i).inbox = (N.party i).seconds ++ p :: ds.filterMap Down.asSecond := by
    unfold Party.inbox
    rw [hd]
    rfl
  have hlate : N.late = true := h.of_second hs hi (by
    rw [hinbox]
    exact List.mem_append_right _ (List.mem_cons_self ..))
  have hlen := h.inbox_length hs hi
  have hsorted := hc.sorted
  have hfirsts := hc.firsts
  have hsenders := hc.senders
  have hclosed := hc.closed
  rw [hd] at hsorted hfirsts hsenders hclosed hlen
  rw [show (Down.second p.1 p.2 :: ds : List (Down ι P Q)).filterMap Down.asSecond =
    p :: ds.filterMap Down.asSecond from rfl] at hsenders hclosed hlen
  rw [List.length_cons] at hlen
  have hnil : ds.filterMap Down.asFirst = [] :=
    no_firsts (List.pairwise_cons.mp hsorted).1 (Nat.lt_succ_self 1)
  have hmixed : (N.party i).mixed N.size := by
    rw [if_pos hlate] at hfirsts
    have hlen' := congrArg List.length hfirsts
    rw [show (Down.second p.1 p.2 :: ds : List (Down ι P Q)).filterMap Down.asFirst =
      ds.filterMap Down.asFirst from rfl, hnil, List.append_nil] at hlen'
    have h1 := congrArg List.length (relays_fst (h.stored hlate) i)
    rw [List.length_map] at h1
    have h2 := filter_ne_length h.distinct hi
    have h3 := (h.full hs).1
    unfold Party.mixed
    omega
  have hunserved : ¬ (N.party i).served N.size := by
    unfold Party.served
    omega
  have hcount : (N.party i).told - ds.countP Down.isFinish = 0 := by
    by_contra hne
    have := hclosed (by
      rw [List.countP_cons_of_neg Bool.false_ne_true]
      omega)
    cases this
  refine ⟨hlate, hmixed, hunserved, hnil, ?_, hcount, ?_⟩
  · rw [List.append_assoc]
    exact hsenders
  · unfold Party.lasts
    rw [hd, List.countP_cons_of_neg Bool.false_ne_true, hcount, if_neg hunserved]
    split <;> rfl

/-- A second package is counted that does not complete the round. -/
theorem Inv.second_more (h : Inv eager N) {p : ι × Q} {ds : List (Down ι P Q)}
    (hi : i ∈ N.members) (hd : (N.party i).down = .second p.1 p.2 :: ds)
    (hlt : eager = true ∨ (N.party i).seconds.length + 2 < N.size) :
    Inv eager (N.set i { N.party i with seconds := (N.party i).seconds ++ [p], down := ds }) := by
  have hs := h.begun (.inl (by rw [hd]; nofun))
  have hc := h.course hs i hi
  obtain ⟨-, hmixed, hunserved, hnil, hsent, hcount, hlasts⟩ := h.at_second hi hd
  have hsorted := hc.sorted
  have hopening := hc.opening
  have hfirsts := hc.firsts
  have hfinish := hc.finish
  rw [hd] at hsorted hopening hfirsts hfinish
  have hcalls := hc.calls hmixed
  rw [hlasts] at hcalls
  -- unless it is announced early, the round waits for another package
  have hstill (he : ¬ eager = true) : ¬ N.size ≤ ((N.party i).seconds ++ [p]).length + 1 := by
    have := hlt.resolve_left he
    rw [List.length_append, List.length_singleton]
    omega
  refine h.set hs hi (fun _ => rfl) id ⟨hopening, (List.pairwise_cons.mp hsorted).2, hfirsts,
    hsent, hc.targets, fun _ => ?_, fun hm => absurd hmixed hm, ?_, hc.doneLast, hc.quiet,
    hc.told, ?_, fun _ => hnil, ?_⟩ ?_ [] ?_ ?_
  · have hl : Party.lasts eager N.size
        ({ N.party i with seconds := (N.party i).seconds ++ [p], down := ds } : Party ι P Q) =
          [] := by
      unfold Party.lasts
      dsimp only
      rw [hcount]
      split
      · rfl
      · next he => exact if_neg (hstill he)
    rw [hl]
    exact hcalls
  · refine hc.notice.trans ?_
    by_cases he : eager = true
    · rw [if_pos ((Party.through_eager he).mpr hmixed)]
      refine (if_pos ?_).symm
      exact (Party.through_eager he).mpr hmixed
    · rw [if_neg (mt (Party.through_slow he).mp hunserved)]
      refine (if_neg (mt (Party.through_slow he).mp ?_)).symm
      exact hstill he
  · rw [List.countP_cons_of_neg Bool.false_ne_true] at hfinish
    exact hfinish
  · intro hlt'
    exact absurd hcount (by dsimp only at hlt'; omega)
  · unfold Party.inbox
    rw [hd]
    exact List.append_assoc ..
  · exact fun a => (List.append_nil _).symm
  · exact (List.append_nil _).symm

/-- The last second package: the result, and the notice. -/
theorem Inv.second_last (h : Inv eager N) {p : ι × Q} {ds : List (Down ι P Q)}
    (hi : i ∈ N.members) (hd : (N.party i).down = .second p.1 p.2 :: ds) (he : ¬ eager = true)
    (hge : ¬ (N.party i).seconds.length + 2 < N.size) :
    Inv eager (N.set i { N.party i with
      seconds := (N.party i).seconds ++ [p]
      calls := (N.party i).calls ++ [.last (N.party i).firsts ((N.party i).seconds ++ [p])]
      up := (N.party i).up ++ [.done]
      down := ds }) := by
  have hs := h.begun (.inl (by rw [hd]; nofun))
  have hc := h.course hs i hi
  obtain ⟨-, hmixed, hunserved, hnil, hsent, hcount, hlasts⟩ := h.at_second hi hd
  have hsorted := hc.sorted
  have hopening := hc.opening
  have hfirsts := hc.firsts
  have hfinish := hc.finish
  have hnotice := hc.notice
  rw [hd] at hsorted hopening hfirsts hfinish
  have hcalls := hc.calls hmixed
  rw [hlasts] at hcalls
  rw [if_neg fun hv => hunserved ((Party.through_slow he).mp hv)] at hnotice
  have hserved : N.size ≤ ((N.party i).seconds ++ [p]).length + 1 := by
    rw [List.length_append, List.length_singleton]
    omega
  refine h.set hs hi (fun _ => rfl) id ⟨?_, (List.pairwise_cons.mp hsorted).2, hfirsts, hsent,
    ?_, fun _ => ?_, fun hm => absurd hmixed hm, ?_, ?_, ?_, hc.told, ?_, fun _ => hnil, ?_⟩
    ?_ [] ?_ ?_
  · dsimp only
    rw [List.countP_append]
    exact hopening
  · intro dst src q hq
    rcases List.mem_append.mp hq with hq | hq
    · exact hc.targets dst src q hq
    · cases List.mem_singleton.mp hq
  · obtain ⟨made, hperm, hcalls⟩ := hcalls
    refine ⟨made, hperm, ?_⟩
    dsimp only
    rw [hcalls]
    refine congrArg (List.cons _) (Eq.symm ?_)
    unfold Party.lasts
    rw [if_neg he]
    exact if_pos hserved
  · dsimp only
    rw [List.countP_append]
    refine Eq.trans ?_ (if_pos ?_).symm
    swap
    · exact (Party.through_slow he).mpr hserved
    rw [show ([Up.done] : List (Up ι P Q)).countP Up.isDone = 1 from rfl]
    omega
  · exact pairwise_snoc hc.doneLast fun _ _ _ => rfl
  · intro hf u hu
    rw [show (N.party i).flagged = true from hf, if_pos rfl] at hnotice
    omega
  · rw [List.countP_cons_of_neg Bool.false_ne_true] at hfinish
    exact hfinish
  · intro hlt'
    exact absurd hcount (by dsimp only at hlt'; omega)
  · unfold Party.inbox
    rw [hd]
    exact List.append_assoc ..
  · intro a
    rw [pick_nil, List.append_nil]
    dsimp only
    rw [List.filterMap_append]
    exact List.append_nil _
  · unfold Party.made
    dsimp only
    rw [List.flatMap_append]
    rfl

theorem Inv.second (h : Inv eager N) {p : ι × Q} {ds : List (Down ι P Q)} (hi : i ∈ N.members)
    (hd : (N.party i).down = .second p.1 p.2 :: ds) :
    Inv eager (N.set i { (N.party i).hearSecond eager N.size p with down := ds }) := by
  unfold Party.hearSecond
  by_cases hlt : eager = true ∨ (N.party i).seconds.length + 2 < N.size
  · rw [if_pos hlt]
    exact h.second_more hi hd hlt
  · rw [if_neg hlt]
    obtain ⟨he, hge⟩ := not_or.mp hlt
    exact h.second_last hi hd he hge

/-- At the end everybody has sent its notice. -/
theorem Inv.over_through (h : Inv eager N) (ho : N.stage = .ended) (hi : i ∈ N.members) :
    (N.party i).through eager N.size := by
  have hs : N.stage ≠ .joining := by rw [ho]; decide
  by_contra hno
  have hn := (h.course hs i hi).notice
  rw [if_neg hno, h.all ho i hi, if_pos rfl] at hn
  omega

/-- Second packages come after the first ones. -/
theorem Inv.mixed_of_served (h : Inv eager N) (hs : N.stage ≠ .joining) (hi : i ∈ N.members)
    (hv : (N.party i).served N.size) : (N.party i).mixed N.size := by
  have hc := h.course hs i hi
  obtain ⟨hsize, htwo⟩ := h.full hs
  unfold Party.served at hv
  have hne : (N.party i).seconds ≠ [] := by
    intro e
    rw [e, List.length_nil] at hv
    omega
  obtain ⟨p, hp⟩ := List.exists_mem_of_ne_nil _ hne
  have hlate := h.of_second hs hi (List.mem_append_left _ hp)
  have hfirsts := hc.firsts
  rw [if_pos hlate, hc.inOrder hne, List.append_nil] at hfirsts
  have h1 := congrArg List.length (relays_fst (h.stored hlate) i)
  have h2 := filter_ne_length h.distinct hi
  rw [List.length_map] at h1
  unfold Party.mixed
  rw [hfirsts]
  omega

/-- At the end a party has been sent one second package of each other. -/
theorem Inv.over_inbox (h : Inv eager N) (ho : N.stage = .ended) (hi : i ∈ N.members) :
    (N.party i).mixed N.size ∧
      ((N.party i).inbox.map Prod.fst).Perm (N.members.filter (· ≠ i)) := by
  have hs : N.stage ≠ .joining := by rw [ho]; decide
  by_cases he : eager = true
  · have hmixed {j : ι} (hj : j ∈ N.members) := (Party.through_eager he).mp (h.over_through ho hj)
    refine ⟨hmixed hi, (h.inbox_subperm hs hi).perm_of_length_le ?_⟩
    -- every other has sent its packages on before its notice
    have hsub : N.members.filter (· ≠ i) ⊆ (N.party i).inbox.map Prod.fst := by
      intro j hj
      obtain ⟨hj, hne⟩ := List.mem_filter.mp hj
      have hne : i ≠ j := fun e => by simp [e] at hne
      have hp := congrArg List.length (h.pair i hi j hj)
      have hup : (N.party j).up.filterMap (Up.toward i) = [] := by
        refine List.filterMap_eq_nil_iff.mpr fun u hu => ?_
        have := (h.course hs j hj).quiet (h.all ho j hj) u hu
        cases u with
        | second _ _ _ => cases this
        | _ => rfl
      rw [hup, List.append_nil, pick_length, h.made_count hs hi hj,
        if_pos ⟨hmixed hj, hne⟩] at hp
      exact List.count_pos_iff.mp (by omega)
    exact ((h.distinct.filter _).subperm hsub).length_le
  · have hserved := (Party.through_slow he).mp (h.over_through ho hi)
    obtain ⟨hperm, hnil⟩ := h.of_served hs hi hserved
    refine ⟨h.mixed_of_served hs hi hserved, ?_⟩
    unfold Party.inbox
    rw [hnil, List.append_nil]
    exact hperm

/-- **The end does not overtake.** A party that is about to be told that all are done
has one package of each round from every other. -/
theorem Inv.at_finish (h : Inv eager N) {ds : List (Down ι P Q)} (hi : i ∈ N.members)
    (hd : (N.party i).down = .finish :: ds) : N.stage = .ended ∧ (N.party i).mixed N.size ∧
      ((N.party i).seconds.map Prod.fst).Perm (N.members.filter (· ≠ i)) ∧
      (N.party i).seconds.length + 1 = N.size := by
  have hs := h.begun (.inl (by rw [hd]; nofun))
  have hc := h.course hs i hi
  have hfinish := hc.finish
  have hsorted := hc.sorted
  rw [hd] at hfinish hsorted
  rw [List.countP_cons_of_pos rfl] at hfinish
  have hover : N.stage = .ended := by
    by_contra hno
    rw [hc.told, if_neg hno] at hfinish
    omega
  have hinbox : (N.party i).inbox = (N.party i).seconds := by
    unfold Party.inbox
    rw [hd, show (Down.finish :: ds : List (Down ι P Q)).filterMap Down.asSecond =
      ds.filterMap Down.asSecond from rfl,
      no_seconds (List.pairwise_cons.mp hsorted).1 (Nat.lt_succ_self 2), List.append_nil]
  obtain ⟨hmixed, hperm⟩ := h.over_inbox hover hi
  rw [hinbox] at hperm
  refine ⟨hover, hmixed, hperm, ?_⟩
  have h1 := hperm.length_eq
  have h2 := filter_ne_length h.distinct hi
  have h3 := (h.full hs).1
  rw [List.length_map] at h1
  omega

theorem Inv.finish (h : Inv eager N) {ds : List (Down ι P Q)} (hi : i ∈ N.members)
    (hd : (N.party i).down = .finish :: ds) :
    Inv eager (N.set i { (N.party i).hearFinish eager N.size with down := ds }) := by
  have hs := h.begun (.inl (by rw [hd]; nofun))
  obtain ⟨hover, hmixed, -, hserved⟩ := h.at_finish hi hd
  have hc := h.course hs i hi
  have hsorted := hc.sorted
  have hopening := hc.opening
  have hfirsts := hc.firsts
  have hsenders := hc.senders
  have hfinish := hc.finish
  have hinOrder := hc.inOrder
  rw [hd] at hsorted hopening hfirsts hsenders hfinish hinOrder
  rw [List.countP_cons_of_pos rfl] at hfinish
  have htold := hc.told
  rw [if_pos hover] at htold
  have hnil : ds.filterMap Down.asSecond = [] :=
    no_seconds (List.pairwise_cons.mp hsorted).1 (Nat.lt_succ_self 2)
  obtain ⟨made, hperm, hcalls⟩ := hc.calls hmixed
  unfold Party.hearFinish
  by_cases he : eager = true
  · rw [if_pos ⟨he, hserved⟩]
    refine h.set hs hi (fun _ => rfl) id ⟨hopening, (List.pairwise_cons.mp hsorted).2, hfirsts,
      hsenders, hc.targets, fun _ => ⟨made, hperm, ?_⟩, fun hm => absurd hmixed hm, hc.notice,
      hc.doneLast, hc.quiet, hc.told, ?_, hinOrder, fun _ => hnil⟩ ?_ [] ?_ ?_
    · dsimp only
      rw [hcalls]
      unfold Party.lasts
      rw [if_pos he, if_pos he, hd, List.countP_cons_of_pos rfl, htold]
      have h0 : ds.countP Down.isFinish = 0 := by omega
      dsimp only
      rw [h0]
      rfl
    · dsimp only
      omega
    · unfold Party.inbox
      rw [hd]
      rfl
    · exact fun a => (List.append_nil _).symm
    · unfold Party.made
      dsimp only
      rw [List.flatMap_append]
      rfl
  · rw [if_neg fun hc => he hc.1]
    refine h.set hs hi (fun _ => rfl) id ⟨hopening, (List.pairwise_cons.mp hsorted).2, hfirsts,
      hsenders, hc.targets, fun _ => ⟨made, hperm, ?_⟩, fun hm => absurd hmixed hm, hc.notice,
      hc.doneLast, hc.quiet, hc.told, ?_, hinOrder, fun _ => hnil⟩ ?_ [] ?_ ?_
    · dsimp only
      rw [hcalls]
      unfold Party.lasts
      rw [if_neg he, if_neg he]
      rfl
    · dsimp only
      omega
    · unfold Party.inbox
      rw [hd]
      rfl
    · exact fun a => (List.append_nil _).symm
    · exact (List.append_nil _).symm

/-! ## Moves of the hub -/

/-- A package waiting to be stored: none is stored yet. -/
theorem Inv.unfiled (h : Inv eager N) (hs : N.stage ≠ .joining) {p : P} {us : List (Up ι P Q)}
    (hi : i ∈ N.members) (hu : (N.party i).up = .first p :: us) : (N.party i).filed = none := by
  have hopening := (h.course hs i hi).opening
  rw [hu, List.countP_cons_of_pos rfl] at hopening
  cases e : (N.party i).filed with
  | none => rfl
  | some q =>
    rw [e, if_pos Option.isSome_some] at hopening
    omega

theorem Inv.no_stray (h : Inv eager N) {p : P} {us : List (Up ι P Q)} (hi : i ∈ N.members)
    (hu : (N.party i).up = .first p :: us) : N.stage = .first := by
  have hs := h.begun (.inr (by rw [hu]; nofun))
  have hnone := h.unfiled hs hi hu
  by_contra hne
  have hlate : N.late = true := by
    unfold Net.late
    cases e : N.stage with
    | joining => exact absurd e hs
    | first => exact absurd e hne
    | second => rfl
    | ended => rfl
  have := h.stored hlate i hi
  rw [hnone] at this
  cases this

/-- The hub stores the package of `i`. -/
theorem Inv.filed (h : Inv eager N) {p : P} {us : List (Up ι P Q)} (hi : i ∈ N.members)
    (hu : (N.party i).up = .first p :: us) :
    Inv eager (N.set i { N.party i with up := us, filed := some p }) := by
  have hs := h.begun (.inr (by rw [hu]; nofun))
  have hfirst := h.no_stray hi hu
  have hnone := h.unfiled hs hi hu
  have hearly : ¬ N.late = true := by
    unfold Net.late
    rw [hfirst]
    decide
  have hc := h.course hs i hi
  have hopening := hc.opening
  have htargets := hc.targets
  have hnotice := hc.notice
  have hdone := hc.doneLast
  have hquiet := hc.quiet
  rw [hu] at hopening htargets hnotice hdone hquiet
  rw [List.countP_cons_of_pos rfl, hnone] at hopening
  refine h.set hs hi (fun hl => absurd hl hearly) id ⟨?_, hc.sorted, hc.firsts, hc.senders,
    fun d s q hq => htargets d s q (List.mem_cons_of_mem _ hq), hc.calls, hc.idle, hnotice,
    (List.pairwise_cons.mp hdone).2, fun hf u hm =>
      hquiet hf u (List.mem_cons_of_mem _ hm), hc.told,
    hc.finish, hc.inOrder, hc.closed⟩ rfl [] ?_ (List.append_nil _).symm
  · dsimp only
    simp only [Option.isSome_none, Bool.false_eq_true, if_false, Option.isSome_some, if_true]
      at hopening ⊢
    omega
  · intro a
    rw [hu]
    exact (List.append_nil _).symm

/-- The hub notes that `i` is done. -/
theorem Inv.flagged (h : Inv eager N) {us : List (Up ι P Q)} (hi : i ∈ N.members)
    (hu : (N.party i).up = .done :: us) (hf : (N.party i).flagged = false) :
    Inv eager (N.set i { N.party i with up := us, flagged := true }) := by
  have hs := h.begun (.inr (by rw [hu]; nofun))
  have hc := h.course hs i hi
  have hopening := hc.opening
  have htargets := hc.targets
  have hnotice := hc.notice
  have hdone := hc.doneLast
  rw [hu] at hopening htargets hnotice hdone
  rw [List.countP_cons_of_pos rfl, hf] at hnotice
  refine h.set hs hi (fun _ => rfl) (fun _ => rfl) ⟨hopening, hc.sorted, hc.firsts, hc.senders,
    fun d s q hq => htargets d s q (List.mem_cons_of_mem _ hq), hc.calls, hc.idle, hnotice,
    (List.pairwise_cons.mp hdone).2, fun _ u hm =>
      (List.pairwise_cons.mp hdone).1 u hm rfl, hc.told,
    hc.finish, hc.inOrder, hc.closed⟩ rfl [] ?_ (List.append_nil _).symm
  intro a
  rw [hu]
  exact (List.append_nil _).symm

theorem Inv.no_again (h : Inv eager N) {us : List (Up ι P Q)} (hi : i ∈ N.members)
    (hu : (N.party i).up = .done :: us) : (N.party i).flagged = false := by
  have hs := h.begun (.inr (by rw [hu]; nofun))
  have hnotice := (h.course hs i hi).notice
  rw [hu, List.countP_cons_of_pos rfl] at hnotice
  cases e : (N.party i).flagged with
  | false => rfl
  | true =>
    rw [e, if_pos rfl] at hnotice
    split at hnotice <;> omega

/-- A notice on its way: the first round is over. -/
theorem Inv.of_done (h : Inv eager N) {us : List (Up ι P Q)} (hi : i ∈ N.members)
    (hu : (N.party i).up = .done :: us) : N.late = true := by
  have hs := h.begun (.inr (by rw [hu]; nofun))
  have hc := h.course hs i hi
  have hnotice := hc.notice
  rw [hu, List.countP_cons_of_pos rfl] at hnotice
  have hthrough : (N.party i).through eager N.size := by
    by_contra hno
    rw [if_neg hno] at hnotice
    omega
  by_cases he : eager = true
  · exact (h.of_mixed hs hi ((Party.through_eager he).mp hthrough)).1
  · have hserved := (Party.through_slow he).mp hthrough
    have hsize := (h.full hs).2
    unfold Party.served at hserved
    have hne : (N.party i).inbox ≠ [] := by
      unfold Party.inbox
      intro e
      rw [(List.append_eq_nil_iff.mp e).1, List.length_nil] at hserved
      omega
    obtain ⟨p, hp⟩ := List.exists_mem_of_ne_nil _ hne
    exact h.of_second hs hi hp

/-- The hub tells everybody that all are done. -/
theorem Inv.finished (h : Inv eager N) (hs : N.stage = .second)
    (hall : ∀ j ∈ N.members, (N.party j).flagged = true) : Inv eager N.finished := by
  have hne : N.stage ≠ .joining := by rw [hs]; decide
  have hparty (j : ι) (hj : j ∈ N.members) : N.finished.party j =
      { N.party j with down := (N.party j).down ++ [.finish], told := (N.party j).told + 1 } :=
    if_pos hj
  have hup (j : ι) : (N.finished.party j).up = (N.party j).up := by
    by_cases hj : j ∈ N.members
    · rw [hparty j hj]
    · rw [show N.finished.party j = N.party j from if_neg hj]
  have hcalls (j : ι) : (N.finished.party j).calls = (N.party j).calls := by
    by_cases hj : j ∈ N.members
    · rw [hparty j hj]
    · rw [show N.finished.party j = N.party j from if_neg hj]
  have hfiled (j : ι) : (N.finished.party j).filed = (N.party j).filed := by
    by_cases hj : j ∈ N.members
    · rw [hparty j hj]
    · rw [show N.finished.party j = N.party j from if_neg hj]
  have hrel (j : ι) : N.finished.relays j = N.relays j :=
    List.filterMap_congr fun k _ => by rw [hfiled]
  have hlate : N.late = true := by
    unfold Net.late
    rw [hs]
    rfl
  refine ⟨h.distinct, fun j hj => ?_, fun e => (by cases e), fun _ => h.full hne, fun _ j hj => ?_,
    fun _ j hj => ?_, fun _ j hj => ?_, fun a ha b hb => ?_⟩
  · exact (if_neg hj).trans (h.outside j hj)
  · rw [hfiled]
    exact h.stored hlate j hj
  · rw [hparty j hj]
    exact hall j hj
  · have hc := h.course hne j hj
    have htold := hc.told
    rw [if_neg (by rw [hs]; decide)] at htold
    have hfin : ((N.party j).down ++ [Down.finish]).countP Down.isFinish =
        (N.party j).down.countP Down.isFinish + 1 := by
      rw [List.countP_append]
      rfl
    rw [hparty j hj]
    refine ⟨?_, ?_, ?_, ?_, hc.targets, fun hm => ?_, hc.idle, hc.notice, hc.doneLast, hc.quiet, ?_,
      ?_, fun hne' => ?_, fun hlt => ?_⟩
    · dsimp only
      rw [List.countP_append]
      exact hc.opening
    · refine pairwise_snoc hc.sorted fun d _ => ?_
      show d.rank ≤ 3
      cases d <;> simp [Down.rank]
    · dsimp only
      rw [List.filterMap_append, show ([Down.finish] : List (Down ι P Q)).filterMap
        Down.asFirst = []
        from rfl, List.append_nil, hrel]
      exact hc.firsts.trans ((if_pos hlate).trans (if_pos rfl).symm)
    · dsimp only
      rw [List.filterMap_append, show ([Down.finish] : List (Down ι P Q)).filterMap
        Down.asSecond = []
        from rfl, List.append_nil]
      exact hc.senders
    · obtain ⟨made, hperm, he⟩ := hc.calls hm
      refine ⟨made, hperm, he.trans (congrArg (List.cons _) ?_)⟩
      unfold Party.lasts
      dsimp only
      rw [hfin, Nat.add_sub_add_right]
      rfl
    · dsimp only
      rw [htold]
      rfl
    · have := hc.finish
      dsimp only
      omega
    · dsimp only
      rw [List.filterMap_append, hc.inOrder hne']
      rfl
    · dsimp only at hlt
      omega
  · have hin : (N.finished.party a).inbox = (N.party a).inbox := by
      rw [hparty a ha]
      unfold Party.inbox
      dsimp only
      rw [List.filterMap_append]
      exact congrArg (_ ++ ·) (List.append_nil _)
    unfold Party.made
    rw [hin, hup, hcalls]
    exact h.pair a ha b hb

/-- Nothing of the second round is under way in the first. -/
theorem Inv.early (h : Inv eager N) (hs : N.stage = .first) (hi : i ∈ N.members) :
    (N.party i).inbox = [] ∧ ∀ d ∈ (N.party i).down, d.rank = 0 := by
  have hne : N.stage ≠ .joining := by rw [hs]; decide
  have hearly : ¬ N.late = true := by
    unfold Net.late
    rw [hs]
    decide
  have hc := h.course hne i hi
  have hinbox : (N.party i).inbox = [] := by
    by_contra hno
    obtain ⟨p, hp⟩ := List.exists_mem_of_ne_nil _ hno
    exact hearly (h.of_second hne hi hp)
  refine ⟨hinbox, fun d hd => ?_⟩
  have hfirsts := hc.firsts
  rw [if_neg hearly] at hfirsts
  have hfinish := hc.finish
  rw [hc.told, if_neg (by rw [hs]; decide)] at hfinish
  cases d with
  | start => rfl
  | first s p =>
    have := List.filterMap_eq_nil_iff.mp (List.append_eq_nil_iff.mp hfirsts).2 _ hd
    cases this
  | second s q =>
    have := List.filterMap_eq_nil_iff.mp (List.append_eq_nil_iff.mp hinbox).2 _ hd
    cases this
  | finish =>
    have : 0 < (N.party i).down.countP Down.isFinish := List.countP_pos_iff.mpr ⟨_, hd, rfl⟩
    omega

/-- The hub relays all first packages. -/
theorem Inv.relayed (h : Inv eager N) (hs : N.stage = .first)
    (hall : ∀ j ∈ N.members, (N.party j).filed.isSome = true) : Inv eager N.relayed := by
  have hne : N.stage ≠ .joining := by rw [hs]; decide
  have hearly : ¬ N.late = true := by
    unfold Net.late
    rw [hs]
    decide
  let sent (j : ι) : List (Down ι P Q) := (N.relays j).map fun p => .first p.1 p.2
  have hparty (j : ι) (hj : j ∈ N.members) : N.relayed.party j =
      { N.party j with down := (N.party j).down ++ sent j } := if_pos hj
  have hout (j : ι) (hj : j ∉ N.members) : N.relayed.party j = N.party j := if_neg hj
  have hup (j : ι) : (N.relayed.party j).up = (N.party j).up := by
    by_cases hj : j ∈ N.members
    · rw [hparty j hj]
    · rw [hout j hj]
  have hcalls (j : ι) : (N.relayed.party j).calls = (N.party j).calls := by
    by_cases hj : j ∈ N.members
    · rw [hparty j hj]
    · rw [hout j hj]
  have hfiled (j : ι) : (N.relayed.party j).filed = (N.party j).filed := by
    by_cases hj : j ∈ N.members
    · rw [hparty j hj]
    · rw [hout j hj]
  have hrel (j : ι) : N.relayed.relays j = N.relays j :=
    List.filterMap_congr fun k _ => by rw [hfiled]
  have hfirst (j : ι) : (sent j).filterMap Down.asFirst = N.relays j := by
    show ((N.relays j).map _).filterMap Down.asFirst = _
    rw [List.filterMap_map]
    exact List.filterMap_some
  have hsecond (j : ι) : (sent j).filterMap Down.asSecond = [] := by
    refine List.filterMap_eq_nil_iff.mpr fun d hd => ?_
    obtain ⟨p, -, rfl⟩ := List.mem_map.mp hd
    rfl
  have hcount (j : ι) {f : Down ι P Q → Bool} (hf : ∀ s p, f (.first s p) = false) :
      (sent j).countP f = 0 := by
    refine List.countP_eq_zero.mpr fun d hd => ?_
    obtain ⟨p, -, rfl⟩ := List.mem_map.mp hd
    rw [hf]
    exact Bool.false_ne_true
  refine ⟨h.distinct, fun j hj => ?_, fun e => (by cases e), fun _ => h.full hne, fun _ j hj => ?_,
    fun e => (by cases e), fun _ j hj => ?_, fun a ha b hb => ?_⟩
  · exact (hout j hj).trans (h.outside j hj)
  · rw [hfiled]
    exact hall j hj
  · have hc := h.course hne j hj
    obtain ⟨hinbox, hrank⟩ := h.early hs hj
    have hfirsts := hc.firsts
    rw [if_neg hearly] at hfirsts
    have hseconds : (N.party j).seconds = [] := (List.append_eq_nil_iff.mp hinbox).1
    rw [hparty j hj]
    refine ⟨?_, ?_, ?_, ?_, hc.targets, fun hm => ?_, hc.idle, hc.notice, hc.doneLast, hc.quiet, ?_,
      ?_, fun hne' => absurd hseconds hne', fun hlt => ?_⟩
    · dsimp only
      rw [List.countP_append, hcount j fun _ _ => rfl]
      exact hc.opening
    · refine List.pairwise_append.mpr ⟨hc.sorted, ?_, fun d hd e _ => ?_⟩
      · exact List.pairwise_map.mpr (List.pairwise_of_forall_mem_list fun _ _ _ _ => Nat.le_refl 1)
      · rw [hrank d hd]
        exact Nat.zero_le _
    · dsimp only
      rw [List.filterMap_append, hfirst, ← List.append_assoc, hfirsts, hrel]
      exact (if_pos rfl).symm
    · dsimp only
      rw [List.filterMap_append, hsecond, List.append_nil]
      exact hc.senders
    · obtain ⟨made, hperm, he⟩ := hc.calls hm
      refine ⟨made, hperm, he.trans (congrArg (List.cons _) ?_)⟩
      unfold Party.lasts
      dsimp only
      rw [List.countP_append, hcount j fun _ _ => rfl]
      rfl
    · exact (hc.told.trans (if_neg (by rw [hs]; decide))).trans (if_neg nofun).symm
    · dsimp only
      rw [List.countP_append, hcount j fun _ _ => rfl]
      exact hc.finish
    · dsimp only
      rw [List.filterMap_append, hsecond, List.append_nil]
      exact (List.append_eq_nil_iff.mp hinbox).2
  · have hin : (N.relayed.party a).inbox = (N.party a).inbox := by
      rw [hparty a ha]
      unfold Party.inbox
      dsimp only
      rw [List.filterMap_append, hsecond, List.append_nil]
    unfold Party.made
    rw [hin, hup, hcalls]
    exact h.pair a ha b hb

/-- A second package at the hub: it is for another member, and its maker is not done. -/
theorem Inv.at_route (h : Inv eager N) {dst src : ι} {q : Q} {us : List (Up ι P Q)}
    (hi : i ∈ N.members) (hu : (N.party i).up = .second dst src q :: us)
    (hdst : dst ∈ N.members) : src = i ∧ dst ≠ src ∧ N.stage ≠ .ended := by
  have hs := h.begun (.inr (by rw [hu]; nofun))
  have hc := h.course hs i hi
  have htargets := hc.targets
  have hquiet := hc.quiet
  rw [hu] at htargets hquiet
  obtain ⟨rfl, -⟩ := htargets dst src q (List.mem_cons_self ..)
  have hpair := h.pair dst hdst src hi
  rw [hu, toward_self] at hpair
  have hlen := congrArg List.length hpair
  rw [List.length_append, List.length_cons, h.made_count hs hdst hi] at hlen
  refine ⟨rfl, fun e => ?_, fun ho => ?_⟩
  · rw [if_neg fun hc => hc.2 e] at hlen
    omega
  · cases hquiet (h.all ho src hi) _ (List.mem_cons_self ..)

/-- A party is sent a second package. -/
theorem Course.sent {x : Party ι P Q} (h : Course eager N i x) (hover : N.stage ≠ .ended) {src : ι}
    (hsrc : src ∈ N.members) (hne : src ≠ i) (q : Q) :
    Course eager N i { x with down := x.down ++ [.second src q] } := by
  have htold := h.told
  rw [if_neg hover] at htold
  have hnofin : x.down.countP Down.isFinish = 0 := by
    have := h.finish
    omega
  have hcount (f : Down ι P Q → Bool) (hf : f (.second src q) = false) :
      (x.down ++ [Down.second src q]).countP f = x.down.countP f := by
    rw [List.countP_append, List.countP_singleton, hf]
    rfl
  have hfirst : (x.down ++ [Down.second src q]).filterMap Down.asFirst =
      x.down.filterMap Down.asFirst := by
    rw [List.filterMap_append]
    exact List.append_nil _
  refine ⟨?_, ?_, ?_, ?_, h.targets, fun hm => ?_, h.idle, h.notice, h.doneLast, h.quiet,
    h.told, ?_, fun hne => ?_, fun hlt => ?_⟩
  · dsimp only
    rw [hcount _ rfl]
    exact h.opening
  · refine pairwise_snoc h.sorted fun d hd => ?_
    show d.rank ≤ 2
    cases d with
    | finish =>
      have : 0 < x.down.countP Down.isFinish := List.countP_pos_iff.mpr ⟨_, hd, rfl⟩
      omega
    | _ => simp [Down.rank]
  · dsimp only
    rw [hfirst]
    exact h.firsts
  · intro p hp
    rcases List.mem_append.mp hp with hp | hp
    · exact h.senders p (List.mem_append_left _ hp)
    · have hp : p ∈ (x.down ++ [Down.second src q]).filterMap Down.asSecond := hp
      rw [List.filterMap_append] at hp
      rcases List.mem_append.mp hp with hp | hp
      · exact h.senders p (List.mem_append_right _ hp)
      · rw [List.mem_singleton.mp hp]
        exact ⟨hsrc, hne⟩
  · obtain ⟨made, hperm, he⟩ := h.calls hm
    refine ⟨made, hperm, he.trans (congrArg (List.cons _) ?_)⟩
    unfold Party.lasts
    dsimp only
    rw [hcount _ rfl]
    rfl
  · dsimp only
    rw [hcount _ rfl]
    exact h.finish
  · dsimp only
    rw [hfirst]
    exact h.inOrder hne
  · have hlt : (x.down ++ [Down.second src q]).countP Down.isFinish < x.told := hlt
    rw [htold] at hlt
    omega

/-- A second package has left its maker's queue. -/
theorem Course.routed {x : Party ι P Q} (h : Course eager N i x) {dst src : ι} {q : Q}
    {us : List (Up ι P Q)} (hu : x.up = .second dst src q :: us) : Course eager N i { x with up := us } := by
  have htargets := h.targets
  have hquiet := h.quiet
  have hopening := h.opening
  have hnotice := h.notice
  have hdone := h.doneLast
  rw [hu] at htargets hquiet hopening hnotice hdone
  exact ⟨hopening, h.sorted, h.firsts, h.senders,
    fun d s q hq => htargets d s q (List.mem_cons_of_mem _ hq), h.calls, h.idle, hnotice,
    (List.pairwise_cons.mp hdone).2, fun hf u hm => hquiet hf u (List.mem_cons_of_mem _ hm),
    h.told, h.finish, h.inOrder, h.closed⟩

/-- The hub forwards a second package. -/
theorem Inv.routed (h : Inv eager N) {dst src : ι} {q : Q} {us : List (Up ι P Q)}
    (hi : i ∈ N.members)
    (hu : (N.party i).up = .second dst src q :: us) (hdst : dst ∈ N.members) :
    Inv eager (((N.set i { N.party i with up := us }).set dst
      { (N.set i { N.party i with up := us }).party dst with
        down := ((N.set i { N.party i with up := us }).party dst).down ++ [.second src q] })) := by
  have hs := h.begun (.inr (by rw [hu]; nofun))
  obtain ⟨rfl, hne, hover⟩ := h.at_route hi hu hdst
  rw [set_of_ne hne]
  let x : Party ι P Q := { N.party src with up := us }
  let y : Party ι P Q := { N.party dst with down := (N.party dst).down ++ [.second src q] }
  let N' := (N.set src x).set dst y
  have hcx : Course eager N src x := (h.course hs src hi).routed hu
  have hcy : Course eager N dst y := (h.course hs dst hdst).sent hover hi hne.symm q
  have hx : N'.party src = x := (set_of_ne hne.symm _ _).trans (set_self ..)
  have hy : N'.party dst = y := set_self ..
  have hz {j : ι} (h1 : j ≠ src) (h2 : j ≠ dst) : N'.party j = N.party j :=
    (set_of_ne h2 _ _).trans (set_of_ne h1 _ _)
  -- nothing changes of a party but the queues of these two
  have hkept (j : ι) : (N'.party j).filed = (N.party j).filed ∧
      (N'.party j).made = (N.party j).made := by
    by_cases e1 : j = src
    · rw [e1, hx]
      exact ⟨rfl, rfl⟩
    by_cases e2 : j = dst
    · rw [e2, hy]
      exact ⟨rfl, rfl⟩
    rw [hz e1 e2]
    exact ⟨rfl, rfl⟩
  have hrel (j : ι) : N'.relays j = N.relays j :=
    List.filterMap_congr fun k _ => by rw [(hkept k).1]
  refine ⟨h.distinct, fun j hj => ?_, fun hs' => absurd hs' hs, h.full, fun hl j hj => ?_,
    fun ho => absurd ho hover, fun _ j hj => ?_, fun a ha b hb => ?_⟩
  · have h1 : j ≠ src := fun e => hj (e ▸ hi)
    have h2 : j ≠ dst := fun e => hj (e ▸ hdst)
    exact (hz h1 h2).trans (h.outside j hj)
  · show (N'.party j).filed.isSome = true
    rw [(hkept j).1]
    exact h.stored hl j hj
  · by_cases h1 : j = src
    · subst h1
      exact hx ▸ hcx.congr rfl rfl rfl fun _ => hrel _
    by_cases h2 : j = dst
    · subst h2
      exact hy ▸ hcy.congr rfl rfl rfl fun _ => hrel _
    · exact (hz h1 h2) ▸ (h.course hs j hj).congr rfl rfl rfl fun _ => hrel _
  -- the package has moved from one queue of the pair to the other
  · show pick b (N'.party a).inbox ++ (N'.party b).up.filterMap (Up.toward a) =
      pick a (N'.party b).made
    have hin : (N'.party a).inbox =
        if a = dst then (N.party dst).inbox ++ [(src, q)] else (N.party a).inbox := by
      by_cases h2 : a = dst
      · rw [if_pos h2, h2, hy]
        show (N.party dst).seconds ++ ((N.party dst).down ++ [_]).filterMap _ = _
        rw [List.filterMap_append, ← List.append_assoc]
        rfl
      · rw [if_neg h2]
        by_cases h1 : a = src
        · rw [h1, hx]
          rfl
        · rw [hz h1 h2]
    have hup : (N.party b).up.filterMap (Up.toward a) =
        (if a = dst ∧ b = src then [q] else []) ++ (N'.party b).up.filterMap (Up.toward a) := by
      by_cases h1 : b = src
      · rw [h1, hx, hu]
        by_cases h2 : a = dst
        · rw [if_pos ⟨h2, rfl⟩, h2, toward_self]
          rfl
        · rw [if_neg fun hc => h2 hc.1, toward_of_ne (Ne.symm h2)]
          rfl
      · rw [if_neg fun hc => h1 hc.2]
        by_cases h2 : b = dst
        · rw [h2, hy]
          rfl
        · rw [hz h1 h2]
          rfl
    rw [(hkept b).2, ← h.pair a ha b hb, hin, hup, ← List.append_assoc]
    congr 1
    by_cases h2 : a = dst
    · rw [if_pos h2, pick_append, h2]
      congr 1
      by_cases h1 : b = src
      · rw [if_pos ⟨rfl, h1⟩, h1]
        exact pick_self src q
      · rw [if_neg fun hc => h1 hc.2]
        exact pick_of_ne (Ne.symm h1) q
    · rw [if_neg h2, if_neg fun hc => h2 hc.1, List.append_nil]

theorem Inv.joined (h : Inv eager N) (hs : N.stage = .joining) (hi : i ∉ N.members)
    (hn : 2 ≤ N.size)
    (hl : N.members.length < N.size) : Inv eager (N.joined i) := by
  have hblank := (h.idle hs).1
  have hnd : (i :: N.members).Nodup := List.nodup_cons.mpr ⟨hi, h.distinct⟩
  have hearly : ¬ N.late = true := by
    unfold Net.late
    rw [hs]
    decide
  unfold Net.joined
  by_cases hlt : N.members.length + 1 < N.size
  · rw [if_pos hlt]
    refine ⟨hnd, fun j _ => hblank j, fun _ => ⟨hblank, .inr hlt⟩, fun hno => absurd hs hno,
      fun hl => absurd hl hearly, fun (ho : N.stage = .ended) => ?_, fun hno => absurd hs hno,
      fun a _ b _ => ?_⟩
    · rw [hs] at ho
      cases ho
    · show pick b (N.party a).inbox ++ (N.party b).up.filterMap (Up.toward a) =
        pick a (N.party b).made
      rw [hblank, hblank]
      rfl
  · rw [if_neg hlt]
    have hparty (j : ι) : (if j ∈ i :: N.members then
        { N.party j with down := (N.party j).down ++ [.start] } else N.party j) =
        if j ∈ i :: N.members then { Party.blank with down := [.start] } else Party.blank := by
      rw [hblank]
      rfl
    refine ⟨hnd, fun j hj => ?_, fun e => (by cases e), fun _ => ⟨?_, hn⟩, fun e => (by cases e),
      fun e => (by cases e), fun _ j hj => ?_, fun a ha b hb => ?_⟩
    · exact (if_neg hj).trans (hblank j)
    · show (i :: N.members).length = N.size
      rw [List.length_cons]
      omega
    · dsimp only
      rw [hparty, if_pos hj]
      refine ⟨rfl, List.pairwise_singleton _ _, rfl, nofun, nofun, fun hm => ?_, fun _ => rfl, ?_, .nil,
        nofun, rfl, Nat.le_refl 0, fun _ => rfl, fun _ => rfl⟩
      · have hm : N.size ≤ 0 + 1 := hm
        omega
      · refine (if_neg fun hv => ?_).symm
        by_cases he : eager = true
        · have hv : N.size ≤ 0 + 1 := (Party.through_eager he).mp hv
          omega
        · have hv : N.size ≤ 0 + 1 := (Party.through_slow he).mp hv
          omega
    · dsimp only
      rw [hparty, hparty, if_pos ha, if_pos hb]
      rfl

/-! ## Runs -/

/-- **Every move keeps the invariant.** -/
theorem Inv.move (h : Inv eager N) (hm : Move eager N N') : Inv eager N' := by
  have hall {i : ι} {q : Party ι P Q → Bool} {x : Party ι P Q} (hx : q x = true)
      (hn : N.others i fun x => q x) : ∀ j ∈ N.members, q ((N.set i x).party j) = true := by
    intro j hj
    by_cases e : j = i
    · rw [e, set_self, hx]
    · rw [set_of_ne e]
      exact hn.2 j hj e
  cases hm with
  | none => exact h
  | size n hnil hs =>
    have hblank := (h.idle hs).1
    refine ⟨h.distinct, h.outside, fun _ => ⟨hblank, .inl hnil⟩, fun hno => absurd hs hno, h.stored,
      h.all, fun hno => absurd hs hno, h.pair⟩
  | join i hs hi hn hl => exact h.joined hs hi hn hl
  | start i p ds hi hd => exact h.start hi hd
  | first i p ds out hi hd hout => exact h.first hi hd hout
  | second i p ds hi hd => exact h.second hi hd
  | finish i ds hi hd => exact h.finish hi hd
  | file i p us hi hu hs _ => exact h.filed hi hu
  | relay i p us hi hu hs hn =>
    exact (h.filed hi hu).relayed hs (hall (q := fun x => x.filed.isSome) rfl hn)
  | stray i p us hi hu hs => exact absurd (h.no_stray hi hu) hs
  | route i dst src q us hi hu hdst => exact h.routed hi hu hdst
  | lost i dst src q us hi hu hdst =>
    have hs := h.begun (.inr (by rw [hu]; nofun))
    refine absurd ((h.course hs i hi).targets dst src q ?_).2 hdst
    rw [hu]
    exact List.mem_cons_self ..
  | again i us hi hu hf =>
    rw [h.no_again hi hu] at hf
    cases hf
  | flag i us hi hu hf _ => exact h.flagged hi hu hf
  | flagLast i us hi hu hf hn =>
    refine (h.flagged hi hu hf).finished ?_ (hall (q := Party.flagged) rfl hn)
    have hlate := h.of_done hi hu
    unfold Net.late at hlate
    rcases of_decide_eq_true hlate with hs | hs
    · exact hs
    · rw [h.all hs i hi] at hf
      cases hf

/-- In the first round somebody's package is not stored yet. -/
theorem Move.missing (hm : Move eager N N') (h : Inv eager N)
    (hmiss : N.stage = .first → ∃ j ∈ N.members, (N.party j).filed = Option.none) :
    N'.stage = .first → ∃ j ∈ N'.members, (N'.party j).filed = Option.none := by
  have hset {i : ι} {x : Party ι P Q} (hx : x.filed = (N.party i).filed) :
      (N.set i x).stage = .first → ∃ j ∈ (N.set i x).members, ((N.set i x).party j).filed =
        Option.none := by
    intro hs
    obtain ⟨j, hj, hn⟩ := hmiss hs
    refine ⟨j, hj, ?_⟩
    by_cases e : j = i
    · rw [e, set_self, hx, ← e, hn]
    · rw [set_of_ne e, hn]
  cases hm with
  | none => exact hmiss
  | size n hnil hs => exact hmiss
  | join i hs hi hn hl =>
    intro _
    have hblank := (h.idle hs).1
    have hfiled (j : ι) : ((N.joined i).party j).filed = Option.none := by
      unfold Net.joined
      split
      · rw [hblank]
        rfl
      · dsimp only
        split <;> rw [hblank] <;> rfl
    refine ⟨i, ?_, hfiled i⟩
    unfold Net.joined
    split <;> exact List.mem_cons_self ..
  | start i p ds hi hd => exact hset rfl
  | first i p ds out hi hd hout =>
    refine hset ?_
    unfold Party.hearFirst
    split <;> rfl
  | second i p ds hi hd =>
    refine hset ?_
    unfold Party.hearSecond
    split <;> rfl
  | finish i ds hi hd =>
    refine hset ?_
    unfold Party.hearFinish
    split <;> rfl
  | file i p us hi hu hs hn =>
    intro _
    have hs' : N.stage ≠ .joining := by rw [hs]; decide
    have hn : ∃ j ∈ N.members, j ≠ i ∧ ¬ (N.party j).filed.isSome = true := by
      by_contra hno
      refine hn ⟨Nat.le_of_eq (h.full hs').1.symm, fun j hj hne => ?_⟩
      by_contra hf
      exact hno ⟨j, hj, hne, hf⟩
    obtain ⟨j, hj, hne, hf⟩ := hn
    refine ⟨j, hj, ?_⟩
    rw [set_of_ne hne]
    simpa using hf
  | relay i p us hi hu hs hn => exact nofun
  | stray i p us hi hu hs => exact hset rfl
  | route i dst src q us hi hu hdst =>
    intro (hs : N.stage = .first)
    obtain ⟨j, hj, hn⟩ := hmiss hs
    refine ⟨j, hj, ?_⟩
    by_cases e : j = dst
    · rw [e, set_self]
      by_cases e' : dst = i
      · rw [e', set_self, ← e', ← e, hn]
      · rw [set_of_ne e', ← e, hn]
    · rw [set_of_ne e]
      by_cases e' : j = i
      · rw [e', set_self, ← e', hn]
      · rw [set_of_ne e', hn]
  | lost i dst src q us hi hu hdst => exact hset rfl
  | again i us hi hu hf => exact hset rfl
  | flag i us hi hu hf hn => exact hset rfl
  | flagLast i us hi hu hf hn => exact nofun

/-- The first package a party has made is stored or on its way. -/
def Party.Owns (x : Party ι P Q) : Prop := x.own = x.filed.toList ++ x.up.filterMap Up.asFirst

omit [DecidableEq ι] in
/-- Only the first move of a party, and the hub storing its package, matter. -/
theorem Party.Owns.congr {x y : Party ι P Q} (h : x.Owns) (ho : y.own = x.own)
    (hf : y.filed = x.filed) (hu : y.up.filterMap Up.asFirst = x.up.filterMap Up.asFirst) :
    y.Owns := by
  unfold Party.Owns
  rw [ho, hf, hu]
  exact h

theorem Move.owns (hm : Move eager N N') (h : Inv eager N) (ho : ∀ i, (N.party i).Owns) :
    ∀ i, (N'.party i).Owns := by
  have hset {i : ι} {x : Party ι P Q} (hx : x.Owns) : ∀ j, ((N.set i x).party j).Owns := by
    intro j
    by_cases e : j = i
    · rw [e, set_self]
      exact hx
    · rw [set_of_ne e]
      exact ho j
  -- a package that is stored was the only one
  have hfile {i : ι} {p : P} {us : List (Up ι P Q)} (hi : i ∈ N.members)
      (hu : (N.party i).up = .first p :: us) (hs : N.stage = .first) :
      Party.Owns { N.party i with up := us, filed := some p } := by
    have hs' : N.stage ≠ .joining := by rw [hs]; decide
    have h1 := ho i
    unfold Party.Owns at h1 ⊢
    rw [h.unfiled hs' hi hu, hu] at h1
    exact h1
  have htail {i : ι} {u : Up ι P Q} {us : List (Up ι P Q)} (hu : (N.party i).up = u :: us)
      (hne : u.asFirst = Option.none) : us.filterMap Up.asFirst =
        (N.party i).up.filterMap Up.asFirst := by
    rw [hu, List.filterMap_cons_none hne]
  have hpush {M : Net ι P Q} (hM : ∀ i, (M.party i).Owns) (p : ι → Prop) [DecidablePred p]
      (g : Party ι P Q → Party ι P Q)
      (hg : ∀ x, (g x).own = x.own ∧ (g x).filed = x.filed ∧ (g x).up = x.up) (j : ι) :
      (if p j then g (M.party j) else M.party j).Owns := by
    split
    · obtain ⟨h1, h2, h3⟩ := hg (M.party j)
      exact (hM j).congr h1 h2 (by rw [h3])
    · exact hM j
  cases hm with
  | none => exact ho
  | size n hnil hs => exact ho
  | join i hs hi hn hl =>
    unfold Net.joined
    split
    · exact ho
    · exact hpush ho (· ∈ i :: N.members) (fun x => { x with down := x.down ++ [.start] })
        fun _ => ⟨rfl, rfl, rfl⟩
  | start i p ds hi hd =>
    refine hset ?_
    have h1 := ho i
    unfold Party.Owns at h1 ⊢
    dsimp only
    rw [h1, List.filterMap_append, List.append_assoc]
    rfl
  | first i p ds out hi hd hout =>
    refine hset ?_
    unfold Party.hearFirst
    split
    · exact (ho i).congr rfl rfl rfl
    · refine (ho i).congr rfl rfl ?_
      dsimp only
      rw [List.filterMap_append, List.filterMap_append]
      have h1 : (out.map fun y => (.second y.1 i y.2 : Up ι P Q)).filterMap Up.asFirst = [] := by
        rw [List.filterMap_map]
        exact List.filterMap_eq_nil_iff.mpr fun _ _ => rfl
      have h2 : (if eager = true then [.done] else [] : List (Up ι P Q)).filterMap Up.asFirst =
          [] := by
        split <;> rfl
      rw [h1, h2, List.append_nil, List.append_nil]
  | second i p ds hi hd =>
    refine hset ?_
    unfold Party.hearSecond
    split
    · exact (ho i).congr rfl rfl rfl
    · refine (ho i).congr rfl rfl ?_
      dsimp only
      rw [List.filterMap_append]
      exact List.append_nil _
  | finish i ds hi hd =>
    refine hset ?_
    unfold Party.hearFinish
    split <;> exact (ho i).congr rfl rfl rfl
  | file i p us hi hu hs hn => exact hset (hfile hi hu hs)
  | relay i p us hi hu hs hn =>
    intro j
    exact hpush (hset (hfile hi hu hs)) (· ∈ N.members)
      (fun x => { x with down := x.down ++ _ }) (fun _ => ⟨rfl, rfl, rfl⟩) j
  | stray i p us hi hu hs => exact absurd (h.no_stray hi hu) hs
  | route i dst src q us hi hu hdst =>
    have h1 : ∀ j, ((N.set i { N.party i with up := us }).party j).Owns :=
      hset ((ho i).congr rfl rfl (htail hu rfl))
    intro j
    by_cases e : j = dst
    · rw [e, set_self]
      exact (h1 dst).congr rfl rfl rfl
    · rw [set_of_ne e]
      exact h1 j
  | lost i dst src q us hi hu hdst => exact hset ((ho i).congr rfl rfl (htail hu rfl))
  | again i us hi hu hf => exact hset ((ho i).congr rfl rfl (htail hu rfl))
  | flag i us hi hu hf hn => exact hset ((ho i).congr rfl rfl (htail hu rfl))
  | flagLast i us hi hu hf hn =>
    have h1 : ∀ j, ((N.set i { N.party i with up := us, flagged := true }).party j).Owns :=
      hset ((ho i).congr rfl rfl (htail hu rfl))
    exact hpush h1 (· ∈ N.members)
      (fun x => { x with down := x.down ++ [.finish], told := x.told + 1 }) fun _ => ⟨rfl, rfl, rfl⟩

/-- What holds along every run. -/
structure Sound (eager : Bool) (N : Net ι P Q) : Prop where
  inv : Inv eager N
  missing : N.stage = .first → ∃ j ∈ N.members, (N.party j).filed = none
  owns : ∀ i, (N.party i).Owns

theorem Sound.move (h : Sound eager N) (hm : Move eager N N') : Sound eager N' :=
  ⟨h.inv.move hm, hm.missing h.inv h.missing, hm.owns h.inv h.owns⟩

/-! ## Results -/

/-- A party computes nothing, or its second packages first. -/
theorem Inv.calls_cases (h : Inv eager N) (i : ι) : (N.party i).calls = [] ∨
    N.stage ≠ .joining ∧ i ∈ N.members ∧ (N.party i).mixed N.size ∧
      ∃ made, (made.map Prod.fst).Perm (N.members.filter (· ≠ i)) ∧
        (N.party i).calls = .mix (N.relays i) made :: (N.party i).lasts eager N.size := by
  by_cases hs : N.stage = .joining
  · rw [(h.idle hs).1]
    exact .inl rfl
  by_cases hi : i ∈ N.members
  · have hc := h.course hs i hi
    by_cases hm : (N.party i).mixed N.size
    · obtain ⟨made, hperm, hcalls⟩ := hc.calls hm
      obtain ⟨-, -, hfirsts, hnames⟩ := h.of_mixed hs hi hm
      rw [hnames] at hperm
      rw [hfirsts] at hcalls
      exact .inr ⟨hs, hi, hm, made, hperm, hcalls⟩
    · exact .inl (hc.idle hm)
  · rw [h.outside i hi]
    exact .inl rfl

omit [DecidableEq ι] in
theorem Party.mem_lasts {size : Nat} {x : Party ι P Q} {c : Call ι P Q}
    (h : c ∈ x.lasts eager size) :
    c = .last x.firsts x.seconds ∧ if eager then
      x.down.countP Down.isFinish < x.told else x.served size := by
  unfold Party.lasts at h
  split at h
  · next he =>
    obtain ⟨hpos, hc⟩ := List.mem_replicate.mp h
    rw [if_pos he]
    exact ⟨hc, by omega⟩
  · next he =>
    rw [if_neg he]
    split at h
    · next hv => exact ⟨List.mem_singleton.mp h, hv⟩
    · cases h

omit [DecidableEq ι] in
theorem Party.lasts_length {size : Nat} {x : Party ι P Q} (h : x.told ≤ 1) :
    (x.lasts eager size).length ≤ 1 := by
  unfold Party.lasts
  split
  · rw [List.length_replicate]
    omega
  · split
    · exact Nat.le_refl 1
    · exact Nat.zero_le 1

theorem Inv.told_once (h : Inv eager N) (i : ι) : (N.party i).told ≤ 1 := by
  by_cases hs : N.stage = .joining
  · rw [(h.idle hs).1]
    exact Nat.zero_le 1
  by_cases hi : i ∈ N.members
  · rw [(h.course hs i hi).told]
    split <;> omega
  · rw [h.outside i hi]
    exact Nat.zero_le 1

/-- **Each second round and each result is computed at most once.** -/
theorem Inv.calls_once (h : Inv eager N) (i : ι) :
    (N.party i).calls.countP Call.isMix ≤ 1 ∧ (N.party i).calls.countP Call.isLast ≤ 1 := by
  rcases h.calls_cases i with hc | ⟨-, -, -, made, -, hc⟩
  · rw [hc]
    exact ⟨Nat.zero_le 1, Nat.zero_le 1⟩
  · have hlast : ((N.party i).lasts eager N.size).countP Call.isMix = 0 := by
      refine List.countP_eq_zero.mpr fun c hmem => ?_
      rw [(Party.mem_lasts hmem).1]
      exact Bool.false_ne_true
    have hlen : ((N.party i).lasts eager N.size).length ≤ 1 := Party.lasts_length (h.told_once i)
    have hle := List.countP_le_length (p := Call.isLast) (l := (N.party i).lasts eager N.size)
    rw [hc, List.countP_cons_of_pos rfl, List.countP_cons_of_neg (by exact Bool.false_ne_true),
      hlast]
    omega

/-- **The second round is computed from one first package of each other.** -/
theorem Inv.mix_call (h : Inv eager N) {firsts : List (ι × P)} {made : List (ι × Q)}
    (hc : .mix firsts made ∈ (N.party i).calls) : i ∈ N.members ∧ N.members.length = N.size ∧
      firsts.map Prod.fst = N.members.filter (· ≠ i) ∧
      ∀ p ∈ firsts, (N.party p.1).filed = some p.2 := by
  rcases h.calls_cases i with e | ⟨hs, hi, hm, made', -, e⟩
  · rw [e] at hc
    cases hc
  obtain ⟨hlate, -, hfirsts, hnames⟩ := h.of_mixed hs hi hm
  have hrel : firsts = N.relays i := by
    rw [e] at hc
    rcases List.mem_cons.mp hc with hc | hc
    · cases hc
      rfl
    · cases (Party.mem_lasts hc).1
  refine ⟨hi, (h.full hs).1, by rw [hrel, ← hfirsts, hnames], fun p hp => ?_⟩
  rw [hrel] at hp
  obtain ⟨s, -, hp⟩ := List.mem_filterMap.mp hp
  obtain ⟨q, hq, rfl⟩ := Option.map_eq_some_iff.mp hp
  exact hq

/-- A second package is one its sender has made for the party. -/
theorem Inv.second_made (h : Inv eager N) (hs : N.stage ≠ .joining) (hi : i ∈ N.members) {p : ι × Q}
    (hp : p ∈ (N.party i).seconds) :
    ∃ firsts made, .mix firsts made ∈ (N.party p.1).calls ∧ (i, p.2) ∈ made := by
  obtain ⟨hmade, -⟩ := h.made_by hs hi (List.mem_append_left _ hp)
  rcases h.calls_cases p.1 with e | ⟨-, -, -, made, -, e⟩
  · unfold Party.made at hmade
    rw [e] at hmade
    cases hmade
  · refine ⟨_, made, by rw [e]; exact List.mem_cons_self .., ?_⟩
    unfold Party.made at hmade
    rw [e, List.flatMap_cons] at hmade
    rcases List.mem_append.mp hmade with hmade | hmade
    · exact hmade
    · obtain ⟨c, hc, hin⟩ := List.mem_flatMap.mp hmade
      rw [(Party.mem_lasts hc).1] at hin
      cases hin

/-- **The result is computed from the same first packages, and from one second package
of each other, made for this party.** -/
theorem Inv.last_call (h : Inv eager N) {firsts : List (ι × P)} {seconds : List (ι × Q)}
    (hc : .last firsts seconds ∈ (N.party i).calls) :
    (∃ made, .mix firsts made ∈ (N.party i).calls) ∧
      (seconds.map Prod.fst).Perm (N.members.filter (· ≠ i)) ∧
      ∀ p ∈ seconds, ∃ firsts' made, .mix firsts' made ∈ (N.party p.1).calls ∧ (i, p.2) ∈ made := by
  rcases h.calls_cases i with e | ⟨hs, hi, hm, made, -, e⟩
  · rw [e] at hc
    cases hc
  obtain ⟨-, -, hfirsts, -⟩ := h.of_mixed hs hi hm
  have hmem : .last firsts seconds ∈ (N.party i).lasts eager N.size := by
    rw [e] at hc
    rcases List.mem_cons.mp hc with hc | hc
    · cases hc
    · exact hc
  obtain ⟨heq, hwhen⟩ := Party.mem_lasts hmem
  cases heq
  have hperm : ((N.party i).seconds.map Prod.fst).Perm (N.members.filter (· ≠ i)) := by
    by_cases he : eager = true
    · rw [if_pos he] at hwhen
      have hc := h.course hs i hi
      have hover : N.stage = .ended := by
        by_contra hno
        rw [hc.told, if_neg hno] at hwhen
        omega
      have hall := (h.over_inbox hover hi).2
      unfold Party.inbox at hall
      rwa [hc.closed hwhen, List.append_nil] at hall
    · rw [if_neg he] at hwhen
      exact (h.of_served hs hi hwhen).1
  refine ⟨⟨made, ?_⟩, hperm, fun p hp => ?_⟩
  · rw [e, hfirsts]
    exact List.mem_cons_self ..
  · exact h.second_made hs hi hp

/-- **Whoever is told that all are done, all are**: everybody is there and has its
second round behind it, and if the notices wait for the result, that too. -/
theorem Inv.told_all (h : Inv eager N) (ht : 0 < (N.party i).told) :
    N.members.length = N.size ∧ ∀ j ∈ N.members, (N.party j).mixed N.size ∧
      (eager = false → ∃ firsts seconds, .last firsts seconds ∈ (N.party j).calls) := by
  have hs : N.stage ≠ .joining := by
    intro hs
    rw [(h.idle hs).1] at ht
    exact absurd ht (Nat.lt_irrefl 0)
  have hi : i ∈ N.members := by
    by_contra hi
    rw [h.outside i hi] at ht
    exact absurd ht (Nat.lt_irrefl 0)
  have hover : N.stage = .ended := by
    by_contra hno
    rw [(h.course hs i hi).told, if_neg hno] at ht
    exact absurd ht (Nat.lt_irrefl 0)
  refine ⟨(h.full hs).1, fun j hj => ?_⟩
  obtain ⟨hmixed, -⟩ := h.over_inbox hover hj
  refine ⟨hmixed, fun he => ⟨(N.party j).firsts, (N.party j).seconds, ?_⟩⟩
  have he : ¬ eager = true := by rw [he]; exact Bool.false_ne_true
  obtain ⟨made, -, hcalls⟩ := (h.course hs j hj).calls hmixed
  rw [hcalls]
  unfold Party.lasts
  rw [if_neg he, if_pos ((Party.through_slow he).mp (h.over_through hover hj))]
  exact List.mem_cons_of_mem _ (List.mem_cons_self ..)

/-- Everybody has joined, and nothing is on its way. -/
structure AtRest (N : Net ι P Q) : Prop where
  full : N.members.length = N.size
  two : 2 ≤ N.size
  up : ∀ i ∈ N.members, (N.party i).up = []
  down : ∀ i ∈ N.members, (N.party i).down = []

/-- What is stored for a party is the only first package it has made. -/
theorem Sound.own (h : Sound eager N) {p : P} (hf : (N.party i).filed = some p) :
    (N.party i).own = [p] := by
  have hs : N.stage ≠ .joining := by
    intro hs
    rw [(h.inv.idle hs).1] at hf
    cases hf
  have hi : i ∈ N.members := by
    by_contra hi
    rw [h.inv.outside i hi] at hf
    cases hf
  have hopening := (h.inv.course hs i hi).opening
  rw [hf, if_pos Option.isSome_some] at hopening
  have hzero : (N.party i).up.countP Up.isFirst = 0 := by omega
  have hnil : (N.party i).up.filterMap Up.asFirst = [] := by
    refine List.filterMap_eq_nil_iff.mpr fun u hu => ?_
    have := List.countP_eq_zero.mp hzero u hu
    cases u with
    | first p => exact absurd rfl this
    | _ => rfl
  have howns := h.owns i
  unfold Party.Owns at howns
  rw [howns, hf, hnil]
  rfl

/-- **At rest the second round is behind everybody.** -/
theorem Sound.rest (h : Sound eager N) (hr : AtRest N) (hi : i ∈ N.members) :
    (N.party i).calls.countP Call.isMix = 1 := by
  have hs : N.stage ≠ .joining := by
    intro hs
    have hfull := hr.full
    have htwo := hr.two
    rcases (h.inv.idle hs).2 with e | hlt
    · rw [e, List.length_nil] at hfull
      omega
    · omega
  have hlate : N.late = true := by
    cases e : N.stage with
    | joining => exact absurd e hs
    | first =>
      -- a package that is not stored would be on its way
      obtain ⟨j, hj, hnone⟩ := h.missing e
      have hopening := (h.inv.course hs j hj).opening
      rw [hr.up j hj, hr.down j hj, hnone] at hopening
      cases hopening
    | second => unfold Net.late; rw [e]; rfl
    | ended => unfold Net.late; rw [e]; rfl
  have hc := h.inv.course hs i hi
  have hmixed : (N.party i).mixed N.size := by
    have hfirsts := hc.firsts
    rw [hr.down i hi, if_pos hlate] at hfirsts
    have hfirsts : (N.party i).firsts = N.relays i := by
      rw [← hfirsts]
      exact (List.append_nil _).symm
    have h1 := congrArg List.length (relays_fst (h.inv.stored hlate) i)
    have h2 := filter_ne_length h.inv.distinct hi
    have h3 := hr.full
    rw [List.length_map] at h1
    unfold Party.mixed
    rw [hfirsts]
    omega
  obtain ⟨made, -, hcalls⟩ := hc.calls hmixed
  have hle := (h.inv.calls_once i).1
  rw [hcalls, List.countP_cons_of_pos rfl] at hle ⊢
  omega

end FrostSshCa.Lib.Rounds
