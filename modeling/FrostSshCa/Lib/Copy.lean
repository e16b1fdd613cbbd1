import Mathlib.Data.List.Basic

/-!
# Bounded copies

A copy reads from one buffer and writes into another, which it may do as far as each
of them reaches. A block of code is seen here through the list of its copies; such a
list is put together from those of the blocks it calls.
-/

namespace FrostSshCa.Lib

universe u

/-- What one copy reads and writes, and how far its buffers reach from there. -/
structure Copy where
  reads : Nat
  valid : Nat
  writes : Nat
  room : Nat
  deriving DecidableEq, Repr

/-- A copy of `n` units as they are. -/
def Copy.move (n valid room : Nat) : Copy := ⟨n, valid, n, room⟩

/-- The copy stays within both buffers. -/
def Copy.Fits (k : Copy) : Prop := k.reads ≤ k.valid ∧ k.writes ≤ k.room

instance (k : Copy) : Decidable k.Fits := inferInstanceAs (Decidable (k.reads ≤ k.valid ∧ _))

/-- All copies of a block stay within their buffers. -/
def AllFit (ks : List Copy) : Prop := ∀ k ∈ ks, k.Fits

instance (ks : List Copy) : Decidable (AllFit ks) := inferInstanceAs (Decidable (∀ k ∈ ks, k.Fits))

@[simp] theorem move_fits {n valid room : Nat} :
    (Copy.move n valid room).Fits ↔ n ≤ valid ∧ n ≤ room := Iff.rfl

variable {k : Copy} {ks ks' : List Copy}

@[simp] theorem allFit_nil : AllFit [] := nofun

@[simp] theorem allFit_cons : AllFit (k :: ks) ↔ k.Fits ∧ AllFit ks := List.forall_mem_cons

@[simp] theorem allFit_append :
    AllFit (ks ++ ks') ↔ AllFit ks ∧ AllFit ks' := List.forall_mem_append

/-- The copy stays within the buffer it writes, whatever it reads. -/
def Copy.Lands (k : Copy) : Prop := k.writes ≤ k.room

/-- All copies of a block do. -/
def AllLand (ks : List Copy) : Prop := ∀ k ∈ ks, k.Lands

@[simp] theorem move_lands {n valid room : Nat} :
    (Copy.move n valid room).Lands ↔ n ≤ room := Iff.rfl

@[simp] theorem allLand_nil : AllLand [] := nofun

@[simp] theorem allLand_cons : AllLand (k :: ks) ↔ k.Lands ∧ AllLand ks := List.forall_mem_cons

/-- A loop is safe if each pass is. -/
theorem AllFit.flatMap {α : Type u} {l : List α} {f : α → List Copy} (h : ∀ a ∈ l, AllFit (f a)) :
    AllFit (l.flatMap f) := by
  intro k hk
  obtain ⟨a, ha, hk⟩ := List.mem_flatMap.mp hk
  exact h a ha k hk

theorem AllFit.map {α : Type u} {l : List α} {f : α → Copy} (h : ∀ a ∈ l, (f a).Fits) :
    AllFit (l.map f) := by
  intro k hk
  obtain ⟨a, ha, rfl⟩ := List.mem_map.mp hk
  exact h a ha

/-- A block that may not be entered. -/
theorem AllFit.ite {p : Prop} [Decidable p] (h : ¬ p → AllFit ks) :
    AllFit (if p then [] else ks) := by
  split
  · exact allFit_nil
  · next hp => exact h hp

end FrostSshCa.Lib
