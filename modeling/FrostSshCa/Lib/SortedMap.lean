import Mathlib

/-!
# Maps sorted by their keys

A map that is iterated in the order of its keys. Inserting the entries of such a map into
an empty one, in that order, gives the map again.
-/

namespace FrostSshCa.Lib

universe u v

variable {κ : Type u} {ν : Type v} [LinearOrder κ]

/-- Entries with their keys ascending. -/
structure SortedMap (κ : Type u) (ν : Type v) [LinearOrder κ] where
  entries : List (κ × ν)
  sorted : entries.Pairwise fun a b => a.1 < b.1

/-- The entry goes before the first larger key, in the place of its own. -/
def insertEntry (e : κ × ν) : List (κ × ν) → List (κ × ν)
  | [] => [e]
  | a :: l => if e.1 < a.1 then e :: a :: l else if e.1 = a.1 then e :: l else a :: insertEntry e l

theorem mem_insertEntry {e a : κ × ν} {l : List (κ × ν)} (h : a ∈ insertEntry e l) :
    a = e ∨ a ∈ l := by
  induction l with
  | nil => exact .inl (List.mem_singleton.mp h)
  | cons b l ih =>
    unfold insertEntry at h
    split at h
    · exact List.mem_cons.mp h
    split at h
    · exact (List.mem_cons.mp h).imp_right (List.mem_cons_of_mem b)
    · rcases List.mem_cons.mp h with rfl | h
      · exact .inr (List.mem_cons_self ..)
      · exact (ih h).imp_right (List.mem_cons_of_mem b)

theorem insertEntry_sorted (e : κ × ν) {l : List (κ × ν)}
    (h : l.Pairwise fun a b => a.1 < b.1) : (insertEntry e l).Pairwise fun a b => a.1 < b.1 := by
  induction l with
  | nil => exact List.pairwise_singleton ..
  | cons a l ih =>
    obtain ⟨ha, hl⟩ := List.pairwise_cons.mp h
    unfold insertEntry
    split
    · next hlt =>
      refine List.pairwise_cons.mpr ⟨fun b hb => ?_, h⟩
      rcases List.mem_cons.mp hb with rfl | hb
      · exact hlt
      · exact hlt.trans (ha b hb)
    split
    · next heq => exact List.pairwise_cons.mpr ⟨fun b hb => heq ▸ ha b hb, hl⟩
    · next hle hne =>
      refine List.pairwise_cons.mpr ⟨fun b hb => ?_, ih hl⟩
      rcases mem_insertEntry hb with rfl | hb
      · exact lt_of_le_of_ne (not_lt.mp hle) (Ne.symm hne)
      · exact ha b hb

/-- An entry with the largest key goes to the end. -/
theorem insertEntry_last {e : κ × ν} {l : List (κ × ν)} (h : ∀ a ∈ l, a.1 < e.1) :
    insertEntry e l = l ++ [e] := by
  induction l with
  | nil => rfl
  | cons a l ih =>
    have ha := h a (List.mem_cons_self ..)
    unfold insertEntry
    rw [if_neg ha.asymm, if_neg ha.ne', ih fun b hb => h b (List.mem_cons_of_mem a hb)]
    rfl

namespace SortedMap

def empty : SortedMap κ ν := ⟨[], .nil⟩

def insert (m : SortedMap κ ν) (e : κ × ν) : SortedMap κ ν :=
  ⟨insertEntry e m.entries, insertEntry_sorted e m.sorted⟩

theorem ext_entries {m m' : SortedMap κ ν} (h : m.entries = m'.entries) : m = m' := by
  cases m
  cases m'
  cases h
  rfl

instance [DecidableEq ν] : DecidableEq (SortedMap κ ν) := fun m m' =>
  decidable_of_iff (m.entries = m'.entries) ⟨ext_entries, congrArg entries⟩

theorem foldl_insert_append {l : List (κ × ν)} {m : SortedMap κ ν}
    (h : (m.entries ++ l).Pairwise fun a b => a.1 < b.1) :
    (l.foldl insert m).entries = m.entries ++ l := by
  induction l generalizing m with
  | nil => exact (List.append_nil _).symm
  | cons e l ih =>
    have hlast : (m.insert e).entries = m.entries ++ [e] := by
      refine insertEntry_last fun a ha => ?_
      exact (List.pairwise_append.mp h).2.2 a ha e (List.mem_cons_self ..)
    have happ : (m.insert e).entries ++ l = m.entries ++ e :: l := by
      rw [hlast, List.append_assoc]
      rfl
    rw [List.foldl_cons, ih (by rw [happ]; exact h), happ]

/-- **Rebuilding** a map from its entries gives the map. -/
theorem foldl_insert (m : SortedMap κ ν) : m.entries.foldl insert empty = m :=
  ext_entries (foldl_insert_append (m := empty) m.sorted)

end SortedMap

end FrostSshCa.Lib
